import LinuxLearning.ProdCons.Deadlock
/-!
# `prodcons_threads2.c`: the pipeline comes to rest

Each line that is read makes a bounded amount of work for the three threads that move it: 4 statements of
`user_input_thread`, 15 of `producer_thread` and 11 of `consumer_thread`. `Pipeline.rank` is what is left of it, a unit
of `seminput` standing for a line that the producer has not taken up, one of `semitems` for a string that the consumer
has not. The display loops for ever; what it does changes nothing here.

* `rank_step` — a step costs one unit, but for those of the display;
* `Tally` — the lines read, the posts and waits of `seminput` and the strings stored, in any run without a failing call;
* `stuck_cases` — why a thread cannot go on;
* `rest_law` — the work is bounded by the lines read, the threads can always go on to the end of it, and then each line
  has been handed to the consumer.
-/

namespace ProdCons

open Threads

/-- The statements of a call, and for each string stored those of its `getitem`. -/
def Pc.rank : Pc → ℕ
  | .test .putitem => 23
  | .wait .putitem => 22
  | .lock .putitem => 21
  | .copy .putitem => 20
  | .advance .putitem => 19
  | .tally .putitem => 18
  | .unlock .putitem => 17
  | .post .putitem => 16
  | .lock .getitem => 10
  | .copy .getitem => 9
  | .advance .getitem => 8
  | .tally .getitem => 7
  | .unlock .getitem => 6
  | .post .getitem => 5
  | .ret _ _ => 4
  | .test .getitem => 1
  | _ => 0

def UserInputPc.rank : UserInputPc → ℕ
  | .fgets => 0
  | .lock => 30
  | .copy => 29
  | .unlock => 28
  | .post => 27

def ProducerPc.rank : ProducerPc → ℕ
  | .lock => 25
  | .enter => 24
  | .unlock _ => 3
  | .check _ => 2
  | .loop => 1
  | .wait | .inside => 0

def ConsumerPc.rank : ConsumerPc → ℕ
  | .check _ => 3
  | .enter => 2
  | .inside => 0

section
variable {α : Type*}

/-- The work in the calls and behind the semaphores. -/
def work (c : Config Thread (Mem Thread α) Pc) : ℕ :=
  26 * c.mem.seminput.value + 11 * c.mem.semitems.value + total Pc.rank c.pc

def Pipeline.rank (s : Pipeline α) : ℕ :=
  if s.exited.isSome then 0 else s.userInput.rank + s.producer.rank + s.consumer.rank + work s.calls + 1

variable {s s' : Pipeline α} {a : Choice α} {t : Thread} {p p' : Pc} {b : Act α} {m m' : Mem Thread α}

theorem rank_running (hrun : s.exited = none) :
    s.rank = s.userInput.rank + s.producer.rank + s.consumer.rank + work s.calls + 1 := by
  unfold Pipeline.rank
  rw [hrun]
  rfl

theorem rank_le (s : Pipeline α) :
    s.rank ≤ s.userInput.rank + s.producer.rank + s.consumer.rank + work s.calls + 1 := by
  unfold Pipeline.rank
  split
  · exact Nat.zero_le _
  · exact Nat.le_refl _

theorem rank_exited (hexit : s.exited.isSome) : s.rank = 0 := if_pos hexit

/-- One thread moves. -/
theorem work_step (c : Config Thread (Mem Thread α) Pc) (t : Thread) (m' : Mem Thread α) (p' : Pc) :
    work ⟨m', Function.update c.pc t p'⟩ + (26 * c.mem.seminput.value + 11 * c.mem.semitems.value + (c.pc t).rank) =
      work c + (26 * m'.seminput.value + 11 * m'.semitems.value + p'.rank) := by
  have htotal := total_step Pc.rank c.pc t p'
  simp only [work]
  omega

/-! ## What a step costs -/

/-- The statements of `getitem` and `putitem`. -/
theorem within_cost {c : Call} (hp : p.within c = true) (hready : m.initdone = true) (hb : ∀ e, b ≠ .err e)
    (hret : ∀ d r, p ≠ .ret d r) (h : stmt t p b m = some (m', p')) :
    m'.seminput = m.seminput ∧ 11 * m'.semitems.value + p'.rank + 1 ≤ 11 * m.semitems.value + p.rank := by
  cases stmt_cases h with
  | call | display | postInput | waitInput | enter | ranBefore | init | dlock | dread | dunlock => cases hp
  | interrupted d => exact absurd rfl (hb EINTR)
  | waitFails d e | lockFails d e | unlockFails d e | postFails d e => exact absurd rfl (hb e)
  | unready d hd =>
    rw [hready] at hd
    cases hd
  | ret d r => exact absurd rfl (hret d r)
  | ready d | lock d | advance d | tally d | unlock d =>
    refine ⟨rfl, ?_⟩
    cases d <;> simp only [Pc.rank] <;> omega
  | waitItems v hv =>
    have hvalue := (Sem.wait?_eq_some.1 hv).1
    refine ⟨rfl, ?_⟩
    simp only [Pc.rank]
    omega
  | waitSlots | copyOut | copyIn | postSlots | postItems =>
    refine ⟨rfl, ?_⟩
    simp only [Pc.rank, Sem.post_value]
    omega

theorem rank_userInput (hS : Smooth s) (hrun : s.exited = none) (h : UserInputStep s a s') :
    s'.rank + 31 * s.lines.length + 1 ≤ s.rank + 31 * s'.lines.length := by
  have hle := rank_le s'
  rw [rank_running hrun]
  cases h with
  | fgets x hu =>
    simp only [hu, UserInputPc.rank, List.length_append, List.length_singleton] at hle ⊢
    omega
  | eof hu =>
    rw [rank_exited rfl]
    show 0 + 31 * s.lines.length + 1 ≤ _ + 31 * s.lines.length
    omega
  | lock hu | copy hu | unlock hu =>
    simp only [hu, UserInputPc.rank] at hle ⊢
    omega
  | post hu c hc =>
    obtain ⟨m, p, hs, rfl⟩ := step_eq_some.1 hc
    obtain ⟨hpc, rfl, rfl⟩ := stmt_postInput hs
    have hwork := work_step s.calls .userInput
      { s.calls.mem with seminput := s.calls.mem.seminput.post, posts := s.calls.mem.posts + 1 } .out
    simp only [hu, UserInputPc.rank] at hle ⊢
    simp only [hS.userInput, Sem.post_value] at hwork
    omega

theorem rank_producer (hS : Smooth s) (hok : a.isErr = false) (h : Pipeline.step (.producer, a) s = some s') :
    s'.rank + 1 ≤ s.rank ∧ s'.lines = s.lines := by
  have hrun := step_running h
  have hle := rank_le s'
  rw [rank_running hrun]
  by_cases hin : s.producer = .inside
  · obtain ⟨b, c, hb, hc, hcases⟩ := producer_inside hin hok h
    obtain ⟨m, q, hstmt, rfl⟩ := step_eq_some.1 hc
    have hwork := work_step s.calls .producer m q
    have hput := hS.inPut hin
    rcases hcases with ⟨d, r, hpc, rfl⟩ | ⟨hret, rfl⟩
    · simp only [hpc] at hput hstmt
      cases stmt_cases hstmt with
      | ret =>
        simp only [hpc, Pc.rank] at hwork
        refine ⟨?_, rfl⟩
        simp only [hin, ProducerPc.rank] at hle ⊢
        omega
    · obtain ⟨hinput, hcost⟩ := within_cost hput hS.flow.ready hb hret hstmt
      rw [hinput] at hwork
      refine ⟨?_, rfl⟩
      dsimp only at hle hcost ⊢
      omega
  · have hpc := hS.outPut hin
    cases producer_cases h with
    | copyIn hp | inside hp | fails hp | ret hp => exact absurd hp hin
    | loop hp | lock hp | unlock r hp | again hp =>
      simp only [ProducerPc.rank] at hle
      simp only [hp, ProducerPc.rank]
      exact ⟨by omega, trivial⟩
    | exit r hp =>
      rw [rank_exited rfl]
      exact ⟨by omega, rfl⟩
    | wait hp c hc =>
      obtain ⟨m, q, hstmt, rfl⟩ := step_eq_some.1 hc
      obtain ⟨-, rfl, v, hv, rfl⟩ := stmt_waitInput hstmt
      have hwork := work_step s.calls .producer { s.calls.mem with seminput := v, waits := s.calls.mem.waits + 1 } .out
      have hvalue := (Sem.wait?_eq_some.1 hv).1
      simp only [hpc] at hwork
      simp only [ProducerPc.rank] at hle
      simp only [hp, ProducerPc.rank]
      exact ⟨by omega, trivial⟩
    | enter hp c hc =>
      obtain ⟨m, q, hstmt, rfl⟩ := step_eq_some.1 hc
      obtain ⟨-, rfl, rfl⟩ := stmt_call hstmt
      have hwork := work_step s.calls .producer s.calls.mem (.test .putitem)
      simp only [hpc, Pc.rank] at hwork
      simp only [ProducerPc.rank] at hle
      simp only [hp, ProducerPc.rank]
      exact ⟨by omega, trivial⟩

theorem rank_consumer (hS : Smooth s) (hok : a.isErr = false) (h : Pipeline.step (.consumer, a) s = some s') :
    s'.rank + 1 ≤ s.rank ∧ s'.lines = s.lines := by
  have hrun := step_running h
  have hle := rank_le s'
  rw [rank_running hrun]
  rcases consumer_outside h with hin | ⟨hp, c, hc, rfl⟩ | ⟨r, hp, rfl⟩
  · obtain ⟨b, c, hb, hc, hcases⟩ := consumer_inside hin hok h
    obtain ⟨m, q, hstmt, rfl⟩ := step_eq_some.1 hc
    have hwork := work_step s.calls .consumer m q
    have hget := hS.inGet hin
    rcases hcases with ⟨d, r, hpc, rfl⟩ | ⟨hret, rfl⟩
    · simp only [hpc] at hget hstmt
      cases stmt_cases hstmt with
      | ret =>
        simp only [hpc, Pc.rank] at hwork
        refine ⟨?_, rfl⟩
        simp only [hin, ConsumerPc.rank] at hle ⊢
        omega
    · obtain ⟨hinput, hcost⟩ := within_cost hget hS.flow.ready hb hret hstmt
      rw [hinput] at hwork
      refine ⟨?_, rfl⟩
      dsimp only at hle hcost ⊢
      omega
  · have hpc := hS.outGet (by simp [hp])
    obtain ⟨m, q, hstmt, rfl⟩ := step_eq_some.1 hc
    obtain ⟨-, rfl, rfl⟩ := stmt_call hstmt
    have hwork := work_step s.calls .consumer s.calls.mem (.test .getitem)
    simp only [hpc, Pc.rank] at hwork
    simp only [ConsumerPc.rank] at hle
    simp only [hp, ConsumerPc.rank]
    exact ⟨by omega, trivial⟩
  · rw [if_pos (hS.get r hp)] at hle ⊢
    simp only [ConsumerPc.rank] at hle
    simp only [hp, ConsumerPc.rank]
    exact ⟨by omega, trivial⟩

theorem showing_cost (hp : p.showing = true) (hout : p = .out → b = .display) (h : stmt t p b m = some (m', p')) :
    m'.seminput = m.seminput ∧ m'.semitems = m.semitems ∧ p'.rank = p.rank := by
  cases stmt_cases h with
  | call | postInput | waitInput => cases hout rfl
  | display | dlock | dread | dunlock => exact ⟨rfl, rfl, rfl⟩
  | _ => cases hp

theorem rank_display (hS : Smooth s) (h : Pipeline.step (.display, a) s = some s') :
    s'.rank ≤ s.rank ∧ s'.lines = s.lines := by
  have hle := rank_le s'
  rw [rank_running (step_running h)]
  obtain ⟨b, c, -, hc, rfl, hdisplay⟩ := display_cases h
  obtain ⟨m, q, hstmt, rfl⟩ := step_eq_some.1 hc
  obtain ⟨hinput, hitems, hrank⟩ := showing_cost hS.display hdisplay hstmt
  have hwork := work_step s.calls .display m q
  rw [hinput, hitems, hrank] at hwork
  refine ⟨?_, rfl⟩
  dsimp only at hle hwork ⊢
  omega

/-- The display makes no progress. -/
def idle (a : Thread × Choice α) : Bool := a.1 = .display

theorem rank_step (hS : Smooth s) {a : Thread × Choice α} (hok : a.2.isErr = false)
    (h : Pipeline.step a s = some s') :
    s'.rank + 31 * s.lines.length + 1 ≤ s.rank + 31 * s'.lines.length + if idle a then 1 else 0 := by
  obtain ⟨t, a⟩ := a
  cases t with
  | userInput => exact Nat.le_add_right_of_le (rank_userInput hS (step_running h) (userInput_cases h))
  | producer =>
    obtain ⟨hcost, hlines⟩ := rank_producer hS hok h
    rw [hlines]
    omega
  | consumer =>
    obtain ⟨hcost, hlines⟩ := rank_consumer hS hok h
    rw [hlines]
    omega
  | display =>
    obtain ⟨hcost, hlines⟩ := rank_display hS h
    have hidle : idle ((.display, a) : Thread × Choice α) = true := rfl
    rw [hlines, if_pos hidle]
    omega

/-- How long a run can be. -/
theorem run_length [Inhabited α] {acts : List (Thread × Choice α)} (hok : ∀ a ∈ acts, a.2.isErr = false)
    (h : Run.exec Pipeline.step acts (.start .initialised) = some s) :
    acts.length + s.rank ≤ 31 * s.lines.length + acts.countP idle + 4 := by
  have hstart : (Pipeline.start .initialised : Pipeline α).rank = 4 := by
    have htotal : total Pc.rank (fun _ : Thread => Pc.out) = 0 := total_eq_zero fun _ => rfl
    show 0 + 1 + 2 + (26 * 0 + 11 * 0 + total Pc.rank (fun _ : Thread => Pc.out)) + 1 = 4
    rw [htotal]
  -- the list that is collected is the run itself
  have hstep : ∀ (a : Thread × Choice α) s s' l, a.2.isErr = false →
      (Smooth s ∧ l.length + s.rank ≤ 31 * s.lines.length + l.countP idle + 4) → Pipeline.step a s = some s' →
        Smooth s' ∧ (l ++ [a]).length + s'.rank ≤ 31 * s'.lines.length + (l ++ [a]).countP idle + 4 := by
    rintro a s s' l hok ⟨hS, hlength⟩ hs
    have hcost := rank_step hS hok hs
    refine ⟨hS.step hok hs, ?_⟩
    rw [List.length_append, List.countP_append, List.countP_singleton, List.length_singleton]
    omega
  have hrun := Run.collected (l := []) hstep hok ⟨.start, by rw [hstart]; exact Nat.le_add_left _ _⟩ h
  rw [List.nil_append, List.flatMap_singleton'] at hrun
  exact hrun.2

/-! ## What is on its way -/

/-- A line has been read and not been posted. -/
def UserInputPc.ahead : UserInputPc → ℕ
  | .fgets => 0
  | _ => 1

structure Tally (s : Pipeline α) : Prop where
  ring : Inv s.calls
  once : s.calls.mem.initonce = .done
  posts : s.lines.length = s.calls.mem.posts + s.userInput.ahead
  seminput : s.calls.mem.posts = s.calls.mem.seminput.value + s.calls.mem.waits
  waits : s.calls.mem.waits = s.calls.mem.ring.stored.length + s.token

theorem Tally.start [Inhabited α] : Tally (α := α) (.start .initialised) :=
  ⟨start_inv (.inr rfl), rfl, rfl, rfl, rfl⟩

/-- A step that brings no line and leaves the calls alone. -/
theorem Tally.same (hT : Tally s) (calls : s'.calls = s.calls) (token : s'.token = s.token)
    (lines : s'.lines = s.lines) (ahead : s'.userInput.ahead = s.userInput.ahead) : Tally s' := by
  refine ⟨?_, ?_, ?_, ?_, ?_⟩
  · rw [calls]
    exact hT.ring
  · rw [calls]
    exact hT.once
  · rw [lines, calls, ahead]
    exact hT.posts
  · rw [calls]
    exact hT.seminput
  · rw [calls, token]
    exact hT.waits

/-- A step inside the calls that is no copy into the ring. -/
theorem Tally.calls (hT : Tally s) {b : Act α} {c : Config Thread (Mem Thread α) Pc} (hpost : b ≠ .postInput)
    (hwait : b ≠ .waitInput) (hcopy : ∀ x, b ≠ .copyIn x) (hc : Threads.step stmt (t, b) s.calls = some c)
    (calls : s'.calls = c) (token : s'.token = s.token) (lines : s'.lines = s.lines)
    (ahead : s'.userInput.ahead = s.userInput.ahead) : Tally s' := by
  obtain ⟨hstored, hposts, hwaits, hsem⟩ := quiet_step hT.ring hT.once hpost hwait hcopy hc
  subst calls
  refine ⟨hT.ring.step hc, once_step hT.ring hT.once hc, ?_, ?_, ?_⟩
  · rw [lines, hposts, ahead]
    exact hT.posts
  · rw [hposts, hwaits, hsem]
    exact hT.seminput
  · rw [hwaits, hstored, token]
    exact hT.waits

theorem Tally.userInput (hT : Tally s) (h : UserInputStep s a s') : Tally s' := by
  have hposts := hT.posts
  cases h with
  | fgets x hu =>
    refine ⟨hT.ring, hT.once, ?_, hT.seminput, hT.waits⟩
    simp only [hu, UserInputPc.ahead, List.length_append, List.length_singleton] at hposts ⊢
    omega
  | eof hu => exact hT.same rfl rfl rfl rfl
  | lock hu _ | copy hu | unlock hu =>
    refine hT.same rfl rfl rfl ?_
    simp only [hu]
    rfl
  | post hu c hc =>
    have hring := hT.ring.step hc
    have honce := once_step hT.ring hT.once hc
    obtain ⟨m, p, hs, rfl⟩ := step_eq_some.1 hc
    obtain ⟨hpc, rfl, rfl⟩ := stmt_postInput hs
    have hsem := hT.seminput
    refine ⟨hring, honce, ?_, ?_, ?_⟩
    · simp only [hu, UserInputPc.ahead] at hposts ⊢
      omega
    · simp only [Sem.post_value]
      omega
    · simpa [Pipeline.token] using hT.waits

theorem Tally.producer (hT : Tally s) (hok : a.isErr = false) (h : ProducerStep s a s') : Tally s' := by
  have hwaits := hT.waits
  unfold Pipeline.token at hwaits
  cases h with
  | loop hp | lock hp _ | unlock r hp | again hp =>
    refine hT.same rfl ?_ rfl rfl
    unfold Pipeline.token
    rw [hp]
  | exit r hp hr => exact hT.same rfl rfl rfl rfl
  | fails hp e c hc => cases hok
  | wait hp c hc =>
    have hring := hT.ring.step hc
    have honce := once_step hT.ring hT.once hc
    obtain ⟨m, p, hs, rfl⟩ := step_eq_some.1 hc
    obtain ⟨hpc, rfl, v, hv, rfl⟩ := stmt_waitInput hs
    have hvalue := (Sem.wait?_eq_some.1 hv).1
    have hsem := hT.seminput
    simp only [hp] at hwaits
    refine ⟨hring, honce, hT.posts, ?_, ?_⟩
    · simp only
      omega
    · simp only [Pipeline.token]
      omega
  | enter hp c hc =>
    refine hT.calls (by simp) (by simp) (by simp) hc rfl ?_ rfl rfl
    obtain ⟨m, p, hs, rfl⟩ := step_eq_some.1 hc
    obtain ⟨hpc, rfl, rfl⟩ := stmt_call hs
    simp [Pipeline.token, hp, Pc.before]
  | inside hp c hc =>
    refine hT.calls (by simp) (by simp) (by simp) hc rfl ?_ rfl rfl
    obtain ⟨m, p, hs, rfl⟩ := step_eq_some.1 hc
    simpa [Pipeline.token, hp] using stmt_before hs
  | ret hp d r hr c hc =>
    refine hT.calls (by simp) (by simp) (by simp) hc rfl ?_ rfl rfl
    simp [Pipeline.token, hp, hr, Pc.before]
  | copyIn hp c hc =>
    have hring := hT.ring.step hc
    have honce := once_step hT.ring hT.once hc
    obtain ⟨m, p, hs, rfl⟩ := step_eq_some.1 hc
    obtain ⟨hpc, rfl, rfl⟩ := stmt_copyIn hs
    simp only [hp, hpc, Pc.before] at hwaits
    refine ⟨hring, honce, hT.posts, hT.seminput, ?_⟩
    simp only [Pipeline.token, hp, Function.update_self, Pc.before, Buffer.copyIn, List.length_append,
      List.length_singleton]
    omega

theorem Tally.reader (hT : Tally s) (ht : t ≠ .producer) (h : ReaderStep s t a s') : Tally s' := by
  cases h with
  | check k e => exact hT.same rfl rfl rfl rfl
  | calls b hb c hc k =>
    refine hT.calls hb.postInput hb.waitInput hb.copyIn hc rfl ?_ rfl rfl
    obtain ⟨m, p, hs, rfl⟩ := step_eq_some.1 hc
    simp [Pipeline.token, Function.update_of_ne ht.symm]

/-- **Step lemma.** -/
theorem Tally.step (hT : Tally s) {a : Thread × Choice α} (hok : a.2.isErr = false)
    (h : Pipeline.step a s = some s') : Tally s' := by
  obtain ⟨t, a⟩ := a
  cases t with
  | userInput => exact hT.userInput (userInput_cases h)
  | producer => exact hT.producer hok (producer_cases h)
  | consumer => exact hT.reader (by simp) (reader_cases h (.inl rfl))
  | display => exact hT.reader (by simp) (reader_cases h (.inr rfl))

/-! ## At rest -/

/-- What a statement in a call takes when it is to succeed. -/
def Pipeline.act (s : Pipeline α) (p : Pc) : Act α :=
  if p = .copy .putitem then .copyIn s.userInputBuffer else .go

/-- A call goes on unless it is blocked. -/
theorem call_goes (hS : Smooth s) {c : Call} (hp : (s.calls.pc t).within c = true)
    (hfree : ∀ l, (s.calls.pc t).takes = some l → ¬ s.Unavailable l) :
    (stmt t (s.calls.pc t) (s.act (s.calls.pc t)) s.calls.mem).isSome := by
  have hready := hS.flow.ready
  generalize s.calls.pc t = p at hp hfree
  cases p with
  | out | once | init | dlock | dread | dunlock => cases hp
  | test d => simp [stmt, Pipeline.act]
  | wait d =>
    cases d with
    | getitem =>
      have hvalue : s.calls.mem.semitems.value ≠ 0 := hfree .semitems rfl
      simp [stmt, Pipeline.act, Sem.wait?, Nat.pos_of_ne_zero hvalue]
    | putitem =>
      have hvalue : s.calls.mem.semslots.value ≠ 0 := hfree .semslots rfl
      simp [stmt, Pipeline.act, Sem.wait?, Nat.pos_of_ne_zero hvalue]
  | lock d =>
    have hlock : s.calls.mem.dataBufferLock = none := not_not.1 (hfree .dataBuffer rfl)
    simp [stmt, Pipeline.act, lock?, hlock]
  | copy d | post d => cases d <;> simp [stmt, Pipeline.act]
  | advance d | tally d | unlock d | ret d r => simp [stmt, Pipeline.act]

theorem producer_goes (hS : Smooth s) (hrun : s.exited = none) (hin : s.producer = .inside)
    (hstuck : Pipeline.step (.producer, .go) s = none) : ∃ l, s.takes .producer = some l ∧ s.Unavailable l := by
  by_contra hfree
  push Not at hfree
  have hput := hS.inPut hin
  obtain ⟨⟨m, q⟩, hstmt⟩ := Option.isSome_iff_exists.1
    (call_goes hS hput fun l hl => hfree l (by simpa [Pipeline.takes, hin] using hl))
  unfold Pipeline.step at hstuck
  rw [if_neg (by simp [hrun])] at hstuck
  simp only [producerStep, hin] at hstuck
  have hcall : ∀ b k, s.act (s.calls.pc .producer) = b → s.call .producer b k ≠ none := by
    rintro b k rfl hnone
    simp [Pipeline.call, Threads.step, hstmt] at hnone
  split at hstuck
  · next hpc _ => exact hcall _ _ (by rw [hpc]; rfl) hstuck
  · next d hpc _ =>
    rw [hpc] at hput
    obtain rfl : d = .putitem := of_decide_eq_true hput
    exact hcall _ _ (by rw [hpc]; rfl) hstuck
  · next hcopy => exact hcall _ _ (if_neg (hcopy _)) hstuck
  · next herr => cases herr
  · next hgo _ _ _ => exact hgo rfl

theorem consumer_goes (hS : Smooth s) (hrun : s.exited = none) (hin : s.consumer = .inside)
    (hstuck : Pipeline.step (.consumer, .go) s = none) : ∃ l, s.takes .consumer = some l ∧ s.Unavailable l := by
  by_contra hfree
  push Not at hfree
  have hget := hS.inGet hin
  obtain ⟨⟨m, q⟩, hstmt⟩ := Option.isSome_iff_exists.1
    (call_goes hS hget fun l hl => hfree l (by simpa [Pipeline.takes, hin] using hl))
  have hact : s.act (s.calls.pc .consumer) = .go := by
    refine if_neg fun hpc => ?_
    rw [hpc] at hget
    cases hget
  rw [hact] at hstmt
  unfold Pipeline.step at hstuck
  rw [if_neg (by simp [hrun])] at hstuck
  simp only [consumerStep, hin] at hstuck
  split at hstuck
  · simp [Pipeline.call, Threads.step, hstmt] at hstuck
  · simp [Pipeline.call, Threads.step, hstmt] at hstuck
  · next herr => cases herr
  · next hgo _ _ => exact hgo rfl

/-- **A thread that cannot go on** waits for a line or is blocked. -/
theorem stuck_cases (hS : Smooth s) (hrun : s.exited = none) (ht : t ≠ .display)
    (hstuck : Pipeline.step (t, .go) s = none) :
    t = .userInput ∧ s.userInput = .fgets ∨ ∃ l, s.takes t = some l ∧ s.Unavailable l := by
  cases t with
  | userInput =>
    cases hu : s.userInput with
    | fgets => exact .inl ⟨rfl, rfl⟩
    | lock =>
      refine .inr ⟨.inputBuffer, by simp [Pipeline.takes, hu], fun hfree => ?_⟩
      simp [Pipeline.step, hrun, userInputStep, hu, lock?, hfree] at hstuck
    | copy | unlock => simp [Pipeline.step, hrun, userInputStep, hu] at hstuck
    | post =>
      simp [Pipeline.step, hrun, userInputStep, hu, Pipeline.call, Threads.step, hS.userInput, stmt] at hstuck
  | producer =>
    cases hp : s.producer with
    | loop | unlock | check => simp [Pipeline.step, hrun, producerStep, hp] at hstuck
    | wait =>
      have hpc := hS.outPut (by simp [hp])
      refine .inr ⟨.seminput, by simp [Pipeline.takes, hp], ?_⟩
      by_contra hvalue
      have hpos := Nat.pos_of_ne_zero hvalue
      simp [Pipeline.step, hrun, producerStep, hp, Pipeline.call, Threads.step, hpc, stmt, Sem.wait?, hpos] at hstuck
    | lock =>
      refine .inr ⟨.inputBuffer, by simp [Pipeline.takes, hp], fun hfree => ?_⟩
      simp [Pipeline.step, hrun, producerStep, hp, lock?, hfree] at hstuck
    | enter =>
      have hpc := hS.outPut (by simp [hp])
      simp [Pipeline.step, hrun, producerStep, hp, Pipeline.call, Threads.step, hpc, stmt] at hstuck
    | inside => exact .inr (producer_goes hS hrun hp hstuck)
  | consumer =>
    cases hp : s.consumer with
    | check => simp [Pipeline.step, hrun, consumerStep, hp] at hstuck
    | enter =>
      have hpc := hS.outGet (by simp [hp])
      simp [Pipeline.step, hrun, consumerStep, hp, Pipeline.call, Threads.step, hpc, stmt] at hstuck
    | inside => exact .inr (consumer_goes hS hrun hp hstuck)
  | display => exact absurd rfl ht

/-- No thread goes on but the display, which does not keep `data_buffer_lock` from the others. -/
structure AtRest (s : Pipeline α) : Prop where
  running : s.exited = none
  unlocked : s.calls.mem.dataBufferLock ≠ some .display
  stuck : ∀ t ≠ .display, Pipeline.step (t, .go) s = none

theorem AtRest.data (hR : AtRest s) (hS : Smooth s) : s.calls.mem.dataBufferLock = none := by
  by_contra hne
  obtain ⟨u, hu⟩ := Option.ne_none_iff_exists'.1 hne
  have hother : u ≠ .display := by
    rintro rfl
    exact hR.unlocked hu
  rcases stuck_cases hS hR.running hother (hR.stuck u hother) with ⟨rfl, -⟩ | ⟨l, hl, -⟩
  · have hholds := hS.flow.data _ hu
    rw [hS.userInput] at hholds
    cases hholds
  · rw [hS.holder_runs hu] at hl
    cases hl

theorem AtRest.consumer (hR : AtRest s) (hS : Smooth s) :
    s.calls.pc .consumer = .wait .getitem ∧ s.calls.mem.semitems.value = 0 := by
  rcases stuck_cases hS hR.running (by simp) (hR.stuck .consumer (by simp)) with ⟨h, -⟩ | ⟨l, hl, hzero⟩
  · cases h
  · rcases blocked_cases hS hl with rfl | ⟨h, -⟩ | ⟨h, -⟩ | ⟨-, rfl, hpc⟩
    · exact absurd (hR.data hS) hzero
    · cases h
    · cases h
    · exact ⟨hpc, hzero⟩

theorem AtRest.producer (hR : AtRest s) (hS : Smooth s) :
    s.producer = .wait ∧ s.calls.mem.seminput.value = 0 := by
  rcases stuck_cases hS hR.running (by simp) (hR.stuck .producer (by simp)) with ⟨h, -⟩ | ⟨l, hl, hzero⟩
  · cases h
  rcases blocked_cases hS hl with rfl | ⟨h, -⟩ | ⟨-, ⟨rfl, hp⟩ | ⟨rfl, hp⟩ | ⟨rfl, -, hpc⟩⟩ | ⟨h, -⟩
  · exact absurd (hR.data hS) hzero
  · cases h
  · exact ⟨hp, hzero⟩
  · -- `user_input_thread` has the lock, and nothing to wait for
    obtain ⟨u, howner⟩ := Option.ne_none_iff_exists'.1 hzero
    obtain ⟨rfl, hu⟩ := hS.userInput_keeps (by rw [hp]; rfl) howner
    rcases stuck_cases hS hR.running (by simp) (hR.stuck .userInput (by simp)) with ⟨-, hf⟩ | ⟨l, hl, -⟩
    · rw [hf] at hu
      rcases hu with hu | hu <;> cases hu
    · rcases hu with hu | hu <;> simp [Pipeline.takes, hu] at hl
  · -- there would be five strings for the consumer
    obtain ⟨hwait, hitems⟩ := hR.consumer hS
    have hfive := hS.not_both hpc (by rw [hwait]; exact ⟨rfl, rfl⟩) hzero
    omega
  · cases h

theorem AtRest.userInput (hR : AtRest s) (hS : Smooth s) : s.userInput = .fgets := by
  rcases stuck_cases hS hR.running (by simp) (hR.stuck .userInput (by simp)) with ⟨-, hf⟩ | ⟨l, hl, hzero⟩
  · exact hf
  rcases blocked_cases hS hl with rfl | ⟨-, rfl, hu⟩ | ⟨h, -⟩ | ⟨h, -⟩
  · exact absurd (hR.data hS) hzero
  · obtain ⟨u, howner⟩ := Option.ne_none_iff_exists'.1 hzero
    obtain ⟨rfl, hkeeps⟩ := hS.producer_keeps (by simp [hu]) (by simp [hu]) howner
    rw [(hR.producer hS).1] at hkeeps
    cases hkeeps
  · cases h
  · cases h

/-- As many strings have been taken out as lines were read. -/
theorem AtRest.all (hR : AtRest s) (hS : Smooth s) (hT : Tally s) :
    s.calls.mem.ring.fetched.length = s.lines.length := by
  obtain ⟨hproducer, hinput⟩ := hR.producer hS
  obtain ⟨hconsumer, hvalue⟩ := hR.consumer hS
  have hitem : total Pc.itemToken s.calls.pc = 0 := by
    refine total_eq_zero fun t => ?_
    cases t with
    | userInput => rw [hS.userInput]; rfl
    | producer => rw [hS.outPut (by simp [hproducer])]; rfl
    | consumer => rw [hconsumer]; rfl
    | display => exact (showing_tokens hS.display).2
  have hitems := hS.flow.items
  have hposts := hT.posts
  have hsem := hT.seminput
  have hwaits := hT.waits
  have htoken : s.token = 0 := by simp [Pipeline.token, hproducer]
  rw [hR.userInput hS] at hposts
  simp only [UserInputPc.ahead] at hposts
  omega

/-! ## On the way to rest -/

theorem showDistance_le (p : Pc) : p.showDistance ≤ 2 := by
  cases p <;> simp [Pc.showDistance]

/-- Nobody leaves the program but at the end of the input. -/
theorem go_running (hS : Smooth s) (h : Pipeline.step (t, .go) s = some s') :
    s'.exited = none ∧ s'.lines = s.lines := by
  have hrun := step_running h
  cases t with
  | userInput => cases userInput_cases h with
    | lock | copy | unlock | post => exact ⟨hrun, rfl⟩
  | producer => cases producer_cases h with
    | exit r hp hr => exact absurd (hS.put r (.inr hp)) hr
    | _ => exact ⟨hrun, rfl⟩
  | consumer =>
    rcases consumer_outside h with hin | ⟨-, c, -, rfl⟩ | ⟨r, hp, rfl⟩
    · obtain ⟨b, c, -, -, ⟨d, r, -, rfl⟩ | ⟨-, rfl⟩⟩ := consumer_inside hin rfl h
      · exact ⟨hrun, rfl⟩
      · exact ⟨hrun, rfl⟩
    · exact ⟨hrun, rfl⟩
    · rw [if_pos (hS.get r hp)]
      exact ⟨hrun, rfl⟩
  | display =>
    obtain ⟨b, c, -, -, rfl, -⟩ := display_cases h
    exact ⟨hrun, rfl⟩

/-- The display goes on to its unlock. -/
theorem display_next (hS : Smooth s) (hrun : s.exited = none) (hlock : s.calls.mem.dataBufferLock = some .display) :
    ∃ s', Pipeline.step (.display, .go) s = some s' ∧
      (s'.calls.pc .display).showDistance < (s.calls.pc .display).showDistance := by
  have hholds := hS.flow.data _ hlock
  have hshow := hS.display
  cases hd : s.calls.pc .display with
  | dread =>
    have hstmt : stmt (α := α) .display (s.calls.pc .display) .go s.calls.mem =
        some ({ s.calls.mem with ring := s.calls.mem.ring.show }, .dunlock) := by
      rw [hd]
      rfl
    exact ⟨_, display_go hrun (by simp [hd]) hstmt, by simp [Pc.showDistance]⟩
  | dunlock =>
    have hstmt : stmt (α := α) .display (s.calls.pc .display) .go s.calls.mem =
        some ({ s.calls.mem with dataBufferLock := none }, .out) := by
      rw [hd]
      rfl
    exact ⟨_, display_go hrun (by simp [hd]) hstmt, by simp [Pc.showDistance]⟩
  | out | dlock =>
    rw [hd] at hholds
    cases hholds
  | _ =>
    rw [hd] at hshow
    cases hshow

/-- Some thread goes on, and there is less to do. -/
theorem Smooth.nearer (hS : Smooth s) (hrun : s.exited = none) (hR : ¬ AtRest s) :
    ∃ t s', Pipeline.step (t, .go) s = some s' ∧ 3 * s'.rank + (s'.calls.pc .display).showDistance <
      3 * s.rank + (s.calls.pc .display).showDistance := by
  by_cases hlock : s.calls.mem.dataBufferLock = some .display
  · obtain ⟨s', hs, hless⟩ := display_next hS hrun hlock
    have hcost := (rank_display hS hs).1
    exact ⟨.display, s', hs, by omega⟩
  · obtain ⟨t, ht, hne⟩ : ∃ t, t ≠ .display ∧ Pipeline.step (t, .go) s ≠ none := by
      by_contra hnone
      push Not at hnone
      exact hR ⟨hrun, hlock, hnone⟩
    obtain ⟨s', hs⟩ := Option.ne_none_iff_exists'.1 hne
    have hcost := rank_step hS rfl hs
    have hidle : idle ((t, .go) : Thread × Choice α) = false := decide_eq_false ht
    have hshow := showDistance_le (s'.calls.pc .display)
    rw [(go_running hS hs).2, hidle] at hcost
    exact ⟨t, s', hs, by simp only [Bool.false_eq_true, if_false] at hcost; omega⟩

/-- **The threads come to rest** on their own, when no more lines are read. -/
theorem Smooth.settles (hS : Smooth s) (hrun : s.exited = none) : ∃ acts s', (∀ a ∈ acts, a.2 = .go) ∧
    Run.exec Pipeline.step acts s = some s' ∧ s'.lines = s.lines ∧ AtRest s' := by
  induction hn : 3 * s.rank + (s.calls.pc .display).showDistance using Nat.strong_induction_on generalizing s with
  | _ n ih =>
    by_cases hR : AtRest s
    · exact ⟨[], s, by simp, rfl, rfl, hR⟩
    · obtain ⟨t, s₁, hstep, hlt⟩ := hS.nearer hrun hR
      obtain ⟨hrun₁, hlines₁⟩ := go_running hS hstep
      have hS₁ : Smooth s₁ := hS.step (a := (t, .go)) rfl hstep
      obtain ⟨acts, s', hgo, hexec, hlines, hrest⟩ := ih _ (hn ▸ hlt) hS₁ hrun₁ rfl
      refine ⟨(t, .go) :: acts, s', ?_, Run.exec_cons.2 ⟨s₁, hstep, hexec⟩, hlines.trans hlines₁, hrest⟩
      intro a ha
      rcases List.mem_cons.1 ha with rfl | ha
      · rfl
      · exact hgo a ha

/-- **Rest.** In every run in which no call fails the three threads that move the lines take no more than 31 steps for
each line read, and 4. If no more lines are read, they can always go on until none of them has anything to do; then the
consumer has been handed as many strings as there were lines: the lines themselves, in their order, if each was stored
in an idle buffer. -/
theorem rest_law [Inhabited α] {acts : List (Thread × Choice α)} (hok : ∀ a ∈ acts, a.2.isErr = false)
    (h : Run.exec Pipeline.step acts (.start .initialised) = some s) :
    acts.length ≤ 31 * s.lines.length + acts.countP idle + 4 ∧
      (s.exited = none → ∃ acts' s', (∀ a ∈ acts', a.2 = .go) ∧ Run.exec Pipeline.step acts' s = some s' ∧
        s'.lines = s.lines ∧ AtRest s') ∧
      (AtRest s → s.calls.mem.ring.fetched.length = s.lines.length ∧
        (Run.Along Pipeline.step StoreIdle acts (.start .initialised) → s.calls.mem.ring.fetched = s.lines)) := by
  have halong : Run.Along Pipeline.step (fun a _ => a.2.isErr = false) acts (.start .initialised) :=
    Run.along_of_mem (fun a ha _ => hok a ha) _
  have hS := smooth_run hok h
  have hT : Tally s := Run.invariant (fun a s s' hok hT hs => hT.step hok hs) halong .start h
  refine ⟨Nat.le_of_add_right_le (run_length hok h), hS.settles, fun hR => ?_⟩
  have hall := hR.all hS hT
  refine ⟨hall, fun hidle => ?_⟩
  have hD : Delivery s := Run.invariant (fun a s s' hC hD hs => hD.step hC.1 hC.2 hs)
    (Run.along_and halong hidle) .start h
  exact hD.prefix.eq_of_length hall

end

/-- A line is read, stored and taken out; the consumer waits for the next one. -/
def oneLine : List (Thread × Choice Nat) := readLine 7 ++ go .producer 16 ++ go .consumer 13

theorem rest_law_sample : ∃ s : Pipeline Nat, Run.exec Pipeline.step oneLine (.start .initialised) = some s ∧
    s.calls.mem.ring.fetched = [7] := by
  have h : (Run.exec Pipeline.step oneLine (.start .initialised)).map (fun s => (s.lines, s.exited,
      s.calls.mem.dataBufferLock, [.userInput, .producer, .consumer].all fun t => (Pipeline.step (t, .go) s).isNone)) =
        some ([7], none, none, true) := by decide +kernel
  obtain ⟨s, hs, he⟩ := Option.map_eq_some_iff.1 h
  simp only [Prod.mk.injEq] at he
  obtain ⟨hlines, hrun, hlock, hstuck⟩ := he
  have hok : ∀ a ∈ oneLine, a.2.isErr = false := by decide
  have hidle : Run.Along Pipeline.step StoreIdle oneLine (.start .initialised) := by decide +kernel
  have hR : AtRest s := by
    refine ⟨hrun, by simp [hlock], fun t ht => Option.isNone_iff_eq_none.1 (List.all_eq_true.1 hstuck t ?_)⟩
    cases t with
    | display => exact absurd rfl ht
    | _ => decide
  exact ⟨s, hs, (((rest_law hok hs).2.2 hR).2 hidle).trans hlines⟩

end ProdCons
