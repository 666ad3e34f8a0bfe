import LinuxLearning.ProdCons.Pipeline
/-!
# `prodcons_threads.c`: lines on their way from `fgets` to `getitem`

`user_input_thread` stores a line in `user_input_buffer` and posts `seminput`; `producer_thread` waits for
`seminput` and copies the buffer into the ring. The ring tells `putitem` when a slot is free
(`semslots`); nothing tells `user_input_thread` when its buffer has been copied, so it may store the next
line first. Then the first line is gone and the second is delivered twice (`overwritten`).

A line is safe from this when `user_input_thread` stores it in a buffer that nobody is to copy any more:
`seminput` is 0 and the producer is not between its `sem_wait(&seminput)` and its copy (`BufferIdle`).
`Delivery` is the invariant of the runs in which every store finds the buffer idle, and gives
`delivered`: what `getitem` has handed out is the first of the lines read.
-/

namespace ProdCons

open Threads

section
variable {α : Type*}

/-- A line is in `user_input_buffer` and its `sem_post` is still to come. -/
def UserInputPc.unposted : UserInputPc → Nat
  | .unlock | .post => 1
  | _ => 0

/-- A line has been read and not stored yet. -/
def UserInputPc.read : UserInputPc → Bool
  | .lock | .copy => true
  | _ => false

/-- The producer is between its `sem_wait(&seminput)` and its copy. -/
def Pipeline.token (s : Pipeline α) : Nat :=
  match s.producer with
  | .lock | .enter => 1
  | .inside => (s.calls.pc .producer).before
  | _ => 0

/-- The line in `user_input_buffer` has been copied, or there is none yet. -/
def BufferIdle (s : Pipeline α) : Prop := s.calls.mem.seminput.value = 0 ∧ s.token = 0

instance (s : Pipeline α) : Decidable (BufferIdle s) :=
  inferInstanceAs (Decidable (s.calls.mem.seminput.value = 0 ∧ s.token = 0))

/-- The step does not store a line over one that the producer has still to copy. -/
def StoreIdle (a : Thread × Choice α) (s : Pipeline α) : Prop :=
  a = (.userInput, .go) → s.userInput = .copy → BufferIdle s

instance [DecidableEq α] (a : Thread × Choice α) (s : Pipeline α) : Decidable (StoreIdle a s) :=
  inferInstanceAs (Decidable (a = (.userInput, .go) → s.userInput = .copy → BufferIdle s))

structure Delivery (s : Pipeline α) : Prop where
  ring : Inv s.calls
  once : s.calls.mem.initonce = .done
  lines : s.lines = s.handed ++ if s.userInput.read then [s.pdatabuf] else []
  current : s.handed = s.calls.mem.ring.stored ∨
    s.handed = s.calls.mem.ring.stored ++ [s.userInputBuffer]
  posts : s.handed.length = s.calls.mem.posts + s.userInput.unposted
  seminput : s.calls.mem.posts = s.calls.mem.seminput.value + s.calls.mem.waits
  waits : s.calls.mem.waits = s.calls.mem.ring.stored.length + s.token

/-! ## The calls -/

variable {c c' : Config Thread (Mem Thread α) Pc} {t : Thread}

/-- Once the set-up is over it stays so. -/
theorem once_step (hI : Inv c) (hd : c.mem.initonce = .done) {b : Act α}
    (h : step stmt (t, b) c = some c') : c'.mem.initonce = .done := by
  obtain ⟨m, p, hs, rfl⟩ := step_eq_some.1 h
  simp only at hs ⊢
  by_cases hi : (c.pc t).setsUp = true
  · obtain ⟨d, i, hi⟩ := Pc.setsUp_iff.1 hi
    have hrun := ((hI.threads t).init d i hi).1
    rw [hd] at hrun; cases hrun
  · by_cases ho : ∃ d, c.pc t = .once d
    · obtain ⟨d, ho⟩ := ho
      rw [ho] at hs
      cases stmt_cases hs with
      | enter d hnot => rw [hd] at hnot; cases hnot
      | ranBefore d hdone => exact hdone
    · rw [← hd]
      exact (stmt_setup hs (fun d h => ho ⟨d, h⟩) (by simpa using hi)).1.once

/-- The statements of `getitem`, of the display and of `putitem` but for its copy. -/
theorem quiet_step (hI : Inv c) (hd : c.mem.initonce = .done) {b : Act α}
    (hpost : b ≠ .postInput) (hwait : b ≠ .waitInput) (hcopy : ∀ x, b ≠ .copyIn x)
    (h : step stmt (t, b) c = some c') :
    c'.mem.ring.stored = c.mem.ring.stored ∧ c'.mem.posts = c.mem.posts ∧
      c'.mem.waits = c.mem.waits ∧ c'.mem.seminput = c.mem.seminput := by
  obtain ⟨m, p, hs, rfl⟩ := step_eq_some.1 h
  simp only at hs ⊢
  have hstored : m.ring.stored = c.mem.ring.stored := by
    rcases stmt_ring hs with ⟨-, x, hx, -⟩ | ⟨-, -, hr⟩ | ⟨-, hr⟩
    · exact absurd hx (hcopy x)
    · rw [hr]; rfl
    · exact hr.stored
  rcases stmt_input hs with ⟨-, hb, -⟩ | ⟨-, hb, -⟩ | ⟨hp, hw, hsem | ⟨d, hi, -, -⟩⟩
  · exact absurd hb hpost
  · exact absurd hb hwait
  · exact ⟨hstored, hp, hw, hsem⟩
  · have hrun := ((hI.threads t).init d _ hi).1
    rw [hd] at hrun; cases hrun

/-! ## Every step keeps the invariant -/

variable {s s' : Pipeline α}

/-- A step that changes neither the lines nor a call of the producer. -/
theorem Delivery.quiet (hD : Delivery s) (ring : Inv s'.calls) (once : s'.calls.mem.initonce = .done)
    (quiet : s'.calls.mem.ring.stored = s.calls.mem.ring.stored ∧ s'.calls.mem.posts = s.calls.mem.posts ∧
      s'.calls.mem.waits = s.calls.mem.waits ∧ s'.calls.mem.seminput = s.calls.mem.seminput)
    (token : s'.token = s.token) (unposted : s'.userInput.unposted = s.userInput.unposted)
    (read : s'.userInput.read = s.userInput.read)
    (same : s'.lines = s.lines ∧ s'.handed = s.handed ∧ s'.pdatabuf = s.pdatabuf ∧
      s'.userInputBuffer = s.userInputBuffer) : Delivery s' := by
  obtain ⟨h1, h2, h3, h4⟩ := quiet
  obtain ⟨e1, e2, e3, e4⟩ := same
  refine ⟨ring, once, ?_, ?_, ?_, ?_, ?_⟩
  · rw [e1, e2, e3, read]; exact hD.lines
  · rw [e2, e4, h1]; exact hD.current
  · rw [e2, h2, unposted]; exact hD.posts
  · rw [h2, h3, h4]; exact hD.seminput
  · rw [h3, h1, token]; exact hD.waits

theorem Delivery.userInput (hD : Delivery s) {a : Choice α} (hidle : StoreIdle (.userInput, a) s)
    (h : UserInputStep s a s') : Delivery s' := by
  have hlines := hD.lines
  have hposts := hD.posts
  cases h with
  | fgets x hu =>
    rw [hu] at hlines hposts
    refine ⟨hD.ring, hD.once, ?_, hD.current, hposts, hD.seminput, hD.waits⟩
    simpa [UserInputPc.read] using hlines
  | eof hu => exact hD.quiet hD.ring hD.once ⟨rfl, rfl, rfl, rfl⟩ rfl rfl rfl ⟨rfl, rfl, rfl, rfl⟩
  | lock hu _ =>
    refine hD.quiet hD.ring hD.once ⟨rfl, rfl, rfl, rfl⟩ rfl ?_ ?_ ⟨rfl, rfl, rfl, rfl⟩
    all_goals simp only [hu]; rfl
  | copy hu =>
    -- an idle buffer has been copied, so that the new line is the only one on its way
    obtain ⟨hvalue, htoken⟩ := hidle rfl hu
    have hcopied : s.handed = s.calls.mem.ring.stored := by
      rcases hD.current with h | h
      · exact h
      · have h1 := hD.seminput
        have h2 := hD.waits
        rw [hu, h] at hposts
        simp only [UserInputPc.unposted, List.length_append, List.length_singleton] at hposts
        omega
    rw [hu] at hlines hposts
    refine ⟨hD.ring, hD.once, ?_, .inr ?_, ?_, hD.seminput, hD.waits⟩
    · simpa [UserInputPc.read] using hlines
    · simp [hcopied]
    · simp only [UserInputPc.unposted, List.length_append, List.length_singleton] at hposts ⊢
      omega
  | unlock hu =>
    refine hD.quiet hD.ring hD.once ⟨rfl, rfl, rfl, rfl⟩ rfl ?_ ?_ ⟨rfl, rfl, rfl, rfl⟩
    all_goals simp only [hu]; rfl
  | post hu c hc =>
    have hring := hD.ring.step hc
    have honce := once_step hD.ring hD.once hc
    obtain ⟨m, p, hs, rfl⟩ := step_eq_some.1 hc
    obtain ⟨hpc, rfl, rfl⟩ := stmt_postInput hs
    rw [hu] at hlines hposts
    refine ⟨hring, honce, by simpa [UserInputPc.read] using hlines, hD.current, ?_, ?_, ?_⟩
    · simpa [UserInputPc.unposted] using hposts
    · have := hD.seminput
      simp only [Sem.post_value]; omega
    · have := hD.waits
      simpa [Pipeline.token] using this

theorem Delivery.producer (hD : Delivery s) {a : Choice α} (hok : a.isErr = false)
    (h : ProducerStep s a s') : Delivery s' := by
  have hwaits := hD.waits
  unfold Pipeline.token at hwaits
  cases h with
  | loop hp | unlock r hp | again hp =>
    refine hD.quiet hD.ring hD.once ⟨rfl, rfl, rfl, rfl⟩ ?_ rfl rfl ⟨rfl, rfl, rfl, rfl⟩
    unfold Pipeline.token; rw [hp]
  | lock hp _ =>
    refine hD.quiet hD.ring hD.once ⟨rfl, rfl, rfl, rfl⟩ ?_ rfl rfl ⟨rfl, rfl, rfl, rfl⟩
    unfold Pipeline.token; rw [hp]
  | exit r hp hr => exact hD.quiet hD.ring hD.once ⟨rfl, rfl, rfl, rfl⟩ rfl rfl rfl ⟨rfl, rfl, rfl, rfl⟩
  | fails hp e c hc => cases hok
  | wait hp c hc =>
    have hring := hD.ring.step hc
    have honce := once_step hD.ring hD.once hc
    obtain ⟨m, p, hs, rfl⟩ := step_eq_some.1 hc
    obtain ⟨hpc, rfl, v, hv, rfl⟩ := stmt_waitInput hs
    have hvalue := (Sem.wait?_eq_some.1 hv).1
    have hsem := hD.seminput
    simp only [hp] at hwaits
    refine ⟨hring, honce, hD.lines, hD.current, hD.posts, ?_, ?_⟩
    · simp only; omega
    · simp only [Pipeline.token]; omega
  | enter hp c hc =>
    have hquiet := quiet_step hD.ring hD.once (by simp) (by simp) (by simp) hc
    have hring := hD.ring.step hc
    have honce := once_step hD.ring hD.once hc
    obtain ⟨m, p, hs, rfl⟩ := step_eq_some.1 hc
    obtain ⟨hpc, rfl, rfl⟩ := stmt_call hs
    refine hD.quiet hring honce hquiet ?_ rfl rfl ⟨rfl, rfl, rfl, rfl⟩
    unfold Pipeline.token; rw [hp]; simp [Pc.before]
  | inside hp c hc =>
    have hquiet := quiet_step hD.ring hD.once (by simp) (by simp) (by simp) hc
    have hring := hD.ring.step hc
    have honce := once_step hD.ring hD.once hc
    obtain ⟨m, p, hs, rfl⟩ := step_eq_some.1 hc
    refine hD.quiet hring honce hquiet ?_ rfl rfl ⟨rfl, rfl, rfl, rfl⟩
    unfold Pipeline.token; rw [hp]; simpa using stmt_before hs
  | ret hp d r hr c hc =>
    have hquiet := quiet_step hD.ring hD.once (by simp) (by simp) (by simp) hc
    have hring := hD.ring.step hc
    have honce := once_step hD.ring hD.once hc
    refine hD.quiet hring honce hquiet ?_ rfl rfl ⟨rfl, rfl, rfl, rfl⟩
    unfold Pipeline.token; rw [hp]; simp [hr, Pc.before]
  | copyIn hp c hc =>
    have hring := hD.ring.step hc
    have honce := once_step hD.ring hD.once hc
    obtain ⟨m, p, hs, rfl⟩ := step_eq_some.1 hc
    obtain ⟨hpc, rfl, rfl⟩ := stmt_copyIn hs
    have hsem := hD.seminput
    have hposts := hD.posts
    simp only [hp, hpc, Pc.before] at hwaits
    -- the producer's unit of `seminput` stands for a line that has not been copied
    have hfresh : s.handed = s.calls.mem.ring.stored ++ [s.userInputBuffer] := by
      rcases hD.current with h | h
      · rw [h] at hposts; omega
      · exact h
    refine ⟨hring, honce, hD.lines, .inl hfresh, hposts, hsem, ?_⟩
    simp only [Pipeline.token, hp, Function.update_self, Pc.before, Buffer.copyIn, List.length_append,
      List.length_singleton]
    omega

theorem Delivery.reader (hD : Delivery s) {t : Thread} {a : Choice α} (ht : t ≠ .producer)
    (h : ReaderStep s t a s') : Delivery s' := by
  cases h with
  | check k e => exact hD.quiet hD.ring hD.once ⟨rfl, rfl, rfl, rfl⟩ rfl rfl rfl ⟨rfl, rfl, rfl, rfl⟩
  | calls b hb c hc k =>
    have hquiet := quiet_step hD.ring hD.once hb.postInput hb.waitInput hb.copyIn hc
    have hring := hD.ring.step hc
    have honce := once_step hD.ring hD.once hc
    obtain ⟨m, p, hs, rfl⟩ := step_eq_some.1 hc
    refine hD.quiet hring honce hquiet ?_ rfl rfl ⟨rfl, rfl, rfl, rfl⟩
    unfold Pipeline.token; simp [Function.update_of_ne ht.symm]

/-- **Step lemma.** -/
theorem Delivery.step (hD : Delivery s) {a : Thread × Choice α} (hok : a.2.isErr = false)
    (hidle : StoreIdle a s) (h : Pipeline.step a s = some s') : Delivery s' := by
  obtain ⟨t, a⟩ := a
  cases t with
  | userInput => exact hD.userInput hidle (userInput_cases h)
  | producer => exact hD.producer hok (producer_cases h)
  | consumer => exact hD.reader (by simp) (reader_cases h (.inl rfl))
  | display => exact hD.reader (by simp) (reader_cases h (.inr rfl))

/-! ## Runs -/

theorem Delivery.start [Inhabited α] : Delivery (α := α) (.start .initialised) :=
  ⟨start_inv (.inr rfl), rfl, rfl, .inl rfl, rfl, rfl, rfl⟩

theorem Delivery.prefix (hD : Delivery s) : s.calls.mem.ring.fetched <+: s.lines := by
  obtain ⟨q, hq⟩ := hD.ring.queue
  have h1 : s.calls.mem.ring.fetched <+: s.calls.mem.ring.stored := by
    rw [hq.stored, hq.fetched]; exact q.removed_prefix
  have h2 : s.calls.mem.ring.stored <+: s.handed := by
    rcases hD.current with h | h <;> rw [h]
    exact List.prefix_append _ _
  have h3 : s.handed <+: s.lines := by rw [hD.lines]; exact List.prefix_append _ _
  exact h1.trans (h2.trans h3)

/-- **Delivery.** In every run in which no call fails and every line is stored in an idle buffer, what
`getitem` has handed to the consumer is, in order, the first of the lines that `fgets` has read. -/
theorem delivered [Inhabited α] {acts : List (Thread × Choice α)}
    (hok : ∀ a ∈ acts, a.2.isErr = false)
    (hidle : Run.Along Pipeline.step StoreIdle acts (.start .initialised))
    (h : Run.exec Pipeline.step acts (.start .initialised) = some s) :
    s.calls.mem.ring.fetched <+: s.lines := by
  have halong := Run.along_and (Run.along_of_mem (fun a ha _ => hok a ha) _) hidle
  have hD := Run.invariant (I := Delivery (α := α)) (fun a s s' hC hI hs => hI.step hC.1 hC.2 hs) halong .start h
  exact hD.prefix

end

/-! ## Two runs -/

/-- `n` statements of thread `t`, none of which fails. -/
def go (t : Thread) (n : Nat) : List (Thread × Choice Nat) := List.replicate n (t, .go)

/-- `user_input_thread` reads a line, stores it and posts `seminput`. -/
def readLine (x : Nat) : List (Thread × Choice Nat) := (.userInput, .line x) :: go .userInput 4

/-- The reader is two lines ahead when the producer takes the first: lines 1 and 2 are read, 2 is
delivered twice and 1 never. -/
theorem overwritten : ∃ s : Pipeline Nat,
    Run.exec Pipeline.step (readLine 1 ++ readLine 2 ++ go .producer 30 ++ go .consumer 22)
      (.start .initialised) = some s ∧
    s.lines = [1, 2] ∧ s.calls.mem.ring.fetched = [2, 2] ∧ ¬ s.calls.mem.ring.fetched <+: s.lines := by
  obtain ⟨s, hs⟩ : ∃ s : Pipeline Nat,
      Run.exec Pipeline.step (readLine 1 ++ readLine 2 ++ go .producer 30 ++ go .consumer 22)
        (.start .initialised) = some s := ⟨_, rfl⟩
  have hl : s.lines = [1, 2] := by cases hs; rfl
  have hf : s.calls.mem.ring.fetched = [2, 2] := by cases hs; rfl
  refine ⟨s, hs, hl, hf, ?_⟩
  rw [hl, hf]
  decide

/-- The producer copies 1 before the reader stores 2. -/
theorem delivered_sample : ∃ s : Pipeline Nat,
    Run.exec Pipeline.step (readLine 1 ++ go .producer 15 ++ readLine 2 ++ go .consumer 11)
      (.start .initialised) = some s ∧
    s.lines = [1, 2] ∧ s.calls.mem.ring.fetched = [1] ∧ s.calls.mem.ring.fetched <+: s.lines := by
  obtain ⟨s, hs⟩ : ∃ s : Pipeline Nat,
      Run.exec Pipeline.step (readLine 1 ++ go .producer 15 ++ readLine 2 ++ go .consumer 11)
        (.start .initialised) = some s := ⟨_, rfl⟩
  refine ⟨s, hs, ?_, ?_, delivered (by decide) (by decide +kernel) hs⟩
  all_goals cases hs; rfl

end ProdCons
