import LinuxLearning.ProdCons.Delivery
/-!
# `prodcons_threads2.c`: the four threads do not deadlock

The functions are those of `prodcons_threads.c` (`Pipeline.lean`); here the `printf` of the display is active, and
there is no `pthread_testcancel`.

| here | there (`Examples/Threads/prodcons_threads2.c`) |
| --- | --- |
| `Lock`     | `input_buffer_lock`, `data_buffer_lock` (`:28-29`), `semitems`, `semslots`, `seminput` (`:41-43`) |
| `takes`    | the lock or semaphore of the next statement: `:90`, `:93`, `:119`, `:122`, `:163`, `:196`, `:198`, `:249` |
| `releaser` | who holds the lock, or posts the semaphore: `:105`, `:134`, `:170` |

`producer_thread` keeps `input_buffer_lock` while it waits for a slot. The consumer never takes that lock, and
`Smooth`, the invariant of the runs in which no call fails, accounts for every slot: when `semslots` is 0 and
the producer has none, the consumer has one, or five strings are stored and `semitems` is 5.

* `blocked_stuck` — what blocked means;
* `Smooth.not_deadlocked` — no set of threads wait for each other only;
* `Smooth.reaches_post` — the consumer, and the display if it holds `data_buffer_lock`, go on to
  `sem_post(&semslots)` without the producer.
-/

namespace ProdCons

open Threads

/-- The mutexes and the semaphores. -/
inductive Lock where
  | inputBuffer
  | dataBuffer
  | semitems
  | semslots
  | seminput
deriving DecidableEq, Repr

/-- What the next statement of a call has to take. -/
def Pc.takes : Pc → Option Lock
  | .wait .getitem => some .semitems
  | .wait .putitem => some .semslots
  | .lock _ | .dlock => some .dataBuffer
  | _ => none

/-- In a call that has succeeded so far, after the set-up. -/
def Pc.within (c : Call) : Pc → Bool
  | .test d | .wait d | .lock d | .copy d | .advance d | .tally d | .unlock d | .post d => d = c
  | .ret d r => d = c ∧ r = 0
  | _ => false

/-- Outside the calls, or in the display. -/
def Pc.showing : Pc → Bool
  | .out | .dlock | .dread | .dunlock => true
  | _ => false

section
variable {α : Type*}

/-- The mutex is taken, the semaphore is 0. -/
def Pipeline.Unavailable (s : Pipeline α) : Lock → Prop
  | .inputBuffer => s.inputBufferLock ≠ none
  | .dataBuffer => s.calls.mem.dataBufferLock ≠ none
  | .semitems => s.calls.mem.semitems.value = 0
  | .semslots => s.calls.mem.semslots.value = 0
  | .seminput => s.calls.mem.seminput.value = 0

/-- What the next statement of a thread has to take. -/
def Pipeline.takes (s : Pipeline α) : Thread → Option Lock
  | .userInput => if s.userInput = .lock then some .inputBuffer else none
  | .producer => match s.producer with
    | .wait => some .seminput
    | .lock => some .inputBuffer
    | .inside => (s.calls.pc .producer).takes
    | _ => none
  | .consumer => match s.consumer with
    | .inside => (s.calls.pc .consumer).takes
    | _ => none
  | .display => (s.calls.pc .display).takes

/-- `t` is blocked on `l`. -/
def Pipeline.Blocked (s : Pipeline α) (t : Thread) (l : Lock) : Prop :=
  s.exited = none ∧ s.takes t = some l ∧ s.Unavailable l

/-- The thread that could release `l`: the owner of the mutex, the one that posts the semaphore. -/
def Pipeline.releaser (s : Pipeline α) : Lock → Option Thread
  | .inputBuffer => s.inputBufferLock
  | .dataBuffer => s.calls.mem.dataBufferLock
  | .semitems => some .producer
  | .semslots => some .consumer
  | .seminput => some .userInput

/-- Every thread of the set is blocked on something that only threads of the set could release. -/
def Pipeline.Deadlocked (s : Pipeline α) (S : Set Thread) : Prop :=
  S.Nonempty ∧ ∀ t ∈ S, ∃ l, s.Blocked t l ∧ ∀ u, s.releaser l = some u → u ∈ S

/-! ## The statements of the calls, when none fails -/

variable {T : Type*} {t : T} {p p' : Pc} {b : Act α} {m m' : Mem T α}

/-- A statement that does not fail, after the set-up. -/
structure Quiet (m m' : Mem T α) (p p' : Pc) (t : T) : Prop where
  ready : m'.initdone = true
  slots : m'.semslots.value + p'.slotToken + m'.ring.stored.length + m.ring.fetched.length =
    m.semslots.value + p.slotToken + m.ring.stored.length + m'.ring.fetched.length
  items : m'.semitems.value + p'.itemToken + m'.ring.fetched.length + m.ring.stored.length =
    m.semitems.value + p.itemToken + m.ring.fetched.length + m'.ring.stored.length
  lock : (m'.dataBufferLock = m.dataBufferLock ∧ (p.holds = true → p'.holds = true)) ∨
    (m'.dataBufferLock = some t ∧ p'.holds = true) ∨ m'.dataBufferLock = none

theorem quiet_showing (hp : p.showing = true) (hready : m.initdone = true) (h : stmt t p b m = some (m', p')) :
    Quiet m m' p p' t := by
  cases stmt_cases h with
  | call c | display | postInput | waitInput v hv =>
    exact ⟨hready, rfl, rfl, .inl ⟨rfl, by simp [Pc.holds]⟩⟩
  | dlock hfree => exact ⟨hready, rfl, rfl, .inr (.inl ⟨rfl, rfl⟩)⟩
  | dread => exact ⟨hready, rfl, rfl, .inl ⟨rfl, fun _ => rfl⟩⟩
  | dunlock => exact ⟨hready, rfl, rfl, .inr (.inr rfl)⟩
  | _ => cases hp

/-- The statements of `getitem` and `putitem`. -/
theorem quiet_within {c : Call} (hp : p.within c = true) (hready : m.initdone = true) (hb : ∀ e, b ≠ .err e)
    (h : stmt t p b m = some (m', p')) :
    Quiet m m' p p' t ∧ (p'.within c = true ∨ p = .ret c 0 ∧ p' = .out) := by
  have hown : ∀ {d : Call}, decide (d = c) = true → d = c := of_decide_eq_true
  cases stmt_cases h with
  | call | display | postInput | waitInput | enter | ranBefore | init | dlock | dread | dunlock => cases hp
  | interrupted d => exact absurd rfl (hb EINTR)
  | waitFails d e | lockFails d e | unlockFails d e | postFails d e => exact absurd rfl (hb e)
  | unready d hd =>
    rw [hready] at hd
    cases hd
  | ready d hd =>
    obtain rfl := hown hp
    exact ⟨⟨hready, rfl, rfl, .inl ⟨rfl, by simp [Pc.holds]⟩⟩, .inl (by simp [Pc.within])⟩
  | waitItems v hv =>
    obtain rfl := hown hp
    have hvalue := (Sem.wait?_eq_some.1 hv).1
    exact ⟨⟨hready, rfl, by simp [Pc.itemToken]; omega, .inl ⟨rfl, by simp [Pc.holds]⟩⟩, .inl rfl⟩
  | waitSlots v hv =>
    obtain rfl := hown hp
    have hvalue := (Sem.wait?_eq_some.1 hv).1
    exact ⟨⟨hready, by simp [Pc.slotToken]; omega, rfl, .inl ⟨rfl, by simp [Pc.holds]⟩⟩, .inl rfl⟩
  | lock d hfree =>
    obtain rfl := hown hp
    refine ⟨⟨hready, ?_, ?_, .inr (.inl ⟨rfl, rfl⟩)⟩, .inl (by simp [Pc.within])⟩
    · cases d <;> rfl
    · cases d <;> rfl
  | copyOut =>
    obtain rfl := hown hp
    exact ⟨⟨hready, by simp [Pc.slotToken, Buffer.copyOut]; omega,
      by simp [Pc.itemToken, Buffer.copyOut]; omega, .inl ⟨rfl, fun _ => rfl⟩⟩, .inl rfl⟩
  | copyIn x =>
    obtain rfl := hown hp
    exact ⟨⟨hready, by simp [Pc.slotToken, Buffer.copyIn]; omega,
      by simp [Pc.itemToken, Buffer.copyIn]; omega, .inl ⟨rfl, fun _ => rfl⟩⟩, .inl rfl⟩
  | advance d | tally d =>
    obtain rfl := hown hp
    refine ⟨⟨hready, ?_, ?_, .inl ⟨rfl, fun _ => rfl⟩⟩, .inl (by simp [Pc.within])⟩
    · cases d <;> rfl
    · cases d <;> rfl
  | unlock d =>
    obtain rfl := hown hp
    refine ⟨⟨hready, ?_, ?_, .inr (.inr rfl)⟩, .inl (by simp [Pc.within])⟩
    · cases d <;> rfl
    · cases d <;> rfl
  | postSlots =>
    obtain rfl := hown hp
    exact ⟨⟨hready, by simp [Pc.slotToken], rfl, .inl ⟨rfl, by simp [Pc.holds]⟩⟩, .inl rfl⟩
  | postItems =>
    obtain rfl := hown hp
    exact ⟨⟨hready, rfl, by simp [Pc.itemToken], .inl ⟨rfl, by simp [Pc.holds]⟩⟩, .inl rfl⟩
  | ret d r =>
    obtain ⟨rfl, rfl⟩ := of_decide_eq_true hp
    exact ⟨⟨hready, rfl, rfl, .inl ⟨rfl, by simp [Pc.holds]⟩⟩, .inr ⟨rfl, rfl⟩⟩

/-- A call in which nothing has failed returns 0. -/
theorem within_ret {c d : Call} {r : ℕ} (hp : (Pc.ret d r).within c = true)
    (h : stmt t (.ret d r) b m = some (m', p')) : r = 0 ∧ p' = .out := by
  cases stmt_cases h with
  | ret d r => exact ⟨(of_decide_eq_true hp).2, rfl⟩

/-! ## The steps of the threads, when nothing fails -/

/-- The producer is between its lock and its unlock of `input_buffer_lock`. -/
def ProducerPc.keeps : ProducerPc → Bool
  | .enter | .inside | .unlock _ => true
  | _ => false

variable {s s' : Pipeline α} {a : Choice α}

/-- A step of the producer inside `putitem`. -/
theorem producer_inside (hp : s.producer = .inside) (hok : a.isErr = false)
    (h : Pipeline.step (.producer, a) s = some s') : ∃ b c, (∀ e, b ≠ .err e) ∧
      Threads.step stmt (.producer, b) s.calls = some c ∧
      ((∃ d r, s.calls.pc .producer = .ret d r ∧ s' = { s with calls := c, producer := .unlock r }) ∨
        (∀ d r, s.calls.pc .producer ≠ .ret d r) ∧ s' = { s with calls := c }) := by
  have hrun := step_running h
  simp only [Pipeline.step, hrun, Option.isSome_none, Bool.false_eq_true, if_false, producerStep, hp] at h
  split at h
  · next d r hpc =>
    obtain ⟨c, hc, rfl⟩ := Pipeline.call_eq_some.1 h
    exact ⟨_, c, by simp, hc, .inl ⟨d, r, hpc, rfl⟩⟩
  · next d hpc =>
    obtain ⟨c, hc, rfl⟩ := Pipeline.call_eq_some.1 h
    exact ⟨_, c, by simp, hc, .inr ⟨by simp [hpc], rfl⟩⟩
  · next hret _ =>
    obtain ⟨c, hc, rfl⟩ := Pipeline.call_eq_some.1 h
    exact ⟨_, c, by simp, hc, .inr ⟨hret, rfl⟩⟩
  · cases hok
  · cases h

/-- A step of the consumer inside `getitem`. -/
theorem consumer_inside (hp : s.consumer = .inside) (hok : a.isErr = false)
    (h : Pipeline.step (.consumer, a) s = some s') : ∃ b c, (∀ e, b ≠ .err e) ∧
      Threads.step stmt (.consumer, b) s.calls = some c ∧
      ((∃ d r, s.calls.pc .consumer = .ret d r ∧ s' = { s with calls := c, consumer := .check r }) ∨
        (∀ d r, s.calls.pc .consumer ≠ .ret d r) ∧ s' = { s with calls := c }) := by
  have hrun := step_running h
  simp only [Pipeline.step, hrun, Option.isSome_none, Bool.false_eq_true, if_false, consumerStep, hp] at h
  split at h
  · next d r hpc =>
    obtain ⟨c, hc, rfl⟩ := Pipeline.call_eq_some.1 h
    exact ⟨_, c, by simp, hc, .inl ⟨d, r, hpc, rfl⟩⟩
  · next hret =>
    obtain ⟨c, hc, rfl⟩ := Pipeline.call_eq_some.1 h
    exact ⟨_, c, by simp, hc, .inr ⟨hret, rfl⟩⟩
  · cases hok
  · cases h

/-- A step of the consumer outside `getitem`. -/
theorem consumer_outside (h : Pipeline.step (.consumer, a) s = some s') :
    (s.consumer = .inside) ∨
    (s.consumer = .enter ∧ ∃ c, Threads.step stmt (.consumer, .call .getitem) s.calls = some c ∧
      s' = { s with calls := c, consumer := .inside }) ∨
    (∃ r, s.consumer = .check r ∧
      s' = if r = 0 then { s with consumer := .enter } else { s with exited := some 4 }) := by
  have hrun := step_running h
  unfold Pipeline.step at h
  rw [if_neg (by simp [hrun])] at h
  simp only [consumerStep] at h
  split at h
  · next hp =>
    obtain ⟨c, hc, rfl⟩ := Pipeline.call_eq_some.1 h
    exact .inr (.inl ⟨hp, c, hc, rfl⟩)
  · next hp => exact .inl hp
  · next r hp =>
    cases h
    exact .inr (.inr ⟨r, hp, rfl⟩)
  · cases h

/-- A step of the display. -/
theorem display_cases (h : Pipeline.step (.display, a) s = some s') : ∃ b c, (∀ e, b ≠ .err e) ∧
    Threads.step stmt (.display, b) s.calls = some c ∧ s' = { s with calls := c } ∧
      (s.calls.pc .display = .out → b = .display) := by
  have hrun := step_running h
  simp only [Pipeline.step, hrun, Option.isSome_none, Bool.false_eq_true, if_false, displayStep] at h
  split at h
  · obtain ⟨c, hc, rfl⟩ := Pipeline.call_eq_some.1 h
    exact ⟨_, c, by simp, hc, rfl, fun _ => rfl⟩
  · next hout =>
    obtain ⟨c, hc, rfl⟩ := Pipeline.call_eq_some.1 h
    exact ⟨_, c, by simp, hc, rfl, fun hpc => (hout hpc).elim⟩
  · cases h

/-! ## The invariant of the runs in which nothing fails -/

/-- Every slot and every string is accounted for, and the owner of `data_buffer_lock` is where it says. -/
structure Flow (c : Config Thread (Mem Thread α) Pc) : Prop where
  ready : c.mem.initdone = true
  slots : c.mem.semslots.value + total Pc.slotToken c.pc + c.mem.ring.stored.length =
    5 + c.mem.ring.fetched.length
  items : c.mem.semitems.value + total Pc.itemToken c.pc + c.mem.ring.fetched.length =
    c.mem.ring.stored.length
  data : ∀ t, c.mem.dataBufferLock = some t → (c.pc t).holds = true

theorem Flow.step {c : Config Thread (Mem Thread α) Pc} {t : Thread} {m' : Mem Thread α} (hF : Flow c)
    (hq : Quiet c.mem m' (c.pc t) p' t) : Flow ⟨m', Function.update c.pc t p'⟩ := by
  have hslots := hF.slots
  have hitems := hF.items
  have hslots' := hq.slots
  have hitems' := hq.items
  have hslotToken := total_step Pc.slotToken c.pc t p'
  have hitemToken := total_step Pc.itemToken c.pc t p'
  refine ⟨hq.ready, ?_, ?_, ?_⟩
  · simp only
    omega
  · simp only
    omega
  · intro u hu
    rcases hq.lock with ⟨hsame, hholds⟩ | ⟨htaken, hholds⟩ | hfree
    · have hold := hF.data u (hsame ▸ hu)
      by_cases hut : u = t
      · subst hut
        simpa using hholds hold
      · simpa [Function.update_of_ne hut] using hold
    · have hut : u = t := by
        rw [htaken, Option.some.injEq] at hu
        exact hu.symm
      simpa [hut] using hholds
    · rw [hfree] at hu
      cases hu

structure Smooth (s : Pipeline α) : Prop where
  flow : Flow s.calls
  userInput : s.calls.pc .userInput = .out
  inPut : s.producer = .inside → (s.calls.pc .producer).within .putitem = true
  outPut : s.producer ≠ .inside → s.calls.pc .producer = .out
  inGet : s.consumer = .inside → (s.calls.pc .consumer).within .getitem = true
  outGet : s.consumer ≠ .inside → s.calls.pc .consumer = .out
  display : (s.calls.pc .display).showing = true
  put : ∀ r, s.producer = .unlock r ∨ s.producer = .check r → r = 0
  get : ∀ r, s.consumer = .check r → r = 0
  input : ∀ t, s.inputBufferLock = some t →
    t = .userInput ∧ (s.userInput = .copy ∨ s.userInput = .unlock) ∨ t = .producer ∧ s.producer.keeps = true

theorem Smooth.start [Inhabited α] : Smooth (α := α) (.start .initialised) := by
  have hslot : total Pc.slotToken (fun _ : Thread => Pc.out) = 0 := total_eq_zero fun _ => rfl
  have hitem : total Pc.itemToken (fun _ : Thread => Pc.out) = 0 := total_eq_zero fun _ => rfl
  refine ⟨⟨rfl, ?_, ?_, ?_⟩, rfl, ?_, fun _ => rfl, ?_, fun _ => rfl, rfl, ?_, ?_, ?_⟩
  · show 5 + total Pc.slotToken (fun _ : Thread => Pc.out) + 0 = 5 + 0
    rw [hslot]
  · show 0 + total Pc.itemToken (fun _ : Thread => Pc.out) + 0 = 0
    rw [hitem]
  · intro t h
    cases h
  · intro h
    cases h
  · intro h
    cases h
  · rintro r (h | h) <;> cases h
  · intro r h
    cases h
  · intro t h
    cases h

/-- `input_buffer_lock` is the producer's. -/
theorem Smooth.producer_keeps (hS : Smooth s) (hcopy : s.userInput ≠ .copy) (hunlock : s.userInput ≠ .unlock)
    {t : Thread} (ht : s.inputBufferLock = some t) : t = .producer ∧ s.producer.keeps = true := by
  rcases hS.input t ht with ⟨-, hu | hu⟩ | hproducer
  · exact absurd hu hcopy
  · exact absurd hu hunlock
  · exact hproducer

/-- `input_buffer_lock` is the user input's. -/
theorem Smooth.userInput_keeps (hS : Smooth s) (hkeeps : s.producer.keeps = false) {t : Thread}
    (ht : s.inputBufferLock = some t) : t = .userInput ∧ (s.userInput = .copy ∨ s.userInput = .unlock) := by
  rcases hS.input t ht with huserInput | ⟨-, hkept⟩
  · exact huserInput
  · rw [hkeeps] at hkept
    cases hkept

theorem Smooth.userInput_step (hS : Smooth s) (h : UserInputStep s a s') : Smooth s' := by
  cases h with
  | fgets x hu | eof hu =>
    refine ⟨hS.flow, hS.userInput, hS.inPut, hS.outPut, hS.inGet, hS.outGet, hS.display, hS.put, hS.get, ?_⟩
    exact fun t ht => .inr (hS.producer_keeps (by simp [hu]) (by simp [hu]) ht)
  | lock hu _ =>
    refine ⟨hS.flow, hS.userInput, hS.inPut, hS.outPut, hS.inGet, hS.outGet, hS.display, hS.put, hS.get, ?_⟩
    exact fun t ht => .inl ⟨(Option.some.inj ht).symm, .inl rfl⟩
  | copy hu =>
    refine ⟨hS.flow, hS.userInput, hS.inPut, hS.outPut, hS.inGet, hS.outGet, hS.display, hS.put, hS.get, ?_⟩
    intro t ht
    rcases hS.input t ht with ⟨hown, -⟩ | hproducer
    · exact .inl ⟨hown, .inr rfl⟩
    · exact .inr hproducer
  | unlock hu =>
    refine ⟨hS.flow, hS.userInput, hS.inPut, hS.outPut, hS.inGet, hS.outGet, hS.display, hS.put, hS.get, ?_⟩
    intro t ht
    cases ht
  | post hu c hc =>
    obtain ⟨m, q, hstmt, rfl⟩ := step_eq_some.1 hc
    have hquiet := quiet_showing (by rw [hS.userInput]; rfl) hS.flow.ready hstmt
    obtain ⟨-, rfl, -⟩ := stmt_postInput hstmt
    have hpc : Function.update s.calls.pc .userInput .out = s.calls.pc := by
      rw [← hS.userInput, Function.update_eq_self]
    have hflow := hS.flow.step hquiet
    simp only [hpc] at hflow ⊢
    refine ⟨hflow, hS.userInput, hS.inPut, hS.outPut, hS.inGet, hS.outGet, hS.display, hS.put, hS.get, ?_⟩
    exact fun t ht => .inr (hS.producer_keeps (by simp [hu]) (by simp [hu]) ht)

/-- The producer inside `putitem`. -/
theorem Smooth.inside_step (hS : Smooth s) (hin : s.producer = .inside) (hok : a.isErr = false)
    (h : Pipeline.step (.producer, a) s = some s') : Smooth s' := by
  obtain ⟨b, c, hb, hc, hcases⟩ := producer_inside hin hok h
  obtain ⟨m, q, hstmt, rfl⟩ := step_eq_some.1 hc
  obtain ⟨hquiet, hwithin⟩ := quiet_within (hS.inPut hin) hS.flow.ready hb hstmt
  have hflow := hS.flow.step hquiet
  have hinput : ∀ t, s.inputBufferLock = some t → ∀ p : ProducerPc, p.keeps = true →
      t = .userInput ∧ (s.userInput = .copy ∨ s.userInput = .unlock) ∨ t = .producer ∧ p.keeps = true := by
    intro t ht p hp
    rcases hS.input t ht with huserInput | ⟨hown, -⟩
    · exact .inl huserInput
    · exact .inr ⟨hown, hp⟩
  rcases hcases with ⟨d, r, hpc, rfl⟩ | ⟨hret, rfl⟩
  · have hput := hS.inPut hin
    simp only [hpc] at hput hstmt
    obtain ⟨rfl, rfl⟩ := within_ret hput hstmt
    refine ⟨hflow, ?_, ?_, ?_, ?_, ?_, ?_, ?_, hS.get, fun t ht => hinput t ht _ rfl⟩
    · simpa using hS.userInput
    · intro h
      cases h
    · simp
    · simpa using hS.inGet
    · simpa using hS.outGet
    · simpa using hS.display
    · rintro r (h | h)
      · exact (ProducerPc.unlock.inj h).symm
      · cases h
  · have hq : q.within .putitem = true := by
      rcases hwithin with hw | ⟨hpc, -⟩
      · exact hw
      · exact absurd hpc (hret _ _)
    refine ⟨hflow, ?_, ?_, ?_, ?_, ?_, ?_, hS.put, hS.get, fun t ht => hinput t ht _ (by rw [hin]; rfl)⟩
    · simpa using hS.userInput
    · simpa using fun _ => hq
    · exact fun hout => absurd hin hout
    · simpa using hS.inGet
    · simpa using hS.outGet
    · simpa using hS.display

/-- The producer outside `putitem`. -/
theorem Smooth.outside_step (hS : Smooth s) (hout : s.producer ≠ .inside) (hok : a.isErr = false)
    (h : Pipeline.step (.producer, a) s = some s') : Smooth s' := by
  have hpc := hS.outPut hout
  cases producer_cases h with
  | copyIn hp | inside hp | fails hp | ret hp => exact absurd hp hout
  | loop hp =>
    refine ⟨hS.flow, hS.userInput, ?_, fun _ => hpc, hS.inGet, hS.outGet, hS.display, ?_, hS.get, ?_⟩
    · intro h
      cases h
    · rintro r (h | h) <;> cases h
    · exact fun t ht => .inl (hS.userInput_keeps (by rw [hp]; rfl) ht)
  | wait hp c hc =>
    obtain ⟨m, q, hstmt, rfl⟩ := step_eq_some.1 hc
    have hquiet := quiet_showing (by rw [hpc]; rfl) hS.flow.ready hstmt
    obtain ⟨-, rfl, -⟩ := stmt_waitInput hstmt
    have hflow := hS.flow.step hquiet
    have hsame : Function.update s.calls.pc .producer .out = s.calls.pc := by
      rw [← hpc, Function.update_eq_self]
    simp only [hsame] at hflow ⊢
    refine ⟨hflow, hS.userInput, ?_, fun _ => hpc, hS.inGet, hS.outGet, hS.display, ?_, hS.get, ?_⟩
    · intro h
      cases h
    · rintro r (h | h) <;> cases h
    · exact fun t ht => .inl (hS.userInput_keeps (by rw [hp]; rfl) ht)
  | lock hp _ =>
    refine ⟨hS.flow, hS.userInput, ?_, fun _ => hpc, hS.inGet, hS.outGet, hS.display, ?_, hS.get, ?_⟩
    · intro h
      cases h
    · rintro r (h | h) <;> cases h
    · exact fun t ht => .inr ⟨(Option.some.inj ht).symm, rfl⟩
  | enter hp c hc =>
    obtain ⟨m, q, hstmt, rfl⟩ := step_eq_some.1 hc
    have hquiet := quiet_showing (by rw [hpc]; rfl) hS.flow.ready hstmt
    obtain ⟨-, rfl, -⟩ := stmt_call hstmt
    refine ⟨hS.flow.step hquiet, ?_, ?_, ?_, ?_, ?_, ?_, ?_, hS.get, ?_⟩
    · simpa using hS.userInput
    · simp [Pc.within]
    · exact fun h => absurd rfl h
    · simpa using hS.inGet
    · simpa using hS.outGet
    · simpa using hS.display
    · rintro r (h | h) <;> cases h
    · intro t ht
      rcases hS.input t ht with huserInput | ⟨hown, -⟩
      · exact .inl huserInput
      · exact .inr ⟨hown, rfl⟩
  | unlock r hp =>
    have hr := hS.put r (.inl hp)
    refine ⟨hS.flow, hS.userInput, ?_, fun _ => hpc, hS.inGet, hS.outGet, hS.display, ?_, hS.get, ?_⟩
    · intro h
      cases h
    · rintro r' (h | h)
      · cases h
      · exact (ProducerPc.check.inj h).symm.trans hr
    · intro t ht
      cases ht
  | again hp =>
    refine ⟨hS.flow, hS.userInput, ?_, fun _ => hpc, hS.inGet, hS.outGet, hS.display, ?_, hS.get, ?_⟩
    · intro h
      cases h
    · rintro r (h | h) <;> cases h
    · exact fun t ht => .inl (hS.userInput_keeps (by rw [hp]; rfl) ht)
  | exit r hp hr =>
    exact ⟨hS.flow, hS.userInput, hS.inPut, hS.outPut, hS.inGet, hS.outGet, hS.display, hS.put, hS.get, hS.input⟩

theorem Smooth.consumer_step (hS : Smooth s) (hok : a.isErr = false)
    (h : Pipeline.step (.consumer, a) s = some s') : Smooth s' := by
  rcases consumer_outside h with hin | ⟨hp, c, hc, rfl⟩ | ⟨r, hp, rfl⟩
  · obtain ⟨b, c, hb, hc, hcases⟩ := consumer_inside hin hok h
    obtain ⟨m, q, hstmt, rfl⟩ := step_eq_some.1 hc
    obtain ⟨hquiet, hwithin⟩ := quiet_within (hS.inGet hin) hS.flow.ready hb hstmt
    have hflow := hS.flow.step hquiet
    rcases hcases with ⟨d, r, hpc, rfl⟩ | ⟨hret, rfl⟩
    · have hget := hS.inGet hin
      simp only [hpc] at hget hstmt
      obtain ⟨rfl, rfl⟩ := within_ret hget hstmt
      refine ⟨hflow, ?_, ?_, ?_, ?_, ?_, ?_, hS.put, ?_, hS.input⟩
      · simpa using hS.userInput
      · simpa using hS.inPut
      · simpa using hS.outPut
      · intro h
        cases h
      · simp
      · simpa using hS.display
      · intro r h
        exact (ConsumerPc.check.inj h).symm
    · have hq : q.within .getitem = true := by
        rcases hwithin with hw | ⟨hpc, -⟩
        · exact hw
        · exact absurd hpc (hret _ _)
      refine ⟨hflow, ?_, ?_, ?_, ?_, ?_, ?_, hS.put, hS.get, hS.input⟩
      · simpa using hS.userInput
      · simpa using hS.inPut
      · simpa using hS.outPut
      · simpa using fun _ => hq
      · exact fun hout => absurd hin hout
      · simpa using hS.display
  · have hpc := hS.outGet (by simp [hp])
    obtain ⟨m, q, hstmt, rfl⟩ := step_eq_some.1 hc
    have hquiet := quiet_showing (by rw [hpc]; rfl) hS.flow.ready hstmt
    obtain ⟨-, rfl, -⟩ := stmt_call hstmt
    refine ⟨hS.flow.step hquiet, ?_, ?_, ?_, ?_, ?_, ?_, hS.put, ?_, hS.input⟩
    · simpa using hS.userInput
    · simpa using hS.inPut
    · simpa using hS.outPut
    · simp [Pc.within]
    · exact fun h => absurd rfl h
    · simpa using hS.display
    · intro r h
      cases h
  · have hr := hS.get r hp
    rw [if_pos hr]
    have hpc := hS.outGet (by simp [hp])
    refine ⟨hS.flow, hS.userInput, hS.inPut, hS.outPut, ?_, fun _ => hpc, hS.display, hS.put, ?_, hS.input⟩
    · intro h
      cases h
    · intro r h
      cases h

theorem Smooth.display_step (hS : Smooth s) (h : Pipeline.step (.display, a) s = some s') : Smooth s' := by
  obtain ⟨b, c, hb, hc, rfl, hdisplay⟩ := display_cases h
  obtain ⟨m, q, hstmt, rfl⟩ := step_eq_some.1 hc
  have hquiet := quiet_showing hS.display hS.flow.ready hstmt
  have hq : q.showing = true := by
    have hshow := hS.display
    simp only at hstmt
    cases hpc : s.calls.pc .display with
    | out =>
      rw [hpc, hdisplay hpc] at hstmt
      cases hstmt
      rfl
    | dlock =>
      rw [hpc] at hstmt
      cases b with
      | go =>
        obtain ⟨l, -, he⟩ := Option.map_eq_some_iff.1 hstmt
        cases he
        rfl
      | _ => cases hstmt
    | dread | dunlock =>
      rw [hpc] at hstmt
      cases b with
      | go =>
        cases hstmt
        rfl
      | _ => cases hstmt
    | _ =>
      rw [hpc] at hshow
      cases hshow
  refine ⟨hS.flow.step hquiet, ?_, ?_, ?_, ?_, ?_, ?_, hS.put, hS.get, hS.input⟩
  · simpa using hS.userInput
  · simpa using hS.inPut
  · simpa using hS.outPut
  · simpa using hS.inGet
  · simpa using hS.outGet
  · simpa using hq

/-- **Step lemma.** -/
theorem Smooth.step (hS : Smooth s) {a : Thread × Choice α} (hok : a.2.isErr = false)
    (h : Pipeline.step a s = some s') : Smooth s' := by
  obtain ⟨t, a⟩ := a
  cases t with
  | userInput => exact hS.userInput_step (userInput_cases h)
  | producer =>
    by_cases hin : s.producer = .inside
    · exact hS.inside_step hin hok h
    · exact hS.outside_step hin hok h
  | consumer => exact hS.consumer_step hok h
  | display => exact hS.display_step h

/-- **Run lemma.** -/
theorem smooth_run [Inhabited α] {acts : List (Thread × Choice α)} (hok : ∀ a ∈ acts, a.2.isErr = false)
    (h : Run.exec Pipeline.step acts (.start .initialised) = some s) : Smooth s := by
  have halong : Run.Along Pipeline.step (fun a _ => a.2.isErr = false) acts (.start .initialised) :=
    Run.along_of_mem (fun a ha _ => hok a ha) _
  exact Run.invariant (fun a s s' hok hS hs => Smooth.step hS hok hs) halong .start h

/-! ## No set of threads is stuck -/

/-- Who holds `data_buffer_lock` is not blocked. -/
theorem Smooth.holder_runs (hS : Smooth s) {t : Thread} (ht : s.calls.mem.dataBufferLock = some t) :
    s.takes t = none := by
  have hholds := hS.flow.data t ht
  have hfree : (s.calls.pc t).takes = none := by
    cases hpc : s.calls.pc t with
    | wait | lock | dlock =>
      rw [hpc] at hholds
      cases hholds
    | _ => rfl
  cases t with
  | userInput =>
    rw [hS.userInput] at hholds
    cases hholds
  | producer =>
    by_cases hin : s.producer = .inside
    · simpa [Pipeline.takes, hin] using hfree
    · rw [hS.outPut hin] at hholds
      cases hholds
  | consumer =>
    by_cases hin : s.consumer = .inside
    · simpa [Pipeline.takes, hin] using hfree
    · rw [hS.outGet hin] at hholds
      cases hholds
  | display => exact hfree

/-- What the four threads can be blocked on. -/
theorem blocked_cases (hS : Smooth s) {t : Thread} {l : Lock} (h : s.takes t = some l) :
    l = .dataBuffer ∨
      t = .userInput ∧ l = .inputBuffer ∧ s.userInput = .lock ∨
      t = .producer ∧ (l = .seminput ∧ s.producer = .wait ∨ l = .inputBuffer ∧ s.producer = .lock ∨
        l = .semslots ∧ s.producer = .inside ∧ s.calls.pc .producer = .wait .putitem) ∨
      t = .consumer ∧ l = .semitems ∧ s.calls.pc .consumer = .wait .getitem := by
  have hcall : ∀ {p : Pc} {c : Call}, p.within c = true → p.takes = some l →
      l = .dataBuffer ∨ p = .wait c ∧ l = if c = .getitem then .semitems else .semslots := by
    intro p c hp hl
    cases p with
    | wait d =>
      obtain rfl : d = c := of_decide_eq_true hp
      cases d with
      | getitem => exact .inr ⟨rfl, (Option.some.inj hl).symm⟩
      | putitem => exact .inr ⟨rfl, (Option.some.inj hl).symm⟩
    | lock | dlock => exact .inl (Option.some.inj hl).symm
    | _ => cases hl
  cases t with
  | userInput =>
    by_cases hu : s.userInput = .lock
    · have hl : l = .inputBuffer := by simpa [Pipeline.takes, hu, eq_comm] using h
      exact .inr (.inl ⟨rfl, hl, hu⟩)
    · simp [Pipeline.takes, hu] at h
  | producer =>
    unfold Pipeline.takes at h
    cases hp : s.producer with
    | wait =>
      simp only [hp, Option.some.injEq] at h
      exact .inr (.inr (.inl ⟨rfl, .inl ⟨h.symm, rfl⟩⟩))
    | lock =>
      simp only [hp, Option.some.injEq] at h
      exact .inr (.inr (.inl ⟨rfl, .inr (.inl ⟨h.symm, rfl⟩)⟩))
    | inside =>
      simp only [hp] at h
      rcases hcall (hS.inPut hp) h with hdata | ⟨hpc, hl⟩
      · exact .inl hdata
      · exact .inr (.inr (.inl ⟨rfl, .inr (.inr ⟨hl, rfl, hpc⟩)⟩))
    | _ => simp [hp] at h
  | consumer =>
    unfold Pipeline.takes at h
    cases hp : s.consumer with
    | inside =>
      simp only [hp] at h
      rcases hcall (hS.inGet hp) h with hdata | ⟨hpc, hl⟩
      · exact .inl hdata
      · exact .inr (.inr (.inr ⟨rfl, hl, hpc⟩))
    | _ => simp [hp] at h
  | display =>
    have hshow := hS.display
    unfold Pipeline.takes at h
    cases hpc : s.calls.pc .display with
    | dlock =>
      simp only [hpc] at h
      exact .inl (Option.some.inj h).symm
    | wait | lock =>
      rw [hpc] at hshow
      cases hshow
    | _ =>
      simp only [hpc] at h
      cases h

theorem showing_tokens (hp : p.showing = true) : p.slotToken = 0 ∧ p.itemToken = 0 := by
  cases p with
  | out | dlock | dread | dunlock => exact ⟨rfl, rfl⟩
  | _ => cases hp

/-- A call that is blocked has no statement to execute. -/
theorem stmt_blocked {t : Thread} {l : Lock} (hp : (s.calls.pc t).takes = some l) (hl : s.Unavailable l)
    (hb : ∀ e, b ≠ .err e) : stmt t (s.calls.pc t) b s.calls.mem = none := by
  have hlock : s.calls.mem.dataBufferLock ≠ none → lock? t s.calls.mem.dataBufferLock = none := fun h => if_neg h
  have hwait : ∀ {v : Sem}, v.value = 0 → v.wait? = none := by
    intro v hv
    simp [Sem.wait?, hv]
  cases hpc : s.calls.pc t with
  | wait d =>
    rw [hpc] at hp
    cases d with
    | getitem =>
      cases hp
      cases b with
      | err e => exact absurd rfl (hb e)
      | go => simp [stmt, hwait hl]
      | _ => rfl
    | putitem =>
      cases hp
      cases b with
      | err e => exact absurd rfl (hb e)
      | go => simp [stmt, hwait hl]
      | _ => rfl
  | lock d | dlock =>
    rw [hpc] at hp
    cases hp
    cases b with
    | err e => exact absurd rfl (hb e)
    | go => simp [stmt, hlock hl]
    | _ => rfl
  | _ =>
    rw [hpc] at hp
    cases hp

/-- **Blocked threads** have no step, but for failing calls. -/
theorem blocked_stuck {t : Thread} {l : Lock} (h : s.Blocked t l) (hok : a.isErr = false) :
    Pipeline.step (t, a) s = none := by
  obtain ⟨-, htakes, hl⟩ := h
  have hcall : ∀ {b c}, (s.calls.pc t).takes = some l → (∀ e, b ≠ .err e) →
      Threads.step stmt (t, b) s.calls ≠ some c := by
    intro b c hp hb hc
    obtain ⟨m, q, hstmt, -⟩ := step_eq_some.1 hc
    rw [stmt_blocked hp hl hb] at hstmt
    cases hstmt
  by_contra hne
  obtain ⟨s', hs⟩ := Option.ne_none_iff_exists'.1 hne
  cases t with
  | userInput =>
    by_cases hu : s.userInput = .lock
    · obtain rfl : .inputBuffer = l := by simpa [Pipeline.takes, hu] using htakes
      cases userInput_cases hs with
      | lock _ hfree => exact hl hfree
      | fgets _ h | eof h | copy h | unlock h | post h => rw [hu] at h; cases h
    · simp [Pipeline.takes, hu] at htakes
  | producer =>
    by_cases hin : s.producer = .inside
    · obtain ⟨b, c, hb, hc, -⟩ := producer_inside hin hok hs
      exact hcall (by simpa [Pipeline.takes, hin] using htakes) hb hc
    · unfold Pipeline.takes at htakes
      cases producer_cases hs with
      | copyIn hp | inside hp | fails hp | ret hp => exact hin hp
      | wait hp c hc =>
        rw [hp, Option.some.injEq] at htakes
        subst htakes
        obtain ⟨m, q, hstmt, -⟩ := step_eq_some.1 hc
        obtain ⟨-, -, v, hv, -⟩ := stmt_waitInput hstmt
        have hvalue := (Sem.wait?_eq_some.1 hv).1
        have hzero : s.calls.mem.seminput.value = 0 := hl
        omega
      | lock hp hfree =>
        rw [hp, Option.some.injEq] at htakes
        subst htakes
        exact hl hfree
      | loop hp | enter hp | unlock _ hp | again hp | exit _ hp => rw [hp] at htakes; cases htakes
  | consumer =>
    unfold Pipeline.takes at htakes
    rcases consumer_outside hs with hin | ⟨hp, -⟩ | ⟨r, hp, -⟩
    · obtain ⟨b, c, hb, hc, -⟩ := consumer_inside hin hok hs
      exact hcall (by simpa [hin] using htakes) hb hc
    · rw [hp] at htakes
      cases htakes
    · rw [hp] at htakes
      cases htakes
  | display =>
    obtain ⟨b, c, hb, hc, -⟩ := display_cases hs
    exact hcall htakes hb hc

/-- A producer that waits for a slot and a consumer that waits for a string: one of them can go on. -/
theorem Smooth.not_both (hS : Smooth s) (hproducer : s.calls.pc .producer = .wait .putitem)
    (hconsumer : (s.calls.pc .consumer).slotToken = 0 ∧ (s.calls.pc .consumer).itemToken = 0)
    (hslots : s.calls.mem.semslots.value = 0) : s.calls.mem.semitems.value = 5 := by
  have hslot : total Pc.slotToken s.calls.pc = 0 := by
    refine total_eq_zero fun t => ?_
    cases t with
    | userInput => rw [hS.userInput]; rfl
    | producer => rw [hproducer]; rfl
    | consumer => exact hconsumer.1
    | display => exact (showing_tokens hS.display).1
  have hitem : total Pc.itemToken s.calls.pc = 0 := by
    refine total_eq_zero fun t => ?_
    cases t with
    | userInput => rw [hS.userInput]; rfl
    | producer => rw [hproducer]; rfl
    | consumer => exact hconsumer.2
    | display => exact (showing_tokens hS.display).2
  have h₁ := hS.flow.slots
  have h₂ := hS.flow.items
  omega

/-- **No deadlock** in a state with the invariant. -/
theorem Smooth.not_deadlocked (hS : Smooth s) : ¬ ∃ S, s.Deadlocked S := by
  rintro ⟨S, ⟨t₀, ht₀⟩, hblocked⟩
  -- nobody in the set is blocked on `data_buffer_lock`
  have hdata : ∀ t ∈ S, ∀ l, s.Blocked t l → (∀ u, s.releaser l = some u → u ∈ S) → l ≠ .dataBuffer := by
    rintro t ht l ⟨-, -, hunavailable⟩ hin rfl
    obtain ⟨u, hu⟩ := Option.ne_none_iff_exists'.1 hunavailable
    obtain ⟨l', ⟨-, htakes, -⟩, -⟩ := hblocked u (hin u hu)
    rw [hS.holder_runs hu] at htakes
    cases htakes
  have huserInput : .userInput ∈ S → .producer ∈ S ∧ s.producer.keeps = true ∧ s.userInput = .lock := by
    intro ht
    obtain ⟨l, hl, hin⟩ := hblocked _ ht
    rcases blocked_cases hS hl.2.1 with hd | ⟨-, rfl, hu⟩ | ⟨h, -⟩ | ⟨h, -⟩
    · exact absurd hd (hdata _ ht l hl hin)
    · obtain ⟨u, howner⟩ := Option.ne_none_iff_exists'.1 hl.2.2
      obtain ⟨rfl, hkeeps⟩ := hS.producer_keeps (by simp [hu]) (by simp [hu]) howner
      exact ⟨hin _ howner, hkeeps, hu⟩
    · cases h
    · cases h
  have hproducer : .producer ∈ S → .consumer ∈ S ∧ s.calls.pc .producer = .wait .putitem ∧
      s.calls.mem.semslots.value = 0 := by
    intro ht
    obtain ⟨l, hl, hin⟩ := hblocked _ ht
    rcases blocked_cases hS hl.2.1 with hd | ⟨h, -⟩ | ⟨-, ⟨rfl, hp⟩ | ⟨rfl, hp⟩ | ⟨rfl, -, hpc⟩⟩ | ⟨h, -⟩
    · exact absurd hd (hdata _ ht l hl hin)
    · cases h
    · -- the user input would wait for the lock, which the producer does not have
      have hkeeps := (huserInput (hin _ rfl)).2.1
      rw [hp] at hkeeps
      cases hkeeps
    · -- the user input would have the lock and wait for it
      obtain ⟨u, howner⟩ := Option.ne_none_iff_exists'.1 hl.2.2
      obtain ⟨rfl, hu⟩ := hS.userInput_keeps (by rw [hp]; rfl) howner
      have hlock := (huserInput (hin _ howner)).2.2
      rw [hlock] at hu
      rcases hu with hu | hu <;> cases hu
    · exact ⟨hin _ rfl, hpc, hl.2.2⟩
    · cases h
  have hconsumer : .consumer ∈ S → .producer ∈ S ∧ s.calls.pc .consumer = .wait .getitem ∧
      s.calls.mem.semitems.value = 0 := by
    intro ht
    obtain ⟨l, hl, hin⟩ := hblocked _ ht
    rcases blocked_cases hS hl.2.1 with hd | ⟨h, -⟩ | ⟨h, -⟩ | ⟨-, rfl, hpc⟩
    · exact absurd hd (hdata _ ht l hl hin)
    · cases h
    · cases h
    · exact ⟨hin _ rfl, hpc, hl.2.2⟩
  have hcycle : .producer ∉ S := by
    intro ht
    obtain ⟨hc, hpc, hslots⟩ := hproducer ht
    obtain ⟨-, hpc', hitems⟩ := hconsumer hc
    have hfive := hS.not_both hpc (by rw [hpc']; exact ⟨rfl, rfl⟩) hslots
    omega
  cases t₀ with
  | userInput => exact hcycle (huserInput ht₀).1
  | producer => exact hcycle ht₀
  | consumer => exact hcycle (hconsumer ht₀).1
  | display =>
    obtain ⟨l, hl, hin⟩ := hblocked _ ht₀
    rcases blocked_cases hS hl.2.1 with hd | ⟨h, -⟩ | ⟨h, -⟩ | ⟨h, -⟩
    · exact hdata _ ht₀ l hl hin hd
    all_goals cases h

/-! ## A producer that waits for a slot -/

/-- The producer is blocked on `semslots`, with `input_buffer_lock` locked. -/
structure Full (s : Pipeline α) : Prop where
  running : s.exited = none
  producer : s.producer = .inside
  waits : s.calls.pc .producer = .wait .putitem
  slots : s.calls.mem.semslots.value = 0

/-- What the display has still to do with `data_buffer_lock`. -/
def Pc.showDistance : Pc → ℕ
  | .dread => 2
  | .dunlock => 1
  | _ => 0

/-- The statements of `getitem` before `sem_post(&semslots)`. -/
def Pc.getDistance : Pc → ℕ
  | .ret _ _ => 14
  | .test _ => 11
  | .wait _ => 10
  | .lock _ => 7
  | .copy _ => 6
  | .advance _ => 3
  | .tally _ => 2
  | .unlock _ => 1
  | _ => 0

/-- A bound for the steps of the consumer and the display before `sem_post(&semslots)`. -/
def Pipeline.distance (s : Pipeline α) : ℕ :=
  (s.calls.pc .display).showDistance +
    match s.consumer with
    | .check _ => 13
    | .enter => 12
    | .inside => (s.calls.pc .consumer).getDistance

/-- The consumer executes a statement of `getitem`. -/
theorem consumer_go {m : Mem Thread α} (hrun : s.exited = none) (hin : s.consumer = .inside)
    (hret : ∀ d r, s.calls.pc .consumer ≠ .ret d r)
    (h : stmt .consumer (s.calls.pc .consumer) .go s.calls.mem = some (m, p')) :
    Pipeline.step (.consumer, .go) s =
      some { s with calls := ⟨m, Function.update s.calls.pc .consumer p'⟩ } := by
  have hstep : Pipeline.step (.consumer, .go) s = s.call .consumer .go id := by
    unfold Pipeline.step
    rw [if_neg (by simp [hrun])]
    simp only [consumerStep, hin]
  exact hstep.trans (Pipeline.call_eq_some.2 ⟨_, step_eq_some.2 ⟨m, p', h, rfl⟩, rfl⟩)

/-- The display executes a statement. -/
theorem display_go {m : Mem Thread α} (hrun : s.exited = none) (hout : s.calls.pc .display ≠ .out)
    (h : stmt .display (s.calls.pc .display) .go s.calls.mem = some (m, p')) :
    Pipeline.step (.display, .go) s =
      some { s with calls := ⟨m, Function.update s.calls.pc .display p'⟩ } := by
  have hstep : Pipeline.step (.display, .go) s = s.call .display .go id := by
    unfold Pipeline.step
    rw [if_neg (by simp [hrun])]
    simp only [displayStep]
  exact hstep.trans (Pipeline.call_eq_some.2 ⟨_, step_eq_some.2 ⟨m, p', h, rfl⟩, rfl⟩)

/-- A step on the way to `sem_post(&semslots)`. -/
structure Closer (s s' : Pipeline α) : Prop where
  full : Full s'
  input : s'.inputBufferLock = s.inputBufferLock
  distance : s'.distance < s.distance

/-- The consumer goes on inside `getitem`. -/
theorem closer_consumer {m : Mem Thread α} (hf : Full s) (hin : s.consumer = .inside)
    (hret : ∀ d r, s.calls.pc .consumer ≠ .ret d r)
    (h : stmt .consumer (s.calls.pc .consumer) .go s.calls.mem = some (m, p'))
    (hslots : m.semslots = s.calls.mem.semslots) (hd : p'.getDistance < (s.calls.pc .consumer).getDistance) :
    ∃ t, (t = .consumer ∨ t = .display) ∧ ∃ s', Pipeline.step (t, .go) s = some s' ∧ Closer s s' := by
  refine ⟨.consumer, .inl rfl, _, consumer_go hf.running hin hret h, ?_⟩
  refine ⟨⟨hf.running, hf.producer, ?_, ?_⟩, rfl, ?_⟩
  · simpa using hf.waits
  · simpa [hslots] using hf.slots
  · have hshow : Function.update s.calls.pc Thread.consumer p' .display = s.calls.pc .display :=
      Function.update_of_ne (by decide) _ _
    simp only [Pipeline.distance, hin, Function.update_self, hshow]
    omega

/-- The display goes on, `data_buffer_lock` being its own. -/
theorem closer_display {m : Mem Thread α} (hf : Full s)
    (h : stmt .display (s.calls.pc .display) .go s.calls.mem = some (m, p'))
    (hslots : m.semslots = s.calls.mem.semslots) (hd : p'.showDistance < (s.calls.pc .display).showDistance) :
    ∃ t, (t = .consumer ∨ t = .display) ∧ ∃ s', Pipeline.step (t, .go) s = some s' ∧ Closer s s' := by
  have hout : s.calls.pc .display ≠ .out := by
    intro hpc
    rw [hpc] at hd
    exact absurd hd (Nat.not_lt_zero _)
  refine ⟨.display, .inr rfl, _, display_go hf.running hout h, ?_⟩
  refine ⟨⟨hf.running, hf.producer, ?_, ?_⟩, rfl, ?_⟩
  · simpa using hf.waits
  · simpa [hslots] using hf.slots
  · have hget : Function.update s.calls.pc Thread.display p' .consumer = s.calls.pc .consumer :=
      Function.update_of_ne (by decide) _ _
    simp only [Pipeline.distance, Function.update_self, hget]
    omega

/-- The consumer takes `data_buffer_lock`, or the display is about to give it back. -/
theorem Smooth.closer_lock (hS : Smooth s) (hf : Full s) (hin : s.consumer = .inside)
    (hpc : s.calls.pc .consumer = .lock .getitem) : ∃ t, (t = .consumer ∨ t = .display) ∧
      ∃ s', Pipeline.step (t, .go) s = some s' ∧ Closer s s' := by
  cases hlock : s.calls.mem.dataBufferLock with
  | none =>
    have hstmt : stmt (α := α) .consumer (s.calls.pc .consumer) .go s.calls.mem =
        some ({ s.calls.mem with dataBufferLock := some .consumer }, .copy .getitem) := by
      simp [hpc, stmt, hlock, lock?]
    exact closer_consumer hf hin (by simp [hpc]) hstmt rfl (by rw [hpc]; decide)
  | some t =>
    have hholds := hS.flow.data t hlock
    have ht : t = .display := by
      cases t with
      | userInput => rw [hS.userInput] at hholds; cases hholds
      | producer => rw [hf.waits] at hholds; cases hholds
      | consumer => rw [hpc] at hholds; cases hholds
      | display => rfl
    subst ht
    have hshow := hS.display
    cases hd : s.calls.pc .display with
    | dread =>
      have hstmt : stmt (α := α) .display (s.calls.pc .display) .go s.calls.mem =
          some ({ s.calls.mem with ring := s.calls.mem.ring.show }, .dunlock) := by
        rw [hd]
        rfl
      exact closer_display hf hstmt rfl (by rw [hd]; decide)
    | dunlock =>
      have hstmt : stmt (α := α) .display (s.calls.pc .display) .go s.calls.mem =
          some ({ s.calls.mem with dataBufferLock := none }, .out) := by
        rw [hd]
        rfl
      exact closer_display hf hstmt rfl (by rw [hd]; decide)
    | out | dlock =>
      rw [hd] at hholds
      cases hholds
    | _ =>
      rw [hd] at hshow
      cases hshow

/-- **On the way to `sem_post(&semslots)`**, the consumer or the display can always go on. -/
theorem Smooth.closer (hS : Smooth s) (hf : Full s)
    (hpost : ¬ (s.consumer = .inside ∧ s.calls.pc .consumer = .post .getitem)) :
    ∃ t, (t = .consumer ∨ t = .display) ∧ ∃ s', Pipeline.step (t, .go) s = some s' ∧ Closer s s' := by
  have hpcs : ∀ q, Function.update s.calls.pc .consumer q .producer = s.calls.pc .producer ∧
      Function.update s.calls.pc .consumer q .display = s.calls.pc .display :=
    fun q => ⟨Function.update_of_ne (by decide) _ _, Function.update_of_ne (by decide) _ _⟩
  cases hc : s.consumer with
  | check r =>
    have hr := hS.get r hc
    subst hr
    refine ⟨.consumer, .inl rfl, { s with consumer := .enter }, ?_, ⟨hf.running, hf.producer, hf.waits, hf.slots⟩,
      rfl, ?_⟩
    · unfold Pipeline.step
      rw [if_neg (by simp [hf.running])]
      simp only [consumerStep, hc, if_true]
    · simp only [Pipeline.distance, hc]
      omega
  | enter =>
    have hpc := hS.outGet (by simp [hc])
    refine ⟨.consumer, .inl rfl, { s with
      calls := ⟨s.calls.mem, Function.update s.calls.pc .consumer (.test .getitem)⟩, consumer := .inside }, ?_,
      ⟨hf.running, hf.producer, (hpcs (.test .getitem)).1.trans hf.waits, hf.slots⟩, rfl, ?_⟩
    · unfold Pipeline.step
      rw [if_neg (by simp [hf.running])]
      simp only [consumerStep, hc]
      refine Pipeline.call_eq_some.2 ⟨_, step_eq_some.2 ⟨_, _, ?_, rfl⟩, rfl⟩
      simp only [hpc, stmt]
    · simp only [Pipeline.distance, hc, (hpcs _).2, Function.update_self, Pc.getDistance]
      omega
  | inside =>
    have hget := hS.inGet hc
    have hown : ∀ {d : Call}, decide (d = .getitem) = true → d = .getitem := of_decide_eq_true
    cases hpc : s.calls.pc .consumer with
    | out | once | init | dlock | dread | dunlock =>
      rw [hpc] at hget
      cases hget
    | test d =>
      rw [hpc] at hget
      obtain rfl := hown hget
      have hstmt : stmt (α := α) .consumer (s.calls.pc .consumer) .go s.calls.mem =
          some (s.calls.mem, .wait .getitem) := by
        simp [hpc, stmt, hS.flow.ready]
      exact closer_consumer hf hc (by simp [hpc]) hstmt rfl (by rw [hpc]; decide)
    | wait d =>
      rw [hpc] at hget
      obtain rfl := hown hget
      have hfive := hS.not_both hf.waits (by rw [hpc]; exact ⟨rfl, rfl⟩) hf.slots
      have hstmt : stmt (α := α) .consumer (s.calls.pc .consumer) .go s.calls.mem =
          some ({ s.calls.mem with semitems := { s.calls.mem.semitems with value := 4 } }, .lock .getitem) := by
        simp [hpc, stmt, Sem.wait?, hfive]
      exact closer_consumer hf hc (by simp [hpc]) hstmt rfl (by rw [hpc]; decide)
    | lock d =>
      rw [hpc] at hget
      obtain rfl := hown hget
      exact hS.closer_lock hf hc hpc
    | copy d =>
      rw [hpc] at hget
      obtain rfl := hown hget
      have hstmt : stmt (α := α) .consumer (s.calls.pc .consumer) .go s.calls.mem =
          some ({ s.calls.mem with ring := s.calls.mem.ring.copyOut }, .advance .getitem) := by
        rw [hpc]
        rfl
      exact closer_consumer hf hc (by simp [hpc]) hstmt rfl (by rw [hpc]; decide)
    | advance d =>
      have hstmt : stmt (α := α) .consumer (s.calls.pc .consumer) .go s.calls.mem =
          some ({ s.calls.mem with ring := s.calls.mem.ring.advance d }, .tally d) := by
        rw [hpc]
        rfl
      exact closer_consumer hf hc (by simp [hpc]) hstmt rfl (by rw [hpc]; simp [Pc.getDistance])
    | tally d =>
      have hstmt : stmt (α := α) .consumer (s.calls.pc .consumer) .go s.calls.mem =
          some ({ s.calls.mem with ring := s.calls.mem.ring.tally d }, .unlock d) := by
        rw [hpc]
        rfl
      exact closer_consumer hf hc (by simp [hpc]) hstmt rfl (by rw [hpc]; simp [Pc.getDistance])
    | unlock d =>
      have hstmt : stmt (α := α) .consumer (s.calls.pc .consumer) .go s.calls.mem =
          some ({ s.calls.mem with dataBufferLock := none }, .post d) := by
        rw [hpc]
        rfl
      exact closer_consumer hf hc (by simp [hpc]) hstmt rfl (by rw [hpc]; simp [Pc.getDistance])
    | post d =>
      rw [hpc] at hget
      obtain rfl := hown hget
      exact absurd ⟨hc, hpc⟩ hpost
    | ret d r =>
      refine ⟨.consumer, .inl rfl, { s with
        calls := ⟨s.calls.mem, Function.update s.calls.pc .consumer .out⟩, consumer := .check r }, ?_,
        ⟨hf.running, hf.producer, (hpcs .out).1.trans hf.waits, hf.slots⟩, rfl, ?_⟩
      · unfold Pipeline.step
        rw [if_neg (by simp [hf.running])]
        simp only [consumerStep, hc, hpc]
        refine Pipeline.call_eq_some.2 ⟨_, step_eq_some.2 ⟨_, _, ?_, rfl⟩, rfl⟩
        simp only [hpc, stmt]
      · simp only [Pipeline.distance, hc, hpc, (hpcs _).2, Pc.getDistance]
        omega

/-- **The consumer reaches `sem_post(&semslots)`**, and executes it. -/
theorem Smooth.reaches_post (hS : Smooth s) (hf : Full s) : ∃ acts s',
    (∀ a ∈ acts, a.1 = .consumer ∨ a.1 = .display) ∧ Run.exec Pipeline.step acts s = some s' ∧
      s'.calls.mem.semslots.value = 1 ∧ s'.inputBufferLock = s.inputBufferLock := by
  induction hn : s.distance using Nat.strong_induction_on generalizing s with
  | _ n ih =>
    by_cases hpost : s.consumer = .inside ∧ s.calls.pc .consumer = .post .getitem
    · obtain ⟨hin, hpc⟩ := hpost
      have hstmt : stmt (α := α) .consumer (s.calls.pc .consumer) .go s.calls.mem =
          some ({ s.calls.mem with semslots := s.calls.mem.semslots.post }, .ret .getitem 0) := by
        rw [hpc]
        rfl
      have hstep := consumer_go hf.running hin (by simp [hpc]) hstmt
      refine ⟨[(.consumer, .go)], _, by simp, Run.exec_cons.2 ⟨_, hstep, rfl⟩, ?_, rfl⟩
      simp [hf.slots]
    · obtain ⟨t, ht, s₁, hstep, hcloser⟩ := hS.closer hf hpost
      have hlt : s₁.distance < n := hn ▸ hcloser.distance
      have hS₁ : Smooth s₁ := hS.step (a := (t, .go)) rfl hstep
      obtain ⟨acts, s', honly, hexec, hvalue, hinput⟩ := ih _ hlt hS₁ hcloser.full rfl
      refine ⟨(t, .go) :: acts, s', ?_, Run.exec_cons.2 ⟨s₁, hstep, hexec⟩, hvalue, hinput.trans hcloser.input⟩
      intro a ha
      rcases List.mem_cons.1 ha with rfl | ha
      · exact ht
      · exact honly a ha

/-- **The pipeline does not deadlock.** In every state that the four threads can reach without a failing call,
no set of threads wait for each other only; and when the producer waits for a slot with `input_buffer_lock`
locked, the consumer can go on to its next `sem_post(&semslots)` while that lock stays locked. -/
theorem no_deadlock [Inhabited α] {acts : List (Thread × Choice α)} (hok : ∀ a ∈ acts, a.2.isErr = false)
    (h : Run.exec Pipeline.step acts (.start .initialised) = some s) :
    (¬ ∃ S, s.Deadlocked S) ∧
      (s.Blocked .producer .semslots → s.inputBufferLock = some .producer → ∃ acts' s',
        (∀ a ∈ acts', a.1 = .consumer ∨ a.1 = .display) ∧ Run.exec Pipeline.step acts' s = some s' ∧
          s'.calls.mem.semslots.value = 1 ∧ s'.inputBufferLock = some .producer) := by
  have hS := smooth_run hok h
  refine ⟨hS.not_deadlocked, ?_⟩
  rintro ⟨hrun, htakes, hslots⟩ hinput
  rcases blocked_cases hS htakes with hd | ⟨ht, -⟩ | ⟨-, ⟨hl, -⟩ | ⟨hl, -⟩ | ⟨-, hin, hpc⟩⟩ | ⟨ht, -⟩
  · cases hd
  · cases ht
  · cases hl
  · cases hl
  · rw [← hinput]
    exact hS.reaches_post ⟨hrun, hin, hpc, hslots⟩
  · cases ht

end

/-- Five strings are stored, and the producer waits for a slot with the sixth. -/
def fill : List (Thread × Choice Nat) :=
  (List.range 5).flatMap (fun x => readLine x ++ go .producer 15) ++ readLine 5 ++ go .producer 5

theorem no_deadlock_full : ∃ s : Pipeline Nat,
    Run.exec Pipeline.step fill (.start .initialised) = some s ∧ s.Blocked .producer .semslots ∧
      s.inputBufferLock = some .producer ∧ (¬ ∃ S, s.Deadlocked S) ∧
      ∃ acts' s', (∀ a ∈ acts', a.1 = .consumer ∨ a.1 = .display) ∧
        Run.exec Pipeline.step acts' s = some s' ∧ s'.calls.mem.semslots.value = 1 ∧
          s'.inputBufferLock = some .producer := by
  have h : (Run.exec Pipeline.step fill (.start .initialised)).map (fun s =>
      (s.exited, s.takes .producer, s.calls.mem.semslots.value, s.inputBufferLock)) =
        some (none, some .semslots, 0, some .producer) := by decide +kernel
  obtain ⟨s, hs, he⟩ := Option.map_eq_some_iff.1 h
  simp only [Prod.mk.injEq] at he
  obtain ⟨hrun, htakes, hslots, hinput⟩ := he
  have hok : ∀ a ∈ fill, a.2.isErr = false := by decide
  have hblocked : s.Blocked .producer .semslots := ⟨hrun, htakes, hslots⟩
  obtain ⟨hfree, hreach⟩ := no_deadlock hok hs
  exact ⟨s, hs, hblocked, hinput, hfree, hreach hblocked hinput⟩

end ProdCons
