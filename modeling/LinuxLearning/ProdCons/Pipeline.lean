import LinuxLearning.ProdCons.Queue
/-!
# `prodcons_threads.c`: the four threads

`user_input_thread` reads lines into a single `user_input_buffer`, `producer_thread` copies them into the
data buffer with `putitem`, `consumer_thread` takes them out with `getitem`, `display_status_thread` locks
and unlocks `data_buffer_lock`. A state is the state of the calls (`Buffer.lean`, one control point per
thread) and what the thread functions add to it: the input buffer with its lock, the local
`pdatabuf`, and where each function is.

| here | there (`Examples/Threads/prodcons_threads.c`) |
| --- | --- |
| `userInputStep` | `user_input_thread` (`:120-155`) |
| `producerStep`  | `producer_thread` (`:158-183`) |
| `consumerStep`  | `consumer_thread` (`:187-202`) |
| `displayStep`   | `display_status_thread` (`:204-235`) |
| `start`         | after `main` has created the threads (`:304-315`); a thread that has not been created yet has not moved yet |

Calls whose result the thread functions do not look at (`pthread_mutex_lock(&input_buffer_lock)`,
`sem_wait(&seminput)`, `sem_post(&seminput)` and the unlock) succeed here; those that `getitem` and
`putitem` check may fail. `exit(3)` and `exit(4)` end every thread.

`stmt_input` and `stmt_before` say what a statement of the calls does to `seminput` and to a thread's
way to its copy; `step_calls` says that a step of the program is a step of the calls or leaves them
alone, so `run_ring` hands the results of `Queue.lean` over.
-/

namespace ProdCons

open Threads

inductive Thread where
  | userInput
  | producer
  | consumer
  | display
deriving DecidableEq, Repr

instance : Fintype Thread :=
  ⟨{.userInput, .producer, .consumer, .display}, fun t => by cases t <;> decide⟩

/-- The next statement of `user_input_thread`. -/
inductive UserInputPc where
  /-- `fgets(pdatabuf, sizeof(pdatabuf), stdin)` -/
  | fgets
  | lock
  /-- `strncpy(user_input_buffer, pdatabuf, …)` -/
  | copy
  | unlock
  /-- `sem_post(&seminput)` -/
  | post
deriving DecidableEq, Repr

/-- The next statement of `producer_thread`. -/
inductive ProducerPc where
  /-- the head of `while(1)` -/
  | loop
  /-- in `sem_wait(&seminput)` -/
  | wait
  | lock
  | enter
  /-- in `putitem(user_input_buffer)` -/
  | inside
  /-- the unlock, `putitem` having returned `ret` -/
  | unlock (ret : Nat)
  /-- `if(ret != 0) exit(3)` -/
  | check (ret : Nat)
deriving DecidableEq, Repr

/-- The next statement of `consumer_thread`. -/
inductive ConsumerPc where
  | enter
  /-- in `getitem(cdatabuf)` -/
  | inside
  /-- `if(ret != 0) exit(4)` -/
  | check (ret : Nat)
deriving DecidableEq, Repr

/-- What the scheduler and the outside world choose. -/
inductive Choice (α : Type*) where
  | go
  /-- `fgets` reads this line -/
  | line (x : α)
  /-- `fgets` returns 0 -/
  | eof
  /-- the library call fails with this `errno` -/
  | err (e : Nat)
deriving DecidableEq, Repr

def Choice.isErr : Choice α → Bool
  | .err _ => true
  | _ => false

/-- `lines` and `handed` are history: what `fgets` has read and what has been stored in
`user_input_buffer`. -/
structure Pipeline (α : Type*) where
  calls : Config Thread (Mem Thread α) Pc
  userInputBuffer : α
  inputBufferLock : Option Thread
  pdatabuf : α
  userInput : UserInputPc
  producer : ProducerPc
  consumer : ConsumerPc
  exited : Option Nat
  lines : List α
  handed : List α

section
variable {α : Type*}

/-- Thread `t` makes step `a` inside the calls; `k` is what that does to its function. -/
def Pipeline.call (s : Pipeline α) (t : Thread) (a : Act α) (k : Pipeline α → Pipeline α) :
    Option (Pipeline α) :=
  (step stmt (t, a) s.calls).map fun c => k { s with calls := c }

def userInputStep (a : Choice α) (s : Pipeline α) : Option (Pipeline α) :=
  match s.userInput, a with
  | .fgets, .line x => some { s with pdatabuf := x, lines := s.lines ++ [x], userInput := .lock }
  | .fgets, .eof => some { s with exited := some 3 }
  | .lock, .go =>
    (lock? .userInput s.inputBufferLock).map fun l => { s with inputBufferLock := l, userInput := .copy }
  | .copy, .go =>
    some { s with userInputBuffer := s.pdatabuf, handed := s.handed ++ [s.pdatabuf], userInput := .unlock }
  | .unlock, .go => some { s with inputBufferLock := none, userInput := .post }
  | .post, .go => s.call .userInput .postInput fun s => { s with userInput := .fgets }
  | _, _ => none

def producerStep (a : Choice α) (s : Pipeline α) : Option (Pipeline α) :=
  match s.producer, a with
  | .loop, .go => some { s with producer := .wait }
  | .wait, .go => s.call .producer .waitInput fun s => { s with producer := .lock }
  | .lock, .go =>
    (lock? .producer s.inputBufferLock).map fun l => { s with inputBufferLock := l, producer := .enter }
  | .enter, .go => s.call .producer (.call .putitem) fun s => { s with producer := .inside }
  | .inside, a => match s.calls.pc .producer, a with
    | .ret _ r, .go => s.call .producer .go fun s => { s with producer := .unlock r }
    -- `item` points to `user_input_buffer`
    | .copy _, .go => s.call .producer (.copyIn s.userInputBuffer) id
    | _, .go => s.call .producer .go id
    | _, .err e => s.call .producer (.err e) id
    | _, _ => none
  | .unlock ret, .go => some { s with inputBufferLock := none, producer := .check ret }
  | .check ret, .go => some (if ret = 0 then { s with producer := .loop } else { s with exited := some 3 })
  | _, _ => none

def consumerStep (a : Choice α) (s : Pipeline α) : Option (Pipeline α) :=
  match s.consumer, a with
  | .enter, .go => s.call .consumer (.call .getitem) fun s => { s with consumer := .inside }
  | .inside, a => match s.calls.pc .consumer, a with
    | .ret _ r, .go => s.call .consumer .go fun s => { s with consumer := .check r }
    | _, .go => s.call .consumer .go id
    | _, .err e => s.call .consumer (.err e) id
    | _, _ => none
  | .check ret, .go => some (if ret = 0 then { s with consumer := .enter } else { s with exited := some 4 })
  | _, _ => none

def displayStep (a : Choice α) (s : Pipeline α) : Option (Pipeline α) :=
  match s.calls.pc .display, a with
  | .out, .go => s.call .display .display id
  | _, .go => s.call .display .go id
  | _, _ => none

/-- One step of one thread. -/
def Pipeline.step (a : Thread × Choice α) (s : Pipeline α) : Option (Pipeline α) :=
  if s.exited.isSome then none else
  match a.1 with
  | .userInput => userInputStep a.2 s
  | .producer => producerStep a.2 s
  | .consumer => consumerStep a.2 s
  | .display => displayStep a.2 s

def Pipeline.start [Inhabited α] (m : Mem Thread α) : Pipeline α :=
  ⟨ProdCons.start m, default, none, default, .fgets, .loop, .enter, none, [], []⟩

theorem Pipeline.call_eq_some {s s' : Pipeline α} {t : Thread} {a : Act α} {k : Pipeline α → Pipeline α} :
    s.call t a k = some s' ↔ ∃ c, Threads.step stmt (t, a) s.calls = some c ∧ s' = k { s with calls := c } := by
  simp only [Pipeline.call, Option.map_eq_some_iff]
  exact ⟨fun ⟨c, h, e⟩ => ⟨c, h, e.symm⟩, fun ⟨c, h, e⟩ => ⟨c, h, e.symm⟩⟩

/-! ## What a statement of the calls does to `seminput` -/

theorem initStmt_input {T : Type*} {i : InitPc} {a : Act α} {m m' : Mem T α} {r : Option InitPc}
    (h : initStmt i a m = some (m', r)) : m'.posts = m.posts ∧ m'.waits = m.waits ∧
      (m'.seminput = m.seminput ∨ (i = .input ∧ a = .go ∧ m'.seminput = m.seminput.init 0)) := by
  unfold initStmt at h
  split at h <;> simp at h <;>
    first
      | obtain ⟨rfl, -⟩ := h; simp
      | obtain ⟨-, rfl, -⟩ := h; simp

/-- `seminput` is posted and waited for outside the calls, and set up by the third `sem_init`. -/
theorem stmt_input {T : Type*} {t : T} {p p' : Pc} {a : Act α} {m m' : Mem T α}
    (h : stmt t p a m = some (m', p')) :
    (p = .out ∧ a = .postInput ∧ m'.seminput = m.seminput.post ∧
      m'.posts = m.posts + 1 ∧ m'.waits = m.waits) ∨
    (p = .out ∧ a = .waitInput ∧ m.seminput.wait? = some m'.seminput ∧
      m'.posts = m.posts ∧ m'.waits = m.waits + 1) ∨
    (m'.posts = m.posts ∧ m'.waits = m.waits ∧ (m'.seminput = m.seminput ∨
      ∃ c, p = .init c .input ∧ a = .go ∧ m'.seminput = m.seminput.init 0)) := by
  cases stmt_cases h with
  | postInput => exact .inl ⟨rfl, rfl, rfl, rfl, rfl⟩
  | waitInput v hv => exact .inr (.inl ⟨rfl, rfl, hv, rfl, rfl⟩)
  | init c i a m' r hinit =>
    obtain ⟨hposts, hwaits, hinput⟩ := initStmt_input hinit
    refine .inr (.inr ⟨hposts, hwaits, hinput.imp_right ?_⟩)
    rintro ⟨rfl, rfl, hs⟩
    exact ⟨c, rfl, rfl, hs⟩
  | _ => exact .inr (.inr ⟨rfl, rfl, .inl rfl⟩)

/-- What the set-up writes is the same. -/
structure SameSetUp {T : Type*} (m m' : Mem T α) : Prop where
  once : m'.initonce = m.initonce
  done : m'.initdone = m.initdone
  error : m'.initerror = m.initerror
  items : m'.semitems.ready = m.semitems.ready
  slots : m'.semslots.ready = m.semslots.ready
  input : m'.seminput.ready = m.seminput.ready

theorem SameSetUp.refl {T : Type*} (m : Mem T α) : SameSetUp m m := ⟨rfl, rfl, rfl, rfl, rfl, rfl⟩

/-- In the function that `pthread_once` runs. -/
def Pc.setsUp : Pc → Bool
  | .init _ _ => true
  | _ => false

theorem Pc.setsUp_iff {p : Pc} : p.setsUp = true ↔ ∃ c i, p = .init c i := by
  cases p <;> simp [Pc.setsUp]

/-- Only `pthread_once` and the function it runs write the set-up flags, and that function is entered
from `pthread_once` only. -/
theorem stmt_setup {T : Type*} {t : T} {p p' : Pc} {a : Act α} {m m' : Mem T α}
    (h : stmt t p a m = some (m', p')) (ho : ∀ c, p ≠ .once c) (hi : p.setsUp = false) :
    SameSetUp m m' ∧ p'.setsUp = false := by
  cases stmt_cases h with
  | enter c | ranBefore c => exact absurd rfl (ho c)
  | init => cases hi
  | waitInput v hv => exact ⟨⟨rfl, rfl, rfl, rfl, rfl, (Sem.wait?_eq_some.1 hv).2.symm⟩, rfl⟩
  | waitItems v hv => exact ⟨⟨rfl, rfl, rfl, (Sem.wait?_eq_some.1 hv).2.symm, rfl, rfl⟩, rfl⟩
  | waitSlots v hv => exact ⟨⟨rfl, rfl, rfl, rfl, (Sem.wait?_eq_some.1 hv).2.symm, rfl⟩, rfl⟩
  | _ => exact ⟨⟨rfl, rfl, rfl, rfl, rfl, rfl⟩, rfl⟩

/-! ## A thread on its way to its copy -/

/-- In `putitem`, and the copy of this call is still to come. -/
def Pc.before : Pc → Nat
  | .test .putitem | .once .putitem | .init .putitem _ | .wait .putitem | .lock .putitem
  | .copy .putitem => 1
  | _ => 0

theorem initStmt_before {c : Call} {i : InitPc} {r : Option InitPc} :
    Pc.before (r.elim (.wait c) (.init c)) = Pc.before (.init c i) := by
  cases r <;> cases c <;> rfl

/-- No statement but the copy itself takes a thread past its copy, when no call fails. -/
theorem stmt_before {T : Type*} {t : T} {p p' : Pc} {m m' : Mem T α}
    (h : stmt t p .go m = some (m', p')) : p'.before = p.before := by
  cases stmt_cases h with
  | init => exact initStmt_before
  | ready c | unready c | enter c | ranBefore c | lock c | advance c | tally c | unlock c => cases c <;> rfl
  | _ => rfl

theorem stmt_copyIn {T : Type*} {t : T} {p p' : Pc} {x : α} {m m' : Mem T α}
    (h : stmt t p (.copyIn x) m = some (m', p')) :
    p = .copy .putitem ∧ p' = .advance .putitem ∧ m' = { m with ring := m.ring.copyIn x } := by
  cases stmt_cases h with
  | copyIn => exact ⟨rfl, rfl, rfl⟩
  | init c i a m' r hinit => cases i <;> cases hinit

theorem stmt_call {T : Type*} {t : T} {p p' : Pc} {c : Call} {m m' : Mem T α}
    (h : stmt t p (.call c) m = some (m', p')) : p = .out ∧ p' = .test c ∧ m' = m := by
  cases stmt_cases h with
  | call => exact ⟨rfl, rfl, rfl⟩
  | init c i a m' r hinit => cases i <;> cases hinit

theorem stmt_postInput {T : Type*} {t : T} {p p' : Pc} {m m' : Mem T α}
    (h : stmt t p .postInput m = some (m', p')) :
    p = .out ∧ p' = .out ∧ m' = { m with seminput := m.seminput.post, posts := m.posts + 1 } := by
  cases stmt_cases h with
  | postInput => exact ⟨rfl, rfl, rfl⟩
  | init c i a m' r hinit => cases i <;> cases hinit

theorem stmt_waitInput {T : Type*} {t : T} {p p' : Pc} {m m' : Mem T α}
    (h : stmt t p .waitInput m = some (m', p')) :
    p = .out ∧ p' = .out ∧ ∃ v, m.seminput.wait? = some v ∧
      m' = { m with seminput := v, waits := m.waits + 1 } := by
  cases stmt_cases h with
  | waitInput v hv => exact ⟨rfl, rfl, v, hv, rfl⟩
  | init c i a m' r hinit => cases i <;> cases hinit

/-! ## Steps of the program and steps of the calls -/

/-- A statement of the calls that is neither a copy into the buffer nor on `seminput` from outside,
and fails only if the step of the thread is a failure. -/
structure Plain (a : Choice α) (b : Act α) : Prop where
  postInput : b ≠ .postInput
  waitInput : b ≠ .waitInput
  copyIn : ∀ x, b ≠ .copyIn x
  err : ∀ e, b = .err e → a = .err e

theorem Plain.go (a : Choice α) : Plain a .go := ⟨by simp, by simp, by simp, by simp⟩
theorem Plain.failure (e : Nat) : Plain (α := α) (.err e) (.err e) := ⟨by simp, by simp, by simp, by simp⟩
theorem Plain.call (a : Choice α) (c : Call) : Plain a (.call c) := ⟨by simp, by simp, by simp, by simp⟩
theorem Plain.display (a : Choice α) : Plain a .display := ⟨by simp, by simp, by simp, by simp⟩

/-- What `user_input_thread` can do in `s`. -/
inductive UserInputStep (s : Pipeline α) : Choice α → Pipeline α → Prop where
  | fgets (x : α) (at_ : s.userInput = .fgets) :
      UserInputStep s (.line x) { s with pdatabuf := x, lines := s.lines ++ [x], userInput := .lock }
  | eof (at_ : s.userInput = .fgets) : UserInputStep s .eof { s with exited := some 3 }
  | lock (at_ : s.userInput = .lock) (free : s.inputBufferLock = none) :
      UserInputStep s .go { s with inputBufferLock := some .userInput, userInput := .copy }
  | copy (at_ : s.userInput = .copy) :
      UserInputStep s .go
        { s with userInputBuffer := s.pdatabuf, handed := s.handed ++ [s.pdatabuf], userInput := .unlock }
  | unlock (at_ : s.userInput = .unlock) :
      UserInputStep s .go { s with inputBufferLock := none, userInput := .post }
  | post (at_ : s.userInput = .post) (c) (hc : Threads.step stmt (.userInput, .postInput) s.calls = some c) :
      UserInputStep s .go { s with calls := c, userInput := .fgets }

/-- What `producer_thread` can do in `s`. -/
inductive ProducerStep (s : Pipeline α) : Choice α → Pipeline α → Prop where
  | loop (at_ : s.producer = .loop) : ProducerStep s .go { s with producer := .wait }
  | wait (at_ : s.producer = .wait) (c) (hc : Threads.step stmt (.producer, .waitInput) s.calls = some c) :
      ProducerStep s .go { s with calls := c, producer := .lock }
  | lock (at_ : s.producer = .lock) (free : s.inputBufferLock = none) :
      ProducerStep s .go { s with inputBufferLock := some .producer, producer := .enter }
  | enter (at_ : s.producer = .enter) (c)
      (hc : Threads.step stmt (.producer, .call .putitem) s.calls = some c) :
      ProducerStep s .go { s with calls := c, producer := .inside }
  | copyIn (at_ : s.producer = .inside) (c)
      (hc : Threads.step stmt (.producer, .copyIn s.userInputBuffer) s.calls = some c) :
      ProducerStep s .go { s with calls := c }
  | inside (at_ : s.producer = .inside) (c) (hc : Threads.step stmt (.producer, .go) s.calls = some c) :
      ProducerStep s .go { s with calls := c }
  | fails (at_ : s.producer = .inside) (e) (c)
      (hc : Threads.step stmt (.producer, .err e) s.calls = some c) :
      ProducerStep s (.err e) { s with calls := c }
  | ret (at_ : s.producer = .inside) (d) (r) (hr : s.calls.pc .producer = .ret d r) (c)
      (hc : Threads.step stmt (.producer, .go) s.calls = some c) :
      ProducerStep s .go { s with calls := c, producer := .unlock r }
  | unlock (r) (at_ : s.producer = .unlock r) :
      ProducerStep s .go { s with inputBufferLock := none, producer := .check r }
  | again (at_ : s.producer = .check 0) : ProducerStep s .go { s with producer := .loop }
  | exit (r) (at_ : s.producer = .check r) (hr : r ≠ 0) : ProducerStep s .go { s with exited := some 3 }

/-- What `consumer_thread` and `display_status_thread` can do in `s`: they leave the input buffer
alone. -/
inductive ReaderStep (s : Pipeline α) (t : Thread) (a : Choice α) : Pipeline α → Prop where
  | calls (b) (hb : Plain a b) (c) (hc : Threads.step stmt (t, b) s.calls = some c) (k : ConsumerPc) :
      ReaderStep s t a { s with calls := c, consumer := k }
  | check (k : ConsumerPc) (e : Option Nat) : ReaderStep s t a { s with consumer := k, exited := e }

theorem step_running {s s' : Pipeline α} {a : Thread × Choice α} (h : Pipeline.step a s = some s') :
    s.exited = none := by
  unfold Pipeline.step at h
  split at h
  · cases h
  · next he => simpa using he

theorem userInput_cases {s s' : Pipeline α} {a : Choice α} (h : Pipeline.step (.userInput, a) s = some s') :
    UserInputStep s a s' := by
  unfold Pipeline.step at h
  split at h
  · cases h
  simp only [userInputStep] at h
  split at h
  · next hu => cases h; exact .fgets _ hu
  · next hu => cases h; exact .eof hu
  · next hu =>
    obtain ⟨l, hl, rfl⟩ := Option.map_eq_some_iff.1 h
    obtain ⟨hfree, rfl⟩ := lock?_eq_some.1 hl
    exact .lock hu hfree
  · next hu => cases h; exact .copy hu
  · next hu => cases h; exact .unlock hu
  · next hu => obtain ⟨c, hc, rfl⟩ := Pipeline.call_eq_some.1 h; exact .post hu c hc
  · cases h

theorem producer_cases {s s' : Pipeline α} {a : Choice α} (h : Pipeline.step (.producer, a) s = some s') :
    ProducerStep s a s' := by
  unfold Pipeline.step at h
  split at h
  · cases h
  simp only [producerStep] at h
  split at h
  · next hp => cases h; exact .loop hp
  · next hp => obtain ⟨c, hc, rfl⟩ := Pipeline.call_eq_some.1 h; exact .wait hp c hc
  · next hp =>
    obtain ⟨l, hl, rfl⟩ := Option.map_eq_some_iff.1 h
    obtain ⟨hfree, rfl⟩ := lock?_eq_some.1 hl
    exact .lock hp hfree
  · next hp => obtain ⟨c, hc, rfl⟩ := Pipeline.call_eq_some.1 h; exact .enter hp c hc
  · next hp =>
    split at h
    · next hr => obtain ⟨c, hc, rfl⟩ := Pipeline.call_eq_some.1 h; exact .ret hp _ _ hr c hc
    · obtain ⟨c, hc, rfl⟩ := Pipeline.call_eq_some.1 h; exact .copyIn hp c hc
    · obtain ⟨c, hc, rfl⟩ := Pipeline.call_eq_some.1 h; exact .inside hp c hc
    · obtain ⟨c, hc, rfl⟩ := Pipeline.call_eq_some.1 h; exact .fails hp _ c hc
    · cases h
  · next hp => cases h; exact .unlock _ hp
  · next r hp =>
    by_cases hr : r = 0
    · subst hr; cases h; exact .again hp
    · rw [if_neg hr] at h; cases h; exact .exit r hp hr
  · cases h

theorem reader_cases {s s' : Pipeline α} {t : Thread} {a : Choice α}
    (h : Pipeline.step (t, a) s = some s') (ht : t = .consumer ∨ t = .display) : ReaderStep s t a s' := by
  have calls {b : Act α} {k : ConsumerPc} (hb : Plain a b)
      (h : s.call t b (fun s => { s with consumer := k }) = some s') : ReaderStep s t a s' := by
    obtain ⟨c, hc, rfl⟩ := Pipeline.call_eq_some.1 h
    exact .calls b hb c hc k
  unfold Pipeline.step at h
  split at h
  · cases h
  rcases ht with rfl | rfl
  · simp only [consumerStep] at h
    split at h
    · exact calls (.call _ _) h
    · split at h
      · exact calls (.go _) h
      · exact calls (k := s.consumer) (.go _) h
      · exact calls (k := s.consumer) (.failure _) h
      · cases h
    · cases h
      split
      · exact .check .enter s.exited
      · exact .check s.consumer (some 4)
    · cases h
  · simp only [displayStep] at h
    split at h
    · exact calls (k := s.consumer) (.display _) h
    · exact calls (k := s.consumer) (.go _) h
    · cases h

/-- **A step of the program is a step of the calls, or leaves them alone**; it fails there only if it
is a failure. -/
theorem step_calls {s s' : Pipeline α} {t : Thread} {a : Choice α} (h : Pipeline.step (t, a) s = some s') :
    s'.calls = s.calls ∨
      ∃ b, Threads.step stmt (t, b) s.calls = some s'.calls ∧ ∀ e, b = .err e → a = .err e := by
  cases t with
  | userInput =>
    cases userInput_cases h with
    | post _ c hc => exact .inr ⟨_, hc, by simp⟩
    | _ => exact .inl rfl
  | producer =>
    cases producer_cases h with
    | wait _ c hc | enter _ c hc | copyIn _ c hc | inside _ c hc | ret _ _ _ _ c hc =>
      exact .inr ⟨_, hc, by simp⟩
    | fails _ e c hc => exact .inr ⟨_, hc, by simp⟩
    | _ => exact .inl rfl
  | consumer | display =>
    cases reader_cases h (by simp) with
    | calls b hb c hc _ => exact .inr ⟨b, hc, hb.err⟩
    | check _ _ => exact .inl rfl

/-- The results of `Queue.lean` about the calls hold in the program. -/
theorem run_ring [Inhabited α] {m₀ : Mem Thread α} (h₀ : Booted m₀) {acts : List (Thread × Choice α)}
    {s : Pipeline α} (h : Run.exec Pipeline.step acts (.start m₀) = some s) : Inv s.calls := by
  refine Run.invariant' (I := fun s : Pipeline α => Inv s.calls) (fun a s s' hI hs => ?_) (start_inv h₀) h
  rcases step_calls hs with h | ⟨b, h, -⟩
  · rw [h]; exact hI
  · exact hI.step h

end

end ProdCons
