import LinuxLearning.ProdCons.Pipeline
/-!
# `prodcons_threads.c`: semaphores that are set up by the first `getitem` or `putitem`

`bufferinit` is run by `pthread_once` from inside `getitem` and `putitem` (`:69-70`, `:95-96`), never from
`main`. That is early enough for `semitems` and `semslots`, which are used behind that test, but not for
`seminput`: `user_input_thread` posts it and `producer_thread` waits for it without a test of their own.
A post that comes before the third `sem_init` is wiped out by it (`post_lost`).

`SetUp` says how far the set-up is, in every run in which no `sem_init` fails. `Sound` is what one wants
of the semaphores, `SetUpFirst` the order of the steps that is needed for it: no use of `seminput`
before the thread in `bufferinit` is past the third `sem_init`. `sound_iff`: exactly the runs in that
order are sound.
-/

namespace ProdCons

open Threads

/-- `bufferinit` has executed `sem_init(&seminput, 0, 0)`. -/
def InitPc.pastInput : InitPc → Bool
  | .result _ | .flag | .finish => true
  | _ => false

def Pc.pastInput : Pc → Bool
  | .init _ i => i.pastInput
  | _ => false

section
variable {T α : Type*}

/-- All three semaphores are initialised. -/
structure AllReady (m : Mem T α) : Prop where
  items : m.semitems.ready = true
  slots : m.semslots.ready = true
  input : m.seminput.ready = true

/-- What holds of the set-up when the thread in it is about to execute `i`, no `sem_init` failing. -/
def Stage (m : Mem T α) : InitPc → Prop
  | .items => m.seminput.ready = false
  | .slots => m.semitems.ready = true ∧ m.seminput.ready = false
  | .input => m.semitems.ready = true ∧ m.semslots.ready = true ∧ m.seminput.ready = false
  | .result r => r = 0 ∧ AllReady m
  | .flag => m.initerror = 0 ∧ AllReady m
  | .finish => AllReady m
  | .dropItems | .dropSlots _ => False

structure SetUp [Fintype T] (c : Config T (Mem T α) Pc) : Prop where
  ring : Inv c
  notRun : c.mem.initonce = .notRun → c.mem.seminput.ready = false
  running : ∀ t, c.mem.initonce = .running t → (c.pc t).setsUp = true
  stage : ∀ t d i, c.pc t = .init d i → Stage c.mem i
  done : c.mem.initdone = true ∨ c.mem.initonce = .done → AllReady c.mem

/-- The set-up is past `sem_init(&seminput, 0, 0)`, or over. -/
def InputSetUp (c : Config T (Mem T α) Pc) : Prop :=
  c.mem.initonce = .done ∨ ∃ t, (c.pc t).pastInput = true

instance [Fintype T] [DecidableEq T] (c : Config T (Mem T α) Pc) : Decidable (InputSetUp c) :=
  inferInstanceAs (Decidable (c.mem.initonce = .done ∨ ∃ t, (c.pc t).pastInput = true))

theorem SameSetUp.allReady {m m' : Mem T α} (h : SameSetUp m m') (hm : AllReady m) : AllReady m' :=
  ⟨h.items ▸ hm.items, h.slots ▸ hm.slots, h.input ▸ hm.input⟩

theorem SameSetUp.stage {m m' : Mem T α} (h : SameSetUp m m') {i : InitPc} (hs : Stage m i) :
    Stage m' i := by
  cases i with
  | items => exact h.input.trans hs
  | slots => exact ⟨h.items.trans hs.1, h.input.trans hs.2⟩
  | input => exact ⟨h.items.trans hs.1, h.slots.trans hs.2.1, h.input.trans hs.2.2⟩
  | result r => exact ⟨hs.1, h.allReady hs.2⟩
  | flag => exact ⟨h.error.trans hs.1, h.allReady hs.2⟩
  | finish => exact h.allReady hs
  | dropItems | dropSlots e => exact hs

/-- Where no `sem_init` fails, a statement of the set-up is an ordinary one. -/
theorem initStmt_go {i : InitPc} {a : Act α} {m m' : Mem T α} {r : Option InitPc}
    (h : initStmt i a m = some (m', r)) (ha : ∀ e, a ≠ .err e) : a = .go := by
  cases a with
  | go => rfl
  | err e => exact absurd rfl (ha e)
  | _ => cases i <;> cases h

/-- The set-up, statement by statement, when no `sem_init` fails: the flags of `initonce` stay as they
are until the end, `initdone` is written when everything is ready. -/
theorem initStmt_stage {i : InitPc} {a : Act α} {m m' : Mem T α} {r : Option InitPc}
    (h : initStmt i a m = some (m', r)) (ha : ∀ e, a ≠ .err e) (hs : Stage m i) :
    (∃ j, r = some j ∧ Stage m' j ∧ m'.initonce = m.initonce ∧
      (m'.initdone = m.initdone ∨ AllReady m')) ∨
    (r = none ∧ m'.initonce = .done ∧ AllReady m') := by
  obtain rfl := initStmt_go h ha
  cases i with
  | dropItems | dropSlots e => exact hs.elim
  | items =>
    cases h
    exact .inl ⟨_, rfl, ⟨rfl, hs⟩, rfl, .inl rfl⟩
  | slots =>
    cases h
    exact .inl ⟨_, rfl, ⟨hs.1, rfl, hs.2⟩, rfl, .inl rfl⟩
  | input =>
    cases h
    exact .inl ⟨_, rfl, ⟨rfl, hs.1, hs.2.1, rfl⟩, rfl, .inl rfl⟩
  | result r =>
    cases h
    exact .inl ⟨_, rfl, ⟨hs.1, hs.2.items, hs.2.slots, hs.2.input⟩, rfl, .inl rfl⟩
  | flag =>
    cases h
    have hr : AllReady { m with initdone := m.initdone || m.initerror == 0 } :=
      ⟨hs.2.items, hs.2.slots, hs.2.input⟩
    exact .inl ⟨_, rfl, hr, rfl, .inr hr⟩
  | finish =>
    cases h
    exact .inr ⟨rfl, rfl, hs.items, hs.slots, hs.input⟩

end

/-! ## The set-up over the runs of the calls -/

section
variable {T α : Type*} [Fintype T] [DecidableEq T] {c c' : Config T (Mem T α) Pc} {t : T} {b : Act α}

omit [DecidableEq T] in
/-- The thread in the set-up is the only one there. -/
theorem SetUp.alone (hS : SetUp c) {u : T} (ht : (c.pc t).setsUp = true) (hu : (c.pc u).setsUp = true) :
    u = t := by
  obtain ⟨d, i, ht⟩ := Pc.setsUp_iff.1 ht
  obtain ⟨d', i', hu⟩ := Pc.setsUp_iff.1 hu
  have h1 := ((hS.ring.threads t).init d i ht).1
  have h2 := ((hS.ring.threads u).init d' i' hu).1
  rw [h1] at h2
  exact (Once.running.inj h2).symm

omit [DecidableEq T] in
/-- `seminput` is initialised exactly when the set-up is past its `sem_init`. -/
theorem SetUp.input_ready (hS : SetUp c) : c.mem.seminput.ready = true ↔ InputSetUp c := by
  constructor
  · intro hr
    cases ho : c.mem.initonce with
    | notRun => rw [hS.notRun ho] at hr; cases hr
    | done => exact .inl ho
    | running t =>
      obtain ⟨d, i, hp⟩ := Pc.setsUp_iff.1 (hS.running t ho)
      refine .inr ⟨t, ?_⟩
      have hs := hS.stage t d i hp
      rw [hp]
      cases i with
      | result r | flag | finish => rfl
      | items => unfold Stage at hs; rw [hr] at hs; cases hs
      | slots => have h := hs.2; rw [hr] at h; cases h
      | input => have h := hs.2.2; rw [hr] at h; cases h
      | dropItems | dropSlots e => exact hs.elim
  · rintro (ho | ⟨t, ht⟩)
    · exact (hS.done (.inr ho)).input
    · cases hp : c.pc t with
      | init d i =>
        have hs := hS.stage t d i hp
        rw [hp] at ht
        cases i with
        | result r => exact hs.2.input
        | flag => exact hs.2.input
        | finish => exact hs.input
        | items | slots | input | dropItems | dropSlots e => cases ht
      | _ => rw [hp] at ht; cases ht

/-- A step of a thread outside the set-up that stays outside. -/
theorem SetUp.outside (hS : SetUp c) {m' : Mem T α} {p' : Pc} (ring : Inv ⟨m', Function.update c.pc t p'⟩)
    (same : SameSetUp c.mem m') (hp : (c.pc t).setsUp = false) (hp' : p'.setsUp = false) :
    SetUp ⟨m', Function.update c.pc t p'⟩ := by
  refine ⟨ring, ?_, ?_, ?_, ?_⟩
  · intro ho
    rw [same.input]; exact hS.notRun (same.once ▸ ho)
  · intro u ho
    have hu := hS.running u (same.once ▸ ho)
    have hne : u ≠ t := by rintro rfl; rw [hp] at hu; cases hu
    simpa [Function.update_of_ne hne] using hu
  · intro u d i hu
    by_cases hne : u = t
    · subst hne
      simp only [Function.update_self] at hu
      rw [hu] at hp'; cases hp'
    · simp only [Function.update_of_ne hne] at hu
      exact same.stage (hS.stage u d i hu)
  · intro hd
    rw [same.done, same.once] at hd
    exact same.allReady (hS.done hd)

/-- `pthread_once` starts the set-up. -/
theorem SetUp.enter (hS : SetUp c) {d : Call} (ho : c.mem.initonce = .notRun)
    (ring : Inv ⟨{ c.mem with initonce := .running t }, Function.update c.pc t (.init d .items)⟩) :
    SetUp ⟨{ c.mem with initonce := .running t }, Function.update c.pc t (.init d .items)⟩ := by
  refine ⟨ring, by simp, ?_, ?_, ?_⟩
  · intro u hu
    obtain rfl := Once.running.inj hu
    simp [Pc.setsUp]
  · intro u e i hu
    by_cases hne : u = t
    · subst hne
      simp only [Function.update_self, Pc.init.injEq] at hu
      obtain ⟨-, rfl⟩ := hu
      exact hS.notRun ho
    · simp only [Function.update_of_ne hne] at hu
      have hrun := ((hS.ring.threads u).init e i hu).1
      rw [ho] at hrun; cases hrun
  · rintro (hd | hd)
    · rw [hS.ring.notRun ho] at hd; cases hd
    · cases hd

/-- One statement of the set-up. -/
theorem SetUp.inside (hS : SetUp c) {d : Call} {i : InitPc} {m' : Mem T α} {r : Option InitPc}
    (hp : c.pc t = .init d i) (hb : ∀ e, b ≠ .err e) (h : initStmt i b c.mem = some (m', r))
    (ring : Inv ⟨m', Function.update c.pc t (r.elim (.wait d) (.init d))⟩) :
    SetUp ⟨m', Function.update c.pc t (r.elim (.wait d) (.init d))⟩ := by
  have hrun := ((hS.ring.threads t).init d i hp).1
  have hset : (c.pc t).setsUp = true := by rw [hp]; rfl
  have others : ∀ u, u ≠ t → (c.pc u).setsUp = false := by
    intro u hu
    by_contra h
    exact hu (hS.alone hset (by simpa using h))
  rcases initStmt_stage h hb (hS.stage t d i hp) with ⟨j, rfl, hj, honce, hdone⟩ | ⟨rfl, honce, hr⟩
  · refine ⟨ring, ?_, ?_, ?_, ?_⟩
    · intro ho
      simp only [honce, hrun, reduceCtorEq] at ho
    · intro u hu
      simp only [honce, hrun] at hu
      obtain rfl := Once.running.inj hu
      simp [Pc.setsUp]
    · intro u e k hu
      by_cases hne : u = t
      · subst hne
        simp only [Option.elim_some, Function.update_self, Pc.init.injEq] at hu
        obtain ⟨-, rfl⟩ := hu
        exact hj
      · simp only [Function.update_of_ne hne] at hu
        have := others u hne
        rw [hu] at this; cases this
    · rintro (hd | hd)
      · rcases hdone with hdone | hr
        · -- `initdone` was set before: only the end of `pthread_once` is left then
          have hfinish : i ≠ .finish := by rintro rfl; cases b <;> simp [initStmt] at h
          rw [hdone, ((hS.ring.threads t).init d i hp).2 hfinish] at hd
          cases hd
        · exact hr
      · simp only [honce, hrun, reduceCtorEq] at hd
  · refine ⟨ring, ?_, ?_, ?_, fun _ => hr⟩
    · intro ho; simp only [honce, reduceCtorEq] at ho
    · intro u hu; simp only [honce, reduceCtorEq] at hu
    · intro u e k hu
      by_cases hne : u = t
      · subst hne
        simp at hu
      · simp only [Function.update_of_ne hne] at hu
        have := others u hne
        rw [hu] at this; cases this

/-- **Step lemma of the set-up.** -/
theorem SetUp.step (hS : SetUp c) (hb : (c.pc t).setsUp = true → ∀ e, b ≠ .err e)
    (h : step stmt (t, b) c = some c') : SetUp c' := by
  have ring := hS.ring.step h
  obtain ⟨m', p', hs, rfl⟩ := step_eq_some.1 h
  simp only at hs
  by_cases hset : (c.pc t).setsUp = true
  · obtain ⟨d, i, hp⟩ := Pc.setsUp_iff.1 hset
    rw [hp] at hs
    cases stmt_cases hs with
    | init d i b m' r hinit => exact hS.inside hp (hb hset) hinit ring
  · by_cases ho : ∃ d, c.pc t = .once d
    · obtain ⟨d, hp⟩ := ho
      rw [hp] at hs
      cases stmt_cases hs with
      | enter d honce => exact hS.enter honce ring
      | ranBefore d honce => exact hS.outside ring (.refl _) (by simpa using hset) rfl
    · obtain ⟨same, hp'⟩ := stmt_setup hs (fun d hd => ho ⟨d, hd⟩) (by simpa using hset)
      exact hS.outside ring same (by simpa using hset) hp'

end

/-! ## The threads of the program -/

/-- The semaphore that a call waits for. -/
def Mem.waitSem {T α : Type*} (m : Mem T α) : Call → Sem
  | .getitem => m.semitems
  | .putitem => m.semslots

/-- The semaphore that a call posts. -/
def Mem.postSem {T α : Type*} (m : Mem T α) : Call → Sem
  | .getitem => m.semslots
  | .putitem => m.semitems

section
variable {α : Type*} {s s' : Pipeline α}

/-- The notifications are all there, and no thread is at a semaphore that is not initialised. -/
structure Sound (s : Pipeline α) : Prop where
  count : s.calls.mem.posts = s.calls.mem.seminput.value + s.calls.mem.waits
  wait : ∀ t c, s.calls.pc t = .wait c → (s.calls.mem.waitSem c).ready = true
  post : ∀ t c, s.calls.pc t = .post c → (s.calls.mem.postSem c).ready = true
  waitInput : s.producer = .wait → s.calls.mem.seminput.ready = true

/-- `user_input_thread` posts no semaphore that is not initialised. -/
def PostReady (a : Thread × Choice α) (s : Pipeline α) : Prop :=
  s.exited = none → a = (.userInput, .go) → s.userInput = .post → s.calls.mem.seminput.ready = true

/-- If the step posts `seminput` or goes on to wait for it, `bufferinit` has set it up. -/
def SetUpFirst (a : Thread × Choice α) (s : Pipeline α) : Prop :=
  s.exited = none →
    a = (.userInput, .go) ∧ s.userInput = .post ∨ a = (.producer, .go) ∧ s.producer = .loop →
    InputSetUp s.calls

/-- The step is not the failure of a `sem_init`. -/
def InitSucceeds (a : Thread × Choice α) (s : Pipeline α) : Prop :=
  (s.calls.pc a.1).setsUp = true → a.2.isErr = false

instance [DecidableEq α] (a : Thread × Choice α) (s : Pipeline α) : Decidable (SetUpFirst a s) :=
  inferInstanceAs (Decidable (s.exited = none →
    a = (.userInput, .go) ∧ s.userInput = .post ∨ a = (.producer, .go) ∧ s.producer = .loop →
    InputSetUp s.calls))

instance (a : Thread × Choice α) (s : Pipeline α) : Decidable (InitSucceeds a s) :=
  inferInstanceAs (Decidable ((s.calls.pc a.1).setsUp = true → a.2.isErr = false))

/-- The invariant of the runs in the order `SetUpFirst`. -/
structure Notified (s : Pipeline α) : Prop where
  setUp : SetUp s.calls
  count : s.calls.mem.posts = s.calls.mem.seminput.value + s.calls.mem.waits
  unused : s.calls.mem.seminput.ready = false → s.calls.mem.posts = 0
  waitInput : s.producer = .wait → s.calls.mem.seminput.ready = true

theorem step_setUp (hS : SetUp s.calls) {a : Thread × Choice α} (hok : InitSucceeds a s)
    (h : Pipeline.step a s = some s') : SetUp s'.calls := by
  obtain ⟨t, a⟩ := a
  rcases step_calls h with h | ⟨b, h, hb⟩
  · rw [h]; exact hS
  · refine hS.step (fun hset e he => ?_) h
    have hfail := hok hset
    rw [hb e he] at hfail
    cases hfail

theorem Notified.sound (hN : Notified s) : Sound s := by
  have late : ∀ t, (s.calls.pc t).late = true → AllReady s.calls.mem := fun t ht =>
    hN.setUp.done ((hN.setUp.ring.threads t).late ht)
  refine ⟨hN.count, fun t c hp => ?_, fun t c hp => ?_, hN.waitInput⟩
  · have hr := late t (by rw [hp]; rfl)
    cases c
    · exact hr.items
    · exact hr.slots
  · have hr := late t (by rw [hp]; rfl)
    cases c
    · exact hr.slots
    · exact hr.items

/-- The statements of the calls: `seminput` is at most initialised, and then nobody has used it. -/
theorem Notified.plain (hN : Notified s) {t : Thread} {b : Act α} {c : Config Thread (Mem Thread α) Pc}
    (hpost : b ≠ .postInput) (hwait : b ≠ .waitInput)
    (h : Threads.step stmt (t, b) s.calls = some c) :
    c.mem.posts = c.mem.seminput.value + c.mem.waits ∧
      (c.mem.seminput.ready = false → c.mem.posts = 0) ∧
      (s.calls.mem.seminput.ready = true → c.mem.seminput.ready = true) := by
  obtain ⟨m, p, hs, rfl⟩ := step_eq_some.1 h
  simp only at hs ⊢
  have hcount := hN.count
  rcases stmt_input hs with ⟨-, hb, -⟩ | ⟨-, hb, -⟩ | ⟨hp, hw, hsem | ⟨d, hi, -, hsem⟩⟩
  · exact absurd hb hpost
  · exact absurd hb hwait
  · rw [hp, hw, hsem]; exact ⟨hcount, hN.unused, id⟩
  · have hstage := hN.setUp.stage t d _ hi
    have hzero := hN.unused hstage.2.2
    rw [hp, hw, hsem]
    refine ⟨?_, fun _ => hzero, fun _ => rfl⟩
    simp only [Sem.init_value]; omega

/-- **Step lemma.** -/
theorem Notified.step (hN : Notified s) {a : Thread × Choice α} (hok : InitSucceeds a s)
    (hfirst : SetUpFirst a s) (h : Pipeline.step a s = some s') : Notified s' := by
  have hS := step_setUp hN.setUp hok h
  have hrun := step_running h
  obtain ⟨t, a⟩ := a
  cases t with
  | userInput =>
    cases userInput_cases h with
    | post hu c hc =>
      have hready := hN.setUp.input_ready.2 (hfirst hrun (.inl ⟨rfl, hu⟩))
      obtain ⟨m, p, hs, rfl⟩ := step_eq_some.1 hc
      obtain ⟨-, rfl, rfl⟩ := stmt_postInput hs
      refine ⟨hS, ?_, ?_, fun _ => hready⟩
      · have := hN.count
        simp only [Sem.post_value]; omega
      · simp [hready]
    | _ => exact ⟨hS, hN.count, hN.unused, hN.waitInput⟩
  | producer =>
    cases producer_cases h with
    | loop hp =>
      have hready := hN.setUp.input_ready.2 (hfirst hrun (.inr ⟨rfl, hp⟩))
      exact ⟨hS, hN.count, hN.unused, fun _ => hready⟩
    | wait hp c hc =>
      have hready := hN.waitInput hp
      obtain ⟨m, p, hs, rfl⟩ := step_eq_some.1 hc
      obtain ⟨-, rfl, v, hv, rfl⟩ := stmt_waitInput hs
      obtain ⟨hvalue, hvready⟩ := Sem.wait?_eq_some.1 hv
      refine ⟨hS, ?_, ?_, by simp⟩
      · have := hN.count
        simp only; omega
      · rw [← hvready, hready]; simp
    | enter hp c hc | copyIn hp c hc | inside hp c hc | fails hp e c hc | ret hp d r hr c hc =>
      obtain ⟨h1, h2, h3⟩ := hN.plain (by simp) (by simp) hc
      exact ⟨hS, h1, h2, by simp [hp]⟩
    | _ => exact ⟨hS, hN.count, hN.unused, by simp [*]⟩
  | consumer | display =>
    cases reader_cases h (by simp) with
    | calls b hb c hc k =>
      obtain ⟨h1, h2, h3⟩ := hN.plain hb.postInput hb.waitInput hc
      exact ⟨hS, h1, h2, fun hp => h3 (hN.waitInput hp)⟩
    | check k e => exact ⟨hS, hN.count, hN.unused, hN.waitInput⟩

/-! ## Runs from the zeroed statics -/

theorem start_setUp [Inhabited α] : SetUp (Pipeline.start (.static : Mem Thread α)).calls :=
  ⟨start_inv (.inl rfl), fun _ => rfl, fun t h => (by cases h), fun t d i h => (by cases h),
    fun h => by rcases h with h | h <;> cases h⟩

theorem start_notified [Inhabited α] : Notified (Pipeline.start (.static : Mem Thread α)) :=
  ⟨start_setUp, rfl, fun _ => rfl, fun h => by cases h⟩

/-- **Notifications and the set-up.** In a run in which no `sem_init` fails, every notification is in
`seminput` or taken and every semaphore is initialised before it is used, in all states, if and only if
`seminput` is used after `bufferinit` has set it up. -/
theorem sound_iff [Inhabited α] {acts : List (Thread × Choice α)}
    (hok : Run.Along Pipeline.step InitSucceeds acts (.start .static)) :
    Run.Throughout Pipeline.step Sound acts (.start .static) ∧
        Run.Along Pipeline.step PostReady acts (.start .static) ↔
      Run.Along Pipeline.step SetUpFirst acts (.start .static) := by
  constructor
  · rintro ⟨hsound, hpost⟩
    refine Run.along_of_throughout (C := InitSucceeds) (I := fun s => SetUp s.calls)
      (fun a s s' hC hI hs => step_setUp hI hC hs) ?_ hok start_setUp hsound hpost
    rintro a s hS hready hafter hrun (⟨rfl, hu⟩ | ⟨rfl, hp⟩)
    · exact hS.input_ready.1 (hready hrun rfl hu)
    · have hstep : Pipeline.step (.producer, .go) s = some { s with producer := .wait } := by
        unfold Pipeline.step
        simp [hrun, producerStep, hp]
      exact hS.input_ready.1 ((hafter _ hstep).waitInput rfl)
  · intro hfirst
    have halong := Run.along_and hok hfirst
    have hstep : ∀ (a : Thread × Choice α) s s', InitSucceeds a s ∧ SetUpFirst a s → Notified s →
        Pipeline.step a s = some s' → Notified s' := fun a s s' hC hI hs => hI.step hC.1 hC.2 hs
    refine ⟨Run.throughout hstep (fun s hN => hN.sound) halong start_notified,
      Run.along_of_invariant hstep ?_ halong start_notified⟩
    rintro a s ⟨-, hC⟩ hN hrun rfl hu
    exact hN.setUp.input_ready.2 (hC hrun (.inl ⟨rfl, hu⟩))

end

/-! ## Two runs -/

/-- A line is read and posted before the consumer's first `getitem` sets up `seminput`: the semaphore is
0 although it has been posted and nobody has waited for it. -/
theorem post_lost : ∃ s : Pipeline Nat,
    Run.exec Pipeline.step ((.userInput, .line 1) :: List.replicate 4 (.userInput, .go) ++
      List.replicate 6 (.consumer, .go)) (.start .static) = some s ∧
    s.calls.mem.posts = 1 ∧ s.calls.mem.waits = 0 ∧ s.calls.mem.seminput = ⟨true, 0⟩ ∧
    s.calls.mem.posts ≠ s.calls.mem.seminput.value + s.calls.mem.waits := by
  refine ⟨_, rfl, rfl, rfl, rfl, ?_⟩
  decide

/-- The consumer sets up the semaphores, then a line is read and posted and the producer takes it. -/
def setUpFirstRun : List (Thread × Choice Nat) :=
  List.replicate 6 (.consumer, .go) ++ (.userInput, .line 1) :: List.replicate 4 (.userInput, .go) ++
    List.replicate 4 (.producer, .go)

theorem sound_iff_sample : Run.Throughout Pipeline.step Sound setUpFirstRun (.start .static) ∧
    Run.Along Pipeline.step PostReady setUpFirstRun (.start .static) :=
  (sound_iff (by decide +kernel)).2 (by decide +kernel)

end ProdCons
