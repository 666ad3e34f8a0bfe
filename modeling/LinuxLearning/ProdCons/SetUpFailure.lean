import LinuxLearning.ProdCons.LazyInit
/-!
# `prodcons_threads.c`: a `sem_init` that fails

A `Pattern` says which of the three calls of `bufferinit` (`:32-46`) fail, and with which `errno`; the rest of a run is
up to the scheduler, as in `Buffer.lean`. What `bufferinit` makes of a failure:

* of the first: it returns the error, and nothing is initialised;
* of the second: `semitems` is destroyed, but there is no `return`; the third call decides what is returned (`:36-40`);
* of the third: `semslots` is destroyed and the error returned; the line that destroys `semitems` is never reached
  (`:42-43`).

`getitem` and `putitem` do not look at what `bufferinitonce` returns (`:69-70`, `:95-96`), and go on to their
`sem_wait` in any case.

* `Reported` — what is asked of the set-up;
* `set_up_law` — it is met by the patterns without a failure, and by no other.
-/

namespace ProdCons

open Threads

/-- The `errno` of each `sem_init`, 0 for success. -/
structure Pattern where
  items : Nat
  slots : Nat
  input : Nat

/-- No call fails. -/
def Pattern.Ok (o : Pattern) : Prop := o.items = 0 ∧ o.slots = 0 ∧ o.input = 0

/-- The `sem_init` succeeds, or fails with `errno`. -/
def semInit {α : Type*} (errno : Nat) : Act α := if errno = 0 then .go else .err errno

/-- At a `sem_init` the pattern decides, elsewhere the scheduler. -/
def Pattern.choice {α : Type*} (o : Pattern) (p : Pc) (a : Act α) : Act α :=
  match p with
  | .init _ .items => semInit o.items
  | .init _ .slots => semInit o.slots
  | .init _ .input => semInit o.input
  | _ => a

section

variable {T α : Type*} [DecidableEq T]

/-- The statement at a control point, a `sem_init` with its result. -/
def Pattern.stmt (o : Pattern) (t : T) (p : Pc) (a : Act α) (m : Mem T α) : Option (Mem T α × Pc) :=
  ProdCons.stmt t p (o.choice p a) m

def Pattern.step (o : Pattern) : T × Act α → Config T (Mem T α) Pc → Option (Config T (Mem T α) Pc) :=
  Threads.step o.stmt

/-- Counts the times `bufferinit` is begun. -/
def begins (a : T × Act α) (s : Config T (Mem T α) Pc) : Nat :=
  match s.pc a.1 with
  | .init _ .items => 1
  | _ => 0

/-- None of the three semaphores is initialised. -/
structure NoneReady (m : Mem T α) : Prop where
  items : m.semitems.ready = false
  slots : m.semslots.ready = false
  input : m.seminput.ready = false

/-- After a failure `bufferinit` returns an error and leaves no semaphore initialised, `initdone` stays 0, and the
calls return errors without using the ring or a semaphore that is not initialised. Without a failure `initdone` is 1
as soon as `pthread_once` is over. -/
structure Reported [Inhabited α] (o : Pattern) (s : Config T (Mem T α) Pc) : Prop where
  error : ¬ o.Ok → ∀ t c r, s.pc t = .init c (.result r) → r ≠ 0 ∧ NoneReady s.mem
  notDone : ¬ o.Ok → s.mem.initdone = false
  calls : ¬ o.Ok → ∀ t c r, s.pc t = .ret c r → r ≠ 0
  ring : ¬ o.Ok → { s.mem.ring with shown := [] } = Buffer.zeroed
  wait : ¬ o.Ok → ∀ t c, s.pc t = .wait c → (s.mem.waitSem c).ready = true
  post : ¬ o.Ok → ∀ t c, s.pc t = .post c → (s.mem.postSem c).ready = true
  done : o.Ok → s.mem.initonce = .done → s.mem.initdone = true

/-! ## No failure -/

/-- The thread in the set-up is on the way to `initdone = 1`. -/
def Succeeding (m : Mem T α) : InitPc → Prop
  | .items | .slots | .input => True
  | .result r => r = 0
  | .flag => m.initerror = 0
  | .finish => m.initdone = true
  | .dropItems | .dropSlots _ => False

/-- The set-up after `n` begins of `bufferinit`. -/
structure Progress (n : Nat) (s : Config T (Mem T α) Pc) : Prop where
  init : ∀ t c i, s.pc t = .init c i → s.mem.initonce = .running t ∧ Succeeding s.mem i
  done : s.mem.initonce = .done → s.mem.initdone = true
  once : n ≤ 1
  fresh : s.mem.initonce = .notRun ∨ (∃ t c, s.pc t = .init c .items) → n = 0

variable {o : Pattern} {n : Nat} {s s' : Config T (Mem T α) Pc} {t : T} {c : Call} {i : InitPc}

omit [DecidableEq T] in
theorem Progress.alone (h : Progress n s) (ht : s.pc t = .init c i) {u : T} {d : Call} {j : InitPc}
    (hu : s.pc u = .init d j) : u = t := by
  have hrun := (h.init t c i ht).1
  rw [(h.init u d j hu).1] at hrun
  exact Once.running.inj hrun

omit [DecidableEq T] in
/-- One statement of the set-up, when the calls succeed. -/
theorem initStmt_succeeding {m m' : Mem T α} {r : Option InitPc} (h : initStmt i .go m = some (m', r))
    (hs : Succeeding m i) :
    (∃ j, r = some j ∧ j ≠ .items ∧ Succeeding m' j ∧ m'.initonce = m.initonce) ∨
      (r = none ∧ m'.initonce = .done ∧ m'.initdone = true) := by
  cases i with
  | items =>
    cases h
    exact .inl ⟨_, rfl, by simp, trivial, rfl⟩
  | slots =>
    cases h
    exact .inl ⟨_, rfl, by simp, trivial, rfl⟩
  | dropItems => cases hs
  | input =>
    cases h
    exact .inl ⟨_, rfl, by simp, rfl, rfl⟩
  | dropSlots error => cases hs
  | result r =>
    cases h
    exact .inl ⟨_, rfl, by simp, hs, rfl⟩
  | flag =>
    cases h
    have herror : m.initerror = 0 := hs
    exact .inl ⟨_, rfl, by simp, by simp [Succeeding, herror], rfl⟩
  | finish =>
    cases h
    exact .inr ⟨rfl, rfl, hs⟩

omit [DecidableEq T] in
theorem choice_eq_go (ho : o.Ok) {a : Act α} {m m' : Mem T α} {r : Option InitPc}
    (h : initStmt i (o.choice (.init c i) a) m = some (m', r)) : o.choice (.init c i) a = .go := by
  obtain ⟨hitems, hslots, hinput⟩ := ho
  cases i with
  | items => simp [Pattern.choice, semInit, hitems]
  | slots => simp [Pattern.choice, semInit, hslots]
  | input => simp [Pattern.choice, semInit, hinput]
  | dropItems | dropSlots | result | flag | finish =>
    cases a with
    | go => rfl
    | _ => cases h

/-- The thread outside the set-up stays outside. -/
theorem Progress.outside (h : Progress n s) {m' : Mem T α} {p' : Pc} (same : SameSetUp s.mem m')
    (hp' : p'.setsUp = false) : Progress n ⟨m', Function.update s.pc t p'⟩ := by
  have hback : ∀ u c i, Function.update s.pc t p' u = .init c i → s.pc u = .init c i := by
    intro u c i hu
    by_cases hut : u = t
    · subst hut
      rw [Function.update_self] at hu
      rw [hu] at hp'
      cases hp'
    · rwa [Function.update_of_ne hut] at hu
  refine ⟨?_, ?_, h.once, ?_⟩
  · intro u c i hu
    obtain ⟨honce, hs⟩ := h.init u c i (hback u c i hu)
    refine ⟨same.once.trans honce, ?_⟩
    cases i with
    | flag => exact same.error.trans hs
    | finish => exact same.done.trans hs
    | _ => exact hs
  · intro honce
    exact same.done.trans (h.done (same.once ▸ honce))
  · rintro (honce | ⟨u, c, hu⟩)
    · exact h.fresh (.inl (same.once ▸ honce))
    · exact h.fresh (.inr ⟨u, c, hback u c .items hu⟩)

/-- `pthread_once` begins the set-up. -/
theorem Progress.enter (h : Progress n s) (honce : s.mem.initonce = .notRun) (t : T) (c : Call) :
    Progress n ⟨{ s.mem with initonce := .running t }, Function.update s.pc t (.init c .items)⟩ := by
  refine ⟨?_, nofun, h.once, fun _ => h.fresh (.inl honce)⟩
  intro u d i hu
  by_cases hut : u = t
  · subst hut
    simp only [Function.update_self, Pc.init.injEq] at hu
    obtain ⟨-, rfl⟩ := hu
    exact ⟨rfl, trivial⟩
  · simp only [Function.update_of_ne hut] at hu
    have hrun := (h.init u d i hu).1
    rw [honce] at hrun
    cases hrun

/-- A statement of the set-up. -/
theorem Progress.inside (h : Progress n s) {m' : Mem T α} {r : Option InitPc} (hp : s.pc t = .init c i)
    (hs : initStmt i .go s.mem = some (m', r)) :
    Progress (n + if i = .items then 1 else 0) ⟨m', Function.update s.pc t (r.elim (.wait c) (.init c))⟩ := by
  obtain ⟨hrun, hsucceeding⟩ := h.init t c i hp
  have hothers : ∀ u d j, u ≠ t → Function.update s.pc t (r.elim (.wait c) (.init c)) u ≠ .init d j := by
    intro u d j hut hu
    rw [Function.update_of_ne hut] at hu
    exact hut (h.alone hp hu)
  have hcount : (n + if i = .items then 1 else 0) ≤ 1 := by
    by_cases hi : i = .items
    · subst hi
      rw [h.fresh (.inr ⟨t, c, hp⟩), if_pos rfl]
    · rw [if_neg hi]
      exact h.once
  rcases initStmt_succeeding hs hsucceeding with ⟨j, rfl, hj, hnext, honce⟩ | ⟨rfl, honce, hdone⟩
  · refine ⟨?_, ?_, hcount, ?_⟩
    · intro u d k hu
      by_cases hut : u = t
      · subst hut
        simp only [Option.elim_some, Function.update_self, Pc.init.injEq] at hu
        obtain ⟨-, rfl⟩ := hu
        exact ⟨honce.trans hrun, hnext⟩
      · exact absurd hu (hothers u d k hut)
    · intro hover
      simp only [honce, hrun, reduceCtorEq] at hover
    · rintro (hover | ⟨u, d, hu⟩)
      · simp only [honce, hrun, reduceCtorEq] at hover
      · by_cases hut : u = t
        · subst hut
          simp only [Option.elim_some, Function.update_self, Pc.init.injEq] at hu
          exact absurd hu.2 hj
        · exact absurd hu (hothers u d .items hut)
  · refine ⟨?_, fun _ => hdone, hcount, ?_⟩
    · intro u d k hu
      by_cases hut : u = t
      · subst hut
        simp at hu
      · exact absurd hu (hothers u d k hut)
    · rintro (hover | ⟨u, d, hu⟩)
      · simp only [honce, reduceCtorEq] at hover
      · by_cases hut : u = t
        · subst hut
          simp at hu
        · exact absurd hu (hothers u d .items hut)

/-- **Step lemma** of the set-up without a failure. -/
theorem Progress.step (ho : o.Ok) (a : T × Act α) (s s' : Config T (Mem T α) Pc) (n : Nat) (h : Progress n s)
    (hs : o.step a s = some s') : Progress (n + begins a s) s' := by
  obtain ⟨t, a⟩ := a
  obtain ⟨m', p', hstmt, rfl⟩ := step_eq_some.1 hs
  unfold Pattern.stmt at hstmt
  dsimp only at hstmt
  by_cases hset : (s.pc t).setsUp = true
  · obtain ⟨c, i, hp⟩ := Pc.setsUp_iff.1 hset
    have hbegins : begins (t, a) s = if i = .items then 1 else 0 := by
      unfold begins
      rw [hp]
      cases i <;> rfl
    rw [hp] at hstmt
    obtain ⟨⟨m'', r⟩, hinit, he⟩ := Option.map_eq_some_iff.1 hstmt
    rw [choice_eq_go ho hinit] at hinit
    cases he
    rw [hbegins]
    exact h.inside hp hinit
  · have hbegins : begins (t, a) s = 0 := by
      unfold begins
      split
      · next hp => rw [hp] at hset; exact absurd rfl hset
      · rfl
    rw [hbegins, Nat.add_zero]
    by_cases honce : ∃ c, s.pc t = .once c
    · obtain ⟨c, hp⟩ := honce
      rw [hp] at hstmt
      -- `pthread_once` itself never fails here: what is chosen there does not matter
      generalize o.choice (.once c) a = b at hstmt
      cases stmt_cases hstmt with
      | enter c hstate => exact h.enter hstate t c
      | ranBefore c hstate => exact h.outside (.refl _) rfl
    · obtain ⟨same, hp'⟩ := stmt_setup hstmt (fun c hc => honce ⟨c, hc⟩) (by simpa using hset)
      exact h.outside same hp'

omit [DecidableEq T] in
theorem progress_start [Inhabited α] : Progress 0 (start (Mem.static : Mem T α)) :=
  ⟨nofun, nofun, Nat.zero_le 1, fun _ => rfl⟩

/-! ## A failure -/

variable [Inhabited α]

/-- The first call of thread `t`, nobody else running, after `n` statements. -/
def firstCall (o : Pattern) (t : T) (n : Nat) : Option (Mem T α × Pc) :=
  Run.exec (fun a r => o.stmt t r.2 a r.1) (.call .getitem :: List.replicate n .go) (.static, .out)

theorem exec_firstCall {t : T} {k : Nat} {m : Mem T α} {p : Pc} (h : firstCall o t k = some (m, p)) :
    ∃ as u, Run.exec o.step as (start (.static : Mem T α)) = some u ∧ u.mem = m ∧ u.pc t = p := by
  have hstart : start (.static : Mem T α) = ⟨.static, Function.update (fun _ => .out) t .out⟩ := by
    rw [start, Function.update_eq_self]
  rw [hstart]
  exact ⟨_, ⟨m, Function.update (fun _ => .out) t p⟩, exec_alone h, rfl, by simp⟩

omit [DecidableEq T] in
/-- The first `sem_init` fails: the error is returned, and the caller waits for `semitems` all the same. -/
theorem items_fails {e k l : Nat} (t : T) : ∃ m : Mem T α,
    firstCall ⟨e + 1, k, l⟩ t 6 = some (m, .wait .getitem) ∧ m.semitems.ready = false :=
  ⟨_, rfl, rfl⟩

omit [DecidableEq T] in
/-- Only the second fails: `bufferinit` returns 0. -/
theorem slots_fails {e : Nat} (t : T) : ∃ m : Mem T α,
    firstCall ⟨0, e + 1, 0⟩ t 6 = some (m, .init .getitem (.result 0)) :=
  ⟨_, rfl⟩

omit [DecidableEq T] in
/-- Only the third fails: `semitems` is left initialised. -/
theorem input_fails {e : Nat} (t : T) : ∃ m : Mem T α,
    firstCall ⟨0, 0, e + 1⟩ t 6 = some (m, .init .getitem (.result (e + 1))) ∧ m.semitems.ready = true :=
  ⟨_, rfl, rfl⟩

omit [DecidableEq T] in
/-- The second and the third fail: everything is destroyed, and the caller waits for `semitems`. -/
theorem slots_input_fail {e k : Nat} (t : T) : ∃ m : Mem T α,
    firstCall ⟨0, e + 1, k + 1⟩ t 10 = some (m, .wait .getitem) ∧ m.semitems.ready = false :=
  ⟨_, rfl, rfl⟩

/-- With a failure there is a state in which one of the promises is broken. -/
theorem exists_not_reported (ho : ¬ o.Ok) (t : T) :
    ∃ as u, Run.exec o.step as (start (.static : Mem T α)) = some u ∧ ¬ Reported o u := by
  obtain ⟨items, slots, input⟩ := o
  cases items with
  | succ e =>
    obtain ⟨m, hcall, hready⟩ := items_fails (α := α) (e := e) (k := slots) (l := input) t
    obtain ⟨as, u, hrun, rfl, hp⟩ := exec_firstCall hcall
    exact ⟨as, u, hrun, fun h => by simpa [Mem.waitSem, hready] using h.wait ho t _ hp⟩
  | zero =>
    cases slots with
    | zero =>
      cases input with
      | zero => exact absurd ⟨rfl, rfl, rfl⟩ ho
      | succ e =>
        obtain ⟨m, hcall, hready⟩ := input_fails (α := α) (e := e) t
        obtain ⟨as, u, hrun, rfl, hp⟩ := exec_firstCall hcall
        exact ⟨as, u, hrun, fun h => by simpa [hready] using (h.error ho t _ _ hp).2.items⟩
    | succ e =>
      cases input with
      | zero =>
        obtain ⟨m, hcall⟩ := slots_fails (α := α) (e := e) t
        obtain ⟨as, u, hrun, rfl, hp⟩ := exec_firstCall hcall
        exact ⟨as, u, hrun, fun h => (h.error ho t _ _ hp).1 rfl⟩
      | succ k =>
        obtain ⟨m, hcall, hready⟩ := slots_input_fail (α := α) (e := e) (k := k) t
        obtain ⟨as, u, hrun, rfl, hp⟩ := exec_firstCall hcall
        exact ⟨as, u, hrun, fun h => by simpa [Mem.waitSem, hready] using h.wait ho t _ hp⟩

/-- **The set-up.** It is reported in all runs if no `sem_init` fails; for every other pattern there is a run in
which it is not. -/
theorem set_up_law [Inhabited T] (o : Pattern) :
    (∀ as (u : Config T (Mem T α) Pc), Run.exec o.step as (start .static) = some u →
      Reported o u ∧ Run.count o.step begins as (start .static : Config T (Mem T α) Pc) ≤ 1) ↔ o.Ok := by
  constructor
  · intro h
    by_contra ho
    obtain ⟨as, u, hrun, hbroken⟩ := exists_not_reported (α := α) ho (default : T)
    exact hbroken (h as u hrun).1
  · intro ho as u hrun
    have hprogress := Run.counted (Progress.step ho) progress_start hrun
    rw [Nat.zero_add] at hprogress
    have hnot : ∀ {p : Prop}, ¬ o.Ok → p := fun h => absurd ho h
    exact ⟨⟨hnot, hnot, hnot, hnot, hnot, hnot, fun _ => hprogress.done⟩, hprogress.once⟩

end

/-- The second `sem_init` fails with `ENOSPC`: `initdone` becomes 1, and the caller waits for a `semitems` that has
been destroyed. -/
theorem failure_hidden : ∃ u : Config Bool (Mem Bool Nat) Pc,
    Run.exec (Pattern.step ⟨0, 28, 0⟩) ((true, .call .getitem) :: List.replicate 9 (true, .go)) (start .static) =
      some u ∧
    u.mem.initerror = 0 ∧ u.mem.initdone = true ∧ u.pc true = .wait .getitem ∧ u.mem.semitems.ready = false ∧
    ¬ Reported ⟨0, 28, 0⟩ u := by
  have ho : ¬ Pattern.Ok ⟨0, 28, 0⟩ := by simp [Pattern.Ok]
  refine ⟨_, rfl, rfl, rfl, rfl, rfl, fun h => ?_⟩
  exact absurd (h.notDone ho) (by decide)

end ProdCons
