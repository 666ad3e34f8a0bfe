import LinuxLearning.Lib.Run
import LinuxLearning.Sys.Basic
/-!
# `sys.c`: resource limits

| here | there (`KernelDrivers_March2011/sys.c`) |
| --- | --- |
| `LimitNumbers`      | constants of the headers, and `sysctl_nr_open` |
| `sys_getrlimit`     | `:1407-1418` |
| `sys_old_getrlimit` | `:1426-1440` |
| `setrlimitChecks`   | `sys_setrlimit`, up to the security module (`:1446-1466`) |
| `setrlimitStore`    | the rest of it (`:1468-1507`) |

The threads of a process have their limits in common. `sysctl_nr_open` does not change in a run. `task_lock` is held for the assignment only, so a call of
`setrlimit` is two steps, and another thread may come between them. `capable` and the security module answer what they
like; the user's structure is what is read of it, or nothing. `set_process_cpu_timer` is elsewhere; `timers` are its
calls.

* `limits_law` — without the capability no limit rises above what it was when nothing was under way;
* `ordered_iff` — from such a time on the soft limits stay below the hard ones exactly as long as nobody sets the limit on
  CPU time to 0, 0;
* `get_set` — and as long as they do, what a process reads of its limits it can set again.
-/

namespace Sys

structure LimitNumbers where
  /-- `RLIM_NLIMITS` -/
  nlimits : ℕ
  /-- `RLIMIT_CPU` -/
  cpu : ℕ
  /-- `RLIMIT_NOFILE` -/
  nofile : ℕ
  /-- `RLIM_INFINITY` -/
  infinity : ℕ
  nr_open : ℕ

structure Rlimit where
  rlim_cur : ℕ
  rlim_max : ℕ
  deriving DecidableEq, Repr

/-- The limits of a process; `pending` are the calls that have passed the checks, by thread. -/
structure LimitState where
  rlim : ℕ → Rlimit
  pending : ℕ → Option (ℕ × Rlimit)
  it_prof_secs : ℕ
  timers : List ℕ

variable (k : LimitNumbers)

def sys_getrlimit (writable : Bool) (resource : ℕ) (s : LimitState) : Except Errno Rlimit :=
  if resource ≥ k.nlimits then .error .EINVAL
  else if writable then .ok (s.rlim resource) else .error .EFAULT

def sys_old_getrlimit (writable : Bool) (resource : ℕ) (s : LimitState) : Except Errno Rlimit :=
  if resource ≥ k.nlimits then .error .EINVAL
  else
    let x := s.rlim resource
    let x := if x.rlim_cur > 0x7FFFFFFF then { x with rlim_cur := 0x7FFFFFFF } else x
    let x := if x.rlim_max > 0x7FFFFFFF then { x with rlim_max := 0x7FFFFFFF } else x
    if writable then .ok x else .error .EFAULT

def setrlimitChecks (resource : ℕ) (user : Option Rlimit) (capable : Bool) (lsm : Except Errno Unit) (s : LimitState) :
    Except Errno Rlimit :=
  if resource ≥ k.nlimits then .error .EINVAL
  else match user with
    | none => .error .EFAULT
    | some new_rlim =>
      if new_rlim.rlim_cur > new_rlim.rlim_max then .error .EINVAL
      else if new_rlim.rlim_max > (s.rlim resource).rlim_max ∧ !capable then .error .EPERM
      else if resource = k.nofile ∧ new_rlim.rlim_max > k.nr_open then .error .EPERM
      else lsm.map fun _ => new_rlim

/-- An immediate expiry is made one second. -/
def cheat (resource : ℕ) (new_rlim : Rlimit) : Rlimit :=
  if resource = k.cpu ∧ new_rlim.rlim_cur = 0 then { new_rlim with rlim_cur := 1 } else new_rlim

def setrlimitStore (resource : ℕ) (new_rlim : Rlimit) (s : LimitState) : LimitState :=
  let new_rlim := cheat k resource new_rlim
  let s := { s with rlim := Function.update s.rlim resource new_rlim }
  if resource ≠ k.cpu then s
  else if new_rlim.rlim_cur = k.infinity then s
  else if s.it_prof_secs = 0 ∨ new_rlim.rlim_cur ≤ s.it_prof_secs then
    { s with timers := s.timers ++ [new_rlim.rlim_cur] }
  else s

inductive LimitEvent
  | check (thread resource : ℕ) (user : Option Rlimit) (capable : Bool) (lsm : Except Errno Unit)
  | store (thread : ℕ)
  /-- `it_prof_expires` changes -/
  | itimer (secs : ℕ)

def limitStep (e : LimitEvent) (s : LimitState) : Option LimitState :=
  match e with
  | .check thread resource user capable lsm =>
    if s.pending thread = none then
      match setrlimitChecks k resource user capable lsm s with
      | .error _ => some s
      | .ok new_rlim => some { s with pending := Function.update s.pending thread (some (resource, new_rlim)) }
    else none
  | .store thread =>
    (s.pending thread).map fun (resource, new_rlim) =>
      { setrlimitStore k resource new_rlim s with pending := Function.update s.pending thread none }
  | .itimer secs => some { s with it_prof_secs := secs }

variable {k} {s s' : LimitState} {resource : ℕ} {user : Option Rlimit} {capable : Bool} {lsm : Except Errno Unit}
  {new_rlim : Rlimit}

/-! ## One call -/

/-- What the checks let through. -/
theorem checks_spec (h : setrlimitChecks k resource user capable lsm s = .ok new_rlim) :
    user = some new_rlim ∧ new_rlim.rlim_cur ≤ new_rlim.rlim_max ∧
      (capable = false → new_rlim.rlim_max ≤ (s.rlim resource).rlim_max) ∧
      (resource = k.nofile → new_rlim.rlim_max ≤ k.nr_open) := by
  unfold setrlimitChecks at h
  split at h
  · cases h
  split at h
  · cases h
  next asked =>
  split at h
  · cases h
  next horder =>
  split at h
  · cases h
  next hraise =>
  split at h
  · cases h
  next hopen =>
  cases lsm with
  | error e => cases h
  | ok u =>
    have hasked : asked = new_rlim := Except.ok.inj h
    subst hasked
    refine ⟨rfl, by omega, fun hcap => ?_, fun hres => ?_⟩
    · by_contra hgt
      exact hraise ⟨by omega, by simp [hcap]⟩
    · by_contra hgt
      exact hopen ⟨hres, by omega⟩

@[simp] theorem setrlimitStore_rlim (resource : ℕ) (new_rlim : Rlimit) (s : LimitState) :
    (setrlimitStore k resource new_rlim s).rlim = Function.update s.rlim resource (cheat k resource new_rlim) := by
  unfold setrlimitStore
  dsimp only
  split
  · rfl
  split
  · rfl
  split <;> rfl

@[simp] theorem setrlimitStore_pending (resource : ℕ) (new_rlim : Rlimit) (s : LimitState) :
    (setrlimitStore k resource new_rlim s).pending = s.pending := by
  unfold setrlimitStore
  dsimp only
  split
  · rfl
  split
  · rfl
  split <;> rfl

theorem cheat_max : (cheat k resource new_rlim).rlim_max = new_rlim.rlim_max := by
  unfold cheat
  split <;> rfl

/-- The soft limit is above the hard one after all. -/
theorem cheat_ordered (k : LimitNumbers) (resource : ℕ) (h : new_rlim.rlim_cur ≤ new_rlim.rlim_max) :
    (cheat k resource new_rlim).rlim_cur ≤ (cheat k resource new_rlim).rlim_max ↔
      ¬ (resource = k.cpu ∧ new_rlim = ⟨0, 0⟩) := by
  obtain ⟨cur, max⟩ := new_rlim
  unfold cheat
  split
  · next hzero =>
    obtain ⟨hcpu, rfl⟩ := hzero
    simp only [hcpu, Rlimit.mk.injEq, true_and]
    omega
  · next hno =>
    refine iff_of_true h ?_
    rintro ⟨hcpu, hzero⟩
    cases hzero
    exact hno ⟨hcpu, rfl⟩

/-- What is read passes the checks. -/
theorem get_set_now (hres : resource < k.nlimits) (hord : (s.rlim resource).rlim_cur ≤ (s.rlim resource).rlim_max)
    (hopen : resource = k.nofile → (s.rlim resource).rlim_max ≤ k.nr_open) :
    (∃ x, sys_getrlimit k true resource s = .ok x ∧ setrlimitChecks k resource (some x) false (.ok ()) s = .ok x) ∧
      ∃ x, sys_old_getrlimit k true resource s = .ok x ∧
        setrlimitChecks k resource (some x) false (.ok ()) s = .ok x := by
  have hpass : ∀ x : Rlimit, x.rlim_cur ≤ x.rlim_max → x.rlim_max ≤ (s.rlim resource).rlim_max →
      setrlimitChecks k resource (some x) false (.ok ()) s = .ok x := by
    intro x hx hmax
    unfold setrlimitChecks
    rw [if_neg (by omega)]
    dsimp only
    rw [if_neg (by omega), if_neg (by omega), if_neg]
    · rfl
    · rintro ⟨hnofile, hgt⟩
      have := hopen hnofile
      omega
  constructor
  · refine ⟨s.rlim resource, ?_, hpass _ hord (Nat.le_refl _)⟩
    unfold sys_getrlimit
    rw [if_neg (by omega)]
    rfl
  · unfold sys_old_getrlimit
    rw [if_neg (by omega)]
    refine ⟨_, rfl, hpass _ ?_ ?_⟩
    · split <;> split <;> simp_all
      all_goals omega
    · split <;> split <;> simp_all
      all_goals omega

/-! ## Interleaved calls -/

/-- Nothing is under way. -/
def Idle (s : LimitState) : Prop := ∀ thread, s.pending thread = none

/-- No hard limit of this resource above `top`, now or in a call that is under way. -/
structure Below (top resource : ℕ) (s : LimitState) : Prop where
  rlim : (s.rlim resource).rlim_max ≤ top
  pending : ∀ thread asked, s.pending thread = some (resource, asked) → asked.rlim_max ≤ top

theorem Below.store {top thread : ℕ} (h : Below top resource s) {e : LimitEvent} (he : e = .store thread)
    (hs : limitStep k e s = some s') : Below top resource s' := by
  subst he
  obtain ⟨⟨r, asked⟩, hpend, rfl⟩ := Option.map_eq_some_iff.1 hs
  refine ⟨?_, fun t x hx => ?_⟩
  · simp only [setrlimitStore_rlim]
    by_cases hr : resource = r
    · subst hr
      rw [Function.update_self, cheat_max]
      exact h.pending thread asked hpend
    · rw [Function.update_of_ne hr]
      exact h.rlim
  · dsimp only at hx
    by_cases ht : t = thread
    · rw [ht, Function.update_self] at hx
      cases hx
    · rw [Function.update_of_ne ht] at hx
      exact h.pending t x hx

/-- A check that lets through no more than `top`. -/
theorem Below.check {top thread r : ℕ} (h : Below top resource s)
    (hnew : ∀ x, r = resource → setrlimitChecks k r user capable lsm s = .ok x → x.rlim_max ≤ top)
    (hs : limitStep k (.check thread r user capable lsm) s = some s') : Below top resource s' := by
  unfold limitStep at hs
  dsimp only at hs
  split at hs
  · split at hs
    · cases hs
      exact h
    · next x hx =>
      cases hs
      refine ⟨h.rlim, fun t y hy => ?_⟩
      dsimp only at hy
      by_cases ht : t = thread
      · rw [ht, Function.update_self, Option.some.injEq, Prod.mk.injEq] at hy
        obtain ⟨hr, rfl⟩ := hy
        exact hnew x hr hx
      · rw [Function.update_of_ne ht] at hy
        exact h.pending t y hy
  · cases hs

theorem Idle.below {top : ℕ} (h : Idle s) (htop : (s.rlim resource).rlim_max ≤ top) : Below top resource s := by
  refine ⟨htop, fun thread asked hpend => ?_⟩
  rw [h thread] at hpend
  cases hpend

/-- The limit on files is bounded whoever calls. -/
theorem Below.open {top : ℕ} {e : LimitEvent} (h : Below top k.nofile s) (htop : k.nr_open ≤ top)
    (hs : limitStep k e s = some s') : Below top k.nofile s' := by
  cases e with
  | check thread r user capable lsm => exact h.check (fun x hr hx => ((checks_spec hx).2.2.2 hr).trans htop) hs
  | store thread => exact h.store rfl hs
  | itimer secs =>
    cases hs
    exact ⟨h.rlim, h.pending⟩

/-- **Hard limits.** However the calls of the threads are interleaved: without the capability the limit of a resource
never exceeds what it was at a time when nothing was under way; the limit on files does so up to `sysctl_nr_open`
only. -/
theorem limits_law (k : LimitNumbers) {s s' : LimitState} {events : List LimitEvent} (hidle : Idle s)
    (hrun : Run.exec (limitStep k) events s = some s') :
    (∀ resource, (∀ e ∈ events, ∀ thread user lsm, e ≠ .check thread resource user true lsm) →
      (s'.rlim resource).rlim_max ≤ (s.rlim resource).rlim_max) ∧
      (s'.rlim k.nofile).rlim_max ≤ max (s.rlim k.nofile).rlim_max k.nr_open := by
  refine ⟨fun resource hcap => ?_, ?_⟩
  · refine (Run.invariant (C := fun e _ => ∀ thread user lsm, e ≠ LimitEvent.check thread resource user true lsm)
      (I := Below (s.rlim resource).rlim_max resource) ?_ (Run.along_of_mem (fun e he _ => hcap e he) s)
      (hidle.below (Nat.le_refl _)) hrun).rlim
    intro e s₁ s₂ he h₁ hs₂
    cases e with
    | check thread r user capable lsm =>
      refine h₁.check (fun x hr hx => ?_) hs₂
      subst hr
      cases capable with
      | true => exact absurd rfl (he thread user lsm)
      | false => exact ((checks_spec hx).2.2.1 rfl).trans h₁.rlim
    | store thread => exact h₁.store rfl hs₂
    | itimer secs =>
      cases hs₂
      exact ⟨h₁.rlim, h₁.pending⟩
  · exact (Run.invariant' (I := Below (max (s.rlim k.nofile).rlim_max k.nr_open) k.nofile)
      (fun _ _ _ h => h.open (Nat.le_max_right _ _)) (hidle.below (Nat.le_max_left _ _)) hrun).rlim

def sampleNumbers : LimitNumbers := ⟨16, 0, 7, 2 ^ 64 - 1, 1024⟩

def sampleLimits : LimitState := ⟨fun _ => ⟨5, 5⟩, fun _ => none, 0, []⟩

theorem limits_law_sample :
    ∃ s', Run.exec (limitStep sampleNumbers) [.check 0 3 (some ⟨9, 9⟩) false (.ok ()), .check 0 3 (some ⟨1, 1⟩) false
      (.ok ()), .store 0] sampleLimits = some s' ∧ (s'.rlim 3).rlim_max ≤ 5 := by
  obtain ⟨s', hrun⟩ : ∃ s', Run.exec (limitStep sampleNumbers) [.check 0 3 (some ⟨9, 9⟩) false (.ok ()),
    .check 0 3 (some ⟨1, 1⟩) false (.ok ()), .store 0] sampleLimits = some s' := ⟨_, rfl⟩
  exact ⟨s', hrun, (limits_law sampleNumbers (fun _ => rfl) hrun).1 3 (by simp)⟩

/-- Two threads: what has been lowered rises again, to what it was. -/
example :
    (Run.exec (limitStep sampleNumbers) [.check 0 3 (some ⟨5, 5⟩) false (.ok ()),
      .check 1 3 (some ⟨1, 1⟩) false (.ok ()), .store 1, .store 0] sampleLimits).map (fun s => s.rlim 3) =
        some ⟨5, 5⟩ := by
  decide

/-! ## Soft and hard limits -/

/-- What is under way is in order. -/
def PendingOrdered (s : LimitState) : Prop :=
  ∀ thread resource asked, s.pending thread = some (resource, asked) → asked.rlim_cur ≤ asked.rlim_max

theorem limitStep_pending {e : LimitEvent} (h : PendingOrdered s) (hs : limitStep k e s = some s') :
    PendingOrdered s' := by
  intro t r x hx
  cases e with
  | check thread resource user capable lsm =>
    unfold limitStep at hs
    dsimp only at hs
    split at hs
    · split at hs
      · cases hs
        exact h t r x hx
      · next asked hasked =>
        cases hs
        dsimp only at hx
        by_cases ht : t = thread
        · rw [ht, Function.update_self, Option.some.injEq, Prod.mk.injEq] at hx
          obtain ⟨-, rfl⟩ := hx
          exact (checks_spec hasked).2.1
        · rw [Function.update_of_ne ht] at hx
          exact h t r x hx
    · cases hs
  | store thread =>
    obtain ⟨⟨r', asked⟩, hpend, rfl⟩ := Option.map_eq_some_iff.1 hs
    dsimp only at hx
    by_cases ht : t = thread
    · rw [ht, Function.update_self] at hx
      cases hx
    · rw [Function.update_of_ne ht] at hx
      exact h t r x hx
  | itimer secs =>
    cases hs
    exact h t r x hx

/-- A store of 0, 0 as the limit on CPU time. -/
def StoresZero (k : LimitNumbers) (e : LimitEvent) (s : LimitState) : Prop :=
  ∃ thread, e = .store thread ∧ s.pending thread = some (k.cpu, ⟨0, 0⟩)

/-- Each soft limit is below its hard limit. -/
def OrderedLimits (s : LimitState) : Prop := ∀ resource, (s.rlim resource).rlim_cur ≤ (s.rlim resource).rlim_max

theorem limitStep_ordered {e : LimitEvent} (hpending : PendingOrdered s) (hord : OrderedLimits s)
    (hs : limitStep k e s = some s') : OrderedLimits s' ↔ ¬ StoresZero k e s := by
  cases e with
  | check thread resource user capable lsm =>
    have hsame : s'.rlim = s.rlim := by
      unfold limitStep at hs
      dsimp only at hs
      split at hs
      · split at hs <;> cases hs <;> rfl
      · cases hs
    unfold OrderedLimits
    rw [hsame]
    exact iff_of_true hord (by rintro ⟨t, ht, -⟩; cases ht)
  | store thread =>
    obtain ⟨⟨r, asked⟩, hpend, rfl⟩ := Option.map_eq_some_iff.1 hs
    have hiff := cheat_ordered k r (hpending thread r asked hpend)
    have hzero : StoresZero k (.store thread) s ↔ r = k.cpu ∧ asked = ⟨0, 0⟩ := by
      constructor
      · rintro ⟨t, ht, hp⟩
        cases ht
        rw [hpend, Option.some.injEq, Prod.mk.injEq] at hp
        exact hp
      · rintro ⟨rfl, rfl⟩
        exact ⟨thread, rfl, hpend⟩
    rw [hzero, ← hiff]
    unfold OrderedLimits
    simp only [setrlimitStore_rlim]
    constructor
    · intro hall
      have hr := hall r
      rwa [Function.update_self] at hr
    · intro hr resource
      by_cases hres : resource = r
      · rw [hres, Function.update_self]
        exact hr
      · rw [Function.update_of_ne hres]
        exact hord resource
  | itimer secs =>
    cases hs
    exact iff_of_true hord (by rintro ⟨t, ht, -⟩; cases ht)

theorem Idle.pendingOrdered (h : Idle s) : PendingOrdered s := by
  intro thread resource asked hpend
  rw [h thread] at hpend
  cases hpend

/-- **Soft limits.** -/
theorem ordered_iff (k : LimitNumbers) {s : LimitState} (hidle : Idle s)
    (hord : ∀ resource, (s.rlim resource).rlim_cur ≤ (s.rlim resource).rlim_max) (events : List LimitEvent) :
    Run.Throughout (limitStep k) (fun s => ∀ resource, (s.rlim resource).rlim_cur ≤ (s.rlim resource).rlim_max)
      events s ↔ Run.Along (limitStep k) (fun e s => ¬ StoresZero k e s) events s := by
  refine Run.throughout_iff_along (I := PendingOrdered) ?_ (fun _ _ _ => limitStep_pending)
    (fun _ _ _ => limitStep_ordered) hidle.pendingOrdered hord
  rintro e s₁ - hnone ⟨thread, rfl, hpend⟩
  have hnothing := Option.map_eq_none_iff.1 hnone
  rw [hpend] at hnothing
  cases hnothing

theorem ordered_iff_sample : ¬ Run.Throughout (limitStep sampleNumbers)
    (fun s => ∀ resource, (s.rlim resource).rlim_cur ≤ (s.rlim resource).rlim_max)
    [.check 0 0 (some ⟨0, 0⟩) false (.ok ()), .store 0] sampleLimits := by
  rw [ordered_iff sampleNumbers (fun _ => rfl) (fun _ => Nat.le_refl 5)]
  exact fun h => (h.2 _ rfl).1 ⟨0, rfl, rfl⟩

/-- **Reading and setting again.** In a run that stores no 0, 0 as the limit on CPU time a process without the capability
can at any time set a limit to what it reads. -/
theorem get_set {events : List LimitEvent} (hidle : Idle s) (hord : OrderedLimits s)
    (hopen : (s.rlim k.nofile).rlim_max ≤ k.nr_open)
    (hstores : Run.Along (limitStep k) (fun e s => ¬ StoresZero k e s) events s)
    (hrun : Run.exec (limitStep k) events s = some s') (hres : resource < k.nlimits) :
    (∃ x, sys_getrlimit k true resource s' = .ok x ∧ setrlimitChecks k resource (some x) false (.ok ()) s' = .ok x) ∧
      ∃ x, sys_old_getrlimit k true resource s' = .ok x ∧
        setrlimitChecks k resource (some x) false (.ok ()) s' = .ok x := by
  have hall := Run.invariant (I := fun s => (PendingOrdered s ∧ OrderedLimits s) ∧ Below k.nr_open k.nofile s)
    (fun e s₁ s₂ he h hs => ⟨⟨limitStep_pending h.1.1 hs, (limitStep_ordered h.1.1 h.1.2 hs).2 he⟩,
      h.2.open (Nat.le_refl _) hs⟩) hstores ⟨⟨hidle.pendingOrdered, hord⟩, hidle.below hopen⟩ hrun
  refine get_set_now hres (hall.1.2 resource) fun hnofile => ?_
  subst hnofile
  exact hall.2.rlim

end Sys
