import LinuxLearning.Lib.Run
import LinuxLearning.Sys.Basic
/-!
# `sys.c`: priorities

| here | there (`KernelDrivers_March2011/sys.c`) |
| --- | --- |
| `set_one_prio`    | `:109-132` |
| `sys_setpriority` | `:134-190` |
| `sys_getpriority` | `:198-255` |

`Tasks` is what the two calls look at: the tasks with their ids and nice values, the tasks of a process group and all
threads in the order in which the loops meet them, and the users the kernel knows. `capable`, `can_nice` and the
security module answer what they like; `set_user_nice` sets the nice value.

* `setpriority_law` — which tasks change, and what is returned, whatever the order of the tasks;
* `getpriority_law` — the highest priority of the tasks in question;
* `priority_round_trip` — what has been set without an error is read back;
* `nice_law` — in every run of calls that may not lower nice values none gets lower, and only owners change them.
-/

namespace Sys

structure PrioTask where
  uid : Id
  euid : Id
  nice : ℤ

structure Tasks where
  task : ℕ → PrioTask
  /-- `do_each_thread` -/
  threads : List ℕ
  /-- `do_each_pid_task(find_vpid(...), PIDTYPE_PGID, ...)` -/
  group : ℤ → List ℕ
  /-- `find_task_by_vpid` -/
  find : ℤ → Option ℕ
  /-- `task_pgrp` -/
  pgrp : ℕ → ℤ
  find_user : Id → Bool
  threads_nodup : threads.Nodup
  group_nodup : ∀ g, (group g).Nodup

/-- What is asked elsewhere in one call. -/
structure PrioAnswers where
  capable : Bool
  can_nice : ℕ → Bool
  lsm : ℕ → Except Errno Unit

def setNice (p : ℕ) (niceval : ℤ) (s : Tasks) : Tasks :=
  { s with task := Function.update s.task p { s.task p with nice := niceval } }

/-- `none` is 0. -/
def set_one_prio (a : PrioAnswers) (current p : ℕ) (niceval : ℤ) (error : Option Errno) (s : Tasks) :
    Option Errno × Tasks :=
  if (s.task p).uid ≠ (s.task current).euid ∧ (s.task p).euid ≠ (s.task current).euid ∧ !a.capable then
    (some .EPERM, s)
  else if niceval < (s.task p).nice ∧ !a.can_nice p then (some .EACCES, s)
  else match a.lsm p with
    | .error no_nice => (some no_nice, s)
    | .ok () => (if error = some .ESRCH then none else error, setNice p niceval s)

inductive Which
  | process | pgrp | user
  deriving DecidableEq, Repr

/-- `PRIO_PROCESS` is 0, `PRIO_PGRP` 1 and `PRIO_USER` 2. -/
def toWhich (which : ℤ) : Option Which :=
  if which = 0 then some .process else if which = 1 then some .pgrp else if which = 2 then some .user else none

/-- The tasks that the loops of both calls are about. -/
def selected (s : Tasks) (current : ℕ) (which : Which) (who : CInt) : List ℕ :=
  match which with
  | .process => (if who ≠ 0 then s.find who.toInt else some current).toList
  | .pgrp => s.group (if who ≠ 0 then who.toInt else s.pgrp current)
  | .user =>
    let uid := (s.task current).uid
    let id : Id := if who = 0 then uid else who.toFin
    if id ≠ uid ∧ !s.find_user id then [] else s.threads.filter fun p => (s.task p).uid = id

/-- `none` is 0. -/
def sys_setpriority (a : PrioAnswers) (current : ℕ) (which : ℤ) (who : CInt) (niceval : ℤ) (s : Tasks) :
    Option Errno × Tasks :=
  match toWhich which with
  | none => (some .EINVAL, s)
  | some which =>
    let niceval := if niceval < -20 then -20 else niceval
    let niceval := if niceval > 19 then 19 else niceval
    (selected s current which who).foldl (fun (error, s) p => set_one_prio a current p niceval error s)
      (some .ESRCH, s)

/-- The `retval` of the loops, -3 being `-ESRCH`. -/
def sys_getpriority (current : ℕ) (which : ℤ) (who : CInt) (s : Tasks) : Except Errno ℤ :=
  match toWhich which with
  | none => .error .EINVAL
  | some which =>
    let retval := (selected s current which who).foldl
      (fun retval p => let niceval := 20 - (s.task p).nice; if niceval > retval then niceval else retval) (-3)
    if retval = -3 then .error .ESRCH else .ok retval

/-! ## `setpriority` -/

/-- The `niceval` that is used. -/
def clamp (niceval : ℤ) : ℤ := max (-20) (min 19 niceval)

/-- Why the nice value of `p` may not be set, if it may not. -/
def refusal (a : PrioAnswers) (current : ℕ) (niceval : ℤ) (s : Tasks) (p : ℕ) : Option Errno :=
  if (s.task p).uid ≠ (s.task current).euid ∧ (s.task p).euid ≠ (s.task current).euid ∧ !a.capable then some .EPERM
  else if niceval < (s.task p).nice ∧ !a.can_nice p then some .EACCES
  else match a.lsm p with
    | .error e => some e
    | .ok () => none

variable {a : PrioAnswers} {current p q : ℕ} {niceval : ℤ} {error : Option Errno} {s s' : Tasks} {which : ℤ}
  {who : CInt} {l : List ℕ}

@[simp] theorem setNice_self : (setNice p niceval s).task p = { s.task p with nice := niceval } :=
  Function.update_self ..

theorem setNice_ne (h : q ≠ p) : (setNice p niceval s).task q = s.task q := Function.update_of_ne h ..

@[simp] theorem setNice_ids (p q : ℕ) (niceval : ℤ) (s : Tasks) :
    ((setNice p niceval s).task q).uid = (s.task q).uid ∧ ((setNice p niceval s).task q).euid = (s.task q).euid := by
  by_cases hqp : q = p
  · subst hqp
    simp
  · rw [setNice_ne hqp]
    exact ⟨rfl, rfl⟩

theorem set_one_prio_eq (a : PrioAnswers) (current p : ℕ) (niceval : ℤ) (error : Option Errno) (s : Tasks) :
    set_one_prio a current p niceval error s = match refusal a current niceval s p with
      | some e => (some e, s)
      | none => (if error = some .ESRCH then none else error, setNice p niceval s) := by
  unfold set_one_prio refusal
  split
  · rfl
  split
  · rfl
  cases a.lsm p <;> rfl

/-- Another task's nice value does not matter. -/
theorem refusal_setNice (h : q ≠ p) :
    refusal a current niceval (setNice p niceval s) q = refusal a current niceval s q := by
  unfold refusal
  rw [setNice_ne h, (setNice_ids p current niceval s).2]

theorem refusal_ne_ESRCH (hlsm : ∀ p, a.lsm p ≠ .error .ESRCH) :
    refusal a current niceval s p ≠ some .ESRCH := by
  unfold refusal
  split
  · simp
  split
  · simp
  · have hp := hlsm p
    cases h : a.lsm p with
    | error e =>
      rw [h] at hp
      simpa using hp
    | ok u => simp

/-- All of `setpriority` but the choice of the tasks. -/
def setAll (a : PrioAnswers) (current : ℕ) (niceval : ℤ) (l : List ℕ) (error : Option Errno) (s : Tasks) :
    Option Errno × Tasks :=
  l.foldl (fun (error, s) p => set_one_prio a current p niceval error s) (error, s)

theorem setAll_cons (a : PrioAnswers) (current p : ℕ) (niceval : ℤ) (l : List ℕ) (error : Option Errno) (s : Tasks) :
    setAll a current niceval (p :: l) error s = setAll a current niceval l (set_one_prio a current p niceval error s).1
      (set_one_prio a current p niceval error s).2 := rfl

theorem setAll_task (hl : l.Nodup) (q : ℕ) : (setAll a current niceval l error s).2.task q =
    if q ∈ l ∧ refusal a current niceval s q = none then { s.task q with nice := niceval } else s.task q := by
  induction l generalizing error s with
  | nil => simp [setAll]
  | cons p l ih =>
    obtain ⟨hp, hl⟩ := List.nodup_cons.1 hl
    rw [setAll_cons, set_one_prio_eq]
    cases hr : refusal a current niceval s p with
    | some e =>
      rw [ih hl]
      by_cases hqp : q = p
      · subst hqp
        simp [hp, hr]
      · simp [hqp]
    | none =>
      rw [ih hl]
      by_cases hqp : q = p
      · subst hqp
        simp [hp, hr]
      · rw [refusal_setNice hqp, setNice_ne hqp]
        simp [hqp]

/-- The last refusal wins. -/
theorem setAll_error (hl : l.Nodup) (hlsm : ∀ p, a.lsm p ≠ .error .ESRCH) :
    (setAll a current niceval l error s).1 = match (l.filterMap (refusal a current niceval s)).getLast? with
      | some e => some e
      | none => if l = [] then error else if error = some .ESRCH then none else error := by
  induction l generalizing error s with
  | nil => simp [setAll]
  | cons p l ih =>
    obtain ⟨hp, hl⟩ := List.nodup_cons.1 hl
    rw [setAll_cons, set_one_prio_eq]
    cases hr : refusal a current niceval s p with
    | some e =>
      have hne : e ≠ .ESRCH := fun heq => refusal_ne_ESRCH hlsm (hr.trans (congrArg some heq))
      rw [ih hl, List.filterMap_cons_some hr, List.getLast?_cons]
      cases (l.filterMap (refusal a current niceval s)).getLast? <;> simp [hne]
    | none =>
      have hsame : l.filterMap (refusal a current niceval (setNice p niceval s)) =
          l.filterMap (refusal a current niceval s) :=
        List.filterMap_congr fun q hq => refusal_setNice fun heq => hp (heq ▸ hq)
      rw [ih hl, List.filterMap_cons_none hr, hsame]
      cases (l.filterMap (refusal a current niceval s)).getLast? with
      | some e => rfl
      | none =>
        simp only [List.cons_ne_nil, if_false]
        by_cases hE : error = some .ESRCH <;> simp [hE]

theorem selected_nodup (s : Tasks) (current : ℕ) (which : Which) (who : CInt) :
    (selected s current which who).Nodup := by
  cases which with
  | process =>
    unfold selected
    dsimp only
    cases (if who ≠ 0 then s.find who.toInt else some current) <;> simp
  | pgrp => exact s.group_nodup _
  | user =>
    unfold selected
    dsimp only
    generalize (if who = 0 then (s.task current).uid else who.toFin) = id
    split
    · exact List.nodup_nil
    · exact s.threads_nodup.filter _

theorem sys_setpriority_eq {w : Which} (hw : toWhich which = some w) :
    sys_setpriority a current which who niceval s =
      setAll a current (clamp niceval) (selected s current w who) (some .ESRCH) s := by
  have hclamp : (if (if niceval < -20 then -20 else niceval) > 19 then 19
      else if niceval < -20 then -20 else niceval) = clamp niceval := by
    unfold clamp
    omega
  unfold sys_setpriority
  rw [hw]
  dsimp only
  rw [hclamp]
  rfl

/-- **`setpriority`.** -/
theorem setpriority_law (a : PrioAnswers) (current : ℕ) (who : CInt) (niceval : ℤ) (s : Tasks) {which : ℤ} {w : Which}
    (hw : toWhich which = some w) (hlsm : ∀ p, a.lsm p ≠ .error .ESRCH) :
    (∀ q, (sys_setpriority a current which who niceval s).2.task q =
      if q ∈ selected s current w who ∧ refusal a current (clamp niceval) s q = none then
        { s.task q with nice := clamp niceval } else s.task q) ∧
      (sys_setpriority a current which who niceval s).1 =
        match ((selected s current w who).filterMap (refusal a current (clamp niceval) s)).getLast? with
        | some e => some e
        | none => if selected s current w who = [] then some .ESRCH else none := by
  rw [sys_setpriority_eq hw]
  refine ⟨setAll_task (selected_nodup s current w who), ?_⟩
  rw [setAll_error (selected_nodup s current w who) hlsm, if_pos rfl]

/-- Tasks 1 and 2 are of user 1, task 3 is of user 2; all are in one group. -/
def sampleTasks : Tasks where
  task p := if p = 3 then ⟨2, 2, 0⟩ else ⟨1, 1, 0⟩
  threads := [1, 2, 3]
  group _ := [3, 1, 2]
  find who := some who.toNat
  pgrp _ := 1
  find_user _ := true
  threads_nodup := by decide
  group_nodup _ := by decide

def samplePrio : PrioAnswers := ⟨false, fun _ => false, fun _ => .ok ()⟩

/-- The refusal of one is what is returned; the others have changed all the same. -/
theorem setpriority_law_sample : (sys_setpriority samplePrio 1 1 0 30 sampleTasks).1 = some .EPERM ∧
    ((sys_setpriority samplePrio 1 1 0 30 sampleTasks).2.task 2).nice = 19 := by
  obtain ⟨htask, herror⟩ := setpriority_law samplePrio 1 0 30 sampleTasks
    (by decide : toWhich 1 = some .pgrp) (fun p => by simp [samplePrio])
  rw [herror, htask]
  decide

/-! ## `getpriority` -/

theorem foldl_greatest (f : ℕ → ℤ) (l : List ℕ) (r : ℤ) :
    let v := l.foldl (fun retval p => if f p > retval then f p else retval) r
    r ≤ v ∧ (∀ p ∈ l, f p ≤ v) ∧ (v = r ∨ ∃ p ∈ l, v = f p) := by
  induction l generalizing r with
  | nil => simp
  | cons p l ih =>
    obtain ⟨hr, hl, hv⟩ := ih (if f p > r then f p else r)
    dsimp only at hr hl hv ⊢
    rw [List.foldl_cons]
    refine ⟨le_trans (by split <;> omega) hr, ?_, ?_⟩
    · intro q hq
      rcases List.mem_cons.1 hq with rfl | hq
      · exact le_trans (by split <;> omega) hr
      · exact hl q hq
    · rcases hv with hv | ⟨q, hq, hv⟩
      · rw [hv]
        split
        · exact .inr ⟨p, List.mem_cons_self, rfl⟩
        · exact .inl rfl
      · exact .inr ⟨q, List.mem_cons_of_mem p hq, hv⟩

/-- Nice values are between -20 and 19. -/
def Nice (s : Tasks) : Prop := ∀ p, -20 ≤ (s.task p).nice ∧ (s.task p).nice ≤ 19

/-- **`getpriority`.** -/
theorem getpriority_law (current : ℕ) (who : CInt) {s : Tasks} (hnice : Nice s) {which : ℤ} {w : Which}
    (hw : toWhich which = some w) :
    (selected s current w who = [] → sys_getpriority current which who s = .error .ESRCH) ∧
      (selected s current w who ≠ [] → ∃ v, sys_getpriority current which who s = .ok v ∧ 1 ≤ v ∧ v ≤ 40 ∧
        (∀ p ∈ selected s current w who, 20 - (s.task p).nice ≤ v) ∧
        ∃ p ∈ selected s current w who, v = 20 - (s.task p).nice) := by
  unfold sys_getpriority
  rw [hw]
  dsimp only
  generalize selected s current w who = l
  refine ⟨fun hl => ?_, fun hl => ?_⟩
  · subst hl
    rfl
  · obtain ⟨-, hle, hv⟩ := foldl_greatest (fun p => 20 - (s.task p).nice) l (-3)
    generalize l.foldl (fun retval p => if 20 - (s.task p).nice > retval then 20 - (s.task p).nice else retval) (-3) = v
      at hle hv ⊢
    obtain ⟨p, hp⟩ := List.exists_mem_of_ne_nil l hl
    have hpos : 1 ≤ v := by
      have hp' := hle p hp
      have hn := hnice p
      omega
    obtain ⟨q, hq, hv⟩ := hv.resolve_left (by omega)
    rw [if_neg (by omega)]
    refine ⟨v, rfl, hpos, ?_, hle, q, hq, hv⟩
    have hn := hnice q
    omega

theorem setNice_selected (s : Tasks) (p : ℕ) (niceval : ℤ) (current : ℕ) (which : Which) (who : CInt) :
    selected (setNice p niceval s) current which who = selected s current which who := by
  cases which with
  | process => rfl
  | pgrp => rfl
  | user =>
    unfold selected
    simp only [setNice_ids]
    rfl

/-- The calls are about the same tasks before and after. -/
theorem setAll_selected (w : Which) (current' : ℕ) :
    selected (setAll a current niceval l error s).2 current' w who = selected s current' w who := by
  induction l generalizing error s with
  | nil => rfl
  | cons p l ih =>
    rw [setAll_cons, ih, set_one_prio_eq]
    cases refusal a current niceval s p with
    | some e => rfl
    | none => exact setNice_selected s p niceval current' w who

theorem clamp_bounds (niceval : ℤ) : -20 ≤ clamp niceval ∧ clamp niceval ≤ 19 := by
  unfold clamp
  omega

/-- **Round trip.** After a `setpriority` that returns 0, `getpriority` with the same arguments gives what was set. -/
theorem priority_round_trip (a : PrioAnswers) (current : ℕ) (which : ℤ) (who : CInt) (niceval : ℤ) {s : Tasks}
    (hnice : Nice s) (hlsm : ∀ p, a.lsm p ≠ .error .ESRCH)
    (hok : (sys_setpriority a current which who niceval s).1 = none) :
    sys_getpriority current which who (sys_setpriority a current which who niceval s).2 =
      .ok (20 - max (-20) (min 19 niceval)) := by
  obtain ⟨w, hw⟩ : ∃ w, toWhich which = some w := by
    cases hw : toWhich which with
    | none =>
      unfold sys_setpriority at hok
      rw [hw] at hok
      cases hok
    | some w => exact ⟨w, rfl⟩
  obtain ⟨htask, herror⟩ := setpriority_law a current who niceval s hw hlsm
  have hsel : selected (sys_setpriority a current which who niceval s).2 current w who = selected s current w who := by
    rw [sys_setpriority_eq hw, setAll_selected]
  rw [herror] at hok
  -- nobody was refused, and there was somebody
  have hnone : (selected s current w who).filterMap (refusal a current (clamp niceval) s) = [] := by
    cases hlast : ((selected s current w who).filterMap (refusal a current (clamp niceval) s)).getLast? with
    | some e =>
      rw [hlast] at hok
      cases hok
    | none => exact List.getLast?_eq_none_iff.1 hlast
  have hsome : selected s current w who ≠ [] := by
    intro hempty
    rw [hnone, hempty] at hok
    cases hok
  have hall : ∀ p ∈ selected s current w who, ((sys_setpriority a current which who niceval s).2.task p).nice =
      clamp niceval := by
    intro p hp
    rw [htask p, if_pos ⟨hp, List.filterMap_eq_nil_iff.1 hnone p hp⟩]
  have hnice' : Nice (sys_setpriority a current which who niceval s).2 := by
    intro p
    rw [htask p]
    split
    · exact clamp_bounds niceval
    · exact hnice p
  obtain ⟨v, hv, -, -, -, p, hp, hvp⟩ := (getpriority_law current who hnice' hw).2 (hsel ▸ hsome)
  rw [hv, hvp, hall p (hsel ▸ hp)]
  rfl

theorem priority_round_trip_sample :
    sys_getpriority 1 2 0 (sys_setpriority samplePrio 1 2 0 30 sampleTasks).2 = .ok 1 :=
  priority_round_trip samplePrio 1 2 0 30
    (fun p => by unfold sampleTasks; dsimp only; split <;> decide) (fun p => by simp [samplePrio]) (by decide)

/-! ## Runs -/

/-- A call of `setpriority`. -/
structure PrioCall where
  answers : PrioAnswers
  current : ℕ
  which : ℤ
  who : CInt
  niceval : ℤ

def prioStep (c : PrioCall) (s : Tasks) : Option Tasks :=
  some (sys_setpriority c.answers c.current c.which c.who c.niceval s).2

/-- One call, seen from one task. -/
theorem prioStep_task (c : PrioCall) (s : Tasks) (q : ℕ) :
    (sys_setpriority c.answers c.current c.which c.who c.niceval s).2.task q = s.task q ∨
      refusal c.answers c.current (clamp c.niceval) s q = none ∧
        (sys_setpriority c.answers c.current c.which c.who c.niceval s).2.task q =
          { s.task q with nice := clamp c.niceval } := by
  cases hw : toWhich c.which with
  | none =>
    left
    unfold sys_setpriority
    rw [hw]
  | some w =>
    rw [sys_setpriority_eq hw, setAll_task (selected_nodup s c.current w c.who)]
    split
    · next h => exact .inr ⟨h.2, rfl⟩
    · exact .inl rfl

theorem prioStep_ids (c : PrioCall) (s : Tasks) (q : ℕ) :
    ((sys_setpriority c.answers c.current c.which c.who c.niceval s).2.task q).uid = (s.task q).uid ∧
      ((sys_setpriority c.answers c.current c.which c.who c.niceval s).2.task q).euid = (s.task q).euid := by
  rcases prioStep_task c s q with h | ⟨-, h⟩ <;> rw [h] <;> exact ⟨rfl, rfl⟩

/-- **Nice values.** Without `can_nice` none gets lower; without `CAP_SYS_NICE` they are those of the callers' own
tasks that change. -/
theorem nice_law (calls : List PrioCall) (s : Tasks) : ∃ s', Run.exec prioStep calls s = some s' ∧
    ((∀ c ∈ calls, ∀ p, c.answers.can_nice p = false) → ∀ q, (s.task q).nice ≤ (s'.task q).nice) ∧
      ∀ q, (∀ c ∈ calls, c.answers.capable = false ∧ (s.task q).uid ≠ (s.task c.current).euid ∧
        (s.task q).euid ≠ (s.task c.current).euid) → s'.task q = s.task q := by
  obtain ⟨s', hrun⟩ : ∃ s', Run.exec prioStep calls s = some s' := Run.exec_total (fun _ _ => ⟨_, rfl⟩) calls s
  refine ⟨s', hrun, fun hcan q => ?_, fun q hown => ?_⟩
  · refine Run.invariant (C := fun c _ => ∀ p, c.answers.can_nice p = false)
      (I := fun s₁ => (s.task q).nice ≤ (s₁.task q).nice) ?_ (Run.along_of_mem (fun c hc _ => hcan c hc) s) le_rfl hrun
    intro c s₁ s₂ hc h₁ hs₂
    cases hs₂
    rcases prioStep_task c s₁ q with hsame | ⟨hpass, hset⟩
    · rwa [hsame]
    · rw [hset]
      have hle : ¬ (clamp c.niceval < (s₁.task q).nice ∧ !c.answers.can_nice q) := by
        intro hlow
        unfold refusal at hpass
        rw [if_pos hlow] at hpass
        split at hpass <;> cases hpass
      rw [hc q] at hle
      simp only [Bool.not_false, and_true, not_lt] at hle
      exact h₁.trans hle
  · have hinv := Run.invariant (C := fun (c : PrioCall) _ => c.answers.capable = false ∧
        (s.task q).uid ≠ (s.task c.current).euid ∧ (s.task q).euid ≠ (s.task c.current).euid)
      (I := fun s₁ => s₁.task q = s.task q ∧ ∀ p, (s₁.task p).euid = (s.task p).euid) ?_
      (Run.along_of_mem (fun c hc _ => hown c hc) s) ⟨rfl, fun _ => rfl⟩ hrun
    · exact hinv.1
    rintro c s₁ s₂ ⟨hcap, huid, heuid⟩ ⟨h₁, hids⟩ hs₂
    cases hs₂
    refine ⟨?_, fun p => ((prioStep_ids c s₁ p).2).trans (hids p)⟩
    rcases prioStep_task c s₁ q with hsame | ⟨hpass, -⟩
    · exact hsame.trans h₁
    · unfold refusal at hpass
      rw [if_pos ⟨by rwa [h₁, hids], by rwa [h₁, hids], by simp [hcap]⟩] at hpass
      cases hpass

end Sys
