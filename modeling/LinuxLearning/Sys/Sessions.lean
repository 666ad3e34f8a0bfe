import LinuxLearning.Lib.Run
import LinuxLearning.Sys.Basic
/-!
# `sys.c`: process groups and sessions

| here | there (`KernelDrivers_March2011/sys.c`) |
| --- | --- |
| `sys_setpgid` | `:915-985` |
| `sys_getpgid` | `:987-1006` |
| `sys_getsid`  | `:1018-1037` |
| `sys_setsid`  | `:1039-1068` |

A process is a thread group; it has the pid of its leader and is there until it has been waited for. The pids of its
other threads are in `thread`. A pid is a number here, as in the one pid namespace there is. `find_task_by_vpid`,
`pid_task`, `attach_pid` and `__set_special_pids` are elsewhere: they look up a task by its pid or the first task of a
process group, and set the group and the session of a process. Which of its members is the first of a group is open
(`first`), and so is what the security module answers (`lsm`).

The rest of the kernel makes processes and threads, lets processes call `exec` and ends them (`fork`, `clone`, `exec`,
`exit`). A pid that is given out is not in use as a pid, as a group or as a session.

* `setpgid_spec`, `setsid_spec` — what the calls can do;
* `session_law` — in every run each process group is within one session, a session leader leads the group and the
  session with its pid, and a call of `setsid` that succeeds leaves its process alone in both;
* `getpgid_getsid` — the calls that ask are of one mind with that, for processes and for their threads;
* `exec_law` — the group and the session of a process that has called `exec` are changed by itself only.
-/

namespace Sys

structure Process where
  pgrp : ℕ
  session : ℕ
  /-- the process of `real_parent` -/
  parent : ℕ
  did_exec : Bool
  /-- `signal->leader` -/
  leader : Bool
  tty : Option ℕ

structure Processes where
  procs : Finset ℕ
  proc : ℕ → Process
  /-- the process of a thread that is not its leader -/
  thread : ℕ → Option ℕ

/-- The first process. -/
def Processes.boot : Processes where
  procs := {1}
  proc _ := ⟨0, 0, 0, false, false, none⟩
  thread _ := none

/-- `group_leader` of the task with a pid. -/
def Processes.leaderOf (s : Processes) (pid : ℕ) : Option ℕ := if pid ∈ s.procs then some pid else s.thread pid

def find_task_by_vpid (s : Processes) (pid : ℤ) : Option ℕ :=
  if 0 ≤ pid then (s.leaderOf pid.toNat).map fun _ => pid.toNat else none

/-- The process and the group that a call of `setpgid` is about. -/
def setpgidArgs (group_leader : ℕ) (pid pgid : ℤ) : ℤ × ℤ :=
  let pid : ℤ := if pid = 0 then group_leader else pid
  (pid, if pgid = 0 then pid else pgid)

/-- `first` is the first task of the group. -/
def sys_setpgid (lsm : Except Errno Unit) (first : Option ℕ) (group_leader : ℕ) (pid pgid : ℤ) (s : Processes) :
    Except Errno Unit × Processes :=
  let (pid, pgid) := setpgidArgs group_leader pid pgid
  if pgid < 0 then (.error .EINVAL, s)
  else match find_task_by_vpid s pid with
    | none => (.error .ESRCH, s)
    | some p =>
      let me := s.proc group_leader
      if p ∉ s.procs then (.error .EINVAL, s)
      else if (s.proc p).parent = group_leader ∧ (s.proc p).session ≠ me.session then (.error .EPERM, s)
      else if (s.proc p).parent = group_leader ∧ (s.proc p).did_exec then (.error .EACCES, s)
      else if (s.proc p).parent ≠ group_leader ∧ p ≠ group_leader then (.error .ESRCH, s)
      else if (s.proc p).leader then (.error .EPERM, s)
      else if pgid ≠ pid ∧ !(first.any fun g => (s.proc g).session = me.session) then (.error .EPERM, s)
      else match lsm with
        | .error e => (.error e, s)
        | .ok () =>
          if (s.proc p).pgrp ≠ pgid.toNat then
            (.ok (), { s with proc := Function.update s.proc p { s.proc p with pgrp := pgid.toNat } })
          else (.ok (), s)

/-- What the two calls that ask have in common. -/
def askProcess (field : Process → ℕ) (lsm : Except Errno Unit) (group_leader : ℕ) (pid : ℤ) (s : Processes) :
    Except Errno ℕ :=
  if pid = 0 then .ok (field (s.proc group_leader))
  else match (find_task_by_vpid s pid).bind s.leaderOf with
    | none => .error .ESRCH
    | some p => lsm.map fun _ => field (s.proc p)

def sys_getpgid (lsm : Except Errno Unit) (group_leader : ℕ) (pid : ℤ) (s : Processes) : Except Errno ℕ :=
  askProcess Process.pgrp lsm group_leader pid s

def sys_getsid (lsm : Except Errno Unit) (group_leader : ℕ) (pid : ℤ) (s : Processes) : Except Errno ℕ :=
  askProcess Process.session lsm group_leader pid s

/-- `first` is the first task of the group with the pid of the process. -/
def sys_setsid (first : Option ℕ) (group_leader : ℕ) (s : Processes) : Except Errno ℕ × Processes :=
  if (s.proc group_leader).leader then (.error .EPERM, s)
  else if first.isSome then (.error .EPERM, s)
  else
    (.ok group_leader,
      { s with
        proc := Function.update s.proc group_leader
          { s.proc group_leader with leader := true, pgrp := group_leader, session := group_leader, tty := none } })

inductive SessionEvent
  | setpgid (current : ℕ) (pid pgid : ℤ) (lsm : Except Errno Unit) (first : Option ℕ)
  | setsid (current : ℕ) (first : Option ℕ)
  /-- the parent is the caller, or the caller's parent -/
  | fork (current child parent : ℕ)
  | clone (current tid : ℕ)
  | exec (current : ℕ)
  /-- the children go to the process `reaper` -/
  | exit (pid reaper : ℕ)

/-- `first` is one of the group, if there is one. -/
def IsFirst (s : Processes) (pgrp : ℤ) (first : Option ℕ) : Prop :=
  match first with
  | none => ∀ q ∈ s.procs, ((s.proc q).pgrp : ℤ) ≠ pgrp
  | some g => g ∈ s.procs ∧ (s.proc g).pgrp = pgrp

instance (s : Processes) (pgrp : ℤ) (first : Option ℕ) : Decidable (IsFirst s pgrp first) :=
  match first with
  | none => inferInstanceAs (Decidable (∀ q ∈ s.procs, ((s.proc q).pgrp : ℤ) ≠ pgrp))
  | some g => inferInstanceAs (Decidable (g ∈ s.procs ∧ (s.proc g).pgrp = pgrp))

/-- A pid that is not in use. -/
def Fresh (s : Processes) (pid : ℕ) : Prop :=
  s.leaderOf pid = none ∧ ∀ q ∈ s.procs, (s.proc q).pgrp ≠ pid ∧ (s.proc q).session ≠ pid

instance (s : Processes) (pid : ℕ) : Decidable (Fresh s pid) := inferInstanceAs (Decidable (_ ∧ _))

/-- The process a task belongs to. -/
def Processes.current (s : Processes) (pid : ℕ) : Option ℕ := (s.leaderOf pid).filter (· ∈ s.procs)

def sessionStep (e : SessionEvent) (s : Processes) : Option Processes :=
  match e with
  | .setpgid current pid pgid lsm first =>
    (s.current current).bind fun p =>
      if IsFirst s (setpgidArgs p pid pgid).2 first then some (sys_setpgid lsm first p pid pgid s).2 else none
  | .setsid current first =>
    (s.current current).bind fun p => if IsFirst s p first then some (sys_setsid first p s).2 else none
  | .fork current child parent =>
    (s.current current).bind fun p =>
      if Fresh s child then
        some
          { s with
            procs := insert child s.procs
            proc := Function.update s.proc child { s.proc p with parent := parent, did_exec := false, leader := false } }
      else none
  | .clone current tid =>
    (s.current current).bind fun p =>
      if Fresh s tid then some { s with thread := Function.update s.thread tid (some p) } else none
  | .exec current =>
    (s.current current).map fun p =>
      { s with proc := Function.update s.proc p { s.proc p with did_exec := true } }
  | .exit pid reaper =>
    if pid ∈ s.procs then
      some
        { procs := s.procs.erase pid
          proc := fun q => if (s.proc q).parent = pid then { s.proc q with parent := reaper } else s.proc q
          thread := fun t => if s.thread t = some pid then none else s.thread t }
    else none

/-- Who does it. -/
def actor (e : SessionEvent) (s : Processes) : Option ℕ :=
  match e with
  | .setpgid current .. | .setsid current _ | .fork current .. | .clone current _ | .exec current => s.current current
  | .exit pid _ => some pid

/-! ## What the calls can do -/

variable {s s' : Processes} {p : ℕ} {first : Option ℕ} {pid pgid : ℤ} {lsm : Except Errno Unit}

theorem current_mem {pid : ℕ} (h : s.current pid = some p) : p ∈ s.procs := by
  unfold Processes.current at h
  rw [Option.filter_eq_some_iff] at h
  simpa using h.2

theorem find_eq_some {p : ℕ} (h : find_task_by_vpid s pid = some p) : pid = p := by
  unfold find_task_by_vpid at h
  split at h
  · obtain ⟨-, -, rfl⟩ := Option.map_eq_some_iff.1 h
    omega
  · cases h

/-- **`setpgid`** changes nothing, or the group of one process: of the caller itself, or of a child that is in its
session and has not called `exec`; not of a session leader. The new group is that of the process alone, or one there is
in the caller's session. -/
theorem setpgid_spec (lsm : Except Errno Unit) (first : Option ℕ) (me : ℕ) (pid pgid : ℤ) (s : Processes) :
    (sys_setpgid lsm first me pid pgid s).2 = s ∨
      ∃ q ∈ s.procs, ∃ g : ℕ, (sys_setpgid lsm first me pid pgid s).2 =
          { s with proc := Function.update s.proc q { s.proc q with pgrp := g } } ∧
        (q = me ∨ (s.proc q).parent = me ∧ (s.proc q).session = (s.proc me).session ∧ (s.proc q).did_exec = false) ∧
        (s.proc q).leader = false ∧ (setpgidArgs me pid pgid).2 = g ∧
        (g = q ∨ ∃ m, first = some m ∧ (s.proc m).session = (s.proc me).session) := by
  unfold sys_setpgid
  generalize hargs : setpgidArgs me pid pgid = args
  obtain ⟨pid, pgid⟩ := args
  dsimp only
  split
  · exact .inl rfl
  next hpgid =>
  split
  · exact .inl rfl
  next q hfind =>
  split
  · exact .inl rfl
  next hproc =>
  split
  · exact .inl rfl
  next hsession =>
  split
  · exact .inl rfl
  next hexec =>
  split
  · exact .inl rfl
  next hself =>
  split
  · exact .inl rfl
  next hleader =>
  split
  · exact .inl rfl
  next hgroup =>
  split
  · exact .inl rfl
  split
  · refine .inr ⟨q, not_not.1 hproc, pgid.toNat, rfl, ?_, by simpa using hleader, by omega, ?_⟩
    · by_cases hparent : (s.proc q).parent = me
      · exact .inr ⟨hparent, by simpa [hparent] using hsession, by simpa [hparent] using hexec⟩
      · exact .inl (by simpa [hparent] using hself)
    · by_cases hown : pgid = pid
      · left
        have hq := find_eq_some hfind
        omega
      · right
        have hany : (first.any fun g => (s.proc g).session = (s.proc me).session) = true := by
          simpa [hown] using hgroup
        rw [Option.any_eq_true] at hany
        obtain ⟨m, hm, hsame⟩ := hany
        exact ⟨m, hm, by simpa using hsame⟩
  · exact .inl rfl

/-- **`setsid`** changes nothing, or makes a process a leader that has not been one and whose pid is no group. -/
theorem setsid_spec (first : Option ℕ) (me : ℕ) (s : Processes) :
    (sys_setsid first me s).2 = s ∨
      (s.proc me).leader = false ∧ first = none ∧ (sys_setsid first me s).2 =
        { s with
          proc := Function.update s.proc me
            { s.proc me with leader := true, pgrp := me, session := me, tty := none } } := by
  unfold sys_setsid
  split
  · exact .inl rfl
  next hleader =>
  split
  · exact .inl rfl
  next hfirst => exact .inr ⟨by simpa using hleader, by simpa using hfirst, rfl⟩

/-! ## Sessions -/

structure Ordered (s : Processes) : Prop where
  group : ∀ p ∈ s.procs, ∀ q ∈ s.procs, (s.proc p).pgrp = (s.proc q).pgrp → (s.proc p).session = (s.proc q).session
  leader : ∀ p ∈ s.procs, (s.proc p).leader = true → (s.proc p).pgrp = p ∧ (s.proc p).session = p
  /-- the group with the pid of a process is in its session -/
  own : ∀ p ∈ s.procs, ∀ q ∈ s.procs, (s.proc q).pgrp = p → (s.proc q).session = (s.proc p).session
  /-- the session with the pid of a process has it as its leader -/
  led : ∀ p ∈ s.procs, ∀ q ∈ s.procs, (s.proc q).session = p → (s.proc p).leader = true

theorem boot_ordered : Ordered Processes.boot := by
  constructor <;> simp [Processes.boot]

/-- The group of one process changes. -/
theorem Ordered.regroup (me : ℕ) {q g : ℕ} (h : Ordered s) (hq : q ∈ s.procs)
    (hwho : q = me ∨ (s.proc q).session = (s.proc me).session) (hleader : (s.proc q).leader = false)
    (hgroup : g = q ∨ ∃ m ∈ s.procs, (s.proc m).pgrp = g ∧ (s.proc m).session = (s.proc me).session) :
    Ordered { s with proc := Function.update s.proc q { s.proc q with pgrp := g } } := by
  have hsession : (s.proc q).session = (s.proc me).session := hwho.elim (fun heq => heq ▸ rfl) id
  -- whoever is in the new group is in the session already
  have hnew : ∀ r ∈ s.procs, (s.proc r).pgrp = g → (s.proc r).session = (s.proc q).session := by
    intro r hr hg
    rcases hgroup with rfl | ⟨m, hm, hmg, hms⟩
    · exact h.own g hq r hr hg
    · rw [h.group r hr m hm (hg.trans hmg.symm), hms, hsession]
  have hsame : ∀ r, (Function.update s.proc q { s.proc q with pgrp := g } r).session = (s.proc r).session ∧
      (Function.update s.proc q { s.proc q with pgrp := g } r).leader = (s.proc r).leader := by
    intro r
    by_cases hr : r = q
    · subst hr
      simp
    · simp [Function.update_of_ne hr]
  have hpgrp : ∀ r, (Function.update s.proc q { s.proc q with pgrp := g } r).pgrp =
      if r = q then g else (s.proc r).pgrp := by
    intro r
    by_cases hr : r = q
    · subst hr
      simp
    · simp [hr]
  refine ⟨?_, ?_, ?_, ?_⟩
  · intro a ha b hb hab
    simp only [hpgrp] at hab
    rw [(hsame a).1, (hsame b).1]
    by_cases haq : a = q
    · subst haq
      rw [if_pos rfl] at hab
      by_cases hbq : b = a
      · rw [hbq]
      · rw [if_neg hbq] at hab
        exact (hnew b hb hab.symm).symm
    · rw [if_neg haq] at hab
      by_cases hbq : b = q
      · subst hbq
        rw [if_pos rfl] at hab
        exact hnew a ha hab
      · rw [if_neg hbq] at hab
        exact h.group a ha b hb hab
  · intro a ha hlead
    rw [(hsame a).2] at hlead
    have hne : a ≠ q := by
      rintro rfl
      rw [hleader] at hlead
      cases hlead
    simp only [Function.update_of_ne hne]
    exact h.leader a ha hlead
  · intro a ha b hb hab
    rw [(hsame a).1, (hsame b).1]
    simp only [hpgrp] at hab
    by_cases hbq : b = q
    · subst hbq
      rw [if_pos rfl] at hab
      subst hab
      rcases hgroup with rfl | ⟨m, hm, hmg, hms⟩
      · rfl
      · rw [hsession, ← hms]
        exact h.own g ha m hm hmg
    · rw [if_neg hbq] at hab
      exact h.own a ha b hb hab
  · intro a ha b hb hab
    rw [(hsame b).1] at hab
    rw [(hsame a).2]
    exact h.led a ha b hb hab

/-- A process becomes a leader. -/
theorem Ordered.lead {me : ℕ} (h : Ordered s) (hme : me ∈ s.procs)
    (hleader : (s.proc me).leader = false) (hgroup : ∀ q ∈ s.procs, (s.proc q).pgrp ≠ me) :
    Ordered { s with
      proc := Function.update s.proc me { s.proc me with leader := true, pgrp := me, session := me, tty := none } } ∧
    ∀ q ∈ s.procs, q ≠ me → (s.proc q).session ≠ me := by
  have halone : ∀ q ∈ s.procs, (s.proc q).session ≠ me := by
    intro q hq heq
    have hlead := h.led me hme q hq heq
    rw [hleader] at hlead
    cases hlead
  refine ⟨⟨?_, ?_, ?_, ?_⟩, fun q hq _ => halone q hq⟩
  · intro a ha b hb hab
    have hga := hgroup a ha
    have hgb := hgroup b hb
    have hold := h.group a ha b hb
    simp only [Function.update_apply] at hab ⊢
    grind
  · intro a ha hlead
    have hold := h.leader a ha
    simp only [Function.update_apply] at hlead ⊢
    grind
  · intro a ha b hb hab
    have hgb := hgroup b hb
    have hold := h.own a ha b hb
    simp only [Function.update_apply] at hab ⊢
    grind
  · intro a ha b hb hab
    have hsb := halone b hb
    have hold := h.led a ha b hb
    simp only [Function.update_apply] at hab ⊢
    grind

/-- Groups, sessions and leaders are what they were; some processes may be gone. -/
theorem Ordered.of_same (h : Ordered s) (hmem : s'.procs ⊆ s.procs)
    (hsame : ∀ q, (s'.proc q).pgrp = (s.proc q).pgrp ∧ (s'.proc q).session = (s.proc q).session ∧
      (s'.proc q).leader = (s.proc q).leader) : Ordered s' := by
  constructor
  · simpa only [hsame] using fun p hp q hq => h.group p (hmem hp) q (hmem hq)
  · simpa only [hsame] using fun p hp => h.leader p (hmem hp)
  · simpa only [hsame] using fun p hp q hq => h.own p (hmem hp) q (hmem hq)
  · simpa only [hsame] using fun p hp q hq => h.led p (hmem hp) q (hmem hq)

/-- A new process is in the group and the session of `me`. -/
theorem Ordered.fork {me child parent : ℕ} (h : Ordered s) (hmem : me ∈ s.procs) (hnew : Fresh s child) :
    Ordered
      { s with
        procs := insert child s.procs
        proc := Function.update s.proc child { s.proc me with parent := parent, did_exec := false, leader := false } } := by
  obtain ⟨hnew, hfresh⟩ := hnew
  have hchild : child ∉ s.procs := by
    intro hin
    simp [Processes.leaderOf, hin] at hnew
  -- the child is like its parent, and its pid is not in use
  have hold : ∀ q ∈ insert child s.procs, ∃ r ∈ s.procs,
      (Function.update s.proc child { s.proc me with parent := parent, did_exec := false, leader := false } q).pgrp =
        (s.proc r).pgrp ∧
      (Function.update s.proc child { s.proc me with parent := parent, did_exec := false, leader := false } q).session =
        (s.proc r).session ∧ (q ≠ child → r = q) := by
    intro q hq
    rcases Finset.mem_insert.1 hq with rfl | hin
    · exact ⟨me, hmem, by simp, by simp, fun hne => absurd rfl hne⟩
    · have hne : q ≠ child := fun heq => hchild (heq ▸ hin)
      exact ⟨q, hin, by simp [hne], by simp [hne], fun _ => rfl⟩
  refine ⟨?_, ?_, ?_, ?_⟩
  · intro a ha b hb hab
    obtain ⟨a', ha', hga, hsa, -⟩ := hold a ha
    obtain ⟨b', hb', hgb, hsb, -⟩ := hold b hb
    rw [hsa, hsb]
    exact h.group a' ha' b' hb' (hga.symm.trans (hab.trans hgb))
  · intro a ha hlead
    have hne : a ≠ child := by
      rintro rfl
      simp at hlead
    simp only [Function.update_of_ne hne] at hlead ⊢
    exact h.leader a ((Finset.mem_insert.1 ha).resolve_left hne) hlead
  · intro a ha b hb hab
    obtain ⟨b', hb', hgb, hsb, -⟩ := hold b hb
    have hne : a ≠ child := by
      rintro rfl
      exact (hfresh b' hb').1 (hgb.symm.trans hab)
    rw [hsb]
    simp only [Function.update_of_ne hne]
    exact h.own a ((Finset.mem_insert.1 ha).resolve_left hne) b' hb' (hgb.symm.trans hab)
  · intro a ha b hb hab
    obtain ⟨b', hb', hgb, hsb, -⟩ := hold b hb
    have hne : a ≠ child := by
      rintro rfl
      exact (hfresh b' hb').2 (hsb.symm.trans hab)
    simp only [Function.update_of_ne hne]
    exact h.led a ((Finset.mem_insert.1 ha).resolve_left hne) b' hb' (hsb.symm.trans hab)

/-! ## Runs -/

theorem sessionStep_ordered {e : SessionEvent} (h : Ordered s) (hs : sessionStep e s = some s') : Ordered s' := by
  cases e with
  | setpgid current pid pgid lsm first =>
    obtain ⟨me, hme, hs⟩ := Option.bind_eq_some_iff.1 hs
    obtain ⟨hfirst, hs⟩ := Option.ite_none_right_eq_some.1 hs
    obtain rfl := Option.some.inj hs
    rcases setpgid_spec lsm first me pid pgid s with hsame | ⟨q, hq, g, hs', hwho, hleader, hg, hgroup⟩
    · rwa [hsame]
    · rw [hs']
      refine h.regroup me hq (hwho.imp_right fun hchild => hchild.2.1) hleader (hgroup.imp_right ?_)
      rintro ⟨m, rfl, hms⟩
      rw [hg] at hfirst
      exact ⟨m, hfirst.1, Int.ofNat_inj.1 hfirst.2, hms⟩
  | setsid current first =>
    obtain ⟨me, hme, hs⟩ := Option.bind_eq_some_iff.1 hs
    obtain ⟨hfirst, hs⟩ := Option.ite_none_right_eq_some.1 hs
    obtain rfl := Option.some.inj hs
    rcases setsid_spec first me s with hsame | ⟨hleader, rfl, hs'⟩
    · rwa [hsame]
    · rw [hs']
      exact (h.lead (current_mem hme) hleader fun q hq heq => hfirst q hq (by rw [heq])).1
  | fork current child parent =>
    obtain ⟨me, hme, hs⟩ := Option.bind_eq_some_iff.1 hs
    obtain ⟨hnew, hs⟩ := Option.ite_none_right_eq_some.1 hs
    obtain rfl := Option.some.inj hs
    exact h.fork (current_mem hme) hnew
  | clone current tid =>
    obtain ⟨me, hme, hs⟩ := Option.bind_eq_some_iff.1 hs
    obtain ⟨-, hs⟩ := Option.ite_none_right_eq_some.1 hs
    obtain rfl := Option.some.inj hs
    exact h.of_same (Finset.Subset.refl _) fun q => ⟨rfl, rfl, rfl⟩
  | exec current =>
    obtain ⟨me, hme, hs⟩ := Option.map_eq_some_iff.1 hs
    subst hs
    refine h.of_same (Finset.Subset.refl _) fun q => ?_
    by_cases hq : q = me
    · subst hq
      simp
    · simp [hq]
  | exit pid reaper =>
    obtain ⟨-, hs⟩ := Option.ite_none_right_eq_some.1 hs
    obtain rfl := Option.some.inj hs
    refine h.of_same (Finset.erase_subset _ _) fun q => ?_
    dsimp only
    split <;> simp

/-- **Groups and sessions.** -/
theorem session_law {events : List SessionEvent} {s : Processes}
    (hrun : Run.exec sessionStep events Processes.boot = some s) :
    (∀ p ∈ s.procs, ∀ q ∈ s.procs, (s.proc p).pgrp = (s.proc q).pgrp → (s.proc p).session = (s.proc q).session) ∧
      (∀ p ∈ s.procs, (s.proc p).leader = true → (s.proc p).pgrp = p ∧ (s.proc p).session = p) ∧
      ∀ p ∈ s.procs, ∀ first, IsFirst s p first → ∀ sid s', sys_setsid first p s = (.ok sid, s') →
        sid = p ∧ (s'.proc p).pgrp = p ∧ (s'.proc p).session = p ∧ (s'.proc p).tty = none ∧
          ∀ q ∈ s'.procs, q ≠ p → (s'.proc q).pgrp ≠ p ∧ (s'.proc q).session ≠ p := by
  have hs : Ordered s := Run.invariant' (fun _ _ _ => sessionStep_ordered) boot_ordered hrun
  refine ⟨hs.group, hs.leader, fun p hp first hfirst sid s' hcall => ?_⟩
  unfold sys_setsid at hcall
  split at hcall
  · cases hcall
  next hleader =>
  split at hcall
  · cases hcall
  next hnone =>
  have hnone : first = none := by simpa using hnone
  subst hnone
  have hgroup : ∀ q ∈ s.procs, (s.proc q).pgrp ≠ p := fun q hq heq => hfirst q hq (by rw [heq])
  have halone := (hs.lead hp (by simpa using hleader) hgroup).2
  cases hcall
  refine ⟨rfl, by simp, by simp, by simp, fun q hq hne => ?_⟩
  simp only [Function.update_of_ne hne]
  exact ⟨hgroup q hq, halone q hq hne⟩

/-- A child that becomes a session leader, and a child of its that gets a group of its own. -/
def sampleSession : List SessionEvent :=
  [.fork 1 2 1, .setsid 2 none, .fork 2 3 2, .setpgid 2 3 0 (.ok ()) none]

theorem session_law_sample : ∃ s, Run.exec sessionStep sampleSession Processes.boot = some s ∧
    ∀ p ∈ s.procs, ∀ q ∈ s.procs, (s.proc p).pgrp = (s.proc q).pgrp → (s.proc p).session = (s.proc q).session := by
  obtain ⟨s, hrun⟩ : ∃ s, Run.exec sessionStep sampleSession Processes.boot = some s := ⟨_, rfl⟩
  exact ⟨s, hrun, (session_law hrun).1⟩

/-! ## The calls that ask -/

/-- Each thread is one of a process that is there. -/
def Attached (s : Processes) : Prop := ∀ tid p, s.thread tid = some p → p ∈ s.procs

theorem sessionStep_attached {e : SessionEvent} (h : Attached s) (hs : sessionStep e s = some s') : Attached s' := by
  cases e with
  | setpgid current pid pgid lsm first =>
    obtain ⟨me, -, hs⟩ := Option.bind_eq_some_iff.1 hs
    obtain ⟨-, hs⟩ := Option.ite_none_right_eq_some.1 hs
    obtain rfl := Option.some.inj hs
    rcases setpgid_spec lsm first me pid pgid s with hsame | ⟨q, -, g, hs', -⟩
    · rwa [hsame]
    · rw [hs']
      exact h
  | setsid current first =>
    obtain ⟨me, -, hs⟩ := Option.bind_eq_some_iff.1 hs
    obtain ⟨-, hs⟩ := Option.ite_none_right_eq_some.1 hs
    obtain rfl := Option.some.inj hs
    rcases setsid_spec first me s with hsame | ⟨-, -, hs'⟩
    · rwa [hsame]
    · rw [hs']
      exact h
  | fork current child parent =>
    obtain ⟨me, -, hs⟩ := Option.bind_eq_some_iff.1 hs
    obtain ⟨-, hs⟩ := Option.ite_none_right_eq_some.1 hs
    obtain rfl := Option.some.inj hs
    exact fun tid p hp => Finset.mem_insert_of_mem (h tid p hp)
  | clone current tid =>
    obtain ⟨me, hme, hs⟩ := Option.bind_eq_some_iff.1 hs
    obtain ⟨-, hs⟩ := Option.ite_none_right_eq_some.1 hs
    obtain rfl := Option.some.inj hs
    have hmem := current_mem hme
    intro t p hp
    dsimp only at hp
    by_cases ht : t = tid
    · rw [ht, Function.update_self, Option.some.injEq] at hp
      subst hp
      exact hmem
    · rw [Function.update_of_ne ht] at hp
      exact h t p hp
  | exec current =>
    obtain ⟨me, -, hs⟩ := Option.map_eq_some_iff.1 hs
    subst hs
    exact h
  | exit pid reaper =>
    obtain ⟨-, hs⟩ := Option.ite_none_right_eq_some.1 hs
    obtain rfl := Option.some.inj hs
    intro t p hp
    obtain ⟨hne, hp⟩ := Option.ite_none_left_eq_some.1 hp
    exact Finset.mem_erase.2 ⟨fun heq => hne (heq ▸ hp), h t p hp⟩

/-- The process that a call with this `pid` is about. -/
def Processes.asked (s : Processes) (group_leader : ℕ) (pid : ℤ) : Option ℕ :=
  if pid = 0 then some group_leader else (find_task_by_vpid s pid).bind s.leaderOf

theorem asked_mem {me : ℕ} (h : Attached s) (hme : me ∈ s.procs) (hp : s.asked me pid = some p) : p ∈ s.procs := by
  unfold Processes.asked at hp
  split at hp
  · exact Option.some.inj hp ▸ hme
  · obtain ⟨t, -, ht⟩ := Option.bind_eq_some_iff.1 hp
    unfold Processes.leaderOf at ht
    split at ht
    · next hmem => exact Option.some.inj ht ▸ hmem
    · exact h t p ht

theorem askProcess_spec {field : Process → ℕ} {me x : ℕ} (h : askProcess field lsm me pid s = .ok x) :
    ∃ p, s.asked me pid = some p ∧ field (s.proc p) = x := by
  unfold askProcess at h
  unfold Processes.asked
  split at h
  · next hzero => exact ⟨me, if_pos hzero, Except.ok.inj h⟩
  next hpid =>
  rw [if_neg hpid]
  split at h
  · cases h
  next p hp =>
  cases lsm with
  | error e => cases h
  | ok u => exact ⟨p, hp, Except.ok.inj h⟩

/-- **What is answered.** Two pids with the same answer from `getpgid` have the same one from `getsid`. -/
theorem getpgid_getsid {events : List SessionEvent} (hrun : Run.exec sessionStep events Processes.boot = some s)
    {me : ℕ} (hme : me ∈ s.procs) {pid' : ℤ} {g sid sid' : ℕ} {l₁ l₂ l₃ l₄ : Except Errno Unit}
    (hg : sys_getpgid l₁ me pid s = .ok g) (hg' : sys_getpgid l₂ me pid' s = .ok g)
    (hsid : sys_getsid l₃ me pid s = .ok sid) (hsid' : sys_getsid l₄ me pid' s = .ok sid') : sid = sid' := by
  have hs : Ordered s := Run.invariant' (fun _ _ _ => sessionStep_ordered) boot_ordered hrun
  have hattached : Attached s := Run.invariant' (fun _ _ _ => sessionStep_attached) (fun _ _ hp => by cases hp) hrun
  obtain ⟨p, hp, hpg⟩ := askProcess_spec hg
  obtain ⟨q, hq, hqg⟩ := askProcess_spec hg'
  obtain ⟨p', hp', rfl⟩ := askProcess_spec hsid
  obtain ⟨q', hq', rfl⟩ := askProcess_spec hsid'
  obtain rfl : p = p' := Option.some.inj (hp.symm.trans hp')
  obtain rfl : q = q' := Option.some.inj (hq.symm.trans hq')
  exact hs.group p (asked_mem hattached hme hp) q (asked_mem hattached hme hq) (hpg.trans hqg.symm)

/-! ## After `exec` -/

/-- What others do to a process that has called `exec`. -/
theorem sessionStep_other {e : SessionEvent} (hp : p ∈ s.procs) (hexec : (s.proc p).did_exec = true)
    (hactor : actor e s ≠ some p) (hs : sessionStep e s = some s') :
    p ∈ s'.procs ∧ (s'.proc p).did_exec = true ∧ (s'.proc p).pgrp = (s.proc p).pgrp ∧
      (s'.proc p).session = (s.proc p).session := by
  cases e with
  | setpgid current pid pgid lsm first =>
    obtain ⟨me, hme, hs⟩ := Option.bind_eq_some_iff.1 hs
    obtain ⟨-, hs⟩ := Option.ite_none_right_eq_some.1 hs
    obtain rfl := Option.some.inj hs
    rcases setpgid_spec lsm first me pid pgid s with hsame | ⟨q, hq, g, hs', hwho, -, -, -⟩
    · rw [hsame]
      exact ⟨hp, hexec, rfl, rfl⟩
    · have hne : p ≠ q := by
        rintro rfl
        rcases hwho with rfl | ⟨-, -, hno⟩
        · exact hactor hme
        · rw [hexec] at hno
          cases hno
      rw [hs']
      simp [hne, hp, hexec]
  | setsid current first =>
    obtain ⟨me, hme, hs⟩ := Option.bind_eq_some_iff.1 hs
    obtain ⟨-, hs⟩ := Option.ite_none_right_eq_some.1 hs
    obtain rfl := Option.some.inj hs
    have hne : p ≠ me := by
      rintro rfl
      exact hactor hme
    rcases setsid_spec first me s with hsame | ⟨-, -, hs'⟩
    · rw [hsame]
      exact ⟨hp, hexec, rfl, rfl⟩
    · rw [hs']
      simp [hne, hp, hexec]
  | fork current child parent =>
    obtain ⟨me, hme, hs⟩ := Option.bind_eq_some_iff.1 hs
    obtain ⟨⟨hnew, -⟩, hs⟩ := Option.ite_none_right_eq_some.1 hs
    obtain rfl := Option.some.inj hs
    have hne : p ≠ child := by
      rintro rfl
      simp [Processes.leaderOf, hp] at hnew
    simp [hne, hp, hexec]
  | clone current tid =>
    obtain ⟨me, hme, hs⟩ := Option.bind_eq_some_iff.1 hs
    obtain ⟨-, hs⟩ := Option.ite_none_right_eq_some.1 hs
    obtain rfl := Option.some.inj hs
    exact ⟨hp, hexec, rfl, rfl⟩
  | exec current =>
    obtain ⟨me, hme, hs⟩ := Option.map_eq_some_iff.1 hs
    subst hs
    have hne : p ≠ me := by
      rintro rfl
      exact hactor hme
    simp [hne, hp, hexec]
  | exit pid reaper =>
    obtain ⟨-, hs⟩ := Option.ite_none_right_eq_some.1 hs
    obtain rfl := Option.some.inj hs
    have hne : p ≠ pid := fun heq => hactor (by rw [heq]; rfl)
    refine ⟨Finset.mem_erase.2 ⟨hne, hp⟩, ?_⟩
    dsimp only
    split <;> simp [hexec]

/-- **After `exec`.** -/
theorem exec_law {events : List SessionEvent} {s s' : Processes} {p : ℕ} (hp : p ∈ s.procs)
    (hexec : (s.proc p).did_exec = true) (hothers : Run.Along sessionStep (fun e s => actor e s ≠ some p) events s)
    (hrun : Run.exec sessionStep events s = some s') :
    p ∈ s'.procs ∧ (s'.proc p).pgrp = (s.proc p).pgrp ∧ (s'.proc p).session = (s.proc p).session := by
  have hstep : ∀ e s₁ s₂, actor e s₁ ≠ some p →
      (p ∈ s₁.procs ∧ (s₁.proc p).did_exec = true ∧ (s₁.proc p).pgrp = (s.proc p).pgrp ∧
        (s₁.proc p).session = (s.proc p).session) → sessionStep e s₁ = some s₂ →
      (p ∈ s₂.procs ∧ (s₂.proc p).did_exec = true ∧ (s₂.proc p).pgrp = (s.proc p).pgrp ∧
        (s₂.proc p).session = (s.proc p).session) := by
    rintro e s₁ s₂ hactor ⟨hp₁, hexec₁, hpgrp₁, hsession₁⟩ hs₂
    obtain ⟨hp₂, hexec₂, hpgrp₂, hsession₂⟩ := sessionStep_other hp₁ hexec₁ hactor hs₂
    exact ⟨hp₂, hexec₂, hpgrp₂.trans hpgrp₁, hsession₂.trans hsession₁⟩
  obtain ⟨hp', -, hpgrp, hsession⟩ := Run.invariant hstep hothers ⟨hp, hexec, rfl, rfl⟩ hrun
  exact ⟨hp', hpgrp, hsession⟩

/-- Process 2 has called `exec`; its parent tries to change its group. -/
def sampleExec : Processes where
  procs := {1, 2}
  proc p := ⟨1, 1, 1, p = 2, p = 1, none⟩
  thread _ := none

theorem exec_law_sample : ∃ s', Run.exec sessionStep [.setpgid 1 2 2 (.ok ()) none] sampleExec = some s' ∧
    (s'.proc 2).pgrp = 1 := by
  obtain ⟨s', hrun⟩ : ∃ s', Run.exec sessionStep [.setpgid 1 2 2 (.ok ()) none] sampleExec = some s' := ⟨_, rfl⟩
  have hothers : Run.Along sessionStep (fun e s => actor e s ≠ some 2) [.setpgid 1 2 2 (.ok ()) none] sampleExec :=
    ⟨by decide, fun _ _ => trivial⟩
  exact ⟨s', hrun, (exec_law (by decide) rfl hothers hrun).2.1⟩

end Sys
