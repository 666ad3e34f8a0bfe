import LinuxLearning.Lib.Run
import LinuxLearning.Sys.Basic
/-!
# `sys.c`: the user and group ids of a task

| here | there (`KernelDrivers_March2011/sys.c`) |
| --- | --- |
| `sys_setregid`  | `:482-524` |
| `sys_setgid`    | `:531-559` |
| `set_user`      | `:561-584` |
| `sys_setreuid`  | `:601-648` |
| `sys_setuid`    | `:663-695` |
| `sys_setresuid` | `:702-743` |
| `sys_setresgid` | `:759-794` |
| `sys_setfsuid`  | `:814-838` |
| `sys_setfsgid`  | `:843-863` |

`Answers` are those of code that is elsewhere: the security module (`security_task_setuid`, `security_task_setgid`,
`security_task_post_setuid`), `capable`, and `alloc_uid`, which may find no memory. `switch_uid` is elsewhere, too, and
what it is documented to do is assumed: it moves the task from the count of its old user to that of the new one. There is one user namespace, whose root user is
user 0. `key_fsuid_changed` and `proc_id_connector` only report the change.

* `callStep_effect` — what any of the calls can do;
* `uid_reach_iff`, `gid_reach_iff` — exactly the ids that a task can give itself without the capability;
* `dumpable_law` — as soon as a task has changed what it acts as, it is dumpable only as far as `suid_dumpable` says;
* `shadow_law` — without `setfsuid` and `setfsgid` the file system ids are the effective ones.
-/

namespace Sys

/-- `(uid_t) -1`: this id is to stay as it is. -/
def keep : Id := -1

/-- `current` -/
structure Current where
  uid : Id
  euid : Id
  suid : Id
  fsuid : Id
  gid : Id
  egid : Id
  sgid : Id
  fsgid : Id
  /-- of `current->mm` -/
  dumpable : ℕ
  /-- `current->user`, by its id -/
  user : Id
  /-- `current->signal->rlim[RLIMIT_NPROC].rlim_cur` -/
  nproc : ℕ
  /-- the counts of all users -/
  processes : Id → ℤ

structure Answers where
  lsm : Except Errno Unit
  capable : Bool
  alloc : Bool
  post : Except Errno Unit

inductive Call
  | setregid (rgid egid : Id)
  | setgid (gid : Id)
  | setreuid (ruid euid : Id)
  | setuid (uid : Id)
  | setresuid (ruid euid suid : Id)
  | setresgid (rgid egid sgid : Id)
  | setfsuid (uid : Id)
  | setfsgid (gid : Id)

-- a setting of the system
variable (suid_dumpable : ℕ)

/-- `if (...) set_dumpable(current->mm, suid_dumpable)` -/
def set_dumpable (cond : Prop) [Decidable cond] (c : Current) : Current :=
  if cond then { c with dumpable := suid_dumpable } else c

def sys_setregid (a : Answers) (rgid egid : Id) (c : Current) : Except Errno Unit × Current :=
  match a.lsm with
  | .error e => (.error e, c)
  | .ok () =>
    if rgid ≠ keep ∧ ¬ (c.gid = rgid ∨ c.egid = rgid ∨ a.capable) then (.error .EPERM, c)
    else if egid ≠ keep ∧ ¬ (c.gid = egid ∨ c.egid = egid ∨ c.sgid = egid ∨ a.capable) then (.error .EPERM, c)
    else
      let new_rgid := if rgid ≠ keep then rgid else c.gid
      let new_egid := if egid ≠ keep then egid else c.egid
      let c' := set_dumpable suid_dumpable (new_egid ≠ c.egid) c
      (.ok (), { c' with
        sgid := if rgid ≠ keep ∨ egid ≠ keep ∧ egid ≠ c.gid then new_egid else c'.sgid
        fsgid := new_egid
        egid := new_egid
        gid := new_rgid })

def sys_setgid (a : Answers) (gid : Id) (c : Current) : Except Errno Unit × Current :=
  match a.lsm with
  | .error e => (.error e, c)
  | .ok () =>
    if a.capable then
      (.ok (), { set_dumpable suid_dumpable (c.egid ≠ gid) c with gid := gid, egid := gid, sgid := gid, fsgid := gid })
    else if gid = c.gid ∨ gid = c.sgid then
      (.ok (), { set_dumpable suid_dumpable (c.egid ≠ gid) c with egid := gid, fsgid := gid })
    else (.error .EPERM, c)

/-- One task less of the old user, one more of the new one. -/
def switch_uid (new_user : Id) (c : Current) : Current :=
  let counted := Function.update c.processes new_user (c.processes new_user + 1)
  { c with user := new_user, processes := Function.update counted c.user (counted c.user - 1) }

def set_user (a : Answers) (new_ruid : Id) (dumpclear : Prop) [Decidable dumpclear] (c : Current) :
    Except Errno Current :=
  if !a.alloc then .error .EAGAIN
  else if c.processes new_ruid ≥ c.nproc ∧ new_ruid ≠ 0 then .error .EAGAIN
  else .ok { set_dumpable suid_dumpable dumpclear (switch_uid new_ruid c) with uid := new_ruid }

def sys_setreuid (a : Answers) (ruid euid : Id) (c : Current) : Except Errno Unit × Current :=
  match a.lsm with
  | .error e => (.error e, c)
  | .ok () =>
    if ruid ≠ keep ∧ c.uid ≠ ruid ∧ c.euid ≠ ruid ∧ !a.capable then (.error .EPERM, c)
    else if euid ≠ keep ∧ c.uid ≠ euid ∧ c.euid ≠ euid ∧ c.suid ≠ euid ∧ !a.capable then (.error .EPERM, c)
    else
      let new_ruid := if ruid ≠ keep then ruid else c.uid
      let new_euid := if euid ≠ keep then euid else c.euid
      match if new_ruid ≠ c.uid then set_user suid_dumpable a new_ruid (new_euid ≠ c.euid) c else .ok c with
      | .error _ => (.error .EAGAIN, c)
      | .ok c' =>
        (a.post, { set_dumpable suid_dumpable (new_euid ≠ c.euid) c' with
          fsuid := new_euid
          euid := new_euid
          suid := if ruid ≠ keep ∨ euid ≠ keep ∧ euid ≠ c.uid then new_euid else c.suid })

def sys_setuid (a : Answers) (uid : Id) (c : Current) : Except Errno Unit × Current :=
  match a.lsm with
  | .error e => (.error e, c)
  | .ok () =>
    if a.capable then
      match if uid ≠ c.uid then set_user suid_dumpable a uid (c.euid ≠ uid) c else .ok c with
      | .error _ => (.error .EAGAIN, c)
      | .ok c' =>
        (a.post, { set_dumpable suid_dumpable (c.euid ≠ uid) c' with fsuid := uid, euid := uid, suid := uid })
    else if uid ≠ c.uid ∧ uid ≠ c.suid then (.error .EPERM, c)
    else (a.post, { set_dumpable suid_dumpable (c.euid ≠ uid) c with fsuid := uid, euid := uid, suid := c.suid })

/-- One of the checks of `setresuid` and `setresgid`: `id` is one of the three the task has. -/
def mayHave (id x y z : Id) : Prop := id = keep ∨ id = x ∨ id = y ∨ id = z

instance (id x y z : Id) : Decidable (mayHave id x y z) := inferInstanceAs (Decidable (_ ∨ _))

def sys_setresuid (a : Answers) (ruid euid suid : Id) (c : Current) : Except Errno Unit × Current :=
  match a.lsm with
  | .error e => (.error e, c)
  | .ok () =>
    if !a.capable ∧ ¬ (mayHave ruid c.uid c.euid c.suid ∧ mayHave euid c.uid c.euid c.suid ∧
        mayHave suid c.uid c.euid c.suid) then (.error .EPERM, c)
    else
      -- where `euid` is -1, it differs from `current->euid` as well
      match if ruid ≠ keep ∧ ruid ≠ c.uid then set_user suid_dumpable a ruid (euid ≠ c.euid) c else .ok c with
      | .error _ => (.error .EAGAIN, c)
      | .ok c₁ =>
        let c₂ := if euid ≠ keep then { set_dumpable suid_dumpable (euid ≠ c₁.euid) c₁ with euid := euid } else c₁
        (a.post, { c₂ with fsuid := c₂.euid, suid := if suid ≠ keep then suid else c₂.suid })

def sys_setresgid (a : Answers) (rgid egid sgid : Id) (c : Current) : Except Errno Unit × Current :=
  match a.lsm with
  | .error e => (.error e, c)
  | .ok () =>
    if !a.capable ∧ ¬ (mayHave rgid c.gid c.egid c.sgid ∧ mayHave egid c.gid c.egid c.sgid ∧
        mayHave sgid c.gid c.egid c.sgid) then (.error .EPERM, c)
    else
      let c' := if egid ≠ keep then { set_dumpable suid_dumpable (egid ≠ c.egid) c with egid := egid } else c
      (.ok (), { c' with
        fsgid := c'.egid
        gid := if rgid ≠ keep then rgid else c'.gid
        sgid := if sgid ≠ keep then sgid else c'.sgid })

/-- It returns the old `fsuid`. -/
def sys_setfsuid (a : Answers) (uid : Id) (c : Current) : Id × Current :=
  match a.lsm with
  | .error _ => (c.fsuid, c)
  | .ok () =>
    if uid = c.uid ∨ uid = c.euid ∨ uid = c.suid ∨ uid = c.fsuid ∨ a.capable then
      (c.fsuid, { set_dumpable suid_dumpable (uid ≠ c.fsuid) c with fsuid := uid })
    else (c.fsuid, c)

def sys_setfsgid (a : Answers) (gid : Id) (c : Current) : Id × Current :=
  match a.lsm with
  | .error _ => (c.fsgid, c)
  | .ok () =>
    if gid = c.gid ∨ gid = c.egid ∨ gid = c.sgid ∨ gid = c.fsgid ∨ a.capable then
      (c.fsgid, { set_dumpable suid_dumpable (gid ≠ c.fsgid) c with fsgid := gid })
    else (c.fsgid, c)

def callStep (a : Answers) (call : Call) (c : Current) : Except Errno Unit × Current :=
  match call with
  | .setregid rgid egid => sys_setregid suid_dumpable a rgid egid c
  | .setgid gid => sys_setgid suid_dumpable a gid c
  | .setreuid ruid euid => sys_setreuid suid_dumpable a ruid euid c
  | .setuid uid => sys_setuid suid_dumpable a uid c
  | .setresuid ruid euid suid => sys_setresuid suid_dumpable a ruid euid suid c
  | .setresgid rgid egid sgid => sys_setresgid suid_dumpable a rgid egid sgid c
  | .setfsuid uid => (.ok (), (sys_setfsuid suid_dumpable a uid c).2)
  | .setfsgid gid => (.ok (), (sys_setfsgid suid_dumpable a gid c).2)

/-! ## What a call can do -/

def SameUids (c c' : Current) : Prop :=
  c'.uid = c.uid ∧ c'.euid = c.euid ∧ c'.suid = c.suid ∧ c'.fsuid = c.fsuid

def SameGids (c c' : Current) : Prop :=
  c'.gid = c.gid ∧ c'.egid = c.egid ∧ c'.sgid = c.sgid ∧ c'.fsgid = c.fsgid

def HasUid (c : Current) (x : Id) : Prop := x = c.uid ∨ x = c.euid ∨ x = c.suid

def HasGid (c : Current) (x : Id) : Prop := x = c.gid ∨ x = c.egid ∨ x = c.sgid

/-- The task counts for the user it is, or moves to another one, who has room for it. -/
def Counted (c c' : Current) : Prop :=
  (c'.uid = c.uid ∧ c'.user = c.user ∧ c'.processes = c.processes) ∨
    c'.uid ≠ c.uid ∧ c'.user = c'.uid ∧ c'.processes = (switch_uid c'.uid c).processes ∧
      (c.processes c'.uid < c.nproc ∨ c'.uid = 0)

/-- A call about user ids. -/
structure UidEffect (a : Answers) (c c' : Current) : Prop where
  confined : a.capable = false → SameUids c c' ∨ (∀ x, HasUid c' x → HasUid c x) ∧ HasUid c' c'.fsuid
  dumpable : c'.dumpable = suid_dumpable ∨
    c'.dumpable = c.dumpable ∧ c'.euid = c.euid ∧ (c'.fsuid = c.fsuid ∨ c'.fsuid = c.euid)
  counted : Counted c c'
  gids : SameGids c c'
  nproc : c'.nproc = c.nproc

/-- A call about group ids. -/
structure GidEffect (a : Answers) (c c' : Current) : Prop where
  confined : a.capable = false → SameGids c c' ∨ (∀ x, HasGid c' x → HasGid c x) ∧ HasGid c' c'.fsgid
  dumpable : c'.dumpable = suid_dumpable ∨
    c'.dumpable = c.dumpable ∧ c'.egid = c.egid ∧ (c'.fsgid = c.fsgid ∨ c'.fsgid = c.egid)
  uids : SameUids c c'
  counted : c'.user = c.user ∧ c'.processes = c.processes
  nproc : c'.nproc = c.nproc

variable {suid_dumpable : ℕ} {a : Answers} {c c' : Current}

theorem UidEffect.refl (a : Answers) (c : Current) : UidEffect suid_dumpable a c c :=
  ⟨fun _ => .inl ⟨rfl, rfl, rfl, rfl⟩, .inr ⟨rfl, rfl, .inl rfl⟩, .inl ⟨rfl, rfl, rfl⟩, ⟨rfl, rfl, rfl, rfl⟩, rfl⟩

theorem GidEffect.refl (a : Answers) (c : Current) : GidEffect suid_dumpable a c c :=
  ⟨fun _ => .inl ⟨rfl, rfl, rfl, rfl⟩, .inr ⟨rfl, rfl, .inl rfl⟩, ⟨rfl, rfl, rfl, rfl⟩, ⟨rfl, rfl⟩, rfl⟩

section

variable (cond : Prop) [Decidable cond] (c : Current)

@[simp] theorem set_dumpable_dumpable :
    (set_dumpable suid_dumpable cond c).dumpable = if cond then suid_dumpable else c.dumpable := by
  unfold set_dumpable
  split <;> rfl

@[simp] theorem set_dumpable_uid : (set_dumpable suid_dumpable cond c).uid = c.uid := by
  unfold set_dumpable
  split <;> rfl

@[simp] theorem set_dumpable_euid : (set_dumpable suid_dumpable cond c).euid = c.euid := by
  unfold set_dumpable
  split <;> rfl

@[simp] theorem set_dumpable_suid : (set_dumpable suid_dumpable cond c).suid = c.suid := by
  unfold set_dumpable
  split <;> rfl

@[simp] theorem set_dumpable_fsuid : (set_dumpable suid_dumpable cond c).fsuid = c.fsuid := by
  unfold set_dumpable
  split <;> rfl

@[simp] theorem set_dumpable_gid : (set_dumpable suid_dumpable cond c).gid = c.gid := by
  unfold set_dumpable
  split <;> rfl

@[simp] theorem set_dumpable_egid : (set_dumpable suid_dumpable cond c).egid = c.egid := by
  unfold set_dumpable
  split <;> rfl

@[simp] theorem set_dumpable_sgid : (set_dumpable suid_dumpable cond c).sgid = c.sgid := by
  unfold set_dumpable
  split <;> rfl

@[simp] theorem set_dumpable_fsgid : (set_dumpable suid_dumpable cond c).fsgid = c.fsgid := by
  unfold set_dumpable
  split <;> rfl

@[simp] theorem set_dumpable_user : (set_dumpable suid_dumpable cond c).user = c.user := by
  unfold set_dumpable
  split <;> rfl

@[simp] theorem set_dumpable_nproc : (set_dumpable suid_dumpable cond c).nproc = c.nproc := by
  unfold set_dumpable
  split <;> rfl

@[simp] theorem set_dumpable_processes : (set_dumpable suid_dumpable cond c).processes = c.processes := by
  unfold set_dumpable
  split <;> rfl

end

theorem set_user_eq_ok {new_ruid : Id} {dumpclear : Prop} [Decidable dumpclear]
    (h : set_user suid_dumpable a new_ruid dumpclear c = .ok c') :
    c' = { set_dumpable suid_dumpable dumpclear (switch_uid new_ruid c) with uid := new_ruid } ∧
      (c.processes new_ruid < c.nproc ∨ new_ruid = 0) := by
  unfold set_user at h
  split at h
  · cases h
  split at h
  · cases h
  · next hroom =>
    refine ⟨(Except.ok.inj h).symm, ?_⟩
    by_contra hno
    push Not at hno
    exact hroom hno

/-- The part of three calls that sets the real id, where it is to change. -/
theorem set_user_if {new_ruid : Id} {change dumpclear : Prop} [Decidable change] [Decidable dumpclear]
    (hchange : change → new_ruid ≠ c.uid)
    (h : (if change then set_user suid_dumpable a new_ruid dumpclear c else .ok c) = .ok c') :
    c'.uid = (if change then new_ruid else c.uid) ∧ c'.euid = c.euid ∧ c'.suid = c.suid ∧ c'.fsuid = c.fsuid ∧
      SameGids c c' ∧ c'.nproc = c.nproc ∧ Counted c c' ∧
      (c'.dumpable = c.dumpable ∨ c'.dumpable = suid_dumpable) := by
  by_cases hc : change
  · rw [if_pos hc] at h
    obtain ⟨rfl, hroom⟩ := set_user_eq_ok h
    refine ⟨by simp [hc], by simp [switch_uid], by simp [switch_uid], by simp [switch_uid], ?_, by simp [switch_uid],
      ?_, ?_⟩
    · simp [SameGids, switch_uid]
    · exact .inr ⟨hchange hc, by simp [switch_uid], by simp [switch_uid], hroom⟩
    · simp only [set_dumpable_dumpable, switch_uid]
      split
      · exact .inr rfl
      · exact .inl rfl
  · rw [if_neg hc] at h
    obtain rfl := Except.ok.inj h
    exact ⟨by simp [hc], rfl, rfl, rfl, ⟨rfl, rfl, rfl, rfl⟩, rfl, .inl ⟨rfl, rfl, rfl⟩, .inl rfl⟩

theorem sys_setregid_effect (rgid egid : Id) :
    GidEffect suid_dumpable a c (sys_setregid suid_dumpable a rgid egid c).2 := by
  unfold sys_setregid
  split
  · exact GidEffect.refl a c
  split
  · exact GidEffect.refl a c
  split
  · exact GidEffect.refl a c
  · next hr he =>
    refine ⟨fun hcap => .inr ⟨?_, ?_⟩, ?_, ?_, ?_, ?_⟩
    · simp only [HasGid, set_dumpable_sgid]
      grind
    · exact .inr (.inl rfl)
    · simp only [set_dumpable_dumpable]
      grind
    · simp [SameUids]
    · simp
    · simp

theorem sys_setgid_effect (gid : Id) : GidEffect suid_dumpable a c (sys_setgid suid_dumpable a gid c).2 := by
  unfold sys_setgid
  split
  · exact GidEffect.refl a c
  split
  · next hcap =>
    refine ⟨fun h => ?_, ?_, ?_, ?_, ?_⟩
    · rw [hcap] at h
      cases h
    · simp only [set_dumpable_dumpable]
      grind
    · simp [SameUids]
    · simp
    · simp
  split
  · next hgid =>
    refine ⟨fun hcap => .inr ⟨?_, ?_⟩, ?_, ?_, ?_, ?_⟩
    · simp only [HasGid, set_dumpable_gid, set_dumpable_sgid]
      grind
    · exact .inr (.inl rfl)
    · simp only [set_dumpable_dumpable]
      grind
    · simp [SameUids]
    · simp
    · simp
  · exact GidEffect.refl a c

theorem sys_setresgid_effect (rgid egid sgid : Id) :
    GidEffect suid_dumpable a c (sys_setresgid suid_dumpable a rgid egid sgid c).2 := by
  unfold sys_setresgid
  split
  · exact GidEffect.refl a c
  split
  · exact GidEffect.refl a c
  · next hmay =>
    dsimp only
    refine ⟨fun hcap => .inr ⟨?_, ?_⟩, ?_, ?_, ?_, ?_⟩
    · simp only [hcap, Bool.not_false, true_and, not_not, mayHave] at hmay
      simp only [HasGid]
      split <;> simp only [set_dumpable_gid, set_dumpable_sgid] <;> grind
    · exact .inr (.inl rfl)
    · split
      · simp only [set_dumpable_dumpable]
        grind
      · exact .inr ⟨rfl, rfl, .inr rfl⟩
    · split <;> simp [SameUids]
    · split <;> simp
    · split <;> simp

theorem sys_setfsgid_effect (gid : Id) : GidEffect suid_dumpable a c (sys_setfsgid suid_dumpable a gid c).2 := by
  unfold sys_setfsgid
  split
  · exact GidEffect.refl a c
  split
  · next hgid =>
    refine ⟨fun hcap => ?_, ?_, ?_, ?_, ?_⟩
    · simp only [SameGids, HasGid, set_dumpable_gid, set_dumpable_egid, set_dumpable_sgid]
      grind
    · simp only [set_dumpable_dumpable, set_dumpable_egid]
      grind
    · simp [SameUids]
    · simp
    · simp
  · exact GidEffect.refl a c

theorem sys_setreuid_effect (ruid euid : Id) :
    UidEffect suid_dumpable a c (sys_setreuid suid_dumpable a ruid euid c).2 := by
  unfold sys_setreuid
  split
  · exact UidEffect.refl a c
  split
  · exact UidEffect.refl a c
  split
  · exact UidEffect.refl a c
  · next hr he =>
    dsimp only
    split
    · exact UidEffect.refl a c
    · next c' hset =>
      obtain ⟨huid, heuid, hsuid, hfsuid, hgids, hnproc, hcounted, hdump⟩ := set_user_if id hset
      refine ⟨fun hcap => .inr ⟨?_, .inr (.inl rfl)⟩, ?_, ?_, ?_, ?_⟩
      · simp only [HasUid, set_dumpable_uid, huid]
        grind
      · simp only [set_dumpable_dumpable]
        grind
      · simpa [Counted] using hcounted
      · simpa [SameGids] using hgids
      · simpa using hnproc

theorem sys_setuid_effect (uid : Id) : UidEffect suid_dumpable a c (sys_setuid suid_dumpable a uid c).2 := by
  unfold sys_setuid
  split
  · exact UidEffect.refl a c
  split
  · next hcap =>
    split
    · exact UidEffect.refl a c
    · next c' hset =>
      obtain ⟨huid, heuid, hsuid, hfsuid, hgids, hnproc, hcounted, hdump⟩ := set_user_if id hset
      refine ⟨fun h => ?_, ?_, ?_, ?_, ?_⟩
      · rw [hcap] at h
        cases h
      · simp only [set_dumpable_dumpable]
        grind
      · simpa [Counted] using hcounted
      · simpa [SameGids] using hgids
      · simpa using hnproc
  split
  · exact UidEffect.refl a c
  · next huid =>
    refine ⟨fun hcap => .inr ⟨?_, .inr (.inl rfl)⟩, ?_, ?_, ?_, ?_⟩
    · simp only [HasUid, set_dumpable_uid]
      grind
    · simp only [set_dumpable_dumpable]
      grind
    · exact .inl (by simp)
    · simp [SameGids]
    · simp

theorem sys_setresuid_effect (ruid euid suid : Id) :
    UidEffect suid_dumpable a c (sys_setresuid suid_dumpable a ruid euid suid c).2 := by
  unfold sys_setresuid
  split
  · exact UidEffect.refl a c
  split
  · exact UidEffect.refl a c
  · next hmay =>
    split
    · exact UidEffect.refl a c
    · next c' hset =>
      obtain ⟨huid, heuid, hsuid, hfsuid, hgids, hnproc, hcounted, hdump⟩ := set_user_if And.right hset
      dsimp only
      refine ⟨fun hcap => .inr ⟨?_, .inr (.inl rfl)⟩, ?_, ?_, ?_, ?_⟩
      · simp only [hcap, Bool.not_false, true_and, not_not, mayHave] at hmay
        simp only [HasUid]
        split <;> simp only [set_dumpable_uid, set_dumpable_suid, huid] <;> grind
      · split
        · simp only [set_dumpable_dumpable]
          grind
        · grind
      · split <;> simpa [Counted] using hcounted
      · split <;> simpa [SameGids] using hgids
      · split <;> simpa using hnproc

theorem sys_setfsuid_effect (uid : Id) : UidEffect suid_dumpable a c (sys_setfsuid suid_dumpable a uid c).2 := by
  unfold sys_setfsuid
  split
  · exact UidEffect.refl a c
  split
  · next huid =>
    refine ⟨fun hcap => ?_, ?_, ?_, ?_, ?_⟩
    · simp only [SameUids, HasUid, set_dumpable_uid, set_dumpable_euid, set_dumpable_suid]
      grind
    · simp only [set_dumpable_dumpable, set_dumpable_euid]
      grind
    · exact .inl (by simp)
    · simp [SameGids]
    · simp
  · exact UidEffect.refl a c

/-- **What a call can do.** -/
theorem callStep_effect (suid_dumpable : ℕ) (a : Answers) (call : Call) (c : Current) :
    UidEffect suid_dumpable a c (callStep suid_dumpable a call c).2 ∨
      GidEffect suid_dumpable a c (callStep suid_dumpable a call c).2 := by
  cases call with
  | setregid rgid egid => exact .inr (sys_setregid_effect rgid egid)
  | setgid gid => exact .inr (sys_setgid_effect gid)
  | setreuid ruid euid => exact .inl (sys_setreuid_effect ruid euid)
  | setuid uid => exact .inl (sys_setuid_effect uid)
  | setresuid ruid euid suid => exact .inl (sys_setresuid_effect ruid euid suid)
  | setresgid rgid egid sgid => exact .inr (sys_setresgid_effect rgid egid sgid)
  | setfsuid uid => exact .inl (sys_setfsuid_effect uid)
  | setfsgid gid => exact .inr (sys_setfsgid_effect gid)

/-! ## Runs -/

/-- Calls one after the other, each with what the rest of the kernel answers. -/
def callRun (suid_dumpable : ℕ) (x : Answers × Call) (c : Current) : Option Current :=
  some (callStep suid_dumpable x.1 x.2 c).2

theorem callRun_total (suid_dumpable : ℕ) (calls : List (Answers × Call)) (c : Current) :
    ∃ c', Run.exec (callRun suid_dumpable) calls c = some c' := Run.exec_total (fun _ _ => ⟨_, rfl⟩) calls c

/-- What every call keeps holds after all calls. -/
theorem callRun_invariant (suid_dumpable : ℕ) {C : Answers × Call → Prop} {I : Current → Prop}
    (hstep : ∀ x c, C x → I c → I (callStep suid_dumpable x.1 x.2 c).2) {calls : List (Answers × Call)}
    (hcalls : ∀ x ∈ calls, C x) (hI : I c) (hrun : Run.exec (callRun suid_dumpable) calls c = some c') : I c' := by
  refine Run.invariant (C := fun x _ => C x) (fun x c₁ c₂ hx hc hs => ?_)
    (Run.along_of_mem (fun x hx _ => hcalls x hx) c) hI hrun
  cases hs
  exact hstep x c₁ hx hc

/-- No more than the ids of `c`. -/
def WithinUids (c c' : Current) : Prop :=
  SameUids c c' ∨ (∀ x, HasUid c' x → HasUid c x) ∧ HasUid c' c'.fsuid

def WithinGids (c c' : Current) : Prop :=
  SameGids c c' ∨ (∀ x, HasGid c' x → HasGid c x) ∧ HasGid c' c'.fsgid

theorem hasUid_same (h : SameUids c c') (x : Id) : HasUid c' x ↔ HasUid c x := by
  obtain ⟨huid, heuid, hsuid, -⟩ := h
  unfold HasUid
  rw [huid, heuid, hsuid]

theorem hasGid_same (h : SameGids c c') (x : Id) : HasGid c' x ↔ HasGid c x := by
  obtain ⟨hgid, hegid, hsgid, -⟩ := h
  unfold HasGid
  rw [hgid, hegid, hsgid]

theorem WithinUids.trans {c'' : Current} (h : WithinUids c c') (h' : WithinUids c' c'') : WithinUids c c'' := by
  rcases h' with hsame' | ⟨hsub', hfs'⟩
  · rcases h with ⟨huid, heuid, hsuid, hfsuid⟩ | ⟨hsub, hfs⟩
    · obtain ⟨huid', heuid', hsuid', hfsuid'⟩ := hsame'
      exact .inl ⟨huid'.trans huid, heuid'.trans heuid, hsuid'.trans hsuid, hfsuid'.trans hfsuid⟩
    · refine .inr ⟨fun x hx => hsub x ((hasUid_same hsame' x).1 hx), (hasUid_same hsame' _).2 ?_⟩
      rwa [hsame'.2.2.2]
  · refine .inr ⟨fun x hx => ?_, hfs'⟩
    rcases h with hsame | ⟨hsub, -⟩
    · exact (hasUid_same hsame x).1 (hsub' x hx)
    · exact hsub x (hsub' x hx)

theorem WithinGids.trans {c'' : Current} (h : WithinGids c c') (h' : WithinGids c' c'') : WithinGids c c'' := by
  rcases h' with hsame' | ⟨hsub', hfs'⟩
  · rcases h with ⟨hgid, hegid, hsgid, hfsgid⟩ | ⟨hsub, hfs⟩
    · obtain ⟨hgid', hegid', hsgid', hfsgid'⟩ := hsame'
      exact .inl ⟨hgid'.trans hgid, hegid'.trans hegid, hsgid'.trans hsgid, hfsgid'.trans hfsgid⟩
    · refine .inr ⟨fun x hx => hsub x ((hasGid_same hsame' x).1 hx), (hasGid_same hsame' _).2 ?_⟩
      rwa [hsame'.2.2.2]
  · refine .inr ⟨fun x hx => ?_, hfs'⟩
    rcases h with hsame | ⟨hsub, -⟩
    · exact (hasGid_same hsame x).1 (hsub' x hx)
    · exact hsub x (hsub' x hx)

/-- **Confinement.** -/
theorem within (suid_dumpable : ℕ) (call : Call) (c : Current) (hcap : a.capable = false) :
    WithinUids c (callStep suid_dumpable a call c).2 ∧ WithinGids c (callStep suid_dumpable a call c).2 := by
  rcases callStep_effect suid_dumpable a call c with h | h
  · exact ⟨h.confined hcap, .inl h.gids⟩
  · exact ⟨.inl h.uids, h.confined hcap⟩

/-- No call is refused for a reason outside, and the task does not have the capability. -/
def plain : Answers := ⟨.ok (), false, true, .ok ()⟩

theorem setresuid_plain (suid_dumpable : ℕ) {r e s : Id} (hkeep : ¬ HasUid c keep) (hr : HasUid c r)
    (he : HasUid c e) (hs : HasUid c s)
    (hroom : r = c.uid ∨ c.processes r < c.nproc ∨ r = 0) :
    (sys_setresuid suid_dumpable plain r e s c).2.uid = r ∧ (sys_setresuid suid_dumpable plain r e s c).2.euid = e ∧
      (sys_setresuid suid_dumpable plain r e s c).2.suid = s := by
  have hne : ∀ {x}, HasUid c x → x ≠ keep := fun hx heq => hkeep (heq ▸ hx)
  have hmay : ∀ {x}, HasUid c x → mayHave x c.uid c.euid c.suid := fun hx => .inr hx
  have hset : ∃ c', (if r ≠ keep ∧ r ≠ c.uid then set_user suid_dumpable plain r (e ≠ c.euid) c else .ok c) = .ok c' := by
    by_cases hru : r = c.uid
    · exact ⟨c, if_neg fun h => h.2 hru⟩
    · have hlimit : ¬ (c.processes r ≥ c.nproc ∧ r ≠ 0) := by
        rintro ⟨hfull, hroot⟩
        rcases hroom with h | h | h
        · exact hru h
        · omega
        · exact hroot h
      rw [if_pos ⟨hne hr, hru⟩]
      unfold set_user
      rw [if_neg hlimit]
      exact ⟨_, rfl⟩
  obtain ⟨c', hset⟩ := hset
  have huid := (set_user_if And.right hset).1
  have hpass : ¬ (!plain.capable ∧ ¬ (mayHave r c.uid c.euid c.suid ∧ mayHave e c.uid c.euid c.suid ∧
      mayHave s c.uid c.euid c.suid)) := fun h => h.2 ⟨hmay hr, hmay he, hmay hs⟩
  unfold sys_setresuid
  simp only [plain] at hset hpass ⊢
  rw [if_neg hpass, hset]
  simp only [if_pos (hne he), if_pos (hne hs), set_dumpable_uid, huid, and_self, and_true]
  by_cases hru : r = c.uid
  · rw [if_neg fun h => h.2 hru, hru]
  · rw [if_pos ⟨hne hr, hru⟩]

theorem setfsuid_plain (suid_dumpable : ℕ) {f : Id} (hf : HasUid c f) :
    (sys_setfsuid suid_dumpable plain f c).2.uid = c.uid ∧ (sys_setfsuid suid_dumpable plain f c).2.euid = c.euid ∧
      (sys_setfsuid suid_dumpable plain f c).2.suid = c.suid ∧ (sys_setfsuid suid_dumpable plain f c).2.fsuid = f := by
  unfold sys_setfsuid
  split
  · next h => cases h
  split
  · simp
  · next hrefused =>
    refine absurd ?_ hrefused
    exact hf.imp_right (Or.imp_right .inl)

/-- **User ids without the capability.** The real, effective and saved id can each become any of the three, and nothing
else; the file system id is one of the new ones. -/
theorem uid_reach_iff (suid_dumpable : ℕ) (c : Current) (hkeep : ¬ HasUid c keep)
    (hroom : ∀ x, HasUid c x → x = c.uid ∨ c.processes x < c.nproc ∨ x = 0) (r e s f : Id) :
    (∃ calls, (∀ x ∈ calls, x.1.capable = false) ∧ ∃ c', Run.exec (callRun suid_dumpable) calls c = some c' ∧
        c'.uid = r ∧ c'.euid = e ∧ c'.suid = s ∧ c'.fsuid = f) ↔
      (HasUid c r ∧ HasUid c e ∧ HasUid c s ∧ (f = r ∨ f = e ∨ f = s)) ∨
        r = c.uid ∧ e = c.euid ∧ s = c.suid ∧ f = c.fsuid := by
  constructor
  · rintro ⟨calls, hcap, c', hrun, rfl, rfl, rfl, rfl⟩
    have hwithin := callRun_invariant suid_dumpable (C := fun x => x.1.capable = false) (I := WithinUids c)
      (fun x c₁ hx h => h.trans (within suid_dumpable x.2 c₁ hx).1) hcap (.inl ⟨rfl, rfl, rfl, rfl⟩) hrun
    rcases hwithin with hsame | ⟨hsub, hfs⟩
    · exact .inr hsame
    · exact .inl ⟨hsub _ (.inl rfl), hsub _ (.inr (.inl rfl)), hsub _ (.inr (.inr rfl)), hfs⟩
  · rintro (⟨hr, he, hs, hf⟩ | ⟨rfl, rfl, rfl, rfl⟩)
    · -- the three ids at once, then the fourth
      refine ⟨[(plain, .setresuid r e s), (plain, .setfsuid f)], by simp [plain], _, rfl, ?_⟩
      obtain ⟨hr', he', hs'⟩ := setresuid_plain suid_dumpable hkeep hr he hs (hroom r hr)
      have hfs := setfsuid_plain suid_dumpable (c := (sys_setresuid suid_dumpable plain r e s c).2)
        (f := f) (by unfold HasUid; rwa [hr', he', hs'])
      exact ⟨hfs.1.trans hr', hfs.2.1.trans he', hfs.2.2.1.trans hs', hfs.2.2.2⟩
    · exact ⟨[], by simp, c, rfl, rfl, rfl, rfl, rfl⟩

theorem setresgid_plain (suid_dumpable : ℕ) {r e s : Id} (hkeep : ¬ HasGid c keep) (hr : HasGid c r)
    (he : HasGid c e) (hs : HasGid c s) :
    (sys_setresgid suid_dumpable plain r e s c).2.gid = r ∧ (sys_setresgid suid_dumpable plain r e s c).2.egid = e ∧
      (sys_setresgid suid_dumpable plain r e s c).2.sgid = s := by
  have hne : ∀ {x}, HasGid c x → x ≠ keep := fun hx heq => hkeep (heq ▸ hx)
  have hmay : ∀ {x}, HasGid c x → mayHave x c.gid c.egid c.sgid := fun hx => .inr hx
  have hpass : ¬ (!plain.capable ∧ ¬ (mayHave r c.gid c.egid c.sgid ∧ mayHave e c.gid c.egid c.sgid ∧
      mayHave s c.gid c.egid c.sgid)) := fun h => h.2 ⟨hmay hr, hmay he, hmay hs⟩
  unfold sys_setresgid
  simp only [plain] at hpass ⊢
  rw [if_neg hpass]
  simp [hne hr, hne he, hne hs]

theorem setfsgid_plain (suid_dumpable : ℕ) {f : Id} (hf : HasGid c f) :
    (sys_setfsgid suid_dumpable plain f c).2.gid = c.gid ∧ (sys_setfsgid suid_dumpable plain f c).2.egid = c.egid ∧
      (sys_setfsgid suid_dumpable plain f c).2.sgid = c.sgid ∧ (sys_setfsgid suid_dumpable plain f c).2.fsgid = f := by
  unfold sys_setfsgid
  split
  · next h => cases h
  split
  · simp
  · next hrefused =>
    refine absurd ?_ hrefused
    exact hf.imp_right (Or.imp_right .inl)

/-- **Group ids without the capability.** -/
theorem gid_reach_iff (suid_dumpable : ℕ) (c : Current) (hkeep : ¬ HasGid c keep) (r e s f : Id) :
    (∃ calls, (∀ x ∈ calls, x.1.capable = false) ∧ ∃ c', Run.exec (callRun suid_dumpable) calls c = some c' ∧
        c'.gid = r ∧ c'.egid = e ∧ c'.sgid = s ∧ c'.fsgid = f) ↔
      (HasGid c r ∧ HasGid c e ∧ HasGid c s ∧ (f = r ∨ f = e ∨ f = s)) ∨
        r = c.gid ∧ e = c.egid ∧ s = c.sgid ∧ f = c.fsgid := by
  constructor
  · rintro ⟨calls, hcap, c', hrun, rfl, rfl, rfl, rfl⟩
    have hwithin := callRun_invariant suid_dumpable (C := fun x => x.1.capable = false) (I := WithinGids c)
      (fun x c₁ hx h => h.trans (within suid_dumpable x.2 c₁ hx).2) hcap (.inl ⟨rfl, rfl, rfl, rfl⟩) hrun
    rcases hwithin with hsame | ⟨hsub, hfs⟩
    · exact .inr hsame
    · exact .inl ⟨hsub _ (.inl rfl), hsub _ (.inr (.inl rfl)), hsub _ (.inr (.inr rfl)), hfs⟩
  · rintro (⟨hr, he, hs, hf⟩ | ⟨rfl, rfl, rfl, rfl⟩)
    · refine ⟨[(plain, .setresgid r e s), (plain, .setfsgid f)], by simp [plain], _, rfl, ?_⟩
      obtain ⟨hr', he', hs'⟩ := setresgid_plain suid_dumpable hkeep hr he hs
      have hfs := setfsgid_plain suid_dumpable (c := (sys_setresgid suid_dumpable plain r e s c).2)
        (f := f) (by unfold HasGid; rwa [hr', he', hs'])
      exact ⟨hfs.1.trans hr', hfs.2.1.trans he', hfs.2.2.1.trans hs', hfs.2.2.2⟩
    · exact ⟨[], by simp, c, rfl, rfl, rfl, rfl, rfl⟩

/-- User 1, acting as user 2. -/
def sampleCurrent : Current where
  uid := 1
  euid := 2
  suid := 2
  fsuid := 2
  gid := 1
  egid := 2
  sgid := 2
  fsgid := 2
  dumpable := 1
  user := 1
  nproc := 10
  processes _ := 1

theorem uid_reach_iff_sample :
    (∃ calls, (∀ x ∈ calls, x.1.capable = false) ∧ ∃ c', Run.exec (callRun 0) calls sampleCurrent = some c' ∧
        c'.uid = 2 ∧ c'.euid = 1 ∧ c'.suid = 2 ∧ c'.fsuid = 1) ∧
      ¬ ∃ calls, (∀ x ∈ calls, x.1.capable = false) ∧ ∃ c', Run.exec (callRun 0) calls sampleCurrent = some c' ∧
        c'.uid = 2 ∧ c'.euid = 0 ∧ c'.suid = 2 ∧ c'.fsuid = 2 := by
  have hroom : ∀ x, HasUid sampleCurrent x → x = sampleCurrent.uid ∨
      sampleCurrent.processes x < sampleCurrent.nproc ∨ x = 0 := fun x _ => .inr (.inl (by simp [sampleCurrent]))
  have hkeep : ¬ HasUid sampleCurrent keep := by
    unfold HasUid
    decide
  rw [uid_reach_iff 0 sampleCurrent hkeep hroom, uid_reach_iff 0 sampleCurrent hkeep hroom]
  simp [HasUid, sampleCurrent]

theorem gid_reach_iff_sample :
    ¬ ∃ calls, (∀ x ∈ calls, x.1.capable = false) ∧ ∃ c', Run.exec (callRun 0) calls sampleCurrent = some c' ∧
      c'.gid = 1 ∧ c'.egid = 1 ∧ c'.sgid = 1 ∧ c'.fsgid = 2 := by
  have hkeep : ¬ HasGid sampleCurrent keep := by
    unfold HasGid
    decide
  rw [gid_reach_iff 0 sampleCurrent hkeep]
  simp [HasGid, sampleCurrent]

/-! ## `suid_dumpable` -/

/-- **Dumps.** After any calls, whatever they were allowed to do, the task is dumpable as `suid_dumpable` says, or it
acts with the ids it had. -/
theorem dumpable_law (suid_dumpable : ℕ) (calls : List (Answers × Call)) (c : Current) :
    ∃ c', Run.exec (callRun suid_dumpable) calls c = some c' ∧ (c'.dumpable = suid_dumpable ∨
      c'.dumpable = c.dumpable ∧ c'.euid = c.euid ∧ c'.egid = c.egid ∧
        (c'.fsuid = c.fsuid ∨ c'.fsuid = c.euid) ∧ (c'.fsgid = c.fsgid ∨ c'.fsgid = c.egid)) := by
  obtain ⟨c', hrun⟩ := callRun_total suid_dumpable calls c
  refine ⟨c', hrun, callRun_invariant suid_dumpable (C := fun _ => True) (I := fun c' => c'.dumpable = suid_dumpable ∨
      c'.dumpable = c.dumpable ∧ c'.euid = c.euid ∧ c'.egid = c.egid ∧
        (c'.fsuid = c.fsuid ∨ c'.fsuid = c.euid) ∧ (c'.fsgid = c.fsgid ∨ c'.fsgid = c.egid))
    (fun x c₁ _ h₁ => ?_) (fun _ _ => trivial) (.inr ⟨rfl, rfl, rfl, .inl rfl, .inl rfl⟩) hrun⟩
  rcases callStep_effect suid_dumpable x.1 x.2 c₁ with h | h
  · obtain ⟨-, hegid, -, hfsgid⟩ := h.gids
    rcases h.dumpable with hset | ⟨hdump, heuid, hfsuid⟩
    · exact .inl hset
    · rcases h₁ with hset | ⟨hdump₁, heuid₁, hegid₁, hfsuid₁, hfsgid₁⟩
      · exact .inl (hdump.trans hset)
      · refine .inr ⟨hdump.trans hdump₁, heuid.trans heuid₁, hegid.trans hegid₁, ?_, by rwa [hfsgid]⟩
        rcases hfsuid with hsame | hshadow
        · rwa [hsame]
        · exact .inr (hshadow.trans heuid₁)
  · obtain ⟨-, heuid, -, hfsuid⟩ := h.uids
    rcases h.dumpable with hset | ⟨hdump, hegid, hfsgid⟩
    · exact .inl hset
    · rcases h₁ with hset | ⟨hdump₁, heuid₁, hegid₁, hfsuid₁, hfsgid₁⟩
      · exact .inl (hdump.trans hset)
      · refine .inr ⟨hdump.trans hdump₁, heuid.trans heuid₁, hegid.trans hegid₁, by rwa [hfsuid], ?_⟩
        rcases hfsgid with hsame | hshadow
        · rwa [hsame]
        · exact .inr (hshadow.trans hegid₁)

/-! ## The file system ids -/

theorem uid_shadow (suid_dumpable : ℕ) (a : Answers) (c : Current) (call : Call) (hcall : ∀ uid, call ≠ .setfsuid uid) :
    SameUids c (callStep suid_dumpable a call c).2 ∨
      (callStep suid_dumpable a call c).2.fsuid = (callStep suid_dumpable a call c).2.euid := by
  have hsame : SameUids c c := ⟨rfl, rfl, rfl, rfl⟩
  cases call with
  | setregid rgid egid => exact .inl (sys_setregid_effect rgid egid).uids
  | setgid gid => exact .inl (sys_setgid_effect gid).uids
  | setresgid rgid egid sgid => exact .inl (sys_setresgid_effect rgid egid sgid).uids
  | setfsgid gid => exact .inl (sys_setfsgid_effect gid).uids
  | setfsuid uid => exact absurd rfl (hcall uid)
  | setreuid ruid euid =>
    unfold callStep sys_setreuid
    dsimp only
    split
    · exact .inl hsame
    split
    · exact .inl hsame
    split
    · exact .inl hsame
    split
    · exact .inl hsame
    · exact .inr rfl
  | setuid uid =>
    unfold callStep sys_setuid
    dsimp only
    split
    · exact .inl hsame
    split
    · split
      · exact .inl hsame
      · exact .inr rfl
    split
    · exact .inl hsame
    · exact .inr rfl
  | setresuid ruid euid suid =>
    unfold callStep sys_setresuid
    dsimp only
    split
    · exact .inl hsame
    split
    · exact .inl hsame
    split
    · exact .inl hsame
    · exact .inr rfl

theorem gid_shadow (suid_dumpable : ℕ) (a : Answers) (c : Current) (call : Call) (hcall : ∀ gid, call ≠ .setfsgid gid) :
    SameGids c (callStep suid_dumpable a call c).2 ∨
      (callStep suid_dumpable a call c).2.fsgid = (callStep suid_dumpable a call c).2.egid := by
  have hsame : SameGids c c := ⟨rfl, rfl, rfl, rfl⟩
  cases call with
  | setreuid ruid euid => exact .inl (sys_setreuid_effect ruid euid).gids
  | setuid uid => exact .inl (sys_setuid_effect uid).gids
  | setresuid ruid euid suid => exact .inl (sys_setresuid_effect ruid euid suid).gids
  | setfsuid uid => exact .inl (sys_setfsuid_effect uid).gids
  | setfsgid gid => exact absurd rfl (hcall gid)
  | setregid rgid egid =>
    unfold callStep sys_setregid
    dsimp only
    split
    · exact .inl hsame
    split
    · exact .inl hsame
    split
    · exact .inl hsame
    · exact .inr rfl
  | setgid gid =>
    unfold callStep sys_setgid
    dsimp only
    split
    · exact .inl hsame
    split
    · exact .inr rfl
    split
    · exact .inr rfl
    · exact .inl hsame
  | setresgid rgid egid sgid =>
    unfold callStep sys_setresgid
    dsimp only
    split
    · exact .inl hsame
    split
    · exact .inl hsame
    · exact .inr rfl

/-- **The shadow.** As long as there is no `setfsuid`, the file system id is the effective one once a call has changed
any of the ids, and stays so; the same for groups. -/
theorem shadow_law (suid_dumpable : ℕ) (calls : List (Answers × Call)) (c : Current) :
    ∃ c', Run.exec (callRun suid_dumpable) calls c = some c' ∧
      ((∀ x ∈ calls, ∀ uid, x.2 ≠ .setfsuid uid) → SameUids c c' ∨ c'.fsuid = c'.euid) ∧
      ((∀ x ∈ calls, ∀ gid, x.2 ≠ .setfsgid gid) → SameGids c c' ∨ c'.fsgid = c'.egid) := by
  obtain ⟨c', hrun⟩ := callRun_total suid_dumpable calls c
  refine ⟨c', hrun, fun hcalls => ?_, fun hcalls => ?_⟩
  · have hstep : ∀ (x : Answers × Call) (c₁ : Current), (∀ id, x.2 ≠ .setfsuid id) →
        SameUids c c₁ ∨ c₁.fsuid = c₁.euid → SameUids c (callStep suid_dumpable x.1 x.2 c₁).2 ∨
          (callStep suid_dumpable x.1 x.2 c₁).2.fsuid = (callStep suid_dumpable x.1 x.2 c₁).2.euid := by
      intro x c₁ hx h₁
      rcases uid_shadow suid_dumpable x.1 c₁ x.2 hx with
        ⟨huid, heuid, hsuid, hfsuid⟩ | hshadow
      · rw [SameUids, huid, heuid, hsuid, hfsuid]
        exact h₁
      · exact .inr hshadow
    exact callRun_invariant suid_dumpable hstep hcalls (.inl ⟨rfl, rfl, rfl, rfl⟩) hrun
  · have hstep : ∀ (x : Answers × Call) (c₁ : Current), (∀ id, x.2 ≠ .setfsgid id) →
        SameGids c c₁ ∨ c₁.fsgid = c₁.egid → SameGids c (callStep suid_dumpable x.1 x.2 c₁).2 ∨
          (callStep suid_dumpable x.1 x.2 c₁).2.fsgid = (callStep suid_dumpable x.1 x.2 c₁).2.egid := by
      intro x c₁ hx h₁
      rcases gid_shadow suid_dumpable x.1 c₁ x.2 hx with
        ⟨hgid, hegid, hsgid, hfsgid⟩ | hshadow
      · rw [SameGids, hgid, hegid, hsgid, hfsgid]
        exact h₁
      · exact .inr hshadow
    exact callRun_invariant suid_dumpable hstep hcalls (.inl ⟨rfl, rfl, rfl, rfl⟩) hrun

end Sys
