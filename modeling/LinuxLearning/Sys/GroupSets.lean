import LinuxLearning.Lib.Refs
import LinuxLearning.Lib.Run
import LinuxLearning.Sys.Groups
/-!
# `sys.c`: the supplementary groups of the tasks

| here | there (`KernelDrivers_March2011/sys.c`) |
| --- | --- |
| `GroupState`          | the `group_info`s that are allocated, the pages of their blocks, `current->group_info` of each task |
| `GroupState.boot`     | `init_groups` (`:1075`) |
| `groups_alloc`        | `:1077-1112` |
| `groups_free`         | `:1116-1124` |
| `set_current_groups`  | `:1221-1241` |
| `sys_setgroups`       | `:1278-1301` |
| `in_group_p`, `in_egroup_p` | `:1306-1322` |

`get_group_info` and `put_group_info` are macros of the kernel's headers, which are not here; what they are documented to
do is assumed: the count goes up, and down, and the last user calls `groups_free`. Around these functions tasks come and go: a task that is forked gets the `group_info` of its
parent and counts as one more user (`fork`), one that ends gives it up (`exit`), and other calls change its `fsgid` and
`egid` (`ids`). What `kmalloc`, `__get_free_page`, `capable` and the security module answer is up to them. `none` as
a next state means that something which has been freed is used.

* `groups_run_exact` — in every run nothing is used after it has been freed, nothing is freed that is still used, and no
  structure and no page is lost;
* `groups_run_refines` — in every run the calls of each task see the groups last set for it, or for the ancestor it has
  them from.
-/

namespace Sys

structure Task where
  group_info : ℕ
  fsgid : Id
  egid : Id

structure GroupState where
  refs : Refs ℕ
  info : ℕ → GroupInfo
  /-- how many pages are out -/
  pages : ℤ
  tasks : Finset ℕ
  task : ℕ → Task

/-- The inputs of a call of `setgroups`. -/
structure SetGroups where
  capable : Bool
  gidsetsize : CInt
  user : ℕ → Option Id
  /-- what `kmalloc` returns -/
  addr : Option ℕ
  /-- whether there is a page for a block -/
  grant : ℕ → Bool
  /-- what was in the memory before -/
  junk : ℕ → ℕ → Id
  /-- what `security_task_setgroups` answers -/
  lsm : Except Errno Unit

inductive Event
  | setgroups (pid : ℕ) (call : SetGroups)
  | fork (pid child : ℕ)
  | exit (pid : ℕ)
  | ids (pid : ℕ) (fsgid egid : Id)

/-- Task 0 has `init_groups`, which is empty and counts two users. -/
def GroupState.boot (fsgid egid : Id) : GroupState where
  refs := ⟨{0}, fun _ => 2⟩
  info _ := ⟨0, 0, false, fun _ _ => 0⟩
  pages := 0
  tasks := {0}
  task _ := ⟨0, fsgid, egid⟩

variable (z : Sizes)

/-- `while (--i >= 0) free_page(...)` -/
def undoPages : ℕ → ℤ → ℤ
  | 0, pages => pages
  | i + 1, pages => undoPages i (pages - 1)

/-- The loop over the blocks, `left` of them to come: whether all got a page, and the pages that are out then. -/
def allocPages (grant : ℕ → Bool) : ℕ → ℕ → ℤ → Bool × ℤ
  | 0, _, pages => (true, pages)
  | left + 1, i, pages => if grant i then allocPages grant left (i + 1) (pages + 1) else (false, undoPages i pages)

def groups_alloc (gidsetsize : ℕ) (addr : Option ℕ) (grant : ℕ → Bool) (junk : ℕ → ℕ → Id) (s : GroupState) :
    Option ℕ × GroupState :=
  let nblocks := (gidsetsize + z.perBlock - 1) / z.perBlock
  let nblocks := if nblocks ≠ 0 then nblocks else 1
  match addr with
  | none => (none, s)
  | some a =>
    let s' : GroupState :=
      { s with
        refs := s.refs.alloc a
        info := Function.update s.info a ⟨gidsetsize, nblocks, gidsetsize ≤ z.small, junk⟩ }
    if gidsetsize ≤ z.small then (some a, s')
    else match allocPages grant nblocks 0 s.pages with
      | (true, pages) => (some a, { s' with pages := pages })
      | (false, pages) => (none, { s with pages := pages })

/-- The pages of a structure that is freed. -/
def groups_free (gi : GroupInfo) (pages : ℤ) : ℤ := if gi.small then pages else pages - gi.nblocks

def get_group_info (a : ℕ) (s : GroupState) : Option GroupState :=
  (s.refs.get a).map fun refs => { s with refs := refs }

def put_group_info (a : ℕ) (s : GroupState) : Option GroupState :=
  (s.refs.put a).map fun refs =>
    { s with refs := refs, pages := if a ∈ refs.live then s.pages else groups_free (s.info a) s.pages }

def set_current_groups (lsm : Except Errno Unit) (pid a : ℕ) (s : GroupState) :
    Option (Except Errno Unit × GroupState) :=
  match lsm with
  | .error e => some (.error e, s)
  | .ok () =>
    let s := { s with info := Function.update s.info a (groups_sort z (s.info a)) }
    (get_group_info a s).bind fun s =>
      let old_info := (s.task pid).group_info
      let s := { s with task := Function.update s.task pid { s.task pid with group_info := a } }
      (put_group_info old_info s).map fun s => (.ok (), s)

def sys_setgroups (call : SetGroups) (pid : ℕ) (s : GroupState) : Option (Except Errno Unit × GroupState) :=
  if !call.capable then some (.error .EPERM, s)
  else if call.gidsetsize.toNat > z.max then some (.error .EINVAL, s)
  else match groups_alloc z call.gidsetsize.toNat call.addr call.grant call.junk s with
    | (none, s) => some (.error .ENOMEM, s)
    | (some a, s) =>
      match groups_from_user z call.user (s.info a) with
      | none => (put_group_info a s).map fun s => (.error .EFAULT, s)
      | some gi =>
        let s := { s with info := Function.update s.info a gi }
        (set_current_groups z call.lsm pid a s).bind fun (retval, s) =>
          (put_group_info a s).map fun s => (retval, s)

def in_group_p (s : GroupState) (pid : ℕ) (grp : Id) : Bool :=
  if grp ≠ (s.task pid).fsgid then groups_search z (some (s.info (s.task pid).group_info)) grp else true

def in_egroup_p (s : GroupState) (pid : ℕ) (grp : Id) : Bool :=
  if grp ≠ (s.task pid).egid then groups_search z (some (s.info (s.task pid).group_info)) grp else true

/-- The result is that of `setgroups`. -/
def groupStep (e : Event) (s : GroupState) : Option (Except Errno Unit × GroupState) :=
  match e with
  | .setgroups pid call => sys_setgroups z call pid s
  | .fork pid child =>
    (get_group_info (s.task pid).group_info s).map fun s =>
      (.ok (), { s with tasks := insert child s.tasks, task := Function.update s.task child (s.task pid) })
  | .exit pid =>
    (put_group_info (s.task pid).group_info { s with tasks := s.tasks.erase pid }).map fun s => (.ok (), s)
  | .ids pid fsgid egid =>
    some (.ok (), { s with task := Function.update s.task pid { s.task pid with fsgid := fsgid, egid := egid } })

/-- Tasks that there are, new pids, and addresses that are not in use. -/
def Possible (e : Event) (s : GroupState) : Prop :=
  match e with
  | .setgroups pid call => pid ∈ s.tasks ∧ ∀ a, call.addr = some a → a ∉ s.refs.live
  | .fork pid child => pid ∈ s.tasks ∧ child ∉ s.tasks
  | .exit pid => pid ∈ s.tasks
  | .ids pid _ _ => pid ∈ s.tasks

instance (e : Event) (s : GroupState) : Decidable (Possible e s) :=
  match e with
  | .setgroups pid call =>
    decidable_of_iff (pid ∈ s.tasks ∧ call.addr.all (· ∉ s.refs.live)) (by simp [Possible, Option.all_eq_true])
  | .fork pid child => inferInstanceAs (Decidable (pid ∈ s.tasks ∧ child ∉ s.tasks))
  | .exit pid => inferInstanceAs (Decidable (pid ∈ s.tasks))
  | .ids pid _ _ => inferInstanceAs (Decidable (pid ∈ s.tasks))

/-- What the calls are for: each task has a set of groups. -/
def specStep (e : Event) (retval : Except Errno Unit) (groups : ℕ → Multiset Id) : ℕ → Multiset Id :=
  match e, retval with
  | .setgroups pid call, .ok () =>
    Function.update groups pid ((List.range call.gidsetsize.toNat).filterMap call.user : List Id)
  | .fork pid child, _ => Function.update groups child (groups pid)
  | _, _ => groups

/-- `getgroups` for a task with these groups. -/
def getgroupsSpec (groups : Multiset Id) (gidsetsize : CInt) (writable : ℕ → Bool) (mem : ℕ → Id) :
    Except Errno (ℕ × (ℕ → Id)) :=
  if gidsetsize.toInt < 0 then .error .EINVAL
  else if gidsetsize = 0 then .ok (groups.card, mem)
  else if gidsetsize.toInt < groups.card then .error .EINVAL
  else if ∃ k < groups.card, writable k = false then .error .EFAULT
  else .ok (groups.card, fun k => (groups.sort[k]?).getD (mem k))

def groupNext (e : Event) (s : GroupState) : Option GroupState := (groupStep z e s).map Prod.snd

/-- Both side by side. -/
def bothStep (e : Event) (s : GroupState × (ℕ → Multiset Id)) : Option (GroupState × (ℕ → Multiset Id)) :=
  (groupStep z e s.1).map fun (retval, s') => (s', specStep e retval s.2)

/-! ## The references -/

/-- The references there are outside of calls; the second one of `init_groups` is nobody's. -/
def GroupState.held (s : GroupState) : Multiset ℕ := 0 ::ₘ s.tasks.val.map fun p => (s.task p).group_info

/-- All but that of `pid`. -/
def GroupState.others (s : GroupState) (pid : ℕ) : Multiset ℕ :=
  0 ::ₘ (s.tasks.erase pid).val.map fun p => (s.task p).group_info

def pagesOf (gi : GroupInfo) : ℤ := if gi.small then 0 else gi.nblocks

/-- `extra` are the references of a call that is under way. -/
structure Sound (extra : Multiset ℕ) (s : GroupState) : Prop where
  exact : s.refs.Exact (extra + s.held)
  pages : s.pages = ∑ a ∈ s.refs.live, pagesOf (s.info a)
  fits : ∀ a ∈ s.refs.live, Fits z (s.info a)
  sorted : ∀ a ∈ s.held, (groupList z (s.info a)).Pairwise (· ≤ ·)

/-- Each task has the groups it should have. -/
def Agrees (s : GroupState) (groups : ℕ → Multiset Id) : Prop :=
  ∀ p ∈ s.tasks, (groupList z (s.info (s.task p).group_info) : Multiset Id) = groups p

variable {z} {s : GroupState} {extra : Multiset ℕ} {a pid : ℕ} {gi : GroupInfo} {groups : ℕ → Multiset Id}

theorem held_eq (h : pid ∈ s.tasks) : s.held = (s.task pid).group_info ::ₘ s.others pid := by
  unfold GroupState.held GroupState.others
  rw [Finset.erase_val, Multiset.cons_swap, ← Multiset.map_cons (fun p => (s.task p).group_info),
    Multiset.cons_erase h]

theorem mem_held (h : pid ∈ s.tasks) : (s.task pid).group_info ∈ s.held := by
  rw [held_eq h]
  exact Multiset.mem_cons_self _ _

/-- The others do not depend on what `pid` has. -/
theorem others_update (t : Task) :
    ({ s with task := Function.update s.task pid t } : GroupState).others pid = s.others pid := by
  unfold GroupState.others
  refine congrArg _ (Multiset.map_congr rfl fun p hp => ?_)
  show (Function.update s.task pid t p).group_info = _
  rw [Function.update_of_ne (Finset.ne_of_mem_erase hp)]

theorem held_update (h : pid ∈ s.tasks) (t : Task) :
    ({ s with task := Function.update s.task pid t } : GroupState).held = t.group_info ::ₘ s.others pid := by
  rw [held_eq (s := { s with task := Function.update s.task pid t }) h, others_update]
  simp only [Function.update_self]

theorem live_of_mem (h : Sound z extra s) (ha : a ∈ s.held) : a ∈ s.refs.live :=
  (h.exact.live a).2 (Multiset.mem_add.2 (.inr ha))

/-- The set of each task is sorted and has its blocks. -/
theorem Sound.task (h : Sound z extra s) (hpid : pid ∈ s.tasks) :
    (groupList z (s.info (s.task pid).group_info)).Pairwise (· ≤ ·) ∧ Fits z (s.info (s.task pid).group_info) :=
  ⟨h.sorted _ (mem_held hpid), h.fits _ (live_of_mem h (mem_held hpid))⟩

theorem boot_sound (fsgid egid : Id) : Sound z 0 (GroupState.boot fsgid egid) := by
  refine ⟨⟨?_, ?_⟩, ?_, ?_, ?_⟩
  · intro a
    simp [GroupState.boot, GroupState.held]
  · intro a ha
    have ha : a = 0 := by simpa [GroupState.boot] using ha
    subst ha
    simp [GroupState.boot, GroupState.held]
  · simp [GroupState.boot, pagesOf]
  · intro a _
    simp [GroupState.boot, Fits]
  · intro a _
    simp [GroupState.boot, groupList, Cells.content]

/-! ## The parts of a call -/

theorem get_spec (h : Sound z extra s) (ha : a ∈ extra + s.held) :
    ∃ refs, get_group_info a s = some { s with refs := refs } ∧ Sound z (a ::ₘ extra) { s with refs := refs } := by
  obtain ⟨refs, hget, hexact, hlive⟩ := h.exact.get ha
  refine ⟨refs, ?_, ⟨?_, ?_, ?_, h.sorted⟩⟩
  · unfold get_group_info
    rw [hget, Option.map_some]
  · rw [Multiset.cons_add]
    exact hexact
  · show s.pages = ∑ a ∈ refs.live, _
    rw [hlive]
    exact h.pages
  · intro b hb
    exact h.fits b (hlive ▸ hb)

theorem put_spec (h : Sound z (a ::ₘ extra) s) :
    ∃ refs pages, put_group_info a s = some { s with refs := refs, pages := pages } ∧
      Sound z extra { s with refs := refs, pages := pages } := by
  have hexact := h.exact
  rw [Multiset.cons_add] at hexact
  obtain ⟨refs, hput, hexact', hlive⟩ := hexact.put
  refine ⟨refs, if a ∈ refs.live then s.pages else groups_free (s.info a) s.pages, ?_, ⟨hexact', ?_, ?_, h.sorted⟩⟩
  · unfold put_group_info
    rw [hput, Option.map_some]
  · show (if a ∈ refs.live then s.pages else groups_free (s.info a) s.pages) = ∑ a ∈ refs.live, pagesOf (s.info a)
    rw [hlive]
    by_cases hmem : a ∈ extra + s.held
    · rw [if_pos hmem, if_pos ((hexact.live a).2 (Multiset.mem_cons_self _ _)), h.pages]
    · have ha : a ∈ s.refs.live := (hexact.live a).2 (Multiset.mem_cons_self _ _)
      have hsum := Finset.add_sum_erase s.refs.live (fun a => pagesOf (s.info a)) ha
      rw [if_neg hmem, if_neg (Finset.notMem_erase a _)]
      unfold groups_free
      rw [h.pages, ← hsum]
      unfold pagesOf
      split <;> omega
  · intro b hb
    refine h.fits b ?_
    change b ∈ refs.live at hb
    rw [hlive] at hb
    split at hb
    · exact hb
    · exact (Finset.mem_erase.1 hb).2

theorem undoPages_eq (i : ℕ) (pages : ℤ) : undoPages i pages = pages - i := by
  induction i generalizing pages with
  | zero => simp [undoPages]
  | succ i ih =>
    unfold undoPages
    rw [ih]
    omega

/-- All of the pages or none. -/
theorem allocPages_eq (grant : ℕ → Bool) (left i : ℕ) (pages : ℤ) :
    allocPages grant left i pages = (true, pages + left) ∨ allocPages grant left i pages = (false, pages - i) := by
  induction left generalizing i pages with
  | zero => simp [allocPages]
  | succ left ih =>
    unfold allocPages
    split
    · rcases ih (i + 1) (pages + 1) with h | h
      · rw [h]
        exact .inl (by congr 1; push_cast; omega)
      · rw [h]
        exact .inr (by congr 1; push_cast; omega)
    · rw [undoPages_eq]
      exact .inr rfl

/-- A structure that nobody uses yet. -/
theorem Sound.alloc (h : Sound z extra s) (ha : a ∉ s.refs.live) (hfits : Fits z gi) :
    Sound z (a ::ₘ extra)
      { s with refs := s.refs.alloc a, info := Function.update s.info a gi, pages := s.pages + pagesOf gi } := by
  have hne : ∀ b ∈ s.refs.live, b ≠ a := fun b hb heq => ha (heq ▸ hb)
  refine ⟨?_, ?_, ?_, ?_⟩
  · rw [Multiset.cons_add]
    exact h.exact.alloc ha
  · show s.pages + pagesOf gi = ∑ b ∈ insert a s.refs.live, pagesOf (Function.update s.info a gi b)
    rw [Finset.sum_insert ha, Function.update_self, h.pages, add_comm]
    refine congrArg _ (Finset.sum_congr rfl fun b hb => ?_)
    rw [Function.update_of_ne (hne b hb)]
  · intro b hb
    show Fits z (Function.update s.info a gi b)
    by_cases hba : b = a
    · rw [hba, Function.update_self]
      exact hfits
    · rw [Function.update_of_ne hba]
      exact h.fits b ((Finset.mem_insert.1 hb).resolve_left hba)
  · intro b hb
    show (groupList z (Function.update s.info a gi b)).Pairwise _
    rw [Function.update_of_ne (hne b (live_of_mem h hb))]
    exact h.sorted b hb

theorem groups_alloc_spec (gidsetsize : ℕ) {addr : Option ℕ} (grant : ℕ → Bool) (junk : ℕ → ℕ → Id)
    (haddr : ∀ a, addr = some a → a ∉ s.refs.live) :
    groups_alloc z gidsetsize addr grant junk s = (none, s) ∨
      ∃ a gi, a ∉ s.refs.live ∧ gi.ngroups = gidsetsize ∧ Fits z gi ∧
        groups_alloc z gidsetsize addr grant junk s = (some a,
          { s with refs := s.refs.alloc a, info := Function.update s.info a gi, pages := s.pages + pagesOf gi }) := by
  unfold groups_alloc
  cases haddr' : addr with
  | none => exact .inl rfl
  | some a =>
    dsimp only
    generalize hn : (if (gidsetsize + z.perBlock - 1) / z.perBlock ≠ 0 then
      (gidsetsize + z.perBlock - 1) / z.perBlock else 1) = nblocks
    have henough : gidsetsize ≤ nblocks * z.perBlock := by
      have hdiv := Nat.div_add_mod (gidsetsize + z.perBlock - 1) z.perBlock
      have hmod := Nat.mod_lt (gidsetsize + z.perBlock - 1) z.perBlock_pos
      rw [mul_comm] at hdiv
      rw [← hn]
      split
      · omega
      · next hzero =>
        rw [not_not.1 hzero] at hdiv
        omega
    split
    · next hsmall =>
      exact .inr ⟨a, ⟨gidsetsize, nblocks, true, junk⟩, haddr a haddr', rfl, henough, by simp [hsmall, pagesOf]⟩
    · next hsmall =>
      rcases allocPages_eq grant nblocks 0 s.pages with hpages | hpages
      · rw [hpages]
        exact .inr ⟨a, ⟨gidsetsize, nblocks, false, junk⟩, haddr a haddr', rfl, henough, by simp [hsmall, pagesOf]⟩
      · rw [hpages]
        exact .inl (by simp)

/-- What is written into a structure that no task has yet. -/
theorem Sound.write (h : Sound z extra s) (ha : a ∉ s.held) (hshape : SameShape (s.info a) gi) :
    Sound z extra { s with info := Function.update s.info a gi } := by
  obtain ⟨hngroups, hnblocks, hsmall⟩ := hshape
  refine ⟨h.exact, ?_, ?_, ?_⟩
  · show s.pages = ∑ b ∈ s.refs.live, pagesOf (Function.update s.info a gi b)
    rw [h.pages]
    refine Finset.sum_congr rfl fun b _ => ?_
    by_cases hba : b = a
    · rw [hba, Function.update_self]
      unfold pagesOf
      rw [hnblocks, hsmall]
    · rw [Function.update_of_ne hba]
  · intro b hb
    show Fits z (Function.update s.info a gi b)
    have hfits := h.fits b hb
    by_cases hba : b = a
    · subst hba
      rw [Function.update_self]
      unfold Fits at hfits ⊢
      rwa [hngroups, hnblocks]
    · rwa [Function.update_of_ne hba]
  · intro b hb
    have hne : b ≠ a := fun heq => ha (heq ▸ hb)
    show (groupList z (Function.update s.info a gi b)).Pairwise _
    rw [Function.update_of_ne hne]
    exact h.sorted b hb

theorem Agrees.write (h : Agrees z s groups) (ha : a ∉ s.held) :
    Agrees z { s with info := Function.update s.info a gi } groups := by
  intro p hp
  have hne : (s.task p).group_info ≠ a := fun heq => ha (heq ▸ mem_held hp)
  show (groupList z (Function.update s.info a gi (s.task p).group_info) : Multiset Id) = groups p
  rw [Function.update_of_ne hne]
  exact h p hp

/-- A task changes the set it has for a sorted one. -/
theorem Sound.swap (h : Sound z (a ::ₘ extra) s) (hpid : pid ∈ s.tasks)
    (hsorted : (groupList z (s.info a)).Pairwise (· ≤ ·)) :
    Sound z ((s.task pid).group_info ::ₘ extra)
      { s with task := Function.update s.task pid { s.task pid with group_info := a } } := by
  have hheld := held_update hpid { s.task pid with group_info := a }
  refine ⟨?_, h.pages, h.fits, ?_⟩
  · have hexact := h.exact
    rw [held_eq hpid, Multiset.cons_add, Multiset.add_cons, Multiset.cons_swap, ← Multiset.add_cons,
      ← Multiset.cons_add] at hexact
    rw [hheld]
    exact hexact
  · rw [hheld]
    intro b hb
    rcases Multiset.mem_cons.1 hb with rfl | hold
    · exact hsorted
    · refine h.sorted b ?_
      rw [held_eq hpid]
      exact Multiset.mem_cons_of_mem hold

/-! ## One step -/

theorem set_current_groups_spec (lsm : Except Errno Unit) (h : Sound z (a ::ₘ extra) s) (ha : a ∉ s.held)
    (hpid : pid ∈ s.tasks) :
    ∃ s', set_current_groups z lsm pid a s = some (lsm, s') ∧ Sound z (a ::ₘ extra) s' ∧
      ∀ groups, Agrees z s groups → Agrees z s' (match lsm with
        | .ok () => Function.update groups pid (groupList z (s.info a))
        | .error _ => groups) := by
  unfold set_current_groups
  cases lsm with
  | error e => exact ⟨s, rfl, h, fun groups hg => hg⟩
  | ok u =>
    dsimp only
    have hshape := groups_sort_shape (z := z) (s.info a)
    obtain ⟨hsorted, hperm⟩ := groups_sort_spec z (s.info a)
    have hwrite := h.write ha hshape
    obtain ⟨refs, hget, hget'⟩ := get_spec hwrite (Multiset.mem_add.2 (.inl (Multiset.mem_cons_self a extra)))
    have hswap := hget'.swap hpid (by simpa only [Function.update_self] using hsorted)
    obtain ⟨refs', pages, hput, hput'⟩ := put_spec hswap
    rw [hget, Option.bind_some]
    dsimp only
    rw [hput, Option.map_some]
    refine ⟨_, rfl, hput', fun groups hg p hp => ?_⟩
    by_cases hp' : p = pid
    · subst hp'
      simp only [Function.update_self]
      exact Multiset.coe_eq_coe.2 hperm
    · have hne : (s.task p).group_info ≠ a := fun heq => ha (heq ▸ mem_held hp)
      simp only [Function.update_of_ne hp', Function.update_of_ne hne]
      exact hg p hp

theorem filterMap_of_map {n : ℕ} {user : ℕ → Option Id} {l : List Id} (h : l.map some = (List.range n).map user) :
    (List.range n).filterMap user = l := by
  have hid : (List.range n).filterMap user = ((List.range n).map user).filterMap id := by
    rw [List.filterMap_map, Function.id_comp]
  rw [hid, ← h, List.filterMap_map, Function.id_comp, List.filterMap_some]

theorem sys_setgroups_spec (call : SetGroups) (h : Sound z 0 s) (hpid : pid ∈ s.tasks)
    (haddr : ∀ a, call.addr = some a → a ∉ s.refs.live) :
    ∃ retval s', sys_setgroups z call pid s = some (retval, s') ∧ Sound z 0 s' ∧
      ∀ groups, Agrees z s groups → Agrees z s' (specStep (.setgroups pid call) retval groups) := by
  unfold sys_setgroups
  split
  · exact ⟨_, s, rfl, h, fun groups hg => hg⟩
  split
  · exact ⟨_, s, rfl, h, fun groups hg => hg⟩
  rcases groups_alloc_spec (z := z) call.gidsetsize.toNat call.grant call.junk haddr with
    hnone | ⟨a, gi, ha, hsize, hfits, hsome⟩
  · rw [hnone]
    exact ⟨_, s, rfl, h, fun groups hg => hg⟩
  rw [hsome]
  dsimp only
  have halloc := h.alloc ha hfits
  have hheld : a ∉ s.held := fun hmem => ha (live_of_mem h hmem)
  have hagrees : ∀ groups, Agrees z s groups → Agrees z
      { s with refs := s.refs.alloc a, info := Function.update s.info a gi, pages := s.pages + pagesOf gi } groups :=
    fun groups hg => Agrees.write hg hheld
  obtain ⟨hfail, hcopied⟩ := groups_from_user_law call.user hfits
  rw [Function.update_self]
  cases hcopy : groups_from_user z call.user gi with
  | none =>
    -- the structure has one user, this call
    obtain ⟨refs, pages, hput, hput'⟩ := put_spec halloc
    rw [hput]
    exact ⟨_, _, rfl, hput', hagrees⟩
  | some gi' =>
    obtain ⟨hshape, hlist⟩ := hcopied gi' hcopy
    have hshape' : SameShape (Function.update s.info a gi a) gi' := by
      rwa [Function.update_self]
    have hwrite := halloc.write hheld hshape'
    obtain ⟨s', hset, hsound, hagrees'⟩ := set_current_groups_spec call.lsm hwrite hheld hpid
    obtain ⟨refs, pages, hput, hput'⟩ := put_spec hsound
    dsimp only
    rw [hset, Option.bind_some]
    dsimp only
    rw [hput]
    refine ⟨_, _, rfl, hput', fun groups hg => ?_⟩
    have hnew := hagrees' groups (Agrees.write (hagrees groups hg) hheld)
    simp only [Function.update_self] at hnew
    rw [hsize] at hlist
    unfold specStep
    cases hlsm : call.lsm with
    | error e =>
      rw [hlsm] at hnew
      exact hnew
    | ok u =>
      rw [hlsm] at hnew
      dsimp only
      rw [filterMap_of_map hlist]
      exact hnew

/-- **One step.** -/
theorem groupStep_spec {e : Event} (h : Sound z 0 s) (hpos : Possible e s) :
    ∃ retval s', groupStep z e s = some (retval, s') ∧ Sound z 0 s' ∧
      ∀ groups, Agrees z s groups → Agrees z s' (specStep e retval groups) := by
  cases e with
  | setgroups pid call => exact sys_setgroups_spec call h hpos.1 hpos.2
  | fork pid child =>
    obtain ⟨hpid, hchild⟩ := hpos
    obtain ⟨refs, hget, hget'⟩ := get_spec h (Multiset.mem_add.2 (.inr (mem_held hpid)))
    unfold groupStep
    dsimp only
    rw [hget]
    have hsame : ∀ p ∈ s.tasks, Function.update s.task child (s.task pid) p = s.task p := by
      intro p hp
      have hne : p ≠ child := fun heq => hchild (heq ▸ hp)
      exact Function.update_of_ne hne _ _
    -- the reference that was taken becomes that of the child
    have hheld : ({ s with
        tasks := insert child s.tasks, task := Function.update s.task child (s.task pid) } : GroupState).held =
        (s.task pid).group_info ::ₘ s.held := by
      unfold GroupState.held
      dsimp only
      rw [Finset.insert_val_of_notMem hchild, Multiset.map_cons, Function.update_self, Multiset.cons_swap]
      exact congrArg _ (congrArg _ (Multiset.map_congr rfl fun p hp => by rw [hsame p hp]))
    refine ⟨_, _, rfl, ⟨?_, hget'.pages, hget'.fits, ?_⟩, fun groups hg p hp => ?_⟩
    · have hexact := hget'.exact
      rw [Multiset.cons_add, zero_add] at hexact
      rw [zero_add]
      exact hheld ▸ hexact
    · intro b hb
      have hb : b ∈ (s.task pid).group_info ::ₘ s.held := hheld ▸ hb
      rcases Multiset.mem_cons.1 hb with rfl | hold
      · exact (h.task hpid).1
      · exact h.sorted b hold
    · unfold specStep
      dsimp only
      rcases Finset.mem_insert.1 hp with rfl | hold
      · rw [Function.update_self, Function.update_self]
        exact hg pid hpid
      · have hne : p ≠ child := fun heq => hchild (heq ▸ hold)
        rw [hsame p hold, Function.update_of_ne hne]
        exact hg p hold
  | exit pid =>
    have hpid : pid ∈ s.tasks := hpos
    have hheld : ({ s with tasks := s.tasks.erase pid } : GroupState).held = s.others pid := rfl
    have hgone : Sound z ((s.task pid).group_info ::ₘ 0) { s with tasks := s.tasks.erase pid } := by
      refine ⟨?_, h.pages, h.fits, ?_⟩
      · have hexact := h.exact
        rw [zero_add, held_eq hpid] at hexact
        rw [hheld, Multiset.cons_add, zero_add]
        exact hexact
      · rw [hheld]
        intro b hb
        exact h.sorted b (held_eq hpid ▸ Multiset.mem_cons_of_mem hb)
    obtain ⟨refs, pages, hput, hput'⟩ := put_spec hgone
    unfold groupStep
    dsimp only
    rw [hput]
    exact ⟨_, _, rfl, hput', fun groups hg p hp => hg p (Finset.mem_of_mem_erase hp)⟩
  | ids pid fsgid egid =>
    have hpid : pid ∈ s.tasks := hpos
    have hsame : ∀ p, (Function.update s.task pid { s.task pid with fsgid := fsgid, egid := egid } p).group_info =
        (s.task p).group_info := by
      intro p
      by_cases hp : p = pid
      · rw [hp, Function.update_self]
      · rw [Function.update_of_ne hp]
    have hheld : ({ s with
        task := Function.update s.task pid { s.task pid with fsgid := fsgid, egid := egid } } : GroupState).held =
        s.held := by
      rw [held_update hpid, held_eq hpid]
    refine ⟨_, _, rfl, ⟨?_, h.pages, h.fits, ?_⟩, fun groups hg p hp => ?_⟩
    · rw [hheld]
      exact h.exact
    · rw [hheld]
      exact h.sorted
    · show (groupList z (s.info (Function.update s.task pid _ p).group_info) : Multiset Id) = groups p
      rw [hsame]
      exact hg p hp

/-! ## Runs -/

theorem count_held (s : GroupState) (a : ℕ) :
    s.held.count a = (s.tasks.filter fun p => (s.task p).group_info = a).card + if a = 0 then 1 else 0 := by
  unfold GroupState.held
  rw [Multiset.count_cons, Multiset.count_map, Finset.card_def, Finset.filter_val]
  simp only [eq_comm]

/-- **No use after free, no leak.** -/
theorem groups_run_exact (z : Sizes) (fsgid egid : Id) (events : List Event)
    (h : Run.Along (groupNext z) Possible events (GroupState.boot fsgid egid)) :
    ∃ s, Run.exec (groupNext z) events (GroupState.boot fsgid egid) = some s ∧
      (∀ a, a ∈ s.refs.live ↔ a = 0 ∨ ∃ p ∈ s.tasks, (s.task p).group_info = a) ∧
      (∀ a ∈ s.refs.live, s.refs.usage a =
        (s.tasks.filter fun p => (s.task p).group_info = a).card + if a = 0 then 1 else 0) ∧
      s.pages = ∑ a ∈ s.refs.live, pagesOf (s.info a) := by
  obtain ⟨s, hs, hsound⟩ := Run.progress (I := Sound z 0) (fun e s hpos hs => by
    obtain ⟨retval, s', hstep, hs', -⟩ := groupStep_spec hs hpos
    refine ⟨s', ?_, hs'⟩
    unfold groupNext
    rw [hstep, Option.map_some]) h (boot_sound fsgid egid)
  have hexact := hsound.exact
  rw [zero_add] at hexact
  refine ⟨s, hs, fun a => ?_, fun a ha => ?_, hsound.pages⟩
  · rw [hexact.live]
    simp [GroupState.held]
  · rw [hexact.usage a ha, count_held]

/-- Three ids, in two blocks. -/
def sampleCall : SetGroups where
  capable := true
  gidsetsize := 3
  user i := [7, 3, 7][i]?
  addr := some 5
  grant _ := true
  junk _ _ := 0
  lsm := .ok ()

def sampleRun : List Event := [.setgroups 0 sampleCall, .fork 0 1, .ids 1 100 100, .exit 0]

theorem groups_run_exact_sample :
    ∃ s, Run.exec (groupNext sampleSizes) sampleRun (GroupState.boot 0 0) = some s ∧
      s.pages = ∑ a ∈ s.refs.live, pagesOf (s.info a) := by
  obtain ⟨s, hs, -, -, hpages⟩ := groups_run_exact sampleSizes 0 0 sampleRun (by decide)
  exact ⟨s, hs, hpages⟩

theorem eq_sort {l : List Id} {groups : Multiset Id} (hsorted : l.Pairwise (· ≤ ·)) (hl : (l : Multiset Id) = groups) :
    l = groups.sort := by
  have hperm : l.Perm groups.sort := Multiset.coe_eq_coe.1 (hl.trans (Multiset.sort_eq groups _).symm)
  exact hperm.eq_of_pairwise (fun _ _ _ _ => le_antisymm) hsorted (Multiset.pairwise_sort groups _)

theorem sys_getgroups_eq {groups : Multiset Id} (hsorted : (groupList z gi).Pairwise (· ≤ ·)) (hfits : Fits z gi)
    (hl : (groupList z gi : Multiset Id) = groups) (gidsetsize : CInt) (writable : ℕ → Bool) (mem : ℕ → Id) :
    sys_getgroups z gi gidsetsize writable mem = getgroupsSpec groups gidsetsize writable mem := by
  have hcard : gi.ngroups = groups.card := by
    rw [← hl, Multiset.coe_card, groupList, Cells.length_content]
  obtain ⟨hfault, hcopied⟩ := groups_to_user_law writable mem hfits
  unfold sys_getgroups getgroupsSpec
  rw [hcard] at hfault hcopied ⊢
  by_cases hneg : gidsetsize.toInt < 0
  · rw [if_pos hneg, if_pos hneg]
  rw [if_neg hneg, if_neg hneg]
  by_cases hzero : gidsetsize = 0
  · rw [if_neg (not_not.2 hzero), if_pos hzero]
  rw [if_pos hzero, if_neg hzero]
  by_cases hsmall : gidsetsize.toInt < groups.card
  · rw [if_pos hsmall, if_pos hsmall]
  rw [if_neg hsmall, if_neg hsmall]
  cases hcopy : groups_to_user z writable gi mem with
  | none => rw [if_pos (hfault.1 hcopy)]
  | some mem' =>
    have hgood : ¬ ∃ k < groups.card, writable k = false := by
      intro hbad
      rw [hfault.2 hbad] at hcopy
      cases hcopy
    obtain ⟨hread, hrest⟩ := hcopied mem' hcopy
    rw [if_neg hgood]
    have hmem : mem' = fun k => (groups.sort[k]?).getD (mem k) := by
      funext k
      rw [← eq_sort hsorted hl, ← hread]
      by_cases hk : k < groups.card
      · simp [hk]
      · simp [hk, hrest k (by omega)]
    rw [hmem]

theorem groups_search_eq {groups : Multiset Id} (hsorted : (groupList z gi).Pairwise (· ≤ ·))
    (hl : (groupList z gi : Multiset Id) = groups) {grp : Id} (hnear : ∀ g ∈ groups, Near grp g) :
    groups_search z (some gi) grp = true ↔ grp ∈ groups := by
  subst hl
  exact (groups_search_law z gi grp).2 hsorted hnear

/-- **What the tasks see.** -/
theorem groups_run_refines (z : Sizes) (fsgid egid : Id) (events : List Event)
    (h : Run.Along (bothStep z) (fun e s => Possible e s.1) events (GroupState.boot fsgid egid, fun _ => 0)) :
    ∃ s groups, Run.exec (bothStep z) events (GroupState.boot fsgid egid, fun _ => 0) = some (s, groups) ∧
      ∀ pid ∈ s.tasks,
        (∀ gidsetsize writable mem, sys_getgroups z (s.info (s.task pid).group_info) gidsetsize writable mem =
          getgroupsSpec (groups pid) gidsetsize writable mem) ∧
        ∀ grp, (∀ g ∈ groups pid, Near grp g) →
          (in_group_p z s pid grp = true ↔ grp = (s.task pid).fsgid ∨ grp ∈ groups pid) ∧
          (in_egroup_p z s pid grp = true ↔ grp = (s.task pid).egid ∨ grp ∈ groups pid) := by
  obtain ⟨⟨s, groups⟩, hs, hsound, hagrees⟩ := Run.progress
    (I := fun s => Sound z 0 s.1 ∧ Agrees z s.1 s.2) (fun e s hpos hs => by
      obtain ⟨retval, s', hstep, hs', hagrees⟩ := groupStep_spec hs.1 hpos
      refine ⟨(s', specStep e retval s.2), ?_, hs', hagrees s.2 hs.2⟩
      unfold bothStep
      rw [hstep, Option.map_some]) h ⟨boot_sound fsgid egid, by
        intro p _
        simp [GroupState.boot, groupList, Cells.content]⟩
  refine ⟨s, groups, hs, fun pid hpid => ?_⟩
  obtain ⟨hsorted, hfits⟩ := hsound.task hpid
  have hl := hagrees pid hpid
  refine ⟨sys_getgroups_eq hsorted hfits hl, fun grp hnear => ?_⟩
  have hsearch := groups_search_eq hsorted hl hnear
  constructor
  · unfold in_group_p
    by_cases hfs : grp = (s.task pid).fsgid
    · simp [hfs]
    · simp [hfs, hsearch]
  · unfold in_egroup_p
    by_cases he : grp = (s.task pid).egid
    · simp [he]
    · simp [he, hsearch]

theorem groups_run_refines_sample :
    ∃ s groups, Run.exec (bothStep sampleSizes) sampleRun (GroupState.boot 0 0, fun _ => 0) = some (s, groups) ∧
      ∀ pid ∈ s.tasks, ∀ gidsetsize writable mem,
        sys_getgroups sampleSizes (s.info (s.task pid).group_info) gidsetsize writable mem =
          getgroupsSpec (groups pid) gidsetsize writable mem := by
  obtain ⟨s, groups, hs, h⟩ := groups_run_refines sampleSizes 0 0 sampleRun (by decide)
  exact ⟨s, groups, hs, fun pid hpid => (h pid hpid).1⟩

end Sys
