import LinuxLearning.Lib.Bisect
import LinuxLearning.Lib.Shell
import LinuxLearning.Sys.Basic
/-!
# `sys.c`: a set of supplementary group ids

| here | there (`KernelDrivers_March2011/sys.c`) |
| --- | --- |
| `Sizes`             | `NGROUPS_SMALL`, `NGROUPS_PER_BLOCK`, `NGROUPS_MAX` of the kernel's headers |
| `GroupInfo`         | `struct group_info` without its `usage`, which is kept apart |
| `groupAt`           | the macro `GROUP_AT` of the headers |
| `groups_to_user`    | `:1129-1146` |
| `groups_from_user`  | `:1149-1166` |
| `groups_sort`       | `:1169-1195` |
| `groups_search`     | `:1198-1218` |
| `sys_getgroups`     | `:1245-1271` |

The ids are in blocks of `NGROUPS_PER_BLOCK`; a set of up to `NGROUPS_SMALL` has one block, which is part of the
structure. A user's array is given by what can be read from it, or written to it, at each index. What a copy leaves
in the array when it fails is left open.

* `groups_from_user_law`, `groups_to_user_law` — the copies, block by block, are copies of the list;
* `groups_sort_spec` — the Shell sort sorts, for every number of ids and every size of a block;
* `groups_search_law` — the search and membership.
-/

namespace Sys

structure Sizes where
  small : ℕ
  perBlock : ℕ
  max : ℕ
  perBlock_pos : 0 < perBlock
  small_le : small ≤ perBlock
  max_lt : max < 2 ^ 31

structure GroupInfo where
  ngroups : ℕ
  nblocks : ℕ
  /-- `blocks[0]` is `small_block` -/
  small : Bool
  block : ℕ → ℕ → Id

variable (z : Sizes)

def groupAt (gi : GroupInfo) (i : ℕ) : Id := gi.block (i / z.perBlock) (i % z.perBlock)

def setGroupAt (gi : GroupInfo) (i : ℕ) (v : Id) : GroupInfo :=
  { gi with block := fun b k => if b = i / z.perBlock ∧ k = i % z.perBlock then v else gi.block b k }

/-- The ids by their numbers. -/
def groupCells : Cells GroupInfo Id where
  get := groupAt z
  set := setGroupAt z
  get_set gi i v j := by
    have hindex : (j / z.perBlock = i / z.perBlock ∧ j % z.perBlock = i % z.perBlock) ↔ j = i := by
      constructor
      · rintro ⟨hdiv, hmod⟩
        rw [← Nat.div_add_mod j z.perBlock, hdiv, hmod, Nat.div_add_mod]
      · rintro rfl
        exact ⟨rfl, rfl⟩
    simp only [groupAt, setGroupAt, hindex]

/-- An array of the user. -/
def userCells : Cells (ℕ → Id) Id where
  get mem := mem
  set mem i v := Function.update mem i v
  get_set mem i v j := Function.update_apply mem i v j

/-- The ids of the set. -/
def groupList (gi : GroupInfo) : List Id := (groupCells z).content gi gi.ngroups

/-! ## Copies from and to the user -/

/-- The loop that both copies have: `left` blocks, from block `i` on, `count` ids still to come. -/
def copyBlocks {σ : Type*} (cells : Cells σ Id) (ok : ℕ → Bool) (src : ℕ → Id) : ℕ → ℕ → ℕ → σ → Option σ
  | 0, _, _, s => some s
  | left + 1, i, count, s =>
    let cp_count := min z.perBlock count
    if ∀ k < cp_count, ok (i * z.perBlock + k) then
      copyBlocks cells ok src left (i + 1) (count - cp_count) (cells.copy src (i * z.perBlock) cp_count s)
    else none

/-- `none` is `-EFAULT`. -/
def groups_to_user (writable : ℕ → Bool) (gi : GroupInfo) (mem : ℕ → Id) : Option (ℕ → Id) :=
  copyBlocks z userCells writable (groupAt z gi) gi.nblocks 0 gi.ngroups mem

def groups_from_user (user : ℕ → Option Id) (gi : GroupInfo) : Option GroupInfo :=
  copyBlocks z (groupCells z) (fun i => (user i).isSome) (fun i => (user i).getD 0) gi.nblocks 0 gi.ngroups gi

/-! ## Sorting -/

/-- `for (stride = 1; stride < gidsetsize; stride = 3 * stride + 1)` -/
def firstStride (gidsetsize : ℕ) : ℕ → ℕ → ℕ
  | 0, stride => stride
  | fuel + 1, stride => if stride < gidsetsize then firstStride gidsetsize fuel (3 * stride + 1) else stride

/-- `while (stride)` -/
def sortPasses (gidsetsize : ℕ) : ℕ → ℕ → GroupInfo → GroupInfo
  | 0, _, gi => gi
  | fuel + 1, stride, gi =>
    if stride = 0 then gi
    else sortPasses gidsetsize fuel (stride / 3) (Shell.pass (groupCells z) stride gidsetsize gi)

def groups_sort (gi : GroupInfo) : GroupInfo :=
  let stride := firstStride gi.ngroups gi.ngroups 1 / 3
  sortPasses z gi.ngroups stride stride gi

/-! ## Searching -/

/-- An unsigned number as an `int`. -/
def signed (x : Id) : ℤ := if x.val < 2 ^ 31 then x.val else x.val - 2 ^ 32

/-- `int cmp = grp - GROUP_AT(group_info, mid)` -/
def groupCmp (gi : GroupInfo) (grp : Id) (mid : ℕ) : Ordering := compare (signed (grp - groupAt z gi mid)) 0

def groups_search (gi : Option GroupInfo) (grp : Id) : Bool :=
  match gi with
  | none => false
  | some gi => Bisect.find (groupCmp z gi grp) gi.ngroups 0 gi.ngroups

/-- The number of ids, and the array. -/
def sys_getgroups (gi : GroupInfo) (gidsetsize : CInt) (writable : ℕ → Bool) (mem : ℕ → Id) :
    Except Errno (ℕ × (ℕ → Id)) :=
  if gidsetsize.toInt < 0 then .error .EINVAL
  else if gidsetsize ≠ 0 then
    if gi.ngroups > gidsetsize.toInt then .error .EINVAL
    else match groups_to_user z writable gi mem with
      | none => .error .EFAULT
      | some mem' => .ok (gi.ngroups, mem')
  else .ok (gi.ngroups, mem)

variable {z} {gi gi' : GroupInfo} {grp : Id} {left i count : ℕ}

/-! ## The copies -/

section

variable {σ : Type*} {cells : Cells σ Id} {ok : ℕ → Bool} {src : ℕ → Id} {s s' : σ}

theorem copyBlocks_eq_none_iff (hcount : count ≤ left * z.perBlock) :
    copyBlocks z cells ok src left i count s = none ↔ ∃ k < count, ok (i * z.perBlock + k) = false := by
  induction left generalizing i count s with
  | zero =>
    have hzero : count = 0 := by omega
    subst hzero
    simp [copyBlocks]
  | succ left ih =>
    have hrest : count - min z.perBlock count ≤ left * z.perBlock := by
      rw [Nat.succ_mul] at hcount
      omega
    unfold copyBlocks
    dsimp only
    split
    · next hok =>
      rw [ih hrest]
      constructor
      · rintro ⟨k, hk, hbad⟩
        refine ⟨z.perBlock + k, by omega, ?_⟩
        rwa [← Nat.add_assoc, ← Nat.succ_mul]
      · rintro ⟨k, hk, hbad⟩
        have hge : z.perBlock ≤ k := by
          by_contra hlt
          rw [hok k (by omega)] at hbad
          cases hbad
        refine ⟨k - z.perBlock, by omega, ?_⟩
        rw [Nat.succ_mul, Nat.add_assoc, Nat.add_sub_cancel' hge]
        exact hbad
    · next hbad =>
      push Not at hbad
      obtain ⟨k, hk, hbad⟩ := hbad
      exact iff_of_true rfl ⟨k, by omega, by simpa using hbad⟩

theorem copyBlocks_get (hcount : count ≤ left * z.perBlock) (h : copyBlocks z cells ok src left i count s = some s')
    (j : ℕ) : cells.get s' j =
      if i * z.perBlock ≤ j ∧ j < i * z.perBlock + count then src j else cells.get s j := by
  induction left generalizing i count s with
  | zero =>
    cases h
    rw [if_neg (by omega)]
  | succ left ih =>
    have hrest : count - min z.perBlock count ≤ left * z.perBlock := by
      rw [Nat.succ_mul] at hcount
      omega
    unfold copyBlocks at h
    dsimp only at h
    split at h
    · rw [ih hrest h, Nat.succ_mul, cells.get_copy]
      -- an index of this block, of a later one, or of neither
      by_cases hhere : i * z.perBlock ≤ j ∧ j < i * z.perBlock + min z.perBlock count
      · rw [if_neg (by omega), if_pos hhere, if_pos (by omega)]
      · rw [if_neg hhere]
        by_cases hlater : i * z.perBlock + z.perBlock ≤ j ∧
            j < i * z.perBlock + z.perBlock + (count - min z.perBlock count)
        · rw [if_pos hlater, if_pos (by omega)]
        · rw [if_neg hlater, if_neg (by omega)]
    · cases h

theorem copyBlocks_keeps {P : σ → Prop} (hset : ∀ s i v, P s → P (cells.set s i v)) (hs : P s)
    (h : copyBlocks z cells ok src left i count s = some s') : P s' := by
  induction left generalizing i count s with
  | zero =>
    cases h
    exact hs
  | succ left ih =>
    unfold copyBlocks at h
    dsimp only at h
    split at h
    · exact ih (cells.copy_keeps hset _ _ _ hs) h
    · cases h

end

/-- The set has the blocks it needs. -/
def Fits (z : Sizes) (gi : GroupInfo) : Prop := gi.ngroups ≤ gi.nblocks * z.perBlock

/-- Neither `ngroups` nor the blocks themselves. -/
def SameShape (gi gi' : GroupInfo) : Prop :=
  gi'.ngroups = gi.ngroups ∧ gi'.nblocks = gi.nblocks ∧ gi'.small = gi.small

theorem sameShape_set (g : GroupInfo) (i : ℕ) (v : Id) (h : SameShape gi g) : SameShape gi (setGroupAt z g i v) := h

/-- **From the user.** -/
theorem groups_from_user_law (user : ℕ → Option Id) (hfits : Fits z gi) :
    (groups_from_user z user gi = none ↔ ∃ k < gi.ngroups, user k = none) ∧
      ∀ gi', groups_from_user z user gi = some gi' →
        SameShape gi gi' ∧ (groupList z gi').map some = (List.range gi.ngroups).map user := by
  unfold groups_from_user
  refine ⟨?_, fun gi' h => ?_⟩
  · rw [copyBlocks_eq_none_iff hfits]
    simp
  · have hshape : SameShape gi gi' := copyBlocks_keeps (P := SameShape gi) sameShape_set ⟨rfl, rfl, rfl⟩ h
    refine ⟨hshape, ?_⟩
    have hread : ∀ k < gi.ngroups, (user k).isSome := by
      intro k hk
      by_contra hbad
      have hnone := h.symm.trans ((copyBlocks_eq_none_iff hfits).2 ⟨k, hk, by simpa using hbad⟩)
      cases hnone
    rw [groupList, hshape.1, Cells.content, List.map_map]
    refine List.map_congr_left fun k hk => ?_
    rw [List.mem_range] at hk
    obtain ⟨g, hg⟩ := Option.isSome_iff_exists.1 (hread k hk)
    have hget := copyBlocks_get hfits h k
    rw [if_pos (by omega)] at hget
    simp [hget, hg]

/-- **To the user.** -/
theorem groups_to_user_law (writable : ℕ → Bool) (mem : ℕ → Id) (hfits : Fits z gi) :
    (groups_to_user z writable gi mem = none ↔ ∃ k < gi.ngroups, writable k = false) ∧
      ∀ mem', groups_to_user z writable gi mem = some mem' →
        (List.range gi.ngroups).map mem' = groupList z gi ∧ ∀ k, gi.ngroups ≤ k → mem' k = mem k := by
  unfold groups_to_user
  refine ⟨?_, fun mem' h => ⟨?_, fun k hk => ?_⟩⟩
  · rw [copyBlocks_eq_none_iff hfits]
    simp
  · refine List.map_congr_left fun k hk => ?_
    rw [List.mem_range] at hk
    have hget := copyBlocks_get hfits h k
    rw [if_pos (by omega)] at hget
    exact hget
  · have hget := copyBlocks_get hfits h k
    rw [if_neg (by omega)] at hget
    exact hget

/-! ## The sort -/

/-- The strides are those with `2 * stride + 1` a power of 3. -/
theorem firstStride_power (n fuel : ℕ) : ∀ stride : ℕ, (∃ k, 2 * stride + 1 = 3 ^ (k + 1)) →
    ∃ k, 2 * firstStride n fuel stride + 1 = 3 ^ (k + 1) := by
  induction fuel with
  | zero => exact fun _ => id
  | succ fuel ih =>
    rintro stride ⟨k, hk⟩
    unfold firstStride
    split
    · refine ih _ ⟨k + 1, ?_⟩
      rw [Nat.pow_succ, ← hk]
      omega
    · exact ⟨k, hk⟩

/-- The loop ends because the stride is large enough, not because it has been tried long enough. -/
theorem firstStride_ge (n : ℕ) : ∀ fuel stride : ℕ, n ≤ fuel + stride → n ≤ firstStride n fuel stride := by
  intro fuel
  induction fuel with
  | zero => intro stride h; simpa [firstStride] using h
  | succ fuel ih =>
    intro stride h
    unfold firstStride
    split
    · exact ih _ (by omega)
    · omega

theorem sortPasses_perm (n : ℕ) (fuel stride : ℕ) (gi : GroupInfo) :
    ((groupCells z).content (sortPasses z n fuel stride gi) n).Perm ((groupCells z).content gi n) := by
  induction fuel generalizing stride gi with
  | zero => exact List.Perm.refl _
  | succ fuel ih =>
    unfold sortPasses
    split
    · exact List.Perm.refl _
    · next hstride => exact (ih _ _).trans (Shell.pass_perm (Nat.pos_of_ne_zero hstride))

theorem sortPasses_shape (n fuel stride : ℕ) {g : GroupInfo} (h : SameShape gi g) :
    SameShape gi (sortPasses z n fuel stride g) := by
  induction fuel generalizing stride g with
  | zero => exact h
  | succ fuel ih =>
    unfold sortPasses
    split
    · exact h
    · exact ih _ (Shell.pass_keeps (c := groupCells z) sameShape_set h)

/-- The last of the passes has stride 1. -/
theorem sortPasses_sorted (n k : ℕ) : ∀ {fuel stride : ℕ} (gi : GroupInfo), stride ≤ fuel →
    2 * stride + 1 = 3 ^ (k + 1) → Shell.Sorted 1 n ((groupCells z).get (sortPasses z n fuel stride gi)) := by
  induction k with
  | zero =>
    intro fuel stride gi hfuel hk
    have hone : stride = 1 := by omega
    subst hone
    obtain ⟨fuel, rfl⟩ : ∃ f, fuel = f + 1 := ⟨fuel - 1, by omega⟩
    have hend : ∀ g : GroupInfo, sortPasses z n fuel 0 g = g := by
      intro g
      cases fuel <;> rfl
    unfold sortPasses
    rw [if_neg Nat.one_ne_zero, hend]
    exact Shell.pass_sorted Nat.one_pos n gi
  | succ k ih =>
    intro fuel stride gi hfuel hk
    have hpos : 0 < 3 ^ (k + 1) := Nat.pow_pos (by omega)
    rw [Nat.pow_succ] at hk
    obtain ⟨fuel, rfl⟩ : ∃ f, fuel = f + 1 := ⟨fuel - 1, by omega⟩
    unfold sortPasses
    rw [if_neg (by omega)]
    exact ih _ (by omega) (by omega)

theorem groups_sort_shape (gi : GroupInfo) : SameShape gi (groups_sort z gi) :=
  sortPasses_shape _ _ _ ⟨rfl, rfl, rfl⟩

/-- **The sort.** -/
theorem groups_sort_spec (z : Sizes) (gi : GroupInfo) :
    (groupList z (groups_sort z gi)).Pairwise (· ≤ ·) ∧ (groupList z (groups_sort z gi)).Perm (groupList z gi) := by
  have hshape := (groups_sort_shape (z := z) gi).1
  unfold groupList
  rw [hshape]
  refine ⟨Shell.pairwise_of_sorted ?_, sortPasses_perm _ _ _ _⟩
  obtain ⟨k, hk⟩ := firstStride_power gi.ngroups gi.ngroups 1 ⟨0, rfl⟩
  have hge := firstStride_ge gi.ngroups gi.ngroups 1 (by omega)
  cases k with
  | zero =>
    -- the first stride is 1, which is too large already for the number of ids
    have hone : gi.ngroups ≤ 1 := by omega
    intro i hi
    omega
  | succ k =>
    refine sortPasses_sorted gi.ngroups k gi (Nat.le_refl _) ?_
    rw [Nat.pow_succ] at hk
    omega

/-! ## The search -/

/-- The two ids are less than 2^31 apart, so that their difference is an `int`. -/
def Near (grp g : Id) : Prop := grp.val < g.val + 2 ^ 31 ∧ g.val < grp.val + 2 ^ 31

instance (grp g : Id) : Decidable (Near grp g) := inferInstanceAs (Decidable (_ ∧ _))

theorem signed_sub (h : Near grp g) : signed (grp - g) = grp.val - g.val := by
  obtain ⟨hbelow, habove⟩ := h
  have hgrp := grp.isLt
  have hg := g.isLt
  unfold signed
  rw [Fin.sub_def]
  dsimp only
  omega

theorem signed_sub_eq_zero : signed (grp - g) = 0 ↔ grp = g := by
  rw [← sub_eq_zero (a := grp), Fin.ext_iff]
  have hlt := (grp - g).isLt
  unfold signed
  simp only [Fin.val_zero]
  split <;> omega

theorem groupCmp_eq_iff : groupCmp z gi grp i = .eq ↔ grp = groupAt z gi i := by
  unfold groupCmp
  rw [compare_eq_iff_eq, signed_sub_eq_zero]

theorem mem_groupList : grp ∈ groupList z gi ↔ ∃ i < gi.ngroups, groupAt z gi i = grp := by
  simp [groupList, Cells.content, groupCells]

/-- **The search.** What it finds is in the set, whatever the order; in a sorted set it finds each id that is near
to all of the set. -/
theorem groups_search_law (z : Sizes) (gi : GroupInfo) (grp : Id) :
    (groups_search z (some gi) grp = true → grp ∈ groupList z gi) ∧
      ((groupList z gi).Pairwise (· ≤ ·) → (∀ g ∈ groupList z gi, Near grp g) →
        (groups_search z (some gi) grp = true ↔ grp ∈ groupList z gi)) := by
  have hsound : groups_search z (some gi) grp = true → grp ∈ groupList z gi := by
    intro h
    obtain ⟨i, -, hlt, heq⟩ := Bisect.find_sound h
    exact mem_groupList.2 ⟨i, hlt, (groupCmp_eq_iff.1 heq).symm⟩
  refine ⟨hsound, fun hsorted hnear => ⟨hsound, fun hmem => ?_⟩⟩
  obtain ⟨i, hi, hgrp⟩ := mem_groupList.1 hmem
  have hle : ∀ j k, j < k → k < gi.ngroups → groupAt z gi j ≤ groupAt z gi k := by
    intro j k hjk hk
    have hpair := List.pairwise_iff_getElem.1 hsorted j k (by simp [groupList]; omega) (by simpa [groupList]) hjk
    simp only [groupList, Cells.getElem_content] at hpair
    exact hpair
  have hcmp : ∀ j < gi.ngroups, signed (grp - groupAt z gi j) = grp.val - (groupAt z gi j).val :=
    fun j hj => signed_sub (hnear _ (mem_groupList.2 ⟨j, hj, rfl⟩))
  refine Bisect.find_complete (i := i) (by omega) (Nat.zero_le _) hi (groupCmp_eq_iff.2 hgrp.symm) ?_ ?_
  · intro j hj hlt
    have hord := Fin.le_iff_val_le_val.1 (hle j i hj hi)
    unfold groupCmp at hlt
    rw [compare_lt_iff_lt, hcmp j (by omega)] at hlt
    rw [hgrp] at hord
    omega
  · intro j hj hij hgt
    have hord := Fin.le_iff_val_le_val.1 (hle i j hij hj)
    unfold groupCmp at hgt
    rw [compare_gt_iff_gt, hcmp j hj] at hgt
    rw [hgrp] at hord
    omega

/-- Blocks of two. -/
def sampleSizes : Sizes := ⟨1, 2, 65536, by decide, by decide, by decide⟩

/-- These ids and 0s. -/
def sampleGroups (ids : List Id) : GroupInfo :=
  ⟨ids.length, ids.length, false, fun b k => ids.getD (b * 2 + k) 0⟩

theorem groups_search_law_sample : groups_search sampleSizes (some (sampleGroups [1, 2, 7])) 7 = true := by
  have hlist : groupList sampleSizes (sampleGroups [1, 2, 7]) = [1, 2, 7] := by decide
  refine ((groups_search_law sampleSizes (sampleGroups [1, 2, 7]) 7).2 (by decide) ?_).2 (by decide)
  rw [hlist]
  simp [Near]

/-- An id that is in a sorted set and is not found, since another one is too far away from it. -/
example :
    (groupList sampleSizes (sampleGroups [1, 2, 4026531840])).Pairwise (· ≤ ·) ∧
      4026531840 ∈ groupList sampleSizes (sampleGroups [1, 2, 4026531840]) ∧
      groups_search sampleSizes (some (sampleGroups [1, 2, 4026531840])) 4026531840 = false :=
  ⟨by decide, by decide, by decide⟩

end Sys
