import LinuxLearning.Speller.Buttons
/-!
# The layout table

| here | there |
| --- | --- |
| `ButtonDef`, `Layout`      | `self.tttLayouts[l][b]` and `self.tttLayouts[l]` (`:87-98`) |
| `buildLayoutTable`         | `Speller:buildLayoutTable` (`:298-347`) |
| `nextLayout`               | the search of `switchLayout` (`:780-796`) |
-/

namespace Speller

open Lua (index)

/-- Dynamic data of a button. -/
structure ButtonDef where
  bFill : Bool
  nCharacter : ℕ
  sText : String
  bEnabled : Bool
deriving DecidableEq, Repr

structure Layout where
  bVisible : Bool
  buttons : List ButtonDef
deriving DecidableEq, Repr

/-! ## Building the table -/

/-- The button for a character code of the sequence. -/
def newButton (p : Platform) (code : ℕ) : ButtonDef :=
  let bFill := code == p.nFill
  if code = p.nEmpty ∨ code = 0 ∨ bFill then ⟨bFill, 0, "", false⟩
  else if code = nSpace then ⟨bFill, code, p.formatArabic p.TextSpace, false⟩
  else if code = p.nEol then ⟨bFill, 0x000A, p.utf8Encode 0x000A, false⟩
  else ⟨bFill, code, p.utf8Encode code, false⟩

/-- The flags are set by the first refresh. -/
theorem newButton_bEnabled (p : Platform) (code : ℕ) : (newButton p code).bEnabled = false := by
  simp only [newButton]
  split_ifs <;> rfl

/-- `tsSequence` -/
def tsSequence (p : Platform) : List String := p.getSpellerLayoutSequence (p.LayoutSequence.getD "")

/-- The character codes of layout `i`, none if the sequence has no such layout. -/
def tCharacters (p : Platform) (i : Int) : List ℕ := p.utf8Decode ((index (tsSequence p) i).getD "")

/-- `self.tttLayouts`: at least one layout, also without a sequence. -/
def buildLayoutTable (p : Platform) : List Layout :=
  (Lua.upTo (max (tsSequence p).length 1)).map fun i => ⟨false, (tCharacters p i).map (newButton p)⟩

/-- `self.tttLayouts.bUseFill` -/
def useFill (layouts : List Layout) : Bool := layouts.any fun l => l.buttons.any ButtonDef.bFill

/-! ## The next layout -/

/-- Where the search goes from layout `nLayout`. -/
def advance (nNumLayouts : ℕ) (nLayout : ℤ) : ℤ := if nLayout ≥ nNumLayouts then 1 else nLayout + 1

/-- `tttLayouts[nLayout].bVisible`, `none` where Lua raises. -/
def visibleAt (layouts : List Layout) (nLayout : ℤ) : Option Bool := (index layouts nLayout).map Layout.bVisible

/-- `for i = 1, nNumLayouts`: the layout the loop ends on after at most that many steps. -/
def search (layouts : List Layout) : ℕ → ℤ → Option ℤ
  | 0, nLayout => some nLayout
  | i + 1, nLayout => do
    let nLayout := advance layouts.length nLayout
    if ← visibleAt layouts nLayout then some nLayout else search layouts i nLayout

/-- The new `self.nLayout` of `switchLayout`. -/
def nextLayout (p : Platform) (layouts : List Layout) (nLayout : ℤ) : Option ℤ := do
  let found ← search layouts layouts.length nLayout
  if ← visibleAt layouts found then some found else some (p.limit nLayout 1 layouts.length)

/-! ## The search goes once around -/

section NextLayout

variable {layouts : List Layout} {nLayout : ℤ}

/-- The layout `k` steps after `nLayout`. -/
def ahead (nNumLayouts : ℕ) (nLayout : ℤ) (k : ℕ) : ℤ :=
  if nLayout + k ≤ nNumLayouts then nLayout + k else nLayout + k - nNumLayouts

theorem advance_ahead {n k : ℕ} (h₂ : nLayout ≤ n) (hk : k < n) :
    advance n (ahead n nLayout k) = ahead n nLayout (k + 1) := by
  unfold advance ahead
  push_cast
  split_ifs <;> omega

theorem ahead_zero {n : ℕ} (h : nLayout ≤ n) : ahead n nLayout 0 = nLayout := by
  unfold ahead
  split_ifs <;> omega

theorem ahead_full {n : ℕ} (h : 1 ≤ nLayout) : ahead n nLayout n = nLayout := by
  unfold ahead
  split_ifs <;> omega

theorem ahead_bounds {n k : ℕ} (h₁ : 1 ≤ nLayout) (h₂ : nLayout ≤ n) (hk : k ≤ n) :
    1 ≤ ahead n nLayout k ∧ ahead n nLayout k ≤ n := by
  unfold ahead
  split_ifs <;> omega

/-- Every layout is met once, and `nLayout` itself last. -/
theorem exists_ahead {n : ℕ} {i : ℤ} (h₁ : 1 ≤ nLayout) (h₂ : nLayout ≤ n) (hi₁ : 1 ≤ i) (hi₂ : i ≤ n) :
    ∃ k : ℕ, 1 ≤ k ∧ k ≤ n ∧ ahead n nLayout k = i := by
  unfold ahead
  by_cases h : nLayout < i
  · refine ⟨(i - nLayout).toNat, by omega, by omega, ?_⟩
    split_ifs <;> omega
  · refine ⟨(i + n - nLayout).toNat, by omega, by omega, ?_⟩
    split_ifs <;> omega

theorem ahead_ne {n k : ℕ} (hk₁ : 1 ≤ k) (hk : k < n) :
    ahead n nLayout k ≠ nLayout := by
  unfold ahead
  split_ifs <;> omega

theorem visibleAt_isSome (h₁ : 1 ≤ nLayout) (h₂ : nLayout ≤ layouts.length) :
    ∃ b, visibleAt layouts nLayout = some b := by
  obtain ⟨l, hl⟩ := Lua.exists_index h₁ h₂
  exact ⟨l.bVisible, by rw [visibleAt, hl, Option.map_some]⟩

/-- The search stops at the first visible layout, or after `i` steps. -/
theorem search_spec (h₁ : 1 ≤ nLayout) (h₂ : nLayout ≤ layouts.length) :
    ∀ {i k : ℕ}, k + i ≤ layouts.length →
      ∃ j, k ≤ j ∧ j ≤ k + i ∧
        search layouts i (ahead layouts.length nLayout k) = some (ahead layouts.length nLayout j) ∧
        (∀ m, k < m → m < j → visibleAt layouts (ahead layouts.length nLayout m) = some false) ∧
        (k < j ∧ visibleAt layouts (ahead layouts.length nLayout j) = some true ∨
          j = k + i ∧ (k < j → visibleAt layouts (ahead layouts.length nLayout j) = some false))
  | 0, k, _ => ⟨k, le_rfl, le_rfl, rfl, by omega, .inr ⟨rfl, by omega⟩⟩
  | i + 1, k, hk => by
    have hadv := advance_ahead h₂ (show k < layouts.length by omega)
    obtain ⟨hb₁, hb₂⟩ := ahead_bounds h₁ h₂ (show k + 1 ≤ layouts.length by omega)
    obtain ⟨b, hb⟩ := visibleAt_isSome hb₁ hb₂
    unfold search
    simp only [hadv, hb, Option.bind_eq_bind, Option.bind_some]
    cases b with
    | true => exact ⟨k + 1, by omega, by omega, by simp, by omega, .inl ⟨by omega, hb⟩⟩
    | false =>
      obtain ⟨j, hj₁, hj₂, hsearch, hmid, hlast⟩ := search_spec h₁ h₂ (i := i) (k := k + 1) (by omega)
      refine ⟨j, by omega, by omega, by simpa using hsearch, ?_, ?_⟩
      · intro m hm₁ hm₂
        by_cases hm : m = k + 1
        · rw [hm, hb]
        · exact hmid m (by omega) hm₂
      · rcases hlast with ⟨hj, hv⟩ | ⟨hj, hv⟩
        · exact .inl ⟨by omega, hv⟩
        · refine .inr ⟨by omega, fun _ => ?_⟩
          by_cases hjk : j = k + 1
          · rw [hjk, hb]
          · exact hv (by omega)

/-- No layout is visible. -/
def NoneVisible (layouts : List Layout) : Prop := ∀ i, visibleAt layouts i ≠ some true

/-- What the search of `switchLayout` finds: the first visible layout after `nLayout` in cyclic
order, or `nLayout` itself if there is none. -/
def IsNext (layouts : List Layout) (nLayout m : ℤ) : Prop :=
  (∃ k : ℕ, 1 ≤ k ∧ k ≤ layouts.length ∧ m = ahead layouts.length nLayout k ∧
    visibleAt layouts m = some true ∧
    ∀ j, 1 ≤ j → j < k → visibleAt layouts (ahead layouts.length nLayout j) = some false) ∨
  m = nLayout ∧ NoneVisible layouts

/-- **The search of `switchLayout`** raises nothing and finds the next layout. -/
theorem nextLayout_spec (p : Platform) (h₁ : 1 ≤ nLayout) (h₂ : nLayout ≤ layouts.length) :
    ∃ m, nextLayout p layouts nLayout = some m ∧ IsNext layouts nLayout m := by
  have hstart := ahead_zero h₂
  obtain ⟨j, -, hj, hsearch, hmid, hlast⟩ := search_spec h₁ h₂ (i := layouts.length) (k := 0) (by omega)
  rw [hstart] at hsearch
  unfold nextLayout
  simp only [hsearch, Option.bind_eq_bind, Option.bind_some]
  rcases hlast with ⟨hj₀, hv⟩ | ⟨hj₀, hv⟩
  · refine ⟨ahead layouts.length nLayout j, by simp [hv], .inl ⟨j, hj₀, by omega, rfl, hv, ?_⟩⟩
    exact fun i hi₁ hi₂ => hmid i (by omega) hi₂
  · -- the search has come back to `nLayout` and found nothing
    have hself : ahead layouts.length nLayout j = nLayout := by
      rw [hj₀, Nat.zero_add]
      exact ahead_full h₁
    have hvf := hv (by omega)
    refine ⟨nLayout, ?_, .inr ⟨rfl, ?_⟩⟩
    · simp [hvf, p.limit_eq_self _ _ _ h₁ h₂]
    · intro i hi
      obtain ⟨l, hl, -⟩ := Option.map_eq_some_iff.1 hi
      obtain ⟨hi₁, hi₂⟩ := Lua.bounds_of_index hl
      obtain ⟨k, hk₁, hk₂, rfl⟩ := exists_ahead h₁ h₂ hi₁ hi₂
      by_cases hk : k = j
      · rw [hk, hvf] at hi
        simp at hi
      · rw [hmid k (by omega) (by omega)] at hi
        simp at hi

theorem IsNext.bounds {m : ℤ} (h : IsNext layouts nLayout m) (h₁ : 1 ≤ nLayout)
    (h₂ : nLayout ≤ layouts.length) : 1 ≤ m ∧ m ≤ layouts.length := by
  rcases h with ⟨k, -, hk, rfl, -⟩ | ⟨rfl, -⟩
  · exact ahead_bounds h₁ h₂ hk
  · exact ⟨h₁, h₂⟩

/-- The layout found is visible, unless none is. -/
theorem IsNext.visible {m : ℤ} (h : IsNext layouts nLayout m) :
    visibleAt layouts m = some true ∨ NoneVisible layouts := by
  rcases h with ⟨k, -, -, -, hv, -⟩ | ⟨-, hnone⟩
  · exact .inl hv
  · exact .inr hnone

/-- The search leaves `nLayout` if and only if another layout is visible. -/
theorem IsNext.ne_iff {m : ℤ} (h : IsNext layouts nLayout m) (h₁ : 1 ≤ nLayout)
    (h₂ : nLayout ≤ layouts.length) :
    m ≠ nLayout ↔ ∃ i, i ≠ nLayout ∧ visibleAt layouts i = some true := by
  constructor
  · intro hne
    rcases h with ⟨k, -, -, -, hv, -⟩ | ⟨rfl, -⟩
    · exact ⟨m, hne, hv⟩
    · exact absurd rfl hne
  · rintro ⟨i, hne, hi⟩ rfl
    rcases h with ⟨k, hk₁, hk₂, hm, -, hmid⟩ | ⟨-, hnone⟩
    · obtain ⟨l, hl, -⟩ := Option.map_eq_some_iff.1 hi
      obtain ⟨hi₁, hi₂⟩ := Lua.bounds_of_index hl
      obtain ⟨j, hj₁, hj₂, rfl⟩ := exists_ahead h₁ h₂ hi₁ hi₂
      have hk : k = layouts.length := by
        by_contra hk
        exact ahead_ne hk₁ (by omega) hm.symm
      have hj : j < k := by
        by_contra hj
        have hjn : j = layouts.length := by omega
        rw [hjn, ahead_full h₁] at hne
        exact hne rfl
      rw [hmid j hj₁ hj] at hi
      simp at hi
    · exact hnone i hi

/-- The number of visible layouts. -/
def countVisible (layouts : List Layout) : ℕ := layouts.countP Layout.bVisible

/-- When the current layout is visible or none is, more than one layout is visible if and only if
another one is. -/
theorem one_lt_countVisible (h₁ : 1 ≤ nLayout) (h₂ : nLayout ≤ layouts.length)
    (hvis : visibleAt layouts nLayout = some true ∨ NoneVisible layouts) :
    1 < countVisible layouts ↔ ∃ i, i ≠ nLayout ∧ visibleAt layouts i = some true := by
  have hlt : (nLayout - 1).toNat < layouts.length := by omega
  have hcur : visibleAt layouts nLayout = some layouts[(nLayout - 1).toNat].bVisible := by
    unfold visibleAt
    rw [Lua.index_eq_some.2 ⟨h₁, List.getElem?_eq_getElem hlt⟩, Option.map_some]
  -- the layouts other than the current one
  have hothers : 0 < (layouts.eraseIdx (nLayout - 1).toNat).countP Layout.bVisible ↔
      ∃ i, i ≠ nLayout ∧ visibleAt layouts i = some true := by
    simp only [List.countP_pos_iff, List.mem_eraseIdx_iff_getElem?]
    constructor
    · rintro ⟨l, ⟨k, hk, hl⟩, hv⟩
      refine ⟨k + 1, by omega, ?_⟩
      unfold visibleAt
      rw [Lua.index_eq_some.2 ⟨by omega, by simpa using hl⟩, Option.map_some, hv]
    · rintro ⟨i, hne, hi⟩
      obtain ⟨l, hl, hv⟩ := Option.map_eq_some_iff.1 hi
      obtain ⟨hi₁, hl⟩ := Lua.index_eq_some.1 hl
      exact ⟨l, ⟨(i - 1).toNat, by omega, hl⟩, hv⟩
  have hcount : countVisible layouts =
      (layouts.eraseIdx (nLayout - 1).toNat).countP Layout.bVisible +
        if layouts[(nLayout - 1).toNat].bVisible then 1 else 0 := by
    unfold countVisible
    rw [← (List.getElem_cons_eraseIdx_perm hlt).countP_eq, List.countP_cons]
  rw [← hothers, hcount]
  rcases hvis with hvis | hnone
  · rw [hcur, Option.some.injEq] at hvis
    rw [hvis, if_pos rfl]
    omega
  · have hzero : ¬ 0 < (layouts.eraseIdx (nLayout - 1).toNat).countP Layout.bVisible := by
      rw [hothers]
      rintro ⟨i, -, hi⟩
      exact hnone i hi
    split_ifs <;> omega

end NextLayout

end Speller
