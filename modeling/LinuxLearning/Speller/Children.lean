import LinuxLearning.Speller.Hits
/-!
# Looking up a child by its index

| here | there |
| --- | --- |
| `layoutTypes`              | `Speller.QWERTY_LAYOUT = 1`, … (`:127-131`) |
| `getAbsoluteChildIndex`    | `Speller:getAbsoluteChildIndex` (`:1271-1285`) |

The function takes the table of number `self.nLayout`, the position of the layout in the sequence, where `preDraw`
(`:846`) takes the one of number `self.nCurrentLayoutType`. It is to return 0 and the coordinates of a valid child,
else a negative error code.

* `drawnChild` — what the lookup returns if it goes by the table that is drawn;
* `SameChild` — the index is 0, or the table looked up gives the same as the one drawn: it is this one, the index is
  beyond both, or the buttons stand on the same spot;
* `child_law` — the lookup agrees with `drawnChild` if and only if `SameChild`.
-/

namespace Speller

open Lua (index orRaise)

variable {p : Platform} {s : State} {t t' : LayoutType} {i nIndex : ℤ}

/-- The layout types by their number. -/
def layoutTypes : List LayoutType := [.QWERTY_LAYOUT, .ABC_LAYOUT, .ABC_LAYOUT_EXT, .NUMBLOCK_LAYOUT, .ABC_LAYOUT_47BTN]

/-- The error the lookup ends with. -/
inductive ChildError
  /-- `nIndex` is compared with `self.tNumButtons[self.nLayout]`, which is `nil`. -/
  | numButtons
  /-- `self.tttButtons[self.nLayout][nIndex]` is `nil`. -/
  | child
deriving DecidableEq, Repr

/-- The error code and the coordinates. -/
def getAbsoluteChildIndex (p : Platform) (nIndex : ℤ) : Lua ChildError State (ℤ × ℚ × ℚ) := do
  let s ← get
  if nIndex ≠ 0 then do
    let nNumButtons ← orRaise .numButtons ((index layoutTypes s.nLayout).map (tNumButtons p))
    if nIndex ≤ nNumButtons then do
      let tButton ← orRaise .child ((index layoutTypes s.nLayout).bind fun l => index (tttButtons p l) nIndex)
      pure (0, tButton.x, tButton.y)
    else pure (-1, -1, -1)
  else pure (-1, -1, -1)

/-- Code 0 and the coordinates of button `nIndex` of a table, code -1 and no coordinates where it has none. -/
def childOf (tButton : Option Button) : ℤ × ℚ × ℚ :=
  match tButton with
  | some tButton => (0, tButton.x, tButton.y)
  | none => (-1, -1, -1)

/-- The child in the table that `preDraw` draws. -/
def drawnChild (p : Platform) (nIndex : ℤ) (s : State) : ℤ × ℚ × ℚ :=
  childOf (index (tttButtons p s.nCurrentLayoutType) nIndex)

/-- What the lookup returns, or raises. -/
theorem run_getAbsoluteChildIndex (p : Platform) (nIndex : ℤ) (s : State) :
    Lua.run (getAbsoluteChildIndex p nIndex) s =
      (if nIndex = 0 then .ok (-1, -1, -1) else
        match index layoutTypes s.nLayout with
        | none => .error .numButtons
        | some t => if nIndex < 0 then .error .child else .ok (childOf (index (tttButtons p t) nIndex)), s) := by
  unfold getAbsoluteChildIndex
  rw [Lua.run_bind]
  show Lua.run (if nIndex ≠ 0 then _ else _) s = _
  by_cases hzero : nIndex = 0
  · simp [hzero]
  cases ht : index layoutTypes s.nLayout with
  | none =>
    simp only [ne_eq, hzero, not_false_eq_true, if_true, if_false, Option.map_none, Lua.orRaise_none]
    rfl
  | some t =>
    simp only [ne_eq, hzero, not_false_eq_true, if_true, if_false, Option.map_some, Lua.orRaise_some,
      Option.bind_some, Lua.run_bind, Lua.run_pure]
    cases hbutton : index (tttButtons p t) nIndex with
    | none =>
      rw [Lua.index_eq_none] at hbutton
      by_cases hneg : nIndex < 0
      · have hle : nIndex ≤ tNumButtons p t := by omega
        rw [if_pos hle, if_pos hneg]
        rfl
      · have hgt : ¬ nIndex ≤ tNumButtons p t := by
          unfold tNumButtons
          omega
        rw [if_neg hgt, if_neg hneg]
        rfl
    | some tButton =>
      have hin := Lua.bounds_of_index hbutton
      have hle : nIndex ≤ tNumButtons p t := hin.2
      have hpos : ¬ nIndex < 0 := by omega
      rw [if_pos hle, if_neg hpos]
      rfl

/-! ## Where two tables agree -/

/-- The two ABC tables have their buttons in the same places. -/
def LayoutType.family : LayoutType → LayoutType
  | .ABC_LAYOUT_EXT => .ABC_LAYOUT
  | t => t

/-- The row heights of a table on a wide display, one of 480 and one of 400 pixels. -/
def rowHeights : LayoutType → ℚ × ℚ × ℚ
  | .QWERTY_LAYOUT => (70, 40, 10)
  | .ABC_LAYOUT => (90, 51, 45)
  | .ABC_LAYOUT_EXT => (90, 51, 45)
  | .NUMBLOCK_LAYOUT => (70, 40, 10)
  | .ABC_LAYOUT_47BTN => (70, 40, 10)

theorem nSpacingY_eq (p : Platform) (t : LayoutType) : (tableMetrics p t).nSpacingY =
    if p.displayWidth = 480 then (rowHeights t).2.1 else if p.displayWidth = 400 then (rowHeights t).2.2
    else (rowHeights t).1 := by
  cases t <;> (unfold tableMetrics rowHeights; try unfold metricsABC) <;> unfold metrics <;> split_ifs <;> rfl

/-- The places of two tables, one beside the other. -/
def places (t t' : LayoutType) : List (Cell × Cell) := (cells t).zip (cells t')

theorem family_places (t t' : LayoutType) : t.family = t'.family →
    ∀ a ∈ places t t', a.1.column = a.2.column ∧ a.1.row = a.2.row := by
  cases t <;> cases t' <;> decide +kernel

theorem first_place (t : LayoutType) : ((cells t).head?.map fun c => (c.column, c.row)) = some (0, 0) := by
  cases t <;> decide +kernel

/-- After the first button the tables of two families are never in the same row. -/
theorem rows_differ (t t' : LayoutType) : t.family ≠ t'.family → ∀ a ∈ (places t t').tail,
    a.1.row * (rowHeights t).1 ≠ a.2.row * (rowHeights t').1 ∧
      a.1.row * (rowHeights t).2.1 ≠ a.2.row * (rowHeights t').2.1 ∧
      a.1.row * (rowHeights t).2.2 ≠ a.2.row * (rowHeights t').2.2 := by
  cases t <;> cases t' <;> decide +kernel

/-- Two buttons of one index and their places. -/
theorem exists_places {tButton tButton' : Button} (h : index (tttButtons p t) i = some tButton)
    (h' : index (tttButtons p t') i = some tButton') :
    ∃ c c', (places t t')[(i - 1).toNat]? = some (c, c') ∧ tButton = c.button p (tableMetrics p t) ∧
      tButton' = c'.button p (tableMetrics p t') := by
  obtain ⟨c, hc, rfl⟩ := exists_cell h
  obtain ⟨c', hc', rfl⟩ := exists_cell h'
  refine ⟨c, c', ?_, rfl, rfl⟩
  unfold places
  rw [List.getElem?_zip_eq_some]
  exact ⟨by simpa [List.mem_zipIdx_iff_getElem?] using hc, by simpa [List.mem_zipIdx_iff_getElem?] using hc'⟩

theorem family_metrics (p : Platform) (h : t.family = t'.family) : tableMetrics p t = tableMetrics p t' := by
  cases t <;> cases t' <;> first | rfl | cases h

/-- Buttons of one index in two tables stand on one spot if the tables are of one family, or if they are the first
ones of tables with the same left offset. -/
theorem sameSpot_iff {tButton tButton' : Button} (h : index (tttButtons p t) i = some tButton)
    (h' : index (tttButtons p t') i = some tButton') :
    tButton.x = tButton'.x ∧ tButton.y = tButton'.y ↔
      t.family = t'.family ∨ i = 1 ∧ (tableMetrics p t).nLeftOffset = (tableMetrics p t').nLeftOffset := by
  obtain ⟨c, c', hplace, rfl, rfl⟩ := exists_places h h'
  have hin := Lua.bounds_of_index h
  simp only [Cell.button, buttonAt]
  by_cases hfamily : t.family = t'.family
  · obtain ⟨hcolumn, hrow⟩ := family_places t t' hfamily _ (List.mem_of_getElem? hplace)
    simp only at hcolumn hrow
    rw [hcolumn, hrow, family_metrics p hfamily]
    simp [hfamily]
  simp only [hfamily, false_or]
  have hzip := hplace
  unfold places at hzip
  rw [List.getElem?_zip_eq_some] at hzip
  by_cases hone : i = 1
  · -- the first button is in column 0 of row 0
    subst hone
    have hfirst := first_place t
    have hfirst' := first_place t'
    rw [List.head?_eq_getElem?] at hfirst hfirst'
    rw [show ((1 : ℤ) - 1).toNat = 0 from rfl] at hzip
    rw [hzip.1, Option.map_some, Option.some.injEq, Prod.mk.injEq] at hfirst
    rw [hzip.2, Option.map_some, Option.some.injEq, Prod.mk.injEq] at hfirst'
    obtain ⟨hcolumn, hrow⟩ := hfirst
    obtain ⟨hcolumn', hrow'⟩ := hfirst'
    dsimp only at hcolumn hrow hcolumn' hrow'
    simp [hcolumn, hrow, hcolumn', hrow']
  · have htail : (c, c') ∈ (places t t').tail := by
      apply List.mem_of_getElem? (i := (i - 2).toNat)
      rw [List.getElem?_tail, ← hplace]
      congr 1
      omega
    obtain ⟨hwide, h480, h400⟩ := rows_differ t t' hfamily _ htail
    simp only [hone, false_and, iff_false]
    rintro ⟨-, hy⟩
    have hy' : c.row * (tableMetrics p t).nSpacingY = c'.row * (tableMetrics p t').nSpacingY := by linarith
    rw [nSpacingY_eq, nSpacingY_eq] at hy'
    split_ifs at hy'
    · exact h480 hy'
    · exact h400 hy'
    · exact hwide hy'

/-! ## The law -/

/-- The index is 0, or it is positive and the table of number `nLayout` gives for it what the table drawn gives. -/
def SameChild (p : Platform) (nIndex : ℤ) (s : State) : Prop :=
  nIndex = 0 ∨ 0 < nIndex ∧ ∃ t, index layoutTypes s.nLayout = some t ∧
    (t = s.nCurrentLayoutType ∨
      tNumButtons p t < nIndex ∧ tNumButtons p s.nCurrentLayoutType < nIndex ∨
      t.family = s.nCurrentLayoutType.family ∧ nIndex ≤ 28 ∨
      nIndex = 1 ∧ (tableMetrics p t).nLeftOffset = (tableMetrics p s.nCurrentLayoutType).nLeftOffset)

theorem childOf_eq_none {tButton : Option Button} : childOf tButton = (-1, -1, -1) ↔ tButton = none := by
  cases tButton <;> simp [childOf]

theorem index_none_iff (hpos : 0 < nIndex) : index (tttButtons p t) nIndex = none ↔ tNumButtons p t < nIndex := by
  rw [Lua.index_eq_none, tNumButtons]
  omega

/-- Two tables of one family have 28 buttons in common. -/
theorem family_common : t.family = t'.family → t ≠ t' →
    (t.size = 28 ∨ t'.size = 28) ∧ 28 ≤ t.size ∧ 28 ≤ t'.size := by
  cases t <;> cases t' <;> simp [LayoutType.family, LayoutType.size]

/-- What makes two tables agree on an index beyond one of them is that it is beyond both. -/
theorem beyond_both (hne : t ≠ t') (hpos : 0 < nIndex)
    (hbeyond : tNumButtons p t < nIndex ∨ tNumButtons p t' < nIndex)
    (h : t = t' ∨ tNumButtons p t < nIndex ∧ tNumButtons p t' < nIndex ∨ t.family = t'.family ∧ nIndex ≤ 28 ∨
      nIndex = 1 ∧ (tableMetrics p t).nLeftOffset = (tableMetrics p t').nLeftOffset) :
    tNumButtons p t < nIndex ∧ tNumButtons p t' < nIndex := by
  have hsize : 0 < t.size ∧ 0 < t'.size := by
    cases t <;> cases t' <;> simp [LayoutType.size]
  rw [tNumButtons_eq, tNumButtons_eq] at hbeyond h ⊢
  rcases h with heq | hboth | ⟨hfamily, hle⟩ | ⟨hone, -⟩
  · exact absurd heq hne
  · exact hboth
  · have hcommon := family_common hfamily hne
    omega
  · omega

theorem childOf_eq_iff (hpos : 0 < nIndex) :
    childOf (index (tttButtons p t) nIndex) = childOf (index (tttButtons p t') nIndex) ↔
      t = t' ∨ tNumButtons p t < nIndex ∧ tNumButtons p t' < nIndex ∨
      t.family = t'.family ∧ nIndex ≤ 28 ∨
      nIndex = 1 ∧ (tableMetrics p t).nLeftOffset = (tableMetrics p t').nLeftOffset := by
  by_cases heq : t = t'
  · simp [heq]
  cases h : index (tttButtons p t) nIndex with
  | none =>
    have hout := (index_none_iff hpos).1 h
    rw [show childOf none = (-1, -1, -1) from rfl, eq_comm, childOf_eq_none, index_none_iff hpos]
    exact ⟨fun hout' => .inr (.inl ⟨hout, hout'⟩), fun hor => (beyond_both heq hpos (.inl hout) hor).2⟩
  | some tButton =>
    have hin : ¬ tNumButtons p t < nIndex := by
      rw [← index_none_iff hpos, h]
      simp
    cases h' : index (tttButtons p t') nIndex with
    | none =>
      have hout' := (index_none_iff hpos).1 h'
      rw [show childOf none = (-1, -1, -1) from rfl, childOf_eq_none]
      exact ⟨fun hnone => absurd hnone (by simp), fun hor => absurd (beyond_both heq hpos (.inr hout') hor).1 hin⟩
    | some tButton' =>
      have hin' := Lua.bounds_of_index h'
      simp only [childOf, Prod.mk.injEq, true_and, sameSpot_iff h h', heq, false_or]
      constructor
      · rintro (hfamily | hone)
        · have hcommon := family_common hfamily heq
          rw [tNumButtons_eq] at hin
          rw [length_tttButtons] at hin'
          exact .inr (.inl ⟨hfamily, by omega⟩)
        · exact .inr (.inr hone)
      · rintro (⟨hout, -⟩ | ⟨hfamily, -⟩ | hone)
        · exact absurd hout hin
        · exact .inl hfamily
        · exact .inr hone

/-- **Children.** In every state and for every index, the lookup returns the button of the table that is drawn, or
code -1 where this table has none, if and only if `SameChild`. -/
theorem child_law (p : Platform) (nIndex : ℤ) (s : State) :
    Lua.run (getAbsoluteChildIndex p nIndex) s = (.ok (drawnChild p nIndex s), s) ↔ SameChild p nIndex s := by
  rw [run_getAbsoluteChildIndex, Prod.mk.injEq, eq_self_iff_true, and_true]
  unfold SameChild drawnChild
  by_cases hzero : nIndex = 0
  · have hnone : index (tttButtons p s.nCurrentLayoutType) 0 = none := Lua.index_eq_none.2 (.inl le_rfl)
    simp [hzero, hnone, childOf]
  cases ht : index layoutTypes s.nLayout with
  | none => simp [hzero]
  | some t =>
    by_cases hneg : nIndex < 0
    · have hpos : ¬ 0 < nIndex := by omega
      simp [hzero, hneg, hpos]
    · have hpos : 0 < nIndex := by omega
      simp only [hzero, hneg, hpos, if_false, Except.ok.injEq, false_or, true_and, Option.some.injEq,
        exists_eq_left']
      exact childOf_eq_iff hpos

/-- The number pad is the first layout, so its children are looked up in the QWERTY table: button 2 is found where it is
not drawn, button 13 is found, and a negative index raises. -/
theorem wrong_child : (constructor numPad allKeys).nCurrentLayoutType = .NUMBLOCK_LAYOUT ∧
    (Lua.run (getAbsoluteChildIndex numPad 2) (constructor numPad allKeys)).1 = .ok (0, 75, 7) ∧
    drawnChild numPad 2 (constructor numPad allKeys) = (0, 325, 70 / 3) ∧
    (Lua.run (getAbsoluteChildIndex numPad 13) (constructor numPad allKeys)).1 = .ok (0, 185, 84) ∧
    drawnChild numPad 13 (constructor numPad allKeys) = (-1, -1, -1) ∧
    (Lua.run (getAbsoluteChildIndex numPad (-1)) (constructor numPad allKeys)).1 = .error .child ∧
    drawnChild numPad (-1) (constructor numPad allKeys) = (-1, -1, -1) := by
  decide +kernel

end Speller
