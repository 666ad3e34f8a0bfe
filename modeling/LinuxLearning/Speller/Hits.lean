import LinuxLearning.Lib.Rect
import LinuxLearning.Speller.Focus
/-!
# How many buttons a click hits

`isInTouchArea` (`:1161-1179`) takes the first enabled button whose touch rectangle the click is in. The touch
rectangle is as large as the bitmap of the button's type. As `/` is the exact division, a row of a table goes down
from left to right, by one row height from its first button to the first of the next row, and a button can reach
below the one that is up and to the right of it.

* `Cell` — a button in columns and rows; `tttButtons_eq` — the five tables in these terms;
* `BitmapsFit` — no bitmap is larger than its button is drawn;
* `Reach`, `reaches` — how large two bitmaps must be for a button to reach into a lower one; the two tables of equal
  buttons in rows have no such pair;
* `OneKey` — the touch rectangles are disjoint, the probe does not depend on the order of the buttons, and it
  says whether an enabled button is hit;
* `hits_law` — `OneKey` if and only if no bitmaps reach.
-/

namespace Speller

open Lua (index loop ipairs)
open Plane (Rect)

variable {p : Platform} {m : Metrics} {t : LayoutType} {s : State} {wx wy cx cy : ℚ}

/-! ## Columns and rows -/

/-- A button in units of the column width and the row height. -/
structure Cell where
  column : ℚ
  row : ℚ
  nType : ℕ
  span : ℚ

def Cell.button (p : Platform) (m : Metrics) (c : Cell) : Button :=
  buttonAt p m c.column c.row (m.nSpacingX * c.span - m.nBorder) c.nType

def gridCells (columns : ℕ) (types : List ℕ) : List Cell :=
  (types.zipIdx 1).map fun (nBmpType, i) => ⟨((i - 1) % columns : ℕ), ((i : ℚ) - 1) / columns, nBmpType, 1⟩

def widenCells (span : ℚ) (cells : List Cell) : List Cell :=
  cells.modify (cells.length - 1) fun c => { c with span := span }

/-- The rows with 9 and 7 buttons are shifted by 7/15 of a column on every display. -/
def qwertyCells : List Cell :=
  ((bitmapTypes "166666666316666666316666666631664663").zipIdx 1).map fun (nBmpType, i) =>
    if i ≤ 10 then ⟨((i - 1) % 10 : ℕ), ((i : ℚ) - 1) / 10, nBmpType, 1⟩
    else if i ≥ 11 ∧ i < 20 then ⟨((i - 1) % 10 : ℕ) + 7 / 15, ((i : ℚ) - 1) / 10, nBmpType, 1⟩
    else if i ≥ 20 ∧ i < 30 then ⟨(i % 10 : ℕ), (i : ℚ) / 10, nBmpType, 1⟩
    else if i = 33 then ⟨(i % 10 : ℕ) + 7 / 15, (i : ℚ) / 10, nBmpType, 3⟩
    else if i ≥ 34 then ⟨((i + 2) % 10 : ℕ) + 7 / 15, (i : ℚ) / 10, nBmpType, 1⟩
    else ⟨(i % 10 : ℕ) + 7 / 15, (i : ℚ) / 10, nBmpType, 1⟩

def cells : LayoutType → List Cell
  | .QWERTY_LAYOUT => qwertyCells
  | .ABC_LAYOUT => widenCells 3 (gridCells 10 (bitmapTypes "1666666661666666666636666664"))
  | .ABC_LAYOUT_EXT => gridCells 10 (bitmapTypes "166666666166666666663666666666")
  | .NUMBLOCK_LAYOUT => gridCells 3 (bitmapTypes "7c97c97c97c9")
  | .ABC_LAYOUT_47BTN => widenCells 2 (gridCells 12 (bitmapTypes "djjjjjjjjjjfdjjjjjjjjjjfdjjjjjjjjjjfdjjjjjjjjjh"))

/-- The distances of each table; those of the QWERTY table are for its rows of 10. -/
def tableMetrics (p : Platform) : LayoutType → Metrics
  | .QWERTY_LAYOUT => metrics p ⟨75, 70, 0, p.x⟩ ⟨45, 40, 0, p.x⟩ ⟨15, 10, 0, p.x⟩
  | .ABC_LAYOUT => metricsABC p
  | .ABC_LAYOUT_EXT => metricsABC p
  | .NUMBLOCK_LAYOUT => metrics p ⟨150, 70, 0, 175⟩ ⟨90, 40, 0, 105⟩ ⟨30, 10, 0, 35⟩
  | .ABC_LAYOUT_47BTN => metrics p ⟨60, 70, 0, 40⟩ ⟨36, 40, 0, 24⟩ ⟨12, 10, 0, 8⟩

theorem tableMetrics_pos (p : Platform) (t : LayoutType) :
    0 < (tableMetrics p t).nSpacingX ∧ 0 < (tableMetrics p t).nSpacingY ∧ 0 ≤ (tableMetrics p t).nBorder := by
  have hmetrics : ∀ wide at480 at400 : Metrics,
      (∀ m ∈ [wide, at480, at400], 0 < m.nSpacingX ∧ 0 < m.nSpacingY ∧ 0 ≤ m.nBorder) →
      0 < (metrics p wide at480 at400).nSpacingX ∧ 0 < (metrics p wide at480 at400).nSpacingY ∧
        0 ≤ (metrics p wide at480 at400).nBorder := by
    intro wide at480 at400 h
    unfold metrics
    split_ifs
    · exact h at480 (by simp)
    · exact h at400 (by simp)
    · exact h wide (by simp)
  cases t with
  | QWERTY_LAYOUT => exact hmetrics _ _ _ (by norm_num)
  | ABC_LAYOUT => exact hmetrics _ _ _ (by norm_num)
  | ABC_LAYOUT_EXT => exact hmetrics _ _ _ (by norm_num)
  | NUMBLOCK_LAYOUT => exact hmetrics _ _ _ (by norm_num)
  | ABC_LAYOUT_47BTN => exact hmetrics _ _ _ (by norm_num)

theorem grid_eq (p : Platform) (m : Metrics) (columns : ℕ) (types : List ℕ) :
    grid p m columns types = (gridCells columns types).map (Cell.button p m) := by
  unfold grid gridCells
  rw [List.map_map]
  apply List.map_congr_left
  rintro ⟨nBmpType, i⟩ -
  simp [Cell.button]

theorem widenLast_eq (p : Platform) (m : Metrics) (span : ℚ) (cells : List Cell) :
    widenLast (m.nSpacingX * span - m.nBorder) (cells.map (Cell.button p m)) =
      (widenCells span cells).map (Cell.button p m) := by
  unfold widenLast widenCells
  apply List.ext_getElem
  · simp
  · intro i h₁ h₂
    simp only [List.getElem_map, List.getElem_modify, List.length_map]
    split
    · rfl
    · rfl

/-- A row that is shifted. -/
theorem buttonAt_shifted {m m9 : Metrics} (hm : m9 = { m with nLeftOffset := m.nLeftOffset + 7 / 15 * m.nSpacingX })
    (column row nWidth : ℚ) (nBmpType : ℕ) :
    buttonAt p m9 column row nWidth nBmpType = buttonAt p m (column + 7 / 15) row nWidth nBmpType := by
  subst hm
  unfold buttonAt
  ring_nf

theorem qwerty_eq (p : Platform) :
    buildButtonTable_QWERTY p = qwertyCells.map (Cell.button p (tableMetrics p .QWERTY_LAYOUT)) := by
  have hm9 : { tableMetrics p .QWERTY_LAYOUT with
      nLeftOffset := p.x + if p.displayWidth = 480 then 21 else if p.displayWidth = 400 then 7 else 35 } =
      { tableMetrics p .QWERTY_LAYOUT with
        nLeftOffset := (tableMetrics p .QWERTY_LAYOUT).nLeftOffset +
          7 / 15 * (tableMetrics p .QWERTY_LAYOUT).nSpacingX } := by
    unfold tableMetrics metrics
    split_ifs <;> norm_num
  unfold buildButtonTable_QWERTY qwertyCells
  rw [List.map_map]
  apply List.map_congr_left
  rintro ⟨nBmpType, i⟩ -
  simp only [Function.comp_apply]
  rw [← tableMetrics]
  simp only [buttonAt_shifted hm9]
  split_ifs <;> simp [Cell.button]

theorem tttButtons_eq (p : Platform) (t : LayoutType) :
    tttButtons p t = (cells t).map (Cell.button p (tableMetrics p t)) := by
  cases t with
  | QWERTY_LAYOUT => exact qwerty_eq p
  | ABC_LAYOUT =>
    show widenLast _ (grid _ _ _ _) = _
    rw [grid_eq]
    exact widenLast_eq p _ 3 _
  | ABC_LAYOUT_EXT => exact grid_eq p _ 10 _
  | NUMBLOCK_LAYOUT => exact grid_eq p _ 3 _
  | ABC_LAYOUT_47BTN =>
    show widenLast _ (grid _ _ _ _) = _
    rw [grid_eq]
    exact widenLast_eq p _ 2 _

/-! ## Which buttons reach into which -/

/-- The touch rectangle of a button, in the widget. -/
def touchRect (tButton : Button) : Rect ℚ := ⟨tButton.x, tButton.y, tButton.nTouchWidth, tButton.nTouchHeight⟩

theorem inTouchRect_iff {tButton : Button} :
    inTouchRect wx wy cx cy tButton ↔ (touchRect tButton).Contains (cx - wx) (cy - wy) := by
  unfold inTouchRect Rect.Contains touchRect
  constructor
  · rintro ⟨h₁, h₂, h₃, h₄⟩
    exact ⟨⟨by linarith, by linarith⟩, by linarith, by linarith⟩
  · rintro ⟨⟨h₁, h₂⟩, h₃, h₄⟩
    dsimp only at h₁ h₂ h₃ h₄
    exact ⟨by linarith, by linarith, by linarith, by linarith⟩

/-- No bitmap of a table is larger than its button is drawn. -/
def BitmapsFit (p : Platform) (t : LayoutType) : Prop :=
  ∀ tButton ∈ tttButtons p t, tButton.nTouchWidth ≤ tButton.nWidth ∧ tButton.nTouchHeight ≤ tButton.nHeight

/-- A button of type `upper` reaches into one of type `lower` if it is higher than `rows` rows and wider than `right`
columns, and the lower one is wider than `left` columns. -/
structure Reach where
  upper : ℕ
  lower : ℕ
  rows : ℚ
  right : ℚ
  left : ℚ

/-- The pairs of a table that the slanted rows bring close to each other. -/
def reaches : LayoutType → List Reach
  | .QWERTY_LAYOUT => [⟨6, 1, 9 / 10, 0, 8 / 15⟩, ⟨6, 6, 7 / 10, 0, 8 / 15⟩, ⟨6, 6, 4 / 5, 7 / 15, 0⟩,
      ⟨3, 3, 7 / 10, 0, 8 / 15⟩, ⟨6, 3, 4 / 5, 7 / 15, 0⟩,
      ⟨6, 4, 9 / 10, 0, 8 / 15⟩, ⟨6, 4, 4 / 5, 0, 23 / 15⟩, ⟨6, 4, 7 / 10, 0, 38 / 15⟩]
  | .ABC_LAYOUT => [⟨6, 4, 9 / 10, 0, 1⟩, ⟨6, 4, 4 / 5, 0, 2⟩]
  | .ABC_LAYOUT_EXT => []
  | .NUMBLOCK_LAYOUT => []
  | .ABC_LAYOUT_47BTN => [⟨15, 17, 11 / 12, 0, 1⟩]

/-- The bitmaps of the platform are as large as that. -/
def Reach.Holds (p : Platform) (t : LayoutType) (e : Reach) : Prop :=
  e.rows * (tableMetrics p t).nSpacingY < (touchSize p e.upper).2 ∧
    e.right * (tableMetrics p t).nSpacingX < (touchSize p e.upper).1 ∧
    e.left * (tableMetrics p t).nSpacingX < (touchSize p e.lower).1 ∧ 0 < (touchSize p e.lower).2

instance (p : Platform) (t : LayoutType) (e : Reach) : Decidable (e.Holds p t) := by
  unfold Reach.Holds
  infer_instance

/-- The place of `c` goes down and across into that of `c'`. -/
def Cell.Crosses (c c' : Cell) : Prop :=
  (c.row ≤ c'.row ∧ c'.row < c.row + 1) ∧ c.column < c'.column + c'.span ∧ c'.column < c.column + c.span

instance (c c' : Cell) : Decidable (c.Crosses c') := by
  unfold Cell.Crosses
  infer_instance

/-- `c` is of the upper type, `c'` of the lower one, and `e` asks for no more than what is between them. -/
def Reach.AtMost (e : Reach) (c c' : Cell) : Prop :=
  (c.nType = e.upper ∧ c'.nType = e.lower) ∧ e.rows ≤ c'.row - c.row ∧
    e.right ≤ max 0 (c'.column - c.column) ∧ e.left ≤ max 0 (c.column - c'.column)

instance (e : Reach) (c c' : Cell) : Decidable (e.AtMost c c') := by
  unfold Reach.AtMost
  infer_instance

/-- `c` is of the upper type and above `c'` of the lower one, and `e` asks for no less than what is between them. -/
def Reach.AtLeast (e : Reach) (c c' : Cell) : Prop :=
  (c.nType = e.upper ∧ c'.nType = e.lower) ∧ (c.row ≤ c'.row ∧ c'.row - c.row ≤ e.rows) ∧
    c'.column - c.column ≤ e.right ∧ c.column - c'.column ≤ e.left

instance (e : Reach) (c c' : Cell) : Decidable (e.AtLeast c c') := by
  unfold Reach.AtLeast
  infer_instance

/-- The list of pairs is complete, for all places of a table. -/
theorem reaches_complete (t : LayoutType) : ∀ a ∈ (cells t).zipIdx, ∀ b ∈ (cells t).zipIdx,
    a.2 ≠ b.2 → a.1.Crosses b.1 → ∃ e ∈ reaches t, e.AtMost a.1 b.1 := by
  cases t <;> decide +kernel

/-- Each pair of the list stands for two places of the table. -/
theorem reaches_real (t : LayoutType) : ∀ e ∈ reaches t, (0 ≤ e.rows ∧ 0 ≤ e.right ∧ 0 ≤ e.left) ∧
    ∃ a ∈ (cells t).zipIdx, ∃ b ∈ (cells t).zipIdx, a.2 ≠ b.2 ∧ e.AtLeast a.1 b.1 := by
  cases t <;> decide +kernel

/-- Where two touch rectangles meet, in columns and rows. -/
theorem meets_cells {c c' : Cell} :
    (touchRect (c.button p m)).Meets (touchRect (c'.button p m)) ↔
      ((0 < (touchSize p c.nType).1 ∧ 0 < (touchSize p c'.nType).1) ∧
        0 < (touchSize p c.nType).2 ∧ 0 < (touchSize p c'.nType).2) ∧
      ((c.column - c'.column) * m.nSpacingX < (touchSize p c'.nType).1 ∧
        (c'.column - c.column) * m.nSpacingX < (touchSize p c.nType).1) ∧
      (c.row - c'.row) * m.nSpacingY < (touchSize p c'.nType).2 ∧
        (c'.row - c.row) * m.nSpacingY < (touchSize p c.nType).2 := by
  unfold touchRect Cell.button buttonAt
  constructor
  · rintro ⟨hwide, hhigh, hacross, hdown⟩
    dsimp only at hwide hhigh hacross hdown
    exact ⟨⟨hwide, hhigh⟩, ⟨by linarith, by linarith⟩, by linarith, by linarith⟩
  · rintro ⟨⟨hwide, hhigh⟩, hacross, hdown⟩
    refine ⟨hwide, hhigh, ⟨?_, ?_⟩, ?_, ?_⟩
    · dsimp only
      linarith
    · dsimp only
      linarith
    · dsimp only
      linarith
    · dsimp only
      linarith

theorem max_mul_lt {d k w : ℚ} (hw : 0 < w) (h : d * k < w) : max 0 d * k < w := by
  rcases max_choice 0 d with hmax | hmax
  · rw [hmax, zero_mul]
    exact hw
  · rw [hmax]
    exact h

/-- Two places whose touch rectangles meet are close, as no bitmap is larger than its button. -/
theorem crosses_of_meets {c c' : Cell} (hc : BitmapsFit p t) (hmem : c ∈ cells t) (hmem' : c' ∈ cells t)
    (hrow : c.row ≤ c'.row)
    (h : (touchRect (c.button p (tableMetrics p t))).Meets (touchRect (c'.button p (tableMetrics p t)))) :
    c.Crosses c' := by
  obtain ⟨hx, hy, hborder⟩ := tableMetrics_pos p t
  have hfit : ∀ d ∈ cells t, (touchSize p d.nType).1 ≤ d.span * (tableMetrics p t).nSpacingX ∧
      (touchSize p d.nType).2 ≤ 1 * (tableMetrics p t).nSpacingY := by
    intro d hd
    have hbutton : d.button p (tableMetrics p t) ∈ tttButtons p t := by
      rw [tttButtons_eq]
      exact List.mem_map_of_mem hd
    obtain ⟨hwidth, hheight⟩ := hc _ hbutton
    simp only [Cell.button, buttonAt] at hwidth hheight
    exact ⟨by linarith, by linarith⟩
  obtain ⟨-, ⟨hleft, hright⟩, -, hdown⟩ := meets_cells.1 h
  have hdown' := lt_of_mul_lt_mul_right (hdown.trans_le (hfit c hmem).2) hy.le
  have hleft' := lt_of_mul_lt_mul_right (hleft.trans_le (hfit c' hmem').1) hx.le
  have hright' := lt_of_mul_lt_mul_right (hright.trans_le (hfit c hmem).1) hx.le
  exact ⟨⟨hrow, by linarith⟩, by linarith, by linarith⟩

theorem holds_of_meets {c c' : Cell} {e : Reach} (he : e.AtMost c c')
    (h : (touchRect (c.button p (tableMetrics p t))).Meets (touchRect (c'.button p (tableMetrics p t)))) :
    e.Holds p t := by
  obtain ⟨hx, hy, -⟩ := tableMetrics_pos p t
  obtain ⟨⟨hwide, hhigh⟩, ⟨hleft, hright⟩, -, hdown⟩ := meets_cells.1 h
  obtain ⟨⟨hupper, hlower⟩, hrows, hr, hl⟩ := he
  unfold Reach.Holds
  rw [← hupper, ← hlower]
  refine ⟨?_, ?_, ?_, hhigh.2⟩
  · exact (mul_le_mul_of_nonneg_right hrows hy.le).trans_lt hdown
  · exact (mul_le_mul_of_nonneg_right hr hx.le).trans_lt (max_mul_lt hwide.1 hright)
  · exact (mul_le_mul_of_nonneg_right hl hx.le).trans_lt (max_mul_lt hwide.2 hleft)

theorem meets_of_holds {c c' : Cell} {e : Reach} (hpos : 0 ≤ e.rows ∧ 0 ≤ e.right ∧ 0 ≤ e.left)
    (he : e.AtLeast c c') (h : e.Holds p t) :
    (touchRect (c.button p (tableMetrics p t))).Meets (touchRect (c'.button p (tableMetrics p t))) := by
  obtain ⟨hx, hy, -⟩ := tableMetrics_pos p t
  obtain ⟨⟨hupper, hlower⟩, ⟨hrow, hrows⟩, hr, hl⟩ := he
  unfold Reach.Holds at h
  rw [← hupper, ← hlower] at h
  obtain ⟨hhigh, hwide, hwide', hhigh'⟩ := h
  have hup : (c.row - c'.row) * (tableMetrics p t).nSpacingY ≤ 0 :=
    mul_nonpos_of_nonpos_of_nonneg (by linarith) hy.le
  refine meets_cells.2 ⟨⟨⟨?_, ?_⟩, ?_, hhigh'⟩, ⟨?_, ?_⟩, hup.trans_lt hhigh', ?_⟩
  · exact (mul_nonneg hpos.2.1 hx.le).trans_lt hwide
  · exact (mul_nonneg hpos.2.2 hx.le).trans_lt hwide'
  · exact (mul_nonneg hpos.1 hy.le).trans_lt hhigh
  · exact (mul_le_mul_of_nonneg_right hl hx.le).trans_lt hwide'
  · exact (mul_le_mul_of_nonneg_right hr hx.le).trans_lt hwide
  · exact (mul_le_mul_of_nonneg_right hrows hy.le).trans_lt hhigh

/-- Button `i` of the table and its place. -/
theorem exists_cell {i : ℤ} {tButton : Button} (h : index (tttButtons p t) i = some tButton) :
    ∃ c, (c, (i - 1).toNat) ∈ (cells t).zipIdx ∧ tButton = c.button p (tableMetrics p t) := by
  rw [tttButtons_eq, Lua.index_eq_some, List.getElem?_map, Option.map_eq_some_iff] at h
  obtain ⟨-, c, hc, rfl⟩ := h
  exact ⟨c, by simpa [List.mem_zipIdx_iff_getElem?] using hc, rfl⟩

theorem exists_button {c : Cell} {k : ℕ} (h : (c, k) ∈ (cells t).zipIdx) :
    index (tttButtons p t) ((k : ℤ) + 1) = some (c.button p (tableMetrics p t)) := by
  rw [tttButtons_eq, Lua.index_eq_some, List.getElem?_map, Option.map_eq_some_iff]
  refine ⟨by omega, c, ?_, rfl⟩
  rw [show ((k : ℤ) + 1 - 1).toNat = k from by omega]
  simpa [List.mem_zipIdx_iff_getElem?] using h

/-- No two touch rectangles of the table have a point in common. -/
def Apart (p : Platform) (t : LayoutType) : Prop :=
  ∀ i j tButton tButton', index (tttButtons p t) i = some tButton → index (tttButtons p t) j = some tButton' →
    i ≠ j → ¬ (touchRect tButton).Meets (touchRect tButton')

/-- **The exact condition**: no bitmaps of the table are as large as one of its pairs says. -/
theorem apart_iff (hfit : BitmapsFit p t) : Apart p t ↔ ∀ e ∈ reaches t, ¬ e.Holds p t := by
  constructor
  · intro h e he hholds
    obtain ⟨hpos, ⟨c, k⟩, hc, ⟨c', k'⟩, hc', hne, hleast⟩ := reaches_real t e he
    refine h _ _ _ _ (exists_button hc) (exists_button hc') ?_ (meets_of_holds hpos hleast hholds)
    simp only at hne
    omega
  · intro h i j tButton tButton' hi hj hne hmeets
    obtain ⟨c, hc, rfl⟩ := exists_cell hi
    obtain ⟨c', hc', rfl⟩ := exists_cell hj
    have hin := Lua.bounds_of_index hi
    have hin' := Lua.bounds_of_index hj
    have hmem := List.fst_mem_of_mem_zipIdx hc
    have hmem' := List.fst_mem_of_mem_zipIdx hc'
    rcases le_total c.row c'.row with hrow | hrow
    · obtain ⟨e, he, hmost⟩ := reaches_complete t _ hc _ hc' (by simp only; omega)
        (crosses_of_meets hfit hmem hmem' hrow hmeets)
      exact h e he (holds_of_meets hmost hmeets)
    · obtain ⟨e, he, hmost⟩ := reaches_complete t _ hc' _ hc (by simp only; omega)
        (crosses_of_meets hfit hmem' hmem hrow hmeets.symm)
      exact h e he (holds_of_meets hmost hmeets.symm)

/-! ## The probe -/

/-- The loop of `isInTouchArea` over the buttons in some order. -/
def touchIn (wx wy cx cy : ℚ) (order : List (ℤ × Button)) : Prog ℕ := do
  let hit ← loop (touchButton wx wy cx cy) order
  pure (if hit.isSome then 1 else 0)

/-- The button is enabled and the click is in its touch rectangle. -/
def hits (s : State) (wx wy cx cy : ℚ) (button : ℤ × Button) : Bool :=
  (s.buttonDef? button.1).any ButtonDef.bEnabled && decide (inTouchRect wx wy cx cy button.2)

/-- The outcome of the probe is that of a search. -/
theorem run_touchIn {order : List (ℤ × Button)} (h : ∀ button ∈ order, s.buttonDef? button.1 ≠ none) :
    Lua.run (touchIn wx wy cx cy order) s = match order.find? (hits s wx wy cx cy) with
      | some button => (.ok 1, { s with nPressed := some button.1 })
      | none => (.ok 0, s) := by
  unfold touchIn
  induction order with
  | nil => rfl
  | cons button rest ih =>
    obtain ⟨d, hd⟩ := Option.ne_none_iff_exists'.1 (h button List.mem_cons_self)
    have hrest := ih fun b hb => h b (List.mem_cons_of_mem button hb)
    have hbody : Lua.run (touchButton wx wy cx cy button) s =
        if hits s wx wy cx cy button then (.ok (some ()), { s with nPressed := some button.1 })
        else (.ok none, s) := by
      unfold touchButton hits
      rw [Lua.run_bind]
      show Lua.run (Lua.orRaise Error.buttonDef (s.buttonDef? button.1) >>= _) s = _
      rw [hd, Lua.orRaise_some, Lua.run_bind, Lua.run_pure]
      by_cases hon : d.bEnabled = true ∧ inTouchRect wx wy cx cy button.2
      · simp only [hon, and_self, if_true, Option.any_some, decide_true, Bool.and_self]
        rfl
      · have hoff : (d.bEnabled && decide (inTouchRect wx wy cx cy button.2)) = false := by
          rw [← Bool.not_eq_true]
          simpa using hon
        simp only [if_neg hon, Option.any_some, hoff, Bool.false_eq_true, if_false]
        rfl
    unfold loop
    rw [Lua.run_bind, Lua.run_bind, hbody, List.find?_cons]
    cases hhit : hits s wx wy cx cy button with
    | true => rfl
    | false =>
      rw [Lua.run_bind] at hrest
      exact hrest

/-- **One button a click.** The layout shown has as many buttons as the table. -/
structure OneKey (p : Platform) (t : LayoutType) : Prop where
  /-- A click is in the touch rectangle of at most one button. -/
  apart : ∀ wx wy cx cy i j tButton tButton', index (tttButtons p t) i = some tButton →
    index (tttButtons p t) j = some tButton' → inTouchRect wx wy cx cy tButton →
    inTouchRect wx wy cx cy tButton' → i = j
  /-- The probe does the same whatever the order of the buttons. -/
  order : ∀ s l wx wy cx cy order, s.nCurrentLayoutType = t → index s.tttLayouts s.nLayout = some l →
    l.buttons.length = tNumButtons p t → List.Perm order (ipairs (tttButtons p t)) →
    Lua.run (touchIn wx wy cx cy order) s = Lua.run (isInTouchArea p wx wy cx cy) s
  /-- It returns 1 exactly for a click in the touch rectangle of an enabled button. -/
  found : ∀ s l wx wy cx cy, s.nCurrentLayoutType = t → index s.tttLayouts s.nLayout = some l →
    l.buttons.length = tNumButtons p t →
    ((Lua.run (isInTouchArea p wx wy cx cy) s).1 = .ok 1 ↔
      ∃ b tButton d, index (tttButtons p t) b = some tButton ∧ s.buttonDef? b = some d ∧ d.bEnabled = true ∧
        inTouchRect wx wy cx cy tButton)

theorem run_isInTouchArea : Lua.run (isInTouchArea p wx wy cx cy) s =
    Lua.run (touchIn wx wy cx cy (ipairs (tttButtons p s.nCurrentLayoutType))) s := rfl

theorem hits_iff {button : ℤ × Button} : hits s wx wy cx cy button = true ↔
    (∃ d, s.buttonDef? button.1 = some d ∧ d.bEnabled = true) ∧ inTouchRect wx wy cx cy button.2 := by
  unfold hits
  cases hd : s.buttonDef? button.1 with
  | none => simp
  | some d => simp

section Table

variable {l : Layout} (hl : index s.tttLayouts s.nLayout = some l) (hsize : l.buttons.length = tNumButtons p t)

include hl hsize

/-- The layout has a button for each one of the table. -/
theorem buttonDef?_ne_none {button : ℤ × Button} (h : button ∈ ipairs (tttButtons p t)) :
    s.buttonDef? button.1 ≠ none := by
  have hin := Lua.bounds_of_index (Lua.mem_ipairs.1 h)
  unfold State.buttonDef?
  rw [hl, Option.bind_some, ne_eq, Lua.index_eq_none, hsize, tNumButtons]
  omega

theorem found_of_table (ht : s.nCurrentLayoutType = t) :
    (Lua.run (isInTouchArea p wx wy cx cy) s).1 = .ok 1 ↔
      ∃ b tButton d, index (tttButtons p t) b = some tButton ∧ s.buttonDef? b = some d ∧ d.bEnabled = true ∧
        inTouchRect wx wy cx cy tButton := by
  rw [run_isInTouchArea, ht, run_touchIn fun button hb => buttonDef?_ne_none hl hsize hb]
  cases hfind : (ipairs (tttButtons p t)).find? (hits s wx wy cx cy) with
  | none =>
    simp only [Except.ok.injEq, zero_ne_one, false_iff]
    rintro ⟨b, tButton, d, hb, hd, hon, hin⟩
    exact List.find?_eq_none.1 hfind (b, tButton) (Lua.mem_ipairs.2 hb) (hits_iff.2 ⟨⟨d, hd, hon⟩, hin⟩)
  | some button =>
    obtain ⟨⟨d, hd, hon⟩, hin⟩ := hits_iff.1 (List.find?_some hfind)
    have hmem := Lua.mem_ipairs.1 (List.mem_of_find?_eq_some hfind)
    simp only [true_iff]
    exact ⟨button.1, button.2, d, hmem, hd, hon, hin⟩

theorem order_of_apart (ht : s.nCurrentLayoutType = t)
    (hapart : ∀ i j tButton tButton', index (tttButtons p t) i = some tButton →
      index (tttButtons p t) j = some tButton' → inTouchRect wx wy cx cy tButton →
      inTouchRect wx wy cx cy tButton' → i = j)
    {order : List (ℤ × Button)} (horder : List.Perm order (ipairs (tttButtons p t))) :
    Lua.run (touchIn wx wy cx cy order) s = Lua.run (isInTouchArea p wx wy cx cy) s := by
  have hdef : ∀ button ∈ order, s.buttonDef? button.1 ≠ none := fun button hb =>
    buttonDef?_ne_none hl hsize (horder.mem_iff.1 hb)
  rw [run_isInTouchArea, ht, run_touchIn hdef, run_touchIn fun button hb => buttonDef?_ne_none hl hsize hb]
  rw [List.find?_eq_find?_of_perm horder]
  rintro ⟨i, tButton⟩ ⟨hi, hhit⟩ ⟨j, tButton'⟩ ⟨hj, hhit'⟩
  have hbi := Lua.mem_ipairs.1 (horder.mem_iff.1 hi)
  have hbj := Lua.mem_ipairs.1 (horder.mem_iff.1 hj)
  have hij := hapart i j _ _ hbi hbj (hits_iff.1 hhit).2 (hits_iff.1 hhit').2
  subst hij
  rw [hbi, Option.some.injEq] at hbj
  rw [hbj]

end Table

/-- Only the first property depends on the bitmaps. -/
theorem oneKey_iff : OneKey p t ↔ Apart p t := by
  constructor
  · intro h i j tButton tButton' hi hj hne hmeets
    obtain ⟨cx, cy, hin, hin'⟩ := Rect.meets_iff.1 hmeets
    apply hne
    apply h.apart 0 0 cx cy i j tButton tButton' hi hj
    · rw [inTouchRect_iff, sub_zero, sub_zero]
      exact hin
    · rw [inTouchRect_iff, sub_zero, sub_zero]
      exact hin'
  · intro h
    have hapart : ∀ wx wy cx cy i j tButton tButton', index (tttButtons p t) i = some tButton →
        index (tttButtons p t) j = some tButton' → inTouchRect wx wy cx cy tButton →
        inTouchRect wx wy cx cy tButton' → i = j := by
      intro wx wy cx cy i j tButton tButton' hi hj hin hin'
      by_contra hne
      rw [inTouchRect_iff] at hin hin'
      exact h i j _ _ hi hj hne (Rect.meets_iff.2 ⟨_, _, hin, hin'⟩)
    refine ⟨hapart, ?_, ?_⟩
    · intro s l wx wy cx cy order ht hl hsize horder
      exact order_of_apart hl hsize ht (hapart wx wy cx cy) horder
    · intro s l wx wy cx cy ht hl hsize
      exact found_of_table hl hsize ht

/-- **A click hits one button at most.** Where no bitmap is larger than its button is drawn, a click hits one button
at most, at every place of the widget, and the probe finds it in any order of the buttons, if and only if no bitmaps
of the table are as large as one of the pairs in `reaches` says. -/
theorem hits_law (hfit : BitmapsFit p t) : OneKey p t ↔ ∀ e ∈ reaches t, ¬ e.Holds p t :=
  oneKey_iff.trans (apart_iff hfit)

/-- A QWERTY keyboard whose bitmaps are as wide as the buttons. -/
def qwertyPad (nBmpHeight : ℚ) : Platform :=
  { numPad with
    getBitmapSize := fun cid => if cid.isSome then (75, nBmpHeight) else (0, 0)
    getSpellerLayoutSequence := fun _ => ["1234567890qwertzuioasdfghjklpyxcvbnm"] }

/-- Bitmaps of seven tenths of a row do not reach into the next one. -/
theorem hits_law_sample : BitmapsFit (qwertyPad 49) .QWERTY_LAYOUT ∧ OneKey (qwertyPad 49) .QWERTY_LAYOUT := by
  have hfit : BitmapsFit (qwertyPad 49) .QWERTY_LAYOUT := by
    unfold BitmapsFit
    decide +kernel
  exact ⟨hfit, (hits_law hfit).2 (by decide +kernel)⟩

/-- Bitmaps as high as the buttons: the click at (80, 72) is in the touch rectangles of buttons 2 and 11; which of them
is pressed depends on the order of the search. -/
theorem two_keys : BitmapsFit (qwertyPad 70) .QWERTY_LAYOUT ∧
    (constructor (qwertyPad 70) allKeys).nCurrentLayoutType = .QWERTY_LAYOUT ∧
    (Lua.run (isInTouchArea (qwertyPad 70) 0 0 80 72) (constructor (qwertyPad 70) allKeys)).2.nPressed = some 2 ∧
    (Lua.run (touchIn 0 0 80 72 (ipairs (tttButtons (qwertyPad 70) .QWERTY_LAYOUT)).reverse)
      (constructor (qwertyPad 70) allKeys)).2.nPressed = some 11 ∧
    ¬ OneKey (qwertyPad 70) .QWERTY_LAYOUT := by
  have hfit : BitmapsFit (qwertyPad 70) .QWERTY_LAYOUT := by
    unfold BitmapsFit
    decide +kernel
  have hboth : ∃ tButton tButton', index (tttButtons (qwertyPad 70) .QWERTY_LAYOUT) 2 = some tButton ∧
      index (tttButtons (qwertyPad 70) .QWERTY_LAYOUT) 11 = some tButton' ∧ inTouchRect 0 0 80 72 tButton ∧
      inTouchRect 0 0 80 72 tButton' := by
    refine ⟨⟨75, 7, 75, 70, 6, 75, 70⟩, ⟨35, 70, 75, 70, 1, 75, 70⟩, ?_⟩
    decide +kernel
  refine ⟨hfit, by decide +kernel, by decide +kernel, by decide +kernel, fun h => ?_⟩
  obtain ⟨tButton, tButton', h₂, h₁₁, hin, hin'⟩ := hboth
  have hsame := h.apart 0 0 80 72 2 11 tButton tButton' h₂ h₁₁ hin hin'
  norm_num at hsame

end Speller
