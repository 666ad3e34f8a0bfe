import LinuxLearning.Speller.Platform
/-!
# The five button tables

| here | there |
| --- | --- |
| `LayoutType`               | the constants `Speller.QWERTY_LAYOUT`, … (`:127-131`) |
| `Button`                   | an entry of `self.tttButtons[l]` (`:80-84`) |
| `Metrics`                  | the locals `nSpacingX`, `nSpacingY`, `nBorder`, `nLeftOffset` |
| `grid`                     | the loop that the four tables with rows of one length share |
| `buildButtonTable_ABC`     | `Speller:buildButtonTable_ABC(UseSpace)` (`:358-415`) |
| `buildButtonTable_NumBlock` | `Speller:buildButtonTable_NumBlock` (`:425-467`) |
| `buildButtonTable_ABC_47Btn` | `Speller:buildButtonTable_ABC_47Btn` (`:478-526`) |
| `buildButtonTable_QWERTY`  | `Speller:buildButtonTable_QWERTY` (`:537-640`) |
| `matchLayoutType`          | the chain of size comparisons (`:214-226`, `:799-811`) |

The tables are built once, from values that do not change, so they are functions of the platform.
`/` is Lua's exact division: the rows of a table are not whole multiples of the row height.
-/

namespace Speller

open Lua (index)

inductive LayoutType
  | QWERTY_LAYOUT | ABC_LAYOUT | ABC_LAYOUT_EXT | NUMBLOCK_LAYOUT | ABC_LAYOUT_47BTN
deriving DecidableEq, Repr

/-- Static data of a button, relative to the position of the widget. -/
structure Button where
  x : ℚ
  y : ℚ
  nWidth : ℚ
  nHeight : ℚ
  nType : ℕ
  nTouchWidth : ℚ
  nTouchHeight : ℚ
deriving DecidableEq, Repr

/-- `tonumber` of a digit; the strings below hold digits of their base only. -/
def tonumber (c : Char) : ℕ :=
  if c.isDigit then c.toNat - '0'.toNat else c.toNat - 'a'.toNat + 10

/-- The button types that a string `sBitmap` spells. -/
def bitmapTypes (sBitmap : String) : List ℕ := sBitmap.toList.map tonumber

/-- Distances in a table. -/
structure Metrics where
  nSpacingX : ℚ
  nSpacingY : ℚ
  nBorder : ℚ
  nLeftOffset : ℚ

/-- The values for a wide display, one of 480 and one of 400 pixels. -/
def metrics (p : Platform) (wide at480 at400 : Metrics) : Metrics :=
  if p.displayWidth = 480 then at480 else if p.displayWidth = 400 then at400 else wide

/-- `GetBitmapSize(self.cself, self.ttBitmaps[1][nBmpType])` -/
def touchSize (p : Platform) (nBmpType : ℕ) : ℚ × ℚ := p.getBitmapSize (index p.BmEnabled nBmpType)

/-- The button in the given column and (fractional) row. -/
def buttonAt (p : Platform) (m : Metrics) (column row nWidth : ℚ) (nBmpType : ℕ) : Button where
  x := column * m.nSpacingX + m.nLeftOffset - p.x
  y := row * m.nSpacingY + p.y - p.y
  nWidth := nWidth
  nHeight := m.nSpacingY - m.nBorder
  nType := nBmpType
  nTouchWidth := (touchSize p nBmpType).1
  nTouchHeight := (touchSize p nBmpType).2

/-- Rows of `columns` buttons each. -/
def grid (p : Platform) (m : Metrics) (columns : ℕ) (types : List ℕ) : List Button :=
  (types.zipIdx 1).map fun (nBmpType, i) =>
    buttonAt p m (((i - 1) % columns : ℕ)) (((i : ℚ) - 1) / columns) (m.nSpacingX - m.nBorder) nBmpType

/-- `ttButtons[#ttButtons].nWidth = nWidth` -/
def widenLast (nWidth : ℚ) (buttons : List Button) : List Button :=
  buttons.modify (buttons.length - 1) fun b => { b with nWidth := nWidth }

def metricsABC (p : Platform) : Metrics :=
  metrics p ⟨74, 90, 2, 32⟩ ⟨44, 51, 2, 19⟩ ⟨37, 45, 2, 16⟩

/-- With `UseSpace` the last of the 28 buttons is the space bar, three columns wide; without it there
are 30 equal buttons. -/
def buildButtonTable_ABC (p : Platform) (UseSpace : Bool) : List Button :=
  let m := metricsABC p
  if UseSpace then
    widenLast (m.nSpacingX * 3 - m.nBorder) (grid p m 10 (bitmapTypes "1666666661666666666636666664"))
  else grid p m 10 (bitmapTypes "166666666166666666663666666666")

def buildButtonTable_NumBlock (p : Platform) : List Button :=
  grid p (metrics p ⟨150, 70, 0, 175⟩ ⟨90, 40, 0, 105⟩ ⟨30, 10, 0, 35⟩) 3 (bitmapTypes "7c97c97c97c9")

def buildButtonTable_ABC_47Btn (p : Platform) : List Button :=
  let m := metrics p ⟨60, 70, 0, 40⟩ ⟨36, 40, 0, 24⟩ ⟨12, 10, 0, 8⟩
  widenLast (m.nSpacingX * 2 - m.nBorder)
    (grid p m 12 (bitmapTypes "djjjjjjjjjjfdjjjjjjjjjjfdjjjjjjjjjjfdjjjjjjjjjh"))

/-- The rows of the QWERTY table have 10, 9, 10 and 7 buttons. Those of 9 and 7 are shifted to the
right, button 33 is the space bar. -/
def buildButtonTable_QWERTY (p : Platform) : List Button :=
  -- `nLeftOffset` is the one of the rows with 10 buttons, `nLeftOffset_9Btn` that of the others
  let m := metrics p ⟨75, 70, 0, p.x⟩ ⟨45, 40, 0, p.x⟩ ⟨15, 10, 0, p.x⟩
  let nLeftOffset_9Btn := p.x + if p.displayWidth = 480 then 21 else if p.displayWidth = 400 then 7 else 35
  let m9 := { m with nLeftOffset := nLeftOffset_9Btn }
  let nWidth := m.nSpacingX - m.nBorder
  ((bitmapTypes "166666666316666666316666666631664663").zipIdx 1).map fun (nBmpType, i) =>
    if i ≤ 10 then buttonAt p m ((i - 1) % 10 : ℕ) (((i : ℚ) - 1) / 10) nWidth nBmpType
    else if i ≥ 11 ∧ i < 20 then buttonAt p m9 ((i - 1) % 10 : ℕ) (((i : ℚ) - 1) / 10) nWidth nBmpType
    else if i ≥ 20 ∧ i < 30 then buttonAt p m (i % 10 : ℕ) ((i : ℚ) / 10) nWidth nBmpType
    else if i = 33 then buttonAt p m9 (i % 10 : ℕ) ((i : ℚ) / 10) (m.nSpacingX * 3 - m.nBorder) nBmpType
    else if i ≥ 34 then buttonAt p m9 ((i + 2) % 10 : ℕ) ((i : ℚ) / 10) nWidth nBmpType
    else buttonAt p m9 (i % 10 : ℕ) ((i : ℚ) / 10) nWidth nBmpType

/-- `self.tttButtons` -/
def tttButtons (p : Platform) : LayoutType → List Button
  | .QWERTY_LAYOUT => buildButtonTable_QWERTY p
  | .ABC_LAYOUT => buildButtonTable_ABC p true
  | .ABC_LAYOUT_EXT => buildButtonTable_ABC p false
  | .NUMBLOCK_LAYOUT => buildButtonTable_NumBlock p
  | .ABC_LAYOUT_47BTN => buildButtonTable_ABC_47Btn p

/-- `self.tNumButtons` -/
def tNumButtons (p : Platform) (l : LayoutType) : ℕ := (tttButtons p l).length

/-- The number of buttons of each table. -/
def LayoutType.size : LayoutType → ℕ
  | .QWERTY_LAYOUT => 36
  | .ABC_LAYOUT => 28
  | .ABC_LAYOUT_EXT => 30
  | .NUMBLOCK_LAYOUT => 12
  | .ABC_LAYOUT_47BTN => 47

@[simp] theorem length_grid (p : Platform) (m : Metrics) (columns : ℕ) (types : List ℕ) :
    (grid p m columns types).length = types.length := by
  simp [grid]

@[simp] theorem length_widenLast (nWidth : ℚ) (buttons : List Button) :
    (widenLast nWidth buttons).length = buttons.length := by
  simp [widenLast]

theorem tNumButtons_eq (p : Platform) (l : LayoutType) : tNumButtons p l = l.size := by
  unfold tNumButtons
  cases l with
  | QWERTY_LAYOUT => simp [tttButtons, buildButtonTable_QWERTY, bitmapTypes, LayoutType.size]
  | ABC_LAYOUT => simp [tttButtons, buildButtonTable_ABC, bitmapTypes, LayoutType.size]
  | ABC_LAYOUT_EXT => simp [tttButtons, buildButtonTable_ABC, bitmapTypes, LayoutType.size]
  | NUMBLOCK_LAYOUT => simp [tttButtons, buildButtonTable_NumBlock, bitmapTypes, LayoutType.size]
  | ABC_LAYOUT_47BTN => simp [tttButtons, buildButtonTable_ABC_47Btn, bitmapTypes, LayoutType.size]

theorem length_tttButtons (p : Platform) (l : LayoutType) : (tttButtons p l).length = l.size :=
  tNumButtons_eq p l

/-- The layout type of a layout with `n` buttons; the comparisons are made in this order. -/
def matchLayoutType (p : Platform) (n : ℕ) : Option LayoutType :=
  if n = (tttButtons p .ABC_LAYOUT).length then some .ABC_LAYOUT
  else if n = (tttButtons p .ABC_LAYOUT_EXT).length then some .ABC_LAYOUT_EXT
  else if n = (tttButtons p .ABC_LAYOUT_47BTN).length then some .ABC_LAYOUT_47BTN
  else if n = (tttButtons p .QWERTY_LAYOUT).length then some .QWERTY_LAYOUT
  else if n = (tttButtons p .NUMBLOCK_LAYOUT).length then some .NUMBLOCK_LAYOUT
  else none

theorem size_of_match {p : Platform} {n : ℕ} {l : LayoutType} (h : matchLayoutType p n = some l) :
    n = l.size := by
  unfold matchLayoutType at h
  simp only [length_tttButtons] at h
  split_ifs at h <;> simp_all

/-- A size that is one of the five is found. -/
theorem match_isSome {p : Platform} {n : ℕ} :
    (matchLayoutType p n).isSome ↔ n ∈ [36, 28, 30, 47, 12] := by
  unfold matchLayoutType
  simp only [length_tttButtons, LayoutType.size, List.mem_cons, List.not_mem_nil, or_false]
  split_ifs <;> simp_all

end Speller
