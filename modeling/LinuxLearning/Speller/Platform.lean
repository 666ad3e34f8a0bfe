import LinuxLearning.Lib.Lua
/-!
# The speller widget: what it gets from its host

`Keyboard.lua` is a script of a GUI framework. What the framework gives it (functions, properties,
the tree of widgets) is a parameter here; the script itself is in the modules that follow.

| here | there |
| --- | --- |
| `EventId`                  | the `GUI_EVENT_*` constants and the application's toggle event |
| `Duration`, `Param`        | the `DURATION_*` constants and the parameters of `onMessage` (`:900`) |
| `Widget`, `checkChild`     | the widget tree and the local function of `findToggleBtn` (`:265-278`) |
| `findToggleBtn`            | `Speller:findToggleBtn` (`:263-289`) |
| `Platform`                 | `GetPosition`, `GetBitmapSize`, `UTF8Decode`, … and the properties of the widget |
| `Props`                    | the three data-bound properties that `updateEnabled` reads (`:650-652`) |
| `Effect`                   | the calls that change something outside the widget |

`TTFis_Trace` only writes a trace and is left out.
-/

namespace Speller

/-- The events the speller looks at; `app` are the 16 bit ids of the application, of which one may
be the layout toggle. -/
inductive EventId
  | HK_MAIN_NEG | HK_MAIN_POS | HK_MAIN_PRESS | HK_MAIN_LONG | HK_MAIN_REPEAT | HK_MAIN_SHORT
  | HK_MAIN_RELEASE
  | WIDGET_SETFOCUS | WIDGET_VIEW_CHANGE | WIDGET_ENTRYFIELD_EMPTY
  | app (id : ℕ)
deriving DecidableEq, Repr

/-- The events `focusGained` registers and `focusLost` deregisters, in their order
(`:1115-1121`, `:1141-1147`). -/
def hkMain : List EventId :=
  [.HK_MAIN_NEG, .HK_MAIN_POS, .HK_MAIN_PRESS, .HK_MAIN_LONG, .HK_MAIN_REPEAT, .HK_MAIN_SHORT,
    .HK_MAIN_RELEASE]

inductive Duration
  | PRESS | LONGPRESS | REPEAT | SHORTRELEASE | RELEASE
deriving DecidableEq, Repr

/-- A link to another widget (`userdata`). -/
abbrev Link := ℕ

/-- A parameter of a message. -/
inductive Param
  | nil
  | number (n : ℤ)
  | duration (d : Duration)
  | userdata (link : Link)
deriving DecidableEq, Repr

/-- `type(param) == "userdata"`. -/
def Param.link? : Param → Option Link
  | .userdata link => some link
  | _ => none

/-- The number that arithmetic on the parameter uses, `none` where Lua raises. -/
def Param.number? : Param → Option ℤ
  | .number n => some n
  | _ => none

/-! ## The widget tree -/

inductive Widget
  | mk (name : String) (visible : Bool) (children : List Widget)

namespace Widget

def name : Widget → String
  | mk name _ _ => name

def visible : Widget → Bool
  | mk _ visible _ => visible

def children : Widget → List Widget
  | mk _ _ children => children

/-- A widget is named by the way to it: the position in its parent, then the parent's way. -/
abbrev Path := List ℕ

/-- The widget at the end of the way down from `w`. -/
def sub : Widget → List ℕ → Option Widget
  | w, [] => some w
  | w, i :: down => (w.children[i]?).bind fun child => child.sub down

mutual

/-- `checkChild(pParent)`: the way down from `pParent` to the widget it returns. -/
def checkChild : Widget → Option (List ℕ)
  | mk _ visible children => if visible then checkChildren 0 children else none

/-- The loop over the children, `i` of which have been looked at. -/
def checkChildren (i : ℕ) : List Widget → Option (List ℕ)
  | [] => none
  | w :: ws =>
    if w.name = "ToggleLayout" then some [i]
    else match checkChild w with
      | some down => some (i :: down)
      | none => checkChildren (i + 1) ws

end

end Widget

open Widget (Path)

/-- The tree of widgets and the place of the speller in it. -/
structure Screen where
  root : Widget
  cself : Path
  self : Widget
  present : root.sub cself.reverse = some self

/-- `GetParentWidget`. -/
def getParentWidget : Path → Option Path
  | [] => none
  | _ :: up => some up

/-- `while GetParentWidget(pParent) do pParent = GetParentWidget(pParent) end`. -/
def climb : Path → Path
  | [] => []
  | _ :: up => climb up

@[simp] theorem climb_eq (path : Path) : climb path = [] := by
  induction path with
  | nil => rfl
  | cons i up ih => exact ih

/-- `Speller:findToggleBtn`. A speller without a parent finds nothing: `IsVisible(nil)` is not true. -/
def findToggleBtn (screen : Screen) : Option Path :=
  if screen.self.visible then
    match getParentWidget screen.cself with
    | some pParent => do
      let top ← screen.root.sub (climb pParent).reverse
      let down ← top.checkChild
      pure down.reverse
    | none => none
  else none

/-- The climb ends at the root, so the search is one over the whole tree. -/
theorem findToggleBtn_eq (screen : Screen) : findToggleBtn screen =
    if screen.self.visible ∧ screen.cself ≠ [] then screen.root.checkChild.map List.reverse else none := by
  unfold findToggleBtn
  cases hself : screen.cself with
  | nil => simp [getParentWidget]
  | cons i up =>
    simp only [getParentWidget, climb_eq, ne_eq, reduceCtorEq, not_false_eq_true, and_true]
    cases hroot : screen.root.checkChild <;> simp [Widget.sub, hroot]

/-! ## Functions and properties -/

/-- A content id (bitmap, colour, …). -/
abbrev Cid := ℕ

/-- What the host gives: the widget's fixed properties and the functions of the framework. -/
structure Platform where
  /-- `GetPosition(self.cself)` -/
  x : ℚ
  y : ℚ
  /-- `GetDisplayWidth(self.cself)` -/
  displayWidth : ℕ
  BmEnabled : List Cid
  BmFocus : List Cid
  BmPressed : List Cid
  BmDisabled : List Cid
  ColEnabled : List ℕ
  ColFocus : List ℕ
  ColPressed : List ℕ
  ColDisabled : List ℕ
  Font : ℕ
  Baseline : Option ℚ
  IN_EVENT_toggle_layout : Option ℕ
  LayoutSequence : Option String
  TextSpace : Option String
  getFontHeight : ℕ → ℚ
  getTextWidth : String → ℕ → ℚ
  getBitmapSize : Option Cid → ℚ × ℚ
  getSpellerLayoutSequence : String → List String
  /-- `self.nEmpty, self.nFill, self.nEol` -/
  getSpellerSpecialCharacters : ℕ × ℕ × ℕ
  utf8Decode : String → List ℕ
  utf8Encode : ℕ → String
  /-- The text that `FormatArabic` hands to its callback. -/
  formatArabic : Option String → String
  CID_DATA_MASK : ℕ
  CID_OFFSET_CHARACTER : ℕ
  /-- `math.limit(x, lo, hi)`: it leaves what lies between the bounds. -/
  limit : ℤ → ℤ → ℤ → ℤ
  limit_eq_self : ∀ x lo hi, lo ≤ x → x ≤ hi → limit x lo hi = x
  screen : Screen
  /-- `GetProperty(self.pToggleButton, "Enabled")` before the speller writes it. -/
  toggleEnabled : Option ℤ

/-- `GetProperty(…) or default) ~= 0`. -/
def isTrue (property : Option ℤ) (default : ℤ) : Bool := property.getD default != 0

/-- The properties that data updates change. -/
structure Props where
  GetLetterFunction : Option String
  InvertGetLetterFunction : Option ℤ
  Enabled : Option ℤ
deriving DecidableEq, Repr

/-- `string.byte(" ")` -/
def nSpace : ℕ := 32

section Properties

variable (p : Platform)

def Platform.ttBitmaps : List (List Cid) := [p.BmEnabled, p.BmFocus, p.BmPressed, p.BmDisabled]

def Platform.ttColors : List (List ℕ) := [p.ColEnabled, p.ColFocus, p.ColPressed, p.ColDisabled]

def Platform.nFontHeight : ℚ := p.getFontHeight p.Font

def Platform.nBaseline : ℚ := p.Baseline.getD 0

def Platform.nEmpty : ℕ := p.getSpellerSpecialCharacters.1

def Platform.nFill : ℕ := p.getSpellerSpecialCharacters.2.1

def Platform.nEol : ℕ := p.getSpellerSpecialCharacters.2.2

/-- `self.nToggleLayoutEvent` (`:187-195`): the low 16 bits of the property, `nil` if they are 0. -/
def Platform.nToggleLayoutEvent : Option EventId :=
  let id := p.IN_EVENT_toggle_layout.getD 0 &&& 0xFFFF
  if id = 0 then none else some (.app id)

/-- `self.pToggleButton` (`:203`). -/
def Platform.pToggleButton : Option Path := findToggleBtn p.screen

end Properties

/-! ## Effects -/

/-- What the speller does to the world, in the order it does it. -/
inductive Effect
  | registerDataUpdate (property : String)
  /-- `SendMessage(dest, GUI_EVENT_WIDGET_SETFOCUS, self.cidself, NumberToCid(code))` -/
  | sendFocus (dest : Option Link) (code : ℕ)
  /-- `SetProperty(self.cself, "PressedCharacter", value, true, true)` -/
  | pressedCharacter (value : ℕ)
  | performPropertyAction (action : String)
  | widgetInvalidate
  | invalidateToggleButton
  | invalidateRect (x1 y1 x2 y2 : ℚ)
  | createClickSound
  | drawBitmap (bitmap : Cid) (x1 y1 x2 y2 : ℚ)
  | drawText (x y : ℚ) (text : String) (font color : ℕ) (baseline : ℚ)
deriving DecidableEq, Repr

/-- A focus message to the button container. -/
def Effect.isFocus : Effect → Bool
  | .sendFocus _ _ => true
  | _ => false

/-- The focus messages among the effects. -/
def focusMessages (log : List Effect) : List Effect := log.filter Effect.isFocus

end Speller
