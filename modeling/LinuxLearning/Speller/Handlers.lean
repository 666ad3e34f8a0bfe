import LinuxLearning.Speller.Refresh
/-!
# The handlers of the speller

| here | there |
| --- | --- |
| `State`                    | the fields of `self` (`:14-98`, `:159-166`), and what the host keeps for the widget |
| `updateEnabled`            | `Speller:updateEnabled` (`:648-766`) |
| `switchLayout`             | `Speller:switchLayout` (`:777-831`) |
| `preDraw`                  | `Speller:preDraw` (`:842-884`) |
| `onMessage`                | `Speller:onMessage` (`:900-998`) |
| `walk`, `moveCursor`       | `Speller:moveCursor` (`:1008-1067`) |
| `tryIndex`, `repositionCursor` | `Speller:repositionCursor` (`:1077-1100`) |
| `focusGained`, `focusLost` | `Speller:focusGained` (`:1111-1124`), `Speller:focusLost` (`:1137-1150`) |
| `isInTouchArea`, `onTouch`, `press` | `:1161-1241` |
| `onDataUpdate`             | `Speller:onDataUpdate` (`:1252-1257`) |
| `initial`, `constructor`   | `Speller:constructor` (`:148-231`) |
| `destructor`               | `Speller:destructor` (`:244-252`) |
| `Event`, `step`            | what the host calls, one handler after the other |

A handler that raises an error leaves the state as it is at that point, and the host goes on with the
next event. `SendMessage` queues its message: no handler runs inside another.
-/

namespace Speller

open Lua (index orRaise loop ipairs upTo when)

/-- The error a handler ends with, by the expression that was `nil`. -/
inductive Error
  /-- `self.tttLayouts[nLayout]` -/
  | layout
  /-- `self.tttLayouts[self.nLayout][b]` in `preDraw`, `isInTouchArea` and `repositionCursor` -/
  | buttonDef
  /-- `self.tttLayouts[self.nLayout][self.nPressed]` in `press` -/
  | pressedButton
  /-- `self.tttButtons[self.nCurrentLayoutType][self.nCursor]` -/
  | button
  /-- arithmetic on `nil` -/
  | arithmetic
deriving DecidableEq, Repr

structure State where
  nCursor : Option ℤ
  bGotFocus : Bool
  bPressed : Bool
  nPressed : Option ℤ
  nLayout : ℤ
  nCurrentLayoutType : LayoutType
  bEnabled : Bool
  bSpaceBtnEnabled : Bool
  tttLayouts : List Layout
  /-- `self.tttLayouts.bUseFill` -/
  bUseFill : Bool
  pButtonContainer : Option Link
  /-- the data behind the bound properties -/
  props : Props
  /-- the `Enabled` property of the toggle button -/
  toggleEnabled : Bool
  /-- the events the host sends to the widget -/
  registered : Finset EventId
  log : List Effect

abbrev Prog := Lua Error State

def emit (e : Effect) : Prog Unit := modify fun s => { s with log := s.log ++ [e] }

/-- `SendMessage(self.pButtonContainer, GUI_EVENT_WIDGET_SETFOCUS, self.cidself, NumberToCid(code))` -/
def sendFocus (code : ℕ) : Prog Unit := do
  let s ← get
  emit (.sendFocus s.pButtonContainer code)

/-- `self.tttLayouts[self.nLayout][b]` -/
def State.buttonDef? (s : State) (b : ℤ) : Option ButtonDef :=
  (index s.tttLayouts s.nLayout).bind fun ttLayout => index ttLayout.buttons b

/-! ## Focus -/

def focusGained (s : State) : State :=
  if s.bGotFocus then s
  else { s with bGotFocus := true, registered := hkMain.foldl (fun r e => insert e r) s.registered }

def focusLost (s : State) : State :=
  if s.bGotFocus then
    { s with bGotFocus := false, registered := hkMain.foldl Finset.erase s.registered }
  else s

/-! ## The cursor -/

section Cursor

variable (p : Platform)

/-- One of the two tests in the loop of `repositionCursor`. Only the first one also takes a button of
a disabled speller. -/
def tryIndex (nIndex : ℤ) (orDisabled : Bool) : Prog Bool := do
  let s ← get
  if nIndex > 0 ∧ nIndex ≤ tNumButtons p s.nCurrentLayoutType then
    let tButtonDef ← orRaise .buttonDef (s.buttonDef? nIndex)
    if tButtonDef.bEnabled || orDisabled && !s.bEnabled then
      modify fun s => { s with nCursor := some nIndex }
      pure true
    else pure false
  else pure false

def probe (nDefaultPos i : ℤ) : Prog (Option Unit) := do
  if ← tryIndex p (nDefaultPos - i + 1) true then pure (some ())
  else if ← tryIndex p (nDefaultPos + i) false then pure (some ())
  else pure none

def repositionCursor (nDefaultPos : Option ℤ) : Prog Bool := do
  modify fun s => { s with nCursor := none }
  let s ← get
  let found ← loop (probe p (nDefaultPos.getD 1)) (upTo (tNumButtons p s.nCurrentLayoutType))
  pure found.isSome

/-- The `while` loop of `moveCursor`: the index it ends with, and whether the button there is enabled.
The loop condition fails exactly where the layout has no button. Every round looks at another button,
so there are at most `#ttLayout` of them. -/
def walk (ttLayout : List ButtonDef) (nMove : ℤ) : ℕ → ℤ → ℤ × Bool
  | 0, nCursor => (nCursor, false)
  | fuel + 1, nCursor => match index ttLayout nCursor with
    | none => (nCursor, false)
    | some tButtonDef =>
      if tButtonDef.bEnabled then (nCursor, true) else walk ttLayout nMove fuel (nCursor + nMove)

/-- `InvalidateRect` of a button. -/
def invalidateRect (tButton : Button) : Effect :=
  .invalidateRect (p.x + tButton.x) (p.y + tButton.y) (p.x + tButton.x + tButton.nWidth - 1)
    (p.y + tButton.y + tButton.nHeight - 1)

/-- `InvalidateRect` of button `b` of the current table. -/
def invalidateButton (b : ℤ) : Prog Unit := do
  let s ← get
  let tButton ← orRaise .button (index (tttButtons p s.nCurrentLayoutType) b)
  emit (invalidateRect p tButton)

/-- The cursor goes from `old` to where the loop has ended. -/
def moveTo (ttLayout : List ButtonDef) (old : ℤ) (walked : ℤ × Bool) : Prog Bool :=
  if walked.2 then do
    when (old ≤ ttLayout.length) (invalidateButton p old)
    modify fun s => { s with nCursor := some walked.1 }
    invalidateButton p walked.1
    pure true
  else if walked.1 ≤ 0 then do
    -- move cursor to button container
    modify focusLost
    when (old ≤ ttLayout.length) (invalidateButton p old)
    modify fun s => { s with nCursor := none }
    sendFocus 1
    pure true
  else pure false

def moveCursor (nMove : ℤ) : Prog Bool := do
  let s ← get
  let ttLayout ← orRaise .layout (index s.tttLayouts s.nLayout)
  let old ← orRaise .arithmetic s.nCursor
  moveTo p ttLayout.buttons old
    (walk ttLayout.buttons nMove (ttLayout.buttons.length + 1) (old + nMove))

end Cursor

/-! ## Layouts -/

section Layouts

variable (p : Platform)

/-- The chain of size comparisons; an unknown size keeps the type. -/
def setLayoutType : Prog Unit := do
  let s ← get
  let ttLayout ← orRaise .layout (index s.tttLayouts s.nLayout)
  modify fun s => { s with
    nCurrentLayoutType := (matchLayoutType p ttLayout.buttons.length).getD s.nCurrentLayoutType }

def switchLayout : Prog Unit := do
  let s ← get
  let nLayout ← orRaise .layout (nextLayout p s.tttLayouts s.nLayout)
  modify fun s => { s with nLayout := nLayout }
  setLayoutType p
  modify fun s => { s with bPressed := false }
  let s ← get
  when s.bGotFocus do
    modify fun s => { s with nCursor := none }
    modify focusLost
    sendFocus 3

/-- What the next refresh goes by (`:650-664`). -/
def State.update (s : State) : Update :=
  let bInvert := isTrue s.props.InvertGetLetterFunction 0
  let bEnabled := isTrue s.props.Enabled 1
  { tCharacters := p.utf8Decode (s.props.GetLetterFunction.getD "")
    bInvert := bInvert
    bEnabled := bEnabled
    bSpaceBtnEnabled := s.bSpaceBtnEnabled
    bUseFill := s.bUseFill && !bInvert && bEnabled }

/-- The layouts after the next refresh and the number of visible ones. -/
def State.refreshed (s : State) : List Layout × ℕ := refresh p (s.update p) s.tttLayouts

/-- The toggle button follows the number of visible layouts (`:741-750`). -/
def setToggleButton (nLayout : ℕ) : Prog Unit := do
  let s ← get
  when p.pToggleButton.isSome do
    if nLayout > 1 ∧ s.toggleEnabled = false then do
      modify fun s => { s with toggleEnabled := true }
      emit .invalidateToggleButton
    else when (nLayout ≤ 1 ∧ s.toggleEnabled = true) do
      modify fun s => { s with toggleEnabled := false }
      emit .invalidateToggleButton

/-- The end of `updateEnabled`: the cursor is put on an enabled button, or the focus is handed over. -/
def keepFocus : Prog Unit := do
  let s ← get
  when s.bGotFocus do
    let found ← repositionCursor p s.nCursor
    when (found = false) do
      -- hand over focus to button container (first enabled button)
      modify focusLost
      sendFocus 1

def updateEnabled : Prog Unit := do
  let s ← get
  modify fun t => { t with bEnabled := (s.update p).bEnabled, tttLayouts := (s.refreshed p).1 }
  setToggleButton p (s.refreshed p).2
  let s ← get
  let ttLayout ← orRaise .layout (index s.tttLayouts s.nLayout)
  when (ttLayout.bVisible = false ∧ s.bEnabled) (switchLayout p)
  keepFocus p

def onDataUpdate (_nUserId : ℕ) : Prog Unit := do
  updateEnabled p
  emit .widgetInvalidate

end Layouts

/-! ## Drawing and touching -/

section Draw

variable (p : Platform)

/-- `nState`: 1 - enabled, 2 - focused, 3 - pressed, 4 - disabled. -/
def State.buttonState (s : State) (b : ℤ) (tButtonDef : ButtonDef) : ℤ :=
  if tButtonDef.bEnabled then
    if s.bPressed ∧ some b = s.nPressed then 3 else if some b = s.nCursor then 2 else 1
  else 4

/-- `self.ttBitmaps[nState][tButton.nType]` -/
def cidBitmap (nState : ℤ) (tButton : Button) : Option Cid :=
  (index p.ttBitmaps nState).bind fun bitmaps => index bitmaps tButton.nType

/-- A button without a bitmap is only traced. -/
def drawBitmap (nState : ℤ) (xButton yButton : ℚ) (tButton : Button) : Prog Unit :=
  match cidBitmap p nState tButton with
  | some cid =>
    emit (.drawBitmap cid xButton yButton (xButton + tButton.nWidth - 1) (yButton + tButton.nHeight - 1))
  | none => pure ()

/-- The text in the middle of the button's bitmap. -/
def drawText (nState : ℤ) (xButton yButton : ℚ) (tButton : Button) (sText : String) : Prog Unit :=
  let image := p.getBitmapSize (cidBitmap p nState tButton)
  let xText := xButton + (image.1 - p.getTextWidth sText p.Font) / 2
  let yText := yButton + (image.2 - p.nFontHeight) / 2
  let nColor := ((index p.ttColors nState).bind fun colors => index colors tButton.nType).getD 0
  let baseline := if p.nBaseline = 0 then 0 else yButton + p.nBaseline
  when (sText ≠ "") (emit (.drawText xText yText sText p.Font nColor baseline))

/-- The body of the loop of `preDraw`, on a button and its index. -/
def drawButton (x y : ℚ) (button : ℤ × Button) : Prog (Option Unit) := do
  let s ← get
  let tButtonDef ← orRaise .buttonDef (s.buttonDef? button.1)
  let nState := s.buttonState button.1 tButtonDef
  drawBitmap p nState (x + button.2.x) (y + button.2.y) button.2
  drawText p nState (x + button.2.x) (y + button.2.y) button.2 tButtonDef.sText
  pure none

def preDraw (x y : ℚ) : Prog Unit := do
  let s ← get
  let _ ← loop (drawButton p x y) (ipairs (tttButtons p s.nCurrentLayoutType))

/-- The click lies in the touch rectangle of the button. -/
def inTouchRect (widgetX widgetY clickX clickY : ℚ) (tButton : Button) : Prop :=
  clickX ≥ widgetX + tButton.x ∧ clickX < widgetX + tButton.x + tButton.nTouchWidth ∧
    clickY ≥ widgetY + tButton.y ∧ clickY < widgetY + tButton.y + tButton.nTouchHeight

instance (widgetX widgetY clickX clickY : ℚ) (tButton : Button) :
    Decidable (inTouchRect widgetX widgetY clickX clickY tButton) := by
  unfold inTouchRect
  infer_instance

/-- The body of the loop of `isInTouchArea`. -/
def touchButton (widgetX widgetY clickX clickY : ℚ) (button : ℤ × Button) : Prog (Option Unit) := do
  let s ← get
  let tButtonDef ← orRaise .buttonDef (s.buttonDef? button.1)
  if tButtonDef.bEnabled ∧ inTouchRect widgetX widgetY clickX clickY button.2 then do
    modify fun s => { s with nPressed := some button.1 }
    pure (some ())
  else pure none

def isInTouchArea (widgetX widgetY clickX clickY : ℚ) : Prog ℕ := do
  let s ← get
  let hit ← loop (touchButton widgetX widgetY clickX clickY) (ipairs (tttButtons p s.nCurrentLayoutType))
  pure (if hit.isSome then 1 else 0)

/-- The character of the pressed button, 0 without one. -/
def pressedCharacter : Prog ℕ := do
  let s ← get
  match s.nPressed with
  | some b =>
    let tButtonDef ← orRaise .pressedButton (s.buttonDef? b)
    pure tButtonDef.nCharacter
  | none => pure 0

def press (duration : Param) : Prog Unit :=
  match duration with
  | .duration .PRESS => do
    modify fun s => { s with bPressed := true }
    let nCharacter ← pressedCharacter
    emit (.pressedCharacter ((nCharacter &&& p.CID_DATA_MASK) + p.CID_OFFSET_CHARACTER))
    emit (.performPropertyAction "OUT_EVENT_pressed")
    emit .widgetInvalidate
  | .duration .LONGPRESS => emit (.performPropertyAction "OUT_EVENT_longpressed")
  | .duration .REPEAT => emit (.performPropertyAction "OUT_EVENT_repeat")
  | .duration .SHORTRELEASE => emit (.performPropertyAction "OUT_EVENT_shortreleased")
  | .duration .RELEASE => do
    modify fun s => { s with bPressed := false }
    emit (.performPropertyAction "OUT_EVENT_released")
    emit .widgetInvalidate
  | _ => pure ()

def onTouch (duration : Param) (_x _y : ℚ) : Prog Unit := do
  when (duration = .duration .PRESS) (emit .createClickSound)
  press p duration

end Draw

/-! ## Messages -/

/-- A message to the widget. A focus request from a button container says by `param2` where the
cursor goes: 1 - first button, 2 - last button (`:108-110`). -/
structure Message where
  eventid : EventId
  param1 : Param
  param2 : Param
  direction : eventid = .WIDGET_SETFOCUS → param1.link? ≠ none → param2 = .number 1 ∨ param2 = .number 2

section Messages

variable (p : Platform)

/-- The focus request of the container `link` (`:922-941`). -/
def onSetFocus (link : Link) (param2 : Param) : Prog Unit := do
  modify fun s => { s with pButtonContainer := some link }
  let s ← get
  when (s.bGotFocus = false) do
    let n ← orRaise .arithmetic param2.number?
    let found ← repositionCursor p (some ((n - 1) * tNumButtons p s.nCurrentLayoutType))
    if found then do
      modify focusGained
      let s ← get
      let nCursor ← orRaise .button s.nCursor
      invalidateButton p nCursor
    else
      -- positioning of cursor failed -> tell button container about it
      sendFocus 2

/-- `GUI_EVENT_WIDGET_SETFOCUS`: only a message with a link is a request. -/
def onSetFocusMessage (param1 param2 : Param) : Prog Unit :=
  match param1.link? with
  | some link => onSetFocus p link param2
  | none => pure ()

/-- `if nMove and self.nCursor then self:moveCursor(nMove) end` -/
def onMove (nMove : ℤ) : Prog Unit := do
  let s ← get
  when s.nCursor.isSome do
    let _ ← moveCursor p nMove

/-- `GUI_EVENT_WIDGET_VIEW_CHANGE`: a pressed button is released. -/
def onViewChange : Prog Unit := do
  let s ← get
  when s.bPressed do
    modify fun s => { s with bPressed := false }
    emit .widgetInvalidate

/-- `GUI_EVENT_WIDGET_ENTRYFIELD_EMPTY`: the space bar is off while the entry field is empty. -/
def onEntryFieldEmpty (param2 : Param) : Prog Unit := do
  modify fun s => { s with bSpaceBtnEnabled := param2 != .number 1 }
  updateEnabled p
  emit .widgetInvalidate

def onToggleLayout : Prog Unit := do
  switchLayout p
  emit .widgetInvalidate

/-- `GUI_EVENT_HK_MAIN_PRESS`: remember pressed button. -/
def onMainPress (param1 : Param) : Prog Unit := do
  modify fun s => { s with nPressed := s.nCursor }
  press p param1

/-- The message handler; it returns whether the message is consumed. -/
def onMessage (eventid : EventId) (param1 param2 : Param) : Prog ℕ :=
  match eventid with
  | .HK_MAIN_NEG => do onMove p (-1); pure 1
  | .HK_MAIN_POS => do onMove p 1; pure 1
  | .WIDGET_SETFOCUS => do onSetFocusMessage p param1 param2; pure 0
  | .app id =>
    if p.nToggleLayoutEvent = some (.app id) then do onToggleLayout p; pure 1
    else pure 0
  | .HK_MAIN_PRESS => do onMainPress p param1; pure 1
  | .HK_MAIN_LONG | .HK_MAIN_REPEAT | .HK_MAIN_SHORT | .HK_MAIN_RELEASE => do press p param1; pure 1
  | .WIDGET_VIEW_CHANGE => do onViewChange; pure 0
  | .WIDGET_ENTRYFIELD_EMPTY => do onEntryFieldEmpty p param2; pure 1

/-! ## Runs -/

/-- What happens to a speller: the data behind its properties changes, or the host calls a handler. -/
inductive Event
  | changeProps (props : Props)
  | onDataUpdate (nUserId : ℕ)
  | onMessage (m : Message)
  | isInTouchArea (widgetX widgetY clickX clickY : ℚ)
  | onTouch (duration : Param) (x y : ℚ)
  | preDraw (x y : ℚ)

def handle : Event → Prog Unit
  | .changeProps props => modify fun s => { s with props := props }
  | .onDataUpdate nUserId => onDataUpdate p nUserId
  | .onMessage m => do let _ ← onMessage p m.eventid m.param1 m.param2
  | .isInTouchArea widgetX widgetY clickX clickY => do
    let _ ← isInTouchArea p widgetX widgetY clickX clickY
  | .onTouch duration x y => onTouch p duration x y
  | .preDraw x y => preDraw p x y

/-- One event; its handler may end with an error. -/
def step (e : Event) (s : State) : Option State := some (Lua.run (handle p e) s).2

/-- The fields as the constructor sets them, before it calls `updateEnabled`. -/
def initial (props : Props) : State :=
  let tttLayouts := buildLayoutTable p
  { nCursor := none
    bGotFocus := false
    bPressed := false
    nPressed := none
    nLayout := 1
    nCurrentLayoutType :=
      ((index tttLayouts 1).bind fun l => matchLayoutType p l.buttons.length).getD .QWERTY_LAYOUT
    bEnabled := true
    bSpaceBtnEnabled := false
    tttLayouts := tttLayouts
    bUseFill := useFill tttLayouts
    pButtonContainer := none
    props := props
    toggleEnabled := isTrue p.toggleEnabled 1
    registered := match p.nToggleLayoutEvent with
      | some e => {.WIDGET_VIEW_CHANGE, e}
      | none => {.WIDGET_VIEW_CHANGE}
    log := [.registerDataUpdate "GetLetterFunction", .registerDataUpdate "InvertGetLetterFunction",
      .registerDataUpdate "Enabled"] }

/-- The state the constructor leaves. -/
def constructor (props : Props) : State := (Lua.run (updateEnabled p) (initial p props)).2

/-- `DeregisterEvent` with the widget alone takes back all of its registrations. -/
def destructor (s : State) : State :=
  if s.bGotFocus = true ∨ p.nToggleLayoutEvent ≠ none then { s with registered := ∅ } else s

end Messages

end Speller
