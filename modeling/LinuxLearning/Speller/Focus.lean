import LinuxLearning.Speller.Invariant
/-!
# Focus, cursor and toggle button over whole runs

Consequences of the invariant for every run from the constructor, in every state between two
handlers. A run is any list of events, with new data for the properties at any time.

* `cursor_law` — the current layout, the focus and the cursor fit together;
* `handover_law` — the focus is handed back once for each time it was handed over;
* `toggle_law` — the current layout is visible if any is, and the toggle button is enabled if and only
  if a switch would change the layout.
-/

namespace Speller

open Lua (index)

variable {p : Platform} {props : Props} {es : List Event} {s : State}

/-! ## A speller with two layouts of 12 keys and a toggle button -/

/-- A button container with a speller and a toggle button. -/
def phone : Screen where
  root := .mk "View" true [.mk "Keys" true [], .mk "ToggleLayout" true []]
  cself := [0]
  self := .mk "Keys" true []
  present := by rfl

def numPad : Platform where
  x := 0
  y := 0
  displayWidth := 800
  BmEnabled := List.range 36
  BmFocus := List.range 36
  BmPressed := List.range 36
  BmDisabled := List.range 36
  ColEnabled := []
  ColFocus := []
  ColPressed := []
  ColDisabled := []
  Font := 1
  Baseline := none
  IN_EVENT_toggle_layout := some 0x4001
  LayoutSequence := some "numpad"
  TextSpace := some " "
  getFontHeight := fun _ => 20
  getTextWidth := fun sText _ => 10 * sText.length
  getBitmapSize := fun cid => if cid.isSome then (150, 70) else (0, 0)
  getSpellerLayoutSequence := fun sName =>
    if sName = "numpad" then ["123456789*0#", "abcdefghijkl"] else []
  getSpellerSpecialCharacters := (0xE000, 0xE001, 0xE002)
  utf8Decode := fun sText => sText.toList.map Char.toNat
  utf8Encode := fun code => String.ofList [Char.ofNat code]
  formatArabic := fun sText => sText.getD ""
  CID_DATA_MASK := 0xFFFF
  CID_OFFSET_CHARACTER := 0x10000
  limit := fun x lo hi => max lo (min x hi)
  limit_eq_self := by
    intro x lo hi h₁ h₂
    omega
  screen := phone
  toggleEnabled := none

theorem numPad_wellSized : WellSized numPad := by decide +kernel

/-- No letter is excluded, all keys are enabled. -/
def allKeys : Props := ⟨some "", some 1, some 1⟩

/-- The request of container `link` for the first or the last button. -/
def request (link : Link) (first : Bool) : Event :=
  .onMessage ⟨.WIDGET_SETFOCUS, .userdata link, .number (if first then 1 else 2), by cases first <;> simp⟩

/-- A message that is no focus request. -/
def send (eventid : EventId) (param1 : Param) (h : eventid ≠ .WIDGET_SETFOCUS := by decide) : Event :=
  .onMessage ⟨eventid, param1, .nil, fun hfocus => absurd hfocus h⟩

/-! ## The laws -/

/-- **Focus, cursor and layout.** The current layout exists and has as many buttons as the table of its
type; the speller has the focus if and only if it has a cursor, and if and only if the seven events
are registered; the cursor is on a button of the current layout, an enabled one if the speller is
enabled. -/
theorem cursor_law (hp : WellSized p) (h : Run.exec (step p) es (constructor p props) = some s) :
    ∃ l, index s.tttLayouts s.nLayout = some l ∧ 1 ≤ s.nLayout ∧ s.nLayout ≤ s.tttLayouts.length ∧
      l.buttons.length = (tttButtons p s.nCurrentLayoutType).length ∧
      l.buttons.length = tNumButtons p s.nCurrentLayoutType ∧
      (s.bGotFocus = true ↔ s.nCursor ≠ none) ∧
      (∀ e ∈ hkMain, e ∈ s.registered ↔ s.bGotFocus = true) ∧
      ∀ c, s.nCursor = some c → 1 ≤ c ∧ c ≤ l.buttons.length ∧
        ∃ d, index l.buttons c = some d ∧ (s.bEnabled = true → d.bEnabled = true) := by
  have hgood := good_run hp h
  obtain ⟨l, hl⟩ := hgood.inRange.exists_layout
  have hsize := hgood.type l hl
  refine ⟨l, hl, hgood.inRange.1, hgood.inRange.2, hsize, hsize, ?_, hgood.registered, ?_⟩
  · rw [hgood.focus, Option.isSome_iff_ne_none]
  · intro c hc
    obtain ⟨d, hd, hon⟩ := hgood.cursor c hc
    unfold State.buttonDef? at hd
    rw [hl, Option.bind_some] at hd
    exact ⟨(Lua.bounds_of_index hd).1, (Lua.bounds_of_index hd).2, d, hd, hon⟩

theorem cursor_law_sample : ∃ s l d,
    Run.exec (step numPad) [request 7 true, send .HK_MAIN_POS .nil] (constructor numPad allKeys) = some s ∧
      s.nCursor = some 2 ∧ s.bGotFocus = true ∧ index s.tttLayouts s.nLayout = some l ∧
      index l.buttons 2 = some d ∧ d.bEnabled = true := by
  have h : (Run.exec (step numPad) [request 7 true, send .HK_MAIN_POS .nil] (constructor numPad allKeys)).map
      (fun s => (s.nCursor, s.bGotFocus, s.bEnabled)) = some (some 2, true, true) := by
    decide +kernel
  obtain ⟨s, hs, he⟩ := Option.map_eq_some_iff.1 h
  simp only [Prod.mk.injEq] at he
  obtain ⟨l, hl, -, -, -, -, -, -, hcursor⟩ := cursor_law numPad_wellSized hs
  obtain ⟨-, -, d, hd, hon⟩ := hcursor 2 he.1
  exact ⟨s, l, d, hs, he.1, he.2.1, hl, hd, hon he.2.2⟩

/-- **The focus is handed back.** The times it was handed to the speller are the messages the speller
has sent to the container, and one more while it has the focus; every message goes to a container. -/
theorem handover_law (hp : WellSized p) (h : Run.exec (step p) es (constructor p props) = some s) :
    Run.count (step p) handedOver es (constructor p props) =
        (focusMessages s.log).length + (if s.bGotFocus then 1 else 0) ∧
      ∀ e ∈ focusMessages s.log, ∃ link code, e = .sendFocus (some link) code :=
  ⟨(good_run hp h).balance.symm, (good_run hp h).sent⟩

/-- The cursor leaves to the left, then a request is bounced because no key is enabled. -/
def leaveAndBounce : List Event :=
  [request 7 true, send .HK_MAIN_NEG .nil, .changeProps ⟨some "", some 0, some 1⟩, .onDataUpdate 0,
    request 7 false]

theorem handover_law_sample : ∃ s,
    Run.exec (step numPad) leaveAndBounce (constructor numPad allKeys) = some s ∧
      Run.count (step numPad) handedOver leaveAndBounce (constructor numPad allKeys) = 2 ∧
      focusMessages s.log = [.sendFocus (some 7) 1, .sendFocus (some 7) 2] ∧ s.bGotFocus = false := by
  have h : (Run.exec (step numPad) leaveAndBounce (constructor numPad allKeys)).map
      (fun s => (focusMessages s.log, s.bGotFocus)) =
        some ([.sendFocus (some 7) 1, .sendFocus (some 7) 2], false) := by
    decide +kernel
  obtain ⟨s, hs, he⟩ := Option.map_eq_some_iff.1 h
  simp only [Prod.mk.injEq] at he
  have hcount := (handover_law numPad_wellSized hs).1
  rw [he.1, he.2] at hcount
  exact ⟨s, hs, hcount, he.1, he.2⟩

/-- What a switch would do to the number of the layout. -/
theorem switchLayout_nLayout (h : InRange s) :
    ∃ m, IsNext s.tttLayouts s.nLayout m ∧ (Lua.run (switchLayout p) s).2.nLayout = m := by
  obtain ⟨_, s', hrun, m, hm, rfl⟩ := Lua.returns_of_wp (switchLayout_wp (p := p) h)
  have hshape := switched_shape (p := p) s m
  simp only [State.shape, Prod.mk.injEq] at hshape
  exact ⟨m, isNext_of_eq h hm, by rw [hrun, hshape.2.1]⟩

/-- **The toggle button.** The current layout is visible, or none is; the toggle button, if there is one,
is enabled if and only if a switch would change the layout. -/
theorem toggle_law (hp : WellSized p) (h : Run.exec (step p) es (constructor p props) = some s) :
    (visibleAt s.tttLayouts s.nLayout = some true ∨ ∀ i, visibleAt s.tttLayouts i ≠ some true) ∧
      (p.pToggleButton.isSome →
        (s.toggleEnabled = true ↔ (Lua.run (switchLayout p) s).2.nLayout ≠ s.nLayout)) := by
  have hgood := good_run hp h
  refine ⟨hgood.visible, fun hbutton => ?_⟩
  obtain ⟨m, hm, hrun⟩ := switchLayout_nLayout (p := p) hgood.inRange
  rw [hrun, hm.ne_iff hgood.inRange.1 hgood.inRange.2, hgood.toggle hbutton]
  exact one_lt_countVisible hgood.inRange.1 hgood.inRange.2 hgood.visible

theorem toggle_law_sample : ∃ s,
    Run.exec (step numPad) [send (.app 0x4001) .nil] (constructor numPad allKeys) = some s ∧
      s.nLayout = 2 ∧ (Lua.run (switchLayout numPad) s).2.nLayout ≠ 2 := by
  have h : (Run.exec (step numPad) [send (.app 0x4001) .nil] (constructor numPad allKeys)).map
      (fun s => (s.nLayout, s.toggleEnabled)) = some (2, true) := by
    decide +kernel
  have hbutton : numPad.pToggleButton.isSome := by decide +kernel
  obtain ⟨s, hs, he⟩ := Option.map_eq_some_iff.1 h
  simp only [Prod.mk.injEq] at he
  have hlaw := ((toggle_law numPad_wellSized hs).2 hbutton).1 he.2
  rw [he.1] at hlaw
  exact ⟨s, hs, he.1, hlaw⟩

end Speller
