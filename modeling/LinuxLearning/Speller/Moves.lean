import LinuxLearning.Speller.Specs
/-!
# What one event does to everything but the cursor and the focus

The laws about the layouts, the pressed button and the registrations do not depend on where the cursor
goes. Here an event is described up to that, whatever the sizes of the layouts are and whether its
handler returns or raises:

* `steady` — the state without the cursor, the focus and the effects;
* `written` — what the handler writes to the rest: new data, a refresh, the pressed button;
* `switchesIn` — the layouts among which it switches, if it does;
* `step_moved` — after the event `steady` is the one of `written`, with the current layout as it was or the
  one switched to.
-/

namespace Speller

open Lua (index wp wp_bind wp_mono wp_ite wp_when Keeps keeps_bind keeps_get_bind keeps_modify keeps_orRaise
  keeps_pure keeps_ite keeps_when)

variable {p : Platform} {s s' : State}

/-- The layouts after a refresh, if it hides the current one. -/
def hidden (p : Platform) (s : State) : Option (List Layout) :=
  if Hides p s then some (s.refreshed p).1 else none

/-- The layouts among which the event switches, if it does. -/
def switchesIn (p : Platform) : Event → State → Option (List Layout)
  | .onDataUpdate _, s => hidden p s
  | .onMessage m, s => match m.eventid with
    | .app id => if p.nToggleLayoutEvent = some (.app id) then some s.tttLayouts else none
    | .WIDGET_ENTRYFIELD_EMPTY => hidden p { s with bSpaceBtnEnabled := m.param2 != .number 1 }
    | _ => none
  | _, _ => none

/-- The state after the event, but for the cursor, the focus and the current layout. -/
def written (p : Platform) : Event → State → State
  | .changeProps props, s => { s with props := props }
  | .onDataUpdate _, s => s.afterRefresh p []
  | .onMessage m, s => match m.eventid with
    | .HK_MAIN_PRESS => { s with nPressed := s.nCursor }
    | .WIDGET_ENTRYFIELD_EMPTY =>
      State.afterRefresh p { s with bSpaceBtnEnabled := m.param2 != .number 1 } []
    | _ => s
  | .isInTouchArea wx wy cx cy, s =>
    { s with nPressed := (Lua.run (isInTouchArea p wx wy cx cy) s).2.nPressed }
  | _, s => s

/-! ## Cursor and focus -/

/-- The state without the cursor, the focus and the effects. -/
def State.steady (s : State) : State := { s with
  nCursor := none
  bGotFocus := false
  bPressed := false
  pButtonContainer := none
  registered := s.registered \ hkMain.toFinset
  log := [] }

@[simp] theorem steady_nPressed (s : State) : s.steady.nPressed = s.nPressed := rfl
@[simp] theorem steady_nLayout (s : State) : s.steady.nLayout = s.nLayout := rfl
@[simp] theorem steady_nCurrentLayoutType (s : State) :
    s.steady.nCurrentLayoutType = s.nCurrentLayoutType := rfl
@[simp] theorem steady_tttLayouts (s : State) : s.steady.tttLayouts = s.tttLayouts := rfl
@[simp] theorem steady_props (s : State) : s.steady.props = s.props := rfl
@[simp] theorem steady_bEnabled (s : State) : s.steady.bEnabled = s.bEnabled := rfl
@[simp] theorem steady_toggleEnabled (s : State) : s.steady.toggleEnabled = s.toggleEnabled := rfl
@[simp] theorem steady_bUseFill (s : State) : s.steady.bUseFill = s.bUseFill := rfl
@[simp] theorem steady_bSpaceBtnEnabled (s : State) : s.steady.bSpaceBtnEnabled = s.bSpaceBtnEnabled := rfl
@[simp] theorem steady_registered (s : State) : s.steady.registered = s.registered \ hkMain.toFinset := rfl

theorem steady_of_calm {α : Type} {x : Prog α} (h : Keeps State.calm x) : Keeps State.steady x :=
  h.comp State.steady

theorem emit_steady (e : Effect) : Keeps State.steady (emit e) := keeps_modify fun _ => rfl

theorem sendFocus_steady (code : ℕ) : Keeps State.steady (sendFocus code) :=
  keeps_get_bind fun _ => keeps_modify fun _ => rfl

/-- The registrations of the focus are the seven events. -/
theorem steady_focus {r : Finset EventId} (b : Bool) (h : ∀ e, e ∉ hkMain → (e ∈ r ↔ e ∈ s.registered)) :
    { s with bGotFocus := b, registered := r }.steady = s.steady := by
  have hr : r \ hkMain.toFinset = s.registered \ hkMain.toFinset := by
    ext e
    simp only [Finset.mem_sdiff, List.mem_toFinset]
    exact and_congr_left fun he => h e he
  unfold State.steady
  rw [hr]

theorem focusLost_steady : Keeps State.steady (modify focusLost : Prog PUnit) := by
  apply keeps_modify
  intro s
  cases h : s.bGotFocus with
  | false => simp [focusLost, h]
  | true =>
    have heq := focusLost_eq s
    rw [heq]
    apply steady_focus
    intro e he
    have hmem := mem_focusLost h e
    rw [heq] at hmem
    rw [hmem]
    simp [he]

theorem focusGained_steady : Keeps State.steady (modify focusGained : Prog PUnit) := by
  apply keeps_modify
  intro s
  cases h : s.bGotFocus with
  | true => simp [focusGained, h]
  | false =>
    rw [focusGained_eq s h]
    apply steady_focus
    intro e he
    rw [mem_focusGained h]
    simp [he]

theorem repositionCursor_steady (nDefaultPos : Option ℤ) :
    Keeps State.steady (repositionCursor p nDefaultPos) := by
  apply Lua.keeps_of_wp
  intro s
  apply wp_mono (repositionCursor_wp nDefaultPos)
  · rintro found s' (⟨-, rfl⟩ | ⟨-, n, -, rfl⟩)
    · rfl
    · rfl
  · rintro e s' ⟨-, -, rfl⟩
    rfl

theorem keepFocus_steady : Keeps State.steady (keepFocus p) := by
  unfold keepFocus
  apply keeps_get_bind
  intro s
  apply keeps_when
  apply keeps_bind (repositionCursor_steady _)
  intro found
  exact keeps_when (keeps_bind focusLost_steady fun _ => sendFocus_steady 1)

theorem onMove_steady (nMove : ℤ) : Keeps State.steady (onMove p nMove) := by
  have hinvalidate : ∀ b, Keeps State.steady (invalidateButton p b) :=
    fun b => steady_of_calm (invalidateButton_calm b)
  have hmoveTo : ∀ (l : List ButtonDef) (old : ℤ) (walked : ℤ × Bool),
      Keeps State.steady (moveTo p l old walked) := by
    intro l old walked
    unfold moveTo
    apply keeps_ite
    · refine keeps_bind (keeps_when (hinvalidate _)) fun _ => ?_
      refine keeps_bind (keeps_modify fun _ => rfl) fun _ => ?_
      exact keeps_bind (hinvalidate _) fun _ => keeps_pure _
    · apply keeps_ite
      · refine keeps_bind focusLost_steady fun _ => ?_
        refine keeps_bind (keeps_when (hinvalidate _)) fun _ => ?_
        refine keeps_bind (keeps_modify fun _ => rfl) fun _ => ?_
        exact keeps_bind (sendFocus_steady 1) fun _ => keeps_pure _
      · exact keeps_pure _
  unfold onMove
  apply keeps_get_bind
  intro s
  apply keeps_when
  refine keeps_bind ?_ fun _ => keeps_pure _
  unfold moveCursor
  apply keeps_get_bind
  intro s
  refine keeps_bind (keeps_orRaise _ _) fun _ => ?_
  exact keeps_bind (keeps_orRaise _ _) fun _ => hmoveTo _ _ _

theorem onSetFocus_steady (link : Link) (param2 : Param) : Keeps State.steady (onSetFocus p link param2) := by
  unfold onSetFocus
  refine keeps_bind (keeps_modify fun _ => rfl) fun _ => ?_
  apply keeps_get_bind
  intro s
  apply keeps_when
  refine keeps_bind (keeps_orRaise _ _) fun n => ?_
  refine keeps_bind (repositionCursor_steady _) fun found => ?_
  apply keeps_ite
  · refine keeps_bind focusGained_steady fun _ => keeps_get_bind fun s => ?_
    exact keeps_bind (keeps_orRaise _ _) fun c => steady_of_calm (invalidateButton_calm c)
  · exact sendFocus_steady 2

/-! ## Switches and refreshes -/

/-- `s'` is `s` with another cursor and focus, and with the current layout switched to if the event
switches among `layouts`. -/
structure Moved (p : Platform) (layouts : Option (List Layout)) (s s' : State) : Prop where
  steady : s'.steady = { s with nLayout := s'.nLayout, nCurrentLayoutType := s'.nCurrentLayoutType }.steady
  stays : layouts = none → s'.nLayout = s.nLayout ∧ s'.nCurrentLayoutType = s.nCurrentLayoutType
  switches : ∀ table, layouts = some table → table = s.tttLayouts ∧ ∃ m,
    nextLayout p table s.nLayout = some m ∧ s'.nLayout = m ∧
      s'.nCurrentLayoutType = typeAt p table s.nCurrentLayoutType m

section Moved

variable {layouts : Option (List Layout)} (h : Moved p layouts s s')

include h

theorem Moved.tttLayouts : s'.tttLayouts = s.tttLayouts := by
  simpa using congrArg State.tttLayouts h.steady

theorem Moved.bSpaceBtnEnabled : s'.bSpaceBtnEnabled = s.bSpaceBtnEnabled := by
  simpa using congrArg State.bSpaceBtnEnabled h.steady

theorem Moved.props : s'.props = s.props := by
  simpa using congrArg State.props h.steady

theorem Moved.bEnabled : s'.bEnabled = s.bEnabled := by
  simpa using congrArg State.bEnabled h.steady

theorem Moved.toggleEnabled : s'.toggleEnabled = s.toggleEnabled := by
  simpa using congrArg State.toggleEnabled h.steady

theorem Moved.bUseFill : s'.bUseFill = s.bUseFill := by
  simpa using congrArg State.bUseFill h.steady

theorem Moved.nPressed : s'.nPressed = s.nPressed := by
  simpa using congrArg State.nPressed h.steady

theorem Moved.registered {e : EventId} (he : e ∉ hkMain) : e ∈ s'.registered ↔ e ∈ s.registered := by
  have hr := congrArg State.registered h.steady
  simp only [steady_registered] at hr
  have hmem := Finset.ext_iff.1 hr e
  simpa [he] using hmem

end Moved

theorem moved_of_steady (h : s'.steady = s.steady) : Moved p none s s' := by
  have hlayout : s'.nLayout = s.nLayout := by simpa using congrArg State.nLayout h
  have htype : s'.nCurrentLayoutType = s.nCurrentLayoutType := by
    simpa using congrArg State.nCurrentLayoutType h
  refine ⟨?_, fun _ => ⟨hlayout, htype⟩, fun _ hnone => by simp at hnone⟩
  rw [hlayout, htype]
  exact h

theorem moved_steady {layouts : Option (List Layout)} {t : State} (h : Moved p layouts s t)
    (heq : s'.steady = t.steady) : Moved p layouts s s' := by
  have hlayout : s'.nLayout = t.nLayout := by simpa using congrArg State.nLayout heq
  have htype : s'.nCurrentLayoutType = t.nCurrentLayoutType := by
    simpa using congrArg State.nCurrentLayoutType heq
  refine ⟨?_, ?_, ?_⟩
  · rw [hlayout, htype, heq]
    exact h.steady
  · rw [hlayout, htype]
    exact h.stays
  · rw [hlayout, htype]
    exact h.switches

/-- Whatever its outcome, the function leaves `t` up to a move. -/
abbrev Moves {α : Type} (p : Platform) (layouts : Option (List Layout)) (t : State) (x : Prog α) (s : State) :
    Prop :=
  wp x (fun _ s' => Moved p layouts t s') (fun _ s' => Moved p layouts t s') s

theorem moves_of_keeps {α : Type} {x : Prog α} (h : Keeps State.steady x) : Moves p none s x s :=
  wp_mono (Lua.wp_of_keeps h s) (fun _ _ heq => moved_of_steady heq) (fun _ _ heq => moved_of_steady heq)

theorem moves_bind {α β : Type} {layouts : Option (List Layout)} {t : State} {x : Prog α} {f : α → Prog β}
    (hx : Moves p layouts t x s) (hf : ∀ a, Keeps State.steady (f a)) : Moves p layouts t (x >>= f) s := by
  unfold Moves
  rw [wp_bind]
  apply wp_mono hx _ (fun _ _ h => h)
  intro a u hu
  apply wp_mono (Lua.wp_of_keeps (hf a) u)
  · exact fun _ _ heq => moved_steady hu heq
  · exact fun _ _ heq => moved_steady hu heq

theorem switched_steady (s : State) (m : ℤ) : (s.switched p m).steady =
    { s with nLayout := m, nCurrentLayoutType := typeAt p s.tttLayouts s.nCurrentLayoutType m }.steady := by
  unfold State.switched
  by_cases hf : s.bGotFocus
  · rw [if_pos hf]
    -- to hand the focus over is to lose it and to send a message
    exact focusLost_steady { s with
      nLayout := m
      nCurrentLayoutType := typeAt p s.tttLayouts s.nCurrentLayoutType m
      bPressed := false }
  · rw [if_neg hf]
    rfl

theorem moved_switched {m : ℤ} (hm : nextLayout p s.tttLayouts s.nLayout = some m) :
    Moved p (some s.tttLayouts) s (s.switched p m) := by
  have hsteady := switched_steady (p := p) s m
  have hlayout : (s.switched p m).nLayout = m := by simpa using congrArg State.nLayout hsteady
  have htype : (s.switched p m).nCurrentLayoutType = typeAt p s.tttLayouts s.nCurrentLayoutType m := by
    simpa using congrArg State.nCurrentLayoutType hsteady
  refine ⟨?_, fun hnone => by simp at hnone, ?_⟩
  · rw [hlayout, htype, hsteady]
  · rintro table ⟨⟩
    exact ⟨rfl, m, hm, hlayout, htype⟩

theorem switchLayout_moves (h : InRange s) : Moves p (some s.tttLayouts) s (switchLayout p) s := by
  apply wp_mono (switchLayout_wp h) _ (fun _ _ h => h.elim)
  rintro _ s' ⟨m, hm, rfl⟩
  exact moved_switched hm

/-- The effects before the move do not matter. -/
theorem moved_log {layouts : Option (List Layout)} {log : List Effect}
    (h : Moved p layouts (s.afterRefresh p log) s') : Moved p layouts (s.afterRefresh p []) s' :=
  ⟨h.steady, h.stays, h.switches⟩

theorem updateEnabled_moves (h : InRange s) : Moves p (hidden p s) (s.afterRefresh p []) (updateEnabled p) s := by
  apply updateEnabled_wp h
  · intro log m _ hhides hm
    have hlayouts : hidden p s = some (s.refreshed p).1 := if_pos hhides
    rw [hlayouts, keepFocus_unfocused (switched_bGotFocus _ m)]
    exact moved_log (moved_switched (s := s.afterRefresh p log) hm)
  · intro log _ hstay
    have hlayouts : hidden p s = none := if_neg hstay
    have hmoved : Moved p none (s.afterRefresh p log) (s.afterRefresh p log) := moved_of_steady rfl
    rw [hlayouts]
    apply wp_mono (Lua.wp_of_keeps keepFocus_steady _)
    · exact fun _ _ heq => moved_log (moved_steady hmoved heq)
    · exact fun _ _ heq => moved_log (moved_steady hmoved heq)

/-! ## Events -/

theorem onMessage_moves (h : InRange s) (m : Message) :
    Moves p (switchesIn p (.onMessage m) s) (written p (.onMessage m) s)
      (onMessage p m.eventid m.param1 m.param2) s := by
  have hdone : ∀ k : ℕ, ∀ u : Unit, Keeps State.steady (pure k : Prog ℕ) := fun k _ => keeps_pure k
  have hpress : ∀ duration, Keeps State.steady (press p duration) :=
    fun duration => steady_of_calm (press_calm duration)
  unfold onMessage switchesIn written
  dsimp only
  cases hid : m.eventid with
  | HK_MAIN_NEG => exact moves_bind (moves_of_keeps (onMove_steady _)) (hdone 1)
  | HK_MAIN_POS => exact moves_bind (moves_of_keeps (onMove_steady _)) (hdone 1)
  | HK_MAIN_PRESS =>
    refine moves_bind ?_ (hdone 1)
    unfold onMainPress Moves
    rw [wp_bind, Lua.wp_modify]
    exact moves_of_keeps (hpress _)
  | HK_MAIN_LONG => exact moves_bind (moves_of_keeps (hpress _)) (hdone 1)
  | HK_MAIN_REPEAT => exact moves_bind (moves_of_keeps (hpress _)) (hdone 1)
  | HK_MAIN_SHORT => exact moves_bind (moves_of_keeps (hpress _)) (hdone 1)
  | HK_MAIN_RELEASE => exact moves_bind (moves_of_keeps (hpress _)) (hdone 1)
  | WIDGET_SETFOCUS =>
    refine moves_bind (moves_of_keeps ?_) (hdone 0)
    unfold onSetFocusMessage
    cases m.param1.link? with
    | none => exact keeps_pure ()
    | some link => exact onSetFocus_steady link _
  | WIDGET_VIEW_CHANGE => exact moves_bind (moves_of_keeps (steady_of_calm onViewChange_calm)) (hdone 0)
  | WIDGET_ENTRYFIELD_EMPTY =>
    refine moves_bind ?_ (hdone 1)
    unfold onEntryFieldEmpty Moves
    rw [wp_bind, Lua.wp_modify]
    have hin : InRange { s with bSpaceBtnEnabled := m.param2 != .number 1 } := h
    exact moves_bind (updateEnabled_moves hin) fun _ => emit_steady _
  | app id =>
    by_cases htoggle : p.nToggleLayoutEvent = some (.app id)
    · simp only [htoggle, if_true]
      refine moves_bind ?_ (hdone 1)
      exact moves_bind (switchLayout_moves h) fun _ => emit_steady _
    · simp only [htoggle, if_false]
      exact moves_of_keeps (hdone 0 ())

theorem handle_moves (h : InRange s) (e : Event) :
    Moves p (switchesIn p e s) (written p e s) (handle p e) s := by
  cases e with
  | changeProps props => exact moved_of_steady rfl
  | onDataUpdate nUserId => exact moves_bind (updateEnabled_moves h) fun _ => emit_steady _
  | onMessage m => exact moves_bind (onMessage_moves h m) fun _ => keeps_pure _
  | isInTouchArea wx wy cx cy =>
    refine moves_bind ?_ fun _ => keeps_pure _
    apply Lua.wp_of_state
    apply moved_of_steady
    have hquiet := isInTouchArea_quiet (p := p) wx wy cx cy s
    exact congrArg (fun t => { t.steady with
      nPressed := (Lua.run (isInTouchArea p wx wy cx cy) s).2.nPressed }) hquiet
  | onTouch duration x y => exact moves_of_keeps (steady_of_calm (onTouch_calm duration x y))
  | preDraw x y => exact moves_of_keeps (steady_of_calm (preDraw_calm x y))

/-- The host can always send the next event. -/
theorem step_total (p : Platform) (e : Event) (s : State) : ∃ s', step p e s = some s' := ⟨_, rfl⟩

/-- **One event**, up to the cursor and the focus. -/
theorem step_moved (h : InRange s) {e : Event} (hs : step p e s = some s') :
    Moved p (switchesIn p e s) (written p e s) s' := by
  rw [← Option.some.inj hs]
  exact Lua.state_of_wp (handle_moves h e)

/-! ## The current layout exists -/

/-- What an event writes only when it switches the layout, moves the focus, or not at all. -/
theorem written_same (e : Event) (s : State) : (written p e s).nLayout = s.nLayout ∧
    (written p e s).nCurrentLayoutType = s.nCurrentLayoutType ∧ (written p e s).bUseFill = s.bUseFill ∧
    (written p e s).registered = s.registered := by
  cases e with
  | onMessage m =>
    unfold written
    dsimp only
    cases m.eventid <;> exact ⟨rfl, rfl, rfl, rfl⟩
  | _ => exact ⟨rfl, rfl, rfl, rfl⟩

@[simp] theorem written_nLayout (e : Event) (s : State) : (written p e s).nLayout = s.nLayout :=
  (written_same e s).1

@[simp] theorem written_nCurrentLayoutType (e : Event) (s : State) :
    (written p e s).nCurrentLayoutType = s.nCurrentLayoutType :=
  (written_same e s).2.1

@[simp] theorem written_bUseFill (e : Event) (s : State) : (written p e s).bUseFill = s.bUseFill :=
  (written_same e s).2.2.1

@[simp] theorem written_registered (e : Event) (s : State) : (written p e s).registered = s.registered :=
  (written_same e s).2.2.2

/-- The number of buttons of each layout. -/
def sizes (layouts : List Layout) : List ℕ := layouts.map fun l => l.buttons.length

theorem sizes_refreshed (p : Platform) (s : State) : sizes (s.refreshed p).1 = sizes s.tttLayouts :=
  sizes_eq_of_fills (fills_refresh p (s.update p) s.tttLayouts)

theorem sizes_written (e : Event) (s : State) : sizes (written p e s).tttLayouts = sizes s.tttLayouts := by
  cases e with
  | onDataUpdate nUserId => exact sizes_refreshed p s
  | onMessage m =>
    unfold written
    dsimp only
    cases m.eventid with
    | WIDGET_ENTRYFIELD_EMPTY => exact sizes_refreshed p _
    | _ => rfl
  | _ => rfl

theorem length_of_sizes {layouts layouts' : List Layout} (h : sizes layouts' = sizes layouts) :
    layouts'.length = layouts.length := by
  have hlen := congrArg List.length h
  simpa [sizes] using hlen

theorem inRange_of_sizes (h : InRange s) (hsizes : sizes s'.tttLayouts = sizes s.tttLayouts)
    (hlayout : s'.nLayout = s.nLayout) : InRange s' := by
  unfold InRange
  rw [length_of_sizes hsizes, hlayout]
  exact h

theorem inRange_moved {layouts : Option (List Layout)} (h : InRange s) (hm : Moved p layouts s s') : InRange s' := by
  unfold InRange
  rw [hm.tttLayouts]
  cases layouts with
  | none =>
    rw [(hm.stays rfl).1]
    exact h
  | some table =>
    obtain ⟨rfl, m, hnext, hlayout, -⟩ := hm.switches table rfl
    obtain ⟨m', hm', hspec⟩ := nextLayout_spec p h.1 h.2
    rw [hnext, Option.some.injEq] at hm'
    rw [hlayout, hm']
    exact hspec.bounds h.1 h.2

theorem inRange_written (h : InRange s) (e : Event) : InRange (written p e s) :=
  inRange_of_sizes h (sizes_written e s) (written_nLayout e s)

theorem step_inRange (h : InRange s) {e : Event} (hs : step p e s = some s') : InRange s' :=
  inRange_moved (inRange_written h e) (step_moved h hs)

theorem inRange_initial (p : Platform) (props : Props) : InRange (initial p props) := by
  have hlen : (1 : ℤ) ≤ (buildLayoutTable p).length := by simp [buildLayoutTable, Lua.upTo]
  exact ⟨le_rfl, hlen⟩

/-- The constructor refreshes the flags of the layouts it has built. -/
theorem constructor_moved (p : Platform) (props : Props) :
    Moved p (hidden p (initial p props)) ((initial p props).afterRefresh p []) (constructor p props) :=
  Lua.state_of_wp (updateEnabled_moves (inRange_initial p props))

theorem inRange_constructor (p : Platform) (props : Props) : InRange (constructor p props) := by
  apply inRange_moved _ (constructor_moved p props)
  exact inRange_afterRefresh (inRange_initial p props) []

end Speller
