import LinuxLearning.Speller.Handlers
/-!
# What each handler does

One statement for each function of `Handlers.lean`; the invariants that follow use these and do not
unfold the functions.

* `calm` — what presses and drawing leave alone: everything but the pressed flag and the effects other
  than focus messages; `quiet` — what touches leave alone: the same without the pressed button;
* `shape` — the layouts, the current one and its type: only a refresh and a layout switch change them;
* `repositionCursor_wp`, `moveCursor_wp`, `switchLayout_wp` — where the cursor and the focus go.
-/

namespace Speller

open Lua (index orRaise loop ipairs upTo wp wp_bind wp_mono Keeps keeps_bind keeps_get_bind keeps_modify
  keeps_orRaise keeps_pure keeps_loop keeps_ite keeps_when wp_ite wp_when)

variable {p : Platform} {s s' : State}

/-! ## Frames -/

/-- The state without the pressed flag and the effects that are no focus messages. -/
def State.calm (s : State) : State := { s with bPressed := false, log := focusMessages s.log }

/-- The state without the pressed button and the effects that are no focus messages. -/
def State.quiet (s : State) : State :=
  { s with bPressed := false, nPressed := none, log := focusMessages s.log }

/-- The layouts, the current one and its type. -/
def State.shape (s : State) : List Layout × ℤ × LayoutType :=
  (s.tttLayouts, s.nLayout, s.nCurrentLayoutType)

theorem quiet_of_calm {α : Type} {x : Prog α} (h : Keeps State.calm x) : Keeps State.quiet x :=
  h.comp fun s => { s with nPressed := none }

theorem shape_of_quiet {α : Type} {x : Prog α} (h : Keeps State.quiet x) : Keeps State.shape x :=
  h.comp State.shape

theorem buttonDef?_of_shape (h : s'.shape = s.shape) (b : ℤ) : s'.buttonDef? b = s.buttonDef? b := by
  simp only [State.shape, Prod.mk.injEq] at h
  unfold State.buttonDef?
  rw [h.1, h.2.1]

@[simp] theorem focusMessages_append (log more : List Effect) :
    focusMessages (log ++ more) = focusMessages log ++ focusMessages more := by
  simp [focusMessages]

theorem emit_calm {e : Effect} (h : e.isFocus = false) : Keeps State.calm (emit e) := by
  intro s
  have hlog : focusMessages (s.log ++ [e]) = focusMessages s.log := by
    simp [focusMessages, h]
  show { s with bPressed := false, log := focusMessages (s.log ++ [e]) } = s.calm
  rw [hlog]
  rfl

theorem pressedCharacter_calm : Keeps State.calm pressedCharacter := by
  unfold pressedCharacter
  apply keeps_get_bind
  intro s
  cases s.nPressed with
  | none => exact keeps_pure 0
  | some b => exact keeps_bind (keeps_orRaise _ _) fun d => keeps_pure _

theorem press_calm (duration : Param) : Keeps State.calm (press p duration) := by
  unfold press
  cases duration with
  | nil => exact keeps_pure _
  | number n => exact keeps_pure _
  | userdata link => exact keeps_pure _
  | duration d =>
    cases d with
    | PRESS =>
      refine keeps_bind (keeps_modify ?_) ?_
      · intro s
        rfl
      intro _
      apply keeps_bind pressedCharacter_calm
      intro nCharacter
      exact keeps_bind (emit_calm rfl) fun _ => keeps_bind (emit_calm rfl) fun _ => emit_calm rfl
    | LONGPRESS => exact emit_calm rfl
    | REPEAT => exact emit_calm rfl
    | SHORTRELEASE => exact emit_calm rfl
    | RELEASE =>
      refine keeps_bind (keeps_modify ?_) ?_
      · intro s
        rfl
      intro _
      exact keeps_bind (emit_calm rfl) fun _ => emit_calm rfl

theorem onTouch_calm (duration : Param) (x y : ℚ) : Keeps State.calm (onTouch p duration x y) := by
  unfold onTouch
  exact keeps_bind (keeps_when (emit_calm rfl)) fun _ => press_calm duration

theorem drawBitmap_calm (nState : ℤ) (x y : ℚ) (tButton : Button) :
    Keeps State.calm (drawBitmap p nState x y tButton) := by
  unfold drawBitmap
  cases cidBitmap p nState tButton with
  | none => exact keeps_pure ()
  | some cid => exact emit_calm rfl

theorem drawText_calm (nState : ℤ) (x y : ℚ) (tButton : Button) (sText : String) :
    Keeps State.calm (drawText p nState x y tButton sText) := by
  unfold drawText
  exact keeps_when (emit_calm rfl)

theorem drawButton_calm (x y : ℚ) (button : ℤ × Button) :
    Keeps State.calm (drawButton p x y button) := by
  unfold drawButton
  apply keeps_get_bind
  intro s
  apply keeps_bind (keeps_orRaise _ _)
  intro d
  exact keeps_bind (drawBitmap_calm _ _ _ _) fun _ =>
    keeps_bind (drawText_calm _ _ _ _ _) fun _ => keeps_pure none

theorem preDraw_calm (x y : ℚ) : Keeps State.calm (preDraw p x y) := by
  unfold preDraw
  apply keeps_get_bind
  intro s
  exact keeps_bind (keeps_loop (drawButton_calm x y) _) fun _ => keeps_pure ()

theorem invalidateButton_calm (b : ℤ) : Keeps State.calm (invalidateButton p b) := by
  unfold invalidateButton
  apply keeps_get_bind
  intro s
  exact keeps_bind (keeps_orRaise _ _) fun _ => emit_calm rfl

theorem onViewChange_calm : Keeps State.calm onViewChange := by
  unfold onViewChange
  apply keeps_get_bind
  intro s
  apply keeps_when
  refine keeps_bind (keeps_modify ?_) fun _ => emit_calm rfl
  intro s
  rfl

/-- A touch also writes the pressed button. -/
theorem touchButton_quiet (wx wy cx cy : ℚ) (button : ℤ × Button) :
    Keeps State.quiet (touchButton wx wy cx cy button) := by
  unfold touchButton
  apply keeps_get_bind
  intro s
  apply keeps_bind (keeps_orRaise _ _)
  intro d
  apply keeps_ite
  · refine keeps_bind (keeps_modify ?_) fun _ => keeps_pure _
    intro s
    rfl
  · exact keeps_pure none

theorem isInTouchArea_quiet (wx wy cx cy : ℚ) : Keeps State.quiet (isInTouchArea p wx wy cx cy) := by
  unfold isInTouchArea
  apply keeps_get_bind
  intro s
  exact keeps_bind (keeps_loop (touchButton_quiet wx wy cx cy) _) fun _ => keeps_pure _

/-! ## Focus -/

@[simp] theorem wp_emit {e : Effect} {Q : Unit → State → Prop} {E : Error → State → Prop} :
    wp (emit e) Q E s ↔ Q () { s with log := s.log ++ [e] } := Iff.rfl

@[simp] theorem wp_sendFocus {code : ℕ} {Q : Unit → State → Prop} {E : Error → State → Prop} :
    wp (sendFocus code) Q E s ↔ Q () { s with log := s.log ++ [.sendFocus s.pButtonContainer code] } :=
  Iff.rfl

theorem focusLost_eq (s : State) : focusLost s = { s with
    bGotFocus := false
    registered := if s.bGotFocus then hkMain.foldl Finset.erase s.registered else s.registered } := by
  unfold focusLost
  by_cases h : s.bGotFocus
  · simp [h]
  · simp only [Bool.not_eq_true] at h
    rw [if_neg (by simp [h]), if_neg (by simp [h]), ← h]

theorem focusGained_eq (s : State) (h : s.bGotFocus = false) : focusGained s = { s with
    bGotFocus := true
    registered := (focusGained s).registered } := by
  unfold focusGained
  simp [h]

/-- The focus goes back to the button container, which gets one message. -/
def State.handOver (s : State) (code : ℕ) : State :=
  { focusLost s with nCursor := none, log := s.log ++ [.sendFocus s.pButtonContainer code] }

/-- The seven events, registered or not, after the focus was gained. -/
theorem mem_focusGained (h : s.bGotFocus = false) (e : EventId) :
    e ∈ (focusGained s).registered ↔ e ∈ hkMain ∨ e ∈ s.registered := by
  unfold focusGained
  rw [if_neg (by simp [h])]
  simp only [hkMain, List.foldl_cons, List.foldl_nil, Finset.mem_insert, List.mem_cons, List.not_mem_nil,
    or_false]
  tauto

theorem mem_focusLost (h : s.bGotFocus = true) (e : EventId) :
    e ∈ (focusLost s).registered ↔ e ∉ hkMain ∧ e ∈ s.registered := by
  unfold focusLost
  rw [if_pos h]
  simp only [hkMain, List.foldl_cons, List.foldl_nil, Finset.mem_erase, List.mem_cons, List.not_mem_nil,
    or_false]
  tauto

/-! ## The cursor -/

/-- A place that `repositionCursor` may choose. -/
def Placed (p : Platform) (s : State) (n : ℤ) : Prop :=
  0 < n ∧ n ≤ tNumButtons p s.nCurrentLayoutType ∧
    ∃ d, s.buttonDef? n = some d ∧ (d.bEnabled = true ∨ s.bEnabled = false)

/-- A button of the table that the current layout does not have. -/
def Missing (p : Platform) (s : State) : Prop :=
  ∃ n : ℤ, 0 < n ∧ n ≤ tNumButtons p s.nCurrentLayoutType ∧ s.buttonDef? n = none

theorem tryIndex_wp (n : ℤ) (orDisabled : Bool) :
    wp (tryIndex p n orDisabled)
      (fun found s' => found = false ∧ s' = s ∨ found = true ∧ Placed p s n ∧ s' = { s with nCursor := some n })
      (fun e s' => e = .buttonDef ∧ Missing p s ∧ s' = s) s := by
  unfold tryIndex
  simp only [wp_bind, Lua.wp_get, wp_ite, Lua.wp_orRaise, Lua.wp_modify, Lua.wp_pure]
  constructor
  · rintro ⟨h₀, hn⟩
    constructor
    · intro d hd
      constructor
      · intro hon
        refine .inr ⟨trivial, ⟨h₀, hn, d, hd, ?_⟩, trivial⟩
        simp only [Bool.or_eq_true, Bool.and_eq_true, Bool.not_eq_true'] at hon
        exact hon.imp_right And.right
      · exact fun _ => .inl ⟨trivial, trivial⟩
    · exact fun hnone => ⟨trivial, ⟨n, h₀, hn, hnone⟩, trivial⟩
  · exact fun _ => .inl ⟨trivial, trivial⟩

/-- The cursor is put on a button, or nowhere; a missing button raises. -/
theorem repositionCursor_wp (nDefaultPos : Option ℤ) :
    wp (repositionCursor p nDefaultPos)
      (fun found s' => found = false ∧ s' = { s with nCursor := none } ∨
        found = true ∧ ∃ n, Placed p s n ∧ s' = { s with nCursor := some n })
      (fun e s' => e = .buttonDef ∧ Missing p s ∧ s' = { s with nCursor := none }) s := by
  unfold repositionCursor
  simp only [wp_bind, Lua.wp_get, Lua.wp_modify, Lua.wp_pure]
  apply Lua.wp_loop_inv (fun s' => s' = { s with nCursor := none })
  · trivial
  · exact fun s' hs' => .inl ⟨rfl, hs'⟩
  · rintro i - s' rfl
    unfold probe
    rw [wp_bind]
    apply wp_mono (tryIndex_wp _ _) _ (fun _ _ h => h)
    rintro found s' (⟨rfl, rfl⟩ | ⟨rfl, hplaced, rfl⟩)
    · simp only [Bool.false_eq_true, if_false, wp_bind]
      apply wp_mono (tryIndex_wp _ _) _ (fun _ _ h => h)
      rintro found s' (⟨rfl, rfl⟩ | ⟨rfl, hplaced, rfl⟩)
      · exact ⟨fun _ => rfl, fun b hb => by simp at hb⟩
      · exact ⟨fun h => by simp at h, fun b _ => .inr ⟨rfl, _, hplaced, rfl⟩⟩
    · exact ⟨fun h => by simp at h, fun b _ => .inr ⟨rfl, _, hplaced, rfl⟩⟩

/-- Where the loop of `moveCursor` finds a button, the button is enabled. -/
theorem walk_found {ttLayout : List ButtonDef} {nMove : ℤ} : ∀ {fuel : ℕ} {n : ℤ},
    (walk ttLayout nMove fuel n).2 = true →
      ∃ d, index ttLayout (walk ttLayout nMove fuel n).1 = some d ∧ d.bEnabled = true
  | 0, n, h => by simp [walk] at h
  | fuel + 1, n, h => by
    unfold walk at h ⊢
    cases hd : index ttLayout n with
    | none => simp [hd] at h
    | some d =>
      simp only [hd] at h ⊢
      by_cases hon : d.bEnabled
      · simp only [hon, if_true]
        exact ⟨d, hd, hon⟩
      · simp only [hon] at h ⊢
        exact walk_found h

/-- Otherwise it ends outside the layout: the bound on the number of rounds is never reached. -/
theorem walk_ends {ttLayout : List ButtonDef} {nMove : ℤ} : ∀ {fuel : ℕ} {n : ℤ},
    nMove = 1 ∧ (ttLayout.length : ℤ) + 1 - n ≤ fuel ∨ nMove = -1 ∧ n ≤ fuel →
    (walk ttLayout nMove fuel n).2 = false → index ttLayout (walk ttLayout nMove fuel n).1 = none
  | 0, n, hfuel, _ => by
    unfold walk
    rw [Lua.index_eq_none]
    omega
  | fuel + 1, n, hfuel, h => by
    unfold walk at h ⊢
    cases hd : index ttLayout n with
    | none => simp [hd]
    | some d =>
      simp only [hd] at h ⊢
      by_cases hon : d.bEnabled
      · simp [hon] at h
      · simp only [hon] at h ⊢
        exact walk_ends (by omega) h

theorem wp_invalidateButton {b : ℤ} {Q : Unit → State → Prop} {E : Error → State → Prop} :
    wp (invalidateButton p b) Q E s ↔
      (∀ tButton, index (tttButtons p s.nCurrentLayoutType) b = some tButton →
        Q () { s with log := s.log ++ [invalidateRect p tButton] }) ∧
      (index (tttButtons p s.nCurrentLayoutType) b = none → E .button s) := by
  unfold invalidateButton
  simp only [wp_bind, Lua.wp_get, Lua.wp_orRaise, wp_emit]

@[simp] theorem focusMessages_nil : focusMessages [] = [] := rfl

@[simp] theorem focusMessages_cons {e : Effect} (h : e.isFocus = false) (log : List Effect) :
    focusMessages (e :: log) = focusMessages log := by
  simp [focusMessages, h]

theorem isFocus_invalidateRect (tButton : Button) : (invalidateRect p tButton).isFocus = false := by
  simp [invalidateRect, Effect.isFocus]

/-- What `moveCursor` does to a cursor of a layout with as many buttons as the table: it stays, it
goes to an enabled button, or the focus is handed over. -/
theorem moveCursor_wp {l : Layout} {c : ℤ} (hl : index s.tttLayouts s.nLayout = some l)
    (hsize : l.buttons.length = tNumButtons p s.nCurrentLayoutType) (hc : s.nCursor = some c)
    (hin : 0 < c ∧ c ≤ l.buttons.length) (nMove : ℤ) :
    wp (moveCursor p nMove)
      (fun _ s' => s' = s ∨
        (∃ n d, index l.buttons n = some d ∧ d.bEnabled = true ∧
          s'.quiet = { s with nCursor := some n }.quiet) ∨
        s'.quiet = (s.handOver 1).quiet)
      (fun _ _ => False) s := by
  have htable : ∀ {n : ℤ}, 0 < n → n ≤ l.buttons.length →
      index (tttButtons p s.nCurrentLayoutType) n ≠ none := by
    intro n h₀ hn hnone
    rw [Lua.index_eq_none] at hnone
    unfold tNumButtons at hsize
    omega
  unfold moveCursor
  simp only [wp_bind, Lua.wp_get, hl, hc, Lua.orRaise_some, Lua.wp_pure]
  generalize hw : walk l.buttons nMove (l.buttons.length + 1) (c + nMove) = walked
  unfold moveTo
  by_cases hfound : walked.2
  · rw [if_pos hfound]
    obtain ⟨d, hd, hon⟩ := walk_found (hw ▸ hfound)
    rw [hw] at hd
    obtain ⟨h₀, hn⟩ := Lua.bounds_of_index hd
    simp only [wp_bind, wp_when, wp_invalidateButton, Lua.wp_modify, Lua.wp_pure]
    refine ⟨fun _ => ⟨fun old hold => ⟨fun new hnew => ?_, htable h₀ hn⟩, htable hin.1 hin.2⟩,
      fun h => absurd hin.2 h⟩
    refine .inr (.inl ⟨walked.1, d, hd, hon, ?_⟩)
    simp [State.quiet, isFocus_invalidateRect]
  · rw [if_neg hfound]
    by_cases hleft : walked.1 ≤ 0
    · rw [if_pos hleft]
      simp only [wp_bind, wp_when, wp_invalidateButton, Lua.wp_modify, Lua.wp_pure, wp_sendFocus]
      have htype : (focusLost s).nCurrentLayoutType = s.nCurrentLayoutType := by rw [focusLost_eq]
      rw [htype]
      refine ⟨fun _ => ⟨fun old hold => ?_, htable hin.1 hin.2⟩, fun h => absurd hin.2 h⟩
      refine .inr (.inr ?_)
      simp [State.handOver, State.quiet, focusLost_eq, isFocus_invalidateRect]
    · rw [if_neg hleft]
      exact .inl rfl

/-! ## Layouts -/

/-- `self.nLayout` is the index of a layout. -/
def InRange (s : State) : Prop := 1 ≤ s.nLayout ∧ s.nLayout ≤ s.tttLayouts.length

theorem InRange.exists_layout (h : InRange s) : ∃ l, index s.tttLayouts s.nLayout = some l :=
  Lua.exists_index h.1 h.2

/-- The type after layout `m` was made the current one: an unknown size keeps the type. -/
def typeAt (p : Platform) (layouts : List Layout) (t : LayoutType) (m : ℤ) : LayoutType :=
  ((index layouts m).bind fun l => matchLayoutType p l.buttons.length).getD t

/-- The state after a switch to layout `m`. -/
def State.switched (p : Platform) (s : State) (m : ℤ) : State :=
  let s' := { s with
    nLayout := m
    nCurrentLayoutType := typeAt p s.tttLayouts s.nCurrentLayoutType m
    bPressed := false }
  if s.bGotFocus then s'.handOver 3 else s'

theorem setLayoutType_wp {l : Layout} (hl : index s.tttLayouts s.nLayout = some l) :
    wp (setLayoutType p) (fun _ s' => s' = { s with
      nCurrentLayoutType := typeAt p s.tttLayouts s.nCurrentLayoutType s.nLayout }) (fun _ _ => False) s := by
  unfold setLayoutType typeAt
  simp only [wp_bind, Lua.wp_get, Lua.orRaise_some, Lua.wp_pure, Lua.wp_modify, hl, Option.bind_some]

/-- **`switchLayout`** raises nothing. -/
theorem switchLayout_wp (h : InRange s) :
    wp (switchLayout p)
      (fun _ s' => ∃ m, nextLayout p s.tttLayouts s.nLayout = some m ∧ s' = s.switched p m)
      (fun _ _ => False) s := by
  obtain ⟨m, hm, hnext⟩ := nextLayout_spec p h.1 h.2
  obtain ⟨l, hl⟩ := Lua.exists_index (hnext.bounds h.1 h.2).1 (hnext.bounds h.1 h.2).2
  unfold switchLayout
  simp only [wp_bind, Lua.wp_get, Lua.orRaise_some, Lua.wp_pure, Lua.wp_modify, hm]
  apply wp_mono (setLayoutType_wp hl) _ (fun _ _ h => h)
  rintro _ s' rfl
  simp only [wp_when, wp_bind, Lua.wp_modify, wp_sendFocus]
  constructor
  · intro hfocus
    refine ⟨m, rfl, ?_⟩
    unfold State.switched
    rw [if_pos hfocus]
    simp only [State.handOver, focusLost_eq]
  · intro hfocus
    refine ⟨m, rfl, ?_⟩
    unfold State.switched
    rw [if_neg hfocus]

/-- The refresh hides the current layout, so that another one is switched to. -/
def Hides (p : Platform) (s : State) : Prop :=
  (s.update p).bEnabled = true ∧ visibleAt (s.refreshed p).1 s.nLayout = some false

instance (p : Platform) (s : State) : Decidable (Hides p s) := by
  unfold Hides
  infer_instance

/-- The state after the refresh and the update of the toggle button, with the effects `log`. -/
def State.afterRefresh (p : Platform) (s : State) (log : List Effect) : State := { s with
  bEnabled := (s.update p).bEnabled
  tttLayouts := (s.refreshed p).1
  toggleEnabled := if p.pToggleButton.isSome then decide (1 < (s.refreshed p).2) else s.toggleEnabled
  log := log }

theorem setToggleButton_wp (n : ℕ) :
    wp (setToggleButton p n)
      (fun _ s' => ∃ log, focusMessages log = focusMessages s.log ∧ s' = { s with
        toggleEnabled := if p.pToggleButton.isSome then decide (1 < n) else s.toggleEnabled
        log := log })
      (fun _ _ => False) s := by
  have hlog : focusMessages (s.log ++ [.invalidateToggleButton]) = focusMessages s.log := by
    simp [focusMessages, Effect.isFocus]
  unfold setToggleButton
  simp only [wp_bind, Lua.wp_get, wp_when, wp_ite, Lua.wp_modify, wp_emit]
  refine ⟨fun hbutton => ⟨?_, fun hmany => ⟨?_, ?_⟩⟩, fun hbutton => ?_⟩
  · rintro ⟨hn, -⟩
    exact ⟨_, hlog, by simp [hbutton, hn]⟩
  · rintro ⟨hn, -⟩
    exact ⟨_, hlog, by simp [hbutton, hn]⟩
  · intro hfew
    have hkeep : decide (1 < n) = s.toggleEnabled := by
      by_cases hn : 1 < n <;> cases ht : s.toggleEnabled <;> simp_all
    exact ⟨s.log, rfl, by simp [hbutton, hkeep]⟩
  · exact ⟨s.log, rfl, by simp [hbutton]⟩

@[simp] theorem length_refreshed (p : Platform) (s : State) :
    (s.refreshed p).1.length = s.tttLayouts.length := by
  have h := congrArg List.length (fills_refresh p (s.update p) s.tttLayouts)
  simp only [fills, List.length_map] at h
  exact h

theorem inRange_afterRefresh (h : InRange s) (log : List Effect) : InRange (s.afterRefresh p log) := by
  refine ⟨h.1, ?_⟩
  show s.nLayout ≤ ((s.refreshed p).1.length : ℤ)
  rw [length_refreshed]
  exact h.2

/-- The part of `updateEnabled` after the refresh, on the two ways through it. -/
theorem updateEnabled_wp {Q : Unit → State → Prop} {E : Error → State → Prop} (h : InRange s)
    (hswitch : ∀ log m, focusMessages log = focusMessages s.log → Hides p s →
      nextLayout p (s.refreshed p).1 s.nLayout = some m →
      wp (keepFocus p) Q E ((s.afterRefresh p log).switched p m))
    (hstay : ∀ log, focusMessages log = focusMessages s.log → ¬ Hides p s →
      wp (keepFocus p) Q E (s.afterRefresh p log)) :
    wp (updateEnabled p) Q E s := by
  unfold updateEnabled
  simp only [wp_bind, Lua.wp_get, Lua.wp_modify]
  apply wp_mono (setToggleButton_wp _) _ (fun _ _ h => h.elim)
  rintro _ s' ⟨log, hlog, rfl⟩
  have hin := inRange_afterRefresh (p := p) h log
  obtain ⟨l, hl⟩ := hin.exists_layout
  have hl' : index (s.refreshed p).1 s.nLayout = some l := hl
  have hhides : Hides p s ↔ l.bVisible = false ∧ (s.update p).bEnabled = true := by
    unfold Hides visibleAt
    rw [hl', Option.map_some, Option.some.injEq, and_comm]
  simp only [hl', Lua.orRaise_some, Lua.wp_pure, wp_when]
  rw [← hhides]
  constructor
  · intro hh
    apply wp_mono (switchLayout_wp hin) _ (fun _ _ h => h.elim)
    rintro _ s' ⟨m, hm, rfl⟩
    exact hswitch log m hlog hh hm
  · exact hstay log hlog

theorem keepFocus_unfocused (h : s.bGotFocus = false) {Q : Unit → State → Prop} {E : Error → State → Prop} :
    wp (keepFocus p) Q E s ↔ Q () s := by
  unfold keepFocus
  simp [wp_when, h]

/-- With the focus, the cursor is put on a button or the focus is handed over. -/
theorem keepFocus_focused (h : s.bGotFocus = true) :
    wp (keepFocus p)
      (fun _ s' => (∃ n, Placed p s n ∧ s' = { s with nCursor := some n }) ∨ s' = s.handOver 1)
      (fun e s' => e = .buttonDef ∧ Missing p s ∧ s' = { s with nCursor := none }) s := by
  unfold keepFocus
  simp only [wp_bind, Lua.wp_get, wp_when]
  refine ⟨fun _ => ?_, fun hno => absurd h hno⟩
  apply wp_mono (repositionCursor_wp _) _ (fun _ _ h => h)
  rintro found s' (⟨rfl, rfl⟩ | ⟨rfl, n, hplaced, rfl⟩)
  · simp only [Lua.wp_modify, wp_sendFocus, not_true_eq_false, false_implies, and_true, true_implies]
    refine .inr ?_
    simp only [State.handOver, focusLost_eq]
  · simp only [Bool.true_eq_false, false_implies, not_false_eq_true, true_implies, true_and]
    exact .inl ⟨n, hplaced, rfl⟩

@[simp] theorem handOver_bGotFocus (s : State) (code : ℕ) : (s.handOver code).bGotFocus = false := by
  simp [State.handOver, focusLost_eq]

@[simp] theorem handOver_shape (s : State) (code : ℕ) : (s.handOver code).shape = s.shape := by
  simp [State.handOver, focusLost_eq, State.shape]

/-- After a switch the speller does not have the focus. -/
@[simp] theorem switched_bGotFocus (s : State) (m : ℤ) : (s.switched p m).bGotFocus = false := by
  unfold State.switched
  by_cases h : s.bGotFocus
  · rw [if_pos h]
    simp
  · rw [if_neg h]
    simpa using h

@[simp] theorem switched_shape (s : State) (m : ℤ) : (s.switched p m).shape =
    (s.tttLayouts, m, typeAt p s.tttLayouts s.nCurrentLayoutType m) := by
  unfold State.switched
  by_cases h : s.bGotFocus
  · rw [if_pos h, handOver_shape]
    rfl
  · rw [if_neg h]
    rfl

end Speller
