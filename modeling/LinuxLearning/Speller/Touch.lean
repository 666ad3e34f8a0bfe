import LinuxLearning.Speller.Table
import LinuxLearning.Speller.Typing
/-!
# From the touch to the press

The host asks `isInTouchArea` which button a click hits and later calls `onTouch`. The two share only
`nPressed`: the probe sets it to an enabled button (`:1171`), `press` looks up the button of that number in
the layout that is the current one by then (`:1216-1217`). In between the layout can be switched or refreshed,
and the hardware key stores the number of its own button (`:958-960`).

* `Stands` — the button under `nPressed` exists in the current layout, and if it has a letter, this is the letter of
  the probe and the touched button is enabled;
* `touchTyped_iff` — the press, from any state;
* `KeepsTouched` — an event between the two that leaves the touched button where it is: the layout is not switched, the
  hardware key presses no other button, and a refresh is asked for letters under which the reference table
  (`Table.lean`) has the button enabled and with its letter;
* `touch_law` — after events that spare the touched button the press types it.
-/

namespace Speller

open Lua (index wp wp_bind wp_mono wp_ite)

variable {p : Platform} {props : Props} {es ms : List Event} {s t : State} {wx wy cx cy x y : ℚ}

/-- The calls for a click. -/
def Event.isTouch : Event → Bool
  | .isInTouchArea .. => true
  | .onTouch .. => true
  | _ => false

/-- `onTouch(DURATION_PRESS)`, button `b` with the data `d` having been touched: the lookup of the pressed
button does not raise, and a character that is published, if not 0, is the one of `d`, with `b` enabled. -/
structure TouchTyped (p : Platform) (b : ℤ) (d : ButtonDef) (x y : ℚ) (s : State) : Prop where
  found : (Lua.run (handle p (.onTouch (.duration .PRESS) x y)) s).1 ≠ .error .pressedButton
  typed : ∀ value ∈ published s (Lua.run (handle p (.onTouch (.duration .PRESS) x y)) s).2,
    value ≠ p.CID_OFFSET_CHARACTER →
      value = (d.nCharacter &&& p.CID_DATA_MASK) + p.CID_OFFSET_CHARACTER ∧
        ∃ d', (Lua.run (handle p (.onTouch (.duration .PRESS) x y)) s).2.buttonDef? b = some d' ∧
          d'.bEnabled = true

/-- Button `c`, if there is one, exists in the current layout; it has no letter, or the letter of `d` while
button `b` is enabled. -/
def Stands (p : Platform) (c : Option ℤ) (b : ℤ) (d : ButtonDef) (s : State) : Prop :=
  match c with
  | none => True
  | some i => match s.buttonDef? i with
    | none => False
    | some d' => d'.nCharacter &&& p.CID_DATA_MASK = 0 ∨
        d'.nCharacter &&& p.CID_DATA_MASK = d.nCharacter &&& p.CID_DATA_MASK ∧
          (s.buttonDef? b).any ButtonDef.bEnabled = true

instance (c : Option ℤ) (b : ℤ) (d : ButtonDef) (s : State) : Decidable (Stands p c b d s) := by
  unfold Stands
  split
  · infer_instance
  · split <;> infer_instance

/-- The event switches to another layout. -/
def SwitchesAway (p : Platform) (e : Event) (s : State) : Prop :=
  match switchesIn p e s with
  | none => False
  | some table => nextLayout p table s.nLayout ≠ some s.nLayout

instance (e : Event) (s : State) : Decidable (SwitchesAway p e s) := by
  unfold SwitchesAway
  split <;> infer_instance

/-- In the reference table of a refresh that goes by `u`, button `b` of layout `nLayout` is enabled and publishes what
`d` does. -/
def Leaves (p : Platform) (u : Update) (nLayout b : ℤ) (d : ButtonDef) : Prop :=
  ∃ d' ∈ (index (reference p u (buildLayoutTable p)) nLayout).bind fun bs => index bs b,
    d'.bEnabled = true ∧ d'.nCharacter &&& p.CID_DATA_MASK = d.nCharacter &&& p.CID_DATA_MASK

instance (u : Update) (nLayout b : ℤ) (d : ButtonDef) : Decidable (Leaves p u nLayout b d) :=
  inferInstanceAs (Decidable (∃ d' ∈ _, _))

/-- The event leaves the touched button `b`, with the data `d`, where it is: the hardware key presses this button or
none, the layout is not switched to another one, and a refresh is asked for letters that leave the button. -/
def KeepsTouched (p : Platform) (b : ℤ) (d : ButtonDef) (e : Event) (s : State) : Prop :=
  (e.isMainPress = true → s.nCursor = some b ∨ s.nCursor = none) ∧ ¬ SwitchesAway p e s ∧
    ∀ t ∈ refreshesFrom e s, Leaves p (asked p t.props t.bSpaceBtnEnabled) s.nLayout b d

instance (b : ℤ) (d : ButtonDef) (e : Event) (s : State) : Decidable (KeepsTouched p b d e s) := by
  unfold KeepsTouched
  infer_instance

/-! ## The probe -/

/-- A probe that hits stores the number of an enabled button. -/
theorem isInTouchArea_wp : wp (isInTouchArea p wx wy cx cy)
    (fun hit s' => hit = 1 → ∃ b d, s'.nPressed = some b ∧ s.buttonDef? b = some d ∧ d.bEnabled = true)
    (fun _ _ => True) s := by
  unfold isInTouchArea
  simp only [wp_bind, Lua.wp_get, Lua.wp_pure]
  apply Lua.wp_loop_inv (fun s' => s'.shape = s.shape)
  · rfl
  · intro s' _ hhit
    simp at hhit
  · rintro ⟨b, tButton⟩ - s' hs'
    unfold touchButton
    simp only [wp_bind, Lua.wp_get, Lua.wp_orRaise, wp_ite, Lua.wp_modify, Lua.wp_pure]
    refine ⟨fun d hd => ⟨fun hon => ⟨fun h => by simp at h, ?_⟩, fun _ => ⟨fun _ => hs', fun _ h => by simp at h⟩⟩,
      fun _ => trivial⟩
    rintro _ - -
    rw [buttonDef?_of_shape hs'] at hd
    exact ⟨b, d, rfl, hd, hon.1⟩

/-! ## Between the probe and the press -/

/-- Only the hardware key writes the pressed button, besides the probe. -/
theorem step_nPressed (h : InRange s) {e : Event} (he : e.isTouch = false) (hs : step p e s = some t) :
    t.nPressed = if e.isMainPress then s.nCursor else s.nPressed := by
  rw [(step_moved h hs).nPressed]
  cases e with
  | onMessage m =>
    obtain ⟨eventid, param1, param2, direction⟩ := m
    cases eventid <;> rfl
  | isInTouchArea wx wy cx cy => simp [Event.isTouch] at he
  | _ => rfl

/-- What is kept from the probe to the press. -/
structure Held (p : Platform) (b : ℤ) (d : ButtonDef) (s : State) : Prop where
  inRange : InRange s
  built : Built p s
  pressed : s.nPressed = some b ∨ s.nPressed = none
  shows : ∃ d', s.buttonDef? b = some d' ∧ d'.bEnabled = true ∧
    d'.nCharacter &&& p.CID_DATA_MASK = d.nCharacter &&& p.CID_DATA_MASK

theorem buttonDef?_eq (s : State) (b : ℤ) :
    s.buttonDef? b = (index (s.tttLayouts.map Layout.buttons) s.nLayout).bind fun bs => index bs b := by
  unfold State.buttonDef?
  rw [Lua.index_map, Option.bind_map]
  rfl

/-- An event that does not switch away leaves the current layout. -/
theorem step_nLayout (h : InRange s) {e : Event} (haway : ¬ SwitchesAway p e s) (hs : step p e s = some t) :
    t.nLayout = s.nLayout := by
  have hmoved := step_moved h hs
  unfold SwitchesAway at haway
  cases hin : switchesIn p e s with
  | none =>
    rw [(hmoved.stays hin).1, written_nLayout]
  | some table =>
    rw [hin] at haway
    obtain ⟨-, m, hm, hlayout, -⟩ := hmoved.switches table hin
    rw [written_nLayout, not_not.1 haway, Option.some.injEq] at hm
    rw [hlayout, hm]

/-- The table that a refresh is asked for. -/
theorem Built.asked_refreshed (h : Built p s) {e : Event} (hfrom : refreshesFrom e s = some t) :
    (t.refreshed p).1.map Layout.buttons =
      reference p (asked p t.props t.bSpaceBtnEnabled) (buildLayoutTable p) := by
  have hsame : t.tttLayouts = s.tttLayouts ∧ t.bUseFill = s.bUseFill := by
    rcases refreshesFrom_cases hfrom with ⟨nUserId, rfl, rfl⟩ | ⟨m, rfl, -, rfl⟩
    · exact ⟨rfl, rfl⟩
    · exact ⟨rfl, rfl⟩
  have hbuilt : Built p t := ⟨hsame.1 ▸ h.table, hsame.1 ▸ h.blank, hsame.2 ▸ h.bUseFill⟩
  have hasked : t.update p = asked p t.props t.bSpaceBtnEnabled := by
    unfold State.update asked
    rw [← hbuilt.bUseFill]
  rw [hbuilt.refreshed, hasked]

/-- **One event** that spares the button. -/
theorem Held.step {b : ℤ} {d : ButtonDef} (h : Held p b d s) {e : Event} (he : e.isTouch = false)
    (hkeeps : KeepsTouched p b d e s) (hs : Speller.step p e s = some t) : Held p b d t := by
  obtain ⟨hpress, haway, hrefresh⟩ := hkeeps
  have hmoved := step_moved h.inRange hs
  refine ⟨step_inRange h.inRange hs, built_step h.inRange h.built hs, ?_, ?_⟩
  · rw [step_nPressed h.inRange he hs]
    by_cases hmain : e.isMainPress = true
    · rw [if_pos hmain]
      exact hpress hmain
    · rw [if_neg hmain]
      exact h.pressed
  · rw [buttonDef?_eq, step_nLayout h.inRange haway hs, hmoved.tttLayouts]
    cases hfrom : refreshesFrom e s with
    | none =>
      rw [(written_rest (p := p) hfrom).1, ← buttonDef?_eq]
      exact h.shows
    | some u =>
      rw [(written_refresh (p := p) hfrom).1, h.built.asked_refreshed hfrom]
      exact hrefresh u hfrom

/-! ## The press -/

/-- **The press**, in terms of the state before it. -/
theorem touchTyped_iff {b : ℤ} {d : ButtonDef} : TouchTyped p b d x y s ↔ Stands p s.nPressed b d s := by
  have hclick : ∀ c, ({ s with log := s.log ++ [.createClickSound] } : State).buttonDef? c = s.buttonDef? c :=
    fun _ => rfl
  have hhandle : ∀ (Q : Unit → State → Prop) (E : Error → State → Prop),
      wp (handle p (.onTouch (.duration .PRESS) x y)) Q E s ↔
        wp (press p (.duration .PRESS)) Q E { s with log := s.log ++ [.createClickSound] } := by
    intro Q E
    unfold handle onTouch
    simp only [wp_bind, Lua.wp_when, wp_emit, true_implies, not_true_eq_false, false_implies, and_true]
  by_cases hmissing : ∃ c, s.nPressed = some c ∧ s.buttonDef? c = none
  · obtain ⟨c, hc, hnone⟩ := hmissing
    have hraise := Lua.raises_of_wp ((hhandle _ _).2 (press_missing (p := p)
      (s := { s with log := s.log ++ [.createClickSound] }) hc hnone))
    have hstands : ¬ Stands p s.nPressed b d s := by
      unfold Stands
      simp [hc, hnone]
    exact ⟨fun h => absurd hraise h.found, fun h => absurd h hstands⟩
  · have hpressed : ∀ c, s.nPressed = some c → ∃ d, s.buttonDef? c = some d := by
      intro c hc
      by_contra hnot
      exact hmissing ⟨c, hc, Option.eq_none_iff_forall_ne_some.2 fun d hd => hnot ⟨d, hd⟩⟩
    obtain ⟨_, s', hrun, hnPressed, hshape, hlog⟩ := Lua.returns_of_wp ((hhandle _ _).2 (press_wp (p := p)
      (s := { s with log := s.log ++ [.createClickSound] }) hpressed))
    have hpub : published s s' = [(((s.nPressed.bind s.buttonDef?).map ButtonDef.nCharacter).getD 0 &&&
        p.CID_DATA_MASK) + p.CID_OFFSET_CHARACTER] := by
      rw [published_append (s := s) (hlog.trans (List.append_assoc _ _ _))]
      rfl
    have hdef : s'.buttonDef? b = s.buttonDef? b := buttonDef?_of_shape hshape b
    have htyped : TouchTyped p b d x y s ↔ ∀ value ∈ published s s', value ≠ p.CID_OFFSET_CHARACTER →
        value = (d.nCharacter &&& p.CID_DATA_MASK) + p.CID_OFFSET_CHARACTER ∧
          ∃ d', s'.buttonDef? b = some d' ∧ d'.bEnabled = true := by
      constructor
      · intro h
        have ht := h.typed
        rw [hrun] at ht
        exact ht
      · intro h
        refine ⟨by rw [hrun]; simp, ?_⟩
        rw [hrun]
        exact h
    rw [htyped, hpub, hdef]
    have hany : (s.buttonDef? b).any ButtonDef.bEnabled = true ↔
        ∃ d', s.buttonDef? b = some d' ∧ d'.bEnabled = true := by
      cases s.buttonDef? b <;> simp
    cases hc : s.nPressed with
    | none => simp [Stands]
    | some i =>
      obtain ⟨d', hd'⟩ := hpressed i hc
      unfold Stands
      simp only [hd', Option.bind_some, Option.map_some, Option.getD_some, List.mem_singleton, forall_eq, hany]
      constructor
      · intro h
        by_cases hzero : d'.nCharacter &&& p.CID_DATA_MASK = 0
        · exact .inl hzero
        · obtain ⟨hvalue, hon⟩ := h (by omega)
          exact .inr ⟨by omega, hon⟩
      · rintro (hzero | ⟨heq, hon⟩) hvalue
        · rw [hzero, Nat.zero_add] at hvalue
          exact absurd rfl hvalue
        · rw [heq]
          exact ⟨rfl, hon⟩

/-! ## Runs -/

theorem Held.typed {b : ℤ} {d : ButtonDef} (h : Held p b d s) (x y : ℚ) : TouchTyped p b d x y s := by
  rw [touchTyped_iff]
  obtain ⟨d', hd', hon, hdata⟩ := h.shows
  rcases h.pressed with hb | hnone
  · unfold Stands
    simp [hb, hd', hon, hdata]
  · unfold Stands
    simp [hnone]

/-- **Touching.** A probe that hits finds an enabled button `b`, and after any events that are no touches and spare
this button, the press types it. -/
theorem touch_law (h : Run.exec (step p) es (constructor p props) = some s)
    (hprobe : (Lua.run (isInTouchArea p wx wy cx cy) s).1 = .ok 1) :
    ∃ b d, (Lua.run (isInTouchArea p wx wy cx cy) s).2.nPressed = some b ∧ s.buttonDef? b = some d ∧
      d.bEnabled = true ∧ ∀ ms t, (∀ e ∈ ms, e.isTouch = false) →
        Run.Along (step p) (KeepsTouched p b d) ms (Lua.run (isInTouchArea p wx wy cx cy) s).2 →
        Run.exec (step p) ms (Lua.run (isInTouchArea p wx wy cx cy) s).2 = some t →
        ∀ x y, TouchTyped p b d x y t := by
  obtain ⟨b, d, hb, hd, hon⟩ := Lua.returned_of_wp isInTouchArea_wp hprobe rfl
  obtain ⟨hin, hbuilt⟩ := built_run h
  have hquiet := isInTouchArea_quiet (p := p) wx wy cx cy s
  have hshape := shape_of_quiet (isInTouchArea_quiet (p := p) wx wy cx cy) s
  generalize (Lua.run (isInTouchArea p wx wy cx cy) s).2 = probed at *
  have hheld : Held p b d probed := by
    have htable : probed.tttLayouts = s.tttLayouts := (congrArg State.tttLayouts hquiet :)
    have hfill : probed.bUseFill = s.bUseFill := (congrArg State.bUseFill hquiet :)
    have hlayout : probed.nLayout = s.nLayout := (congrArg State.nLayout hquiet :)
    refine ⟨inRange_of_sizes hin (by rw [htable]) hlayout,
      ⟨htable ▸ hbuilt.table, htable ▸ hbuilt.blank, hfill ▸ hbuilt.bUseFill⟩, .inl hb, d, ?_, hon, rfl⟩
    rw [buttonDef?_of_shape hshape, hd]
  refine ⟨b, d, hb, hd, hon, fun ms t hms halong ht x y => ?_⟩
  have halong' := Run.along_and halong (Run.along_of_mem (fun e he _ => hms e he) probed)
  exact (Run.invariant (fun e s s' hC hH hs => hH.step hC.2 hC.1 hs) halong' hheld ht).typed x y

/-- A probe of key 1, a refresh and the press. -/
theorem touch_law_sample : ∃ t,
    Run.exec (step numPad) [.onDataUpdate 0]
        (Lua.run (isInTouchArea numPad 0 0 180 5) (constructor numPad allKeys)).2 = some t ∧
      TouchTyped numPad 1 ⟨false, 49, "1", true⟩ 180 5 t := by
  have hprobe : (Lua.run (isInTouchArea numPad 0 0 180 5) (constructor numPad allKeys)).1 = .ok 1 := by
    decide +kernel
  have hfound : ((Lua.run (isInTouchArea numPad 0 0 180 5) (constructor numPad allKeys)).2.nPressed,
      (constructor numPad allKeys).buttonDef? 1) = (some 1, some ⟨false, 49, "1", true⟩) := by
    decide +kernel
  have halong : Run.Along (step numPad) (KeepsTouched numPad 1 ⟨false, 49, "1", true⟩) [.onDataUpdate 0]
      (Lua.run (isInTouchArea numPad 0 0 180 5) (constructor numPad allKeys)).2 := by
    decide +kernel
  rw [Prod.mk.injEq] at hfound
  have hstart : Run.exec (step numPad) [] (constructor numPad allKeys) = some (constructor numPad allKeys) := rfl
  obtain ⟨b, d, hb, hd, -, htyped⟩ := touch_law hstart hprobe
  rw [hfound.1, Option.some.injEq] at hb
  subst hb
  rw [hfound.2, Option.some.injEq] at hd
  subst hd
  exact ⟨_, rfl, htyped [.onDataUpdate 0] _ (by simp [Event.isTouch]) halong rfl 180 5⟩

/-- A layout of 36 keys and one of 12. -/
def mixedPad : Platform := { numPad with
  getSpellerLayoutSequence := fun _ => ["abcdefghijklmnopqrstuvwxyz0123456789", "123456789*0#"] }

/-- Key 30 of the first layout is touched, the layout is switched, and the press looks up button 30 of 12. -/
theorem touched_switched : ∃ s t,
    Run.exec (step mixedPad) [] (constructor mixedPad allKeys) = some s ∧ WellSized mixedPad ∧
      (Lua.run (isInTouchArea mixedPad 0 0 40 215) s).1 = .ok 1 ∧
      (Lua.run (isInTouchArea mixedPad 0 0 40 215) s).2.nPressed = some 30 ∧
      Run.exec (step mixedPad) [send (.app 0x4001) .nil]
        (Lua.run (isInTouchArea mixedPad 0 0 40 215) s).2 = some t ∧
      (Lua.run (handle mixedPad (.onTouch (.duration .PRESS) 40 215)) t).1 = .error .pressedButton ∧
      ∀ d, ¬ TouchTyped mixedPad 30 d 40 215 t := by
  have h : (Run.exec (step mixedPad) [send (.app 0x4001) .nil]
      (Lua.run (isInTouchArea mixedPad 0 0 40 215) (constructor mixedPad allKeys)).2).map
      (fun t => ((Lua.run (isInTouchArea mixedPad 0 0 40 215) (constructor mixedPad allKeys)).2.nPressed,
        (Lua.run (handle mixedPad (.onTouch (.duration .PRESS) 40 215)) t).1)) =
      some (some 30, .error .pressedButton) := by
    decide +kernel
  obtain ⟨t, ht, he⟩ := Option.map_eq_some_iff.1 h
  simp only [Prod.mk.injEq] at he
  exact ⟨_, t, rfl, by decide +kernel, by decide +kernel, he.1, ht, he.2, fun d htyped => htyped.found he.2⟩

end Speller
