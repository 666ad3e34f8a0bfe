import LinuxLearning.Speller.Moves
import LinuxLearning.Speller.Focus
/-!
# Looking up buttons that do not exist

`preDraw`, `isInTouchArea` and `repositionCursor` go through the button table of the current layout
type and look up the same index in the current layout. The type follows the size of the layout, but an
unknown size is only traced and the old type stays (`:214-226`, `:799-811`), and without a layout
sequence there is one layout without any button (`:314-316`).

* `Safe` — no handler raises because the current layout lacks a button of the table;
* `Fits` — what a layout needs to become the current one: a known size, or as many buttons as the table
  in use;
* `lookup_law` — a run is safe if and only if every layout that becomes the current one fits.

The layouts may have any sizes here.
-/

namespace Speller

open Lua (index orRaise loop ipairs upTo wp wp_bind wp_mono wp_ite wp_when Keeps keeps_bind keeps_get_bind
  keeps_modify keeps_orRaise keeps_pure keeps_loop keeps_ite keeps_when Avoids avoids_bind avoids_get_bind
  avoids_modify avoids_orRaise avoids_pure avoids_ite avoids_when)

variable {p : Platform} {props : Props} {s s' : State}

/-- No handler raises for a button that is missing in the current layout. -/
def Safe (p : Platform) (s : State) : Prop := ∀ e, (Lua.run (handle p e) s).1 ≠ .error .buttonDef

/-- Layout `m` has every button of table `t`. -/
def Covers (layouts : List Layout) (m : ℤ) (t : LayoutType) : Prop :=
  ∀ l, index layouts m = some l → t.size ≤ l.buttons.length

/-- Layout `m` has a known size, or at least as many buttons as the table `t` in use. -/
def Fits (layouts : List Layout) (t : LayoutType) (m : ℤ) : Prop :=
  ∀ l, index layouts m = some l → l.buttons.length ∈ [36, 28, 30, 47, 12] ∨ t.size ≤ l.buttons.length

/-- A layout that the event makes the current one fits. -/
def SwitchFits (p : Platform) (e : Event) (s : State) : Prop :=
  ∀ layouts m, switchesIn p e s = some layouts → nextLayout p layouts s.nLayout = some m →
    Fits layouts s.nCurrentLayoutType m

/-- The layout that the constructor ends with fits: the one the first refresh switches to, or the first. -/
def FirstFits (p : Platform) (props : Props) : Prop :=
  match hidden p (initial p props) with
  | some layouts => ∀ m, nextLayout p layouts 1 = some m →
      Fits layouts (initial p props).nCurrentLayoutType m
  | none => Fits (buildLayoutTable p) .QWERTY_LAYOUT 1

/-! ## Missing buttons -/

theorem missing_iff (h : InRange s) : ¬ Missing p s ↔ Covers s.tttLayouts s.nLayout s.nCurrentLayoutType := by
  obtain ⟨l, hl⟩ := h.exists_layout
  have hdef : ∀ c, s.buttonDef? c = index l.buttons c := by
    intro c
    unfold State.buttonDef?
    rw [hl, Option.bind_some]
  unfold Missing Covers
  constructor
  · intro hnot l' hl'
    rw [hl, Option.some.injEq] at hl'
    subst hl'
    by_contra hlt
    apply hnot
    refine ⟨s.nCurrentLayoutType.size, ?_, ?_, ?_⟩
    · omega
    · rw [tNumButtons_eq]
    · rw [hdef, Lua.index_eq_none]
      omega
  · rintro hcov ⟨c, h₀, hc, hnone⟩
    have hsize := hcov l hl
    rw [tNumButtons_eq] at hc
    rw [hdef, Lua.index_eq_none] at hnone
    omega

/-- Only the sizes matter to what a layout covers. -/
theorem covers_of_sizes {layouts layouts' : List Layout} (h : sizes layouts' = sizes layouts) {m : ℤ}
    {t : LayoutType} : Covers layouts' m t ↔ Covers layouts m t := by
  have hcovers : ∀ ls, Covers ls m t ↔ ∀ k, index (sizes ls) m = some k → t.size ≤ k := by
    intro ls
    unfold Covers sizes
    rw [Lua.index_map]
    simp
  rw [hcovers, hcovers, h]

/-- A known size gives the type of that size, an unknown one keeps the type. -/
theorem covers_typeAt {layouts : List Layout} {t : LayoutType} {m : ℤ} :
    Covers layouts m (typeAt p layouts t m) ↔ Fits layouts t m := by
  unfold Covers Fits
  constructor
  · intro hcov l hl
    have hsize := hcov l hl
    by_cases hknown : (matchLayoutType p l.buttons.length).isSome
    · exact .inl (match_isSome.1 hknown)
    · rw [Option.not_isSome_iff_eq_none] at hknown
      unfold typeAt at hsize
      rw [hl, Option.bind_some, hknown, Option.getD_none] at hsize
      exact .inr hsize
  · intro hfits l hl
    by_cases hknown : (matchLayoutType p l.buttons.length).isSome
    · rw [typeAt_spec hl hknown, tNumButtons_eq]
    · have hsize := (hfits l hl).resolve_left fun hmem => hknown (match_isSome.2 hmem)
      rw [Option.not_isSome_iff_eq_none] at hknown
      unfold typeAt
      rw [hl, Option.bind_some, hknown, Option.getD_none]
      exact hsize

theorem button_of_table {b : ℤ} {tButton : Button} (h : ¬ Missing p s)
    (hb : (b, tButton) ∈ ipairs (tttButtons p s.nCurrentLayoutType)) : ∃ d, s.buttonDef? b = some d := by
  rw [Lua.mem_ipairs] at hb
  obtain ⟨h₀, hlen⟩ := Lua.bounds_of_index hb
  by_contra hnone
  apply h
  refine ⟨b, h₀, hlen, ?_⟩
  cases hd : s.buttonDef? b with
  | none => rfl
  | some d => exact absurd ⟨d, hd⟩ hnone

theorem missing_congr (h : s'.shape = s.shape) : Missing p s' ↔ Missing p s := by
  have hb : ∀ c, s'.buttonDef? c = s.buttonDef? c := by
    intro c
    simp only [State.shape, Prod.mk.injEq] at h
    unfold State.buttonDef?
    rw [h.1, h.2.1]
  have ht : s'.nCurrentLayoutType = s.nCurrentLayoutType := congrArg (fun x => x.2.2) h
  unfold Missing
  simp only [hb, ht]

/-! ## Drawing and touching -/

/-- A loop over the table whose body only looks up buttons does not raise when none is missing. -/
theorem loop_safe {body : ℤ × Button → Prog (Option Unit)} (hshape : ∀ button, Keeps State.shape (body button))
    (hbody : ∀ (button : ℤ × Button) (s : State), (∃ d, s.buttonDef? button.1 = some d) →
      wp (body button) (fun _ _ => True) (fun e _ => e ≠ .buttonDef) s)
    (h : ¬ Missing p s) :
    wp (loop body (ipairs (tttButtons p s.nCurrentLayoutType))) (fun _ _ => True)
      (fun e _ => e ≠ .buttonDef) s := by
  apply Lua.wp_loop_inv (fun s' => s'.shape = s.shape)
  · rfl
  · exact fun _ _ => trivial
  · rintro ⟨b, tButton⟩ hb s' hs'
    have hnot : ¬ Missing p s' := by rwa [missing_congr hs']
    have ht : s'.nCurrentLayoutType = s.nCurrentLayoutType := congrArg (fun x => x.2.2) hs'
    rw [← ht] at hb
    apply wp_mono (Lua.wp_and (hbody _ s' (button_of_table hnot hb)) (Lua.wp_of_keeps (hshape _) s'))
    · rintro r s'' ⟨-, hs''⟩
      exact ⟨fun _ => hs''.trans hs', fun _ _ => trivial⟩
    · exact fun e _ he => he.1

theorem drawBitmap_wp (nState : ℤ) (x y : ℚ) (tButton : Button) :
    wp (drawBitmap p nState x y tButton) (fun _ s' => s'.shape = s.shape) (fun _ _ => False) s := by
  unfold drawBitmap
  cases cidBitmap p nState tButton with
  | none => rfl
  | some cid => rfl

theorem drawText_wp (nState : ℤ) (x y : ℚ) (tButton : Button) (sText : String) :
    wp (drawText p nState x y tButton sText) (fun _ s' => s'.shape = s.shape) (fun _ _ => False) s := by
  unfold drawText
  simp only [wp_when, wp_emit]
  exact ⟨fun _ => by rfl, fun _ => trivial⟩

/-- A button that exists is drawn. -/
theorem drawButton_wp (x y : ℚ) {button : ℤ × Button} {d : ButtonDef} (hd : s.buttonDef? button.1 = some d) :
    wp (drawButton p x y button) (fun r s' => r = none ∧ s'.shape = s.shape) (fun _ _ => False) s := by
  unfold drawButton
  simp only [wp_bind, Lua.wp_get, hd, Lua.orRaise_some, Lua.wp_pure]
  apply wp_mono (drawBitmap_wp _ _ _ _) _ (fun _ _ h => h)
  intro _ s₁ h₁
  apply wp_mono (drawText_wp _ _ _ _ _) _ (fun _ _ h => h)
  intro _ s₂ h₂
  exact ⟨trivial, h₂.trans h₁⟩

theorem preDraw_safe (h : ¬ Missing p s) (x y : ℚ) :
    wp (preDraw p x y) (fun _ _ => True) (fun e _ => e ≠ .buttonDef) s := by
  unfold preDraw
  simp only [wp_bind, Lua.wp_get, Lua.wp_pure]
  apply loop_safe (fun button => shape_of_quiet (quiet_of_calm (drawButton_calm x y button))) _ h
  rintro button s' ⟨d, hd⟩
  exact wp_mono (drawButton_wp x y hd) (fun _ _ _ => trivial) (fun _ _ h => h.elim)

theorem isInTouchArea_safe (h : ¬ Missing p s) (wx wy cx cy : ℚ) :
    wp (isInTouchArea p wx wy cx cy) (fun _ _ => True) (fun e _ => e ≠ .buttonDef) s := by
  unfold isInTouchArea
  simp only [wp_bind, Lua.wp_get, Lua.wp_pure]
  apply loop_safe (fun button => shape_of_quiet (touchButton_quiet wx wy cx cy button)) _ h
  rintro ⟨b, tButton⟩ s' ⟨d, hd⟩
  unfold touchButton
  simp only [wp_bind, Lua.wp_get, hd, Lua.orRaise_some, Lua.wp_pure, wp_ite, Lua.wp_modify]
  exact ⟨fun _ => trivial, fun _ => trivial⟩

/-- Drawing raises when a button is missing: it looks up all of them. -/
theorem preDraw_raises (h : Missing p s) (x y : ℚ) : (Lua.run (preDraw p x y) s).1 = .error .buttonDef := by
  obtain ⟨c, h₀, hc, hnone⟩ := h
  have hraise : wp (preDraw p x y) (fun _ _ => False) (fun e _ => e = .buttonDef) s := by
    unfold preDraw
    simp only [wp_bind, Lua.wp_get, Lua.wp_pure]
    -- the buttons gone through are not the missing one
    apply Lua.wp_loop (fun done s' => s'.shape = s.shape ∧ ∀ button ∈ done, s.buttonDef? button.1 ≠ none)
      _ _ (List.nil_append _).symm
    · exact ⟨rfl, fun _ h => by simp at h⟩
    · rintro s' ⟨-, hall⟩
      obtain ⟨tButton, ht⟩ := Lua.exists_index (t := tttButtons p s.nCurrentLayoutType) h₀ hc
      exact hall (c, tButton) (Lua.mem_ipairs.2 ht) hnone
    · rintro done button rest s' - ⟨hs', hall⟩
      cases hd : s'.buttonDef? button.1 with
      | none =>
        unfold drawButton
        simp only [wp_bind, Lua.wp_get, hd, Lua.orRaise_none, Lua.wp_throw]
      | some d =>
        apply wp_mono (drawButton_wp x y hd) _ (fun _ _ h => h.elim)
        rintro r s'' ⟨rfl, hs''⟩
        refine ⟨fun _ => ⟨hs''.trans hs', ?_⟩, fun b hb => by simp at hb⟩
        intro b hb
        rcases List.mem_append.1 hb with hb | hb
        · exact hall b hb
        · rw [List.mem_singleton.1 hb, ← buttonDef?_of_shape hs', hd]
          simp
  exact Lua.raises_of_wp hraise

/-! ## The other handlers -/

/-- From `s` the function does not raise for a missing button. -/
abbrev Spares {α : Type} (x : Prog α) (s : State) : Prop :=
  wp x (fun _ _ => True) (fun e _ => e ≠ .buttonDef) s

theorem spares_bind {α β : Type} {x : Prog α} {f : α → Prog β} (hx : Spares x s)
    (hf : ∀ a, Avoids .buttonDef (f a)) : Spares (x >>= f) s := by
  unfold Spares
  rw [wp_bind]
  exact wp_mono hx (fun a s' _ => hf a s') (fun _ _ h => h)

theorem press_avoids (duration : Param) : Avoids .buttonDef (press p duration) := by
  have hemit : ∀ e, Avoids .buttonDef (emit e) := fun e => avoids_modify _
  have hchar : Avoids .buttonDef pressedCharacter := by
    unfold pressedCharacter
    apply avoids_get_bind
    intro s
    cases s.nPressed with
    | none => exact avoids_pure 0
    | some b => exact avoids_bind (avoids_orRaise (by decide) _) fun _ => avoids_pure _
  unfold press
  cases duration with
  | nil => exact avoids_pure _
  | number n => exact avoids_pure _
  | userdata link => exact avoids_pure _
  | duration d =>
    cases d with
    | PRESS =>
      refine avoids_bind (avoids_modify _) fun _ => avoids_bind hchar fun _ => ?_
      exact avoids_bind (hemit _) fun _ => avoids_bind (hemit _) fun _ => hemit _
    | LONGPRESS => exact hemit _
    | REPEAT => exact hemit _
    | SHORTRELEASE => exact hemit _
    | RELEASE => exact avoids_bind (avoids_modify _) fun _ => avoids_bind (hemit _) fun _ => hemit _

theorem invalidateButton_avoids (b : ℤ) : Avoids .buttonDef (invalidateButton p b) := by
  unfold invalidateButton
  apply avoids_get_bind
  intro s
  exact avoids_bind (avoids_orRaise (by decide) _) fun _ => avoids_modify _

theorem onMove_avoids (nMove : ℤ) : Avoids .buttonDef (onMove p nMove) := by
  have hmoveTo : ∀ (l : List ButtonDef) (old : ℤ) (walked : ℤ × Bool),
      Avoids .buttonDef (moveTo p l old walked) := by
    intro l old walked
    unfold moveTo
    apply avoids_ite
    · refine avoids_bind (avoids_when (invalidateButton_avoids _)) fun _ => ?_
      refine avoids_bind (avoids_modify _) fun _ => ?_
      exact avoids_bind (invalidateButton_avoids _) fun _ => avoids_pure _
    · apply avoids_ite
      · refine avoids_bind (avoids_modify _) fun _ => ?_
        refine avoids_bind (avoids_when (invalidateButton_avoids _)) fun _ => ?_
        refine avoids_bind (avoids_modify _) fun _ => ?_
        exact avoids_bind (avoids_get_bind fun _ => avoids_modify _) fun _ => avoids_pure _
      · exact avoids_pure _
  unfold onMove
  apply avoids_get_bind
  intro s
  apply avoids_when
  refine avoids_bind ?_ fun _ => avoids_pure _
  unfold moveCursor
  apply avoids_get_bind
  intro s
  refine avoids_bind (avoids_orRaise (by decide) _) fun _ => ?_
  exact avoids_bind (avoids_orRaise (by decide) _) fun _ => hmoveTo _ _ _

theorem onSetFocus_spares (h : ¬ Missing p s) (link : Link) (param2 : Param) :
    Spares (onSetFocus p link param2) s := by
  unfold onSetFocus Spares
  simp only [wp_bind, Lua.wp_get, Lua.wp_modify, wp_when, Lua.wp_orRaise]
  refine ⟨fun _ => ⟨fun k _ => ?_, fun _ => by decide⟩, fun _ => trivial⟩
  apply wp_mono (repositionCursor_wp _)
  · intro found s' _
    apply avoids_ite
    · refine avoids_bind (avoids_modify _) fun _ => avoids_get_bind fun s' => ?_
      exact avoids_bind (avoids_orRaise (by decide) _) fun c => invalidateButton_avoids c
    · exact avoids_get_bind fun _ => avoids_modify _
  · rintro e s' ⟨-, hmissing, -⟩
    exact absurd hmissing h

theorem keepFocus_spares (h : ¬ Missing p s) : Spares (keepFocus p) s := by
  cases hf : s.bGotFocus with
  | false => exact (keepFocus_unfocused hf).2 trivial
  | true =>
    apply wp_mono (keepFocus_focused hf) (fun _ _ _ => trivial)
    rintro e s' ⟨-, hmissing, -⟩
    exact absurd hmissing h

theorem updateEnabled_spares (hin : InRange s) (h : ¬ Missing p s) : Spares (updateEnabled p) s := by
  apply updateEnabled_wp hin
  · intro log m _ _ _
    exact (keepFocus_unfocused (switched_bGotFocus _ m)).2 trivial
  · intro log _ _
    apply keepFocus_spares
    rw [missing_iff (inRange_afterRefresh hin log)]
    exact (covers_of_sizes (sizes_refreshed p s)).2 ((missing_iff hin).1 h)

theorem onMessage_spares (hin : InRange s) (h : ¬ Missing p s) (eventid : EventId) (param1 param2 : Param) :
    Spares (onMessage p eventid param1 param2) s := by
  have hdone : ∀ k : ℕ, ∀ u : Unit, Avoids .buttonDef (pure k : Prog ℕ) := fun k _ => avoids_pure k
  unfold onMessage
  cases eventid with
  | HK_MAIN_NEG => exact spares_bind (onMove_avoids _ s) (hdone 1)
  | HK_MAIN_POS => exact spares_bind (onMove_avoids _ s) (hdone 1)
  | HK_MAIN_PRESS =>
    refine spares_bind ?_ (hdone 1)
    exact avoids_bind (avoids_modify _) (fun _ => press_avoids param1) s
  | HK_MAIN_LONG => exact spares_bind (press_avoids _ s) (hdone 1)
  | HK_MAIN_REPEAT => exact spares_bind (press_avoids _ s) (hdone 1)
  | HK_MAIN_SHORT => exact spares_bind (press_avoids _ s) (hdone 1)
  | HK_MAIN_RELEASE => exact spares_bind (press_avoids _ s) (hdone 1)
  | WIDGET_SETFOCUS =>
    refine spares_bind ?_ (hdone 0)
    unfold onSetFocusMessage
    cases param1.link? with
    | none => trivial
    | some link => exact onSetFocus_spares h link param2
  | WIDGET_VIEW_CHANGE =>
    refine spares_bind ?_ (hdone 0)
    unfold onViewChange
    apply avoids_get_bind
    intro s
    exact avoids_when (avoids_bind (avoids_modify _) fun _ => avoids_modify _)
  | WIDGET_ENTRYFIELD_EMPTY =>
    refine spares_bind ?_ (hdone 1)
    unfold onEntryFieldEmpty Spares
    rw [wp_bind, Lua.wp_modify]
    refine spares_bind (updateEnabled_spares hin ?_) fun _ => avoids_modify _
    rwa [missing_congr rfl]
  | app id =>
    unfold Spares
    rw [wp_ite]
    refine ⟨fun _ => ?_, fun _ => trivial⟩
    refine spares_bind ?_ (hdone 1)
    refine spares_bind ?_ fun _ => avoids_modify _
    exact wp_mono (switchLayout_wp hin) (fun _ _ _ => trivial) (fun _ _ h => h.elim)

/-- **No handler raises for a missing button if and only if no button is missing.** -/
theorem safe_iff (hin : InRange s) :
    Safe p s ↔ Covers s.tttLayouts s.nLayout s.nCurrentLayoutType := by
  rw [← missing_iff hin]
  constructor
  · intro hsafe hmissing
    exact hsafe (.preDraw 0 0) (preDraw_raises hmissing 0 0)
  · intro h e
    have hspares : Spares (handle p e) s := by
      cases e with
      | changeProps props => trivial
      | onDataUpdate nUserId => exact spares_bind (updateEnabled_spares hin h) fun _ => avoids_modify _
      | onMessage m => exact spares_bind (onMessage_spares hin h _ _ _) fun _ => avoids_pure _
      | isInTouchArea wx wy cx cy => exact spares_bind (isInTouchArea_safe h wx wy cx cy) fun _ => avoids_pure _
      | onTouch duration x y =>
        unfold handle onTouch
        exact avoids_bind (avoids_when (avoids_modify _)) (fun _ => press_avoids duration) s
      | preDraw x y => exact preDraw_safe h x y
    exact Lua.not_raises_of_wp hspares

/-! ## Runs -/

/-- The same layout with the same table. -/
theorem safe_stayed (h : InRange s) (hm : Moved p none s s') :
    Safe p s' ↔ Covers s.tttLayouts s.nLayout s.nCurrentLayoutType := by
  obtain ⟨hlayout, htype⟩ := hm.stays rfl
  rw [safe_iff (inRange_moved h hm), hlayout, htype, hm.tttLayouts]

/-- After a switch the speller is safe if and only if the layout it went to fits. -/
theorem safe_switched {table : List Layout} (h : InRange s) (hm : Moved p (some table) s s') :
    Safe p s' ↔ ∀ m, nextLayout p table s.nLayout = some m → Fits table s.nCurrentLayoutType m := by
  obtain ⟨rfl, m, hnext, hlayout, htype⟩ := hm.switches table rfl
  rw [safe_iff (inRange_moved h hm), hm.tttLayouts, hlayout, htype, covers_typeAt, hnext]
  simp

theorem safe_constructor (p : Platform) (props : Props) : Safe p (constructor p props) ↔ FirstFits p props := by
  have hin := inRange_afterRefresh (p := p) (inRange_initial p props) []
  have hmoved := constructor_moved p props
  unfold FirstFits
  cases hlayouts : hidden p (initial p props) with
  | some table =>
    rw [hlayouts] at hmoved
    exact safe_switched hin hmoved
  | none =>
    rw [hlayouts] at hmoved
    rw [safe_stayed hin hmoved]
    exact (covers_of_sizes (sizes_refreshed p _)).trans covers_typeAt

/-- One event from a safe state. -/
theorem safe_step (h : InRange s) (hsafe : Safe p s) {e : Event} (hs : step p e s = some s') :
    Safe p s' ↔ SwitchFits p e s := by
  have hin := inRange_written (p := p) h e
  have hmoved := step_moved h hs
  unfold SwitchFits
  cases hlayouts : switchesIn p e s with
  | some table =>
    rw [hlayouts] at hmoved
    rw [safe_switched hin hmoved, written_nLayout, written_nCurrentLayoutType]
    constructor
    · rintro hfits layouts m ⟨⟩
      exact hfits m
    · exact fun hfits m => hfits table m rfl
  | none =>
    rw [hlayouts] at hmoved
    rw [safe_stayed hin hmoved, written_nLayout, written_nCurrentLayoutType,
      covers_of_sizes (sizes_written e s)]
    simpa using (safe_iff h).1 hsafe

/-- **Missing buttons.** No handler of a run raises for a button that the current layout lacks if and only
if every layout that becomes the current one fits. -/
theorem lookup_law (p : Platform) (props : Props) (es : List Event) :
    Run.Throughout (step p) (Safe p) es (constructor p props) ↔
      FirstFits p props ∧ Run.Along (step p) (SwitchFits p) es (constructor p props) := by
  have hrun : Safe p (constructor p props) → (Run.Throughout (step p) (Safe p) es (constructor p props) ↔
      Run.Along (step p) (SwitchFits p) es (constructor p props)) :=
    Run.throughout_iff_along (Run.free_of_total (step_total p)) (fun e s s' h hs => step_inRange h hs)
      (fun e s s' h hsafe hs => safe_step h hsafe hs) (inRange_constructor p props)
  rw [← safe_constructor]
  constructor
  · intro h
    have hsafe := Run.throughout_head h
    exact ⟨hsafe, (hrun hsafe).1 h⟩
  · rintro ⟨hsafe, h⟩
    exact (hrun hsafe).2 h

/-- A speller without a layout sequence. -/
def noSequence : Platform := { numPad with LayoutSequence := none }

/-- Its one layout has no buttons, but drawing looks up button 1 of 36. -/
theorem noSequence_raises : ∃ s, Run.exec (step noSequence) [] (constructor noSequence allKeys) = some s ∧
    (Lua.run (preDraw noSequence 0 0) s).1 = .error .buttonDef ∧ ¬ Safe noSequence s := by
  have hraise : (Lua.run (preDraw noSequence 0 0) (constructor noSequence allKeys)).1 = .error .buttonDef := by
    decide +kernel
  exact ⟨_, rfl, hraise, fun hsafe => hsafe (.preDraw 0 0) hraise⟩

end Speller
