import LinuxLearning.Speller.Table
import LinuxLearning.Speller.Request
/-!
# Refreshing twice

`onDataUpdate` may switch the layout, drop the focus and move the cursor besides the flags of the buttons
(`:648-766`, `:1252-1257`). A second call with the same data does nothing of this.

* `Steady` — the states that a refresh leaves as they are: the layouts are those of the refresh, the current one is
  visible or there is nothing to switch to, the cursor is on a button that the search takes at once;
* `steady_after` — a refresh leads to a steady state;
* `steady_stays` — and a steady state stays, with no message to the button container;
* `twice_law` — for every run.
-/

namespace Speller

open Lua (index wp wp_bind wp_mono wp_when)

variable {p : Platform} {props : Props} {es : List Event} {s t : State} {n : ℕ}

/-- A refresh finds nothing to do. -/
structure Steady (p : Platform) (t : State) : Prop where
  layouts : (t.refreshed p).1 = t.tttLayouts
  bEnabled : (t.update p).bEnabled = t.bEnabled
  toggle : p.pToggleButton.isSome → decide (1 < (t.refreshed p).2) = t.toggleEnabled
  /-- a switch has nowhere to go -/
  hides : Hides p t → NoneVisible t.tttLayouts ∧ t.bGotFocus = false ∧ t.bPressed = false ∧
    typeAt p t.tttLayouts t.nCurrentLayoutType t.nLayout = t.nCurrentLayoutType
  cursor : t.bGotFocus = true → ∃ c, t.nCursor = some c ∧ Accepts p t c true

/-! ## The layouts of the second refresh -/

theorem setVisible_congr {layouts layouts' : List Layout} (k : ℕ)
    (h : layouts.map Layout.buttons = layouts'.map Layout.buttons) : setVisible k layouts = setVisible k layouts' := by
  induction layouts generalizing k layouts' with
  | nil =>
    rw [List.map_nil, eq_comm, List.map_eq_nil_iff] at h
    rw [h]
  | cons l rest ih =>
    cases layouts' with
    | nil => simp at h
    | cons l' rest' =>
      simp only [List.map_cons, List.cons.injEq] at h
      unfold setVisible
      dsimp only
      rw [h.1, ih _ h.2]

theorem update_congr (h₁ : t.props = s.props) (h₂ : t.bSpaceBtnEnabled = s.bSpaceBtnEnabled)
    (h₃ : t.bUseFill = s.bUseFill) : t.update p = s.update p := by
  unfold State.update
  rw [h₁, h₂, h₃]

/-- **A refresh of what it has made** makes the same again. -/
theorem refreshed_twice (h : Built p s) (htable : t.tttLayouts = (s.refreshed p).1)
    (hupdate : t.update p = s.update p) (hfill : t.bUseFill = s.bUseFill) : t.refreshed p = s.refreshed p := by
  have hbuilt : Built p t := built_refresh h htable hfill
  have hbuttons : ∀ r : State, (passes p (r.update p) r.tttLayouts).map Layout.buttons =
      (r.refreshed p).1.map Layout.buttons := fun r => setVisible_buttons.symm
  unfold State.refreshed
  rw [refresh_eq, refresh_eq]
  apply setVisible_congr
  rw [hbuttons, hbuttons, hbuilt.refreshed, h.refreshed, hupdate]

/-! ## A refresh leads to a steady state -/

/-- What a refresh does to the focus: a switch drops it, and who keeps it has found a button. -/
theorem updateEnabled_focus (h : Sized p s) :
    wp (updateEnabled p)
      (fun _ t => (Hides p s → t.bGotFocus = false ∧ t.bPressed = false) ∧
        (t.bGotFocus = true → ∃ c, t.nCursor = some c ∧ Accepts p t c true))
      (fun _ _ => False) s := by
  apply updateEnabled_wp h.inRange
  · intro log m _ _ _
    have hunf := switched_bGotFocus (p := p) (s.afterRefresh p log) m
    rw [keepFocus_unfocused hunf]
    refine ⟨fun _ => ⟨hunf, ?_⟩, fun hgot => by simp at hgot⟩
    unfold State.switched
    split_ifs
    · simp [State.handOver, focusLost_eq]
    · rfl
  · intro log _ hstay
    have hsized := sized_afterRefresh (p := p) h log
    cases hf : s.bGotFocus with
    | false =>
      have hunf : (s.afterRefresh p log).bGotFocus = false := hf
      rw [keepFocus_unfocused hunf]
      exact ⟨fun hhides => absurd hhides hstay, fun hgot => by simp [hunf] at hgot⟩
    | true =>
      apply wp_mono (keepFocus_focused (s := s.afterRefresh p log) hf)
      · rintro _ t (⟨c, ⟨h₀, hc, d, hd, hon⟩, rfl⟩ | rfl)
        · refine ⟨fun hhides => absurd hhides hstay, fun _ => ⟨c, rfl, h₀, hc, d, hd, ?_⟩⟩
          simpa using hon
        · refine ⟨fun hhides => absurd hhides hstay, fun hgot => ?_⟩
          simp at hgot
      · rintro e t ⟨-, hmissing, -⟩
        exact absurd hmissing (not_missing hsized)

theorem typeAt_typeAt (p : Platform) (layouts : List Layout) (ty : LayoutType) (m : ℤ) :
    typeAt p layouts (typeAt p layouts ty m) m = typeAt p layouts ty m := by
  unfold typeAt
  cases (index layouts m).bind fun l => matchLayoutType p l.buttons.length <;> rfl

theorem updateEnabled_steady (hbuilt : Built p s) (h : Good p n s) :
    wp (updateEnabled p) (fun _ t => Steady p t ∧ Good p n t) (fun _ _ => False) s := by
  have hmoves := Lua.wp_and (Lua.wp_and (updateEnabled_moves (p := p) h.inRange) (updateEnabled_focus h.toSized))
    (updateEnabled_good h.toSized h.toHanded)
  apply wp_mono hmoves _ (fun _ _ h => h.1.2)
  rintro _ t ⟨⟨hmoved, hfocus, hcursor⟩, hgood⟩
  have htable : t.tttLayouts = (s.refreshed p).1 := hmoved.tttLayouts
  have hupdate : t.update p = s.update p := update_congr hmoved.props hmoved.bSpaceBtnEnabled hmoved.bUseFill
  have hrefreshed := refreshed_twice hbuilt htable hupdate hmoved.bUseFill
  have hlayouts : (t.refreshed p).1 = t.tttLayouts := by rw [hrefreshed, htable]
  refine ⟨⟨hlayouts, ?_, ?_, ?_, hcursor⟩, hgood⟩
  · rw [hupdate]
    exact hmoved.bEnabled.symm
  · intro hbutton
    rw [hrefreshed, hmoved.toggleEnabled]
    simp [State.afterRefresh, hbutton]
  · intro hhides
    have hnone : NoneVisible t.tttLayouts := by
      rcases hgood.visible with hv | hnone
      · have hv' := hhides.2
        rw [hlayouts, hv] at hv'
        simp at hv'
      · exact hnone
    by_cases hs : Hides p s
    · have hhidden : hidden p s = some (s.refreshed p).1 := if_pos hs
      rw [hhidden] at hmoved
      obtain ⟨-, m, -, hlayout, htype⟩ := hmoved.switches _ rfl
      refine ⟨hnone, (hfocus hs).1, (hfocus hs).2, ?_⟩
      rw [htable, hlayout, htype, typeAt_typeAt]
    · -- then the current layout is the old one, and not hidden either
      have hhidden : hidden p s = none := if_neg hs
      rw [hhidden] at hmoved
      have hlayout : t.nLayout = s.nLayout := (hmoved.stays rfl).1
      apply absurd _ hs
      unfold Hides at hhides ⊢
      rwa [hupdate, hrefreshed, hlayout] at hhides

/-! ## A steady state stays -/

/-- The search takes the button the cursor is on. -/
theorem repositionCursor_stays (h : Sized p t) {c : ℤ} (hc : t.nCursor = some c) (haccepts : Accepts p t c true) :
    wp (repositionCursor p (some c)) (fun found u => found = true ∧ u = t) (fun _ _ => False) t := by
  have hself : c - 1 + 1 = c := by omega
  have hbounds := haccepts.2.1
  have hpos := haccepts.1
  apply wp_mono (repositionCursor_spec (not_missing h) _) _ (fun _ _ h => h)
  rintro found u (⟨rfl, i, b, ⟨hi, hpassed, hhere⟩, rfl⟩ | ⟨rfl, hpassed, rfl⟩)
  · have hone : i = 1 := by
      by_contra hne
      have hno := (hpassed 1 le_rfl (by omega)).1
      simp only [Option.getD_some, hself] at hno
      exact hno haccepts
    subst hone
    simp only [Option.getD_some, hself] at hhere
    rcases hhere with ⟨rfl, -⟩ | ⟨hno, -⟩
    · exact ⟨rfl, by rw [← hc]⟩
    · exact absurd haccepts hno
  · have hno := (hpassed 1 le_rfl (by omega)).1
    simp only [Option.getD_some, hself] at hno
    exact absurd haccepts hno

theorem keepFocus_stays (h : Sized p t)
    (hcursor : t.bGotFocus = true → ∃ c, t.nCursor = some c ∧ Accepts p t c true) :
    wp (keepFocus p) (fun _ u => u = t) (fun _ _ => False) t := by
  cases hf : t.bGotFocus with
  | false =>
    rw [keepFocus_unfocused hf]
  | true =>
    obtain ⟨c, hc, haccepts⟩ := hcursor hf
    unfold keepFocus
    simp only [wp_bind, Lua.wp_get, wp_when]
    refine ⟨fun _ => ?_, fun hno => absurd hf hno⟩
    rw [hc]
    apply wp_mono (repositionCursor_stays h hc haccepts) _ (fun _ _ h => h)
    rintro found u ⟨rfl, rfl⟩
    exact ⟨fun hfalse => by simp at hfalse, fun _ => rfl⟩

/-- A steady state after a refresh, up to the effects. -/
theorem Steady.afterRefresh (h : Steady p t) (log : List Effect) :
    t.afterRefresh p log = { t with log := log } := by
  unfold State.afterRefresh
  rw [h.layouts, h.bEnabled]
  by_cases hbutton : p.pToggleButton.isSome
  · rw [if_pos hbutton, h.toggle hbutton]
  · rw [if_neg hbutton]

/-- **A steady state stays**, and nothing is sent to the button container. -/
theorem steady_stays (h : Steady p t) (hsized : Sized p t) :
    wp (updateEnabled p) (fun _ u => u = { t with log := u.log } ∧ focusMessages u.log = focusMessages t.log)
      (fun _ _ => False) t := by
  apply updateEnabled_wp hsized.inRange
  · intro log m hlog hhides hm
    obtain ⟨hnone, hunf, hreleased, htype⟩ := h.hides hhides
    rw [h.layouts] at hm
    have hsame : m = t.nLayout := by
      rcases isNext_of_eq hsized.inRange hm with ⟨_, -, -, -, hv, -⟩ | ⟨hsame, -⟩
      · exact absurd hv (hnone m)
      · exact hsame
    have hswitched : (t.afterRefresh p log).switched p m = { t with log := log } := by
      rw [h.afterRefresh, hsame]
      unfold State.switched
      simp only [hunf, htype, Bool.false_eq_true, if_false]
      rw [← hreleased]
    rw [keepFocus_unfocused (switched_bGotFocus _ m), hswitched]
    exact ⟨rfl, hlog⟩
  · intro log hlog _
    rw [h.afterRefresh]
    have hsized' : Sized p { t with log := log } := sized_congr hsized rfl
    apply wp_mono (keepFocus_stays hsized' h.cursor) _ (fun _ _ h => h)
    rintro _ u rfl
    exact ⟨rfl, hlog⟩

/-! ## The law -/

/-- **Refreshing twice is refreshing once.** In every state of a run, a data update returns, and a second one
leaves the whole state as the first did, up to the effects, and sends nothing to the button container. -/
theorem twice_law (hp : WellSized p) (h : Run.exec (step p) es (constructor p props) = some s) (i j : ℕ) :
    ∃ t u, Lua.run (handle p (.onDataUpdate i)) s = (.ok (), t) ∧
      Lua.run (handle p (.onDataUpdate j)) t = (.ok (), u) ∧
      u = { t with log := u.log } ∧ focusMessages u.log = focusMessages t.log := by
  have hemit : ∀ log : List Effect, focusMessages (log ++ [.widgetInvalidate]) = focusMessages log := by
    intro log
    simp [focusMessages, Effect.isFocus]
  have hfirst : wp (handle p (.onDataUpdate i)) (fun _ t => Steady p t ∧ Sized p t) (fun _ _ => False) s := by
    unfold handle onDataUpdate
    simp only [wp_bind, wp_emit]
    apply wp_mono (updateEnabled_steady (built_run h).2 (good_run hp h)) _ (fun _ _ h => h)
    rintro _ t ⟨hsteady, hgood⟩
    exact ⟨⟨hsteady.layouts, hsteady.bEnabled, hsteady.toggle, hsteady.hides, hsteady.cursor⟩,
      sized_congr hgood.toSized rfl⟩
  obtain ⟨_, t, hrun, hsteady, hsized⟩ := Lua.returns_of_wp hfirst
  have hsecond : wp (handle p (.onDataUpdate j))
      (fun _ u => u = { t with log := u.log } ∧ focusMessages u.log = focusMessages t.log)
      (fun _ _ => False) t := by
    unfold handle onDataUpdate
    simp only [wp_bind, wp_emit]
    apply wp_mono (steady_stays hsteady hsized) _ (fun _ _ h => h)
    rintro _ u ⟨hu, hlog⟩
    refine ⟨?_, by rw [hemit, hlog]⟩
    rw [hu]
  obtain ⟨_, u, hrun', hu, hlog⟩ := Lua.returns_of_wp hsecond
  exact ⟨t, u, hrun, hrun', hu, hlog⟩

/-- The first update disables the key the cursor is on. -/
theorem twice_law_sample : ∃ s t u,
    Run.exec (step numPad) [request 7 true, .changeProps ⟨some "1", some 1, some 1⟩]
        (constructor numPad allKeys) = some s ∧ s.nCursor = some 1 ∧
      Lua.run (handle numPad (.onDataUpdate 0)) s = (.ok (), t) ∧ t.nCursor = some 2 ∧
      Lua.run (handle numPad (.onDataUpdate 0)) t = (.ok (), u) ∧ u = { t with log := u.log } := by
  have h : (Run.exec (step numPad) [request 7 true, .changeProps ⟨some "1", some 1, some 1⟩]
      (constructor numPad allKeys)).map (fun s => (s.nCursor,
        (Lua.run (handle numPad (.onDataUpdate 0)) s).2.nCursor)) = some (some 1, some 2) := by
    decide +kernel
  obtain ⟨s, hs, he⟩ := Option.map_eq_some_iff.1 h
  simp only [Prod.mk.injEq] at he
  obtain ⟨t, u, ht, hu, hsame, -⟩ := twice_law numPad_wellSized hs 0 0
  rw [ht] at he
  exact ⟨s, t, u, hs, he.1, ht, he.2, hu, hsame⟩

end Speller
