import LinuxLearning.Speller.Specs
/-!
# The invariant of the speller

For layouts of known sizes every handler keeps `Good`, whether it returns or raises:

* `Sized` — the current layout exists and has as many buttons as the table of its type;
* `Handed` — the speller has the focus if and only if it has a cursor and if and only if it is
  registered for the seven events, and every focus it was handed it has handed back or still has;
* the cursor is on a button, and on an enabled one if the speller is enabled;
* `visible`, `disabled`, `toggle` — what the flags of the last refresh say about the layouts.

A switch of the layout in the middle of a refresh breaks the cursor, a refresh breaks its button, so
the parts are kept apart: `switched`, `afterRefresh` and `handOver` have a lemma for each.
-/

namespace Speller

open Lua (index wp wp_bind wp_mono Keeps keeps_bind keeps_pure wp_when wp_ite)

variable {p : Platform} {s s' : State} {n : ℕ}

/-- Every layout has the size of one of the five tables. -/
def WellSized (p : Platform) : Prop :=
  ∀ l ∈ buildLayoutTable p, l.buttons.length ∈ [36, 28, 30, 47, 12]

instance (p : Platform) : Decidable (WellSized p) := by
  unfold WellSized
  infer_instance

structure Sized (p : Platform) (s : State) : Prop where
  known : ∀ l ∈ s.tttLayouts, (matchLayoutType p l.buttons.length).isSome
  inRange : InRange s
  type : ∀ l, index s.tttLayouts s.nLayout = some l →
    l.buttons.length = tNumButtons p s.nCurrentLayoutType
  blank : AllButtons Blank s.tttLayouts

/-- The current layout has as many buttons as its type says. -/
def Complete (p : Platform) (s : State) : Prop :=
  ∃ l, index s.tttLayouts s.nLayout = some l ∧ l.buttons.length = tNumButtons p s.nCurrentLayoutType

/-- `n` is the number of times the focus was handed to the speller. -/
structure Handed (n : ℕ) (s : State) : Prop where
  focus : s.bGotFocus = s.nCursor.isSome
  registered : ∀ e ∈ hkMain, e ∈ s.registered ↔ s.bGotFocus = true
  container : s.bGotFocus = true → s.pButtonContainer.isSome
  balance : (focusMessages s.log).length + (if s.bGotFocus then 1 else 0) = n
  sent : ∀ e ∈ focusMessages s.log, ∃ link code, e = .sendFocus (some link) code

/-- What the flags say about the layouts. -/
structure Flagged (p : Platform) (s : State) : Prop where
  disabled : s.bEnabled = false → AllButtons Off s.tttLayouts ∧ NoneVisible s.tttLayouts
  toggle : p.pToggleButton.isSome → (s.toggleEnabled = true ↔ 1 < countVisible s.tttLayouts)

structure Good (p : Platform) (n : ℕ) (s : State) : Prop extends Sized p s, Handed n s, Flagged p s where
  cursor : ∀ c, s.nCursor = some c →
    ∃ d, s.buttonDef? c = some d ∧ (s.bEnabled = true → d.bEnabled = true)
  visible : visibleAt s.tttLayouts s.nLayout = some true ∨ NoneVisible s.tttLayouts

/-! ## States that differ in nothing that matters -/

theorem focusMessages_twice (log : List Effect) : focusMessages (focusMessages log) = focusMessages log := by
  unfold focusMessages
  rw [List.filter_filter]
  simp

theorem handed_log (log : List Effect) (h : Handed n s) (hlog : focusMessages log = focusMessages s.log) :
    Handed n { s with log := log } where
  focus := h.focus
  registered := h.registered
  container := h.container
  balance := by
    show (focusMessages log).length + _ = n
    rw [hlog]
    exact h.balance
  sent := by
    show ∀ e ∈ focusMessages log, _
    rw [hlog]
    exact h.sent

/-- The invariant does not look at the pressed button and at other effects. -/
theorem good_quiet : Good p n s.quiet ↔ Good p n s := by
  have hlog := focusMessages_twice s.log
  constructor
  · intro h
    have hh := handed_log s.log h.toHanded hlog.symm
    exact ⟨⟨h.known, h.inRange, h.type, h.blank⟩, ⟨hh.focus, hh.registered, hh.container, hh.balance, hh.sent⟩,
      ⟨h.disabled, h.toggle⟩, h.cursor, h.visible⟩
  · intro h
    have hh := handed_log _ h.toHanded hlog
    exact ⟨⟨h.known, h.inRange, h.type, h.blank⟩, ⟨hh.focus, hh.registered, hh.container, hh.balance, hh.sent⟩,
      ⟨h.disabled, h.toggle⟩, h.cursor, h.visible⟩

theorem Good.of_quiet (h : Good p n s) (heq : s'.quiet = s.quiet) : Good p n s' :=
  good_quiet.1 (heq ▸ good_quiet.2 h)

/-- A function that keeps `quiet` keeps the invariant, whatever its outcome. -/
theorem good_of_keeps {α : Type} {x : Prog α} (hx : Keeps State.quiet x) (h : Good p n s) :
    wp x (fun _ s' => Good p n s') (fun _ s' => Good p n s') s :=
  wp_mono (Lua.wp_of_keeps hx s) (fun _ _ heq => h.of_quiet heq) (fun _ _ heq => h.of_quiet heq)

/-! ## The focus is handed over -/

/-- With a cursor the speller has the focus. -/
theorem Handed.focused {c : ℤ} (h : Handed n s) (hc : s.nCursor = some c) : s.bGotFocus = true := by
  rw [h.focus, hc]
  rfl

theorem Handed.unfocused (h : Handed n s) (hf : s.bGotFocus = false) : s.nCursor = none := by
  have hfocus := h.focus
  rw [hf] at hfocus
  cases hc : s.nCursor with
  | none => rfl
  | some c => simp [hc] at hfocus

theorem handed_handOver (h : Handed n s) (hf : s.bGotFocus = true) (code : ℕ) : Handed n (s.handOver code) := by
  obtain ⟨link, hlink⟩ := Option.isSome_iff_exists.1 (h.container hf)
  have hlog : focusMessages (s.handOver code).log =
      focusMessages s.log ++ [.sendFocus s.pButtonContainer code] := by
    simp [State.handOver, focusMessages, Effect.isFocus]
  have hunf := handOver_bGotFocus s code
  constructor
  · rw [hunf]
    rfl
  · intro e he
    have hreg : (s.handOver code).registered = (focusLost s).registered := rfl
    rw [hreg, mem_focusLost hf, hunf]
    simp [he]
  · intro hgot
    simp at hgot
  · have hbal := h.balance
    rw [hlog, hunf, ← hbal, hf]
    simp
  · intro e he
    rw [hlog] at he
    rcases List.mem_append.1 he with he | he
    · exact h.sent e he
    · exact ⟨link, code, by rw [List.mem_singleton.1 he, hlink]⟩

/-! ## A switch -/

theorem typeAt_spec {layouts : List Layout} {t : LayoutType} {m : ℤ} {l : Layout}
    (hl : index layouts m = some l) (hknown : (matchLayoutType p l.buttons.length).isSome) :
    l.buttons.length = tNumButtons p (typeAt p layouts t m) := by
  obtain ⟨t', ht'⟩ := Option.isSome_iff_exists.1 hknown
  unfold typeAt
  rw [hl, Option.bind_some, ht', Option.getD_some, tNumButtons_eq]
  exact size_of_match ht'

/-- The fields of `shape` are all that `Sized` is about. -/
theorem sized_of_shape {layouts : List Layout} {m : ℤ} {t : LayoutType} (hs : s'.shape = (layouts, m, t))
    (hknown : ∀ l ∈ layouts, (matchLayoutType p l.buttons.length).isSome)
    (hm : 1 ≤ m ∧ m ≤ layouts.length) (hblank : AllButtons Blank layouts)
    (htype : ∀ l, index layouts m = some l → l.buttons.length = tNumButtons p t) : Sized p s' := by
  simp only [State.shape, Prod.mk.injEq] at hs
  obtain ⟨rfl, rfl, rfl⟩ := hs
  exact ⟨hknown, hm, htype, hblank⟩

theorem sized_congr (h : Sized p s) (hs : s'.shape = s.shape) : Sized p s' :=
  sized_of_shape hs h.known h.inRange h.blank h.type

theorem sized_switched {m : ℤ} (h : Sized p s) (hm : IsNext s.tttLayouts s.nLayout m) :
    Sized p (s.switched p m) := by
  apply sized_of_shape (switched_shape s m) h.known (hm.bounds h.inRange.1 h.inRange.2) h.blank
  exact fun l hl => typeAt_spec hl (h.known l (Lua.mem_of_index hl))

theorem handed_switched {m : ℤ} (h : Handed n s) : Handed n (s.switched p m) := by
  unfold State.switched
  by_cases hf : s.bGotFocus
  · rw [if_pos hf]
    apply handed_handOver
    · exact ⟨h.focus, h.registered, h.container, h.balance, h.sent⟩
    · exact hf
  · rw [if_neg hf]
    exact ⟨h.focus, h.registered, h.container, h.balance, h.sent⟩

/-- What a switch and the handing over of the focus leave alone. -/
def State.flags (s : State) : Bool × Bool := (s.bEnabled, s.toggleEnabled)

@[simp] theorem handOver_flags (s : State) (code : ℕ) : (s.handOver code).flags = s.flags := by
  simp [State.handOver, focusLost_eq, State.flags]

@[simp] theorem switched_flags (s : State) (m : ℤ) : (s.switched p m).flags = s.flags := by
  unfold State.switched
  by_cases h : s.bGotFocus
  · rw [if_pos h, handOver_flags]
    rfl
  · rw [if_neg h]
    rfl

theorem flagged_congr (h : Flagged p s) (hf : s'.flags = s.flags) (hl : s'.tttLayouts = s.tttLayouts) :
    Flagged p s' := by
  simp only [State.flags, Prod.mk.injEq] at hf
  exact ⟨by rw [hf.1, hl]; exact h.disabled, by rw [hf.2, hl]; exact h.toggle⟩

/-- Without the focus there is nothing to say about the cursor. -/
theorem good_unfocused (h₁ : Sized p s) (h₂ : Handed n s) (h₃ : Flagged p s) (hf : s.bGotFocus = false)
    (hv : visibleAt s.tttLayouts s.nLayout = some true ∨ NoneVisible s.tttLayouts) : Good p n s := by
  refine ⟨h₁, h₂, h₃, ?_, hv⟩
  intro c hc
  rw [h₂.unfocused hf] at hc
  simp at hc

/-- After a switch the current layout is visible, or none is. -/
theorem good_switched {m : ℤ} (h₁ : Sized p s) (h₂ : Handed n s) (h₃ : Flagged p s)
    (hm : IsNext s.tttLayouts s.nLayout m) : Good p n (s.switched p m) := by
  have hshape : (s.switched p m).shape = (s.tttLayouts, m, _) := switched_shape s m
  simp only [State.shape, Prod.mk.injEq] at hshape
  apply good_unfocused (sized_switched h₁ hm) (handed_switched h₂) _ (switched_bGotFocus s m)
  · rw [hshape.1, hshape.2.1]
    exact hm.visible
  · exact flagged_congr h₃ (switched_flags s m) hshape.1

/-- The next layout is the one the specification of the search gives. -/
theorem isNext_of_eq {m : ℤ} (h : InRange s) (hm : nextLayout p s.tttLayouts s.nLayout = some m) :
    IsNext s.tttLayouts s.nLayout m := by
  obtain ⟨m', hm', hnext⟩ := nextLayout_spec p h.1 h.2
  rw [hm, Option.some.injEq] at hm'
  exact hm' ▸ hnext

theorem switchLayout_good (h : Good p n s) :
    wp (switchLayout p) (fun _ s' => Good p n s') (fun _ s' => Good p n s') s := by
  apply wp_mono (switchLayout_wp h.inRange) _ (fun _ _ h => h.elim)
  rintro _ s' ⟨m, hm, rfl⟩
  exact good_switched h.toSized h.toHanded h.toFlagged (isNext_of_eq h.inRange hm)

/-! ## A refresh -/

/-- The sizes of the layouts stay. -/
theorem size_refreshed (p : Platform) (s : State) (m : ℤ) :
    (index (s.refreshed p).1 m).map (fun l => l.buttons.length) =
      (index s.tttLayouts m).map (fun l => l.buttons.length) := by
  have h := sizes_eq_of_fills (fills_refresh p (s.update p) s.tttLayouts)
  have h' := congrArg (fun sizes => index sizes m) h
  simp only [Lua.index_map] at h'
  exact h'

/-- A layout after the refresh and the one it comes from. -/
theorem exists_before_refresh {l : Layout} {m : ℤ} (hl : index (s.refreshed p).1 m = some l) :
    ∃ l', index s.tttLayouts m = some l' ∧ l'.buttons.length = l.buttons.length := by
  have h := size_refreshed p s m
  rw [hl, Option.map_some] at h
  exact Option.map_eq_some_iff.1 h.symm

theorem sized_afterRefresh (h : Sized p s) (log : List Effect) : Sized p (s.afterRefresh p log) where
  known := by
    intro l hl
    obtain ⟨m, hm⟩ := Lua.index_of_mem hl
    obtain ⟨l', hl', hsize⟩ := exists_before_refresh hm
    rw [← hsize]
    exact h.known l' (Lua.mem_of_index hl')
  inRange := inRange_afterRefresh h.inRange log
  type := by
    intro l hl
    obtain ⟨l', hl', hsize⟩ := exists_before_refresh hl
    rw [← hsize]
    exact h.type l' hl'
  blank := blank_refresh h.blank

theorem handed_afterRefresh {log : List Effect} (h : Handed n s) (hlog : focusMessages log = focusMessages s.log) :
    Handed n (s.afterRefresh p log) := by
  have hh := handed_log log h hlog
  exact ⟨hh.focus, hh.registered, hh.container, hh.balance, hh.sent⟩

theorem noneVisible_of_hidden {layouts : List Layout} (h : ∀ l ∈ layouts, l.bVisible = false) :
    NoneVisible layouts := by
  intro i hi
  obtain ⟨l, hl, hv⟩ := Option.map_eq_some_iff.1 hi
  rw [h l (Lua.mem_of_index hl)] at hv
  simp at hv

theorem flagged_afterRefresh (h : Sized p s) (log : List Effect) : Flagged p (s.afterRefresh p log) where
  disabled := by
    intro hoff
    have hen : (s.update p).bEnabled = false := hoff
    have hfill : (s.update p).bUseFill = false := by
      have hdef : (s.update p).bUseFill =
          (s.bUseFill && !(s.update p).bInvert && (s.update p).bEnabled) := rfl
      rw [hdef, hen, Bool.and_false]
    exact ⟨disabled_refresh hen hfill h.blank, noneVisible_of_hidden (hidden_refresh hen hfill h.blank)⟩
  toggle := by
    intro hbutton
    have hcount : (s.refreshed p).2 = countVisible (s.refreshed p).1 := refresh_count p _ _
    show (if p.pToggleButton.isSome then decide (1 < (s.refreshed p).2) else s.toggleEnabled) = true ↔
      1 < countVisible (s.refreshed p).1
    rw [if_pos hbutton, hcount, decide_eq_true_iff]

theorem Sized.complete (h : Sized p s) : Complete p s := by
  obtain ⟨l, hl⟩ := h.inRange.exists_layout
  exact ⟨l, hl, h.type l hl⟩

/-- No button of a complete layout is missing. -/
theorem Complete.not_missing (h : Complete p s) : ¬ Missing p s := by
  obtain ⟨l, hl, hsize⟩ := h
  rintro ⟨c, h₀, hc, hnone⟩
  unfold State.buttonDef? at hnone
  rw [hl, Option.bind_some, Lua.index_eq_none] at hnone
  omega

theorem not_missing (h : Sized p s) : ¬ Missing p s := h.complete.not_missing

/-- The button a cursor is put on is enabled if the speller is. -/
theorem Placed.exists_button {c : ℤ} (h : Placed p s c) :
    ∃ d, s.buttonDef? c = some d ∧ (s.bEnabled = true → d.bEnabled = true) := by
  obtain ⟨-, -, d, hd, hon⟩ := h
  refine ⟨d, hd, fun hen => ?_⟩
  rcases hon with hon | hoff
  · exact hon
  · simp [hen] at hoff

/-- The cursor is on the button it was put on. -/
theorem good_placed {c : ℤ} (h₁ : Sized p s) (h₂ : Handed n { s with nCursor := some c }) (h₃ : Flagged p s)
    (hplaced : Placed p s c)
    (hv : visibleAt s.tttLayouts s.nLayout = some true ∨ NoneVisible s.tttLayouts) :
    Good p n { s with nCursor := some c } := by
  refine ⟨⟨h₁.known, h₁.inRange, h₁.type, h₁.blank⟩, h₂, ⟨h₃.disabled, h₃.toggle⟩, ?_, hv⟩
  intro c' hc'
  simp only [Option.some.injEq] at hc'
  subst hc'
  exact hplaced.exists_button

theorem good_handOver (h₁ : Sized p s) (h₂ : Handed n s) (h₃ : Flagged p s) (hf : s.bGotFocus = true)
    (hv : visibleAt s.tttLayouts s.nLayout = some true ∨ NoneVisible s.tttLayouts) (code : ℕ) :
    Good p n (s.handOver code) := by
  have hshape := handOver_shape s code
  simp only [State.shape, Prod.mk.injEq] at hshape
  apply good_unfocused (sized_congr h₁ (handOver_shape s code)) (handed_handOver h₂ hf code)
  · exact flagged_congr h₃ (handOver_flags s code) hshape.1
  · exact handOver_bGotFocus s code
  · rw [hshape.1, hshape.2.1]
    exact hv

theorem keepFocus_good (h₁ : Sized p s) (h₂ : Handed n s) (h₃ : Flagged p s)
    (hv : visibleAt s.tttLayouts s.nLayout = some true ∨ NoneVisible s.tttLayouts) :
    wp (keepFocus p) (fun _ s' => Good p n s') (fun _ s' => Good p n s') s := by
  cases hf : s.bGotFocus with
  | false =>
    rw [keepFocus_unfocused hf]
    exact good_unfocused h₁ h₂ h₃ hf hv
  | true =>
    apply wp_mono (keepFocus_focused hf)
    · rintro _ s' (⟨c, hplaced, rfl⟩ | rfl)
      · apply good_placed h₁ _ h₃ hplaced hv
        exact ⟨by rw [hf]; rfl, h₂.registered, h₂.container, h₂.balance, h₂.sent⟩
      · exact good_handOver h₁ h₂ h₃ hf hv 1
    · rintro e s' ⟨-, hmissing, -⟩
      exact absurd hmissing (not_missing h₁)

/-- **`updateEnabled`** makes the state good: it needs neither the old flags nor the old cursor. -/
theorem updateEnabled_good (h₁ : Sized p s) (h₂ : Handed n s) :
    wp (updateEnabled p) (fun _ s' => Good p n s') (fun _ s' => Good p n s') s := by
  apply updateEnabled_wp h₁.inRange
  · intro log m hlog hhides hm
    have hin := (sized_afterRefresh (p := p) h₁ log).inRange
    have hgood : Good p n ((s.afterRefresh p log).switched p m) :=
      good_switched (sized_afterRefresh h₁ log) (handed_afterRefresh h₂ hlog) (flagged_afterRefresh h₁ log)
        (isNext_of_eq hin hm)
    rw [keepFocus_unfocused (switched_bGotFocus _ m)]
    exact hgood
  · intro log hlog hstay
    apply keepFocus_good (sized_afterRefresh h₁ log) (handed_afterRefresh h₂ hlog) (flagged_afterRefresh h₁ log)
    -- the current layout is visible, or the speller is disabled and none is
    by_cases hen : (s.update p).bEnabled = true
    · obtain ⟨b, hb⟩ := visibleAt_isSome (sized_afterRefresh (p := p) h₁ log).inRange.1
        (sized_afterRefresh (p := p) h₁ log).inRange.2
      cases b with
      | true => exact .inl hb
      | false => exact absurd ⟨hen, hb⟩ hstay
    · exact .inr ((flagged_afterRefresh h₁ log).disabled (by simpa [State.afterRefresh] using hen)).2

/-! ## The messages -/

theorem onMove_good (h : Good p n s) (nMove : ℤ) :
    wp (onMove p nMove) (fun _ s' => Good p n s') (fun _ s' => Good p n s') s := by
  unfold onMove
  simp only [wp_bind, Lua.wp_get, wp_when]
  refine ⟨fun hcursor => ?_, fun _ => h⟩
  obtain ⟨c, hc⟩ := Option.isSome_iff_exists.1 hcursor
  obtain ⟨l, hl⟩ := h.inRange.exists_layout
  have hsize := h.type l hl
  have hdef : ∀ i, s.buttonDef? i = index l.buttons i := by
    intro i
    unfold State.buttonDef?
    rw [hl, Option.bind_some]
  obtain ⟨d, hd, -⟩ := h.cursor c hc
  rw [hdef] at hd
  apply wp_mono (moveCursor_wp hl hsize hc (Lua.bounds_of_index hd) nMove) _ (fun _ _ h => h.elim)
  rintro _ s' (rfl | ⟨c', d', hd', hon, hq⟩ | hq)
  · exact h
  · apply Good.of_quiet _ hq
    obtain ⟨h₀, hlen⟩ := Lua.bounds_of_index hd'
    apply good_placed h.toSized _ h.toFlagged ⟨h₀, by omega, d', by rw [hdef, hd'], .inl hon⟩ h.visible
    refine ⟨?_, h.registered, h.container, h.balance, h.sent⟩
    rw [h.focused hc]
    rfl
  · exact (good_handOver h.toSized h.toHanded h.toFlagged (h.focused hc) h.visible 1).of_quiet hq

/-- The focus is handed to a speller that finds a button for the cursor. -/
theorem good_focusGained {c : ℤ} (h : Good p n s) (hf : s.bGotFocus = false)
    (hlink : s.pButtonContainer.isSome) (hplaced : Placed p s c) :
    Good p (n + 1) (focusGained { s with nCursor := some c }) := by
  have heq : focusGained { s with nCursor := some c } = { s with
      nCursor := some c
      bGotFocus := true
      registered := (focusGained { s with nCursor := some c }).registered } := focusGained_eq _ hf
  have hreg : ∀ e ∈ hkMain, e ∈ (focusGained { s with nCursor := some c }).registered := by
    intro e he
    rw [mem_focusGained]
    · exact .inl he
    · exact hf
  have hbal := h.balance
  rw [hf] at hbal
  rw [heq]
  refine ⟨⟨h.known, h.inRange, h.type, h.blank⟩, ⟨by rfl, ?_, fun _ => hlink, ?_, h.sent⟩,
    ⟨h.disabled, h.toggle⟩, ?_, h.visible⟩
  · intro e he
    simp [hreg e he]
  · show (focusMessages s.log).length + 1 = n + 1
    rw [← hbal]
    rfl
  · intro c' hc'
    simp only [Option.some.injEq] at hc'
    subst hc'
    exact hplaced.exists_button

/-- The focus is bounced: one message for the one that came. -/
theorem good_bounced {link : Link} (h : Good p n s) (hf : s.bGotFocus = false)
    (hlink : s.pButtonContainer = some link) (code : ℕ) :
    Good p (n + 1) { s with nCursor := none, log := s.log ++ [.sendFocus s.pButtonContainer code] } := by
  have hlog : focusMessages (s.log ++ [.sendFocus s.pButtonContainer code]) =
      focusMessages s.log ++ [.sendFocus (some link) code] := by
    simp [focusMessages, Effect.isFocus, hlink]
  have hbal := h.balance
  rw [hf] at hbal
  refine good_unfocused ⟨h.known, h.inRange, h.type, h.blank⟩
    ⟨hf, h.registered, fun _ => ?_, ?_, ?_⟩ ⟨h.disabled, h.toggle⟩ hf h.visible
  · show s.pButtonContainer.isSome
    rw [hlink]
    rfl
  · show (focusMessages (s.log ++ _)).length + (if s.bGotFocus then 1 else 0) = n + 1
    rw [hlog, hf, List.length_append, ← hbal]
    rfl
  · show ∀ e ∈ focusMessages (s.log ++ _), _
    rw [hlog]
    intro e he
    rcases List.mem_append.1 he with he | he
    · exact h.sent e he
    · exact ⟨link, code, List.mem_singleton.1 he⟩

/-- The request brings the link of the container. -/
theorem good_linked (h : Good p n s) (link : Link) : Good p n { s with pButtonContainer := some link } :=
  ⟨⟨h.known, h.inRange, h.type, h.blank⟩, ⟨h.focus, h.registered, fun _ => by rfl, h.balance, h.sent⟩,
    ⟨h.disabled, h.toggle⟩, h.cursor, h.visible⟩

theorem onSetFocus_good (h : Good p n s) (link : Link) {param2 : Param} {k : ℤ}
    (hk : param2.number? = some k) :
    wp (onSetFocus p link param2) (fun _ s' => Good p (n + if s.bGotFocus then 0 else 1) s')
      (fun _ s' => Good p (n + if s.bGotFocus then 0 else 1) s') s := by
  have hlinked := good_linked h link
  unfold onSetFocus
  simp only [wp_bind, Lua.wp_get, Lua.wp_modify, wp_when, hk, Lua.orRaise_some, Lua.wp_pure]
  constructor
  · intro hf
    rw [if_neg (by simp [hf])]
    apply wp_mono (repositionCursor_wp _)
    · rintro found s' (⟨rfl, rfl⟩ | ⟨rfl, c, hplaced, rfl⟩)
      · exact good_bounced hlinked hf rfl 2
      · have hgood := good_focusGained hlinked hf rfl hplaced
        have heq := focusGained_eq { s with pButtonContainer := some link, nCursor := some c } hf
        have hcursor : (focusGained { s with pButtonContainer := some link, nCursor := some c }).nCursor = some c := by
          rw [heq]
        simp only [wp_ite, wp_bind, Lua.wp_get, Lua.wp_modify, hcursor, Lua.orRaise_some, Lua.wp_pure,
          true_implies, not_true_eq_false, false_implies, and_true]
        apply wp_mono (Lua.wp_of_keeps (quiet_of_calm (invalidateButton_calm c)) _)
        · exact fun _ _ hq => hgood.of_quiet hq
        · exact fun _ _ hq => hgood.of_quiet hq
    · rintro e s' ⟨-, hmissing, -⟩
      exact absurd hmissing (not_missing hlinked.toSized)
  · intro hf
    rw [if_pos (by simpa using hf), Nat.add_zero]
    exact hlinked

/-- The event is a focus request with the link of a button container. -/
def Event.isRequest : Event → Bool
  | .onMessage m => m.eventid == .WIDGET_SETFOCUS && m.param1.link?.isSome
  | _ => false

/-- 1 if the event hands the focus to the speller, which does not have it. -/
def handedOver (e : Event) (s : State) : ℕ := if e.isRequest ∧ s.bGotFocus = false then 1 else 0

/-- The invariant, with the count the event moves it to, whatever the outcome of the handler. -/
abbrev Keep (p : Platform) (n : ℕ) {α : Type} (x : Prog α) (s : State) : Prop :=
  wp x (fun _ s' => Good p n s') (fun _ s' => Good p n s') s

/-- What a function keeps, it keeps with more effects after it. -/
theorem keep_bind {α β : Type} {x : Prog α} {f : α → Prog β} (hx : Keep p n x s)
    (hf : ∀ a, Keeps State.quiet (f a)) : Keep p n (x >>= f) s := by
  unfold Keep
  rw [wp_bind]
  exact wp_mono hx (fun a _ h => good_of_keeps (hf a) h) (fun _ _ h => h)

theorem onEntryFieldEmpty_good (h : Good p n s) (param2 : Param) : Keep p n (onEntryFieldEmpty p param2) s := by
  unfold onEntryFieldEmpty Keep
  rw [wp_bind, Lua.wp_modify]
  apply keep_bind _ fun _ => quiet_of_calm (emit_calm rfl)
  exact updateEnabled_good ⟨h.known, h.inRange, h.type, h.blank⟩
    ⟨h.focus, h.registered, h.container, h.balance, h.sent⟩

/-- The button pressed by `HK_MAIN_PRESS` does not matter to the invariant. -/
theorem onMainPress_good (h : Good p n s) (param1 : Param) : Keep p n (onMainPress p param1) s := by
  unfold onMainPress Keep
  rw [wp_bind, Lua.wp_modify]
  exact good_of_keeps (quiet_of_calm (press_calm param1)) (h.of_quiet rfl)

theorem onMessage_good (h : Good p n s) (m : Message) :
    Keep p (n + handedOver (.onMessage m) s) (onMessage p m.eventid m.param1 m.param2) s := by
  have hdone : ∀ k : ℕ, ∀ u : Unit, Keeps State.quiet (pure k : Prog ℕ) := fun k _ => keeps_pure k
  by_cases hm : m.eventid = .WIDGET_SETFOCUS
  · -- a focus request, or a message of that kind without a link
    rw [hm]
    refine keep_bind ?_ (hdone 0)
    unfold onSetFocusMessage
    cases hlink : m.param1.link? with
    | none =>
      have hzero : handedOver (.onMessage m) s = 0 := by simp [handedOver, Event.isRequest, hlink]
      rw [hzero]
      exact h
    | some link =>
      have hcount : handedOver (.onMessage m) s = if s.bGotFocus then 0 else 1 := by
        cases hf : s.bGotFocus <;> simp [handedOver, Event.isRequest, hlink, hm, hf]
      rw [hcount]
      rcases m.direction hm (by simp [hlink]) with hk | hk
      · rw [hk]
        exact onSetFocus_good h link rfl
      · rw [hk]
        exact onSetFocus_good h link rfl
  · have hzero : handedOver (.onMessage m) s = 0 := by simp [handedOver, Event.isRequest, hm]
    rw [hzero, Nat.add_zero]
    unfold onMessage
    cases hid : m.eventid with
    | HK_MAIN_NEG => exact keep_bind (onMove_good h _) (hdone 1)
    | HK_MAIN_POS => exact keep_bind (onMove_good h _) (hdone 1)
    | HK_MAIN_PRESS => exact keep_bind (onMainPress_good h m.param1) (hdone 1)
    | HK_MAIN_LONG => exact keep_bind (good_of_keeps (quiet_of_calm (press_calm _)) h) (hdone 1)
    | HK_MAIN_REPEAT => exact keep_bind (good_of_keeps (quiet_of_calm (press_calm _)) h) (hdone 1)
    | HK_MAIN_SHORT => exact keep_bind (good_of_keeps (quiet_of_calm (press_calm _)) h) (hdone 1)
    | HK_MAIN_RELEASE => exact keep_bind (good_of_keeps (quiet_of_calm (press_calm _)) h) (hdone 1)
    | WIDGET_SETFOCUS => exact absurd hid hm
    | WIDGET_VIEW_CHANGE => exact keep_bind (good_of_keeps (quiet_of_calm onViewChange_calm) h) (hdone 0)
    | WIDGET_ENTRYFIELD_EMPTY => exact keep_bind (onEntryFieldEmpty_good h _) (hdone 1)
    | app id =>
      unfold Keep
      rw [wp_ite]
      constructor
      · intro _
        refine keep_bind ?_ (hdone 1)
        exact keep_bind (switchLayout_good h) fun _ => quiet_of_calm (emit_calm rfl)
      · exact fun _ => h

theorem handle_good (h : Good p n s) (e : Event) : Keep p (n + handedOver e s) (handle p e) s := by
  cases e with
  | changeProps props =>
    exact ⟨⟨h.known, h.inRange, h.type, h.blank⟩, ⟨h.focus, h.registered, h.container, h.balance, h.sent⟩,
      ⟨h.disabled, h.toggle⟩, h.cursor, h.visible⟩
  | onDataUpdate nUserId =>
    exact keep_bind (updateEnabled_good h.toSized h.toHanded) fun _ => quiet_of_calm (emit_calm rfl)
  | onMessage m => exact keep_bind (onMessage_good h m) fun _ => keeps_pure _
  | isInTouchArea wx wy cx cy =>
    exact keep_bind (good_of_keeps (isInTouchArea_quiet wx wy cx cy) h) fun _ => keeps_pure _
  | onTouch duration x y => exact good_of_keeps (quiet_of_calm (onTouch_calm duration x y)) h
  | preDraw x y => exact good_of_keeps (quiet_of_calm (preDraw_calm x y)) h

/-! ## Runs -/

/-- One event keeps the invariant and its account of the focus. -/
theorem step_good (e : Event) (s s' : State) (n : ℕ) (h : Good p n s) (hs : step p e s = some s') :
    Good p (n + handedOver e s) s' := by
  rw [← Option.some.inj hs]
  exact Lua.state_of_wp (handle_good h e)

theorem mem_hkMain_ne {e : EventId} (h : e ∈ hkMain) : e ≠ .WIDGET_VIEW_CHANGE ∧ ∀ id, e ≠ .app id := by
  unfold hkMain at h
  simp only [List.mem_cons, List.not_mem_nil, or_false] at h
  rcases h with rfl | rfl | rfl | rfl | rfl | rfl | rfl <;> simp

theorem sized_initial (hp : WellSized p) (props : Props) : Sized p (initial p props) := by
  have hlen : (1 : ℤ) ≤ (buildLayoutTable p).length := by simp [buildLayoutTable, Lua.upTo]
  refine ⟨fun l hl => match_isSome.2 (hp l hl), ⟨le_rfl, hlen⟩, ?_, ?_⟩
  · intro l hl
    exact typeAt_spec hl (match_isSome.2 (hp l (Lua.mem_of_index hl)))
  · intro l hl d hd
    have hl' : l ∈ buildLayoutTable p := hl
    unfold buildLayoutTable at hl'
    obtain ⟨i, -, rfl⟩ := List.mem_map.1 hl'
    obtain ⟨code, -, rfl⟩ := List.mem_map.1 hd
    exact fun _ _ => newButton_bEnabled p code

theorem handed_initial (p : Platform) (props : Props) : Handed 0 (initial p props) := by
  refine ⟨by rfl, ?_, fun h => by simp [initial] at h, by rfl, ?_⟩
  · intro e he
    obtain ⟨hview, happ⟩ := mem_hkMain_ne he
    have hreg : e ∉ (initial p props).registered := by
      unfold initial Platform.nToggleLayoutEvent
      by_cases hid : p.IN_EVENT_toggle_layout.getD 0 &&& 0xFFFF = 0 <;> simp [hid, hview, happ]
    have hf : (initial p props).bGotFocus = false := by rfl
    simp [hreg, hf]
  · intro e he
    have hnone : focusMessages (initial p props).log = [] := by rfl
    rw [hnone] at he
    simp at he

theorem good_constructor (hp : WellSized p) (props : Props) : Good p 0 (constructor p props) :=
  Lua.state_of_wp (updateEnabled_good (sized_initial hp props) (handed_initial p props))

/-- **Every state between two handlers is good.** -/
theorem good_run (hp : WellSized p) {props : Props} {es : List Event}
    (h : Run.exec (step p) es (constructor p props) = some s) :
    Good p (Run.count (step p) handedOver es (constructor p props)) s := by
  have hrun := Run.counted step_good (good_constructor hp props) h
  rwa [Nat.zero_add] at hrun

end Speller
