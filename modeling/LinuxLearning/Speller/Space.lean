import LinuxLearning.Speller.Moves
import LinuxLearning.Speller.Focus
/-!
# The space bar and the entry field

`ENTRYFIELD_EMPTY` switches the space bar off while the entry field is empty: the first pass of
`updateEnabled` enables a space only with `bSpaceBtnEnabled` (`:690-692`). The second pass gives letters that
no button has to the fill buttons and enables them without this test (`:696-712`), so a letter string with a
space can put an enabled space on a fill button.

* `Gated` — a space is enabled only if the entry field is not empty;
* `SpaceFills` — the second pass comes to the space: no static button has it, and there are fill buttons left;
* `refresh_spaceOff` — a refresh with the space bar off leaves an enabled space if and only if `SpaceFills`;
* `space_law` — a run is gated if and only if no refresh with the space bar off comes to the space.
-/

namespace Speller

variable {p : Platform} {props : Props} {es : List Event} {s s' : State} {u : Update}

/-- A space is not enabled. -/
def SpaceOff (d : ButtonDef) : Prop := d.nCharacter = nSpace → d.bEnabled = false

/-- Letter `c` is on a button that is no fill button. -/
def Static (layouts : List Layout) (c : ℕ) : Prop :=
  ∃ l ∈ layouts, ∃ d ∈ l.buttons, d.bFill = false ∧ d.nCharacter = c ∧ c ≠ 0

instance (layouts : List Layout) (c : ℕ) : Decidable (Static layouts c) := by
  unfold Static
  infer_instance

/-- The letters before the first space. -/
def beforeSpace (tCharacters : List ℕ) : Finset ℕ := (tCharacters.takeWhile (· ≠ nSpace)).toFinset

/-- The number of fill buttons. -/
def numFill (layouts : List Layout) : ℕ := (layouts.map fun l => l.buttons.countP ButtonDef.bFill).sum

/-- The second pass gives the space a fill button: it is among the letters, no static button has it, and the
letters before it that need a fill button leave one. -/
def SpaceFills (u : Update) (layouts : List Layout) : Prop :=
  u.bUseFill = true ∧ nSpace ∈ u.tCharacters ∧ ¬ Static layouts nSpace ∧
    ((beforeSpace u.tCharacters).filter fun c => ¬ Static layouts c).card < numFill layouts

instance (u : Update) (layouts : List Layout) : Decidable (SpaceFills u layouts) := by
  unfold SpaceFills
  infer_instance

/-- The state in which the event refreshes the flags, if it does. -/
def refreshesFrom : Event → State → Option State
  | .onDataUpdate _, s => some s
  | .onMessage m, s => match m.eventid with
    | .WIDGET_ENTRYFIELD_EMPTY => some { s with bSpaceBtnEnabled := m.param2 != .number 1 }
    | _ => none
  | _, _ => none

theorem refreshesFrom_cases {e : Event} {s t : State} (h : refreshesFrom e s = some t) :
    (∃ nUserId, e = .onDataUpdate nUserId ∧ t = s) ∨ ∃ m, e = .onMessage m ∧
      m.eventid = .WIDGET_ENTRYFIELD_EMPTY ∧ t = { s with bSpaceBtnEnabled := m.param2 != .number 1 } := by
  cases e with
  | onDataUpdate nUserId =>
    cases h
    exact .inl ⟨nUserId, rfl, rfl⟩
  | onMessage m =>
    unfold refreshesFrom at h
    dsimp only at h
    cases hid : m.eventid with
    | WIDGET_ENTRYFIELD_EMPTY =>
      rw [hid] at h
      cases h
      exact .inr ⟨m, rfl, hid, rfl⟩
    | _ => simp [hid] at h
  | _ => cases h

/-- A space is enabled only if the space bar is. -/
def Gated (s : State) : Prop :=
  ∀ l ∈ s.tttLayouts, ∀ d ∈ l.buttons, d.nCharacter = nSpace → d.bEnabled = true → s.bSpaceBtnEnabled = true

/-- If the event refreshes the flags with the space bar off, the space gets no fill button. -/
def Withholds (p : Platform) (e : Event) (s : State) : Prop :=
  ∀ t, refreshesFrom e s = some t → t.bSpaceBtnEnabled = false → ¬ SpaceFills (t.update p) t.tttLayouts

/-- What the event says about the entry field: whether it is not empty. -/
def Event.report? : Event → Option Bool
  | .onMessage m => match m.eventid with
    | .WIDGET_ENTRYFIELD_EMPTY => some (m.param2 != .number 1)
    | _ => none
  | _ => none

/-- What the last report says; without one the field counts as empty. -/
def lastReport (es : List Event) : Bool := ((es.filterMap Event.report?).getLast?).getD false

/-! ## The first pass -/

/-- The letter of a static button is used, if it is among the letters. -/
theorem setDefined_snd {used : Used} {d : ButtonDef} : (setDefined u used d).2 =
    if d.bFill = false ∧ d.nCharacter ≠ 0 ∧ used d.nCharacter ≠ none then
      Function.update used d.nCharacter (some true)
    else used := by
  unfold setDefined
  split_ifs <;> simp_all

theorem setDefined_used {used : Used} {d : ButtonDef} {c : ℕ} :
    (setDefined u used d).2 c = some true ↔
      used c = some true ∨ used c ≠ none ∧ d.bFill = false ∧ d.nCharacter = c ∧ c ≠ 0 := by
  rw [setDefined_snd]
  by_cases hset : d.bFill = false ∧ d.nCharacter ≠ 0 ∧ used d.nCharacter ≠ none
  · rw [if_pos hset]
    by_cases hc : c = d.nCharacter
    · subst hc
      simp [hset]
    · rw [Function.update_of_ne hc]
      have hne : d.nCharacter ≠ c := fun h => hc h.symm
      simp [hne]
  · rw [if_neg hset]
    constructor
    · exact .inl
    · rintro (h | ⟨hused, hfill, rfl, hzero⟩)
      · exact h
      · exact absurd ⟨hfill, hzero, hused⟩ hset

theorem setDefined_none {used : Used} {d : ButtonDef} {c : ℕ} :
    (setDefined u used d).2 c = none ↔ used c = none := by
  rw [setDefined_snd]
  by_cases hset : d.bFill = false ∧ d.nCharacter ≠ 0 ∧ used d.nCharacter ≠ none
  · rw [if_pos hset]
    by_cases hc : c = d.nCharacter
    · subst hc
      simp [hset.2.2]
    · rw [Function.update_of_ne hc]
  · rw [if_neg hset]

/-- After the first pass the letters of the static buttons are used. -/
theorem setButtons_used {l b : ℕ} {ds : List ButtonDef} {a : Used × List Ref} {c : ℕ} :
    ((setButtons u l b ds a).2.1 c = some true ↔ a.1 c = some true ∨
      a.1 c ≠ none ∧ ∃ d ∈ ds, d.bFill = false ∧ d.nCharacter = c ∧ c ≠ 0) ∧
    ((setButtons u l b ds a).2.1 c = none ↔ a.1 c = none) := by
  induction ds generalizing b a with
  | nil => simp [setButtons]
  | cons d ds ih =>
    obtain ⟨used, refs⟩ := a
    unfold setButtons
    obtain ⟨htrue, hnone⟩ := ih (b := b + 1) (a := ((setButton u used d).2,
      if d.bFill && u.bUseFill then refs ++ [(l, b)] else refs))
    have hset : (setButton u used d).2 = (setDefined u used d).2 := rfl
    rw [hset] at htrue hnone
    simp only [hset, htrue, hnone, ne_eq, setDefined_none, setDefined_used, List.mem_cons, exists_eq_or_imp,
      and_true]
    rw [and_or_left, or_assoc]

theorem setLayouts_used {l : ℕ} {layouts : List Layout} {a : Used × List Ref} {c : ℕ} :
    ((setLayouts u l layouts a).2.1 c = some true ↔ a.1 c = some true ∨ a.1 c ≠ none ∧ Static layouts c) ∧
    ((setLayouts u l layouts a).2.1 c = none ↔ a.1 c = none) := by
  induction layouts generalizing l a with
  | nil => simp [setLayouts, Static]
  | cons ttLayout rest ih =>
    unfold setLayouts
    obtain ⟨htrue, hnone⟩ := ih (l := l + 1) (a := (setButtons u l 0 ttLayout.buttons a).2)
    obtain ⟨htrue₁, hnone₁⟩ := @setButtons_used u l 0 ttLayout.buttons a c
    have hstatic : Static (ttLayout :: rest) c ↔
        (∃ d ∈ ttLayout.buttons, d.bFill = false ∧ d.nCharacter = c ∧ c ≠ 0) ∨ Static rest c := by
      unfold Static
      simp only [List.mem_cons, exists_eq_or_imp]
    simp only [htrue, hnone, htrue₁, hnone₁, hstatic, ne_eq, and_true]
    rw [and_or_left, or_assoc]

/-- The places of the fill buttons, from button `b` of layout `l` on. -/
def buttonRefs (l : ℕ) : ℕ → List ButtonDef → List Ref
  | _, [] => []
  | b, d :: ds => if d.bFill then (l, b) :: buttonRefs l (b + 1) ds else buttonRefs l (b + 1) ds

def layoutRefs : ℕ → List Layout → List Ref
  | _, [] => []
  | l, ttLayout :: rest => buttonRefs l 0 ttLayout.buttons ++ layoutRefs (l + 1) rest

theorem setButtons_buttonRefs (hu : u.bUseFill = true) {l b : ℕ} {ds : List ButtonDef} {used : Used}
    {refs : List Ref} : (setButtons u l b ds (used, refs)).2.2 = refs ++ buttonRefs l b ds := by
  induction ds generalizing b used refs with
  | nil => simp [setButtons, buttonRefs]
  | cons d ds ih =>
    unfold setButtons buttonRefs
    rw [ih]
    by_cases hfill : d.bFill
    · simp [hfill, hu]
    · simp [hfill]

theorem setLayouts_layoutRefs (hu : u.bUseFill = true) {l : ℕ} {layouts : List Layout}
    {a : Used × List Ref} : (setLayouts u l layouts a).2.2 = a.2 ++ layoutRefs l layouts := by
  induction layouts generalizing l a with
  | nil => simp [setLayouts, layoutRefs]
  | cons ttLayout rest ih =>
    obtain ⟨used, refs⟩ := a
    unfold setLayouts layoutRefs
    rw [ih, setButtons_buttonRefs hu, List.append_assoc]

theorem mem_buttonRefs {l b : ℕ} {ds : List ButtonDef} {r : Ref} (h : r ∈ buttonRefs l b ds) :
    r.1 = l ∧ b ≤ r.2 := by
  induction ds generalizing b with
  | nil => simp [buttonRefs] at h
  | cons d ds ih =>
    unfold buttonRefs at h
    by_cases hfill : d.bFill
    · simp only [hfill, if_true, List.mem_cons] at h
      rcases h with rfl | h
      · exact ⟨rfl, le_rfl⟩
      · exact ⟨(ih h).1, by have := (ih h).2; omega⟩
    · simp only [hfill] at h
      exact ⟨(ih h).1, by have := (ih h).2; omega⟩

theorem mem_layoutRefs {l : ℕ} {layouts : List Layout} {r : Ref} (h : r ∈ layoutRefs l layouts) : l ≤ r.1 := by
  induction layouts generalizing l with
  | nil => simp [layoutRefs] at h
  | cons ttLayout rest ih =>
    unfold layoutRefs at h
    rcases List.mem_append.1 h with h | h
    · exact (mem_buttonRefs h).1.ge
    · have hle := ih h
      omega

theorem nodup_buttonRefs (l b : ℕ) (ds : List ButtonDef) : (buttonRefs l b ds).Nodup := by
  induction ds generalizing b with
  | nil => simp [buttonRefs]
  | cons d ds ih =>
    unfold buttonRefs
    by_cases hfill : d.bFill
    · rw [if_pos hfill, List.nodup_cons]
      refine ⟨fun h => ?_, ih (b + 1)⟩
      have hle : b + 1 ≤ b := (mem_buttonRefs h).2
      omega
    · rw [if_neg hfill]
      exact ih (b + 1)

/-- Every fill button is collected once. -/
theorem nodup_layoutRefs (l : ℕ) (layouts : List Layout) : (layoutRefs l layouts).Nodup := by
  induction layouts generalizing l with
  | nil => simp [layoutRefs]
  | cons ttLayout rest ih =>
    unfold layoutRefs
    rw [List.nodup_append']
    refine ⟨nodup_buttonRefs l 0 _, ih (l + 1), ?_⟩
    intro r h h'
    have hl := (mem_buttonRefs h).1
    have hle := mem_layoutRefs h'
    omega

theorem length_buttonRefs (l b : ℕ) (ds : List ButtonDef) :
    (buttonRefs l b ds).length = ds.countP ButtonDef.bFill := by
  induction ds generalizing b with
  | nil => simp [buttonRefs]
  | cons d ds ih =>
    unfold buttonRefs
    rw [List.countP_cons]
    by_cases hfill : d.bFill
    · simp [hfill, ih]
    · simp [hfill, ih]

theorem length_layoutRefs (l : ℕ) (layouts : List Layout) : (layoutRefs l layouts).length = numFill layouts := by
  induction layouts generalizing l with
  | nil => rfl
  | cons ttLayout rest ih =>
    unfold layoutRefs
    rw [List.length_append, length_buttonRefs, ih]
    rfl

/-! ## The second pass -/

/-- The button at a place. -/
def buttonAt? (layouts : List Layout) (r : Ref) : Option ButtonDef :=
  (layouts[r.1]?).bind fun l => l.buttons[r.2]?

theorem buttonAt?_writeAt {layouts : List Layout} {r r' : Ref} {f : ButtonDef → ButtonDef} :
    buttonAt? (writeAt r f layouts) r' =
      if r = r' then (buttonAt? layouts r').map f else buttonAt? layouts r' := by
  unfold buttonAt? writeAt
  rw [List.getElem?_modify]
  cases hl : layouts[r'.1]? with
  | none => simp
  | some l =>
    by_cases hlayout : r.1 = r'.1
    · by_cases hbutton : r.2 = r'.2
      · have hr : r = r' := Prod.ext hlayout hbutton
        subst hr
        simp
      · have hr : r ≠ r' := fun h => hbutton (congrArg Prod.snd h)
        simp [hlayout, hr, hbutton]
    · have hr : r ≠ r' := fun h => hlayout (congrArg Prod.fst h)
      simp [hlayout, hr]

theorem mem_of_buttonAt? {layouts : List Layout} {r : Ref} {d : ButtonDef} (h : buttonAt? layouts r = some d) :
    ∃ l ∈ layouts, d ∈ l.buttons := by
  obtain ⟨l, hl, hd⟩ := Option.bind_eq_some_iff.1 h
  exact ⟨l, List.mem_of_getElem? hl, List.mem_of_getElem? hd⟩

theorem exists_of_isFill {layouts : List Layout} {r : Ref} (h : IsFill layouts r) :
    ∃ d, buttonAt? layouts r = some d := by
  obtain ⟨bs, hbs, hb⟩ := h
  unfold fills at hbs
  rw [List.getElem?_map] at hbs
  obtain ⟨l, hl, rfl⟩ := Option.map_eq_some_iff.1 hbs
  rw [List.getElem?_map] at hb
  obtain ⟨d, hd, -⟩ := Option.map_eq_some_iff.1 hb
  exact ⟨d, by rw [buttonAt?, hl, Option.bind_some, hd]⟩

/-- The second pass writes to the collected places only. -/
theorem buttonAt?_fillButtons {cs : List ℕ} {refs : List Ref} {used : Used} {layouts : List Layout} {r : Ref}
    (hr : r ∉ refs) : buttonAt? (fillButtons p cs refs used layouts) r = buttonAt? layouts r := by
  induction cs generalizing refs used layouts with
  | nil => rfl
  | cons c cs ih =>
    unfold fillButtons
    by_cases hc : used c = some true
    · rw [if_pos hc]
      exact ih hr
    · rw [if_neg hc]
      cases refs with
      | nil => rfl
      | cons r' refs =>
        simp only [List.mem_cons, not_or] at hr
        have hne : r' ≠ r := fun h => hr.1 h.symm
        show buttonAt? (fillButtons p cs refs _ _) r = _
        rw [ih hr.2, buttonAt?_writeAt, if_neg hne]

/-- The letters before the first space that have no button yet. -/
def pending (used : Used) (cs : List ℕ) : Finset ℕ := (beforeSpace cs).filter fun c => used c ≠ some true

theorem pending_space (used : Used) (cs : List ℕ) : pending used (nSpace :: cs) = ∅ := by
  simp [pending, beforeSpace]

theorem pending_used {used : Used} {c : ℕ} (cs : List ℕ) (hc : c ≠ nSpace) (hused : used c = some true) :
    pending used (c :: cs) = pending used cs := by
  simp [pending, beforeSpace, hc, Finset.filter_insert, hused]

/-- A letter that gets a button is not pending any more. -/
theorem card_pending {used : Used} {c : ℕ} (cs : List ℕ) (hc : c ≠ nSpace) (hused : used c ≠ some true) :
    (pending used (c :: cs)).card = (pending (Function.update used c (some true)) cs).card + 1 := by
  have hinsert : pending used (c :: cs) = insert c (pending (Function.update used c (some true)) cs) := by
    ext c'
    by_cases hc' : c' = c
    · subst hc'
      simp [pending, beforeSpace, hc, hused]
    · simp [pending, beforeSpace, hc, hc']
  rw [hinsert, Finset.card_insert_of_notMem]
  simp [pending]

/-- **The second pass** from a table without an enabled space, with `refs` the fill buttons left. -/
theorem fillButtons_spaceOff {cs : List ℕ} {refs : List Ref} {used : Used} {layouts : List Layout}
    (hnodup : refs.Nodup) (hrefs : ∀ r ∈ refs, IsFill layouts r) (hoff : AllButtons SpaceOff layouts) :
    AllButtons SpaceOff (fillButtons p cs refs used layouts) ↔
      ¬ (nSpace ∈ cs ∧ used nSpace ≠ some true ∧ (pending used cs).card < refs.length) := by
  induction cs generalizing refs used layouts with
  | nil => simpa [fillButtons] using hoff
  | cons c cs ih =>
    unfold fillButtons
    by_cases hused : used c = some true
    · rw [if_pos hused, ih hnodup hrefs hoff]
      by_cases hc : c = nSpace
      · subst hc
        simp [hused]
      · have hne : nSpace ≠ c := fun h => hc h.symm
        rw [pending_used cs hc hused]
        simp [hne]
    · rw [if_neg hused]
      cases refs with
      | nil => simpa using hoff
      | cons r refs =>
        rw [List.nodup_cons] at hnodup
        obtain ⟨d, hd⟩ := exists_of_isFill (hrefs r List.mem_cons_self)
        by_cases hc : c = nSpace
        · -- the space is written, and nothing overwrites it
          subst hc
          rw [pending_space]
          simp only [List.mem_cons_self, hused, ne_eq, not_false_eq_true, Finset.card_empty,
            List.length_cons, Nat.zero_lt_succ, and_self, not_true_eq_false, iff_false]
          intro hall
          have hwritten : buttonAt? (fillButtons p cs refs (Function.update used nSpace (some true))
              (writeAt r (fun d => { d with nCharacter := nSpace, sText := p.utf8Encode nSpace, bEnabled := true })
                layouts)) r = some { d with nCharacter := nSpace, sText := p.utf8Encode nSpace, bEnabled := true } := by
            rw [buttonAt?_fillButtons hnodup.1, buttonAt?_writeAt, if_pos rfl, hd]
            rfl
          obtain ⟨l, hl, hmem⟩ := mem_of_buttonAt? hwritten
          have hfalse := hall l hl _ hmem rfl
          simp at hfalse
        · have hne : nSpace ≠ c := fun h => hc h.symm
          show AllButtons SpaceOff (fillButtons p cs refs _ _) ↔ _
          rw [ih hnodup.2, card_pending cs hc hused, Function.update_of_ne hne]
          · simp [hne]
          · intro r' hr'
            refine (isFill_writeAt ?_ layouts).2 (hrefs r' (List.mem_cons_of_mem r hr'))
            exact fun _ => rfl
          · apply writeAt_all hoff
            intro l d _ _ hspace
            exact absurd hspace hc

/-! ## The whole refresh -/

theorem setVisible_buttons {n : ℕ} {layouts : List Layout} :
    (setVisible n layouts).1.map Layout.buttons = layouts.map Layout.buttons := by
  induction layouts generalizing n with
  | nil => rfl
  | cons ttLayout rest ih =>
    unfold setVisible
    simp [ih]

theorem allButtons_congr {P : ButtonDef → Prop} {layouts layouts' : List Layout}
    (h : layouts'.map Layout.buttons = layouts.map Layout.buttons) :
    AllButtons P layouts' ↔ AllButtons P layouts := by
  have hbuttons : ∀ ls, AllButtons P ls ↔ ∀ bs ∈ ls.map Layout.buttons, ∀ d ∈ bs, P d := by
    intro ls
    simp [AllButtons]
  rw [hbuttons, hbuttons, h]

/-- The first pass switches every space off when the space bar is. -/
theorem setButton_spaceOff (hu : u.bSpaceBtnEnabled = false) (used : Used) (d : ButtonDef) :
    SpaceOff (setButton u used d).1 := by
  intro hspace
  unfold setButton at hspace ⊢
  rw [gateSpace_nCharacter] at hspace
  simp [gateSpace, hspace, hu]

/-- **A refresh with the space bar off** leaves an enabled space if and only if a fill button gets one. -/
theorem refresh_spaceOff (hu : u.bSpaceBtnEnabled = false) (layouts : List Layout) :
    AllButtons SpaceOff (refresh p u layouts).1 ↔ ¬ SpaceFills u layouts := by
  have hfirst : AllButtons SpaceOff (setLayouts u 0 layouts (unused u.tCharacters, [])).1 := by
    have hset : ∀ used d, True → SpaceOff (setButton u used d).1 := fun used d _ => setButton_spaceOff hu used d
    exact setLayouts_all hset fun _ _ _ _ => trivial
  unfold refresh
  rw [allButtons_congr setVisible_buttons]
  unfold SpaceFills
  cases huse : u.bUseFill with
  | false => simpa using hfirst
  | true =>
    have hused : ∀ c ∈ u.tCharacters,
        ((setLayouts u 0 layouts (unused u.tCharacters, [])).2.1 c = some true ↔ Static layouts c) := by
      intro c hc
      rw [setLayouts_used.1]
      simp [unused, hc]
    have hpending : pending (setLayouts u 0 layouts (unused u.tCharacters, [])).2.1 u.tCharacters =
        (beforeSpace u.tCharacters).filter fun c => ¬ Static layouts c := by
      apply Finset.filter_congr
      intro c hc
      have hmem : c ∈ u.tCharacters := (List.takeWhile_prefix _).subset (List.mem_toFinset.1 hc)
      rw [ne_eq, hused c hmem]
    simp only [if_true]
    rw [setLayouts_layoutRefs huse, List.nil_append, fillButtons_spaceOff (nodup_layoutRefs 0 layouts) _ hfirst,
      hpending, length_layoutRefs]
    · by_cases hspace : nSpace ∈ u.tCharacters
      · rw [ne_eq, hused _ hspace]
        simp
      · simp [hspace]
    · intro r hr
      rw [isFill_congr (setLayouts_fills u 0 layouts _)]
      rw [← List.nil_append (layoutRefs 0 layouts),
        ← setLayouts_layoutRefs huse (a := (unused u.tCharacters, []))] at hr
      rcases setLayouts_refs u 0 layouts _ r hr with h | ⟨k, b, bs, rfl, hk, hb⟩
      · simp at h
      · exact ⟨bs, by simpa using hk, hb⟩

/-! ## Runs -/

theorem gated_iff : Gated s ↔ (s.bSpaceBtnEnabled = false → AllButtons SpaceOff s.tttLayouts) := by
  cases hspace : s.bSpaceBtnEnabled with
  | true => simp [Gated, hspace]
  | false => simp [Gated, hspace, AllButtons, SpaceOff]

/-- What a refresh writes. -/
theorem written_refresh {e : Event} {t : State} (h : refreshesFrom e s = some t) :
    (written p e s).tttLayouts = (t.refreshed p).1 ∧ (written p e s).bSpaceBtnEnabled = t.bSpaceBtnEnabled := by
  rcases refreshesFrom_cases h with ⟨nUserId, rfl, rfl⟩ | ⟨m, rfl, hid, rfl⟩
  · exact ⟨rfl, rfl⟩
  · unfold written
    dsimp only
    rw [hid]
    exact ⟨rfl, rfl⟩

theorem written_rest {e : Event} (h : refreshesFrom e s = none) :
    (written p e s).tttLayouts = s.tttLayouts ∧ (written p e s).bSpaceBtnEnabled = s.bSpaceBtnEnabled := by
  cases e with
  | onDataUpdate nUserId => cases h
  | onMessage m =>
    unfold refreshesFrom at h
    unfold written
    dsimp only at h ⊢
    cases hid : m.eventid with
    | WIDGET_ENTRYFIELD_EMPTY => simp [hid] at h
    | _ => exact ⟨rfl, rfl⟩
  | _ => exact ⟨rfl, rfl⟩

/-- **One event** from a gated state. -/
theorem gated_step (h : InRange s) (hg : Gated s) {e : Event} (hs : step p e s = some s') :
    Gated s' ↔ Withholds p e s := by
  have hmoved := step_moved h hs
  rw [gated_iff, hmoved.tttLayouts, hmoved.bSpaceBtnEnabled]
  unfold Withholds
  cases hfrom : refreshesFrom e s with
  | none =>
    obtain ⟨htable, hspace⟩ := written_rest (p := p) hfrom
    rw [htable, hspace]
    simpa using gated_iff.1 hg
  | some t =>
    obtain ⟨htable, hspace⟩ := written_refresh (p := p) hfrom
    rw [htable, hspace]
    have hrefresh : t.bSpaceBtnEnabled = false →
        (AllButtons SpaceOff (t.refreshed p).1 ↔ ¬ SpaceFills (t.update p) t.tttLayouts) :=
      fun hoff => refresh_spaceOff hoff t.tttLayouts
    constructor
    · rintro hall _ ⟨⟩ hoff
      exact (hrefresh hoff).1 (hall hoff)
    · intro hwith hoff
      exact (hrefresh hoff).2 (hwith t rfl hoff)

theorem gated_constructor (p : Platform) (props : Props) :
    Gated (constructor p props) ↔ ¬ SpaceFills ((initial p props).update p) (buildLayoutTable p) := by
  have hmoved := constructor_moved p props
  rw [gated_iff, hmoved.tttLayouts, hmoved.bSpaceBtnEnabled]
  have hoff : ((initial p props).afterRefresh p []).bSpaceBtnEnabled = false := rfl
  rw [hoff]
  simp only [true_implies]
  exact refresh_spaceOff hoff (buildLayoutTable p)

theorem step_report (h : InRange s) {e : Event} (hs : step p e s = some s') :
    s'.bSpaceBtnEnabled = e.report?.getD s.bSpaceBtnEnabled := by
  rw [(step_moved h hs).bSpaceBtnEnabled]
  cases e with
  | onMessage m =>
    unfold written Event.report?
    dsimp only
    cases hid : m.eventid <;> rfl
  | _ => rfl

/-- The flag is what the last report says. -/
theorem run_report (h : InRange s) (hs : Run.exec (step p) es s = some s') :
    s'.bSpaceBtnEnabled = ((es.filterMap Event.report?).getLast?).getD s.bSpaceBtnEnabled := by
  induction es generalizing s with
  | nil =>
    cases hs
    rfl
  | cons e es ih =>
    obtain ⟨t, ht, hrest⟩ := Run.exec_cons.1 hs
    rw [ih (step_inRange h ht) hrest, step_report h ht, List.filterMap_cons]
    cases e.report? with
    | none => rfl
    | some b => simp [List.getLast?_cons]

/-- **The space bar.** In a run every enabled space is allowed by the entry field if and only if no refresh
with the space bar off, the constructor's included, gives the space to a fill button. The flag of the space
bar is what the last report about the entry field says. -/
theorem space_law (p : Platform) (props : Props) (es : List Event) :
    (Run.Throughout (step p) Gated es (constructor p props) ↔
      ¬ SpaceFills ((initial p props).update p) (buildLayoutTable p) ∧
        Run.Along (step p) (Withholds p) es (constructor p props)) ∧
      (Run.exec (step p) es (constructor p props)).map State.bSpaceBtnEnabled = some (lastReport es) := by
  have hin := inRange_constructor p props
  have hrun : Gated (constructor p props) → (Run.Throughout (step p) Gated es (constructor p props) ↔
      Run.Along (step p) (Withholds p) es (constructor p props)) :=
    Run.throughout_iff_along (Run.free_of_total (step_total p)) (fun e s s' h hs => step_inRange h hs)
      (fun e s s' h hg hs => gated_step h hg hs) hin
  refine ⟨?_, ?_⟩
  · rw [← gated_constructor]
    constructor
    · intro h
      have hgated := Run.throughout_head h
      exact ⟨hgated, (hrun hgated).1 h⟩
    · rintro ⟨hgated, h⟩
      exact (hrun hgated).2 h
  · obtain ⟨s, hs⟩ := Run.exec_total (step_total p) es (constructor p props)
    rw [hs, Option.map_some, run_report hin hs, (constructor_moved p props).bSpaceBtnEnabled]
    rfl

/-- A numeric block whose last key is a fill button. -/
def fillPad : Platform := { numPad with getSpellerLayoutSequence := fun _ => ["123456789*0\uE001"] }

/-- The entry field is empty. -/
def reportEmpty : Event := .onMessage ⟨.WIDGET_ENTRYFIELD_EMPTY, .nil, .number 1, by simp⟩

/-- A letter string with a space: the space bar is off, and the fill button is an enabled space. -/
theorem space_slips : ∃ s,
    Run.exec (step fillPad) [reportEmpty] (constructor fillPad ⟨some "1 ", some 0, some 1⟩) = some s ∧
      WellSized fillPad ∧ s.bSpaceBtnEnabled = false ∧
      ∃ l ∈ s.tttLayouts, ∃ d ∈ l.buttons, d.nCharacter = nSpace ∧ d.bEnabled = true := by
  have h : (Run.exec (step fillPad) [reportEmpty] (constructor fillPad ⟨some "1 ", some 0, some 1⟩)).map
      (fun s => (s.bSpaceBtnEnabled, decide (∃ l ∈ s.tttLayouts, ∃ d ∈ l.buttons,
        d.nCharacter = nSpace ∧ d.bEnabled = true))) = some (false, true) := by
    decide +kernel
  obtain ⟨s, hs, he⟩ := Option.map_eq_some_iff.1 h
  simp only [Prod.mk.injEq, decide_eq_true_eq] at he
  exact ⟨s, hs, by decide +kernel, he.1, he.2⟩

end Speller
