import LinuxLearning.Speller.Space
/-!
# The reference button table

The first two passes of `updateEnabled` (`:648-712`) go over the table they find, with a map that both of them
write. Here the table they leave is given in closed form, from the layouts as `buildLayoutTable` built them and
from what the refresh is asked for:

* `staticButton` — a button that is no fill button is enabled by its letter alone;
* `given` — the letters for the fill buttons: those on no static button, each once, in the order of the string;
* `reference` — the table: the fill buttons of all layouts, in order, take the given letters, one each;
* `passes_reference` — the two passes compute it, whatever the fill buttons had before;
* `reference_law` — in every run, `updateEnabled` leaves the reference table of the layouts first built.
-/

namespace Speller

variable {p : Platform} {props : Props} {es : List Event} {s s' : State} {u : Update}

/-- The layouts after the first two passes. -/
def passes (p : Platform) (u : Update) (layouts : List Layout) : List Layout :=
  let first := setLayouts u 0 layouts (unused u.tCharacters, [])
  if u.bUseFill then fillButtons p u.tCharacters first.2.2 first.2.1 first.1 else first.1

theorem refresh_eq (p : Platform) (u : Update) (layouts : List Layout) :
    refresh p u layouts = setVisible 0 (passes p u layouts) := rfl

/-! ## The reference -/

/-- A button with letter `c` is enabled if the speller is, if `c` is among the letters exactly when they are not
inverted, and, for the space, if the space bar is. -/
def staticButton (u : Update) (d : ButtonDef) : ButtonDef := { d with
  bEnabled := decide (d.nCharacter ≠ 0 ∧ u.bEnabled = true ∧
    (d.nCharacter ∈ u.tCharacters ↔ u.bInvert = false) ∧
    (d.nCharacter = nSpace → u.bSpaceBtnEnabled = true)) }

/-- A fill button with its letter, blank without one. -/
def fillButton (p : Platform) : Option ℕ → ButtonDef
  | some c => ⟨true, c, p.utf8Encode c, true⟩
  | none => ⟨true, 0, "", false⟩

/-- The letters for the fill buttons: those on no static button, in the order of their first occurrence. Inverted
letters and a disabled speller give none. -/
def given (u : Update) (layouts : List Layout) : List ℕ :=
  if u.bInvert = false ∧ u.bEnabled = true then
    (u.tCharacters.filter fun c => ¬ Static layouts c).eraseDups
  else []

/-- The button at place `r`: the `k`-th fill button takes the `k`-th of the given letters. -/
def referenceButton (p : Platform) (u : Update) (layouts : List Layout) (r : Ref) (d : ButtonDef) : ButtonDef :=
  if d.bFill then fillButton p (given u layouts)[(layoutRefs 0 layouts).idxOf r]? else staticButton u d

def reference (p : Platform) (u : Update) (layouts : List Layout) : List (List ButtonDef) :=
  layouts.mapIdx fun l ttLayout => ttLayout.buttons.mapIdx fun b d => referenceButton p u layouts (l, b) d

/-- What a refresh is asked for, with the layouts as they were built. -/
def asked (p : Platform) (props : Props) (bSpaceBtnEnabled : Bool) : Update :=
  let bInvert := isTrue props.InvertGetLetterFunction 0
  let bEnabled := isTrue props.Enabled 1
  { tCharacters := p.utf8Decode (props.GetLetterFunction.getD "")
    bInvert := bInvert
    bEnabled := bEnabled
    bSpaceBtnEnabled := bSpaceBtnEnabled
    bUseFill := useFill (buildLayoutTable p) && !bInvert && bEnabled }

/-! ## The first pass -/

/-- What the first pass makes of a button. -/
def firstPass (p : Platform) (u : Update) (d : ButtonDef) : ButtonDef :=
  if d.bFill then fillButton p none else staticButton u d

/-- `tCharacterUsed` has an entry for the letters of the string and for no others. -/
def Tracks (u : Update) (used : Used) : Prop := ∀ c, used c = none ↔ c ∉ u.tCharacters

theorem tracks_unused (u : Update) : Tracks u (unused u.tCharacters) := by
  intro c
  simp [unused]

theorem setButton_eq {used : Used} {d : ButtonDef} (hused : Tracks u used) (hd : Blank d) :
    (setButton u used d).1 = firstPass p u d := by
  obtain ⟨bFill, nCharacter, sText, bEnabled⟩ := d
  have hspace : (0 : ℕ) ≠ nSpace := by decide
  cases bFill with
  | true => simp [setButton, setDefined, gateSpace, firstPass, fillButton, hspace]
  | false =>
    by_cases hzero : nCharacter = 0
    · have hoff : bEnabled = false := hd rfl hzero
      simp [setButton, setDefined, gateSpace, firstPass, staticButton, hzero, hspace, hoff]
    · have hmem : nCharacter ∈ u.tCharacters ↔ used nCharacter ≠ none := by
        rw [ne_eq, hused, not_not]
      by_cases hc : nCharacter = nSpace
      · by_cases hin : used nSpace = none <;>
          cases hinv : u.bInvert <;> cases hen : u.bEnabled <;> cases hsp : u.bSpaceBtnEnabled <;>
            simp_all [setButton, setDefined, gateSpace, firstPass, staticButton]
      · by_cases hin : used nCharacter = none <;> cases hinv : u.bInvert <;> cases hen : u.bEnabled <;>
          simp_all [setButton, setDefined, gateSpace, firstPass, staticButton]

theorem tracks_setButton {used : Used} (hused : Tracks u used) (d : ButtonDef) :
    Tracks u (setButton u used d).2 := by
  intro c
  exact setDefined_none.trans (hused c)

theorem setButtons_eq {l b : ℕ} {ds : List ButtonDef} {a : Used × List Ref} (ha : Tracks u a.1)
    (hds : ∀ d ∈ ds, Blank d) :
    (setButtons u l b ds a).1 = ds.map (firstPass p u) ∧ Tracks u (setButtons u l b ds a).2.1 := by
  induction ds generalizing b a with
  | nil => exact ⟨rfl, ha⟩
  | cons d ds ih =>
    obtain ⟨used, refs⟩ := a
    obtain ⟨heq, htracks⟩ := ih (b := b + 1) (a := ((setButton u used d).2,
      if d.bFill && u.bUseFill then refs ++ [(l, b)] else refs)) (tracks_setButton ha d)
      (fun e he => hds e (List.mem_cons_of_mem d he))
    refine ⟨?_, htracks⟩
    unfold setButtons
    rw [List.map_cons, ← setButton_eq ha (hds d List.mem_cons_self)]
    exact congrArg _ heq

theorem setLayouts_eq {l : ℕ} {layouts : List Layout} {a : Used × List Ref} (ha : Tracks u a.1)
    (hall : AllButtons Blank layouts) : (setLayouts u l layouts a).1 =
      layouts.map fun ttLayout => { ttLayout with buttons := ttLayout.buttons.map (firstPass p u) } := by
  induction layouts generalizing l a with
  | nil => rfl
  | cons ttLayout rest ih =>
    obtain ⟨heq, htracks⟩ := @setButtons_eq p u l 0 ttLayout.buttons a ha (hall ttLayout List.mem_cons_self)
    unfold setLayouts
    rw [List.map_cons, ← heq, ← ih (l := l + 1) htracks fun m hm => hall m (List.mem_cons_of_mem ttLayout hm)]

/-! ## The second pass -/

/-- A letter for a fill button. -/
def put (p : Platform) (c : ℕ) (d : ButtonDef) : ButtonDef :=
  { d with nCharacter := c, sText := p.utf8Encode c, bEnabled := true }

/-- The letters go to the fill buttons in order, until one of the two lists ends. -/
def assign (p : Platform) : List Ref → List ℕ → List Layout → List Layout
  | [], _, layouts => layouts
  | _, [], layouts => layouts
  | r :: refs, c :: cs, layouts => assign p refs cs (writeAt r (put p c) layouts)

/-- The letters that have no button yet, each once. -/
def left (used : Used) (cs : List ℕ) : List ℕ := (cs.filter fun c => used c ≠ some true).eraseDups

theorem left_used {used : Used} {c : ℕ} (cs : List ℕ) (h : used c = some true) :
    left used (c :: cs) = left used cs := by
  simp [left, h]

theorem left_cons {used : Used} {c : ℕ} (cs : List ℕ) (h : used c ≠ some true) :
    left used (c :: cs) = c :: left (Function.update used c (some true)) cs := by
  unfold left
  rw [List.filter_cons_of_pos (by simpa using h), List.eraseDups_cons, List.filter_filter]
  congr 2
  apply List.filter_congr
  intro c' _
  by_cases hc : c' = c
  · subst hc
    simp
  · simp [hc]

/-- **The second pass** hands out the letters that have no button yet. -/
theorem fillButtons_eq {cs : List ℕ} {refs : List Ref} {used : Used} {layouts : List Layout} :
    fillButtons p cs refs used layouts = assign p refs (left used cs) layouts := by
  induction cs generalizing refs used layouts with
  | nil => cases refs <;> rfl
  | cons c cs ih =>
    unfold fillButtons
    by_cases hused : used c = some true
    · rw [if_pos hused, left_used cs hused, ih]
    · rw [if_neg hused, left_cons cs hused]
      cases refs with
      | nil => rfl
      | cons r refs => exact ih

theorem buttonAt?_assign {refs : List Ref} {cs : List ℕ} {layouts : List Layout} {r : Ref} (h : refs.Nodup) :
    buttonAt? (assign p refs cs layouts) r = (buttonAt? layouts r).map fun d =>
      if r ∈ refs then (cs[refs.idxOf r]?).elim d fun c => put p c d else d := by
  induction refs generalizing cs layouts with
  | nil => simp [assign]
  | cons r' refs ih =>
    rw [List.nodup_cons] at h
    cases cs with
    | nil => simp [assign]
    | cons c cs =>
      unfold assign
      rw [ih h.2, buttonAt?_writeAt]
      by_cases hr : r' = r
      · subst hr
        cases buttonAt? layouts r' <;> simp [h.1]
      · have hne : r ≠ r' := fun heq => hr heq.symm
        cases buttonAt? layouts r <;> simp [hr, hne, List.idxOf_cons_ne]

/-! ## The two passes -/

theorem mem_buttonRefs_iff {l b : ℕ} {ds : List ButtonDef} {r : Ref} :
    r ∈ buttonRefs l b ds ↔ ∃ k d, r = (l, b + k) ∧ ds[k]? = some d ∧ d.bFill = true := by
  induction ds generalizing b with
  | nil => simp [buttonRefs]
  | cons d ds ih =>
    have hrest : r ∈ buttonRefs l (b + 1) ds ↔
        ∃ k e, r = (l, b + (k + 1)) ∧ ds[k]? = some e ∧ e.bFill = true := by
      rw [ih]
      simp only [Nat.add_assoc, Nat.add_comm 1]
    have hsplit : (∃ k e, r = (l, b + k) ∧ (d :: ds)[k]? = some e ∧ e.bFill = true) ↔
        r = (l, b) ∧ d.bFill = true ∨ r ∈ buttonRefs l (b + 1) ds := by
      rw [hrest]
      constructor
      · rintro ⟨k, e, rfl, he, hfill⟩
        cases k with
        | zero =>
          simp only [List.getElem?_cons_zero, Option.some.injEq] at he
          subst he
          exact .inl ⟨rfl, hfill⟩
        | succ k => exact .inr ⟨k, e, rfl, by simpa using he, hfill⟩
      · rintro (⟨rfl, hfill⟩ | ⟨k, e, rfl, he, hfill⟩)
        · exact ⟨0, d, rfl, rfl, hfill⟩
        · exact ⟨k + 1, e, rfl, by simpa using he, hfill⟩
    have hcons : buttonRefs l b (d :: ds) =
        if d.bFill then (l, b) :: buttonRefs l (b + 1) ds else buttonRefs l (b + 1) ds := rfl
    rw [hsplit, hcons]
    by_cases hfill : d.bFill
    · simp [hfill]
    · simp [hfill]

theorem mem_layoutRefs_iff {l : ℕ} {layouts : List Layout} {r : Ref} : r ∈ layoutRefs l layouts ↔
    ∃ k d, r.1 = l + k ∧ buttonAt? layouts (k, r.2) = some d ∧ d.bFill = true := by
  induction layouts generalizing l with
  | nil => simp [layoutRefs, buttonAt?]
  | cons ttLayout rest ih =>
    unfold layoutRefs
    rw [List.mem_append, ih, mem_buttonRefs_iff]
    constructor
    · rintro (⟨b, d, rfl, hd, hfill⟩ | ⟨k, d, hr, hd, hfill⟩)
      · exact ⟨0, d, rfl, by simpa [buttonAt?] using hd, hfill⟩
      · exact ⟨k + 1, d, by omega, by simpa [buttonAt?] using hd, hfill⟩
    · rintro ⟨k, d, hr, hd, hfill⟩
      cases k with
      | zero => exact .inl ⟨r.2, d, Prod.ext hr (by simp), by simpa [buttonAt?] using hd, hfill⟩
      | succ k => exact .inr ⟨k, d, by omega, by simpa [buttonAt?] using hd, hfill⟩

/-- The places of the fill buttons are the ones the references stand for. -/
theorem mem_layoutRefs_zero {layouts : List Layout} {r : Ref} {d : ButtonDef} (h : buttonAt? layouts r = some d) :
    r ∈ layoutRefs 0 layouts ↔ d.bFill = true := by
  rw [mem_layoutRefs_iff]
  constructor
  · rintro ⟨k, e, hk, he, hfill⟩
    have hr : (k, r.2) = r := Prod.ext (by omega) rfl
    rw [hr, h, Option.some.injEq] at he
    exact he ▸ hfill
  · exact fun hfill => ⟨r.1, d, by omega, h, hfill⟩

theorem buttonAt?_reference {layouts : List Layout} {r : Ref} :
    ((reference p u layouts)[r.1]?).bind (fun bs => bs[r.2]?) =
      (buttonAt? layouts r).map (referenceButton p u layouts r) := by
  unfold reference buttonAt?
  rw [List.getElem?_mapIdx]
  cases layouts[r.1]? with
  | none => rfl
  | some ttLayout => simp

/-- Two tables with the same buttons at all places are the same. -/
theorem buttons_ext {table table' : List (List ButtonDef)} (hlen : table.length = table'.length)
    (h : ∀ r : Ref, (table[r.1]?).bind (fun bs => bs[r.2]?) = (table'[r.1]?).bind fun bs => bs[r.2]?) :
    table = table' := by
  apply List.ext_getElem hlen
  intro i hi hi'
  apply List.ext_getElem?
  intro j
  have hij := h (i, j)
  rw [List.getElem?_eq_getElem hi, List.getElem?_eq_getElem hi'] at hij
  exact hij

theorem getElem?_buttons {layouts : List Layout} {r : Ref} :
    ((layouts.map Layout.buttons)[r.1]?).bind (fun bs => bs[r.2]?) = buttonAt? layouts r := by
  unfold buttonAt?
  rw [List.getElem?_map]
  cases layouts[r.1]? <;> rfl

theorem length_assign {refs : List Ref} {cs : List ℕ} {layouts : List Layout} :
    (assign p refs cs layouts).length = layouts.length := by
  induction refs generalizing cs layouts with
  | nil => rfl
  | cons r refs ih =>
    cases cs with
    | nil => rfl
    | cons c cs =>
      unfold assign
      rw [ih]
      simp [writeAt]

/-- What the first pass leaves at a place. -/
theorem buttonAt?_firstPass (p : Platform) {layouts : List Layout} (hblank : AllButtons Blank layouts) (r : Ref) :
    buttonAt? (setLayouts u 0 layouts (unused u.tCharacters, [])).1 r = (buttonAt? layouts r).map (firstPass p u) := by
  rw [setLayouts_eq (p := p) (l := 0) (a := (unused u.tCharacters, [])) (tracks_unused u) hblank]
  unfold buttonAt?
  rw [List.getElem?_map]
  cases layouts[r.1]? <;> simp

/-- The letters that the first pass has left over are the given ones. -/
theorem left_eq_given {layouts : List Layout} (hinv : u.bInvert = false) (hen : u.bEnabled = true) :
    left (setLayouts u 0 layouts (unused u.tCharacters, [])).2.1 u.tCharacters = given u layouts := by
  unfold left given
  rw [if_pos ⟨hinv, hen⟩]
  congr 1
  apply List.filter_congr
  intro c hc
  have hused := (@setLayouts_used u 0 layouts (unused u.tCharacters, []) c).1
  simp only [unused, hc, if_true] at hused
  simp [hused]

/-- Where the second pass is left out although there is a fill button, no letters are given. -/
theorem given_eq_nil {layouts : List Layout} {r : Ref} {d : ButtonDef}
    (hu : u.bUseFill = (useFill layouts && !u.bInvert && u.bEnabled)) (huse : u.bUseFill = false)
    (hd : buttonAt? layouts r = some d) (hfill : d.bFill = true) : given u layouts = [] := by
  have hany : useFill layouts = true := by
    obtain ⟨l, hl, hmem⟩ := mem_of_buttonAt? hd
    exact List.any_eq_true.2 ⟨l, hl, List.any_eq_true.2 ⟨d, hmem, hfill⟩⟩
  unfold given
  apply if_neg
  rintro ⟨hinv, hen⟩
  simp [huse, hany, hinv, hen] at hu

/-- **The two passes compute the reference table.** -/
theorem passes_reference {layouts : List Layout} (hblank : AllButtons Blank layouts)
    (hu : u.bUseFill = (useFill layouts && !u.bInvert && u.bEnabled)) :
    (passes p u layouts).map Layout.buttons = reference p u layouts := by
  have hlen : (passes p u layouts).length = layouts.length := by
    have hfirst := setLayouts_eq (p := p) (l := 0) (a := (unused u.tCharacters, [])) (tracks_unused u) hblank
    unfold passes
    simp only [fillButtons_eq, hfirst]
    split_ifs <;> simp [length_assign]
  apply buttons_ext (by simp [hlen, reference])
  intro r
  rw [buttonAt?_reference, getElem?_buttons]
  unfold passes
  cases huse : u.bUseFill with
  | true =>
    rw [huse] at hu
    simp only [Bool.true_eq, Bool.and_eq_true, Bool.not_eq_true'] at hu
    simp only [if_true]
    rw [fillButtons_eq, left_eq_given hu.1.2 hu.2, setLayouts_layoutRefs huse, List.nil_append,
      buttonAt?_assign (nodup_layoutRefs 0 layouts), buttonAt?_firstPass p hblank]
    cases hd : buttonAt? layouts r with
    | none => rfl
    | some d =>
      have hmem := mem_layoutRefs_zero hd
      simp only [Option.map_some, Option.some.injEq, hmem, referenceButton, firstPass]
      by_cases hfill : d.bFill
      · simp only [hfill, if_true]
        cases (given u layouts)[(layoutRefs 0 layouts).idxOf r]? <;> rfl
      · simp only [hfill]
        rfl
  | false =>
    simp only [Bool.false_eq_true, if_false]
    rw [buttonAt?_firstPass p hblank]
    cases hd : buttonAt? layouts r with
    | none => rfl
    | some d =>
      simp only [Option.map_some, Option.some.injEq, referenceButton, firstPass]
      by_cases hfill : d.bFill
      · simp [hfill, given_eq_nil hu huse hd hfill]
      · simp [hfill]

/-! ## What is left of earlier refreshes -/

/-- A button as `buildLayoutTable` built it. -/
def bare (d : ButtonDef) : ButtonDef := if d.bFill then ⟨true, 0, "", false⟩ else { d with bEnabled := false }

def bareTable (layouts : List Layout) : List (List ButtonDef) := layouts.map fun l => l.buttons.map bare

@[simp] theorem bare_bFill (d : ButtonDef) : (bare d).bFill = d.bFill := by
  unfold bare
  split_ifs with h
  · exact h.symm
  · rfl

theorem bare_referenceButton {layouts : List Layout} (r : Ref) (d : ButtonDef) :
    bare (referenceButton p u layouts r d) = bare d := by
  unfold referenceButton
  by_cases hfill : d.bFill
  · rw [if_pos hfill]
    cases (given u layouts)[(layoutRefs 0 layouts).idxOf r]? <;> simp [fillButton, bare, hfill]
  · simp [hfill, bare, staticButton]

/-- The reference does not look at what earlier refreshes have written. -/
theorem referenceButton_bare {layouts : List Layout} (r : Ref) (d : ButtonDef) :
    referenceButton p u layouts r (bare d) = referenceButton p u layouts r d := by
  unfold referenceButton
  rw [bare_bFill]
  by_cases hfill : d.bFill
  · simp [hfill]
  · simp [hfill, bare, staticButton]

theorem buttonAt?_bareTable {layouts : List Layout} {r : Ref} :
    ((bareTable layouts)[r.1]?).bind (fun bs => bs[r.2]?) = (buttonAt? layouts r).map bare := by
  unfold bareTable buttonAt?
  rw [List.getElem?_map]
  cases layouts[r.1]? with
  | none => rfl
  | some l => simp

section Congr

variable {layouts layouts' : List Layout} (h : bareTable layouts = bareTable layouts')

include h

theorem length_of_bare : layouts.length = layouts'.length := by
  simpa [bareTable] using congrArg List.length h

theorem fills_of_bare : fills layouts = fills layouts' := by
  have hfills : ∀ ls : List Layout, fills ls = (bareTable ls).map fun bs => bs.map ButtonDef.bFill := by
    intro ls
    simp [fills, bareTable, Function.comp_def]
  rw [hfills, hfills, h]

theorem static_of_bare (c : ℕ) : Static layouts c ↔ Static layouts' c := by
  have hstatic : ∀ ls : List Layout, Static ls c ↔
      ∃ bs ∈ bareTable ls, ∃ d ∈ bs, d.bFill = false ∧ d.nCharacter = c ∧ c ≠ 0 := by
    intro ls
    simp only [Static, bareTable, List.mem_map, exists_exists_and_eq_and, bare_bFill]
    refine exists_congr fun l => and_congr_right fun _ => exists_congr fun d => and_congr_right fun _ => ?_
    refine and_congr_right fun hfill => ?_
    simp [bare, hfill]
  rw [hstatic, hstatic, h]

theorem given_of_bare : given u layouts = given u layouts' := by
  unfold given
  simp only [static_of_bare h]

end Congr

theorem buttonRefs_congr {l b : ℕ} {ds ds' : List ButtonDef}
    (h : ds.map ButtonDef.bFill = ds'.map ButtonDef.bFill) : buttonRefs l b ds = buttonRefs l b ds' := by
  induction ds generalizing b ds' with
  | nil =>
    rw [List.map_nil, eq_comm, List.map_eq_nil_iff] at h
    rw [h]
  | cons d ds ih =>
    cases ds' with
    | nil => simp at h
    | cons d' ds' =>
      simp only [List.map_cons, List.cons.injEq] at h
      have hrest := ih (b := b + 1) h.2
      simp only [buttonRefs, h.1, hrest]

theorem layoutRefs_congr {l : ℕ} {layouts layouts' : List Layout} (h : fills layouts = fills layouts') :
    layoutRefs l layouts = layoutRefs l layouts' := by
  induction layouts generalizing l layouts' with
  | nil =>
    unfold fills at h
    rw [List.map_nil, eq_comm, List.map_eq_nil_iff] at h
    rw [h]
  | cons ttLayout rest ih =>
    cases layouts' with
    | nil => simp [fills] at h
    | cons ttLayout' rest' =>
      unfold fills at h
      simp only [List.map_cons, List.cons.injEq] at h
      have hrest := ih (l := l + 1) h.2
      simp only [layoutRefs, buttonRefs_congr h.1, hrest]

/-- Layouts that were built the same have the same reference table. -/
theorem reference_congr {layouts layouts' : List Layout} (h : bareTable layouts = bareTable layouts') :
    reference p u layouts = reference p u layouts' := by
  apply buttons_ext (by simp [reference, length_of_bare h])
  intro r
  have hrefer : referenceButton p u layouts r = referenceButton p u layouts' r := by
    funext d
    unfold referenceButton
    rw [given_of_bare h, layoutRefs_congr (fills_of_bare h)]
  have hbare : (buttonAt? layouts r).map bare = (buttonAt? layouts' r).map bare := by
    rw [← buttonAt?_bareTable, ← buttonAt?_bareTable, h]
  have hlook : ∀ ls, (buttonAt? ls r).map (referenceButton p u layouts' r) =
      ((buttonAt? ls r).map bare).map (referenceButton p u layouts' r) := by
    intro ls
    cases buttonAt? ls r <;> simp [referenceButton_bare]
  rw [buttonAt?_reference, buttonAt?_reference, hrefer, hlook, hbare, ← hlook]

theorem useFill_eq (layouts : List Layout) : useFill layouts = (fills layouts).any fun bs => bs.any id := by
  simp [useFill, fills, Function.comp_def]

/-- The layouts are the ones that were built, up to what refreshes write. -/
structure Built (p : Platform) (s : State) : Prop where
  table : bareTable s.tttLayouts = bareTable (buildLayoutTable p)
  blank : AllButtons Blank s.tttLayouts
  bUseFill : s.bUseFill = useFill (buildLayoutTable p)

theorem Built.update_bUseFill (h : Built p s) :
    (s.update p).bUseFill = (useFill s.tttLayouts && !(s.update p).bInvert && (s.update p).bEnabled) := by
  rw [useFill_eq, fills_of_bare h.table, ← useFill_eq, ← h.bUseFill]
  rfl

/-- **A refresh of layouts that were built.** -/
theorem Built.refreshed (h : Built p s) :
    (s.refreshed p).1.map Layout.buttons = reference p (s.update p) (buildLayoutTable p) := by
  show (setVisible 0 (passes p (s.update p) s.tttLayouts)).1.map Layout.buttons = _
  rw [setVisible_buttons, passes_reference h.blank h.update_bUseFill, reference_congr h.table]

theorem Built.bare_refreshed (h : Built p s) :
    bareTable (s.refreshed p).1 = bareTable (buildLayoutTable p) := by
  have hbare : bareTable (s.refreshed p).1 =
      (reference p (s.update p) (buildLayoutTable p)).map fun bs => bs.map bare := by
    rw [← h.refreshed]
    simp [bareTable, Function.comp_def]
  rw [hbare]
  apply buttons_ext (by simp [reference, bareTable])
  intro r
  have hat := @buttonAt?_reference p (s.update p) (buildLayoutTable p) r
  rw [buttonAt?_bareTable, List.getElem?_map]
  cases hbs : (reference p (s.update p) (buildLayoutTable p))[r.1]? with
  | none =>
    rw [hbs, Option.bind_none, eq_comm, Option.map_eq_none_iff] at hat
    simp [hat]
  | some bs =>
    rw [hbs, Option.bind_some] at hat
    simp only [Option.map_some, Option.bind_some, List.getElem?_map, hat, Option.map_map]
    congr 1
    funext d
    exact bare_referenceButton r d

theorem built_refresh (h : Built p s) (hs : s'.tttLayouts = (s.refreshed p).1) (hf : s'.bUseFill = s.bUseFill) :
    Built p s' :=
  ⟨by rw [hs]; exact h.bare_refreshed, by rw [hs]; exact blank_refresh h.blank, by rw [hf]; exact h.bUseFill⟩

theorem built_initial (p : Platform) (props : Props) : Built p (initial p props) := by
  refine ⟨rfl, ?_, rfl⟩
  intro l hl d hd
  have hl' : l ∈ buildLayoutTable p := hl
  unfold buildLayoutTable at hl'
  obtain ⟨i, -, rfl⟩ := List.mem_map.1 hl'
  obtain ⟨code, -, rfl⟩ := List.mem_map.1 hd
  exact fun _ _ => newButton_bEnabled p code

theorem built_constructor (p : Platform) (props : Props) : Built p (constructor p props) := by
  have hmoved := constructor_moved p props
  exact built_refresh (built_initial p props) hmoved.tttLayouts hmoved.bUseFill

theorem built_step (hin : InRange s) (h : Built p s) {e : Event} (hs : step p e s = some s') : Built p s' := by
  have hmoved := step_moved hin hs
  have hfill : s'.bUseFill = s.bUseFill := hmoved.bUseFill.trans (written_bUseFill e s)
  cases hfrom : refreshesFrom e s with
  | none =>
    have htable := hmoved.tttLayouts.trans (written_rest (p := p) hfrom).1
    exact ⟨by rw [htable]; exact h.table, by rw [htable]; exact h.blank,
      by rw [hfill]; exact h.bUseFill⟩
  | some t =>
    have htable := hmoved.tttLayouts.trans (written_refresh (p := p) hfrom).1
    have ht : t.tttLayouts = s.tttLayouts ∧ t.bUseFill = s.bUseFill := by
      rcases refreshesFrom_cases hfrom with ⟨nUserId, rfl, rfl⟩ | ⟨m, rfl, -, rfl⟩
      · exact ⟨rfl, rfl⟩
      · exact ⟨rfl, rfl⟩
    have hbuilt : Built p t := ⟨by rw [ht.1]; exact h.table, by rw [ht.1]; exact h.blank,
      by rw [ht.2]; exact h.bUseFill⟩
    exact built_refresh hbuilt htable (by rw [hfill, ht.2])

/-- **The layouts are the ones first built**, up to what refreshes write, in every state of a run. -/
theorem built_run (h : Run.exec (step p) es (constructor p props) = some s) : InRange s ∧ Built p s :=
  Run.invariant' (I := fun s => InRange s ∧ Built p s)
    (fun _ _ _ hs hstep => ⟨step_inRange hs.1 hstep, built_step hs.1 hs.2 hstep⟩)
    ⟨inRange_constructor p props, built_constructor p props⟩ h

/-- **The reference button table.** In the state of the constructor before its refresh, and in every state of a
run, the first two passes of `updateEnabled` leave the reference table of the layouts first built, whatever the
letter string, the flags and the entry field ask for now; and this is the table that `updateEnabled` leaves. -/
theorem reference_law (h : s = initial p props ∨ Run.exec (step p) es (constructor p props) = some s)
    (asks : Props) (bSpaceBtnEnabled : Bool) :
    State.update p { s with props := asks, bSpaceBtnEnabled := bSpaceBtnEnabled } =
        asked p asks bSpaceBtnEnabled ∧
      (passes p (asked p asks bSpaceBtnEnabled) s.tttLayouts).map Layout.buttons =
        reference p (asked p asks bSpaceBtnEnabled) (buildLayoutTable p) ∧
      (Lua.run (updateEnabled p)
          { s with props := asks, bSpaceBtnEnabled := bSpaceBtnEnabled }).2.tttLayouts.map Layout.buttons =
        reference p (asked p asks bSpaceBtnEnabled) (buildLayoutTable p) := by
  obtain ⟨hin, hbuilt⟩ : InRange s ∧ Built p s := by
    rcases h with rfl | h
    · exact ⟨inRange_initial p props, built_initial p props⟩
    · exact built_run h
  have hasked : State.update p { s with props := asks, bSpaceBtnEnabled := bSpaceBtnEnabled } =
      asked p asks bSpaceBtnEnabled := by
    unfold State.update asked
    rw [← hbuilt.bUseFill]
  have hbuilt' : Built p { s with props := asks, bSpaceBtnEnabled := bSpaceBtnEnabled } :=
    ⟨hbuilt.table, hbuilt.blank, hbuilt.bUseFill⟩
  have hrefreshed := hbuilt'.refreshed
  rw [hasked] at hrefreshed
  have hin' : InRange { s with props := asks, bSpaceBtnEnabled := bSpaceBtnEnabled } := hin
  have hrun := Lua.state_of_wp (updateEnabled_moves (p := p) hin')
  refine ⟨hasked, ?_, ?_⟩
  · have hpasses : (State.refreshed p
        { s with props := asks, bSpaceBtnEnabled := bSpaceBtnEnabled }).1.map Layout.buttons =
          (passes p (asked p asks bSpaceBtnEnabled) s.tttLayouts).map Layout.buttons := by
      unfold State.refreshed
      rw [hasked, refresh_eq, setVisible_buttons]
    rw [← hpasses, hrefreshed]
  · rw [hrun.tttLayouts]
    exact hrefreshed

/-- The fill button had the letter `z`; now the letters are `a`, `1`, `b`, and `1` has a key. -/
theorem reference_law_sample : ∃ s,
    Run.exec (step fillPad) [] (constructor fillPad ⟨some "z", some 0, some 1⟩) = some s ∧
      buttonAt? s.tttLayouts (0, 11) = some ⟨true, 122, "z", true⟩ ∧
      (passes fillPad (asked fillPad ⟨some "a1b", some 0, some 1⟩ false) s.tttLayouts).map Layout.buttons =
        reference fillPad (asked fillPad ⟨some "a1b", some 0, some 1⟩ false) (buildLayoutTable fillPad) ∧
      buttonAt? (passes fillPad (asked fillPad ⟨some "a1b", some 0, some 1⟩ false) s.tttLayouts) (0, 11) =
        some ⟨true, 97, "a", true⟩ := by
  have hrun : Run.exec (step fillPad) [] (constructor fillPad ⟨some "z", some 0, some 1⟩) =
      some (constructor fillPad ⟨some "z", some 0, some 1⟩) := rfl
  exact ⟨_, hrun, by decide +kernel, (reference_law (.inr hrun) ⟨some "a1b", some 0, some 1⟩ false).2.1,
    by decide +kernel⟩

end Speller
