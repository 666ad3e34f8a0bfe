import LinuxLearning.Speller.Layouts
/-!
# Refreshing the flags of all buttons

| here | there |
| --- | --- |
| `Update`                   | the locals of `updateEnabled` that its passes read (`:650-664`) |
| `setButton`, `setLayouts`  | first pass: the defined buttons, and the fill buttons are collected (`:667-694`) |
| `fillButtons`              | second pass: letters for the fill buttons (`:696-712`) |
| `scan`, `setVisible`       | third pass: `bVisible`, and the counter `nLayout` (`:714-739`) |
| `refresh`                  | the three passes |

Lua keeps the fill buttons as references to their tables. Here a reference is the place of the
button: the position of its layout and its position in it, both counted from 0.

A refresh keeps the number of layouts, their sizes and their fill buttons (`fills_refresh`). While
the speller is disabled no button is enabled after it (`disabled_refresh`), and the counter it ends
with is the number of visible layouts (`refresh_count`).
-/

namespace Speller

/-! ## Refreshing the flags -/

/-- What a call of `updateEnabled` goes by. -/
structure Update where
  /-- the decoded letter string -/
  tCharacters : List ℕ
  bInvert : Bool
  bEnabled : Bool
  bSpaceBtnEnabled : Bool
  bUseFill : Bool

/-- `tCharacterUsed`: `none` for a code that is not among the letters. -/
abbrev Used := ℕ → Option Bool

def unused (tCharacters : List ℕ) : Used := fun c => if c ∈ tCharacters then some false else none

/-- The place of a button in the table. -/
abbrev Ref := ℕ × ℕ

/-- A fill button is blanked; any other button with a letter is enabled by what is asked for. -/
def setDefined (u : Update) (used : Used) (d : ButtonDef) : ButtonDef × Used :=
  if d.bFill then ({ d with sText := "", bEnabled := false, nCharacter := 0 }, used)
  else if d.nCharacter ≠ 0 then
    if used d.nCharacter ≠ none then
      ({ d with bEnabled := !u.bInvert && u.bEnabled }, Function.update used d.nCharacter (some true))
    else ({ d with bEnabled := u.bInvert && u.bEnabled }, used)
  else (d, used)

/-- The space bar also waits for the entry field (`:690-692`). -/
def gateSpace (u : Update) (d : ButtonDef) : ButtonDef :=
  if d.nCharacter = nSpace then { d with bEnabled := d.bEnabled && u.bSpaceBtnEnabled } else d

/-- The body of the first pass without the collecting. -/
def setButton (u : Update) (used : Used) (d : ButtonDef) : ButtonDef × Used :=
  let set := setDefined u used d
  (gateSpace u set.1, set.2)

/-- The inner loop, from button `b` of layout `l` on. -/
def setButtons (u : Update) (l : ℕ) : ℕ → List ButtonDef → Used × List Ref →
    List ButtonDef × Used × List Ref
  | _, [], a => ([], a)
  | b, d :: ds, (used, refs) =>
    let d' := setButton u used d
    let refs := if d.bFill && u.bUseFill then refs ++ [(l, b)] else refs
    let rest := setButtons u l (b + 1) ds (d'.2, refs)
    (d'.1 :: rest.1, rest.2)

/-- The outer loop, from layout `l` on. -/
def setLayouts (u : Update) : ℕ → List Layout → Used × List Ref → List Layout × Used × List Ref
  | _, [], a => ([], a)
  | l, ttLayout :: rest, a =>
    let done := setButtons u l 0 ttLayout.buttons a
    let more := setLayouts u (l + 1) rest done.2
    ({ ttLayout with buttons := done.1 } :: more.1, more.2)

/-- A write through a reference. -/
def writeAt (r : Ref) (f : ButtonDef → ButtonDef) (layouts : List Layout) : List Layout :=
  layouts.modify r.1 fun l => { l with buttons := l.buttons.modify r.2 f }

/-- The second pass: the letters no button has yet, one for each fill button; `break` when there are
no more buttons. -/
def fillButtons (p : Platform) : List ℕ → List Ref → Used → List Layout → List Layout
  | [], _, _, layouts => layouts
  | c :: cs, refs, used, layouts =>
    if used c = some true then fillButtons p cs refs used layouts
    else match refs with
      | [] => layouts
      | r :: refs =>
        fillButtons p cs refs (Function.update used c (some true))
          (writeAt r (fun d => { d with nCharacter := c, sText := p.utf8Encode c, bEnabled := true }) layouts)

/-- The inner loop of the third pass: `bVisible`, `bIsCharAvail`, `bIsSpaceAvail` when it ends. -/
def scan : List ButtonDef → Bool → Bool → Bool × Bool × Bool
  | [], bIsCharAvail, bIsSpaceAvail => (false, bIsCharAvail, bIsSpaceAvail)
  | d :: ds, bIsCharAvail, bIsSpaceAvail =>
    if d.nCharacter ≠ 0 ∧ d.nCharacter ≠ nSpace then
      if d.bEnabled then (true, true, bIsSpaceAvail)
      else scan ds true bIsSpaceAvail
    else if d.nCharacter = nSpace ∧ d.bEnabled then scan ds bIsCharAvail true
    else scan ds bIsCharAvail bIsSpaceAvail

/-- `bVisible` of a layout before which `nLayout` visible ones were found. -/
def isVisible (nLayout : ℕ) (buttons : List ButtonDef) : Bool :=
  let (bVisible, bIsCharAvail, bIsSpaceAvail) := scan buttons false false
  -- characters but none enabled, and an enabled space bar: only before the first visible layout
  bVisible || (nLayout == 0 && bIsCharAvail && bIsSpaceAvail)

/-- The third pass and the number of visible layouts it ends with. -/
def setVisible : ℕ → List Layout → List Layout × ℕ
  | nLayout, [] => ([], nLayout)
  | nLayout, ttLayout :: rest =>
    let bVisible := isVisible nLayout ttLayout.buttons
    let more := setVisible (if bVisible then nLayout + 1 else nLayout) rest
    ({ ttLayout with bVisible := bVisible } :: more.1, more.2)

/-- The three passes of `updateEnabled`. -/
def refresh (p : Platform) (u : Update) (layouts : List Layout) : List Layout × ℕ :=
  let first := setLayouts u 0 layouts (unused u.tCharacters, [])
  let second :=
    if u.bUseFill then fillButtons p u.tCharacters first.2.2 first.2.1 first.1 else first.1
  setVisible 0 second

/-! ## What a refresh keeps -/

/-- Which buttons are fill buttons. -/
def fills (layouts : List Layout) : List (List Bool) := layouts.map fun l => l.buttons.map ButtonDef.bFill

/-- `r` refers to a fill button. -/
def IsFill (layouts : List Layout) (r : Ref) : Prop :=
  ∃ bs, (fills layouts)[r.1]? = some bs ∧ bs[r.2]? = some true

theorem isFill_congr {layouts layouts' : List Layout} {r : Ref} (h : fills layouts' = fills layouts) :
    IsFill layouts' r ↔ IsFill layouts r := by
  unfold IsFill
  rw [h]

@[simp] theorem setDefined_bFill (u : Update) (used : Used) (d : ButtonDef) :
    (setDefined u used d).1.bFill = d.bFill := by
  unfold setDefined
  split_ifs <;> rfl

@[simp] theorem gateSpace_bFill (u : Update) (d : ButtonDef) : (gateSpace u d).bFill = d.bFill := by
  unfold gateSpace
  split_ifs <;> rfl

@[simp] theorem setButton_bFill (u : Update) (used : Used) (d : ButtonDef) :
    (setButton u used d).1.bFill = d.bFill := by
  simp [setButton]

theorem setButtons_fills (u : Update) (l : ℕ) : ∀ (b : ℕ) (ds : List ButtonDef) (a : Used × List Ref),
    (setButtons u l b ds a).1.map ButtonDef.bFill = ds.map ButtonDef.bFill
  | _, [], _ => rfl
  | b, d :: ds, (used, refs) => by
    unfold setButtons
    simp [setButtons_fills u l (b + 1) ds]

theorem setLayouts_fills (u : Update) : ∀ (l : ℕ) (layouts : List Layout) (a : Used × List Ref),
    fills (setLayouts u l layouts a).1 = fills layouts
  | _, [], _ => rfl
  | l, ttLayout :: rest, a => by
    have ih := setLayouts_fills u (l + 1) rest (setButtons u l 0 ttLayout.buttons a).2
    unfold fills at ih
    unfold setLayouts fills
    simp [setButtons_fills, ih]

theorem fills_writeAt {r : Ref} {f : ButtonDef → ButtonDef} (hf : ∀ d, (f d).bFill = d.bFill)
    (layouts : List Layout) : fills (writeAt r f layouts) = fills layouts := by
  unfold fills writeAt
  apply List.ext_getElem?
  intro i
  rw [List.getElem?_map, List.getElem?_map, List.getElem?_modify]
  cases layouts[i]? with
  | none => simp
  | some l =>
    by_cases hi : r.1 = i
    · simp only [hi, if_true, Option.map_eq_map, Option.map_some, Option.some.injEq]
      apply List.ext_getElem?
      intro j
      rw [List.getElem?_map, List.getElem?_map, List.getElem?_modify]
      cases l.buttons[j]? with
      | none => simp
      | some d => by_cases hj : r.2 = j <;> simp [hj, hf]
    · simp [hi]

theorem isFill_writeAt {r r' : Ref} {f : ButtonDef → ButtonDef} (hf : ∀ d, (f d).bFill = d.bFill)
    (layouts : List Layout) : IsFill (writeAt r f layouts) r' ↔ IsFill layouts r' :=
  isFill_congr (fills_writeAt hf layouts)

theorem fillButtons_fills (p : Platform) : ∀ (cs : List ℕ) (refs : List Ref) (used : Used)
    (layouts : List Layout), fills (fillButtons p cs refs used layouts) = fills layouts
  | [], _, _, _ => rfl
  | c :: cs, refs, used, layouts => by
    unfold fillButtons
    by_cases hc : used c = some true
    · rw [if_pos hc]
      exact fillButtons_fills p cs refs used layouts
    · rw [if_neg hc]
      cases refs with
      | nil => rfl
      | cons r refs =>
        rw [fillButtons_fills p cs refs]
        apply fills_writeAt
        intro d
        rfl

theorem setVisible_fills : ∀ (n : ℕ) (layouts : List Layout),
    fills (setVisible n layouts).1 = fills layouts
  | _, [] => rfl
  | n, ttLayout :: rest => by
    have ih := setVisible_fills (if isVisible n ttLayout.buttons then n + 1 else n) rest
    unfold fills at ih
    unfold setVisible fills
    simp [ih]

/-- Layouts, sizes and fill buttons stay. -/
theorem fills_refresh (p : Platform) (u : Update) (layouts : List Layout) :
    fills (refresh p u layouts).1 = fills layouts := by
  unfold refresh
  rw [setVisible_fills]
  by_cases hu : u.bUseFill
  · simp only [hu, if_true]
    rw [fillButtons_fills, setLayouts_fills]
  · simp only [hu]
    exact setLayouts_fills u 0 layouts _

theorem sizes_eq_of_fills {layouts layouts' : List Layout} (h : fills layouts' = fills layouts) :
    layouts'.map (fun l => l.buttons.length) = layouts.map (fun l => l.buttons.length) := by
  have hl : ∀ ls : List Layout, ls.map (fun l => l.buttons.length) = (fills ls).map List.length := by
    intro ls
    simp [fills]
  rw [hl, hl, h]

/-! ## What a refresh says about every button -/

/-- `P` holds of every button of the table. -/
def AllButtons (P : ButtonDef → Prop) (layouts : List Layout) : Prop :=
  ∀ l ∈ layouts, ∀ d ∈ l.buttons, P d

variable {P P' : ButtonDef → Prop}

theorem setButtons_all {u : Update} (h : ∀ used d, P d → P' (setButton u used d).1) (l : ℕ) :
    ∀ {b : ℕ} {ds : List ButtonDef} {a : Used × List Ref},
      (∀ d ∈ ds, P d) → ∀ d ∈ (setButtons u l b ds a).1, P' d
  | _, [], _, _ => by simp [setButtons]
  | b, d :: ds, (used, refs), hds => by
    unfold setButtons
    intro d' hd'
    rcases List.mem_cons.1 hd' with rfl | hd'
    · exact h used d (hds d List.mem_cons_self)
    · exact setButtons_all h l (fun e he => hds e (List.mem_cons_of_mem d he)) d' hd'

theorem setLayouts_all {u : Update} (h : ∀ used d, P d → P' (setButton u used d).1) :
    ∀ {l : ℕ} {layouts : List Layout} {a : Used × List Ref},
      AllButtons P layouts → AllButtons P' (setLayouts u l layouts a).1
  | _, [], _, _ => by simp [setLayouts, AllButtons]
  | l, ttLayout :: rest, a, hall => by
    unfold setLayouts
    intro l' hl'
    rcases List.mem_cons.1 hl' with rfl | hl'
    · exact setButtons_all h l (hall ttLayout List.mem_cons_self)
    · exact setLayouts_all h (fun m hm => hall m (List.mem_cons_of_mem ttLayout hm)) l' hl'

theorem setVisible_all : ∀ {n : ℕ} {layouts : List Layout},
    AllButtons P layouts → AllButtons P (setVisible n layouts).1
  | _, [], _ => by simp [setVisible, AllButtons]
  | n, ttLayout :: rest, hall => by
    unfold setVisible
    intro l' hl'
    rcases List.mem_cons.1 hl' with rfl | hl'
    · exact hall ttLayout List.mem_cons_self
    · exact setVisible_all (fun m hm => hall m (List.mem_cons_of_mem ttLayout hm)) l' hl'

/-- A button after a write is a button from before, or the one written. -/
theorem writeAt_all {r : Ref} {f : ButtonDef → ButtonDef} {layouts : List Layout}
    (hall : AllButtons P layouts)
    (hf : ∀ l d, layouts[r.1]? = some l → l.buttons[r.2]? = some d → P (f d)) :
    AllButtons P (writeAt r f layouts) := by
  intro l' hl' d' hd'
  obtain ⟨i, hi⟩ := List.mem_iff_getElem?.1 hl'
  unfold writeAt at hi
  rw [List.getElem?_modify] at hi
  cases hl : layouts[i]? with
  | none => simp [hl] at hi
  | some l =>
    simp only [hl, Option.map_eq_map, Option.map_some, Option.some.injEq] at hi
    have hmem := List.mem_of_getElem? hl
    by_cases hr : r.1 = i
    · rw [if_pos hr] at hi
      subst hi
      obtain ⟨j, hj⟩ := List.mem_iff_getElem?.1 hd'
      rw [List.getElem?_modify] at hj
      cases hd : l.buttons[j]? with
      | none => simp [hd] at hj
      | some d =>
        simp only [hd, Option.map_eq_map, Option.map_some, Option.some.injEq] at hj
        by_cases hr' : r.2 = j
        · rw [if_pos hr'] at hj
          subst hj
          exact hf l d (hr ▸ hl) (hr' ▸ hd)
        · rw [if_neg hr'] at hj
          subst hj
          exact hall l hmem d (List.mem_of_getElem? hd)
    · rw [if_neg hr] at hi
      subst hi
      exact hall l hmem d' hd'

/-- The second pass writes to fill buttons only. -/
theorem fillButtons_all {p : Platform} (hP : ∀ d : ButtonDef, d.bFill → P d) :
    ∀ {cs : List ℕ} {refs : List Ref} {used : Used} {layouts : List Layout},
      (∀ r ∈ refs, IsFill layouts r) → AllButtons P layouts →
      AllButtons P (fillButtons p cs refs used layouts)
  | [], _, _, _, _, hall => hall
  | c :: cs, refs, used, layouts, hrefs, hall => by
    unfold fillButtons
    by_cases hc : used c = some true
    · rw [if_pos hc]
      exact fillButtons_all hP hrefs hall
    · rw [if_neg hc]
      cases refs with
      | nil => exact hall
      | cons r refs =>
        apply fillButtons_all hP
        · intro r' hr'
          refine (isFill_writeAt ?_ layouts).2 (hrefs r' (List.mem_cons_of_mem r hr'))
          exact fun _ => rfl
        · apply writeAt_all hall
          intro l d hl hd
          apply hP
          obtain ⟨bs, hbs, hb⟩ := hrefs r List.mem_cons_self
          unfold fills at hbs
          rw [List.getElem?_map, hl] at hbs
          simp only [Option.map_some, Option.some.injEq] at hbs
          subst hbs
          rw [List.getElem?_map, hd] at hb
          simpa using hb

/-- The first pass collects fill buttons only. -/
theorem setButtons_refs (u : Update) (l : ℕ) : ∀ (b : ℕ) (ds : List ButtonDef) (used : Used)
    (refs : List Ref), ∀ r ∈ (setButtons u l b ds (used, refs)).2.2,
      r ∈ refs ∨ ∃ k, r = (l, b + k) ∧ (ds.map ButtonDef.bFill)[k]? = some true
  | _, [], _, _, r, hr => .inl hr
  | b, d :: ds, used, refs, r, hr => by
    unfold setButtons at hr
    rcases setButtons_refs u l (b + 1) ds _ _ r hr with h | ⟨k, rfl, hk⟩
    · by_cases hd : d.bFill && u.bUseFill
      · rw [if_pos hd] at h
        rcases List.mem_append.1 h with h | h
        · exact .inl h
        · simp only [Bool.and_eq_true] at hd
          exact .inr ⟨0, by simpa using h, by simp [hd.1]⟩
      · rw [if_neg hd] at h
        exact .inl h
    · exact .inr ⟨k + 1, by rw [Nat.add_assoc, Nat.add_comm 1], by simpa using hk⟩

theorem setLayouts_refs (u : Update) : ∀ (l : ℕ) (layouts : List Layout) (a : Used × List Ref),
    ∀ r ∈ (setLayouts u l layouts a).2.2,
      r ∈ a.2 ∨ ∃ k b bs, r = (l + k, b) ∧ (fills layouts)[k]? = some bs ∧ bs[b]? = some true
  | _, [], _, r, hr => .inl hr
  | l, ttLayout :: rest, a, r, hr => by
    unfold setLayouts at hr
    rcases setLayouts_refs u (l + 1) rest _ r hr with h | ⟨k, b, bs, rfl, hk, hb⟩
    · rcases setButtons_refs u l 0 ttLayout.buttons a.1 a.2 r h with h | ⟨b, rfl, hb⟩
      · exact .inl h
      · exact .inr ⟨0, b, _, by simp, by simp [fills], hb⟩
    · refine .inr ⟨k + 1, b, bs, by rw [Nat.add_assoc, Nat.add_comm 1], ?_, hb⟩
      simpa [fills] using hk

/-- **A refresh, button by button.** What the first pass makes of every button and what holds of every
fill button holds of all buttons afterwards. -/
theorem refresh_all {p : Platform} {u : Update} {layouts : List Layout}
    (h : ∀ used d, P d → P' (setButton u used d).1) (hfill : u.bUseFill → ∀ d : ButtonDef, d.bFill → P' d)
    (hall : AllButtons P layouts) : AllButtons P' (refresh p u layouts).1 := by
  unfold refresh
  apply setVisible_all
  have hfirst := setLayouts_all h (l := 0) (a := (unused u.tCharacters, [])) hall
  by_cases hu : u.bUseFill
  · simp only [hu, if_true]
    apply fillButtons_all (hfill hu) _ hfirst
    intro r hr
    rw [isFill_congr (setLayouts_fills u 0 layouts _)]
    rcases setLayouts_refs u 0 layouts _ r hr with h | ⟨k, b, bs, rfl, hk, hb⟩
    · simp at h
    · exact ⟨bs, by simpa using hk, hb⟩
  · simp only [hu]
    exact hfirst

/-- A button that is not enabled. -/
def Off (d : ButtonDef) : Prop := d.bEnabled = false

/-- A button without a letter that is no fill button is never enabled. -/
def Blank (d : ButtonDef) : Prop := d.bFill = false → d.nCharacter = 0 → d.bEnabled = false

theorem setDefined_nCharacter {u : Update} {used : Used} {d : ButtonDef} (h : d.bFill = false) :
    (setDefined u used d).1.nCharacter = d.nCharacter := by
  unfold setDefined
  split_ifs <;> simp_all

@[simp] theorem gateSpace_nCharacter (u : Update) (d : ButtonDef) :
    (gateSpace u d).nCharacter = d.nCharacter := by
  unfold gateSpace
  split_ifs <;> rfl

/-- A button without a letter is left alone. -/
theorem setButton_of_zero {u : Update} {used : Used} {d : ButtonDef} (h : d.bFill = false)
    (hzero : d.nCharacter = 0) : setButton u used d = (d, used) := by
  have hs : d.nCharacter ≠ nSpace := by
    rw [hzero]
    decide
  have hset : setDefined u used d = (d, used) := by simp [setDefined, h, hzero]
  unfold setButton gateSpace
  simp [hset, hs]

theorem setButton_blank {u : Update} {used : Used} {d : ButtonDef} (h : Blank d) :
    Blank (setButton u used d).1 := by
  intro hfill hzero
  rw [setButton_bFill] at hfill
  unfold setButton at hzero
  rw [gateSpace_nCharacter, setDefined_nCharacter hfill] at hzero
  rw [setButton_of_zero hfill hzero]
  exact h hfill hzero

theorem setButton_disabled {u : Update} {used : Used} {d : ButtonDef} (hu : u.bEnabled = false)
    (h : Blank d) : Off (setButton u used d).1 := by
  have hset : (setDefined u used d).1.bEnabled = false := by
    unfold setDefined
    by_cases hfill : d.bFill
    · simp [hfill]
    · by_cases hzero : d.nCharacter = 0
      · simpa [hfill, hzero] using h (by simpa using hfill) hzero
      · by_cases hused : used d.nCharacter = none <;> simp [hfill, hzero, hused, hu]
  show (gateSpace u (setDefined u used d).1).bEnabled = false
  unfold gateSpace
  split_ifs
  · simp [hset]
  · exact hset

theorem blank_refresh {p : Platform} {u : Update} {layouts : List Layout} (h : AllButtons Blank layouts) :
    AllButtons Blank (refresh p u layouts).1 := by
  apply refresh_all (fun _ _ => setButton_blank) _ h
  intro _ d hd hfill
  simp [hd] at hfill

theorem disabled_refresh {p : Platform} {u : Update} {layouts : List Layout} (hu : u.bEnabled = false)
    (hf : u.bUseFill = false) (h : AllButtons Blank layouts) :
    AllButtons Off (refresh p u layouts).1 := by
  have hset : ∀ used d, Blank d → Off (setButton u used d).1 := fun _ _ => setButton_disabled hu
  apply refresh_all hset _ h
  intro hf'
  simp [hf] at hf'

/-! ## The visible layouts -/

theorem scan_disabled : ∀ {ds : List ButtonDef} {char : Bool}, (∀ d ∈ ds, d.bEnabled = false) →
    (scan ds char false).1 = false ∧ (scan ds char false).2.2 = false
  | [], _, _ => by simp [scan]
  | d :: ds, char, h => by
    have hd := h d List.mem_cons_self
    have hds : ∀ e ∈ ds, e.bEnabled = false := fun e he => h e (List.mem_cons_of_mem d he)
    unfold scan
    simp only [hd, Bool.false_eq_true, if_false, and_false]
    by_cases hc : d.nCharacter ≠ 0 ∧ d.nCharacter ≠ nSpace
    · rw [if_pos hc]
      exact scan_disabled hds
    · rw [if_neg hc]
      exact scan_disabled hds

theorem isVisible_disabled {n : ℕ} {ds : List ButtonDef} (h : ∀ d ∈ ds, d.bEnabled = false) :
    isVisible n ds = false := by
  unfold isVisible
  simp [scan_disabled h]

theorem setVisible_disabled : ∀ {n : ℕ} {layouts : List Layout},
    AllButtons Off layouts →
      ∀ l ∈ (setVisible n layouts).1, l.bVisible = false
  | _, [], _ => by simp [setVisible]
  | n, ttLayout :: rest, h => by
    unfold setVisible
    intro l hl
    rcases List.mem_cons.1 hl with rfl | hl
    · exact isVisible_disabled (h ttLayout List.mem_cons_self)
    · exact setVisible_disabled (fun m hm => h m (List.mem_cons_of_mem ttLayout hm)) l hl

theorem setVisible_count : ∀ (n : ℕ) (layouts : List Layout),
    (setVisible n layouts).2 = n + countVisible (setVisible n layouts).1
  | _, [] => rfl
  | n, ttLayout :: rest => by
    unfold setVisible countVisible
    rw [List.countP_cons]
    have ih := setVisible_count (if isVisible n ttLayout.buttons then n + 1 else n) rest
    unfold countVisible at ih
    by_cases hv : isVisible n ttLayout.buttons
    · simp only [hv, if_true] at ih ⊢
      omega
    · simp only [hv] at ih ⊢
      simpa using ih

/-- The counter of the third pass ends as the number of visible layouts. -/
theorem refresh_count (p : Platform) (u : Update) (layouts : List Layout) :
    (refresh p u layouts).2 = countVisible (refresh p u layouts).1 := by
  unfold refresh
  rw [setVisible_count, Nat.zero_add]

/-- A disabled speller has no visible layout. -/
theorem hidden_refresh {p : Platform} {u : Update} {layouts : List Layout} (hu : u.bEnabled = false)
    (hf : u.bUseFill = false) (h : AllButtons Blank layouts) :
    ∀ l ∈ (refresh p u layouts).1, l.bVisible = false := by
  have hset : ∀ used d, Blank d → Off (setButton u used d).1 := fun _ _ => setButton_disabled hu
  unfold refresh
  apply setVisible_disabled
  simp only [hf, Bool.false_eq_true, if_false]
  exact setLayouts_all hset h

end Speller
