import LinuxLearning.Speller.Cycle
import LinuxLearning.Speller.Space
/-!
# Which characters can be reached

A character is reached when some number of calls of `switchLayout` makes a layout with an enabled button for it
the current one. The third pass of `updateEnabled` (`:714-739`) decides what the calls can lead to: a layout with an
enabled character other than the space is visible; an enabled space makes a layout visible only before the first
visible one, and only with other characters on it ("otherwise the spacebar is accomodated in the previous layouts").

* `visible_rule` — that decision, for a table as a refresh leaves it (`Settled`);
* `offers_iff` — what can be reached: the enabled buttons of the visible layouts and of the current one;
* `reach_law` — in every run all enabled characters but the space, and the space if such a layout has it;
* `space_hidden` — the space need not be among them.
-/

namespace Speller

open Lua (index)

variable {p : Platform} {props : Props} {es : List Event} {s s' : State} {go : State → State}

/-- An enabled button for character `c`. -/
def HasKey (l : Layout) (c : ℕ) : Prop := ∃ d ∈ l.buttons, d.bEnabled = true ∧ d.nCharacter = c

/-- The layout has a character other than the space (`bIsCharAvail`). -/
def HasChar (l : Layout) : Prop := ∃ d ∈ l.buttons, d.nCharacter ≠ 0 ∧ d.nCharacter ≠ nSpace

/-- It has such a character on an enabled button. -/
def HasEnabledChar (l : Layout) : Prop :=
  ∃ d ∈ l.buttons, d.nCharacter ≠ 0 ∧ d.nCharacter ≠ nSpace ∧ d.bEnabled = true

/-- The current layout has an enabled button for character `c`. -/
def Offers (s : State) (c : ℕ) : Prop := ∃ l, index s.tttLayouts s.nLayout = some l ∧ HasKey l c

/-- An enabled space on a visible layout or on the current one. -/
def SpaceShown (s : State) : Prop :=
  (∃ l ∈ s.tttLayouts, l.bVisible = true ∧ HasKey l nSpace) ∨ Offers s nSpace

instance (l : Layout) (c : ℕ) : Decidable (HasKey l c) := by
  unfold HasKey
  infer_instance

instance (s : State) (c : ℕ) : Decidable (Offers s c) :=
  decidable_of_iff ((index s.tttLayouts s.nLayout).any fun l => decide (HasKey l c)) (by
    simp [Offers, Option.any_eq_true])

instance (s : State) : Decidable (SpaceShown s) := by
  unfold SpaceShown
  infer_instance

/-! ## The visible layouts -/

/-- What the inner loop of the third pass has found when it ends. -/
theorem scan_spec (ds : List ButtonDef) (char space : Bool) :
    ((scan ds char space).1 = true ↔ ∃ d ∈ ds, d.nCharacter ≠ 0 ∧ d.nCharacter ≠ nSpace ∧ d.bEnabled = true) ∧
      ((scan ds char space).1 = false →
        ((scan ds char space).2.1 = true ↔ char = true ∨ ∃ d ∈ ds, d.nCharacter ≠ 0 ∧ d.nCharacter ≠ nSpace) ∧
        ((scan ds char space).2.2 = true ↔ space = true ∨
          ∃ d ∈ ds, d.bEnabled = true ∧ d.nCharacter = nSpace)) := by
  induction ds generalizing char space with
  | nil => simp [scan]
  | cons d ds ih =>
    unfold scan
    by_cases hchar : d.nCharacter ≠ 0 ∧ d.nCharacter ≠ nSpace
    · rw [if_pos hchar]
      by_cases hon : d.bEnabled
      · rw [if_pos hon]
        simp [hchar, hon]
      · rw [if_neg hon]
        obtain ⟨hvis, hrest⟩ := ih true space
        refine ⟨?_, fun hnot => ?_⟩
        · rw [hvis]
          simp [hon]
        · obtain ⟨h₁, h₂⟩ := hrest hnot
          rw [h₁, h₂]
          simp [hchar, hon]
    · rw [if_neg hchar]
      by_cases hspace : d.nCharacter = nSpace ∧ d.bEnabled = true
      · rw [if_pos hspace]
        obtain ⟨hvis, hrest⟩ := ih char true
        refine ⟨?_, fun hnot => ?_⟩
        · rw [hvis]
          simp [hspace]
        · obtain ⟨h₁, h₂⟩ := hrest hnot
          rw [h₁, h₂]
          simp [hspace]
      · rw [if_neg hspace]
        obtain ⟨hvis, hrest⟩ := ih char space
        have hno₁ : ¬ (d.nCharacter ≠ 0 ∧ d.nCharacter ≠ nSpace ∧ d.bEnabled = true) :=
          fun h => hchar ⟨h.1, h.2.1⟩
        have hno₂ : ¬ (d.bEnabled = true ∧ d.nCharacter = nSpace) := fun h => hspace ⟨h.2, h.1⟩
        simp only [List.mem_cons, exists_eq_or_imp, hchar, hno₁, hno₂, false_or]
        exact ⟨hvis, hrest⟩

theorem isVisible_iff {n : ℕ} {l : Layout} : isVisible n l.buttons = true ↔
    HasEnabledChar l ∨ n = 0 ∧ HasChar l ∧ HasKey l nSpace := by
  obtain ⟨hvis, hrest⟩ := scan_spec l.buttons false false
  unfold isVisible HasEnabledChar HasChar HasKey
  cases hscan : (scan l.buttons false false).1 with
  | true =>
    rw [hscan] at hvis
    simp only [hscan, Bool.true_or, true_iff]
    exact .inl (hvis.1 rfl)
  | false =>
    rw [hscan] at hvis
    obtain ⟨h₁, h₂⟩ := hrest hscan
    simp only [hscan, Bool.false_or, Bool.and_eq_true, beq_iff_eq, h₁, h₂]
    simp only [Bool.false_eq_true, false_iff] at hvis
    simp [hvis, and_assoc]

/-- The flags are those of a refresh. -/
def Settled (layouts : List Layout) : Prop := (setVisible 0 layouts).1 = layouts

theorem setVisible_cons (n : ℕ) (ttLayout : Layout) (rest : List Layout) :
    (setVisible n (ttLayout :: rest)).1 = { ttLayout with bVisible := isVisible n ttLayout.buttons } ::
      (setVisible (if isVisible n ttLayout.buttons then n + 1 else n) rest).1 := rfl

theorem setVisible_twice (n : ℕ) (layouts : List Layout) :
    (setVisible n (setVisible n layouts).1).1 = (setVisible n layouts).1 := by
  induction layouts generalizing n with
  | nil => rfl
  | cons ttLayout rest ih =>
    rw [setVisible_cons, setVisible_cons]
    exact congrArg _ (ih _)

theorem setVisible_rule {n k : ℕ} {layouts : List Layout} {l : Layout} (h : (setVisible n layouts).1[k]? = some l) :
    l.bVisible = true ↔ HasEnabledChar l ∨
      n = 0 ∧ (∀ l' ∈ (setVisible n layouts).1.take k, l'.bVisible = false) ∧ HasChar l ∧ HasKey l nSpace := by
  induction layouts generalizing n k with
  | nil => simp [setVisible] at h
  | cons ttLayout rest ih =>
    unfold setVisible at h ⊢
    cases k with
    | zero =>
      simp only [List.getElem?_cons_zero, Option.some.injEq] at h
      subst h
      have hvis := @isVisible_iff n { ttLayout with bVisible := isVisible n ttLayout.buttons }
      simpa using hvis
    | succ k =>
      rw [List.getElem?_cons_succ] at h
      rw [ih h]
      by_cases hv : isVisible n ttLayout.buttons
      · simp [hv]
      · simp [hv]

/-- **The visible layouts** of a table that a refresh has left. -/
theorem visible_rule {layouts : List Layout} (hset : Settled layouts) {k : ℕ} {l : Layout}
    (h : layouts[k]? = some l) : l.bVisible = true ↔ HasEnabledChar l ∨
      (∀ l' ∈ layouts.take k, l'.bVisible = false) ∧ HasChar l ∧ HasKey l nSpace := by
  have hl : (setVisible 0 layouts).1[k]? = some l := by
    rw [hset]
    exact h
  have hrule := setVisible_rule hl
  rw [hset] at hrule
  simpa using hrule

theorem settled_refreshed (p : Platform) (s : State) : Settled (s.refreshed p).1 := setVisible_twice 0 _

theorem settled_step (hin : InRange s) (h : Settled s.tttLayouts) {e : Event} (hs : step p e s = some s') :
    Settled s'.tttLayouts := by
  rw [(step_moved hin hs).tttLayouts]
  cases hfrom : refreshesFrom e s with
  | none =>
    rw [(written_rest hfrom).1]
    exact h
  | some t =>
    rw [(written_refresh hfrom).1]
    exact settled_refreshed p t

theorem settled_run (h : Run.exec (step p) es (constructor p props) = some s) :
    InRange s ∧ Settled s.tttLayouts := by
  apply Run.invariant' (I := fun s => InRange s ∧ Settled s.tttLayouts)
    (fun _ _ _ hs hstep => ⟨step_inRange hs.1 hstep, settled_step hs.1 hs.2 hstep⟩) _ h
  refine ⟨inRange_constructor p props, ?_⟩
  rw [(constructor_moved p props).tttLayouts]
  exact settled_refreshed p _

/-! ## What the calls lead to -/

/-- A call is for every visible layout. -/
theorem exists_switches (hgo : Switches go) (h : InRange s) {i : ℤ} (hv : visibleAt s.tttLayouts i = some true) :
    ∃ k, (go^[k] s).nLayout = i := by
  have hmem : i ∈ (round s.tttLayouts s.nLayout).map (ahead s.tttLayouts.length s.nLayout) :=
    (round_perm h.1 h.2).mem_iff.2 (mem_visibleLayouts.2 hv)
  rw [← switches_tour hgo h] at hmem
  obtain ⟨t, ht, rfl⟩ := List.mem_map.1 hmem
  obtain ⟨k, -, rfl⟩ := List.mem_iterate.1 ht
  exact ⟨k + 1, by rw [Function.iterate_succ_apply]⟩

/-- The calls lead to visible layouts, or nowhere else. -/
theorem switches_to (hgo : Switches go) (h : InRange s) (k : ℕ) :
    visibleAt s.tttLayouts (go^[k] s).nLayout = some true ∨ (go^[k] s).nLayout = s.nLayout := by
  induction k with
  | zero => exact .inr rfl
  | succ k ih =>
    obtain ⟨hin, htable⟩ := hgo.iterate h k
    have hnext := (hgo _ hin).2
    rw [Function.iterate_succ_apply']
    rw [htable] at hnext
    rcases hnext with ⟨_, -, -, -, hv, -⟩ | ⟨hsame, -⟩
    · exact .inl hv
    · rw [hsame]
      exact ih

/-- **What can be reached**: what is enabled on a visible layout or on the current one. -/
theorem offers_iff (hgo : Switches go) (h : InRange s) {c : ℕ} : (∃ k, Offers (go^[k] s) c) ↔
    (∃ l ∈ s.tttLayouts, l.bVisible = true ∧ HasKey l c) ∨ Offers s c := by
  have hoffers : ∀ k, Offers (go^[k] s) c ↔ ∃ l, index s.tttLayouts (go^[k] s).nLayout = some l ∧ HasKey l c := by
    intro k
    unfold Offers
    rw [(hgo.iterate h k).2]
  constructor
  · rintro ⟨k, hk⟩
    obtain ⟨l, hl, hkey⟩ := (hoffers k).1 hk
    rcases switches_to hgo h k with hv | hsame
    · unfold visibleAt at hv
      rw [hl, Option.map_some, Option.some.injEq] at hv
      exact .inl ⟨l, Lua.mem_of_index hl, hv, hkey⟩
    · rw [hsame] at hl
      exact .inr ⟨l, hl, hkey⟩
  · rintro (⟨l, hmem, hv, hkey⟩ | hcur)
    · obtain ⟨i, hl⟩ := Lua.index_of_mem hmem
      have hvis : visibleAt s.tttLayouts i = some true := by
        unfold visibleAt
        rw [hl, Option.map_some, hv]
      obtain ⟨k, rfl⟩ := exists_switches hgo h hvis
      exact ⟨k, (hoffers k).2 ⟨l, hl, hkey⟩⟩
    · exact ⟨0, hcur⟩

/-- A button for a character other than the space makes its layout visible. -/
theorem visible_of_char {l : Layout} {d : ButtonDef} (hset : Settled s.tttLayouts) (hl : l ∈ s.tttLayouts)
    (hd : d ∈ l.buttons) (hon : d.bEnabled = true) (hzero : d.nCharacter ≠ 0) (hspace : d.nCharacter ≠ nSpace) :
    l.bVisible = true := by
  obtain ⟨k, hk⟩ := List.mem_iff_getElem?.1 hl
  exact (visible_rule hset hk).2 (.inl ⟨d, hd, hzero, hspace, hon⟩)

/-- **Reaching the characters.** In every state of a run, the calls of `switchLayout` lead to every enabled
character other than the space, and to an enabled space if and only if a visible layout or the current one has
one. Which layouts are visible is what the comment says: those with an enabled character other than the space, and
those before the first visible one with such a character and an enabled space. -/
theorem reach_law (h : Run.exec (step p) es (constructor p props) = some s) :
    (∀ l ∈ s.tttLayouts, ∀ d ∈ l.buttons, d.bEnabled = true → d.nCharacter ≠ 0 →
      ((∃ k, Offers ((next p)^[k] s) d.nCharacter) ↔ d.nCharacter ≠ nSpace ∨ SpaceShown s)) ∧
    ∀ k l, s.tttLayouts[k]? = some l → (l.bVisible = true ↔ HasEnabledChar l ∨
      (∀ l' ∈ s.tttLayouts.take k, l'.bVisible = false) ∧ HasChar l ∧ HasKey l nSpace) := by
  obtain ⟨hin, hset⟩ := settled_run h
  refine ⟨?_, fun k l hl => visible_rule hset hl⟩
  intro l hl d hd hon hzero
  rw [offers_iff (switches_next p) hin]
  by_cases hspace : d.nCharacter = nSpace
  · simp [hspace, SpaceShown]
  · have hv := visible_of_char hset hl hd hon hzero hspace
    simp only [ne_eq, hspace, not_false_eq_true, true_or, iff_true]
    exact .inl ⟨l, hl, hv, d, hd, hon, rfl⟩

/-- A letter of the second layout is one call away. -/
theorem reach_law_sample : ∃ s, Run.exec (step numPad) [] (constructor numPad allKeys) = some s ∧
    s.nLayout = 1 ∧ ∃ k, Offers ((next numPad)^[k] s) 97 := by
  have hrun : Run.exec (step numPad) [] (constructor numPad allKeys) = some (constructor numPad allKeys) := rfl
  have hkey : ∃ l ∈ (constructor numPad allKeys).tttLayouts, ∃ d ∈ l.buttons,
      d.bEnabled = true ∧ d.nCharacter = 97 := by
    decide +kernel
  obtain ⟨l, hl, d, hd, hon, hc⟩ := hkey
  have hlaw := (reach_law hrun).1 l hl d hd hon (by omega)
  rw [hc] at hlaw
  exact ⟨_, hrun, by decide +kernel, hlaw.2 (.inl (by decide))⟩

/-- Two layouts of 12 keys, the second one with a space. -/
def spacePad : Platform := { numPad with getSpellerLayoutSequence := fun _ => ["123456789*0#", "abcdefghijk "] }

/-- The entry field is not empty. -/
def reportFilled : Event := .onMessage ⟨.WIDGET_ENTRYFIELD_EMPTY, .nil, .number 0, by simp⟩

/-- The letters are `1` and the space: the second layout has an enabled space and is never switched to. -/
theorem space_hidden : ∃ s,
    Run.exec (step spacePad) [reportFilled] (constructor spacePad ⟨some "1 ", some 0, some 1⟩) = some s ∧
      WellSized spacePad ∧
      (∃ l ∈ s.tttLayouts, ∃ d ∈ l.buttons, d.bEnabled = true ∧ d.nCharacter = nSpace ∧ d.nCharacter ≠ 0) ∧
      ¬ ∃ k, Offers ((next spacePad)^[k] s) nSpace := by
  have h : (Run.exec (step spacePad) [reportFilled] (constructor spacePad ⟨some "1 ", some 0, some 1⟩)).map
      (fun s => (decide (∃ l ∈ s.tttLayouts, ∃ d ∈ l.buttons,
        d.bEnabled = true ∧ d.nCharacter = nSpace ∧ d.nCharacter ≠ 0), decide (SpaceShown s))) =
      some (true, false) := by
    decide +kernel
  obtain ⟨s, hs, he⟩ := Option.map_eq_some_iff.1 h
  simp only [Prod.mk.injEq, decide_eq_true_eq, decide_eq_false_iff_not] at he
  refine ⟨s, hs, by decide +kernel, he.1, ?_⟩
  rw [offers_iff (switches_next spacePad) (settled_run hs).1]
  exact he.2

end Speller
