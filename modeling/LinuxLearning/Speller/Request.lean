import LinuxLearning.Speller.Focus
/-!
# Accepting or bouncing the focus

A button container asks the speller to take the focus on its first or on its last button (`:918-943`). The speller
puts the cursor on the button nearest to position 0 or to position N, the number of buttons, and bounces the
request if there is none.

* `Accepts` — the test `repositionCursor` makes of a position (`:1087`, `:1093`);
* `Passed`, `repositionCursor_spec` — the search takes the first position that passes it (`:1084-1098`);
* `Answered` — what an answer to a request is;
* `request_law` — every request is answered if the speller is enabled, those for the first button always;
* `disabled_last` — a disabled speller takes the focus on its last button, though none is enabled.
-/

namespace Speller

open Lua (index wp wp_bind wp_mono wp_ite wp_when upTo)

variable {p : Platform} {props : Props} {es : List Event} {s s' : State} {n : ℕ}

/-! ## The search for a button -/

/-- Button `b` exists and is enabled; the first of the two tests also takes a button of a disabled speller. -/
def Accepts (p : Platform) (s : State) (b : ℤ) (orDisabled : Bool) : Prop :=
  0 < b ∧ b ≤ tNumButtons p s.nCurrentLayoutType ∧
    ∃ d, s.buttonDef? b = some d ∧ (d.bEnabled = true ∨ orDisabled = true ∧ s.bEnabled = false)

/-- The rounds before round `i` have found nothing. -/
def Passed (p : Platform) (s : State) (nDefaultPos i : ℤ) : Prop :=
  ∀ j, 1 ≤ j → j < i → ¬ Accepts p s (nDefaultPos - j + 1) true ∧ ¬ Accepts p s (nDefaultPos + j) false

/-- Round `i` is the first to find a button, `b`. -/
structure Found (p : Platform) (s : State) (nDefaultPos i b : ℤ) : Prop where
  bounds : 1 ≤ i ∧ i ≤ tNumButtons p s.nCurrentLayoutType
  passed : Passed p s nDefaultPos i
  here : b = nDefaultPos - i + 1 ∧ Accepts p s b true ∨
    ¬ Accepts p s (nDefaultPos - i + 1) true ∧ b = nDefaultPos + i ∧ Accepts p s b false

theorem tryIndex_spec (h : ¬ Missing p s) (b : ℤ) (orDisabled : Bool) :
    wp (tryIndex p b orDisabled)
      (fun found s' => found = true ∧ Accepts p s b orDisabled ∧ s' = { s with nCursor := some b } ∨
        found = false ∧ ¬ Accepts p s b orDisabled ∧ s' = s)
      (fun _ _ => False) s := by
  unfold tryIndex
  simp only [wp_bind, Lua.wp_get, wp_ite, Lua.wp_orRaise, Lua.wp_modify, Lua.wp_pure]
  constructor
  · rintro ⟨h₀, hb⟩
    refine ⟨fun d hd => ?_, fun hnone => h ⟨b, h₀, hb, hnone⟩⟩
    have haccepts : Accepts p s b orDisabled ↔ d.bEnabled = true ∨ orDisabled = true ∧ s.bEnabled = false := by
      constructor
      · rintro ⟨-, -, d', hd', hon⟩
        rw [hd, Option.some.injEq] at hd'
        exact hd' ▸ hon
      · exact fun hon => ⟨h₀, hb, d, hd, hon⟩
    rw [haccepts]
    constructor
    · intro hon
      exact .inl ⟨trivial, by simpa using hon, trivial⟩
    · intro hoff
      exact .inr ⟨trivial, by simpa using hoff, trivial⟩
  · intro hout
    exact .inr ⟨trivial, fun haccepts => hout ⟨haccepts.1, haccepts.2.1⟩, trivial⟩

/-- The round after `done` is the one with the next number. -/
theorem upTo_split {m : ℕ} {done rest : List ℤ} {x : ℤ} (h : upTo m = done ++ x :: rest) :
    x = done.length + 1 ∧ done.length < m := by
  have hx : (upTo m)[done.length]? = some x := by
    rw [h]
    simp
  unfold upTo at hx
  obtain ⟨k, hk, rfl⟩ := Option.map_eq_some_iff.1 (List.getElem?_map ▸ hx)
  obtain ⟨hlt, hk'⟩ := List.getElem?_eq_some_iff.1 hk
  rw [List.getElem_range] at hk'
  rw [List.length_range] at hlt
  exact ⟨by omega, hlt⟩

/-- **The search.** The cursor is put on the button that the first round to find one finds. -/
theorem repositionCursor_spec (h : ¬ Missing p s) (nDefaultPos : Option ℤ) :
    wp (repositionCursor p nDefaultPos)
      (fun found s' =>
        found = true ∧ (∃ i b, Found p s (nDefaultPos.getD 1) i b ∧ s' = { s with nCursor := some b }) ∨
        found = false ∧ Passed p s (nDefaultPos.getD 1) (tNumButtons p s.nCurrentLayoutType + 1) ∧
          s' = { s with nCursor := none })
      (fun _ _ => False) s := by
  unfold repositionCursor
  simp only [wp_bind, Lua.wp_get, Lua.wp_modify, Lua.wp_pure]
  generalize nDefaultPos.getD 1 = pos
  apply Lua.wp_loop (fun done s' => s' = { s with nCursor := none } ∧ Passed p s pos (done.length + 1)) _ _
    (List.nil_append _).symm
  · refine ⟨rfl, ?_⟩
    intro j hj₁ hj₂
    simp only [List.length_nil, Nat.cast_zero, zero_add] at hj₂
    omega
  · rintro s' ⟨rfl, hpassed⟩
    refine .inr ⟨rfl, ?_, rfl⟩
    simpa [upTo] using hpassed
  · rintro done x rest s' hall ⟨rfl, hpassed⟩
    obtain ⟨rfl, hlt⟩ := upTo_split hall
    have hbounds : (1 : ℤ) ≤ done.length + 1 ∧
        ((done.length : ℤ) + 1) ≤ tNumButtons p s.nCurrentLayoutType := ⟨by omega, by omega⟩
    unfold probe
    rw [wp_bind]
    apply wp_mono (tryIndex_spec (s := { s with nCursor := none }) h _ _) _ (fun _ _ h => h)
    rintro found s' (⟨rfl, haccepts, rfl⟩ | ⟨rfl, hno₁, rfl⟩)
    · refine ⟨fun hnone => by simp at hnone, fun _ _ => .inl ⟨rfl, _, _, ⟨hbounds, hpassed, ?_⟩, rfl⟩⟩
      exact .inl ⟨rfl, haccepts⟩
    · simp only [Bool.false_eq_true, if_false, wp_bind]
      apply wp_mono (tryIndex_spec (s := { s with nCursor := none }) h _ _) _ (fun _ _ h => h)
      rintro found s' (⟨rfl, haccepts, rfl⟩ | ⟨rfl, hno₂, rfl⟩)
      · refine ⟨fun hnone => by simp at hnone, fun _ _ => .inl ⟨rfl, _, _, ⟨hbounds, hpassed, ?_⟩, rfl⟩⟩
        exact .inr ⟨hno₁, rfl, haccepts⟩
      · refine ⟨fun _ => ⟨rfl, ?_⟩, fun b hb => by simp at hb⟩
        intro j hj₁ hj₂
        rw [List.length_append] at hj₂
        simp only [List.length_cons, List.length_nil] at hj₂
        by_cases hj : j < done.length + 1
        · exact hpassed j hj₁ hj
        · obtain rfl : j = done.length + 1 := by omega
          exact ⟨hno₁, hno₂⟩

/-! ## The request -/

/-- Button `b` of the current layout is enabled. -/
def On (s : State) (b : ℤ) : Prop := ∃ d, s.buttonDef? b = some d ∧ d.bEnabled = true

/-- With an enabled button the speller takes the focus, the cursor on the first or on the last one, and sends
nothing. Without one it stays without focus and cursor and sends one message. -/
structure Answer (s : State) (link : Link) (first : Bool) (s' : State) : Prop where
  taken : (∃ b, On s b) → s'.bGotFocus = true ∧ focusMessages s'.log = focusMessages s.log ∧
    ∃ b, s'.nCursor = some b ∧ On s b ∧ ∀ b', On s b' → if first then b ≤ b' else b' ≤ b
  bounced : (¬ ∃ b, On s b) → s'.bGotFocus = false ∧ s'.nCursor = none ∧
    focusMessages s'.log = focusMessages s.log ++ [.sendFocus (some link) 2]

/-- The handler returns and leaves the answer. -/
def Answered (p : Platform) (s : State) (link : Link) (first : Bool) : Prop :=
  ∃ s', Lua.run (handle p (request link first)) s = (.ok (), s') ∧ Answer s link first s'

/-- Position 0 or N. -/
def startPos (p : Platform) (s : State) (first : Bool) : ℤ :=
  if first then 0 else tNumButtons p s.nCurrentLayoutType

/-- **What a request does**: the search decides. -/
theorem request_spec (h : ¬ Missing p s) (hf : s.bGotFocus = false) (link : Link) (first : Bool) :
    wp (handle p (request link first))
      (fun _ s' =>
        (∃ i b, Found p s (startPos p s first) i b ∧ s'.bGotFocus = true ∧ s'.nCursor = some b ∧
          focusMessages s'.log = focusMessages s.log) ∨
        (Passed p s (startPos p s first) (tNumButtons p s.nCurrentLayoutType + 1) ∧ s'.bGotFocus = false ∧
          s'.nCursor = none ∧ focusMessages s'.log = focusMessages s.log ++ [.sendFocus (some link) 2]))
      (fun _ _ => False) s := by
  have hpos : ((if first then 1 else 2 : ℤ) - 1) * tNumButtons p s.nCurrentLayoutType = startPos p s first := by
    unfold startPos
    cases first <;> simp
  unfold handle request onMessage onSetFocusMessage onSetFocus
  simp only [wp_bind, Lua.wp_get, Lua.wp_modify, wp_when, Param.link?, Param.number?, Lua.orRaise_some, Lua.wp_pure]
  refine ⟨fun _ => ?_, fun hfocus => absurd hf hfocus⟩
  rw [hpos]
  apply wp_mono (repositionCursor_spec (s := { s with pButtonContainer := some link }) h _) _ (fun _ _ h => h)
  rintro found s' (⟨rfl, i, b, hfound, rfl⟩ | ⟨rfl, hpassed, rfl⟩)
  · obtain ⟨tButton, hbutton⟩ : ∃ tButton, index (tttButtons p s.nCurrentLayoutType) b = some tButton := by
      rcases hfound.here with ⟨-, haccepts⟩ | ⟨-, -, haccepts⟩
      · exact Lua.exists_index haccepts.1 haccepts.2.1
      · exact Lua.exists_index haccepts.1 haccepts.2.1
    have heq := focusGained_eq { s with pButtonContainer := some link, nCursor := some b } hf
    have htype : (focusGained { s with pButtonContainer := some link, nCursor := some b }).nCurrentLayoutType =
        s.nCurrentLayoutType := by
      rw [heq]
    have hcursor : (focusGained { s with pButtonContainer := some link, nCursor := some b }).nCursor = some b := by
      rw [heq]
    simp only [if_true, wp_bind, Lua.wp_get, Lua.wp_modify, hcursor, Lua.orRaise_some, Lua.wp_pure,
      wp_invalidateButton, htype, hbutton, reduceCtorEq, false_implies, and_true, Option.some.injEq, forall_eq']
    refine .inl ⟨i, b, ⟨hfound.bounds, hfound.passed, hfound.here⟩, ?_, ?_, ?_⟩
    · rw [heq]
    · trivial
    · rw [heq]
      simp [isFocus_invalidateRect]
  · simp only [Bool.false_eq_true, if_false, wp_sendFocus]
    refine .inr ⟨hpassed, hf, trivial, ?_⟩
    simp [focusMessages, Effect.isFocus]

/-! ## When it is answered -/

theorem accepts_of_on {b : ℤ} {orDisabled : Bool} (hin : b ≤ tNumButtons p s.nCurrentLayoutType) (h : On s b) :
    Accepts p s b orDisabled := by
  obtain ⟨d, hd, hon⟩ := h
  refine ⟨?_, hin, d, hd, .inl hon⟩
  unfold State.buttonDef? at hd
  obtain ⟨l, -, hd⟩ := Option.bind_eq_some_iff.1 hd
  exact (Lua.bounds_of_index hd).1

/-- Every button of a complete layout is in the table. -/
theorem Complete.bounds (h : Complete p s) {b : ℤ} (hon : On s b) :
    0 < b ∧ b ≤ tNumButtons p s.nCurrentLayoutType := by
  obtain ⟨l, hl, hsize⟩ := h
  obtain ⟨d, hd, -⟩ := hon
  unfold State.buttonDef? at hd
  rw [hl, Option.bind_some] at hd
  have hb := Lua.bounds_of_index hd
  omega

/-- From position 0 only the second test can find a button, and it asks for an enabled one. -/
theorem first_on {i b : ℤ} (h : Found p s 0 i b) : b = i ∧ On s b := by
  obtain ⟨hi, -, ⟨hb, haccepts⟩ | ⟨-, hb, -, -, d, hd, hon⟩⟩ := h
  · have hpos := haccepts.1
    omega
  · refine ⟨by omega, d, hd, ?_⟩
    simpa using hon

/-- From position N only the first test can. -/
theorem last_on (hen : s.bEnabled = true) {i b : ℤ} (h : Found p s (tNumButtons p s.nCurrentLayoutType) i b) :
    b = tNumButtons p s.nCurrentLayoutType - i + 1 ∧ On s b := by
  obtain ⟨hi, -, ⟨hb, -, -, d, hd, hon⟩ | ⟨-, hb, haccepts⟩⟩ := h
  · refine ⟨hb, d, hd, ?_⟩
    simpa [hen] using hon
  · have hin := haccepts.2.1
    omega

/-- The search of a request passes over no enabled button. -/
theorem on_of_passed {first : Bool} {i b : ℤ} (hin : 0 < b ∧ b ≤ tNumButtons p s.nCurrentLayoutType)
    (h : Passed p s (startPos p s first) i) (hon : On s b) :
    if first then i ≤ b else i ≤ tNumButtons p s.nCurrentLayoutType - b + 1 := by
  cases first with
  | true =>
    by_contra hlt
    simp only [if_true, not_le] at hlt
    have hno := (h b hin.1 hlt).2
    simp only [startPos, if_true, zero_add] at hno
    exact hno (accepts_of_on hin.2 hon)
  | false =>
    by_contra hlt
    simp only [Bool.false_eq_true, if_false, not_le] at hlt
    have hno := (h (tNumButtons p s.nCurrentLayoutType - b + 1) (by omega) hlt).1
    have hb : startPos p s false - (tNumButtons p s.nCurrentLayoutType - b + 1) + 1 = b := by
      simp only [startPos, Bool.false_eq_true, if_false]
      omega
    rw [hb] at hno
    exact hno (accepts_of_on hin.2 hon)

/-- **An enabled speller answers every request**, and any speller those for the first button. -/
theorem answered_of (h : Sized p s) (hf : s.bGotFocus = false) (link : Link) {first : Bool}
    (hcond : s.bEnabled = true ∨ first = true) : Answered p s link first := by
  obtain ⟨_, s', hrun, hs'⟩ := Lua.returns_of_wp (request_spec (not_missing h) hf link first)
  refine ⟨s', hrun, ?_⟩
  rcases hs' with ⟨i, b, hfound, hgot, hcursor, hlog⟩ | ⟨hpassed, hgot, hcursor, hlog⟩
  · have hon : On s b ∧ b = if first then i else tNumButtons p s.nCurrentLayoutType - i + 1 := by
      cases first with
      | true =>
        obtain ⟨hb, hon⟩ := first_on hfound
        exact ⟨hon, hb⟩
      | false =>
        obtain ⟨hb, hon⟩ := last_on (by simpa using hcond) hfound
        exact ⟨hon, hb⟩
    refine ⟨fun _ => ⟨hgot, hlog, b, hcursor, hon.1, ?_⟩, fun hnone => absurd ⟨b, hon.1⟩ hnone⟩
    intro b' hb'
    have hle := on_of_passed (h.complete.bounds hb') hfound.passed hb'
    have hb := hon.2
    cases first with
    | true =>
      simp only [if_true] at hle hb ⊢
      omega
    | false =>
      simp only [Bool.false_eq_true, if_false] at hle hb ⊢
      omega
  · refine ⟨?_, fun _ => ⟨hgot, hcursor, hlog⟩⟩
    rintro ⟨b, hon⟩
    have hbounds := h.complete.bounds hon
    have hle := on_of_passed hbounds hpassed hon
    cases first with
    | true =>
      simp only [if_true] at hle
      omega
    | false =>
      simp only [Bool.false_eq_true, if_false] at hle
      omega

/-- **A disabled speller takes the focus on its last button**, which is not enabled. -/
theorem not_answered (h : Good p n s) (hf : s.bGotFocus = false) (hoff : s.bEnabled = false) (link : Link) :
    ¬ Answered p s link false := by
  rintro ⟨s', hrun, hanswer⟩
  have hnone : ¬ ∃ b, On s b := by
    rintro ⟨b, d, hd, hon⟩
    unfold State.buttonDef? at hd
    obtain ⟨l, hl, hd⟩ := Option.bind_eq_some_iff.1 hd
    have hdis : d.bEnabled = false :=
      (h.disabled hoff).1 l (Lua.mem_of_index hl) d (Lua.mem_of_index hd)
    simp [hdis] at hon
  obtain ⟨l, hl⟩ := h.inRange.exists_layout
  have hsize := h.type l hl
  have hpos : 0 < tNumButtons p s.nCurrentLayoutType := by
    rw [tNumButtons_eq]
    cases s.nCurrentLayoutType <;> decide
  have hlast : Accepts p s (tNumButtons p s.nCurrentLayoutType) true := by
    obtain ⟨d, hd⟩ := Lua.exists_index (t := l.buttons) (i := tNumButtons p s.nCurrentLayoutType)
      (by omega) (by omega)
    refine ⟨by omega, le_rfl, d, ?_, .inr ⟨rfl, hoff⟩⟩
    unfold State.buttonDef?
    rw [hl, Option.bind_some, hd]
  have hspec := Lua.returned_of_wp (request_spec (not_missing h.toSized) hf link false) (by rw [hrun])
  rw [hrun] at hspec
  rcases hspec with ⟨_, _, -, hgot, -⟩ | ⟨hpassed, -⟩
  · have hbounced := (hanswer.bounced hnone).1
    rw [hgot] at hbounced
    simp at hbounced
  · have hno := (hpassed 1 le_rfl (by omega)).1
    simp only [startPos, Bool.false_eq_true, if_false, sub_add_cancel] at hno
    exact hno hlast

/-- **Requests for the focus.** In every state of a run without the focus, a request gets the answer its
description gives if and only if the speller is enabled or the request is for the first button. -/
theorem request_law (hp : WellSized p) (h : Run.exec (step p) es (constructor p props) = some s)
    (hf : s.bGotFocus = false) (link : Link) (first : Bool) :
    Answered p s link first ↔ s.bEnabled = true ∨ first = true := by
  have hgood := good_run hp h
  constructor
  · intro hanswered
    by_contra hnot
    rw [not_or, Bool.not_eq_true, Bool.not_eq_true] at hnot
    obtain ⟨hoff, rfl⟩ := hnot
    exact not_answered hgood hf hoff link hanswered
  · exact answered_of hgood.toSized hf link

theorem request_law_sample : ∃ s, Run.exec (step numPad) [] (constructor numPad allKeys) = some s ∧
    Answered numPad s 7 false := by
  have hrun : Run.exec (step numPad) [] (constructor numPad allKeys) = some (constructor numPad allKeys) := rfl
  exact ⟨_, hrun, (request_law numPad_wellSized hrun (by decide +kernel) 7 false).2 (.inl (by decide +kernel))⟩

/-- The speller is disabled; then the container asks for the last button. -/
theorem disabled_last : ∃ s,
    Run.exec (step numPad) [.changeProps ⟨some "", some 1, some 0⟩, .onDataUpdate 0]
        (constructor numPad allKeys) = some s ∧ WellSized numPad ∧ s.bGotFocus = false ∧
      (Lua.run (handle numPad (request 7 false)) s).2.nCursor = some 12 ∧ ¬ Answered numPad s 7 false := by
  have h : (Run.exec (step numPad) [.changeProps ⟨some "", some 1, some 0⟩, .onDataUpdate 0]
      (constructor numPad allKeys)).map (fun s => (s.bGotFocus, s.bEnabled,
        (Lua.run (handle numPad (request 7 false)) s).2.nCursor)) = some (false, false, some 12) := by
    decide +kernel
  obtain ⟨s, hs, he⟩ := Option.map_eq_some_iff.1 h
  simp only [Prod.mk.injEq] at he
  exact ⟨s, hs, numPad_wellSized, he.1, he.2.2, not_answered (good_run numPad_wellSized hs) he.1 he.2.1 7⟩

end Speller
