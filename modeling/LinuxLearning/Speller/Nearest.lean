import LinuxLearning.Speller.Request
/-!
# The button nearest to a position

`repositionCursor` looks at position D, then at D + 1, D - 1, D + 2 and so on (`:1084-1098`): round `i` looks at
`D - i + 1` and at `D + i`. For D from 0 to N the N rounds look at every button, in the order of their distances from
D, the button on the right before the one on the left.

* `Nearest` — the nearest element of a set of positions, the one on the right of two;
* `nearest_of_passed`, `not_of_passed` — what the rounds find and what they miss, for any set;
* `nearest_law` — an enabled speller finds the nearest enabled button, and there is none if it finds none.
-/

namespace Speller

section

variable {on : ℤ → Prop} {D N b i : ℤ}

/-- `b` is nearest to `D` where `on` holds, to the right of the other one if there are two. -/
structure Nearest (on : ℤ → Prop) (D b : ℤ) : Prop where
  here : on b
  near : ∀ b', on b' → |b - D| ≤ |b' - D|
  right : ∀ b', on b' → |b' - D| = |b - D| → b' ≤ b

/-- The rounds before round `i` look at the positions up to `D + i - 1` on the right, `D - i + 2` on the left. -/
theorem outside_of_passed (h : ∀ j, 1 ≤ j → j < i → ¬ on (D - j + 1) ∧ ¬ on (D + j)) (hb : on b) :
    b ≤ D - i + 1 ∨ D + i ≤ b := by
  by_contra hin
  simp only [not_or, not_le] at hin
  rcases le_or_gt b D with hle | hgt
  · have hno := (h (D - b + 1) (by omega) (by omega)).1
    rw [show D - (D - b + 1) + 1 = b by omega] at hno
    exact hno hb
  · have hno := (h (b - D) (by omega) (by omega)).2
    rw [show D + (b - D) = b by omega] at hno
    exact hno hb

/-- What round `i` finds first is nearest. -/
theorem nearest_of_passed (hi : 1 ≤ i) (h : ∀ j, 1 ≤ j → j < i → ¬ on (D - j + 1) ∧ ¬ on (D + j))
    (hb : on b) (hfirst : b = D - i + 1 ∨ ¬ on (D - i + 1) ∧ b = D + i) : Nearest on D b := by
  have hdistance : ∀ b', on b' → |b - D| ≤ |b' - D| ∧ (|b' - D| = |b - D| → b' ≤ b) := by
    intro b' hb'
    have hout := outside_of_passed h hb'
    rcases hfirst with rfl | ⟨hno, rfl⟩
    · rw [abs_of_nonpos (by omega : D - i + 1 - D ≤ 0)]
      rcases hout with hleft | hright
      · rw [abs_of_nonpos (by omega : b' - D ≤ 0)]
        omega
      · rw [abs_of_pos (by omega : 0 < b' - D)]
        omega
    · have hne : b' ≠ D - i + 1 := by
        rintro rfl
        exact hno hb'
      rw [abs_of_pos (by omega : 0 < D + i - D)]
      rcases hout with hleft | hright
      · rw [abs_of_nonpos (by omega : b' - D ≤ 0)]
        omega
      · rw [abs_of_pos (by omega : 0 < b' - D)]
        omega
  exact ⟨hb, fun b' hb' => (hdistance b' hb').1, fun b' hb' => (hdistance b' hb').2⟩

/-- From `D` between 0 and `N`, `N` rounds look at every position from 1 to `N`. -/
theorem not_of_passed (h₀ : 0 ≤ D) (hN : D ≤ N) (hin : ∀ b, on b → 0 < b ∧ b ≤ N)
    (h : ∀ j, 1 ≤ j → j < N + 1 → ¬ on (D - j + 1) ∧ ¬ on (D + j)) : ¬ ∃ b, on b := by
  rintro ⟨b, hb⟩
  have hout := outside_of_passed h hb
  have hbounds := hin b hb
  omega

end

section

variable {p : Platform} {s : State} {b : ℤ}

/-- In an enabled speller both tests ask for an enabled button. -/
theorem accepts_iff_on (h : Complete p s) (hen : s.bEnabled = true) {orDisabled : Bool} :
    Accepts p s b orDisabled ↔ On s b := by
  constructor
  · rintro ⟨-, -, d, hd, hon⟩
    exact ⟨d, hd, by simpa [hen] using hon⟩
  · intro hon
    exact accepts_of_on (h.bounds hon).2 hon

/-- **Repositioning the cursor.** -/
theorem nearest_law (h : Complete p s) (hen : s.bEnabled = true) {D : ℤ} (h₀ : 0 ≤ D)
    (hN : D ≤ tNumButtons p s.nCurrentLayoutType) :
    ∃ found s', Lua.run (repositionCursor p (some D)) s = (.ok found, s') ∧
      (found = true ↔ ∃ b, On s b) ∧
      (found = true → ∃ b, s' = { s with nCursor := some b } ∧ Nearest (On s) D b) ∧
      (found = false → s' = { s with nCursor := none }) := by
  obtain ⟨found, s', hrun, hs'⟩ := Lua.returns_of_wp (repositionCursor_spec h.not_missing (some D))
  refine ⟨found, s', hrun, ?_⟩
  have hpassed : ∀ {i : ℤ}, Passed p s D i → ∀ j, 1 ≤ j → j < i → ¬ On s (D - j + 1) ∧ ¬ On s (D + j) := by
    intro i hp j hj₁ hj₂
    have hno := hp j hj₁ hj₂
    rwa [accepts_iff_on h hen, accepts_iff_on h hen] at hno
  rcases hs' with ⟨rfl, ⟨i, b, hfound, rfl⟩⟩ | ⟨rfl, hp, rfl⟩
  · have hhere := hfound.here
    simp only [accepts_iff_on h hen, Option.getD_some] at hhere
    have hnearest : Nearest (On s) D b := by
      refine nearest_of_passed hfound.bounds.1 (hpassed hfound.passed) ?_ ?_
      · rcases hhere with ⟨-, hon⟩ | ⟨-, -, hon⟩
        · exact hon
        · exact hon
      · rcases hhere with ⟨hb, -⟩ | ⟨hno, hb, -⟩
        · exact .inl hb
        · exact .inr ⟨hno, hb⟩
    exact ⟨⟨fun _ => ⟨b, hnearest.here⟩, fun _ => rfl⟩, fun _ => ⟨b, rfl, hnearest⟩, nofun⟩
  · have hnone := not_of_passed h₀ hN (fun b hon => h.bounds hon) (hpassed hp)
    exact ⟨⟨nofun, fun hsome => absurd hsome hnone⟩, nofun, fun _ => rfl⟩

theorem nearest_law_sample :
    (Lua.run (repositionCursor numPad (some 5)) (constructor numPad allKeys)).1 = .ok true ∧
      Nearest (On (constructor numPad allKeys)) 5 5 := by
  have hrun : Run.exec (step numPad) [] (constructor numPad allKeys) = some (constructor numPad allKeys) := rfl
  have hcomplete := (good_run numPad_wellSized hrun).toSized.complete
  have hcursor : (Lua.run (repositionCursor numPad (some 5)) (constructor numPad allKeys)).1 = .ok true ∧
      (Lua.run (repositionCursor numPad (some 5)) (constructor numPad allKeys)).2.nCursor = some 5 := by
    decide +kernel
  obtain ⟨found, s', hfound, -, hnearest, -⟩ :=
    nearest_law hcomplete (by decide +kernel) (D := 5) (by decide) (by decide +kernel)
  rw [hfound, Except.ok.injEq] at hcursor
  obtain ⟨rfl, hcursor⟩ := hcursor
  obtain ⟨b, rfl, hb⟩ := hnearest rfl
  obtain rfl := Option.some.inj hcursor
  exact ⟨by rw [hfound], hb⟩

end

end Speller
