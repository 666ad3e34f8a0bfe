import Mathlib
/-!
# Going from stop to stop

The places are numbered, and some of them are stops. Something goes on to the next stop, again and again; where
it looks for it, and what else it does on the way, does not matter.

* `IsNext`, `IsPrev` — the first stop above and below a place; one undoes the other;
* `stops` — the stops between two places, in order;
* `tour` — who goes on to the next stop each time calls at all of them, in order and once each.
-/

namespace Tour

variable {σ : Type*} {stop : ℕ → Prop} {a x n : ℕ}

/-- `x` is the first stop after `a`. -/
def IsNext (stop : ℕ → Prop) (a x : ℕ) : Prop := a < x ∧ stop x ∧ ∀ y, a < y → y < x → ¬ stop y

/-- `x` is the last stop before `a`. -/
def IsPrev (stop : ℕ → Prop) (a x : ℕ) : Prop := x < a ∧ stop x ∧ ∀ y, x < y → y < a → ¬ stop y

/-- There and back. -/
theorem IsNext.back (h : IsNext stop a x) (ha : stop a) : IsPrev stop x a := ⟨h.1, ha, h.2.2⟩

theorem IsPrev.back (h : IsPrev stop a x) (ha : stop a) : IsNext stop x a := ⟨h.1, ha, h.2.2⟩

theorem IsNext.unique {y : ℕ} (h : IsNext stop a x) (h' : IsNext stop a y) : x = y := by
  rcases Nat.lt_trichotomy x y with hlt | heq | hgt
  · exact absurd h.2.1 (h'.2.2 x h.1 hlt)
  · exact heq
  · exact absurd h'.2.1 (h.2.2 y h'.1 hgt)

theorem IsPrev.unique {y : ℕ} (h : IsPrev stop a x) (h' : IsPrev stop a y) : x = y := by
  rcases Nat.lt_trichotomy x y with hlt | heq | hgt
  · exact absurd h'.2.1 (h.2.2 y hlt h'.1)
  · exact heq
  · exact absurd h.2.1 (h'.2.2 x hgt h.1)

variable [DecidablePred stop]

/-- The stops after `a`, up to `n`. -/
def stops (stop : ℕ → Prop) [DecidablePred stop] (a n : ℕ) : List ℕ := (List.range' (a + 1) (n - a)).filter stop

theorem mem_stops : x ∈ stops stop a n ↔ a < x ∧ x ≤ n ∧ stop x := by
  unfold stops
  rw [List.mem_filter, List.mem_range'_1, decide_eq_true_iff]
  constructor
  · rintro ⟨hx, hstop⟩
    exact ⟨by omega, by omega, hstop⟩
  · rintro ⟨h₁, h₂, hstop⟩
    exact ⟨by omega, hstop⟩

theorem stops_sorted (stop : ℕ → Prop) [DecidablePred stop] (a n : ℕ) : (stops stop a n).Pairwise (· < ·) :=
  (List.pairwise_lt_range').filter _

theorem stops_nodup (stop : ℕ → Prop) [DecidablePred stop] (a n : ℕ) : (stops stop a n).Nodup :=
  (stops_sorted stop a n).imp fun h => h.ne

/-- The first of the stops is the next one, and the others come after it. -/
theorem stops_eq_cons {rest : List ℕ} (h : stops stop a n = x :: rest) :
    IsNext stop a x ∧ x ≤ n ∧ rest = stops stop x n := by
  unfold stops at h
  obtain ⟨before, after, hsplit, hbefore, hx, hafter⟩ := List.filter_eq_cons_iff.1 h
  obtain ⟨k, hk, hpre, hrest⟩ := List.range'_eq_append_iff.1 hsplit
  obtain ⟨hfirst, hpos, htail⟩ := List.range'_eq_cons_iff.1 hrest.symm
  have hxk : x = a + 1 + k := by omega
  refine ⟨⟨by omega, by simpa using hx, ?_⟩, by omega, ?_⟩
  · intro y hay hyx
    have hy : y ∈ before := by
      rw [hpre, List.mem_range'_1]
      omega
    simpa using hbefore y hy
  · unfold stops
    rw [← hafter, htail]
    congr 2
    omega

theorem stops_of_next (h : IsNext stop a x) (hx : x ≤ n) : stops stop a n = x :: stops stop x n := by
  cases hall : stops stop a n with
  | nil =>
    have hmem : x ∈ stops stop a n := mem_stops.2 ⟨h.1, hx, h.2.1⟩
    rw [hall] at hmem
    cases hmem
  | cons y rest =>
    obtain ⟨hnext, -, hrest⟩ := stops_eq_cons hall
    rw [h.unique hnext, hrest]

/-- A stop at the end is the last of the stops. -/
theorem getLast?_stops (ha : a < n) (hn : stop n) : (stops stop a n).getLast? = some n := by
  obtain ⟨m, rfl⟩ : ∃ m, n = a + 1 + m := ⟨n - (a + 1), by omega⟩
  unfold stops
  have hlen : a + 1 + m - a = m + 1 := by omega
  rw [hlen, List.range'_concat, List.filter_append]
  simp [hn]

/-- **Tours.** `Reached x s` says that `s` is at place `x`. -/
theorem tour {Reached : ℕ → σ → Prop} {go : σ → σ}
    (hgo : ∀ a x s, Reached a s → IsNext stop a x → x ≤ n → Reached x (go s)) {s : σ} (hs : Reached a s) :
    List.Forall₂ Reached (stops stop a n) (List.iterate go (go s) (stops stop a n).length) := by
  generalize hall : stops stop a n = all
  induction all generalizing a s with
  | nil => exact List.Forall₂.nil
  | cons x rest ih =>
    obtain ⟨hnext, hx, hrest⟩ := stops_eq_cons hall
    have hreached := hgo a x s hs hnext hx
    exact List.Forall₂.cons hreached (ih hreached hrest.symm)

end Tour
