import Mathlib
/-!
# Bisection

`find cmp` looks among numbers for one where `cmp` is `eq`. It goes to the right of a number where `cmp` is `gt` and to
the left of one where it is `lt`.

* `find_sound` — what it finds is there, whatever `cmp` is;
* `find_complete` — it finds what is there if `cmp` never rises: first `gt`, then `eq`, then `lt`.
-/

namespace Bisect

/-- From `left` up to `right`. -/
def find (cmp : ℕ → Ordering) : ℕ → ℕ → ℕ → Bool
  | 0, _, _ => false
  | fuel + 1, left, right =>
    if left < right then
      let mid := (left + right) / 2
      match cmp mid with
      | .gt => find cmp fuel (mid + 1) right
      | .lt => find cmp fuel left mid
      | .eq => true
    else false

variable {cmp : ℕ → Ordering} {fuel left right i : ℕ}

theorem find_sound (h : find cmp fuel left right = true) : ∃ i, left ≤ i ∧ i < right ∧ cmp i = .eq := by
  induction fuel generalizing left right with
  | zero => cases h
  | succ fuel ih =>
    unfold find at h
    split at h
    · next hlt =>
      dsimp only at h
      split at h
      · obtain ⟨i, hleft, hright, heq⟩ := ih h
        exact ⟨i, by omega, hright, heq⟩
      · obtain ⟨i, hleft, hright, heq⟩ := ih h
        exact ⟨i, hleft, by omega, heq⟩
      · next heq => exact ⟨(left + right) / 2, by omega, by omega, heq⟩
    · cases h

/-- A number that `cmp` places right at `i`, and on the correct side of all others. -/
theorem find_complete (hfuel : right ≤ left + fuel) (hleft : left ≤ i) (hright : i < right) (heq : cmp i = .eq)
    (hbelow : ∀ j < i, cmp j ≠ .lt) (habove : ∀ j < right, i < j → cmp j ≠ .gt) : find cmp fuel left right = true := by
  induction fuel generalizing left right with
  | zero => omega
  | succ fuel ih =>
    unfold find
    rw [if_pos (by omega)]
    dsimp only
    split
    · next hgt =>
      have hmid : (left + right) / 2 < i := by
        by_contra hge
        rcases Nat.eq_or_lt_of_le (Nat.le_of_not_lt hge) with hi | hi
        · rw [← hi, heq] at hgt
          cases hgt
        · exact habove _ (by omega) hi hgt
      exact ih (by omega) hmid hright habove
    · next hlt =>
      have hmid : i < (left + right) / 2 := by
        by_contra hge
        rcases Nat.eq_or_lt_of_le (Nat.le_of_not_lt hge) with hi | hi
        · rw [hi, heq] at hlt
          cases hlt
        · exact hbelow _ hi hlt
      exact ih (by omega) hleft hmid fun j hj hij => habove j (by omega) hij
    · rfl

end Bisect
