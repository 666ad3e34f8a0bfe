import Mathlib
/-!
# Memory with numbered cells

`Cells` is any memory whose cells have numbers: `get` reads one, `set` writes one and leaves the others.

* `content` — the first cells as a list;
* `copy` — cells copied from somewhere else, `get_copy`.
-/

/-- A memory of numbered cells. -/
structure Cells (σ α : Type*) where
  get : σ → ℕ → α
  set : σ → ℕ → α → σ
  get_set : ∀ s i v j, get (set s i v) j = if j = i then v else get s j

namespace Cells

variable {σ α : Type*} (c : Cells σ α) {s : σ} {i j n : ℕ} {v : α}

@[simp] theorem get_set_self (s : σ) (i : ℕ) (v : α) : c.get (c.set s i v) i = v := by
  rw [c.get_set, if_pos rfl]

theorem get_set_ne (s : σ) (v : α) (h : j ≠ i) : c.get (c.set s i v) j = c.get s j := by
  rw [c.get_set, if_neg h]

/-- The first `n` cells. -/
def content (s : σ) (n : ℕ) : List α := (List.range n).map (c.get s)

@[simp] theorem length_content (s : σ) (n : ℕ) : (c.content s n).length = n := by
  rw [content, List.length_map, List.length_range]

@[simp] theorem getElem_content (s : σ) (h : i < (c.content s n).length) : (c.content s n)[i] = c.get s i := by
  simp [content]

theorem content_set (s : σ) (i n : ℕ) (v : α) : c.content (c.set s i v) n = (c.content s n).set i v := by
  apply List.ext_getElem
  · simp
  · intro j h₁ h₂
    rw [getElem_content, c.get_set, List.getElem_set, getElem_content]
    by_cases hij : i = j
    · rw [if_pos hij, if_pos hij.symm]
    · rw [if_neg hij, if_neg (Ne.symm hij)]

theorem content_set_get (s : σ) (i n : ℕ) : c.content (c.set s i (c.get s i)) n = c.content s n := by
  apply List.ext_getElem
  · simp
  · intro j h₁ h₂
    rw [getElem_content, getElem_content, c.get_set]
    split
    · next h => rw [h]
    · rfl

/-- `len` cells from number `at₀` on get the values `src` has there. -/
def copy (src : ℕ → α) (at₀ len : ℕ) (s : σ) : σ :=
  (List.range len).foldl (fun s k => c.set s (at₀ + k) (src (at₀ + k))) s

theorem get_copy (src : ℕ → α) (at₀ len : ℕ) (s : σ) (j : ℕ) :
    c.get (c.copy src at₀ len s) j = if at₀ ≤ j ∧ j < at₀ + len then src j else c.get s j := by
  unfold copy
  induction len with
  | zero => rw [if_neg (by omega), List.range_zero, List.foldl_nil]
  | succ len ih =>
    rw [List.range_succ, List.foldl_append, List.foldl_cons, List.foldl_nil, c.get_set, ih]
    by_cases hj : j = at₀ + len
    · rw [if_pos hj, if_pos (by omega), hj]
    · rw [if_neg hj]
      by_cases hin : at₀ ≤ j ∧ j < at₀ + len
      · rw [if_pos hin, if_pos (by omega)]
      · rw [if_neg hin, if_neg (by omega)]

/-- What every `set` keeps. -/
theorem copy_keeps {P : σ → Prop} (hset : ∀ s i v, P s → P (c.set s i v)) (src : ℕ → α) (at₀ len : ℕ) (h : P s) :
    P (c.copy src at₀ len s) := by
  unfold copy
  induction len with
  | zero => exact h
  | succ len ih =>
    rw [List.range_succ, List.foldl_append]
    exact hset _ _ _ ih

end Cells
