import Mathlib
/-!
# Rectangles in the plane

Rectangles take in their left and upper edges, and not their right and lower ones. An empty one has a size that
is not positive.

* `Contains` — the points of a rectangle;
* `Meets` — two rectangles have a point in common, said of their edges.
-/

namespace Plane

variable {K : Type*} [Field K] [LinearOrder K]

structure Rect (K : Type*) where
  x : K
  y : K
  w : K
  h : K

/-- The point `(cx, cy)` is in the rectangle. -/
def Rect.Contains (r : Rect K) (cx cy : K) : Prop :=
  (r.x ≤ cx ∧ cx < r.x + r.w) ∧ r.y ≤ cy ∧ cy < r.y + r.h

/-- Neither rectangle is empty, and each begins before the other one ends, to the right and down. -/
structure Rect.Meets (r r' : Rect K) : Prop where
  wide : 0 < r.w ∧ 0 < r'.w
  high : 0 < r.h ∧ 0 < r'.h
  across : r.x < r'.x + r'.w ∧ r'.x < r.x + r.w
  down : r.y < r'.y + r'.h ∧ r'.y < r.y + r.h

theorem Rect.Meets.symm {r r' : Rect K} (h : r.Meets r') : r'.Meets r :=
  ⟨h.wide.symm, h.high.symm, h.across.symm, h.down.symm⟩

variable [IsStrictOrderedRing K]

/-- Two intervals have the greater of their beginnings in common, if anything. -/
theorem intervals_meet {a b w w' : K} :
    (∃ c, (a ≤ c ∧ c < a + w) ∧ b ≤ c ∧ c < b + w') ↔ (0 < w ∧ 0 < w') ∧ a < b + w' ∧ b < a + w := by
  constructor
  · rintro ⟨c, ⟨h₁, h₂⟩, h₃, h₄⟩
    exact ⟨⟨by linarith, by linarith⟩, by linarith, by linarith⟩
  · rintro ⟨⟨hw, hw'⟩, hab, hba⟩
    refine ⟨max a b, ⟨le_max_left a b, max_lt ?_ hba⟩, le_max_right a b, max_lt hab ?_⟩
    · linarith
    · linarith

theorem Rect.meets_iff {r r' : Rect K} :
    r.Meets r' ↔ ∃ cx cy, r.Contains cx cy ∧ r'.Contains cx cy := by
  constructor
  · rintro ⟨hwide, hhigh, hacross, hdown⟩
    obtain ⟨cx, hx, hx'⟩ := intervals_meet.2 ⟨hwide, hacross⟩
    obtain ⟨cy, hy, hy'⟩ := intervals_meet.2 ⟨hhigh, hdown⟩
    exact ⟨cx, cy, ⟨hx, hy⟩, hx', hy'⟩
  · rintro ⟨cx, cy, ⟨hx, hy⟩, hx', hy'⟩
    obtain ⟨hwide, hacross⟩ := intervals_meet.1 ⟨cx, hx, hx'⟩
    obtain ⟨hhigh, hdown⟩ := intervals_meet.1 ⟨cy, hy, hy'⟩
    exact ⟨hwide, hhigh, hacross, hdown⟩

end Plane
