import Mathlib
/-!
# Objects with a count of their users

Every live object has a count. A program holds references to objects, here a multiset: the pointers it has, each as
often as it has it. `get` and `put` are possible on live objects only; the `put` that brings the count to 0 ends the
object.

* `Exact held r` — there is a reference to what is live and to nothing else, and the counts are the numbers of
  references;
* `Exact.get`, `Exact.put`, `Exact.alloc` — with one reference more, or one less, it stays so.
-/

structure Refs (A : Type*) where
  live : Finset A
  usage : A → ℕ

namespace Refs

variable {A : Type*} [DecidableEq A]

/-- A new object, with one user. -/
def alloc (a : A) (r : Refs A) : Refs A := ⟨insert a r.live, Function.update r.usage a 1⟩

/-- `none` if the object is gone. -/
def get (a : A) (r : Refs A) : Option (Refs A) :=
  if a ∈ r.live then some { r with usage := Function.update r.usage a (r.usage a + 1) } else none

/-- `none` if the object is gone; the last user ends it. -/
def put (a : A) (r : Refs A) : Option (Refs A) :=
  if a ∈ r.live then
    some ⟨if r.usage a = 1 then r.live.erase a else r.live, Function.update r.usage a (r.usage a - 1)⟩
  else none

/-- `held` are the references there are. -/
structure Exact (held : Multiset A) (r : Refs A) : Prop where
  live : ∀ a, a ∈ r.live ↔ a ∈ held
  usage : ∀ a ∈ r.live, r.usage a = held.count a

variable {held : Multiset A} {r : Refs A} {a : A}

theorem Exact.pos (h : Exact held r) (ha : a ∈ r.live) : 0 < r.usage a := by
  rw [h.usage a ha]
  exact Multiset.count_pos.2 ((h.live a).1 ha)

theorem Exact.alloc (h : Exact held r) (ha : a ∉ r.live) : Exact (a ::ₘ held) (r.alloc a) := by
  refine ⟨fun b => ?_, fun b hb => ?_⟩
  · show b ∈ insert a r.live ↔ _
    rw [Finset.mem_insert, Multiset.mem_cons, h.live]
  · show Function.update r.usage a 1 b = _
    by_cases hba : b = a
    · subst hba
      have hnone : b ∉ held := fun hmem => ha ((h.live b).2 hmem)
      rw [Function.update_self, Multiset.count_cons_self, Multiset.count_eq_zero_of_notMem hnone]
    · have hold : b ∈ r.live := (Finset.mem_insert.1 hb).resolve_left hba
      rw [Function.update_of_ne hba, Multiset.count_cons_of_ne hba, h.usage b hold]

/-- A reference is copied. -/
theorem Exact.get (h : Exact held r) (ha : a ∈ held) :
    ∃ r', r.get a = some r' ∧ Exact (a ::ₘ held) r' ∧ r'.live = r.live := by
  have hlive : a ∈ r.live := (h.live a).2 ha
  refine ⟨_, if_pos hlive, ⟨fun b => ?_, fun b hb => ?_⟩, rfl⟩
  · show b ∈ r.live ↔ _
    rw [h.live, Multiset.mem_cons]
    exact ⟨.inr, fun hb => hb.elim (fun heq => heq ▸ ha) id⟩
  · show Function.update r.usage a (r.usage a + 1) b = _
    by_cases hba : b = a
    · subst hba
      rw [Function.update_self, Multiset.count_cons_self, h.usage b hb]
    · rw [Function.update_of_ne hba, Multiset.count_cons_of_ne hba, h.usage b hb]

/-- A reference is given up. The object ends if it was the last one. -/
theorem Exact.put (h : Exact (a ::ₘ held) r) :
    ∃ r', r.put a = some r' ∧ Exact held r' ∧ r'.live = if a ∈ held then r.live else r.live.erase a := by
  have hlive : a ∈ r.live := (h.live a).2 (Multiset.mem_cons_self a held)
  have husage : r.usage a = held.count a + 1 := by
    rw [h.usage a hlive, Multiset.count_cons_self]
  have hlast : r.usage a = 1 ↔ a ∉ held := by
    rw [husage, Nat.add_eq_right, Multiset.count_eq_zero]
  have hset : (if r.usage a = 1 then r.live.erase a else r.live) = if a ∈ held then r.live else r.live.erase a := by
    by_cases hmem : a ∈ held
    · rw [if_pos hmem, if_neg (fun h1 => hlast.1 h1 hmem)]
    · rw [if_neg hmem, if_pos (hlast.2 hmem)]
  refine ⟨_, if_pos hlive, ⟨fun b => ?_, fun b hb => ?_⟩, hset⟩
  · show b ∈ (if r.usage a = 1 then r.live.erase a else r.live) ↔ _
    have hb := h.live b
    rw [Multiset.mem_cons] at hb
    rw [hset]
    by_cases hmem : a ∈ held
    · rw [if_pos hmem, hb]
      exact ⟨fun hor => hor.elim (fun heq => heq ▸ hmem) id, .inr⟩
    · rw [if_neg hmem, Finset.mem_erase, hb]
      exact ⟨fun hand => hand.2.resolve_left hand.1, fun hheld => ⟨fun heq => hmem (heq ▸ hheld), .inr hheld⟩⟩
  · show Function.update r.usage a (r.usage a - 1) b = _
    by_cases hba : b = a
    · subst hba
      rw [Function.update_self, husage, Nat.add_sub_cancel]
    · have hold : b ∈ r.live := by
        change b ∈ (if r.usage a = 1 then r.live.erase a else r.live) at hb
        split at hb
        · exact (Finset.mem_erase.1 hb).2
        · exact hb
      rw [Function.update_of_ne hba, h.usage b hold, Multiset.count_cons_of_ne hba]

end Refs
