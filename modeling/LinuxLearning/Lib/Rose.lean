import Mathlib.Data.List.Find
import Mathlib.Data.List.Lex
import Mathlib.Order.Bounds.Basic
/-!
# Trees with ordered children

A node is named by the way down to it, the list of the positions to go to from the root.

* `sub` — the node at the end of a way;
* `preorder` — the ways to all nodes, each node before what is below it and the children in order; these are the ways
  in lexicographic order (`mem_preorder`, `preorder_sorted`), so the first is the least (`first_iff_isLeast`);
* `search` — depth-first search for a goal below the root that does not go below a closed node. It finds the first way
  in pre-order to a goal that has no closed node above it (`search_eq_some_iff`, `search_eq_none_iff`).
-/

/-- A tree with a label at each node. -/
inductive Rose (α : Type*)
  | node (label : α) (children : List (Rose α))

namespace Rose

variable {α : Type*}

@[induction_eliminator]
theorem ind {P : Rose α → Prop} (node : ∀ a ts, (∀ t ∈ ts, P t) → P (node a ts)) (t : Rose α) : P t := by
  refine @Rose.rec α P (fun ts => ∀ t ∈ ts, P t) node nofun ?_ t
  intro t ts ht hts u hu
  rcases List.mem_cons.1 hu with rfl | hu
  · exact ht
  · exact hts u hu

def label : Rose α → α
  | node a _ => a

def children : Rose α → List (Rose α)
  | node _ ts => ts

@[simp] theorem label_node (a : α) (ts : List (Rose α)) : (node a ts).label = a := rfl

@[simp] theorem children_node (a : α) (ts : List (Rose α)) : (node a ts).children = ts := rfl

/-- The node at the end of the way. -/
def sub : Rose α → List ℕ → Option (Rose α)
  | t, [] => some t
  | t, i :: way => (t.children[i]?).bind fun s => s.sub way

@[simp] theorem sub_nil (t : Rose α) : t.sub [] = some t := by rw [sub]

theorem sub_cons_eq_some {t s : Rose α} {i : ℕ} {way : List ℕ} :
    t.sub (i :: way) = some s ↔ ∃ u, t.children[i]? = some u ∧ u.sub way = some s := by
  rw [sub, Option.bind_eq_some_iff]

/-! ## Pre-order -/

mutual

/-- The ways to the nodes of the tree, in pre-order. -/
def preorder : Rose α → List (List ℕ)
  | node _ ts => [] :: preorderFrom 0 ts

/-- The same for the children from position `i` on. -/
def preorderFrom (i : ℕ) : List (Rose α) → List (List ℕ)
  | [] => []
  | t :: ts => t.preorder.map (i :: ·) ++ preorderFrom (i + 1) ts

end

variable {t : Rose α} {ts : List (Rose α)} {i : ℕ} {way : List ℕ}

theorem mem_preorderFrom :
    way ∈ preorderFrom i ts ↔ ∃ k t down, ts[k]? = some t ∧ down ∈ t.preorder ∧ way = (i + k) :: down := by
  induction ts generalizing i with
  | nil => simp [preorderFrom]
  | cons t ts ih =>
    rw [preorderFrom, List.mem_append, List.mem_map, ih]
    constructor
    · rintro (⟨down, hdown, rfl⟩ | ⟨k, s, down, hs, hdown, rfl⟩)
      · exact ⟨0, t, down, rfl, hdown, rfl⟩
      · exact ⟨k + 1, s, down, hs, hdown, by rw [Nat.add_right_comm, Nat.add_assoc]⟩
    · rintro ⟨k, s, down, hs, hdown, rfl⟩
      cases k with
      | zero =>
        obtain rfl := Option.some.inj hs
        exact .inl ⟨down, hdown, rfl⟩
      | succ k => exact .inr ⟨k, s, down, hs, hdown, by rw [Nat.add_right_comm, Nat.add_assoc]⟩

/-- The list has every node. -/
theorem mem_preorder : way ∈ t.preorder ↔ ∃ s, t.sub way = some s := by
  induction way generalizing t with
  | nil =>
    cases t with
    | node a ts => simp [preorder]
  | cons i way ih =>
    cases t with
    | node a ts =>
      rw [preorder, List.mem_cons, mem_preorderFrom]
      constructor
      · rintro (h | ⟨k, u, down, hu, hdown, h⟩)
        · cases h
        · rw [Nat.zero_add, List.cons.injEq] at h
          obtain ⟨rfl, rfl⟩ := h
          obtain ⟨s, hs⟩ := ih.1 hdown
          exact ⟨s, sub_cons_eq_some.2 ⟨u, hu, hs⟩⟩
      · rintro ⟨s, hs⟩
        obtain ⟨u, hu, hs⟩ := sub_cons_eq_some.1 hs
        exact .inr ⟨i, u, way, hu, ih.2 ⟨s, hs⟩, by rw [Nat.zero_add]⟩

theorem preorderFrom_sorted (h : ∀ t ∈ ts, t.preorder.Pairwise (· < ·)) :
    (preorderFrom i ts).Pairwise (· < ·) := by
  induction ts generalizing i with
  | nil => exact List.Pairwise.nil
  | cons t ts ih =>
    rw [preorderFrom, List.pairwise_append]
    refine ⟨?_, ih fun s hs => h s (List.mem_cons_of_mem t hs), ?_⟩
    · refine (h t List.mem_cons_self).map _ ?_
      intro a b hab
      exact List.cons_lt_cons_iff.2 (.inr ⟨rfl, hab⟩)
    · -- what comes after starts with a greater position
      intro a ha b hb
      obtain ⟨down, -, rfl⟩ := List.mem_map.1 ha
      obtain ⟨k, s, down', -, -, rfl⟩ := mem_preorderFrom.1 hb
      exact List.cons_lt_cons_iff.2 (.inl (by omega))

/-- Pre-order is the lexicographic order of the ways; no way stands in the list twice. -/
theorem preorder_sorted (t : Rose α) : t.preorder.Pairwise (· < ·) := by
  induction t with
  | node a ts ih =>
    rw [preorder, List.pairwise_cons]
    refine ⟨?_, preorderFrom_sorted ih⟩
    intro way hway
    obtain ⟨k, s, down, -, -, rfl⟩ := mem_preorderFrom.1 hway
    exact List.nil_lt_cons _ _

/-- `way` is the first in pre-order for which `P` holds. -/
structure First (t : Rose α) (P : List ℕ → Prop) (way : List ℕ) : Prop where
  here : P way
  first : ∃ before after, t.preorder = before ++ way :: after ∧ ∀ other ∈ before, ¬ P other

/-- Among the ways of the tree, the first is the least. -/
theorem first_iff_isLeast {P : List ℕ → Prop} (h : ∀ way, P way → way ∈ t.preorder) :
    t.First P way ↔ IsLeast {way | P way} way := by
  have hsorted := preorder_sorted t
  constructor
  · rintro ⟨hway, before, after, hsplit, hbefore⟩
    rw [hsplit] at hsorted
    refine ⟨hway, fun other hother => ?_⟩
    have hmem := h other hother
    rw [hsplit, List.mem_append, List.mem_cons] at hmem
    rcases hmem with hin | rfl | hin
    · exact absurd hother (hbefore other hin)
    · exact le_rfl
    · exact le_of_lt ((List.pairwise_cons.1 (List.pairwise_append.1 hsorted).2.1).1 other hin)
  · rintro ⟨hway, hleast⟩
    obtain ⟨before, after, hsplit⟩ := List.append_of_mem (h way hway)
    rw [hsplit] at hsorted
    refine ⟨hway, before, after, hsplit, fun other hin hother => ?_⟩
    have hlt := (List.pairwise_append.1 hsorted).2.2 other hin way List.mem_cons_self
    exact absurd (hleast hother) (not_le.2 hlt)

/-! ## Search -/

section

variable (goal opened : α → Prop) [DecidablePred goal] [DecidablePred opened]

mutual

/-- The way to the first goal below the root. Nothing below a closed node is looked at. -/
def search : Rose α → Option (List ℕ)
  | node a ts => if opened a then searchFrom 0 ts else none

/-- The same among the children from position `i` on and below them. -/
def searchFrom (i : ℕ) : List (Rose α) → Option (List ℕ)
  | [] => none
  | t :: ts =>
    if goal t.label then some [i]
    else match t.search with
      | some way => some (i :: way)
      | none => searchFrom (i + 1) ts

end

end

section

variable (goal opened : α → Prop)

/-- The way leads to a goal below the root, past open nodes only. -/
structure Hit (t : Rose α) (way : List ℕ) : Prop where
  below : way ≠ []
  here : ∃ s, t.sub way = some s ∧ goal s.label
  above : ∀ up, up <+: way → up ≠ way → ∃ s, t.sub up = some s ∧ opened s.label

variable {goal opened}

theorem not_hit_nil : ¬ t.Hit goal opened [] := fun h => h.below rfl

/-- A hit is a child that is a goal, or a hit below a child. -/
theorem hit_cons : t.Hit goal opened (i :: way) ↔
    opened t.label ∧ ∃ s, t.children[i]? = some s ∧ (way = [] ∧ goal s.label ∨ s.Hit goal opened way) := by
  constructor
  · intro h
    obtain ⟨u, hu, hgoal⟩ := h.here
    obtain ⟨s, hs, hsub⟩ := sub_cons_eq_some.1 hu
    have htop : opened t.label := by
      obtain ⟨r, hr, hopened⟩ := h.above [] List.nil_prefix (by simp)
      rw [sub_nil, Option.some.injEq] at hr
      rwa [hr]
    refine ⟨htop, s, hs, ?_⟩
    by_cases hway : way = []
    · subst hway
      rw [sub_nil, Option.some.injEq] at hsub
      exact .inl ⟨rfl, hsub ▸ hgoal⟩
    · refine .inr ⟨hway, ⟨u, hsub, hgoal⟩, ?_⟩
      intro up hup hne
      obtain ⟨r, hr, hopened⟩ := h.above (i :: up) ((List.prefix_cons_inj i).2 hup) (by simpa using hne)
      obtain ⟨s', hs', hr⟩ := sub_cons_eq_some.1 hr
      rw [hs, Option.some.injEq] at hs'
      exact ⟨r, hs' ▸ hr, hopened⟩
  · rintro ⟨htop, s, hs, h⟩
    refine ⟨by simp, ?_, ?_⟩
    · rcases h with ⟨rfl, hgoal⟩ | h
      · exact ⟨s, sub_cons_eq_some.2 ⟨s, hs, sub_nil s⟩, hgoal⟩
      · obtain ⟨u, hu, hgoal⟩ := h.here
        exact ⟨u, sub_cons_eq_some.2 ⟨s, hs, hu⟩, hgoal⟩
    · intro up hup hne
      rcases List.prefix_cons_iff.1 hup with rfl | ⟨rest, rfl, hrest⟩
      · exact ⟨t, sub_nil t, htop⟩
      · have hne : rest ≠ way := by simpa using hne
        rcases h with ⟨rfl, -⟩ | h
        · exact absurd (List.prefix_nil.1 hrest) hne
        · obtain ⟨r, hr, hopened⟩ := h.above rest hrest hne
          exact ⟨r, sub_cons_eq_some.2 ⟨s, hs, hr⟩, hopened⟩

theorem Hit.mem_preorder (h : t.Hit goal opened way) : way ∈ t.preorder := by
  obtain ⟨s, hs, -⟩ := h.here
  exact Rose.mem_preorder.2 ⟨s, hs⟩

variable [DecidablePred goal] [DecidablePred opened]

open Classical in
/-- `P` is what a hit of the parent is. -/
theorem searchFrom_eq_find? {P : List ℕ → Prop}
    (h : ∀ t ∈ ts, t.search goal opened = t.preorder.find? fun way => t.Hit goal opened way)
    (hP : ∀ k t, ts[k]? = some t → ∀ down, P ((i + k) :: down) ↔ down = [] ∧ goal t.label ∨ t.Hit goal opened down) :
    searchFrom goal opened i ts = (preorderFrom i ts).find? fun way => P way := by
  induction ts generalizing i with
  | nil => rfl
  | cons t ts ih =>
    have hhead := hP 0 t rfl
    have htail := ih (fun s hs => h s (List.mem_cons_of_mem t hs)) (i := i + 1) (by
      intro k s hs down
      rw [Nat.add_right_comm, Nat.add_assoc]
      exact hP (k + 1) s hs down)
    rw [searchFrom, preorderFrom, List.find?_append, List.find?_map, htail]
    by_cases hgoal : goal t.label
    · -- the child itself stands first among the ways that start with its position
      have hfirst : t.preorder.find? ((fun way => decide (P way)) ∘ (i :: ·)) = some [] := by
        cases t with
        | node a us =>
          rw [preorder, List.find?_cons_of_pos]
          simpa using (hhead []).2 (.inl ⟨rfl, hgoal⟩)
      rw [if_pos hgoal, hfirst]
      rfl
    · have hbelow : t.preorder.find? ((fun way => decide (P way)) ∘ (i :: ·)) = t.search goal opened := by
        rw [h t List.mem_cons_self]
        congr 1
        funext way
        have hway := hhead way
        simp only [Nat.add_zero, hgoal, and_false, false_or] at hway
        simp [hway]
      rw [if_neg hgoal, hbelow]
      cases t.search goal opened <;> rfl

open Classical in
/-- **Depth-first search.** It finds the first hit in pre-order. -/
theorem search_eq_find? (t : Rose α) :
    t.search goal opened = t.preorder.find? fun way => t.Hit goal opened way := by
  induction t with
  | node a ts ih =>
    rw [search, preorder, List.find?_cons_of_neg (by simpa using not_hit_nil)]
    by_cases ha : opened a
    · rw [if_pos ha]
      refine searchFrom_eq_find? ih ?_
      intro k t ht down
      rw [Nat.zero_add, hit_cons]
      simp [ha, ht]
    · rw [if_neg ha, eq_comm, List.find?_eq_none]
      intro way hway
      obtain ⟨k, s, down, -, -, rfl⟩ := mem_preorderFrom.1 hway
      simp [hit_cons, ha]

theorem search_eq_none_iff : t.search goal opened = none ↔ ∀ way, ¬ t.Hit goal opened way := by
  classical
  rw [search_eq_find?, List.find?_eq_none]
  constructor
  · intro h way hway
    exact h way hway.mem_preorder (by simpa using hway)
  · intro h way _
    simpa using h way

theorem search_eq_some_iff : t.search goal opened = some way ↔ t.First (t.Hit goal opened) way := by
  classical
  rw [search_eq_find?, List.find?_eq_some_iff_append]
  simp only [decide_eq_true_eq, Bool.not_eq_true', decide_eq_false_iff_not]
  exact ⟨fun ⟨here, first⟩ => ⟨here, first⟩, fun h => ⟨h.here, h.first⟩⟩

end

end Rose
