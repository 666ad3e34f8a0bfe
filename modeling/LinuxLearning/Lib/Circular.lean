import Mathlib
/-!
# Circular lists

A circular list has a head that is no node of it: from the head `next` leads over the nodes, in order, back to the
head. `forEach` is the loop over it, `for (p = next head; p ≠ head; p = next p)`, with a body that may return; it has
fuel, and gives `none` when that is used up.

* `forEach_linked` — the loop does what the same body does along the list of the nodes, with fuel for one round more
  than there are nodes;
* `next_getElem` — a node leads to the one after it in the list, the last one to the head.

A ring has no head. `doWhile` is the loop `t = p; do ... while ((t = next t) ≠ p)`, which takes any node `p` for it.

* `doWhile_linked` — the loop does what its body does along the nodes;
* `Linked.at_node` — from every node of a ring the loop meets the same nodes.
-/

namespace Circular

variable {A σ β : Type*} [DecidableEq A] {next : A → A} {head start p : A} {nodes : List A}

/-- From `start` on `next` leads over `nodes` to the head. -/
def Linked (next : A → A) (head : A) : A → List A → Prop
  | start, [] => start = head
  | start, p :: ps => start = p ∧ p ≠ head ∧ Linked next head (next p) ps

instance Linked.decidable (next : A → A) (head : A) : ∀ start nodes, Decidable (Linked next head start nodes)
  | start, [] => inferInstanceAs (Decidable (start = head))
  | start, p :: ps =>
    have := Linked.decidable next head (next p) ps
    inferInstanceAs (Decidable (start = p ∧ p ≠ head ∧ Linked next head (next p) ps))

/-- `some (some b)`: the body has returned `b`; `some none`: the loop is over. -/
def forEach (next : A → A) (head : A) (body : σ → A → Option β × σ) : ℕ → σ → A → Option (Option β)
  | 0, _, _ => none
  | fuel + 1, s, p =>
    if p = head then some none
    else match body s p with
      | (some b, _) => some (some b)
      | (none, s) => forEach next head body fuel s (next p)

/-- The same body along a list. -/
def forEachIn (body : σ → A → Option β × σ) : σ → List A → Option β
  | _, [] => none
  | s, p :: ps => match body s p with
    | (some b, _) => some b
    | (none, s) => forEachIn body s ps

/-- **The loop.** -/
theorem forEach_linked (body : σ → A → Option β × σ) {fuel : ℕ} (h : Linked next head start nodes)
    (hfuel : nodes.length < fuel) (s : σ) :
    forEach next head body fuel s start = some (forEachIn body s nodes) := by
  induction nodes generalizing fuel start s with
  | nil =>
    cases fuel with
    | zero => cases hfuel
    | succ fuel => exact if_pos h
  | cons p ps ih =>
    obtain ⟨rfl, hne, hrest⟩ := h
    cases fuel with
    | zero => cases hfuel
    | succ fuel =>
      unfold forEach forEachIn
      rw [if_neg hne]
      rcases hbody : body s start with ⟨_ | b, s'⟩
      · exact ih hrest (Nat.lt_of_succ_lt_succ hfuel) s'
      · rfl

omit [DecidableEq A] in
/-- **The nodes in order.** -/
theorem next_getElem (h : Linked next head start nodes) {i : ℕ} (hi : nodes[i]? = some p) :
    next p = nodes[i + 1]?.getD head ∧ p ≠ head := by
  induction nodes generalizing start i with
  | nil => cases hi
  | cons q qs ih =>
    obtain ⟨rfl, hne, hrest⟩ := h
    cases i with
    | zero =>
      rw [List.getElem?_cons_zero, Option.some.injEq] at hi
      subst hi
      refine ⟨?_, hne⟩
      rw [List.getElem?_cons_succ]
      cases qs with
      | nil => exact hrest
      | cons r rs => exact hrest.1
    | succ i =>
      rw [List.getElem?_cons_succ] at hi ⊢
      exact ih hrest hi

/-! ## Rings -/

/-- `none`: the fuel is used up. -/
def doWhile (next : A → A) (p : A) (body : σ → A → σ) : ℕ → σ → A → Option σ
  | 0, _, _ => none
  | fuel + 1, s, t => if next t = p then some (body s t) else doWhile next p body fuel (body s t) (next t)

/-- **The loop.** -/
theorem doWhile_linked (body : σ → A → σ) {fuel : ℕ} {t : A} (h : Linked next p (next t) nodes)
    (hfuel : nodes.length < fuel) (s : σ) : doWhile next p body fuel s t = some ((t :: nodes).foldl body s) := by
  induction nodes generalizing fuel t s with
  | nil =>
    cases fuel with
    | zero => cases hfuel
    | succ fuel => exact if_pos h
  | cons q qs ih =>
    obtain ⟨rfl, hne, hrest⟩ := h
    cases fuel with
    | zero => cases hfuel
    | succ fuel =>
      unfold doWhile
      rw [if_neg hne]
      exact ih hrest (Nat.lt_of_succ_lt_succ hfuel) (body s t)

omit [DecidableEq A] in
/-- The last node leads to the head; with another head it goes on. -/
theorem Linked.snoc {q : A} (h : Linked next head start nodes) (hq : q ∉ nodes) (hhead : q ≠ head)
    (hlast : next head = q) : Linked next q start (nodes ++ [head]) := by
  induction nodes generalizing start with
  | nil => exact ⟨h, hhead.symm, hlast⟩
  | cons r rs ih =>
    obtain ⟨rfl, hne, hrest⟩ := h
    rw [List.mem_cons, not_or] at hq
    exact ⟨rfl, Ne.symm hq.1, ih hrest hq.2⟩

omit [DecidableEq A] in
/-- **Any node.** -/
theorem Linked.at_node (h : Linked next p (next p) nodes) (hnodup : (p :: nodes).Nodup) {t : A}
    (ht : t ∈ p :: nodes) : ∃ others, Linked next t (next t) others ∧ (t :: others).Perm (p :: nodes) := by
  obtain ⟨before, after, hsplit⟩ := List.append_of_mem ht
  -- one node after the other is moved from the front to the back
  induction before generalizing p nodes after with
  | nil =>
    obtain ⟨rfl, rfl⟩ := List.cons.inj hsplit
    exact ⟨nodes, h, List.Perm.refl _⟩
  | cons b bs ih =>
    obtain ⟨-, hnodes⟩ := List.cons.inj hsplit
    cases nodes with
    | nil => simp at hnodes
    | cons q rest =>
      obtain ⟨hq, hne, hrest⟩ := h
      obtain ⟨hp, hnodup'⟩ := List.nodup_cons.1 hnodup
      obtain ⟨hq', -⟩ := List.nodup_cons.1 hnodup'
      have hmoved : (q :: (rest ++ [p])).Perm (p :: q :: rest) := by
        rw [← List.cons_append]
        exact List.perm_append_singleton p (q :: rest)
      have hsplit' : q :: (rest ++ [p]) = bs ++ t :: (after ++ [p]) := by
        rw [← List.cons_append, hnodes, List.append_eq, List.append_assoc, List.cons_append]
      obtain ⟨others, hothers, hperm⟩ := ih (hq ▸ hrest.snoc hq' hne hq) (hmoved.nodup_iff.2 hnodup)
        (hsplit' ▸ by simp) (after ++ [p]) hsplit'
      exact ⟨others, hothers, hperm.trans hmoved⟩

end Circular
