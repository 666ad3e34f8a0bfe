import LinuxLearning.Lib.Cells
/-!
# Shell sort in numbered cells

A pass of Shell sort with a stride takes the cells in order and moves each back, a stride at a time, to its place among
the cells a stride apart before it.

* `shift`, `pass` — one cell moved back, one pass;
* `pass_perm` — a pass permutes the cells;
* `pass_sorted` — after it cells a stride apart are in order; after the pass with stride 1 all are
  (`pairwise_of_sorted`).
-/

namespace Shell

variable {σ α : Type*} [LinearOrder α] (c : Cells σ α)

/-- `tmp` is to go to cell `right`, or as many strides before it as there are greater cells. -/
def shift (stride : ℕ) (tmp : α) : ℕ → σ → ℕ → σ
  | 0, s, right => c.set s right tmp
  | fuel + 1, s, right =>
    if stride ≤ right ∧ tmp < c.get s (right - stride) then
      shift stride tmp fuel (c.set s right (c.get s (right - stride))) (right - stride)
    else c.set s right tmp

/-- Cell `base + stride` goes to its place. -/
def insert (stride : ℕ) (s : σ) (base : ℕ) : σ :=
  shift c stride (c.get s (base + stride)) (base + stride) s (base + stride)

/-- The pass over the first `n` cells. -/
def pass (stride n : ℕ) (s : σ) : σ := (List.range (n - stride)).foldl (insert c stride) s

variable {c} {stride n fuel right top base : ℕ} {tmp : α} {s : σ}

/-! ## Permutations -/

theorem shift_perm (hstride : 0 < stride) (hright : right < n) :
    (c.content (shift c stride tmp fuel s right) n).Perm (c.content (c.set s right tmp) n) := by
  induction fuel generalizing s right with
  | zero => exact List.Perm.refl _
  | succ fuel ih =>
    unfold shift
    split
    · next h =>
      refine (ih (by omega)).trans ?_
      -- two cells of the memory with `tmp` in it change places
      have hne : right - stride ≠ right := by omega
      have hleft : right - stride < (c.content (c.set s right tmp) n).length := by
        rw [Cells.length_content]
        omega
      have hr : right < (c.content (c.set s right tmp) n).length := by
        rw [Cells.length_content]
        exact hright
      have hswap := List.set_set_perm hr hleft
      rw [Cells.getElem_content, Cells.getElem_content, Cells.get_set_self, c.get_set_ne _ _ hne,
        Cells.content_set, List.set_set] at hswap
      rw [Cells.content_set, Cells.content_set, Cells.content_set]
      exact hswap
    · exact List.Perm.refl _

theorem insert_perm (hstride : 0 < stride) (hbase : base + stride < n) :
    (c.content (insert c stride s base) n).Perm (c.content s n) := by
  unfold insert
  refine (shift_perm hstride hbase).trans ?_
  rw [Cells.content_set_get]

/-- A pass permutes the cells. -/
theorem pass_perm (hstride : 0 < stride) : (c.content (pass c stride n s) n).Perm (c.content s n) := by
  unfold pass
  have hall : ∀ bases : List ℕ, (∀ b ∈ bases, b + stride < n) → ∀ s : σ,
      (c.content (bases.foldl (insert c stride) s) n).Perm (c.content s n) := by
    intro bases
    induction bases with
    | nil => exact fun _ s => List.Perm.refl _
    | cons b bases ih =>
      intro h s
      refine (ih (fun b' hb' => h b' (List.mem_cons_of_mem b hb')) _).trans ?_
      exact insert_perm hstride (h b List.mem_cons_self)
  refine hall _ (fun b hb => ?_) s
  have hb := List.mem_range.1 hb
  omega

/-- What every `set` keeps. -/
theorem pass_keeps {P : σ → Prop} (hset : ∀ s i v, P s → P (c.set s i v)) (h : P s) : P (pass c stride n s) := by
  have hshift : ∀ fuel s right tmp, P s → P (shift c stride tmp fuel s right) := by
    intro fuel
    induction fuel with
    | zero => exact fun s right tmp hs => hset s right tmp hs
    | succ fuel ih =>
      intro s right tmp hs
      unfold shift
      split
      · exact ih _ _ _ (hset _ _ _ hs)
      · exact hset _ _ _ hs
  unfold pass
  induction n - stride with
  | zero => exact h
  | succ k ih =>
    rw [List.range_succ, List.foldl_append]
    exact hshift _ _ _ _ ih

/-! ## Order -/

/-- Below cell `top`, cells a stride apart are in order. -/
def Sorted (stride top : ℕ) (a : ℕ → α) : Prop := ∀ i, i + stride < top → a i ≤ a (i + stride)

/-- With `a right` still to be moved back, the cells up to `top` are in order but for it. -/
structure Hole (stride top right : ℕ) (a : ℕ → α) : Prop where
  le : right ≤ top
  pairs : ∀ i, i + stride ≤ top → i + stride ≠ right → a i ≤ a (i + stride)
  across : stride ≤ right → right + stride ≤ top → a (right - stride) ≤ a (right + stride)

theorem shift_sorted (hstride : 0 < stride) (hfuel : right ≤ fuel)
    (h : Hole stride top right (c.get (c.set s right tmp))) :
    Sorted stride (top + 1) (c.get (shift c stride tmp fuel s right)) := by
  have hdone : ∀ {s : σ} {right : ℕ}, Hole stride top right (c.get (c.set s right tmp)) →
      ¬ (stride ≤ right ∧ tmp < c.get s (right - stride)) →
      Sorted stride (top + 1) (c.get (c.set s right tmp)) := by
    intro s right h hstop i hi
    by_cases hright : i + stride = right
    · subst hright
      rw [Nat.add_sub_cancel, not_and, not_lt] at hstop
      rw [c.get_set_self, c.get_set_ne _ _ (by omega)]
      exact hstop (by omega)
    · exact h.pairs i (by omega) hright
  induction fuel generalizing s right with
  | zero => exact hdone h (by omega)
  | succ fuel ih =>
    unfold shift
    split
    · next hgo =>
      obtain ⟨hle, hlt⟩ := hgo
      obtain ⟨left, rfl⟩ : ∃ left, right = left + stride := ⟨right - stride, by omega⟩
      rw [Nat.add_sub_cancel] at hlt ⊢
      have hold : ∀ i, i ≠ left + stride → c.get (c.set s (left + stride) tmp) i = c.get s i :=
        fun i hi => c.get_set_ne _ _ hi
      refine ih (by omega) ⟨by have := h.le; omega, ?_, ?_⟩
      · intro i hi hne
        have hpair := h.pairs i hi
        by_cases hileft : i = left
        · subst hileft
          rw [c.get_set_self, c.get_set_ne _ _ (by omega), c.get_set_self]
          exact hlt.le
        · have hright : c.get (c.set (c.set s (left + stride) (c.get s left)) left tmp) (i + stride) =
              c.get (c.set s (left + stride) tmp) (i + stride) := by
            rw [c.get_set_ne _ _ hne, c.get_set_ne _ _ (by omega), hold _ (by omega)]
          rw [hright, c.get_set_ne _ _ hileft]
          by_cases hi' : i = left + stride
          · subst hi'
            have hacross := h.across (by omega) (by omega)
            rw [Nat.add_sub_cancel, hold left (by omega)] at hacross
            rw [c.get_set_self]
            exact hacross
          · rw [c.get_set_ne _ _ hi', ← hold i hi']
            exact hpair (by omega)
      · intro hle' htop
        have hpair := h.pairs (left - stride) (by omega) (by omega)
        rw [Nat.sub_add_cancel hle', hold left (by omega), hold _ (by omega)] at hpair
        rw [c.get_set_ne _ _ (by omega), c.get_set_ne _ _ (by omega), c.get_set_ne _ _ (by omega), c.get_set_self]
        exact hpair
    · next hstop => exact hdone h hstop

theorem insert_sorted (hstride : 0 < stride) (h : Sorted stride (base + stride) (c.get s)) :
    Sorted stride (base + stride + 1) (c.get (insert c stride s base)) := by
  refine shift_sorted hstride (Nat.le_refl _) ⟨Nat.le_refl _, ?_, fun _ htop => by omega⟩
  have hsame : ∀ i, c.get (c.set s (base + stride) (c.get s (base + stride))) i = c.get s i := by
    intro i
    rw [c.get_set]
    split
    · next hi => rw [hi]
    · rfl
  intro i hi hne
  rw [hsame, hsame]
  exact h i (by omega)

/-- **One pass.** -/
theorem pass_sorted (hstride : 0 < stride) (n : ℕ) (s : σ) : Sorted stride n (c.get (pass c stride n s)) := by
  have hall : ∀ k, Sorted stride (k + stride) (c.get ((List.range k).foldl (insert c stride) s)) := by
    intro k
    induction k with
    | zero =>
      intro i hi
      omega
    | succ k ih =>
      rw [List.range_succ, List.foldl_append, Nat.add_right_comm]
      exact insert_sorted hstride ih
  intro i hi
  exact hall (n - stride) i (by omega)

/-- With stride 1 all cells are in order. -/
theorem pairwise_of_sorted (h : Sorted 1 n (c.get s)) : (c.content s n).Pairwise (· ≤ ·) := by
  rw [List.pairwise_iff_getElem]
  intro i j hi hj hij
  rw [Cells.length_content] at hj
  rw [Cells.getElem_content, Cells.getElem_content]
  have hle : ∀ d, i + d < n → c.get s i ≤ c.get s (i + d) := by
    intro d
    induction d with
    | zero => exact fun _ => le_rfl
    | succ d ih => exact fun hd => (ih (by omega)).trans (h (i + d) hd)
  have hindex : i + (j - i) = j := by omega
  rw [← hindex]
  exact hle (j - i) (by omega)

end Shell
