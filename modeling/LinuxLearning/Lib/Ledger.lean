import LinuxLearning.Lib.Run
/-!
# Resources that are acquired and released

A `Ledger` keeps what a program holds, as a multiset: a resource that can be acquired twice has to be released
twice. A release of what is not held goes to `wrong`. Resources with an address get a new one every time
(`alloc`); `addr r` is the address of `r`.

* `Gains addr l l' e` — on the way from `l` to `l'` exactly `e` was gained, and nothing released wrongly;
* `Gains.releases` — a list of releases takes away what it names, in any order;
* `Gains.leaks` — a list that is too short does not lead back;
* `wrong_releases_le`, `wrong_releases_lt` — what was released wrongly stays so, and more comes to it when a list names
  what is not held.
-/

variable {R : Type*}

structure Ledger (R : Type*) where
  held : Multiset R
  /-- the releases of what was not held -/
  wrong : List R
  /-- no address from here on was ever given out -/
  next : ℕ

namespace Ledger

def empty : Ledger R := ⟨0, [], 0⟩

def acquire (l : Ledger R) (r : R) : Ledger R := { l with held := {r} + l.held }

/-- A resource with a new address. -/
def alloc (l : Ledger R) (r : ℕ → R) : Ledger R := { l with held := {r l.next} + l.held, next := l.next + 1 }

/-- No address is given out twice. -/
def Bounded (addr : R → Option ℕ) (l : Ledger R) : Prop := ∀ r ∈ l.held, ∀ a, addr r = some a → a < l.next

/-- `l'` holds `e` more than `l`, with addresses that are new. -/
structure Gains (addr : R → Option ℕ) (l l' : Ledger R) (e : Multiset R) : Prop where
  held : l'.held = e + l.held
  wrong : l'.wrong = l.wrong
  next : l.next ≤ l'.next
  fresh : ∀ r ∈ e, ∀ a, addr r = some a → l.next ≤ a ∧ a < l'.next

variable {addr : R → Option ℕ} {l l' : Ledger R} {e e' : Multiset R} {r : R}

/-- A list of resources, taken apart. -/
theorem coe_cons (r : R) (rs : List R) : (r :: rs : Multiset R) = {r} + (rs : Multiset R) := by
  rw [← Multiset.cons_coe, Multiset.singleton_add]

theorem Gains.refl (l : Ledger R) : Gains addr l l 0 :=
  ⟨(zero_add _).symm, rfl, Nat.le_refl _, fun r hr => absurd hr (Multiset.notMem_zero r)⟩

theorem Gains.acquire (h : Gains addr l l' e) (hr : addr r = none) : Gains addr l (l'.acquire r) ({r} + e) := by
  refine ⟨?_, h.wrong, h.next, ?_⟩
  · show {r} + l'.held = {r} + e + l.held
    rw [h.held, add_assoc]
  · intro r' hr' a ha
    rcases Multiset.mem_add.1 hr' with hnew | hold
    · rw [Multiset.mem_singleton.1 hnew, hr] at ha
      cases ha
    · exact h.fresh r' hold a ha

theorem Gains.alloc {r : ℕ → R} (h : Gains addr l l' e) (hr : addr (r l'.next) = some l'.next) :
    Gains addr l (l'.alloc r) ({r l'.next} + e) := by
  have hnext := h.next
  refine ⟨?_, h.wrong, Nat.le_succ_of_le hnext, ?_⟩
  · show {r l'.next} + l'.held = {r l'.next} + e + l.held
    rw [h.held, add_assoc]
  · intro r' hr' a ha
    show l.next ≤ a ∧ a < l'.next + 1
    rcases Multiset.mem_add.1 hr' with hnew | hold
    · rw [Multiset.mem_singleton.1 hnew, hr, Option.some.injEq] at ha
      omega
    · have hfresh := h.fresh r' hold a ha
      omega

/-- The addresses stay bounded. -/
theorem Gains.bounded (h : Gains addr l l' e) (hl : Bounded addr l) : Bounded addr l' := by
  intro r hr a ha
  rw [h.held] at hr
  rcases Multiset.mem_add.1 hr with hnew | hold
  · exact (h.fresh r hnew a ha).2
  · exact (hl r hold a ha).trans_le h.next

/-- What is new was not held before. -/
theorem Gains.notMem (h : Gains addr l l' e) (hl : Bounded addr l) {a : ℕ} (ha : addr r = some a) (hr : r ∈ e) :
    r ∉ l.held := by
  intro hold
  have hlt := hl r hold a ha
  have hle := (h.fresh r hr a ha).1
  omega

variable [DecidableEq R]

def release (l : Ledger R) (r : R) : Ledger R :=
  if r ∈ l.held then { l with held := l.held.erase r } else { l with wrong := r :: l.wrong }

/-- One release after the other. -/
def releases (l : Ledger R) (rs : List R) : Ledger R := rs.foldl release l

theorem Gains.release (h : Gains addr l l' ({r} + e)) : Gains addr l (l'.release r) e := by
  have hmem : r ∈ l'.held := by
    rw [h.held]
    simp
  unfold Ledger.release
  rw [if_pos hmem]
  refine ⟨?_, h.wrong, h.next, fun r' hr' => h.fresh r' (Multiset.mem_add.2 (.inr hr'))⟩
  show l'.held.erase r = e + l.held
  rw [h.held, add_assoc, Multiset.singleton_add, Multiset.erase_cons_head]

/-- **Releases in any order.** -/
theorem Gains.releases {rs : List R} (h : Gains addr l l' e') (he : e' = rs + e) :
    Gains addr l (l'.releases rs) e := by
  induction rs generalizing l' e' with
  | nil =>
    have hsame : e' = e := by simpa using he
    exact hsame ▸ h
  | cons r rs ih =>
    have hhead : e' = {r} + (rs + e) := by
      rw [he, coe_cons, add_assoc]
    rw [hhead] at h
    exact ih h.release rfl

/-- A release takes one resource away at most. -/
theorem card_release (l : Ledger R) (r : R) : l.held.card ≤ (l.release r).held.card + 1 := by
  unfold Ledger.release
  by_cases hr : r ∈ l.held
  · rw [if_pos hr]
    exact (Multiset.card_erase_add_one hr).ge
  · rw [if_neg hr]
    exact Nat.le_succ _

theorem card_releases (l : Ledger R) (rs : List R) : l.held.card ≤ (l.releases rs).held.card + rs.length := by
  induction rs generalizing l with
  | nil => exact Nat.le_refl _
  | cons r rs ih =>
    have hhead := card_release l r
    have htail := ih (l.release r)
    have hfold : l.releases (r :: rs) = (l.release r).releases rs := rfl
    rw [hfold, List.length_cons]
    omega

/-- **Leaks.** Fewer releases than there are resources that were gained. -/
theorem Gains.leaks (h : Gains addr l l' e) {rs : List R} (hcard : rs.length < e.card) :
    (l'.releases rs).held ≠ l.held := by
  intro heq
  have hle := card_releases l' rs
  rw [heq, h.held, Multiset.card_add] at hle
  omega

/-- What a list of releases does not name is still held. -/
theorem mem_releases {rs : List R} (hrs : r ∉ rs) (hr : r ∈ l.held) : r ∈ (l.releases rs).held := by
  induction rs generalizing l with
  | nil => exact hr
  | cons r' rs ih =>
    rw [List.mem_cons, not_or] at hrs
    refine ih hrs.2 ?_
    unfold Ledger.release
    by_cases hr' : r' ∈ l.held
    · rw [if_pos hr']
      exact (Multiset.mem_erase_of_ne hrs.1).2 hr
    · rw [if_neg hr']
      exact hr

/-! ## Wrong releases -/

theorem wrong_release_le (l : Ledger R) (r : R) : l.wrong.length ≤ (l.release r).wrong.length := by
  unfold Ledger.release
  by_cases hr : r ∈ l.held
  · rw [if_pos hr]
  · rw [if_neg hr]
    exact Nat.le_succ _

theorem wrong_releases_le (l : Ledger R) (rs : List R) : l.wrong.length ≤ (l.releases rs).wrong.length := by
  induction rs generalizing l with
  | nil => exact Nat.le_refl _
  | cons r rs ih => exact (wrong_release_le l r).trans (ih (l.release r))

theorem held_release_subset (l : Ledger R) (r : R) : (l.release r).held ⊆ l.held := by
  unfold Ledger.release
  by_cases hr : r ∈ l.held
  · rw [if_pos hr]
    exact Multiset.erase_subset r l.held
  · rw [if_neg hr]
    exact Multiset.Subset.refl _

theorem held_releases_subset (l : Ledger R) (rs : List R) : (l.releases rs).held ⊆ l.held := by
  induction rs generalizing l with
  | nil => exact Multiset.Subset.refl _
  | cons r rs ih => exact Multiset.Subset.trans (ih (l.release r)) (held_release_subset l r)

/-- A list that names what is not held. -/
theorem wrong_releases_lt {rs : List R} (hrs : r ∈ rs) (hr : r ∉ l.held) :
    l.wrong.length < (l.releases rs).wrong.length := by
  induction rs generalizing l with
  | nil => cases hrs
  | cons r' rs ih =>
    rcases List.mem_cons.1 hrs with rfl | hrs'
    · have hhead : l.wrong.length < (l.release r).wrong.length := by
        unfold Ledger.release
        rw [if_neg hr]
        exact Nat.lt_succ_self _
      exact hhead.trans_le (wrong_releases_le (l.release r) rs)
    · have hr' : r ∉ (l.release r').held := fun hmem => hr (held_release_subset l r' hmem)
      exact (wrong_release_le l r').trans_lt (ih hrs' hr')

end Ledger
