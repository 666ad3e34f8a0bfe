import Mathlib
/-!
# Words with a terminator

A stream of words, each followed by a terminator that occurs in no word (C strings, lines). A word and its terminator
are a frame.

* `IsFrame.unique` — a list begins with one frame at most; `flatten_inj` — a stream of frames is cut in one way;
* `eq_of_prefixes` — pieces that are beginnings of those of another cut;
* `first` — the frame a list begins with, `none` where no terminator comes.
-/

namespace Framing

variable {α : Type*} {nul : α} {f g xs : List α} {fs gs : List (List α)}

/-- A word and its terminator. -/
def IsFrame (nul : α) (f : List α) : Prop := ∃ word, nul ∉ word ∧ f = word ++ [nul]

theorem IsFrame.ne_nil (h : IsFrame nul f) : f ≠ [] := by
  obtain ⟨word, -, rfl⟩ := h
  simp

/-- A frame inside a frame, from the beginning on, is all of it. -/
theorem IsFrame.eq_of_prefix (hf : IsFrame nul f) (hg : IsFrame nul g) (h : f <+: g) : f = g := by
  obtain ⟨word, -, rfl⟩ := hf
  obtain ⟨word', hword', rfl⟩ := hg
  rcases List.prefix_concat_iff.1 h with heq | hpre
  · exact heq
  · exact absurd (hpre.subset (by simp)) hword'

theorem IsFrame.unique (hf : IsFrame nul f) (hg : IsFrame nul g) (hfx : f <+: xs) (hgx : g <+: xs) : f = g := by
  rcases List.prefix_or_prefix_of_prefix hfx hgx with h | h
  · exact hf.eq_of_prefix hg h
  · exact (hg.eq_of_prefix hf h).symm

/-- A stream is cut into frames in one way. -/
theorem flatten_inj (hf : ∀ f ∈ fs, IsFrame nul f) (hg : ∀ g ∈ gs, IsFrame nul g)
    (h : fs.flatten = gs.flatten) : fs = gs := by
  induction fs generalizing gs with
  | nil =>
    cases gs with
    | nil => rfl
    | cons g gs =>
      have hnil : g = [] := by
        simp only [List.flatten_nil, List.flatten_cons, List.nil_eq, List.append_eq_nil_iff] at h
        exact h.1
      exact absurd hnil (hg g List.mem_cons_self).ne_nil
  | cons f fs ih =>
    have hframe := hf f List.mem_cons_self
    cases gs with
    | nil =>
      have hnil : f = [] := by
        simp only [List.flatten_nil, List.flatten_cons, List.append_eq_nil_iff] at h
        exact h.1
      exact absurd hnil hframe.ne_nil
    | cons g gs =>
      rw [List.flatten_cons, List.flatten_cons] at h
      have hfg : f = g :=
        hframe.unique (hg g List.mem_cons_self) (List.prefix_append f _) (h ▸ List.prefix_append g _)
      subst hfg
      rw [ih (fun f' hf' => hf f' (List.mem_cons_of_mem f hf')) (fun g' hg' => hg g' (List.mem_cons_of_mem f hg'))
        (List.append_cancel_left h)]

theorem flatten_length_le (h : List.Forall₂ (· <+: ·) gs fs) : gs.flatten.length ≤ fs.flatten.length := by
  induction h with
  | nil => exact le_rfl
  | cons hpre _ ih =>
    rw [List.flatten_cons, List.flatten_cons, List.length_append, List.length_append]
    have hlen := hpre.length_le
    omega

/-- Two ways to cut a stream into as many pieces, each piece of one a beginning of that of the other, are the same. -/
theorem eq_of_prefixes (h : List.Forall₂ (· <+: ·) gs fs) (heq : fs.flatten = gs.flatten) : gs = fs := by
  induction h with
  | nil => rfl
  | @cons g f gs fs hpre hrest ih =>
    obtain ⟨more, rfl⟩ := hpre
    rw [List.flatten_cons, List.flatten_cons, List.append_assoc, List.append_cancel_left_eq] at heq
    have hlen := flatten_length_le hrest
    have hmore : more = [] := by
      rw [← List.length_eq_zero_iff]
      have hlen' := congrArg List.length heq
      rw [List.length_append] at hlen'
      omega
    subst hmore
    rw [List.nil_append] at heq
    rw [List.append_nil, ih heq]

section First

variable [DecidableEq α]

/-- The frame that the list begins with. -/
def first (nul : α) (xs : List α) : Option (List α) :=
  if nul ∈ xs then some (xs.takeWhile (· ≠ nul) ++ [nul]) else none

theorem first_spec (h : first nul xs = some f) : IsFrame nul f ∧ f <+: xs := by
  unfold first at h
  by_cases hmem : nul ∈ xs
  · obtain ⟨word, rest, rfl, hword⟩ := List.eq_append_cons_of_mem hmem
    have hpos : ∀ a ∈ word, decide (a ≠ nul) = true := by
      rintro a ha
      rw [decide_eq_true_iff]
      rintro rfl
      exact hword ha
    have htake : (word ++ nul :: rest).takeWhile (· ≠ nul) = word := by
      rw [List.takeWhile_append_of_pos hpos]
      simp
    rw [if_pos hmem, htake, Option.some.injEq] at h
    subst h
    exact ⟨⟨word, hword, rfl⟩, rest, by simp⟩
  · rw [if_neg hmem] at h
    cases h

theorem first_eq_some_iff : first nul xs = some f ↔ IsFrame nul f ∧ f <+: xs := by
  constructor
  · exact first_spec
  · rintro ⟨hframe, hpre⟩
    have hmem : nul ∈ xs := by
      obtain ⟨word, -, rfl⟩ := hframe
      exact hpre.subset (by simp)
    have hfirst : first nul xs = some (xs.takeWhile (· ≠ nul) ++ [nul]) := if_pos hmem
    obtain ⟨hframe', hpre'⟩ := first_spec hfirst
    rw [hfirst, hframe.unique hframe' hpre hpre']

end First

end Framing
