import LinuxLearning.Lib.Tour
import LinuxLearning.Speller.Focus
import LinuxLearning.Speller.Moves
/-!
# Toggling through the layouts

Each toggle goes on to the next visible layout in cyclic order (`:777-796`, `:945-949`). With the layouts counted
from the current one on (`ahead`), the visible ones are the stops of a tour.

* `Switches` — what a toggle does to the layouts and to the current one, by message or by call;
* `switches_tour` — as many toggles as there are visible layouts call at the visible ones in cyclic order;
* `cycle_law` — so they visit every visible layout once and come back.

Layouts may have any sizes and any flags here.
-/

namespace Speller

open Lua (index wp wp_bind wp_mono)

variable {p : Platform} {s : State} {layouts : List Layout} {c : ℤ} {go : State → State}

/-- The state after a call of `switchLayout`. -/
def next (p : Platform) (s : State) : State := (Lua.run (switchLayout p) s).2

/-- The state after the toggle message. -/
def toggle (p : Platform) (s : State) : State := (Lua.run (onToggleLayout p) s).2

/-- The numbers of the layouts that `n` toggles switch to. -/
def visited (p : Platform) (s : State) (n : ℕ) : List ℤ :=
  (List.iterate (toggle p) (toggle p s) n).map State.nLayout

/-- Going on to the next layout. -/
def Switches (go : State → State) : Prop :=
  ∀ s, InRange s → (go s).tttLayouts = s.tttLayouts ∧ IsNext s.tttLayouts s.nLayout (go s).nLayout

theorem switchLayout_next (h : InRange s) :
    wp (switchLayout p) (fun _ s' => s'.tttLayouts = s.tttLayouts ∧ IsNext s.tttLayouts s.nLayout s'.nLayout)
      (fun _ _ => False) s := by
  apply wp_mono (switchLayout_wp h) _ (fun _ _ h => h)
  rintro _ s' ⟨m, hm, rfl⟩
  have hshape := switched_shape (p := p) s m
  simp only [State.shape, Prod.mk.injEq] at hshape
  rw [hshape.1, hshape.2.1]
  exact ⟨rfl, isNext_of_eq h hm⟩

theorem switches_next (p : Platform) : Switches (next p) := by
  intro s h
  exact Lua.state_of_wp (P := fun s' : State => s'.tttLayouts = s.tttLayouts ∧ IsNext s.tttLayouts s.nLayout s'.nLayout)
    (wp_mono (switchLayout_next h) (fun _ _ h => h) (fun _ _ h => h.elim))

theorem switches_toggle (p : Platform) : Switches (toggle p) := by
  intro s h
  refine Lua.state_of_wp
    (P := fun s' : State => s'.tttLayouts = s.tttLayouts ∧ IsNext s.tttLayouts s.nLayout s'.nLayout) ?_
  unfold onToggleLayout
  rw [wp_bind]
  exact wp_mono (switchLayout_next h) (fun _ _ h => h) (fun _ _ h => h.elim)

theorem Switches.inRange (hgo : Switches go) (h : InRange s) : InRange (go s) := by
  obtain ⟨htable, hnext⟩ := hgo s h
  unfold InRange
  rw [htable]
  exact hnext.bounds h.1 h.2

theorem Switches.iterate (hgo : Switches go) (h : InRange s) (k : ℕ) :
    InRange (go^[k] s) ∧ (go^[k] s).tttLayouts = s.tttLayouts := by
  induction k with
  | zero => exact ⟨h, rfl⟩
  | succ k ih =>
    rw [Function.iterate_succ_apply']
    exact ⟨hgo.inRange ih.1, (hgo _ ih.1).1.trans ih.2⟩

/-! ## The layouts in cyclic order -/

/-- The layout `x` steps after layout `c` is visible. -/
abbrev Shown (layouts : List Layout) (c : ℤ) (x : ℕ) : Prop :=
  visibleAt layouts (ahead layouts.length c x) = some true

/-- The current layout is the one `x` steps after layout `c`. -/
def StepsAhead (layouts : List Layout) (c : ℤ) (x : ℕ) (s : State) : Prop :=
  s.tttLayouts = layouts ∧ s.nLayout = ahead layouts.length c x

theorem ahead_ahead {n a k : ℕ} (hc : c ≤ n) (h : a + k ≤ n) :
    ahead n (ahead n c a) k = ahead n c (a + k) := by
  unfold ahead
  push_cast
  split_ifs <;> omega

theorem ahead_inj {n x y : ℕ} (hx : 1 ≤ x ∧ x ≤ n) (hy : 1 ≤ y ∧ y ≤ n) (h : ahead n c x = ahead n c y) :
    x = y := by
  unfold ahead at h
  split_ifs at h <;> omega

theorem IsNext.unique {nLayout m m' : ℤ} (h : IsNext layouts nLayout m) (h' : IsNext layouts nLayout m') :
    m = m' := by
  rcases h with ⟨k, hk₁, -, rfl, hv, hmid⟩ | ⟨rfl, hnone⟩
  · rcases h' with ⟨k', hk₁', -, rfl, hv', hmid'⟩ | ⟨rfl, hnone'⟩
    · rcases Nat.lt_trichotomy k k' with hlt | rfl | hgt
      · rw [hmid' k hk₁ hlt] at hv
        simp at hv
      · rfl
      · rw [hmid k' hk₁' hgt] at hv'
        simp at hv'
    · exact absurd hv (hnone' _)
  · rcases h' with ⟨k', -, -, rfl, hv', -⟩ | ⟨rfl, -⟩
    · exact absurd hv' (hnone _)
    · rfl

/-- The next visible layout is the next stop. -/
theorem isNext_ahead {a x : ℕ} (h₁ : 1 ≤ c) (h₂ : c ≤ layouts.length)
    (hnext : Tour.IsNext (Shown layouts c) a x) (hx : x ≤ layouts.length) :
    IsNext layouts (ahead layouts.length c a) (ahead layouts.length c x) := by
  obtain ⟨hax, hv, hmid⟩ := hnext
  refine .inl ⟨x - a, by omega, by omega, ?_, hv, ?_⟩
  · rw [ahead_ahead h₂ (by omega)]
    congr 1
    omega
  · intro j hj₁ hj₂
    rw [ahead_ahead h₂ (by omega)]
    obtain ⟨hb₁, hb₂⟩ := ahead_bounds h₁ h₂ (show a + j ≤ layouts.length by omega)
    obtain ⟨b, hb⟩ := visibleAt_isSome hb₁ hb₂
    cases b with
    | false => exact hb
    | true => exact absurd hb (hmid (a + j) (by omega) (by omega))

theorem stepsAhead_go (hgo : Switches go) (h₁ : 1 ≤ c) (h₂ : c ≤ layouts.length) {a x : ℕ} {s : State}
    (hs : StepsAhead layouts c a s) (hnext : Tour.IsNext (Shown layouts c) a x) (hx : x ≤ layouts.length) :
    StepsAhead layouts c x (go s) := by
  have hin : InRange s := by
    unfold InRange
    rw [hs.1, hs.2]
    exact ahead_bounds h₁ h₂ (hnext.1.le.trans hx)
  obtain ⟨htable, hm⟩ := hgo s hin
  rw [hs.1, hs.2] at hm
  exact ⟨htable.trans hs.1, hm.unique (isNext_ahead h₁ h₂ hnext hx)⟩

/-- The layouts that are stops, counted from the current one. -/
def round (layouts : List Layout) (c : ℤ) : List ℕ := Tour.stops (Shown layouts c) 0 layouts.length

/-- **The toggles call at the visible layouts**, in cyclic order from the current one. -/
theorem switches_tour (hgo : Switches go) (h : InRange s) :
    (List.iterate go (go s) (round s.tttLayouts s.nLayout).length).map State.nLayout =
      (round s.tttLayouts s.nLayout).map (ahead s.tttLayouts.length s.nLayout) := by
  have hstart : StepsAhead s.tttLayouts s.nLayout 0 s := ⟨rfl, (ahead_zero h.2).symm⟩
  have htour : List.Forall₂ (StepsAhead s.tttLayouts s.nLayout) (round s.tttLayouts s.nLayout)
      (List.iterate go (go s) (round s.tttLayouts s.nLayout).length) :=
    Tour.tour (fun _ _ _ ht hnext hx => stepsAhead_go hgo h.1 h.2 ht hnext hx) hstart
  have hmap : List.Forall₂ (fun t x => t.nLayout = ahead s.tttLayouts.length s.nLayout x)
      (List.iterate go (go s) (round s.tttLayouts s.nLayout).length) (round s.tttLayouts s.nLayout) :=
    htour.flip.imp fun _ _ ht => ht.2
  rw [← List.forall₂_eq_eq_eq]
  exact List.forall₂_map_left_iff.2 (List.forall₂_map_right_iff.2 hmap)

/-! ## All of them, once each -/

theorem mem_upTo {n : ℕ} {i : ℤ} : i ∈ Lua.upTo n ↔ 1 ≤ i ∧ i ≤ n := by
  unfold Lua.upTo
  simp only [List.mem_map, List.mem_range]
  constructor
  · rintro ⟨k, hk, rfl⟩
    omega
  · rintro ⟨h₁, h₂⟩
    exact ⟨(i - 1).toNat, by omega, by omega⟩

theorem nodup_upTo (n : ℕ) : (Lua.upTo n).Nodup := by
  unfold Lua.upTo
  apply List.Nodup.map _ List.nodup_range
  intro k k' h
  simpa using h

/-- The numbers of the visible layouts. -/
def visibleLayouts (layouts : List Layout) : List ℤ :=
  (Lua.upTo layouts.length).filter fun i => visibleAt layouts i = some true

theorem mem_visibleLayouts {i : ℤ} : i ∈ visibleLayouts layouts ↔ visibleAt layouts i = some true := by
  unfold visibleLayouts
  rw [List.mem_filter, mem_upTo, decide_eq_true_iff, and_iff_right_iff_imp]
  intro hv
  obtain ⟨l, hl, -⟩ := Option.map_eq_some_iff.1 hv
  exact Lua.bounds_of_index hl

theorem length_visibleLayouts (layouts : List Layout) :
    (visibleLayouts layouts).length = countVisible layouts := by
  have hmap : (Lua.upTo layouts.length).map (visibleAt layouts) = layouts.map fun l => some l.bVisible := by
    apply List.ext_getElem
    · simp [Lua.upTo]
    · intro k hk hk'
      have hk'' : k < layouts.length := by simpa using hk'
      simp [Lua.upTo, visibleAt, index, List.getElem?_eq_getElem hk'']
  unfold visibleLayouts countVisible
  rw [← List.countP_eq_length_filter]
  have hcount : (Lua.upTo layouts.length).countP (fun i => visibleAt layouts i = some true) =
      ((Lua.upTo layouts.length).map (visibleAt layouts)).countP fun b => b = some true := by
    rw [List.countP_map]
    rfl
  rw [hcount, hmap, List.countP_map]
  apply List.countP_congr
  intro l _
  simp

theorem round_perm (h₁ : 1 ≤ c) (h₂ : c ≤ layouts.length) :
    ((round layouts c).map (ahead layouts.length c)).Perm (visibleLayouts layouts) := by
  have hmem : ∀ {x}, x ∈ round layouts c ↔ 0 < x ∧ x ≤ layouts.length ∧ Shown layouts c x := Tour.mem_stops
  rw [List.perm_ext_iff_of_nodup]
  · intro i
    rw [mem_visibleLayouts, List.mem_map]
    constructor
    · rintro ⟨x, hx, rfl⟩
      exact (hmem.1 hx).2.2
    · intro hv
      obtain ⟨l, hl, -⟩ := Option.map_eq_some_iff.1 hv
      obtain ⟨hi₁, hi₂⟩ := Lua.bounds_of_index hl
      obtain ⟨x, hx₁, hx₂, rfl⟩ := exists_ahead h₁ h₂ hi₁ hi₂
      exact ⟨x, hmem.2 ⟨hx₁, hx₂, hv⟩, rfl⟩
  · apply List.Nodup.map_on _ (Tour.stops_nodup _ _ _)
    intro x hx y hy h
    have hx' := hmem.1 hx
    have hy' := hmem.1 hy
    exact ahead_inj ⟨hx'.1, hx'.2.1⟩ ⟨hy'.1, hy'.2.1⟩ h
  · exact (nodup_upTo _).filter _

theorem length_round (h₁ : 1 ≤ c) (h₂ : c ≤ layouts.length) : (round layouts c).length = countVisible layouts := by
  rw [← length_visibleLayouts, ← (round_perm h₁ h₂).length_eq, List.length_map]

/-- A toggle ends on a visible layout, as long as there is one. -/
theorem toggles_visible (p : Platform) (h : InRange s) (k : ℕ) :
    visibleAt s.tttLayouts ((toggle p)^[k + 1] s).nLayout = some true ∨
      NoneVisible s.tttLayouts ∧ ((toggle p)^[k + 1] s).nLayout = s.nLayout := by
  induction k with
  | zero =>
    rcases (switches_toggle p s h).2 with ⟨_, -, -, -, hv, -⟩ | ⟨hsame, hnone⟩
    · exact .inl hv
    · exact .inr ⟨hnone, hsame⟩
  | succ k ih =>
    obtain ⟨hin, htable⟩ := (switches_toggle p).iterate h (k + 1)
    have hnext := (switches_toggle p _ hin).2
    rw [Function.iterate_succ_apply']
    rw [htable] at hnext
    rcases hnext with ⟨_, -, -, -, hv, -⟩ | ⟨hsame, hnone⟩
    · exact .inl hv
    · rcases ih with hv | ⟨-, hstart⟩
      · exact absurd hv (hnone _)
      · exact .inr ⟨hnone, hsame.trans hstart⟩

/-- The round from a visible layout ends on it. -/
theorem getLast?_round (h : InRange s) (hvis : visibleAt s.tttLayouts s.nLayout = some true) :
    (round s.tttLayouts s.nLayout).getLast? = some s.tttLayouts.length := by
  have hlen : 0 < s.tttLayouts.length := by
    have h₁ := h.1
    have h₂ := h.2
    omega
  apply Tour.getLast?_stops hlen
  rw [Shown, ahead_full h.1]
  exact hvis

/-- **Toggling.** From any layout in range `switchLayout` goes on to the first visible layout in cyclic order and
keeps the current one if none is visible; so no toggle leads to an invisible layout while one is visible. From a
visible layout, as many toggles as there are visible layouts visit each of these once and end where they began. -/
theorem cycle_law (p : Platform) (h : InRange s) :
    (∃ s', Lua.run (switchLayout p) s = (.ok (), s') ∧ s'.tttLayouts = s.tttLayouts ∧
        IsNext s.tttLayouts s.nLayout s'.nLayout) ∧
      (∀ k, visibleAt s.tttLayouts ((toggle p)^[k + 1] s).nLayout = some true ∨
        NoneVisible s.tttLayouts ∧ ((toggle p)^[k + 1] s).nLayout = s.nLayout) ∧
      (visibleAt s.tttLayouts s.nLayout = some true →
        (visited p s (countVisible s.tttLayouts)).Nodup ∧
          (∀ i, i ∈ visited p s (countVisible s.tttLayouts) ↔ visibleAt s.tttLayouts i = some true) ∧
          (visited p s (countVisible s.tttLayouts)).getLast? = some s.nLayout) := by
  refine ⟨?_, toggles_visible p h, ?_⟩
  · obtain ⟨_, s', hrun, hs'⟩ := Lua.returns_of_wp (switchLayout_next (p := p) h)
    exact ⟨s', hrun, hs'⟩
  · intro hvis
    have hround : visited p s (countVisible s.tttLayouts) =
        (round s.tttLayouts s.nLayout).map (ahead s.tttLayouts.length s.nLayout) := by
      rw [← switches_tour (switches_toggle p) h, length_round h.1 h.2]
      rfl
    have hperm := round_perm h.1 h.2
    rw [hround]
    refine ⟨hperm.nodup_iff.2 ((nodup_upTo _).filter _), ?_, ?_⟩
    · intro i
      rw [hperm.mem_iff, mem_visibleLayouts]
    · rw [List.getLast?_map, getLast?_round h hvis, Option.map_some, ahead_full h.1]

/-- Both layouts of the numeric block are visible: two toggles go to the second and back. -/
theorem cycle_law_sample : countVisible (constructor numPad allKeys).tttLayouts = 2 ∧
    visited numPad (constructor numPad allKeys) 2 = [2, 1] ∧
    (∀ i, i ∈ visited numPad (constructor numPad allKeys) 2 ↔
      visibleAt (constructor numPad allKeys).tttLayouts i = some true) := by
  have hcount : countVisible (constructor numPad allKeys).tttLayouts = 2 := by decide +kernel
  have hcycle := (cycle_law numPad (inRange_constructor numPad allKeys)).2.2 (by decide +kernel)
  rw [hcount] at hcycle
  exact ⟨hcount, by decide +kernel, hcycle.2.1⟩

end Speller
