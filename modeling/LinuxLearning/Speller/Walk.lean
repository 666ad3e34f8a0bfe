import LinuxLearning.Lib.Tour
import LinuxLearning.Speller.Focus
/-!
# The cursor walks the enabled buttons

`moveCursor` (`:1008-1067`) looks for the next enabled button to the right or to the left. On the right end it
stays where it is, on the left end it goes back to the button container.

* `Walks` — the `while` loop as Lua runs it, with no bound on its rounds; `walks_walk` — it ends, with what
  `walk` computes;
* `Walks.spec` — the buttons it passes are not enabled;
* `Walks.right`, `Walks.left` — where it ends: on the next enabled button, or outside the layout;
* `AtKey` — the cursor is on an enabled button; `press_right`, `press_left` — one press from there;
* `walk_law` — a press to one side and one to the other cancel out, and pressing on from the first enabled
  button visits all of them in order.
-/

namespace Speller

open Lua (index wp wp_bind wp_mono wp_when wp_ite)

variable {p : Platform} {s : State} {l : Layout} {ttLayout : List ButtonDef} {nMove n : ℤ} {r : ℤ × Bool} {c x : ℕ}

/-! ## The loop -/

/-- Button `b` is enabled. -/
def KeyOn (ttLayout : List ButtonDef) (b : ℕ) : Prop :=
  ((index ttLayout b).map ButtonDef.bEnabled).getD false = true

instance : DecidablePred (KeyOn ttLayout) := fun b =>
  inferInstanceAs (Decidable (((index ttLayout b).map ButtonDef.bEnabled).getD false = true))

theorem keyOn_iff : KeyOn ttLayout x ↔ ∃ d, index ttLayout x = some d ∧ d.bEnabled = true := by
  unfold KeyOn
  cases h : index ttLayout x with
  | none => simp
  | some d => simp

theorem KeyOn.bounds (h : KeyOn ttLayout x) : 1 ≤ x ∧ x ≤ ttLayout.length := by
  obtain ⟨d, hd, -⟩ := keyOn_iff.1 h
  have hin := Lua.bounds_of_index hd
  omega

/-- The `while` loop of `moveCursor` from `nCursor` on: the index it ends with, and whether the button there is
enabled. -/
inductive Walks (ttLayout : List ButtonDef) (nMove : ℤ) : ℤ → ℤ × Bool → Prop
  | out {nCursor : ℤ} : index ttLayout nCursor = none → Walks ttLayout nMove nCursor (nCursor, false)
  | found {nCursor : ℤ} {d : ButtonDef} : index ttLayout nCursor = some d → d.bEnabled = true →
      Walks ttLayout nMove nCursor (nCursor, true)
  | next {nCursor : ℤ} {d : ButtonDef} {r : ℤ × Bool} : index ttLayout nCursor = some d → d.bEnabled = false →
      Walks ttLayout nMove (nCursor + nMove) r → Walks ttLayout nMove nCursor r

/-- The loop ends: every round is nearer to the end of the layout. -/
theorem walks_walk : ∀ {fuel : ℕ} {n : ℤ},
    nMove = 1 ∧ (ttLayout.length : ℤ) + 1 - n ≤ fuel ∨ nMove = -1 ∧ n ≤ fuel →
    Walks ttLayout nMove n (walk ttLayout nMove fuel n)
  | 0, n, hfuel => by
    unfold walk
    apply Walks.out
    rw [Lua.index_eq_none]
    omega
  | fuel + 1, n, hfuel => by
    unfold walk
    cases hd : index ttLayout n with
    | none => exact Walks.out hd
    | some d =>
      by_cases hon : d.bEnabled = true
      · simp only [hon, if_true]
        exact Walks.found hd hon
      · simp only [hon]
        exact Walks.next hd (by simpa using hon) (walks_walk (by omega))

/-- The buttons the loop has passed are not enabled, and it ends on one that is, or outside the layout. -/
theorem Walks.spec (h : Walks ttLayout nMove n r) : ∃ k : ℕ, r.1 = n + k * nMove ∧
    (∀ j : ℕ, j < k → ∃ d, index ttLayout (n + j * nMove) = some d ∧ d.bEnabled = false) ∧
    (r.2 = true ∧ (∃ d, index ttLayout r.1 = some d ∧ d.bEnabled = true) ∨
      r.2 = false ∧ index ttLayout r.1 = none) := by
  induction h with
  | out hd => exact ⟨0, by simp, fun j hj => absurd hj j.not_lt_zero, .inr ⟨rfl, hd⟩⟩
  | found hd hon => exact ⟨0, by simp, fun j hj => absurd hj j.not_lt_zero, .inl ⟨rfl, _, hd, hon⟩⟩
  | @next n d r hd hoff _ ih =>
    obtain ⟨k, hk, hpassed, hend⟩ := ih
    refine ⟨k + 1, by rw [hk]; push_cast; ring, ?_, hend⟩
    intro j hj
    cases j with
    | zero => exact ⟨d, by simpa using hd, hoff⟩
    | succ j =>
      obtain ⟨d', hd', hoff'⟩ := hpassed j (by omega)
      refine ⟨d', ?_, hoff'⟩
      rw [← hd']
      congr 1
      push_cast
      ring

/-- A button that the loop has passed is not enabled. -/
theorem not_keyOn_of_passed {k j : ℕ}
    (hpassed : ∀ j : ℕ, j < k → ∃ d, index ttLayout (n + j * nMove) = some d ∧ d.bEnabled = false)
    (hj : j < k) (hx : (x : ℤ) = n + j * nMove) : ¬ KeyOn ttLayout x := by
  intro hon
  obtain ⟨d, hd, hoff⟩ := hpassed j hj
  obtain ⟨d', hd', hon'⟩ := keyOn_iff.1 hon
  rw [hx, hd, Option.some.injEq] at hd'
  subst hd'
  rw [hoff] at hon'
  cases hon'

/-- To the right: the next enabled button, or the place after the last button. -/
theorem Walks.right (h : Walks ttLayout 1 n r) (h₀ : 0 < n) (hn : n ≤ ttLayout.length + 1) :
    (∃ x : ℕ, r = ((x : ℤ), true) ∧ KeyOn ttLayout x ∧ n ≤ x ∧ ∀ y : ℕ, n ≤ y → y < x → ¬ KeyOn ttLayout y) ∨
      r = ((ttLayout.length : ℤ) + 1, false) ∧ ∀ y : ℕ, n ≤ y → ¬ KeyOn ttLayout y := by
  obtain ⟨b, found⟩ := r
  obtain ⟨k, rfl, hpassed, ⟨rfl, d, hd, hon⟩ | ⟨rfl, hnone⟩⟩ := h.spec
  · have hcast : (((n + k * 1).toNat : ℕ) : ℤ) = n + k * 1 := Int.toNat_of_nonneg (by omega)
    refine .inl ⟨(n + k * 1).toNat, by rw [hcast], ?_, by omega, ?_⟩
    · rw [keyOn_iff, hcast]
      exact ⟨d, hd, hon⟩
    · intro y h₁ h₂
      exact not_keyOn_of_passed (j := (y - n).toNat) hpassed (by omega) (by omega)
  · -- the last button passed, if any, is in the layout
    have hlast : n + k ≤ ttLayout.length + 1 := by
      cases k with
      | zero => simpa using hn
      | succ k =>
        obtain ⟨d, hd, -⟩ := hpassed k (by omega)
        have hin := Lua.bounds_of_index hd
        push_cast
        omega
    simp only [Lua.index_eq_none] at hnone
    refine .inr ⟨by rw [Prod.mk.injEq]; exact ⟨by omega, rfl⟩, ?_⟩
    intro y hy hon
    have hin := hon.bounds
    exact not_keyOn_of_passed (j := (y - n).toNat) hpassed (by omega) (by omega) hon

/-- To the left: the previous enabled button, or the place before the first button. -/
theorem Walks.left (h : Walks ttLayout (-1) n r) (h₀ : 0 ≤ n) (hn : n ≤ ttLayout.length) :
    (∃ x : ℕ, r = ((x : ℤ), true) ∧ KeyOn ttLayout x ∧ x ≤ n ∧ ∀ y : ℕ, x < y → y ≤ n → ¬ KeyOn ttLayout y) ∨
      r = (0, false) ∧ ∀ y : ℕ, y ≤ n → ¬ KeyOn ttLayout y := by
  obtain ⟨b, found⟩ := r
  obtain ⟨k, rfl, hpassed, ⟨rfl, d, hd, hon⟩ | ⟨rfl, hnone⟩⟩ := h.spec
  · have hin := Lua.bounds_of_index hd
    have hcast : (((n + k * -1).toNat : ℕ) : ℤ) = n + k * -1 := Int.toNat_of_nonneg (by omega)
    refine .inl ⟨(n + k * -1).toNat, by rw [hcast], ?_, by omega, ?_⟩
    · rw [keyOn_iff, hcast]
      exact ⟨d, hd, hon⟩
    · intro y h₁ h₂
      exact not_keyOn_of_passed (j := (n - y).toNat) hpassed (by omega) (by omega)
  · have hlast : 0 ≤ n - k := by
      cases k with
      | zero => simpa using h₀
      | succ k =>
        obtain ⟨d, hd, -⟩ := hpassed k (by omega)
        have hin := Lua.bounds_of_index hd
        push_cast
        omega
    simp only [Lua.index_eq_none] at hnone
    refine .inr ⟨by rw [Prod.mk.injEq]; exact ⟨by omega, rfl⟩, ?_⟩
    intro y hy hon
    have hin := hon.bounds
    exact not_keyOn_of_passed (j := (n - y).toNat) hpassed (by omega) (by omega) hon

/-! ## One press -/

/-- The cursor is on the enabled button `c` of the current layout, which has as many buttons as the table of its
type. -/
structure AtKey (p : Platform) (l : Layout) (c : ℕ) (s : State) : Prop where
  layout : index s.tttLayouts s.nLayout = some l
  size : l.buttons.length = tNumButtons p s.nCurrentLayoutType
  cursor : s.nCursor = some (c : ℤ)
  on : KeyOn l.buttons c

/-- The cursor has gone from `c` to `x`; both buttons are drawn anew, and nothing else is different. -/
def Stepped (p : Platform) (c x : ℕ) (s s' : State) : Prop :=
  ∃ old new, index (tttButtons p s.nCurrentLayoutType) c = some old ∧
    index (tttButtons p s.nCurrentLayoutType) x = some new ∧
    s' = { s with nCursor := some (x : ℤ), log := s.log ++ [invalidateRect p old, invalidateRect p new] }

/-- The cursor has left from `c` to the button container, which is told so. -/
def HandedBack (p : Platform) (c : ℕ) (s s' : State) : Prop :=
  ∃ old, index (tttButtons p s.nCurrentLayoutType) c = some old ∧
    s' = { focusLost s with
      nCursor := none, log := s.log ++ [invalidateRect p old, .sendFocus s.pButtonContainer 1] }

theorem AtKey.button (h : AtKey p l c s) (hx : KeyOn l.buttons x) :
    ∃ tButton, index (tttButtons p s.nCurrentLayoutType) x = some tButton := by
  have hsize := h.size
  have hin := hx.bounds
  unfold tNumButtons at hsize
  exact Lua.exists_index (by omega) (by omega)

theorem AtKey.stepped {s' : State} (h : AtKey p l c s) (hx : KeyOn l.buttons x) (hs : Stepped p c x s s') :
    AtKey p l x s' := by
  obtain ⟨old, new, -, -, rfl⟩ := hs
  exact ⟨h.layout, h.size, rfl, hx⟩

/-- Everything but the log is back where it was. -/
theorem Stepped.back {s₁ s₂ : State} (h₁ : Stepped p c x s s₁) (h₂ : Stepped p x c s₁ s₂)
    (hc : s.nCursor = some (c : ℤ)) : { s₂ with log := s.log } = s := by
  obtain ⟨old, new, -, -, rfl⟩ := h₁
  obtain ⟨old', new', -, -, rfl⟩ := h₂
  show { s with nCursor := some (c : ℤ) } = s
  rw [← hc]

/-- `moveTo` with a button the loop has found. -/
theorem moveTo_found (h : AtKey p l c s) (hx : KeyOn l.buttons x) :
    wp (moveTo p l.buttons c ((x : ℤ), true)) (fun _ s' => Stepped p c x s s') (fun _ _ => False) s := by
  obtain ⟨old, hold⟩ := h.button h.on
  obtain ⟨new, hnew⟩ := h.button hx
  have hin := h.on.bounds
  unfold moveTo
  simp only [if_true, wp_bind, wp_when, wp_invalidateButton, Lua.wp_modify, Lua.wp_pure, hold, hnew,
    Option.some.injEq, reduceCtorEq, false_imp_iff, and_true]
  constructor
  · rintro - _ rfl _ rfl
    exact ⟨old, new, hold, hnew, by simp⟩
  · intro hout
    omega

/-- `moveTo` where the loop has come to the left end. -/
theorem moveTo_left (h : AtKey p l c s) :
    wp (moveTo p l.buttons c (0, false)) (fun _ s' => HandedBack p c s s') (fun _ _ => False) s := by
  obtain ⟨old, hold⟩ := h.button h.on
  have hin := h.on.bounds
  unfold moveTo sendFocus
  simp only [Bool.false_eq_true, if_false, le_refl, if_true, wp_bind, wp_when, wp_invalidateButton, Lua.wp_modify,
    Lua.wp_pure, Lua.wp_get, wp_emit, focusLost_eq, hold, Option.some.injEq, reduceCtorEq, false_imp_iff, and_true]
  constructor
  · rintro - _ rfl
    exact ⟨old, hold, by simp [focusLost_eq]⟩
  · intro hout
    omega

/-- `moveTo` where the loop has come to the right end. -/
theorem moveTo_right (h : AtKey p l c s) :
    wp (moveTo p l.buttons c ((l.buttons.length : ℤ) + 1, false)) (fun _ s' => s' = s) (fun _ _ => False) s := by
  have hin := h.on.bounds
  unfold moveTo
  rw [if_neg (by simp), if_neg (by show ¬ (l.buttons.length : ℤ) + 1 ≤ 0; omega)]
  exact rfl

/-- The handler of the two events is `moveCursor`. -/
theorem wp_moveCursor {Q : Bool → State → Prop} {E : Error → State → Prop} (h : AtKey p l c s)
    (hQ : wp (moveTo p l.buttons c (walk l.buttons nMove (l.buttons.length + 1) (c + nMove))) Q E s) :
    wp (moveCursor p nMove) Q E s := by
  unfold moveCursor
  simp only [wp_bind, Lua.wp_get, h.layout, h.cursor, Lua.orRaise_some, Lua.wp_pure]
  exact hQ

theorem onMove_returns {P : State → Prop} (h : AtKey p l c s)
    (hP : wp (moveTo p l.buttons c (walk l.buttons nMove (l.buttons.length + 1) (c + nMove))) (fun _ => P)
      (fun _ _ => False) s) :
    ∃ s', Lua.run (do onMove p nMove; pure 1 : Prog ℕ) s = (.ok 1, s') ∧ P s' := by
  have hwp : wp (do onMove p nMove; pure 1 : Prog ℕ) (fun r s' => r = 1 ∧ P s') (fun _ _ => False) s := by
    unfold onMove
    simp only [wp_bind, Lua.wp_get, wp_when, h.cursor, Option.isSome_some, Lua.wp_pure, true_and, not_true,
      false_imp_iff, and_true, forall_const]
    exact wp_moveCursor h hP
  obtain ⟨r, s', hrun, rfl, hs'⟩ := Lua.returns_of_wp hwp
  exact ⟨s', hrun, hs'⟩

variable {param1 param2 : Param}

/-- **One press to the right**: to the next enabled button, or nothing at all. -/
theorem press_right (param1 param2 : Param) (h : AtKey p l c s) :
    ∃ s', Lua.run (onMessage p .HK_MAIN_POS param1 param2) s = (.ok 1, s') ∧
      ((∃ x, Tour.IsNext (KeyOn l.buttons) c x ∧ Stepped p c x s s') ∨
        (∀ x, c < x → ¬ KeyOn l.buttons x) ∧ s' = s) := by
  have hin := h.on.bounds
  have hwalk : Walks l.buttons 1 (c + 1) (walk l.buttons 1 (l.buttons.length + 1) (c + 1)) :=
    walks_walk (.inl ⟨rfl, by omega⟩)
  apply onMove_returns h
  rcases hwalk.right (by omega) (by omega) with ⟨x, hr, hon, hcx, hbetween⟩ | ⟨hr, hnone⟩
  · rw [hr]
    have hnext : Tour.IsNext (KeyOn l.buttons) c x :=
      ⟨by omega, hon, fun y h₁ h₂ => hbetween y (by omega) h₂⟩
    exact wp_mono (moveTo_found h hon) (fun _ s' hs' => .inl ⟨x, hnext, hs'⟩) fun _ _ hfalse => hfalse
  · rw [hr]
    have hlast : ∀ x, c < x → ¬ KeyOn l.buttons x := fun x hx => hnone x (by omega)
    exact wp_mono (moveTo_right h) (fun _ s' hs' => .inr ⟨hlast, hs'⟩) fun _ _ hfalse => hfalse

/-- **One press to the left**: to the previous enabled button, or back to the button container. -/
theorem press_left (param1 param2 : Param) (h : AtKey p l c s) :
    ∃ s', Lua.run (onMessage p .HK_MAIN_NEG param1 param2) s = (.ok 1, s') ∧
      ((∃ x, Tour.IsPrev (KeyOn l.buttons) c x ∧ Stepped p c x s s') ∨
        (∀ x, x < c → ¬ KeyOn l.buttons x) ∧ HandedBack p c s s') := by
  have hin := h.on.bounds
  have hwalk : Walks l.buttons (-1) (c + -1) (walk l.buttons (-1) (l.buttons.length + 1) (c + -1)) :=
    walks_walk (.inr ⟨rfl, by omega⟩)
  apply onMove_returns h
  rcases hwalk.left (by omega) (by omega) with ⟨x, hr, hon, hxc, hbetween⟩ | ⟨hr, hnone⟩
  · rw [hr]
    have hprev : Tour.IsPrev (KeyOn l.buttons) c x :=
      ⟨by omega, hon, fun y h₁ h₂ => hbetween y h₁ (by omega)⟩
    exact wp_mono (moveTo_found h hon) (fun _ s' hs' => .inl ⟨x, hprev, hs'⟩) fun _ _ hfalse => hfalse
  · rw [hr]
    have hfirst : ∀ x, x < c → ¬ KeyOn l.buttons x := fun x hx => hnone x (by omega)
    exact wp_mono (moveTo_left h) (fun _ s' hs' => .inr ⟨hfirst, hs'⟩) fun _ _ hfalse => hfalse

/-! ## There and back, and all the way -/

/-- What a press of `HK_MAIN_POS` leaves. -/
def goRight (p : Platform) (param1 param2 : Param) (s : State) : State :=
  (Lua.run (onMessage p .HK_MAIN_POS param1 param2) s).2

/-- What a press of `HK_MAIN_NEG` leaves. -/
def goLeft (p : Platform) (param1 param2 : Param) (s : State) : State :=
  (Lua.run (onMessage p .HK_MAIN_NEG param1 param2) s).2

theorem AtKey.goRight_next (h : AtKey p l c s) (hx : Tour.IsNext (KeyOn l.buttons) c x) :
    Stepped p c x s (goRight p param1 param2 s) := by
  obtain ⟨s', hrun, ⟨y, hy, hs'⟩ | ⟨hlast, -⟩⟩ := press_right param1 param2 h
  · rw [goRight, hrun, hx.unique hy]
    exact hs'
  · exact absurd hx.2.1 (hlast x hx.1)

theorem AtKey.goLeft_prev (h : AtKey p l c s) (hx : Tour.IsPrev (KeyOn l.buttons) c x) :
    Stepped p c x s (goLeft p param1 param2 s) := by
  obtain ⟨s', hrun, ⟨y, hy, hs'⟩ | ⟨hfirst, -⟩⟩ := press_left param1 param2 h
  · rw [goLeft, hrun, hx.unique hy]
    exact hs'
  · exact absurd hx.2.1 (hfirst x hx.1)

/-- A press to the right that moved is undone by one to the left. -/
theorem right_left (h : AtKey p l c s) (hmoved : (goRight p param1 param2 s).nCursor ≠ s.nCursor) :
    { goLeft p param1 param2 (goRight p param1 param2 s) with log := s.log } = s := by
  obtain ⟨s', hrun, ⟨x, hx, hs'⟩ | ⟨-, rfl⟩⟩ := press_right param1 param2 h
  · have hright : goRight p param1 param2 s = s' := by rw [goRight, hrun]
    rw [hright]
    exact hs'.back ((h.stepped hx.2.1 hs').goLeft_prev (hx.back h.on)) h.cursor
  · exact absurd (by rw [goRight, hrun]) hmoved

/-- A press to the left that moved to a button is undone by one to the right. -/
theorem left_right (h : AtKey p l c s) (hmoved : (goLeft p param1 param2 s).nCursor ≠ none) :
    { goRight p param1 param2 (goLeft p param1 param2 s) with log := s.log } = s := by
  obtain ⟨s', hrun, ⟨x, hx, hs'⟩ | ⟨-, hback⟩⟩ := press_left param1 param2 h
  · have hleft : goLeft p param1 param2 s = s' := by rw [goLeft, hrun]
    rw [hleft]
    exact hs'.back ((h.stepped hx.2.1 hs').goRight_next (hx.back h.on)) h.cursor
  · obtain ⟨old, -, rfl⟩ := hback
    exact absurd (by rw [goLeft, hrun]) hmoved

/-- Pressing on from the first enabled button: the cursor is on one enabled button after the other. -/
theorem tour_right (h : AtKey p l c s) (hfirst : ∀ x, x < c → ¬ KeyOn l.buttons x) :
    List.Forall₂ (AtKey p l) (Tour.stops (KeyOn l.buttons) 0 l.buttons.length)
      (List.iterate (goRight p param1 param2) s (Tour.stops (KeyOn l.buttons) 0 l.buttons.length).length) := by
  have hin := h.on.bounds
  have hnext : Tour.IsNext (KeyOn l.buttons) 0 c := ⟨hin.1, h.on, fun y _ hy => hfirst y hy⟩
  rw [Tour.stops_of_next hnext hin.2]
  have hgo : ∀ a x s', AtKey p l a s' → Tour.IsNext (KeyOn l.buttons) a x → x ≤ l.buttons.length →
      AtKey p l x (goRight p param1 param2 s') :=
    fun a x s' hs' hx _ => hs'.stepped hx.2.1 (hs'.goRight_next hx)
  exact List.Forall₂.cons h (Tour.tour hgo h)

theorem cursors_of_atKey {xs : List ℕ} {states : List State} (h : List.Forall₂ (AtKey p l) xs states) :
    states.map State.nCursor = xs.map fun x : ℕ => some (x : ℤ) := by
  induction h with
  | nil => rfl
  | cons hs _ ih => rw [List.map_cons, List.map_cons, ih, hs.cursor]

/-- **The cursor walks the enabled buttons.** From an enabled button a press to the right goes to the next enabled
one, or changes nothing, and a press to the left to the previous one, or back to the button container; the search
ends either way. A press that moved is undone by one to the other side, and presses to the right from the first
enabled button go through all of them, once each and in order. -/
theorem walk_law (param1 param2 : Param) (h : AtKey p l c s) :
    (∀ nMove ∈ [1, -1], Walks l.buttons nMove (c + nMove)
        (walk l.buttons nMove (l.buttons.length + 1) (c + nMove))) ∧
      (∃ s', Lua.run (onMessage p .HK_MAIN_POS param1 param2) s = (.ok 1, s') ∧
        ((∃ x, Tour.IsNext (KeyOn l.buttons) c x ∧ Stepped p c x s s') ∨
          (∀ x, c < x → ¬ KeyOn l.buttons x) ∧ s' = s)) ∧
      (∃ s', Lua.run (onMessage p .HK_MAIN_NEG param1 param2) s = (.ok 1, s') ∧
        ((∃ x, Tour.IsPrev (KeyOn l.buttons) c x ∧ Stepped p c x s s') ∨
          (∀ x, x < c → ¬ KeyOn l.buttons x) ∧ HandedBack p c s s')) ∧
      ((goRight p param1 param2 s).nCursor ≠ s.nCursor →
        { goLeft p param1 param2 (goRight p param1 param2 s) with log := s.log } = s) ∧
      ((goLeft p param1 param2 s).nCursor ≠ none →
        { goRight p param1 param2 (goLeft p param1 param2 s) with log := s.log } = s) ∧
      ((∀ x, x < c → ¬ KeyOn l.buttons x) → ∃ keys : List ℕ, keys.Pairwise (· < ·) ∧
        (∀ x, x ∈ keys ↔ KeyOn l.buttons x) ∧
        (List.iterate (goRight p param1 param2) s keys.length).map State.nCursor =
          keys.map fun x : ℕ => some (x : ℤ)) := by
  have hin := h.on.bounds
  refine ⟨?_, press_right param1 param2 h, press_left param1 param2 h, right_left h, left_right h, fun hfirst => ?_⟩
  · intro nMove hmove
    apply walks_walk
    simp only [List.mem_cons, List.not_mem_nil, or_false] at hmove
    omega
  · refine ⟨Tour.stops (KeyOn l.buttons) 0 l.buttons.length, Tour.stops_sorted _ _ _, ?_,
      cursors_of_atKey (tour_right h hfirst)⟩
    intro x
    rw [Tour.mem_stops]
    constructor
    · rintro ⟨-, -, hon⟩
      exact hon
    · intro hon
      have hx := hon.bounds
      exact ⟨by omega, hx.2, hon⟩

/-- In a run of an enabled speller every cursor is on an enabled button. -/
theorem exists_atKey {props : Props} {es : List Event} {b : ℤ} (hp : WellSized p)
    (h : Run.exec (step p) es (constructor p props) = some s) (hb : s.nCursor = some b) (hon : s.bEnabled = true) :
    ∃ l c, b = (c : ℕ) ∧ AtKey p l c s := by
  obtain ⟨l, hl, -, -, -, hsize, -, -, hcursor⟩ := cursor_law hp h
  obtain ⟨h₁, -, d, hd, hdon⟩ := hcursor b hb
  have hcast : ((b.toNat : ℕ) : ℤ) = b := Int.toNat_of_nonneg (by omega)
  refine ⟨l, b.toNat, hcast.symm, hl, hsize, by rw [hcast, hb], ?_⟩
  rw [keyOn_iff, hcast]
  exact ⟨d, hd, hdon hon⟩

/-- Only the letters 1, 5 and 9 are allowed. -/
def threeKeys : Props := ⟨some "159", some 0, some 1⟩

theorem walk_law_sample : ∃ s l c,
    Run.exec (step numPad) [request 7 true, send .HK_MAIN_POS .nil] (constructor numPad threeKeys) = some s ∧
      AtKey numPad l c s ∧ s.nCursor = some 5 ∧ (goRight numPad .nil .nil s).nCursor = some 9 ∧
      { goLeft numPad .nil .nil (goRight numPad .nil .nil s) with log := s.log } = s := by
  have h : (Run.exec (step numPad) [request 7 true, send .HK_MAIN_POS .nil]
      (constructor numPad threeKeys)).map
        (fun s => (s.nCursor, s.bEnabled, (goRight numPad .nil .nil s).nCursor)) =
          some (some 5, true, some 9) := by
    decide +kernel
  obtain ⟨s, hs, he⟩ := Option.map_eq_some_iff.1 h
  simp only [Prod.mk.injEq] at he
  obtain ⟨l, c, -, hkey⟩ := exists_atKey numPad_wellSized hs he.1 he.2.1
  obtain ⟨-, -, -, hback, -⟩ := walk_law .nil .nil hkey
  exact ⟨s, l, c, hs, hkey, he.1, he.2.2, hback (by rw [he.1, he.2.2]; simp)⟩

end Speller
