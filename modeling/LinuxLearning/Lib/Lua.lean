import LinuxLearning.Lib.Run
/-!
# Functions of a Lua object

A method of a Lua object reads and writes the fields of `self`, calls the functions of its host, and
returns or raises an error. An error ends the call, but what the method has written before stays
written: the state is under the error, not beside it (`ExceptT` over `StateM`).

* `run` — the outcome of a call and the state it leaves;
* `wp x Q E` — the states from which `x` returns in `Q` or raises in `E`; one rule for each construct;
* `loop` — `for … do … end` with `return` and `break`, and the rule of its invariant;
* `Keeps f x` — `x` leaves what `f` sees of the state as it is, whatever its outcome;
* `Avoids e x` — `x` never raises `e`;
* `index` — `t[i]` of an array, counted from 1, `none` for `nil`.
-/

/-- A method on the object state `σ` that may raise `ε`. -/
abbrev Lua (ε σ : Type) := ExceptT ε (StateM σ)

namespace Lua

variable {ε σ α β γ : Type}

/-- The outcome of a call and the state it leaves. -/
def run (x : Lua ε σ α) (s : σ) : Except ε α × σ := (ExceptT.run x).run s

@[simp] theorem run_pure (a : α) (s : σ) : run (pure a : Lua ε σ α) s = (.ok a, s) := rfl

theorem run_bind (x : Lua ε σ α) (f : α → Lua ε σ β) (s : σ) :
    run (x >>= f) s = match run x s with
      | (.ok a, s') => run (f a) s'
      | (.error e, s') => (.error e, s') := by
  show ExceptT.bindCont f (run x s).1 (run x s).2 = _
  rcases run x s with ⟨a | a, s'⟩ <;> rfl

/-- Indexing, calling or computing with `nil` raises. -/
def orRaise (e : ε) : Option α → Lua ε σ α
  | some a => pure a
  | none => throw e

@[simp] theorem orRaise_some (e : ε) (a : α) : (orRaise e (some a) : Lua ε σ α) = pure a := rfl

@[simp] theorem orRaise_none (e : ε) : (orRaise e none : Lua ε σ α) = throw e := rfl

/-- `if c then x end`. -/
def when (c : Prop) [Decidable c] (x : Lua ε σ Unit) : Lua ε σ Unit := if c then x else pure ()

/-! ## Weakest preconditions -/

/-- `x` started in `s` returns a value in `Q` or raises an error in `E`. -/
def wp (x : Lua ε σ α) (Q : α → σ → Prop) (E : ε → σ → Prop) (s : σ) : Prop :=
  match run x s with
  | (.ok a, s') => Q a s'
  | (.error e, s') => E e s'

variable {x : Lua ε σ α} {f : α → Lua ε σ β} {Q Q' : α → σ → Prop} {R : β → σ → Prop}
  {E E' : ε → σ → Prop} {s : σ}

@[simp] theorem wp_pure {a : α} : wp (pure a) Q E s ↔ Q a s := Iff.rfl

@[simp] theorem wp_bind : wp (x >>= f) R E s ↔ wp x (fun a s' => wp (f a) R E s') E s := by
  unfold wp
  rw [run_bind]
  rcases run x s with ⟨a | a, s'⟩ <;> rfl

@[simp] theorem wp_get {Q : σ → σ → Prop} : wp (get : Lua ε σ σ) Q E s ↔ Q s s := Iff.rfl

@[simp] theorem wp_modify {g : σ → σ} {Q : PUnit → σ → Prop} :
    wp (modify g : Lua ε σ PUnit) Q E s ↔ Q ⟨⟩ (g s) := Iff.rfl

@[simp] theorem wp_throw {e : ε} : wp (throw e : Lua ε σ α) Q E s ↔ E e s := Iff.rfl

@[simp] theorem wp_orRaise {e : ε} {o : Option α} :
    wp (orRaise e o) Q E s ↔ (∀ a, o = some a → Q a s) ∧ (o = none → E e s) := by
  cases o with
  | none => simp [orRaise]
  | some a => simp [orRaise]

theorem wp_ite {c : Prop} [Decidable c] {y : Lua ε σ α} :
    wp (if c then x else y) Q E s ↔ (c → wp x Q E s) ∧ (¬ c → wp y Q E s) := by
  by_cases h : c <;> simp [h]

theorem wp_when {c : Prop} [Decidable c] {x : Lua ε σ Unit} {Q : Unit → σ → Prop} :
    wp (when c x) Q E s ↔ (c → wp x Q E s) ∧ (¬ c → Q () s) := wp_ite

/-- Consequence. -/
theorem wp_mono (h : wp x Q E s) (hQ : ∀ a s', Q a s' → Q' a s') (hE : ∀ e s', E e s' → E' e s') :
    wp x Q' E' s := by
  unfold wp at h ⊢
  generalize run x s = o at *
  rcases o with ⟨a | a, s'⟩
  · exact hE _ _ h
  · exact hQ _ _ h

theorem wp_and (h : wp x Q E s) (h' : wp x Q' E' s) :
    wp x (fun a s' => Q a s' ∧ Q' a s') (fun e s' => E e s' ∧ E' e s') s := by
  unfold wp at h h' ⊢
  generalize run x s = o at *
  rcases o with ⟨a | a, s'⟩
  · exact ⟨h, h'⟩
  · exact ⟨h, h'⟩

/-- What holds after every outcome holds of the state the call leaves. -/
theorem state_of_wp {P : σ → Prop} (h : wp x (fun _ => P) (fun _ => P) s) : P (run x s).2 := by
  unfold wp at h
  generalize run x s = o at *
  rcases o with ⟨a | a, s'⟩
  · exact h
  · exact h

theorem wp_of_state {P : σ → Prop} (h : P (run x s).2) : wp x (fun _ => P) (fun _ => P) s := by
  unfold wp
  generalize run x s = o at *
  rcases o with ⟨a | a, s'⟩
  · exact h
  · exact h

/-- What holds after a return holds when the call has returned. -/
theorem returned_of_wp {a : α} (h : wp x Q E s) (hr : (run x s).1 = .ok a) : Q a (run x s).2 := by
  unfold wp at h
  generalize run x s = o at *
  rcases o with ⟨b | b, s'⟩
  · cases hr
  · cases hr
    exact h

/-- A call that cannot raise returns. -/
theorem returns_of_wp (h : wp x Q (fun _ _ => False) s) :
    ∃ a s', run x s = (.ok a, s') ∧ Q a s' := by
  unfold wp at h
  generalize run x s = o at *
  rcases o with ⟨a | a, s'⟩
  · exact h.elim
  · exact ⟨a, s', rfl, h⟩

/-- A call that can only raise `e` raises it. -/
theorem raises_of_wp {e : ε} (h : wp x (fun _ _ => False) (fun e' _ => e' = e) s) :
    (run x s).1 = .error e := by
  unfold wp at h
  generalize run x s = o at *
  rcases o with ⟨a | a, s'⟩
  · exact congrArg Except.error h
  · exact h.elim

theorem not_raises_of_wp {e : ε} (h : wp x (fun _ _ => True) (fun e' _ => e' ≠ e) s) :
    (run x s).1 ≠ .error e := by
  intro herr
  unfold wp at h
  generalize run x s = o at *
  rcases o with ⟨a | a, s'⟩
  · exact h (Except.error.inj herr)
  · simp at herr

/-! ## Loops -/

/-- `for x in xs do body end`. The body gives `none` to go on, `some r` to leave the loop with `r`
(`return`, `break`); a loop that runs to its end gives `none`. -/
def loop (body : α → Lua ε σ (Option β)) : List α → Lua ε σ (Option β)
  | [] => pure none
  | x :: xs => do
    match ← body x with
    | some r => pure (some r)
    | none => loop body xs

/-- **The rule of the loop.** `I done` holds when the entries `done` have been gone through. -/
theorem wp_loop {body : α → Lua ε σ (Option β)} {Q : Option β → σ → Prop} (I : List α → σ → Prop)
    {all : List α} (hend : ∀ s, I all s → Q none s)
    (hstep : ∀ done x rest s, all = done ++ x :: rest → I done s →
      wp (body x) (fun r s' => (r = none → I (done ++ [x]) s') ∧ ∀ b, r = some b → Q (some b) s') E s) :
    ∀ {done todo : List α} {s : σ}, all = done ++ todo → I done s → wp (loop body todo) Q E s := by
  intro done todo
  induction todo generalizing done with
  | nil =>
    intro s hall hI
    rw [List.append_nil] at hall
    exact hend s (hall ▸ hI)
  | cons x xs ih =>
    intro s hall hI
    unfold loop
    rw [wp_bind]
    apply wp_mono (hstep done x xs s hall hI) _ (fun _ _ h => h)
    intro r s' ⟨hnone, hsome⟩
    cases r with
    | none => exact ih (by simp [hall]) (hnone rfl)
    | some b => exact hsome b rfl

/-- The rule for an invariant that does not look at the progress. -/
theorem wp_loop_inv {body : α → Lua ε σ (Option β)} {Q : Option β → σ → Prop} (I : σ → Prop)
    {xs : List α} (hI : I s) (hend : ∀ s, I s → Q none s)
    (hstep : ∀ x ∈ xs, ∀ s, I s →
      wp (body x) (fun r s' => (r = none → I s') ∧ ∀ b, r = some b → Q (some b) s') E s) :
    wp (loop body xs) Q E s := by
  apply wp_loop (fun _ => I) hend _ (List.nil_append xs).symm hI
  intro done x rest s hxs
  apply hstep
  rw [hxs]
  exact List.mem_append_right done List.mem_cons_self

/-! ## Frames -/

section Keeps

variable {τ υ : Type} {g : σ → τ} {x : Lua ε σ α} {f : α → Lua ε σ β}

/-- What `g` sees of the state is the same after `x`, whether it returns or raises. -/
def Keeps (g : σ → τ) (x : Lua ε σ α) : Prop := ∀ s, g (run x s).2 = g s

theorem keeps_pure (a : α) : Keeps g (pure a : Lua ε σ α) := fun _ => rfl

theorem keeps_get : Keeps g (get : Lua ε σ σ) := fun _ => rfl

theorem keeps_modify {h : σ → σ} (hg : ∀ s, g (h s) = g s) : Keeps g (modify h : Lua ε σ PUnit) := hg

theorem keeps_orRaise (e : ε) (o : Option α) : Keeps g (orRaise e o : Lua ε σ α) := by
  cases o with
  | none => exact fun _ => rfl
  | some a => exact fun _ => rfl

theorem keeps_bind (hx : Keeps g x) (hf : ∀ a, Keeps g (f a)) : Keeps g (x >>= f) := by
  intro s
  have hs := hx s
  rw [run_bind]
  generalize run x s = o at *
  rcases o with ⟨a | a, s'⟩
  · exact hs
  · exact (hf a s').trans hs

theorem keeps_get_bind {f : σ → Lua ε σ β} (hf : ∀ s, Keeps g (f s)) : Keeps g (get >>= f) :=
  keeps_bind keeps_get hf

theorem keeps_ite {c : Prop} [Decidable c] {y : Lua ε σ α} (hx : Keeps g x) (hy : Keeps g y) :
    Keeps g (if c then x else y) := by
  by_cases h : c
  · rw [if_pos h]
    exact hx
  · rw [if_neg h]
    exact hy

theorem keeps_when {c : Prop} [Decidable c] {x : Lua ε σ Unit} (hx : Keeps g x) : Keeps g (when c x) :=
  keeps_ite hx (keeps_pure ())

theorem keeps_loop {body : α → Lua ε σ (Option β)} (h : ∀ x, Keeps g (body x)) :
    ∀ xs, Keeps g (loop body xs)
  | [] => keeps_pure none
  | x :: xs => by
    unfold loop
    apply keeps_bind (h x)
    intro r
    cases r with
    | none => exact keeps_loop h xs
    | some b => exact keeps_pure (some b)

/-- Who sees less sees no change either. -/
theorem Keeps.comp (h : Keeps g x) (k : τ → υ) : Keeps (fun s => k (g s)) x := fun s => congrArg k (h s)

theorem wp_of_keeps (h : Keeps g x) (s : σ) : wp x (fun _ s' => g s' = g s) (fun _ s' => g s' = g s) s :=
  wp_of_state (P := fun s' => g s' = g s) (h s)

theorem keeps_of_wp (h : ∀ s, wp x (fun _ s' => g s' = g s) (fun _ s' => g s' = g s) s) : Keeps g x :=
  fun s => state_of_wp (P := fun s' => g s' = g s) (h s)

end Keeps

/-! ## Errors that are not raised -/

section Avoids

variable {e : ε} {x : Lua ε σ α} {f : α → Lua ε σ β}

/-- No call of `x` raises `e`. -/
def Avoids (e : ε) (x : Lua ε σ α) : Prop := ∀ s, wp x (fun _ _ => True) (fun e' _ => e' ≠ e) s

theorem avoids_pure (a : α) : Avoids e (pure a : Lua ε σ α) := fun _ => trivial

theorem avoids_modify (g : σ → σ) : Avoids e (modify g : Lua ε σ PUnit) := fun _ => trivial

theorem avoids_orRaise {e' : ε} (h : e' ≠ e) (o : Option α) : Avoids e (orRaise e' o : Lua ε σ α) := by
  intro s
  rw [wp_orRaise]
  exact ⟨fun _ _ => trivial, fun _ => h⟩

theorem avoids_bind (hx : Avoids e x) (hf : ∀ a, Avoids e (f a)) : Avoids e (x >>= f) := by
  intro s
  rw [wp_bind]
  exact wp_mono (hx s) (fun a s' _ => hf a s') (fun _ _ h => h)

theorem avoids_get_bind {f : σ → Lua ε σ β} (hf : ∀ s, Avoids e (f s)) : Avoids e (get >>= f) :=
  fun s => hf s s

theorem avoids_ite {c : Prop} [Decidable c] {y : Lua ε σ α} (hx : Avoids e x) (hy : Avoids e y) :
    Avoids e (if c then x else y) :=
  fun s => wp_ite.2 ⟨fun _ => hx s, fun _ => hy s⟩

theorem avoids_when {c : Prop} [Decidable c] {x : Lua ε σ Unit} (hx : Avoids e x) : Avoids e (when c x) :=
  avoids_ite hx (avoids_pure ())

end Avoids

/-! ## Arrays -/

/-- `t[i]`: the array counts from 1, and an index outside it gives `nil`. -/
def index (t : List α) (i : Int) : Option α := if 0 < i then t[(i - 1).toNat]? else none

theorem index_eq_some {t : List α} {i : Int} {a : α} :
    index t i = some a ↔ 0 < i ∧ t[(i - 1).toNat]? = some a := by
  unfold index
  by_cases h : 0 < i <;> simp [h]

theorem index_eq_none {t : List α} {i : Int} : index t i = none ↔ i ≤ 0 ∨ t.length < i := by
  unfold index
  by_cases h : 0 < i
  · rw [if_pos h, List.getElem?_eq_none_iff]
    omega
  · rw [if_neg h]
    simp only [true_iff]
    omega

theorem index_isSome {t : List α} {i : Int} : (index t i).isSome ↔ 0 < i ∧ i ≤ t.length := by
  rw [Option.isSome_iff_ne_none, ne_eq, index_eq_none]
  omega

theorem exists_index {t : List α} {i : Int} (h₀ : 0 < i) (h : i ≤ t.length) : ∃ a, index t i = some a :=
  Option.isSome_iff_exists.1 (index_isSome.2 ⟨h₀, h⟩)

theorem bounds_of_index {t : List α} {i : Int} {a : α} (h : index t i = some a) :
    0 < i ∧ i ≤ t.length :=
  index_isSome.1 (by rw [h]; rfl)

theorem mem_of_index {t : List α} {i : Int} {a : α} (h : index t i = some a) : a ∈ t :=
  List.mem_of_getElem? (index_eq_some.1 h).2

theorem index_of_mem {t : List α} {a : α} (h : a ∈ t) : ∃ i, index t i = some a := by
  obtain ⟨n, hn⟩ := List.mem_iff_getElem?.1 h
  exact ⟨n + 1, index_eq_some.2 ⟨by omega, by simpa using hn⟩⟩

theorem index_map (g : α → β) (t : List α) (i : Int) : index (t.map g) i = (index t i).map g := by
  unfold index
  by_cases h : 0 < i <;> simp [h]

/-- `ipairs(t)`: the entries with their indices. -/
def ipairs (t : List α) : List (Int × α) := (t.zipIdx 1).map fun p => ((p.2 : Int), p.1)

theorem mem_ipairs {t : List α} {i : Int} {a : α} : (i, a) ∈ ipairs t ↔ index t i = some a := by
  unfold ipairs
  rw [index_eq_some]
  simp only [List.mem_map, Prod.mk.injEq, Prod.exists, List.mk_mem_zipIdx_iff_le_and_getElem?_sub]
  constructor
  · rintro ⟨b, k, ⟨hk, hb⟩, rfl, rfl⟩
    refine ⟨by omega, ?_⟩
    rw [show ((k : Int) - 1).toNat = k - 1 from by omega]
    exact hb
  · rintro ⟨hi, ha⟩
    refine ⟨a, i.toNat, ⟨by omega, ?_⟩, by omega, rfl⟩
    rw [show i.toNat - 1 = (i - 1).toNat from by omega]
    exact ha

/-- `for i = 1, n`: the values of `i`. -/
def upTo (n : Nat) : List Int := (List.range n).map fun k : Nat => (k : Int) + 1

end Lua
