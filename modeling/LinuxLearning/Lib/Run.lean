import Mathlib
/-!
# Runs of a partial step function

`step a s = some s'` says that action `a` is possible in `s` and leads to `s'`; `none` says that it
is not possible there (a thread that is blocked, a statement that is not the next one). A run is a
list of actions. Everything a program can do under any scheduler is a run, so a safety property is
a statement about the last state of every run: the states in between are the last states of its
prefixes.

* `exec` — the state a run ends in;
* `Along C` — every action of the run is taken in a state that allows it by `C`;
* `Throughout P` — `P` holds in every state the run passes;
* `invariant`, `throughout`, `progress` — one step gives the whole run;
* `amortized`, `ranked` — how long a run can be;
* `count`, `counted`, `collected` — what the actions of a run add up to, and invariants that keep account of it;
* `simulate` — a step by step refinement gives a refinement of runs.
-/

namespace Run

variable {σ τ ε δ : Type*} (step : ε → σ → Option σ)

/-- The state a run ends in, `none` if one of its actions is not possible. -/
def exec : List ε → σ → Option σ
  | [], s => some s
  | a :: as, s => (step a s).bind (exec as)

/-- `C a s` for every action `a` of the run, `s` the state it is taken in. -/
def Along (C : ε → σ → Prop) : List ε → σ → Prop
  | [], _ => True
  | a :: as, s => C a s ∧ ∀ s', step a s = some s' → Along C as s'

/-- A condition that can be tested can be tested along a run. -/
instance Along.decidable (C : ε → σ → Prop) [∀ a s, Decidable (C a s)] :
    ∀ as s, Decidable (Along step C as s)
  | [], _ => .isTrue trivial
  | a :: as, s => match h : step a s with
    | none => decidable_of_iff (C a s) (by simp [Along, h])
    | some s' =>
      have := Along.decidable C as s'
      decidable_of_iff (C a s ∧ Along step C as s') (by simp [Along, h])

/-- `P` in every state the run passes, the first and the last included. -/
def Throughout (P : σ → Prop) : List ε → σ → Prop
  | [], s => P s
  | a :: as, s => P s ∧ ∀ s', step a s = some s' → Throughout P as s'

/-- What the actions of the run add up to, `c a s` for an action `a` taken in `s`. -/
def count (c : ε → σ → ℕ) : List ε → σ → ℕ
  | [], _ => 0
  | a :: as, s => c a s + match step a s with
    | some s' => count c as s'
    | none => 0

variable {step}

@[simp] theorem exec_nil (s : σ) : exec step [] s = some s := rfl

theorem exec_cons {a : ε} {as : List ε} {s u : σ} :
    exec step (a :: as) s = some u ↔ ∃ s', step a s = some s' ∧ exec step as s' = some u := by
  simp [exec, Option.bind_eq_some_iff]

theorem exec_append (as bs : List ε) (s : σ) :
    exec step (as ++ bs) s = (exec step as s).bind (exec step bs) := by
  induction as generalizing s with
  | nil => simp
  | cons a as ih => simp [exec, ih, Option.bind_assoc]

/-- If every action is possible everywhere, every run is. -/
theorem exec_total (htotal : ∀ a s, ∃ s', step a s = some s') (as : List ε) (s : σ) :
    ∃ u, exec step as s = some u := by
  induction as generalizing s with
  | nil => exact ⟨s, rfl⟩
  | cons a as ih =>
    obtain ⟨s', hs⟩ := htotal a s
    obtain ⟨u, hu⟩ := ih s'
    exact ⟨u, exec_cons.2 ⟨s', hs, hu⟩⟩

theorem throughout_head {P : σ → Prop} {as : List ε} {s : σ} (h : Throughout step P as s) : P s := by
  cases as with
  | nil => exact h
  | cons a as => exact h.1

theorem throughout_last {P : σ → Prop} : ∀ {as : List ε} {s u : σ},
    Throughout step P as s → exec step as s = some u → P u
  | [], s, u, hP, h => by
    simp only [exec_nil, Option.some.injEq] at h
    exact h ▸ hP
  | a :: as, s, u, hP, h => by
    obtain ⟨s', hs, hu⟩ := exec_cons.1 h
    exact throughout_last (hP.2 s' hs) hu

theorem along_mono {C D : ε → σ → Prop} (hCD : ∀ a s, C a s → D a s) :
    ∀ {as : List ε} {s : σ}, Along step C as s → Along step D as s
  | [], _, _ => trivial
  | _ :: _, _, h => ⟨hCD _ _ h.1, fun s' hs => along_mono hCD (h.2 s' hs)⟩

theorem along_and {C D : ε → σ → Prop} : ∀ {as : List ε} {s : σ},
    Along step C as s → Along step D as s → Along step (fun a s => C a s ∧ D a s) as s
  | [], _, _, _ => trivial
  | _ :: _, _, h, h' => ⟨⟨h.1, h'.1⟩, fun s' hs => along_and (h.2 s' hs) (h'.2 s' hs)⟩

/-- A condition that the actions of the run meet in every state. -/
theorem along_of_mem {C : ε → σ → Prop} :
    ∀ {as : List ε}, (∀ a ∈ as, ∀ s, C a s) → ∀ s : σ, Along step C as s
  | [], _, _ => trivial
  | a :: _, hC, s =>
    ⟨hC a List.mem_cons_self s, fun s' _ => along_of_mem (fun b hb => hC b (List.mem_cons_of_mem a hb)) s'⟩

theorem along_of_forall {C : ε → σ → Prop} (hC : ∀ a s, C a s) (as : List ε) (s : σ) :
    Along step C as s :=
  along_of_mem (fun a _ => hC a) s

/-- **Invariants.** What every allowed step keeps, every run of allowed steps keeps. -/
theorem invariant {C : ε → σ → Prop} {I : σ → Prop}
    (hstep : ∀ a s s', C a s → I s → step a s = some s' → I s') :
    ∀ {as : List ε} {s u : σ}, Along step C as s → I s → exec step as s = some u → I u
  | [], s, u, _, hI, h => by
    simp only [exec_nil, Option.some.injEq] at h
    exact h ▸ hI
  | a :: as, s, u, hC, hI, h => by
    obtain ⟨s', hs, hu⟩ := exec_cons.1 h
    exact invariant hstep (hC.2 s' hs) (hstep a s s' hC.1 hI hs) hu

/-- The same for a step function all of whose steps keep `I`. -/
theorem invariant' {I : σ → Prop} (hstep : ∀ a s s', I s → step a s = some s' → I s')
    {as : List ε} {s u : σ} (hI : I s) (h : exec step as s = some u) : I u :=
  invariant (C := fun _ _ => True) (fun a s s' _ => hstep a s s') (along_of_forall (by simp) as s) hI h

/-- **Progress.** If every allowed step is possible and keeps `I`, a run of allowed steps comes to its end, in `I`. -/
theorem progress {C : ε → σ → Prop} {I : σ → Prop}
    (hstep : ∀ a s, C a s → I s → ∃ s', step a s = some s' ∧ I s') :
    ∀ {as : List ε} {s : σ}, Along step C as s → I s → ∃ u, exec step as s = some u ∧ I u
  | [], s, _, hI => ⟨s, rfl, hI⟩
  | a :: as, s, hC, hI => by
    obtain ⟨s', hs, hI'⟩ := hstep a s hC.1 hI
    obtain ⟨u, hu, hIu⟩ := progress hstep (hC.2 s' hs) hI'
    exact ⟨u, exec_cons.2 ⟨s', hs, hu⟩, hIu⟩

/-- **The potential method.** Every step costs one unit of the potential `V`; what comes in is what an action brings
and what `W` grows by. -/
theorem amortized {I : σ → Prop} {V W : σ → ℕ} {g : ε → ℕ}
    (hstep : ∀ a s s', I s → step a s = some s' → I s' ∧ V s' + W s + 1 ≤ V s + W s' + g a) :
    ∀ {as : List ε} {s u : σ}, I s → exec step as s = some u →
      as.length + V u + W s ≤ V s + W u + (as.map g).sum
  | [], s, u, _, h => by
    simp only [exec_nil, Option.some.injEq] at h
    subst h
    simp
  | a :: as, s, u, hI, h => by
    obtain ⟨s', hs, hu⟩ := exec_cons.1 h
    obtain ⟨hI', hcost⟩ := hstep a s s' hI hs
    have htail := amortized hstep hI' hu
    simp only [List.length_cons, List.map_cons, List.sum_cons]
    omega

/-- A rank that every step lowers bounds the run. -/
theorem ranked {I : σ → Prop} {V : σ → ℕ} (hstep : ∀ a s s', I s → step a s = some s' → I s' ∧ V s' < V s)
    {as : List ε} {s u : σ} (hI : I s) (h : exec step as s = some u) : as.length + V u ≤ V s := by
  have hcost := amortized (V := V) (W := fun _ => 0) (g := fun _ => 0) hstep hI h
  simpa using hcost

/-- **Counting invariants.** If every step moves the count of the invariant by what it adds, the whole
run moves it by what it adds up to. -/
theorem counted {c : ε → σ → ℕ} {I : ℕ → σ → Prop}
    (hstep : ∀ a s s' n, I n s → step a s = some s' → I (n + c a s) s') :
    ∀ {as : List ε} {s u : σ} {n : ℕ}, I n s → exec step as s = some u → I (n + count step c as s) u
  | [], s, u, n, hI, h => by
    simp only [exec_nil, Option.some.injEq] at h
    exact h ▸ hI
  | a :: as, s, u, n, hI, h => by
    obtain ⟨s', hs, hu⟩ := exec_cons.1 h
    have htail := counted hstep (hstep a s s' n hI hs) hu
    unfold count
    rw [hs, ← Nat.add_assoc]
    exact htail

/-- **Collecting invariants.** The same with a list that every action adds to. -/
theorem collected {β : Type*} {f : ε → List β} {C : ε → Prop} {I : List β → σ → Prop}
    (hstep : ∀ a s s' l, C a → I l s → step a s = some s' → I (l ++ f a) s') :
    ∀ {as : List ε} {s u : σ} {l : List β}, (∀ a ∈ as, C a) → I l s → exec step as s = some u →
      I (l ++ as.flatMap f) u
  | [], s, u, l, _, hI, h => by
    simp only [exec_nil, Option.some.injEq] at h
    simpa using h ▸ hI
  | a :: as, s, u, l, hC, hI, h => by
    obtain ⟨s', hs, hu⟩ := exec_cons.1 h
    have htail := collected hstep (fun b hb => hC b (List.mem_cons_of_mem a hb))
      (hstep a s s' l (hC a List.mem_cons_self) hI hs) hu
    rw [List.flatMap_cons, ← List.append_assoc]
    exact htail

/-- An invariant of the allowed steps holds in every state of the run, and so does what it implies. -/
theorem throughout {C : ε → σ → Prop} {I P : σ → Prop}
    (hstep : ∀ a s s', C a s → I s → step a s = some s' → I s') (hP : ∀ s, I s → P s) :
    ∀ {as : List ε} {s : σ}, Along step C as s → I s → Throughout step P as s
  | [], _, _, hI => hP _ hI
  | a :: _, s, hC, hI =>
    ⟨hP _ hI, fun s' hs => throughout hstep hP (hC.2 s' hs) (hstep a s s' hC.1 hI hs)⟩

/-- A condition on steps that follows from an invariant holds along the whole run. -/
theorem along_of_invariant {C D : ε → σ → Prop} {I : σ → Prop}
    (hstep : ∀ a s s', C a s → I s → step a s = some s' → I s')
    (hD : ∀ a s, C a s → I s → D a s) :
    ∀ {as : List ε} {s : σ}, Along step C as s → I s → Along step D as s
  | [], _, _, _ => trivial
  | a :: _, s, hC, hI =>
    ⟨hD a s hC.1 hI, fun s' hs => along_of_invariant hstep hD (hC.2 s' hs) (hstep a s s' hC.1 hI hs)⟩

/-- A condition on steps that follows from an invariant, from another condition and from what holds
after the step. -/
theorem along_of_throughout {C D E : ε → σ → Prop} {I P : σ → Prop}
    (hstep : ∀ a s s', C a s → I s → step a s = some s' → I s')
    (hE : ∀ a s, I s → D a s → (∀ s', step a s = some s' → P s') → E a s) :
    ∀ {as : List ε} {s : σ}, Along step C as s → I s → Throughout step P as s → Along step D as s →
      Along step E as s
  | [], _, _, _, _, _ => trivial
  | a :: _, s, hC, hI, hP, hD =>
    ⟨hE a s hI hD.1 fun s' hs => throughout_head (hP.2 s' hs), fun s' hs =>
      along_of_throughout hstep hE (hC.2 s' hs) (hstep a s s' hC.1 hI hs) (hP.2 s' hs) (hD.2 s' hs)⟩

/-- Two conditions that are the same in every state the run can be in hold along the same runs; the invariant
has to survive the steps that meet the second one. -/
theorem along_iff {C D : ε → σ → Prop} {I : σ → Prop}
    (hstep : ∀ a s s', D a s → I s → step a s = some s' → I s') (hiff : ∀ a s, I s → (C a s ↔ D a s))
    {as : List ε} {s : σ} (hI : I s) : Along step C as s ↔ Along step D as s := by
  induction as generalizing s with
  | nil => exact Iff.rfl
  | cons a as ih =>
    unfold Along
    rw [hiff a s hI]
    constructor
    · rintro ⟨hD, htail⟩
      exact ⟨hD, fun s' hs => (ih (hstep a s s' hD hI hs)).1 (htail s' hs)⟩
    · rintro ⟨hD, htail⟩
      exact ⟨hD, fun s' hs => (ih (hstep a s s' hD hI hs)).2 (htail s' hs)⟩

/-- **An exact condition.** If a step from a state in `P` leads to `P` exactly when it meets `C`, then a
run from `P` stays in `P` exactly when all its steps meet `C`. -/
theorem throughout_iff_along {C : ε → σ → Prop} {I P : σ → Prop}
    (hfree : ∀ a s, I s → step a s = none → C a s)
    (hstep : ∀ a s s', I s → step a s = some s' → I s')
    (hiff : ∀ a s s', I s → P s → step a s = some s' → (P s' ↔ C a s))
    {as : List ε} {s : σ} (hI : I s) (hP : P s) : Throughout step P as s ↔ Along step C as s := by
  induction as generalizing s with
  | nil => exact ⟨fun _ => trivial, fun _ => hP⟩
  | cons a as ih =>
    unfold Throughout Along
    cases hs : step a s with
    | none => simp [hP, hfree a s hI hs]
    | some s' =>
      have hI' := hstep a s s' hI hs
      have hPC := hiff a s s' hI hP hs
      simp only [Option.some.injEq, forall_eq']
      constructor
      · rintro ⟨-, htail⟩
        have hP' := throughout_head htail
        exact ⟨hPC.1 hP', (ih hI' hP').1 htail⟩
      · rintro ⟨hC, htail⟩
        have hP' := hPC.2 hC
        exact ⟨hP, (ih hI' hP').2 htail⟩

/-- Where every step is possible, nothing is to be said about the others. -/
theorem free_of_total {C : ε → σ → Prop} {I : σ → Prop} (htotal : ∀ a s, ∃ s', step a s = some s') (a : ε)
    (s : σ) (_ : I s) (h : step a s = none) : C a s := by
  obtain ⟨s', hs⟩ := htotal a s
  rw [h] at hs
  cases hs

/-- **Simulation.** If every step of the concrete system, seen through `R`, is a step of the
abstract one or no step at all, then every concrete run is matched by an abstract run. -/
theorem simulate {step' : δ → τ → Option τ} {R : σ → τ → Prop}
    (hstep : ∀ a s s' t, R s t → step a s = some s' →
      R s' t ∨ ∃ b t', step' b t = some t' ∧ R s' t') :
    ∀ {as : List ε} {s u : σ} {t : τ}, R s t → exec step as s = some u →
      ∃ bs t', exec step' bs t = some t' ∧ R u t'
  | [], s, u, t, hR, h => by
    simp only [exec_nil, Option.some.injEq] at h
    exact ⟨[], t, rfl, h ▸ hR⟩
  | a :: as, s, u, t, hR, h => by
    obtain ⟨s', hs, hu⟩ := exec_cons.1 h
    rcases hstep a s s' t hR hs with hR' | ⟨b, t', hb, hR'⟩
    · exact simulate hstep hR' hu
    · obtain ⟨bs, t'', hbs, hR''⟩ := simulate hstep hR' hu
      exact ⟨b :: bs, t'', exec_cons.2 ⟨t', hb, hbs⟩, hR''⟩

end Run
