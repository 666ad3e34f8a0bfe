import LinuxLearning.Lib.Procs
/-!
# `Assignment/2_2/a2.c`: each child creates the next process

| here | there (`Assignment/2_2/a2.c`) |
| --- | --- |
| `Pc.label`   | `label:` and the `fork` (`:11-12`); in the child `i++` and the test come before the next (`:16-21`) |
| `Pc.waits`   | the `else`, for the parent and when the `fork` has failed (`:23-26`) |
| `Pc.returns` | `return 0` (`:29`) |

The texts are left out. The processes are a line, each the parent of the next; all but the youngest are blocked.

* `line_move` — the line grows and shrinks at its young end only;
* `chain_law` — the processes end in the opposite order of their creation, none of them is left behind, and there are
  six children where the comment (`:1`) has five.
-/

namespace ForkWait.Chain

open Procs

inductive Pc
  | label (i : ℕ)
  | waits (i : ℕ)
  | returns (i : ℕ)
  deriving DecidableEq, Repr

def Pc.i : Pc → ℕ
  | .label i | .waits i | .returns i => i

def Assignment22.a2 : Pc → Act Pc
  | .label i => .fork (if i + 1 ≤ 5 then .label (i + 1) else .returns (i + 1)) (.waits i) (.waits i)
  | .waits i => .wait (.returns i) (.returns i)
  | .returns _ => .exit

variable {max pid c : ℕ} {ps : List ℕ} {t t' : Table Pc} {e : Event} {failure : Prop}

/-- `ps` are the parent of `c`, the parent of that one, and so on; all of them wait. -/
inductive Waits (t : Table Pc) : ℕ → List ℕ → Prop
  | first {c : ℕ} (hparent : (t.proc c).parent = none) : Waits t c []
  | next {c p : ℕ} {ps : List ℕ} (hparent : (t.proc c).parent = some p) (hzombie : (t.proc p).zombie = false)
      (hstate : (t.proc p).state = .waits ps.length) (hrest : Waits t p ps) : Waits t c (p :: ps)

/-- The youngest process, with `i = k`: its state and whether it has ended, by the number of processes so far and by
what `i` was in those that have ended. -/
inductive Youngest (failure : Prop) (births : ℕ) (ended : List ℕ) (k : ℕ) : Pc → Bool → Prop
  | label (hk : k ≤ 5) (hbirths : births = k + 1) (hended : ended = []) : Youngest failure births ended k (.label k) false
  | waits (hbirths : births = k + 1) (hmost : births ≤ 7) (hended : ended = []) (hfailure : failure) :
    Youngest failure births ended k (.waits k) false
  | returns (hbirths : k + 1 ≤ births) (hmost : births ≤ 7) (hall : births = 7 ∨ failure)
      (hended : ended = List.range' (k + 1) (births - (k + 1))) : Youngest failure births ended k (.returns k) false
  | ended (hbirths : k + 1 ≤ births) (hmost : births ≤ 7) (hall : births = 7 ∨ failure)
      (hended : ended = List.range' k (births - k)) : Youngest failure births ended k (.returns k) true

/-- The line; `failure` is whether a `fork` may have failed. -/
inductive Line (failure : Prop) (t : Table Pc) : Prop
  | empty (hprocs : t.procs = ∅) (hmost : t.births ≤ 7) (hall : t.births = 7 ∨ failure)
      (hended : t.ended.map (·.state.i) = List.range t.births) : Line failure t
  | line {c : ℕ} {ps : List ℕ} (hnodup : (c :: ps).Nodup) (hprocs : t.procs = (c :: ps).toFinset) (hwaits : Waits t c ps)
      (hyoungest : Youngest failure t.births (t.ended.map (·.state.i)) ps.length (t.proc c).state (t.proc c).zombie) :
      Line failure t

theorem Waits.congr (h : Waits t c ps) (hc : (t'.proc c).parent = (t.proc c).parent)
    (hps : ∀ q ∈ ps, t'.proc q = t.proc q) : Waits t' c ps := by
  induction h with
  | first hparent => exact .first (hc.trans hparent)
  | @next c p ps hparent hzombie hstate hrest ih =>
    have hp := hps p List.mem_cons_self
    refine .next (hc.trans hparent) (by rwa [hp]) (by rwa [hp]) (ih (by rw [hp]) fun q hq => ?_)
    exact hps q (List.mem_cons_of_mem p hq)

theorem Waits.mem (h : Waits t c ps) : ∀ q ∈ ps, (t.proc q).zombie = false ∧ (∃ k, (t.proc q).state = .waits k) ∧
    ∃ x ∈ c :: ps, (t.proc x).parent = some q := by
  induction h with
  | first hparent => exact fun q hq => absurd hq List.not_mem_nil
  | @next c p ps hparent hzombie hstate hrest ih =>
    intro q hq
    rcases List.mem_cons.1 hq with rfl | hq
    · exact ⟨hzombie, ⟨_, hstate⟩, c, List.mem_cons_self, hparent⟩
    · obtain ⟨hz, hs, x, hx, hpx⟩ := ih q hq
      exact ⟨hz, hs, x, List.mem_cons_of_mem c hx, hpx⟩

theorem Waits.parent (h : Waits t c ps) : ∀ x ∈ c :: ps, ∀ q, (t.proc x).parent = some q → q ∈ ps := by
  induction h with
  | first hparent =>
    intro x hx q hq
    rw [List.mem_singleton.1 hx, hparent] at hq
    cases hq
  | @next c p ps hparent hzombie hstate hrest ih =>
    intro x hx q hq
    rcases List.mem_cons.1 hx with rfl | hx
    · rw [hparent] at hq
      cases hq
      exact List.mem_cons_self
    · exact List.mem_cons_of_mem p (ih x hx q hq)

/-- Who does not wait is the youngest. -/
theorem Waits.youngest (h : Waits t c ps) (hprocs : t.procs = (c :: ps).toFinset) {q : ℕ} (hq : q ∈ t.procs)
    (hfree : (t.proc q).zombie = true ∨ ∀ k, (t.proc q).state ≠ .waits k) : q = c := by
  rw [hprocs, List.mem_toFinset] at hq
  rcases List.mem_cons.1 hq with rfl | hq
  · rfl
  · obtain ⟨hzombie, ⟨k, hk⟩, -⟩ := h.mem q hq
    rcases hfree with hz | hstate
    · rw [hzombie] at hz
      cases hz
    · exact absurd hk (hstate k)

theorem a2_fork {s c p f : Pc} (h : Assignment22.a2 s = .fork c p f) : ∃ i, s = .label i ∧
    c = (if i + 1 ≤ 5 then .label (i + 1) else .returns (i + 1)) ∧ p = .waits i ∧ f = .waits i := by
  cases s with
  | label i =>
    cases h
    exact ⟨i, rfl, rfl, rfl, rfl⟩
  | _ => cases h

theorem a2_wait {s o f : Pc} (h : Assignment22.a2 s = .wait o f) :
    ∃ i, s = .waits i ∧ o = .returns i ∧ f = .returns i := by
  cases s with
  | waits i =>
    cases h
    exact ⟨i, rfl, rfl, rfl⟩
  | _ => cases h

theorem a2_exec {s o f : Pc} (h : Assignment22.a2 s = .exec o f) : False := by
  cases s <;> cases h

theorem a2_exit {s : Pc} (h : Assignment22.a2 s = .exit) : ∃ i, s = .returns i := by
  cases s with
  | returns i => exact ⟨i, rfl⟩
  | _ => cases h

/-! ## Steps -/

/-- The parts of a line. -/
theorem Line.cases (h : Line failure t) (hpid : pid ∈ t.procs) : ∃ c ps, (c :: ps).Nodup ∧
    t.procs = (c :: ps).toFinset ∧ Waits t c ps ∧ Youngest failure t.births (t.ended.map (·.state.i)) ps.length
      (t.proc c).state (t.proc c).zombie := by
  cases h with
  | empty hprocs =>
    rw [hprocs] at hpid
    exact absurd hpid (Finset.notMem_empty pid)
  | line hnodup hprocs hwaits hyoungest => exact ⟨_, _, hnodup, hprocs, hwaits, hyoungest⟩

theorem Line.goto {st : Pc} (h : Line failure t) (hrun : t.running pid) (hgoes : Goes Assignment22.a2 t pid e st)
    (hfailure : ∀ p, e = .fork p none → failure) : Line failure (t.goto pid st) := by
  obtain ⟨c, ps, hnodup, hprocs, hwaits, hyoungest⟩ := h.cases hrun.1
  have hps : ∀ q ∈ ps, q ≠ c := fun q hq => ne_of_mem_of_not_mem hq (List.nodup_cons.1 hnodup).1
  -- it is the youngest that moves
  have hline : pid = c → Youngest failure t.births (t.ended.map (·.state.i)) ps.length st false →
      Line failure (t.goto pid st) := by
    rintro rfl hnew
    refine .line hnodup hprocs (hwaits.congr (by simp [Table.goto]) fun q hq => ?_) ?_
    · simp [Table.goto, hps q hq]
    · simpa [Table.goto, hrun.2] using hnew
  cases hgoes with
  | forkFails hact =>
    obtain ⟨i, hstate, -, -, rfl⟩ := a2_fork hact
    obtain rfl := hwaits.youngest hprocs hrun.1 (.inr (by simp [hstate]))
    rw [hstate, hrun.2] at hyoungest
    cases hyoungest with
    | label hk hbirths hended => exact hline rfl (.waits hbirths (by omega) hended (hfailure _ rfl))
  | waitFails hact hnone =>
    obtain ⟨i, hstate, -, rfl⟩ := a2_wait hact
    by_cases hpid : pid = c
    · subst hpid
      rw [hstate, hrun.2] at hyoungest
      cases hyoungest with
      | waits hbirths hmost hended hfail =>
        refine hline rfl (.returns hbirths.ge hmost (.inr hfail) ?_)
        rw [hended, hbirths, Nat.sub_self]
        rfl
    · -- an older one has a child in the line
      have hmem : pid ∈ ps := by
        have hpid' := hrun.1
        rw [hprocs, List.mem_toFinset] at hpid'
        exact (List.mem_cons.1 hpid').resolve_left hpid
      obtain ⟨-, -, x, hx, hparent⟩ := hwaits.mem pid hmem
      have hchild : x ∈ t.children pid := mem_children.2 ⟨by rw [hprocs]; exact List.mem_toFinset.2 hx, hparent⟩
      rw [hnone] at hchild
      exact absurd hchild (Finset.notMem_empty x)
  | exec hact => exact (a2_exec hact).elim
  | execFails hact => exact (a2_exec hact).elim

theorem Line.fork {child : ℕ} {st parent failed : Pc} (h : Line failure t) (hrun : t.running pid)
    (hact : Assignment22.a2 (t.proc pid).state = .fork st parent failed) (hnew : child ∉ t.procs) :
    Line failure (t.fork pid child st parent) := by
  obtain ⟨c, ps, hnodup, hprocs, hwaits, hyoungest⟩ := h.cases hrun.1
  obtain ⟨i, hstate, rfl, rfl, -⟩ := a2_fork hact
  obtain rfl := hwaits.youngest hprocs hrun.1 (.inr (by simp [hstate]))
  have hne : pid ≠ child := ne_of_mem_of_not_mem hrun.1 hnew
  have hps : ∀ q ∈ ps, q ≠ pid ∧ q ≠ child := by
    intro q hq
    refine ⟨ne_of_mem_of_not_mem hq (List.nodup_cons.1 hnodup).1, ?_⟩
    rintro rfl
    exact hnew (by rw [hprocs]; exact List.mem_toFinset.2 (List.mem_cons_of_mem pid hq))
  rw [hstate, hrun.2] at hyoungest
  cases hyoungest with
  | label hk hbirths hended =>
    refine @Line.line failure _ child (pid :: ps) (List.nodup_cons.2 ⟨?_, hnodup⟩) ?_ (.next ?_ ?_ ?_ ?_) ?_
    · rwa [hprocs, List.mem_toFinset] at hnew
    · show insert child t.procs = _
      rw [hprocs]
      exact List.toFinset_cons.symm
    · rw [fork_child]
    · rw [fork_parent hne]
      exact hrun.2
    · rw [fork_parent hne]
    · exact hwaits.congr (fork_same hne).1 fun q hq => fork_other (hps q hq).1 (hps q hq).2
    · rw [fork_child]
      have hmore : (t.fork pid child (if ps.length + 1 ≤ 5 then Pc.label (ps.length + 1) else Pc.returns (ps.length + 1))
        (.waits ps.length)).births = ps.length + 2 := by
        show t.births + 1 = _
        omega
      rw [hmore]
      show Youngest failure (ps.length + 2) (t.ended.map (·.state.i)) (ps.length + 1) _ false
      split
      · next hle => exact .label hle rfl hended
      · next hgt =>
        refine .returns (Nat.le_refl _) (by omega) (.inl (by omega)) ?_
        rw [hended, Nat.sub_self]
        rfl

theorem Line.wait {child : ℕ} {found failed : Pc} (h : Line failure t)
    (hact : Assignment22.a2 (t.proc pid).state = .wait found failed) (hchild : child ∈ t.children pid)
    (hzombie : (t.proc child).zombie = true) : Line failure (t.wait pid child found) := by
  obtain ⟨hmem, hparent⟩ := mem_children.1 hchild
  obtain ⟨c, ps, hnodup, hprocs, hwaits, hyoungest⟩ := h.cases hmem
  obtain ⟨i, hstate, rfl, -⟩ := a2_wait hact
  obtain rfl := hwaits.youngest hprocs hmem (.inl hzombie)
  cases hwaits with
  | first hfirst =>
    rw [hfirst] at hparent
    cases hparent
  | @next _ p ps hp hz hs hrest =>
    rw [hp] at hparent
    cases hparent
    rw [hs] at hstate
    cases hstate
    obtain ⟨hnew, hnodup⟩ := List.nodup_cons.1 hnodup
    rw [hzombie] at hyoungest
    refine .line hnodup ?_ (hrest.congr (wait_same pid).1 fun q hq => ?_) ?_
    · show t.procs.erase child = _
      rw [hprocs, List.toFinset_cons, Finset.erase_insert (by simpa using hnew)]
    · have hq : q ≠ pid := ne_of_mem_of_not_mem hq (List.nodup_cons.1 hnodup).1
      simp [Table.wait, hq]
    · have hnow : ((t.wait pid child (.returns ps.length)).proc pid).state = .returns ps.length := by
        simp [Table.wait]
      rw [(wait_same pid).2.2.1, hz, hnow]
      generalize (t.proc child).state = last at hyoungest
      cases hyoungest with
      | ended hbirths hmost hall hended =>
        exact .returns (Nat.le_of_lt hbirths) hmost hall hended

theorem Line.exit (h : Line failure t) (hrun : t.running pid) (hact : Assignment22.a2 (t.proc pid).state = .exit) :
    Line failure (t.exit pid) := by
  obtain ⟨c, ps, hnodup, hprocs, hwaits, hyoungest⟩ := h.cases hrun.1
  obtain ⟨i, hstate⟩ := a2_exit hact
  obtain rfl := hwaits.youngest hprocs hrun.1 (.inr (by simp [hstate]))
  -- it has no children
  have hnone : ∀ q ∈ pid :: ps, (t.proc q).parent ≠ some pid := fun q hq hp =>
    (List.nodup_cons.1 hnodup).1 (hwaits.parent q hq pid hp)
  have hsame : ∀ q ∈ ps, (t.exit pid).proc q = t.proc q := by
    intro q hq
    have hne : q ≠ pid := ne_of_mem_of_not_mem hq (List.nodup_cons.1 hnodup).1
    simp [Table.exit, hne, hnone q (List.mem_cons_of_mem pid hq)]
  refine .line hnodup hprocs (hwaits.congr ?_ hsame) ?_
  · rw [exit_parent, if_neg (hnone pid List.mem_cons_self)]
  · rw [(exit_same pid).1, (exit_same pid).2.1, if_pos rfl, hstate]
    rw [hstate, hrun.2] at hyoungest
    cases hyoungest with
    | returns hbirths hmost hall hended =>
      refine .ended hbirths hmost hall ?_
      show (t.proc pid).state.i :: t.ended.map (·.state.i) = List.range' ps.length (t.births - ps.length)
      have hcount : t.births - ps.length = t.births - (ps.length + 1) + 1 := by
        omega
      rw [hended, hstate, hcount, List.range'_succ]
      rfl

theorem Line.reap (h : Line failure t) (hpid : pid ∈ t.procs) (hzombie : (t.proc pid).zombie = true)
    (hparent : (t.proc pid).parent = none) : Line failure (t.reap pid) := by
  obtain ⟨c, ps, hnodup, hprocs, hwaits, hyoungest⟩ := h.cases hpid
  obtain rfl := hwaits.youngest hprocs hpid (.inl hzombie)
  cases hwaits with
  | first =>
    rw [hzombie] at hyoungest
    generalize (t.proc pid).state = last at hyoungest
    cases hyoungest with
    | ended hbirths hmost hall hended =>
      refine .empty ?_ hmost hall ?_
      · show t.procs.erase pid = ∅
        rw [hprocs]
        simp
      · rw [List.range_eq_range']
        exact hended
  | next hp =>
    rw [hparent] at hp
    cases hp

/-- **The line.** -/
theorem line_move (h : Line failure t) (hfailure : ∀ p, e = .fork p none → failure)
    (hmove : Move Assignment22.a2 max t e t') : Line failure t' := by
  cases hmove with
  | goto hrun hgoes => exact h.goto hrun hgoes hfailure
  | fork hrun hact hnew hroom => exact h.fork hrun hact hnew
  | wait hrun hact hchild hzombie => exact h.wait hact hchild hzombie
  | exit hrun hact => exact h.exit hrun hact
  | reap hpid hzombie hparent => exact h.reap hpid hzombie hparent

/-! ## Runs -/

theorem line_run {events : List Event}
    (hrun : Run.exec (step Assignment22.a2 max) events (Table.start pid (.label 0)) = some t) :
    Line (∃ p, .fork p none ∈ events) t := by
  refine Run.invariant (C := fun e _ => e ∈ events) (fun e t t' he h hs => ?_)
    (Run.along_of_mem (fun e he _ => he) _) ?_ hrun
  · exact line_move h (fun p hp => ⟨p, hp ▸ he⟩) (move_of_step hs)
  · exact .line (List.nodup_singleton pid) rfl (.first rfl) (.label (Nat.zero_le 5) rfl rfl)

theorem Waits.unique (h : Waits t c ps) : ∀ p ∈ c :: ps, ∀ q ∈ c :: ps, (t.proc p).parent = none →
    (t.proc q).parent = none → p = q := by
  induction h with
  | first hparent =>
    intro p hp q hq _ _
    rw [List.mem_singleton.1 hp, List.mem_singleton.1 hq]
  | @next c d ps hparent hzombie hstate hrest ih =>
    have hold : ∀ p ∈ c :: d :: ps, (t.proc p).parent = none → p ∈ d :: ps := by
      intro p hp hnone
      rcases List.mem_cons.1 hp with rfl | hp
      · rw [hparent] at hnone
        cases hnone
      · exact hp
    exact fun p hp q hq hp' hq' => ih p (hold p hp hp') q (hold q hq hq') hp' hq'

/-- Steps of a process with this `i` and all that come after it. -/
def rank : Pc → ℕ → ℕ
  | .label i, _ => 4 * (6 - i) + 6
  | .waits _, _ => 3
  | .returns _, _ => 2

theorem a2_ranked : Ranked Assignment22.a2 max (fun _ _ _ => True) rank where
  fork {s c p f forked waited} hact _ _ := by
    obtain ⟨i, rfl, rfl, rfl, -⟩ := a2_fork hact
    split
    · simp only [rank]
      omega
    · simp only [rank]
      omega
  forkFails {s c p f} n hact := by
    obtain ⟨i, rfl, -, -, rfl⟩ := a2_fork hact
    simp only [rank]
    omega
  wait {s o f} n hact := by
    obtain ⟨i, rfl, rfl, -⟩ := a2_wait hact
    simp only [rank]
    omega
  waitFails {s o f} n hact := by
    obtain ⟨i, rfl, -, rfl⟩ := a2_wait hact
    exact Nat.lt_succ_self _
  exec n hact := (a2_exec hact).elim
  exit n hact := by
    obtain ⟨i, rfl⟩ := a2_exit hact
    exact Nat.lt_succ_self _

/-- **The chain.** In every run the processes that have ended are the last ones that were created, the last of them
first, and no process loses its parent. No run is longer than 30 steps; at its end there have been seven processes at
most, and seven if no `fork` failed, and all of them are gone. -/
theorem chain_law {events : List Event}
    (hrun : Run.exec (step Assignment22.a2 max) events (Table.start pid (.label 0)) = some t) :
    (∃ n ≤ t.births, t.ended.map (·.state.i) = List.range' n (t.births - n)) ∧
      (∀ p ∈ t.procs, ∀ q ∈ t.procs, (t.proc p).parent = none → (t.proc q).parent = none → p = q) ∧
      events.length ≤ 30 ∧ ((∀ e, step Assignment22.a2 max e t = none) → t.procs = ∅ ∧
        t.ended.map (·.state.i) = List.range t.births ∧ t.births ≤ 7 ∧
          ((∀ p, .fork p none ∉ events) → t.births = 7)) := by
  have hkeeps := keeps_true Assignment22.a2
  have hholds := hkeeps.run (start_holds trivial) hrun
  have hbound := bounded hkeeps a2_ranked (start_holds trivial) hrun
  have hfirst : (Table.start pid (.label 0)).toDo rank = 30 := by
    simp [Table.toDo, Table.sum, Table.start, Proc.toDo, rank]
  have hline := line_run hrun
  refine ⟨?_, ?_, by omega, fun hstuck => ?_⟩
  · cases hline with
    | empty hprocs hmost hall hended =>
      exact ⟨0, Nat.zero_le _, by rw [hended, List.range_eq_range', Nat.sub_zero]⟩
    | @line c ps hnodup hprocs hwaits hyoungest =>
      generalize (t.proc c).state = last, (t.proc c).zombie = z at hyoungest
      cases hyoungest with
      | label hk hbirths hended => exact ⟨t.births, Nat.le_refl _, by rw [hended, Nat.sub_self]; rfl⟩
      | waits hbirths hmost hended hfail => exact ⟨t.births, Nat.le_refl _, by rw [hended, Nat.sub_self]; rfl⟩
      | returns hbirths hmost hall hended => exact ⟨_, hbirths, hended⟩
      | ended hbirths hmost hall hended => exact ⟨_, Nat.le_of_lt hbirths, hended⟩
  · intro p hp
    obtain ⟨c, ps, -, hprocs, hwaits, -⟩ := hline.cases hp
    intro q hq
    rw [hprocs, List.mem_toFinset] at hp hq
    exact hwaits.unique p hp q hq
  · have hnone := all_over hholds.sound hstuck
    cases hline with
    | empty hprocs hmost hall hended =>
      refine ⟨hprocs, hended, hmost, fun hno => hall.resolve_right ?_⟩
      rintro ⟨p, hp⟩
      exact hno p hp
    | line hnodup hprocs =>
      rw [hnone] at hprocs
      exact absurd hprocs.symm (by simp)

/-- The third `fork` fails. -/
def sampleShort : List Event := [.fork 1 (some 2), .fork 2 (some 3), .fork 3 none, .wait 3 none, .exit 3]

theorem chain_law_sample : ∃ t, Run.exec (step Assignment22.a2 9) sampleShort (Table.start 1 (.label 0)) = some t ∧
    ∃ n ≤ t.births, t.ended.map (·.state.i) = List.range' n (t.births - n) := by
  obtain ⟨t, hrun⟩ : ∃ t, Run.exec (step Assignment22.a2 9) sampleShort (Table.start 1 (.label 0)) = some t := ⟨_, rfl⟩
  exact ⟨t, hrun, (chain_law hrun).1⟩

end ForkWait.Chain
