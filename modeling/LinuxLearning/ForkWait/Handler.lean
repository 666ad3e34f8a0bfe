import LinuxLearning.Lib.Run
/-!
# `Assignment/2_1/a3.c`: children waited for in a handler of `SIGCHLD`

| here | there (`Assignment/2_1/a3.c`) |
| --- | --- |
| `Sichld`       | `sichld` (`:4-10`), before and after its `waitpid` |
| `Pc.loop`      | the first loop, `i` before the test (`:20-38`) |
| `Pc.suspend`   | the second loop, `i` before the test (`:45`) |
| `Pc.asleep`    | in `sigsuspend` (`:47`) |
| `Pc.woken`     | after it (`:48`) |
| `Pc.failed`    | `exit(0)` after `perror` (`:25-26`) |

`SIGCHLD` is pending or not: what raises it while it is pending adds nothing. With `sa_flags` 0 (`:17`) it is raised when
a child ends, and also when one is stopped or goes on again; `waitpid` without `WUNTRACED` does not return for such a
child. The signal is blocked in the handler, and delivered anywhere else; there the process goes on when the handler is
through, `sigsuspend` having returned. The parent is modelled as long as there is one. `lines` counts the lines `sichld`
prints.

* `Tally` — what becomes of the children and of their signals, by what has happened to the signals;
* `handler_law` — the accounts of a run; where no child is stopped, the handler finds a zombie each time, and the parent
  comes to its end only if each of the five signals was delivered in a `sigsuspend` of its own, and for each that was
  not it sleeps in one of them for ever.
-/

namespace ForkWait.Handler

inductive Pc
  | loop (i : ℕ)
  | suspend (i : ℕ)
  | asleep (i : ℕ)
  | woken (i : ℕ)
  | done
  | failed
  deriving DecidableEq, Repr

inductive Sichld
  | waits
  | returns
  deriving DecidableEq, Repr

structure State where
  pc : Pc
  handler : Option Sichld
  pending : Bool
  /-- the children that have not ended -/
  running : ℕ
  zombies : ℕ
  lines : ℕ
  deriving DecidableEq, Repr

def State.start : State := ⟨.loop 0, none, false, 0, 0, 0⟩

inductive Event
  /-- the `fork` of the first loop, and whether it succeeds -/
  | fork (ok : Bool)
  /-- into `sigsuspend`, or past the second loop -/
  | suspend
  /-- the `printf` after `sigsuspend` -/
  | resume
  /-- a child ends -/
  | ends
  /-- a child is stopped, or goes on again -/
  | stops
  | deliver
  | waitpid
  | sigreturn
  deriving DecidableEq, Repr

def State.alive (s : State) : Prop := s.pc ≠ .done ∧ s.pc ≠ .failed

instance (s : State) : Decidable s.alive := inferInstanceAs (Decidable (_ ∧ _))

def sleep (i : ℕ) : Pc := if i < 5 then .asleep i else .done

/-- `sigsuspend` returns when the handler has. -/
def wake : Pc → Pc
  | .asleep i => .woken i
  | pc => pc

def step : Event → State → Option State
  | .fork ok, s => match s.handler, s.pc with
    | none, .loop i =>
      if i < 5 then some (if ok then { s with pc := .loop (i + 1), running := s.running + 1 } else { s with pc := .failed })
      else none
    | _, _ => none
  | .suspend, s => match s.handler, s.pc with
    | none, .loop i => if i < 5 then none else some { s with pc := sleep 0 }
    | none, .suspend i => some { s with pc := sleep i }
    | _, _ => none
  | .resume, s => match s.handler, s.pc with
    | none, .woken i => some { s with pc := .suspend (i + 1) }
    | _, _ => none
  | .ends, s =>
    if s.alive ∧ s.running ≠ 0 then
      some { s with running := s.running - 1, zombies := s.zombies + 1, pending := true }
    else none
  | .stops, s => if s.alive ∧ s.running ≠ 0 then some { s with pending := true } else none
  | .deliver, s =>
    if s.alive ∧ s.pending = true ∧ s.handler = none then
      some { s with pc := wake s.pc, pending := false, handler := some .waits }
    else none
  | .waitpid, s =>
    if s.handler = some .waits ∧ (s.zombies ≠ 0 ∨ s.running = 0) then
      some (if s.zombies = 0 then { s with handler := some .returns }
        else { s with handler := some .returns, zombies := s.zombies - 1, lines := s.lines + 1 })
    else none
  | .sigreturn, s => if s.handler = some .returns then some { s with handler := none } else none

/-- A child ends while a signal is pending. -/
def merged (e : Event) (s : State) : ℕ := if e = .ends ∧ s.pending = true then 1 else 0

/-- A signal is delivered outside of `sigsuspend`. -/
def missed (e : Event) (s : State) : ℕ := if e = .deliver ∧ wake s.pc = s.pc then 1 else 0

/-- A signal is raised by a child that has not ended. -/
def spurious (e : Event) (s : State) : ℕ := if e = .stops ∧ s.pending = false then 1 else 0

/-- `waitpid` finds no child. -/
def empty (e : Event) (s : State) : ℕ := if e = .waitpid ∧ s.zombies = 0 then 1 else 0

def merges (events : List Event) : ℕ := Run.count step merged events State.start

def misses (events : List Event) : ℕ := Run.count step missed events State.start

def spurs (events : List Event) : ℕ := Run.count step spurious events State.start

def empties (events : List Event) : ℕ := Run.count step empty events State.start

/-- The children that have been made. -/
def Pc.children : Pc → ℕ
  | .loop i => i
  | _ => 5

/-- The calls of `sigsuspend` that have returned. -/
def Pc.wakes : Pc → ℕ
  | .suspend i | .asleep i => i
  | .woken i => i + 1
  | .done => 5
  | .loop _ | .failed => 0

/-- The values `i` can have. -/
def Pc.fine : Pc → Prop
  | .loop i | .suspend i => i ≤ 5
  | .asleep i | .woken i => i < 5
  | .done | .failed => True

def State.waiting (s : State) : ℕ := if s.handler = some .waits then 1 else 0

def State.signals (s : State) : ℕ := if s.pending then 1 else 0

variable {s s' : State} {e : Event} {n : ℕ}

/-- The steps. -/
inductive Move (s : State) : Event → State → Prop
  | fork {i : ℕ} (hfree : s.handler = none) (hpc : s.pc = .loop i) (hi : i < 5) :
    Move s (.fork true) { s with pc := .loop (i + 1), running := s.running + 1 }
  | forkFails {i : ℕ} (hfree : s.handler = none) (hpc : s.pc = .loop i) : Move s (.fork false) { s with pc := .failed }
  | suspend {i : ℕ} (hfree : s.handler = none) (hpc : s.pc = .suspend i ∨ i = 0 ∧ ∃ j, s.pc = .loop j ∧ 5 ≤ j) :
    Move s .suspend { s with pc := sleep i }
  | resume {i : ℕ} (hfree : s.handler = none) (hpc : s.pc = .woken i) : Move s .resume { s with pc := .suspend (i + 1) }
  | ends (halive : s.alive) (hsome : s.running ≠ 0) :
    Move s .ends { s with running := s.running - 1, zombies := s.zombies + 1, pending := true }
  | stops (halive : s.alive) (hsome : s.running ≠ 0) : Move s .stops { s with pending := true }
  | deliver (halive : s.alive) (hpending : s.pending = true) (hfree : s.handler = none) :
    Move s .deliver { s with pc := wake s.pc, pending := false, handler := some .waits }
  | waitpid (hwaits : s.handler = some .waits) (hsome : s.zombies ≠ 0) :
    Move s .waitpid { s with handler := some .returns, zombies := s.zombies - 1, lines := s.lines + 1 }
  | waitFails (hwaits : s.handler = some .waits) (hnone : s.zombies = 0) :
    Move s .waitpid { s with handler := some .returns }
  | sigreturn (hreturns : s.handler = some .returns) : Move s .sigreturn { s with handler := none }

theorem move_of_step (h : step e s = some s') : Move s e s' := by
  cases e with
  | fork ok =>
    unfold step at h
    dsimp only at h
    split at h
    · next hfree hpc =>
      obtain ⟨hi, h⟩ := Option.ite_none_right_eq_some.1 h
      cases h
      cases ok with
      | false => exact .forkFails hfree hpc
      | true => exact .fork hfree hpc hi
    · cases h
  | suspend =>
    unfold step at h
    dsimp only at h
    split at h
    · next j hfree hpc =>
      split at h
      · cases h
      · next hj =>
        cases h
        exact .suspend hfree (.inr ⟨rfl, j, hpc, Nat.le_of_not_lt hj⟩)
    · next hfree hpc =>
      cases h
      exact .suspend hfree (.inl hpc)
    · cases h
  | resume =>
    unfold step at h
    dsimp only at h
    split at h
    · next hfree hpc =>
      cases h
      exact .resume hfree hpc
    · cases h
  | ends =>
    obtain ⟨⟨halive, hsome⟩, h⟩ := Option.ite_none_right_eq_some.1 h
    cases h
    exact .ends halive hsome
  | stops =>
    obtain ⟨⟨halive, hsome⟩, h⟩ := Option.ite_none_right_eq_some.1 h
    cases h
    exact .stops halive hsome
  | deliver =>
    obtain ⟨⟨halive, hpending, hfree⟩, h⟩ := Option.ite_none_right_eq_some.1 h
    cases h
    exact .deliver halive hpending hfree
  | waitpid =>
    obtain ⟨⟨hwaits, -⟩, h⟩ := Option.ite_none_right_eq_some.1 h
    cases h
    split
    · next hnone => exact .waitFails hwaits hnone
    · next hsome => exact .waitpid hwaits hsome
  | sigreturn =>
    obtain ⟨hreturns, h⟩ := Option.ite_none_right_eq_some.1 h
    cases h
    exact .sigreturn hreturns

/-! ## Children and signals -/

/-- A child runs, is a zombie, or has been waited for. -/
structure Good (s : State) : Prop where
  fine : s.pc.fine
  children : s.pc ≠ .failed → s.pc.children = s.running + s.zombies + s.lines
  free : s.pc = .done → s.handler = none

theorem wake_cases (pc : Pc) : wake pc = pc ∨ ∃ i, pc = .asleep i ∧ wake pc = .woken i := by
  cases pc with
  | asleep i => exact .inr ⟨i, rfl, rfl⟩
  | _ => exact .inl rfl

theorem sleep_children (i : ℕ) : (sleep i).children = 5 := by
  unfold sleep
  split <;> rfl

theorem sleep_wakes {i : ℕ} (h : i ≤ 5) : (sleep i).wakes = i := by
  unfold sleep
  split
  · rfl
  · next hi => exact Nat.le_antisymm (Nat.le_of_not_lt hi) h

theorem sleep_fine (i : ℕ) : (sleep i).fine := by
  unfold sleep
  split
  · next hi => exact hi
  · trivial

/-- Where the first loop is left, all children have been made, and the second loop has not begun. -/
theorem Good.suspend (h : Good s) {i : ℕ} (hpc : s.pc = .suspend i ∨ i = 0 ∧ ∃ j, s.pc = .loop j ∧ 5 ≤ j) :
    s.pc.children = 5 ∧ s.pc.wakes = i ∧ i ≤ 5 ∧ s.pc ≠ .failed := by
  have hfine := h.fine
  rcases hpc with hpc | ⟨rfl, j, hpc, hj⟩
  · rw [hpc] at hfine ⊢
    exact ⟨rfl, rfl, hfine, by simp⟩
  · rw [hpc] at hfine ⊢
    exact ⟨Nat.le_antisymm hfine hj, rfl, Nat.zero_le 5, by simp⟩

theorem good_step (h : Good s) (hmove : Move s e s') : Good s' := by
  have hall := h
  obtain ⟨hfine, hchildren, hover⟩ := h
  cases hmove with
  | fork hfree hpc hi =>
    rw [hpc] at hchildren
    have hold := hchildren (by simp)
    refine ⟨hi, fun _ => ?_, fun _ => hfree⟩
    simp only [Pc.children] at hold ⊢
    omega
  | forkFails hfree hpc => exact ⟨trivial, fun hne => absurd rfl hne, fun _ => hfree⟩
  | @suspend i hfree hpc =>
    obtain ⟨hfive, -, -, hne⟩ := hall.suspend hpc
    refine ⟨sleep_fine i, fun _ => ?_, fun _ => hfree⟩
    rw [sleep_children, ← hfive]
    exact hchildren hne
  | resume hfree hpc =>
    rw [hpc] at hfine hchildren
    exact ⟨hfine, fun _ => hchildren (by simp), fun _ => hfree⟩
  | ends halive hsome =>
    refine ⟨hfine, fun hne => ?_, hover⟩
    have hold := hchildren hne
    dsimp only
    omega
  | stops halive hsome => exact ⟨hfine, hchildren, hover⟩
  | deliver halive hpending hfree =>
    have hnext : (wake s.pc).fine ∧ (wake s.pc).children = s.pc.children ∧ wake s.pc ≠ .done := by
      rcases wake_cases s.pc with hsame | ⟨i, hpc, hwoken⟩
      · rw [hsame]
        exact ⟨hfine, rfl, halive.1⟩
      · rw [hwoken, hpc]
        rw [hpc] at hfine
        exact ⟨hfine, rfl, by simp⟩
    refine ⟨hnext.1, fun _ => ?_, fun hdone => absurd hdone hnext.2.2⟩
    rw [hnext.2.1]
    exact hchildren halive.2
  | waitpid hwaits hsome =>
    refine ⟨hfine, fun hne => ?_, fun hdone => ?_⟩
    · have hold := hchildren hne
      dsimp only
      omega
    · rw [hover hdone] at hwaits
      cases hwaits
  | waitFails hwaits hnone =>
    refine ⟨hfine, hchildren, fun hdone => ?_⟩
    rw [hover hdone] at hwaits
    cases hwaits
  | sigreturn hreturns => exact ⟨hfine, hchildren, fun _ => rfl⟩

/-- A signal that was raised is pending, is being handled, or has been: each stands for a zombie or for a line, but for
the spurious ones, and each child that has ended for a signal, but for those that have merged. -/
structure Tally (a b c d : ℕ) (s : State) : Prop where
  good : Good s
  zombies : s.zombies + c = a + d + s.waiting + s.signals
  wakes : s.lines + d + s.waiting = b + s.pc.wakes
  empties : d ≤ c

variable {a b c d : ℕ}

theorem waiting_waits (h : s.handler = some .waits) : s.waiting = 1 := by simp [State.waiting, h]

theorem waiting_free (h : s.handler = none) : s.waiting = 0 := by simp [State.waiting, h]

theorem waiting_returns (h : s.handler = some .returns) : s.waiting = 0 := by simp [State.waiting, h]

theorem signals_pending (h : s.pending = true) : s.signals = 1 := by simp [State.signals, h]

/-- What merges is the signal that is pending. -/
theorem merged_ends (s : State) : merged .ends s = s.signals := by simp [merged, State.signals]

/-- A stop raises a signal, unless one is pending. -/
theorem spurious_stops (s : State) : spurious .stops s + s.signals = 1 := by
  cases h : s.pending <;> simp [spurious, State.signals, h]

theorem empty_none (h : s.zombies = 0) : empty .waitpid s = 1 := by simp [empty, h]

theorem empty_some (h : s.zombies ≠ 0) : empty .waitpid s = 0 := by simp [empty, h]

theorem zombies_step (h : s.zombies + c = a + d + s.waiting + s.signals) (hmove : Move s e s') :
    s'.zombies + (c + spurious e s) = a + merged e s + (d + empty e s) + s'.waiting + s'.signals := by
  cases hmove with
  | ends halive hsome =>
    show s.zombies + 1 + c = a + merged .ends s + d + s.waiting + 1
    rw [merged_ends]
    omega
  | stops halive hsome =>
    have hraised := spurious_stops s
    show s.zombies + (c + spurious .stops s) = a + 0 + (d + 0) + s.waiting + 1
    omega
  | deliver halive hpending hfree =>
    rw [waiting_free hfree, signals_pending hpending] at h
    show s.zombies + c = a + d + 1 + 0
    omega
  | waitpid hwaits hsome =>
    rw [waiting_waits hwaits] at h
    have hcount := empty_some hsome
    show s.zombies - 1 + c = a + (d + empty .waitpid s) + 0 + s.signals
    omega
  | waitFails hwaits hnone =>
    rw [waiting_waits hwaits] at h
    have hcount := empty_none hnone
    show s.zombies + c = a + (d + empty .waitpid s) + 0 + s.signals
    omega
  | sigreturn hreturns =>
    rw [waiting_returns hreturns] at h
    exact h
  | _ => exact h

theorem wakes_step (hgood : Good s) (h : s.lines + d + s.waiting = b + s.pc.wakes) (hmove : Move s e s') :
    s'.lines + (d + empty e s) + s'.waiting = b + missed e s + s'.pc.wakes := by
  cases hmove with
  | fork hfree hpc hi =>
    rw [hpc] at h
    exact h
  | forkFails hfree hpc =>
    rw [hpc] at h
    exact h
  | @suspend i hfree hpc =>
    obtain ⟨-, hlast, hi, -⟩ := hgood.suspend hpc
    show s.lines + d + s.waiting = b + (sleep i).wakes
    rw [sleep_wakes hi, ← hlast]
    exact h
  | resume hfree hpc =>
    rw [hpc] at h
    exact h
  | ends | stops => exact h
  | deliver halive hpending hfree =>
    rw [waiting_free hfree] at h
    show s.lines + d + 1 = b + missed .deliver s + (wake s.pc).wakes
    rcases wake_cases s.pc with hsame | ⟨i, hpc, hwoken⟩
    · have hcount : missed .deliver s = 1 := by simp [missed, hsame]
      rw [hcount, hsame]
      omega
    · have hcount : missed .deliver s = 0 := by simp [missed, hpc, wake]
      rw [hpc] at h
      rw [hcount, hwoken]
      simp only [Pc.wakes] at h ⊢
      omega
  | waitpid hwaits hsome =>
    rw [waiting_waits hwaits] at h
    have hcount := empty_some hsome
    show s.lines + 1 + (d + empty .waitpid s) + 0 = b + s.pc.wakes
    omega
  | waitFails hwaits hnone =>
    rw [waiting_waits hwaits] at h
    have hcount := empty_none hnone
    show s.lines + (d + empty .waitpid s) + 0 = b + s.pc.wakes
    omega
  | sigreturn hreturns =>
    rw [waiting_returns hreturns] at h
    exact h

theorem tally_step (h : Tally a b c d s) (hmove : Move s e s') :
    Tally (a + merged e s) (b + missed e s) (c + spurious e s) (d + empty e s) s' := by
  obtain ⟨hgood, hzombies, hwakes, hempties⟩ := h
  refine ⟨good_step hgood hmove, zombies_step hzombies hmove, wakes_step hgood hwakes hmove, ?_⟩
  -- a handler that finds no child was called by a spurious signal
  cases hmove with
  | waitFails hwaits hnone =>
    rw [waiting_waits hwaits] at hzombies
    have hcount := empty_none hnone
    omega
  | waitpid hwaits hsome =>
    have hcount := empty_some hsome
    omega
  | _ => exact Nat.le_add_right_of_le hempties

/-- At the parent's end. -/
theorem Tally.done (h : Tally a b c d s) (hdone : s.pc = .done) :
    s.lines + d = 5 + b ∧ 5 = s.running + s.zombies + s.lines ∧ s.waiting = 0 := by
  obtain ⟨hgood, -, hwakes, -⟩ := h
  have hchildren := hgood.children (by simp [hdone])
  have hwaiting := waiting_free (hgood.free hdone)
  rw [hdone] at hchildren hwakes
  simp only [Pc.children, Pc.wakes] at hchildren hwakes
  omega

/-- In `sigsuspend`, with no signal to come. -/
theorem Tally.asleep {i : ℕ} (h : Tally a b c d s) (hpc : s.pc = .asleep i) (hfree : s.handler = none)
    (hpending : s.pending = false) :
    s.lines + d = b + i ∧ 5 = s.running + s.zombies + s.lines ∧ s.waiting = 0 ∧ s.signals = 0 := by
  obtain ⟨hgood, -, hwakes, -⟩ := h
  have hchildren := hgood.children (by simp [hpc])
  have hwaiting := waiting_free hfree
  have hsignals : s.signals = 0 := by simp [State.signals, hpending]
  rw [hpc] at hchildren hwakes
  simp only [Pc.children, Pc.wakes] at hchildren hwakes
  omega

/-! ## Runs -/

theorem start_good : Good State.start := ⟨Nat.zero_le 5, fun _ => rfl, fun _ => rfl⟩

theorem start_tally : Tally 0 0 0 0 State.start := ⟨start_good, rfl, rfl, Nat.le_refl 0⟩

theorem tally_run {events : List Event} (h : Tally a b c d s)
    (hrun : Run.exec step events s = some s') :
    Tally (a + Run.count step merged events s) (b + Run.count step missed events s)
      (c + Run.count step spurious events s) (d + Run.count step empty events s) s' := by
  induction events generalizing s a b c d with
  | nil =>
    cases hrun
    exact h
  | cons e events ih =>
    obtain ⟨s₁, hs, hrest⟩ := Run.exec_cons.1 hrun
    have htail := ih (tally_step h (move_of_step hs)) hrest
    unfold Run.count
    rw [hs, ← Nat.add_assoc, ← Nat.add_assoc, ← Nat.add_assoc, ← Nat.add_assoc]
    exact htail

theorem run_tally {events : List Event} (hrun : Run.exec step events State.start = some s) :
    Tally (merges events) (misses events) (spurs events) (empties events) s := by
  have htally := tally_run start_tally hrun
  simp only [Nat.zero_add] at htally
  exact htally

/-- Only a child that is stopped or goes on raises a spurious signal. -/
theorem spurious_none {events : List Event} (h : Event.stops ∉ events) (s : State) :
    Run.count step spurious events s = 0 := by
  induction events generalizing s with
  | nil => rfl
  | cons e events ih =>
    rw [List.mem_cons, not_or] at h
    have hfirst : spurious e s = 0 := if_neg fun heq => h.1 heq.1.symm
    unfold Run.count
    rw [hfirst]
    cases step e s with
    | none => rfl
    | some s' => exact (Nat.zero_add _).trans (ih h.2 s')

/-- Steps of the parent outside of its handler. -/
def Pc.left : Pc → ℕ
  | .loop i => 5 * (5 - i) + 16
  | .suspend i => 3 * (5 - i) + 1
  | .asleep i => 3 * (5 - i)
  | .woken i => 3 * (5 - i) - 1
  | .done | .failed => 0

def State.left (s : State) : ℕ :=
  s.pc.left + 4 * s.running + 3 * s.signals + match s.handler with
    | none => 0
    | some .waits => 2
    | some .returns => 1

theorem left_step (h : Good s) (he : e ≠ .stops) (hmove : Move s e s') : s'.left < s.left := by
  obtain ⟨hfine, -, -⟩ := h
  cases hmove with
  | fork hfree hpc hi =>
    simp only [State.left, State.signals, hfree, hpc, Pc.left]
    omega
  | forkFails hfree hpc =>
    simp only [State.left, State.signals, hfree, hpc, Pc.left]
    omega
  | @suspend i hfree hpc =>
    have hsleep : (sleep i).left < s.pc.left := by
      unfold sleep
      rcases hpc with hpc | ⟨rfl, j, hpc, hj⟩ <;> rw [hpc] <;> split <;> simp only [Pc.left] <;> omega
    simp only [State.left, State.signals, hfree]
    omega
  | resume hfree hpc =>
    rw [hpc] at hfine
    simp only [Pc.fine] at hfine
    simp only [State.left, State.signals, hfree, hpc, Pc.left]
    omega
  | ends halive hsome =>
    simp only [State.left, State.signals, if_true]
    omega
  | stops => exact absurd rfl he
  | deliver halive hpending hfree =>
    have hwake : (wake s.pc).left ≤ s.pc.left := by
      rcases wake_cases s.pc with hsame | ⟨i, hpc, hwoken⟩
      · exact (congrArg Pc.left hsame).le
      · rw [hwoken, hpc]
        exact Nat.sub_le _ _
    simp only [State.left, State.signals, hfree, hpending]
    simp only [if_true, Bool.false_eq_true, if_false]
    omega
  | waitpid hwaits hsome =>
    simp only [State.left, State.signals, hwaits]
    omega
  | waitFails hwaits hnone =>
    simp only [State.left, State.signals, hwaits]
    omega
  | sigreturn hreturns =>
    simp only [State.left, State.signals, hreturns]
    omega

/-- A child that is stopped adds a signal. -/
theorem left_stops (hs : step .stops s = some s') : s'.left ≤ s.left + 3 := by
  cases move_of_step hs
  simp only [State.left, State.signals, if_true]
  omega

theorem run_left {events : List Event} (h : Good s) (hrun : Run.exec step events s = some s') :
    events.length + s'.left ≤ s.left + 4 * events.count .stops := by
  induction events generalizing s with
  | nil =>
    cases hrun
    simp
  | cons e events ih =>
    obtain ⟨s₁, hs, hrest⟩ := Run.exec_cons.1 hrun
    have htail := ih (good_step h (move_of_step hs)) hrest
    by_cases he : e = .stops
    · subst he
      have hstep := left_stops hs
      rw [List.length_cons, List.count_cons_self]
      omega
    · have hstep := left_step h he (move_of_step hs)
      rw [List.length_cons, List.count_cons_of_ne he]
      omega

/-- Where nothing can happen any more. -/
theorem stuck_cases (h : Good s) (hstuck : ∀ e, step e s = none) : s.pc = .failed ∨ s.pc = .done ∨
    ∃ i < 5, s.pc = .asleep i ∧ s.running = 0 ∧ s.handler = none ∧ s.pending = false := by
  obtain ⟨hfine, -, -⟩ := h
  by_cases halive : s.alive
  swap
  · unfold State.alive at halive
    tauto
  refine .inr (.inr ?_)
  have hrunning : s.running = 0 := by
    by_contra hsome
    have hends := hstuck .ends
    simp [step, halive, hsome] at hends
  have hfree : s.handler = none := by
    cases hhandler : s.handler with
    | none => rfl
    | some x =>
      cases x with
      | waits =>
        have hwait := hstuck .waitpid
        simp [step, hhandler, hrunning] at hwait
      | returns =>
        have hreturn := hstuck .sigreturn
        simp [step, hhandler] at hreturn
  have hpending : s.pending = false := by
    cases hpending : s.pending with
    | false => rfl
    | true =>
      have hdeliver := hstuck .deliver
      simp [step, halive, hpending, hfree] at hdeliver
  cases hpc : s.pc with
  | asleep i =>
    rw [hpc] at hfine
    exact ⟨i, hfine, rfl, hrunning, hfree, hpending⟩
  | loop i =>
    have hfork := hstuck (.fork false)
    have hsuspend := hstuck .suspend
    simp [step, hfree, hpc] at hfork hsuspend
    omega
  | suspend i =>
    have hsuspend := hstuck .suspend
    simp [step, hfree, hpc] at hsuspend
  | woken i =>
    have hresume := hstuck .resume
    simp [step, hfree, hpc] at hresume
  | done => exact absurd hpc halive.1
  | failed => exact absurd hpc halive.2

/-- **The handler.** A signal for which no child has ended is one that a child raised when it was stopped or went on:
only after such a signal can the handler be without a zombie, and each lets the run be four steps longer than 41 and
leaves one call of `waitpid` without a child, one child that is never waited for, or makes up for a signal that was
lost. Without such a child the parent comes to its end only if no signal has merged with another or been delivered
outside of `sigsuspend`, and then with all five children waited for; a run that cannot go on and has not got there is
in a `sigsuspend` for ever, one for each signal that was lost. -/
theorem handler_law {events : List Event} (hrun : Run.exec step events State.start = some s) :
    (s.handler = some .waits → s.zombies = 0 → 0 < spurs events) ∧
      empties events ≤ spurs events ∧
      events.length ≤ 41 + 4 * events.count .stops ∧
      (s.pc = .done → s.lines + empties events = 5 + misses events ∧
        s.running + s.signals + (merges events + misses events) = spurs events) ∧
      ((∀ e, step e s = none) → s.pc = .failed ∨ s.pc = .done ∨ ∃ i < 5, s.pc = .asleep i ∧ s.running = 0 ∧
        s.zombies + spurs events = merges events + empties events ∧
        i + (merges events + misses events) = 5 + spurs events) ∧
      (Event.stops ∉ events →
        (s.handler = some .waits → s.zombies ≠ 0) ∧ events.length ≤ 41 ∧
          (s.pc = .done → merges events = 0 ∧ misses events = 0 ∧ s.running = 0 ∧ s.zombies = 0 ∧ s.lines = 5) ∧
          ((∀ e, step e s = none) → s.pc = .failed ∨ s.pc = .done ∨ ∃ i < 5, s.pc = .asleep i ∧ s.running = 0 ∧
            s.zombies = merges events ∧ i + (merges events + misses events) = 5)) := by
  have htally := run_tally hrun
  have hgood := htally.good
  have hzombies := htally.zombies
  have hempties := htally.empties
  have hleft := run_left start_good hrun
  have hfirst : State.start.left = 41 := rfl
  refine ⟨fun hw hnone => ?_, hempties, by omega, fun hd => ?_, fun hstuck => ?_, fun hquiet => ?_⟩
  · have hwaiting := waiting_waits hw
    omega
  · have haccount := htally.done hd
    omega
  · rcases stuck_cases hgood hstuck with hfailed | hd | ⟨i, hi, hpc, hrunning, hfree, hpending⟩
    · exact .inl hfailed
    · exact .inr (.inl hd)
    · have haccount := htally.asleep hpc hfree hpending
      refine .inr (.inr ⟨i, hi, hpc, hrunning, ?_, ?_⟩) <;> omega
  · have hnone : spurs events = 0 := spurious_none hquiet State.start
    have hcount := List.count_eq_zero_of_not_mem hquiet
    refine ⟨fun hw => ?_, by omega, fun hd => ?_, fun hstuck => ?_⟩
    · have hwaiting := waiting_waits hw
      omega
    · have haccount := htally.done hd
      omega
    · rcases stuck_cases hgood hstuck with hfailed | hd | ⟨i, hi, hpc, hrunning, hfree, hpending⟩
      · exact .inl hfailed
      · exact .inr (.inl hd)
      · have haccount := htally.asleep hpc hfree hpending
        refine .inr (.inr ⟨i, hi, hpc, hrunning, ?_, ?_⟩) <;> omega

/-- A child is stopped while the parent sleeps: the handler is in `waitpid`, and there is no zombie. -/
example : (Run.exec step [.fork true, .fork true, .fork true, .fork true, .fork true, .suspend, .stops, .deliver]
    State.start).map (fun s => (s.handler, s.zombies, step .waitpid s)) = some (some .waits, 0, none) := by decide

/-- Three children end one after the other while the parent sleeps, the last two at once. -/
def sampleHang : List Event :=
  let one : List Event := [.suspend, .ends, .deliver, .waitpid, .sigreturn, .resume]
  List.replicate 5 (.fork true) ++ one ++ one ++ one ++
    [.suspend, .ends, .ends, .deliver, .waitpid, .sigreturn, .resume, .suspend]

theorem handler_law_sample : ∃ s, Run.exec step sampleHang State.start = some s ∧ (∀ e, step e s = none) ∧
    s.pc = .asleep 4 ∧ s.zombies = merges sampleHang := by
  obtain ⟨s, hrun, hstuck, hpc⟩ : ∃ s, Run.exec step sampleHang State.start = some s ∧ (∀ e, step e s = none) ∧
      s.pc = .asleep 4 := by
    refine ⟨_, rfl, fun e => ?_, rfl⟩
    cases e <;> rfl
  refine ⟨s, hrun, hstuck, hpc, ?_⟩
  rcases (handler_law hrun).2.2.2.2.2 (by decide) |>.2.2.2 hstuck with hfailed | hdone | ⟨i, -, -, -, hzombies, -⟩
  · rw [hpc] at hfailed
    cases hfailed
  · rw [hpc] at hdone
    cases hdone
  · exact hzombies

end ForkWait.Handler
