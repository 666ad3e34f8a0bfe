import LinuxLearning.Lib.Procs
/-!
# `Assignment/2_1/a1.c`, `2_2/a1.c` and `2_2/a5.c`: create children, then wait for all of them

| here | there |
| --- | --- |
| `spawner` | what the three have in common |
| `Assignment21.a1` | `Assignment/2_1/a1.c:3-38` |
| `Assignment22.a1` | `Assignment/2_2/a1.c:6-46` |
| `Assignment22.a5` | `Assignment/2_2/a5.c:8-61` |

The texts are left out, and so is what a child does before it ends: the memory it touches in `a5.c` (`:24-37`), where it
may end by a fault as well, since `ptr` is looked at after it has been used. `max` is the number of process descriptors;
a zombie keeps its own until it is waited for.

* `spawner_exact` — who comes out of the second loop has waited for each of its children, and has no child left;
* `spawner_ends` — how long a run can be, and what it has come to when it cannot go on;
* `a1_law`, `a5_law` — the five children of the one, and the number the other prints, which is one too many.
-/

namespace ForkWait

open Procs

inductive Pc
  /-- the first loop, `i` before the test -/
  | loop (i : ℕ)
  /-- the second loop, after `count` calls of `waitpid` -/
  | reap (count : ℕ)
  /-- after the second loop -/
  | reaped (count : ℕ)
  /-- at `exit(2)` -/
  | full
  | child
  deriving DecidableEq, Repr

/-- `again i` is whether there is a pass for `i`; `failed` is where a `fork` that fails leads. -/
def spawner (again : ℕ → Bool) (failed : Pc) : Pc → Act Pc
  | .loop i => if again i then .fork .child (.loop (i + 1)) failed else .wait (.reap 1) (.reaped 1)
  | .reap count => .wait (.reap (count + 1)) (.reaped (count + 1))
  | .reaped _ | .full | .child => .exit

/-- `while (1)`, with a `break` -/
def Assignment21.a1 : Pc → Act Pc := spawner (fun _ => true) (.reap 0)

/-- `while (i++ <= 5)` -/
def Assignment22.a1 : Pc → Act Pc := spawner (fun i => i ≤ 5) .full

/-- `while (1)`, with a `break`; it is the `count` of the second loop that is printed -/
def Assignment22.a5 : Pc → Act Pc := spawner (fun _ => true) (.reap 0)

variable {again : ℕ → Bool} {failed : Pc} {start max pid : ℕ} {t : Table Pc}

/-- The tests before the passes there have been. -/
def Passed (again : ℕ → Bool) (start : ℕ) (forked : List ℕ) : Prop :=
  ∀ j < forked.length, again (start + j) = true

/-- The first loop is done with: either there is no further pass, or a `fork` has failed that leads on. -/
def Done (again : ℕ → Bool) (failed : Pc) (start : ℕ) (forked : List ℕ) : Prop :=
  Passed again start forked ∧ (again (start + forked.length) = false ∨ failed = .reap 0)

/-- What a process knows of its children. -/
def Knows (again : ℕ → Bool) (failed : Pc) (start : ℕ) : Pc → List ℕ → List ℕ → Prop
  | .loop i, forked, waited => i = start + forked.length ∧ waited = [] ∧ Passed again start forked
  | .reap count, forked, waited => count = waited.length ∧ Done again failed start forked
  | .reaped count, forked, waited =>
    count = forked.length + 1 ∧ waited.Perm forked ∧ Done again failed start forked
  | .full, _, waited => waited = [] ∧ failed = .full
  | .child, forked, waited => forked = [] ∧ waited = []

theorem spawner_loop (i : ℕ) : spawner again failed (.loop i) =
    if again i then .fork .child (.loop (i + 1)) failed else .wait (.reap 1) (.reaped 1) := rfl

theorem spawner_fork {s c p f : Pc} (h : spawner again failed s = .fork c p f) :
    ∃ i, s = .loop i ∧ again i = true ∧ c = .child ∧ p = .loop (i + 1) ∧ f = failed := by
  cases s with
  | loop i =>
    rw [spawner_loop] at h
    split at h
    · next hagain =>
      cases h
      exact ⟨i, rfl, hagain, rfl, rfl, rfl⟩
    · cases h
  | _ => cases h

/-- The first `waitpid` comes right after the last test. -/
theorem spawner_wait {s o f : Pc} (h : spawner again failed s = .wait o f) :
    ∃ count, (s = .reap count ∨ count = 0 ∧ ∃ i, s = .loop i ∧ again i = false) ∧ o = .reap (count + 1) ∧
      f = .reaped (count + 1) := by
  cases s with
  | loop i =>
    rw [spawner_loop] at h
    split at h
    · cases h
    · next hagain =>
      cases h
      exact ⟨0, .inr ⟨rfl, i, rfl, by simpa using hagain⟩, rfl, rfl⟩
  | reap count =>
    cases h
    exact ⟨count, .inl rfl, rfl, rfl⟩
  | _ => cases h

theorem spawner_exec {s o f : Pc} (h : spawner again failed s = .exec o f) : False := by
  cases s with
  | loop i =>
    rw [spawner_loop] at h
    split at h <;> cases h
  | _ => cases h

theorem spawner_exit {s : Pc} (h : spawner again failed s = .exit) :
    (∃ count, s = .reaped count) ∨ s = .full ∨ s = .child := by
  cases s with
  | loop i =>
    rw [spawner_loop] at h
    split at h <;> cases h
  | reap count => cases h
  | reaped count => exact .inl ⟨count, rfl⟩
  | full => exact .inr (.inl rfl)
  | child => exact .inr (.inr rfl)

theorem spawner_keeps (hfailed : failed = .reap 0 ∨ failed = .full) :
    Keeps (spawner again failed) (Knows again failed start) where
  fork {s c p f forked waited} child hact h := by
    obtain ⟨i, rfl, hagain, rfl, rfl, rfl⟩ := spawner_fork hact
    obtain ⟨rfl, rfl, hpassed⟩ := h
    refine ⟨⟨rfl, rfl, fun j hj => ?_⟩, rfl, rfl⟩
    rcases Nat.lt_succ_iff_lt_or_eq.1 hj with hlt | rfl
    · exact hpassed j hlt
    · exact hagain
  forkFails {s c p f forked waited} hact h := by
    obtain ⟨i, rfl, hagain, rfl, rfl, rfl⟩ := spawner_fork hact
    obtain ⟨rfl, rfl, hpassed⟩ := h
    rcases hfailed with rfl | rfl
    · exact ⟨rfl, hpassed, .inr rfl⟩
    · exact ⟨rfl, rfl⟩
  wait {s o f forked waited} child hact h _ := by
    obtain ⟨count, hs, rfl, rfl⟩ := spawner_wait hact
    rcases hs with rfl | ⟨rfl, i, rfl, hagain⟩
    · obtain ⟨rfl, hdone⟩ := h
      exact ⟨rfl, hdone⟩
    · obtain ⟨rfl, rfl, hpassed⟩ := h
      exact ⟨rfl, hpassed, .inl hagain⟩
  waitFails {s o f forked waited} hact h hperm := by
    obtain ⟨count, hs, rfl, rfl⟩ := spawner_wait hact
    rcases hs with rfl | ⟨rfl, i, rfl, hagain⟩
    · obtain ⟨rfl, hdone⟩ := h
      exact ⟨by rw [hperm.length_eq], hperm.symm, hdone⟩
    · obtain ⟨rfl, rfl, hpassed⟩ := h
      exact ⟨by rw [hperm.eq_nil]; rfl, hperm.symm, hpassed, .inl hagain⟩
  exec hact _ := (spawner_exec hact).elim

theorem spawner_start (pid : ℕ) : Holds (spawner again failed) (Knows again failed start)
    (Table.start pid (.loop start)) :=
  start_holds (show Knows again failed start (.loop start) [] [] from
    ⟨rfl, rfl, fun j hj => absurd hj (Nat.not_lt_zero j)⟩)

theorem spawner_holds (hfailed : failed = .reap 0 ∨ failed = .full) {events : List Event}
    (hrun : Run.exec (step (spawner again failed) max) events (Table.start pid (.loop start)) = some t) :
    Holds (spawner again failed) (Knows again failed start) t :=
  (spawner_keeps hfailed).run (spawner_start pid) hrun

/-- Each child is waited for, and there is one call of `waitpid` more. -/
theorem spawner_exact (hfailed : failed = .reap 0 ∨ failed = .full) {events : List Event}
    (hrun : Run.exec (step (spawner again failed) max) events (Table.start pid (.loop start)) = some t) {p count : ℕ}
    (hp : t.running p) (hstate : (t.proc p).state = .reaped count) :
    t.children p = ∅ ∧ count = (t.proc p).forked.length + 1 ∧ Done again failed start (t.proc p).forked := by
  have h := spawner_holds hfailed hrun
  have hknows := h.procs p hp.1
  rw [hstate] at hknows
  obtain ⟨hcount, hperm, hdone⟩ := hknows
  exact ⟨h.sound.alone hp hperm.symm, hcount, hdone⟩

/-- Steps of a process that has `n` children. -/
def rank (max : ℕ) : Pc → ℕ → ℕ
  | .loop _, n => 3 * (max - n) + 4
  | .reap _, _ => 3
  | _, _ => 2

theorem spawner_ranked (hfailed : failed = .reap 0 ∨ failed = .full) :
    Ranked (spawner again failed) max (Knows again failed start) (rank max) where
  fork {s c p f forked waited} hact h hroom := by
    obtain ⟨i, rfl, hagain, rfl, rfl, rfl⟩ := spawner_fork hact
    obtain ⟨-, rfl, -⟩ := h
    simp only [rank, List.length_nil] at hroom ⊢
    omega
  forkFails {s c p f} n hact := by
    obtain ⟨i, rfl, hagain, rfl, rfl, rfl⟩ := spawner_fork hact
    rcases hfailed with rfl | rfl <;> simp only [rank] <;> omega
  wait {s o f} n hact := by
    obtain ⟨count, hs, rfl, rfl⟩ := spawner_wait hact
    rcases hs with rfl | ⟨rfl, i, rfl, -⟩
    · exact Nat.le_refl _
    · simp only [rank]
      omega
  waitFails {s o f} n hact := by
    obtain ⟨count, hs, rfl, rfl⟩ := spawner_wait hact
    rcases hs with rfl | ⟨rfl, i, rfl, -⟩ <;> simp only [rank] <;> omega
  exec n hact := (spawner_exec hact).elim
  exit {s} n hact := by
    rcases spawner_exit hact with ⟨count, rfl⟩ | rfl | rfl <;> exact Nat.lt_succ_self _

/-- The process that forks. -/
theorem spawner_some (hfailed : failed = .reap 0 ∨ failed = .full) {events : List Event}
    (hrun : Run.exec (step (spawner again failed) max) events (Table.start pid (.loop start)) = some t) :
    t.Some (· ≠ .child) := by
  refine Run.invariant' (fun e t t' h hs => some_move (fun s _ s' hs' => ?_) h (move_of_step hs)) ?_ hrun
  · cases hact : spawner again failed s with
    | fork c p f =>
      obtain ⟨i, rfl, hagain, rfl, rfl, rfl⟩ := spawner_fork hact
      rw [hact] at hs'
      rcases hfailed with rfl | rfl <;> rcases List.mem_pair.1 hs' with rfl | rfl <;> simp
    | wait o f =>
      obtain ⟨count, -, rfl, rfl⟩ := spawner_wait hact
      rw [hact] at hs'
      rcases List.mem_pair.1 hs' with rfl | rfl <;> simp
    | exec o f => exact (spawner_exec hact).elim
    | exit =>
      rw [hact] at hs'
      exact absurd hs' List.not_mem_nil
  · exact .inl ⟨pid, ⟨Finset.mem_singleton_self pid, rfl⟩, by simp [Table.start]⟩

/-- **The end.** -/
theorem spawner_ends (hfailed : failed = .reap 0 ∨ failed = .full) {events : List Event}
    (hrun : Run.exec (step (spawner again failed) max) events (Table.start pid (.loop start)) = some t) :
    events.length ≤ 3 * max + 4 ∧ ((∀ e, step (spawner again failed) max e t = none) →
      t.procs = ∅ ∧ ∃ r ∈ t.ended, r.state = .full ∧ failed = .full ∨
        r.state = .reaped (r.forked.length + 1) ∧ r.waited.Perm r.forked ∧ Done again failed start r.forked) := by
  have h := spawner_holds hfailed hrun
  have hbound := bounded (spawner_keeps hfailed) (spawner_ranked hfailed) (spawner_start pid) hrun
  have hfirst : (Table.start pid (.loop start)).toDo (rank max) = 3 * max + 4 := by
    simp [Table.toDo, Table.sum, Table.start, Proc.toDo, rank]
  refine ⟨by omega, fun hstuck => ?_⟩
  have hnone := all_over h.sound hstuck
  refine ⟨hnone, ?_⟩
  rcases spawner_some hfailed hrun with ⟨p, hp, -⟩ | ⟨r, hr, hmain⟩
  · have hmem := hp.1
    rw [hnone] at hmem
    exact absurd hmem (Finset.notMem_empty p)
  · obtain ⟨hknows, hact⟩ := h.ended r hr
    refine ⟨r, hr, ?_⟩
    rcases spawner_exit hact with ⟨count, hstate⟩ | hstate | hstate
    · rw [hstate] at hknows ⊢
      obtain ⟨rfl, hperm, hdone⟩ := hknows
      exact .inr ⟨rfl, hperm, hdone⟩
    · rw [hstate] at hknows ⊢
      exact .inl ⟨rfl, hknows.2⟩
    · exact absurd hstate hmain

/-- Five passes. -/
theorem five_of_done {forked : List ℕ} (h : Done (fun i => i ≤ 5) .full 1 forked) : forked.length = 5 := by
  obtain ⟨hpassed, hlast | hlast⟩ := h
  · have hmost : forked.length < 6 := by
      by_contra hmany
      simpa using hpassed 5 (by omega)
    simp only [decide_eq_false_iff_not] at hlast
    omega
  · cases hlast

/-- **`2_2/a1.c`.** In whatever order its processes move, it ends with each of its five children waited for, or because
there was no room for one of them. -/
theorem a1_law {events : List Event}
    (hrun : Run.exec (step Assignment22.a1 max) events (Table.start pid (.loop 1)) = some t) :
    (∀ p, t.running p → ∀ count, (t.proc p).state = .reaped count →
        t.children p = ∅ ∧ count = 6 ∧ (t.proc p).forked.length = 5) ∧
      events.length ≤ 3 * max + 4 ∧ ((∀ e, step Assignment22.a1 max e t = none) → t.procs = ∅ ∧
        ∃ r ∈ t.ended, r.state = .full ∨ r.state = .reaped 6 ∧ r.forked.length = 5 ∧ r.waited.Perm r.forked) := by
  obtain ⟨hbound, hends⟩ := spawner_ends (.inr rfl) hrun
  refine ⟨fun p hp count hstate => ?_, hbound, fun hstuck => ?_⟩
  · obtain ⟨halone, hcount, hdone⟩ := spawner_exact (.inr rfl) hrun hp hstate
    have hfive := five_of_done hdone
    exact ⟨halone, by omega, hfive⟩
  · obtain ⟨hnone, r, hr, hend⟩ := hends hstuck
    refine ⟨hnone, r, hr, ?_⟩
    rcases hend with ⟨hfull, -⟩ | ⟨hstate, hperm, hdone⟩
    · exact .inl hfull
    · have hfive := five_of_done hdone
      rw [hfive] at hstate
      exact .inr ⟨hstate, hfive, hperm⟩

/-- A `fork` that fails, with one child that has been made. -/
def sampleFull : List Event := [.fork 7 (some 8), .exit 8, .fork 7 none, .exit 7]

theorem a1_law_sample : ∃ t, Run.exec (step Assignment22.a1 9) sampleFull (Table.start 7 (.loop 1)) = some t ∧
    sampleFull.length ≤ 3 * 9 + 4 := by
  obtain ⟨t, hrun⟩ : ∃ t, Run.exec (step Assignment22.a1 9) sampleFull (Table.start 7 (.loop 1)) = some t := ⟨_, rfl⟩
  exact ⟨t, hrun, (a1_law hrun).2.1⟩

/-- **`2_1/a1.c` and `2_2/a5.c`.** They end with all their children waited for, as many as there were; what the second
one prints is one more. -/
theorem a5_law {prog : Pc → Act Pc} (hprog : prog = Assignment21.a1 ∨ prog = Assignment22.a5) {events : List Event}
    (hrun : Run.exec (step prog max) events (Table.start pid (.loop 0)) = some t) :
    (∀ p, t.running p → ∀ count, (t.proc p).state = .reaped count →
        t.children p = ∅ ∧ count = (t.proc p).forked.length + 1) ∧
      events.length ≤ 3 * max + 4 ∧ ((∀ e, step prog max e t = none) → t.procs = ∅ ∧
        ∃ r ∈ t.ended, r.state = .reaped (r.forked.length + 1) ∧ r.waited.Perm r.forked) := by
  obtain rfl : prog = spawner (fun _ => true) (.reap 0) := hprog.elim id id
  obtain ⟨hbound, hends⟩ := spawner_ends (.inl rfl) hrun
  refine ⟨fun p hp count hstate => ?_, hbound, fun hstuck => ?_⟩
  · obtain ⟨halone, hcount, -⟩ := spawner_exact (.inl rfl) hrun hp hstate
    exact ⟨halone, hcount⟩
  · obtain ⟨hnone, r, hr, hend⟩ := hends hstuck
    refine ⟨hnone, r, hr, ?_⟩
    rcases hend with ⟨-, hfull⟩ | ⟨hstate, hperm, -⟩
    · cases hfull
    · exact ⟨hstate, hperm⟩

/-- One child, after which there is no room: `count` is 2. -/
def sampleOne : List Event := [.fork 7 (some 8), .fork 7 none, .exit 8, .wait 7 (some 8), .wait 7 none]

theorem a5_law_sample : ∃ t, Run.exec (step Assignment22.a5 2) sampleOne (Table.start 7 (.loop 0)) = some t ∧
    (t.proc 7).state = .reaped 2 ∧ t.children 7 = ∅ := by
  obtain ⟨t, hrun, hstate, hp⟩ : ∃ t, Run.exec (step Assignment22.a5 2) sampleOne (Table.start 7 (.loop 0)) = some t ∧
      (t.proc 7).state = .reaped 2 ∧ t.running 7 := ⟨_, rfl, rfl, by decide⟩
  exact ⟨t, hrun, hstate, ((a5_law (.inr rfl) hrun).1 7 hp 2 hstate).1⟩

end ForkWait
