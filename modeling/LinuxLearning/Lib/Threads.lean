import LinuxLearning.Lib.Run
/-!
# Threads over a shared memory

A program for threads `T` is one function `stmt t p a m`: the statement that thread `t` executes at
control point `p` in memory `m`, `a` being what the scheduler and the outside world choose (which
call is made, what is read, whether a call fails). It gives the new memory and the next control
point, or `none` when the thread is blocked. A state of the program is the memory and every
thread's control point; a step lets one thread execute one statement, so a run (`Run.exec step`)
is one interleaving.

`total w s` counts the threads with weights (`w p` for a thread at `p`); `total_step` is how one step
changes it, which is what an invariant on semaphores or tokens needs. `forall_step` is the rule for
assertions attached to control points: the thread that moves establishes the one at its new point,
and every other thread's assertion survives the new memory. `exec_alone` is for the runs of one thread.

The second part holds the blocking primitives the programs use: a counting semaphore, a mutex and a
condition variable.
-/

namespace Threads

variable {T M P A : Type*}

/-- The memory the threads share and the control point of each thread. -/
structure Config (T M P : Type*) where
  mem : M
  pc : T → P

section step
variable [DecidableEq T]

/-- Thread `a.1` executes one statement. -/
def step (stmt : T → P → A → M → Option (M × P)) (a : T × A) (s : Config T M P) :
    Option (Config T M P) :=
  (stmt a.1 (s.pc a.1) a.2 s.mem).map fun r => ⟨r.1, Function.update s.pc a.1 r.2⟩

variable {stmt : T → P → A → M → Option (M × P)}

theorem step_eq_some {a : T × A} {s s' : Config T M P} :
    step stmt a s = some s' ↔
      ∃ m p, stmt a.1 (s.pc a.1) a.2 s.mem = some (m, p) ∧ s' = ⟨m, Function.update s.pc a.1 p⟩ := by
  simp only [step, Option.map_eq_some_iff, Prod.exists]
  constructor
  · rintro ⟨m, p, h, rfl⟩; exact ⟨m, p, h, rfl⟩
  · rintro ⟨m, p, h, rfl⟩; exact ⟨m, p, h, rfl⟩

/-- Assertions attached to control points, after thread `t` moved to `p` and left memory `m`. -/
theorem forall_step {L : T → M → P → Prop} {pc : T → P} {t : T} {m m' : M} {p : P}
    (hL : ∀ u, L u m (pc u)) (own : L t m' p) (others : ∀ u, u ≠ t → L u m (pc u) → L u m' (pc u)) :
    ∀ u, L u m' (Function.update pc t p u) := by
  intro u
  by_cases hu : u = t
  · subst hu; simpa using own
  · rw [Function.update_of_ne hu]; exact others u hu (hL u)

/-- While a thread runs alone, only the memory and its own control point change. -/
theorem exec_alone {pc : T → P} {t : T} {as : List A} {m m' : M} {p p' : P}
    (h : Run.exec (fun a r => stmt t r.2 a r.1) as (m, p) = some (m', p')) :
    Run.exec (step stmt) (as.map (Prod.mk t)) ⟨m, Function.update pc t p⟩ = some ⟨m', Function.update pc t p'⟩ := by
  induction as generalizing m p with
  | nil =>
    cases h
    rfl
  | cons a as ih =>
    obtain ⟨⟨m₁, p₁⟩, hs, hrest⟩ := Run.exec_cons.1 h
    refine Run.exec_cons.2 ⟨_, ?_, ih hrest⟩
    refine step_eq_some.2 ⟨m₁, p₁, ?_, by rw [Function.update_idem]⟩
    simpa using hs

end step

section total
variable [Fintype T]

/-- The threads counted with weight `w p` for a thread at `p`. -/
def total (w : P → Nat) (pc : T → P) : Nat := ∑ t, w (pc t)

theorem total_step [DecidableEq T] (w : P → Nat) (pc : T → P) (t : T) (p : P) :
    total w (Function.update pc t p) + w (pc t) = total w pc + w p := by
  have h1 : total w (Function.update pc t p) = w p + ∑ u ∈ Finset.univ \ {t}, w (pc u) := by
    have := Finset.sum_update_of_mem (Finset.mem_univ t) (fun u => w (pc u)) (w p)
    rw [← this]
    refine Finset.sum_congr rfl fun u _ => ?_
    by_cases hu : u = t
    · subst hu; simp
    · simp [Function.update_of_ne hu]
  have h2 : total w pc = w (pc t) + ∑ u ∈ Finset.univ \ {t}, w (pc u) := by
    have := Finset.sum_update_of_mem (Finset.mem_univ t) (fun u => w (pc u)) (w (pc t))
    rwa [Function.update_eq_self t (fun u => w (pc u))] at this
  omega

theorem total_eq_zero {w : P → Nat} {pc : T → P} (h : ∀ t, w (pc t) = 0) : total w pc = 0 :=
  Finset.sum_eq_zero fun t _ => h t

/-- A thread's own weight is part of the total. -/
theorem le_total (w : P → Nat) (pc : T → P) (t : T) : w (pc t) ≤ total w pc :=
  Finset.single_le_sum (f := fun u => w (pc u)) (fun _ _ => Nat.zero_le _) (Finset.mem_univ t)

end total

/-! ## Semaphores -/

/-- A POSIX semaphore: the counter in its memory, and whether `sem_init` has run on it (and no
`sem_destroy` since). The counter of a semaphore that was never initialised is what its memory
holds. -/
structure Sem where
  ready : Bool
  value : Nat
deriving DecidableEq, Repr

/-- Zeroed static memory. -/
def Sem.zeroed : Sem := ⟨false, 0⟩

/-- `sem_init(s, 0, v)`, successful. -/
def Sem.init (_ : Sem) (v : Nat) : Sem := ⟨true, v⟩

/-- `sem_destroy(s)`. -/
def Sem.destroy (s : Sem) : Sem := { s with ready := false }

/-- `sem_post(s)`. -/
def Sem.post (s : Sem) : Sem := { s with value := s.value + 1 }

/-- `sem_wait(s)`: blocks at 0. -/
def Sem.wait? (s : Sem) : Option Sem :=
  if 0 < s.value then some { s with value := s.value - 1 } else none

@[simp] theorem Sem.post_value (s : Sem) : s.post.value = s.value + 1 := rfl
@[simp] theorem Sem.post_ready (s : Sem) : s.post.ready = s.ready := rfl
@[simp] theorem Sem.init_value (s : Sem) (v : Nat) : (s.init v).value = v := rfl
@[simp] theorem Sem.init_ready (s : Sem) (v : Nat) : (s.init v).ready = true := rfl
@[simp] theorem Sem.destroy_value (s : Sem) : s.destroy.value = s.value := rfl
@[simp] theorem Sem.destroy_ready (s : Sem) : s.destroy.ready = false := rfl

theorem Sem.wait?_eq_some {s s' : Sem} : s.wait? = some s' ↔ s.value = s'.value + 1 ∧ s.ready = s'.ready := by
  obtain ⟨r, v⟩ := s
  obtain ⟨r', v'⟩ := s'
  simp only [Sem.wait?, Option.ite_none_right_eq_some, Option.some.injEq, Sem.mk.injEq]
  constructor
  · rintro ⟨h, rfl, rfl⟩; exact ⟨by omega, rfl⟩
  · rintro ⟨rfl, rfl⟩; exact ⟨by omega, rfl, by omega⟩

/-! ## Mutexes -/

/-- `pthread_mutex_lock(m)` by `t`, `m` the owner: blocks while the mutex is taken. -/
def lock? (t : T) (m : Option T) : Option (Option T) := if m = none then some (some t) else none

theorem lock?_eq_some {t : T} {m m' : Option T} : lock? t m = some m' ↔ m = none ∧ m' = some t := by
  simp only [lock?, Option.ite_none_right_eq_some, Option.some.injEq]
  exact and_congr_right fun _ => eq_comm

/-! ## Condition variables -/

/-- A condition variable is known by the threads asleep on it. A thread that is in `pthread_cond_wait`
and not asleep any more has been woken and waits for the mutex. -/
structure Cond (T : Type*) where
  sleepers : List T
deriving DecidableEq, Repr

/-- The first half of `pthread_cond_wait`: `t` falls asleep (and gives up the mutex). -/
def Cond.sleep (c : Cond T) (t : T) : Cond T := ⟨t :: c.sleepers⟩

section
variable [DecidableEq T]

/-- `t` wakes up, signalled or not. -/
def Cond.wake (c : Cond T) (t : T) : Cond T := ⟨c.sleepers.erase t⟩

/-- `pthread_cond_signal`: wakes one sleeper, whichever, and does nothing if there is none. -/
def Cond.signal? (c : Cond T) : Option T → Option (Cond T)
  | none => if c.sleepers = [] then some c else none
  | some t => if t ∈ c.sleepers then some (c.wake t) else none

/-- A signal leaves nobody asleep if only one was. -/
theorem Cond.signal?_single {c c' : Cond T} {t : T} {u : Option T}
    (h : c.sleepers = [] ∨ c.sleepers = [t]) (hc : c.signal? u = some c') : c'.sleepers = [] := by
  cases u with
  | none =>
    simp only [Cond.signal?, Option.ite_none_right_eq_some, Option.some.injEq] at hc
    rw [← hc.2]; exact hc.1
  | some u =>
    simp only [Cond.signal?, Option.ite_none_right_eq_some, Option.some.injEq] at hc
    obtain ⟨hu, rfl⟩ := hc
    rcases h with h | h <;> rw [h] at hu
    · cases hu
    · rw [List.mem_singleton.1 hu]
      simp [Cond.wake, h]

end

end Threads
