import LinuxLearning.Lib.Circular
import LinuxLearning.Sys.Basic
/-!
# `sys.c`: what a process has used

| here | there (`KernelDrivers_March2011/sys.c`) |
| --- | --- |
| `sys_times`     | `:865-901` |
| `k_getrusage`   | `:1542-1604` |
| `sys_getrusage` | `:1613-1618` |

The threads of a process are a ring, `next_thread` leads from one to the next. A thread has its counters; the signal
structure has those of threads that have ended (`self`) and of children that have been waited for (`children`). The
counters are taken from any additive commutative monoid, such as the machine's words. Units of time are not converted,
and the copies to the user are taken to succeed.

* `rusage_law` — as long as `lock_task_sighand` succeeds, each thread gets the same answers, and `RUSAGE_BOTH` is
  `RUSAGE_SELF` and `RUSAGE_CHILDREN` together.
-/

namespace Sys

@[ext]
structure Usage (M : Type*) where
  utime : M
  stime : M
  nvcsw : M
  nivcsw : M
  minflt : M
  majflt : M
  inblock : M
  oublock : M

inductive Who
  | both | children | self

section

variable {A M : Type*}

structure ThreadGroup (A M : Type*) where
  next : A → A
  group_leader : A
  others : List A
  linked : Circular.Linked next group_leader (next group_leader) others
  nodup : (group_leader :: others).Nodup
  usage : A → Usage M
  /-- `signal->utime` and so on -/
  self : Usage M
  /-- `signal->cutime` and so on -/
  children : Usage M

variable [AddCommMonoid M]

instance : Zero (Usage M) := ⟨⟨0, 0, 0, 0, 0, 0, 0, 0⟩⟩

instance : Add (Usage M) := ⟨fun r t =>
  ⟨r.utime + t.utime, r.stime + t.stime, r.nvcsw + t.nvcsw, r.nivcsw + t.nivcsw, r.minflt + t.minflt,
    r.majflt + t.majflt, r.inblock + t.inblock, r.oublock + t.oublock⟩⟩

theorem Usage.add_def (r t : Usage M) : r + t =
    ⟨r.utime + t.utime, r.stime + t.stime, r.nvcsw + t.nvcsw, r.nivcsw + t.nivcsw, r.minflt + t.minflt,
      r.majflt + t.majflt, r.inblock + t.inblock, r.oublock + t.oublock⟩ := rfl

theorem Usage.zero_def : (0 : Usage M) = ⟨0, 0, 0, 0, 0, 0, 0, 0⟩ := rfl

instance : AddCommMonoid (Usage M) where
  add_assoc a b c := by simp only [Usage.add_def, add_assoc]
  zero_add a := by simp only [Usage.add_def, Usage.zero_def, zero_add]
  add_zero a := by simp only [Usage.add_def, Usage.zero_def, add_zero]
  add_comm a b := by simp only [Usage.add_def, add_comm]
  nsmul := nsmulRec

variable [DecidableEq A] (g : ThreadGroup A M)

/-- All threads of the group. -/
def ThreadGroup.threads : List A := g.group_leader :: g.others

/-- `do { ... t = next_thread(t); } while (t != p)`, with what has been added up before. -/
def addThreads (p : A) (r : Usage M) : Option (Usage M) :=
  Circular.doWhile g.next p (fun r t => r + g.usage t) g.threads.length r p

/-- `sighand` is whether `lock_task_sighand` succeeds. -/
def k_getrusage (sighand : Bool) (p : A) (who : Who) : Option (Usage M) :=
  if !sighand then some 0
  else match who with
    | .children => some g.children
    | .both => addThreads g p (g.children + g.self)
    | .self => addThreads g p (0 + g.self)

/-- `RUSAGE_SELF` is 0, `RUSAGE_CHILDREN` is -1. -/
def sys_getrusage (sighand : Bool) (p : A) (who : ℤ) : Option (Except Errno (Usage M)) :=
  if who ≠ 0 ∧ who ≠ -1 then some (.error .EINVAL)
  else (k_getrusage g sighand p (if who = 0 then .self else .children)).map .ok

/-- `tms_utime`, `tms_stime`, `tms_cutime` and `tms_cstime`. -/
def sys_times (p : A) : Option (M × M × M × M) :=
  let body : M × M → A → M × M := fun (utime, stime) t => (utime + (g.usage t).utime, stime + (g.usage t).stime)
  (Circular.doWhile g.next p body g.threads.length (g.self.utime, g.self.stime) p).map fun (utime, stime) =>
    (utime, stime, g.children.utime, g.children.stime)

/-! ## The loops -/

variable {g} {p : A}

omit [DecidableEq A] [AddCommMonoid M] in
theorem ThreadGroup.at_thread (hp : p ∈ g.threads) :
    ∃ others, Circular.Linked g.next p (g.next p) others ∧ (p :: others).Perm g.threads :=
  g.linked.at_node g.nodup hp

omit [DecidableEq A] in
theorem foldl_add (l : List A) (r : Usage M) : l.foldl (fun r t => r + g.usage t) r = r + (l.map g.usage).sum := by
  induction l generalizing r with
  | nil => simp
  | cons t l ih => rw [List.foldl_cons, ih, List.map_cons, List.sum_cons, add_assoc]

/-- From any thread the loop adds up all of them. -/
theorem addThreads_eq (hp : p ∈ g.threads) (r : Usage M) :
    addThreads g p r = some (r + (g.threads.map g.usage).sum) := by
  obtain ⟨others, hlinked, hperm⟩ := ThreadGroup.at_thread hp
  have hlen : others.length < g.threads.length := by
    rw [← hperm.length_eq, List.length_cons]
    exact Nat.lt_succ_self _
  unfold addThreads
  rw [Circular.doWhile_linked _ hlinked hlen, foldl_add, (hperm.map g.usage).sum_eq]

omit [DecidableEq A] in
/-- The loop of `times` is a part of the other one. -/
theorem foldl_times (l : List A) (r : Usage M) :
    l.foldl (fun (x : M × M) t => (x.1 + (g.usage t).utime, x.2 + (g.usage t).stime)) (r.utime, r.stime) =
      ((l.foldl (fun r t => r + g.usage t) r).utime, (l.foldl (fun r t => r + g.usage t) r).stime) := by
  induction l generalizing r with
  | nil => rfl
  | cons t l ih => exact ih (r + g.usage t)

theorem sys_times_eq (hp : p ∈ g.threads) : sys_times g p =
    some ((g.self + (g.threads.map g.usage).sum).utime, (g.self + (g.threads.map g.usage).sum).stime,
      g.children.utime, g.children.stime) := by
  obtain ⟨others, hlinked, hperm⟩ := ThreadGroup.at_thread hp
  have hlen : others.length < g.threads.length := by
    rw [← hperm.length_eq, List.length_cons]
    exact Nat.lt_succ_self _
  unfold sys_times
  dsimp only
  rw [Circular.doWhile_linked _ hlinked hlen, foldl_times, foldl_add, (hperm.map g.usage).sum_eq]
  rfl

/-- **Usage.** -/
theorem rusage_law (g : ThreadGroup A M) : ∃ self : Usage M, ∀ p ∈ g.threads,
    k_getrusage g true p .self = some self ∧ k_getrusage g true p .children = some g.children ∧
      k_getrusage g true p .both = some (self + g.children) ∧
      (∀ who, sys_getrusage g true p who =
        some (if who = 0 then .ok self else if who = -1 then .ok g.children else .error .EINVAL)) ∧
      sys_times g p = some (self.utime, self.stime, g.children.utime, g.children.stime) ∧
      self = g.self + (g.threads.map g.usage).sum := by
  refine ⟨g.self + (g.threads.map g.usage).sum, fun p hp => ?_⟩
  have hself : k_getrusage g true p .self = some (g.self + (g.threads.map g.usage).sum) := by
    show addThreads g p (0 + g.self) = _
    rw [addThreads_eq hp, zero_add]
  refine ⟨hself, rfl, ?_, fun who => ?_, sys_times_eq hp, rfl⟩
  · show addThreads g p (g.children + g.self) = _
    rw [addThreads_eq hp, add_assoc, add_comm]
  · unfold sys_getrusage
    by_cases hzero : who = 0
    · simp [hzero, hself]
    · by_cases hchildren : who = -1
      · simp [hchildren, k_getrusage]
      · simp [hzero, hchildren]

end

/-- A process of three threads. -/
def threeThreads : ThreadGroup (Fin 3) ℕ where
  next p := p + 1
  group_leader := 0
  others := [1, 2]
  linked := by decide
  nodup := by decide
  usage p := ⟨p + 1, 2, 0, 0, 0, 0, 0, 0⟩
  self := ⟨10, 0, 0, 0, 0, 0, 0, 0⟩
  children := ⟨5, 5, 0, 0, 0, 0, 0, 0⟩

theorem rusage_law_sample : ∀ p ∈ threeThreads.threads,
    sys_getrusage threeThreads true p 0 = some (.ok ⟨16, 6, 0, 0, 0, 0, 0, 0⟩) ∧
      sys_times threeThreads p = some (16, 6, 5, 5) := by
  obtain ⟨self, h⟩ := rusage_law threeThreads
  intro p hp
  obtain ⟨-, -, -, hrusage, htimes, hself⟩ := h p hp
  have hsum : self = ⟨16, 6, 0, 0, 0, 0, 0, 0⟩ := hself
  rw [hrusage, htimes, hsum]
  exact ⟨rfl, rfl⟩

end Sys
