import LinuxLearning.Lib.Procs
/-!
# `Assignment/2_2/a4.c`: five compilers, then the linker

| here | there (`Assignment/2_2/a4.c`) |
| --- | --- |
| `Pc.loop`   | `while(i++<5)`, `i` before the test, and the `fork` (`:9-11`) |
| `Pc.child`  | the `execl` of a child, with the name in `argv[i]` (`:14-15`) |
| `Pc.failed` | `exit(1)` in a child (`:19`) |
| `Pc.broke`  | `return 0` after the `break` (`:25-29`, `:48`): `ret` is -1, so there is no second loop |
| `Pc.reap`   | the second loop (`:34-36`) |
| `Pc.link`   | its `execl` (`:39`), `linkFails` is `exit(1)` after it (`:43`) |

`gcc` and `linker` are the programs that take the place of the process. That `argv` has five names is not looked at,
nor is what becomes of a compiler: the texts and the status are left out.

* `builds_move` — the jobs that have ended and those under way are those that have been started;
* `build_law` — the linker, or the attempt to start it, has all five jobs behind it and runs alone.
-/

namespace ForkWait.Build

open Procs

inductive Pc
  | loop (i : ℕ)
  | child (i : ℕ)
  | gcc (i : ℕ)
  | failed (i : ℕ)
  | broke
  | reap
  | link
  | linker
  | linkFails
  deriving DecidableEq, Repr

def Assignment22.a4 : Pc → Act Pc
  | .loop i => if i < 5 then .fork (.child (i + 1)) (.loop (i + 1)) .broke else .wait .reap .link
  | .child i => .exec (.gcc i) (.failed i)
  | .reap => .wait .reap .link
  | .link => .exec .linker .linkFails
  | .gcc _ | .failed _ | .broke | .linker | .linkFails => .exit

/-- The number of the name a process compiles. -/
def Pc.jobs : Pc → Multiset ℕ
  | .child i | .gcc i | .failed i => {i}
  | _ => 0

/-- Behind the second loop. -/
def Pc.linking (s : Pc) : Prop := s = .link ∨ s = .linker ∨ s = .linkFails

/-- The jobs that have ended. -/
def compiled (t : Table Pc) : Multiset ℕ := (t.ended.map (·.state.jobs)).sum

/-- The jobs under way. -/
def compiling (t : Table Pc) : Multiset ℕ := ∑ q ∈ t.procs, if (t.proc q).zombie then 0 else (t.proc q).state.jobs

variable {max pid : ℕ} {t t' : Table Pc} {e : Event} {failure : Prop}

theorem a4_loop (i : ℕ) : Assignment22.a4 (.loop i) =
    if i < 5 then .fork (.child (i + 1)) (.loop (i + 1)) .broke else .wait .reap .link := rfl

theorem a4_fork {s c p f : Pc} (h : Assignment22.a4 s = .fork c p f) :
    ∃ i < 5, s = .loop i ∧ c = .child (i + 1) ∧ p = .loop (i + 1) ∧ f = .broke := by
  cases s with
  | loop i =>
    rw [a4_loop] at h
    split at h
    · next hi =>
      cases h
      exact ⟨i, hi, rfl, rfl, rfl, rfl⟩
    · cases h
  | _ => cases h

theorem a4_wait {s o f : Pc} (h : Assignment22.a4 s = .wait o f) :
    (s = .reap ∨ ∃ i, s = .loop i ∧ 5 ≤ i) ∧ o = .reap ∧ f = .link := by
  cases s with
  | loop i =>
    rw [a4_loop] at h
    split at h
    · cases h
    · next hi =>
      cases h
      exact ⟨.inr ⟨i, rfl, Nat.le_of_not_lt hi⟩, rfl, rfl⟩
  | reap =>
    cases h
    exact ⟨.inl rfl, rfl, rfl⟩
  | _ => cases h

theorem a4_exec {s o f : Pc} (h : Assignment22.a4 s = .exec o f) :
    (∃ i, s = .child i ∧ o = .gcc i ∧ f = .failed i) ∨ s = .link ∧ o = .linker ∧ f = .linkFails := by
  cases s with
  | loop i =>
    rw [a4_loop] at h
    split at h <;> cases h
  | child i =>
    cases h
    exact .inl ⟨i, rfl, rfl, rfl⟩
  | link =>
    cases h
    exact .inr ⟨rfl, rfl, rfl⟩
  | _ => cases h

theorem a4_exit {s : Pc} (h : Assignment22.a4 s = .exit) :
    (∃ i, s.jobs = {i}) ∨ s = .broke ∨ s = .linker ∨ s = .linkFails := by
  cases s with
  | loop i =>
    rw [a4_loop] at h
    split at h <;> cases h
  | gcc i => exact .inl ⟨i, rfl⟩
  | failed i => exact .inl ⟨i, rfl⟩
  | broke => exact .inr (.inl rfl)
  | linker => exact .inr (.inr (.inl rfl))
  | linkFails => exact .inr (.inr (.inr rfl))
  | _ => cases h

/-- What a process knows of its children. -/
def Knows : Pc → List ℕ → List ℕ → Prop
  | .loop i, forked, waited => i = forked.length ∧ waited = [] ∧ i ≤ 5
  | .reap, forked, _ => forked.length = 5
  | .link, forked, waited | .linker, forked, waited | .linkFails, forked, waited =>
    forked.length = 5 ∧ forked.Perm waited
  | .broke, _, _ => True
  | .child _, forked, _ | .gcc _, forked, _ | .failed _, forked, _ => forked = []

theorem a4_keeps : Keeps Assignment22.a4 Knows where
  fork {s c p f forked waited} child hact h := by
    obtain ⟨i, hi, rfl, rfl, rfl, rfl⟩ := a4_fork hact
    obtain ⟨rfl, rfl, -⟩ := h
    exact ⟨⟨rfl, rfl, hi⟩, rfl⟩
  forkFails {s c p f forked waited} hact _ := by
    obtain ⟨i, hi, rfl, rfl, rfl, rfl⟩ := a4_fork hact
    trivial
  wait {s o f forked waited} child hact h _ := by
    obtain ⟨hs, rfl, rfl⟩ := a4_wait hact
    rcases hs with rfl | ⟨i, rfl, hi⟩
    · exact h
    · obtain ⟨rfl, -, hle⟩ := h
      exact Nat.le_antisymm hle hi
  waitFails {s o f forked waited} hact h hperm := by
    obtain ⟨hs, rfl, rfl⟩ := a4_wait hact
    rcases hs with rfl | ⟨i, rfl, hi⟩
    · exact ⟨h, hperm⟩
    · obtain ⟨rfl, -, hle⟩ := h
      exact ⟨Nat.le_antisymm hle hi, hperm⟩
  exec {s o f forked waited} hact h := by
    rcases a4_exec hact with ⟨i, rfl, rfl, rfl⟩ | ⟨rfl, rfl, rfl⟩ <;> exact ⟨h, h⟩

/-- Steps of a process, and of the children it will have. -/
def rank : Pc → ℕ → ℕ
  | .loop i, _ => 4 * (5 - i) + 4
  | .reap, _ => 4
  | .child _, _ | .link, _ => 3
  | _, _ => 2

theorem a4_ranked : Ranked Assignment22.a4 max Knows rank where
  fork {s c p f forked waited} hact _ _ := by
    obtain ⟨i, hi, rfl, rfl, rfl, -⟩ := a4_fork hact
    simp only [rank]
    omega
  forkFails {s c p f} n hact := by
    obtain ⟨i, hi, rfl, -, -, rfl⟩ := a4_fork hact
    simp only [rank]
    omega
  wait {s o f} n hact := by
    obtain ⟨hs, rfl, -⟩ := a4_wait hact
    rcases hs with rfl | ⟨i, rfl, -⟩ <;> simp only [rank] <;> omega
  waitFails {s o f} n hact := by
    obtain ⟨hs, -, rfl⟩ := a4_wait hact
    rcases hs with rfl | ⟨i, rfl, -⟩ <;> simp only [rank] <;> omega
  exec {s o f} n hact := by
    rcases a4_exec hact with ⟨i, rfl, rfl, rfl⟩ | ⟨rfl, rfl, rfl⟩ <;> exact ⟨Nat.lt_succ_self _, Nat.lt_succ_self _⟩
  exit {s} n _ := by
    cases s <;> simp only [rank] <;> omega

/-! ## Jobs -/

/-- The job of a process that has not ended. -/
def under (r : Proc Pc) : Multiset ℕ := if r.zombie then 0 else r.state.jobs

theorem compiling_eq (t : Table Pc) : compiling t = t.sum under := rfl

/-- The first process, `main`, and its children; `failure` is whether a `fork` may have failed. -/
structure Builds (failure : Prop) (t : Table Pc) (main : ℕ) : Prop where
  running : t.running main
  no_job : (t.proc main).state.jobs = 0
  others : ∀ q ∈ t.procs, q ≠ main → (∃ i, (t.proc q).state.jobs = {i}) ∧ (t.proc q).parent = some main
  ended : ∀ r ∈ t.ended, ∃ i, r.state.jobs = {i}
  jobs : compiled t + compiling t = (List.range' 1 (t.proc main).forked.length : Multiset ℕ)
  broke : (t.proc main).state = .broke → failure

/-- It has ended: after a `fork` that failed, or behind the second loop, with all jobs done and nobody left. -/
structure Built (failure : Prop) (t : Table Pc) : Prop where
  main : ∃ r ∈ t.ended, r.state = .broke ∧ failure ∨ r.state.linking
  others : ∀ q, t.running q → ∃ i, (t.proc q).state.jobs = {i}
  jobs : (∃ r ∈ t.ended, r.state.linking) → compiled t = (List.range' 1 5 : Multiset ℕ) ∧ ∀ q, ¬ t.running q

theorem jobs_linking {s : Pc} (h : s.linking) : s.jobs = 0 := by
  rcases h with rfl | rfl | rfl <;> rfl

/-- A process without a job is the first one. -/
theorem Builds.is_main {main : ℕ} (h : Builds failure t main) (hpid : pid ∈ t.procs)
    (hjobs : (t.proc pid).state.jobs = 0) : pid = main := by
  by_contra hne
  obtain ⟨⟨i, hi⟩, -⟩ := h.others pid hpid hne
  rw [hjobs] at hi
  exact absurd hi.symm (Multiset.singleton_ne_zero i)

/-- A statement that has no effect on others keeps the job. -/
theorem goes_jobs {st : Pc} (hgoes : Goes Assignment22.a4 t pid e st) (hfailure : ∀ p, e = .fork p none → failure) :
    st.jobs = (t.proc pid).state.jobs ∧ (st = .broke → failure) := by
  cases hgoes with
  | forkFails hact =>
    obtain ⟨i, hi, hs, -, -, rfl⟩ := a4_fork hact
    rw [hs]
    exact ⟨rfl, fun _ => hfailure _ rfl⟩
  | waitFails hact hnone =>
    obtain ⟨hs, -, rfl⟩ := a4_wait hact
    rcases hs with hs | ⟨i, hs, -⟩ <;> rw [hs] <;> exact ⟨rfl, fun h => by cases h⟩
  | exec hact =>
    rcases a4_exec hact with ⟨i, hs, rfl, -⟩ | ⟨hs, rfl, -⟩ <;> rw [hs] <;> exact ⟨rfl, fun h => by cases h⟩
  | execFails hact =>
    rcases a4_exec hact with ⟨i, hs, -, rfl⟩ | ⟨hs, -, rfl⟩ <;> rw [hs] <;> exact ⟨rfl, fun h => by cases h⟩

theorem goto_same {st : Pc} (hjobs : st.jobs = (t.proc pid).state.jobs) (q : ℕ) :
    ((t.goto pid st).proc q).state.jobs = (t.proc q).state.jobs ∧ ((t.goto pid st).proc q).zombie = (t.proc q).zombie ∧
      ((t.goto pid st).proc q).parent = (t.proc q).parent ∧ ((t.goto pid st).proc q).forked = (t.proc q).forked := by
  unfold Table.goto
  by_cases hq : q = pid
  · subst hq
    simpa using hjobs
  · simp [hq]

theorem Builds.goto {main : ℕ} (h : Builds failure t main) {st : Pc}
    (hgoes : Goes Assignment22.a4 t pid e st) (hfailure : ∀ p, e = .fork p none → failure) :
    Builds failure (t.goto pid st) main := by
  obtain ⟨hjobs, hbroke⟩ := goes_jobs hgoes hfailure
  have hsame := goto_same hjobs
  refine ⟨running_goto.2 h.running, (hsame main).1.trans h.no_job, fun q hq hne => ?_, h.ended, ?_, fun hb => ?_⟩
  · rw [(hsame q).1, (hsame q).2.2.1]
    exact h.others q hq hne
  · have hunder : compiling (t.goto pid st) = compiling t :=
      Finset.sum_congr rfl fun q _ => by rw [(hsame q).1, (hsame q).2.1]
    rw [hunder, (hsame main).2.2.2]
    exact h.jobs
  · by_cases hmain : main = pid
    · subst hmain
      exact hbroke (by simpa [Table.goto] using hb)
    · exact h.broke (by simpa [Table.goto, hmain] using hb)

theorem Builds.fork {main : ℕ} (h : Builds failure t main) (hknows : Holds Assignment22.a4 Knows t) {child : ℕ}
    {st parent failed : Pc} (hrun : t.running pid) (hact : Assignment22.a4 (t.proc pid).state = .fork st parent failed)
    (hnew : child ∉ t.procs) : Builds failure (t.fork pid child st parent) main := by
  obtain ⟨i, hi, hs, rfl, rfl, -⟩ := a4_fork hact
  obtain rfl := h.is_main hrun.1 (by rw [hs]; rfl)
  have hne := ne_of_mem_of_not_mem hrun.1 hnew
  have hcount := hknows.procs pid hrun.1
  rw [hs] at hcount
  obtain ⟨hlen, -, -⟩ := hcount
  refine ⟨(running_fork hnew).2 (.inr hrun), ?_, fun q hq hmain => ?_, h.ended, ?_, ?_⟩
  · rw [fork_parent hne]
    rfl
  · rcases Finset.mem_insert.1 hq with rfl | hq
    · rw [fork_child]
      exact ⟨⟨i + 1, rfl⟩, rfl⟩
    · rw [fork_other hmain (ne_of_mem_of_not_mem hq hnew)]
      exact h.others q hq hmain
  · obtain ⟨rest, hold, hafter⟩ := sum_fork (f := under) (.child (i + 1)) (.loop (i + 1)) hrun.1 hnew
    have hpid : under (t.proc pid) = 0 := by
      simp [under, hs, Pc.jobs]
    have hloop : under { t.proc pid with state := .loop (i + 1), forked := child :: (t.proc pid).forked } = 0 := by
      simp [under, Pc.jobs]
    have hchild : under ⟨some pid, .child (i + 1), false, [], [], t.births⟩ = {i + 1} := rfl
    have hjobs := h.jobs
    rw [hpid, zero_add] at hold
    rw [hloop, hchild, zero_add] at hafter
    rw [compiling_eq, hold] at hjobs
    rw [compiling_eq, hafter, fork_parent hne, List.length_cons, List.range'_1_concat, ← Multiset.coe_add, ← hjobs,
      ← hlen, Multiset.coe_singleton, Nat.add_comm 1 i, add_comm {i + 1} rest, ← add_assoc]
    rfl
  · rw [fork_parent hne]
    exact fun hb => by cases hb

theorem Builds.wait {main : ℕ} (h : Builds failure t main) {child : ℕ} {found failed : Pc} (hrun : t.running pid)
    (hact : Assignment22.a4 (t.proc pid).state = .wait found failed) (hchild : child ∈ t.children pid)
    (hzombie : (t.proc child).zombie = true) : Builds failure (t.wait pid child found) main := by
  obtain ⟨hs, rfl, -⟩ := a4_wait hact
  have hjobs : (t.proc pid).state.jobs = 0 := by
    rcases hs with hs | ⟨i, hs, -⟩ <;> rw [hs] <;> rfl
  obtain rfl := h.is_main hrun.1 hjobs
  have hreap : ((t.wait pid child .reap).proc pid).state = .reap := by
    simp [Table.wait]
  have hother : ∀ q, q ≠ pid → (t.wait pid child .reap).proc q = t.proc q := by
    intro q hq
    simp [Table.wait, hq]
  refine ⟨(running_wait hzombie).2 hrun, by rw [hreap]; rfl, fun q hq hne => ?_, h.ended, ?_, fun hb => ?_⟩
  · rw [hother q hne]
    exact h.others q (Finset.mem_of_mem_erase hq) hne
  · have hprocs : (t.wait pid child .reap).procs = t.procs.erase child := rfl
    have hsame : ∀ q ∈ t.procs, q ≠ child → under ((t.wait pid child .reap).proc q) = under (t.proc q) := by
      intro q _ _
      by_cases hq : q = pid
      · subst hq
        unfold under
        rw [hreap, hjobs, (wait_same q).2.2.1]
        rfl
      · rw [hother q hq]
    have hsum := sum_erase (f := under) (mem_children.1 hchild).1 hprocs hsame
    have hgone : under (t.proc child) = 0 := by
      simp [under, hzombie]
    have hold := h.jobs
    rw [compiling_eq, hsum, hgone, zero_add] at hold
    rw [(wait_same pid).2.2.2]
    exact hold
  · rw [hreap] at hb
    cases hb

/-- Behind the second loop there is no other process. -/
theorem Builds.alone {main : ℕ} (h : Builds failure t main) (hknows : Holds Assignment22.a4 Knows t)
    (hlinking : (t.proc main).state.linking) :
    t.procs = {main} ∧ compiled t = (List.range' 1 5 : Multiset ℕ) := by
  have hcount : (t.proc main).forked.length = 5 ∧ (t.proc main).forked.Perm (t.proc main).waited := by
    have hcount := hknows.procs main h.running.1
    rcases hlinking with hs | hs | hs <;> rw [hs] at hcount <;> exact hcount
  obtain ⟨hlen, hperm⟩ := hcount
  have hnone := hknows.sound.alone h.running hperm
  have hprocs : t.procs = {main} := by
    refine Finset.eq_singleton_iff_unique_mem.2 ⟨h.running.1, fun q hq => ?_⟩
    by_contra hne
    have hchild : q ∈ t.children main := mem_children.2 ⟨hq, (h.others q hq hne).2⟩
    rw [hnone] at hchild
    exact absurd hchild (Finset.notMem_empty q)
  refine ⟨hprocs, ?_⟩
  have hjobs := h.jobs
  have hzero : compiling t = 0 := by
    unfold compiling
    rw [hprocs, Finset.sum_singleton, jobs_linking hlinking, ite_self]
  rwa [hzero, add_zero, hlen] at hjobs

theorem compiled_exit : compiled (t.exit pid) = (t.proc pid).state.jobs + compiled t := by
  unfold compiled Table.exit
  rw [List.map_cons, List.sum_cons]

theorem Builds.exit {main : ℕ} (h : Builds failure t main) (hrun : t.running pid)
    (hne : pid ≠ main) : Builds failure (t.exit pid) main := by
  have hstate : ((t.exit pid).proc main).state = (t.proc main).state := (exit_same main).1
  have hforked : ((t.exit pid).proc main).forked = (t.proc main).forked := (exit_same main).2.2.1
  refine ⟨running_exit.2 ⟨hne.symm, h.running⟩, by rw [hstate]; exact h.no_job, fun q hq hq' => ?_, fun r hr => ?_, ?_,
    by rw [hstate]; exact h.broke⟩
  · obtain ⟨hjobs, hparent⟩ := h.others q hq hq'
    have hother : some main ≠ some pid := fun heq => hne (Option.some.inj heq).symm
    rw [(exit_same q).1, exit_parent, hparent, if_neg hother]
    exact ⟨hjobs, rfl⟩
  · rcases List.mem_cons.1 hr with rfl | hr
    · exact (h.others pid hrun.1 hne).1
    · exact h.ended r hr
  · have hprocs : (t.exit pid).procs = t.procs := rfl
    have hsame : ∀ q ∈ t.procs, q ≠ pid → under ((t.exit pid).proc q) = under (t.proc q) := by
      intro q _ hq
      unfold under
      rw [(exit_same q).1, (exit_same q).2.1, if_neg hq]
    obtain ⟨rest, hold, hafter⟩ := sum_one (f := under) hrun.1 hprocs hsame
    have hwas : under (t.proc pid) = (t.proc pid).state.jobs := by
      simp [under, hrun.2]
    have hnow : under ((t.exit pid).proc pid) = 0 := by
      unfold under
      rw [(exit_same pid).2.1]
      simp
    have hjobs := h.jobs
    rw [compiling_eq, hold, hwas] at hjobs
    rw [compiling_eq, hafter, hnow, zero_add, compiled_exit, hforked, ← hjobs, add_assoc, add_left_comm]

theorem Builds.over {main : ℕ} (h : Builds failure t main) (hknows : Holds Assignment22.a4 Knows t)
    (hact : Assignment22.a4 (t.proc main).state = .exit) : Built failure (t.exit main) := by
  have hend : (t.proc main).state = .broke ∧ failure ∨ (t.proc main).state.linking := by
    rcases a4_exit hact with ⟨i, hi⟩ | hs | hs | hs
    · rw [h.no_job] at hi
      exact absurd hi.symm (Multiset.singleton_ne_zero i)
    · exact .inl ⟨hs, h.broke hs⟩
    · exact .inr (.inr (.inl hs))
    · exact .inr (.inr (.inr hs))
  refine ⟨⟨_, List.mem_cons_self, hend⟩, fun q hq => ?_, ?_⟩
  · obtain ⟨hne, hq⟩ := running_exit.1 hq
    rw [(exit_same q).1]
    exact (h.others q hq.1 hne).1
  · rintro ⟨r, hr, hlinking⟩
    have hmain : (t.proc main).state.linking := by
      rcases List.mem_cons.1 hr with rfl | hr
      · exact hlinking
      · obtain ⟨i, hi⟩ := h.ended r hr
        rw [jobs_linking hlinking] at hi
        exact absurd hi.symm (Multiset.singleton_ne_zero i)
    obtain ⟨hprocs, hcompiled⟩ := h.alone hknows hmain
    rw [compiled_exit, h.no_job, zero_add]
    refine ⟨hcompiled, fun q hq => ?_⟩
    obtain ⟨hne, hq⟩ := running_exit.1 hq
    have hmem := hq.1
    rw [hprocs] at hmem
    exact hne (Finset.mem_singleton.1 hmem)

theorem Built.move (h : Built failure t) (hmove : Move Assignment22.a4 max t e t') : Built failure t' := by
  -- whoever runs has a job
  have hno : ∀ {q}, t.running q → (t.proc q).state.jobs ≠ 0 := by
    intro q hq hzero
    obtain ⟨i, hi⟩ := h.others q hq
    rw [hzero] at hi
    exact Multiset.singleton_ne_zero i hi.symm
  cases hmove with
  | @goto pid e st hrun hgoes =>
    have hjobs := (goes_jobs hgoes fun _ _ => trivial).1
    refine ⟨h.main, fun q hq => ?_, fun hlinking => ?_⟩
    · rw [(goto_same hjobs q).1]
      exact h.others q (running_goto.1 hq)
    · obtain ⟨hcompiled, hnobody⟩ := h.jobs hlinking
      exact ⟨hcompiled, fun q hq => hnobody q (running_goto.1 hq)⟩
  | fork hrun hact =>
    obtain ⟨i, hi, hs, -⟩ := a4_fork hact
    exact absurd (by rw [hs]; rfl) (hno hrun)
  | wait hrun hact =>
    obtain ⟨hs, -⟩ := a4_wait hact
    rcases hs with hs | ⟨i, hs, -⟩ <;> exact absurd (by rw [hs]; rfl) (hno hrun)
  | @exit pid hrun hact =>
    refine ⟨?_, fun q hq => ?_, ?_⟩
    · obtain ⟨r, hr, hend⟩ := h.main
      exact ⟨r, List.mem_cons_of_mem _ hr, hend⟩
    · rw [(exit_same q).1]
      exact h.others q (running_exit.1 hq).2
    · rintro ⟨r, hr, hlinking⟩
      rcases List.mem_cons.1 hr with rfl | hr
      · exact absurd (jobs_linking hlinking) (hno hrun)
      · exact absurd hrun ((h.jobs ⟨r, hr, hlinking⟩).2 pid)
  | reap hpid hzombie hparent =>
    refine ⟨h.main, fun q hq => h.others q ((running_reap hzombie).1 hq), fun hlinking => ?_⟩
    obtain ⟨hcompiled, hnobody⟩ := h.jobs hlinking
    exact ⟨hcompiled, fun q hq => hnobody q ((running_reap hzombie).1 hq)⟩

/-- **Jobs.** -/
theorem builds_move (h : (∃ main, Builds failure t main) ∨ Built failure t) (hknows : Holds Assignment22.a4 Knows t)
    (hfailure : ∀ p, e = .fork p none → failure) (hmove : Move Assignment22.a4 max t e t') :
    (∃ main, Builds failure t' main) ∨ Built failure t' := by
  rcases h with ⟨main, h⟩ | h
  · cases hmove with
    | goto hrun hgoes => exact .inl ⟨main, h.goto hgoes hfailure⟩
    | fork hrun hact hnew hroom => exact .inl ⟨main, h.fork hknows hrun hact hnew⟩
    | wait hrun hact hchild hzombie => exact .inl ⟨main, h.wait hrun hact hchild hzombie⟩
    | @exit pid hrun hact =>
      by_cases hne : pid = main
      · subst hne
        exact .inr (h.over hknows hact)
      · exact .inl ⟨main, h.exit hrun hne⟩
    | @reap pid hpid hzombie hparent =>
      -- the children have a parent as long as it runs
      have hne : pid ≠ main := by
        rintro rfl
        rw [h.running.2] at hzombie
        cases hzombie
      rw [(h.others pid hpid hne).2] at hparent
      cases hparent
  · exact .inr (h.move hmove)

/-! ## Runs -/

theorem a4_start (pid : ℕ) : Holds Assignment22.a4 Knows (Table.start pid (.loop 0)) :=
  start_holds (show Knows (.loop 0) [] [] from ⟨rfl, rfl, Nat.zero_le 5⟩)

theorem start_builds (pid : ℕ) : Builds failure (Table.start pid (.loop 0)) pid where
  running := ⟨Finset.mem_singleton_self pid, rfl⟩
  no_job := rfl
  others q hq hne := absurd (Finset.mem_singleton.1 hq) hne
  ended r hr := absurd hr List.not_mem_nil
  jobs := rfl
  broke h := by cases h

theorem builds_run {events : List Event}
    (hrun : Run.exec (step Assignment22.a4 max) events (Table.start pid (.loop 0)) = some t) :
    Holds Assignment22.a4 Knows t ∧ ((∃ main, Builds (∃ p, .fork p none ∈ events) t main) ∨
      Built (∃ p, .fork p none ∈ events) t) := by
  have hstep : ∀ e t t', e ∈ events → (Holds Assignment22.a4 Knows t ∧
      ((∃ main, Builds (∃ p, .fork p none ∈ events) t main) ∨ Built (∃ p, .fork p none ∈ events) t)) →
      step Assignment22.a4 max e t = some t' → (Holds Assignment22.a4 Knows t' ∧
      ((∃ main, Builds (∃ p, .fork p none ∈ events) t' main) ∨ Built (∃ p, .fork p none ∈ events) t')) := by
    rintro e t t' he ⟨hknows, hbuilds⟩ hs
    have hmove := move_of_step hs
    exact ⟨hknows.move a4_keeps hmove, builds_move hbuilds hknows (fun p hp => ⟨p, hp ▸ he⟩) hmove⟩
  exact Run.invariant hstep (Run.along_of_mem (fun e he _ => he) _) ⟨a4_start pid, .inl ⟨pid, start_builds pid⟩⟩ hrun

/-- **The build.** In whatever order the processes move: at the linker all five jobs have ended, each of them once, and
there is no other process; a job may have ended because its compiler could not be started. No run is longer than 24
steps, and it ends with the linker, or with an `execl` that could not start it, unless a `fork` failed. -/
theorem build_law {events : List Event}
    (hrun : Run.exec (step Assignment22.a4 max) events (Table.start pid (.loop 0)) = some t) :
    (∀ p, t.running p → (t.proc p).state.linking →
        t.procs = {p} ∧ (t.ended.map (·.state.jobs)).sum = {1, 2, 3, 4, 5}) ∧
      events.length ≤ 24 ∧ ((∀ e, step Assignment22.a4 max e t = none) → t.procs = ∅ ∧
        ((∃ r ∈ t.ended, r.state = .broke) ∧ (∃ p, .fork p none ∈ events) ∨
          (∃ r ∈ t.ended, r.state.linking) ∧ (t.ended.map (·.state.jobs)).sum = {1, 2, 3, 4, 5})) := by
  obtain ⟨hknows, hbuilds⟩ := builds_run hrun
  have hbound := bounded a4_keeps a4_ranked (a4_start pid) hrun
  have hfirst : (Table.start pid (.loop 0)).toDo rank = 24 := by
    simp [Table.toDo, Table.sum, Table.start, Proc.toDo, rank]
  refine ⟨fun p hp hlinking => ?_, by omega, fun hstuck => ?_⟩
  · rcases hbuilds with ⟨main, h⟩ | h
    · obtain rfl := h.is_main hp.1 (jobs_linking hlinking)
      exact h.alone hknows hlinking
    · obtain ⟨i, hi⟩ := h.others p hp
      rw [jobs_linking hlinking] at hi
      exact absurd hi.symm (Multiset.singleton_ne_zero i)
  · have hnone := all_over hknows.sound hstuck
    refine ⟨hnone, ?_⟩
    rcases hbuilds with ⟨main, h⟩ | h
    · have hmem := h.running.1
      rw [hnone] at hmem
      exact absurd hmem (Finset.notMem_empty main)
    · obtain ⟨r, hr, ⟨hs, hfail⟩ | hlinking⟩ := h.main
      · exact .inl ⟨⟨r, hr, hs⟩, hfail⟩
      · exact .inr ⟨⟨r, hr, hlinking⟩, (h.jobs ⟨r, hr, hlinking⟩).1⟩

/-- The second `fork` fails. -/
def sampleBroken : List Event := [.fork 1 (some 2), .fork 1 none, .exec 2 true, .exit 1, .exit 2, .reap 2, .reap 1]

theorem build_law_sample : ∃ t, Run.exec (step Assignment22.a4 9) sampleBroken (Table.start 1 (.loop 0)) = some t ∧
    ∀ p, t.running p → (t.proc p).state.linking → t.procs = {p} := by
  obtain ⟨t, hrun⟩ : ∃ t, Run.exec (step Assignment22.a4 9) sampleBroken (Table.start 1 (.loop 0)) = some t := ⟨_, rfl⟩
  exact ⟨t, hrun, fun p hp hlinking => ((build_law hrun).1 p hp hlinking).1⟩

end ForkWait.Build
