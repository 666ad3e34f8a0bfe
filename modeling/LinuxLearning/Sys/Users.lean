import LinuxLearning.Sys.Ids
/-!
# `sys.c`: how many tasks a user has

| here | there (`KernelDrivers_March2011/sys.c`) |
| --- | --- |
| `UserState`, `userStep` | all tasks with their calls (`Ids`), `set_user` (`:561-584`) among them |
| `UserEvent.test`        | a call up to the test of `set_user` (`:569-574`) |
| `UserEvent.switch`      | the rest of it, from `switch_uid` on (`:576-583`) |

Each user has a count of tasks, `processes`; `set_user` compares it with the limit `RLIMIT_NPROC` of the task and moves
the task from one count to the other. No lock is held from the test to the move. A task does nothing else while its call
is under way, and its ids are its own; only the counts may have changed in between. The kernel counts a new task for its
user (`fork`) and no longer counts one that has ended (`exit`).

* `nproc_law` — the counts are right in every run; calls that do not overlap never bring a user other than root above
  the limit, and overlapping ones by no more than the others under way at a test.
-/

namespace Sys

structure UserState where
  tasks : Finset ℕ
  /-- the counts in it are not used -/
  task : ℕ → Current
  processes : Id → ℤ
  /-- the calls under way, with the counts at their tests -/
  calls : ℕ → Option (Answers × Call × (Id → ℤ))

inductive UserEvent
  | test (pid : ℕ) (answers : Answers) (call : Call)
  | switch (pid : ℕ)
  | fork (pid child : ℕ)
  | exit (pid : ℕ)

/-- The task, with the counts that its call has seen. -/
def UserState.seeing (s : UserState) (pid : ℕ) (seen : Id → ℤ) : Current := { s.task pid with processes := seen }

def userStep (suid_dumpable : ℕ) (e : UserEvent) (s : UserState) : Option UserState :=
  match e with
  | .test pid a call =>
    if pid ∈ s.tasks ∧ s.calls pid = none then
      some { s with calls := Function.update s.calls pid (some (a, call, s.processes)) }
    else none
  | .switch pid => match s.calls pid with
    | some (a, call, seen) =>
      if pid ∈ s.tasks then
        let c := (callStep suid_dumpable a call (s.seeing pid seen)).2
        -- `atomic_inc` and `atomic_dec`, on what the counts are by now
        some { s with
          task := Function.update s.task pid c
          processes := fun u => s.processes u + (c.processes u - seen u)
          calls := Function.update s.calls pid none }
      else none
    | none => none
  | .fork pid child =>
    if pid ∈ s.tasks ∧ child ∉ s.tasks ∧ s.calls pid = none then
      let user := (s.task pid).user
      some
        { tasks := insert child s.tasks
          task := Function.update s.task child (s.task pid)
          processes := Function.update s.processes user (s.processes user + 1)
          calls := Function.update s.calls child none }
    else none
  | .exit pid =>
    if pid ∈ s.tasks ∧ s.calls pid = none then
      let user := (s.task pid).user
      some
        { s with
          tasks := s.tasks.erase pid
          processes := Function.update s.processes user (s.processes user - 1) }
    else none

/-- The number of tasks whose real user is `u`. -/
def UserState.tasksOf (s : UserState) (u : Id) : ℕ := (s.tasks.filter fun p => (s.task p).uid = u).card

structure Consistent (s : UserState) : Prop where
  user : ∀ p ∈ s.tasks, (s.task p).user = (s.task p).uid
  processes : ∀ u, s.processes u = s.tasksOf u

variable {suid_dumpable : ℕ} {s s' : UserState} {u : Id} {pid : ℕ}

/-- One task and the others. -/
theorem tasksOf_eq (s : UserState) (hpid : pid ∈ s.tasks) (u : Id) :
    s.tasksOf u = (if (s.task pid).uid = u then 1 else 0) +
      ∑ p ∈ s.tasks.erase pid, if (s.task p).uid = u then 1 else 0 := by
  unfold UserState.tasksOf
  rw [Finset.card_filter, ← Finset.add_sum_erase _ _ hpid]

theorem tasksOf_update (hpid : pid ∈ s.tasks) {c : Current} (htasks : s'.tasks = s.tasks)
    (htask : s'.task = Function.update s.task pid c) (u : Id) :
    (s'.tasksOf u : ℤ) = s.tasksOf u - (if (s.task pid).uid = u then 1 else 0) + if c.uid = u then 1 else 0 := by
  have hold := tasksOf_eq s hpid u
  have hnew := tasksOf_eq s' (htasks ▸ hpid) u
  have hothers : ∑ p ∈ s.tasks.erase pid, (if (Function.update s.task pid c p).uid = u then 1 else 0) =
      ∑ p ∈ s.tasks.erase pid, if (s.task p).uid = u then 1 else 0 := by
    refine Finset.sum_congr rfl fun p hp => ?_
    rw [Function.update_of_ne (Finset.ne_of_mem_erase hp)]
  simp only [htasks, htask, Function.update_self, hothers] at hnew
  rw [hnew, hold]
  push_cast
  ring

/-- What a call does to the counts. -/
theorem call_counted (suid_dumpable : ℕ) (a : Answers) (call : Call) (c : Current) :
    Counted c (callStep suid_dumpable a call c).2 ∧ (callStep suid_dumpable a call c).2.nproc = c.nproc := by
  rcases callStep_effect suid_dumpable a call c with h | h
  · exact ⟨h.counted, h.nproc⟩
  · exact ⟨.inl ⟨h.uids.1, h.counted⟩, h.nproc⟩

/-- How a call moves the counts, whatever they are. -/
theorem Counted.moves {c c' : Current} (h : Counted c c') (huser : c.user = c.uid) : c'.user = c'.uid ∧
    ∀ u, c'.processes u - c.processes u = (if c'.uid = u then 1 else 0) - if c.uid = u then 1 else 0 := by
  rcases h with ⟨huid, huser', hprocesses⟩ | ⟨hne, huser', hprocesses, -⟩
  · refine ⟨by rw [huser', huser, huid], fun u => ?_⟩
    rw [hprocesses, huid, sub_self, sub_self]
  · refine ⟨huser', fun u => ?_⟩
    rw [hprocesses]
    simp only [switch_uid, huser, Function.update_apply]
    grind

theorem userStep_consistent {e : UserEvent} (h : Consistent s) (hs : userStep suid_dumpable e s = some s') :
    Consistent s' := by
  cases e with
  | test pid a call =>
    obtain ⟨-, hs⟩ := Option.ite_none_right_eq_some.1 hs
    obtain rfl := Option.some.inj hs
    exact ⟨h.user, h.processes⟩
  | switch pid =>
    unfold userStep at hs
    dsimp only at hs
    split at hs
    · next a call seen hcall =>
      obtain ⟨hpid, hs⟩ := Option.ite_none_right_eq_some.1 hs
      obtain rfl := Option.some.inj hs
      obtain ⟨huser, hmoves⟩ := (call_counted suid_dumpable a call (s.seeing pid seen)).1.moves (h.user pid hpid)
      generalize (callStep suid_dumpable a call (s.seeing pid seen)).2 = c at huser hmoves ⊢
      refine ⟨fun p hp => ?_, fun u => ?_⟩
      · by_cases hp' : p = pid
        · subst hp'
          simp only [Function.update_self]
          exact huser
        · simp only [Function.update_of_ne hp']
          exact h.user p hp
      · refine Eq.trans ?_ (tasksOf_update (s := s) hpid (by rfl) (by rfl) u).symm
        have hdelta : c.processes u - seen u =
            (if c.uid = u then 1 else 0) - if (s.task pid).uid = u then 1 else 0 := hmoves u
        show s.processes u + (c.processes u - seen u) = _
        rw [hdelta, h.processes u]
        ring
    · cases hs
  | fork pid child =>
    obtain ⟨⟨hpid, hchild, -⟩, hs⟩ := Option.ite_none_right_eq_some.1 hs
    obtain rfl := Option.some.inj hs
    have hsame : ∀ p ∈ s.tasks, Function.update s.task child (s.task pid) p = s.task p := by
      intro p hp
      have hne : p ≠ child := fun heq => hchild (heq ▸ hp)
      exact Function.update_of_ne hne _ _
    refine ⟨fun p hp => ?_, fun u => ?_⟩
    · rcases Finset.mem_insert.1 hp with rfl | hold
      · simp only [Function.update_self]
        exact h.user pid hpid
      · simp only [hsame p hold]
        exact h.user p hold
    · have hu := h.processes u
      have hothers : ∑ p ∈ s.tasks, (if (Function.update s.task child (s.task pid) p).uid = u then 1 else 0) =
          s.tasksOf u := by
        unfold UserState.tasksOf
        rw [Finset.card_filter]
        exact Finset.sum_congr rfl fun p hp => by rw [hsame p hp]
      unfold UserState.tasksOf
      rw [Finset.card_filter, Finset.sum_insert hchild, hothers]
      simp only [h.user pid hpid, Function.update_self, Function.update_apply]
      push_cast
      grind
  | exit pid =>
    obtain ⟨⟨hpid, -⟩, hs⟩ := Option.ite_none_right_eq_some.1 hs
    obtain rfl := Option.some.inj hs
    refine ⟨fun p hp => h.user p (Finset.mem_of_mem_erase hp), fun u => ?_⟩
    have hu := h.processes u
    rw [tasksOf_eq s hpid] at hu
    unfold UserState.tasksOf
    rw [Finset.card_filter]
    simp only [h.user pid hpid, Function.update_apply]
    push_cast at hu ⊢
    grind

/-! ## The limit -/

/-- The tasks with a call under way. -/
def UserState.underway (s : UserState) : Finset ℕ := s.tasks.filter fun p => s.calls p ≠ none

/-- The real id that the call under way will give the task. -/
def UserState.becomes (suid_dumpable : ℕ) (s : UserState) (p : ℕ) : Option Id :=
  (s.calls p).map fun x => (callStep suid_dumpable x.1 x.2.1 (s.seeing p x.2.2)).2.uid

/-- The tasks that are `u`'s or will be when their calls are through. -/
def UserState.claims (suid_dumpable : ℕ) (s : UserState) (u : Id) : Finset ℕ :=
  s.tasks.filter fun p => (s.task p).uid = u ∨ s.becomes suid_dumpable p = some u

theorem tasksOf_le_claims (suid_dumpable : ℕ) (s : UserState) (u : Id) :
    s.tasksOf u ≤ (s.claims suid_dumpable u).card :=
  Finset.card_le_card (Finset.monotone_filter_right _ fun _ _ h => .inl h)

theorem claims_le (suid_dumpable : ℕ) (s : UserState) (u : Id) :
    (s.claims suid_dumpable u).card ≤ s.tasksOf u + s.underway.card := by
  refine (Finset.card_le_card fun p hp => ?_).trans (Finset.card_union_le _ _)
  obtain ⟨hp, hclaim⟩ := Finset.mem_filter.1 hp
  rcases hclaim with huid | hbecomes
  · exact Finset.mem_union_left _ (Finset.mem_filter.2 ⟨hp, huid⟩)
  · refine Finset.mem_union_right _ (Finset.mem_filter.2 ⟨hp, fun hnone => ?_⟩)
    simp [UserState.becomes, hnone] at hbecomes

/-- At a test at most `others` calls are under way. -/
def Overlap (others : ℕ) (e : UserEvent) (s : UserState) : Prop :=
  match e with
  | .test _ _ _ => s.underway.card ≤ others
  | _ => True

instance (others : ℕ) (e : UserEvent) (s : UserState) : Decidable (Overlap others e s) := by
  unfold Overlap
  split <;> infer_instance

/-- No task may have more than `limit`, and the claims are bounded. -/
structure Limited (suid_dumpable limit bound : ℕ) (u : Id) (s : UserState) : Prop where
  consistent : Consistent s
  nproc : ∀ p ∈ s.tasks, (s.task p).nproc ≤ limit
  claims : (s.claims suid_dumpable u).card ≤ bound

variable {limit others bound : ℕ}

/-- A test adds a claim only where there is room. -/
theorem limited_test (h : Limited suid_dumpable limit bound u s) (hu : u ≠ 0) (hbound : limit + others ≤ bound)
    (hpid : pid ∈ s.tasks) (hfree : s.calls pid = none) (hothers : s.underway.card ≤ others) (a : Answers)
    (call : Call) : Limited suid_dumpable limit bound u
      { s with calls := Function.update s.calls pid (some (a, call, s.processes)) } := by
  refine ⟨⟨h.consistent.user, h.consistent.processes⟩, h.nproc, ?_⟩
  have hsame : ∀ p ≠ pid, UserState.becomes suid_dumpable
      { s with calls := Function.update s.calls pid (some (a, call, s.processes)) } p = s.becomes suid_dumpable p := by
    intro p hp
    simp only [UserState.becomes, UserState.seeing, Function.update_of_ne hp]
  have hcounted := (call_counted suid_dumpable a call (s.seeing pid s.processes)).1
  by_cases hmoves : (callStep suid_dumpable a call (s.seeing pid s.processes)).2.uid = u ∧ (s.task pid).uid ≠ u
  · -- `pid` is the one claim more
    have hroom : s.tasksOf u < limit := by
      rcases hcounted with ⟨huid, -⟩ | ⟨-, -, -, hroom⟩
      · exact absurd (huid.symm.trans hmoves.1) hmoves.2
      · rw [hmoves.1] at hroom
        have hlt : s.processes u < ((s.task pid).nproc : ℤ) := hroom.resolve_right hu
        rw [h.consistent.processes] at hlt
        exact (Int.ofNat_lt.1 hlt).trans_le (h.nproc pid hpid)
    have hsub : UserState.claims suid_dumpable
        { s with calls := Function.update s.calls pid (some (a, call, s.processes)) } u ⊆
          insert pid (s.claims suid_dumpable u) := by
      intro p hp
      obtain ⟨hp, hclaim⟩ := Finset.mem_filter.1 hp
      by_cases hp' : p = pid
      · exact hp' ▸ Finset.mem_insert_self _ _
      · rw [hsame p hp'] at hclaim
        exact Finset.mem_insert_of_mem (Finset.mem_filter.2 ⟨hp, hclaim⟩)
    have hcard := (Finset.card_le_card hsub).trans (Finset.card_insert_le _ _)
    have hclaims := claims_le suid_dumpable s u
    omega
  · refine (Finset.card_le_card fun p hp => ?_).trans h.claims
    obtain ⟨hp, hclaim⟩ := Finset.mem_filter.1 hp
    refine Finset.mem_filter.2 ⟨hp, ?_⟩
    by_cases hp' : p = pid
    · subst hp'
      rcases hclaim with huid | hbecomes
      · exact .inl huid
      · have hnew : (callStep suid_dumpable a call (s.seeing p s.processes)).2.uid = u := by
          simpa [UserState.becomes, UserState.seeing] using hbecomes
        exact .inl (not_not.1 fun hne => hmoves ⟨hnew, hne⟩)
    · rwa [hsame p hp'] at hclaim

/-- **One event** that is no fork. -/
theorem limited_step (hu : u ≠ 0) (hbound : limit + others ≤ bound) {e : UserEvent}
    (hfork : ∀ pid child, e ≠ .fork pid child) (hoverlap : Overlap others e s)
    (h : Limited suid_dumpable limit bound u s) (hs : userStep suid_dumpable e s = some s') :
    Limited suid_dumpable limit bound u s' := by
  have hconsistent := userStep_consistent h.consistent hs
  cases e with
  | test pid a call =>
    obtain ⟨⟨hpid, hfree⟩, hs⟩ := Option.ite_none_right_eq_some.1 hs
    obtain rfl := Option.some.inj hs
    exact limited_test h hu hbound hpid hfree hoverlap a call
  | switch pid =>
    unfold userStep at hs
    dsimp only at hs
    split at hs
    · next a call seen hcall =>
      obtain ⟨hpid, hs⟩ := Option.ite_none_right_eq_some.1 hs
      obtain rfl := Option.some.inj hs
      refine ⟨hconsistent, fun p hp => ?_, (Finset.card_le_card fun p hp => ?_).trans h.claims⟩
      · by_cases hp' : p = pid
        · subst hp'
          have hnproc := (call_counted suid_dumpable a call (s.seeing p seen)).2
          simp only [Function.update_self]
          exact hnproc ▸ h.nproc p hp
        · simp only [Function.update_of_ne hp']
          exact h.nproc p hp
      · obtain ⟨hp, hclaim⟩ := Finset.mem_filter.1 hp
        refine Finset.mem_filter.2 ⟨hp, ?_⟩
        by_cases hp' : p = pid
        · subst hp'
          simp only [UserState.becomes, Function.update_self, Option.map_none, reduceCtorEq, or_false] at hclaim
          refine .inr ?_
          rw [UserState.becomes, hcall, Option.map_some, hclaim]
        · simp only [UserState.becomes, UserState.seeing, Function.update_of_ne hp'] at hclaim
          exact hclaim
    · cases hs
  | fork pid child => exact absurd rfl (hfork pid child)
  | exit pid =>
    obtain ⟨-, hs⟩ := Option.ite_none_right_eq_some.1 hs
    obtain rfl := Option.some.inj hs
    refine ⟨hconsistent, fun p hp => h.nproc p (Finset.mem_of_mem_erase hp), le_trans ?_ h.claims⟩
    exact Finset.card_le_card (Finset.filter_subset_filter _ (Finset.erase_subset _ _))

/-- **Counts and limit.** -/
theorem nproc_law (suid_dumpable : ℕ) {s s' : UserState} {events : List UserEvent} (hs : Consistent s)
    (hrun : Run.exec (userStep suid_dumpable) events s = some s') :
    (∀ u, s'.processes u = s'.tasksOf u) ∧ ∀ limit others, (∀ p, s.calls p = none) →
      (∀ p ∈ s.tasks, (s.task p).nproc ≤ limit) → (∀ e ∈ events, ∀ pid child, e ≠ .fork pid child) →
      Run.Along (userStep suid_dumpable) (Overlap others) events s →
      ∀ u ≠ 0, s'.tasksOf u ≤ max (limit + others) (s.tasksOf u) := by
  refine ⟨(Run.invariant' (fun _ _ _ => userStep_consistent) hs hrun).processes, ?_⟩
  intro limit others hidle hlimit hforks halong u hu
  have hstart : Limited suid_dumpable limit (max (limit + others) (s.tasksOf u)) u s := by
    have hnone : s.underway = ∅ := by simp [UserState.underway, hidle]
    have hclaims := claims_le suid_dumpable s u
    rw [hnone, Finset.card_empty, Nat.add_zero] at hclaims
    exact ⟨hs, hlimit, hclaims.trans (le_max_right _ _)⟩
  have hall := Run.invariant (fun e s₁ s₂ hC hI hstep => limited_step hu (le_max_left _ _) hC.1 hC.2 hI hstep)
    (Run.along_and (Run.along_of_mem (fun e he _ => hforks e he) s) halong) hstart hrun
  exact (tasksOf_le_claims suid_dumpable s' u).trans hall.claims

/-- Two tasks of root; each may have one task. -/
def sampleUsers : UserState where
  tasks := {0, 1}
  task _ := ⟨0, 0, 0, 0, 0, 0, 0, 0, 1, 0, 1, fun _ => 0⟩
  processes u := if u = 0 then 2 else 0
  calls _ := none

/-- Both become user 1, both having found that it has no task. -/
def sampleUserEvents : List UserEvent :=
  [.test 0 ⟨.ok (), true, true, .ok ()⟩ (.setuid 1), .test 1 ⟨.ok (), true, true, .ok ()⟩ (.setuid 1),
    .switch 0, .switch 1]

/-- The limit of one task is exceeded by the one call that overlaps with another. -/
theorem nproc_law_sample : ∃ s', Run.exec (userStep 0) sampleUserEvents sampleUsers = some s' ∧
    s'.processes 1 = s'.tasksOf 1 ∧ s'.tasksOf 1 = 2 ∧ s'.tasksOf 1 ≤ max (1 + 1) (sampleUsers.tasksOf 1) := by
  have hs : Consistent sampleUsers := by
    refine ⟨by decide, fun u => ?_⟩
    have hcard : sampleUsers.tasksOf u = if u = 0 then 2 else 0 := by
      by_cases hu : u = 0
      · rw [hu]
        rfl
      · have hne : ¬ (0 : Id) = u := fun heq => hu heq.symm
        simp [UserState.tasksOf, sampleUsers, hu, hne]
    rw [hcard]
    simp [sampleUsers]
  obtain ⟨s', hrun, htwo⟩ : ∃ s', Run.exec (userStep 0) sampleUserEvents sampleUsers = some s' ∧ s'.tasksOf 1 = 2 :=
    ⟨_, rfl, by decide⟩
  have hforks : ∀ e ∈ sampleUserEvents, ∀ pid child, e ≠ UserEvent.fork pid child := by simp [sampleUserEvents]
  have halong : Run.Along (userStep 0) (Overlap 1) sampleUserEvents sampleUsers := by
    decide
  obtain ⟨hcounts, hlimit⟩ := nproc_law 0 hs hrun
  exact ⟨s', hrun, hcounts 1, htwo, hlimit 1 1 (fun _ => rfl) (by decide) hforks halong 1 (by decide)⟩

end Sys
