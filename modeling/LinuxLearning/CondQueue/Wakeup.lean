import LinuxLearning.CondQueue.Messages
/-!
# `thread_mutex_cond.c`: nobody sleeps through a wake-up

A thread in `pthread_cond_wait` that is on the list of sleepers is asleep and no wake-up is on its way.
`Wake` says why this is right: `thread_func1` sleeps on `dq_cv2` only while there are fewer than 5 messages,
except between `queue_count++` and the signal that follows it (`:261-274`); `thread_func2` sleeps on
`eq_cv1` only while there are 5, except during a drain, which ends in a signal (`:154-180`). Both
exceptions are under `m1`. A signal that finds nobody asleep is lost, but the thread that was not
asleep will test the counter before it falls asleep, since it does both under `m1`.

`no_lost_wakeup` states it for the states in which `m1` is free, and that the threads are never both
asleep.
-/

namespace CondQueue

open Threads

section
variable {α : Type*} {s s' : State α}

/-- `thread_func1` is asleep on `dq_cv2` and no wake-up is on its way. -/
def State.asleep1 (s : State α) : Prop := s.func1 = .waiting ∧ .func1 ∈ s.dqCv2.sleepers

/-- `thread_func2` is asleep on `eq_cv1` and no wake-up is on its way. -/
def State.asleep2 (s : State α) : Prop := s.func2 = .waiting ∧ .func2 ∈ s.eqCv1.sleepers

/-- Between a drain and its signal, both included. -/
def Func1Pc.willSignal (p : Func1Pc) : Bool := p.draining || p == .signal

/-- Between a new message and its signal. -/
def Func2Pc.willSignal : Func2Pc → Bool
  | .testSignal | .signal => true
  | _ => false

structure Wake (s : State α) : Prop where
  sleepers1 : s.dqCv2.sleepers = [] ∨ (s.dqCv2.sleepers = [.func1] ∧ s.func1 = .waiting)
  sleepers2 : s.eqCv1.sleepers = [] ∨ (s.eqCv1.sleepers = [.func2] ∧ s.func2 = .waiting)
  few : s.dqCv2.sleepers ≠ [] → s.q.queueCount < 5 ∨ s.func2.willSignal = true
  full : s.eqCv1.sleepers ≠ [] → 5 ≤ s.q.queueCount ∨ s.func1.willSignal = true

theorem Wake.awake1 (hW : Wake s) (h : s.func1 ≠ .waiting) : s.dqCv2.sleepers = [] :=
  hW.sleepers1.resolve_right fun hs => h hs.2

theorem Wake.awake2 (hW : Wake s) (h : s.func2 ≠ .waiting) : s.eqCv1.sleepers = [] :=
  hW.sleepers2.resolve_right fun hs => h hs.2

theorem store_count {q q' : Queue α} {p : Option Nat} {f : Job α → Job α} (h : q.store p f = some q') :
    q'.queueCount = q.queueCount := by
  cases p with
  | none => cases h
  | some a =>
    obtain ⟨j, -, rfl⟩ := Option.map_eq_some_iff.1 h
    rfl

theorem access_cases {β : Type*} (s : State α) (r : Option β) (k : β → State α) :
    s.access r k = { s with faulted := true } ∨ ∃ b, r = some b ∧ s.access r k = k b := by
  cases r with
  | none => exact .inl rfl
  | some b => exact .inr ⟨b, rfl, rfl⟩

theorem Wake.fault (hW : Wake s) : Wake { s with faulted := true } :=
  ⟨hW.sleepers1, hW.sleepers2, hW.few, hW.full⟩

/-- `thread_func1`, awake, goes on to `p`. -/
theorem Wake.move1 (hW : Wake s) (q : Queue α) (m1 : Option Thread) (p : Func1Pc)
    (awake : s.dqCv2.sleepers = [])
    (full : s.eqCv1.sleepers ≠ [] → 5 ≤ q.queueCount ∨ p.willSignal = true) :
    Wake { s with q := q, m1 := m1, func1 := p } :=
  ⟨.inl awake, hW.sleepers2, fun h => absurd awake h, full⟩

/-- `thread_func2`, awake, goes on to `p`. -/
theorem Wake.move2 (hW : Wake s) (q : Queue α) (m1 : Option Thread) (p : Func2Pc)
    (awake : s.eqCv1.sleepers = [])
    (few : s.dqCv2.sleepers ≠ [] → q.queueCount < 5 ∨ p.willSignal = true) :
    Wake { s with q := q, m1 := m1, func2 := p } :=
  ⟨hW.sleepers1, .inl awake, few, fun h => absurd awake h⟩

theorem Wake.func1_step (hI : Inv s) (hW : Wake s) (h : Func1Step s s') : Wake s' := by
  -- outside a drain a sleeping `thread_func2` means a full queue
  have hfull {p : Func1Pc} (at_ : s.func1 = p) (hp : p.willSignal = false) (h : s.eqCv1.sleepers ≠ []) :
      5 ≤ s.q.queueCount := (hW.full h).resolve_right (by simp [at_, hp])
  cases h with
  | lock hp _ =>
    exact hW.move1 s.q _ .test (hW.awake1 (by simp [hp])) fun h => .inl (hfull hp rfl h)
  | relock hp hawake _ =>
    refine hW.move1 s.q _ .test ?_ fun h => .inl (hfull hp rfl h)
    refine hW.sleepers1.resolve_right fun h => hawake ?_
    rw [h.1]; exact List.mem_singleton_self _
  | few hp _ =>
    exact hW.move1 s.q s.m1 .wait (hW.awake1 (by simp [hp])) fun h => .inl (hfull hp rfl h)
  | full hp _ => exact hW.move1 s.q s.m1 .head (hW.awake1 (by simp [hp])) fun _ => .inr rfl
  | wait hp =>
    have hok := hI.ok1
    rw [hp] at hok
    refine ⟨.inr ⟨?_, rfl⟩, hW.sleepers2, fun _ => .inl hok.2, fun h => .inl (hfull hp rfl h)⟩
    simp [Cond.sleep, hW.awake1 (by simp [hp])]
  | spurious hp =>
    have hnone : (s.dqCv2.wake .func1).sleepers = [] := by
      rcases hW.sleepers1 with h | h <;> simp [Cond.wake, h]
    exact ⟨.inl hnone, hW.sleepers2, fun h => absurd hnone h, hW.full⟩
  | empty hp _ => exact hW.move1 _ s.m1 .signal (hW.awake1 (by simp [hp])) fun _ => .inr rfl
  | more hp _ => exact hW.move1 s.q s.m1 .take (hW.awake1 (by simp [hp])) fun _ => .inr rfl
  | take hp => exact hW.move1 s.q s.m1 (.unlink s.q.next) (hW.awake1 (by simp [hp])) fun _ => .inr rfl
  | unlink nextJob hp =>
    rcases access_cases s (s.q.deref s.q.next) _ with h | ⟨j, -, h⟩ <;> rw [h]
    · exact hW.fault
    · exact hW.move1 _ s.m1 (.decr nextJob) (hW.awake1 (by simp [hp])) fun _ => .inr rfl
  | decr nextJob hp => exact hW.move1 _ s.m1 (.print nextJob) (hW.awake1 (by simp [hp])) fun _ => .inr rfl
  | print nextJob hp =>
    rcases access_cases s (s.q.deref nextJob) _ with h | ⟨j, -, h⟩ <;> rw [h]
    · exact hW.fault
    · exact hW.move1 _ s.m1 (.free nextJob) (hW.awake1 (by simp [hp])) fun _ => .inr rfl
  | free nextJob hp =>
    rcases access_cases s (s.q.free nextJob) _ with h | ⟨q, -, h⟩ <;> rw [h]
    · exact hW.fault
    · exact hW.move1 q s.m1 .head (hW.awake1 (by simp [hp])) fun _ => .inr rfl
  | signal hp u c hc =>
    have hnone := Cond.signal?_single (hW.sleepers2.imp_right And.left) hc
    have hawake := hW.awake1 (by simp [hp])
    exact ⟨.inl hawake, .inl hnone, fun h => absurd hawake h, fun h => absurd hnone h⟩
  | unlock hp =>
    exact hW.move1 s.q _ .lock (hW.awake1 (by simp [hp])) fun h => .inl (hfull hp rfl h)

theorem Wake.func2_step (hI : Inv s) (hW : Wake s) (h : Func2Step s s') : Wake s' := by
  -- unless a signal is coming, a sleeping `thread_func1` means a queue that is not full
  have hfew {p : Func2Pc} (at_ : s.func2 = p) (hp : p.willSignal = false) (h : s.dqCv2.sleepers ≠ []) :
      s.q.queueCount < 5 := (hW.few h).resolve_right (by simp [at_, hp])
  cases h with
  | lock hp _ =>
    exact hW.move2 s.q _ .test (hW.awake2 (by simp [hp])) fun h => .inl (hfew hp rfl h)
  | relock hp hawake _ =>
    refine hW.move2 s.q _ .test ?_ fun h => .inl (hfew hp rfl h)
    refine hW.sleepers2.resolve_right fun h => hawake ?_
    rw [h.1]; exact List.mem_singleton_self _
  | full hp _ =>
    exact hW.move2 s.q s.m1 .wait (hW.awake2 (by simp [hp])) fun h => .inl (hfew hp rfl h)
  | room hp _ =>
    exact hW.move2 s.q s.m1 .malloc (hW.awake2 (by simp [hp])) fun h => .inl (hfew hp rfl h)
  | wait hp =>
    have hok := hI.ok2
    rw [hp] at hok
    refine ⟨hW.sleepers1, .inr ⟨?_, rfl⟩, fun h => .inl (hfew hp rfl h), fun _ => .inl hok.2⟩
    simp [Cond.sleep, hW.awake2 (by simp [hp])]
  | spurious hp =>
    have hnone : (s.eqCv1.wake .func2).sleepers = [] := by
      rcases hW.sleepers2 with h | h <;> simp [Cond.wake, h]
    exact ⟨hW.sleepers1, .inl hnone, hW.few, fun h => absurd hnone h⟩
  | malloc hp p garbage _ =>
    exact hW.move2 _ s.m1 (.read (some p)) (hW.awake2 (by simp [hp])) fun h => .inl (hfew hp rfl h)
  | read newJob hp x =>
    rcases access_cases s (s.q.store newJob _) _ with h | ⟨q, hq, h⟩ <;> rw [h]
    · exact hW.fault
    · refine hW.move2 q s.m1 (.isEmpty newJob) (hW.awake2 (by simp [hp])) fun h => .inl ?_
      rw [store_count hq]; exact hfew hp rfl h
  | empty newJob hp _ =>
    exact hW.move2 s.q s.m1 (.setHead newJob) (hW.awake2 (by simp [hp])) fun h => .inl (hfew hp rfl h)
  | more newJob hp _ =>
    exact hW.move2 s.q s.m1 (.walkStart newJob) (hW.awake2 (by simp [hp]))
      fun h => .inl (hfew hp rfl h)
  | setHead newJob hp =>
    exact hW.move2 _ s.m1 (.setNext newJob) (hW.awake2 (by simp [hp])) fun h => .inl (hfew hp rfl h)
  | walkStart newJob hp =>
    exact hW.move2 s.q s.m1 (.walk newJob s.q.next) (hW.awake2 (by simp [hp]))
      fun h => .inl (hfew hp rfl h)
  | walk newJob temp hp =>
    rcases access_cases s (s.q.deref temp) _ with h | ⟨j, -, h⟩ <;> rw [h]
    · exact hW.fault
    · exact hW.move2 s.q s.m1 (if j.next = none then .link newJob temp else .walk newJob j.next)
        (hW.awake2 (by simp [hp])) fun h => .inl (hfew hp rfl h)
  | link newJob temp hp =>
    rcases access_cases s (s.q.store temp _) _ with h | ⟨q, hq, h⟩ <;> rw [h]
    · exact hW.fault
    · refine hW.move2 q s.m1 (.setNext newJob) (hW.awake2 (by simp [hp])) fun h => .inl ?_
      rw [store_count hq]; exact hfew hp rfl h
  | setNext newJob hp =>
    rcases access_cases s (s.q.store newJob _) _ with h | ⟨q, hq, h⟩ <;> rw [h]
    · exact hW.fault
    · refine hW.move2 _ s.m1 .incr (hW.awake2 (by simp [hp])) fun h => .inl ?_
      show q.queueCount < 5
      rw [store_count hq]; exact hfew hp rfl h
  | incr hp => exact hW.move2 _ s.m1 .testSignal (hW.awake2 (by simp [hp])) fun _ => .inr rfl
  | fullNow hp _ => exact hW.move2 s.q s.m1 .signal (hW.awake2 (by simp [hp])) fun _ => .inr rfl
  | few hp hc => exact hW.move2 s.q s.m1 .unlock (hW.awake2 (by simp [hp])) fun _ => .inl (by omega)
  | signal hp u c hc =>
    have hnone := Cond.signal?_single (hW.sleepers1.imp_right And.left) hc
    have hawake := hW.awake2 (by simp [hp])
    exact ⟨.inl hnone, .inl hawake, fun h => absurd hnone h, fun h => absurd hawake h⟩
  | unlock hp =>
    exact hW.move2 s.q _ .lock (hW.awake2 (by simp [hp])) fun h => .inl (hfew hp rfl h)

/-- **Run lemma.** -/
theorem run_wake {acts : List (Thread × Choice α)} (h : Run.exec step acts .init = some s) :
    Inv s ∧ Wake s := by
  refine Run.invariant' (I := fun s : State α => Inv s ∧ Wake s) (fun a s s' hI hs => ⟨hI.1.step hs, ?_⟩)
    ⟨init_inv, .inl rfl, .inl rfl, fun h => absurd rfl h, fun h => absurd rfl h⟩ h
  rcases step_cases hs with h | h
  · exact hI.2.func1_step hI.1 h
  · exact hI.2.func2_step hI.1 h

/-- **No lost wake-up.** Whenever `m1` is free, a `thread_func1` asleep without a wake-up on its way means
fewer than 5 messages, and a `thread_func2` asleep without one means at least 5; the two are never both
asleep without a wake-up on its way. -/
theorem no_lost_wakeup {acts : List (Thread × Choice α)} (h : Run.exec step acts .init = some s) :
    (s.m1 = none → (s.asleep1 → s.q.queueCount < 5) ∧ (s.asleep2 → 5 ≤ s.q.queueCount)) ∧
    ¬ (s.asleep1 ∧ s.asleep2) := by
  obtain ⟨hI, hW⟩ := run_wake h
  have hfew : s.m1 = none → s.asleep1 → s.q.queueCount < 5 := by
    rintro hm ⟨-, hs⟩
    refine (hW.few (List.ne_nil_of_mem hs)).resolve_right fun hp => ?_
    have hold : s.func2.holds = true := by cases h2 : s.func2 <;> rw [h2] at hp <;> first | rfl | cases hp
    rw [hI.holds2.1 hold] at hm
    cases hm
  have hfull : s.m1 = none → s.asleep2 → 5 ≤ s.q.queueCount := by
    rintro hm ⟨-, hs⟩
    refine (hW.full (List.ne_nil_of_mem hs)).resolve_right fun hp => ?_
    have hold : s.func1.holds = true := by cases h1 : s.func1 <;> rw [h1] at hp <;> first | rfl | cases hp
    rw [hI.holds1.1 hold] at hm
    cases hm
  refine ⟨fun hm => ⟨hfew hm, hfull hm⟩, ?_⟩
  rintro ⟨h1, h2⟩
  -- neither of two threads in `pthread_cond_wait` has `m1`
  have hm : s.m1 = none := by
    cases hm : s.m1 with
    | none => rfl
    | some t =>
      cases t with
      | func1 => have := hI.holds1.2 hm; rw [h1.1] at this; cases this
      | func2 => have := hI.holds2.2 hm; rw [h2.1] at this; cases this
  have hlt := hfew hm h1
  have hge := hfull hm h2
  omega

end

/-- `thread_func1` falls asleep on the empty queue and stays so while a message is enqueued. -/
theorem no_lost_wakeup_sample : ∃ s : State Nat,
    Run.exec step (go .func1 3 ++ enqueue 10 1 6) .init = some s ∧
    s.asleep1 ∧ s.q.queueCount < 5 ∧ ¬ s.asleep2 := by
  have h : (Run.exec step (go .func1 3 ++ enqueue 10 1 6) .init).map
      (fun s => (s.m1, s.func1, s.dqCv2.sleepers)) = some (none, .waiting, [.func1]) := by decide +kernel
  obtain ⟨s, hs, he⟩ := Option.map_eq_some_iff.1 h
  simp only [Prod.mk.injEq] at he
  obtain ⟨hm, hp, hl⟩ := he
  have hasleep : s.asleep1 := ⟨hp, by rw [hl]; exact List.mem_singleton_self _⟩
  exact ⟨s, hs, hasleep, ((no_lost_wakeup hs).1 hm).1 hasleep,
    fun h2 => (no_lost_wakeup hs).2 ⟨hasleep, h2⟩⟩

end CondQueue
