import LinuxLearning.CondQueue.Memory
import LinuxLearning.CondQueue.Wakeup
/-!
# `thread_mutex_cond.c`: messages keep coming

Neither thread waits in a loop of its own: one that finds nothing to do sleeps, and is woken once there is. `State.rank`
counts what the threads can do before the next message is linked into the list. Each message brings the 18 steps that a
drain needs for it at most, and what follows its `queue_count++`; a thread pays for the wake-up it sends.

* `rank_func1`, `rank_func2` — one step costs one unit at least;
* `can_go` — one of the threads can go on, without a wake-up that nobody sent;
* `progress_law` — so a run is as long as the messages it prints allow, whatever the scheduler does.
-/

namespace CondQueue

open Threads LinkedList

section
variable {α : Type*}

/-- The nodes from `p` on, up to `n`. -/
def Queue.nodes (q : Queue α) : Nat → Option Nat → Nat
  | 0, _ => 0
  | n + 1, p => match q.deref p with
    | none => 0
    | some j => q.nodes n j.next + 1

/-- `thread_func1` outside of `m1` and awake; a drain lies ahead if there are 5 messages. -/
def lockRank1 (count : Nat) : Nat := if count < 5 then 3 else 20

/-- `thread_func2` outside of `m1` and awake; a message is taken in if there are fewer than 5. -/
def lockRank2 (count : Nat) : Nat := if count < 5 then 12 else 3

def Func1Pc.rank (count : Nat) (asleep : Bool) : Func1Pc → Nat
  | .lock => lockRank1 count
  | .waiting => if asleep then 0 else lockRank1 count
  | .test => lockRank1 count - 1
  | .wait => 1
  | .head => 18
  | .take => 17
  | .unlink _ => 16
  | .decr _ => 15
  | .print _ => 20
  | .free _ => 19
  | .signal => lockRank1 count + 14
  | .unlock => lockRank1 count + 1

def Func2Pc.rank (q : Queue α) (asleep : Bool) : Func2Pc → Nat
  | .lock => lockRank2 q.queueCount
  | .waiting => if asleep then 0 else lockRank2 q.queueCount
  | .test => lockRank2 q.queueCount - 1
  | .wait => 1
  | .malloc => 10
  | .read _ => 9
  | .isEmpty _ => 8
  | .walkStart _ => 7
  | .walk _ temp => q.nodes 4 temp + 2
  | .setHead _ | .link _ _ => 2
  | .setNext _ => 1
  | .incr => 65
  | .testSignal => lockRank2 q.queueCount + 23
  | .signal => lockRank2 q.queueCount + 22
  | .unlock => lockRank2 q.queueCount + 1

def State.rank (s : State α) : Nat :=
  18 * s.q.queueCount + s.func1.rank s.q.queueCount (decide (.func1 ∈ s.dqCv2.sleepers)) +
    s.func2.rank s.q (decide (.func2 ∈ s.eqCv1.sleepers))

/-- A wake-up that nobody sent. -/
def spurious (a : Thread × Choice α) : Bool :=
  match a.2 with
  | .spurious => true
  | _ => false

variable {q q' : Queue α} {s s' : State α} {a : Choice α}

theorem nodes_le (q : Queue α) (n : Nat) (p : Option Nat) : q.nodes n p ≤ n := by
  induction n generalizing p with
  | zero => exact Nat.le_refl 0
  | succ n ih =>
    unfold Queue.nodes
    split
    · exact Nat.zero_le _
    · exact Nat.succ_le_succ (ih _)

theorem nodes_seg {l : List (Nat × Job α)} {p : Option Nat} {n : Nat} (h : Seg Job.next q.heap p l none)
    (hl : l.length ≤ n) : q.nodes n p = l.length := by
  induction l generalizing p n with
  | nil =>
    obtain rfl := h
    cases n <;> rfl
  | cons x l ih =>
    obtain ⟨a, j⟩ := x
    obtain ⟨rfl, hj, hseg⟩ := h
    cases n with
    | zero => cases hl
    | succ n =>
      have hderef : q.deref (some a) = some j := hj
      unfold Queue.nodes
      rw [hderef, List.length_cons]
      exact congrArg (· + 1) (ih hseg (Nat.le_of_succ_le_succ hl))

theorem lockRank1_le (count : Nat) : lockRank1 count ≤ 20 := by
  unfold lockRank1
  split <;> omega

theorem lockRank2_le (count : Nat) : lockRank2 count ≤ 12 := by
  unfold lockRank2
  split <;> omega

theorem Func1Pc.rank_out {p : Func1Pc} (h : p.holds = false) (count : Nat) (asleep : Bool) :
    p.rank count asleep ≤ lockRank1 count := by
  cases p with
  | lock => exact Nat.le_refl _
  | waiting =>
    cases asleep with
    | true => exact Nat.zero_le _
    | false => exact Nat.le_refl _
  | _ => cases h

theorem Func2Pc.rank_out {p : Func2Pc} (h : p.holds = false) (q : Queue α) (asleep : Bool) :
    p.rank q asleep ≤ lockRank2 q.queueCount := by
  cases p with
  | lock => exact Nat.le_refl _
  | waiting =>
    cases asleep with
    | true => exact Nat.zero_le _
    | false => exact Nat.le_refl _
  | _ => cases h

/-- Outside of `m1` only the counter matters. -/
theorem Func2Pc.rank_congr {r : Queue α} {p : Func2Pc} (h : p.holds = false)
    (hcount : r.queueCount = q.queueCount) (asleep : Bool) :
    p.rank r asleep = p.rank q asleep := by
  cases p with
  | lock | waiting => simp only [Func2Pc.rank, hcount]
  | _ => cases h

/-! ## What a step costs -/

theorem func1_waiting (hs : func1Step a s = some s') (hp : s.func1 = .waiting) :
    a = .spurious ∧ s' = { s with dqCv2 := s.dqCv2.wake .func1 } ∨
      .func1 ∉ s.dqCv2.sleepers ∧ s' = { s with m1 := some .func1, func1 := .test } := by
  unfold func1Step at hs
  rw [hp] at hs
  cases a with
  | spurious =>
    obtain ⟨-, h⟩ := Option.ite_none_right_eq_some.1 hs
    exact .inl ⟨rfl, by rw [← Option.some.inj h, ← hp]⟩
  | go =>
    obtain ⟨hawake, h⟩ := Option.ite_none_left_eq_some.1 hs
    obtain ⟨m, hm, rfl⟩ := Option.map_eq_some_iff.1 h
    obtain ⟨-, rfl⟩ := lock?_eq_some.1 hm
    exact .inr ⟨hawake, rfl⟩
  | malloc | read | signal => cases hs

theorem func2_waiting (hs : func2Step a s = some s') (hp : s.func2 = .waiting) :
    a = .spurious ∧ s' = { s with eqCv1 := s.eqCv1.wake .func2 } ∨
      .func2 ∉ s.eqCv1.sleepers ∧ s' = { s with m1 := some .func2, func2 := .test } := by
  unfold func2Step at hs
  rw [hp] at hs
  cases a with
  | spurious =>
    obtain ⟨-, h⟩ := Option.ite_none_right_eq_some.1 hs
    exact .inl ⟨rfl, by rw [← Option.some.inj h, ← hp]⟩
  | go =>
    obtain ⟨hawake, h⟩ := Option.ite_none_left_eq_some.1 hs
    obtain ⟨m, hm, rfl⟩ := Option.map_eq_some_iff.1 h
    obtain ⟨-, rfl⟩ := lock?_eq_some.1 hm
    exact .inr ⟨hawake, rfl⟩
  | malloc | read | signal => cases hs

/-- What a wake-up that nobody sent can bring about. -/
def windfall (a : Thread × Choice α) : Nat := if spurious a then 21 else 0

theorem rank_func1 (hI : Inv s) (hI' : Inv s') (hs : func1Step a s = some s') :
    s'.rank + 65 * s.q.enqueued.length + 1 ≤ s.rank + 65 * s'.q.enqueued.length + windfall (.func1, a) := by
  have hok := hI.ok1
  by_cases hp : s.func1 = .waiting
  · rcases func1_waiting hs hp with ⟨rfl, rfl⟩ | ⟨hawake, rfl⟩
    · have hle := Func1Pc.rank_out (p := .waiting) rfl s.q.queueCount (decide (.func1 ∈ (s.dqCv2.wake .func1).sleepers))
      have h20 := lockRank1_le s.q.queueCount
      simp only [State.rank, hp, windfall, spurious, if_true]
      omega
    · simp only [State.rank, hp, Func1Pc.rank, hawake, decide_false, Bool.false_eq_true, if_false, lockRank1]
      split <;> omega
  have hout {p : Func1Pc} (at_ : s.func1 = p) (hold : p.holds = true) : s.func2.holds = false := by
    have hm := hI.holds1.1 (at_ ▸ hold)
    exact hI.out2 (by simp [hm])
  cases func1_cases hs with
  | relock at_ => exact absurd at_ hp
  | spurious at_ => exact absurd at_ hp
  | lock at_ =>
    simp only [State.rank, at_, Func1Pc.rank, lockRank1]
    split <;> omega
  | few at_ hc =>
    simp only [State.rank, at_, Func1Pc.rank, lockRank1, if_pos hc]
    omega
  | full at_ hc =>
    simp only [State.rank, at_, Func1Pc.rank, lockRank1, if_neg hc]
    omega
  | wait at_ =>
    have hasleep : Thread.func1 ∈ (s.dqCv2.sleep .func1).sleepers := List.mem_cons_self
    simp only [State.rank, at_, Func1Pc.rank, hasleep, decide_true, if_true]
    omega
  | empty at_ hn =>
    rw [at_] at hok
    obtain ⟨l, hdrain⟩ := hok
    have hseg := hdrain.shape.seg
    rw [hn] at hseg
    obtain rfl := hseg.of_none
    have hcount : s.q.queueCount = 0 := hdrain.count
    have hsame := Func2Pc.rank_congr (r := s.q.drainEnd) (q := s.q) (hout at_ rfl) rfl
      (decide (.func2 ∈ s.eqCv1.sleepers))
    have hcount' : s.q.drainEnd.queueCount = 0 := hcount
    have henqueued : s.q.drainEnd.enqueued = s.q.enqueued := rfl
    have hthree : lockRank1 0 = 3 := rfl
    simp only [State.rank, at_, Func1Pc.rank, hsame, hcount, hcount', henqueued, hthree]
    omega
  | more at_ | take at_ | unlock at_ =>
    simp only [State.rank, at_, Func1Pc.rank]
    omega
  | unlink nextJob at_ =>
    obtain ⟨j, -, heq⟩ := hI'.access
    rw [heq]
    have hsame := Func2Pc.rank_congr (r := { s.q with next := j.next }) (q := s.q) (hout at_ rfl) rfl
      (decide (.func2 ∈ s.eqCv1.sleepers))
    simp only [State.rank, at_, Func1Pc.rank, hsame]
    omega
  | decr nextJob at_ =>
    rw [at_] at hok
    obtain ⟨n, l, -, hdrain⟩ := hok
    have hleft := hdrain.drained
    have hcount := decr_count hdrain.count (by omega)
    have henqueued := (decr_same s.q).2.2.2.1
    have hrank := Func2Pc.rank_out (hout at_ rfl) s.q.decr (decide (.func2 ∈ s.eqCv1.sleepers))
    have h12 := lockRank2_le s.q.decr.queueCount
    simp only [State.rank, at_, Func1Pc.rank, henqueued]
    rw [hcount] at hrank h12 ⊢
    rw [hdrain.count]
    omega
  | print nextJob at_ =>
    obtain ⟨j, -, heq⟩ := hI'.access
    rw [heq]
    have hsame := Func2Pc.rank_congr (r := { s.q with printed := s.q.printed ++ [j.str1] }) (q := s.q)
      (hout at_ rfl) rfl (decide (.func2 ∈ s.eqCv1.sleepers))
    simp only [State.rank, at_, Func1Pc.rank, hsame]
    omega
  | free nextJob at_ =>
    obtain ⟨q', hq, heq⟩ := hI'.access
    rw [heq]
    have hfree : q'.queueCount = s.q.queueCount ∧ q'.enqueued = s.q.enqueued := by
      cases nextJob with
      | none =>
        obtain rfl := Option.some.inj hq
        exact ⟨rfl, rfl⟩
      | some a =>
        obtain ⟨j, -, rfl⟩ := Option.map_eq_some_iff.1 hq
        exact ⟨rfl, rfl⟩
    have hsame := Func2Pc.rank_congr (hout at_ rfl) hfree.1 (decide (.func2 ∈ s.eqCv1.sleepers))
    simp only [State.rank, at_, Func1Pc.rank, hsame, hfree.1, hfree.2]
    omega
  | signal at_ u c hc =>
    have hrank := Func2Pc.rank_out (hout at_ rfl) s.q (decide (.func2 ∈ c.sleepers))
    have h12 := lockRank2_le s.q.queueCount
    simp only [State.rank, at_, Func1Pc.rank]
    omega

theorem rank_func2 (hI : Inv s) (hI' : Inv s') (hs : func2Step a s = some s') :
    s'.rank + 65 * s.q.enqueued.length + 1 ≤ s.rank + 65 * s'.q.enqueued.length + windfall (.func2, a) := by
  have hok := hI.ok2
  by_cases hp : s.func2 = .waiting
  · rcases func2_waiting hs hp with ⟨rfl, rfl⟩ | ⟨hawake, rfl⟩
    · have hle := Func2Pc.rank_out (p := .waiting) rfl s.q (decide (.func2 ∈ (s.eqCv1.wake .func2).sleepers))
      have h12 := lockRank2_le s.q.queueCount
      simp only [State.rank, hp, windfall, spurious, if_true]
      omega
    · simp only [State.rank, hp, Func2Pc.rank, hawake, decide_false, Bool.false_eq_true, if_false, lockRank2]
      split <;> omega
  have hout {p : Func2Pc} (at_ : s.func2 = p) (hold : p.holds = true) : s.func1.holds = false := by
    have hm := hI.holds2.1 (at_ ▸ hold)
    exact hI.out1 (by simp [hm])
  cases func2_cases hs with
  | relock at_ => exact absurd at_ hp
  | spurious at_ => exact absurd at_ hp
  | lock at_ =>
    simp only [State.rank, at_, Func2Pc.rank, lockRank2]
    split <;> omega
  | full at_ hc =>
    simp only [State.rank, at_, Func2Pc.rank, lockRank2, if_neg (Nat.not_lt.2 hc)]
    omega
  | room at_ hc =>
    simp only [State.rank, at_, Func2Pc.rank, lockRank2, if_pos (Nat.not_le.1 hc)]
    omega
  | wait at_ =>
    have hasleep : Thread.func2 ∈ (s.eqCv1.sleep .func2).sleepers := List.mem_cons_self
    simp only [State.rank, at_, Func2Pc.rank, hasleep, decide_true, if_true]
    omega
  | malloc at_ | empty _ at_ | more _ at_ | setHead _ at_ =>
    simp only [State.rank, at_, Func2Pc.rank]
    omega
  | read newJob at_ x =>
    obtain ⟨q', hq, heq⟩ := hI'.access
    rw [heq]
    simp only [State.rank, at_, Func2Pc.rank, store_count hq, store_enqueued hq]
    omega
  | walkStart newJob at_ =>
    have hfour := nodes_le s.q 4 s.q.next
    simp only [State.rank, at_, Func2Pc.rank]
    omega
  | walk newJob temp at_ =>
    obtain ⟨j, hj, heq⟩ := hI'.access
    rw [heq]
    rw [at_] at hok
    obtain ⟨l₁, ⟨a, j'⟩, l₂, rfl, hfilling⟩ := hok
    obtain ⟨mid, -, rfl, hj', hl₂⟩ := seg_append.1 hfilling.shape.seg
    obtain rfl : j = j' := Option.some.inj (hj.symm.trans hj')
    have hroom := hfilling.room
    rw [List.length_append, List.length_cons] at hroom
    have hhere : s.q.nodes 4 (some a) = l₂.length + 1 :=
      nodes_seg (l := (a, j) :: l₂) ⟨rfl, hj', hl₂⟩ (by rw [List.length_cons]; omega)
    have hnext : s.q.nodes 4 j.next = l₂.length := nodes_seg hl₂ (by omega)
    by_cases hlast : j.next = none
    · simp only [State.rank, at_, if_pos hlast, Func2Pc.rank, hhere]
      omega
    · simp only [State.rank, at_, if_neg hlast, Func2Pc.rank, hhere, hnext]
      omega
  | link newJob temp at_ =>
    obtain ⟨q', hq, heq⟩ := hI'.access
    rw [heq]
    simp only [State.rank, at_, Func2Pc.rank, store_count hq, store_enqueued hq]
    omega
  | setNext newJob at_ =>
    obtain ⟨q', hq, heq⟩ := hI'.access
    rw [heq]
    have hcount := store_count hq
    have henqueued := store_enqueued hq
    obtain ⟨j, hj⟩ : ∃ j, q'.deref newJob = some j := by
      cases newJob with
      | none => cases hq
      | some a =>
        obtain ⟨j, -, rfl⟩ := Option.map_eq_some_iff.1 hq
        exact ⟨_, Function.update_self ..⟩
    simp only [State.rank, at_, Func2Pc.rank, hcount, henqueued, hj, Option.toList_some, List.map_singleton,
      List.length_append, List.length_singleton]
    omega
  | incr at_ =>
    rw [at_] at hok
    obtain ⟨l, -, hcount, hl⟩ := hok
    have hcount' := incr_count (q := s.q) (by omega)
    have henqueued := (incr_same s.q).2.2.2.1
    have hrank := Func1Pc.rank_out (hout at_ rfl) s.q.incr.queueCount (decide (.func1 ∈ s.dqCv2.sleepers))
    have hboth : lockRank1 s.q.incr.queueCount + lockRank2 s.q.incr.queueCount ≤ 23 := by
      unfold lockRank1 lockRank2
      split <;> omega
    simp only [State.rank, at_, Func2Pc.rank, henqueued]
    omega
  | fullNow at_ | few at_ | unlock at_ =>
    simp only [State.rank, at_, Func2Pc.rank]
    omega
  | signal at_ u c hc =>
    have hrank := Func1Pc.rank_out (hout at_ rfl) s.q.queueCount (decide (.func1 ∈ c.sleepers))
    have h20 := lockRank1_le s.q.queueCount
    simp only [State.rank, at_, Func2Pc.rank]
    omega

theorem rank_step (hI : Inv s) {a : Thread × Choice α} (hs : step a s = some s') :
    s'.rank + 65 * s.q.enqueued.length + 1 ≤ s.rank + 65 * s'.q.enqueued.length + windfall a := by
  have hI' := hI.step hs
  obtain ⟨t, a⟩ := a
  unfold step at hs
  rw [hI.running] at hs
  cases t with
  | func1 => exact rank_func1 hI hI' hs
  | func2 => exact rank_func2 hI hI' hs

theorem sum_windfall (acts : List (Thread × Choice α)) :
    (acts.map windfall).sum = 21 * acts.countP spurious := by
  induction acts with
  | nil => rfl
  | cons a acts ih =>
    rw [List.map_cons, List.sum_cons, ih, List.countP_cons, windfall]
    split <;> omega

/-! ## One of the threads can go on -/

/-- Who has `m1` is not blocked. -/
theorem func1_goes (hI : Inv s) (hW : Wake s) (hm : s.m1 = some .func1) :
    ∃ a s', spurious (.func1, a) = false ∧ func1Step a s = some s' := by
  have hold := hI.holds1.2 hm
  cases hp : s.func1 with
  | lock | waiting =>
    rw [hp] at hold
    cases hold
  | signal =>
    rcases hW.sleepers2 with hnone | ⟨hone, -⟩
    · exact ⟨.signal none, _, rfl, by simp only [func1Step, hp, Cond.signal?, if_pos hnone]; rfl⟩
    · exact ⟨.signal (some .func2), _, rfl, by simp only [func1Step, hp, Cond.signal?, hone, List.mem_singleton]; rfl⟩
  | _ => exact ⟨.go, _, rfl, by simp only [func1Step, hp]; rfl⟩

theorem func2_goes [Inhabited α] {n : Nat} (hI : Inv s) (hW : Wake s) (hheld : Held n s) (hm : s.m1 = some .func2) :
    ∃ a s', spurious (.func2, a) = false ∧ func2Step a s = some s' := by
  have hold := hI.holds2.2 hm
  cases hp : s.func2 with
  | lock | waiting =>
    rw [hp] at hold
    cases hold
  | malloc =>
    -- there are addresses left
    obtain ⟨l, hl⟩ := hheld
    obtain ⟨p, hnew⟩ := Infinite.exists_notMem_finset
      (addrs l ++ (s.func1.block.toList ++ s.func2.block.toList)).toFinset
    rw [List.mem_toFinset, ← hl.used p, not_not] at hnew
    exact ⟨.malloc p ⟨default, none⟩, _, rfl, by simp only [func2Step, hp, hnew, Option.isNone_none, if_true]; rfl⟩
  | read newJob => exact ⟨.read default, _, rfl, by simp only [func2Step, hp]; rfl⟩
  | signal =>
    rcases hW.sleepers1 with hnone | ⟨hone, -⟩
    · exact ⟨.signal none, _, rfl, by simp only [func2Step, hp, Cond.signal?, if_pos hnone]; rfl⟩
    · exact ⟨.signal (some .func1), _, rfl, by simp only [func2Step, hp, Cond.signal?, hone, List.mem_singleton]; rfl⟩
  | _ => exact ⟨.go, _, rfl, by simp only [func2Step, hp]; rfl⟩

/-- While `m1` is free, a thread that is not asleep can take it. -/
theorem func1_takes (hI : Inv s) (hm : s.m1 = none) (hawake : ¬ s.asleep1) : ∃ s', func1Step .go s = some s' := by
  have hout := hI.out1 (by simp [hm])
  cases hp : s.func1 with
  | lock => exact ⟨_, by simp only [func1Step, hp, hm, lock?, if_true]; rfl⟩
  | waiting =>
    have hsleepers : .func1 ∉ s.dqCv2.sleepers := fun h => hawake ⟨hp, h⟩
    exact ⟨_, by simp only [func1Step, hp, if_neg hsleepers, hm, lock?, if_true]; rfl⟩
  | _ =>
    rw [hp] at hout
    cases hout

theorem func2_takes (hI : Inv s) (hm : s.m1 = none) (hawake : ¬ s.asleep2) : ∃ s', func2Step .go s = some s' := by
  have hout := hI.out2 (by simp [hm])
  cases hp : s.func2 with
  | lock => exact ⟨_, by simp only [func2Step, hp, hm, lock?, if_true]; rfl⟩
  | waiting =>
    have hsleepers : .func2 ∉ s.eqCv1.sleepers := fun h => hawake ⟨hp, h⟩
    exact ⟨_, by simp only [func2Step, hp, if_neg hsleepers, hm, lock?, if_true]; rfl⟩
  | _ =>
    rw [hp] at hout
    cases hout

theorem can_go [Inhabited α] {n : Nat} (hI : Inv s) (hW : Wake s) (hheld : Held n s)
    (hboth : ¬ (s.asleep1 ∧ s.asleep2)) : ∃ a s', spurious a = false ∧ step a s = some s' := by
  have hfirst {a : Choice α} : step (.func1, a) s = func1Step a s := by
    unfold step
    rw [hI.running]
    rfl
  have hsecond {a : Choice α} : step (.func2, a) s = func2Step a s := by
    unfold step
    rw [hI.running]
    rfl
  cases hm : s.m1 with
  | none =>
    by_cases hasleep : s.asleep1
    · obtain ⟨s', hs⟩ := func2_takes hI hm fun h => hboth ⟨hasleep, h⟩
      exact ⟨(.func2, .go), s', rfl, hsecond.trans hs⟩
    · obtain ⟨s', hs⟩ := func1_takes hI hm hasleep
      exact ⟨(.func1, .go), s', rfl, hfirst.trans hs⟩
  | some t =>
    cases t with
    | func1 =>
      obtain ⟨a, s', hreal, hs⟩ := func1_goes hI hW hm
      exact ⟨(.func1, a), s', hreal, hfirst.trans hs⟩
    | func2 =>
      obtain ⟨a, s', hreal, hs⟩ := func2_goes hI hW hheld hm
      exact ⟨(.func2, a), s', hreal, hsecond.trans hs⟩

/-- **Progress.** In every state of every run one of the threads can go on, without a wake-up that nobody sent. A run
that has printed `n` messages and had `k` such wake-ups has not taken more than `65 * n + 21 * k + 340` steps: the
threads cannot go on without printing. -/
theorem progress_law [Inhabited α] {acts : List (Thread × Choice α)} (h : Run.exec step acts .init = some s) :
    (∃ a s', spurious a = false ∧ step a s = some s') ∧
      acts.length ≤ 65 * s.q.printed.length + 21 * acts.countP spurious + 340 := by
  obtain ⟨hI, hW⟩ := run_wake h
  obtain ⟨-, l, hl⟩ := run_held h
  refine ⟨can_go hI hW ⟨l, hl⟩ (no_lost_wakeup h).2, ?_⟩
  have hcost := Run.amortized (I := Inv) (V := State.rank) (W := fun s : State α => 65 * s.q.enqueued.length)
    (g := windfall) (fun a s s' hI hs => ⟨hI.step hs, rank_step hI hs⟩) init_inv h
  have hinit : (State.init : State α).rank = 15 := rfl
  have henqueued : s.q.enqueued.length ≤ s.q.printed.length + 5 := by
    have hfew := hl.few
    have hprinted := hl.printed
    rw [← List.append_assoc, List.length_append] at hfew
    have := hl.enqueued
    omega
  rw [sum_windfall, hinit] at hcost
  simp only [State.init, List.length_nil] at hcost
  omega

end

/-- `thread_func1` sleeps on the empty queue. -/
theorem progress_law_sample : ∃ s : State Nat, Run.exec step (go .func1 3) .init = some s ∧ s.asleep1 ∧
    ∃ a s', spurious a = false ∧ step a s = some s' := by
  obtain ⟨s, hs, hasleep⟩ : ∃ s : State Nat, Run.exec step (go .func1 3) .init = some s ∧ s.asleep1 :=
    ⟨_, rfl, rfl, List.mem_singleton_self _⟩
  exact ⟨s, hs, hasleep, (progress_law hs).1⟩

end CondQueue
