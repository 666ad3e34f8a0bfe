import LinuxLearning.CondQueue.Messages
/-!
# `thread_mutex_cond.c`: what `malloc` gives is freed once

A block in use is a node of the list, or a thread has it in a local variable: `next_job` from `:160` to the `free`
(`:169`), `new_job` from the `malloc` (`:235`) until it is linked and its `next` is NULL. `Owned` keeps account of them;
there are at most 5, since a message is taken in only while there are fewer than 5, under `m1`.

* `Owned.unlink`, `Owned.free`, `Owned.malloc`, `Owned.link`, `Owned.setNext` — how a block changes hands;
* `memory_law` — nothing leaks and nothing is freed that is still in the list: while `m1` is free there is a block for
  each message that has not been printed, and no other.
-/

namespace CondQueue

open Threads LinkedList

section
variable {α : Type*}

/-- The block between the list and its `free`. -/
def Func1Pc.block : Func1Pc → Option Nat
  | .decr nextJob | .print nextJob | .free nextJob => nextJob
  | _ => none

/-- The block between its `malloc` and the list. -/
def Func2Pc.block : Func2Pc → Option Nat
  | .read newJob | .isEmpty newJob | .setHead newJob | .walkStart newJob | .walk newJob _ | .link newJob _
  | .setNext newJob => newJob
  | _ => none

/-- Where the list ends. -/
def Func2Pc.stop : Func2Pc → Option Nat
  | .setNext newJob => newJob
  | _ => none

/-- A message is printed before its block is freed. -/
def Func1Pc.due : Func1Pc → Nat
  | .free _ => 1
  | _ => 0

/-- The calls of `free`. -/
def frees (a : Thread × Choice α) (s : State α) : Nat :=
  match a.1 with
  | .func1 => s.func1.due
  | .func2 => 0

/-- The blocks in use are those of the list `l`, `b₁` and `b₂`; `n` have been freed. -/
structure Owned (q : Queue α) (b₁ b₂ stop : Option Nat) (n due : Nat) (l : List (Nat × Job α)) : Prop where
  seg : Seg Job.next q.heap q.next l stop
  used : ∀ a, q.heap a ≠ none ↔ a ∈ addrs l ++ (b₁.toList ++ b₂.toList)
  nodup : (addrs l ++ (b₁.toList ++ b₂.toList)).Nodup
  few : (addrs l ++ (b₁.toList ++ b₂.toList)).length ≤ 5
  printed : q.printed.length = n + due
  enqueued : q.enqueued.length = n + (addrs l ++ b₁.toList).length

variable {q q' : Queue α} {b₁ b₂ stop p : Option Nat} {n due : Nat} {l : List (Nat × Job α)} {s s' : State α}

theorem Owned.congr (h : Owned q b₁ b₂ stop n due l) (heap : q'.heap = q.heap) (next : q'.next = q.next)
    (printed : q'.printed = q.printed) (enqueued : q'.enqueued = q.enqueued) :
    Owned q' b₁ b₂ stop n due l :=
  ⟨by rw [heap, next]; exact h.seg, by rw [heap]; exact h.used, h.nodup, h.few, by rw [printed]; exact h.printed,
    by rw [enqueued]; exact h.enqueued⟩

theorem Owned.allocated (h : Owned q b₁ b₂ stop n due l) {a : Nat}
    (ha : a ∈ addrs l ++ (b₁.toList ++ b₂.toList)) : ∃ j, q.heap a = some j :=
  Option.ne_none_iff_exists'.1 ((h.used a).2 ha)

/-- A write to a block in use. -/
theorem used_update {x : List Nat} (h : ∀ a, q.heap a ≠ none ↔ a ∈ x) {a : Nat} (ha : q.heap a ≠ none) (j : Job α) :
    ∀ b, Function.update q.heap a (some j) b ≠ none ↔ b ∈ x := by
  intro b
  rw [← h b]
  by_cases hb : b = a
  · subst hb
    simpa using ha
  · rw [Function.update_of_ne hb]

/-! ## A block changes hands -/

theorem Owned.unlink (h : Owned q none b₂ none n due l) {j : Job α} (hj : q.deref q.next = some j) :
    ∃ l', Owned { q with next := j.next } q.next b₂ none n due l' := by
  have hseg := h.seg
  cases hnext : q.next with
  | none =>
    rw [hnext] at hj
    cases hj
  | some a =>
    rw [hnext] at hj hseg
    obtain ⟨j', l', rfl, hj', hl'⟩ := hseg.of_some
    obtain rfl : j = j' := Option.some.inj (hj.symm.trans hj')
    have hperm : (addrs ((a, j) :: l') ++ (Option.toList none ++ b₂.toList)).Perm
        (addrs l' ++ ((some a).toList ++ b₂.toList)) := by
      simpa using List.perm_middle.symm
    refine ⟨l', hl', fun b => (h.used b).trans hperm.mem_iff, hperm.nodup_iff.1 h.nodup, hperm.length_eq ▸ h.few,
      h.printed, ?_⟩
    simpa using h.enqueued

theorem Owned.print (h : Owned q b₁ b₂ stop n 0 l) (x : α) :
    Owned { q with printed := q.printed ++ [x] } b₁ b₂ stop n 1 l :=
  ⟨h.seg, h.used, h.nodup, h.few, by simp [h.printed], h.enqueued⟩

theorem Owned.free {a : Nat} (h : Owned q (some a) b₂ stop n 1 l) :
    Owned { q with heap := Function.update q.heap a none } none b₂ stop (n + 1) 0 l := by
  have hperm : (addrs l ++ ((some a).toList ++ b₂.toList)).Perm
      (a :: (addrs l ++ (Option.toList none ++ b₂.toList))) := by
    simp
  obtain ⟨hnot, hnodup⟩ := List.nodup_cons.1 (hperm.nodup_iff.1 h.nodup)
  have hfew := hperm.length_eq ▸ h.few
  rw [List.length_cons] at hfew
  refine ⟨h.seg.update (fun ha => hnot (List.mem_append_left _ ha)) none, fun b => ?_, hnodup, by omega, h.printed, ?_⟩
  · by_cases hb : b = a
    · subst hb
      simpa using hnot
    · show Function.update q.heap a none b ≠ none ↔ _
      rw [Function.update_of_ne hb, h.used b, hperm.mem_iff, List.mem_cons, or_iff_right hb]
  · have := h.enqueued
    simp only [List.length_append, Option.toList_some, Option.toList_none, List.length_cons, List.length_nil] at this ⊢
    omega

theorem Owned.malloc (h : Owned q none none none n due l) (hl : l.length < 5) {a : Nat} (ha : q.heap a = none)
    (g : Job α) : Owned { q with heap := Function.update q.heap a (some g) } none (some a) none n due l := by
  have hused : ∀ b, q.heap b ≠ none ↔ b ∈ addrs l := by simpa using h.used
  have hnot : a ∉ addrs l := fun hm => (hused a).2 hm ha
  have hnodup : (addrs l).Nodup := by simpa using h.nodup
  refine ⟨h.seg.update hnot _, fun b => ?_, ?_, ?_, h.printed, h.enqueued⟩
  · show Function.update q.heap a (some g) b ≠ none ↔ _
    by_cases hb : b = a
    · subst hb
      simp
    · rw [Function.update_of_ne hb, hused b]
      simp [hb]
  · have hperm : (addrs l ++ (Option.toList none ++ (some a).toList)).Perm (a :: addrs l) := by
      simp
    exact hperm.nodup_iff.2 (List.nodup_cons.2 ⟨hnot, hnodup⟩)
  · have : (addrs l).length = l.length := List.length_map _
    simp only [Option.toList_none, Option.toList_some, List.nil_append, List.length_append, List.length_singleton]
    omega

/-- A write to the new node, before it is linked. -/
theorem Owned.store (h : Owned q b₁ p stop n due l) {f : Job α → Job α} (hq : q.store p f = some q') :
    Owned q' b₁ p stop n due l := by
  cases p with
  | none => cases hq
  | some a =>
    obtain ⟨j, hj, rfl⟩ := Option.map_eq_some_iff.1 hq
    have hnot : a ∉ addrs l := fun hm => (List.nodup_append.1 h.nodup).2.2 a hm a (by simp) rfl
    exact ⟨h.seg.update hnot _, used_update h.used (by rw [hj]; exact Option.some_ne_none j) _, h.nodup, h.few,
      h.printed, h.enqueued⟩

theorem Owned.setHead (h : Owned q b₁ p none n due l) (hn : q.next = none) :
    Owned { q with next := p } b₁ p p n due l := by
  have hseg := h.seg
  rw [hn] at hseg
  obtain rfl := hseg.of_none
  exact ⟨rfl, h.used, h.nodup, h.few, h.printed, h.enqueued⟩

theorem Owned.link {t : Nat × Job α} (h : Owned q b₁ p none n due (l ++ [t]))
    (hq : q.store (some t.1) (fun j => { j with next := p }) = some q') :
    ∃ l', Owned q' b₁ p p n due l' := by
  obtain ⟨a, j⟩ := t
  obtain ⟨j', hj', rfl⟩ := Option.map_eq_some_iff.1 hq
  obtain ⟨mid, -, -, hj, -⟩ := seg_append.1 h.seg
  obtain rfl : j = j' := Option.some.inj (hj.symm.trans hj')
  have haddrs : addrs (l ++ [(a, { j with next := p })]) = addrs (l ++ [(a, j)]) := by simp
  refine ⟨l ++ [(a, { j with next := p })], h.seg.relink, ?_, haddrs ▸ h.nodup, haddrs ▸ h.few, h.printed,
    haddrs ▸ h.enqueued⟩
  rw [haddrs]
  exact used_update h.used (by rw [hj]; exact Option.some_ne_none j) _

/-- The new node is in the list. -/
theorem Owned.setNext (h : Owned q none p p n due l) (hq : q.store p (fun j => { j with next := none }) = some q') :
    ∃ l', Owned { q' with enqueued := q'.enqueued ++ (q'.deref p).toList.map Job.str1 } none none none n due l' := by
  have h' := h.store hq
  cases p with
  | none => cases hq
  | some a =>
    obtain ⟨j, -, rfl⟩ := Option.map_eq_some_iff.1 hq
    have hperm : addrs l ++ (Option.toList none ++ (some a).toList) =
        addrs (l ++ [(a, { j with next := none })]) ++ (Option.toList none ++ Option.toList none) := by
      simp
    refine ⟨l ++ [(a, { j with next := none })], h'.seg.snoc (by simp), hperm ▸ h'.used, hperm ▸ h'.nodup,
      hperm ▸ h'.few, h'.printed, ?_⟩
    have := h.enqueued
    simp only [Option.toList_none, List.append_nil] at this
    simp [Queue.deref, this]
    omega

/-! ## Every step keeps the account -/

def Held (n : Nat) (s : State α) : Prop :=
  ∃ l, Owned s.q s.func1.block s.func2.block s.func2.stop n s.func1.due l

theorem Func1Pc.out_block {p : Func1Pc} (h : p.holds = false) : p.block = none ∧ p.due = 0 := by
  cases p <;> first | exact ⟨rfl, rfl⟩ | cases h

theorem Func2Pc.out_block {p : Func2Pc} (h : p.holds = false) : p.block = none ∧ p.stop = none := by
  cases p <;> first | exact ⟨rfl, rfl⟩ | cases h

/-- In a run a memory access finds its block. -/
theorem Inv.access {β : Type*} {r : Option β} {k : β → State α} (hI : Inv (s.access r k)) :
    ∃ b, r = some b ∧ s.access r k = k b := by
  cases r with
  | none => cases hI.running
  | some b => exact ⟨b, rfl, rfl⟩

theorem Held.func1_step (h : Held n s) (hI : Inv s) (hI' : Inv s') (hs : Func1Step s s') :
    Held (n + s.func1.due) s' := by
  obtain ⟨l, hl⟩ := h
  -- who works on the list works alone
  have hstop {p : Func1Pc} (at_ : s.func1 = p) (hold : p.holds = true) : s.func2.stop = none := by
    have hm := hI.holds1.1 (at_ ▸ hold)
    exact (Func2Pc.out_block (hI.out2 (by simp [hm]))).2
  cases hs with
  | lock hp | relock hp | few hp | full hp | wait hp | spurious hp | more hp | take hp | signal hp | unlock hp =>
    rw [hp] at hl ⊢
    exact ⟨l, hl⟩
  | empty hp =>
    rw [hp] at hl ⊢
    exact ⟨l, hl.congr rfl rfl rfl rfl⟩
  | unlink nextJob hp =>
    obtain ⟨j, hj, heq⟩ := hI'.access
    have hok := hI.ok1
    have hend := hstop hp rfl
    rw [heq]
    rw [hp] at hl hok ⊢
    rw [hend] at hl
    obtain ⟨-, rfl, -⟩ := hok
    obtain ⟨l', hl'⟩ := hl.unlink hj
    rw [← hend] at hl'
    exact ⟨l', hl'⟩
  | decr nextJob hp =>
    obtain ⟨h1, h2, h3, h4, -⟩ := decr_same s.q
    rw [hp] at hl ⊢
    exact ⟨l, hl.congr h1 h2 h3 h4⟩
  | print nextJob hp =>
    obtain ⟨j, -, heq⟩ := hI'.access
    rw [heq]
    rw [hp] at hl ⊢
    exact ⟨l, hl.print j.str1⟩
  | free nextJob hp =>
    obtain ⟨q, hq, heq⟩ := hI'.access
    have hok := hI.ok1
    rw [heq]
    rw [hp] at hl hok ⊢
    obtain ⟨j, l', ho, -⟩ := hok
    obtain ⟨a, rfl, ha, -⟩ := ho.exists
    obtain ⟨j', -, rfl⟩ := Option.map_eq_some_iff.1 hq
    exact ⟨l, hl.free⟩

theorem Held.func2_step (h : Held n s) (hI : Inv s) (hI' : Inv s') (hs : Func2Step s s') : Held n s' := by
  obtain ⟨l, hl⟩ := h
  have hok := hI.ok2
  have hblock {p : Func2Pc} (at_ : s.func2 = p) (hold : p.holds = true) : s.func1.block = none := by
    have hm := hI.holds2.1 (at_ ▸ hold)
    exact (Func1Pc.out_block (hI.out1 (by simp [hm]))).1
  cases hs with
  | lock hp | relock hp | full hp | room hp | wait hp | empty _ hp | more _ hp | walkStart _ hp | fullNow hp | few hp
  | signal hp | unlock hp =>
    rw [hp] at hl
    exact ⟨l, hl⟩
  | spurious hp => exact ⟨l, hl⟩
  | incr hp =>
    obtain ⟨h1, h2, h3, h4, -⟩ := incr_same s.q
    rw [hp] at hl
    exact ⟨l, hl.congr h1 h2 h3 h4⟩
  | malloc hp a garbage hfree =>
    have hnone := hblock hp rfl
    rw [hp] at hl hok
    rw [hnone] at hl
    obtain ⟨⟨l', hshape, hcount, -⟩, hfew⟩ := hok
    obtain rfl := seg_unique hl.seg hshape.seg
    refine ⟨l, ?_⟩
    show Owned _ s.func1.block (some a) none n s.func1.due l
    rw [hnone]
    exact hl.malloc (by omega) hfree garbage
  | read newJob hp x =>
    obtain ⟨q, hq, heq⟩ := hI'.access
    rw [heq]
    rw [hp] at hl
    exact ⟨l, hl.store hq⟩
  | setHead newJob hp =>
    rw [hp] at hl hok
    exact ⟨l, hl.setHead hok.shape.seg⟩
  | walk newJob temp hp =>
    obtain ⟨j, -, heq⟩ := hI'.access
    rw [heq]
    rw [hp] at hl
    refine ⟨l, ?_⟩
    dsimp only
    split <;> exact hl
  | link newJob temp hp =>
    obtain ⟨q, hq, heq⟩ := hI'.access
    rw [heq]
    rw [hp] at hl hok
    obtain ⟨l', t, rfl, hfilling⟩ := hok
    obtain rfl := seg_unique hl.seg hfilling.shape.seg
    exact hl.link hq
  | setNext newJob hp =>
    obtain ⟨q, hq, heq⟩ := hI'.access
    have hnone := hblock hp rfl
    rw [heq]
    rw [hp] at hl
    rw [hnone] at hl
    obtain ⟨l', hl'⟩ := hl.setNext hq
    refine ⟨l', ?_⟩
    show Owned _ s.func1.block none none n s.func1.due l'
    rw [hnone]
    exact hl'

/-- **Step lemma.** -/
theorem Held.step (h : Held n s) (hI : Inv s) {a : Thread × Choice α} (hs : CondQueue.step a s = some s') :
    Held (n + frees a s) s' := by
  have hI' := hI.step hs
  obtain ⟨t, a⟩ := a
  unfold CondQueue.step at hs
  rw [hI.running] at hs
  cases t with
  | func1 => exact h.func1_step hI hI' (func1_cases hs)
  | func2 => exact h.func2_step hI hI' (func2_cases hs)

/-- **Run lemma.** -/
theorem run_held {acts : List (Thread × Choice α)} (h : Run.exec CondQueue.step acts .init = some s) :
    Inv s ∧ Held (Run.count CondQueue.step frees acts .init) s := by
  have hinit : Held 0 (State.init : State α) := ⟨[], rfl, by simp [State.init, Func1Pc.block, Func2Pc.block],
    List.nodup_nil, by simp [State.init, Func1Pc.block, Func2Pc.block], rfl, rfl⟩
  have := Run.counted (c := frees) (I := fun n s => Inv s ∧ Held n s)
    (fun a s s' n hI hs => ⟨hI.1.step hs, hI.2.step hI.1 hs⟩) ⟨init_inv, hinit⟩ h
  rwa [Nat.zero_add] at this

/-- **Memory.** In every run at most 5 blocks are in use, and one has been freed for each message printed, except at the
`free` itself, where it is about to be. While `m1` is free the blocks in use are the nodes of the list, one for each
message enqueued and not printed. -/
theorem memory_law {acts : List (Thread × Choice α)} (h : Run.exec CondQueue.step acts .init = some s) :
    s.q.printed.length = Run.count CondQueue.step frees acts .init + s.func1.due ∧
      ∃ blocks : List Nat, blocks.Nodup ∧ blocks.length ≤ 5 ∧ (∀ a, s.q.heap a ≠ none ↔ a ∈ blocks) ∧
        (s.m1 = none → s.q.enqueued.length = s.q.printed.length + blocks.length ∧
          ∃ l, Seg Job.next s.q.heap s.q.next l none ∧ blocks = addrs l) := by
  obtain ⟨hI, l, hl⟩ := run_held h
  refine ⟨hl.printed, _, hl.nodup, hl.few, hl.used, fun hfree => ?_⟩
  obtain ⟨hb₁, hdue⟩ := Func1Pc.out_block (hI.out1 (by simp [hfree]))
  obtain ⟨hb₂, hstop⟩ := Func2Pc.out_block (hI.out2 (by simp [hfree]))
  have henqueued := hl.enqueued
  have hprinted := hl.printed
  rw [hb₁] at henqueued
  rw [hdue] at hprinted
  rw [hb₁, hb₂]
  simp only [Option.toList_none, List.append_nil] at henqueued ⊢
  exact ⟨by omega, l, hstop ▸ hl.seg, rfl⟩

end

/-- One message is left. -/
theorem memory_law_sample : ∃ s : State Nat, Run.exec step sampleRun .init = some s ∧
    ∃ p, ∀ a, s.q.heap a ≠ none ↔ a = p := by
  have h : (Run.exec step sampleRun .init).map (fun s => (s.m1, s.q.printed.length, s.q.enqueued.length)) =
      some (none, 5, 6) := by decide +kernel
  obtain ⟨s, hs, he⟩ := Option.map_eq_some_iff.1 h
  simp only [Prod.mk.injEq] at he
  obtain ⟨hm, hprinted, henqueued⟩ := he
  obtain ⟨-, blocks, -, -, hused, hfree⟩ := memory_law hs
  obtain ⟨p, rfl⟩ := List.length_eq_one_iff.1 (show blocks.length = 1 by have := (hfree hm).1; omega)
  exact ⟨s, hs, p, fun a => (hused a).trans List.mem_singleton⟩

end CondQueue
