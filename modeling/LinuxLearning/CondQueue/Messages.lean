import LinuxLearning.CondQueue.Jobs
/-!
# `thread_mutex_cond.c`: the counter and the list under `m1`

While `m1` is free the list from `job_head1.next` has `queue_count` nodes, at most 5, and holds what has been
enqueued and not printed, in order (`Base`). The thread that holds `m1` takes this apart and puts it
together again; `Func1Ok` and `Func2Ok` say what is left of it at each statement:

* in a drain, `drained` and the nodes still linked make 5 (`Drain`), one message being between the list
  and the screen from `:162` to `:169`;
* while a node is appended it is outside the list until `temp->next = new_job`, and from then to
  `new_job->next = NULL` the list ends in it (`Filling`).

`queue_fifo` is the result for the states in which `m1` is free, and that every drain removes 5 messages;
`no_fault` says that no statement goes through a pointer to no block.
-/

namespace CondQueue

open Threads LinkedList

section
variable {α : Type*}

/-- The messages in a list of nodes. -/
def strs (l : List (Nat × Job α)) : List α := l.map fun x => x.2.str1

@[simp] theorem strs_nil : strs ([] : List (Nat × Job α)) = [] := rfl
@[simp] theorem strs_cons (x : Nat × Job α) (l : List (Nat × Job α)) :
    strs (x :: l) = x.2.str1 :: strs l := rfl
@[simp] theorem strs_append (l l' : List (Nat × Job α)) : strs (l ++ l') = strs l ++ strs l' :=
  List.map_append

/-- The nodes linked from the head, the last one to `stop`; `held` has been taken out of the list and
not been printed yet. -/
structure Shape (q : Queue α) (l : List (Nat × Job α)) (stop : Option Nat) (held : List α) : Prop where
  seg : Seg Job.next q.heap q.next l stop
  hist : q.printed ++ (held ++ strs l) = q.enqueued

/-- What holds while `m1` is free. -/
def Base (q : Queue α) : Prop :=
  ∃ l, Shape q l none [] ∧ q.queueCount = l.length ∧ l.length ≤ 5

/-- In a drain, with `left` messages still counted. -/
structure Drain (q : Queue α) (l : List (Nat × Job α)) (held : List α) (left : Nat) : Prop where
  shape : Shape q l none held
  count : q.queueCount = left
  drained : q.drained + left = 5

/-- The block at `p` is a node outside the list. -/
structure Outside (q : Queue α) (p : Option Nat) (n : Job α) (l : List (Nat × Job α)) : Prop where
  deref : q.deref p = some n
  notMem : ∀ a, p = some a → a ∉ addrs l

/-- While `newJob` is appended; `stop` is where the list ends. -/
structure Filling (q : Queue α) (newJob : Option Nat) (l : List (Nat × Job α)) (stop : Option Nat) :
    Prop where
  fresh : ∃ n, Outside q newJob n l
  shape : Shape q l stop []
  count : q.queueCount = l.length
  room : l.length < 5

def Func1Pc.holds : Func1Pc → Bool
  | .lock | .waiting => false
  | _ => true

def Func2Pc.holds : Func2Pc → Bool
  | .lock | .waiting => false
  | _ => true

/-- In the inner loop. -/
def Func1Pc.draining : Func1Pc → Bool
  | .head | .take | .unlink _ | .decr _ | .print _ | .free _ => true
  | _ => false

/-- What holds of the queue when `thread_func1` has `m1` and is about to execute a statement. -/
def Func1Ok (q : Queue α) : Func1Pc → Prop
  | .lock | .waiting => True
  | .test | .signal | .unlock => Base q
  | .wait => Base q ∧ q.queueCount < 5
  | .head => ∃ l, Drain q l [] l.length
  | .take => (∃ l, Drain q l [] l.length) ∧ q.next ≠ none
  | .unlink nextJob => (∃ l, Drain q l [] l.length) ∧ nextJob = q.next ∧ q.next ≠ none
  | .decr nextJob => ∃ n l, Outside q nextJob n l ∧ Drain q l [n.str1] (l.length + 1)
  | .print nextJob => ∃ n l, Outside q nextJob n l ∧ Drain q l [n.str1] l.length
  | .free nextJob => ∃ n l, Outside q nextJob n l ∧ Drain q l [] l.length

/-- The same for `thread_func2`. -/
def Func2Ok (q : Queue α) : Func2Pc → Prop
  | .lock | .waiting => True
  | .test | .testSignal | .unlock => Base q
  | .wait | .signal => Base q ∧ 5 ≤ q.queueCount
  | .malloc => Base q ∧ q.queueCount < 5
  | .read newJob | .isEmpty newJob => ∃ l, Filling q newJob l none
  | .setHead newJob => Filling q newJob [] none
  | .walkStart newJob => (∃ l, Filling q newJob l none) ∧ q.next ≠ none
  | .walk newJob temp => ∃ l₁ t l₂, temp = some t.1 ∧ Filling q newJob (l₁ ++ t :: l₂) none
  | .link newJob temp => ∃ l t, temp = some t.1 ∧ Filling q newJob (l ++ [t]) none
  | .setNext newJob => ∃ l, Filling q newJob l newJob
  | .incr => ∃ l, Shape q l none [] ∧ q.queueCount + 1 = l.length ∧ l.length ≤ 5

structure Inv (s : State α) : Prop where
  running : s.faulted = false
  free : s.m1 = none → Base s.q
  holds1 : s.func1.holds = true ↔ s.m1 = some .func1
  holds2 : s.func2.holds = true ↔ s.m1 = some .func2
  ok1 : Func1Ok s.q s.func1
  ok2 : Func2Ok s.q s.func2
  idle : s.func1.draining = false → s.q.drained = 0
  drains : ∀ d ∈ s.q.drains, d = 5

theorem Func1Ok.out {q : Queue α} {p : Func1Pc} (h : p.holds = false) : Func1Ok q p := by
  cases p <;> trivial

theorem Func2Ok.out {q : Queue α} {p : Func2Pc} (h : p.holds = false) : Func2Ok q p := by
  cases p <;> trivial

/-! ## The statements of `thread_func1` on the queue -/

variable {q q' : Queue α} {l : List (Nat × Job α)} {p : Option Nat} {n : Job α}

theorem Outside.exists (h : Outside q p n l) : ∃ a, p = some a ∧ q.heap a = some n ∧ a ∉ addrs l := by
  cases p with
  | none => cases h.deref
  | some a => exact ⟨a, rfl, h.deref, h.notMem a rfl⟩

theorem Outside.intro {a : Nat} (hn : q.heap a = some n) (ha : a ∉ addrs l) : Outside q (some a) n l :=
  ⟨hn, fun b hb => by cases hb; exact ha⟩

theorem Outside.congr (h : Outside q p n l) (heap : q'.heap = q.heap) : Outside q' p n l :=
  ⟨by unfold Queue.deref; rw [heap]; exact h.deref, h.notMem⟩

theorem Shape.congr {stop : Option Nat} {held : List α} (h : Shape q l stop held) (heap : q'.heap = q.heap)
    (next : q'.next = q.next) (printed : q'.printed = q.printed) (enqueued : q'.enqueued = q.enqueued) :
    Shape q' l stop held :=
  ⟨by rw [heap, next]; exact h.seg, by rw [printed, enqueued]; exact h.hist⟩

theorem Base.drain (h : Base q) (hfull : ¬ q.queueCount < 5) (hd : q.drained = 0) :
    Func1Ok q .head := by
  obtain ⟨l, hs, hc, hl⟩ := h
  exact ⟨l, hs, hc, by omega⟩

theorem Drain.end_ (h : Drain q l [] l.length) (hn : q.next = none) : q.drained = 5 ∧ Base q.drainEnd := by
  have hseg := h.shape.seg
  rw [hn] at hseg
  obtain rfl := hseg.of_none
  refine ⟨h.drained, [], ⟨?_, h.shape.hist⟩, h.count, Nat.zero_le _⟩
  exact hn

theorem Drain.unlink (h : Drain q l [] l.length) (hn : q.next ≠ none) :
    ∃ j, q.deref q.next = some j ∧ Func1Ok { q with next := j.next } (.decr q.next) := by
  obtain ⟨a, ha⟩ := Option.ne_none_iff_exists'.1 hn
  have hseg := h.shape.seg
  rw [ha] at hseg
  obtain ⟨j, l', rfl, hj, hl'⟩ := hseg.of_some
  refine ⟨j, by rw [ha]; exact hj, j, l', ?_, ⟨hl', h.shape.hist⟩, h.count, h.drained⟩
  rw [ha]
  exact .intro hj hseg.notMem_tail

theorem decr_same (q : Queue α) : q.decr.heap = q.heap ∧ q.decr.next = q.next ∧
    q.decr.printed = q.printed ∧ q.decr.enqueued = q.enqueued ∧ q.decr.drains = q.drains ∧
    q.decr.drained = q.drained + 1 := by
  unfold Queue.decr
  exact ⟨rfl, rfl, rfl, rfl, rfl, rfl⟩

/-- The counter does not wrap while there is something to remove. -/
theorem decr_count {q : Queue α} {k : Nat} (h : q.queueCount = k + 1) (hk : k < 5) :
    q.decr.queueCount = k := by
  unfold Queue.decr
  show (q.queueCount + (2 ^ 32 - 1)) % 2 ^ 32 = k
  omega

theorem incr_same (q : Queue α) : q.incr.heap = q.heap ∧ q.incr.next = q.next ∧
    q.incr.printed = q.printed ∧ q.incr.enqueued = q.enqueued ∧ q.incr.drains = q.drains ∧
    q.incr.drained = q.drained := by
  unfold Queue.incr
  exact ⟨rfl, rfl, rfl, rfl, rfl, rfl⟩

theorem incr_count {q : Queue α} (h : q.queueCount < 5) : q.incr.queueCount = q.queueCount + 1 := by
  unfold Queue.incr
  show (q.queueCount + 1) % 2 ^ 32 = q.queueCount + 1
  omega

theorem store_enqueued {q q' : Queue α} {p : Option Nat} {f : Job α → Job α} (h : q.store p f = some q') :
    q'.enqueued = q.enqueued := by
  obtain ⟨a, rfl, h⟩ := Option.bind_eq_some_iff.1 h
  obtain ⟨j, -, rfl⟩ := Option.map_eq_some_iff.1 h
  rfl

-- the lemmas above are all that is needed of the arithmetic of the counter
attribute [local irreducible] Queue.decr Queue.incr

theorem Func1Ok.decr (h : Func1Ok q (.decr p)) : Func1Ok q.decr (.print p) := by
  obtain ⟨n, l, ho, hs, hc, hd⟩ := h
  obtain ⟨h1, h2, h3, h4, -, h6⟩ := decr_same q
  refine ⟨n, l, ho.congr h1, hs.congr h1 h2 h3 h4, decr_count hc (by omega), ?_⟩
  rw [h6]; omega

theorem Func1Ok.print (h : Func1Ok q (.print p)) :
    ∃ j, q.deref p = some j ∧ Func1Ok { q with printed := q.printed ++ [j.str1] } (.free p) := by
  obtain ⟨n, l, ho, hs, hc, hd⟩ := h
  refine ⟨n, ho.deref, n, l, ⟨ho.deref, ho.notMem⟩, ⟨hs.seg, ?_⟩, hc, hd⟩
  have := hs.hist
  simpa using this

theorem Func1Ok.free (h : Func1Ok q (.free p)) :
    ∃ q', q.free p = some q' ∧ Func1Ok q' .head ∧ q'.drains = q.drains := by
  obtain ⟨n, l, ho, hs, hc, hd⟩ := h
  obtain ⟨a, rfl, ha, hl⟩ := ho.exists
  refine ⟨{ q with heap := Function.update q.heap a none }, by simp [Queue.free, ha],
    ⟨l, ⟨hs.seg.update hl none, hs.hist⟩, hc, hd⟩, rfl⟩

/-! ## The statements of `thread_func2` on the queue -/

theorem Base.malloc (h : Base q) (hc : q.queueCount < 5) {a : Nat} (ha : q.heap a = none) (g : Job α) :
    Func2Ok { q with heap := Function.update q.heap a (some g) } (.read (some a)) := by
  obtain ⟨l, hs, hl, -⟩ := h
  have hnot : a ∉ addrs l := by
    intro hm
    obtain ⟨n, hn⟩ := hs.seg.allocated hm
    rw [ha] at hn; cases hn
  exact ⟨l, ⟨g, .intro (by simp) hnot⟩, ⟨hs.seg.update hnot _, hs.hist⟩, hl, hl ▸ hc⟩

/-- A write to the node that is not in the list yet. -/
theorem Filling.store {stop : Option Nat} (h : Filling q p l stop) (f : Job α → Job α) :
    ∃ q', q.store p f = some q' ∧ Filling q' p l stop ∧ q'.drained = q.drained ∧ q'.drains = q.drains := by
  obtain ⟨⟨n, ho⟩, hs, hc, hr⟩ := h
  obtain ⟨a, rfl, ha, hl⟩ := ho.exists
  refine ⟨{ q with heap := Function.update q.heap a (some (f n)) }, by simp [Queue.store, ha],
    ⟨⟨f n, .intro (by simp) hl⟩, ⟨hs.seg.update hl _, hs.hist⟩, hc, hr⟩, rfl, rfl⟩

theorem Filling.nil (h : Filling q p l none) (hn : q.next = none) : Filling q p [] none := by
  have hseg := h.shape.seg
  rw [hn] at hseg
  obtain rfl := hseg.of_none
  exact h

theorem Filling.setHead (h : Filling q p [] none) : Filling { q with next := p } p [] p := by
  obtain ⟨⟨n, ho⟩, hs, hc, hr⟩ := h
  exact ⟨⟨n, ho.deref, ho.notMem⟩, ⟨rfl, hs.hist⟩, hc, hr⟩

theorem Filling.walkStart (h : Filling q p l none) (hn : q.next ≠ none) : Func2Ok q (.walk p q.next) := by
  obtain ⟨a, ha⟩ := Option.ne_none_iff_exists'.1 hn
  have hseg := h.shape.seg
  rw [ha] at hseg
  obtain ⟨j, l', rfl, -, -⟩ := hseg.of_some
  exact ⟨[], (a, j), l', ha, h⟩

/-- The pointer that walks is at a node of the list; it stops at the last one. -/
theorem Func2Ok.walk {temp : Option Nat} (h : Func2Ok q (.walk p temp)) :
    ∃ j, q.deref temp = some j ∧
      Func2Ok q (if j.next = none then .link p temp else .walk p j.next) := by
  obtain ⟨l₁, ⟨a, j⟩, l₂, rfl, hf⟩ := h
  obtain ⟨mid, -, -, hj, hl₂⟩ := seg_append.1 hf.shape.seg
  refine ⟨j, hj, ?_⟩
  by_cases hn : j.next = none
  · rw [if_pos hn]
    rw [hn] at hl₂
    obtain rfl := hl₂.of_none
    exact ⟨l₁, (a, j), rfl, hf⟩
  · rw [if_neg hn]
    obtain ⟨b, hb⟩ := Option.ne_none_iff_exists'.1 hn
    rw [hb] at hl₂ ⊢
    obtain ⟨m, l₃, rfl, -, -⟩ := hl₂.of_some
    exact ⟨l₁ ++ [(a, j)], (b, m), l₃, rfl, by simpa using hf⟩

theorem Func2Ok.link {temp : Option Nat} (h : Func2Ok q (.link p temp)) :
    ∃ q', q.store temp (fun j => { j with next := p }) = some q' ∧ Func2Ok q' (.setNext p) ∧
      q'.drained = q.drained ∧ q'.drains = q.drains := by
  obtain ⟨l, ⟨a, j⟩, rfl, ⟨n, ho⟩, hs, hc, hr⟩ := h
  obtain ⟨b, rfl, hb, hl⟩ := ho.exists
  obtain ⟨mid, -, -, hj, -⟩ := seg_append.1 hs.seg
  refine ⟨{ q with heap := Function.update q.heap a (some { j with next := some b }) },
    by simp [Queue.store, hj], ⟨l ++ [(a, { j with next := some b })], ⟨n, .intro ?_ ?_⟩, ⟨?_, ?_⟩, ?_, ?_⟩,
    rfl, rfl⟩
  · have hne : b ≠ a := by rintro rfl; simp at hl
    simpa [Function.update_of_ne hne] using hb
  · simpa using hl
  · exact hs.seg.relink
  · simpa using hs.hist
  · simpa using hc
  · simpa using hr

/-- The new node joins the list, and its message the history. -/
theorem Func2Ok.setNext (h : Func2Ok q (.setNext p)) :
    ∃ q', q.store p (fun j => { j with next := none }) = some q' ∧
      Func2Ok { q' with enqueued := q'.enqueued ++ (q'.deref p).toList.map Job.str1 } .incr ∧
      q'.drained = q.drained ∧ q'.drains = q.drains := by
  obtain ⟨l, ⟨n, ho⟩, hs, hc, hr⟩ := h
  obtain ⟨a, rfl, ha, hl⟩ := ho.exists
  refine ⟨{ q with heap := Function.update q.heap a (some { n with next := none }) },
    by simp [Queue.store, ha], ⟨l ++ [(a, { n with next := none })], ⟨?_, ?_⟩, ?_, ?_⟩, rfl, rfl⟩
  · exact (hs.seg.update hl _).snoc (by simp)
  · have := hs.hist
    simp only [List.nil_append] at this
    simp [Queue.deref, ← this]
  · simpa using hc
  · simp only [List.length_append, List.length_singleton]; omega

theorem Func2Ok.incr (h : Func2Ok q .incr) : Base q.incr := by
  obtain ⟨l, hs, hc, hl⟩ := h
  obtain ⟨h1, h2, h3, h4, -⟩ := incr_same q
  refine ⟨l, hs.congr h1 h2 h3 h4, ?_, hl⟩
  rw [incr_count (by omega), hc]

/-! ## Every step keeps the invariant -/

variable {s s' : State α}

theorem Inv.out1 (hI : Inv s) (hm : s.m1 ≠ some .func1) : s.func1.holds = false :=
  Bool.eq_false_iff.2 fun h => hm (hI.holds1.1 h)

theorem Inv.out2 (hI : Inv s) (hm : s.m1 ≠ some .func2) : s.func2.holds = false :=
  Bool.eq_false_iff.2 fun h => hm (hI.holds2.1 h)

theorem Inv.idleAt (hI : Inv s) {p : Func1Pc} (at_ : s.func1 = p) (hd : p.draining = false) :
    s.q.drained = 0 :=
  hI.idle (at_ ▸ hd)

/-- A thread takes `m1`, at `lock` or at the end of `pthread_cond_wait`, and goes on to its test. -/
theorem Inv.acquire1 (hI : Inv s) (hfree : s.m1 = none) {p : Func1Pc} (at_ : s.func1 = p)
    (hd : p.draining = false) : Inv { s with m1 := some .func1, func1 := .test } := by
  have hbase := hI.free hfree
  have hout := hI.out2 (by simp [hfree])
  exact ⟨hI.running, by simp, by simp [Func1Pc.holds], by simp [hout], hbase, hI.ok2, fun _ => hI.idleAt at_ hd,
    hI.drains⟩

theorem Inv.acquire2 (hI : Inv s) (hfree : s.m1 = none) :
    Inv { s with m1 := some .func2, func2 := .test } := by
  have hbase := hI.free hfree
  have hout := hI.out1 (by simp [hfree])
  exact ⟨hI.running, by simp, by simp [hout], by simp [Func2Pc.holds], hI.ok1, hbase, hI.idle, hI.drains⟩

/-- `thread_func1` gives up `m1`, at `unlock` or at the start of `pthread_cond_wait`. -/
theorem Inv.release1 (hI : Inv s) {p p' : Func1Pc} (at_ : s.func1 = p) (hold : p.holds = true) (hbase : Base s.q)
    (hd : p.draining = false) (hp : p'.holds = false) (dqCv2 : Cond Thread) :
    Inv { s with m1 := none, dqCv2 := dqCv2, func1 := p' } := by
  have hm := hI.holds1.1 (at_ ▸ hold)
  have hout := hI.out2 (by simp [hm])
  exact ⟨hI.running, fun _ => hbase, by simp [hp], by simp [hout], .out hp, hI.ok2, fun _ => hI.idleAt at_ hd,
    hI.drains⟩

theorem Inv.release2 (hI : Inv s) {p p' : Func2Pc} (at_ : s.func2 = p) (hold : p.holds = true) (hbase : Base s.q)
    (hp : p'.holds = false) (eqCv1 : Cond Thread) :
    Inv { s with m1 := none, eqCv1 := eqCv1, func2 := p' } := by
  have hm := hI.holds2.1 (at_ ▸ hold)
  have hout := hI.out1 (by simp [hm])
  exact ⟨hI.running, fun _ => hbase, by simp [hout], by simp [hp], hI.ok1, .out hp, hI.idle, hI.drains⟩

/-- `thread_func1` works on the queue under `m1`; the other thread has no claim on it. -/
theorem Inv.inside1 (hI : Inv s) (q : Queue α) {p : Func1Pc} (p' : Func1Pc) (eqCv1 : Cond Thread)
    (at_ : s.func1 = p) (hold : p.holds = true) (hp : p'.holds = true) (ok : Func1Ok q p')
    (idle : p'.draining = false → q.drained = 0) (drains : ∀ d ∈ q.drains, d = 5) :
    Inv { s with q := q, eqCv1 := eqCv1, func1 := p' } := by
  have hm := hI.holds1.1 (at_ ▸ hold)
  have hout := hI.out2 (by simp [hm])
  exact ⟨hI.running, by simp [hm], by simp [hm, hp], by simp [hm, hout], ok, .out hout, idle, drains⟩

theorem Inv.inside2 (hI : Inv s) (q : Queue α) {p : Func2Pc} (p' : Func2Pc) (dqCv2 : Cond Thread)
    (at_ : s.func2 = p) (hold : p.holds = true) (hp : p'.holds = true) (ok : Func2Ok q p')
    (drained : q.drained = s.q.drained) (drains : q.drains = s.q.drains) :
    Inv { s with q := q, dqCv2 := dqCv2, func2 := p' } := by
  have hm := hI.holds2.1 (at_ ▸ hold)
  have hout := hI.out1 (by simp [hm])
  refine ⟨hI.running, by simp [hm], by simp [hm, hout], by simp [hm, hp], .out hout, ok, ?_, ?_⟩
  · simp only [drained]; exact hI.idle
  · simp only [drains]; exact hI.drains

theorem Inv.func1_step (hI : Inv s) (h : Func1Step s s') : Inv s' := by
  have hok := hI.ok1
  cases h with
  | lock hp hfree | relock hp _ hfree => exact hI.acquire1 hfree hp rfl
  | spurious hp =>
    exact ⟨hI.running, hI.free, hI.holds1, hI.holds2, hI.ok1, hI.ok2, hI.idle, hI.drains⟩
  | few hp hc =>
    rw [hp] at hok
    exact hI.inside1 s.q .wait s.eqCv1
      hp rfl rfl ⟨hok, hc⟩ (fun _ => hI.idleAt hp rfl) hI.drains
  | full hp hc =>
    rw [hp] at hok
    have hd := hI.idleAt hp rfl
    exact hI.inside1 s.q .head s.eqCv1 hp rfl rfl (hok.drain hc hd) (fun _ => hd) hI.drains
  | wait hp =>
    rw [hp] at hok
    exact hI.release1 hp rfl hok.1 rfl rfl _
  | empty hp hn =>
    rw [hp] at hok
    obtain ⟨l, hdrain⟩ := hok
    obtain ⟨hfive, hbase⟩ := hdrain.end_ hn
    refine hI.inside1 s.q.drainEnd .signal s.eqCv1 hp rfl rfl hbase (fun _ => rfl) ?_
    intro d hd
    rcases List.mem_append.1 hd with hd | hd
    · exact hI.drains d hd
    · rw [List.mem_singleton.1 hd]; exact hfive
  | more hp hn =>
    rw [hp] at hok
    exact hI.inside1 s.q .take s.eqCv1
      hp rfl rfl ⟨hok, hn⟩ (by simp [Func1Pc.draining]) hI.drains
  | take hp =>
    rw [hp] at hok
    exact hI.inside1 s.q (.unlink s.q.next) s.eqCv1
      hp rfl rfl ⟨hok.1, rfl, hok.2⟩ (by simp [Func1Pc.draining]) hI.drains
  | unlink nextJob hp =>
    rw [hp] at hok
    obtain ⟨⟨l, hdrain⟩, rfl, hn⟩ := hok
    obtain ⟨j, hj, hok'⟩ := hdrain.unlink hn
    rw [hj]
    exact hI.inside1 { s.q with next := j.next } (.decr s.q.next) s.eqCv1
      hp rfl rfl hok' (by simp [Func1Pc.draining]) hI.drains
  | decr nextJob hp =>
    rw [hp] at hok
    refine hI.inside1 s.q.decr (.print nextJob) s.eqCv1
      hp rfl rfl hok.decr (by simp [Func1Pc.draining]) ?_
    rw [(decr_same s.q).2.2.2.2.1]; exact hI.drains
  | print nextJob hp =>
    rw [hp] at hok
    obtain ⟨j, hj, hok'⟩ := hok.print
    rw [hj]
    exact hI.inside1 { s.q with printed := s.q.printed ++ [j.str1] } (.free nextJob) s.eqCv1
      hp rfl rfl hok' (by simp [Func1Pc.draining]) hI.drains
  | free nextJob hp =>
    rw [hp] at hok
    obtain ⟨q', hq, hok', hdr⟩ := hok.free
    rw [hq]
    refine hI.inside1 q' .head s.eqCv1 hp rfl rfl hok' (by simp [Func1Pc.draining]) ?_
    rw [hdr]; exact hI.drains
  | signal hp u c hc =>
    rw [hp] at hok
    exact hI.inside1 s.q .unlock c hp rfl rfl hok (fun _ => hI.idleAt hp rfl) hI.drains
  | unlock hp =>
    rw [hp] at hok
    exact hI.release1 hp rfl hok rfl rfl s.dqCv2

theorem Inv.func2_step (hI : Inv s) (h : Func2Step s s') : Inv s' := by
  have hok := hI.ok2
  cases h with
  | lock hp hfree | relock hp _ hfree => exact hI.acquire2 hfree
  | spurious hp =>
    exact ⟨hI.running, hI.free, hI.holds1, hI.holds2, hI.ok1, hI.ok2, hI.idle, hI.drains⟩
  | full hp hc =>
    rw [hp] at hok
    exact hI.inside2 s.q .wait s.dqCv2 hp rfl rfl ⟨hok, hc⟩ rfl rfl
  | room hp hc =>
    rw [hp] at hok
    exact hI.inside2 s.q .malloc s.dqCv2 hp rfl rfl ⟨hok, by omega⟩ rfl rfl
  | wait hp =>
    rw [hp] at hok
    exact hI.release2 hp rfl hok.1 rfl _
  | malloc hp p garbage hfree =>
    rw [hp] at hok
    exact hI.inside2 _ (.read (some p)) s.dqCv2
      hp rfl rfl (hok.1.malloc hok.2 hfree garbage) rfl rfl
  | read newJob hp x =>
    rw [hp] at hok
    obtain ⟨l, hf⟩ := hok
    obtain ⟨q', hq, hf', h1, h2⟩ := hf.store fun j => { j with str1 := x }
    rw [hq]
    exact hI.inside2 q' (.isEmpty newJob) s.dqCv2 hp rfl rfl ⟨l, hf'⟩ h1 h2
  | empty newJob hp hn =>
    rw [hp] at hok
    obtain ⟨l, hf⟩ := hok
    exact hI.inside2 s.q (.setHead newJob) s.dqCv2 hp rfl rfl (hf.nil hn) rfl rfl
  | more newJob hp hn =>
    rw [hp] at hok
    exact hI.inside2 s.q (.walkStart newJob) s.dqCv2 hp rfl rfl ⟨hok, hn⟩ rfl rfl
  | setHead newJob hp =>
    rw [hp] at hok
    exact hI.inside2 { s.q with next := newJob } (.setNext newJob) s.dqCv2
      hp rfl rfl ⟨[], hok.setHead⟩ rfl rfl
  | walkStart newJob hp =>
    rw [hp] at hok
    obtain ⟨⟨l, hf⟩, hn⟩ := hok
    exact hI.inside2 s.q (.walk newJob s.q.next) s.dqCv2 hp rfl rfl (hf.walkStart hn) rfl rfl
  | walk newJob temp hp =>
    rw [hp] at hok
    obtain ⟨j, hj, hok'⟩ := hok.walk
    rw [hj]
    exact hI.inside2 s.q (if j.next = none then .link newJob temp else .walk newJob j.next) s.dqCv2
      hp rfl (by split <;> rfl) hok' rfl rfl
  | link newJob temp hp =>
    rw [hp] at hok
    obtain ⟨q', hq, hok', h1, h2⟩ := hok.link
    rw [hq]
    exact hI.inside2 q' (.setNext newJob) s.dqCv2 hp rfl rfl hok' h1 h2
  | setNext newJob hp =>
    rw [hp] at hok
    obtain ⟨q', hq, hok', h1, h2⟩ := hok.setNext
    rw [hq]
    exact hI.inside2 _ .incr s.dqCv2 hp rfl rfl hok' h1 h2
  | incr hp =>
    rw [hp] at hok
    obtain ⟨-, -, -, -, h1, h2⟩ := incr_same s.q
    exact hI.inside2 s.q.incr .testSignal s.dqCv2 hp rfl rfl hok.incr h2 h1
  | fullNow hp hc =>
    rw [hp] at hok
    exact hI.inside2 s.q .signal s.dqCv2 hp rfl rfl ⟨hok, hc⟩ rfl rfl
  | few hp _ =>
    rw [hp] at hok
    exact hI.inside2 s.q .unlock s.dqCv2 hp rfl rfl hok rfl rfl
  | signal hp u c hc =>
    rw [hp] at hok
    exact hI.inside2 s.q .unlock c hp rfl rfl hok.1 rfl rfl
  | unlock hp =>
    rw [hp] at hok
    exact hI.release2 hp rfl hok rfl s.eqCv1

/-- **Step lemma.** -/
theorem Inv.step (hI : Inv s) {a : Thread × Choice α} (h : CondQueue.step a s = some s') : Inv s' := by
  rcases step_cases h with h | h
  · exact hI.func1_step h
  · exact hI.func2_step h

theorem init_inv : Inv (State.init : State α) :=
  ⟨rfl, fun _ => ⟨[], ⟨rfl, rfl⟩, rfl, Nat.zero_le _⟩, by simp [State.init, Func1Pc.holds],
    by simp [State.init, Func2Pc.holds], trivial, trivial, fun _ => rfl, by simp [State.init]⟩

/-- **Run lemma.** -/
theorem run_inv {acts : List (Thread × Choice α)} (h : Run.exec CondQueue.step acts .init = some s) : Inv s :=
  Run.invariant' (fun _ _ _ hI hs => hI.step hs) init_inv h

/-- No statement goes through a pointer to no block. -/
theorem no_fault {acts : List (Thread × Choice α)} (h : Run.exec CondQueue.step acts .init = some s) :
    s.faulted = false :=
  (run_inv h).running

/-- **The message queue.** Whenever `m1` is free, the list from `job_head1.next` has `queue_count` nodes, at
most 5, and the messages printed followed by those in the list are the messages enqueued, in order; and
every completed drain has removed 5 messages. -/
theorem queue_fifo {acts : List (Thread × Choice α)} (h : Run.exec CondQueue.step acts .init = some s) :
    (s.m1 = none → ∃ l, Seg Job.next s.q.heap s.q.next l none ∧
      s.q.queueCount = l.length ∧ l.length ≤ 5 ∧ s.q.printed ++ strs l = s.q.enqueued) ∧
    (∀ d ∈ s.q.drains, d = 5) := by
  have hI := run_inv h
  refine ⟨fun hfree => ?_, hI.drains⟩
  obtain ⟨l, hs, hc, hl⟩ := hI.free hfree
  exact ⟨l, hs.seg, hc, hl, by simpa using hs.hist⟩

end

/-- `n` statements of thread `t`. -/
def go (t : Thread) (n : Nat) : List (Thread × Choice Nat) := List.replicate n (t, .go)

/-- `thread_func2` takes `m1`, reads a message into a block at `p` and goes on for `n` statements. -/
def enqueue (p x n : Nat) : List (Thread × Choice Nat) :=
  go .func2 2 ++ [(.func2, .malloc p ⟨0, some p⟩), (.func2, .read x)] ++ go .func2 n

/-- Five messages are enqueued while `thread_func1` waits; it is woken, drains the list and gives up `m1`;
then one more is enqueued. -/
def sampleRun : List (Thread × Choice Nat) :=
  go .func1 3 ++ enqueue 10 1 6 ++ enqueue 11 2 8 ++ enqueue 12 3 9 ++ enqueue 13 4 10 ++
    enqueue 14 5 10 ++ [(.func2, .signal (some .func1))] ++ go .func2 1 ++
    go .func1 33 ++ [(.func1, .signal none)] ++ go .func1 1 ++ enqueue 10 6 6

theorem queue_fifo_sample : ∃ s : State Nat, Run.exec step sampleRun .init = some s ∧
    s.m1 = none ∧ s.q.drains = [5] ∧ s.q.printed = [1, 2, 3, 4, 5] ∧
    ∃ l, Seg Job.next s.q.heap s.q.next l none ∧ s.q.queueCount = l.length ∧ l.length ≤ 5 ∧
      s.q.printed ++ strs l = s.q.enqueued := by
  have h : (Run.exec step sampleRun .init).map (fun s => (s.m1, s.q.drains, s.q.printed)) =
      some (none, [5], [1, 2, 3, 4, 5]) := by decide +kernel
  obtain ⟨s, hs, he⟩ := Option.map_eq_some_iff.1 h
  simp only [Prod.mk.injEq] at he
  obtain ⟨hm, hd, hp⟩ := he
  exact ⟨s, hs, hm, hd, hp, (queue_fifo hs).1 hm⟩

end CondQueue
