import LinuxLearning.Lib.Threads
import LinuxLearning.Lib.LinkedList
/-!
# `thread_mutex_cond.c`: a message queue with a mutex and two condition variables

`thread_func2` appends messages to a linked list, one under each lock of `m1`, and waits on `eq_cv1` while
there are 5; `thread_func1` waits on `dq_cv2` while there are fewer than 5 and then empties the list.

| here | there (`Examples/Threads/thread_mutex_cond.c`) |
| --- | --- |
| `Job`        | `struct job` (`:116-120`) |
| `Queue`      | `job_head1` (`:109-113`) and the heap, with the history of the queue |
| `Func1Pc`    | `lock` `:131`, `test` `:142`, `wait` and, inside the call, `waiting` `:143`, `head` `:154`, `take` `:161`, `unlink` `:162`, `decr` `:167`, `print` `:169`, `free` `:170`, `signal` `:180`, `unlock` `:185` |
| `Func2Pc`    | `lock` `:203`, `test` `:231`, `wait` and `waiting` `:232`, `malloc` `:235`, `read` `:237`, `isEmpty` `:243`, `setHead` `:245`, `walkStart` `:250`, `walk` `:251-252`, `link` `:253`, `setNext` `:246` or `:254`, `incr` `:261`, `testSignal` `:273`, `signal` `:274`, `unlock` `:283` |
| `State`      | the queue, `m1`, `eq_cv1`, `dq_cv2`; the locals `next_job`, `new_job`, `temp` stand in the control points |
| `func1Step`  | `thread_func1` (`:125-190`) |
| `func2Step`  | `thread_func2` (`:194-296`) |
| `State.init` | after `main` has set up the head, the mutex and the condition variables (`:315-363`) |

A pointer is an `Option Nat`, `none` being NULL; `malloc` (`:235`), which is not checked, gives a block that
is not in use, with anything in it. A read, write or `free` through a pointer to no block sets `faulted`.
`queue_count` is an `unsigned int`. What `read` (`:237`) puts into `str1` is a message, whatever it is.

`pthread_cond_wait` is two steps: it gives up `m1` and falls asleep at once; it returns with `m1` locked,
after a signal or of its own accord (`Choice.spurious`).
-/

namespace CondQueue

open Threads

inductive Thread where
  | func1
  | func2
deriving DecidableEq, Repr

structure Job (α : Type*) where
  str1 : α
  next : Option Nat
deriving DecidableEq, Repr

/-- The next statement of `thread_func1`. -/
inductive Func1Pc where
  | lock
  | test
  | wait
  | waiting
  | head
  | take
  | unlink (nextJob : Option Nat)
  | decr (nextJob : Option Nat)
  | print (nextJob : Option Nat)
  | free (nextJob : Option Nat)
  | signal
  | unlock
deriving DecidableEq, Repr

/-- The next statement of `thread_func2`. -/
inductive Func2Pc where
  | lock
  | test
  | wait
  | waiting
  | malloc
  | read (newJob : Option Nat)
  | isEmpty (newJob : Option Nat)
  | setHead (newJob : Option Nat)
  | walkStart (newJob : Option Nat)
  | walk (newJob temp : Option Nat)
  | link (newJob temp : Option Nat)
  | setNext (newJob : Option Nat)
  | incr
  | testSignal
  | signal
  | unlock
deriving DecidableEq, Repr

/-- What the scheduler and the outside world choose: the block that `malloc` returns and what is in it, the message that
`read` stores, the thread that `pthread_cond_signal` wakes. A `spurious` wake-up has been sent by nobody. -/
inductive Choice (α : Type*) where
  | go
  | spurious
  | malloc (p : Nat) (garbage : Job α)
  | read (x : α)
  | signal (u : Option Thread)
deriving DecidableEq, Repr

/-- What `m1` guards: `job_head1` and the heap. The last four fields are history: the messages linked
into the list and printed, how many the drain under way has removed, and how many each completed drain
has. -/
structure Queue (α : Type*) where
  queueCount : Nat
  next : Option Nat
  heap : Nat → Option (Job α)
  enqueued : List α
  printed : List α
  drained : Nat
  drains : List Nat

structure State (α : Type*) where
  q : Queue α
  m1 : Option Thread
  eqCv1 : Cond Thread
  dqCv2 : Cond Thread
  func1 : Func1Pc
  func2 : Func2Pc
  faulted : Bool

section
variable {α : Type*}

/-- `*p`, if there is a block at `p`. -/
def Queue.deref (q : Queue α) (p : Option Nat) : Option (Job α) := p.bind q.heap

/-- `*p` is changed by `f`, if there is a block at `p`. -/
def Queue.store (q : Queue α) (p : Option Nat) (f : Job α → Job α) : Option (Queue α) :=
  p.bind fun a => (q.heap a).map fun j => { q with heap := Function.update q.heap a (some (f j)) }

/-- `free(p)`, if `p` is NULL or there is a block at `p`. -/
def Queue.free (q : Queue α) : Option Nat → Option (Queue α)
  | none => some q
  | some a => (q.heap a).map fun _ => { q with heap := Function.update q.heap a none }

/-- `job_head1.queue_count--` of an `unsigned int`, one message removed. -/
def Queue.decr (q : Queue α) : Queue α :=
  { q with queueCount := (q.queueCount + (2 ^ 32 - 1)) % 2 ^ 32, drained := q.drained + 1 }

/-- `job_head1.queue_count++`. -/
def Queue.incr (q : Queue α) : Queue α := { q with queueCount := (q.queueCount + 1) % 2 ^ 32 }

/-- The inner loop of `thread_func1` ends. -/
def Queue.drainEnd (q : Queue α) : Queue α := { q with drains := q.drains ++ [q.drained], drained := 0 }

/-- The step goes on with what a memory access gives; without a block there it is a fault. -/
def State.access (s : State α) {β : Type*} (r : Option β) (k : β → State α) : State α :=
  match r with
  | none => { s with faulted := true }
  | some b => k b

def func1Step (a : Choice α) (s : State α) : Option (State α) :=
  match s.func1, a with
  | .lock, .go => (lock? .func1 s.m1).map fun l => { s with m1 := l, func1 := .test }
  | .test, .go => some { s with func1 := if s.q.queueCount < 5 then .wait else .head }
  | .wait, .go => some { s with m1 := none, dqCv2 := s.dqCv2.sleep .func1, func1 := .waiting }
  | .waiting, .spurious =>
    if .func1 ∈ s.dqCv2.sleepers then some { s with dqCv2 := s.dqCv2.wake .func1 } else none
  | .waiting, .go =>
    if .func1 ∈ s.dqCv2.sleepers then none
    else (lock? .func1 s.m1).map fun l => { s with m1 := l, func1 := .test }
  | .head, .go =>
    some (if s.q.next = none then { s with q := s.q.drainEnd, func1 := .signal } else { s with func1 := .take })
  | .take, .go => some { s with func1 := .unlink s.q.next }
  | .unlink nextJob, .go =>
    some (s.access (s.q.deref s.q.next) fun j =>
      { s with q := { s.q with next := j.next }, func1 := .decr nextJob })
  | .decr nextJob, .go => some { s with q := s.q.decr, func1 := .print nextJob }
  | .print nextJob, .go =>
    some (s.access (s.q.deref nextJob) fun j =>
      { s with q := { s.q with printed := s.q.printed ++ [j.str1] }, func1 := .free nextJob })
  | .free nextJob, .go => some (s.access (s.q.free nextJob) fun q => { s with q := q, func1 := .head })
  | .signal, .signal u => (s.eqCv1.signal? u).map fun c => { s with eqCv1 := c, func1 := .unlock }
  | .unlock, .go => some { s with m1 := none, func1 := .lock }
  | _, _ => none

def func2Step (a : Choice α) (s : State α) : Option (State α) :=
  match s.func2, a with
  | .lock, .go => (lock? .func2 s.m1).map fun l => { s with m1 := l, func2 := .test }
  | .test, .go => some { s with func2 := if 5 ≤ s.q.queueCount then .wait else .malloc }
  | .wait, .go => some { s with m1 := none, eqCv1 := s.eqCv1.sleep .func2, func2 := .waiting }
  | .waiting, .spurious =>
    if .func2 ∈ s.eqCv1.sleepers then some { s with eqCv1 := s.eqCv1.wake .func2 } else none
  | .waiting, .go =>
    if .func2 ∈ s.eqCv1.sleepers then none
    else (lock? .func2 s.m1).map fun l => { s with m1 := l, func2 := .test }
  | .malloc, .malloc p garbage =>
    if (s.q.heap p).isNone then
      some { s with
        q := { s.q with heap := Function.update s.q.heap p (some garbage) }
        func2 := .read (some p) }
    else none
  | .read newJob, .read x =>
    some (s.access (s.q.store newJob fun j => { j with str1 := x }) fun q =>
      { s with q := q, func2 := .isEmpty newJob })
  | .isEmpty newJob, .go =>
    some { s with func2 := if s.q.next = none then .setHead newJob else .walkStart newJob }
  | .setHead newJob, .go => some { s with q := { s.q with next := newJob }, func2 := .setNext newJob }
  | .walkStart newJob, .go => some { s with func2 := .walk newJob s.q.next }
  | .walk newJob temp, .go =>
    some (s.access (s.q.deref temp) fun j =>
      { s with func2 := if j.next = none then .link newJob temp else .walk newJob j.next })
  | .link newJob temp, .go =>
    some (s.access (s.q.store temp fun j => { j with next := newJob }) fun q =>
      { s with q := q, func2 := .setNext newJob })
  | .setNext newJob, .go =>
    some (s.access (s.q.store newJob fun j => { j with next := none }) fun q =>
      { s with
        q := { q with enqueued := q.enqueued ++ (q.deref newJob).toList.map Job.str1 }
        func2 := .incr })
  | .incr, .go => some { s with q := s.q.incr, func2 := .testSignal }
  | .testSignal, .go => some { s with func2 := if 5 ≤ s.q.queueCount then .signal else .unlock }
  | .signal, .signal u => (s.dqCv2.signal? u).map fun c => { s with dqCv2 := c, func2 := .unlock }
  | .unlock, .go => some { s with m1 := none, func2 := .lock }
  | _, _ => none

/-- One step of one thread. -/
def step (a : Thread × Choice α) (s : State α) : Option (State α) :=
  if s.faulted then none else
  match a.1 with
  | .func1 => func1Step a.2 s
  | .func2 => func2Step a.2 s

def State.init : State α :=
  ⟨⟨0, none, fun _ => none, [], [], 0, []⟩, none, ⟨[]⟩, ⟨[]⟩, .lock, .lock, false⟩

/-! ## The steps, one by one -/

/-- What `thread_func1` can do in `s`. -/
inductive Func1Step (s : State α) : State α → Prop where
  | lock (at_ : s.func1 = .lock) (free : s.m1 = none) :
      Func1Step s { s with m1 := some .func1, func1 := .test }
  | relock (at_ : s.func1 = .waiting) (awake : .func1 ∉ s.dqCv2.sleepers) (free : s.m1 = none) :
      Func1Step s { s with m1 := some .func1, func1 := .test }
  | few (at_ : s.func1 = .test) (h : s.q.queueCount < 5) : Func1Step s { s with func1 := .wait }
  | full (at_ : s.func1 = .test) (h : ¬ s.q.queueCount < 5) : Func1Step s { s with func1 := .head }
  | wait (at_ : s.func1 = .wait) :
      Func1Step s { s with m1 := none, dqCv2 := s.dqCv2.sleep .func1, func1 := .waiting }
  | spurious (at_ : s.func1 = .waiting) : Func1Step s { s with dqCv2 := s.dqCv2.wake .func1 }
  | empty (at_ : s.func1 = .head) (h : s.q.next = none) :
      Func1Step s { s with q := s.q.drainEnd, func1 := .signal }
  | more (at_ : s.func1 = .head) (h : s.q.next ≠ none) : Func1Step s { s with func1 := .take }
  | take (at_ : s.func1 = .take) : Func1Step s { s with func1 := .unlink s.q.next }
  | unlink (nextJob) (at_ : s.func1 = .unlink nextJob) :
      Func1Step s (s.access (s.q.deref s.q.next) fun j =>
        { s with q := { s.q with next := j.next }, func1 := .decr nextJob })
  | decr (nextJob) (at_ : s.func1 = .decr nextJob) :
      Func1Step s { s with q := s.q.decr, func1 := .print nextJob }
  | print (nextJob) (at_ : s.func1 = .print nextJob) :
      Func1Step s (s.access (s.q.deref nextJob) fun j =>
        { s with q := { s.q with printed := s.q.printed ++ [j.str1] }, func1 := .free nextJob })
  | free (nextJob) (at_ : s.func1 = .free nextJob) :
      Func1Step s (s.access (s.q.free nextJob) fun q => { s with q := q, func1 := .head })
  | signal (at_ : s.func1 = .signal) (u) (c) (h : s.eqCv1.signal? u = some c) :
      Func1Step s { s with eqCv1 := c, func1 := .unlock }
  | unlock (at_ : s.func1 = .unlock) : Func1Step s { s with m1 := none, func1 := .lock }

/-- What `thread_func2` can do in `s`. -/
inductive Func2Step (s : State α) : State α → Prop where
  | lock (at_ : s.func2 = .lock) (free : s.m1 = none) :
      Func2Step s { s with m1 := some .func2, func2 := .test }
  | relock (at_ : s.func2 = .waiting) (awake : .func2 ∉ s.eqCv1.sleepers) (free : s.m1 = none) :
      Func2Step s { s with m1 := some .func2, func2 := .test }
  | full (at_ : s.func2 = .test) (h : 5 ≤ s.q.queueCount) : Func2Step s { s with func2 := .wait }
  | room (at_ : s.func2 = .test) (h : ¬ 5 ≤ s.q.queueCount) : Func2Step s { s with func2 := .malloc }
  | wait (at_ : s.func2 = .wait) :
      Func2Step s { s with m1 := none, eqCv1 := s.eqCv1.sleep .func2, func2 := .waiting }
  | spurious (at_ : s.func2 = .waiting) : Func2Step s { s with eqCv1 := s.eqCv1.wake .func2 }
  | malloc (at_ : s.func2 = .malloc) (p) (garbage) (unused : s.q.heap p = none) :
      Func2Step s { s with
        q := { s.q with heap := Function.update s.q.heap p (some garbage) }
        func2 := .read (some p) }
  | read (newJob) (at_ : s.func2 = .read newJob) (x : α) :
      Func2Step s (s.access (s.q.store newJob fun j => { j with str1 := x }) fun q =>
        { s with q := q, func2 := .isEmpty newJob })
  | empty (newJob) (at_ : s.func2 = .isEmpty newJob) (h : s.q.next = none) :
      Func2Step s { s with func2 := .setHead newJob }
  | more (newJob) (at_ : s.func2 = .isEmpty newJob) (h : s.q.next ≠ none) :
      Func2Step s { s with func2 := .walkStart newJob }
  | setHead (newJob) (at_ : s.func2 = .setHead newJob) :
      Func2Step s { s with q := { s.q with next := newJob }, func2 := .setNext newJob }
  | walkStart (newJob) (at_ : s.func2 = .walkStart newJob) :
      Func2Step s { s with func2 := .walk newJob s.q.next }
  | walk (newJob temp) (at_ : s.func2 = .walk newJob temp) :
      Func2Step s (s.access (s.q.deref temp) fun j =>
        { s with func2 := if j.next = none then .link newJob temp else .walk newJob j.next })
  | link (newJob temp) (at_ : s.func2 = .link newJob temp) :
      Func2Step s (s.access (s.q.store temp fun j => { j with next := newJob }) fun q =>
        { s with q := q, func2 := .setNext newJob })
  | setNext (newJob) (at_ : s.func2 = .setNext newJob) :
      Func2Step s (s.access (s.q.store newJob fun j => { j with next := none }) fun q =>
        { s with
          q := { q with enqueued := q.enqueued ++ (q.deref newJob).toList.map Job.str1 }
          func2 := .incr })
  | incr (at_ : s.func2 = .incr) : Func2Step s { s with q := s.q.incr, func2 := .testSignal }
  | fullNow (at_ : s.func2 = .testSignal) (h : 5 ≤ s.q.queueCount) : Func2Step s { s with func2 := .signal }
  | few (at_ : s.func2 = .testSignal) (h : ¬ 5 ≤ s.q.queueCount) : Func2Step s { s with func2 := .unlock }
  | signal (at_ : s.func2 = .signal) (u) (c) (h : s.dqCv2.signal? u = some c) :
      Func2Step s { s with dqCv2 := c, func2 := .unlock }
  | unlock (at_ : s.func2 = .unlock) : Func2Step s { s with m1 := none, func2 := .lock }

variable {s s' : State α}

theorem func1_cases {a : Choice α} (h : func1Step a s = some s') : Func1Step s s' := by
  unfold func1Step at h
  split at h
  · next hp =>
    obtain ⟨l, hl, rfl⟩ := Option.map_eq_some_iff.1 h
    obtain ⟨hfree, rfl⟩ := lock?_eq_some.1 hl
    exact .lock hp hfree
  · next hp =>
    obtain rfl := Option.some.inj h
    split
    · next hc => exact .few hp hc
    · next hc => exact .full hp hc
  · next hp => obtain rfl := Option.some.inj h; exact .wait hp
  · next hp =>
    split at h
    · obtain rfl := Option.some.inj h; exact .spurious hp
    · cases h
  · next hp =>
    split at h
    · cases h
    · next hawake =>
      obtain ⟨l, hl, rfl⟩ := Option.map_eq_some_iff.1 h
      obtain ⟨hfree, rfl⟩ := lock?_eq_some.1 hl
      exact .relock hp hawake hfree
  · next hp =>
    obtain rfl := Option.some.inj h
    split
    · next hn => exact .empty hp hn
    · next hn => exact .more hp hn
  · next hp => obtain rfl := Option.some.inj h; exact .take hp
  · next hp => obtain rfl := Option.some.inj h; exact .unlink _ hp
  · next hp => obtain rfl := Option.some.inj h; exact .decr _ hp
  · next hp => obtain rfl := Option.some.inj h; exact .print _ hp
  · next hp => obtain rfl := Option.some.inj h; exact .free _ hp
  · next hp => obtain ⟨c, hc, rfl⟩ := Option.map_eq_some_iff.1 h; exact .signal hp _ c hc
  · next hp => obtain rfl := Option.some.inj h; exact .unlock hp
  · cases h

theorem func2_cases {a : Choice α} (h : func2Step a s = some s') : Func2Step s s' := by
  unfold func2Step at h
  split at h
  · next hp =>
    obtain ⟨l, hl, rfl⟩ := Option.map_eq_some_iff.1 h
    obtain ⟨hfree, rfl⟩ := lock?_eq_some.1 hl
    exact .lock hp hfree
  · next hp =>
    obtain rfl := Option.some.inj h
    split
    · next hc => exact .full hp hc
    · next hc => exact .room hp hc
  · next hp => obtain rfl := Option.some.inj h; exact .wait hp
  · next hp =>
    split at h
    · obtain rfl := Option.some.inj h; exact .spurious hp
    · cases h
  · next hp =>
    split at h
    · cases h
    · next hawake =>
      obtain ⟨l, hl, rfl⟩ := Option.map_eq_some_iff.1 h
      obtain ⟨hfree, rfl⟩ := lock?_eq_some.1 hl
      exact .relock hp hawake hfree
  · next hp =>
    split at h
    · next hu => obtain rfl := Option.some.inj h; exact .malloc hp _ _ (Option.isNone_iff_eq_none.1 hu)
    · cases h
  · next hp => obtain rfl := Option.some.inj h; exact .read _ hp _
  · next hp =>
    obtain rfl := Option.some.inj h
    split
    · next hn => exact .empty _ hp hn
    · next hn => exact .more _ hp hn
  · next hp => obtain rfl := Option.some.inj h; exact .setHead _ hp
  · next hp => obtain rfl := Option.some.inj h; exact .walkStart _ hp
  · next hp => obtain rfl := Option.some.inj h; exact .walk _ _ hp
  · next hp => obtain rfl := Option.some.inj h; exact .link _ _ hp
  · next hp => obtain rfl := Option.some.inj h; exact .setNext _ hp
  · next hp => obtain rfl := Option.some.inj h; exact .incr hp
  · next hp =>
    obtain rfl := Option.some.inj h
    split
    · next hc => exact .fullNow hp hc
    · next hc => exact .few hp hc
  · next hp => obtain ⟨c, hc, rfl⟩ := Option.map_eq_some_iff.1 h; exact .signal hp _ c hc
  · next hp => obtain rfl := Option.some.inj h; exact .unlock hp
  · cases h

theorem step_cases {a : Thread × Choice α} (h : step a s = some s') : Func1Step s s' ∨ Func2Step s s' := by
  obtain ⟨t, a⟩ := a
  unfold step at h
  split at h
  · cases h
  cases t with
  | func1 => exact .inl (func1_cases h)
  | func2 => exact .inr (func2_cases h)

end

end CondQueue
