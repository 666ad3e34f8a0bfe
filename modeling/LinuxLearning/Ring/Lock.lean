import LinuxLearning.Ring.SharedMemory
/-!
# The lock of the ring, in `a1_a.c` and in `a1_p.c` with `a1_c.c`

`exclusion_law` (`SharedMemory.lean`) is about the semaphore number that the programs use and the set does not have.
Here the number is taken to be right: the semaphore is 1 when the loops begin, and a decrement blocks while it is 0.

| here | there |
| --- | --- |
| `producerStep` | the producer's loop (`a1_a.c:66-86`, `a1_p.c:39-55`) |
| `consumerStep` | the consumer's loop (`a1_a.c:34-53`, `a1_c.c:43-61`) |

The producer of `a1_a.c` reads its character under the lock, that of `a1_p.c` before it; the rest is the same, and
what is printed is left out. The
`continue` of a pass that finds the ring empty or full (`a1_a.c:41`, `:73`, `a1_p.c:47`, `a1_c.c:50`) goes back to the
decrement without the increment.

* `lock_law` — the lock is given back in all passes exactly as long as no consumer finds the ring empty and no
  producer finds it full;
* `nobody_enters` — after that nobody gets the lock any more.
-/

namespace Ring.Lock

/-- `a1_a.c`, or `a1_p.c` with `a1_c.c`. -/
inductive Program
  | a1_a
  | a1_p_c
deriving DecidableEq, Repr

/-- The next statement of the producer. -/
inductive ProducerPc
  | scanf
  /-- the first `semop` -/
  | decrement
  /-- `if(shma->in==shma->out && shma->count==shma->size)` -/
  | full
  | store | moveOut | addCount
  /-- the second `semop` -/
  | increment
deriving DecidableEq, Repr

/-- The next statement of the consumer. -/
inductive ConsumerPc
  | decrement
  /-- `if(shma->count==0)` -/
  | empty
  | print | moveIn | subCount
  | increment
deriving DecidableEq, Repr

structure State (α : Type*) where
  shma : Shmem α
  sem : ℕ
  ret : α
  producer : ProducerPc
  consumer : ConsumerPc

/-- What the scheduler and the input choose; `char` is what `scanf` reads, if anything. -/
inductive Choice (α : Type*)
  | producer (char : Option α)
  | consumer

/-- Where a pass of the producer begins. -/
def Program.top : Program → ProducerPc
  | .a1_a => .decrement
  | .a1_p_c => .scanf

/-- Where the producer goes when there is room. -/
def Program.room : Program → ProducerPc
  | .a1_a => .scanf
  | .a1_p_c => .store

/-- Where it goes with its character. -/
def Program.scanned : Program → ProducerPc
  | .a1_a => .store
  | .a1_p_c => .decrement

section

variable {α : Type*}

def producerStep (prog : Program) (char : Option α) (s : State α) : Option (State α) :=
  match s.producer with
  | .scanf => some { s with ret := char.getD s.ret, producer := prog.scanned }
  | .decrement => if 0 < s.sem then some { s with sem := s.sem - 1, producer := .full } else none
  | .full =>
    some { s with
      producer := if s.shma.in = s.shma.out ∧ s.shma.count = s.shma.size then prog.top else prog.room }
  | .store =>
    some { s with
      shma := { s.shma with a := Function.update s.shma.a s.shma.out s.ret }, producer := .moveOut }
  | .moveOut =>
    some { s with shma := { s.shma with out := (s.shma.out + 1) % s.shma.size }, producer := .addCount }
  | .addCount => some { s with shma := { s.shma with count := s.shma.count + 1 }, producer := .increment }
  | .increment => some { s with sem := s.sem + 1, producer := prog.top }

def consumerStep (s : State α) : Option (State α) :=
  match s.consumer with
  | .decrement => if 0 < s.sem then some { s with sem := s.sem - 1, consumer := .empty } else none
  | .empty => some { s with consumer := if s.shma.count = 0 then .decrement else .print }
  | .print => some { s with consumer := .moveIn }
  | .moveIn =>
    some { s with shma := { s.shma with «in» := (s.shma.in + 1) % s.shma.size }, consumer := .subCount }
  | .subCount => some { s with shma := { s.shma with count := s.shma.count - 1 }, consumer := .increment }
  | .increment => some { s with sem := s.sem + 1, consumer := .decrement }

def step (prog : Program) : Choice α → State α → Option (State α)
  | .producer char, s => producerStep prog char s
  | .consumer, s => consumerStep s

/-- The loops begin; the segment may hold anything, and so may `ret`. -/
def start (prog : Program) (a : ℤ → α) (ret : α) : State α :=
  ⟨⟨a, 0, 50, 0, 0⟩, 1, ret, prog.top, .decrement⟩

/-- 1 between the decrement and the end of the pass. -/
def ProducerPc.holds (prog : Program) : ProducerPc → ℕ
  | .scanf => if prog = .a1_a then 1 else 0
  | .decrement => 0
  | .full | .store | .moveOut | .addCount | .increment => 1

def ConsumerPc.holds : ConsumerPc → ℕ
  | .decrement => 0
  | .empty | .print | .moveIn | .subCount | .increment => 1

/-- The semaphore, and who has the lock. -/
def locks (prog : Program) (s : State α) : ℕ := s.sem + s.producer.holds prog + s.consumer.holds

/-- What is asked of the lock: it is in the semaphore or with one process, and the processes do not both wait for it. -/
structure GivenBack (prog : Program) (s : State α) : Prop where
  one : locks prog s = 1
  notStuck : ¬ (s.producer = .decrement ∧ s.consumer = .decrement ∧ s.sem = 0)

/-- A consumer that looks finds a character, a producer that looks finds room. -/
def Finds (c : Choice α) (s : State α) : Prop :=
  match c with
  | .producer _ => s.producer = .full → ¬ (s.shma.in = s.shma.out ∧ s.shma.count = s.shma.size)
  | .consumer => s.consumer = .empty → s.shma.count ≠ 0

/-! ## One step -/

variable {prog : Program} {s s' : State α} {c : Choice α}

theorem holds_top (prog : Program) : prog.top.holds prog = 0 := by cases prog <;> rfl

theorem holds_room (prog : Program) : prog.room.holds prog = 1 := by cases prog <;> rfl

theorem holds_scanned (prog : Program) : prog.scanned.holds prog = ProducerPc.scanf.holds prog := by
  cases prog <;> rfl

/-- **One step** moves the lock, or gives it up: a pass that ends at its `continue`. -/
theorem locks_step (hs : step prog c s = some s') :
    (Finds c s ∧ locks prog s' = locks prog s) ∨ (¬ Finds c s ∧ locks prog s' + 1 = locks prog s) := by
  cases c with
  | producer char =>
    simp only [step, producerStep] at hs
    unfold Finds locks
    split at hs
    · next hpc =>
      cases hs
      simp [hpc, holds_scanned]
    · next hpc =>
      rw [Option.ite_none_right_eq_some] at hs
      obtain ⟨hpos, hs⟩ := hs
      cases hs
      refine .inl ⟨by simp [hpc], ?_⟩
      simp only [hpc, ProducerPc.holds]
      omega
    · next hpc =>
      cases hs
      have hbefore : s.producer.holds prog = 1 := by rw [hpc]; rfl
      by_cases hfull : s.shma.in = s.shma.out ∧ s.shma.count = s.shma.size
      · refine .inr ⟨by simp [hpc, hfull], ?_⟩
        simp only [if_pos hfull, holds_top, hbefore]
        omega
      · refine .inl ⟨fun _ => hfull, ?_⟩
        simp only [if_neg hfull, holds_room, hbefore]
    · next hpc =>
      cases hs
      simp [hpc, ProducerPc.holds]
    · next hpc =>
      cases hs
      simp [hpc, ProducerPc.holds]
    · next hpc =>
      cases hs
      simp [hpc, ProducerPc.holds]
    · next hpc =>
      cases hs
      have hbefore : s.producer.holds prog = 1 := by rw [hpc]; rfl
      refine .inl ⟨by simp [hpc], ?_⟩
      simp only [holds_top, hbefore]
  | consumer =>
    simp only [step, consumerStep] at hs
    unfold Finds locks
    split at hs
    · next hpc =>
      rw [Option.ite_none_right_eq_some] at hs
      obtain ⟨hpos, hs⟩ := hs
      cases hs
      refine .inl ⟨by simp [hpc], ?_⟩
      simp only [hpc, ConsumerPc.holds]
      omega
    · next hpc =>
      cases hs
      by_cases hempty : s.shma.count = 0
      · refine .inr ⟨by simp [hpc, hempty], ?_⟩
        simp only [hpc, if_pos hempty, ConsumerPc.holds]
      · refine .inl ⟨fun _ => hempty, ?_⟩
        simp only [hpc, if_neg hempty, ConsumerPc.holds]
    · next hpc =>
      cases hs
      simp [hpc, ConsumerPc.holds]
    · next hpc =>
      cases hs
      simp [hpc, ConsumerPc.holds]
    · next hpc =>
      cases hs
      simp [hpc, ConsumerPc.holds]
    · next hpc =>
      cases hs
      refine .inl ⟨by simp [hpc], ?_⟩
      simp only [hpc, ConsumerPc.holds]
      omega

theorem finds_of_none (c : Choice α) (s : State α) (hs : step prog c s = none) : Finds c s := by
  cases c with
  | producer char =>
    intro hpc
    simp [step, producerStep, hpc] at hs
  | consumer =>
    intro hpc
    simp [step, consumerStep, hpc] at hs

theorem givenBack_iff : GivenBack prog s ↔ locks prog s = 1 := by
  refine ⟨fun h => h.one, fun hone => ⟨hone, ?_⟩⟩
  rintro ⟨hproducer, hconsumer, hsem⟩
  unfold locks at hone
  rw [hproducer, hconsumer, hsem] at hone
  cases hone

/-! ## The runs -/

theorem givenBack_step (c : Choice α) (s s' : State α) (h : GivenBack prog s) (hs : step prog c s = some s') :
    GivenBack prog s' ↔ Finds c s := by
  rw [givenBack_iff]
  have hone := h.one
  rcases locks_step hs with ⟨hfinds, hlocks⟩ | ⟨hlost, hlocks⟩
  · exact iff_of_true (hlocks.trans hone) hfinds
  · exact iff_of_false (by omega) hlost

theorem givenBack_start (prog : Program) (a : ℤ → α) (ret : α) : GivenBack prog (start prog a ret) := by
  rw [givenBack_iff]
  cases prog <;> rfl

/-- **The lock is given back** in all passes of a run if and only if no consumer looks into an empty ring and no
producer into a full one. -/
theorem lock_law (prog : Program) (a : ℤ → α) (ret : α) (cs : List (Choice α)) :
    Run.Throughout (step prog) (GivenBack prog) cs (start prog a ret) ↔
      Run.Along (step prog) Finds cs (start prog a ret) :=
  Run.throughout_iff_along (fun c s _ => finds_of_none c s) (fun _ _ _ _ _ => trivial)
    (fun c s s' _ => givenBack_step c s s') trivial (givenBack_start prog a ret)

/-- **After that nobody gets the lock**: the semaphore stays 0. -/
theorem nobody_enters {cs : List (Choice α)} (h : locks prog s = 0) (hrun : Run.exec (step prog) cs s = some s') :
    locks prog s' = 0 := by
  have hstep : ∀ (c : Choice α) (s s' : State α), locks prog s = 0 → step prog c s = some s' → locks prog s' = 0 := by
    intro c s s' hzero hs
    rcases locks_step hs with ⟨-, hlocks⟩ | ⟨-, hlocks⟩
    · exact hlocks.trans hzero
    · omega
  exact Run.invariant' hstep h hrun

end

/-- The consumer looks first; in `a1_p.c` the producer then reads a character. -/
def emptyFirst : Program → List (Choice ℕ)
  | .a1_a => [.consumer, .consumer]
  | .a1_p_c => [.consumer, .consumer, .producer (some 7)]

theorem exec_emptyFirst (prog : Program) : ∃ s,
    Run.exec (step prog) (emptyFirst prog) (start prog (fun _ => 0) 0) = some s ∧
      s.producer = .decrement ∧ s.consumer = .decrement ∧ s.sem = 0 := by
  have h : (Run.exec (step prog) (emptyFirst prog) (start prog (fun _ => 0) 0)).map
      (fun s => (s.producer, s.consumer, s.sem)) = some (.decrement, .decrement, 0) := by
    cases prog <;> decide +kernel
  obtain ⟨s, hs, he⟩ := Option.map_eq_some_iff.1 h
  simp only [Prod.mk.injEq] at he
  exact ⟨s, hs, he⟩

/-- Both wait for a lock that nobody has. -/
theorem both_wait :
    (∃ s, Run.exec (step .a1_a) (emptyFirst .a1_a) (start .a1_a (fun _ => 0) 0) = some s ∧
      s.producer = .decrement ∧ s.consumer = .decrement ∧ s.sem = 0 ∧ ¬ GivenBack .a1_a s) ∧
    ∃ s, Run.exec (step .a1_p_c) (emptyFirst .a1_p_c) (start .a1_p_c (fun _ => 0) 0) = some s ∧
      s.producer = .decrement ∧ s.consumer = .decrement ∧ s.sem = 0 ∧ ¬ GivenBack .a1_p_c s := by
  obtain ⟨s, hs, hwait⟩ := exec_emptyFirst .a1_a
  obtain ⟨s', hs', hwait'⟩ := exec_emptyFirst .a1_p_c
  exact ⟨⟨s, hs, hwait.1, hwait.2.1, hwait.2.2, fun hback => hback.notStuck hwait⟩,
    s', hs', hwait'.1, hwait'.2.1, hwait'.2.2, fun hback => hback.notStuck hwait'⟩

end Ring.Lock
