import LinuxLearning.Lib.SysV
/-!
# `a1_p.c` and `a1_c.c`: a ring in shared memory between two programs

| here | there (`Assignment/2_3/a1_p.c`, `Assignment/2_3/a1_c.c`) |
| --- | --- |
| `Shmem`        | `struct shmem` (`a1_p.c:8-13`) |
| `producerStep` | `main` of `a1_p.c` (`:25-55`) |
| `consumerStep` | `main` of `a1_c.c` (`:24-61`) |
| `State.semop`  | `sb1.sem_num=1; …; semop(semid1,&sb1,1)`, its value not looked at |

A step is one statement of one of the programs. `shmget`, `semget` and `shmat` may fail; a program that goes on
after that to an access of the segment ends there (`exited`). `a1_p.c` does not look at what `shmat` returns; the test
`shma<0` of `a1_c.c` (`:38`) is never true of a pointer, so that the consumer goes on to its loop with the error value
and ends at the first access (`:49`). `SETALL` takes the address of an array, and the value of `u1` is 1: the kernel
fails to read there, or sets the semaphores to what it finds.

The set has one semaphore, whose number is 0, and the operations are on number 1: `semop_fails`, they all fail.

* `Outcomes` — whether the calls succeed that a program needs to get to its loop;
* `exclusion_law` — the processes are kept out of each other's way in every order of their steps if and only if one of
  them does not get to its loop.
-/

namespace Ring

structure Shmem (α : Type*) where
  a : ℤ → α
  count : ℤ
  size : ℤ
  «in» : ℤ
  out : ℤ

/-- The next statement of `a1_p.c`. -/
inductive ProducerPc
  | shmget
  /-- `shmid` says whether `shmid1` is valid -/
  | semget (shmid : Bool)
  /-- `semctl(semid1,0,SETALL,u1)` -/
  | semctl
  | shmat
  | setIn | setOut | setCount | setSize
  | scanf
  /-- the first `semop` of a pass -/
  | decrement
  /-- `if(shma->in==shma->out && shma->count==shma->size)` -/
  | full
  | store | moveOut | addCount
  /-- the second `semop` -/
  | increment
  | exited
deriving DecidableEq, Repr

/-- The next statement of `a1_c.c`. -/
inductive ConsumerPc
  | shmget | semget | shmat
  | decrement
  /-- `if(shma->count==0)` -/
  | empty
  | print | moveIn | subCount
  | increment
  | exited
deriving DecidableEq, Repr

inductive Process
  | producer | consumer
deriving DecidableEq, Repr

/-- What the scheduler and the outside world choose. -/
inductive Choice (α : Type*)
  | go
  /-- the call of the statement fails -/
  | fail
  /-- `scanf` reads this character -/
  | char (c : α)
  /-- the kernel finds these values for `SETALL` -/
  | values (v : ℕ → ℕ)

/-- `scanned` and `printed` are history. -/
structure State (α : Type*) where
  shma : Shmem α
  sems : Option (List ℕ)
  producer : ProducerPc
  /-- whether `semid1` of `a1_p.c` is valid -/
  semid : Bool
  ret : α
  consumer : ConsumerPc
  /-- whether `shma` of `a1_c.c` is valid -/
  attached : Bool
  scanned : List α
  printed : List α

section

variable {α : Type*}

/-- `sb1.sem_num=1; sb1.sem_op=sem_op; sb1.sem_flg=0; semop(semid1,&sb1,1)` -/
def State.semop (s : State α) (semid : Bool) (sem_op : ℤ) : Option (State α) :=
  match semid, s.sems with
  | true, some sems => (SysV.semop sems 1 sem_op).map fun r => { s with sems := some r.2 }
  | _, _ => some s

def producerStep (a : Choice α) (s : State α) : Option (State α) :=
  match s.producer, a with
  | .shmget, .go => some { s with producer := .semget true }
  | .shmget, .fail => some { s with producer := .semget false }
  | .semget shmid, .go =>
    some { s with
      sems := some (SysV.semget 1 s.sems), semid := true, producer := if shmid then .semctl else .exited }
  | .semget shmid, .fail => some { s with semid := false, producer := if shmid then .semctl else .exited }
  | .semctl, .fail => some { s with producer := .shmat }
  | .semctl, .values v =>
    some { s with
      sems := if s.semid then s.sems.map (·.mapIdx fun i _ => v i) else s.sems, producer := .shmat }
  | .shmat, .go => some { s with producer := .setIn }
  | .shmat, .fail => some { s with producer := .exited }
  | .setIn, .go => some { s with shma := { s.shma with «in» := 0 }, producer := .setOut }
  | .setOut, .go => some { s with shma := { s.shma with out := 0 }, producer := .setCount }
  | .setCount, .go => some { s with shma := { s.shma with count := 0 }, producer := .setSize }
  | .setSize, .go => some { s with shma := { s.shma with size := 50 }, producer := .scanf }
  | .scanf, .char c => some { s with ret := c, scanned := s.scanned ++ [c], producer := .decrement }
  | .scanf, .fail => some { s with producer := .decrement }
  | .decrement, .go => (s.semop s.semid (-1)).map fun s => { s with producer := .full }
  | .full, .go =>
    some { s with
      producer := if s.shma.in = s.shma.out ∧ s.shma.count = s.shma.size then .scanf else .store }
  | .store, .go =>
    some { s with
      shma := { s.shma with a := Function.update s.shma.a s.shma.out s.ret }, producer := .moveOut }
  | .moveOut, .go =>
    some { s with shma := { s.shma with out := (s.shma.out + 1) % s.shma.size }, producer := .addCount }
  | .addCount, .go => some { s with shma := { s.shma with count := s.shma.count + 1 }, producer := .increment }
  | .increment, .go => (s.semop s.semid 1).map fun s => { s with producer := .scanf }
  | _, _ => none

def consumerStep (a : Choice α) (s : State α) : Option (State α) :=
  match s.consumer, a with
  | .shmget, .go => some { s with consumer := .semget }
  | .shmget, .fail => some { s with consumer := .exited }
  | .semget, .go => some { s with sems := some (SysV.semget 1 s.sems), consumer := .shmat }
  | .semget, .fail => some { s with consumer := .exited }
  | .shmat, .go => some { s with attached := true, consumer := .decrement }
  -- `shma<0` is false of the error value too
  | .shmat, .fail => some { s with attached := false, consumer := .decrement }
  | .decrement, .go => (s.semop true (-1)).map fun s => { s with consumer := .empty }
  | .empty, .go =>
    some { s with
      consumer := if s.attached = false then .exited else if s.shma.count = 0 then .decrement else .print }
  | .print, .go => some { s with printed := s.printed ++ [s.shma.a s.shma.in], consumer := .moveIn }
  | .moveIn, .go =>
    some { s with shma := { s.shma with «in» := (s.shma.in + 1) % s.shma.size }, consumer := .subCount }
  | .subCount, .go => some { s with shma := { s.shma with count := s.shma.count - 1 }, consumer := .increment }
  | .increment, .go => (s.semop true 1).map fun s => { s with consumer := .decrement }
  | _, _ => none

def step (a : Process × Choice α) (s : State α) : Option (State α) :=
  match a.1 with
  | .producer => producerStep a.2 s
  | .consumer => consumerStep a.2 s

/-- Neither the segment nor the set exists yet. -/
def start [Inhabited α] : State α :=
  ⟨⟨fun _ => default, 0, 0, 0, 0⟩, none, .shmget, false, default, .shmget, false, [], []⟩

/-- Between the decrement and the increment. -/
def ProducerPc.inside : ProducerPc → Bool
  | .full | .store | .moveOut | .addCount | .increment => true
  | _ => false

def ConsumerPc.inside : ConsumerPc → Bool
  | .empty | .print | .moveIn | .subCount | .increment => true
  | _ => false

/-- Mutual exclusion. -/
def Excluded (s : State α) : Prop := ¬ (s.producer.inside = true ∧ s.consumer.inside = true)

/-- Whether the calls succeed that a program needs to get to its loop. -/
structure Outcomes where
  producerShmget : Bool
  producerShmat : Bool
  consumerShmget : Bool
  consumerSemget : Bool

/-- Both programs get to their loops. -/
def Outcomes.BothLoop (o : Outcomes) : Prop :=
  (o.producerShmget = true ∧ o.producerShmat = true) ∧ o.consumerShmget = true ∧ o.consumerSemget = true

/-- The outcome of the next statement of a process, where it is one of these calls. -/
def Outcomes.next (o : Outcomes) (t : Process) (s : State α) : Option Bool :=
  match t with
  | .producer => match s.producer with
    | .shmget => some o.producerShmget
    | .shmat => some o.producerShmat
    | _ => none
  | .consumer => match s.consumer with
    | .shmget => some o.consumerShmget
    | .semget => some o.consumerSemget
    | _ => none

/-- A call that is to succeed does not fail, and the other way round. -/
def Agrees (o : Outcomes) (a : Process × Choice α) (s : State α) : Prop :=
  match o.next a.1 s, a.2 with
  | some true, .fail => False
  | some false, .go => False
  | _, _ => True

/-! ## The semaphore -/

variable {s s' : State α} {a : Choice α}

/-- The set has one semaphore. -/
def OneSem (s : State α) : Prop := ∀ sems, s.sems = some sems → sems.length = 1

/-- **Every `semop` fails** and changes nothing, whatever the semaphore was set to. -/
theorem semop_unchanged (h : OneSem s) (semid : Bool) (sem_op : ℤ) : s.semop semid sem_op = some s := by
  unfold State.semop
  cases semid with
  | false => rfl
  | true =>
    cases hs : s.sems with
    | none => rfl
    | some sems =>
      have hle : sems.length ≤ 1 := (h sems hs).le
      simp only [SysV.semop_out_of_range hle, Option.map_some, Option.some.injEq]
      rw [← hs]

theorem oneSem_semget (h : OneSem s) : (SysV.semget 1 s.sems).length = 1 := by
  unfold SysV.semget
  cases hs : s.sems with
  | none => rfl
  | some sems => exact h sems hs

/-! ## One step -/

/-- What has succeeded when the producer is at a statement. -/
def ProducerPc.Passed (o : Outcomes) : ProducerPc → Prop
  | .shmget | .semget false | .exited => True
  | .semget true | .semctl | .shmat => o.producerShmget = true
  | _ => o.producerShmget = true ∧ o.producerShmat = true

def ConsumerPc.Passed (o : Outcomes) : ConsumerPc → Prop
  | .shmget | .exited => True
  | .semget => o.consumerShmget = true
  | _ => o.consumerShmget = true ∧ o.consumerSemget = true

theorem ProducerPc.Passed.of_inside {o : Outcomes} {pc : ProducerPc} (h : pc.Passed o) (hin : pc.inside = true) :
    o.producerShmget = true ∧ o.producerShmat = true := by
  cases pc with
  | full | store | moveOut | addCount | increment => exact h
  | _ => cases hin

theorem ConsumerPc.Passed.of_inside {o : Outcomes} {pc : ConsumerPc} (h : pc.Passed o) (hin : pc.inside = true) :
    o.consumerShmget = true ∧ o.consumerSemget = true := by
  cases pc with
  | empty | print | moveIn | subCount | increment => exact h
  | _ => cases hin

/-- A call that went well was to succeed. -/
theorem Agrees.of_go {o : Outcomes} {t : Process} {b : Bool} (h : Agrees o (t, .go) s) (hnext : o.next t s = some b) :
    b = true := by
  cases b with
  | true => rfl
  | false => simp [Agrees, hnext] at h

/-- A step of the producer. -/
theorem producer_moves (h : OneSem s) (hs : producerStep a s = some s') :
    OneSem s' ∧ s'.consumer = s.consumer ∧ ∀ o : Outcomes, Agrees o (.producer, a) s → s.producer.Passed o →
      s'.producer.Passed o := by
  obtain ⟨shma, sems, producer, semid, ret, consumer, attached, scanned, printed⟩ := s
  cases producer with
  | shmget =>
    cases a with
    | go =>
      cases hs
      exact ⟨h, rfl, fun _ hagrees _ => hagrees.of_go rfl⟩
    | fail =>
      cases hs
      exact ⟨h, rfl, fun _ _ _ => trivial⟩
    | _ => cases hs
  | semget shmid =>
    have hpassed : ∀ o : Outcomes, (ProducerPc.semget shmid).Passed o →
        (if shmid then ProducerPc.semctl else .exited).Passed o := by
      intro o ho
      cases shmid with
      | true => exact ho
      | false => trivial
    cases a with
    | go =>
      cases hs
      refine ⟨fun sems' hsems => ?_, rfl, fun o _ => hpassed o⟩
      rw [← Option.some.inj hsems]
      exact oneSem_semget h
    | fail =>
      cases hs
      exact ⟨h, rfl, fun o _ => hpassed o⟩
    | _ => cases hs
  | semctl =>
    cases a with
    | fail =>
      cases hs
      exact ⟨h, rfl, fun _ _ => id⟩
    | values v =>
      cases hs
      refine ⟨fun sems' hsems => ?_, rfl, fun _ _ => id⟩
      cases semid with
      | false => exact h sems' hsems
      | true =>
        obtain ⟨sems₀, hsems₀, rfl⟩ := Option.map_eq_some_iff.1 hsems
        rw [List.length_mapIdx]
        exact h sems₀ hsems₀
    | _ => cases hs
  | shmat =>
    cases a with
    | go =>
      cases hs
      exact ⟨h, rfl, fun _ hagrees hpassed => ⟨hpassed, hagrees.of_go rfl⟩⟩
    | fail =>
      cases hs
      exact ⟨h, rfl, fun _ _ _ => trivial⟩
    | _ => cases hs
  | setIn | setOut | setCount | setSize | store | moveOut | addCount =>
    cases a with
    | go =>
      cases hs
      exact ⟨h, rfl, fun _ _ => id⟩
    | _ => cases hs
  | scanf =>
    cases a with
    | char | fail =>
      cases hs
      exact ⟨h, rfl, fun _ _ => id⟩
    | _ => cases hs
  | full =>
    cases a with
    | go =>
      cases hs
      refine ⟨h, rfl, fun o _ hpassed => ?_⟩
      dsimp only
      split <;> exact hpassed
    | _ => cases hs
  | decrement | increment =>
    cases a with
    | go =>
      simp only [producerStep, semop_unchanged h, Option.map_some, Option.some.injEq] at hs
      subst hs
      exact ⟨h, rfl, fun _ _ => id⟩
    | _ => cases hs
  | exited => cases a <;> cases hs

/-- A step of the consumer. -/
theorem consumer_moves (h : OneSem s) (hs : consumerStep a s = some s') :
    OneSem s' ∧ s'.producer = s.producer ∧ ∀ o : Outcomes, Agrees o (.consumer, a) s → s.consumer.Passed o →
      s'.consumer.Passed o := by
  obtain ⟨shma, sems, producer, semid, ret, consumer, attached, scanned, printed⟩ := s
  cases consumer with
  | shmget =>
    cases a with
    | go =>
      cases hs
      exact ⟨h, rfl, fun _ hagrees _ => hagrees.of_go rfl⟩
    | fail =>
      cases hs
      exact ⟨h, rfl, fun _ _ _ => trivial⟩
    | _ => cases hs
  | semget =>
    cases a with
    | go =>
      cases hs
      refine ⟨fun sems' hsems => ?_, rfl, fun _ hagrees hpassed => ⟨hpassed, hagrees.of_go rfl⟩⟩
      rw [← Option.some.inj hsems]
      exact oneSem_semget h
    | fail =>
      cases hs
      exact ⟨h, rfl, fun _ _ _ => trivial⟩
    | _ => cases hs
  | shmat =>
    cases a with
    | go | fail =>
      cases hs
      exact ⟨h, rfl, fun _ _ => id⟩
    | _ => cases hs
  | empty =>
    cases a with
    | go =>
      cases hs
      refine ⟨h, rfl, fun o _ hpassed => ?_⟩
      dsimp only
      split
      · trivial
      · split <;> exact hpassed
    | _ => cases hs
  | print | moveIn | subCount =>
    cases a with
    | go =>
      cases hs
      exact ⟨h, rfl, fun _ _ => id⟩
    | _ => cases hs
  | decrement | increment =>
    cases a with
    | go =>
      simp only [consumerStep, semop_unchanged h, Option.map_some, Option.some.injEq] at hs
      subst hs
      exact ⟨h, rfl, fun _ _ => id⟩
    | _ => cases hs
  | exited => cases a <;> cases hs

theorem oneSem_step (a : Process × Choice α) (s s' : State α) (h : OneSem s) (hs : step a s = some s') :
    OneSem s' := by
  obtain ⟨t, a⟩ := a
  cases t with
  | producer => exact (producer_moves h hs).1
  | consumer => exact (consumer_moves h hs).1

/-- Where the two programs are says which of the calls have succeeded. -/
structure Known (o : Outcomes) (s : State α) : Prop where
  oneSem : OneSem s
  producer : s.producer.Passed o
  consumer : s.consumer.Passed o

theorem Known.step {o : Outcomes} {a : Process × Choice α} (h : Known o s) (hagrees : Agrees o a s)
    (hs : Ring.step a s = some s') : Known o s' := by
  obtain ⟨t, a⟩ := a
  cases t with
  | producer =>
    obtain ⟨hone, hother, hpassed⟩ := producer_moves h.oneSem hs
    exact ⟨hone, hpassed o hagrees h.producer, hother ▸ h.consumer⟩
  | consumer =>
    obtain ⟨hone, hother, hpassed⟩ := consumer_moves h.oneSem hs
    exact ⟨hone, hother ▸ h.producer, hpassed o hagrees h.consumer⟩

theorem Known.excluded {o : Outcomes} (ho : ¬ o.BothLoop) (h : Known o s) : Excluded s := fun hin =>
  ho ⟨h.producer.of_inside hin.1, h.consumer.of_inside hin.2⟩

/-- A run without failures agrees with outcomes without failures. -/
theorem Outcomes.BothLoop.agrees {o : Outcomes} (ho : o.BothLoop) {a : Process × Choice α} (ha : a.2 ≠ .fail)
    (s : State α) : Agrees o a s := by
  obtain ⟨⟨hpshmget, hpshmat⟩, hcshmget, hcsemget⟩ := ho
  have hnext : o.next a.1 s ≠ some false := by
    unfold Outcomes.next
    rw [hpshmget, hpshmat, hcshmget, hcsemget]
    split <;> split <;> simp
  unfold Agrees
  split
  · next hfail => exact ha hfail
  · next hfalse _ => exact hnext hfalse
  · trivial

/-! ## Whole runs -/

variable [Inhabited α]

theorem oneSem_start : OneSem (start : State α) := by
  intro sems hsems
  cases hsems

/-- **Every `semop` of every run fails** and changes nothing. -/
theorem semop_fails {as : List (Process × Choice α)} (hrun : Run.exec step as start = some s) (semid : Bool)
    (sem_op : ℤ) : s.semop semid sem_op = some s :=
  semop_unchanged (Run.invariant' oneSem_step oneSem_start hrun) semid sem_op

/-- `n` statements of process `t`. -/
def go (t : Process) (n : ℕ) : List (Process × Choice α) := List.replicate n (t, .go)

/-- Both programs start, and both execute their first decrement. -/
def bothEnter (c : α) : List (Process × Choice α) :=
  go .producer 2 ++ (.producer, .values fun _ => 1) :: go .producer 5 ++ (.producer, .char c) :: go .producer 1 ++
    go .consumer 4

theorem bothEnter_inside (c : α) : ∃ s, Run.exec step (bothEnter c) start = some s ∧ ¬ Excluded s := by
  have h : (Run.exec step (bothEnter c) start).map (fun s => (s.producer.inside, s.consumer.inside)) =
      some (true, true) := rfl
  obtain ⟨s, hs, he⟩ := Option.map_eq_some_iff.1 h
  simp only [Prod.mk.injEq] at he
  exact ⟨s, hs, fun hexcluded => hexcluded he⟩

/-- **Mutual exclusion.** Whatever the order of the steps, and whatever else fails: the processes are kept apart if and
only if one of them does not get to its loop. -/
theorem exclusion_law (o : Outcomes) :
    (∀ as : List (Process × Choice α), Run.Along step (Agrees o) as start → Run.Throughout step Excluded as start) ↔
      ¬ o.BothLoop := by
  constructor
  · intro h ho
    obtain ⟨s, hs, hboth⟩ := bothEnter_inside (default : α)
    have hnofail : ∀ a ∈ bothEnter (default : α), a.2 ≠ .fail := by simp [bothEnter, go]
    have halong : Run.Along step (Agrees o) (bothEnter (default : α)) start :=
      Run.along_of_mem (fun a ha s => ho.agrees (hnofail a ha) s) start
    exact hboth (Run.throughout_last (h _ halong) hs)
  · intro ho as halong
    exact Run.throughout (fun _ _ _ hagrees hknown hs => hknown.step hagrees hs) (fun _ => Known.excluded ho) halong
      ⟨oneSem_start, trivial, trivial⟩

/-- Both are inside. -/
theorem both_inside : ∃ s, Run.exec step (bothEnter 7) (start : State ℕ) = some s ∧ ¬ Excluded s :=
  bothEnter_inside 7

end

end Ring
