import LinuxLearning.CondQueue.Messages
/-!
# `thread_mutex_cond.c`: the bytes of a message

`read` stores at most 2048 bytes at the start of `str1` (`:237`), in a block that `malloc` has left as it was (`:235`);
their number is not kept, and no NUL is added. The `printf` of `thread_func1` (`:168`) shows the block up to the first
NUL in it.

* `byteStep` — the program with the memory of the blocks: a read goes over what its block held;
* `Filed` — what holds of the memory of the messages against the reads of the run;
* `skeleton`, `byteStep_skeleton` — the contents of the blocks do not matter to anything but the printing;
* `text_law` — the text that is printed is what was read, whatever the blocks held, exactly if what was read for every
  printed message has a NUL in it.
-/

namespace CondQueue

open Threads LinkedList

/-- What a `str1` holds, and what a `read` stores. -/
abbrev Bytes := List UInt8

/-- `read` stores the bytes over what the block at `newJob` held. -/
def State.over (s : State Bytes) : Choice Bytes → Choice Bytes
  | .read bytes => match s.func2 with
    | .read newJob => .read (bytes ++ ((s.q.deref newJob).elim [] Job.str1).drop bytes.length)
    | _ => .read bytes
  | a => a

/-- One step of one thread; a `Choice.read` has the bytes that `read` stores. -/
def byteStep (a : Thread × Choice Bytes) (s : State Bytes) : Option (State Bytes) := step (a.1, s.over a.2) s

/-- What `printf("%s")` shows of a `str1`; without a NUL it reads past the end, which is undefined. -/
def printString (str1 : Bytes) : Option Bytes := if 0 ∈ str1 then some (str1.takeWhile (· ≠ 0)) else none

/-- The bytes read up to their first NUL. -/
def text (bytes : Bytes) : Bytes := bytes.takeWhile (· ≠ 0)

/-- `malloc` gives a block whose `str1` has 2048 bytes as in `held`, and a `read` stores at most 2048. -/
def Fits (held : Bytes → Prop) : Thread × Choice Bytes → Prop
  | (_, .malloc _ garbage) => garbage.str1.length = 2048 ∧ held garbage.str1
  | (_, .read bytes) => bytes.length ≤ 2048
  | _ => True

/-- What the action reads. -/
def reads : Thread × Choice Bytes → List Bytes
  | (_, .read bytes) => [bytes]
  | _ => []

/-- The bytes over what a block held. -/
def Over (held : Bytes → Prop) (str1 bytes : Bytes) : Prop :=
  ∃ old : Bytes, old.length = 2048 ∧ held old ∧ bytes.length ≤ 2048 ∧ str1 = bytes ++ old.drop bytes.length

theorem takeWhile_nul {word : Bytes} (h : 0 ∉ word) (rest : Bytes) :
    (word ++ 0 :: rest).takeWhile (· ≠ 0) = word := by
  have hpos : ∀ a ∈ word, decide (a ≠ (0 : UInt8)) = true := by
    intro a ha
    rw [decide_eq_true_iff]
    rintro rfl
    exact h ha
  rw [List.takeWhile_append_of_pos hpos]
  simp

theorem printString_nul {bytes : Bytes} (h : 0 ∈ bytes) (rest : Bytes) :
    printString (bytes ++ rest) = some (text bytes) := by
  rw [printString, if_pos (List.mem_append_left rest h), text]
  obtain ⟨word, tail, rfl, hword⟩ := List.eq_append_cons_of_mem h
  rw [List.append_assoc, List.cons_append, takeWhile_nul hword, takeWhile_nul hword]

theorem printString_none {str1 : Bytes} (h : 0 ∉ str1) : printString str1 = none := by
  rw [printString, if_neg h]

/-! ## What the blocks hold -/

section

variable {held : Bytes → Prop} {rs : List Bytes} {s s' : State Bytes} {q q' : Queue Bytes}

/-- The messages in the list and on the screen are reads of the run in order, each over what its block held; the last
read may be in a block that is not in the list yet. -/
def Filed (held : Bytes → Prop) (rs : List Bytes) (q : Queue Bytes) : Func2Pc → Prop
  | .read newJob => List.Forall₂ (Over held) q.enqueued rs ∧
      ∃ j, q.deref newJob = some j ∧ j.str1.length = 2048 ∧ held j.str1
  | .isEmpty newJob | .setHead newJob | .walkStart newJob | .walk newJob _ | .link newJob _ | .setNext newJob =>
    ∃ j, q.deref newJob = some j ∧ List.Forall₂ (Over held) (q.enqueued ++ [j.str1]) rs
  | _ => List.Forall₂ (Over held) q.enqueued rs

theorem Filed.enqueued {p : Func2Pc} (h : Filed held rs q p) :
    ∃ rest, List.Forall₂ (Over held) (q.enqueued ++ rest) rs := by
  cases p with
  | read newJob => exact ⟨[], by simpa using h.1⟩
  | isEmpty | setHead | walkStart | walk | link | setNext =>
    obtain ⟨j, -, hrs⟩ := h
    exact ⟨[j.str1], hrs⟩
  | _ =>
    refine ⟨[], ?_⟩
    rw [List.append_nil]
    exact h

/-- A write to a block that leaves its `str1`. -/
theorem store_deref {p r : Option Nat} {f : Job Bytes → Job Bytes} {j : Job Bytes} (h : q.store p f = some q')
    (hf : ∀ k, (f k).str1 = k.str1) (hj : q.deref r = some j) : ∃ k, q'.deref r = some k ∧ k.str1 = j.str1 := by
  obtain ⟨a, rfl, h⟩ := Option.bind_eq_some_iff.1 h
  obtain ⟨k, hk, rfl⟩ := Option.map_eq_some_iff.1 h
  obtain ⟨b, rfl, hb⟩ := Option.bind_eq_some_iff.1 hj
  by_cases hba : b = a
  · subst hba
    rw [hb] at hk
    obtain rfl := Option.some.inj hk
    exact ⟨f j, by simp [Queue.deref], hf j⟩
  · exact ⟨j, by simpa [Queue.deref, Function.update_of_ne hba] using hb, rfl⟩

theorem free_enqueued {p : Option Nat} (h : q.free p = some q') : q'.enqueued = q.enqueued := by
  cases p with
  | none =>
    cases h
    rfl
  | some a =>
    obtain ⟨k, -, rfl⟩ := Option.map_eq_some_iff.1 h
    rfl

theorem Inv.not_both {α : Type*} {s : State α} (hI : Inv s) (h : s.func2.holds = true) : s.func1.holds = false := by
  have hm := hI.holds2.1 h
  exact hI.out1 (by simp [hm])

/-- `thread_func1` adds nothing to the queue, and leaves it alone while the other thread has `m1`. -/
theorem Func1Step.quiet (h : Func1Step s s') (hI : Inv s) : s'.func2 = s.func2 ∧ s'.q.enqueued = s.q.enqueued ∧
    (s.func2.holds = true → s'.q = s.q) := by
  -- a statement under `m1`
  have hbusy : ∀ {p : Func1Pc} {P : Prop}, s.func1 = p → p.holds = true → s.func2.holds = true → P := by
    intro p P at_ hp h2
    have hout := hI.not_both h2
    rw [at_, hp] at hout
    cases hout
  cases h with
  | lock | relock | few | full | wait | spurious | more | take | signal | unlock => exact ⟨rfl, rfl, fun _ => rfl⟩
  | empty at_ hn => exact ⟨rfl, rfl, hbusy at_ rfl⟩
  | decr nextJob at_ => exact ⟨rfl, (decr_same s.q).2.2.2.1, hbusy at_ rfl⟩
  | unlink nextJob at_ =>
    unfold State.access
    split
    · exact ⟨rfl, rfl, fun _ => rfl⟩
    · exact ⟨rfl, rfl, hbusy at_ rfl⟩
  | print nextJob at_ =>
    unfold State.access
    split
    · exact ⟨rfl, rfl, fun _ => rfl⟩
    · exact ⟨rfl, rfl, hbusy at_ rfl⟩
  | free nextJob at_ =>
    unfold State.access
    split
    · exact ⟨rfl, rfl, fun _ => rfl⟩
    · next hq => exact ⟨rfl, free_enqueued hq, hbusy at_ rfl⟩

theorem Filed.func1_step (hF : Filed held rs s.q s.func2) (hI : Inv s) (h : Func1Step s s') :
    Filed held rs s'.q s'.func2 := by
  obtain ⟨hfunc2, henqueued, hq⟩ := h.quiet hI
  rw [hfunc2]
  by_cases hholds : s.func2.holds = true
  · rw [hq hholds]
    exact hF
  · cases hp : s.func2 with
    | lock | waiting =>
      rw [hp] at hF
      show List.Forall₂ (Over held) s'.q.enqueued rs
      rw [henqueued]
      exact hF
    | _ => simp [hp, Func2Pc.holds] at hholds

/-- `read` goes over the block that `malloc` gave. -/
theorem Filed.read_step (hF : Filed held rs s.q s.func2) {bytes : Bytes} (hlength : bytes.length ≤ 2048)
    (h : func2Step (s.over (.read bytes)) s = some s') : Filed held (rs ++ [bytes]) s'.q s'.func2 := by
  cases hp : s.func2 with
  | read newJob =>
    rw [hp] at hF
    obtain ⟨henqueued, j, hj, hfull, hheld⟩ := hF
    obtain ⟨a, rfl, ha⟩ := Option.bind_eq_some_iff.1 hj
    simp only [State.over, func2Step, hp, hj, Option.elim_some, Queue.store, Option.bind_some, ha, Option.map_some,
      State.access, Option.some.injEq] at h
    subst h
    refine ⟨{ j with str1 := bytes ++ j.str1.drop bytes.length }, by simp [Queue.deref], ?_⟩
    exact List.rel_append henqueued (.cons ⟨j.str1, hfull, hheld, hlength, rfl⟩ .nil)
  | _ => simp [State.over, func2Step, hp] at h

theorem Filed.malloc_step (hF : Filed held rs s.q s.func2) {p : Nat} {garbage : Job Bytes}
    (hfull : garbage.str1.length = 2048) (hheld : held garbage.str1)
    (h : func2Step (.malloc p garbage) s = some s') : Filed held rs s'.q s'.func2 := by
  cases hp : s.func2 with
  | malloc =>
    rw [hp] at hF
    simp only [func2Step, hp, Option.ite_none_right_eq_some, Option.some.injEq] at h
    obtain ⟨-, rfl⟩ := h
    exact ⟨hF, garbage, by simp [Queue.deref], hfull, hheld⟩
  | _ => simp [func2Step, hp] at h

/-- The other statements of `thread_func2`. -/
theorem Filed.link_step (hF : Filed held rs s.q s.func2) (hmalloc : s.func2 ≠ .malloc)
    (hread : ∀ p, s.func2 ≠ .read p) (h : Func2Step s s') : Filed held rs s'.q s'.func2 := by
  cases h with
  | malloc at_ => exact absurd at_ hmalloc
  | read newJob at_ => exact absurd at_ (hread newJob)
  | lock at_ | relock at_ | full at_ | room at_ | wait at_ | fullNow at_ | few at_ | signal at_ | unlock at_ =>
    rw [at_] at hF
    exact hF
  | spurious at_ => exact hF
  | empty newJob at_ | more newJob at_ | setHead newJob at_ | walkStart newJob at_ =>
    rw [at_] at hF
    exact hF
  | walk newJob temp at_ =>
    unfold State.access
    split
    · exact hF
    · rw [at_] at hF
      dsimp only
      split
      · exact hF
      · exact hF
  | link newJob temp at_ =>
    unfold State.access
    split
    · exact hF
    · next q hq =>
      rw [at_] at hF
      obtain ⟨j, hj, hrs⟩ := hF
      obtain ⟨k, hk, hstr1⟩ := store_deref hq (fun _ => rfl) hj
      refine ⟨k, hk, ?_⟩
      rw [store_enqueued hq, hstr1]
      exact hrs
  | setNext newJob at_ =>
    unfold State.access
    split
    · exact hF
    · next q hq =>
      rw [at_] at hF
      obtain ⟨j, hj, hrs⟩ := hF
      obtain ⟨k, hk, hstr1⟩ := store_deref hq (fun _ => rfl) hj
      show List.Forall₂ (Over held) (q.enqueued ++ (q.deref newJob).toList.map Job.str1) rs
      rw [store_enqueued hq, hk, Option.toList_some, List.map_singleton, hstr1]
      exact hrs
  | incr at_ =>
    rw [at_] at hF
    show List.Forall₂ (Over held) s.q.incr.enqueued rs
    rw [(incr_same s.q).2.2.2.1]
    exact hF

/-- **Step lemma.** -/
theorem Filed.step (hF : Filed held rs s.q s.func2) (hI : Inv s) {a : Thread × Choice Bytes} (hfits : Fits held a)
    (h : byteStep a s = some s') : Filed held (rs ++ reads a) s'.q s'.func2 := by
  obtain ⟨t, a⟩ := a
  simp only [byteStep, CondQueue.step, hI.running, Bool.false_eq_true, if_false] at h
  cases t with
  | func1 =>
    have hreads : reads (.func1, a) = [] := by
      cases a with
      | read bytes =>
        cases hp : s.func2 <;> cases hp1 : s.func1 <;> simp [State.over, func1Step, hp, hp1] at h
      | _ => rfl
    rw [hreads, List.append_nil]
    exact hF.func1_step hI (func1_cases h)
  | func2 =>
    cases a with
    | read bytes => exact hF.read_step hfits h
    | malloc p garbage =>
      rw [reads, List.append_nil]
      · exact hF.malloc_step hfits.1 hfits.2 h
      · simp
    | go | spurious | signal u =>
      rw [reads, List.append_nil]
      · refine hF.link_step (fun hp => ?_) (fun p hp => ?_) (func2_cases h)
        · simp [State.over, func2Step, hp] at h
        · simp [State.over, func2Step, hp] at h
      · simp

/-- **Run lemma.** -/
theorem run_filed {as : List (Thread × Choice Bytes)} (hfits : ∀ a ∈ as, Fits held a)
    (h : Run.exec byteStep as .init = some s) : Inv s ∧ Filed held (as.flatMap reads) s.q s.func2 := by
  have hstep : ∀ a s s' rs, Fits held a → Inv s ∧ Filed held rs s.q s.func2 → byteStep a s = some s' →
      Inv s' ∧ Filed held (rs ++ reads a) s'.q s'.func2 :=
    fun a s s' rs hfits hI hs => ⟨hI.1.step hs, hI.2.step hI.1 hfits hs⟩
  have hinit : Inv (State.init : State Bytes) ∧ Filed held [] (State.init : State Bytes).q .lock := ⟨init_inv, .nil⟩
  exact Run.collected (I := fun rs s => Inv s ∧ Filed held rs s.q s.func2) hstep hfits hinit h

end

section

variable {α : Type*} {s : State α} {q : Queue α}

theorem Shape.printed {l : List (Nat × Job α)} {stop : Option Nat} {held : List α} (h : Shape q l stop held) :
    q.printed <+: q.enqueued :=
  ⟨_, h.hist⟩

theorem Base.printed (h : Base q) : q.printed <+: q.enqueued := by
  obtain ⟨l, hs, -⟩ := h
  exact hs.printed

theorem Func1Ok.printed {p : Func1Pc} (h : Func1Ok q p) (hp : p.holds = true) : q.printed <+: q.enqueued := by
  cases p with
  | lock | waiting => cases hp
  | test | signal | unlock => exact Base.printed h
  | wait => exact h.1.printed
  | head =>
    obtain ⟨l, hd⟩ := h
    exact hd.shape.printed
  | take | unlink nextJob =>
    obtain ⟨⟨l, hd⟩, -⟩ := h
    exact hd.shape.printed
  | decr nextJob | print nextJob | free nextJob =>
    obtain ⟨n, l, -, hd⟩ := h
    exact hd.shape.printed

theorem Func2Ok.printed {p : Func2Pc} (h : Func2Ok q p) (hp : p.holds = true) : q.printed <+: q.enqueued := by
  cases p with
  | lock | waiting => cases hp
  | test | testSignal | unlock => exact Base.printed h
  | wait | signal | malloc => exact h.1.printed
  | read newJob | isEmpty newJob | setNext newJob =>
    obtain ⟨l, hf⟩ := h
    exact hf.shape.printed
  | setHead newJob => exact h.shape.printed
  | walkStart newJob =>
    obtain ⟨⟨l, hf⟩, -⟩ := h
    exact hf.shape.printed
  | walk newJob temp =>
    obtain ⟨l₁, t, l₂, -, hf⟩ := h
    exact hf.shape.printed
  | link newJob temp =>
    obtain ⟨l, t, -, hf⟩ := h
    exact hf.shape.printed
  | incr =>
    obtain ⟨l, hs, -⟩ := h
    exact hs.printed

theorem Inv.printed (hI : Inv s) : s.q.printed <+: s.q.enqueued := by
  cases hm : s.m1 with
  | none => exact (hI.free hm).printed
  | some t =>
    cases t with
    | func1 => exact hI.ok1.printed (hI.holds1.2 hm)
    | func2 => exact hI.ok2.printed (hI.holds2.2 hm)

end

/-- The messages on the screen are the first reads of the run. -/
theorem printed_reads {held : Bytes → Prop} {s : State Bytes} {as : List (Thread × Choice Bytes)}
    (hfits : ∀ a ∈ as, Fits held a) (h : Run.exec byteStep as .init = some s) :
    List.Forall₂ (Over held) s.q.printed ((as.flatMap reads).take s.q.printed.length) := by
  obtain ⟨hI, hF⟩ := run_filed hfits h
  obtain ⟨rest, hrs⟩ := hF.enqueued
  obtain ⟨queued, henqueued⟩ := hI.printed
  rw [← henqueued, List.append_assoc] at hrs
  simpa using List.forall₂_take s.q.printed.length hrs

/-! ## Nothing depends on the contents of a block -/

/-- The block outside the list, whose `next` is what `malloc` left there. -/
def Func2Pc.fresh : Func2Pc → Option Nat
  | .read newJob | .isEmpty newJob | .setHead newJob | .walkStart newJob | .walk newJob _ | .link newJob _
  | .setNext newJob => newJob
  | _ => none

section

variable {α : Type*}

/-- The links of a block. -/
def Job.skeleton (j : Job α) (fresh : Bool) : Job Unit := ⟨(), if fresh then none else j.next⟩

def Queue.skeleton (q : Queue α) (fresh : Option Nat) : Queue Unit where
  queueCount := q.queueCount
  next := q.next
  heap := fun a => (q.heap a).map fun j => j.skeleton (fresh = some a)
  enqueued := q.enqueued.map fun _ => ()
  printed := q.printed.map fun _ => ()
  drained := q.drained
  drains := q.drains

/-- The state without the contents of the blocks. -/
def State.skeleton (s : State α) : State Unit :=
  ⟨s.q.skeleton s.func2.fresh, s.m1, s.eqCv1, s.dqCv2, s.func1, s.func2, s.faulted⟩

/-- The action without the contents. -/
def Choice.skeleton : Choice α → Choice Unit
  | .go => .go
  | .spurious => .spurious
  | .malloc p _ => .malloc p ⟨(), none⟩
  | .read _ => .read ()
  | .signal u => .signal u

variable {s : State α} {q : Queue α} {p : Option Nat} {fresh : Option Nat}

@[simp] theorem skeleton_func1 : s.skeleton.func1 = s.func1 := rfl
@[simp] theorem skeleton_func2 : s.skeleton.func2 = s.func2 := rfl

theorem skeleton_next : (q.skeleton fresh).next = q.next := rfl

theorem skeleton_deref (h : ∀ a, p = some a → fresh ≠ some a) :
    (q.skeleton fresh).deref p = (q.deref p).map fun j => j.skeleton false := by
  cases p with
  | none => rfl
  | some a =>
    have ha := h a rfl
    simp [Queue.deref, Queue.skeleton, ha]

/-- Seen without the contents, a heap with one block changed. -/
theorem skeleton_update (fresh : Option Nat) (heap : Nat → Option (Job α)) (a : Nat) (o : Option (Job α)) :
    (fun b => (Function.update heap a o b).map fun j => j.skeleton (fresh = some b)) =
      Function.update (fun b => (heap b).map fun j => j.skeleton (fresh = some b)) a
        (o.map fun j => j.skeleton (fresh = some a)) := by
  ext b : 1
  by_cases hb : b = a
  · subst hb
    simp
  · simp [Function.update_of_ne hb]

/-- A write to a block. -/
theorem skeleton_store {f : Job α → Job α} {g : Job Unit → Job Unit} {fresh' : Option Nat}
    (hother : ∀ a, p ≠ some a → (fresh = some a ↔ fresh' = some a))
    (h : ∀ a j, p = some a → (f j).skeleton (fresh' = some a) = g (j.skeleton (fresh = some a))) :
    (q.skeleton fresh).store p g = (q.store p f).map fun q => q.skeleton fresh' := by
  cases p with
  | none => rfl
  | some a =>
    cases hj : q.heap a with
    | none => simp [Queue.store, Queue.skeleton, hj]
    | some j =>
      simp only [Queue.store, Queue.skeleton, hj, Option.bind_some, Option.map_some, Option.some.injEq,
        Queue.mk.injEq, true_and, and_true]
      ext b : 1
      by_cases hb : b = a
      · subst hb
        simp [h b j rfl]
      · have hiff := hother b (by simpa using Ne.symm hb)
        simp [Function.update_of_ne hb, hiff]

theorem skeleton_free : (q.skeleton fresh).free p = (q.free p).map fun q => q.skeleton fresh := by
  cases p with
  | none => rfl
  | some a =>
    cases hj : q.heap a with
    | none => simp [Queue.free, Queue.skeleton, hj]
    | some j =>
      have hupdate := skeleton_update fresh q.heap a none
      simp [Queue.free, Queue.skeleton, hj, hupdate]

theorem skeleton_decr : q.decr.skeleton fresh = (q.skeleton fresh).decr := by
  unfold Queue.decr Queue.skeleton
  with_reducible rfl

theorem skeleton_incr : q.incr.skeleton fresh = (q.skeleton fresh).incr := by
  unfold Queue.incr Queue.skeleton
  with_reducible rfl

-- the counter is not to be computed
attribute [local irreducible] Queue.decr Queue.incr

theorem skeleton_access {β γ : Type*} {r : Option β} {k : β → State α} {f : β → γ} {k' : γ → State Unit}
    (h : ∀ b, r = some b → (k b).skeleton = k' (f b)) : (s.access r k).skeleton = s.skeleton.access (r.map f) k' := by
  cases r with
  | none => rfl
  | some b => exact h b rfl

theorem skeleton_func1Step (hI : Inv s) (a : Choice α) :
    (func1Step a s).map State.skeleton = func1Step a.skeleton s.skeleton := by
  have hfresh : s.func1.holds = true → s.func2.fresh = none := by
    intro hholds
    have hm := hI.holds1.1 hholds
    have hout := hI.out2 (by simp [hm])
    cases hp : s.func2 <;> simp [hp, Func2Pc.holds] at hout <;> rfl
  cases hp : s.func1 with
  | lock => cases a <;> simp [func1Step, hp, State.skeleton, Choice.skeleton, Function.comp_def]
  | test => cases a <;> simp [func1Step, hp, State.skeleton, Choice.skeleton, Queue.skeleton]
  | wait | unlock => cases a <;> simp [func1Step, hp, State.skeleton, Choice.skeleton]
  | waiting =>
    cases a with
    | spurious =>
      simp only [func1Step, hp, State.skeleton, Choice.skeleton]
      split
      · rfl
      · rfl
    | go =>
      simp only [func1Step, hp, State.skeleton, Choice.skeleton]
      split
      · rfl
      · simp [Function.comp_def, State.skeleton]
    | _ => simp [func1Step, hp, State.skeleton, Choice.skeleton]
  | head =>
    cases a with
    | go =>
      by_cases hn : s.q.next = none
      · simp [func1Step, hp, State.skeleton, Choice.skeleton, Queue.skeleton, Queue.drainEnd, hn]
      · simp [func1Step, hp, State.skeleton, Choice.skeleton, Queue.skeleton, hn]
    | _ => simp [func1Step, hp, State.skeleton, Choice.skeleton]
  | take => cases a <;> simp [func1Step, hp, State.skeleton, Choice.skeleton, Queue.skeleton]
  | decr nextJob =>
    cases a <;> simp [func1Step, hp, State.skeleton, Choice.skeleton, skeleton_decr]
  | signal =>
    cases a <;> simp [func1Step, hp, State.skeleton, Choice.skeleton, Function.comp_def]
  | unlink nextJob =>
    have hnone := hfresh (by rw [hp]; rfl)
    cases a with
    | go =>
      simp only [func1Step, hp, skeleton_func1, Choice.skeleton, Option.map_some, Option.some.injEq]
      have hderef : s.skeleton.q.deref s.skeleton.q.next = (s.q.deref s.q.next).map fun j => j.skeleton false :=
        skeleton_deref (by simp [hnone])
      rw [hderef]
      exact skeleton_access fun j _ => by simp [State.skeleton, Queue.skeleton, Job.skeleton]
    | _ => simp [func1Step, hp, Choice.skeleton]
  | print nextJob =>
    have hnone := hfresh (by rw [hp]; rfl)
    cases a with
    | go =>
      simp only [func1Step, hp, skeleton_func1, Choice.skeleton, Option.map_some, Option.some.injEq]
      have hderef : s.skeleton.q.deref nextJob = (s.q.deref nextJob).map fun j => j.skeleton false :=
        skeleton_deref (by simp [hnone])
      rw [hderef]
      exact skeleton_access fun j _ => by simp [State.skeleton, Queue.skeleton, Job.skeleton]
    | _ => simp [func1Step, hp, Choice.skeleton]
  | free nextJob =>
    cases a with
    | go =>
      simp only [func1Step, hp, skeleton_func1, Choice.skeleton, Option.map_some, Option.some.injEq]
      have hfree : s.skeleton.q.free nextJob = (s.q.free nextJob).map fun q => q.skeleton s.func2.fresh :=
        skeleton_free
      rw [hfree]
      exact skeleton_access fun q _ => rfl
    | _ => simp [func1Step, hp, Choice.skeleton]

/-- The pointer that walks is not at the new block. -/
theorem Filling.other {l₁ l₂ : List (Nat × Job α)} {t : Nat × Job α} {stop : Option Nat}
    (h : Filling q p (l₁ ++ t :: l₂) stop) : ∀ a, some t.1 = some a → p ≠ some a := by
  rintro a ha hp
  obtain ⟨n, hn⟩ := h.fresh
  have hnot := hn.notMem a hp
  simp only [Option.some.injEq] at ha
  subst ha
  simp at hnot

theorem skeleton_malloc {a : Nat} (garbage : Job α) :
    Queue.skeleton { q with heap := Function.update q.heap a (some garbage) } (some a) =
      { q.skeleton none with heap := Function.update (q.skeleton none).heap a (some ⟨(), none⟩) } := by
  simp only [Queue.skeleton, Queue.mk.injEq, true_and, and_true]
  ext b : 1
  by_cases hb : b = a
  · subst hb
    simp [Job.skeleton]
  · have hab : ¬ a = b := fun h => hb h.symm
    simp [Function.update_of_ne hb, hab]

theorem skeleton_func2Step (hI : Inv s) (a : Choice α) :
    (func2Step a s).map State.skeleton = func2Step a.skeleton s.skeleton := by
  have hok := hI.ok2
  cases hp : s.func2 with
  | lock => cases a <;> simp [func2Step, hp, State.skeleton, Choice.skeleton, Function.comp_def, Func2Pc.fresh]
  | test | testSignal =>
    cases a with
    | go =>
      by_cases hc : 5 ≤ s.q.queueCount
      · simp [func2Step, hp, State.skeleton, Choice.skeleton, Queue.skeleton, Func2Pc.fresh, hc]
      · simp [func2Step, hp, State.skeleton, Choice.skeleton, Queue.skeleton, Func2Pc.fresh, hc]
    | _ => simp [func2Step, hp, Choice.skeleton]
  | wait | unlock => cases a <;> simp [func2Step, hp, State.skeleton, Choice.skeleton, Func2Pc.fresh]
  | waiting =>
    cases a with
    | spurious =>
      simp only [func2Step, hp, State.skeleton, Choice.skeleton]
      split
      · simp [State.skeleton]
      · rfl
    | go =>
      simp only [func2Step, hp, State.skeleton, Choice.skeleton]
      split
      · rfl
      · simp [Function.comp_def, State.skeleton, Func2Pc.fresh]
    | _ => simp [func2Step, hp, Choice.skeleton]
  | malloc =>
    cases a with
    | malloc p garbage =>
      have hnone : (s.skeleton.q.heap p).isNone = (s.q.heap p).isNone := by
        simp [State.skeleton, Queue.skeleton]
      simp only [func2Step, hp, skeleton_func2, Choice.skeleton, hnone]
      split
      · simp only [Option.map_some, Option.some.injEq, State.skeleton, Func2Pc.fresh, hp]
        rw [skeleton_malloc]
      · rfl
    | _ => simp [func2Step, hp, Choice.skeleton]
  | read newJob =>
    cases a with
    | read x =>
      simp only [func2Step, hp, skeleton_func2, Choice.skeleton, Option.map_some, Option.some.injEq]
      have hstore : s.skeleton.q.store newJob (fun j => { j with str1 := () }) =
          (s.q.store newJob fun j => { j with str1 := x }).map fun q => q.skeleton newJob := by
        simp only [State.skeleton, hp, Func2Pc.fresh]
        exact skeleton_store (fun _ _ => Iff.rfl) fun _ _ _ => rfl
      rw [hstore]
      exact skeleton_access fun q _ => rfl
    | _ => simp [func2Step, hp, Choice.skeleton]
  | isEmpty newJob =>
    cases a with
    | go =>
      by_cases hn : s.q.next = none
      · simp [func2Step, hp, State.skeleton, Choice.skeleton, skeleton_next, Func2Pc.fresh, hn]
      · simp [func2Step, hp, State.skeleton, Choice.skeleton, skeleton_next, Func2Pc.fresh, hn]
    | _ => simp [func2Step, hp, Choice.skeleton]
  | setHead newJob =>
    cases a with
    | go =>
      simp only [func2Step, hp, State.skeleton, Choice.skeleton, Func2Pc.fresh]
      rfl
    | _ => simp [func2Step, hp, Choice.skeleton]
  | walkStart newJob =>
    cases a <;> simp [func2Step, hp, State.skeleton, Choice.skeleton, skeleton_next, Func2Pc.fresh]
  | walk newJob temp =>
    rw [hp] at hok
    obtain ⟨l₁, t, l₂, rfl, hf⟩ := hok
    cases a with
    | go =>
      simp only [func2Step, hp, skeleton_func2, Choice.skeleton, Option.map_some, Option.some.injEq]
      have hderef : s.skeleton.q.deref (some t.1) = (s.q.deref (some t.1)).map fun j => j.skeleton false := by
        simp only [State.skeleton, hp, Func2Pc.fresh]
        exact skeleton_deref hf.other
      rw [hderef]
      refine skeleton_access fun j _ => ?_
      by_cases hn : j.next = none
      · simp [State.skeleton, Job.skeleton, Func2Pc.fresh, hn, hp]
      · simp [State.skeleton, Job.skeleton, Func2Pc.fresh, hn, hp]
    | _ => simp [func2Step, hp, Choice.skeleton]
  | link newJob temp =>
    rw [hp] at hok
    obtain ⟨l, t, rfl, hf⟩ := hok
    cases a with
    | go =>
      simp only [func2Step, hp, skeleton_func2, Choice.skeleton, Option.map_some, Option.some.injEq]
      have hstore : s.skeleton.q.store (some t.1) (fun j => { j with next := newJob }) =
          (s.q.store (some t.1) fun j => { j with next := newJob }).map fun q => q.skeleton newJob := by
        simp only [State.skeleton, hp, Func2Pc.fresh]
        refine skeleton_store (fun _ _ => Iff.rfl) fun a j ha => ?_
        simp [Job.skeleton, hf.other a ha]
      rw [hstore]
      exact skeleton_access fun q _ => rfl
    | _ => simp [func2Step, hp, Choice.skeleton]
  | setNext newJob =>
    cases a with
    | go =>
      simp only [func2Step, hp, skeleton_func2, Choice.skeleton, Option.map_some, Option.some.injEq]
      have hstore : s.skeleton.q.store newJob (fun j => { j with next := none }) =
          (s.q.store newJob fun j => { j with next := none }).map fun q => q.skeleton none := by
        simp only [State.skeleton, hp, Func2Pc.fresh]
        refine skeleton_store (fun a ha => by simp [ha]) fun a j _ => ?_
        simp [Job.skeleton]
      rw [hstore]
      refine skeleton_access fun q _ => ?_
      have hderef : (q.skeleton none).deref newJob = (q.deref newJob).map fun j => j.skeleton false :=
        skeleton_deref (by simp)
      simp only [State.skeleton, Func2Pc.fresh, hderef]
      cases q.deref newJob <;> simp [Queue.skeleton]
    | _ => simp [func2Step, hp, Choice.skeleton]
  | incr =>
    cases a <;> simp [func2Step, hp, State.skeleton, Choice.skeleton, Func2Pc.fresh, skeleton_incr]
  | signal => cases a <;> simp [func2Step, hp, State.skeleton, Choice.skeleton, Function.comp_def, Func2Pc.fresh]

/-- Without the contents of the blocks, a step is a step. -/
theorem step_skeleton (hI : Inv s) (a : Thread × Choice α) :
    (step a s).map State.skeleton = step (a.1, a.2.skeleton) s.skeleton := by
  obtain ⟨t, a⟩ := a
  have hrun : s.skeleton.faulted = false := hI.running
  simp only [step, hI.running, hrun, Bool.false_eq_true, if_false]
  cases t with
  | func1 => exact skeleton_func1Step hI a
  | func2 => exact skeleton_func2Step hI a

end

theorem over_skeleton (s : State Bytes) (a : Choice Bytes) : (s.over a).skeleton = a.skeleton := by
  cases a with
  | read bytes => cases hp : s.func2 <;> simp [State.over, hp, Choice.skeleton]
  | _ => rfl

/-- Without the contents of the blocks, a run is a run: what the blocks hold decides nothing. -/
theorem exec_skeleton {s : State Bytes} (hI : Inv s) (as : List (Thread × Choice Bytes)) :
    (Run.exec byteStep as s).map State.skeleton =
      Run.exec step (as.map fun a => (a.1, a.2.skeleton)) s.skeleton := by
  induction as generalizing s with
  | nil => rfl
  | cons a as ih =>
    have hstep : (byteStep a s).map State.skeleton = step (a.1, a.2.skeleton) s.skeleton := by
      rw [byteStep, step_skeleton hI, over_skeleton]
    rw [List.map_cons, Run.exec, Run.exec, ← hstep]
    cases hs : byteStep a s with
    | none => rfl
    | some s' => exact ih (hI.step hs)

/-! ## The text that is printed -/

/-- The action, whatever the block that `malloc` gives holds. -/
def Choice.anyBlock : Choice Bytes → Choice Bytes
  | .malloc p _ => .malloc p ⟨[], none⟩
  | a => a

/-- The same run with other contents in the blocks that `malloc` gives. -/
structure Refilled (as bs : List (Thread × Choice Bytes)) : Prop where
  fits : ∀ b ∈ bs, Fits (fun _ => True) b
  same : (bs.map fun b => (b.1, b.2.anyBlock)) = as.map fun a => (a.1, a.2.anyBlock)

/-- Every message on the screen is what was read for it, up to the first NUL. -/
def ReadBack (as : List (Thread × Choice Bytes)) (u : State Bytes) : Prop :=
  u.q.printed.map printString = ((as.flatMap reads).take u.q.printed.length).map (some ∘ text)

section

variable {as bs : List (Thread × Choice Bytes)} {u v : State Bytes}

theorem reads_anyBlock (as : List (Thread × Choice Bytes)) :
    (as.map fun a => (a.1, a.2.anyBlock)).flatMap reads = as.flatMap reads := by
  rw [List.flatMap_map]
  congr 1
  ext ⟨t, a⟩ : 1
  cases a <;> rfl

theorem skeleton_anyBlock (as : List (Thread × Choice Bytes)) :
    ((as.map fun a => (a.1, a.2.anyBlock)).map fun a => (a.1, a.2.skeleton)) =
      as.map fun a => (a.1, a.2.skeleton) := by
  rw [List.map_map]
  congr 1
  ext ⟨t, a⟩ : 1
  cases a <;> rfl

theorem Refilled.reads (h : Refilled as bs) : bs.flatMap reads = as.flatMap reads := by
  rw [← reads_anyBlock bs, h.same, reads_anyBlock]

theorem Refilled.exec (h : Refilled as bs) :
    (Run.exec byteStep bs .init).map State.skeleton = (Run.exec byteStep as .init).map State.skeleton := by
  rw [exec_skeleton init_inv, exec_skeleton init_inv, ← skeleton_anyBlock bs, h.same, skeleton_anyBlock]

theorem Refilled.printed (h : Refilled as bs) (hu : Run.exec byteStep as .init = some u)
    (hv : Run.exec byteStep bs .init = some v) : v.q.printed.length = u.q.printed.length := by
  have hskeleton := h.exec
  rw [hu, hv] at hskeleton
  have hlength := congrArg (fun s : State Unit => s.q.printed.length) (Option.some.inj hskeleton)
  simpa [State.skeleton, Queue.skeleton] using hlength

/-- A read with a NUL in it is printed as it is, whatever the block held. -/
theorem map_printString {held : Bytes → Prop} {strs reads : List Bytes} (h : List.Forall₂ (Over held) strs reads)
    (hnul : ∀ bytes ∈ reads, 0 ∈ bytes) : strs.map printString = reads.map (some ∘ text) := by
  induction h with
  | nil => rfl
  | cons hover _ ih =>
    obtain ⟨old, -, -, -, rfl⟩ := hover
    rw [List.map_cons, List.map_cons, ih fun b hb => hnul b (List.mem_cons_of_mem _ hb),
      printString_nul (hnul _ List.mem_cons_self), Function.comp_apply]

/-- A block full of ones. -/
def ones : Bytes := List.replicate 2048 1

/-- Over a block full of ones, only a read with a NUL in it is printed at all. -/
theorem nul_of_printString {strs reads : List Bytes} (h : List.Forall₂ (Over (· = ones)) strs reads)
    (hprint : strs.map printString = reads.map (some ∘ text)) : ∀ bytes ∈ reads, 0 ∈ bytes := by
  induction h with
  | nil => simp
  | cons hover _ ih =>
    obtain ⟨old, -, rfl, -, rfl⟩ := hover
    rw [List.map_cons, List.map_cons, List.cons.injEq] at hprint
    rw [List.forall_mem_cons]
    refine ⟨?_, ih hprint.2⟩
    by_contra hnot
    have hones : ∀ n, 0 ∉ ones.drop n := fun n hmem =>
      absurd (List.eq_of_mem_replicate (List.mem_of_mem_drop hmem)) (by decide)
    have hnone := hprint.1
    rw [printString_none (by simp only [List.mem_append, not_or]; exact ⟨hnot, hones _⟩)] at hnone
    cases hnone

/-- The run with ones in every block. -/
def refill (a : Thread × Choice Bytes) : Thread × Choice Bytes :=
  match a with
  | (t, .malloc p garbage) => (t, .malloc p { garbage with str1 := ones })
  | a => a

theorem refill_fits (h : ∀ a ∈ as, Fits (fun _ => True) a) : ∀ b ∈ as.map refill, Fits (· = ones) b := by
  intro b hb
  obtain ⟨⟨t, a⟩, ha, rfl⟩ := List.mem_map.1 hb
  have hfits := h _ ha
  cases a with
  | malloc p garbage => exact ⟨List.length_replicate, rfl⟩
  | read bytes => exact hfits
  | _ => trivial

theorem Fits.weaken {held : Bytes → Prop} {a : Thread × Choice Bytes} (h : Fits held a) : Fits (fun _ => True) a := by
  obtain ⟨t, a⟩ := a
  cases a with
  | malloc p garbage => exact ⟨h.1, trivial⟩
  | read bytes => exact h
  | _ => trivial

theorem refilled_ones (h : ∀ a ∈ as, Fits (fun _ => True) a) : Refilled as (as.map refill) := by
  refine ⟨fun b hb => (refill_fits h b hb).weaken, ?_⟩
  rw [List.map_map]
  congr 1
  ext ⟨t, a⟩ : 1
  cases a <;> rfl

/-- **The text of the messages.** For a run and every other contents of the blocks: what is printed is what was read,
and does not depend on the contents, if and only if what was read for every printed message has a NUL in it. -/
theorem text_law (hfits : ∀ a ∈ as, Fits (fun _ => True) a) (hu : Run.exec byteStep as .init = some u) :
    ((∀ bs v, Refilled as bs → Run.exec byteStep bs .init = some v → ReadBack bs v) ∧
      ∀ bs bs' v v', Refilled as bs → Refilled as bs' → Run.exec byteStep bs .init = some v →
        Run.exec byteStep bs' .init = some v' → v.q.printed.map printString = v'.q.printed.map printString) ↔
      ∀ bytes ∈ (as.flatMap reads).take u.q.printed.length, 0 ∈ bytes := by
  constructor
  · rintro ⟨hback, -⟩
    have hones := refilled_ones hfits
    have hexec := hones.exec
    rw [hu, Option.map_some, Option.map_eq_some_iff] at hexec
    obtain ⟨v, hv, -⟩ := hexec
    have hreads := printed_reads (refill_fits hfits) hv
    rw [← hones.reads, ← hones.printed hu hv]
    exact nul_of_printString hreads (hback _ v hones hv)
  · intro hnul
    have hback : ∀ bs v, Refilled as bs → Run.exec byteStep bs .init = some v → ReadBack bs v := by
      intro bs v hbs hv
      rw [← hbs.reads, ← hbs.printed hu hv] at hnul
      exact map_printString (printed_reads hbs.fits hv) hnul
    refine ⟨hback, fun bs bs' v v' hbs hbs' hv hv' => ?_⟩
    have h := hback bs v hbs hv
    have h' := hback bs' v' hbs' hv'
    unfold ReadBack at h h'
    rw [h, h', hbs.reads, hbs'.reads, hbs.printed hu hv, hbs'.printed hu hv']

end

/-! ## Two runs -/

/-- `n` statements of thread `t`. -/
def statements (t : Thread) (n : Nat) : List (Thread × Choice Bytes) := List.replicate n (t, .go)

/-- `thread_func2` takes `m1`, reads `bytes` into a block at `p` that holds `old`, and goes on for `n` statements. -/
def enqueueBytes (old bytes : Bytes) (p n : Nat) : List (Thread × Choice Bytes) :=
  statements .func2 2 ++ (.func2, .malloc p ⟨old, some p⟩) :: (.func2, .read bytes) :: statements .func2 n

/-- The same bytes are read five times, then the queue is drained. -/
def fiveReads (old bytes : Bytes) : List (Thread × Choice Bytes) :=
  statements .func1 3 ++ enqueueBytes old bytes 10 6 ++ enqueueBytes old bytes 11 8 ++ enqueueBytes old bytes 12 9 ++
    enqueueBytes old bytes 13 10 ++ enqueueBytes old bytes 14 10 ++
    (.func2, .signal (some .func1)) :: (.func2, .go) :: statements .func1 33

/-- Blocks that are zeroed, and blocks that still hold `abc`. -/
def zeroed : Bytes := List.replicate 2048 0
def stale : Bytes := [97, 98, 99] ++ List.replicate 2045 0

theorem stale_length : stale.length = 2048 := by
  rw [stale, List.length_append, List.length_replicate]
  rfl

theorem fiveReads_fits {old bytes : Bytes} (hold : old.length = 2048) (hbytes : bytes.length ≤ 2048) :
    ∀ a ∈ fiveReads old bytes, Fits (fun _ => True) a := by
  simp only [fiveReads, enqueueBytes, statements, List.forall_mem_append, List.forall_mem_cons,
    List.forall_mem_replicate]
  simp [Fits, hold, hbytes]

theorem fiveReads_refilled {old old' bytes : Bytes} (hold : old'.length = 2048) (hbytes : bytes.length ≤ 2048) :
    Refilled (fiveReads old bytes) (fiveReads old' bytes) := by
  refine ⟨fiveReads_fits hold hbytes, ?_⟩
  simp [fiveReads, enqueueBytes, statements, Choice.anyBlock]

/-- `hi` is read without a NUL: a zeroed block gives `hi`, a block that held `abc` gives `hic`. -/
theorem text_leaks : ∃ u v : State Bytes, Refilled (fiveReads zeroed [104, 105]) (fiveReads stale [104, 105]) ∧
    Run.exec byteStep (fiveReads zeroed [104, 105]) .init = some u ∧
    Run.exec byteStep (fiveReads stale [104, 105]) .init = some v ∧
    u.q.printed.map printString = List.replicate 5 (some [104, 105]) ∧
    v.q.printed.map printString = List.replicate 5 (some [104, 105, 99]) ∧
    ¬ ReadBack (fiveReads stale [104, 105]) v := by
  have hu : (Run.exec byteStep (fiveReads zeroed [104, 105]) .init).map (fun s => s.q.printed.map printString) =
      some (List.replicate 5 (some [104, 105])) := by decide +kernel
  have hv : (Run.exec byteStep (fiveReads stale [104, 105]) .init).map (fun s => s.q.printed.map printString) =
      some (List.replicate 5 (some [104, 105, 99])) := by decide +kernel
  obtain ⟨u, hu, hprintu⟩ := Option.map_eq_some_iff.1 hu
  obtain ⟨v, hv, hprintv⟩ := Option.map_eq_some_iff.1 hv
  refine ⟨u, v, fiveReads_refilled stale_length (by decide), hu, hv, hprintu, hprintv, ?_⟩
  have hlength : v.q.printed.length = 5 := by simpa using congrArg List.length hprintv
  unfold ReadBack
  rw [hprintv, hlength]
  decide

/-- `hi` and its NUL are read. -/
theorem text_law_sample : ∃ u v : State Bytes,
    Run.exec byteStep (fiveReads zeroed [104, 105, 0]) .init = some u ∧
    Run.exec byteStep (fiveReads stale [104, 105, 0]) .init = some v ∧
    u.q.printed.map printString = v.q.printed.map printString := by
  have hu : (Run.exec byteStep (fiveReads zeroed [104, 105, 0]) .init).isSome = true := by decide +kernel
  have hv : (Run.exec byteStep (fiveReads stale [104, 105, 0]) .init).isSome = true := by decide +kernel
  obtain ⟨u, hu⟩ := Option.isSome_iff_exists.1 hu
  obtain ⟨v, hv⟩ := Option.isSome_iff_exists.1 hv
  have hzeroed : ∀ a ∈ fiveReads zeroed [104, 105, 0], Fits (fun _ => True) a :=
    fiveReads_fits List.length_replicate (by decide)
  have hnul : ∀ bytes ∈ ((fiveReads zeroed [104, 105, 0]).flatMap reads).take u.q.printed.length, 0 ∈ bytes := by
    intro bytes hbytes
    have hmem := List.mem_of_mem_take hbytes
    have hreads : (fiveReads zeroed [104, 105, 0]).flatMap reads = List.replicate 5 [104, 105, 0] := rfl
    rw [hreads] at hmem
    rw [List.eq_of_mem_replicate hmem]
    decide
  refine ⟨u, v, hu, hv, ((text_law hzeroed hu).2 hnul).2 _ _ u v ?_ ?_ hu hv⟩
  · exact fiveReads_refilled List.length_replicate (by decide)
  · exact fiveReads_refilled stale_length (by decide)

end CondQueue
