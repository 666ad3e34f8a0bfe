import LinuxLearning.Lib.Errno
import LinuxLearning.Lib.Run
/-!
# `proc_seq_example3.c`: the list behind `/proc/readme` and the life of its nodes

| here | there (`KernelDrivers_March2011/proc_seq_example3.c`) |
| --- | --- |
| `mydrv_seq_start` | `:33-49` |
| `mydrv_seq_next`  | `:56-68` |
| `Pc`, `step`      | `mydrv_init` (`:127-178`) and `mydrv_exit` (`:180-191`), one kernel call a step, and the readers |

`nodes` is what is linked into `mydrv_list`, in its order; `mydrv_exit` frees the nodes and unlinks none. A
reader can read while the entry is registered. `kmem_cache_alloc` is not checked: NULL is written to, which is
the end of `mydrv_init` (`oops`).

* `alive_iff` — `start` and `next` return live nodes exactly if all linked nodes are allocated;
* `readme_law` — the runs in which that is so and no error leaves the entry behind: `kmem_cache_create` succeeds
  and `mydrv_exit` frees nothing.
-/

namespace ProcSeq

open Errno (ENOMEM EINVAL)

/-! ## The iterator -/

section

variable {A : Type*}

/-- `list_for_each_entry` from `off` on. -/
def startFrom (pos : ℕ) : List A → ℕ → Option A
  | [], _ => none
  | p :: ps, off => if pos = off then some p else startFrom pos ps (off + 1)

def mydrv_seq_start (nodes : List A) (pos : ℕ) : Option A := startFrom pos nodes 0

variable [DecidableEq A]

/-- The node that `v->list.next` leads to, `none` for the head of the list. -/
def listNext : List A → A → Option A
  | p :: q :: ps, v => if p = v then some q else listNext (q :: ps) v
  | _, _ => none

/-- The node returned and the new position. -/
def mydrv_seq_next (nodes : List A) (v : A) (pos : ℕ) : Option A × ℕ := (listNext nodes v, pos + 1)

/-! ## The module -/

/-- The next kernel call of the module. -/
inductive Pc (A : Type*)
  /-- `create_proc_entry("readme", …)` -/
  | create
  /-- `kmem_cache_create("proc_test", …)` -/
  | cache
  /-- `kmem_cache_alloc`, in pass `i` of the loop -/
  | alloc (i : ℕ)
  /-- `sprintf` and `list_add_tail` -/
  | add (i : ℕ) (mydrv_new : A)
  /-- `mydrv_init` has returned 0 -/
  | loaded
  /-- `kmem_cache_free`, the nodes that are left to the loop of `mydrv_exit` -/
  | free (left : List A)
  /-- `kmem_cache_destroy(kmc1)` -/
  | destroy
  /-- `remove_proc_entry("readme", NULL)` -/
  | remove
  | unloaded
  /-- `mydrv_init` has returned an error -/
  | returned (ret : ℤ)
  /-- `mydrv_init` has written to NULL -/
  | oops

/-- The state of the module; `R` are the readers. -/
structure State (R A : Type*) where
  pc : Pc A
  registered : Bool
  nodes : List A
  /-- the `i` in the text of a node -/
  info : A → ℕ
  /-- allocated and not freed -/
  allocated : A → Bool
  /-- the node and the position of a reader -/
  reader : R → Option A × ℕ
  /-- what `mydrv_seq_show` has printed -/
  shown : List (R × ℕ)

inductive Event (R A : Type*)
  /-- the next kernel call of `mydrv_init` or `mydrv_exit` -/
  | go
  /-- the call fails -/
  | fail
  /-- `kmem_cache_alloc` returns this node -/
  | node (a : A)
  /-- `rmmod` -/
  | exit
  | start (r : R) (pos : ℕ)
  | show (r : R)
  | next (r : R)

variable {R : Type*} [DecidableEq R]

/-- A step of the module. -/
def moduleStep (e : Event R A) (s : State R A) : Option (State R A) :=
  match s.pc, e with
  | .create, .go => some { s with registered := true, pc := .cache }
  | .create, .fail => some { s with pc := .returned (-EINVAL) }
  | .cache, .go => some { s with pc := .alloc 0 }
  | .cache, .fail => some { s with pc := .returned (-ENOMEM) }
  | .alloc i, .node a =>
    if s.allocated a then none
    else some { s with allocated := Function.update s.allocated a true, pc := .add i a }
  | .alloc _, .fail => some { s with pc := .oops }
  | .add i a, .go =>
    some { s with
      info := Function.update s.info a i, nodes := s.nodes ++ [a],
      pc := if i + 1 < 100 then .alloc (i + 1) else .loaded }
  | .loaded, .exit => some { s with pc := .free s.nodes }
  | .free (a :: left), .go => some { s with allocated := Function.update s.allocated a false, pc := .free left }
  | .free [], .go => some { s with pc := .destroy }
  | .destroy, .go => some { s with pc := .remove }
  | .remove, .go => some { s with registered := false, pc := .unloaded }
  | _, _ => none

def step : Event R A → State R A → Option (State R A)
  | .start r pos, s =>
    if s.registered then
      some { s with reader := Function.update s.reader r (mydrv_seq_start s.nodes pos, pos) }
    else none
  | .show r, s =>
    if s.registered then
      (s.reader r).1.map fun v => { s with shown := s.shown ++ [(r, s.info v)] }
    else none
  | .next r, s =>
    if s.registered then
      (s.reader r).1.map fun v =>
        { s with reader := Function.update s.reader r (mydrv_seq_next s.nodes v (s.reader r).2) }
    else none
  | e, s => moduleStep e s

/-- The module before `mydrv_init`. -/
def start : State R A := ⟨.create, false, [], fun _ => 0, fun _ => false, fun _ => (none, 0), []⟩

/-- What `start` can return to a new reader, and `next` to one that is reading. -/
def State.Returns (s : State R A) (a : A) : Prop :=
  (∃ pos, mydrv_seq_start s.nodes pos = some a) ∨
    ∃ r v, (s.reader r).1 = some v ∧ (mydrv_seq_next s.nodes v (s.reader r).2).1 = some a

/-- While the entry is registered only allocated nodes are returned, and after an error it is not
registered. -/
def Alive (s : State R A) : Prop :=
  (s.registered = true → ∀ a, s.Returns a → s.allocated a = true) ∧
    ∀ ret, s.pc = .returned ret → ret < 0 → s.registered = false

/-- `kmem_cache_create` does not fail, and no node is freed. -/
def Spared (e : Event R A) (s : State R A) : Prop :=
  match s.pc, e with
  | .cache, .fail => False
  | .free (_ :: _), .go => False
  | _, _ => True

/-! ## What can be returned -/

omit [DecidableEq A] in
theorem startFrom_mem {nodes : List A} {pos off : ℕ} {a : A} (h : startFrom pos nodes off = some a) : a ∈ nodes := by
  induction nodes generalizing off with
  | nil => cases h
  | cons p ps ih =>
    unfold startFrom at h
    by_cases hoff : pos = off
    · rw [if_pos hoff, Option.some.injEq] at h
      exact h ▸ List.mem_cons_self
    · rw [if_neg hoff] at h
      exact List.mem_cons_of_mem _ (ih h)

omit [DecidableEq A] in
/-- Every node is found from some position. -/
theorem exists_startFrom {nodes : List A} {a : A} (h : a ∈ nodes) (off : ℕ) :
    ∃ pos, off ≤ pos ∧ startFrom pos nodes off = some a := by
  induction nodes generalizing off with
  | nil => cases h
  | cons p ps ih =>
    rcases List.mem_cons.1 h with rfl | htail
    · exact ⟨off, Nat.le_refl _, if_pos rfl⟩
    · obtain ⟨pos, hpos, hstart⟩ := ih htail (off + 1)
      have hne : pos ≠ off := by omega
      exact ⟨pos, by omega, (if_neg hne).trans hstart⟩

theorem listNext_mem {nodes : List A} {v a : A} (h : listNext nodes v = some a) : a ∈ nodes := by
  induction nodes with
  | nil => cases h
  | cons p ps ih =>
    cases ps with
    | nil => cases h
    | cons q ps =>
      unfold listNext at h
      by_cases hv : p = v
      · rw [if_pos hv, Option.some.injEq] at h
        simp [← h]
      · rw [if_neg hv] at h
        exact List.mem_cons_of_mem _ (ih h)

variable {s s' : State R A} {e : Event R A}

omit [DecidableEq R] in
/-- **What is returned** are the linked nodes. -/
theorem returns_iff {a : A} : s.Returns a ↔ a ∈ s.nodes := by
  constructor
  · rintro (⟨pos, h⟩ | ⟨r, v, -, h⟩)
    · exact startFrom_mem h
    · exact listNext_mem h
  · intro h
    obtain ⟨pos, -, hstart⟩ := exists_startFrom h 0
    exact .inl ⟨pos, hstart⟩

omit [DecidableEq R] in
theorem alive_iff : Alive s ↔ (s.registered = true → ∀ a ∈ s.nodes, s.allocated a = true) ∧
    ∀ ret, s.pc = .returned ret → ret < 0 → s.registered = false := by
  simp only [Alive, returns_iff]

/-! ## The module, step by step -/

/-- When the entry is registered, and what is linked. -/
def Stage (s : State R A) : Prop :=
  match s.pc with
  | .create => s.registered = false ∧ s.nodes = []
  | .cache | .alloc _ | .loaded | .destroy | .remove => s.registered = true
  | .add _ a => s.registered = true ∧ s.allocated a = true
  | .free left => s.registered = true ∧ ∀ a ∈ left, a ∈ s.nodes
  | .unloaded | .returned _ | .oops => True

omit [DecidableEq R] in
/-- Where `mydrv_init` has not returned an error, the nodes are all there is to say. -/
theorem alive_of_pc (hpc : ∀ ret, s.pc ≠ .returned ret) :
    Alive s ↔ (s.registered = true → ∀ a ∈ s.nodes, s.allocated a = true) := by
  rw [alive_iff]
  exact ⟨fun h => h.1, fun h => ⟨h, fun ret hret => absurd hret (hpc ret)⟩⟩

omit [DecidableEq R] in
theorem alive_with_pc {pc : Pc A} (hpc : ∀ ret, pc ≠ .returned ret) (halive : Alive s) :
    Alive { s with pc := pc } :=
  (alive_of_pc hpc).2 (alive_iff.1 halive).1

omit [DecidableEq R] in
/-- A step of the module keeps the stages, and from a state with live nodes it leads to one exactly if it is
spared. -/
theorem moduleStep_spec (hstage : Stage s) (hs : moduleStep e s = some s') :
    Stage s' ∧ (Alive s → (Alive s' ↔ Spared e s)) := by
  obtain ⟨pc, registered, nodes, info, allocated, reader, shown⟩ := s
  cases pc with
  | create =>
    obtain ⟨rfl, rfl⟩ : registered = false ∧ nodes = [] := hstage
    cases e with
    | go =>
      cases hs
      refine ⟨rfl, fun _ => iff_of_true ?_ trivial⟩
      rw [alive_of_pc (by rintro ret ⟨⟩)]
      exact fun _ a ha => absurd ha List.not_mem_nil
    | fail =>
      cases hs
      refine ⟨trivial, fun _ => iff_of_true ?_ trivial⟩
      exact alive_iff.2 ⟨by rintro ⟨⟩, fun ret _ _ => rfl⟩
    | _ => cases hs
  | cache =>
    obtain rfl : registered = true := hstage
    cases e with
    | go =>
      cases hs
      exact ⟨rfl, fun halive => iff_of_true (alive_with_pc (by rintro ret ⟨⟩) halive) trivial⟩
    | fail =>
      -- `return -ENOMEM` with `/proc/readme` in place
      cases hs
      refine ⟨trivial, fun _ => iff_of_false (fun halive => ?_) id⟩
      exact Bool.noConfusion ((alive_iff.1 halive).2 (-ENOMEM) rfl (by decide))
    | _ => cases hs
  | alloc i =>
    obtain rfl : registered = true := hstage
    cases e with
    | node a =>
      simp only [moduleStep] at hs
      split at hs
      · cases hs
      · cases hs
        refine ⟨⟨rfl, Function.update_self ..⟩, fun halive => iff_of_true ?_ trivial⟩
        rw [alive_of_pc (by rintro ret ⟨⟩)] at halive ⊢
        intro _ b hb
        have hb' := halive rfl b hb
        by_cases hba : b = a
        · exact hba ▸ Function.update_self ..
        · exact (Function.update_of_ne hba ..).trans hb'
    | fail =>
      cases hs
      exact ⟨trivial, fun halive => iff_of_true (alive_with_pc (by rintro ret ⟨⟩) halive) trivial⟩
    | _ => cases hs
  | add i a =>
    obtain ⟨rfl, ha⟩ : registered = true ∧ allocated a = true := hstage
    cases e with
    | go =>
      cases hs
      refine ⟨?_, fun halive => iff_of_true ?_ trivial⟩
      · unfold Stage
        by_cases hi : i + 1 < 100 <;> simp [hi]
      · have hnodes := (alive_iff.1 halive).1 rfl
        refine (alive_of_pc fun ret => ?_).2 fun _ b hb => ?_
        · dsimp only
          split <;> rintro ⟨⟩
        · rcases List.mem_append.1 hb with hold | hnew
          · exact hnodes b hold
          · exact List.mem_singleton.1 hnew ▸ ha
    | _ => cases hs
  | loaded =>
    obtain rfl : registered = true := hstage
    cases e with
    | exit =>
      cases hs
      exact ⟨⟨rfl, fun _ => id⟩, fun halive => iff_of_true (alive_with_pc (by rintro ret ⟨⟩) halive) trivial⟩
    | _ => cases hs
  | free left =>
    obtain ⟨rfl, hleft⟩ : registered = true ∧ ∀ a ∈ left, a ∈ nodes := hstage
    cases e with
    | go =>
      cases left with
      | nil =>
        cases hs
        exact ⟨rfl, fun halive => iff_of_true (alive_with_pc (by rintro ret ⟨⟩) halive) trivial⟩
      | cons a left =>
        -- the node is freed while it is linked and the entry registered
        cases hs
        refine ⟨⟨rfl, fun b hb => hleft b (List.mem_cons_of_mem a hb)⟩,
          fun _ => iff_of_false (fun halive => ?_) id⟩
        have ha := (alive_iff.1 halive).1 rfl a (hleft a List.mem_cons_self)
        exact Bool.noConfusion ((Function.update_self a false allocated).symm.trans ha)
    | _ => cases left <;> cases hs
  | destroy =>
    obtain rfl : registered = true := hstage
    cases e with
    | go =>
      cases hs
      exact ⟨rfl, fun halive => iff_of_true (alive_with_pc (by rintro ret ⟨⟩) halive) trivial⟩
    | _ => cases hs
  | remove =>
    cases e with
    | go =>
      cases hs
      refine ⟨trivial, fun _ => iff_of_true ?_ trivial⟩
      rw [alive_of_pc (by rintro ret ⟨⟩)]
      rintro ⟨⟩
    | _ => cases hs
  | unloaded => cases e <;> cases hs
  | returned ret => cases e <;> cases hs
  | oops => cases e <;> cases hs

/-! ## The readers -/

omit [DecidableEq A] [DecidableEq R] in
theorem spared_of_ne (hgo : e ≠ .go) (hfail : e ≠ .fail) : Spared e s := by
  unfold Spared
  split
  · exact hfail rfl
  · exact hgo rfl
  · trivial

/-- Nothing but what a reader has is changed. -/
def SameModule (s s' : State R A) : Prop :=
  s'.pc = s.pc ∧ s'.registered = s.registered ∧ s'.nodes = s.nodes ∧ s'.allocated = s.allocated

omit [DecidableEq A] [DecidableEq R] in
theorem stage_same (hsame : SameModule s s') : Stage s' ↔ Stage s := by
  obtain ⟨hpc, hregistered, hnodes, hallocated⟩ := hsame
  simp only [Stage, hpc, hregistered, hnodes, hallocated]

omit [DecidableEq R] in
theorem alive_same (hsame : SameModule s s') : Alive s' ↔ Alive s := by
  obtain ⟨hpc, hregistered, hnodes, hallocated⟩ := hsame
  simp only [alive_iff, hpc, hregistered, hnodes, hallocated]

/-- A step is one of the module or one of a reader. -/
theorem step_cases (hs : step e s = some s') : moduleStep e s = some s' ∨ SameModule s s' ∧ Spared e s := by
  cases e with
  | start r pos =>
    simp only [step] at hs
    split at hs
    · cases hs
      exact .inr ⟨⟨rfl, rfl, rfl, rfl⟩, spared_of_ne nofun nofun⟩
    · cases hs
  | «show» r =>
    simp only [step] at hs
    split at hs
    · obtain ⟨v, -, rfl⟩ := Option.map_eq_some_iff.1 hs
      exact .inr ⟨⟨rfl, rfl, rfl, rfl⟩, spared_of_ne nofun nofun⟩
    · cases hs
  | next r =>
    simp only [step] at hs
    split at hs
    · obtain ⟨v, -, rfl⟩ := Option.map_eq_some_iff.1 hs
      exact .inr ⟨⟨rfl, rfl, rfl, rfl⟩, spared_of_ne nofun nofun⟩
    · cases hs
  | _ => exact .inl hs

/-- **One step**, of the module or of a reader. -/
theorem step_spec (hstage : Stage s) (hs : step e s = some s') :
    Stage s' ∧ (Alive s → (Alive s' ↔ Spared e s)) := by
  rcases step_cases hs with hmodule | ⟨hsame, hspared⟩
  · exact moduleStep_spec hstage hmodule
  · exact ⟨(stage_same hsame).2 hstage, fun halive => iff_of_true ((alive_same hsame).2 halive) hspared⟩

/-- The steps that are not spared are always possible. -/
theorem spared_of_step_eq_none (hs : step e s = none) : Spared e s := by
  unfold Spared
  split
  case h_1 hpc => simp [step, moduleStep, hpc] at hs
  case h_2 hpc => simp [step, moduleStep, hpc] at hs
  case h_3 => trivial

omit [DecidableEq R] in
theorem alive_start : Alive (start : State R A) :=
  alive_iff.2 ⟨by rintro ⟨⟩, by rintro ret ⟨⟩⟩

/-- **The life of the nodes.** The list of `/proc/readme` is alive whenever it can be read, and no error leaves
the entry behind, in exactly the runs in which `kmem_cache_create` does not fail and `mydrv_exit` frees no
node. -/
theorem readme_law (es : List (Event R A)) :
    Run.Throughout step Alive es start ↔ Run.Along step Spared es start :=
  Run.throughout_iff_along (fun _ _ _ => spared_of_step_eq_none) (fun _ _ _ hstage hs => (step_spec hstage hs).1)
    (fun _ _ _ hstage halive hs => (step_spec hstage hs).2 halive) ⟨rfl, rfl⟩ alive_start

end

/-- `kmem_cache_create` fails: `mydrv_init` returns `-ENOMEM`, and `/proc/readme` stays. -/
theorem readme_left :
    ∃ s : State Unit ℕ, Run.exec step [.go, .fail] start = some s ∧ s.pc = .returned (-ENOMEM) ∧
      s.registered = true ∧ ¬ Alive s := by
  refine ⟨_, rfl, rfl, rfl, fun halive => ?_⟩
  exact Bool.noConfusion (halive.2 (-ENOMEM) rfl (by decide))

end ProcSeq
