import LinuxLearning.Lib.Run
/-!
# Processes that fork, wait and end

A program says what a process does next, by a state of its own. A process that has ended is a zombie until it is
waited for; the children it leaves behind have no parent in the table, and are waited for from outside. `max` is the
number of entries the table has room for; a `fork` may fail for other reasons too.

* `move_of_step`, `step_of_move` — the steps;
* `Sound` — parents have not ended and are older than their children, and what a process has forked is what it has
  waited for and the children it has;
* `Keeps.run` — what every statement of a program keeps for the process that makes it, all processes keep;
* `some_move` — a process stays where no statement leads out;
* `some_step` — as long as there is a process, there is a step;
* `bounded` — a program with a rank has no run that is longer than it.
-/

namespace Procs

variable {σ : Type*}

/-- What a process does next, and the states it does it for. -/
inductive Act (σ : Type*)
  | fork (child parent failed : σ)
  /-- `waitpid(-1, ...)` -/
  | wait (found failed : σ)
  /-- `execl`: `done` is the new program -/
  | exec (done failed : σ)
  | exit

structure Proc (σ : Type*) where
  parent : Option ℕ
  /-- where it is, or where it was when it ended -/
  state : σ
  zombie : Bool
  /-- its children so far, the last one first -/
  forked : List ℕ
  /-- those it has waited for -/
  waited : List ℕ
  born : ℕ

structure Table (σ : Type*) where
  procs : Finset ℕ
  proc : ℕ → Proc σ
  /-- those that have ended, the last one first -/
  ended : List (Proc σ)
  births : ℕ

/-- One process. -/
def Table.start (pid : ℕ) (st : σ) : Table σ := ⟨{pid}, fun _ => ⟨none, st, false, [], [], 0⟩, [], 1⟩

def Table.running (t : Table σ) (pid : ℕ) : Prop := pid ∈ t.procs ∧ (t.proc pid).zombie = false

instance (t : Table σ) (pid : ℕ) : Decidable (t.running pid) := inferInstanceAs (Decidable (_ ∧ _))

def Table.children (t : Table σ) (pid : ℕ) : Finset ℕ := t.procs.filter fun q => (t.proc q).parent = some pid

def Table.goto (t : Table σ) (pid : ℕ) (st : σ) : Table σ :=
  { t with proc := Function.update t.proc pid { t.proc pid with state := st } }

def Table.fork (t : Table σ) (pid child : ℕ) (st parent : σ) : Table σ :=
  { t with
    procs := insert child t.procs
    proc := Function.update
      (Function.update t.proc pid { t.proc pid with state := parent, forked := child :: (t.proc pid).forked })
      child ⟨some pid, st, false, [], [], t.births⟩
    births := t.births + 1 }

def Table.wait (t : Table σ) (pid child : ℕ) (found : σ) : Table σ :=
  { t with
    procs := t.procs.erase child
    proc := Function.update t.proc pid { t.proc pid with state := found, waited := child :: (t.proc pid).waited } }

/-- Its children have no parent any more. -/
def Table.exit (t : Table σ) (pid : ℕ) : Table σ :=
  { t with
    proc q :=
      let p := if q = pid then { t.proc q with zombie := true } else t.proc q
      if p.parent = some pid then { p with parent := none } else p
    ended := t.proc pid :: t.ended }

def Table.reap (t : Table σ) (pid : ℕ) : Table σ := { t with procs := t.procs.erase pid }

/-- What happens, and what the kernel answers: the child of a `fork` or the child that has been waited for, if any. -/
inductive Event
  | fork (pid : ℕ) (child : Option ℕ)
  | wait (pid : ℕ) (child : Option ℕ)
  | exec (pid : ℕ) (ok : Bool)
  | exit (pid : ℕ)
  /-- a zombie without a parent -/
  | reap (pid : ℕ)
  deriving DecidableEq, Repr

section

variable (prog : σ → Act σ) (max : ℕ)

/-- `wait` blocks while there are children and none of them is a zombie. -/
def step : Event → Table σ → Option (Table σ)
  | .fork pid child, t =>
    if t.running pid then match prog (t.proc pid).state, child with
      | .fork st parent _, some c =>
        if c ∉ t.procs ∧ t.procs.card < max then some (t.fork pid c st parent) else none
      | .fork _ _ failed, none => some (t.goto pid failed)
      | _, _ => none
    else none
  | .wait pid child, t =>
    if t.running pid then match prog (t.proc pid).state, child with
      | .wait found _, some c =>
        if c ∈ t.children pid ∧ (t.proc c).zombie = true then some (t.wait pid c found) else none
      | .wait _ failed, none => if t.children pid = ∅ then some (t.goto pid failed) else none
      | _, _ => none
    else none
  | .exec pid ok, t =>
    if t.running pid then match prog (t.proc pid).state with
      | .exec done failed => some (t.goto pid (if ok then done else failed))
      | _ => none
    else none
  | .exit pid, t =>
    if t.running pid then match prog (t.proc pid).state with
      | .exit => some (t.exit pid)
      | _ => none
    else none
  | .reap pid, t =>
    if pid ∈ t.procs ∧ (t.proc pid).zombie = true ∧ (t.proc pid).parent = none then some (t.reap pid) else none

/-- What changes nothing but the state of the process. -/
inductive Goes (t : Table σ) (pid : ℕ) : Event → σ → Prop
  | forkFails {c p f : σ} (hact : prog (t.proc pid).state = .fork c p f) : Goes t pid (.fork pid none) f
  | waitFails {o f : σ} (hact : prog (t.proc pid).state = .wait o f) (hnone : t.children pid = ∅) :
    Goes t pid (.wait pid none) f
  | exec {o f : σ} (hact : prog (t.proc pid).state = .exec o f) : Goes t pid (.exec pid true) o
  | execFails {o f : σ} (hact : prog (t.proc pid).state = .exec o f) : Goes t pid (.exec pid false) f

/-- The steps. -/
inductive Move (t : Table σ) : Event → Table σ → Prop
  | goto {pid : ℕ} {e : Event} {st : σ} (hrun : t.running pid) (hgoes : Goes prog t pid e st) : Move t e (t.goto pid st)
  | fork {pid child : ℕ} {st parent failed : σ} (hrun : t.running pid)
      (hact : prog (t.proc pid).state = .fork st parent failed) (hnew : child ∉ t.procs) (hroom : t.procs.card < max) :
      Move t (.fork pid (some child)) (t.fork pid child st parent)
  | wait {pid child : ℕ} {found failed : σ} (hrun : t.running pid)
      (hact : prog (t.proc pid).state = .wait found failed) (hchild : child ∈ t.children pid)
      (hzombie : (t.proc child).zombie = true) : Move t (.wait pid (some child)) (t.wait pid child found)
  | exit {pid : ℕ} (hrun : t.running pid) (hact : prog (t.proc pid).state = .exit) : Move t (.exit pid) (t.exit pid)
  | reap {pid : ℕ} (hpid : pid ∈ t.procs) (hzombie : (t.proc pid).zombie = true)
      (hparent : (t.proc pid).parent = none) : Move t (.reap pid) (t.reap pid)

end

variable {prog : σ → Act σ} {max : ℕ} {t t' : Table σ} {pid : ℕ} {e : Event}

theorem move_of_step (h : step prog max e t = some t') : Move prog max t e t' := by
  cases e with
  | fork pid child =>
    replace h := Option.ite_none_right_eq_some.1 h
    obtain ⟨hrun, h⟩ := h
    split at h
    · next hact =>
      obtain ⟨⟨hnew, hroom⟩, h⟩ := Option.ite_none_right_eq_some.1 h
      cases h
      exact .fork hrun hact hnew hroom
    · next hact =>
      cases h
      exact .goto hrun (.forkFails hact)
    · cases h
  | wait pid child =>
    replace h := Option.ite_none_right_eq_some.1 h
    obtain ⟨hrun, h⟩ := h
    split at h
    · next hact =>
      obtain ⟨⟨hchild, hzombie⟩, h⟩ := Option.ite_none_right_eq_some.1 h
      cases h
      exact .wait hrun hact hchild hzombie
    · next hact =>
      obtain ⟨hnone, h⟩ := Option.ite_none_right_eq_some.1 h
      cases h
      exact .goto hrun (.waitFails hact hnone)
    · cases h
  | exec pid ok =>
    obtain ⟨hrun, h⟩ := Option.ite_none_right_eq_some.1 h
    split at h
    · next hact =>
      cases h
      cases ok with
      | false => exact .goto hrun (.execFails hact)
      | true => exact .goto hrun (.exec hact)
    · cases h
  | exit pid =>
    obtain ⟨hrun, h⟩ := Option.ite_none_right_eq_some.1 h
    split at h
    · next hact =>
      cases h
      exact .exit hrun hact
    · cases h
  | reap pid =>
    obtain ⟨⟨hpid, hzombie, hparent⟩, h⟩ := Option.ite_none_right_eq_some.1 h
    cases h
    exact .reap hpid hzombie hparent

theorem step_of_move (h : Move prog max t e t') : step prog max e t = some t' := by
  cases h with
  | goto hrun hgoes =>
    cases hgoes with
    | forkFails hact => simp only [step, if_pos hrun, hact]
    | waitFails hact hnone => simp only [step, if_pos hrun, hact, if_pos hnone]
    | exec hact =>
      simp only [step, if_pos hrun, hact]
      rfl
    | execFails hact =>
      simp only [step, if_pos hrun, hact]
      rfl
  | fork hrun hact hnew hroom =>
    simp only [step, if_pos hrun, hact]
    exact if_pos ⟨hnew, hroom⟩
  | wait hrun hact hchild hzombie =>
    simp only [step, if_pos hrun, hact]
    exact if_pos ⟨hchild, hzombie⟩
  | exit hrun hact => simp only [step, if_pos hrun, hact]
  | reap hpid hzombie hparent => exact if_pos ⟨hpid, hzombie, hparent⟩

/-! ## Parents and children -/

/-- Parents have not ended and are older than their children; what a process has forked is what it has waited for, and
its children. -/
structure Sound (t : Table σ) : Prop where
  parent : ∀ q ∈ t.procs, ∀ p, (t.proc q).parent = some p → t.running p ∧ (t.proc p).born < (t.proc q).born
  births : ∀ q ∈ t.procs, (t.proc q).born < t.births
  accounted : ∀ p, t.running p →
    ((t.proc p).forked : Multiset ℕ) = ((t.proc p).waited : Multiset ℕ) + (t.children p).val

theorem mem_children {p q : ℕ} : q ∈ t.children p ↔ q ∈ t.procs ∧ (t.proc q).parent = some p := Finset.mem_filter

theorem start_sound (pid : ℕ) (st : σ) : Sound (Table.start pid st) where
  parent _ _ _ h := by cases h
  births _ _ := Nat.zero_lt_one
  accounted p _ := by simp [Table.start, Table.children]

theorem running_goto {st : σ} {p : ℕ} : (t.goto pid st).running p ↔ t.running p := by
  unfold Table.running Table.goto
  by_cases hp : p = pid
  · subst hp
    simp
  · simp [hp]

theorem children_goto {st : σ} {p : ℕ} : (t.goto pid st).children p = t.children p := by
  refine Finset.filter_congr fun q _ => ?_
  unfold Table.goto
  by_cases hq : q = pid
  · subst hq
    simp
  · simp [hq]

theorem Sound.goto (h : Sound t) (st : σ) : Sound (t.goto pid st) := by
  have hsame : ∀ q, ((t.goto pid st).proc q).parent = (t.proc q).parent ∧
      ((t.goto pid st).proc q).born = (t.proc q).born ∧ ((t.goto pid st).proc q).forked = (t.proc q).forked ∧
      ((t.goto pid st).proc q).waited = (t.proc q).waited := by
    intro q
    unfold Table.goto
    by_cases hq : q = pid
    · subst hq
      simp
    · simp [hq]
  constructor
  · intro q hq p hp
    rw [running_goto, (hsame q).2.1, (hsame p).2.1]
    rw [(hsame q).1] at hp
    exact h.parent q hq p hp
  · intro q hq
    rw [(hsame q).2.1]
    exact h.births q hq
  · intro p hp
    rw [(hsame p).2.2.1, (hsame p).2.2.2, children_goto]
    exact h.accounted p (running_goto.1 hp)

section

variable {child : ℕ} {st parent : σ}

theorem fork_child : (t.fork pid child st parent).proc child = ⟨some pid, st, false, [], [], t.births⟩ := by
  simp [Table.fork]

theorem fork_parent (hne : pid ≠ child) : (t.fork pid child st parent).proc pid =
    { t.proc pid with state := parent, forked := child :: (t.proc pid).forked } := by
  simp [Table.fork, hne]

theorem fork_other {q : ℕ} (hq : q ≠ pid) (hchild : q ≠ child) :
    (t.fork pid child st parent).proc q = t.proc q := by
  simp [Table.fork, hq, hchild]

/-- What a `fork` leaves alone in the processes there are. -/
theorem fork_same {q : ℕ} (hq : q ≠ child) :
    ((t.fork pid child st parent).proc q).parent = (t.proc q).parent ∧
      ((t.fork pid child st parent).proc q).born = (t.proc q).born ∧
      ((t.fork pid child st parent).proc q).zombie = (t.proc q).zombie ∧
      ((t.fork pid child st parent).proc q).waited = (t.proc q).waited := by
  by_cases hpid : q = pid
  · subst hpid
    rw [fork_parent hq]
    simp
  · rw [fork_other hpid hq]
    simp

theorem running_fork (hnew : child ∉ t.procs) {p : ℕ} :
    (t.fork pid child st parent).running p ↔ p = child ∨ t.running p := by
  by_cases hp : p = child
  · subst hp
    simp [Table.running, Table.fork]
  · unfold Table.running
    rw [(fork_same hp).2.2.1]
    simp [Table.fork, hp]

theorem children_fork (hnew : child ∉ t.procs) (p : ℕ) :
    (t.fork pid child st parent).children p = if p = pid then insert child (t.children pid) else t.children p := by
  have hold : (t.procs.filter fun q => ((t.fork pid child st parent).proc q).parent = some p) = t.children p := by
    refine Finset.filter_congr fun q hq => ?_
    rw [(fork_same (ne_of_mem_of_not_mem hq hnew)).1]
  unfold Table.children at hold ⊢
  show (insert child t.procs).filter _ = _
  rw [Finset.filter_insert, hold, fork_child]
  by_cases hp : p = pid
  · subst hp
    simp
  · simp [hp, Ne.symm hp]

theorem Sound.fork (h : Sound t) (hrun : t.running pid) (hnew : child ∉ t.procs) :
    Sound (t.fork pid child st parent) := by
  have hne : ∀ q ∈ t.procs, q ≠ child := fun q hq => ne_of_mem_of_not_mem hq hnew
  have hbirths : (t.fork pid child st parent).births = t.births + 1 := rfl
  constructor
  · intro q hq p hp
    rw [running_fork hnew]
    rcases Finset.mem_insert.1 hq with rfl | hq
    · rw [fork_child] at hp
      cases hp
      rw [fork_child, (fork_same (hne pid hrun.1)).2.1]
      exact ⟨.inr hrun, h.births pid hrun.1⟩
    · rw [(fork_same (hne q hq)).1] at hp
      obtain ⟨hp', hborn⟩ := h.parent q hq p hp
      rw [(fork_same (hne q hq)).2.1, (fork_same (hne p hp'.1)).2.1]
      exact ⟨.inr hp', hborn⟩
  · intro q hq
    rw [hbirths]
    rcases Finset.mem_insert.1 hq with rfl | hq
    · rw [fork_child]
      exact Nat.lt_succ_self _
    · rw [(fork_same (hne q hq)).2.1]
      exact Nat.lt_succ_of_lt (h.births q hq)
  · intro p hp
    rw [children_fork hnew]
    rcases (running_fork hnew).1 hp with rfl | hold
    · -- nobody can be a child of the new one
      have hnone : t.children p = ∅ := by
        refine Finset.eq_empty_of_forall_notMem fun q hq => ?_
        obtain ⟨hq, hparent⟩ := mem_children.1 hq
        exact hnew (h.parent q hq p hparent).1.1
      rw [fork_child, if_neg (hne pid hrun.1).symm, hnone]
      rfl
    · have hacc := h.accounted p hold
      by_cases hpid : p = pid
      · subst hpid
        rw [fork_parent (hne p hold.1), if_pos rfl, Finset.insert_val_of_notMem fun hmem => hnew (mem_children.1 hmem).1,
          Multiset.add_cons, ← hacc]
        rfl
      · rw [fork_other hpid (hne p hold.1), if_neg hpid]
        exact hacc

end

section

variable {child : ℕ} {found : σ}

theorem wait_same (q : ℕ) : ((t.wait pid child found).proc q).parent = (t.proc q).parent ∧
    ((t.wait pid child found).proc q).born = (t.proc q).born ∧
    ((t.wait pid child found).proc q).zombie = (t.proc q).zombie ∧
    ((t.wait pid child found).proc q).forked = (t.proc q).forked := by
  unfold Table.wait
  by_cases hq : q = pid
  · subst hq
    simp
  · simp [hq]

/-- A zombie that goes was not running. -/
theorem running_erase {p : ℕ} (hzombie : (t.proc child).zombie = true) :
    p ∈ t.procs.erase child ∧ (t.proc p).zombie = false ↔ t.running p := by
  rw [Finset.mem_erase]
  constructor
  · rintro ⟨⟨-, hp⟩, hz⟩
    exact ⟨hp, hz⟩
  · rintro ⟨hp, hz⟩
    refine ⟨⟨?_, hp⟩, hz⟩
    rintro rfl
    rw [hzombie] at hz
    cases hz

theorem running_wait {p : ℕ} (hzombie : (t.proc child).zombie = true) :
    (t.wait pid child found).running p ↔ t.running p := by
  unfold Table.running
  rw [(wait_same p).2.2.1]
  exact running_erase hzombie

theorem children_wait (p : ℕ) : (t.wait pid child found).children p = (t.children p).erase child := by
  unfold Table.children
  simp only [wait_same]
  exact Finset.filter_erase _ _ _

theorem Sound.wait (h : Sound t) (hchild : child ∈ t.children pid) (hzombie : (t.proc child).zombie = true) :
    Sound (t.wait pid child found) := by
  obtain ⟨-, hparent⟩ := mem_children.1 hchild
  constructor
  · intro q hq p hp
    rw [(wait_same q).1] at hp
    rw [running_wait hzombie, (wait_same q).2.1, (wait_same p).2.1]
    exact h.parent q (Finset.mem_of_mem_erase hq) p hp
  · intro q hq
    rw [(wait_same q).2.1]
    exact h.births q (Finset.mem_of_mem_erase hq)
  · intro p hp
    have hacc := h.accounted p ((running_wait hzombie).1 hp)
    rw [(wait_same p).2.2.2, children_wait, hacc]
    by_cases hpid : p = pid
    · subst hpid
      have hwaited : ((t.wait p child found).proc p).waited = child :: (t.proc p).waited := by simp [Table.wait]
      rw [hwaited, ← Multiset.cons_coe, Multiset.cons_add, ← Multiset.add_cons, Finset.erase_val,
        Multiset.cons_erase hchild]
    · have hwaited : ((t.wait pid child found).proc p).waited = (t.proc p).waited := by simp [Table.wait, hpid]
      rw [hwaited, Finset.erase_eq_of_notMem]
      intro hmem
      rw [(mem_children.1 hmem).2] at hparent
      exact hpid (Option.some.inj hparent)

end

theorem exit_parent (q : ℕ) : ((t.exit pid).proc q).parent =
    if (t.proc q).parent = some pid then none else (t.proc q).parent := by
  unfold Table.exit
  dsimp only
  split <;> split <;> simp_all

theorem exit_same (q : ℕ) : ((t.exit pid).proc q).state = (t.proc q).state ∧
    ((t.exit pid).proc q).zombie = (if q = pid then true else (t.proc q).zombie) ∧
    ((t.exit pid).proc q).forked = (t.proc q).forked ∧ ((t.exit pid).proc q).waited = (t.proc q).waited ∧
    ((t.exit pid).proc q).born = (t.proc q).born := by
  unfold Table.exit
  dsimp only
  split <;> split <;> simp

theorem running_exit {p : ℕ} : (t.exit pid).running p ↔ p ≠ pid ∧ t.running p := by
  unfold Table.running
  rw [(exit_same p).2.1]
  by_cases hp : p = pid
  · simp [hp]
  · simp [hp, Table.exit]

theorem children_exit (p : ℕ) : (t.exit pid).children p = if p = pid then ∅ else t.children p := by
  by_cases hp : p = pid
  · subst hp
    rw [if_pos rfl]
    refine Finset.filter_eq_empty_iff.2 fun q _ hq => ?_
    rw [exit_parent] at hq
    split at hq
    · cases hq
    · contradiction
  · rw [if_neg hp]
    refine Finset.filter_congr fun q _ => ?_
    rw [exit_parent]
    split
    · next hq => simp [hq, Ne.symm hp]
    · rfl

theorem Sound.exit (h : Sound t) : Sound (t.exit pid) := by
  constructor
  · intro q hq p hp
    rw [exit_parent] at hp
    split at hp
    · cases hp
    next hne =>
    obtain ⟨hrun, hborn⟩ := h.parent q hq p hp
    rw [running_exit, (exit_same p).2.2.2.2, (exit_same q).2.2.2.2]
    refine ⟨⟨?_, hrun⟩, hborn⟩
    rintro rfl
    exact hne hp
  · intro q hq
    rw [(exit_same q).2.2.2.2]
    exact h.births q hq
  · intro p hp
    obtain ⟨hne, hrun⟩ := running_exit.1 hp
    rw [(exit_same p).2.2.1, (exit_same p).2.2.2.1, children_exit, if_neg hne]
    exact h.accounted p hrun

theorem running_reap {p : ℕ} (hzombie : (t.proc pid).zombie = true) : (t.reap pid).running p ↔ t.running p :=
  running_erase hzombie

theorem children_reap (p : ℕ) (hparent : (t.proc pid).parent = none) : (t.reap pid).children p = t.children p := by
  have hnot : pid ∉ t.children p := by
    intro hmem
    rw [(mem_children.1 hmem).2] at hparent
    cases hparent
  unfold Table.children Table.reap at *
  rw [Finset.filter_erase, Finset.erase_eq_of_notMem hnot]

theorem Sound.reap (h : Sound t) (hzombie : (t.proc pid).zombie = true) (hparent : (t.proc pid).parent = none) :
    Sound (t.reap pid) := by
  constructor
  · intro q hq p hp
    rw [running_reap hzombie]
    exact h.parent q (Finset.mem_of_mem_erase hq) p hp
  · exact fun q hq => h.births q (Finset.mem_of_mem_erase hq)
  · intro p hp
    rw [children_reap p hparent]
    exact h.accounted p ((running_reap hzombie).1 hp)

theorem Sound.move (h : Sound t) (hmove : Move prog max t e t') : Sound t' := by
  cases hmove with
  | goto hrun hgoes => exact h.goto _
  | fork hrun hact hnew hroom => exact h.fork hrun hnew
  | wait hrun hact hchild hzombie => exact h.wait hchild hzombie
  | exit hrun hact => exact h.exit
  | reap hpid hzombie hparent => exact h.reap hzombie hparent

/-! ## Sums over the table -/

section

variable {M : Type*} [AddCommMonoid M] {f : Proc σ → M}

def Table.sum (f : Proc σ → M) (t : Table σ) : M := ∑ p ∈ t.procs, f (t.proc p)

/-- One process has changed. -/
theorem sum_one (hpid : pid ∈ t.procs) (hprocs : t'.procs = t.procs)
    (hsame : ∀ p ∈ t.procs, p ≠ pid → f (t'.proc p) = f (t.proc p)) :
    ∃ rest, t.sum f = f (t.proc pid) + rest ∧ t'.sum f = f (t'.proc pid) + rest := by
  refine ⟨∑ p ∈ t.procs.erase pid, f (t.proc p), (Finset.add_sum_erase _ _ hpid).symm, ?_⟩
  unfold Table.sum
  rw [hprocs, ← Finset.add_sum_erase _ _ hpid]
  congr 1
  refine Finset.sum_congr rfl fun p hp => ?_
  obtain ⟨hne, hp⟩ := Finset.mem_erase.1 hp
  exact hsame p hp hne

theorem sum_fork {child : ℕ} (st parent : σ) (hpid : pid ∈ t.procs) (hnew : child ∉ t.procs) :
    ∃ rest, t.sum f = f (t.proc pid) + rest ∧ (t.fork pid child st parent).sum f =
      f ⟨some pid, st, false, [], [], t.births⟩ +
        (f { t.proc pid with state := parent, forked := child :: (t.proc pid).forked } + rest) := by
  have hne := ne_of_mem_of_not_mem hpid hnew
  refine ⟨∑ p ∈ t.procs.erase pid, f (t.proc p), (Finset.add_sum_erase _ _ hpid).symm, ?_⟩
  unfold Table.sum
  show ∑ p ∈ insert child t.procs, _ = _
  rw [Finset.sum_insert hnew, ← Finset.add_sum_erase _ _ hpid, fork_child, fork_parent hne]
  congr 2
  refine Finset.sum_congr rfl fun p hp => ?_
  obtain ⟨hp', hp⟩ := Finset.mem_erase.1 hp
  rw [fork_other hp' (ne_of_mem_of_not_mem hp hnew)]

/-- One process is gone. -/
theorem sum_erase {z : ℕ} (hz : z ∈ t.procs) (hprocs : t'.procs = t.procs.erase z)
    (hsame : ∀ p ∈ t.procs, p ≠ z → f (t'.proc p) = f (t.proc p)) : t.sum f = f (t.proc z) + t'.sum f := by
  unfold Table.sum
  rw [hprocs, ← Finset.add_sum_erase _ _ hz]
  congr 1
  refine Finset.sum_congr rfl fun p hp => ?_
  obtain ⟨hne, hp⟩ := Finset.mem_erase.1 hp
  exact (hsame p hp hne).symm

end

/-! ## What all processes keep -/

/-- A statement of `prog` keeps `I` for the process that makes it. A `wait` finds a child that has not been waited for,
and fails when there is none. -/
structure Keeps (prog : σ → Act σ) (I : σ → List ℕ → List ℕ → Prop) : Prop where
  fork : ∀ {s c p f forked waited} (child : ℕ), prog s = .fork c p f → I s forked waited →
    I p (child :: forked) waited ∧ I c [] []
  forkFails : ∀ {s c p f forked waited}, prog s = .fork c p f → I s forked waited → I f forked waited
  wait : ∀ {s o f forked waited} (child : ℕ), prog s = .wait o f → I s forked waited →
    (child :: waited).Subperm forked → I o forked (child :: waited)
  waitFails : ∀ {s o f forked waited}, prog s = .wait o f → I s forked waited → forked.Perm waited →
    I f forked waited
  exec : ∀ {s o f forked waited}, prog s = .exec o f → I s forked waited → I o forked waited ∧ I f forked waited

/-- `I` of all processes, those that have ended included. -/
structure Holds (prog : σ → Act σ) (I : σ → List ℕ → List ℕ → Prop) (t : Table σ) : Prop where
  sound : Sound t
  procs : ∀ p ∈ t.procs, I (t.proc p).state (t.proc p).forked (t.proc p).waited
  ended : ∀ r ∈ t.ended, I r.state r.forked r.waited ∧ prog r.state = .exit

/-- A program of which nothing is to be known. -/
theorem keeps_true (prog : σ → Act σ) : Keeps prog fun _ _ _ => True where
  fork _ _ _ := ⟨trivial, trivial⟩
  forkFails _ _ := trivial
  wait _ _ _ _ := trivial
  waitFails _ _ _ := trivial
  exec _ _ := ⟨trivial, trivial⟩

variable {I : σ → List ℕ → List ℕ → Prop}

/-- A process that can have no more to wait for has waited for all. -/
theorem Sound.perm (h : Sound t) (hrun : t.running pid) (hnone : t.children pid = ∅) :
    (t.proc pid).forked.Perm (t.proc pid).waited := by
  have hacc := h.accounted pid hrun
  rw [hnone, Finset.empty_val, add_zero] at hacc
  exact Multiset.coe_eq_coe.1 hacc

/-- And the other way round. -/
theorem Sound.alone (h : Sound t) (hrun : t.running pid) (hperm : (t.proc pid).forked.Perm (t.proc pid).waited) :
    t.children pid = ∅ := by
  have hacc := h.accounted pid hrun
  rw [Multiset.coe_eq_coe.2 hperm] at hacc
  exact Finset.val_eq_zero.1 (left_eq_add.1 hacc)

theorem Holds.goto (hI : Keeps prog I) (h : Holds prog I t) {st : σ} (hrun : t.running pid)
    (hgoes : Goes prog t pid e st) : Holds prog I (t.goto pid st) := by
  have hpid := h.procs pid hrun.1
  have hst : I st (t.proc pid).forked (t.proc pid).waited := by
    cases hgoes with
    | forkFails hact => exact hI.forkFails hact hpid
    | waitFails hact hnone => exact hI.waitFails hact hpid (h.sound.perm hrun hnone)
    | exec hact => exact (hI.exec hact hpid).1
    | execFails hact => exact (hI.exec hact hpid).2
  refine ⟨h.sound.goto st, fun p hp => ?_, h.ended⟩
  unfold Table.goto
  by_cases hne : p = pid
  · subst hne
    simpa using hst
  · simpa [hne] using h.procs p hp

theorem Holds.fork (hI : Keeps prog I) (h : Holds prog I t) {child : ℕ} {st parent failed : σ} (hrun : t.running pid)
    (hact : prog (t.proc pid).state = .fork st parent failed) (hnew : child ∉ t.procs) :
    Holds prog I (t.fork pid child st parent) := by
  obtain ⟨hparent, hchild⟩ := hI.fork child hact (h.procs pid hrun.1)
  refine ⟨h.sound.fork hrun hnew, fun p hp => ?_, h.ended⟩
  rcases Finset.mem_insert.1 hp with rfl | hold
  · rw [fork_child]
    exact hchild
  · have hne := ne_of_mem_of_not_mem hold hnew
    by_cases hpid : p = pid
    · subst hpid
      rw [fork_parent hne]
      exact hparent
    · rw [fork_other hpid hne]
      exact h.procs p hold

theorem Holds.wait (hI : Keeps prog I) (h : Holds prog I t) {child : ℕ} {found failed : σ} (hrun : t.running pid)
    (hact : prog (t.proc pid).state = .wait found failed) (hchild : child ∈ t.children pid)
    (hzombie : (t.proc child).zombie = true) : Holds prog I (t.wait pid child found) := by
  have hmore : (child :: (t.proc pid).waited).Subperm (t.proc pid).forked := by
    rw [← Multiset.coe_le, h.sound.accounted pid hrun, ← Multiset.cons_coe, ← Multiset.singleton_add, add_comm]
    exact Multiset.add_le_add_left (Multiset.singleton_le.2 hchild)
  have hfound := hI.wait child hact (h.procs pid hrun.1) hmore
  refine ⟨h.sound.wait hchild hzombie, fun p hp => ?_, h.ended⟩
  have hold := h.procs p (Finset.mem_of_mem_erase hp)
  unfold Table.wait
  by_cases hpid : p = pid
  · subst hpid
    simpa using hfound
  · simpa [hpid] using hold

theorem Holds.exit (h : Holds prog I t) (hrun : t.running pid) (hact : prog (t.proc pid).state = .exit) :
    Holds prog I (t.exit pid) := by
  refine ⟨h.sound.exit, fun p hp => ?_, fun r hr => ?_⟩
  · rw [(exit_same p).1, (exit_same p).2.2.1, (exit_same p).2.2.2.1]
    exact h.procs p hp
  · rcases List.mem_cons.1 hr with rfl | hr
    · exact ⟨h.procs pid hrun.1, hact⟩
    · exact h.ended r hr

theorem Holds.move (hI : Keeps prog I) (h : Holds prog I t) (hmove : Move prog max t e t') : Holds prog I t' := by
  cases hmove with
  | goto hrun hgoes => exact h.goto hI hrun hgoes
  | fork hrun hact hnew hroom => exact h.fork hI hrun hact hnew
  | wait hrun hact hchild hzombie => exact h.wait hI hrun hact hchild hzombie
  | exit hrun hact => exact h.exit hrun hact
  | reap hpid hzombie hparent =>
    exact ⟨h.sound.reap hzombie hparent, fun p hp => h.procs p (Finset.mem_of_mem_erase hp), h.ended⟩

/-- **All processes.** -/
theorem Keeps.run (hI : Keeps prog I) (h : Holds prog I t) {events : List Event}
    (hrun : Run.exec (step prog max) events t = some t') : Holds prog I t' :=
  Run.invariant' (fun _ _ _ h hs => h.move hI (move_of_step hs)) h hrun

theorem start_holds {st : σ} (h : I st [] []) : Holds prog I (Table.start pid st) where
  sound := start_sound pid st
  procs _ _ := h
  ended _ hr := absurd hr List.not_mem_nil

/-- Where a process may be after its next statement. -/
def Act.next : Act σ → List σ
  | .fork _ parent failed => [parent, failed]
  | .wait found failed => [found, failed]
  | .exec done failed => [done, failed]
  | .exit => []

/-- Some process is at `K`, or was when it ended. -/
def Table.Some (K : σ → Prop) (t : Table σ) : Prop :=
  (∃ p, t.running p ∧ K (t.proc p).state) ∨ ∃ r ∈ t.ended, K r.state

theorem Goes.mem_next {st : σ} (h : Goes prog t pid e st) : st ∈ (prog (t.proc pid).state).next := by
  cases h <;> simp_all [Act.next]

/-- **One process.** If no statement leads out of `K`, a process that is there stays there to its end. -/
theorem some_move {K : σ → Prop} (hK : ∀ s, K s → ∀ s' ∈ (prog s).next, K s') (h : t.Some K)
    (hmove : Move prog max t e t') : t'.Some K := by
  rcases h with ⟨p, hp, hKp⟩ | ⟨r, hr, hKr⟩
  · have hnext := hK _ hKp
    cases hmove with
    | @goto pid e st hrun hgoes =>
      refine .inl ⟨p, running_goto.2 hp, ?_⟩
      by_cases hpid : p = pid
      · subst hpid
        simpa [Table.goto] using hnext _ hgoes.mem_next
      · simpa [Table.goto, hpid] using hKp
    | @fork pid child st parent failed hrun hact hnew hroom =>
      have hne := ne_of_mem_of_not_mem hp.1 hnew
      refine .inl ⟨p, (running_fork hnew).2 (.inr hp), ?_⟩
      by_cases hpid : p = pid
      · subst hpid
        rw [fork_parent hne]
        exact hnext parent (by simp [hact, Act.next])
      · rwa [fork_other hpid hne]
    | @wait pid child found failed hrun hact hchild hzombie =>
      refine .inl ⟨p, (running_wait hzombie).2 hp, ?_⟩
      by_cases hpid : p = pid
      · subst hpid
        simpa [Table.wait] using hnext found (by simp [hact, Act.next])
      · simpa [Table.wait, hpid] using hKp
    | @exit pid hrun hact =>
      by_cases hpid : p = pid
      · subst hpid
        exact .inr ⟨_, List.mem_cons_self, hKp⟩
      · exact .inl ⟨p, running_exit.2 ⟨hpid, hp⟩, by rwa [(exit_same p).1]⟩
    | reap hpid hzombie hparent => exact .inl ⟨p, (running_reap hzombie).2 hp, hKp⟩
  · have hmore : ∀ r ∈ t.ended, r ∈ t'.ended := by
      intro r hr
      cases hmove with
      | exit hrun hact => exact List.mem_cons_of_mem _ hr
      | goto hrun hgoes => exact hr
      | fork hrun hact hnew hroom => exact hr
      | wait hrun hact hchild hzombie => exact hr
      | reap hpid hzombie hparent => exact hr
    exact .inr ⟨r, hmore r hr, hKr⟩

/-! ## The end of runs -/

/-- **No deadlock.** The youngest process that has not ended waits for no other. -/
theorem some_step (prog : σ → Act σ) (max : ℕ) (h : Sound t) (hsome : t.procs.Nonempty) :
    ∃ e t', step prog max e t = some t' := by
  suffices ∃ e t', Move prog max t e t' by
    obtain ⟨e, t', hmove⟩ := this
    exact ⟨e, t', step_of_move hmove⟩
  by_cases hall : ∃ p, t.running p
  · have hfilter : (t.procs.filter fun p => (t.proc p).zombie = false).Nonempty := by
      obtain ⟨p, hp⟩ := hall
      exact ⟨p, Finset.mem_filter.2 hp⟩
    obtain ⟨p, hp, hyoungest⟩ := Finset.exists_max_image _ (fun p => (t.proc p).born) hfilter
    have hrun : t.running p := Finset.mem_filter.1 hp
    have hzombies : ∀ q ∈ t.children p, (t.proc q).zombie = true := by
      intro q hq
      obtain ⟨hq, hparent⟩ := mem_children.1 hq
      by_contra hz
      have hle := hyoungest q (Finset.mem_filter.2 ⟨hq, by simpa using hz⟩)
      have hlt := (h.parent q hq p hparent).2
      omega
    cases hact : prog (t.proc p).state with
    | fork st parent failed => exact ⟨_, _, .goto hrun (.forkFails hact)⟩
    | wait found failed =>
      rcases (t.children p).eq_empty_or_nonempty with hnone | ⟨c, hc⟩
      · exact ⟨_, _, .goto hrun (.waitFails hact hnone)⟩
      · exact ⟨_, _, .wait hrun hact hc (hzombies c hc)⟩
    | exec done failed => exact ⟨_, _, .goto hrun (.exec hact)⟩
    | exit => exact ⟨_, _, .exit hrun hact⟩
  · obtain ⟨p, hp⟩ := hsome
    have hzombie : (t.proc p).zombie = true := by
      by_contra hz
      exact hall ⟨p, hp, by simpa using hz⟩
    refine ⟨_, _, .reap hp hzombie ?_⟩
    cases hparent : (t.proc p).parent with
    | none => rfl
    | some q => exact absurd ⟨q, (h.parent p hp q hparent).1⟩ hall

/-- A run that cannot go on has come to the end of all processes. -/
theorem all_over (h : Sound t) (hstuck : ∀ e, step prog max e t = none) : t.procs = ∅ := by
  rw [← Finset.not_nonempty_iff_eq_empty]
  intro hsome
  obtain ⟨e, t', hs⟩ := some_step prog max h hsome
  rw [hstuck e] at hs
  cases hs

/-- A bound on the steps a process and its children still make, by its state and the number of its children so far.
One more is for the zombie. -/
structure Ranked (prog : σ → Act σ) (max : ℕ) (I : σ → List ℕ → List ℕ → Prop) (rank : σ → ℕ → ℕ) : Prop where
  fork : ∀ {s c p f forked waited}, prog s = .fork c p f → I s forked waited → forked.length < waited.length + max →
    rank p (forked.length + 1) + rank c 0 < rank s forked.length
  forkFails : ∀ {s c p f} n, prog s = .fork c p f → rank f n < rank s n
  wait : ∀ {s o f} n, prog s = .wait o f → rank o n ≤ rank s n
  waitFails : ∀ {s o f} n, prog s = .wait o f → rank f n < rank s n
  exec : ∀ {s o f} n, prog s = .exec o f → rank o n < rank s n ∧ rank f n < rank s n
  exit : ∀ {s} n, prog s = .exit → 1 < rank s n

/-- What is left to do for one process. -/
def Proc.toDo (rank : σ → ℕ → ℕ) (p : Proc σ) : ℕ := if p.zombie then 1 else rank p.state p.forked.length

def Table.toDo (rank : σ → ℕ → ℕ) (t : Table σ) : ℕ := t.sum (Proc.toDo rank)

variable {rank : σ → ℕ → ℕ}

theorem toDo_lt (hpid : pid ∈ t.procs) (hprocs : t'.procs = t.procs)
    (hsame : ∀ p ∈ t.procs, p ≠ pid → (t'.proc p).toDo rank = (t.proc p).toDo rank)
    (hlt : (t'.proc pid).toDo rank < (t.proc pid).toDo rank) : t'.toDo rank < t.toDo rank := by
  obtain ⟨rest, hold, hnew⟩ := sum_one hpid hprocs hsame
  unfold Table.toDo
  omega

theorem toDo_goto (hr : Ranked prog max I rank) {st : σ} (hrun : t.running pid) (hgoes : Goes prog t pid e st) :
    (t.goto pid st).toDo rank < t.toDo rank := by
  refine toDo_lt hrun.1 rfl (fun p _ hne => by simp [Table.goto, hne]) ?_
  have hlt : rank st (t.proc pid).forked.length < rank (t.proc pid).state (t.proc pid).forked.length := by
    cases hgoes with
    | forkFails hact => exact hr.forkFails _ hact
    | waitFails hact hnone => exact hr.waitFails _ hact
    | exec hact => exact (hr.exec _ hact).1
    | execFails hact => exact (hr.exec _ hact).2
  simpa [Table.goto, Proc.toDo, hrun.2] using hlt

theorem toDo_fork (hr : Ranked prog max I rank) (h : Holds prog I t) {child : ℕ} {st parent failed : σ}
    (hrun : t.running pid) (hact : prog (t.proc pid).state = .fork st parent failed) (hnew : child ∉ t.procs)
    (hroom : t.procs.card < max) : (t.fork pid child st parent).toDo rank < t.toDo rank := by
  -- the children are in the table
  have hfew : (t.proc pid).forked.length < (t.proc pid).waited.length + max := by
    have hcard := congrArg Multiset.card (h.sound.accounted pid hrun)
    rw [Multiset.card_add, Multiset.coe_card, Multiset.coe_card, Finset.card_val] at hcard
    have hle : (t.children pid).card ≤ t.procs.card := Finset.card_filter_le _ _
    omega
  have hlt := hr.fork hact (h.procs pid hrun.1) hfew
  obtain ⟨rest, hold, hafter⟩ := sum_fork (f := Proc.toDo rank) st parent hrun.1 hnew
  simp only [Proc.toDo, hrun.2, Bool.false_eq_true, if_false, List.length_cons, List.length_nil] at hold hafter
  unfold Table.toDo
  omega

theorem toDo_erase {z : ℕ} (hz : z ∈ t.procs) (hzombie : (t.proc z).zombie = true)
    (hprocs : t'.procs = t.procs.erase z) (hle : ∀ p ∈ t.procs, (t'.proc p).toDo rank ≤ (t.proc p).toDo rank) :
    t'.toDo rank < t.toDo rank := by
  have hsum : ∑ p ∈ t.procs.erase z, (t'.proc p).toDo rank ≤ ∑ p ∈ t.procs.erase z, (t.proc p).toDo rank :=
    Finset.sum_le_sum fun p hp => hle p (Finset.mem_of_mem_erase hp)
  have hone : (t.proc z).toDo rank = 1 := by
    simp [Proc.toDo, hzombie]
  unfold Table.toDo Table.sum
  rw [hprocs, ← Finset.add_sum_erase t.procs _ hz, hone]
  omega

theorem toDo_move (hr : Ranked prog max I rank) (h : Holds prog I t) (hmove : Move prog max t e t') :
    t'.toDo rank < t.toDo rank := by
  cases hmove with
  | goto hrun hgoes => exact toDo_goto hr hrun hgoes
  | fork hrun hact hnew hroom => exact toDo_fork hr h hrun hact hnew hroom
  | @wait pid child found failed hrun hact hchild hzombie =>
    refine toDo_erase (mem_children.1 hchild).1 hzombie rfl fun p hp => ?_
    by_cases hpid : p = pid
    · subst hpid
      simpa [Table.wait, Proc.toDo, hrun.2] using hr.wait _ hact
    · simp [Table.wait, hpid]
  | @exit pid hrun hact =>
    refine toDo_lt hrun.1 rfl (fun p _ hne => ?_) ?_
    · unfold Proc.toDo
      rw [(exit_same p).1, (exit_same p).2.1, (exit_same p).2.2.1, if_neg hne]
    · have hlt := hr.exit (t.proc pid).forked.length hact
      unfold Proc.toDo
      rw [(exit_same pid).2.1, if_pos rfl]
      simpa [hrun.2] using hlt
  | reap hpid hzombie hparent => exact toDo_erase hpid hzombie rfl fun p hp => Nat.le_refl _

/-- **Bounded runs.** -/
theorem bounded (hI : Keeps prog I) (hr : Ranked prog max I rank) {events : List Event} (h : Holds prog I t)
    (hrun : Run.exec (step prog max) events t = some t') : events.length + t'.toDo rank ≤ t.toDo rank := by
  refine Run.ranked (I := Holds prog I) (fun e t t' h hs => ?_) h hrun
  have hmove := move_of_step hs
  exact ⟨h.move hI hmove, toDo_move hr h hmove⟩

end Procs
