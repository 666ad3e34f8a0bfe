import LinuxLearning.Lib.Run
/-!
# Singly linked lists in a heap

A heap gives for each address the node there, if one is allocated. `next` is the pointer in a node,
`none` being NULL. `Seg next heap start l stop` says that the nodes of `l` are linked one to the next,
from pointer `start`, and that the last one points to `stop`; a whole list ends in `none`.

`seg_append` cuts a list at a node, `Seg.update` is the frame rule, `Seg.snoc` and `Seg.relink` append a
node at the end. A list that ends in `none` has no address twice (`Seg.notMem_tail`): what a pointer
leads to is determined (`seg_unique`), and a node cannot lead to itself by a shorter way.
-/

namespace LinkedList

variable {A N : Type*}

def Seg (next : N → Option A) (heap : A → Option N) : Option A → List (A × N) → Option A → Prop
  | start, [], stop => start = stop
  | start, (p, n) :: l, stop => start = some p ∧ heap p = some n ∧ Seg next heap (next n) l stop

def addrs (l : List (A × N)) : List A := l.map (·.1)

@[simp] theorem addrs_nil : addrs ([] : List (A × N)) = [] := rfl
@[simp] theorem addrs_cons (x : A × N) (l : List (A × N)) : addrs (x :: l) = x.1 :: addrs l := rfl
@[simp] theorem addrs_append (l l' : List (A × N)) : addrs (l ++ l') = addrs l ++ addrs l' :=
  List.map_append

variable {next : N → Option A} {heap : A → Option N} {start stop : Option A} {l l' : List (A × N)}

@[simp] theorem seg_nil : Seg next heap start [] stop ↔ start = stop := Iff.rfl

@[simp] theorem seg_cons {p : A} {n : N} : Seg next heap start ((p, n) :: l) stop ↔
    start = some p ∧ heap p = some n ∧ Seg next heap (next n) l stop := Iff.rfl

theorem seg_append : Seg next heap start (l ++ l') stop ↔
    ∃ mid, Seg next heap start l mid ∧ Seg next heap mid l' stop := by
  induction l generalizing start with
  | nil => simp
  | cons x l ih =>
    obtain ⟨p, n⟩ := x
    simp only [List.cons_append, seg_cons, ih]
    constructor
    · rintro ⟨h1, h2, mid, h3, h4⟩
      exact ⟨mid, ⟨h1, h2, h3⟩, h4⟩
    · rintro ⟨mid, ⟨h1, h2, h3⟩, h4⟩
      exact ⟨h1, h2, mid, h3, h4⟩

theorem Seg.of_none (h : Seg next heap none l none) : l = [] := by
  cases l with
  | nil => rfl
  | cons x l => cases h.1

theorem Seg.of_some {p : A} (h : Seg next heap (some p) l none) :
    ∃ n l', l = (p, n) :: l' ∧ heap p = some n ∧ Seg next heap (next n) l' none := by
  cases l with
  | nil => cases h
  | cons x l =>
    obtain ⟨q, n⟩ := x
    obtain ⟨hq, hn, hl⟩ := h
    cases hq
    exact ⟨n, l, rfl, hn, hl⟩

theorem Seg.allocated (h : Seg next heap start l stop) {p : A} (hp : p ∈ addrs l) :
    ∃ n, heap p = some n := by
  induction l generalizing start with
  | nil => cases hp
  | cons x l ih =>
    obtain ⟨q, n⟩ := x
    obtain ⟨-, hn, hl⟩ := h
    rcases List.mem_cons.1 hp with rfl | hp
    · exact ⟨n, hn⟩
    · exact ih hl hp

/-- What a pointer leads to is determined. -/
theorem seg_unique (h : Seg next heap start l none) (h' : Seg next heap start l' none) : l = l' := by
  induction l generalizing start l' with
  | nil =>
    cases h
    exact (Seg.of_none h').symm
  | cons x l ih =>
    obtain ⟨p, n⟩ := x
    obtain ⟨rfl, hn, hl⟩ := h
    obtain ⟨n', l'', rfl, hn', hl'⟩ := h'.of_some
    rw [hn] at hn'
    cases hn'
    rw [ih hl hl']

theorem Seg.notMem_tail {p : A} {n : N} (h : Seg next heap start ((p, n) :: l) none) : p ∉ addrs l := by
  intro hp
  obtain ⟨⟨q, m⟩, hx, rfl⟩ := List.mem_map.1 hp
  obtain ⟨l₁, l₂, rfl⟩ := List.append_of_mem hx
  -- the list from `p` is also the shorter one from its second occurrence
  have hlong : Seg next heap (some q) ((q, n) :: (l₁ ++ (q, m) :: l₂)) none := ⟨rfl, h.2⟩
  obtain ⟨mid, -, hmid⟩ := seg_append.1 h.2.2
  have hshort : Seg next heap (some q) ((q, m) :: l₂) none := ⟨rfl, hmid.2⟩
  have := congrArg List.length (seg_unique hlong hshort)
  simp only [List.length_cons, List.length_append] at this
  omega

theorem Seg.nodup (h : Seg next heap start l none) : (addrs l).Nodup := by
  induction l generalizing start with
  | nil => exact List.nodup_nil
  | cons x l ih => exact List.nodup_cons.2 ⟨h.notMem_tail, ih h.2.2⟩

/-- A node to which the last one points joins the list. -/
theorem Seg.snoc {p : A} {n : N} (h : Seg next heap start l (some p)) (hn : heap p = some n) :
    Seg next heap start (l ++ [(p, n)]) (next n) :=
  seg_append.2 ⟨some p, h, rfl, hn, rfl⟩

section update
variable [DecidableEq A]

/-- **Frame rule.** An address outside the list may be written. -/
theorem Seg.update (h : Seg next heap start l stop) {p : A} (hp : p ∉ addrs l) (o : Option N) :
    Seg next (Function.update heap p o) start l stop := by
  induction l generalizing start with
  | nil => exact h
  | cons x l ih =>
    obtain ⟨q, n⟩ := x
    obtain ⟨h1, h2, h3⟩ := h
    simp only [addrs_cons, List.mem_cons, not_or] at hp
    refine ⟨h1, ?_, ih h3 hp.2⟩
    rw [Function.update_of_ne (Ne.symm hp.1)]
    exact h2

/-- The last node is made to point elsewhere. -/
theorem Seg.relink {p : A} {n n' : N} (h : Seg next heap start (l ++ [(p, n)]) none) :
    Seg next (Function.update heap p (some n')) start (l ++ [(p, n')]) (next n') := by
  have hp : p ∉ addrs l := by
    have hd := h.nodup
    rw [addrs_append, List.nodup_append] at hd
    exact fun hm => hd.2.2 p hm p (by simp) rfl
  obtain ⟨mid, hl, rfl, -, -⟩ := seg_append.1 h
  exact (hl.update hp _).snoc (by simp)

end update

end LinkedList
