import LinuxLearning.Lib.Run
/-!
# First-in first-out queues, and rings of slots that hold one

`Fifo` is what a queue is for: what was inserted is what was removed followed by what is still in
the queue, in order. The equation is a field, so a queue that lost, repeated or reordered an
element cannot be written down. `Fifo.step` makes it a system, bounded by a capacity, for
implementations to refine.

`Holds N buffer start xs` is the representation used by ring buffers: the `N` slots of `buffer`,
read from slot `start % N` on, hold `xs`. `slots N n` lists the slots that the first `n` operations on
one side of a ring use; `count_slots_free` and `count_slots_full` turn the window between the two
sides into "the slot about to be written has been read as often as written" and "the slot about to
be read has been written once more than read".
-/

/-- A queue and its history. -/
structure Fifo (α : Type*) where
  inserted : List α
  removed : List α
  queue : List α
  inserted_eq : inserted = removed ++ queue

namespace Fifo

variable {α : Type*}

def empty : Fifo α := ⟨[], [], [], rfl⟩

def put (q : Fifo α) (x : α) : Fifo α :=
  ⟨q.inserted ++ [x], q.removed, q.queue ++ [x], by simp [q.inserted_eq]⟩

def get (q : Fifo α) (x : α) (xs : List α) (h : q.queue = x :: xs) : Fifo α :=
  ⟨q.inserted, q.removed ++ [x], xs, by simp [q.inserted_eq, h]⟩

@[simp] theorem put_inserted (q : Fifo α) (x : α) : (q.put x).inserted = q.inserted ++ [x] := rfl
@[simp] theorem put_removed (q : Fifo α) (x : α) : (q.put x).removed = q.removed := rfl
@[simp] theorem put_queue (q : Fifo α) (x : α) : (q.put x).queue = q.queue ++ [x] := rfl

section get
variable (q : Fifo α) {x : α} {xs : List α} (h : q.queue = x :: xs)

@[simp] theorem get_inserted : (q.get x xs h).inserted = q.inserted := rfl
@[simp] theorem get_removed : (q.get x xs h).removed = q.removed ++ [x] := rfl
@[simp] theorem get_queue : (q.get x xs h).queue = xs := rfl

end get

theorem removed_prefix (q : Fifo α) : q.removed <+: q.inserted := ⟨q.queue, q.inserted_eq.symm⟩

theorem length_inserted (q : Fifo α) : q.inserted.length = q.removed.length + q.queue.length := by
  rw [q.inserted_eq, List.length_append]

/-- What an operation on a queue does. -/
inductive Op (α : Type*) where
  | put (x : α)
  | get

/-- A queue of capacity `cap` as a system: `put` needs room, `get` an element. -/
def step (cap : Nat) : Op α → Fifo α → Option (Fifo α)
  | .put x, q => if q.queue.length < cap then some (q.put x) else none
  | .get, q => match h : q.queue with
    | [] => none
    | x :: xs => some (q.get x xs h)

theorem step_put {cap : Nat} {q : Fifo α} (h : q.queue.length < cap) (x : α) :
    step cap (.put x) q = some (q.put x) := by
  simp [step, h]

theorem step_get {cap : Nat} {q : Fifo α} {x : α} {xs : List α} (h : q.queue = x :: xs) :
    step cap .get q = some (q.get x xs h) := by
  simp only [step]
  split
  · rename_i h'; simp [h] at h'
  · rename_i y ys h'
    obtain ⟨rfl, rfl⟩ := List.cons.inj (h'.symm.trans h)
    rfl

/-! ## Rings of slots -/

/-- The slots from `start` on, modulo `N`, hold `xs`. -/
def Holds (N : Nat) (buffer : Nat → α) (start : Nat) (xs : List α) : Prop :=
  ∀ i (h : i < xs.length), buffer ((start + i) % N) = xs[i]

theorem mod_ne_of_lt {N a b : Nat} (hab : a < b) (hb : b < a + N) : a % N ≠ b % N := by
  intro h
  obtain ⟨k, hk⟩ := (Nat.modEq_iff_dvd' hab.le).1 h
  cases k with
  | zero => omega
  | succ k => rw [Nat.mul_succ] at hk; omega

theorem Holds.nil (N : Nat) (buffer : Nat → α) (start : Nat) : Holds N buffer start [] := by
  intro i h; simp at h

theorem Holds.head {N : Nat} {buffer : Nat → α} {start : Nat} {x : α} {xs : List α}
    (h : Holds N buffer start (x :: xs)) : buffer (start % N) = x := by
  have := h 0 (Nat.succ_pos _)
  rwa [Nat.add_zero, List.getElem_cons_zero] at this

theorem Holds.tail {N : Nat} {buffer : Nat → α} {start : Nat} {x : α} {xs : List α}
    (h : Holds N buffer start (x :: xs)) : Holds N buffer (start + 1) xs := by
  intro i hi
  have := h (i + 1) (by simpa using hi)
  rwa [List.getElem_cons_succ, show start + (i + 1) = start + 1 + i by omega] at this

/-- Writing the slot after the last one, when it is not also the first. -/
theorem Holds.write {N : Nat} {buffer : Nat → α} {start : Nat} {xs : List α}
    (h : Holds N buffer start xs) (hlt : xs.length < N) (x : α) :
    Holds N (Function.update buffer ((start + xs.length) % N) x) start (xs ++ [x]) := by
  intro i hi
  by_cases hx : i < xs.length
  · have hne : (start + i) % N ≠ (start + xs.length) % N := mod_ne_of_lt (by omega) (by omega)
    rw [Function.update_of_ne hne, List.getElem_append_left hx]
    exact h i hx
  · have : i = xs.length := by simp at hi; omega
    subst this
    simp

/-- The slots used by the first `n` operations on one side of the ring. -/
def slots (N n : Nat) : List Nat := (List.range n).map (· % N)

theorem slots_succ (N n : Nat) : slots N (n + 1) = slots N n ++ [n % N] := by
  simp [slots, List.range_succ]

theorem count_slots_eq {N a m n : Nat} (hmn : m ≤ n) (h : ∀ k, m ≤ k → k < n → k % N ≠ a) :
    (slots N n).count a = (slots N m).count a := by
  induction n, hmn using Nat.le_induction with
  | base => rfl
  | succ n hmn ih =>
    have hn : n % N ≠ a := h n hmn (by omega)
    rw [slots_succ, List.count_append, ih fun k hk hkn => h k hk (by omega)]
    simp [hn]

/-- The side that has done `put` operations is about to use a slot that the other side, `get`
operations in, has emptied. -/
theorem count_slots_free {N get put : Nat} (h : get ≤ put) (hlt : put < get + N) :
    (slots N put).count (put % N) = (slots N get).count (put % N) :=
  count_slots_eq h fun _ hk hkn => mod_ne_of_lt hkn (by omega)

/-- The slot that the `get` side is about to use was filled by the other side, and once only. -/
theorem count_slots_full {N get put : Nat} (h : get < put) (hle : put ≤ get + N) :
    (slots N put).count (get % N) = (slots N get).count (get % N) + 1 := by
  rw [count_slots_eq h fun k hk hkn => (mod_ne_of_lt (a := get) (by omega) (by omega)).symm,
    slots_succ, List.count_append]
  simp

end Fifo
