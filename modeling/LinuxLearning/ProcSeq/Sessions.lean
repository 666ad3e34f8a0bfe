import LinuxLearning.Lib.Circular
/-!
# `proc_seq_example1.c`: reading `/proc/readme` in several sessions

| here | there (`KernelDrivers_March2011/proc_seq_example1.c`) |
| --- | --- |
| `MydrvList`       | `mydrv_list` (`:20`) and the links of the nodes; an address is that of the `list` member |
| `mydrv_seq_start` | `:33-50` |
| `mydrv_seq_next`  | `:56-81` |
| `session`, `sessions` | what `seq_read` does with them: `start`, then `show` and `next` in turn, then `stop` |

`show` prints the node it is given; here it is put into the list of what has been shown. `stop` does nothing. A session
may end after any number of nodes (a read of 11 bytes gets one of them, `proc_seq_test.c:17-38`), or when there is none
left; the next session starts at the position where it ended.

* `start_eq` — `start` counts from the head, up to node number `pos`;
* `next_eq_start` — `next` follows the link, and gives the same node as a `start` at the next position;
* `sessions_law` — the sessions together show the nodes in their order, each of them once.
-/

namespace ProcSeq.Example1

/-- The list with its head; `nodes` are the nodes in order. -/
structure MydrvList (A : Type*) where
  head : A
  next : A → A
  nodes : List A
  linked : Circular.Linked next head (next head) nodes

section

variable {A : Type*} [DecidableEq A] (l : MydrvList A)

/-- The body of `list_for_each_entry`, `off` being the counter. -/
def startBody (pos off : ℤ) (p : A) : Option A × ℤ := (if pos = off then some p else none, off + 1)

/-- The loop ends after the last node (`Circular.forEach_linked`), so there is always a result. -/
def mydrv_seq_start (pos : ℤ) : Option A :=
  (Circular.forEach l.next l.head (startBody pos) (l.nodes.length + 1) 0 (l.next l.head)).join

/-- The node returned and the new position. -/
def mydrv_seq_next (v : A) (pos : ℤ) : Option A × ℤ :=
  (if l.next v ≠ l.head then some (l.next v) else none, pos + 1)

/-- `show` and `next`, `k` times at most, from the node `v` on: what is shown and the position at the end. -/
def rounds : ℕ → Option A → ℤ → List A × ℤ
  | 0, _, pos => ([], pos)
  | _ + 1, none, pos => ([], pos)
  | k + 1, some v, pos =>
    let (v', pos') := mydrv_seq_next l v pos
    let (shown, pos'') := rounds k v' pos'
    (v :: shown, pos'')

/-- One session. -/
def session (k : ℕ) (pos : ℤ) : List A × ℤ := rounds l k (mydrv_seq_start l pos) pos

/-- One session after the other. -/
def sessions : List ℕ → ℤ → List A × ℤ
  | [], pos => ([], pos)
  | k :: ks, pos =>
    let (shown, pos') := session l k pos
    let (shown', pos'') := sessions ks pos'
    (shown ++ shown', pos'')

/-! ## `start` and `next` -/

omit [DecidableEq A] in
theorem forEachIn_startBody (nodes : List A) (pos off : ℤ) :
    Circular.forEachIn (startBody pos) off nodes = if off ≤ pos then nodes[(pos - off).toNat]? else none := by
  induction nodes generalizing off with
  | nil => simp [Circular.forEachIn]
  | cons p ps ih =>
    have hbody : startBody pos off p = (if pos = off then some p else none, off + 1) := rfl
    unfold Circular.forEachIn
    rw [hbody]
    by_cases hpos : pos = off
    · simp [hpos]
    · rw [if_neg hpos]
      dsimp only
      rw [ih]
      by_cases hle : off ≤ pos
      · have hindex : (pos - off).toNat = (pos - (off + 1)).toNat + 1 := by omega
        rw [if_pos hle, if_pos (by omega), hindex, List.getElem?_cons_succ]
      · rw [if_neg hle, if_neg (by omega)]

/-- **`start`** finds node number `pos`, NULL where there is none. -/
theorem start_eq (pos : ℤ) : mydrv_seq_start l pos = if 0 ≤ pos then l.nodes[pos.toNat]? else none := by
  unfold mydrv_seq_start
  rw [Circular.forEach_linked _ l.linked (Nat.lt_succ_self _), forEachIn_startBody, sub_zero]
  rfl

theorem start_natCast (n : ℕ) : mydrv_seq_start l n = l.nodes[n]? := by
  rw [start_eq, if_pos (Int.natCast_nonneg n), Int.toNat_natCast]

/-- **`next`** agrees with a `start` at the next position. -/
theorem next_eq_start {pos : ℤ} {v : A} (h : mydrv_seq_start l pos = some v) :
    mydrv_seq_next l v pos = (mydrv_seq_start l (pos + 1), pos + 1) := by
  rw [start_eq, Option.ite_none_right_eq_some] at h
  obtain ⟨hpos, hv⟩ := h
  have hnext := (Circular.next_getElem l.linked hv).1
  have hindex : (pos + 1).toNat = pos.toNat + 1 := by omega
  rw [start_eq, if_pos (by omega), hindex]
  unfold mydrv_seq_next
  rw [hnext]
  cases hw : l.nodes[pos.toNat + 1]? with
  | none => simp
  | some w =>
    have hne := (Circular.next_getElem l.linked hw).2
    simp [hne]

/-! ## Sessions -/

/-- A session from position `n` on shows the next nodes. -/
theorem rounds_eq (k n : ℕ) : rounds l k (mydrv_seq_start l n) n =
    ((l.nodes.drop n).take k, ((n + min k (l.nodes.length - n) : ℕ) : ℤ)) := by
  induction k generalizing n with
  | zero => simp [rounds]
  | succ k ih =>
    rw [start_natCast]
    cases hv : l.nodes[n]? with
    | none =>
      have hlen : l.nodes.length ≤ n := List.getElem?_eq_none_iff.1 hv
      simp [rounds, List.drop_eq_nil_of_le hlen, Nat.sub_eq_zero_of_le hlen]
    | some v =>
      have hnext : mydrv_seq_next l v n = (mydrv_seq_start l (n + 1 : ℕ), ((n + 1 : ℕ) : ℤ)) := by
        rw [next_eq_start l ((start_natCast l n).trans hv)]
        rfl
      obtain ⟨hlt, rfl⟩ := List.getElem?_eq_some_iff.1 hv
      unfold rounds
      rw [hnext]
      simp only [ih]
      rw [List.drop_eq_getElem_cons hlt, List.take_succ_cons]
      refine Prod.ext rfl ?_
      simp only
      omega

theorem session_eq (k n : ℕ) : session l k n =
    ((l.nodes.drop n).take k, ((n + min k (l.nodes.length - n) : ℕ) : ℤ)) :=
  rounds_eq l k n

theorem sessions_eq (ks : List ℕ) (n : ℕ) : sessions l ks n =
    ((l.nodes.drop n).take ks.sum, ((n + min ks.sum (l.nodes.length - n) : ℕ) : ℤ)) := by
  induction ks generalizing n with
  | nil => simp [sessions]
  | cons k ks ih =>
    unfold sessions
    rw [session_eq]
    dsimp only
    rw [ih, List.sum_cons, List.take_add, List.drop_drop]
    have hdrop : (l.nodes.drop (n + min k (l.nodes.length - n))).take ks.sum =
        (l.nodes.drop (n + k)).take ks.sum := by
      by_cases hk : k ≤ l.nodes.length - n
      · rw [min_eq_left hk]
      · have hlen : l.nodes.length ≤ n + k := by omega
        rw [List.drop_eq_nil_of_le hlen, List.drop_eq_nil_of_le (by omega)]
    refine Prod.ext (by rw [hdrop]) ?_
    dsimp only
    congr 1
    omega

/-- **Sessions.** However the reading is cut into sessions, they show the nodes in order, each of them once, and all of
them as soon as `start` finds no more; `next` is what a `start` at the next position would have been. -/
theorem sessions_law (ks : List ℕ) :
    (sessions l ks 0).1 = l.nodes.take ks.sum ∧
      (mydrv_seq_start l (sessions l ks 0).2 = none ↔ (sessions l ks 0).1 = l.nodes) ∧
      ∀ pos, ∀ v ∈ mydrv_seq_start l pos, mydrv_seq_next l v pos = (mydrv_seq_start l (pos + 1), pos + 1) := by
  have hall : sessions l ks 0 = (l.nodes.take ks.sum, ((min ks.sum l.nodes.length : ℕ) : ℤ)) := by
    have h := sessions_eq l ks 0
    rw [List.drop_zero, Nat.zero_add, Nat.sub_zero] at h
    exact h
  rw [hall]
  refine ⟨rfl, ?_, fun pos v hv => next_eq_start l hv⟩
  dsimp only
  rw [start_natCast, List.getElem?_eq_none_iff, List.take_eq_self_iff]
  omega

end

/-- Three nodes. -/
def threeNodes : MydrvList (Fin 4) := ⟨0, fun p => p + 1, [1, 2, 3], by decide⟩

example : sessions threeNodes [1, 0, 2, 1] 0 = ([1, 2, 3], 3) := by decide

end ProcSeq.Example1
