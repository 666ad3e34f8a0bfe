import Mathlib
/-!
# `uart_pci_latest_March2011.c`: the loop-back diagnosis

| here | there (`KernelDrivers_March2011/uart_pci_latest_March2011.c`) |
| --- | --- |
| `Device`       | what the reads of the line status register (`addr + 5`) and of the data register (`addr`) return |
| `step`, `run`  | `device_diagnos_start` (`:122-169`), one round of the outer or of the inner loop a step |
| `writes`       | the loop over `w` (`:133-137`) |

`0x20` in the status says that the transmitter is empty, `0x01` that a byte has arrived, `0x0e` are the error bits.
`msleep` and `printk` are left out; `ch` is a `char`, which the mask `0x0e` does not notice.

* `Transmits` — the poll that finds the transmitter empty; `announced` — the statuses after it that announce a byte;
* `run_inner` — the inner loop, as long as it goes on;
* `accept_returns`, `reject_returns`, `not_returns` — 0 is returned after 16 bytes without an error bit, -1 at the
  first byte with one, else the loops go on;
* `diagnosis_law` — what was received is read and not looked at;
* `verdict_law` — the polls last as long as the device takes, without a bound.
-/

namespace Uart.Diagnosis

abbrev Byte := BitVec 8

/-- `a & 0x20`: the transmitter is empty. -/
def Empty (a : Byte) : Prop := a &&& 0x20 ≠ 0

/-- `a & 0x01`: a byte has arrived. -/
def Ready (a : Byte) : Prop := a &&& 0x01 ≠ 0

/-- `ch & 0x0e`: an error bit. -/
def Err (a : Byte) : Prop := a &&& 0x0e ≠ 0

instance : DecidablePred Empty := fun a => inferInstanceAs (Decidable (a &&& 0x20 ≠ 0))

instance : DecidablePred Ready := fun a => inferInstanceAs (Decidable (a &&& 0x01 ≠ 0))

instance : DecidablePred Err := fun a => inferInstanceAs (Decidable (a &&& 0x0e ≠ 0))

/-- The answers of the device, in order. -/
structure Device where
  /-- to the reads of `addr + 5` -/
  lsr : ℕ → Byte
  /-- to the reads of `addr` -/
  rbr : ℕ → Byte

inductive Pc
  /-- `while(i < 1)` -/
  | outer
  /-- `while(r < 16)` -/
  | inner
  | returned (ret : ℤ)
deriving DecidableEq, Repr

/-- The locals. `polls` counts the reads of the status; what has been sent is history, and what has been received,
each byte with the status that announced it. -/
structure State where
  pc : Pc
  i : ℕ
  w : ℕ
  r : ℕ
  polls : ℕ
  sent : List Byte
  received : List (Byte × Byte)
deriving DecidableEq, Repr

/-- `rounds` rounds of `while(w < 16)`. -/
def writes : ℕ → State → State
  | 0, s => s
  | rounds + 1, s => writes rounds { s with sent := s.sent ++ [0xff], w := s.w + 1 }

def step (dev : Device) (s : State) : State :=
  match s.pc with
  | .outer =>
    if s.i < 1 then
      let a := dev.lsr s.polls
      let s := { s with polls := s.polls + 1 }
      if Empty a then { writes (16 - s.w) s with pc := .inner }
      else s
    else { s with pc := .returned 0 }
  | .inner =>
    if s.r < 16 then
      let ch := dev.lsr s.polls
      let s := { s with polls := s.polls + 1 }
      if Ready ch then
        let a := dev.rbr s.received.length
        let s := { s with received := s.received ++ [(ch, a)] }
        if Err ch then { s with pc := .returned (-1) }
        else { s with r := s.r + 1 }
      else s
    else { s with i := s.i + 1, pc := .outer }
  | .returned _ => s

def start : State := ⟨.outer, 0, 0, 0, 0, [], []⟩

/-- After `n` steps. -/
def run (dev : Device) (n : ℕ) : State := (step dev)^[n] start

/-- `device_diagnos_start` returns `ret`, in state `s`. -/
def Returns (dev : Device) (ret : ℤ) (s : State) : Prop := s.pc = .returned ret ∧ ∃ n, run dev n = s

/-! ## What the device does -/

/-- Poll `t` is the first that finds the transmitter empty. -/
def Transmits (dev : Device) (t : ℕ) : Prop := Empty (dev.lsr t) ∧ ∀ k < t, ¬ Empty (dev.lsr k)

/-- Of the `m` polls after poll `t`, the statuses that announce a byte. -/
def announced (dev : Device) (t : ℕ) : ℕ → List Byte
  | 0 => []
  | m + 1 =>
    let a := dev.lsr (t + 1 + m)
    announced dev t m ++ if Ready a then [a] else []

/-- 16 bytes are announced, none of them with an error. -/
def Accepts (dev : Device) : Prop :=
  ∃ t m, Transmits dev t ∧ (announced dev t m).length = 16 ∧ ∀ a ∈ announced dev t m, ¬ Err a

/-- A byte is announced with an error, with 15 before it at most. -/
def Rejects (dev : Device) : Prop :=
  ∃ t m, Transmits dev t ∧ (announced dev t m).length ≤ 16 ∧ ∃ a ∈ announced dev t m, Err a

/-- The `m` polls after poll `t` decide: 16 bytes have come, or an error. -/
def Decides (dev : Device) (t m : ℕ) : Prop := 16 ≤ (announced dev t m).length ∨ ∃ a ∈ announced dev t m, Err a

variable {dev : Device} {t t' m m' n k : ℕ} {ret ret' : ℤ} {s s' : State}

theorem Transmits.unique (h : Transmits dev t) (h' : Transmits dev t') : t = t' := by
  rcases Nat.lt_trichotomy t t' with hlt | heq | hgt
  · exact absurd h.1 (h'.2 t hlt)
  · exact heq
  · exact absurd h'.1 (h.2 t' hgt)

theorem announced_mono (h : m ≤ m') : announced dev t m <+: announced dev t m' := by
  induction m', h using Nat.le_induction with
  | base => exact List.prefix_rfl
  | succ m' _ ih => exact ih.trans (List.prefix_append _ _)

theorem announced_succ (dev : Device) (t m : ℕ) : announced dev t (m + 1) =
    announced dev t m ++ if Ready (dev.lsr (t + 1 + m)) then [dev.lsr (t + 1 + m)] else [] := rfl

theorem announced_nil (h : ∀ k, ¬ Ready (dev.lsr k)) (t m : ℕ) : announced dev t m = [] := by
  induction m with
  | zero => rfl
  | succ m ih => rw [announced_succ, ih, if_neg (h _), List.append_nil]

/-- One byte at most is announced by a poll. -/
theorem length_announced_succ (dev : Device) (t m : ℕ) :
    (announced dev t (m + 1)).length ≤ (announced dev t m).length + 1 := by
  rw [announced_succ, List.length_append]
  split
  · simp
  · simp

/-- The numbers of bytes announced leave no number out. -/
theorem exists_length (h : n ≤ (announced dev t m).length) : ∃ m' ≤ m, (announced dev t m').length = n := by
  induction m with
  | zero =>
    obtain rfl : n = 0 := by simpa [announced] using h
    exact ⟨0, le_rfl, rfl⟩
  | succ m ih =>
    by_cases hle : n ≤ (announced dev t m).length
    · obtain ⟨m', hm', hlen⟩ := ih hle
      exact ⟨m', by omega, hlen⟩
    · have hsucc := length_announced_succ dev t m
      exact ⟨m + 1, le_rfl, by omega⟩

/-! ## The two loops -/

theorem run_succ (dev : Device) (n : ℕ) : run dev (n + 1) = step dev (run dev n) :=
  Function.iterate_succ_apply' (step dev) n start

/-- While the transmitter is not empty. -/
theorem run_outer (h : ∀ k < n, ¬ Empty (dev.lsr k)) : run dev n = { start with polls := n } := by
  induction n with
  | zero => rfl
  | succ n ih =>
    have hbusy := h n n.lt_succ_self
    rw [run_succ, ih fun k hk => h k (Nat.lt_succ_of_lt hk)]
    simp [step, start, hbusy]

/-- The bytes received for the announced statuses. -/
def bytes (dev : Device) (l : List Byte) : List (Byte × Byte) := l.mapIdx fun i a => (a, dev.rbr i)

/-- In the inner loop, `m` polls after poll `t`. -/
def innerState (dev : Device) (t m : ℕ) : State :=
  ⟨.inner, 0, 16, (announced dev t m).length, t + 1 + m, List.replicate 16 0xff, bytes dev (announced dev t m)⟩

theorem length_bytes (dev : Device) (l : List Byte) : (bytes dev l).length = l.length := List.length_mapIdx

/-- One poll of the inner loop. -/
theorem step_inner (hlen : (announced dev t m).length < 16) : step dev (innerState dev t m) =
    { innerState dev t (m + 1) with
      pc := if Ready (dev.lsr (t + 1 + m)) ∧ Err (dev.lsr (t + 1 + m)) then .returned (-1) else .inner
      r := (announced dev t m).length +
        if Ready (dev.lsr (t + 1 + m)) ∧ ¬ Err (dev.lsr (t + 1 + m)) then 1 else 0 } := by
  have hbytes : bytes dev (announced dev t (m + 1)) = bytes dev (announced dev t m) ++
      if Ready (dev.lsr (t + 1 + m)) then [(dev.lsr (t + 1 + m), dev.rbr (announced dev t m).length)] else [] := by
    rw [announced_succ]
    by_cases hready : Ready (dev.lsr (t + 1 + m))
    · simp [bytes, hready, List.mapIdx_append]
    · simp [bytes, hready]
  have hpolls : t + 1 + (m + 1) = t + 1 + m + 1 := rfl
  unfold innerState
  rw [hbytes, hpolls]
  by_cases hready : Ready (dev.lsr (t + 1 + m))
  · by_cases herr : Err (dev.lsr (t + 1 + m))
    · simp [step, hlen, hready, herr, length_bytes]
    · simp [step, hlen, hready, herr, length_bytes]
  · simp [step, hlen, hready]

/-- The inner loop is entered. -/
theorem run_enter (h : Transmits dev t) : run dev (t + 1) = innerState dev t 0 := by
  rw [run_succ, run_outer h.2]
  simp [step, start, h.1, innerState, announced, bytes, writes]

/-- The polls so far have not decided. -/
def Quiet (dev : Device) (t m : ℕ) : Prop :=
  (∀ a ∈ announced dev t m, ¬ Err a) ∧ ∀ m' < m, (announced dev t m').length < 16

theorem Quiet.pred (h : Quiet dev t (m + 1)) : Quiet dev t m :=
  ⟨fun a ha => h.1 a ((announced_mono m.le_succ).subset ha), fun m' hm' => h.2 m' (Nat.lt_succ_of_lt hm')⟩

/-- **The inner loop**, as long as nothing is decided. -/
theorem run_inner (h : Transmits dev t) (hq : Quiet dev t m) : run dev (t + 1 + m) = innerState dev t m := by
  induction m with
  | zero => exact run_enter h
  | succ m ih =>
    have hstep : run dev (t + 1 + (m + 1)) = step dev (run dev (t + 1 + m)) := run_succ dev (t + 1 + m)
    rw [hstep, ih hq.pred, step_inner (hq.2 m m.lt_succ_self)]
    by_cases hready : Ready (dev.lsr (t + 1 + m))
    · have hno : ¬ Err (dev.lsr (t + 1 + m)) := hq.1 _ (by simp [announced_succ, hready])
      simp [innerState, announced_succ, hready, hno]
    · simp [innerState, announced_succ, hready]

/-! ## The verdict -/

/-- After the return nothing changes. -/
theorem Returns.unique (h : Returns dev ret s) (h' : Returns dev ret' s') : s = s' := by
  have hstays : ∀ {ret : ℤ} {n : ℕ}, (run dev n).pc = .returned ret → ∀ k, run dev (n + k) = run dev n := by
    intro ret n hn k
    induction k with
    | zero => rfl
    | succ k ih =>
      rw [← Nat.add_assoc, run_succ, ih]
      simp only [step, hn]
  obtain ⟨hpc, n, rfl⟩ := h
  obtain ⟨hpc', n', rfl⟩ := h'
  rcases Nat.le_total n n' with hle | hle
  · obtain ⟨k, rfl⟩ := Nat.exists_eq_add_of_le hle
    exact (hstays hpc k).symm
  · obtain ⟨k, rfl⟩ := Nat.exists_eq_add_of_le hle
    exact hstays hpc' k

theorem Returns.unique_ret (h : Returns dev ret s) (h' : Returns dev ret' s') : ret = ret' := by
  have hpc := h.1
  rw [h.unique h', h'.1] at hpc
  exact (Pc.returned.inj hpc).symm

/-- 16 bytes without an error. -/
theorem accept_returns (h : Transmits dev t) (hlen : (announced dev t m).length = 16)
    (hno : ∀ a ∈ announced dev t m, ¬ Err a) :
    ∃ s, Returns dev 0 s ∧ s.received = bytes dev (announced dev t m) ∧ s.polls ≤ t + 1 + m := by
  have hex : ∃ k, (announced dev t k).length = 16 := ⟨m, hlen⟩
  obtain ⟨k, hk, hmin⟩ : ∃ k, (announced dev t k).length = 16 ∧ ∀ j < k, (announced dev t j).length ≠ 16 :=
    ⟨Nat.find hex, Nat.find_spec hex, fun j hj => Nat.find_min hex hj⟩
  have hkm : k ≤ m := by
    by_contra hlt
    exact hmin m (by omega) hlen
  have hsame : announced dev t k = announced dev t m :=
    (announced_mono hkm).eq_of_length (hk.trans hlen.symm)
  have hquiet : Quiet dev t k := by
    refine ⟨hsame ▸ hno, fun j hj => ?_⟩
    have hle : (announced dev t j).length ≤ (announced dev t k).length := (announced_mono hj.le).length_le
    have hne := hmin j hj
    omega
  have hrun := run_inner h hquiet
  have hfull : step dev (innerState dev t k) = { innerState dev t k with i := 1, pc := .outer } := by
    simp [step, innerState, hk]
  have hdone : step dev { innerState dev t k with i := 1, pc := .outer } =
      { innerState dev t k with i := 1, pc := .returned 0 } := by
    simp [step]
  refine ⟨{ innerState dev t k with i := 1, pc := .returned 0 }, ⟨rfl, t + 1 + k + 1 + 1, ?_⟩, ?_, ?_⟩
  · rw [run_succ, run_succ, hrun, hfull, hdone]
  · rw [← hsame]
    rfl
  · exact Nat.add_le_add_left hkm _

/-- A byte with an error, not after the 16th. -/
theorem reject_returns (h : Transmits dev t) (hlen : (announced dev t m).length ≤ 16)
    (herr : ∃ a ∈ announced dev t m, Err a) : ∃ s, Returns dev (-1) s ∧ s.polls ≤ t + 1 + m := by
  -- the poll before which there is no error
  obtain ⟨k, hkm, hno, herr⟩ : ∃ k < m, (∀ a ∈ announced dev t k, ¬ Err a) ∧
      ∃ a ∈ announced dev t (k + 1), Err a := by
    induction m with
    | zero =>
      obtain ⟨a, ha, -⟩ := herr
      cases ha
    | succ m ih =>
      by_cases hbefore : ∃ a ∈ announced dev t m, Err a
      · have hle : (announced dev t m).length ≤ (announced dev t (m + 1)).length :=
          (announced_mono m.le_succ).length_le
        obtain ⟨k, hkm, hk⟩ := ih (by omega) hbefore
        exact ⟨k, by omega, hk⟩
      · exact ⟨m, m.lt_succ_self, by simpa using hbefore, herr⟩
  obtain ⟨a, ha, herr⟩ := herr
  rw [announced_succ, List.mem_append] at ha
  obtain ⟨hready, rfl⟩ : Ready (dev.lsr (t + 1 + k)) ∧ a = dev.lsr (t + 1 + k) := by
    rcases ha with ha | ha
    · exact absurd herr (hno a ha)
    · by_cases hready : Ready (dev.lsr (t + 1 + k))
      · rw [if_pos hready, List.mem_singleton] at ha
        exact ⟨hready, ha⟩
      · rw [if_neg hready] at ha
        cases ha
  have hroom : (announced dev t k).length < 16 := by
    have hle : (announced dev t (k + 1)).length ≤ (announced dev t m).length :=
      (announced_mono (Nat.succ_le_of_lt hkm)).length_le
    rw [announced_succ, if_pos hready, List.length_append, List.length_singleton] at hle
    omega
  have hquiet : Quiet dev t k := by
    refine ⟨hno, fun j hj => ?_⟩
    have hle : (announced dev t j).length ≤ (announced dev t k).length := (announced_mono hj.le).length_le
    omega
  refine ⟨step dev (innerState dev t k), ⟨?_, t + 1 + k + 1, ?_⟩, ?_⟩
  · rw [step_inner hroom]
    simp [hready, herr]
  · rw [run_succ, run_inner h hquiet]
  · rw [step_inner hroom]
    dsimp only [innerState]
    omega

theorem returns_of_decides (h : Transmits dev t) (hd : Decides dev t m) :
    ∃ ret s, Returns dev ret s ∧ (ret = 0 ∧ Accepts dev ∨ ret = -1 ∧ Rejects dev) ∧ s.polls ≤ t + 1 + m := by
  obtain ⟨k, hkm, hlen, hk⟩ : ∃ k ≤ m, (announced dev t k).length ≤ 16 ∧
      ((announced dev t k).length = 16 ∨ ∃ a ∈ announced dev t k, Err a) := by
    by_cases hfull : 16 ≤ (announced dev t m).length
    · obtain ⟨k, hkm, hlen⟩ := exists_length hfull
      exact ⟨k, hkm, hlen.le, .inl hlen⟩
    · exact ⟨m, le_rfl, by omega, .inr (hd.resolve_left hfull)⟩
  by_cases herr : ∃ a ∈ announced dev t k, Err a
  · obtain ⟨s, hs, hpolls⟩ := reject_returns h hlen herr
    exact ⟨-1, s, hs, .inr ⟨rfl, t, k, h, hlen, herr⟩, by omega⟩
  · have hno : ∀ a ∈ announced dev t k, ¬ Err a := by simpa using herr
    have hlen16 := hk.resolve_right herr
    obtain ⟨s, hs, -, hpolls⟩ := accept_returns h hlen16 hno
    exact ⟨0, s, hs, .inl ⟨rfl, t, k, h, hlen16, hno⟩, by omega⟩

/-- **Without a decision** the loops go on for ever. -/
theorem not_returns (h : ∀ t m, Transmits dev t → ¬ Decides dev t m) (ret : ℤ) (s : State) :
    ¬ Returns dev ret s := by
  rintro ⟨hpc, n, rfl⟩
  by_cases hex : ∃ k, Empty (dev.lsr k)
  · have ht : Transmits dev (Nat.find hex) := ⟨Nat.find_spec hex, fun k hk => Nat.find_min hex hk⟩
    generalize Nat.find hex = t at ht
    rcases Nat.lt_or_ge t n with hlt | hle
    · obtain ⟨m, rfl⟩ := Nat.exists_eq_add_of_le (Nat.succ_le_of_lt hlt)
      have hquiet : Quiet dev t m := by
        refine ⟨fun a ha herr => h t m ht (.inr ⟨a, ha, herr⟩), fun m' _ => ?_⟩
        by_contra hfull
        exact h t m' ht (.inl (by omega))
      rw [Nat.succ_eq_add_one, run_inner ht hquiet] at hpc
      cases hpc
    · rw [run_outer fun k hk => ht.2 k (by omega)] at hpc
      cases hpc
  · rw [run_outer fun k _ hempty => hex ⟨k, hempty⟩] at hpc
    cases hpc

theorem decides_of_accepts (h : Accepts dev) : ∃ t m, Transmits dev t ∧ Decides dev t m := by
  obtain ⟨t, m, ht, hlen, -⟩ := h
  exact ⟨t, m, ht, .inl hlen.ge⟩

/-- 0 is returned after 16 bytes without an error, and only then. -/
theorem returns_zero_iff : (∃ s, Returns dev 0 s) ↔ Accepts dev := by
  constructor
  · rintro ⟨s, hs⟩
    by_contra hno
    have hdecides : ∃ t m, Transmits dev t ∧ Decides dev t m := by
      by_contra hnone
      exact not_returns (fun t m ht hd => hnone ⟨t, m, ht, hd⟩) 0 s hs
    obtain ⟨t, m, ht, hd⟩ := hdecides
    obtain ⟨ret, s', hs', ⟨-, haccepts⟩ | ⟨hret, -⟩, -⟩ := returns_of_decides ht hd
    · exact hno haccepts
    · have hzero := hs.unique_ret hs'
      omega
  · rintro ⟨t, m, ht, hlen, hno⟩
    obtain ⟨s, hs, -⟩ := accept_returns ht hlen hno
    exact ⟨s, hs⟩

/-! ## What a passed diagnosis says -/

/-- What is asked of the diagnosis: if it passes, 16 bytes have come back as they were sent, without an error bit; if
they do, it passes. -/
structure PassesOnlyWorking (dev : Device) : Prop where
  passed : ∀ s, Returns dev 0 s → s.received.length = 16 ∧ ∀ x ∈ s.received, x.2 = 0xff ∧ ¬ Err x.1
  passes : Accepts dev → (∀ i < 16, dev.rbr i = 0xff) → ∃ s, Returns dev 0 s

theorem forall_bytes {l : List Byte} : (∀ x ∈ bytes dev l, x.2 = 0xff) ↔ ∀ i < l.length, dev.rbr i = 0xff := by
  unfold bytes
  simp only [List.mem_mapIdx]
  constructor
  · intro h i hi
    exact h _ ⟨i, hi, rfl⟩
  · rintro h x ⟨i, hi, rfl⟩
    exact h i hi

theorem fst_of_mem_bytes {l : List Byte} {x : Byte × Byte} (h : x ∈ bytes dev l) : x.1 ∈ l := by
  obtain ⟨i, hi, rfl⟩ := List.mem_mapIdx.1 h
  exact List.getElem_mem hi

/-- **The received bytes are not looked at.** The diagnosis does what is asked of it exactly for the devices that do
not pass with a byte that is not the one sent. -/
theorem diagnosis_law (dev : Device) : PassesOnlyWorking dev ↔ (Accepts dev → ∀ i < 16, dev.rbr i = 0xff) := by
  constructor
  · rintro hpasses ⟨t, m, ht, hlen, hno⟩
    obtain ⟨s, hs, hreceived, -⟩ := accept_returns ht hlen hno
    have hall := (hpasses.passed s hs).2
    rw [hreceived] at hall
    rw [← hlen, ← forall_bytes]
    exact fun x hx => (hall x hx).1
  · intro hcond
    refine ⟨fun s hs => ?_, fun haccepts _ => returns_zero_iff.2 haccepts⟩
    have haccepts := returns_zero_iff.1 ⟨s, hs⟩
    have hall := hcond haccepts
    obtain ⟨t, m, ht, hlen, hno⟩ := haccepts
    obtain ⟨s', hs', hreceived, -⟩ := accept_returns ht hlen hno
    rw [hs.unique hs', hreceived, length_bytes, hlen]
    refine ⟨rfl, fun x hx => ⟨?_, hno x.1 (fst_of_mem_bytes hx)⟩⟩
    rw [← hlen] at hall
    exact forall_bytes.2 hall x hx

/-- A device that answers every read with `0x21` in the status and 0 as data. -/
def deaf : Device := ⟨fun _ => 0x21, fun _ => 0⟩

/-- It passes. -/
theorem deaf_passes : (run deaf 19).pc = .returned 0 ∧ (run deaf 19).sent = List.replicate 16 0xff ∧
    (run deaf 19).received = List.replicate 16 (0x21, 0) ∧ ¬ PassesOnlyWorking deaf := by
  have hrun : run deaf 19 = ⟨.returned 0, 1, 16, 16, 17, List.replicate 16 0xff, List.replicate 16 (0x21, 0)⟩ := by
    decide +kernel
  rw [hrun]
  refine ⟨rfl, rfl, rfl, fun hpasses => ?_⟩
  have hreceived := (hpasses.passed _ ⟨rfl, 19, hrun⟩).2 (0x21, 0) (by simp)
  exact absurd hreceived.1 (by decide)

/-! ## How long it takes -/

/-- A device whose transmitter is busy for `n` polls; then it reports errors. -/
def late (n : ℕ) : Device := ⟨fun k => if k < n then 0 else 0x63, fun _ => 0⟩

theorem late_returns (n : ℕ) : ∃ s, Returns (late n) (-1) s ∧ n < s.polls := by
  have hbusy : ∀ k < n, (late n).lsr k = 0 := fun k hk => if_pos hk
  have hafter : ∀ k, n ≤ k → (late n).lsr k = 0x63 := fun k hk => if_neg (by omega)
  have ht : Transmits (late n) n := by
    refine ⟨?_, fun k hk => ?_⟩
    · rw [hafter n le_rfl]
      decide
    · rw [hbusy k hk]
      decide
  have hready : Ready ((late n).lsr (n + 1 + 0)) := by
    rw [hafter _ (by omega)]
    decide
  have herr : Err ((late n).lsr (n + 1 + 0)) := by
    rw [hafter _ (by omega)]
    decide
  have hroom : (announced (late n) n 0).length < 16 := Nat.zero_lt_succ _
  have hlast := step_inner hroom
  refine ⟨step (late n) (innerState (late n) n 0), ⟨?_, n + 1 + 1, ?_⟩, ?_⟩
  · rw [hlast]
    simp only [hready, herr, and_self, if_true]
  · rw [run_succ, run_enter ht]
  · rw [hlast]
    dsimp only [innerState]
    omega

/-- **The polls.** `device_diagnos_start` returns if and only if the device decides, and then within the polls that
the device takes for it; for the devices together there is no bound. -/
theorem verdict_law :
    (∀ dev, (∃ ret s, Returns dev ret s) ↔ ∃ t m, Transmits dev t ∧ Decides dev t m) ∧
      (∀ dev t m, Transmits dev t ∧ Decides dev t m →
        ∃ ret s, Returns dev ret s ∧ (ret = 0 ∨ ret = -1) ∧ s.polls ≤ t + 1 + m) ∧
      ∀ bound, ∃ dev ret s, Returns dev ret s ∧ bound < s.polls := by
  refine ⟨fun dev => ⟨?_, ?_⟩, ?_, ?_⟩
  · rintro ⟨ret, s, hs⟩
    by_contra hnone
    exact not_returns (fun t m ht hd => hnone ⟨t, m, ht, hd⟩) ret s hs
  · rintro ⟨t, m, ht, hd⟩
    obtain ⟨ret, s, hs, -⟩ := returns_of_decides ht hd
    exact ⟨ret, s, hs⟩
  · rintro dev t m ⟨ht, hd⟩
    obtain ⟨ret, s, hs, hret, hpolls⟩ := returns_of_decides ht hd
    exact ⟨ret, s, hs, hret.imp And.left And.left, hpolls⟩
  · intro bound
    obtain ⟨s, hs, hpolls⟩ := late_returns bound
    exact ⟨late bound, -1, s, hs, hpolls⟩

/-- A device whose transmitter is never empty, and one from which nothing comes back. -/
def stuck (transmits : Bool) : Device := ⟨fun _ => if transmits then 0x20 else 0, fun _ => 0⟩

/-- With either the diagnosis does not come to an end. -/
theorem stuck_hangs : (∀ transmits ret s, ¬ Returns (stuck transmits) ret s) ∧
    ¬ ∃ bound, ∀ dev, ∃ ret s, Returns dev ret s ∧ s.polls ≤ bound := by
  have hno : ∀ transmits ret s, ¬ Returns (stuck transmits) ret s := by
    intro transmits
    apply not_returns
    rintro t m ⟨hempty, -⟩ hd
    have hready : ¬ Ready (if transmits then 0x20 else 0) := by
      cases transmits
      · decide
      · decide
    have hnone : announced (stuck transmits) t m = [] := announced_nil (fun _ => hready) t m
    unfold Decides at hd
    rw [hnone] at hd
    simp at hd
  refine ⟨hno, ?_⟩
  rintro ⟨bound, h⟩
  obtain ⟨ret, s, hs, -⟩ := h (stuck false)
  exact hno false ret s hs

end Uart.Diagnosis
