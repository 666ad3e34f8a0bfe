import LinuxLearning.Ring.SharedMemory
/-!
# `a1_p.c` and `a1_c.c`: the characters in the ring

One pass of a loop is one step here: the statements of a pass are executed one after the other without the other
process coming between, as with a lock that works (`producerPass_statements`, `consumerPass_statements`). `start` is
the state after the initialisation by `a1_p.c` (`:35-38`).

| here | there (`Assignment/2_3/a1_p.c`, `Assignment/2_3/a1_c.c`) |
| --- | --- |
| `producerPass` | the loop body of `a1_p.c` (`:41-54`) |
| `consumerPass` | the loop body of `a1_c.c` (`:45-60`) |

`scanf` comes before the test whether there is room: a character that finds the ring full is given up. It may read
nothing, at the end of the input; what is stored then is the last character again.

* `Window` — indices and counter, in every state;
* `characters_law` — no character is lost or added as long as every pass of the producer that reads a character finds
  room, and every other one finds none.
-/

namespace Ring.Passes

structure State (α : Type*) where
  shma : Shmem α
  ret : α
  scanned : List α
  printed : List α

inductive Pass (α : Type*)
  /-- `scanf` reads this character, or none -/
  | producer (char : Option α)
  | consumer

section

variable {α : Type*}

/-- `if(shma->in==shma->out && shma->count==shma->size)` -/
def Full (m : Shmem α) : Prop := m.in = m.out ∧ m.count = m.size

instance (m : Shmem α) : Decidable (Full m) := inferInstanceAs (Decidable (m.in = m.out ∧ m.count = m.size))

def put (m : Shmem α) (c : α) : Shmem α :=
  { m with a := Function.update m.a m.out c, out := (m.out + 1) % m.size, count := m.count + 1 }

def get (m : Shmem α) : Shmem α := { m with «in» := (m.in + 1) % m.size, count := m.count - 1 }

/-- `scanf("%c",&ret)` -/
def scanf (char : Option α) (s : State α) : State α :=
  match char with
  | some c => { s with ret := c, scanned := s.scanned ++ [c] }
  | none => s

def producerPass (char : Option α) (s : State α) : State α :=
  let s := scanf char s
  if Full s.shma then s else { s with shma := put s.shma s.ret }

def consumerPass (s : State α) : State α :=
  if s.shma.count = 0 then s
  else { s with printed := s.printed ++ [s.shma.a s.shma.in], shma := get s.shma }

def step : Pass α → State α → Option (State α)
  | .producer char, s => some (producerPass char s)
  | .consumer, s => some (consumerPass s)

/-- After the initialisation; the segment may hold anything, and so may `ret`. -/
def start (a : ℤ → α) (ret : α) : State α := ⟨⟨a, 0, 50, 0, 0⟩, ret, [], []⟩

/-- The characters in the ring, from `in` on. -/
def stored (m : Shmem α) : List α := (List.range m.count.toNat).map fun i : ℕ => m.a ((m.in + i) % m.size)

/-- What is asked of the ring. -/
structure Kept (s : State α) : Prop where
  count : 0 ≤ s.shma.count ∧ s.shma.count ≤ s.shma.size
  out : s.shma.out = (s.shma.in + s.shma.count) % s.shma.size
  chars : s.printed ++ stored s.shma = s.scanned

/-- A pass of the producer that reads a character finds room, one that reads none finds no room. -/
def Fits (p : Pass α) (s : State α) : Prop :=
  match p with
  | .producer (some _) => ¬ Full s.shma
  | .producer none => Full s.shma
  | .consumer => True

/-! ## The statements of a pass -/

/-- The programs in the state of the passes, both at the top of their loops. -/
def State.between (s : State α) (sems : Option (List ℕ)) (semid : Bool) : Ring.State α :=
  ⟨s.shma, sems, .scanf, semid, s.ret, .decrement, true, s.scanned, s.printed⟩

/-- `scanf` and what follows. -/
def readChoice : Option α → Choice α
  | some c => .char c
  | none => .fail

variable {sems : Option (List ℕ)}

/-- The decrement and the test, when there is no room. -/
theorem producer_full {s : Ring.State α} (h : OneSem s) (hpc : s.producer = .decrement) (hfull : Full s.shma) :
    Run.exec Ring.step (List.replicate 2 (.producer, .go)) s = some { s with producer := .scanf } := by
  have hfull' : s.shma.in = s.shma.out ∧ s.shma.count = s.shma.size := hfull
  simp [List.replicate_succ, Run.exec, Ring.step, producerStep, hpc, semop_unchanged h, hfull']

/-- The statements from the decrement on, when there is room. -/
theorem producer_room {s : Ring.State α} (h : OneSem s) (hpc : s.producer = .decrement) (hroom : ¬ Full s.shma) :
    Run.exec Ring.step (List.replicate 6 (.producer, .go)) s =
      some { s with shma := put s.shma s.ret, producer := .scanf } := by
  have hroom' : ¬ (s.shma.in = s.shma.out ∧ s.shma.count = s.shma.size) := hroom
  have hstays : ∀ s' : Ring.State α, s'.sems = s.sems → ∀ semid sem_op, s'.semop semid sem_op = some s' :=
    fun s' hs => semop_unchanged fun sems hsems => h sems (hs ▸ hsems)
  simp [List.replicate_succ, Run.exec, Ring.step, producerStep, hpc, hstays, hroom', put]

/-- **A pass of the producer**, statement by statement. -/
theorem producerPass_statements (char : Option α) (s : State α) (semid : Bool) (h : OneSem (s.between sems semid)) :
    ∃ n, Run.exec Ring.step ((.producer, readChoice char) :: List.replicate n (.producer, .go))
      (s.between sems semid) = some ((producerPass char s).between sems semid) := by
  have hscanf : Ring.step (.producer, readChoice char) (s.between sems semid) =
      some { (scanf char s).between sems semid with producer := .decrement } := by
    cases char with
    | none => rfl
    | some c => rfl
  have hone : OneSem { (scanf char s).between sems semid with producer := .decrement } := h
  by_cases hfull : Full (scanf char s).shma
  · refine ⟨2, Run.exec_cons.2 ⟨_, hscanf, ?_⟩⟩
    rw [producer_full hone rfl hfull]
    simp only [producerPass, if_pos hfull]
    rfl
  · refine ⟨6, Run.exec_cons.2 ⟨_, hscanf, ?_⟩⟩
    rw [producer_room hone rfl hfull]
    simp only [producerPass, if_neg hfull]
    rfl

/-- **A pass of the consumer**, statement by statement. -/
theorem consumerPass_statements (s : State α) (semid : Bool) (h : OneSem (s.between sems semid)) :
    ∃ n, Run.exec Ring.step (List.replicate n (.consumer, .go)) (s.between sems semid) =
      some ((consumerPass s).between sems semid) := by
  have hstays : ∀ s' : Ring.State α, s'.sems = sems → ∀ semid sem_op, s'.semop semid sem_op = some s' :=
    fun s' hs => semop_unchanged fun sems hsems => h sems (hs ▸ hsems)
  by_cases hempty : s.shma.count = 0
  · refine ⟨2, ?_⟩
    simp [List.replicate_succ, Run.exec, Ring.step, consumerStep, State.between, hstays, hempty, consumerPass]
  · refine ⟨6, ?_⟩
    simp [List.replicate_succ, Run.exec, Ring.step, consumerStep, State.between, hstays, hempty, consumerPass, get]

/-! ## Indices and counter -/

/-- What the passes keep, whether characters are lost or not. -/
structure Window (m : Shmem α) : Prop where
  size : m.size = 50
  in_nonneg : 0 ≤ m.in
  in_lt : m.in < 50
  count_nonneg : 0 ≤ m.count
  count_le : m.count ≤ 50
  out : m.out = (m.in + m.count) % 50

variable {m : Shmem α}

theorem Window.full_iff (h : Window m) : Full m ↔ m.count = 50 := by
  obtain ⟨hsize, hin, hlt, hcount, hle, hout⟩ := h
  unfold Full
  rw [hsize, hout]
  omega

theorem Window.put (h : Window m) (hroom : ¬ Full m) (c : α) : Window (put m c) := by
  rw [h.full_iff] at hroom
  obtain ⟨hsize, hin, hlt, hcount, hle, hout⟩ := h
  refine ⟨hsize, hin, hlt, by dsimp only [Passes.put]; omega, by dsimp only [Passes.put]; omega, ?_⟩
  simp only [Passes.put, hsize, hout]
  omega

theorem Window.get (h : Window m) (hne : m.count ≠ 0) : Window (get m) := by
  obtain ⟨hsize, hin, hlt, hcount, hle, hout⟩ := h
  refine ⟨hsize, ?_, ?_, ?_, ?_, ?_⟩
  · simp only [Passes.get, hsize]
    omega
  · simp only [Passes.get, hsize]
    omega
  · dsimp only [Passes.get]
    omega
  · dsimp only [Passes.get]
    omega
  · simp only [Passes.get, hsize, hout]
    omega

/-- A character is put after those that are there. -/
theorem stored_put (h : Window m) (hroom : ¬ Full m) (c : α) : stored (put m c) = stored m ++ [c] := by
  rw [h.full_iff] at hroom
  obtain ⟨hsize, hin, hlt, hcount, hle, hout⟩ := h
  obtain ⟨n, hn⟩ := Int.eq_ofNat_of_zero_le hcount
  have hcount' : (m.count + 1).toNat = n + 1 := by omega
  have hcountn : m.count.toNat = n := by omega
  simp only [stored, put, hcount', hcountn, List.range_succ, List.map_append, List.map_cons, List.map_nil]
  congr 1
  · apply List.map_congr_left
    intro i hi
    rw [List.mem_range] at hi
    have hne : (m.in + i) % m.size ≠ m.out := by
      rw [hsize, hout]
      omega
    rw [Function.update_of_ne hne]
  · have heq : (m.in + n) % m.size = m.out := by
      rw [hsize, hout, hn]
    rw [heq, Function.update_self]

/-- The first character is taken. -/
theorem stored_get (h : Window m) (hne : m.count ≠ 0) : stored m = m.a m.in :: stored (get m) := by
  obtain ⟨hsize, hin, hlt, hcount, hle, hout⟩ := h
  obtain ⟨n, hn⟩ : ∃ n, m.count.toNat = n + 1 := Nat.exists_eq_succ_of_ne_zero (by omega)
  have hn' : (m.count - 1).toNat = n := by omega
  simp only [stored, get, hn, hn', List.range_succ_eq_map, List.map_cons, List.map_map]
  congr 1
  · congr 1
    rw [hsize, Nat.cast_zero]
    omega
  · apply List.map_congr_left
    intro i _
    simp only [Function.comp_apply, hsize]
    congr 1
    push_cast
    omega

/-! ## The runs -/

variable {s s' : State α} {p : Pass α}

theorem shma_scanf (char : Option α) (s : State α) : (scanf char s).shma = s.shma := by
  cases char with
  | some c => rfl
  | none => rfl

theorem producerPass_cases (char : Option α) (s : State α) :
    (Full s.shma ∧ producerPass char s = scanf char s) ∨
      (¬ Full s.shma ∧ producerPass char s = { scanf char s with shma := put s.shma (scanf char s).ret }) := by
  unfold producerPass
  dsimp only
  rw [shma_scanf]
  by_cases hfull : Full s.shma
  · exact .inl ⟨hfull, if_pos hfull⟩
  · exact .inr ⟨hfull, if_neg hfull⟩

theorem window_step (p : Pass α) (s s' : State α) (h : Window s.shma) (hs : step p s = some s') :
    Window s'.shma := by
  cases p with
  | producer char =>
    cases hs
    rcases producerPass_cases char s with ⟨-, heq⟩ | ⟨hroom, heq⟩
    · rw [heq, shma_scanf]
      exact h
    · rw [heq]
      exact h.put hroom _
  | consumer =>
    cases hs
    unfold consumerPass
    by_cases hempty : s.shma.count = 0
    · rw [if_pos hempty]
      exact h
    · rw [if_neg hempty]
      exact h.get hempty

theorem Window.kept_iff (h : Window s.shma) : Kept s ↔ s.printed ++ stored s.shma = s.scanned := by
  refine ⟨fun hkept => hkept.chars, fun hchars => ⟨⟨h.count_nonneg, ?_⟩, ?_, hchars⟩⟩
  · rw [h.size]
    exact h.count_le
  · rw [h.size]
    exact h.out

/-- **One pass** keeps the characters if and only if it fits. -/
theorem kept_iff (p : Pass α) (s s' : State α) (h : Window s.shma) (hkept : Kept s) (hs : step p s = some s') :
    Kept s' ↔ Fits p s := by
  rw [(window_step p s s' h hs).kept_iff]
  have hchars := hkept.chars
  cases p with
  | producer char =>
    cases hs
    cases char with
    | some c =>
      by_cases hfull : Full s.shma
      · -- the character is given up
        have hpass : producerPass (some c) s = scanf (some c) s := if_pos hfull
        have hlost : s.printed ++ stored s.shma ≠ s.scanned ++ [c] := by
          rw [hchars]
          simp
        simpa [hpass, Fits, hfull, scanf] using hlost
      · have hpass : producerPass (some c) s = { scanf (some c) s with shma := put s.shma c } := if_neg hfull
        simp only [hpass, Fits, hfull, scanf, stored_put h hfull, ← hchars, List.append_assoc, not_false_eq_true]
    | none =>
      by_cases hfull : Full s.shma
      · have hpass : producerPass none s = s := if_pos hfull
        simp only [hpass, Fits, hfull, hchars]
      · -- the last character is stored again
        have hpass : producerPass none s = { s with shma := put s.shma s.ret } := if_neg hfull
        have hadded : s.printed ++ (stored s.shma ++ [s.ret]) ≠ s.scanned := by
          rw [← List.append_assoc, hchars]
          simp
        simpa [hpass, Fits, hfull, stored_put h hfull] using hadded
  | consumer =>
    cases hs
    unfold consumerPass
    by_cases hempty : s.shma.count = 0
    · rw [if_pos hempty]
      exact iff_of_true hchars trivial
    · rw [if_neg hempty]
      refine iff_of_true ?_ trivial
      rw [stored_get h hempty] at hchars
      simpa using hchars

theorem window_start (a : ℤ → α) (ret : α) : Window (start a ret).shma :=
  ⟨rfl, le_rfl, by simp [start], le_rfl, by simp [start], rfl⟩

theorem kept_start (a : ℤ → α) (ret : α) : Kept (start a ret) :=
  (window_start a ret).kept_iff.2 rfl

theorem step_total (p : Pass α) (s : State α) : ∃ s', step p s = some s' := by
  cases p with
  | producer char => exact ⟨_, rfl⟩
  | consumer => exact ⟨_, rfl⟩

/-- **The characters.** What has been printed and what is in the ring is what has been read, in every state of a run,
if and only if every pass of the producer that reads a character finds room, and every other one finds none. -/
theorem characters_law (a : ℤ → α) (ret : α) (ps : List (Pass α)) :
    Run.Throughout step Kept ps (start a ret) ↔ Run.Along step Fits ps (start a ret) :=
  Run.throughout_iff_along (Run.free_of_total step_total) window_step kept_iff (window_start a ret) (kept_start a ret)

end

/-- 51 characters, and nobody takes one out. -/
def overrun : List (Pass ℕ) := List.replicate 51 (.producer (some 7))

/-- The last one is lost. -/
theorem character_lost : ∃ s, Run.exec step overrun (start (fun _ => 0) 0) = some s ∧ s.scanned.length = 51 ∧
    s.shma.count = 50 ∧ s.printed = [] ∧ ¬ Kept s := by
  have h : (Run.exec step overrun (start (fun _ => 0) 0)).map
      (fun s => (s.scanned.length, s.shma.count, s.printed)) = some (51, 50, []) := by decide +kernel
  obtain ⟨s, hs, he⟩ := Option.map_eq_some_iff.1 h
  simp only [Prod.mk.injEq] at he
  obtain ⟨hscanned, hcount, hprinted⟩ := he
  refine ⟨s, hs, hscanned, hcount, hprinted, fun hkept => ?_⟩
  have hlen := congrArg List.length hkept.chars
  rw [List.length_append, hprinted, hscanned] at hlen
  simp [stored, hcount] at hlen

end Ring.Passes
