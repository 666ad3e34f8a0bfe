import LinuxLearning.Uart.Open
import LinuxLearning.Lib.Threads
/-!
# `uart_pci_latest_March2011.c`: several processes in `uart_open` and `uart_release`

| here | there (`KernelDrivers_March2011/uart_pci_latest_March2011.c`) |
| --- | --- |
| `Branch.counters` | the counters a branch tests, increments and decrements, in this order |
| `Pc.test`         | the `atomic_read`s of `uart_open` that are still to come (`:184`, `:200`, `:213`) |
| `Pc.inc`          | its `atomic_inc`s (`:186-188`, `:202`, `:215`) |
| `Pc.dec`          | the `atomic_dec`s of `uart_release` (`:233-235`, `:240`, `:245`) |

Every `atomic_read`, `atomic_inc` and `atomic_dec` is one statement of `stmt`; the threads are any number of
processes, and the devices any number of `P_DEV`s. A process that runs alone does what `uart_open` says
(`solo_open`).

The branches that write end in `w_count`. A process that has read it as 0 and has not incremented it yet is in
the `window`: a second one that reads it there gets in too (`race_breaks`).

* `writers_law` — as long as no process reads 0 while another one is in the window, and no release hits the
  device of another file, there is one writer at most.
-/

namespace Uart

open Threads Errno

/-- The counters of a branch. -/
def Branch.counters : Branch → List Counter
  | .rdwr => [.rw_count, .r_count, .w_count]
  | .rdonly => [.r_count]
  | .wronly => [.w_count]
  | .missed => []

/-! ## The sequential functions, counter by counter -/

/-- `uart_open` tests the counters of its branch and increments them. -/
theorem uart_open_eq (f_flags : ℕ) (c : Counters) : uart_open f_flags c =
    if branch f_flags = .missed then (none, c)
    else if ∀ k ∈ (branch f_flags).counters, c k = 0 then
      (some 0, (branch f_flags).counters.foldl Counters.inc c)
    else (some (-EBUSY), c) := by
  unfold uart_open
  cases branch f_flags with
  | rdwr => simp [Branch.counters]
  | rdonly => simp [Branch.counters]
  | wronly => simp [Branch.counters]
  | missed => rfl

theorem uart_release_eq (f_flags : ℕ) (c : Counters) :
    (uart_release f_flags c).2 = (branch f_flags).counters.foldl Counters.dec c := by
  unfold uart_release
  cases branch f_flags with
  | rdwr | rdonly | wronly | missed => rfl

/-! ## The processes -/

inductive Pc (D : Type*)
  /-- in user code, with no file -/
  | idle
  /-- in `uart_open`, the tests that are left -/
  | test (dev : D) (f_flags : Flags) (left : List Counter)
  /-- in `uart_open`, the increments that are left -/
  | inc (dev : D) (f_flags : Flags) (left : List Counter)
  /-- in user code, the open was successful -/
  | opened (dev : D) (f_flags : Flags)
  /-- in `uart_release`, the decrements that are left; `hit` is what its pointer happens to hold -/
  | dec (dev : D) (f_flags : Flags) (hit : Option D) (left : List Counter)

inductive Act (D : Type*)
  | open (dev : D) (f_flags : Flags)
  | release (hit : Option D)
  /-- the next statement of the call -/
  | go

section

variable {T D : Type*} [DecidableEq D]

/-- One statement of a process. -/
def stmt (_ : T) : Pc D → Act D → (D → Counters) → Option ((D → Counters) × Pc D)
  | .idle, .open dev f_flags, m =>
    if branch f_flags.1 = .missed then some (m, .idle)
    else some (m, .test dev f_flags (branch f_flags.1).counters)
  | .test dev f_flags (k :: left), .go, m =>
    if m dev k = 0 then some (m, .test dev f_flags left) else some (m, .idle)
  | .test dev f_flags [], .go, m => some (m, .inc dev f_flags (branch f_flags.1).counters)
  | .inc dev f_flags (k :: left), .go, m =>
    some (Function.update m dev ((m dev).inc k), .inc dev f_flags left)
  | .inc dev f_flags [], .go, m => some (m, .opened dev f_flags)
  | .opened dev f_flags, .release hit, m => some (m, .dec dev f_flags hit (branch f_flags.1).counters)
  | .dec dev f_flags (some d) (k :: left), .go, m =>
    some (Function.update m d ((m d).dec k), .dec dev f_flags (some d) left)
  | .dec dev f_flags none (_ :: left), .go, m => some (m, .dec dev f_flags none left)
  | .dec _ _ _ [], .go, m => some (m, .idle)
  | _, _, _ => none

/-- `n` statements of `t`. -/
def alone (t : T) (n : ℕ) : List (T × Act D) := List.replicate n (t, .go)

/-- All processes in user code, the counters 0. -/
def start : Config T (D → Counters) (Pc D) := ⟨fun _ _ => 0, fun _ => .idle⟩

inductive Phase
  /-- no access to the device -/
  | out
  /-- all tests are passed, `w_count` is not incremented yet -/
  | window
  /-- counted in `w_count` -/
  | counted
deriving DecidableEq

/-- How far a process is with `dev`. -/
def Pc.phase (dev : D) : Pc D → Phase
  | .test d _ [] | .inc d _ (_ :: _) => if d = dev then .window else .out
  | .inc d _ [] | .opened d _ | .dec d _ _ (_ :: _) => if d = dev then .counted else .out
  | _ => .out

/-- A successful open of `dev` with write access. -/
def Pc.writer (dev : D) : Pc D → Bool
  | .opened d f_flags => d = dev ∧ f_flags.write = true
  | _ => false

/-- The device whose `w_count` is about to be read as 0. -/
def Pc.lastTest (m : D → Counters) : Pc D → Option D
  | .test dev _ [.w_count] => if m dev .w_count = 0 then some dev else none
  | _ => none

/-- The pointer of a release is not the address of another device. -/
def Pc.harmless : Pc D → Act D → Bool
  | .opened dev _, .release hit => hit = none ∨ hit = some dev
  | _, _ => true

/-- No other process is in the window when one enters it, and no release hits another device. -/
def Spaced (a : T × Act D) (s : Config T (D → Counters) (Pc D)) : Prop :=
  (∀ dev, (s.pc a.1).lastTest s.mem = some dev → ∀ u, u ≠ a.1 → (s.pc u).phase dev ≠ .window) ∧
    (s.pc a.1).harmless a.2 = true

/-- At most one process has a device open for writing, and `w_count` is 1 at most. -/
def Excluded (s : Config T (D → Counters) (Pc D)) : Prop :=
  ∀ dev, (∀ t u, (s.pc t).writer dev = true → (s.pc u).writer dev = true → t = u) ∧ s.mem dev .w_count ≤ 1

end

/-! ## The lists of counters -/

/-- What is left of the counters of a branch that writes: `w_count` is the last one. -/
inductive Ends : List Counter → Prop
  | nil : Ends []
  | last : Ends [.w_count]
  | cons {k k' : Counter} {left : List Counter} : k ≠ .w_count → Ends (k' :: left) → Ends (k :: k' :: left)

/-- The branches that files are opened by. -/
theorem ends_counters (f : Flags) (h : branch f.1 ≠ .missed) :
    ∃ k left, (branch f.1).counters = k :: left ∧ Ends (k :: left) := by
  have hlast : Ends [.r_count, .w_count] := .cons (by decide) .last
  rw [branch_eq] at *
  rcases mode_cases f with hm | hm | hm
  · rw [hm] at h
    exact absurd rfl h
  · rw [hm]
    exact ⟨_, _, rfl, .last⟩
  · rw [hm]
    exact ⟨_, _, rfl, .cons (by decide) hlast⟩

/-! ## One statement -/

section

variable {T D : Type*} [DecidableEq D] {m m' : D → Counters} {p p' : Pc D} {a : Act D} {t : T}

def Pc.Sound : Pc D → Prop
  | .idle => True
  | .test _ f_flags left => branch f_flags.1 ≠ .missed ∧ Ends left
  | .inc _ f_flags left => branch f_flags.1 ≠ .missed ∧ Ends left
  | .opened _ f_flags => branch f_flags.1 ≠ .missed
  | .dec dev f_flags hit left => branch f_flags.1 ≠ .missed ∧ Ends left ∧ (hit = none ∨ hit = some dev)

/-- What a statement does to the phase of the process and to `w_count`. -/
inductive Moved (m m' : D → Counters) (p p' : Pc D) (dev : D) : Prop
  | stays : p'.phase dev = p.phase dev → m' dev .w_count = m dev .w_count → Moved m m' p p' dev
  | enters : p.lastTest m = some dev → p'.phase dev = .window → m' = m → Moved m m' p p' dev
  | counts : p.phase dev = .window → p'.phase dev = .counted → m' dev .w_count = m dev .w_count + 1 →
      Moved m m' p p' dev
  | leaves : p.phase dev = .counted → p'.phase dev = .out →
      (m' dev .w_count = m dev .w_count ∨ m' dev .w_count = m dev .w_count - 1) → Moved m m' p p' dev

theorem stmt_test {d : D} {f_flags : Flags} {left : List Counter}
    (hp : (Pc.test d f_flags left).Sound) (h : stmt t (.test d f_flags left) .go m = some (m', p')) :
    p'.Sound ∧ ∀ dev, Moved m m' (.test d f_flags left) p' dev := by
  obtain ⟨hb, hends⟩ := hp
  cases hends with
  | nil =>
    cases h
    obtain ⟨k, left, hcounters, hends⟩ := ends_counters f_flags hb
    rw [hcounters]
    exact ⟨⟨hb, hends⟩, fun _ => .stays rfl rfl⟩
  | last =>
    simp only [stmt] at h
    by_cases hk : m d .w_count = 0
    · rw [if_pos hk] at h
      cases h
      refine ⟨⟨hb, .nil⟩, fun dev => ?_⟩
      by_cases hd : d = dev
      · subst hd
        refine .enters ?_ ?_ rfl
        · simp [Pc.lastTest, hk]
        · simp [Pc.phase]
      · exact .stays (by simp [Pc.phase, hd]) rfl
    · rw [if_neg hk] at h
      cases h
      exact ⟨trivial, fun _ => .stays rfl rfl⟩
  | @cons k k' left hne hends =>
    simp only [stmt] at h
    by_cases hk : m d k = 0
    · rw [if_pos hk] at h
      cases h
      exact ⟨⟨hb, hends⟩, fun _ => .stays rfl rfl⟩
    · rw [if_neg hk] at h
      cases h
      exact ⟨trivial, fun _ => .stays rfl rfl⟩

theorem stmt_inc {d : D} {f_flags : Flags} {left : List Counter}
    (hp : (Pc.inc d f_flags left).Sound) (h : stmt t (.inc d f_flags left) .go m = some (m', p')) :
    p'.Sound ∧ ∀ dev, Moved m m' (.inc d f_flags left) p' dev := by
  obtain ⟨hb, hends⟩ := hp
  cases hends with
  | nil =>
    cases h
    exact ⟨hb, fun _ => .stays rfl rfl⟩
  | last =>
    cases h
    refine ⟨⟨hb, .nil⟩, fun dev => ?_⟩
    by_cases hd : d = dev
    · subst hd
      exact .counts (by simp [Pc.phase]) (by simp [Pc.phase]) (by simp [Counters.inc])
    · have hne : dev ≠ d := fun h => hd h.symm
      exact .stays (by simp [Pc.phase, hd]) (by simp [Function.update_of_ne hne])
  | @cons k k' left hne hends =>
    cases h
    refine ⟨⟨hb, hends⟩, fun dev => .stays rfl ?_⟩
    by_cases hd : d = dev
    · subst hd
      simp [Counters.inc, Function.update_of_ne hne.symm]
    · have hne : dev ≠ d := fun h => hd h.symm
      simp [Function.update_of_ne hne]

theorem stmt_dec {d : D} {f_flags : Flags} {hit : Option D} {left : List Counter}
    (hp : (Pc.dec d f_flags hit left).Sound) (h : stmt t (.dec d f_flags hit left) .go m = some (m', p')) :
    p'.Sound ∧ ∀ dev, Moved m m' (.dec d f_flags hit left) p' dev := by
  obtain ⟨hb, hends, hhit⟩ := hp
  cases hends with
  | nil =>
    have hidle : (m, Pc.idle) = (m', p') := by
      rcases hhit with rfl | rfl
      · exact Option.some.inj h
      · exact Option.some.inj h
    cases hidle
    exact ⟨trivial, fun _ => .stays rfl rfl⟩
  | last =>
    rcases hhit with rfl | rfl
    · cases h
      refine ⟨⟨hb, .nil, .inl rfl⟩, fun dev => ?_⟩
      by_cases hd : d = dev
      · exact .leaves (by simp [Pc.phase, hd]) rfl (.inl rfl)
      · exact .stays (by simp [Pc.phase, hd]) rfl
    · cases h
      refine ⟨⟨hb, .nil, .inr rfl⟩, fun dev => ?_⟩
      by_cases hd : d = dev
      · subst hd
        exact .leaves (by simp [Pc.phase]) rfl (.inr (by simp [Counters.dec]))
      · have hne : dev ≠ d := fun h => hd h.symm
        exact .stays (by simp [Pc.phase, hd]) (by simp [Function.update_of_ne hne])
  | @cons k k' left hne hends =>
    rcases hhit with rfl | rfl
    · cases h
      exact ⟨⟨hb, hends, .inl rfl⟩, fun _ => .stays rfl rfl⟩
    · cases h
      refine ⟨⟨hb, hends, .inr rfl⟩, fun dev => .stays rfl ?_⟩
      by_cases hd : d = dev
      · subst hd
        simp [Counters.dec, Function.update_of_ne hne.symm]
      · have hne : dev ≠ d := fun h => hd h.symm
        simp [Function.update_of_ne hne]

/-- **One statement** of a process that does not release another device. -/
theorem stmt_spec (hp : p.Sound) (ha : p.harmless a = true) (h : stmt t p a m = some (m', p')) :
    p'.Sound ∧ ∀ dev, Moved m m' p p' dev := by
  cases p with
  | idle =>
    cases a with
    | «open» d f_flags =>
      simp only [stmt] at h
      by_cases hb : branch f_flags.1 = .missed
      · rw [if_pos hb] at h
        cases h
        exact ⟨trivial, fun _ => .stays rfl rfl⟩
      · rw [if_neg hb] at h
        cases h
        obtain ⟨k, left, hcounters, hends⟩ := ends_counters f_flags hb
        rw [hcounters]
        exact ⟨⟨hb, hends⟩, fun _ => .stays rfl rfl⟩
    | release hit | go => cases h
  | test d f_flags left =>
    cases a with
    | go => exact stmt_test hp h
    | «open» | release => cases left <;> cases h
  | inc d f_flags left =>
    cases a with
    | go => exact stmt_inc hp h
    | «open» | release => cases left <;> cases h
  | «opened» d f_flags =>
    cases a with
    | release hit =>
      cases h
      obtain ⟨k, left, hcounters, hends⟩ := ends_counters f_flags hp
      rw [hcounters]
      exact ⟨⟨hp, hends, of_decide_eq_true ha⟩, fun _ => .stays rfl rfl⟩
    | «open» | go => cases h
  | dec d f_flags hit left =>
    cases a with
    | go => exact stmt_dec hp h
    | «open» | release => cases left <;> cases hit <;> cases h

/-! ## The invariant -/

variable {s s' : Config T (D → Counters) (Pc D)} {dev : D}

/-- At most one process has `dev` or is about to get it, and `w_count` says if one has it. -/
structure Sole (s : Config T (D → Counters) (Pc D)) (dev : D) : Prop where
  alone : ∀ t u, (s.pc t).phase dev ≠ .out → (s.pc u).phase dev ≠ .out → t = u
  window : ∀ t, (s.pc t).phase dev = .window → s.mem dev .w_count = 0
  counted : ∀ t, (s.pc t).phase dev = .counted → s.mem dev .w_count = 1
  range : s.mem dev .w_count = 0 ∨ s.mem dev .w_count = 1

/-- Every other process is out. -/
theorem Sole.out (h : Sole s dev) (ht : (s.pc t).phase dev ≠ .out) {u : T} (hu : u ≠ t) :
    (s.pc u).phase dev = .out := by
  by_contra hout
  exact hu (h.alone u t hout ht)

/-- All processes but one are out. -/
theorem sole_of_out (hout : ∀ u, u ≠ t → (s.pc u).phase dev = .out)
    (hwindow : (s.pc t).phase dev = .window → s.mem dev .w_count = 0)
    (hcounted : (s.pc t).phase dev = .counted → s.mem dev .w_count = 1)
    (hrange : s.mem dev .w_count = 0 ∨ s.mem dev .w_count = 1) : Sole s dev := by
  have heq : ∀ u, (s.pc u).phase dev ≠ .out → u = t := by
    intro u hu
    by_contra hne
    exact hu (hout u hne)
  refine ⟨fun u v hu hv => (heq u hu).trans (heq v hv).symm, ?_, ?_, hrange⟩
  · intro u hu
    have hut := heq u (by simp [hu])
    exact hwindow (hut ▸ hu)
  · intro u hu
    have hut := heq u (by simp [hu])
    exact hcounted (hut ▸ hu)

/-- A process that is about to read `w_count` as 0 is out. -/
theorem lastTest_eq_some (h : p.lastTest m = some dev) : p.phase dev = .out ∧ m dev .w_count = 0 := by
  unfold Pc.lastTest at h
  split at h
  · simp only [Option.ite_none_right_eq_some, Option.some.injEq] at h
    obtain ⟨hm, rfl⟩ := h
    exact ⟨rfl, hm⟩
  · cases h

/-- **One step** by `t`, seen from `dev`. -/
theorem sole_step (h : Sole s dev) (hothers : ∀ u, u ≠ t → s'.pc u = s.pc u)
    (hspaced : (s.pc t).lastTest s.mem = some dev → ∀ u, u ≠ t → (s.pc u).phase dev ≠ .window)
    (hmoved : Moved s.mem s'.mem (s.pc t) (s'.pc t) dev) : Sole s' dev := by
  cases hmoved with
  | stays hphase hw =>
    have hsame : ∀ u, (s'.pc u).phase dev = (s.pc u).phase dev := by
      intro u
      by_cases hu : u = t
      · rw [hu, hphase]
      · rw [hothers u hu]
    constructor
    · intro u v hu hv
      rw [hsame] at hu hv
      exact h.alone u v hu hv
    · intro u hu
      rw [hsame] at hu
      exact hw.trans (h.window u hu)
    · intro u hu
      rw [hsame] at hu
      exact hw.trans (h.counted u hu)
    · rw [hw]
      exact h.range
  | enters hlast hphase hm =>
    have hzero := (lastTest_eq_some hlast).2
    rw [← hm] at hzero
    refine sole_of_out (t := t) (fun u hu => ?_) (fun _ => hzero) (fun hcounted => ?_) (.inl hzero)
    · rw [hothers u hu]
      cases hp : (s.pc u).phase dev with
      | out => rfl
      | window => exact absurd hp (hspaced hlast u hu)
      | counted =>
        have hone := h.counted u hp
        rw [← hm] at hone
        omega
    · simp [hphase] at hcounted
  | counts hphase hphase' hw =>
    have hzero := h.window t hphase
    have hone : s'.mem dev .w_count = 1 := by omega
    refine sole_of_out (t := t) (fun u hu => ?_) (fun hwindow => ?_) (fun _ => hone) (.inr hone)
    · rw [hothers u hu]
      exact h.out (by simp [hphase]) hu
    · simp [hphase'] at hwindow
  | leaves hphase hphase' hw =>
    have hone := h.counted t hphase
    refine sole_of_out (t := t) (fun u hu => ?_) (fun hwindow => ?_) (fun hcounted => ?_) (by omega)
    · rw [hothers u hu]
      exact h.out (by simp [hphase]) hu
    · simp [hphase'] at hwindow
    · simp [hphase'] at hcounted

theorem excluded_of_sole (h : ∀ dev, Sole s dev) : Excluded s := by
  intro dev
  have hwriter : ∀ t, (s.pc t).writer dev = true → (s.pc t).phase dev ≠ .out := by
    intro t ht
    unfold Pc.writer at ht
    split at ht
    · rename_i d f_flags hp
      have hd := (of_decide_eq_true ht).1
      rw [hp]
      simp [Pc.phase, hd]
    · cases ht
  constructor
  · intro t u ht hu
    exact (h dev).alone t u (hwriter t ht) (hwriter u hu)
  · have hrange := (h dev).range
    omega

theorem inv_start : (∀ t, ((start : Config T (D → Counters) (Pc D)).pc t).Sound) ∧
    ∀ dev, Sole (start : Config T (D → Counters) (Pc D)) dev := by
  refine ⟨fun _ => trivial, fun dev => ⟨fun t u ht => ?_, fun t ht => ?_, fun t ht => ?_, .inl rfl⟩⟩
  · exact absurd rfl ht
  · cases ht
  · cases ht

variable [DecidableEq T]

/-- Only the process that takes the step moves. -/
theorem writers_step (a : T × Act D) (s s' : Config T (D → Counters) (Pc D)) (hspaced : Spaced a s)
    (h : (∀ t, (s.pc t).Sound) ∧ ∀ dev, Sole s dev) (hs : Threads.step stmt a s = some s') :
    (∀ t, (s'.pc t).Sound) ∧ ∀ dev, Sole s' dev := by
  obtain ⟨m', p', hstmt, rfl⟩ := step_eq_some.1 hs
  obtain ⟨hsound, hsole⟩ := h
  obtain ⟨hlast, hharmless⟩ := hspaced
  obtain ⟨hsound', hmoved⟩ := stmt_spec (hsound a.1) hharmless hstmt
  constructor
  · intro u
    by_cases hu : u = a.1
    · simpa [hu] using hsound'
    · simpa [hu] using hsound u
  · intro dev
    refine sole_step (hsole dev) (t := a.1) (fun u hu => ?_) (hlast dev) ?_
    · exact Function.update_of_ne hu _ _
    · have hself : Function.update s.pc a.1 p' a.1 = p' := Function.update_self _ _ _
      simp only [hself]
      exact hmoved dev

/-- **Excluded writers.** In every interleaving of any number of processes in which nobody enters the window
of another one and no release hits another device. -/
theorem writers_law {as : List (T × Act D)} (h : Run.Along (Threads.step stmt) Spaced as start) :
    Run.Throughout (Threads.step stmt) Excluded as (start : Config T (D → Counters) (Pc D)) :=
  Run.throughout writers_step (fun _ h => excluded_of_sole h.2) h inv_start

def wronly : Flags := ⟨O_WRONLY, by decide⟩

/-- The second process comes when the first one has the device, and again when it has released it. -/
def turns : List (Bool × Act Unit) :=
  (true, .open () wronly) :: alone true 4 ++ (false, .open () wronly) :: alone false 1 ++
    (true, .release (some ())) :: alone true 2 ++ (false, .open () wronly) :: alone false 4

/-- Both processes read `w_count` before one of them increments it. -/
def race : List (Bool × Act Unit) :=
  [(true, .open () wronly), (false, .open () wronly), (true, .go), (false, .go)] ++ alone true 3 ++ alone false 3

instance [Fintype T] [Fintype D] (a : T × Act D) (s : Config T (D → Counters) (Pc D)) : Decidable (Spaced a s) :=
  inferInstanceAs (Decidable (_ ∧ _))

theorem writers_law_turns : Run.Throughout (Threads.step stmt) Excluded turns
    (start : Config Bool (Unit → Counters) (Pc Unit)) :=
  writers_law (by decide +kernel)

/-- Both processes have the device open for writing at the end. -/
theorem race_both : ∃ s, Run.exec (Threads.step stmt) race start = some s ∧ ¬ Excluded s := by
  have h : (Run.exec (Threads.step stmt) race start).map
      (fun s => ((s.pc true).writer (), (s.pc false).writer ())) = some (true, true) := by decide +kernel
  obtain ⟨s, hs, he⟩ := Option.map_eq_some_iff.1 h
  simp only [Prod.mk.injEq] at he
  refine ⟨s, hs, fun hexcluded => ?_⟩
  have heq := (hexcluded ()).1 true false he.1 he.2
  cases heq

/-! ## A process that runs alone -/

variable {pc : T → Pc D} {dev : D} {f_flags : Flags}

theorem exec_go (pc : T → Pc D) {m m' : D → Counters} {p p' : Pc D} (n : ℕ) (h : stmt t p .go m = some (m', p')) :
    Run.exec (Threads.step stmt) (alone t (n + 1)) ⟨m, Function.update pc t p⟩ =
      Run.exec (Threads.step stmt) (alone t n) ⟨m', Function.update pc t p'⟩ := by
  have hstep : Threads.step stmt (t, .go) ⟨m, Function.update pc t p⟩ = some ⟨m', Function.update pc t p'⟩ := by
    simp [Threads.step, h]
  unfold alone
  rw [List.replicate_succ, Run.exec, hstep]
  rfl

/-- The tests that succeed. -/
theorem run_test {left : List Counter} (h : ∀ k ∈ left, m dev k = 0) (n : ℕ) :
    Run.exec (Threads.step stmt) (alone t (left.length + n)) ⟨m, Function.update pc t (.test dev f_flags left)⟩ =
      Run.exec (Threads.step stmt) (alone t n) ⟨m, Function.update pc t (.test dev f_flags [])⟩ := by
  induction left with
  | nil => rw [List.length_nil, Nat.zero_add]
  | cons k left ih =>
    have hk : stmt t (.test dev f_flags (k :: left)) .go m = some (m, .test dev f_flags left) :=
      if_pos (h k List.mem_cons_self)
    rw [List.length_cons, Nat.add_right_comm, exec_go pc _ hk, ih fun k hk => h k (List.mem_cons_of_mem _ hk)]

/-- The tests, one of which fails. -/
theorem run_busy (t : T) (pc : T → Pc D) (f_flags : Flags) {left : List Counter} (h : ∃ k ∈ left, m dev k ≠ 0) : ∃ n,
    Run.exec (Threads.step stmt) (alone t n) ⟨m, Function.update pc t (.test dev f_flags left)⟩ =
      some ⟨m, Function.update pc t .idle⟩ := by
  induction left with
  | nil => simp at h
  | cons k left ih =>
    by_cases hk : m dev k = 0
    · have hstmt : stmt t (.test dev f_flags (k :: left)) .go m = some (m, .test dev f_flags left) := if_pos hk
      have htail : ∃ k ∈ left, m dev k ≠ 0 := by simpa [hk] using h
      obtain ⟨n, hn⟩ := ih htail
      exact ⟨n + 1, (exec_go pc n hstmt).trans hn⟩
    · have hstmt : stmt t (.test dev f_flags (k :: left)) .go m = some (m, .idle) := if_neg hk
      exact ⟨1, exec_go pc 0 hstmt⟩

/-- The increments. -/
theorem run_inc (left : List Counter) (n : ℕ) :
    Run.exec (Threads.step stmt) (alone t (left.length + n)) ⟨m, Function.update pc t (.inc dev f_flags left)⟩ =
      Run.exec (Threads.step stmt) (alone t n)
        ⟨Function.update m dev (left.foldl Counters.inc (m dev)),
          Function.update pc t (.inc dev f_flags [])⟩ := by
  induction left generalizing m with
  | nil => simp
  | cons k left ih =>
    have hk : stmt t (.inc dev f_flags (k :: left)) .go m =
      some (Function.update m dev ((m dev).inc k), .inc dev f_flags left) := rfl
    rw [List.length_cons, Nat.add_right_comm, exec_go pc _ hk, ih]
    simp

/-- **A process that runs alone** does what `uart_open` says. -/
theorem solo_open : ∃ n,
    Run.exec (Threads.step stmt) ((t, .open dev f_flags) :: alone t n) ⟨m, Function.update pc t .idle⟩ =
      some ⟨Function.update m dev (uart_open f_flags.1 (m dev)).2, Function.update pc t
        (if (uart_open f_flags.1 (m dev)).1 = some 0 then .opened dev f_flags else .idle)⟩ := by
  rw [uart_open_eq]
  by_cases hb : branch f_flags.1 = .missed
  · exact ⟨0, by simp [alone, Run.exec, Threads.step, stmt, hb]⟩
  · have hopen : ∀ n, Run.exec (Threads.step stmt) ((t, .open dev f_flags) :: alone t n)
          ⟨m, Function.update pc t .idle⟩ =
        Run.exec (Threads.step stmt) (alone t n)
          ⟨m, Function.update pc t (.test dev f_flags (branch f_flags.1).counters)⟩ := by
      intro n
      simp [Run.exec, Threads.step, stmt, hb]
    rw [if_neg hb]
    by_cases hzero : ∀ k ∈ (branch f_flags.1).counters, m dev k = 0
    · rw [if_pos hzero]
      have hin : stmt t (.test dev f_flags []) .go m =
        some (m, .inc dev f_flags (branch f_flags.1).counters) := rfl
      refine ⟨(branch f_flags.1).counters.length + ((branch f_flags.1).counters.length + 1 + 1), ?_⟩
      rw [hopen, run_test hzero, exec_go pc _ hin, run_inc]
      exact exec_go pc 0 rfl
    · rw [if_neg hzero]
      have hbusy : ∃ k ∈ (branch f_flags.1).counters, m dev k ≠ 0 := by
        simpa using hzero
      obtain ⟨n, hn⟩ := run_busy t pc f_flags hbusy
      refine ⟨n, ?_⟩
      rw [hopen, hn]
      simp [EBUSY]

/-! ## The race -/

/-- The increments of a branch that writes reach `w_count` once. -/
theorem foldl_inc_w {k : Counter} {left : List Counter} (h : Ends (k :: left)) (c : Counters) :
    (k :: left).foldl Counters.inc c .w_count = c .w_count + 1 := by
  induction left generalizing k c with
  | nil =>
    cases h
    simp [Counters.inc]
  | cons k' left ih =>
    cases h with
    | cons hne htail =>
      rw [List.foldl_cons, ih htail]
      simp [Counters.inc, Function.update_of_ne hne.symm]

theorem finish_inc (t : T) (m : D → Counters) (pc : T → Pc D) {k : Counter} {left : List Counter} (hb : branch f_flags.1 ≠ .missed)
    (hends : Ends (k :: left)) : ∃ n g m',
    Run.exec (Threads.step stmt) (alone t n) ⟨m, Function.update pc t (.inc dev f_flags (k :: left))⟩ =
        some ⟨m', Function.update pc t (.opened dev g)⟩ ∧
      branch g.1 ≠ .missed ∧ m' dev .w_count = m dev .w_count + 1 := by
  refine ⟨(k :: left).length + 1, f_flags, _, (run_inc _ 1).trans (exec_go pc 0 rfl), hb, ?_⟩
  rw [Function.update_self, foldl_inc_w hends]

/-- A process in the window gets the device, whatever the others have done. -/
theorem finish (t : T) (m : D → Counters) (pc : T → Pc D) (hp : p.Sound) (hphase : p.phase dev = .window) : ∃ n g m',
    Run.exec (Threads.step stmt) (alone t n) ⟨m, Function.update pc t p⟩ =
        some ⟨m', Function.update pc t (.opened dev g)⟩ ∧
      branch g.1 ≠ .missed ∧ m' dev .w_count = m dev .w_count + 1 := by
  have hdev : ∀ {d : D} {q : Phase}, q ≠ .window → (if d = dev then q else .out) ≠ .window := by
    intro d q hq
    by_cases hd : d = dev
    · rwa [if_pos hd]
    · rw [if_neg hd]
      decide
  have hwindow : ∀ {d : D}, (if d = dev then Phase.window else .out) = .window → d = dev := by
    intro d h
    by_contra hd
    rw [if_neg hd] at h
    cases h
  cases p with
  | idle => cases hphase
  | «opened» d f_flags => exact absurd hphase (hdev (by decide))
  | dec d f_flags hit left =>
    cases left with
    | nil => cases hphase
    | cons k left => exact absurd hphase (hdev (by decide))
  | test d f_flags left =>
    cases left with
    | cons k left => cases hphase
    | nil =>
      obtain rfl := hwindow hphase
      obtain ⟨k, left, hcounters, hends⟩ := ends_counters f_flags hp.1
      have hin : stmt t (.test d f_flags []) .go m = some (m, .inc d f_flags (k :: left)) := by
        simp only [stmt, hcounters]
      obtain ⟨n, g, m', hexec, hrest⟩ := finish_inc t m pc hp.1 hends
      exact ⟨n + 1, g, m', (exec_go pc n hin).trans hexec, hrest⟩
  | inc d f_flags left =>
    cases left with
    | nil => exact absurd hphase (hdev (by decide))
    | cons k left =>
      obtain rfl := hwindow hphase
      exact finish_inc t m pc hp.1 hp.2

theorem write_of_branch {f : Flags} (h : branch f.1 ≠ .missed) : f.write = true := by
  rw [branch_eq] at h
  rcases mode_cases f with hm | hm | hm
  · rw [hm] at h
    exact absurd rfl h
  · simp [write_of_mode hm]
  · simp [write_of_mode hm]

/-- **The race.** A process that reads `w_count` as 0 while another one is in the window: both can get the
device. -/
theorem race_breaks (hsound : ∀ t, (s.pc t).Sound) {t u : T} (hut : u ≠ t)
    (ht : (s.pc t).lastTest s.mem = some dev) (hu : (s.pc u).phase dev = .window) :
    ∃ as s', Run.exec (Threads.step stmt) as s = some s' ∧
      (s'.pc t).writer dev = true ∧ (s'.pc u).writer dev = true ∧ s'.mem dev .w_count = 2 := by
  have hzero := (lastTest_eq_some ht).2
  have htest : ∃ f_flags, s.pc t = .test dev f_flags [.w_count] := by
    unfold Pc.lastTest at ht
    split at ht
    · rename_i d f_flags hp
      simp only [Option.ite_none_right_eq_some, Option.some.injEq] at ht
      exact ⟨f_flags, ht.2 ▸ hp⟩
    · cases ht
  obtain ⟨f_flags, hp⟩ := htest
  have hstmt : stmt t (s.pc t) .go s.mem = some (s.mem, .test dev f_flags []) := by
    rw [hp]
    exact if_pos hzero
  have hsound' : (Pc.test dev f_flags []).Sound := by
    have h := hsound t
    rw [hp] at h
    exact ⟨h.1, .nil⟩
  -- first `t` to the end of its call, then `u`
  obtain ⟨n, g, m₁, hexec₁, hg, hw₁⟩ := finish t s.mem s.pc hsound'
    (if_pos rfl : (if dev = dev then Phase.window else .out) = .window)
  obtain ⟨n', g', m₂, hexec₂, hg', hw₂⟩ :=
    finish u m₁ (Function.update s.pc t (.opened dev g)) (hsound u) hu
  have hu₁ : Function.update (Function.update s.pc t (.opened dev g)) u (s.pc u) =
      Function.update s.pc t (.opened dev g) := by
    have hsame : s.pc u = Function.update s.pc t (.opened dev g) u := (Function.update_of_ne hut _ _).symm
    rw [hsame, Function.update_eq_self]
  rw [hu₁] at hexec₂
  have hfirst : Run.exec (Threads.step stmt) (alone t (n + 1)) s =
      some ⟨m₁, Function.update s.pc t (.opened dev g)⟩ := by
    have h := exec_go s.pc n hstmt
    rw [Function.update_eq_self] at h
    exact h.trans hexec₁
  refine ⟨alone t (n + 1) ++ alone u n',
    ⟨m₂, Function.update (Function.update s.pc t (.opened dev g)) u (.opened dev g')⟩, ?_, ?_, ?_, ?_⟩
  · rw [Run.exec_append, hfirst]
    exact hexec₂
  · simp [Function.update_of_ne hut.symm, Pc.writer, write_of_branch hg]
  · simp [Pc.writer, write_of_branch hg']
  · show m₂ dev .w_count = 2
    omega

end

end Uart
