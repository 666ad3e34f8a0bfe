import LinuxLearning.ProdCons.Queue
/-!
# `prodcons_threads2.c`: what the status display shows

`getitem` and `putitem` keep two counters beside the semaphores and the indices (`:99-100`, `:129-130`), and
`display_status_thread` prints them under `data_buffer_lock` (`:247-255`). Both are statics that start at 0 (`:33-34`),
although all five slots are free at the start.

`Counted` is what every statement keeps: `filledslots` is the number of strings in the ring but for the copies that
are not counted yet, and the two counters add up to 0. Whoever holds the lock to read them finds no copy uncounted, so
`filledslots` is the true occupancy and `freeslots` its negative (`display_law`).
-/

namespace ProdCons

open Threads

section

variable {T α : Type*}

/-- The number of strings written to the ring and not yet fetched. -/
def Buffer.occupancy (b : Buffer α) : Int := b.stored.length - b.fetched.length

/-- A string has been copied in and the counters do not say so yet. -/
def Pc.uncountedIn : Pc → Nat
  | .advance .putitem | .tally .putitem => 1
  | _ => 0

/-- A string has been copied out and the counters do not say so yet. -/
def Pc.uncountedOut : Pc → Nat
  | .advance .getitem | .tally .getitem => 1
  | _ => 0

/-- How far `filledslots` is off for a thread at `p`. -/
def Buffer.drift (b : Buffer α) (p : Pc) : Int :=
  b.filledslots + p.uncountedIn - p.uncountedOut - b.occupancy

theorem uncounted_holds {p : Pc} (h : p.holds = false) : p.uncountedIn = 0 ∧ p.uncountedOut = 0 := by
  cases p with
  | advance c | tally c => cases h
  | _ => exact ⟨rfl, rfl⟩

/-- What a statement does to the counters: their sum stays, and `filledslots` makes up for the last copy. -/
structure Balanced (b b' : Buffer α) (p p' : Pc) : Prop where
  sum : b'.freeslots + b'.filledslots = b.freeslots + b.filledslots
  drift : b'.drift p' = b.drift p

/-- A statement that leaves the buffer alone, between points at which every copy is counted. -/
theorem Balanced.idle {b b' : Buffer α} {p p' : Pc} (hb : b' = b) (hin : p.uncountedIn = 0 ∧ p.uncountedOut = 0)
    (hout : p'.uncountedIn = 0 ∧ p'.uncountedOut = 0) : Balanced b b' p p' := by
  subst hb
  exact ⟨rfl, by simp [Buffer.drift, hin.1, hin.2, hout.1, hout.2]⟩

/-- **What a statement does to the counters.** The copies leave them behind by one, and the tally catches up. -/
theorem stmt_balanced {t : T} {p p' : Pc} {a : Act α} {m m' : Mem T α} (h : stmt t p a m = some (m', p')) :
    Balanced m.ring m'.ring p p' := by
  cases stmt_cases h with
  | copyOut | copyIn x =>
    refine ⟨rfl, ?_⟩
    simp [Buffer.drift, Buffer.occupancy, Buffer.copyIn, Buffer.copyOut, Pc.uncountedIn, Pc.uncountedOut]
    omega
  | advance c => cases c <;> exact ⟨rfl, rfl⟩
  | tally c =>
    cases c
    all_goals
      refine ⟨?_, ?_⟩
      all_goals
        simp only [Buffer.drift, Buffer.occupancy, Buffer.tally, Pc.uncountedIn, Pc.uncountedOut]
        omega
  | dread => exact ⟨rfl, rfl⟩
  | init c i a m' r hinit => exact .idle (initStmt_ring hinit) ⟨rfl, rfl⟩ (by cases r <;> exact ⟨rfl, rfl⟩)
  | _ => exact .idle rfl ⟨rfl, rfl⟩ ⟨rfl, rfl⟩

variable [Fintype T]

/-- The counters in every state: `filledslots` is right up to the copies that some thread has still to count. -/
structure Counted (s : Config T (Mem T α) Pc) : Prop where
  sum : s.mem.ring.freeslots + s.mem.ring.filledslots = 0
  filled : s.mem.ring.filledslots + total Pc.uncountedIn s.pc = s.mem.ring.occupancy + total Pc.uncountedOut s.pc

variable [DecidableEq T] {s s' : Config T (Mem T α) Pc}

/-- **Step lemma.** -/
theorem Counted.step (h : Counted s) {a : T × Act α} (hs : Threads.step stmt a s = some s') : Counted s' := by
  obtain ⟨t, a⟩ := a
  obtain ⟨m', p', hstmt, rfl⟩ := step_eq_some.1 hs
  obtain ⟨hsum, hdrift⟩ := stmt_balanced hstmt
  refine ⟨hsum.trans h.sum, ?_⟩
  have hin := total_step Pc.uncountedIn s.pc t p'
  have hout := total_step Pc.uncountedOut s.pc t p'
  have hfilled := h.filled
  simp only [Buffer.drift] at hdrift ⊢
  omega

omit [DecidableEq T] in
theorem start_counted [Inhabited α] : Counted (start (.static : Mem T α)) := by
  have hin : total Pc.uncountedIn (start (.static : Mem T α)).pc = 0 := total_eq_zero fun _ => rfl
  have hout : total Pc.uncountedOut (start (.static : Mem T α)).pc = 0 := total_eq_zero fun _ => rfl
  refine ⟨rfl, ?_⟩
  rw [hin, hout]
  rfl

omit [DecidableEq T] in
/-- While a thread is at the `printf`, every copy is counted. -/
theorem Inv.all_counted (hI : Inv s) {t : T} (ht : s.pc t = .dread) :
    total Pc.uncountedIn s.pc = 0 ∧ total Pc.uncountedOut s.pc = 0 := by
  have hlock := ((hI.threads t).holds (by rw [ht]; rfl)).1
  have huncounted : ∀ u, (s.pc u).uncountedIn = 0 ∧ (s.pc u).uncountedOut = 0 := by
    intro u
    by_cases hu : (s.pc u).holds = true
    · have hown := ((hI.threads u).holds hu).1
      rw [hlock] at hown
      obtain rfl := Option.some.inj hown
      rw [ht]
      exact ⟨rfl, rfl⟩
    · exact uncounted_holds (by simpa using hu)
  exact ⟨total_eq_zero fun u => (huncounted u).1, total_eq_zero fun u => (huncounted u).2⟩

/-- The action reads and prints the counters. -/
def Reads (a : T × Act α) (s : Config T (Mem T α) Pc) : Prop := s.pc a.1 = .dread ∧ a.2 = .go

/-- What is asked of a pair that the display reads. -/
structure TrueStatus (b : Buffer α) : Prop where
  filled : b.filledslots = b.occupancy
  nonneg : 0 ≤ b.filledslots
  le : b.filledslots ≤ 5
  free : b.freeslots = 5 - b.filledslots

/-- What a pair that the display reads is. -/
structure ShownStatus (b : Buffer α) : Prop where
  filled : b.filledslots = b.occupancy
  nonneg : 0 ≤ b.filledslots
  le : b.filledslots ≤ 5
  free : b.freeslots = -b.filledslots

omit [DecidableEq T] in
theorem shown_status (hI : Inv s) (hC : Counted s) {t : T} (ht : s.pc t = .dread) : ShownStatus s.mem.ring := by
  obtain ⟨hin, hout⟩ := hI.all_counted ht
  have hfilled := hC.filled
  have hslots := hI.slotTokens
  have hsum := hC.sum
  obtain ⟨q, hq⟩ := hI.queue
  have hqueue := hq.length_fetched
  have hoccupancy : s.mem.ring.filledslots = s.mem.ring.occupancy := by omega
  refine ⟨hoccupancy, ?_, ?_, by omega⟩
  · rw [hoccupancy, Buffer.occupancy]
    omega
  · rw [hoccupancy, Buffer.occupancy]
    omega

omit [Fintype T] [DecidableEq T] in
theorem ShownStatus.not_true {b : Buffer α} (h : ShownStatus b) : ¬ TrueStatus b := by
  intro htrue
  have hfree := h.free.symm.trans htrue.free
  omega

/-- **The status display.** Every pair it reads has the true number of filled slots and the negative of it as the
number of free slots; so the pairs read in a run are true only if none is read. -/
theorem display_law [Inhabited α] (as : List (T × Act α)) :
    Run.Along (step stmt) (fun a s => Reads a s → ShownStatus s.mem.ring) as (start .static) ∧
      (Run.Along (step stmt) (fun a s => Reads a s → TrueStatus s.mem.ring) as (start .static) ↔
        Run.Along (step stmt) (fun a s => ¬ Reads a s) as (start .static)) := by
  have hstart : Inv (start (.static : Mem T α)) ∧ Counted (start (.static : Mem T α)) :=
    ⟨start_inv (.inl rfl), start_counted⟩
  have hstep : ∀ (a : T × Act α) (s s' : Config T (Mem T α) Pc), Inv s ∧ Counted s →
      Threads.step stmt a s = some s' → Inv s' ∧ Counted s' :=
    fun a s s' hI hs => ⟨hI.1.step hs, hI.2.step hs⟩
  refine ⟨?_, ?_⟩
  · refine Run.along_of_invariant (C := fun _ _ => True) (fun a s s' _ => hstep a s s') ?_
      (Run.along_of_forall (by simp) as _) hstart
    exact fun a s _ hI hreads => shown_status hI.1 hI.2 hreads.1
  · refine Run.along_iff (fun a s s' _ => hstep a s s') ?_ hstart
    intro a s hI
    constructor
    · exact fun htrue hreads => (shown_status hI.1 hI.2 hreads.1).not_true (htrue hreads)
    · exact fun hnot hreads => absurd hreads hnot

end

/-- Thread `true` sets up the semaphores and stores a 7, then thread `false` displays. -/
def displayRun : List (Bool × Act Nat) :=
  [Act.call .putitem, .go, .go, .go, .go, .go, .go, .go, .go, .go, .go, .copyIn 7, .go, .go, .go, .go, .go].map
      (true, ·) ++
    [Act.display, .go].map (false, ·)

/-- One slot is filled, four are free, and the display says -1. -/
theorem display_wrong : ∃ s : Config Bool (Mem Bool Nat) Pc,
    Run.exec (step stmt) displayRun (start .static) = some s ∧ Reads (false, .go) s ∧
    s.mem.initonce = .done ∧ s.mem.ring.occupancy = 1 ∧ s.mem.ring.filledslots = 1 ∧ s.mem.ring.freeslots = -1 ∧
    ¬ TrueStatus s.mem.ring := by
  refine ⟨_, rfl, ⟨rfl, rfl⟩, rfl, rfl, rfl, rfl, ?_⟩
  intro h
  exact absurd h.free (by decide)

end ProdCons
