import LinuxLearning.ProdCons.Buffer
/-!
# The five slots of `prodcons_threads.c` are a first-in first-out queue

For any number of threads in `getitem`, `putitem` and the display loop, from the zeroed statics on,
whatever library calls fail: `Inv` is what every statement keeps.

* The strings copied in and out are a `Fifo`, whose queue lies in the slots from the next one to
  read on (`Represents`).
* A unit of `semslots` is the right to fill a slot. It is in the semaphore, or with a thread in
  `putitem` that has not copied yet, or with a thread in `getitem` that has copied and not posted
  yet (`slotToken`); with the stored strings that is at most 5. Likewise a unit of `semitems`, a
  thread in `getitem` before its copy and a thread in `putitem` after it (`itemToken`) each stand for
  a stored string of their own.
* While `data_buffer_lock` is free, the indices agree with the numbers of copies; its holder may be
  between the copy and the index (`lagIn`, `lagOut`).
* Nobody is past the set-up test before the set-up is over (`Pc.late`), so `sem_init(&semslots, 0, 5)`
  finds no token in circulation.

`ring_refines` states the result against the abstract queue of capacity 5, `ring_fifo` about the
statics themselves.
-/

namespace ProdCons

open Threads

/-! ## What a control point says -/

/-- The thread holds `data_buffer_lock`. -/
def Pc.holds : Pc → Bool
  | .copy _ | .advance _ | .tally _ | .unlock _ | .dread | .dunlock => true
  | _ => false

/-- The thread is past `if (!initdone) bufferinitonce()`. -/
def Pc.late : Pc → Bool
  | .wait _ | .lock _ | .copy _ | .advance _ | .tally _ | .unlock _ | .post _ | .ret _ _ => true
  | _ => false

def Pc.slotToken : Pc → Nat
  | .lock .putitem | .copy .putitem => 1
  | .advance .getitem | .tally .getitem | .unlock .getitem | .post .getitem => 1
  | _ => 0

def Pc.itemToken : Pc → Nat
  | .lock .getitem | .copy .getitem => 1
  | .advance .putitem | .tally .putitem | .unlock .putitem | .post .putitem => 1
  | _ => 0

/-- A string has been copied in and `bufin` not moved yet. -/
def Pc.lagIn : Pc → Nat
  | .advance .putitem => 1
  | _ => 0

/-- A string has been copied out and `bufout` not moved yet. -/
def Pc.lagOut : Pc → Nat
  | .advance .getitem => 1
  | _ => 0

/-! ## The invariant -/

section
variable {T α : Type*}

/-- The buffer and its history hold the abstract queue `q`. -/
structure Represents (b : Buffer α) (q : Fifo α) : Prop where
  stored : b.stored = q.inserted
  fetched : b.fetched = q.removed
  holds : Fifo.Holds 5 b.buffer b.fetched.length q.queue
  putSlots : b.putSlots = Fifo.slots 5 b.stored.length
  getSlots : b.getSlots = Fifo.slots 5 b.fetched.length

/-- `bufin` and `bufout` against the numbers of copies, `i` and `o` copies ahead of them. -/
structure Indices (i o : Nat) (b : Buffer α) : Prop where
  bufin : (b.bufin + i) % 5 = b.stored.length % 5
  bufin_lt : b.bufin < 5
  bufout : (b.bufout + o) % 5 = b.fetched.length % 5
  bufout_lt : b.bufout < 5

/-- What holds of a thread at its control point. -/
structure Local (t : T) (m : Mem T α) (p : Pc) : Prop where
  holds : p.holds = true → m.dataBufferLock = some t ∧ Indices p.lagIn p.lagOut m.ring
  init : ∀ c i, p = .init c i → m.initonce = .running t ∧ (i ≠ .finish → m.initdone = false)
  late : p.late = true → m.initdone = true ∨ m.initonce = .done

structure Inv [Fintype T] (s : Config T (Mem T α) Pc) : Prop where
  queue : ∃ q, Represents s.mem.ring q
  slotTokens : s.mem.semslots.value + total Pc.slotToken s.pc + s.mem.ring.stored.length ≤
    5 + s.mem.ring.fetched.length
  itemTokens : s.mem.semitems.value + total Pc.itemToken s.pc + s.mem.ring.fetched.length ≤
    s.mem.ring.stored.length
  free : s.mem.dataBufferLock = none → Indices 0 0 s.mem.ring
  fresh : s.mem.initdone = false → s.mem.initonce ≠ .done →
    s.mem.ring.stored = [] ∧ s.mem.ring.fetched = []
  notRun : s.mem.initonce = .notRun → s.mem.initdone = false
  threads : ∀ t, Local t s.mem (s.pc t)

theorem slotToken_early {p : Pc} (h : p.late = false) : p.slotToken = 0 := by
  cases p with
  | lock c | copy c | advance c | tally c | unlock c | post c => simp [Pc.late] at h
  | _ => rfl

theorem Represents.length_fetched {b : Buffer α} {q : Fifo α} (h : Represents b q) :
    b.stored.length = b.fetched.length + q.queue.length := by
  rw [h.stored, h.fetched, q.length_inserted]

/-- The strings and their history are the same. -/
structure SameStrings (b b' : Buffer α) : Prop where
  buffer : b'.buffer = b.buffer
  stored : b'.stored = b.stored
  fetched : b'.fetched = b.fetched
  putSlots : b'.putSlots = b.putSlots
  getSlots : b'.getSlots = b.getSlots

theorem SameStrings.of_eq {b b' : Buffer α} (h : b' = b) : SameStrings b b' := by
  subst h; exact ⟨rfl, rfl, rfl, rfl, rfl⟩

theorem Represents.same {b b' : Buffer α} {q : Fifo α} (hq : Represents b q) (h : SameStrings b b') :
    Represents b' q :=
  ⟨h.stored ▸ hq.stored, h.fetched ▸ hq.fetched, by rw [h.buffer, h.fetched]; exact hq.holds,
    by rw [h.putSlots, h.stored]; exact hq.putSlots, by rw [h.getSlots, h.fetched]; exact hq.getSlots⟩

end

/-! ## Statements that leave the buffer alone -/

section
variable {T α : Type*} [Fintype T] [DecidableEq T] {s : Config T (Mem T α) Pc}

/-- A statement of `t` that neither reads nor writes the buffer: control, tokens that move between a
semaphore and the thread, the lock, the set-up flags. -/
theorem Inv.move (hI : Inv s) {t : T} {m' : Mem T α} {p' : Pc}
    (ring : m'.ring = s.mem.ring)
    (slotTokens : m'.semslots.value + p'.slotToken ≤ s.mem.semslots.value + (s.pc t).slotToken)
    (itemTokens : m'.semitems.value + p'.itemToken ≤ s.mem.semitems.value + (s.pc t).itemToken)
    (free : m'.dataBufferLock = none → Indices 0 0 s.mem.ring)
    (fresh : m'.initdone = false → m'.initonce ≠ .done → s.mem.initdone = false ∧ s.mem.initonce ≠ .done)
    (notRun : m'.initonce = .notRun → m'.initdone = false)
    (own : Local t m' p')
    (lock : ∀ u, u ≠ t → s.mem.dataBufferLock = some u → m'.dataBufferLock = some u)
    (init : ∀ u, u ≠ t → s.mem.initonce = .running u → m'.initonce = .running u ∧ m'.initdone = s.mem.initdone)
    (late : s.mem.initdone = true ∨ s.mem.initonce = .done → m'.initdone = true ∨ m'.initonce = .done) :
    Inv ⟨m', Function.update s.pc t p'⟩ where
  queue := by rw [ring]; exact hI.queue
  slotTokens := by
    have h := hI.slotTokens
    have ht := total_step Pc.slotToken s.pc t p'
    simp only [ring]; omega
  itemTokens := by
    have h := hI.itemTokens
    have ht := total_step Pc.itemToken s.pc t p'
    simp only [ring]; omega
  free := by rw [ring]; exact free
  fresh := by
    intro h1 h2
    obtain ⟨h1', h2'⟩ := fresh h1 h2
    rw [ring]; exact hI.fresh h1' h2'
  notRun := notRun
  threads := by
    refine forall_step hI.threads own fun u hu hl => ⟨fun h => ?_, fun c i h => ?_, fun h => late (hl.late h)⟩
    · obtain ⟨hlock, hidx⟩ := hl.holds h
      rw [ring]; exact ⟨lock u hu hlock, hidx⟩
    · obtain ⟨honce, hdone⟩ := hl.init c i h
      obtain ⟨honce', hdone'⟩ := init u hu honce
      rw [hdone']; exact ⟨honce', hdone⟩

/-- The same when the lock and the set-up flags stay as they are. -/
theorem Inv.jump (hI : Inv s) {t : T} {m' : Mem T α} {p' : Pc}
    (ring : m'.ring = s.mem.ring) (lock : m'.dataBufferLock = s.mem.dataBufferLock)
    (done : m'.initdone = s.mem.initdone) (once : m'.initonce = s.mem.initonce)
    (slotTokens : m'.semslots.value + p'.slotToken ≤ s.mem.semslots.value + (s.pc t).slotToken)
    (itemTokens : m'.semitems.value + p'.itemToken ≤ s.mem.semitems.value + (s.pc t).itemToken)
    (own : Local t s.mem p') : Inv ⟨m', Function.update s.pc t p'⟩ := by
  refine hI.move ring slotTokens itemTokens ?_ ?_ ?_ ?_ ?_ ?_ ?_
  · rw [lock]; exact hI.free
  · rw [done, once]; exact fun h1 h2 => ⟨h1, h2⟩
  · rw [done, once]; exact hI.notRun
  · exact ⟨by rw [lock, ring]; exact own.holds, by rw [once, done]; exact own.init,
      by rw [once, done]; exact own.late⟩
  · intro u _; rw [lock]; exact id
  · intro u _ h; rw [once, done]; exact ⟨h, rfl⟩
  · rw [once, done]; exact id

omit [Fintype T] [DecidableEq T] in
/-- Points without an assertion of their own. -/
theorem Local.free {t : T} {m : Mem T α} {p : Pc} (holds : p.holds = false)
    (init : ∀ c i, p ≠ .init c i) (late : p.late = false ∨ m.initdone = true ∨ m.initonce = .done) :
    Local t m p where
  holds h := by rw [holds] at h; cases h
  init c i h := absurd h (init c i)
  late h := late.resolve_left (by simp [h])

/-- `pthread_mutex_lock(&data_buffer_lock)` returns. -/
theorem Inv.acquire (hI : Inv s) {t : T} {p' : Pc} (hfree : s.mem.dataBufferLock = none)
    (init : ∀ c i, p' ≠ .init c i) (slotToken : p'.slotToken = (s.pc t).slotToken)
    (itemToken : p'.itemToken = (s.pc t).itemToken) (lagIn : p'.lagIn = 0) (lagOut : p'.lagOut = 0)
    (late : p'.late = true → s.mem.initdone = true ∨ s.mem.initonce = .done) :
    Inv ⟨{ s.mem with dataBufferLock := some t }, Function.update s.pc t p'⟩ := by
  refine hI.move rfl (by rw [slotToken]) (by rw [itemToken]) ?_ ?_ hI.notRun ?_ ?_ ?_ ?_
  · intro h; cases h
  · exact fun h1 h2 => ⟨h1, h2⟩
  · refine ⟨fun _ => ⟨rfl, ?_⟩, fun c i h => absurd h (init c i), late⟩
    rw [lagIn, lagOut]; exact hI.free hfree
  · intro u _ h; rw [hfree] at h; cases h
  · exact fun u _ h => ⟨h, rfl⟩
  · exact id

/-- `pthread_mutex_unlock(&data_buffer_lock)` by the holder. -/
theorem Inv.release (hI : Inv s) {t : T} {p' : Pc} (hlock : s.mem.dataBufferLock = some t)
    (idx : Indices 0 0 s.mem.ring) (slotToken : p'.slotToken = (s.pc t).slotToken)
    (itemToken : p'.itemToken = (s.pc t).itemToken) (own : Local t { s.mem with dataBufferLock := none } p') :
    Inv ⟨{ s.mem with dataBufferLock := none }, Function.update s.pc t p'⟩ := by
  refine hI.move rfl (by rw [slotToken]) (by rw [itemToken]) (fun _ => idx) ?_ hI.notRun own ?_ ?_ id
  · exact fun h1 h2 => ⟨h1, h2⟩
  · intro u hu h
    rw [hlock] at h
    exact absurd (Option.some.inj h).symm hu
  · exact fun u _ h => ⟨h, rfl⟩

/-! ## Statements on the buffer, by the holder of the lock -/

omit [Fintype T] [DecidableEq T] in
theorem Represents.copyIn {b : Buffer α} {q : Fifo α} (h : Represents b q)
    (hin : b.bufin = b.stored.length % 5) (hlt : q.queue.length < 5) (x : α) :
    Represents (b.copyIn x) (q.put x) where
  stored := by simp [Buffer.copyIn, h.stored]
  fetched := h.fetched
  holds := by
    have := h.holds.write hlt x
    rwa [← h.length_fetched, ← hin] at this
  putSlots := by simp [Buffer.copyIn, h.putSlots, Fifo.slots_succ, hin]
  getSlots := h.getSlots

omit [Fintype T] [DecidableEq T] in
theorem Represents.copyOut {b : Buffer α} {q : Fifo α} (h : Represents b q)
    (hout : b.bufout = b.fetched.length % 5) {x : α} {xs : List α} (hq : q.queue = x :: xs) :
    Represents b.copyOut (q.get x xs hq) := by
  have hh := h.holds
  rw [hq] at hh
  have hx : b.buffer b.bufout = x := by rw [hout]; exact hh.head
  refine ⟨h.stored, ?_, ?_, h.putSlots, ?_⟩
  · simp [Buffer.copyOut, h.fetched, hx]
  · simpa [Buffer.copyOut] using hh.tail
  · simp [Buffer.copyOut, h.getSlots, Fifo.slots_succ, hout]

/-- A statement of the lock's holder on the buffer. -/
theorem Inv.write (hI : Inv s) {t : T} {b' : Buffer α} {p' : Pc}
    (lock : s.mem.dataBufferLock = some t)
    (queue : ∃ q, Represents b' q)
    (slotTokens : p'.slotToken + b'.stored.length + s.mem.ring.fetched.length ≤
      (s.pc t).slotToken + s.mem.ring.stored.length + b'.fetched.length)
    (itemTokens : p'.itemToken + b'.fetched.length + s.mem.ring.stored.length ≤
      (s.pc t).itemToken + s.mem.ring.fetched.length + b'.stored.length)
    (fresh : s.mem.initdone = false → s.mem.initonce ≠ .done → b'.stored = [] ∧ b'.fetched = [])
    (own : Local t { s.mem with ring := b' } p') :
    Inv ⟨{ s.mem with ring := b' }, Function.update s.pc t p'⟩ where
  queue := queue
  slotTokens := by
    have h := hI.slotTokens
    have ht := total_step Pc.slotToken s.pc t p'
    simp only; omega
  itemTokens := by
    have h := hI.itemTokens
    have ht := total_step Pc.itemToken s.pc t p'
    simp only; omega
  free := by intro h; simp only [lock] at h; cases h
  fresh := fresh
  notRun := hI.notRun
  threads := by
    refine forall_step hI.threads own fun u hu hl => ⟨fun h => ?_, hl.init, hl.late⟩
    -- another thread cannot hold the lock
    have := (hl.holds h).1
    rw [lock] at this
    exact absurd (Option.some.inj this).symm hu

/-! ## Every statement keeps the invariant -/

omit [DecidableEq T] in
/-- At its copy a thread in `putitem` finds `bufin` at the slot after the last one stored, and a
slot to fill: its own token leaves room for one more string. -/
theorem Inv.room (hI : Inv s) {t : T} (hp : s.pc t = .copy .putitem) :
    s.mem.ring.bufin = s.mem.ring.stored.length % 5 ∧
      s.mem.ring.stored.length < s.mem.ring.fetched.length + 5 := by
  have hl := hI.threads t
  rw [hp] at hl
  have hidx := (hl.holds rfl).2
  have h1 := hidx.bufin
  have h2 := hidx.bufin_lt
  have h3 := hI.slotTokens
  have h4 := le_total Pc.slotToken s.pc t
  rw [hp] at h4
  simp only [Pc.lagIn, Pc.slotToken] at h1 h4
  omega

omit [DecidableEq T] in
/-- At its copy a thread in `getitem` finds `bufout` at the slot after the last one fetched, and a
string in it: its own token stands for one. -/
theorem Inv.item (hI : Inv s) {t : T} (hp : s.pc t = .copy .getitem) :
    s.mem.ring.bufout = s.mem.ring.fetched.length % 5 ∧
      s.mem.ring.fetched.length < s.mem.ring.stored.length := by
  have hl := hI.threads t
  rw [hp] at hl
  have hidx := (hl.holds rfl).2
  have h1 := hidx.bufout
  have h2 := hidx.bufout_lt
  have h3 := hI.itemTokens
  have h4 := le_total Pc.itemToken s.pc t
  rw [hp] at h4
  simp only [Pc.lagOut, Pc.itemToken] at h1 h4
  omega

omit [DecidableEq T] in
theorem Inv.copyIn_queue (hI : Inv s) {t : T} (hp : s.pc t = .copy .putitem) {q : Fifo α}
    (hq : Represents s.mem.ring q) (x : α) :
    q.queue.length < 5 ∧ Represents (s.mem.ring.copyIn x) (q.put x) := by
  obtain ⟨hin, hroom⟩ := hI.room hp
  have hlen : q.queue.length < 5 := by have := hq.length_fetched; omega
  exact ⟨hlen, hq.copyIn hin hlen x⟩

omit [DecidableEq T] in
theorem Inv.copyOut_queue (hI : Inv s) {t : T} (hp : s.pc t = .copy .getitem) {q : Fifo α}
    (hq : Represents s.mem.ring q) :
    ∃ x xs, ∃ h : q.queue = x :: xs, Represents s.mem.ring.copyOut (q.get x xs h) := by
  obtain ⟨hout, hitem⟩ := hI.item hp
  have hne : q.queue ≠ [] := by
    intro hnil
    have := hq.length_fetched
    rw [hnil, List.length_nil] at this
    omega
  obtain ⟨x, xs, hx⟩ := List.exists_cons_of_ne_nil hne
  exact ⟨x, xs, hx, hq.copyOut hout hx⟩

theorem Inv.copyIn (hI : Inv s) {t : T} (hp : s.pc t = .copy .putitem) (x : α) :
    Inv ⟨{ s.mem with ring := s.mem.ring.copyIn x }, Function.update s.pc t (.advance .putitem)⟩ := by
  have hl := hI.threads t
  rw [hp] at hl
  obtain ⟨hlock, hidx⟩ := hl.holds rfl
  obtain ⟨q, hq⟩ := hI.queue
  refine hI.write hlock ⟨_, (hI.copyIn_queue hp hq x).2⟩ ?_ ?_ ?_
    ⟨fun _ => ⟨hlock, ?_⟩, by simp, fun _ => hl.late rfl⟩
  · rw [hp]; simp only [Buffer.copyIn, Pc.slotToken, List.length_append, List.length_singleton]; omega
  · rw [hp]; simp only [Buffer.copyIn, Pc.itemToken, List.length_append, List.length_singleton]; omega
  · intro h1 h2
    rcases hl.late rfl with h | h
    · rw [h1] at h; cases h
    · exact absurd h h2
  · exact ⟨by simp [Buffer.copyIn, Pc.lagIn, (hI.room hp).1, Nat.add_mod], hidx.bufin_lt, hidx.bufout,
      hidx.bufout_lt⟩

theorem Inv.copyOut (hI : Inv s) {t : T} (hp : s.pc t = .copy .getitem) :
    Inv ⟨{ s.mem with ring := s.mem.ring.copyOut }, Function.update s.pc t (.advance .getitem)⟩ := by
  have hl := hI.threads t
  rw [hp] at hl
  obtain ⟨hlock, hidx⟩ := hl.holds rfl
  obtain ⟨q, hq⟩ := hI.queue
  obtain ⟨x, xs, hx, hq'⟩ := hI.copyOut_queue hp hq
  refine hI.write hlock ⟨_, hq'⟩ ?_ ?_ ?_ ⟨fun _ => ⟨hlock, ?_⟩, by simp, fun _ => hl.late rfl⟩
  · rw [hp]; simp only [Buffer.copyOut, Pc.slotToken, List.length_append, List.length_singleton]; omega
  · rw [hp]; simp only [Buffer.copyOut, Pc.itemToken, List.length_append, List.length_singleton]; omega
  · intro h1 h2
    rcases hl.late rfl with h | h
    · rw [h1] at h; cases h
    · exact absurd h h2
  · exact ⟨hidx.bufin, hidx.bufin_lt, by simp [Buffer.copyOut, Pc.lagOut, (hI.item hp).1, Nat.add_mod],
      hidx.bufout_lt⟩

/-- The index and counter updates, and the display: no string moves. -/
theorem Inv.adjust (hI : Inv s) {t : T} {b' : Buffer α} {p' : Pc} (hp : (s.pc t).holds = true)
    (same : SameStrings s.mem.ring b') (slotToken : p'.slotToken = (s.pc t).slotToken)
    (itemToken : p'.itemToken = (s.pc t).itemToken)
    (idx : Indices (s.pc t).lagIn (s.pc t).lagOut s.mem.ring → Indices p'.lagIn p'.lagOut b')
    (init : ∀ c i, p' ≠ .init c i) (late : p'.late = (s.pc t).late) :
    Inv ⟨{ s.mem with ring := b' }, Function.update s.pc t p'⟩ := by
  have hl := hI.threads t
  obtain ⟨hlock, hidx⟩ := hl.holds hp
  obtain ⟨q, hq⟩ := hI.queue
  refine hI.write hlock ⟨q, hq.same same⟩ ?_ ?_ ?_
    ⟨fun _ => ⟨hlock, idx hidx⟩, fun c i h => absurd h (init c i), ?_⟩
  · rw [same.stored, same.fetched, slotToken]
  · rw [same.stored, same.fetched, itemToken]
  · rw [same.stored, same.fetched]; exact hI.fresh
  · rw [late]; exact hl.late

/-- `sem_init(&semslots, 0, 5)`: no token is in circulation yet. -/
theorem Inv.initSlots (hI : Inv s) {t : T} {c : Call} (hp : s.pc t = .init c .slots) :
    Inv ⟨{ s.mem with semslots := s.mem.semslots.init 5 }, Function.update s.pc t (.init c .input)⟩ := by
  have hl := hI.threads t
  obtain ⟨honce, hdone⟩ := hl.init c _ hp
  have hdone := hdone (by simp)
  have hearly : ∀ u, (s.pc u).late = false := by
    intro u
    by_contra h
    rcases (hI.threads u).late (by simpa using h) with h | h
    · rw [hdone] at h; cases h
    · rw [honce] at h; cases h
  have hzero := total_eq_zero fun u => slotToken_early (hearly u)
  obtain ⟨hst, hft⟩ := hI.fresh hdone (by rw [honce]; simp)
  have ht := total_step Pc.slotToken s.pc t (.init c .input)
  rw [hp] at ht
  exact {
    queue := hI.queue
    slotTokens := by
      simp only [hst, hft, Sem.init_value, List.length_nil]
      simp only [Pc.slotToken] at ht
      omega
    itemTokens := by
      have h := hI.itemTokens
      have ht := total_step Pc.itemToken s.pc t (.init c .input)
      rw [hp] at ht
      simp only [Pc.itemToken] at ht ⊢
      omega
    free := hI.free
    fresh := hI.fresh
    notRun := hI.notRun
    threads := forall_step hI.threads
      ⟨by simp [Pc.holds], fun c i _ => ⟨honce, fun _ => hdone⟩, by simp [Pc.late]⟩
      fun u _ hu => ⟨hu.holds, hu.init, hu.late⟩ }

/-- The statements of `bufferinit` and `initialization`. -/
theorem Inv.init_step (hI : Inv s) {t : T} {c : Call} {i : InitPc} {a : Act α} {m' : Mem T α}
    {r : Option InitPc} (hp : s.pc t = .init c i) (h : initStmt i a s.mem = some (m', r)) :
    Inv ⟨m', Function.update s.pc t (r.elim (.wait c) (.init c))⟩ := by
  have hl := hI.threads t
  obtain ⟨honce, hdone⟩ := hl.init c i hp
  -- the next statement of the set-up, reached without touching the flags
  have next : ∀ j, j ≠ .finish → i ≠ .finish → Local t s.mem (.init c j) := fun j _ hi =>
    ⟨by simp [Pc.holds], fun _ _ _ => ⟨honce, fun _ => hdone hi⟩, by simp [Pc.late]⟩
  cases i with
  | items | dropItems | input | dropSlots e | result r =>
    cases a <;> simp [initStmt] at h
    all_goals
      first
        | obtain ⟨rfl, rfl⟩ := h
        | obtain ⟨-, rfl, rfl⟩ := h
      refine hI.jump rfl rfl rfl rfl ?_ ?_ (next _ (by simp) (by simp)) <;>
        simp [hp, Pc.slotToken, Pc.itemToken]
  | slots =>
    cases a <;> simp [initStmt] at h
    · obtain ⟨rfl, rfl⟩ := h; exact hI.initSlots hp
    · obtain ⟨-, rfl, rfl⟩ := h
      refine hI.jump rfl rfl rfl rfl ?_ ?_ (next _ (by simp) (by simp)) <;>
        simp [hp, Pc.slotToken, Pc.itemToken]
  | flag =>
    cases a <;> simp [initStmt] at h
    obtain ⟨rfl, rfl⟩ := h
    refine hI.move rfl (by simp [hp, Pc.slotToken]) (by simp [hp, Pc.itemToken]) hI.free ?_ ?_ ?_ ?_ ?_ ?_
    · intro h1 h2
      exact ⟨(Bool.or_eq_false_iff.1 h1).1, h2⟩
    · intro h; simp only [honce, reduceCtorEq] at h
    · exact ⟨by simp [Pc.holds], fun _ _ h => ⟨honce, fun hf => absurd (Pc.init.inj h).2.symm hf⟩, by simp [Pc.late]⟩
    · exact fun u _ h => h
    · intro u hu h
      rw [honce] at h
      exact absurd (Once.running.inj h).symm hu
    · rintro (h | h)
      · exact .inl (by simp [h])
      · exact .inr h
  | finish =>
    cases a <;> simp [initStmt] at h
    obtain ⟨rfl, rfl⟩ := h
    refine hI.move rfl (by simp [hp, Pc.slotToken]) (by simp [hp, Pc.itemToken]) hI.free ?_ ?_ ?_ ?_ ?_ ?_
    · exact fun _ h => absurd rfl h
    · intro h; cases h
    · exact .free rfl (by simp) (.inr (.inr rfl))
    · exact fun u _ h => h
    · intro u hu h
      rw [honce] at h
      exact absurd (Once.running.inj h).symm hu
    · exact fun _ => .inr rfl

/-- **Step lemma.** -/
theorem Inv.step (hI : Inv s) {a : T × Act α} {s' : Config T (Mem T α) Pc}
    (h : step stmt a s = some s') : Inv s' := by
  obtain ⟨t, a⟩ := a
  obtain ⟨m', p', hs, rfl⟩ := step_eq_some.1 h
  have hl := hI.threads t
  have hstmt := stmt_cases hs
  dsimp only at hstmt
  generalize hp : s.pc t = p at hstmt hl
  cases hstmt with
  | call | display | postInput | waitInput =>
    refine hI.jump rfl rfl rfl rfl ?_ ?_ (.free rfl (by simp) (.inl rfl)) <;>
      simp [hp, Pc.slotToken, Pc.itemToken]
  | ready c hd =>
    refine hI.jump rfl rfl rfl rfl ?_ ?_ (.free rfl (by simp) (.inr (.inl hd))) <;>
      simp [hp, Pc.slotToken, Pc.itemToken]
  | unready c hd =>
    refine hI.jump rfl rfl rfl rfl ?_ ?_ (.free rfl (by simp) (.inl rfl)) <;>
      simp [hp, Pc.slotToken, Pc.itemToken]
  | ranBefore c honce =>
    refine hI.jump rfl rfl rfl rfl ?_ ?_ (.free rfl (by simp) (.inr (.inr honce))) <;>
      simp [hp, Pc.slotToken, Pc.itemToken]
  | enter c honce =>
    refine hI.move rfl (by simp [hp, Pc.slotToken]) (by simp [hp, Pc.itemToken]) hI.free ?_ ?_ ?_ ?_ ?_ ?_
    · exact fun h _ => ⟨h, by simp [honce]⟩
    · intro h; cases h
    · exact ⟨by simp [Pc.holds], fun _ _ _ => ⟨rfl, fun _ => hI.notRun honce⟩, by simp [Pc.late]⟩
    · exact fun u _ h => h
    · intro u _ h; rw [honce] at h; cases h
    · rintro (h | h)
      · exact .inl h
      · rw [honce] at h; cases h
  | init c i a m'' r hinit => exact hI.init_step hp hinit
  | waitItems v hv | waitSlots v hv =>
    have hvalue := (Sem.wait?_eq_some.1 hv).1
    refine hI.jump rfl rfl rfl rfl ?_ ?_ (.free rfl (by simp) (.inr (hl.late rfl))) <;>
      simp [hp, Pc.slotToken, Pc.itemToken, hvalue]
  | interrupted c | waitFails c e =>
    refine hI.jump rfl rfl rfl rfl ?_ ?_ (.free rfl (by simp) (.inr (hl.late rfl))) <;>
      simp [hp, Pc.slotToken, Pc.itemToken]
  | lock c hfree =>
    refine hI.acquire hfree (by simp) ?_ ?_ ?_ ?_ fun _ => hl.late rfl
    all_goals cases c <;> simp [hp, Pc.slotToken, Pc.itemToken, Pc.lagIn, Pc.lagOut]
  | dlock hfree =>
    refine hI.acquire hfree (by simp) ?_ ?_ ?_ ?_ (by simp [Pc.late])
    all_goals simp [hp, Pc.slotToken, Pc.itemToken, Pc.lagIn, Pc.lagOut]
  | lockFails c e | unlockFails c e | postFails c e =>
    refine hI.jump rfl rfl rfl rfl ?_ ?_ (.free rfl (by simp) (.inr (hl.late rfl))) <;>
      simp [Pc.slotToken, Pc.itemToken]
  | copyOut => exact hI.copyOut hp
  | copyIn x => exact hI.copyIn hp x
  | advance c =>
    refine hI.adjust (by rw [hp]; rfl) ?_ ?_ ?_ (fun hi => ?_) (by simp) (by rw [hp]; rfl)
    · cases c <;> exact ⟨rfl, rfl, rfl, rfl, rfl⟩
    · rw [hp]; cases c <;> rfl
    · rw [hp]; cases c <;> rfl
    · rw [hp] at hi
      obtain ⟨h1, h2, h3, h4⟩ := hi
      cases c <;> simp only [Pc.lagIn, Pc.lagOut] at h1 h3 <;>
        refine ⟨?_, ?_, ?_, ?_⟩ <;> simp only [Buffer.advance, Pc.lagIn, Pc.lagOut] <;> omega
  | tally c =>
    refine hI.adjust (by rw [hp]; rfl) ?_ ?_ ?_ (fun hi => ?_) (by simp) (by rw [hp]; rfl)
    · cases c <;> exact ⟨rfl, rfl, rfl, rfl, rfl⟩
    · rw [hp]; cases c <;> rfl
    · rw [hp]; cases c <;> rfl
    · rw [hp] at hi
      cases c <;> exact ⟨hi.bufin, hi.bufin_lt, hi.bufout, hi.bufout_lt⟩
  | unlock c =>
    have hidx := (hl.holds rfl).2
    refine hI.release (hl.holds rfl).1 (by simpa [Pc.lagIn, Pc.lagOut] using hidx) ?_ ?_
      (.free rfl (by simp) (.inr (hl.late rfl)))
    all_goals cases c <;> simp [hp, Pc.slotToken, Pc.itemToken]
  | postSlots | postItems =>
    refine hI.jump rfl rfl rfl rfl ?_ ?_ (.free rfl (by simp) (.inr (hl.late rfl))) <;>
      simp [hp, Pc.slotToken, Pc.itemToken]
  | ret c r =>
    refine hI.jump rfl rfl rfl rfl ?_ ?_ (.free rfl (by simp) (.inl rfl)) <;>
      simp [hp, Pc.slotToken, Pc.itemToken]
  | dread =>
    refine hI.adjust (by rw [hp]; rfl) ⟨rfl, rfl, rfl, rfl, rfl⟩ ?_ ?_ (fun hi => ?_) (by simp) (by rw [hp]; rfl)
    · rw [hp]; rfl
    · rw [hp]; rfl
    · rw [hp] at hi; exact ⟨hi.bufin, hi.bufin_lt, hi.bufout, hi.bufout_lt⟩
  | dunlock =>
    refine hI.release (hl.holds rfl).1 (hl.holds rfl).2 ?_ ?_ (.free rfl (by simp) (.inl rfl)) <;>
      simp [hp, Pc.slotToken, Pc.itemToken]

/-! ## Refinement of the bounded queue -/

omit [Fintype T] [DecidableEq T] in
theorem initStmt_ring {i : InitPc} {a : Act α} {m m' : Mem T α} {r : Option InitPc}
    (h : initStmt i a m = some (m', r)) : m'.ring = m.ring := by
  cases i <;> cases a <;> simp [initStmt] at h <;>
    first
      | obtain ⟨rfl, -⟩ := h; rfl
      | obtain ⟨-, rfl, -⟩ := h; rfl

omit [Fintype T] [DecidableEq T] in
/-- What a statement can do to the buffer: a copy in, a copy out, or nothing to the strings. -/
theorem stmt_ring {t : T} {p p' : Pc} {a : Act α} {m m' : Mem T α} (h : stmt t p a m = some (m', p')) :
    (p = .copy .putitem ∧ ∃ x, a = .copyIn x ∧ m'.ring = m.ring.copyIn x) ∨
    (p = .copy .getitem ∧ a = .go ∧ m'.ring = m.ring.copyOut) ∨
    ((∀ c, p ≠ .copy c) ∧ SameStrings m.ring m'.ring) := by
  cases stmt_cases h with
  | copyIn x => exact .inl ⟨rfl, x, rfl, rfl⟩
  | copyOut => exact .inr (.inl ⟨rfl, rfl, rfl⟩)
  | init c i a m'' r hinit => exact .inr (.inr ⟨by simp, .of_eq (initStmt_ring hinit)⟩)
  | advance c | tally c => exact .inr (.inr ⟨by simp, by cases c <;> exact ⟨rfl, rfl, rfl, rfl, rfl⟩⟩)
  | dread => exact .inr (.inr ⟨by simp, rfl, rfl, rfl, rfl, rfl⟩)
  | _ => exact .inr (.inr ⟨by simp, .of_eq rfl⟩)

/-- **Refinement.** Seen from the abstract queue of capacity 5, a step inserts a string, removes one
or does nothing. -/
theorem ring_step_refines (hI : Inv s) {q : Fifo α} (hq : Represents s.mem.ring q) {a : T × Act α}
    {s' : Config T (Mem T α) Pc} (h : step stmt a s = some s') :
    Represents s'.mem.ring q ∨ ∃ o q', Fifo.step 5 o q = some q' ∧ Represents s'.mem.ring q' := by
  obtain ⟨m', p', hs, rfl⟩ := step_eq_some.1 h
  rcases stmt_ring hs with ⟨hp, x, -, hr⟩ | ⟨hp, -, hr⟩ | ⟨-, hr⟩
  · obtain ⟨hlen, hq'⟩ := hI.copyIn_queue hp hq x
    exact .inr ⟨.put x, _, Fifo.step_put hlen x, hr ▸ hq'⟩
  · obtain ⟨x, xs, hx, hq'⟩ := hI.copyOut_queue hp hq
    exact .inr ⟨.get, _, Fifo.step_get hx, hr ▸ hq'⟩
  · exact .inl (hq.same hr)

section runs
variable [Inhabited α]

/-- The statics before and after a set-up in which nothing failed. -/
def Booted (m : Mem T α) : Prop := m = .static ∨ m = .initialised

omit [Fintype T] [DecidableEq T] in
theorem zeroed_represents : Represents (Buffer.zeroed : Buffer α) .empty :=
  ⟨rfl, rfl, Fifo.Holds.nil _ _ _, rfl, rfl⟩

omit [DecidableEq T] in
theorem start_inv {m₀ : Mem T α} (h₀ : Booted m₀) : Inv (start m₀) := by
  have hslot : total Pc.slotToken (start m₀).pc = 0 := total_eq_zero fun _ => rfl
  have hitem : total Pc.itemToken (start m₀).pc = 0 := total_eq_zero fun _ => rfl
  have hthreads : ∀ t, Local t (start m₀).mem ((start m₀).pc t) := fun _ =>
    .free rfl (by simp [start]) (.inl rfl)
  have hfree : Indices 0 0 (Buffer.zeroed : Buffer α) := ⟨rfl, Nat.succ_pos _, rfl, Nat.succ_pos _⟩
  rcases h₀ with rfl | rfl
  · exact ⟨⟨_, zeroed_represents⟩, by rw [hslot]; exact Nat.zero_le _, by rw [hitem]; exact Nat.zero_le _,
      fun _ => hfree, fun _ _ => ⟨rfl, rfl⟩, fun _ => rfl, hthreads⟩
  · exact ⟨⟨_, zeroed_represents⟩, by rw [hslot]; exact Nat.le_refl _, by rw [hitem]; exact Nat.le_refl _,
      fun _ => hfree, fun h => (by cases h), fun h => (by cases h), hthreads⟩

/-- **Run lemma.** -/
theorem run_inv {m₀ : Mem T α} (h₀ : Booted m₀) {acts : List (T × Act α)}
    (h : Run.exec (step stmt) acts (start m₀) = some s) : Inv s :=
  Run.invariant' (fun _ _ _ hI hs => hI.step hs) (start_inv h₀) h

/-- Every run of the calls is a run of the bounded queue. -/
theorem ring_refines {m₀ : Mem T α} (h₀ : Booted m₀) {acts : List (T × Act α)}
    (h : Run.exec (step stmt) acts (start m₀) = some s) :
    ∃ ops q, Run.exec (Fifo.step 5) ops Fifo.empty = some q ∧ Represents s.mem.ring q := by
  have h0 : Inv (start m₀) ∧ Represents (start m₀).mem.ring .empty := by
    refine ⟨start_inv h₀, ?_⟩
    rcases h₀ with rfl | rfl <;> exact zeroed_represents
  obtain ⟨ops, q, hops, -, hq⟩ := Run.simulate (R := fun s q => Inv s ∧ Represents s.mem.ring q)
    (fun a s s' q hR hs => by
      rcases ring_step_refines hR.1 hR.2 hs with hq | ⟨o, q', ho, hq⟩
      · exact .inl ⟨hR.1.step hs, hq⟩
      · exact .inr ⟨o, q', ho, hR.1.step hs, hq⟩) h0 h
  exact ⟨ops, q, hops, hq⟩

/-- **The ring is a queue.** In every state that any number of threads can reach: the strings that
`getitem` copied out are, in order, the first of those that `putitem` copied in; a slot about to be
written has been read as often as it has been written, and one about to be read once less; and
whenever `data_buffer_lock` is free, `bufin` is `n` slots after `bufout`, `n` at most 5 being the number
of strings stored and not yet fetched. -/
theorem ring_fifo {m₀ : Mem T α} (h₀ : Booted m₀) {acts : List (T × Act α)}
    (h : Run.exec (step stmt) acts (start m₀) = some s) :
    s.mem.ring.fetched <+: s.mem.ring.stored ∧
    (∀ t, s.pc t = .copy .putitem →
      s.mem.ring.putSlots.count s.mem.ring.bufin = s.mem.ring.getSlots.count s.mem.ring.bufin) ∧
    (∀ t, s.pc t = .copy .getitem →
      s.mem.ring.putSlots.count s.mem.ring.bufout = s.mem.ring.getSlots.count s.mem.ring.bufout + 1) ∧
    (s.mem.dataBufferLock = none → ∃ n ≤ 5,
      s.mem.ring.stored.length = s.mem.ring.fetched.length + n ∧
      s.mem.ring.bufin = (s.mem.ring.bufout + n) % 5) := by
  have hI := run_inv h₀ h
  obtain ⟨q, hq⟩ := hI.queue
  have hlen := hq.length_fetched
  have hslots := hI.slotTokens
  refine ⟨?_, fun t hp => ?_, fun t hp => ?_, fun hfree => ?_⟩
  · rw [hq.stored, hq.fetched]; exact q.removed_prefix
  · obtain ⟨hin, hroom⟩ := hI.room hp
    rw [hq.putSlots, hq.getSlots, hin]
    exact Fifo.count_slots_free (by omega) hroom
  · obtain ⟨hout, hitem⟩ := hI.item hp
    rw [hq.putSlots, hq.getSlots, hout]
    exact Fifo.count_slots_full hitem (by omega)
  · obtain ⟨h1, h2, h3, h4⟩ := hI.free hfree
    exact ⟨q.queue.length, by omega, hlen, by omega⟩

end runs

end

/-- Thread `true` stores 7 and 8 (interrupted once while it waits), thread `false` fetches the 7. -/
def sampleRun : List (Bool × Act Nat) :=
  let put (x : Nat) := [Act.call .putitem, .go, .err EINTR, .go, .go, .copyIn x, .go, .go, .go, .go, .go]
  let get := [Act.call .getitem, .go, .go, .go, .go, .go, .go]
  (put 7 ++ put 8).map (true, ·) ++ get.map (false, ·)

theorem ring_fifo_sample :
    ∃ s : Config Bool (Mem Bool Nat) Pc,
      Run.exec (step stmt) sampleRun (start .initialised) = some s ∧
      s.mem.ring.stored = [7, 8] ∧ s.mem.ring.fetched = [7] ∧ s.mem.ring.fetched <+: s.mem.ring.stored := by
  obtain ⟨s, hs⟩ : ∃ s : Config Bool (Mem Bool Nat) Pc,
      Run.exec (step stmt) sampleRun (start .initialised) = some s := ⟨_, rfl⟩
  refine ⟨s, hs, ?_, ?_, (ring_fifo (.inr rfl) hs).1⟩
  all_goals cases hs; rfl

end ProdCons
