import LinuxLearning.Lib.Threads
import LinuxLearning.Lib.Fifo
/-!
# `prodcons_threads.c`: the data buffer, `getitem`, `putitem` and their set-up on first use

The same functions stand in `prodcons_threads1.c`, `prodcons_threads2.c` and `prodcons_threads3.c`.

| here | there (`Examples/Threads/prodcons_threads.c`) |
| --- | --- |
| `Buffer`                        | the statics that `data_buffer_lock` guards (`:14`, `:19-22`), with the history of the copies |
| `Mem`                           | the statics of the module (`:18-28`) but those of the input buffer |
| `InitPc`                        | `items` `:34`, `slots` `:36`, `dropItems` `:38`, `input` `:40`, `dropSlots` `:42`, `result` `:51`, `flag` `:52-53`; `finish` is the end of `pthread_once` |
| `Pc`                            | of `getitem` and `putitem`: `test` `:69`, `:95`, `once` `:60`, `wait` `:71`, `:97`, `lock` `:74`, `:100`, `copy` `:76`, `:104`, `advance` `:78`, `:105`, `tally` `:80-81`, `:107-108`, `unlock` `:84`, `:110`, `post` `:86`, `:112`, and `ret`; of the display: `dlock` `:219`, `dread` `:221`, `dunlock` `:225` |
| `initStmt`                      | `bufferinit` (`:32-46`), `initialization` (`:50-54`) |
| `stmt`, points `test` to `ret`  | `bufferinitonce` (`:58-63`), `getitem` (`:67-89`), `putitem` (`:93-115`) |
| `stmt`, points `dlock` to `dunlock` | one pass of `display_status_thread` (`:204-235`; the `printf` is commented out here and active in `prodcons_threads2.c:251`) |
| `stmt`, `postInput`, `waitInput` | `sem_post(&seminput)` (`:146`) and `sem_wait(&seminput)` (`:169`), made by threads outside the calls |

A string in a buffer is an element of `α`: `strncpy(…, 1024)` between buffers of 1024 bytes copies a
terminated string whole. Each control point of `Pc` is one statement, so a thread can be preempted
between the copy, the index update and the counters. A library call whose result the source checks
can fail with any `errno` (`Act.err`), which is how `EINTR` and the error returns are taken. `Stmt` lists what a
statement can do; a proof about `stmt` goes by cases of it (`stmt_cases`).
-/

namespace ProdCons

open Threads

/-- `EINTR` of `errno.h`. -/
def EINTR : Nat := 4

inductive Call where
  | getitem
  | putitem
deriving DecidableEq, Repr

/-- What `pthread_once` knows about `initonce`. -/
inductive Once (T : Type*) where
  | notRun
  | running (t : T)
  | done
deriving DecidableEq, Repr

/-- The statics guarded by `data_buffer_lock`. The last five fields are history, which no statement
reads: the strings copied in and out with the slots used, and what the display has shown. -/
structure Buffer (α : Type*) where
  buffer : Nat → α
  bufin : Nat
  bufout : Nat
  freeslots : Int
  filledslots : Int
  stored : List α
  putSlots : List Nat
  fetched : List α
  getSlots : List Nat
  shown : List (Int × Int)

/-- `strncpy(buffer[bufin], item, 1024)` (`:104`), `item` holding `x`. -/
def Buffer.copyIn (b : Buffer α) (x : α) : Buffer α :=
  { b with
    buffer := Function.update b.buffer b.bufin x
    stored := b.stored ++ [x]
    putSlots := b.putSlots ++ [b.bufin] }

/-- `strncpy(item, buffer[bufout], 1024)` (`:76`). -/
def Buffer.copyOut (b : Buffer α) : Buffer α :=
  { b with
    fetched := b.fetched ++ [b.buffer b.bufout]
    getSlots := b.getSlots ++ [b.bufout] }

/-- `bufout = (bufout + 1) % 5` (`:78`), `bufin = (bufin + 1) % 5` (`:105`). -/
def Buffer.advance (b : Buffer α) : Call → Buffer α
  | .getitem => { b with bufout := (b.bufout + 1) % 5 }
  | .putitem => { b with bufin := (b.bufin + 1) % 5 }

/-- The two counters (`:80-81`, `:107-108`). -/
def Buffer.tally (b : Buffer α) : Call → Buffer α
  | .getitem => { b with filledslots := b.filledslots - 1, freeslots := b.freeslots + 1 }
  | .putitem => { b with filledslots := b.filledslots + 1, freeslots := b.freeslots - 1 }

def Buffer.show (b : Buffer α) : Buffer α :=
  { b with shown := b.shown ++ [(b.freeslots, b.filledslots)] }

/-- The statics. `posts` and `waits` count the completed calls on `seminput` (history). -/
structure Mem (T α : Type*) where
  ring : Buffer α
  dataBufferLock : Option T
  initdone : Bool
  initerror : Nat
  initonce : Once T
  semitems : Sem
  semslots : Sem
  seminput : Sem
  posts : Nat
  waits : Nat

/-- The next statement of a thread that runs `initialization` inside `pthread_once`. -/
inductive InitPc where
  | items
  | slots
  | dropItems
  | input
  | dropSlots (error : Nat)
  | result (r : Nat)
  | flag
  | finish
deriving DecidableEq, Repr

/-- The next statement of a thread; `out` is outside the calls. -/
inductive Pc where
  | out
  | test (c : Call)
  | once (c : Call)
  | init (c : Call) (i : InitPc)
  | wait (c : Call)
  | lock (c : Call)
  | copy (c : Call)
  | advance (c : Call)
  | tally (c : Call)
  | unlock (c : Call)
  | post (c : Call)
  | ret (c : Call) (r : Nat)
  | dlock
  | dread
  | dunlock
deriving DecidableEq, Repr

/-- What the scheduler and the outside world choose: whether the library call of the statement fails, which call comes
next, and what `item` holds when `putitem` copies it. -/
inductive Act (α : Type*) where
  | go
  | err (e : Nat)
  | call (c : Call)
  | copyIn (x : α)
  | display
  | postInput
  | waitInput
deriving DecidableEq, Repr

section
variable {T α : Type*}

/-- `bufferinit` and `initialization`, statement by statement. The failure of the second `sem_init`
destroys `semitems` and falls through to the third, as the source does. -/
def initStmt (i : InitPc) (a : Act α) (m : Mem T α) : Option (Mem T α × Option InitPc) :=
  match i, a with
  | .items, .go => some ({ m with semitems := m.semitems.init 0 }, some .slots)
  | .items, .err e => if e = 0 then none else some (m, some (.result e))
  | .slots, .go => some ({ m with semslots := m.semslots.init 5 }, some .input)
  | .slots, .err e => if e = 0 then none else some (m, some .dropItems)
  | .dropItems, .go => some ({ m with semitems := m.semitems.destroy }, some .input)
  | .input, .go => some ({ m with seminput := m.seminput.init 0 }, some (.result 0))
  | .input, .err e => if e = 0 then none else some (m, some (.dropSlots e))
  | .dropSlots error, .go => some ({ m with semslots := m.semslots.destroy }, some (.result error))
  | .result r, .go => some ({ m with initerror := r }, some .flag)
  | .flag, .go => some ({ m with initdone := m.initdone || m.initerror == 0 }, some .finish)
  | .finish, .go => some ({ m with initonce := .done }, none)
  | _, _ => none

/-- The statement a thread executes at a control point. -/
def stmt (t : T) (p : Pc) (a : Act α) (m : Mem T α) : Option (Mem T α × Pc) :=
  match p, a with
  | .out, .call c => some (m, .test c)
  | .out, .display => some (m, .dlock)
  | .out, .postInput =>
    some ({ m with seminput := m.seminput.post, posts := m.posts + 1 }, .out)
  | .out, .waitInput =>
    m.seminput.wait?.map fun s => ({ m with seminput := s, waits := m.waits + 1 }, .out)
  | .test c, .go => some (m, if m.initdone then .wait c else .once c)
  | .once c, .go => match m.initonce with
    | .notRun => some ({ m with initonce := .running t }, .init c .items)
    | .running _ => none
    -- `getitem` and `putitem` ignore what `bufferinitonce` returns
    | .done => some (m, .wait c)
  | .init c i, a => (initStmt i a m).map fun r => (r.1, r.2.elim (.wait c) (.init c))
  | .wait .getitem, .go => m.semitems.wait?.map fun s => ({ m with semitems := s }, .lock .getitem)
  | .wait .putitem, .go => m.semslots.wait?.map fun s => ({ m with semslots := s }, .lock .putitem)
  | .wait c, .err e =>
    if e = 0 then none else if e = EINTR then some (m, .wait c) else some (m, .ret c e)
  | .lock c, .go => (lock? t m.dataBufferLock).map fun l => ({ m with dataBufferLock := l }, .copy c)
  | .lock c, .err e => if e = 0 then none else some (m, .ret c e)
  | .copy .getitem, .go => some ({ m with ring := m.ring.copyOut }, .advance .getitem)
  | .copy .putitem, .copyIn x => some ({ m with ring := m.ring.copyIn x }, .advance .putitem)
  | .advance c, .go => some ({ m with ring := m.ring.advance c }, .tally c)
  | .tally c, .go => some ({ m with ring := m.ring.tally c }, .unlock c)
  | .unlock c, .go => some ({ m with dataBufferLock := none }, .post c)
  | .unlock c, .err e => if e = 0 then none else some (m, .ret c e)
  | .post .getitem, .go => some ({ m with semslots := m.semslots.post }, .ret .getitem 0)
  | .post .putitem, .go => some ({ m with semitems := m.semitems.post }, .ret .putitem 0)
  | .post c, .err e => if e = 0 then none else some (m, .ret c e)
  | .ret _ _, .go => some (m, .out)
  | .dlock, .go => (lock? t m.dataBufferLock).map fun l => ({ m with dataBufferLock := l }, .dread)
  | .dread, .go => some ({ m with ring := m.ring.show }, .dunlock)
  | .dunlock, .go => some ({ m with dataBufferLock := none }, .out)
  | _, _ => none

variable [Inhabited α]

/-- The data buffer when the program starts: zeroed. -/
def Buffer.zeroed : Buffer α := ⟨fun _ => default, 0, 0, 0, 0, [], [], [], [], []⟩

/-- The statics when the program starts. -/
def Mem.static : Mem T α :=
  ⟨.zeroed, none, false, 0, .notRun, .zeroed, .zeroed, .zeroed, 0, 0⟩

/-- The statics after a `bufferinit` all of whose calls succeeded. -/
def Mem.initialised : Mem T α :=
  ⟨.zeroed, none, true, 0, .done, ⟨true, 0⟩, ⟨true, 5⟩, ⟨true, 0⟩, 0, 0⟩

/-- Every thread outside the calls. -/
def start (m : Mem T α) : Config T (Mem T α) Pc := ⟨m, fun _ => .out⟩

end

/-! ## The statements, one by one -/

section
variable {T α : Type*}

/-- What thread `t` can do in `m`: the control point, what is chosen there, and what becomes of it. -/
inductive Stmt (t : T) (m : Mem T α) : Pc → Act α → Mem T α → Pc → Prop where
  | call (c) : Stmt t m .out (.call c) m (.test c)
  | display : Stmt t m .out .display m .dlock
  | postInput : Stmt t m .out .postInput { m with seminput := m.seminput.post, posts := m.posts + 1 } .out
  | waitInput (v) (h : m.seminput.wait? = some v) :
      Stmt t m .out .waitInput { m with seminput := v, waits := m.waits + 1 } .out
  | ready (c) (h : m.initdone = true) : Stmt t m (.test c) .go m (.wait c)
  | unready (c) (h : m.initdone = false) : Stmt t m (.test c) .go m (.once c)
  | enter (c) (h : m.initonce = .notRun) :
      Stmt t m (.once c) .go { m with initonce := .running t } (.init c .items)
  | ranBefore (c) (h : m.initonce = .done) : Stmt t m (.once c) .go m (.wait c)
  | init (c i a m' r) (h : initStmt i a m = some (m', r)) :
      Stmt t m (.init c i) a m' (r.elim (.wait c) (.init c))
  | waitItems (v) (h : m.semitems.wait? = some v) :
      Stmt t m (.wait .getitem) .go { m with semitems := v } (.lock .getitem)
  | waitSlots (v) (h : m.semslots.wait? = some v) :
      Stmt t m (.wait .putitem) .go { m with semslots := v } (.lock .putitem)
  | interrupted (c) : Stmt t m (.wait c) (.err EINTR) m (.wait c)
  | waitFails (c e) (h : e ≠ 0) : Stmt t m (.wait c) (.err e) m (.ret c e)
  | lock (c) (h : m.dataBufferLock = none) :
      Stmt t m (.lock c) .go { m with dataBufferLock := some t } (.copy c)
  | lockFails (c e) (h : e ≠ 0) : Stmt t m (.lock c) (.err e) m (.ret c e)
  | copyOut : Stmt t m (.copy .getitem) .go { m with ring := m.ring.copyOut } (.advance .getitem)
  | copyIn (x) : Stmt t m (.copy .putitem) (.copyIn x) { m with ring := m.ring.copyIn x } (.advance .putitem)
  | advance (c) : Stmt t m (.advance c) .go { m with ring := m.ring.advance c } (.tally c)
  | tally (c) : Stmt t m (.tally c) .go { m with ring := m.ring.tally c } (.unlock c)
  | unlock (c) : Stmt t m (.unlock c) .go { m with dataBufferLock := none } (.post c)
  | unlockFails (c e) (h : e ≠ 0) : Stmt t m (.unlock c) (.err e) m (.ret c e)
  | postSlots : Stmt t m (.post .getitem) .go { m with semslots := m.semslots.post } (.ret .getitem 0)
  | postItems : Stmt t m (.post .putitem) .go { m with semitems := m.semitems.post } (.ret .putitem 0)
  | postFails (c e) (h : e ≠ 0) : Stmt t m (.post c) (.err e) m (.ret c e)
  | ret (c r) : Stmt t m (.ret c r) .go m .out
  | dlock (h : m.dataBufferLock = none) : Stmt t m .dlock .go { m with dataBufferLock := some t } .dread
  | dread : Stmt t m .dread .go { m with ring := m.ring.show } .dunlock
  | dunlock : Stmt t m .dunlock .go { m with dataBufferLock := none } .out

theorem stmt_cases {t : T} {p p' : Pc} {a : Act α} {m m' : Mem T α} (h : stmt t p a m = some (m', p')) :
    Stmt t m p a m' p' := by
  cases p with
  | out =>
    cases a with
    | call c =>
      cases h
      exact .call c
    | display =>
      cases h
      exact .display
    | postInput =>
      cases h
      exact .postInput
    | waitInput =>
      obtain ⟨v, hv, he⟩ := Option.map_eq_some_iff.1 h
      cases he
      exact .waitInput v hv
    | go | err | copyIn => cases h
  | init c i =>
    obtain ⟨⟨m'', r⟩, hinit, he⟩ := Option.map_eq_some_iff.1 h
    cases he
    exact .init c i a m'' r hinit
  | test c =>
    cases a with
    | go =>
      cases h
      cases hd : m.initdone with
      | true => exact .ready c hd
      | false => exact .unready c hd
    | _ => cases h
  | once c =>
    cases a with
    | go =>
      simp only [stmt] at h
      cases ho : m.initonce with
      | notRun =>
        rw [ho] at h
        cases h
        exact .enter c ho
      | running u =>
        rw [ho] at h
        cases h
      | done =>
        rw [ho] at h
        cases h
        exact .ranBefore c ho
    | _ => cases h
  | wait c =>
    cases a with
    | go =>
      cases c with
      | getitem =>
        obtain ⟨v, hv, he⟩ := Option.map_eq_some_iff.1 h
        cases he
        exact .waitItems v hv
      | putitem =>
        obtain ⟨v, hv, he⟩ := Option.map_eq_some_iff.1 h
        cases he
        exact .waitSlots v hv
    | err e =>
      simp only [stmt, Option.ite_none_left_eq_some] at h
      obtain ⟨he, h⟩ := h
      split at h
      · next hintr =>
        subst hintr
        cases h
        exact .interrupted c
      · cases h
        exact .waitFails c e he
    | _ => cases c <;> cases h
  | lock c =>
    cases a with
    | go =>
      obtain ⟨l, hl, he⟩ := Option.map_eq_some_iff.1 h
      cases he
      obtain ⟨hfree, rfl⟩ := lock?_eq_some.1 hl
      exact .lock c hfree
    | err e =>
      obtain ⟨he, h⟩ := Option.ite_none_left_eq_some.1 h
      cases h
      exact .lockFails c e he
    | _ => cases h
  | copy c =>
    cases a with
    | go =>
      cases c with
      | getitem =>
        cases h
        exact .copyOut
      | putitem => cases h
    | copyIn x =>
      cases c with
      | getitem => cases h
      | putitem =>
        cases h
        exact .copyIn x
    | _ => cases c <;> cases h
  | advance c =>
    cases a with
    | go =>
      cases h
      exact .advance c
    | _ => cases h
  | tally c =>
    cases a with
    | go =>
      cases h
      exact .tally c
    | _ => cases h
  | unlock c =>
    cases a with
    | go =>
      cases h
      exact .unlock c
    | err e =>
      obtain ⟨he, h⟩ := Option.ite_none_left_eq_some.1 h
      cases h
      exact .unlockFails c e he
    | _ => cases h
  | post c =>
    cases a with
    | go =>
      cases c with
      | getitem =>
        cases h
        exact .postSlots
      | putitem =>
        cases h
        exact .postItems
    | err e =>
      simp only [stmt, Option.ite_none_left_eq_some] at h
      obtain ⟨he, h⟩ := h
      cases h
      exact .postFails c e he
    | _ => cases c <;> cases h
  | ret c r =>
    cases a with
    | go =>
      cases h
      exact .ret c r
    | _ => cases h
  | dlock =>
    cases a with
    | go =>
      obtain ⟨l, hl, he⟩ := Option.map_eq_some_iff.1 h
      cases he
      obtain ⟨hfree, rfl⟩ := lock?_eq_some.1 hl
      exact .dlock hfree
    | _ => cases h
  | dread =>
    cases a with
    | go =>
      cases h
      exact .dread
    | _ => cases h
  | dunlock =>
    cases a with
    | go =>
      cases h
      exact .dunlock
    | _ => cases h

end

end ProdCons
