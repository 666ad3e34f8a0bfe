import LinuxLearning.Lib.Framing
import LinuxLearning.Lib.Run
/-!
# The FIFO server: what is read and what is written

| here | there |
| --- | --- |
| `strlen`, `writeString`   | `write(fd, buf, strlen(buf)+1)` in both programs |
| `clientRound`             | the loop of `main` (`thread_fifo_cl.c:39-46`) |
| `Server`, `step`          | `buf` and the loop of `thread_fifo` (`thread_fifo_server1.c:116-133`) |

Clients write strings with their NULs into a FIFO, a thread of the server copies what it reads to its standard output.
It measures what it has read with `strlen` and not by the count that `read` returns. `read` fills the first bytes of
the buffer and leaves the others, which are undefined at the start. Writes are taken to be complete.

* `Aligned` — as many reads as messages, and each read leaves the buffer beginning with the message it stands for;
  `relays_iff_aligned` — what the output says, chunk by chunk;
* `echo_iff` — every round writes what it has read if and only if each read is one message;
* `relay_law` — a stream of which each read takes one message is relayed; where no read ends inside a message, no other
  is. A read that ends inside one reaches into what is left in the buffer, and that may be what was missing.
-/

namespace FifoServer

open Framing (IsFrame first)

/-- `strlen(buf)`, `none` where it runs past the end of the array. -/
def strlen (buf : List UInt8) : Option ℕ :=
  if 0 ∈ buf then some (buf.takeWhile (· ≠ 0)).length else none

/-- The bytes of `write(fd, buf, strlen(buf)+1)`. -/
def writeString (buf : List UInt8) : Option (List UInt8) := (strlen buf).map fun n => buf.take (n + 1)

/-- One round of the client's loop: what goes into the FIFO. -/
def clientRound (buf : List UInt8) : Option (List UInt8) := writeString buf

/-- A string with its terminating NUL. -/
structure Message where
  bytes : List UInt8
  frame : IsFrame 0 bytes

/-- What a `read` of up to `sizeof(buf)` bytes gives. -/
structure Chunk where
  bytes : List UInt8
  pos : 1 ≤ bytes.length
  fits : bytes.length ≤ 512

/-- The outcome of `read`; 0 bytes are the end of the file, when no client has the FIFO open. -/
inductive Read
  | error
  | eof
  | bytes (chunk : Chunk)

/-- `char buf[512]`, the bytes on the standard output, and whether `exit(5)` was called. -/
structure Server where
  buf : List UInt8
  size : buf.length = 512
  out : List UInt8
  exited : Bool

/-- The buffer after a read: its first bytes are new. -/
def Chunk.over (c : Chunk) (buf : List UInt8) : List UInt8 := c.bytes ++ buf.drop c.bytes.length

theorem Chunk.length_over (c : Chunk) {buf : List UInt8} (h : buf.length = 512) : (c.over buf).length = 512 := by
  have hfits := c.fits
  unfold Chunk.over
  rw [List.length_append, List.length_drop]
  omega

/-- The server when it has read `c` and written `f`. -/
def Server.fed (s : Server) (c : Chunk) (f : List UInt8) : Server :=
  { s with buf := c.over s.buf, size := c.length_over s.size, out := s.out ++ f }

/-- One round of the loop of `thread_fifo`. -/
def step (r : Read) (s : Server) : Option Server :=
  if s.exited then none
  else match r with
    | .error => some { s with exited := true }
    | .eof => some s
    | .bytes c => (writeString (c.over s.buf)).map (s.fed c)

variable {buf f : List UInt8} {m : Message} {ms : List Message} {c : Chunk} {cs : List Chunk} {reads : List Read}
  {s : Server}

/-! ## What is written -/

/-- Both programs write the string that the buffer begins with. -/
theorem writeString_eq (buf : List UInt8) : writeString buf = first 0 buf := by
  unfold writeString strlen first
  by_cases hmem : (0 : UInt8) ∈ buf
  · obtain ⟨word, rest, rfl, hword⟩ := List.eq_append_cons_of_mem hmem
    have hpos : ∀ a ∈ word, decide (a ≠ (0 : UInt8)) = true := by
      intro a ha
      rw [decide_eq_true_iff]
      rintro rfl
      exact hword ha
    have htake : (word ++ 0 :: rest).takeWhile (· ≠ 0) = word := by
      rw [List.takeWhile_append_of_pos hpos]
      simp
    rw [if_pos hmem, if_pos hmem, htake, Option.map_some]
    simp [List.take_append]
  · rw [if_neg hmem, if_neg hmem, Option.map_none]

/-- A client writes messages. -/
theorem clientRound_frame (h : clientRound buf = some f) : IsFrame 0 f := by
  unfold clientRound at h
  rw [writeString_eq] at h
  exact (Framing.first_spec h).1

theorem writeString_eq_some_iff : writeString buf = some f ↔ IsFrame 0 f ∧ f <+: buf := by
  rw [writeString_eq, Framing.first_eq_some_iff]

/-- The strings that are written for one read after the other. -/
def written (buf : List UInt8) : List Chunk → Option (List (List UInt8))
  | [] => some []
  | c :: cs => (writeString (c.over buf)).bind fun f => (written (c.over buf) cs).map (f :: ·)

theorem written_frames {fs : List (List UInt8)} (h : written buf cs = some fs) : ∀ f ∈ fs, IsFrame 0 f := by
  induction cs generalizing buf fs with
  | nil =>
    cases h
    simp
  | cons c cs ih =>
    unfold written at h
    obtain ⟨f, hf, hrest⟩ := Option.bind_eq_some_iff.1 h
    obtain ⟨fs', hfs', rfl⟩ := Option.map_eq_some_iff.1 hrest
    intro g hg
    rcases List.mem_cons.1 hg with rfl | hg'
    · exact (writeString_eq_some_iff.1 hf).1
    · exact ih hfs' g hg'

/-- The reads that give bytes. -/
def chunks (reads : List Read) : List Chunk :=
  reads.filterMap fun r => match r with
    | .bytes c => some c
    | _ => none

/-- The output of a run. -/
theorem exec_out (hs : s.exited = false) (hok : Read.error ∉ reads) :
    (Run.exec step reads s).map Server.out = (written s.buf (chunks reads)).map fun fs => s.out ++ fs.flatten := by
  induction reads generalizing s with
  | nil => simp [chunks, written]
  | cons r reads ih =>
    have hok' : Read.error ∉ reads := fun hmem => hok (List.mem_cons_of_mem r hmem)
    have hcons : Run.exec step (r :: reads) s = (step r s).bind (Run.exec step reads) := rfl
    rw [hcons]
    cases r with
    | error => exact absurd List.mem_cons_self hok
    | eof =>
      have hstep : step .eof s = some s := by simp [step, hs]
      rw [hstep, Option.bind_some, ih hs hok']
      rfl
    | bytes c =>
      have hchunks : chunks (.bytes c :: reads) = c :: chunks reads := rfl
      rw [hchunks]
      unfold written
      cases hf : writeString (c.over s.buf) with
      | none => simp [step, hs, hf]
      | some f =>
        have hstep : step (.bytes c) s = some (s.fed c f) := by simp [step, hs, hf]
        have hrest := ih (s := s.fed c f) hs hok'
        rw [hstep, Option.bind_some, hrest, Option.bind_some, Option.map_map]
        congr 1
        ext fs : 1
        simp [Server.fed]

/-! ## When it is the stream -/

/-- As many chunks as messages, and each chunk, over what the chunks before have left in the buffer, begins with its
message. -/
def Aligned : List UInt8 → List Message → List Chunk → Prop
  | _, [], [] => True
  | buf, m :: ms, c :: cs => m.bytes <+: c.over buf ∧ Aligned (c.over buf) ms cs
  | _, _, _ => False

theorem aligned_iff : Aligned buf ms cs ↔ written buf cs = some (ms.map Message.bytes) := by
  induction cs generalizing buf ms with
  | nil =>
    cases ms with
    | nil => simp [Aligned, written]
    | cons m ms => simp [Aligned, written]
  | cons c cs ih =>
    cases ms with
    | nil =>
      simp only [Aligned, false_iff]
      intro h
      unfold written at h
      obtain ⟨f, -, hrest⟩ := Option.bind_eq_some_iff.1 h
      obtain ⟨fs, -, hfs⟩ := Option.map_eq_some_iff.1 hrest
      cases hfs
    | cons m ms =>
      unfold Aligned written
      rw [ih]
      constructor
      · rintro ⟨hpre, hrest⟩
        rw [writeString_eq_some_iff.2 ⟨m.frame, hpre⟩, Option.bind_some, hrest]
        rfl
      · intro h
        obtain ⟨f, hf, hrest⟩ := Option.bind_eq_some_iff.1 h
        obtain ⟨fs, hfs, heq⟩ := Option.map_eq_some_iff.1 hrest
        rw [List.map_cons, List.cons.injEq] at heq
        obtain ⟨rfl, rfl⟩ := heq
        exact ⟨(writeString_eq_some_iff.1 hf).2, hfs⟩

/-- The bytes that the clients have written. -/
def stream (ms : List Message) : List UInt8 := (ms.map Message.bytes).flatten

/-- The run is defined, and its output is the stream. -/
def Relays (s : Server) (reads : List Read) (ms : List Message) : Prop :=
  ∃ s', Run.exec step reads s = some s' ∧ s'.out = s.out ++ stream ms

theorem relays_iff_aligned (hs : s.exited = false) (hok : Read.error ∉ reads) :
    Relays s reads ms ↔ Aligned s.buf ms (chunks reads) := by
  have hout := exec_out hs hok
  have hmessages : ∀ g ∈ ms.map Message.bytes, IsFrame 0 g := by
    intro g hg
    obtain ⟨m, -, rfl⟩ := List.mem_map.1 hg
    exact m.frame
  rw [aligned_iff]
  unfold Relays
  constructor
  · rintro ⟨s', hrun, hs'⟩
    rw [hrun, Option.map_some] at hout
    obtain ⟨fs, hfs, heq⟩ := Option.map_eq_some_iff.1 hout.symm
    rw [hs'] at heq
    rw [hfs, Framing.flatten_inj (written_frames hfs) hmessages (List.append_cancel_left heq)]
  · intro h
    rw [h, Option.map_some] at hout
    obtain ⟨s', hrun, hs'⟩ := Option.map_eq_some_iff.1 hout
    exact ⟨s', hrun, hs'⟩

/-! ## One message a read -/

theorem aligned_of_one_each (h : cs.map Chunk.bytes = ms.map Message.bytes) : Aligned buf ms cs := by
  induction cs generalizing buf ms with
  | nil =>
    rw [List.map_nil, eq_comm, List.map_eq_nil_iff] at h
    subst h
    trivial
  | cons c cs ih =>
    cases ms with
    | nil => cases h
    | cons m ms =>
      rw [List.map_cons, List.map_cons, List.cons.injEq] at h
      refine ⟨?_, ih h.2⟩
      unfold Chunk.over
      rw [h.1]
      exact List.prefix_append m.bytes _

/-- A read that ends with a NUL has its first message all in it. -/
theorem prefix_of_whole (hpre : m.bytes <+: c.over buf) (hwhole : c.bytes.getLast? = some 0) : m.bytes <+: c.bytes := by
  have hmem : (0 : UInt8) ∈ c.bytes := List.mem_of_getLast? hwhole
  have hfirst : first 0 c.bytes = some (c.bytes.takeWhile (· ≠ 0) ++ [0]) := if_pos hmem
  obtain ⟨hframe, hpre'⟩ := Framing.first_spec hfirst
  have heq := m.frame.unique hframe hpre (hpre'.trans (List.prefix_append c.bytes _))
  rw [heq]
  exact hpre'

theorem prefixes_of_aligned (h : Aligned buf ms cs) (hwhole : ∀ c ∈ cs, c.bytes.getLast? = some 0) :
    List.Forall₂ (· <+: ·) (ms.map Message.bytes) (cs.map Chunk.bytes) := by
  induction cs generalizing buf ms with
  | nil =>
    cases ms with
    | nil => exact List.Forall₂.nil
    | cons m ms => exact h.elim
  | cons c cs ih =>
    cases ms with
    | nil => exact h.elim
    | cons m ms =>
      exact List.Forall₂.cons (prefix_of_whole h.1 (hwhole c List.mem_cons_self))
        (ih h.2 fun c' hc' => hwhole c' (List.mem_cons_of_mem c hc'))

/-- Where the reads are a cut of the stream and none of them ends inside a message, each must be one message. -/
theorem aligned_iff_of_whole (hcut : (cs.map Chunk.bytes).flatten = stream ms)
    (hwhole : ∀ c ∈ cs, c.bytes.getLast? = some 0) :
    Aligned buf ms cs ↔ cs.map Chunk.bytes = ms.map Message.bytes := by
  constructor
  · intro h
    exact (Framing.eq_of_prefixes (prefixes_of_aligned h hwhole) hcut).symm
  · exact aligned_of_one_each

/-- What a round writes is what it has read if and only if that is one message. -/
theorem echo_iff : written buf cs = some (cs.map Chunk.bytes) ↔ ∀ c ∈ cs, IsFrame 0 c.bytes := by
  constructor
  · intro h c hc
    exact written_frames h c.bytes (List.mem_map_of_mem hc)
  · intro h
    induction cs generalizing buf with
    | nil => rfl
    | cons c cs ih =>
      have hf : writeString (c.over buf) = some c.bytes :=
        writeString_eq_some_iff.2 ⟨h c List.mem_cons_self, List.prefix_append c.bytes _⟩
      have hrest := @ih (c.over buf) fun c' hc' => h c' (List.mem_cons_of_mem c hc')
      unfold written
      rw [hf, Option.bind_some, hrest, Option.map_some, List.map_cons]

/-- In a cut of the stream each read is one message if it is a string with its NUL. -/
theorem one_each_iff (hcut : (cs.map Chunk.bytes).flatten = stream ms) :
    cs.map Chunk.bytes = ms.map Message.bytes ↔ ∀ c ∈ cs, IsFrame 0 c.bytes := by
  have hmessages : ∀ g ∈ ms.map Message.bytes, IsFrame 0 g := by
    intro g hg
    obtain ⟨m, -, rfl⟩ := List.mem_map.1 hg
    exact m.frame
  constructor
  · intro h c hc
    exact hmessages c.bytes (h ▸ List.mem_map_of_mem hc)
  · intro h
    refine Framing.flatten_inj (fun g hg => ?_) hmessages hcut
    obtain ⟨c, hc, rfl⟩ := List.mem_map.1 hg
    exact h c hc

/-- **Relaying.** Whatever messages the clients write and however the stream is cut into reads: if each read is one
message, the output is the stream, and each round writes what it has read only then; where no read ends inside a
message, the output is the stream only then. -/
theorem relay_law (hs : s.exited = false) (hok : Read.error ∉ reads)
    (hcut : ((chunks reads).map Chunk.bytes).flatten = stream ms) :
    ((chunks reads).map Chunk.bytes = ms.map Message.bytes → Relays s reads ms) ∧
      (written s.buf (chunks reads) = some ((chunks reads).map Chunk.bytes) ↔
        (chunks reads).map Chunk.bytes = ms.map Message.bytes) ∧
      ((∀ c ∈ chunks reads, c.bytes.getLast? = some 0) →
        (Relays s reads ms ↔ (chunks reads).map Chunk.bytes = ms.map Message.bytes)) := by
  rw [relays_iff_aligned hs hok]
  refine ⟨aligned_of_one_each, ?_, aligned_iff_of_whole hcut⟩
  rw [one_each_iff hcut]
  exact echo_iff

/-- The server at its start, its buffer filled with NULs. -/
def zeroed : Server where
  buf := List.replicate 512 0
  size := List.length_replicate
  out := []
  exited := false

/-- `"a"` and `"ab"` with their NULs. -/
def msgA : Message := ⟨[97, 0], [97], by decide, rfl⟩

def msgAB : Message := ⟨[97, 98, 0], [97, 98], by decide, rfl⟩

theorem relay_law_sample :
    Relays zeroed [.bytes ⟨[97, 0], by decide, by decide⟩, .eof, .bytes ⟨[97, 98, 0], by decide, by decide⟩]
      [msgA, msgAB] :=
  (relay_law rfl (by simp) rfl).1 rfl

/-- Two messages in one read: the second one is lost. A message in two reads: a NUL is written in the middle of it. -/
theorem lost_and_split :
    ((Run.exec step [.bytes ⟨[97, 0, 97, 98, 0], by decide, by decide⟩] zeroed).map Server.out = some [97, 0] ∧
      ¬ Relays zeroed [.bytes ⟨[97, 0, 97, 98, 0], by decide, by decide⟩] [msgA, msgAB]) ∧
    (Run.exec step [.bytes ⟨[97], by decide, by decide⟩, .bytes ⟨[98, 0], by decide, by decide⟩] zeroed).map
        Server.out = some [97, 0, 98, 0] ∧
      ¬ Relays zeroed [.bytes ⟨[97], by decide, by decide⟩, .bytes ⟨[98, 0], by decide, by decide⟩] [msgAB] := by
  have hlost : (Run.exec step [.bytes ⟨[97, 0, 97, 98, 0], by decide, by decide⟩] zeroed).map Server.out =
      some [97, 0] := by
    decide +kernel
  have hsplit : (Run.exec step [.bytes ⟨[97], by decide, by decide⟩, .bytes ⟨[98, 0], by decide, by decide⟩]
      zeroed).map Server.out = some [97, 0, 98, 0] := by
    decide +kernel
  refine ⟨⟨hlost, ?_⟩, hsplit, ?_⟩
  · rintro ⟨s', hrun, hout⟩
    rw [hrun, Option.map_some, hout] at hlost
    exact absurd hlost (by decide)
  · rintro ⟨s', hrun, hout⟩
    rw [hrun, Option.map_some, hout] at hsplit
    exact absurd hsplit (by decide)

end FifoServer
