import LinuxLearning.Lib.Errno
import LinuxLearning.Lib.Run
/-!
# `uart_pci_latest_March2011.c`: `uart_open` and `uart_release`, one call after the other

| here | there (`KernelDrivers_March2011/uart_pci_latest_March2011.c`) |
| --- | --- |
| `Counter`, `Counters`      | `r_count`, `rw_count`, `w_count` of a `P_DEV` (`:51`) |
| `branch`                   | the three tests of `f_flags` (`:182`, `:198`, `:211`) |
| `uart_open`                | `:174-224`, from the counters of the device on |
| `uart_release`             | `:226-249`, on the counters that its pointer `dev` hits |
| `initial`                  | `pci_dev_init` sets the counters to 0 (`:268-270`) |
| `step`                     | the kernel opens a file, and releases an open one |

`uart_open` has no `return` after the three tests: `none` is the end of the function without a value. In
`uart_release` the pointer `dev` is never set; the line that should read it from `private_data` writes it
there. What it holds is an input here, `some d` if it is the address of device `d`. `dev->W_count` (`:245`)
names no member and is read as `w_count`.

`inode->i_cdev` is taken to be the member `cdev` of the device, so that `container_of` (`:179`) gives the device of
the file. That is what the two functions rely on; `cdev_add` (`:448`, `:463`) registers the whole `P_DEV` instead.

* `branch_eq` — the mode `O_RDONLY`, which is 0, is never recognised;
* `uart_law` — the counters count the open files, and opens are granted as they should be, in exactly the runs
  that open nothing read-only and whose releases happen to find the right device in `dev`.
-/

namespace Uart

open Errno (EBUSY)

def O_RDONLY : ℕ := 0

def O_WRONLY : ℕ := 1

def O_RDWR : ℕ := 2

/-- The bits of the access mode. -/
def O_ACCMODE : ℕ := 3

inductive Counter
  | r_count | rw_count | w_count
deriving DecidableEq, Repr

/-- The values of the three counters of a device. -/
abbrev Counters := Counter → ℤ

/-- `atomic_inc` -/
def Counters.inc (c : Counters) (k : Counter) : Counters := Function.update c k (c k + 1)

/-- `atomic_dec` -/
def Counters.dec (c : Counters) (k : Counter) : Counters := Function.update c k (c k - 1)

/-! ## The two functions -/

/-- Which of the three tests of `f_flags` succeeds first. -/
inductive Branch
  | rdwr | rdonly | wronly | missed
deriving DecidableEq, Repr

def branch (f_flags : ℕ) : Branch :=
  if f_flags &&& O_RDWR ≠ 0 then .rdwr
  else if f_flags &&& O_RDONLY ≠ 0 then .rdonly
  else if f_flags &&& O_WRONLY ≠ 0 then .wronly
  else .missed

/-- The value returned, if one is, and the counters afterwards. -/
def uart_open (f_flags : ℕ) (c : Counters) : Option ℤ × Counters :=
  match branch f_flags with
  | .rdwr =>
    if c .rw_count = 0 ∧ c .r_count = 0 ∧ c .w_count = 0 then
      (some 0, ((c.inc .rw_count).inc .r_count).inc .w_count)
    else (some (-EBUSY), c)
  | .rdonly => if c .r_count = 0 then (some 0, c.inc .r_count) else (some (-EBUSY), c)
  | .wronly => if c .w_count = 0 then (some 0, c.inc .w_count) else (some (-EBUSY), c)
  | .missed => (none, c)

def uart_release (f_flags : ℕ) (c : Counters) : Option ℤ × Counters :=
  match branch f_flags with
  | .rdwr => (some 0, ((c.dec .rw_count).dec .r_count).dec .w_count)
  | .rdonly => (some 0, c.dec .r_count)
  | .wronly => (some 0, c.dec .w_count)
  | .missed => (none, c)

/-! ## The files -/

/-- The flags of an open call: one of the three access modes, and any other bits. -/
def Flags := { f_flags : ℕ // f_flags &&& O_ACCMODE ≠ 3 }

def Flags.mode (f : Flags) : ℕ := f.1 &&& O_ACCMODE

def Flags.read (f : Flags) : Bool := f.mode = O_RDONLY ∨ f.mode = O_RDWR

def Flags.write (f : Flags) : Bool := f.mode = O_WRONLY ∨ f.mode = O_RDWR

section

variable {F D : Type*} [DecidableEq F] [DecidableEq D]

/-- An open file, its device and its flags. -/
structure File (F D : Type*) where
  id : F
  dev : D
  f_flags : Flags

structure State (F D : Type*) where
  counters : D → Counters
  /-- `file->private_data` -/
  private_data : F → Option D
  /-- the files whose `uart_open` has returned 0 and which are not released yet -/
  opened : List (File F D)

/-- The devices after `pci_dev_init`. -/
def initial : State F D := ⟨fun _ _ => 0, fun _ => none, []⟩

inductive Event (F D : Type*)
  | open (file : F) (dev : D) (f_flags : Flags)
  /-- `dev` is what the pointer of `uart_release` happens to hold -/
  | release (file : F) (dev : Option D)

/-- A file that is not open is opened, an open one is released. -/
def step : Event F D → State F D → Option (State F D)
  | .open file dev f_flags, s =>
    if s.opened.any (fun f => f.id = file) then none
    else
      let result := uart_open f_flags.1 (s.counters dev)
      some {
        counters := Function.update s.counters dev result.2
        private_data := Function.update s.private_data file (some dev)
        opened := if result.1 = some 0 then ⟨file, dev, f_flags⟩ :: s.opened else s.opened }
  | .release file dev, s =>
    (s.opened.find? fun f => f.id = file).map fun f => {
      counters := match dev with
        | some d => Function.update s.counters d (uart_release f.f_flags.1 (s.counters d)).2
        | none => s.counters
      private_data := Function.update s.private_data file dev
      opened := s.opened.eraseP fun f => f.id = file }

/-- The open files of a device. -/
def State.files (s : State F D) (d : D) : List (File F D) := s.opened.filter fun f => f.dev = d

/-- The number of open files with read access. -/
def State.readers (s : State F D) (d : D) : ℕ := (s.files d).countP fun f => f.f_flags.read

/-- The number of open files with write access. -/
def State.writers (s : State F D) (d : D) : ℕ := (s.files d).countP fun f => f.f_flags.write

/-- The counters of every device count its open files, and are 0 or 1. -/
def Counted (s : State F D) : Prop :=
  ∀ d, s.counters d .r_count = s.readers d ∧ s.counters d .w_count = s.writers d ∧
    s.readers d ≤ 1 ∧ s.writers d ≤ 1

/-- An open file of the device has an access that is asked for. -/
def Conflict (s : State F D) (d : D) (f_flags : Flags) : Prop :=
  ∃ f ∈ s.files d, f.f_flags.read = true ∧ f_flags.read = true ∨ f.f_flags.write = true ∧ f_flags.write = true

/-- The call does what it should: an open returns 0 or `-EBUSY`, 0 if and only if there is no conflict, and
after the call the counters are right. -/
def Kept (e : Event F D) (s : State F D) : Prop :=
  (∀ file dev f_flags, e = .open file dev f_flags →
    ((uart_open f_flags.1 (s.counters dev)).1 = some 0 ∨
      (uart_open f_flags.1 (s.counters dev)).1 = some (-EBUSY)) ∧
    ((uart_open f_flags.1 (s.counters dev)).1 = some 0 ↔ ¬ Conflict s dev f_flags)) ∧
  ∀ s', step e s = some s' → Counted s'

/-- The call opens for writing, or its pointer is the device of the file. -/
def Spared : Event F D → State F D → Prop
  | .open _ _ f_flags, _ => f_flags.mode ≠ O_RDONLY
  | .release file dev, s => ∀ f, (s.opened.find? fun f => f.id = file) = some f → dev = some f.dev

end

/-! ## The access mode -/

/-- The tests look at the access mode only. -/
theorem and_mode (f : Flags) {m : ℕ} (hm : O_ACCMODE &&& m = m) : f.1 &&& m = f.mode &&& m := by
  unfold Flags.mode
  rw [Nat.land_assoc, hm]

theorem mode_cases (f : Flags) : f.mode = O_RDONLY ∨ f.mode = O_WRONLY ∨ f.mode = O_RDWR := by
  have hle : f.mode ≤ 3 := Nat.and_le_right
  have hne : f.mode ≠ 3 := f.2
  unfold O_RDONLY O_WRONLY O_RDWR
  omega

/-- **The tests of the flags** miss the mode `O_RDONLY`. -/
theorem branch_eq (f : Flags) : branch f.1 =
    if f.mode = O_RDWR then .rdwr else if f.mode = O_WRONLY then .wronly else .missed := by
  unfold branch
  have hrdwr : O_ACCMODE &&& O_RDWR = O_RDWR := by decide
  have hrdonly : O_ACCMODE &&& O_RDONLY = O_RDONLY := by decide
  have hwronly : O_ACCMODE &&& O_WRONLY = O_WRONLY := by decide
  rw [and_mode f hrdwr, and_mode f hrdonly, and_mode f hwronly]
  rcases mode_cases f with h | h | h
  · rw [h]
    decide
  · rw [h]
    decide
  · rw [h]
    decide

theorem read_of_mode {f : Flags} {m : ℕ} (h : f.mode = m) : f.read = decide (m = O_RDONLY ∨ m = O_RDWR) := by
  unfold Flags.read
  rw [h]

theorem write_of_mode {f : Flags} {m : ℕ} (h : f.mode = m) : f.write = decide (m = O_WRONLY ∨ m = O_RDWR) := by
  unfold Flags.write
  rw [h]

/-! ## The counters of one device -/

section

variable {F D : Type*} {f : File F D}

/-- The counters of a device with these open files: none, or one that is open for writing. -/
inductive Holds (c : Counters) : List (File F D) → Prop
  | free : c .r_count = 0 → c .rw_count = 0 → c .w_count = 0 → Holds c []
  | rdwr (f : File F D) : f.f_flags.mode = O_RDWR →
      c .r_count = 1 → c .rw_count = 1 → c .w_count = 1 → Holds c [f]
  | wronly (f : File F D) : f.f_flags.mode = O_WRONLY →
      c .r_count = 0 → c .rw_count = 0 → c .w_count = 1 → Holds c [f]

/-- An open for writing of a free device is granted, one of a device in use is refused. -/
theorem open_cases {f_flags : Flags} {c : Counters} {files : List (File F D)} (h : Holds c files)
    (hmode : f_flags.mode ≠ O_RDONLY) (g : File F D) (hg : g.f_flags = f_flags) :
    files = [] ∧ (uart_open f_flags.1 c).1 = some 0 ∧ Holds (uart_open f_flags.1 c).2 [g] ∨
      (∃ f, files = [f] ∧ f.f_flags.write = true) ∧ uart_open f_flags.1 c = (some (-EBUSY), c) := by
  have hcases := (mode_cases f_flags).resolve_left hmode
  unfold uart_open
  rw [branch_eq]
  cases h with
  | free hr hrw hw =>
    refine .inl ⟨rfl, ?_⟩
    rcases hcases with hw' | hrw'
    · rw [hw']
      have hne : O_WRONLY ≠ O_RDWR := by decide
      simp only [hne, if_true, if_false, hw]
      refine ⟨trivial, .wronly g (hg ▸ hw') ?_ ?_ ?_⟩
      · simpa [Counters.inc] using hr
      · simpa [Counters.inc] using hrw
      · simp [Counters.inc, hw]
    · rw [hrw']
      simp only [if_true, hr, hrw, hw, and_self]
      refine ⟨trivial, .rdwr g (hg ▸ hrw') ?_ ?_ ?_⟩
      · simp [Counters.inc, hr]
      · simp [Counters.inc, hrw]
      · simp [Counters.inc, hw]
  | rdwr f hf hr hrw hw =>
    refine .inr ⟨⟨f, rfl, by simp [write_of_mode hf]⟩, ?_⟩
    rcases hcases with h | h
    · simp [h, hw, O_WRONLY, O_RDWR]
    · simp [h, hw]
  | wronly f hf hr hrw hw =>
    refine .inr ⟨⟨f, rfl, by simp [write_of_mode hf]⟩, ?_⟩
    rcases hcases with h | h
    · simp [h, hw, O_WRONLY, O_RDWR]
    · simp [h, hw]

/-- The release of the only file clears the counters. -/
theorem release_holds {c : Counters} (h : Holds c [f]) :
    Holds (uart_release f.f_flags.1 c).2 ([] : List (File F D)) := by
  unfold uart_release
  rw [branch_eq]
  cases h with
  | rdwr _ hf hr hrw hw =>
    rw [hf]
    simp only [if_true]
    refine .free ?_ ?_ ?_
    · simp [Counters.dec, hr]
    · simp [Counters.dec, hrw]
    · simp [Counters.dec, hw]
  | wronly _ hf hr hrw hw =>
    rw [hf]
    have hne : O_WRONLY ≠ O_RDWR := by decide
    simp only [hne, if_true, if_false]
    refine .free ?_ ?_ ?_
    · simp [Counters.dec, hr]
    · simp [Counters.dec, hrw]
    · simp [Counters.dec, hw]

/-! ## The invariant -/

variable [DecidableEq D] {s s' : State F D}

def Inv (s : State F D) : Prop := ∀ d, Holds (s.counters d) (s.files d)

theorem counted_of_inv (h : Inv s) : Counted s := by
  intro d
  have hd := h d
  unfold State.readers State.writers
  generalize s.files d = files at *
  cases hd with
  | free hr hrw hw => simp [hr, hw]
  | rdwr f hmode hr hrw hw =>
    have hread := read_of_mode hmode
    have hwrite := write_of_mode hmode
    simp [hr, hw, hread, hwrite]
  | wronly f hmode hr hrw hw =>
    have hread := read_of_mode hmode
    have hwrite := write_of_mode hmode
    simp [hr, hw, hread, hwrite, O_WRONLY, O_RDONLY, O_RDWR]

theorem inv_initial : Inv (initial : State F D) := fun _ => .free rfl rfl rfl

/-! ## Opening -/

variable [DecidableEq F] {file : F}

/-- The files of the devices after an open call. -/
theorem files_open {f_flags : Flags} {dev : D} (hs : step (.open file dev f_flags) s = some s') (d : D) :
    s'.files d = if d = dev ∧ (uart_open f_flags.1 (s.counters dev)).1 = some 0 then
      ⟨file, dev, f_flags⟩ :: s.files d else s.files d := by
  simp only [step, Option.ite_none_left_eq_some, Option.some.injEq] at hs
  obtain ⟨-, rfl⟩ := hs
  unfold State.files
  by_cases hresult : (uart_open f_flags.1 (s.counters dev)).1 = some 0
  · by_cases hd : dev = d
    · subst hd
      simp [hresult]
    · have hne : d ≠ dev := fun h => hd h.symm
      simp [hresult, hd, hne]
  · simp [hresult]

theorem counters_open {f_flags : Flags} {dev : D} (hs : step (.open file dev f_flags) s = some s') :
    s'.counters = Function.update s.counters dev (uart_open f_flags.1 (s.counters dev)).2 := by
  simp only [step, Option.ite_none_left_eq_some, Option.some.injEq] at hs
  obtain ⟨-, rfl⟩ := hs
  rfl

/-- **An open call** in a state with the invariant. -/
theorem open_spec (h : Inv s) (file : F) {f_flags : Flags} (dev : D) (hmode : f_flags.mode ≠ O_RDONLY) :
    ((uart_open f_flags.1 (s.counters dev)).1 = some 0 ∧ ¬ Conflict s dev f_flags ∨
      (uart_open f_flags.1 (s.counters dev)).1 = some (-EBUSY) ∧ Conflict s dev f_flags) ∧
      ∀ s', step (.open file dev f_flags) s = some s' → Inv s' := by
  have hwrite : f_flags.write = true := by
    rcases (mode_cases f_flags).resolve_left hmode with hm | hm
    · simp [write_of_mode hm]
    · simp [write_of_mode hm]
  constructor
  · have hd := h dev
    unfold Conflict
    generalize s.files dev = files at *
    rcases open_cases hd hmode ⟨file, dev, f_flags⟩ rfl with ⟨rfl, hresult, -⟩ | ⟨⟨f, rfl, hf⟩, hresult⟩
    · exact .inl ⟨hresult, by simp⟩
    · rw [hresult]
      exact .inr ⟨rfl, f, List.mem_singleton_self f, .inr ⟨hf, hwrite⟩⟩
  · intro s' hs d
    rw [files_open hs, counters_open hs]
    by_cases hd : d = dev
    · subst hd
      rw [Function.update_self]
      rcases open_cases (h d) hmode ⟨file, d, f_flags⟩ rfl with ⟨hfiles, hresult, hholds⟩ | ⟨-, hresult⟩
      · rw [if_pos ⟨rfl, hresult⟩, hfiles]
        exact hholds
      · rw [hresult, if_neg]
        · exact h d
        · simp [EBUSY]
    · rw [Function.update_of_ne hd, if_neg fun hand => hd hand.1]
      exact h d

/-! ## Releasing -/

/-- The released file is taken out of the list. -/
theorem files_release {dev : Option D} (hf : (s.opened.find? fun f => f.id = file) = some f)
    (hs : step (.release file dev) s = some s') :
    (∀ d, d ≠ f.dev → s'.files d = s.files d) ∧
      ∃ before after, s.files f.dev = before ++ f :: after ∧ s'.files f.dev = before ++ after := by
  simp only [step, hf, Option.map_some, Option.some.injEq] at hs
  subst hs
  obtain ⟨hid, before, after, hopened, hbefore⟩ := List.find?_eq_some_iff_append.1 hf
  have herase : (s.opened.eraseP fun f => f.id = file) = before ++ after := by
    rw [hopened, List.eraseP_append_right]
    · simp [of_decide_eq_true hid]
    · intro g hg
      simpa using hbefore g hg
  unfold State.files
  simp only [herase]
  constructor
  · intro d hd
    have hne : f.dev ≠ d := fun h => hd h.symm
    rw [hopened]
    simp [hne]
  · refine ⟨before.filter fun g => g.dev = f.dev, after.filter fun g => g.dev = f.dev, ?_, ?_⟩
    · rw [hopened]
      simp
    · simp

theorem counters_release {dev : Option D} (hf : (s.opened.find? fun f => f.id = file) = some f)
    (hs : step (.release file dev) s = some s') {d : D} (hd : dev ≠ some d) : s'.counters d = s.counters d := by
  simp only [step, hf, Option.map_some, Option.some.injEq] at hs
  subst hs
  cases dev with
  | none => rfl
  | some d' =>
    have hne : d ≠ d' := fun h => hd (congrArg some h.symm)
    simp [Function.update_of_ne hne]

/-- A device has one open file at most, so none after it was released. -/
theorem released_alone (h : Inv s) {dev : Option D} (hf : (s.opened.find? fun f => f.id = file) = some f)
    (hs : step (.release file dev) s = some s') :
    s.files f.dev = [f] ∧ s'.files f.dev = [] := by
  obtain ⟨-, before, after, hfiles, hfiles'⟩ := files_release hf hs
  have hd := h f.dev
  rw [hfiles] at hd
  have hone : before = [] ∧ after = [] := by
    generalize hl : before ++ f :: after = files at hd
    cases hd with
    | free => simp at hl
    | rdwr g =>
      have hlen := congrArg List.length hl
      simp at hlen
      exact ⟨List.length_eq_zero_iff.1 (by omega), List.length_eq_zero_iff.1 (by omega)⟩
    | wronly g =>
      have hlen := congrArg List.length hl
      simp at hlen
      exact ⟨List.length_eq_zero_iff.1 (by omega), List.length_eq_zero_iff.1 (by omega)⟩
  rw [hfiles, hfiles', hone.1, hone.2]
  exact ⟨rfl, rfl⟩

/-- A release that hits its device keeps the invariant. -/
theorem inv_release (h : Inv s) (hf : (s.opened.find? fun f => f.id = file) = some f)
    (hs : step (.release file (some f.dev)) s = some s') : Inv s' := by
  obtain ⟨hothers, -⟩ := files_release hf hs
  obtain ⟨hfiles, hfiles'⟩ := released_alone h hf hs
  intro d
  by_cases hd : d = f.dev
  · subst hd
    have hcounters : s'.counters f.dev = (uart_release f.f_flags.1 (s.counters f.dev)).2 := by
      simp only [step, hf, Option.map_some, Option.some.injEq] at hs
      subst hs
      simp
    rw [hfiles', hcounters]
    apply release_holds
    rw [← hfiles]
    exact h f.dev
  · have hne : some f.dev ≠ some d := fun heq => hd (Option.some.inj heq).symm
    rw [hothers d hd, counters_release hf hs hne]
    exact h d

/-- A release that misses its device leaves the counters of a file that is closed. -/
theorem not_counted_release (h : Inv s) {dev : Option D} (hf : (s.opened.find? fun f => f.id = file) = some f)
    (hdev : dev ≠ some f.dev) (hs : step (.release file dev) s = some s') : ¬ Counted s' := by
  intro hcounted
  obtain ⟨hfiles, hfiles'⟩ := released_alone h hf hs
  have hw := (hcounted f.dev).2.1
  rw [counters_release hf hs hdev] at hw
  unfold State.writers at hw
  rw [hfiles'] at hw
  have hd := h f.dev
  rw [hfiles] at hd
  cases hd with
  | rdwr _ _ _ _ hw' => simp [hw'] at hw
  | wronly _ _ _ _ hw' => simp [hw'] at hw

/-! ## Runs -/

theorem inv_step (e : Event F D) (s s' : State F D) (hspared : Spared e s) (h : Inv s)
    (hs : step e s = some s') : Inv s' := by
  cases e with
  | «open» file dev f_flags => exact (open_spec h file dev hspared).2 s' hs
  | release file dev =>
    obtain ⟨f, hf, -⟩ := Option.map_eq_some_iff.1 hs
    rw [hspared f hf] at hs
    exact inv_release h hf hs

/-- **One call** does what it should if and only if it is spared. -/
theorem kept_iff (e : Event F D) (s : State F D) (h : Inv s) : Kept e s ↔ Spared e s := by
  constructor
  · rintro ⟨hopen, hcounted⟩
    cases e with
    | «open» file dev f_flags =>
      intro hmode
      obtain ⟨hresult, -⟩ := hopen file dev f_flags rfl
      have hmissed : (uart_open f_flags.1 (s.counters dev)).1 = none := by
        unfold uart_open
        rw [branch_eq, hmode]
        rfl
      rw [hmissed] at hresult
      simp at hresult
    | release file dev =>
      intro f hf
      by_contra hdev
      have hstep : ∃ s', step (.release file dev) s = some s' := by simp [step, hf]
      obtain ⟨s', hs⟩ := hstep
      exact not_counted_release h hf hdev hs (hcounted s' hs)
  · intro hspared
    refine ⟨?_, fun s' hs => counted_of_inv (inv_step e s s' hspared h hs)⟩
    rintro file dev f_flags rfl
    have hne : some (-EBUSY) ≠ some 0 := by decide
    rcases (open_spec h file dev hspared).1 with ⟨hresult, hfree⟩ | ⟨hresult, hconflict⟩
    · exact ⟨.inl hresult, iff_of_true hresult hfree⟩
    · rw [hresult]
      exact ⟨.inr rfl, iff_of_false hne fun hfree => hfree hconflict⟩

/-- **Exclusive opens.** In a run of `uart_open` and `uart_release` every call does what it should if and only
if every open is for writing and every release finds its device in the pointer that is never set. -/
theorem uart_law (es : List (Event F D)) :
    Run.Along step Kept es initial ↔ Run.Along step Spared es initial :=
  Run.along_iff inv_step kept_iff inv_initial

/-- The first open of all, for reading only: the function ends without a return value. -/
theorem rdonly_missed : ¬ Run.Along step Kept
    [(.open 1 1 ⟨O_RDONLY, by decide⟩ : Event ℕ ℕ)] initial := by
  rintro ⟨⟨hopen, -⟩, -⟩
  have hresult := (hopen 1 1 ⟨O_RDONLY, by decide⟩ rfl).1
  revert hresult
  decide

end

end Uart
