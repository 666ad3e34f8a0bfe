import LinuxLearning.Lib.Errno
import LinuxLearning.Lib.Ledger
/-!
# `uart_pci_latest_March2011.c`: `pci_probe`, `pci_dev_init` and `pci_remove`

| here | there (`KernelDrivers_March2011/uart_pci_latest_March2011.c`) |
| --- | --- |
| `pci_dev_init`            | `:263-289`, the pointers it stores in a `P_DEV` and the `return` values |
| `dev_kfifos`              | `:290-310`, the same for its second half |
| `pci_remove`              | `:485-496` |
| `pci_probe`               | `:326-381`, up to the diagnosis of both ports |
| `probe_devs`              | `:382-418`, the device numbers and the two `pci_dev_init` |
| `probe_irqs`              | `:420-476`, the interrupt line and the two `cdev_add` |
| `Outcomes`, `Allocs`      | what the kernel functions return |
| `Mem`                     | the statics (`:92-97`), with what the driver holds in a ledger (`Lib/Ledger.lean`) |

The functions of the kernel do here what their documentation says.

* `kfifo_init`, with four arguments, returns `ERR_PTR(-ENOMEM)` when it has no memory for the `struct kfifo` and never
  `NULL`; the tests of `:292` and `:300` do not see that. `kfifo_free` frees the buffer too that `kfifo_init` was given.
* `pci_unregister_driver`, which every error path of the probe calls, calls `pci_remove` for each device that is bound;
  the device that is being probed is not bound yet.
* `cdev_add(&my_dev_1, …)` registers the address of the whole structure (`CdevPtr.whole`), `cdev_del(&my_dev_1.cdev)`
  deletes that of its second member (`CdevPtr.member`).

* `pci_probe_spec` — what a probe leaves behind, by the call that fails first;
* `probe_law` — the runs in which nothing is leaked: no device is ever removed, and only some calls fail, as long as no
  device is bound.
-/

namespace Uart.Probe

open Ledger
open Errno (ENOMEM EBUSY ENODEV)

/-- The two ports of the card. -/
inductive Dev
  | my_dev_1 | my_dev_2
deriving DecidableEq, Repr

inductive CdevPtr
  /-- `&my_dev_1` -/
  | whole (d : Dev)
  /-- `&my_dev_1.cdev` -/
  | member (d : Dev)
deriving DecidableEq, Repr

inductive Resource (P : Type*)
  | device (pdev : P)
  | region (pdev : P) (bar : ℕ)
  | chrdev (dev : ℕ)
  | irq (dev_id : Dev)
  | cdev (p : CdevPtr)
  | buffer (addr : ℕ)
  | kfifo (addr : ℕ)
deriving DecidableEq

def Resource.addr {P : Type*} : Resource P → Option ℕ
  | .buffer a | .kfifo a => some a
  | _ => none

/-- A `struct kfifo *`. -/
inductive KfifoPtr
  | null
  /-- `ERR_PTR(errno)` -/
  | err (errno : ℤ)
  | kfifo (addr buffer : ℕ)
deriving DecidableEq, Repr

/-- The pointers of a `P_DEV`. -/
structure P_DEV where
  wr_buff : Option ℕ
  rd_buff : Option ℕ
  write_kfifo : KfifoPtr
  read_kfifo : KfifoPtr

structure Mem (P : Type*) where
  ledger : Ledger (Resource P)
  pdev : Option P
  uart_dev : ℕ
  devs : Dev → P_DEV

/-- Whether the two `kmalloc` and the two `kfifo_init` of `pci_dev_init` succeed. -/
structure Allocs where
  wr_buff : Bool
  rd_buff : Bool
  write_kfifo : Bool
  read_kfifo : Bool

structure Outcomes where
  pci_enable_device : ℤ
  pci_request_region : ℕ → ℤ
  device_diagnos_start : ℕ → ℤ
  alloc_chrdev_region : ℤ
  /-- the number `alloc_chrdev_region` stores -/
  uart_dev : ℕ
  pci_dev_init : Dev → Allocs
  request_irq : Dev → ℤ
  cdev_add : Dev → ℤ

section

variable {P : Type*} [DecidableEq P]

def Mem.acquire (s : Mem P) (r : Resource P) : Mem P := { s with ledger := s.ledger.acquire r }

def Mem.alloc (s : Mem P) (r : ℕ → Resource P) : Mem P := { s with ledger := s.ledger.alloc r }

def Mem.releases (s : Mem P) (rs : List (Resource P)) : Mem P := { s with ledger := s.ledger.releases rs }

def Mem.set (s : Mem P) (d : Dev) (f : P_DEV → P_DEV) : Mem P :=
  { s with devs := Function.update s.devs d (f (s.devs d)) }

/-! ## The driver -/

def kfifo_init (ok : Bool) (buffer : ℕ) (s : Mem P) : KfifoPtr × Mem P :=
  if ok then (.kfifo s.ledger.next buffer, s.alloc .kfifo) else (.err (-ENOMEM), s)

def kfifo_free (fifo : KfifoPtr) (s : Mem P) : Mem P :=
  match fifo with
  | .kfifo addr buffer => s.releases [.buffer buffer, .kfifo addr]
  | _ => s

/-- The second half of `pci_dev_init`. -/
def dev_kfifos (d : Dev) (o : Allocs) (wr_buff rd_buff : ℕ) (s : Mem P) : ℤ × Mem P :=
  let (write_kfifo, s) := kfifo_init o.write_kfifo wr_buff s
  let s := s.set d fun p => { p with write_kfifo := write_kfifo }
  if write_kfifo = .null then (-1, s.releases [.buffer wr_buff, .buffer rd_buff])
  else
    let (read_kfifo, s) := kfifo_init o.read_kfifo rd_buff s
    let s := s.set d fun p => { p with read_kfifo := read_kfifo }
    if read_kfifo = .null then (-1, (kfifo_free write_kfifo s).releases [.buffer rd_buff])
    else (0, s)

def pci_dev_init (d : Dev) (o : Allocs) (s : Mem P) : ℤ × Mem P :=
  if !o.wr_buff then (-1, s.set d fun p => { p with wr_buff := none })
  else
    let wr_buff := s.ledger.next
    let s := (s.alloc .buffer).set d fun p => { p with wr_buff := some wr_buff }
    if !o.rd_buff then
      let s := s.set d fun p => { p with rd_buff := none }
      (-1, s.releases [.buffer wr_buff])
    else
      let rd_buff := s.ledger.next
      let s := (s.alloc .buffer).set d fun p => { p with rd_buff := some rd_buff }
      dev_kfifos d o wr_buff rd_buff s

/-- What `pci_remove` releases. `pdev` is the device probed last; with `NULL` the kernel stops at the regions. -/
def removed (s : Mem P) : List (Resource P) :=
  [.irq .my_dev_1, .irq .my_dev_2, .chrdev s.uart_dev, .cdev (.member .my_dev_1), .cdev (.member .my_dev_2)] ++
    s.pdev.toList.flatMap fun pdev => [.region pdev 0, .region pdev 1, .device pdev]

/-- The argument of the function is not used. -/
def pci_remove (s : Mem P) : Mem P := s.releases (removed s)

/-- `pci_unregister_driver(&driver)`, with `bound` devices bound. -/
def pci_unregister_driver (bound : ℕ) (s : Mem P) : Mem P := pci_remove^[bound] s

/-- The interrupts and the character devices. -/
def probe_irqs (bound : ℕ) (pdev : P) (o : Outcomes) (s : Mem P) : ℤ × Mem P :=
  if o.request_irq .my_dev_1 < 0 then
    (-EBUSY, pci_unregister_driver bound
      (s.releases [.chrdev s.uart_dev, .region pdev 0, .region pdev 1, .device pdev]))
  else
    let s := s.acquire (.irq .my_dev_1)
    if o.request_irq .my_dev_2 < 0 then
      (-EBUSY, pci_unregister_driver bound
        (s.releases [.irq .my_dev_1, .chrdev s.uart_dev, .region pdev 0, .region pdev 1, .device pdev]))
    else
      let s := s.acquire (.irq .my_dev_2)
      if o.cdev_add .my_dev_1 < 0 then
        (-EBUSY, pci_unregister_driver bound (s.releases
          [.irq .my_dev_1, .irq .my_dev_2, .chrdev s.uart_dev, .region pdev 0, .region pdev 1, .device pdev]))
      else
        let s := s.acquire (.cdev (.whole .my_dev_1))
        if o.cdev_add .my_dev_2 < 0 then
          (-EBUSY, pci_unregister_driver bound (s.releases
            [.irq .my_dev_1, .irq .my_dev_2, .chrdev s.uart_dev, .cdev (.member .my_dev_1),
              .region pdev 0, .region pdev 1, .device pdev]))
        else (1, s.acquire (.cdev (.whole .my_dev_2)))

/-- The device numbers and the two ports. -/
def probe_devs (bound : ℕ) (pdev : P) (o : Outcomes) (s : Mem P) : ℤ × Mem P :=
  if o.alloc_chrdev_region < 0 then
    (-ENOMEM, pci_unregister_driver bound (s.releases [.region pdev 0, .region pdev 1, .device pdev]))
  else
    let s := { s.acquire (.chrdev o.uart_dev) with uart_dev := o.uart_dev }
    let (ret, s) := pci_dev_init .my_dev_1 (o.pci_dev_init .my_dev_1) s
    if ret < 0 then
      (-ENOMEM, pci_unregister_driver bound
        (s.releases [.chrdev s.uart_dev, .region pdev 0, .region pdev 1, .device pdev]))
    else
      let (ret, s) := pci_dev_init .my_dev_2 (o.pci_dev_init .my_dev_2) s
      if ret < 0 then
        (-ENOMEM, pci_unregister_driver bound
          (s.releases [.chrdev s.uart_dev, .region pdev 0, .region pdev 1, .device pdev]))
      else probe_irqs bound pdev o s

def pci_probe (bound : ℕ) (dev : Option P) (o : Outcomes) (s : Mem P) : ℤ × Mem P :=
  let s := { s with pdev := dev }
  match dev with
  | none => (-ENODEV, pci_unregister_driver bound s)
  | some pdev =>
    if o.pci_enable_device < 0 then (-1, pci_unregister_driver bound s)
    else
      let s := s.acquire (.device pdev)
      if o.pci_request_region 0 < 0 then (-ENOMEM, pci_unregister_driver bound (s.releases [.device pdev]))
      else
        let s := s.acquire (.region pdev 0)
        if o.pci_request_region 1 < 0 then (-ENOMEM, pci_unregister_driver bound (s.releases [.device pdev]))
        else
          let s := s.acquire (.region pdev 1)
          if [0, 1].any fun i => o.device_diagnos_start i < 0 then
            (-ENODEV, pci_unregister_driver bound (s.releases [.region pdev 0, .region pdev 1, .device pdev]))
          else probe_devs bound pdev o s

/-! ## Runs -/

structure State (P : Type*) where
  mem : Mem P
  /-- the devices probed successfully and not removed, with what was held before the probe -/
  bound : List (Option P × Multiset (Resource P))

def initial : State P := ⟨⟨Ledger.empty, none, 0, fun _ => ⟨none, none, .null, .null⟩⟩, []⟩

inductive Event (P : Type*)
  | probe (dev : Option P) (o : Outcomes)
  | remove (dev : Option P)

/-- The probe that a remove of `dev` matches: the last one that is left. -/
def State.find (s : State P) (dev : Option P) : Option (Option P × Multiset (Resource P)) :=
  s.bound.find? fun b => b.1 = dev

/-- A probe by the driver, with the devices that are bound. -/
def State.probe (s : State P) (dev : Option P) (o : Outcomes) : ℤ × Mem P := pci_probe s.bound.length dev o s.mem

/-- Any device can be probed, one that is bound can be removed. After a probe that fails no device is bound. -/
def step : Event P → State P → Option (State P)
  | .probe dev o, s =>
    let result := s.probe dev o
    some ⟨result.2, if result.1 < 0 then [] else (dev, s.mem.ledger.held) :: s.bound⟩
  | .remove dev, s =>
    (s.find dev).map fun _ => ⟨pci_remove s.mem, s.bound.eraseP fun b => b.1 = dev⟩

/-- A probe that fails, or a remove, leads back to what was held before the probe, and nothing is released
that is not held. -/
def Balanced (e : Event P) (s : State P) : Prop :=
  match e with
  | .probe dev o =>
    ((s.probe dev o).1 < 0 → (s.probe dev o).2.ledger.held = s.mem.ledger.held) ∧
      (s.probe dev o).2.ledger.wrong = s.mem.ledger.wrong
  | .remove dev => ∀ b, s.find dev = some b →
    (pci_remove s.mem).ledger.held = b.2 ∧ (pci_remove s.mem).ledger.wrong = s.mem.ledger.wrong

/-- The calls of a probe that can fail. -/
inductive Call
  | null | enable | region_0 | region_1 | diagnos | chrdev | init_1 | init_2 | irq_1 | irq_2 | cdev_1 | cdev_2
deriving DecidableEq, Repr

/-- `pci_dev_init` fails only if it gets no buffers. -/
def Allocs.ok (o : Allocs) : Bool := o.wr_buff && o.rd_buff

/-- The call that fails first. -/
def Outcomes.failure (o : Outcomes) (dev : Option P) : Option Call :=
  if dev = none then some .null
  else if o.pci_enable_device < 0 then some .enable
  else if o.pci_request_region 0 < 0 then some .region_0
  else if o.pci_request_region 1 < 0 then some .region_1
  else if [0, 1].any fun i => o.device_diagnos_start i < 0 then some .diagnos
  else if o.alloc_chrdev_region < 0 then some .chrdev
  else if !(o.pci_dev_init .my_dev_1).ok then some .init_1
  else if !(o.pci_dev_init .my_dev_2).ok then some .init_2
  else if o.request_irq .my_dev_1 < 0 then some .irq_1
  else if o.request_irq .my_dev_2 < 0 then some .irq_2
  else if o.cdev_add .my_dev_1 < 0 then some .cdev_1
  else if o.cdev_add .my_dev_2 < 0 then some .cdev_2
  else none

/-- The error paths that release everything. -/
def Call.undone : Call → Bool
  | .null | .enable | .region_0 | .diagnos | .chrdev | .init_1 => true
  | .region_1 | .init_2 | .irq_1 | .irq_2 | .cdev_1 | .cdev_2 => false

/-- No bound device is removed, and a probe fails at a call whose error path releases everything, with no device
bound, or not at all. -/
def Spared : Event P → State P → Prop
  | .probe dev o, s => ∀ call, o.failure dev = some call → call.undone = true ∧ s.bound = []
  | .remove dev, s => s.find dev = none

/-! ## `pci_dev_init` -/

variable {s₀ s : Mem P} {e : Multiset (Resource P)}

/-- `s` has `e` more than `s₀`. -/
abbrev Mem.Gains (s₀ s : Mem P) (e : Multiset (Resource P)) : Prop :=
  Ledger.Gains Resource.addr s₀.ledger s.ledger e

omit [DecidableEq P] in
theorem Mem.Gains.acquire {r : Resource P} (h : s₀.Gains s e) (hr : r.addr = none) :
    s₀.Gains (s.acquire r) ({r} + e) :=
  Ledger.Gains.acquire h hr

theorem Mem.Gains.releases {rs : List (Resource P)} {e' : Multiset (Resource P)} (h : s₀.Gains s e')
    (he : e' = rs + e) : s₀.Gains (s.releases rs) e :=
  Ledger.Gains.releases h he

theorem Mem.Gains.leaks {rs : List (Resource P)} (h : s₀.Gains s e) (hcard : rs.length < e.card) :
    (s.releases rs).ledger.held ≠ s₀.ledger.held :=
  Ledger.Gains.leaks h hcard

omit [DecidableEq P] in
/-- A call of `kfifo_init` is never seen to fail. -/
theorem kfifo_init_spec (ok : Bool) (buffer : ℕ) (h : s₀.Gains s e) :
    (kfifo_init ok buffer s).1 ≠ .null ∧ (kfifo_init ok buffer s).2.uart_dev = s.uart_dev ∧
      ∃ g : Multiset (Resource P), s₀.Gains (kfifo_init ok buffer s).2 (g + e) ∧ ∀ r ∈ g, r.addr ≠ none := by
  cases ok with
  | true => exact ⟨KfifoPtr.noConfusion, rfl, _, h.alloc (r := Resource.kfifo) rfl, by simp [Resource.addr]⟩
  | false => exact ⟨KfifoPtr.noConfusion, rfl, 0, by rwa [zero_add], by simp⟩

/-- The second half of `pci_dev_init` does not fail. -/
theorem dev_kfifos_spec (d : Dev) (o : Allocs) (wr_buff rd_buff : ℕ) (h : s₀.Gains s e) :
    (dev_kfifos d o wr_buff rd_buff s).1 = 0 ∧ (dev_kfifos d o wr_buff rd_buff s).2.uart_dev = s.uart_dev ∧
      ∃ g : Multiset (Resource P), s₀.Gains (dev_kfifos d o wr_buff rd_buff s).2 (g + e) ∧
        ∀ r ∈ g, r.addr ≠ none := by
  obtain ⟨hwrite, hdev, g, hg, haddr⟩ := kfifo_init_spec o.write_kfifo wr_buff h
  unfold dev_kfifos
  generalize kfifo_init o.write_kfifo wr_buff s = written at *
  obtain ⟨write_kfifo, s₁⟩ := written
  dsimp only at hwrite hdev hg ⊢
  rw [if_neg hwrite]
  obtain ⟨hread, hdev', g', hg', haddr'⟩ :=
    kfifo_init_spec (s := s₁.set d fun p => { p with write_kfifo := write_kfifo }) o.read_kfifo rd_buff hg
  generalize kfifo_init o.read_kfifo rd_buff (s₁.set d fun p => { p with write_kfifo := write_kfifo }) = read at *
  obtain ⟨read_kfifo, s₂⟩ := read
  dsimp only at hread hdev' hg' ⊢
  rw [if_neg hread]
  refine ⟨rfl, hdev'.trans hdev, g' + g, by rwa [add_assoc], fun r hr => ?_⟩
  rcases Multiset.mem_add.1 hr with hr | hr
  · exact haddr' r hr
  · exact haddr r hr

/-- **`pci_dev_init`** keeps the buffers and the kfifos it got, or nothing. -/
theorem pci_dev_init_spec (d : Dev) (o : Allocs) (h : s₀.Gains s e) :
    (o.ok = false ∧ (pci_dev_init d o s).1 < 0 ∧ s₀.Gains (pci_dev_init d o s).2 e) ∨
      (o.ok = true ∧ (pci_dev_init d o s).1 = 0 ∧ ∃ g a b, s₀.Gains (pci_dev_init d o s).2
        (g + ({.buffer b} + ({.buffer a} + e))) ∧ ∀ r ∈ g, r.addr ≠ none) := by
  obtain ⟨wr_buff, rd_buff, write_kfifo, read_kfifo⟩ := o
  have hwr := h.alloc (r := Resource.buffer) rfl
  have hrd := hwr.alloc (r := Resource.buffer) rfl
  have hneg : (-1 : ℤ) < 0 := by decide
  cases wr_buff with
  | false => exact .inl ⟨rfl, hneg, h⟩
  | true =>
    cases rd_buff with
    | false => exact .inl ⟨rfl, hneg, hwr.releases (by simp)⟩
    | true =>
      obtain ⟨hret, -, g, hg, haddr⟩ := dev_kfifos_spec (s := Mem.set (Mem.alloc (Mem.set (Mem.alloc s .buffer) d
        fun p => { p with wr_buff := some s.ledger.next }) .buffer) d
        fun p => { p with rd_buff := some (s.ledger.next + 1) }) d ⟨true, true, write_kfifo, read_kfifo⟩
          s.ledger.next (s.ledger.next + 1) hrd
      exact .inr ⟨rfl, hret, g, _, _, hg, haddr⟩

theorem pci_dev_init_uart_dev (d : Dev) (o : Allocs) (s : Mem P) :
    (pci_dev_init d o s).2.uart_dev = s.uart_dev := by
  obtain ⟨wr_buff, rd_buff, write_kfifo, read_kfifo⟩ := o
  cases wr_buff with
  | false => rfl
  | true =>
    cases rd_buff with
    | false => rfl
    | true => exact (dev_kfifos_spec d _ _ _ (Gains.refl _)).2.1

/-! ## `pci_unregister_driver` -/

/-- No `cdev` was added under the address that `pci_remove` deletes. -/
def Clean (held : Multiset (Resource P)) : Prop := ∀ d, .cdev (.member d) ∉ held

omit [DecidableEq P] in
theorem Clean.add {e e' : Multiset (Resource P)} (h : Clean e) (h' : Clean e') : Clean (e + e') := by
  intro d hd
  rcases Multiset.mem_add.1 hd with hd | hd
  · exact h d hd
  · exact h' d hd

omit [DecidableEq P] in
theorem Clean.of_addr {g : Multiset (Resource P)} (h : ∀ r ∈ g, r.addr ≠ none) : Clean g := fun _ hd => h _ hd rfl

theorem unregister_wrong_le (bound : ℕ) (s : Mem P) :
    s.ledger.wrong.length ≤ (pci_unregister_driver bound s).ledger.wrong.length := by
  induction bound generalizing s with
  | zero => exact Nat.le_refl _
  | succ n ih => exact (wrong_releases_le s.ledger (removed s)).trans (ih (pci_remove s))

/-- A remove deletes what was not added. -/
theorem unregister_wrong_lt {bound : ℕ} (hbound : 0 < bound) (hclean : Clean s.ledger.held) :
    s.ledger.wrong.length < (pci_unregister_driver bound s).ledger.wrong.length := by
  obtain ⟨n, rfl⟩ := Nat.exists_eq_add_of_lt hbound
  have hmem : .cdev (.member .my_dev_1) ∈ removed s := by simp [removed]
  have hlt : s.ledger.wrong.length < (pci_remove s).ledger.wrong.length :=
    wrong_releases_lt hmem (hclean .my_dev_1)
  rw [Nat.zero_add]
  exact hlt.trans_le (unregister_wrong_le n (pci_remove s))

/-! ## `pci_probe` -/

/-- What a probe leaves, by the call that fails first. -/
inductive Result (bound : ℕ) (s₀ : Mem P) (r : ℤ × Mem P) : Option Call → Prop
  | bound {e : Multiset (Resource P)} {a : ℕ} :
    r.1 = 1 → s₀.Gains r.2 e → .buffer a ∈ e → Clean e → Result bound s₀ r none
  | undone {s : Mem P} (call : Call) :
    call.undone = true → r.1 < 0 → s₀.Gains s 0 → r.2 = pci_unregister_driver bound s → Result bound s₀ r (some call)
  | leak {s : Mem P} {e : Multiset (Resource P)} {rs : List (Resource P)} (call : Call) :
    call.undone = false → r.1 < 0 → s₀.Gains s e → Clean e → rs.length < e.card →
      r.2 = pci_unregister_driver bound (s.releases rs) → Result bound s₀ r (some call)

variable {bound : ℕ}

/-- A probe that fails while a device is bound deletes what was not added. -/
theorem Result.wrong_lt {r : ℤ × Mem P} {call : Call} (h : Result bound s₀ r (some call)) (hbound : 0 < bound)
    (hclean : Clean s₀.ledger.held) : s₀.ledger.wrong.length < r.2.ledger.wrong.length := by
  cases h with
  | @undone s _ _ _ hgains hr =>
    have hclean' : Clean s.ledger.held := by rwa [hgains.held, zero_add]
    rw [hr, ← hgains.wrong]
    exact unregister_wrong_lt hbound hclean'
  | @leak s e rs _ _ _ hgains he _ hr =>
    have hclean' : Clean (s.releases rs).ledger.held := by
      intro d hd
      have hbefore := held_releases_subset s.ledger rs hd
      rw [hgains.held] at hbefore
      exact he.add hclean d hbefore
    rw [hr, ← hgains.wrong]
    exact (wrong_releases_le s.ledger rs).trans_lt (unregister_wrong_lt hbound hclean')

/-- From the interrupts on every failure is a leak. -/
theorem probe_irqs_spec {pdev : P} {a : ℕ} (o : Outcomes) (h : s₀.Gains s e) (hcard : 7 < e.card)
    (ha : .buffer a ∈ e) (hclean : Clean e) : Result bound s₀ (probe_irqs bound pdev o s)
      (if o.request_irq .my_dev_1 < 0 then some .irq_1
      else if o.request_irq .my_dev_2 < 0 then some .irq_2
      else if o.cdev_add .my_dev_1 < 0 then some .cdev_1
      else if o.cdev_add .my_dev_2 < 0 then some .cdev_2
      else none) := by
  have hneg : -EBUSY < 0 := by decide
  have hirq₁ := h.acquire (r := .irq .my_dev_1) rfl
  have hirq₂ := hirq₁.acquire (r := .irq .my_dev_2) rfl
  have hcdev₁ := hirq₂.acquire (r := .cdev (.whole .my_dev_1)) rfl
  have hcdev₂ := hcdev₁.acquire (r := .cdev (.whole .my_dev_2)) rfl
  have hclean₁ : Clean ({.irq .my_dev_1} + e) := Clean.add (by simp [Clean]) hclean
  have hclean₂ : Clean ({.irq .my_dev_2} + ({.irq .my_dev_1} + e)) := Clean.add (by simp [Clean]) hclean₁
  have hclean₃ : Clean ({.cdev (.whole .my_dev_1)} + ({.irq .my_dev_2} + ({.irq .my_dev_1} + e))) :=
    Clean.add (by simp [Clean]) hclean₂
  unfold probe_irqs
  by_cases h₁ : o.request_irq .my_dev_1 < 0
  · rw [if_pos h₁, if_pos h₁]
    exact .leak _ rfl hneg h hclean (by simp; omega) rfl
  rw [if_neg h₁, if_neg h₁]
  by_cases h₂ : o.request_irq .my_dev_2 < 0
  · rw [if_pos h₂, if_pos h₂]
    exact .leak _ rfl hneg hirq₁ hclean₁ (by simp; omega) rfl
  rw [if_neg h₂, if_neg h₂]
  by_cases h₃ : o.cdev_add .my_dev_1 < 0
  · rw [if_pos h₃, if_pos h₃]
    exact .leak _ rfl hneg hirq₂ hclean₂ (by simp; omega) rfl
  rw [if_neg h₃, if_neg h₃]
  by_cases h₄ : o.cdev_add .my_dev_2 < 0
  · rw [if_pos h₄, if_pos h₄]
    exact .leak _ rfl hneg hcdev₁ hclean₃ (by simp; omega) rfl
  rw [if_neg h₄, if_neg h₄]
  exact .bound (a := a) rfl hcdev₂ (by simp [ha]) (Clean.add (by simp [Clean]) hclean₃)

omit [DecidableEq P] in
/-- The regions and the device, in the order of the error paths. -/
theorem regions_eq (pdev : P) :
    ({.region pdev 1} + ({.region pdev 0} + ({.device pdev} + 0)) : Multiset (Resource P)) =
      ([.region pdev 0, .region pdev 1, .device pdev] : List (Resource P)) + 0 := by
  simp only [coe_cons, Multiset.coe_nil]
  abel

/-- A failure in `pci_dev_init` of the first port is undone, one of the second port is a leak. -/
theorem probe_devs_spec {pdev : P} (o : Outcomes)
    (h : s₀.Gains s ({.region pdev 1} + ({.region pdev 0} + ({.device pdev} + 0)))) :
    Result bound s₀ (probe_devs bound pdev o s)
      (if o.alloc_chrdev_region < 0 then some .chrdev
      else if !(o.pci_dev_init .my_dev_1).ok then some .init_1
      else if !(o.pci_dev_init .my_dev_2).ok then some .init_2
      else if o.request_irq .my_dev_1 < 0 then some .irq_1
      else if o.request_irq .my_dev_2 < 0 then some .irq_2
      else if o.cdev_add .my_dev_1 < 0 then some .cdev_1
      else if o.cdev_add .my_dev_2 < 0 then some .cdev_2
      else none) := by
  have hneg : -ENOMEM < 0 := by decide
  have hnumbers : ∀ n,
      ({.chrdev n} + ({.region pdev 1} + ({.region pdev 0} + ({.device pdev} + 0))) : Multiset (Resource P)) =
        ([.chrdev n, .region pdev 0, .region pdev 1, .device pdev] : List (Resource P)) + 0 := by
    intro n
    rw [regions_eq, coe_cons (Resource.chrdev n), add_assoc]
  unfold probe_devs
  by_cases hchrdev : o.alloc_chrdev_region < 0
  · rw [if_pos hchrdev, if_pos hchrdev]
    exact .undone _ rfl hneg (h.releases (regions_eq pdev)) rfl
  rw [if_neg hchrdev, if_neg hchrdev]
  dsimp only
  have hnumber : s₀.Gains { s.acquire (.chrdev o.uart_dev) with uart_dev := o.uart_dev }
      ({.chrdev o.uart_dev} + ({.region pdev 1} + ({.region pdev 0} + ({.device pdev} + 0)))) :=
    h.acquire rfl
  generalize hnumbered : ({ s.acquire (.chrdev o.uart_dev) with uart_dev := o.uart_dev } : Mem P) = numbered at *
  have hdev₁ := pci_dev_init_uart_dev .my_dev_1 (o.pci_dev_init .my_dev_1) numbered
  have hdev : numbered.uart_dev = o.uart_dev := by rw [← hnumbered]
  rcases pci_dev_init_spec .my_dev_1 (o.pci_dev_init .my_dev_1) hnumber with
    ⟨hok, hret, hgains⟩ | ⟨hok, hret, g, a, b, hgains, haddr⟩
  · generalize pci_dev_init .my_dev_1 (o.pci_dev_init .my_dev_1) numbered = init at *
    rw [hok]
    simp only [hret, hdev₁, hdev, if_true, Bool.not_false]
    exact .undone _ rfl hneg (hgains.releases (hnumbers _)) rfl
  generalize pci_dev_init .my_dev_1 (o.pci_dev_init .my_dev_1) numbered = init at *
  have hclean : Clean (g + ({.buffer b} + ({.buffer a} + ({.chrdev o.uart_dev} + ({.region pdev 1} +
      ({.region pdev 0} + ({.device pdev} + 0))))))) := (Clean.of_addr haddr).add (by simp [Clean])
  rcases pci_dev_init_spec .my_dev_2 (o.pci_dev_init .my_dev_2) hgains with
    ⟨hok', hret', hgains'⟩ | ⟨hok', hret', g', a', b', hgains', haddr'⟩
  · simp only [hret, hok, hret', hok', lt_self_iff_false, if_true, if_false, Bool.not_false, Bool.not_true,
      Bool.false_eq_true]
    exact .leak _ rfl hneg hgains' hclean (by simp) rfl
  simp only [hret, hok, hret', hok', lt_self_iff_false, if_false, Bool.not_true, Bool.false_eq_true]
  exact probe_irqs_spec (a := a) o hgains' (by simp) (by simp)
    ((Clean.of_addr haddr').add (Clean.add (by simp [Clean]) (Clean.add (by simp [Clean]) hclean)))

/-- **A probe**, by the call that fails first. -/
theorem pci_probe_spec (bound : ℕ) (dev : Option P) (o : Outcomes) (s : Mem P) :
    Result bound s (pci_probe bound dev o s) (o.failure dev) := by
  have hrefl : s.Gains { s with pdev := dev } 0 := Gains.refl _
  have hneg₁ : (-1 : ℤ) < 0 := by decide
  have hneg₂ : -ENOMEM < 0 := by decide
  have hneg₃ : -ENODEV < 0 := by decide
  unfold pci_probe Outcomes.failure
  cases dev with
  | none => exact .undone _ rfl hneg₃ hrefl rfl
  | some pdev =>
    have hsome : some pdev ≠ none := Option.some_ne_none pdev
    rw [if_neg hsome]
    have hdevice := hrefl.acquire (r := .device pdev) rfl
    have hregion := hdevice.acquire (r := .region pdev 0) rfl
    have hregion' := hregion.acquire (r := .region pdev 1) rfl
    by_cases h₁ : o.pci_enable_device < 0
    · simp only [if_pos h₁]
      exact .undone _ rfl hneg₁ hrefl rfl
    simp only [if_neg h₁]
    by_cases h₂ : o.pci_request_region 0 < 0
    · simp only [if_pos h₂]
      exact .undone _ rfl hneg₂ (hdevice.releases (by simp)) rfl
    simp only [if_neg h₂]
    by_cases h₃ : o.pci_request_region 1 < 0
    · simp only [if_pos h₃]
      exact .leak _ rfl hneg₂ hregion (by simp [Clean]) (by simp) rfl
    simp only [if_neg h₃]
    by_cases h₄ : [0, 1].any (fun i => o.device_diagnos_start i < 0) = true
    · simp only [if_pos h₄]
      exact .undone _ rfl hneg₃ (hregion'.releases (regions_eq pdev)) rfl
    simp only [if_neg h₄]
    exact probe_devs_spec o hregion'

/-! ## Runs of probes and removes -/

/-- Addresses are bounded, and every bound device has a buffer that was not there before its probe. -/
structure Inv (s : State P) : Prop where
  bounded : Ledger.Bounded Resource.addr s.mem.ledger
  clean : Clean s.mem.ledger.held
  buffer : ∀ b ∈ s.bound, ∃ a, .buffer a ∈ s.mem.ledger.held ∧ .buffer a ∉ b.2

omit [DecidableEq P] in
theorem inv_initial : Inv (initial : State P) :=
  ⟨fun r hr => absurd hr (Multiset.notMem_zero r), fun _ => Multiset.notMem_zero _,
    fun _ hb => absurd hb List.not_mem_nil⟩

omit [DecidableEq P] in
/-- No `pci_remove` frees a buffer. -/
theorem buffer_notMem_removed (a : ℕ) (s : Mem P) : .buffer a ∉ removed s := by
  unfold removed
  cases s.pdev <;> simp

/-- **Remove** leaves the buffers of the device. -/
theorem removed_leaks {s : State P} (h : Inv s) {b : Option P × Multiset (Resource P)} (hb : b ∈ s.bound) :
    (pci_remove s.mem).ledger.held ≠ b.2 := by
  obtain ⟨a, hheld, hnew⟩ := h.buffer b hb
  intro heq
  have hstill : .buffer a ∈ (pci_remove s.mem).ledger.held := mem_releases (buffer_notMem_removed a s.mem) hheld
  rw [heq] at hstill
  exact hnew hstill

/-- **One call** is balanced if and only if it is spared. -/
theorem balanced_iff (e : Event P) (s : State P) (h : Inv s) : Balanced e s ↔ Spared e s := by
  cases e with
  | remove dev =>
    constructor
    · intro hbalanced
      cases hb : s.find dev with
      | none => exact hb
      | some b => exact absurd (hbalanced b hb).1 (removed_leaks h (List.mem_of_find?_eq_some hb))
    · intro hspared b hb
      have hnone : s.find dev = none := hspared
      rw [hnone] at hb
      cases hb
  | probe dev o =>
    simp only [Balanced, Spared]
    have hspec : Result s.bound.length s.mem (s.probe dev o) _ := pci_probe_spec s.bound.length dev o s.mem
    generalize s.probe dev o = result at *
    generalize o.failure dev = failure at *
    by_cases hbound : s.bound = []
    · rw [hbound] at hspec
      cases hspec with
      | bound hret hgains =>
        have hnonneg : ¬ result.1 < 0 := by omega
        simp [hnonneg, hgains.wrong]
      | @undone s' call hundone hret hgains hr =>
        have hr' : result.2 = s' := hr
        have hsame : s'.ledger.held = s.mem.ledger.held := hgains.held.trans (zero_add _)
        simp [hr', hsame, hgains.wrong, hundone, hbound]
      | @leak s' e rs call hleak hret hgains _ hcard hr =>
        have hr' : result.2 = s'.releases rs := hr
        have hne := hgains.leaks hcard
        simp [hret, hr', hne, hleak]
    · have hpos : 0 < s.bound.length := List.length_pos_iff.2 hbound
      cases failure with
      | none =>
        cases hspec with
        | bound hret hgains =>
          have hnonneg : ¬ result.1 < 0 := by omega
          simp [hnonneg, hgains.wrong]
      | some call =>
        have hlt := hspec.wrong_lt hpos h.clean
        have hne : result.2.ledger.wrong ≠ s.mem.ledger.wrong := fun heq => by
          rw [heq] at hlt
          exact Nat.lt_irrefl _ hlt
        simp [hne, hbound]

theorem inv_step (e : Event P) (s s' : State P) (hspared : Spared e s) (h : Inv s) (hs : step e s = some s') :
    Inv s' := by
  cases e with
  | remove dev =>
    have hnone : s.find dev = none := hspared
    simp [step, hnone] at hs
  | probe dev o =>
    have hspec : Result s.bound.length s.mem (s.probe dev o) _ := pci_probe_spec s.bound.length dev o s.mem
    simp only [step, Option.some.injEq] at hs
    subst hs
    have hundone : ∀ call, o.failure dev = some call → call.undone = true ∧ s.bound = [] := hspared
    generalize s.probe dev o = result at *
    generalize o.failure dev = failure at *
    cases hspec with
    | @bound e a hret hgains ha hclean =>
      have hnonneg : ¬ result.1 < 0 := by omega
      refine ⟨hgains.bounded h.bounded, hgains.held ▸ hclean.add h.clean, ?_⟩
      intro b hb
      rw [if_neg hnonneg, List.mem_cons] at hb
      rcases hb with rfl | hb
      · refine ⟨a, ?_, hgains.notMem h.bounded rfl ha⟩
        rw [hgains.held]
        exact Multiset.mem_add.2 (.inl ha)
      · obtain ⟨a', hheld, hnew⟩ := h.buffer b hb
        refine ⟨a', ?_, hnew⟩
        rw [hgains.held]
        exact Multiset.mem_add.2 (.inr hheld)
    | @undone s' call _ hret hgains hr =>
      rw [(hundone call rfl).2] at hr
      have hr' : result.2 = s' := hr
      have hsame : s'.ledger.held = s.mem.ledger.held := hgains.held.trans (zero_add _)
      rw [if_pos hret, hr']
      exact ⟨hgains.bounded h.bounded, hsame ▸ h.clean, fun b hb => absurd hb List.not_mem_nil⟩
    | leak call hleak =>
      have htrue := (hundone call rfl).1
      rw [hleak] at htrue
      cases htrue

/-- **Probe and remove** are balanced in exactly the runs that never remove a bound device and whose probes
only fail where everything is released, with no device bound. -/
theorem probe_law (es : List (Event P)) :
    Run.Along step Balanced es (initial : State P) ↔ Run.Along step Spared es initial :=
  Run.along_iff inv_step balanced_iff inv_initial

/-- Nothing fails but the request of region 1. -/
def region_1_fails : Outcomes :=
  ⟨0, fun bar => if bar = 1 then -1 else 0, fun _ => 0, 0, 0, fun _ => ⟨true, true, true, true⟩, fun _ => 0,
    fun _ => 0⟩

/-- Region 0 stays reserved. -/
theorem region_leaked : ¬ Run.Along step Balanced [.probe (some ()) region_1_fails] initial := by
  rintro ⟨⟨hheld, -⟩, -⟩
  have hcard := congrArg Multiset.card (hheld (by decide))
  revert hcard
  decide

end

end Uart.Probe
