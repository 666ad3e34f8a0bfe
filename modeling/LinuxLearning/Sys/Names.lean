import LinuxLearning.Lib.Run
import LinuxLearning.Sys.Basic
/-!
# `sys.c`: the names of the system

| here | there (`KernelDrivers_March2011/sys.c`) |
| --- | --- |
| `Utsname`           | `struct new_utsname`, of the headers; `n` is `__NEW_UTS_LEN` |
| `sys_newuname`      | `:1330-1339` |
| `sys_sethostname`   | `:1341-1359` |
| `sys_gethostname`   | `:1363-1378` |
| `sys_setdomainname` | `:1386-1405` |

The fields of the structure are arrays of `n + 1` bytes. An array of the user is given by what can be read from it, or
written to it, at each index.

* `name_law` — from a name that has its NUL on, as the first one has, in every run `gethostname` gives the name last set, up to its first NUL and with one, cut to its length;
* `stale_law` — in every run each byte of a name is one of the last call that was long enough to reach it: the bytes
  behind the NUL, which `newuname` shows, are left from earlier names.
-/

namespace Sys

/-- `char [__NEW_UTS_LEN + 1]` -/
structure UtsField (n : ℕ) where
  bytes : List UInt8
  size : bytes.length = n + 1

structure Utsname (n : ℕ) where
  sysname : UtsField n
  nodename : UtsField n
  release : UtsField n
  version : UtsField n
  machine : UtsField n
  domainname : UtsField n

/-- The arguments of a call that sets a name, and what `capable` answers. -/
structure SetName where
  capable : Bool
  name : ℕ → Option UInt8
  len : CInt

variable {n : ℕ}

/-- `memcpy(field, tmp, len)` and `field[len] = 0` -/
def UtsField.put (f : UtsField n) (tmp : List UInt8) (h : tmp.length ≤ n) : UtsField n where
  bytes := (tmp ++ f.bytes.drop tmp.length).set tmp.length 0
  size := by
    have hsize := f.size
    rw [List.length_set, List.length_append, List.length_drop]
    omega

/-- What `copy_from_user` gets. -/
def SetName.tmp (c : SetName) : List UInt8 := (List.range c.len.toNat).filterMap c.name

theorem SetName.length_tmp (c : SetName) : c.tmp.length ≤ c.len.toNat := by
  unfold SetName.tmp
  exact (List.length_filterMap_le _ _).trans_eq List.length_range

theorem SetName.tmp_fits (c : SetName) (h : ¬ (c.len.toInt < 0 ∨ c.len.toInt > n)) : c.tmp.length ≤ n := by
  refine c.length_tmp.trans ?_
  rw [BitVec.toInt_eq_toNat_cond] at h
  split at h <;> omega

/-- Both calls: what they make of the field. -/
def setField (c : SetName) (f : UtsField n) : Except Errno (UtsField n) :=
  if !c.capable then .error .EPERM
  else if h : c.len.toInt < 0 ∨ c.len.toInt > n then .error .EINVAL
  else if ∀ i < c.len.toNat, (c.name i).isSome then .ok (f.put c.tmp (c.tmp_fits h))
  else .error .EFAULT

def sys_sethostname (c : SetName) (s : Utsname n) : Except Errno (Utsname n) :=
  (setField c s.nodename).map fun f => { s with nodename := f }

def sys_setdomainname (c : SetName) (s : Utsname n) : Except Errno (Utsname n) :=
  (setField c s.domainname).map fun f => { s with domainname := f }

/-- `none` where it runs past the end of the array. -/
def UtsField.strlen (f : UtsField n) : Option ℕ :=
  if 0 ∈ f.bytes then some (f.bytes.takeWhile (· ≠ 0)).length else none

/-- What is written to the user. -/
def sys_gethostname (writable : ℕ → Bool) (len : CInt) (s : Utsname n) : Option (Except Errno (List UInt8)) :=
  if len.toInt < 0 then some (.error .EINVAL)
  else s.nodename.strlen.map fun strlen =>
    let i := if 1 + strlen > len.toNat then len.toNat else 1 + strlen
    if ∀ j < i, writable j then .ok (s.nodename.bytes.take i) else .error .EFAULT

def sys_newuname (writable : Bool) (s : Utsname n) : Except Errno (Utsname n) :=
  if writable then .ok s else .error .EFAULT

/-! ## One call -/

/-- The bytes of the name that a call sets, if it succeeds. -/
def SetName.set (n : ℕ) (c : SetName) : Option (List UInt8) :=
  if c.capable ∧ 0 ≤ c.len.toInt ∧ c.len.toInt ≤ n ∧ ∀ i < c.len.toNat, (c.name i).isSome then some c.tmp else none

/-- Success depends on the call alone. -/
theorem setField_spec (c : SetName) (f : UtsField n) :
    (∃ e, setField c f = .error e ∧ c.set n = none) ∨
      ∃ b, ∃ h : b.length ≤ n, setField c f = .ok (f.put b h) ∧ c.set n = some b := by
  unfold setField
  split
  · next hcap =>
    refine .inl ⟨_, rfl, if_neg fun h => ?_⟩
    rw [h.1] at hcap
    cases hcap
  next hcap =>
  split
  · next hlen => exact .inl ⟨_, rfl, if_neg fun h => by omega⟩
  next hlen =>
  split
  · next hread => exact .inr ⟨c.tmp, c.tmp_fits hlen, rfl, if_pos ⟨by simpa using hcap, by omega, by omega, hread⟩⟩
  · next hread => exact .inl ⟨_, rfl, if_neg fun h => hread h.2.2.2⟩

/-- The C string in an array. -/
def cstring (b : List UInt8) : List UInt8 := b.takeWhile (· ≠ 0)

theorem put_bytes (f : UtsField n) (b : List UInt8) (h : b.length ≤ n) :
    (f.put b h).bytes = b ++ 0 :: f.bytes.drop (b.length + 1) := by
  have hsize := f.size
  have hdrop : f.bytes.drop b.length = f.bytes.get ⟨b.length, by omega⟩ :: f.bytes.drop (b.length + 1) :=
    List.drop_eq_getElem_cons _
  show (b ++ f.bytes.drop b.length).set b.length 0 = _
  rw [hdrop, List.set_append_right _ _ (Nat.le_refl _), Nat.sub_self, List.set_cons_zero]

theorem cstring_put (f : UtsField n) (b : List UInt8) (h : b.length ≤ n) : cstring (f.put b h).bytes = cstring b := by
  unfold cstring
  rw [put_bytes, List.takeWhile_append]
  split
  · next hall =>
    rw [List.takeWhile_cons_of_neg (by simp), List.append_nil]
    exact (List.takeWhile_prefix _).eq_of_length hall |>.symm
  · rfl

theorem put_getElem (f : UtsField n) (b : List UInt8) (h : b.length ≤ n) (i : ℕ) :
    (f.put b h).bytes[i]? = if i ≤ b.length then some (b[i]?.getD 0) else f.bytes[i]? := by
  rw [put_bytes]
  by_cases hi : i < b.length
  · rw [List.getElem?_append_left hi, if_pos (by omega), List.getElem?_eq_getElem hi, Option.getD_some]
  · rw [List.getElem?_append_right (by omega)]
    by_cases heq : i = b.length
    · subst heq
      simp
    · rw [if_neg (by omega), show i - b.length = (i - b.length - 1) + 1 by omega, List.getElem?_cons_succ,
        List.getElem?_drop]
      congr 1
      omega

/-! ## Runs -/

inductive NameCall
  | sethostname (c : SetName)
  | setdomainname (c : SetName)

def nameStep (c : NameCall) (s : Utsname n) : Option (Utsname n) :=
  match c with
  | .sethostname c => some ((sys_sethostname c s).toOption.getD s)
  | .setdomainname c => some ((sys_setdomainname c s).toOption.getD s)

/-- The host names that have been set. -/
def hostnames (n : ℕ) : NameCall → List (List UInt8)
  | .sethostname c => (c.set n).toList
  | .setdomainname _ => []

def domainnames (n : ℕ) : NameCall → List (List UInt8)
  | .sethostname _ => []
  | .setdomainname c => (c.set n).toList

/-- A call leaves a field as it was or puts a name into it. -/
theorem nameStep_spec (c : NameCall) (s : Utsname n) : ∃ s', nameStep c s = some s' ∧
    ((hostnames n c = [] ∧ s'.nodename = s.nodename) ∨
      ∃ b, ∃ h : b.length ≤ n, hostnames n c = [b] ∧ s'.nodename = s.nodename.put b h) ∧
    ((domainnames n c = [] ∧ s'.domainname = s.domainname) ∨
      ∃ b, ∃ h : b.length ≤ n, domainnames n c = [b] ∧ s'.domainname = s.domainname.put b h) := by
  cases c with
  | sethostname c =>
    refine ⟨_, rfl, ?_, .inl ⟨rfl, ?_⟩⟩
    · rcases setField_spec c s.nodename with ⟨e, hset, hnone⟩ | ⟨b, h, hset, hsome⟩
      · exact .inl ⟨by simp [hostnames, hnone], by simp [sys_sethostname, hset, Except.map, Except.toOption]⟩
      · exact .inr ⟨b, h, by simp [hostnames, hsome], by simp [sys_sethostname, hset, Except.map, Except.toOption]⟩
    · unfold sys_sethostname
      cases setField c s.nodename <;> rfl
  | setdomainname c =>
    refine ⟨_, rfl, .inl ⟨rfl, ?_⟩, ?_⟩
    · unfold sys_setdomainname
      cases setField c s.domainname <;> rfl
    · rcases setField_spec c s.domainname with ⟨e, hset, hnone⟩ | ⟨b, h, hset, hsome⟩
      · exact .inl ⟨by simp [domainnames, hnone], by simp [sys_setdomainname, hset, Except.map, Except.toOption]⟩
      · exact .inr ⟨b, h, by simp [domainnames, hsome], by simp [sys_setdomainname, hset, Except.map, Except.toOption]⟩

/-- The byte of a field with this index, after these names have been put into it. -/
def stale (names : List (List UInt8)) (f : UtsField n) (i : ℕ) : Option UInt8 :=
  match (names.filter fun b => i ≤ b.length).getLast? with
  | some b => some (b[i]?.getD 0)
  | none => f.bytes[i]?

/-- The C string in it. -/
def lastName (names : List (List UInt8)) (f : UtsField n) : List UInt8 :=
  match names.getLast? with
  | some b => cstring b
  | none => cstring f.bytes

theorem stale_append (names : List (List UInt8)) (b : List UInt8) (f : UtsField n) (i : ℕ) :
    stale (names ++ [b]) f i = if i ≤ b.length then some (b[i]?.getD 0) else stale names f i := by
  unfold stale
  rw [List.filter_append]
  by_cases hi : i ≤ b.length
  · simp [hi]
  · simp [hi]

/-- A field after names have been put into it. -/
structure Left (f : UtsField n) (names : List (List UInt8)) (f' : UtsField n) : Prop where
  bytes : ∀ i, f'.bytes[i]? = stale names f i
  name : cstring f'.bytes = lastName names f
  nul : 0 ∈ f.bytes → 0 ∈ f'.bytes

theorem Left.refl (f : UtsField n) : Left f [] f := ⟨fun _ => rfl, rfl, id⟩

theorem Left.step {f f₁ f₂ : UtsField n} {names new : List (List UInt8)} (h : Left f names f₁)
    (hstep : (new = [] ∧ f₂ = f₁) ∨ ∃ b, ∃ hb : b.length ≤ n, new = [b] ∧ f₂ = f₁.put b hb) :
    Left f (names ++ new) f₂ := by
  rcases hstep with ⟨rfl, rfl⟩ | ⟨b, hb, rfl, rfl⟩
  · rwa [List.append_nil]
  · refine ⟨fun i => ?_, ?_, fun _ => ?_⟩
    · rw [put_getElem, stale_append, h.bytes]
    · rw [cstring_put, lastName, List.getLast?_concat]
    · rw [put_bytes]
      simp

/-- Both fields after a run. -/
theorem names_left (calls : List NameCall) (s : Utsname n) : ∃ s', Run.exec nameStep calls s = some s' ∧
    Left s.nodename (calls.flatMap (hostnames n)) s'.nodename ∧
    Left s.domainname (calls.flatMap (domainnames n)) s'.domainname := by
  obtain ⟨s', hrun⟩ : ∃ s', Run.exec nameStep calls s = some s' :=
    Run.exec_total (fun c s => (nameStep_spec c s).imp fun _ => And.left) calls s
  have hhost := Run.collected (C := fun _ => True) (f := hostnames n)
    (I := fun names (s₁ : Utsname n) => Left s.nodename names s₁.nodename) (fun c s₁ s₂ names _ h hs₂ => by
      obtain ⟨s₂', hs₂', hstep, -⟩ := nameStep_spec c s₁
      rw [hs₂] at hs₂'
      cases hs₂'
      exact h.step hstep) (fun _ _ => trivial) (Left.refl s.nodename) hrun
  have hdomain := Run.collected (C := fun _ => True) (f := domainnames n)
    (I := fun names (s₁ : Utsname n) => Left s.domainname names s₁.domainname) (fun c s₁ s₂ names _ h hs₂ => by
      obtain ⟨s₂', hs₂', -, hstep⟩ := nameStep_spec c s₁
      rw [hs₂] at hs₂'
      cases hs₂'
      exact h.step hstep) (fun _ _ => trivial) (Left.refl s.domainname) hrun
  exact ⟨s', hrun, hhost, hdomain⟩

theorem cstring_spec {b : List UInt8} (h : 0 ∈ b) : ∃ rest, b = cstring b ++ 0 :: rest := by
  obtain ⟨word, rest, rfl, hword⟩ := List.eq_append_cons_of_mem h
  have hcstring : cstring (word ++ 0 :: rest) = word := by
    unfold cstring
    rw [List.takeWhile_append_of_pos]
    · simp
    · intro a ha
      rw [decide_eq_true_iff]
      rintro rfl
      exact hword ha
  exact ⟨rest, by rw [hcstring]⟩

/-- **The host name.** -/
theorem name_law (calls : List NameCall) {s : Utsname n} (hnul : 0 ∈ s.nodename.bytes) :
    ∃ s', Run.exec nameStep calls s = some s' ∧ ∀ writable len, sys_gethostname writable len s' = some (
      let b := (lastName (calls.flatMap (hostnames n)) s.nodename ++ [0]).take len.toNat
      if len.toInt < 0 then .error .EINVAL
      else if ∀ j < b.length, writable j then .ok b else .error .EFAULT) := by
  obtain ⟨s', hrun, hleft, -⟩ := names_left calls s
  refine ⟨s', hrun, fun writable len => ?_⟩
  obtain ⟨rest, hbytes⟩ := cstring_spec (hleft.nul hnul)
  have hstrlen : s'.nodename.strlen = some (cstring s'.nodename.bytes).length := if_pos (hleft.nul hnul)
  unfold sys_gethostname
  rw [hstrlen, ← hleft.name, Option.map_some]
  generalize cstring s'.nodename.bytes = name at hbytes ⊢
  rw [hbytes]
  dsimp only
  by_cases hneg : len.toInt < 0
  · rw [if_pos hneg, if_pos hneg]
  rw [if_neg hneg, if_neg hneg]
  have htake : ∀ i, i ≤ name.length + 1 → (name ++ 0 :: rest).take i = (name ++ [0]).take i := by
    intro i hi
    rw [List.append_cons, List.take_append_of_le_length (by simpa using hi)]
  by_cases hlong : 1 + name.length > len.toNat
  · simp [hlong, htake len.toNat (by omega), Nat.min_eq_left (by omega : len.toNat ≤ name.length + 1)]
  · have hall : (name ++ [0]).take len.toNat = name ++ [0] := List.take_of_length_le (by simp; omega)
    have hwhole : (name ++ [0]).take (1 + name.length) = name ++ [0] := List.take_of_length_le (by simp)
    rw [if_neg hlong, hall, htake (1 + name.length) (by omega), hwhole]
    simp [Nat.add_comm 1]

/-- Four bytes for a name. -/
def sampleNames : Utsname 4 :=
  let f : UtsField 4 := ⟨[0, 0, 0, 0, 0], rfl⟩
  ⟨f, f, f, f, f, f⟩

/-- A name with a NUL in it. -/
def sampleSet : SetName := ⟨true, fun i => [97, 0, 98][i]?, 3⟩

theorem name_law_sample : ∃ s', Run.exec nameStep [.sethostname sampleSet] sampleNames = some s' ∧
    sys_gethostname (fun _ => true) 4 s' = some (.ok [97, 0]) := by
  obtain ⟨s', hrun, h⟩ := name_law [.sethostname sampleSet] (s := sampleNames) (by decide)
  refine ⟨s', hrun, ?_⟩
  rw [h]
  decide

/-- **Left behind.** -/
theorem stale_law (calls : List NameCall) (s : Utsname n) : ∃ s', Run.exec nameStep calls s = some s' ∧
    ∀ u, sys_newuname true s' = .ok u → ∀ i,
      u.nodename.bytes[i]? = stale (calls.flatMap (hostnames n)) s.nodename i ∧
        u.domainname.bytes[i]? = stale (calls.flatMap (domainnames n)) s.domainname i := by
  obtain ⟨s', hrun, hhost, hdomain⟩ := names_left calls s
  refine ⟨s', hrun, fun u hu i => ?_⟩
  obtain rfl := Except.ok.inj hu
  exact ⟨hhost.bytes i, hdomain.bytes i⟩

end Sys
