import OmniOS.Kernel.PciScan
import OmniOS.Lib.Words

/-!
# OmniOS.Kernel.PciBars — the base addresses in the records

Base address registers are read left to right, and a 64-bit one takes two of them
(`decodeBars`). `pci_read_bar` takes each register for the first of its own, with the next
register behind it (`eachBar`): the two agree if the upper halves have no address bits as registers
of their own, and no 64-bit register is the last one (`Decodable`).
-/

namespace OmniOS.Pci

/-! ## Registers -/

/-- The kinds of base address registers. -/
inductive Kind where
  | io
  | memory
  | memory64
deriving DecidableEq

def kindOf (low : UInt32) : Kind :=
  if low &&& 1 ≠ 0 then .io else if low &&& 6 = 4 then .memory64 else .memory

/-- How many bits tell the kind. -/
def Kind.typeBits : Kind → Nat
  | .io => 2
  | .memory | .memory64 => 4

/-- The address in a register, without the bits that tell its kind. -/
def lowBase (low : UInt32) : UInt64 :=
  match kindOf low with
  | .io => (low &&& ~~~3).toUInt64
  | .memory | .memory64 => (low &&& ~~~0xF).toUInt64

/-- The address in two registers. -/
def wideBase (low high : UInt32) : UInt64 := high.toUInt64 <<< 32 ||| lowBase low

/-- The entries for these registers, read from left to right. -/
def decodeBars : List UInt32 → List UInt64
  | [] => []
  | [low] => [lowBase low]
  | low :: high :: rest =>
      if kindOf low = .memory64 then wideBase low high :: 0 :: decodeBars rest
      else lowBase low :: decodeBars (high :: rest)

/-- The six registers. -/
def barRegisters (c : Registers) : List UInt32 := (List.range 6).map (barRegister c)

section Registers

variable {low high : UInt32}

theorem barAt_eq : barAt low high = if kindOf low = .memory64 then wideBase low high
    else lowBase low := by
  by_cases hio : low &&& 1 = 0
  · by_cases hwide : low &&& 6 = 4
    · simp [barAt, kindOf, wideBase, lowBase, hio, hwide]
    · simp [barAt, kindOf, lowBase, hio, hwide]
  · simp [barAt, kindOf, lowBase, hio]

theorem toNat_lowBase : (lowBase low).toNat =
    low.toNat / 2 ^ (kindOf low).typeBits * 2 ^ (kindOf low).typeBits := by
  have hio : (low &&& ~~~3).toNat = low.toNat / 2 ^ 2 * 2 ^ 2 :=
    Words.toNat_and_mask_32 (by decide) low
  have hmemory : (low &&& ~~~0xF).toNat = low.toNat / 2 ^ 4 * 2 ^ 4 :=
    Words.toNat_and_mask_32 (by decide) low
  unfold lowBase
  cases kindOf low with
  | io => rw [UInt32.toNat_toUInt64, hio, Kind.typeBits]
  | memory => rw [UInt32.toNat_toUInt64, hmemory, Kind.typeBits]
  | memory64 => rw [UInt32.toNat_toUInt64, hmemory, Kind.typeBits]

theorem lowBase_eq_zero_iff : lowBase low = 0 ↔ low.toNat < 2 ^ (kindOf low).typeBits := by
  have hpos := Nat.two_pow_pos (kindOf low).typeBits
  rw [← UInt64.toNat_inj, toNat_lowBase, UInt64.toNat_zero, Nat.mul_eq_zero,
    Nat.div_eq_zero_iff]
  omega

theorem toNat_wideBase : (wideBase low high).toNat = high.toNat * 2 ^ 32 + (lowBase low).toNat := by
  have hhigh := high.toNat_lt
  have hshift : (high.toUInt64 <<< 32).toNat = high.toNat * 2 ^ 32 := by
    rw [UInt64.toNat_shiftLeft, UInt32.toNat_toUInt64, Nat.shiftLeft_eq]
    exact Nat.mod_eq_of_lt (by simp; omega)
  have hlow : (lowBase low).toNat < 2 ^ 32 := by
    rw [toNat_lowBase]
    exact Nat.lt_of_le_of_lt (Nat.div_mul_le_self _ _) low.toNat_lt
  rw [wideBase, Words.toNat_or_low (k := 32) (by rw [hshift]; exact Nat.dvd_mul_left _ _) hlow,
    hshift]

theorem wideBase_eq_lowBase_iff : wideBase low high = lowBase low ↔ high = 0 := by
  rw [← UInt64.toNat_inj, toNat_wideBase, ← UInt32.toNat_inj, UInt32.toNat_zero]
  omega

theorem wideBase_eq_zero_iff : wideBase low high = 0 ↔ high = 0 ∧ lowBase low = 0 := by
  rw [← UInt64.toNat_inj, toNat_wideBase, ← UInt32.toNat_inj, ← UInt64.toNat_inj,
    UInt32.toNat_zero, UInt64.toNat_zero]
  omega

end Registers

/-! ## The registers one by one -/

/-- The entries as `pci_scan_bus` fills them in; the register `beyond` follows the last one. -/
def eachBar (beyond : UInt32) : List UInt32 → List UInt64
  | [] => []
  | low :: rest => barAt low (rest.headD beyond) :: eachBar beyond rest

/-- A register that holds no address in front of `next`. -/
def Blank (low next : UInt32) : Prop :=
  low.toNat < 2 ^ (kindOf low).typeBits ∧ (kindOf low = .memory64 → next = 0)

/-- No upper half holds an address as a register of its own, and a 64-bit register that is the last
one is followed by zeros. -/
def Decodable (beyond : UInt32) : List UInt32 → Prop
  | [] => True
  | [low] => kindOf low = .memory64 → beyond = 0
  | low :: high :: rest =>
      if kindOf low = .memory64 then Blank high (rest.headD beyond) ∧ Decodable beyond rest
      else Decodable beyond (high :: rest)

instance (low next : UInt32) : Decidable (Blank low next) :=
  inferInstanceAs (Decidable (_ ∧ _))

instance decidableDecodable (beyond : UInt32) :
    (regs : List UInt32) → Decidable (Decodable beyond regs)
  | [] => isTrue trivial
  | [low] => inferInstanceAs (Decidable (kindOf low = .memory64 → beyond = 0))
  | low :: high :: rest =>
      have := decidableDecodable beyond rest
      have := decidableDecodable beyond (high :: rest)
      inferInstanceAs (Decidable (if kindOf low = .memory64 then
        Blank high (rest.headD beyond) ∧ Decodable beyond rest
        else Decodable beyond (high :: rest)))

section Each

variable {beyond : UInt32}

theorem barAt_eq_zero_iff {low next : UInt32} : barAt low next = 0 ↔ Blank low next := by
  rw [barAt_eq, Blank, ← lowBase_eq_zero_iff]
  split
  · rename_i hwide
    rw [wideBase_eq_zero_iff, and_comm]
    simp only [hwide, true_imp_iff]
  · rename_i hwide
    simp only [hwide, false_imp_iff, and_true]

theorem eachBar_eq_iff (regs : List UInt32) :
    eachBar beyond regs = decodeBars regs ↔ Decodable beyond regs := by
  fun_induction decodeBars regs with
  | case1 => simp [eachBar, Decodable]
  | case2 low =>
      rw [eachBar, eachBar, Decodable, barAt_eq, List.headD_nil]
      split
      · rename_i hwide
        simp [hwide, wideBase_eq_lowBase_iff]
      · rename_i hwide
        simp [hwide]
  | case3 low high rest hwide ih =>
      -- the upper half is read once more, as a register of its own
      rw [eachBar, eachBar, Decodable, if_pos hwide, List.headD_cons, barAt_eq, if_pos hwide,
        List.cons_eq_cons, List.cons_eq_cons, barAt_eq_zero_iff, ih, eq_self, true_and]
  | case4 low high rest hnarrow ih =>
      rw [eachBar, Decodable, if_neg hnarrow, barAt_eq, if_neg hnarrow, List.cons_eq_cons, ih,
        eq_self, true_and]

theorem barsOf_eq (c : Registers) : barsOf c = eachBar (barRegister c 6) (barRegisters c) := rfl

end Each

/-! ## The table -/

theorem pciInit_bars (latch : Latch) (s : State) {dev : Device}
    (hdev : dev ∈ (pciInit latch s).devices) :
    dev.bars = barsOf (s.machine.config dev.place) :=
  ((pciInit_scanned latch s).bars dev hdev).resolve_left List.not_mem_nil

/-- A record holds the base addresses of its function if each upper half of a 64-bit register is
blank when it is taken for a register of its own, and the register behind the last one adds
nothing to it. -/
theorem pci_bars_iff (latch : Latch) (s : State) {dev : Device}
    (hdev : dev ∈ (pciInit latch s).devices) :
    dev.bars = decodeBars (barRegisters (s.machine.config dev.place)) ↔
      Decodable (barRegister (s.machine.config dev.place) 6)
        (barRegisters (s.machine.config dev.place)) := by
  rw [pciInit_bars latch s hdev, barsOf_eq]
  exact eachBar_eq_iff _

/-- A function whose first two registers are a 64-bit one, at `high * 2^32`. -/
def wideFirst (high : UInt32) : Registers := fun r =>
  if r = 0 then 0x10001AF4 else if r = 4 then 0x0000000C else if r = 5 then high else 0

theorem devices_wideFirst (latch : Latch) (high : UInt32) :
    ∃ dev, (pciInit latch (alone (wideFirst high))).devices = [dev] ∧ dev.place = ⟨0, 0, 0⟩ := by
  have hplaces := pciInit_places latch (alone (wideFirst high))
  have hid : wideFirst high 0 ≠ 0xFFFFFFFF := by
    rw [wideFirst, if_pos rfl]
    decide
  have hmulti : multiFunction (alone (wideFirst high)).machine.config 0 0 = false := by
    simp [multiFunction, headerType, alone, wideFirst]
  rw [busPlaces_alone hid, hmulti, Bool.and_false, if_neg Bool.false_ne_true, List.take_nil,
    List.append_nil] at hplaces
  exact List.map_eq_singleton_iff.mp hplaces

theorem pci_bars_wide_low :
    ∃ dev, (pciInit (fun _ _ _ value => value) (alone (wideFirst 0))).devices = [dev] ∧
      dev.bars = decodeBars (barRegisters ((alone (wideFirst 0)).machine.config dev.place)) := by
  obtain ⟨dev, hdevices, hplace⟩ := devices_wideFirst (fun _ _ _ value => value) 0
  have hdev := List.mem_singleton_self dev
  rw [← hdevices] at hdev
  refine ⟨dev, hdevices, (pci_bars_iff _ _ hdev).mpr ?_⟩
  rw [hplace]
  decide

/-- The upper half of a register at 64 GiB is listed as one at 16. -/
theorem pci_bars_upper_half :
    ∃ dev, (pciInit (fun _ _ _ value => value) (alone (wideFirst 0x10))).devices = [dev] ∧
      dev.bars = [0x1000000000, 0x10, 0, 0, 0, 0] ∧
      decodeBars (barRegisters ((alone (wideFirst 0x10)).machine.config dev.place)) =
        [0x1000000000, 0, 0, 0, 0, 0] := by
  obtain ⟨dev, hdevices, hplace⟩ := devices_wideFirst (fun _ _ _ value => value) 0x10
  have hdev := List.mem_singleton_self dev
  rw [← hdevices] at hdev
  refine ⟨dev, hdevices, ?_, ?_⟩
  · rw [pciInit_bars _ _ hdev, hplace]
    decide
  · rw [hplace]
    decide

end OmniOS.Pci
