import Mathlib.Algebra.GroupWithZero.Nat
import Mathlib.Data.List.FinRange
import Mathlib.Logic.Function.Basic
import OmniOS.Lib.Words

/-!
# OmniOS.Kernel.Pci — configuration space and enumeration of `kernel/drivers/pci.c`

The configuration registers are reached through two ports: an address is written to
`PCI_CONFIG_ADDR`, and `PCI_CONFIG_DATA` is then the dword it names. A function that is not
there reads as all ones. What a register holds after it was written is up to the function
(`latch`).

`pciReadConfig_eq` says that the address the code puts together is decoded to the register it
means. The reads are then a matter of the registers alone: `deviceOf` is the record that the
scan makes of a function.
-/

namespace OmniOS.Pci

def PCI_MAX_DEVICES : Nat := 256
def PCI_COMMAND : UInt8 := 0x04
def PCI_CLASS : UInt8 := 0x0A
def PCI_HEADER_TYPE : UInt8 := 0x0E
def PCI_BAR0 : UInt8 := 0x10
def PCI_INTERRUPT : UInt8 := 0x3C
def PCI_COMMAND_IO : UInt32 := (1 : UInt32) <<< 0
def PCI_COMMAND_MEM : UInt32 := (1 : UInt32) <<< 1
def PCI_COMMAND_MASTER : UInt32 := (1 : UInt32) <<< 2

/-- What `pci_enable_bus_master` sets. -/
def enableBits : UInt32 := PCI_COMMAND_IO ||| PCI_COMMAND_MEM ||| PCI_COMMAND_MASTER

scoped instance neZero_slots : NeZero 32 := ⟨by decide⟩
scoped instance neZero_functions : NeZero 8 := ⟨by decide⟩
scoped instance neZero_dwords : NeZero 64 := ⟨by decide⟩

/-! ## Ports -/

/-- A function of a device on a bus. -/
structure Location where
  bus : UInt8
  slot : Fin 32
  func : Fin 8
deriving DecidableEq

/-- The 256 bytes of a function, as dwords. -/
abbrev Registers := Fin 64 → UInt32

/-- The address port, and the registers behind the data port. -/
structure Machine where
  address : UInt32
  config : Location → Registers

abbrev Run := StateM Machine

/-- The bits of an address, as the host bridge takes them. -/
def decode (address : UInt32) : Option (Location × Fin 64) :=
  let n := address.toNat
  if n / 2 ^ 31 % 2 = 1 then
    some (⟨UInt8.ofNat (n / 2 ^ 16 % 256), ⟨n / 2 ^ 11 % 32, Nat.mod_lt _ (by decide)⟩,
      ⟨n / 2 ^ 8 % 8, Nat.mod_lt _ (by decide)⟩⟩, ⟨n / 4 % 64, Nat.mod_lt _ (by decide)⟩)
  else none

/-- What a register becomes when it is written: its place, its value and the new one. -/
abbrev Latch := Location → Fin 64 → UInt32 → UInt32 → UInt32

def outlAddress (value : UInt32) : Run Unit := fun s => ((), { s with address := value })

def inlData : Run UInt32 := fun s =>
  match decode s.address with
  | none => (0xFFFFFFFF, s)
  | some (l, r) => (s.config l r, s)

def outlData (latch : Latch) (value : UInt32) : Run Unit := fun s =>
  match decode s.address with
  | none => ((), s)
  | some (l, r) =>
      let registers := Function.update (s.config l) r (latch l r (s.config l r) value)
      ((), { s with config := Function.update s.config l registers })

/-- `(1 << 31) | (bus << 16) | (slot << 11) | (func << 8) | (offset & 0xFC)`. -/
def configAddress (l : Location) (offset : UInt8) : UInt32 :=
  (1 : UInt32) <<< 31 ||| l.bus.toUInt32 <<< 16 ||| UInt32.ofNat l.slot.val <<< 11 |||
    UInt32.ofNat l.func.val <<< 8 ||| (offset &&& 0xFC).toUInt32

def pciReadConfig (l : Location) (offset : UInt8) : Run UInt32 := do
  outlAddress (configAddress l offset)
  inlData

def pciWriteConfig (latch : Latch) (l : Location) (offset : UInt8) (value : UInt32) : Run Unit := do
  outlAddress (configAddress l offset)
  outlData latch value

/-! ## Enumeration -/

/-- `pci_device_t`; `status` is never set. -/
structure Device where
  vendorId : UInt16
  deviceId : UInt16
  command : UInt16
  revision : UInt8
  cls : UInt8
  subclass : UInt8
  progIf : UInt8
  place : Location
  bars : List UInt64
  irq : UInt8
  valid : Bool

section Model

variable (latch : Latch)

/-- The new value of `dev->command`. -/
def pciEnableBusMaster (l : Location) : Run UInt16 := do
  let cmd ← pciReadConfig l PCI_COMMAND
  let cmd := cmd ||| enableBits
  pciWriteConfig latch l PCI_COMMAND cmd
  return cmd.toUInt16

def pciReadBar (l : Location) (bar : Nat) : Run UInt64 := do
  let offset := PCI_BAR0 + UInt8.ofNat (bar * 4)
  let low ← pciReadConfig l offset
  if low &&& 1 ≠ 0 then return (low &&& ~~~3).toUInt64
  if low &&& 6 = 4 then
    let high ← pciReadConfig l (offset + 4)
    return high.toUInt64 <<< 32 ||| (low &&& ~~~0xF).toUInt64
  return (low &&& ~~~0xF).toUInt64

/-- `for (int b = 0; b < 6; b++)`, over the registers left. -/
def readBars (l : Location) : List Nat → Run (List UInt64)
  | [] => return []
  | b :: bs => do
      let bar ← pciReadBar l b
      let bars ← readBars l bs
      return bar :: bars

/-- The record of a function with this id. -/
def readDevice (l : Location) (id2 : UInt32) : Run Device := do
  let classRev ← pciReadConfig l PCI_CLASS
  -- `dev->command` is set here, and again by `pci_enable_bus_master`
  let _cmd ← pciReadConfig l PCI_COMMAND
  let bars ← readBars l (List.range 6)
  let irqLine ← pciReadConfig l PCI_INTERRUPT
  let command ← pciEnableBusMaster latch l
  return {
    vendorId := id2.toUInt16
    deviceId := (id2 >>> 16).toUInt16
    command := command
    revision := classRev.toUInt8
    cls := (classRev >>> 24).toUInt8
    subclass := (classRev >>> 16).toUInt8
    progIf := (classRev >>> 8).toUInt8
    place := l
    bars := bars
    irq := irqLine.toUInt8
    valid := true }

/-- The machine and the devices found, `device_count` of them. -/
structure State where
  machine : Machine
  devices : List Device

/-- A read by the scan. -/
def State.read (s : State) (l : Location) (offset : UInt8) : UInt32 × State :=
  let (value, machine) := pciReadConfig l offset s.machine
  (value, { s with machine := machine })

/-- The inner loop of `pci_scan_bus`, over the functions left; `true` if the table is full and
the scan returns. -/
def scanFunctions (bus : UInt8) (slot : Fin 32) : List (Fin 8) → State → Bool × State
  | [], s => (false, s)
  | func :: funcs, s =>
      let (id2, s) := s.read ⟨bus, slot, func⟩ 0
      if id2 = 0xFFFFFFFF then scanFunctions bus slot funcs s
      else if PCI_MAX_DEVICES ≤ s.devices.length then (true, s)
      else
        let (dev, machine) := readDevice latch ⟨bus, slot, func⟩ id2 s.machine
        scanFunctions bus slot funcs { machine := machine, devices := s.devices ++ [dev] }

/-- `func < (hdr_type & 0x80 ? 8 : 1)`. -/
def functionsOf (hdrType : UInt8) : List (Fin 8) :=
  if hdrType &&& 0x80 ≠ 0 then List.finRange 8 else [0]

/-- The outer loop, over the slots left. -/
def scanSlots (bus : UInt8) : List (Fin 32) → State → State
  | [], s => s
  | slot :: slots, s =>
      let (id, s) := s.read ⟨bus, slot, 0⟩ 0
      if id = 0xFFFFFFFF then scanSlots bus slots s
      else
        let (hdr, s) := s.read ⟨bus, slot, 0⟩ PCI_HEADER_TYPE
        let hdrType := (hdr >>> 16).toUInt8
        match scanFunctions latch bus slot (functionsOf hdrType) s with
        | (true, s) => s
        | (false, s) => scanSlots bus slots s

def pciScanBus (bus : UInt8) (s : State) : State := scanSlots latch bus (List.finRange 32) s

def pciInit (s : State) : State :=
  let s := { s with devices := [] }
  let s := pciScanBus latch 0 s
  let (hdr, s) := s.read ⟨0, 0, 0⟩ PCI_HEADER_TYPE
  if (hdr >>> 16) &&& 0x80 ≠ 0 then
    let (vid, s) := s.read ⟨0, 0, 0⟩ 0
    if vid ≠ 0xFFFFFFFF then pciScanBus latch 0 s else s
  else s

end Model

/-! ## Addresses -/

/-- The dword of an offset. -/
def dwordOf (offset : UInt8) : Fin 64 := ⟨offset.toNat / 4, by have := offset.toNat_lt; omega⟩

theorem and_dword_mask (offset : UInt8) : (offset &&& 0xFC).toNat = offset.toNat / 4 * 4 := by
  have hall : ∀ n < 256, (UInt8.ofNat n &&& 0xFC).toNat = n / 4 * 4 := by decide +kernel
  have hoffset := hall offset.toNat offset.toNat_lt
  rwa [UInt8.ofNat_toNat] at hoffset

theorem configAddress_toNat (l : Location) (offset : UInt8) :
    (configAddress l offset).toNat = 2 ^ 31 + l.bus.toNat * 2 ^ 16 + l.slot.val * 2 ^ 11 +
      l.func.val * 2 ^ 8 + offset.toNat / 4 * 4 := by
  have hbus := l.bus.toNat_lt
  have hslot := l.slot.isLt
  have hfunc := l.func.isLt
  have hoffset := offset.toNat_lt
  have hshifts : (31 : UInt32).toNat = 31 ∧ (16 : UInt32).toNat = 16 ∧ (11 : UInt32).toNat = 11 ∧
      (8 : UInt32).toNat = 8 := by decide
  have henable : ((1 : UInt32) <<< 31).toNat = 2 ^ 31 := by decide
  have hbus' : (l.bus.toUInt32 <<< 16).toNat = l.bus.toNat * 2 ^ 16 :=
    Words.toNat_shiftLeft_32 (by decide) (by rw [UInt8.toNat_toUInt32, hshifts.2.1]; omega)
  have hslot' : (UInt32.ofNat l.slot.val <<< 11).toNat = l.slot.val * 2 ^ 11 := by
    have hval : (UInt32.ofNat l.slot.val).toNat = l.slot.val := by
      rw [UInt32.toNat_ofNat']
      omega
    rw [Words.toNat_shiftLeft_32 (by decide) (by rw [hval, hshifts.2.2.1]; omega), hval]
    rfl
  have hfunc' : (UInt32.ofNat l.func.val <<< 8).toNat = l.func.val * 2 ^ 8 := by
    have hval : (UInt32.ofNat l.func.val).toNat = l.func.val := by
      rw [UInt32.toNat_ofNat']
      omega
    rw [Words.toNat_shiftLeft_32 (by decide) (by rw [hval, hshifts.2.2.2]; omega), hval]
    rfl
  have hlow : (offset &&& 0xFC).toUInt32.toNat = offset.toNat / 4 * 4 := by
    rw [UInt8.toNat_toUInt32, and_dword_mask]
  -- the fields from the top down
  have h₁ : ((1 : UInt32) <<< 31 ||| l.bus.toUInt32 <<< 16).toNat =
      2 ^ 31 + l.bus.toNat * 2 ^ 16 := by
    rw [Words.toNat_or_low_32 (k := 31) (henable ▸ Nat.dvd_refl _) (by rw [hbus']; omega),
      henable, hbus']
  have h₂ := Words.toNat_or_low_32 (k := 16)
    (x := (1 : UInt32) <<< 31 ||| l.bus.toUInt32 <<< 16) (y := UInt32.ofNat l.slot.val <<< 11)
    (by rw [h₁]; omega) (by rw [hslot']; omega)
  have h₃ := Words.toNat_or_low_32 (k := 11) (y := UInt32.ofNat l.func.val <<< 8)
    (by rw [h₂, h₁, hslot']; omega) (by rw [hfunc']; omega)
  rw [configAddress, Words.toNat_or_low_32 (k := 8) (by rw [h₃, h₂, h₁, hslot', hfunc']; omega)
    (by rw [hlow]; omega), h₃, h₂, h₁, hslot', hfunc', hlow]

theorem decode_configAddress (l : Location) (offset : UInt8) :
    decode (configAddress l offset) = some (l, dwordOf offset) := by
  obtain ⟨bus, slot, func⟩ := l
  have hbus := bus.toNat_lt
  have hslot := slot.isLt
  have hfunc := func.isLt
  have hoffset := offset.toNat_lt
  have haddress := configAddress_toNat ⟨bus, slot, func⟩ offset
  simp only at haddress
  simp only [decode, haddress]
  rw [if_pos (by omega), Option.some.injEq, Prod.mk.injEq, Location.mk.injEq]
  refine ⟨⟨?_, ?_, ?_⟩, ?_⟩
  · rw [← UInt8.toNat_inj, UInt8.toNat_ofNat']
    omega
  · apply Fin.ext
    dsimp only
    omega
  · apply Fin.ext
    dsimp only
    omega
  · apply Fin.ext
    simp only [dwordOf]
    omega

/-! ## Reads -/

section Reads

variable {α : Type} (s : Machine) (l : Location) (offset : UInt8)

/-- The code gets the register it asks for. -/
theorem pciReadConfig_eq : pciReadConfig l offset s =
    (s.config l (dwordOf offset), { s with address := configAddress l offset }) := by
  show inlData { s with address := configAddress l offset } = _
  simp only [inlData, decode_configAddress]

theorem pciReadConfig_bind (f : UInt32 → Run α) : (pciReadConfig l offset >>= f) s =
    f (s.config l (dwordOf offset)) { s with address := configAddress l offset } := by
  show f (pciReadConfig l offset s).1 (pciReadConfig l offset s).2 = _
  rw [pciReadConfig_eq]

/-- Only the register that is written changes. -/
theorem pciWriteConfig_config (latch : Latch) (value : UInt32) :
    (pciWriteConfig latch l offset value s).2.config = Function.update s.config l
      (Function.update (s.config l) (dwordOf offset)
        (latch l (dwordOf offset) (s.config l (dwordOf offset)) value)) := by
  show (outlData latch value { s with address := configAddress l offset }).2.config = _
  simp only [outlData, decode_configAddress]

end Reads

/-! ## Records -/

/-- BAR register `i`; number 6 is the dword behind them. -/
def barRegister (c : Registers) (i : Nat) : UInt32 := c (Fin.ofNat 64 (4 + i))

/-- What `pci_read_bar` makes of a register and the next one. -/
def barAt (low high : UInt32) : UInt64 :=
  if low &&& 1 ≠ 0 then (low &&& ~~~3).toUInt64
  else if low &&& 6 = 4 then high.toUInt64 <<< 32 ||| (low &&& ~~~0xF).toUInt64
  else (low &&& ~~~0xF).toUInt64

/-- The six entries of `bars`. -/
def barsOf (c : Registers) : List UInt64 :=
  (List.range 6).map fun b => barAt (barRegister c b) (barRegister c (b + 1))

/-- The record of a function with registers `c`. -/
def deviceOf (c : Registers) (l : Location) (id2 : UInt32) : Device where
  vendorId := id2.toUInt16
  deviceId := (id2 >>> 16).toUInt16
  command := (c 1 ||| enableBits).toUInt16
  revision := (c 2).toUInt8
  cls := (c 2 >>> 24).toUInt8
  subclass := (c 2 >>> 16).toUInt8
  progIf := (c 2 >>> 8).toUInt8
  place := l
  bars := barsOf c
  irq := (c 15).toUInt8
  valid := true

section Records

variable (latch : Latch) (l : Location) (s : Machine)

theorem run_bind {α β : Type} (x : Run α) (f : α → Run β) : (x >>= f) s = f (x s).1 (x s).2 := rfl

theorem dwordOf_bar : ∀ b < 6, dwordOf (PCI_BAR0 + UInt8.ofNat (b * 4)) = Fin.ofNat 64 (4 + b) ∧
    dwordOf (PCI_BAR0 + UInt8.ofNat (b * 4) + 4) = Fin.ofNat 64 (4 + (b + 1)) := by decide

theorem pciReadBar_eq {b : Nat} (hb : b < 6) :
    (pciReadBar l b s).1 = barAt (barRegister (s.config l) b) (barRegister (s.config l) (b + 1)) ∧
      (pciReadBar l b s).2.config = s.config := by
  obtain ⟨hlow, hhigh⟩ := dwordOf_bar b hb
  unfold pciReadBar barAt barRegister
  rw [pciReadConfig_bind, hlow]
  split
  · exact ⟨rfl, rfl⟩
  · split
    · rw [pciReadConfig_bind, hhigh]
      exact ⟨rfl, rfl⟩
    · exact ⟨rfl, rfl⟩

theorem readBars_eq {bs : List Nat} (hbs : ∀ b ∈ bs, b < 6) :
    (readBars l bs s).1 = bs.map (fun b =>
        barAt (barRegister (s.config l) b) (barRegister (s.config l) (b + 1))) ∧
      (readBars l bs s).2.config = s.config := by
  induction bs generalizing s with
  | nil => exact ⟨rfl, rfl⟩
  | cons b bs ih =>
      obtain ⟨hbar, hconfig⟩ := pciReadBar_eq l s (hbs b List.mem_cons_self)
      obtain ⟨hbars, hconfig'⟩ := ih (pciReadBar l b s).2 fun b' hb' =>
        hbs b' (List.mem_cons_of_mem b hb')
      rw [hconfig] at hbars hconfig'
      rw [readBars, run_bind, run_bind, List.map_cons, ← hbar, ← hbars]
      exact ⟨rfl, hconfig'⟩

theorem pciEnableBusMaster_eq :
    (pciEnableBusMaster latch l s).1 = (s.config l 1 ||| enableBits).toUInt16 ∧
      ∀ l' r, r ≠ 1 → (pciEnableBusMaster latch l s).2.config l' r = s.config l' r := by
  have hdword : dwordOf PCI_COMMAND = 1 := by decide
  rw [pciEnableBusMaster, pciReadConfig_bind, hdword, run_bind]
  refine ⟨rfl, fun l' r hr => ?_⟩
  show (pciWriteConfig latch l PCI_COMMAND _ _).2.config l' r = _
  rw [pciWriteConfig_config, hdword]
  by_cases hl : l' = l
  · rw [hl, Function.update_self, Function.update_of_ne hr]
  · rw [Function.update_of_ne hl]

/-- The record of a function, and the registers after it was made: only the command register
is written. -/
theorem readDevice_eq (id2 : UInt32) :
    (readDevice latch l id2 s).1 = deviceOf (s.config l) l id2 ∧
      ∀ l' r, r ≠ 1 → (readDevice latch l id2 s).2.config l' r = s.config l' r := by
  have hdwords : dwordOf PCI_CLASS = 2 ∧ dwordOf PCI_INTERRUPT = 15 := by decide
  -- the machine in front of `readBars`, and in front of `pci_enable_bus_master`
  obtain ⟨m, hm⟩ : ∃ m : Machine, (⟨configAddress l PCI_COMMAND, s.config⟩ : Machine) = m :=
    ⟨_, rfl⟩
  obtain ⟨m', hm'⟩ : ∃ m' : Machine, (⟨configAddress l PCI_INTERRUPT,
      (readBars l (List.range 6) m).2.config⟩ : Machine) = m' := ⟨_, rfl⟩
  obtain ⟨hbars, hsame⟩ := @readBars_eq l m (List.range 6) fun b => List.mem_range.mp
  obtain ⟨hcommand, hwrite⟩ := pciEnableBusMaster_eq latch l m'
  have hconfig : m.config = s.config := by rw [← hm]
  have hconfig' : m'.config = s.config := by rw [← hm', hsame, hconfig]
  rw [readDevice, pciReadConfig_bind, pciReadConfig_bind, run_bind, pciReadConfig_bind, run_bind,
    hdwords.1, hdwords.2]
  dsimp only
  rw [hm, hm', hbars, hcommand, hsame, hconfig', hconfig]
  refine ⟨rfl, fun l' r hr => ?_⟩
  rw [← hconfig']
  exact hwrite l' r hr

end Records

end OmniOS.Pci
