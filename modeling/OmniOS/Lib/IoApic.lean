import Mathlib.Data.Fin.Basic
import Mathlib.Logic.Function.Basic

/-!
# IoApic — an I/O APIC behind its index and window registers

The registers of an I/O APIC are reached through two words: the number of a register is
written to the first, and the second is then that register. There are an id, a version with
the number of the last pin, and two words for each pin, the redirection table, which has room
for 120 pins. A pin that is asserted sends its vector to a processor unless it is masked.
-/

namespace IoApic

/-- The words of a pin. -/
structure Entry where
  low : UInt32
  high : UInt32
deriving DecidableEq

namespace Entry

def vector (e : Entry) : UInt8 := e.low.toUInt8

/-- 0 is fixed. -/
def deliveryMode (e : Entry) : UInt32 := (e.low >>> 8) &&& 0x7

def masked (e : Entry) : Bool := (e.low >>> 16) &&& 1 != 0

/-- Of a physical destination. -/
def destination (e : Entry) : UInt8 := (e.high >>> 24).toUInt8

end Entry

/-- The word at offset 0 of the device, or at offset 0x10. -/
inductive Word where
  | select
  | window

structure Device where
  select : UInt8
  id : UInt32
  /-- The number of the last pin, which the version register shows. -/
  last : Fin 120
  table : Fin 120 → Entry

namespace Device

theorem pin_lt (reg : UInt8) : (reg.toNat - 0x10) / 2 < 120 := by
  have hreg := reg.toNat_lt
  omega

/-- The pin that a register number belongs to. -/
def pinOf (reg : UInt8) : Option (Fin 120) :=
  if 0x10 ≤ reg.toNat then some ⟨(reg.toNat - 0x10) / 2, pin_lt reg⟩ else none

/-- `0x11` is an arbitrary chip version. -/
def version (d : Device) : UInt32 := UInt32.ofNat (d.last.val * 0x10000 + 0x11)

/-- Read the window. -/
def read (d : Device) : UInt32 :=
  if d.select = 0 then d.id
  else if d.select = 1 then d.version
  else
    match pinOf d.select with
    | none => 0
    | some pin => if d.select.toNat % 2 = 0 then (d.table pin).low else (d.table pin).high

/-- Write the window. The version cannot be written, and neither can a pin that is not there. -/
def write (d : Device) (v : UInt32) : Device :=
  if d.select = 0 then { d with id := v }
  else
    match pinOf d.select with
    | none => d
    | some pin =>
        if d.last < pin then d
        else if d.select.toNat % 2 = 0 then
          { d with table := Function.update d.table pin { d.table pin with low := v } }
        else { d with table := Function.update d.table pin { d.table pin with high := v } }

/-- A store to one of the two words. -/
def store (d : Device) (w : Word) (v : UInt32) : Device :=
  match w with
  | .select => { d with select := v.toUInt8 }
  | .window => d.write v

/-- A load from one of the two words. -/
def load (d : Device) : Word → UInt32
  | .select => d.select.toUInt32
  | .window => d.read

/-- What a pin sends when it is asserted: the vector and the processor. -/
def assert (d : Device) (pin : Fin 120) : Option (UInt8 × UInt8) :=
  if (d.table pin).masked ∨ (d.table pin).deliveryMode ≠ 0 ∨ d.last < pin then none
  else some ((d.table pin).vector, (d.table pin).destination)

end Device

end IoApic
