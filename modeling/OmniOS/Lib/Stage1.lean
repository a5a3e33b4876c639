import OmniOS.Lib.FourLevel
import OmniOS.Lib.Radix

/-!
# Stage1 — ARMv8-A stage 1 translation with pages of 4 KB

The processor's reading of a tree of tables. Bits 1:0 of a descriptor are `11` for a table at
levels 0 to 2 and for a page at level 3; a descriptor with other bits ends the walk without a
page. Bits 47:12 are the address. `AP[2:1]` in bits 7:6 and bit 54 are the rights of EL0; the
attributes of table descriptors are left out.
-/

namespace Stage1

open FourLevel

abbrev Tables := UInt64 → Fin 512 → UInt64

/-- Bits 1:0 are `11`. -/
def valid (d : UInt64) : Bool := d &&& 3 == 3

def address (d : UInt64) : UInt64 := d &&& 0x0000FFFFFFFFF000

/-- Tables and pages have the same bits. -/
def format : Radix.Format UInt64 UInt64 where
  present := valid
  target := address
  zero := 0
  zero_absent := by decide

/-- The page descriptor that the walk for `virt` ends at; `none` is a translation fault. -/
def translate (m : Tables) (root virt : UInt64) : Option UInt64 :=
  Radix.leaf format m root (path virt) (slot virt)

/-- `AP[2:1]`, in its place. -/
def ap (d : UInt64) : UInt64 := d &&& (3 : UInt64) <<< 6

/-- `01` is read/write for EL0 and EL1, `11` read-only for both. -/
def el0Reads (d : UInt64) : Bool := ap d == (1 : UInt64) <<< 6 || ap d == (3 : UInt64) <<< 6

def el0Writes (d : UInt64) : Bool := ap d == (1 : UInt64) <<< 6

/-- Bit 54 forbids execution at EL0. -/
def el0Executes (d : UInt64) : Bool := d &&& (1 : UInt64) <<< 54 == 0

/-- The bits of a word that are looked at through a mask, where one of its parts has none. -/
theorem or_and_of_disjoint {x y mask : UInt64} (h : x &&& mask = 0) :
    (x ||| y) &&& mask = y &&& mask := by
  rw [or_and, h, UInt64.zero_or]

end Stage1
