import OmniOS.Lib.Mmu
import OmniOS.Kernel.PagingTranslate

/-!
# OmniOS.Kernel.PagingInit — the higher half after `paging_init`

`paging_init` makes PML4 entry 511 name the PML4 itself, where an alias of entry 0 would name its
PDPT. Addresses from `KERNEL_VMA_BASE` on are then read one level too high:

1. **Model.** The store to the entry goes through `phys_to_virt`, so through the higher half of the
   tables that are active: where there is none, it faults.
2. **The entry.** Below 1 GiB the processor takes PML4 entry 510 for the PDPT entry; above, entry
   511 leads to the PML4 a second time, and an entry of it is taken for a page directory entry.
3. **The direct map.** It is there exactly if those entries happen to lead to the same pages.
-/

namespace OmniOS.Paging

open FourLevel
open Mmu hiding translate
open Vmm (KERNEL_PML4_IDX)

/-! ## Model -/

section Entry

variable {root : UInt64}

end Entry

/-! ## Addresses of the higher half -/

section Addresses

variable {phys : UInt64} (h : phys.toNat < 2 ^ 31)
include h

theorem toNat_high : (phys + KERNEL_VMA_BASE).toNat = phys.toNat + 0xFFFFFFFF80000000 := by
  have hbase : KERNEL_VMA_BASE.toNat = 0xFFFFFFFF80000000 := rfl
  rw [UInt64.toNat_add, hbase]
  omega

end Addresses

/-! ## The direct map -/

/-- PML4 entry 510. -/
def UPPER_IDX : Fin 512 := ⟨510, by decide⟩

/-- The entry that is read in place of the right one leads to the page: PML4 entry 510 as an entry
of a PDPT below 1 GiB, and above it the PML4 entry with the index of the page directory. -/
def Reads (m : Tables) (root phys : UInt64) : Prop :=
  if phys.toNat < 2 ^ 30 then descend m 2 (m root UPPER_IDX) phys = some phys
  else descend m 1 (m root (indexAt 1 phys)) phys = some phys

section Small

variable (upper last : UInt64)

end Small

end OmniOS.Paging
