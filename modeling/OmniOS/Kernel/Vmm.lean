import OmniOS.Kernel.Paging
import OmniOS.Lib.Lts

/-!
# OmniOS.Kernel.Vmm — address spaces of `kernel/mm/vmm.c`

A space has a page-table root of its own (`pml4_phys`) and a table of regions;
`vmm_switch_space` loads the root into CR3. Mapping and unmapping go through
`paging_map_page` and `paging_unmap_page`, which walk from `kernel_pml4_phys`.

Spaces are named by their position: 0 is `kernel_space`, `vmm_create_space`
appends. Each space is a record of its own, although the page that
`vmm_create_space` takes for one is smaller than a `vm_space_t`. The `n`-th call
of `pmm_alloc_page` returns `pmmAllocPage n`, 0 when it fails. A call that does
not return, or that is given a space there is not, is `none`.
-/

namespace OmniOS.Vmm

open Paging (PAGE_SIZE PTE_PRESENT PTE_WRITABLE PTE_USER PTE_NX KERNEL_VMA_BASE)

def VM_REGION_MAX : Nat := 1024
def VM_WRITE : UInt64 := (1 : UInt64) <<< 1
def VM_EXEC : UInt64 := (1 : UInt64) <<< 2
def VM_USER : UInt64 := (1 : UInt64) <<< 3

def KERNEL_PML4_IDX : Fin 512 := ⟨511, by decide⟩
def KERNEL_HEAP_BASE : UInt64 := 0xFFFFFFFF90000000
/-- `vm_region_t`. -/
structure Region where
  start : UInt64
  endAddr : UInt64
  flags : UInt64
  id : UInt32
  physBase : UInt64
  used : Bool

/-- `vm_space_t`. -/
structure Space where
  regions : Fin VM_REGION_MAX → Region
  heapStart : UInt64
  heapEnd : UInt64
  mmapBase : UInt64
  regionCount : UInt32
  pml4Phys : UInt64

/-- The machine under the page tables, and `pmm_alloc_page`. -/
structure Kernel (F : Type*) extends Paging.Machine F where
  pmmAllocPage : Nat → UInt64

/-- Memory, CR3, the number of calls of `pmm_alloc_page`, and the variables of `vmm.c`. -/
structure State (F : Type*) where
  paging : Paging.State F
  cr3 : UInt64
  pmmUsed : Nat
  spaces : List Space
  current : Nat
  nextRegionId : UInt32

/-- A space filled with zeros. -/
def zeroSpace : Space :=
  ⟨fun _ => ⟨0, 0, 0, 0, 0, false⟩, 0, 0, 0, 0, 0⟩

section Model

variable {F : Type*} [DecidableEq F] (K : Kernel F)

def vmmInit (s : State F) : State F :=
  let kernelSpace := { zeroSpace with
    pml4Phys := s.cr3, heapStart := KERNEL_HEAP_BASE, heapEnd := KERNEL_HEAP_BASE }
  { s with spaces := [kernelSpace], current := 0 }

/-- The part of `vmm_create_space` after both allocations. -/
def setUpSpace (s : State F) (pml4Phys : UInt64) : State F :=
  let kernelPml4 := K.view KERNEL_VMA_BASE
  let newPml4 := K.view (pml4Phys + KERNEL_VMA_BASE)
  let mem := Function.update s.paging.mem newPml4 fun _ => 0
  let mem := Radix.write mem newPml4 KERNEL_PML4_IDX (mem kernelPml4 KERNEL_PML4_IDX)
  let space := { zeroSpace with
    pml4Phys := pml4Phys, heapStart := 0x6000000000, heapEnd := 0x6000000000,
    mmapBase := 0x7000000000 }
  { s with paging := { s.paging with mem := mem }, spaces := s.spaces ++ [space] }

def vmmCreateSpace (s : State F) : State F × Option Nat :=
  if K.pmmAllocPage s.pmmUsed = 0 then ({ s with pmmUsed := s.pmmUsed + 1 }, none)
  else if K.pmmAllocPage (s.pmmUsed + 1) = 0 then ({ s with pmmUsed := s.pmmUsed + 2 }, none)
  else
    (setUpSpace K { s with pmmUsed := s.pmmUsed + 2 } (K.pmmAllocPage (s.pmmUsed + 1)),
      some s.spaces.length)

def vmmSwitchSpace (s : State F) (space : Option Nat) : Option (State F) :=
  match space with
  | none => some s
  | some i => s.spaces[i]?.map fun sp => { s with current := i, cr3 := sp.pml4Phys }

/-- The flags that `vmm_map_pages` hands to `paging_map_page`. -/
def pteFlags (flags : UInt64) : UInt64 :=
  let pteFlags := PTE_PRESENT
  let pteFlags := if flags &&& VM_WRITE != 0 then pteFlags ||| PTE_WRITABLE else pteFlags
  let pteFlags := if flags &&& VM_USER != 0 then pteFlags ||| PTE_USER else pteFlags
  if flags &&& VM_EXEC == 0 then pteFlags ||| PTE_NX else pteFlags

/-- One turn of the loop of `vmm_map_pages`. -/
def mapOne (virt phys flags : UInt64) (s : State F) (i : Nat) : Option (State F) :=
  let (frame, s) :=
    if phys != 0 then (phys + UInt64.ofNat i * PAGE_SIZE, s)
    else (K.pmmAllocPage s.pmmUsed, { s with pmmUsed := s.pmmUsed + 1 })
  (Paging.pagingMapPage K.toMachine s.paging (virt + UInt64.ofNat i * PAGE_SIZE) frame
    (pteFlags flags)).map fun paging => { s with paging := paging }

/-- The loop that records a region in the first entry not used. -/
def recordRegion (s : State F) (space : Nat) (sp : Space) (virt phys pages flags : UInt64) :
    State F :=
  match (List.finRange VM_REGION_MAX).find? fun i => !(sp.regions i).used with
  | none => s
  | some i =>
      let region : Region := ⟨virt, virt + pages * PAGE_SIZE, flags, s.nextRegionId, phys, true⟩
      let sp := { sp with
        regions := Function.update sp.regions i region, regionCount := sp.regionCount + 1 }
      { s with spaces := s.spaces.set space sp, nextRegionId := s.nextRegionId + 1 }

def vmmMapPages (s : State F) (space : Nat) (virt phys pages flags : UInt64) : Option (State F) :=
  match s.spaces[space]? with
  | none => none
  | some sp =>
      let s :=
        if space = s.current ∨ space = 0 then
          (List.range pages.toNat).foldlM (mapOne K virt phys flags) s
        else some s
      s.map fun s => recordRegion s space sp virt phys pages flags

/-- The loop that clears the first entry starting at `virt`. -/
def clearRegion (s : State F) (space : Nat) (sp : Space) (virt : UInt64) : State F :=
  match (List.finRange VM_REGION_MAX).find? fun i => (sp.regions i).start == virt with
  | none => s
  | some i =>
      let sp := { sp with
        regions := Function.update sp.regions i { sp.regions i with used := false }
        regionCount := sp.regionCount - 1 }
      { s with spaces := s.spaces.set space sp }

/-- One turn of the loop of `vmm_unmap_pages`. -/
def unmapOne (virt : UInt64) (s : State F) (i : Nat) : State F :=
  { s with paging := Paging.pagingUnmapPage K.toMachine s.paging (virt + UInt64.ofNat i * PAGE_SIZE) }

def vmmUnmapPages (s : State F) (space : Nat) (virt pages : UInt64) : Option (State F) :=
  match s.spaces[space]? with
  | none => none
  | some sp =>
      let s :=
        if space = s.current ∨ space = 0 then (List.range pages.toNat).foldl (unmapOne K virt) s
        else s
      some (clearRegion s space sp virt)

end Model

/-! ## Runs -/

inductive Op where
  | create
  | switch (space : Option Nat)
  | map (space : Nat) (virt phys pages flags : UInt64)
  | unmap (space : Nat) (virt pages : UInt64)

/-- The space a call maps or unmaps pages in. -/
def Op.target : Op → Option Nat
  | .map space _ _ _ _ => some space
  | .unmap space _ _ => some space
  | _ => none

/-- `vmm_create_space` returned the space. -/
def State.Created {F : Type*} (s : State F) (space : Nat) : Prop := 0 < space ∧ space < s.spaces.length

/-- The pages from `virt` on lie in the user half. -/
def UserPages (virt pages : UInt64) : Prop := ∀ i < pages.toNat, virt.toNat + i * 4096 < 2 ^ 47

/-- Map and unmap calls are for user pages of a space that was created. -/
def Op.User {F : Type*} (s : State F) : Op → Prop
  | .create => True
  | .switch _ => True
  | .map space virt _ pages _ => s.Created space ∧ UserPages virt pages
  | .unmap space virt pages => s.Created space ∧ UserPages virt pages

instance {F : Type*} (s : State F) (space : Nat) : Decidable (s.Created space) :=
  inferInstanceAs (Decidable (_ ∧ _))

instance (virt pages : UInt64) : Decidable (UserPages virt pages) :=
  inferInstanceAs (Decidable (∀ i < pages.toNat, virt.toNat + i * 4096 < 2 ^ 47))

instance {F : Type*} (s : State F) (op : Op) : Decidable (op.User s) :=
  match op with
  | .create => inferInstanceAs (Decidable True)
  | .switch _ => inferInstanceAs (Decidable True)
  | .map _ _ _ _ _ => inferInstanceAs (Decidable (_ ∧ _))
  | .unmap _ _ _ => inferInstanceAs (Decidable (_ ∧ _))

section Runs

variable {F : Type*} [DecidableEq F] (K : Kernel F)

def step (s : State F) : Op → Option (State F)
  | .create => some (vmmCreateSpace K s).1
  | .switch space => vmmSwitchSpace s space
  | .map space virt phys pages flags => vmmMapPages K s space virt phys pages flags
  | .unmap space virt pages => vmmUnmapPages K s space virt pages

/-- The frame that the `i`-th page of a map call gets. -/
def frameOf (s : State F) (phys : UInt64) (i : Nat) : UInt64 :=
  if phys != 0 then phys + UInt64.ofNat i * PAGE_SIZE else K.pmmAllocPage (s.pmmUsed + i)

/-- The pages that a call maps or unmaps, whether or not the tables follow. -/
def pageOps (s : State F) : Op → List Paging.PageOp
  | .map _ virt phys pages flags => (List.range pages.toNat).map fun i =>
      .map (virt + UInt64.ofNat i * PAGE_SIZE) (frameOf K s phys i) (pteFlags flags)
  | .unmap _ virt pages => (List.range pages.toNat).map fun i =>
      .unmap (virt + UInt64.ofNat i * PAGE_SIZE)
  | _ => []

/-- The state together with what the calls so far have mapped in every space: the
entry of each page that was mapped there and not unmapped since. -/
structure Conf (F : Type*) where
  st : State F
  mapped : Nat → Nat → Option UInt64

/-- `aligned_alloc` and `pmm_alloc_page` hand out unused pages `N` times: none is a
table, and the root of a new space is no page that a table is put in. -/
structure Fresh (s : State F) (N : Nat) : Prop where
  tables : Paging.FreshPages K.toMachine s.paging N
  roots : ∀ n < N, ∀ q, Radix.Path 3 Paging.LowerSlot q →
    Paging.tableAt K.toMachine s.paging q ≠ some (K.view (K.pmmAllocPage n + KERNEL_VMA_BASE))
  apart : ∀ n < N, ∀ k < N,
    K.view (K.alignedAlloc k) ≠ K.view (K.pmmAllocPage n + KERNEL_VMA_BASE)

/-- Account for the pages of a call in the space it is for. -/
def account (c : Conf F) (op : Op) (space page : Nat) : Option UInt64 :=
  if op.target = some space then Paging.afterOps (pageOps K c.st op) page (c.mapped space page)
  else c.mapped space page

/-- Runs from `vmm_init` on, over any tree of tables, in which each allocator is
called at most `N` times. -/
def system (N : Nat) : Lts.System (Conf F) Op where
  Init c := (∃ s, c.st = vmmInit s) ∧ (∀ space page, c.mapped space page = none) ∧
    Paging.LowerTree K.toMachine c.st.paging ∧ Fresh K c.st N
  Next op c c' := op.User c.st ∧ step K c.st op = some c'.st ∧
    c'.st.paging.used ≤ N ∧ c'.st.pmmUsed ≤ N ∧ c'.mapped = account K c op

/-- The next state of a run, computed. -/
def next (N : Nat) (c : Conf F) (op : Op) : Option (Conf F) :=
  if op.User c.st then
    (step K c.st op).bind fun s' =>
      if s'.paging.used ≤ N ∧ s'.pmmUsed ≤ N then some ⟨s', account K c op⟩ else none
  else none

end Runs

end OmniOS.Vmm
