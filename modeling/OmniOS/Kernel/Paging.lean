import OmniOS.Lib.FourLevel
import OmniOS.Lib.Radix

/-!
# OmniOS.Kernel.Paging — the page tables of `kernel/arch/x86_64/paging.c`

`walk` goes down from `kernel_pml4_phys` and, when asked to, creates what is
missing; `paging_map_page` and `paging_unmap_page` write the leaf it returns.

The kernel reads and writes tables through kernel virtual addresses. `view`
gives the frame behind such an address, so an entry written through the pointer
of `aligned_alloc` is read back through `phys_to_virt` when both show the same
frame. A call that does not return is `none`: `kernel_panic` halts, and a region
loop whose offset wraps around runs forever.
-/

namespace OmniOS.Paging

def PTE_PRESENT : UInt64 := (1 : UInt64) <<< 0
def PTE_WRITABLE : UInt64 := (1 : UInt64) <<< 1
def PTE_USER : UInt64 := (1 : UInt64) <<< 2
def PTE_GLOBAL : UInt64 := (1 : UInt64) <<< 8
def PTE_NX : UInt64 := (1 : UInt64) <<< 63

def PAGE_SIZE : UInt64 := 4096
def PAGE_MASK : UInt64 := ~~~0xFFF
def KERNEL_VMA_BASE : UInt64 := 0xFFFFFFFF80000000

/-- What the page tables rest on: the frames behind kernel addresses, the pages
that `aligned_alloc` returns call by call, and the root of the tree. -/
structure Machine (F : Type*) where
  view : UInt64 → F
  alignedAlloc : Nat → UInt64
  kernelPml4Phys : UInt64

/-- The words of every frame, and the number of pages `aligned_alloc` has returned. -/
abbrev State (F : Type*) := Radix.State F (Fin 512) UInt64

def physToVirt (phys : UInt64) : UInt64 :=
  if phys ≥ KERNEL_VMA_BASE then phys else phys + KERNEL_VMA_BASE

section Model

variable {F : Type*} [DecidableEq F] (M : Machine F)

/-- `phys_to_virt(kernel_pml4_phys)`. -/
def Machine.root : F := M.view (physToVirt M.kernelPml4Phys)

/-- One level of `walk`: the table named by `entries[idx]`, created if wanted. -/
def walkLevel (s : State F) (table : F) (idx : Fin 512) (create : Bool) : State F × Option F :=
  if s.mem table idx &&& PTE_PRESENT == 0 then
    if create then
      let newPage := M.alignedAlloc s.used
      let s := { s with mem := Function.update s.mem (M.view newPage) fun _ => 0, used := s.used + 1 }
      let entry := (newPage &&& PAGE_MASK) ||| PTE_PRESENT ||| PTE_WRITABLE ||| PTE_USER
      let s := { s with mem := Radix.write s.mem table idx entry }
      (s, some (M.view (physToVirt (s.mem table idx &&& PAGE_MASK))))
    else (s, none)
  else (s, some (M.view (physToVirt (s.mem table idx &&& PAGE_MASK))))

/-- The leaf entry for `virt`, as the frame of its table and the index there. -/
def walk (s : State F) (virt : UInt64) (create : Bool) : State F × Option (F × Fin 512) :=
  let pml4Idx := FourLevel.index virt 39
  let pdpIdx := FourLevel.index virt 30
  let pdIdx := FourLevel.index virt 21
  let ptIdx := FourLevel.index virt 12
  match walkLevel M s M.root pml4Idx create with
  | (s, none) => (s, none)
  | (s, some pdpTable) =>
    match walkLevel M s pdpTable pdpIdx create with
    | (s, none) => (s, none)
    | (s, some pdTable) =>
      match walkLevel M s pdTable pdIdx create with
      | (s, none) => (s, none)
      | (s, some ptTable) => (s, some (ptTable, ptIdx))

/-- The entry that `paging_map_page` writes. -/
def pteOf (phys flags : UInt64) : UInt64 :=
  let pte := (phys &&& PAGE_MASK) ||| PTE_PRESENT ||| flags
  if phys < 0x100000000 then pte ||| PTE_GLOBAL else pte

def pagingMapPage (s : State F) (virt phys flags : UInt64) : Option (State F) :=
  match walk M s virt true with
  | (_, none) => none
  | (s, some (table, idx)) => some { s with mem := Radix.write s.mem table idx (pteOf phys flags) }

def pagingUnmapPage (s : State F) (virt : UInt64) : State F :=
  match walk M s virt false with
  | (s, none) => s
  | (s, some (table, idx)) =>
      if s.mem table idx &&& PTE_PRESENT == 0 then s
      else { s with mem := Radix.write s.mem table idx 0 }

/-- `for (size_t offset = 0; offset < size; offset += PAGE_SIZE)`. -/
def offsetLoop {σ : Type*} (size : UInt64) (body : UInt64 → σ → Option σ) :
    (fuel : Nat) → (offset : UInt64) → σ → Option σ
  | 0, _, _ => none
  | fuel + 1, offset, s =>
      if offset < size then (body offset s).bind (offsetLoop size body fuel (offset + PAGE_SIZE))
      else some s

/-- After `2^52` turns the offset is back at 0. -/
def offsetFuel : Nat := 2 ^ 52 + 1

def pagingMapRegion (s : State F) (virt phys size flags : UInt64) : Option (State F) :=
  offsetLoop size (fun offset s => pagingMapPage M s (virt + offset) (phys + offset) flags)
    offsetFuel 0 s

def pagingUnmapRegion (s : State F) (virt size : UInt64) : Option (State F) :=
  offsetLoop size (fun offset s => some (pagingUnmapPage M s (virt + offset))) offsetFuel 0 s

/-- The four calls that change mappings. -/
inductive Call where
  | mapPage (virt phys flags : UInt64)
  | unmapPage (virt : UInt64)
  | mapRegion (virt phys size flags : UInt64)
  | unmapRegion (virt size : UInt64)

def step (s : State F) : Call → Option (State F)
  | .mapPage virt phys flags => pagingMapPage M s virt phys flags
  | .unmapPage virt => some (pagingUnmapPage M s virt)
  | .mapRegion virt phys size flags => pagingMapRegion M s virt phys size flags
  | .unmapRegion virt size => pagingUnmapRegion M s virt size

def run (s : State F) (calls : List Call) : Option (State F) := calls.foldlM (step M) s

/-- The entry that `walk(virt, false)` finds. -/
def leafEntry (s : State F) (virt : UInt64) : Option UInt64 :=
  (walk M s virt false).2.map fun p => s.mem p.1 p.2

end Model

/-! ## What the tables are for -/

section Spec

variable {F : Type*} (M : Machine F)

/-- An entry with `PTE_PRESENT` names the frame seen through `phys_to_virt`. -/
def format : Radix.Format F UInt64 where
  present e := e &&& PTE_PRESENT != 0
  target e := M.view (physToVirt (e &&& PAGE_MASK))
  zero := 0
  zero_absent := by decide

/-- PML4 slots 0 to 255. -/
def LowerSlot (i : Fin 512) : Prop := i.val < 256

/-- The table reached from the root by a list of indices. -/
def tableAt (s : State F) (q : List (Fin 512)) : Option F := Radix.walk (format M) s.mem M.root q

/-- The tables below PML4 slots 0 to 255 form a tree. -/
def LowerTree (s : State F) : Prop :=
  ∀ p q t, Radix.Path 3 LowerSlot p → Radix.Path 3 LowerSlot q →
    tableAt M s p = some t → tableAt M s q = some t → p = q

/-- What is relied on of the pages `aligned_alloc` returns from state `s` until
it was called `calls` times: each is page aligned, seen in the same frame
through `phys_to_virt`, returned once, and no table of the tree. -/
structure FreshPages (s : State F) (calls : Nat) : Prop where
  aligned : ∀ n < calls, (M.alignedAlloc n).toNat % 4096 = 0
  readable : ∀ n < calls, M.view (physToVirt (M.alignedAlloc n)) = M.view (M.alignedAlloc n)
  distinct : ∀ n < calls, ∀ k < calls, M.view (M.alignedAlloc n) = M.view (M.alignedAlloc k) → n = k
  unused : ∀ n < calls, s.used ≤ n → ∀ q, Radix.Path 3 LowerSlot q →
    tableAt M s q ≠ some (M.view (M.alignedAlloc n))

end Spec

/-- One page mapped or unmapped. -/
inductive PageOp where
  | map (virt phys flags : UInt64)
  | unmap (virt : UInt64)

def PageOp.virt : PageOp → UInt64
  | .map virt _ _ => virt
  | .unmap virt => virt

/-- How many pages a region loop of this size visits. -/
def regionPages (size : UInt64) : Nat := (size.toNat + 4095) / 4096

/-- The pages a call maps or unmaps, in order. -/
def Call.pageOps : Call → List PageOp
  | .mapPage virt phys flags => [.map virt phys flags]
  | .unmapPage virt => [.unmap virt]
  | .mapRegion virt phys size flags => (List.range (regionPages size)).map fun i =>
      .map (virt + UInt64.ofNat i * PAGE_SIZE) (phys + UInt64.ofNat i * PAGE_SIZE) flags
  | .unmapRegion virt size => (List.range (regionPages size)).map fun i =>
      .unmap (virt + UInt64.ofNat i * PAGE_SIZE)

def pageOps (calls : List Call) : List PageOp := calls.flatMap Call.pageOps

/-- The last operation on a page. -/
def lastOp (ops : List PageOp) (page : Nat) : Option PageOp :=
  ops.reverse.find? fun op => FourLevel.page op.virt = page

/-- The present leaf an operation leaves at its page. -/
def PageOp.result : PageOp → Option UInt64
  | .map _ phys flags => some (pteOf phys flags)
  | .unmap _ => none

/-- What the operations leave at a page that had the present leaf `before`. -/
def afterOps (ops : List PageOp) (page : Nat) (before : Option UInt64) : Option UInt64 :=
  match lastOp ops page with
  | none => before
  | some op => op.result

/-- Bit 47 is clear. -/
def LowerHalf (virt : UInt64) : Prop := virt.toNat / 2 ^ 47 % 2 = 0

/-- Every address the call is for has bit 47 clear. -/
def Call.LowerHalf (c : Call) : Prop := ∀ op ∈ c.pageOps, Paging.LowerHalf op.virt

end OmniOS.Paging
