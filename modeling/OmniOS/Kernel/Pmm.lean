import Mathlib.Logic.Function.Basic
import OmniOS.Lib.Lts
import OmniOS.Lib.Memory

/-!
# OmniOS.Kernel.Pmm — the page allocator of `kernel/mm/pmm.c`

Zone 0 keeps one free list per order; a block on list `k` spans `2^k` pages and
its first eight bytes hold the pointer to the next block. Physical memory is
identity mapped, so the lists are threaded through `mem`.

A call that does not return is `none`: `kernel_panic` halts, the rounding loop
of `pmm_alloc_pages` can run forever, and `free_lists[order]` with an order
above `PMM_MAX_ORDER` is out of bounds.
-/

namespace OmniOS.Pmm

open Memory

def PAGE_SIZE : Nat := 4096
def PAGE_SHIFT : Nat := 12
def PMM_MAX_ORDER : Nat := 10
def PMM_NUM_ORDERS : Nat := PMM_MAX_ORDER + 1

/-- Memory, `zones[0].free_lists`, `zones[0].free_count`, `used_memory`. -/
structure State where
  mem : Mem
  freeLists : Nat → Nat
  freeCount : UInt64
  usedMemory : UInt64

/-- `1ULL << order`. -/
def orderToPages (order : Nat) : UInt64 := 1 <<< UInt64.ofNat order

/-- The `next` field of the free block at `a`. -/
def next (m : Mem) (a : Nat) : Nat := load m 8 a

/-- Put the block at `b` in front of list `k`. -/
def push (s : State) (k b : Nat) : State :=
  { s with mem := store s.mem 8 b (s.freeLists k)
           freeLists := Function.update s.freeLists k b }

/-- `while (i > order) { i--; ... }`: the upper half of the block goes to the
list below, once per level. -/
def splitLoop (order block : Nat) : (i : Nat) → State → State
  | 0, s => s
  | i + 1, s =>
      if order < i + 1 then
        splitLoop order block i (push s i (block + 2 ^ (i + PAGE_SHIFT)))
      else s

/-- The first order from `order` up whose list is not empty: the `for` loop of
`buddy_alloc` up to its `continue`. -/
def findOrder (s : State) (order : Nat) : Option Nat :=
  (List.range' order (PMM_NUM_ORDERS - order)).find? fun i => s.freeLists i != 0

def buddyAlloc (s : State) (order : Nat) : Nat × State :=
  match findOrder s order with
  | none => (0, s)
  | some i =>
      let block := s.freeLists i
      let s := { s with freeLists := Function.update s.freeLists i (next s.mem block) }
      let s := splitLoop order block i s
      (block, { s with
        freeCount := s.freeCount - orderToPages order
        usedMemory := s.usedMemory + orderToPages order * UInt64.ofNat PAGE_SIZE
        mem := fill s.mem (2 ^ order * PAGE_SIZE) block 0 })

def buddyFree (s : State) (phys order : Nat) : Option State :=
  if order ≤ PMM_MAX_ORDER then
    let s := push s order phys
    some { s with
      freeCount := s.freeCount + orderToPages order
      usedMemory := s.usedMemory - orderToPages order * UInt64.ofNat PAGE_SIZE }
  else none

/-- `while (total < count) { total <<= 1; order++; }`. -/
def orderLoop (count : Nat) : (fuel total order : Nat) → Option Nat
  | 0, _, _ => none
  | fuel + 1, total, order =>
      if total < count then orderLoop count fuel (total * 2 % 2 ^ 64) (order + 1)
      else some order

/-- After 64 doublings `total` is 0 and stays 0, so 65 rounds tell whether the
loop ends. -/
def orderOf (count : UInt64) : Option Nat := orderLoop count.toNat 65 1 0

/-- `phys & ~(PAGE_SIZE - 1)`. -/
def pageBase (phys : Nat) : Nat := phys / PAGE_SIZE * PAGE_SIZE

def pmmAllocPage (s : State) : Option (Nat × State) :=
  let (phys, s) := buddyAlloc s 0
  if phys = 0 then none else some (phys, s)

def pmmAllocPages (s : State) (count : UInt64) : Option (Nat × State) :=
  (orderOf count).map (buddyAlloc s)

def pmmFreePage (s : State) (phys : Nat) : Option State :=
  if phys = 0 then some s else buddyFree s (pageBase phys) 0

def pmmFreePages (s : State) (phys : Nat) (count : UInt64) : Option State :=
  if phys = 0 then some s
  else (orderOf count).bind (buddyFree s (pageBase phys))

/-! ## Runs -/

/-- The allocator and the blocks handed out and not yet freed: address and the
count they were asked for with. -/
structure Conf where
  st : State
  live : List (Nat × UInt64)

inductive Call where
  | allocPage
  | allocPages (count : UInt64)
  | freePage (phys : Nat)
  | freePages (phys : Nat) (count : UInt64)
  | write (a : Nat) (v : UInt8)

/-- A block is freed with the count it was allocated with; its owner may write
its bytes. -/
def Next : Call → Conf → Conf → Prop
  | .allocPage, c, c' => ∃ p s, pmmAllocPage c.st = some (p, s) ∧
      c' = { st := s, live := (p, 1) :: c.live }
  | .allocPages n, c, c' => ∃ p s, pmmAllocPages c.st n = some (p, s) ∧
      c' = { st := s, live := if p = 0 then c.live else (p, n) :: c.live }
  | .freePage p, c, c' => (p, 1) ∈ c.live ∧ ∃ s, pmmFreePage c.st p = some s ∧
      c' = { st := s, live := c.live.erase (p, 1) }
  | .freePages p n, c, c' => (p, n) ∈ c.live ∧ ∃ s, pmmFreePages c.st p n = some s ∧
      c' = { st := s, live := c.live.erase (p, n) }
  | .write a v, c, c' =>
      (∃ p n k, (p, n) ∈ c.live ∧ orderOf n = some k ∧ p ≤ a ∧ a < p + 2 ^ k * PAGE_SIZE) ∧
      c' = { c with st := { c.st with mem := store c.st.mem 1 a v.toNat } }

/-- Runs from the state `s`, with nothing handed out yet. -/
def system (s : State) : Lts.System Conf Call where
  Init := fun c => c = { st := s, live := [] }
  Next := Next

end OmniOS.Pmm
