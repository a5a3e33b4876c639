import OmniOS.Lib.Lts
import OmniOS.Lib.Memory

/-!
# OmniOS.Kernel.Heap — the kernel heap of `kernel/mm/memory.c`

`kmalloc` and `kfree` work on headers that lie in the heap memory itself. The
model keeps them there: a header is five fields at fixed offsets from a block
address (`heap_block_t` on an LP64 target), every field access is a load or a
store of byte-addressed memory, and the functions below make the accesses of
the source in the source's order.

* `findFree` is the search loop of `kmalloc`, with fuel: `none` means that the
  loop has not ended yet. A heap of `HEAP_SIZE` bytes has fewer headers than
  bytes, so `HEAP_SIZE` rounds are enough.
* `splitBlock`, `coalesceNext`, `coalescePrev` are the pointer edits.
* `system` is a run of the heap: calls of `kmalloc` and `kfree`, and writes of
  the callers into their payloads.

The page allocator of the same file is `OmniOS.Kernel.Pages`.
-/

namespace OmniOS.Heap

open Memory

def HEAP_SIZE : Nat := 64 * 1024 * 1024
def HEAP_MAGIC : Nat := 0xDEADBEEF
def MIN_BLOCK_SIZE : Nat := 32
def ALIGNMENT : UInt64 := 8

/-- `sizeof(heap_block_t)`. -/
def HDR : Nat := 40

/-! ## Header fields

`magic` is 4 bytes at offset 0, `size` 8 bytes at 8, `free` one byte at 16,
`next` and `prev` 8 bytes at 24 and 32. -/

def magic (m : Mem) (block : Nat) : Nat := load m 4 block
def size (m : Mem) (block : Nat) : Nat := load m 8 (block + 8)
def free (m : Mem) (block : Nat) : Bool := load m 1 (block + 16) != 0
def next (m : Mem) (block : Nat) : Nat := load m 8 (block + 24)
def prev (m : Mem) (block : Nat) : Nat := load m 8 (block + 32)

def setMagic (m : Mem) (block v : Nat) : Mem := store m 4 block v
def setSize (m : Mem) (block v : Nat) : Mem := store m 8 (block + 8) v
def setFree (m : Mem) (block : Nat) (v : Bool) : Mem := store m 1 (block + 16) v.toNat
def setNext (m : Mem) (block v : Nat) : Mem := store m 8 (block + 24) v
def setPrev (m : Mem) (block v : Nat) : Mem := store m 8 (block + 32) v

/-! ## The allocator -/

/-- The heap variables of `memory.c` and the memory they point into. -/
structure State where
  mem : Mem
  heapStart : Nat
  heapSize : Nat
  heapFirst : Nat
  heapAllocs : UInt32
  heapFrees : UInt32

/-- The size `kmalloc` looks for: `n` rounded up to `ALIGNMENT` in `size_t`
arithmetic, and at least `MIN_BLOCK_SIZE`. -/
def roundSize (n : UInt64) : Nat :=
  let size := ((n + ALIGNMENT - 1) &&& ~~~(ALIGNMENT - 1)).toNat
  if size < MIN_BLOCK_SIZE then MIN_BLOCK_SIZE else size

/-- The `while (block)` loop: the first block that is free and large enough,
or 0 when the list ends. -/
def findFree (m : Mem) (sz : Nat) : (fuel block : Nat) → Option Nat
  | 0, _ => none
  | fuel + 1, block =>
      if block = 0 then some 0
      else if free m block ∧ sz ≤ size m block then some block
      else findFree m sz fuel (next m block)

/-- `if (b) b->prev = v;` -/
def patchPrev (m : Mem) (b v : Nat) : Mem := if b ≠ 0 then setPrev m b v else m

/-- "Split block if too large". -/
def splitBlock (m : Mem) (block sz : Nat) : Mem :=
  if add64 (add64 sz HDR) MIN_BLOCK_SIZE < size m block then
    let newBlock := block + HDR + sz
    let m := setMagic m newBlock HEAP_MAGIC
    let m := setSize m newBlock (sub64 (sub64 (size m block) sz) HDR)
    let m := setFree m newBlock true
    let m := setNext m newBlock (next m block)
    let m := setPrev m newBlock block
    let m := patchPrev m (next m block) newBlock
    let m := setNext m block newBlock
    setSize m block sz
  else m

/-- `kmalloc`. The outer `none` is a search that does not end. -/
def kmalloc (s : State) (n : UInt64) : Option (Nat × State) :=
  if n = 0 then some (0, s)
  else if s.heapFirst = 0 then some (0, s)
  else
    let sz := roundSize n
    (findFree s.mem sz HEAP_SIZE s.heapFirst).map fun block =>
      if block = 0 then (0, s)
      else
        let m := splitBlock s.mem block sz
        let m := setFree m block false
        let m := setMagic m block HEAP_MAGIC
        (block + HDR, { s with mem := m, heapAllocs := s.heapAllocs + 1 })

/-- "Coalesce with next block". -/
def coalesceNext (m : Mem) (block : Nat) : Mem :=
  if next m block ≠ 0 ∧ free m (next m block) then
    let m := setSize m block (add64 (size m block) (add64 HDR (size m (next m block))))
    let m := setNext m block (next m (next m block))
    patchPrev m (next m block) block
  else m

/-- "Coalesce with prev block". -/
def coalescePrev (m : Mem) (block : Nat) : Mem :=
  if prev m block ≠ 0 ∧ free m (prev m block) then
    let m := setSize m (prev m block)
      (add64 (size m (prev m block)) (add64 HDR (size m block)))
    let m := setNext m (prev m block) (next m block)
    patchPrev m (next m block) (prev m block)
  else m

def kfree (s : State) (ptr : Nat) : State :=
  if ptr = 0 then s
  else
    let block := ptr - HDR
    if magic s.mem block ≠ HEAP_MAGIC then s
    else
      let m := setFree s.mem block true
      let m := coalesceNext m block
      let m := coalescePrev m block
      { s with mem := m, heapFrees := s.heapFrees + 1 }

/-- `kcalloc`: the product is taken in `size_t`. -/
def kcalloc (s : State) (num sz : UInt64) : Option (Nat × State) :=
  let total := num * sz
  (kmalloc s total).map fun (ptr, s) =>
    if ptr = 0 then (0, s) else (ptr, { s with mem := fill s.mem total.toNat ptr 0 })

def krealloc (s : State) (ptr : Nat) (n : UInt64) : Option (Nat × State) :=
  if ptr = 0 then kmalloc s n
  else if n = 0 then some (0, kfree s ptr)
  else
    let block := ptr - HDR
    if magic s.mem block ≠ HEAP_MAGIC then some (0, s)
    else
      let oldSize := size s.mem block
      (kmalloc s n).map fun (newPtr, s) =>
        if newPtr = 0 then (0, s)
        else
          let len := if oldSize < n.toNat then oldSize else n.toNat
          (newPtr, kfree { s with mem := copy s.mem len newPtr fun i => s.mem (ptr + i) } ptr)

/-- The heap part of `mm_init`. `heapBuffer` is the address of the static
fallback buffer; at boot `kmalloc` returns NULL because `_heap_first` is NULL. -/
def mmInitHeap (s : State) (heapBuffer : Nat) : Option State :=
  (kmalloc s (UInt64.ofNat HEAP_SIZE)).map fun (p, s) =>
    let start := if p = 0 then heapBuffer else p
    let m := setMagic s.mem start HEAP_MAGIC
    let m := setSize m start (HEAP_SIZE - HDR)
    let m := setFree m start true
    let m := setNext m start 0
    let m := setPrev m start 0
    { mem := m, heapStart := start, heapSize := HEAP_SIZE, heapFirst := start,
      heapAllocs := 0, heapFrees := 0 }

/-! ## Runs -/

/-- Where the loader put the static buffer: a non-NULL object that ends inside
the address space. -/
structure Buffer where
  addr : Nat
  pos : 0 < addr
  fits : addr + HEAP_SIZE < 2 ^ 64

/-- The heap and the pointers handed out and not yet freed. -/
structure Conf where
  heap : State
  live : List Nat

inductive Call where
  | kmalloc (n : UInt64)
  | kfree (p : Nat)
  | write (a : Nat) (v : UInt8)

/-- A caller may free NULL or a live pointer, and may write a byte of a live
payload. -/
def Next : Call → Conf → Conf → Prop
  | .kmalloc n, c, c' => ∃ p s, kmalloc c.heap n = some (p, s) ∧
      c' = { heap := s, live := if p = 0 then c.live else p :: c.live }
  | .kfree p, c, c' => (p = 0 ∨ p ∈ c.live) ∧
      c' = { heap := kfree c.heap p, live := c.live.erase p }
  | .write a v, c, c' =>
      (∃ p ∈ c.live, p ≤ a ∧ a < p + size c.heap.mem (p - HDR)) ∧
      c' = { c with heap := { c.heap with mem := store c.heap.mem 1 a v.toNat } }

/-- Runs of the heap from the block `mm_init` builds at boot. -/
def system (buf : Buffer) : Lts.System Conf Call where
  Init := fun c => c.live = [] ∧
    ∃ s, s.heapFirst = 0 ∧ mmInitHeap s buf.addr = some c.heap
  Next := Next

end OmniOS.Heap
