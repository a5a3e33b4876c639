import Mathlib.Logic.Function.Basic
import OmniOS.Lib.Memory

/-!
# OmniOS.Kernel.Virtio — virtqueues of `kernel/drivers/virtio.c`

A queue has three parts in memory: the descriptors, the ring of descriptors handed to
the device, and the used ring, which the device writes and the driver polls. The used
ring is bytes: `virtio.h` lays its elements out in six bytes (a 16-bit id and a 32-bit
length), the device in eight (`Queue.complete`).

`pmm_alloc_pages` returns zeroed pages. An access outside of the descriptors or a
division by a zero `size` is `none`.
-/

namespace OmniOS.Virtio

/-- `virtq_desc_t`. -/
structure Desc where
  addr : UInt64
  len : UInt32
  flags : UInt16
  next : UInt16

/-- `virtio_queue_t` with the memory it points to; `entries` descriptors were
allocated. -/
structure Queue where
  desc : Nat → Desc
  entries : Nat
  availIdx : UInt16
  availRing : Nat → UInt16
  used : Memory.Mem
  size : UInt16
  freeHead : UInt16
  freeCount : UInt16

/-! ## The driver -/

/-- The loop that links the descriptors into the free list. -/
def linkLoop (size : Nat) (desc : Nat → Desc) : Nat → Desc :=
  (List.range (size - 1)).foldl
    (fun desc i => Function.update desc i { desc i with next := UInt16.ofNat (i + 1) }) desc

/-- `phys` is what `pmm_alloc_pages` returns. -/
def virtioSetupQueue (size : Nat) (phys : UInt64) : Option Queue :=
  if phys = 0 then none
  else
    let desc := linkLoop size fun _ => ⟨0, 0, 0, 0⟩
    some
      { desc := Function.update desc (size - 1) { desc (size - 1) with next := 0xFFFF }
        entries := size
        availIdx := 0
        availRing := fun _ => 0
        used := fun _ => 0
        size := UInt16.ofNat size
        freeHead := 0
        freeCount := UInt16.ofNat size }

/-- A queue of two descriptors. -/
def twoQueue : Queue := (virtioSetupQueue 2 0x1000).get rfl

theorem setup_twoQueue : virtioSetupQueue 2 0x1000 = some twoQueue := (Option.some_get _).symm

/-- The result is -1 or the index of the descriptor; `next` is not used. -/
def virtioSendDesc (q : Queue) (addr : UInt64) (len : UInt32) (flags _next : UInt16) :
    Option (Int32 × Queue) :=
  if q.freeCount = 0 then some (-1, q)
  else
    let idx := q.freeHead
    if idx.toNat < q.entries ∧ q.size ≠ 0 then
      let d : Desc := { q.desc idx.toNat with addr := addr, len := len, flags := flags }
      some (Int32.ofNat idx.toNat,
        { q with
          desc := Function.update q.desc idx.toNat d
          freeHead := d.next
          freeCount := q.freeCount - 1
          availRing := Function.update q.availRing (q.availIdx % q.size).toNat idx
          availIdx := q.availIdx + 1 })
    else none

/-- `used->idx`. -/
def Queue.usedIdx (q : Queue) : UInt16 := UInt16.ofNat (Memory.load q.used 2 2)

/-- `used->ring[k].id`. -/
def Queue.usedId (q : Queue) (k : Nat) : UInt16 := UInt16.ofNat (Memory.load q.used 2 (4 + 6 * k))

/-- `used->ring[k].len`. -/
def Queue.usedLen (q : Queue) (k : Nat) : UInt32 :=
  UInt32.ofNat (Memory.load q.used 4 (4 + 6 * k + 2))

/-- The result, `*len` and the queue; `len` is what the pointer points to, `none` for
NULL. -/
def virtioRecvUsed (q : Queue) (len : Option UInt32) : Option (Int32 × Option UInt32 × Queue) :=
  let usedIdx := q.usedIdx
  let last : UInt16 := 0
  if last = usedIdx then some (-1, len, q)
  else if q.size = 0 then none
  else
    let id := q.usedId (last % q.size).toNat
    let len := len.map fun _ => q.usedLen (last % q.size).toNat
    some (Int32.ofNat id.toNat, len, { q with freeHead := id, freeCount := q.freeCount + 1 })

/-! ## The device -/

/-- Completion number `k`: a little-endian id and length of 32 bits each in element
`k % size` of eight bytes, and the counter of completions. -/
def Queue.complete (q : Queue) (k : Nat) (id len : UInt32) : Queue :=
  let elem := 4 + 8 * (k % q.size.toNat)
  let used := Memory.store q.used 4 elem id.toNat
  let used := Memory.store used 4 (elem + 4) len.toNat
  { q with used := Memory.store used 2 2 (k + 1) }

/-! ## What the driver reads -/

section Read

variable {q : Queue}

theorem zero_mod_size : ((0 : UInt16) % q.size).toNat = 0 := by
  rw [UInt16.toNat_mod]
  exact Nat.zero_mod _

/-- Every poll starts at element 0. -/
theorem virtioRecvUsed_eq (hsize : q.size ≠ 0) (len : Option UInt32) :
    virtioRecvUsed q len =
      if q.usedIdx = 0 then some (-1, len, q)
      else some (Int32.ofNat (q.usedId 0).toNat, len.map fun _ => q.usedLen 0,
        { q with freeHead := q.usedId 0, freeCount := q.freeCount + 1 }) := by
  unfold virtioRecvUsed
  by_cases hidx : q.usedIdx = 0
  · simp [hidx]
  · have hne : ¬ (0 : UInt16) = q.usedIdx := fun heq => hidx heq.symm
    simp only [if_neg hne, if_neg hidx, if_neg hsize, zero_mod_size]

/-- An index as an `int` and back. -/
theorem index_ret (idx : UInt16) :
    Int32.ofNat idx.toNat ≠ -1 ∧ (Int32.ofNat idx.toNat).toUInt32.toUInt16 = idx := by
  have hlt := idx.toNat_lt
  have hword : (Int32.ofNat idx.toNat).toUInt32 = UInt32.ofNat idx.toNat := rfl
  constructor
  · intro heq
    have hnat := congrArg (fun x : Int32 => x.toUInt32.toNat) heq
    simp only [hword, UInt32.toNat_ofNat'] at hnat
    have hone : (-1 : Int32).toUInt32.toNat = 4294967295 := rfl
    omega
  · rw [hword]
    apply UInt16.toNat_inj.mp
    rw [UInt32.toNat_toUInt16, UInt32.toNat_ofNat']
    omega

theorem virtioSendDesc_of_free (hfree : q.freeCount ≠ 0) (hidx : q.freeHead.toNat < q.entries)
    (hsize : q.size ≠ 0) (addr : UInt64) (len : UInt32) (flags next : UInt16) :
    ∃ q', virtioSendDesc q addr len flags next = some (Int32.ofNat q.freeHead.toNat, q') ∧
      (∀ i, (q'.desc i).next = (q.desc i).next) ∧ q'.entries = q.entries ∧ q'.size = q.size ∧
      q'.used = q.used ∧ q'.freeHead = (q.desc q.freeHead.toNat).next ∧
      q'.freeCount = q.freeCount - 1 := by
  unfold virtioSendDesc
  rw [if_neg hfree]
  simp only [if_pos (And.intro hidx hsize)]
  refine ⟨_, rfl, ?_, rfl, rfl, rfl, rfl, rfl⟩
  intro i
  by_cases hi : i = q.freeHead.toNat
  · subst hi
    simp
  · simp [hi]

end Read

end OmniOS.Virtio
