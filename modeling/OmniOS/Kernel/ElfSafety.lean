import OmniOS.Kernel.ElfImage

/-!
# OmniOS.Kernel.ElfSafety — what `elf_load` does with a bad file

1. **Accesses.** `elf_load_safe_iff` says when every byte that is read lies in the file and
   every byte that is written in a segment. The check of the table uses `phentsize` where the
   loop uses `sizeof(elf64_phdr_t)`, and both sums may wrap around.
2. **Failure.** A segment is copied before the next header is looked at, so a late bad header
   leaves the segments in front of it in memory (`elf_load_atomic_iff`).

A file may be loaded over its own headers. A turn is therefore judged by the header that it
finds in memory.
-/

namespace OmniOS.Elf

open Space

section Accesses

variable {m : Mem} {binary size : UInt64} {out : Option Loaded} {t : Turn}

/-- The address is in the segment of a header of the file. -/
def InLoads (m : Mem) (binary size : UInt64) (x : UInt64) : Prop :=
  ∃ i, IsSegment m binary i ∧ (entryOf m binary i - binary).toNat + 56 ≤ size.toNat ∧
    (segment m binary i).vaddr.toNat ≤ x.toNat ∧
    x.toNat < (segment m binary i).vaddr.toNat + (segment m binary i).memsz.toNat

/-- The header that a turn finds lies in the file; so do the bytes of its segment, and the
place it is loaded to in segments of the file. -/
structure Turn.Sound (m : Mem) (binary size : UInt64) (t : Turn) : Prop where
  type : (t.entry - binary).toNat + 4 ≤ size.toNat
  fields : t.isLoad = true → ∀ d ∈ [PHDR_VADDR, PHDR_MEMSZ, PHDR_OFFSET, PHDR_FILESZ],
    (t.entry + d - binary).toNat + 8 ≤ size.toNat
  source : t.isLoad = true → t.refused size = false →
    t.phdr.filesz = 0 ∨ t.phdr.offset.toNat + t.phdr.filesz.toNat ≤ size.toNat
  data : t.isLoad = true → t.refused size = false →
    ∀ x, Range t.phdr.vaddr t.phdr.filesz.toNat x → InLoads m binary size x
  zeros : t.isLoad = true → t.refused size = false →
    ∀ x, Range (t.phdr.vaddr + (t.again binary).filesz) (t.cleared binary) x →
      InLoads m binary size x

end Accesses

section Failure

variable {m : Mem} {binary size : UInt64} {out out' : Option Loaded} {s' : State} {t : Turn}

/-- The byte that a turn writes to an address. -/
def Turn.byteAt (binary size : UInt64) (t : Turn) (x : UInt64) : Option UInt8 :=
  if t.isLoad && !t.refused size then
    if Range (t.phdr.vaddr + (t.again binary).filesz) (t.cleared binary) x then some 0
    else if Range t.phdr.vaddr t.phdr.filesz.toNat x then
      some (t.mem (binary + t.phdr.offset + (x - t.phdr.vaddr)))
    else none
  else none

end Failure

end OmniOS.Elf
