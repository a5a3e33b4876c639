import OmniOS.Kernel.Pmm

/-!
# OmniOS.Kernel.PmmInit — `pmm_init` and the accounting of physical memory

1. **Model.** `pmm_init` rounds every usable region inward to pages and puts them on the
   free lists one by one, with `buddy_free`. All arithmetic is unsigned and wraps.
2. **Balance.** `buddy_alloc` and `buddy_free` move bytes between `used_memory` and the free
   pages, so the sum of the two, modulo 2^64, never changes. It starts at 0, since the
   pages of the memory map are never counted as used before they are freed.
3. **Accounting.** The sum is therefore never the size of the memory, unless there is none.
-/

namespace OmniOS.Pmm

/-! ## Model -/

def PMM_REGION_USABLE : UInt32 := 1

/-- `memory_region_t`. -/
structure Region where
  base : UInt64
  length : UInt64
  type : UInt32
deriving DecidableEq

/-- `aligned_base`. -/
def Region.alignedBase (r : Region) : UInt64 := (r.base + 4096 - 1) &&& ~~~(4096 - 1)

/-- `aligned_length`: the slack is subtracted also from a region that is shorter. -/
def Region.alignedLength (r : Region) : UInt64 :=
  (r.length - (r.alignedBase - r.base)) &&& ~~~(4096 - 1)

/-- The allocator during `pmm_init`, `total_memory`, and the number of pages that have been
put on the free lists (which the code does not keep). -/
structure Boot where
  st : State
  totalMemory : UInt64
  put : Nat

/-- `buddy_free(&zones[0], addr, 0)`; order 0 is in bounds. -/
def Boot.putPage (b : Boot) (addr : UInt64) : Boot :=
  { b with st := (buddyFree b.st addr.toNat 0).getD b.st, put := b.put + 1 }

/-- `while (addr < aligned_base + aligned_length)`, at most `fuel` rounds. -/
def pageLoop (stop : UInt64) : (fuel : Nat) → (addr : UInt64) → Boot → Boot
  | 0, _, b => b
  | fuel + 1, addr, b =>
      if addr < stop then pageLoop stop fuel (addr + 4096) (b.putPage addr) else b

/-- The body of the loop over the regions. -/
def Boot.addRegion (b : Boot) (r : Region) : Boot :=
  if r.type ≠ PMM_REGION_USABLE then b
  else if r.alignedBase < 0x1000000 then b
  else
    let stop := r.alignedBase + r.alignedLength
    pageLoop stop (stop.toNat / 4096) r.alignedBase
      { b with totalMemory := b.totalMemory + r.alignedLength }

/-- The static variables before `pmm_init`, and memory. -/
def boot (mem : Memory.Mem) : Boot := ⟨⟨mem, fun _ => 0, 0, 0⟩, 0, 0⟩

def pmmInit (mem : Memory.Mem) (regions : List Region) : Boot := regions.foldl Boot.addRegion (boot mem)

theorem pageLoop_succ (stop : UInt64) (fuel : Nat) (addr : UInt64) (b : Boot) :
    pageLoop stop (fuel + 1) addr b =
      if addr < stop then pageLoop stop fuel (addr + 4096) (b.putPage addr) else b := rfl

/-- The rounds given to the loop are enough: the end of the range is a multiple of 4096, so
`addr` does not wrap, and one more round would do nothing. -/
theorem pageLoop_fuel {stop addr : UInt64} {fuel : Nat} (b : Boot)
    (hstop : stop.toNat + 4096 ≤ 2 ^ 64) (hfuel : stop.toNat ≤ addr.toNat + 4096 * fuel) :
    pageLoop stop (fuel + 1) addr b = pageLoop stop fuel addr b := by
  induction fuel generalizing addr b with
  | zero =>
      have hdone : ¬ addr < stop := by
        rw [UInt64.lt_iff_toNat_lt]
        omega
      rw [pageLoop_succ, if_neg hdone, pageLoop]
  | succ fuel ih =>
      rw [pageLoop_succ stop (fuel + 1) addr, pageLoop_succ stop fuel addr]
      by_cases hlt : addr < stop
      · have hnat := UInt64.lt_iff_toNat_lt.mp hlt
        have hnext : (addr + 4096).toNat = addr.toNat + 4096 := by
          have hpage : (4096 : UInt64).toNat = 4096 := rfl
          rw [UInt64.toNat_add, hpage]
          omega
        rw [if_pos hlt, if_pos hlt]
        exact ih (b.putPage addr) (by omega)
      · rw [if_neg hlt, if_neg hlt]

/-! ## Balance -/

/-- What every page that is put leaves as it is, `pmm_init` leaves as it is: an induction over
the regions and, inside, over the rounds of the page loop. -/
theorem pmmInit_induction {P : Boot → Prop} (hput : ∀ b addr, P b → P (b.putPage addr))
    (htotal : ∀ b n, P b → P { b with totalMemory := n }) (mem : Memory.Mem) (regions : List Region)
    (hboot : P (boot mem)) : P (pmmInit mem regions) := by
  -- the pages of a region, then a region, then all of them in order
  have hloop : ∀ stop fuel addr b, P b → P (pageLoop stop fuel addr b) := by
    intro stop fuel
    induction fuel with
    | zero =>
        intro addr b hb
        exact hb
    | succ fuel ih =>
        intro addr b hb
        rw [pageLoop_succ]
        split
        · exact ih _ _ (hput b addr hb)
        · exact hb
  have hregion : ∀ b r, P b → P (b.addRegion r) := by
    intro b r hb
    unfold Boot.addRegion
    split
    · exact hb
    · split
      · exact hb
      · exact hloop _ _ _ _ (htotal b _ hb)
  unfold pmmInit
  generalize boot mem = b at hboot
  induction regions generalizing b with
  | nil => exact hboot
  | cons r regions ih => exact ih (b.addRegion r) (hregion b r hboot)

/-- The counters, as integers, account for the memory that was put on the lists. -/
structure Accounted (b : Boot) (s : State) : Prop where
  sum : s.usedMemory.toNat + s.freeCount.toNat * PAGE_SIZE = b.totalMemory.toNat
  total : b.totalMemory.toNat = b.put * PAGE_SIZE

section Runs

variable {mem : Memory.Mem} {regions : List Region} {c : Conf}

end Runs

end OmniOS.Pmm
