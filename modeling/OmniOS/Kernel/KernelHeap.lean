import Mathlib.Data.Fintype.Basic
import OmniOS.Kernel.VmmRegions
import OmniOS.Lib.Words

/-!
# OmniOS.Kernel.KernelHeap — `vmm_alloc_kernel_heap` of `kernel/mm/vmm.c`

The kernel heap is a bump pointer, `kernel_space.heap_end`: a request is rounded up to
pages, the pages are mapped from there on and the pointer moves behind them. Nothing
compares it with the end of the heap, and the rounding wraps for sizes near `2^64`.

The pages are reached through PML4 entry 511. After `paging_init` this names the PML4
itself, so `Window` only asks for a tree of tables below entry 510 of the table it names.
-/

namespace OmniOS.Vmm

open FourLevel (index page path slot)
open Paging (FreshPages Machine PAGE_SIZE PageOp format presentLeaf pteOf regionPages supply)

def VM_READ : UInt64 := (1 : UInt64) <<< 0
def KERNEL_HEAP_SIZE : UInt64 := 256 * 1024 * 1024

section Model

variable {F : Type*} [DecidableEq F] (K : Kernel F)

/-- `kernel_space.heap_end += size`. -/
def growHeap (s : State F) (size : UInt64) : State F :=
  { s with spaces := s.spaces.modify 0 fun sp => { sp with heapEnd := sp.heapEnd + size } }

/-- `vmm_alloc_kernel_heap`. `pmm_alloc_page` halts the kernel when it has no page, and
then the call does not return. -/
def vmmAllocKernelHeap (s : State F) (size : UInt64) : Option (UInt64 × State F) :=
  let size := (size + PAGE_SIZE - 1) &&& ~~~(PAGE_SIZE - 1)
  match s.spaces[0]? with
  | none => none
  | some kernelSpace =>
      let addr := kernelSpace.heapEnd
      match vmmMapPages K s 0 addr 0 (size / PAGE_SIZE) (VM_READ ||| VM_WRITE) with
      | none => none
      | some s' =>
          if ∀ n < s'.pmmUsed, s.pmmUsed ≤ n → K.pmmAllocPage n ≠ 0 then
            some (addr, growHeap s' size)
          else none

end Model

theorem heap_base_toNat : KERNEL_HEAP_BASE.toNat = 0xFFFFFFFF90000000 := rfl

theorem heap_size_toNat : KERNEL_HEAP_SIZE.toNat = 0x10000000 := rfl

/-! ## Rounding -/

theorem round_toNat {size : UInt64} (hsize : size.toNat + 4096 ≤ 2 ^ 64) :
    ((size + PAGE_SIZE - 1) &&& ~~~(PAGE_SIZE - 1)).toNat = regionPages size * 4096 ∧
    (((size + PAGE_SIZE - 1) &&& ~~~(PAGE_SIZE - 1)) / PAGE_SIZE).toNat = regionPages size := by
  have hmask : ∀ i < 64, (~~~(PAGE_SIZE - 1)).toNat.testBit i = decide (12 ≤ i) := by decide
  have hround := Words.toNat_round_up hmask (show PAGE_SIZE.toNat = 2 ^ 12 from rfl) hsize
  have hPS : PAGE_SIZE.toNat = 4096 := rfl
  have hpages : (size.toNat + 2 ^ 12 - 1) / 2 ^ 12 = regionPages size := rfl
  rw [hpages] at hround
  refine ⟨hround, ?_⟩
  rw [UInt64.toNat_div, hround, hPS]
  omega

/-! ## The tables of the heap -/

/-- `KERNEL_HEAP_BASE` up to `KERNEL_HEAP_SIZE` further on. -/
def HeapAddr (virt : UInt64) : Prop :=
  KERNEL_HEAP_BASE.toNat ≤ virt.toNat ∧
  virt.toNat < KERNEL_HEAP_BASE.toNat + KERNEL_HEAP_SIZE.toNat

theorem heapIdx_lt : 510 < 512 := by decide

/-- Index of the heap in the table below PML4 entry 511. -/
def heapIdx : Fin 512 := ⟨510, heapIdx_lt⟩

/-- The paths to the page directory and the page tables of the heap. -/
def heapTables : Finset (List (Fin 512)) :=
  insert [heapIdx]
    ((Finset.univ.filter fun i : Fin 512 => 128 ≤ i.val ∧ i.val < 256).image fun i => [heapIdx, i])

theorem path_heap {virt : UInt64} (h : HeapAddr virt) :
    path virt = [KERNEL_PML4_IDX, heapIdx, index virt 21] ∧
    128 ≤ (index virt 21).val ∧ (index virt 21).val < 256 := by
  rw [HeapAddr, heap_base_toNat, heap_size_toNat] at h
  have h₁ := FourLevel.index_val virt 39 (by decide)
  have h₂ := FourLevel.index_val virt 30 (by decide)
  have h₃ := FourLevel.index_val virt 21 (by decide)
  simp only [UInt64.reduceToNat] at h₁ h₂ h₃
  have hpml4 : index virt 39 = KERNEL_PML4_IDX := by
    have hval : KERNEL_PML4_IDX.val = 511 := rfl
    apply Fin.ext
    omega
  have hpdpt : index virt 30 = heapIdx := by
    have hval : heapIdx.val = 510 := rfl
    apply Fin.ext
    omega
  refine ⟨by rw [path, hpml4, hpdpt], ?_, ?_⟩
  · omega
  · omega

/-- Two addresses of a page are found at the same place. -/
theorem presentLeaf_page {F : Type*} [DecidableEq F] {M : Machine F} {s : Paging.State F}
    {v w : UInt64} (h : page v = page w) : presentLeaf M s v = presentLeaf M s w := by
  rcases (FourLevel.indices_eq_iff v w).mpr h with ⟨hpath, hslot⟩
  rw [Paging.presentLeaf_eq, Paging.presentLeaf_eq, hpath, hslot]

section Window

variable {F : Type*} [DecidableEq F] {M : Machine F} {s₀ s : Paging.State F} {N : Nat}

/-- The table that PML4 entry 511 names, possibly the PML4 itself, is the root of a tree
below its entry 510; the PML4 is no other table of it, and `aligned_alloc` has pages for
all tables of the heap that are not there yet. -/
structure Window (h : FreshPages M s₀ N) (pdpt : F) (s : Paging.State F) : Prop where
  entry : (format M).next (s.mem M.root KERNEL_PML4_IDX) = some pdpt
  tables : Radix.WellFormed (supply h) 2 (· = heapIdx) pdpt s
  outside : Radix.Outside (format M) 2 (· = heapIdx) pdpt s.mem M.root KERNEL_PML4_IDX
  pages : ∀ n < N, M.view (M.alignedAlloc n) ≠ M.root
  room : s.used + (Radix.missing (format M) heapTables s.mem pdpt).card ≤ N

variable {h : FreshPages M s₀ N} {pdpt : F} {virt : UInt64}

theorem heapTables_path : ∀ q ∈ heapTables, Radix.Path 2 (· = heapIdx) q := by
  intro q hq
  rw [heapTables, Finset.mem_insert, Finset.mem_image] at hq
  rcases hq with rfl | ⟨i, -, rfl⟩
  · exact ⟨by decide, by simp⟩
  · exact ⟨by simp, by simp⟩

theorem heap_path (i : Fin 512) : Radix.Path 2 (· = heapIdx) [heapIdx, i] :=
  ⟨by simp, by simp⟩

/-- A leaf of the heap, from the table below the PML4. -/
theorem Window.presentLeaf (hw : Window h pdpt s) (hvirt : HeapAddr virt) :
    presentLeaf M s virt =
      Radix.leaf (format M) s.mem pdpt [heapIdx, index virt 21] (slot virt) := by
  rw [Paging.presentLeaf_eq, (path_heap hvirt).1, Radix.leaf, Radix.entry, Radix.walk, hw.entry]
  rfl

theorem heap_prefixes (hvirt : HeapAddr virt) {r : List (Fin 512)}
    (hr : r <+: [heapIdx, index virt 21]) (hne : r ≠ []) : r ∈ heapTables := by
  have hpd : index virt 21 ∈ Finset.univ.filter fun i : Fin 512 => 128 ≤ i.val ∧ i.val < 256 :=
    Finset.mem_filter.mpr ⟨Finset.mem_univ _, (path_heap hvirt).2⟩
  rw [heapTables, Finset.mem_insert]
  rcases r with _ | ⟨i, _ | ⟨j, r⟩⟩
  · exact absurd rfl hne
  · exact Or.inl (by simpa using hr)
  · refine Or.inr (Finset.mem_image.mpr ⟨_, hpd, ?_⟩)
    simpa using (List.IsPrefix.eq_of_length_le hr (by simp)).symm

/-- Storing below PML4 entry 511 is storing below the table it names. -/
theorem Window.store (hw : Window h pdpt s) (hvirt : HeapAddr virt) (j : Fin 512) (e : UInt64) :
    (supply h).store s M.root (path virt) j e =
      (supply h).store s pdpt [heapIdx, index virt 21] j e := by
  have hlookup : (supply h).lookupOrCreate s M.root KERNEL_PML4_IDX = (s, pdpt) := by
    simp only [Radix.Supply.lookupOrCreate, hw.entry]
  rw [(path_heap hvirt).1, Radix.Supply.store, Radix.Supply.descend, hlookup]
  rfl

/-- One page of the heap is mapped, and those that were mapped stay so. -/
theorem Window.mapPage (hw : Window h pdpt s) (hvirt : HeapAddr virt) (phys flags : UInt64) :
    ∃ s', Paging.pagingMapPage M s virt phys flags = some s' ∧ Window h pdpt s' ∧
      (Paging.presentLeaf M s' virt).isSome ∧
      ∀ v, HeapAddr v → (Paging.presentLeaf M s v).isSome →
        (Paging.presentLeaf M s' v).isSome := by
  have hpath := heap_path (index virt 21)
  have hroom := Radix.used_store_add_missing (j := slot virt) (e := pteOf phys flags)
    heapTables_path hw.tables hpath rfl (fun r => heap_prefixes hvirt) hw.room
  have hlim := Nat.le_trans (Nat.le_trans (Nat.le_add_right _ _) hroom) hw.room
  rcases Radix.store_spec hw.tables (slot virt) (pteOf phys flags) hpath rfl hlim with
    ⟨htables, hself, -, hleaf⟩
  have hentry := Radix.mem_store hw.tables hpath rfl (by decide) hlim hw.pages hw.outside
  have houtside := hw.outside.store hw.tables hpath rfl hlim hw.pages
  rw [← hw.store hvirt] at hlim
  have hmap := Paging.pagingMapPage_store h hlim
  rw [hw.store hvirt] at hmap
  generalize (supply h).store s pdpt [heapIdx, index virt 21] (slot virt) (pteOf phys flags) = s'
    at hroom htables hself hleaf hentry houtside hmap
  have hw' : Window h pdpt s' :=
    ⟨by rw [hentry, hw.entry], htables, houtside, hw.pages, Nat.le_trans hroom hw.room⟩
  have hself' : (Paging.presentLeaf M s' virt).isSome := by
    have hpresent : (format M).present (pteOf phys flags) = true := by
      simpa [format] using Paging.pteOf_present phys flags
    rw [hw'.presentLeaf hvirt, Radix.leaf, hself, Option.filter_some, hpresent]
    rfl
  refine ⟨s', hmap, hw', hself', ?_⟩
  intro v hv hmapped
  by_cases hpage : page v = page virt
  · rw [presentLeaf_page hpage]
    exact hself'
  · rw [hw'.presentLeaf hv, hleaf _ _ (heap_path _) rfl ?_, ← hw.presentLeaf hv]
    · exact hmapped
    · rintro ⟨hq, hslot⟩
      refine hpage ((FourLevel.indices_eq_iff v virt).mp ⟨?_, hslot⟩)
      rw [(path_heap hv).1, (path_heap hvirt).1, hq]

/-- The heap from its start up to `k` pages is mapped. -/
def MappedTo (M : Machine F) (s : Paging.State F) (k : Nat) : Prop :=
  ∀ v : UInt64, KERNEL_HEAP_BASE.toNat ≤ v.toNat →
    v.toNat < KERNEL_HEAP_BASE.toNat + k * 4096 → (Paging.presentLeaf M s v).isSome

/-- The loop of `vmm_map_pages` from page `k` of the heap on. -/
theorem Window.mapPages (hw : Window h pdpt s) {k : Nat} (hmapped : MappedTo M s k)
    {addr : UInt64} (haddr : addr.toNat = KERNEL_HEAP_BASE.toNat + k * 4096) {n : Nat}
    (hn : k + n ≤ 65536) (frames : Nat → UInt64) (flags : UInt64) :
    ∃ s', ((List.range n).map fun i => PageOp.map (addr + UInt64.ofNat i * PAGE_SIZE)
        (frames i) flags).foldlM (Paging.pageStep M) s = some s' ∧
      Window h pdpt s' ∧ MappedTo M s' (k + n) := by
  have hPS : PAGE_SIZE.toNat = 4096 := rfl
  rw [heap_base_toNat] at haddr
  induction n with
  | zero => exact ⟨s, rfl, hw, hmapped⟩
  | succ n ih =>
      rcases ih (by omega) with ⟨s₁, hloop, hw₁, hmapped₁⟩
      have hvirt : (addr + UInt64.ofNat n * PAGE_SIZE).toNat =
          0xFFFFFFFF90000000 + (k + n) * 4096 := by
        rw [UInt64.toNat_add, UInt64.toNat_mul, UInt64.toNat_ofNat', hPS, haddr]
        omega
      have hheap : HeapAddr (addr + UInt64.ofNat n * PAGE_SIZE) := by
        rw [HeapAddr, hvirt, heap_base_toNat, heap_size_toNat]
        omega
      rcases hw₁.mapPage hheap (frames n) flags with ⟨s₂, hmap, hw₂, hself, hold⟩
      refine ⟨s₂, ?_, hw₂, ?_⟩
      · rw [List.range_succ, List.map_append, List.foldlM_append, hloop]
        simp only [List.map_cons, List.map_nil, List.foldlM_cons, List.foldlM_nil,
          Paging.pageStep, hmap, Option.bind_eq_bind, Option.bind_some, Option.pure_def]
      · intro v hlow hhigh
        rw [heap_base_toNat] at hlow hhigh
        by_cases hlast : v.toNat < 0xFFFFFFFF90000000 + (k + n) * 4096
        · refine hold v ?_ (hmapped₁ v hlow hlast)
          rw [HeapAddr, heap_base_toNat, heap_size_toNat]
          omega
        · have hpage : page v = page (addr + UInt64.ofNat n * PAGE_SIZE) := by
            rw [page, page, hvirt]
            omega
          rw [presentLeaf_page hpage]
          exact hself

end Window

/-! ## One request -/

/-- A recorded region moves neither the end of the heap nor the frames. -/
theorem recordRegion_heapEnd {F : Type*} {s : State F} {sp : Space}
    (hsp : s.spaces[0]? = some sp) (virt phys pages flags : UInt64) :
    (recordRegion s 0 sp virt phys pages flags).pmmUsed = s.pmmUsed ∧
    ∃ sp', (recordRegion s 0 sp virt phys pages flags).spaces[0]? = some sp' ∧
      sp'.heapEnd = sp.heapEnd := by
  constructor
  · unfold recordRegion
    split
    · rfl
    · rfl
  · rcases recordRegion_cases s 0 sp virt phys pages flags with
      ⟨-, hsame⟩ | ⟨i, region, -, -, -, hset⟩
    · rw [hsame]
      exact ⟨sp, hsp, rfl⟩
    · have hlt : 0 < s.spaces.length := (List.getElem?_eq_some_iff.mp hsp).1
      rw [hset, List.getElem?_set_self hlt]
      exact ⟨_, rfl, rfl⟩

section Requests

variable {F : Type*} [DecidableEq F] {K : Kernel F} {s₀ : Paging.State F} {N : Nat}
  {h : FreshPages K.toMachine s₀ N} {pdpt : F} {k : Nat} {s s' : State F} {sp : Space}
  {size p : UInt64}

/-- `k` pages of the heap are given out. -/
structure Taken (h : FreshPages K.toMachine s₀ N) (pdpt : F) (k : Nat) (s : State F) : Prop where
  window : Window h pdpt s.paging
  mapped : MappedTo K.toMachine s.paging k
  le : k ≤ 65536
  heapEnd : ∃ sp, s.spaces[0]? = some sp ∧
    sp.heapEnd.toNat = KERNEL_HEAP_BASE.toNat + k * 4096

/-- A request that fits takes its pages, if there are frames for them. -/
theorem Taken.alloc (hs : Taken h pdpt k s) (hsp : s.spaces[0]? = some sp)
    (hfit : k + regionPages size ≤ 65536) :
    ∃ s', Taken h pdpt (k + regionPages size) s' ∧
      s'.pmmUsed = s.pmmUsed + regionPages size ∧
      vmmAllocKernelHeap K s size =
        if ∀ n < regionPages size, K.pmmAllocPage (s.pmmUsed + n) ≠ 0 then
          some (sp.heapEnd, s') else none := by
  have haddr : sp.heapEnd.toNat = KERNEL_HEAP_BASE.toNat + k * 4096 := by
    rcases hs.heapEnd with ⟨sp', hsp', haddr⟩
    rw [hsp] at hsp'
    cases hsp'
    exact haddr
  have hnowrap : size.toNat + 4096 ≤ 2 ^ 64 := by
    unfold regionPages at hfit
    omega
  rcases round_toNat hnowrap with ⟨hround, hpages⟩
  generalize hrounded : (size + PAGE_SIZE - 1) &&& ~~~(PAGE_SIZE - 1) = rounded at hround hpages
  rcases hs.window.mapPages hs.mapped haddr hfit (frameOf K s 0)
    (pteFlags (VM_READ ||| VM_WRITE)) with ⟨paging, hloop, hwindow, hmapped⟩
  -- the state after the loop, and after the region is recorded
  obtain ⟨s₁, hs₁⟩ : ∃ s₁ : State F,
      s₁ = { s with paging := paging, pmmUsed := s.pmmUsed + regionPages size } := ⟨_, rfl⟩
  have hmap : vmmMapPages K s 0 sp.heapEnd 0 (rounded / PAGE_SIZE) (VM_READ ||| VM_WRITE) =
      some (recordRegion s₁ 0 sp sp.heapEnd 0 (rounded / PAGE_SIZE) (VM_READ ||| VM_WRITE)) := by
    unfold vmmMapPages
    rw [hsp]
    dsimp only
    rw [if_pos (Or.inr rfl), hpages, mapLoop_eq, hloop, hs₁]
    rfl
  have hsp₁ : s₁.spaces[0]? = some sp := by rw [hs₁, hsp]
  rcases recordRegion_heapEnd hsp₁ sp.heapEnd 0 (rounded / PAGE_SIZE) (VM_READ ||| VM_WRITE) with
    ⟨hused, sp', hsp', hend⟩
  have hpaging := (recordRegion_frame s₁ 0 sp sp.heapEnd 0 (rounded / PAGE_SIZE)
    (VM_READ ||| VM_WRITE)).1
  generalize recordRegion s₁ 0 sp sp.heapEnd 0 (rounded / PAGE_SIZE) (VM_READ ||| VM_WRITE) = s₂
    at hmap hused hsp' hpaging
  have hpaging' : s₂.paging = paging := by rw [hpaging, hs₁]
  have hused' : s₂.pmmUsed = s.pmmUsed + regionPages size := by rw [hused, hs₁]
  refine ⟨growHeap s₂ rounded, ⟨?_, ?_, hfit, ?_⟩, hused', ?_⟩
  · exact hpaging' ▸ hwindow
  · exact hpaging' ▸ hmapped
  · refine ⟨{ sp' with heapEnd := sp'.heapEnd + rounded }, ?_, ?_⟩
    · rw [growHeap, List.getElem?_modify_eq, hsp']
      rfl
    · show (sp'.heapEnd + rounded).toNat = _
      rw [hend, UInt64.toNat_add, haddr, hround, heap_base_toNat]
      omega
  · unfold vmmAllocKernelHeap
    rw [hrounded, hsp]
    dsimp only
    rw [hmap]
    dsimp only
    have hframes : (∀ n < s₂.pmmUsed, s.pmmUsed ≤ n → K.pmmAllocPage n ≠ 0) ↔
        ∀ n < regionPages size, K.pmmAllocPage (s.pmmUsed + n) ≠ 0 := by
      rw [hused']
      constructor
      · intro hall n hn
        exact hall _ (by omega) (by omega)
      · intro hall n hn hle
        have hn' := hall (n - s.pmmUsed) (by omega)
        rwa [Nat.add_sub_cancel' hle] at hn'
    rw [if_congr hframes rfl rfl]

/-- What a request of `size` bytes that returns `p` owes, after the ranges `before`: all
ranges are mapped, the new one lies in the heap and meets none of the others. -/
structure Granted (M : Machine F) (before : List (UInt64 × UInt64)) (s : Paging.State F)
    (p size : UInt64) : Prop where
  mapped : ∀ r ∈ (p, size) :: before, ∀ v : UInt64, r.1.toNat ≤ v.toNat →
    v.toNat < r.1.toNat + r.2.toNat → (presentLeaf M s v).isSome
  inside : KERNEL_HEAP_BASE.toNat ≤ p.toNat ∧
    p.toNat + size.toNat ≤ KERNEL_HEAP_BASE.toNat + KERNEL_HEAP_SIZE.toNat
  apart : ∀ r ∈ before, r.1.toNat + r.2.toNat ≤ p.toNat ∨ p.toNat + size.toNat ≤ r.1.toNat

def State.heapEnd (s : State F) : Option UInt64 := s.spaces[0]?.map Space.heapEnd

/-- The pages of all requests. -/
def totalPages : List UInt64 → Nat
  | [] => 0
  | size :: sizes => regionPages size + totalPages sizes

/-- All of `before` lies in the first `k` pages. -/
def Below (before : List (UInt64 × UInt64)) (k : Nat) : Prop :=
  ∀ r ∈ before, KERNEL_HEAP_BASE.toNat ≤ r.1.toNat ∧
    r.1.toNat + r.2.toNat ≤ KERNEL_HEAP_BASE.toNat + k * 4096

theorem Below.cons {before : List (UInt64 × UInt64)} (hbefore : Below before k)
    (haddr : p.toNat = KERNEL_HEAP_BASE.toNat + k * 4096) (size : UInt64) :
    Below ((p, size) :: before) (k + regionPages size) := by
  have hpages : size.toNat ≤ regionPages size * 4096 := by
    unfold regionPages
    omega
  intro r hr
  rcases List.mem_cons.mp hr with rfl | hr
  · dsimp only
    omega
  · have hmore : k * 4096 ≤ (k + regionPages size) * 4096 :=
      Nat.mul_le_mul_right _ (Nat.le_add_right _ _)
    exact ⟨(hbefore r hr).1, Nat.le_trans (hbefore r hr).2 (Nat.add_le_add_left hmore _)⟩

/-- A request that was given the next pages is as it should be. -/
theorem Taken.granted {before : List (UInt64 × UInt64)} (hbefore : Below before k)
    (haddr : p.toNat = KERNEL_HEAP_BASE.toNat + k * 4096)
    (hs : Taken h pdpt (k + regionPages size) s) :
    Granted K.toMachine before s.paging p size := by
  have hall := hbefore.cons haddr size
  refine ⟨?_, ?_, ?_⟩
  · intro r hr v hlow hhigh
    have hr' := hall r hr
    exact hs.mapped v (by omega) (by omega)
  · have hp : KERNEL_HEAP_BASE.toNat ≤ p.toNat ∧ p.toNat + size.toNat ≤
        KERNEL_HEAP_BASE.toNat + (k + regionPages size) * 4096 := hall _ List.mem_cons_self
    have hle := hs.le
    rw [heap_size_toNat]
    omega
  · intro r hr
    have hr' := hbefore r hr
    omega

end Requests

/-- The small kernel with PML4 entry 511 as `paging_init` sets it. -/
def bootState : State UInt64 :=
  ⟨⟨Radix.write (fun _ _ => 0) 0x1000 KERNEL_PML4_IDX 0x1003, 0⟩, 0x1000, 0, [], 0, 1⟩

end OmniOS.Vmm
