import OmniOS.Lib.Bitmap
import OmniOS.Kernel.HeapData

/-!
# OmniOS.Kernel.Pages — the page allocator of `kernel/mm/memory.c`

A frame is a bit of `_page_bitmap`; a frame handed out is described by a `page_t` on the heap.

1. **Model.** `mm_init`, `mm_alloc_page` and `mm_free_page`. The counters are 32-bit unsigned and
   wrap. A `page_t` is 32 bytes: `phys_addr` and `virt_addr` 8 bytes at 0 and 8, `flags` and
   `ref_count` 4 bytes at 16 and 20, `next` 8 bytes at 24.
2. **`mm_init`.** `MAX_PAGES` is 1024, which is 4 MB of frames and not 4 GB, and the 16 MB
   reserved for the kernel cover all of them.
3. **Failure.** `mm_alloc_page` claims the frame before it allocates the `page_t`, and does not
   give it back.
-/

namespace OmniOS.Pages

open Memory

/-! ## Model -/

def PAGE_SIZE : UInt32 := 4096

/-- `4096 * 1024 / PAGE_SIZE`. -/
def MAX_PAGES : UInt32 := 4096 * 1024 / PAGE_SIZE

/-- `sizeof(page_t)`. -/
def PAGE_T_SIZE : UInt64 := 32

theorem PAGE_SIZE_eq : PAGE_SIZE.toNat = 4096 := rfl

theorem MAX_PAGES_eq : MAX_PAGES.toNat = 1024 := rfl

theorem PAGE_T_SIZE_eq : PAGE_T_SIZE.toNat = 32 := rfl

/-- The values of `status_t` that are returned here. -/
inductive Status where
  | success
  | invalid
  deriving DecidableEq

/-- The heap and the variables of the page allocator. -/
structure State where
  heap : Heap.State
  pageBitmap : Bitmap.Bytes
  totalPages : UInt32
  freePages : UInt32
  usedMemory : UInt32

def physAddr (m : Mem) (page : Nat) : Nat := load m 8 page
def refCount (m : Mem) (page : Nat) : Nat := load m 4 (page + 20)
def setRefCount (m : Mem) (page v : Nat) : Mem := store m 4 (page + 20) v

/-- Mark frame `i` as used. -/
def State.claim (s : State) (i : Nat) : State :=
  { s with
    pageBitmap := Bitmap.set s.pageBitmap i
    freePages := s.freePages - 1
    usedMemory := s.usedMemory + PAGE_SIZE }

/-- `_total_pages` after `mm_init`. -/
def totalPagesOf (totalMemoryMb : UInt32) : UInt32 :=
  let totalPages := totalMemoryMb * 1024 * 1024 / PAGE_SIZE
  if MAX_PAGES < totalPages then MAX_PAGES else totalPages

/-- `reserved_pages`. -/
def reservedPages : UInt32 := 16 * 1024 * 1024 / PAGE_SIZE

/-- `mm_init`. `heapBuffer` is the static fallback buffer. -/
def mmInit (s : State) (totalMemoryMb : UInt32) (heapBuffer : Nat) : Option State :=
  let totalPages := totalPagesOf totalMemoryMb
  let s := { s with
    usedMemory := 0, totalPages := totalPages, freePages := totalPages, pageBitmap := fun _ => 0 }
  -- `i < reserved_pages && i < _total_pages`
  let s := (List.range (min reservedPages.toNat totalPages.toNat)).foldl State.claim s
  (Heap.mmInitHeap s.heap heapBuffer).map fun heap => { s with heap := heap }

/-- The fields of a `page_t` that `mm_alloc_page` writes. -/
def initPage (m : Mem) (page i : Nat) (flags : UInt32) : Mem :=
  let m := store m 8 page (UInt32.ofNat i * PAGE_SIZE).toNat
  let m := store m 8 (page + 8) 0
  let m := store m 4 (page + 16) flags.toNat
  let m := setRefCount m page 1
  store m 8 (page + 24) 0

/-- `mm_alloc_page`. The outer `none` is a `kmalloc` that does not return. -/
def mmAllocPage (s : State) (flags : UInt32) : Option (Nat × State) :=
  if s.freePages = 0 then some (0, s)
  else
    match (List.range s.totalPages.toNat).find? fun i => !Bitmap.bit s.pageBitmap i with
    | none => some (0, s)
    | some i =>
        let s := s.claim i
        (Heap.kmalloc s.heap PAGE_T_SIZE).map fun (page, heap) =>
          if page = 0 then (0, { s with heap := heap })
          else (page, { s with heap := { heap with mem := initPage heap.mem page i flags } })

/-- Clear frame `i`. -/
def State.release (s : State) (i : Nat) : State :=
  { s with
    pageBitmap := Bitmap.clear s.pageBitmap i
    freePages := s.freePages + 1
    usedMemory := s.usedMemory - PAGE_SIZE }

def mmFreePage (s : State) (page : Nat) : Status × State :=
  if page = 0 then (.invalid, s)
  else if 1 < refCount s.heap.mem page then
    let m := setRefCount s.heap.mem page (refCount s.heap.mem page - 1)
    (.success, { s with heap := { s.heap with mem := m } })
  else
    -- `page_idx` has 32 bits
    let pageIdx := physAddr s.heap.mem page / PAGE_SIZE.toNat % 2 ^ 32
    let s := if pageIdx < s.totalPages.toNat then s.release pageIdx else s
    (.success, { s with heap := Heap.kfree s.heap page })

/-! ## mm_init -/

/-- The product is taken modulo 2^32, and more than 1024 pages are not counted. -/
theorem totalPagesOf_toNat (mb : UInt32) :
    (totalPagesOf mb).toNat = min (mb.toNat % 4096 * 256) 1024 := by
  have hmb : (mb * 1024 * 1024 / PAGE_SIZE).toNat = mb.toNat % 4096 * 256 := by
    have hk : (1024 : UInt32).toNat = 1024 := rfl
    have hpage := PAGE_SIZE_eq
    rw [UInt32.toNat_div, UInt32.toNat_mul, UInt32.toNat_mul, hk, hpage]
    omega
  have hmax := MAX_PAGES_eq
  unfold totalPagesOf
  dsimp only
  split
  · next hgt =>
      rw [UInt32.lt_iff_toNat_lt, hmax, hmb] at hgt
      rw [hmax]
      omega
  · next hle =>
      rw [UInt32.lt_iff_toNat_lt, hmax, hmb] at hle
      rw [hmb]
      omega

/-- `s'` is `s` with the first `k` frames claimed. -/
structure Claimed (s : State) (k : Nat) (s' : State) : Prop where
  heap : s'.heap = s.heap
  totalPages : s'.totalPages = s.totalPages
  freePages : s'.freePages = s.freePages - UInt32.ofNat k
  usedMemory : s'.usedMemory = s.usedMemory + UInt32.ofNat k * PAGE_SIZE
  bits : ∀ i, Bitmap.bit s'.pageBitmap i = (decide (i < k) || Bitmap.bit s.pageBitmap i)

/-- The loop over the reserved frames, by induction on the rounds. -/
theorem foldl_claim (s : State) (k : Nat) : Claimed s k ((List.range k).foldl State.claim s) := by
  induction k with
  | zero => exact ⟨rfl, rfl, (UInt32.sub_zero _).symm, by simp, by simp⟩
  | succ k ih =>
      rw [List.range_succ, List.foldl_append, List.foldl_cons, List.foldl_nil]
      generalize (List.range k).foldl State.claim s = s₁ at ih
      have hsucc : UInt32.ofNat (k + 1) = UInt32.ofNat k + 1 := UInt32.ofNat_add k 1
      refine ⟨ih.heap, ih.totalPages, ?_, ?_, ?_⟩
      · show s₁.freePages - 1 = _
        rw [ih.freePages, hsucc]
        grind
      · show s₁.usedMemory + PAGE_SIZE = _
        rw [ih.usedMemory, hsucc]
        grind
      · intro i
        show Bitmap.bit (Bitmap.set s₁.pageBitmap k) i = _
        have hlt : i < k + 1 ↔ i = k ∨ i < k := by omega
        rw [Bitmap.bit_set, ih.bits, ← Bool.or_assoc]
        simp only [hlt, Bool.decide_or]

section Init

variable {s s' : State} {mb : UInt32} {heapBuffer : Nat}

/-- The state before the loop of `mm_init`. -/
def State.cleared (s : State) (totalPages : UInt32) : State :=
  { s with
    usedMemory := 0, totalPages := totalPages, freePages := totalPages, pageBitmap := fun _ => 0 }

/-- All frames there are have been claimed. -/
theorem mmInit_claimed (h : mmInit s mb heapBuffer = some s') :
    ∃ heap, Heap.mmInitHeap s.heap heapBuffer = some heap ∧
      ∃ s₁, Claimed (s.cleared (totalPagesOf mb)) (totalPagesOf mb).toNat s₁ ∧
        s' = { s₁ with heap := heap } := by
  have hres : reservedPages.toNat = 4096 := rfl
  have hmin : min reservedPages.toNat (totalPagesOf mb).toNat = (totalPagesOf mb).toNat := by
    have htotal := totalPagesOf_toNat mb
    omega
  have hclaimed := foldl_claim (s.cleared (totalPagesOf mb)) (totalPagesOf mb).toNat
  obtain ⟨heap, hheap, hs'⟩ := Option.map_eq_some_iff.mp h
  rw [hmin] at hheap hs'
  refine ⟨heap, ?_, _, hclaimed, hs'.symm⟩
  rw [← hheap]
  exact congrArg (Heap.mmInitHeap · heapBuffer) hclaimed.heap.symm

theorem mmInit_totalPages (h : mmInit s mb heapBuffer = some s') :
    s'.totalPages.toNat = min (mb.toNat % 4096 * 256) 1024 := by
  obtain ⟨heap, -, s₁, hclaimed, rfl⟩ := mmInit_claimed h
  show s₁.totalPages.toNat = _
  rw [hclaimed.totalPages]
  exact totalPagesOf_toNat mb

theorem mmInit_freePages (h : mmInit s mb heapBuffer = some s') : s'.freePages = 0 := by
  obtain ⟨heap, -, s₁, hclaimed, rfl⟩ := mmInit_claimed h
  show s₁.freePages = 0
  rw [hclaimed.freePages, UInt32.ofNat_toNat]
  exact UInt32.sub_self _

/-- At boot `_heap_first` is NULL, and `mm_init` returns. -/
theorem mmInit_returns (h : s.heap.heapFirst = 0) (mb : UInt32) (heapBuffer : Nat) :
    ∃ s', mmInit s mb heapBuffer = some s' := by
  have hkmalloc : Heap.kmalloc s.heap (UInt64.ofNat Heap.HEAP_SIZE) = some (0, s.heap) := by
    rw [Heap.kmalloc, if_pos h, ite_self]
  unfold mmInit
  dsimp only
  rw [(foldl_claim _ _).heap, Heap.mmInitHeap, hkmalloc]
  exact ⟨_, rfl⟩

theorem mmAllocPage_of_none_free (h : s.freePages = 0) (flags : UInt32) :
    mmAllocPage s flags = some (0, s) := by
  rw [mmAllocPage, if_pos h]

end Init

/-- Successive calls of `mm_alloc_page`: what each of them returned, and the state after it. -/
def allocPages : State → List UInt32 → Option (List (Nat × State))
  | _, [] => some []
  | s, flags :: rest => (mmAllocPage s flags).bind fun (page, s) =>
      (allocPages s rest).map fun results => (page, s) :: results

/-- `kmalloc` can supply a `page_t` at each of the calls. -/
def Supplied : State → List UInt32 → Prop
  | _, [] => True
  | s, flags :: rest =>
      (∃ page heap, Heap.kmalloc s.heap PAGE_T_SIZE = some (page, heap) ∧ page ≠ 0) ∧
      ∀ page s', mmAllocPage s flags = some (page, s') → Supplied s' rest

/-- What `mm_init` should provide: `_total_pages`, and as many successful calls of
`mm_alloc_page` as there are frames above 16 MB. -/
structure Provides (totalMemoryMb : UInt32) (s : State) : Prop where
  totalPages : s.totalPages.toNat = totalMemoryMb.toNat * 256
  succeed : ∀ flags results, Supplied s flags → allocPages s flags = some results →
    (results.filter fun r => r.1 != 0).length =
      min flags.length (s.totalPages.toNat - reservedPages.toNat)
  above : ∀ flags results, Supplied s flags → allocPages s flags = some results →
    ∀ r ∈ results, r.1 ≠ 0 → 16 * 1024 * 1024 ≤ physAddr r.2.heap.mem r.1

/-- With no frame left, every call returns NULL. -/
theorem allocPages_of_none_free {s : State} (h : s.freePages = 0) (flags : List UInt32) :
    allocPages s flags = some (flags.map fun _ => (0, s)) := by
  induction flags with
  | nil => rfl
  | cons f flags ih =>
      rw [allocPages, mmAllocPage_of_none_free h, Option.bind_some]
      dsimp only
      rw [ih]
      rfl

theorem provides_iff {s s' : State} {mb : UInt32} {heapBuffer : Nat}
    (h : mmInit s mb heapBuffer = some s') : Provides mb s' ↔ mb.toNat ≤ 4 := by
  have hres : reservedPages.toNat = 4096 := rfl
  have htotal := mmInit_totalPages h
  have hcalls := allocPages_of_none_free (mmInit_freePages h)
  constructor
  · intro hprovides
    have hpages := hprovides.totalPages
    omega
  · intro hmb
    have hnone : ∀ flags results, allocPages s' flags = some results → ∀ r ∈ results, r.1 = 0 := by
      intro flags results hrun r hr
      rw [hcalls, Option.some.injEq] at hrun
      rw [← hrun] at hr
      obtain ⟨_, -, rfl⟩ := List.mem_map.mp hr
      rfl
    refine ⟨by omega, ?_, ?_⟩
    · intro flags results _ hrun
      have hempty : results.filter (fun r => r.1 != 0) = [] := by
        rw [List.filter_eq_nil_iff]
        intro r hr
        simp [hnone flags results hrun r hr]
      rw [hempty, List.length_nil]
      omega
    · intro flags results _ hrun r hr hne
      exact absurd (hnone flags results hrun r hr) hne

/-- For every size: `mm_init` provides the memory exactly if that is at most 4 MB. Whatever the
size, no frame is free afterwards and every call of `mm_alloc_page` returns NULL. -/
theorem mm_init_provides_iff (s : State) (totalMemoryMb : UInt32) (heapBuffer : Nat) {s' : State}
    (h : mmInit s totalMemoryMb heapBuffer = some s') :
    (Provides totalMemoryMb s' ↔ totalMemoryMb.toNat ≤ 4) ∧ s'.freePages = 0 ∧
      ∀ flags, mmAllocPage s' flags = some (0, s') :=
  ⟨provides_iff h, mmInit_freePages h, mmAllocPage_of_none_free (mmInit_freePages h)⟩

/-- The variables before `mm_init`. -/
def bootState : State where
  heap := { Heap.bootHeap with mem := fun _ => 0, heapFirst := 0 }
  pageBitmap := fun _ => 0
  totalPages := 0
  freePages := 0
  usedMemory := 0

theorem mmInit_boot (mb : UInt32) : ∃ s, mmInit bootState mb 0x200000 = some s :=
  mmInit_returns rfl mb 0x200000

/-- With 4 MB, `_total_pages` is right, and none of the frames is above 16 MB. -/
theorem mm_init_provides_four : ∃ s, mmInit bootState 4 0x200000 = some s ∧ Provides 4 s := by
  obtain ⟨s, hs⟩ := mmInit_boot 4
  exact ⟨s, hs, (mm_init_provides_iff bootState 4 0x200000 hs).1.mpr (by decide)⟩

/-- With 17 MB there are 1024 pages and not 4352, with 4096 MB there are none, and
`mm_alloc_page` fails both times. -/
theorem mm_init_provides_nothing :
    (∃ s, mmInit bootState 17 0x200000 = some s ∧ s.totalPages.toNat = 1024 ∧
      (∀ flags, mmAllocPage s flags = some (0, s)) ∧ ¬ Provides 17 s) ∧
    (∃ s, mmInit bootState 4096 0x200000 = some s ∧ s.totalPages.toNat = 0 ∧
      (∀ flags, mmAllocPage s flags = some (0, s)) ∧ ¬ Provides 4096 s) := by
  obtain ⟨s, hs⟩ := mmInit_boot 17
  obtain ⟨s', hs'⟩ := mmInit_boot 4096
  constructor
  · refine ⟨s, hs, (mmInit_totalPages hs).trans (by decide), ?_, ?_⟩
    · exact mmAllocPage_of_none_free (mmInit_freePages hs)
    · rw [provides_iff hs]
      decide
  · refine ⟨s', hs', (mmInit_totalPages hs').trans (by decide), ?_, ?_⟩
    · exact mmAllocPage_of_none_free (mmInit_freePages hs')
    · rw [provides_iff hs']
      decide

/-! ## Failure -/

/-- `_free_pages` is the number of clear bits. -/
def State.Counted (s : State) : Prop :=
  s.freePages.toNat = Bitmap.clearCount s.pageBitmap s.totalPages.toNat

/-- The bitmap, the counters and the heap are as before. -/
structure Unchanged (s s' : State) : Prop where
  pageBitmap : s'.pageBitmap = s.pageBitmap
  freePages : s'.freePages = s.freePages
  usedMemory : s'.usedMemory = s.usedMemory
  heap : s'.heap = s.heap

/-- What `mm_alloc_page` does when there is a free frame. -/
theorem mmAllocPage_eq {s : State} (hcounted : s.Counted) (hfree : s.freePages ≠ 0)
    (flags : UInt32) :
    ∃ i, ((List.range s.totalPages.toNat).find? fun i => !Bitmap.bit s.pageBitmap i) = some i ∧
      mmAllocPage s flags = (Heap.kmalloc s.heap PAGE_T_SIZE).map fun (page, heap) =>
        if page = 0 then (0, { s.claim i with heap := heap })
        else (page, { s.claim i with
          heap := { heap with mem := initPage heap.mem page i flags } }) := by
  have hpos : 0 < Bitmap.clearCount s.pageBitmap s.totalPages.toNat := by
    rw [← hcounted]
    refine Nat.pos_of_ne_zero fun h0 => hfree ?_
    exact UInt32.toNat_inj.mp h0
  obtain ⟨i, hi⟩ := Bitmap.exists_clear hpos
  refine ⟨i, hi, ?_⟩
  rw [mmAllocPage, if_neg hfree, hi]
  rfl

/-- For every consistent allocator and every heap: a NULL of `mm_alloc_page` leaves everything
as it was exactly if no frame was free or `kmalloc` does not fail. -/
theorem mm_alloc_page_atomic_iff (s : State) (flags : UInt32) (hcounted : s.Counted) :
    (∀ s', mmAllocPage s flags = some (0, s') → Unchanged s s') ↔
      s.freePages = 0 ∨ ∀ heap, Heap.kmalloc s.heap PAGE_T_SIZE ≠ some (0, heap) := by
  by_cases hfree : s.freePages = 0
  · -- nothing to hand out, nothing done
    refine iff_of_true ?_ (Or.inl hfree)
    intro s' h
    rw [mmAllocPage_of_none_free hfree, Option.some.injEq, Prod.mk.injEq] at h
    rw [← h.2]
    exact ⟨rfl, rfl, rfl, rfl⟩
  · obtain ⟨i, -, heq⟩ := mmAllocPage_eq hcounted hfree flags
    rw [heq]
    constructor
    · -- a `kmalloc` that fails leaves the frame claimed
      intro hatomic
      right
      intro heap hkmalloc
      have hsame := (hatomic { s.claim i with heap := heap } (by rw [hkmalloc]; rfl)).freePages
      have hone : s.freePages - 1 = s.freePages := hsame
      grind
    · intro hcond s' h
      obtain ⟨⟨page, heap⟩, hkmalloc, hres⟩ := Option.map_eq_some_iff.mp h
      dsimp only at hres
      split at hres
      · next hnull =>
          subst hnull
          exact absurd hkmalloc (hcond.resolve_left hfree heap)
      · next hpage => exact absurd (Prod.mk.inj hres).1 hpage

/-- A heap with all its memory in one block that is in use. -/
def fullHeap : Heap.State :=
  ((Heap.kmalloc Heap.bootHeap
    (UInt64.ofNat (Heap.HEAP_SIZE - Heap.HDR))).getD (0, Heap.bootHeap)).2

/-- One frame, which is free. -/
def oneFrame (heap : Heap.State) : State where
  heap := heap
  pageBitmap := fun _ => 0
  totalPages := 1
  freePages := 1
  usedMemory := 0

theorem oneFrame_counted (heap : Heap.State) : (oneFrame heap).Counted := by
  have hcount : Bitmap.clearCount (fun _ => 0) 1 = 1 := by decide
  exact hcount.symm

/-- With the heap as it is at boot, the frame is handed out. -/
theorem mm_alloc_page_atomic_boot :
    (oneFrame Heap.bootHeap).Counted ∧
    ∀ s', mmAllocPage (oneFrame Heap.bootHeap) 0 = some (0, s') →
      Unchanged (oneFrame Heap.bootHeap) s' := by
  have hcounted := oneFrame_counted Heap.bootHeap
  have hptr : (Heap.kmalloc (oneFrame Heap.bootHeap).heap PAGE_T_SIZE).map Prod.fst =
      some (0x200000 + Heap.HDR) := by decide
  refine ⟨hcounted, (mm_alloc_page_atomic_iff _ 0 hcounted).mpr (Or.inr ?_)⟩
  intro heap hkmalloc
  rw [hkmalloc] at hptr
  have hzero : 0 = 0x200000 + Heap.HDR := Option.some.inj hptr
  exact absurd hzero (by decide)

/-- With no heap left the call returns NULL, and the frame is gone. -/
theorem mm_alloc_page_leaks :
    (oneFrame fullHeap).Counted ∧
    ∃ s', mmAllocPage (oneFrame fullHeap) 0 = some (0, s') ∧ s'.freePages = 0 ∧
      s'.usedMemory = 4096 ∧ ¬ Unchanged (oneFrame fullHeap) s' := by
  refine ⟨oneFrame_counted fullHeap, ?_⟩
  have hcall : ((mmAllocPage (oneFrame fullHeap) 0).map fun r =>
      (r.1, r.2.freePages, r.2.usedMemory)) = some (0, 0, 4096) := by decide
  obtain ⟨s', hcall, hcounters⟩ := Heap.exists_of_map hcall
  obtain ⟨hfree, hused⟩ := Prod.mk.inj hcounters
  refine ⟨s', hcall, hfree, hused, fun hsame => ?_⟩
  have hkeep := hsame.freePages
  rw [hfree] at hkeep
  exact absurd hkeep (by decide)

end OmniOS.Pages
