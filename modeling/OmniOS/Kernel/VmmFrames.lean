import OmniOS.Kernel.PmmPages
import OmniOS.Kernel.Vmm
import OmniOS.Kernel.PagingMap

/-!
# OmniOS.Kernel.VmmFrames — what a space takes from the page allocator, and gives back

`vmm_create_space` puts a `vm_space_t` into a page of `pmm_alloc_page`, but the structure
has 49192 bytes: it reaches over the eleven pages behind it and into a twelfth one. Here
it lies in the memory of the allocator, whose free lists are threaded through the same
pages. The page tables are kept apart, as in `OmniOS.Kernel.Paging`.

`vmm_map_pages` without a frame takes one from the allocator for each page, if the space
is current. Nothing gives it back: `paging_unmap_page` clears the entry, and
`vmm_destroy_space` frees the page of the PML4 and the first page of the space.
-/

namespace OmniOS.VmmFrames

open Memory
open Paging (KERNEL_VMA_BASE PAGE_SIZE)
open Pmm (Block Owns freeBlocks pagesOf)
open Vmm (KERNEL_PML4_IDX VM_REGION_MAX pteFlags)

/-! ## The layout of `vm_space_t` -/

def REGION_SIZE : Nat := 48
def REGION_END : Nat := 8
def REGION_FLAGS : Nat := 16
def REGION_ID : Nat := 24
def REGION_PHYS_BASE : Nat := 32
def REGION_USED : Nat := 40

def HEAP_START : Nat := VM_REGION_MAX * REGION_SIZE
def HEAP_END : Nat := HEAP_START + 8
def MMAP_BASE : Nat := HEAP_START + 16
def REGION_COUNT : Nat := HEAP_START + 24
def PML4_PHYS : Nat := HEAP_START + 32

/-- `sizeof(vm_space_t)`. -/
def SPACE_SIZE : Nat := HEAP_START + 40

/-- `&space->regions[i]`. -/
def regionAt (space i : Nat) : Nat := space + i * REGION_SIZE

/-- The machine under the page tables, and `&kernel_space`. -/
structure Kernel (F : Type*) extends Paging.Machine F where
  kernelSpace : Nat

/-- The allocator with its memory, the page tables, CR3 and the variables of `vmm.c`. -/
structure State (F : Type*) where
  pmm : Pmm.State
  paging : Paging.State F
  cr3 : Nat
  currentSpace : Nat
  nextRegionId : UInt32

def State.setMem {F : Type*} (s : State F) (m : Mem) : State F :=
  { s with pmm := { s.pmm with mem := m } }

section Model

variable {F : Type*} [DecidableEq F] (K : Kernel F)

/-- The new PML4 gets the kernel's entry and is empty otherwise. -/
def cloneKernelHalf (s : Paging.State F) (pml4Phys : UInt64) : Paging.State F :=
  let kernelPml4 := K.view KERNEL_VMA_BASE
  let newPml4 := K.view (pml4Phys + KERNEL_VMA_BASE)
  let mem := Function.update s.mem newPml4 fun _ => 0
  { s with mem := Radix.write mem newPml4 KERNEL_PML4_IDX (mem kernelPml4 KERNEL_PML4_IDX) }

/-- The fields that `vmm_create_space` sets. -/
def initSpace (m : Mem) (space pml4Phys : Nat) : Mem :=
  let m := store m 8 (space + PML4_PHYS) pml4Phys
  let m := store m 8 (space + HEAP_START) 0x6000000000
  let m := store m 8 (space + HEAP_END) (load m 8 (space + HEAP_START))
  store m 8 (space + MMAP_BASE) 0x7000000000

/-- `vmm_create_space`. `pmm_alloc_page` does not return 0, it panics. -/
def vmmCreateSpace (s : State F) : Option (Nat × State F) :=
  match Pmm.pmmAllocPage s.pmm with
  | none => none
  | some (space, pmm) =>
      match Pmm.pmmAllocPage { pmm with mem := fill pmm.mem SPACE_SIZE space 0 } with
      | none => none
      | some (pml4Phys, pmm) =>
          some (space, { s with
            pmm := { pmm with mem := initSpace pmm.mem space pml4Phys }
            paging := cloneKernelHalf K s.paging (UInt64.ofNat pml4Phys) })

def vmmSwitchSpace (s : State F) (space : Nat) : State F :=
  if space = 0 then s
  else { s with currentSpace := space, cr3 := load s.pmm.mem 8 (space + PML4_PHYS) }

/-- One turn of the loop of `vmm_map_pages`. -/
def mapOne (virt phys flags : UInt64) (s : State F) (i : Nat) : Option (State F) :=
  let taken :=
    if phys != 0 then some (phys + UInt64.ofNat i * PAGE_SIZE, s.pmm)
    else (Pmm.pmmAllocPage s.pmm).map fun r => (UInt64.ofNat r.1, r.2)
  taken.bind fun r =>
    (Paging.pagingMapPage K.toMachine s.paging (virt + UInt64.ofNat i * PAGE_SIZE) r.1
      (pteFlags flags)).map fun paging => { s with pmm := r.2, paging := paging }

/-- The stores into a region and into `region_count`. -/
def writeRegion (m : Mem) (space i : Nat) (virt phys pages flags : UInt64) (id : UInt32) : Mem :=
  let region := regionAt space i
  let m := store m 8 region virt.toNat
  let m := store m 8 (region + REGION_END) (virt + pages * PAGE_SIZE).toNat
  let m := store m 8 (region + REGION_FLAGS) flags.toNat
  let m := store m 4 (region + REGION_ID) id.toNat
  let m := store m 8 (region + REGION_PHYS_BASE) phys.toNat
  let m := store m 1 (region + REGION_USED) 1
  store m 4 (space + REGION_COUNT) (load m 4 (space + REGION_COUNT) + 1)

/-- The loop that records a region in the first entry not used. -/
def recordRegion (s : State F) (space : Nat) (virt phys pages flags : UInt64) : State F :=
  match (List.range VM_REGION_MAX).find? fun i =>
      load s.pmm.mem 1 (regionAt space i + REGION_USED) == 0 with
  | none => s
  | some i =>
      { s.setMem (writeRegion s.pmm.mem space i virt phys pages flags s.nextRegionId) with
        nextRegionId := s.nextRegionId + 1 }

def vmmMapPages (s : State F) (space : Nat) (virt phys pages flags : UInt64) : Option (State F) :=
  let s :=
    if space = s.currentSpace ∨ space = K.kernelSpace then
      (List.range pages.toNat).foldlM (mapOne K virt phys flags) s
    else some s
  s.map fun s => recordRegion s space virt phys pages flags

/-- One turn of the loop of `vmm_unmap_pages`. -/
def unmapOne (virt : UInt64) (s : State F) (i : Nat) : State F :=
  { s with
    paging := Paging.pagingUnmapPage K.toMachine s.paging (virt + UInt64.ofNat i * PAGE_SIZE) }

/-- The loop that clears the first entry starting at `virt`. -/
def clearRegion (s : State F) (space : Nat) (virt : UInt64) : State F :=
  match (List.range VM_REGION_MAX).find? fun i =>
      load s.pmm.mem 8 (regionAt space i) == virt.toNat with
  | none => s
  | some i =>
      let m := store s.pmm.mem 1 (regionAt space i + REGION_USED) 0
      s.setMem (store m 4 (space + REGION_COUNT) (load m 4 (space + REGION_COUNT) + 2 ^ 32 - 1))

def vmmUnmapPages (s : State F) (space : Nat) (virt pages : UInt64) : State F :=
  let s :=
    if space = s.currentSpace ∨ space = K.kernelSpace then
      (List.range pages.toNat).foldl (unmapOne K virt) s
    else s
  clearRegion s space virt

/-- The loop of `vmm_destroy_space`, over the regions left. -/
def destroyLoop (space : Nat) : List Nat → State F → State F
  | [], s => s
  | i :: is, s =>
      if load s.pmm.mem 1 (regionAt space i + REGION_USED) = 0 then destroyLoop space is s
      else
        let start := UInt64.ofNat (load s.pmm.mem 8 (regionAt space i))
        let stop := UInt64.ofNat (load s.pmm.mem 8 (regionAt space i + REGION_END))
        destroyLoop space is (vmmUnmapPages K s space start ((stop - start) / PAGE_SIZE))

def vmmDestroySpace (s : State F) (space : Nat) : Option (State F) :=
  if space = 0 ∨ space = K.kernelSpace then some s
  else
    let s := destroyLoop K space (List.range VM_REGION_MAX) s
    (Pmm.pmmFreePage s.pmm (load s.pmm.mem 8 (space + PML4_PHYS))).bind fun pmm =>
      (Pmm.pmmFreePage pmm space).map fun pmm => { s with pmm := pmm }

/-! ## The life of a space -/

/-- A call while the space is there; pages are mapped without giving their frames. -/
inductive Op where
  | map (virt pages flags : UInt64)
  | unmap (virt pages : UInt64)
  | switch (target : Nat)

def step (space : Nat) (s : State F) : Op → Option (State F)
  | .map virt pages flags => vmmMapPages K s space virt 0 pages flags
  | .unmap virt pages => some (vmmUnmapPages K s space virt pages)
  | .switch target => some (vmmSwitchSpace s target)

end Model

/-- `current_space` after a call. -/
def Op.current (current : Nat) : Op → Nat
  | .switch target => if target = 0 then current else target
  | _ => current

/-- The frames that a call takes. -/
def Op.taken (space current : Nat) : Op → Nat
  | .map _ pages _ => if space = current then pages.toNat else 0
  | _ => 0

/-- The frames that all calls take. -/
def framesTaken (space : Nat) : Nat → List Op → Nat
  | _, [] => 0
  | current, op :: ops => op.taken space current + framesTaken space (op.current current) ops

/-! ## Writes into a space -/

theorem layout : HEAP_START = 49152 ∧ PML4_PHYS = 49184 ∧ SPACE_SIZE = 49192 ∧
    REGION_COUNT = 49176 ∧ HEAP_END = 49160 ∧ MMAP_BASE = 49168 := by decide

/-- Only bytes of the space in front of `pml4_phys` are written. -/
def Inside (space : Nat) (m m' : Mem) : Prop :=
  ∀ x, x < space ∨ space + PML4_PHYS ≤ x → m' x = m x

theorem Inside.refl (space : Nat) (m : Mem) : Inside space m m := fun _ _ => rfl

theorem Inside.trans {space : Nat} {m m' m'' : Mem} (h : Inside space m m')
    (h' : Inside space m' m'') : Inside space m m'' := fun x hx => (h' x hx).trans (h x hx)

theorem Inside.store {space : Nat} {m m' : Mem} (h : Inside space m m') {n a : Nat}
    (hlow : space ≤ a) (hhigh : a + n ≤ space + PML4_PHYS) (v : Nat) :
    Inside space m (store m' n a v) :=
  fun x hx => (store_apply_of_notMem m' (by omega)).trans (h x hx)

theorem regionAt_le {i : Nat} (hi : i < VM_REGION_MAX) (space : Nat) :
    space ≤ regionAt space i ∧ regionAt space i + REGION_SIZE ≤ space + HEAP_START := by
  have hmax : VM_REGION_MAX = 1024 := rfl
  have hsize : REGION_SIZE = 48 := rfl
  have hstart : HEAP_START = 49152 := rfl
  rw [regionAt, hsize]
  omega

theorem writeRegion_inside {i : Nat} (hi : i < VM_REGION_MAX) (m : Mem) (space : Nat)
    (virt phys pages flags : UInt64) (id : UInt32) :
    Inside space m (writeRegion m space i virt phys pages flags id) := by
  have hregion := regionAt_le hi space
  have hlayout := layout
  have hfields : REGION_SIZE = 48 ∧ REGION_END = 8 ∧ REGION_FLAGS = 16 ∧ REGION_ID = 24 ∧
      REGION_PHYS_BASE = 32 ∧ REGION_USED = 40 := by decide
  unfold writeRegion
  refine Inside.store (Inside.store (Inside.store (Inside.store (Inside.store (Inside.store
    (Inside.store (Inside.refl space m) ?_ ?_ _) ?_ ?_ _) ?_ ?_ _) ?_ ?_ _) ?_ ?_ _) ?_ ?_ _)
    ?_ ?_ _
  all_goals omega

section Touches

variable {F : Type*} {space : Nat} {s s' s'' : State F}

/-- What a call does that takes no frame: neither the free lists nor `current_space` nor
anything outside the space changes. -/
structure Touches (space : Nat) (s s' : State F) : Prop where
  lists : s'.pmm.freeLists = s.pmm.freeLists
  mem : Inside space s.pmm.mem s'.pmm.mem
  current : s'.currentSpace = s.currentSpace

theorem Touches.refl (space : Nat) (s : State F) : Touches space s s :=
  ⟨rfl, Inside.refl space _, rfl⟩

theorem Touches.trans (h : Touches space s s') (h' : Touches space s' s'') :
    Touches space s s'' :=
  ⟨h'.lists.trans h.lists, h.mem.trans h'.mem, h'.current.trans h.current⟩

/-- A call that only writes to the space. -/
theorem Touches.setMem {m : Mem} (h : Inside space s.pmm.mem m) : Touches space s (s.setMem m) :=
  ⟨rfl, h, rfl⟩

theorem Touches.nextRegionId (h : Touches space s s') (id : UInt32) :
    Touches space s { s' with nextRegionId := id } :=
  ⟨h.lists, h.mem, h.current⟩

theorem recordRegion_touches (s : State F) (space : Nat) (virt phys pages flags : UInt64) :
    Touches space s (recordRegion s space virt phys pages flags) := by
  unfold recordRegion
  split
  · exact Touches.refl space s
  · next i hfind =>
      have hi := List.mem_range.mp (List.mem_of_find?_eq_some hfind)
      have hmem := writeRegion_inside hi s.pmm.mem space virt phys pages flags s.nextRegionId
      exact (Touches.setMem hmem).nextRegionId _

theorem clearRegion_touches (s : State F) (space : Nat) (virt : UInt64) :
    Touches space s (clearRegion s space virt) := by
  unfold clearRegion
  split
  · exact Touches.refl space s
  · next i hfind =>
      have hregion := regionAt_le (List.mem_range.mp (List.mem_of_find?_eq_some hfind)) space
      have hlayout := layout
      have hfields : REGION_SIZE = 48 ∧ REGION_USED = 40 := by decide
      refine Touches.setMem (Inside.store (Inside.store (Inside.refl space _) ?_ ?_ _) ?_ ?_ _)
      all_goals omega

variable [DecidableEq F] (K : Kernel F)

theorem vmmUnmapPages_touches (s : State F) (space : Nat) (virt pages : UInt64) :
    Touches space s (vmmUnmapPages K s space virt pages) := by
  have hloop (is : List Nat) (s : State F) : Touches space s (is.foldl (unmapOne K virt) s) := by
    induction is generalizing s with
    | nil => exact Touches.refl space s
    | cons i is ih =>
        have hone : Touches space s (unmapOne K virt s i) := ⟨rfl, Inside.refl space _, rfl⟩
        exact hone.trans (ih _)
  unfold vmmUnmapPages
  dsimp only
  split
  · exact (hloop _ s).trans (clearRegion_touches _ space virt)
  · exact clearRegion_touches s space virt

theorem destroyLoop_touches (is : List Nat) (s : State F) (space : Nat) :
    Touches space s (destroyLoop K space is s) := by
  induction is generalizing s with
  | nil => exact Touches.refl space s
  | cons i is ih =>
      rw [destroyLoop]
      split
      · exact ih s
      · exact (vmmUnmapPages_touches K s space _ _).trans (ih _)

end Touches

/-! ## Free and held pages -/

theorem pagesOf_append (bs cs : List Block) : pagesOf (bs ++ cs) = pagesOf bs ∪ pagesOf cs := by
  ext p
  simp [pagesOf, or_and_right, exists_or]

/-- A page is not free and held at once. -/
theorem not_free_of_held {s : Pmm.State} {ls : Nat → List Nat} {hs : List Block}
    (h : Owns s ls hs) {b : Block} (hb : b ∈ hs) {p : Nat} (hp : p ∈ b.pages) :
    p ∉ pagesOf (freeBlocks ls) := by
  rintro ⟨c, hc, hpc⟩
  exact Set.disjoint_left.mp ((List.pairwise_append.mp h.disjoint).2.2 c hc b hb) hpc hp

theorem page_of_block (b : Block) : b.addr / Pmm.PAGE_SIZE ∈ b.pages :=
  Set.mem_Ico.mpr ⟨Nat.le_refl _, Nat.lt_add_of_pos_right (Nat.two_pow_pos b.order)⟩

section Alive

variable {F : Type*} {base : Set Nat} {space pml4 : Nat} {s s' : State F} {ls : Nat → List Nat}
  {frames : List Block}

/-- None of the pages behind the page of the space that the structure reaches into. -/
def ClearBehind (base : Set Nat) (space : Nat) : Prop :=
  ∀ j, 1 ≤ j → j ≤ 12 → space / Pmm.PAGE_SIZE + j ∉ base

/-- The space has its page, its PML4 and `frames`; the rest of `base` is free. -/
structure Alive (base : Set Nat) (space pml4 : Nat) (s : State F) (ls : Nat → List Nat)
    (frames : List Block) : Prop where
  owns : Owns s.pmm ls (frames ++ [⟨0, pml4⟩, ⟨0, space⟩])
  pages : pagesOf (freeBlocks ls ++ (frames ++ [⟨0, pml4⟩, ⟨0, space⟩])) = base
  field : load s.pmm.mem 8 (space + PML4_PHYS) = pml4

/-- Where the structure lies no page is free. -/
theorem away_of_clear {st : Pmm.State} {hs : List Block} (howns : Owns st ls hs)
    (hspace : (⟨0, space⟩ : Block) ∈ hs) (hsub : pagesOf (freeBlocks ls) ⊆ base)
    (hclear : ClearBehind base space) {x : Nat} (hx : x / Pmm.PAGE_SIZE ∈ pagesOf (freeBlocks ls)) :
    x < space ∨ space + SPACE_SIZE ≤ x := by
  have hP := Pmm.PAGE_SIZE_eq
  have hlayout := layout
  obtain ⟨q, hq⟩ := (howns.good _ (List.mem_append_right _ hspace)).aligned
  dsimp only at hq
  by_contra hin
  have hpage : space / Pmm.PAGE_SIZE = q := by
    rw [hq, Nat.mul_div_cancel_left _ (by omega)]
  -- the page of `x` is the one of the space, or one behind it
  rcases Nat.eq_zero_or_pos (x / Pmm.PAGE_SIZE - q) with hzero | hpos
  · have hsame : x / Pmm.PAGE_SIZE = space / Pmm.PAGE_SIZE := by
      rw [hpage]
      rw [hP] at hq hzero ⊢
      omega
    rw [hsame] at hx
    exact not_free_of_held howns hspace (page_of_block ⟨0, space⟩) hx
  · refine hclear (x / Pmm.PAGE_SIZE - q) hpos ?_ (hsub ?_)
    · rw [hP] at hq ⊢
      omega
    · rw [hpage, Nat.add_sub_cancel' (by omega)]
      exact hx

theorem Alive.free_subset (h : Alive base space pml4 s ls frames) :
    pagesOf (freeBlocks ls) ⊆ base := by
  rw [← h.pages, pagesOf_append]
  exact Set.subset_union_left

/-- Writing into the space. -/
theorem Alive.touch (h : Alive base space pml4 s ls frames) (hclear : ClearBehind base space)
    (ht : Touches space s s') : Alive base space pml4 s' ls frames := by
  have hlayout := layout
  refine ⟨h.owns.write_away ?_ ht.lists, h.pages, ?_⟩
  · intro x hx
    have haway := away_of_clear h.owns (by simp) h.free_subset hclear hx
    exact ht.mem x (by omega)
  · rw [← h.field]
    exact load_congr fun x hx _ => ht.mem x (Or.inr hx)

/-- A frame is taken. -/
theorem Alive.alloc (h : Alive base space pml4 s ls frames) (hclear : ClearBehind base space) :
    Pmm.pmmAllocPage s.pmm = none ∨
    ∃ b pmm ls', Pmm.pmmAllocPage s.pmm = some (b, pmm) ∧
      ∀ s' : State F, s'.pmm = pmm → Alive base space pml4 s' ls' (⟨0, b⟩ :: frames) := by
  have hP := Pmm.PAGE_SIZE_eq
  have hlayout := layout
  rcases Pmm.pmmAllocPage_cases h.owns with hnone | ⟨b, pmm, ls', halloc, howns, hsame, hframe⟩
  · exact Or.inl hnone
  · refine Or.inr ⟨b, pmm, ls', halloc, ?_⟩
    rintro s' rfl
    refine ⟨howns, hsame.1.symm.trans h.pages, ?_⟩
    rw [← h.field]
    refine load_congr fun x hlow hhigh => hframe x fun hfree => ?_
    -- `pml4_phys` lies where no page is free
    have haway := away_of_clear h.owns (by simp) h.free_subset hclear hfree
    omega

variable [DecidableEq F] {K : Kernel F}

theorem mapOne_zero (virt flags : UInt64) (s : State F) (i : Nat) :
    ∃ paging : Nat → Paging.State F, mapOne K virt 0 flags s i =
      (Pmm.pmmAllocPage s.pmm).bind fun r => some { s with pmm := r.2, paging := paging r.1 } := by
  have hmap (phys : UInt64) := Paging.pagingMapPage_eq K.toMachine s.paging s.paging 0
    (virt + UInt64.ofNat i * PAGE_SIZE) phys (pteFlags flags)
  choose paging hpaging _ using hmap
  refine ⟨fun b => paging (UInt64.ofNat b), ?_⟩
  cases halloc : Pmm.pmmAllocPage s.pmm with
  | none => simp [mapOne, halloc]
  | some r => simp [mapOne, halloc, hpaging]

/-- The loop of `vmm_map_pages` takes a frame in every turn. -/
theorem Alive.mapLoop (h : Alive base space pml4 s ls frames) (hclear : ClearBehind base space)
    (virt flags : UInt64) (is : List Nat) :
    (is.foldlM (mapOne K virt 0 flags) s = none ∧ is ≠ []) ∨
    ∃ s' ls' taken, is.foldlM (mapOne K virt 0 flags) s = some s' ∧
      Alive base space pml4 s' ls' (taken ++ frames) ∧ taken.length = is.length ∧
      s'.currentSpace = s.currentSpace := by
  induction is generalizing s ls frames with
  | nil => exact Or.inr ⟨s, ls, [], rfl, h, rfl, rfl⟩
  | cons i is ih =>
      rcases mapOne_zero (K := K) virt flags s i with ⟨paging, hone⟩
      rw [List.foldlM_cons, hone]
      rcases h.alloc hclear with hnone | ⟨b, pmm, ls₁, halloc, hnext⟩
      · rw [hnone]
        exact Or.inl ⟨rfl, List.cons_ne_nil i is⟩
      · rw [halloc]
        dsimp only [Option.bind_some, Option.bind_eq_bind]
        rcases ih (hnext { s with pmm := pmm, paging := paging b } rfl) with
          ⟨hloop, -⟩ | ⟨s', ls', taken, hloop, halive, hlen, hcurrent⟩
        · exact Or.inl ⟨hloop, List.cons_ne_nil i is⟩
        · refine Or.inr ⟨s', ls', taken ++ [⟨0, b⟩], hloop, ?_, ?_, hcurrent⟩
          · rw [List.append_assoc]
            exact halive
          · rw [List.length_append, hlen]
            rfl

/-- One call while the space is there. -/
theorem Alive.step (h : Alive base space pml4 s ls frames) (hclear : ClearBehind base space)
    (hkernel : space ≠ K.kernelSpace) (op : Op) :
    (VmmFrames.step K space s op = none ∧ op.taken space s.currentSpace ≠ 0) ∨
    ∃ s' ls' taken, VmmFrames.step K space s op = some s' ∧
      Alive base space pml4 s' ls' (taken ++ frames) ∧
      taken.length = op.taken space s.currentSpace ∧
      s'.currentSpace = op.current s.currentSpace := by
  cases op with
  | map virt pages flags =>
      simp only [VmmFrames.step, vmmMapPages, or_iff_left hkernel, Op.taken, Op.current]
      by_cases hcur : space = s.currentSpace
      · rw [if_pos hcur, if_pos hcur]
        rcases h.mapLoop (K := K) hclear virt flags (List.range pages.toNat) with
          ⟨hnone, hne⟩ | ⟨s₁, ls', taken, hloop, halive, hlen, hcurrent⟩
        · rw [hnone]
          refine Or.inl ⟨rfl, ?_⟩
          intro hzero
          rw [hzero] at hne
          exact hne rfl
        · rw [hloop]
          have ht := recordRegion_touches s₁ space virt 0 pages flags
          refine Or.inr ⟨_, ls', taken, rfl, halive.touch hclear ht, ?_, ?_⟩
          · rw [hlen, List.length_range]
          · exact ht.current.trans hcurrent
      · rw [if_neg hcur, if_neg hcur]
        have ht := recordRegion_touches s space virt 0 pages flags
        exact Or.inr ⟨_, ls, [], rfl, h.touch hclear ht, rfl, ht.current⟩
  | unmap virt pages =>
      have ht := vmmUnmapPages_touches K s space virt pages
      exact Or.inr ⟨_, ls, [], rfl, h.touch hclear ht, rfl, ht.current⟩
  | switch target =>
      refine Or.inr ⟨_, ls, [], rfl, ?_⟩
      by_cases hzero : target = 0
      · simp only [vmmSwitchSpace, Op.current, if_pos hzero]
        exact ⟨h, rfl, trivial⟩
      · simp only [vmmSwitchSpace, Op.current, if_neg hzero]
        exact ⟨⟨h.owns, h.pages, h.field⟩, rfl, trivial⟩

/-- All calls. -/
theorem Alive.run (h : Alive base space pml4 s ls frames) (hclear : ClearBehind base space)
    (hkernel : space ≠ K.kernelSpace) (ops : List Op) :
    (ops.foldlM (VmmFrames.step K space) s = none ∧
      framesTaken space s.currentSpace ops ≠ 0) ∨
    ∃ s' ls' taken, ops.foldlM (VmmFrames.step K space) s = some s' ∧
      Alive base space pml4 s' ls' (taken ++ frames) ∧
      taken.length = framesTaken space s.currentSpace ops := by
  induction ops generalizing s ls frames with
  | nil => exact Or.inr ⟨s, ls, [], rfl, h, rfl⟩
  | cons op ops ih =>
      rw [List.foldlM_cons, framesTaken]
      rcases h.step hclear hkernel op with ⟨hnone, hne⟩ | ⟨s₁, ls₁, taken₁, hstep, h₁, hlen₁, hcur⟩
      · rw [hnone]
        exact Or.inl ⟨rfl, by omega⟩
      · rw [hstep, ← hcur]
        rcases ih h₁ with ⟨hnone, hne⟩ | ⟨s', ls', taken, hrun, h', hlen⟩
        · exact Or.inl ⟨hnone, by omega⟩
        · refine Or.inr ⟨s', ls', taken ++ taken₁, hrun, ?_, ?_⟩
          · rw [List.append_assoc]
            exact h'
          · rw [List.length_append, hlen, hlen₁, Nat.add_comm]

/-! ## Creating and destroying -/

theorem initSpace_apply {m : Mem} {x : Nat}
    (hx : x < space + HEAP_START ∨ space + SPACE_SIZE ≤ x) : initSpace m space pml4 x = m x := by
  have hlayout := layout
  unfold initSpace
  rw [store_apply_of_notMem _ (by omega), store_apply_of_notMem _ (by omega),
    store_apply_of_notMem _ (by omega), store_apply_of_notMem _ (by omega)]

/-- `vmm_destroy_space` gives back the PML4 and the page of the space, and no frame. -/
theorem Alive.destroy (h : Alive base space pml4 s ls frames) (hclear : ClearBehind base space)
    (hkernel : space ≠ K.kernelSpace) :
    ∃ s' ls', vmmDestroySpace K s space = some s' ∧ Owns s'.pmm ls' frames ∧
      pagesOf (freeBlocks ls' ++ frames) = base := by
  have h₁ := h.touch hclear (destroyLoop_touches K (List.range VM_REGION_MAX) s space)
  have hpos : space ≠ 0 := (h.owns.good ⟨0, space⟩ (by simp)).pos
  generalize hs₁ : destroyLoop K space (List.range VM_REGION_MAX) s = s₁ at h₁
  have hperm : (freeBlocks ls ++ (frames ++ [Block.mk 0 pml4, Block.mk 0 space])).Perm
      (freeBlocks ls ++ Block.mk 0 pml4 :: Block.mk 0 space :: frames) :=
    List.perm_append_comm.append_left _
  rcases Pmm.pmmFreePage_owns (h₁.owns.of_perm h₁.owns.lists hperm) with
    ⟨pmm₂, ls₂, hfree₂, howns₂, hsame₂⟩
  rcases Pmm.pmmFreePage_owns howns₂ with ⟨pmm₃, ls₃, hfree₃, howns₃, hsame₃⟩
  refine ⟨{ s₁ with pmm := pmm₃ }, ls₃, ?_, howns₃, ?_⟩
  · rw [vmmDestroySpace, if_neg (not_or.mpr ⟨hpos, hkernel⟩)]
    dsimp only
    rw [hs₁, h₁.field, hfree₂, Option.bind_some, hfree₃]
    rfl
  · rw [← h₁.pages, ← hsame₃.1, ← hsame₂.1]
    exact ((Pmm.Same.of_perm hperm).1).symm

end Alive

/-- Three pages at 16 MiB. -/
def threePages : List Pmm.Region := [⟨0x1000000, 0x3000, 1⟩]

def smallKernel : Kernel UInt64 := ⟨Paging.smallMachine, 0x200000⟩

/-- `kernel_space` is current. -/
def start (pmm : Pmm.State) : State UInt64 := ⟨pmm, Paging.emptyState, 0x1000, 0x200000, 1⟩

theorem threePages_pages {p : Nat} (hp : p ∈ pagesOf (freeBlocks (Pmm.initialLists threePages))) :
    0x1000 ≤ p ∧ p ≤ 0x1002 := by
  have hblocks : freeBlocks (Pmm.initialLists threePages) =
      [⟨0, 0x1002000⟩, ⟨0, 0x1001000⟩, ⟨0, 0x1000000⟩] := by decide
  rw [hblocks] at hp
  rcases hp with ⟨b, hb, hpage⟩
  have hP := Pmm.PAGE_SIZE_eq
  simp only [List.mem_cons, List.not_mem_nil, or_false] at hb
  rw [Block.pages, Set.mem_Ico, hP] at hpage
  rcases hb with rfl | rfl | rfl
  all_goals
    dsimp only at hpage
    omega

/-- The addresses on a free list, `n` at most. -/
def listFrom (m : Mem) : (n a : Nat) → List Nat
  | 0, _ => []
  | n + 1, a => if a = 0 then [] else a :: listFrom m n (Pmm.next m a)

end OmniOS.VmmFrames
