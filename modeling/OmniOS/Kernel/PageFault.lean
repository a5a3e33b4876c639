import OmniOS.Kernel.KernelHeap
import OmniOS.Kernel.PagingMap

/-!
# OmniOS.Kernel.PageFault — demand paging (`vmm_handle_page_fault` of `vmm.c`)

A fault of the kernel on a page that is not there is answered with a frame; any other fault is
refused. Nothing asks whether the address belongs to a region, so this goes for address 0 as
well, and nothing asks whether `pmm_alloc_page` had a frame: without one the page is mapped to
frame 0.
-/

namespace OmniOS.Vmm

open Lts Paging FourLevel

def PF_PRESENT : UInt64 := (1 : UInt64) <<< 0
def PF_USER : UInt64 := (1 : UInt64) <<< 2

/-- What the processor reports: CR2 and the error code. -/
structure Fault where
  addr : UInt64
  code : UInt64

/-- `!present && !user`. -/
def Fault.handled (f : Fault) : Bool := f.code &&& PF_PRESENT == 0 && f.code &&& PF_USER == 0

/-- `PTE_PRESENT | PTE_WRITABLE | PTE_NX`. -/
def demandFlags : UInt64 := PTE_PRESENT ||| PTE_WRITABLE ||| PTE_NX

section Faults

variable {F : Type*} [DecidableEq F] (K : Kernel F)

def vmmHandlePageFault (s : State F) (f : Fault) : Option (Int32 × State F) :=
  if f.handled then
    (pagingMapPage K.toMachine s.paging (f.addr &&& ~~~0xFFF) (K.pmmAllocPage s.pmmUsed)
      demandFlags).map fun paging => (0, { s with paging := paging, pmmUsed := s.pmmUsed + 1 })
  else some (-1, s)

/-- Faults in the lower half while CR3 has the tables that `paging.c` changes: bit 0 of the
error code says whether the page was there. -/
def faults : System (State F) Fault where
  Init := fun _ => True
  Next f s s' := LowerHalf f.addr ∧
    (f.code &&& PF_PRESENT != 0) = (presentLeaf K.toMachine s.paging f.addr).isSome ∧
    ∃ ret, vmmHandlePageFault K s f = some (ret, s')

variable {K}

theorem page_mask_bits : ∀ i < 64, (~~~(0xFFF : UInt64)).toNat.testBit i = decide (12 ≤ i) := by
  decide

/-- The page of a fault, from its first address. -/
theorem page_start (a : UInt64) :
    page (a &&& ~~~0xFFF) = page a ∧ (LowerHalf a → LowerHalf (a &&& ~~~0xFFF)) := by
  have hval := Words.toNat_and_mask page_mask_bits a
  unfold page LowerHalf
  rw [hval]
  omega

/-- The tables after some faults that were handled: each was on a page of its own, which now
has the frame taken for it, and the other pages are as they were. -/
structure Paged {s : State F} {N : Nat} (h : FreshPages K.toMachine s.paging N)
    (handled : List Fault) (t : State F) : Prop where
  tables : Radix.WellFormed (supply h) 3 LowerSlot K.root t.paging
  frames : t.pmmUsed = s.pmmUsed + handled.length
  once : (handled.map fun f => page f.addr).Nodup
  leaf : ∀ i f, handled[i]? = some f → ∀ virt, LowerHalf virt → page virt = page f.addr →
    presentLeaf K.toMachine t.paging virt =
      some (pteOf (K.pmmAllocPage (s.pmmUsed + i)) demandFlags)
  others : ∀ virt, LowerHalf virt → (∀ f ∈ handled, page virt ≠ page f.addr) →
    presentLeaf K.toMachine t.paging virt = presentLeaf K.toMachine s.paging virt

variable {s t t' : State F} {N : Nat} {h : FreshPages K.toMachine s.paging N}
  {handled : List Fault} {f : Fault}

theorem Paged.step (hp : Paged h handled t) (hlower : LowerHalf f.addr)
    (habsent : presentLeaf K.toMachine t.paging f.addr = none) (hhandled : f.handled = true)
    {ret : Int32} (hfault : vmmHandlePageFault K t f = some (ret, t'))
    (hlim : t'.paging.used ≤ N) : Paged h (handled ++ [f]) t' := by
  obtain ⟨hpage, hstart⟩ := page_start f.addr
  rw [vmmHandlePageFault, if_pos hhandled] at hfault
  obtain ⟨paging, hmap, hret⟩ := Option.map_eq_some_iff.mp hfault
  cases hret
  let op : PageOp := .map (f.addr &&& ~~~0xFFF) (K.pmmAllocPage t.pmmUsed) demandFlags
  have hvirt : LowerHalf op.virt := hstart hlower
  obtain ⟨htables, hself, hother⟩ := pageStep_spec h hvirt hp.tables hmap hlim
  -- the page was not there, so it is none of the earlier ones
  have hnew : ∀ g ∈ handled, page f.addr ≠ page g.addr := by
    intro g hg heq
    obtain ⟨i, hi⟩ := List.mem_iff_getElem?.mp hg
    exact absurd (habsent.symm.trans (hp.leaf i g hi f.addr hlower heq))
      (Option.some_ne_none _).symm
  have hframe : ∀ virt, LowerHalf virt → page virt ≠ page f.addr →
      presentLeaf K.toMachine paging virt = presentLeaf K.toMachine t.paging virt :=
    fun virt hvirt hne => (hother virt hvirt fun heq => hne (heq.trans hpage)).1
  refine ⟨htables, ?_, ?_, ?_, ?_⟩
  · show t.pmmUsed + 1 = _
    rw [hp.frames, List.length_append, List.length_singleton, Nat.add_assoc]
  · rw [List.map_append, List.map_singleton, List.nodup_append]
    refine ⟨hp.once, List.nodup_singleton _, ?_⟩
    simp only [List.mem_map, List.mem_singleton]
    rintro _ ⟨g, hg, rfl⟩ _ rfl heq
    exact hnew g hg heq.symm
  · intro i g hi virt hvirt hvpage
    rw [List.getElem?_append] at hi
    split at hi
    · have hne : page virt ≠ page f.addr := fun heq =>
        hnew g (List.mem_of_getElem? hi) (heq.symm.trans hvpage)
      rw [hframe virt hvirt hne]
      exact hp.leaf i g hi virt hvirt hvpage
    · next hge =>
        obtain ⟨hlast, rfl⟩ : i = handled.length ∧ f = g := by
          rw [List.getElem?_singleton] at hi
          split at hi
          · exact ⟨by omega, Option.some.inj hi⟩
          · cases hi
        rw [hlast, ← hp.frames]
        exact (presentLeaf_page (hvpage.trans hpage.symm)).trans hself
  · intro virt hvirt hnone
    have hne := hnone f (List.mem_append_right _ List.mem_cons_self)
    rw [hframe virt hvirt hne]
    exact hp.others virt hvirt fun g hg => hnone g (List.mem_append_left _ hg)

theorem used_next (hnext : (faults K).Next f t t') : t.paging.used ≤ t'.paging.used := by
  obtain ⟨-, -, ret, hfault⟩ := hnext
  unfold vmmHandlePageFault at hfault
  split at hfault
  · obtain ⟨paging, hmap, hret⟩ := Option.map_eq_some_iff.mp hfault
    cases hret
    obtain ⟨s', hmap', hle⟩ := pageStep_some K.toMachine t.paging
      (.map (f.addr &&& ~~~0xFFF) (K.pmmAllocPage t.pmmUsed) demandFlags)
    cases hmap.symm.trans hmap'
    exact hle
  · cases hfault
    exact Nat.le_refl _

end Faults

end OmniOS.Vmm
