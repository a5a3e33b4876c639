import OmniOS.Kernel.Pages

/-!
# OmniOS.Kernel.PagesInv — frames, counters and handles stay in step

A run allocates pages, releases references to them, and leaves the rest of the kernel to its
own use of the heap.

1. **Runs.** A configuration is the allocator, the live pointers of the heap and the references
   that are held: a handle stands there as many times as its `ref_count` says.
2. **Counters.** `Balanced`: claiming a clear frame and releasing a set one keep it.
3. **Handles.** `Handles`: each handle is a live block of the heap and names a frame of its own,
   whose bit is set. Only the bytes of the handles matter, so what the heap does elsewhere is
   a frame.
4. **Steps.** A step keeps both, and `Moves` says how frames change hands in it: from this,
   that a frame with a set bit and no handle is never handed out.
-/

namespace OmniOS.Pages

open Memory
open Heap (HDR SamePayload Rep Buffer)

/-! ## Runs -/

/-- The allocator, the live pointers of the heap, and the references held, one entry each. -/
structure Conf where
  st : State
  live : List Nat
  refs : List Nat

inductive Call where
  | allocPage (flags : UInt32)
  | freePage (page : Nat)
  | other (call : Heap.Call)

/-- The rest of the kernel frees and writes no handle. -/
def Foreign (c : Conf) : Heap.Call → Prop
  | .kmalloc _ => True
  | .kfree p => p ∉ c.refs
  | .write a _ => ∃ p ∈ c.live, p ∉ c.refs ∧ p ≤ a ∧ a < p + Heap.size c.st.heap.mem (p - HDR)

/-- `mm_free_page` is called for a reference that is held, and gives it up. -/
def Next : Call → Conf → Conf → Prop
  | .allocPage flags, c, c' => ∃ page s, mmAllocPage c.st flags = some (page, s) ∧
      c' = if page = 0 then { c with st := s } else ⟨s, page :: c.live, page :: c.refs⟩
  | .freePage page, c, c' => page ∈ c.refs ∧
      c' = { st := (mmFreePage c.st page).2
             live := if 1 < refCount c.st.heap.mem page then c.live else c.live.erase page
             refs := c.refs.erase page }
  | .other call, c, c' => Foreign c call ∧ ∃ heap, Heap.Next call ⟨c.st.heap, c.live⟩ heap ∧
      c' = { c with st := { c.st with heap := heap.heap }, live := heap.live }

/-- Runs from the configuration `c`. -/
def system (c : Conf) : Lts.System Conf Call where
  Init := fun c₀ => c₀ = c
  Next := Next

/-! ## Counters -/

/-- The counters agree with the bitmap. -/
structure Balanced (s : State) : Prop where
  /-- The bitmap has so many bits. -/
  total : s.totalPages.toNat ≤ MAX_PAGES.toNat
  free : s.Counted
  used : s.usedMemory.toNat = (s.totalPages.toNat - s.freePages.toNat) * PAGE_SIZE.toNat

section Counters

variable {s : State} {i : Nat}

theorem Balanced.withHeap (h : Balanced s) (heap : Heap.State) :
    Balanced { s with heap := heap } :=
  ⟨h.total, h.free, h.used⟩

theorem Balanced.claim (h : Balanced s) (hi : i < s.totalPages.toNat)
    (hclear : Bitmap.bit s.pageBitmap i = false) : Balanced (s.claim i) := by
  have hpage := PAGE_SIZE_eq
  have hmax := MAX_PAGES_eq
  have hone : (1 : UInt32).toNat = 1 := rfl
  have htotal := h.total
  have hused := h.used
  rw [hpage] at hused
  have hcount := Bitmap.clearCount_set hi hclear
  have hle := Bitmap.clearCount_le s.pageBitmap s.totalPages.toNat
  have hfree : s.freePages.toNat = Bitmap.clearCount s.pageBitmap s.totalPages.toNat := h.free
  have hsub : (s.freePages - 1).toNat = s.freePages.toNat - 1 := by
    refine UInt32.toNat_sub_of_le _ _ ?_
    rw [UInt32.le_iff_toNat_le, hone]
    omega
  refine ⟨h.total, ?_, ?_⟩
  · show (s.freePages - 1).toNat = Bitmap.clearCount (Bitmap.set s.pageBitmap i) s.totalPages.toNat
    omega
  · show (s.usedMemory + PAGE_SIZE).toNat = (s.totalPages.toNat - (s.freePages - 1).toNat) * _
    rw [UInt32.toNat_add, hsub, hpage]
    omega

theorem Balanced.release (h : Balanced s) (hi : i < s.totalPages.toNat)
    (hset : Bitmap.bit s.pageBitmap i = true) : Balanced (s.release i) := by
  have hpage := PAGE_SIZE_eq
  have hmax := MAX_PAGES_eq
  have hone : (1 : UInt32).toNat = 1 := rfl
  have htotal := h.total
  have hused := h.used
  rw [hpage] at hused
  have hcount := Bitmap.clearCount_clear hi hset
  have hle := Bitmap.clearCount_le (Bitmap.clear s.pageBitmap i) s.totalPages.toNat
  have hfree : s.freePages.toNat = Bitmap.clearCount s.pageBitmap s.totalPages.toNat := h.free
  have hadd : (s.freePages + 1).toNat = s.freePages.toNat + 1 := by
    rw [UInt32.toNat_add, hone]
    omega
  have hsub : (s.usedMemory - PAGE_SIZE).toNat = s.usedMemory.toNat - 4096 := by
    refine UInt32.toNat_sub_of_le _ _ ?_
    rw [UInt32.le_iff_toNat_le, hpage]
    omega
  refine ⟨h.total, ?_, ?_⟩
  · show (s.freePages + 1).toNat =
      Bitmap.clearCount (Bitmap.clear s.pageBitmap i) s.totalPages.toNat
    omega
  · show (s.usedMemory - PAGE_SIZE).toNat = (s.totalPages.toNat - (s.freePages + 1).toNat) * _
    rw [hsub, hadd, hpage]
    omega

end Counters

/-! ## Handles -/

/-- Each handle that is referred to is a live block large enough for a `page_t`, counts its
references, and names a frame of its own, whose bit is set. -/
structure Handles (m : Mem) (live refs : List Nat) (bitmap : Bitmap.Bytes) : Prop where
  live : ∀ h ∈ refs, h ∈ live
  size : ∀ h ∈ refs, PAGE_T_SIZE.toNat ≤ Heap.size m (h - HDR)
  count : ∀ h ∈ refs, refCount m h = refs.count h
  frame : ∀ h ∈ refs, ∃ i < MAX_PAGES.toNat,
    physAddr m h = i * PAGE_SIZE.toNat ∧ Bitmap.bit bitmap i = true
  distinct : ∀ h ∈ refs, ∀ h' ∈ refs, physAddr m h = physAddr m h' → h = h'

section Handles

variable {m m' : Mem} {live live' refs refs' : List Nat} {bitmap bitmap' : Bitmap.Bytes}

/-- A payload that is kept keeps the fields of the handle. -/
theorem fields_of_same {h : Nat} (hsame : SamePayload m m' h)
    (hsize : PAGE_T_SIZE.toNat ≤ Heap.size m (h - HDR)) :
    physAddr m' h = physAddr m h ∧ refCount m' h = refCount m h := by
  have hbytes := PAGE_T_SIZE_eq
  have hkeep : ∀ x, h ≤ x → x < h + 32 → m' x = m x := by
    intro x hx hx'
    have hbyte := hsame.bytes (x - h) (by omega)
    rwa [Nat.add_sub_cancel' hx] at hbyte
  exact ⟨load_congr fun x hx hx' => hkeep x hx (by omega),
    load_congr fun x hx hx' => hkeep x (by omega) (by omega)⟩

/-- Fewer references, to handles that name the frames they named. -/
theorem Handles.of_kept (h : Handles m live refs bitmap) (hsub : ∀ r ∈ refs', r ∈ refs)
    (hlive : ∀ r ∈ refs', r ∈ live')
    (hsize : ∀ r ∈ refs', Heap.size m' (r - HDR) = Heap.size m (r - HDR))
    (hphys : ∀ r ∈ refs', physAddr m' r = physAddr m r)
    (hcount : ∀ r ∈ refs', refCount m' r = refs'.count r)
    (hbits : ∀ r ∈ refs', ∀ i, physAddr m r = i * PAGE_SIZE.toNat →
      Bitmap.bit bitmap i = true → Bitmap.bit bitmap' i = true) :
    Handles m' live' refs' bitmap' := by
  refine ⟨hlive, fun r hr => ?_, hcount, fun r hr => ?_, fun r hr r' hr' heq => ?_⟩
  · rw [hsize r hr]
    exact h.size r (hsub r hr)
  · obtain ⟨i, hi, haddr, hbit⟩ := h.frame r (hsub r hr)
    exact ⟨i, hi, (hphys r hr).trans haddr, hbits r hr i haddr hbit⟩
  · rw [hphys r hr, hphys r' hr'] at heq
    exact h.distinct r (hsub r hr) r' (hsub r' hr') heq

/-- The same when the payloads of the handles are kept. -/
theorem Handles.of_same (h : Handles m live refs bitmap) (hsub : ∀ r ∈ refs', r ∈ refs)
    (hcount : ∀ r ∈ refs', refs'.count r = refs.count r) (hlive : ∀ r ∈ refs', r ∈ live')
    (hsame : ∀ r ∈ refs', SamePayload m m' r)
    (hbits : ∀ r ∈ refs', ∀ i, physAddr m r = i * PAGE_SIZE.toNat →
      Bitmap.bit bitmap i = true → Bitmap.bit bitmap' i = true) :
    Handles m' live' refs' bitmap' := by
  have hfields := fun r (hr : r ∈ refs') => fields_of_same (hsame r hr) (h.size r (hsub r hr))
  refine h.of_kept hsub hlive (fun r hr => (hsame r hr).size) (fun r hr => (hfields r hr).1) ?_
    hbits
  intro r hr
  rw [(hfields r hr).2, hcount r hr]
  exact h.count r (hsub r hr)

/-- A new handle for a frame no handle names. -/
theorem Handles.cons (h : Handles m live refs bitmap) {page i : Nat} (hlive : page ∈ live)
    (hnew : page ∉ refs) (hsize : PAGE_T_SIZE.toNat ≤ Heap.size m (page - HDR))
    (hcount : refCount m page = 1) (hi : i < MAX_PAGES.toNat)
    (hphys : physAddr m page = i * PAGE_SIZE.toNat) (hbit : Bitmap.bit bitmap i = true)
    (hfresh : ∀ r ∈ refs, physAddr m r ≠ i * PAGE_SIZE.toNat) :
    Handles m live (page :: refs) bitmap := by
  constructor
  case live => exact List.forall_mem_cons.mpr ⟨hlive, h.live⟩
  case size => exact List.forall_mem_cons.mpr ⟨hsize, h.size⟩
  case count =>
    refine List.forall_mem_cons.mpr ⟨?_, fun r hr => ?_⟩
    · rw [List.count_cons_self, List.count_eq_zero_of_not_mem hnew, hcount]
    · have hne : page ≠ r := by
        rintro rfl
        exact hnew hr
      rw [List.count_cons_of_ne hne]
      exact h.count r hr
  case frame => exact List.forall_mem_cons.mpr ⟨⟨i, hi, hphys, hbit⟩, h.frame⟩
  case distinct =>
    intro r hr r' hr' heq
    rcases List.mem_cons.mp hr with hpage | hold
    · rcases List.mem_cons.mp hr' with hpage' | hold'
      · exact hpage.trans hpage'.symm
      · rw [hpage, hphys] at heq
        exact absurd heq.symm (hfresh r' hold')
    · rcases List.mem_cons.mp hr' with hpage' | hold'
      · rw [hpage', hphys] at heq
        exact absurd heq (hfresh r hold)
      · exact h.distinct r hold r' hold' heq

end Handles

/-! ## Steps -/

/-- A state of the page allocator is consistent, over a heap with its block list. -/
structure Consistent (buf : Buffer) (c : Conf) : Prop where
  balanced : Balanced c.st
  handles : Handles c.st.heap.mem c.live c.refs c.st.pageBitmap
  heap : ∃ bs, Rep buf ⟨c.st.heap, c.live⟩ bs

/-- How frames change hands in a step. -/
structure Moves (c c' : Conf) : Prop where
  /-- A handle names the frame it named, or it is new and its frame was clear. -/
  named : ∀ h ∈ c'.refs,
    (h ∈ c.refs ∧ physAddr c'.st.heap.mem h = physAddr c.st.heap.mem h) ∨
    ∃ i, physAddr c'.st.heap.mem h = i * PAGE_SIZE.toNat ∧
      Bitmap.bit c.st.pageBitmap i = false
  /-- Only the frame of a handle is cleared. -/
  cleared : ∀ i, Bitmap.bit c.st.pageBitmap i = true → Bitmap.bit c'.st.pageBitmap i = false →
    ∃ h ∈ c.refs, physAddr c.st.heap.mem h = i * PAGE_SIZE.toNat

theorem frame_inj {i j : Nat} (h : i * PAGE_SIZE.toNat = j * PAGE_SIZE.toNat) : i = j := by
  rw [PAGE_SIZE_eq] at h
  omega

/-- A step that clears no bit. -/
theorem moves_of_bits {c c' : Conf}
    (hnamed : ∀ h ∈ c'.refs,
      (h ∈ c.refs ∧ physAddr c'.st.heap.mem h = physAddr c.st.heap.mem h) ∨
      ∃ i, physAddr c'.st.heap.mem h = i * PAGE_SIZE.toNat ∧
        Bitmap.bit c.st.pageBitmap i = false)
    (hbits : ∀ i, Bitmap.bit c.st.pageBitmap i = true → Bitmap.bit c'.st.pageBitmap i = true) :
    Moves c c' := by
  refine ⟨hnamed, fun i hset hunset => ?_⟩
  rw [hbits i hset] at hunset
  cases hunset

section Alloc

variable {buf : Buffer} {c : Conf} {s : State} {flags : UInt32} {page i : Nat}

/-- Nothing happens, or a clear frame is claimed, with a handle or without one. -/
theorem mmAllocPage_cases (h : mmAllocPage c.st flags = some (page, s)) :
    (page = 0 ∧ s = c.st) ∨
    ∃ i, i < c.st.totalPages.toNat ∧ Bitmap.bit c.st.pageBitmap i = false ∧
      ((page = 0 ∧ s = c.st.claim i) ∨
        page ≠ 0 ∧ ∃ heap, Heap.kmalloc c.st.heap PAGE_T_SIZE = some (page, heap) ∧
          s = { c.st.claim i with
            heap := { heap with mem := initPage heap.mem page i flags } }) := by
  unfold mmAllocPage at h
  split at h
  · cases h
    exact Or.inl ⟨rfl, rfl⟩
  · split at h
    · cases h
      exact Or.inl ⟨rfl, rfl⟩
    · next i hfind =>
        have hclear := List.find?_some hfind
        have hi := List.mem_range.mp (List.mem_of_find?_eq_some hfind)
        refine Or.inr ⟨i, hi, by simpa using hclear, ?_⟩
        obtain ⟨⟨p, heap⟩, hkmalloc, hres⟩ := Option.map_eq_some_iff.mp h
        dsimp only at hres
        split at hres
        · next hnull =>
            -- a `kmalloc` that fails has not changed the heap
            obtain ⟨rfl, rfl⟩ := Prod.mk.inj hres
            rcases Heap.kmalloc_inv hkmalloc with ⟨-, rfl⟩ | ⟨b, hb, -⟩
            · exact Or.inl ⟨rfl, rfl⟩
            · have hH := Heap.HDR_eq
              omega
        · next hp =>
            obtain ⟨rfl, rfl⟩ := Prod.mk.inj hres
            exact Or.inr ⟨hp, heap, hkmalloc, rfl⟩

/-- Setting a bit clears none. -/
theorem bit_claim {j : Nat} (h : Bitmap.bit c.st.pageBitmap j = true) :
    Bitmap.bit (c.st.claim i).pageBitmap j = true := by
  show Bitmap.bit (Bitmap.set c.st.pageBitmap i) j = true
  rw [Bitmap.bit_set, h, Bool.or_true]

section Fields

variable (m : Mem) (page : Nat) {i : Nat} (flags : UInt32)

theorem physAddr_initPage (hi : i < MAX_PAGES.toNat) :
    physAddr (initPage m page i flags) page = i * PAGE_SIZE.toNat := by
  have hpage := PAGE_SIZE_eq
  have hmax := MAX_PAGES_eq
  have haddr : (UInt32.ofNat i * PAGE_SIZE).toNat = i * 4096 := by
    rw [UInt32.toNat_mul, UInt32.toNat_ofNat', hpage]
    omega
  unfold physAddr initPage setRefCount
  dsimp only
  rw [haddr, hpage]
  simp (disch := omega) only [load_store_of_disjoint, load_store_self]

theorem refCount_initPage : refCount (initPage m page i flags) page = 1 := by
  unfold refCount initPage setRefCount
  dsimp only
  simp (disch := omega) only [load_store_of_disjoint, load_store_self]

theorem initPage_apply {x : Nat} (hx : x < page ∨ page + 32 ≤ x) :
    initPage m page i flags x = m x := by
  unfold initPage setRefCount
  simp (disch := omega) only [store_apply_of_notMem]

end Fields

/-- `kmalloc` has failed: the frame is claimed, and no handle names it. -/
theorem Consistent.claim (h : Consistent buf c) (hi : i < c.st.totalPages.toNat)
    (hclear : Bitmap.bit c.st.pageBitmap i = false) :
    Consistent buf { c with st := c.st.claim i } ∧ Moves c { c with st := c.st.claim i } := by
  constructor
  · refine ⟨h.balanced.claim hi hclear, ?_, h.heap⟩
    exact h.handles.of_kept (fun r hr => hr) h.handles.live (fun _ _ => rfl) (fun _ _ => rfl)
      h.handles.count fun _ _ _ _ hbit => bit_claim hbit
  · exact moves_of_bits (fun r hr => Or.inl ⟨hr, rfl⟩) fun j hset => bit_claim hset

/-- `kmalloc` has returned a new handle. -/
theorem Consistent.handOut (h : Consistent buf c) (hi : i < c.st.totalPages.toNat)
    (hclear : Bitmap.bit c.st.pageBitmap i = false) (hpage : page ≠ 0) {heap : Heap.State}
    (hkmalloc : Heap.kmalloc c.st.heap PAGE_T_SIZE = some (page, heap))
    (hs : s = { c.st.claim i with
      heap := { heap with mem := initPage heap.mem page i flags } }) :
    Consistent buf ⟨s, page :: c.live, page :: c.refs⟩ ∧
      Moves c ⟨s, page :: c.live, page :: c.refs⟩ := by
  have hbytes := PAGE_T_SIZE_eq
  have hmax : i < MAX_PAGES.toNat := Nat.lt_of_lt_of_le hi h.balanced.total
  obtain ⟨bs, hrep⟩ := h.heap
  -- the heap after `kmalloc`
  have hnext : Heap.Next (.kmalloc PAGE_T_SIZE) ⟨c.st.heap, c.live⟩ ⟨heap, page :: c.live⟩ :=
    ⟨page, heap, hkmalloc, by rw [if_neg hpage]⟩
  obtain ⟨bs₁, hrep₁⟩ := Heap.step_rep hrep hnext
  have hlarge : 32 ≤ Heap.size heap.mem (page - HDR) :=
    (Heap.kmalloc_large_enough hkmalloc hpage).mpr (by decide)
  have hnodup : (page :: c.live).Nodup := hrep₁.live.nodup_iff.mpr (Heap.payloads_nodup hrep₁.tiles)
  have hnew : page ∉ c.live := (List.nodup_cons.mp hnodup).1
  have hnewRef : page ∉ c.refs := fun hmem => hnew (h.handles.live page hmem)
  -- and after the fields have been written
  obtain ⟨hrep₂, hsize₂, hothers⟩ := hrep₁.writeLive (m := initPage heap.mem page i flags)
    List.mem_cons_self fun x hx => initPage_apply heap.mem page flags (by dsimp only at hx; omega)
  have hkeep : ∀ r ∈ c.refs, SamePayload c.st.heap.mem (initPage heap.mem page i flags) r := by
    intro r hr
    have hlive := h.handles.live r hr
    have hne : r ≠ page := by
      rintro rfl
      exact hnew hlive
    exact (Heap.kmalloc_keeps hrep hkmalloc hlive).trans
      (hothers r (List.mem_cons_of_mem _ hlive) hne)
  have hfields := fun r (hr : r ∈ c.refs) => fields_of_same (hkeep r hr) (h.handles.size r hr)
  have hphys := physAddr_initPage heap.mem page flags hmax
  have hset : Bitmap.bit (c.st.claim i).pageBitmap i = true := by
    show Bitmap.bit (Bitmap.set c.st.pageBitmap i) i = true
    rw [Bitmap.bit_set, decide_eq_true rfl, Bool.true_or]
  have hold : Handles (initPage heap.mem page i flags) (page :: c.live) c.refs
      (c.st.claim i).pageBitmap :=
    h.handles.of_same (fun r hr => hr) (fun _ _ => rfl)
      (fun r hr => List.mem_cons_of_mem _ (h.handles.live r hr)) hkeep
      fun _ _ _ _ hbit => bit_claim hbit
  -- the frames named so far have their bits set, this one had not
  have hfresh : ∀ r ∈ c.refs,
      physAddr (initPage heap.mem page i flags) r ≠ i * PAGE_SIZE.toNat := by
    intro r hr heq
    rw [(hfields r hr).1] at heq
    obtain ⟨j, -, haddr, hbit⟩ := h.handles.frame r hr
    have hij : j = i := frame_inj (haddr.symm.trans heq)
    rw [hij, hclear] at hbit
    cases hbit
  subst hs
  constructor
  · refine ⟨(h.balanced.claim hi hclear).withHeap _, ?_, bs₁, hrep₂⟩
    refine hold.cons List.mem_cons_self hnewRef ?_ (refCount_initPage heap.mem page flags) hmax
      hphys hset hfresh
    rw [hbytes, hsize₂]
    exact hlarge
  · refine moves_of_bits (fun r hr => ?_) fun j hset => bit_claim hset
    rcases List.mem_cons.mp hr with rfl | hr
    · exact Or.inr ⟨i, hphys, hclear⟩
    · exact Or.inl ⟨hr, (hfields r hr).1⟩

theorem Consistent.alloc (h : Consistent buf c) (hcall : mmAllocPage c.st flags = some (page, s))
    {c' : Conf} (hc' : c' = if page = 0 then { c with st := s }
      else ⟨s, page :: c.live, page :: c.refs⟩) : Consistent buf c' ∧ Moves c c' := by
  rcases mmAllocPage_cases hcall with
    ⟨rfl, rfl⟩ | ⟨i, hi, hclear, ⟨rfl, rfl⟩ | ⟨hpage, heap, hk, hs⟩⟩
  · rw [if_pos rfl] at hc'
    subst hc'
    exact ⟨h, moves_of_bits (fun r hr => Or.inl ⟨hr, rfl⟩) fun j hset => hset⟩
  · rw [if_pos rfl] at hc'
    subst hc'
    exact h.claim hi hclear
  · rw [if_neg hpage] at hc'
    subst hc'
    exact h.handOut hi hclear hpage hk hs

end Alloc

section Free

variable {buf : Buffer} {c : Conf} {page : Nat}

/-- A reference is given up and others are left. -/
theorem Consistent.unshare (h : Consistent buf c) (hpage : page ∈ c.refs)
    (hshared : 1 < refCount c.st.heap.mem page) {s : State}
    (hs : s = { c.st with heap := { c.st.heap with
      mem := setRefCount c.st.heap.mem page (refCount c.st.heap.mem page - 1) } }) :
    Consistent buf ⟨s, c.live, c.refs.erase page⟩ ∧ Moves c ⟨s, c.live, c.refs.erase page⟩ := by
  have hbytes := PAGE_T_SIZE_eq
  have hlarge := h.handles.size page hpage
  have hlive := h.handles.live page hpage
  obtain ⟨bs, hrep⟩ := h.heap
  obtain ⟨hrep', hsize, hothers⟩ := hrep.writeLive
    (m := setRefCount c.st.heap.mem page (refCount c.st.heap.mem page - 1)) hlive
    fun x hx => store_apply_of_notMem _ (by dsimp only at hx; omega)
  generalize hm : setRefCount c.st.heap.mem page (refCount c.st.heap.mem page - 1) = m at *
  have hsub : ∀ r ∈ c.refs.erase page, r ∈ c.refs := fun r hr => List.mem_of_mem_erase hr
  have hfields : ∀ r ∈ c.refs, r ≠ page →
      physAddr m r = physAddr c.st.heap.mem r ∧ refCount m r = refCount c.st.heap.mem r :=
    fun r hr hne => fields_of_same (hothers r (h.handles.live r hr) hne) (h.handles.size r hr)
  have hphys : ∀ r ∈ c.refs, physAddr m r = physAddr c.st.heap.mem r := by
    intro r hr
    by_cases hne : r = page
    · subst hne
      rw [← hm]
      exact load_store_of_disjoint _ (by omega)
    · exact (hfields r hr hne).1
  subst hs
  constructor
  · refine ⟨h.balanced.withHeap _, ?_, bs, hrep'⟩
    refine h.handles.of_kept hsub (fun r hr => h.handles.live r (hsub r hr)) ?_
      (fun r hr => hphys r (hsub r hr)) ?_ fun _ _ _ _ hbit => hbit
    · intro r hr
      by_cases hne : r = page
      · rw [hne]
        exact hsize
      · exact (hothers r (h.handles.live r (hsub r hr)) hne).size
    · intro r hr
      have hcount := h.handles.count r (hsub r hr)
      by_cases hne : r = page
      · -- the count goes down with the reference
        subst hne
        have hlt : refCount c.st.heap.mem r < 256 ^ 4 := load_lt _ 4 _
        rw [List.count_erase_self, ← hcount, ← hm]
        exact load_store_self _ (by omega)
      · rw [List.count_erase_of_ne hne, ← hcount]
        exact (hfields r (hsub r hr) hne).2
  · exact moves_of_bits (fun r hr => Or.inl ⟨hsub r hr, hphys r (hsub r hr)⟩) fun i hset => hset

/-- The frame of a handle that goes away, if it is one of those counted. -/
def State.giveBack (s : State) (i : Nat) : State :=
  if i < s.totalPages.toNat then s.release i else s

theorem Balanced.giveBack {s : State} {i : Nat} (h : Balanced s)
    (hset : Bitmap.bit s.pageBitmap i = true) : Balanced (s.giveBack i) := by
  unfold State.giveBack
  split
  · next hi => exact h.release hi hset
  · exact h

theorem bit_giveBack {s : State} {i j : Nat} (hne : j ≠ i)
    (hset : Bitmap.bit s.pageBitmap j = true) :
    Bitmap.bit (s.giveBack i).pageBitmap j = true := by
  unfold State.giveBack
  split
  · show Bitmap.bit (Bitmap.clear s.pageBitmap i) j = true
    rw [Bitmap.bit_clear, hset, decide_eq_false hne]
    rfl
  · exact hset

/-- The last reference is given up: the frame is cleared and the handle freed. -/
theorem Consistent.giveBack (h : Consistent buf c) (hpage : page ∈ c.refs)
    (hlast : ¬ 1 < refCount c.st.heap.mem page) {s : State}
    (hs : s = { c.st.giveBack (physAddr c.st.heap.mem page / PAGE_SIZE.toNat % 2 ^ 32) with
      heap := Heap.kfree c.st.heap page }) :
    Consistent buf ⟨s, c.live.erase page, c.refs.erase page⟩ ∧
      Moves c ⟨s, c.live.erase page, c.refs.erase page⟩ := by
  have hps := PAGE_SIZE_eq
  have hmax := MAX_PAGES_eq
  obtain ⟨i, hi, haddr, hbit⟩ := h.handles.frame page hpage
  have hidx : physAddr c.st.heap.mem page / PAGE_SIZE.toNat % 2 ^ 32 = i := by
    rw [haddr, hps]
    omega
  rw [hidx] at hs
  -- this was the only reference to the handle
  have hgone : page ∉ c.refs.erase page := by
    have hcount := h.handles.count page hpage
    refine List.count_eq_zero.mp ?_
    rw [List.count_erase_self]
    omega
  have hsub : ∀ r ∈ c.refs.erase page, r ∈ c.refs ∧ r ≠ page := by
    intro r hr
    refine ⟨List.mem_of_mem_erase hr, ?_⟩
    rintro rfl
    exact hgone hr
  have hlive := h.handles.live page hpage
  obtain ⟨bs, hrep⟩ := h.heap
  have hkeep : ∀ r ∈ c.refs.erase page,
      SamePayload c.st.heap.mem (Heap.kfree c.st.heap page).mem r :=
    fun r hr => Heap.kfree_keeps hrep hlive (h.handles.live r (hsub r hr).1) (hsub r hr).2
  have hbalanced : Balanced s := hs ▸ (h.balanced.giveBack hbit).withHeap _
  have hheap : s.heap = Heap.kfree c.st.heap page := by
    rw [hs]
  have hbits : ∀ j, j ≠ i → Bitmap.bit c.st.pageBitmap j = true →
      Bitmap.bit s.pageBitmap j = true := by
    intro j hj hset
    rw [hs]
    exact bit_giveBack hj hset
  constructor
  · refine ⟨hbalanced, ?_, ?_⟩
    · dsimp only
      rw [hheap]
      refine h.handles.of_same (fun r hr => (hsub r hr).1) ?_ ?_ hkeep ?_
      · exact fun r hr => List.count_erase_of_ne (hsub r hr).2
      · intro r hr
        exact (List.mem_erase_of_ne (hsub r hr).2).mpr (h.handles.live r (hsub r hr).1)
      · -- another handle names another frame
        intro r hr j hj hset
        refine hbits j ?_ hset
        rintro rfl
        have heq := h.handles.distinct r (hsub r hr).1 page hpage (hj.trans haddr.symm)
        exact (hsub r hr).2 heq
    · dsimp only
      rw [hheap]
      exact Heap.kfree_rep hrep hlive
  · refine ⟨fun r hr => Or.inl ⟨(hsub r hr).1, ?_⟩, fun j hset hunset => ?_⟩
    · dsimp only
      rw [hheap]
      exact (fields_of_same (hkeep r hr) (h.handles.size r (hsub r hr).1)).1
    · by_cases hj : j = i
      · exact ⟨page, hpage, by rw [hj]; exact haddr⟩
      · exact absurd ((hbits j hj hset).symm.trans hunset) Bool.noConfusion

theorem Consistent.free (h : Consistent buf c) (hpage : page ∈ c.refs) {c' : Conf}
    (hc' : c' = { st := (mmFreePage c.st page).2
                  live := if 1 < refCount c.st.heap.mem page then c.live else c.live.erase page
                  refs := c.refs.erase page }) : Consistent buf c' ∧ Moves c c' := by
  have hne : page ≠ 0 := by
    obtain ⟨bs, hrep⟩ := h.heap
    rintro rfl
    exact hrep.zero_notMem (h.handles.live 0 hpage)
  subst hc'
  by_cases hshared : 1 < refCount c.st.heap.mem page
  · rw [if_pos hshared, mmFreePage, if_neg hne, if_pos hshared]
    exact h.unshare hpage hshared rfl
  · rw [if_neg hshared, mmFreePage, if_neg hne, if_neg hshared]
    refine h.giveBack hpage hshared ?_
    unfold State.giveBack
    dsimp only
    split <;> rfl

/-- A step of the rest of the kernel keeps the payload of every handle. -/
theorem Consistent.other (h : Consistent buf c) {call : Heap.Call} (hforeign : Foreign c call)
    {heap : Heap.Conf} (hnext : Heap.Next call ⟨c.st.heap, c.live⟩ heap) {c' : Conf}
    (hc' : c' = { c with st := { c.st with heap := heap.heap }, live := heap.live }) :
    Consistent buf c' ∧ Moves c c' := by
  obtain ⟨bs, hrep⟩ := h.heap
  have hkept : ∀ r ∈ c.refs, r ∈ heap.live ∧ SamePayload c.st.heap.mem heap.heap.mem r := by
    intro r hr
    have hlive := h.handles.live r hr
    cases call with
    | kmalloc n =>
        obtain ⟨p, s, hcall, rfl⟩ := hnext
        refine ⟨?_, Heap.kmalloc_keeps hrep hcall hlive⟩
        dsimp only
        split
        · exact hlive
        · exact List.mem_cons_of_mem _ hlive
    | kfree p =>
        obtain ⟨hp, rfl⟩ := hnext
        have hne : r ≠ p := by
          rintro rfl
          exact hforeign hr
        refine ⟨(List.mem_erase_of_ne hne).mpr hlive, ?_⟩
        rcases hp with rfl | hp
        · exact ⟨rfl, fun _ _ => rfl⟩
        · exact Heap.kfree_keeps hrep hp hlive hne
    | write a v =>
        obtain ⟨-, rfl⟩ := hnext
        obtain ⟨p, hp, hpr, hpa, hap⟩ := hforeign
        have hne : r ≠ p := by
          rintro rfl
          exact hpr hr
        obtain ⟨-, -, hothers⟩ := hrep.writeLive (m := store c.st.heap.mem 1 a v.toNat) hp
          fun x hx => store_apply_of_notMem _ (by dsimp only at hx; omega)
        exact ⟨hlive, hothers r hlive hne⟩
  subst hc'
  constructor
  · refine ⟨h.balanced.withHeap _, ?_, Heap.step_rep hrep hnext⟩
    exact h.handles.of_same (fun r hr => hr) (fun _ _ => rfl) (fun r hr => (hkept r hr).1)
      (fun r hr => (hkept r hr).2) fun _ _ _ _ hbit => hbit
  · refine moves_of_bits (fun r hr => Or.inl ⟨hr, ?_⟩) fun i hset => hset
    exact (fields_of_same (hkept r hr).2 (h.handles.size r hr)).1

/-- One step. -/
theorem Consistent.step (h : Consistent buf c) {call : Call} {c' : Conf}
    (hnext : Next call c c') : Consistent buf c' ∧ Moves c c' := by
  cases call with
  | allocPage flags =>
      obtain ⟨page, s, hcall, hc'⟩ := hnext
      exact h.alloc hcall hc'
  | freePage page =>
      obtain ⟨hpage, hc'⟩ := hnext
      exact h.free hpage hc'
  | other call =>
      obtain ⟨hforeign, heap, hheap, hc'⟩ := hnext
      exact h.other hforeign hheap hc'

end Free

/-! ## Runs of the allocator -/

/-- The bit of the frame is set, and no handle names it. -/
structure Reserved (i : Nat) (c : Conf) : Prop where
  set : Bitmap.bit c.st.pageBitmap i = true
  unnamed : ∀ h ∈ c.refs, physAddr c.st.heap.mem h ≠ i * PAGE_SIZE.toNat

/-- A step hands out a clear frame and clears the frame of a handle, so not this one. -/
theorem Reserved.step {i : Nat} {c c' : Conf} (h : Reserved i c) (hmoves : Moves c c') :
    Reserved i c' := by
  constructor
  case set =>
    by_contra hunset
    obtain ⟨page, hpage, haddr⟩ := hmoves.cleared i h.set (Bool.eq_false_of_not_eq_true hunset)
    exact h.unnamed page hpage haddr
  case unnamed =>
    intro page hpage heq
    rcases hmoves.named page hpage with ⟨hold, hkept⟩ | ⟨j, haddr, hclear⟩
    · exact h.unnamed page hold (hkept.symm.trans heq)
    · have hij : j = i := frame_inj (haddr.symm.trans heq)
      rw [hij, h.set] at hclear
      cases hclear

theorem consistent_of_reachable {buf : Buffer} {c₀ c : Conf} (h₀ : Consistent buf c₀)
    (hreach : Lts.Reachable (system c₀) c) :
    Consistent buf c ∧ ∀ i, Reserved i c₀ → Reserved i c := by
  refine hreach.invariant (I := fun c => Consistent buf c ∧ ∀ i, Reserved i c₀ → Reserved i c) ?_ ?_
  · rintro c rfl
    exact ⟨h₀, fun i h => h⟩
  · rintro call c c' ⟨h, hreserved⟩ hnext
    obtain ⟨h', hmoves⟩ := h.step hnext
    exact ⟨h', fun i hi => (hreserved i hi).step hmoves⟩

/-- Over a heap with its block list, `mm_alloc_page` returns. -/
theorem Consistent.returns {buf : Buffer} {c : Conf} (h : Consistent buf c) (flags : UInt32) :
    ∃ page s, mmAllocPage c.st flags = some (page, s) := by
  by_cases hfree : c.st.freePages = 0
  · exact ⟨0, c.st, mmAllocPage_of_none_free hfree flags⟩
  · obtain ⟨i, -, heq⟩ := mmAllocPage_eq h.balanced.free hfree flags
    obtain ⟨bs, hrep⟩ := h.heap
    rw [heq]
    rcases Heap.kmalloc_cases hrep PAGE_T_SIZE with hnone | ⟨xs, b, ys, -, -, -, hsome⟩
    · exact ⟨0, { c.st.claim i with heap := c.st.heap }, by rw [hnone]; rfl⟩
    · have hH := Heap.HDR_eq
      rw [hsome, Option.map_some]
      dsimp only
      rw [if_neg (by omega)]
      exact ⟨_, _, rfl⟩

/-- The page that is returned describes a frame that was clear. -/
theorem mmAllocPage_was_clear {buf : Buffer} {c : Conf} (h : Consistent buf c) {flags : UInt32}
    {page : Nat} {s : State} (hcall : mmAllocPage c.st flags = some (page, s)) (hpage : page ≠ 0) :
    ∃ i < c.st.totalPages.toNat, physAddr s.heap.mem page = i * PAGE_SIZE.toNat ∧
      Bitmap.bit c.st.pageBitmap i = false := by
  rcases mmAllocPage_cases hcall with ⟨hnull, -⟩ | ⟨i, hi, hclear, ⟨hnull, -⟩ | ⟨-, heap, -, rfl⟩⟩
  · exact absurd hnull hpage
  · exact absurd hnull hpage
  · refine ⟨i, hi, ?_, hclear⟩
    exact physAddr_initPage heap.mem page flags (Nat.lt_of_lt_of_le hi h.balanced.total)

theorem handles_nil (m : Mem) (live : List Nat) (bitmap : Bitmap.Bytes) :
    Handles m live [] bitmap :=
  ⟨List.forall_mem_nil _, List.forall_mem_nil _, List.forall_mem_nil _, List.forall_mem_nil _,
    List.forall_mem_nil _⟩

/-- `mm_init` leaves a consistent allocator with no handles, whose frames are all reserved. -/
theorem mmInit_consistent (buf : Buffer) {s s' : State} {mb : UInt32} (hboot : s.heap.heapFirst = 0)
    (h : mmInit s mb buf.addr = some s') :
    Consistent buf ⟨s', [], []⟩ ∧ ∀ i < s'.totalPages.toNat, Reserved i ⟨s', [], []⟩ := by
  have hps := PAGE_SIZE_eq
  have hmax := MAX_PAGES_eq
  have htotal := mmInit_totalPages h
  have hfree := mmInit_freePages h
  obtain ⟨heap, hheap, s₁, hclaimed, rfl⟩ := mmInit_claimed h
  have hfree₁ : s₁.freePages = 0 := hfree
  have hset : ∀ i < s₁.totalPages.toNat, Bitmap.bit s₁.pageBitmap i = true := by
    intro i hi
    rw [hclaimed.totalPages] at hi
    rw [hclaimed.bits]
    exact Bool.or_eq_true_iff.mpr (Or.inl (decide_eq_true hi))
  refine ⟨⟨⟨?_, ?_, ?_⟩, ?_, ?_⟩, fun i hi => ⟨hset i hi, List.forall_mem_nil _⟩⟩
  · dsimp only at htotal ⊢
    omega
  · show s₁.freePages.toNat = Bitmap.clearCount s₁.pageBitmap s₁.totalPages.toNat
    rw [Bitmap.clearCount_eq_zero hset, hfree₁]
    rfl
  · show s₁.usedMemory.toNat = (s₁.totalPages.toNat - s₁.freePages.toNat) * PAGE_SIZE.toNat
    have hused : s₁.usedMemory = 0 + s₁.totalPages * PAGE_SIZE := by
      rw [hclaimed.usedMemory, hclaimed.totalPages, UInt32.ofNat_toNat]
      rfl
    rw [hused, hfree₁, UInt32.zero_add, UInt32.toNat_mul, UInt32.toNat_zero, hps]
    dsimp only at htotal
    omega
  · exact handles_nil _ _ _
  · exact ⟨_, Heap.init_rep ⟨rfl, s.heap, hboot, hheap⟩⟩

/-- Over every run from a consistent allocator: it stays consistent, `mm_alloc_page` returns and
hands out a frame that was clear, and a frame that is set without a handle is never handed out.
`mm_init` starts such a run, with the frames of the first 16 MB reserved. -/
theorem frames_owned (buf : Buffer) :
    (∀ s s' mb, s.heap.heapFirst = 0 → mmInit s mb buf.addr = some s' →
      Consistent buf ⟨s', [], []⟩ ∧
        ∀ i < min reservedPages.toNat s'.totalPages.toNat, Reserved i ⟨s', [], []⟩) ∧
    ∀ c₀ c, Consistent buf c₀ → Lts.Reachable (system c₀) c →
      Consistent buf c ∧
      (∀ flags, ∃ page s, mmAllocPage c.st flags = some (page, s) ∧ (page ≠ 0 →
        ∃ i < c.st.totalPages.toNat, physAddr s.heap.mem page = i * PAGE_SIZE.toNat ∧
          Bitmap.bit c.st.pageBitmap i = false)) ∧
      ∀ i, Reserved i c₀ → Reserved i c := by
  constructor
  · intro s s' mb hboot hinit
    obtain ⟨hcons, hall⟩ := mmInit_consistent buf hboot hinit
    exact ⟨hcons, fun i hi => hall i (Nat.lt_of_lt_of_le hi (Nat.min_le_right _ _))⟩
  · intro c₀ c h₀ hreach
    obtain ⟨hcons, hreserved⟩ := consistent_of_reachable h₀ hreach
    refine ⟨hcons, fun flags => ?_, hreserved⟩
    obtain ⟨page, s, hcall⟩ := hcons.returns flags
    exact ⟨page, s, hcall, mmAllocPage_was_clear hcons hcall⟩

/-- One clear frame over the heap of the boot: it is handed out, and the state is consistent. -/
theorem frames_owned_one_frame : ∃ c,
    Lts.Reachable (system ⟨oneFrame Heap.bootHeap, [], []⟩) c ∧ c.refs = [0x200000 + HDR] ∧
      Consistent Heap.bootBuffer c := by
  have hinit : Consistent Heap.bootBuffer ⟨oneFrame Heap.bootHeap, [], []⟩ := by
    exact ⟨⟨by decide, oneFrame_counted Heap.bootHeap, by decide⟩, handles_nil _ _ _,
      _, Heap.init_rep Heap.bootHeap_init⟩
  have hcall : ((mmAllocPage (oneFrame Heap.bootHeap) 0).map fun r => (r.1, ())) =
      some (0x200000 + HDR, ()) := by decide
  obtain ⟨s, hcall, -⟩ := Heap.exists_of_map hcall
  have hnext : (system ⟨oneFrame Heap.bootHeap, [], []⟩).Next (.allocPage 0)
      ⟨oneFrame Heap.bootHeap, [], []⟩ ⟨s, [0x200000 + HDR], [0x200000 + HDR]⟩ :=
    ⟨_, s, hcall, by rw [if_neg (by decide)]⟩
  have hreach := (Lts.Reachable.init (S := system ⟨oneFrame Heap.bootHeap, [], []⟩) rfl).step hnext
  exact ⟨_, hreach, rfl, ((frames_owned Heap.bootBuffer).2 _ _ hinit hreach).1⟩

end OmniOS.Pages
