import OmniOS.Kernel.Paging

/-!
# OmniOS.Kernel.PagingMap — the lower half of the x86_64 tables is a finite map

`walk` is a `Radix` walk, and mapping and unmapping a page are a store and an
erasure there. A region call is the list of its pages (`step_eq`), so a run is a
list of page operations; the invariant `Holds` goes along that list.
-/

namespace OmniOS.Paging

open FourLevel

/-! ## Entries and addresses -/

theorem and_page_mask {x : UInt64} (h : x.toNat % 4096 = 0) : x &&& PAGE_MASK = x := by
  have hmask : ∀ i < 64, 12 ≤ i → PAGE_MASK.toNat.testBit i = true := by decide
  apply and_eq_self_of_testBit
  intro i hi
  exact hmask i (testBit_lt x.toNat_lt hi) (testBit_of_aligned h hi)

theorem pteOf_present (phys flags : UInt64) : pteOf phys flags &&& PTE_PRESENT ≠ 0 := by
  have hpresent : PTE_PRESENT &&& PTE_PRESENT ≠ 0 := by decide
  have hor (x y : UInt64) (h : x &&& PTE_PRESENT ≠ 0) : (x ||| y) &&& PTE_PRESENT ≠ 0 := by
    rw [UInt64.or_comm]
    exact or_and_ne_zero h
  have hpte : ((phys &&& PAGE_MASK) ||| PTE_PRESENT ||| flags) &&& PTE_PRESENT ≠ 0 :=
    hor _ _ (or_and_ne_zero hpresent)
  unfold pteOf
  split
  next _ => exact hor _ _ hpte
  next _ => exact hpte

/-- Bit 47 is the highest bit of the PML4 index. -/
theorem path_ok {virt : UInt64} (h : LowerHalf virt) : Radix.Path 3 LowerSlot (path virt) := by
  constructor
  · exact Nat.le_refl 3
  · intro i hi
    have hi' : index virt 39 = i := Option.some.inj hi
    have hval := index_val virt 39 (by decide)
    unfold LowerHalf at h
    rw [LowerSlot, ← hi', hval]
    simp only [UInt64.reduceToNat]
    omega

/-! ## `walk` as a table walk -/

section Walk

variable {F : Type*} [DecidableEq F] {M : Machine F} {s₀ s : State F} {N : Nat}

/-- The pages of `aligned_alloc`, each with the entry that names it. -/
def supply (h : FreshPages M s₀ N) : Radix.Supply (format M) where
  page n := M.view (M.alignedAlloc n)
  link n := (M.alignedAlloc n &&& PAGE_MASK) ||| (PTE_PRESENT ||| PTE_WRITABLE ||| PTE_USER)
  limit := N
  link_present := fun n _ => by
    have hattrs : (PTE_PRESENT ||| PTE_WRITABLE ||| PTE_USER) &&& PTE_PRESENT ≠ 0 := by decide
    simpa [format] using or_and_ne_zero hattrs
  target_link := fun n hn => by
    have hpage := and_page_mask (h.aligned n hn)
    rw [hpage]
    show M.view (physToVirt (_ &&& PAGE_MASK)) = _
    rw [or_and_mask hpage (by decide), h.readable n hn]
  page_injOn := h.distinct

theorem walkLevel_false (t : F) (i : Fin 512) :
    walkLevel M s t i false = (s, (format M).next (s.mem t i)) := by
  by_cases hp : s.mem t i &&& PTE_PRESENT = 0
  · simp [walkLevel, Radix.Format.next, format, hp]
  · simp [walkLevel, Radix.Format.next, format, hp]

theorem walk_false (virt : UInt64) :
    walk M s virt false =
      (s, (Radix.walk (format M) s.mem M.root (path virt)).map fun t => (t, slot virt)) := by
  simp only [walk, walkLevel_false, path, Radix.walk, slot]
  rcases h₁ : (format M).next (s.mem M.root (index virt 39)) with _ | t₁
  · rfl
  · rcases h₂ : (format M).next (s.mem t₁ (index virt 30)) with _ | t₂
    · simp only [h₂, Option.bind_some, Option.bind_none, Option.map_none]
    · rcases h₃ : (format M).next (s.mem t₂ (index virt 21)) with _ | t₃
      · simp only [h₂, h₃, Option.bind_some, Option.bind_none, Option.map_none]
      · simp only [h₂, h₃, Option.bind_some, Option.map_some]

theorem leafEntry_eq (virt : UInt64) :
    leafEntry M s virt = Radix.entry (format M) s.mem M.root (path virt) (slot virt) := by
  rw [leafEntry, walk_false, Option.map_map]
  rfl

/-- With `create` set a level always has its table. -/
theorem walkLevel_true (M : Machine F) (s : State F) (t : F) (i : Fin 512) :
    ∃ s' t', walkLevel M s t i true = (s', some t') ∧ s.used ≤ s'.used := by
  by_cases hp : s.mem t i &&& PTE_PRESENT = 0
  · simp [walkLevel, hp]
  · simp [walkLevel, hp]

theorem walkLevel_true_eq (h : FreshPages M s₀ N) {t t' : F} {i : Fin 512} {s' : State F}
    (hlevel : walkLevel M s t i true = (s', some t')) (hlim : s'.used ≤ N) :
    (supply h).lookupOrCreate s t i = (s', t') := by
  by_cases hp : s.mem t i &&& PTE_PRESENT = 0
  · -- created in this step
    have hnext : (format M).next (s.mem t i) = none := by simp [Radix.Format.next, format, hp]
    simp only [walkLevel, hp, beq_self_eq_true, if_true, Prod.mk.injEq, Option.some.injEq] at hlevel
    rcases hlevel with ⟨rfl, rfl⟩
    have hn : s.used < N := hlim
    simp only [Radix.Supply.lookupOrCreate, hnext, Prod.mk.injEq]
    constructor
    · simp only [Radix.Supply.create, Radix.clear, supply, format, UInt64.or_assoc]
    · -- the new table is read back through the entry just written
      rw [Radix.write_self, UInt64.or_assoc, UInt64.or_assoc, ← UInt64.or_assoc PTE_PRESENT]
      exact ((supply h).target_link s.used hn).symm
  · have hnext : (format M).next (s.mem t i) =
        some (M.view (physToVirt (s.mem t i &&& PAGE_MASK))) := by
      simp [Radix.Format.next, format, hp]
    simp only [walkLevel, beq_iff_eq, hp, if_false, Prod.mk.injEq, Option.some.injEq] at hlevel
    rcases hlevel with ⟨rfl, rfl⟩
    simp only [Radix.Supply.lookupOrCreate, hnext]

/-- `walk(virt, true)` never fails. -/
theorem walk_true (M : Machine F) (s₀ s : State F) (N : Nat) (virt : UInt64) :
    ∃ s' t, walk M s virt true = (s', some (t, slot virt)) ∧ s.used ≤ s'.used ∧
      ∀ h : FreshPages M s₀ N, s'.used ≤ N →
        (supply h).descend s M.root (path virt) = (s', t) := by
  rcases walkLevel_true M s M.root (index virt 39) with ⟨s₁, t₁, h₁, hle₁⟩
  rcases walkLevel_true M s₁ t₁ (index virt 30) with ⟨s₂, t₂, h₂, hle₂⟩
  rcases walkLevel_true M s₂ t₂ (index virt 21) with ⟨s₃, t₃, h₃, hle₃⟩
  refine ⟨s₃, t₃, ?_, Nat.le_trans hle₁ (Nat.le_trans hle₂ hle₃), ?_⟩
  · simp only [walk, h₁, h₂, h₃, slot]
  · -- the limit at the end bounds all three levels
    intro h hlim
    have e₁ := walkLevel_true_eq h h₁ (Nat.le_trans hle₂ (Nat.le_trans hle₃ hlim))
    have e₂ := walkLevel_true_eq h h₂ (Nat.le_trans hle₃ hlim)
    have e₃ := walkLevel_true_eq h h₃ hlim
    simp only [path, Radix.Supply.descend, e₁, e₂, e₃]

/-- As long as `aligned_alloc` has pages, a level with `create` set looks its table up
or creates it. -/
theorem walkLevel_lookup (h : FreshPages M s₀ N) {t : F} {i : Fin 512}
    (hlim : ((supply h).lookupOrCreate s t i).1.used ≤ N) :
    walkLevel M s t i true =
      (((supply h).lookupOrCreate s t i).1, some ((supply h).lookupOrCreate s t i).2) := by
  rcases walkLevel_true M s t i with ⟨s', t', hlevel, -⟩
  have hused : s'.used = ((supply h).lookupOrCreate s t i).1.used := by
    rw [← congrArg (fun r => r.1.used) hlevel]
    by_cases hp : s.mem t i &&& PTE_PRESENT = 0
    · simp [walkLevel, Radix.Supply.lookupOrCreate, Radix.Format.next, format, hp,
        Radix.Supply.create]
    · simp [walkLevel, Radix.Supply.lookupOrCreate, Radix.Format.next, format, hp]
  rw [hlevel, walkLevel_true_eq h hlevel (Nat.le_trans (Nat.le_of_eq hused) hlim)]

theorem walk_descend (h : FreshPages M s₀ N) {virt : UInt64}
    (hlim : ((supply h).descend s M.root (path virt)).1.used ≤ N) :
    walk M s virt true = (((supply h).descend s M.root (path virt)).1,
      some (((supply h).descend s M.root (path virt)).2, slot virt)) := by
  have hle {s' : State F} {t : F} (q : List (Fin 512))
      (h' : ((supply h).descend s' t q).1.used ≤ N) : s'.used ≤ N :=
    Nat.le_trans (Radix.used_descend_le t q) h'
  simp only [path, Radix.Supply.descend] at hlim ⊢
  simp only [walk]
  rw [walkLevel_lookup h (hle [index virt 30, index virt 21] hlim)]
  dsimp only
  rw [walkLevel_lookup h (hle [index virt 21] hlim)]
  dsimp only
  rw [walkLevel_lookup h hlim]
  rfl

/-! ## Mapping and unmapping a page -/

/-- `paging_map_page` always returns, and stores one leaf. -/
theorem pagingMapPage_eq (M : Machine F) (s₀ s : State F) (N : Nat) (virt phys flags : UInt64) :
    ∃ s', pagingMapPage M s virt phys flags = some s' ∧ s.used ≤ s'.used ∧
      ∀ h : FreshPages M s₀ N, s'.used ≤ N →
        s' = (supply h).store s M.root (path virt) (slot virt) (pteOf phys flags) := by
  rcases walk_true M s₀ s N virt with ⟨s', t, hwalk, hle, hdescend⟩
  refine ⟨{ s' with mem := Radix.write s'.mem t (slot virt) (pteOf phys flags) }, ?_, hle, ?_⟩
  · simp only [pagingMapPage, hwalk]
  · intro h hlim
    simp only [Radix.Supply.store, hdescend h hlim]

theorem pagingMapPage_store (h : FreshPages M s₀ N) {virt phys flags : UInt64}
    (hlim : ((supply h).store s M.root (path virt) (slot virt) (pteOf phys flags)).used ≤ N) :
    pagingMapPage M s virt phys flags =
      some ((supply h).store s M.root (path virt) (slot virt) (pteOf phys flags)) := by
  rw [pagingMapPage, walk_descend h hlim]
  rfl

theorem pagingUnmapPage_eq (virt : UInt64) :
    pagingUnmapPage M s virt =
      { s with mem := Radix.erase (format M) s.mem M.root (path virt) (slot virt) } := by
  rw [pagingUnmapPage, walk_false, Radix.erase]
  rcases Radix.walk (format M) s.mem M.root (path virt) with _ | t
  · rfl
  · by_cases hp : s.mem t (slot virt) &&& PTE_PRESENT = 0
    · simp [format, hp]
    · simp [format, hp]

end Walk

/-! ## Calls as lists of page operations -/

section Calls

variable {F : Type*} [DecidableEq F] (M : Machine F)

/-- One page operation. -/
def pageStep (s : State F) : PageOp → Option (State F)
  | .map virt phys flags => pagingMapPage M s virt phys flags
  | .unmap virt => some (pagingUnmapPage M s virt)

/-- A region loop whose offset does not wrap visits the pages in order. -/
theorem offsetLoop_eq {σ : Type*} {size : UInt64} (hsize : size.toNat ≤ 2 ^ 64 - 4096)
    (body : UInt64 → σ → Option σ) (fuel j : Nat) (s : σ) (hj : j ≤ regionPages size)
    (hfuel : regionPages size < j + fuel) :
    offsetLoop size body fuel (UInt64.ofNat j * PAGE_SIZE) s =
      (List.range' j (regionPages size - j)).foldlM
        (fun s i => body (UInt64.ofNat i * PAGE_SIZE) s) s := by
  induction fuel generalizing j s with
  | zero => omega
  | succ fuel ih =>
      have hPS : PAGE_SIZE.toNat = 4096 := rfl
      have hoffset : (UInt64.ofNat j * PAGE_SIZE).toNat = j * 4096 := by
        rw [UInt64.toNat_mul, UInt64.toNat_ofNat', hPS]
        unfold regionPages at hj
        omega
      have hlt : UInt64.ofNat j * PAGE_SIZE < size ↔ j < regionPages size := by
        rw [UInt64.lt_iff_toNat_lt, hoffset]
        unfold regionPages
        omega
      have hnext : UInt64.ofNat j * PAGE_SIZE + PAGE_SIZE = UInt64.ofNat (j + 1) * PAGE_SIZE := by
        rw [UInt64.ofNat_add, UInt64.add_mul]
        rfl
      rw [offsetLoop]
      by_cases hend : j < regionPages size
      · -- one turn is the first page of the range
        obtain ⟨k, hk⟩ : ∃ k, regionPages size - j = k + 1 := ⟨regionPages size - j - 1, by omega⟩
        have hk' : regionPages size - (j + 1) = k := by omega
        rw [if_pos (hlt.mpr hend), hk, List.range'_succ, List.foldlM_cons, hnext]
        apply Option.bind_congr
        intro s' _
        rw [ih (j + 1) s' hend (by omega), hk']
      · rw [if_neg (fun h => hend (hlt.mp h))]
        have hzero : regionPages size - j = 0 := by omega
        rw [hzero]
        rfl

theorem regionLoop_eq {σ : Type*} {size : UInt64} (hsize : size.toNat ≤ 2 ^ 64 - 4096)
    (body : UInt64 → σ → Option σ) (s : σ) :
    offsetLoop size body offsetFuel 0 s =
      (List.range (regionPages size)).foldlM (fun s i => body (UInt64.ofNat i * PAGE_SIZE) s) s := by
  have hpages : regionPages size < 0 + offsetFuel := by
    unfold regionPages offsetFuel
    omega
  have hzero : (0 : UInt64) = UInt64.ofNat 0 * PAGE_SIZE := rfl
  rw [hzero, offsetLoop_eq hsize body offsetFuel 0 s (Nat.zero_le _) hpages, List.range_eq_range']
  rfl

/-- A region that stays below bit 47 is too small for its offset to wrap: `2^47`
bytes on, bit 47 is set. -/
theorem size_le_of_lowerHalf {virt size : UInt64}
    (h : ∀ i < regionPages size, LowerHalf (virt + UInt64.ofNat i * PAGE_SIZE)) :
    size.toNat ≤ 2 ^ 64 - 4096 := by
  by_contra hbig
  have hpages : 2 ^ 35 < regionPages size := by
    unfold regionPages
    omega
  -- the first page and the one `2^35` pages on differ in bit 47
  have h₀ := h 0 (by omega)
  have h₁ := h (2 ^ 35) hpages
  have hPS : PAGE_SIZE.toNat = 4096 := rfl
  unfold LowerHalf at h₀ h₁
  rw [UInt64.toNat_add, UInt64.toNat_mul, UInt64.toNat_ofNat', hPS] at h₀ h₁
  have hvirt := virt.toNat_lt
  omega

theorem step_eq {c : Call} (h : c.LowerHalf) (s : State F) :
    step M s c = c.pageOps.foldlM (pageStep M) s := by
  cases c with
  | mapPage virt phys flags => simp [step, Call.pageOps, pageStep]
  | unmapPage virt => simp [step, Call.pageOps, pageStep]
  | mapRegion virt phys size flags =>
      have hsize : size.toNat ≤ 2 ^ 64 - 4096 := size_le_of_lowerHalf fun i hi =>
        h _ (List.mem_map_of_mem (List.mem_range.mpr hi))
      rw [step, pagingMapRegion, regionLoop_eq hsize, Call.pageOps, List.foldlM_map]
      rfl
  | unmapRegion virt size =>
      have hsize : size.toNat ≤ 2 ^ 64 - 4096 := size_le_of_lowerHalf fun i hi =>
        h _ (List.mem_map_of_mem (List.mem_range.mpr hi))
      rw [step, pagingUnmapRegion, regionLoop_eq hsize, Call.pageOps, List.foldlM_map]
      rfl

end Calls

/-! ## The last operation on a page -/

theorem lastOp_snoc (ops : List PageOp) (op : PageOp) (page : Nat) :
    lastOp (ops ++ [op]) page =
      if FourLevel.page op.virt = page then some op else lastOp ops page := by
  rw [lastOp, List.reverse_append, List.reverse_singleton, List.singleton_append, List.find?_cons]
  by_cases h : FourLevel.page op.virt = page
  · simp [h]
  · simp [h, lastOp]

theorem afterOps_snoc_self {ops : List PageOp} {op : PageOp} {page : Nat} {before : Option UInt64}
    (h : FourLevel.page op.virt = page) : afterOps (ops ++ [op]) page before = op.result := by
  simp only [afterOps, lastOp_snoc, if_pos h]

theorem afterOps_snoc_of_ne {ops : List PageOp} {op : PageOp} {page : Nat} {before : Option UInt64}
    (h : FourLevel.page op.virt ≠ page) :
    afterOps (ops ++ [op]) page before = afterOps ops page before := by
  simp only [afterOps, lastOp_snoc, if_neg h]

/-! ## The invariant -/

section Invariant

variable {F : Type*} [DecidableEq F] {M : Machine F} {s₀ s s' : State F} {N : Nat}

/-- The present leaf for `virt`. -/
def presentLeaf (M : Machine F) (s : State F) (virt : UInt64) : Option UInt64 :=
  (leafEntry M s virt).filter fun e => e &&& PTE_PRESENT != 0

theorem presentLeaf_eq (virt : UInt64) :
    presentLeaf M s virt = Radix.leaf (format M) s.mem M.root (path virt) (slot virt) := by
  rw [presentLeaf, leafEntry_eq]
  rfl

/-- The tables are well formed and hold what the operations left. -/
structure Holds (h : FreshPages M s₀ N) (ops : List PageOp) (s : State F) : Prop where
  tables : Radix.WellFormed (supply h) 3 LowerSlot M.root s
  leaves : ∀ virt, LowerHalf virt →
    presentLeaf M s virt = afterOps ops (page virt) (presentLeaf M s₀ virt)

theorem Holds.init (h : FreshPages M s₀ N) (htree : LowerTree M s₀) : Holds h [] s₀ where
  tables := ⟨htree, fun n q hn hn' hq => h.unused n hn' hn q hq⟩
  leaves := fun _ _ => rfl

/-- A map is a store of its leaf. -/
theorem pageStep_map (h : FreshPages M s₀ N) {virt phys flags : UInt64}
    (hstep : pageStep M s (.map virt phys flags) = some s') (hlim : s'.used ≤ N) :
    s' = (supply h).store s M.root (path virt) (slot virt) (pteOf phys flags) := by
  rcases pagingMapPage_eq M s₀ s N virt phys flags with ⟨s'', hmap, -, hstore⟩
  have hs' : s' = s'' := Option.some.inj (hstep.symm.trans hmap)
  rw [← hs'] at hstore
  exact hstore h hlim

/-- What one page operation does to the tables and to every leaf. -/
theorem pageStep_spec (h : FreshPages M s₀ N) {op : PageOp} (hop : LowerHalf op.virt)
    (hwf : Radix.WellFormed (supply h) 3 LowerSlot M.root s) (hstep : pageStep M s op = some s')
    (hlim : s'.used ≤ N) :
    Radix.WellFormed (supply h) 3 LowerSlot M.root s' ∧
    presentLeaf M s' op.virt = op.result ∧
    ∀ virt, LowerHalf virt → page virt ≠ page op.virt →
      presentLeaf M s' virt = presentLeaf M s virt ∧
      ∀ e, leafEntry M s virt = some e → leafEntry M s' virt = some e := by
  have hidx {virt : UInt64} (hne : page virt ≠ page op.virt) :
      ¬ (path virt = path op.virt ∧ slot virt = slot op.virt) := by
    rw [indices_eq_iff]
    exact hne
  cases op with
  | map virt phys flags =>
      have hvirt : LowerHalf virt := hop
      have hs' := pageStep_map h hstep hlim
      rw [hs'] at hlim ⊢
      obtain ⟨hwf', hself, hentry, hleaf⟩ :=
        Radix.store_spec hwf (slot virt) (pteOf phys flags) (path_ok hvirt) rfl hlim
      refine ⟨hwf', ?_, ?_⟩
      · have hpresent : (format M).present (pteOf phys flags) = true := by
          simpa [format] using pteOf_present phys flags
        show presentLeaf M _ virt = some (pteOf phys flags)
        rw [presentLeaf_eq, Radix.leaf, hself, Option.filter_some, hpresent]
        rfl
      · -- tables may be created for `virt`, but they are empty
        intro w hw hne
        rw [presentLeaf_eq, presentLeaf_eq]
        refine ⟨hleaf _ _ (path_ok hw) rfl (hidx hne), ?_⟩
        intro e he
        rw [leafEntry_eq] at he ⊢
        exact hentry _ _ e (path_ok hw) rfl (hidx hne) he
  | unmap virt =>
      have hvirt : LowerHalf virt := hop
      have hs' : pagingUnmapPage M s virt = s' := Option.some.inj hstep
      rw [← hs', pagingUnmapPage_eq]
      rcases Radix.erase_spec hwf (slot virt) (path_ok hvirt) rfl with ⟨hwf', hself, hother⟩
      refine ⟨hwf', ?_, ?_⟩
      · show presentLeaf M _ virt = none
        rw [presentLeaf_eq]
        exact hself
      · intro w hw hne
        have hsame := hother _ (slot w) (path_ok hw) (hidx hne)
        constructor
        · rw [presentLeaf_eq, presentLeaf_eq]
          exact congrArg (Option.filter (format M).present) hsame
        · intro e he
          rw [leafEntry_eq] at he ⊢
          exact hsame.trans he

theorem pageStep_tables (h : FreshPages M s₀ N) {op : PageOp} (hop : LowerHalf op.virt)
    (hwf : Radix.WellFormed (supply h) 3 LowerSlot M.root s) (hstep : pageStep M s op = some s')
    (hlim : s'.used ≤ N) {q : List (Fin 512)} {t : F} (hq : Radix.Path 3 LowerSlot q)
    (ht : tableAt M s' q = some t) :
    tableAt M s q = some t ∨ ∃ n < N, t = M.view (M.alignedAlloc n) := by
  cases op with
  | map virt phys flags =>
      have hs' := pageStep_map h hstep hlim
      rw [hs'] at hlim ht
      exact Radix.tables_store hwf (path_ok hop) rfl hlim hq ht
  | unmap virt =>
      have hs' : pagingUnmapPage M s virt = s' := Option.some.inj hstep
      rw [← hs', pagingUnmapPage_eq] at ht
      exact Or.inl ((Radix.walk_erase hwf (slot virt) (path_ok hop) rfl hq).symm.trans ht)

theorem Holds.pageStep {h : FreshPages M s₀ N} {ops : List PageOp} (hs : Holds h ops s)
    {op : PageOp} (hop : LowerHalf op.virt) (hstep : pageStep M s op = some s')
    (hlim : s'.used ≤ N) : Holds h (ops ++ [op]) s' := by
  rcases pageStep_spec h hop hs.tables hstep hlim with ⟨hwf, hself, hother⟩
  refine ⟨hwf, ?_⟩
  intro virt hvirt
  by_cases hpage : page virt = page op.virt
  · -- the same indices, so the same leaf
    have hidx := (indices_eq_iff virt op.virt).mpr hpage
    rw [afterOps_snoc_self hpage.symm, ← hself, presentLeaf_eq, presentLeaf_eq, hidx.1, hidx.2]
  · rw [afterOps_snoc_of_ne (Ne.symm hpage), (hother virt hvirt hpage).1, hs.leaves virt hvirt]

/-! ## Runs -/

theorem pageStep_some (M : Machine F) (s : State F) (op : PageOp) :
    ∃ s', Paging.pageStep M s op = some s' ∧ s.used ≤ s'.used := by
  cases op with
  | map virt phys flags =>
      rcases pagingMapPage_eq M s s 0 virt phys flags with ⟨s', hmap, hle, -⟩
      exact ⟨s', hmap, hle⟩
  | unmap virt =>
      have hused : (pagingUnmapPage M s virt).used = s.used := by rw [pagingUnmapPage_eq]
      exact ⟨_, rfl, Nat.le_of_eq hused.symm⟩

theorem pageSteps_some (M : Machine F) (s : State F) (ops : List PageOp) :
    ∃ s', ops.foldlM (Paging.pageStep M) s = some s' ∧ s.used ≤ s'.used := by
  induction ops generalizing s with
  | nil => exact ⟨s, rfl, Nat.le_refl _⟩
  | cons op ops ih =>
      rcases pageStep_some M s op with ⟨s₁, hstep, hle⟩
      rcases ih s₁ with ⟨s₂, hsteps, hle'⟩
      refine ⟨s₂, ?_, Nat.le_trans hle hle'⟩
      rw [List.foldlM_cons, hstep]
      exact hsteps

theorem used_pageSteps_le {ops : List PageOp} (hsteps : ops.foldlM (Paging.pageStep M) s = some s') :
    s.used ≤ s'.used := by
  rcases pageSteps_some M s ops with ⟨s'', hsteps', hle⟩
  rw [hsteps] at hsteps'
  rw [Option.some.inj hsteps']
  exact hle

/-- Page operations keep the invariant, and leaves of other pages stay. -/
theorem Holds.pageSteps {h : FreshPages M s₀ N} {ops ops' : List PageOp} (hs : Holds h ops s)
    (hlower : ∀ op ∈ ops', LowerHalf op.virt)
    (hsteps : ops'.foldlM (Paging.pageStep M) s = some s') (hlim : s'.used ≤ N) :
    Holds h (ops ++ ops') s' ∧
    ∀ virt, LowerHalf virt → (∀ op ∈ ops', page virt ≠ page op.virt) →
      presentLeaf M s' virt = presentLeaf M s virt ∧
      ∀ e, leafEntry M s virt = some e → leafEntry M s' virt = some e := by
  induction ops' generalizing ops s with
  | nil =>
      have hs' : s = s' := Option.some.inj hsteps
      rw [List.append_nil, ← hs']
      exact ⟨hs, fun _ _ _ => ⟨rfl, fun _ he => he⟩⟩
  | cons op ops' ih =>
      rcases pageStep_some M s op with ⟨s₁, hstep, -⟩
      rw [List.foldlM_cons, hstep] at hsteps
      have hlim₁ : s₁.used ≤ N := Nat.le_trans (used_pageSteps_le hsteps) hlim
      have hop := hlower op List.mem_cons_self
      rcases pageStep_spec h hop hs.tables hstep hlim₁ with ⟨-, -, hframe⟩
      obtain ⟨hholds, hframe'⟩ := ih (hs.pageStep hop hstep hlim₁)
        (fun o ho => hlower o (List.mem_cons_of_mem op ho)) hsteps
      rw [List.append_cons]
      refine ⟨hholds, ?_⟩
      intro virt hvirt hnot
      rcases hframe virt hvirt (hnot op List.mem_cons_self) with ⟨hleaf, hentry⟩
      obtain ⟨hleaf', hentry'⟩ := hframe' virt hvirt fun o ho => hnot o (List.mem_cons_of_mem op ho)
      exact ⟨hleaf'.trans hleaf, fun e he => hentry' e (hentry e he)⟩

theorem pageSteps_tables (h : FreshPages M s₀ N)
    (hwf : Radix.WellFormed (supply h) 3 LowerSlot M.root s) {ops : List PageOp}
    (hlower : ∀ op ∈ ops, LowerHalf op.virt)
    (hsteps : ops.foldlM (Paging.pageStep M) s = some s') (hlim : s'.used ≤ N)
    {q : List (Fin 512)} {t : F} (hq : Radix.Path 3 LowerSlot q) (ht : tableAt M s' q = some t) :
    tableAt M s q = some t ∨ ∃ n < N, t = M.view (M.alignedAlloc n) := by
  induction ops generalizing s with
  | nil =>
      have hs' : s = s' := Option.some.inj hsteps
      rw [hs']
      exact Or.inl ht
  | cons op ops ih =>
      rcases pageStep_some M s op with ⟨s₁, hstep, -⟩
      rw [List.foldlM_cons, hstep] at hsteps
      have hlim₁ : s₁.used ≤ N := Nat.le_trans (used_pageSteps_le hsteps) hlim
      have hop := hlower op List.mem_cons_self
      rcases pageStep_spec h hop hwf hstep hlim₁ with ⟨hwf₁, -, -⟩
      rcases ih hwf₁ (fun o ho => hlower o (List.mem_cons_of_mem op ho)) hsteps with hold | hpage
      · exact pageStep_tables h hop hwf hstep hlim₁ hq hold
      · exact Or.inr hpage

/-- Page operations from a good state: the tables stay good, and every leaf is
what the operations leave there. -/
theorem pageSteps_good (h : FreshPages M s N) (htree : LowerTree M s) {ops : List PageOp}
    (hlower : ∀ op ∈ ops, LowerHalf op.virt)
    (hsteps : ops.foldlM (Paging.pageStep M) s = some s') (hlim : s'.used ≤ N) :
    LowerTree M s' ∧ FreshPages M s' N ∧
    ∀ virt, LowerHalf virt →
      presentLeaf M s' virt = afterOps ops (page virt) (presentLeaf M s virt) := by
  have hholds := ((Holds.init h htree).pageSteps hlower hsteps hlim).1
  refine ⟨hholds.tables.tree, ?_, hholds.leaves⟩
  exact { h with unused := fun n hn hn' q hq => hholds.tables.fresh n q hn' hn hq }

end Invariant

def smallMachine : Machine UInt64 where
  view a := if a ≥ KERNEL_VMA_BASE then a - KERNEL_VMA_BASE else a
  alignedAlloc n := UInt64.ofNat ((n + 2) * 4096)
  kernelPml4Phys := 0x1000

/-- All tables empty, nothing allocated. -/
def emptyState : State UInt64 := ⟨fun _ _ => 0, 0⟩

/-- Mapping two pages and unmapping the first. -/
def twoPages : List Call := [.mapRegion 0x400000 0x9000 0x2000 PTE_USER, .unmapPage 0x400000]

/-- A tree of four tables with one leaf, for the page at `0x2000`. -/
def bootState : State UInt64 where
  mem f i :=
    if f = 0x1000 ∧ i = 0 then 0x2007
    else if f = 0x2000 ∧ i = 0 then 0x3007
    else if f = 0x3000 ∧ i = 0 then 0x4007
    else if f = 0x4000 ∧ i = 2 then 0x9105
    else 0
  used := 3

end OmniOS.Paging
