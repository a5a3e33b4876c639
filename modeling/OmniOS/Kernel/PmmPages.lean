import Mathlib.Data.List.Nodup
import Mathlib.Data.List.Pairwise
import Mathlib.Data.Nat.Log
import OmniOS.Lib.Words
import OmniOS.Kernel.PmmInit
import OmniOS.Kernel.PmmInv

/-!
# OmniOS.Kernel.PmmPages — which pages are free, and which are handed out

1. **Regions.** The addresses `pmm_init` frees are a list, computed from the map (`Region.taken`),
   and `pmm_init` is a fold over it. A region that begins below 16 MiB is left out as a whole.
2. **After `pmm_init`.** For a map of disjoint regions the free lists hold the pages of that list,
   each of them once.
3. **Orders.** Every page is freed with order 0 and blocks are never merged, so the lists above
   order 0 stay empty and an allocation of two pages or more always fails.
-/

namespace OmniOS.Pmm

open Memory

/-! ## Regions -/

theorem page_mask_bits :
    ∀ i < 64, (~~~(4096 - 1 : UInt64)).toNat.testBit i = decide (12 ≤ i) := by decide

namespace Region

variable (r : Region)

/-- The addresses the loop of `pmm_init` goes through: none for a region that is skipped. -/
def taken : List Nat :=
  if r.type = PMM_REGION_USABLE ∧ ¬ r.alignedBase < 0x1000000 then
    (List.range (((r.alignedBase + r.alignedLength).toNat - r.alignedBase.toNat) / 4096)).map
      fun i => r.alignedBase.toNat + 4096 * i
  else []

theorem alignedBase_of_le (h : r.base.toNat + 4096 ≤ 2 ^ 64) :
    r.alignedBase.toNat = (r.base.toNat + 4095) / 4096 * 4096 :=
  Words.toNat_round_up (k := 12) page_mask_bits rfl h

/-- In the last page of the address space there is no multiple of 4096 to round up to. -/
theorem alignedBase_of_gt (h : 2 ^ 64 < r.base.toNat + 4096) : r.alignedBase.toNat = 0 :=
  Words.toNat_round_up_wrap (k := 12) page_mask_bits rfl h

theorem alignedBase_dvd : 4096 ∣ r.alignedBase.toNat := by
  rw [alignedBase, Words.toNat_and_mask (k := 12) page_mask_bits]
  exact Nat.dvd_mul_left _ _

theorem alignedLength_eq :
    r.alignedLength.toNat = (r.length - (r.alignedBase - r.base)).toNat / 4096 * 4096 :=
  Words.toNat_and_mask (k := 12) page_mask_bits _

/-- The end of the range is a multiple of 4096 too. -/
theorem stop_dvd : 4096 ∣ (r.alignedBase + r.alignedLength).toNat := by
  obtain ⟨b, hb⟩ := r.alignedBase_dvd
  have hl := r.alignedLength_eq
  rw [UInt64.toNat_add]
  omega

theorem skipped_iff (h : r.base.toNat + 4096 ≤ 2 ^ 64) :
    r.alignedBase < 0x1000000 ↔ r.base.toNat ≤ 0xFFF000 := by
  have hlow : (0x1000000 : UInt64).toNat = 0x1000000 := rfl
  rw [UInt64.lt_iff_toNat_lt, hlow, r.alignedBase_of_le h]
  omega

/-- Where the range ends. In a region shorter than the slack the length wraps, and so does the
sum: the end comes before the beginning. -/
theorem stop_eq (h : r.base.toNat + 4096 ≤ 2 ^ 64)
    (hfits : r.base.toNat + r.length.toNat < 2 ^ 64) (hbase : 0xFFF000 < r.base.toNat) :
    (r.alignedBase + r.alignedLength).toNat =
        (r.base.toNat + r.length.toNat) / 4096 * 4096 := by
  have hal := r.alignedBase_of_le h
  have hlen := r.alignedLength_eq
  have hslack : (r.alignedBase - r.base).toNat = r.alignedBase.toNat - r.base.toNat := by
    refine UInt64.toNat_sub_of_le _ _ ?_
    rw [UInt64.le_iff_toNat_le]
    omega
  rw [UInt64.toNat_sub, hslack] at hlen
  rw [UInt64.toNat_add, hlen]
  omega

theorem mem_taken {a : Nat} (hfits : r.base.toNat + r.length.toNat < 2 ^ 64) :
    a ∈ r.taken ↔ r.type = PMM_REGION_USABLE ∧ 0xFFF000 < r.base.toNat ∧ 4096 ∣ a ∧
      r.base.toNat ≤ a ∧ a + 4096 ≤ r.base.toNat + r.length.toNat := by
  unfold taken
  by_cases hwrap : r.base.toNat + 4096 ≤ 2 ^ 64
  · by_cases hlow : r.base.toNat ≤ 0xFFF000
    · -- skipped as a whole
      rw [if_neg fun hif => hif.2 ((r.skipped_iff hwrap).mpr hlow)]
      simp only [List.not_mem_nil, false_iff]
      omega
    · by_cases htype : r.type = PMM_REGION_USABLE
      · rw [if_pos ⟨htype, fun hlt => hlow ((r.skipped_iff hwrap).mp hlt)⟩,
          r.stop_eq hwrap hfits (by omega), r.alignedBase_of_le hwrap, List.mem_map]
        simp only [List.mem_range, htype, true_and]
        constructor
        · rintro ⟨i, hi, rfl⟩
          omega
        · rintro ⟨-, ⟨q, rfl⟩, hlo, hhi⟩
          exact ⟨q - (r.base.toNat + 4095) / 4096, by omega, by omega⟩
      · rw [if_neg fun hif => htype hif.1]
        simp only [List.not_mem_nil, false_iff]
        exact fun hmem => htype hmem.1
  · -- no page lies between the base and the end of the address space
    have hzero : r.alignedBase < 0x1000000 := by
      rw [UInt64.lt_iff_toNat_lt, r.alignedBase_of_gt (by omega)]
      decide
    rw [if_neg fun hif => hif.2 hzero]
    simp only [List.not_mem_nil, false_iff]
    omega

theorem taken_nodup : r.taken.Nodup := by
  unfold taken
  split
  · refine List.Nodup.map (fun i j hij => ?_) List.nodup_range
    omega
  · exact List.nodup_nil

/-- Whatever the region, the addresses are page addresses and none is NULL. -/
theorem taken_good {a : Nat} (h : a ∈ r.taken) : Block.Good ⟨0, a⟩ := by
  have hP := PAGE_SIZE_eq
  unfold taken at h
  split at h
  · next hif =>
      obtain ⟨i, hi, rfl⟩ := List.mem_map.mp h
      have hlow := hif.2
      have hbound : (0x1000000 : UInt64).toNat = 0x1000000 := rfl
      rw [UInt64.lt_iff_toNat_lt, hbound] at hlow
      rw [List.mem_range] at hi
      obtain ⟨b, hb⟩ := r.alignedBase_dvd
      have hlt := (r.alignedBase + r.alignedLength).toNat_lt
      refine ⟨?_, Nat.zero_le _, ?_, ?_⟩
      · dsimp only
        omega
      · rw [hP]
        dsimp only
        omega
      · dsimp only
        omega
  · cases h

end Region

theorem taken_good (regions : List Region) :
    ∀ a ∈ regions.flatMap Region.taken, Block.Good ⟨0, a⟩ := by
  intro a ha
  obtain ⟨r, -, hr⟩ := List.mem_flatMap.mp ha
  exact r.taken_good hr

/-! ## pmm_init as a fold -/

/-- `buddy_free(&zones[0], a, 0)`. -/
def put (s : State) (a : Nat) : State := (buddyFree s a 0).getD s

theorem buddyFree_zero (s : State) (a : Nat) : buddyFree s a 0 = some (put s a) := by
  rw [put, buddyFree, if_pos (Nat.zero_le _)]
  rfl

/-- The loop over the pages: the rounds that are left are the multiples of 4096 below `stop`. -/
theorem pageLoop_st {stop addr : UInt64} {fuel : Nat} (b : Boot) (hstop : 4096 ∣ stop.toNat)
    (haddr : 4096 ∣ addr.toNat) (hfuel : stop.toNat ≤ addr.toNat + 4096 * fuel) :
    (pageLoop stop fuel addr b).st =
      ((List.range ((stop.toNat - addr.toNat) / 4096)).map
        (addr.toNat + 4096 * ·)).foldl put b.st := by
  have hpage : (4096 : UInt64).toNat = 4096 := rfl
  induction fuel generalizing addr b with
  | zero =>
      have hnone : (stop.toNat - addr.toNat) / 4096 = 0 := by omega
      rw [hnone]
      rfl
  | succ fuel ih =>
      rw [pageLoop_succ]
      by_cases hlt : addr < stop
      · have hnat := UInt64.lt_iff_toNat_lt.mp hlt
        have hbound := stop.toNat_lt
        have hnext : (addr + 4096).toNat = addr.toNat + 4096 := by
          rw [UInt64.toNat_add, hpage]
          omega
        have hround : (stop.toNat - addr.toNat) / 4096 =
            (stop.toNat - (addr + 4096).toNat) / 4096 + 1 := by
          omega
        rw [if_pos hlt, ih (b.putPage addr) (by omega) (by omega), hround,
          List.range_succ_eq_map, List.map_cons, List.map_map, List.foldl_cons]
        have hshift : ((addr.toNat + 4096 * ·) ∘ Nat.succ) = ((addr + 4096).toNat + 4096 * ·) := by
          funext i
          rw [Function.comp_apply, hnext]
          omega
        rw [hshift]
        rfl
      · have hnat : stop.toNat ≤ addr.toNat := by
          rw [UInt64.lt_iff_toNat_lt] at hlt
          omega
        have hnone : (stop.toNat - addr.toNat) / 4096 = 0 := by omega
        rw [if_neg hlt, hnone]
        rfl

theorem addRegion_st (b : Boot) (r : Region) : (b.addRegion r).st = r.taken.foldl put b.st := by
  unfold Boot.addRegion Region.taken
  by_cases htype : r.type = PMM_REGION_USABLE
  · by_cases hlow : r.alignedBase < 0x1000000
    · rw [if_neg (not_not_intro htype), if_pos hlow, if_neg fun hif => hif.2 hlow]
      rfl
    · rw [if_neg (not_not_intro htype), if_neg hlow, if_pos ⟨htype, hlow⟩]
      obtain ⟨q, hq⟩ := r.stop_dvd
      exact pageLoop_st _ r.stop_dvd r.alignedBase_dvd (by omega)
  · rw [if_pos htype, if_neg fun hif => htype hif.1]
    rfl

/-- `pmm_init` frees the pages of all regions, one after the other. -/
theorem pmmInit_st (mem : Mem) (regions : List Region) :
    (pmmInit mem regions).st = (regions.flatMap Region.taken).foldl put (boot mem).st := by
  unfold pmmInit
  generalize boot mem = b
  induction regions generalizing b with
  | nil => rfl
  | cons r regions ih =>
      rw [List.foldl_cons, ih, addRegion_st, List.flatMap_cons, List.foldl_append]

/-! ## After pmm_init -/

/-- A page that is freed goes to the front of list 0. -/
theorem Owns.put {s : State} {ls : Nat → List Nat} {hs : List Block} {a : Nat}
    (h : Owns s ls (⟨0, a⟩ :: hs)) : Owns (put s a) (Function.update ls 0 (a :: ls 0)) hs := by
  have hpush := h.push
  exact ⟨hpush.lists, hpush.good, hpush.disjoint⟩

/-- Pages that are held go to list 0, one after the other. -/
theorem Owns.foldl_put {as : List Nat} {s : State} {ls : Nat → List Nat}
    (h : Owns s ls (as.map (Block.mk 0))) :
    Owns (as.foldl Pmm.put s) (Function.update ls 0 (as.reverse ++ ls 0)) [] := by
  induction as generalizing s ls with
  | nil =>
      rw [List.reverse_nil, List.nil_append, Function.update_eq_self]
      exact h
  | cons a as ih =>
      have hrest := ih (Owns.put h)
      rw [Function.update_self, Function.update_idem] at hrest
      rw [List.reverse_cons, List.append_assoc]
      exact hrest

/-- Blocks of one page at different page addresses. -/
theorem pairwiseDisjoint_pages {as : List Nat} (hnodup : as.Nodup)
    (hdvd : ∀ a ∈ as, PAGE_SIZE ∣ a) : PairwiseDisjoint (as.map (Block.mk 0)) := by
  have hP := PAGE_SIZE_eq
  refine List.pairwise_map.mpr (hnodup.imp_of_mem fun {a b} ha hb hne => ?_)
  obtain ⟨q, rfl⟩ := hdvd a ha
  obtain ⟨r, rfl⟩ := hdvd b hb
  rw [Block.pages, Block.pages, Set.Ico_disjoint_Ico]
  dsimp only
  rw [Nat.mul_div_cancel_left _ (by omega), Nat.mul_div_cancel_left _ (by omega)]
  have hqr : q ≠ r := by
    rintro rfl
    exact hne rfl
  omega

/-- A byte of the region. -/
def Region.Has (r : Region) (x : Nat) : Prop :=
  r.base.toNat ≤ x ∧ x < r.base.toNat + r.length.toNat

/-- The regions share no byte. -/
def Region.Apart (r r' : Region) : Prop := ∀ x, r.Has x → ¬ r'.Has x

instance : Std.Symm Region.Apart := ⟨fun _ _ h x hx hx' => h x hx' hx⟩

/-- Page `p` lies in the region, completely. -/
def Region.HasPage (r : Region) (p : Nat) : Prop :=
  r.base.toNat ≤ p * PAGE_SIZE ∧ (p + 1) * PAGE_SIZE ≤ r.base.toNat + r.length.toNat

/-- The pages a map offers: inside a usable region, and above the area of the kernel. -/
def usablePages (regions : List Region) : Set Nat :=
  {p | 0x1000000 ≤ p * PAGE_SIZE ∧
    ∃ r ∈ regions, r.type = PMM_REGION_USABLE ∧ r.HasPage p}

/-- A memory map: regions that end inside the address space, two of them never with
a common byte. -/
structure IsMap (regions : List Region) : Prop where
  fits : ∀ r ∈ regions, r.base.toNat + r.length.toNat < 2 ^ 64
  disjoint : regions.Pairwise Region.Apart

/-- The free lists hold the pages `ps`, each of them once. -/
structure HoldsOnce (s : State) (ps : Set Nat) (ls : Nat → List Nat) : Prop where
  lists : ∀ k ≤ PMM_MAX_ORDER, Chain.Visits (next s.mem) (s.freeLists k) (ls k)
  aligned : ∀ b ∈ freeBlocks ls, PAGE_SIZE ∣ b.addr
  once : PairwiseDisjoint (freeBlocks ls)
  pages : pagesOf (freeBlocks ls) = ps

/-- The lists are determined by memory, so the pages on them are. -/
theorem Owns.holdsOnce_iff {s : State} {ls : Nat → List Nat} {hs : List Block} (h : Owns s ls hs)
    (ps : Set Nat) : (∃ ls', HoldsOnce s ps ls') ↔ pagesOf (freeBlocks ls) = ps := by
  constructor
  · rintro ⟨ls', hls'⟩
    have hsame : freeBlocks ls = freeBlocks ls' := by
      refine List.flatMap_congr fun k hk => ?_
      have hle : k ≤ PMM_MAX_ORDER := Nat.le_of_lt_succ (List.mem_range.mp hk)
      rw [(h.lists k hle).unique (hls'.lists k hle)]
    rw [hsame]
    exact hls'.pages
  · intro hpages
    refine ⟨ls, h.lists, fun b hb => ?_, ?_, hpages⟩
    · exact (h.good b (List.mem_append_left _ hb)).aligned
    · exact (List.pairwise_append.mp h.disjoint).1

section Init

variable {regions : List Region}

/-- A page lies in one region only. -/
theorem IsMap.eq_of_page (h : IsMap regions) {r r' : Region} (hr : r ∈ regions)
    (hr' : r' ∈ regions) {p : Nat} (hp : r.HasPage p) (hp' : r'.HasPage p) : r = r' := by
  have hP := PAGE_SIZE_eq
  obtain ⟨hlo, hhi⟩ := hp
  obtain ⟨hlo', hhi'⟩ := hp'
  rw [hP] at hlo hhi hlo' hhi'
  by_contra hne
  exact h.disjoint.forall hr hr' hne (p * 4096) ⟨hlo, by omega⟩ ⟨hlo', by omega⟩

theorem IsMap.mem_taken (h : IsMap regions) {a : Nat} :
    a ∈ regions.flatMap Region.taken ↔ PAGE_SIZE ∣ a ∧ ∃ r ∈ regions,
      r.type = PMM_REGION_USABLE ∧ 0xFFF000 < r.base.toNat ∧ r.HasPage (a / PAGE_SIZE) := by
  have hP := PAGE_SIZE_eq
  rw [List.mem_flatMap]
  constructor
  · rintro ⟨r, hr, ha⟩
    obtain ⟨htype, hbase, hdvd, hlo, hhi⟩ := (r.mem_taken (h.fits r hr)).mp ha
    refine ⟨hdvd, r, hr, htype, hbase, ?_⟩
    unfold Region.HasPage
    rw [hP]
    omega
  · rintro ⟨hdvd, r, hr, htype, hbase, hpage⟩
    refine ⟨r, hr, (r.mem_taken (h.fits r hr)).mpr ⟨htype, hbase, hdvd, ?_⟩⟩
    unfold Region.HasPage at hpage
    rw [hP] at hpage hdvd
    omega

theorem IsMap.taken_nodup (h : IsMap regions) : (regions.flatMap Region.taken).Nodup := by
  refine List.nodup_flatMap.mpr ⟨fun r _ => r.taken_nodup, ?_⟩
  refine h.disjoint.imp_of_mem fun {r r'} hr hr' hapart a ha ha' => ?_
  obtain ⟨-, -, -, hlo, hhi⟩ := (r.mem_taken (h.fits r hr)).mp ha
  obtain ⟨-, -, -, hlo', hhi'⟩ := (r'.mem_taken (h.fits r' hr')).mp ha'
  exact hapart a ⟨hlo, by omega⟩ ⟨hlo', by omega⟩

/-- The lists after `pmm_init`: the pages that were taken are on list 0, the last one in front. -/
def initialLists (regions : List Region) : Nat → List Nat :=
  Function.update (fun _ => []) 0 (regions.flatMap Region.taken).reverse

theorem mem_initialLists {b : Block} : b ∈ freeBlocks (initialLists regions) ↔
    b.order = 0 ∧ b.addr ∈ regions.flatMap Region.taken := by
  rw [mem_freeBlocks, initialLists]
  by_cases hk : b.order = 0
  · rw [hk, Function.update_self, List.mem_reverse]
    simp
  · rw [Function.update_of_ne hk]
    simp [hk]

theorem pmmInit_owns (h : IsMap regions) (mem : Mem) :
    Owns (pmmInit mem regions).st (initialLists regions) [] := by
  have hgood := taken_good regions
  have hnone : freeBlocks (fun _ => []) = [] := by decide
  have hstart : Owns (boot mem).st (fun _ => [])
      ((regions.flatMap Region.taken).map (Block.mk 0)) := by
    refine ⟨fun _ _ => rfl, ?_, ?_⟩
    · rw [hnone, List.nil_append, List.forall_mem_map]
      exact hgood
    · rw [hnone, List.nil_append]
      exact pairwiseDisjoint_pages h.taken_nodup fun a ha => (hgood a ha).aligned
  have hfold := hstart.foldl_put
  rw [List.append_nil] at hfold
  rw [pmmInit_st]
  exact hfold

/-- The pages that were taken: those of the regions that do not begin below 16 MiB. -/
theorem pagesOf_initialLists (h : IsMap regions) {p : Nat} :
    p ∈ pagesOf (freeBlocks (initialLists regions)) ↔ ∃ r ∈ regions,
      r.type = PMM_REGION_USABLE ∧ 0xFFF000 < r.base.toNat ∧ r.HasPage p := by
  have hP := PAGE_SIZE_eq
  constructor
  · rintro ⟨b, hb, hpage⟩
    obtain ⟨hk, ha⟩ := mem_initialLists.mp hb
    obtain ⟨-, r, hr⟩ := h.mem_taken.mp ha
    have hp : p = b.addr / PAGE_SIZE := by
      rw [Block.pages, hk, Set.mem_Ico] at hpage
      omega
    rw [hp]
    exact ⟨r, hr⟩
  · rintro ⟨r, hr⟩
    have hdiv : p * PAGE_SIZE / PAGE_SIZE = p := Nat.mul_div_cancel _ (by omega)
    refine ⟨⟨0, p * PAGE_SIZE⟩, mem_initialLists.mpr ⟨rfl, h.mem_taken.mpr ⟨?_, r, ?_⟩⟩, ?_⟩
    · exact Nat.dvd_mul_left _ _
    · dsimp only
      rw [hdiv]
      exact hr
    · rw [Block.pages, Set.mem_Ico]
      dsimp only
      omega

/-- The usable pages are all taken unless one lies in a region that begins below 16 MiB; if one
does, the first page at 16 MiB is lost. -/
theorem taken_eq_usable_iff (h : IsMap regions) :
    pagesOf (freeBlocks (initialLists regions)) = usablePages regions ↔
      ∀ r ∈ regions, r.type = PMM_REGION_USABLE → r.base.toNat ≤ 0xFFF000 →
        r.base.toNat + r.length.toNat < 0x1001000 := by
  have hP := PAGE_SIZE_eq
  constructor
  · intro heq r hr htype hbase
    by_contra hlong
    have hpage : r.HasPage 0x1000 := by
      unfold Region.HasPage
      rw [hP]
      omega
    have husable : 0x1000 ∈ usablePages regions := ⟨by decide, r, hr, htype, hpage⟩
    rw [← heq, pagesOf_initialLists h] at husable
    obtain ⟨r', hr', -, hbase', hpage'⟩ := husable
    rw [h.eq_of_page hr hr' hpage hpage'] at hbase
    omega
  · intro hcond
    ext p
    rw [pagesOf_initialLists h]
    constructor
    · rintro ⟨r, hr, htype, hbase, hpage⟩
      refine ⟨?_, r, hr, htype, hpage⟩
      have hlo := hpage.1
      rw [hP] at hlo ⊢
      omega
    · rintro ⟨hlow, r, hr, htype, hpage⟩
      refine ⟨r, hr, htype, ?_, hpage⟩
      by_contra hbase
      have hlong := hcond r hr htype (by omega)
      have hhi := hpage.2
      rw [hP] at hhi hlow
      omega

end Init

/-- For every map: after `pmm_init` the free lists hold every usable page above 16 MiB once, and
no other, exactly if no usable region begins below 16 MiB and reaches a page above. -/
theorem pmm_init_complete_iff (mem : Mem) (regions : List Region) (h : IsMap regions) :
    (∃ ls, HoldsOnce (pmmInit mem regions).st (usablePages regions) ls) ↔
      ∀ r ∈ regions, r.type = PMM_REGION_USABLE → r.base.toNat ≤ 0xFFF000 →
        r.base.toNat + r.length.toNat < 0x1001000 :=
  ((pmmInit_owns h mem).holdsOnce_iff _).trans (taken_eq_usable_iff h)

theorem isMap_singleton {r : Region} (h : r.base.toNat + r.length.toNat < 2 ^ 64) : IsMap [r] :=
  ⟨by simpa using h, List.pairwise_singleton _ _⟩

/-- Two pages and a half at 16 MiB. -/
theorem pmm_init_complete_high :
    ∃ ls, HoldsOnce (pmmInit (fun _ => 0) [⟨0x1000000, 0x2800, 1⟩]).st
      (usablePages [⟨0x1000000, 0x2800, 1⟩]) ls := by
  refine (pmm_init_complete_iff _ _ (isMap_singleton (by decide))).mpr ?_
  decide

/-- The map of `build_early_regions`, 512 MB from 1 MiB on: it has usable pages above 16 MiB, and
`pmm_init` puts nothing on the free lists. -/
theorem pmm_init_early_empty :
    IsMap [⟨0x100000, 512 * 1024 * 1024, 1⟩] ∧
    0x1000 ∈ usablePages [⟨0x100000, 512 * 1024 * 1024, 1⟩] ∧
    (∀ mem k, (pmmInit mem [⟨0x100000, 512 * 1024 * 1024, 1⟩]).st.freeLists k = 0) ∧
    ∀ mem, ¬ ∃ ls, HoldsOnce (pmmInit mem [⟨0x100000, 512 * 1024 * 1024, 1⟩]).st
      (usablePages [⟨0x100000, 512 * 1024 * 1024, 1⟩]) ls := by
  have hmap : IsMap [⟨0x100000, 512 * 1024 * 1024, 1⟩] := isMap_singleton (by decide)
  refine ⟨hmap, ⟨by decide, _, List.mem_singleton_self _, rfl, by decide, by decide⟩, ?_, ?_⟩
  · intro mem k
    have hnone : [(⟨0x100000, 512 * 1024 * 1024, 1⟩ : Region)].flatMap Region.taken = [] := by
      decide
    rw [pmmInit_st, hnone]
    rfl
  · intro mem
    rw [(pmmInit_owns hmap mem).holdsOnce_iff, taken_eq_usable_iff hmap]
    decide

/-! ## Orders -/

/-- All lists but that of order 0 are empty, and only blocks of one page have been handed out. -/
structure Single (c : Conf) : Prop where
  lists : ∀ k, k ≠ 0 → c.st.freeLists k = 0
  live : ∀ b ∈ c.live, b.1 ≠ 0 ∧ orderOf b.2 = some 0

/-- `buddy_alloc` of one page from list 0. -/
def popPage (s : State) : State :=
  { mem := fill s.mem (2 ^ 0 * PAGE_SIZE) (s.freeLists 0) 0
    freeLists := Function.update s.freeLists 0 (next s.mem (s.freeLists 0))
    freeCount := s.freeCount - orderToPages 0
    usedMemory := s.usedMemory + orderToPages 0 * UInt64.ofNat PAGE_SIZE }

/-- With pages on list 0 only, one page is all there is to get. -/
theorem buddyAlloc_single {s : State} (h : ∀ k, k ≠ 0 → s.freeLists k = 0) (order : Nat) :
    buddyAlloc s order =
      if order = 0 ∧ s.freeLists 0 ≠ 0 then (s.freeLists 0, popPage s) else (0, s) := by
  by_cases hpage : order = 0 ∧ s.freeLists 0 ≠ 0
  · obtain ⟨rfl, hne⟩ := hpage
    have hfind : findOrder s 0 = some 0 := by
      have hrange : List.range' 0 (PMM_NUM_ORDERS - 0) = 0 :: List.range' 1 10 := by decide
      rw [findOrder, hrange, List.find?_cons_of_pos (by simpa using hne)]
    rw [if_pos ⟨rfl, hne⟩, buddyAlloc, hfind]
    rfl
  · have hfind : findOrder s order = none := by
      refine List.find?_eq_none.mpr fun k hk => ?_
      have hzero : s.freeLists k = 0 := by
        by_cases hk0 : k = 0
        · rw [List.mem_range'_1] at hk
          by_contra hne
          exact hpage ⟨by omega, hk0 ▸ hne⟩
        · exact h k hk0
      simp [hzero]
    rw [if_neg hpage, buddyAlloc, hfind]

/-- What a step can do: nothing, take the first page, give a page back, write. -/
inductive PageStep (c : Conf) : Call → Conf → Prop where
  | stay {call : Call} : PageStep c call c
  | pop {call : Call} {n : UInt64} : orderOf n = some 0 → c.st.freeLists 0 ≠ 0 →
      PageStep c call ⟨popPage c.st, (c.st.freeLists 0, n) :: c.live⟩
  | put {call : Call} {b : Nat × UInt64} : b ∈ c.live →
      PageStep c call ⟨put c.st (pageBase b.1), c.live.erase b⟩
  | write {a : Nat} {v : UInt8} :
      PageStep c (.write a v) { c with st := { c.st with mem := store c.st.mem 1 a v.toNat } }

section Orders

variable {c c' : Conf} {call : Call}

theorem Single.pageStep (h : Single c) (hnext : Next call c c') : PageStep c call c' := by
  cases call with
  | allocPage =>
      obtain ⟨p, s, hcall, rfl⟩ := hnext
      rw [pmmAllocPage, buddyAlloc_single h.lists] at hcall
      by_cases hne : c.st.freeLists 0 = 0
      · rw [if_neg fun hif => hif.2 hne] at hcall
        cases hcall
      · rw [if_pos ⟨rfl, hne⟩] at hcall
        dsimp only at hcall
        rw [if_neg hne] at hcall
        cases hcall
        exact .pop rfl hne
  | allocPages n =>
      obtain ⟨p, s, hcall, rfl⟩ := hnext
      obtain ⟨k, hk, hres⟩ := Option.map_eq_some_iff.mp hcall
      rw [buddyAlloc_single h.lists] at hres
      by_cases hif : k = 0 ∧ c.st.freeLists 0 ≠ 0
      · rw [if_pos hif] at hres
        cases hres
        rw [if_neg hif.2]
        exact .pop (hif.1 ▸ hk) hif.2
      · rw [if_neg hif] at hres
        cases hres
        rw [if_pos rfl]
        exact .stay
  | freePage p =>
      obtain ⟨hp, s, hcall, rfl⟩ := hnext
      rw [pmmFreePage, if_neg (h.live _ hp).1, buddyFree_zero, Option.some.injEq] at hcall
      rw [← hcall]
      exact .put (b := (p, 1)) hp
  | freePages p n =>
      obtain ⟨hp, s, hcall, rfl⟩ := hnext
      have hlive := h.live _ hp
      rw [pmmFreePages, if_neg hlive.1, hlive.2, Option.bind_some, buddyFree_zero,
        Option.some.injEq] at hcall
      rw [← hcall]
      exact .put (b := (p, n)) hp
  | write a v =>
      obtain ⟨-, rfl⟩ := hnext
      exact .write

theorem Single.step (h : Single c) (hstep : PageStep c call c') : Single c' := by
  cases hstep with
  | stay => exact h
  | pop hn hne =>
      refine ⟨fun k hk => ?_, List.forall_mem_cons.mpr ⟨⟨hne, hn⟩, h.live⟩⟩
      exact (Function.update_of_ne hk _ _).trans (h.lists k hk)
  | put hb =>
      refine ⟨fun k hk => ?_, fun b hmem => h.live b (List.mem_of_mem_erase hmem)⟩
      exact (Function.update_of_ne hk _ _).trans (h.lists k hk)
  | write => exact ⟨h.lists, h.live⟩

theorem single_init (mem : Mem) (regions : List Region) :
    Single ⟨(pmmInit mem regions).st, []⟩ := by
  refine ⟨?_, List.forall_mem_nil _⟩
  refine pmmInit_induction (P := fun b => ∀ k, k ≠ 0 → b.st.freeLists k = 0) ?_ ?_ mem regions ?_
  · intro b addr hb k hk
    exact (Function.update_of_ne hk _ _).trans (hb k hk)
  · exact fun b n hb => hb
  · exact fun k _ => rfl

theorem single_of_reachable {mem : Mem} {regions : List Region}
    (hreach : Lts.Reachable (system (pmmInit mem regions).st) c) : Single c := by
  refine hreach.invariant (I := Single) ?_ ?_
  · rintro c rfl
    exact single_init mem regions
  · intro call c c' h hnext
    exact h.step (h.pageStep hnext)

end Orders

/-- The pages on the free lists. -/
def freePages (s : State) : Set Nat :=
  {p | ∃ k ≤ PMM_MAX_ORDER, ∃ a, Chain.Reaches (next s.mem) (s.freeLists k) a ∧
    p ∈ Block.pages ⟨k, a⟩}

theorem Owns.freePages_eq {s : State} {ls : Nat → List Nat} {hs : List Block}
    (h : Owns s ls hs) : freePages s = pagesOf (freeBlocks ls) := by
  ext p
  constructor
  · rintro ⟨k, hk, a, hreach, hp⟩
    exact ⟨⟨k, a⟩, mem_freeBlocks.mpr ⟨hk, (h.lists k hk).reaches_iff.mp hreach⟩, hp⟩
  · rintro ⟨b, hb, hp⟩
    obtain ⟨hk, ha⟩ := mem_freeBlocks.mp hb
    exact ⟨b.order, hk, b.addr, (h.lists b.order hk).reaches_iff.mpr ha, hp⟩

/-- There are `2^k` consecutive free pages that start at a multiple of `2^k` pages. -/
def HasRun (s : State) (k : Nat) : Prop :=
  ∃ q, ∀ p, q * 2 ^ k ≤ p → p < (q + 1) * 2 ^ k → p ∈ freePages s

/-- The rounding loop doubles until the count is reached. -/
theorem orderLoop_eq {count fuel order : Nat} (hle : order ≤ Nat.clog 2 count)
    (hsmall : Nat.clog 2 count < 64) (hfuel : Nat.clog 2 count < order + fuel) :
    orderLoop count fuel (2 ^ order) order = some (Nat.clog 2 count) := by
  induction fuel generalizing order with
  | zero => omega
  | succ fuel ih =>
      rw [orderLoop]
      by_cases hlt : 2 ^ order < count
      · have horder : order < Nat.clog 2 count := (Nat.lt_clog_iff_pow_lt (by decide)).mpr hlt
        have hdouble : 2 ^ order * 2 % 2 ^ 64 = 2 ^ (order + 1) := by
          rw [← pow_succ]
          exact Nat.mod_eq_of_lt (Nat.pow_lt_pow_right (by decide) (by omega))
        rw [if_pos hlt, hdouble]
        exact ih (by omega) (by omega)
      · have horder : Nat.clog 2 count ≤ order :=
          (Nat.clog_le_iff_le_pow (by decide)).mpr (Nat.le_of_not_lt hlt)
        rw [if_neg hlt, Nat.le_antisymm hle horder]

theorem orderOf_eq {count : UInt64} (h : Nat.clog 2 count.toNat < 64) :
    orderOf count = some (Nat.clog 2 count.toNat) :=
  orderLoop_eq (Nat.zero_le _) h (by omega)

theorem pmmAllocPages_single {c : Conf} (h : Single c) {count : UInt64}
    (hcount : Nat.clog 2 count.toNat < 64) :
    pmmAllocPages c.st count = some (if count.toNat ≤ 1 ∧ c.st.freeLists 0 ≠ 0 then
      (c.st.freeLists 0, popPage c.st) else (0, c.st)) := by
  have hone : Nat.clog 2 count.toNat = 0 ↔ count.toNat ≤ 1 := by
    rw [← Nat.le_zero, Nat.clog_le_iff_le_pow (by decide), pow_zero]
  rw [pmmAllocPages, orderOf_eq hcount, Option.map_some, buddyAlloc_single h.lists]
  simp only [hone]

/-- Empty lists have no pages. -/
theorem Single.not_hasRun {c : Conf} (h : Single c) (hnone : c.st.freeLists 0 = 0) (k : Nat) :
    ¬ HasRun c.st k := by
  rintro ⟨q, hrun⟩
  have hpos : 0 < 2 ^ k := Nat.two_pow_pos k
  obtain ⟨j, -, a, hreaches, -⟩ := hrun (q * 2 ^ k) (Nat.le_refl _) (by rw [Nat.succ_mul]; omega)
  have hzero : c.st.freeLists j = 0 := by
    by_cases hj : j = 0
    · rw [hj]
      exact hnone
    · exact h.lists j hj
  rw [hzero] at hreaches
  exact Chain.not_reaches_zero hreaches

theorem Single.complete_iff {c : Conf} (h : Single c) {count : UInt64}
    (hcount : Nat.clog 2 count.toNat < 64) :
    (∀ s, pmmAllocPages c.st count = some (0, s) → ¬ HasRun c.st (Nat.clog 2 count.toNat)) ↔
      count.toNat ≤ 1 ∨ ¬ HasRun c.st (Nat.clog 2 count.toNat) := by
  rw [pmmAllocPages_single h hcount]
  constructor
  · intro hcomplete
    by_cases hone : count.toNat ≤ 1
    · exact Or.inl hone
    · exact Or.inr (hcomplete c.st (by rw [if_neg fun hif => hone hif.1]))
  · rintro (hone | hnone) s hs
    · refine h.not_hasRun ?_ _
      by_contra hne
      rw [if_pos ⟨hone, hne⟩] at hs
      exact hne (Prod.mk.inj (Option.some.inj hs)).1
    · exact hnone

/-! ### Giving everything back

Without writes of the owners this holds for every map, also where regions overlap and a page is
on the list twice. -/

/-- List 0 and the links from the pages of `A` stay inside `A`. -/
structure Threaded (A : Set Nat) (s : State) : Prop where
  good : ∀ a ∈ A, Block.Good ⟨0, a⟩
  head : s.freeLists 0 = 0 ∨ s.freeLists 0 ∈ A
  links : ∀ a ∈ A, next s.mem a = 0 ∨ next s.mem a ∈ A

section Threaded

variable {A : Set Nat} {s : State}

/-- Pages are apart, so what is written into one leaves the link of another. -/
theorem next_of_ne {a b : Nat} (ha : Block.Good ⟨0, a⟩) (hb : Block.Good ⟨0, b⟩) (hne : b ≠ a)
    {m m' : Mem} (hm : ∀ x, x < a ∨ a + PAGE_SIZE ≤ x → m' x = m x) : next m' b = next m b := by
  have hP := PAGE_SIZE_eq
  obtain ⟨q, hq⟩ := ha.aligned
  obtain ⟨r, hr⟩ := hb.aligned
  dsimp only at hq hr
  rw [hP] at hq hr hm
  exact load_congr fun x hx hx' => hm x (by omega)

theorem Threaded.put (h : Threaded A s) {a : Nat} (ha : Block.Good ⟨0, a⟩) :
    Threaded (insert a A) (put s a) := by
  have hP := PAGE_SIZE_eq
  constructor
  case good =>
    rintro b (rfl | hb)
    · exact ha
    · exact h.good b hb
  case head => exact Or.inr (Set.mem_insert a A)
  case links =>
    have hhead : s.freeLists 0 < 2 ^ 64 := by
      rcases h.head with hnull | hmem
      · omega
      · have hfits := (h.good _ hmem).fits
        dsimp only at hfits
        omega
    have hself : next (Pmm.put s a).mem a = s.freeLists 0 := load_store_self _ hhead
    have hother : ∀ b ∈ A, b ≠ a → next (Pmm.put s a).mem b = next s.mem b := by
      intro b hb hne
      exact next_of_ne ha (h.good b hb) hne fun x hx => store_apply_of_notMem _ (by omega)
    rintro b hb
    by_cases hne : b = a
    · rw [hne, hself]
      exact h.head.imp_right (Set.mem_insert_of_mem a)
    · have hbA : b ∈ A := hb.resolve_left hne
      rw [hother b hbA hne]
      exact (h.links b hbA).imp_right (Set.mem_insert_of_mem a)

theorem Threaded.pop (h : Threaded A s) (hne : s.freeLists 0 ≠ 0) : Threaded A (popPage s) := by
  have hP := PAGE_SIZE_eq
  have hhead : s.freeLists 0 ∈ A := h.head.resolve_left hne
  refine ⟨h.good, h.links _ hhead, fun b hb => ?_⟩
  by_cases hself : b = s.freeLists 0
  · -- the page has been zeroed, its link included
    left
    rw [hself]
    exact load_eq_zero fun x hx hx' => fill_apply_of_mem _ ⟨hx, by omega⟩
  · have hother : next (popPage s).mem b = next s.mem b :=
      next_of_ne (h.good _ hhead) (h.good b hb) hself fun x hx =>
        fill_apply_of_notMem _ (by rw [pow_zero, Nat.one_mul]; exact hx)
    rw [hother]
    exact h.links b hb

theorem Threaded.foldl_put {as : List Nat} (h : Threaded A s)
    (has : ∀ a ∈ as, Block.Good ⟨0, a⟩) : ∃ A', Threaded A' (as.foldl Pmm.put s) := by
  induction as generalizing A s with
  | nil => exact ⟨A, h⟩
  | cons a as ih =>
      obtain ⟨ha, has⟩ := List.forall_mem_cons.mp has
      exact ih (h.put ha) has

end Threaded

/-- The calls other than the writes of the owners. -/
def NoWrite (call : Call) (_ : Conf) : Prop := ∀ a v, call ≠ .write a v

/-- A run that has not lost the pages it started with. -/
structure Kept (A : Set Nat) (c : Conf) : Prop where
  single : Single c
  threaded : Threaded A c.st
  live : ∀ b ∈ c.live, b.1 ∈ A
  /-- What is not on the list is with its owners. -/
  some_left : c.st.freeLists 0 ≠ 0 ∨ c.live ≠ []

theorem Kept.step {A : Set Nat} {c c' : Conf} {call : Call} (h : Kept A c)
    (hwrite : NoWrite call c) (hnext : Next call c c') : Kept A c' := by
  have hstep := h.single.pageStep hnext
  have hsingle := h.single.step hstep
  cases hstep with
  | stay => exact h
  | pop hn hne =>
      refine ⟨hsingle, h.threaded.pop hne, ?_, Or.inr (List.cons_ne_nil _ _)⟩
      exact List.forall_mem_cons.mpr ⟨h.threaded.head.resolve_left hne, h.live⟩
  | @put _ b hb =>
      have hgood := h.threaded.good _ (h.live b hb)
      have hbase : pageBase b.1 = b.1 := Nat.div_mul_cancel hgood.aligned
      refine ⟨hsingle, ?_, fun b' hb' => h.live b' (List.mem_of_mem_erase hb'), Or.inl ?_⟩
      · have hput := h.threaded.put hgood
        rw [Set.insert_eq_of_mem (h.live b hb)] at hput
        rw [hbase]
        exact hput
      · rw [hbase]
        exact hgood.pos
  | @write a v => exact absurd rfl (hwrite a v)

/-- Any map whatsoever: the first page that was freed is there. -/
theorem kept_init {mem : Mem} {regions : List Region}
    (hsome : (pmmInit mem regions).st.freeLists 0 ≠ 0) :
    ∃ A, Kept A ⟨(pmmInit mem regions).st, []⟩ := by
  have hstart : Threaded ∅ (boot mem).st :=
    ⟨fun a ha => ha.elim, Or.inl rfl, fun a ha => ha.elim⟩
  obtain ⟨A, hA⟩ := hstart.foldl_put (taken_good regions)
  rw [← pmmInit_st] at hA
  exact ⟨A, single_init mem regions, hA, List.forall_mem_nil _, Or.inl hsome⟩

/-- `pmm_alloc_pages` returns a block. -/
def Allocates (s : State) (count : UInt64) : Prop :=
  ∃ p s', pmmAllocPages s count = some (p, s') ∧ p ≠ 0

theorem Single.allocates_iff {c : Conf} (h : Single c) {count : UInt64}
    (hcount : Nat.clog 2 count.toNat < 64) :
    Allocates c.st count ↔ count.toNat ≤ 1 ∧ c.st.freeLists 0 ≠ 0 := by
  unfold Allocates
  rw [pmmAllocPages_single h hcount]
  constructor
  · rintro ⟨p, s', hres, hp⟩
    by_contra hif
    rw [if_neg hif] at hres
    cases hres
    exact hp rfl
  · intro hif
    rw [if_pos hif]
    exact ⟨_, _, rfl, hif.2⟩

/-- With everything given back, what could be allocated at the start can be allocated again. -/
theorem allocates_again {mem : Mem} {regions : List Region} {c : Conf}
    (hreach : Lts.Reachable ((system (pmmInit mem regions).st).restrict NoWrite) c)
    (hlive : c.live = []) {count : UInt64} (hcount : Nat.clog 2 count.toNat < 64)
    (hinit : Allocates (pmmInit mem regions).st count) : Allocates c.st count := by
  obtain ⟨hone, hsome⟩ := ((single_init mem regions).allocates_iff hcount).mp hinit
  obtain ⟨A, hA⟩ := kept_init hsome
  have hkept : Kept A c := by
    refine hreach.invariant (I := Kept A) ?_ ?_
    · rintro c rfl
      exact hA
    · intro call c c' h hnext
      exact h.step hnext.1 hnext.2
  exact (hkept.single.allocates_iff hcount).mpr
    ⟨hone, hkept.some_left.resolve_right (not_not_intro hlive)⟩

/-- In every run over any map: `pmm_alloc_pages` fails only for lack of an aligned run of free
pages exactly if it is asked for one page, or there is no such run. What could be allocated right
after `pmm_init`, single pages, can be allocated again when all is given back. -/
theorem pmm_alloc_pages_complete_iff (mem : Mem) (regions : List Region) {c : Conf}
    (hreach : Lts.Reachable (system (pmmInit mem regions).st) c) (count : UInt64)
    (hcount : Nat.clog 2 count.toNat ≤ PMM_MAX_ORDER) :
    ((∀ s, pmmAllocPages c.st count = some (0, s) →
        ¬ HasRun c.st (Nat.clog 2 count.toNat)) ↔
      count.toNat ≤ 1 ∨ ¬ HasRun c.st (Nat.clog 2 count.toNat)) ∧
    (Lts.Reachable ((system (pmmInit mem regions).st).restrict NoWrite) c → c.live = [] →
      Allocates (pmmInit mem regions).st count → Allocates c.st count) := by
  have hmax : PMM_MAX_ORDER = 10 := rfl
  have hsmall : Nat.clog 2 count.toNat < 64 := by omega
  exact ⟨(single_of_reachable hreach).complete_iff hsmall,
    fun hreach' hlive => allocates_again hreach' hlive hsmall⟩

/-- Two pages at 16 MiB. -/
def twoPages : State := (pmmInit (fun _ => 0) [⟨0x1000000, 0x2000, 1⟩]).st

/-- A single page is found. -/
theorem pmm_alloc_pages_complete_one :
    Lts.Reachable (system (pmmInit (fun _ => 0) [⟨0x1000000, 0x2000, 1⟩]).st) ⟨twoPages, []⟩ ∧
    ∀ s, pmmAllocPages twoPages 1 = some (0, s) →
      ¬ HasRun twoPages (Nat.clog 2 (1 : UInt64).toNat) := by
  have hreach : Lts.Reachable (system (pmmInit (fun _ => 0) [⟨0x1000000, 0x2000, 1⟩]).st)
      ⟨twoPages, []⟩ := Lts.Reachable.init rfl
  have hiff := (pmm_alloc_pages_complete_iff _ _ hreach 1 (by decide)).1
  exact ⟨hreach, hiff.mpr (Or.inl (by decide))⟩

/-- The two pages are free and form an aligned run, and two pages cannot be allocated. -/
theorem pmm_alloc_two_pages_fails :
    Lts.Reachable (system (pmmInit (fun _ => 0) [⟨0x1000000, 0x2000, 1⟩]).st) ⟨twoPages, []⟩ ∧
    Nat.clog 2 (2 : UInt64).toNat = 1 ∧ HasRun twoPages 1 ∧
    pmmAllocPages twoPages 2 = some (0, twoPages) := by
  have hsingle : Single ⟨twoPages, []⟩ := single_init _ _
  have hclog : Nat.clog 2 (2 : UInt64).toNat = 1 := by decide
  refine ⟨Lts.Reachable.init rfl, hclog, ⟨0x800, ?_⟩, ?_⟩
  · have hhead : twoPages.freeLists 0 = 0x1001000 := by decide +kernel
    have hnext : next twoPages.mem 0x1001000 = 0x1000000 := by decide +kernel
    have hfirst : Chain.Reaches (next twoPages.mem) (twoPages.freeLists 0) 0x1001000 := by
      rw [hhead]
      exact .here (by decide)
    have hsecond : Chain.Reaches (next twoPages.mem) (twoPages.freeLists 0) 0x1000000 := by
      rw [hhead]
      refine .later (by decide) ?_
      rw [hnext]
      exact .here (by decide)
    intro p hlo hhi
    have hp : p = 0x1000 ∨ p = 0x1001 := by omega
    rcases hp with rfl | rfl
    · exact ⟨0, by decide, _, hsecond, by decide, by decide⟩
    · exact ⟨0, by decide, _, hfirst, by decide, by decide⟩
  · rw [pmmAllocPages_single hsingle (by rw [hclog]; decide), if_neg (by decide)]

end OmniOS.Pmm
