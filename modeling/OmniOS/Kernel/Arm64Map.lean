import OmniOS.Kernel.Arm64

/-!
# OmniOS.Kernel.Arm64Map — a user pgd is a finite map

`pt_lookup_or_create` and `pt_map_page` are the table operations of `Radix` at
this entry format, so one page mapped is one leaf written. The run over a list
of calls is unrolled to the list of its mappings, and the invariant `Holds`
goes along that list: the tables are well formed and the leaf of every page is
that of its last mapping.
-/

namespace OmniOS.Arm64

open FourLevel

variable {alloc : Nat → UInt64} {N : Nat}

/-! ## Entries -/

theorem and_addr_mask {x : UInt64} (haligned : x.toNat % 4096 = 0) (hbelow : x.toNat < 2 ^ 48) :
    x &&& PT_ADDR_MASK = x := by
  have hmask : ∀ i < 48, 12 ≤ i → PT_ADDR_MASK.toNat.testBit i = true := by decide
  apply and_eq_self_of_testBit
  intro i hi
  exact hmask i (testBit_lt hbelow hi) (testBit_of_aligned haligned hi)

theorem present_or {x attrs : UInt64} (h : attrs &&& PT_VALID ≠ 0) :
    format.present (x ||| attrs) = true := by
  simpa [format] using or_and_ne_zero h

/-- The attributes of a table entry. -/
def tableAttrs : UInt64 := PT_VALID ||| PT_TABLE ||| PT_AF ||| PT_NS

/-- The attributes of a leaf. -/
def leafAttrs (writable executable : Int32) : UInt64 :=
  PT_VALID ||| PT_AF ||| PT_NS ||| userFlags writable executable

theorem userFlags_cases (w x : Int32) :
    userFlags w x = 0 ∨ userFlags w x = PT_UXN ∨
      userFlags w x = PT_AP_RO_ALL ∨ userFlags w x = PT_AP_RO_ALL ||| PT_UXN := by
  by_cases hw : w = 0 <;> by_cases hx : x = 0 <;> simp [userFlags, hw, hx] <;> decide

theorem leafAttrs_outside (w x : Int32) :
    leafAttrs w x &&& ~~~PT_ADDR_MASK = leafAttrs w x ∧ leafAttrs w x &&& PT_VALID ≠ 0 := by
  unfold leafAttrs
  rcases userFlags_cases w x with h | h | h | h <;> rw [h] <;> decide

/-- What `arm64_map_user_page` writes. -/
def leafEntry (phys : UInt64) (writable executable : Int32) : UInt64 :=
  (phys &&& PT_ADDR_MASK) ||| leafAttrs writable executable

theorem leafEntry_present (phys : UInt64) (w x : Int32) :
    format.present (leafEntry phys w x) = true :=
  present_or (leafAttrs_outside w x).2

theorem leafEntry_heldBy {m : Mapping} (haligned : m.phys.toNat % 4096 = 0)
    (hbelow : m.phys.toNat < 2 ^ 48) :
    m.HeldBy (leafEntry m.phys m.writable m.executable) := by
  have hphys := and_addr_mask haligned hbelow
  have hattrs := (leafAttrs_outside m.writable m.executable).1
  rw [Mapping.HeldBy, leafEntry, hphys]
  exact ⟨or_and_mask hphys hattrs, or_and_not_mask hphys hattrs⟩

/-! ## The code as table operations -/

/-- The pages of the allocator, each with the entry that names it. -/
def supply (h : FreshPages alloc N) : Radix.Supply format where
  page := alloc
  link n := alloc n ||| tableAttrs
  limit := N
  link_present := fun n _ => present_or (by decide)
  target_link := fun n hn => or_and_mask (and_addr_mask (h.aligned n hn) (h.below n hn)) (by decide)
  page_injOn := h.distinct

theorem ptLookupOrCreate_eq (h : FreshPages alloc N) (s : State) (t : UInt64) (i : Fin 512) :
    ptLookupOrCreate alloc s t i = (supply h).lookupOrCreate s t i := by
  rcases hvalid : (s.mem t i &&& PT_VALID != 0) with _ | _
  · -- no table yet: `pmm_alloc_page`, `memset`, and the new entry
    have hnext : format.next (s.mem t i) = none := by simp [Radix.Format.next, format, hvalid]
    simp only [ptLookupOrCreate, hvalid, Radix.Supply.lookupOrCreate, hnext]
    simp only [pmmAllocPage, memsetPage, Radix.Supply.create, Radix.clear, supply, tableAttrs,
      UInt64.or_assoc]
    rfl
  · have hnext : format.next (s.mem t i) = some (s.mem t i &&& PT_ADDR_MASK) := by
      simp [Radix.Format.next, format, hvalid]
    simp only [ptLookupOrCreate, hvalid, Radix.Supply.lookupOrCreate, hnext, if_true]

theorem mapUserPage_eq (h : FreshPages alloc N) (s : State) (pgd virt phys : UInt64) (w x : Int32) :
    arm64MapUserPage alloc s pgd virt phys w x =
      (supply h).store s pgd (path virt) (slot virt) (leafEntry phys w x) := by
  simp only [arm64MapUserPage, ptMapPage, ptLookupOrCreate_eq h, Radix.Supply.store, path, slot,
    Radix.Supply.descend, lxIndex, L0_SHIFT, L1_SHIFT, L2_SHIFT, L3_SHIFT, leafEntry, leafAttrs,
    UInt64.or_assoc]

theorem userLeaf_eq (m : UInt64 → Fin 512 → UInt64) (pgd virt : UInt64) :
    userLeaf m pgd virt = Radix.leaf format m pgd (path virt) (slot virt) := rfl

/-! ## Calls as lists of pages -/

/-- One turn of the loop of `arm64_map_user_pages`. -/
structure PageCall where
  virt : UInt64
  phys : UInt64
  writable : Int32
  executable : Int32

def PageCall.mapping (p : PageCall) : Mapping :=
  ⟨p.virt.toNat / 4096, p.phys, p.writable, p.executable⟩

structure PageCall.Valid (p : PageCall) : Prop where
  virt_lt : p.virt.toNat < 2 ^ 48
  phys_lt : p.phys.toNat < 2 ^ 48
  aligned : p.phys.toNat % 4096 = 0

def Call.pageCalls : Call → List PageCall
  | .mapUserPage virt phys w x => [⟨virt, phys, w, x⟩]
  | .mapUserPages virt phys pages w x => (List.range pages.toNat).map fun i =>
      ⟨virt + UInt64.ofNat i * PAGE_SIZE, phys + UInt64.ofNat i * PAGE_SIZE, w, x⟩

def pageStep (alloc : Nat → UInt64) (pgd : UInt64) (s : State) (p : PageCall) : State :=
  arm64MapUserPage alloc s pgd p.virt p.phys p.writable p.executable

theorem step_eq (pgd : UInt64) (s : State) (c : Call) :
    step alloc pgd s c = c.pageCalls.foldl (pageStep alloc pgd) s := by
  cases c with
  | mapUserPage virt phys w x => rfl
  | mapUserPages virt phys pages w x =>
      rw [Call.pageCalls, List.foldl_map]
      rfl

theorem userRun_eq (s : State) (calls : List Call) :
    userRun alloc s calls =
      (calls.flatMap Call.pageCalls).foldl (pageStep alloc (userPgd alloc s))
        (arm64CreateUserPgd alloc s).1 := by
  rw [userRun, List.foldl_flatMap]
  congr
  funext s c
  exact step_eq _ s c

/-- No address of a valid call wraps. -/
theorem toNat_add_page {a : UInt64} {i : Nat} (h : a.toNat + i * 4096 < 2 ^ 48) :
    (a + UInt64.ofNat i * PAGE_SIZE).toNat = a.toNat + i * 4096 := by
  have hsize : PAGE_SIZE.toNat = 4096 := rfl
  rw [UInt64.toNat_add, UInt64.toNat_mul, UInt64.toNat_ofNat', hsize]
  omega

theorem Call.Valid.pageCalls {c : Call} (h : c.Valid) : ∀ p ∈ c.pageCalls, p.Valid := by
  cases c with
  | mapUserPage virt phys w x =>
      intro p hp
      rw [List.mem_singleton.mp hp]
      exact ⟨h.1, h.2.1, h.2.2⟩
  | mapUserPages virt phys pages w x =>
      intro p hp
      rcases List.mem_map.mp hp with ⟨i, hi, rfl⟩
      rcases h.2 i (List.mem_range.mp hi) with ⟨hv, hp⟩
      -- the offset of a turn is a multiple of the page size
      have haligned : phys.toNat % 4096 = 0 := h.1
      constructor
      · rw [toNat_add_page hv]
        exact hv
      · rw [toNat_add_page hp]
        exact hp
      · rw [toNat_add_page hp]
        omega

theorem Call.Valid.mappings {c : Call} (h : c.Valid) :
    c.mappings = c.pageCalls.map PageCall.mapping := by
  cases c with
  | mapUserPage virt phys w x => rfl
  | mapUserPages virt phys pages w x =>
      rw [Call.mappings, Call.pageCalls, List.map_map]
      apply List.map_congr_left
      intro i hi
      have hv := (h.2 i (List.mem_range.mp hi)).1
      have hpage : virt.toNat / 4096 + i = (virt + UInt64.ofNat i * PAGE_SIZE).toNat / 4096 := by
        rw [toNat_add_page hv]
        omega
      rw [hpage]
      rfl

theorem mappings_eq {calls : List Call} (h : ∀ c ∈ calls, c.Valid) :
    mappings calls = (calls.flatMap Call.pageCalls).map PageCall.mapping := by
  induction calls with
  | nil => rfl
  | cons c calls ih =>
      rw [mappings, List.flatMap_cons, List.flatMap_cons, List.map_append,
        (h c List.mem_cons_self).mappings]
      congr 1
      exact ih fun c' hc' => h c' (List.mem_cons_of_mem c hc')

/-! ## The last mapping -/

theorem lastMapping_snoc (ms : List Mapping) (m : Mapping) (page : Nat) :
    lastMapping (ms ++ [m]) page = if m.page = page then some m else lastMapping ms page := by
  rw [lastMapping, List.reverse_append, List.reverse_singleton, List.singleton_append,
    List.find?_cons]
  by_cases h : m.page = page
  · simp [h]
  · simp [h, lastMapping]

theorem lastMapping_append_of_not_mapped {ms ms' : List Mapping} {page : Nat}
    (h : ∀ m ∈ ms', m.page ≠ page) : lastMapping (ms ++ ms') page = lastMapping ms page := by
  have hnone : ms'.reverse.find? (fun m => m.page = page) = none := by
    rw [List.find?_eq_none]
    intro m hm
    simpa using h m (List.mem_reverse.mp hm)
  rw [lastMapping, List.reverse_append, List.find?_append, hnone, Option.none_or]
  rfl

theorem lastMapping_isSome (ms : List Mapping) (page : Nat) :
    (lastMapping ms page).isSome ↔ ∃ m ∈ ms, m.page = page := by
  simp [lastMapping, List.find?_isSome]

/-! ## The invariant -/

/-- The tables are well formed and hold the last mapping of every page. -/
structure Holds (h : FreshPages alloc N) (pgd : UInt64) (ms : List Mapping) (s : State) : Prop where
  tables : Radix.WellFormed (supply h) 3 (fun _ => True) pgd s
  leaves : ∀ virt : UInt64, virt.toNat < 2 ^ 48 →
    userLeaf s.mem pgd virt =
      (lastMapping ms (virt.toNat / 4096)).map fun m => leafEntry m.phys m.writable m.executable

theorem path_ok (virt : UInt64) : Radix.Path 3 (fun _ => True) (path virt) :=
  ⟨Nat.le_refl 3, fun _ _ => trivial⟩

theorem Holds.pageStep {h : FreshPages alloc N} {pgd : UInt64} {ms : List Mapping} {s : State}
    (hs : Holds h pgd ms s) {p : PageCall} (hp : p.Valid)
    (hused : (pageStep alloc pgd s p).used ≤ N) :
    Holds h pgd (ms ++ [p.mapping]) (pageStep alloc pgd s p) := by
  unfold Arm64.pageStep at hused ⊢
  rw [mapUserPage_eq h] at hused ⊢
  obtain ⟨hwf, hself, -, hother⟩ := Radix.store_spec hs.tables (slot p.virt)
    (leafEntry p.phys p.writable p.executable) (path_ok p.virt) rfl hused
  refine ⟨hwf, ?_⟩
  intro virt hvirt
  have hmapping : p.mapping.page = p.virt.toNat / 4096 := rfl
  rw [lastMapping_snoc, userLeaf_eq, hmapping]
  by_cases hpage : p.virt.toNat / 4096 = virt.toNat / 4096
  · -- the page just mapped
    have hidx : path virt = path p.virt ∧ slot virt = slot p.virt := by
      rw [indices_eq_iff, page_of_lt hvirt, page_of_lt hp.virt_lt, hpage]
    rw [if_pos hpage, hidx.1, hidx.2, Radix.leaf, hself, Option.filter_some, leafEntry_present]
    rfl
  · -- another page has other indices
    have hidx : ¬ (path virt = path p.virt ∧ slot virt = slot p.virt) := by
      rw [indices_eq_iff, page_of_lt hvirt, page_of_lt hp.virt_lt]
      exact Ne.symm hpage
    rw [if_neg hpage, hother _ _ (path_ok virt) rfl hidx, ← hs.leaves virt hvirt]
    rfl

theorem freshPages_zero (alloc : Nat → UInt64) : FreshPages alloc 0 := by
  constructor <;> intro n hn <;> exact absurd hn (Nat.not_lt_zero n)

theorem used_pageSteps_le (pgd : UInt64) (ps : List PageCall) (s : State) :
    s.used ≤ (ps.foldl (pageStep alloc pgd) s).used := by
  induction ps generalizing s with
  | nil => exact Nat.le_refl _
  | cons p ps ih =>
      have hstep : s.used ≤ (pageStep alloc pgd s p).used := by
        -- counting needs nothing of the allocator
        rw [pageStep, mapUserPage_eq (freshPages_zero alloc)]
        exact Radix.used_store_le _ _ _ _
      exact Nat.le_trans hstep (ih _)

theorem Holds.pageSteps {h : FreshPages alloc N} {pgd : UInt64} {ms : List Mapping} {s : State}
    (hs : Holds h pgd ms s) {ps : List PageCall} (hps : ∀ p ∈ ps, p.Valid)
    (hused : (ps.foldl (Arm64.pageStep alloc pgd) s).used ≤ N) :
    Holds h pgd (ms ++ ps.map PageCall.mapping) (ps.foldl (Arm64.pageStep alloc pgd) s) := by
  induction ps generalizing ms s with
  | nil =>
      rw [List.map_nil, List.append_nil]
      exact hs
  | cons p ps ih =>
      -- `N` bounds the pages used at the end, so it bounds those used on the way
      rw [List.map_cons, List.append_cons]
      apply ih _ (fun q hq => hps q (List.mem_cons_of_mem p hq)) hused
      exact hs.pageStep (hps p List.mem_cons_self)
        (Nat.le_trans (used_pageSteps_le pgd ps _) hused)

theorem Holds.create (h : FreshPages alloc N) {s : State} (hused : s.used < N) :
    Holds h (userPgd alloc s) [] (arm64CreateUserPgd alloc s).1 where
  tables := Radix.WellFormed.newRoot hused
  leaves := fun virt _ => Radix.leaf_newRoot (A := supply h) (path virt) (slot virt)

theorem userRun_holds (h : FreshPages alloc N) {s : State} {calls : List Call}
    (hvalid : ∀ c ∈ calls, c.Valid) (hused : (userRun alloc s calls).used ≤ N) :
    Holds h (userPgd alloc s) (mappings calls) (userRun alloc s calls) := by
  rw [userRun_eq] at hused
  have hcreate : s.used + 1 ≤ N := Nat.le_trans
    (used_pageSteps_le (userPgd alloc s) _ (arm64CreateUserPgd alloc s).1) hused
  have hps : ∀ p ∈ calls.flatMap Call.pageCalls, p.Valid := by
    intro p hp
    rcases List.mem_flatMap.mp hp with ⟨c, hc, hpc⟩
    exact (hvalid c hc).pageCalls p hpc
  have hrun := (Holds.create h hcreate).pageSteps hps hused
  rw [List.nil_append] at hrun
  rw [userRun_eq, mappings_eq hvalid]
  exact hrun

theorem used_userRun_le (s : State) (pre post : List Call) :
    (userRun alloc s pre).used ≤ (userRun alloc s (pre ++ post)).used := by
  rw [userRun_eq, userRun_eq, List.flatMap_append, List.foldl_append]
  exact used_pageSteps_le _ _ _

theorem lastMapping_frame {calls : List Call} (hvalid : ∀ c ∈ calls, c.Valid) {page : Nat}
    {m : Mapping} (hm : lastMapping (mappings calls) page = some m) :
    m.phys.toNat % 4096 = 0 ∧ m.phys.toNat < 2 ^ 48 := by
  have hmem : m ∈ mappings calls := List.mem_reverse.mp (List.mem_of_find?_eq_some hm)
  rw [mappings_eq hvalid] at hmem
  rcases List.mem_map.mp hmem with ⟨p, hp, rfl⟩
  rcases List.mem_flatMap.mp hp with ⟨c, hc, hpc⟩
  have hpv := (hvalid c hc).pageCalls p hpc
  exact ⟨hpv.aligned, hpv.phys_lt⟩

/-- A user pgd is the map from pages to their last mappings. A page has a valid
leaf exactly when it was mapped, and the leaf holds the frame and the flags of
its last mapping; a call leaves the leaves of all pages it does not map as they
were; and no two tables share a page. -/
theorem user_pgd_is_finite_map {alloc : Nat → UInt64} {s : State} {calls : List Call}
    (hvalid : ∀ c ∈ calls, c.Valid) (hfresh : FreshPages alloc (userRun alloc s calls).used) :
    (∀ virt : UInt64, virt.toNat < 2 ^ 48 →
      ((userLeaf (userRun alloc s calls).mem (userPgd alloc s) virt).isSome ↔
        ∃ m ∈ mappings calls, m.page = virt.toNat / 4096) ∧
      ∀ m, lastMapping (mappings calls) (virt.toNat / 4096) = some m →
        ∃ e, userLeaf (userRun alloc s calls).mem (userPgd alloc s) virt = some e ∧ m.HeldBy e) ∧
    (∀ pre c post, calls = pre ++ c :: post → ∀ virt : UInt64, virt.toNat < 2 ^ 48 →
      (∀ m ∈ c.mappings, m.page ≠ virt.toNat / 4096) →
      userLeaf (userRun alloc s (pre ++ [c])).mem (userPgd alloc s) virt =
        userLeaf (userRun alloc s pre).mem (userPgd alloc s) virt) ∧
    ∀ p q t, p.length ≤ 3 → q.length ≤ 3 →
      tableAt (userRun alloc s calls).mem (userPgd alloc s) p = some t →
      tableAt (userRun alloc s calls).mem (userPgd alloc s) q = some t → p = q := by
  have hholds := userRun_holds hfresh hvalid (Nat.le_refl _)
  refine ⟨?_, ?_, ?_⟩
  · intro virt hvirt
    rw [hholds.leaves virt hvirt, Option.isSome_map, lastMapping_isSome]
    refine ⟨Iff.rfl, ?_⟩
    intro m hm
    rcases lastMapping_frame hvalid hm with ⟨haligned, hbelow⟩
    rw [hm]
    exact ⟨_, rfl, leafEntry_heldBy haligned hbelow⟩
  · intro pre c post hcalls virt hvirt hnot
    subst hcalls
    have hsnoc : pre ++ c :: post = (pre ++ [c]) ++ post := by simp
    -- both intermediate states satisfy the invariant for the same supply of pages
    have hpre : Holds hfresh (userPgd alloc s) (mappings pre) (userRun alloc s pre) :=
      userRun_holds hfresh (fun d hd => hvalid d (List.mem_append_left _ hd))
        (used_userRun_le s pre _)
    have hpost : Holds hfresh (userPgd alloc s) (mappings (pre ++ [c])) (userRun alloc s (pre ++ [c])) := by
      apply userRun_holds hfresh
      · intro d hd
        exact hvalid d (by rw [hsnoc]; exact List.mem_append_left _ hd)
      · rw [hsnoc]
        exact used_userRun_le s (pre ++ [c]) post
    have hmaps : mappings (pre ++ [c]) = mappings pre ++ c.mappings := by simp [mappings]
    rw [hpre.leaves virt hvirt, hpost.leaves virt hvirt, hmaps,
      lastMapping_append_of_not_mapped hnot]
  · -- distinct paths lead to distinct pages
    intro p q t hp hq
    exact hholds.tables.tree p q t ⟨hp, fun _ _ => trivial⟩ ⟨hq, fun _ _ => trivial⟩

/-- Pages handed out one after the other from `0x1000` up. -/
def bumpAlloc (n : Nat) : UInt64 := UInt64.ofNat ((n + 1) * 4096)

theorem bumpAlloc_fresh {calls : Nat} (h : calls < 2 ^ 35) : FreshPages bumpAlloc calls := by
  have hval (n : Nat) (hn : n < calls) : (bumpAlloc n).toNat = (n + 1) * 4096 := by
    rw [bumpAlloc, UInt64.toNat_ofNat']
    omega
  constructor
  · intro n hn
    rw [hval n hn]
    omega
  · intro n hn
    rw [hval n hn]
    omega
  · intro n hn k hk heq
    have heq' := congrArg UInt64.toNat heq
    rw [hval n hn, hval k hk] at heq'
    omega

/-- Two pages of one table, the first of them mapped a second time. -/
def remapCalls : List Call :=
  [.mapUserPages 0x400000 0x80000000 2 1 0, .mapUserPage 0x400000 0x90000000 0 1]

theorem remapCalls_valid : ∀ c ∈ remapCalls, c.Valid := by
  intro c hc
  simp only [remapCalls, List.mem_cons, List.not_mem_nil, or_false] at hc
  rcases hc with rfl | rfl
  · refine ⟨by decide, ?_⟩
    intro i hi
    have hi' : i < 2 := hi
    simp only [UInt64.reduceToNat]
    omega
  · exact ⟨by decide, by decide, by decide⟩

/-- Four tables serve both pages, and the first page has its second frame. -/
theorem user_pgd_of_remapped_page :
    (userRun bumpAlloc ⟨fun _ _ => 0, 0⟩ remapCalls).used = 4 ∧
    ∃ e, userLeaf (userRun bumpAlloc ⟨fun _ _ => 0, 0⟩ remapCalls).mem
        (userPgd bumpAlloc ⟨fun _ _ => 0, 0⟩) 0x400000 = some e ∧
      Mapping.HeldBy ⟨0x400, 0x90000000, 0, 1⟩ e := by
  have hused : (userRun bumpAlloc ⟨fun _ _ => 0, 0⟩ remapCalls).used = 4 := by decide
  have hfresh : FreshPages bumpAlloc (userRun bumpAlloc ⟨fun _ _ => 0, 0⟩ remapCalls).used := by
    rw [hused]
    exact bumpAlloc_fresh (by decide)
  have hlast : lastMapping (mappings remapCalls) ((0x400000 : UInt64).toNat / 4096) =
      some ⟨0x400, 0x90000000, 0, 1⟩ := rfl
  refine ⟨hused, ?_⟩
  exact ((user_pgd_is_finite_map remapCalls_valid hfresh).1 0x400000 (by decide)).2 _ hlast

end OmniOS.Arm64
