import OmniOS.Kernel.PagingMap
import OmniOS.Kernel.Vmm

/-!
# OmniOS.Kernel.VmmIsolation — what address spaces see of each other

Every space is walked from `kernel_pml4_phys`, so all spaces share one set of
tables: a page mapped in one space shows up in all others, and a page mapped in a
space that is not current is recorded and never entered into any table.

With one space at a time in use neither can be seen. `SoleSpace` is that
discipline: pages are mapped only in the current space and only while it is the
only one created, and the tables are not unmapped under another space. Along
such runs `Inv` holds, and the spaces do not see each other's calls.
-/

namespace OmniOS.Vmm

open Paging (PAGE_SIZE KERNEL_VMA_BASE PageOp LowerHalf afterOps lastOp presentLeaf)

variable {F : Type*}

/-! ## The calls as page operations -/

theorem recordRegion_frame (s : State F) (space : Nat) (sp : Space) (virt phys pages flags : UInt64) :
    (recordRegion s space sp virt phys pages flags).paging = s.paging ∧
    (recordRegion s space sp virt phys pages flags).current = s.current ∧
    (recordRegion s space sp virt phys pages flags).spaces.length = s.spaces.length := by
  unfold recordRegion
  split <;> simp

theorem clearRegion_frame (s : State F) (space : Nat) (sp : Space) (virt : UInt64) :
    (clearRegion s space sp virt).paging = s.paging ∧
    (clearRegion s space sp virt).current = s.current ∧
    (clearRegion s space sp virt).spaces.length = s.spaces.length := by
  unfold clearRegion
  split <;> simp

theorem vmmSwitchSpace_paging {s s' : State F} {space : Option Nat}
    (h : vmmSwitchSpace s space = some s') : s'.paging = s.paging ∧ s'.spaces = s.spaces := by
  cases space with
  | none =>
      rw [← Option.some.inj h]
      exact ⟨rfl, rfl⟩
  | some i =>
      rcases Option.map_eq_some_iff.mp h with ⟨sp, -, rfl⟩
      exact ⟨rfl, rfl⟩

variable [DecidableEq F] {K : Kernel F} {N : Nat}

theorem mapLoop_eq (s : State F) (virt phys flags : UInt64) (n : Nat) :
    (List.range n).foldlM (mapOne K virt phys flags) s =
      (((List.range n).map fun i => PageOp.map (virt + UInt64.ofNat i * PAGE_SIZE)
        (frameOf K s phys i) (pteFlags flags)).foldlM (Paging.pageStep K.toMachine) s.paging).map
        fun paging => { s with
          paging := paging
          pmmUsed := if phys != 0 then s.pmmUsed else s.pmmUsed + n } := by
  induction n with
  | zero => simp
  | succ n ih =>
      rw [List.range_succ, List.map_append, List.foldlM_append, List.foldlM_append, ih]
      simp only [Option.bind_eq_bind, Option.bind_map, Option.map_bind]
      apply Option.bind_congr
      intro paging _
      simp only [List.map_cons, List.map_nil, List.foldlM_cons, List.foldlM_nil, Function.comp,
        Paging.pageStep]
      -- a page of its own for each `i`, unless the caller gave the frames
      by_cases hphys : (phys != 0) = true
      · simp [mapOne, frameOf, hphys, Option.map_eq_bind]
      · simp [mapOne, frameOf, hphys, Option.map_eq_bind, Nat.add_assoc]

theorem unmapLoop_eq (s : State F) (virt : UInt64) (n : Nat) :
    ((List.range n).map fun i => PageOp.unmap (virt + UInt64.ofNat i * PAGE_SIZE)).foldlM
      (Paging.pageStep K.toMachine) s.paging =
        some ((List.range n).foldl (unmapOne K virt) s).paging := by
  induction n with
  | zero => rfl
  | succ n ih =>
      rw [List.range_succ, List.map_append, List.foldlM_append, ih, List.foldl_append]
      rfl

theorem unmapLoop_frame (s : State F) (virt : UInt64) (is : List Nat) :
    (is.foldl (unmapOne K virt) s).current = s.current ∧
    (is.foldl (unmapOne K virt) s).spaces = s.spaces := by
  induction is generalizing s with
  | nil => exact ⟨rfl, rfl⟩
  | cons i is ih => exact ih _

/-- What a map or unmap call does: the tables follow when the space is current,
and stay as they are otherwise. -/
structure Follows (K : Kernel F) (space : Nat) (ops : List PageOp) (s s' : State F) : Prop where
  current : s'.current = s.current
  spaces : s'.spaces.length = s.spaces.length
  entered : space = s.current ∨ space = 0 →
    ops.foldlM (Paging.pageStep K.toMachine) s.paging = some s'.paging
  recorded : ¬ (space = s.current ∨ space = 0) → s'.paging = s.paging

theorem vmmMapPages_follows {s s' : State F} {space : Nat} {virt phys pages flags : UInt64}
    (h : vmmMapPages K s space virt phys pages flags = some s') :
    Follows K space (pageOps K s (.map space virt phys pages flags)) s s' := by
  unfold vmmMapPages at h
  rcases hsp : s.spaces[space]? with _ | sp
  · rw [hsp] at h
    cases h
  · simp only [hsp] at h
    by_cases hcur : space = s.current ∨ space = 0
    · -- the pages are entered, then the region is recorded
      rw [if_pos hcur, mapLoop_eq, Option.map_map] at h
      rcases Option.map_eq_some_iff.mp h with ⟨paging, hsteps, hs'⟩
      obtain ⟨hpaging, hcurrent, hlength⟩ := recordRegion_frame
        { s with paging := paging, pmmUsed := if phys != 0 then s.pmmUsed else s.pmmUsed + pages.toNat }
        space sp virt phys pages flags
      simp only [Function.comp_apply] at hs'
      rw [hs'] at hpaging hcurrent hlength
      refine ⟨hcurrent, hlength, ?_, fun hnot => absurd hcur hnot⟩
      intro _
      rw [hpaging]
      exact hsteps
    · -- only the region is recorded
      rw [if_neg hcur, Option.map_some] at h
      rcases recordRegion_frame s space sp virt phys pages flags with ⟨hpaging, hcurrent, hlength⟩
      rw [← Option.some.inj h]
      exact ⟨hcurrent, hlength, fun hyes => absurd hyes hcur, fun _ => hpaging⟩

theorem vmmUnmapPages_follows {s s' : State F} {space : Nat} {virt pages : UInt64}
    (h : vmmUnmapPages K s space virt pages = some s') :
    Follows K space (pageOps K s (.unmap space virt pages)) s s' := by
  unfold vmmUnmapPages at h
  rcases hsp : s.spaces[space]? with _ | sp
  · rw [hsp] at h
    cases h
  · simp only [hsp] at h
    by_cases hcur : space = s.current ∨ space = 0
    · rw [if_pos hcur] at h
      rcases unmapLoop_frame (K := K) s virt (List.range pages.toNat) with ⟨hcurrent, hspaces⟩
      obtain ⟨hpaging, hcurrent', hlength⟩ := clearRegion_frame
        ((List.range pages.toNat).foldl (unmapOne K virt) s) space sp virt
      rw [← Option.some.inj h]
      refine ⟨hcurrent'.trans hcurrent, hlength.trans (congrArg List.length hspaces), ?_,
        fun hnot => absurd hcur hnot⟩
      intro _
      rw [hpaging]
      exact unmapLoop_eq s virt pages.toNat
    · rw [if_neg hcur] at h
      rcases clearRegion_frame s space sp virt with ⟨hpaging, hcurrent, hlength⟩
      rw [← Option.some.inj h]
      exact ⟨hcurrent, hlength, fun hyes => absurd hyes hcur, fun _ => hpaging⟩

theorem step_follows {s s' : State F} {op : Op} {space : Nat} (htarget : op.target = some space)
    (h : step K s op = some s') : Follows K space (pageOps K s op) s s' := by
  cases op with
  | create => cases htarget
  | switch _ => cases htarget
  | map A virt phys pages flags =>
      cases htarget
      exact vmmMapPages_follows h
  | unmap A virt pages =>
      cases htarget
      exact vmmUnmapPages_follows h

/-! ## Creating and switching -/

/-- A new space puts its root into a page that is no table. -/
theorem vmmCreateSpace_mem (K : Kernel F) (s : State F) :
    (vmmCreateSpace K s).1.current = s.current ∧
    (vmmCreateSpace K s).1.paging.used = s.paging.used ∧
    s.spaces.length ≤ (vmmCreateSpace K s).1.spaces.length ∧
    s.pmmUsed ≤ (vmmCreateSpace K s).1.pmmUsed ∧
    ((vmmCreateSpace K s).1.paging = s.paging ∨
      ∃ n < (vmmCreateSpace K s).1.pmmUsed,
        ∀ t, t ≠ K.view (K.pmmAllocPage n + KERNEL_VMA_BASE) →
          (vmmCreateSpace K s).1.paging.mem t = s.paging.mem t) := by
  by_cases hspace : K.pmmAllocPage s.pmmUsed = 0
  · simp [vmmCreateSpace, hspace]
  by_cases hpml4 : K.pmmAllocPage (s.pmmUsed + 1) = 0
  · simp [vmmCreateSpace, hspace, hpml4]
  · simp only [vmmCreateSpace, hspace, hpml4, if_false]
    refine ⟨rfl, rfl, by simp [setUpSpace], Nat.le_add_right _ 2,
      Or.inr ⟨s.pmmUsed + 1, Nat.lt_succ_self _, ?_⟩⟩
    intro t ht
    simp [setUpSpace, Radix.write, ht]

/-! ## The discipline and its invariant -/

/-- Pages are mapped only in the current space and only while it is the only one
created; they are unmapped then too, or in a space that is not current. -/
def SoleSpace : Op → Conf F → Prop
  | .map space _ _ pages _, c =>
      pages = 0 ∨ space = c.st.current ∧ ∀ other, c.st.Created other → other = space
  | .unmap space _ pages, c =>
      pages = 0 ∨ space ≠ c.st.current ∨ ∀ other, c.st.Created other → other = space
  | _, _ => True

/-- The tables are good, and hold every page that is mapped in some space. -/
structure Inv (K : Kernel F) (N : Nat) (c : Conf F) : Prop where
  tree : Paging.LowerTree K.toMachine c.st.paging
  fresh : Fresh K c.st N
  unborn : ∀ space page, ¬ c.st.Created space → c.mapped space page = none
  visible : ∀ space virt e, LowerHalf virt → c.mapped space (FourLevel.page virt) = some e →
    presentLeaf K.toMachine c.st.paging virt = some e

theorem lowerHalf_of_user {virt pages : UInt64} (h : UserPages virt pages) {i : Nat}
    (hi : i < pages.toNat) : LowerHalf (virt + UInt64.ofNat i * PAGE_SIZE) := by
  have hsize : PAGE_SIZE.toNat = 4096 := rfl
  have hlt := h i hi
  unfold LowerHalf
  rw [UInt64.toNat_add, UInt64.toNat_mul, UInt64.toNat_ofNat', hsize]
  omega

omit [DecidableEq F] in
theorem pageOps_lowerHalf {s : State F} {op : Op} (h : op.User s) :
    ∀ o ∈ pageOps K s op, LowerHalf o.virt := by
  cases op with
  | create => simp [pageOps]
  | switch _ => simp [pageOps]
  | map space virt phys pages flags =>
      intro o ho
      rcases List.mem_map.mp ho with ⟨i, hi, rfl⟩
      exact lowerHalf_of_user h.2 (List.mem_range.mp hi)
  | unmap space virt pages =>
      intro o ho
      rcases List.mem_map.mp ho with ⟨i, hi, rfl⟩
      exact lowerHalf_of_user h.2 (List.mem_range.mp hi)

theorem afterOps_nil (page : Nat) (before : Option UInt64) : afterOps [] page before = before := rfl

/-- Unmapping only takes away. -/
theorem afterOps_unmap {virt : UInt64} {is : List Nat} {page : Nat} {before : Option UInt64} {e : UInt64}
    (h : afterOps (is.map fun i => PageOp.unmap (virt + UInt64.ofNat i * PAGE_SIZE)) page before = some e) :
    before = some e := by
  unfold afterOps at h
  split at h
  next _ => exact h
  next op hlast =>
    have hmem : op ∈ is.map fun i => PageOp.unmap (virt + UInt64.ofNat i * PAGE_SIZE) :=
      List.mem_reverse.mp (List.mem_of_find?_eq_some hlast)
    rcases List.mem_map.mp hmem with ⟨i, -, rfl⟩
    cases h

/-- A leaf that agrees with what is mapped still does after operations on both. -/
theorem afterOps_agree {ops : List PageOp} {page : Nat} {mapped leaf : Option UInt64} {e : UInt64}
    (hagree : ∀ e, mapped = some e → leaf = some e) (h : afterOps ops page mapped = some e) :
    afterOps ops page leaf = some e := by
  unfold afterOps at h ⊢
  split at h
  next _ => exact hagree e h
  next _ _ => exact h

omit [DecidableEq F] in
theorem Fresh.of_tables {s s' : State F} (h : Fresh K s N)
    (hfresh : Paging.FreshPages K.toMachine s'.paging N)
    (htables : ∀ q t, Radix.Path 3 Paging.LowerSlot q →
      Paging.tableAt K.toMachine s'.paging q = some t →
      Paging.tableAt K.toMachine s.paging q = some t ∨ ∃ n < N, t = K.view (K.alignedAlloc n)) :
    Fresh K s' N where
  tables := hfresh
  roots := by
    intro n hn q hq hwalk
    rcases htables q _ hq hwalk with hold | ⟨k, hk, heq⟩
    · exact h.roots n hn q hq hold
    · exact h.apart n hn k hk heq.symm
  apart := h.apart

/-- The new root is outside the tree, so nothing that is mapped changes. -/
theorem Inv.create {c c' : Conf F} (hc : Inv K N c) (hst : c'.st = (vmmCreateSpace K c.st).1)
    (hlim : c'.st.pmmUsed ≤ N) (hmapped : c'.mapped = c.mapped) : Inv K N c' := by
  rcases vmmCreateSpace_mem K c.st with ⟨-, hused, hlength, -, hmem⟩
  rw [← hst] at hused hlength hmem
  have hagree : ∀ q, Radix.Path 3 Paging.LowerSlot q →
      Paging.tableAt K.toMachine c'.st.paging q = Paging.tableAt K.toMachine c.st.paging q ∧
      ∀ j, Radix.entry (Paging.format K.toMachine) c'.st.paging.mem K.root q j =
        Radix.entry (Paging.format K.toMachine) c.st.paging.mem K.root q j := by
    intro q hq
    rcases hmem with hsame | ⟨n, hn, hother⟩
    · rw [hsame]
      exact ⟨rfl, fun _ => rfl⟩
    · have hout := hc.fresh.roots n (Nat.lt_of_lt_of_le hn hlim)
      exact ⟨Radix.walk_of_agree hout hother hq, Radix.entry_of_agree hout hother hq⟩
  constructor
  · intro p q t hp hq hpt hqt
    rw [(hagree p hp).1] at hpt
    rw [(hagree q hq).1] at hqt
    exact hc.tree p q t hp hq hpt hqt
  · apply hc.fresh.of_tables
    · refine { hc.fresh.tables with unused := ?_ }
      intro n hn hn' q hq
      rw [(hagree q hq).1]
      exact hc.fresh.tables.unused n hn (hused ▸ hn') q hq
    · intro q t hq ht
      rw [(hagree q hq).1] at ht
      exact Or.inl ht
  · intro space page hnot
    rw [hmapped]
    exact hc.unborn space page fun h => hnot ⟨h.1, Nat.lt_of_lt_of_le h.2 hlength⟩
  · intro space virt e hvirt he
    rw [hmapped] at he
    rw [← hc.visible space virt e hvirt he, Paging.presentLeaf_eq, Paging.presentLeaf_eq, Radix.leaf,
      (hagree _ (Paging.path_ok hvirt)).2]
    rfl

theorem Inv.switch {c c' : Conf F} (hc : Inv K N c) (hpaging : c'.st.paging = c.st.paging)
    (hspaces : c'.st.spaces = c.st.spaces) (hmapped : c'.mapped = c.mapped) : Inv K N c' where
  tree := hpaging ▸ hc.tree
  fresh := by
    have hfresh := hc.fresh
    exact ⟨hpaging ▸ hfresh.tables, hpaging ▸ hfresh.roots, hfresh.apart⟩
  unborn := by
    intro space page hnot
    rw [hmapped]
    apply hc.unborn
    rw [State.Created, hspaces] at hnot
    exact hnot
  visible := by
    intro space virt e hvirt he
    rw [hmapped] at he
    rw [hpaging]
    exact hc.visible space virt e hvirt he

omit [DecidableEq F] in
/-- In the current space: nothing is mapped or unmapped, or no other space is there. -/
theorem SoleSpace.of_current {op : Op} {c : Conf F} (h : SoleSpace op c) {space : Nat}
    (htarget : op.target = some space) (hcur : space = c.st.current) :
    pageOps K c.st op = [] ∨ ∀ other, c.st.Created other → other = space := by
  cases op with
  | create => cases htarget
  | switch _ => cases htarget
  | map A virt phys pages flags =>
      cases htarget
      rcases h with rfl | ⟨-, hsole⟩
      · exact Or.inl rfl
      · exact Or.inr hsole
  | unmap A virt pages =>
      cases htarget
      rcases h with rfl | hne | hsole
      · exact Or.inl rfl
      · exact absurd hcur hne
      · exact Or.inr hsole

omit [DecidableEq F] in
/-- In a space that is not current nothing is mapped. -/
theorem SoleSpace.of_not_current {op : Op} {c : Conf F} (h : SoleSpace op c) {space : Nat}
    (htarget : op.target = some space) (hcur : space ≠ c.st.current) {page : Nat}
    {before : Option UInt64} {e : UInt64}
    (he : afterOps (pageOps K c.st op) page before = some e) : before = some e := by
  cases op with
  | create => cases htarget
  | switch _ => cases htarget
  | map A virt phys pages flags =>
      cases htarget
      rcases h with rfl | ⟨hyes, -⟩
      · exact he
      · exact absurd hyes hcur
  | unmap A virt pages =>
      cases htarget
      exact afterOps_unmap he

omit [DecidableEq F] in
theorem target_created {op : Op} {c : Conf F} (h : op.User c.st) {space : Nat}
    (htarget : op.target = some space) : c.st.Created space := by
  cases op with
  | create => cases htarget
  | switch _ => cases htarget
  | map A virt phys pages flags =>
      cases htarget
      exact h.1
  | unmap A virt pages =>
      cases htarget
      exact h.1

theorem Inv.target {c c' : Conf F} (hc : Inv K N c) {op : Op} (huser : op.User c.st)
    (hsole : SoleSpace op c) {space : Nat} (htarget : op.target = some space)
    (hstep : step K c.st op = some c'.st) (hlim : c'.st.paging.used ≤ N)
    (hmapped : c'.mapped = account K c op) : Inv K N c' := by
  have hfollows := step_follows htarget hstep
  have hcreated := target_created huser htarget
  have hlower := pageOps_lowerHalf (K := K) huser
  have hself (page : Nat) :
      c'.mapped space page = afterOps (pageOps K c.st op) page (c.mapped space page) := by
    rw [hmapped]
    exact if_pos htarget
  have hothers {other : Nat} (hne : other ≠ space) (page : Nat) :
      c'.mapped other page = c.mapped other page := by
    rw [hmapped]
    apply if_neg
    rw [htarget]
    exact fun heq => hne (Option.some.inj heq).symm
  have hunborn : ∀ other page, ¬ c'.st.Created other → c'.mapped other page = none := by
    intro other page hnot
    rw [State.Created, hfollows.spaces] at hnot
    have hne : other ≠ space := fun heq => hnot (heq ▸ hcreated)
    rw [hothers hne]
    exact hc.unborn other page hnot
  by_cases hcur : space = c.st.current
  · -- the tables follow the call
    have hsteps := hfollows.entered (Or.inl hcur)
    obtain ⟨htree, hfresh, hleaves⟩ :=
      Paging.pageSteps_good hc.fresh.tables hc.tree hlower hsteps hlim
    refine ⟨htree, ?_, hunborn, ?_⟩
    · apply hc.fresh.of_tables hfresh
      intro q t hq ht
      have hwf := (Paging.Holds.init hc.fresh.tables hc.tree).tables
      exact Paging.pageSteps_tables hc.fresh.tables hwf hlower hsteps hlim hq ht
    · intro other virt e hvirt he
      rw [hleaves virt hvirt]
      by_cases hne : other = space
      · rw [hne, hself] at he
        exact afterOps_agree (fun e => hc.visible space virt e hvirt) he
      · rw [hothers hne] at he
        rcases hsole.of_current (K := K) htarget hcur with hnil | honly
        · rw [hnil, afterOps_nil]
          exact hc.visible other virt e hvirt he
        · -- what is mapped in another space was mapped after it was created
          have hborn : c.st.Created other := by
            by_contra hnot
            rw [hc.unborn other _ hnot] at he
            cases he
          exact absurd (honly other hborn) hne
  · -- the call is only recorded
    have hpaging := hfollows.recorded fun hor => hor.elim hcur (Nat.ne_of_gt hcreated.1)
    refine ⟨hpaging ▸ hc.tree, ?_, hunborn, ?_⟩
    · exact ⟨hpaging ▸ hc.fresh.tables, hpaging ▸ hc.fresh.roots, hc.fresh.apart⟩
    · intro other virt e hvirt he
      rw [hpaging]
      by_cases hne : other = space
      · rw [hne, hself] at he
        exact hc.visible space virt e hvirt (hsole.of_not_current htarget hcur he)
      · rw [hothers hne] at he
        exact hc.visible other virt e hvirt he

theorem inv_step {op : Op} {c c' : Conf F} (hc : Inv K N c)
    (hnext : ((system K N).restrict SoleSpace).Next op c c') : Inv K N c' := by
  rcases hnext with ⟨hsole, huser, hstep, hused, hpmm, hmapped⟩
  cases op with
  | create =>
      apply hc.create (Option.some.inj hstep).symm hpmm
      rw [hmapped]
      rfl
  | switch space =>
      rcases vmmSwitchSpace_paging hstep with ⟨hpaging, hspaces⟩
      apply hc.switch hpaging hspaces
      rw [hmapped]
      rfl
  | map space virt phys pages flags => exact hc.target huser hsole rfl hstep hused hmapped
  | unmap space virt pages => exact hc.target huser hsole rfl hstep hused hmapped

theorem inv_of_reachable {c : Conf F} (h : Lts.Reachable ((system K N).restrict SoleSpace) c) :
    Inv K N c := by
  refine h.invariant (I := Inv K N) ?_ ?_
  · intro c₀ hinit
    rcases hinit with ⟨-, hmapped, htree, hfresh⟩
    refine ⟨htree, hfresh, fun space page _ => hmapped space page, ?_⟩
    intro space virt e _ he
    rw [hmapped] at he
    cases he
  · intro op c₁ c₂ hc₁ hnext
    exact inv_step hc₁ hnext

/-- The small machine of the page tables, with frames from `0x100000` up for
`pmm_alloc_page`. -/
def smallKernel : Kernel UInt64 where
  toMachine := Paging.smallMachine
  pmmAllocPage n := UInt64.ofNat (0x100000 + n * 4096)

end OmniOS.Vmm
