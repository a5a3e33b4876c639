import OmniOS.Kernel.PmmPages

/-!
# OmniOS.Kernel.PmmOrder — the order of a count, and where it indexes

`pmm_alloc_pages` and `pmm_free_pages` round a count up to a power of two with the same loop.
`buddy_alloc` only looks at lists up to `PMM_MAX_ORDER`, so a count that is too large is refused
there. `buddy_free` takes any order.

`OmniOS.Kernel.Pmm` has no trace of the accesses to `free_lists`. The functions are written down
again with the list of indices they use (`Traced`); without it they are the same
(`allocTraced_st`, `freeTraced_st`).
-/

namespace OmniOS.Pmm

open Memory

/-! ## Accesses -/

/-- The allocator, and the indices of `free_lists` that were read or written so far. -/
structure Traced where
  st : State
  indices : List Nat

/-- `zone->free_lists[i]`. -/
def Traced.read (t : Traced) (i : Nat) : Nat × Traced :=
  (t.st.freeLists i, { t with indices := t.indices ++ [i] })

/-- `zone->free_lists[i] = b`. -/
def Traced.write (t : Traced) (i b : Nat) : Traced where
  st := { t.st with freeLists := Function.update t.st.freeLists i b }
  indices := t.indices ++ [i]

/-- `block->next = head`. -/
def Traced.link (t : Traced) (b head : Nat) : Traced :=
  { t with st := { t.st with mem := store t.st.mem 8 b head } }

/-- `while (i > order) { i--; ... }`. -/
def splitTraced (order block : Nat) : (i : Nat) → Traced → Traced
  | 0, t => t
  | i + 1, t =>
      if order < i + 1 then
        let buddy := block + 2 ^ (i + PAGE_SHIFT)
        let (head, t) := t.read i
        splitTraced order block i ((t.link buddy head).write i buddy)
      else t

/-- The end of `buddy_alloc`, with a block of order `order`. -/
def takeBlock (s : State) (order block : Nat) : State :=
  { s with
    freeCount := s.freeCount - orderToPages order
    usedMemory := s.usedMemory + orderToPages order * UInt64.ofNat PAGE_SIZE
    mem := fill s.mem (2 ^ order * PAGE_SIZE) block 0 }

/-- `for (int i = order; i <= PMM_MAX_ORDER; i++)`, with the turns that are left. -/
def allocLoop (order : Nat) : (left i : Nat) → Traced → Nat × Traced
  | 0, _, t => (0, t)
  | left + 1, i, t =>
      let (head, t) := t.read i
      if head = 0 then allocLoop order left (i + 1) t
      else
        let (block, t) := t.read i
        let t := splitTraced order block i (t.write i (next t.st.mem block))
        (block, { t with st := takeBlock t.st order block })

/-- `buddy_alloc`. -/
def allocTraced (s : State) (order : Nat) : Nat × Traced :=
  allocLoop order (PMM_NUM_ORDERS - order) order ⟨s, []⟩

/-- `buddy_free`. -/
def freeTraced (s : State) (phys order : Nat) : Traced :=
  let (head, t) := Traced.read ⟨s, []⟩ order
  let t := (t.link phys head).write order phys
  { t with st := { t.st with
      freeCount := t.st.freeCount + orderToPages order
      usedMemory := t.st.usedMemory - orderToPages order * UInt64.ofNat PAGE_SIZE } }

/-- The indices that `pmm_alloc_pages` uses; `none` if it does not get there. -/
def allocIndices (s : State) (count : UInt64) : Option (List Nat) :=
  (orderOf count).map fun order => (allocTraced s order).2.indices

/-- The indices that `pmm_free_pages` uses. -/
def freeIndices (s : State) (phys : Nat) (count : UInt64) : Option (List Nat) :=
  if phys = 0 then some []
  else (orderOf count).map fun order => (freeTraced s (pageBase phys) order).indices

/-! ## The same functions -/

section Traces

variable {order block : Nat}

/-- A turn of the loop puts the upper half on the list below. -/
theorem read_link_write (t : Traced) (i b : Nat) :
    (((t.read i).2.link b (t.read i).1).write i b).st = push t.st i b := rfl

theorem splitTraced_st (i : Nat) (t : Traced) :
    (splitTraced order block i t).st = splitLoop order block i t.st := by
  induction i generalizing t with
  | zero => rfl
  | succ i ih =>
      rw [splitTraced, splitLoop]
      by_cases hlt : order < i + 1
      · rw [if_pos hlt, if_pos hlt, ih, read_link_write]
      · rw [if_neg hlt, if_neg hlt]

/-- The loop uses the indices below `i`, down to the order. -/
theorem mem_splitTraced {i j : Nat} {t : Traced} (h : j ∈ (splitTraced order block i t).indices) :
    j ∈ t.indices ∨ order ≤ j ∧ j < i := by
  induction i generalizing t with
  | zero => exact Or.inl h
  | succ i ih =>
      rw [splitTraced] at h
      by_cases hlt : order < i + 1
      · rw [if_pos hlt] at h
        rcases ih h with hbefore | hlow
        · have hmem : j ∈ t.indices ++ [i] ++ [i] := hbefore
          rw [List.mem_append, List.mem_append, List.mem_singleton, or_assoc, or_self] at hmem
          refine hmem.imp_right fun heq => ?_
          omega
        · exact Or.inr (by omega)
      · rw [if_neg hlt] at h
        exact Or.inl h

/-- One turn of the `for` loop of `buddy_alloc`. -/
theorem allocLoop_succ (left i : Nat) (t : Traced) :
    allocLoop order (left + 1) i t =
      if t.st.freeLists i = 0 then allocLoop order left (i + 1) (t.read i).2
      else
        let block := t.st.freeLists i
        let t' := splitTraced order block i
          (((t.read i).2.read i).2.write i (next t.st.mem block))
        (block, { t' with st := takeBlock t'.st order block }) := rfl

/-- The loop stops at the first list that is not empty. -/
theorem allocLoop_st (left i : Nat) (t : Traced) :
    ((allocLoop order left i t).1, (allocLoop order left i t).2.st) =
      match (List.range' i left).find? fun i => t.st.freeLists i != 0 with
      | none => (0, t.st)
      | some i =>
          let block := t.st.freeLists i
          let s := { t.st with freeLists := Function.update t.st.freeLists i (next t.st.mem block) }
          (block, takeBlock (splitLoop order block i s) order block) := by
  induction left generalizing i t with
  | zero => rfl
  | succ left ih =>
      rw [allocLoop_succ, List.range'_succ, List.find?_cons]
      by_cases hempty : t.st.freeLists i = 0
      · have hnot : (t.st.freeLists i != 0) = false := by simp [hempty]
        rw [hnot, if_pos hempty]
        exact ih (i + 1) (t.read i).2
      · have hthere : (t.st.freeLists i != 0) = true := by simp [hempty]
        rw [hthere, if_neg hempty]
        dsimp only
        rw [splitTraced_st]
        rfl

/-- The loop uses indices from the order on, one for each turn. -/
theorem mem_allocLoop {left i j : Nat} {t : Traced}
    (h : j ∈ (allocLoop order left i t).2.indices) (hi : order ≤ i) :
    j ∈ t.indices ∨ order ≤ j ∧ j < i + left := by
  induction left generalizing i t with
  | zero => exact Or.inl h
  | succ left ih =>
      rw [allocLoop_succ] at h
      by_cases hempty : t.st.freeLists i = 0
      · rw [if_pos hempty] at h
        rcases ih h (by omega) with hbefore | hrest
        · have hmem : j ∈ t.indices ++ [i] := hbefore
          rw [List.mem_append, List.mem_singleton] at hmem
          refine hmem.imp_right fun heq => ?_
          omega
        · exact Or.inr (by omega)
      · rw [if_neg hempty] at h
        rcases mem_splitTraced h with hbefore | hlow
        · have hmem : j ∈ t.indices ++ [i] ++ [i] ++ [i] := hbefore
          rw [List.mem_append, List.mem_append, List.mem_append, List.mem_singleton, or_assoc,
            or_self, or_assoc, or_self] at hmem
          refine hmem.imp_right fun heq => ?_
          omega
        · exact Or.inr (by omega)

end Traces

theorem allocTraced_st (s : State) (order : Nat) :
    ((allocTraced s order).1, (allocTraced s order).2.st) = buddyAlloc s order := by
  rw [allocTraced, allocLoop_st]
  rfl

/-- `buddy_alloc` stays below `PMM_NUM_ORDERS`, whatever the order. -/
theorem mem_allocTraced {s : State} {order j : Nat}
    (h : j ∈ (allocTraced s order).2.indices) : order ≤ j ∧ j ≤ PMM_MAX_ORDER := by
  have hnum : PMM_NUM_ORDERS = PMM_MAX_ORDER + 1 := rfl
  rcases mem_allocLoop h (Nat.le_refl order) with hnone | hin
  · exact absurd hnone List.not_mem_nil
  · omega

theorem freeTraced_indices (s : State) (phys order : Nat) :
    (freeTraced s phys order).indices = [order, order] := rfl

/-- As long as the index is one of `free_lists`. -/
theorem freeTraced_st {s : State} {phys order : Nat} (h : order ≤ PMM_MAX_ORDER) :
    buddyFree s phys order = some (freeTraced s phys order).st := by
  rw [buddyFree, if_pos h]
  rfl

/-! ## The rounding loop -/

section Rounding

variable {count : Nat}

/-- Beyond the last power of two the loop goes on for ever: `total` becomes 0 and stays 0. -/
theorem orderLoop_eq_none (hcount : 2 ^ 63 < count) (fuel : Nat) {total order : Nat}
    (htotal : total = 0 ∨ ∃ k < 64, total = 2 ^ k) : orderLoop count fuel total order = none := by
  induction fuel generalizing total order with
  | zero => rfl
  | succ fuel ih =>
      have hlt : total < count := by
        rcases htotal with rfl | ⟨k, hk, rfl⟩
        · omega
        · have hle : 2 ^ k ≤ 2 ^ 63 := Nat.pow_le_pow_right (by decide) (by omega)
          omega
      rw [orderLoop, if_pos hlt]
      refine ih ?_
      rcases htotal with rfl | ⟨k, hk, rfl⟩
      · exact Or.inl rfl
      · by_cases hlast : k = 63
        · left
          rw [hlast]
          decide
        · right
          refine ⟨k + 1, by omega, ?_⟩
          rw [← pow_succ]
          exact Nat.mod_eq_of_lt (Nat.pow_lt_pow_right (by decide) (by omega))

theorem clog_lt_iff : Nat.clog 2 count < 64 ↔ count ≤ 2 ^ 63 := by
  rw [Nat.lt_succ_iff, Nat.clog_le_iff_le_pow (by decide)]

/-- The loop ends for counts up to `2^63`. -/
theorem orderLoop_ends_iff :
    (∃ fuel order, orderLoop count fuel 1 0 = some order) ↔ count ≤ 2 ^ 63 := by
  constructor
  · rintro ⟨fuel, order, hends⟩
    by_contra hlarge
    have hnone : orderLoop count fuel 1 0 = none :=
      orderLoop_eq_none (by omega) fuel (Or.inr ⟨0, by decide, rfl⟩)
    rw [hnone] at hends
    cases hends
  · intro hsmall
    exact ⟨65, _, orderLoop_eq (Nat.zero_le _) (clog_lt_iff.mpr hsmall)
      (by have := clog_lt_iff.mpr hsmall; omega)⟩

/-- The least order with room for the count. -/
theorem clog_isLeast (count k : Nat) : max count 1 ≤ 2 ^ k ↔ Nat.clog 2 count ≤ k := by
  have hpos : 1 ≤ 2 ^ k := Nat.one_le_two_pow
  rw [Nat.clog_le_iff_le_pow (by decide)]
  omega

end Rounding

/-- A count that is larger than every block is refused by `pmm_alloc_pages`. -/
theorem pmmAllocPages_refused (s : State) {count : UInt64}
    (hlarge : 2 ^ PMM_MAX_ORDER < count.toNat) (hends : count.toNat ≤ 2 ^ 63) :
    pmmAllocPages s count = some (0, s) := by
  have horder : PMM_MAX_ORDER < Nat.clog 2 count.toNat :=
    (Nat.lt_clog_iff_pow_lt (by decide)).mpr hlarge
  have hnone : findOrder s (Nat.clog 2 count.toNat) = none := by
    have hleft : PMM_NUM_ORDERS - Nat.clog 2 count.toNat = 0 := by
      have hnum : PMM_NUM_ORDERS = PMM_MAX_ORDER + 1 := rfl
      omega
    rw [findOrder, hleft]
    rfl
  rw [pmmAllocPages, orderOf_eq (clog_lt_iff.mpr hends), Option.map_some, buddyAlloc, hnone]

/-- The loop gives the least order for the count, and both functions use it for entries of
`free_lists` only. -/
structure OrderUsed (count : UInt64) : Prop where
  least : ∃ order, orderOf count = some order ∧ max count.toNat 1 ≤ 2 ^ order ∧
    ∀ k, max count.toNat 1 ≤ 2 ^ k → order ≤ k
  alloc : ∀ s, ∃ is, allocIndices s count = some is ∧ ∀ i ∈ is, i ≤ PMM_MAX_ORDER
  free : ∀ s phys, ∃ is, freeIndices s phys count = some is ∧ ∀ i ∈ is, i ≤ PMM_MAX_ORDER

/-- The order of a count is computed and used as it should be exactly for counts up to the largest
block. -/
theorem order_used_iff (count : UInt64) : OrderUsed count ↔ count.toNat ≤ 2 ^ PMM_MAX_ORDER := by
  constructor
  · intro h
    obtain ⟨order, horder, hfits, -⟩ := h.least
    -- a block at an address other than 0 is freed at the order itself
    obtain ⟨is, his, hin⟩ := h.free ⟨fun _ => 0, fun _ => 0, 0, 0⟩ PAGE_SIZE
    rw [freeIndices, if_neg (by decide), horder, Option.map_some, freeTraced_indices,
      Option.some.injEq] at his
    have hle : order ≤ PMM_MAX_ORDER := hin order (his ▸ List.mem_cons_self)
    have hpow : 2 ^ order ≤ 2 ^ PMM_MAX_ORDER := Nat.pow_le_pow_right (by decide) hle
    omega
  · intro hcount
    have hle : Nat.clog 2 count.toNat ≤ PMM_MAX_ORDER :=
      (Nat.clog_le_iff_le_pow (by decide)).mpr hcount
    have hmax : PMM_MAX_ORDER = 10 := rfl
    have horder : orderOf count = some (Nat.clog 2 count.toNat) := orderOf_eq (by omega)
    refine ⟨⟨_, horder, ?_, ?_⟩, ?_, ?_⟩
    · exact (clog_isLeast _ _).mpr (Nat.le_refl _)
    · intro k hk
      exact (clog_isLeast _ _).mp hk
    · intro s
      rw [allocIndices, horder, Option.map_some]
      exact ⟨_, rfl, fun i hi => (mem_allocTraced hi).2⟩
    · intro s phys
      rw [freeIndices, horder, Option.map_some, freeTraced_indices]
      by_cases hphys : phys = 0
      · rw [if_pos hphys]
        exact ⟨[], rfl, fun i hi => absurd hi List.not_mem_nil⟩
      · rw [if_neg hphys]
        refine ⟨_, rfl, fun i hi => ?_⟩
        rw [List.mem_cons, List.mem_singleton, or_self] at hi
        rw [hi]
        exact hle

/-- 1025 pages are freed at `free_lists[11]`, and the order of `2^63 + 1` pages is never found. -/
theorem order_used_too_large :
    freeIndices ⟨fun _ => 0, fun _ => 0, 0, 0⟩ PAGE_SIZE 1025 = some [11, 11] ∧
    orderOf 0x8000000000000001 = none ∧ ¬ OrderUsed 1025 ∧ ¬ OrderUsed 0x8000000000000001 := by
  have hindex : freeIndices ⟨fun _ => 0, fun _ => 0, 0, 0⟩ PAGE_SIZE 1025 = some [11, 11] := by
    decide +kernel
  have hnone : orderOf 0x8000000000000001 = none := by decide +kernel
  refine ⟨hindex, hnone, ?_, ?_⟩
  · intro h
    obtain ⟨is, his, hin⟩ := h.free ⟨fun _ => 0, fun _ => 0, 0, 0⟩ PAGE_SIZE
    rw [hindex, Option.some.injEq] at his
    exact absurd (hin 11 (his ▸ List.mem_cons_self)) (by decide)
  · intro h
    obtain ⟨order, horder, -⟩ := h.least
    rw [hnone] at horder
    cases horder

end OmniOS.Pmm
