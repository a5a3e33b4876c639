import OmniOS.Kernel.Arm64Map
import OmniOS.Lib.Stage1

/-!
# OmniOS.Kernel.Arm64Walk — the processor's view of a user mapping

`arm64_map_user_page` writes its leaf without bit 1, which a page descriptor of level 3 has to
have, so the processor finds no page there (`arm64_user_page_faults`). Where the walk of the
code and that of the processor differ, the latter ends; so it gets to no other table, whatever
was in memory and whatever pages `pmm_alloc_page` returns.

The access bits are the wrong ones too: `01` is what `PT_AP_RO_ALL` stands for, and `00` leaves
EL0 without any access (`leafEntry_rights`).
-/

namespace OmniOS.Arm64

open FourLevel

/-- Addresses of pages below `2^48`; 0 when there is none left. -/
def PageAddresses (alloc : Nat → UInt64) : Prop :=
  ∀ n, (alloc n).toNat % 4096 = 0 ∧ (alloc n).toNat < 2 ^ 48

/-- The walk for `virt` finds the page at `phys`, with the rights that were asked for. -/
def Means (m : Stage1.Tables) (pgd virt phys : UInt64) (writable executable : Int32) : Prop :=
  ∃ d, Stage1.translate m pgd virt = some d ∧ Stage1.address d = phys ∧
    Stage1.el0Reads d = true ∧ (Stage1.el0Writes d = true ↔ writable ≠ 0) ∧
    (Stage1.el0Executes d = true ↔ executable ≠ 0)

section Leaf

variable (phys : UInt64) (w x : Int32)

/-- The address has no part in the bits of a mask that lie outside it. -/
theorem leafEntry_and {mask : UInt64} (hmask : PT_ADDR_MASK &&& mask = 0) :
    leafEntry phys w x &&& mask = leafAttrs w x &&& mask := by
  refine Stage1.or_and_of_disjoint ?_
  rw [UInt64.and_assoc, hmask, UInt64.and_zero]

theorem leafEntry_not_page : Stage1.valid (leafEntry phys w x) = false := by
  rw [Stage1.valid, leafEntry_and phys w x (by decide), leafAttrs]
  rcases userFlags_cases w x with h | h | h | h
  · rw [h]
    decide
  · rw [h]
    decide
  · rw [h]
    decide
  · rw [h]
    decide

/-- With bit 1 the leaf would give EL0 no access to a page it may write, and let it write one
that is meant to be read-only. -/
theorem leafEntry_rights :
    (Stage1.el0Reads (leafEntry phys w x) = true ↔ w = 0) ∧
    (Stage1.el0Writes (leafEntry phys w x) = true ↔ w = 0) ∧
    (Stage1.el0Executes (leafEntry phys w x) = true ↔ x ≠ 0) := by
  simp only [Stage1.el0Reads, Stage1.el0Writes, Stage1.el0Executes, Stage1.ap]
  rw [leafEntry_and phys w x (by decide), leafEntry_and phys w x (by decide), leafAttrs]
  by_cases hw : w = 0
  · by_cases hx : x = 0
    · rw [hw, hx]
      decide
    · rw [hw, userFlags, if_neg hx, if_pos rfl]
      simp only [hx, ne_eq, not_false_eq_true, iff_true]
      decide
  · by_cases hx : x = 0
    · rw [hx, userFlags, if_pos rfl, if_neg hw]
      simp only [hw, iff_false]
      decide
    · rw [userFlags, if_neg hx, if_neg hw]
      simp only [hw, hx, ne_eq, not_false_eq_true, iff_true, iff_false]
      decide

end Leaf

variable {alloc : Nat → UInt64}

theorem stage1_next {e t : UInt64} (h : Stage1.format.next e = some t) :
    e &&& 3 = 3 ∧ Stage1.address e = t := by
  rw [Radix.Format.next] at h
  split at h
  next hvalid => exact ⟨beq_iff_eq.mp hvalid, Option.some.inj h⟩
  next => cases h

/-- The processor follows table entries where the code does, and to the same table. -/
theorem supply_readBy (hpages : PageAddresses alloc) :
    (supply (freshPages_zero alloc)).ReadBy Stage1.format where
  next e t hnext := by
    obtain ⟨hvalid, rfl⟩ := stage1_next hnext
    have hbit : e &&& PT_VALID = 3 &&& PT_VALID := by
      rw [← hvalid, UInt64.and_assoc]
      rfl
    have hpresent : format.present e = true := by
      show (e &&& PT_VALID != 0) = true
      rw [hbit]
      decide
    rw [Radix.Format.next, if_pos hpresent]
    rfl
  zero := by decide
  link n t hnext := by
    obtain ⟨-, rfl⟩ := stage1_next hnext
    exact or_and_mask (and_addr_mask (hpages n).1 (hpages n).2) (by decide)

/-- No user mapping means what the caller asked for: the walk for its address faults. -/
theorem arm64_user_page_faults (hpages : PageAddresses alloc) (s : State) (pgd virt phys : UInt64)
    (writable executable : Int32) :
    ¬ Means (arm64MapUserPage alloc s pgd virt phys writable executable).mem pgd virt phys
      writable executable := by
  rintro ⟨d, htranslate, -⟩
  rw [mapUserPage_eq (freshPages_zero alloc), Stage1.translate,
    Radix.leaf_store_of_absent (supply_readBy hpages) (leafEntry_not_page phys _ _)] at htranslate
  cases htranslate

/-- Sixteen pages, over and over again. -/
def cyclicAlloc (n : Nat) : UInt64 := UInt64.ofNat (4096 * (n % 16 + 1))

theorem cyclicAlloc_pages : PageAddresses cyclicAlloc := by
  intro n
  have hval : (cyclicAlloc n).toNat = 4096 * (n % 16 + 1) := by
    rw [cyclicAlloc, UInt64.toNat_ofNat']
    omega
  rw [hval]
  omega

/-- The page that `execve` maps first, for a program at `0x400000`. -/
theorem arm64_user_page_faults_first :
    ¬ Means (arm64MapUserPage cyclicAlloc (arm64CreateUserPgd cyclicAlloc ⟨fun _ _ => 0, 0⟩).1
      0x1000 0x400000 0x400000 1 1).mem 0x1000 0x400000 0x400000 1 1 :=
  arm64_user_page_faults cyclicAlloc_pages _ _ _ _ _ _

/-- The tables are there, and the leaf with the address; its last bits are `01`. -/
theorem arm64_user_page_unmapped :
    userLeaf (arm64MapUserPage cyclicAlloc (arm64CreateUserPgd cyclicAlloc ⟨fun _ _ => 0, 0⟩).1
        0x1000 0x400000 0x80000000 1 1).mem 0x1000 0x400000 = some 0x80000421 ∧
    ¬ Means (arm64MapUserPage cyclicAlloc (arm64CreateUserPgd cyclicAlloc ⟨fun _ _ => 0, 0⟩).1
        0x1000 0x400000 0x80000000 1 1).mem 0x1000 0x400000 0x80000000 1 1 := by
  have hnone : Stage1.translate
      (arm64MapUserPage cyclicAlloc (arm64CreateUserPgd cyclicAlloc ⟨fun _ _ => 0, 0⟩).1
        0x1000 0x400000 0x80000000 1 1).mem 0x1000 0x400000 = none := by decide +kernel
  refine ⟨by decide +kernel, ?_⟩
  rintro ⟨d, htranslate, -⟩
  rw [hnone] at htranslate
  cases htranslate

end OmniOS.Arm64
