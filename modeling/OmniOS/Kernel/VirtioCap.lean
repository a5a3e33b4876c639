import OmniOS.Kernel.Pci
import OmniOS.Lib.Chain

/-!
# OmniOS.Kernel.VirtioCap — `virtio_find_cap` of `kernel/drivers/virtio.c`

The capabilities of a function are a linked list in its configuration space, with the first
pointer at 0x34 (`CapabilityList`). `virtio_find_cap` starts at 0x41, follows bits 20 to 27 of a
header and compares the byte of the next pointer with the type: it passes over offsets of its
own (`passes`). What it returns is never a capability of the list (`passes_ne`), so it is right only
if there is nothing to find and nothing on its way looks like it.
-/

namespace OmniOS.Virtio

open Pci

/-! ## The driver -/

def VIRTIO_PCI_CAP_COMMON_CFG : UInt8 := 1
def VIRTIO_PCI_CAP_NOTIFY_CFG : UInt8 := 2
def VIRTIO_PCI_CAP_ISR_CFG : UInt8 := 3
def VIRTIO_PCI_CAP_DEVICE_CFG : UInt8 := 4
def VIRTIO_PCI_CAP_PCI_CFG : UInt8 := 5

/-- The types of VirtIO capabilities. -/
def capTypes : List UInt8 :=
  [VIRTIO_PCI_CAP_COMMON_CFG, VIRTIO_PCI_CAP_NOTIFY_CFG, VIRTIO_PCI_CAP_ISR_CFG,
    VIRTIO_PCI_CAP_DEVICE_CFG, VIRTIO_PCI_CAP_PCI_CFG]

/-- The loop of `virtio_find_cap`, with the turns that are left. -/
def findCapLoop (l : Location) (capType : UInt8) : Nat → UInt8 → Run UInt8
  | 0, _ => return 0
  | turns + 1, cap => do
      let capHdr ← pciReadConfig l cap
      if capHdr &&& 0xFF = 0 then return 0
      if (capHdr >>> 8) &&& 0xFF = capType.toUInt32 then return cap
      let cap := ((capHdr >>> 20) &&& 0xFF).toUInt8
      if cap < 0x40 then return 0
      findCapLoop l capType turns cap

def virtioFindCap (l : Location) (capType : UInt8) : Run UInt8 := findCapLoop l capType 48 0x41

/-! ## Capabilities -/

/-- `PCI_CAP_ID_VNDR`, the id of capabilities that a vendor defines. -/
def vendorSpecific : UInt8 := 0x09

section Capabilities

variable (c : Registers)

def byteAt (offset : UInt8) : UInt8 :=
  (c (dwordOf offset) >>> UInt32.ofNat (8 * (offset.toNat % 4))).toUInt8

/-- The capability at `cap` is a VirtIO one of this type. -/
def Provides (capType cap : UInt8) : Prop :=
  byteAt c cap = vendorSpecific ∧ byteAt c (cap + 3) = capType

instance (capType cap : UInt8) : Decidable (Provides c capType cap) :=
  inferInstanceAs (Decidable (_ ∧ _))

/-- The list that starts at 0x34. -/
structure CapabilityList where
  caps : List UInt8
  chain : Chain.Ends (fun cap => byteAt c (cap + 1)) 0 (byteAt c 0x34) caps
  aligned : ∀ cap ∈ caps, cap.toNat % 4 = 0
  high : ∀ cap ∈ caps, 0x40 ≤ cap.toNat
  length : caps.length ≤ 48

/-- The first capability of this type, or 0. -/
def CapabilityList.find {c : Registers} (list : CapabilityList c) (capType : UInt8) : UInt8 :=
  (list.caps.find? fun cap => Provides c capType cap).getD 0

/-! ## The way of the loop -/

/-- What the loop compares with the type: byte 1 of the dword at `cap`. -/
def compared (cap : UInt8) : UInt8 := (c (dwordOf cap) >>> 8).toUInt8

/-- The offset that it goes on with. -/
def follow (cap : UInt8) : UInt8 := (c (dwordOf cap) >>> 20).toUInt8

/-- The offsets whose headers the loop compares from `cap` on if none of them matches. -/
def passes : Nat → UInt8 → List UInt8
  | 0, _ => []
  | turns + 1, cap =>
      if (c (dwordOf cap)).toUInt8 = 0 then []
      else cap :: if follow c cap < 0x40 then [] else passes turns (follow c cap)

end Capabilities

theorem and_low_byte (x : UInt32) : x &&& 0xFF = x.toUInt8.toUInt32 := by
  apply UInt32.toNat_inj.mp
  rw [UInt32.toNat_and, UInt8.toNat_toUInt32, UInt32.toNat_toUInt8]
  exact Nat.and_two_pow_sub_one_eq_mod x.toNat 8

theorem toUInt32_inj {x y : UInt8} : x.toUInt32 = y.toUInt32 ↔ x = y := by
  rw [← UInt32.toNat_inj, ← UInt8.toNat_inj, UInt8.toNat_toUInt32, UInt8.toNat_toUInt32]

/-- The loop returns the first offset on its way that it takes for a match. -/
theorem findCapLoop_eq (l : Location) (capType : UInt8) (turns : Nat) (cap : UInt8) (m : Machine) :
    (findCapLoop l capType turns cap m).1 =
      ((passes (m.config l) turns cap).find? fun cap =>
        compared (m.config l) cap = capType).getD 0 := by
  induction turns generalizing cap m with
  | zero => rfl
  | succ turns ih =>
      obtain ⟨w, hw⟩ : ∃ w, m.config l (dwordOf cap) = w := ⟨_, rfl⟩
      have hcompared : compared (m.config l) cap = (w >>> 8).toUInt8 := by rw [compared, hw]
      have hfollow : follow (m.config l) cap = (w >>> 20).toUInt8 := by rw [follow, hw]
      have hzero : (0 : UInt32) = (0 : UInt8).toUInt32 := rfl
      rw [findCapLoop, pciReadConfig_bind, passes, hw, hfollow]
      simp only [and_low_byte, hzero, toUInt32_inj, UInt8.toUInt8_toUInt32]
      by_cases hend : w.toUInt8 = 0
      · rw [if_pos hend, if_pos hend]
        rfl
      · rw [if_neg hend, if_neg hend, List.find?_cons, hcompared]
        by_cases hmatch : (w >>> 8).toUInt8 = capType
        · rw [if_pos hmatch, decide_eq_true hmatch]
          rfl
        · rw [if_neg hmatch, decide_eq_false hmatch]
          by_cases hlow : (w >>> 20).toUInt8 < 0x40
          · rw [if_pos hlow, if_pos hlow]
            rfl
          · rw [if_neg hlow, if_neg hlow]
            exact ih _ ⟨configAddress l cap, m.config⟩

section First

variable {xs : List UInt8} {p : UInt8 → Bool}

theorem find_getD_mem (h : (xs.find? p).getD 0 ≠ 0) :
    (xs.find? p).getD 0 ∈ xs ∧ p ((xs.find? p).getD 0) = true := by
  cases hfind : xs.find? p with
  | none =>
      rw [hfind] at h
      exact absurd rfl h
  | some x => exact ⟨List.mem_of_find?_eq_some hfind, List.find?_some hfind⟩

theorem find_getD_eq_zero_iff (hxs : ∀ x ∈ xs, x ≠ 0) :
    (xs.find? p).getD 0 = 0 ↔ ∀ x ∈ xs, p x = false := by
  constructor
  · intro hzero
    cases hfind : xs.find? p with
    | none => exact fun x hx => Bool.eq_false_of_not_eq_true (List.find?_eq_none.mp hfind x hx)
    | some x =>
        rw [hfind] at hzero
        exact absurd hzero (hxs x (List.mem_of_find?_eq_some hfind))
  · intro hnone
    rw [List.find?_eq_none.mpr fun x hx => Bool.eq_false_iff.mp (hnone x hx)]
    rfl

end First

section Passes

variable {c : Registers}

theorem le_of_mem_passes {turns : Nat} {cap x : UInt8} (hcap : 0x40 ≤ cap)
    (hx : x ∈ passes c turns cap) : 0x40 ≤ x := by
  induction turns generalizing cap with
  | zero => exact absurd hx List.not_mem_nil
  | succ turns ih =>
      rw [passes] at hx
      split at hx
      · exact absurd hx List.not_mem_nil
      · rcases List.mem_cons.mp hx with rfl | hx
        · exact hcap
        · split at hx
          · exact absurd hx List.not_mem_nil
          · rename_i hhigh
            exact ih (UInt8.not_lt.mp hhigh) hx

/-- The byte that the loop compares is the next pointer. -/
theorem compared_of_aligned {cap : UInt8} (haligned : cap.toNat % 4 = 0) :
    compared c cap = byteAt c (cap + 1) := by
  have hlt := cap.toNat_lt
  have hnext : (cap + 1).toNat = cap.toNat + 1 := by
    rw [UInt8.toNat_add]
    exact Nat.mod_eq_of_lt (by change cap.toNat + 1 < 256; omega)
  have hdword : dwordOf (cap + 1) = dwordOf cap := by
    apply Fin.ext
    rw [dwordOf, dwordOf]
    dsimp only
    omega
  have hindex : (cap + 1).toNat % 4 = 1 := by omega
  rw [compared, byteAt, hdword, hindex]
  rfl

/-- A next pointer is no type. -/
theorem CapabilityList.compared_ne (list : CapabilityList c) {cap capType : UInt8}
    (hcap : cap ∈ list.caps) (htype : capType ∈ capTypes) : compared c cap ≠ capType := by
  have hsmall : ∀ t ∈ capTypes, 0 < t.toNat ∧ t.toNat < 0x40 := by
    simp only [capTypes, List.forall_mem_cons, List.not_mem_nil, false_imp_iff, implies_true,
      and_true]
    decide
  obtain ⟨hpos, hlt⟩ := hsmall capType htype
  rw [compared_of_aligned (list.aligned cap hcap)]
  rintro rfl
  rcases list.chain.next_mem hcap with hstop | hmem
  · rw [hstop] at hpos
    exact absurd hpos (by decide)
  · have hhigh := list.high _ hmem
    omega

end Passes

/-! ## What is found -/

/-- `virtio_find_cap` finds the first capability of a type only if there is none, and no header on
its own way has the type for byte 1. -/
theorem virtio_find_cap_iff (l : Location) (m : Machine) (list : CapabilityList (m.config l))
    {capType : UInt8} (htype : capType ∈ capTypes) :
    (virtioFindCap l capType m).1 = list.find capType ↔
      (∀ cap ∈ list.caps, ¬ Provides (m.config l) capType cap) ∧
        ∀ cap ∈ passes (m.config l) 48 0x41, compared (m.config l) cap ≠ capType := by
  have hpasses : ∀ cap ∈ passes (m.config l) 48 0x41, cap ≠ 0 := by
    rintro cap hcap rfl
    exact absurd (le_of_mem_passes (by decide) hcap) (by decide)
  have hcaps : ∀ cap ∈ list.caps, cap ≠ 0 := by
    rintro cap hcap rfl
    exact absurd (list.high 0 hcap) (by decide)
  have hresult := findCapLoop_eq l capType 48 0x41 m
  have hzero := find_getD_eq_zero_iff hpasses (p := fun cap => compared (m.config l) cap = capType)
  have hfind := find_getD_eq_zero_iff hcaps (p := fun cap => Provides (m.config l) capType cap)
  simp only [decide_eq_false_iff_not] at hzero hfind
  rw [← hresult] at hzero
  rw [virtioFindCap, CapabilityList.find, ← hzero, ← hfind]
  constructor
  · intro heq
    by_cases hreturned : (findCapLoop l capType 48 0x41 m).1 = 0
    · exact ⟨heq ▸ hreturned, hreturned⟩
    · -- what is returned would be in the list
      have hmatch := find_getD_mem (hresult ▸ hreturned)
      have hmem := find_getD_mem (heq ▸ hreturned)
      rw [← hresult, heq, decide_eq_true_iff] at hmatch
      exact absurd hmatch.2 (list.compared_ne hmem.1 htype)
  · rintro ⟨hnone, hreturned⟩
    rw [hnone, hreturned]

/-- A function with no capabilities. -/
def noCapabilities : CapabilityList fun _ => 0 where
  caps := []
  chain := rfl
  aligned _ hcap := absurd hcap List.not_mem_nil
  high _ hcap := absurd hcap List.not_mem_nil
  length := Nat.zero_le 48

theorem virtio_find_cap_none :
    (virtioFindCap ⟨0, 0, 0⟩ VIRTIO_PCI_CAP_COMMON_CFG ⟨0, fun _ _ => 0⟩).1 =
      noCapabilities.find VIRTIO_PCI_CAP_COMMON_CFG := by
  have hpasses : passes (fun _ => 0) 48 0x41 = [] := by decide
  refine (virtio_find_cap_iff ⟨0, 0, 0⟩ ⟨0, fun _ _ => 0⟩ noCapabilities (by decide)).mpr ?_
  refine ⟨fun cap hcap => absurd hcap List.not_mem_nil, fun cap hcap => ?_⟩
  rw [hpasses] at hcap
  exact absurd hcap List.not_mem_nil

/-- A function with the common configuration at 0x40, and no other capability. -/
def commonOnly : Registers := fun r =>
  if r = 13 then 0x00000040 else if r = 16 then 0x01100009 else 0

theorem commonOnly_chain :
    Chain.Ends (fun cap => byteAt commonOnly (cap + 1)) 0 (byteAt commonOnly 0x34) [0x40] :=
  ⟨by decide, by decide, show byteAt commonOnly 0x41 = 0 by decide⟩

theorem commonOnly_cap {cap : UInt8} (hcap : cap ∈ [0x40]) :
    cap.toNat % 4 = 0 ∧ 0x40 ≤ cap.toNat := by
  rw [List.mem_singleton.mp hcap]
  decide

def commonCapability : CapabilityList commonOnly where
  caps := [0x40]
  chain := commonOnly_chain
  aligned _ hcap := (commonOnly_cap hcap).1
  high _ hcap := (commonOnly_cap hcap).2
  length := Nat.le_add_left 1 47

theorem virtio_find_cap_missed :
    commonCapability.find VIRTIO_PCI_CAP_COMMON_CFG = 0x40 ∧
      (virtioFindCap ⟨0, 0, 0⟩ VIRTIO_PCI_CAP_COMMON_CFG ⟨0, fun _ => commonOnly⟩).1 = 0 := by
  decide

end OmniOS.Virtio
