import Mathlib.Algebra.Group.Nat.Defs
import Mathlib.Data.List.Basic

/-!
# FourLevel — 48-bit addresses as four 9-bit indices

The index arithmetic of four-level page tables with 4 KiB pages and 512 entries
per table. Bits 12 to 47 of an address select the page: two addresses have the
same indices exactly when they agree there (`indices_eq_iff`).
The second half is about words that keep an address and attribute bits apart
with a mask.
-/

namespace FourLevel

/-- The 9-bit index found `shift` bits up in the address. -/
def index (virt shift : UInt64) : Fin 512 :=
  ⟨((virt >>> shift) &&& 0x1FF).toNat, by
    rw [UInt64.toNat_and]
    exact Nat.lt_of_le_of_lt Nat.and_le_right (by decide)⟩

/-- The indices of the three upper levels. -/
def path (virt : UInt64) : List (Fin 512) := [index virt 39, index virt 30, index virt 21]

/-- The index into the last level. -/
def slot (virt : UInt64) : Fin 512 := index virt 12

/-- Bits 12 to 47: the number of the page. -/
def page (virt : UInt64) : Nat := virt.toNat / 4096 % 2 ^ 36

theorem index_val (virt shift : UInt64) (h : shift.toNat < 64) :
    (index virt shift).val = virt.toNat / 2 ^ shift.toNat % 512 := by
  have hmask : (0x1FF : UInt64).toNat = 2 ^ 9 - 1 := rfl
  show ((virt >>> shift) &&& 0x1FF).toNat = _
  rw [UInt64.toNat_and, UInt64.toNat_shiftRight, hmask, Nat.and_two_pow_sub_one_eq_mod,
    Nat.mod_eq_of_lt h, Nat.shiftRight_eq_div_pow]

/-- The indices determine the page and nothing else. -/
theorem indices_eq_iff (v w : UInt64) :
    path v = path w ∧ slot v = slot w ↔ page v = page w := by
  have hv (k : UInt64) (hk : k.toNat < 64) := index_val v k hk
  have hw (k : UInt64) (hk : k.toNat < 64) := index_val w k hk
  simp only [path, slot, List.cons.injEq, and_true, Fin.ext_iff,
    hv 39 (by decide), hv 30 (by decide), hv 21 (by decide), hv 12 (by decide),
    hw 39 (by decide), hw 30 (by decide), hw 21 (by decide), hw 12 (by decide), page]
  simp only [UInt64.reduceToNat]
  omega

theorem page_of_lt {virt : UInt64} (h : virt.toNat < 2 ^ 48) : page virt = virt.toNat / 4096 := by
  unfold page
  omega

/-! ## Masks -/

/-- A mask that keeps every bit of `x` keeps `x`. -/
theorem and_eq_self_of_testBit {x mask : UInt64}
    (h : ∀ i, x.toNat.testBit i = true → mask.toNat.testBit i = true) : x &&& mask = x := by
  apply UInt64.toNat_inj.mp
  rw [UInt64.toNat_and]
  apply Nat.eq_of_testBit_eq
  intro i
  rw [Nat.testBit_and]
  rcases hx : x.toNat.testBit i with _ | _
  · rfl
  · rw [h i hx]
    rfl

theorem testBit_of_aligned {x : UInt64} (h : x.toNat % 4096 = 0) {i : Nat}
    (hi : x.toNat.testBit i = true) : 12 ≤ i := by
  by_contra hlt
  have hlow : (x.toNat % 2 ^ 12).testBit i = true := by
    rw [Nat.testBit_mod_two_pow, hi]
    simp only [Bool.and_true, decide_eq_true_eq]
    omega
  have hmod : x.toNat % 2 ^ 12 = 0 := h
  rw [hmod, Nat.zero_testBit] at hlow
  cases hlow

theorem testBit_lt {x n i : Nat} (h : x < 2 ^ n) (hi : x.testBit i = true) : i < n := by
  have hle : 2 ^ i ≤ x := Nat.ge_two_pow_of_testBit hi
  exact (Nat.pow_lt_pow_iff_right Nat.one_lt_two).mp (Nat.lt_of_le_of_lt hle h)

theorem or_and (x y mask : UInt64) : (x ||| y) &&& mask = (x &&& mask) ||| (y &&& mask) := by
  apply UInt64.toNat_inj.mp
  simp only [UInt64.toNat_and, UInt64.toNat_or, Nat.and_or_distrib_right]

/-- Attribute bits outside the mask do not disturb an address inside it. -/
theorem or_and_mask {x low mask : UInt64} (hx : x &&& mask = x) (hlow : low &&& ~~~mask = low) :
    (x ||| low) &&& mask = x := by
  have hzero : low &&& mask = 0 := by
    rw [← hlow, UInt64.and_assoc, UInt64.not_and_self, UInt64.and_zero]
  rw [or_and, hx, hzero, UInt64.or_zero]

/-- An address inside the mask does not disturb attribute bits outside it. -/
theorem or_and_not_mask {x low mask : UInt64} (hx : x &&& mask = x)
    (hlow : low &&& ~~~mask = low) : (x ||| low) &&& ~~~mask = low := by
  have hzero : x &&& ~~~mask = 0 := by
    rw [← hx, UInt64.and_assoc, UInt64.and_not_self, UInt64.and_zero]
  rw [or_and, hzero, hlow, UInt64.zero_or]

theorem or_and_ne_zero {x y mask : UInt64} (hy : y &&& mask ≠ 0) : (x ||| y) &&& mask ≠ 0 := by
  intro h
  rw [or_and] at h
  exact hy (UInt64.or_eq_zero_iff.mp h).2

end FourLevel
