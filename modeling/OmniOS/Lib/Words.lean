import Mathlib.Algebra.Group.Nat.Defs
import Mathlib.Data.List.Basic

/-!
# Words — rounding words to powers of two, and fields of words

`x & ~(2^k - 1)` rounds down to a multiple of `2^k`, and `(x + 2^k - 1) & ~(2^k - 1)` rounds up
as long as the sum does not wrap; when it does, the result is 0. Fields that are shifted to
their places and joined with `|` add up; so do the two halves of a 64-bit word.
-/

namespace Words

/-- A mask of the bits from `k` on rounds down. -/
theorem and_mask {w k x mask : Nat} (hx : x < 2 ^ w)
    (hmask : ∀ i < w, mask.testBit i = decide (k ≤ i)) : x &&& mask = x / 2 ^ k * 2 ^ k := by
  -- a word has no bits from its width on
  have hbit : ∀ j, w ≤ j → x.testBit j = false := by
    intro j hj
    apply Nat.testBit_lt_two_pow
    exact Nat.lt_of_lt_of_le hx (Nat.pow_le_pow_right (by decide) hj)
  apply Nat.eq_of_testBit_eq
  intro i
  rw [Nat.testBit_and, Nat.testBit_mul_two_pow, Nat.testBit_div_two_pow]
  by_cases hk : k ≤ i
  · rw [Nat.sub_add_cancel hk, decide_eq_true hk, Bool.true_and]
    by_cases hi : i < w
    · rw [hmask i hi, decide_eq_true hk, Bool.and_true]
    · rw [hbit i (by omega), Bool.false_and]
  · rw [decide_eq_false hk, Bool.false_and]
    by_cases hi : i < w
    · rw [hmask i hi, decide_eq_false hk, Bool.and_false]
    · rw [hbit i (by omega), Bool.false_and]

theorem toNat_and_mask_32 {mask : UInt32} {k : Nat}
    (hmask : ∀ i < 32, mask.toNat.testBit i = decide (k ≤ i)) (x : UInt32) :
    (x &&& mask).toNat = x.toNat / 2 ^ k * 2 ^ k := by
  rw [UInt32.toNat_and]
  exact and_mask x.toNat_lt hmask

section Masks

variable {mask : UInt64} {k : Nat} (hmask : ∀ i < 64, mask.toNat.testBit i = decide (k ≤ i))
include hmask

theorem toNat_and_mask (x : UInt64) : (x &&& mask).toNat = x.toNat / 2 ^ k * 2 ^ k := by
  rw [UInt64.toNat_and]
  exact and_mask x.toNat_lt hmask

variable {d : UInt64} (hd : d.toNat = 2 ^ k)
include hd

theorem toNat_round_up {x : UInt64} (hx : x.toNat + 2 ^ k ≤ 2 ^ 64) :
    ((x + d - 1) &&& mask).toNat = (x.toNat + 2 ^ k - 1) / 2 ^ k * 2 ^ k := by
  have hone : (1 : UInt64).toNat = 1 := rfl
  have hpos : 0 < 2 ^ k := Nat.two_pow_pos k
  rw [toNat_and_mask hmask, UInt64.toNat_sub, UInt64.toNat_add, hd, hone]
  congr 2
  omega

/-- A sum that wraps is less than the step. -/
theorem toNat_round_up_wrap {x : UInt64} (hx : 2 ^ 64 < x.toNat + 2 ^ k) :
    ((x + d - 1) &&& mask).toNat = 0 := by
  have hone : (1 : UInt64).toNat = 1 := rfl
  have hlt := x.toNat_lt
  have hd' := d.toNat_lt
  rw [toNat_and_mask hmask, UInt64.toNat_sub, UInt64.toNat_add, hd, hone]
  rw [hd] at hd'
  rw [Nat.div_eq_of_lt (by omega), Nat.zero_mul]

end Masks

/-- A multiple of `2^k` and a word below it have no bit in common. -/
theorem toNat_or_low {x y : UInt64} {k : Nat} (hx : 2 ^ k ∣ x.toNat) (hy : y.toNat < 2 ^ k) :
    (x ||| y).toNat = x.toNat + y.toNat := by
  obtain ⟨q, hq⟩ := hx
  rw [UInt64.toNat_or, hq, Nat.two_pow_add_eq_or_of_lt hy]

/-! ## Fields of a 32-bit word -/

theorem toNat_or_low_32 {x y : UInt32} {k : Nat} (hx : 2 ^ k ∣ x.toNat) (hy : y.toNat < 2 ^ k) :
    (x ||| y).toNat = x.toNat + y.toNat := by
  obtain ⟨q, hq⟩ := hx
  rw [UInt32.toNat_or, hq, Nat.two_pow_add_eq_or_of_lt hy]

/-- The upper half of a word. -/
theorem toNat_high (x : UInt64) : (x >>> 32).toUInt32.toNat = x.toNat / 2 ^ 32 := by
  have hlt := x.toNat_lt
  have hshift : (x >>> 32).toNat = x.toNat / 2 ^ 32 := by
    rw [UInt64.toNat_shiftRight]
    exact Nat.shiftRight_eq_div_pow _ _
  rw [UInt64.toNat_toUInt32, hshift]
  omega

/-- The lower half of a word. -/
theorem toNat_low (x : UInt64) : (x &&& 0xFFFFFFFF).toUInt32.toNat = x.toNat % 2 ^ 32 := by
  have hmask : (0xFFFFFFFF : UInt64).toNat = 2 ^ 32 - 1 := rfl
  rw [UInt64.toNat_toUInt32, UInt64.toNat_and, hmask, Nat.and_two_pow_sub_one_eq_mod, Nat.mod_mod]

/-- Two words make a value. -/
theorem toNat_join (high low : UInt32) :
    (high.toUInt64 <<< 32 ||| low.toUInt64).toNat = high.toNat * 2 ^ 32 + low.toNat := by
  have hhigh := high.toNat_lt
  have hshift : (high.toUInt64 <<< 32).toNat = high.toNat * 2 ^ 32 := by
    have hk : (32 : UInt64).toNat % 64 = 32 := rfl
    rw [UInt64.toNat_shiftLeft, hk, Nat.shiftLeft_eq, UInt32.toNat_toUInt64]
    omega
  rw [toNat_or_low ⟨high.toNat, by rw [hshift, Nat.mul_comm]⟩ low.toNat_lt, hshift,
    UInt32.toNat_toUInt64]

theorem toNat_shiftLeft_32 {x : UInt32} {k : UInt32} (hk : k.toNat < 32)
    (h : x.toNat * 2 ^ k.toNat < 2 ^ 32) : (x <<< k).toNat = x.toNat * 2 ^ k.toNat := by
  rw [UInt32.toNat_shiftLeft, Nat.mod_eq_of_lt hk, Nat.shiftLeft_eq, Nat.mod_eq_of_lt h]

end Words
