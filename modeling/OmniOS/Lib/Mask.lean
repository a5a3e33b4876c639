import Mathlib.Algebra.Group.Nat.Defs
import Mathlib.Data.Nat.Bitwise

/-!
# Mask — a set of small numbers in a word

The usual encoding of a set of numbers below 64: number `i` is in the set if bit
`i` of the word is set. The operations are those a C program writes, `m | 1 << i`
and `m & ~(1 << i)`, and each has one lemma that says what is in the set then.
-/

namespace Mask

/-- `1ULL << i`. -/
def bit (i : Nat) : UInt64 := 1 <<< UInt64.ofNat i

/-- `m & (1ULL << i)`, as a condition. -/
def has (m : UInt64) (i : Nat) : Bool := m &&& bit i != 0

/-- `m | (1ULL << i)`. -/
def insert (m : UInt64) (i : Nat) : UInt64 := m ||| bit i

/-- `m & ~(1ULL << i)`. -/
def erase (m : UInt64) (i : Nat) : UInt64 := m &&& ~~~bit i

variable {m : UInt64} {i j : Nat}

theorem bit_toNat (hi : i < 64) : (bit i).toNat = 2 ^ i := by
  have hshift : (UInt64.ofNat i).toNat % 64 = i := by
    rw [UInt64.toNat_ofNat']
    omega
  have hlt : 2 ^ i < 2 ^ 64 := Nat.pow_lt_pow_right (by decide) hi
  rw [bit, UInt64.toNat_shiftLeft, hshift, UInt64.toNat_one, Nat.one_shiftLeft,
    Nat.mod_eq_of_lt hlt]

theorem has_eq_testBit (hi : i < 64) : has m i = m.toNat.testBit i := by
  have hzero : m &&& bit i = 0 ↔ m.toNat.testBit i = false := by
    rw [← UInt64.toNat_inj, UInt64.toNat_and, bit_toNat hi, Nat.and_two_pow]
    cases m.toNat.testBit i with
    | false => simp
    | true => simp
  rw [Bool.eq_iff_iff, has, bne_iff_ne, ne_eq, hzero, Bool.not_eq_false]

theorem not_bit_testBit (hi : i < 64) (hj : j < 64) :
    (~~~bit i).toNat.testBit j = !decide (j = i) := by
  have hlt : 2 ^ i < 2 ^ 64 := Nat.pow_lt_pow_right (by decide) hi
  rw [UInt64.toNat_not, bit_toNat hi, Nat.sub_sub, Nat.add_comm 1,
    Nat.testBit_two_pow_sub_succ hlt, Nat.testBit_two_pow]
  simp [hj, eq_comm]

@[simp] theorem has_zero (i : Nat) : has 0 i = false := by
  simp [has]

theorem has_insert (hi : i < 64) (hj : j < 64) :
    has (insert m i) j = (has m j || decide (j = i)) := by
  rw [has_eq_testBit hj, has_eq_testBit hj, insert, UInt64.toNat_or, Nat.testBit_or, bit_toNat hi,
    Nat.testBit_two_pow]
  simp [eq_comm]

theorem has_erase (hi : i < 64) (hj : j < 64) :
    has (erase m i) j = (has m j && !decide (j = i)) := by
  rw [has_eq_testBit hj, has_eq_testBit hj, erase, UInt64.toNat_and, Nat.testBit_and,
    not_bit_testBit hi hj]

end Mask
