import Mathlib.Data.List.Perm.Basic
import Mathlib.Data.Nat.Bitwise
import Mathlib.Logic.Function.Basic

/-!
# Bitmap — a set of numbers packed into bytes

Number `i` is bit `i % 8` of byte `i / 8`. Setting and clearing a bit change the membership of
that number and of no other (`bit_set`, `bit_clear`), and so the number of clear bits below a
bound moves by one (`clearCount_set`, `clearCount_clear`).
-/

namespace Bitmap

/-- The bytes of the map. -/
abbrev Bytes := Nat → UInt8

def mask (i : Nat) : UInt8 := (1 : UInt8) <<< UInt8.ofNat (i % 8)

def bit (m : Bytes) (i : Nat) : Bool := m (i / 8) &&& mask i != 0

def set (m : Bytes) (i : Nat) : Bytes := Function.update m (i / 8) (m (i / 8) ||| mask i)

def clear (m : Bytes) (i : Nat) : Bytes := Function.update m (i / 8) (m (i / 8) &&& ~~~mask i)

/-- How many of the first `n` bits are clear. -/
def clearCount (m : Bytes) (n : Nat) : Nat := (List.range n).countP fun i => !bit m i

/-! ## One bit -/

theorem mask_toNat (i : Nat) : (mask i).toNat = 2 ^ (i % 8) := by
  have hpow : ∀ k < 8, ((1 : UInt8) <<< UInt8.ofNat k).toNat = 2 ^ k := by decide
  exact hpow (i % 8) (Nat.mod_lt i (by decide))

theorem not_mask_testBit (i : Nat) {k : Nat} (hk : k < 8) :
    (~~~mask i).toNat.testBit k = !decide (k = i % 8) := by
  have hbits : ∀ l < 8, ∀ k < 8,
      (~~~((1 : UInt8) <<< UInt8.ofNat l)).toNat.testBit k = !decide (k = l) := by decide
  exact hbits (i % 8) (Nat.mod_lt i (by decide)) k hk

theorem bit_eq_testBit (m : Bytes) (i : Nat) : bit m i = (m (i / 8)).toNat.testBit (i % 8) := by
  have hzero : m (i / 8) &&& mask i = 0 ↔ (m (i / 8)).toNat.testBit (i % 8) = false := by
    rw [← UInt8.toNat_inj, UInt8.toNat_and, mask_toNat, Nat.and_two_pow]
    cases (m (i / 8)).toNat.testBit (i % 8) with
    | false => simp
    | true => simp
  unfold bit
  cases hbit : (m (i / 8)).toNat.testBit (i % 8) with
  | false =>
      rw [hzero.mpr hbit]
      rfl
  | true =>
      have hne : m (i / 8) &&& mask i ≠ 0 := by
        rw [ne_eq, hzero, hbit]
        exact Bool.noConfusion
      exact bne_iff_ne.mpr hne

theorem bit_set (m : Bytes) (i j : Nat) : bit (set m i) j = (decide (j = i) || bit m j) := by
  rw [bit_eq_testBit, bit_eq_testBit]
  unfold set
  by_cases hbyte : j / 8 = i / 8
  · have hnum : j = i ↔ i % 8 = j % 8 := by omega
    rw [hbyte, Function.update_self, UInt8.toNat_or, Nat.testBit_or, mask_toNat,
      Nat.testBit_two_pow, Bool.or_comm]
    simp only [hnum]
  · have hne : j ≠ i := by
      rintro rfl
      exact hbyte rfl
    rw [Function.update_of_ne hbyte, decide_eq_false hne, Bool.false_or]

theorem bit_clear (m : Bytes) (i j : Nat) : bit (clear m i) j = (!decide (j = i) && bit m j) := by
  rw [bit_eq_testBit, bit_eq_testBit]
  unfold clear
  by_cases hbyte : j / 8 = i / 8
  · have hnum : j = i ↔ j % 8 = i % 8 := by omega
    rw [hbyte, Function.update_self, UInt8.toNat_and, Nat.testBit_and,
      not_mask_testBit i (Nat.mod_lt j (by decide)), Bool.and_comm]
    simp only [hnum]
  · have hne : j ≠ i := by
      rintro rfl
      exact hbyte rfl
    rw [Function.update_of_ne hbyte, decide_eq_false hne, Bool.not_false, Bool.true_and]

/-! ## Counting -/

/-- Two tests that differ at one element of the list only. -/
theorem countP_eq_add_one {p q : Nat → Bool} {i : Nat} {l : List Nat} (hi : i ∈ l) (hl : l.Nodup)
    (hp : p i = true) (hq : q i = false) (h : ∀ j, j ≠ i → p j = q j) :
    l.countP p = l.countP q + 1 := by
  have hperm := List.perm_cons_erase hi
  have hrest : (l.erase i).countP p = (l.erase i).countP q := by
    apply List.countP_congr
    intro j hj
    have hne : j ≠ i := by
      rintro rfl
      exact hl.not_mem_erase hj
    rw [h j hne]
  rw [hperm.countP_eq p, hperm.countP_eq q, List.countP_cons_of_pos hp, hrest,
    List.countP_cons_of_neg (by rw [hq]; exact Bool.false_ne_true)]

section Counting

variable {m : Bytes} {i n : Nat}

theorem clearCount_set (hi : i < n) (hclear : bit m i = false) :
    clearCount m n = clearCount (set m i) n + 1 := by
  refine countP_eq_add_one (List.mem_range.mpr hi) List.nodup_range ?_ ?_ ?_
  · rw [hclear]
    rfl
  · simp [bit_set]
  · intro j hj
    simp [bit_set, hj]

theorem clearCount_clear (hi : i < n) (hset : bit m i = true) :
    clearCount (clear m i) n = clearCount m n + 1 := by
  refine countP_eq_add_one (List.mem_range.mpr hi) List.nodup_range ?_ ?_ ?_
  · simp [bit_clear]
  · rw [hset]
    rfl
  · intro j hj
    simp [bit_clear, hj]

theorem clearCount_le (m : Bytes) (n : Nat) : clearCount m n ≤ n := by
  have hle := List.countP_le_length (p := fun i => !bit m i) (l := List.range n)
  rwa [List.length_range] at hle

theorem clearCount_eq_zero (h : ∀ i < n, bit m i = true) : clearCount m n = 0 := by
  refine List.countP_eq_zero.mpr fun i hi => ?_
  rw [h i (List.mem_range.mp hi)]
  exact Bool.false_ne_true

/-- There is a clear bit to find as long as one is counted. -/
theorem exists_clear (h : 0 < clearCount m n) :
    ∃ i, ((List.range n).find? fun i => !bit m i) = some i := by
  obtain ⟨i, hi, hclear⟩ := List.countP_pos_iff.mp h
  cases hfind : (List.range n).find? fun i => !bit m i with
  | some j => exact ⟨j, rfl⟩
  | none => exact absurd hclear (List.find?_eq_none.mp hfind i hi)

end Counting

end Bitmap
