import Mathlib.Data.List.Basic
import Mathlib.Tactic.IntervalCases

/-!
# Hex — fixed-width hexadecimal fields in ASCII

`field` writes a number with a fixed number of digits, most significant first,
each letter in a case of its own; reading the digits back from the left gives
the number modulo `16 ^ n` (`foldl_field`).
-/

namespace Hex

/-- The ASCII code of a digit. -/
def char (upper : Bool) (d : Nat) : UInt8 :=
  if d < 10 then UInt8.ofNat (48 + d)
  else if upper then UInt8.ofNat (55 + d) else UInt8.ofNat (87 + d)

/-- The value of an ASCII digit, 0 for any other byte. -/
def value (c : UInt8) : Nat :=
  if 48 ≤ c ∧ c ≤ 57 then c.toNat - 48
  else if 97 ≤ c ∧ c ≤ 102 then c.toNat - 87
  else if 65 ≤ c ∧ c ≤ 70 then c.toNat - 55
  else 0

/-- The last `n` digits of `v`; `upper i` is the case of the digit `i` places from
the left. -/
def field (upper : Nat → Bool) : (n v : Nat) → List UInt8
  | 0, _ => []
  | n + 1, v => field upper n (v / 16) ++ [char (upper n) (v % 16)]

theorem value_char (upper : Bool) {d : Nat} (h : d < 16) : value (char upper d) = d := by
  cases upper <;> interval_cases d <;> rfl

theorem char_ne_zero (upper : Bool) {d : Nat} (h : d < 16) : char upper d ≠ 0 := by
  cases upper <;> interval_cases d <;> decide

theorem value_lt (c : UInt8) : value c < 16 := by
  have hall : ∀ n < 256, value (UInt8.ofNat n) < 16 := by decide +kernel
  have hc := hall c.toNat c.toNat_lt
  rwa [UInt8.ofNat_toNat] at hc

theorem length_field (upper : Nat → Bool) (n v : Nat) : (field upper n v).length = n := by
  induction n generalizing v with
  | zero => rfl
  | succ n ih => rw [field, List.length_append, ih, List.length_singleton]

theorem field_ne_zero (upper : Nat → Bool) (n v : Nat) : ∀ c ∈ field upper n v, c ≠ 0 := by
  induction n generalizing v with
  | zero => simp [field]
  | succ n ih =>
      intro c hc
      rcases List.mem_append.mp hc with hc | hc
      · exact ih (v / 16) c hc
      · rw [List.mem_singleton.mp hc]
        exact char_ne_zero (upper n) (Nat.mod_lt v (by decide))

/-- The digits read from the left. -/
theorem foldl_field (upper : Nat → Bool) (n v : Nat) :
    (field upper n v).foldl (fun acc c => acc * 16 + value c) 0 = v % 16 ^ n := by
  induction n generalizing v with
  | zero => simp [field, Nat.mod_one]
  | succ n ih =>
      have hdigit : v % 16 < 16 := Nat.mod_lt v (by decide)
      rw [field, List.foldl_append, ih, List.foldl_cons, List.foldl_nil, value_char _ hdigit,
        pow_succ', Nat.mod_mul]
      omega

end Hex
