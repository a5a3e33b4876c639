import Mathlib.Order.Monotone.Basic

/-!
# Spans — a line cut into consecutive spans

Span `k` is `len k` long and starts where span `k - 1` ends (`start`). The loop that
subtracts one length after the other finds the span a number is in (`scan_eq`); such a
number has exactly one span (`unique`).
-/

namespace Spans

variable (len : Nat → Nat)

/-- Where span `k` starts. -/
def start : Nat → Nat
  | 0 => 0
  | k + 1 => start k + len k

/-- From span `k` on, at most `fuel` of them: the span `n` is in, and what is left
of `n`. -/
def scan : (fuel k n : Nat) → Option Nat × Nat
  | 0, _, n => (none, n)
  | fuel + 1, k, n => if n < len k then (some k, n) else scan fuel (k + 1) (n - len k)

variable {len}

theorem start_mono : Monotone (start len) :=
  monotone_nat_of_le_succ fun _ => Nat.le_add_right _ _

/-- `n` is in span `k`. -/
def In (len : Nat → Nat) (n k : Nat) : Prop := start len k ≤ n ∧ n < start len (k + 1)

theorem unique {n j k : Nat} (hj : In len n j) (hk : In len n k) : j = k := by
  -- a span that comes first ends before the other starts
  have hlt {j k : Nat} (hj : In len n j) (hk : In len n k) : ¬ j < k := fun h =>
    absurd (hj.2.trans_le ((start_mono h).trans hk.1)) (Nat.lt_irrefl n)
  exact Nat.le_antisymm (Nat.le_of_not_lt (hlt hk hj)) (Nat.le_of_not_lt (hlt hj hk))

/-- The loop reaches the span. -/
theorem scan_eq {fuel k n j : Nat} (hin : In len (start len k + n) j) (hk : k ≤ j)
    (hfuel : j < k + fuel) : scan len fuel k n = (some j, start len k + n - start len j) := by
  induction fuel generalizing k n with
  | zero => omega
  | succ fuel ih =>
      rw [scan]
      by_cases hlt : n < len k
      · have hhere : In len (start len k + n) k :=
          ⟨Nat.le_add_right _ _, Nat.add_lt_add_left hlt _⟩
        rw [if_pos hlt, unique hin hhere, Nat.add_sub_cancel_left]
      · have hnext : start len (k + 1) + (n - len k) = start len k + n := by
          rw [start]
          omega
        have hne : k ≠ j := by
          rintro rfl
          have hend := hin.2
          rw [start] at hend
          omega
        rw [if_neg hlt, ih (by rwa [hnext]) (by omega) (by omega), hnext]

/-- Numbers below the end of some span are in a span. -/
theorem exists_in {n k : Nat} (hn : n < start len k) : ∃ j, j < k ∧ In len n j := by
  induction k with
  | zero => exact absurd hn (Nat.not_lt_zero n)
  | succ k ih =>
      by_cases hlt : n < start len k
      · rcases ih hlt with ⟨j, hj, hin⟩
        exact ⟨j, Nat.lt_succ_of_lt hj, hin⟩
      · exact ⟨k, Nat.lt_succ_self k, Nat.le_of_not_lt hlt, hn⟩

theorem start_add (j k : Nat) :
    start len (j + k) = start len j + start (fun i => len (j + i)) k := by
  induction k with
  | zero => rfl
  | succ k ih => rw [← Nat.add_assoc, start, ih, Nat.add_assoc, start]

theorem start_mul (c : Nat) (k : Nat) : start (fun i => len i * c) k = start len k * c := by
  induction k with
  | zero => exact (Nat.zero_mul c).symm
  | succ k ih => rw [start, start, ih, Nat.add_mul]

/-- In units of `c`: what comes first is in a span before, or before it in the same span. -/
theorem lt_or_eq_of_lt {c j k d e s t : Nat}
    (h : (start len j + d) * c + s < (start len k + e) * c + t) (he : e < len k) (ht : t < c) :
    j < k ∨ j = k ∧ d * c + s < e * c + t := by
  rw [Nat.add_mul, Nat.add_mul] at h
  rcases Nat.lt_trichotomy j k with hlt | rfl | hgt
  · exact Or.inl hlt
  · exact Or.inr ⟨rfl, by omega⟩
  · have hle : start len k + (e + 1) ≤ start len j :=
      (Nat.add_le_add_left he _).trans (start_mono (Nat.succ_le_of_lt hgt))
    have hmul := Nat.mul_le_mul_right c hle
    rw [Nat.add_mul, Nat.succ_mul] at hmul
    omega

theorem mul_le_start {a : Nat} (h : ∀ i, a ≤ len i) (k : Nat) : a * k ≤ start len k := by
  induction k with
  | zero => exact Nat.le_refl 0
  | succ k ih =>
      rw [start, Nat.mul_succ]
      exact Nat.add_le_add ih (h k)

theorem start_le_mul {a : Nat} (h : ∀ i, len i ≤ a) (k : Nat) : start len k ≤ a * k := by
  induction k with
  | zero => exact Nat.le_refl 0
  | succ k ih =>
      rw [start, Nat.mul_succ]
      exact Nat.add_le_add ih (h k)

end Spans
