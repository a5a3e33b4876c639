import Mathlib.Order.Lattice

/-!
# CountLoop — loops that count a 32-bit word up

`for (i = first; i < last && i < limit; i++)`. The two bounds are words, so a loop whose
`last` was computed with overflow may have no turn at all; the counter itself never
overflows. `run_inv` is the invariant rule: it also says that the loop ends.
-/

namespace CountLoop

variable {σ : Type*} {last limit : UInt32} {body : UInt32 → σ → Option σ}

/-- The turns from `i` on; `none` if there are as many as `fuel`. -/
def run (last limit : UInt32) (body : UInt32 → σ → Option σ) : Nat → UInt32 → σ → Option σ
  | 0, _, _ => none
  | fuel + 1, i, s =>
      if i < last ∧ i < limit then (body i s).bind (run last limit body fuel (i + 1)) else some s

/-- What holds before the first turn and is kept by every turn holds at the end. -/
theorem run_inv (P : Nat → σ → Prop)
    (hbody : ∀ i s, i < last → i < limit → P i.toNat s →
      ∃ s', body i s = some s' ∧ P (i.toNat + 1) s')
    {fuel : Nat} {i : UInt32} {s : σ} (hfuel : limit.toNat - i.toNat < fuel) (hinit : P i.toNat s) :
    ∃ s', run last limit body fuel i s = some s' ∧
      P (max i.toNat (min last.toNat limit.toNat)) s' := by
  induction fuel generalizing i s with
  | zero => exact absurd hfuel (Nat.not_lt_zero _)
  | succ fuel ih =>
      rw [run]
      by_cases hturn : i < last ∧ i < limit
      · have hlast := UInt32.lt_iff_toNat_lt.mp hturn.1
        have hlimit := UInt32.lt_iff_toNat_lt.mp hturn.2
        -- below the limit the counter does not wrap
        have hnext : (i + 1).toNat = i.toNat + 1 := by
          have hmax := limit.toNat_lt
          have hone : (1 : UInt32).toNat = 1 := rfl
          rw [UInt32.toNat_add, hone]
          omega
        rcases hbody i s hturn.1 hturn.2 hinit with ⟨s', hs', hP⟩
        rw [← hnext] at hP
        rcases ih (by omega) hP with ⟨s'', hs'', hP'⟩
        have hend : max (i + 1).toNat (min last.toNat limit.toNat) =
            max i.toNat (min last.toNat limit.toNat) := by
          omega
        rw [if_pos hturn, hs', Option.bind_some, ← hend]
        exact ⟨s'', hs'', hP'⟩
      · have hend : max i.toNat (min last.toNat limit.toNat) = i.toNat := by
          rw [UInt32.lt_iff_toNat_lt, UInt32.lt_iff_toNat_lt] at hturn
          omega
        rw [if_neg hturn, hend]
        exact ⟨s, rfl, hinit⟩

end CountLoop
