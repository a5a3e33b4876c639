import Mathlib.Logic.Equiv.Fin.Basic

/-!
# LocalApic — requests and service in a local APIC

A vector is requested, then accepted by the processor and in service until an end of
interrupt. The upper four bits of a vector are its priority: a vector is accepted only if its
priority is above those of all vectors in service, and the end of interrupt, which names no
vector, takes the highest vector out of service.

So an end of interrupt always belongs to the vector accepted last (`isr_eoi_accept`), and a
vector whose end of interrupt is left out blocks its own priority for good
(`offer_ne_of_isr`).
-/

namespace LocalApic

/-- The vectors requested and the vectors in service. -/
structure Apic where
  irr : UInt8 → Bool
  isr : UInt8 → Bool

/-- The highest vector of a set. -/
def highest (f : UInt8 → Bool) : Option UInt8 :=
  (Fin.findRev? fun i : Fin UInt8.size => f (UInt8.ofFin i)).map UInt8.ofFin

def priority (v : UInt8) : Nat := v.toNat / 16

namespace Apic

/-- Vectors below 16 are not accepted from anywhere. -/
def request (a : Apic) (v : UInt8) : Apic :=
  if v.toNat < 16 then a else { a with irr := Function.update a.irr v true }

/-- The vector the processor accepts next, if any. -/
def offer (a : Apic) : Option UInt8 :=
  (highest a.irr).bind fun v =>
    match highest a.isr with
    | none => some v
    | some u => if priority u < priority v then some v else none

def accept (a : Apic) (v : UInt8) : Apic where
  irr := Function.update a.irr v false
  isr := Function.update a.isr v true

/-- The end of interrupt. -/
def eoi (a : Apic) : Apic :=
  match highest a.isr with
  | none => a
  | some v => { a with isr := Function.update a.isr v false }

end Apic

theorem highest_eq_some_iff {f : UInt8 → Bool} {v : UInt8} :
    highest f = some v ↔ f v = true ∧ ∀ u, v < u → f u = false := by
  rw [highest, Option.map_eq_some_iff]
  constructor
  · rintro ⟨i, hi, rfl⟩
    obtain ⟨hf, habove⟩ := Fin.findRev?_eq_some_iff.mp hi
    exact ⟨hf, fun u hu => habove u.toFin hu⟩
  · rintro ⟨hf, habove⟩
    exact ⟨v.toFin, Fin.findRev?_eq_some_iff.mpr ⟨hf, fun j hj => habove (UInt8.ofFin j) hj⟩, rfl⟩

theorem highest_eq_none_iff {f : UInt8 → Bool} : highest f = none ↔ ∀ v, f v = false := by
  rw [highest, Option.map_eq_none_iff, Fin.findRev?_eq_none_iff]
  constructor
  · intro h v
    exact h v.toFin
  · intro h i
    exact h (UInt8.ofFin i)

variable {a : Apic} {u v : UInt8}

theorem priority_le (h : u ≤ v) : priority u ≤ priority v :=
  Nat.div_le_div_right (UInt8.le_iff_toNat_le.mp h)

/-- An accepted vector is requested, and above the priorities in service. -/
theorem offer_eq_some (h : a.offer = some v) :
    a.irr v = true ∧ ∀ u, a.isr u = true → priority u < priority v := by
  obtain ⟨w, hw, hrest⟩ := Option.bind_eq_some_iff.mp h
  cases hisr : highest a.isr with
  | none =>
      rw [hisr] at hrest
      cases hrest
      refine ⟨(highest_eq_some_iff.mp hw).1, ?_⟩
      intro u hu
      rw [highest_eq_none_iff.mp hisr u] at hu
      cases hu
  | some x =>
      simp only [hisr] at hrest
      obtain ⟨hlt, hrest⟩ := Option.ite_none_right_eq_some.mp hrest
      cases hrest
      refine ⟨(highest_eq_some_iff.mp hw).1, ?_⟩
      intro u hu
      have hle : u ≤ x := by
        by_contra hnot
        have hfalse := (highest_eq_some_iff.mp hisr).2 u (UInt8.not_le.mp hnot)
        rw [hfalse] at hu
        cases hu
      exact Nat.lt_of_le_of_lt (priority_le hle) hlt

/-- A vector in service keeps every vector of its priority out. -/
theorem offer_ne_of_isr (hisr : a.isr u = true) (hprio : priority v ≤ priority u) :
    a.offer ≠ some v := by
  intro h
  have hlt := (offer_eq_some h).2 u hisr
  omega

/-- The end of interrupt after a vector has been accepted is for that vector. -/
theorem isr_eoi_accept (h : a.offer = some v) : (a.accept v).eoi.isr = a.isr := by
  have habove := (offer_eq_some h).2
  have hnot : a.isr v = false := by
    by_contra hv
    exact Nat.lt_irrefl _ (habove v (Bool.of_not_eq_false hv))
  have hhighest : highest (a.accept v).isr = some v := by
    refine highest_eq_some_iff.mpr ⟨Function.update_self _ _ _, ?_⟩
    intro u hu
    show Function.update a.isr v true u = false
    rw [Function.update_of_ne (UInt8.ne_of_lt hu).symm]
    by_contra hisr
    have hlt := habove u (Bool.of_not_eq_false hisr)
    have hle := priority_le (UInt8.le_of_lt hu)
    omega
  unfold Apic.eoi
  simp only [hhighest]
  show Function.update (Function.update a.isr v true) v false = a.isr
  rw [Function.update_idem, ← hnot, Function.update_eq_self]

end LocalApic
