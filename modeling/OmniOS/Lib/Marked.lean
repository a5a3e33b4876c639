import Mathlib.Data.List.FinRange
import Mathlib.Data.List.Perm.Basic
import Mathlib.Logic.Function.Basic

/-!
# Marked — a table whose entries are marked as used or unused

Entries are taken and given back by setting and clearing a mark; an unused entry keeps what
was last written to it. `used` is what the marked entries hold, in the order of the table.

Writing one entry changes `used` by at most that entry: marking one that was not marked adds
it (`used_mark`), clearing one that was removes it (`used_clear`), and clearing one that was
not marked changes nothing (`used_clear_unmarked`).
-/

namespace Marked

variable {α β : Type*} {n : Nat} {mark : α → Bool} {view : α → β}

/-- What the marked entries hold. -/
def used (mark : α → Bool) (view : α → β) (t : Fin n → α) : List β :=
  ((List.finRange n).filter fun i => mark (t i)).map fun i => view (t i)

theorem used_eq_nil {t : Fin n → α} (h : ∀ i, mark (t i) = false) : used mark view t = [] := by
  simp [used, h]

/-- The entries other than `i`. -/
def others (mark : α → Bool) (view : α → β) (t : Fin n → α) (i : Fin n) : List β :=
  (((List.finRange n).erase i).filter fun j => mark (t j)).map fun j => view (t j)

/-- Entry `i`, if it is marked, and the others. -/
theorem used_perm (mark : α → Bool) (view : α → β) (t : Fin n → α) (i : Fin n) :
    (used mark view t).Perm
      (if mark (t i) then view (t i) :: others mark view t i else others mark view t i) := by
  have hperm : (List.finRange n).Perm (i :: (List.finRange n).erase i) :=
    List.perm_cons_erase (List.mem_finRange i)
  have hused := ((hperm.filter fun j => mark (t j)).map fun j => view (t j))
  rw [List.filter_cons] at hused
  split at hused
  · next hmark =>
      rw [if_pos hmark]
      exact hused
  · next hmark =>
      rw [if_neg hmark]
      exact hused

theorem others_update (t : Fin n → α) (i : Fin n) (a : α) :
    others mark view (Function.update t i a) i = others mark view t i := by
  have hne : ∀ j ∈ (List.finRange n).erase i, Function.update t i a j = t j := by
    intro j hj
    refine Function.update_of_ne ?_ _ _
    rintro rfl
    exact (List.nodup_finRange n).not_mem_erase hj
  unfold others
  rw [List.filter_congr fun j hj => congrArg mark (hne j hj)]
  refine List.map_congr_left ?_
  intro j hj
  rw [hne j (List.mem_of_mem_filter hj)]

section Writes

variable {t : Fin n → α} {i : Fin n} {a : α}

theorem used_mark (hfree : mark (t i) = false) (ha : mark a = true) :
    (used mark view (Function.update t i a)).Perm (view a :: used mark view t) := by
  have hafter := used_perm mark view (Function.update t i a) i
  have hbefore := used_perm mark view t i
  rw [Function.update_self, if_pos ha, others_update] at hafter
  rw [if_neg (by rw [hfree]; exact Bool.false_ne_true)] at hbefore
  exact hafter.trans (hbefore.symm.cons (view a))

theorem used_clear (hmarked : mark (t i) = true) (ha : mark a = false) :
    (used mark view t).Perm (view (t i) :: used mark view (Function.update t i a)) := by
  have hafter := used_perm mark view (Function.update t i a) i
  have hbefore := used_perm mark view t i
  rw [Function.update_self, if_neg (by rw [ha]; exact Bool.false_ne_true), others_update] at hafter
  rw [if_pos hmarked] at hbefore
  exact hbefore.trans (hafter.symm.cons (view (t i)))

theorem used_clear_unmarked (hfree : mark (t i) = false) (ha : mark a = false) :
    (used mark view (Function.update t i a)).Perm (used mark view t) := by
  have hafter := used_perm mark view (Function.update t i a) i
  have hbefore := used_perm mark view t i
  rw [Function.update_self, if_neg (by rw [ha]; exact Bool.false_ne_true), others_update] at hafter
  rw [if_neg (by rw [hfree]; exact Bool.false_ne_true)] at hbefore
  exact hafter.trans hbefore.symm

end Writes

end Marked
