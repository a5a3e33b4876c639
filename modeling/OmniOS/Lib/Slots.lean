import Mathlib.Data.List.FinRange
import Mathlib.Data.List.Perm.Basic
import Mathlib.Logic.Function.Basic

/-!
# Slots — a table kept in the first `count` slots of an array

The usual way to keep a set of records in a fixed array: a new record goes to
the first slot after the used ones, and a record is removed by moving the last
one into its place. Slots from `count` on keep what was last written there.

`items` is the table as a list. Appending appends (`items_push`); removal
changes the order, so it is stated up to permutation (`items_removeAt`).
-/

/-- An array of `n` slots, the first `count` of them in use. -/
structure Slots (α : Type*) (n : Nat) where
  slot : Fin n → α
  count : Nat
  count_le : count ≤ n

namespace Slots

variable {α : Type*} {n : Nat}

/-- All slots hold `a`, none is in use. -/
def empty (a : α) : Slots α n := ⟨fun _ => a, 0, Nat.zero_le n⟩

/-- The slot with used index `i`. -/
def get (s : Slots α n) (i : Fin s.count) : α := s.slot (i.castLE s.count_le)

/-- The used slots in order. -/
def items (s : Slots α n) : List α := List.ofFn s.get

/-- Put `a` into the first unused slot. -/
def push (s : Slots α n) (h : s.count < n) (a : α) : Slots α n where
  slot := Function.update s.slot ⟨s.count, h⟩ a
  count := s.count + 1
  count_le := h

/-- Move the last used slot to index `i` and drop it at the end. -/
def removeAt (s : Slots α n) (i : Fin s.count) : Slots α n where
  slot := Function.update s.slot (i.castLE s.count_le) (s.get ⟨s.count - 1, Nat.sub_lt i.pos Nat.one_pos⟩)
  count := s.count - 1
  count_le := (Nat.sub_le _ _).trans s.count_le

/-- The first used index whose slot satisfies `p`. -/
def findIdx? (s : Slots α n) (p : α → Bool) : Option (Fin s.count) :=
  (List.finRange s.count).find? fun i => p (s.get i)

@[simp] theorem items_empty (a : α) : (empty a : Slots α n).items = [] := rfl

@[simp] theorem length_items (s : Slots α n) : s.items.length = s.count := by
  simp [items]

theorem get_mem_items (s : Slots α n) (i : Fin s.count) : s.get i ∈ s.items :=
  List.mem_ofFn.mpr ⟨i, rfl⟩

theorem getElem_items (s : Slots α n) (i : Nat) (h : i < s.items.length) :
    s.items[i] = s.get ⟨i, by simpa using h⟩ := by
  simp [items]

theorem items_push (s : Slots α n) (h : s.count < n) (a : α) :
    (s.push h a).items = s.items ++ [a] := by
  refine List.ext_getElem (by simp [push]) fun i hi hi' => ?_
  rw [getElem_items, List.getElem_append]
  split
  next hlt =>
    rw [getElem_items]
    rw [length_items] at hlt
    exact Function.update_of_ne (fun heq => absurd (congrArg Fin.val heq) (Nat.ne_of_lt hlt)) _ _
  next hge =>
    have hlast : i = s.count := by
      simp only [List.length_append, length_items, List.length_singleton] at hi' hge
      omega
    subst hlast
    have hitem : (s.push h a).get ⟨s.count, by simp [push]⟩ = a := Function.update_self _ _ _
    rw [hitem, List.getElem_singleton]

/-- Removing index `i` is overwriting it with the last item and dropping the
last one. -/
theorem items_removeAt_eq (s : Slots α n) (i : Fin s.count) :
    (s.removeAt i).items =
      (s.items.set i (s.get ⟨s.count - 1, Nat.sub_lt i.pos Nat.one_pos⟩)).dropLast := by
  refine List.ext_getElem (by simp [removeAt]) fun j hj hj' => ?_
  rw [getElem_items, List.getElem_dropLast, List.getElem_set]
  split
  next hij =>
    subst hij
    exact Function.update_self _ _ _
  next hij =>
    rw [getElem_items]
    exact Function.update_of_ne (fun heq => hij (congrArg Fin.val heq).symm) _ _

theorem perm_getElem_cons_set_getLast {l : List α} (hne : l ≠ []) {i : Nat} (hi : i < l.length) :
    l.Perm (l[i] :: (l.set i (l.getLast hne)).dropLast) := by
  obtain ⟨init, x, rfl⟩ := (List.eq_nil_or_concat' l).resolve_left hne
  rw [List.getLast_append_singleton]
  by_cases hlt : i < init.length
  · rw [List.set_append_left _ _ hlt, List.dropLast_concat, List.getElem_append_left hlt]
    have hset : (init.set i x).Perm (x :: init.eraseIdx i) := List.set_perm_cons_eraseIdx hlt x
    have hget : (init[i] :: init.eraseIdx i).Perm init := List.getElem_cons_eraseIdx_perm hlt
    calc (init ++ [x]).Perm (x :: init) := List.perm_append_singleton x init
      _ |>.Perm (x :: init[i] :: init.eraseIdx i) := hget.symm.cons x
      _ |>.Perm (init[i] :: x :: init.eraseIdx i) := List.Perm.swap _ _ _
      _ |>.Perm (init[i] :: init.set i x) := hset.symm.cons _
  · -- the last item itself
    have hlast : i = init.length := by
      rw [List.length_append, List.length_singleton] at hi
      omega
    subst hlast
    simp

/-- Removing one item removes it and keeps all others. -/
theorem items_removeAt (s : Slots α n) (i : Fin s.count) :
    s.items.Perm (s.get i :: (s.removeAt i).items) := by
  have hne : s.items ≠ [] := List.ne_nil_of_length_pos (by rw [length_items]; exact i.pos)
  have hi : i.val < s.items.length := by simp
  have hlast : s.items.getLast hne = s.get ⟨s.count - 1, Nat.sub_lt i.pos Nat.one_pos⟩ := by
    rw [List.getLast_eq_getElem, getElem_items]
    simp
  have hitem : s.items[i.val] = s.get i := getElem_items s i hi
  rw [items_removeAt_eq, ← hlast, ← hitem]
  exact perm_getElem_cons_set_getLast hne hi

/-- Removing index `i` leaves the items before it alone. -/
theorem take_items_removeAt (s : Slots α n) (i : Fin s.count) :
    (s.removeAt i).items.take i = s.items.take i := by
  have hi := i.isLt
  rw [items_removeAt_eq, List.dropLast_eq_take, List.take_take, List.length_set, length_items,
    Nat.min_eq_left (by omega), List.take_set_of_le (Nat.le_refl _)]

/-- The items from index `i` on are those that were behind it. -/
theorem drop_items_removeAt (s : Slots α n) (i : Fin s.count) :
    ((s.removeAt i).items.drop i).Perm (s.items.drop (i + 1)) := by
  have hi : i.val < s.items.length := by simp
  have hsplit : s.items.take i ++ s.get i :: s.items.drop (i + 1) = s.items := by
    rw [← getElem_items s i hi, ← List.drop_eq_getElem_cons hi, List.take_append_drop]
  have hrest : s.items.take i ++ (s.removeAt i).items.drop i = (s.removeAt i).items := by
    rw [← take_items_removeAt, List.take_append_drop]
  have hcons : (s.get i :: (s.items.take i ++ s.items.drop (i + 1))).Perm
      (s.get i :: (s.items.take i ++ (s.removeAt i).items.drop i)) := by
    rw [hrest]
    refine List.perm_middle.symm.trans ?_
    rw [hsplit]
    exact s.items_removeAt i
  exact ((List.perm_append_left_iff _).mp hcons.cons_inv).symm

/-- The search stops at an item that satisfies the test. -/
theorem findIdx?_some {s : Slots α n} {p : α → Bool} {i : Fin s.count}
    (h : s.findIdx? p = some i) : p (s.get i) = true :=
  List.find?_some (p := fun i => p (s.get i)) h

theorem findIdx?_eq_none {s : Slots α n} {p : α → Bool} :
    s.findIdx? p = none ↔ ∀ a ∈ s.items, p a = false := by
  simp [findIdx?, items, List.mem_ofFn]

/-- The search by index finds what the search by item finds. -/
theorem find?_items (s : Slots α n) (p : α → Bool) :
    s.items.find? p = (s.findIdx? p).map s.get := by
  rw [items, findIdx?, List.ofFn_eq_map, List.find?_map]
  rfl

end Slots
