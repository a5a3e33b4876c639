import Mathlib.Data.List.Basic
import Mathlib.Data.Nat.ModEq
import Mathlib.Algebra.Group.Fin.Basic
import Mathlib.Logic.Function.Basic
import OmniOS.Lib.Fifo

/-!
# Ring — a queue in a circular array

The queue occupies `count` slots of an array of size `n`, from index `head`
on, wrapping at the end. `window` is the queue as a list; the lemmas say what
one write and one move of the ends do to it:

* writing the slot after the last one and counting it appends
  (`window_push`);
* leaving out the first slot drops the head (`window_succ`);
* moving every later slot one down removes an item in the middle
  (`window_eraseIdx`).

A ring that keeps its two ends and no count leaves one slot unused, to tell full
from empty. `between` is its queue, with the same lemmas for its ends
(`between_push`, `between_pop`). A ring that drops what it has no room for is a
queue that accepts while it has room (`Ends.isQueue`). A ring that overwrites moves the tail along when
it is full; its queue is bounded and drops its oldest items
(`between_overwrite`).
-/

namespace Ring

variable {α : Type*} {n : Nat} [NeZero n]

/-- The slots `head`, `head + 1`, ..., `head + count - 1`, indices modulo `n`. -/
def window (f : Fin n → α) (head count : Nat) : List α :=
  (List.range count).map fun i => f (Fin.ofNat n (head + i))

@[simp] theorem length_window (f : Fin n → α) (head count : Nat) :
    (window f head count).length = count := by
  simp [window]

@[simp] theorem window_zero (f : Fin n → α) (head : Nat) : window f head 0 = [] := rfl

theorem getElem_window (f : Fin n → α) (head count i : Nat)
    (hi : i < (window f head count).length) :
    (window f head count)[i] = f (Fin.ofNat n (head + i)) := by
  simp [window]

/-- Different positions of a window of at most `n` slots are different slots. -/
theorem slot_injective {head i j : Nat} (hi : i < n) (hj : j < n)
    (h : Fin.ofNat n (head + i) = Fin.ofNat n (head + j)) : i = j := by
  have hmod : head + i ≡ head + j [MOD n] := congrArg Fin.val h
  have hij : i ≡ j [MOD n] := Nat.ModEq.add_left_cancel' head hmod
  rwa [Nat.ModEq, Nat.mod_eq_of_lt hi, Nat.mod_eq_of_lt hj] at hij

/-- Only the window's own slots matter. -/
theorem window_congr {f g : Fin n → α} {head count : Nat}
    (h : ∀ i < count, g (Fin.ofNat n (head + i)) = f (Fin.ofNat n (head + i))) :
    window g head count = window f head count := by
  refine List.map_congr_left ?_
  intro i hi
  exact h i (List.mem_range.mp hi)

/-- The start index counts modulo `n`. -/
theorem window_mod (f : Fin n → α) (head count : Nat) :
    window f (head % n) count = window f head count := by
  refine List.map_congr_left ?_
  intro i _
  have hslot : Fin.ofNat n (head % n + i) = Fin.ofNat n (head + i) :=
    Fin.ext (Nat.mod_add_mod head n i)
  rw [hslot]

theorem window_succ (f : Fin n → α) (head count : Nat) :
    window f head (count + 1) = f (Fin.ofNat n head) :: window f (head + 1) count := by
  simp only [window, List.range_succ_eq_map, List.map_cons, List.map_map, Nat.add_zero]
  congr 1
  refine List.map_congr_left ?_
  intro i _
  show f (Fin.ofNat n (head + (i + 1))) = f (Fin.ofNat n (head + 1 + i))
  rw [Nat.add_comm i 1, Nat.add_assoc]

theorem window_snoc (f : Fin n → α) (head count : Nat) :
    window f head (count + 1) = window f head count ++ [f (Fin.ofNat n (head + count))] := by
  simp [window, List.range_succ]

/-- Writing the first free slot and counting it in. -/
theorem window_push (f : Fin n → α) (head : Nat) {count : Nat} (a : α) (hcount : count < n) :
    window (Function.update f (Fin.ofNat n (head + count)) a) head (count + 1) =
      window f head count ++ [a] := by
  rw [window_snoc, Function.update_self]
  congr 1
  refine window_congr ?_
  intro i hi
  refine Function.update_of_ne ?_ _ _
  intro heq
  have := slot_injective (Nat.lt_trans hi hcount) hcount heq
  omega

/-- Position `i` is gone when all positions after it have moved down by one. -/
theorem window_eraseIdx {f g : Fin n → α} {head count i : Nat} (hi : i < count)
    (hbelow : ∀ k < i, g (Fin.ofNat n (head + k)) = f (Fin.ofNat n (head + k)))
    (habove : ∀ k, i ≤ k → k + 1 < count →
      g (Fin.ofNat n (head + k)) = f (Fin.ofNat n (head + (k + 1)))) :
    window g head (count - 1) = (window f head count).eraseIdx i := by
  have hlen : i < (window f head count).length := by
    rw [length_window]
    exact hi
  refine List.ext_getElem ?_ ?_
  · rw [List.length_eraseIdx_of_lt hlen, length_window, length_window]
  · intro k hk hk'
    rw [length_window] at hk
    rw [getElem_window, List.getElem_eraseIdx]
    split
    · next hki =>
        rw [getElem_window]
        exact hbelow k hki
    · next hki =>
        rw [getElem_window]
        exact habove k (Nat.le_of_not_lt hki) (by omega)

/-! ## Two ends -/

/-- The slots from `tail` up to `head`, `head` left out. -/
def between (f : Fin n → α) (tail head : Fin n) : List α :=
  window f tail.val (head - tail).val

theorem length_between (f : Fin n → α) (tail head : Fin n) :
    (between f tail head).length = (head - tail).val :=
  length_window _ _ _

omit [NeZero n] in
theorem sub_val (i j : Fin n) :
    (i - j).val = if j.val ≤ i.val then i.val - j.val else n + i.val - j.val := by
  split
  · next hle => exact Fin.coe_sub_iff_le.mpr hle
  · next hlt => exact Fin.coe_sub_iff_lt.mpr (Nat.lt_of_not_le hlt)

theorem succ_val (i : Fin n) : (i + 1).val = if i.val + 1 = n then 0 else i.val + 1 := by
  rw [Fin.val_add, Fin.val_one', Nat.add_mod_mod]
  split
  · next heq => rw [heq, Nat.mod_self]
  · next hne => exact Nat.mod_eq_of_lt (by have := i.isLt; omega)

theorem succ_ne_self (hn : 2 ≤ n) (i : Fin n) : i + 1 ≠ i := by
  intro heq
  have hval := congrArg Fin.val heq
  rw [succ_val] at hval
  split at hval <;> omega

/-- The head moves away from the tail. -/
theorem succ_sub_val {tail head : Fin n} (hne : head + 1 ≠ tail) :
    (head + 1 - tail).val = (head - tail).val + 1 := by
  have hval : (head + 1).val ≠ tail.val := fun heq => hne (Fin.ext heq)
  have hhead := head.isLt
  have htail := tail.isLt
  rw [succ_val] at hval
  rw [sub_val, sub_val, succ_val]
  split_ifs at hval ⊢ <;> omega

/-- The tail moves towards the head. -/
theorem sub_succ_val {tail head : Fin n} (hne : tail ≠ head) :
    (head - tail).val = (head - (tail + 1)).val + 1 := by
  have hval : tail.val ≠ head.val := fun heq => hne (Fin.ext heq)
  have hhead := head.isLt
  have htail := tail.isLt
  rw [sub_val, sub_val, succ_val]
  split_ifs <;> omega

/-- With the head one behind the tail, all slots but one are taken. -/
theorem length_between_full (f : Fin n → α) {tail head : Fin n} (hfull : head + 1 = tail) :
    (between f tail head).length = n - 1 := by
  have hhead := head.isLt
  rw [length_between, ← hfull, sub_val, succ_val]
  split_ifs <;> omega

theorem length_between_lt (f : Fin n → α) (tail head : Fin n) :
    (between f tail head).length < n := by
  rw [length_between]
  exact (head - tail).isLt

@[simp] theorem between_self (f : Fin n → α) (tail : Fin n) : between f tail tail = [] := by
  have hzero : (tail - tail).val = 0 := by
    rw [sub_val, if_pos (Nat.le_refl _), Nat.sub_self]
  rw [between, hzero, window_zero]

/-- Writing the slot at the head and moving the head on. -/
theorem between_push (f : Fin n → α) {tail head : Fin n} (a : α) (hroom : head + 1 ≠ tail) :
    between (Function.update f head a) tail (head + 1) = between f tail head ++ [a] := by
  have hslot : Fin.ofNat n (tail.val + (head - tail).val) = head := by
    have hadd : Fin.ofNat n (tail.val + (head - tail).val) = tail + (head - tail) :=
      Fin.ext (Fin.val_add _ _).symm
    rw [hadd, add_sub_cancel]
  have hpush := window_push f tail.val a (head - tail).isLt
  rw [hslot] at hpush
  rw [between, succ_sub_val hroom]
  exact hpush

/-- Moving the tail on drops the first item. -/
theorem between_pop (f : Fin n → α) {tail head : Fin n} (hne : tail ≠ head) :
    between f tail head = f tail :: between f (tail + 1) head := by
  have hslot : Fin.ofNat n tail.val = tail := Fin.ext (Nat.mod_eq_of_lt tail.isLt)
  have hstart : (tail + 1).val = (tail.val + 1) % n := by
    rw [Fin.val_add, Fin.val_one', Nat.add_mod_mod]
  rw [between, sub_succ_val hne, window_succ, hslot, between, hstart, window_mod]

theorem between_eq_nil_iff (f : Fin n → α) (tail head : Fin n) :
    between f tail head = [] ↔ tail = head := by
  constructor
  · intro hnil
    by_contra hne
    rw [between_pop f hne] at hnil
    exact List.cons_ne_nil _ _ hnil
  · intro heq
    rw [heq, between_self]

/-- There is room exactly if the head is not one behind the tail. -/
theorem length_between_lt_iff (f : Fin n → α) (tail head : Fin n) :
    (between f tail head).length < n - 1 ↔ head + 1 ≠ tail := by
  constructor
  · intro hlt hfull
    rw [length_between_full f hfull] at hlt
    exact Nat.lt_irrefl _ hlt
  · intro hroom
    have hlt := length_between_lt f tail (head + 1)
    rw [length_between, succ_sub_val hroom] at hlt
    rw [length_between]
    omega

/-! ## Dropping the newest -/

/-- The slots of a ring and its two ends. -/
structure Ends (α : Type*) (n : Nat) where
  slots : Fin n → α
  head : Fin n
  tail : Fin n

namespace Ends

def contents (e : Ends α n) : List α := between e.slots e.tail e.head

/-- Write the slot at the head and move the head on, unless the ring is full. -/
def push (e : Ends α n) (a : α) : Ends α n :=
  if e.head + 1 = e.tail then e
  else { e with slots := Function.update e.slots e.head a, head := e.head + 1 }

/-- Read the slot at the tail and move the tail on, unless the ring is empty. -/
def pop (e : Ends α n) : Option α × Ends α n :=
  if e.tail = e.head then (none, e) else (some (e.slots e.tail), { e with tail := e.tail + 1 })

theorem contents_push (e : Ends α n) (a : α) :
    (e.push a).contents = Fifo.offer (n - 1) e.contents a := by
  unfold push Fifo.offer
  by_cases hfull : e.head + 1 = e.tail
  · have hlen : ¬ e.contents.length < n - 1 := by
      intro hlt
      exact (length_between_lt_iff e.slots e.tail e.head).mp hlt hfull
    rw [if_pos hfull, if_neg hlen]
  · have hlen : e.contents.length < n - 1 :=
      (length_between_lt_iff e.slots e.tail e.head).mpr hfull
    rw [if_neg hfull, if_pos hlen]
    exact between_push e.slots a hfull

theorem pop_eq (e : Ends α n) :
    e.pop.1 = e.contents.head? ∧ e.pop.2.contents = e.contents.tail := by
  unfold pop contents
  by_cases hempty : e.tail = e.head
  · rw [if_pos hempty, hempty, between_self]
    simp
  · rw [if_neg hempty, between_pop e.slots hempty]
    simp

/-- The head of a ring with room moves: a ring with a free slot has two slots. -/
theorem push_head_ne_iff (e : Ends α n) (a : α) (hn : 2 ≤ n) :
    (e.push a).head ≠ e.head ↔ e.contents.length < n - 1 := by
  rw [contents, length_between_lt_iff]
  unfold push
  by_cases hfull : e.head + 1 = e.tail
  · simp [hfull]
  · rw [if_neg hfull]
    simp [hfull, succ_ne_self hn]

/-- A device whose state holds a ring and whose calls push and pop is a queue. -/
theorem isQueue {σ π : Type*} {D : Fifo.Device σ π α} {Ready : σ → Prop} (ends : σ → Ends α n)
    (hn : 2 ≤ n)
    (haccepts : ∀ s p, D.accepts s p = true ↔ (ends (D.put s p)).head ≠ (ends s).head)
    (hput : ∀ s p, Ready s → Ready (D.put s p) ∧ ends (D.put s p) = (ends s).push (D.item p))
    (hget : ∀ s, Ready s →
      Ready (D.get s).2 ∧ ((D.get s).1, ends (D.get s).2) = (ends s).pop) :
    Fifo.IsQueue D (n - 1) (fun s => (ends s).contents) Ready where
  accepts_iff := by
    intro s p hs
    rw [haccepts, (hput s p hs).2]
    exact push_head_ne_iff (ends s) (D.item p) hn
  contents_put := by
    intro s p hs
    rw [(hput s p hs).2]
    exact contents_push (ends s) (D.item p)
  ready_put := by
    intro s p hs
    exact (hput s p hs).1
  get_eq := by
    intro s hs
    rw [← (pop_eq (ends s)).1, ← (hget s hs).2]
  contents_get := by
    intro s hs
    rw [← (pop_eq (ends s)).2, ← (hget s hs).2]
  ready_get := by
    intro s hs
    exact (hget s hs).1

end Ends

/-! ## Overwriting -/

/-- Writing the slot at the head and moving both ends on, in a full ring. -/
theorem between_push_full (f : Fin n → α) {tail head : Fin n} (a : α) (hn : 2 ≤ n)
    (hfull : head + 1 = tail) :
    between (Function.update f head a) (tail + 1) (head + 1) = (between f tail head).tail ++ [a] := by
  have hroom : head + 1 ≠ tail + 1 := by
    intro heq
    rw [hfull] at heq
    exact succ_ne_self hn tail heq.symm
  have hne : tail ≠ head := by
    intro heq
    rw [heq] at hfull
    exact succ_ne_self hn head hfull
  rw [between_push f a hroom, between_pop f hne, List.tail_cons]

/-- What one write does to a ring that overwrites its oldest slot. -/
theorem between_overwrite (f : Fin n → α) (tail head : Fin n) (a : α) (hn : 2 ≤ n) :
    between (Function.update f head a) (if head + 1 = tail then tail + 1 else tail) (head + 1) =
      Fifo.enqueue (n - 1) (between f tail head) a := by
  by_cases hfull : head + 1 = tail
  · rw [if_pos hfull, between_push_full f a hn hfull, Fifo.enqueue, length_between_full f hfull,
      if_neg (Nat.lt_irrefl _)]
  · have hlen : (between f tail head).length < n - 1 :=
      (length_between_lt_iff f tail head).mpr hfull
    rw [if_neg hfull, between_push f a hfull, Fifo.enqueue, if_pos hlen]

end Ring
