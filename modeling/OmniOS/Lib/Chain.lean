import Mathlib.Data.List.Basic

/-!
# Chain — singly linked lists through a successor function

A linked list in memory is an address, a successor function and the NULL
pointer 0. `Visits next a l` says that following `next` from `a` passes
through the nodes `l`, in order, and ends at NULL. Only the successors of its
own nodes matter (`Visits.congr`).

`Ends` is the same for nodes of any type and any end mark, as in a list of array
indices. The nodes are determined by the start (`Ends.unique`).
-/

namespace Chain

/-- Following `next` from `a` visits `l` and then reaches 0. -/
def Visits (next : Nat → Nat) : Nat → List Nat → Prop
  | a, [] => a = 0
  | a, x :: l => a = x ∧ x ≠ 0 ∧ Visits next (next x) l

variable {next next' : Nat → Nat} {a : Nat} {l : List Nat}

/-- Only the successors of the visited nodes matter. -/
theorem Visits.congr (h : Visits next a l) (hn : ∀ x ∈ l, next' x = next x) :
    Visits next' a l := by
  induction l generalizing a with
  | nil => exact h
  | cons x l ih =>
      refine ⟨h.1, h.2.1, ?_⟩
      rw [hn x List.mem_cons_self]
      exact ih h.2.2 fun y hy => hn y (List.mem_cons_of_mem x hy)

theorem Visits.ne_zero (h : Visits next a l) {x : Nat} (hx : x ∈ l) : x ≠ 0 := by
  induction l generalizing a with
  | nil => exact absurd hx (List.not_mem_nil)
  | cons y l ih =>
      rcases List.mem_cons.mp hx with rfl | hx
      · exact h.2.1
      · exact ih h.2.2 hx

/-- `x` is a node of the chain from `a`. The chain may run in a circle. -/
inductive Reaches (next : Nat → Nat) : Nat → Nat → Prop where
  | here {a : Nat} : a ≠ 0 → Reaches next a a
  | later {a x : Nat} : a ≠ 0 → Reaches next (next a) x → Reaches next a x

theorem not_reaches_zero {x : Nat} : ¬ Reaches next 0 x := by
  rintro (hne | ⟨hne, -⟩)
  · exact hne rfl
  · exact hne rfl

theorem Visits.reaches_iff (h : Visits next a l) {x : Nat} : Reaches next a x ↔ x ∈ l := by
  induction l generalizing a with
  | nil =>
      rw [show a = 0 from h]
      exact iff_of_false not_reaches_zero List.not_mem_nil
  | cons y l ih =>
      obtain ⟨rfl, hne, hrest⟩ := h
      rw [List.mem_cons, ← ih hrest]
      constructor
      · rintro (_ | ⟨-, hlater⟩)
        · exact Or.inl rfl
        · exact Or.inr hlater
      · rintro (rfl | hlater)
        · exact .here hne
        · exact .later hne hlater

/-- The node behind a node of the chain. -/
theorem Reaches.step {x : Nat} (h : Reaches next a x) (hne : next x ≠ 0) :
    Reaches next a (next x) := by
  induction h with
  | here ha => exact .later ha (.here hne)
  | later ha _ ih => exact .later ha (ih hne)

/-- A node is still reached if no other link has changed. -/
theorem Visits.reaches_of_agree {x : Nat} (h : Visits next a l) (hx : x ∈ l)
    (hn : ∀ y ∈ l, y ≠ x → next' y = next y) : Reaches next' a x := by
  induction l generalizing a with
  | nil => exact absurd hx List.not_mem_nil
  | cons y l ih =>
      obtain ⟨rfl, hne, hrest⟩ := h
      by_cases hyx : a = x
      · exact hyx ▸ .here hne
      · refine .later hne ?_
        rw [hn a List.mem_cons_self hyx]
        refine ih hrest ((List.mem_cons.mp hx).resolve_left (Ne.symm hyx)) ?_
        exact fun z hz => hn z (List.mem_cons_of_mem a hz)

/-! ## Overwritten links -/

/-- The list up to its first node with `R`, that one included. -/
def cut (R : Nat → Bool) : List Nat → List Nat
  | [] => []
  | x :: l => if R x then [x] else x :: cut R l

theorem cut_sublist (R : Nat → Bool) (l : List Nat) : (cut R l).Sublist l := by
  induction l with
  | nil => exact List.Sublist.refl _
  | cons x l ih =>
      rw [cut]
      split
      · exact (List.nil_sublist l).cons_cons x
      · exact ih.cons_cons x

/-- Where the links are set to 0 the list ends. -/
theorem Visits.cut {R : Nat → Bool} (h : Visits next a l)
    (hkept : ∀ x ∈ l, R x = false → next' x = next x) (hzero : ∀ x ∈ l, R x = true → next' x = 0) :
    Visits next' a (cut R l) := by
  induction l generalizing a with
  | nil => exact h
  | cons x l ih =>
      obtain ⟨rfl, hne, hrest⟩ := h
      rw [Chain.cut]
      cases hR : R a with
      | true => exact ⟨rfl, hne, hzero a List.mem_cons_self hR⟩
      | false =>
          refine ⟨rfl, hne, ?_⟩
          rw [hkept a List.mem_cons_self hR]
          exact ih hrest (fun y hy => hkept y (List.mem_cons_of_mem a hy))
            (fun y hy => hzero y (List.mem_cons_of_mem a hy))

/-! ## Other end marks -/

section Ends

variable {α : Type*}

/-- Following `next` from `a` visits `l` and then reaches `stop`. -/
def Ends (next : α → α) (stop : α) : α → List α → Prop
  | a, [] => a = stop
  | a, x :: l => a = x ∧ x ≠ stop ∧ Ends next stop (next x) l

variable {next : α → α} {stop a : α} {l l' : List α}

theorem Ends.unique (h : Ends next stop a l) (h' : Ends next stop a l') : l = l' := by
  induction l generalizing a l' with
  | nil =>
      cases l' with
      | nil => rfl
      | cons y l' => exact absurd (h'.1.symm.trans h) h'.2.1
  | cons x l ih =>
      cases l' with
      | nil => exact absurd (h.1.symm.trans h') h.2.1
      | cons y l' =>
          have hxy : x = y := h.1.symm.trans h'.1
          subst hxy
          rw [ih h.2.2 h'.2.2]

theorem Ends.next_mem (h : Ends next stop a l) {x : α} (hx : x ∈ l) :
    next x = stop ∨ next x ∈ l := by
  induction l generalizing a with
  | nil => exact absurd hx List.not_mem_nil
  | cons y l ih =>
      rcases List.mem_cons.mp hx with rfl | hx
      · cases l with
        | nil => exact Or.inl h.2.2
        | cons z l => exact Or.inr (h.2.2.1 ▸ List.mem_cons_of_mem _ List.mem_cons_self)
      · exact (ih h.2.2 hx).imp_right (List.mem_cons_of_mem y)

end Ends

theorem visits_iff_ends : Visits next a l ↔ Ends next 0 a l := by
  induction l generalizing a with
  | nil => exact Iff.rfl
  | cons x l ih => exact and_congr_right' (and_congr_right' ih)

theorem Visits.unique {l' : List Nat} (h : Visits next a l) (h' : Visits next a l') : l = l' :=
  (visits_iff_ends.mp h).unique (visits_iff_ends.mp h')

end Chain
