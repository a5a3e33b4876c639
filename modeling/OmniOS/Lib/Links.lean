import Mathlib.Data.List.Chain
import Mathlib.Logic.Function.Basic

/-!
# Links — circular doubly linked lists inside other objects

Every node has a `next` and a `prev` pointer, and the header of a list is a node like any
other. `insert` and `remove` write these pointers one after the other and follow what they
find, so that a NULL pointer stops them.

`Cycle L h ns` says that from the header `h` the pointers lead through `ns` and back, in both
directions. Under it, `insert` puts a node at the front (`cycle_insert`), `remove` takes one
out wherever it is (`cycle_remove`), and the nodes one can reach are those of `ns`
(`reaches_iff`).
-/

/-- The pointers of all nodes; `none` is NULL. -/
structure Links (N : Type*) where
  next : N → Option N
  prev : N → Option N

namespace Links

variable {N : Type*}

section Writes

variable [DecidableEq N]

def setNext (L : Links N) (x : N) (y : Option N) : Links N :=
  { L with next := Function.update L.next x y }

def setPrev (L : Links N) (x : N) (y : Option N) : Links N :=
  { L with prev := Function.update L.prev x y }

/-- Make `list` the header of an empty list. -/
def init (L : Links N) (list : N) : Links N :=
  (L.setPrev list (some list)).setNext list (some list)

def empty (L : Links N) (list : N) : Bool := L.next list == some list

/-- Put `elm` behind `list`. -/
def insert (L : Links N) (list elm : N) : Option (Links N) :=
  let L := L.setPrev elm (some list)
  let L := L.setNext elm (L.next list)
  let L := L.setNext list (some elm)
  (L.next elm).map fun next => L.setPrev next (some elm)

/-- Take `elm` out of the list it is in. -/
def remove (L : Links N) (elm : N) : Option (Links N) :=
  (L.prev elm).bind fun prev =>
    let L := L.setNext prev (L.next elm)
    (L.next elm).map fun next =>
      let L := L.setPrev next (L.prev elm)
      (L.setNext elm none).setPrev elm none

end Writes

/-! ## Cycles -/

def Linked (L : Links N) (x y : N) : Prop := L.next x = some y ∧ L.prev y = some x

/-- From `h` through `ns` and back. -/
structure Cycle (L : Links N) (h : N) (ns : List N) : Prop where
  chain : List.IsChain L.Linked (h :: ns ++ [h])
  nodup : (h :: ns).Nodup

/-- `x` is found by following `next` from the header. -/
def Reaches (L : Links N) (h x : N) : Prop :=
  Relation.ReflTransGen (fun a b => L.next a = some b) h x ∧ x ≠ h

variable {L L' : Links N} {h e : N} {ns : List N}

/-- A chain reads the `next` of all its nodes but the last and the `prev` of all but the
first. -/
theorem chain_transport {l : List N} (hchain : List.IsChain L.Linked l)
    (hnext : ∀ x ∈ l.dropLast, L'.next x = L.next x) (hprev : ∀ x ∈ l.tail, L'.prev x = L.prev x) :
    List.IsChain L'.Linked l := by
  induction hchain with
  | nil => exact List.IsChain.nil
  | singleton x => exact List.IsChain.singleton x
  | @cons_cons x y l hxy _ ih =>
      have hrest : List.IsChain L'.Linked (y :: l) := by
        refine ih ?_ ?_
        · intro z hz
          exact hnext z (List.mem_cons_of_mem x hz)
        · intro z hz
          exact hprev z (List.mem_cons_of_mem y hz)
      refine List.IsChain.cons_cons ⟨?_, ?_⟩ hrest
      · rw [hnext x List.mem_cons_self]
        exact hxy.1
      · rw [hprev y List.mem_cons_self]
        exact hxy.2

theorem Cycle.header_notMem (hcycle : Cycle L h ns) : h ∉ ns := (List.nodup_cons.mp hcycle.nodup).1

/-- The node behind the header, which is the header itself in an empty list. -/
theorem Cycle.first (hcycle : Cycle L h ns) :
    ∃ n rest, ns ++ [h] = n :: rest ∧ L.next h = some n := by
  have hchain := hcycle.chain
  cases ns with
  | nil => exact ⟨h, [], rfl, (List.isChain_pair.mp hchain).1⟩
  | cons n ns => exact ⟨n, ns ++ [h], rfl, (List.isChain_cons_cons.mp hchain).1.1⟩

theorem Cycle.next_mem (hcycle : Cycle L h ns) {x : N} (hx : x ∈ h :: ns) :
    ∃ y ∈ h :: ns, L.next x = some y := by
  obtain ⟨as, bs, hsplit⟩ := List.append_of_mem hx
  have hchain : List.IsChain L.Linked (as ++ x :: (bs ++ [h])) := by
    have hlist : h :: ns ++ [h] = as ++ x :: (bs ++ [h]) := by
      rw [hsplit, List.append_assoc, List.cons_append]
    exact hlist ▸ hcycle.chain
  cases bs with
  | nil => exact ⟨h, List.mem_cons_self, (List.isChain_append_cons_cons.mp hchain).2.1.1⟩
  | cons y bs =>
      refine ⟨y, ?_, (List.isChain_append_cons_cons.mp hchain).2.1.1⟩
      rw [hsplit]
      simp

/-- Following `next` one finds the nodes of the cycle and no others. -/
theorem reaches_iff (hcycle : Cycle L h ns) (x : N) : L.Reaches h x ↔ x ∈ ns := by
  constructor
  · rintro ⟨hpath, hne⟩
    have hmem : x ∈ h :: ns := by
      clear hne
      induction hpath with
      | refl => exact List.mem_cons_self
      | tail _ hstep ih =>
          obtain ⟨y, hy, hnext⟩ := hcycle.next_mem ih
          rw [hstep] at hnext
          cases hnext
          exact hy
    exact (List.mem_cons.mp hmem).resolve_left hne
  · intro hx
    obtain ⟨as, bs, rfl⟩ := List.append_of_mem hx
    refine ⟨?_, fun hxh => hcycle.header_notMem (hxh ▸ hx)⟩
    have hchain : List.IsChain L.Linked (h :: (as ++ [x])) := by
      have hlist : h :: (as ++ x :: bs) ++ [h] = h :: (as ++ [x]) ++ (bs ++ [h]) := by simp
      exact (hlist ▸ hcycle.chain).left_of_append
    refine List.relationReflTransGen_of_exists_isChain_cons (as ++ [x]) ?_ ?_
    · exact hchain.imp fun _ _ hab => hab.1
    · rw [List.getLast_cons (by simp), List.getLast_append_singleton]

/-- The nodes before and behind `e` are distinct from each other and from `e`. -/
theorem distinct_around {as bs : List N} (hnodup : (h :: (as ++ e :: bs)).Nodup) :
    (h :: as).Nodup ∧ (bs ++ [h]).Nodup ∧ e ∉ h :: as ∧ e ∉ bs ++ [h] ∧
      (∀ x ∈ as, x ∉ bs ++ [h]) ∧ ∀ x ∈ bs, x ∉ h :: as := by
  grind [List.nodup_cons, List.nodup_append]

variable [DecidableEq N]

theorem cycle_init (L : Links N) (h : N) : Cycle (L.init h) h [] := by
  constructor
  · refine List.isChain_pair.mpr ⟨?_, ?_⟩
    · exact Function.update_self h _ _
    · exact Function.update_self h _ _
  · simp

theorem cycle_empty_iff (hcycle : Cycle L h ns) : L.empty h = true ↔ ns = [] := by
  obtain ⟨n, rest, hlist, hnext⟩ := hcycle.first
  rw [empty, hnext, beq_iff_eq, Option.some.injEq]
  constructor
  · rintro rfl
    cases ns with
    | nil => rfl
    | cons m ns =>
        cases hlist
        exact absurd List.mem_cons_self hcycle.header_notMem
  · rintro rfl
    cases hlist
    rfl

theorem update_update_of_ne {f : N → Option N} {a b x : N} {v w : Option N} (ha : x ≠ a)
    (hb : x ≠ b) : Function.update (Function.update f b v) a w x = f x := by
  rw [Function.update_of_ne ha, Function.update_of_ne hb]

/-- The pointers that an insertion writes. -/
theorem insert_eq {n : N} (hnext : L.next h = some n) (hne : e ≠ h) :
    L.insert h e = some
      { next := Function.update (Function.update L.next e (some n)) h (some e)
        prev := Function.update (Function.update L.prev e (some h)) n (some e) } := by
  simp [insert, setNext, setPrev, hnext, Function.update_of_ne hne]

theorem cycle_insert (hcycle : Cycle L h ns) (he : e ∉ h :: ns) :
    ∃ L', L.insert h e = some L' ∧ Cycle L' h (e :: ns) := by
  obtain ⟨hne, hens⟩ := not_or.mp (List.mem_cons.not.mp he)
  obtain ⟨n, rest, hlist, hnext⟩ := hcycle.first
  refine ⟨_, insert_eq hnext hne, ?_, ?_⟩
  · have hen : e ≠ n := by
      rintro rfl
      have hmem : e ∈ ns ++ [h] := hlist ▸ List.mem_cons_self
      simp [hne, hens] at hmem
    have hnodup : (n :: rest).Nodup := by
      rw [← hlist]
      exact (List.perm_append_singleton h ns).nodup_iff.mpr hcycle.nodup
    have hchain : List.IsChain L.Linked (n :: rest) := by
      have hold : List.IsChain L.Linked (h :: (ns ++ [h])) := hcycle.chain
      rw [hlist] at hold
      exact (List.isChain_cons_cons.mp hold).2
    show List.IsChain _ (h :: e :: (ns ++ [h]))
    rw [hlist]
    refine List.IsChain.cons_cons ?_ (List.IsChain.cons_cons ?_ (chain_transport hchain ?_ ?_))
    · constructor
      · exact Function.update_self h _ _
      · show Function.update _ n _ e = _
        rw [Function.update_of_ne hen, Function.update_self]
    · constructor
      · show Function.update _ h _ e = _
        rw [Function.update_of_ne hne, Function.update_self]
      · exact Function.update_self n _ _
    · -- neither the header nor the new node is among the others
      intro x hx
      rw [← hlist, List.dropLast_concat] at hx
      have hxh : x ≠ h := fun heq => hcycle.header_notMem (heq ▸ hx)
      have hxe : x ≠ e := fun heq => hens (heq ▸ hx)
      exact update_update_of_ne hxh hxe
    · intro x hx
      have hxn : x ≠ n := fun heq => (List.nodup_cons.mp hnodup).1 (heq ▸ hx)
      have hxe : x ≠ e := by
        rintro rfl
        have hmem : x ∈ ns ++ [h] := hlist ▸ List.mem_cons_of_mem n hx
        simp [hne, hens] at hmem
      exact update_update_of_ne hxn hxe
  · have hnodup := hcycle.nodup
    simp only [List.nodup_cons, List.mem_cons, not_or] at hnodup ⊢
    exact ⟨⟨Ne.symm hne, hnodup.1⟩, hens, hnodup.2⟩

/-- The pointers that a removal writes. -/
theorem remove_eq {p n : N} (hprev : L.prev e = some p) (hnext : L.next e = some n) (hne : p ≠ e) :
    L.remove e = some
      { next := Function.update (Function.update L.next p (some n)) e none
        prev := Function.update (Function.update L.prev n (some p)) e none } := by
  simp [remove, setNext, setPrev, hprev, hnext, Function.update_of_ne (Ne.symm hne)]

theorem cycle_remove (hcycle : Cycle L h ns) (he : e ∈ ns) :
    ∃ L', L.remove e = some L' ∧ Cycle L' h (ns.erase e) := by
  obtain ⟨as, bs, rfl⟩ := List.append_of_mem he
  -- `p` and `n` stand before and behind the node, either of them may be the header
  obtain ⟨as', p, hp⟩ : ∃ as' p, h :: as = as' ++ [p] :=
    ⟨_, _, (List.dropLast_append_getLast (List.cons_ne_nil h as)).symm⟩
  obtain ⟨n, bs', hn⟩ : ∃ n bs', bs ++ [h] = n :: bs' := List.exists_cons_of_ne_nil (by simp)
  have hjoin (l : List N) : h :: (as ++ l ++ [h]) = as' ++ p :: (l ++ [h]) := by
    have hfront : h :: (as ++ l ++ [h]) = (h :: as) ++ (l ++ [h]) := by simp
    rw [hfront, hp, List.append_assoc, List.singleton_append]
  have hchain : List.IsChain L.Linked (as' ++ p :: e :: n :: bs') := by
    have hold : List.IsChain L.Linked (h :: (as ++ (e :: bs) ++ [h])) := hcycle.chain
    rwa [hjoin, List.cons_append, hn] at hold
  obtain ⟨hbefore, hpe, hrest⟩ := List.isChain_append_cons_cons.mp hchain
  obtain ⟨hen, hbehind⟩ := List.isChain_cons_cons.mp hrest
  obtain ⟨hfront, hback, hefront, heback, hasback, hbsfront⟩ := distinct_around hcycle.nodup
  rw [hp, (List.perm_append_singleton p as').nodup_iff, List.nodup_cons] at hfront
  rw [hn, List.nodup_cons] at hback
  have hpmem : p ∈ h :: as := by
    rw [hp]
    exact List.mem_append_right as' List.mem_cons_self
  have hnmem : n ∈ bs ++ [h] := by
    rw [hn]
    exact List.mem_cons_self
  have hpne : p ≠ e := ne_of_mem_of_not_mem hpmem hefront
  have hnne : n ≠ e := ne_of_mem_of_not_mem hnmem heback
  have herase : (as ++ e :: bs).erase e = as ++ bs := by
    rw [List.erase_append_right _ (fun hmem => hefront (List.mem_cons_of_mem h hmem)),
      List.erase_cons_head]
  rw [herase]
  refine ⟨_, remove_eq hpe.2 hen.1 hpne, ?_, ?_⟩
  · show List.IsChain _ (h :: (as ++ bs ++ [h]))
    rw [hjoin, hn]
    refine List.isChain_append_cons_cons.mpr
      ⟨chain_transport hbefore ?_ ?_, ⟨?_, ?_⟩, chain_transport hbehind ?_ ?_⟩
    · intro x hx
      rw [List.dropLast_concat] at hx
      have hxmem : x ∈ h :: as := by
        rw [hp]
        exact List.mem_append_left [p] hx
      exact update_update_of_ne (ne_of_mem_of_not_mem hxmem hefront)
        (ne_of_mem_of_not_mem hx hfront.1)
    · intro x hx
      rw [← hp, List.tail_cons] at hx
      have hxmem : x ∈ h :: as := List.mem_cons_of_mem h hx
      exact update_update_of_ne (ne_of_mem_of_not_mem hxmem hefront)
        (Ne.symm (ne_of_mem_of_not_mem hnmem (hasback x hx)))
    · show Function.update _ e _ p = _
      rw [Function.update_of_ne hpne, Function.update_self]
    · show Function.update _ e _ n = _
      rw [Function.update_of_ne hnne, Function.update_self]
    · intro x hx
      rw [← hn, List.dropLast_concat] at hx
      have hxmem : x ∈ bs ++ [h] := List.mem_append_left [h] hx
      exact update_update_of_ne (ne_of_mem_of_not_mem hxmem heback)
        (Ne.symm (ne_of_mem_of_not_mem hpmem (hbsfront x hx)))
    · intro x hx
      rw [List.tail_cons] at hx
      have hxmem : x ∈ bs ++ [h] := by
        rw [hn]
        exact List.mem_cons_of_mem n hx
      exact update_update_of_ne (ne_of_mem_of_not_mem hxmem heback)
        (ne_of_mem_of_not_mem hx hback.1)
  · rw [← herase]
    have hnodup := List.nodup_cons.mp hcycle.nodup
    refine List.nodup_cons.mpr ⟨?_, hnodup.2.erase e⟩
    intro hmem
    exact hnodup.1 (List.mem_of_mem_erase hmem)

end Links
