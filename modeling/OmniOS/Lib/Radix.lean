import Mathlib.Data.Finset.Card
import Mathlib.Data.List.Induction
import Mathlib.Data.Option.Basic
import Mathlib.Logic.Function.Basic

/-!
# Radix — tables of tables that are created on demand

A multi-level table, the shape of hardware page tables: an entry that is
present names the table of the next level, and the entries of the last level
are the leaves. Tables are pages of one memory, so nothing but an invariant
keeps two entries from naming the same page. `WellFormed` is that invariant
(different paths lead to different pages, and pages still to be handed out are
not in use); under it the tables are a map from paths to leaves:

* `lookupOrCreate_spec` and `descend_spec`: creating the tables on the way to a
  leaf changes no leaf;
* `store_spec` and `erase_spec`: a write at one path is seen at that path only.

Only paths whose first index satisfies `Root` are looked at, so that the rest
of the top-level table may hold anything.
-/

namespace Radix

variable {P I E : Type*}

/-- How an entry is read. A cleared table holds `zero` everywhere. -/
structure Format (P E : Type*) where
  present : E → Bool
  target : E → P
  zero : E
  zero_absent : present zero = false

/-- The pages an allocator hands out one after the other, each with the entry
that names it. The first `limit` of them are known to be good; a memory is
finite, so no more than some number can be. -/
structure Supply (F : Format P E) where
  page : Nat → P
  link : Nat → E
  limit : Nat
  link_present : ∀ n < limit, F.present (link n) = true
  target_link : ∀ n < limit, F.target (link n) = page n
  page_injOn : ∀ n < limit, ∀ k < limit, page n = page k → n = k

/-- The entries of every page, and how many pages were handed out. -/
structure State (P I E : Type*) where
  mem : P → I → E
  used : Nat

variable (F : Format P E)

/-- The table an entry names. -/
def Format.next (e : E) : Option P := if F.present e then some (F.target e) else none

/-- The table reached from `t` by the indices `q`. -/
def walk (m : P → I → E) (t : P) : List I → Option P
  | [] => some t
  | i :: q => (F.next (m t i)).bind fun t' => walk m t' q

/-- The entry at index `j` of the table at `q`. -/
def entry (m : P → I → E) (root : P) (q : List I) (j : I) : Option E :=
  (walk F m root q).map fun t => m t j

/-- The entry at index `j` of the table at `q`, when it is present. -/
def leaf (m : P → I → E) (root : P) (q : List I) (j : I) : Option E :=
  (entry F m root q j).filter F.present

/-- Paths of at most `d` indices that start where `Root` allows it. -/
structure Path (d : Nat) (Root : I → Prop) (q : List I) : Prop where
  length_le : q.length ≤ d
  head : ∀ i ∈ q.head?, Root i

section Operations

variable [DecidableEq P] [DecidableEq I]

/-- Overwrite one entry. -/
def write (m : P → I → E) (t : P) (i : I) (e : E) : P → I → E :=
  Function.update m t (Function.update (m t) i e)

/-- Clear a whole page. -/
def clear (m : P → I → E) (t : P) : P → I → E := Function.update m t fun _ => F.zero

variable {F}

/-- Hand out a page, clear it and make `m t i` name it. -/
def Supply.create (A : Supply F) (s : State P I E) (t : P) (i : I) : State P I E where
  mem := write (clear F s.mem (A.page s.used)) t i (A.link s.used)
  used := s.used + 1

/-- Hand out a page as an empty top-level table. -/
def Supply.newRoot (A : Supply F) (s : State P I E) : State P I E where
  mem := clear F s.mem (A.page s.used)
  used := s.used + 1

/-- The table named at index `i` of `t`, created when there is none. -/
def Supply.lookupOrCreate (A : Supply F) (s : State P I E) (t : P) (i : I) : State P I E × P :=
  match F.next (s.mem t i) with
  | some t' => (s, t')
  | none => (A.create s t i, A.page s.used)

/-- The table at path `q` below `t`, creating what is missing. -/
def Supply.descend (A : Supply F) (s : State P I E) (t : P) : List I → State P I E × P
  | [] => (s, t)
  | i :: q => A.descend (A.lookupOrCreate s t i).1 (A.lookupOrCreate s t i).2 q

/-- Write the leaf at index `j` of the table at `q`, creating the tables on the way. -/
def Supply.store (A : Supply F) (s : State P I E) (root : P) (q : List I) (j : I) (e : E) :
    State P I E :=
  { (A.descend s root q).1 with
    mem := write (A.descend s root q).1.mem (A.descend s root q).2 j e }

variable (F) in
/-- Clear the leaf at index `j` of the table at `q`, when there is one. -/
def erase (m : P → I → E) (root : P) (q : List I) (j : I) : P → I → E :=
  match walk F m root q with
  | none => m
  | some t => if F.present (m t j) then write m t j F.zero else m

end Operations

/-- Different paths lead to different pages, and none of the pages still to be
handed out is in use. -/
structure WellFormed {F : Format P E} (A : Supply F) (d : Nat) (Root : I → Prop) (root : P)
    (s : State P I E) : Prop where
  tree : ∀ p q t, Path d Root p → Path d Root q →
    walk F s.mem root p = some t → walk F s.mem root q = some t → p = q
  fresh : ∀ n q, s.used ≤ n → n < A.limit → Path d Root q →
    walk F s.mem root q ≠ some (A.page n)

variable {F} {d : Nat} {Root : I → Prop} {root : P}

/-! ## Paths and walks -/

theorem Path.nil : Path d Root [] := ⟨Nat.zero_le d, by simp⟩

theorem Path.of_append {p q : List I} (h : Path d Root (p ++ q)) : Path d Root p where
  length_le := by
    have hlen := h.length_le
    rw [List.length_append] at hlen
    omega
  head := by
    intro j hj
    apply h.head j
    rw [List.head?_append, Option.mem_def.mp hj]
    rfl

theorem Path.length_lt {q : List I} {i : I} (h : Path d Root (q ++ [i])) : q.length < d := by
  have hlen := h.length_le
  rw [List.length_append, List.length_singleton] at hlen
  exact hlen

theorem walk_append (m : P → I → E) (t : P) (p q : List I) :
    walk F m t (p ++ q) = (walk F m t p).bind fun t' => walk F m t' q := by
  induction p generalizing t with
  | nil => rfl
  | cons i p ih =>
      rw [List.cons_append, walk, walk, Option.bind_assoc]
      exact Option.bind_congr fun t' _ => ih t'

theorem walk_snoc (m : P → I → E) (t : P) (q : List I) (i : I) :
    walk F m t (q ++ [i]) = (walk F m t q).bind fun t' => F.next (m t' i) := by
  rw [walk_append]
  exact Option.bind_congr fun t' _ => Option.bind_fun_some _

@[simp] theorem Format.next_zero : F.next F.zero = none := by
  simp [Format.next, F.zero_absent]

theorem Supply.next_link (A : Supply F) {n : Nat} (hn : n < A.limit) :
    F.next (A.link n) = some (A.page n) := by
  simp [Format.next, A.link_present n hn, A.target_link n hn]

/-- The next page to be handed out is no table. -/
theorem WellFormed.page_ne {A : Supply F} {s : State P I E} (h : WellFormed A d Root root s)
    (hlim : s.used < A.limit) {q : List I} {t : P} (hq : Path d Root q) (ht : walk F s.mem root q = some t) :
    A.page s.used ≠ t := by
  rintro rfl
  exact h.fresh s.used q (Nat.le_refl _) hlim hq ht

/-- From `m` to `m'` tables were added, all of them empty. -/
structure Grows (F : Format P E) (d : Nat) (Root : I → Prop) (root : P) (m m' : P → I → E) :
    Prop where
  entry : ∀ q j e, Path d Root q → q.length = d →
    Radix.entry F m root q j = some e → Radix.entry F m' root q j = some e
  leaf : ∀ q j, Path d Root q → q.length = d → Radix.leaf F m' root q j = Radix.leaf F m root q j

theorem Grows.refl (m : P → I → E) : Grows F d Root root m m :=
  ⟨fun _ _ _ _ _ h => h, fun _ _ _ _ => rfl⟩

theorem Grows.trans {m m' m'' : P → I → E} (h : Grows F d Root root m m')
    (h' : Grows F d Root root m' m'') : Grows F d Root root m m'' where
  entry := fun q j e hq hlen he => h'.entry q j e hq hlen (h.entry q j e hq hlen he)
  leaf := fun q j hq hlen => (h'.leaf q j hq hlen).trans (h.leaf q j hq hlen)

/-- The paths of `C` that lead to no table. -/
def missing (F : Format P E) (C : Finset (List I)) (m : P → I → E) (root : P) :
    Finset (List I) :=
  C.filter fun q => (walk F m root q).isNone

theorem mem_missing {C : Finset (List I)} {m : P → I → E} {q : List I} :
    q ∈ missing F C m root ↔ q ∈ C ∧ walk F m root q = none := by
  simp [missing]

/-! ## Writes outside the tree -/

/-- A page that is no table may be overwritten. -/
theorem walk_of_agree {m m' : P → I → E} {u : P}
    (hu : ∀ q, Path d Root q → walk F m root q ≠ some u) (h : ∀ t, t ≠ u → m' t = m t)
    {q : List I} (hq : Path d Root q) : walk F m' root q = walk F m root q := by
  induction q using List.reverseRecOn with
  | nil => rfl
  | append_singleton q i ih =>
      rw [walk_snoc, walk_snoc, ih hq.of_append]
      apply Option.bind_congr
      intro t ht
      have htu : t ≠ u := by
        rintro rfl
        exact hu q hq.of_append ht
      rw [h t htu]

theorem entry_of_agree {m m' : P → I → E} {u : P}
    (hu : ∀ q, Path d Root q → walk F m root q ≠ some u) (h : ∀ t, t ≠ u → m' t = m t)
    {q : List I} (hq : Path d Root q) (j : I) : entry F m' root q j = entry F m root q j := by
  rw [entry, entry, walk_of_agree hu h hq]
  apply Option.map_congr
  intro t ht
  have htu : t ≠ u := by
    rintro rfl
    exact hu q hq ht
  rw [h t htu]

/-! ## An empty top-level table -/

theorem walk_of_zero {m : P → I → E} (h : ∀ i, m root i = F.zero) (i : I) (q : List I) :
    walk F m root (i :: q) = none := by
  rw [walk, h, Format.next_zero]
  rfl

theorem tree_of_zero {m : P → I → E} (h : ∀ i, m root i = F.zero) (p q : List I) (t : P)
    (hp : walk F m root p = some t) (hq : walk F m root q = some t) : p = q := by
  rcases p with _ | ⟨i, p⟩
  · rcases q with _ | ⟨j, q⟩
    · rfl
    · rw [walk_of_zero h] at hq
      cases hq
  · rw [walk_of_zero h] at hp
    cases hp

section NewRoot

variable [DecidableEq P] {A : Supply F} {s : State P I E}

theorem newRoot_zero (i : I) : (A.newRoot s).mem (A.page s.used) i = F.zero := by
  simp [Supply.newRoot, clear]

theorem WellFormed.newRoot (hlim : s.used < A.limit) :
    WellFormed A d Root (A.page s.used) (A.newRoot s) where
  tree := fun p q t _ _ => tree_of_zero newRoot_zero p q t
  fresh := by
    intro n q hn hn' _ hq
    have hused : s.used + 1 ≤ n := hn
    rcases q with _ | ⟨i, q⟩
    · have hpage := A.page_injOn _ hlim _ hn' (Option.some.inj hq)
      omega
    · rw [walk_of_zero newRoot_zero] at hq
      cases hq

theorem leaf_newRoot (q : List I) (j : I) :
    leaf F (A.newRoot s).mem (A.page s.used) q j = none := by
  rcases q with _ | ⟨i, q⟩
  · simp [leaf, entry, walk, newRoot_zero, F.zero_absent]
  · simp [leaf, entry, walk_of_zero newRoot_zero]

end NewRoot

section Writes

variable [DecidableEq P] [DecidableEq I]

theorem write_self (m : P → I → E) (t : P) (i : I) (e : E) : write m t i e t i = e := by
  simp [write]

theorem write_of_ne (m : P → I → E) {t t' : P} {i i' : I} (e : E) (h : ¬ (t' = t ∧ i' = i)) :
    write m t i e t' i' = m t' i' := by
  by_cases ht : t' = t
  · subst ht
    have hi : i' ≠ i := fun hi => h ⟨rfl, hi⟩
    simp [write, hi]
  · simp [write, ht]

/-! ## Creating a table -/

variable {A : Supply F} {s : State P I E}

theorem create_mem (t : P) (i : I) :
    (A.create s t i).mem = write (clear F s.mem (A.page s.used)) t i (A.link s.used) := rfl

theorem create_mem_page (t : P) (i j : I) (ht : A.page s.used ≠ t) :
    (A.create s t i).mem (A.page s.used) j = F.zero := by
  have hne : ¬ (A.page s.used = t ∧ j = i) := fun h => ht h.1
  rw [create_mem, write_of_ne _ _ hne]
  simp [clear]

theorem create_mem_self (t : P) (i : I) : (A.create s t i).mem t i = A.link s.used :=
  write_self _ _ _ _

theorem create_mem_of_ne {t t' : P} {i j : I} (hpage : t' ≠ A.page s.used)
    (hne : ¬ (t' = t ∧ j = i)) : (A.create s t i).mem t' j = s.mem t' j := by
  rw [create_mem, write_of_ne _ _ hne]
  simp [clear, hpage]

/-- A created table is found at its own path; nothing else is found or lost. -/
theorem walk_create (h : WellFormed A d Root root s) (hlim : s.used < A.limit) {p : List I} {t : P} {i : I}
    (hp : Path d Root (p ++ [i])) (ht : walk F s.mem root p = some t)
    (hnone : F.next (s.mem t i) = none) {q : List I} (hq : Path d Root q) :
    walk F (A.create s t i).mem root q =
      if q = p ++ [i] then some (A.page s.used) else walk F s.mem root q := by
  have hold : walk F s.mem root (p ++ [i]) = none := by
    rw [walk_snoc, ht]
    exact hnone
  have htpage : A.page s.used ≠ t := h.page_ne hlim hp.of_append ht
  -- from the root down, so that the table above is known when an entry is read
  induction q using List.reverseRecOn with
  | nil =>
      rw [if_neg (by simp)]
      rfl
  | append_singleton q j ih =>
      rw [walk_snoc, ih hq.of_append]
      by_cases hqp : q = p ++ [i]
      · -- below the new table, which is empty
        subst hqp
        have hlong : p ++ [i] ++ [j] ≠ p ++ [i] := by simp
        rw [if_pos rfl, if_neg hlong, walk_snoc, hold, Option.bind_some,
          create_mem_page t i j htpage, Format.next_zero]
        rfl
      · rw [if_neg hqp]
        by_cases hqj : q ++ [j] = p ++ [i]
        · -- the new entry itself
          have heq := List.append_inj' hqj rfl
          have hj : j = i := by simpa using heq.2
          rw [if_pos hqj, heq.1, ht, Option.bind_some, hj, create_mem_self, A.next_link hlim]
        · -- an entry of another table, or another entry of this one
          rw [if_neg hqj, walk_snoc]
          apply Option.bind_congr
          intro t' ht'
          have hpage : t' ≠ A.page s.used := (h.page_ne hlim hq.of_append ht').symm
          have hne : ¬ (t' = t ∧ j = i) := by
            rintro ⟨rfl, rfl⟩
            exact hqj (by rw [h.tree q p t' hq.of_append hp.of_append ht' ht])
          rw [create_mem_of_ne hpage hne]

theorem WellFormed.create (h : WellFormed A d Root root s) (hlim : s.used < A.limit) {p : List I} {t : P} {i : I}
    (hp : Path d Root (p ++ [i])) (ht : walk F s.mem root p = some t)
    (hnone : F.next (s.mem t i) = none) : WellFormed A d Root root (A.create s t i) where
  tree := by
    intro q q' u hq hq' hu hu'
    rw [walk_create h hlim hp ht hnone hq] at hu
    rw [walk_create h hlim hp ht hnone hq'] at hu'
    -- a path to the new page and a path to an old page differ in where they lead
    split at hu <;> split at hu'
    next hqp hqp' => rw [hqp, hqp']
    next _ _ =>
      rw [← Option.some.inj hu] at hu'
      exact absurd hu' (h.fresh _ _ (Nat.le_refl _) hlim hq')
    next _ _ =>
      rw [← Option.some.inj hu'] at hu
      exact absurd hu (h.fresh _ _ (Nat.le_refl _) hlim hq)
    next _ _ => exact h.tree q q' u hq hq' hu hu'
  fresh := by
    intro n q hn hn' hq hwalk
    have hused : s.used + 1 ≤ n := hn
    rw [walk_create h hlim hp ht hnone hq] at hwalk
    split at hwalk
    next _ =>
      have hpage := A.page_injOn _ hlim _ hn' (Option.some.inj hwalk)
      omega
    next _ => exact h.fresh n q (by omega) hn' hq hwalk

/-- A created table adds an empty table and changes no entry there was. -/
theorem entry_create (h : WellFormed A d Root root s) (hlim : s.used < A.limit) {p : List I} {t : P} {i : I}
    (hp : Path d Root (p ++ [i])) (ht : walk F s.mem root p = some t)
    (hnone : F.next (s.mem t i) = none) {q : List I} (hq : Path d Root q) (hlen : q.length = d)
    (j : I) :
    entry F (A.create s t i).mem root q j =
      if q = p ++ [i] then some F.zero else entry F s.mem root q j := by
  rw [entry, walk_create h hlim hp ht hnone hq]
  split
  next _ =>
    have htpage : A.page s.used ≠ t := h.page_ne hlim hp.of_append ht
    rw [Option.map_some, create_mem_page t i j htpage]
  next _ =>
    rw [entry]
    apply Option.map_congr
    intro u hu
    apply create_mem_of_ne
    · exact (h.page_ne hlim hq hu).symm
    · -- `p` is too short to lead to a table of the last level
      rintro ⟨rfl, -⟩
      have heq := h.tree q p u hq hp.of_append hu ht
      have hlt := hp.length_lt
      rw [← heq] at hlt
      omega

theorem Grows.create (h : WellFormed A d Root root s) (hlim : s.used < A.limit) {p : List I} {t : P} {i : I}
    (hp : Path d Root (p ++ [i])) (ht : walk F s.mem root p = some t)
    (hnone : F.next (s.mem t i) = none) : Grows F d Root root s.mem (A.create s t i).mem := by
  have hold (j : I) : Radix.entry F s.mem root (p ++ [i]) j = none := by
    rw [Radix.entry, walk_snoc, ht, Option.bind_some, hnone]
    rfl
  constructor
  · -- the new table had no entry before
    intro q j e hq hlen he
    rw [entry_create h hlim hp ht hnone hq hlen, if_neg ?_]
    · exact he
    · rintro rfl
      rw [hold] at he
      cases he
  · intro q j hq hlen
    rw [Radix.leaf, Radix.leaf, entry_create h hlim hp ht hnone hq hlen]
    split
    next hqp =>
      -- and has none that is present now
      rw [hqp, hold, Option.filter_some, F.zero_absent]
      rfl
    next _ => rfl

/-! ## Descending -/

theorem used_lookupOrCreate_le (t : P) (i : I) : s.used ≤ (A.lookupOrCreate s t i).1.used := by
  rcases hnext : F.next (s.mem t i) with _ | t'
  · simp [Supply.lookupOrCreate, hnext, Supply.create]
  · simp [Supply.lookupOrCreate, hnext]

theorem used_descend_le (t : P) (q : List I) : s.used ≤ (A.descend s t q).1.used := by
  induction q generalizing s t with
  | nil => exact Nat.le_refl _
  | cons i q ih => exact Nat.le_trans (used_lookupOrCreate_le t i) (ih _)

theorem lookupOrCreate_spec (h : WellFormed A d Root root s) {p : List I} {t : P} {i : I}
    (hp : Path d Root (p ++ [i])) (ht : walk F s.mem root p = some t)
    (hlim : (A.lookupOrCreate s t i).1.used ≤ A.limit) :
    WellFormed A d Root root (A.lookupOrCreate s t i).1 ∧
    walk F (A.lookupOrCreate s t i).1.mem root (p ++ [i]) = some (A.lookupOrCreate s t i).2 ∧
    Grows F d Root root s.mem (A.lookupOrCreate s t i).1.mem := by
  rcases hnext : F.next (s.mem t i) with _ | t'
  · simp only [Supply.lookupOrCreate, hnext] at hlim ⊢
    have hlt : s.used < A.limit := hlim
    refine ⟨h.create hlt hp ht hnext, ?_, Grows.create h hlt hp ht hnext⟩
    rw [walk_create h hlt hp ht hnext hp, if_pos rfl]
  · simp only [Supply.lookupOrCreate, hnext]
    refine ⟨h, ?_, Grows.refl _⟩
    rw [walk_snoc, ht]
    exact hnext

theorem descend_spec (h : WellFormed A d Root root s) {p q : List I} {t : P}
    (hpq : Path d Root (p ++ q)) (ht : walk F s.mem root p = some t)
    (hlim : (A.descend s t q).1.used ≤ A.limit) :
    WellFormed A d Root root (A.descend s t q).1 ∧
    walk F (A.descend s t q).1.mem root (p ++ q) = some (A.descend s t q).2 ∧
    Grows F d Root root s.mem (A.descend s t q).1.mem := by
  induction q generalizing s p t with
  | nil =>
      rw [List.append_nil]
      exact ⟨h, ht, Grows.refl _⟩
  | cons i q ih =>
      -- `p` grows by one index, so that `ht` holds for the next table
      rw [List.append_cons] at hpq ⊢
      have hlim' : (A.lookupOrCreate s t i).1.used ≤ A.limit := Nat.le_trans (used_descend_le _ q) hlim
      rcases lookupOrCreate_spec h hpq.of_append ht hlim' with ⟨hwf, hwalk, hgrow⟩
      rcases ih hwf hpq hwalk hlim with ⟨hwf', hwalk', hgrow'⟩
      exact ⟨hwf', hwalk', hgrow.trans hgrow'⟩

/-- A table found after the descent was there before or is a page handed out. -/
theorem tables_descend (h : WellFormed A d Root root s) {p q : List I} {t : P}
    (hpq : Path d Root (p ++ q)) (ht : walk F s.mem root p = some t)
    (hlim : (A.descend s t q).1.used ≤ A.limit) {r : List I} {u : P} (hr : Path d Root r)
    (hu : walk F (A.descend s t q).1.mem root r = some u) :
    walk F s.mem root r = some u ∨ ∃ n < A.limit, u = A.page n := by
  induction q generalizing s p t with
  | nil => exact Or.inl hu
  | cons i q ih =>
      rw [List.append_cons] at hpq
      have hlim' : (A.lookupOrCreate s t i).1.used ≤ A.limit := Nat.le_trans (used_descend_le _ q) hlim
      rcases lookupOrCreate_spec h hpq.of_append ht hlim' with ⟨hwf, hwalk, -⟩
      rcases ih hwf hpq hwalk hlim hu with hold | hpage
      · rcases hnext : F.next (s.mem t i) with _ | t'
        · -- it may be the table created in this step
          simp only [Supply.lookupOrCreate, hnext] at hold hlim'
          have hlt : s.used < A.limit := hlim'
          rw [walk_create h hlt hpq.of_append ht hnext hr] at hold
          split at hold
          next _ => exact Or.inr ⟨s.used, hlt, (Option.some.inj hold).symm⟩
          next _ => exact Or.inl hold
        · simp only [Supply.lookupOrCreate, hnext] at hold
          exact Or.inl hold
      · exact Or.inr hpage

/-! ## Writing a leaf -/

/-- A write to a table of the last level moves no table. -/
theorem walk_write (h : WellFormed A d Root root s) {p : List I} {t : P} {j : I} {e : E}
    (hp : Path d Root p) (hlen : p.length = d) (ht : walk F s.mem root p = some t)
    {q : List I} (hq : Path d Root q) :
    walk F (write s.mem t j e) root q = walk F s.mem root q := by
  induction q using List.reverseRecOn with
  | nil => rfl
  | append_singleton q i ih =>
      rw [walk_snoc, walk_snoc, ih hq.of_append]
      apply Option.bind_congr
      intro t' ht'
      rw [write_of_ne]
      -- tables of the last level name no tables
      rintro ⟨rfl, -⟩
      have heq := h.tree q p t' hq.of_append hp ht' ht
      have hlt := hq.length_lt
      rw [heq] at hlt
      omega

theorem WellFormed.write (h : WellFormed A d Root root s) {p : List I} {t : P} {j : I} {e : E}
    (hp : Path d Root p) (hlen : p.length = d) (ht : walk F s.mem root p = some t) :
    WellFormed A d Root root { s with mem := Radix.write s.mem t j e } where
  tree := by
    intro q q' u hq hq' hu hu'
    rw [walk_write h hp hlen ht hq] at hu
    rw [walk_write h hp hlen ht hq'] at hu'
    exact h.tree q q' u hq hq' hu hu'
  fresh := by
    intro n q hn hn' hq hwalk
    rw [walk_write h hp hlen ht hq] at hwalk
    exact h.fresh n q hn hn' hq hwalk

theorem entry_write (h : WellFormed A d Root root s) {p : List I} {t : P} {j : I} {e : E}
    (hp : Path d Root p) (hlen : p.length = d) (ht : walk F s.mem root p = some t)
    {q : List I} (hq : Path d Root q) (k : I) :
    entry F (write s.mem t j e) root q k =
      if q = p ∧ k = j then some e else entry F s.mem root q k := by
  rw [entry, walk_write h hp hlen ht hq]
  split
  next hqk =>
    rw [hqk.1, hqk.2, ht, Option.map_some, write_self]
  next hqk =>
    rw [entry]
    apply Option.map_congr
    intro u hu
    apply write_of_ne
    rintro ⟨rfl, rfl⟩
    exact hqk ⟨h.tree q p u hq hp hu ht, rfl⟩

theorem used_store_le (t : P) (q : List I) (j : I) (e : E) :
    s.used ≤ (A.store s t q j e).used :=
  used_descend_le t q

/-- What a store leaves behind: its own leaf, and every other one as it was. -/
theorem store_spec (h : WellFormed A d Root root s) {p : List I} (j : I) (e : E)
    (hp : Path d Root p) (hlen : p.length = d) (hlim : (A.store s root p j e).used ≤ A.limit) :
    WellFormed A d Root root (A.store s root p j e) ∧
    entry F (A.store s root p j e).mem root p j = some e ∧
    (∀ q k x, Path d Root q → q.length = d → ¬ (q = p ∧ k = j) →
      entry F s.mem root q k = some x → entry F (A.store s root p j e).mem root q k = some x) ∧
    ∀ q k, Path d Root q → q.length = d → ¬ (q = p ∧ k = j) →
      leaf F (A.store s root p j e).mem root q k = leaf F s.mem root q k := by
  have hroot : walk F s.mem root [] = some root := rfl
  rcases descend_spec h (p := []) (q := p) hp hroot hlim with ⟨hwf, hwalk, hgrow⟩
  refine ⟨hwf.write hp hlen hwalk, ?_, ?_, ?_⟩
  · rw [Supply.store, entry_write hwf hp hlen hwalk hp, if_pos ⟨rfl, rfl⟩]
  · intro q k x hq hqlen hne hx
    rw [Supply.store, entry_write hwf hp hlen hwalk hq, if_neg hne]
    exact hgrow.entry q k x hq hqlen hx
  · intro q k hq hqlen hne
    rw [leaf, Supply.store, entry_write hwf hp hlen hwalk hq, if_neg hne]
    exact hgrow.leaf q k hq hqlen

theorem tables_store (h : WellFormed A d Root root s) {p : List I} {j : I} {e : E}
    (hp : Path d Root p) (hlen : p.length = d) (hlim : (A.store s root p j e).used ≤ A.limit)
    {r : List I} {u : P} (hr : Path d Root r)
    (hu : walk F (A.store s root p j e).mem root r = some u) :
    walk F s.mem root r = some u ∨ ∃ n < A.limit, u = A.page n := by
  have hroot : walk F s.mem root [] = some root := rfl
  rcases descend_spec h (p := []) (q := p) hp hroot hlim with ⟨hwf, hwalk, -⟩
  rw [Supply.store, walk_write hwf hp hlen hwalk hr] at hu
  exact tables_descend h (p := []) (q := p) hp hroot hlim hr hu

/-! ## Entries outside the paths -/

/-- The entry is in no table that a path leads to, except at an index of the
top-level table where no path starts. -/
def Outside (F : Format P E) (d : Nat) (Root : I → Prop) (root : P) (m : P → I → E) (u : P)
    (j : I) : Prop :=
  ∀ q, Path d Root q → walk F m root q = some u → q = [] ∧ ¬ Root j

theorem mem_descend (h : WellFormed A d Root root s) {p q : List I} {t : P}
    (hpq : Path d Root (p ++ q)) (ht : walk F s.mem root p = some t)
    (hlim : (A.descend s t q).1.used ≤ A.limit) {u : P} {j : I}
    (hpages : ∀ n < A.limit, A.page n ≠ u) (hout : Outside F d Root root s.mem u j) :
    (A.descend s t q).1.mem u j = s.mem u j := by
  induction q generalizing s p t with
  | nil => rfl
  | cons i q ih =>
      rw [List.append_cons] at hpq
      have hlim' : (A.lookupOrCreate s t i).1.used ≤ A.limit :=
        Nat.le_trans (used_descend_le _ q) hlim
      rcases lookupOrCreate_spec h hpq.of_append ht hlim' with ⟨hwf, hwalk, -⟩
      rcases hnext : F.next (s.mem t i) with _ | t'
      · have hstate : (A.lookupOrCreate s t i).1 = A.create s t i := by
          simp only [Supply.lookupOrCreate, hnext]
        rw [hstate] at hlim'
        have hlt : s.used < A.limit := hlim'
        have hout' : Outside F d Root root (A.lookupOrCreate s t i).1.mem u j := by
          intro r hr hu
          rw [hstate, walk_create h hlt hpq.of_append ht hnext hr] at hu
          split at hu
          · exact absurd (Option.some.inj hu) (hpages _ hlt)
          · exact hout r hr hu
        refine (ih hwf hpq hwalk hlim hout').trans ?_
        rw [hstate]
        refine create_mem_of_ne (hpages _ hlt).symm ?_
        rintro ⟨rfl, rfl⟩
        -- a path that goes on from the top-level table starts in `Root`
        rcases hout p hpq.of_append.of_append ht with ⟨rfl, hroot⟩
        exact hroot (hpq.head j rfl)
      · have hlookup : A.lookupOrCreate s t i = (s, t') := by
          simp only [Supply.lookupOrCreate, hnext]
        rw [hlookup] at hwalk
        rw [Supply.descend, hlookup] at hlim ⊢
        exact ih h hpq hwalk hlim hout

theorem mem_store (h : WellFormed A d Root root s) {p : List I} {i : I} {e : E}
    (hp : Path d Root p) (hlen : p.length = d) (hd : 0 < d)
    (hlim : (A.store s root p i e).used ≤ A.limit) {u : P} {j : I}
    (hpages : ∀ n < A.limit, A.page n ≠ u) (hout : Outside F d Root root s.mem u j) :
    (A.store s root p i e).mem u j = s.mem u j := by
  have hroot : walk F s.mem root [] = some root := rfl
  rcases descend_spec h (p := []) (q := p) hp hroot hlim with ⟨-, hwalk, -⟩
  refine (write_of_ne _ _ ?_).trans (mem_descend h (p := []) hp hroot hlim hpages hout)
  rintro ⟨rfl, -⟩
  -- the leaf is in a table of the last level
  rcases tables_descend h (p := []) hp hroot hlim hp hwalk with hold | ⟨n, hn, hpage⟩
  · have hnil := (hout p hp hold).1
    rw [hnil] at hlen
    exact absurd hlen (Nat.ne_of_lt hd)
  · exact hpages n hn hpage.symm

theorem Outside.store (h : WellFormed A d Root root s) {p : List I} {i : I} {e : E}
    (hp : Path d Root p) (hlen : p.length = d) (hlim : (A.store s root p i e).used ≤ A.limit)
    {u : P} {j : I} (hpages : ∀ n < A.limit, A.page n ≠ u)
    (hout : Outside F d Root root s.mem u j) :
    Outside F d Root root (A.store s root p i e).mem u j := by
  intro q hq hu
  rcases tables_store h hp hlen hlim hq hu with hold | ⟨n, hn, hpage⟩
  · exact hout q hq hold
  · exact absurd hpage.symm (hpages n hn)

/-! ## How many tables can be created -/

/-- A page is handed out only for a path that was missing. -/
theorem used_descend_add_missing {C : Finset (List I)} (hC : ∀ q ∈ C, Path d Root q)
    (h : WellFormed A d Root root s) {p q : List I} {t : P} (ht : walk F s.mem root p = some t)
    (hq : ∀ r, r <+: q → r ≠ [] → p ++ r ∈ C)
    (hroom : s.used + (missing F C s.mem root).card ≤ A.limit) :
    (A.descend s t q).1.used + (missing F C (A.descend s t q).1.mem root).card ≤
      s.used + (missing F C s.mem root).card := by
  induction q generalizing s p t with
  | nil => exact Nat.le_refl _
  | cons i q ih =>
      have hpi : p ++ [i] ∈ C := hq [i] (by simp) (by simp)
      have hrest : ∀ r, r <+: q → r ≠ [] → p ++ [i] ++ r ∈ C := by
        intro r hr hne
        have hmem := hq (i :: r) (List.cons_prefix_cons.mpr ⟨rfl, hr⟩) (by simp)
        rwa [List.append_cons] at hmem
      rcases hnext : F.next (s.mem t i) with _ | t'
      · -- the path to the new table is no longer missing
        have hgone : p ++ [i] ∈ missing F C s.mem root := by
          rw [mem_missing, walk_snoc, ht]
          exact ⟨hpi, hnext⟩
        have hpos := Finset.card_pos.mpr ⟨_, hgone⟩
        have hlt : s.used < A.limit := by omega
        have hstep : (missing F C (A.create s t i).mem root).card <
            (missing F C s.mem root).card := by
          refine Finset.card_lt_card ((Finset.ssubset_iff_of_subset ?_).mpr ⟨_, hgone, ?_⟩)
          · intro r hr
            rw [mem_missing] at hr ⊢
            rw [walk_create h hlt (hC _ hpi) ht hnext (hC r hr.1)] at hr
            split at hr
            · cases hr.2
            · exact hr
          · rw [mem_missing, walk_create h hlt (hC _ hpi) ht hnext (hC _ hpi), if_pos rfl]
            exact fun hnone => nomatch hnone.2
        have hlookup : A.lookupOrCreate s t i = (A.create s t i, A.page s.used) := by
          simp only [Supply.lookupOrCreate, hnext]
        have hused : (A.create s t i).used = s.used + 1 := rfl
        have hwalk : walk F (A.create s t i).mem root (p ++ [i]) = some (A.page s.used) := by
          rw [walk_create h hlt (hC _ hpi) ht hnext (hC _ hpi), if_pos rfl]
        rw [Supply.descend, hlookup]
        refine Nat.le_trans (ih (h.create hlt (hC _ hpi) ht hnext) hwalk hrest (by omega)) ?_
        omega
      · have hlookup : A.lookupOrCreate s t i = (s, t') := by
          simp only [Supply.lookupOrCreate, hnext]
        have hwalk : walk F s.mem root (p ++ [i]) = some t' := by
          rw [walk_snoc, ht]
          exact hnext
        rw [Supply.descend, hlookup]
        exact ih h hwalk hrest hroom

theorem used_store_add_missing {C : Finset (List I)} (hC : ∀ q ∈ C, Path d Root q)
    (h : WellFormed A d Root root s) {p : List I} {j : I} {e : E} (hp : Path d Root p)
    (hlen : p.length = d) (hq : ∀ r, r <+: p → r ≠ [] → r ∈ C)
    (hroom : s.used + (missing F C s.mem root).card ≤ A.limit) :
    (A.store s root p j e).used + (missing F C (A.store s root p j e).mem root).card ≤
      s.used + (missing F C s.mem root).card := by
  have hroot : walk F s.mem root [] = some root := rfl
  have hle := used_descend_add_missing hC h (p := []) hroot hq hroom
  have hlim : (A.descend s root p).1.used ≤ A.limit := by omega
  rcases descend_spec h (p := []) (q := p) hp hroot hlim with ⟨hwf, hwalk, -⟩
  have hsame : missing F C (A.store s root p j e).mem root =
      missing F C (A.descend s root p).1.mem root := by
    refine Finset.filter_congr fun q hmem => ?_
    rw [Supply.store, walk_write hwf hp hlen hwalk (hC q hmem)]
  rw [hsame]
  exact hle

theorem walk_erase (h : WellFormed A d Root root s) {p : List I} (j : I)
    (hp : Path d Root p) (hlen : p.length = d) {q : List I} (hq : Path d Root q) :
    walk F (erase F s.mem root p j) root q = walk F s.mem root q := by
  rcases ht : walk F s.mem root p with _ | t
  · simp only [erase, ht]
  · simp only [erase, ht]
    split
    next _ => exact walk_write h hp hlen ht hq
    next _ => rfl

/-- An erased leaf is not present, every other entry is as it was. -/
theorem erase_spec (h : WellFormed A d Root root s) {p : List I} (j : I)
    (hp : Path d Root p) (hlen : p.length = d) :
    WellFormed A d Root root { s with mem := erase F s.mem root p j } ∧
    leaf F (erase F s.mem root p j) root p j = none ∧
    ∀ q k, Path d Root q → ¬ (q = p ∧ k = j) →
      entry F (erase F s.mem root p j) root q k = entry F s.mem root q k := by
  rcases ht : walk F s.mem root p with _ | t
  · have hsame : erase F s.mem root p j = s.mem := by simp only [erase, ht]
    rw [hsame]
    refine ⟨h, ?_, fun _ _ _ _ => rfl⟩
    simp [leaf, entry, ht]
  · simp only [erase, ht]
    split
    next _ =>
      refine ⟨h.write hp hlen ht, ?_, ?_⟩
      · rw [leaf, entry_write h hp hlen ht hp, if_pos ⟨rfl, rfl⟩, Option.filter_some, F.zero_absent]
        rfl
      · intro q k hq hne
        rw [entry_write h hp hlen ht hq, if_neg hne]
    next habsent =>
      refine ⟨h, ?_, fun _ _ _ _ => rfl⟩
      simp [leaf, entry, ht, habsent]

end Writes

/-! ## A second reader

The tables may be read by a machine that asks more of an entry than the program that writes
them. Nothing is assumed about the pages here: those handed out may be in use already. -/

section Reader

variable [DecidableEq P] [DecidableEq I] {G : Format P E} {A : Supply F} {s : State P I E}

/-- What `G` follows, `F` follows too, to the same table; and a new entry leads to the new
page. -/
structure Supply.ReadBy (A : Supply F) (G : Format P E) : Prop where
  next : ∀ e t, G.next e = some t → F.next e = some t
  zero : G.next F.zero = none
  link : ∀ n t, G.next (A.link n) = some t → t = A.page n

/-- An entry of a new page, or the one that names it. -/
theorem next_create {t v u : P} {i j : I} (hG : A.ReadBy G)
    (hnext : G.next ((A.create s t i).mem v j) = some u) :
    u = A.page s.used ∨ v ≠ A.page s.used ∧ G.next (s.mem v j) = some u := by
  by_cases hslot : v = t ∧ j = i
  · rw [hslot.1, hslot.2, create_mem_self] at hnext
    exact Or.inl (hG.link _ _ hnext)
  · rw [create_mem, write_of_ne _ _ hslot, clear] at hnext
    by_cases hpage : v = A.page s.used
    · rw [hpage, Function.update_self, hG.zero] at hnext
      cases hnext
    · rw [Function.update_of_ne hpage] at hnext
      exact Or.inr ⟨hpage, hnext⟩

/-- A walk that gets to the new page stays there. -/
theorem walk_create_page {t u : P} {i : I} {q : List I} (hG : A.ReadBy G)
    (hwalk : walk G (A.create s t i).mem (A.page s.used) q = some u) : u = A.page s.used := by
  induction q with
  | nil => exact (Option.some.inj hwalk).symm
  | cons j q ih =>
      obtain ⟨v, hnext, hrest⟩ := Option.bind_eq_some_iff.mp hwalk
      rcases next_create hG hnext with rfl | ⟨hne, -⟩
      · exact ih hrest
      · exact absurd rfl hne

theorem walk_create_or {t v u : P} {i : I} {q : List I} (hG : A.ReadBy G)
    (hwalk : walk G (A.create s t i).mem v q = some u) :
    u = A.page s.used ∨ walk G s.mem v q = some u := by
  induction q generalizing v with
  | nil => exact Or.inr hwalk
  | cons j q ih =>
      obtain ⟨v', hnext, hrest⟩ := Option.bind_eq_some_iff.mp hwalk
      rcases next_create hG hnext with rfl | ⟨-, hold⟩
      · exact Or.inl (walk_create_page hG hrest)
      · refine (ih hrest).imp_right fun h => ?_
        rw [walk, hold]
        exact h

/-- The second reader gets to no other table than the one that was looked up. -/
theorem walk_lookupOrCreate {t u : P} {i : I} {p : List I} (hG : A.ReadBy G)
    (h : ∀ v, walk G s.mem root p = some v → v = t)
    (hwalk : walk G (A.lookupOrCreate s t i).1.mem root (p ++ [i]) = some u) :
    u = (A.lookupOrCreate s t i).2 := by
  rw [walk_snoc] at hwalk
  obtain ⟨v, hp, hnext⟩ := Option.bind_eq_some_iff.mp hwalk
  rw [Supply.lookupOrCreate] at hp hnext ⊢
  cases hfound : F.next (s.mem t i) with
  | some t' =>
      simp only [hfound] at hp hnext ⊢
      rw [h v hp] at hnext
      exact Option.some.inj ((hG.next _ _ hnext).symm.trans hfound)
  | none =>
      simp only [hfound] at hp hnext ⊢
      rcases walk_create_or hG hp with rfl | hold
      · rcases next_create hG hnext with hpage | ⟨hne, -⟩
        · exact hpage
        · exact absurd rfl hne
      · rw [h v hold, create_mem_self] at hnext
        exact hG.link _ _ hnext

theorem walk_descend {t u : P} {p q : List I} (hG : A.ReadBy G)
    (h : ∀ v, walk G s.mem root p = some v → v = t)
    (hwalk : walk G (A.descend s t q).1.mem root (p ++ q) = some u) :
    u = (A.descend s t q).2 := by
  induction q generalizing s t p with
  | nil =>
      rw [List.append_nil] at hwalk
      exact h u hwalk
  | cons i q ih =>
      rw [List.append_cons] at hwalk
      exact ih (fun v => walk_lookupOrCreate hG h) hwalk

/-- An entry that is not followed closes the walks through it. -/
theorem walk_of_write {m : P → I → E} {t v u : P} {j : I} {e : E} {q : List I}
    (he : G.next e = none) (hwalk : walk G (write m t j e) v q = some u) :
    walk G m v q = some u := by
  induction q generalizing v with
  | nil => exact hwalk
  | cons i q ih =>
      obtain ⟨v', hnext, hrest⟩ := Option.bind_eq_some_iff.mp hwalk
      have hslot : ¬ (v = t ∧ i = j) := by
        rintro ⟨rfl, rfl⟩
        rw [write_self, he] at hnext
        cases hnext
      rw [write_of_ne _ _ hslot] at hnext
      rw [walk, hnext]
      exact ih hrest

/-- A leaf that the second reader does not accept is not found by it. -/
theorem leaf_store_of_absent {q : List I} {j : I} {e : E} (hG : A.ReadBy G)
    (he : G.present e = false) : leaf G (A.store s root q j e).mem root q j = none := by
  have hnone : G.next e = none := by rw [Format.next, he, if_neg Bool.false_ne_true]
  rw [leaf, entry]
  cases hwalk : walk G (A.store s root q j e).mem root q with
  | none => rfl
  | some u =>
      have hend : u = (A.descend s root q).2 :=
        walk_descend (p := []) hG (fun v hv => (Option.some.inj hv).symm) (walk_of_write hnone hwalk)
      have hentry : (A.store s root q j e).mem (A.descend s root q).2 j = e := write_self _ _ _ _
      rw [Option.map_some, hend, hentry, Option.filter_some, he]
      rfl

end Reader

end Radix
