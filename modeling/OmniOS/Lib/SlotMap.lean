import OmniOS.Lib.Slots

/-!
# SlotMap — a table of slots as a finite map

Records in a table are found by a key. While the keys are distinct, the order of
the records does not matter, and the table is a finite map: appending inserts
(`lookup_push`), removing erases (`lookup_removeAt`), and overwriting a record
without changing its key updates it (`lookup_set`).

`set` writes any slot, as a program does that keeps a pointer into the array; what
it does to a slot in use is `items_set`.
-/

namespace Slots

variable {α κ : Type*} {n : Nat}

/-- Overwrite one slot, in use or not. -/
def set (s : Slots α n) (i : Fin n) (a : α) : Slots α n :=
  { s with slot := Function.update s.slot i a }

theorem items_set (s : Slots α n) (i : Fin s.count) (a : α) :
    (s.set (i.castLE s.count_le) a).items = s.items.set i a := by
  refine List.ext_getElem (by simp [set]) fun j hj hj' => ?_
  rw [getElem_items, List.getElem_set]
  split
  next hij =>
    subst hij
    exact Function.update_self _ _ _
  next hij =>
    rw [getElem_items]
    exact Function.update_of_ne (fun heq => hij (congrArg Fin.val heq).symm) _ _

/-! ## Distinct keys -/

section Distinct

variable (key : α → κ)

/-- No two records have the same key. -/
def Distinct (s : Slots α n) : Prop := (s.items.map key).Nodup

variable {key} {s : Slots α n}

theorem distinct_empty (a : α) : (empty a : Slots α n).Distinct key := List.nodup_nil

theorem Distinct.push (h : s.Distinct key) (hroom : s.count < n) {a : α}
    (hfresh : ∀ b ∈ s.items, key b ≠ key a) : (s.push hroom a).Distinct key := by
  rw [Distinct, items_push, List.map_append, List.map_singleton]
  refine List.nodup_append.mpr ⟨h, List.nodup_singleton _, ?_⟩
  intro k hk k' hk' heq
  rcases List.mem_map.mp hk with ⟨b, hb, rfl⟩
  rw [List.mem_singleton] at hk'
  exact hfresh b hb (heq.trans hk')

theorem Distinct.removeAt (h : s.Distinct key) (i : Fin s.count) :
    key (s.get i) ∉ (s.removeAt i).items.map key ∧ (s.removeAt i).Distinct key := by
  have hnodup := ((s.items_removeAt i).map key).nodup h
  rw [List.map_cons, List.nodup_cons] at hnodup
  exact hnodup

theorem map_key_set (i : Fin s.count) {a : α} (hkey : key a = key (s.get i)) :
    (s.set (i.castLE s.count_le) a).items.map key = s.items.map key := by
  have hi : i.val < (s.items.map key).length := by simp
  have hitem : key a = (s.items.map key)[i.val] := by rw [List.getElem_map, getElem_items, hkey]
  rw [items_set, List.map_set, hitem, List.set_getElem_self hi]

theorem Distinct.set (h : s.Distinct key) (i : Fin s.count) {a : α} (hkey : key a = key (s.get i)) :
    (s.set (i.castLE s.count_le) a).Distinct key := by
  rw [Distinct, map_key_set i hkey]
  exact h

/-- Changing one record is changing every record with its key. -/
theorem Distinct.items_set_eq_map [DecidableEq κ] (h : s.Distinct key) (i : Fin s.count)
    (f : α → α) :
    (s.set (i.castLE s.count_le) (f (s.get i))).items =
      s.items.map fun a => if key a = key (s.get i) then f a else a := by
  have hi : i.val < s.items.length := by simp
  have hitem : s.items[i.val] = s.get i := getElem_items s i hi
  rw [items_set]
  refine List.ext_getElem (by simp) ?_
  intro j hj hj'
  rw [List.getElem_set, List.getElem_map]
  rw [List.length_set] at hj
  by_cases hij : i.val = j
  · subst hij
    rw [if_pos rfl, hitem, if_pos rfl]
  · have hne : key s.items[j] ≠ key (s.get i) := by
      intro hkey
      rw [← hitem] at hkey
      have hlen : (s.items.map key).length = s.items.length := List.length_map key
      have hmap : (s.items.map key)[j] = (s.items.map key)[i.val] := by
        rw [List.getElem_map, List.getElem_map, hkey]
      exact hij ((List.Nodup.getElem_inj_iff h).mp hmap).symm
    rw [if_neg hij, if_neg hne]

end Distinct

/-! ## Lookup -/

variable [DecidableEq κ] (key : α → κ)

/-- The first record with key `k`. -/
def lookup (s : Slots α n) (k : κ) : Option α := s.items.find? fun a => key a == k

variable {key} {s : Slots α n}

theorem lookup_eq_none {k : κ} : s.lookup key k = none ↔ ∀ a ∈ s.items, key a ≠ k := by
  simp [lookup]

theorem lookup_findIdx? {k : κ} : s.lookup key k = (s.findIdx? (key · == k)).map s.get :=
  find?_items s _

theorem key_of_findIdx? {k : κ} {i : Fin s.count} (h : s.findIdx? (key · == k) = some i) :
    key (s.get i) = k := by
  simpa using findIdx?_some h

theorem Distinct.lookup_eq_some (h : s.Distinct key) {k : κ} {a : α} :
    s.lookup key k = some a ↔ a ∈ s.items ∧ key a = k := by
  constructor
  · intro hfind
    exact ⟨List.mem_of_find?_eq_some hfind, by simpa using List.find?_some hfind⟩
  · rintro ⟨hmem, hkey⟩
    cases hfind : s.lookup key k with
    | none => exact absurd hkey (lookup_eq_none.mp hfind a hmem)
    | some b =>
        have hb : key b = k := by simpa using List.find?_some hfind
        have hsame := List.inj_on_of_nodup_map h (List.mem_of_find?_eq_some hfind) hmem
          (hb.trans hkey.symm)
        rw [hsame]

/-- Tables with the same records at a key agree there. -/
theorem Distinct.lookup_congr {t : Slots α n} (hs : s.Distinct key) (ht : t.Distinct key) {k : κ}
    (hmem : ∀ a, key a = k → (a ∈ s.items ↔ a ∈ t.items)) :
    s.lookup key k = t.lookup key k := by
  ext a
  rw [hs.lookup_eq_some, ht.lookup_eq_some]
  constructor
  · rintro ⟨ha, hkey⟩
    exact ⟨(hmem a hkey).mp ha, hkey⟩
  · rintro ⟨ha, hkey⟩
    exact ⟨(hmem a hkey).mpr ha, hkey⟩

theorem lookup_push (hroom : s.count < n) {a : α} (hfresh : ∀ b ∈ s.items, key b ≠ key a) :
    (s.push hroom a).lookup key = Function.update (s.lookup key) (key a) (some a) := by
  funext k
  rw [lookup, items_push, List.find?_append]
  by_cases hk : k = key a
  · subst hk
    rw [Function.update_self]
    have hnone : s.items.find? (fun b => key b == key a) = none := lookup_eq_none.mpr hfresh
    simp [hnone]
  · rw [Function.update_of_ne hk]
    have hne : (key a == k) = false := by
      rw [beq_eq_false_iff_ne]
      exact fun heq => hk heq.symm
    simp [lookup, hne]

theorem Distinct.lookup_removeAt (h : s.Distinct key) (i : Fin s.count) :
    (s.removeAt i).lookup key = Function.update (s.lookup key) (key (s.get i)) none := by
  rcases h.removeAt i with ⟨hgone, hdistinct⟩
  funext k
  by_cases hk : k = key (s.get i)
  · subst hk
    rw [Function.update_self, lookup_eq_none]
    intro a ha heq
    exact hgone (heq ▸ List.mem_map_of_mem ha)
  · rw [Function.update_of_ne hk]
    apply hdistinct.lookup_congr h
    intro a hkey
    rw [(s.items_removeAt i).mem_iff, List.mem_cons]
    constructor
    · exact Or.inr
    · rintro (rfl | ha)
      · exact absurd hkey.symm hk
      · exact ha

theorem Distinct.lookup_set (h : s.Distinct key) (i : Fin s.count) {a : α}
    (hkey : key a = key (s.get i)) :
    (s.set (i.castLE s.count_le) a).lookup key =
      Function.update (s.lookup key) (key (s.get i)) (some a) := by
  have hi : i.val < s.items.length := by simp
  funext k
  by_cases hk : k = key (s.get i)
  · subst hk
    rw [Function.update_self, (h.set i hkey).lookup_eq_some, items_set]
    exact ⟨List.mem_set hi a, hkey⟩
  · rw [Function.update_of_ne hk]
    apply (h.set i hkey).lookup_congr h
    intro b hb
    have hold : key s.items[i.val] ≠ k := by
      rw [getElem_items]
      exact fun heq => hk heq.symm
    have hnew : key a ≠ k := fun heq => hk (heq.symm.trans hkey)
    -- both lists are the other records and one with another key
    rw [items_set, (List.set_perm_cons_eraseIdx hi a).mem_iff,
      ← (List.getElem_cons_eraseIdx_perm hi).mem_iff, List.mem_cons, List.mem_cons]
    constructor
    · rintro (rfl | hmem)
      · exact absurd hb hnew
      · exact Or.inr hmem
    · rintro (rfl | hmem)
      · exact absurd hb hold
      · exact Or.inr hmem

end Slots
