import Mathlib.Data.List.Infix

/-!
# CString — searches in strings that a terminator ends

A string is what memory holds up to the terminator (`cstr`). `strchr` and `strstr` give the
rest of a string from the first match on. Each comes with what a match says about the string,
with the guarantee that a match is not overlooked, and with what happens to the search when
the string is made longer: a match stays, and without one the search goes on behind.
-/

namespace CString

variable {α : Type*} [DecidableEq α] {c nul : α} {s t r w pat : List α}

/-- The memory up to the terminator. -/
def cstr (nul : α) (mem : List α) : List α := mem.takeWhile (· ≠ nul)

/-- From the first `c` on. -/
def strchr (c : α) : List α → Option (List α)
  | [] => none
  | a :: s => if a = c then some (a :: s) else strchr c s

/-- From the first place on where `pat` is. -/
def strstr (pat : List α) : List α → Option (List α)
  | [] => if pat = [] then some [] else none
  | a :: s => if pat <+: a :: s then some (a :: s) else strstr pat s

/-! ## Terminators -/

theorem cstr_append_of_mem (h : nul ∈ s) (t : List α) : cstr nul (s ++ t) = cstr nul s := by
  induction s with
  | nil => exact absurd h List.not_mem_nil
  | cons a s ih =>
      unfold cstr at *
      by_cases ha : a = nul
      · simp [ha]
      · have hrest : nul ∈ s := (List.mem_cons.mp h).resolve_left (Ne.symm ha)
        simp only [List.cons_append, List.takeWhile_cons, ih hrest]

theorem cstr_append_of_notMem (h : nul ∉ s) (t : List α) :
    cstr nul (s ++ t) = s ++ cstr nul t := by
  refine List.takeWhile_append_of_pos fun a ha => decide_eq_true ?_
  rintro rfl
  exact h ha

theorem cstr_terminated (h : nul ∉ s) (t : List α) : cstr nul (s ++ nul :: t) = s := by
  rw [cstr_append_of_notMem h, cstr, List.takeWhile_cons, if_neg (by simp), List.append_nil]

/-! ## One character -/

theorem strchr_append_cons (h : c ∉ s) (t : List α) : strchr c (s ++ c :: t) = some (c :: t) := by
  induction s with
  | nil => rw [List.nil_append, strchr, if_pos rfl]
  | cons a s ih =>
      rw [List.mem_cons, not_or] at h
      rw [List.cons_append, strchr, if_neg (Ne.symm h.1), ih h.2]

theorem strchr_eq_none (h : c ∉ s) : strchr c s = none := by
  induction s with
  | nil => rfl
  | cons a s ih =>
      rw [List.mem_cons, not_or] at h
      rw [strchr, if_neg (Ne.symm h.1), ih h.2]

/-- The match is the first one. -/
theorem split_of_strchr (h : strchr c s = some w) :
    ∃ a r, c ∉ a ∧ s = a ++ c :: r ∧ w = c :: r := by
  induction s with
  | nil => cases h
  | cons b s ih =>
      rw [strchr] at h
      split at h
      · rename_i hb
        subst hb
        exact ⟨[], s, List.not_mem_nil, rfl, (Option.some.inj h).symm⟩
      · rename_i hb
        rcases ih h with ⟨a, r, ha, rfl, rfl⟩
        refine ⟨b :: a, r, ?_, rfl, rfl⟩
        rw [List.mem_cons, not_or]
        exact ⟨Ne.symm hb, ha⟩

theorem notMem_of_strchr (h : strchr c s = none) : c ∉ s := by
  intro hc
  rcases List.append_of_mem hc with ⟨a, r, rfl⟩
  induction a with
  | nil => simp [strchr] at h
  | cons b a ih =>
      rw [List.cons_append, strchr] at h
      split at h
      · cases h
      · exact ih h (List.mem_append_right a List.mem_cons_self)

theorem strchr_append_of_some (h : strchr c s = some w) (t : List α) :
    strchr c (s ++ t) = some (w ++ t) := by
  rcases split_of_strchr h with ⟨a, r, ha, rfl, rfl⟩
  rw [List.append_assoc, List.cons_append, strchr_append_cons ha]

/-- Any place where `c` is leads to a match that is not behind it. -/
theorem exists_strchr (c : α) (s t : List α) :
    ∃ u, strchr c (s ++ c :: t) = some (u ++ c :: t) := by
  induction s with
  | nil => exact ⟨[], strchr_append_cons List.not_mem_nil t⟩
  | cons a s ih =>
      rw [List.cons_append, strchr]
      split
      · exact ⟨a :: s, rfl⟩
      · exact ih

/-! ## Strings in strings -/

theorem split_of_strstr (h : strstr pat s = some w) : ∃ a r, s = a ++ w ∧ w = pat ++ r := by
  induction s with
  | nil =>
      rw [strstr] at h
      split at h
      · rename_i hpat
        cases h
        exact ⟨[], [], rfl, by rw [hpat]; rfl⟩
      · cases h
  | cons b s ih =>
      rw [strstr] at h
      split at h
      · rename_i hpat
        cases h
        rcases hpat with ⟨r, hr⟩
        exact ⟨[], r, rfl, hr.symm⟩
      · rcases ih h with ⟨a, r, rfl, hw⟩
        exact ⟨b :: a, r, rfl, hw⟩

/-- Any place where `pat` is leads to a match that is not behind it. -/
theorem exists_strstr (pat s t : List α) :
    ∃ u, strstr pat (s ++ (pat ++ t)) = some (u ++ (pat ++ t)) := by
  induction s with
  | nil =>
      refine ⟨[], ?_⟩
      rw [List.nil_append]
      cases hmem : pat ++ t with
      | nil => rw [strstr, if_pos (List.append_eq_nil_iff.mp hmem).1]
      | cons b r => rw [strstr, if_pos ⟨t, hmem⟩]
  | cons a s ih =>
      rw [List.cons_append, strstr]
      split
      · exact ⟨a :: s, rfl⟩
      · exact ih

/-- A match is as long as `pat`, so what comes before it does not reach past the string. -/
theorem strstr_append_of_some (h : strstr pat s = some w) (t : List α) :
    strstr pat (s ++ t) = some (w ++ t) := by
  rcases split_of_strstr h with ⟨a, r, rfl, rfl⟩
  induction a with
  | nil =>
      cases hmem : pat ++ r with
      | nil =>
          rw [List.append_eq_nil_iff] at hmem
          rcases hmem with ⟨rfl, rfl⟩
          cases t with
          | nil => rfl
          | cons b t => rw [List.nil_append, List.nil_append, strstr, if_pos (List.nil_prefix)]
      | cons b r' =>
          rw [List.nil_append, List.cons_append, strstr, if_pos]
          exact ⟨r ++ t, by rw [← List.append_assoc, hmem]; rfl⟩
  | cons b a ih =>
      rw [List.cons_append, strstr] at h
      split at h
      · have hlen := congrArg List.length (Option.some.inj h)
        simp at hlen
        omega
      · rename_i hpat
        rw [List.cons_append, List.cons_append, strstr, if_neg, ih h]
        intro hlong
        refine hpat (List.prefix_of_prefix_length_le hlong ?_ ?_)
        · exact ⟨t, rfl⟩
        · simp
          omega

/-- Behind a character that is not in `pat` the search starts anew. -/
theorem strstr_append_cons (h : strstr pat s = none) {b : α} (hb : b ∉ pat) (t : List α) :
    strstr pat (s ++ b :: t) = strstr pat t := by
  induction s with
  | nil =>
      rw [strstr] at h
      split at h
      · cases h
      · rename_i hpat
        rw [List.nil_append, strstr, if_neg]
        rintro ⟨r, hr⟩
        cases pat with
        | nil => exact hpat rfl
        | cons p pat =>
            rw [List.cons_append, List.cons.injEq] at hr
            exact hb (hr.1 ▸ List.mem_cons_self)
  | cons a s ih =>
      rw [strstr] at h
      split at h
      · cases h
      · rename_i hpat
        rw [List.cons_append, strstr, if_neg, ih h]
        rintro ⟨r, hr⟩
        -- the match would end before `b`
        have hsplit : pat ++ r = (a :: s) ++ b :: t := hr
        rcases List.append_eq_append_iff.mp hsplit with ⟨u, hs, -⟩ | ⟨u, hpat', hr'⟩
        · exact hpat ⟨u, hs.symm⟩
        · cases u with
          | nil => exact hpat ⟨[], by rw [hpat']; simp⟩
          | cons x u =>
              rw [List.cons_append, List.cons.injEq] at hr'
              refine hb ?_
              rw [hpat', hr'.1]
              exact List.mem_append_right _ List.mem_cons_self

end CString
