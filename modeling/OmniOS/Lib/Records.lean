import OmniOS.Lib.Memory

/-!
# Records — walking records that carry their own length

A record starts with a type byte and a length byte, and the next one starts `length` bytes
further. A loop over records (`walk`) folds what it does with the types over what it meets
(`scan`), so all such loops over one memory end or do not end together. `Ends` says which
memory a walk gets through without reading past the end (`scan_of_ends`, `ends_of_scan`).
-/

namespace Records

open Memory

variable {σ : Type*} {m : Mem} {stop p : Nat}

/-- From `p` to `stop`, at most `fuel` records: what `visit` makes of the types, and the
addresses that were read. -/
def walk (visit : UInt8 → σ → σ) (m : Mem) (stop : Nat) : Nat → Nat → σ → Option (σ × List Nat)
  | 0, _, _ => none
  | fuel + 1, p, s =>
      if p < stop then
        (walk visit m stop fuel (p + (m (p + 1)).toNat) (visit (m p) s)).map
          fun r => (r.1, p :: (p + 1) :: r.2)
      else some (s, [])

/-- The types that are met, and the addresses that are read. -/
def scan (m : Mem) (stop : Nat) : Nat → Nat → Option (List UInt8 × List Nat)
  | 0, _ => none
  | fuel + 1, p =>
      if p < stop then
        (scan m stop fuel (p + (m (p + 1)).toNat)).map
          fun r => (m p :: r.1, p :: (p + 1) :: r.2)
      else some ([], [])

theorem walk_eq_scan (visit : UInt8 → σ → σ) (m : Mem) (stop fuel p : Nat) (s : σ) :
    walk visit m stop fuel p s =
      (scan m stop fuel p).map fun r => (r.1.foldl (fun s t => visit t s) s, r.2) := by
  induction fuel generalizing p s with
  | zero => rfl
  | succ fuel ih =>
      rw [walk, scan]
      split
      · rw [ih, Option.map_map, Option.map_map]
        rfl
      · rfl

/-- From `p` on, every record has its first two bytes before `stop` and a length. -/
inductive Ends (m : Mem) (stop : Nat) : Nat → Prop where
  | done {p : Nat} : stop ≤ p → Ends m stop p
  | record {p : Nat} : p + 1 < stop → m (p + 1) ≠ 0 → Ends m stop (p + (m (p + 1)).toNat) →
      Ends m stop p

/-- Such records are walked to the end, and nothing else is read. -/
theorem scan_of_ends (h : Ends m stop p) :
    ∃ fuel r, scan m stop fuel p = some r ∧ ∀ a ∈ r.2, p ≤ a ∧ a < stop := by
  induction h with
  | @done p hend =>
      refine ⟨1, ([], []), ?_, fun a ha => absurd ha List.not_mem_nil⟩
      rw [scan, if_neg (Nat.not_lt_of_le hend)]
  | @record p hin _ _ ih =>
      rcases ih with ⟨fuel, r, hr, hread⟩
      refine ⟨fuel + 1, (m p :: r.1, p :: (p + 1) :: r.2), ?_, ?_⟩
      · rw [scan, if_pos (Nat.lt_of_succ_lt hin), hr]
        rfl
      · rw [List.forall_mem_cons, List.forall_mem_cons]
        refine ⟨by omega, by omega, fun a ha => ?_⟩
        have hbounds := hread a ha
        omega

/-- A walk that ends and reads nothing past the end meets such records. -/
theorem ends_of_scan {fuel : Nat} {r : List UInt8 × List Nat} (hr : scan m stop fuel p = some r)
    (hread : ∀ a ∈ r.2, a < stop) : Ends m stop p := by
  induction fuel generalizing p r with
  | zero => cases hr
  | succ fuel ih =>
      rw [scan] at hr
      split at hr
      · rcases Option.map_eq_some_iff.mp hr with ⟨r', hr', rfl⟩
        rw [List.forall_mem_cons, List.forall_mem_cons] at hread
        have hrest := ih hr' hread.2.2
        by_cases hlen : m (p + 1) = 0
        -- without a length the walk is where it was
        · rw [hlen] at hrest
          exact hrest
        · exact .record hread.2.1 hlen hrest
      · rename_i hend
        exact .done (Nat.le_of_not_lt hend)

/-- A record without a length is walked for ever. -/
theorem scan_stuck (hin : p < stop) (hlen : m (p + 1) = 0) (fuel : Nat) :
    scan m stop fuel p = none := by
  induction fuel with
  | zero => rfl
  | succ fuel ih =>
      have hsame : p + (m (p + 1)).toNat = p := by
        rw [hlen]
        rfl
      rw [scan, if_pos hin, hsame, ih]
      rfl

end Records
