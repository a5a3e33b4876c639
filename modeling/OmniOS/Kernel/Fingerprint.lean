import Mathlib.Data.Finset.Card
import Mathlib.Data.Int.Order.Basic

/-!
# OmniOS.Kernel.Fingerprint — `kernel/bsp/sm8250/drivers/fingerprint.c`

A table of five templates with an id and a flag each, and a count of its own.

1. **Model.** `fingerprint_enroll` takes the next slot and gives it the next id,
   `fingerprint_delete` only clears the flag, `fingerprint_authenticate` answers with the
   id in the first slot, and `fingerprint_init` clears the table but not the count.
2. **Enrolments.** `enrolledIds` is what a caller knows from the answers: the ids that were
   enrolled since the last initialisation and not deleted.
3. **Runs.** `Tracks` says what the table has to do with these ids; every call keeps it.
-/

namespace OmniOS.Fingerprint

def FP_MAX_TEMPLATES : Nat := 5

/-- `fp_template_t` without the name and the sensor's data. -/
structure Template where
  id : Int
  enrolled : Bool
deriving DecidableEq

/-- After `memset`. -/
def Template.zero : Template := ⟨0, false⟩

/-- `_templates`, `_fp_ready` and `_fp_count`. -/
structure Sensor where
  templates : Nat → Template
  ready : Bool
  count : Nat
  count_le : count ≤ FP_MAX_TEMPLATES

def Sensor.start : Sensor := ⟨fun _ => .zero, false, 0, Nat.zero_le _⟩

def fingerprintInit (s : Sensor) : Int × Sensor :=
  (0, { s with templates := fun _ => .zero, ready := true })

/-- The next slot gets the next id. -/
def Sensor.add (s : Sensor) (hfree : ¬ FP_MAX_TEMPLATES ≤ s.count) : Sensor :=
  { s with
    templates := Function.update s.templates s.count ⟨s.count + 1, true⟩
    count := s.count + 1
    count_le := Nat.lt_of_not_le hfree }

/-- The flag of slot `i` is cleared. -/
def Sensor.clear (s : Sensor) (i : Nat) : Sensor :=
  { s with templates := Function.update s.templates i { s.templates i with enrolled := false } }

def fingerprintEnroll (s : Sensor) : Int × Sensor :=
  if !s.ready then (-1, s)
  else if hfree : FP_MAX_TEMPLATES ≤ s.count then (-1, s)
  else (s.count + 1, s.add hfree)

def fingerprintAuthenticate (s : Sensor) : Int :=
  if !s.ready then -1
  else if s.count = 0 then -1
  else (s.templates 0).id

def fingerprintDelete (s : Sensor) (id : Int) : Int × Sensor :=
  if !s.ready then (-1, s)
  else
    match (List.range s.count).find? (fun i => (s.templates i).id = id) with
    | none => (-1, s)
    | some i => (0, s.clear i)

def fingerprintCount (s : Sensor) : Int := s.count

/-! ## Enrolments -/

inductive Call where
  | init
  | enroll
  | delete (id : Int)
  | authenticate

/-- What the call returns, and the sensor after it. -/
def Call.run : Call → Sensor → Int × Sensor
  | init, s => fingerprintInit s
  | enroll, s => fingerprintEnroll s
  | delete id, s => fingerprintDelete s id
  | authenticate, s => (fingerprintAuthenticate s, s)

/-- The calls with what they returned, and the sensor in the end. -/
def runCalls (calls : List Call) : List (Call × Int) × Sensor :=
  calls.foldl (fun r c => (r.1 ++ [(c, (c.run r.2).1)], (c.run r.2).2)) ([], .start)

/-- The ids after one more call. -/
def Call.record (ids : Finset Int) : Call × Int → Finset Int
  | (init, _) => ∅
  | (enroll, result) => if 0 < result then insert result ids else ids
  | (delete id, result) => if result = 0 then ids.erase id else ids
  | (authenticate, _) => ids

/-- The ids that were returned by an enrolment since the last initialisation and have not
been deleted since. -/
def enrolledIds (events : List (Call × Int)) : Finset Int := events.foldl Call.record ∅

/-- What a caller expects of the result when the templates `ids` are enrolled. -/
def Call.Right (ids : Finset Int) : Call → Int → Prop
  | init, _ => True
  | enroll, result => result = -1 → ids.card = FP_MAX_TEMPLATES
  | delete _, _ => True
  | authenticate, result => (0 < result → result ∈ ids) ∧ (ids = ∅ → result = -1)

/-- The first slot is enrolled, or it has been cleared and another one is enrolled; and an
enrolment finds the sensor ready, and a slot that was never taken unless all are enrolled. -/
def Call.Spared (s : Sensor) : Call → Prop
  | init => True
  | enroll =>
      s.ready = true ∧
        (s.count < FP_MAX_TEMPLATES ∨ ∀ i < FP_MAX_TEMPLATES, (s.templates i).enrolled = true)
  | delete _ => True
  | authenticate =>
      s.ready = true → 0 < s.count →
        (s.templates 0).enrolled = true ∨
          s.templates 0 = .zero ∧ ∃ i < s.count, (s.templates i).enrolled = true

/-! ## Runs -/

/-- The enrolled ids are those of the slots with the flag, each one more than its place. A
slot that is not in use is all zeros. -/
structure Tracks (s : Sensor) (ids : Finset Int) : Prop where
  mem_iff : ∀ id, id ∈ ids ↔ ∃ i < s.count, (s.templates i).enrolled = true ∧ id = i + 1
  used : ∀ i, (s.templates i).id = i + 1 ∨ s.templates i = .zero
  unused : ∀ i, s.count ≤ i → s.templates i = .zero
  unready : s.ready = false → s.count = 0

section Steps

variable {s : Sensor} {ids : Finset Int}

theorem tracks_start : Tracks .start ∅ where
  mem_iff := fun id => by
    constructor
    · intro hid
      exact absurd hid (Finset.notMem_empty id)
    · rintro ⟨i, hi, -⟩
      exact absurd hi (Nat.not_lt_zero i)
  used := fun _ => Or.inr rfl
  unused := fun _ _ => rfl
  unready := fun _ => rfl

theorem tracks_init (s : Sensor) : Tracks (fingerprintInit s).2 ∅ where
  mem_iff := fun id => by
    constructor
    · intro hid
      exact absurd hid (Finset.notMem_empty id)
    · rintro ⟨i, -, hflag, -⟩
      exact absurd hflag Bool.false_ne_true
  used := fun _ => Or.inr rfl
  unused := fun _ _ => rfl
  unready := fun hready => absurd hready.symm Bool.false_ne_true

theorem Sensor.add_templates {hfree : ¬ FP_MAX_TEMPLATES ≤ s.count} (i : Nat) :
    (s.add hfree).templates i = if i = s.count then ⟨s.count + 1, true⟩ else s.templates i :=
  Function.update_apply ..

theorem Sensor.clear_templates (k i : Nat) :
    (s.clear k).templates i = if i = k then ⟨(s.templates k).id, false⟩ else s.templates i :=
  Function.update_apply ..

/-- One more slot with the flag. -/
theorem Tracks.add (h : Tracks s ids) (hready : s.ready = true)
    (hfree : ¬ FP_MAX_TEMPLATES ≤ s.count) :
    Tracks (s.add hfree) (insert ((s.count : Int) + 1) ids) where
  mem_iff := fun id => by
    rw [Finset.mem_insert, h.mem_iff]
    constructor
    · rintro (rfl | ⟨i, hi, hflag, rfl⟩)
      · exact ⟨s.count, Nat.lt_succ_self _, by rw [Sensor.add_templates, if_pos rfl], rfl⟩
      · refine ⟨i, Nat.lt_succ_of_lt hi, ?_, rfl⟩
        rwa [Sensor.add_templates, if_neg (Nat.ne_of_lt hi)]
    · rintro ⟨i, hi, hflag, rfl⟩
      rcases Nat.lt_succ_iff_lt_or_eq.mp hi with hlt | rfl
      · rw [Sensor.add_templates, if_neg (Nat.ne_of_lt hlt)] at hflag
        exact Or.inr ⟨i, hlt, hflag, rfl⟩
      · exact Or.inl rfl
  used := fun i => by
    rw [Sensor.add_templates]
    split
    · rename_i hi
      exact Or.inl (by rw [hi])
    · exact h.used i
  unused := fun i hi => by
    have hlt : s.count < i := hi
    rw [Sensor.add_templates, if_neg (Nat.ne_of_gt hlt)]
    exact h.unused i (Nat.le_of_lt hlt)
  unready := fun hunready => absurd (hready.symm.trans hunready) (by decide)

/-- One slot less; a slot without an id has no flag to lose. -/
theorem Tracks.clear (h : Tracks s ids) {k : Nat} (hk : k < s.count) :
    Tracks (s.clear k) (ids.erase (s.templates k).id) where
  mem_iff := fun id => by
    rw [Finset.mem_erase, h.mem_iff]
    constructor
    · rintro ⟨hne, i, hi, hflag, rfl⟩
      have hik : i ≠ k := by
        rintro rfl
        rcases h.used i with hown | hzero
        · exact hne hown.symm
        · rw [hzero] at hflag
          exact absurd hflag (by decide)
      refine ⟨i, hi, ?_, rfl⟩
      rwa [Sensor.clear_templates, if_neg hik]
    · rintro ⟨i, hi, hflag, rfl⟩
      rw [Sensor.clear_templates] at hflag
      split at hflag
      · exact absurd hflag Bool.false_ne_true
      · refine ⟨?_, i, hi, hflag, rfl⟩
        rcases h.used k with hown | hzero
        · omega
        · have hid : (s.templates k).id = 0 := by rw [hzero, Template.zero]
          omega
  used := fun i => by
    rw [Sensor.clear_templates]
    split
    · rename_i hi
      subst hi
      refine (h.used i).imp (fun hown => hown) fun hzero => ?_
      rw [hzero]
      rfl
    · exact h.used i
  unused := fun i hi => by
    have hle : s.count ≤ i := hi
    rw [Sensor.clear_templates, if_neg (by omega)]
    exact h.unused i hle
  unready := h.unready

theorem Tracks.enroll (h : Tracks s ids) :
    Tracks (fingerprintEnroll s).2 (Call.record ids (.enroll, (fingerprintEnroll s).1)) := by
  rw [fingerprintEnroll]
  cases hready : s.ready with
  | false => exact h
  | true =>
      by_cases hfree : FP_MAX_TEMPLATES ≤ s.count
      · rw [if_neg (by decide), dif_pos hfree]
        exact h
      · have hpos : (0 : Int) < s.count + 1 := by omega
        rw [if_neg (by decide), dif_neg hfree, Call.record, if_pos hpos]
        exact h.add hready hfree

theorem Tracks.delete (h : Tracks s ids) (id : Int) :
    Tracks (fingerprintDelete s id).2
      (Call.record ids (.delete id, (fingerprintDelete s id).1)) := by
  rw [fingerprintDelete]
  cases hready : s.ready with
  | false => exact h
  | true =>
      rw [if_neg (by decide)]
      cases hfind : (List.range s.count).find? (fun i => (s.templates i).id = id) with
      | none => exact h
      | some k =>
          have hk : k < s.count := List.mem_range.mp (List.mem_of_find?_eq_some hfind)
          have htest := List.find?_some hfind
          have hid : (s.templates k).id = id := of_decide_eq_true htest
          rw [Call.record, if_pos rfl, ← hid]
          exact h.clear hk

/-- Every call keeps the table and the ids together. -/
theorem Tracks.step (h : Tracks s ids) (c : Call) :
    Tracks (c.run s).2 (Call.record ids (c, (c.run s).1)) := by
  cases c with
  | init => exact tracks_init s
  | enroll => exact h.enroll
  | delete id => exact h.delete id
  | authenticate => exact h

end Steps

/-- The table after any calls. -/
theorem tracks_runCalls (calls : List Call) :
    Tracks (runCalls calls).2 (enrolledIds (runCalls calls).1) := by
  induction calls using List.reverseRecOn with
  | nil => exact tracks_start
  | append_singleton calls c ih =>
      have hlast : runCalls (calls ++ [c]) =
          ((runCalls calls).1 ++ [(c, (c.run (runCalls calls).2).1)],
            (c.run (runCalls calls).2).2) := by
        rw [runCalls, List.foldl_append]
        rfl
      rw [hlast, enrolledIds, List.foldl_append]
      exact ih.step c

/-! ## What callers see -/

section Answers

variable {s : Sensor} {ids : Finset Int}

theorem Tracks.eq_empty_iff (h : Tracks s ids) :
    ids = ∅ ↔ ¬ ∃ i < s.count, (s.templates i).enrolled = true := by
  rw [Finset.eq_empty_iff_forall_notMem]
  constructor
  · rintro hnone ⟨i, hi, hflag⟩
    exact hnone _ ((h.mem_iff _).mpr ⟨i, hi, hflag, rfl⟩)
  · intro hnone id hid
    rcases (h.mem_iff id).mp hid with ⟨i, hi, hflag, -⟩
    exact hnone ⟨i, hi, hflag⟩

/-- There are as many ids as slots were taken only if all of these have the flag. -/
theorem Tracks.card_eq_iff (h : Tracks s ids) :
    ids.card = s.count ↔ ∀ i < s.count, (s.templates i).enrolled = true := by
  have hids : ids = ((Finset.range s.count).filter
      fun i => (s.templates i).enrolled = true).image fun i : Nat => (i : Int) + 1 := by
    ext id
    rw [h.mem_iff, Finset.mem_image]
    simp only [Finset.mem_filter, Finset.mem_range, and_assoc, eq_comm]
  have hinj : Function.Injective fun i : Nat => (i : Int) + 1 := fun i j hij => by
    have hij' : (i : Int) + 1 = j + 1 := hij
    omega
  have hall := Finset.card_filter_eq_iff (s := Finset.range s.count)
    (p := fun i => (s.templates i).enrolled = true)
  rw [Finset.card_range] at hall
  rw [hids, Finset.card_image_of_injective _ hinj, hall]
  simp only [Finset.mem_range]

/-- The first slot answers for all of them. -/
theorem Tracks.authenticate_right_iff (h : Tracks s ids) :
    Call.Right ids .authenticate (fingerprintAuthenticate s) ↔ Call.Spared s .authenticate := by
  unfold Call.Right Call.Spared fingerprintAuthenticate
  cases hready : s.ready with
  | false => simp
  | true =>
      rw [if_neg (by decide)]
      rcases Nat.eq_zero_or_pos s.count with hcount | hcount
      · simp [hcount]
      · rw [if_neg (Nat.ne_of_gt hcount), h.eq_empty_iff]
        simp only [hcount, forall_const]
        rcases h.used 0 with hown | hzero
        · -- the first slot is in use: its id is 1
          have hone : (s.templates 0).id = 1 := hown
          have hne : s.templates 0 ≠ .zero := by
            intro hzero
            rw [hzero] at hone
            exact absurd hone (by decide)
          have hmem : (1 : Int) ∈ ids ↔ (s.templates 0).enrolled = true := by
            rw [h.mem_iff]
            constructor
            · rintro ⟨i, -, hflag, hi⟩
              obtain rfl : i = 0 := by omega
              exact hflag
            · intro hflag
              exact ⟨0, hcount, hflag, rfl⟩
          rw [hone, hmem]
          constructor
          · intro hright
            exact Or.inl (hright.1 (by decide))
          · intro hspared
            have hflag := hspared.resolve_right fun hcleared => hne hcleared.1
            exact ⟨fun _ => hflag, fun hnone => absurd ⟨0, hcount, hflag⟩ hnone⟩
        · -- it was cleared: the answer is 0
          simp [hzero, Template.zero]

theorem Tracks.enroll_right_iff (h : Tracks s ids) :
    Call.Right ids .enroll (fingerprintEnroll s).1 ↔ Call.Spared s .enroll := by
  unfold Call.Right Call.Spared fingerprintEnroll
  cases hready : s.ready with
  | false =>
      -- nothing is enrolled, and it fails
      have hempty : ids = ∅ := by
        rw [h.eq_empty_iff, h.unready hready]
        rintro ⟨i, hi, -⟩
        exact absurd hi (Nat.not_lt_zero i)
      simp [hempty, FP_MAX_TEMPLATES]
  | true =>
      rw [if_neg (by decide)]
      by_cases hfull : FP_MAX_TEMPLATES ≤ s.count
      · have hcount : s.count = FP_MAX_TEMPLATES := Nat.le_antisymm s.count_le hfull
        have hcard := h.card_eq_iff
        rw [hcount] at hcard
        rw [dif_pos hfull, hcard]
        simp [Nat.not_lt_of_le hfull]
      · have hid : ((s.count : Int) + 1) ≠ -1 := by omega
        rw [dif_neg hfull]
        simp [hid, Nat.lt_of_not_le hfull]

end Answers

/-- `fingerprint_count` counts the slots that were ever taken. -/
theorem fingerprintCount_eq_iff (calls : List Call) :
    (enrolledIds (runCalls calls).1).card = fingerprintCount (runCalls calls).2 ↔
      ∀ i < (runCalls calls).2.count, ((runCalls calls).2.templates i).enrolled = true := by
  rw [← (tracks_runCalls calls).card_eq_iff]
  exact Int.natCast_inj

/-- After any calls, a call is right exactly when the table spares it. -/
theorem fingerprint_right_iff (calls : List Call) (c : Call) :
    c.Right (enrolledIds (runCalls calls).1) (c.run (runCalls calls).2).1 ↔
      c.Spared (runCalls calls).2 := by
  have htracks := tracks_runCalls calls
  cases c with
  | init => exact Iff.rfl
  | enroll => exact htracks.enroll_right_iff
  | delete id => exact Iff.rfl
  | authenticate => exact htracks.authenticate_right_iff

/-- A deleted template authenticates; after a second initialisation the answer is 0, with
nothing enrolled; and an enrolment fails with four templates enrolled. -/
theorem fingerprint_deleted_authenticates :
    (let r := runCalls [.init, .enroll, .delete 1]
     enrolledIds r.1 = ∅ ∧ fingerprintAuthenticate r.2 = 1 ∧
       ¬ Call.Right (enrolledIds r.1) .authenticate (fingerprintAuthenticate r.2)) ∧
    (let r := runCalls [.init, .enroll, .init]
     enrolledIds r.1 = ∅ ∧ fingerprintAuthenticate r.2 = 0 ∧
       ¬ Call.Right (enrolledIds r.1) .authenticate (fingerprintAuthenticate r.2)) ∧
    (let r := runCalls [.init, .enroll, .enroll, .enroll, .enroll, .enroll, .delete 5]
     (enrolledIds r.1).card = 4 ∧ (fingerprintEnroll r.2).1 = -1 ∧
       ¬ Call.Right (enrolledIds r.1) .enroll (fingerprintEnroll r.2).1) := by
  unfold Call.Right
  decide

end OmniOS.Fingerprint
