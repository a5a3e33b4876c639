import Mathlib.Data.List.Nodup
import OmniOS.Lib.SlotMap

/-!
# OmniOS.Kernel.Timer — the timers of `kernel/timer.c`

A table that only grows: `timer_create` takes the next slot, `timer_cancel` and a
one-shot timer that has fired leave their slot inactive. Pointers are their
addresses, 0 for NULL.

The effects are stated on the list of timers: a tick maps every timer (`expire`)
and calls those that are due, in the order of the table (`timerTick_eq`); a cancel
maps the timer it names (`timerCancel_eq`).
-/

namespace OmniOS.Timers

/-! ## Model -/

def MAX_TIMERS : Nat := 64

/-- `timer_t`, without the unused `next`. -/
structure Timer where
  timerId : UInt32
  intervalMs : UInt64
  callback : UInt64
  arg : UInt64
  periodic : Bool
  active : Bool
deriving DecidableEq

/-- The static variables of `timer.c`: `_timers` with `_timer_count`, and the others. -/
structure State where
  timers : Slots Timer MAX_TIMERS
  nextTimerId : UInt32
  uptimeMs : UInt64

inductive Status where
  | success
  | notFound
deriving DecidableEq

def timerInit : State := ⟨Slots.empty ⟨0, 0, 0, 0, false, false⟩, 1, 0⟩

def timerCreate (s : State) (intervalMs callback arg : UInt64) (periodic : Bool) :
    UInt32 × State :=
  if callback = 0 then (0, s)
  else if h : s.timers.count < MAX_TIMERS then
    let t : Timer := ⟨s.nextTimerId, intervalMs, callback, arg, periodic, true⟩
    (t.timerId, { s with timers := s.timers.push h t, nextTimerId := s.nextTimerId + 1 })
  else (0, s)

def timerCancel (s : State) (timerId : UInt32) : Status × State :=
  match s.timers.findIdx? fun t => t.timerId == timerId && t.active with
  | some i =>
      let t := { s.timers.get i with active := false }
      (.success, { s with timers := s.timers.set (i.castLE s.timers.count_le) t })
  | none => (.notFound, s)

/-- One turn of the loop in `timer_tick`, with the timers whose callback was called so
far. An interval of 0 is a division by zero. -/
def tickOne (uptimeMs : UInt64) (st : List Timer × (Fin MAX_TIMERS → Timer)) (i : Fin MAX_TIMERS) :
    Option (List Timer × (Fin MAX_TIMERS → Timer)) :=
  let t := st.2 i
  if !t.active then some st
  else if t.intervalMs = 0 then none
  else if uptimeMs % t.intervalMs = 0 then
    some (if t.callback ≠ 0 then st.1 ++ [t] else st.1,
      if !t.periodic then Function.update st.2 i { t with active := false } else st.2)
  else some st

/-- The timers whose callback is called, and the state afterwards; callbacks leave the
timers alone. -/
def timerTick (s : State) : Option (List Timer × State) := do
  let uptimeMs := s.uptimeMs + 1
  let used := (List.finRange s.timers.count).map (Fin.castLE s.timers.count_le)
  let (called, slot) ← used.foldlM (tickOne uptimeMs) ([], s.timers.slot)
  return (called, { s with uptimeMs := uptimeMs, timers := { s.timers with slot := slot } })

/-! ## One create -/

theorem timerCreate_of_room {s : State} (hroom : s.timers.count < MAX_TIMERS)
    (intervalMs : UInt64) {callback : UInt64} (hcallback : callback ≠ 0) (arg : UInt64)
    (periodic : Bool) :
    timerCreate s intervalMs callback arg periodic = (s.nextTimerId, ⟨s.timers.push hroom
      ⟨s.nextTimerId, intervalMs, callback, arg, periodic, true⟩, s.nextTimerId + 1, s.uptimeMs⟩) := by
  simp [timerCreate, hcallback, hroom]

theorem timerCreate_of_full {s : State} (hfull : ¬ s.timers.count < MAX_TIMERS)
    (intervalMs callback arg : UInt64) (periodic : Bool) :
    timerCreate s intervalMs callback arg periodic = (0, s) := by
  simp [timerCreate, hfull]

/-! ## One tick -/

/-- The timer fires at this uptime. -/
def Timer.due (uptimeMs : UInt64) (t : Timer) : Bool := t.active && uptimeMs % t.intervalMs == 0

/-- What a tick leaves of a timer. -/
def Timer.expire (uptimeMs : UInt64) (t : Timer) : Timer :=
  if t.due uptimeMs && !t.periodic then { t with active := false } else t

/-- As `timer_create` makes them for a caller that gives an interval. -/
structure Timer.Proper (t : Timer) : Prop where
  interval : t.intervalMs ≠ 0
  callback : t.callback ≠ 0

/-- A tick gets past it: there is a callback, and an interval while it is active. -/
structure Timer.Sound (t : Timer) : Prop where
  callback : t.callback ≠ 0
  interval : t.active = true → t.intervalMs ≠ 0

theorem Timer.Proper.sound {t : Timer} (h : t.Proper) : t.Sound :=
  ⟨h.callback, fun _ => h.interval⟩

section Tick

variable {uptimeMs : UInt64} {t : Timer}

theorem tickOne_eq (called : List Timer) {slot : Fin MAX_TIMERS → Timer} {i : Fin MAX_TIMERS}
    (h : (slot i).Sound) :
    tickOne uptimeMs (called, slot) i =
      some (called ++ [slot i].filter (Timer.due uptimeMs),
        Function.update slot i ((slot i).expire uptimeMs)) := by
  by_cases hactive : (slot i).active = true
  · have hinterval := h.interval hactive
    by_cases hdue : uptimeMs % (slot i).intervalMs = 0
    · by_cases hperiodic : (slot i).periodic = true
      · simp [tickOne, Timer.due, Timer.expire, hactive, hinterval, h.callback, hdue, hperiodic]
      · simp [tickOne, Timer.due, Timer.expire, hactive, hinterval, h.callback, hdue, hperiodic]
    · simp [tickOne, Timer.due, Timer.expire, hactive, hinterval, hdue]
  · simp [tickOne, Timer.due, Timer.expire, hactive]

/-- The loop visits every slot of the list once. -/
theorem foldlM_tickOne {is : List (Fin MAX_TIMERS)} (hnodup : is.Nodup) (called : List Timer)
    {slot : Fin MAX_TIMERS → Timer} (h : ∀ i ∈ is, (slot i).Sound) :
    is.foldlM (tickOne uptimeMs) (called, slot) =
      some (called ++ (is.map slot).filter (Timer.due uptimeMs),
        fun j => if j ∈ is then (slot j).expire uptimeMs else slot j) := by
  induction is generalizing called slot with
  | nil => simp
  | cons i is ih =>
      rcases List.nodup_cons.mp hnodup with ⟨hi, hnodup'⟩
      have hother : ∀ j ∈ is, Function.update slot i ((slot i).expire uptimeMs) j = slot j := by
        intro j hj
        have hne : j ≠ i := by
          rintro rfl
          exact hi hj
        exact Function.update_of_ne hne _ _
      have hsound : ∀ j ∈ is, (Function.update slot i ((slot i).expire uptimeMs) j).Sound := by
        intro j hj
        rw [hother j hj]
        exact h j (List.mem_cons_of_mem i hj)
      rw [List.foldlM_cons, tickOne_eq called (h i List.mem_cons_self), Option.bind_eq_bind,
        Option.bind_some, ih hnodup' _ hsound, List.map_congr_left hother, List.append_assoc,
        ← List.filter_append, List.map_cons, List.singleton_append]
      congr 2
      funext j
      by_cases hj : j = i
      · subst hj
        simp [hi]
      · simp [hj]

/-- A tick calls the timers that are due, and lets the one-shot ones expire. -/
theorem timerTick_eq {s : State} (h : ∀ t ∈ s.timers.items, t.Sound) :
    ∃ s', timerTick s = some (s.timers.items.filter (Timer.due (s.uptimeMs + 1)), s') ∧
      s'.timers.items = s.timers.items.map (Timer.expire (s.uptimeMs + 1)) ∧
      s'.nextTimerId = s.nextTimerId ∧ s'.uptimeMs = s.uptimeMs + 1 := by
  have hnodup : ((List.finRange s.timers.count).map (Fin.castLE s.timers.count_le)).Nodup :=
    (List.nodup_finRange _).map (Fin.castLE_injective _)
  have hsound : ∀ i ∈ (List.finRange s.timers.count).map (Fin.castLE s.timers.count_le),
      (s.timers.slot i).Sound := by
    intro i hi
    rcases List.mem_map.mp hi with ⟨j, -, rfl⟩
    exact h _ (s.timers.get_mem_items j)
  have hitems : ((List.finRange s.timers.count).map (Fin.castLE s.timers.count_le)).map
      s.timers.slot = s.timers.items := by
    rw [List.map_map, Slots.items, List.ofFn_eq_map]
    rfl
  refine ⟨{ s with
    uptimeMs := s.uptimeMs + 1
    timers := { s.timers with
      slot := fun j =>
        if j ∈ (List.finRange s.timers.count).map (Fin.castLE s.timers.count_le) then
          (s.timers.slot j).expire (s.uptimeMs + 1)
        else s.timers.slot j } }, ?_, ?_, rfl, rfl⟩
  · unfold timerTick
    simp only [foldlM_tickOne hnodup [] hsound, hitems, List.nil_append, Option.bind_eq_bind,
      Option.bind_some]
    rfl
  · rw [Slots.items, Slots.items, List.ofFn_eq_map, List.ofFn_eq_map, List.map_map]
    refine List.map_congr_left ?_
    intro i _
    exact if_pos (List.mem_map_of_mem (List.mem_finRange i))

/-- A turn of the loop leaves the other slots alone. -/
theorem tickOne_frame {st st' : List Timer × (Fin MAX_TIMERS → Timer)} {i j : Fin MAX_TIMERS}
    (hij : i ≠ j) (h : tickOne uptimeMs st j = some st') : st'.2 i = st.2 i := by
  unfold tickOne at h
  dsimp only at h
  split at h
  · cases h
    rfl
  · split at h
    · cases h
    · split at h
      · cases h
        dsimp only
        split
        · exact Function.update_of_ne hij _ _
        · rfl
      · cases h
        rfl

/-- The loop stops at an active timer without an interval. -/
theorem foldlM_tickOne_zero {is : List (Fin MAX_TIMERS)} {i : Fin MAX_TIMERS} (hi : i ∈ is)
    {st : List Timer × (Fin MAX_TIMERS → Timer)} (hactive : (st.2 i).active = true)
    (hzero : (st.2 i).intervalMs = 0) : is.foldlM (tickOne uptimeMs) st = none := by
  induction is generalizing st with
  | nil => cases hi
  | cons j is ih =>
      rw [List.foldlM_cons]
      by_cases hij : i = j
      · have hnone : tickOne uptimeMs st j = none := by simp [tickOne, ← hij, hactive, hzero]
        rw [hnone]
        rfl
      · cases htick : tickOne uptimeMs st j with
        | none => rfl
        | some st' =>
            have hsame := tickOne_frame hij htick
            refine ih ((List.mem_cons.mp hi).resolve_left hij) ?_ ?_
            · rw [hsame, hactive]
            · rw [hsame, hzero]

/-- So does `timer_tick`: the division traps. -/
theorem timerTick_zero {s : State} {t : Timer} (ht : t ∈ s.timers.items)
    (hactive : t.active = true) (hzero : t.intervalMs = 0) : timerTick s = none := by
  rcases List.mem_ofFn.mp ht with ⟨i, rfl⟩
  have hmem : i.castLE s.timers.count_le ∈
      (List.finRange s.timers.count).map (Fin.castLE s.timers.count_le) :=
    List.mem_map_of_mem (List.mem_finRange i)
  have hnone : ((List.finRange s.timers.count).map (Fin.castLE s.timers.count_le)).foldlM
      (tickOne (s.uptimeMs + 1)) ([], s.timers.slot) = none :=
    foldlM_tickOne_zero hmem hactive hzero
  unfold timerTick
  simp only [hnone]
  rfl

end Tick

/-! ## One cancel -/

/-- What a cancel of `timerId` leaves of a timer. -/
def Timer.stop (timerId : UInt32) (t : Timer) : Timer :=
  if t.timerId = timerId then { t with active := false } else t

theorem timerCancel_eq {s : State} (hdistinct : s.timers.Distinct Timer.timerId)
    (timerId : UInt32) :
    ((timerCancel s timerId).1 = .success ↔
      ∃ t ∈ s.timers.items, t.timerId = timerId ∧ t.active = true) ∧
    ((timerCancel s timerId).1 = .success →
      (timerCancel s timerId).2.timers.items = s.timers.items.map (Timer.stop timerId)) ∧
    ((timerCancel s timerId).1 ≠ .success → (timerCancel s timerId).2 = s) ∧
    (timerCancel s timerId).2.nextTimerId = s.nextTimerId ∧
    (timerCancel s timerId).2.uptimeMs = s.uptimeMs := by
  unfold timerCancel
  cases hfind : s.timers.findIdx? fun t => t.timerId == timerId && t.active with
  | none =>
      have hnone : ¬ ∃ t ∈ s.timers.items, t.timerId = timerId ∧ t.active = true := by
        rintro ⟨t, ht, hid, hactive⟩
        have hfalse := Slots.findIdx?_eq_none.mp hfind t ht
        simp [hid, hactive] at hfalse
      exact ⟨iff_of_false (by simp) hnone, by simp, fun _ => rfl, rfl, rfl⟩
  | some i =>
      have hmatch : (s.timers.get i).timerId = timerId ∧ (s.timers.get i).active = true := by
        have htest := Slots.findIdx?_some hfind
        simpa using htest
      refine ⟨iff_of_true rfl ⟨_, s.timers.get_mem_items i, hmatch⟩, fun _ => ?_, by simp, rfl, rfl⟩
      have hstop : Timer.stop timerId = fun t =>
          if t.timerId = (s.timers.get i).timerId then { t with active := false } else t := by
        funext t
        rw [hmatch.1]
        rfl
      rw [hstop]
      exact hdistinct.items_set_eq_map i fun t => { t with active := false }

end OmniOS.Timers
