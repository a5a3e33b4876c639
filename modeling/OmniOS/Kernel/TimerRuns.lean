import Mathlib.Algebra.Order.Group.Nat
import OmniOS.Kernel.Timer
import OmniOS.Lib.Lts

/-!
# OmniOS.Kernel.TimerRuns — timers over whole runs

A run of `timer_create`, `timer_cancel` and `timer_tick` calls leaves a log: which
timers were created, cancelled and fired, in order. The table is a summary of the
log (`Inv`): a timer is active until it is cancelled or, if it is one-shot, fires.

1. **Runs.** `World.next`, and `Step`, what a call does to the list of timers.
2. **The table and the log.** `Inv` survives each of the three list operations:
   appending a timer, stopping one, one tick.
3. **Firings.** A periodic timer fires when the uptime is a multiple of its
   interval (`count_fired_run`).
-/

namespace OmniOS.Timers

/-! ## Runs -/

inductive Obs where
  | created (timerId : UInt32) (intervalMs : UInt64) (periodic : Bool)
  | cancelled (timerId : UInt32)
  | fired (timerId : UInt32)
deriving DecidableEq

/-- The timers, and what has happened so far. -/
structure World where
  st : State
  log : List Obs

inductive Event where
  | create (intervalMs callback arg : UInt64) (periodic : Bool)
  | cancel (timerId : UInt32)
  | tick
deriving DecidableEq

/-- Timers are created with an interval and a callback. -/
def Event.Valid : Event → Prop
  | .create intervalMs callback _ _ => intervalMs ≠ 0 ∧ callback ≠ 0
  | _ => True

/-- A call of `timer_create` that finds no slot makes no timer; `timer_tick` logs the
callbacks it calls. -/
def World.next (w : World) : Event → Option World
  | .create intervalMs callback arg periodic =>
      let r := timerCreate w.st intervalMs callback arg periodic
      some ⟨r.2, if r.2.timers.count = w.st.timers.count then w.log
        else w.log ++ [.created r.1 intervalMs periodic]⟩
  | .cancel timerId =>
      let r := timerCancel w.st timerId
      some ⟨r.2, if r.1 = .success then w.log ++ [.cancelled timerId] else w.log⟩
  | .tick =>
      (timerTick w.st).map fun (called, st) =>
        ⟨st, w.log ++ called.map fun t => .fired t.timerId⟩

def system : Lts.System World Event where
  Init w := w = ⟨timerInit, []⟩
  Next e w w' := e.Valid ∧ w.next e = some w'

/-! ## Ids -/

/-- Ids are the numbers from 1 on, in the order of creation. -/
def Numbered (items : List Timer) : Prop :=
  items.map Timer.timerId = (List.range items.length).map fun i => UInt32.ofNat (i + 1)

section Numbered

variable {items : List Timer}

theorem Numbered.append (h : Numbered items) {t : Timer}
    (hid : t.timerId = UInt32.ofNat (items.length + 1)) : Numbered (items ++ [t]) := by
  unfold Numbered at h ⊢
  rw [List.map_append, h, List.length_append, List.length_singleton, List.range_succ,
    List.map_append, List.map_singleton, List.map_singleton, hid]

theorem Numbered.map (h : Numbered items) {f : Timer → Timer}
    (hid : ∀ t, (f t).timerId = t.timerId) : Numbered (items.map f) := by
  unfold Numbered at h ⊢
  rw [List.length_map, ← h, List.map_map]
  exact List.map_congr_left fun t _ => hid t

theorem Numbered.id_pos (h : Numbered items) (hlen : items.length ≤ MAX_TIMERS) :
    (items.map Timer.timerId).Nodup ∧ 0 ∉ items.map Timer.timerId ∧
      (items.length < MAX_TIMERS →
        UInt32.ofNat (items.length + 1) ∉ items.map Timer.timerId) := by
  have hmax : MAX_TIMERS = 64 := rfl
  have hval : ∀ i ≤ items.length, (UInt32.ofNat (i + 1)).toNat = i + 1 := by
    intro i hi
    rw [UInt32.toNat_ofNat']
    omega
  rw [show items.map Timer.timerId = _ from h]
  refine ⟨?_, ?_, ?_⟩
  · refine List.Nodup.map_on ?_ List.nodup_range
    intro i hi j hj heq
    have hnat := congrArg UInt32.toNat heq
    rw [hval i (List.mem_range.mp hi).le, hval j (List.mem_range.mp hj).le] at hnat
    omega
  · intro hmem
    rcases List.mem_map.mp hmem with ⟨i, hi, heq⟩
    have hnat := congrArg UInt32.toNat heq
    rw [hval i (List.mem_range.mp hi).le] at hnat
    exact absurd hnat (Nat.succ_ne_zero i)
  · intro _ hmem
    rcases List.mem_map.mp hmem with ⟨i, hi, heq⟩
    have hlt := List.mem_range.mp hi
    have hnat := congrArg UInt32.toNat heq
    rw [hval i hlt.le, hval items.length (Nat.le_refl _)] at hnat
    omega

end Numbered

/-- `timer_create` counts the slots ever taken. -/
theorem timerCreate_zero_iff {s : State} (hnext : s.nextTimerId = UInt32.ofNat (s.timers.count + 1))
    (intervalMs : UInt64) {callback : UInt64} (hcallback : callback ≠ 0) (arg : UInt64)
    (periodic : Bool) :
    (timerCreate s intervalMs callback arg periodic).1 = 0 ↔ s.timers.count = MAX_TIMERS := by
  have hmax : MAX_TIMERS = 64 := rfl
  by_cases hroom : s.timers.count < MAX_TIMERS
  · rw [timerCreate_of_room hroom intervalMs hcallback arg periodic]
    refine iff_of_false ?_ (Nat.ne_of_lt hroom)
    intro hid
    have hnat := congrArg UInt32.toNat hid
    rw [hnext, UInt32.toNat_ofNat', Nat.mod_eq_of_lt (by omega)] at hnat
    exact absurd hnat (Nat.succ_ne_zero _)
  · rw [timerCreate_of_full hroom]
    exact iff_of_true rfl (Nat.le_antisymm s.timers.count_le (Nat.le_of_not_lt hroom))

/-! ## The table and the log -/

/-- The timers a log says were created. -/
def created? : Obs → Option (UInt32 × UInt64 × Bool)
  | .created timerId intervalMs periodic => some (timerId, intervalMs, periodic)
  | _ => none

/-- The part of a timer that does not change. -/
def Timer.fixed (t : Timer) : UInt32 × UInt64 × Bool := (t.timerId, t.intervalMs, t.periodic)

theorem Timer.expire_fields (uptimeMs : UInt64) (t : Timer) :
    (t.expire uptimeMs).fixed = t.fixed ∧ (t.expire uptimeMs).callback = t.callback := by
  unfold Timer.expire
  split
  · exact ⟨rfl, rfl⟩
  · exact ⟨rfl, rfl⟩

theorem Timer.stop_fields (timerId : UInt32) (t : Timer) :
    (t.stop timerId).fixed = t.fixed ∧ (t.stop timerId).callback = t.callback := by
  unfold Timer.stop
  split
  · exact ⟨rfl, rfl⟩
  · exact ⟨rfl, rfl⟩

/-- Neither cancelled nor, if it is one-shot, fired. -/
def Pending (log : List Obs) (timerId : UInt32) (periodic : Bool) : Prop :=
  .cancelled timerId ∉ log ∧ (periodic = false → .fired timerId ∉ log)

/-- The timers in the table and the log of what happened to them. -/
structure Inv (items : List Timer) (log : List Obs) : Prop where
  proper : ∀ t ∈ items, t.Proper
  ids : items.map Timer.timerId = (List.range items.length).map fun i => UInt32.ofNat (i + 1)
  created : log.filterMap created? = items.map Timer.fixed
  active : ∀ t ∈ items, t.active = true ↔ Pending log t.timerId t.periodic
  known : ∀ id, .cancelled id ∈ log ∨ .fired id ∈ log → id ∈ items.map Timer.timerId
  silent : log.Pairwise fun a b => ∀ id, a = .cancelled id → b ≠ .fired id
  once : ∀ t ∈ items, t.periodic = false → log.count (.fired t.timerId) ≤ 1

section Inv

variable {items : List Timer} {log : List Obs}

theorem inv_init : Inv [] [] where
  proper := by simp
  ids := rfl
  created := rfl
  active := by simp
  known := by simp
  silent := List.Pairwise.nil
  once := by simp

theorem Inv.mem_iff (h : Inv items log) (id : UInt32) (interval : UInt64) (periodic : Bool) :
    .created id interval periodic ∈ log ↔
      ∃ t ∈ items, t.timerId = id ∧ t.intervalMs = interval ∧ t.periodic = periodic := by
  have hlog : Obs.created id interval periodic ∈ log ↔
      (id, interval, periodic) ∈ log.filterMap created? := by
    rw [List.mem_filterMap]
    constructor
    · intro hmem
      exact ⟨_, hmem, rfl⟩
    · rintro ⟨o, hmem, ho⟩
      cases o with
      | created id' interval' periodic' =>
          cases ho
          exact hmem
      | cancelled id' => cases ho
      | fired id' => cases ho
  rw [hlog, h.created, List.mem_map]
  constructor
  · rintro ⟨t, ht, heq⟩
    cases heq
    exact ⟨t, ht, rfl, rfl, rfl⟩
  · rintro ⟨t, ht, rfl, rfl, rfl⟩
    exact ⟨t, ht, rfl⟩

/-- One more timer. -/
theorem Inv.create (h : Inv items log) (hlen : items.length < MAX_TIMERS) {t : Timer}
    (hproper : t.Proper) (hactive : t.active = true)
    (hid : t.timerId = UInt32.ofNat (items.length + 1)) :
    Inv (items ++ [t]) (log ++ [.created t.timerId t.intervalMs t.periodic]) := by
  have hfresh : t.timerId ∉ items.map Timer.timerId := by
    rw [hid]
    exact (Numbered.id_pos h.ids hlen.le).2.2 hlen
  have hnew : Obs.cancelled t.timerId ∉ log ∧ Obs.fired t.timerId ∉ log := by
    constructor
    · exact fun hmem => hfresh (h.known _ (Or.inl hmem))
    · exact fun hmem => hfresh (h.known _ (Or.inr hmem))
  constructor
  · intro t' ht'
    rcases List.mem_append.mp ht' with ht' | ht'
    · exact h.proper t' ht'
    · rw [List.mem_singleton.mp ht']
      exact hproper
  · exact Numbered.append h.ids hid
  · rw [List.filterMap_append, h.created, List.map_append]
    rfl
  · intro t' ht'
    rcases List.mem_append.mp ht' with ht' | ht'
    · simpa [Pending] using h.active t' ht'
    · rw [List.mem_singleton.mp ht']
      simpa [Pending, hactive, hnew.1] using fun _ => hnew.2
  · intro id hmem
    have hold : Obs.cancelled id ∈ log ∨ Obs.fired id ∈ log := by simpa using hmem
    rw [List.map_append]
    exact List.mem_append_left _ (h.known id hold)
  · refine List.pairwise_append.mpr ⟨h.silent, List.pairwise_singleton _ _, ?_⟩
    intro a _ b hb id _
    rw [List.mem_singleton.mp hb]
    simp
  · intro t' ht' hperiodic
    have hcount : (log ++ [Obs.created t.timerId t.intervalMs t.periodic]).count
        (.fired t'.timerId) = log.count (.fired t'.timerId) := by
      simp [List.count_append]
    rw [hcount]
    rcases List.mem_append.mp ht' with ht' | ht'
    · exact h.once t' ht' hperiodic
    · rw [List.mem_singleton.mp ht', List.count_eq_zero.mpr hnew.2]
      exact Nat.zero_le 1

/-- A call that changes timers in place and adds to the log. -/
theorem Inv.map (h : Inv items log) {f : Timer → Timer} (hfixed : ∀ t, (f t).fixed = t.fixed)
    (hcallback : ∀ t, (f t).callback = t.callback) {new : List Obs}
    (hcreated : new.filterMap created? = [])
    (hactive : ∀ t ∈ items, (f t).active = true ↔ Pending (log ++ new) t.timerId t.periodic)
    (hknown : ∀ id, .cancelled id ∈ new ∨ .fired id ∈ new → id ∈ items.map Timer.timerId)
    (hsilent : (log ++ new).Pairwise fun a b => ∀ id, a = .cancelled id → b ≠ .fired id)
    (honce : ∀ t ∈ items, t.periodic = false → (log ++ new).count (.fired t.timerId) ≤ 1) :
    Inv (items.map f) (log ++ new) := by
  have hid (t : Timer) : (f t).timerId = t.timerId := congrArg Prod.fst (hfixed t)
  have hinterval (t : Timer) : (f t).intervalMs = t.intervalMs := congrArg (fun p => p.2.1) (hfixed t)
  have hperiodic (t : Timer) : (f t).periodic = t.periodic := congrArg (fun p => p.2.2) (hfixed t)
  have hids : (items.map f).map Timer.timerId = items.map Timer.timerId := by
    rw [List.map_map]
    exact List.map_congr_left fun t _ => hid t
  constructor
  · intro t' ht'
    rcases List.mem_map.mp ht' with ⟨t, ht, rfl⟩
    constructor
    · rw [hinterval]
      exact (h.proper t ht).interval
    · rw [hcallback]
      exact (h.proper t ht).callback
  · exact Numbered.map h.ids hid
  · rw [List.filterMap_append, h.created, hcreated, List.append_nil, List.map_map]
    exact List.map_congr_left fun t _ => (hfixed t).symm
  · intro t' ht'
    rcases List.mem_map.mp ht' with ⟨t, ht, rfl⟩
    rw [hid, hperiodic]
    exact hactive t ht
  · intro id hmem
    rw [hids]
    rw [List.mem_append, List.mem_append] at hmem
    rcases hmem with (hold | hnew) | (hold | hnew)
    · exact h.known id (Or.inl hold)
    · exact hknown id (Or.inl hnew)
    · exact h.known id (Or.inr hold)
    · exact hknown id (Or.inr hnew)
  · exact hsilent
  · intro t' ht' hoff
    rcases List.mem_map.mp ht' with ⟨t, ht, rfl⟩
    rw [hperiodic] at hoff
    rw [hid]
    exact honce t ht hoff

/-- One timer is cancelled. -/
theorem Inv.stop (h : Inv items log) {id : UInt32} (hid : id ∈ items.map Timer.timerId) :
    Inv (items.map (Timer.stop id)) (log ++ [.cancelled id]) := by
  refine h.map (fun t => (t.stop_fields id).1) (fun t => (t.stop_fields id).2) rfl ?_ ?_ ?_ ?_
  · intro t ht
    by_cases hthis : t.timerId = id
    · simp [Timer.stop, hthis, Pending]
    · simpa [Timer.stop, hthis, Pending] using h.active t ht
  · intro id' hmem
    have hthis : id' = id := by simpa using hmem
    rw [hthis]
    exact hid
  · refine List.pairwise_append.mpr ⟨h.silent, List.pairwise_singleton _ _, ?_⟩
    intro a _ b hb id' _
    rw [List.mem_singleton.mp hb]
    simp
  · intro t ht hperiodic
    rw [List.count_append, List.count_singleton, if_neg (by simp), Nat.add_zero]
    exact h.once t ht hperiodic

/-- The firings of one tick. -/
def firings (uptimeMs : UInt64) (items : List Timer) : List Obs :=
  (items.filter (Timer.due uptimeMs)).map fun t => .fired t.timerId

theorem mem_firings (uptimeMs : UInt64) (items : List Timer) (o : Obs) :
    o ∈ firings uptimeMs items ↔ ∃ t ∈ items, t.due uptimeMs = true ∧ o = .fired t.timerId := by
  rw [firings, List.mem_map]
  constructor
  · rintro ⟨t, ht, rfl⟩
    rcases List.mem_filter.mp ht with ⟨ht, hdue⟩
    exact ⟨t, ht, hdue, rfl⟩
  · rintro ⟨t, ht, hdue, rfl⟩
    exact ⟨t, List.mem_filter.mpr ⟨ht, hdue⟩, rfl⟩

/-- A timer fires at most once in a tick, and exactly if it is due. -/
theorem count_firings (uptimeMs : UInt64) (hnodup : (items.map Timer.timerId).Nodup) {t : Timer}
    (ht : t ∈ items) :
    (firings uptimeMs items).count (.fired t.timerId) = if t.due uptimeMs then 1 else 0 := by
  have hmem : Obs.fired t.timerId ∈ firings uptimeMs items ↔ t.due uptimeMs = true := by
    rw [mem_firings]
    constructor
    · rintro ⟨t', ht', hdue, heq⟩
      have hid : t.timerId = t'.timerId := Obs.fired.inj heq
      rw [List.inj_on_of_nodup_map hnodup ht ht' hid]
      exact hdue
    · intro hdue
      exact ⟨t, ht, hdue, rfl⟩
  have hfirings : (firings uptimeMs items).Nodup := by
    have hsub : ((items.filter (Timer.due uptimeMs)).map Timer.timerId).Nodup :=
      hnodup.sublist (List.filter_sublist.map _)
    have hmap : firings uptimeMs items =
        ((items.filter (Timer.due uptimeMs)).map Timer.timerId).map Obs.fired := by
      rw [List.map_map]
      rfl
    rw [hmap]
    exact hsub.map fun _ _ heq => Obs.fired.inj heq
  by_cases hdue : t.due uptimeMs = true
  · rw [if_pos hdue]
    exact List.count_eq_one_of_mem hfirings (hmem.mpr hdue)
  · rw [if_neg hdue]
    exact List.count_eq_zero.mpr fun h => hdue (hmem.mp h)

/-- One tick. -/
theorem Inv.tick (h : Inv items log) (hnodup : (items.map Timer.timerId).Nodup)
    (uptimeMs : UInt64) :
    Inv (items.map (Timer.expire uptimeMs)) (log ++ firings uptimeMs items) := by
  have hcancelled : ∀ id, Obs.cancelled id ∉ firings uptimeMs items := by
    intro id hmem
    rcases (mem_firings _ _ _).mp hmem with ⟨t, -, -, heq⟩
    cases heq
  -- what is due is active, so it was not cancelled
  have hdue : ∀ t ∈ items, t.due uptimeMs = true → Pending log t.timerId t.periodic := by
    intro t ht hd
    rw [Timer.due, Bool.and_eq_true] at hd
    exact (h.active t ht).mp hd.1
  refine h.map (fun t => (t.expire_fields uptimeMs).1) (fun t => (t.expire_fields uptimeMs).2)
    ?_ ?_ ?_ ?_ ?_
  · rw [List.filterMap_eq_nil_iff]
    intro o ho
    rcases (mem_firings _ _ _).mp ho with ⟨t, -, -, rfl⟩
    rfl
  · intro t ht
    have hactive := h.active t ht
    have hfired : Obs.fired t.timerId ∈ firings uptimeMs items ↔ t.due uptimeMs = true := by
      rw [← List.count_pos_iff, count_firings uptimeMs hnodup ht]
      by_cases hd : t.due uptimeMs = true
      · simp [hd]
      · simp [hd]
    rw [Pending, List.mem_append, List.mem_append, hfired]
    by_cases hd : t.due uptimeMs = true
    · cases hperiodic : t.periodic with
      | false => simp [Timer.expire, hd, hperiodic]
      | true =>
          rw [hperiodic] at hactive
          simp [Timer.expire, hd, hperiodic, hcancelled, hactive, Pending]
    · simp [Timer.expire, hd, hcancelled, hactive, Pending]
  · intro id hmem
    rcases hmem with hmem | hmem
    · exact absurd hmem (hcancelled id)
    · rcases (mem_firings _ _ _).mp hmem with ⟨t, ht, -, heq⟩
      rw [Obs.fired.inj heq]
      exact List.mem_map_of_mem ht
  · refine List.pairwise_append.mpr ⟨h.silent, ?_, ?_⟩
    · refine List.Pairwise.imp_of_mem ?_ (List.pairwise_of_forall (R := fun _ _ => True)
        fun _ _ => trivial)
      intro a b ha _ _ id heq
      exact absurd (heq ▸ ha) (hcancelled id)
    · intro a ha b hb id heq heq'
      rcases (mem_firings _ _ _).mp hb with ⟨t, ht, hd, hb'⟩
      have hid : id = t.timerId := Obs.fired.inj (heq'.symm.trans hb')
      subst hid
      exact (hdue t ht hd).1 (heq ▸ ha)
  · intro t ht hperiodic
    have honce := h.once t ht hperiodic
    rw [List.count_append, count_firings uptimeMs hnodup ht]
    by_cases hd : t.due uptimeMs = true
    · have hzero := List.count_eq_zero.mpr ((hdue t ht hd).2 hperiodic)
      rw [if_pos hd, hzero]
    · rw [if_neg hd]
      exact honce

end Inv

/-! ## What a call does -/

/-- The branches of `World.next`, on the list of timers. -/
inductive Step (w w' : World) : Event → Prop where
  | create (intervalMs callback arg : UInt64) (periodic : Bool)
      (hroom : w.st.timers.count < MAX_TIMERS)
      (hitems : w'.st.timers.items = w.st.timers.items ++
        [⟨w.st.nextTimerId, intervalMs, callback, arg, periodic, true⟩])
      (hnext : w'.st.nextTimerId = w.st.nextTimerId + 1)
      (huptime : w'.st.uptimeMs = w.st.uptimeMs)
      (hlog : w'.log = w.log ++ [.created w.st.nextTimerId intervalMs periodic]) :
      Step w w' (.create intervalMs callback arg periodic)
  | cancel (timerId : UInt32) (hid : timerId ∈ w.st.timers.items.map Timer.timerId)
      (hitems : w'.st.timers.items = w.st.timers.items.map (Timer.stop timerId))
      (hnext : w'.st.nextTimerId = w.st.nextTimerId)
      (huptime : w'.st.uptimeMs = w.st.uptimeMs)
      (hlog : w'.log = w.log ++ [.cancelled timerId]) :
      Step w w' (.cancel timerId)
  | refused (e : Event) (hevent : e ≠ .tick) (hsame : w' = w) : Step w w' e
  | tick (hitems : w'.st.timers.items = w.st.timers.items.map (Timer.expire w'.st.uptimeMs))
      (hnext : w'.st.nextTimerId = w.st.nextTimerId)
      (huptime : w'.st.uptimeMs = w.st.uptimeMs + 1)
      (hlog : w'.log = w.log ++ firings w'.st.uptimeMs w.st.timers.items) :
      Step w w' .tick

/-- The table and the counter of a world. -/
structure Good (w : World) : Prop where
  inv : Inv w.st.timers.items w.log
  next : w.st.nextTimerId = UInt32.ofNat (w.st.timers.count + 1)

theorem Good.nodup {w : World} (h : Good w) : (w.st.timers.items.map Timer.timerId).Nodup := by
  have hlen : w.st.timers.items.length ≤ MAX_TIMERS := by
    rw [Slots.length_items]
    exact w.st.timers.count_le
  exact (Numbered.id_pos h.inv.ids hlen).1

/-- Every valid call returns; in particular no tick divides by zero. -/
theorem Good.step {w : World} (h : Good w) {e : Event} (hvalid : e.Valid) :
    ∃ w', w.next e = some w' ∧ Step w w' e := by
  cases e with
  | create intervalMs callback arg periodic =>
      rcases hvalid with ⟨-, hcallback⟩
      by_cases hroom : w.st.timers.count < MAX_TIMERS
      · have hcreate := timerCreate_of_room hroom intervalMs hcallback arg periodic
        have hgrown : w.st.timers.count + 1 ≠ w.st.timers.count := Nat.succ_ne_self _
        refine ⟨⟨(timerCreate w.st intervalMs callback arg periodic).2,
          w.log ++ [.created w.st.nextTimerId intervalMs periodic]⟩, ?_, ?_⟩
        · simp only [World.next, hcreate, Slots.push, if_neg hgrown]
        · rw [hcreate]
          exact Step.create intervalMs callback arg periodic hroom (Slots.items_push _ _ _) rfl rfl rfl
      · have hsame : w.next (.create intervalMs callback arg periodic) = some w := by
          simp only [World.next, timerCreate_of_full hroom, if_true]
        exact ⟨w, hsame, Step.refused _ (by simp) rfl⟩
  | cancel timerId =>
      rcases timerCancel_eq h.nodup timerId with ⟨hfound, hstop, hnone, hnext, huptime⟩
      by_cases hsuccess : (timerCancel w.st timerId).1 = .success
      · rcases hfound.mp hsuccess with ⟨t, ht, hid, -⟩
        have hlog : w.next (.cancel timerId) =
            some ⟨(timerCancel w.st timerId).2, w.log ++ [.cancelled timerId]⟩ := by
          simp only [World.next, if_pos hsuccess]
        refine ⟨_, hlog, Step.cancel timerId ?_ (hstop hsuccess) hnext huptime rfl⟩
        rw [← hid]
        exact List.mem_map_of_mem ht
      · have hsame : w.next (.cancel timerId) = some w := by
          simp only [World.next, if_neg hsuccess, hnone hsuccess]
        exact ⟨w, hsame, Step.refused _ (by simp) rfl⟩
  | tick =>
      rcases timerTick_eq (fun t ht => (h.inv.proper t ht).sound) with ⟨st, htick, hitems, hnext, huptime⟩
      have hworld : w.next .tick =
          some ⟨st, w.log ++ firings (w.st.uptimeMs + 1) w.st.timers.items⟩ := by
        simp only [World.next, htick, Option.map_some]
        rfl
      rw [← huptime] at hitems hworld
      exact ⟨_, hworld, Step.tick hitems hnext huptime rfl⟩

theorem Good.preserved {w w' : World} {e : Event} (h : Good w) (hvalid : e.Valid)
    (hstep : Step w w' e) : Good w' := by
  have hcount (w : World) : w.st.timers.items.length = w.st.timers.count := Slots.length_items _
  cases hstep with
  | create intervalMs callback arg periodic hroom hitems hnext huptime hlog =>
      rcases hvalid with ⟨hinterval, hcallback⟩
      have hcount' := hcount w'
      rw [hitems, List.length_append, List.length_singleton, hcount] at hcount'
      constructor
      · rw [hitems, hlog]
        refine h.inv.create ?_ ⟨hinterval, hcallback⟩ rfl ?_
        · rw [hcount]
          exact hroom
        · rw [hcount]
          exact h.next
      · rw [hnext, h.next, ← hcount']
        exact (UInt32.ofNat_add (w.st.timers.count + 1) 1).symm
  | cancel timerId hid hitems hnext huptime hlog =>
      have hcount' := hcount w'
      rw [hitems, List.length_map, hcount] at hcount'
      constructor
      · rw [hitems, hlog]
        exact h.inv.stop hid
      · rw [hnext, h.next, hcount']
  | refused _ hevent hsame =>
      rw [hsame]
      exact h
  | tick hitems hnext huptime hlog =>
      have hcount' := hcount w'
      rw [hitems, List.length_map, hcount] at hcount'
      constructor
      · rw [hitems, hlog]
        exact h.inv.tick h.nodup _
      · rw [hnext, h.next, hcount']

theorem good_next {w w' : World} {e : Event} (h : Good w) (hnext : system.Next e w w') :
    Good w' ∧ Step w w' e := by
  rcases hnext with ⟨hvalid, hnext⟩
  rcases h.step hvalid with ⟨w'', hnext', hstep⟩
  rw [hnext, Option.some.injEq] at hnext'
  subst hnext'
  exact ⟨h.preserved hvalid hstep, hstep⟩

theorem good_reachable {w : World} (hreach : Lts.Reachable system w) : Good w := by
  refine hreach.invariant ?_ ?_
  · intro w hw
    subst hw
    exact ⟨inv_init, rfl⟩
  · intro e w w' h hnext
    exact (good_next h hnext).1

/-! ## Firings of a periodic timer -/

/-- Uptime wraps at `2 ^ 64`. -/
theorem uptime_run {w w' : World} {events : List Event} (h : Good w)
    (hrun : Lts.Run system w events w') :
    Good w' ∧ w.log <+: w'.log ∧
      w'.st.uptimeMs.toNat = (w.st.uptimeMs.toNat + events.count .tick) % 2 ^ 64 := by
  induction hrun with
  | nil => exact ⟨h, List.prefix_refl _, (Nat.mod_eq_of_lt (UInt64.toNat_lt _)).symm⟩
  | snoc hrun hnext ih =>
      rename_i events e u v
      rcases ih with ⟨hgood, hlog, huptime⟩
      rcases good_next hgood hnext with ⟨hgood', hstep⟩
      have hone : (1 : UInt64).toNat = 1 := rfl
      refine ⟨hgood', ?_, ?_⟩
      · cases hstep with
        | create _ _ _ _ _ _ _ _ hlog' => exact hlog.trans (hlog' ▸ List.prefix_append _ _)
        | cancel _ _ _ _ _ hlog' => exact hlog.trans (hlog' ▸ List.prefix_append _ _)
        | refused _ _ hsame => exact hsame ▸ hlog
        | tick _ _ _ hlog' => exact hlog.trans (hlog' ▸ List.prefix_append _ _)
      · rw [List.count_append]
        cases hstep with
        | create _ _ _ _ _ _ _ huptime' _ =>
            rw [huptime', huptime]
            simp
        | cancel _ _ _ _ huptime' _ =>
            rw [huptime', huptime]
            simp
        | refused _ hevent hsame =>
            rw [hsame, huptime, List.count_singleton, if_neg (by simpa using hevent), Nat.add_zero]
        | tick _ _ huptime' _ =>
            rw [huptime', UInt64.toNat_add, hone, huptime, List.count_singleton_self]
            omega

theorem mod_eq_zero_iff {a b : UInt64} : a % b = 0 ↔ b.toNat ∣ a.toNat := by
  rw [Nat.dvd_iff_mod_eq_zero, ← UInt64.toNat_mod, ← UInt64.toNat_inj]
  rfl

/-- A timer that is in the table stays there. -/
theorem mem_items {w : World} (h : Good w) {id : UInt32} {interval : UInt64} {periodic : Bool}
    (hcreated : .created id interval periodic ∈ w.log) :
    ∃ t ∈ w.st.timers.items, t.timerId = id ∧ t.intervalMs = interval ∧ t.periodic = periodic :=
  (h.inv.mem_iff id interval periodic).mp hcreated

/-- A periodic timer fires when the uptime passes a multiple of its interval. -/
theorem count_fired_run {w w' : World} {events : List Event} (h : Good w)
    (hrun : Lts.Run system w events w') {id : UInt32} {interval : UInt64}
    (hcreated : .created id interval true ∈ w.log) (hactive : .cancelled id ∉ w'.log)
    (hwrap : w.st.uptimeMs.toNat + events.count .tick < 2 ^ 64) :
    w'.log.count (.fired id) = w.log.count (.fired id) +
      ((w.st.uptimeMs.toNat + events.count .tick) / interval.toNat -
        w.st.uptimeMs.toNat / interval.toNat) := by
  induction hrun with
  | nil => simp
  | snoc hrun hnext ih =>
      rename_i events e u v
      rcases uptime_run h hrun with ⟨hgood, hlog, huptime⟩
      rcases good_next hgood hnext with ⟨-, hstep⟩
      rw [List.count_append] at hwrap ⊢
      have hwrap' : w.st.uptimeMs.toNat + events.count .tick < 2 ^ 64 := by omega
      rw [Nat.mod_eq_of_lt hwrap'] at huptime
      cases hstep with
      | create _ _ _ _ _ _ _ _ hlog' =>
          rw [hlog'] at hactive ⊢
          have hih := ih (fun hmem => hactive (List.mem_append_left _ hmem)) hwrap'
          rw [List.count_append, hih]
          simp
      | cancel _ _ _ _ _ hlog' =>
          rw [hlog'] at hactive ⊢
          have hih := ih (fun hmem => hactive (List.mem_append_left _ hmem)) hwrap'
          rw [List.count_append, hih]
          simp
      | refused _ hevent hsame =>
          rw [hsame] at hactive ⊢
          rw [ih hactive hwrap', List.count_singleton, if_neg (by simpa using hevent), Nat.add_zero]
      | tick _ _ huptime' hlog' =>
          rw [hlog'] at hactive ⊢
          have hpending : .cancelled id ∉ u.log := fun hmem => hactive (List.mem_append_left _ hmem)
          rcases mem_items hgood (hlog.subset hcreated) with ⟨t, ht, rfl, rfl, hperiodic⟩
          have hon : t.active = true := by
            rw [hgood.inv.active t ht, hperiodic]
            exact ⟨hpending, fun hfalse => absurd hfalse (by decide)⟩
          have hnow : v.st.uptimeMs.toNat = w.st.uptimeMs.toNat + events.count .tick + 1 := by
            rw [huptime', UInt64.toNat_add, huptime]
            rw [List.count_singleton_self] at hwrap
            exact Nat.mod_eq_of_lt hwrap
          have hdue : t.due v.st.uptimeMs = true ↔
              t.intervalMs.toNat ∣ w.st.uptimeMs.toNat + events.count .tick + 1 := by
            rw [← hnow, ← mod_eq_zero_iff]
            simp [Timer.due, hon]
          rw [List.count_append, ih hpending hwrap', count_firings _ hgood.nodup ht,
            List.count_singleton_self, ← Nat.add_assoc, Nat.succ_div]
          have hle : w.st.uptimeMs.toNat / t.intervalMs.toNat ≤
              (w.st.uptimeMs.toNat + events.count .tick) / t.intervalMs.toNat :=
            Nat.div_le_div_right (Nat.le_add_right _ _)
          by_cases hdvd : t.intervalMs.toNat ∣ w.st.uptimeMs.toNat + events.count .tick + 1
          · rw [if_pos (hdue.mpr hdvd), if_pos hdvd]
            omega
          · rw [if_neg (fun hd => hdvd (hdue.mp hd)), if_neg hdvd]
            omega

/-- The timers over whole runs. An id is never 0, and no two are the same;
`timer_create` returns 0 exactly when `MAX_TIMERS` timers were made. `timer_cancel`
succeeds on the ids that are pending. After its cancel a timer does not fire, a one-shot
timer fires at most once, and a periodic timer that is not cancelled fires whenever the
uptime is a multiple of its interval. -/
theorem timer_table_over_runs {w : World} (hreach : Lts.Reachable system w) :
    ((w.log.filterMap created?).map Prod.fst).Nodup ∧
    0 ∉ (w.log.filterMap created?).map Prod.fst ∧
    (∀ e, e.Valid → ∃ w', w.next e = some w') ∧
    (∀ intervalMs callback arg periodic, callback ≠ 0 →
      ((timerCreate w.st intervalMs callback arg periodic).1 = 0 ↔
        (w.log.filterMap created?).length = MAX_TIMERS)) ∧
    (∀ id, (timerCancel w.st id).1 = .success ↔
      ∃ interval periodic, .created id interval periodic ∈ w.log ∧ Pending w.log id periodic) ∧
    (∀ id before after, w.log = before ++ .cancelled id :: after → .fired id ∉ after) ∧
    (∀ id interval, .created id interval false ∈ w.log → w.log.count (.fired id) ≤ 1) ∧
    (∀ id interval events w', .created id interval true ∈ w.log → Lts.Run system w events w' →
      .cancelled id ∉ w'.log →
      w'.st.uptimeMs.toNat = w.st.uptimeMs.toNat + events.count .tick →
      w'.log.count (.fired id) = w.log.count (.fired id) +
        (w'.st.uptimeMs.toNat / interval.toNat - w.st.uptimeMs.toNat / interval.toNat)) := by
  have hgood := good_reachable hreach
  have hlen : w.st.timers.items.length ≤ MAX_TIMERS := by
    rw [Slots.length_items]
    exact w.st.timers.count_le
  have hids : (w.log.filterMap created?).map Prod.fst = w.st.timers.items.map Timer.timerId := by
    rw [hgood.inv.created, List.map_map]
    rfl
  rcases Numbered.id_pos hgood.inv.ids hlen with ⟨hnodup, hzero, -⟩
  refine ⟨hids ▸ hnodup, hids ▸ hzero, ?_, ?_, ?_, ?_, ?_, ?_⟩
  · intro e hvalid
    rcases hgood.step hvalid with ⟨w', hnext, -⟩
    exact ⟨w', hnext⟩
  · intro intervalMs callback arg periodic hcallback
    rw [hgood.inv.created, List.length_map, Slots.length_items]
    exact timerCreate_zero_iff hgood.next intervalMs hcallback arg periodic
  · intro id
    rw [(timerCancel_eq hgood.nodup id).1]
    constructor
    · rintro ⟨t, ht, rfl, hactive⟩
      exact ⟨t.intervalMs, t.periodic, (hgood.inv.mem_iff _ _ _).mpr ⟨t, ht, rfl, rfl, rfl⟩,
        (hgood.inv.active t ht).mp hactive⟩
    · rintro ⟨interval, periodic, hcreated, hpending⟩
      rcases mem_items hgood hcreated with ⟨t, ht, rfl, rfl, rfl⟩
      exact ⟨t, ht, rfl, (hgood.inv.active t ht).mpr hpending⟩
  · intro id before after hlog hmem
    have hsilent := hgood.inv.silent
    rw [hlog, List.pairwise_append, List.pairwise_cons] at hsilent
    exact hsilent.2.1.1 _ hmem id rfl rfl
  · intro id interval hcreated
    rcases mem_items hgood hcreated with ⟨t, ht, rfl, -, hperiodic⟩
    exact hgood.inv.once t ht hperiodic
  · intro id interval events w' hcreated hrun hactive huptime
    have hwrap : w.st.uptimeMs.toNat + events.count .tick < 2 ^ 64 := by
      rw [← huptime]
      exact UInt64.toNat_lt _
    rw [huptime]
    exact count_fired_run hgood hrun hcreated hactive hwrap

/-- A periodic timer of 2 ms is created. -/
def oneTimer : World :=
  ⟨(timerCreate timerInit 2 0x1000 0 true).2, [.created 1 2 true]⟩

/-- It can be cancelled, and fires once in two ticks. -/
theorem timer_table_of_one :
    (timerCancel oneTimer.st 1).1 = .success ∧
    ∃ w', Lts.Run system oneTimer [.tick, .tick] w' ∧ w'.log.count (.fired 1) = 1 := by
  have hreach : Lts.Reachable system oneTimer :=
    (Lts.Reachable.init (S := system) rfl).step (a := Event.create 2 0x1000 0 true)
      ⟨⟨by decide, by decide⟩, rfl⟩
  obtain ⟨-, -, -, -, hcancel, -, -, hperiodic⟩ := timer_table_over_runs hreach
  have hcreated : Obs.created 1 2 true ∈ oneTimer.log := List.mem_singleton_self _
  have hticks : ∃ u, oneTimer.next .tick = some u ∧
      ∃ w', u.next .tick = some w' ∧ w'.st.uptimeMs = 2 ∧ .cancelled 1 ∉ w'.log := by
    decide +kernel
  rcases hticks with ⟨u, hu, w', hw', huptime, hactive⟩
  have hfirst : Lts.Run system oneTimer [.tick] u := Lts.Run.snoc Lts.Run.nil ⟨trivial, hu⟩
  have hrun : Lts.Run system oneTimer [.tick, .tick] w' := hfirst.snoc ⟨trivial, hw'⟩
  have hcount := hperiodic 1 2 _ w' hcreated hrun hactive (by rw [huptime]; rfl)
  rw [huptime] at hcount
  refine ⟨(hcancel 1).mpr ⟨2, true, hcreated, by simp [Pending, oneTimer]⟩, w', hrun, hcount⟩

end OmniOS.Timers
