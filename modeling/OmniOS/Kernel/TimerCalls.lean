import OmniOS.Kernel.TimerRuns

/-!
# OmniOS.Kernel.TimerCalls — the timers under any calls

`OmniOS.Kernel.TimerRuns` has the callers give an interval. Here they may pass
anything, 0 included, and a run ends where `timer_tick` traps.

1. **Ticks in a row.** What `n` ticks leave of a timer (`Timer.after`), and which
   of them call it.
2. **Intervals.** When a timer measures its interval from its creation.
3. **Slots.** When a slot can be used again.
-/

namespace OmniOS.Timers

open Lts

/-! ## Runs -/

def State.next (s : State) : Event → Option State
  | .create intervalMs callback arg periodic =>
      some (timerCreate s intervalMs callback arg periodic).2
  | .cancel timerId => some (timerCancel s timerId).2
  | .tick => (timerTick s).map Prod.snd

/-- Any calls after `timer_init`. -/
def calls : System State Event where
  Init s := s = timerInit
  Next e s s' := s.next e = some s'

/-- What every table has in common. -/
structure Table (s : State) : Prop where
  numbered : Numbered s.timers.items
  next : s.nextTimerId = UInt32.ofNat (s.timers.count + 1)
  callback : ∀ t ∈ s.timers.items, t.callback ≠ 0

section Table

variable {s s' : State}

theorem table_init : Table timerInit :=
  ⟨rfl, rfl, by simp [timerInit]⟩

theorem Table.nodup (h : Table s) : s.timers.Distinct Timer.timerId :=
  (h.numbered.id_pos (by rw [Slots.length_items]; exact s.timers.count_le)).1

/-- A call that changes timers in place. -/
theorem Table.map (h : Table s) {f : Timer → Timer} (hid : ∀ t, (f t).timerId = t.timerId)
    (hcallback : ∀ t, (f t).callback = t.callback)
    (hitems : s'.timers.items = s.timers.items.map f) (hnext : s'.nextTimerId = s.nextTimerId) :
    Table s' ∧ s'.timers.count = s.timers.count := by
  have hcount : s'.timers.count = s.timers.count := by
    rw [← Slots.length_items, hitems, List.length_map, Slots.length_items]
  refine ⟨⟨?_, ?_, ?_⟩, hcount⟩
  · rw [hitems]
    exact h.numbered.map hid
  · rw [hnext, h.next, hcount]
  · intro t' ht'
    rw [hitems] at ht'
    rcases List.mem_map.mp ht' with ⟨t, ht, rfl⟩
    rw [hcallback]
    exact h.callback t ht

theorem Table.create (h : Table s) (hroom : s.timers.count < MAX_TIMERS) (intervalMs : UInt64)
    {callback : UInt64} (hcallback : callback ≠ 0) (arg : UInt64) (periodic : Bool) :
    Table (timerCreate s intervalMs callback arg periodic).2 := by
  rw [timerCreate_of_room hroom intervalMs hcallback arg periodic]
  have hitems := s.timers.items_push hroom
    ⟨s.nextTimerId, intervalMs, callback, arg, periodic, true⟩
  constructor
  · show Numbered (s.timers.push hroom _).items
    rw [hitems]
    refine h.numbered.append ?_
    rw [Slots.length_items]
    exact h.next
  · show s.nextTimerId + 1 = UInt32.ofNat (s.timers.count + 1 + 1)
    rw [h.next]
    exact (UInt32.ofNat_add (s.timers.count + 1) 1).symm
  · intro t ht
    change t ∈ (s.timers.push hroom _).items at ht
    rw [hitems, List.mem_append, List.mem_singleton] at ht
    rcases ht with ht | rfl
    · exact h.callback t ht
    · exact hcallback

/-- While every active timer has an interval, a tick returns. -/
theorem Table.tick (h : Table s)
    (hinterval : ∀ t ∈ s.timers.items, t.active = true → t.intervalMs ≠ 0) :
    ∃ s', timerTick s = some (s.timers.items.filter (Timer.due (s.uptimeMs + 1)), s') ∧
      Table s' ∧ s'.timers.items = s.timers.items.map (Timer.expire (s.uptimeMs + 1)) ∧
      s'.uptimeMs = s.uptimeMs + 1 := by
  rcases timerTick_eq fun t ht => ⟨h.callback t ht, hinterval t ht⟩ with
    ⟨s', htick, hitems, hnext, huptime⟩
  refine ⟨s', htick, (h.map ?_ ?_ hitems hnext).1, hitems, huptime⟩
  · exact fun t => congrArg Prod.fst (t.expire_fields _).1
  · exact fun t => (t.expire_fields _).2

theorem tick_intervals {r : List Timer × State} (htick : timerTick s = some r) :
    ∀ t ∈ s.timers.items, t.active = true → t.intervalMs ≠ 0 := by
  intro t ht hactive hzero
  rw [timerTick_zero ht hactive hzero] at htick
  cases htick

/-- One call: the table grows or keeps its timers, in place. -/
theorem Table.step (h : Table s) {e : Event} (hnext : s.next e = some s') :
    Table s' ∧ ((s'.timers.count = s.timers.count + 1 ∧ s.timers.count < MAX_TIMERS) ∨
      ∃ f : Timer → Timer, (∀ t, t.active = false → (f t).active = false) ∧
        s'.timers.items = s.timers.items.map f) := by
  have hsame : Table s ∧ ((s.timers.count = s.timers.count + 1 ∧ s.timers.count < MAX_TIMERS) ∨
      ∃ f : Timer → Timer, (∀ t, t.active = false → (f t).active = false) ∧
        s.timers.items = s.timers.items.map f) :=
    ⟨h, Or.inr ⟨id, fun _ => id, (List.map_id _).symm⟩⟩
  cases e with
  | create intervalMs callback arg periodic =>
      cases hnext
      by_cases hcallback : callback = 0
      · rw [show timerCreate s intervalMs callback arg periodic = (0, s) from if_pos hcallback]
        exact hsame
      · by_cases hroom : s.timers.count < MAX_TIMERS
        · refine ⟨h.create hroom intervalMs hcallback arg periodic, Or.inl ⟨?_, hroom⟩⟩
          rw [timerCreate_of_room hroom intervalMs hcallback arg periodic]
          rfl
        · rw [timerCreate_of_full hroom]
          exact hsame
  | cancel timerId =>
      cases hnext
      rcases timerCancel_eq h.nodup timerId with ⟨-, hstop, hnone, hnextId, -⟩
      by_cases hsuccess : (timerCancel s timerId).1 = .success
      · have hitems := hstop hsuccess
        refine ⟨(h.map ?_ ?_ hitems hnextId).1, Or.inr ⟨_, ?_, hitems⟩⟩
        · exact fun t => congrArg Prod.fst (t.stop_fields timerId).1
        · exact fun t => (t.stop_fields timerId).2
        · intro t ht
          unfold Timer.stop
          split
          · rfl
          · exact ht
      · rw [hnone hsuccess]
        exact hsame
  | tick =>
      rcases Option.map_eq_some_iff.mp hnext with ⟨⟨called, s₁⟩, htick, rfl⟩
      rcases h.tick (tick_intervals htick) with ⟨s₂, htick₂, htable, hitems, -⟩
      cases htick.symm.trans htick₂
      refine ⟨htable, Or.inr ⟨_, ?_, hitems⟩⟩
      intro t ht
      simp [Timer.expire, Timer.due, ht]

theorem table_reachable (hreach : Reachable calls s) : Table s := by
  refine hreach.invariant ?_ ?_
  · rintro s rfl
    exact table_init
  · intro e s s' h hnext
    exact (h.step hnext).1

end Table

/-! ## Ticks in a row -/

/-- The timers called in the last of `n` ticks, and the state after it. -/
def ticks (s : State) : Nat → Option (List Timer × State)
  | 0 => some ([], s)
  | n + 1 => (ticks s n).bind fun r => timerTick r.2

/-- What the ticks at the `n` uptimes after `uptimeMs` leave of a timer. -/
def Timer.after (uptimeMs : UInt64) : Nat → Timer → Timer
  | 0, t => t
  | n + 1, t => (t.after uptimeMs n).expire (uptimeMs + UInt64.ofNat (n + 1))

theorem Timer.after_fields (uptimeMs : UInt64) (n : Nat) (t : Timer) :
    (t.after uptimeMs n).fixed = t.fixed ∧ (t.after uptimeMs n).callback = t.callback := by
  induction n with
  | zero => exact ⟨rfl, rfl⟩
  | succ n ih =>
      rcases Timer.expire_fields (uptimeMs + UInt64.ofNat (n + 1)) (t.after uptimeMs n) with
        ⟨hfixed, hcallback⟩
      exact ⟨hfixed.trans ih.1, hcallback.trans ih.2⟩

theorem Timer.after_interval (uptimeMs : UInt64) (n : Nat) (t : Timer) :
    (t.after uptimeMs n).intervalMs = t.intervalMs :=
  congrArg (fun p => p.2.1) (t.after_fields uptimeMs n).1

theorem Timer.expire_active (uptimeMs : UInt64) (t : Timer) :
    (t.expire uptimeMs).active = true ↔
      t.active = true ∧ (t.periodic = true ∨ uptimeMs % t.intervalMs ≠ 0) := by
  unfold Timer.expire Timer.due
  cases hactive : t.active with
  | false => simp [hactive]
  | true =>
      by_cases hdue : uptimeMs % t.intervalMs = 0
      · cases hperiodic : t.periodic with
        | false => simp [hdue]
        | true => simp [hactive]
      · simp [hdue, hactive]

/-- A one-shot timer is active until it has been due. -/
theorem Timer.after_active (uptimeMs : UInt64) (n : Nat) (t : Timer) :
    (t.after uptimeMs n).active = true ↔ t.active = true ∧ (t.periodic = true ∨
      ∀ j < n, (uptimeMs + UInt64.ofNat (j + 1)) % t.intervalMs ≠ 0) := by
  induction n with
  | zero => simp [Timer.after]
  | succ n ih =>
      have hperiodic : (t.after uptimeMs n).periodic = t.periodic :=
        congrArg (fun p => p.2.2) (t.after_fields uptimeMs n).1
      rw [Timer.after, Timer.expire_active, hperiodic, t.after_interval, ih,
        Nat.forall_lt_succ_right]
      tauto

theorem Timer.after_id (uptimeMs : UInt64) (n : Nat) (t : Timer) :
    (t.after uptimeMs n).timerId = t.timerId :=
  congrArg Prod.fst (t.after_fields uptimeMs n).1

section Ticks

variable {s s' : State}

/-- `s'` is `s` after `n` ticks. -/
structure Ticked (s : State) (n : Nat) (s' : State) : Prop where
  table : Table s'
  items : s'.timers.items = s.timers.items.map (Timer.after s.uptimeMs n)
  uptime : s'.uptimeMs = s.uptimeMs + UInt64.ofNat n

/-- The timers called in the last of `n` ticks. -/
def calledIn (s : State) : Nat → List Timer
  | 0 => []
  | n + 1 => (s.timers.items.map (Timer.after s.uptimeMs n)).filter
      (Timer.due (s.uptimeMs + UInt64.ofNat (n + 1)))

/-- One more tick; an inactive timer may have any interval. -/
theorem Ticked.tick {n : Nat} (h : Ticked s n s')
    (hinterval : ∀ t ∈ s.timers.items, t.active = true → t.intervalMs ≠ 0) :
    ∃ s'', timerTick s' = some (calledIn s (n + 1), s'') ∧ Ticked s (n + 1) s'' := by
  have hsafe : ∀ t ∈ s'.timers.items, t.active = true → t.intervalMs ≠ 0 := by
    intro t' ht' hactive
    rw [h.items] at ht'
    rcases List.mem_map.mp ht' with ⟨t, ht, rfl⟩
    rw [t.after_interval]
    exact hinterval t ht ((t.after_active _ _).mp hactive).1
  have huptime : s'.uptimeMs + 1 = s.uptimeMs + UInt64.ofNat (n + 1) := by
    rw [h.uptime, UInt64.ofNat_add, UInt64.add_assoc]
    rfl
  rcases h.table.tick hsafe with ⟨s'', htick, htable, hitems, hnow⟩
  rw [huptime] at htick hitems hnow
  rw [h.items] at htick
  refine ⟨s'', htick, htable, ?_, hnow⟩
  rw [hitems, h.items, List.map_map]
  rfl

/-- While every active timer has an interval, all ticks return. -/
theorem Table.ticks (h : Table s)
    (hinterval : ∀ t ∈ s.timers.items, t.active = true → t.intervalMs ≠ 0) (n : Nat) :
    ∃ s', Timers.ticks s n = some (calledIn s n, s') ∧ Ticked s n s' := by
  induction n with
  | zero =>
      refine ⟨s, rfl, h, (List.map_id _).symm, ?_⟩
      exact (UInt64.add_zero _).symm
  | succ n ih =>
      rcases ih with ⟨s', hticks, hticked⟩
      rcases hticked.tick hinterval with ⟨s'', htick, hticked'⟩
      refine ⟨s'', ?_, hticked'⟩
      rw [Timers.ticks, hticks]
      exact htick

theorem mem_calledIn (h : Table s) {t : Timer} (ht : t ∈ s.timers.items) (n : Nat) :
    (∃ x ∈ calledIn s (n + 1), x.timerId = t.timerId) ↔
      (t.after s.uptimeMs n).due (s.uptimeMs + UInt64.ofNat (n + 1)) = true := by
  constructor
  · rintro ⟨x', hx', hid⟩
    rcases List.mem_filter.mp hx' with ⟨hmem, hdue⟩
    rcases List.mem_map.mp hmem with ⟨x, hx, rfl⟩
    rw [x.after_id] at hid
    rw [List.inj_on_of_nodup_map h.nodup hx ht hid] at hdue
    exact hdue
  · intro hdue
    exact ⟨_, List.mem_filter.mpr ⟨List.mem_map_of_mem ht, hdue⟩, t.after_id _ _⟩

end Ticks

/-! ## Intervals -/

/-- The uptime `n` milliseconds later, before the counter wraps. -/
theorem due_iff {uptimeMs intervalMs : UInt64} {n : Nat} (hwrap : uptimeMs.toNat + n < 2 ^ 64) :
    (uptimeMs + UInt64.ofNat n) % intervalMs = 0 ↔ intervalMs.toNat ∣ uptimeMs.toNat + n := by
  have hn : (UInt64.ofNat n).toNat = n := by
    rw [UInt64.toNat_ofNat']
    exact Nat.mod_eq_of_lt (by omega)
  rw [mod_eq_zero_iff, UInt64.toNat_add, hn, Nat.mod_eq_of_lt hwrap]

/-- Ticks after the creation of the timer `id` at the uptime `t`: none of them traps,
and as long as the uptime does not wrap they call the timer `d` milliseconds after
its creation, and if it is periodic every `d` milliseconds from then on. -/
structure Measured (s : State) (id : UInt32) (d : Nat) (periodic : Bool) : Prop where
  safe : ∀ n, (ticks s n).isSome
  calls : ∀ n called s', s.uptimeMs.toNat + n < 2 ^ 64 → 0 < n →
    ticks s n = some (called, s') →
    ((∃ t ∈ called, t.timerId = id) ↔ if periodic then d ∣ n else n = d)

/-- An active timer is called when the uptime is a multiple of its interval, if it is
one-shot only the first time. -/
theorem called_iff {s : State} (h : Table s) {t : Timer} (ht : t ∈ s.timers.items)
    (hactive : t.active = true) {n : Nat} (hn : 0 < n) (hwrap : s.uptimeMs.toNat + n < 2 ^ 64) :
    (∃ x ∈ calledIn s n, x.timerId = t.timerId) ↔
      t.intervalMs.toNat ∣ s.uptimeMs.toNat + n ∧ (t.periodic = true ∨
        ∀ j, 0 < j → j < n → ¬ t.intervalMs.toNat ∣ s.uptimeMs.toNat + j) := by
  obtain ⟨m, rfl⟩ : ∃ m, n = m + 1 := ⟨n - 1, by omega⟩
  -- the uptimes before, counted from 0 and from 1
  have hbefore : (∀ j < m, (s.uptimeMs + UInt64.ofNat (j + 1)) % t.intervalMs ≠ 0) ↔
      ∀ j, 0 < j → j < m + 1 → ¬ t.intervalMs.toNat ∣ s.uptimeMs.toNat + j := by
    constructor
    · intro hnone j hpos hj
      obtain ⟨i, rfl⟩ : ∃ i, j = i + 1 := ⟨j - 1, by omega⟩
      rw [← due_iff (by omega)]
      exact hnone i (by omega)
    · intro hnone j hj
      rw [ne_eq, due_iff (by omega)]
      exact hnone (j + 1) (Nat.succ_pos j) (by omega)
  rw [mem_calledIn h ht, Timer.due, Bool.and_eq_true, t.after_active, t.after_interval, beq_iff_eq,
    due_iff hwrap, hbefore]
  simp only [hactive, true_and]
  exact and_comm

/-- The first positive multiple of `d` is `d`. -/
theorem first_multiple_iff {d n : Nat} (hd : 0 < d) (hn : 0 < n) :
    (d ∣ n ∧ ∀ j, 0 < j → j < n → ¬ d ∣ j) ↔ n = d := by
  constructor
  · rintro ⟨hdvd, hfirst⟩
    have hle : d ≤ n := Nat.le_of_dvd hn hdvd
    by_contra hne
    exact hfirst d hd (by omega) (Nat.dvd_refl d)
  · rintro rfl
    exact ⟨Nat.dvd_refl n, fun j hpos hj => Nat.not_dvd_of_pos_of_lt hpos hj⟩

theorem next_multiple_le {t d m : Nat} (hdvd : d ∣ m) (hlt : t < m) : (t / d + 1) * d ≤ m := by
  obtain ⟨k, rfl⟩ := hdvd
  have hdiv : t / d < k := Nat.div_lt_of_lt_mul hlt
  rw [Nat.mul_comm d k]
  exact Nat.mul_le_mul_right d hdiv

/-- Multiples of `d` after `t` against multiples of `d` counted from `t`, all or only
the first one: they are the same below `limit` if `t` is a multiple itself or none
of them is below. -/
theorem counted_from_iff {t d limit : Nat} (hd : 0 < d) (periodic : Bool) :
    (∀ n, 0 < n → t + n < limit →
      ((d ∣ t + n ∧ (periodic = true ∨ ∀ j, 0 < j → j < n → ¬ d ∣ t + j)) ↔
        if periodic then d ∣ n else n = d)) ↔
      d ∣ t ∨ limit ≤ (t / d + 1) * d := by
  have hsplit : d * (t / d) + t % d = t := Nat.div_add_mod t d
  have hnext : (t / d + 1) * d = d * (t / d) + d := by rw [Nat.add_mul, Nat.one_mul, Nat.mul_comm]
  have hrem : t % d < d := Nat.mod_lt t hd
  constructor
  · intro hall
    by_contra hnot
    rw [not_or, Nat.not_le, Nat.dvd_iff_mod_eq_zero] at hnot
    rcases hnot with ⟨hmod, hlimit⟩
    -- the next multiple comes before `t + d`
    have hlast : t + (d - t % d) = (t / d + 1) * d := by omega
    have hdue : d ∣ t + (d - t % d) := hlast ▸ Nat.dvd_mul_left d _
    have hfirst : ∀ j, 0 < j → j < d - t % d → ¬ d ∣ t + j := by
      intro j hpos hj hdvd
      have hle := next_multiple_le hdvd (show t < t + j by omega)
      omega
    have hcounted := (hall (d - t % d) (by omega) (by omega)).mp ⟨hdue, Or.inr hfirst⟩
    cases periodic with
    | false =>
        rw [if_neg (by decide)] at hcounted
        omega
    | true =>
        rw [if_pos rfl] at hcounted
        exact Nat.not_dvd_of_pos_of_lt (by omega) (by omega) hcounted
  · rintro (hdvd | hlimit) n hn hlt
    · simp only [Nat.dvd_add_right hdvd]
      cases periodic with
      | false => simpa using first_multiple_iff hd hn
      | true => simp
    · refine iff_of_false ?_ ?_
      · rintro ⟨hdvd, -⟩
        have hle := next_multiple_le hdvd (show t < t + n by omega)
        omega
      · intro hcounted
        have hle : d ≤ n := by
          cases periodic with
          | false =>
              rw [if_neg (by decide)] at hcounted
              omega
          | true =>
              rw [if_pos rfl] at hcounted
              exact Nat.le_of_dvd hn hcounted
        omega

/-- `timer_create` accepts a callback while there is a slot. -/
theorem accepted {s : State} {d callback arg : UInt64} {periodic : Bool}
    (haccept : (timerCreate s d callback arg periodic).1 ≠ 0) :
    s.timers.count < MAX_TIMERS ∧ callback ≠ 0 := by
  unfold timerCreate at haccept
  split at haccept
  · exact absurd rfl haccept
  · next hcallback =>
      split at haccept
      · next hroom => exact ⟨hroom, hcallback⟩
      · exact absurd rfl haccept

/-- A timer accepted at the uptime `t` with the interval `d` measures its interval from
its creation, and no tick traps, exactly if `d` and the intervals of the active
timers are not 0 and `t` is a multiple of `d` (or there is no multiple of `d`
between `t` and the end of the counter). -/
theorem interval_from_creation_iff {s : State} (hreach : Reachable calls s)
    {d callback arg : UInt64} {periodic : Bool}
    (haccept : (timerCreate s d callback arg periodic).1 ≠ 0) :
    Measured (timerCreate s d callback arg periodic).2
        (timerCreate s d callback arg periodic).1 d.toNat periodic ↔
      d ≠ 0 ∧ (∀ t ∈ s.timers.items, t.active = true → t.intervalMs ≠ 0) ∧
      (d.toNat ∣ s.uptimeMs.toNat ∨
        2 ^ 64 ≤ (s.uptimeMs.toNat / d.toNat + 1) * d.toNat) := by
  have htable := table_reachable hreach
  rcases accepted haccept with ⟨hroom, hcallback⟩
  have htable' := htable.create hroom d hcallback arg periodic
  have hcreate := timerCreate_of_room hroom d hcallback arg periodic
  generalize timerCreate s d callback arg periodic = r at hcreate htable' ⊢
  rcases r with ⟨id, s'⟩
  generalize hme : (⟨s.nextTimerId, d, callback, arg, periodic, true⟩ : Timer) = me at hcreate
  have hitems : s'.timers.items = s.timers.items ++ [me] := by
    rw [(Prod.mk.inj hcreate).2]
    exact s.timers.items_push hroom me
  have huptime : s'.uptimeMs = s.uptimeMs := by rw [(Prod.mk.inj hcreate).2]
  have hid : id = me.timerId := by rw [(Prod.mk.inj hcreate).1, ← hme]
  have hmem : me ∈ s'.timers.items := by simp [hitems]
  have hinterval : me.intervalMs = d := by rw [← hme]
  have hactive : me.active = true := by rw [← hme]
  have hperiodic : me.periodic = periodic := by rw [← hme]
  -- the intervals a tick divides by are those of the old timers and `d`
  have hsafe : (∀ t ∈ s'.timers.items, t.active = true → t.intervalMs ≠ 0) ↔
      d ≠ 0 ∧ ∀ t ∈ s.timers.items, t.active = true → t.intervalMs ≠ 0 := by
    simp [hitems, or_imp, forall_and, hactive, hinterval, and_comm]
  have hcalled : ∀ n, 0 < n → s.uptimeMs.toNat + n < 2 ^ 64 →
      ((∃ t ∈ calledIn s' n, t.timerId = id) ↔ d.toNat ∣ s.uptimeMs.toNat + n ∧
        (periodic = true ∨ ∀ j, 0 < j → j < n → ¬ d.toNat ∣ s.uptimeMs.toNat + j)) := by
    intro n hn hwrap
    rw [hid, called_iff htable' hmem hactive hn (by rw [huptime]; exact hwrap), huptime, hinterval,
      hperiodic]
  have hpos : d ≠ 0 → 0 < d.toNat := by
    intro hd
    rw [Nat.pos_iff_ne_zero]
    exact fun hzero => hd (UInt64.toNat_inj.mp hzero)
  rw [← and_assoc, ← hsafe]
  constructor
  · intro hmeasured
    rcases Option.isSome_iff_exists.mp (hmeasured.safe 1) with ⟨r, hr⟩
    have hintervals : ∀ t ∈ s'.timers.items, t.active = true → t.intervalMs ≠ 0 :=
      tick_intervals hr
    refine ⟨hintervals, (counted_from_iff (hpos (hsafe.mp hintervals).1) periodic).mp ?_⟩
    intro n hn hwrap
    rcases htable'.ticks hintervals n with ⟨s'', hticks, -⟩
    rw [← hcalled n hn hwrap]
    exact hmeasured.calls n _ s'' (by rw [huptime]; exact hwrap) hn hticks
  · rintro ⟨hintervals, hcounted⟩
    constructor
    · intro n
      rcases htable'.ticks hintervals n with ⟨s'', hticks, -⟩
      simp [hticks]
    · intro n called s'' hwrap hn hcall
      rcases htable'.ticks hintervals n with ⟨s₂, hticks, -⟩
      cases hcall.symm.trans hticks
      rw [huptime] at hwrap
      rw [hcalled n hn hwrap]
      exact (counted_from_iff (hpos (hsafe.mp hintervals).1) periodic).mpr hcounted n hn hwrap

/-- A timer of 5 ms created at the uptime 0. -/
theorem interval_at_zero :
    (timerCreate timerInit 5 0x1000 0 true).1 ≠ 0 ∧
    Measured (timerCreate timerInit 5 0x1000 0 true).2 1 5 true := by
  have haccept : (timerCreate timerInit 5 0x1000 0 true).1 ≠ 0 := by decide
  have h := interval_from_creation_iff (Reachable.init rfl) haccept
  exact ⟨haccept, h.mpr ⟨by decide, by simp [timerInit], Or.inl (Nat.dvd_zero _)⟩⟩

/-- One millisecond after `timer_init`. -/
def atOne : State := { timerInit with uptimeMs := 1 }

theorem atOne_reachable : Reachable calls atOne :=
  (Reachable.init (S := calls) rfl).step (a := Event.tick)
    (show timerInit.next .tick = some atOne from rfl)

/-- A one-shot timer of 2 ms created at the uptime 1 is called by the next tick; one
of 0 ms makes the next tick trap. -/
theorem interval_not_measured :
    Reachable calls atOne ∧
    (ticks (timerCreate atOne 2 0x1000 0 false).2 1).map (fun r => r.1.map Timer.timerId) =
      some [1] ∧
    ticks (timerCreate atOne 0 0x1000 0 false).2 1 = none :=
  ⟨atOne_reachable, by decide, rfl⟩

/-! ## Slots -/

def State.activeCount (s : State) : Nat := s.timers.items.countP Timer.active

section Slots

variable {s s' : State} {events : List Event}

theorem activeCount_eq_max_iff (hfull : s.timers.count = MAX_TIMERS) :
    s.activeCount = MAX_TIMERS ↔ ∀ t ∈ s.timers.items, t.active = true := by
  have hall := List.countP_eq_length (p := Timer.active) (l := s.timers.items)
  rw [Slots.length_items, hfull] at hall
  exact hall

/-- A full table stays full, and no timer in it becomes active again. -/
theorem full_run (h : Table s) (hfull : s.timers.count = MAX_TIMERS)
    (hrun : Run calls s events s') :
    Table s' ∧ s'.timers.count = MAX_TIMERS ∧ s'.activeCount ≤ s.activeCount := by
  refine hrun.invariant (I := fun s' => Table s' ∧ s'.timers.count = MAX_TIMERS ∧
    s'.activeCount ≤ s.activeCount) ?_ ⟨h, hfull, Nat.le_refl _⟩
  rintro e s₁ s₂ ⟨htable, hcount, hactive⟩ hnext
  rcases htable.step hnext with ⟨htable₂, ⟨-, hroom⟩ | ⟨f, hstays, hitems⟩⟩
  · omega
  · refine ⟨htable₂, ?_, ?_⟩
    · have hlen := congrArg List.length hitems
      rw [List.length_map, Slots.length_items, Slots.length_items] at hlen
      exact hlen.trans hcount
    · refine Nat.le_trans ?_ hactive
      unfold State.activeCount
      rw [hitems, List.countP_map]
      refine List.countP_mono_left ?_
      intro t _ ht
      by_contra hnot
      rw [Bool.not_eq_true] at hnot
      have hfalse := hstays t hnot
      rw [Function.comp_apply, hfalse] at ht
      cases ht

/-- `timer_create` with a callback fails only when all timers are active exactly if a
slot has never been used, or all timers are active. Once this is not so, every later
call fails as well, with less than `MAX_TIMERS` timers active. -/
theorem slots_reusable_iff (hreach : Reachable calls s) (d : UInt64) {callback : UInt64}
    (hcallback : callback ≠ 0) (arg : UInt64) (periodic : Bool) :
    (((timerCreate s d callback arg periodic).1 = 0 → s.activeCount = MAX_TIMERS) ↔
      s.timers.count < MAX_TIMERS ∨ ∀ t ∈ s.timers.items, t.active = true) ∧
    (s.timers.count = MAX_TIMERS → s.activeCount < MAX_TIMERS →
      ∀ events s', Run calls s events s' →
        (timerCreate s' d callback arg periodic).1 = 0 ∧ s'.activeCount < MAX_TIMERS) := by
  have htable := table_reachable hreach
  constructor
  · rw [timerCreate_zero_iff htable.next d hcallback]
    rcases Nat.lt_or_eq_of_le s.timers.count_le with hroom | hfull
    · exact iff_of_true (fun hfull => absurd hfull (Nat.ne_of_lt hroom)) (Or.inl hroom)
    · rw [← activeCount_eq_max_iff hfull, or_iff_right (Nat.not_lt.mpr (Nat.le_of_eq hfull.symm))]
      exact ⟨fun hall => hall hfull, fun hall _ => hall⟩
  · intro hfull hinactive events s' hrun
    rcases full_run htable hfull hrun with ⟨htable', hfull', hle⟩
    exact ⟨(timerCreate_zero_iff htable'.next d hcallback arg periodic).mpr hfull',
      Nat.lt_of_le_of_lt hle hinactive⟩

/-- At the start there are slots. -/
theorem slots_at_start :
    (0x1000 : UInt64) ≠ 0 ∧
    ((timerCreate timerInit 10 0x1000 0 true).1 = 0 → timerInit.activeCount = MAX_TIMERS) := by
  have hcallback : (0x1000 : UInt64) ≠ 0 := by decide
  exact ⟨hcallback, (slots_reusable_iff (Reachable.init rfl) 10 hcallback 0 true).1.mpr
    (Or.inl (by decide))⟩

/-- 64 timers are created and one is cancelled; there is no slot for another one. -/
theorem slot_not_reused :
    ∃ s, Reachable calls s ∧ s.timers.count = MAX_TIMERS ∧ s.activeCount = 63 ∧
      (timerCreate s 10 0x1000 0 true).1 = 0 := by
  have htest : ((List.replicate 64 (Event.create 10 0x1000 0 true) ++ [Event.cancel 1]).foldlM
      State.next timerInit).map (fun s : State => decide (s.timers.count = MAX_TIMERS ∧
        s.activeCount = 63 ∧ (timerCreate s 10 0x1000 0 true).1 = 0)) = some true := by
    decide +kernel
  exact Reachable.of_test (S := calls) (fun e s s' h => h) (Reachable.init rfl) htest

end Slots

end OmniOS.Timers
