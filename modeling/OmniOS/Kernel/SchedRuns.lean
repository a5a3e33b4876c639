import OmniOS.Kernel.SchedInv

/-!
# OmniOS.Kernel.SchedRuns — the scheduler over whole runs

`Inv s A none H` over the reachable states. `H` are the threads lost so far:
`sched_add_thread` returns without a word when the queue is full, and the thread
it was called for is in no queue from then on.

* With any `H`: queues hold ready threads, once each, the current threads are
  the running ones, and `sched_pick_next` loses nothing.
* With `H = []`, which is where runs that add to queues with room stay: every
  thread that is awake is in one place.
-/

namespace OmniOS.Sched

open Lts

variable {T : Type} [DecidableEq T]

/-! ## Operations -/

section Operations

variable {s : State T} {A H : List T} {t : T}

/-- `sched_add_thread` of a thread in hand; it stays in hand if the queue is full. -/
theorem Inv.tryEnqueue (h : Inv s A none (t :: H)) (hfree : Free s none t) (hadded : t ∈ A)
    (cpu : Cpu) :
    ∃ s' H', schedAddThread s cpu t = some s' ∧ Inv s' A none H' ∧
      ((items (s.runqueues cpu)).length < 256 → H' = H) ∧ ∀ x ∈ H', x = t ∨ x ∈ H := by
  rcases Nat.lt_or_ge (items (s.runqueues cpu)).length 256 with hroom | hfull
  · -- room: the thread is queued
    rcases h.enqueue hfree hadded hroom with ⟨s', hadd, hinv, -⟩
    exact ⟨s', H, hadd, hinv, fun _ => rfl, fun _ => Or.inr⟩
  · exact ⟨s, t :: H, schedAddThread_full t hfull, h, fun hroom => absurd hfull (by omega),
      fun _ => List.mem_cons.mp⟩

theorem Inv.add (h : Inv s A none H) (hfresh : t ∉ A) (cpu : Cpu) :
    ∃ s' H', schedAddThread s cpu t = some s' ∧ Inv s' (t :: A) none H' ∧
      ((items (s.runqueues cpu)).length < 256 → H' = H) ∧ ∀ x ∈ H', x = t ∨ x ∈ H :=
  (h.join t).tryEnqueue (h.free_of_fresh hfresh) List.mem_cons_self cpu

/-- A sleeping thread is in no queue and current nowhere, so it can be queued. -/
theorem Inv.wakeSleeping (h : Inv s A none H) (hsleep : (s.threads t).state = .sleeping)
    (cpu : Cpu) :
    ∃ s' H', schedAddThread (s.setState t .ready) cpu t = some s' ∧
      Inv s' (t :: A) none H' ∧ ((items (s.runqueues cpu)).length < 256 → H' = H) ∧
      ∀ x ∈ H', x = t ∨ x ∈ H := by
  have hfree : Free s none t := by
    apply h.free <;> rw [hsleep] <;> decide
  have hready := (h.join t).setState hfree List.mem_cons_self .ready
  exact hready.tryEnqueue (hfree.setState t .ready) List.mem_cons_self cpu

theorem Inv.yieldCurrent (h : Inv s A none H) (cpu : Cpu) :
    ∃ s', schedYield s cpu = some s' ∧ Inv s' A none H := by
  rcases h.vacate cpu with ⟨hhand, hfree⟩
  apply hhand.yield
  intro c hc
  rcases h.current cpu c nofun hc with ⟨hrunning, hadded⟩
  exact ⟨hfree c hc, hadded, Or.inl hrunning⟩

/-- Writing the other fields of a thread leaves every state as it is. -/
theorem state_update {threads : T → Thread} {c : T} {thread : Thread}
    (hsame : thread.state = (threads c).state) (t : T) :
    (Function.update threads c thread t).state = (threads t).state := by
  by_cases htc : t = c
  · rw [htc, Function.update_self, hsame]
  · rw [Function.update_of_ne htc]

theorem Inv.sleep (h : Inv s A none H) (cpu : Cpu) (uptime ms : UInt64) :
    ∃ s', schedSleep s cpu uptime ms = some s' ∧ Inv s' A none H := by
  unfold schedSleep
  cases hc : s.currentThreads cpu with
  | none => exact ⟨s, rfl, h⟩
  | some c =>
      dsimp only
      rcases h.vacate cpu with ⟨hhand, hfree⟩
      -- the wakeup time is not looked at; then the state changes, and the CPU is yielded
      generalize htime : ({ s with
        threads := Function.update s.threads c
          { s.threads c with wakeupTime := uptime + ms } } : State T) = timed
      have hcur : timed.currentThreads = s.currentThreads := by rw [← htime]
      have htimed : Inv timed A (some cpu) ((s.currentThreads cpu).toList ++ H) := by
        rw [← htime]
        exact hhand.congr h.rep (fun _ => rfl) rfl (state_update rfl)
      have hfreeC : Free timed (some cpu) c := by
        rw [← htime]
        exact ⟨(hfree c hc).notQueued, (hfree c hc).notCurrent⟩
      have hslept := htimed.setState hfreeC (by simp [hc]) .sleeping
      rw [← hcur] at hslept
      apply hslept.yield
      intro c' hc'
      rw [setState_currentThreads, hcur, hc] at hc'
      rw [← Option.some.inj hc']
      exact ⟨hfreeC.setState c .sleeping, (h.current cpu c nofun hc).2,
        Or.inr (setState_state_self _ _ _)⟩

theorem Inv.tick (h : Inv s A none H) (cpu : Cpu) : Inv (schedTick s cpu) A none H := by
  -- neither counter is looked at
  have hqueues : ∀ cpu',
      Rep ((s.setRunqueue cpu { s.runqueues cpu with
        totalTicks := (s.runqueues cpu).totalTicks + 1 }).runqueues cpu') ∧
      items ((s.setRunqueue cpu { s.runqueues cpu with
        totalTicks := (s.runqueues cpu).totalTicks + 1 }).runqueues cpu') =
        items (s.runqueues cpu') := by
    intro cpu'
    by_cases hc : cpu' = cpu
    · rw [hc, setRunqueue_self]
      exact ⟨⟨(h.rep cpu).head_lt, (h.rep cpu).count_le, (h.rep cpu).tail_eq⟩, rfl⟩
    · rw [setRunqueue_ne _ _ _ hc]
      exact ⟨h.rep cpu', rfl⟩
  unfold schedTick
  dsimp only
  split
  · exact h.congr (fun cpu' => (hqueues cpu').1) (fun cpu' => (hqueues cpu').2) rfl (fun _ => rfl)
  · exact h.congr (fun cpu' => (hqueues cpu').1) (fun cpu' => (hqueues cpu').2) rfl
      (state_update rfl)

end Operations

/-! ## Steps and runs -/

/-- No step adds to a full queue. -/
def HasRoom : Op T → Conf T → Prop
  | .add cpu _, c => (c.sched.runqueues cpu).count < 256
  | .wake cpu (some t), c =>
      (c.sched.threads t).state = .sleeping → (c.sched.runqueues cpu).count < 256
  | _, _ => True

omit [DecidableEq T] in
theorem length_items_lt {rq : Runqueue T} (h : rq.count < 256) : (items rq).length < 256 := by
  rw [length_items]
  exact UInt32.lt_iff_toNat_lt.mp h

theorem next_add {c : Conf T} {cpu : Cpu} {t : T} {s : State T} (hfresh : t ∉ c.added)
    (hadd : schedAddThread c.sched cpu t = some s) :
    (system T).Next (.add cpu t) c ⟨s, t :: c.added⟩ :=
  ⟨hfresh, s, hadd, rfl⟩

/-- One step; threads are lost in steps without room only, and they are new or
sleeping ones. -/
theorem next_inv {op : Op T} {c c' : Conf T} {H : List T} (h : Inv c.sched c.added none H)
    (hnext : Next op c c') :
    ∃ H', Inv c'.sched c'.added none H' ∧ (HasRoom op c → H' = H) ∧
      ∀ x ∈ H', (x ∉ c.added ∨ (c.sched.threads x).state = .sleeping) ∨ x ∈ H := by
  cases op with
  | add cpu t =>
      rcases hnext with ⟨hfresh, s, hs, rfl⟩
      rcases h.add hfresh cpu with ⟨s', H', hs', hinv, hroom, hlost⟩
      cases hs.symm.trans hs'
      refine ⟨H', hinv, fun hlt => hroom (length_items_lt hlt), ?_⟩
      intro x hx
      rcases hlost x hx with rfl | hold
      · exact Or.inl (Or.inl hfresh)
      · exact Or.inr hold
  | yield cpu =>
      rcases hnext with ⟨s, hs, rfl⟩
      rcases h.yieldCurrent cpu with ⟨s', hs', hinv⟩
      cases hs.symm.trans hs'
      exact ⟨H, hinv, fun _ => rfl, fun _ => Or.inr⟩
  | sleep cpu uptime ms =>
      rcases hnext with ⟨s, hs, rfl⟩
      rcases h.sleep cpu uptime ms with ⟨s', hs', hinv⟩
      cases hs.symm.trans hs'
      exact ⟨H, hinv, fun _ => rfl, fun _ => Or.inr⟩
  | wake cpu thread =>
      rcases hnext with ⟨s, hs, rfl⟩
      cases thread with
      | none =>
          cases hs
          exact ⟨H, h, fun _ => rfl, fun _ => Or.inr⟩
      | some t =>
          unfold schedWake at hs
          dsimp only at hs
          by_cases hsleep : (c.sched.threads t).state = .sleeping
          · -- it is set to ready first, and then added like a new one
            rw [if_neg (not_not.mpr hsleep)] at hs
            rcases h.wakeSleeping hsleep cpu with ⟨s', H', hs', hinv, hroom, hlost⟩
            cases hs.symm.trans hs'
            refine ⟨H', ?_, fun hlt => hroom (length_items_lt (hlt hsleep)), ?_⟩
            · simpa [hsleep] using hinv
            · intro x hx
              rcases hlost x hx with rfl | hold
              · exact Or.inl (Or.inr hsleep)
              · exact Or.inr hold
          · -- an awake thread is left alone
            rw [if_pos hsleep] at hs
            cases hs
            refine ⟨H, ?_, fun _ => rfl, fun _ => Or.inr⟩
            simpa [hsleep] using h
  | tick cpu =>
      cases hnext
      exact ⟨H, h.tick cpu, fun _ => rfl, fun _ => Or.inr⟩

omit [DecidableEq T] in
theorem init_inv (ncpus : Nat) (threads : T → Thread) :
    Inv (schedInit ncpus threads) [] none [] := by
  have hitems : ∀ cpu, items ((schedInit ncpus threads).runqueues cpu) = [] := fun _ => rfl
  constructor
  · intro cpu
    exact ⟨Nat.zero_lt_succ _, Nat.zero_le _, rfl⟩
  · intro cpu p hp
    rw [hitems] at hp
    exact absurd hp List.not_mem_nil
  · intro cpu
    rw [hitems]
    exact List.nodup_nil
  · intro cpu cpu' p hp
    rw [hitems] at hp
    exact absurd hp List.not_mem_nil
  · intro cpu t _ hcur
    exact absurd hcur nofun
  · intro cpu cpu' t _ _ hcur
    exact absurd hcur nofun
  · intro t ht
    exact absurd ht List.not_mem_nil

theorem reachable_inv {c : Conf T} (hreach : Reachable (system T) c) :
    ∃ H, Inv c.sched c.added none H := by
  refine hreach.invariant (I := fun c => ∃ H, Inv c.sched c.added none H) ?_ ?_
  · rintro c ⟨ncpus, threads, rfl⟩
    exact ⟨[], init_inv ncpus threads⟩
  · rintro op c c' ⟨H, h⟩ hnext
    rcases next_inv h hnext with ⟨H', h', -⟩
    exact ⟨H', h'⟩

/-- In a run whose steps all have room, no thread is ever left in hand. -/
theorem reachable_inv_nil {c : Conf T} (hreach : Reachable ((system T).restrict HasRoom) c) :
    Inv c.sched c.added none [] := by
  refine hreach.invariant (I := fun c => Inv c.sched c.added none []) ?_ ?_
  · rintro c ⟨ncpus, threads, rfl⟩
    exact init_inv ncpus threads
  · rintro op c c' h ⟨hroom, hnext⟩
    rcases next_inv h hnext with ⟨H', h', hnil, -⟩
    rw [hnil hroom] at h'
    exact h'

/-- Adding a thread never goes out of bounds. -/
theorem schedAddThread_returns {s : State T} {cpu : Cpu} (h : Rep (s.runqueues cpu)) (t : T) :
    ∃ s', schedAddThread s cpu t = some s' := by
  rcases Nat.lt_or_ge (items (s.runqueues cpu)).length 256 with hroom | hfull
  · rcases schedAddThread_room t h hroom with ⟨rq, hadd, -⟩
    exact ⟨_, hadd⟩
  · exact ⟨s, schedAddThread_full t hfull⟩

/-- In a reachable state every operation returns, so that `Next` leaves out no
call that the kernel could make. -/
theorem operations_return {c : Conf T} (hreach : Reachable (system T) c) (cpu : Cpu) :
    (∀ t, ∃ s, schedAddThread c.sched cpu t = some s) ∧
    (∃ s, schedYield c.sched cpu = some s) ∧
    (∀ uptime ms, ∃ s, schedSleep c.sched cpu uptime ms = some s) ∧
    ∀ thread, ∃ s, schedWake c.sched cpu thread = some s := by
  rcases reachable_inv hreach with ⟨H, h⟩
  refine ⟨schedAddThread_returns (h.rep cpu), ?_, ?_, ?_⟩
  · rcases h.yieldCurrent cpu with ⟨s, hs, -⟩
    exact ⟨s, hs⟩
  · intro uptime ms
    rcases h.sleep cpu uptime ms with ⟨s, hs, -⟩
    exact ⟨s, hs⟩
  · intro thread
    cases thread with
    | none => exact ⟨_, rfl⟩
    | some t =>
        unfold schedWake
        dsimp only
        split
        · exact ⟨_, rfl⟩
        · have hrep : Rep ((c.sched.setState t .ready).runqueues cpu) := h.rep cpu
          exact schedAddThread_returns hrep t

/-! ## Queues and current threads -/

/-- `sched_pick_next` under the invariant: what leaves the queue is returned. -/
theorem Inv.pickNext {s : State T} {A H : List T} (h : Inv s A none H) (cpu : Cpu) :
    ∃ next s', schedPickNext s cpu = some (next, s') ∧
      items (s.runqueues cpu) = next.toList.map some ++ items (s'.runqueues cpu) ∧
      (next = none → items (s.runqueues cpu) = []) ∧
      ∀ cpu', cpu' ≠ cpu → s'.runqueues cpu' = s.runqueues cpu' := by
  cases hitems : items (s.runqueues cpu) with
  | nil =>
      refine ⟨none, s, schedPickNext_nil hitems, ?_, fun _ => rfl, fun _ _ => rfl⟩
      rw [hitems]
      rfl
  | cons p l =>
      rcases schedPickNext_cons (h.rep cpu) hitems with ⟨rq, hpick, -, hrq⟩
      rcases h.queued cpu p (by rw [hitems]; exact List.mem_cons_self) with ⟨t, rfl, hready, -⟩
      -- a queued thread is ready, so it is never dropped
      have hdispatch : dispatch (s.setRunqueue cpu rq) (some t) =
          (some t, (s.setRunqueue cpu rq).setState t .running) := if_pos hready
      rw [hdispatch] at hpick
      refine ⟨some t, _, hpick, ?_, nofun, ?_⟩
      · rw [setState_runqueues, setRunqueue_self, hrq]
        rfl
      · intro cpu' hne
        rw [setState_runqueues, setRunqueue_ne _ _ _ hne]

/-- In every reachable state: queued threads are ready, no thread is queued twice,
current threads are running, distinct and in no queue, and `sched_pick_next`
returns the thread it dequeues, NULL only from an empty queue. -/
theorem queues_consistent {c : Conf T} (hreach : Reachable (system T) c) :
    (∀ cpu, ∀ p ∈ items (c.sched.runqueues cpu),
      ∃ t, p = some t ∧ (c.sched.threads t).state = .ready) ∧
    (∀ cpu, (items (c.sched.runqueues cpu)).Nodup) ∧
    (∀ cpu cpu', cpu ≠ cpu' →
      List.Disjoint (items (c.sched.runqueues cpu)) (items (c.sched.runqueues cpu'))) ∧
    (∀ cpu t, c.sched.currentThreads cpu = some t →
      (c.sched.threads t).state = .running ∧
      (∀ cpu', c.sched.currentThreads cpu' = some t → cpu' = cpu) ∧
      ∀ cpu', some t ∉ items (c.sched.runqueues cpu')) ∧
    ∀ cpu, ∃ next s', schedPickNext c.sched cpu = some (next, s') ∧
      items (c.sched.runqueues cpu) = next.toList.map some ++ items (s'.runqueues cpu) ∧
      (next = none → items (c.sched.runqueues cpu) = []) ∧
      ∀ cpu', cpu' ≠ cpu → s'.runqueues cpu' = c.sched.runqueues cpu' := by
  rcases reachable_inv hreach with ⟨H, h⟩
  refine ⟨?_, h.nodup, ?_, ?_, h.pickNext⟩
  · intro cpu p hp
    rcases h.queued cpu p hp with ⟨t, hpt, hready, -⟩
    exact ⟨t, hpt, hready⟩
  · intro cpu cpu' hne p hp hp'
    exact hne (h.disjoint cpu cpu' p hp hp')
  · intro cpu t hcur
    refine ⟨(h.current cpu t nofun hcur).1, ?_, ?_⟩
    · intro cpu' hcur'
      exact h.distinct cpu' cpu t nofun nofun hcur' hcur
    · exact ((h.vacate cpu).2 t hcur).notQueued

/-- `true` runs on CPU 0 and `false` waits there. -/
def twoThreads : Conf Bool :=
  let s := schedInit 1 fun _ => ⟨.ready, 0, 0⟩
  let s := ((schedAddThread s 0 true).bind (schedAddThread · 0 false)).bind (schedYield · 0)
  ⟨s.getD (schedInit 1 fun _ => ⟨.ready, 0, 0⟩), [false, true]⟩

theorem twoThreads_reachable : Reachable ((system Bool).restrict HasRoom) twoThreads := by
  have hinit : Reachable ((system Bool).restrict HasRoom)
      ⟨schedInit 1 fun _ => ⟨.ready, 0, 0⟩, []⟩ := Reachable.init ⟨1, _, rfl⟩
  have hfirst := hinit.step (a := Op.add 0 true)
    ⟨show (0 : UInt32) < 256 by decide, next_add (by decide) rfl⟩
  have hsecond := hfirst.step (a := Op.add 0 false)
    ⟨show (0 + 1 : UInt32) < 256 by decide, next_add (by decide) rfl⟩
  exact hsecond.step (a := Op.yield 0) ⟨trivial, _, rfl, rfl⟩

theorem queues_consistent_twoThreads :
    twoThreads.sched.currentThreads 0 = some true ∧
    items (twoThreads.sched.runqueues 0) = [some false] ∧
    ∃ next s', schedPickNext twoThreads.sched 0 = some (next, s') ∧
      items (twoThreads.sched.runqueues 0) = next.toList.map some ++ items (s'.runqueues 0) := by
  rcases queues_consistent twoThreads_reachable.of_restrict with ⟨-, -, -, -, hpick⟩
  rcases hpick 0 with ⟨next, s', hnext, hitems, -⟩
  exact ⟨by decide, by decide, next, s', hnext, hitems⟩

/-! ## No thread is lost while there is room -/

/-- As long as no thread is added to a full queue, every thread that was added
and is awake is running on exactly one CPU or ready in exactly one queue. -/
theorem awake_thread_placed {c : Conf T} (hreach : Reachable ((system T).restrict HasRoom) c)
    {t : T} (hadded : t ∈ c.added) (hawake : (c.sched.threads t).state ≠ .sleeping) :
    ((c.sched.threads t).state = .running ∧ (∃! cpu, c.sched.currentThreads cpu = some t) ∧
      ∀ cpu, some t ∉ items (c.sched.runqueues cpu)) ∨
    ((c.sched.threads t).state = .ready ∧ (∀ cpu, c.sched.currentThreads cpu ≠ some t) ∧
      (∃! cpu, some t ∈ items (c.sched.runqueues cpu)) ∧
      ∀ cpu, (items (c.sched.runqueues cpu)).Nodup) := by
  have h := reachable_inv_nil hreach
  -- with no thread in hand, `placed` speaks about all that were added
  rcases h.placed t hadded List.not_mem_nil hawake with ⟨cpu, -, hcur⟩ | ⟨cpu, hmem⟩
  · left
    refine ⟨(h.current cpu t nofun hcur).1, ⟨cpu, hcur, ?_⟩, ((h.vacate cpu).2 t hcur).notQueued⟩
    intro cpu' hcur'
    exact h.distinct cpu' cpu t nofun nofun hcur' hcur
  · right
    rcases h.queued cpu _ hmem with ⟨t', heq, hready, -⟩
    rw [← Option.some.inj heq] at hready
    refine ⟨hready, ?_, ⟨cpu, hmem, ?_⟩, h.nodup⟩
    · intro cpu' hcur
      exact ((h.vacate cpu').2 t hcur).notQueued cpu hmem
    · intro cpu' hmem'
      exact h.disjoint cpu' cpu _ hmem' hmem

theorem awake_thread_placed_twoThreads :
    (twoThreads.sched.threads false).state = .ready ∧
    ∃! cpu, some false ∈ items (twoThreads.sched.runqueues cpu) := by
  have hready : (twoThreads.sched.threads false).state = .ready := by decide
  have hawake : (twoThreads.sched.threads false).state ≠ .sleeping := by decide
  have hadded : false ∈ twoThreads.added := by decide
  rcases awake_thread_placed twoThreads_reachable hadded hawake with
    ⟨hrunning, -⟩ | ⟨-, -, hqueued, -⟩
  · rw [hready] at hrunning
    exact absurd hrunning (by decide)
  · exact ⟨hready, hqueued⟩

/-- Adding `k` threads on CPU 0, up to the size of its queue. -/
theorem add_upto {k : Nat} (hk : k ≤ 256) :
    ∃ c : Conf Nat, Reachable (system Nat) c ∧ c.added.length = k ∧ (∀ t ∈ c.added, t < k) ∧
      (items (c.sched.runqueues 0)).length = k ∧ ∀ t, (c.sched.threads t).state = .ready := by
  induction k with
  | zero =>
      refine ⟨⟨schedInit 1 fun _ => ⟨.ready, 0, 0⟩, []⟩, Reachable.init ⟨1, _, rfl⟩, rfl, ?_, rfl,
        fun _ => rfl⟩
      intro t ht
      exact absurd ht List.not_mem_nil
  | succ k ih =>
      rcases ih (by omega) with ⟨c, hreach, hlen, hlt, hcount, hready⟩
      rcases reachable_inv hreach with ⟨H, h⟩
      -- thread `k` is fresh and finds room
      rcases schedAddThread_room k (h.rep 0) (by omega) with ⟨rq, hadd, -, hitems⟩
      have hfresh : k ∉ c.added := fun hmem => Nat.lt_irrefl k (hlt k hmem)
      refine ⟨_, hreach.step (next_add hfresh hadd), ?_, ?_, ?_, ?_⟩
      · rw [List.length_cons, hlen]
      · intro t ht
        rcases List.mem_cons.mp ht with rfl | ht
        · exact Nat.lt_succ_self _
        · exact Nat.lt_succ_of_lt (hlt t ht)
      · rw [setState_runqueues, setRunqueue_self, hitems, List.length_append, hcount]
        rfl
      · intro t
        by_cases htk : t = k
        · rw [htk, setState_state_self]
        · rw [setState_state_ne _ _ _ htk]
          exact hready t

/-- The 257th thread added on one CPU is lost: it is ready, and nowhere. -/
theorem thread_257_lost :
    ∃ c : Conf Nat, Reachable (system Nat) c ∧ c.added.length = 257 ∧ 256 ∈ c.added ∧
      (c.sched.threads 256).state = .ready ∧ (∀ cpu, c.sched.currentThreads cpu ≠ some 256) ∧
      ∀ cpu, some 256 ∉ items (c.sched.runqueues cpu) := by
  rcases add_upto (Nat.le_refl 256) with ⟨c, hreach, hlen, hlt, hcount, hready⟩
  rcases reachable_inv hreach with ⟨H, h⟩
  have hfresh : 256 ∉ c.added := fun hmem => Nat.lt_irrefl 256 (hlt 256 hmem)
  have hfree := h.free_of_fresh hfresh
  -- the queue is full, so nothing changes
  have hadd : schedAddThread c.sched 0 256 = some c.sched :=
    schedAddThread_full 256 (Nat.le_of_eq hcount.symm)
  refine ⟨_, hreach.step (next_add hfresh hadd), ?_, List.mem_cons_self, hready 256, ?_, ?_⟩
  · rw [List.length_cons, hlen]
  · intro cpu
    exact hfree.notCurrent cpu nofun
  · exact hfree.notQueued

end OmniOS.Sched
