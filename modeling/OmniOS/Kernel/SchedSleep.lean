import OmniOS.Kernel.SchedRuns

/-!
# OmniOS.Kernel.SchedSleep — how long `sched_sleep` sleeps

`sched_sleep` stores a deadline, the timer interrupt moves the clock, and nothing
compares the two.

1. **Who sleeps.** One law for all operations (`asleep_next`): a thread falls
   asleep by its own `sched_sleep` with another thread in the queue of its CPU,
   and wakes up by `sched_wake`.
2. **With the clock.** The scheduler under the timer interrupt of
   `kernel_main.c`. Of the two halves of a sleep, not to run before the deadline
   and to be back after it, the code has the first exactly if somebody else could
   run, and the second exactly if nobody could.
-/

namespace OmniOS.Sched

open Lts

variable {T : Type} [DecidableEq T] {s s' : State T} {A H : List T} {cpu : Cpu} {t x : T}

/-! ## Who sleeps -/

def Asleep (s : State T) (t : T) : Prop :=
  (s.threads t).state = .sleeping

omit [DecidableEq T] in
theorem awake_of_ready (hready : (s.threads t).state = .ready) : ¬ Asleep s t := by
  intro hsleep
  exact absurd (hready.symm.trans hsleep) (by decide)

omit [DecidableEq T] in
theorem awake_of_running (hrunning : (s.threads t).state = .running) : ¬ Asleep s t := by
  intro hsleep
  exact absurd (hrunning.symm.trans hsleep) (by decide)

omit [DecidableEq T] in
theorem Inv.awake_of_current (h : Inv s A none H) (hcur : s.currentThreads cpu = some t) :
    ¬ Asleep s t :=
  awake_of_running (h.current cpu t nofun hcur).1

theorem asleep_setState {st : ProcState} (hst : st ≠ .sleeping) :
    Asleep (s.setState x st) t ↔ t ≠ x ∧ Asleep s t := by
  unfold Asleep
  by_cases htx : t = x
  · subst htx
    simp [hst]
  · simp [setState_state_ne s x st htx, htx]

theorem asleep_addThread (hx : Asleep s t → t ≠ x) (hadd : schedAddThread s cpu x = some s') :
    Asleep s' t ↔ Asleep s t := by
  unfold schedAddThread at hadd
  dsimp only at hadd
  split at hadd
  · cases hadd
    exact Iff.rfl
  · split at hadd
    · cases hadd
      rw [asleep_setState (by decide)]
      exact and_iff_right_of_imp hx
    · cases hadd

/-- The same for a thread that is made ready first. -/
theorem asleep_addReady (hadd : schedAddThread (s.setState x .ready) cpu x = some s') :
    Asleep s' t ↔ t ≠ x ∧ Asleep s t := by
  have hready : Asleep (s.setState x .ready) t ↔ t ≠ x ∧ Asleep s t := asleep_setState (by decide)
  rw [asleep_addThread (fun ht => (hready.mp ht).1) hadd, hready]

/-- A running thread is made ready; nobody else changes. -/
theorem asleep_requeue {current : Option T} (hrequeue : requeue s cpu current = some s') :
    Asleep s' t ↔ Asleep s t := by
  unfold requeue at hrequeue
  split at hrequeue
  · cases hrequeue
    exact Iff.rfl
  · next c =>
      split at hrequeue
      · next hrunning =>
          rw [asleep_addReady hrequeue]
          refine and_iff_right_of_imp ?_
          rintro ht rfl
          exact awake_of_running hrunning ht
      · cases hrequeue
        exact Iff.rfl

/-- Yielding wakes the current thread up if the queue is empty, and nobody else. -/
theorem asleep_yield (hrep : Rep (s.runqueues cpu))
    (hqueued : ∀ p ∈ items (s.runqueues cpu), ∃ x, p = some x ∧ (s.threads x).state = .ready)
    (hyield : schedYield s cpu = some s') :
    Asleep s' t ↔ Asleep s t ∧
      (s.currentThreads cpu = some t → items (s.runqueues cpu) ≠ []) := by
  cases hitems : items (s.runqueues cpu) with
  | nil =>
      rw [schedYield_nil hitems] at hyield
      cases hyield
      cases s.currentThreads cpu with
      | none => simp
      | some c =>
          show Asleep (s.setState c .running) t ↔ _
          rw [asleep_setState (by decide), and_comm, Option.some.injEq]
          simp [eq_comm]
  | cons p l =>
      rcases hqueued p (by rw [hitems]; exact List.mem_cons_self) with ⟨x, rfl, hready⟩
      rcases schedYield_cons hrep hitems hready with ⟨rq, -, -, heq⟩
      rw [hyield] at heq
      rcases Option.map_eq_some_iff.mp heq.symm with ⟨s₁, hrequeue, rfl⟩
      show Asleep s₁ t ↔ _
      rw [asleep_requeue hrequeue, asleep_setState (by decide)]
      -- the thread that gets the CPU was ready
      have hne : Asleep s t → t ≠ x := by
        rintro ht rfl
        exact awake_of_ready hready ht
      constructor
      · rintro ⟨-, ht⟩
        exact ⟨ht, fun _ => List.cons_ne_nil _ _⟩
      · rintro ⟨ht, -⟩
        exact ⟨hne ht, ht⟩

/-- `sched_sleep` puts the current thread to sleep if there is another one to run. -/
theorem asleep_sleep {uptime ms : UInt64} (h : Inv s A none H)
    (hsleep : schedSleep s cpu uptime ms = some s') :
    Asleep s' t ↔ Asleep s t ∨
      (s.currentThreads cpu = some t ∧ items (s.runqueues cpu) ≠ []) := by
  unfold schedSleep at hsleep
  cases hc : s.currentThreads cpu with
  | none =>
      rw [hc] at hsleep
      cases hsleep
      simp
  | some c =>
      rw [hc] at hsleep
      dsimp only at hsleep
      generalize htimed : ({ s with
        threads := Function.update s.threads c
          { s.threads c with wakeupTime := uptime + ms } } : State T) = timed at hsleep
      have hstate : ∀ x, (timed.threads x).state = (s.threads x).state := by
        rw [← htimed]
        exact state_update rfl
      have hqueues : timed.runqueues = s.runqueues := by rw [← htimed]
      have hcurrent : timed.currentThreads cpu = some c := by rw [← htimed, ← hc]
      have hrunning : (s.threads c).state = .running := (h.current cpu c nofun hc).1
      have hqueued : ∀ p ∈ items ((timed.setState c .sleeping).runqueues cpu), ∃ x, p = some x ∧
          ((timed.setState c .sleeping).threads x).state = .ready := by
        intro p hp
        rw [setState_runqueues, hqueues] at hp
        rcases h.queued cpu p hp with ⟨x, rfl, hready, -⟩
        have hxc : x ≠ c := by
          rintro rfl
          exact absurd (hready.symm.trans hrunning) (by decide)
        exact ⟨x, rfl, by rw [setState_state_ne _ _ _ hxc, hstate, hready]⟩
      have hrep : Rep ((timed.setState c .sleeping).runqueues cpu) := by
        rw [setState_runqueues, hqueues]
        exact h.rep cpu
      rw [asleep_yield hrep hqueued hsleep, setState_runqueues, hqueues, setState_currentThreads,
        hcurrent, Option.some.injEq]
      by_cases htc : t = c
      · -- it has just been set to sleep, and before it was running
        have hself : Asleep (timed.setState t .sleeping) t := setState_state_self _ _ _
        subst htc
        simp [hself, awake_of_running hrunning]
      · have hsame : Asleep (timed.setState c .sleeping) t ↔ Asleep s t := by
          unfold Asleep
          rw [setState_state_ne _ _ _ htc, hstate]
        rw [hsame]
        simp [Ne.symm htc]

theorem asleep_wake {thread : Option T} (hwake : schedWake s cpu thread = some s') :
    Asleep s' t ↔ Asleep s t ∧ thread ≠ some t := by
  unfold schedWake at hwake
  cases thread with
  | none =>
      cases hwake
      simp
  | some x =>
      dsimp only at hwake
      rw [ne_eq, Option.some.injEq, eq_comm]
      split at hwake
      · next hx =>
          cases hwake
          refine (and_iff_left_of_imp ?_).symm
          rintro ht rfl
          exact hx ht
      · rw [asleep_addReady hwake, and_comm]

theorem schedTick_state : ((schedTick s cpu).threads t).state = (s.threads t).state := by
  unfold schedTick
  dsimp only
  split
  · rfl
  · refine state_update ?_ t
    rfl

/-- One operation, on a thread that was added: it falls asleep by its own
`sched_sleep`, if there is another thread to run, and only `sched_wake` ends that. -/
theorem asleep_next {op : Op T} {c c' : Conf T} (h : Inv c.sched c.added none H)
    (hnext : Next op c c') (ht : t ∈ c.added) :
    Asleep c'.sched t ↔ (Asleep c.sched t ∧ ∀ cpu, op ≠ .wake cpu (some t)) ∨
      ∃ cpu uptime ms, op = .sleep cpu uptime ms ∧ c.sched.currentThreads cpu = some t ∧
        items (c.sched.runqueues cpu) ≠ [] := by
  cases op with
  | add cpu x =>
      rcases hnext with ⟨hfresh, s, hadd, rfl⟩
      have htx : t ≠ x := by
        rintro rfl
        exact hfresh ht
      rw [asleep_addThread (fun _ => htx) hadd]
      simp
  | yield cpu =>
      rcases hnext with ⟨s, hyield, rfl⟩
      have hqueued : ∀ p ∈ items (c.sched.runqueues cpu),
          ∃ x, p = some x ∧ (c.sched.threads x).state = .ready := by
        intro p hp
        rcases h.queued cpu p hp with ⟨x, hpx, hready, -⟩
        exact ⟨x, hpx, hready⟩
      rw [asleep_yield (h.rep cpu) hqueued hyield]
      simp only [ne_eq, reduceCtorEq, not_false_eq_true, implies_true, and_true, false_and,
        exists_false, or_false]
      -- a current thread is running, so nobody is woken up
      refine and_iff_left_of_imp ?_
      intro hsleep hcur
      exact absurd hsleep (h.awake_of_current hcur)
  | sleep cpu uptime ms =>
      rcases hnext with ⟨s, hsleep, rfl⟩
      rw [asleep_sleep h hsleep]
      simp
  | wake cpu thread =>
      rcases hnext with ⟨s, hwake, rfl⟩
      rw [asleep_wake hwake]
      simp
  | tick cpu =>
      cases hnext
      have hsame : Asleep (schedTick c.sched cpu) t ↔ Asleep c.sched t := by
        unfold Asleep
        rw [schedTick_state]
      rw [hsame]
      simp

/-! ## The clock -/

/-- The scheduler under `pit_handler`, and `_ticks` counted without wrapping. -/
structure Timed (T : Type) where
  conf : Conf T
  ticks : Nat

/-- The `uint64_t` that the kernel reads. -/
def kernelGetUptimeMs (k : Timed T) : UInt64 := UInt64.ofNat k.ticks * 10

/-- The uptime in milliseconds. -/
def Timed.uptime (k : Timed T) : Nat := 10 * k.ticks

/-- The operations of the scheduler, and the timer interrupt. -/
inductive Call (T : Type) where
  | add (cpu : Cpu) (thread : T)
  | yield (cpu : Cpu)
  | sleep (cpu : Cpu) (ms : UInt64)
  | wake (cpu : Cpu) (thread : Option T)
  | pit (cpu : Cpu)

/-- What the call does to the scheduler; `pit_handler` calls `sched_tick`. -/
def Call.op (k : Timed T) : Call T → Op T
  | .add cpu thread => .add cpu thread
  | .yield cpu => .yield cpu
  | .sleep cpu ms => .sleep cpu (kernelGetUptimeMs k) ms
  | .wake cpu thread => .wake cpu thread
  | .pit cpu => .tick cpu

omit [DecidableEq T] in
/-- Only a call of `sched_wake` wakes. -/
theorem Call.eq_wake {k : Timed T} {call : Call T} {thread : Option T}
    (hop : call.op k = .wake cpu thread) : call = .wake cpu thread := by
  cases call with
  | wake cpu' thread' =>
      cases hop
      rfl
  | add cpu' x => cases hop
  | yield cpu' => cases hop
  | sleep cpu' ms => cases hop
  | pit cpu' => cases hop

omit [DecidableEq T] in
theorem Call.eq_sleep {k : Timed T} {call : Call T} {uptime ms : UInt64}
    (hop : call.op k = .sleep cpu uptime ms) : call = .sleep cpu ms := by
  cases call with
  | sleep cpu' ms' =>
      cases hop
      rfl
  | add cpu' x => cases hop
  | yield cpu' => cases hop
  | wake cpu' thread => cases hop
  | pit cpu' => cases hop

/-- What it adds to `_ticks`. -/
def Call.ticks : Call T → Nat
  | .pit _ => 1
  | _ => 0

def timed (T : Type) [DecidableEq T] : System (Timed T) (Call T) where
  Init := fun k => (system T).Init k.conf ∧ k.ticks = 0
  Next := fun call k k' => Next (call.op k) k.conf k'.conf ∧ k'.ticks = k.ticks + call.ticks

section Clock

variable {k k' : Timed T} {c : T} {ms : UInt64} {calls : List (Call T)}

/-- The scheduler of a timed run is in a run of its own. -/
theorem timed_reachable (hreach : Reachable (timed T) k) : Reachable (system T) k.conf := by
  refine hreach.invariant (I := fun k => Reachable (system T) k.conf) ?_ ?_
  · intro k hk
    exact Reachable.init hk.1
  · intro call k k' hk hnext
    exact hk.step hnext.1

theorem timed_inv (hreach : Reachable (timed T) k) :
    ∃ H, Inv k.conf.sched k.conf.added none H :=
  reachable_inv (timed_reachable hreach)

theorem ticks_mono (hrun : Run (timed T) k calls k') : k.ticks ≤ k'.ticks := by
  refine hrun.invariant (I := fun k' => k.ticks ≤ k'.ticks) ?_ (Nat.le_refl _)
  intro call k₁ k₂ hk₁ hnext
  rw [hnext.2]
  exact Nat.le_add_right_of_le hk₁

/-- No call loses an added thread. -/
theorem added_mono {op : Op T} {b b' : Conf T} (hnext : Next op b b') (hc : c ∈ b.added) :
    c ∈ b'.added := by
  cases op with
  | add cpu x =>
      rcases hnext with ⟨-, s, -, rfl⟩
      exact List.mem_cons_of_mem _ hc
  | yield cpu =>
      rcases hnext with ⟨s, -, rfl⟩
      exact hc
  | sleep cpu uptime ms =>
      rcases hnext with ⟨s, -, rfl⟩
      exact hc
  | wake cpu thread =>
      rcases hnext with ⟨s, -, rfl⟩
      exact List.mem_append_right _ hc
  | tick cpu =>
      cases hnext
      exact hc

/-! ## The two halves of a sleep -/

/-- `c` is sleeping, and current on no CPU. -/
def OffCpu (s : State T) (c : T) : Prop :=
  Asleep s c ∧ ∀ cpu, s.currentThreads cpu ≠ some c

/-- `c` is ready in a run queue, or running on a CPU. -/
def Runnable (s : State T) (c : T) : Prop :=
  ((s.threads c).state = .ready ∧ ∃ cpu, some c ∈ items (s.runqueues cpu)) ∨
  ((s.threads c).state = .running ∧ ∃ cpu, s.currentThreads cpu = some c)

/-- The call is `sched_sleep` of the thread `c`. -/
def SleepsAgain (c : T) (call : Call T) (k : Timed T) : Prop :=
  ∃ cpu ms, call = .sleep cpu ms ∧ k.conf.sched.currentThreads cpu = some c

/-- `c` called `sched_sleep` with the argument `ms` in `k`, which led to `k₁`.
Before the deadline it is off the CPUs unless it is woken up, and after a timer
interrupt at the deadline or later it is runnable unless it went to sleep again. -/
structure SleepLaw (k k₁ : Timed T) (c : T) (ms : UInt64) : Prop where
  before : ∀ calls k', Run (timed T) k₁ calls k' → (∀ cpu, .wake cpu (some c) ∉ calls) →
    k'.uptime < k.uptime + ms.toNat → OffCpu k'.conf.sched c
  after : ∀ calls cpu k',
    Run ((timed T).restrict fun call k => ¬ SleepsAgain c call k) k₁ (calls ++ [.pit cpu]) k' →
    k.uptime + ms.toNat ≤ k'.uptime → Runnable k'.conf.sched c

/-- A sleeping thread stays off the CPUs until it is woken up. -/
theorem offCpu_run (hreach : Reachable (timed T) k) (hrun : Run (timed T) k calls k')
    (hadded : c ∈ k.conf.added) (hsleep : Asleep k.conf.sched c)
    (hwake : ∀ cpu, .wake cpu (some c) ∉ calls) : OffCpu k'.conf.sched c := by
  have hinv : Reachable (timed T) k' ∧ c ∈ k'.conf.added ∧ Asleep k'.conf.sched c := by
    refine hrun.invariant_of_mem
      (I := fun k => Reachable (timed T) k ∧ c ∈ k.conf.added ∧ Asleep k.conf.sched c) ?_
      ⟨hreach, hadded, hsleep⟩
    rintro call hcall k₁ k₂ ⟨hreach₁, hadded₁, hsleep₁⟩ hnext
    rcases timed_inv hreach₁ with ⟨H, h⟩
    refine ⟨hreach₁.step hnext, added_mono hnext.1 hadded₁, ?_⟩
    refine (asleep_next h hnext.1 hadded₁).mpr (Or.inl ⟨hsleep₁, ?_⟩)
    intro cpu hop
    rw [Call.eq_wake hop] at hcall
    exact hwake cpu hcall
  rcases hinv with ⟨hreach', -, hsleep'⟩
  rcases timed_inv hreach' with ⟨H, h⟩
  refine ⟨hsleep', ?_⟩
  intro cpu hcur
  exact h.awake_of_current hcur hsleep'

/-- A current thread is not lost. -/
theorem Inv.forget_current (h : Inv s A none H) (hcur : s.currentThreads cpu = some c) :
    Inv s A none (H.filter (· ≠ c)) := by
  refine ⟨h.rep, h.queued, h.nodup, h.disjoint, h.current, h.distinct, ?_⟩
  intro t ht hH hstate
  by_cases htc : t = c
  · exact Or.inl ⟨cpu, nofun, by rw [htc, hcur]⟩
  · refine h.placed t ht (fun hmem => hH ?_) hstate
    simpa [htc] using hmem

omit [DecidableEq T] in
theorem Inv.runnable (h : Inv s A none H) (hadded : c ∈ A) (hkept : c ∉ H)
    (hawake : ¬ Asleep s c) : Runnable s c := by
  rcases h.placed c hadded hkept hawake with ⟨cpu, -, hcur⟩ | ⟨cpu, hmem⟩
  · exact Or.inr ⟨(h.current cpu c nofun hcur).1, cpu, hcur⟩
  · rcases h.queued cpu _ hmem with ⟨t, heq, hready, -⟩
    cases heq
    exact Or.inl ⟨hready, cpu, hmem⟩

/-- A thread that is current stays runnable until it sleeps. -/
theorem runnable_run (hreach : Reachable (timed T) k)
    (hrun : Run ((timed T).restrict fun call k => ¬ SleepsAgain c call k) k calls k')
    (hcur : k.conf.sched.currentThreads cpu = some c) : Runnable k'.conf.sched c := by
  rcases timed_inv hreach with ⟨H, h⟩
  rcases h.current cpu c nofun hcur with ⟨-, hadded⟩
  have hinv : (∃ H, Inv k'.conf.sched k'.conf.added none H ∧ c ∉ H) ∧
      c ∈ k'.conf.added ∧ ¬ Asleep k'.conf.sched c := by
    refine hrun.invariant (I := fun k => (∃ H, Inv k.conf.sched k.conf.added none H ∧ c ∉ H) ∧
      c ∈ k.conf.added ∧ ¬ Asleep k.conf.sched c) ?_
      ⟨⟨_, h.forget_current hcur, by simp⟩, hadded, h.awake_of_current hcur⟩
    rintro call k₁ k₂ ⟨⟨H₁, h₁, hkept₁⟩, hadded₁, hawake₁⟩ ⟨hagain, hnext, -⟩
    rcases next_inv h₁ hnext with ⟨H₂, h₂, -, hlost⟩
    refine ⟨⟨H₂, h₂, ?_⟩, added_mono hnext hadded₁, ?_⟩
    · intro hmem
      rcases hlost c hmem with (hfresh | hsleep) | hold
      · exact hfresh hadded₁
      · exact hawake₁ hsleep
      · exact hkept₁ hold
    · rw [asleep_next h₁ hnext hadded₁]
      rintro (⟨hsleep, -⟩ | ⟨cpu', uptime, ms, hop, hcur', -⟩)
      · exact hawake₁ hsleep
      · exact hagain ⟨cpu', ms, Call.eq_sleep hop, hcur'⟩
  rcases hinv with ⟨⟨H', h', hkept'⟩, hadded', hawake'⟩
  exact h'.runnable hadded' hkept' hawake'

/-- With nobody else to run, the thread that went to sleep stays current. -/
theorem schedSleep_alone {uptime : UInt64} (hcur : s.currentThreads cpu = some c)
    (hempty : items (s.runqueues cpu) = [])
    (hsleep : schedSleep s cpu uptime ms = some s') : s'.currentThreads = s.currentThreads := by
  unfold schedSleep at hsleep
  rw [hcur] at hsleep
  dsimp only at hsleep
  rw [schedYield_nil (by exact hempty)] at hsleep
  cases hsleep
  simp [hcur]

/-- `n` timer interrupts in a row. -/
theorem pit_run (c : T) (k : Timed T) (cpu : Cpu) (n : Nat) :
    ∃ k', Run ((timed T).restrict fun call k => ¬ SleepsAgain c call k) k
      (List.replicate n (.pit cpu)) k' ∧ k'.ticks = k.ticks + n := by
  induction n with
  | zero => exact ⟨k, Run.nil, rfl⟩
  | succ n ih =>
      rcases ih with ⟨k₁, hrun, hticks⟩
      rw [List.replicate_succ']
      refine ⟨⟨{ k₁.conf with sched := schedTick k₁.conf.sched cpu }, k₁.ticks + 1⟩,
        hrun.snoc ⟨?_, rfl, rfl⟩, by rw [hticks]; rfl⟩
      rintro ⟨cpu', ms, hcall, -⟩
      cases hcall

/-- The sleeping thread is off the CPUs until the deadline exactly if there was
another thread to run, or nothing to wait for. -/
theorem before_iff {k₁ : Timed T} (hreach : Reachable (timed T) k)
    (hcur : k.conf.sched.currentThreads cpu = some c)
    (hnext : (timed T).Next (.sleep cpu ms) k k₁) :
    (∀ calls k', Run (timed T) k₁ calls k' → (∀ cpu, .wake cpu (some c) ∉ calls) →
      k'.uptime < k.uptime + ms.toNat → OffCpu k'.conf.sched c) ↔
    items (k.conf.sched.runqueues cpu) ≠ [] ∨ ms = 0 := by
  rcases timed_inv hreach with ⟨H, h⟩
  rcases h.current cpu c nofun hcur with ⟨-, hadded⟩
  have hticks : k₁.ticks = k.ticks := hnext.2
  have hasleep := asleep_next h hnext.1 hadded
  constructor
  · intro hbefore
    by_contra hnot
    rw [not_or, not_not] at hnot
    rcases hnot with ⟨hempty, hms⟩
    have hpos : 0 < ms.toNat := by
      rw [Nat.pos_iff_ne_zero]
      exact fun hzero => hms (UInt64.toNat_inj.mp hzero)
    -- nobody else to run: it goes on, before any time has passed
    have hoff := hbefore [] k₁ Run.nil (fun _ => List.not_mem_nil) (by unfold Timed.uptime; omega)
    rcases hasleep.mp hoff.1 with ⟨hsleep, -⟩ | ⟨cpu', uptime, ms', hop, -, hne⟩
    · exact h.awake_of_current hcur hsleep
    · cases hop
      exact hne hempty
  · rintro (hne | rfl) calls k' hrun hwake huptime
    · have hsleep := hasleep.mpr (Or.inr ⟨cpu, _, ms, rfl, hcur, hne⟩)
      exact offCpu_run (hreach.step hnext) hrun (added_mono hnext.1 hadded) hsleep hwake
    · have hmono := ticks_mono hrun
      unfold Timed.uptime at huptime
      rw [UInt64.toNat_zero] at huptime
      omega

/-- It is runnable after the deadline exactly if there was no other thread to run:
nothing wakes up a thread that did go to sleep. -/
theorem after_iff {k₁ : Timed T} (hreach : Reachable (timed T) k)
    (hcur : k.conf.sched.currentThreads cpu = some c)
    (hnext : (timed T).Next (.sleep cpu ms) k k₁) :
    (∀ calls cpu k',
      Run ((timed T).restrict fun call k => ¬ SleepsAgain c call k) k₁ (calls ++ [.pit cpu]) k' →
      k.uptime + ms.toNat ≤ k'.uptime → Runnable k'.conf.sched c) ↔
    items (k.conf.sched.runqueues cpu) = [] := by
  rcases timed_inv hreach with ⟨H, h⟩
  rcases h.current cpu c nofun hcur with ⟨-, hadded⟩
  constructor
  · intro hafter
    by_contra hne
    have hsleep := (asleep_next h hnext.1 hadded).mpr (Or.inr ⟨cpu, _, ms, rfl, hcur, hne⟩)
    -- interrupts until the deadline has passed: it sleeps on
    rcases pit_run c k₁ cpu (ms.toNat + 1) with ⟨k', hrun, hticks⟩
    have hticks₁ : k₁.ticks = k.ticks := hnext.2
    have hoff : OffCpu k'.conf.sched c := by
      refine offCpu_run (hreach.step hnext) hrun.of_restrict (added_mono hnext.1 hadded) hsleep ?_
      intro cpu' hmem
      cases List.eq_of_mem_replicate hmem
    rw [List.replicate_succ'] at hrun
    rcases hafter _ _ _ hrun (by unfold Timed.uptime; omega) with ⟨hready, -⟩ | ⟨hrunning, -⟩
    · exact awake_of_ready hready hoff.1
    · exact awake_of_running hrunning hoff.1
  · intro hempty calls cpu' k' hrun _
    have hreach₁ := hreach.step hnext
    rcases hnext with ⟨⟨s, hsleep, hconf⟩, -⟩
    have hcur₁ : k₁.conf.sched.currentThreads cpu = some c := by
      rw [hconf, schedSleep_alone hcur hempty hsleep, hcur]
    exact runnable_run hreach₁ hrun hcur₁

/-- A thread that calls `sched_sleep` sleeps for the time it asked for exactly if
that was no time and nobody else could run. -/
theorem sleep_law_iff (hreach : Reachable (timed T) k)
    (hcur : k.conf.sched.currentThreads cpu = some c) (ms : UInt64) :
    ∃ k₁, (timed T).Next (.sleep cpu ms) k k₁ ∧
      (SleepLaw k k₁ c ms ↔ items (k.conf.sched.runqueues cpu) = [] ∧ ms = 0) := by
  rcases (operations_return (timed_reachable hreach) cpu).2.2.1 (kernelGetUptimeMs k) ms with
    ⟨s, hsleep⟩
  have hnext : (timed T).Next (.sleep cpu ms) k ⟨{ k.conf with sched := s }, k.ticks⟩ :=
    ⟨⟨s, hsleep, rfl⟩, rfl⟩
  refine ⟨_, hnext, ?_⟩
  have hbefore := before_iff hreach hcur hnext
  have hafter := after_iff hreach hcur hnext
  constructor
  · intro hlaw
    have hempty := hafter.mp hlaw.after
    rcases hbefore.mp hlaw.before with hne | hms
    · exact absurd hempty hne
    · exact ⟨hempty, hms⟩
  · rintro ⟨hempty, hms⟩
    exact ⟨hbefore.mpr (Or.inr hms), hafter.mpr hempty⟩

end Clock

/-- `true` alone on CPU 0. -/
def alone : Timed Bool :=
  let s := schedInit 1 fun _ => ⟨.ready, 0, 0⟩
  let s := (schedAddThread s 0 true).bind (schedYield · 0)
  ⟨⟨s.getD (schedInit 1 fun _ => ⟨.ready, 0, 0⟩), [true]⟩, 0⟩

theorem timed_init : Reachable (timed Bool) ⟨⟨schedInit 1 fun _ => ⟨.ready, 0, 0⟩, []⟩, 0⟩ :=
  Reachable.init ⟨⟨1, _, rfl⟩, rfl⟩

theorem timed_add (cpu : Cpu) (t : T) {k : Timed T} (hreach : Reachable (timed T) k)
    (hfresh : t ∉ k.conf.added) (hadd : schedAddThread k.conf.sched cpu t = some s) :
    Reachable (timed T) ⟨⟨s, t :: k.conf.added⟩, k.ticks⟩ :=
  hreach.step (a := Call.add cpu t) ⟨⟨hfresh, s, hadd, rfl⟩, rfl⟩

theorem alone_reachable : Reachable (timed Bool) alone := by
  have hadd := timed_add 0 true timed_init (by decide) rfl
  exact hadd.step (a := Call.yield 0) ⟨⟨_, rfl, rfl⟩, rfl⟩

theorem twoThreads_timed : Reachable (timed Bool) ⟨twoThreads, 0⟩ := by
  have hfirst := timed_add 0 true timed_init (by decide) rfl
  have hsecond := timed_add 0 false hfirst (by decide) rfl
  exact hsecond.step (a := Call.yield 0) ⟨⟨_, rfl, rfl⟩, rfl⟩

/-- The only thread of a CPU asks for no time, and gets it. -/
theorem sleep_law_alone :
    alone.conf.sched.currentThreads 0 = some true ∧
    ∃ k₁, (timed Bool).Next (.sleep 0 0) alone k₁ ∧ SleepLaw alone k₁ true 0 := by
  have hcur : alone.conf.sched.currentThreads 0 = some true := by decide
  rcases sleep_law_iff alone_reachable hcur 0 with ⟨k₁, hnext, hlaw⟩
  exact ⟨hcur, k₁, hnext, hlaw.mpr ⟨by decide, rfl⟩⟩

/-- The only thread of a CPU asks for a second and goes on at once; a thread that
leaves its CPU to another one is still asleep in the interrupt at its deadline. -/
theorem sleep_fails_both_ways :
    Reachable (timed Bool) alone ∧ Reachable (timed Bool) ⟨twoThreads, 0⟩ ∧
    (∃ s, schedSleep alone.conf.sched 0 (kernelGetUptimeMs alone) 1000 = some s ∧
      (s.threads true).state = .running ∧ s.currentThreads 0 = some true) ∧
    ∃ s, schedSleep twoThreads.sched 0 (kernelGetUptimeMs ⟨twoThreads, 0⟩) 10 = some s ∧
      (s.threads true).wakeupTime = 10 ∧
      kernelGetUptimeMs (⟨⟨schedTick s 0, twoThreads.added⟩, 1⟩ : Timed Bool) = 10 ∧
      ((schedTick s 0).threads true).state = .sleeping := by
  refine ⟨alone_reachable, twoThreads_timed, ?_, ?_⟩
  · exact ⟨_, rfl, by decide, by decide⟩
  · exact ⟨_, rfl, by decide, by decide, by decide⟩

end OmniOS.Sched
