import Mathlib.Data.List.Rotate
import OmniOS.Kernel.SchedQueue

/-!
# OmniOS.Kernel.SchedYield — `sched_yield` hands the CPU around

What one call does to the queue of its CPU, and what any number of them do: the
current thread and the queue behind it are one ring, which every call turns by
one. `sched_yield` takes the next thread off the queue before it puts the
current one back, so that this holds for a full queue as well.
-/

namespace OmniOS.Sched

variable {T : Type} [DecidableEq T] {s : State T} {cpu : Cpu} {c t : T}

/-! ## One call -/

/-- `current_threads[cpu] = thread`. -/
def State.setCurrent (s : State T) (cpu : Cpu) (thread : T) : State T :=
  { s with currentThreads := Function.update s.currentThreads cpu (some thread) }

/-- With nobody else to run the current thread goes on, whatever its state was. -/
theorem schedYield_nil (hitems : items (s.runqueues cpu) = []) :
    schedYield s cpu = some ((s.currentThreads cpu).elim s (s.setState · .running)) := by
  unfold schedYield
  rw [schedPickNext_nil hitems]
  cases s.currentThreads cpu with
  | none => rfl
  | some c => rfl

/-- A ready thread at the front of the queue becomes the current one; what happens
to the old one is up to `requeue`. -/
theorem schedYield_cons {l : List (Option T)} (hrep : Rep (s.runqueues cpu))
    (hitems : items (s.runqueues cpu) = some t :: l) (hready : (s.threads t).state = .ready) :
    ∃ rq, Rep rq ∧ items rq = l ∧
      schedYield s cpu =
        (requeue ((s.setRunqueue cpu rq).setState t .running) cpu (s.currentThreads cpu)).map
          (State.setCurrent · cpu t) := by
  rcases schedPickNext_cons hrep hitems with ⟨rq, hpick, hrq, hl⟩
  have hdispatch : dispatch (s.setRunqueue cpu rq) (some t) =
      (some t, (s.setRunqueue cpu rq).setState t .running) := if_pos hready
  refine ⟨rq, hrq, hl, ?_⟩
  unfold schedYield
  rw [hpick, hdispatch, Option.map_eq_bind]
  rfl

/-- A running thread goes back to the end of a queue with room. -/
theorem requeue_running (hrep : Rep (s.runqueues cpu))
    (hroom : (items (s.runqueues cpu)).length < 256) (hrunning : (s.threads c).state = .running) :
    ∃ s', requeue s cpu (some c) = some s' ∧ Rep (s'.runqueues cpu) ∧
      items (s'.runqueues cpu) = items (s.runqueues cpu) ++ [some c] ∧
      s'.currentThreads = s.currentThreads ∧ (s'.threads c).state = .ready ∧
      ∀ x ≠ c, s'.threads x = s.threads x := by
  have hrep' : Rep ((s.setState c .ready).runqueues cpu) := hrep
  rcases schedAddThread_room c hrep' hroom with ⟨rq, hadd, hrq, hitems⟩
  refine ⟨_, (if_pos hrunning).trans hadd, ?_, ?_, rfl, setState_state_self _ _ _, ?_⟩
  · simpa using hrq
  · simpa using hitems
  · intro x hx
    simp [State.setState, Function.update_of_ne hx]

/-- A running thread and the first of its queue change places. -/
theorem schedYield_running {l : List (Option T)} (hrep : Rep (s.runqueues cpu))
    (hitems : items (s.runqueues cpu) = some t :: l) (hready : (s.threads t).state = .ready)
    (hcur : s.currentThreads cpu = some c) (hrunning : (s.threads c).state = .running)
    (hct : c ≠ t) :
    ∃ s', schedYield s cpu = some s' ∧ Rep (s'.runqueues cpu) ∧
      items (s'.runqueues cpu) = l ++ [some c] ∧ s'.currentThreads cpu = some t ∧
      (s'.threads t).state = .running ∧ (s'.threads c).state = .ready ∧
      ∀ x ≠ c, x ≠ t → s'.threads x = s.threads x := by
  rcases schedYield_cons hrep hitems hready with ⟨rq, hrq, hl, hyield⟩
  have hcount := hrep.count_le
  rw [← length_items, hitems, List.length_cons] at hcount
  generalize hs₁ : (s.setRunqueue cpu rq).setState t .running = s₁ at hyield
  have hqueue : s₁.runqueues cpu = rq := by
    rw [← hs₁, setState_runqueues, setRunqueue_self]
  have hothers : ∀ x ≠ t, s₁.threads x = s.threads x := by
    intro x hx
    rw [← hs₁]
    simp [State.setState, Function.update_of_ne hx]
  -- `t` has just left the queue, so there is room for `c`
  have hroom : (items (s₁.runqueues cpu)).length < 256 := by
    rw [hqueue, hl]
    omega
  have hrunning₁ : (s₁.threads c).state = .running := by
    rw [hothers c hct, hrunning]
  rw [← hqueue] at hrq
  rcases requeue_running hrq hroom hrunning₁ with
    ⟨s₂, hrequeue, hrep₂, hitems₂, -, hready₂, hframe⟩
  rw [hcur, hrequeue] at hyield
  refine ⟨s₂.setCurrent cpu t, hyield, hrep₂, ?_, Function.update_self _ _ _, ?_, hready₂, ?_⟩
  · show items (s₂.runqueues cpu) = _
    rw [hitems₂, hqueue, hl]
  · show (s₂.threads t).state = .running
    rw [hframe t hct.symm, ← hs₁, setState_state_self]
  · intro x hxc hxt
    exact (hframe x hxc).trans (hothers x hxt)

/-! ## The ring -/

/-- The threads of a CPU in the order in which they get it: the current one first,
then its queue. -/
structure Turns (s : State T) (cpu : Cpu) (ring : List T) : Prop where
  rep : Rep (s.runqueues cpu)
  current : s.currentThreads cpu = ring.head?
  queue : items (s.runqueues cpu) = ring.tail.map some
  nodup : ring.Nodup
  state : ∀ t ∈ ring,
    (s.threads t).state = if s.currentThreads cpu = some t then .running else .ready

/-- One call turns the ring by one. -/
theorem Turns.yield {l : List T} (h : Turns s cpu (c :: l)) :
    ∃ s', schedYield s cpu = some s' ∧ Turns s' cpu (l ++ [c]) ∧
      ∀ t ∉ c :: l, s'.threads t = s.threads t := by
  have hcur : s.currentThreads cpu = some c := h.current
  have hrunning : (s.threads c).state = .running := by
    rw [h.state c List.mem_cons_self, if_pos hcur]
  cases l with
  | nil =>
      -- nobody else: the current thread stays
      have hyield := schedYield_nil h.queue
      rw [hcur] at hyield
      refine ⟨_, hyield, ⟨h.rep, hcur, h.queue, h.nodup, ?_⟩, ?_⟩
      · intro t ht
        rw [List.nil_append, List.mem_singleton] at ht
        subst ht
        show ((s.setState t .running).threads t).state = _
        rw [setState_state_self]
        exact (if_pos hcur).symm
      · intro t ht
        exact Function.update_of_ne (List.ne_of_not_mem_cons ht) _ _
  | cons q l =>
      have hcq : c ≠ q := List.ne_of_not_mem_cons (List.nodup_cons.mp h.nodup).1
      have hready : (s.threads q).state = .ready := by
        have hne : s.currentThreads cpu ≠ some q := by
          rw [hcur]
          exact fun heq => hcq (Option.some.inj heq)
        rw [h.state q (List.mem_cons_of_mem _ List.mem_cons_self), if_neg hne]
      rcases schedYield_running h.rep h.queue hready hcur hrunning hcq with
        ⟨s', hyield, hrep, hitems, hcurrent, hqrunning, hcready, hframe⟩
      refine ⟨s', hyield, ⟨hrep, hcurrent, ?_, ?_, ?_⟩, ?_⟩
      · rw [hitems, List.cons_append, List.tail_cons, List.map_append]
        rfl
      · exact (List.perm_append_singleton c (q :: l)).nodup_iff.mpr h.nodup
      · intro t ht
        rw [hcurrent]
        by_cases htq : t = q
        · rw [if_pos (congrArg some htq.symm), htq, hqrunning]
        · rw [if_neg (fun heq => htq (Option.some.inj heq).symm)]
          by_cases htc : t = c
          · rw [htc, hcready]
          · -- the others were ready and have not been touched
            have hmem : t ∈ c :: q :: l :=
              (List.perm_append_singleton c (q :: l)).mem_iff.mp ht
            rw [hframe t htc htq, h.state t hmem, hcur,
              if_neg (fun heq => htc (Option.some.inj heq).symm)]
      · intro t ht
        rw [List.mem_cons, not_or, List.mem_cons, not_or] at ht
        exact hframe t ht.1 ht.2.1

/-- `k` consecutive calls. -/
def yields (s : State T) (cpu : Cpu) : Nat → Option (State T)
  | 0 => some s
  | k + 1 => (yields s cpu k).bind (schedYield · cpu)

theorem Turns.yields {ring : List T} (h : Turns s cpu ring) (hne : ring ≠ []) (k : Nat) :
    ∃ s', yields s cpu k = some s' ∧ Turns s' cpu (ring.rotate k) ∧
      ∀ t ∉ ring, s'.threads t = s.threads t := by
  induction k with
  | zero =>
      refine ⟨s, rfl, ?_, fun _ _ => rfl⟩
      rw [List.rotate_zero]
      exact h
  | succ k ih =>
      rcases ih with ⟨s₁, hyields, hturns, hframe⟩
      have hmem : ∀ t, t ∈ ring.rotate k ↔ t ∈ ring := fun t => List.mem_rotate
      rw [← List.rotate_rotate]
      cases hrot : ring.rotate k with
      | nil => exact absurd (List.rotate_eq_nil_iff.mp hrot) hne
      | cons x l =>
          rw [hrot] at hturns hmem
          rcases hturns.yield with ⟨s₂, hyield, hturns₂, hframe₂⟩
          refine ⟨s₂, ?_, ?_, ?_⟩
          · show (Sched.yields s cpu k).bind _ = _
            rw [hyields]
            exact hyield
          · rw [List.rotate_cons_succ, List.rotate_zero]
            exact hturns₂
          · intro t ht
            rw [hframe₂ t (fun hx => ht ((hmem t).mp hx)), hframe t ht]

/-- From a CPU with the running thread `c` and the ready threads `l` in its queue,
all different: `k` calls return, the current thread is the one at position `k`,
modulo the number of threads, of `c :: l`, the queue holds the others in cyclic
order, the current one is the only one running and the others are ready. No other
thread is touched. -/
theorem yield_round_robin {l : List T} (hrep : Rep (s.runqueues cpu))
    (hcur : s.currentThreads cpu = some c) (hqueue : items (s.runqueues cpu) = l.map some)
    (hnodup : (c :: l).Nodup) (hrunning : (s.threads c).state = .running)
    (hready : ∀ t ∈ l, (s.threads t).state = .ready) (k : Nat) :
    ∃ s', yields s cpu k = some s' ∧
      s'.currentThreads cpu = (c :: l)[k % (l.length + 1)]? ∧
      items (s'.runqueues cpu) = (((c :: l).rotate k).tail).map some ∧
      (∀ t ∈ c :: l, (s'.threads t).state =
        if s'.currentThreads cpu = some t then .running else .ready) ∧
      ∀ t ∉ c :: l, s'.threads t = s.threads t := by
  have hturns : Turns s cpu (c :: l) := by
    refine ⟨hrep, hcur, hqueue, hnodup, ?_⟩
    intro t ht
    rw [hcur]
    rcases List.mem_cons.mp ht with rfl | ht
    · rw [if_pos rfl, hrunning]
    · have hct : c ≠ t := fun heq => (List.nodup_cons.mp hnodup).1 (heq ▸ ht)
      rw [if_neg (fun heq => hct (Option.some.inj heq)), hready t ht]
  rcases hturns.yields (List.cons_ne_nil c l) k with ⟨s', hyields, h, hframe⟩
  refine ⟨s', hyields, ?_, h.queue, ?_, hframe⟩
  · rw [h.current, ← List.rotate_mod, List.head?_rotate]
    · rfl
    · exact Nat.mod_lt _ (Nat.succ_pos _)
  · intro t ht
    exact h.state t (List.mem_rotate.mpr ht)

/-- Thread 0 runs on CPU 0; 1 and 2 wait in the last and the first entry of its
queue. -/
def wrappedQueue : State Nat where
  runqueues := fun _ =>
    { queue := fun i => if i.val = 255 then some 1 else if i.val = 0 then some 2 else none
      head := 255
      tail := 1
      count := 2
      totalTicks := 0
      cpuIndex := 0 }
  currentThreads := fun cpu => if cpu.val = 0 then some 0 else none
  tickCounter := 0
  threads := fun t => ⟨if t = 0 then .running else .ready, 0, 0⟩

/-- After five calls thread 2 runs and 0 is next. -/
theorem yield_round_robin_wrapped :
    ∃ s', yields wrappedQueue 0 5 = some s' ∧ s'.currentThreads 0 = some 2 ∧
      items (s'.runqueues 0) = [some 0, some 1] ∧
      ∀ t ∈ [0, 1, 2], (s'.threads t).state =
        if s'.currentThreads 0 = some t then .running else .ready := by
  have hrep : Rep (wrappedQueue.runqueues 0) := ⟨by decide, by decide, rfl⟩
  rcases yield_round_robin (c := 0) (l := [1, 2]) hrep (by decide) (by decide) (by decide)
    (by decide) (by decide) 5 with ⟨s', hyields, hcurrent, hitems, hstates, -⟩
  exact ⟨s', hyields, hcurrent, hitems, hstates⟩

end OmniOS.Sched
