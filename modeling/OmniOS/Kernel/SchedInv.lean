import Mathlib.Data.List.Nodup
import OmniOS.Kernel.SchedYield

/-!
# OmniOS.Kernel.SchedInv — every thread is in one place

State, current pointer and queue membership are three views of where a thread
is. An operation changes them one after the other, so the invariant has to hold
in between as well:

1. **Primitive moves.** `Inv s A v H` leaves out the current thread of the CPU
   `v` and the threads `H` in hand. Taking a thread off a queue, putting one on,
   changing the state of a thread in hand and making it current each keep it.
2. **Sequences of moves.** Adding a thread in hand to a queue, and yielding the
   CPU of a thread in hand. The operations of a run are built from these two.
-/

namespace OmniOS.Sched

variable {T : Type}

/-- The invariant over the threads `A` ever added, except for the current thread
of the CPU `v` and the threads `H`. -/
structure Inv (s : State T) (A : List T) (v : Option Cpu) (H : List T) : Prop where
  rep : ∀ cpu, Rep (s.runqueues cpu)
  queued : ∀ cpu, ∀ p ∈ items (s.runqueues cpu),
    ∃ t, p = some t ∧ (s.threads t).state = .ready ∧ t ∈ A
  nodup : ∀ cpu, (items (s.runqueues cpu)).Nodup
  disjoint : ∀ cpu cpu' p, p ∈ items (s.runqueues cpu) → p ∈ items (s.runqueues cpu') → cpu = cpu'
  current : ∀ cpu t, v ≠ some cpu → s.currentThreads cpu = some t →
    (s.threads t).state = .running ∧ t ∈ A
  distinct : ∀ cpu cpu' t, v ≠ some cpu → v ≠ some cpu' →
    s.currentThreads cpu = some t → s.currentThreads cpu' = some t → cpu = cpu'
  placed : ∀ t ∈ A, t ∉ H → (s.threads t).state ≠ .sleeping →
    (∃ cpu, v ≠ some cpu ∧ s.currentThreads cpu = some t) ∨
    ∃ cpu, some t ∈ items (s.runqueues cpu)

/-- `t` is in no queue and not current, except perhaps on the CPU `v`. -/
structure Free (s : State T) (v : Option Cpu) (t : T) : Prop where
  notQueued : ∀ cpu, some t ∉ items (s.runqueues cpu)
  notCurrent : ∀ cpu, v ≠ some cpu → s.currentThreads cpu ≠ some t

section Moves

variable {s s' : State T} {A : List T} {v : Option Cpu} {H : List T} {t : T} {cpu : Cpu}

/-! ## Primitive moves -/

/-- A thread that is neither ready nor running is free. -/
theorem Inv.free (h : Inv s A v H) (hready : (s.threads t).state ≠ .ready)
    (hrunning : (s.threads t).state ≠ .running) : Free s v t := by
  constructor
  · intro cpu hmem
    rcases h.queued cpu _ hmem with ⟨t', heq, hstate, -⟩
    rw [← Option.some.inj heq] at hstate
    exact hready hstate
  · intro cpu hv hcur
    exact hrunning (h.current cpu t hv hcur).1

/-- So is one that was never added. -/
theorem Inv.free_of_fresh (h : Inv s A v H) (hfresh : t ∉ A) : Free s v t := by
  constructor
  · intro cpu hmem
    rcases h.queued cpu _ hmem with ⟨t', heq, -, hadded⟩
    rw [← Option.some.inj heq] at hadded
    exact hfresh hadded
  · intro cpu hv hcur
    exact hfresh (h.current cpu t hv hcur).2

/-- Queues, current threads and states are all the invariant looks at. -/
theorem Inv.congr (h : Inv s A v H) (hrep : ∀ cpu, Rep (s'.runqueues cpu))
    (hitems : ∀ cpu, items (s'.runqueues cpu) = items (s.runqueues cpu))
    (hcur : s'.currentThreads = s.currentThreads)
    (hstate : ∀ t, (s'.threads t).state = (s.threads t).state) : Inv s' A v H := by
  refine ⟨hrep, ?_, ?_, ?_, ?_, ?_, ?_⟩
  · intro cpu p hp
    rw [hitems] at hp
    rcases h.queued cpu p hp with ⟨t, rfl, hready, hadded⟩
    exact ⟨t, rfl, by rw [hstate]; exact hready, hadded⟩
  · intro cpu
    rw [hitems]
    exact h.nodup cpu
  · intro cpu cpu' p
    rw [hitems, hitems]
    exact h.disjoint cpu cpu' p
  · intro cpu t
    rw [hcur, hstate]
    exact h.current cpu t
  · rw [hcur]
    exact h.distinct
  · intro t ht hH
    rw [hstate, hcur]
    simp only [hitems]
    exact h.placed t ht hH

/-- More threads in hand promise less. -/
theorem Inv.mono {H' : List T} (h : Inv s A v H) (hsub : ∀ x ∈ H, x ∈ H') : Inv s A v H' := by
  refine ⟨h.rep, h.queued, h.nodup, h.disjoint, h.current, h.distinct, ?_⟩
  intro t ht hH
  exact h.placed t ht fun hx => hH (hsub t hx)

/-- A thread joins, in hand. -/
theorem Inv.join (h : Inv s A v H) (t : T) : Inv s (t :: A) v (t :: H) := by
  refine ⟨h.rep, ?_, h.nodup, h.disjoint, ?_, h.distinct, ?_⟩
  · intro cpu p hp
    rcases h.queued cpu p hp with ⟨t', rfl, hready, hadded⟩
    exact ⟨t', rfl, hready, List.mem_cons_of_mem _ hadded⟩
  · intro cpu t' hv hcur
    rcases h.current cpu t' hv hcur with ⟨hrunning, hadded⟩
    exact ⟨hrunning, List.mem_cons_of_mem _ hadded⟩
  · intro t' ht' hH
    rw [List.mem_cons, not_or] at hH
    rcases List.mem_cons.mp ht' with rfl | ht'
    · exact absurd rfl hH.1
    · exact h.placed t' ht' hH.2

/-- A sleeping thread need not be anywhere. -/
theorem Inv.letGo (h : Inv s A v (t :: H)) (hsleep : (s.threads t).state = .sleeping) :
    Inv s A v H := by
  refine ⟨h.rep, h.queued, h.nodup, h.disjoint, h.current, h.distinct, ?_⟩
  intro t' ht' hH hstate
  have hne : t' ≠ t := by
    rintro rfl
    exact hstate hsleep
  refine h.placed t' ht' ?_ hstate
  rw [List.mem_cons, not_or]
  exact ⟨hne, hH⟩

/-- What holds of every queue and of a new one holds after the change of one queue. -/
theorem forall_setRunqueue {P : Runqueue T → Prop} {rq : Runqueue T} (hnew : P rq)
    (hold : ∀ cpu', P (s.runqueues cpu')) (cpu' : Cpu) :
    P ((s.setRunqueue cpu rq).runqueues cpu') := by
  by_cases hc : cpu' = cpu
  · subst hc
    rw [setRunqueue_self]
    exact hnew
  · rw [setRunqueue_ne _ _ _ hc]
    exact hold cpu'

/-- Taking the first thread off a queue. -/
theorem Inv.take (h : Inv s A v H) {rq : Runqueue T} {p : Option T} {l : List (Option T)}
    (hitems : items (s.runqueues cpu) = p :: l) (hrep : Rep rq) (hrq : items rq = l) :
    ∃ t, p = some t ∧ (s.threads t).state = .ready ∧ t ∈ A ∧
      Inv (s.setRunqueue cpu rq) A v (t :: H) ∧ Free (s.setRunqueue cpu rq) v t := by
  rcases h.queued cpu p (by rw [hitems]; exact List.mem_cons_self) with ⟨t, rfl, hready, hadded⟩
  -- every queue is a part of what it was
  have hsub : ∀ cpu', ∀ p ∈ items ((s.setRunqueue cpu rq).runqueues cpu'),
      p ∈ items (s.runqueues cpu') := by
    intro cpu' p hp
    by_cases hc : cpu' = cpu
    · subst hc
      rw [setRunqueue_self, hrq] at hp
      rw [hitems]
      exact List.mem_cons_of_mem _ hp
    · rwa [setRunqueue_ne _ _ _ hc] at hp
  have hnodup := h.nodup cpu
  rw [hitems, List.nodup_cons] at hnodup
  refine ⟨t, rfl, hready, hadded, ⟨?_, ?_, ?_, ?_, h.current, h.distinct, ?_⟩, ?_, ?_⟩
  · exact forall_setRunqueue hrep h.rep
  · intro cpu' p hp
    exact h.queued cpu' p (hsub cpu' p hp)
  · refine forall_setRunqueue (P := fun rq => (items rq).Nodup) ?_ h.nodup
    rw [hrq]
    exact hnodup.2
  · intro cpu₁ cpu₂ p h₁ h₂
    exact h.disjoint cpu₁ cpu₂ p (hsub cpu₁ p h₁) (hsub cpu₂ p h₂)
  · intro t' ht' hH hstate
    rw [List.mem_cons, not_or] at hH
    rcases h.placed t' ht' hH.2 hstate with hcur | ⟨cpu', hmem⟩
    · exact Or.inl hcur
    · refine Or.inr ⟨cpu', ?_⟩
      by_cases hc : cpu' = cpu
      · subst hc
        rw [hitems] at hmem
        rw [setRunqueue_self, hrq]
        rcases List.mem_cons.mp hmem with heq | hmem
        · exact absurd (Option.some.inj heq) hH.1
        · exact hmem
      · rw [setRunqueue_ne _ _ _ hc]
        exact hmem
  · intro cpu' hmem
    -- the thread was in this queue only, and once
    have hc : cpu' = cpu :=
      h.disjoint cpu' cpu (some t) (hsub cpu' _ hmem) (by rw [hitems]; exact List.mem_cons_self)
    subst hc
    rw [setRunqueue_self, hrq] at hmem
    exact hnodup.1 hmem
  · intro cpu' hv hcur
    have hrunning := (h.current cpu' t hv hcur).1
    rw [hready] at hrunning
    exact absurd hrunning (by decide)

/-- Putting a free thread in hand at the end of a queue; its state is ready. -/
theorem Inv.put (h : Inv s A v (t :: H)) (hfree : Free s v t) (hready : (s.threads t).state = .ready)
    (hadded : t ∈ A) {rq : Runqueue T} (hrep : Rep rq)
    (hrq : items rq = items (s.runqueues cpu) ++ [some t]) :
    Inv (s.setRunqueue cpu rq) A v H := by
  -- a queue is what it was, and the one queue has the thread as well
  have hmem : ∀ cpu' p, p ∈ items ((s.setRunqueue cpu rq).runqueues cpu') ↔
      p ∈ items (s.runqueues cpu') ∨ cpu' = cpu ∧ p = some t := by
    intro cpu' p
    by_cases hc : cpu' = cpu
    · subst hc
      rw [setRunqueue_self, hrq, List.mem_append, List.mem_singleton]
      simp
    · rw [setRunqueue_ne _ _ _ hc]
      simp [hc]
  refine ⟨?_, ?_, ?_, ?_, h.current, h.distinct, ?_⟩
  · exact forall_setRunqueue hrep h.rep
  · intro cpu' p hp
    rcases (hmem cpu' p).mp hp with hold | ⟨-, rfl⟩
    · exact h.queued cpu' p hold
    · exact ⟨t, rfl, hready, hadded⟩
  · refine forall_setRunqueue (P := fun rq => (items rq).Nodup) ?_ h.nodup
    rw [hrq, List.nodup_append]
    refine ⟨h.nodup cpu, List.nodup_singleton _, ?_⟩
    intro p hp q hq hpq
    rw [List.mem_singleton] at hq
    rw [hpq, hq] at hp
    exact hfree.notQueued cpu hp
  · intro cpu₁ cpu₂ p h₁ h₂
    rcases (hmem cpu₁ p).mp h₁ with hold₁ | ⟨rfl, rfl⟩
    · rcases (hmem cpu₂ p).mp h₂ with hold₂ | ⟨rfl, rfl⟩
      · exact h.disjoint cpu₁ cpu₂ p hold₁ hold₂
      · exact absurd hold₁ (hfree.notQueued cpu₁)
    · rcases (hmem cpu₂ (some t)).mp h₂ with hold₂ | ⟨rfl, -⟩
      · exact absurd hold₂ (hfree.notQueued cpu₂)
      · rfl
  · intro t' ht' hH hstate
    by_cases heq : t' = t
    · exact Or.inr ⟨cpu, (hmem cpu _).mpr (Or.inr ⟨rfl, by rw [heq]⟩)⟩
    · have hH' : t' ∉ t :: H := by
        rw [List.mem_cons, not_or]
        exact ⟨heq, hH⟩
      rcases h.placed t' ht' hH' hstate with hcur | ⟨cpu', hold⟩
      · exact Or.inl hcur
      · exact Or.inr ⟨cpu', (hmem cpu' _).mpr (Or.inl hold)⟩

/-- Looking away from a CPU takes its current thread in hand. -/
theorem Inv.vacate (h : Inv s A none H) (cpu : Cpu) :
    Inv s A (some cpu) ((s.currentThreads cpu).toList ++ H) ∧
      ∀ c, s.currentThreads cpu = some c → Free s (some cpu) c := by
  constructor
  · refine ⟨h.rep, h.queued, h.nodup, h.disjoint, ?_, ?_, ?_⟩
    · intro cpu' t _ hcur
      exact h.current cpu' t nofun hcur
    · intro cpu₁ cpu₂ t _ _
      exact h.distinct cpu₁ cpu₂ t nofun nofun
    · intro t ht hH hstate
      rw [List.mem_append, not_or] at hH
      rcases h.placed t ht hH.2 hstate with ⟨cpu', -, hcur⟩ | hqueued
      · -- current, but not on `cpu`: that thread is in hand
        refine Or.inl ⟨cpu', ?_, hcur⟩
        rintro heq
        rw [← Option.some.inj heq] at hcur
        exact hH.1 (by simp [hcur])
      · exact Or.inr hqueued
  · intro c hc
    constructor
    · -- it is running, and what is queued is ready
      intro cpu' hmem
      rcases h.queued cpu' _ hmem with ⟨t, heq, hready, -⟩
      rw [← Option.some.inj heq, (h.current cpu c nofun hc).1] at hready
      exact absurd hready (by decide)
    · intro cpu' hne hcur
      exact hne (congrArg some (h.distinct cpu cpu' c nofun nofun hc hcur))

/-- A running thread in hand becomes current on the CPU left out. -/
theorem Inv.occupy (h : Inv s A (some cpu) (t :: H)) (hfree : Free s (some cpu) t)
    (hrunning : (s.threads t).state = .running) (hadded : t ∈ A) :
    Inv { s with currentThreads := Function.update s.currentThreads cpu (some t) } A none H := by
  -- a current thread is the new one on `cpu`, or an old one elsewhere
  have hcurrent : ∀ cpu' t', Function.update s.currentThreads cpu (some t) cpu' = some t' →
      (cpu' = cpu ∧ t' = t) ∨ (some cpu ≠ some cpu' ∧ s.currentThreads cpu' = some t') := by
    intro cpu' t' hcur
    by_cases hc : cpu' = cpu
    · subst hc
      rw [Function.update_self] at hcur
      exact Or.inl ⟨rfl, (Option.some.inj hcur).symm⟩
    · rw [Function.update_of_ne hc] at hcur
      exact Or.inr ⟨fun heq => hc (Option.some.inj heq).symm, hcur⟩
  refine ⟨h.rep, h.queued, h.nodup, h.disjoint, ?_, ?_, ?_⟩
  · intro cpu' t' _ hcur
    rcases hcurrent cpu' t' hcur with ⟨-, rfl⟩ | ⟨hne, hold⟩
    · exact ⟨hrunning, hadded⟩
    · exact h.current cpu' t' hne hold
  · intro cpu₁ cpu₂ t' _ _ h₁ h₂
    -- `t` was free, so it is current on `cpu` only
    rcases hcurrent cpu₁ t' h₁ with ⟨hc₁, ht₁⟩ | ⟨hne₁, hold₁⟩
    · rcases hcurrent cpu₂ t' h₂ with ⟨hc₂, -⟩ | ⟨hne₂, hold₂⟩
      · rw [hc₁, hc₂]
      · rw [ht₁] at hold₂
        exact absurd hold₂ (hfree.notCurrent cpu₂ hne₂)
    · rcases hcurrent cpu₂ t' h₂ with ⟨-, ht₂⟩ | ⟨hne₂, hold₂⟩
      · rw [ht₂] at hold₁
        exact absurd hold₁ (hfree.notCurrent cpu₁ hne₁)
      · exact h.distinct cpu₁ cpu₂ t' hne₁ hne₂ hold₁ hold₂
  · intro t' ht' hH hstate
    by_cases heq : t' = t
    · refine Or.inl ⟨cpu, nofun, ?_⟩
      rw [heq]
      exact Function.update_self _ _ _
    · have hH' : t' ∉ t :: H := by
        rw [List.mem_cons, not_or]
        exact ⟨heq, hH⟩
      rcases h.placed t' ht' hH' hstate with ⟨cpu', hne, hcur⟩ | hqueued
      · refine Or.inl ⟨cpu', nofun, ?_⟩
        have hc : cpu' ≠ cpu := fun heq => hne (congrArg some heq.symm)
        exact (Function.update_of_ne hc _ _).trans hcur
      · exact Or.inr hqueued

/-- Nothing to give back: the CPU left out had no current thread. -/
theorem Inv.occupyNone (h : Inv s A (some cpu) H) (hcur : s.currentThreads cpu = none) :
    Inv s A none H := by
  have hne : ∀ cpu' t, s.currentThreads cpu' = some t → some cpu ≠ some cpu' := by
    intro cpu' t ht heq
    rw [← Option.some.inj heq, hcur] at ht
    exact absurd ht nofun
  refine ⟨h.rep, h.queued, h.nodup, h.disjoint, ?_, ?_, ?_⟩
  · intro cpu' t _ ht
    exact h.current cpu' t (hne cpu' t ht) ht
  · intro cpu₁ cpu₂ t _ _ h₁ h₂
    exact h.distinct cpu₁ cpu₂ t (hne cpu₁ t h₁) (hne cpu₂ t h₂) h₁ h₂
  · intro t ht hH hstate
    rcases h.placed t ht hH hstate with ⟨cpu', -, hc⟩ | hqueued
    · exact Or.inl ⟨cpu', nofun, hc⟩
    · exact Or.inr hqueued

/-- A thread stays free when a queue changes and it is not in the new one. -/
theorem Free.setRunqueue (h : Free s v t) {rq : Runqueue T} (hrq : some t ∉ items rq) :
    Free (s.setRunqueue cpu rq) v t := by
  exact ⟨forall_setRunqueue (P := fun rq => some t ∉ items rq) hrq h.notQueued, h.notCurrent⟩

variable [DecidableEq T]

theorem Free.setState (h : Free s v t) (t' : T) (st : ProcState) : Free (s.setState t' st) v t :=
  ⟨h.notQueued, h.notCurrent⟩

/-- Changing the state of a free thread in hand. -/
theorem Inv.setState (h : Inv s A v H) (hfree : Free s v t) (hH : t ∈ H) (st : ProcState) :
    Inv (s.setState t st) A v H := by
  refine ⟨h.rep, ?_, h.nodup, h.disjoint, ?_, h.distinct, ?_⟩
  · intro cpu p hp
    rcases h.queued cpu p hp with ⟨t', rfl, hready, hadded⟩
    have hne : t' ≠ t := by
      rintro rfl
      exact hfree.notQueued cpu hp
    refine ⟨t', rfl, ?_, hadded⟩
    rw [setState_state_ne _ _ _ hne]
    exact hready
  · intro cpu t' hv hcur
    have hne : t' ≠ t := by
      rintro rfl
      exact hfree.notCurrent cpu hv hcur
    rw [setState_state_ne _ _ _ hne]
    exact h.current cpu t' hv hcur
  · intro t' ht' hH' hstate
    have hne : t' ≠ t := by
      rintro rfl
      exact hH' hH
    rw [setState_state_ne _ _ _ hne] at hstate
    exact h.placed t' ht' hH' hstate

/-! ## Sequences of moves -/

/-- `sched_add_thread` of a thread in hand, with room in the queue. -/
theorem Inv.enqueue (h : Inv s A v (t :: H)) (hfree : Free s v t) (hadded : t ∈ A)
    (hroom : (items (s.runqueues cpu)).length < 256) :
    ∃ s', schedAddThread s cpu t = some s' ∧ Inv s' A v H ∧
      s'.currentThreads = s.currentThreads ∧
      ∀ x, x ≠ t → (s'.threads x).state = (s.threads x).state ∧ (Free s v x → Free s' v x) := by
  rcases schedAddThread_room t (h.rep cpu) hroom with ⟨rq, hadd, hrep, hitems⟩
  refine ⟨_, hadd, ?_, rfl, ?_⟩
  · have hready : ((s.setState t .ready).threads t).state = .ready := setState_state_self _ _ _
    exact (h.setState hfree List.mem_cons_self .ready).put (hfree.setState t .ready) hready hadded
      hrep hitems
  · intro x hx
    refine ⟨setState_state_ne _ _ _ hx, ?_⟩
    intro hx'
    refine (hx'.setRunqueue ?_).setState t .ready
    rw [hitems, List.mem_append, List.mem_singleton]
    rintro (hold | heq)
    · exact hx'.notQueued cpu hold
    · exact hx (Option.some.inj heq)

/-- The current thread leaves its CPU to `t`: it goes back to the queue if it is
running, and nowhere if it sleeps. -/
theorem Inv.requeue {current : Option T} (h : Inv s A (some cpu) (current.toList ++ t :: H))
    (hcur : ∀ c, current = some c → Free s (some cpu) c ∧ c ∈ A ∧
      ((s.threads c).state = .running ∨ (s.threads c).state = .sleeping))
    (hfree : Free s (some cpu) t) (hne : current ≠ some t)
    (hroom : (items (s.runqueues cpu)).length < 256) :
    ∃ s', Sched.requeue s cpu current = some s' ∧ Inv s' A (some cpu) (t :: H) ∧
      Free s' (some cpu) t ∧ (s'.threads t).state = (s.threads t).state := by
  cases current with
  | none => exact ⟨s, rfl, h, hfree, rfl⟩
  | some c =>
      rcases hcur c rfl with ⟨hfreeC, hadded, hstate⟩
      have htc : t ≠ c := fun heq => hne (congrArg some heq.symm)
      unfold Sched.requeue
      dsimp only
      rcases hstate with hrunning | hsleeping
      · -- `next` has just left the queue, so there is room
        rw [if_pos hrunning]
        have hready := h.setState hfreeC List.mem_cons_self .ready
        rcases hready.enqueue (hfreeC.setState c .ready) hadded hroom with
          ⟨s', hadd, hinv, -, hothers⟩
        rcases hothers t htc with ⟨hstateT, hfreeT⟩
        refine ⟨s', hadd, hinv, hfreeT (hfree.setState c .ready), ?_⟩
        rw [hstateT]
        exact setState_state_ne _ _ _ htc
      · -- from `sched_sleep`: a sleeping thread is nowhere
        have hnot : ¬ (s.threads c).state = .running := by
          rw [hsleeping]
          decide
        rw [if_neg hnot]
        exact ⟨s, rfl, h.letGo hsleeping, hfree, rfl⟩

/-- `sched_yield`, with the current thread in hand: running, or put to sleep just
before. -/
theorem Inv.yield (h : Inv s A (some cpu) ((s.currentThreads cpu).toList ++ H))
    (hcur : ∀ c, s.currentThreads cpu = some c → Free s (some cpu) c ∧ c ∈ A ∧
      ((s.threads c).state = .running ∨ (s.threads c).state = .sleeping)) :
    ∃ s', schedYield s cpu = some s' ∧ Inv s' A none H := by
  cases hitems : items (s.runqueues cpu) with
  | nil =>
      rw [schedYield_nil hitems]
      cases hc : s.currentThreads cpu with
      | none =>
          rw [hc] at h
          exact ⟨s, rfl, h.occupyNone hc⟩
      | some c =>
          -- nothing else to run: the current thread goes on, even if it went to sleep
          rw [hc] at h
          rcases hcur c hc with ⟨hfree, hadded, -⟩
          refine ⟨s.setState c .running, rfl, ?_⟩
          have hstate := h.setState hfree List.mem_cons_self .running
          have hback := hstate.occupy (hfree.setState c .running) (setState_state_self _ _ _) hadded
          have hsame : Function.update (s.setState c .running).currentThreads cpu (some c) =
              (s.setState c .running).currentThreads := by
            rw [← hc]
            exact Function.update_eq_self _ _
          rw [hsame] at hback
          exact hback
  | cons p l =>
      rcases h.queued cpu p (by rw [hitems]; exact List.mem_cons_self) with ⟨t, rfl, hready, hadded⟩
      rcases schedYield_cons (h.rep cpu) hitems hready with ⟨rq, hrep, hrq, hyield⟩
      rcases h.take hitems hrep hrq with ⟨_, heq, -, -, htake, hfree⟩
      cases heq
      have hcount := (h.rep cpu).count_le
      rw [← length_items, hitems, List.length_cons] at hcount
      -- the current thread is still free, and it is not the one taken
      have hnot : ∀ c, s.currentThreads cpu = some c → some c ∉ some t :: l := by
        intro c hc
        rw [← hitems]
        exact (hcur c hc).1.notQueued cpu
      have hne : s.currentThreads cpu ≠ some t := fun hc => hnot t hc List.mem_cons_self
      have hcur' : ∀ c, s.currentThreads cpu = some c →
          Free ((s.setRunqueue cpu rq).setState t .running) (some cpu) c ∧ c ∈ A ∧
          ((((s.setRunqueue cpu rq).setState t .running).threads c).state = .running ∨
            (((s.setRunqueue cpu rq).setState t .running).threads c).state = .sleeping) := by
        intro c hc
        rcases hcur c hc with ⟨hfreeC, haddedC, hstateC⟩
        have hct : c ≠ t := by
          rintro rfl
          exact hne hc
        refine ⟨(hfreeC.setRunqueue ?_).setState t .running, haddedC, ?_⟩
        · rw [hrq]
          exact fun hmem => hnot c hc (List.mem_cons_of_mem _ hmem)
        · rw [setState_state_ne _ _ _ hct]
          exact hstateC
      have hhand : Inv ((s.setRunqueue cpu rq).setState t .running) A (some cpu)
          ((s.currentThreads cpu).toList ++ t :: H) := by
        refine (htake.setState hfree List.mem_cons_self .running).mono ?_
        intro x hx
        exact List.perm_middle.mem_iff.mpr hx
      have hroom : (items (((s.setRunqueue cpu rq).setState t .running).runqueues cpu)).length <
          256 := by
        rw [setState_runqueues, setRunqueue_self, hrq]
        omega
      rcases hhand.requeue hcur' (hfree.setState t .running) hne hroom with
        ⟨s', hrequeue, hinv, hfreeT, hstateT⟩
      rw [hrequeue] at hyield
      exact ⟨s'.setCurrent cpu t, hyield,
        hinv.occupy hfreeT (hstateT.trans (setState_state_self _ _ _)) hadded⟩

end Moves

end OmniOS.Sched
