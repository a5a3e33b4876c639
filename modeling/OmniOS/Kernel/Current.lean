import OmniOS.Kernel.Process
import OmniOS.Kernel.Sched

/-!
# OmniOS.Kernel.Current — who is running, as the scheduler and the process manager see it

`sched.c` keeps the running thread in `current_threads`, `process.c` keeps it in
`_current_thread`.

1. **Model.** The two modules side by side, on one CPU. A thread pointer is a pair of
   indices into the process table. `proc_create` and `proc_fork` set up the scheduler's
   fields of their thread and hand it to `sched_add_thread`.
2. **Runs.** No function of either module calls `proc_set_current_thread`, so
   `_current_thread` stays NULL. The two agree as long as the scheduler has no current
   thread either: until the first `sched_yield` that finds a thread to run.
-/

namespace OmniOS.Current

open Process (Table MAX_PROCESSES MAX_THREADS)
open Sched (Cpu)

/-! ## Model -/

/-- A pointer to a `thread_t` of the process table. -/
abbrev ThreadPtr := Fin MAX_PROCESSES × Fin MAX_THREADS

structure World (Ctx : Type) where
  table : Table Ctx
  sched : Sched.State ThreadPtr

variable {Ctx : Type} (arch : Process.ForkArch Ctx) (cpu : Cpu)

/-- `memset` of a slot's threads, then the fields of its first one. -/
def setThreads (s : Sched.State ThreadPtr) (i : Fin MAX_PROCESSES) (first : Sched.Thread) :
    Sched.State ThreadPtr :=
  { s with threads := fun p =>
      if p.1 = i then (if p.2 = 0 then first else ⟨.created, 0, 0⟩) else s.threads p }

def procCreate (w : World Ctx) (entry arg stack : UInt64) : Option (World Ctx) :=
  let table := (Process.procCreate arch.toArch w.table entry arg stack).2
  match w.table.freeSlot with
  | none => some w
  | some i =>
      let sched := setThreads w.sched i ⟨.ready, 0, 0⟩
      if stack = 0 then some ⟨table, sched⟩
      else (Sched.schedAddThread sched cpu (i, 0)).map fun sched => ⟨table, sched⟩

def procFork (w : World Ctx) : Option (World Ctx) :=
  let table := (Process.procFork arch w.table).2
  match Process.procGetCurrent w.table with
  | none => some w
  | some p =>
      match w.table.freeSlot with
      | none => some w
      | some i =>
          let sched := setThreads w.sched i (w.sched.threads (p, 0))
          (Sched.schedAddThread sched cpu (i, 0)).map fun sched => ⟨table, sched⟩

/-- `sched_get_current_pid`. -/
def schedGetCurrentPid (w : World Ctx) : UInt32 :=
  match w.sched.currentThreads cpu with
  | none => 0
  | some t => (w.table.thread t).pid

inductive Call where
  | create (entry arg stack : UInt64)
  | fork
  | yield
  | sleep (uptime ms : UInt64)
  | wake (thread : Option ThreadPtr)

def World.next (w : World Ctx) : Call → Option (World Ctx)
  | .create entry arg stack => procCreate arch cpu w entry arg stack
  | .fork => procFork arch cpu w
  | .yield => (Sched.schedYield w.sched cpu).map fun sched => { w with sched := sched }
  | .sleep uptime ms =>
      (Sched.schedSleep w.sched cpu uptime ms).map fun sched => { w with sched := sched }
  | .wake thread => (Sched.schedWake w.sched cpu thread).map fun sched => { w with sched := sched }

/-- Runs from `proc_init` and `sched_init`, whatever the thread structures hold for the
scheduler. -/
def system : Lts.System (World Ctx) Call where
  Init := fun w => ∃ ncpus threads,
    w = ⟨Process.procInit arch.toArch, Sched.schedInit ncpus threads⟩
  Next := fun call w w' => w.next arch cpu call = some w'

/-- The process manager's current process is the one the scheduler's current thread belongs
to. -/
def Agree (w : World Ctx) : Prop :=
  ∀ t, w.sched.currentThreads cpu = some t →
    ∃ p, Process.procGetCurrent w.table = some p ∧
      (w.table.processes p).pid = (w.table.thread t).pid ∧
      (w.table.processes p).pid = schedGetCurrentPid cpu w

/-- A `sched_yield` finds no thread to run. -/
def FindsNone (call : Call) (w : World Ctx) : Prop :=
  call = .yield → ∀ t s, Sched.schedPickNext w.sched cpu ≠ some (some t, s)

/-! ## Steps -/

theorem procCreate_currentThread (t : Table Ctx) (entry arg stack : UInt64) :
    (Process.procCreate arch.toArch t entry arg stack).2.currentThread = t.currentThread := by
  rcases Process.procCreate_cases arch.toArch t entry arg stack with ⟨-, heq⟩ | ⟨i, ret, proc, -, heq, -⟩
  · rw [heq]
  · rw [heq]
    rfl

theorem procFork_currentThread (t : Table Ctx) :
    (Process.procFork arch t).2.currentThread = t.currentThread := by
  rcases Process.procFork_cases arch t with ⟨-, heq⟩ | ⟨p, i, ret, proc, -, -, heq, -⟩
  · rw [heq]
  · rw [heq]
    rfl

section Steps

variable {arch cpu} {w w' : World Ctx}

theorem schedWake_currentThreads {s s' : Sched.State ThreadPtr} {thread : Option ThreadPtr}
    (h : Sched.schedWake s cpu thread = some s') : s'.currentThreads = s.currentThreads := by
  unfold Sched.schedWake at h
  split at h
  · cases h
    rfl
  · split at h
    · cases h
      rfl
    · rw [(Sched.schedAddThread_frame h).1, Sched.setState_currentThreads]

theorem setThreads_currentThreads (s : Sched.State ThreadPtr) (i : Fin MAX_PROCESSES)
    (first : Sched.Thread) : (setThreads s i first).currentThreads = s.currentThreads := rfl

/-- Creating and forking leave both modules' current threads alone. -/
theorem procCreate_current {entry arg stack : UInt64}
    (h : procCreate arch cpu w entry arg stack = some w') :
    w'.table.currentThread = w.table.currentThread ∧
      w'.sched.currentThreads = w.sched.currentThreads := by
  have htable := procCreate_currentThread arch w.table entry arg stack
  unfold procCreate at h
  generalize (Process.procCreate arch.toArch w.table entry arg stack).2 = table at h htable
  dsimp only at h
  split at h
  · cases h
    exact ⟨rfl, rfl⟩
  · split at h
    · cases h
      exact ⟨htable, setThreads_currentThreads _ _ _⟩
    · obtain ⟨s, hadd, rfl⟩ := Option.map_eq_some_iff.mp h
      refine ⟨htable, ?_⟩
      rw [(Sched.schedAddThread_frame hadd).1, setThreads_currentThreads]

theorem procFork_current (h : procFork arch cpu w = some w') :
    w'.table.currentThread = w.table.currentThread ∧
      w'.sched.currentThreads = w.sched.currentThreads := by
  have htable := procFork_currentThread arch w.table
  unfold procFork at h
  generalize (Process.procFork arch w.table).2 = table at h htable
  dsimp only at h
  split at h
  · cases h
    exact ⟨rfl, rfl⟩
  · split at h
    · cases h
      exact ⟨rfl, rfl⟩
    · obtain ⟨s, hadd, rfl⟩ := Option.map_eq_some_iff.mp h
      refine ⟨htable, ?_⟩
      rw [(Sched.schedAddThread_frame hadd).1, setThreads_currentThreads]

/-- Without a current thread, a yield makes the thread it picks the current one. -/
theorem schedYield_current {s s' : Sched.State ThreadPtr} (hidle : s.currentThreads cpu = none)
    (h : Sched.schedYield s cpu = some s') :
    s'.currentThreads cpu = none ↔ ∀ t s₁, Sched.schedPickNext s cpu ≠ some (some t, s₁) := by
  unfold Sched.schedYield at h
  obtain ⟨⟨next, s₁⟩, hpick, h⟩ := Option.bind_eq_some_iff.mp h
  have hsame := (Sched.schedPickNext_frame hpick).1
  cases next with
  | none =>
      rw [hidle] at h
      cases h
      rw [hsame, hpick]
      simp [hidle]
  | some t =>
      obtain ⟨s₂, -, h⟩ := Option.bind_eq_some_iff.mp h
      cases h
      rw [hpick]
      simp

/-- No call sets the process manager's current thread. -/
theorem next_table {call : Call} (h : w.next arch cpu call = some w') :
    w'.table.currentThread = w.table.currentThread := by
  unfold World.next at h
  cases call with
  | create entry arg stack => exact (procCreate_current h).1
  | fork => exact (procFork_current h).1
  | yield =>
      obtain ⟨s, -, rfl⟩ := Option.map_eq_some_iff.mp h
      rfl
  | sleep uptime ms =>
      obtain ⟨s, -, rfl⟩ := Option.map_eq_some_iff.mp h
      rfl
  | wake thread =>
      obtain ⟨s, -, rfl⟩ := Option.map_eq_some_iff.mp h
      rfl

/-- The scheduler stays without a current thread exactly if no yield finds one. -/
theorem next_sched {call : Call} (hidle : w.sched.currentThreads cpu = none)
    (h : w.next arch cpu call = some w') :
    w'.sched.currentThreads cpu = none ↔ FindsNone cpu call w := by
  unfold World.next at h
  cases call with
  | create entry arg stack =>
      rw [(procCreate_current h).2]
      simp [hidle, FindsNone]
  | fork =>
      rw [(procFork_current h).2]
      simp [hidle, FindsNone]
  | yield =>
      obtain ⟨s, hyield, rfl⟩ := Option.map_eq_some_iff.mp h
      rw [schedYield_current hidle hyield]
      simp [FindsNone]
  | sleep uptime ms =>
      -- `sched_sleep` returns at once
      obtain ⟨s, hsleep, rfl⟩ := Option.map_eq_some_iff.mp h
      rw [Sched.schedSleep, hidle] at hsleep
      cases hsleep
      simp [hidle, FindsNone]
  | wake thread =>
      obtain ⟨s, hwake, rfl⟩ := Option.map_eq_some_iff.mp h
      rw [schedWake_currentThreads hwake]
      simp [hidle, FindsNone]

/-- With `_current_thread` NULL the two agree only on nobody. -/
theorem agree_iff (hnull : w.table.currentThread = none) :
    Agree cpu w ↔ w.sched.currentThreads cpu = none := by
  have hcurrent : Process.procGetCurrent w.table = none := by
    rw [Process.procGetCurrent, hnull]
    rfl
  constructor
  · intro hagree
    cases hsched : w.sched.currentThreads cpu with
    | none => rfl
    | some t =>
        obtain ⟨p, hp, -⟩ := hagree t hsched
        rw [hcurrent] at hp
        cases hp
  · intro hnone t ht
    rw [hnone] at ht
    cases ht

end Steps

/-- In every run in which no `sched_yield` finds a thread, the scheduler and the process manager
agree on who is running, and a further call keeps them in agreement exactly if it is no
`sched_yield` that finds one. -/
theorem current_agrees_if_idle {w : World Ctx}
    (hreach : Lts.Reachable ((system arch cpu).restrict (FindsNone cpu)) w) :
    Agree cpu w ∧
      ∀ call w', w.next arch cpu call = some w' → (Agree cpu w' ↔ FindsNone cpu call w) := by
  have hw : w.table.currentThread = none ∧ w.sched.currentThreads cpu = none := by
    refine hreach.invariant
      (I := fun w => w.table.currentThread = none ∧ w.sched.currentThreads cpu = none) ?_ ?_
    · intro w ⟨ncpus, threads, heq⟩
      subst heq
      exact ⟨rfl, rfl⟩
    · intro call w w' ⟨htable, hsched⟩ ⟨hnone, hnext⟩
      exact ⟨(next_table hnext).trans htable, (next_sched hsched hnext).mpr hnone⟩
  refine ⟨(agree_iff hw.1).mpr hw.2, ?_⟩
  intro call w' hnext
  rw [agree_iff ((next_table hnext).trans hw.1), next_sched hw.2 hnext]

/-- The two modules after boot. -/
def booted : World Process.ContextArm64 :=
  ⟨Process.procInit Process.arm64.toArch, Sched.schedInit 1 fun _ => ⟨.created, 0, 0⟩⟩

theorem booted_init : (system Process.arm64 0).Init booted := ⟨1, fun _ => ⟨.created, 0, 0⟩, rfl⟩

/-- The first process is created; nobody runs yet. -/
theorem current_agrees_created :
    ∃ w', booted.next Process.arm64 0 (.create 0x40080000 0 0x1000000) = some w' ∧ Agree 0 w' := by
  have hsome : (booted.next Process.arm64 0 (.create 0x40080000 0 0x1000000)).isSome = true := by
    decide +kernel
  obtain ⟨w', hnext⟩ := Option.isSome_iff_exists.mp hsome
  refine ⟨w', hnext, ?_⟩
  apply ((current_agrees_if_idle Process.arm64 0 (Lts.Reachable.init booted_init)).2 _ w' hnext).mpr
  intro hcall
  cases hcall

/-- The first process is created and runs: the process manager knows no current process. -/
theorem running_unknown :
    ∃ w, Lts.Reachable (system Process.arm64 0) w ∧
      (w.sched.currentThreads 0 = some (0, 0) ∧ Process.procGetCurrent w.table = none) ∧
      ¬ Agree 0 w := by
  have hnext : ∀ call w w', (fun w call => World.next Process.arm64 0 w call) w call = some w' →
      (system Process.arm64 0).Next call w w' := fun call w w' h => h
  have hrun : (([.create 0x40080000 0 0x1000000, .yield] : List Call).foldlM
        (fun w call => World.next Process.arm64 0 w call) booted).map (fun w =>
          decide (w.sched.currentThreads 0 = some (0, 0) ∧
            Process.procGetCurrent w.table = none)) = some true := by
    decide +kernel
  obtain ⟨w, hreach, hsched, htable⟩ :=
    Lts.Reachable.of_test hnext (Lts.Reachable.init booted_init) hrun
  refine ⟨w, hreach, ⟨hsched, htable⟩, ?_⟩
  intro hagree
  obtain ⟨p, hp, -⟩ := hagree _ hsched
  rw [htable] at hp
  cases hp

end OmniOS.Current
