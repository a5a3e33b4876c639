import OmniOS.Lib.Lts
import OmniOS.Lib.Ring

/-!
# OmniOS.Kernel.Sched — the scheduler of `kernel/sched/sched.c`

Each CPU has a run queue, a circular array of thread pointers, and a current
thread. The model is generic in the threads: a value of `T` is the address of a
`thread_t`, `none` is NULL, and the fields the scheduler reads and writes are
kept in `threads`.

`smp_current_cpu` returns an index below `MAX_CPUS`, so a CPU is a `Fin` and the
clamp in `get_runqueue` has no case. An access of `queue` outside its 256
entries is `none`, as is a write through NULL; `context_switch` changes registers
only and is left out.
-/

namespace OmniOS.Sched

def MAX_CPUS : Nat := 256
def MAX_RUNQUEUE_DEPTH : Nat := 256

instance : NeZero MAX_RUNQUEUE_DEPTH := ⟨by decide⟩
instance : NeZero MAX_CPUS := ⟨by decide⟩

/-- `process_state_t`. -/
inductive ProcState where
  | created
  | running
  | ready
  | blocked
  | sleeping
  | zombie
  | terminated
deriving DecidableEq, Repr

/-- The fields of `thread_t` the scheduler uses. -/
structure Thread where
  state : ProcState
  wakeupTime : UInt64
  totalTicks : UInt64

/-- `runqueue_t`. -/
structure Runqueue (T : Type) where
  queue : Fin MAX_RUNQUEUE_DEPTH → Option T
  head : UInt32
  tail : UInt32
  count : UInt32
  totalTicks : UInt64
  cpuIndex : UInt32

abbrev Cpu := Fin MAX_CPUS

structure State (T : Type) where
  runqueues : Cpu → Runqueue T
  currentThreads : Cpu → Option T
  tickCounter : UInt64
  threads : T → Thread

variable {T : Type} [DecidableEq T]

/-- `thread->state = state`. -/
def State.setState (s : State T) (t : T) (state : ProcState) : State T :=
  { s with threads := Function.update s.threads t { s.threads t with state := state } }

def State.setRunqueue (s : State T) (cpu : Cpu) (rq : Runqueue T) : State T :=
  { s with runqueues := Function.update s.runqueues cpu rq }

section Fields

variable (s : State T) (cpu : Cpu) (rq : Runqueue T) (t : T) (st : ProcState)

@[simp] theorem setState_runqueues : (s.setState t st).runqueues = s.runqueues := rfl

@[simp] theorem setState_currentThreads :
    (s.setState t st).currentThreads = s.currentThreads := rfl

@[simp] theorem setState_state_self : ((s.setState t st).threads t).state = st := by
  simp [State.setState]

theorem setState_state_ne {t' : T} (h : t' ≠ t) :
    ((s.setState t st).threads t').state = (s.threads t').state := by
  simp [State.setState, Function.update_of_ne h]

omit [DecidableEq T]

@[simp] theorem setRunqueue_threads : (s.setRunqueue cpu rq).threads = s.threads := rfl

@[simp] theorem setRunqueue_currentThreads :
    (s.setRunqueue cpu rq).currentThreads = s.currentThreads := rfl

@[simp] theorem setRunqueue_self : (s.setRunqueue cpu rq).runqueues cpu = rq := by
  simp [State.setRunqueue]

@[simp] theorem setRunqueue_ne {cpu' : Cpu} (h : cpu' ≠ cpu) :
    (s.setRunqueue cpu rq).runqueues cpu' = s.runqueues cpu' := by
  simp [State.setRunqueue, Function.update_of_ne h]

end Fields

/-! ## The run queue -/

/-- `queue[i % MAX_RUNQUEUE_DEPTH]` names this entry. -/
def slot (i : UInt32) : Fin MAX_RUNQUEUE_DEPTH := Fin.ofNat MAX_RUNQUEUE_DEPTH i.toNat

/-- The queue writes of `sched_add_thread`; `h`: `tail` is an index. -/
def Runqueue.put (rq : Runqueue T) (h : rq.tail.toNat < MAX_RUNQUEUE_DEPTH) (thread : T) :
    Runqueue T :=
  { rq with
    queue := Function.update rq.queue ⟨rq.tail.toNat, h⟩ (some thread)
    tail := (rq.tail + 1) % 256
    count := rq.count + 1 }

def schedAddThread (s : State T) (cpu : Cpu) (thread : T) : Option (State T) :=
  let rq := s.runqueues cpu
  if rq.count ≥ 256 then some s
  else if h : rq.tail.toNat < MAX_RUNQUEUE_DEPTH then
    some ((s.setRunqueue cpu (rq.put h thread)).setState thread .ready)
  else none

/-- `for (j = i; j < count - 1; j++)`, `n` rounds: each entry moves one down. -/
def shiftLoop (head : UInt32) :
    (n : Nat) → (j : UInt32) → (Fin MAX_RUNQUEUE_DEPTH → Option T) →
      Fin MAX_RUNQUEUE_DEPTH → Option T
  | 0, _, queue => queue
  | n + 1, j, queue =>
      let src := slot (head + j + 1)
      let dst := slot (head + j)
      shiftLoop head n (j + 1) (Function.update queue dst (queue src))

/-- The index at which the outer loop of `sched_remove_thread` finds `thread`. -/
def findThread (rq : Runqueue T) (thread : Option T) : Option Nat :=
  (List.range rq.count.toNat).find? fun i => rq.queue (slot (rq.head + UInt32.ofNat i)) == thread

/-- The queue writes of `sched_remove_thread` once entry `i` matched. -/
def Runqueue.dropAt (rq : Runqueue T) (i : Nat) : Runqueue T :=
  { rq with
    queue := shiftLoop rq.head ((rq.count - 1).toNat - i) (UInt32.ofNat i) rq.queue
    tail := (rq.tail - 1 + 256) % 256
    count := rq.count - 1 }

def schedRemoveThread (s : State T) (cpu : Cpu) (thread : Option T) : State T :=
  let rq := s.runqueues cpu
  match findThread rq thread with
  | none => s
  | some i => s.setRunqueue cpu (rq.dropAt i)

/-- The queue writes of `sched_pick_next`. -/
def Runqueue.advance (rq : Runqueue T) : Runqueue T :=
  { rq with head := (rq.head + 1) % 256, count := rq.count - 1 }

/-- `if (next && next->state == PROC_READY)`, on the entry taken off. -/
def dispatch (s : State T) (next : Option T) : Option T × State T :=
  match next with
  | none => (none, s)
  | some t =>
      if (s.threads t).state = .ready then (some t, s.setState t .running) else (none, s)

/-- The thread to run, or NULL. -/
def schedPickNext (s : State T) (cpu : Cpu) : Option (Option T × State T) :=
  let rq := s.runqueues cpu
  if rq.count = 0 then some (none, s)
  else if h : rq.head.toNat < MAX_RUNQUEUE_DEPTH then
    some (dispatch (s.setRunqueue cpu rq.advance) (rq.queue ⟨rq.head.toNat, h⟩))
  else none

section Frames

variable {s s' : State T} {cpu : Cpu}

theorem dispatch_frame (s : State T) (next : Option T) :
    (dispatch s next).2.runqueues = s.runqueues ∧
      (dispatch s next).2.currentThreads = s.currentThreads := by
  unfold dispatch
  split
  · exact ⟨rfl, rfl⟩
  · split
    · exact ⟨rfl, rfl⟩
    · exact ⟨rfl, rfl⟩

/-- Adding a thread leaves the current threads and the queues of the other CPUs alone. -/
theorem schedAddThread_frame {t : T} (h : schedAddThread s cpu t = some s') :
    s'.currentThreads = s.currentThreads ∧ ∀ j ≠ cpu, s'.runqueues j = s.runqueues j := by
  unfold schedAddThread at h
  dsimp only at h
  split at h
  · cases h
    exact ⟨rfl, fun _ _ => rfl⟩
  · split at h
    · cases h
      exact ⟨rfl, fun j hj => setRunqueue_ne s cpu _ hj⟩
    · cases h

/-- So does picking one. -/
theorem schedPickNext_frame {next : Option T} (h : schedPickNext s cpu = some (next, s')) :
    s'.currentThreads = s.currentThreads ∧ ∀ j ≠ cpu, s'.runqueues j = s.runqueues j := by
  unfold schedPickNext at h
  dsimp only at h
  split at h
  · cases h
    exact ⟨rfl, fun _ _ => rfl⟩
  · split at h
    · next hhead =>
        obtain ⟨hqueues, hcurrent⟩ := dispatch_frame (s.setRunqueue cpu (s.runqueues cpu).advance)
          ((s.runqueues cpu).queue ⟨(s.runqueues cpu).head.toNat, hhead⟩)
        rw [Option.some.inj h] at hqueues hcurrent
        refine ⟨hcurrent, ?_⟩
        intro j hj
        rw [hqueues, setRunqueue_ne s cpu _ hj]
    · cases h

end Frames

/-! ## Ticks, yield, sleep, wake -/

def schedTick (s : State T) (cpu : Cpu) : State T :=
  let rq := s.runqueues cpu
  let s := { s with tickCounter := s.tickCounter + 1 }
  let s := s.setRunqueue cpu { rq with totalTicks := rq.totalTicks + 1 }
  match s.currentThreads cpu with
  | none => s
  | some t =>
      { s with
        threads := Function.update s.threads t
          { s.threads t with totalTicks := (s.threads t).totalTicks + 1 } }

/-- The current thread goes back to the queue if it is still running. -/
def requeue (s : State T) (cpu : Cpu) (current : Option T) : Option (State T) :=
  match current with
  | none => some s
  | some c =>
      if (s.threads c).state = .running then schedAddThread (s.setState c .ready) cpu c
      else some s

def schedYield (s : State T) (cpu : Cpu) : Option (State T) := do
  let current := s.currentThreads cpu
  let (next, s) ← schedPickNext s cpu
  match next with
  | none =>
      match current with
      | none => some s
      | some c => some (s.setState c .running)
  | some t =>
      let s ← requeue s cpu current
      some { s with currentThreads := Function.update s.currentThreads cpu (some t) }

/-- `uptime` is what `kernel_get_uptime_ms` returns. -/
def schedSleep (s : State T) (cpu : Cpu) (uptime ms : UInt64) : Option (State T) :=
  match s.currentThreads cpu with
  | none => some s
  | some c =>
      let s := { s with
        threads := Function.update s.threads c { s.threads c with wakeupTime := uptime + ms } }
      schedYield (s.setState c .sleeping) cpu

def schedWake (s : State T) (cpu : Cpu) (thread : Option T) : Option (State T) :=
  match thread with
  | none => some s
  | some t =>
      if (s.threads t).state ≠ .sleeping then some s
      else schedAddThread (s.setState t .ready) cpu t

/-- All queues empty, no current threads; `ncpus` of the queues carry their
index. Thread structures are not touched. -/
def schedInit (ncpus : Nat) (threads : T → Thread) : State T where
  runqueues := fun cpu =>
    { queue := fun _ => none
      head := 0
      tail := 0
      count := 0
      totalTicks := 0
      cpuIndex := if cpu.val < ncpus then UInt32.ofNat cpu.val else 0 }
  currentThreads := fun _ => none
  tickCounter := 0
  threads := threads

/-! ## Runs -/

/-- The scheduler, and the threads `sched_add_thread` has been called for. -/
structure Conf (T : Type) where
  sched : State T
  added : List T

/-- One operation, on the CPU that performs it. -/
inductive Op (T : Type) where
  | add (cpu : Cpu) (thread : T)
  | yield (cpu : Cpu)
  | sleep (cpu : Cpu) (uptime ms : UInt64)
  | wake (cpu : Cpu) (thread : Option T)
  | tick (cpu : Cpu)

/-- A thread is added once: `proc_create` and `proc_fork` add the thread they
have just set up. Waking a sleeping thread adds it too. -/
def Next : Op T → Conf T → Conf T → Prop
  | .add cpu t, c, c' => t ∉ c.added ∧ ∃ s, schedAddThread c.sched cpu t = some s ∧
      c' = ⟨s, t :: c.added⟩
  | .yield cpu, c, c' => ∃ s, schedYield c.sched cpu = some s ∧ c' = { c with sched := s }
  | .sleep cpu uptime ms, c, c' => ∃ s, schedSleep c.sched cpu uptime ms = some s ∧
      c' = { c with sched := s }
  | .wake cpu thread, c, c' => ∃ s, schedWake c.sched cpu thread = some s ∧
      c' = ⟨s, thread.toList.filter (fun t => (c.sched.threads t).state = .sleeping) ++ c.added⟩
  | .tick cpu, c, c' => c' = { c with sched := schedTick c.sched cpu }

/-- Runs from `sched_init`, whatever the thread structures hold. -/
def system (T : Type) [DecidableEq T] : Lts.System (Conf T) (Op T) where
  Init := fun c => ∃ ncpus threads, c = ⟨schedInit ncpus threads, []⟩
  Next := Next

end OmniOS.Sched
