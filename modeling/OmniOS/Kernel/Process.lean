import Mathlib.Algebra.GroupWithZero.Nat
import Mathlib.Data.List.FinRange
import Mathlib.Logic.Function.Basic
import OmniOS.Lib.Lts

/-!
# OmniOS.Kernel.Process — the process table of `kernel/proc/process.c`

`proc_create` fills a free slot of the table with a process of one thread and
`proc_fork` copies the current process to another one. No slot is ever given back:
`proc_exit` leaves `used` alone.

The model is generic in the register context (`Arch`), which differs between x86_64 and
ARM64. What `pmm_alloc_pages` returns is an argument of `procCreate`. A thread pointer
is a pair of indices. Fields that no function here reads are left out.
-/

namespace OmniOS.Process

def MAX_PROCESSES : Nat := 1024
def MAX_THREADS : Nat := 4096
def PAGE_SIZE : UInt64 := 4096

instance : NeZero MAX_THREADS := ⟨by decide⟩
instance : NeZero MAX_PROCESSES := ⟨by decide⟩

/-- What `proc_create` does with a `context_t`: clear it, and let it start at `entry` with
`arg` on a kernel stack. -/
structure Arch (Ctx : Type) where
  zero : Ctx
  start : (entry arg kernelStack : UInt64) → Ctx

/-- `proc_fork` sets `context.x[0]`, which only ARM64 has. -/
structure ForkArch (Ctx : Type) extends Arch Ctx where
  returnZero : Ctx → Ctx

/-- `thread_t`; the kernel stack grows down from `kernelStack` to `kernelStackTop`. -/
structure Thread (Ctx : Type) where
  tid : UInt32
  pid : UInt32
  context : Ctx
  kernelStack : UInt64
  kernelStackTop : UInt64
  used : Bool

/-- `process_t`. -/
structure Proc (Ctx : Type) where
  pid : UInt32
  ppid : UInt32
  threads : Fin MAX_THREADS → Thread Ctx
  used : Bool

structure Table (Ctx : Type) where
  processes : Fin MAX_PROCESSES → Proc Ctx
  nextPid : UInt32
  nextTid : UInt32
  currentThread : Option (Fin MAX_PROCESSES × Fin MAX_THREADS)

/-- `context_arm64_t`. -/
structure ContextArm64 where
  x : Fin 31 → UInt64
  spEl0 : UInt64
  elrEl1 : UInt64
  spsrEl1 : UInt64

/-- The ARM64 branches of `process.c`. -/
def arm64 : ForkArch ContextArm64 where
  zero := ⟨fun _ => 0, 0, 0, 0⟩
  start entry arg _ := ⟨Function.update (fun _ => 0) ⟨0, by decide⟩ arg, 0, entry, 0x3C5⟩
  returnZero ctx := { ctx with x := Function.update ctx.x ⟨0, by decide⟩ 0 }

variable {Ctx : Type} (arch : Arch Ctx)

/-! ## The functions -/

def Thread.zero : Thread Ctx := ⟨0, 0, arch.zero, 0, 0, false⟩

def Proc.zero : Proc Ctx := ⟨0, 0, fun _ => Thread.zero arch, false⟩

/-- The counters start at 1. -/
def procInit : Table Ctx := ⟨fun _ => Proc.zero arch, 1, 1, none⟩

/-- The thread a pointer points to. -/
def Table.thread (t : Table Ctx) (p : Fin MAX_PROCESSES × Fin MAX_THREADS) : Thread Ctx :=
  (t.processes p.1).threads p.2

/-- The loop that looks for a free slot. -/
def Table.freeSlot (t : Table Ctx) : Option (Fin MAX_PROCESSES) :=
  (List.finRange MAX_PROCESSES).find? fun i => !(t.processes i).used

/-- `stack` is what `pmm_alloc_pages(4)` returns, 0 if there is no memory. The pid and the
tid are used up even then. -/
def procCreate (t : Table Ctx) (entry arg stack : UInt64) : Int32 × Table Ctx :=
  match t.freeSlot with
  | none => (-1, t)
  | some i =>
      let proc : Proc Ctx := { Proc.zero arch with pid := t.nextPid }
      let thread : Thread Ctx := { Thread.zero arch with tid := t.nextTid, pid := proc.pid }
      let t := { t with nextPid := t.nextPid + 1, nextTid := t.nextTid + 1 }
      if stack = 0 then
        let proc := { proc with threads := Function.update proc.threads 0 thread }
        (-1, { t with processes := Function.update t.processes i proc })
      else
        let kernelStack := stack + 4 * PAGE_SIZE
        let thread := { thread with
          kernelStackTop := stack
          kernelStack := kernelStack
          context := arch.start entry arg kernelStack
          used := true }
        let proc := { proc with
          threads := Function.update proc.threads 0 thread
          used := true }
        (proc.pid.toInt32, { t with processes := Function.update t.processes i proc })

def procGet (t : Table Ctx) (pid : Int32) : Option (Fin MAX_PROCESSES) :=
  (List.finRange MAX_PROCESSES).find? fun i =>
    (t.processes i).used && (t.processes i).pid.toInt32 == pid

def procGetCurrent (t : Table Ctx) : Option (Fin MAX_PROCESSES) :=
  t.currentThread.bind fun p => (List.finRange MAX_PROCESSES).find? fun i =>
    (t.processes i).used && (t.processes i).pid == (t.thread p).pid

def procSetCurrentThread (t : Table Ctx) (p : Option (Fin MAX_PROCESSES × Fin MAX_THREADS)) :
    Table Ctx :=
  { t with currentThread := p }

/-- The child's only thread is the parent's first one, with a tid and a pid of its own. -/
def procFork (arch : ForkArch Ctx) (t : Table Ctx) : Int32 × Table Ctx :=
  match procGetCurrent t with
  | none => (-1, t)
  | some p =>
      match t.freeSlot with
      | none => (-1, t)
      | some i =>
          let parent := t.processes p
          let thread := parent.threads 0
          let thread := { thread with
            tid := t.nextTid
            pid := t.nextPid
            context := arch.returnZero thread.context }
          let child : Proc Ctx := { parent with
            pid := t.nextPid
            ppid := parent.pid
            used := true
            threads := Function.update (fun _ => Thread.zero arch.toArch) 0 thread }
          (child.pid.toInt32,
            { t with
              processes := Function.update t.processes i child
              nextPid := t.nextPid + 1
              nextTid := t.nextTid + 1 })

/-! ## What the functions do -/

section Spec

variable {t : Table Ctx}

theorem freeSlot_some {i : Fin MAX_PROCESSES} (h : t.freeSlot = some i) :
    (t.processes i).used = false := by
  have hused := List.find?_some h
  simpa using hused

/-- A process with one thread in the place of an unused slot, under new ids. -/
def Table.add (t : Table Ctx) (i : Fin MAX_PROCESSES) (proc : Proc Ctx) : Table Ctx :=
  { t with
    processes := Function.update t.processes i proc
    nextPid := t.nextPid + 1
    nextTid := t.nextTid + 1 }

/-- What `proc_create` and `proc_fork` put into a slot: at most the first thread is in
use, and only if the process is; process and thread carry the new ids. -/
structure Fresh (t : Table Ctx) (proc : Proc Ctx) : Prop where
  pid : proc.pid = t.nextPid
  tid : (proc.threads 0).tid = t.nextTid
  thread_pid : (proc.threads 0).pid = t.nextPid
  first : (proc.threads 0).used = proc.used
  rest : ∀ j, j ≠ 0 → (proc.threads j).used = false

/-- `proc_create` changes nothing, or it fills a free slot; the slot is in use and its
thread has the new stack exactly if there was memory. -/
theorem procCreate_cases (t : Table Ctx) (entry arg stack : UInt64) :
    (t.freeSlot = none ∧ procCreate arch t entry arg stack = (-1, t)) ∨
    ∃ i ret proc, t.freeSlot = some i ∧
      procCreate arch t entry arg stack = (ret, t.add i proc) ∧ Fresh t proc ∧
      (proc.used = true ↔ stack ≠ 0) ∧
      (proc.used = true → (proc.threads 0).kernelStackTop = stack ∧
        (proc.threads 0).kernelStack = stack + 4 * PAGE_SIZE) := by
  have hrest (thread : Thread Ctx) (j : Fin MAX_THREADS) (hj : j ≠ 0) :
      (Function.update (fun _ => Thread.zero arch) 0 thread j).used = false := by
    rw [Function.update_of_ne hj]
    rfl
  unfold procCreate
  cases hslot : t.freeSlot with
  | none => exact Or.inl ⟨rfl, rfl⟩
  | some i =>
      refine Or.inr ?_
      by_cases hstack : stack = 0
      · simp only [if_pos hstack]
        refine ⟨i, -1, _, rfl, rfl, ⟨rfl, ?_, ?_, ?_, hrest _⟩, ?_, ?_⟩
        · simp [Proc.zero]
        · simp [Proc.zero]
        · simp [Proc.zero, Thread.zero]
        · simp [Proc.zero, hstack]
        · simp [Proc.zero]
      · simp only [if_neg hstack]
        refine ⟨i, _, _, rfl, rfl, ⟨rfl, ?_, ?_, ?_, hrest _⟩, ?_, ?_⟩
        · simp [Proc.zero]
        · simp [Proc.zero]
        · simp [Proc.zero]
        · simp [hstack]
        · simp [Proc.zero]

/-- `proc_fork` changes nothing, or it fills a free slot; the child's thread is in use if
the parent's first one is, and has its stack. -/
theorem procFork_cases (arch : ForkArch Ctx) (t : Table Ctx) :
    ((procGetCurrent t = none ∨ t.freeSlot = none) ∧ procFork arch t = (-1, t)) ∨
    ∃ p i ret proc, procGetCurrent t = some p ∧ t.freeSlot = some i ∧
      procFork arch t = (ret, t.add i proc) ∧ proc.used = true ∧ proc.pid = t.nextPid ∧
      (proc.threads 0).tid = t.nextTid ∧ (proc.threads 0).pid = t.nextPid ∧
      (proc.threads 0).used = ((t.processes p).threads 0).used ∧
      (proc.threads 0).kernelStackTop = ((t.processes p).threads 0).kernelStackTop ∧
      (proc.threads 0).kernelStack = ((t.processes p).threads 0).kernelStack ∧
      ∀ j, j ≠ 0 → (proc.threads j).used = false := by
  unfold procFork
  cases hcurrent : procGetCurrent t with
  | none => exact Or.inl ⟨Or.inl rfl, rfl⟩
  | some p =>
      cases hslot : t.freeSlot with
      | none => exact Or.inl ⟨Or.inr rfl, rfl⟩
      | some i =>
          refine Or.inr ⟨p, i, _, _, rfl, rfl, rfl, rfl, rfl, ?_, ?_, ?_, ?_, ?_, ?_⟩
          · simp
          · simp
          · simp
          · simp
          · simp
          · intro j hj
            simp [hj, Thread.zero]

/-- The current process is in use. -/
theorem procGetCurrent_used {p : Fin MAX_PROCESSES} (h : procGetCurrent t = some p) :
    (t.processes p).used = true := by
  rcases Option.bind_eq_some_iff.mp h with ⟨q, -, hfind⟩
  have hused := List.find?_some hfind
  rw [Bool.and_eq_true] at hused
  exact hused.1

end Spec

end OmniOS.Process
