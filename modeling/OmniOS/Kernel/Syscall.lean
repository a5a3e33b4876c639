import OmniOS.Kernel.Exceptions

/-!
# OmniOS.Kernel.Syscall — a system call from `svc` to `syscall_dispatch` and back

Four pieces of code hand a system call on: the stubs of `userspace/init/init.c`, the
vector code of `exceptions.S`, `arm64_exception_handler` and `syscall_dispatch`.

1. **Model.** The vector code is that of `OmniOS.Kernel.Exceptions`. The handler works on
   the saved context in memory. A function of the table may not return (`none`).
2. **The path.** Whatever the dispatcher does, it is called with the low 16 bits of the
   syndrome as the number and with `x0` to `x5`, and its result is the user's `x0`.
3. **The convention.** The stubs put the number in `x8` and execute `svc #0`, so the number
   that arrives is 0.
-/

namespace OmniOS.Syscall

open Aarch64 Exceptions
open Memory (Mem)

/-! ## Model -/

def SYSCALL_MAX : UInt32 := 64

/-- The functions in `_syscall_table`. -/
inductive SyscallFn where
  | sysExit | sysWrite | sysRead | sysOpen | sysClose | sysSleep | sysGetpid
  | sysFork | sysExecve | sysBrk | sysYield | sysGettime | sysPoweroff | sysReboot
deriving DecidableEq

/-- `_syscall_table`; `none` is NULL. -/
def syscallTable : Nat → Option SyscallFn
  | 1 => some .sysExit
  | 2 => some .sysWrite
  | 3 => some .sysRead
  | 4 => some .sysOpen
  | 5 => some .sysClose
  | 6 => some .sysSleep
  | 7 => some .sysGetpid
  | 8 => some .sysFork
  | 9 => some .sysExecve
  | 10 => some .sysBrk
  | 11 => some .sysYield
  | 12 => some .sysGettime
  | 13 => some .sysPoweroff
  | 14 => some .sysReboot
  | _ => none

/-- `arg0` to `arg5`. -/
abbrev Args := Fin 6 → UInt64

theorem six_le : 6 ≤ 31 := by decide

/-- What a program has in `x0` to `x5`. -/
def userArgs (s : Cpu) : Args := fun i => s.x (i.castLE six_le)

section Model

variable {σ : Type}

/-- A dispatcher over a kernel state; `none` if the call does not return. -/
abbrev Dispatch (σ : Type) := UInt32 → Args → σ → Option (UInt64 × σ)

/-- `fns` are the functions behind the table. -/
def syscallDispatch (fns : SyscallFn → Args → σ → Option (UInt64 × σ)) : Dispatch σ :=
  fun num args st =>
    if SYSCALL_MAX ≤ num then some (-1, st)
    else
      match syscallTable num.toNat with
      | none => some (-1, st)
      | some fn => fns fn args st

def EXC_IRQ_EL1 : UInt32 := 1
def EXC_SVC_EL0 : UInt32 := 4
def EXC_IRQ_EL0 : UInt32 := 5

/-- The handler, on memory `m` with the context at `ctx`. The messages are left out. -/
def arm64ExceptionHandler (dispatch : Dispatch σ) (schedTick : σ → σ) (type esr : UInt32)
    (ctx : Nat) (m : Mem) (st : σ) : Option (Mem × σ) :=
  if type = EXC_SVC_EL0 then
    let syscallNum := esr &&& 0xFFFF
    (dispatch syscallNum (fun i => slot m ctx i.val) st).map fun result =>
      -- ctx->regs[0] is the first doubleword
      (Memory.store m 8 (ctx + 8 * 0) result.1.toNat, result.2)
  else if type = EXC_IRQ_EL1 ∨ type = EXC_IRQ_EL0 then some (m, schedTick st)
  else some (m, st)

/-- From the `svc` to the return: the entry code, the handler with its arguments in `x0`, `x1`
and `x2`, and `restore_context`. `clobbered` is what the handler leaves in the registers. -/
def svcPath (dispatch : Dispatch σ) (schedTick : σ → σ) (clobbered : Reg → UInt64) (s : Cpu)
    (st : σ) : Option (Cpu × σ) :=
  let t := s.run (Entry.code .svcEl0)
  (arm64ExceptionHandler dispatch schedTick (t.x 0).toUInt32 (t.x 1).toUInt32 (t.x 2).toNat
    t.mem st).map fun result =>
      (({ t with x := clobbered, mem := result.1 } : Cpu).run restoreContext, result.2)

end Model

/-! ## The path -/

section Path

variable {σ : Type} {s : Cpu}

/-- The arguments of the handler, as the entry code for `svc` leaves them. -/
theorem svc_registers (hs : OnStack s) :
    (s.run (Entry.code .svcEl0)).x 0 = 4 ∧
      (s.run (Entry.code .svcEl0)).x 1 = ((s.sys .esr).toUInt32 &&& 0xFFFF).toUInt64 ∧
      (s.run (Entry.code .svcEl0)).x 2 = s.sp - 272 := by
  obtain ⟨m', -, hrun⟩ := run_saveContext hs
  rw [Entry.code, List.append_assoc, run_append, hrun]
  simp [Entry.setup, handlerCommon, run_cons, Cpu.exec, Cpu.set]

/-- The user finds in `x0` what the context begins with. -/
theorem restore_first {t : Cpu} (hroom : t.sp.toNat + 272 < 2 ^ 64) :
    (t.run restoreContext).x 0 = slot t.mem t.sp.toNat 0 := by
  obtain ⟨hcontext, -, -⟩ := run_restoreContext hroom
  generalize t.run restoreContext = u at hcontext
  exact congrFun (congrArg Context.regs hcontext) 0

/-- The dispatcher is called once, with the low bits of the syndrome and `x0` to `x5`, and its
result is found in `x0`. -/
theorem svcPath_eq (hs : OnStack s) (dispatch : Dispatch σ) (schedTick : σ → σ)
    (clobbered : Reg → UInt64) (st : σ) :
    (svcPath dispatch schedTick clobbered s st).map (fun r => (r.1.x 0, r.2)) =
      dispatch ((s.sys .esr).toUInt32 &&& 0xFFFF) (userArgs s) st := by
  obtain ⟨hx₀, hx₁, hx₂⟩ := svc_registers hs
  obtain ⟨hsp, hsaved, -⟩ := run_entry hs .svcEl0
  have hbelow := hs.below
  have hlt := s.sp.toNat_lt
  unfold svcPath
  dsimp only
  generalize s.run (Entry.code .svcEl0) = t at hx₀ hx₁ hx₂ hsp hsaved
  have htype : (t.x 0).toUInt32 = EXC_SVC_EL0 := by
    rw [hx₀]
    rfl
  have hnum : (t.x 1).toUInt32 &&& 0xFFFF = (s.sys .esr).toUInt32 &&& 0xFFFF := by
    rw [hx₁, UInt32.toUInt32_toUInt64, UInt32.and_assoc, UInt32.and_self]
  have hctx : (t.x 2).toNat = t.sp.toNat := by
    rw [hx₂, hsp]
  have hspnat : t.sp.toNat = s.sp.toNat - 272 := by
    rw [hsp, hs.sp_sub]
  -- the arguments are read from the saved context, which starts with `x0`
  have hargs : (fun i : Fin 6 => slot t.mem t.sp.toNat i.val) = userArgs s := by
    rw [← hspnat] at hsaved
    funext i
    exact congrFun (congrArg Context.regs hsaved) (i.castLE six_le)
  rw [arm64ExceptionHandler, if_pos htype, hnum, hctx, hargs, Option.map_map, Option.map_map]
  -- what is left of the path only carries the result to `x0`
  have hresult : ∀ result : UInt64 × σ,
      (({ t with
          x := clobbered
          mem := Memory.store t.mem 8 (t.sp.toNat + 8 * 0) result.1.toNat } : Cpu).run
        restoreContext).x 0 = result.1 := by
    intro result
    rw [restore_first (by dsimp only; omega)]
    exact slot_store_self t.mem t.sp.toNat 0 result.1
  simp only [Function.comp_def, hresult]
  exact Option.map_id'

end Path

/-! ## The convention -/

/-- ESR_EL1 after `svc #imm` in 64-bit code: exception class 0x15, a 32-bit instruction, and
the immediate. -/
def svcSyndrome (imm : UInt16) : UInt64 := 0x56000000 ||| imm.toUInt64

/-- The exception is the one of a stub of `init.c` for system call `n`. -/
structure Issued (n : UInt32) (s : Cpu) : Prop where
  number : s.x 8 = n.toUInt64
  syndrome : s.sys .esr = svcSyndrome 0
  stack : OnStack s

/-- The path of the system call is a call of the dispatcher with `n` and `x0` to `x5`, whatever
the dispatcher is, with its result in `x0` after the return. -/
def Agrees (n : UInt32) (s : Cpu) : Prop :=
  ∀ (σ : Type) (dispatch : Dispatch σ) (schedTick : σ → σ) (clobbered : Reg → UInt64) (st : σ),
    (svcPath dispatch schedTick clobbered s st).map (fun r => (r.1.x 0, r.2)) =
      dispatch n (userArgs s) st

/-- The kernel takes the number from the immediate, which the stubs leave 0. It is the user's
number exactly if that is 0. For every number the dispatcher answers -1 and the kernel is left
as it was. -/
theorem syscall_agrees_iff {n : UInt32} {s : Cpu} (h : Issued n s) :
    (Agrees n s ↔ n = 0) ∧
    ∀ (σ : Type) (fns : SyscallFn → Args → σ → Option (UInt64 × σ)) (schedTick : σ → σ)
      (clobbered : Reg → UInt64) (st : σ),
      (svcPath (syscallDispatch fns) schedTick clobbered s st).map (fun r => (r.1.x 0, r.2)) =
        some (-1, st) := by
  have hnum : (s.sys .esr).toUInt32 &&& 0xFFFF = 0 := by
    rw [h.syndrome]
    rfl
  refine ⟨?_, ?_⟩
  · constructor
    · intro hagrees
      -- a dispatcher that returns the number it is given
      have hecho := hagrees Unit (fun num _ st => some (num.toUInt64, st)) id s.x ()
      rw [svcPath_eq h.stack, hnum, Option.some.injEq, Prod.mk.injEq] at hecho
      have hn : n.toUInt64 = (0 : UInt32).toUInt64 := hecho.1.symm
      have hback := congrArg UInt64.toUInt32 hn
      rwa [UInt32.toUInt32_toUInt64, UInt32.toUInt32_toUInt64] at hback
    · intro hn σ dispatch schedTick clobbered st
      rw [svcPath_eq h.stack, hnum, hn]
  · intro σ fns schedTick clobbered st
    rw [svcPath_eq h.stack, hnum]
    rfl

/-- A program about to make system call `n`. -/
def caller (n : UInt32) : Cpu where
  x := fun r => if r = 8 then n.toUInt64 else 0
  sp := 0x8000
  sys := fun _ => svcSyndrome 0
  mem := fun _ => 0

theorem caller_issued (n : UInt32) : Issued n (caller n) := by
  constructor
  · rfl
  · rfl
  · constructor
    · show 272 ≤ (0x8000 : UInt64).toNat
      decide
    · show (0x8000 : UInt64).toNat + 8 ≤ 2 ^ 64
      decide

/-- Number 0, which no function of the table has. -/
theorem syscall_zero_agrees : Issued 0 (caller 0) ∧ Agrees 0 (caller 0) :=
  ⟨caller_issued 0, (syscall_agrees_iff (caller_issued 0)).1.mpr rfl⟩

/-- `sys_getpid` does not get through. -/
theorem getpid_not_dispatched : Issued 7 (caller 7) ∧ ¬ Agrees 7 (caller 7) := by
  refine ⟨caller_issued 7, ?_⟩
  intro hagrees
  have hecho := hagrees Unit (fun num _ st => some (num.toUInt64, st)) id (fun _ => 0) ()
  rw [svcPath_eq (caller_issued 7).stack] at hecho
  exact absurd hecho (by decide)

end OmniOS.Syscall
