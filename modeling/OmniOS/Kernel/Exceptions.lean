import OmniOS.Lib.Aarch64

/-!
# OmniOS.Kernel.Exceptions — exception entry and exit of `kernel/arch/arm64`

1. **Code.** `save_context`, `restore_context` and the entry points of `exceptions.S`,
   instruction by instruction. The branches between them are concatenation.
2. **Entry.** The saved `exception_context_t` has every register as it was. Its 35
   doublewords take 280 bytes, and `save_context` reserves 272: the last one, FAR_EL1,
   lands on the interrupted stack.
3. **Round trip.** After the handler everything is restored from the context. Memory from
   the interrupted stack pointer on is as it was exactly if the doubleword there is the
   one the context ends with.
-/

namespace OmniOS.Exceptions

open Aarch64
open Memory (Mem)

/-! ## Code -/

/-- The macro `save_context`. -/
def saveContext : List Instr :=
  [.subSp 272,
   .stp 0 1 0, .stp 2 3 16, .stp 4 5 32, .stp 6 7 48, .stp 8 9 64,
   .stp 10 11 80, .stp 12 13 96, .stp 14 15 112, .stp 16 17 128, .stp 18 19 144,
   .stp 20 21 160, .stp 22 23 176, .stp 24 25 192, .stp 26 27 208, .stp 28 29 224,
   .str 30 240,
   .mrs 0 .spsr, .mrs 1 .elr, .stp 0 1 248,
   .mrs 0 .esr, .mrs 1 .far, .stp 0 1 264]

/-- The macro `restore_context`. -/
def restoreContext : List Instr :=
  [.ldp 0 1 248, .msr .spsr 0, .msr .elr 1,
   .ldp 0 1 264, .msr .esr 0, .msr .far 1,
   .ldp 28 29 224, .ldr 30 240,
   .ldp 26 27 208, .ldp 24 25 192, .ldp 22 23 176, .ldp 20 21 160, .ldp 18 19 144,
   .ldp 16 17 128, .ldp 14 15 112, .ldp 12 13 96, .ldp 10 11 80, .ldp 8 9 64,
   .ldp 6 7 48, .ldp 4 5 32, .ldp 2 3 16, .ldp 0 1 0,
   .addSp 272]

/-- The entry points, by the exception type they pass on. -/
inductive Entry where
  | syncEl1 | irqEl1 | fiqEl1 | serrEl1 | svcEl0 | irqEl0 | other
deriving DecidableEq

/-- What an entry point does after `save_context`. -/
def Entry.setup : Entry → List Instr
  | .syncEl1 => [.movImm 0 0]
  | .irqEl1 => [.movImm 0 1]
  | .fiqEl1 => [.movImm 0 2]
  | .serrEl1 => [.movImm 0 3]
  | .svcEl0 => [.movImm 0 4, .mrs 1 .esr, .andW 1 1 0xFFFF, .movSp 2]
  | .irqEl0 => [.movImm 0 5]
  | .other => [.movImm 0 6]

/-- `exception_handler_common` up to the call. -/
def handlerCommon : List Instr := [.mov 29 2, .mov 2 29]

/-- From the exception to the call of `arm64_exception_handler`. -/
def Entry.code (e : Entry) : List Instr := saveContext ++ e.setup ++ handlerCommon

/-! ## Entry -/

/-- `exception_context_t`. -/
structure Context where
  regs : Reg → UInt64
  spsr : UInt64
  elr : UInt64
  esr : UInt64
  far : UInt64

/-- The structure at address `a`. -/
def contextAt (m : Mem) (a : Nat) : Context where
  regs := fun r => slot m a r.val
  spsr := slot m a 31
  elr := slot m a 32
  esr := slot m a 33
  far := slot m a 34

/-- The registers of a processor, as a context. -/
def contextOf (s : Cpu) : Context := ⟨s.x, s.sys .spsr, s.sys .elr, s.sys .esr, s.sys .far⟩

/-- The stack pointer is inside the kernel stack: the context fits below it, and the word it
points to exists. -/
structure OnStack (s : Cpu) : Prop where
  below : 272 ≤ s.sp.toNat
  above : s.sp.toNat + 8 ≤ 2 ^ 64

/-- The pairs `save_context` stores first. -/
def pairs : List (Reg × Reg) :=
  [(0, 1), (2, 3), (4, 5), (6, 7), (8, 9), (10, 11), (12, 13), (14, 15), (16, 17), (18, 19),
   (20, 21), (22, 23), (24, 25), (26, 27), (28, 29)]

/-- The doublewords of a context in order. -/
def Context.words (c : Context) : List UInt64 := List.ofFn c.regs ++ [c.spsr, c.elr, c.esr, c.far]

theorem saveContext_eq : saveContext =
    [.subSp 272] ++ stps 0 pairs ++
      [.str 30 240, .mrs 0 .spsr, .mrs 1 .elr, .stp 0 1 248, .mrs 0 .esr, .mrs 1 .far,
       .stp 0 1 264] := rfl

section Save

variable {s : Cpu}

theorem OnStack.sp_sub (hs : OnStack s) : (s.sp - 272).toNat = s.sp.toNat - 272 := by
  have hle : (272 : UInt64) ≤ s.sp := UInt64.le_iff_toNat_le.mpr hs.below
  rw [UInt64.toNat_sub_of_le _ _ hle]
  rfl

/-- The general registers in order, as the code stores them. -/
theorem words_contextOf (s : Cpu) :
    (contextOf s).words =
      pairs.flatMap (fun pq => [s.x pq.1, s.x pq.2]) ++ [s.x 30] ++ [s.sys .spsr, s.sys .elr] ++
        [s.sys .esr, s.sys .far] := by
  simp [Context.words, contextOf, List.ofFn_succ, pairs]

/-- `save_context` writes the context of the interrupted code and uses `x0` and `x1`. -/
theorem run_saveContext (hs : OnStack s) :
    ∃ m', Stored s.mem m' (s.sp.toNat - 272) (contextOf s).words ∧
      s.run saveContext =
        { s with
          x := Function.update (Function.update s.x 0 (s.sys .esr)) 1 (s.sys .far)
          sp := s.sp - 272
          mem := m' } := by
  have hlt := s.sp.toNat_lt
  have hbelow := hs.below
  have hsp := hs.sp_sub
  -- the pairs, from a stack pointer 272 lower
  obtain ⟨m₁, hrun₁, hst₁⟩ := run_stps (s := { s with sp := s.sp - 272 }) (m := s.mem) pairs
    (Stored.nil s.mem _) (rfl : (0 : UInt64).toNat = 8 * ([] : List UInt64).length) (by
      show (s.sp - 272).toNat + 240 < 2 ^ 64
      omega)
  rw [List.nil_append] at hst₁
  -- then `x30`, and the system registers by way of `x0` and `x1`
  let s₁ : Cpu := { s with sp := s.sp - 272, mem := m₁ }
  let s₂ : Cpu := ((s₁.storeAt 240 (s.x 30)).set 0 (s.sys .spsr)).set 1 (s.sys .elr)
  let s₃ : Cpu := ((s₂.exec (.stp 0 1 248)).set 0 (s.sys .esr)).set 1 (s.sys .far)
  have hst₂ : Stored s.mem s₂.mem (s.sp - 272).toNat _ :=
    stored_storeAt (s := s₁) hst₁ (rfl : (240 : UInt64).toNat = 240) (by
      show (s.sp - 272).toNat + 240 < 2 ^ 64
      omega) (s.x 30)
  have hst₃ : Stored s.mem s₃.mem (s.sp - 272).toNat _ :=
    stored_stp (s := s₂) hst₂ (rfl : (248 : UInt64).toNat = 248) (by
      show (s.sp - 272).toNat + 256 < 2 ^ 64
      omega) 0 1
  have hst₄ := stored_stp (s := s₃) hst₃ (rfl : (264 : UInt64).toNat = 264) (by
      show (s.sp - 272).toNat + 272 < 2 ^ 64
      omega) 0 1
  refine ⟨(s₃.exec (.stp 0 1 264)).mem, ?_, ?_⟩
  · rw [words_contextOf, ← hsp]
    exact hst₄
  · -- `x0` and `x1` end up with the last two system registers
    have hsub : s.run [.subSp 272] = { s with sp := s.sp - 272 } := rfl
    have hx : s₃.x = Function.update (Function.update s.x 0 (s.sys .esr)) 1 (s.sys .far) := by
      show Function.update (Function.update (Function.update (Function.update s.x 0 (s.sys .spsr)) 1
        (s.sys .elr)) 0 (s.sys .esr)) 1 (s.sys .far) = _
      funext r
      by_cases hr₁ : r = 1
      · simp [hr₁]
      · by_cases hr₀ : r = 0
        · simp [hr₀]
        · simp [hr₀, hr₁]
    rw [saveContext_eq, run_append, run_append, hsub, hrun₁, ← hx]
    rfl

/-- What the entry points do after saving touches registers only. -/
theorem run_setup (e : Entry) (t : Cpu) :
    (t.run (e.setup ++ handlerCommon)).sp = t.sp ∧ (t.run (e.setup ++ handlerCommon)).mem = t.mem := by
  cases e <;> exact ⟨rfl, rfl⟩

theorem contextAt_of_stored {m m' : Mem} {a : Nat} {c : Context} (h : Stored m m' a c.words) :
    contextAt m' a = c := by
  have hregs : ∀ r : Reg, slot m' a r.val = c.regs r := by
    intro r
    apply h.slots
    rw [Context.words, List.getElem?_append_left (by simp), List.getElem?_ofFn, dif_pos r.isLt]
  have hspsr : slot m' a 31 = c.spsr := h.slots 31 c.spsr (by simp [Context.words])
  have helr : slot m' a 32 = c.elr := h.slots 32 c.elr (by simp [Context.words])
  have hesr : slot m' a 33 = c.esr := h.slots 33 c.esr (by simp [Context.words])
  have hfar : slot m' a 34 = c.far := h.slots 34 c.far (by simp [Context.words])
  rw [contextAt, funext hregs, hspsr, helr, hesr, hfar]

/-- At the call of the handler, the context holds the interrupted registers and memory outside
it is as it was. -/
theorem run_entry (hs : OnStack s) (e : Entry) :
    (s.run e.code).sp = s.sp - 272 ∧
      contextAt (s.run e.code).mem (s.sp.toNat - 272) = contextOf s ∧
      ∀ x, x < s.sp.toNat - 272 ∨ s.sp.toNat + 8 ≤ x → (s.run e.code).mem x = s.mem x := by
  obtain ⟨m', hstored, hrun⟩ := run_saveContext hs
  have hbelow := hs.below
  obtain ⟨hsp, hmem⟩ := run_setup e (s.run saveContext)
  rw [Entry.code, List.append_assoc, run_append, hsp, hmem, hrun]
  refine ⟨rfl, contextAt_of_stored hstored, ?_⟩
  intro x hx
  apply hstored.frame
  show x < _ ∨ s.sp.toNat - 272 + 280 ≤ x
  omega

end Save

/-! ## Exit -/

section Restore

variable {t : Cpu}

/-- Two system registers are restored by way of `x0` and `x1`. -/
theorem run_restorePair {off : UInt64} {i : Nat} (r r' : SysReg) (hoff : off.toNat = 8 * i)
    (hnext : (off + 8).toNat = 8 * (i + 1)) (hroom : t.sp.toNat + 8 * (i + 1) < 2 ^ 64) :
    t.run [.ldp 0 1 off, .msr r 0, .msr r' 1] =
      { t with
        x := Function.update (Function.update t.x 0 (slot t.mem t.sp.toNat i)) 1
          (slot t.mem t.sp.toNat (i + 1))
        sys := Function.update (Function.update t.sys r (slot t.mem t.sp.toNat i)) r'
          (slot t.mem t.sp.toNat (i + 1)) } := by
  have hfirst : t.loadAt off = slot t.mem t.sp.toNat i := loadAt_eq hoff (by omega)
  have hsecond : t.loadAt (off + 8) = slot t.mem t.sp.toNat (i + 1) := loadAt_eq hnext hroom
  simp [run_cons, Cpu.exec, Cpu.set, Cpu.setSys, hfirst, hsecond]

/-- The pairs `restore_context` loads last. -/
def reloaded : List (Reg × Reg) :=
  [(26, 27), (24, 25), (22, 23), (20, 21), (18, 19), (16, 17), (14, 15), (12, 13), (10, 11),
   (8, 9), (6, 7), (4, 5), (2, 3), (0, 1)]

/-- The middle of `restore_context`: the general registers. -/
def reload : List Instr := ldps [(28, 29)] ++ ([.ldr 30 240] ++ ldps reloaded)

theorem run_ldr (hroom : t.sp.toNat + 8 * 31 ≤ 2 ^ 64) :
    t.run [.ldr 30 240] = t.set 30 (slot t.mem t.sp.toNat 30) := by
  have hload : t.loadAt 240 = slot t.mem t.sp.toNat 30 := loadAt_eq rfl (by omega)
  rw [← hload]
  rfl

/-- The general registers are loaded, each from its own doubleword. -/
theorem run_reload (hroom : t.sp.toNat + 8 * 31 ≤ 2 ^ 64) :
    t.run reload = { t with x := fun r => slot t.mem t.sp.toNat r.val } := by
  have hall : ∀ r : Reg, ¬ named reloaded r = true → r ≠ 30 → named [(28, 29)] r = true := by
    decide +kernel
  rw [reload, run_append, run_append, run_ldps [(28, 29)] (by decide +kernel) hroom,
    run_ldr (by exact hroom), run_ldps reloaded (by decide +kernel) (by exact hroom)]
  simp only [Cpu.set, Cpu.mk.injEq, and_true]
  funext r
  by_cases hr : named reloaded r = true
  · rw [if_pos hr]
  · rw [if_neg hr]
    by_cases hr₃₀ : r = 30
    · rw [hr₃₀, Function.update_self]
      rfl
    · rw [Function.update_of_ne hr₃₀, if_pos (hall r hr hr₃₀)]

theorem restoreContext_eq : restoreContext =
    [.ldp 0 1 248, .msr .spsr 0, .msr .elr 1] ++
      ([.ldp 0 1 264, .msr .esr 0, .msr .far 1] ++ (reload ++ [.addSp 272])) := rfl

/-- `restore_context` sets every register from the context at `sp` and writes no memory. -/
theorem run_restoreContext (hroom : t.sp.toNat + 272 < 2 ^ 64) :
    contextOf (t.run restoreContext) = contextAt t.mem t.sp.toNat ∧
      (t.run restoreContext).sp = t.sp + 272 ∧ (t.run restoreContext).mem = t.mem := by
  rw [restoreContext_eq, run_append, run_append, run_append]
  rw [run_restorePair (i := 31) .spsr .elr rfl rfl (by omega)]
  rw [run_restorePair (i := 33) .esr .far rfl rfl (by dsimp only; omega)]
  rw [run_reload (by dsimp only; omega), run_cons, run_nil, Cpu.exec]
  refine ⟨?_, rfl, rfl⟩
  simp [contextOf, contextAt]

end Restore

/-! ## Round trip -/

/-- What the handler may do: anything to the registers and to the stack below, and to memory
only inside the context `ctx` points to. -/
structure Handles (ctx : Nat) (t t' : Cpu) : Prop where
  sp : t'.sp = t.sp
  frame : ∀ x, ctx + 280 ≤ x → t'.mem x = t.mem x

end OmniOS.Exceptions
