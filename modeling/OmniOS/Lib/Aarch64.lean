import Mathlib.Algebra.GroupWithZero.Nat
import Mathlib.Logic.Function.Basic
import OmniOS.Lib.Memory

/-!
# Aarch64 — straight-line code of AArch64 that saves and restores registers

The instructions an exception entry is written in: loads and stores relative to the stack
pointer, one or two registers at a time, moves, and transfers to and from system
registers. A block of code is a list of instructions.

A structure of doublewords at address `a` is read with `slot`. `Stored` says that memory
has been changed to hold some doublewords from `a` on, and nowhere else; `run_stps` and
`run_ldps` are the rules for runs of pair stores and pair loads.
-/

namespace Aarch64

open Memory

/-- `x0` to `x30`. -/
abbrev Reg := Fin 31

instance neZero_regs : NeZero 31 := ⟨by decide⟩

inductive SysReg where
  | spsr | elr | esr | far
deriving DecidableEq

structure Cpu where
  x : Reg → UInt64
  sp : UInt64
  sys : SysReg → UInt64
  mem : Mem

inductive Instr where
  | subSp (n : UInt64)
  | addSp (n : UInt64)
  | stp (p q : Reg) (off : UInt64)
  | ldp (p q : Reg) (off : UInt64)
  | str (p : Reg) (off : UInt64)
  | ldr (p : Reg) (off : UInt64)
  | mrs (p : Reg) (r : SysReg)
  | msr (r : SysReg) (p : Reg)
  | movImm (p : Reg) (n : UInt64)
  | mov (p q : Reg)
  /-- `mov p, sp`. -/
  | movSp (p : Reg)
  /-- `and` on the 32-bit halves: the upper half of `p` is cleared. -/
  | andW (p q : Reg) (mask : UInt32)

/-- Write a doubleword at `[sp, #off]`. -/
def Cpu.storeAt (s : Cpu) (off v : UInt64) : Cpu :=
  { s with mem := store s.mem 8 (s.sp + off).toNat v.toNat }

/-- The doubleword at `[sp, #off]`. -/
def Cpu.loadAt (s : Cpu) (off : UInt64) : UInt64 := UInt64.ofNat (load s.mem 8 (s.sp + off).toNat)

def Cpu.set (s : Cpu) (p : Reg) (v : UInt64) : Cpu := { s with x := Function.update s.x p v }

def Cpu.setSys (s : Cpu) (r : SysReg) (v : UInt64) : Cpu :=
  { s with sys := Function.update s.sys r v }

def Cpu.exec (s : Cpu) : Instr → Cpu
  | .subSp n => { s with sp := s.sp - n }
  | .addSp n => { s with sp := s.sp + n }
  | .stp p q off => (s.storeAt off (s.x p)).storeAt (off + 8) (s.x q)
  | .ldp p q off => (s.set p (s.loadAt off)).set q (s.loadAt (off + 8))
  | .str p off => s.storeAt off (s.x p)
  | .ldr p off => s.set p (s.loadAt off)
  | .mrs p r => s.set p (s.sys r)
  | .msr r p => s.setSys r (s.x p)
  | .movImm p n => s.set p n
  | .mov p q => s.set p (s.x q)
  | .movSp p => s.set p s.sp
  | .andW p q mask => s.set p ((s.x q).toUInt32 &&& mask).toUInt64

def Cpu.run (s : Cpu) (code : List Instr) : Cpu := code.foldl Cpu.exec s

@[simp] theorem run_nil (s : Cpu) : s.run [] = s := rfl

theorem run_cons (s : Cpu) (i : Instr) (code : List Instr) :
    s.run (i :: code) = (s.exec i).run code := rfl

theorem run_append (s : Cpu) (code code' : List Instr) :
    s.run (code ++ code') = (s.run code).run code' := List.foldl_append

/-! ## Doublewords -/

/-- Doubleword `i` of the structure at address `a`. -/
def slot (m : Mem) (a i : Nat) : UInt64 := UInt64.ofNat (load m 8 (a + 8 * i))

theorem slot_store_self (m : Mem) (a i : Nat) (v : UInt64) :
    slot (store m 8 (a + 8 * i) v.toNat) a i = v := by
  rw [slot, load_store_self m v.toNat_lt, UInt64.ofNat_toNat]

theorem slot_store_ne (m : Mem) {a i j : Nat} (v : UInt64) (h : i ≠ j) :
    slot (store m 8 (a + 8 * j) v.toNat) a i = slot m a i := by
  rw [slot, slot, load_store_of_disjoint m (by omega)]

/-- `m'` is `m` with the doublewords `vs` written from `a` on. -/
structure Stored (m m' : Mem) (a : Nat) (vs : List UInt64) : Prop where
  slots : ∀ i v, vs[i]? = some v → slot m' a i = v
  frame : ∀ x, x < a ∨ a + 8 * vs.length ≤ x → m' x = m x

theorem Stored.nil (m : Mem) (a : Nat) : Stored m m a [] := by
  constructor
  · intro i v hv
    cases hv
  · intro x _
    rfl

theorem Stored.snoc {m m' : Mem} {a : Nat} {vs : List UInt64} (h : Stored m m' a vs) (v : UInt64) :
    Stored m (store m' 8 (a + 8 * vs.length) v.toNat) a (vs ++ [v]) := by
  constructor
  · intro i w hw
    by_cases hi : i = vs.length
    · subst hi
      rw [List.getElem?_concat_length] at hw
      cases hw
      exact slot_store_self m' a vs.length v
    · have hlt : i < vs.length := by
        obtain ⟨hlt, -⟩ := List.getElem?_eq_some_iff.mp hw
        rw [List.length_append, List.length_singleton] at hlt
        omega
      rw [List.getElem?_append_left hlt] at hw
      rw [slot_store_ne m' v hi]
      exact h.slots i w hw
  · intro x hx
    rw [List.length_append, List.length_singleton] at hx
    rw [store_apply_of_notMem m' (by omega)]
    exact h.frame x (by omega)

/-! ## Runs of stores -/

section Stores

variable {s : Cpu} {m : Mem} {vs : List UInt64} {off : UInt64}

theorem addr_toNat {i : Nat} (hoff : off.toNat = 8 * i) (hroom : s.sp.toNat + 8 * i < 2 ^ 64) :
    (s.sp + off).toNat = s.sp.toNat + 8 * i := by
  rw [UInt64.toNat_add, hoff, Nat.mod_eq_of_lt hroom]

theorem stored_storeAt (h : Stored m s.mem s.sp.toNat vs) (hoff : off.toNat = 8 * vs.length)
    (hroom : s.sp.toNat + 8 * vs.length < 2 ^ 64) (v : UInt64) :
    Stored m (s.storeAt off v).mem s.sp.toNat (vs ++ [v]) := by
  rw [Cpu.storeAt, addr_toNat hoff hroom]
  exact h.snoc v

theorem stored_stp (h : Stored m s.mem s.sp.toNat vs) (hoff : off.toNat = 8 * vs.length)
    (hroom : s.sp.toNat + 8 * (vs.length + 1) < 2 ^ 64) (p q : Reg) :
    Stored m (s.exec (.stp p q off)).mem s.sp.toNat (vs ++ [s.x p, s.x q]) := by
  have hnext : (off + 8).toNat = 8 * (vs ++ [s.x p]).length := by
    have height : (8 : UInt64).toNat = 8 := rfl
    rw [UInt64.toNat_add, hoff, height, List.length_append, List.length_singleton]
    omega
  have hfirst := stored_storeAt h hoff (by omega) (s.x p)
  have hsecond := stored_storeAt (s := s.storeAt off (s.x p)) hfirst hnext
    (by rw [List.length_append, List.length_singleton]; exact hroom) (s.x q)
  rw [List.append_assoc] at hsecond
  exact hsecond

/-- Pair stores one after the other, from offset `off` on. -/
def stps : (off : UInt64) → List (Reg × Reg) → List Instr
  | _, [] => []
  | off, (p, q) :: ps => .stp p q off :: stps (off + 16) ps

theorem run_stps (ps : List (Reg × Reg)) (h : Stored m s.mem s.sp.toNat vs)
    (hoff : off.toNat = 8 * vs.length)
    (hroom : s.sp.toNat + 8 * (vs.length + 2 * ps.length) < 2 ^ 64) :
    ∃ m', s.run (stps off ps) = { s with mem := m' } ∧
      Stored m m' s.sp.toNat (vs ++ ps.flatMap fun pq => [s.x pq.1, s.x pq.2]) := by
  induction ps generalizing s vs off with
  | nil =>
      refine ⟨s.mem, rfl, ?_⟩
      rw [List.flatMap_nil, List.append_nil]
      exact h
  | cons pq ps ih =>
      obtain ⟨p, q⟩ := pq
      rw [List.length_cons] at hroom
      have hnext : (off + 16).toNat = 8 * (vs ++ [s.x p, s.x q]).length := by
        have hsixteen : (16 : UInt64).toNat = 16 := rfl
        rw [UInt64.toNat_add, hoff, hsixteen, List.length_append, List.length_cons,
          List.length_singleton]
        omega
      have hstp := stored_stp h hoff (by omega) p q
      obtain ⟨m', hrun, hstored⟩ := ih (s := s.exec (.stp p q off)) hstp hnext (by
        show s.sp.toNat + _ < _
        rw [List.length_append, List.length_cons, List.length_singleton]
        omega)
      refine ⟨m', ?_, ?_⟩
      · rw [stps, run_cons, hrun]
        rfl
      · rw [List.flatMap_cons, ← List.append_assoc]
        exact hstored

end Stores

/-! ## Runs of loads -/

section Loads

variable {s : Cpu}

theorem loadAt_eq {off : UInt64} {i : Nat} (hoff : off.toNat = 8 * i)
    (hroom : s.sp.toNat + 8 * i < 2 ^ 64) : s.loadAt off = slot s.mem s.sp.toNat i := by
  rw [Cpu.loadAt, addr_toNat hoff hroom, slot]

/-- Each register's own doubleword of the structure at `sp`, pair by pair. -/
def ldps (ps : List (Reg × Reg)) : List Instr :=
  ps.map fun pq => .ldp pq.1 pq.2 (UInt64.ofNat (8 * pq.1.val))

theorem exec_ldp {p q : Reg} (hpq : q.val = p.val + 1) (hroom : s.sp.toNat + 8 * 31 ≤ 2 ^ 64) :
    s.exec (.ldp p q (UInt64.ofNat (8 * p.val))) =
      (s.set p (slot s.mem s.sp.toNat p.val)).set q (slot s.mem s.sp.toNat q.val) := by
  have hp := p.isLt
  have hq := q.isLt
  have hoff : (UInt64.ofNat (8 * p.val)).toNat = 8 * p.val := by
    rw [UInt64.toNat_ofNat']
    omega
  have hnext : (UInt64.ofNat (8 * p.val) + 8).toNat = 8 * q.val := by
    have height : (8 : UInt64).toNat = 8 := rfl
    rw [UInt64.toNat_add, hoff, height]
    omega
  rw [Cpu.exec, loadAt_eq hoff (by omega), loadAt_eq hnext (by omega)]

/-- The register is one of the pairs'. -/
def named (ps : List (Reg × Reg)) (r : Reg) : Bool := ps.any fun pq => r == pq.1 || r == pq.2

theorem named_cons (p q : Reg) (ps : List (Reg × Reg)) (r : Reg) :
    named ((p, q) :: ps) r = ((r == p || r == q) || named ps r) :=
  List.any_cons

theorem run_ldps (ps : List (Reg × Reg)) (hpairs : ∀ pq ∈ ps, pq.2.val = pq.1.val + 1)
    (hroom : s.sp.toNat + 8 * 31 ≤ 2 ^ 64) :
    s.run (ldps ps) =
      { s with x := fun r => if named ps r then slot s.mem s.sp.toNat r.val else s.x r } := by
  induction ps generalizing s with
  | nil => simp [ldps, named]
  | cons pq ps ih =>
      obtain ⟨p, q⟩ := pq
      have hfirst := exec_ldp (s := s) (hpairs (p, q) List.mem_cons_self) hroom
      have hrest := ih (s := (s.set p (slot s.mem s.sp.toNat p.val)).set q
        (slot s.mem s.sp.toNat q.val))
        (fun pq hpq => hpairs pq (List.mem_cons_of_mem _ hpq)) hroom
      rw [ldps, List.map_cons, run_cons, hfirst, ← ldps, hrest]
      -- a register outside the rest has its pair's value or its old one
      simp only [Cpu.set, Cpu.mk.injEq, and_true, named_cons]
      funext r
      by_cases hr : named ps r = true
      · simp [hr]
      · by_cases hrq : r = q
        · subst hrq
          simp [hr]
        · by_cases hrp : r = p
          · subst hrp
            simp [hr, hrq]
          · simp [hr, hrp, hrq]

end Loads

end Aarch64
