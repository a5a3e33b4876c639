import Mathlib.Logic.Function.Basic
import OmniOS.Lib.Memory

/-!
# X86 — straight-line stack code of x86_64

The instructions that save and restore registers on the stack. A block of such code is a
list of instructions; only `ret` says where execution goes on, so `rip` is not advanced
in between.

The live part of a stack is a list of words, the top first (`Words`). Pushes put words in
front of it and leave memory above the stack pointer alone (`Pushed`); `run_pushes` and
`run_pops` are the two rules for lists of registers.
-/

namespace X86

open Memory

inductive Reg where
  | rax | rbx | rcx | rdx | rsi | rdi | rbp
  | r8 | r9 | r10 | r11 | r12 | r13 | r14 | r15
deriving DecidableEq

structure Regs where
  gpr : Reg → UInt64
  rflags : UInt64
  rsp : UInt64
  rip : UInt64

structure Cpu extends Regs where
  mem : Mem

inductive Instr where
  | pushq (r : Reg)
  | pushfq
  | popq (r : Reg)
  | popfq
  /-- Store of the stack pointer: `movq %rsp, 0(base)`. -/
  | storeRsp (base : Reg)
  /-- Load of the stack pointer: `movq 0(base), %rsp`. -/
  | loadRsp (base : Reg)
  | ret

/-- The 64-bit word at address `a`. -/
def word (m : Mem) (a : Nat) : UInt64 := UInt64.ofNat (load m 8 a)

def Cpu.push (s : Cpu) (v : UInt64) : Cpu :=
  { s with rsp := s.rsp - 8, mem := store s.mem 8 (s.rsp - 8).toNat v.toNat }

/-- The word on top of the stack. -/
def Cpu.top (s : Cpu) : UInt64 := word s.mem s.rsp.toNat

def Cpu.exec (s : Cpu) : Instr → Cpu
  | .pushq r => s.push (s.gpr r)
  | .pushfq => s.push s.rflags
  | .popq r => { s with gpr := Function.update s.gpr r s.top, rsp := s.rsp + 8 }
  | .popfq => { s with rflags := s.top, rsp := s.rsp + 8 }
  | .storeRsp base => { s with mem := store s.mem 8 (s.gpr base).toNat s.rsp.toNat }
  | .loadRsp base => { s with rsp := word s.mem (s.gpr base).toNat }
  | .ret => { s with rip := s.top, rsp := s.rsp + 8 }

def Cpu.run (s : Cpu) (code : List Instr) : Cpu := code.foldl Cpu.exec s

theorem run_nil (s : Cpu) : s.run [] = s := rfl

theorem run_cons (s : Cpu) (i : Instr) (code : List Instr) :
    s.run (i :: code) = (s.exec i).run code := rfl

theorem run_append (s : Cpu) (code code' : List Instr) :
    s.run (code ++ code') = (s.run code).run code' := List.foldl_append

/-! ## Words -/

theorem word_store_self (m : Mem) (a : Nat) (v : UInt64) : word (store m 8 a v.toNat) a = v := by
  rw [word, load_store_self m v.toNat_lt, UInt64.ofNat_toNat]

theorem word_congr {m m' : Mem} {a : Nat} (h : ∀ x, a ≤ x → x < a + 8 → m x = m' x) :
    word m a = word m' a := by
  rw [word, word, load_congr h]

/-- The words from address `a` on are `vs`. -/
def Words (m : Mem) : Nat → List UInt64 → Prop
  | _, [] => True
  | a, v :: vs => word m a = v ∧ Words m (a + 8) vs

/-- Write the words `vs` from address `a` on. -/
def storeWords (m : Mem) (a : Nat) : List UInt64 → Mem
  | [] => m
  | v :: vs => store (storeWords m (a + 8) vs) 8 a v.toNat

theorem Words.congr {m m' : Mem} {a : Nat} {vs : List UInt64} (h : Words m a vs)
    (heq : ∀ x, a ≤ x → x < a + 8 * vs.length → m' x = m x) : Words m' a vs := by
  induction vs generalizing a with
  | nil => trivial
  | cons v vs ih =>
      rw [List.length_cons] at heq
      refine ⟨?_, ih h.2 fun x hx hx' => heq x (by omega) (by omega)⟩
      rw [← h.1]
      exact word_congr fun x hx hx' => heq x hx (by omega)

theorem Words.cons {m : Mem} {a : Nat} {vs : List UInt64} (h : Words m (a + 8) vs) (v : UInt64) :
    Words (store m 8 a v.toNat) a (v :: vs) := by
  refine ⟨word_store_self m a v, h.congr ?_⟩
  intro x hx _
  exact store_apply_of_notMem m (Or.inr hx)

theorem words_storeWords (m : Mem) (a : Nat) (vs : List UInt64) :
    Words (storeWords m a vs) a vs := by
  induction vs generalizing a with
  | nil => trivial
  | cons v vs ih => exact (ih (a + 8)).cons v

theorem words_append {m : Mem} {a : Nat} {us vs : List UInt64} :
    Words m a (us ++ vs) ↔ Words m a us ∧ Words m (a + 8 * us.length) vs := by
  induction us generalizing a with
  | nil => simp [Words]
  | cons u us ih =>
      have haddr : a + 8 + 8 * us.length = a + 8 * (us.length + 1) := by omega
      simp only [List.cons_append, Words, ih, List.length_cons, haddr, and_assoc]

/-! ## Pushes -/

/-- `s'` is `s` with the words `vs` pushed, the last pushed first. -/
structure Pushed (s s' : Cpu) (vs : List UInt64) : Prop where
  gpr : s'.gpr = s.gpr
  rflags : s'.rflags = s.rflags
  rsp : s'.rsp.toNat + 8 * vs.length = s.rsp.toNat
  words : Words s'.mem s'.rsp.toNat vs
  frame : ∀ x, x < s'.rsp.toNat ∨ s.rsp.toNat ≤ x → s'.mem x = s.mem x

section Pushes

variable {s s' s'' : Cpu} {us vs : List UInt64}

theorem Pushed.refl (s : Cpu) : Pushed s s [] := ⟨rfl, rfl, rfl, trivial, fun _ _ => rfl⟩

theorem Pushed.trans (h : Pushed s s' vs) (h' : Pushed s' s'' us) :
    Pushed s s'' (us ++ vs) := by
  have hrsp := h.rsp
  have hrsp' := h'.rsp
  constructor
  · exact h'.gpr.trans h.gpr
  · exact h'.rflags.trans h.rflags
  · rw [List.length_append]
    omega
  · rw [words_append, hrsp']
    refine ⟨h'.words, h.words.congr ?_⟩
    intro x hx _
    exact h'.frame x (Or.inr hx)
  · intro x hx
    rw [h'.frame x (by omega), h.frame x (by omega)]

theorem pushed_push (v : UInt64) (hroom : 8 ≤ s.rsp.toNat) : Pushed s (s.push v) [v] := by
  have height : (8 : UInt64).toNat = 8 := rfl
  have hle : (8 : UInt64) ≤ s.rsp := UInt64.le_iff_toNat_le.mpr hroom
  have hrsp : (s.rsp - 8).toNat = s.rsp.toNat - 8 := by
    rw [UInt64.toNat_sub_of_le _ _ hle, height]
  constructor
  · rfl
  · rfl
  · show (s.rsp - 8).toNat + 8 = s.rsp.toNat
    omega
  · exact ⟨word_store_self _ _ v, trivial⟩
  · intro x hx
    refine store_apply_of_notMem _ ?_
    rcases hx with hx | hx
    · exact Or.inl hx
    · exact Or.inr (by omega)

/-- Registers are pushed one after the other. -/
theorem run_pushes (rs : List Reg) (s : Cpu) (hroom : 8 * rs.length ≤ s.rsp.toNat) :
    Pushed s (s.run (rs.map .pushq)) (rs.reverse.map s.gpr) := by
  induction rs generalizing s with
  | nil => exact Pushed.refl s
  | cons r rs ih =>
      rw [List.length_cons] at hroom
      have hfirst : Pushed s (s.exec (.pushq r)) [s.gpr r] := pushed_push _ (by omega)
      have hrsp := hfirst.rsp
      rw [List.length_singleton] at hrsp
      have hrest := ih (s.exec (.pushq r)) (by omega)
      rw [hfirst.gpr] at hrest
      rw [List.reverse_cons, List.map_append]
      exact hfirst.trans hrest

end Pushes

/-! ## Pops -/

/-- Popping registers moves the stack pointer, whatever is on the stack. -/
theorem run_pops_rsp (rs : List Reg) (s : Cpu) :
    (s.run (rs.map .popq)).rsp = s.rsp + UInt64.ofNat (8 * rs.length) := by
  induction rs generalizing s with
  | nil => exact (UInt64.add_zero s.rsp).symm
  | cons r rs ih =>
      have hcount : 8 * (rs.length + 1) = 8 + 8 * rs.length := by omega
      show ((s.exec (.popq r)).run (rs.map .popq)).rsp = _
      rw [ih, List.length_cons, hcount, UInt64.ofNat_add, ← UInt64.add_assoc]
      rfl

/-- Registers popped off their own values get them. -/
theorem run_pops (f : Reg → UInt64) (rs : List Reg) (s : Cpu)
    (hend : s.rsp.toNat + 8 * rs.length < 2 ^ 64) (h : Words s.mem s.rsp.toNat (rs.map f)) :
    (s.run (rs.map .popq)).gpr = (fun r => if r ∈ rs then f r else s.gpr r) ∧
    (s.run (rs.map .popq)).rflags = s.rflags ∧ (s.run (rs.map .popq)).mem = s.mem := by
  induction rs generalizing s with
  | nil => exact ⟨by simp [Cpu.run], rfl, rfl⟩
  | cons r rs ih =>
      rw [List.length_cons] at hend
      have height : (8 : UInt64).toNat = 8 := rfl
      have hrsp : (s.exec (.popq r)).rsp.toNat = s.rsp.toNat + 8 := by
        show (s.rsp + 8).toNat = _
        rw [UInt64.toNat_add, height]
        omega
      rcases ih (s.exec (.popq r)) (by omega) (hrsp ▸ h.2) with ⟨hgpr, hflags, hmem⟩
      refine ⟨?_, hflags, hmem⟩
      refine hgpr.trans (funext fun q => ?_)
      have htop : s.top = f r := h.1
      by_cases hq : q ∈ rs
      · simp [hq]
      · by_cases hqr : q = r
        · simp [Cpu.exec, hqr, htop]
        · simp [Cpu.exec, hq, hqr]

end X86
