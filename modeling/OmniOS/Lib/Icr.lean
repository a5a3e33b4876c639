import Mathlib.Data.UInt

/-!
# Icr — the interrupt command register of a local APIC

A write to the register sends an interrupt to other processors. In xAPIC mode it is two words,
of which the lower one sends, with a destination of 8 bits; in x2APIC mode it is one register
of 64 bits with a destination of 32 bits. The lower word is the same in both.

1. **Commands.** The fields of a command, and which processors it reaches (`Command.reaches`).
   A destination of ones is all processors. Logical destinations are not described: here they
   reach nobody.
2. **Processors.** An application processor waits until a STARTUP message gives it the page
   at which it starts, and INIT makes it wait again. A command with a vector leaves that
   alone (`Core.receive_fixed`).
-/

namespace Icr

/-! ## Commands -/

inductive DeliveryMode where
  | fixed | lowest | smi | reserved | nmi | init | startup | external
deriving DecidableEq

def DeliveryMode.ofBits (b : UInt32) : DeliveryMode :=
  match b.toNat with
  | 0 => .fixed
  | 1 => .lowest
  | 2 => .smi
  | 3 => .reserved
  | 4 => .nmi
  | 5 => .init
  | 6 => .startup
  | _ => .external

inductive Shorthand where
  | none | self | all | others
deriving DecidableEq

def Shorthand.ofBits (b : UInt32) : Shorthand :=
  match b.toNat with
  | 0 => .none
  | 1 => .self
  | 2 => .all
  | _ => .others

structure Command where
  vector : UInt8
  mode : DeliveryMode
  logical : Bool
  shorthand : Shorthand
  destination : UInt32
deriving DecidableEq

namespace Command

/-- The lower word of a command, with a destination. -/
def ofLow (low destination : UInt32) : Command where
  vector := low.toUInt8
  mode := .ofBits ((low >>> 8) &&& 7)
  logical := (low >>> 11) &&& 1 != 0
  shorthand := .ofBits ((low >>> 18) &&& 3)
  destination

/-- The two words of xAPIC mode. -/
def ofWords (high low : UInt32) : Command := ofLow low (high >>> 24)

/-- The register of x2APIC mode. -/
def ofWide (v : UInt64) : Command := ofLow v.toUInt32 (v >>> 32).toUInt32

/-- The destination that is everyone. -/
def broadcast (x2apic : Bool) : UInt32 := if x2apic then 0xFFFFFFFF else 0xFF

/-- The processor `id` gets the command that `sender` sends. -/
def reaches (c : Command) (x2apic : Bool) (sender id : UInt32) : Bool :=
  match c.shorthand with
  | .none => !c.logical && (c.destination == id || c.destination == broadcast x2apic)
  | .self => id == sender
  | .all => true
  | .others => id != sender

theorem reaches_destination (v : UInt8) (mode : DeliveryMode) (destination : UInt32)
    (x2apic : Bool) (sender id : UInt32) :
    (⟨v, mode, false, .none, destination⟩ : Command).reaches x2apic sender id = true ↔
      id = destination ∨ destination = broadcast x2apic := by
  show (!false && (destination == id || destination == broadcast x2apic)) = true ↔ _
  rw [Bool.not_false, Bool.true_and, Bool.or_eq_true, beq_iff_eq, beq_iff_eq]
  exact or_congr_left eq_comm

theorem ofLow_destination (low destination : UInt32) :
    ofLow low destination = { ofLow low 0 with destination } := rfl

/-- A vector with a shorthand and nothing else is a fixed interrupt. -/
theorem ofLow_shorthand (b : Fin 4) (v : UInt8) (destination : UInt32) :
    ofLow ((UInt32.ofNat b.val <<< 18) ||| v.toUInt32) destination =
      ⟨v, .fixed, false, .ofBits (UInt32.ofNat b.val), destination⟩ := by
  have hall : ∀ (b : Fin 4) (v : Fin 256),
      ofLow ((UInt32.ofNat b.val <<< 18) ||| (UInt8.ofFin v).toUInt32) 0 =
        ⟨UInt8.ofFin v, .fixed, false, .ofBits (UInt32.ofNat b.val), 0⟩ := by
    decide +kernel
  rw [ofLow_destination]
  exact congrArg (fun c : Command => { c with destination }) (hall b v.toFin)

theorem ofLow_vector (v : UInt8) (destination : UInt32) :
    ofLow v.toUInt32 destination = ⟨v, .fixed, false, .none, destination⟩ := by
  have hlow : ((0 : UInt32) <<< 18) ||| v.toUInt32 = v.toUInt32 := UInt32.zero_or
  rw [← hlow]
  exact ofLow_shorthand ⟨0, by decide⟩ v destination

theorem ofWords_eq (high low : UInt32) : ofWords high low = ofLow low (high >>> 24) := rfl

/-- The halves of a command of x2APIC mode. -/
theorem ofWide_or (high : UInt32) (low : UInt8) :
    ofWide ((high.toUInt64 <<< 32) ||| low.toUInt64) = ofLow low.toUInt32 high := by
  have hlow : ((high.toUInt64 <<< 32) ||| low.toUInt64).toUInt32 = low.toUInt32 := by
    apply UInt32.toBitVec_inj.mp
    ext i hi
    simp
  have hhigh : (((high.toUInt64 <<< 32) ||| low.toUInt64) >>> 32).toUInt32 = high := by
    apply UInt32.toBitVec_inj.mp
    ext i hi
    have hlt : 32 + i < 64 := by omega
    have hbyte : low.toBitVec.getLsbD (32 + i) = false := BitVec.getLsbD_of_ge _ _ (by omega)
    have hi' : i < 64 := by omega
    simp [hlt, hbyte, hi', BitVec.getLsbD_eq_getElem hi]
  rw [ofWide, hlow, hhigh]

end Command

/-! ## Processors -/

inductive Core where
  | waiting
  /-- Started at this page. -/
  | running (page : UInt8)
deriving DecidableEq

/-- What a command does to a processor that gets it. -/
def Core.receive (core : Core) (c : Command) : Core :=
  match c.mode with
  | .init => .waiting
  | .startup =>
      match core with
      | .waiting => .running c.vector
      | .running page => .running page
  | _ => core

theorem Core.receive_fixed (core : Core) {c : Command} (h : c.mode = .fixed) :
    core.receive c = core := by
  unfold receive
  rw [h]

end Icr
