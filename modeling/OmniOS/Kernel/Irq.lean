import OmniOS.Lib.IoApic
import OmniOS.Lib.LocalApic
import OmniOS.Lib.Lts
import OmniOS.Lib.Pic8259

/-!
# OmniOS.Kernel.Irq — interrupt routing on x86_64 (`interrupts.c`, and `apic.c` in part)

A device reaches the processor on two ways: through the two 8259A chips, whose output is
an external interrupt of the local APIC (LINT0), and through the I/O APIC, which sends a
vector to the local APIC. `irq_register` opens both for a line below 16, under the same
vector 32 + line. `irq_dispatch` is called with the vector of an interrupt and tells the two
ways apart by it.

1. **Model.** The code with the chips it programs. The processor takes interrupts one at a
   time, since the gates of the kernel are interrupt gates; handlers are addresses and do not
   touch the controllers. The stub between gate and `irq_dispatch` is not in the sources: it
   is taken to pass the vector on.
2. **Service.** `irq_dispatch` takes every vector from 32 to 47 for one of the chips and gives
   its end of interrupt to them. When the vector came through the I/O APIC, the local APIC
   keeps it in service, and with it its whole priority, which is all sixteen vectors. So only
   one such interrupt is ever taken. The task priority stays 0 after `apic_init`, so there are
   no spurious interrupts.
-/

namespace OmniOS.Irq

open Lts Pic8259

/-! ## Model -/

def IRQ_BASE : UInt8 := 0x20
def IOAPIC_ID : UInt8 := 0x00
def IOAPIC_VER : UInt8 := 0x01
def IOAPIC_REDIR_TBL : UInt32 := 0x10
def LAPIC_LVT_MASKED : UInt32 := (1 : UInt32) <<< 16
def LAPIC_LVT_LINT0 : UInt32 := 0x350
def LAPIC_SPURIOUS_ENABLE : UInt32 := (1 : UInt32) <<< 8
def LAPIC_SPURIOUS_FOCUS : UInt32 := (1 : UInt32) <<< 9

/-- The variables of `interrupts.c` and the controllers. A handler is an address. -/
structure State (Handler : Type) where
  irqHandlers : UInt8 → Option Handler
  irqCounts : UInt8 → UInt64
  pic : Pair
  ioapic : IoApic.Device
  lapic : LocalApic.Apic
  /-- The other registers of the local APIC. -/
  lapicRegs : UInt32 → UInt32

variable {Handler : Type}

/-! ### The I/O APIC -/

def ioapicRead (d : IoApic.Device) (reg : UInt8) : UInt32 × IoApic.Device :=
  let d := d.store .select reg.toUInt32
  (d.load .window, d)

def ioapicWrite (d : IoApic.Device) (reg : UInt8) (val : UInt32) : IoApic.Device :=
  (d.store .select reg.toUInt32).store .window val

/-- The loop of `ioapic_init`, one turn for each pin up to the last one. -/
def maskLoop (d : IoApic.Device) (pins : List Nat) : IoApic.Device :=
  pins.foldl (fun d i =>
    let idx := IOAPIC_REDIR_TBL + UInt32.ofNat i * 2
    ioapicWrite (ioapicWrite d idx.toUInt8 ((1 : UInt32) <<< 16)) (idx + 1).toUInt8 0) d

def ioapicInit (d : IoApic.Device) : IoApic.Device :=
  let (_, d) := ioapicRead d IOAPIC_ID
  let (ver, d) := ioapicRead d IOAPIC_VER
  let maxRedir := (ver >>> 16) &&& 0xFF
  maskLoop d (List.range (maxRedir.toNat + 1))

def ioapicRedirectIrq (d : IoApic.Device) (irq vector : UInt8) (apicId : UInt32) :
    IoApic.Device :=
  let idx := IOAPIC_REDIR_TBL + irq.toUInt32 * 2
  let low := vector.toUInt32 ||| (apicId <<< 0)
  let high := apicId <<< 24
  ioapicWrite (ioapicWrite d idx.toUInt8 low) (idx + 1).toUInt8 high

/-! ### The local APIC -/

def lapicWrite (s : State Handler) (reg val : UInt32) : State Handler :=
  { s with lapicRegs := Function.update s.lapicRegs reg val }

/-- `apic_init`, without the measurement of the timer's frequency. -/
def apicInit (x2apicMode : Bool) (s : State Handler) : State Handler :=
  let s := lapicWrite s 0x0F0 (0xFF ||| LAPIC_SPURIOUS_ENABLE ||| LAPIC_SPURIOUS_FOCUS)
  let s := lapicWrite s 0x080 0
  let s := lapicWrite s 0x280 0
  let s :=
    if !x2apicMode then
      lapicWrite (lapicWrite s LAPIC_LVT_LINT0 LAPIC_LVT_MASKED) 0x360 LAPIC_LVT_MASKED
    else s
  let s := lapicWrite s 0x370 0x37
  let s := lapicWrite s 0x3E0 3
  let s := lapicWrite s 0x380 0xFFFFFFFF
  lapicWrite s 0x320 LAPIC_LVT_MASKED

def apicEoi (s : State Handler) : State Handler := { s with lapic := s.lapic.eoi }

/-! ### `interrupts.c` -/

def outb (s : State Handler) (port : UInt16) (v : UInt8) : State Handler :=
  { s with pic := s.pic.outb port v }

/-- The last write goes to port 0x80, which is `io_wait`. -/
def picRemap (s : State Handler) : State Handler :=
  let s := outb (outb s 0x20 0x11) 0xA0 0x11
  let s := outb (outb s 0x21 0x20) 0xA1 0x28
  let s := outb (outb s 0x21 0x04) 0xA1 0x02
  let s := outb (outb s 0x21 0x01) 0xA1 0x01
  let s := outb (outb s 0x21 0xFF) 0xA1 0xFF
  outb s 0x80 0

def irqInit (s : State Handler) : State Handler :=
  picRemap { s with irqHandlers := fun _ => none, irqCounts := fun _ => 0 }

def irqEndOfInterrupt (s : State Handler) (irq : UInt8) : State Handler :=
  outb (if 8 ≤ irq then outb s 0xA0 0x20 else s) 0x20 0x20

/-- The handler that is called, with its argument, and the state afterwards. -/
def irqDispatch (s : State Handler) (vec : UInt8) : Option (Handler × UInt8) × State Handler :=
  let s := { s with irqCounts := Function.update s.irqCounts vec (s.irqCounts vec + 1) }
  if IRQ_BASE ≤ vec ∧ vec < IRQ_BASE + 16 then
    ((s.irqHandlers (vec - IRQ_BASE)).map fun h => (h, vec - IRQ_BASE),
      irqEndOfInterrupt s (vec - IRQ_BASE))
  else ((s.irqHandlers vec).map fun h => (h, vec), apicEoi s)

/-- A bit of the mask of the chip that has the line. -/
def setMask (s : State Handler) (irq : UInt8) (f : UInt8 → UInt8 → UInt8) : State Handler :=
  if irq < 8 then outb s 0x21 (f (s.pic.inb 0x21) (1 <<< irq))
  else outb s 0xA1 (f (s.pic.inb 0xA1) (1 <<< (irq - 8)))

/-- The test against `IRQ_MAX`, which no 8-bit number fails, is left out here and below. -/
def irqRegister (s : State Handler) (irq : UInt8) (handler : Option Handler) : State Handler :=
  let s := { s with irqHandlers := Function.update s.irqHandlers irq handler }
  if irq < 16 then
    let s := setMask s irq fun mask bit => mask &&& ~~~bit
    { s with ioapic := ioapicRedirectIrq s.ioapic irq (IRQ_BASE + irq) 0 }
  else s

def irqUnregister (s : State Handler) (irq : UInt8) : State Handler :=
  let s := { s with irqHandlers := Function.update s.irqHandlers irq none }
  if irq < 16 then setMask s irq fun mask bit => mask ||| bit else s

/-! ### Interrupts -/

/-- As `kmain` calls them. -/
def boot (x2apicMode : Bool) (s : State Handler) : State Handler :=
  let s := apicInit x2apicMode (irqInit s)
  { s with ioapic := ioapicInit s.ioapic }

/-- LINT0 passes the external interrupt on. -/
def Lint0Open (s : State Handler) : Prop :=
  s.lapicRegs LAPIC_LVT_LINT0 &&& LAPIC_LVT_MASKED = 0 ∧
    (s.lapicRegs LAPIC_LVT_LINT0 >>> 8) &&& 7 = 7

inductive Event (Handler : Type) where
  | register (irq : UInt8) (handler : Option Handler)
  | unregister (irq : UInt8)
  /-- A device asks for service on a line of the chips. -/
  | request (line : Line)
  /-- A device asserts a pin of the I/O APIC. -/
  | assert (pin : Fin 120)
  /-- The timer or another source of the local APIC, or another processor. -/
  | locally (vec : UInt8)
  /-- The processor takes the interrupt of the chips. -/
  | takePic (line : Line)
  /-- The processor takes an interrupt of the local APIC. -/
  | takeApic (vec : UInt8)

/-- The processor's APIC id is 0, as `irq_register` has it. -/
def deliver (s : State Handler) (pin : Fin 120) : State Handler :=
  match s.ioapic.assert pin with
  | some (vec, 0) => { s with lapic := s.lapic.request vec }
  | _ => s

def Next : Event Handler → State Handler → State Handler → Prop
  | .register irq handler, s, s' => s' = irqRegister s irq handler
  | .unregister irq, s, s' => s' = irqUnregister s irq
  | .request line, s, s' => s' = { s with pic := s.pic.request line }
  | .assert pin, s, s' => s' = deliver s pin
  | .locally vec, s, s' => s' = { s with lapic := s.lapic.request vec }
  | .takePic line, s, s' => Lint0Open s ∧ s.pic.offer = some line ∧
      s' = (irqDispatch { s with pic := s.pic.accept line } (s.pic.vector line)).2
  | .takeApic vec, s, s' => s.lapic.offer = some vec ∧
      s' = (irqDispatch { s with lapic := s.lapic.accept vec } vec).2

/-- The pins of the usual I/O APIC. -/
theorem lastPin_lt : 23 < 120 := by decide

/-- The controllers out of reset. -/
def reset : State Handler where
  irqHandlers := fun _ => none
  irqCounts := fun _ => 0
  pic :=
    let chip : Chip := ⟨.mask, false, false, 0, 0, 0, 0, fun _ => false, fun _ => false⟩
    ⟨chip, chip⟩
  ioapic := ⟨0, 0, ⟨23, lastPin_lt⟩, fun _ => ⟨(1 : UInt32) <<< 16, 0⟩⟩
  lapic := ⟨fun _ => false, fun _ => false⟩
  lapicRegs := Function.update (fun _ => 0) LAPIC_LVT_LINT0 LAPIC_LVT_MASKED

def system (Handler : Type) (Init : State Handler → Prop) :
    System (State Handler) (Event Handler) := ⟨Init, Next⟩

/-! ## What the mask and the end of interrupt leave alone -/

section Frame

variable (s : State Handler) (irq vec : UInt8) (f : UInt8 → UInt8 → UInt8)

@[simp] theorem setMask_lapic : (setMask s irq f).lapic = s.lapic := by
  unfold setMask
  split <;> rfl

@[simp] theorem setMask_lapicRegs : (setMask s irq f).lapicRegs = s.lapicRegs := by
  unfold setMask
  split <;> rfl

@[simp] theorem irqEndOfInterrupt_lapic : (irqEndOfInterrupt s irq).lapic = s.lapic := by
  unfold irqEndOfInterrupt
  split <;> rfl

@[simp] theorem irqEndOfInterrupt_lapicRegs :
    (irqEndOfInterrupt s irq).lapicRegs = s.lapicRegs := by
  unfold irqEndOfInterrupt
  split <;> rfl

@[simp] theorem irqDispatch_lapicRegs : (irqDispatch s vec).2.lapicRegs = s.lapicRegs := by
  unfold irqDispatch
  split
  · exact irqEndOfInterrupt_lapicRegs _ _
  · rfl

@[simp] theorem irqRegister_lapic (handler : Option Handler) :
    (irqRegister s irq handler).lapic = s.lapic := by
  unfold irqRegister
  split
  · exact setMask_lapic _ _ _
  · rfl

@[simp] theorem irqRegister_lapicRegs (handler : Option Handler) :
    (irqRegister s irq handler).lapicRegs = s.lapicRegs := by
  unfold irqRegister
  split
  · exact setMask_lapicRegs _ _ _
  · rfl

@[simp] theorem irqUnregister_lapic : (irqUnregister s irq).lapic = s.lapic := by
  unfold irqUnregister
  split
  · exact setMask_lapic _ _ _
  · rfl

@[simp] theorem irqUnregister_lapicRegs : (irqUnregister s irq).lapicRegs = s.lapicRegs := by
  unfold irqUnregister
  split
  · exact setMask_lapicRegs _ _ _
  · rfl

end Frame

/-! ## Service -/

/-- The vectors of the lines below 16. -/
def LineVector (vec : UInt8) : Prop := IRQ_BASE ≤ vec ∧ vec < IRQ_BASE + 16

instance (vec : UInt8) : Decidable (LineVector vec) := inferInstanceAs (Decidable (_ ∧ _))

/-- The processor takes an interrupt of a line below 16. -/
def servesLine : Event Handler → Bool
  | .takePic _ => true
  | .takeApic vec => LineVector vec
  | _ => false

theorem priority_lineVector {vec : UInt8} (h : LineVector vec) : LocalApic.priority vec = 2 := by
  obtain ⟨hge, hlt⟩ := h
  have hge : 32 ≤ vec.toNat := UInt8.le_iff_toNat_le.mp hge
  have hlt : vec.toNat < 48 := UInt8.lt_iff_toNat_lt.mp hlt
  unfold LocalApic.priority
  omega

/-- The chips are cut off, and after the first interrupt of a line the local APIC keeps its
vector in service. -/
structure Held (events : List (Event Handler)) (s : State Handler) : Prop where
  lint0 : ¬Lint0Open s
  once : events.countP servesLine ≤ 1
  isr : 0 < events.countP servesLine → ∃ vec, LineVector vec ∧ s.lapic.isr vec = true

section Runs

variable {s s' : State Handler} {events : List (Event Handler)} {e : Event Handler}

/-- A step that serves no line and ends no service. -/
theorem Held.same (h : Held events s) (hregs : s'.lapicRegs = s.lapicRegs)
    (hisr : s'.lapic.isr = s.lapic.isr) (he : servesLine e = false) :
    Held (events ++ [e]) s' where
  lint0 := by
    unfold Lint0Open
    rw [hregs]
    exact h.lint0
  once := by
    rw [List.countP_append, List.countP_singleton, he]
    exact h.once
  isr := by
    rw [List.countP_append, List.countP_singleton, he, hisr]
    exact h.isr

theorem isr_request (a : LocalApic.Apic) (vec : UInt8) : (a.request vec).isr = a.isr := by
  unfold LocalApic.Apic.request
  split <;> rfl

theorem irqDispatch_lapic (s : State Handler) (vec : UInt8) : (irqDispatch s vec).2.lapic =
    if LineVector vec then s.lapic else s.lapic.eoi := by
  unfold irqDispatch
  by_cases hvec : IRQ_BASE ≤ vec ∧ vec < IRQ_BASE + 16
  · rw [if_pos hvec, if_pos (show LineVector vec from hvec)]
    exact irqEndOfInterrupt_lapic _ _
  · rw [if_neg hvec, if_neg (show ¬LineVector vec from hvec)]
    simp only [apicEoi]

theorem Held.takeApic (h : Held events s) {vec : UInt8} (hoffer : s.lapic.offer = some vec) :
    Held (events ++ [.takeApic vec])
      (irqDispatch { s with lapic := s.lapic.accept vec } vec).2 := by
  have hregs := irqDispatch_lapicRegs { s with lapic := s.lapic.accept vec } vec
  have hlapic := irqDispatch_lapic { s with lapic := s.lapic.accept vec } vec
  by_cases hvec : LineVector vec
  · -- a line was served before: its vector would be in service and keep this one out
    have hnone : events.countP servesLine = 0 := by
      by_contra hne
      obtain ⟨u, hu, hisr⟩ := h.isr (Nat.pos_of_ne_zero hne)
      refine LocalApic.offer_ne_of_isr hisr ?_ hoffer
      rw [priority_lineVector hu, priority_lineVector hvec]
    refine ⟨?_, ?_, ?_⟩
    · unfold Lint0Open
      rw [hregs]
      exact h.lint0
    · rw [List.countP_append, List.countP_singleton, hnone]
      split <;> omega
    · -- the EOI goes to the chips, so the vector stays in service
      intro _
      refine ⟨vec, hvec, ?_⟩
      rw [hlapic, if_pos hvec]
      exact Function.update_self _ _ _
  · -- other vectors are acknowledged at the local APIC
    refine h.same hregs ?_ (decide_eq_false hvec)
    rw [hlapic, if_neg hvec]
    exact LocalApic.isr_eoi_accept hoffer

theorem Held.step (h : Held events s) (hnext : Next e s s') : Held (events ++ [e]) s' := by
  cases e with
  | register irq handler =>
      subst hnext
      exact h.same (irqRegister_lapicRegs s irq handler)
        (congrArg _ (irqRegister_lapic s irq handler)) rfl
  | unregister irq =>
      subst hnext
      exact h.same (irqUnregister_lapicRegs s irq) (congrArg _ (irqUnregister_lapic s irq)) rfl
  | request line =>
      subst hnext
      exact h.same rfl rfl rfl
  | assert pin =>
      subst hnext
      unfold deliver
      split
      · exact h.same rfl (isr_request _ _) rfl
      · exact h.same rfl rfl rfl
  | locally vec =>
      subst hnext
      exact h.same rfl (isr_request _ _) rfl
  | takePic line =>
      -- LINT0 is closed
      exact absurd hnext.1 h.lint0
  | takeApic vec =>
      obtain ⟨hoffer, rfl⟩ := hnext
      exact h.takeApic hoffer

end Runs

/-- `apic_init` closes LINT0, in x2APIC mode only if it was closed before. -/
theorem boot_lint0 {x2apicMode : Bool} {s₀ : State Handler}
    (hlint0 : x2apicMode = false ∨ ¬Lint0Open s₀) : ¬Lint0Open (boot x2apicMode s₀) := by
  cases x2apicMode with
  | false =>
      rintro ⟨hmasked, -⟩
      have hregs : (boot false s₀).lapicRegs LAPIC_LVT_LINT0 = LAPIC_LVT_MASKED := rfl
      rw [hregs] at hmasked
      exact absurd hmasked (by decide)
  | true =>
      have hregs : (boot true s₀).lapicRegs LAPIC_LVT_LINT0 = s₀.lapicRegs LAPIC_LVT_LINT0 := rfl
      unfold Lint0Open
      rw [hregs]
      exact hlint0.resolve_left (by decide)

/-- In every run at most one interrupt of all the lines below 16 is taken. -/
theorem lines_served_once {x2apicMode : Bool} {s₀ s : State Handler}
    {events : List (Event Handler)} (hlint0 : x2apicMode = false ∨ ¬Lint0Open s₀)
    (hrun : Run (system Handler fun _ => True) (boot x2apicMode s₀) events s) :
    events.countP servesLine ≤ 1 := by
  have hheld : Held events s := by
    induction hrun with
    | nil => exact ⟨boot_lint0 hlint0, Nat.zero_le _, fun hpos => absurd hpos (Nat.lt_irrefl 0)⟩
    | snoc _ hnext ih => exact ih.step hnext
  exact hheld.once

theorem timerPin_lt : 0 < 120 := by decide

/-- The pin of the timer. -/
def timerPin : Fin 120 := ⟨0, timerPin_lt⟩

/-- A tick of the timer is taken through the I/O APIC. -/
def tickEvents : List (Event Unit) :=
  [.register 0 (some ()), .assert timerPin, .takeApic 32]

def tickRegistered : State Unit := irqRegister (boot false reset) 0 (some ())

def tickAsserted : State Unit :=
  { tickRegistered with lapic := tickRegistered.lapic.request 32 }

def tickState : State Unit :=
  (irqDispatch { tickAsserted with lapic := tickAsserted.lapic.accept 32 } 32).2

theorem tick_run :
    Run (system Unit fun _ => True) (boot false reset) tickEvents tickState := by
  have hassert : tickRegistered.ioapic.assert timerPin = some (32, 0) := by
    decide +kernel
  have hoffer : tickAsserted.lapic.offer = some 32 := by decide +kernel
  have hregistered : Next (.register 0 (some ())) (boot false reset) tickRegistered := rfl
  have hasserted : Next (.assert timerPin) tickRegistered tickAsserted := by
    show tickAsserted = deliver tickRegistered timerPin
    rw [deliver, hassert]
    rfl
  have htaken : Next (.takeApic 32) tickAsserted tickState := ⟨hoffer, rfl⟩
  exact ((Run.nil.snoc hregistered).snoc hasserted).snoc htaken

theorem tick_served_once :
    Run (system Unit fun _ => True) (boot false reset) tickEvents tickState ∧
      tickEvents.countP servesLine ≤ 1 :=
  ⟨tick_run, lines_served_once (Or.inl rfl) tick_run⟩

end OmniOS.Irq
