import OmniOS.Kernel.Smp
import OmniOS.Lib.Icr

/-!
# OmniOS.Kernel.Ipi — interrupts between processors (`apic.c`, `smp.c`)

1. **Model.** The functions that write the interrupt command register, with the processors
   that get the command. The register is always ready again, so the wait for it is left out,
   and so is the copy of the trampoline. `kmain` calls `smp_init` before `apic_init`, when
   `lapic_base` is still null and the writes go to memory.
2. **Start.** `smp_boot_aps` means to send INIT and STARTUP, but passes a plain vector. No
   processor is started, by this function or by any other of the two files.
3. **Receivers.** `smp_send_ipi` reads the id from `cpu_index_map`. An entry that was never
   filed is -1, and as a destination that is everyone. In x2APIC mode the shorthands are
   shifted a second time and end up in the destination.
-/

namespace OmniOS.Ipi

open Icr
open Sched (Cpu MAX_CPUS)

/-! ## Model -/

def LAPIC_ICR_ALL_EXCL_SELF : UInt32 := (3 : UInt32) <<< 18
def LAPIC_ICR_ALL : UInt32 := (2 : UInt32) <<< 18
def AP_TRAMPOLINE_ADDR : Nat := 0x8000
def PAGE_SIZE : Nat := 4096

/-- The sending processor, and all processors by their ids. -/
structure State where
  x2apicMode : Bool
  /-- `lapic_base` is the local APIC. Before `apic_init` it is null. -/
  mapped : Bool
  self : UInt32
  icrHigh : UInt32
  cores : UInt32 → Core
  /-- The commands sent so far. -/
  sent : List Command

/-- A command goes to the processors it reaches. -/
def send (s : State) (c : Command) : State :=
  { s with
    cores := fun id =>
      if c.reaches s.x2apicMode s.self id then (s.cores id).receive c else s.cores id
    sent := s.sent ++ [c] }

/-- `write_msr(MSR_X2APIC_ICR, val)`. -/
def writeIcr (s : State) (val : UInt64) : State := send s (.ofWide val)

/-- `lapic_write` to the two words of the register. With a null base they are plain memory. -/
def writeIcrHigh (s : State) (val : UInt32) : State :=
  if s.mapped then { s with icrHigh := val } else s

def writeIcrLow (s : State) (val : UInt32) : State :=
  if s.mapped then send s (.ofWords s.icrHigh val) else s

/-- `apic_init` chooses the mode by bit 10 of `MSR_APIC_BASE`. -/
def apicInit (s : State) (x2apic : Bool) : State :=
  if x2apic then { s with x2apicMode := true } else { s with mapped := true }

def apicSendIpi (s : State) (apicId : UInt32) (vector : UInt8) : State :=
  if s.x2apicMode then writeIcr s ((apicId.toUInt64 <<< 32) ||| vector.toUInt64)
  else writeIcrLow (writeIcrHigh s (apicId <<< 24)) vector.toUInt32

/-- The body `apic_send_ipi_all` and `apic_send_ipi_all_except_self` share. -/
def sendShorthand (s : State) (shorthand : UInt32) (vector : UInt8) : State :=
  if s.x2apicMode then writeIcr s ((shorthand.toUInt64 <<< 18) ||| vector.toUInt64)
  else writeIcrLow (writeIcrHigh s 0) (shorthand ||| vector.toUInt32)

def apicSendIpiAll (s : State) (vector : UInt8) : State := sendShorthand s LAPIC_ICR_ALL vector

def apicSendIpiAllExceptSelf (s : State) (vector : UInt8) : State :=
  sendShorthand s LAPIC_ICR_ALL_EXCL_SELF vector

/-- The wait of `smp_boot_aps`, with what `ap_ready_count` reads in each turn. -/
def waitLoop (s : State) : List Nat → State
  | [] => s
  | ready :: rest =>
      if MAX_CPUS - 1 ≤ ready then s
      else waitLoop (apicSendIpiAll s (UInt8.ofNat (AP_TRAMPOLINE_ADDR / PAGE_SIZE))) rest

def smpBootAps (s : State) (trampSize : Nat) (ready : Fin 100 → Nat) : State :=
  if 0x1000 < trampSize then s
  else
    let s := apicSendIpiAll s 0
    let s := apicSendIpiAll s (UInt8.ofNat (AP_TRAMPOLINE_ADDR / PAGE_SIZE))
    waitLoop s (List.ofFn ready)

def smpSendIpi (cpuIndexMap : Cpu → Int32) (s : State) (cpu : UInt32) (vector : UInt8) : State :=
  if h : cpu.toNat < MAX_CPUS then apicSendIpi s (cpuIndexMap ⟨cpu.toNat, h⟩).toUInt32 vector
  else s

def smpSendBroadcast (s : State) (vector : UInt8) : State := apicSendIpiAllExceptSelf s vector

/-! ## Start -/

/-- The command of a function that sends one. -/
structure Sends (s s' : State) (c : Command) : Prop where
  eq : s'.sent = s.sent ++ [c]
  cores : s'.cores = (send s c).cores
  x2apicMode : s'.x2apicMode = s.x2apicMode
  self : s'.self = s.self

theorem writeIcr_sends (s : State) (val : UInt64) : Sends s (writeIcr s val) (.ofWide val) :=
  ⟨rfl, rfl, rfl, rfl⟩

theorem writeIcrLow_sends {s : State} (hmapped : s.mapped = true) (high low : UInt32) :
    Sends s (writeIcrLow (writeIcrHigh s high) low) (.ofLow low (high >>> 24)) := by
  unfold writeIcrLow writeIcrHigh
  rw [if_pos hmapped, if_pos hmapped]
  exact ⟨rfl, rfl, rfl, rfl⟩

/-- Nothing happens before `apic_init`. -/
theorem writeIcrLow_unmapped {s : State} (hmapped : s.mapped = false) (high low : UInt32) :
    writeIcrLow (writeIcrHigh s high) low = s := by
  unfold writeIcrLow writeIcrHigh
  simp [hmapped]

/-- The register can be written. -/
def State.Up (s : State) : Prop := s.x2apicMode = false → s.mapped = true

theorem apicSendIpi_sends {s : State} (hup : s.Up) (apicId : UInt32) (vector : UInt8) :
    Sends s (apicSendIpi s apicId vector)
      ⟨vector, .fixed, false, .none,
        if s.x2apicMode then apicId else apicId <<< 24 >>> 24⟩ := by
  unfold apicSendIpi
  cases hmode : s.x2apicMode with
  | true =>
      rw [if_pos rfl, if_pos rfl, ← Command.ofLow_vector, ← Command.ofWide_or]
      exact writeIcr_sends s _
  | false =>
      rw [if_neg Bool.false_ne_true, if_neg Bool.false_ne_true, ← Command.ofLow_vector]
      exact writeIcrLow_sends (hup hmode) _ _

/-- In x2APIC mode the shorthand is part of the destination. -/
theorem sendShorthand_sends {s : State} (hup : s.Up) (b : Fin 4) (vector : UInt8) :
    Sends s (sendShorthand s (UInt32.ofNat b.val <<< 18) vector)
      (if s.x2apicMode then ⟨vector, .fixed, false, .none, UInt32.ofNat b.val <<< 4⟩
        else ⟨vector, .fixed, false, .ofBits (UInt32.ofNat b.val), 0⟩) := by
  have hshift : ∀ b : Fin 4, (UInt32.ofNat b.val <<< 18).toUInt64 <<< 18 =
      (UInt32.ofNat b.val <<< 4).toUInt64 <<< 32 := by
    decide
  unfold sendShorthand
  cases hmode : s.x2apicMode with
  | true =>
      rw [if_pos rfl, if_pos rfl, hshift, ← Command.ofLow_vector, ← Command.ofWide_or]
      exact writeIcr_sends s _
  | false =>
      rw [if_neg Bool.false_ne_true, if_neg Bool.false_ne_true, ← Command.ofLow_shorthand]
      exact writeIcrLow_sends (hup hmode) 0 _

/-- The functions of the two files that send. -/
inductive Call where
  | apicInit (x2apic : Bool)
  | sendIpi (apicId : UInt32) (vector : UInt8)
  | sendIpiAll (vector : UInt8)
  | sendIpiAllExceptSelf (vector : UInt8)
  | bootAps (trampSize : Nat) (ready : Fin 100 → Nat)
  | smpSendIpi (cpuIndexMap : Cpu → Int32) (cpu : UInt32) (vector : UInt8)
  | smpSendBroadcast (vector : UInt8)

def exec (s : State) : Call → State
  | .apicInit x2apic => Ipi.apicInit s x2apic
  | .sendIpi apicId vector => apicSendIpi s apicId vector
  | .sendIpiAll vector => apicSendIpiAll s vector
  | .sendIpiAllExceptSelf vector => apicSendIpiAllExceptSelf s vector
  | .bootAps trampSize ready => smpBootAps s trampSize ready
  | .smpSendIpi cpuIndexMap cpu vector => Ipi.smpSendIpi cpuIndexMap s cpu vector
  | .smpSendBroadcast vector => Ipi.smpSendBroadcast s vector

/-- No processor is started or stopped, and what is sent is plain vectors. -/
structure Plain (s s' : State) : Prop where
  cores : s'.cores = s.cores
  sent : ∃ cs : List Command, s'.sent = s.sent ++ cs ∧ ∀ c ∈ cs, c.mode = .fixed

namespace Plain

variable {s s' s'' : State}

theorem none : Plain s s :=
  ⟨rfl, [], (List.append_nil _).symm, fun _ hc => absurd hc List.not_mem_nil⟩

theorem trans (h : Plain s s') (h' : Plain s' s'') : Plain s s'' := by
  obtain ⟨cs, hcs, hfixed⟩ := h.sent
  obtain ⟨cs', hcs', hfixed'⟩ := h'.sent
  refine ⟨h'.cores.trans h.cores, cs ++ cs', ?_, ?_⟩
  · rw [hcs', hcs, List.append_assoc]
  · intro c hc
    rcases List.mem_append.mp hc with hc | hc
    · exact hfixed c hc
    · exact hfixed' c hc

theorem of_sends {c : Command} (h : Sends s s' c) (hc : c.mode = .fixed) : Plain s s' where
  cores := by
    rw [h.cores]
    funext id
    show (if _ then (s.cores id).receive c else s.cores id) = s.cores id
    rw [Core.receive_fixed _ hc, ite_self]
  sent := ⟨[c], h.eq, fun d hd => by rw [List.mem_singleton.mp hd, hc]⟩

end Plain

theorem up_or_null (s : State) : s.Up ∨ s.x2apicMode = false ∧ s.mapped = false := by
  unfold State.Up
  cases s.x2apicMode <;> cases s.mapped <;> simp

theorem apicSendIpi_plain (s : State) (apicId : UInt32) (vector : UInt8) :
    Plain s (apicSendIpi s apicId vector) := by
  rcases up_or_null s with hup | ⟨hmode, hmapped⟩
  · exact .of_sends (apicSendIpi_sends hup apicId vector) rfl
  · rw [apicSendIpi, hmode, if_neg Bool.false_ne_true, writeIcrLow_unmapped hmapped]
    exact .none

theorem sendShorthand_plain (s : State) (b : Fin 4) (vector : UInt8) :
    Plain s (sendShorthand s (UInt32.ofNat b.val <<< 18) vector) := by
  rcases up_or_null s with hup | ⟨hmode, hmapped⟩
  · refine .of_sends (sendShorthand_sends hup b vector) ?_
    split <;> rfl
  · rw [sendShorthand, hmode, if_neg Bool.false_ne_true, writeIcrLow_unmapped hmapped]
    exact .none

theorem apicSendIpiAll_plain (s : State) (vector : UInt8) : Plain s (apicSendIpiAll s vector) :=
  sendShorthand_plain s ⟨2, by decide⟩ vector

theorem apicSendIpiAllExceptSelf_plain (s : State) (vector : UInt8) :
    Plain s (apicSendIpiAllExceptSelf s vector) :=
  sendShorthand_plain s ⟨3, by decide⟩ vector

theorem waitLoop_plain (s : State) (ready : List Nat) : Plain s (waitLoop s ready) := by
  induction ready generalizing s with
  | nil => exact .none
  | cons count rest ih =>
      unfold waitLoop
      split
      · exact .none
      · exact (apicSendIpiAll_plain s _).trans (ih _)

theorem exec_plain (s : State) (call : Call) : Plain s (exec s call) := by
  cases call with
  | apicInit x2apic =>
      have hnone : Plain s s := .none
      cases x2apic with
      | false => exact ⟨rfl, hnone.sent⟩
      | true => exact ⟨rfl, hnone.sent⟩
  | sendIpi apicId vector => exact apicSendIpi_plain s apicId vector
  | sendIpiAll vector => exact apicSendIpiAll_plain s vector
  | sendIpiAllExceptSelf vector => exact apicSendIpiAllExceptSelf_plain s vector
  | bootAps trampSize ready =>
      -- what is meant as INIT and STARTUP has delivery mode 0
      show Plain s (smpBootAps s trampSize ready)
      unfold smpBootAps
      split
      · exact .none
      · exact ((apicSendIpiAll_plain s 0).trans (apicSendIpiAll_plain _ _)).trans
          (waitLoop_plain _ _)
  | smpSendIpi cpuIndexMap cpu vector =>
      show Plain s (Ipi.smpSendIpi cpuIndexMap s cpu vector)
      unfold Ipi.smpSendIpi
      split
      · exact apicSendIpi_plain s _ vector
      · exact .none
  | smpSendBroadcast vector => exact apicSendIpiAllExceptSelf_plain s vector

/-- Whatever is called, no processor ever starts: every command is a plain vector. -/
theorem calls_start_nobody (s : State) (calls : List Call) :
    Plain s (calls.foldl exec s) := by
  induction calls generalizing s with
  | nil => exact .none
  | cons call rest ih => exact (exec_plain s call).trans (ih _)

/-! ## Receivers -/

theorem toUInt32_tableOf (ids : List UInt32) (i : Cpu) :
    (Smp.tableOf ids i).toUInt32 = (ids[i.val]?).getD 0xFFFFFFFF := by
  unfold Smp.tableOf
  cases ids[i.val]? with
  | none => rfl
  | some id => rfl

theorem filed_lt (m : Smp.Machine) {id : UInt32} (h : id ∈ m.filed) : id.toNat < 256 := by
  rcases List.mem_cons.mp h with rfl | h
  · exact Smp.apicGetId_lt m.x2apicMode m.bsp
  · -- the trampoline passes on the low byte
    obtain ⟨ap, -, rfl⟩ := List.mem_map.mp h
    have hmod : (Smp.trampolineApicId ap).toNat = ap.toNat % 2 ^ 8 := by
      show (ap &&& 0xFF).toNat = _
      rw [UInt32.toNat_and]
      exact Nat.and_two_pow_sub_one_eq_mod ap.toNat 8
    omega

/-- In xAPIC mode the processors file their ids. -/
theorem filed_xapic {m : Smp.Machine} (hmode : m.x2apicMode = false) : m.filed = m.online := by
  have hkey : m.key m.bsp = m.bsp := by
    rw [Smp.Machine.key, Smp.apicGetId_eq, hmode]
    exact Smp.shiftLeft_shiftRight (m.xapic_lt hmode _ List.mem_cons_self)
  have hlow : m.aps.map Smp.trampolineApicId = m.aps := by
    refine (List.map_congr_left ?_).trans (List.map_id _)
    intro ap hap
    exact Smp.and_lowByte (m.xapic_lt hmode ap (List.mem_cons_of_mem _ hap))
  rw [Smp.Machine.filed, hkey, hlow]
  rfl

/-- The destination of an entry of the table, in both modes. -/
theorem destination_tableOf (m : Smp.Machine) (i : Cpu) :
    (if m.x2apicMode then (Smp.tableOf m.filed i).toUInt32
      else (Smp.tableOf m.filed i).toUInt32 <<< 24 >>> 24) =
    (m.filed[i.val]?).getD (Command.broadcast m.x2apicMode) := by
  rw [toUInt32_tableOf]
  cases hentry : m.filed[i.val]? with
  | none =>
      -- an entry that is not in use is -1, the broadcast id of either mode
      cases m.x2apicMode <;> rfl
  | some id =>
      have hlt := filed_lt m (List.mem_of_getElem? hentry)
      rw [Option.getD_some, Option.getD_some, Smp.shiftLeft_shiftRight hlt, ite_self]

/-- After bring-up `smp_send_ipi` reaches the processors whose id was filed under the index,
in xAPIC mode the one processor that was; and for an index that is not in use, everyone. -/
theorem smp_send_ipi_reaches {m : Smp.Machine} {t : Smp.State} (hup : m.bringUp = some t)
    {s : State} (hs : s.Up) (hmode : s.x2apicMode = m.x2apicMode) {cpu : UInt32}
    (hcpu : cpu.toNat < MAX_CPUS) (vector : UInt8) :
    (∃ c : Command, (smpSendIpi t.cpuIndexMap s cpu vector).sent = s.sent ++ [c] ∧
      c.vector = vector ∧ c.mode = .fixed ∧
      ∀ id, c.reaches m.x2apicMode s.self id = true ↔
        match m.filed[cpu.toNat]? with
        | some filed => id = filed ∨ filed = Command.broadcast m.x2apicMode
        | none => True) ∧
    (m.x2apicMode = false → m.filed = m.online) := by
  obtain ⟨t', hup', hmap⟩ := m.bringUp_spec
  cases hup.symm.trans hup'
  refine ⟨?_, filed_xapic⟩
  have hsends := apicSendIpi_sends hs (t.cpuIndexMap ⟨cpu.toNat, hcpu⟩).toUInt32 vector
  rw [hmode, hmap, destination_tableOf m ⟨cpu.toNat, hcpu⟩] at hsends
  refine ⟨⟨vector, .fixed, false, .none,
    (m.filed[cpu.toNat]?).getD (Command.broadcast m.x2apicMode)⟩, ?_, rfl, rfl, ?_⟩
  · rw [smpSendIpi, dif_pos hcpu, hmap]
    exact hsends.eq
  · intro id
    rw [Command.reaches_destination]
    cases m.filed[cpu.toNat]? with
    | none => exact iff_of_true (Or.inr rfl) trivial
    | some filed => exact Iff.rfl

/-- The second of two processors sends to index 1, itself. -/
def secondCpu : State := ⟨false, true, 1, 0, fun _ => .running 8, []⟩

theorem smp_send_ipi_second : ∃ t, (Smp.twoCpus false).bringUp = some t ∧
    (∃ c : Command, (smpSendIpi t.cpuIndexMap secondCpu 1 0x40).sent = [] ++ [c] ∧
      c.vector = 0x40 ∧ c.mode = .fixed ∧
      ∀ id, c.reaches false 1 id = true ↔
        match (Smp.twoCpus false).filed[1]? with
        | some filed => id = filed ∨ filed = Command.broadcast false
        | none => True) ∧
    (false = false → (Smp.twoCpus false).filed = (Smp.twoCpus false).online) := by
  obtain ⟨t, hup, -⟩ := (Smp.twoCpus false).bringUp_spec
  have hcpu : (1 : UInt32).toNat < MAX_CPUS := by decide
  exact ⟨t, hup, smp_send_ipi_reaches (s := secondCpu) hup (fun _ => rfl) rfl hcpu 0x40⟩

/-- A broadcast reaches the other processors in xAPIC mode, and in x2APIC mode only the
processor with id 48. -/
theorem smp_send_broadcast_reaches {s : State} (hs : s.Up) (vector : UInt8) :
    ∃ c : Command, (smpSendBroadcast s vector).sent = s.sent ++ [c] ∧ c.vector = vector ∧
      c.mode = .fixed ∧
      ∀ id, c.reaches s.x2apicMode s.self id = true ↔
        if s.x2apicMode then id = 48 else id ≠ s.self := by
  refine ⟨_, (sendShorthand_sends hs ⟨3, by decide⟩ vector).eq, ?_, ?_, ?_⟩
  · split <;> rfl
  · split <;> rfl
  · intro id
    cases s.x2apicMode with
    | true =>
        have hne : (48 : UInt32) ≠ Command.broadcast true := by decide
        rw [if_pos rfl, if_pos rfl]
        exact (Command.reaches_destination vector .fixed 48 true s.self id).trans
          (or_iff_left hne)
    | false =>
        rw [if_neg Bool.false_ne_true, if_neg Bool.false_ne_true]
        exact bne_iff_ne

theorem smp_send_broadcast_second : secondCpu.Up ∧
    ∃ c : Command, (smpSendBroadcast secondCpu 0x40).sent = [] ++ [c] ∧ c.vector = 0x40 ∧
      c.mode = .fixed ∧
      ∀ id, c.reaches false 1 id = true ↔ if false = true then id = 48 else id ≠ 1 :=
  ⟨fun _ => rfl, smp_send_broadcast_reaches (s := secondCpu) (fun _ => rfl) 0x40⟩

end OmniOS.Ipi
