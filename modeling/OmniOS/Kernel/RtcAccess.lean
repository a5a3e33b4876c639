import OmniOS.Kernel.Rtc

/-!
# OmniOS.Kernel.RtcAccess — the clock while it runs

The time is one 64-bit counter, and `rtc_get_epoch` and `rtc_set_epoch` access it a word at
a time, low word first. A carry into the high word between the two reads is counted with
the low word from before it, so the value is ahead of the counter; a carry between the two
writes is overwritten with the high word, so the counter falls behind. Only ticks after
the carry can make up for it.
-/

namespace OmniOS.Rtc

/-- The counter behind `RTC_TIME_LOW` and `RTC_TIME_HIGH`, and `rtc_initialized`. -/
structure Counter where
  value : UInt64
  initialized : Bool

/-- The ticks of the counter during a call with two accesses. -/
structure Ticks where
  before : Nat
  between : Nat
  after : Nat

def Ticks.total (n : Ticks) : Nat := n.before + n.between + n.after

namespace Counter

def tick (c : Counter) (n : Nat) : Counter := { c with value := c.value + UInt64.ofNat n }

def readLow (c : Counter) : UInt32 := c.value.toUInt32

def readHigh (c : Counter) : UInt32 := (c.value >>> 32).toUInt32

def writeLow (c : Counter) (low : UInt32) : Counter :=
  { c with value := c.readHigh.toUInt64 <<< 32 ||| low.toUInt64 }

def writeHigh (c : Counter) (high : UInt32) : Counter :=
  { c with value := high.toUInt64 <<< 32 ||| c.readLow.toUInt64 }

/-- `rtc_get_epoch`: what it returns, and the counter when it does. -/
def getEpoch (c : Counter) (n : Ticks) : UInt64 × Counter :=
  let c := c.tick n.before
  let low := c.readLow
  let c := c.tick n.between
  let high := c.readHigh
  let c := c.tick n.after
  (rtcGetEpoch ⟨low, high, c.initialized⟩, c)

/-- `rtc_set_epoch`: the counter when it returns. -/
def setEpoch (c : Counter) (epoch : UInt64) (n : Ticks) : Counter :=
  let c := c.tick n.before
  let c := c.writeLow (epoch &&& 0xFFFFFFFF).toUInt32
  let c := c.tick n.between
  let c := c.writeHigh (epoch >>> 32).toUInt32
  c.tick n.after

/-- What is read is not torn: a value between the counter's at both ends of the call. -/
def ReadWhole (c : Counter) (n : Ticks) : Prop :=
  c.value ≤ (c.getEpoch n).1 ∧ (c.getEpoch n).1 ≤ (c.getEpoch n).2.value

/-- What is written is not torn: the counter is ahead of the epoch by ticks of the call. -/
def WrittenWhole (c : Counter) (epoch : UInt64) (n : Ticks) : Prop :=
  epoch ≤ (c.setEpoch epoch n).value ∧
    (c.setEpoch epoch n).value.toNat - epoch.toNat ≤ n.total

end Counter

/-- The ticks that the high word stands for that changes between the accesses, with `low`
in the low word at the first one. -/
def carried (low : Nat) (n : Ticks) : Nat := (low + n.between) / 2 ^ 32 * 2 ^ 32

/-- The ticks that are lost when a count goes over the end of the counter. -/
def turns (k : Nat) : Nat := k / 2 ^ 64 * 2 ^ 64

/-! ## The two words -/

section Words

variable (c : Counter) (n : Nat)

theorem Counter.tick_toNat : (c.tick n).value.toNat = (c.value.toNat + n) % 2 ^ 64 := by
  show (c.value + UInt64.ofNat n).toNat = _
  rw [UInt64.toNat_add, UInt64.toNat_ofNat', Nat.add_mod_mod]

theorem Counter.readLow_toNat : c.readLow.toNat = c.value.toNat % 2 ^ 32 :=
  UInt64.toNat_toUInt32 _

theorem Counter.writeLow_toNat (low : UInt32) :
    (c.writeLow low).value.toNat = c.value.toNat / 2 ^ 32 * 2 ^ 32 + low.toNat := by
  show (c.readHigh.toUInt64 <<< 32 ||| low.toUInt64).toNat = _
  rw [Words.toNat_join, Counter.readHigh, Words.toNat_high]

theorem Counter.writeHigh_toNat (high : UInt32) :
    (c.writeHigh high).value.toNat = high.toNat * 2 ^ 32 + c.value.toNat % 2 ^ 32 := by
  show (high.toUInt64 <<< 32 ||| c.readLow.toUInt64).toNat = _
  rw [Words.toNat_join, Counter.readLow_toNat]

end Words

/-! ## Both calls -/

section Calls

variable (c : Counter) (n : Ticks)

/-- A carry between the reads is in the value that is read. -/
theorem Counter.getEpoch_toNat (hinit : c.initialized = true) :
    (c.getEpoch n).1.toNat =
      (c.value.toNat + n.before + carried ((c.value.toNat + n.before) % 2 ^ 32) n) % 2 ^ 64 := by
  show (rtcGetEpoch ⟨(c.tick n.before).readLow, ((c.tick n.before).tick n.between).readHigh,
    c.initialized⟩).toNat = _
  rw [rtcGetEpoch, if_pos hinit, Words.toNat_join, Counter.readHigh, Words.toNat_high,
    Counter.readLow_toNat, Counter.tick_toNat, Counter.tick_toNat, carried]
  omega

theorem Counter.getEpoch_end : (c.getEpoch n).2.value.toNat =
    (c.value.toNat + n.total) % 2 ^ 64 := by
  show (((c.tick n.before).tick n.between).tick n.after).value.toNat = _
  rw [Counter.tick_toNat, Counter.tick_toNat, Counter.tick_toNat, Ticks.total]
  omega

/-- A carry between the writes is missing from the counter. -/
theorem Counter.setEpoch_toNat (epoch : UInt64) : (c.setEpoch epoch n).value.toNat =
    (epoch.toNat + n.between - carried (epoch.toNat % 2 ^ 32) n + n.after) % 2 ^ 64 := by
  have hlt := epoch.toNat_lt
  show ((((c.tick n.before).writeLow _).tick n.between).writeHigh _ |>.tick n.after).value.toNat = _
  rw [Counter.tick_toNat, Counter.writeHigh_toNat, Counter.tick_toNat, Counter.writeLow_toNat,
    Words.toNat_high, Words.toNat_low, carried]
  omega

end Calls

/-- What the ticks owe for a read: the carry is made up for, and so is a counter that went
over its end. -/
def Counter.ReadSpared (c : Counter) (n : Ticks) : Prop :=
  let start := c.value.toNat + n.before
  let carry := carried (start % 2 ^ 32) n
  turns (start + carry) ≤ n.before + carry ∧
    carry + turns (c.value.toNat + n.total) ≤ n.between + n.after + turns (start + carry)

/-- What the ticks owe for a write. -/
def WriteSpared (epoch : UInt64) (n : Ticks) : Prop :=
  let carry := carried (epoch.toNat % 2 ^ 32) n
  carry + turns (epoch.toNat + n.between - carry + n.after) ≤ n.between + n.after

/-- Short of the end of the counter, the carry is all there is to make up for. -/
theorem Counter.readSpared_iff {c : Counter} {n : Ticks} (h : c.value.toNat + n.total < 2 ^ 64) :
    c.ReadSpared n ↔
      carried ((c.value.toNat + n.before) % 2 ^ 32) n ≤ n.between + n.after := by
  unfold ReadSpared carried turns
  unfold Ticks.total at *
  omega

theorem writeSpared_iff {epoch : UInt64} {n : Ticks} (h : epoch.toNat + n.total < 2 ^ 64) :
    WriteSpared epoch n ↔ carried (epoch.toNat % 2 ^ 32) n ≤ n.between + n.after := by
  unfold WriteSpared carried turns
  unfold Ticks.total at h
  omega

/-- Reads and writes are whole exactly when the ticks make up for the carry. A clock that is
not initialised reads 0. -/
theorem rtc_access_whole_iff (c : Counter) (epoch : UInt64) (n : Ticks) :
    (c.ReadWhole n ↔ if c.initialized then c.ReadSpared n else c.value = 0) ∧
    (c.WrittenWhole epoch n ↔ WriteSpared epoch n) := by
  constructor
  · unfold Counter.ReadWhole
    rw [UInt64.le_iff_toNat_le, UInt64.le_iff_toNat_le, Counter.getEpoch_end]
    cases hinit : c.initialized with
    | true =>
        rw [Counter.getEpoch_toNat c n hinit, if_pos rfl]
        unfold Counter.ReadSpared turns Ticks.total
        omega
    | false =>
        have hread : (c.getEpoch n).1 = 0 := by
          show rtcGetEpoch ⟨_, _, c.initialized⟩ = 0
          rw [hinit]
          rfl
        have hzero : (0 : UInt64).toNat = 0 := rfl
        rw [hread, ← UInt64.toNat_inj, hzero, if_neg Bool.false_ne_true]
        omega
  · unfold Counter.WrittenWhole
    have hlt := epoch.toNat_lt
    rw [UInt64.le_iff_toNat_le, Counter.setEpoch_toNat]
    unfold WriteSpared carried turns Ticks.total
    omega

/-- One tick between the accesses, from `0xFFFFFFFF`: the read is `2 ^ 32 - 1` ahead, and the
write sets the clock to 0. -/
theorem rtc_access_torn :
    let c : Counter := ⟨0xFFFFFFFF, true⟩
    let n : Ticks := ⟨0, 1, 0⟩
    (c.getEpoch n).1 = 0x1FFFFFFFF ∧ (c.getEpoch n).2.value = 0x100000000 ∧ ¬ c.ReadWhole n ∧
    (c.setEpoch 0xFFFFFFFF n).value = 0 ∧ ¬ c.WrittenWhole 0xFFFFFFFF n := by
  refine ⟨rfl, rfl, ?_, rfl, ?_⟩
  · unfold Counter.ReadWhole
    decide +kernel
  · unfold Counter.WrittenWhole
    decide +kernel

end OmniOS.Rtc
