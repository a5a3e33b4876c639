import OmniOS.Lib.Lts
import OmniOS.Lib.Memory

/-!
# OmniOS.Kernel.Ufs — the flash driver of `bsp/sm8250/drivers/ufs.c`

1. **Model.** The controller's registers answer as they like, so what they read is an
   argument. The data window is memory from `UFS_HCI_BASE + UFS_DATA_BASE` on. Sums,
   products and conversions wrap as in C. A `memcpy` takes what the buffer's pointer
   leads to, offset by offset. The messages are left out.
2. **Blocks.** The abstract device remembers the writes it was asked for. A block holds
   the data of the last write that covers it.
3. **Calls.** A call does what an array of blocks does exactly if its numbers fit:
   a range inside the device has fewer than 2^19 blocks, since the byte count has to be
   an `int`, and for a range that reaches outside the 64-bit sum does not wrap back inside.
-/

namespace OmniOS.Ufs

open Memory (Mem)

/-! ## Model -/

def SM8250_UFS_BASE : UInt64 := 0x01D84000
def UFS_HCI_BASE : UInt64 := SM8250_UFS_BASE
def UFS_DATA_BASE : UInt64 := 0x10000
def UFS_BLOCK_SIZE : UInt32 := 4096

/-- The static variables, the control registers and the memory behind the data window. -/
structure State where
  ufsReady : Bool
  ufsTotalBlocks : UInt64
  hcCtrl : UInt32
  intEn : UInt32
  mem : Mem

/-- The loop of `ufs_wait_status` from its `i`-th read on, `left` reads before the
timeout. `status i` is what the `i`-th read of the status register gives. -/
def waitLoop (status : Nat → UInt32) (mask val : UInt32) : (left i : Nat) → Int32
  | 0, _ => -1
  | left + 1, i =>
      if status i &&& mask = val then 0 else waitLoop status mask val left (i + 1)

def ufsWaitStatus (status : Nat → UInt32) (mask val : UInt32) (timeoutUs : Nat) : Int32 :=
  waitLoop status mask val timeoutUs 0

/-- `resetStatus` and `startStatus` are the readings of the two waits. -/
def ufsInit (s : State) (resetStatus startStatus : Nat → UInt32) (devId : UInt32) :
    Int32 × State :=
  let s := { s with hcCtrl := 0x02 }
  if ufsWaitStatus resetStatus 0x02 0 100000 < 0 then (-1, s)
  else
    let s := { s with intEn := 0x1FF, hcCtrl := 0x01 }
    if ufsWaitStatus startStatus 0x01 0x01 100000 < 0 then (-1, s)
    else
      let total := (devId &&& 0xFFFF).toUInt64 * 1024
      let total := if total = 0 then 122880 else total
      (0, { s with ufsTotalBlocks := total, ufsReady := true })

/-- The pointer the two transfers compute. -/
def dataPtr (lba : UInt64) : UInt64 := UFS_HCI_BASE + UFS_DATA_BASE + lba * UFS_BLOCK_SIZE.toUInt64

/-- The result and the bytes that are copied to `buf`. -/
def ufsRead (s : State) (lba : UInt64) (count : UInt32) : Int32 × List UInt8 :=
  if !s.ufsReady then (-1, [])
  else if s.ufsTotalBlocks < lba + count.toUInt64 then (-1, [])
  else
    let size := count * UFS_BLOCK_SIZE
    (size.toInt32, Memory.bytes s.mem size.toNat (dataPtr lba).toNat)

def ufsWrite (s : State) (lba : UInt64) (buf : Nat → UInt8) (count : UInt32) : Int32 × State :=
  if !s.ufsReady then (-1, s)
  else if s.ufsTotalBlocks < lba + count.toUInt64 then (-1, s)
  else
    let size := count * UFS_BLOCK_SIZE
    (size.toInt32, { s with mem := Memory.copy s.mem size.toNat (dataPtr lba).toNat buf })

/-! ## Blocks -/

/-- A write that was carried out. -/
structure Write where
  lba : UInt64
  count : UInt32
  buf : Nat → UInt8

def Write.Covers (e : Write) (k : Nat) : Prop :=
  e.lba.toNat ≤ k ∧ k < e.lba.toNat + e.count.toNat

instance (e : Write) (k : Nat) : Decidable (e.Covers k) := by
  unfold Write.Covers
  infer_instance

/-- The driver, the memory at the start and the writes since, the last one first. -/
structure World where
  dev : State
  first : Mem
  log : List Write

/-- Where block `k` lies. -/
def blockStart (k : Nat) : Nat := 0x01D94000 + k * 4096

/-- Byte `i` of block `k`: from the last write that covers the block, if there is one. -/
def blockByte (first : Mem) (log : List Write) (k i : Nat) : UInt8 :=
  match log.find? (fun e => e.Covers k) with
  | some e => e.buf ((k - e.lba.toNat) * 4096 + i)
  | none => first (blockStart k + i)

def World.block (w : World) (k i : Nat) : UInt8 := blockByte w.first w.log k i

inductive Call where
  | read (lba : UInt64) (count : UInt32)
  | write (lba : UInt64) (buf : Nat → UInt8) (count : UInt32)

def World.after (w : World) : Call → World
  | .read _ _ => w
  | .write lba buf count =>
      { w with
        dev := (ufsWrite w.dev lba buf count).2
        log := if (ufsWrite w.dev lba buf count).1 = -1 then w.log else ⟨lba, count, buf⟩ :: w.log }

/-- The device after a successful `ufs_init`, and calls. -/
def system : Lts.System World Call where
  Init := fun w => w.first = w.dev.mem ∧ w.log = [] ∧
    ∃ s resetStatus startStatus devId, ufsInit s resetStatus startStatus devId = (0, w.dev)
  Next := fun call w w' => w' = w.after call

/-- The last block of the range, plus one, as an integer. -/
def rangeEnd (lba : UInt64) (count : UInt32) : Nat := lba.toNat + count.toNat

/-- What the call does to an array of blocks: a range that reaches outside is refused and
nothing is touched. Otherwise `count * 4096` bytes are transferred: a read gives the blocks,
a write replaces them and changes no other byte of memory. -/
def World.Right (w : World) : Call → Prop
  | .read lba count =>
      (w.dev.ufsTotalBlocks.toNat < rangeEnd lba count → ufsRead w.dev lba count = (-1, [])) ∧
      (rangeEnd lba count ≤ w.dev.ufsTotalBlocks.toNat →
        (ufsRead w.dev lba count).1.toInt = count.toNat * 4096 ∧
        (ufsRead w.dev lba count).2 = (List.range (count.toNat * 4096)).map fun j =>
          w.block (lba.toNat + j / 4096) (j % 4096))
  | .write lba buf count =>
      (w.dev.ufsTotalBlocks.toNat < rangeEnd lba count →
        ufsWrite w.dev lba buf count = (-1, w.dev)) ∧
      (rangeEnd lba count ≤ w.dev.ufsTotalBlocks.toNat →
        (ufsWrite w.dev lba buf count).1.toInt = count.toNat * 4096 ∧
        (ufsWrite w.dev lba buf count).2 =
          { w.dev with
            mem := Memory.copy w.dev.mem (count.toNat * 4096) (blockStart lba.toNat) buf })

/-- The numbers of a range fit the types of the driver. -/
def RangeFits (s : State) (lba : UInt64) (count : UInt32) : Prop :=
  (rangeEnd lba count ≤ s.ufsTotalBlocks.toNat → count.toNat < 2 ^ 19) ∧
  (s.ufsTotalBlocks.toNat < rangeEnd lba count → s.ufsTotalBlocks < lba + count.toUInt64)

def Fits : Call → World → Prop
  | .read lba count, w => RangeFits w.dev lba count
  | .write lba _ count, w => RangeFits w.dev lba count

/-! ## The device after `ufs_init` -/

/-- What `ufs_init` leaves behind: a device of fewer than 2^26 blocks. -/
structure Ready (s : State) : Prop where
  ready : s.ufsReady = true
  total_lt : s.ufsTotalBlocks.toNat < 2 ^ 26

theorem ready_of_ufsInit {s s' : State} {resetStatus startStatus : Nat → UInt32} {devId : UInt32}
    (h : ufsInit s resetStatus startStatus devId = (0, s')) : Ready s' := by
  have hfailed : (-1 : Int32) ≠ 0 := by decide
  unfold ufsInit at h
  dsimp only at h
  split at h
  · exact absurd (congrArg Prod.fst h) hfailed
  split at h
  · exact absurd (congrArg Prod.fst h) hfailed
  have hs' := congrArg Prod.snd h
  dsimp only at hs'
  subst hs'
  constructor
  · rfl
  · -- the capacity field has 16 bits
    have hid : (devId &&& 0xFFFF).toNat ≤ 0xFFFF := by
      rw [UInt32.toNat_and]
      exact Nat.and_le_right
    have hproduct : ((devId &&& 0xFFFF).toUInt64 * 1024).toNat = (devId &&& 0xFFFF).toNat * 1024 := by
      have hk : (1024 : UInt64).toNat = 1024 := rfl
      rw [UInt64.toNat_mul, UInt32.toNat_toUInt64, hk]
      omega
    dsimp only
    split
    · decide
    · rw [hproduct]
      omega

section Calls

variable {s : State} {lba : UInt64} {count : UInt32}

theorem end_toNat (lba : UInt64) (count : UInt32) :
    (lba + count.toUInt64).toNat = rangeEnd lba count % 2 ^ 64 := by
  rw [UInt64.toNat_add, UInt32.toNat_toUInt64, rangeEnd]

theorem size_toNat (count : UInt32) :
    (count * UFS_BLOCK_SIZE).toNat = count.toNat * 4096 % 2 ^ 32 := by
  have hk : UFS_BLOCK_SIZE.toNat = 4096 := rfl
  rw [UInt32.toNat_mul, hk]

theorem toInt_toInt32 {n : UInt32} (h : n.toNat < 2 ^ 31) : n.toInt32.toInt = n.toNat := by
  have hbits : 2 * n.toInt32.toBitVec.toNat < 2 ^ 32 := by
    show 2 * n.toNat < 2 ^ 32
    omega
  exact BitVec.toInt_eq_toNat_of_lt hbits

/-- A byte count is never mistaken for an error: its low bits are clear. -/
theorem size_ne (count : UInt32) : (count * UFS_BLOCK_SIZE).toInt32 ≠ -1 := by
  intro h
  have hsize : count * UFS_BLOCK_SIZE = 0xFFFFFFFF := congrArg Int32.toUInt32 h
  have hnat := congrArg UInt32.toNat hsize
  have hk : (0xFFFFFFFF : UInt32).toNat = 0xFFFFFFFF := rfl
  rw [size_toNat, hk] at hnat
  omega

/-- Inside the device the test passes, and the pointer leads to the first block. -/
theorem in_range (hs : Ready s) (hin : rangeEnd lba count ≤ s.ufsTotalBlocks.toNat) :
    ¬ s.ufsTotalBlocks < lba + count.toUInt64 ∧ (dataPtr lba).toNat = blockStart lba.toNat := by
  have htotal := hs.total_lt
  have hlba : lba.toNat ≤ rangeEnd lba count := Nat.le_add_right _ _
  constructor
  · rw [UInt64.lt_iff_toNat_lt, end_toNat]
    omega
  · have hbase : (UFS_HCI_BASE + UFS_DATA_BASE).toNat = 0x01D94000 := rfl
    have hk : UFS_BLOCK_SIZE.toUInt64.toNat = 4096 := rfl
    rw [dataPtr, UInt64.toNat_add, UInt64.toNat_mul, hbase, hk, blockStart]
    omega

theorem ufsRead_refused (hcheck : s.ufsTotalBlocks < lba + count.toUInt64) :
    ufsRead s lba count = (-1, []) := by
  unfold ufsRead
  rw [if_pos hcheck, ite_self]

theorem ufsRead_passed (hs : Ready s) (hcheck : ¬ s.ufsTotalBlocks < lba + count.toUInt64) :
    ufsRead s lba count =
      ((count * UFS_BLOCK_SIZE).toInt32,
        Memory.bytes s.mem (count * UFS_BLOCK_SIZE).toNat (dataPtr lba).toNat) := by
  unfold ufsRead
  simp only [hs.ready, Bool.not_true, Bool.false_eq_true, if_false, if_neg hcheck]

theorem ufsWrite_refused (buf : Nat → UInt8) (hcheck : s.ufsTotalBlocks < lba + count.toUInt64) :
    ufsWrite s lba buf count = (-1, s) := by
  unfold ufsWrite
  rw [if_pos hcheck, ite_self]

theorem ufsWrite_passed (hs : Ready s) (buf : Nat → UInt8)
    (hcheck : ¬ s.ufsTotalBlocks < lba + count.toUInt64) :
    ufsWrite s lba buf count =
      ((count * UFS_BLOCK_SIZE).toInt32,
        { s with
          mem := Memory.copy s.mem (count * UFS_BLOCK_SIZE).toNat (dataPtr lba).toNat buf }) := by
  unfold ufsWrite
  simp only [hs.ready, Bool.not_true, Bool.false_eq_true, if_false, if_neg hcheck]

/-- Inside the device and below 2^19 blocks the byte count is right as an `int`. -/
theorem size_of_fits (hcount : count.toNat < 2 ^ 19) :
    (count * UFS_BLOCK_SIZE).toNat = count.toNat * 4096 ∧
      (count * UFS_BLOCK_SIZE).toInt32.toInt = count.toNat * 4096 := by
  have hsize : (count * UFS_BLOCK_SIZE).toNat = count.toNat * 4096 := by
    rw [size_toNat]
    omega
  constructor
  · exact hsize
  · rw [toInt_toInt32 (by omega), hsize, Int.natCast_mul]
    rfl

/-- The results alone show that the range fits. -/
theorem rangeFits_of_result (result : Int32)
    (hpassed : ¬ s.ufsTotalBlocks < lba + count.toUInt64 →
      result = (count * UFS_BLOCK_SIZE).toInt32)
    (houtside : s.ufsTotalBlocks.toNat < rangeEnd lba count → result = -1)
    (hinside : rangeEnd lba count ≤ s.ufsTotalBlocks.toNat → result.toInt = count.toNat * 4096) :
    RangeFits s lba count := by
  constructor
  · intro hin
    have hint := hinside hin
    have hlt : result.toInt < 2 ^ 31 := Int32.toInt_lt result
    omega
  · intro hout
    by_contra hcheck
    have hsize := hpassed hcheck
    rw [houtside hout] at hsize
    exact size_ne count hsize.symm

end Calls

/-! ## Runs -/

/-- The device is ready and its blocks hold what the writes say. -/
structure Synced (w : World) : Prop where
  ready : Ready w.dev
  block_eq : ∀ k < w.dev.ufsTotalBlocks.toNat, ∀ i < 4096,
    w.dev.mem (blockStart k + i) = w.block k i

section Runs

variable {w w' : World} {lba : UInt64} {count : UInt32}

theorem read_right_iff (hw : Synced w) :
    w.Right (.read lba count) ↔ RangeFits w.dev lba count := by
  constructor
  · intro ⟨houtside, hinside⟩
    refine rangeFits_of_result (ufsRead w.dev lba count).1 ?_ ?_ ?_
    · intro hcheck
      exact congrArg Prod.fst (ufsRead_passed hw.ready hcheck)
    · intro hout
      exact congrArg Prod.fst (houtside hout)
    · intro hin
      exact (hinside hin).1
  · intro ⟨hsmall, hwrap⟩
    constructor
    · intro hout
      exact ufsRead_refused (hwrap hout)
    · intro hin
      obtain ⟨hcheck, hptr⟩ := in_range hw.ready hin
      obtain ⟨hsize, hint⟩ := size_of_fits (hsmall hin)
      rw [ufsRead_passed hw.ready hcheck, hsize, hptr]
      refine ⟨hint, List.map_congr_left ?_⟩
      -- byte `j` of the transfer is byte `j % 4096` of block `lba + j / 4096`
      intro j hj
      rw [List.mem_range] at hj
      unfold rangeEnd at hin
      have haddr : blockStart lba.toNat + j = blockStart (lba.toNat + j / 4096) + j % 4096 := by
        unfold blockStart
        omega
      rw [haddr]
      exact hw.block_eq _ (by omega) _ (Nat.mod_lt _ (by decide))

theorem write_right_iff (hw : Ready w.dev) (buf : Nat → UInt8) :
    w.Right (.write lba buf count) ↔ RangeFits w.dev lba count := by
  constructor
  · intro ⟨houtside, hinside⟩
    refine rangeFits_of_result (ufsWrite w.dev lba buf count).1 ?_ ?_ ?_
    · intro hcheck
      exact congrArg Prod.fst (ufsWrite_passed hw buf hcheck)
    · intro hout
      exact congrArg Prod.fst (houtside hout)
    · intro hin
      exact (hinside hin).1
  · intro ⟨hsmall, hwrap⟩
    constructor
    · intro hout
      exact ufsWrite_refused buf (hwrap hout)
    · intro hin
      obtain ⟨hcheck, hptr⟩ := in_range hw hin
      obtain ⟨hsize, hint⟩ := size_of_fits (hsmall hin)
      rw [ufsWrite_passed hw buf hcheck, hsize, hptr]
      exact ⟨hint, rfl⟩

theorem right_iff (hw : Synced w) (call : Call) : w.Right call ↔ Fits call w := by
  cases call with
  | read lba count => exact read_right_iff hw
  | write lba buf count => exact write_right_iff hw.ready buf

/-- One more write on top of the log. -/
theorem blockByte_cons (first : Mem) (e : Write) (log : List Write) (k i : Nat) :
    blockByte first (e :: log) k i =
      if e.Covers k then e.buf ((k - e.lba.toNat) * 4096 + i) else blockByte first log k i := by
  unfold blockByte
  by_cases hcovers : e.Covers k
  · simp [hcovers]
  · simp [hcovers]

/-- A write that fits leaves the blocks as its log entry says. -/
theorem synced_write (hw : Synced w) (buf : Nat → UInt8) (hfits : RangeFits w.dev lba count) :
    Synced (w.after (.write lba buf count)) := by
  obtain ⟨houtside, hinside⟩ := (write_right_iff hw.ready buf).mpr hfits
  by_cases hin : rangeEnd lba count ≤ w.dev.ufsTotalBlocks.toNat
  · obtain ⟨hint, hstate⟩ := hinside hin
    -- the result is a byte count, so the write is logged
    have hok : ¬ (ufsWrite w.dev lba buf count).1 = -1 := by
      intro hneg
      rw [hneg] at hint
      have hval : (-1 : Int32).toInt = -1 := rfl
      omega
    rw [World.after, if_neg hok, hstate]
    constructor
    · exact ⟨hw.ready.ready, hw.ready.total_lt⟩
    · intro k hk i hi
      show Memory.copy w.dev.mem (count.toNat * 4096) (blockStart lba.toNat) buf
          (blockStart k + i) = blockByte w.first (⟨lba, count, buf⟩ :: w.log) k i
      -- a block of the range has the new data, the others are where `memcpy` does not write
      rw [blockByte_cons]
      by_cases hcovers : Write.Covers ⟨lba, count, buf⟩ k
      · have hbounds : lba.toNat ≤ k ∧ k < lba.toNat + count.toNat := hcovers
        have hoffset : blockStart k + i - blockStart lba.toNat = (k - lba.toNat) * 4096 + i := by
          unfold blockStart
          omega
        rw [if_pos hcovers, Memory.copy_apply_of_mem, hoffset]
        unfold blockStart
        omega
      · have hmissed : ¬ (lba.toNat ≤ k ∧ k < lba.toNat + count.toNat) := hcovers
        rw [if_neg hcovers, Memory.copy_apply_of_notMem]
        · exact hw.block_eq k hk i hi
        · unfold blockStart
          omega
  · -- refused: neither the device nor the log changes
    rw [World.after, houtside (Nat.lt_of_not_le hin), if_pos rfl]
    exact hw

theorem synced_init (h : system.Init w) : Synced w := by
  obtain ⟨hfirst, hlog, s, resetStatus, startStatus, devId, hinit⟩ := h
  constructor
  · exact ready_of_ufsInit hinit
  · intro k _ i _
    rw [World.block, hlog, ← hfirst]
    rfl

theorem synced_step (call : Call) (hw : Synced w) (hstep : (system.restrict Fits).Next call w w') :
    Synced w' := by
  obtain ⟨hfits, rfl⟩ := hstep
  cases call with
  | read lba count => exact hw
  | write lba buf count => exact synced_write hw buf hfits

end Runs

/-- Over every run of calls that fit, the device is an array of blocks, and a call does
what it does to such an array exactly if it fits. -/
theorem ufs_is_block_array {w : World} (hreach : Lts.Reachable (system.restrict Fits) w)
    (call : Call) : w.Right call ↔ Fits call w := by
  have hw : Synced w := by
    refine hreach.invariant (I := Synced) ?_ ?_
    · intro s hs
      exact synced_init hs
    · intro call s s' hs hstep
      exact synced_step call hs hstep
  exact right_iff hw call

/-- A device of 1024 blocks whose controller is ready at once. -/
def smallDisk : State :=
  (ufsInit ⟨false, 0, 0, 0, fun _ => 0⟩ (fun _ => 0) (fun _ => 1) 1).2

def smallWorld : World := ⟨smallDisk, smallDisk.mem, []⟩

theorem smallWorld_init : system.Init smallWorld :=
  ⟨rfl, rfl, ⟨false, 0, 0, 0, fun _ => 0⟩, fun _ => 0, fun _ => 1, 1, rfl⟩

/-- Two blocks written at block 3 of a device of 1024 blocks. -/
theorem ufs_small_write_right :
    Lts.Reachable (system.restrict Fits) smallWorld ∧
      smallWorld.Right (.write 3 (fun _ => 7) 2) := by
  have hreach : Lts.Reachable (system.restrict Fits) smallWorld := Lts.Reachable.init smallWorld_init
  refine ⟨hreach, (ufs_is_block_array hreach (.write 3 (fun _ => 7) 2)).mpr ?_⟩
  constructor
  · intro _
    decide
  · intro hout
    exact absurd hout (by decide)

/-- The range of one block from block 2^64 - 1 on wraps to an end of 0, so the write is
carried out, on the 4096 bytes below the data window. -/
theorem ufs_write_wraps :
    Lts.Reachable system smallWorld ∧
      ¬ smallWorld.Right (.write 0xFFFFFFFFFFFFFFFF (fun _ => 7) 1) := by
  refine ⟨Lts.Reachable.init smallWorld_init, ?_⟩
  intro ⟨houtside, _⟩
  have hrefused := houtside (by decide)
  exact absurd (congrArg Prod.fst hrefused) (by decide)

end OmniOS.Ufs
