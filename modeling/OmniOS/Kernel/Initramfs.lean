import OmniOS.Lib.Hex

/-!
# OmniOS.Kernel.Initramfs — the cpio reader of `kernel/fs/initramfs.c`

`initramfs_next` reads the record at the cursor and moves the cursor behind it;
`initramfs_find` starts at the beginning and reads until it meets a name.

Reads of the archive and writes of the name buffer are checked: a byte read
outside the archive, or written outside the buffer, makes the call `none`.
`initramfs_find` gets fuel, and is `none` when it runs out. Pointers into the
archive are offsets from its start.
-/

namespace OmniOS.Initramfs

def CPIO_MAGIC : List UInt8 := [0x30, 0x37, 0x30, 0x37, 0x30, 0x31]
def CPIO_HEADER_LEN : UInt64 := 110
def PATH_MAX : Nat := 4096

/-- The `n` bytes at offset `off`. -/
def readBytes (archive : List UInt8) (off n : Nat) : Option (List UInt8) :=
  if off + n ≤ archive.length then some ((archive.drop off).take n) else none

/-- The fields of `cpio_header_t` that are read, at their offsets. -/
def cMagic (archive : List UInt8) (hdr : Nat) : Option (List UInt8) := readBytes archive hdr 6
def cFilesize (archive : List UInt8) (hdr : Nat) : Option (List UInt8) := readBytes archive (hdr + 54) 8
def cNamesize (archive : List UInt8) (hdr : Nat) : Option (List UInt8) := readBytes archive (hdr + 94) 8

/-- The digit that `parse_hex` adds for a character. -/
def hexDigit (c : UInt8) : UInt64 :=
  if 0x30 ≤ c ∧ c ≤ 0x39 then c.toUInt64 - 0x30
  else if 0x61 ≤ c ∧ c ≤ 0x66 then c.toUInt64 - 0x61 + 10
  else if 0x41 ≤ c ∧ c ≤ 0x46 then c.toUInt64 - 0x41 + 10
  else 0

/-- The loop of `parse_hex`, which stops at a NUL. -/
def parseHexLoop : List UInt8 → UInt64 → UInt64
  | [], val => val
  | c :: s, val => if c = 0 then val else parseHexLoop s ((val <<< 4) ||| hexDigit c)

def parseHex (s : List UInt8) : UInt64 := parseHexLoop s 0

/-- `initramfs_entry_t`. -/
structure Entry where
  data : UInt64
  size : UInt64

/-- `initramfs_t`. -/
structure Fs where
  archive : List UInt8
  archiveSize : UInt64
  offset : UInt64

def initramfsInit (archive : List UInt8) (size : UInt64) : Fs := ⟨archive, size, 0⟩

/-- `memcpy` of the bytes into the buffer, then a NUL behind them. -/
def writeName (name bytes : List UInt8) : Option (List UInt8) :=
  if bytes.length < name.length then some (bytes ++ 0 :: name.drop (bytes.length + 1)) else none

/-- `(x + 3) & ~3`. -/
def align4 (x : UInt64) : UInt64 := (x + 3) &&& ~~~3

/-- What a call of `initramfs_next` returns and leaves behind. -/
structure Outcome where
  ret : Int
  fs : Fs
  name : Option (List UInt8)
  entry : Option Entry

/-- The `if (name)` block: as much of the name as fits, then a NUL. -/
def copyName (fs : Fs) (nameOff namesize namelen : UInt64) :
    (name : Option (List UInt8)) → Option (Option (List UInt8))
  | none => some none
  | some buf => do
      let cplen := if namesize < namelen then namesize else namelen - 1
      let bytes ← readBytes fs.archive nameOff.toNat cplen.toNat
      let buf ← writeName buf bytes
      return some buf

def initramfsNext (fs : Fs) (name : Option (List UInt8)) (namelen : UInt64) (entry : Option Entry) :
    Option Outcome := do
  if fs.offset ≥ fs.archiveSize then return ⟨0, fs, name, entry⟩
  if fs.offset + CPIO_HEADER_LEN > fs.archiveSize then return ⟨-1, fs, name, entry⟩
  let magic ← cMagic fs.archive fs.offset.toNat
  if magic ≠ CPIO_MAGIC then return ⟨0, fs, name, entry⟩
  let namesize := parseHex (← cNamesize fs.archive fs.offset.toNat)
  let filesize := parseHex (← cFilesize fs.archive fs.offset.toNat)
  let nameOff := fs.offset + CPIO_HEADER_LEN
  let dataOff := align4 (nameOff + namesize)
  if nameOff + namesize > fs.archiveSize ∨ dataOff + filesize > fs.archiveSize then
    return ⟨-1, fs, name, entry⟩
  let name ← copyName fs nameOff namesize namelen name
  let entry := entry.map fun _ => (⟨dataOff, filesize⟩ : Entry)
  return ⟨1, { fs with offset := align4 (dataOff + filesize) }, name, entry⟩

/-- The bytes before the first NUL. -/
def cString (bytes : List UInt8) : List UInt8 := bytes.takeWhile (· != 0)

/-- What a call of `initramfs_find` returns and leaves behind. -/
structure Found where
  ret : Int
  fs : Fs
  entry : Option Entry

/-- The `while (1)` loop; `name` is the buffer on the stack. -/
def findLoop (target : List UInt8) (saved : UInt64) :
    (fuel : Nat) → Fs → (name : List UInt8) → Option Entry → Option Found
  | 0, _, _, _ => none
  | fuel + 1, fs, name, entry => do
      let o ← initramfsNext fs (some name) (UInt64.ofNat PATH_MAX) entry
      if o.ret ≤ 0 then return ⟨0, { o.fs with offset := saved }, o.entry⟩
      let name := o.name.getD name
      if cString name = target then return ⟨1, o.fs, o.entry⟩
      findLoop target saved fuel o.fs name o.entry

def initramfsFind (fuel : Nat) (fs : Fs) (name target : List UInt8) (entry : Option Entry) :
    Option Found :=
  findLoop target fs.offset fuel { fs with offset := 0 } name entry

/-! ## Arithmetic -/

theorem hexDigit_toNat (c : UInt8) : (hexDigit c).toNat = Hex.value c := by
  have hall : ∀ n < 256, (hexDigit (UInt8.ofNat n)).toNat = Hex.value (UInt8.ofNat n) := by
    decide +kernel
  have hc := hall c.toNat c.toNat_lt
  rwa [UInt8.ofNat_toNat] at hc

/-- One turn of the loop, as long as no bit is shifted out. -/
theorem shift_or_toNat {val : UInt64} (c : UInt8) (h : val.toNat * 16 < 2 ^ 64) :
    ((val <<< 4) ||| hexDigit c).toNat = val.toNat * 16 + Hex.value c := by
  have hshift : (val <<< 4).toNat = val.toNat <<< 4 := by
    rw [UInt64.toNat_shiftLeft]
    have hfour : (4 : UInt64).toNat % 64 = 4 := rfl
    rw [hfour, Nat.shiftLeft_eq]
    exact Nat.mod_eq_of_lt h
  have hdigit : Hex.value c < 2 ^ 4 := Hex.value_lt c
  rw [UInt64.toNat_or, hshift, hexDigit_toNat, ← Nat.shiftLeft_add_eq_or_of_lt hdigit, Nat.shiftLeft_eq]

/-- Each character adds four bits at most, whatever it is. -/
theorem parseHexLoop_lt (s : List UInt8) (val : UInt64) {k : Nat} (hval : val.toNat < 16 ^ k)
    (hk : k + s.length ≤ 16) : (parseHexLoop s val).toNat < 16 ^ (k + s.length) := by
  induction s generalizing val k with
  | nil => exact hval
  | cons c s ih =>
      rw [List.length_cons] at hk ⊢
      rw [parseHexLoop]
      split
      next _ => exact Nat.lt_of_lt_of_le hval (Nat.pow_le_pow_right (by decide) (by omega))
      next _ =>
        have hpow : 16 ^ (k + 1) ≤ 2 ^ 64 :=
          Nat.le_trans (Nat.pow_le_pow_right (by decide) (show k + 1 ≤ 16 by omega)) (by decide)
        have hstep : 16 ^ (k + 1) = 16 ^ k * 16 := Nat.pow_succ _ _
        have hdigit := Hex.value_lt c
        have hnext : ((val <<< 4) ||| hexDigit c).toNat < 16 ^ (k + 1) := by
          rw [shift_or_toNat c (by omega)]
          omega
        have hlen : k + (s.length + 1) = k + 1 + s.length := by omega
        rw [hlen]
        exact ih _ hnext (by omega)

theorem parseHex_lt {s : List UInt8} (h : s.length = 8) : (parseHex s).toNat < 2 ^ 32 := by
  have hlt := parseHexLoop_lt s 0 (k := 0) (by decide) (by omega)
  rw [h] at hlt
  exact hlt

theorem align4_toNat {x : UInt64} (h : x.toNat + 3 < 2 ^ 64) :
    (align4 x).toNat = (x.toNat + 3) / 4 * 4 := by
  have hsum : (x + 3).toNat = x.toNat + 3 := by
    rw [UInt64.toNat_add]
    exact Nat.mod_eq_of_lt h
  have hmask : (~~~(3 : UInt64)).toNat = (2 ^ 62 - 1) <<< 2 := by decide
  have hdiv : (x.toNat + 3) / 4 * 4 = ((x.toNat + 3) >>> 2) <<< 2 := by
    rw [Nat.shiftRight_eq_div_pow, Nat.shiftLeft_eq]
  rw [align4, UInt64.toNat_and, hsum, hmask, hdiv]
  apply Nat.eq_of_testBit_eq
  intro i
  rw [Nat.testBit_and, Nat.testBit_shiftLeft, Nat.testBit_shiftLeft, Nat.testBit_shiftRight,
    Nat.testBit_two_pow_sub_one]
  by_cases hi : 2 ≤ i
  · have hadd : 2 + (i - 2) = i := by omega
    rw [hadd]
    by_cases hlt : i - 2 < 62
    · simp [hi, hlt]
    · have hzero : (x.toNat + 3).testBit i = false := by
        apply Nat.testBit_lt_two_pow
        exact Nat.lt_of_lt_of_le h (Nat.pow_le_pow_right (by decide) (by omega))
      simp [hlt, hzero]
  · simp [hi]

/-! ## One call -/

theorem readBytes_eq {archive : List UInt8} {off n : Nat} (h : off + n ≤ archive.length) :
    readBytes archive off n = some ((archive.drop off).take n) := if_pos h

/-- The archive is an object of `archiveSize` bytes, of a size objects can have. -/
structure Fs.Sized (fs : Fs) : Prop where
  length : fs.archive.length = fs.archiveSize.toNat
  lt : fs.archiveSize.toNat < 2 ^ 63

/-- Where the data of a record starts. -/
def dataStart (off namesize : Nat) : Nat := (off + 110 + namesize + 3) / 4 * 4

/-- The offsets that are computed for a record, when none of them wraps around. -/
theorem offsets_toNat {off namesize filesize : UInt64}
    (h : dataStart off.toNat namesize.toNat + filesize.toNat + 3 < 2 ^ 64) :
    (off + CPIO_HEADER_LEN).toNat = off.toNat + 110 ∧
    (off + CPIO_HEADER_LEN + namesize).toNat = off.toNat + 110 + namesize.toNat ∧
    (align4 (off + CPIO_HEADER_LEN + namesize)).toNat = dataStart off.toNat namesize.toNat ∧
    (align4 (off + CPIO_HEADER_LEN + namesize) + filesize).toNat =
      dataStart off.toNat namesize.toNat + filesize.toNat ∧
    (align4 (align4 (off + CPIO_HEADER_LEN + namesize) + filesize)).toNat =
      (dataStart off.toNat namesize.toNat + filesize.toNat + 3) / 4 * 4 := by
  have hhdr : CPIO_HEADER_LEN.toNat = 110 := rfl
  unfold dataStart at h ⊢
  have h₁ : (off + CPIO_HEADER_LEN).toNat = off.toNat + 110 := by
    rw [UInt64.toNat_add, hhdr]
    omega
  have h₂ : (off + CPIO_HEADER_LEN + namesize).toNat = off.toNat + 110 + namesize.toNat := by
    rw [UInt64.toNat_add, h₁]
    omega
  have h₃ := align4_toNat (x := off + CPIO_HEADER_LEN + namesize) (by omega)
  rw [h₂] at h₃
  have h₄ : (align4 (off + CPIO_HEADER_LEN + namesize) + filesize).toNat =
      (off.toNat + 110 + namesize.toNat + 3) / 4 * 4 + filesize.toNat := by
    rw [UInt64.toNat_add, h₃]
    omega
  have h₅ := align4_toNat (x := align4 (off + CPIO_HEADER_LEN + namesize) + filesize) (by omega)
  rw [h₄] at h₅
  exact ⟨h₁, h₂, h₃, h₄, h₅⟩

/-- A record that lies inside the archive, as `initramfs_next` has checked it. -/
structure RecordAt (fs : Fs) (namesize filesize : UInt64) : Prop where
  namesize_lt : namesize.toNat < 2 ^ 32
  filesize_lt : filesize.toNat < 2 ^ 32
  name_le : fs.offset.toNat + 110 + namesize.toNat ≤ fs.archiveSize.toNat
  data_le : dataStart fs.offset.toNat namesize.toNat + filesize.toNat ≤ fs.archiveSize.toNat

theorem copyName_eq (fs : Fs) (nameOff namesize : UInt64) {namelen : UInt64}
    {name : Option (List UInt8)} (hread : nameOff.toNat + namesize.toNat ≤ fs.archive.length)
    (hbuf : ∀ buf ∈ name, 1 ≤ namelen.toNat ∧ namelen.toNat ≤ buf.length) :
    copyName fs nameOff namesize namelen name = some (name.map fun buf =>
      let bytes := (fs.archive.drop nameOff.toNat).take (min namesize.toNat (namelen.toNat - 1))
      bytes ++ 0 :: buf.drop (bytes.length + 1)) := by
  cases name with
  | none => rfl
  | some buf =>
      rcases hbuf buf rfl with ⟨hpos, hle⟩
      have hcplen : (if namesize < namelen then namesize else namelen - 1).toNat =
          min namesize.toNat (namelen.toNat - 1) := by
        have hone : (1 : UInt64).toNat = 1 := rfl
        split
        next hlt =>
          have hlt' := UInt64.lt_iff_toNat_lt.mp hlt
          omega
        next hge =>
          rw [UInt64.lt_iff_toNat_lt] at hge
          have hle' : (1 : UInt64) ≤ namelen := UInt64.le_iff_toNat_le.mpr hpos
          rw [UInt64.toNat_sub_of_le _ _ hle', hone]
          omega
      have hlength : ((fs.archive.drop nameOff.toNat).take
          (min namesize.toNat (namelen.toNat - 1))).length < buf.length := by
        rw [List.length_take]
        omega
      rw [copyName, hcplen, readBytes_eq (by omega)]
      simp only [Option.bind_eq_bind, Option.bind_some, writeName, if_pos hlength, Option.map_some]
      rfl

/-- The checks of `initramfs_next`, without its outputs: the value it returns, or the two sizes
of the record. -/
def Fs.scan (fs : Fs) : Option (Int ⊕ UInt64 × UInt64) := do
  if fs.offset ≥ fs.archiveSize then return .inl 0
  if fs.offset + CPIO_HEADER_LEN > fs.archiveSize then return .inl (-1)
  let magic ← cMagic fs.archive fs.offset.toNat
  if magic ≠ CPIO_MAGIC then return .inl 0
  let namesize := parseHex (← cNamesize fs.archive fs.offset.toNat)
  let filesize := parseHex (← cFilesize fs.archive fs.offset.toNat)
  let nameOff := fs.offset + CPIO_HEADER_LEN
  let dataOff := align4 (nameOff + namesize)
  if nameOff + namesize > fs.archiveSize ∨ dataOff + filesize > fs.archiveSize then
    return .inl (-1)
  return .inr (namesize, filesize)

/-- What a call does with the result of the checks. -/
def Fs.take (fs : Fs) (name : Option (List UInt8)) (namelen : UInt64) (entry : Option Entry) :
    Int ⊕ UInt64 × UInt64 → Option Outcome
  | .inl ret => some ⟨ret, fs, name, entry⟩
  | .inr (namesize, filesize) =>
      (copyName fs (fs.offset + CPIO_HEADER_LEN) namesize namelen name).map fun name =>
        ⟨1, { fs with
            offset := align4 (align4 (fs.offset + CPIO_HEADER_LEN + namesize) + filesize) }, name,
          entry.map fun _ => ⟨align4 (fs.offset + CPIO_HEADER_LEN + namesize), filesize⟩⟩

theorem initramfsNext_eq (fs : Fs) (name : Option (List UInt8)) (namelen : UInt64)
    (entry : Option Entry) :
    initramfsNext fs name namelen entry = fs.scan.bind (fs.take name namelen entry) := by
  unfold initramfsNext Fs.scan
  split
  · rfl
  split
  · rfl
  cases cMagic fs.archive fs.offset.toNat with
  | none => rfl
  | some magic =>
      simp only [Option.bind_eq_bind, Option.bind_some]
      split
      · rfl
      cases cNamesize fs.archive fs.offset.toNat with
      | none => rfl
      | some ns =>
          cases cFilesize fs.archive fs.offset.toNat with
          | none => rfl
          | some fz =>
              simp only [Option.bind_some]
              split
              · rfl
              · simp only [Option.pure_def, Option.bind_some, Fs.take, Option.map_eq_bind]
                rfl

/-- The checks fail, or the record lies inside the archive. -/
theorem scan_cases {fs : Fs} (hfs : fs.Sized) :
    (∃ ret, (ret = 0 ∨ ret = -1) ∧ fs.scan = some (.inl ret)) ∨
    ∃ namesize filesize, RecordAt fs namesize filesize ∧
      fs.scan = some (.inr (namesize, filesize)) := by
  have hlt := hfs.lt
  have hlength := hfs.length
  have hhdr : CPIO_HEADER_LEN.toNat = 110 := rfl
  unfold Fs.scan
  by_cases hend : fs.offset ≥ fs.archiveSize
  · simp only [hend, if_true]
    exact Or.inl ⟨0, Or.inl rfl, rfl⟩
  simp only [hend, if_false]
  rw [ge_iff_le, UInt64.le_iff_toNat_le] at hend
  have hoff : (fs.offset + CPIO_HEADER_LEN).toNat = fs.offset.toNat + 110 := by
    rw [UInt64.toNat_add, hhdr]
    omega
  by_cases hshort : fs.offset + CPIO_HEADER_LEN > fs.archiveSize
  · simp only [hshort, if_true]
    exact Or.inl ⟨-1, Or.inr rfl, rfl⟩
  simp only [hshort, if_false]
  rw [gt_iff_lt, UInt64.lt_iff_toNat_lt, hoff] at hshort
  -- the header lies inside the archive
  rw [cMagic, cNamesize, cFilesize, readBytes_eq (by omega), readBytes_eq (by omega),
    readBytes_eq (by omega)]
  simp only [Option.bind_eq_bind, Option.bind_some]
  by_cases hmagic : (fs.archive.drop fs.offset.toNat).take 6 ≠ CPIO_MAGIC
  · rw [if_pos hmagic]
    exact Or.inl ⟨0, Or.inl rfl, rfl⟩
  rw [if_neg hmagic]
  have hfield (off : Nat) (h : fs.offset.toNat + off + 8 ≤ fs.archive.length) :
      (parseHex ((fs.archive.drop (fs.offset.toNat + off)).take 8)).toNat < 2 ^ 32 := by
    apply parseHex_lt
    rw [List.length_take, List.length_drop]
    omega
  have hnamesize := hfield 94 (by omega)
  have hfilesize := hfield 54 (by omega)
  generalize parseHex ((fs.archive.drop (fs.offset.toNat + 94)).take 8) = namesize at hnamesize ⊢
  generalize parseHex ((fs.archive.drop (fs.offset.toNat + 54)).take 8) = filesize at hfilesize ⊢
  have hfit : dataStart fs.offset.toNat namesize.toNat + filesize.toNat + 3 < 2 ^ 64 := by
    unfold dataStart
    omega
  rcases offsets_toNat hfit with ⟨-, hnameEnd, -, hdataEnd, -⟩
  by_cases hout : fs.offset + CPIO_HEADER_LEN + namesize > fs.archiveSize ∨
      align4 (fs.offset + CPIO_HEADER_LEN + namesize) + filesize > fs.archiveSize
  · rw [if_pos hout]
    exact Or.inl ⟨-1, Or.inr rfl, rfl⟩
  rw [if_neg hout]
  rw [not_or, gt_iff_lt, gt_iff_lt, UInt64.lt_iff_toNat_lt, UInt64.lt_iff_toNat_lt, hnameEnd,
    hdataEnd] at hout
  have hrecord : RecordAt fs namesize filesize :=
    ⟨hnamesize, hfilesize, Nat.le_of_not_lt hout.1, Nat.le_of_not_lt hout.2⟩
  exact Or.inr ⟨namesize, filesize, hrecord, rfl⟩

/-- The name lies inside the archive. -/
theorem RecordAt.name_read {fs : Fs} {namesize filesize : UInt64}
    (h : RecordAt fs namesize filesize) (hfs : fs.Sized) :
    (fs.offset + CPIO_HEADER_LEN).toNat + namesize.toNat ≤ fs.archive.length := by
  have hname := h.name_le
  have hlt := hfs.lt
  have hhdr : CPIO_HEADER_LEN.toNat = 110 := rfl
  rw [UInt64.toNat_add, hhdr, hfs.length]
  omega

/-- The cursor moves on by a header at least. -/
theorem RecordAt.advanced {fs : Fs} {namesize filesize : UInt64}
    (h : RecordAt fs namesize filesize) (hfs : fs.Sized) : fs.offset.toNat + 110 ≤
      (align4 (align4 (fs.offset + CPIO_HEADER_LEN + namesize) + filesize)).toNat := by
  have hlt := hfs.lt
  have hdata := h.data_le
  obtain ⟨-, -, -, -, hoffset⟩ := offsets_toNat
    (show dataStart fs.offset.toNat namesize.toNat + filesize.toNat + 3 < 2 ^ 64 by omega)
  rw [hoffset, dataStart]
  omega

/-- What one call can do: stop and change nothing, or move on behind a record
that lies inside the archive. -/
theorem initramfsNext_cases {fs : Fs} (hfs : fs.Sized) {name : Option (List UInt8)} {namelen : UInt64}
    (hbuf : ∀ buf ∈ name, 1 ≤ namelen.toNat ∧ namelen.toNat ≤ buf.length) (entry : Option Entry) :
    (∃ ret, (ret = 0 ∨ ret = -1) ∧
      initramfsNext fs name namelen entry = some ⟨ret, fs, name, entry⟩) ∨
    ∃ namesize filesize name', RecordAt fs namesize filesize ∧
      copyName fs (fs.offset + CPIO_HEADER_LEN) namesize namelen name = some name' ∧
      initramfsNext fs name namelen entry = some ⟨1,
        { fs with offset := align4 (align4 (fs.offset + CPIO_HEADER_LEN + namesize) + filesize) }, name',
        entry.map fun _ => ⟨align4 (fs.offset + CPIO_HEADER_LEN + namesize), filesize⟩⟩ := by
  rw [initramfsNext_eq]
  rcases scan_cases hfs with ⟨ret, hret, hscan⟩ | ⟨namesize, filesize, hrecord, hscan⟩
  · rw [hscan]
    exact Or.inl ⟨ret, hret, rfl⟩
  · have hread := hrecord.name_read hfs
    have hcopy := copyName_eq fs (fs.offset + CPIO_HEADER_LEN) namesize hread hbuf
    rw [hscan, Option.bind_some, Fs.take, hcopy]
    exact Or.inr ⟨namesize, filesize, _, hrecord, hcopy, rfl⟩

/-- The buffer after a name was copied into it. -/
theorem copyName_buffer {fs : Fs} {nameOff namesize namelen : UInt64} {buf : List UInt8}
    (hread : nameOff.toNat + namesize.toNat ≤ fs.archive.length)
    (hpos : 1 ≤ namelen.toNat) (hle : namelen.toNat ≤ buf.length) :
    ∃ buf', copyName fs nameOff namesize namelen (some buf) = some (some buf') ∧
      buf'.length = buf.length ∧ buf'.drop namelen.toNat = buf.drop namelen.toNat ∧
      0 ∈ buf'.take namelen.toNat := by
  have hbuf : ∀ b ∈ some buf, 1 ≤ namelen.toNat ∧ namelen.toNat ≤ b.length := by
    intro b hb
    rw [← Option.some.inj hb]
    exact ⟨hpos, hle⟩
  rw [copyName_eq fs nameOff namesize hread hbuf, Option.map_some]
  generalize hbytes : (fs.archive.drop nameOff.toNat).take (min namesize.toNat (namelen.toNat - 1)) = bytes
  have hlen : bytes.length + 1 ≤ namelen.toNat := by
    rw [← hbytes, List.length_take]
    omega
  obtain ⟨k, hk⟩ : ∃ k, namelen.toNat = bytes.length + (k + 1) :=
    ⟨namelen.toNat - bytes.length - 1, by omega⟩
  have hsub : bytes.length + (k + 1) - bytes.length = k + 1 := by omega
  refine ⟨_, rfl, ?_, ?_, ?_⟩
  · rw [List.length_append, List.length_cons, List.length_drop]
    omega
  · rw [hk, List.drop_append, List.drop_of_length_le (Nat.le_add_right _ _), List.nil_append, hsub,
      List.drop_succ_cons, List.drop_drop]
    congr 1
    omega
  · rw [hk, List.take_append, hsub, List.take_succ_cons]
    exact List.mem_append_right _ List.mem_cons_self

/-- A call that returns 1: the cursor is at least a header further on, the entry
lies inside the archive, and the name with its NUL in the first `namelen` bytes
of the buffer. -/
structure Moved (fs : Fs) (buf : List UInt8) (namelen : UInt64) (entry : Option Entry) (o : Outcome) :
    Prop where
  ret : o.ret = 1
  archive : o.fs.archive = fs.archive
  archiveSize : o.fs.archiveSize = fs.archiveSize
  inArchive : fs.offset.toNat + 110 ≤ fs.archiveSize.toNat
  advanced : fs.offset.toNat + 110 ≤ o.fs.offset.toNat
  entry : o.entry.isSome = entry.isSome
  inside : ∀ e ∈ o.entry, e.data.toNat + e.size.toNat ≤ fs.archive.length
  name : ∃ buf', o.name = some buf' ∧ buf'.length = buf.length ∧
    buf'.drop namelen.toNat = buf.drop namelen.toNat ∧ 0 ∈ buf'.take namelen.toNat

theorem initramfsNext_spec {fs : Fs} (hfs : fs.Sized) {buf : List UInt8} {namelen : UInt64}
    (hpos : 1 ≤ namelen.toNat) (hle : namelen.toNat ≤ buf.length) (entry : Option Entry) :
    (∃ ret, (ret = 0 ∨ ret = -1) ∧
      initramfsNext fs (some buf) namelen entry = some ⟨ret, fs, some buf, entry⟩) ∨
    ∃ o, initramfsNext fs (some buf) namelen entry = some o ∧ Moved fs buf namelen entry o := by
  have hbuf : ∀ b ∈ some buf, 1 ≤ namelen.toNat ∧ namelen.toNat ≤ b.length := by
    intro b hb
    rw [← Option.some.inj hb]
    exact ⟨hpos, hle⟩
  rcases initramfsNext_cases hfs hbuf entry with hstop |
    ⟨namesize, filesize, name', hrecord, hcopy, hnext⟩
  · exact Or.inl hstop
  · have hlt := hfs.lt
    have hlength := hfs.length
    have hname := hrecord.name_le
    have hdata := hrecord.data_le
    obtain ⟨-, -, hdataStart, -, -⟩ := offsets_toNat
      (show dataStart fs.offset.toNat namesize.toNat + filesize.toNat + 3 < 2 ^ 64 by omega)
    rcases copyName_buffer (hrecord.name_read hfs) hpos hle with ⟨buf', hcopy', hbuf'⟩
    rw [hcopy'] at hcopy
    refine Or.inr ⟨_, hnext, ?_⟩
    constructor
    · rfl
    · rfl
    · rfl
    · omega
    · exact hrecord.advanced hfs
    · exact Option.isSome_map
    · intro e he
      rcases Option.map_eq_some_iff.mp he with ⟨_, -, rfl⟩
      show (align4 _).toNat + filesize.toNat ≤ _
      rw [hdataStart, hlength]
      exact hdata
    · exact ⟨buf', (Option.some.inj hcopy).symm, hbuf'⟩

/-! ## Termination of the search -/

/-- Every turn of the search either ends it or brings the cursor nearer to the end. -/
theorem findLoop_some (target : List UInt8) (saved : UInt64) (n : Nat) {fs : Fs} (hfs : fs.Sized)
    {name : List UInt8} (hname : name.length = PATH_MAX) (entry : Option Entry)
    (hn : fs.archiveSize.toNat - fs.offset.toNat ≤ n) :
    ∃ r, ∀ fuel, n < fuel → findLoop target saved fuel fs name entry = some r := by
  induction n using Nat.strongRecOn generalizing fs name entry with
  | ind n ih =>
      have hpath : (UInt64.ofNat PATH_MAX).toNat = PATH_MAX := rfl
      have hle : (UInt64.ofNat PATH_MAX).toNat ≤ name.length := by rw [hpath, hname]
      rcases initramfsNext_spec hfs (by decide) hle entry with ⟨ret, hret, hnext⟩ | ⟨o, hnext, ho⟩
      · -- the archive ends here, or is broken
        refine ⟨⟨0, { fs with offset := saved }, entry⟩, ?_⟩
        intro fuel hfuel
        rcases Nat.exists_eq_succ_of_ne_zero (Nat.ne_zero_of_lt hfuel) with ⟨fuel, rfl⟩
        have hret' : ret ≤ 0 := by omega
        simp [findLoop, hnext, hret']
      · rcases ho.name with ⟨buf', hbuf', hlength, -, -⟩
        have hret : ¬ o.ret ≤ 0 := by
          rw [ho.ret]
          decide
        by_cases hmatch : cString buf' = target
        · refine ⟨⟨1, o.fs, o.entry⟩, ?_⟩
          intro fuel hfuel
          rcases Nat.exists_eq_succ_of_ne_zero (Nat.ne_zero_of_lt hfuel) with ⟨fuel, rfl⟩
          simp [findLoop, hnext, hret, hbuf', hmatch]
        · -- the search goes on behind this record
          have hinArchive := ho.inArchive
          have hadvanced := ho.advanced
          have hsized : o.fs.Sized := by
            constructor
            · rw [ho.archive, ho.archiveSize]
              exact hfs.length
            · rw [ho.archiveSize]
              exact hfs.lt
          have hcloser : o.fs.archiveSize.toNat - o.fs.offset.toNat ≤ n - 110 := by
            rw [ho.archiveSize]
            omega
          rcases ih (n - 110) (by omega) hsized (hlength.trans hname) o.entry hcloser with ⟨r, hr⟩
          refine ⟨r, ?_⟩
          intro fuel hfuel
          rcases Nat.exists_eq_succ_of_ne_zero (Nat.ne_zero_of_lt hfuel) with ⟨fuel, rfl⟩
          have hgo := hr fuel (by omega)
          simp [findLoop, hnext, hret, hbuf', hmatch, hgo]

/-- The reader is safe on any archive. `initramfs_next` reads inside the archive
only; it writes no byte of the buffer behind the first `namelen`, and a NUL
among those; it returns 1 with an entry inside the archive and the cursor at
least 110 further on, and 0 or -1 with the cursor unchanged. `initramfs_find`
terminates. -/
theorem initramfs_safe {fs : Fs} (hfs : fs.Sized) :
    (∀ (buf : List UInt8) (namelen : UInt64) (entry : Option Entry),
      1 ≤ namelen.toNat → namelen.toNat ≤ buf.length →
      ∃ o, initramfsNext fs (some buf) namelen entry = some o ∧
        (∃ buf', o.name = some buf' ∧ buf'.length = buf.length ∧
          buf'.drop namelen.toNat = buf.drop namelen.toNat ∧
          (o.ret = 1 → 0 ∈ buf'.take namelen.toNat)) ∧
        (o.ret = 1 ∧ fs.offset.toNat + 110 ≤ o.fs.offset.toNat ∧
            o.entry.isSome = entry.isSome ∧
            (∀ e ∈ o.entry, e.data.toNat + e.size.toNat ≤ fs.archive.length) ∨
          (o.ret = 0 ∨ o.ret = -1) ∧ o.fs = fs)) ∧
    ∀ (name target : List UInt8) (entry : Option Entry), name.length = PATH_MAX →
      ∃ r, ∀ fuel, fs.archive.length < fuel → initramfsFind fuel fs name target entry = some r := by
  constructor
  · intro buf namelen entry hpos hle
    rcases initramfsNext_spec hfs hpos hle entry with ⟨ret, hret, hnext⟩ | ⟨o, hnext, ho⟩
    · refine ⟨_, hnext, ⟨buf, rfl, rfl, rfl, ?_⟩, Or.inr ⟨hret, rfl⟩⟩
      intro hone
      have hone' : ret = 1 := hone
      omega
    · rcases ho.name with ⟨buf', hbuf', hlength, hdrop, hzero⟩
      exact ⟨o, hnext, ⟨buf', hbuf', hlength, hdrop, fun _ => hzero⟩,
        Or.inl ⟨ho.ret, ho.advanced, ho.entry, ho.inside⟩⟩
  · intro name target entry hname
    have hsized : Fs.Sized { fs with offset := 0 } := ⟨hfs.length, hfs.lt⟩
    apply findLoop_some target fs.offset fs.archive.length hsized hname entry
    show fs.archiveSize.toNat - 0 ≤ fs.archive.length
    rw [hfs.length]
    exact Nat.sub_le _ _

/-- A header whose sizes are as large as eight digits can say. -/
def oversized : Fs := ⟨CPIO_MAGIC ++ List.replicate 104 0x46, 110, 0⟩

theorem initramfs_safe_oversized :
    ∃ o, initramfsNext oversized (some [0x78]) 1 none = some o ∧ o.ret = -1 ∧ o.fs = oversized := by
  have hsized : oversized.Sized := ⟨by decide, by decide⟩
  rcases (initramfs_safe hsized).1 [0x78] 1 none (by decide) (by decide) with ⟨o, hnext, -, hcases⟩
  have hret : (initramfsNext oversized (some [0x78]) 1 none).map (·.ret) = some (-1) := by
    decide +kernel
  rw [hnext] at hret
  have hminus : o.ret = -1 := Option.some.inj hret
  rcases hcases with ⟨hone, -⟩ | ⟨-, hfs⟩
  · rw [hminus] at hone
    cases hone
  · exact ⟨o, hnext, hminus, hfs⟩

end OmniOS.Initramfs
