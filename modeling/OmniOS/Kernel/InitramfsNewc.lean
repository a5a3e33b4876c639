import OmniOS.Kernel.Initramfs

/-!
# OmniOS.Kernel.InitramfsNewc — reading back newc archives

The newc format, written down without the reader: a record is a header of 110
bytes with sizes in hexadecimal, the name with its NUL, padding to a multiple of
four, the data, and padding again; a record named `TRAILER!!!` ends the archive.

`next_record` is the one fact about the reader: at a record it returns the name
and the data of that record and moves behind it. Iterating and searching
(`visitLoop_archive`, `findLoop_archive`) follow by induction on the files.
-/

namespace OmniOS.Initramfs

/-! ## The format -/

/-- A header field of eight bytes. -/
abbrev Field := { bytes : List UInt8 // bytes.length = 8 }

/-- The header fields the reader has no use for, and the case of every
hexadecimal letter in the two it uses. -/
structure Meta where
  ino : Field
  mode : Field
  uid : Field
  gid : Field
  nlink : Field
  mtime : Field
  devmajor : Field
  devminor : Field
  rdevmajor : Field
  rdevminor : Field
  check : Field
  filesizeCase : Nat → Bool
  namesizeCase : Nat → Bool

/-- The header up to the file size. -/
def Meta.first (m : Meta) : List UInt8 :=
  CPIO_MAGIC ++ m.ino.val ++ m.mode.val ++ m.uid.val ++ m.gid.val ++ m.nlink.val ++ m.mtime.val

/-- The header between the file size and the name size. -/
def Meta.second (m : Meta) : List UInt8 :=
  m.devmajor.val ++ m.devminor.val ++ m.rdevmajor.val ++ m.rdevminor.val

def header (m : Meta) (namesize filesize : Nat) : List UInt8 :=
  m.first ++ (Hex.field m.filesizeCase 8 filesize ++
    (m.second ++ (Hex.field m.namesizeCase 8 namesize ++ m.check.val)))

/-- Zeros up to the next multiple of four. -/
def pad4 (n : Nat) : List UInt8 := List.replicate ((4 - n % 4) % 4) 0

def record (m : Meta) (name data : List UInt8) : List UInt8 :=
  header m (name.length + 1) data.length ++
    (name ++ (0 :: pad4 (110 + (name.length + 1)) ++ (data ++ pad4 data.length)))

/-- `TRAILER!!!`. -/
def trailerName : List UInt8 := [0x54, 0x52, 0x41, 0x49, 0x4C, 0x45, 0x52, 0x21, 0x21, 0x21]

/-- A file that an archive can hold. -/
structure File where
  name : List UInt8
  data : List UInt8
  name_pos : 1 ≤ name.length
  name_le : name.length ≤ 4095
  name_nul : 0 ∉ name
  name_ne : name ≠ trailerName
  data_lt : data.length < 2 ^ 32

/-- The archive of a list of files, each with its header fields, followed by any
number of zeros. -/
def archiveOf (files : List (Meta × File)) (trailer : Meta) (zeros : Nat) : List UInt8 :=
  match files with
  | [] => record trailer trailerName [] ++ List.replicate zeros 0
  | (m, f) :: files => record m f.name f.data ++ archiveOf files trailer zeros

/-! ## Iterating -/

/-- Call `initramfs_next` until it does not return 1; the names and the contents
it returned. -/
def visitLoop (namelen : UInt64) :
    (fuel : Nat) → Fs → (name : List UInt8) → Option (List (List UInt8 × List UInt8))
  | 0, _, _ => none
  | fuel + 1, fs, name => do
      let o ← initramfsNext fs (some name) namelen (some ⟨0, 0⟩)
      if o.ret ≤ 0 then return []
      let name := o.name.getD name
      let contents := o.entry.map fun e => (fs.archive.drop e.data.toNat).take e.size.toNat
      let rest ← visitLoop namelen fuel o.fs name
      return (cString name, contents.getD []) :: rest

/-! ## Lengths and slices -/

theorem length_first (m : Meta) : m.first.length = 54 := by
  simp [Meta.first, CPIO_MAGIC, m.ino.property, m.mode.property, m.uid.property, m.gid.property,
    m.nlink.property, m.mtime.property]

theorem length_second (m : Meta) : m.second.length = 32 := by
  simp [Meta.second, m.devmajor.property, m.devminor.property, m.rdevmajor.property,
    m.rdevminor.property]

theorem length_header (m : Meta) (namesize filesize : Nat) :
    (header m namesize filesize).length = 110 := by
  simp [header, length_first, length_second, Hex.length_field, m.check.property]

/-- Data follows the padded name, and the record ends on a multiple of four. -/
theorem length_record (m : Meta) (name data : List UInt8) {off : Nat} (hoff : off % 4 = 0) :
    off + (record m name data).length =
      (dataStart off (name.length + 1) + data.length + 3) / 4 * 4 := by
  simp only [record, List.length_append, length_header, List.length_cons, pad4, List.length_replicate,
    dataStart]
  omega

/-- The part `mid` of what stands at `off`. -/
theorem slice_of_drop {l : List UInt8} {off : Nat} (pre mid post : List UInt8)
    (h : l.drop off = pre ++ (mid ++ post)) :
    (l.drop (off + pre.length)).take mid.length = mid := by
  rw [← List.drop_drop, h, List.drop_left, List.take_left]

theorem length_of_drop {l pre post : List UInt8} {off : Nat} (h : l.drop off = pre ++ post)
    (hpre : 0 < pre.length) : off + pre.length ≤ l.length := by
  have hlen := congrArg List.length h
  rw [List.length_drop, List.length_append] at hlen
  omega

/-! ## Hexadecimal fields -/

theorem parseHexLoop_eq (s : List UInt8) (hs : ∀ c ∈ s, c ≠ 0) (val : UInt64) {k : Nat}
    (hval : val.toNat < 16 ^ k) (hk : k + s.length ≤ 16) :
    (parseHexLoop s val).toNat = s.foldl (fun acc c => acc * 16 + Hex.value c) val.toNat := by
  induction s generalizing val k with
  | nil => rfl
  | cons c s ih =>
      rw [List.length_cons] at hk
      -- `k` digits were read, so the shift loses none
      have hpow : 16 ^ (k + 1) ≤ 2 ^ 64 :=
        Nat.le_trans (Nat.pow_le_pow_right (by decide) (show k + 1 ≤ 16 by omega)) (by decide)
      have hstep : 16 ^ (k + 1) = 16 ^ k * 16 := Nat.pow_succ _ _
      have hdigit := Hex.value_lt c
      have hnext : ((val <<< 4) ||| hexDigit c).toNat = val.toNat * 16 + Hex.value c :=
        shift_or_toNat c (by omega)
      rw [parseHexLoop, if_neg (hs c List.mem_cons_self), List.foldl_cons, ← hnext]
      apply ih (fun c' hc' => hs c' (List.mem_cons_of_mem c hc')) _ (k := k + 1)
      · rw [hnext]
        omega
      · omega

theorem parseHex_field (upper : Nat → Bool) {v : Nat} (hv : v < 2 ^ 32) :
    (parseHex (Hex.field upper 8 v)).toNat = v := by
  have hlen := Hex.length_field upper 8 v
  rw [parseHex, parseHexLoop_eq _ (Hex.field_ne_zero upper 8 v) 0 (k := 0) (by decide) (by omega)]
  exact (Hex.foldl_field upper 8 v).trans (Nat.mod_eq_of_lt hv)

/-! ## The name in the buffer -/

theorem cString_append {w r : List UInt8} (hw : 0 ∉ w) : cString (w ++ 0 :: r) = w := by
  have hall : ∀ b ∈ w, (b != 0) = true := by
    intro b hb
    simp only [bne_iff_ne, ne_eq]
    rintro rfl
    exact hw hb
  rw [cString, List.takeWhile_append_of_pos hall]
  simp

/-- The name is cut to what the buffer can hold with its NUL. -/
theorem cString_copied {name r : List UInt8} (hname : 0 ∉ name) (k : Nat) :
    cString ((name ++ [0]).take (min (name.length + 1) k) ++ 0 :: r) = name.take k := by
  by_cases hk : name.length + 1 ≤ k
  · -- the NUL of the archive is copied too
    have hmin : min (name.length + 1) k = (name ++ [0]).length := by
      rw [List.length_append, List.length_singleton]
      omega
    rw [hmin, List.take_length, List.append_assoc, List.singleton_append, cString_append hname,
      List.take_of_length_le (by omega)]
  · have hmin : min (name.length + 1) k = k := by omega
    rw [hmin, List.take_append_of_le_length (by omega)]
    exact cString_append fun hmem => hname (List.mem_of_mem_take hmem)

/-! ## Reading one record -/

/-- The three fields the reader looks at. -/
theorem header_fields {l tail : List UInt8} {off : Nat} {m : Meta} {namesize filesize : Nat}
    (h : l.drop off = header m namesize filesize ++ tail) :
    (l.drop off).take 6 = CPIO_MAGIC ∧
    (l.drop (off + 94)).take 8 = Hex.field m.namesizeCase 8 namesize ∧
    (l.drop (off + 54)).take 8 = Hex.field m.filesizeCase 8 filesize := by
  have hfirst := length_first m
  have hsecond := length_second m
  have hfile := Hex.length_field m.filesizeCase 8 filesize
  have hname := Hex.length_field m.namesizeCase 8 namesize
  simp only [header, List.append_assoc] at h
  refine ⟨?_, ?_, ?_⟩
  · rw [h, Meta.first]
    rfl
  · have hslice := slice_of_drop (m.first ++ (Hex.field m.filesizeCase 8 filesize ++ m.second))
      (Hex.field m.namesizeCase 8 namesize) (m.check.val ++ tail)
      (by rw [h]; simp only [List.append_assoc])
    simp only [List.length_append, hfirst, hfile, hsecond, hname] at hslice
    exact hslice
  · have hslice := slice_of_drop m.first (Hex.field m.filesizeCase 8 filesize) _ h
    rw [hfirst, hfile] at hslice
    exact hslice

/-- What the reader finds in a header. -/
theorem header_reads {l tail : List UInt8} {off : Nat} {m : Meta} {namesize filesize : Nat}
    (h : l.drop off = header m namesize filesize ++ tail) :
    cMagic l off = some CPIO_MAGIC ∧
    cNamesize l off = some (Hex.field m.namesizeCase 8 namesize) ∧
    cFilesize l off = some (Hex.field m.filesizeCase 8 filesize) := by
  have hlen := length_of_drop h (by simp [length_header])
  rw [length_header] at hlen
  rcases header_fields h with ⟨hmagic, hns, hfz⟩
  refine ⟨?_, ?_, ?_⟩
  · rw [cMagic, readBytes_eq (by omega), hmagic]
  · rw [cNamesize, readBytes_eq (by omega), hns]
  · rw [cFilesize, readBytes_eq (by omega), hfz]

/-- The archive has the size it is said to have, with room for one more header
below the top of the address range. -/
structure Fs.Fits (fs : Fs) : Prop where
  length : fs.archive.length = fs.archiveSize.toNat
  lt : fs.archiveSize.toNat + 110 ≤ 2 ^ 64

/-- The outcome of reading a record of `len` bytes that holds `name` and `data`. -/
structure Read (fs : Fs) (buf : List UInt8) (namelen : UInt64) (name data : List UInt8) (len : Nat)
    (o : Outcome) : Prop where
  ret : o.ret = 1
  frame : o.fs = { fs with offset := o.fs.offset }
  offset : o.fs.offset.toNat = fs.offset.toNat + len
  name : ∃ buf', o.name = some buf' ∧ buf'.length = buf.length ∧
    cString buf' = name.take (namelen.toNat - 1)
  entry : ∃ e, o.entry = some e ∧ e.size.toNat = data.length ∧
    (fs.archive.drop e.data.toNat).take e.size.toNat = data

/-- A call whose checks all pass. -/
theorem initramfsNext_of_checks {fs : Fs} {name name' : Option (List UInt8)} {namelen : UInt64}
    (entry : Option Entry) {ns fz : List UInt8} (hend : ¬ fs.offset ≥ fs.archiveSize)
    (hshort : ¬ fs.offset + CPIO_HEADER_LEN > fs.archiveSize)
    (hmagic : cMagic fs.archive fs.offset.toNat = some CPIO_MAGIC)
    (hns : cNamesize fs.archive fs.offset.toNat = some ns)
    (hfz : cFilesize fs.archive fs.offset.toNat = some fz)
    (hout : ¬ (fs.offset + CPIO_HEADER_LEN + parseHex ns > fs.archiveSize ∨
      align4 (fs.offset + CPIO_HEADER_LEN + parseHex ns) + parseHex fz > fs.archiveSize))
    (hcopy : copyName fs (fs.offset + CPIO_HEADER_LEN) (parseHex ns) namelen name = some name') :
    initramfsNext fs name namelen entry = some ⟨1,
      { fs with offset := align4 (align4 (fs.offset + CPIO_HEADER_LEN + parseHex ns) + parseHex fz) },
      name', entry.map fun _ => ⟨align4 (fs.offset + CPIO_HEADER_LEN + parseHex ns), parseHex fz⟩⟩ := by
  unfold initramfsNext
  simp only [if_neg hend, if_neg hshort, hmagic, Option.bind_eq_bind, Option.bind_some, ne_eq,
    not_true, if_false, hns, hfz, if_neg hout, hcopy]
  rfl

/-- The name with its NUL, and the data, in the record at `off`. -/
theorem record_parts {l rest : List UInt8} {off : Nat} {m : Meta} {name data : List UInt8}
    (hoff : off % 4 = 0) (h : l.drop off = record m name data ++ rest) :
    (∀ k ≤ name.length + 1, (l.drop (off + 110)).take k = (name ++ [0]).take k) ∧
    (l.drop (dataStart off (name.length + 1))).take data.length = data := by
  have hhdr : (header m (name.length + 1) data.length).length = 110 := length_header _ _ _
  rw [record, List.append_assoc] at h
  constructor
  · intro k hk
    have hat : l.drop (off + 110) = (name ++ [0]) ++
        (pad4 (110 + (name.length + 1)) ++ (data ++ pad4 data.length) ++ rest) := by
      rw [← List.drop_drop, h, ← hhdr, List.drop_left]
      simp
    rw [hat]
    apply List.take_append_of_le_length
    rw [List.length_append, List.length_singleton]
    exact hk
  · have hslice := slice_of_drop
      (header m (name.length + 1) data.length ++ (name ++ (0 :: pad4 (110 + (name.length + 1)))))
      data (pad4 data.length ++ rest) (by rw [h]; simp only [List.append_assoc, List.cons_append])
    have hlen : off + (header m (name.length + 1) data.length ++
        (name ++ (0 :: pad4 (110 + (name.length + 1))))).length =
        dataStart off (name.length + 1) := by
      simp only [List.length_append, hhdr, List.length_cons, pad4, List.length_replicate, dataStart]
      omega
    rw [hlen] at hslice
    exact hslice

theorem next_record {fs : Fs} (hfs : fs.Fits) {m : Meta} {name data rest : List UInt8}
    (hdrop : fs.archive.drop fs.offset.toNat = record m name data ++ rest)
    (halign : fs.offset.toNat % 4 = 0) (hname : 0 ∉ name) (hnamesize : name.length + 1 < 2 ^ 32)
    (hfilesize : data.length < 2 ^ 32) {buf : List UInt8} {namelen : UInt64}
    (hpos : 1 ≤ namelen.toNat) (hle : namelen.toNat ≤ buf.length) (entry : Entry) :
    ∃ o, initramfsNext fs (some buf) namelen (some entry) = some o ∧
      Read fs buf namelen name data (record m name data).length o := by
  have hlength := hfs.length
  have hlt := hfs.lt
  have hrec := length_record m name data halign
  have hend := length_of_drop hdrop (by simp [record, length_header])
  have hstart : fs.offset.toNat + 110 + (name.length + 1) ≤
      dataStart fs.offset.toNat (name.length + 1) := by
    unfold dataStart
    omega
  rcases record_parts halign hdrop with ⟨hnameAt, hdataAt⟩
  rw [record, List.append_assoc] at hdrop
  rcases header_reads hdrop with ⟨hmagic, hns, hfz⟩
  -- the two sizes
  have hns' := parseHex_field m.namesizeCase hnamesize
  have hfz' := parseHex_field m.filesizeCase hfilesize
  generalize Hex.field m.namesizeCase 8 (name.length + 1) = ns at hns hns'
  generalize Hex.field m.filesizeCase 8 data.length = fz at hfz hfz'
  have hfit : dataStart fs.offset.toNat (parseHex ns).toNat + (parseHex fz).toNat + 3 < 2 ^ 64 := by
    rw [hns', hfz']
    omega
  rcases offsets_toNat hfit with ⟨hnameOff, hnameEnd, hdataOff, hdataEnd, hnext⟩
  rw [hns'] at hnameEnd hdataOff hdataEnd hnext
  rw [hfz'] at hdataEnd hnext
  -- none of the checks fails
  have hin : ¬ fs.offset ≥ fs.archiveSize := by
    rw [ge_iff_le, UInt64.le_iff_toNat_le]
    omega
  have hlong : ¬ fs.offset + CPIO_HEADER_LEN > fs.archiveSize := by
    rw [gt_iff_lt, UInt64.lt_iff_toNat_lt, hnameOff]
    omega
  have hinside : ¬ (fs.offset + CPIO_HEADER_LEN + parseHex ns > fs.archiveSize ∨
      align4 (fs.offset + CPIO_HEADER_LEN + parseHex ns) + parseHex fz > fs.archiveSize) := by
    rw [not_or, gt_iff_lt, gt_iff_lt, UInt64.lt_iff_toNat_lt, UInt64.lt_iff_toNat_lt, hnameEnd, hdataEnd]
    omega
  -- the buffer gets the name, cut to its length
  have hbuf : ∀ b ∈ some buf, 1 ≤ namelen.toNat ∧ namelen.toNat ≤ b.length := by
    intro b hb
    rw [← Option.some.inj hb]
    exact ⟨hpos, hle⟩
  have hcopy := copyName_eq fs (fs.offset + CPIO_HEADER_LEN) (parseHex ns)
    (by rw [hnameOff, hns']; omega) hbuf
  rw [hnameOff, hns', hnameAt _ (Nat.min_le_left _ _)] at hcopy
  refine ⟨_, initramfsNext_of_checks (some entry) hin hlong hmagic hns hfz hinside hcopy, ?_⟩
  constructor
  · rfl
  · rfl
  · show (align4 _).toNat = _
    rw [hnext, hrec]
  · refine ⟨_, rfl, ?_, cString_copied hname _⟩
    rw [List.length_append, List.length_cons, List.length_drop, List.length_take, List.length_append,
      List.length_singleton]
    omega
  · refine ⟨_, rfl, hfz', ?_⟩
    show (fs.archive.drop (align4 _).toNat).take (parseHex _).toNat = data
    rw [hdataOff, hfz']
    exact hdataAt

/-- Behind the trailer there is nothing to read. -/
theorem next_zeros {fs : Fs} (hfs : fs.Fits) {zeros : Nat}
    (hdrop : fs.archive.drop fs.offset.toNat = List.replicate zeros 0)
    (name : Option (List UInt8)) (namelen : UInt64) (entry : Option Entry) :
    ∃ ret ≤ 0, initramfsNext fs name namelen entry = some ⟨ret, fs, name, entry⟩ := by
  have hlength := hfs.length
  have hlt := hfs.lt
  have hhdr : CPIO_HEADER_LEN.toNat = 110 := rfl
  unfold initramfsNext
  by_cases hend : fs.offset ≥ fs.archiveSize
  · rw [if_pos hend]
    exact ⟨0, Int.le_refl 0, rfl⟩
  rw [if_neg hend]
  rw [ge_iff_le, UInt64.le_iff_toNat_le] at hend
  by_cases hshort : fs.offset + CPIO_HEADER_LEN > fs.archiveSize
  · rw [if_pos hshort]
    exact ⟨-1, by decide, rfl⟩
  rw [if_neg hshort]
  rw [gt_iff_lt, UInt64.lt_iff_toNat_lt, UInt64.toNat_add, hhdr] at hshort
  have hzeros := congrArg List.length hdrop
  rw [List.length_drop, List.length_replicate] at hzeros
  -- six zeros are not the magic
  have hmagic : (fs.archive.drop fs.offset.toNat).take 6 ≠ CPIO_MAGIC := by
    have hmin : min 6 zeros = 6 := by omega
    rw [hdrop, List.take_replicate, hmin]
    decide
  rw [cMagic, readBytes_eq (by omega), Option.bind_eq_bind, Option.bind_some, if_pos hmagic]
  exact ⟨0, Int.le_refl 0, rfl⟩

/-! ## Whole archives -/

theorem trailerName_nul : 0 ∉ trailerName := by decide

/-- Behind the first record of an archive comes the rest of it. -/
theorem Read.advance {fs : Fs} {buf name data rest : List UInt8} {namelen : UInt64} {m : Meta}
    {o : Outcome} (h : Read fs buf namelen name data (record m name data).length o) (hfs : fs.Fits)
    (hdrop : fs.archive.drop fs.offset.toNat = record m name data ++ rest)
    (halign : fs.offset.toNat % 4 = 0) :
    o.fs.Fits ∧ o.fs.archive = fs.archive ∧ o.fs.archive.drop o.fs.offset.toNat = rest ∧
      o.fs.offset.toNat % 4 = 0 := by
  have harchive : o.fs.archive = fs.archive := by rw [h.frame]
  have hsize : o.fs.archiveSize = fs.archiveSize := by rw [h.frame]
  refine ⟨⟨?_, ?_⟩, harchive, ?_, ?_⟩
  · rw [harchive, hsize]
    exact hfs.length
  · rw [hsize]
    exact hfs.lt
  · rw [harchive, h.offset, ← List.drop_drop, hdrop, List.drop_left]
  · rw [h.offset, length_record m name data halign]
    omega

/-- One turn of the iteration. -/
theorem visitLoop_record {fs : Fs} {buf name data : List UInt8} {namelen : UInt64} {len fuel : Nat}
    {o : Outcome} (hnext : initramfsNext fs (some buf) namelen (some ⟨0, 0⟩) = some o)
    (h : Read fs buf namelen name data len o) {visits : List (List UInt8 × List UInt8)}
    (hrest : ∀ buf' : List UInt8, buf'.length = buf.length →
      visitLoop namelen fuel o.fs buf' = some visits) :
    visitLoop namelen (fuel + 1) fs buf = some ((name.take (namelen.toNat - 1), data) :: visits) := by
  rcases h.name with ⟨buf', hbuf', hlength, hname⟩
  rcases h.entry with ⟨e, he, -, hcontents⟩
  have hret : ¬ o.ret ≤ 0 := by
    rw [h.ret]
    decide
  simp [visitLoop, hnext, hret, hbuf', he, hrest buf' hlength, hname, hcontents]

/-- Iterating visits the files in the order of the archive, then the trailer. -/
theorem visitLoop_archive (files : List (Meta × File)) (trailer : Meta) (zeros : Nat) {fs : Fs}
    (hfs : fs.Fits) (hdrop : fs.archive.drop fs.offset.toNat = archiveOf files trailer zeros)
    (halign : fs.offset.toNat % 4 = 0) {buf : List UInt8} {namelen : UInt64}
    (hpos : 1 ≤ namelen.toNat) (hle : namelen.toNat ≤ buf.length) {fuel : Nat}
    (hfuel : files.length + 2 ≤ fuel) :
    visitLoop namelen fuel fs buf =
      some (files.map (fun f => (f.2.name.take (namelen.toNat - 1), f.2.data)) ++
        [(trailerName.take (namelen.toNat - 1), [])]) := by
  induction files generalizing fs buf fuel with
  | nil =>
      obtain ⟨fuel, rfl⟩ : ∃ k, fuel = k + 1 + 1 := ⟨fuel - 2, by simp at hfuel; omega⟩
      rw [archiveOf] at hdrop
      obtain ⟨o, hnext, hread⟩ :=
        next_record hfs hdrop halign trailerName_nul (by decide) (by decide) hpos hle ⟨0, 0⟩
      rcases hread.advance hfs hdrop halign with ⟨hfits, -, hzeros, -⟩
      apply visitLoop_record hnext hread
      intro buf' _
      rcases next_zeros hfits hzeros (some buf') namelen (some ⟨0, 0⟩) with ⟨ret, hret, hstop⟩
      simp [visitLoop, hstop, hret]
  | cons f files ih =>
      rcases f with ⟨m, f⟩
      obtain ⟨fuel, rfl⟩ : ∃ k, fuel = k + 1 := ⟨fuel - 1, by simp at hfuel; omega⟩
      rw [archiveOf] at hdrop
      have hnamesize : f.name.length + 1 < 2 ^ 32 := by
        have hle' := f.name_le
        omega
      obtain ⟨o, hnext, hread⟩ :=
        next_record hfs hdrop halign f.name_nul hnamesize f.data_lt hpos hle ⟨0, 0⟩
      rcases hread.advance hfs hdrop halign with ⟨hfits, -, hrest, halign'⟩
      apply visitLoop_record hnext hread
      intro buf' hlength
      apply ih hfits hrest halign' (hlength ▸ hle)
      rw [List.length_cons] at hfuel
      omega

/-- One turn of the search: the name decides, and the entry is the record's. -/
theorem findLoop_record {fs : Fs} {buf name data : List UInt8} {entry : Entry} {len fuel : Nat}
    {o : Outcome} (target : List UInt8) (saved : UInt64)
    (hnext : initramfsNext fs (some buf) (UInt64.ofNat PATH_MAX) (some entry) = some o)
    (h : Read fs buf (UInt64.ofNat PATH_MAX) name data len o) (hname : name.length ≤ 4095) :
    ∃ buf' e, buf'.length = buf.length ∧ e.size.toNat = data.length ∧
      (fs.archive.drop e.data.toNat).take e.size.toNat = data ∧
      findLoop target saved (fuel + 1) fs buf (some entry) =
        if name = target then some ⟨1, o.fs, some e⟩
        else findLoop target saved fuel o.fs buf' (some e) := by
  rcases h.name with ⟨buf', hbuf', hlength, hcopied⟩
  rcases h.entry with ⟨e, he, hsize, hcontents⟩
  have hret : ¬ o.ret ≤ 0 := by
    rw [h.ret]
    decide
  have hwhole : cString buf' = name := by
    rw [hcopied]
    exact List.take_of_length_le hname
  refine ⟨buf', e, hlength, hsize, hcontents, ?_⟩
  simp [findLoop, hnext, hret, hbuf', he, hwhole]

/-- The search stops at the first file of that name, or behind the trailer. -/
theorem findLoop_archive (files : List (Meta × File)) (trailer : Meta) (zeros : Nat)
    {target : List UInt8} (htarget : target ≠ trailerName) (saved : UInt64) {fs : Fs}
    (hfs : fs.Fits) (hdrop : fs.archive.drop fs.offset.toNat = archiveOf files trailer zeros)
    (halign : fs.offset.toNat % 4 = 0) {buf : List UInt8} (hbuf : buf.length = PATH_MAX)
    (entry : Entry) {fuel : Nat} (hfuel : files.length + 2 ≤ fuel) :
    ∃ r, findLoop target saved fuel fs buf (some entry) = some r ∧
      (∀ f, files.find? (fun f => f.2.name = target) = some f →
        r.ret = 1 ∧ ∃ e, r.entry = some e ∧ e.size.toNat = f.2.data.length ∧
          (fs.archive.drop e.data.toNat).take e.size.toNat = f.2.data) ∧
      (files.find? (fun f => f.2.name = target) = none → r.ret = 0) := by
  have hle : (UInt64.ofNat PATH_MAX).toNat ≤ buf.length := Nat.le_of_eq hbuf.symm
  induction files generalizing fs buf entry fuel with
  | nil =>
      obtain ⟨fuel, rfl⟩ : ∃ k, fuel = k + 1 + 1 := ⟨fuel - 2, by simp at hfuel; omega⟩
      rw [archiveOf] at hdrop
      obtain ⟨o, hnext, hread⟩ :=
        next_record hfs hdrop halign trailerName_nul (by decide) (by decide) (by decide) hle entry
      rcases hread.advance hfs hdrop halign with ⟨hfits, -, hzeros, -⟩
      rcases findLoop_record target saved hnext hread (by decide) with ⟨buf', e, -, -, -, hloop⟩
      obtain ⟨ret, hret, hstop⟩ :=
        next_zeros hfits hzeros (some buf') (UInt64.ofNat PATH_MAX) (some e)
      have hlast : findLoop target saved (fuel + 1) o.fs buf' (some e) =
          some ⟨0, { o.fs with offset := saved }, some e⟩ := by
        simp [findLoop, hstop, hret]
      rw [hloop, if_neg htarget.symm, hlast]
      exact ⟨_, rfl, fun f hf => by simp at hf, fun _ => rfl⟩
  | cons f files ih =>
      rcases f with ⟨m, f⟩
      obtain ⟨fuel, rfl⟩ : ∃ k, fuel = k + 1 := ⟨fuel - 1, by simp at hfuel; omega⟩
      rw [archiveOf] at hdrop
      have hnamesize : f.name.length + 1 < 2 ^ 32 := by
        have hle' := f.name_le
        omega
      obtain ⟨o, hnext, hread⟩ :=
        next_record hfs hdrop halign f.name_nul hnamesize f.data_lt (by decide) hle entry
      rcases hread.advance hfs hdrop halign with ⟨hfits, harchive, hrest, halign'⟩
      obtain ⟨buf', e, hlength, hsize, hcontents, hloop⟩ :=
        findLoop_record target saved hnext hread f.name_le
      rw [hloop]
      by_cases hmatch : f.name = target
      · -- the record at the cursor is the one
        rw [if_pos hmatch]
        refine ⟨_, rfl, ?_, ?_⟩
        · intro g hg
          rw [List.find?_cons_of_pos (by simpa using hmatch), Option.some.injEq] at hg
          subst hg
          exact ⟨rfl, e, rfl, hsize, hcontents⟩
        · intro hnone
          rw [List.find?_cons_of_pos (by simpa using hmatch)] at hnone
          exact absurd hnone (Option.some_ne_none _)
      · rw [if_neg hmatch, List.find?_cons_of_neg (by simpa using hmatch), ← harchive]
        rw [List.length_cons] at hfuel
        exact ih hfits hrest halign' (hlength.trans hbuf) e (by omega) (hlength ▸ hle)

/-- The reader decodes the newc format: on the archive of any files it visits
them in order, and finds the first one of a name. The bound keeps the archive
inside the address space. -/
theorem newc_decodes (files : List (Meta × File)) (trailer : Meta) (zeros : Nat)
    (hbound : (archiveOf files trailer zeros).length + 110 ≤ 2 ^ 64) :
    let archive := archiveOf files trailer zeros
    let fs := initramfsInit archive (UInt64.ofNat archive.length)
    (∀ (target : List UInt8), target ≠ trailerName → ∀ (buf : List UInt8), buf.length = PATH_MAX →
      ∀ (entry : Entry) (fuel : Nat), files.length + 2 ≤ fuel →
      ∃ r, initramfsFind fuel fs buf target (some entry) = some r ∧
        (∀ f, files.find? (fun f => f.2.name = target) = some f →
          r.ret = 1 ∧ ∃ e, r.entry = some e ∧ e.size.toNat = f.2.data.length ∧
            (archive.drop e.data.toNat).take e.size.toNat = f.2.data) ∧
        (files.find? (fun f => f.2.name = target) = none → r.ret = 0)) ∧
    (∀ (buf : List UInt8) (namelen : UInt64), 1 ≤ namelen.toNat → namelen.toNat ≤ buf.length →
      ∀ fuel, files.length + 2 ≤ fuel →
      visitLoop namelen fuel fs buf =
        some (files.map (fun f => (f.2.name.take (namelen.toNat - 1), f.2.data)) ++
          [(trailerName.take (namelen.toNat - 1), [])])) := by
  intro archive fs
  have hfits : fs.Fits := by
    have hlt : archive.length < 2 ^ 64 :=
      Nat.lt_of_lt_of_le (Nat.lt_add_of_pos_right (by decide)) hbound
    have hsize : (UInt64.ofNat archive.length).toNat = archive.length := by
      rw [UInt64.toNat_ofNat']
      exact Nat.mod_eq_of_lt hlt
    constructor
    · exact hsize.symm
    · exact hsize ▸ hbound
  constructor
  · intro target htarget buf hbuf entry fuel hfuel
    exact findLoop_archive files trailer zeros htarget 0 hfits rfl rfl hbuf entry hfuel
  · intro buf namelen hpos hle fuel hfuel
    exact visitLoop_archive files trailer zeros hfits rfl rfl hpos hle hfuel

/-- Header fields that are all zero, in lower case. -/
def plain : Meta :=
  let zero : Field := ⟨List.replicate 8 0x30, rfl⟩
  ⟨zero, zero, zero, zero, zero, zero, zero, zero, zero, zero, zero, fun _ => false, fun _ => false⟩

/-- A file `a` that holds `hello`. -/
def hello : File where
  name := [0x61]
  data := [0x68, 0x65, 0x6C, 0x6C, 0x6F]
  name_pos := by decide
  name_le := by decide
  name_nul := by decide
  name_ne := by decide
  data_lt := by decide

/-- Searching for `a` finds it; searching for `b` finds nothing. -/
theorem newc_decodes_hello :
    let archive := archiveOf [(plain, hello)] plain 4
    let fs := initramfsInit archive (UInt64.ofNat archive.length)
    let buf := List.replicate PATH_MAX 0
    (∃ r, initramfsFind 3 fs buf [0x61] (some ⟨0, 0⟩) = some r ∧ r.ret = 1) ∧
    (∃ r, initramfsFind 3 fs buf [0x62] (some ⟨0, 0⟩) = some r ∧ r.ret = 0) := by
  intro archive fs buf
  have hbound : (archiveOf [(plain, hello)] plain 4).length + 110 ≤ 2 ^ 64 := by decide +kernel
  have hbuf : buf.length = PATH_MAX := List.length_replicate
  have hfind := (newc_decodes [(plain, hello)] plain 4 hbound).1
  constructor
  · rcases hfind [0x61] (by decide) buf hbuf ⟨0, 0⟩ 3 (by decide) with ⟨r, hr, hfound, -⟩
    exact ⟨r, hr, (hfound _ rfl).1⟩
  · rcases hfind [0x62] (by decide) buf hbuf ⟨0, 0⟩ 3 (by decide) with ⟨r, hr, -, hnone⟩
    exact ⟨r, hr, hnone rfl⟩

end OmniOS.Initramfs
