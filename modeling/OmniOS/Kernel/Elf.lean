import OmniOS.Lib.Space

/-!
# OmniOS.Kernel.Elf — the loader of `kernel/fs/elf.c`

`elf_load` checks the file header, then goes through the program headers and copies every
`PT_LOAD` segment to its address. The file is in the same memory as the segments, so a segment
may be loaded over the file: every header field is read where the code reads it.

`out` is kept apart from memory. `hdr->phentsize * hdr->phnum` is a product of `int`s, and
undefined if it does not fit. Messages are left out.
-/

namespace OmniOS.Elf

open Space

def ELF_MAGIC : Nat := 0x464C457F
def ELFCLASS64 : Nat := 2
def ET_EXEC : Nat := 2
def ET_DYN : Nat := 3
def PT_LOAD : Nat := 1

/-! Offsets of the fields of `elf64_header_t`, and its size. -/

def HDR_CLASS : UInt64 := 4
def HDR_TYPE : UInt64 := 16
def HDR_ENTRY : UInt64 := 24
def HDR_PHOFF : UInt64 := 32
def HDR_PHENTSIZE : UInt64 := 54
def HDR_PHNUM : UInt64 := 56
def HDR_SIZE : UInt64 := 64

/-! The same for `elf64_phdr_t`. -/

def PHDR_OFFSET : UInt64 := 8
def PHDR_VADDR : UInt64 := 16
def PHDR_FILESZ : UInt64 := 32
def PHDR_MEMSZ : UInt64 := 40
def PHDR_SIZE : UInt64 := 56

/-- `elf_loaded_t`. -/
structure Loaded where
  data : UInt64
  size : UInt64
  entry : UInt64
  loadBase : UInt64
deriving DecidableEq

/-- The fields of a `PT_LOAD` header that are used. -/
structure Phdr where
  vaddr : UInt64
  memsz : UInt64
  offset : UInt64
  filesz : UInt64
deriving DecidableEq

def word64 (a : UInt64) : Run UInt64 := do
  return UInt64.ofNat (← word 8 a)

def readPhdr (entry : UInt64) : Run Phdr := do
  let vaddr ← word64 (entry + PHDR_VADDR)
  let memsz ← word64 (entry + PHDR_MEMSZ)
  let offset ← word64 (entry + PHDR_OFFSET)
  let filesz ← word64 (entry + PHDR_FILESZ)
  return ⟨vaddr, memsz, offset, filesz⟩

/-- The copy and the zero fill; the sizes are read again after `memcpy`. -/
def loadSegment (binary entry : UInt64) (h : Phdr) : Run Unit := do
  memcpy h.vaddr (binary + h.offset) h.filesz.toNat
  let memsz ← word64 (entry + PHDR_MEMSZ)
  let filesz ← word64 (entry + PHDR_FILESZ)
  if memsz > filesz then
    memset (h.vaddr + filesz) 0 (memsz - filesz).toNat

/-- The loop over the program headers at `i = 65535 - left`, with `load_base` and `load_end`;
the result `none` is `return -1`. -/
def segmentLoop (binary size phdr : UInt64) :
    (left : Nat) → (loadBase loadEnd : UInt64) → Run (Option (UInt64 × UInt64))
  | 0, loadBase, loadEnd => do
      -- no `uint16_t` is above 65535
      let _ ← word 2 (binary + HDR_PHNUM)
      return some (loadBase, loadEnd)
  | left + 1, loadBase, loadEnd => do
      let i := 65534 - left
      let phnum ← word 2 (binary + HDR_PHNUM)
      if phnum ≤ i then return some (loadBase, loadEnd)
      let entry := phdr + UInt64.ofNat i * PHDR_SIZE
      let type ← word 4 entry
      if type ≠ PT_LOAD then
        segmentLoop binary size phdr left loadBase loadEnd
      else
        let h ← readPhdr entry
        let loadBase := if h.vaddr < loadBase then h.vaddr else loadBase
        let loadEnd := if h.vaddr + h.memsz > loadEnd then h.vaddr + h.memsz else loadEnd
        if h.offset + h.filesz > size then return none
        loadSegment binary entry h
        segmentLoop binary size phdr left loadBase loadEnd

/-- `phdr_size`. -/
def tableSize (binary : UInt64) : Run UInt64 := do
  let phentsize ← word 2 (binary + HDR_PHENTSIZE)
  let phnum ← word 2 (binary + HDR_PHNUM)
  if phentsize * phnum < 2 ^ 31 then return UInt64.ofNat (phentsize * phnum) else undefined

/-- `elf_load` behind the checks on the file header. -/
def loadProgram (binary size : UInt64) (out : Option Loaded) : Run (Int32 × Option Loaded) := do
  let phdrSize ← tableSize binary
  let phoff ← word64 (binary + HDR_PHOFF)
  if phoff + phdrSize > size then return (-1, out)
  match ← segmentLoop binary size (binary + phoff) 65535 (-1) 0 with
  | none => return (-1, out)
  | some (loadBase, _) => do
      let entry ← word64 (binary + HDR_ENTRY)
      return (0, some ⟨binary, size, entry, loadBase⟩)

def elfLoad (binary size : UInt64) (out : Option Loaded) : Run (Int32 × Option Loaded) := do
  if binary = 0 ∨ out = none ∨ size < HDR_SIZE then return (-1, out)
  if (← word 4 binary) ≠ ELF_MAGIC then return (-1, out)
  if (← word 1 (binary + HDR_CLASS)) ≠ ELFCLASS64 then return (-1, out)
  let type ← word 2 (binary + HDR_TYPE)
  if type ≠ ET_EXEC ∧ type ≠ ET_DYN then return (-1, out)
  loadProgram binary size out

/-! ## What the loop sees -/

def phnumAt (m : Mem) (binary : UInt64) : Nat := load m 2 (binary + HDR_PHNUM)

def field64 (m : Mem) (a : UInt64) : UInt64 := UInt64.ofNat (load m 8 a)

/-- The header at `entry`. -/
def phdrAt (m : Mem) (entry : UInt64) : Phdr :=
  ⟨field64 m (entry + PHDR_VADDR), field64 m (entry + PHDR_MEMSZ),
    field64 m (entry + PHDR_OFFSET), field64 m (entry + PHDR_FILESZ)⟩

/-- One turn of the loop: the address of its header, and memory as the turn finds it. -/
structure Turn where
  entry : UInt64
  mem : Mem

section Turn

variable (binary size : UInt64) (t : Turn)

def Turn.isLoad : Bool := load t.mem 4 t.entry == PT_LOAD

def Turn.phdr : Phdr := phdrAt t.mem t.entry

/-- The header at which the loop returns -1. -/
def Turn.refused : Bool := t.isLoad && decide (t.phdr.offset + t.phdr.filesz > size)

/-- Memory after `memcpy`. -/
def Turn.copied : Mem :=
  copy t.mem t.phdr.vaddr (binary + t.phdr.offset) t.phdr.filesz.toNat

/-- The header when its sizes are read again. -/
def Turn.again : Phdr := phdrAt (t.copied binary) t.entry

/-- The number of bytes that `memset` clears. -/
def Turn.cleared : Nat :=
  if (t.again binary).memsz > (t.again binary).filesz then
    ((t.again binary).memsz - (t.again binary).filesz).toNat
  else 0

/-- Memory after `memset`. -/
def Turn.loaded : Mem :=
  fill (t.copied binary) (t.phdr.vaddr + (t.again binary).filesz) 0 (t.cleared binary)

/-- Memory after the turn. -/
def Turn.after : Mem :=
  if t.isLoad && !t.refused size then t.loaded binary else t.mem

/-- `load_base` after the turn. -/
def Turn.base (loadBase : UInt64) : UInt64 :=
  if t.isLoad && decide (t.phdr.vaddr < loadBase) then t.phdr.vaddr else loadBase

/-- `load_end` after the turn. -/
def Turn.limit (loadEnd : UInt64) : UInt64 :=
  if t.isLoad && decide (t.phdr.vaddr + t.phdr.memsz > loadEnd) then t.phdr.vaddr + t.phdr.memsz
  else loadEnd

/-- The reads of `readPhdr`. -/
def headerReads (entry : UInt64) : List Access :=
  [.read (entry + PHDR_VADDR) 8, .read (entry + PHDR_MEMSZ) 8, .read (entry + PHDR_OFFSET) 8,
    .read (entry + PHDR_FILESZ) 8]

/-- The accesses of `loadSegment`. -/
def Turn.segmentAccesses : List Access :=
  [.read (binary + t.phdr.offset) t.phdr.filesz.toNat, .write t.phdr.vaddr t.phdr.filesz.toNat,
    .read (t.entry + PHDR_MEMSZ) 8, .read (t.entry + PHDR_FILESZ) 8] ++
  if (t.again binary).memsz > (t.again binary).filesz then
    [.write (t.phdr.vaddr + (t.again binary).filesz) (t.cleared binary)]
  else []

def Turn.accesses : List Access :=
  [.read (binary + HDR_PHNUM) 2, .read t.entry 4] ++
  if t.isLoad then
    headerReads t.entry ++ if t.refused size then [] else t.segmentAccesses binary
  else []

end Turn

/-- The turns of the loop, up to the one at which it returns -1. -/
def turns (binary size phdr : UInt64) : (left : Nat) → Mem → List Turn
  | 0, _ => []
  | left + 1, m =>
      if phnumAt m binary ≤ 65534 - left then []
      else
        let t : Turn := ⟨phdr + UInt64.ofNat (65534 - left) * PHDR_SIZE, m⟩
        if t.refused size then [t]
        else t :: turns binary size phdr left (t.after binary size)

/-- The headers of type `PT_LOAD`, as the turns meet them. -/
def loads (ts : List Turn) : List Phdr := (ts.filter Turn.isLoad).map Turn.phdr

theorem loads_cons (t : Turn) (ts : List Turn) :
    loads (t :: ts) = if t.isLoad then t.phdr :: loads ts else loads ts := by
  rw [loads, List.filter_cons]
  split
  · rfl
  · rfl

/-- What the loop has done after its turns. -/
structure LoopEnd (binary size : UInt64) (ts : List Turn) (loadBase loadEnd : UInt64) (s : State)
    (result : Option (UInt64 × UInt64)) (s' : State) : Prop where
  result : result = if ts.any (Turn.refused size) then none
    else some (ts.foldl (fun b t => t.base b) loadBase, ts.foldl (fun e t => t.limit e) loadEnd)
  mem : s'.mem = ts.foldl (fun _ t => t.after binary size) s.mem
  trace : s'.trace = s.trace ++ ts.flatMap (Turn.accesses binary size) ++
    if ts.any (Turn.refused size) then [] else [.read (binary + HDR_PHNUM) 2]

section Loop

variable (binary size phdr : UInt64)

theorem word64_bind {α : Type} (a : UInt64) (f : UInt64 → Run α) (s : State) :
    (word64 a >>= f) s = f (field64 s.mem a) ⟨s.mem, s.trace ++ [.read a 8]⟩ := rfl

theorem readPhdr_eq (entry : UInt64) (s : State) :
    readPhdr entry s = some (phdrAt s.mem entry, ⟨s.mem, s.trace ++ headerReads entry⟩) := by
  simp only [readPhdr, word64_bind, pure_eq, List.append_assoc]
  rfl

theorem loadSegment_eq (t : Turn) (trace : List Access) :
    loadSegment binary t.entry t.phdr ⟨t.mem, trace⟩ =
      some ((), ⟨t.loaded binary, trace ++ t.segmentAccesses binary⟩) := by
  have hcopied : copy t.mem t.phdr.vaddr (binary + t.phdr.offset) t.phdr.filesz.toNat =
      t.copied binary := rfl
  have hmemsz : field64 (t.copied binary) (t.entry + PHDR_MEMSZ) = (t.again binary).memsz := rfl
  have hfilesz : field64 (t.copied binary) (t.entry + PHDR_FILESZ) = (t.again binary).filesz := rfl
  simp only [loadSegment, memcpy_bind, word64_bind, hcopied, hmemsz, hfilesz]
  by_cases hmore : (t.again binary).memsz > (t.again binary).filesz
  · rw [if_pos hmore, memset_eq]
    simp only [Turn.loaded, Turn.segmentAccesses, Turn.cleared, if_pos hmore, List.append_assoc]
    rfl
  · have hnone : t.loaded binary = t.copied binary := by
      funext x
      rw [Turn.loaded, Turn.cleared, if_neg hmore]
      exact fill_apply_of_not_range (Nat.not_lt_zero _)
    rw [if_neg hmore, pure_eq, hnone]
    simp only [Turn.segmentAccesses, if_neg hmore, List.append_assoc, List.append_nil]
    rfl

theorem turns_turn {left : Nat} {t : Turn}
    (hentry : phdr + UInt64.ofNat (65534 - left) * PHDR_SIZE = t.entry)
    (hphnum : ¬ phnumAt t.mem binary ≤ 65534 - left) :
    turns binary size phdr (left + 1) t.mem =
      if t.refused size then [t] else t :: turns binary size phdr left (t.after binary size) := by
  rw [turns, if_neg hphnum, hentry]

/-- One turn. -/
theorem segmentLoop_turn {left : Nat} {t : Turn}
    (hentry : phdr + UInt64.ofNat (65534 - left) * PHDR_SIZE = t.entry)
    (hphnum : ¬ phnumAt t.mem binary ≤ 65534 - left) (loadBase loadEnd : UInt64)
    (trace : List Access) :
    segmentLoop binary size phdr (left + 1) loadBase loadEnd ⟨t.mem, trace⟩ =
      if t.refused size then some (none, ⟨t.mem, trace ++ t.accesses binary size⟩)
      else segmentLoop binary size phdr left (t.base loadBase) (t.limit loadEnd)
        ⟨t.after binary size, trace ++ t.accesses binary size⟩ := by
  have hread : load t.mem 2 (binary + HDR_PHNUM) = phnumAt t.mem binary := rfl
  have hphdr : phdrAt t.mem t.entry = t.phdr := rfl
  simp only [segmentLoop, word_bind, hread, if_neg hphnum, hentry]
  by_cases htype : load t.mem 4 t.entry = PT_LOAD
  · -- a segment: the loop ends here, or it is loaded
    have hload : t.isLoad = true := beq_iff_eq.mpr htype
    have hbase : (if t.phdr.vaddr < loadBase then t.phdr.vaddr else loadBase) =
        t.base loadBase := by simp [Turn.base, hload]
    have hlimit : (if t.phdr.vaddr + t.phdr.memsz > loadEnd then t.phdr.vaddr + t.phdr.memsz
        else loadEnd) = t.limit loadEnd := by simp [Turn.limit, hload]
    rw [if_neg (not_not.mpr htype), bind_of_eq (readPhdr_eq t.entry _), hphdr, hbase, hlimit]
    by_cases hout : t.phdr.offset + t.phdr.filesz > size
    · have hrefused : t.refused size = true := by simp [Turn.refused, hload, hout]
      rw [if_pos hout, if_pos hrefused, pure_eq]
      simp [Turn.accesses, hload, hrefused]
    · have hrefused : t.refused size = false := by simp [Turn.refused, hout]
      rw [if_neg hout, hrefused, if_neg Bool.false_ne_true, bind_of_eq (loadSegment_eq binary t _)]
      simp [Turn.after, Turn.accesses, hload, hrefused]
  · have hload : t.isLoad = false := by simp [Turn.isLoad, htype]
    have hrefused : t.refused size = false := by simp [Turn.refused, hload]
    rw [if_pos htype, hrefused, if_neg Bool.false_ne_true]
    simp [Turn.base, Turn.limit, Turn.after, Turn.accesses, hload]

/-- The loop does what its turns do, one after the other. -/
theorem segmentLoop_eq (left : Nat) (loadBase loadEnd : UInt64) (m : Mem) (trace : List Access) :
    ∃ result s', segmentLoop binary size phdr left loadBase loadEnd ⟨m, trace⟩ = some (result, s') ∧
      LoopEnd binary size (turns binary size phdr left m) loadBase loadEnd ⟨m, trace⟩ result
        s' := by
  induction left generalizing loadBase loadEnd m trace with
  | zero => exact ⟨_, _, rfl, rfl, rfl, (List.append_nil _).symm ▸ rfl⟩
  | succ left ih =>
      by_cases hend : phnumAt m binary ≤ 65534 - left
      · have hread : load m 2 (binary + HDR_PHNUM) = phnumAt m binary := rfl
        simp only [segmentLoop, turns, word_bind, hread, if_pos hend]
        exact ⟨_, _, rfl, rfl, rfl, (List.append_nil _).symm ▸ rfl⟩
      obtain ⟨t, ht⟩ : ∃ t : Turn, t = ⟨phdr + UInt64.ofNat (65534 - left) * PHDR_SIZE, m⟩ :=
        ⟨_, rfl⟩
      have hentry : phdr + UInt64.ofNat (65534 - left) * PHDR_SIZE = t.entry := by rw [ht]
      have hmem : m = t.mem := by rw [ht]
      rw [hmem, segmentLoop_turn binary size phdr hentry (hmem ▸ hend),
        turns_turn binary size phdr hentry (hmem ▸ hend)]
      cases hrefused : t.refused size with
      | true =>
          refine ⟨none, _, rfl, ?_, ?_, ?_⟩
          · simp [hrefused]
          · simp [Turn.after, hrefused]
          · simp [hrefused]
      | false =>
          simp only [Bool.false_eq_true, if_false]
          rcases ih (t.base loadBase) (t.limit loadEnd) (t.after binary size)
            (trace ++ t.accesses binary size) with ⟨result, s', hloop, hrest⟩
          have hany (ts : List Turn) :
              (t :: ts).any (Turn.refused size) = ts.any (Turn.refused size) := by
            rw [List.any_cons, hrefused, Bool.false_or]
          refine ⟨result, s', hloop, ?_, hrest.mem, ?_⟩
          · rw [hany]
            exact hrest.result
          · rw [hany, hrest.trace, List.flatMap_cons]
            simp only [List.append_assoc]

end Loop

/-! ## The whole call -/

section Call

variable {m : Mem} {binary size : UInt64} {out : Option Loaded}

/-- The checks on the arguments and the file header, except for the table. -/
structure Checked (m : Mem) (binary size : UInt64) (out : Option Loaded) : Prop where
  pointer : binary ≠ 0
  target : out ≠ none
  header : HDR_SIZE ≤ size
  magic : load m 4 binary = ELF_MAGIC
  cls : load m 1 (binary + HDR_CLASS) = ELFCLASS64
  type : load m 2 (binary + HDR_TYPE) = ET_EXEC ∨ load m 2 (binary + HDR_TYPE) = ET_DYN

/-- `phentsize * phnum`. -/
def tableBytes (m : Mem) (binary : UInt64) : Nat :=
  load m 2 (binary + HDR_PHENTSIZE) * phnumAt m binary

def phoffAt (m : Mem) (binary : UInt64) : UInt64 := field64 m (binary + HDR_PHOFF)

def entryAt (m : Mem) (binary : UInt64) : UInt64 := field64 m (binary + HDR_ENTRY)

/-- The turns of a call that gets to the loop. -/
def fileTurns (m : Mem) (binary size : UInt64) : List Turn :=
  turns binary size (binary + phoffAt m binary) 65535 m

theorem fileTurns_eq (m : Mem) (binary size : UInt64) :
    turns binary size (binary + phoffAt m binary) 65535 m = fileTurns m binary size := rfl

def checkReads (binary : UInt64) : List Access :=
  [.read binary 4, .read (binary + HDR_CLASS) 1, .read (binary + HDR_TYPE) 2]

def tableReads (binary : UInt64) : List Access :=
  [.read (binary + HDR_PHENTSIZE) 2, .read (binary + HDR_PHNUM) 2, .read (binary + HDR_PHOFF) 8]

/-- A header that fails a check is refused, after some of the first reads. -/
theorem elfLoad_unchecked (h : ¬ Checked m binary size out) (trace : List Access) :
    ∃ reads, elfLoad binary size out ⟨m, trace⟩ = some ((-1, out), ⟨m, trace ++ reads⟩) ∧
      reads <+: checkReads binary ∧ (reads ≠ [] → HDR_SIZE ≤ size) := by
  unfold elfLoad
  by_cases harg : binary = 0 ∨ out = none ∨ size < HDR_SIZE
  · rw [if_pos harg, pure_eq]
    exact ⟨[], by rw [List.append_nil], List.nil_prefix, fun hne => absurd rfl hne⟩
  rw [if_neg harg]
  rw [not_or, not_or, UInt64.not_lt] at harg
  rcases harg with ⟨hbinary, hout, hsize⟩
  -- one read before each check
  rw [word_bind]
  by_cases hmagic : load m 4 binary = ELF_MAGIC
  · rw [if_neg (not_not.mpr hmagic), word_bind]
    by_cases hcls : load m 1 (binary + HDR_CLASS) = ELFCLASS64
    · rw [if_neg (not_not.mpr hcls), word_bind]
      have htype : load m 2 (binary + HDR_TYPE) ≠ ET_EXEC ∧
          load m 2 (binary + HDR_TYPE) ≠ ET_DYN := by
        rw [← not_or]
        exact fun htype => h ⟨hbinary, hout, hsize, hmagic, hcls, htype⟩
      rw [if_pos htype, pure_eq, List.append_assoc, List.append_assoc]
      exact ⟨_, rfl, List.prefix_append _ [], fun _ => hsize⟩
    · rw [if_pos hcls, pure_eq, List.append_assoc]
      exact ⟨_, rfl, List.prefix_append _ [Access.read (binary + HDR_TYPE) 2], fun _ => hsize⟩
  · rw [if_pos hmagic, pure_eq]
    exact ⟨_, rfl, List.prefix_append _ _, fun _ => hsize⟩

/-- One that passes them all: the table is looked at. -/
theorem elfLoad_checked (h : Checked m binary size out) (trace : List Access) :
    elfLoad binary size out ⟨m, trace⟩ =
      loadProgram binary size out ⟨m, trace ++ checkReads binary⟩ := by
  have harg : ¬ (binary = 0 ∨ out = none ∨ size < HDR_SIZE) := by
    rw [not_or, not_or, UInt64.not_lt]
    exact ⟨h.pointer, h.target, h.header⟩
  have htype : ¬ (load m 2 (binary + HDR_TYPE) ≠ ET_EXEC ∧
      load m 2 (binary + HDR_TYPE) ≠ ET_DYN) := by
    rw [← not_or, not_not]
    exact h.type
  unfold elfLoad
  rw [if_neg harg, word_bind, if_neg (not_not.mpr h.magic), word_bind, if_neg (not_not.mpr h.cls),
    word_bind, if_neg htype, List.append_assoc, List.append_assoc]
  rfl

theorem loadProgram_overflow (h : ¬ tableBytes m binary < 2 ^ 31) (trace : List Access) :
    loadProgram binary size out ⟨m, trace⟩ = none := by
  have hbytes : load m 2 (binary + HDR_PHENTSIZE) * load m 2 (binary + HDR_PHNUM) =
      tableBytes m binary := rfl
  have htable : tableSize binary ⟨m, trace⟩ = none := by
    simp only [tableSize, word_bind, hbytes, if_neg h]
    rfl
  unfold loadProgram
  show (tableSize binary ⟨m, trace⟩ >>= _) = none
  rw [htable]
  rfl

theorem tableSize_eq (h : tableBytes m binary < 2 ^ 31) (trace : List Access) :
    tableSize binary ⟨m, trace⟩ = some (UInt64.ofNat (tableBytes m binary),
      ⟨m, trace ++ [.read (binary + HDR_PHENTSIZE) 2, .read (binary + HDR_PHNUM) 2]⟩) := by
  have hbytes : load m 2 (binary + HDR_PHENTSIZE) * load m 2 (binary + HDR_PHNUM) =
      tableBytes m binary := rfl
  simp only [tableSize, word_bind, hbytes, if_pos h, pure_eq, List.append_assoc]
  rfl

/-- The headers are not looked at if the table does not fit into the file. -/
theorem loadProgram_table (h : tableBytes m binary < 2 ^ 31)
    (hout : phoffAt m binary + UInt64.ofNat (tableBytes m binary) > size) (trace : List Access) :
    loadProgram binary size out ⟨m, trace⟩ =
      some ((-1, out), ⟨m, trace ++ tableReads binary⟩) := by
  have hphoff : field64 m (binary + HDR_PHOFF) = phoffAt m binary := rfl
  unfold loadProgram
  rw [bind_of_eq (tableSize_eq h trace), word64_bind, hphoff, if_pos hout, pure_eq,
    List.append_assoc]
  rfl

theorem loadProgram_loop (h : tableBytes m binary < 2 ^ 31)
    (hfits : ¬ phoffAt m binary + UInt64.ofNat (tableBytes m binary) > size)
    (out : Option Loaded) (trace : List Access) :
    ∃ s', loadProgram binary size out ⟨m, trace⟩ =
        some (if (fileTurns m binary size).any (Turn.refused size) then (-1, out) else
          (0, some ⟨binary, size, entryAt s'.mem binary,
            (fileTurns m binary size).foldl (fun b t => t.base b) (-1)⟩), s') ∧
      s'.mem = (fileTurns m binary size).foldl (fun _ t => t.after binary size) m ∧
      s'.trace = trace ++ tableReads binary ++
        (fileTurns m binary size).flatMap (Turn.accesses binary size) ++
        if (fileTurns m binary size).any (Turn.refused size) then []
        else [.read (binary + HDR_PHNUM) 2, .read (binary + HDR_ENTRY) 8] := by
  have hphoff : field64 m (binary + HDR_PHOFF) = phoffAt m binary := rfl
  unfold loadProgram
  rw [bind_of_eq (tableSize_eq h trace), word64_bind, hphoff, if_neg hfits]
  rcases segmentLoop_eq binary size (binary + phoffAt m binary) 65535 (-1) 0 m
    (trace ++ tableReads binary) with ⟨result, s₁, hloop, hresult, hmem, htrace⟩
  rw [List.append_assoc]
  change segmentLoop binary size (binary + phoffAt m binary) 65535 (-1) 0
    ⟨m, trace ++ ([Access.read (binary + HDR_PHENTSIZE) 2, Access.read (binary + HDR_PHNUM) 2] ++
      [Access.read (binary + HDR_PHOFF) 8])⟩ = _ at hloop
  rw [fileTurns_eq] at hresult hmem htrace
  rw [bind_of_eq hloop]
  cases hrefused : (fileTurns m binary size).any (Turn.refused size) with
  | true =>
      rw [hrefused, if_pos rfl] at hresult htrace
      rw [hresult]
      exact ⟨s₁, rfl, hmem, htrace⟩
  | false =>
      rw [hrefused, if_neg Bool.false_ne_true] at hresult htrace
      rw [hresult]
      refine ⟨⟨s₁.mem, s₁.trace ++ [.read (binary + HDR_ENTRY) 8]⟩, rfl, hmem, ?_⟩
      rw [htrace, List.append_assoc]
      rfl

/-- The program headers are looked at. -/
structure Reached (m : Mem) (binary size : UInt64) (out : Option Loaded) : Prop where
  checked : Checked m binary size out
  bytes : tableBytes m binary < 2 ^ 31
  table : phoffAt m binary + UInt64.ofNat (tableBytes m binary) ≤ size

variable {r : Int32 × Option Loaded} {trace : List Access} {s' : State}

theorem elfLoad_of_not_reached (h : ¬ Reached m binary size out)
    (hrun : elfLoad binary size out ⟨m, trace⟩ = some (r, s')) : r = (-1, out) ∧ s'.mem = m := by
  by_cases hchecked : Checked m binary size out
  · rw [elfLoad_checked hchecked] at hrun
    by_cases hbytes : tableBytes m binary < 2 ^ 31
    · have hout : phoffAt m binary + UInt64.ofNat (tableBytes m binary) > size :=
        UInt64.not_le.mp fun htable => h ⟨hchecked, hbytes, htable⟩
      rw [loadProgram_table hbytes hout] at hrun
      cases hrun
      exact ⟨rfl, rfl⟩
    · rw [loadProgram_overflow hbytes] at hrun
      cases hrun
  · rcases elfLoad_unchecked hchecked trace with ⟨reads, hunchecked, -⟩
    rw [hunchecked] at hrun
    cases hrun
    exact ⟨rfl, rfl⟩

theorem elfLoad_of_reached (h : Reached m binary size out)
    (hrun : elfLoad binary size out ⟨m, trace⟩ = some (r, s')) :
    (r = if (fileTurns m binary size).any (Turn.refused size) then (-1, out) else
      (0, some ⟨binary, size, entryAt s'.mem binary,
        (fileTurns m binary size).foldl (fun b t => t.base b) (-1)⟩)) ∧
    s'.mem = (fileTurns m binary size).foldl (fun _ t => t.after binary size) m := by
  rcases loadProgram_loop h.bytes (UInt64.not_lt.mpr h.table) out (trace ++ checkReads binary) with
    ⟨s₁, hloop, hmem, -⟩
  rw [elfLoad_checked h.checked, hloop] at hrun
  cases hrun
  exact ⟨rfl, hmem⟩

end Call

end OmniOS.Elf
