import OmniOS.Kernel.InitramfsNewc

/-!
# OmniOS.Kernel.InitramfsFind — what a lookup in the initramfs leaves behind

`initramfs_find` works on the cursor and on the caller's entry. What it does is a matter of
the list of the records from the start of the archive (`findLoop_eq`): it stops at the first
one with the name, with the cursor behind it; or it has read all of them, puts the cursor back
and leaves the last one in the entry.
-/

namespace OmniOS.Initramfs

/-! ## The records of an archive -/

/-- A record: its name as it arrives in the buffer, its data, and the cursor behind it. -/
structure Record where
  name : List UInt8
  entry : Entry
  next : UInt64

/-- The record at the cursor. -/
def Fs.record? (fs : Fs) : Option Record :=
  match fs.scan with
  | some (.inr (namesize, filesize)) =>
      let nameOff := fs.offset + CPIO_HEADER_LEN
      let dataOff := align4 (nameOff + namesize)
      let bytes := (fs.archive.drop nameOff.toNat).take (min namesize.toNat (PATH_MAX - 1))
      some ⟨cString bytes, ⟨dataOff, filesize⟩, align4 (dataOff + filesize)⟩
  | _ => none

def Fs.recordsFrom : (fuel : Nat) → Fs → List Record
  | 0, _ => []
  | fuel + 1, fs =>
      match fs.record? with
      | none => []
      | some r => r :: recordsFrom fuel { fs with offset := r.next }

/-- The records from the start of the archive, up to the first one that cannot be read. -/
def Fs.records (fs : Fs) : List Record :=
  Fs.recordsFrom (fs.archive.length + 1) { fs with offset := 0 }

theorem cString_append_nul (bytes rest : List UInt8) :
    cString (bytes ++ 0 :: rest) = cString bytes := by
  induction bytes with
  | nil => rfl
  | cons b bytes ih =>
      by_cases hb : b = 0
      · simp [cString, hb]
      · unfold cString at ih
        simp [cString, hb, ih]

section Next

variable {fs : Fs} {r : Record} {buf : List UInt8}

theorem path_max_toNat : (UInt64.ofNat PATH_MAX).toNat = PATH_MAX := rfl

theorem next_of_none (hfs : fs.Sized) (hnone : fs.record? = none) (buf : List UInt8)
    (entry : Option Entry) :
    ∃ ret ≤ 0, initramfsNext fs (some buf) (UInt64.ofNat PATH_MAX) entry =
      some ⟨ret, fs, some buf, entry⟩ := by
  rcases scan_cases hfs with ⟨ret, hret, hscan⟩ | ⟨namesize, filesize, -, hscan⟩
  · refine ⟨ret, by omega, ?_⟩
    rw [initramfsNext_eq, hscan]
    rfl
  · rw [Fs.record?, hscan] at hnone
    cases hnone

/-- A call at a record, with any buffer of the right length. -/
theorem next_of_record (hfs : fs.Sized) (hr : fs.record? = some r) (hbuf : buf.length = PATH_MAX)
    (entry : Option Entry) :
    ∃ buf', initramfsNext fs (some buf) (UInt64.ofNat PATH_MAX) entry =
        some ⟨1, { fs with offset := r.next }, some buf', entry.map fun _ => r.entry⟩ ∧
      buf'.length = PATH_MAX ∧ cString buf' = r.name := by
  rcases scan_cases hfs with ⟨ret, hret, hscan⟩ | ⟨namesize, filesize, hrecord, hscan⟩
  · rw [Fs.record?, hscan] at hr
    cases hr
  · have hmax : PATH_MAX = 4096 := rfl
    have hfits : ∀ b ∈ some buf, 1 ≤ (UInt64.ofNat PATH_MAX).toNat ∧
        (UInt64.ofNat PATH_MAX).toNat ≤ b.length := by
      intro b hb
      rw [← Option.some.inj hb, path_max_toNat]
      omega
    have hcopy := copyName_eq fs (fs.offset + CPIO_HEADER_LEN) namesize (hrecord.name_read hfs)
      hfits
    rw [Option.map_some, path_max_toNat] at hcopy
    rw [Fs.record?, hscan] at hr
    cases hr
    rw [initramfsNext_eq, hscan, Option.bind_some, Fs.take, hcopy]
    refine ⟨_, rfl, ?_, cString_append_nul _ _⟩
    rw [List.length_append, List.length_cons, List.length_drop, List.length_take]
    omega

theorem record?_next (hfs : fs.Sized) (hr : fs.record? = some r) :
    fs.offset.toNat + 110 ≤ fs.archiveSize.toNat ∧ fs.offset.toNat + 110 ≤ r.next.toNat := by
  rcases scan_cases hfs with ⟨ret, hret, hscan⟩ | ⟨namesize, filesize, hrecord, hscan⟩
  · rw [Fs.record?, hscan] at hr
    cases hr
  · have hname := hrecord.name_le
    rw [Fs.record?, hscan] at hr
    cases hr
    exact ⟨by omega, hrecord.advanced hfs⟩

end Next

/-! ## The search -/

/-- What a search leaves that has read these records. -/
def searched (target : List UInt8) (saved : UInt64) (fs : Fs) (entry : Option Entry)
    (rs : List Record) : Found :=
  match rs.find? fun r => r.name = target with
  | some r => ⟨1, { fs with offset := r.next }, entry.map fun _ => r.entry⟩
  | none =>
      ⟨0, { fs with offset := saved }, entry.map fun e => (rs.getLast?.map Record.entry).getD e⟩

section Search

variable {fs : Fs} {name target : List UInt8} {entry : Option Entry}

theorem findLoop_eq (saved : UInt64) (n : Nat) (hfs : fs.Sized) (hname : name.length = PATH_MAX)
    (entry : Option Entry) {fuel : Nat} (hn : fs.archiveSize.toNat - fs.offset.toNat < n)
    (hfuel : fs.archiveSize.toNat - fs.offset.toNat < fuel) :
    findLoop target saved fuel fs name entry =
      some (searched target saved fs entry (Fs.recordsFrom n fs)) := by
  induction n generalizing fs name entry fuel with
  | zero => exact absurd hn (Nat.not_lt_zero _)
  | succ n ih =>
      obtain ⟨fuel, rfl⟩ := Nat.exists_eq_succ_of_ne_zero (Nat.ne_zero_of_lt hfuel)
      cases hr : fs.record? with
      | none =>
          obtain ⟨ret, hret, hnext⟩ := next_of_none hfs hr name entry
          simp [findLoop, hnext, hret, Fs.recordsFrom, hr, searched]
      | some r =>
          obtain ⟨buf', hnext, hlength, hcopied⟩ := next_of_record hfs hr hname entry
          obtain ⟨hin, hadvanced⟩ := record?_next hfs hr
          have hsized : Fs.Sized { fs with offset := r.next } := ⟨hfs.length, hfs.lt⟩
          have hpos : ¬ (1 : Int) ≤ 0 := by decide
          simp only [findLoop, hnext, Option.bind_eq_bind, Option.bind_some, if_neg hpos,
            Option.getD_some, hcopied, Fs.recordsFrom, hr]
          by_cases hmatch : r.name = target
          · simp [hmatch, searched]
          · -- the search goes on behind this record
            have hcloser : fs.archiveSize.toNat - r.next.toNat < n := by omega
            have hcloser' : fs.archiveSize.toNat - r.next.toNat < fuel := by omega
            rw [if_neg hmatch, ih hsized hlength _ hcloser hcloser']
            simp only [searched, List.find?_cons, hmatch, decide_false]
            obtain ⟨rest, hrest⟩ : ∃ rest, Fs.recordsFrom n { fs with offset := r.next } = rest :=
              ⟨_, rfl⟩
            rw [hrest]
            cases rest.find? fun r => r.name = target with
            | some found => cases entry <;> rfl
            | none =>
                rw [List.getLast?_cons]
                cases rest.getLast? <;> cases entry <;> rfl

theorem initramfsFind_eq (hfs : fs.Sized) (hname : name.length = PATH_MAX) (target : List UInt8)
    (entry : Option Entry) {fuel : Nat} (hfuel : fs.archive.length < fuel) :
    initramfsFind fuel fs name target entry =
      some (searched target fs.offset fs entry fs.records) := by
  have hsized : Fs.Sized { fs with offset := 0 } := ⟨hfs.length, hfs.lt⟩
  have hlength := hfs.length
  have hzero : (0 : UInt64).toNat = 0 := rfl
  exact findLoop_eq fs.offset _ hsized hname entry (by simp only [hzero]; omega)
    (by simp only [hzero]; omega)

/-- The lookup is pure at these arguments: its result is the same for every cursor, the cursor
is where it was, and the entry is too if the file is not found. -/
def PureLookup (fs : Fs) (name target : List UInt8) (entry : Option Entry) : Prop :=
  ∃ r, (∀ fuel, fs.archive.length < fuel → initramfsFind fuel fs name target entry = some r) ∧
    (∀ (cursor : UInt64) fuel, fs.archive.length < fuel →
      ∃ r', initramfsFind fuel { fs with offset := cursor } name target entry = some r' ∧
        r'.ret = r.ret ∧ r'.entry = r.entry) ∧
    r.fs.offset = fs.offset ∧ (r.ret = 0 → r.entry = entry)

/-- The cursor has no part in the result. -/
theorem searched_result (target : List UInt8) (saved saved' : UInt64) (fs : Fs) (cursor : UInt64)
    (entry : Option Entry) (rs : List Record) :
    (searched target saved' { fs with offset := cursor } entry rs).ret =
      (searched target saved fs entry rs).ret ∧
    (searched target saved' { fs with offset := cursor } entry rs).entry =
      (searched target saved fs entry rs).entry := by
  unfold searched
  split
  · exact ⟨rfl, rfl⟩
  · exact ⟨rfl, rfl⟩

theorem pureLookup_iff_searched (hfs : fs.Sized) (hname : name.length = PATH_MAX) :
    PureLookup fs name target entry ↔
      (searched target fs.offset fs entry fs.records).fs.offset = fs.offset ∧
      ((searched target fs.offset fs entry fs.records).ret = 0 →
        (searched target fs.offset fs entry fs.records).entry = entry) := by
  constructor
  · rintro ⟨r, hrun, -, hoffset, hentry⟩
    have heq := (hrun _ (Nat.lt_succ_self _)).symm.trans
      (initramfsFind_eq hfs hname target entry (Nat.lt_succ_self _))
    rw [← Option.some.inj heq]
    exact ⟨hoffset, hentry⟩
  · rintro ⟨hoffset, hentry⟩
    refine ⟨_, fun fuel => initramfsFind_eq hfs hname target entry, ?_, hoffset, hentry⟩
    intro cursor fuel hfuel
    have hsized : Fs.Sized { fs with offset := cursor } := ⟨hfs.length, hfs.lt⟩
    exact ⟨_, initramfsFind_eq hsized hname target entry hfuel, searched_result _ _ _ _ _ _ _⟩

/-- A lookup is pure exactly if the cursor is already behind the file that is found; or, if
none is, nothing is left in the entry that was not there: there is no entry, no record, or it
holds the last one already. -/
theorem initramfs_find_pure_iff (hfs : fs.Sized) (hname : name.length = PATH_MAX)
    (target : List UInt8) (entry : Option Entry) :
    PureLookup fs name target entry ↔
      (∀ r, fs.records.find? (fun r => r.name = target) = some r → fs.offset = r.next) ∧
      (fs.records.find? (fun r => r.name = target) = none →
        ∀ r ∈ fs.records.getLast?, ∀ e ∈ entry, e = r.entry) := by
  rw [pureLookup_iff_searched hfs hname, searched]
  cases fs.records.find? fun r => r.name = target with
  | some r => simp [eq_comm]
  | none =>
      cases hlast : fs.records.getLast? with
      | none => simp
      | some r => cases entry <;> simp [eq_comm]

end Search

/-- The archive of one file `a`, with the cursor somewhere. -/
def helloFs (cursor : UInt64) : Fs := ⟨archiveOf [(plain, hello)] plain 4, 248, cursor⟩

theorem helloFs_sized (cursor : UInt64) : (helloFs cursor).Sized where
  length := by
    have hlength : (archiveOf [(plain, hello)] plain 4).length = 248 := by decide +kernel
    exact hlength
  lt := by
    show (248 : UInt64).toNat < 2 ^ 63
    decide

def zeroBuffer : List UInt8 := List.replicate PATH_MAX 0

theorem zeroBuffer_length : zeroBuffer.length = PATH_MAX := List.length_replicate

/-- A second lookup of the same file. -/
theorem initramfs_find_pure_again :
    PureLookup (helloFs 120) zeroBuffer [0x61] (some ⟨0, 0⟩) := by
  have hfind : ((helloFs 120).records.find? fun r => r.name = [0x61]).map (·.next) = some 120 := by
    decide +kernel
  refine (initramfs_find_pure_iff (helloFs_sized 120) zeroBuffer_length _ _).mpr ⟨?_, ?_⟩
  · intro r hr
    rw [hr] at hfind
    exact (Option.some.inj hfind).symm
  · intro hnone
    rw [hnone] at hfind
    cases hfind

/-- A file that is found takes the cursor along; one that is not leaves the last record in the
entry. -/
theorem initramfs_find_impure :
    ¬ PureLookup (helloFs 0) zeroBuffer [0x61] (some ⟨0, 0⟩) ∧
    ¬ PureLookup (helloFs 0) zeroBuffer [0x62] (some ⟨0, 0⟩) := by
  have hfound : (searched [0x61] (helloFs 0).offset (helloFs 0) (some ⟨0, 0⟩)
      (helloFs 0).records).fs.offset = 120 := by decide +kernel
  have hmissed : (searched [0x62] (helloFs 0).offset (helloFs 0) (some ⟨0, 0⟩)
      (helloFs 0).records).ret = 0 := by decide +kernel
  have hlast : (searched [0x62] (helloFs 0).offset (helloFs 0) (some ⟨0, 0⟩)
      (helloFs 0).records).entry.map Entry.data = some 244 := by decide +kernel
  rw [pureLookup_iff_searched (helloFs_sized 0) zeroBuffer_length, hfound,
    pureLookup_iff_searched (helloFs_sized 0) zeroBuffer_length, hmissed]
  constructor
  · exact fun h => absurd h.1 (by decide)
  · rintro ⟨-, hentry⟩
    rw [hentry rfl] at hlast
    exact absurd hlast (by decide)

end OmniOS.Initramfs
