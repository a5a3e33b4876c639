import Mathlib.Algebra.Group.Int.Defs
import OmniOS.Lib.Records

/-!
# OmniOS.Kernel.Acpi — the tables of `kernel/arch/x86_64/acpi.c`

`find_table` goes through the addresses in the RSDT; three loops go through the entries of
the MADT, one to print both counts and one for each count.

1. **Model.** Pointers are addresses, 0 is `NULL`. Beside their results the functions return
   the addresses that their loops read. Loops over the MADT have a bound on their turns,
   and end with `none` when it is used up.
2. **The RSDT.** The number of entries is an unsigned difference, but of a table that is too
   short it becomes a negative `int`, so every entry that is read is inside (`entry_inside`).
3. **The MADT.** The loops take the length of an entry as it is: with 0 they stay at the entry
   for ever, and of an entry that starts in the last byte they read the length behind the
   table.
-/

namespace OmniOS.Acpi

open Memory

def MADT_LAPIC : UInt8 := 0
def MADT_IOAPIC : UInt8 := 1

/-- "RSD PTR ". -/
def rsdPtr : List UInt8 := [0x52, 0x53, 0x44, 0x20, 0x50, 0x54, 0x52, 0x20]

/-- "FACP". -/
def facp : List UInt8 := [0x46, 0x41, 0x43, 0x50]

/-- "APIC". -/
def apic : List UInt8 := [0x41, 0x50, 0x49, 0x43]

/-- The size of `acpi_sdt_header_t`. The `length` that `acpi.c` reads is missing in the
struct of `acpi.h`; it is taken from where the standard has it, and the size is left open. -/
structure Layout where
  headerSize : Nat
  headerSize_lt : headerSize < 2 ^ 16

/-- `sizeof(madt_t)`. -/
def Layout.madtSize (l : Layout) : Nat := l.headerSize + 8

/-- `header.length`. -/
def tableLength (m : Mem) (table : Nat) : Nat := load m 4 (table + 4)

def findRsdp (m : Mem) : Nat :=
  let ebda := load m 2 0x40E * 16
  match ((List.range 64).map (ebda + 16 * ·)).find? (fun a => bytes m 8 a = rsdPtr) with
  | some a => a
  | none =>
      (((List.range 0x2000).map (0xE0000 + 16 * ·)).find? (fun a => bytes m 8 a = rsdPtr)).getD 0

def acpiChecksum (m : Mem) (table length : Nat) : Bool :=
  (bytes m length table).foldl (· + ·) 0 == 0

/-- `(length - sizeof(acpi_sdt_header_t)) / 4` in 64 bits, as an `int`. -/
def entryCount (l : Layout) (length : Nat) : Int :=
  Int.bmod (sub64 length l.headerSize / 4) (2 ^ 32)

/-- The loop over the entries at the given addresses: the table, and the entries that were
read. -/
def findLoop (m : Mem) (sig : List UInt8) : List Nat → Nat × List Nat
  | [] => (0, [])
  | a :: rest =>
      let hdr := load m 4 a
      if bytes m 4 hdr = sig ∧ acpiChecksum m hdr (tableLength m hdr) = true then (hdr, [a])
      else ((findLoop m sig rest).1, a :: (findLoop m sig rest).2)

/-- `rsdp->rsdt_addr`. -/
def rsdtAddr (m : Mem) (rsdp : Nat) : Nat := load m 4 (rsdp + 16)

def findTable (l : Layout) (m : Mem) (rsdp : Nat) (sig : List UInt8) : Nat × List Nat :=
  if rsdp = 0 then (0, [])
  else
    let rsdt := rsdtAddr m rsdp
    if !acpiChecksum m rsdt (tableLength m rsdt) then (0, [])
    else
      findLoop m sig ((List.range (entryCount l (tableLength m rsdt)).toNat).map
        (rsdt + l.headerSize + 4 * ·))

/-- What `acpi_init` returns and finds: the counts are what it prints of the MADT. -/
structure Init where
  result : Int
  fadt : Nat
  counts : Option (UInt32 × UInt32)
  reads : List Nat

def countBoth (type : UInt8) (counts : UInt32 × UInt32) : UInt32 × UInt32 :=
  if type = MADT_LAPIC then (counts.1 + 1, counts.2)
  else if type = MADT_IOAPIC then (counts.1, counts.2 + 1)
  else counts

def acpiInit (l : Layout) (fuel : Nat) (m : Mem) : Option Init :=
  let rsdp := findRsdp m
  if rsdp = 0 then some ⟨-1, 0, none, []⟩
  else
    let fadt := (findTable l m rsdp facp).1
    if fadt = 0 then some ⟨-1, 0, none, []⟩
    else
      let madt := (findTable l m rsdp apic).1
      if madt = 0 then some ⟨0, fadt, none, []⟩
      else
        (Records.walk countBoth m (madt + tableLength m madt) fuel (madt + l.madtSize) (0, 0)).map
          fun r => ⟨0, fadt, some r.1, r.2⟩

def acpiGetMadt (l : Layout) (m : Mem) (rsdp : Nat) : Option (Nat × Nat) :=
  let madt := (findTable l m rsdp apic).1
  if madt = 0 then none else some (madt, tableLength m madt)

def countOne (wanted type : UInt8) (count : UInt32) : UInt32 :=
  if type = wanted then count + 1 else count

/-- The entries of one type. -/
def acpiGetCount (wanted : UInt8) (l : Layout) (fuel : Nat) (m : Mem) (rsdp : Nat) :
    Option (UInt32 × List Nat) :=
  match acpiGetMadt l m rsdp with
  | none => some (0, [])
  | some (addr, size) =>
      Records.walk (countOne wanted) m (addr + size) fuel (addr + l.madtSize) 0

def acpiGetLapicCount : Layout → Nat → Mem → Nat → Option (UInt32 × List Nat) :=
  acpiGetCount MADT_LAPIC

def acpiGetIoapicCount : Layout → Nat → Mem → Nat → Option (UInt32 × List Nat) :=
  acpiGetCount MADT_IOAPIC

/-! ## The RSDT -/

/-- The `n` bytes from `a` on are inside the table. -/
def Inside (m : Mem) (table a n : Nat) : Prop := table ≤ a ∧ a + n ≤ table + tableLength m table

section Entries

variable (l : Layout) (m : Mem)

/-- A table that is too short has a negative number of entries. -/
theorem entry_inside {length i : Nat} (hlength : length < 2 ^ 32)
    (hi : i < (entryCount l length).toNat) : l.headerSize + 4 * i + 4 ≤ length := by
  have hsize := l.headerSize_lt
  unfold entryCount sub64 at hi
  rw [Int.bmod_def] at hi
  split at hi
  · omega
  · omega

theorem findLoop_reads (sig : List UInt8) (entries : List Nat) :
    (findLoop m sig entries).2 ⊆ entries := by
  induction entries with
  | nil => exact List.Subset.refl _
  | cons a rest ih =>
      rw [findLoop]
      split
      · exact List.cons_subset_cons a (List.nil_subset rest)
      · exact List.cons_subset_cons a ih

/-- Every entry that is read is inside the RSDT. -/
theorem findTable_inside (rsdp : Nat) (sig : List UInt8) :
    ∀ a ∈ (findTable l m rsdp sig).2, Inside m (rsdtAddr m rsdp) a 4 := by
  intro a ha
  rw [findTable] at ha
  split at ha
  · exact absurd ha List.not_mem_nil
  · simp only at ha
    split at ha
    · exact absurd ha List.not_mem_nil
    · rcases List.mem_map.mp (findLoop_reads m sig _ ha) with ⟨i, hi, rfl⟩
      have hlength : tableLength m (rsdtAddr m rsdp) < 2 ^ 32 := load_lt m 4 _
      have hentry := entry_inside l hlength (List.mem_range.mp hi)
      unfold Inside
      omega

end Entries

/-! ## The MADT -/

/-- The counts of `acpi_init` are those of the other two functions. -/
theorem foldl_countBoth (types : List UInt8) (counts : UInt32 × UInt32) :
    types.foldl (fun s t => countBoth t s) counts =
      (types.foldl (fun s t => countOne MADT_LAPIC t s) counts.1,
        types.foldl (fun s t => countOne MADT_IOAPIC t s) counts.2) := by
  induction types generalizing counts with
  | nil => rfl
  | cons type types ih =>
      have hone : countBoth type counts =
          (countOne MADT_LAPIC type counts.1, countOne MADT_IOAPIC type counts.2) := by
        unfold countBoth countOne
        by_cases hlapic : type = MADT_LAPIC
        · have hne : type ≠ MADT_IOAPIC := by
            rw [hlapic]
            decide
          rw [if_pos hlapic, if_pos hlapic, if_neg hne]
        · rw [if_neg hlapic, if_neg hlapic]
          split
          · rfl
          · rfl
      rw [List.foldl_cons, List.foldl_cons, List.foldl_cons, ih, hone]

/-- The MADT that is found, or 0. -/
def foundMadt (l : Layout) (m : Mem) : Nat := (findTable l m (findRsdp m) apic).1

/-- The types and addresses that a loop over the entries meets. -/
def entryScan (l : Layout) (m : Mem) (fuel : Nat) : Option (List UInt8 × List Nat) :=
  Records.scan m (foundMadt l m + tableLength m (foundMadt l m)) fuel (foundMadt l m + l.madtSize)

/-- The three loops end, inside the table, with the same counts. -/
def LoopsRight (l : Layout) (m : Mem) : Prop :=
  ∃ fuel init lapics ioapics, acpiInit l fuel m = some init ∧
    acpiGetLapicCount l fuel m (findRsdp m) = some lapics ∧
    acpiGetIoapicCount l fuel m (findRsdp m) = some ioapics ∧
    (∀ a ∈ init.reads ++ lapics.2 ++ ioapics.2, Inside m (foundMadt l m) a 1) ∧
    ∀ counts ∈ init.counts, counts = (lapics.1, ioapics.1)

/-- The walks end, stay in their tables and agree. -/
structure WalksRight (l : Layout) (m : Mem) : Prop where
  entries : ∀ sig, ∀ a ∈ (findTable l m (findRsdp m) sig).2,
    Inside m (rsdtAddr m (findRsdp m)) a 4
  loops : LoopsRight l m

/-- From the end of `madt_t` on, every entry has its first two bytes in the MADT and a
length. -/
def EntriesEnd (l : Layout) (m : Mem) : Prop :=
  foundMadt l m ≠ 0 →
    Records.Ends m (foundMadt l m + tableLength m (foundMadt l m)) (foundMadt l m + l.madtSize)

section Loops

variable {l : Layout} {m : Mem} {fuel : Nat}

theorem acpiGetCount_of_none (hmadt : foundMadt l m = 0) (wanted : UInt8) (fuel : Nat) :
    acpiGetCount wanted l fuel m (findRsdp m) = some (0, []) := by
  rw [foundMadt] at hmadt
  rw [acpiGetCount, acpiGetMadt, if_pos hmadt]

theorem acpiGetCount_of_some (hmadt : foundMadt l m ≠ 0) (wanted : UInt8) (fuel : Nat) :
    acpiGetCount wanted l fuel m (findRsdp m) = (entryScan l m fuel).map
      fun r => (r.1.foldl (fun s t => countOne wanted t s) 0, r.2) := by
  rw [foundMadt] at hmadt
  rw [acpiGetCount, acpiGetMadt, if_neg hmadt]
  exact Records.walk_eq_scan ..

theorem acpiInit_of_some (hrsdp : findRsdp m ≠ 0)
    (hfadt : (findTable l m (findRsdp m) facp).1 ≠ 0) (hmadt : foundMadt l m ≠ 0) (fuel : Nat) :
    acpiInit l fuel m = (entryScan l m fuel).map fun r =>
      ⟨0, (findTable l m (findRsdp m) facp).1,
        some (r.1.foldl (fun s t => countBoth t s) (0, 0)), r.2⟩ := by
  rw [foundMadt] at hmadt
  rw [acpiInit, if_neg hrsdp, if_neg hfadt, if_neg hmadt, Records.walk_eq_scan, Option.map_map]
  rfl

/-- `acpi_init` reaches its loop only with a MADT. -/
theorem acpiInit_cases (l : Layout) (m : Mem) :
    (∃ result fadt, ∀ fuel, acpiInit l fuel m = some ⟨result, fadt, none, []⟩) ∨
      foundMadt l m ≠ 0 ∧ ∃ fadt, ∀ fuel, acpiInit l fuel m = (entryScan l m fuel).map
        fun r => ⟨0, fadt, some (r.1.foldl (fun s t => countBoth t s) (0, 0)), r.2⟩ := by
  by_cases hrsdp : findRsdp m = 0
  · exact Or.inl ⟨-1, 0, fun fuel => by rw [acpiInit, if_pos hrsdp]⟩
  · by_cases hfadt : (findTable l m (findRsdp m) facp).1 = 0
    · exact Or.inl ⟨-1, 0, fun fuel => by rw [acpiInit, if_neg hrsdp, if_pos hfadt]⟩
    · by_cases hmadt : (findTable l m (findRsdp m) apic).1 = 0
      · exact Or.inl ⟨0, _, fun fuel => by
          rw [acpiInit, if_neg hrsdp, if_neg hfadt, if_pos hmadt]⟩
      · exact Or.inr ⟨hmadt, _, acpiInit_of_some hrsdp hfadt hmadt⟩

/-- Without a MADT there is nothing to walk. -/
theorem loopsRight_of_none (hmadt : foundMadt l m = 0) : LoopsRight l m := by
  rcases acpiInit_cases l m with ⟨result, fadt, hinit⟩ | ⟨hne, -⟩
  · refine ⟨0, _, _, _, hinit 0, acpiGetCount_of_none hmadt _ _, acpiGetCount_of_none hmadt _ _,
      fun a ha => absurd ha List.not_mem_nil, fun counts hcounts => ?_⟩
    cases hcounts
  · exact absurd hmadt hne

/-- All loops are one scan. -/
theorem loopsRight_of_scan (hmadt : foundMadt l m ≠ 0) {r : List UInt8 × List Nat}
    (hscan : entryScan l m fuel = some r) (hread : ∀ a ∈ r.2, Inside m (foundMadt l m) a 1) :
    LoopsRight l m := by
  have hcount (wanted : UInt8) : acpiGetCount wanted l fuel m (findRsdp m) =
      some (r.1.foldl (fun s t => countOne wanted t s) 0, r.2) := by
    rw [acpiGetCount_of_some hmadt, hscan]
    rfl
  rcases acpiInit_cases l m with ⟨result, fadt, hinit⟩ | ⟨-, fadt, hinit⟩
  · refine ⟨fuel, _, _, _, hinit fuel, hcount _, hcount _, ?_, fun counts hcounts => ?_⟩
    · intro a ha
      rw [List.nil_append, List.mem_append, or_self] at ha
      exact hread a ha
    · cases hcounts
  · have hboth := hinit fuel
    rw [hscan, Option.map_some, foldl_countBoth] at hboth
    refine ⟨fuel, _, _, _, hboth, hcount _, hcount _, ?_, fun counts hcounts => ?_⟩
    · intro a ha
      rw [List.mem_append, List.mem_append, or_self, or_self] at ha
      exact hread a ha
    · exact (Option.some.inj hcounts).symm

theorem loopsRight_iff (l : Layout) (m : Mem) : LoopsRight l m ↔ EntriesEnd l m := by
  constructor
  · rintro ⟨fuel, init, lapics, ioapics, -, hlapics, -, hread, -⟩ hmadt
    rw [acpiGetLapicCount, acpiGetCount_of_some hmadt] at hlapics
    rcases Option.map_eq_some_iff.mp hlapics with ⟨r, hscan, rfl⟩
    refine Records.ends_of_scan hscan fun a ha => ?_
    exact (hread a (List.mem_append_left _ (List.mem_append_right _ ha))).2
  · intro hends
    by_cases hmadt : foundMadt l m = 0
    · exact loopsRight_of_none hmadt
    · rcases Records.scan_of_ends (hends hmadt) with ⟨fuel, r, hscan, hread⟩
      refine loopsRight_of_scan hmadt hscan fun a ha => ?_
      have hbounds := hread a ha
      unfold Layout.madtSize at hbounds
      unfold Inside
      omega

end Loops

/-- The walks are right exactly when the entries of the MADT lead to its end. -/
theorem acpi_walks_iff (l : Layout) (m : Mem) : WalksRight l m ↔ EntriesEnd l m := by
  rw [← loopsRight_iff]
  constructor
  · intro hright
    exact hright.loops
  · intro hloops
    exact ⟨findTable_inside l m (findRsdp m), hloops⟩

theorem standard_lt : 36 < 2 ^ 16 := by decide

/-- The header of the standard. -/
def standardLayout : Layout := ⟨36, standard_lt⟩

/-- A table with the header of the standard: `length` and `checksum` are single bytes. -/
def sdt (sig : List UInt8) (length checksum : UInt8) (body : List UInt8) : List UInt8 :=
  sig ++ [length, 0, 0, 0, 0, checksum] ++ List.replicate 26 0 ++ body

/-- An RSDP, an RSDT for the two tables, a FADT without fields and the MADT. -/
def firmware (madt : List UInt8) : Mem :=
  let put (a : Nat) (table : List UInt8) (m : Mem) := copy m table.length a (table.getD · 0)
  put 0x10 (rsdPtr ++ [0, 0, 0, 0, 0, 0, 0, 0] ++ [0, 1, 0, 0]) <|
  put 0x100 (sdt [0x52, 0x53, 0x44, 0x54] 44 0x92 [0, 2, 0, 0, 0, 3, 0, 0]) <|
  put 0x200 (sdt facp 36 0xC2 []) <|
  put 0x300 madt fun _ => 0

/-- With an entry of length 0 no loop ends; of an entry that starts in the last byte, at
`0x32C`, the byte behind the table is read. -/
theorem acpi_entries_astray :
    (let m := firmware (sdt apic 46 0xB5 (List.replicate 10 0))
     foundMadt standardLayout m = 0x300 ∧
       (∀ fuel, acpiInit standardLayout fuel m = none ∧
         acpiGetLapicCount standardLayout fuel m (findRsdp m) = none ∧
         acpiGetIoapicCount standardLayout fuel m (findRsdp m) = none) ∧
       ¬ WalksRight standardLayout m) ∧
    (let m := firmware (sdt apic 45 0xB6 (List.replicate 9 0 ++ [6]))
     acpiGetLapicCount standardLayout 2 m (findRsdp m) = some (1, [0x32C, 0x32D]) ∧
       foundMadt standardLayout m + tableLength m (foundMadt standardLayout m) = 0x32D) := by
  refine ⟨?_, by decide +kernel, by decide +kernel⟩
  obtain ⟨m, hm⟩ : ∃ m, firmware (sdt apic 46 0xB5 (List.replicate 10 0)) = m := ⟨_, rfl⟩
  have hfound : findRsdp m ≠ 0 ∧ (findTable standardLayout m (findRsdp m) facp).1 ≠ 0 ∧
      foundMadt standardLayout m = 0x300 ∧ tableLength m 0x300 = 46 ∧ m (0x300 + 44 + 1) = 0 := by
    rw [← hm]
    decide +kernel
  rcases hfound with ⟨hrsdp, hfadt, hmadt, hlength, hentry⟩
  have hne : foundMadt standardLayout m ≠ 0 := by
    rw [hmadt]
    decide
  have hscan (fuel : Nat) : entryScan standardLayout m fuel = none := by
    rw [entryScan, hmadt, hlength]
    exact Records.scan_stuck (by decide) hentry fuel
  have hnone : ∀ fuel, acpiInit standardLayout fuel m = none ∧
      acpiGetLapicCount standardLayout fuel m (findRsdp m) = none ∧
      acpiGetIoapicCount standardLayout fuel m (findRsdp m) = none := by
    intro fuel
    rw [acpiInit_of_some hrsdp hfadt hne, acpiGetLapicCount, acpiGetIoapicCount,
      acpiGetCount_of_some hne, acpiGetCount_of_some hne, hscan]
    exact ⟨rfl, rfl, rfl⟩
  simp only [hm]
  refine ⟨hmadt, hnone, ?_⟩
  rintro ⟨-, fuel, init, -, -, hinit, -⟩
  rw [(hnone fuel).1] at hinit
  cases hinit

end OmniOS.Acpi
