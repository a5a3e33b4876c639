import OmniOS.Kernel.Arm64Map
import OmniOS.Kernel.ElfImage
import OmniOS.Kernel.InitramfsNewc
import OmniOS.Lib.Words

/-!
# OmniOS.Kernel.Execve — `sys_execve` of `kernel/syscall.c` on ARM64

The file is looked up in the initramfs and loaded by `elf_load`; then a pgd is created and
the pages of the program and four pages of stack are mapped in it. The archive is a range of
memory; the tables are those of `OmniOS.Kernel.Arm64`. `stackPhys` is what
`pmm_alloc_pages(4)` returns, and `name`, `entry` and `loaded` what the local variables hold
at the start. The record of the current process is left out.

`loaded.size` is the size of the file. The pages that are mapped are counted from it, and
not from the end of the last segment (`execve_maps_iff`).
-/

namespace OmniOS.Execve

open Space Elf
open Arm64 (PAGE_SIZE)

/-! ## Model -/

def USER_STACK : UInt64 := 0x7FFFF0000

/-- What the call uses of the kernel. -/
structure Kernel where
  initramfsLoaded : Int32
  archive : UInt64
  archiveSize : UInt64
  offset : UInt64
  space : Space.State
  tables : Arm64.State

/-- The call returns, or enters user space. -/
inductive Outcome where
  | returned (value : Int64)
  | entered (entry stack pgd : UInt64)

def loadStart (loaded : Loaded) : UInt64 := loaded.loadBase &&& ~~~0xFFF

def loadEnd (loaded : Loaded) : UInt64 := ((loaded.loadBase + loaded.size) + 0xFFF) &&& ~~~0xFFF

def loadPages (loaded : Loaded) : UInt64 := (loadEnd loaded - loadStart loaded) / PAGE_SIZE

/-- The pages of the program, one for each turn of the first loop. -/
def binaryPages (loaded : Loaded) : List UInt64 :=
  (List.range (loadPages loaded).toNat).map fun i => loadStart loaded + UInt64.ofNat i * PAGE_SIZE

/-- The pages of the stack. -/
def stackPages : List UInt64 := (List.range 4).map fun i => USER_STACK + UInt64.ofNat i * PAGE_SIZE

def binaryCalls (loaded : Loaded) : List Arm64.Call :=
  (binaryPages loaded).map fun page => .mapUserPage page page 1 1

def stackCalls (stackPhys : UInt64) : List Arm64.Call :=
  (List.range 4).map fun i => .mapUserPage (USER_STACK + UInt64.ofNat i * PAGE_SIZE)
    (stackPhys + UInt64.ofNat i * PAGE_SIZE) 1 0

def bytesAt (m : Mem) (a : UInt64) (n : Nat) : List UInt8 :=
  (List.range n).map fun i => m (a + UInt64.ofNat i)

def Kernel.initramfs (k : Kernel) : Initramfs.Fs :=
  ⟨bytesAt k.space.mem k.archive k.archiveSize.toNat, k.archiveSize, k.offset⟩

section Model

variable (fuel : Nat) (name : List UInt8) (entry : Initramfs.Entry) (loaded : Loaded)
variable (alloc : Nat → UInt64) (stackPhys : UInt64)

/-- The part of the call for `__aarch64__`. -/
def enterProgram (loaded : Loaded) (k : Kernel) : Outcome × Kernel :=
  let userPgd := Arm64.userPgd alloc k.tables
  let tables := Arm64.userRun alloc k.tables (binaryCalls loaded ++ stackCalls stackPhys)
  (.entered loaded.entry (USER_STACK + 0x10000 - 8) userPgd, { k with tables := tables })

def sysExecve (path : Option (List UInt8)) (k : Kernel) : Option (Outcome × Kernel) :=
  match path with
  | none => some (.returned (-1), k)
  | some fname => do
      if k.initramfsLoaded = 0 then return (.returned (-1), k)
      let found ← Initramfs.initramfsFind fuel k.initramfs name fname (some entry)
      let k := { k with offset := found.fs.offset }
      if found.ret ≤ 0 then return (.returned (-1), k)
      let file := found.entry.getD entry
      let ((ret, out), space) ← elfLoad (k.archive + file.data) file.size (some loaded) k.space
      let k := { k with space := space }
      if ret < 0 then return (.returned (-1), k)
      return enterProgram alloc stackPhys (out.getD loaded) k

end Model

/-! ## The pages of the program -/

/-- The `PT_LOAD` headers of the file, as the loop of `elf_load` meets them. -/
def segments (m : Mem) (binary size : UInt64) : List Phdr := loads (fileTurns m binary size)

/-- Every address of a segment is in a page of the program, and none of these is a page of
the stack. -/
structure Maps (segs : List Phdr) (loaded : Loaded) : Prop where
  covers : ∀ p ∈ segs, ∀ k < p.memsz.toNat,
    ∃ page ∈ binaryPages loaded, Range page 4096 (p.vaddr + UInt64.ofNat k)
  apart : ∀ page ∈ binaryPages loaded, ∀ stack ∈ stackPages, ∀ x,
    ¬ (Range page 4096 x ∧ Range stack 4096 x)

/-- The least address of a segment; all ones if there is none. -/
def leastVaddr (segs : List Phdr) : UInt64 :=
  segs.foldl (fun b p => if p.vaddr < b then p.vaddr else b) (-1)

/-- The page of an address. -/
def pageOf (x : UInt64) : UInt64 := x - x % 4096

/-- `size` bytes from `base` on, in bytes of whole pages. -/
def pagesSpan (base size : UInt64) : Nat :=
  (base.toNat % 4096 + size.toNat + 4095) / 4096 * 4096 % 2 ^ 64

section Pages

variable {loaded : Loaded} {x page : UInt64}

theorem page_mask : ∀ i < 64, (~~~(0xFFF : UInt64)).toNat.testBit i = decide (12 ≤ i) := by decide

theorem loadStart_toNat (loaded : Loaded) :
    (loadStart loaded).toNat = loaded.loadBase.toNat / 4096 * 4096 :=
  Words.toNat_and_mask page_mask _

theorem loadEnd_toNat (loaded : Loaded) : (loadEnd loaded).toNat =
    (loaded.loadBase.toNat + loaded.size.toNat + 4095) % 2 ^ 64 / 4096 * 4096 := by
  have hlast : (0xFFF : UInt64).toNat = 4095 := rfl
  have hpage : 2 ^ 12 = 4096 := by decide
  rw [loadEnd, Words.toNat_and_mask page_mask, UInt64.toNat_add, UInt64.toNat_add, hlast,
    Nat.mod_add_mod, hpage]

theorem loadStart_eq (loaded : Loaded) : loadStart loaded = pageOf loaded.loadBase := by
  have hsize : (4096 : UInt64).toNat = 4096 := rfl
  have hle : loaded.loadBase % 4096 ≤ loaded.loadBase := by
    rw [UInt64.le_iff_toNat_le, UInt64.toNat_mod]
    exact Nat.mod_le _ _
  apply UInt64.toNat_inj.mp
  rw [loadStart_toNat, pageOf, UInt64.toNat_sub_of_le _ _ hle, UInt64.toNat_mod, hsize]
  omega

/-- The rounded size of the program, whether or not its end wraps around. -/
theorem span_toNat (loaded : Loaded) :
    (loadEnd loaded - loadStart loaded).toNat = pagesSpan loaded.loadBase loaded.size := by
  rw [UInt64.toNat_sub, loadStart_toNat, loadEnd_toNat, pagesSpan]
  have hbase := loaded.loadBase.toNat_lt
  have hsize := loaded.size.toNat_lt
  omega

theorem pagesSpan_dvd (base size : UInt64) : pagesSpan base size % 4096 = 0 := by
  unfold pagesSpan
  omega

theorem pagesSpan_lt (base size : UInt64) : pagesSpan base size < 2 ^ 64 :=
  Nat.mod_lt _ (by decide)

theorem loadPages_toNat (loaded : Loaded) :
    (loadPages loaded).toNat = pagesSpan loaded.loadBase loaded.size / 4096 := by
  rw [loadPages, UInt64.toNat_div, span_toNat]
  rfl

/-- The page `i`, and where an address is in it. -/
theorem range_page_iff {start : UInt64} {i n : Nat} (hi : i < n) (hn : n * 4096 < 2 ^ 64) :
    Range (start + UInt64.ofNat i * PAGE_SIZE) 4096 x ↔ (x - start).toNat / 4096 = i := by
  have hpage : PAGE_SIZE.toNat = 4096 := rfl
  have hsplit : x - (start + UInt64.ofNat i * PAGE_SIZE) =
      (x - start) - UInt64.ofNat i * PAGE_SIZE := by grind
  have hx := (x - start).toNat_lt
  rw [Range, hsplit, UInt64.toNat_sub, UInt64.toNat_mul, UInt64.toNat_ofNat', hpage]
  omega

/-- The pages of the program are one range. -/
theorem in_binaryPages_iff (loaded : Loaded) (x : UInt64) :
    (∃ page ∈ binaryPages loaded, Range page 4096 x) ↔
      Range (pageOf loaded.loadBase) (pagesSpan loaded.loadBase loaded.size) x := by
  have hdvd := pagesSpan_dvd loaded.loadBase loaded.size
  have hlt := pagesSpan_lt loaded.loadBase loaded.size
  have hx := (x - pageOf loaded.loadBase).toNat_lt
  simp only [binaryPages, List.mem_map, List.mem_range, loadPages_toNat, loadStart_eq]
  generalize pagesSpan loaded.loadBase loaded.size = span at hdvd hlt ⊢
  constructor
  · rintro ⟨page, ⟨i, hi, rfl⟩, hrange⟩
    rw [range_page_iff hi (by omega)] at hrange
    rw [Range]
    omega
  · intro hrange
    have hi : (x - pageOf loaded.loadBase).toNat / 4096 < span / 4096 := by
      rw [Range] at hrange
      omega
    exact ⟨_, ⟨_, hi, rfl⟩, (range_page_iff hi (by omega)).mpr rfl⟩

theorem pageOf_aligned (x : UInt64) : (pageOf x).toNat % 4096 = 0 := by
  have hsize : (4096 : UInt64).toNat = 4096 := rfl
  have hx := x.toNat_lt
  rw [pageOf, UInt64.toNat_sub, UInt64.toNat_mod, hsize]
  omega

theorem stackPages_aligned : ∀ page ∈ stackPages, page.toNat % 4096 = 0 := by
  rw [stackPages, List.forall_mem_map]
  decide

/-- A page is in a range of whole pages as soon as one of its addresses is. -/
theorem range_of_page {start page x : UInt64} {span : Nat} (hstart : start.toNat % 4096 = 0)
    (hspan : span % 4096 = 0) (hpage : page.toNat % 4096 = 0) (hx : Range page 4096 x) :
    Range start span x ↔ Range start span page := by
  have hoff : (page - start).toNat % 4096 = 0 := by
    rw [UInt64.toNat_sub]
    have hlt := start.toNat_lt
    omega
  have hlt := (page - start).toNat_lt
  rw [Range, Range, toNat_sub_eq page start]
  rw [Range] at hx
  omega

/-- The pages of the program and those of the stack. -/
theorem apart_iff (loaded : Loaded) :
    (∀ page ∈ binaryPages loaded, ∀ stack ∈ stackPages, ∀ x,
        ¬ (Range page 4096 x ∧ Range stack 4096 x)) ↔
      ∀ stack ∈ stackPages,
        ¬ Range (pageOf loaded.loadBase) (pagesSpan loaded.loadBase loaded.size) stack := by
  constructor
  · intro hapart stack hstack hin
    obtain ⟨page, hpage, hrange⟩ := (in_binaryPages_iff loaded stack).mpr hin
    exact hapart page hpage stack hstack stack ⟨hrange, range_self (by decide)⟩
  · rintro hnone page hpage stack hstack x ⟨hx, hx'⟩
    refine hnone stack hstack ?_
    rw [← range_of_page (pageOf_aligned _) (pagesSpan_dvd _ _) (stackPages_aligned stack hstack)
      hx']
    exact (in_binaryPages_iff loaded x).mp ⟨page, hpage, hx⟩

theorem covers_iff (loaded : Loaded) (p : Phdr) :
    (∀ k < p.memsz.toNat,
        ∃ page ∈ binaryPages loaded, Range page 4096 (p.vaddr + UInt64.ofNat k)) ↔
      p.memsz.toNat = 0 ∨ (p.vaddr - pageOf loaded.loadBase).toNat + p.memsz.toNat ≤
        pagesSpan loaded.loadBase loaded.size := by
  have hmemsz : p.memsz.toNat ≤ 2 ^ 64 := Nat.le_of_lt p.memsz.toNat_lt
  rw [← range_subset_iff hmemsz (pagesSpan_lt _ _)]
  constructor
  · intro hcovers x hx
    obtain ⟨k, hk, rfl⟩ := (range_iff_exists hmemsz).mp hx
    exact (in_binaryPages_iff loaded _).mp (hcovers k hk)
  · exact fun hsub k hk => (in_binaryPages_iff loaded _).mpr (hsub _ (range_add hk hmemsz))

theorem maps_iff (segs : List Phdr) (loaded : Loaded) :
    Maps segs loaded ↔
      (∀ p ∈ segs, p.memsz.toNat = 0 ∨
        (p.vaddr - pageOf loaded.loadBase).toNat + p.memsz.toNat ≤
          pagesSpan loaded.loadBase loaded.size) ∧
      ∀ stack ∈ stackPages,
        ¬ Range (pageOf loaded.loadBase) (pagesSpan loaded.loadBase loaded.size) stack := by
  rw [← apart_iff, ← forall₂_congr fun p _ => covers_iff loaded p]
  exact ⟨fun h => ⟨h.covers, h.apart⟩, fun h => ⟨h.1, h.2⟩⟩

end Pages

/-! ## The file -/

section File

variable {m : Mem} {binary size : UInt64} {out out' : Option Loaded} {loaded : Loaded}
variable {trace : List Access} {s' : Space.State}

/-- `load_base` is the least address. -/
theorem foldl_base (ts : List Turn) (b : UInt64) :
    ts.foldl (fun b t => t.base b) b =
      (loads ts).foldl (fun b p => if p.vaddr < b then p.vaddr else b) b := by
  induction ts generalizing b with
  | nil => rfl
  | cons t ts ih =>
      rw [List.foldl_cons, ih, loads_cons]
      cases hload : t.isLoad with
      | true => simp [hload, Turn.base]
      | false => simp [hload, Turn.base]

/-- What `elf_load` returns for a file it accepts. -/
theorem elfLoad_accepted
    (hload : elfLoad binary size out ⟨m, trace⟩ = some ((0, some loaded), s')) :
    loaded.size = size ∧ loaded.loadBase = leastVaddr (segments m binary size) := by
  by_cases hreached : Reached m binary size out
  · obtain ⟨hresult, -⟩ := elfLoad_of_reached hreached hload
    split at hresult
    · exact absurd (Prod.mk.inj hresult).1 (by decide)
    · rw [Option.some.inj (Prod.mk.inj hresult).2]
      exact ⟨rfl, foldl_base _ _⟩
  · obtain ⟨hresult, -⟩ := elfLoad_of_not_reached hreached hload
    exact absurd (Prod.mk.inj hresult).1 (by decide)

/-- The whole program is mapped exactly if every segment ends, counted from the page of the
lowest one, within the pages that the file itself would take there, and these pages are not
those of the stack. -/
theorem execve_maps_iff
    (hload : elfLoad binary size out ⟨m, trace⟩ = some ((0, some loaded), s')) :
    Maps (segments m binary size) loaded ↔
      (∀ p ∈ segments m binary size, p.memsz.toNat = 0 ∨
        (p.vaddr - pageOf (leastVaddr (segments m binary size))).toNat + p.memsz.toNat ≤
          pagesSpan (leastVaddr (segments m binary size)) size) ∧
      ∀ stack ∈ stackPages, ¬ Range (pageOf (leastVaddr (segments m binary size)))
        (pagesSpan (leastVaddr (segments m binary size)) size) stack := by
  obtain ⟨hsize, hbase⟩ := elfLoad_accepted hload
  rw [maps_iff, hsize, hbase]

end File

/-- A program of one page. -/
theorem execve_maps_small :
    ∃ s' loaded, elfLoad 0x100000 180 (some ⟨0, 0, 0, 0⟩) ⟨placed 0x100000 smallFile, []⟩ =
        some ((0, some loaded), s') ∧
      Maps (segments (placed 0x100000 smallFile) 0x100000 180) loaded := by
  have hloads : (elfLoad 0x100000 180 (some ⟨0, 0, 0, 0⟩) ⟨placed 0x100000 smallFile, []⟩).map
      (·.1) = some (0, some ⟨0x100000, 180, 0x400000, 0x400000⟩) := by decide +kernel
  have hsegs : segments (placed 0x100000 smallFile) 0x100000 180 = [⟨0x400000, 8, 176, 4⟩] := by
    decide +kernel
  obtain ⟨⟨_, s'⟩, hload, rfl⟩ := Option.map_eq_some_iff.mp hloads
  refine ⟨s', _, hload, (execve_maps_iff hload).mpr ?_⟩
  rw [hsegs, List.forall_mem_singleton, stackPages, List.forall_mem_map]
  unfold Range
  decide

/-- Four bytes, and zeros up to the end of the sixteenth page. -/
def zerosFile : List UInt8 := headerBytes 2 0x400000 64 56 1 ++ phdrBytes 1 0 0x400000 4 0x10000

theorem execve_maps_part :
    ∃ s' loaded, elfLoad 0x100000 120 (some ⟨0, 0, 0, 0⟩) ⟨placed 0x100000 zerosFile, []⟩ =
        some ((0, some loaded), s') ∧
      binaryPages loaded = [0x400000] ∧
      ¬ Maps (segments (placed 0x100000 zerosFile) 0x100000 120) loaded := by
  have hloads : (elfLoad 0x100000 120 (some ⟨0, 0, 0, 0⟩) ⟨placed 0x100000 zerosFile, []⟩).map
      (·.1) = some (0, some ⟨0x100000, 120, 0x400000, 0x400000⟩) := by decide +kernel
  have hsegs : segments (placed 0x100000 zerosFile) 0x100000 120 = [⟨0x400000, 0x10000, 0, 4⟩] := by
    decide +kernel
  obtain ⟨⟨_, s'⟩, hload, rfl⟩ := Option.map_eq_some_iff.mp hloads
  refine ⟨s', _, hload, by decide, ?_⟩
  rw [hsegs]
  intro hmaps
  -- the second page of the segment
  obtain ⟨page, hpage, hrange⟩ := hmaps.covers _ List.mem_cons_self 0x1000 (by decide)
  have honly : page = 0x400000 := List.mem_singleton.mp hpage
  rw [honly] at hrange
  revert hrange
  unfold Range
  decide

/-! ## The call -/

theorem length_bytesAt (m : Mem) (a : UInt64) (n : Nat) : (bytesAt m a n).length = n := by
  rw [bytesAt, List.length_map, List.length_range]

/-- A part of a range of memory. -/
theorem bytesAt_part (m : Mem) (a data : UInt64) {n k : Nat} (hk : data.toNat + k ≤ n) :
    ((bytesAt m a n).drop data.toNat).take k = bytesAt m (a + data) k := by
  refine List.ext_getElem ?_ ?_
  · rw [List.length_take, List.length_drop, length_bytesAt, length_bytesAt]
    omega
  · intro i hi hi'
    simp only [bytesAt, List.getElem_take, List.getElem_drop, List.getElem_map,
      List.getElem_range, UInt64.ofNat_add, UInt64.ofNat_toNat, UInt64.add_assoc]

section Call

variable {fuel : Nat} {name fname : List UInt8} {entry : Initramfs.Entry} {loaded : Loaded}
variable {alloc : Nat → UInt64} {stackPhys : UInt64} {k : Kernel}

/-- What the call does once the lookup has answered. -/
def afterLookup (alloc : Nat → UInt64) (stackPhys : UInt64) (loaded : Loaded) (k : Kernel)
    (file : Initramfs.Entry) : Option (Outcome × Kernel) :=
  (elfLoad (k.archive + file.data) file.size (some loaded) k.space).map fun r =>
    if r.1.1 < 0 then (.returned (-1), { k with space := r.2 })
    else enterProgram alloc stackPhys (r.1.2.getD loaded) { k with space := r.2 }

theorem sysExecve_of_found {found : Initramfs.Found} (hloaded : k.initramfsLoaded ≠ 0)
    (hfind : Initramfs.initramfsFind fuel k.initramfs name fname (some entry) = some found) :
    sysExecve fuel name entry loaded alloc stackPhys (some fname) k =
      if found.ret ≤ 0 then some (.returned (-1), { k with offset := found.fs.offset })
      else afterLookup alloc stackPhys loaded { k with offset := found.fs.offset }
        (found.entry.getD entry) := by
  simp only [sysExecve, if_neg hloaded, hfind, Option.bind_eq_bind, Option.bind_some]
  by_cases hret : found.ret ≤ 0
  · rw [if_pos hret, if_pos hret]
    rfl
  · rw [if_neg hret, if_neg hret, afterLookup, Option.map_eq_bind]
    refine congrArg _ (funext fun r => ?_)
    by_cases hneg : r.1.1 < 0
    · simp [hneg]
    · simp [hneg]

/-- With an archive of files in memory, the call loads and runs the first file with the name,
from the place where its contents are; without one it returns -1 and has changed nothing but
the cursor. -/
theorem execve_runs_file {files : List (Initramfs.Meta × Initramfs.File)} {trailer : Initramfs.Meta}
    {zeros : Nat} (hloaded : k.initramfsLoaded ≠ 0)
    (harchive : bytesAt k.space.mem k.archive k.archiveSize.toNat =
      Initramfs.archiveOf files trailer zeros)
    (hbound : k.archiveSize.toNat + 110 ≤ 2 ^ 64) (hname : name.length = Initramfs.PATH_MAX)
    (hfname : fname ≠ Initramfs.trailerName) (hfuel : files.length + 2 ≤ fuel) :
    (files.find? (fun f => f.2.name = fname) = none → ∃ cursor,
      sysExecve fuel name entry loaded alloc stackPhys (some fname) k =
        some (.returned (-1), { k with offset := cursor })) ∧
    ∀ f, files.find? (fun f => f.2.name = fname) = some f → ∃ cursor file,
      bytesAt k.space.mem (k.archive + file.data) file.size.toNat = f.2.data ∧
      sysExecve fuel name entry loaded alloc stackPhys (some fname) k =
        afterLookup alloc stackPhys loaded { k with offset := cursor } file := by
  have hlength := length_bytesAt k.space.mem k.archive k.archiveSize.toNat
  have hfits : Initramfs.Fs.Fits { k.initramfs with offset := 0 } := ⟨hlength, hbound⟩
  obtain ⟨found, hfind, hfound, hnone⟩ := Initramfs.findLoop_archive files trailer zeros hfname
    k.offset hfits harchive rfl hname entry hfuel
  rw [sysExecve_of_found hloaded hfind]
  constructor
  · intro habsent
    rw [hnone habsent, if_pos (Int.le_refl 0)]
    exact ⟨_, rfl⟩
  · intro f hf
    obtain ⟨hret, file, hfile, hsize, hdata⟩ := hfound f hf
    rw [hret, if_neg (by decide), hfile]
    refine ⟨_, file, ?_, rfl⟩
    have hlen := congrArg List.length hdata
    rw [List.length_take, List.length_drop, ← hsize] at hlen
    by_cases hempty : file.size.toNat = 0
    · rw [hempty] at hsize ⊢
      exact (List.eq_nil_of_length_eq_zero hsize.symm).symm
    · rw [← bytesAt_part k.space.mem k.archive file.data (n := k.archiveSize.toNat) ?_]
      · exact hdata
      · have hle : k.initramfs.archive.length = k.archiveSize.toNat := hlength
        simp only at hlen
        omega

end Call

/-- The archive of `hello`, which is no program, at 1 MiB. -/
def helloKernel : Kernel where
  initramfsLoaded := 1
  archive := 0x100000
  archiveSize := 248
  offset := 0
  space := ⟨placed 0x100000 (Initramfs.archiveOf [(Initramfs.plain, Initramfs.hello)]
    Initramfs.plain 4), []⟩
  tables := ⟨fun _ _ => 0, 0⟩

theorem execve_runs_hello :
    ∃ cursor file, bytesAt helloKernel.space.mem (helloKernel.archive + file.data)
        file.size.toNat = Initramfs.hello.data ∧
      sysExecve 3 (List.replicate Initramfs.PATH_MAX 0) ⟨0, 0⟩ ⟨0, 0, 0, 0⟩ (fun _ => 0) 0
        (some [0x61]) helloKernel =
          afterLookup (fun _ => 0) 0 ⟨0, 0, 0, 0⟩ { helloKernel with offset := cursor } file := by
  have harchive : bytesAt helloKernel.space.mem helloKernel.archive
      helloKernel.archiveSize.toNat = Initramfs.archiveOf [(Initramfs.plain, Initramfs.hello)]
        Initramfs.plain 4 := by decide +kernel
  exact (execve_runs_file (by decide) harchive (by decide) List.length_replicate (by decide)
    (by decide)).2 (Initramfs.plain, Initramfs.hello) rfl

end OmniOS.Execve
