import OmniOS.Lib.FourLevel
import OmniOS.Lib.Radix

/-!
# OmniOS.Kernel.Arm64 — user page tables of `kernel/arch/arm64/arm64.c`

Four levels of tables with 512 entries, created on demand by
`pt_lookup_or_create`. Physical memory is identity mapped and every table
pointer is the base of a page, so memory is kept as pages of 512 words.
`pmm_alloc_page` is outside the file: its `n`-th call returns `alloc n`, and
`FreshPages` says what it is relied on for.

A pgd is compared with the list of the mappings made through it (`mappings`):
the last one for a page is what the tables hold for it, and nothing else is
there.
-/

namespace OmniOS.Arm64

def PAGE_SIZE : UInt64 := 4096

def PT_VALID : UInt64 := (1 : UInt64) <<< 0
def PT_TABLE : UInt64 := (1 : UInt64) <<< 1
def PT_AF : UInt64 := (1 : UInt64) <<< 10
def PT_AP_RW_ALL : UInt64 := (0 : UInt64) <<< 6
def PT_AP_RO_ALL : UInt64 := (1 : UInt64) <<< 6
def PT_NS : UInt64 := (1 : UInt64) <<< 5
def PT_UXN : UInt64 := (1 : UInt64) <<< 54
def PT_ADDR_MASK : UInt64 := 0x0000FFFFFFFFF000

def L0_SHIFT : UInt64 := 39
def L1_SHIFT : UInt64 := 30
def L2_SHIFT : UInt64 := 21
def L3_SHIFT : UInt64 := 12

/-- Memory by page, and the number of pages `pmm_alloc_page` has returned. -/
abbrev State := Radix.State UInt64 (Fin 512) UInt64

/-- The pages `pmm_alloc_page` returns, call by call. -/
structure FreshPages (alloc : Nat → UInt64) (calls : Nat) : Prop where
  aligned : ∀ n < calls, (alloc n).toNat % 4096 = 0
  below : ∀ n < calls, (alloc n).toNat < 2 ^ 48
  distinct : ∀ n < calls, ∀ k < calls, alloc n = alloc k → n = k

section Model

variable (alloc : Nat → UInt64)

def pmmAllocPage (s : State) : UInt64 × State := (alloc s.used, { s with used := s.used + 1 })

/-- `memset((void *)pg, 0, PAGE_SIZE)`. -/
def memsetPage (s : State) (pg : UInt64) : State :=
  { s with mem := Function.update s.mem pg fun _ => 0 }

/-- `((virt) >> (shift)) & 0x1FF`. -/
def lxIndex (virt shift : UInt64) : Fin 512 := FourLevel.index virt shift

def ptLookupOrCreate (s : State) (table : UInt64) (index : Fin 512) : State × UInt64 :=
  if s.mem table index &&& PT_VALID != 0 then (s, s.mem table index &&& PT_ADDR_MASK)
  else
    let (pg, s) := pmmAllocPage alloc s
    let s := memsetPage s pg
    let entry := pg ||| PT_VALID ||| PT_TABLE ||| PT_AF ||| PT_NS
    ({ s with mem := Radix.write s.mem table index entry }, pg)

def ptMapPage (s : State) (pgd virt phys flags : UInt64) : State :=
  let l0 := lxIndex virt L0_SHIFT
  let l1 := lxIndex virt L1_SHIFT
  let l2 := lxIndex virt L2_SHIFT
  let l3 := lxIndex virt L3_SHIFT
  let (s, t1) := ptLookupOrCreate alloc s pgd l0
  let (s, t2) := ptLookupOrCreate alloc s t1 l1
  let (s, t3) := ptLookupOrCreate alloc s t2 l2
  let leaf := (phys &&& PT_ADDR_MASK) ||| PT_VALID ||| PT_AF ||| PT_NS ||| flags
  { s with mem := Radix.write s.mem t3 l3 leaf }

def arm64CreateUserPgd (s : State) : State × UInt64 :=
  let (pgd, s) := pmmAllocPage alloc s
  (memsetPage s pgd, pgd)

/-- The `flags` that `arm64_map_user_page` computes. -/
def userFlags (writable executable : Int32) : UInt64 :=
  let flags := PT_AP_RW_ALL
  let flags := if writable = 0 then PT_AP_RO_ALL else flags
  if executable = 0 then flags ||| PT_UXN else flags

def arm64MapUserPage (s : State) (pgd virt phys : UInt64) (writable executable : Int32) : State :=
  ptMapPage alloc s pgd virt phys (userFlags writable executable)

def arm64MapUserPages (s : State) (pgd virt phys pages : UInt64) (writable executable : Int32) :
    State :=
  (List.range pages.toNat).foldl
    (fun s i => arm64MapUserPage alloc s pgd (virt + UInt64.ofNat i * PAGE_SIZE)
      (phys + UInt64.ofNat i * PAGE_SIZE) writable executable) s

/-- The two mapping calls. -/
inductive Call where
  | mapUserPage (virt phys : UInt64) (writable executable : Int32)
  | mapUserPages (virt phys pages : UInt64) (writable executable : Int32)

def step (pgd : UInt64) (s : State) : Call → State
  | .mapUserPage virt phys w x => arm64MapUserPage alloc s pgd virt phys w x
  | .mapUserPages virt phys pages w x => arm64MapUserPages alloc s pgd virt phys pages w x

/-- The pgd that `arm64_create_user_pgd` returns in state `s`. -/
def userPgd (s : State) : UInt64 := (arm64CreateUserPgd alloc s).2

/-- Create a pgd and make the calls on it. -/
def userRun (s : State) (calls : List Call) : State :=
  calls.foldl (step alloc (userPgd alloc s)) (arm64CreateUserPgd alloc s).1

end Model

/-! ## What the tables are for -/

/-- An entry with `PT_VALID` names the page under `PT_ADDR_MASK`. -/
def format : Radix.Format UInt64 UInt64 where
  present e := e &&& PT_VALID != 0
  target e := e &&& PT_ADDR_MASK
  zero := 0
  zero_absent := by decide

/-- The table reached from `pgd` by a list of indices. -/
def tableAt (m : UInt64 → Fin 512 → UInt64) (pgd : UInt64) (q : List (Fin 512)) : Option UInt64 :=
  Radix.walk format m pgd q

/-- The valid leaf that the four-level walk for `virt` ends at. -/
def userLeaf (m : UInt64 → Fin 512 → UInt64) (pgd virt : UInt64) : Option UInt64 :=
  Radix.leaf format m pgd [lxIndex virt L0_SHIFT, lxIndex virt L1_SHIFT, lxIndex virt L2_SHIFT]
    (lxIndex virt L3_SHIFT)

/-- One page mapped by a call. -/
structure Mapping where
  page : Nat
  phys : UInt64
  writable : Int32
  executable : Int32

/-- The leaf holds the frame and the attributes of the mapping. -/
def Mapping.HeldBy (m : Mapping) (e : UInt64) : Prop :=
  e &&& PT_ADDR_MASK = m.phys ∧
    e &&& ~~~PT_ADDR_MASK = PT_VALID ||| PT_AF ||| PT_NS ||| userFlags m.writable m.executable

def Call.mappings : Call → List Mapping
  | .mapUserPage virt phys w x => [⟨virt.toNat / 4096, phys, w, x⟩]
  | .mapUserPages virt phys pages w x => (List.range pages.toNat).map fun i =>
      ⟨virt.toNat / 4096 + i, phys + UInt64.ofNat i * PAGE_SIZE, w, x⟩

/-- All pages mapped, in the order of the calls. -/
def mappings (calls : List Call) : List Mapping := calls.flatMap Call.mappings

/-- The last mapping of a page. -/
def lastMapping (ms : List Mapping) (page : Nat) : Option Mapping :=
  ms.reverse.find? fun m => m.page = page

/-- Virtual addresses below `2^48`, page-aligned physical addresses below `2^48`. -/
def Call.Valid : Call → Prop
  | .mapUserPage virt phys _ _ =>
      virt.toNat < 2 ^ 48 ∧ phys.toNat < 2 ^ 48 ∧ phys.toNat % 4096 = 0
  | .mapUserPages virt phys pages _ _ =>
      phys.toNat % 4096 = 0 ∧ ∀ i < pages.toNat,
        virt.toNat + i * 4096 < 2 ^ 48 ∧ phys.toNat + i * 4096 < 2 ^ 48

end OmniOS.Arm64
