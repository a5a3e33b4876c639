import Mathlib.Data.List.Nodup
import OmniOS.Kernel.Sched

/-!
# OmniOS.Kernel.Smp — which CPU is this (`smp.c`, `apic.c` and the trampoline in `boot.S`)

A processor learns its APIC id on two paths. The trampoline takes it from CPUID and hands
it to `ap_entry`, which files it in `cpu_index_map`. Later `smp_current_cpu` reads the
local APIC's ID register and searches the map.

1. **Model.** The local APIC is up: its ID register is 8 bits at the top in xAPIC mode
   and the whole id in x2APIC mode. CPUID gives the low byte of the id in both. Sending
   the IPIs, the GS base and the messages are left out.
2. **The table.** After bring-up the map lists what the processors filed, in order.
3. **Indices.** `apic_get_id` shifts by 24 in both modes. In x2APIC mode that keeps only
   the top byte of the id, so processors are told apart only if their top bytes differ and
   are filed as low bytes.
-/

namespace OmniOS.Smp

open Sched (Cpu MAX_CPUS)

/-! ## Model -/

/-- `percpu_t`, the fields the bring-up writes. -/
structure Percpu where
  apicId : UInt32
  cpuIndex : UInt32
  online : Bool
  bootCpu : Bool

/-- The static variables of `smp.c`. -/
structure State where
  onlineCpus : Nat
  apReadyCount : Nat
  percpuBlocks : Cpu → Percpu
  cpuIndexMap : Cpu → Int32

/-- What `lapic_read(LAPIC_ID_REG)` gives on the processor with this id. -/
def lapicReadId (x2apicMode : Bool) (id : UInt32) : UInt32 :=
  if x2apicMode then id else id <<< 24

def apicGetId (x2apicMode : Bool) (id : UInt32) : UInt32 :=
  if x2apicMode then lapicReadId x2apicMode id >>> 24 else lapicReadId x2apicMode id >>> 24

/-- What the trampoline passes to `ap_entry`: bits 31 to 24 of EBX after CPUID leaf 1, which
are the low byte of the id. -/
def trampolineApicId (id : UInt32) : UInt32 := id &&& 0xFF

/-- The search of `smp_current_cpu`, on the processor with this id. -/
def smpCurrentCpu (x2apicMode : Bool) (s : State) (id : UInt32) : Cpu :=
  let apicId := apicGetId x2apicMode id
  ((List.finRange MAX_CPUS).find? fun i => s.cpuIndexMap i = apicId.toInt32).getD 0

/-- An index outside the tables is `none`. -/
def apEntry (s : State) (apicId : UInt32) : Option State :=
  if h : s.onlineCpus < MAX_CPUS then
    let cpuIndex : Cpu := ⟨s.onlineCpus, h⟩
    some
      { onlineCpus := s.onlineCpus + 1
        apReadyCount := s.apReadyCount + 1
        percpuBlocks := Function.update s.percpuBlocks cpuIndex
          ⟨apicId, UInt32.ofNat s.onlineCpus, true, false⟩
        cpuIndexMap := Function.update s.cpuIndexMap cpuIndex apicId.toInt32 }
  else none

def smpPercpuInit (x2apicMode : Bool) (s : State) (cpuIndex : Cpu) (id : UInt32) : State :=
  let apicId := apicGetId x2apicMode id
  { s with
    percpuBlocks := Function.update s.percpuBlocks cpuIndex
      ⟨apicId, UInt32.ofNat cpuIndex.val, true, true⟩
    cpuIndexMap := Function.update s.cpuIndexMap cpuIndex apicId.toInt32 }

/-- The static variables before the first call. -/
def boot : State where
  onlineCpus := 1
  apReadyCount := 0
  percpuBlocks := fun _ => ⟨0, 0, false, false⟩
  cpuIndexMap := fun _ => 0

/-- `smp_init` on the boot processor, up to `smp_boot_aps`. -/
def smpInit (x2apicMode : Bool) (bsp : UInt32) : State :=
  smpPercpuInit x2apicMode { boot with cpuIndexMap := fun _ => -1 } 0 bsp

/-- Processors with different ids: the boot processor and the others in the order in which
they run `ap_entry`. -/
structure Machine where
  x2apicMode : Bool
  bsp : UInt32
  aps : List UInt32
  distinct : (bsp :: aps).Nodup
  length_le : (bsp :: aps).length ≤ MAX_CPUS
  -- an xAPIC id has 8 bits
  xapic_lt : x2apicMode = false → ∀ id ∈ bsp :: aps, id.toNat < 256

namespace Machine

def online (m : Machine) : List UInt32 := m.bsp :: m.aps

def bringUp (m : Machine) : Option State :=
  m.aps.foldlM (fun s id => apEntry s (trampolineApicId id)) (smpInit m.x2apicMode m.bsp)

end Machine

/-! ## The table -/

/-- A map that lists `ids` and is -1 beyond. -/
def tableOf (ids : List UInt32) (i : Cpu) : Int32 :=
  match ids[i.val]? with
  | some id => id.toInt32
  | none => -1

theorem tableOf_append (ids : List UInt32) (id : UInt32) (h : ids.length < MAX_CPUS) :
    Function.update (tableOf ids) ⟨ids.length, h⟩ id.toInt32 = tableOf (ids ++ [id]) := by
  funext i
  by_cases hi : i = ⟨ids.length, h⟩
  · subst hi
    rw [Function.update_self, tableOf, List.getElem?_concat_length]
  · have hne : i.val ≠ ids.length := fun heq => hi (Fin.ext heq)
    rw [Function.update_of_ne hi, tableOf, tableOf]
    rcases Nat.lt_or_ge i.val ids.length with hlt | hge
    · rw [List.getElem?_append_left hlt]
    · rw [List.getElem?_eq_none hge, List.getElem?_eq_none]
      rw [List.length_append, List.length_singleton]
      omega

theorem apEntry_files {s : State} {filed : List UInt32} (id : UInt32)
    (hroom : filed.length < MAX_CPUS) (hcount : s.onlineCpus = filed.length)
    (hmap : s.cpuIndexMap = tableOf filed) :
    ∃ s', apEntry s id = some s' ∧ s'.onlineCpus = (filed ++ [id]).length ∧
      s'.cpuIndexMap = tableOf (filed ++ [id]) := by
  have hindex : s.onlineCpus < MAX_CPUS := by
    rw [hcount]
    exact hroom
  refine ⟨_, dif_pos hindex, ?_, ?_⟩
  · rw [List.length_append, ← hcount]
    rfl
  · have hslot : (⟨s.onlineCpus, hindex⟩ : Cpu) = ⟨filed.length, hroom⟩ := Fin.ext hcount
    rw [← tableOf_append filed id hroom, ← hmap, ← hslot]

/-- Each `ap_entry` files its id after those that are there. -/
theorem foldlM_apEntry (ids : List UInt32) {s : State} {filed : List UInt32}
    (hroom : filed.length + ids.length ≤ MAX_CPUS) (hcount : s.onlineCpus = filed.length)
    (hmap : s.cpuIndexMap = tableOf filed) :
    ∃ s', ids.foldlM (fun s id => apEntry s (trampolineApicId id)) s = some s' ∧
      s'.cpuIndexMap = tableOf (filed ++ ids.map trampolineApicId) := by
  induction ids generalizing s filed with
  | nil =>
      refine ⟨s, rfl, ?_⟩
      rw [List.map_nil, List.append_nil]
      exact hmap
  | cons id ids ih =>
      rw [List.length_cons] at hroom
      obtain ⟨s₁, hentry, hcount₁, hmap₁⟩ :=
        apEntry_files (trampolineApicId id) (by omega) hcount hmap
      have hroom₁ : (filed ++ [trampolineApicId id]).length + ids.length ≤ MAX_CPUS := by
        rw [List.length_append, List.length_singleton]
        omega
      obtain ⟨s', hrun, hmap'⟩ := ih hroom₁ hcount₁ hmap₁
      refine ⟨s', ?_, ?_⟩
      · rw [List.foldlM_cons, hentry]
        exact hrun
      · rw [hmap', List.append_assoc]
        rfl

theorem smpInit_cpuIndexMap (x2apicMode : Bool) (bsp : UInt32) :
    (smpInit x2apicMode bsp).cpuIndexMap = tableOf [apicGetId x2apicMode bsp] :=
  tableOf_append [] (apicGetId x2apicMode bsp) (by decide)

namespace Machine

variable (m : Machine)

/-- What `apic_get_id` returns on a processor. -/
def key (id : UInt32) : UInt32 := apicGetId m.x2apicMode id

/-- What the processors file, the boot processor first. -/
def filed : List UInt32 := m.key m.bsp :: m.aps.map trampolineApicId

theorem bringUp_spec : ∃ s, m.bringUp = some s ∧ s.cpuIndexMap = tableOf m.filed := by
  have hlength : [m.key m.bsp].length + m.aps.length ≤ MAX_CPUS := by
    have h := m.length_le
    rw [List.length_cons, Nat.add_comm] at h
    exact h
  exact foldlM_apEntry m.aps hlength rfl (smpInit_cpuIndexMap m.x2apicMode m.bsp)

end Machine

/-! ## Looking up -/

theorem toInt32_inj {a b : UInt32} : a.toInt32 = b.toInt32 ↔ a = b := by
  constructor
  · intro h
    exact congrArg Int32.toUInt32 h
  · intro h
    rw [h]

/-- An entry never filed is -1, which is no id of 8 bits. -/
theorem tableOf_eq_iff {ids : List UInt32} {i : Cpu} {id : UInt32} (hid : id.toNat < 256) :
    tableOf ids i = id.toInt32 ↔ ids[i.val]? = some id := by
  unfold tableOf
  cases ids[i.val]? with
  | none =>
      have hne : (-1 : Int32) ≠ id.toInt32 := by
        intro h
        have hval : (0xFFFFFFFF : UInt32) = id := congrArg Int32.toUInt32 h
        rw [← hval] at hid
        exact absurd hid (by decide)
      simp [hne]
  | some id' => simp [toInt32_inj]

theorem apicGetId_eq (x2apicMode : Bool) (id : UInt32) :
    apicGetId x2apicMode id = lapicReadId x2apicMode id >>> 24 :=
  ite_self _

theorem apicGetId_lt (x2apicMode : Bool) (id : UInt32) : (apicGetId x2apicMode id).toNat < 256 := by
  have hreg := (lapicReadId x2apicMode id).toNat_lt
  rw [apicGetId_eq, UInt32.toNat_shiftRight]
  show (lapicReadId x2apicMode id).toNat >>> 24 < 256
  rw [Nat.shiftRight_eq_div_pow]
  omega

theorem find?_finRange_first {n : Nat} {p : Fin (n + 1) → Bool} (h : p 0 = true) :
    (List.finRange (n + 1)).find? p = some 0 := by
  rw [List.finRange_succ, List.find?_cons_of_pos h]

section Lookup

variable {x2apicMode : Bool} {s : State} {id : UInt32} {ids : List UInt32}

/-- A processor whose id is filed finds an entry with it. -/
theorem getElem?_smpCurrentCpu (hmap : s.cpuIndexMap = tableOf ids)
    (hlength : ids.length ≤ MAX_CPUS) (hfiled : apicGetId x2apicMode id ∈ ids) :
    ids[(smpCurrentCpu x2apicMode s id).val]? = some (apicGetId x2apicMode id) := by
  obtain ⟨i, hi, heq⟩ := List.mem_iff_getElem.mp hfiled
  rw [← tableOf_eq_iff (apicGetId_lt x2apicMode id), ← hmap]
  unfold smpCurrentCpu
  dsimp only
  cases hfind : (List.finRange MAX_CPUS).find? fun i =>
      s.cpuIndexMap i = (apicGetId x2apicMode id).toInt32 with
  | none =>
      have hall := List.find?_eq_none.mp hfind ⟨i, by omega⟩ (List.mem_finRange _)
      have hentry : s.cpuIndexMap ⟨i, by omega⟩ = (apicGetId x2apicMode id).toInt32 := by
        rw [hmap, tableOf_eq_iff (apicGetId_lt x2apicMode id), List.getElem?_eq_getElem hi, heq]
      exact absurd (decide_eq_true hentry) hall
  | some j =>
      have hentry := List.find?_some hfind
      exact of_decide_eq_true hentry

/-- A processor whose id is not filed takes itself for the first one. -/
theorem smpCurrentCpu_of_notMem (hmap : s.cpuIndexMap = tableOf ids)
    (hfiled : apicGetId x2apicMode id ∉ ids) : smpCurrentCpu x2apicMode s id = 0 := by
  have hfind : ((List.finRange MAX_CPUS).find? fun i =>
      s.cpuIndexMap i = (apicGetId x2apicMode id).toInt32) = none := by
    refine List.find?_eq_none.mpr ?_
    intro i _ hentry
    rw [hmap, decide_eq_true_iff, tableOf_eq_iff (apicGetId_lt x2apicMode id)] at hentry
    exact hfiled (List.mem_of_getElem? hentry)
  unfold smpCurrentCpu
  dsimp only
  rw [hfind]
  rfl

theorem smpCurrentCpu_first (hmap : s.cpuIndexMap = tableOf (apicGetId x2apicMode id :: ids)) :
    smpCurrentCpu x2apicMode s id = 0 := by
  have hentry : s.cpuIndexMap 0 = (apicGetId x2apicMode id).toInt32 := by
    rw [hmap]
    rfl
  have hfind : ((List.finRange MAX_CPUS).find? fun i =>
      s.cpuIndexMap i = (apicGetId x2apicMode id).toInt32) = some 0 :=
    find?_finRange_first (decide_eq_true hentry)
  unfold smpCurrentCpu
  dsimp only
  rw [hfind]
  rfl

end Lookup

/-! ## Indices -/

theorem shiftLeft_shiftRight {id : UInt32} (h : id.toNat < 256) : id <<< 24 >>> 24 = id := by
  apply UInt32.toNat_inj.mp
  rw [UInt32.toNat_shiftRight, UInt32.toNat_shiftLeft]
  show (id.toNat <<< 24 % 2 ^ 32) >>> 24 = id.toNat
  rw [Nat.shiftLeft_eq, Nat.shiftRight_eq_div_pow]
  omega

theorem and_lowByte {id : UInt32} (h : id.toNat < 256) : id &&& 0xFF = id := by
  apply UInt32.toNat_inj.mp
  rw [UInt32.toNat_and]
  exact (Nat.and_two_pow_sub_one_eq_mod id.toNat 8).trans (Nat.mod_eq_of_lt h)

namespace Machine

variable {m : Machine}

/-- The processors are told apart: no two read the same id, and what an application
processor reads is filed by one of them. -/
def ToldApart (m : Machine) : Prop :=
  (m.online.map m.key).Nodup ∧ ∀ p ∈ m.aps, m.key p ∈ m.aps.map trampolineApicId

theorem key_mem_filed (h : m.ToldApart) {p : UInt32} (hp : p ∈ m.online) : m.key p ∈ m.filed := by
  rcases List.mem_cons.mp hp with rfl | hap
  · exact List.mem_cons_self
  · exact List.mem_cons_of_mem _ (h.2 p hap)

theorem indices_ne_iff {s : State} (hmap : s.cpuIndexMap = tableOf m.filed) :
    (∀ p ∈ m.online, ∀ q ∈ m.online, p ≠ q →
      smpCurrentCpu m.x2apicMode s p ≠ smpCurrentCpu m.x2apicMode s q) ↔ m.ToldApart := by
  have hlength : m.filed.length ≤ MAX_CPUS := by
    have h := m.length_le
    simpa [filed] using h
  have hfirst : smpCurrentCpu m.x2apicMode s m.bsp = 0 := smpCurrentCpu_first hmap
  constructor
  · intro hne
    constructor
    · -- the index is a function of what the register reads
      refine (List.nodup_map_iff_inj_on m.distinct).mpr ?_
      intro p hp q hq hkey
      by_contra hpq
      apply hne p hp q hq hpq
      have hkey' : apicGetId m.x2apicMode p = apicGetId m.x2apicMode q := hkey
      unfold smpCurrentCpu
      rw [hkey']
    · intro p hp
      have hpb : p ≠ m.bsp := by
        rintro rfl
        exact (List.nodup_cons.mp m.distinct).1 hp
      have hindex : smpCurrentCpu m.x2apicMode s p ≠ 0 := by
        rw [← hfirst]
        exact hne p (List.mem_cons_of_mem _ hp) m.bsp List.mem_cons_self hpb
      by_cases hmem : m.key p ∈ m.filed
      · -- found, and not in the first entry: filed by an application processor
        have hentry := getElem?_smpCurrentCpu hmap hlength hmem
        obtain ⟨i, hi⟩ : ∃ i, (smpCurrentCpu m.x2apicMode s p).val = i + 1 := by
          refine Nat.exists_eq_succ_of_ne_zero ?_
          intro hzero
          exact hindex (Fin.ext hzero)
        rw [hi, filed, List.getElem?_cons_succ] at hentry
        exact List.mem_of_getElem? hentry
      · exact absurd (smpCurrentCpu_of_notMem hmap hmem) hindex
  · intro hapart p hp q hq hpq heq
    -- one entry of the map, so one register value
    have hkeys : m.key p = m.key q := by
      have hentryp := getElem?_smpCurrentCpu hmap hlength (key_mem_filed hapart hp)
      have hentryq := getElem?_smpCurrentCpu hmap hlength (key_mem_filed hapart hq)
      rw [heq, hentryq] at hentryp
      exact (Option.some.inj hentryp).symm
    exact hpq ((List.nodup_map_iff_inj_on m.distinct).mp hapart.1 p hp q hq hkeys)

/-- In xAPIC mode a processor reads the id it has filed. -/
theorem toldApart_of_xapic (hmode : m.x2apicMode = false) : m.ToldApart := by
  have hkey : ∀ id ∈ m.online, m.key id = id := by
    intro id hid
    have hlt := m.xapic_lt hmode id hid
    rw [key, apicGetId_eq, hmode, lapicReadId]
    exact shiftLeft_shiftRight hlt
  have hlow : ∀ id ∈ m.online, trampolineApicId id = id := by
    intro id hid
    exact and_lowByte (m.xapic_lt hmode id hid)
  constructor
  · rw [List.map_congr_left hkey, List.map_id']
    exact m.distinct
  · intro p hp
    have honline : p ∈ m.online := List.mem_cons_of_mem _ hp
    rw [hkey p honline, ← hlow p honline]
    exact List.mem_map_of_mem hp

/-- In x2APIC mode the top bytes of the ids differ, and those of the application processors
are low bytes of some of them. -/
def TopBytesFiled (m : Machine) : Prop :=
  m.x2apicMode = true →
    (m.online.map fun id : UInt32 => id >>> 24).Nodup ∧
    ∀ p ∈ m.aps, ∃ q ∈ m.aps, trampolineApicId q = p >>> 24

theorem toldApart_iff : m.ToldApart ↔ m.TopBytesFiled := by
  cases hmode : m.x2apicMode with
  | false =>
      constructor
      · intro _ hx2
        rw [hmode] at hx2
        cases hx2
      · intro _
        exact toldApart_of_xapic hmode
  | true =>
      have hkey : m.key = fun id : UInt32 => id >>> 24 := by
        funext id
        rw [key, apicGetId_eq, hmode, lapicReadId, if_pos rfl]
      simp only [ToldApart, TopBytesFiled, hkey, hmode, List.mem_map, forall_const]

end Machine

/-! ## Run queues -/

section Queues

variable {T : Type} {σ σ' σ'' : Sched.State T} {i j : Cpu}

/-- From `σ` to `σ'` the queue and the current thread of CPU `j` stay as they are. -/
def Untouched (j : Cpu) (σ σ' : Sched.State T) : Prop :=
  σ'.runqueues j = σ.runqueues j ∧ σ'.currentThreads j = σ.currentThreads j

theorem Untouched.trans (h : Untouched j σ σ') (h' : Untouched j σ' σ'') : Untouched j σ σ'' :=
  ⟨h'.1.trans h.1, h'.2.trans h.2⟩

variable [DecidableEq T]

theorem Untouched.setState (t : T) (st : Sched.ProcState) : Untouched j σ (σ.setState t st) :=
  ⟨rfl, rfl⟩

theorem schedAddThread_untouched (hij : j ≠ i) {t : T}
    (h : Sched.schedAddThread σ i t = some σ') : Untouched j σ σ' := by
  obtain ⟨hcurrent, hqueues⟩ := Sched.schedAddThread_frame h
  exact ⟨hqueues j hij, congrFun hcurrent j⟩

theorem schedPickNext_untouched (hij : j ≠ i) {next : Option T}
    (h : Sched.schedPickNext σ i = some (next, σ')) : Untouched j σ σ' := by
  obtain ⟨hcurrent, hqueues⟩ := Sched.schedPickNext_frame h
  exact ⟨hqueues j hij, congrFun hcurrent j⟩

theorem requeue_untouched (hij : j ≠ i) {current : Option T}
    (h : Sched.requeue σ i current = some σ') : Untouched j σ σ' := by
  unfold Sched.requeue at h
  split at h
  · cases h
    exact ⟨rfl, rfl⟩
  · split at h
    · exact (Untouched.setState _ _).trans (schedAddThread_untouched hij h)
    · cases h
      exact ⟨rfl, rfl⟩

theorem schedYield_untouched (hij : j ≠ i) (h : Sched.schedYield σ i = some σ') :
    Untouched j σ σ' := by
  unfold Sched.schedYield at h
  obtain ⟨⟨next, σ₁⟩, hpick, h⟩ := Option.bind_eq_some_iff.mp h
  have hpicked := schedPickNext_untouched hij hpick
  cases next with
  | none =>
      -- nothing to run: at most the state of the current thread changes
      dsimp only at h
      split at h
      · cases h
        exact hpicked
      · cases h
        exact hpicked.trans (Untouched.setState _ _)
  | some t =>
      obtain ⟨σ₂, hrequeue, h⟩ := Option.bind_eq_some_iff.mp h
      cases h
      refine (hpicked.trans (requeue_untouched hij hrequeue)).trans ⟨rfl, ?_⟩
      exact Function.update_of_ne hij _ _

end Queues

/-- Processor `p` works on a queue and a current thread of its own, as against `q`: their
indices differ, and what the scheduler does for `p` leaves the entries of `q` alone. -/
structure Separate (x2apicMode : Bool) (s : State) (T : Type) [DecidableEq T] (p q : UInt32) :
    Prop where
  index_ne : smpCurrentCpu x2apicMode s p ≠ smpCurrentCpu x2apicMode s q
  add : ∀ {σ σ' : Sched.State T} {t : T},
    Sched.schedAddThread σ (smpCurrentCpu x2apicMode s p) t = some σ' →
      Untouched (smpCurrentCpu x2apicMode s q) σ σ'
  pickNext : ∀ {σ σ' : Sched.State T} {next : Option T},
    Sched.schedPickNext σ (smpCurrentCpu x2apicMode s p) = some (next, σ') →
      Untouched (smpCurrentCpu x2apicMode s q) σ σ'
  yield : ∀ {σ σ' : Sched.State T},
    Sched.schedYield σ (smpCurrentCpu x2apicMode s p) = some σ' →
      Untouched (smpCurrentCpu x2apicMode s q) σ σ'

theorem separate_iff {x2apicMode : Bool} {s : State} (T : Type) [DecidableEq T] {p q : UInt32} :
    Separate x2apicMode s T p q ↔
      smpCurrentCpu x2apicMode s p ≠ smpCurrentCpu x2apicMode s q := by
  constructor
  · intro h
    exact h.index_ne
  · intro hne
    exact
      { index_ne := hne
        add := fun h => schedAddThread_untouched hne.symm h
        pickNext := fun h => schedPickNext_untouched hne.symm h
        yield := fun h => schedYield_untouched hne.symm h }

/-- All processors come up, and each has an index and a run queue of its own exactly if, in
x2APIC mode, the top bytes of the ids tell them apart. In xAPIC mode that asks nothing. -/
theorem cpu_index_own (m : Machine) (T : Type) [DecidableEq T] :
    ∃ s, m.bringUp = some s ∧
      ((∀ p ∈ m.online, ∀ q ∈ m.online, p ≠ q → Separate m.x2apicMode s T p q) ↔
        m.TopBytesFiled) := by
  obtain ⟨s, hup, hmap⟩ := m.bringUp_spec
  refine ⟨s, hup, ?_⟩
  rw [← Machine.toldApart_iff, ← Machine.indices_ne_iff hmap]
  simp only [separate_iff]

theorem twoIds_lt : ∀ id ∈ [(0 : UInt32), 1], id.toNat < 256 := by
  simp only [List.forall_mem_cons, List.not_mem_nil, false_implies, implies_true, and_true]
  exact ⟨by decide, by decide⟩

/-- Two processors with ids 0 and 1. -/
def twoCpus (x2apicMode : Bool) : Machine where
  x2apicMode := x2apicMode
  bsp := 0
  aps := [1]
  distinct := by decide
  length_le := by decide
  xapic_lt := fun _ => twoIds_lt

/-- In xAPIC mode the two are apart. -/
theorem xapic_two_cpus :
    ∃ s, (twoCpus false).bringUp = some s ∧ Separate false s Nat 0 1 := by
  obtain ⟨s, hup, hiff⟩ := cpu_index_own (twoCpus false) Nat
  have hall := hiff.mpr (by intro hmode; cases hmode)
  exact ⟨s, hup, hall 0 (by decide) 1 (by decide) (by decide)⟩

/-- In x2APIC mode two processors with ids 0 and 1 both have index 0. -/
theorem x2apic_index_shared :
    ∃ s, (twoCpus true).bringUp = some s ∧ smpCurrentCpu true s 0 = smpCurrentCpu true s 1 ∧
      ¬ (∀ p ∈ (twoCpus true).online, ∀ q ∈ (twoCpus true).online, p ≠ q →
        Separate true s Nat p q) := by
  obtain ⟨s, hup, -⟩ := (twoCpus true).bringUp_spec
  have hsame : smpCurrentCpu true s 0 = smpCurrentCpu true s 1 := by
    unfold smpCurrentCpu
    rfl
  refine ⟨s, hup, hsame, ?_⟩
  intro hall
  exact (hall 0 (by decide) 1 (by decide) (by decide)).index_ne hsame

end OmniOS.Smp
