import OmniOS.Kernel.Process
import OmniOS.Kernel.Sched
import OmniOS.Kernel.VmmFrames

/-!
# OmniOS.Kernel.ProcessCreate — what a failed `proc_create` leaves behind

`proc_create` with everything it calls: the process table, `vmm_create_space` and
`pmm_alloc_pages` on the page allocator, and `sched_add_thread`. Between the two allocations
nothing is given back: without memory for the kernel stack the space keeps its two pages.

The space is larger than its page. Clearing it may set links of free pages behind it to 0, so
that a free list ends there (`Owns.cut`); and its `heap_start` may overwrite such a link. Pages
that are lost this way are not free any more either, and the link then leads to a page that was
not free before, unless `0x6000000000` was.
-/

namespace OmniOS.ProcessCreate

open Memory
open Pmm (Block Owns freeBlocks pagesOf PMM_MAX_ORDER)
open Process (MAX_PROCESSES MAX_THREADS)
open VmmFrames (Kernel HEAP_START SPACE_SIZE initSpace)

/-! ## Model -/

/-- A `thread_t *`. -/
abbrev ThreadPtr := Fin MAX_PROCESSES × Fin MAX_THREADS

/-- The process table, the memory and the scheduler. -/
structure World (Ctx F : Type) where
  table : Process.Table Ctx
  vmm : VmmFrames.State F
  sched : Sched.State ThreadPtr

/-- What the scheduler sees of `memset(proc, 0, sizeof(*proc))` and of the new thread. -/
def resetThreads (s : Sched.State ThreadPtr) (i : Fin MAX_PROCESSES) : Sched.State ThreadPtr :=
  { s with threads := fun p =>
      if p.1 = i then ⟨if p.2 = 0 then .ready else .created, 0, 0⟩ else s.threads p }

section Model

variable {Ctx F : Type} [DecidableEq F] (K : Kernel F) (arch : Process.Arch Ctx)

/-- The call on a CPU; `none` is a panic of `pmm_alloc_page`. -/
def procCreate (cpu : Sched.Cpu) (w : World Ctx F) (entry arg : UInt64) :
    Option (Int32 × World Ctx F) :=
  match w.table.freeSlot with
  | none => some (-1, w)
  | some i => do
      let sched := resetThreads w.sched i
      let (_, vmm) ← VmmFrames.vmmCreateSpace K w.vmm
      let (stack, pmm) ← Pmm.pmmAllocPages vmm.pmm 4
      let vmm := { vmm with pmm := pmm }
      let (ret, table) := Process.procCreate arch w.table entry arg (UInt64.ofNat stack)
      if stack = 0 then return (ret, ⟨table, vmm, sched⟩)
      let sched ← Sched.schedAddThread sched cpu (i, 0)
      return (ret, ⟨table, vmm, sched⟩)

end Model

/-! ## Overwritten links -/

section Links

variable {s : Pmm.State} {ls : Nat → List Nat} {hs : List Block} {space : Nat}

theorem freeBlocks_cut_sublist (R : Nat → Bool) (ls : Nat → List Nat) :
    (freeBlocks fun k => Chain.cut R (ls k)).Sublist (freeBlocks ls) := by
  unfold freeBlocks
  induction List.range Pmm.PMM_NUM_ORDERS with
  | nil => exact List.Sublist.refl _
  | cons k ks ih =>
      rw [List.flatMap_cons, List.flatMap_cons]
      exact ((Chain.cut_sublist R (ls k)).map _).append ih

/-- Free pages with their links set to 0: the lists are shorter. -/
theorem Owns.cut (h : Owns s ls hs) {R : Nat → Bool} {m : Mem}
    (hkept : ∀ k ≤ PMM_MAX_ORDER, ∀ a ∈ ls k, R a = false → Pmm.next m a = Pmm.next s.mem a)
    (hzero : ∀ k ≤ PMM_MAX_ORDER, ∀ a ∈ ls k, R a = true → Pmm.next m a = 0) :
    Owns { s with mem := m } (fun k => Chain.cut R (ls k)) hs where
  lists k hk := (h.lists k hk).cut (hkept k hk) (hzero k hk)
  good b hb := h.good b (((freeBlocks_cut_sublist R ls).append_right hs).subset hb)
  disjoint := h.disjoint.sublist ((freeBlocks_cut_sublist R ls).append_right hs)

theorem load_zeros {m : Mem} {n a : Nat} (h : ∀ x, a ≤ x → x < a + n → m x = 0) :
    load m n a = 0 := by
  induction n generalizing a with
  | zero => rfl
  | succ n ih =>
      rw [load, h a (Nat.le_refl a) (by omega), ih fun x hx hx' => h x (by omega) (by omega)]
      rfl

/-- The pages whose links are cleared with the space. -/
def behind (space a : Nat) : Bool := space ≤ a && a < space + SPACE_SIZE

/-- `memset(space, 0, sizeof(*space))`. -/
theorem Owns.clear_space (h : Owns s ls hs) (hspace : Block.mk 0 space ∈ hs) :
    Owns { s with mem := fill s.mem SPACE_SIZE space 0 }
      (fun k => Chain.cut (behind space) (ls k)) hs := by
  have hP := Pmm.PAGE_SIZE_eq
  have hlayout := VmmFrames.layout
  obtain ⟨q, hq⟩ := (h.good _ (List.mem_append_right _ hspace)).aligned
  rw [hP] at hq
  dsimp only at hq
  have hpage {k a : Nat} (hk : k ≤ PMM_MAX_ORDER) (ha : a ∈ ls k) : ∃ p, a = 4096 * p :=
    (h.good_free hk ha).aligned
  refine Owns.cut h ?_ ?_
  · intro k hk a ha hout
    obtain ⟨p, hp⟩ := hpage hk ha
    rw [behind, Bool.and_eq_false_iff, decide_eq_false_iff_not, decide_eq_false_iff_not] at hout
    refine load_congr fun x hlow hhigh => fill_apply_of_notMem _ ?_
    omega
  · intro k hk a ha hin
    obtain ⟨p, hp⟩ := hpage hk ha
    rw [behind, Bool.and_eq_true, decide_eq_true_eq, decide_eq_true_eq] at hin
    refine load_zeros fun x hlow hhigh => fill_apply_of_mem _ ?_
    omega

/-- `space->heap_start`. -/
theorem next_heap_start (m : Mem) (space pml4 : Nat) :
    Pmm.next (initSpace m space pml4) (space + HEAP_START) = 0x6000000000 := by
  have hlayout := VmmFrames.layout
  rw [Pmm.next, initSpace]
  rw [load_store_of_disjoint _ (by omega), load_store_of_disjoint _ (by omega)]
  exact load_store_self _ (by decide)

/-- The fields of the space lie in the thirteenth page. -/
theorem next_initSpace {m : Mem} {a pml4 : Nat} (hspace : 4096 ∣ space) (ha : 4096 ∣ a)
    (hne : a ≠ space + HEAP_START) : Pmm.next (initSpace m space pml4) a = Pmm.next m a := by
  have hlayout := VmmFrames.layout
  refine load_congr fun x hlow hhigh => VmmFrames.initSpace_apply ?_
  omega

end Links

/-! ## The space -/

section Create

variable {F : Type} [DecidableEq F] {K : Kernel F} {s s₁ : VmmFrames.State F}
variable {ls : Nat → List Nat} {space : Nat}

/-- The two pages of a new space come from the free lists. -/
theorem create_owns (howns : Owns s.pmm ls [])
    (hcreate : VmmFrames.vmmCreateSpace K s = some (space, s₁)) :
    ∃ pml4 pmm ls', Owns pmm ls' [⟨0, pml4⟩, ⟨0, space⟩] ∧
      s₁.pmm = { pmm with mem := initSpace pmm.mem space pml4 } ∧
      space / Pmm.PAGE_SIZE ∈ pagesOf (freeBlocks ls) := by
  unfold VmmFrames.vmmCreateSpace at hcreate
  rcases Pmm.pmmAllocPage_cases howns with hnone | ⟨b, pmm₁, ls₁, halloc₁, howns₁, hsame₁, -⟩
  · rw [hnone] at hcreate
    cases hcreate
  · rw [halloc₁] at hcreate
    dsimp only at hcreate
    have hcleared := Owns.clear_space howns₁ List.mem_cons_self
    rcases Pmm.pmmAllocPage_cases hcleared with hnone | ⟨c, pmm₂, ls₂, halloc₂, howns₂, -, -⟩
    · rw [hnone] at hcreate
      cases hcreate
    · rw [halloc₂] at hcreate
      obtain ⟨rfl, rfl⟩ := Prod.mk.inj (Option.some.inj hcreate)
      refine ⟨c, pmm₂, ls₂, howns₂, rfl, ?_⟩
      have hpages : pagesOf (freeBlocks ls) = pagesOf (freeBlocks ls₁ ++ [⟨0, b⟩]) := by
        rw [← hsame₁.1, List.append_nil]
      rw [hpages, VmmFrames.pagesOf_append]
      exact Or.inr ⟨⟨0, b⟩, List.mem_singleton_self _, VmmFrames.page_of_block ⟨0, b⟩⟩

/-- After `vmm_create_space` other pages are free than before. -/
theorem create_freePages_ne (howns : Owns s.pmm ls [])
    (hhigh : 0x6000000 ∉ pagesOf (freeBlocks ls))
    (hcreate : VmmFrames.vmmCreateSpace K s = some (space, s₁)) :
    Pmm.freePages s₁.pmm ≠ Pmm.freePages s.pmm ∧
      ∀ k ≤ PMM_MAX_ORDER, s₁.pmm.freeLists k < 2 ^ 64 := by
  obtain ⟨pml4, pmm, ls', howns', hpmm, hpage⟩ := create_owns howns hcreate
  have hspace : 4096 ∣ space := (howns'.good ⟨0, space⟩ (by simp)).aligned
  have haligned {k a : Nat} (hk : k ≤ PMM_MAX_ORDER) (ha : a ∈ ls' k) : 4096 ∣ a :=
    (howns'.good_free hk ha).aligned
  rw [howns.freePages_eq, hpmm]
  refine ⟨fun hsame => ?_, fun k hk => howns'.head_lt hk⟩
  by_cases hlink : ∃ k ≤ PMM_MAX_ORDER, space + HEAP_START ∈ ls' k
  · -- the link of a free page is overwritten, and leads to a page that was not free
    obtain ⟨k, hk, hmem⟩ := hlink
    have hnext := next_heap_start pmm.mem space pml4
    have hreach : Chain.Reaches (Pmm.next (initSpace pmm.mem space pml4)) (pmm.freeLists k)
        (space + HEAP_START) :=
      (howns'.lists k hk).reaches_of_agree hmem
        fun a ha hne => next_initSpace hspace (haligned hk ha) hne
    have hwild := hreach.step (by rw [hnext]; decide)
    rw [hnext] at hwild
    refine hhigh (hsame ▸ ⟨k, hk, _, hwild, ?_⟩)
    have hnumber : 0x6000000000 / Pmm.PAGE_SIZE = 0x6000000 := by rw [Pmm.PAGE_SIZE_eq]
    have hfirst := VmmFrames.page_of_block ⟨k, 0x6000000000⟩
    dsimp only at hfirst
    rwa [hnumber] at hfirst
  · -- the lists are as they were, without the page of the space
    have howns₁ : Owns { pmm with mem := initSpace pmm.mem space pml4 } ls'
        [⟨0, pml4⟩, ⟨0, space⟩] := by
      refine howns'.of_perm (fun k hk => ?_) (List.Perm.refl _)
      refine (howns'.lists k hk).congr fun a ha => next_initSpace hspace (haligned hk ha) ?_
      exact fun heq => hlink ⟨k, hk, heq ▸ ha⟩
    rw [howns₁.freePages_eq] at hsame
    rw [← hsame] at hpage
    exact VmmFrames.not_free_of_held howns₁ (by simp) (VmmFrames.page_of_block ⟨0, space⟩) hpage

end Create

/-! ## The whole call -/

section Call

/-- `buddy_alloc` returns 0 only if it finds nothing; otherwise the head of a list. -/
theorem buddyAlloc_head (s : Pmm.State) (order : Nat) :
    Pmm.buddyAlloc s order = (0, s) ∨
      ∃ k ≤ PMM_MAX_ORDER, (Pmm.buddyAlloc s order).1 = s.freeLists k ∧ s.freeLists k ≠ 0 := by
  cases hfind : Pmm.findOrder s order with
  | none =>
      rw [Pmm.buddyAlloc, hfind]
      exact Or.inl rfl
  | some k =>
      have hmem := List.mem_of_find?_eq_some hfind
      rw [List.mem_range'_1, Pmm.PMM_NUM_ORDERS] at hmem
      have hne : s.freeLists k ≠ 0 := by simpa using List.find?_some hfind
      refine Or.inr ⟨k, by omega, ?_, hne⟩
      rw [Pmm.buddyAlloc, hfind]

variable {Ctx F : Type} [DecidableEq F] {K : Kernel F} {arch : Process.Arch Ctx}
variable {cpu : Sched.Cpu} {w w' : World Ctx F} {entry arg : UInt64} {ls : Nat → List Nat}

/-- With a kernel stack the slot is in use afterwards. -/
theorem procCreate_used {t : Process.Table Ctx} {i : Fin MAX_PROCESSES}
    (hslot : t.freeSlot = some i) {stack : UInt64} (hstack : stack ≠ 0) :
    ((Process.procCreate arch t entry arg stack).2.processes i).used = true := by
  rcases Process.procCreate_cases arch t entry arg stack with
    ⟨hnone, -⟩ | ⟨j, ret, proc, hj, hcreate, -, hused, -⟩
  · rw [hslot] at hnone
    cases hnone
  · rw [hslot] at hj
    cases hj
    rw [hcreate]
    simpa [Process.Table.add] using hused.mpr hstack

/-- The free frames, the processes in use and the run queues are what they were. -/
structure Unchanged (w w' : World Ctx F) : Prop where
  frames : Pmm.freePages w'.vmm.pmm = Pmm.freePages w.vmm.pmm
  used : ∀ i, (w'.table.processes i).used = (w.table.processes i).used
  queues : w'.sched.runqueues = w.sched.runqueues

/-- A call that finds a slot changes something, whether it fails or not. -/
theorem not_unchanged_of_slot {ret : Int32} {i : Fin MAX_PROCESSES} (howns : Owns w.vmm.pmm ls [])
    (hhigh : 0x6000000 ∉ pagesOf (freeBlocks ls)) (hslot : w.table.freeSlot = some i)
    (hrun : procCreate K arch cpu w entry arg = some (ret, w')) : ¬ Unchanged w w' := by
  intro hsame
  unfold procCreate at hrun
  rw [hslot] at hrun
  simp only [Option.bind_eq_bind] at hrun
  obtain ⟨⟨space, vmm⟩, hcreate, hrun⟩ := Option.bind_eq_some_iff.mp hrun
  obtain ⟨⟨stack, pmm⟩, halloc, hrun⟩ := Option.bind_eq_some_iff.mp hrun
  obtain ⟨hframes, hlt⟩ := create_freePages_ne howns hhigh hcreate
  have horder : Pmm.orderOf 4 = some 2 := by decide
  rw [Pmm.pmmAllocPages, horder, Option.map_some, Option.some.injEq] at halloc
  obtain ⟨r, hr⟩ : ∃ r, Process.procCreate arch w.table entry arg (UInt64.ofNat stack) = r :=
    ⟨_, rfl⟩
  rw [hr] at hrun
  dsimp only at hrun
  rcases buddyAlloc_head vmm.pmm 2 with hnone | ⟨k, hk, hhead, hne⟩
  · -- no kernel stack: the space keeps its pages
    rw [halloc, Prod.mk.injEq] at hnone
    obtain ⟨rfl, rfl⟩ := hnone
    rw [if_pos rfl] at hrun
    obtain ⟨-, rfl⟩ := Prod.mk.inj (Option.some.inj hrun)
    exact hframes hsame.frames
  · -- the process is there, and its pid is -1 as an int
    rw [halloc] at hhead
    dsimp only at hhead
    have hstack : UInt64.ofNat stack ≠ 0 := by
      intro hzero
      have hval := congrArg UInt64.toNat hzero
      rw [UInt64.toNat_ofNat', hhead, Nat.mod_eq_of_lt (hlt k hk)] at hval
      exact hne hval
    rw [if_neg (by rw [hhead]; exact hne)] at hrun
    obtain ⟨sched, -, hrun⟩ := Option.bind_eq_some_iff.mp hrun
    obtain ⟨-, rfl⟩ := Prod.mk.inj (Option.some.inj hrun)
    have hused : (r.2.processes i).used = (w.table.processes i).used := hsame.used i
    rw [← hr, procCreate_used hslot hstack, Process.freeSlot_some hslot] at hused
    cases hused

/-- A call that returns -1 has changed nothing of these exactly if all slots of the table
were in use. -/
theorem proc_create_unchanged_iff (howns : Owns w.vmm.pmm ls [])
    (hhigh : 0x6000000 ∉ pagesOf (freeBlocks ls))
    (hrun : procCreate K arch cpu w entry arg = some (-1, w')) :
    Unchanged w w' ↔ w.table.freeSlot = none := by
  cases hslot : w.table.freeSlot with
  | none =>
      unfold procCreate at hrun
      rw [hslot] at hrun
      cases hrun
      exact iff_of_true ⟨rfl, fun _ => rfl, rfl⟩ rfl
  | some i =>
      exact iff_of_false (not_unchanged_of_slot howns hhigh hslot hrun) (Option.some_ne_none i)

end Call

/-- A table, three pages of memory and no threads. -/
def threePageWorld (table : Process.Table Process.ContextArm64) :
    World Process.ContextArm64 UInt64 :=
  ⟨table, VmmFrames.start (Pmm.pmmInit (fun _ => 0) VmmFrames.threePages).st,
    Sched.schedInit 1 fun _ => ⟨.created, 0, 0⟩⟩

theorem threePageWorld_owns (table : Process.Table Process.ContextArm64) :
    Owns (threePageWorld table).vmm.pmm (Pmm.initialLists VmmFrames.threePages) [] :=
  Pmm.pmmInit_owns (Pmm.isMap_singleton (r := ⟨0x1000000, 0x3000, 1⟩) (by decide)) _

theorem threePages_high :
    0x6000000 ∉ pagesOf (freeBlocks (Pmm.initialLists VmmFrames.threePages)) := by
  intro hpage
  have hrange := VmmFrames.threePages_pages hpage
  omega

/-- All slots are in use. -/
def fullTable : Process.Table Process.ContextArm64 :=
  { Process.procInit Process.arm64.toArch with
    processes := fun _ => { Process.Proc.zero Process.arm64.toArch with used := true } }

theorem fullTable_freeSlot : fullTable.freeSlot = none :=
  List.find?_eq_none.mpr fun i _ => by simp [fullTable]

theorem proc_create_unchanged_full :
    ∃ w', procCreate VmmFrames.smallKernel Process.arm64.toArch 0 (threePageWorld fullTable) 0 0 =
        some (-1, w') ∧
      Unchanged (threePageWorld fullTable) w' := by
  have hslot : (threePageWorld fullTable).table.freeSlot = none := fullTable_freeSlot
  have hrun : procCreate VmmFrames.smallKernel Process.arm64.toArch 0 (threePageWorld fullTable)
      0 0 = some (-1, threePageWorld fullTable) := by
    unfold procCreate
    rw [hslot]
  exact ⟨_, hrun, (proc_create_unchanged_iff (threePageWorld_owns fullTable) threePages_high
    hrun).mpr hslot⟩

/-- The free pages before and after a call in an empty table: two of three are lost. -/
theorem proc_create_leaks :
    VmmFrames.listFrom (threePageWorld (Process.procInit Process.arm64.toArch)).vmm.pmm.mem 4
        ((threePageWorld (Process.procInit Process.arm64.toArch)).vmm.pmm.freeLists 0) =
      [0x1002000, 0x1001000, 0x1000000] ∧
    ∃ w', procCreate VmmFrames.smallKernel Process.arm64.toArch 0
        (threePageWorld (Process.procInit Process.arm64.toArch)) 0 0 = some (-1, w') ∧
      VmmFrames.listFrom w'.vmm.pmm.mem 4 (w'.vmm.pmm.freeLists 0) = [0x1000000] ∧
      ¬ Unchanged (threePageWorld (Process.procInit Process.arm64.toArch)) w' := by
  have hlists : (procCreate VmmFrames.smallKernel Process.arm64.toArch 0
      (threePageWorld (Process.procInit Process.arm64.toArch)) 0 0).map (fun r =>
        (r.1, VmmFrames.listFrom r.2.vmm.pmm.mem 4 (r.2.vmm.pmm.freeLists 0))) =
      some (-1, [0x1000000]) := by decide +kernel
  have hslot : (threePageWorld (Process.procInit Process.arm64.toArch)).table.freeSlot =
      some 0 := by decide +kernel
  obtain ⟨⟨ret, w'⟩, hrun, heq⟩ := Option.map_eq_some_iff.mp hlists
  obtain ⟨rfl, hlist⟩ := Prod.mk.inj heq
  exact ⟨by decide +kernel, w', hrun, hlist,
    not_unchanged_of_slot (threePageWorld_owns _) threePages_high hslot hrun⟩

end OmniOS.ProcessCreate
