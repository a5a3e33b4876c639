import OmniOS.Kernel.Process

/-!
# OmniOS.Kernel.ProcessRuns — pids, tids and kernel stacks over runs

Pids and tids come from counters and slots are never given back, so ids are distinct in
every run that does not exhaust the counters (`Holds.ids`). Kernel stacks come from the
page allocator, except in `proc_fork`: the child's thread keeps the parent's stack, so
stacks are disjoint exactly as long as no fork succeeds.
-/

namespace OmniOS.Process

variable {Ctx : Type} (arch : ForkArch Ctx)

/-! ## Runs -/

/-- The table and how often `proc_create` and `proc_fork` were called. -/
structure World (Ctx : Type) where
  table : Table Ctx
  calls : Nat

inductive Event where
  | create (entry arg stack : UInt64)
  | fork
  | setCurrent (p : Option (Fin MAX_PROCESSES × Fin MAX_THREADS))

/-- Address `a` is in `[kernel_stack_top, kernel_stack)`. -/
def Thread.InStack (thread : Thread Ctx) (a : Nat) : Prop :=
  thread.kernelStackTop.toNat ≤ a ∧ a < thread.kernelStack.toNat

/-- The page allocator hands out pages that no thread in use has for a stack. -/
def Allocated (t : Table Ctx) (stack : UInt64) : Prop :=
  stack.toNat + 16384 < 2 ^ 64 ∧ ∀ p, (t.thread p).used = true →
    ∀ a, (t.thread p).InStack a → ¬ (stack.toNat ≤ a ∧ a < stack.toNat + 16384)

def World.next (w : World Ctx) : Event → World Ctx
  | .create entry arg stack => ⟨(procCreate arch.toArch w.table entry arg stack).2, w.calls + 1⟩
  | .fork => ⟨(procFork arch w.table).2, w.calls + 1⟩
  | .setCurrent p => { w with table := procSetCurrentThread w.table p }

def system : Lts.System (World Ctx) Event where
  Init w := w = ⟨procInit arch.toArch, 0⟩
  Next e w w' := w' = w.next arch e ∧
    ∀ entry arg stack, e = .create entry arg stack → stack ≠ 0 → Allocated w.table stack

/-! ## Identity -/

/-- Pids and tids are distinct, and a thread carries the pid of its process. -/
structure Ids (t : Table Ctx) : Prop where
  pid : ∀ i j, (t.processes i).used = true → (t.processes j).used = true →
    (t.processes i).pid = (t.processes j).pid → i = j
  tid : ∀ p q, (t.thread p).used = true → (t.thread q).used = true →
    (t.thread p).tid = (t.thread q).tid → p = q
  belongs : ∀ p, (t.thread p).used = true →
    (t.processes p.1).used = true ∧ (t.thread p).pid = (t.processes p.1).pid

/-- No address is in the stacks of two threads. -/
def StacksDisjoint (t : Table Ctx) : Prop :=
  ∀ p q, (t.thread p).used = true → (t.thread q).used = true → p ≠ q →
    ∀ a, (t.thread p).InStack a → ¬ (t.thread q).InStack a

/-- A call of `proc_fork` finds no current process or no free slot. -/
def NoFork (e : Event) (w : World Ctx) : Prop :=
  e = .fork → procGetCurrent w.table = none ∨ w.table.freeSlot = none

/-- Ids in use are below the counters, and the thread in use of a process is its
first. -/
structure Holds (w : World Ctx) : Prop where
  pid_le : w.table.nextPid.toNat ≤ w.calls + 1
  tid_le : w.table.nextTid.toNat ≤ w.calls + 1
  pid_lt : ∀ i, (w.table.processes i).used = true →
    (w.table.processes i).pid < w.table.nextPid
  tid_lt : ∀ p, (w.table.thread p).used = true → (w.table.thread p).tid < w.table.nextTid
  first : ∀ i, (w.table.processes i).used = true → (w.table.thread (i, 0)).used = true
  stack : ∀ p, (w.table.thread p).used = true →
    (w.table.thread p).InStack (w.table.thread p).kernelStackTop.toNat
  ids : Ids w.table

section Steps

variable {w w' : World Ctx}

theorem holds_init : Holds ⟨procInit arch.toArch, 0⟩ where
  pid_le := Nat.le_refl 1
  tid_le := Nat.le_refl 1
  pid_lt _ h := nomatch h
  tid_lt _ h := nomatch h
  first _ h := nomatch h
  stack _ h := nomatch h
  ids := ⟨fun _ _ h => (nomatch h), fun _ _ h => (nomatch h), fun _ h => (nomatch h)⟩

/-- A counter that is not at its end. -/
theorem counter_succ {c : UInt32} {k : Nat} (hle : c.toNat ≤ k + 1) (hk : k + 1 < 2 ^ 32 - 1) :
    (c + 1).toNat = c.toNat + 1 := by
  have hone : (1 : UInt32).toNat = 1 := rfl
  rw [UInt32.toNat_add, hone]
  omega

theorem thread_add (t : Table Ctx) (i : Fin MAX_PROCESSES) (proc : Proc Ctx)
    (p : Fin MAX_PROCESSES × Fin MAX_THREADS) :
    (t.add i proc).thread p = if p.1 = i then proc.threads p.2 else t.thread p := by
  by_cases hp : p.1 = i
  · simp [Table.add, Table.thread, hp]
  · simp [Table.add, Table.thread, hp]

theorem processes_add (t : Table Ctx) (i : Fin MAX_PROCESSES) (proc : Proc Ctx)
    (j : Fin MAX_PROCESSES) :
    (t.add i proc).processes j = if j = i then proc else t.processes j := by
  by_cases hj : j = i
  · simp [Table.add, hj]
  · simp [Table.add, hj]

/-- A thread in use after a slot was filled is the new one or was in use before. -/
theorem Fresh.used_thread {t : Table Ctx} {proc : Proc Ctx} (h : Fresh t proc)
    {i : Fin MAX_PROCESSES} {p : Fin MAX_PROCESSES × Fin MAX_THREADS}
    (hused : ((t.add i proc).thread p).used = true) :
    (p = (i, 0) ∧ (t.add i proc).thread p = proc.threads 0 ∧ proc.used = true) ∨
    (p.1 ≠ i ∧ (t.add i proc).thread p = t.thread p ∧ (t.thread p).used = true) := by
  rw [thread_add] at hused ⊢
  by_cases hp : p.1 = i
  · rw [if_pos hp] at hused ⊢
    have hj : p.2 = 0 := by
      by_contra hj
      rw [h.rest p.2 hj] at hused
      cases hused
    rw [hj] at hused ⊢
    exact Or.inl ⟨Prod.ext hp hj, rfl, h.first ▸ hused⟩
  · rw [if_neg hp] at hused ⊢
    exact Or.inr ⟨hp, rfl, hused⟩

/-- New ids are those of the counters, which are not in use. -/
theorem Ids.add {t : Table Ctx} (h : Ids t)
    (hpids : ∀ i, (t.processes i).used = true → (t.processes i).pid < t.nextPid)
    (htids : ∀ p, (t.thread p).used = true → (t.thread p).tid < t.nextTid)
    {i : Fin MAX_PROCESSES} {proc : Proc Ctx} (hfresh : Fresh t proc) : Ids (t.add i proc) := by
  have hnewPid {x : UInt32} (hx : x < t.nextPid) : proc.pid ≠ x := by
    rw [hfresh.pid]
    exact (UInt32.ne_of_lt hx).symm
  have hnewTid {x : UInt32} (hx : x < t.nextTid) : (proc.threads 0).tid ≠ x := by
    rw [hfresh.tid]
    exact (UInt32.ne_of_lt hx).symm
  constructor
  · intro j k hj hk heq
    simp only [processes_add] at hj hk heq
    by_cases hji : j = i
    · by_cases hki : k = i
      · exact hji.trans hki.symm
      · rw [if_neg hki] at hk
        rw [if_pos hji, if_neg hki] at heq
        exact absurd heq (hnewPid (hpids k hk))
    · rw [if_neg hji] at hj
      by_cases hki : k = i
      · rw [if_neg hji, if_pos hki] at heq
        exact absurd heq.symm (hnewPid (hpids j hj))
      · rw [if_neg hki] at hk
        rw [if_neg hji, if_neg hki] at heq
        exact h.pid j k hj hk heq
  · intro p q hp hq heq
    rcases hfresh.used_thread hp with ⟨hpi, hpt, -⟩ | ⟨-, hpt, hpu⟩
    · rcases hfresh.used_thread hq with ⟨hqi, -, -⟩ | ⟨-, hqt, hqu⟩
      · exact hpi.trans hqi.symm
      · rw [hpt, hqt] at heq
        exact absurd heq (hnewTid (htids q hqu))
    · rcases hfresh.used_thread hq with ⟨-, hqt, -⟩ | ⟨-, hqt, hqu⟩
      · rw [hpt, hqt] at heq
        exact absurd heq.symm (hnewTid (htids p hpu))
      · rw [hpt, hqt] at heq
        exact h.tid p q hpu hqu heq
  · intro p hp
    rcases hfresh.used_thread hp with ⟨hpi, hpt, hnew⟩ | ⟨hpi, hpt, hpu⟩
    · rw [hpt, processes_add, hpi, if_pos rfl]
      exact ⟨hnew, hfresh.thread_pid.trans hfresh.pid.symm⟩
    · rw [hpt, processes_add, if_neg hpi]
      exact h.belongs p hpu

theorem Holds.add (h : Holds w) (hcalls : w.calls + 1 < 2 ^ 32 - 1) {i : Fin MAX_PROCESSES}
    {proc : Proc Ctx} (hfresh : Fresh w.table proc)
    (hstack : proc.used = true →
      (proc.threads 0).InStack (proc.threads 0).kernelStackTop.toNat) :
    Holds ⟨w.table.add i proc, w.calls + 1⟩ := by
  have hpid := counter_succ h.pid_le hcalls
  have htid := counter_succ h.tid_le hcalls
  constructor
  · show (w.table.nextPid + 1).toNat ≤ w.calls + 1 + 1
    have hle := h.pid_le
    omega
  · show (w.table.nextTid + 1).toNat ≤ w.calls + 1 + 1
    have hle := h.tid_le
    omega
  · intro j hj
    show _ < w.table.nextPid + 1
    simp only [processes_add] at hj ⊢
    rw [UInt32.lt_iff_toNat_lt, hpid]
    by_cases hji : j = i
    · rw [if_pos hji, hfresh.pid]
      omega
    · rw [if_neg hji] at hj ⊢
      have hlt := UInt32.lt_iff_toNat_lt.mp (h.pid_lt j hj)
      omega
  · intro p hp
    show _ < w.table.nextTid + 1
    rw [UInt32.lt_iff_toNat_lt, htid]
    rcases hfresh.used_thread hp with ⟨-, heq, -⟩ | ⟨-, heq, hused⟩
    · rw [heq, hfresh.tid]
      omega
    · rw [heq]
      have hlt := UInt32.lt_iff_toNat_lt.mp (h.tid_lt p hused)
      omega
  · intro j hj
    simp only [processes_add, thread_add] at hj ⊢
    by_cases hji : j = i
    · rw [if_pos hji] at hj ⊢
      exact hfresh.first.trans hj
    · rw [if_neg hji] at hj ⊢
      exact h.first j hj
  · intro p hp
    rcases hfresh.used_thread hp with ⟨-, heq, hnew⟩ | ⟨-, heq, hused⟩
    · rw [heq]
      exact hstack hnew
    · rw [heq]
      exact h.stack p hused
  · exact h.ids.add h.pid_lt h.tid_lt hfresh

/-- Filling a slot keeps stacks disjoint if the new one is. -/
theorem stacksDisjoint_add {t : Table Ctx} (h : StacksDisjoint t) {i : Fin MAX_PROCESSES}
    {proc : Proc Ctx} (hfresh : Fresh t proc)
    (hnew : proc.used = true → ∀ p, (t.thread p).used = true →
      ∀ a, (t.thread p).InStack a → ¬ (proc.threads 0).InStack a) :
    StacksDisjoint (t.add i proc) := by
  intro p q hp hq hne a hin
  rcases hfresh.used_thread hp with ⟨hpi, hpt, hused⟩ | ⟨-, hpt, hpu⟩
  · rcases hfresh.used_thread hq with ⟨hqi, -, -⟩ | ⟨-, hqt, hqu⟩
    · exact absurd (hpi.trans hqi.symm) hne
    · rw [hpt] at hin
      rw [hqt]
      exact fun hin' => hnew hused q hqu a hin' hin
  · rcases hfresh.used_thread hq with ⟨-, hqt, hused⟩ | ⟨-, hqt, hqu⟩
    · rw [hpt] at hin
      rw [hqt]
      exact hnew hused p hpu a hin
    · rw [hpt] at hin
      rw [hqt]
      exact h p q hpu hqu hne a hin

/-- A stack of four pages that does not reach the end of the address space. -/
theorem kernelStack_toNat {stack : UInt64} (h : stack.toNat + 16384 < 2 ^ 64) :
    (stack + 4 * PAGE_SIZE).toNat = stack.toNat + 16384 := by
  have hsize : (4 * PAGE_SIZE).toNat = 16384 := rfl
  rw [UInt64.toNat_add, hsize]
  omega

/-- A call that changes nothing. -/
theorem Holds.called (h : Holds w) : Holds { w with calls := w.calls + 1 } :=
  { h with
    pid_le := h.pid_le.trans (Nat.le_succ _)
    tid_le := h.tid_le.trans (Nat.le_succ _) }

theorem Holds.create (h : Holds w) (hcalls : w.calls + 1 < 2 ^ 32 - 1) {entry arg stack : UInt64}
    (halloc : stack ≠ 0 → Allocated w.table stack) :
    Holds (w.next arch (.create entry arg stack)) ∧
    (StacksDisjoint w.table →
      StacksDisjoint (w.next arch (.create entry arg stack)).table) := by
  rw [World.next]
  rcases procCreate_cases arch.toArch w.table entry arg stack with
    ⟨-, heq⟩ | ⟨i, ret, proc, -, heq, hfresh, hused, hstack⟩
  · rw [heq]
    exact ⟨h.called, id⟩
  · rw [heq]
    -- the new thread's stack is what was allocated
    have hin (hproc : proc.used = true) (a : Nat) :
        (proc.threads 0).InStack a ↔ stack.toNat ≤ a ∧ a < stack.toNat + 16384 := by
      rcases hstack hproc with ⟨htop, hend⟩
      rw [Thread.InStack, htop, hend, kernelStack_toNat (halloc (hused.mp hproc)).1]
    constructor
    · refine h.add hcalls hfresh ?_
      intro hproc
      rw [hin hproc, (hstack hproc).1]
      omega
    · intro hdisjoint
      refine stacksDisjoint_add hdisjoint hfresh ?_
      intro hproc p hp a ha
      rw [hin hproc]
      exact (halloc (hused.mp hproc)).2 p hp a ha

/-- The fork of a process whose first thread is in use fills a slot with fresh ids and
the parent's stack. -/
theorem Holds.fork (h : Holds w) (hcalls : w.calls + 1 < 2 ^ 32 - 1) :
    Holds (w.next arch .fork) ∧
    if procGetCurrent w.table = none ∨ w.table.freeSlot = none then
      (w.next arch .fork).table = w.table
    else ¬ StacksDisjoint (w.next arch .fork).table := by
  rw [World.next]
  rcases procFork_cases arch w.table with
    ⟨hfail, heq⟩ | ⟨p, i, ret, proc, hcurrent, hslot, heq, hused, hpid, htid, htpid, hfirst, htop,
      hend, hrest⟩
  · rw [heq, if_pos hfail]
    exact ⟨h.called, rfl⟩
  · rw [heq]
    have hgo : ¬ (procGetCurrent w.table = none ∨ w.table.freeSlot = none) := by
      rw [hcurrent, hslot]
      simp
    have hparent : (w.table.thread (p, 0)).used = true := h.first p (procGetCurrent_used hcurrent)
    have hshared (a : Nat) : (proc.threads 0).InStack a ↔ (w.table.thread (p, 0)).InStack a := by
      rw [Thread.InStack, htop, hend]
      rfl
    have hown := h.stack (p, 0) hparent
    have hfirstUsed : (proc.threads 0).used = proc.used := (hfirst.trans hparent).trans hused.symm
    have hfresh : Fresh w.table proc := ⟨hpid, htid, htpid, hfirstUsed, hrest⟩
    constructor
    · refine h.add hcalls hfresh fun _ => ?_
      rw [hshared, htop]
      exact hown
    · rw [if_neg hgo]
      intro hdisjoint
      -- the free slot is not the parent's
      have hne : p ≠ i := by
        rintro rfl
        have hfree := freeSlot_some hslot
        rw [procGetCurrent_used hcurrent] at hfree
        cases hfree
      have hold : (w.table.add i proc).thread (p, 0) = w.table.thread (p, 0) := by
        rw [thread_add, if_neg hne]
      have hnew : (w.table.add i proc).thread (i, 0) = proc.threads 0 := by
        rw [thread_add, if_pos rfl]
      refine hdisjoint (p, 0) (i, 0) ?_ ?_ (fun heq => hne (congrArg Prod.fst heq))
        (w.table.thread (p, 0)).kernelStackTop.toNat ?_ ?_
      · rw [hold]
        exact hparent
      · rw [hnew, hfirst]
        exact hparent
      · rw [hold]
        exact hown
      · rw [hnew, hshared]
        exact hown

theorem Holds.fork_shares (h : Holds w) (hcalls : w.calls + 1 < 2 ^ 32 - 1)
    (hgo : ¬ (procGetCurrent w.table = none ∨ w.table.freeSlot = none)) :
    ¬ StacksDisjoint (w.next arch .fork).table := by
  have hshared := (h.fork arch hcalls).2
  rwa [if_neg hgo] at hshared

theorem Holds.setCurrent (h : Holds w) (p : Option (Fin MAX_PROCESSES × Fin MAX_THREADS)) :
    Holds (w.next arch (.setCurrent p)) :=
  { h with ids := ⟨h.ids.pid, h.ids.tid, h.ids.belongs⟩ }

/-- Ids hold after every step; stacks stay disjoint in every step but a fork that makes a
child. -/
theorem Holds.next (h : Holds w) (hdisjoint : StacksDisjoint w.table) {e : Event}
    (hcalls : (w.next arch e).calls < 2 ^ 32 - 1)
    (hnext : (system arch).Next e w w') :
    Holds w' ∧ (StacksDisjoint w'.table ↔ NoFork e w) := by
  rcases hnext with ⟨rfl, halloc⟩
  cases e with
  | create entry arg stack =>
      rcases h.create arch hcalls (halloc entry arg stack rfl) with ⟨h', hkeep⟩
      exact ⟨h', iff_of_true (hkeep hdisjoint) fun heq => nomatch heq⟩
  | fork =>
      rcases h.fork arch hcalls with ⟨h', hfork⟩
      refine ⟨h', ?_⟩
      by_cases hfail : procGetCurrent w.table = none ∨ w.table.freeSlot = none
      · rw [if_pos hfail] at hfork
        rw [hfork]
        exact iff_of_true hdisjoint fun _ => hfail
      · exact iff_of_false (h.fork_shares arch hcalls hfail) fun hno => hfail (hno rfl)
  | setCurrent p =>
      exact ⟨h.setCurrent arch p, iff_of_true hdisjoint fun heq => nomatch heq⟩

theorem calls_le (w : World Ctx) (e : Event) : w.calls ≤ (w.next arch e).calls := by
  cases e with
  | create entry arg stack => exact Nat.le_succ _
  | fork => exact Nat.le_succ _
  | setCurrent p => exact Nat.le_refl _

theorem holds_reachable (hreach : Lts.Reachable ((system arch).restrict NoFork) w)
    (hcalls : w.calls < 2 ^ 32 - 1) : Holds w ∧ StacksDisjoint w.table := by
  refine hreach.invariant
    (I := fun w => w.calls < 2 ^ 32 - 1 → Holds w ∧ StacksDisjoint w.table) ?_ ?_ hcalls
  · rintro w rfl -
    exact ⟨holds_init arch, fun p q hp => nomatch hp⟩
  · rintro e w w' ih ⟨hno, hnext⟩ hcalls
    rw [hnext.1] at hcalls
    rcases ih ((calls_le arch w e).trans_lt hcalls) with ⟨h, hdisjoint⟩
    rcases h.next arch hdisjoint hcalls hnext with ⟨h', hiff⟩
    exact ⟨h', hiff.mpr hno⟩

end Steps

/-- As long as no fork makes a child, ids are distinct, threads belong to the process whose
pid they carry and kernel stacks are disjoint. The first fork that makes a child breaks
this, and only by its stack. -/
theorem process_table_if_no_fork {w : World Ctx}
    (hreach : Lts.Reachable ((system arch).restrict NoFork) w) (hcalls : w.calls < 2 ^ 32 - 1) :
    Ids w.table ∧ StacksDisjoint w.table ∧
    ∀ e w', (system arch).Next e w w' → w'.calls < 2 ^ 32 - 1 →
      Ids w'.table ∧ (StacksDisjoint w'.table ↔ NoFork e w) := by
  rcases holds_reachable arch hreach hcalls with ⟨h, hdisjoint⟩
  refine ⟨h.ids, hdisjoint, ?_⟩
  intro e w' hnext hcalls'
  rw [hnext.1] at hcalls'
  rcases h.next arch hdisjoint hcalls' hnext with ⟨h', hiff⟩
  exact ⟨h'.ids, hiff⟩

/-- The first process, on a stack at 16 MiB. -/
def oneCreated : World ContextArm64 :=
  World.next arm64 ⟨procInit arm64.toArch, 0⟩ (.create 0x40080000 0 0x1000000)

theorem oneCreated_next :
    (system arm64).Next (.create 0x40080000 0 0x1000000) ⟨procInit arm64.toArch, 0⟩ oneCreated := by
  refine ⟨rfl, ?_⟩
  intro entry arg stack heq _
  cases heq
  exact ⟨by decide, fun p hp => nomatch hp⟩

theorem oneCreated_holds : Holds oneCreated := by
  have halloc : Allocated (procInit arm64.toArch) 0x1000000 := ⟨by decide, fun p hp => nomatch hp⟩
  exact ((holds_init arm64).create arm64 (by decide) fun _ => halloc).1

theorem process_table_of_one :
    oneCreated.calls < 2 ^ 32 - 1 ∧ Ids oneCreated.table ∧ StacksDisjoint oneCreated.table := by
  have hno : NoFork (.create 0x40080000 0 0x1000000) (⟨procInit arm64.toArch, 0⟩ : World ContextArm64) :=
    fun heq => nomatch heq
  have hreach : Lts.Reachable ((system arm64).restrict NoFork) oneCreated :=
    (Lts.Reachable.init rfl).step ⟨hno, oneCreated_next⟩
  have hcalls : oneCreated.calls < 2 ^ 32 - 1 := by decide
  rcases process_table_if_no_fork arm64 hreach hcalls with ⟨hids, hdisjoint, -⟩
  exact ⟨hcalls, hids, hdisjoint⟩

/-- The first process runs. -/
def oneCurrent : World ContextArm64 := oneCreated.next arm64 (.setCurrent (some (0, 0)))

/-- The first process forks: parent and child are on one stack. -/
theorem fork_shares_kernel_stack :
    ∃ w, Lts.Reachable (system arm64) w ∧ w.calls = 2 ∧ ¬ StacksDisjoint w.table := by
  have hone : Lts.Reachable (system arm64) oneCreated :=
    (Lts.Reachable.init rfl).step oneCreated_next
  have hcurrent : Lts.Reachable (system arm64) oneCurrent :=
    hone.step ⟨rfl, fun _ _ _ heq => nomatch heq⟩
  have hfork : Lts.Reachable (system arm64) (oneCurrent.next arm64 .fork) :=
    hcurrent.step ⟨rfl, fun _ _ _ heq => nomatch heq⟩
  have hholds : Holds oneCurrent := oneCreated_holds.setCurrent arm64 _
  have hcalls : oneCurrent.calls + 1 < 2 ^ 32 - 1 := by decide
  have hgo : ¬ (procGetCurrent oneCurrent.table = none ∨ oneCurrent.table.freeSlot = none) := by
    decide +kernel
  exact ⟨_, hfork, rfl, hholds.fork_shares arm64 hcalls hgo⟩

end OmniOS.Process
