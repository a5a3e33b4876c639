import Mathlib.Data.Fintype.Card
import OmniOS.Kernel.SignalExit

/-!
# OmniOS.Kernel.ProcessLife — processes from `proc_create` to `proc_wait`

The process table under all calls of `process.c` and `signal.c` that change it. A slot is
filled by `proc_create` or `proc_fork` and never given back, so what is proved of a process
holds for the rest of the run.

1. **Slots.** Of the calls in a whole run 1024 can make a process, whatever has exited.
2. **Parents.** `proc_exit` tells the process that forked the one that ends, and nobody if
   that was made by `proc_create`.
3. **Waiting.** `proc_wait` ends when its process has been the current one in a `proc_exit`.
-/

namespace OmniOS.ProcessLife

open Lts Signals
open Process (ContextArm64 ForkArch MAX_PROCESSES MAX_THREADS Proc Table arm64 freeSlot_some
  procCreate procCreate_cases procFork procFork_cases procGet procGetCurrent procGetCurrent_used
  procSetCurrentThread)

variable {Ctx : Type} (arch : ForkArch Ctx)

/-! ## Model -/

/-- The fields after `memset` and `signal_init_process`. -/
def freshControl : Control := ⟨.ready, 0, ⟨0, 0, fun _ => 0⟩⟩

/-- The processes, with the calls of `proc_create` and `proc_fork` and those of them that
made a process. -/
structure Life (Ctx : Type) where
  world : World Ctx
  calls : Nat
  made : Nat

abbrev Life.proc (l : Life Ctx) : ProcPtr → Proc Ctx := l.world.table.processes

def procInit : Life Ctx :=
  ⟨⟨Process.procInit arch.toArch, fun _ => ⟨.created, 0, ⟨0, 0, fun _ => 0⟩⟩⟩, 0, 0⟩

/-- The slot is cleared even if there is no memory for the stack. -/
def create (l : Life Ctx) (entry arg stack : UInt64) : Life Ctx where
  world :=
    { table := (procCreate arch.toArch l.world.table entry arg stack).2
      control :=
        match l.world.table.freeSlot with
        | none => l.world.control
        | some i => Function.update l.world.control i freshControl }
  calls := l.calls + 1
  made := if l.world.table.freeSlot.isSome ∧ stack ≠ 0 then l.made + 1 else l.made

/-- The child has the signals of the parent, also the pending ones. -/
def fork (l : Life Ctx) : Life Ctx where
  world :=
    { table := (procFork arch l.world.table).2
      control :=
        match procGetCurrent l.world.table, l.world.table.freeSlot with
        | some p, some i =>
            Function.update l.world.control i { l.world.control p with state := .ready }
        | _, _ => l.world.control }
  calls := l.calls + 1
  made :=
    if (procGetCurrent l.world.table).isSome ∧ l.world.table.freeSlot.isSome then l.made + 1
    else l.made

def setCurrent (l : Life Ctx) (p : Option (Fin MAX_PROCESSES × Fin MAX_THREADS)) : Life Ctx :=
  { l with world := { l.world with table := procSetCurrentThread l.world.table p } }

inductive Event where
  | create (entry arg stack : UInt64)
  | fork
  | setCurrent (p : Option (Fin MAX_PROCESSES × Fin MAX_THREADS))
  | signal (e : Signals.Event)
  | exit (code : Int32)
  /-- A `signal_check` that calls `proc_exit`. -/
  | checkExit (proc : ProcPtr)

def Next : Event → Life Ctx → Life Ctx → Prop
  | .create entry arg stack, l, l' => l' = create arch l entry arg stack
  | .fork, l, l' => l' = fork arch l
  | .setCurrent p, l, l' => l' = setCurrent l p
  | .signal e, l, l' => ∃ w, Signals.Next e l.world w ∧ l' = { l with world := w }
  | .exit code, l, l' => l' = { l with world := (procExit l.world code).2 }
  | .checkExit proc, l, l' => ∃ ended w, signalCheck l.world (some proc) = (.exited ended, w) ∧
      l' = { l with world := w }

def system : System (Life Ctx) Event := ⟨fun l => l = procInit arch, Next arch⟩

/-- The loop of `proc_wait` on the process it found: 0 once that is terminated. -/
def waitLoop (w : World Ctx) (p : ProcPtr) : Option Int32 :=
  if (w.control p).state = .terminated then some 0 else none

/-- What `proc_wait` returns, if it does. -/
def procWait (w : World Ctx) (pid : Int32) : Option Int32 :=
  match procGet w.table pid with
  | none => some (-1)
  | some p => waitLoop w p

/-- The process that is terminated by an event. -/
def ends (l : Life Ctx) : Event → Option ProcPtr
  | .exit _ => procGetCurrent l.world.table
  | .checkExit _ => procGetCurrent l.world.table
  | _ => none

/-! ## Steps -/

section Steps

variable {arch} {l l' : Life Ctx} {e : Event}

/-- One process more, in a free slot. -/
structure Adds (l l' : Life Ctx) (i : ProcPtr) (proc : Proc Ctx) : Prop where
  slot : l.world.table.freeSlot = some i
  table : l'.world.table = l.world.table.add i proc
  pid : proc.pid = l.world.table.nextPid
  parent : proc.used = true → proc.ppid = 0 ∨
    ∃ p, (l.proc p).used = true ∧ proc.ppid = (l.proc p).pid
  made : l'.made = if proc.used then l.made + 1 else l.made
  calls : l'.calls = l.calls + 1
  control : ∀ q ≠ i, l'.world.control q = l.world.control q

/-- The processes and the counts are as before, but that `ended` is terminated. -/
structure Keeps (l l' : Life Ctx) (ended : Option ProcPtr) : Prop where
  processes : l'.proc = l.proc
  nextPid : l'.world.table.nextPid = l.world.table.nextPid
  made : l'.made = l.made
  calls : l.calls ≤ l'.calls
  states : ∀ q, (l'.world.control q).state =
    if ended = some q then .terminated else (l.world.control q).state

theorem procCreate_ppid {t : Table Ctx} {i : ProcPtr} (hslot : t.freeSlot = some i)
    (entry arg stack : UInt64) :
    ((procCreate arch.toArch t entry arg stack).2.processes i).ppid = 0 := by
  unfold procCreate
  rw [hslot]
  by_cases hstack : stack = 0
  · simp [hstack, Proc.zero]
  · simp [hstack, Proc.zero]

theorem procFork_ppid {t : Table Ctx} {p i : ProcPtr} (hcurrent : procGetCurrent t = some p)
    (hslot : t.freeSlot = some i) :
    ((procFork arch t).2.processes i).ppid = (t.processes p).pid := by
  unfold procFork
  rw [hcurrent, hslot]
  simp

theorem add_self (t : Table Ctx) (i : ProcPtr) (proc : Proc Ctx) :
    (t.add i proc).processes i = proc := by
  simp [Table.add]

/-- `proc_create` changes nothing or fills a slot. -/
theorem create_cases (l : Life Ctx) (entry arg stack : UInt64) :
    Keeps l (create arch l entry arg stack) none ∨
    ∃ i proc, Adds l (create arch l entry arg stack) i proc := by
  rcases procCreate_cases arch.toArch l.world.table entry arg stack with
    ⟨hfull, heq⟩ | ⟨i, ret, proc, hslot, heq, hfresh, hused, -⟩
  · have htable : (create arch l entry arg stack).world.table = l.world.table := by
      simp only [create, heq]
    refine Or.inl ⟨congrArg Table.processes htable, by rw [htable], ?_, Nat.le_succ _, ?_⟩
    · simp [create, hfull]
    · simp [create, hfull]
  · have hppid : ((procCreate arch.toArch l.world.table entry arg stack).2.processes i).ppid = 0 :=
      procCreate_ppid hslot entry arg stack
    rw [heq, add_self] at hppid
    refine Or.inr ⟨i, proc, hslot, ?_, hfresh.pid, fun _ => Or.inl hppid, ?_, rfl, ?_⟩
    · simp only [create, heq]
    · simp [create, hslot, hused]
    · intro q hq
      simp [create, hslot, Function.update_of_ne hq]

theorem fork_cases (l : Life Ctx) :
    Keeps l (fork arch l) none ∨ ∃ i proc, Adds l (fork arch l) i proc := by
  rcases procFork_cases arch l.world.table with
    ⟨hfail, heq⟩ | ⟨p, i, ret, proc, hcurrent, hslot, heq, hused, hpid, -⟩
  · have htable : (fork arch l).world.table = l.world.table := by simp only [fork, heq]
    refine Or.inl ⟨congrArg Table.processes htable, by rw [htable], ?_, Nat.le_succ _, ?_⟩
    · rcases hfail with hnone | hnone <;> simp [fork, hnone]
    · rcases hfail with hnone | hnone <;> simp [fork, hnone]
  · have hppid : ((procFork arch l.world.table).2.processes i).ppid = (l.proc p).pid :=
      procFork_ppid hcurrent hslot
    rw [heq, add_self] at hppid
    refine Or.inr ⟨i, proc, hslot, ?_, hpid, ?_, ?_, rfl, ?_⟩
    · simp only [fork, heq]
    · exact fun _ => Or.inr ⟨p, procGetCurrent_used hcurrent, hppid⟩
    · simp [fork, hcurrent, hslot, hused]
    · intro q hq
      simp [fork, hcurrent, hslot, Function.update_of_ne hq]

theorem procExit_keeps (w : World Ctx) (code : Int32) :
    (procExit w code).2.table = w.table ∧ ∀ q, ((procExit w code).2.control q).state =
      if procGetCurrent w.table = some q then .terminated else (w.control q).state := by
  cases hcurrent : procGetCurrent w.table with
  | none =>
      rw [procExit_none hcurrent]
      exact ⟨rfl, fun q => (if_neg (Option.some_ne_none q).symm).symm⟩
  | some p =>
      obtain ⟨-, hstate, -, -, hothers⟩ := procExit_current hcurrent code
      refine ⟨?_, fun q => ?_⟩
      · simp only [procExit, hcurrent, signalSend_table, World.setControl]
      · by_cases hq : p = q
        · rw [if_pos (congrArg some hq), ← hq, hstate]
        · rw [if_neg fun heq => hq (Option.some.inj heq)]
          exact (hothers q (Ne.symm hq)).1

/-- The calls of `signal.c` that return leave the states alone. -/
theorem signal_states {w w' : World Ctx} {e : Signals.Event} (hnext : Signals.Next e w w')
    (q : ProcPtr) : (w'.control q).state = (w.control q).state := by
  have hadjust (proc : Option ProcPtr) (sig : Int32) (f : Sig → SignalInfo → SignalInfo) :
      ((adjust w proc sig f).control q).state = (w.control q).state := by
    unfold adjust
    split
    · exact (setSignals_state w _ q _).1
    · rfl
  cases e with
  | send pid sig =>
      cases hnext
      exact (signalSend_state w q pid sig).1
  | setHandler proc sig handler =>
      cases hnext
      exact hadjust proc sig _
  | block proc sig =>
      cases hnext
      exact hadjust proc sig _
  | unblock proc sig =>
      cases hnext
      exact hadjust proc sig _
  | check proc r =>
      cases proc with
      | none =>
          cases hnext
          rfl
      | some p =>
          obtain ⟨s', rfl, -⟩ := signalCheck_returned hnext
          exact (setSignals_state w p q s').1

/-- What an event can do: fill a free slot, or end the current process. -/
theorem next_cases (hnext : Next arch e l l') :
    (ends l e = none ∧ ∃ i proc, Adds l l' i proc) ∨ Keeps l l' (ends l e) := by
  cases e with
  | create entry arg stack =>
      obtain rfl : l' = create arch l entry arg stack := hnext
      rcases create_cases l entry arg stack with hkeeps | hadds
      · exact Or.inr hkeeps
      · exact Or.inl ⟨rfl, hadds⟩
  | fork =>
      obtain rfl : l' = fork arch l := hnext
      rcases fork_cases l with hkeeps | hadds
      · exact Or.inr hkeeps
      · exact Or.inl ⟨rfl, hadds⟩
  | setCurrent p =>
      cases hnext
      exact Or.inr ⟨rfl, rfl, rfl, Nat.le_refl _, fun _ => rfl⟩
  | signal e =>
      obtain ⟨w, hsignal, rfl⟩ := hnext
      have htable : w.table = l.world.table := next_table hsignal
      exact Or.inr ⟨congrArg Table.processes htable, congrArg _ htable, rfl, Nat.le_refl _,
        signal_states hsignal⟩
  | exit code =>
      cases hnext
      obtain ⟨htable, hstates⟩ := procExit_keeps l.world code
      exact Or.inr ⟨congrArg Table.processes htable, congrArg _ htable, rfl, Nat.le_refl _, hstates⟩
  | checkExit proc =>
      obtain ⟨ended, w, hcheck, rfl⟩ := hnext
      obtain ⟨k, s', -, -, hexit⟩ := signalCheck_exited hcheck
      obtain ⟨htable, hstates⟩ := procExit_keeps (l.world.setSignals proc s')
        (Int32.ofNat (128 + k.val))
      rw [hexit] at htable hstates
      refine Or.inr ⟨congrArg Table.processes htable, congrArg _ htable, rfl, Nat.le_refl _, ?_⟩
      intro q
      rw [hstates q, (setSignals_state l.world proc q s').1]
      rfl

end Steps

/-! ## Slots -/

/-- Pids are distinct, below the counter and not 0. A process has no parent, or one that is
in the table; `made` counts the slots in use. -/
structure Family (l : Life Ctx) : Prop where
  next : 0 < l.world.table.nextPid.toNat ∧ l.world.table.nextPid.toNat ≤ l.calls + 1
  pid : ∀ i, (l.proc i).used = true →
    0 < (l.proc i).pid.toNat ∧
      (l.proc i).pid.toNat < l.world.table.nextPid.toNat
  distinct : ∀ i j, (l.proc i).used = true →
    (l.proc j).used = true →
    (l.proc i).pid = (l.proc j).pid → i = j
  parent : ∀ i, (l.proc i).used = true →
    (l.proc i).ppid = 0 ∨ ∃ p, (l.proc p).used = true ∧
      (l.proc i).ppid = (l.proc p).pid
  made : l.made = (Finset.univ.filter fun i => (l.proc i).used = true).card

section Runs

variable {arch} {l l' : Life Ctx} {e : Event}

theorem Family.keeps (h : Family l) {ended : Option ProcPtr} (hkeeps : Keeps l l' ended) :
    Family l' := by
  have hcalls := hkeeps.calls
  have hnext := h.next
  constructor
  · rw [hkeeps.nextPid]
    omega
  · rw [hkeeps.processes, hkeeps.nextPid]
    exact h.pid
  · rw [hkeeps.processes]
    exact h.distinct
  · rw [hkeeps.processes]
    exact h.parent
  · rw [hkeeps.processes, hkeeps.made]
    exact h.made

theorem processes_of_ne {i j : ProcPtr} {proc : Proc Ctx} (hadds : Adds l l' i proc)
    (hj : j ≠ i) : l'.proc j = l.proc j := by
  rw [Life.proc, hadds.table]
  exact Function.update_of_ne hj _ _

theorem processes_self {i : ProcPtr} {proc : Proc Ctx} (hadds : Adds l l' i proc) :
    l'.proc i = proc := by
  rw [Life.proc, hadds.table, add_self]

/-- The new slot was not in use. -/
theorem Adds.ne {i j : ProcPtr} {proc : Proc Ctx} (hadds : Adds l l' i proc)
    (hused : (l.proc j).used = true) : j ≠ i := by
  rintro rfl
  rw [freeSlot_some hadds.slot] at hused
  cases hused

/-- A process of the new table is the new one or was there before. -/
theorem used_cases {i j : ProcPtr} {proc : Proc Ctx} (hadds : Adds l l' i proc)
    (hused : (l'.proc j).used = true) :
    (j = i ∧ l'.proc j = proc ∧ proc.used = true) ∨
    (j ≠ i ∧ l'.proc j = l.proc j ∧
      (l.proc j).used = true) := by
  by_cases hj : j = i
  · subst hj
    rw [processes_self hadds] at hused
    exact Or.inl ⟨rfl, processes_self hadds, hused⟩
  · rw [processes_of_ne hadds hj] at hused
    exact Or.inr ⟨hj, processes_of_ne hadds hj, hused⟩

/-- A process in use is there for good. -/
theorem used_next (hnext : Next arch e l l') {j : ProcPtr}
    (hused : (l.proc j).used = true) :
    l'.proc j = l.proc j := by
  rcases next_cases hnext with ⟨-, i, proc, hadds⟩ | hkeeps
  · exact processes_of_ne hadds (hadds.ne hused)
  · rw [hkeeps.processes]

theorem Family.adds (h : Family l) {i : ProcPtr} {proc : Proc Ctx} (hadds : Adds l l' i proc)
    (hcalls : l'.calls < 2 ^ 32 - 1) : Family l' := by
  have hnext := h.next
  have hfree := freeSlot_some hadds.slot
  have hone : (1 : UInt32).toNat = 1 := rfl
  -- fewer calls than pids, so the counter does not wrap
  have hsucc : l'.world.table.nextPid.toNat = l.world.table.nextPid.toNat + 1 := by
    rw [hadds.calls] at hcalls
    rw [hadds.table, Table.add, UInt32.toNat_add, hone]
    omega
  -- the pid is that of the counter, and all others are below it
  have hnew {j : ProcPtr} (hj : (l.proc j).used = true) :
      proc.pid ≠ (l.proc j).pid := by
    intro heq
    have hlt := (h.pid j hj).2
    rw [← heq, hadds.pid] at hlt
    exact Nat.lt_irrefl _ hlt
  have hkept {j : ProcPtr} (hj : (l.proc j).used = true) : l'.proc j = l.proc j :=
    processes_of_ne hadds (hadds.ne hj)
  constructor
  · rw [hsucc, hadds.calls]
    omega
  · intro j hj
    rcases used_cases hadds hj with ⟨-, heq, -⟩ | ⟨-, heq, hold⟩
    · rw [heq, hadds.pid]
      omega
    · rw [heq]
      have hlt := h.pid j hold
      omega
  · intro j k hj hk hpids
    rcases used_cases hadds hj with ⟨rfl, heq, -⟩ | ⟨-, heq, hold⟩
    · rcases used_cases hadds hk with ⟨rfl, -, -⟩ | ⟨-, heq', hold'⟩
      · rfl
      · rw [heq, heq'] at hpids
        exact absurd hpids (hnew hold')
    · rcases used_cases hadds hk with ⟨rfl, heq', -⟩ | ⟨-, heq', hold'⟩
      · rw [heq, heq'] at hpids
        exact absurd hpids.symm (hnew hold)
      · rw [heq, heq'] at hpids
        exact h.distinct j k hold hold' hpids
  · intro j hj
    have hparent : (l'.proc j).ppid = 0 ∨
        ∃ p, (l.proc p).used = true ∧
          (l'.proc j).ppid = (l.proc p).pid := by
      rcases used_cases hadds hj with ⟨-, heq, hused⟩ | ⟨-, heq, hold⟩
      · rw [heq]
        exact hadds.parent hused
      · rw [heq]
        exact h.parent j hold
    -- the parent keeps its slot
    refine hparent.imp_right ?_
    rintro ⟨p, hp, heq⟩
    exact ⟨p, by rw [hkept hp]; exact hp, by rw [hkept hp]; exact heq⟩
  · -- without memory the slot is filled and still not in use
    have hin : i ∉ Finset.univ.filter fun i => (l.proc i).used = true := by
      simp [hfree]
    have hslots : (Finset.univ.filter fun j => (l'.proc j).used = true) =
        if proc.used then
          insert i (Finset.univ.filter fun j => (l.proc j).used = true)
        else Finset.univ.filter fun j => (l.proc j).used = true := by
      ext j
      by_cases hj : j = i
      · cases hused : proc.used <;> simp [hj, processes_self hadds, hused, hfree]
      · cases proc.used <;> simp [hj, processes_of_ne hadds hj]
    rw [hadds.made, h.made, hslots]
    split
    · exact (Finset.card_insert_of_notMem hin).symm
    · rfl

theorem calls_next (hnext : Next arch e l l') : l.calls ≤ l'.calls := by
  rcases next_cases hnext with ⟨-, i, proc, hadds⟩ | hkeeps
  · exact Nat.le_of_lt (by rw [hadds.calls]; exact Nat.lt_succ_self _)
  · exact hkeeps.calls

theorem family_init : Family (procInit arch) where
  next := ⟨Nat.one_pos, Nat.le_refl 1⟩
  pid _ h := nomatch h
  distinct _ _ h := nomatch h
  parent _ h := nomatch h
  made := by
    have hnone : ∀ i, ((procInit arch).world.table.processes i).used = false := fun _ => rfl
    simp only [hnone, Bool.false_eq_true, Finset.filter_false, Finset.card_empty]
    rfl

theorem family_reachable (hreach : Reachable (system arch) l) (hcalls : l.calls < 2 ^ 32 - 1) :
    Family l := by
  refine hreach.invariant (I := fun l => l.calls < 2 ^ 32 - 1 → Family l) ?_ ?_ hcalls
  · rintro l rfl _
    exact family_init
  · intro e l l' ih hnext hcalls
    have hfamily := ih (Nat.lt_of_le_of_lt (calls_next hnext) hcalls)
    rcases next_cases hnext with ⟨-, i, proc, hadds⟩ | hkeeps
    · exact hfamily.adds hadds hcalls
    · exact hfamily.keeps hkeeps

theorem toInt32_injective : Function.Injective UInt32.toInt32 := by
  intro a b h
  exact congrArg Int32.toUInt32 h

theorem toInt32_max : (0xFFFFFFFF : UInt32).toInt32 = -1 := by decide

theorem freeSlot_isSome_iff (h : Family l) :
    l.world.table.freeSlot.isSome = true ↔ l.made < MAX_PROCESSES := by
  have hall := Finset.card_filter_eq_iff (s := Finset.univ)
    (p := fun i => (l.proc i).used = true)
  have hle := Finset.card_filter_le Finset.univ
    fun i => (l.proc i).used = true
  rw [Finset.card_univ, Fintype.card_fin] at hall hle
  have hmade := h.made
  have hfree : l.world.table.freeSlot.isSome = true ↔
      ¬ ∀ i ∈ Finset.univ, (l.proc i).used = true := by
    simp [Table.freeSlot]
  rw [hfree, ← hall, ← hmade]
  omega

/-- In every state `proc_create` returns a pid exactly if there is memory and fewer than 1024
processes have been made so far, however many of them have ended. -/
theorem create_returns_iff (hreach : Reachable (system arch) l) (hcalls : l.calls + 1 < 2 ^ 32 - 1)
    (entry arg stack : UInt64) :
    (procCreate arch.toArch l.world.table entry arg stack).1 ≠ -1 ↔
      stack ≠ 0 ∧ l.made < MAX_PROCESSES := by
  have hfamily := family_reachable hreach (by omega)
  -- a pid of 2 ^ 32 - 1 would look like a failure
  have hpid : l.world.table.nextPid.toInt32 ≠ -1 := by
    intro heq
    have hval := congrArg UInt32.toNat (toInt32_injective (heq.trans toInt32_max.symm))
    have hnext := hfamily.next
    have hmax : (0xFFFFFFFF : UInt32).toNat = 2 ^ 32 - 1 := rfl
    omega
  rw [← freeSlot_isSome_iff hfamily]
  unfold procCreate
  cases hslot : l.world.table.freeSlot with
  | none => simp
  | some i =>
      by_cases hstack : stack = 0
      · simp [hstack]
      · simp [hstack, hpid]

theorem create_returns_first :
    (procCreate arm64.toArch (procInit arm64).world.table 0 0 0x1000).1 ≠ -1 :=
  (create_returns_iff (Reachable.init rfl) (by decide) 0 0 0x1000).mpr ⟨by decide, by decide⟩

/-! ## Parents -/

theorem procGet_some {t : Table Ctx} {pid : Int32} {p : ProcPtr} (hfound : procGet t pid = some p) :
    (t.processes p).used = true ∧ (t.processes p).pid.toInt32 = pid := by
  have hp := List.find?_some hfound
  rw [Bool.and_eq_true, beq_iff_eq] at hp
  exact hp

theorem procGet_self (h : Family l) {j : ProcPtr}
    (hused : (l.proc j).used = true) :
    procGet l.world.table (l.proc j).pid.toInt32 = some j := by
  cases hfind : procGet l.world.table (l.proc j).pid.toInt32 with
  | none =>
      have hnot := List.find?_eq_none.mp hfind j (List.mem_finRange j)
      simp [hused] at hnot
  | some k =>
      have hk := procGet_some hfind
      exact congrArg some (h.distinct k j hk.1 hused (toInt32_injective hk.2))

theorem procGet_zero (h : Family l) : procGet l.world.table 0 = none := by
  rw [procGet, List.find?_eq_none]
  intro j _ hj
  rw [Bool.and_eq_true, beq_iff_eq] at hj
  have hzero : (l.proc j).pid = 0 := toInt32_injective hj.2
  have hpos := (h.pid j hj.1).1
  rw [hzero] at hpos
  exact absurd hpos (by decide)

/-- When a process ends, `SIG_CHLD` becomes pending in its parent and no other signal of a
process does. A process made by `proc_create` has no parent, and nobody is told. -/
theorem exit_tells_parent (hreach : Reachable (system arch) l) (hcalls : l.calls < 2 ^ 32 - 1)
    {p : ProcPtr} (hcurrent : procGetCurrent l.world.table = some p) (code : Int32) :
    ((l.proc p).ppid = 0 →
      ∀ q, (procExit l.world code).2.signals q = l.world.signals q) ∧
    ((l.proc p).ppid ≠ 0 →
      ∃ j, (l.proc j).used = true ∧
        (l.proc j).pid = (l.proc p).ppid ∧
        (∀ sig, (procExit l.world code).2.Pending j sig ↔
          sig = sigChld ∨ l.world.Pending j sig) ∧
        ∀ q ≠ j, (procExit l.world code).2.signals q = l.world.signals q) := by
  have hfamily := family_reachable hreach hcalls
  have hused := procGetCurrent_used hcurrent
  obtain ⟨w₁, hw₁, htable, hsignals⟩ : ∃ w₁, (procExit l.world code).2 =
      signalSend w₁ (l.proc p).ppid.toInt32 SIG_CHLD ∧
      w₁.table = l.world.table ∧ ∀ q, w₁.signals q = l.world.signals q := by
    refine ⟨l.world.setControl p { l.world.control p with state := .terminated, exitCode := code },
      ?_, rfl, fun q => ?_⟩
    · simp only [procExit, hcurrent, World.setControl]
    · by_cases hq : q = p
      · simp [hq, World.signals, World.setControl]
      · simp [World.signals, World.setControl, Function.update_of_ne hq]
  have hchld : signalOf SIG_CHLD = some sigChld := by decide
  rw [hw₁]
  constructor
  · -- no process has the pid 0
    intro hzero q
    have hnone : procGet w₁.table 0 = none := by rw [htable, procGet_zero hfamily]
    rw [hzero, show (0 : UInt32).toInt32 = 0 from rfl, signalSend, hchld]
    simp only [hnone, hsignals]
  · intro hzero
    obtain ⟨j, hj, hpid⟩ := (hfamily.parent p hused).resolve_left hzero
    have hfound : procGet w₁.table (l.proc p).ppid.toInt32 = some j := by
      rw [htable, hpid, procGet_self hfamily hj]
    refine ⟨j, hj, hpid.symm, ?_, ?_⟩
    · intro sig
      rw [signalSend_pending, hchld, World.Pending, World.Pending, hsignals,
        and_iff_left hfound, Option.some.injEq, eq_comm]
    · intro q hq
      rw [signalSend, hchld]
      simp only [hfound]
      rw [setSignals_signals_ne _ _ _ hq, hsignals]

/-- One process, with its first thread current. -/
def created : Life ContextArm64 :=
  setCurrent (create arm64 (procInit arm64) 0 0 0x1000) (some (firstProc, 0))

theorem created_reachable : Reachable (system arm64) created := by
  have hcreate : (system arm64).Next (.create 0 0 0x1000) (procInit arm64)
      (create arm64 (procInit arm64) 0 0 0x1000) := rfl
  have hcurrent : (system arm64).Next (.setCurrent (some (firstProc, 0)))
      (create arm64 (procInit arm64) 0 0 0x1000) created := rfl
  exact ((Reachable.init rfl).step hcreate).step hcurrent

/-- Its child is current. -/
def forked : Life ContextArm64 := setCurrent (fork arm64 created) (some (secondProc, 0))

theorem exit_tells_parent_forked :
    Reachable (system arm64) forked ∧ procGetCurrent forked.world.table = some secondProc ∧
    ∃ j, (forked.proc j).used = true ∧
      (forked.proc j).pid = (forked.proc secondProc).ppid ∧
      (∀ sig, (procExit forked.world 0).2.Pending j sig ↔
        sig = sigChld ∨ forked.world.Pending j sig) ∧
      ∀ q ≠ j, (procExit forked.world 0).2.signals q = forked.world.signals q := by
  have hfork : (system arm64).Next .fork created (fork arm64 created) := rfl
  have hchild : (system arm64).Next (.setCurrent (some (secondProc, 0))) (fork arm64 created)
      forked := rfl
  have hreach := (created_reachable.step hfork).step hchild
  have hcurrent : procGetCurrent forked.world.table = some secondProc := by decide +kernel
  have hppid : (forked.proc secondProc).ppid ≠ 0 := by decide +kernel
  have hcalls : forked.calls < 2 ^ 32 - 1 := by decide +kernel
  exact ⟨hreach, hcurrent, (exit_tells_parent hreach hcalls hcurrent 0).2 hppid⟩

/-! ## Waiting -/

/-- The state of a process changes only when it ends. -/
theorem state_next (hnext : Next arch e l l') {p : ProcPtr}
    (hused : (l.proc p).used = true) :
    (l'.world.control p).state =
      if ends l e = some p then .terminated else (l.world.control p).state := by
  rcases next_cases hnext with ⟨hends, i, proc, hadds⟩ | hkeeps
  · rw [hends, hadds.control p (hadds.ne hused), if_neg (Option.some_ne_none p).symm]
  · exact hkeeps.states p

theorem procWait_found {w : World Ctx} {pid : Int32} {p : ProcPtr}
    (hfound : procGet w.table pid = some p) : procWait w pid = waitLoop w p := by
  unfold procWait
  rw [hfound]

theorem used_run {events : List Event} (hrun : Run (system arch) l events l') {p : ProcPtr}
    (hused : (l.proc p).used = true) :
    (l'.proc p).used = true :=
  hrun.invariant (I := fun k => (k.proc p).used = true)
    (fun _ _ _ hk hnext => by rw [used_next hnext hk]; exact hk) hused

/-- A call of `proc_wait` that found process `p` alive is over exactly if in the meantime
`proc_exit` was called while `p` was the current process. -/
theorem wait_over_iff {events : List Event} {pid : Int32} {p : ProcPtr}
    (hfound : procGet l.world.table pid = some p) (hwaits : procWait l.world pid = none)
    (hrun : Run (system arch) l events l') :
    waitLoop l'.world p = some 0 ↔
      ¬ Run ((system arch).restrict fun e l => ends l e ≠ some p) l events l' := by
  have hused := (procGet_some hfound).1
  have hover (k : Life Ctx) :
      waitLoop k.world p = some 0 ↔ (k.world.control p).state = .terminated := by
    unfold waitLoop
    split
    · next hstate => exact iff_of_true rfl hstate
    · next hstate => exact iff_of_false (fun h => nomatch h) hstate
  have halive : (l.world.control p).state ≠ .terminated := by
    intro hstate
    rw [procWait_found hfound, (hover l).mpr hstate] at hwaits
    cases hwaits
  rw [hover]
  constructor
  · -- without an exit of `p` its state is as it was
    intro hstate hrestricted
    have hkept := hrestricted.invariant (I := fun k =>
      (k.proc p).used = true ∧ (k.world.control p).state ≠ .terminated) ?_
      ⟨hused, halive⟩
    · exact hkept.2 hstate
    · rintro e k k' ⟨hk, hstate⟩ ⟨hends, hnext⟩
      rw [used_next hnext hk, state_next hnext hk, if_neg hends]
      exact ⟨hk, hstate⟩
  · -- and if it is not terminated in the end, no step was one
    intro hnone
    by_contra hstate
    refine hnone ?_
    clear hnone
    induction hrun with
    | nil => exact Run.nil
    | snoc hrun hnext ih =>
        rw [state_next hnext (used_run hrun hused)] at hstate
        split at hstate
        · exact absurd rfl hstate
        · next hends => exact (ih hstate).snoc ⟨hends, hnext⟩

end Runs

/-- The process has ended. -/
def ended : Life ContextArm64 := { created with world := (procExit created.world 0).2 }

theorem wait_over_created :
    Run (system arm64) created [.exit 0] ended ∧ procWait created.world 1 = none ∧
      waitLoop ended.world firstProc = some 0 ∧
      ¬ Run ((system arm64).restrict fun e k => ends k e ≠ some firstProc) created [.exit 0]
        ended := by
  have hfound : procGet created.world.table 1 = some firstProc := by decide +kernel
  have hwaits : procWait created.world 1 = none := by decide +kernel
  have hexit : (system arm64).Next (.exit 0) created ended := rfl
  have hover : waitLoop ended.world firstProc = some 0 := by decide +kernel
  exact ⟨Run.single hexit, hwaits, hover, (wait_over_iff hfound hwaits (Run.single hexit)).mp hover⟩

end OmniOS.ProcessLife
