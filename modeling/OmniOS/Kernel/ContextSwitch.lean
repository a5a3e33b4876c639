import Mathlib.Data.Fintype.Option
import OmniOS.Kernel.Process
import OmniOS.Lib.Lts
import OmniOS.Lib.X86

/-!
# OmniOS.Kernel.ContextSwitch — `context_switch` of `kernel/proc/process.c` on x86_64

`context_switch` pushes flags and registers, stores the stack pointer in the first word
of the old context, loads it from the first word of the new one and pops what it finds
there. The two operands of the assembly are the argument registers `rdi` and `rsi`.

A thread that was switched out has its frame on its stack, and its stack pointer in the
first word of its context; it gets back everything it had. A thread that was only created
has its registers in the named fields of the context, and no frame: the first word is
`r15`, which `proc_create` clears, so the first switch into a thread pops the words at
address 0 (`switch_fresh`).
-/

namespace OmniOS.ContextSwitch

open Memory X86

/-! ## Code and context -/

def contextSwitch : List Instr :=
  [.pushfq, .pushq .r15, .pushq .r14, .pushq .r13, .pushq .r12,
    .pushq .r11, .pushq .r10, .pushq .r9, .pushq .r8,
    .pushq .rbp, .pushq .rdi, .pushq .rsi, .pushq .rdx,
    .pushq .rcx, .pushq .rbx, .pushq .rax,
    .storeRsp .rdi,
    .loadRsp .rsi,
    .popq .rax, .popq .rbx, .popq .rcx, .popq .rdx,
    .popq .rsi, .popq .rdi, .popq .rbp,
    .popq .r8, .popq .r9, .popq .r10, .popq .r11,
    .popq .r12, .popq .r13, .popq .r14, .popq .r15,
    .popfq, .ret]

def contextSwitchTo : List Instr :=
  [.loadRsp .rdi,
    .popq .rax, .popq .rbx, .popq .rcx, .popq .rdx,
    .popq .rsi, .popq .rdi, .popq .rbp,
    .popq .r8, .popq .r9, .popq .r10, .popq .r11,
    .popq .r12, .popq .r13, .popq .r14, .popq .r15,
    .popfq, .ret]

/-- `context_x86_64_t`. -/
structure Context where
  (r15 r14 r13 r12 r11 r10 r9 r8 : UInt64)
  (rbp rdi rsi rdx rcx rbx rax : UInt64)
  (rip cs rflags rsp ss : UInt64)

/-- The packed structure in memory. -/
def Context.words (c : Context) : List UInt64 :=
  [c.r15, c.r14, c.r13, c.r12, c.r11, c.r10, c.r9, c.r8,
    c.rbp, c.rdi, c.rsi, c.rdx, c.rcx, c.rbx, c.rax,
    c.rip, c.cs, c.rflags, c.rsp, c.ss]

def Context.zero : Context := ⟨0, 0, 0, 0, 0, 0, 0, 0, 0, 0, 0, 0, 0, 0, 0, 0, 0, 0, 0, 0⟩

/-- The x86_64 branch of `proc_create`. -/
def x86 : Process.Arch Context where
  zero := Context.zero
  start entry arg kernelStack :=
    { Context.zero with
      rip := entry
      cs := 0x08
      ss := 0x10
      rsp := kernelStack
      rflags := 0x202
      rdi := arg }

/-! ## Runs -/

/-- Where things are, for `n` threads and for the code that runs before the first of them
(`none`), whose context is NULL. `stackTop` is the lower end, as in `thread_t`. -/
structure Layout (n : Nat) where
  context : Option (Fin n) → UInt64
  stackTop : Option (Fin n) → UInt64
  stack : Option (Fin n) → UInt64
  entry : Fin n → UInt64
  arg : Fin n → UInt64
  context_none : context none = 0
  context_end : ∀ i, (context i).toNat + 160 ≤ 2 ^ 64
  stack_size : ∀ i : Fin n, (stackTop (some i)).toNat + 16384 = (stack (some i)).toNat
  context_context : ∀ i j, i ≠ j → (context i).toNat + 160 ≤ (context j).toNat ∨
    (context j).toNat + 160 ≤ (context i).toNat
  stack_stack : ∀ i j, i ≠ j → (stack i).toNat ≤ (stackTop j).toNat ∨
    (stack j).toNat ≤ (stackTop i).toNat
  context_stack : ∀ i j, (context i).toNat + 160 ≤ (stackTop j).toNat ∨
    (stack j).toNat ≤ (context i).toNat

/-- The processor, which thread it runs, and the registers each thread had when it was
last switched out. -/
structure World (n : Nat) where
  cpu : Cpu
  current : Option (Fin n)
  saved : Fin n → Option Regs

inductive Event (n : Nat) where
  /-- The current thread computes. -/
  | run (cpu : Cpu)
  /-- The current thread calls `context_switch`, with return address `ret`. -/
  | switch (new : Fin n) (ret : UInt64)

variable {n : Nat} (L : Layout n)

/-- The registers at the call, with the address at which the caller goes on. -/
def World.atCall (w : World n) (new : Fin n) (ret : UInt64) : Regs :=
  { w.cpu.toRegs with
    gpr := Function.update (Function.update w.cpu.gpr .rdi (L.context w.current))
      .rsi (L.context (some new))
    rip := ret }

/-- The registers each thread had when it last stopped running, if it ran: now, for the
current thread. -/
def World.stopped (w : World n) (new : Fin n) (ret : UInt64) (i : Fin n) : Option Regs :=
  if w.current = some i then some (w.atCall L new ret) else w.saved i

def World.next (w : World n) : Event n → World n
  | .run cpu => { w with cpu := cpu }
  | .switch new ret =>
      let called : Cpu := Cpu.push ⟨w.atCall L new ret, w.cpu.mem⟩ ret
      ⟨called.run contextSwitch, some new, w.stopped L new ret⟩

/-- Registers in the order they lie on the stack. -/
def popOrder : List Reg :=
  [.rax, .rbx, .rcx, .rdx, .rsi, .rdi, .rbp, .r8, .r9, .r10, .r11, .r12, .r13, .r14, .r15]

/-- What lies on the stack of a thread that was switched out. -/
def frame (r : Regs) : List UInt64 := popOrder.map r.gpr ++ [r.rflags, r.rip]

/-- Thread `i` can be switched to: it is as `proc_create` left it, or it stopped with some
registers, its frame is on its stack and its context says where. -/
def Waiting (m : Mem) (i : Fin n) : Option Regs → Prop
  | none => Words m (L.context (some i)).toNat
      (x86.start (L.entry i) (L.arg i) (L.stack (some i))).words
  | some r =>
      (word m (L.context (some i)).toNat).toNat = r.rsp.toNat - 136 ∧
      (L.stackTop (some i)).toNat + 136 ≤ r.rsp.toNat ∧ r.rsp.toNat ≤ (L.stack (some i)).toNat ∧
      Words m (r.rsp.toNat - 136) (frame r)

/-- Running code leaves the contexts and the frames of waiting threads alone. -/
def KeepsWaiting (w : World n) (cpu : Cpu) : Prop :=
  ∀ i, some i ≠ w.current →
    (∀ x, (L.context (some i)).toNat ≤ x → x < (L.context (some i)).toNat + 160 →
      cpu.mem x = w.cpu.mem x) ∧
    ∀ r, w.saved i = some r → ∀ x, r.rsp.toNat - 136 ≤ x → x < r.rsp.toNat →
      cpu.mem x = w.cpu.mem x

/-- The stack of the current thread has room for its frame. -/
def Room (w : World n) : Prop :=
  (L.stackTop w.current).toNat + 136 ≤ w.cpu.rsp.toNat ∧
    w.cpu.rsp.toNat ≤ (L.stack w.current).toNat

/-- All threads but the current one can be switched to. -/
def Ready (w : World n) : Prop :=
  ∀ i, some i ≠ w.current → Waiting L w.cpu.mem i (w.saved i)

/-- At the start any number of threads may have been switched out before. -/
def system : Lts.System (World n) (Event n) where
  Init := Ready L
  Next e w w' := w' = w.next L e ∧
    match e with
    | .run cpu => KeepsWaiting L w cpu
    | .switch _ _ => Room L w

/-- What a switch should do: a thread that never ran starts at its entry function, and any
other goes on where it was. -/
def Right (e : Event n) (w w' : World n) : Prop :=
  match e with
  | .run _ => True
  | .switch new ret =>
      match w.stopped L new ret new with
      | none => w'.cpu.rip = L.entry new ∧ w'.cpu.gpr .rdi = L.arg new ∧
          w'.cpu.rflags = 0x202 ∧ (L.stackTop (some new)).toNat ≤ w'.cpu.rsp.toNat ∧
          w'.cpu.rsp.toNat ≤ (L.stack (some new)).toNat
      | some r => w'.cpu.toRegs = r

/-- The thread that is switched to has run before. -/
def RanBefore (e : Event n) (w : World n) : Prop :=
  match e with
  | .run _ => True
  | .switch new _ => w.current = some new ∨ w.saved new ≠ none

/-! ## One switch -/

/-- The first half of `context_switch`. -/
def save : List Instr := .pushfq :: popOrder.reverse.map .pushq

/-- The second half. -/
def restore : List Instr := popOrder.map .popq ++ [.popfq, .ret]

theorem contextSwitch_eq :
    contextSwitch = save ++ .storeRsp .rdi :: .loadRsp .rsi :: restore := rfl

theorem contextSwitchTo_eq : contextSwitchTo = .loadRsp .rdi :: restore := rfl

theorem mem_popOrder (r : Reg) : r ∈ popOrder := by
  cases r <;> decide

theorem length_frame (r : Regs) : (frame r).length = 17 := rfl

/-- The call and the first half leave the frame on the stack. -/
theorem pushed_save (r : Regs) (m : Mem) (hroom : 136 ≤ r.rsp.toNat) :
    Pushed ⟨r, m⟩ ((Cpu.push ⟨r, m⟩ r.rip).run save) (frame r) := by
  have hcall : Pushed ⟨r, m⟩ (Cpu.push ⟨r, m⟩ r.rip) [r.rip] :=
    pushed_push _ (show 8 ≤ r.rsp.toNat by omega)
  rw [save, run_cons]
  generalize Cpu.push ⟨r, m⟩ r.rip = called at hcall
  have hcallRsp : called.rsp.toNat + 8 = r.rsp.toNat := hcall.rsp
  have hflags : Pushed called (called.exec .pushfq) [called.rflags] := pushed_push _ (by omega)
  have hflagsRsp := hflags.rsp
  have hgpr : (called.exec .pushfq).gpr = r.gpr := hflags.gpr.trans hcall.gpr
  have hlength : popOrder.reverse.length = 15 := rfl
  rw [hcall.rflags] at hflags
  generalize called.exec .pushfq = flagged at hflags hflagsRsp hgpr
  rw [List.length_singleton] at hflagsRsp
  have hregs := run_pushes popOrder.reverse flagged (by omega)
  rw [List.reverse_reverse, hgpr] at hregs
  exact (hcall.trans hflags).trans hregs

/-- The second half, from a frame. -/
theorem run_restore {s : Cpu} {r : Regs} (hrsp : s.rsp.toNat + 136 = r.rsp.toNat)
    (hframe : Words s.mem s.rsp.toNat (frame r)) : s.run restore = ⟨r, s.mem⟩ := by
  have hend := r.rsp.toNat_lt
  have hlength : popOrder.length = 15 := rfl
  have height : (8 : UInt64).toNat = 8 := rfl
  have hbytes : (UInt64.ofNat (8 * popOrder.length)).toNat = 120 := rfl
  have hsplit := words_append.mp hframe
  rw [List.length_map, hlength] at hsplit
  have hgpr := run_pops r.gpr popOrder s (by omega) hsplit.1
  have hmoved := run_pops_rsp popOrder s
  rw [restore, run_append, run_cons, run_cons, run_nil]
  generalize s.run (popOrder.map .popq) = t at hgpr hmoved
  rcases hgpr with ⟨hgpr, -, hmem⟩
  have hall : t.gpr = r.gpr := hgpr.trans (funext fun q => if_pos (mem_popOrder q))
  have hflagsAt : t.rsp.toNat = s.rsp.toNat + 8 * 15 := by
    rw [hmoved, UInt64.toNat_add, hbytes]
    omega
  have hripAt : (t.rsp + 8).toNat = s.rsp.toNat + 8 * 15 + 8 := by
    rw [UInt64.toNat_add, height]
    omega
  have hlast : t.rsp + 8 + 8 = r.rsp := by
    apply UInt64.toNat_inj.mp
    rw [UInt64.toNat_add, height]
    omega
  have hflags : word s.mem t.rsp.toNat = r.rflags := by
    rw [hflagsAt]
    exact hsplit.2.1
  have hrip : word s.mem (t.rsp + 8).toNat = r.rip := by
    rw [hripAt]
    exact hsplit.2.2.1
  simp only [Cpu.exec, Cpu.top, hall, hflags, hrip, hlast, hmem]

/-- Whatever it finds, the second half moves the stack pointer by 136 bytes. -/
theorem run_restore_rsp (s : Cpu) : (s.run restore).rsp = s.rsp + 136 := by
  rw [restore, run_append]
  show (s.run (popOrder.map .popq)).rsp + 8 + 8 = _
  rw [run_pops_rsp, UInt64.add_assoc, UInt64.add_assoc]
  rfl

section Switch

variable {L} {w : World n}

/-- The memory after a switch: the frame is on the stack of the current thread, its
address is in the first word of its context, and nothing else has changed. -/
structure Switched (L : Layout n) (w : World n) (r : Regs) (m : Mem) : Prop where
  frame : Words m (r.rsp.toNat - 136) (frame r)
  context : (word m (L.context w.current).toNat).toNat = r.rsp.toNat - 136
  rest : ∀ x, (x < r.rsp.toNat - 136 ∨ r.rsp.toNat ≤ x) →
    (x < (L.context w.current).toNat ∨ (L.context w.current).toNat + 8 ≤ x) → m x = w.cpu.mem x

/-- A switch saves the current thread, and goes on with what the first word of the new
context points to. -/
theorem switch_eq (hroom : Room L w) (new : Fin n) (ret : UInt64) :
    ∃ s : Cpu, Switched L w (w.atCall L new ret) s.mem ∧
      s.rsp = word s.mem (L.context (some new)).toNat ∧
      (w.next L (.switch new ret)).cpu = s.run restore := by
  have hnext : (w.next L (.switch new ret)).cpu =
    (Cpu.push ⟨w.atCall L new ret, w.cpu.mem⟩ (w.atCall L new ret).rip).run contextSwitch := rfl
  have hdi : (w.atCall L new ret).gpr .rdi = L.context w.current := rfl
  have hsi : (w.atCall L new ret).gpr .rsi = L.context (some new) := rfl
  have hroom : (L.stackTop w.current).toNat + 136 ≤ (w.atCall L new ret).rsp.toNat ∧
    (w.atCall L new ret).rsp.toNat ≤ (L.stack w.current).toNat := hroom
  generalize w.atCall L new ret = r at hnext hdi hsi hroom
  have hsave := pushed_save r w.cpu.mem (by omega)
  rw [contextSwitch_eq, run_append, run_cons, run_cons] at hnext
  generalize (Cpu.push ⟨r, w.cpu.mem⟩ r.rip).run save = s at hnext hsave
  have hold : s.gpr .rdi = L.context w.current := (congrFun hsave.gpr _).trans hdi
  have hnew : s.gpr .rsi = L.context (some new) := (congrFun hsave.gpr _).trans hsi
  have hmoved := hsave.rsp
  have hrsp : s.rsp.toNat = r.rsp.toNat - 136 := by
    rw [length_frame] at hmoved
    exact Nat.eq_sub_of_add_eq hmoved
  refine ⟨(s.exec (.storeRsp .rdi)).exec (.loadRsp .rsi), ⟨?_, ?_, ?_⟩, ?_, hnext⟩
  · -- the context is not on the stack
    have hctx := L.context_stack w.current w.current
    rw [← hrsp]
    refine hsave.words.congr fun x hx hx' => store_apply_of_notMem _ ?_
    rw [length_frame] at hx'
    rw [hold]
    omega
  · show (word (store s.mem 8 (s.gpr .rdi).toNat s.rsp.toNat) _).toNat = _
    rw [hold, word_store_self, hrsp]
  · intro x hx hx'
    show store s.mem 8 (s.gpr .rdi).toNat s.rsp.toNat x = _
    rw [hold, store_apply_of_notMem _ hx']
    exact hsave.frame x (hrsp ▸ hx)
  · show word _ (s.gpr .rsi).toNat = _
    rw [hnew]
    rfl

/-- A thread waits as long as its context and its frame are left alone. -/
theorem Waiting.congr {m m' : Mem} {i : Fin n} {saved : Option Regs} (h : Waiting L m i saved)
    (hctx : ∀ x, (L.context (some i)).toNat ≤ x → x < (L.context (some i)).toNat + 160 →
      m' x = m x)
    (hframe : ∀ r, saved = some r → ∀ x, r.rsp.toNat - 136 ≤ x → x < r.rsp.toNat →
      m' x = m x) : Waiting L m' i saved := by
  cases saved with
  | none => exact Words.congr h hctx
  | some r =>
      rcases h with ⟨hword, hlow, hhigh, hwords⟩
      refine ⟨?_, hlow, hhigh, hwords.congr ?_⟩
      · rw [← hword, word_congr fun x hx hx' => hctx x hx (by omega)]
      · intro x hx hx'
        rw [length_frame] at hx'
        exact hframe r rfl x hx (by omega)

/-- When the current thread has been saved, every thread can be switched to. -/
theorem Switched.waiting {new : Fin n} {ret : UInt64} {m : Mem}
    (h : Switched L w (w.atCall L new ret) m) (hroom : Room L w) (hready : Ready L w)
    (i : Fin n) : Waiting L m i (w.stopped L new ret i) := by
  have hrsp : (w.atCall L new ret).rsp = w.cpu.rsp := rfl
  by_cases hcurrent : w.current = some i
  · rw [World.stopped, if_pos hcurrent]
    have hcontext := h.context
    unfold Room at hroom
    rw [hcurrent] at hcontext hroom
    exact ⟨hcontext, hroom.1, hroom.2, h.frame⟩
  · rw [World.stopped, if_neg hcurrent]
    have hne : some i ≠ w.current := fun heq => hcurrent heq.symm
    have hwait := hready i hne
    -- what was written is on the current thread's stack or in its context
    have hctxs := L.context_context (some i) w.current hne
    have hstack := L.context_stack (some i) w.current
    refine hwait.congr ?_ ?_
    · intro x hx hx'
      refine h.rest x ?_ ?_
      · rw [hrsp]
        have hlow := hroom.1
        have hhigh := hroom.2
        omega
      · omega
    · intro r hr x hx hx'
      rw [hr] at hwait
      rcases hwait with ⟨-, hlow, hhigh, -⟩
      have hstacks := L.stack_stack (some i) w.current hne
      have hother := L.context_stack w.current (some i)
      have hlow' := hroom.1
      have hhigh' := hroom.2
      refine h.rest x ?_ ?_
      · rw [hrsp]
        omega
      · omega

/-- A thread that stopped with registers `r` goes on with them. -/
theorem Waiting.resume {s : Cpu} {i : Fin n} {r : Regs} (hwait : Waiting L s.mem i (some r))
    (hrsp : s.rsp = word s.mem (L.context (some i)).toNat) : s.run restore = ⟨r, s.mem⟩ := by
  rcases hwait with ⟨hword, hlow, -, hframe⟩
  have hfound : s.rsp.toNat = r.rsp.toNat - 136 := by
    rw [hrsp]
    exact hword
  exact run_restore (by omega) (hfound ▸ hframe)

/-- `context_switch_to` resumes a thread in the same way. -/
theorem contextSwitchTo_resumes {s : Cpu} {i : Fin n} {r : Regs}
    (hwait : Waiting L s.mem i (some r)) (hdi : s.gpr .rdi = L.context (some i)) :
    s.run contextSwitchTo = ⟨r, s.mem⟩ := by
  let loaded : Cpu := ⟨{ s.toRegs with rsp := word s.mem (L.context (some i)).toNat }, s.mem⟩
  have hload : s.exec (.loadRsp .rdi) = loaded := by
    rw [Cpu.exec, hdi]
  rw [contextSwitchTo_eq, run_cons, hload]
  exact Waiting.resume (s := loaded) hwait rfl

/-- The first switch into a thread: its context starts with a 0, so the words at address 0
are popped. -/
theorem switch_fresh {s : Cpu} {i : Fin n} (hwait : Waiting L s.mem i none)
    (hrsp : s.rsp = word s.mem (L.context (some i)).toNat) : (s.run restore).rsp.toNat = 136 := by
  have hzero : s.rsp = 0 := hrsp.trans hwait.1
  rw [run_restore_rsp, hzero]
  rfl

/-- NULL is not on a stack. -/
theorem Layout.stackTop_ge (L : Layout n) (i : Fin n) : 160 ≤ (L.stackTop (some i)).toNat := by
  have hnull := L.context_stack none (some i)
  have hsize := L.stack_size i
  have hzero : (L.context none).toNat = 0 := by
    rw [L.context_none]
    rfl
  omega

/-- A switch is right exactly if the new thread has run before, and then all other threads
can be switched to. -/
theorem Ready.switch (hready : Ready L w) (hroom : Room L w) (new : Fin n) (ret : UInt64) :
    (Right L (.switch new ret) w (w.next L (.switch new ret)) ↔
      RanBefore (.switch new ret) w) ∧
    (RanBefore (.switch new ret) w → Ready L (w.next L (.switch new ret))) := by
  rcases switch_eq hroom new ret with ⟨s, hs, hrsp, hrun⟩
  have hwait := hs.waiting hroom hready
  have hnew := hwait new
  have hran : RanBefore (.switch new ret) w ↔ w.stopped L new ret new ≠ none := by
    unfold RanBefore World.stopped
    by_cases hcurrent : w.current = some new
    · simp [hcurrent]
    · simp [hcurrent]
  rw [hran, Right]
  cases hstopped : w.stopped L new ret new with
  | none =>
      refine ⟨iff_of_false ?_ (fun hne => hne rfl), fun hne => absurd rfl hne⟩
      rw [hstopped] at hnew
      have hlow := L.stackTop_ge new
      have hmoved := switch_fresh hnew hrsp
      rintro ⟨-, -, -, hin, -⟩
      rw [hrun, hmoved] at hin
      omega
  | some r =>
      rw [hstopped] at hnew
      have hresume := hnew.resume hrsp
      constructor
      · refine iff_of_true ?_ (Option.some_ne_none r)
        show (w.next L (.switch new ret)).cpu.toRegs = r
        rw [hrun, hresume]
      · intro _ i _
        show Waiting L (w.next L (.switch new ret)).cpu.mem i _
        rw [hrun, hresume]
        exact hwait i

end Switch

/-! ## Runs of switches -/

section Run

variable {L} {w w' : World n} {e : Event n}

theorem Ready.run (hready : Ready L w) {cpu : Cpu} (hkeeps : KeepsWaiting L w cpu) :
    Ready L (w.next L (.run cpu)) := by
  intro i hi
  rcases hkeeps i hi with ⟨hctx, hframe⟩
  exact (hready i hi).congr hctx hframe

theorem Ready.next (hready : Ready L w) (hnext : (system L).Next e w w') :
    (Right L e w w' ↔ RanBefore e w) ∧ (RanBefore e w → Ready L w') := by
  rcases hnext with ⟨rfl, hguard⟩
  cases e with
  | run cpu => exact ⟨Iff.rfl, fun _ => hready.run hguard⟩
  | switch new ret => exact hready.switch hguard new ret

theorem ready_reachable (hreach : Lts.Reachable ((system L).restrict RanBefore) w) :
    Ready L w := by
  refine hreach.invariant (I := Ready L) (fun w hinit => hinit) ?_
  rintro e w w' hready ⟨hran, hnext⟩
  exact (hready.next hnext).2 hran

end Run

/-- As long as every switch goes into a thread that has run before, it gives that thread
back its registers, flags and stack pointer. A first switch into a thread never starts it
as it should. -/
theorem switches_right_if_ran_before {w w' : World n} {e : Event n}
    (hreach : Lts.Reachable ((system L).restrict RanBefore) w) (hnext : (system L).Next e w w') :
    Right L e w w' ↔ RanBefore e w :=
  ((ready_reachable hreach).next hnext).1

/-- One thread; before it runs, the processor is on a stack at 1 MiB. -/
def oneThread : Layout 1 where
  context := fun i => if i.isSome then 0x200000 else 0
  stackTop := fun i => if i.isSome then 0x1000000 else 0x100000
  stack := fun i => if i.isSome then 0x1004000 else 0x104000
  entry _ := 0x400000
  arg _ := 7
  context_none := rfl
  context_end := by decide
  stack_size := by decide
  context_context := by decide
  stack_stack := by decide
  context_stack := by decide

/-- The thread was switched out at `0x400100`. -/
def stoppedRegs : Regs := ⟨fun _ => 5, 0x246, 0x1003000, 0x400100⟩

/-- The processor before the thread runs. -/
def boot (m : Mem) : Cpu := ⟨⟨fun _ => 0, 0x202, 0x103000, 0x300000⟩, m⟩

theorem room_boot (m : Mem) (saved : Fin 1 → Option Regs) :
    Room oneThread ⟨boot m, none, saved⟩ :=
  ⟨show 0x100000 + 136 ≤ 0x103000 by decide, show 0x103000 ≤ 0x104000 by decide⟩

theorem switch_resumes_thread :
    (World.next oneThread ⟨boot (storeWords (store (fun _ => 0) 8 0x200000 0x1002f78) 0x1002f78
      (frame stoppedRegs)), none, fun _ => some stoppedRegs⟩ (.switch 0 0x300000)).cpu.toRegs =
        stoppedRegs := by
  let w : World 1 := ⟨boot (storeWords (store (fun _ => 0) 8 0x200000 0x1002f78) 0x1002f78
    (frame stoppedRegs)), none, fun _ => some stoppedRegs⟩
  have hready : Ready oneThread w := by
    intro i _
    have hframe : stoppedRegs.rsp.toNat - 136 = 0x1002f78 := by decide
    rw [Fin.fin_one_eq_zero i]
    refine ⟨?_, ?_, ?_, ?_⟩
    · decide +kernel
    · decide
    · decide
    · rw [hframe]
      exact words_storeWords _ _ _
  have hnext : (system oneThread).Next (.switch 0 0x300000) w
      (w.next oneThread (.switch 0 0x300000)) := ⟨rfl, room_boot _ _⟩
  have hran : RanBefore (.switch 0 0x300000) w := Or.inr (Option.some_ne_none _)
  exact (switches_right_if_ran_before oneThread (Lts.Reachable.init hready) hnext).mpr hran

/-- The thread as `proc_create` leaves it. The switch pops the words at address 0 and ends
with the stack pointer at 136. -/
theorem first_switch_misses_entry :
    ∃ w w' : World 1, Lts.Reachable (system oneThread) w ∧ w.current = none ∧
      w.saved 0 = none ∧ (system oneThread).Next (.switch 0 0x300000) w w' ∧
      w'.cpu.rsp = 136 ∧ w'.cpu.rip ≠ oneThread.entry 0 ∧
      ¬ Right oneThread (.switch 0 0x300000) w w' := by
  let w : World 1 := ⟨boot (storeWords (fun _ => 0) 0x200000
    (x86.start 0x400000 7 0x1004000).words), none, fun _ => none⟩
  have hready : Ready oneThread w := by
    intro i _
    exact words_storeWords _ _ _
  have hroom : Room oneThread w := room_boot _ _
  have hwrong : ¬ RanBefore (.switch 0 0x300000) w := by
    rintro (hcurrent | hsaved)
    · cases hcurrent
    · exact hsaved rfl
  have hnext : (system oneThread).Next (.switch 0 0x300000) w
      (w.next oneThread (.switch 0 0x300000)) := ⟨rfl, hroom⟩
  have hrsp : (w.next oneThread (.switch 0 0x300000)).cpu.rsp = 136 := by decide +kernel
  have hrip : (w.next oneThread (.switch 0 0x300000)).cpu.rip ≠ oneThread.entry 0 := by
    decide +kernel
  have hright := mt (hready.switch hroom 0 0x300000).1.mp hwrong
  exact ⟨w, _, Lts.Reachable.init hready, rfl, rfl, hnext, hrsp, hrip, hright⟩

end OmniOS.ContextSwitch
