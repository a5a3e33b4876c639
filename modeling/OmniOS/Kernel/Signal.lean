import OmniOS.Kernel.Process
import OmniOS.Kernel.Sched
import OmniOS.Lib.Mask

/-!
# OmniOS.Kernel.Signal — the signals of `kernel/proc/signal.c`

Each process has two masks, of pending and of blocked signals, and a table of
handlers. `signal_check` goes through the signals of one process in order, clears
those it takes up, and stops at the first one that is handled by a function of the
process or that ends it.

The process table is that of `OmniOS.Kernel.Process`; the fields of `process_t` that
signals need besides are kept next to it. A process pointer is an index, `none` is
NULL. `proc_exit` never returns, so a check that calls it has no result.
-/

namespace OmniOS.Signals

open Process Sched

def SIG_MAX : Nat := 32
def SIG_KILL : Nat := 9
def SIG_TERM : Nat := 15
def SIG_CHLD : Int32 := 17

/-- A signal number, as an index of `handlers`. -/
abbrev Sig := Fin SIG_MAX

/-- `signal_info_t`; handlers are addresses, 0 for `SIG_DFL` and 1 for `SIG_IGN`. -/
structure SignalInfo where
  pending : UInt64
  blocked : UInt64
  handlers : Sig → UInt64

/-- Fields of `process_t`. -/
structure Control where
  state : ProcState
  exitCode : Int32
  signals : SignalInfo

abbrev ProcPtr := Fin MAX_PROCESSES

structure World (Ctx : Type) where
  table : Table Ctx
  control : ProcPtr → Control

variable {Ctx : Type}

def World.signals (w : World Ctx) (p : ProcPtr) : SignalInfo := (w.control p).signals

def World.setControl (w : World Ctx) (p : ProcPtr) (c : Control) : World Ctx :=
  { w with control := Function.update w.control p c }

def World.setSignals (w : World Ctx) (p : ProcPtr) (s : SignalInfo) : World Ctx :=
  w.setControl p { w.control p with signals := s }

/-- `1 <= sig && sig < SIG_MAX`. -/
def signalOf (sig : Int32) : Option Sig :=
  if h : 1 ≤ sig.toInt ∧ sig.toInt.toNat < SIG_MAX then some ⟨sig.toInt.toNat, h.2⟩ else none

def signalSend (w : World Ctx) (pid sig : Int32) : World Ctx :=
  match signalOf sig with
  | none => w
  | some sig =>
      match procGet w.table pid with
      | none => w
      | some p =>
          let s := w.signals p
          w.setSignals p { s with pending := Mask.insert s.pending sig }

/-- The process that is terminated, `none` if there is no current one; the call does
not return in either case. -/
def procExit (w : World Ctx) (code : Int32) : Option ProcPtr × World Ctx :=
  match procGetCurrent w.table with
  | none => (none, w)
  | some p =>
      let w := w.setControl p { w.control p with state := .terminated, exitCode := code }
      (some p, signalSend w (w.table.processes p).ppid.toInt32 SIG_CHLD)

/-- How the loop of `signal_check` ends: with no signal to report, with one that has
a handler of its own, or in `proc_exit`. -/
inductive Delivery where
  | none
  | custom (sig : Sig)
  | fatal (sig : Sig)
deriving DecidableEq

/-- `for (int sig = 1; sig < SIG_MAX; sig++)`, over the signals left. -/
def checkLoop : List Sig → SignalInfo → Delivery × SignalInfo
  | [], s => (.none, s)
  | sig :: rest, s =>
      if !Mask.has s.pending sig then checkLoop rest s
      else if Mask.has s.blocked sig then checkLoop rest s
      else
        let s := { s with pending := Mask.erase s.pending sig }
        let handler := s.handlers sig
        if handler = 1 then checkLoop rest s
        else if handler = 0 then
          if sig.val = SIG_KILL ∨ sig.val = SIG_TERM then (.fatal sig, s)
          else checkLoop rest s
        else (.custom sig, s)

/-- The signals from 1 on. -/
def sigs : List Sig := (List.finRange SIG_MAX).tail

/-- What becomes of a call of `signal_check`. -/
inductive Outcome where
  | returned (sig : Nat)
  | exited (proc : Option ProcPtr)
deriving DecidableEq

/-- The end of the loop, with the signals it left. -/
def World.deliver (w : World Ctx) (p : ProcPtr) (s : SignalInfo) : Delivery → Outcome × World Ctx
  | .none => (.returned 0, w.setSignals p s)
  | .custom sig => (.returned sig.val, w.setSignals p s)
  | .fatal sig =>
      let r := procExit (w.setSignals p s) (Int32.ofNat (128 + sig.val))
      (.exited r.1, r.2)

def signalCheck (w : World Ctx) (proc : Option ProcPtr) : Outcome × World Ctx :=
  match proc with
  | none => (.returned 0, w)
  | some p =>
      if (w.signals p).pending = 0 then (.returned 0, w)
      else
        let r := checkLoop sigs (w.signals p)
        w.deliver p r.2 r.1

/-- `if (!proc || sig < 1 || sig >= SIG_MAX) return;`, and then a change of the
process's signals. -/
def adjust (w : World Ctx) (proc : Option ProcPtr) (sig : Int32)
    (f : Sig → SignalInfo → SignalInfo) : World Ctx :=
  match proc, signalOf sig with
  | some p, some sig => w.setSignals p (f sig (w.signals p))
  | _, _ => w

def signalSetHandler (w : World Ctx) (proc : Option ProcPtr) (sig : Int32) (handler : UInt64) :
    World Ctx :=
  adjust w proc sig fun sig s => { s with handlers := Function.update s.handlers sig handler }

def signalBlock (w : World Ctx) (proc : Option ProcPtr) (sig : Int32) : World Ctx :=
  adjust w proc sig fun sig s => { s with blocked := Mask.insert s.blocked sig }

def signalUnblock (w : World Ctx) (proc : Option ProcPtr) (sig : Int32) : World Ctx :=
  adjust w proc sig fun sig s => { s with blocked := Mask.erase s.blocked sig }

/-! ## Fields -/

section Fields

variable (w : World Ctx) (p q : ProcPtr) (s : SignalInfo)

@[simp] theorem setSignals_table : (w.setSignals p s).table = w.table := rfl

@[simp] theorem setSignals_self : (w.setSignals p s).signals p = s := by
  simp [World.setSignals, World.setControl, World.signals]

theorem setSignals_control_ne {q : ProcPtr} (hq : q ≠ p) :
    (w.setSignals p s).control q = w.control q :=
  Function.update_of_ne hq _ _

theorem setSignals_signals_ne {q : ProcPtr} (hq : q ≠ p) :
    (w.setSignals p s).signals q = w.signals q :=
  congrArg Control.signals (setSignals_control_ne w p s hq)

/-- Signals do not touch the state of a process. -/
theorem setSignals_state : ((w.setSignals p s).control q).state = (w.control q).state ∧
    ((w.setSignals p s).control q).exitCode = (w.control q).exitCode := by
  by_cases hq : q = p
  · subst hq
    simp [World.setSignals, World.setControl]
  · rw [setSignals_control_ne w p s hq]
    exact ⟨rfl, rfl⟩

/-- Writing back what is there changes nothing. -/
theorem setSignals_same : w.setSignals p (w.signals p) = w := by
  unfold World.setSignals World.setControl World.signals
  rw [Function.update_eq_self]

theorem adjust_table (proc : Option ProcPtr) (sig : Int32) (f : Sig → SignalInfo → SignalInfo) :
    (adjust w proc sig f).table = w.table := by
  unfold adjust
  split
  · rfl
  · rfl

theorem signalSend_table (pid sig : Int32) : (signalSend w pid sig).table = w.table := by
  unfold signalSend
  split
  · rfl
  · split
    · rfl
    · rfl

theorem signalSend_state (pid sig : Int32) :
    ((signalSend w pid sig).control q).state = (w.control q).state ∧
    ((signalSend w pid sig).control q).exitCode = (w.control q).exitCode := by
  unfold signalSend
  split
  · exact ⟨rfl, rfl⟩
  · split
    · exact ⟨rfl, rfl⟩
    · exact setSignals_state w _ q _

end Fields

/-! ## The loop -/

/-- Pending and not blocked. -/
def SignalInfo.due (s : SignalInfo) (sig : Sig) : Bool :=
  Mask.has s.pending sig && !Mask.has s.blocked sig

/-- The process has a handler of its own. -/
def SignalInfo.custom (s : SignalInfo) (sig : Sig) : Bool :=
  s.handlers sig != 0 && s.handlers sig != 1

/-- The default action ends the process. -/
def SignalInfo.fatal (s : SignalInfo) (sig : Sig) : Bool :=
  s.handlers sig == 0 && (sig.val == SIG_KILL || sig.val == SIG_TERM)

/-- The loop goes no further than this signal. -/
def SignalInfo.stops (s : SignalInfo) (sig : Sig) : Bool :=
  s.due sig && (s.custom sig || s.fatal sig)

/-- How a loop ends that stops at this signal, or nowhere. -/
def SignalInfo.ending (s : SignalInfo) : Option Sig → Delivery
  | none => .none
  | some k => if s.handlers k = 0 then .fatal k else .custom k

theorem mem_sigs {sig : Sig} : sig ∈ sigs ↔ 1 ≤ sig.val := by
  revert sig
  decide

theorem sigs_sorted : sigs.Pairwise (· < ·) :=
  (List.pairwise_lt_finRange SIG_MAX).tail

theorem Sig.lt_64 (sig : Sig) : sig.val < 64 := Nat.lt_trans sig.isLt (by decide)

/-- What the loop over `l` does: it stops at the first signal that stops it, and
has taken up the due ones up to there. -/
structure Checked (l : List Sig) (s : SignalInfo) (d : Delivery) (s' : SignalInfo) : Prop where
  delivery : d = s.ending (l.find? s.stops)
  pending : ∀ i < 64, (Mask.has s'.pending i = true ↔ Mask.has s.pending i = true ∧
    ∀ k ∈ l, k.val = i → s.due k = true → ∃ k', l.find? s.stops = some k' ∧ k' < k)
  blocked : s'.blocked = s.blocked
  handlers : s'.handlers = s.handlers

/-- The signal is taken up. -/
def SignalInfo.take (s : SignalInfo) (sig : Sig) : SignalInfo :=
  { s with pending := Mask.erase s.pending sig }

section Loop

variable {s : SignalInfo} {sig : Sig} {rest : List Sig}

theorem due_take {k : Sig} (hk : k ≠ sig) : (s.take sig).due k = s.due k := by
  have hval : k.val ≠ sig.val := fun heq => hk (Fin.ext heq)
  simp [SignalInfo.due, SignalInfo.take, Mask.has_erase sig.lt_64 k.lt_64, hval]

/-- Taking up one signal does not change what the others do. -/
theorem stops_take {k : Sig} (hk : k ≠ sig) : (s.take sig).stops k = s.stops k := by
  unfold SignalInfo.stops
  rw [due_take hk]
  rfl

/-- The turns of the loop. -/
theorem checkLoop_cons (sig : Sig) (rest : List Sig) (s : SignalInfo) :
    checkLoop (sig :: rest) s =
      if s.due sig then
        if s.stops sig then (s.ending (some sig), s.take sig)
        else checkLoop rest (s.take sig)
      else checkLoop rest s := by
  rw [checkLoop]
  by_cases hdue : s.due sig = true
  · have hmask : Mask.has s.pending sig = true ∧ Mask.has s.blocked sig = false := by
      simpa [SignalInfo.due] using hdue
    simp only [hmask.1, hmask.2, hdue, SignalInfo.stops, SignalInfo.custom, SignalInfo.fatal]
    by_cases hignored : s.handlers sig = 1
    · simp [hignored, SignalInfo.take]
    · by_cases hdefault : s.handlers sig = 0
      · simp [hdefault, SignalInfo.take, SignalInfo.ending]
      · simp [hignored, hdefault, SignalInfo.take, SignalInfo.ending]
  · have hskip : Mask.has s.pending sig = false ∨ Mask.has s.blocked sig = true := by
      rw [SignalInfo.due, Bool.and_eq_true, not_and_or] at hdue
      simpa using hdue
    rw [if_neg hdue]
    rcases hskip with hpending | hblocked
    · simp [hpending]
    · simp [hblocked]

/-- The loop goes on over a tail that looks the same. -/
theorem Checked.skip {s₁ : SignalInfo} {d : Delivery} {s' : SignalInfo}
    (h : Checked rest s₁ d s') (hlt : ∀ k ∈ rest, sig < k) (hstop : s.stops sig = false)
    (hdue : ∀ k ∈ rest, s₁.due k = s.due k) (hstops : ∀ k ∈ rest, s₁.stops k = s.stops k)
    (hpending : ∀ i < 64, (Mask.has s₁.pending i = true ↔
      Mask.has s.pending i = true ∧ (s.due sig = true → i ≠ sig.val)))
    (hblocked : s₁.blocked = s.blocked) (hhandlers : s₁.handlers = s.handlers) :
    Checked (sig :: rest) s d s' := by
  have hfind : (sig :: rest).find? s.stops = rest.find? s₁.stops := by
    rw [List.find?_cons, hstop]
    show rest.find? s.stops = rest.find? s₁.stops
    rw [← List.head?_filter, ← List.head?_filter, List.filter_congr hstops]
  refine ⟨?_, ?_, h.blocked.trans hblocked, h.handlers.trans hhandlers⟩
  · rw [hfind, h.delivery]
    unfold SignalInfo.ending
    rw [hhandlers]
  · intro i hi
    rw [h.pending i hi, hpending i hi, hfind]
    constructor
    · rintro ⟨⟨hold, hne⟩, hrest⟩
      refine ⟨hold, ?_⟩
      intro k hk hval hk'
      rcases List.mem_cons.mp hk with rfl | hk
      · exact absurd hval.symm (hne hk')
      · rw [← hdue k hk] at hk'
        exact hrest k hk hval hk'
    · rintro ⟨hold, hall⟩
      refine ⟨⟨hold, ?_⟩, ?_⟩
      · -- a taken signal would have to come after the one the loop stops at
        rintro htaken rfl
        rcases hall sig List.mem_cons_self rfl htaken with ⟨k', hk', hbefore⟩
        exact absurd (hlt k' (List.mem_of_find?_eq_some hk')) (Fin.lt_asymm hbefore)
      · intro k hk hval hk'
        rw [hdue k hk] at hk'
        exact hall k (List.mem_cons_of_mem _ hk) hval hk'

theorem checkLoop_checked {l : List Sig} (hsorted : l.Pairwise (· < ·)) (s : SignalInfo) :
    Checked l s (checkLoop l s).1 (checkLoop l s).2 := by
  induction l generalizing s with
  | nil => exact ⟨rfl, by simp [checkLoop], rfl, rfl⟩
  | cons sig rest ih =>
      obtain ⟨hlt, hrest⟩ := List.pairwise_cons.mp hsorted
      have hne : ∀ k ∈ rest, k ≠ sig := fun k hk => Fin.ne_of_gt (hlt k hk)
      have htake : ∀ i < 64, (Mask.has (s.take sig).pending i = true ↔
          Mask.has s.pending i = true ∧ i ≠ sig.val) := by
        intro i hi
        simp [SignalInfo.take, Mask.has_erase sig.lt_64 hi]
      rw [checkLoop_cons]
      by_cases hdue : s.due sig = true
      · rw [if_pos hdue]
        by_cases hstop : s.stops sig = true
        · -- the loop ends here
          have hfind : (sig :: rest).find? s.stops = some sig := by
            rw [List.find?_cons, hstop]
          rw [if_pos hstop]
          refine ⟨by rw [hfind], ?_, rfl, rfl⟩
          intro i hi
          rw [htake i hi, hfind]
          constructor
          · rintro ⟨hold, hnot⟩
            refine ⟨hold, ?_⟩
            intro k hk hval _
            rcases List.mem_cons.mp hk with rfl | hk
            · exact absurd hval.symm hnot
            · exact ⟨sig, rfl, hlt k hk⟩
          · rintro ⟨hold, hall⟩
            refine ⟨hold, ?_⟩
            rintro rfl
            rcases hall sig List.mem_cons_self rfl hdue with ⟨k', hk', hbefore⟩
            cases hk'
            exact Fin.lt_irrefl _ hbefore
        · rw [if_neg hstop]
          refine (ih hrest (s.take sig)).skip hlt (Bool.not_eq_true _ ▸ hstop)
            (fun k hk => due_take (hne k hk)) (fun k hk => stops_take (hne k hk)) ?_ rfl rfl
          intro i hi
          rw [htake i hi]
          simp [hdue]
      · have hstop : s.stops sig = false := by simp [SignalInfo.stops, hdue]
        rw [if_neg hdue]
        refine (ih hrest s).skip hlt hstop (fun _ _ => rfl) (fun _ _ => rfl) ?_ rfl rfl
        intro i hi
        simp [hdue]

/-- Without pending signals the loop has nothing to do. -/
theorem checkLoop_zero (hzero : s.pending = 0) (l : List Sig) : checkLoop l s = (.none, s) := by
  induction l with
  | nil => rfl
  | cons sig rest ih => simp [checkLoop, hzero, ih]

end Loop

/-! ## The call -/

/-- The signal that `signal_check` ends with. -/
def SignalInfo.first (s : SignalInfo) : Option Sig := sigs.find? s.stops

theorem first_eq_none {s : SignalInfo} :
    s.first = none ↔ ∀ k : Sig, 1 ≤ k.val → s.stops k = false := by
  simp [SignalInfo.first, mem_sigs]

/-- It is the smallest that stops the loop. -/
theorem first_eq_some {s : SignalInfo} {k : Sig} :
    s.first = some k ↔ 1 ≤ k.val ∧ s.stops k = true ∧
      ∀ j : Sig, 1 ≤ j.val → s.stops j = true → k ≤ j := by
  constructor
  · intro hfirst
    refine ⟨mem_sigs.mp (List.mem_of_find?_eq_some hfirst), List.find?_some hfirst, ?_⟩
    intro j hj hstop
    rcases List.find?_eq_some_iff_append.mp hfirst with ⟨-, before, after, hsplit, hbefore⟩
    have hsorted := sigs_sorted
    rw [hsplit, List.pairwise_append, List.pairwise_cons] at hsorted
    have hmem : j ∈ sigs := mem_sigs.mpr hj
    rw [hsplit, List.mem_append, List.mem_cons] at hmem
    rcases hmem with hmem | rfl | hmem
    · have hnot := hbefore j hmem
      simp [hstop] at hnot
    · exact Fin.le_refl j
    · exact Fin.le_of_lt (hsorted.2.1.1 j hmem)
  · rintro ⟨hk, hstop, hleast⟩
    have hmem : k ∈ sigs := mem_sigs.mpr hk
    rcases List.mem_iff_append.mp hmem with ⟨before, after, hsplit⟩
    refine List.find?_eq_some_iff_append.mpr ⟨hstop, before, after, hsplit, ?_⟩
    intro j hj
    have hsorted := sigs_sorted
    rw [hsplit, List.pairwise_append] at hsorted
    have hlt : j < k := hsorted.2.2 j hj k List.mem_cons_self
    have hj' : 1 ≤ j.val := mem_sigs.mp (by rw [hsplit]; exact List.mem_append_left _ hj)
    rw [Bool.not_eq_true']
    by_contra hnot
    rw [Bool.not_eq_false] at hnot
    exact absurd (hleast j hj' hnot) (Fin.not_le.mpr hlt)

/-- What a call does, in terms of the first signal that stops it. -/
theorem signalCheck_eq (w : World Ctx) (p : ProcPtr) :
    ∃ s', Checked sigs (w.signals p) ((w.signals p).ending (w.signals p).first) s' ∧
      signalCheck w (some p) = w.deliver p s' ((w.signals p).ending (w.signals p).first) := by
  have hchecked := checkLoop_checked sigs_sorted (w.signals p)
  have hending : (checkLoop sigs (w.signals p)).1 =
      (w.signals p).ending (w.signals p).first := hchecked.delivery
  rw [hending] at hchecked
  refine ⟨_, hchecked, ?_⟩
  rw [← hending]
  by_cases hzero : (w.signals p).pending = 0
  · -- the early return does what the loop would do
    rw [checkLoop_zero hzero]
    show _ = (Outcome.returned 0, w.setSignals p (w.signals p))
    rw [setSignals_same]
    exact if_pos hzero
  · exact if_neg hzero

end OmniOS.Signals
