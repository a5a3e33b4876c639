import Mathlib.Data.Finset.Card
import Mathlib.Data.Fintype.Basic
import OmniOS.Kernel.SignalRuns

/-!
# OmniOS.Kernel.SignalExit — signals that end a process

`signal_check` looks at the signals of the process it is given, and then calls
`proc_exit`, which ends the current process. `SIG_KILL` can be blocked, ignored and
handled like any other signal.
-/

namespace OmniOS.Signals

open Process Sched

variable {Ctx : Type} {w : World Ctx} {p q : ProcPtr} {sig : Sig}

/-! ## `proc_exit` -/

/-- `SIG_CHLD`, as an index. -/
def sigChld : Sig := ⟨17, by decide⟩

/-- The current process is terminated, its parent gets `SIG_CHLD`, and the others keep
their state. -/
theorem procExit_current (hcur : procGetCurrent w.table = some q) (code : Int32) :
    (procExit w code).1 = some q ∧
    ((procExit w code).2.control q).state = .terminated ∧
    ((procExit w code).2.control q).exitCode = code ∧
    (∀ q', procGet w.table (w.table.processes q).ppid.toInt32 = some q' →
      (procExit w code).2.Pending q' sigChld) ∧
    ∀ q' ≠ q, ((procExit w code).2.control q').state = (w.control q').state ∧
      ((procExit w code).2.control q').exitCode = (w.control q').exitCode := by
  unfold procExit
  rw [hcur]
  dsimp only
  generalize hw₁ : w.setControl q { w.control q with state := .terminated, exitCode := code } = w₁
  have htable : w₁.table = w.table := by rw [← hw₁]; rfl
  have hself : (w₁.control q).state = .terminated ∧ (w₁.control q).exitCode = code := by
    rw [← hw₁]
    simp [World.setControl]
  have hother : ∀ q' ≠ q, w₁.control q' = w.control q' := by
    intro q' hq'
    rw [← hw₁]
    exact Function.update_of_ne hq' _ _
  have hstate := fun q' => signalSend_state w₁ q' (w₁.table.processes q).ppid.toInt32 SIG_CHLD
  refine ⟨rfl, ?_, ?_, ?_, ?_⟩
  · rw [(hstate q).1, hself.1]
  · rw [(hstate q).2, hself.2]
  · intro q' hparent
    rw [← htable] at hparent
    exact (signalSend_pending _ _ _).mpr (Or.inl ⟨rfl, hparent⟩)
  · intro q' hq'
    rw [(hstate q').1, (hstate q').2, hother q' hq']
    exact ⟨rfl, rfl⟩

theorem procExit_none (hcur : procGetCurrent w.table = none) (code : Int32) :
    procExit w code = (none, w) := by
  unfold procExit
  rw [hcur]

/-- A check whose first signal is one that ends the process. -/
theorem signalCheck_fatal (hfirst : (w.signals p).first = some sig)
    (hdefault : (w.signals p).handlers sig = 0) :
    ∃ s', signalCheck w (some p) =
      (.exited (procExit (w.setSignals p s') (Int32.ofNat (128 + sig.val))).1,
        (procExit (w.setSignals p s') (Int32.ofNat (128 + sig.val))).2) := by
  rcases signalCheck_eq w p with ⟨s', -, heq⟩
  rw [hfirst, SignalInfo.ending, if_pos hdefault] at heq
  exact ⟨s', heq⟩

/-- A check that does not return has found such a signal. -/
theorem signalCheck_exited {proc : Option ProcPtr} {w' : World Ctx}
    (hcall : signalCheck w (some p) = (.exited proc, w')) :
    ∃ k s', (w.signals p).first = some k ∧ (w.signals p).handlers k = 0 ∧
      procExit (w.setSignals p s') (Int32.ofNat (128 + k.val)) = (proc, w') := by
  rcases signalCheck_eq w p with ⟨s', -, heq⟩
  rw [heq] at hcall
  cases hfirst : (w.signals p).first with
  | none =>
      rw [hfirst] at hcall
      cases hcall
  | some k =>
      rw [hfirst, SignalInfo.ending] at hcall
      by_cases hdefault : (w.signals p).handlers k = 0
      · rw [if_pos hdefault] at hcall
        cases hcall
        exact ⟨k, s', rfl, hdefault, rfl⟩
      · rw [if_neg hdefault] at hcall
        cases hcall

/-! ## The target -/

/-- A check of `p` has ended `p` with the default action of `sig`, told its parent, and
left the state of the others alone. -/
structure Terminates (w : World Ctx) (p : ProcPtr) (sig : Sig) (r : Outcome × World Ctx) :
    Prop where
  target : r.1 = .exited (some p)
  state : (r.2.control p).state = .terminated
  code : (r.2.control p).exitCode = Int32.ofNat (128 + sig.val)
  parent : ∀ q, procGet w.table (w.table.processes p).ppid.toInt32 = some q →
    r.2.Pending q sigChld
  others : ∀ q ≠ p, (r.2.control q).state = (w.control q).state ∧
    (r.2.control q).exitCode = (w.control q).exitCode

/-- With a due signal that ends the process by default, and no lower one that stops
`signal_check`, the check ends its argument exactly if that is the current process. It
is the current process that is ended, and any other keeps its state. -/
theorem default_action_iff (hdue : w.Due p sig) (hfatal : (w.signals p).fatal sig = true)
    (hlower : ∀ k, w.Due p k → k < sig → (w.signals p).stops k = false) :
    (Terminates w p sig (signalCheck w (some p)) ↔ procGetCurrent w.table = some p) ∧
    (∀ q, procGetCurrent w.table = some q →
      ((signalCheck w (some p)).2.control q).state = .terminated ∧
      ((signalCheck w (some p)).2.control q).exitCode = Int32.ofNat (128 + sig.val)) ∧
    ∀ q, procGetCurrent w.table ≠ some q →
      ((signalCheck w (some p)).2.control q).state = (w.control q).state ∧
      ((signalCheck w (some p)).2.control q).exitCode = (w.control q).exitCode := by
  have hfirst : (w.signals p).first = some sig := by
    refine first_eq_some.mpr ⟨hdue.1, ?_, ?_⟩
    · simp [SignalInfo.stops, hdue.2, hfatal]
    · intro k hk hstop
      by_contra hlt
      rw [Fin.not_le] at hlt
      have hkdue : w.Due p k := ⟨hk, (Bool.and_eq_true_iff.mp hstop).1⟩
      rw [hlower k hkdue hlt] at hstop
      cases hstop
  have hdefault : (w.signals p).handlers sig = 0 := by
    rw [SignalInfo.fatal, Bool.and_eq_true, beq_iff_eq] at hfatal
    exact hfatal.1
  rcases signalCheck_fatal hfirst hdefault with ⟨s', hcall⟩
  rw [hcall]
  have hkeeps := fun q => setSignals_state w p q s'
  cases hcur : procGetCurrent w.table with
  | none =>
      have hcur' : procGetCurrent (w.setSignals p s').table = none := hcur
      rw [procExit_none hcur']
      refine ⟨iff_of_false ?_ (Option.some_ne_none p).symm, ?_, fun q _ => hkeeps q⟩
      · intro hterminates
        cases hterminates.target
      · intro q hq
        exact absurd hq.symm (Option.some_ne_none q)
  | some c =>
      have hcur' : procGetCurrent (w.setSignals p s').table = some c := hcur
      rcases procExit_current hcur' (Int32.ofNat (128 + sig.val)) with
        ⟨hproc, hstate, hcode, hparent, hothers⟩
      have hframe : ∀ q ≠ c, ((procExit (w.setSignals p s') _).2.control q).state =
          (w.control q).state ∧ ((procExit (w.setSignals p s') _).2.control q).exitCode =
          (w.control q).exitCode := fun q hq =>
        ⟨(hothers q hq).1.trans (hkeeps q).1, (hothers q hq).2.trans (hkeeps q).2⟩
      refine ⟨?_, ?_, ?_⟩
      · constructor
        · intro hterminates
          have htarget := hterminates.target
          rw [hproc] at htarget
          exact Outcome.exited.inj htarget
        · intro heq
          cases heq
          exact ⟨congrArg Outcome.exited hproc, hstate, hcode, hparent, hframe⟩
      · intro q hq
        cases hq
        exact ⟨hstate, hcode⟩
      · intro q hq
        exact hframe q fun heq => hq (congrArg some heq.symm)

/-- `SIG_KILL`, as an index. -/
def sigKill : Sig := ⟨9, by decide⟩

def firstProc : ProcPtr := ⟨0, by decide⟩

def secondProc : ProcPtr := ⟨1, by decide⟩

/-- Two processes, each with `SIG_KILL` pending; `i` is the one that runs. -/
def twoProcesses (i : ProcPtr) : World Unit where
  table :=
    { processes := fun i =>
        { pid := UInt32.ofNat (i.val + 1)
          ppid := 0
          threads := fun _ => ⟨1, UInt32.ofNat (i.val + 1), (), 0, 0, true⟩
          used := decide (i.val < 2) }
      nextPid := 3
      nextTid := 3
      currentThread := some (i, ⟨0, by decide⟩) }
  control := fun _ => ⟨.ready, 0, ⟨512, 0, fun _ => 0⟩⟩

/-- The process that runs is ended by its own check. -/
theorem default_action_own :
    procGetCurrent (twoProcesses firstProc).table = some firstProc ∧
    Terminates (twoProcesses firstProc) firstProc sigKill
      (signalCheck (twoProcesses firstProc) (some firstProc)) := by
  have hcur : procGetCurrent (twoProcesses firstProc).table = some firstProc := by
    decide +kernel
  have hlower : ∀ k : Sig, k < sigKill →
      ((twoProcesses firstProc).signals firstProc).stops k = false := by decide +kernel
  have hdue : (twoProcesses firstProc).Due firstProc sigKill := by decide +kernel
  have hfatal : ((twoProcesses firstProc).signals firstProc).fatal sigKill = true := by
    decide +kernel
  rcases default_action_iff hdue hfatal fun k _ => hlower k with ⟨hiff, -⟩
  exact ⟨hcur, hiff.mpr hcur⟩

/-- A check of the first process while the second one runs ends the second one. -/
theorem default_action_other :
    (twoProcesses secondProc).Due firstProc sigKill ∧
    (signalCheck (twoProcesses secondProc) (some firstProc)).1 = .exited (some secondProc) ∧
    ((signalCheck (twoProcesses secondProc) (some firstProc)).2.control firstProc).state =
      .ready ∧
    ((signalCheck (twoProcesses secondProc) (some firstProc)).2.control secondProc).state =
      .terminated ∧
    ((signalCheck (twoProcesses secondProc) (some firstProc)).2.control secondProc).exitCode =
      137 := by
  decide +kernel

/-! ## SIG_KILL -/

/-- A call that changes how a process takes its signals. -/
inductive Change where
  | setHandler (sig : Int32) (handler : UInt64)
  | block (sig : Int32)
  | unblock (sig : Int32)

def Change.apply (p : ProcPtr) (w : World Ctx) : Change → World Ctx
  | .setHandler sig handler => signalSetHandler w (some p) sig handler
  | .block sig => signalBlock w (some p) sig
  | .unblock sig => signalUnblock w (some p) sig

theorem apply_table (p : ProcPtr) (w : World Ctx) (c : Change) : (c.apply p w).table = w.table := by
  cases c with
  | setHandler sig handler => exact adjust_table w _ sig _
  | block sig => exact adjust_table w _ sig _
  | unblock sig => exact adjust_table w _ sig _

theorem apply_pending (p : ProcPtr) (w : World Ctx) (c : Change) :
    (c.apply p w).Pending q sig ↔ w.Pending q sig := by
  cases c with
  | setHandler i handler => exact signalSetHandler_pending w (some p) i handler
  | block i => exact signalBlock_pending w (some p) i
  | unblock i => exact signalUnblock_pending w (some p) i

theorem changes_table (p : ProcPtr) (changes : List Change) (w : World Ctx) :
    (changes.foldl (Change.apply p) w).table = w.table := by
  induction changes generalizing w with
  | nil => rfl
  | cons c rest ih => exact (ih (c.apply p w)).trans (apply_table p w c)

/-- Changes to a process clear none of its signals. -/
theorem changes_pending (p : ProcPtr) (changes : List Change) (w : World Ctx) :
    (changes.foldl (Change.apply p) w).Pending q sig ↔ w.Pending q sig := by
  induction changes generalizing w with
  | nil => exact Iff.rfl
  | cons c rest ih => exact (ih (c.apply p w)).trans (apply_pending p w c)

/-- `signal_send(pid, SIG_KILL)` between two lists of changes. -/
def World.afterKill (w : World Ctx) (p : ProcPtr) (pid : Int32) (before after : List Change) :
    World Ctx :=
  after.foldl (Change.apply p) (signalSend (before.foldl (Change.apply p) w) pid 9)

theorem afterKill_pending {pid : Int32} (hpid : procGet w.table pid = some p)
    (before after : List Change) : (w.afterKill p pid before after).Pending p sigKill := by
  rw [← changes_table p before w] at hpid
  have hsent : (signalSend (before.foldl (Change.apply p) w) pid 9).Pending p sigKill :=
    (signalSend_pending _ pid 9).mpr (Or.inl ⟨by decide, hpid⟩)
  exact (changes_pending p after _).mpr hsent

/-- At most `n` calls of `signal_check` end `p` with `SIG_KILL`. -/
def KilledWithin (p : ProcPtr) : Nat → World Ctx → Prop
  | 0, _ => False
  | n + 1, w =>
      match signalCheck w (some p) with
      | (.returned _, w') => KilledWithin p n w'
      | (.exited proc, w') =>
          proc = some p ∧ (w'.control p).state = .terminated ∧ (w'.control p).exitCode = 137

/-- Nothing keeps a check of `p` from ending it with `SIG_KILL`. -/
structure Exposed (w : World Ctx) (p : ProcPtr) : Prop where
  unblocked : Mask.has (w.signals p).blocked sigKill = false
  default : (w.signals p).handlers sigKill = 0
  current : procGetCurrent w.table = some p

/-- The pending signals besides `SIG_KILL`. -/
def World.others (w : World Ctx) (p : ProcPtr) : Finset Sig :=
  Finset.univ.filter fun k => k ≠ sigKill ∧ w.Pending p k

theorem mem_others {k : Sig} : k ∈ w.others p ↔ k ≠ sigKill ∧ w.Pending p k := by
  simp [World.others]

/-- The exit status tells the signal. -/
theorem status_kill : ∀ k : Sig, Int32.ofNat (128 + k.val) = 137 → k = sigKill := by
  decide

/-- A check that returns leaves masks and handlers, so it does not change who is exposed. -/
theorem exposed_setSignals {s' : SignalInfo} (hblocked : s'.blocked = (w.signals p).blocked)
    (hhandlers : s'.handlers = (w.signals p).handlers) :
    Exposed (w.setSignals p s') p ↔ Exposed w p := by
  constructor
  · rintro ⟨hun, hdef, hcur⟩
    rw [setSignals_self] at hun hdef
    exact ⟨hblocked ▸ hun, hhandlers ▸ hdef, hcur⟩
  · rintro ⟨hun, hdef, hcur⟩
    refine ⟨?_, ?_, hcur⟩
    · rw [setSignals_self, hblocked, hun]
    · rw [setSignals_self, hhandlers, hdef]

theorem exposed_of_killed {n : Nat} (hkilled : KilledWithin p n w) : Exposed w p := by
  induction n generalizing w with
  | zero => exact hkilled.elim
  | succ n ih =>
      rw [KilledWithin] at hkilled
      rcases hcall : signalCheck w (some p) with ⟨r | proc, w'⟩
      · rw [hcall] at hkilled
        rcases signalCheck_returned hcall with ⟨s', rfl, hblocked, hhandlers, -⟩
        exact (exposed_setSignals hblocked hhandlers).mp (ih hkilled)
      · rw [hcall] at hkilled
        rcases hkilled with ⟨rfl, -, hcode⟩
        rcases signalCheck_exited hcall with ⟨k, s', hfirst, hdefault, hexit⟩
        cases hcur : procGetCurrent w.table with
        | none =>
            have hcur' : procGetCurrent (w.setSignals p s').table = none := hcur
            rw [procExit_none hcur'] at hexit
            cases hexit
        | some c =>
            have hcur' : procGetCurrent (w.setSignals p s').table = some c := hcur
            rcases procExit_current hcur' (Int32.ofNat (128 + k.val)) with ⟨hproc, -, hstatus, -⟩
            rw [hexit] at hproc hstatus
            cases hproc
            have hk : k = sigKill := status_kill k (hstatus.symm.trans hcode)
            subst hk
            have hstop := (first_eq_some.mp hfirst).2.1
            simp only [SignalInfo.stops, SignalInfo.due, Bool.and_eq_true, Bool.not_eq_true']
              at hstop
            exact ⟨hstop.1.2, hdefault, hcur⟩

/-- Each check before the last one takes up a signal below `SIG_KILL`. -/
theorem killed_of_exposed {n : Nat} (hexposed : Exposed w p) (hpending : w.Pending p sigKill)
    (hn : (w.others p).card < n) : KilledWithin p n w := by
  induction n generalizing w with
  | zero => exact absurd hn (Nat.not_lt_zero _)
  | succ n ih =>
      have hdue : (w.signals p).due sigKill = true := by
        simp only [SignalInfo.due, hexposed.unblocked, Bool.not_false, Bool.and_true]
        exact hpending
      have hfatal : (w.signals p).fatal sigKill = true := by
        rw [SignalInfo.fatal, hexposed.default]
        rfl
      have hstop : (w.signals p).stops sigKill = true := by
        rw [SignalInfo.stops, hdue, hfatal, Bool.or_true]
        rfl
      cases hfirst : (w.signals p).first with
      | none =>
          rw [first_eq_none.mp hfirst sigKill (by decide)] at hstop
          cases hstop
      | some k =>
          rcases first_eq_some.mp hfirst with ⟨hk, hkstop, hleast⟩
          have hle : k ≤ sigKill := hleast sigKill (by decide) hstop
          rw [KilledWithin]
          by_cases hkill : k = sigKill
          · subst hkill
            rcases signalCheck_fatal hfirst hexposed.default with ⟨s', hcall⟩
            have hcur : procGetCurrent (w.setSignals p s').table = some p := hexposed.current
            rcases procExit_current hcur (Int32.ofNat (128 + sigKill.val)) with
              ⟨hproc, hstate, hcode, -⟩
            rw [hcall]
            exact ⟨hproc, hstate, hcode⟩
          · -- only `SIG_KILL` and `SIG_TERM` end a process, and neither is below `SIG_KILL`
            have hlt : k < sigKill := lt_of_le_of_ne hle hkill
            have hmild : (w.signals p).fatal k = false := by
              have hsmall : (k.val == SIG_KILL || k.val == SIG_TERM) = false := by
                have hval : k.val < 9 := hlt
                simp [SIG_KILL, SIG_TERM]
                omega
              rw [SignalInfo.fatal, hsmall, Bool.and_false]
            have hhandled : (w.signals p).handlers k ≠ 0 := by
              rw [SignalInfo.stops, hmild, Bool.or_false, Bool.and_eq_true] at hkstop
              intro hdefault
              simp [SignalInfo.custom, hdefault] at hkstop
            rcases signalCheck_eq w p with ⟨s', -, hcall⟩
            rw [hfirst, SignalInfo.ending, if_neg hhandled] at hcall
            rcases signalCheck_returned hcall with ⟨s'', hw', hblocked, hhandlers, hafter, -⟩
            have hpend : ∀ j : Sig, (w.setSignals p s'').Pending p j ↔ w.Pending p j ∧
                ¬ (w.Due p j ∧ (k.val = 0 ∨ j.val ≤ k.val)) := by
              intro j
              rw [World.Pending, setSignals_self, hafter _ j.lt_64]
              simp [World.Pending, Fin.val_inj]
            have hkdue : w.Due p k := ⟨hk, (Bool.and_eq_true_iff.mp hkstop).1⟩
            rw [hcall]
            show KilledWithin p n (w.setSignals p s')
            rw [hw']
            refine ih ((exposed_setSignals hblocked hhandlers).mpr hexposed) ?_ ?_
            · -- the check has not come as far as `SIG_KILL`
              refine (hpend sigKill).mpr ⟨hpending, ?_⟩
              rintro ⟨-, hup⟩
              rw [Fin.lt_def] at hlt
              omega
            · -- but it has taken up `k`
              refine lt_of_lt_of_le (Finset.card_lt_card ?_) (Nat.le_of_lt_succ hn)
              refine (Finset.ssubset_iff_of_subset ?_).mpr ⟨k, ?_, ?_⟩
              · intro j hj
                rw [mem_others, hpend] at hj
                exact mem_others.mpr ⟨hj.1, hj.2.1⟩
              · exact mem_others.mpr ⟨hkill, (Bool.and_eq_true_iff.mp hkdue.2).1⟩
              · intro hmem
                rw [mem_others, hpend] at hmem
                exact hmem.2.2 ⟨hkdue, Or.inr (Nat.le_refl _)⟩

/-- However its masks and handlers are set before and after the signal is sent, `p` is
ended by `SIG_KILL` within one check for each other pending signal and one more exactly
if in the end `SIG_KILL` is not blocked and has the default action, and `p` is the
current process; in every other case no number of checks does it. -/
theorem kill_reached_iff {pid : Int32} (hpid : procGet w.table pid = some p)
    (before after : List Change) :
    (KilledWithin p (((w.afterKill p pid before after).others p).card + 1)
        (w.afterKill p pid before after) ↔ Exposed (w.afterKill p pid before after) p) ∧
    ∀ n, KilledWithin p n (w.afterKill p pid before after) →
      Exposed (w.afterKill p pid before after) p := by
  refine ⟨⟨exposed_of_killed, ?_⟩, fun n => exposed_of_killed⟩
  intro hexposed
  exact killed_of_exposed hexposed (afterKill_pending hpid before after) (Nat.lt_succ_self _)

/-- Blocked when it is sent, unblocked after: the process is ended by one check for each
other pending signal, of which there are none, and one more. -/
theorem kill_reached_unblocked :
    procGet (twoProcesses firstProc).table 1 = some firstProc ∧
    KilledWithin firstProc
      ((((twoProcesses firstProc).afterKill firstProc 1 [.block 9] [.unblock 9]).others
        firstProc).card + 1)
      ((twoProcesses firstProc).afterKill firstProc 1 [.block 9] [.unblock 9]) := by
  have hpid : procGet (twoProcesses firstProc).table 1 = some firstProc := by decide +kernel
  have hexposed : Exposed
      ((twoProcesses firstProc).afterKill firstProc 1 [.block 9] [.unblock 9]) firstProc :=
    ⟨by decide +kernel, by decide +kernel, by decide +kernel⟩
  refine ⟨hpid, ?_⟩
  rw [(kill_reached_iff hpid [.block 9] [.unblock 9]).1]
  exact hexposed

/-- The process that runs evades `SIG_KILL` by blocking it, and by ignoring it. -/
theorem kill_evaded :
    procGet (twoProcesses firstProc).table 1 = some firstProc ∧
    procGetCurrent (twoProcesses firstProc).table = some firstProc ∧
    (∀ n, ¬ KilledWithin firstProc n
      ((twoProcesses firstProc).afterKill firstProc 1 [.block 9] [])) ∧
    ∀ n, ¬ KilledWithin firstProc n
      ((twoProcesses firstProc).afterKill firstProc 1 [] [.setHandler 9 1]) := by
  refine ⟨by decide +kernel, by decide +kernel, ?_, ?_⟩
  · intro n hkilled
    exact absurd (exposed_of_killed hkilled).unblocked (by decide +kernel)
  · intro n hkilled
    exact absurd (exposed_of_killed hkilled).default (by decide +kernel)

end OmniOS.Signals
