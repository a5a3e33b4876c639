import OmniOS.Kernel.Signal

/-!
# OmniOS.Kernel.SignalRuns — delivery

A pending signal is cleared by the call of `signal_check` that takes it up and by
nothing else (`pending_next`); with a handler of its own this is the call that
returns it.
-/

namespace OmniOS.Signals

open Lts Process Sched

variable {Ctx : Type} {w w' : World Ctx} {p q : ProcPtr} {sig : Sig}

/-! ## One call -/

def World.Pending (w : World Ctx) (p : ProcPtr) (sig : Sig) : Prop :=
  Mask.has (w.signals p).pending sig = true

/-- `U` of a process: pending, not blocked, and a number that `signal_check` looks at. -/
def World.Due (w : World Ctx) (p : ProcPtr) (sig : Sig) : Prop :=
  1 ≤ sig.val ∧ (w.signals p).due sig = true

instance (w : World Ctx) (p : ProcPtr) (sig : Sig) : Decidable (w.Pending p sig) :=
  inferInstanceAs (Decidable (_ = true))

instance (w : World Ctx) (p : ProcPtr) (sig : Sig) : Decidable (w.Due p sig) :=
  inferInstanceAs (Decidable (_ ∧ _))

/-- A call that returns has taken up the due signals up to the one it returns, which
is the first due signal with a handler of its own, or all of them. -/
theorem signalCheck_returned {r : Nat} (hcall : signalCheck w (some p) = (.returned r, w')) :
    ∃ s', w' = w.setSignals p s' ∧ s'.blocked = (w.signals p).blocked ∧
      s'.handlers = (w.signals p).handlers ∧
      (∀ i < 64, Mask.has s'.pending i = true ↔ Mask.has (w.signals p).pending i = true ∧
        ¬ ∃ sig : Sig, sig.val = i ∧ w.Due p sig ∧ (r = 0 ∨ sig.val ≤ r)) ∧
      ((r = 0 ∧ (w.signals p).first = none) ∨
        ∃ k, r = k.val ∧ (w.signals p).first = some k ∧ (w.signals p).custom k = true) := by
  rcases signalCheck_eq w p with ⟨s', hchecked, heq⟩
  rw [heq] at hcall
  -- what is pending is what was, but for the due signals up to the one that stopped it
  have hpending : ∀ i < 64, Mask.has s'.pending i = true ↔
      Mask.has (w.signals p).pending i = true ∧ ¬ ∃ sig : Sig, sig.val = i ∧ w.Due p sig ∧
        ¬ ∃ k, (w.signals p).first = some k ∧ k < sig := by
    intro i hi
    rw [hchecked.pending i hi]
    refine and_congr_right fun _ => ?_
    constructor
    · rintro hall ⟨sig, hval, ⟨hpos, hdue⟩, hnot⟩
      exact hnot (hall sig (mem_sigs.mpr hpos) hval hdue)
    · intro hnone k hk hval hdue
      by_contra hnot
      exact hnone ⟨k, hval, ⟨mem_sigs.mp hk, hdue⟩, hnot⟩
  cases hfirst : (w.signals p).first with
  | none =>
      rw [hfirst] at hcall hpending
      cases hcall
      refine ⟨s', rfl, hchecked.blocked, hchecked.handlers, ?_, Or.inl ⟨rfl, rfl⟩⟩
      intro i hi
      rw [hpending i hi]
      simp
  | some k =>
      rw [hfirst] at hcall hpending
      rcases first_eq_some.mp hfirst with ⟨hk, hstop, -⟩
      by_cases hdefault : (w.signals p).handlers k = 0
      · -- `proc_exit` does not return
        rw [SignalInfo.ending, if_pos hdefault] at hcall
        cases hcall
      · rw [SignalInfo.ending, if_neg hdefault] at hcall
        cases hcall
        have hcustom : (w.signals p).custom k = true := by
          rw [SignalInfo.stops, Bool.and_eq_true, Bool.or_eq_true] at hstop
          refine hstop.2.resolve_right ?_
          simp [SignalInfo.fatal, hdefault]
        refine ⟨s', rfl, hchecked.blocked, hchecked.handlers, ?_, Or.inr ⟨k, rfl, rfl, hcustom⟩⟩
        have hlt : ∀ sig : Sig, (¬ ∃ k', some k = some k' ∧ k' < sig) ↔
            (k.val = 0 ∨ sig.val ≤ k.val) := by
          intro sig
          have hsome : (∃ k', some k = some k' ∧ k' < sig) ↔ k < sig := by simp
          rw [hsome, Fin.lt_def]
          omega
        intro i hi
        rw [hpending i hi]
        simp only [hlt]

/-! ## Calls -/

/-- A call; `check` comes with what it returned. -/
inductive Event where
  | send (pid sig : Int32)
  | setHandler (proc : Option ProcPtr) (sig : Int32) (handler : UInt64)
  | block (proc : Option ProcPtr) (sig : Int32)
  | unblock (proc : Option ProcPtr) (sig : Int32)
  | check (proc : Option ProcPtr) (result : Nat)

def Next : Event → World Ctx → World Ctx → Prop
  | .send pid sig, w, w' => w' = signalSend w pid sig
  | .setHandler proc sig handler, w, w' => w' = signalSetHandler w proc sig handler
  | .block proc sig, w, w' => w' = signalBlock w proc sig
  | .unblock proc sig, w, w' => w' = signalUnblock w proc sig
  | .check proc result, w, w' => signalCheck w proc = (.returned result, w')

/-- Any calls, from any state on. A call of `signal_check` that ends a process does
not return, and a run ends there. -/
def calls (Ctx : Type) : System (World Ctx) Event where
  Init := fun _ => True
  Next := Next

/-- The event is a `signal_send` of `sig` to `p`. -/
def Sent (e : Event) (w : World Ctx) (p : ProcPtr) (sig : Sig) : Prop :=
  ∃ pid i, e = .send pid i ∧ signalOf i = some sig ∧ procGet w.table pid = some p

/-- The event is a `signal_check` of `p` that takes up `sig`. -/
def TakenUp (e : Event) (w : World Ctx) (p : ProcPtr) (sig : Sig) : Prop :=
  ∃ r, e = .check (some p) r ∧ w.Due p sig ∧ (r = 0 ∨ sig.val ≤ r)

theorem signalSend_pending (w : World Ctx) (pid i : Int32) :
    (signalSend w pid i).Pending p sig ↔
      (signalOf i = some sig ∧ procGet w.table pid = some p) ∨ w.Pending p sig := by
  unfold signalSend
  cases hsig : signalOf i with
  | none => simp
  | some k =>
      cases hproc : procGet w.table pid with
      | none => simp
      | some q =>
          dsimp only
          unfold World.Pending
          by_cases hpq : p = q
          · subst hpq
            have hsame : sig.val = k.val ↔ k = sig := by rw [Fin.ext_iff, eq_comm]
            rw [setSignals_self, Mask.has_insert k.lt_64 sig.lt_64, Bool.or_eq_true,
              decide_eq_true_iff, hsame, or_comm]
            simp
          · rw [setSignals_signals_ne _ _ _ hpq]
            simp [Ne.symm hpq]

/-- Changing handlers or the mask of blocked signals. -/
theorem pending_setSignals {s : SignalInfo} (hs : s.pending = (w.signals q).pending) :
    (w.setSignals q s).Pending p sig ↔ w.Pending p sig := by
  unfold World.Pending
  by_cases hpq : p = q
  · subst hpq
    rw [setSignals_self, hs]
  · rw [setSignals_signals_ne _ _ _ hpq]

theorem adjust_pending {f : Sig → SignalInfo → SignalInfo}
    (hf : ∀ k s, (f k s).pending = s.pending) (w : World Ctx) (proc : Option ProcPtr) (i : Int32) :
    (adjust w proc i f).Pending p sig ↔ w.Pending p sig := by
  unfold adjust
  split
  · exact pending_setSignals (hf _ _)
  · exact Iff.rfl

theorem signalSetHandler_pending (w : World Ctx) (proc : Option ProcPtr) (i : Int32)
    (handler : UInt64) : (signalSetHandler w proc i handler).Pending p sig ↔ w.Pending p sig := by
  refine adjust_pending (fun _ _ => ?_) w proc i
  rfl

theorem signalBlock_pending (w : World Ctx) (proc : Option ProcPtr) (i : Int32) :
    (signalBlock w proc i).Pending p sig ↔ w.Pending p sig := by
  refine adjust_pending (fun _ _ => ?_) w proc i
  rfl

theorem signalUnblock_pending (w : World Ctx) (proc : Option ProcPtr) (i : Int32) :
    (signalUnblock w proc i).Pending p sig ↔ w.Pending p sig := by
  refine adjust_pending (fun _ _ => ?_) w proc i
  rfl

/-- One call: a signal is pending after it if it was just sent, or if it was pending
and has not been taken up. -/
theorem pending_next {e : Event} (hnext : Next e w w') :
    w'.Pending p sig ↔ Sent e w p sig ∨ (w.Pending p sig ∧ ¬ TakenUp e w p sig) := by
  cases e with
  | send pid i =>
      cases hnext
      rw [signalSend_pending]
      simp [Sent, TakenUp]
  | setHandler proc i handler =>
      cases hnext
      rw [signalSetHandler_pending]
      simp [Sent, TakenUp]
  | block proc i =>
      cases hnext
      rw [signalBlock_pending]
      simp [Sent, TakenUp]
  | unblock proc i =>
      cases hnext
      rw [signalUnblock_pending]
      simp [Sent, TakenUp]
  | check proc r =>
      cases proc with
      | none =>
          cases hnext
          simp [Sent, TakenUp]
      | some q =>
          rcases signalCheck_returned hnext with ⟨s', rfl, -, -, hpending, -⟩
          by_cases hpq : p = q
          · subst hpq
            rw [World.Pending, setSignals_self, hpending sig sig.lt_64]
            simp [Sent, TakenUp, World.Pending, Fin.val_inj]
          · -- another process
            rw [World.Pending, setSignals_signals_ne _ _ _ hpq]
            simp [Sent, TakenUp, Ne.symm hpq, World.Pending]

theorem next_table {e : Event} (hnext : Next e w w') : w'.table = w.table := by
  cases e with
  | send pid i =>
      cases hnext
      exact signalSend_table w pid i
  | setHandler proc i handler =>
      cases hnext
      exact adjust_table w proc i _
  | block proc i =>
      cases hnext
      exact adjust_table w proc i _
  | unblock proc i =>
      cases hnext
      exact adjust_table w proc i _
  | check proc r =>
      cases proc with
      | none =>
          cases hnext
          rfl
      | some q =>
          rcases signalCheck_returned hnext with ⟨s', rfl, -⟩
          rfl

/-! ## Delivery -/

section Delivery

variable {events : List Event}

/-- A blocked signal stays pending. -/
theorem blocked_stays_pending (hrun : Run ((calls Ctx).restrict fun _ u =>
      Mask.has (u.signals p).blocked sig = true) w events w')
    (hpending : w.Pending p sig) : w'.Pending p sig := by
  refine hrun.invariant (I := fun u => u.Pending p sig) ?_ hpending
  rintro e u u' hu ⟨hblocked, hnext⟩
  refine (pending_next hnext).mpr (Or.inr ⟨hu, ?_⟩)
  rintro ⟨r, -, ⟨-, hdue⟩, -⟩
  simp [SignalInfo.due, hblocked] at hdue

/-- A signal with a handler of its own stays pending until it is returned. -/
theorem custom_stays_pending (hrun : Run ((calls Ctx).restrict fun _ u =>
      (u.signals p).custom sig = true) w events w')
    (hreturned : .check (some p) sig.val ∉ events) (hpending : w.Pending p sig) :
    w'.Pending p sig := by
  refine hrun.invariant_of_mem (I := fun u => u.Pending p sig) ?_ hpending
  rintro e he u u' hu ⟨hcustom, hnext⟩
  refine (pending_next hnext).mpr (Or.inr ⟨hu, ?_⟩)
  rintro ⟨r, rfl, ⟨hpos, hdue⟩, hup⟩
  -- it would have stopped the loop, so the call returned a smaller signal or this one
  have hstop : (u.signals p).stops sig = true := by simp [SignalInfo.stops, hdue, hcustom]
  rcases signalCheck_returned hnext with ⟨-, -, -, -, -, ⟨-, hfirst⟩ | ⟨k, rfl, hfirst, -⟩⟩
  · rw [first_eq_none.mp hfirst sig hpos] at hstop
    cases hstop
  · rcases first_eq_some.mp hfirst with ⟨hk, -, hleast⟩
    have hle : k.val ≤ sig.val := hleast sig hpos hstop
    have hsame : k = sig := Fin.ext (by omega)
    rw [hsame] at he
    exact hreturned he

/-- A signal that is not pending stays so until it is sent. -/
theorem clear_stays (hrun : Run (calls Ctx) w events w')
    (hsent : ∀ e ∈ events, ¬ Sent e w p sig) (hclear : ¬ w.Pending p sig) :
    w'.table = w.table ∧ ¬ w'.Pending p sig := by
  refine hrun.invariant_of_mem (I := fun u => u.table = w.table ∧ ¬ u.Pending p sig) ?_
    ⟨rfl, hclear⟩
  rintro e he u u' ⟨htable, hu⟩ hnext
  refine ⟨(next_table hnext).trans htable, ?_⟩
  rw [pending_next hnext]
  rintro (⟨pid, i, heq, hsig, hproc⟩ | ⟨hold, -⟩)
  · rw [htable] at hproc
    exact hsent e he ⟨pid, i, heq, hsig, hproc⟩
  · exact hu hold

/-- Delivery loses nothing. A call of `signal_check` that finds no due signal whose
default action ends the process returns the first due signal with a handler of its
own, or 0, and takes up the due signals up to it, or all of them. Over any calls, a
blocked signal stays pending, and one that is sent and has a handler of its own stays
pending until a check returns it; from then on it is clear until it is sent again. -/
theorem signal_delivery (w : World Ctx) (p : ProcPtr) :
    ((∀ sig, w.Due p sig → (w.signals p).fatal sig = false) →
      ∃ r s', signalCheck w (some p) = (.returned r, w.setSignals p s') ∧
        s'.blocked = (w.signals p).blocked ∧ s'.handlers = (w.signals p).handlers ∧
        (∀ i < 64, Mask.has s'.pending i = true ↔ Mask.has (w.signals p).pending i = true ∧
          ¬ ∃ sig : Sig, sig.val = i ∧ w.Due p sig ∧ (r = 0 ∨ sig.val ≤ r)) ∧
        ((r = 0 ∧ ∀ sig, w.Due p sig → (w.signals p).custom sig = false) ∨
          ∃ k : Sig, r = k.val ∧ w.Due p k ∧ (w.signals p).custom k = true ∧
            ∀ sig, w.Due p sig → (w.signals p).custom sig = true → k ≤ sig)) ∧
    (∀ (sig : Sig) events w', Run ((calls Ctx).restrict fun _ u =>
        Mask.has (u.signals p).blocked sig = true) w events w' →
      w.Pending p sig → w'.Pending p sig) ∧
    (∀ pid i sig events w', signalOf i = some sig → procGet w.table pid = some p →
      Run ((calls Ctx).restrict fun _ u => (u.signals p).custom sig = true)
        (signalSend w pid i) events w' →
      .check (some p) sig.val ∉ events → w'.Pending p sig) ∧
    ∀ sig u events w', 1 ≤ sig.val → Next (.check (some p) sig.val) w u →
      Run (calls Ctx) u events w' → (∀ e ∈ events, ¬ Sent e u p sig) → ¬ w'.Pending p sig := by
  refine ⟨?_, ?_, ?_, ?_⟩
  · intro hfatal
    -- a due signal stops the loop exactly if it has a handler of its own
    have hstops : ∀ sig, w.Due p sig →
        (w.signals p).stops sig = (w.signals p).custom sig := by
      intro sig hdue
      simp [SignalInfo.stops, hdue.2, hfatal sig hdue]
    rcases signalCheck_eq w p with ⟨s', -, heq⟩
    have hreturned : ∃ r w', signalCheck w (some p) = (.returned r, w') := by
      rw [heq]
      cases hfirst : (w.signals p).first with
      | none => exact ⟨0, _, rfl⟩
      | some k =>
          rcases first_eq_some.mp hfirst with ⟨hk, hstop, -⟩
          have hdue : w.Due p k := ⟨hk, (Bool.and_eq_true_iff.mp hstop).1⟩
          rw [hstops k hdue, SignalInfo.custom, Bool.and_eq_true, bne_iff_ne] at hstop
          rw [SignalInfo.ending, if_neg hstop.1]
          exact ⟨k.val, _, rfl⟩
    rcases hreturned with ⟨r, w', hcall⟩
    rcases signalCheck_returned hcall with ⟨s', rfl, hblocked, hhandlers, hpending, hwhich⟩
    refine ⟨r, s', hcall, hblocked, hhandlers, hpending, ?_⟩
    rcases hwhich with ⟨hr, hfirst⟩ | ⟨k, hr, hfirst, hcustom⟩
    · refine Or.inl ⟨hr, ?_⟩
      intro sig hdue
      rw [← hstops sig hdue]
      exact first_eq_none.mp hfirst sig hdue.1
    · rcases first_eq_some.mp hfirst with ⟨hk, hstop, hleast⟩
      refine Or.inr ⟨k, hr, ⟨hk, (Bool.and_eq_true_iff.mp hstop).1⟩, hcustom, ?_⟩
      intro sig hdue hsig
      rw [← hstops sig hdue] at hsig
      exact hleast sig hdue.1 hsig
  · intro sig events w' hrun hpending
    exact blocked_stays_pending hrun hpending
  · intro pid i sig events w' hsig hproc hrun hreturned
    exact custom_stays_pending hrun hreturned
      ((signalSend_pending w pid i).mpr (Or.inl ⟨hsig, hproc⟩))
  · intro sig u events w' hpos hnext hrun hsent
    refine (clear_stays hrun hsent ?_).2
    rw [pending_next hnext]
    rintro (⟨pid, i, heq, -⟩ | ⟨-, hup⟩)
    · cases heq
    · -- the call returned the signal, so it has taken it up
      rcases signalCheck_returned hnext with ⟨-, -, -, -, -, ⟨hzero, -⟩ | ⟨k, hk, hfirst, -⟩⟩
      · omega
      · rcases first_eq_some.mp hfirst with ⟨-, hstop, -⟩
        have hsame : sig = k := Fin.ext hk
        rw [← hsame] at hstop
        exact hup ⟨sig.val, rfl, ⟨hpos, (Bool.and_eq_true_iff.mp hstop).1⟩, Or.inr (Nat.le_refl _)⟩

end Delivery

end OmniOS.Signals
