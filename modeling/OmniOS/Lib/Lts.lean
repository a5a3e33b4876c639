import Mathlib.Data.List.Basic

/-!
# Lts — labelled transition systems and their rules

A system is a set of initial states and a step relation indexed by labels
(the calls, messages or events of the program being modelled). Everything
is proved from the two definitions `Run` and `Reachable`:

* `Run.invariant` and `Reachable.invariant` are the induction rules: a
  property that holds at the start and survives one step holds after every
  run;
* `System.restrict` keeps only the steps that meet a side condition, so
  that "in every run whose steps all meet `P`" is reachability in the
  restricted system.
-/

namespace Lts

variable {σ α : Type*}

/-- Initial states and labelled steps. -/
structure System (σ α : Type*) where
  Init : σ → Prop
  Next : α → σ → σ → Prop

/-- `Run S s as t`: taking the steps labelled `as`, in order, leads from
`s` to `t`. -/
inductive Run (S : System σ α) (s : σ) : List α → σ → Prop where
  | nil : Run S s [] s
  | snoc {as : List α} {a : α} {t u : σ} :
      Run S s as t → S.Next a t u → Run S s (as ++ [a]) u

/-- A state some run leads to from an initial state. -/
def Reachable (S : System σ α) (t : σ) : Prop :=
  ∃ s as, S.Init s ∧ Run S s as t

/-- The system with the steps that violate `P` taken away. -/
def System.restrict (S : System σ α) (P : α → σ → Prop) : System σ α where
  Init := S.Init
  Next := fun a s t => P a s ∧ S.Next a s t

/-! ## Induction rules -/

/-- Invariance along a run, under the steps that occur in it. -/
theorem Run.invariant_of_mem {S : System σ α} {I : σ → Prop} {s t : σ} {as : List α}
    (hrun : Run S s as t) (hstep : ∀ a ∈ as, ∀ s t, I s → S.Next a s t → I t) (hs : I s) :
    I t := by
  induction hrun with
  | nil => exact hs
  | snoc _ hnext ih =>
      refine hstep _ (List.mem_append_right _ List.mem_cons_self) _ _ (ih ?_) hnext
      intro a ha
      exact hstep a (List.mem_append_left _ ha)

/-- Invariance along a run. -/
theorem Run.invariant {S : System σ α} {I : σ → Prop}
    (hstep : ∀ a s t, I s → S.Next a s t → I t)
    {s t : σ} {as : List α} (hrun : Run S s as t) (hs : I s) : I t :=
  hrun.invariant_of_mem (fun a _ => hstep a) hs

theorem Run.append {S : System σ α} {s t u : σ} {as bs : List α} (hrun : Run S s as t)
    (hrest : Run S t bs u) : Run S s (as ++ bs) u := by
  induction hrest with
  | nil =>
      rw [List.append_nil]
      exact hrun
  | snoc _ hnext ih =>
      rw [← List.append_assoc]
      exact ih.snoc hnext

theorem Run.single {S : System σ α} {s t : σ} {a : α} (hnext : S.Next a s t) : Run S s [a] t :=
  Run.nil.snoc hnext

/-- Inductive invariance over all reachable states. -/
theorem Reachable.invariant {S : System σ α} {I : σ → Prop}
    (hinit : ∀ s, S.Init s → I s)
    (hstep : ∀ a s t, I s → S.Next a s t → I t)
    {t : σ} (hreach : Reachable S t) : I t := by
  obtain ⟨s, as, hs, hrun⟩ := hreach
  exact hrun.invariant hstep (hinit s hs)

theorem Reachable.init {S : System σ α} {s : σ} (hs : S.Init s) :
    Reachable S s :=
  ⟨s, [], hs, Run.nil⟩

theorem Reachable.step {S : System σ α} {a : α} {s t : σ}
    (hreach : Reachable S s) (hnext : S.Next a s t) : Reachable S t := by
  obtain ⟨s₀, as, hs₀, hrun⟩ := hreach
  exact ⟨s₀, as ++ [a], hs₀, hrun.snoc hnext⟩

theorem Reachable.run {S : System σ α} {s t : σ} {as : List α} (hreach : Reachable S s)
    (hrun : Run S s as t) : Reachable S t := by
  obtain ⟨s₀, bs, hs₀, hbefore⟩ := hreach
  exact ⟨s₀, bs ++ as, hs₀, hbefore.append hrun⟩

/-- Steps computed one after the other. -/
theorem Reachable.foldlM {S : System σ α} {next : σ → α → Option σ}
    (hnext : ∀ a s t, next s a = some t → S.Next a s t) {s t : σ} (hreach : Reachable S s)
    {as : List α} (hrun : as.foldlM next s = some t) : Reachable S t := by
  induction as generalizing s with
  | nil =>
      cases hrun
      exact hreach
  | cons a as ih =>
      rw [List.foldlM_cons] at hrun
      obtain ⟨u, hu, hrest⟩ := Option.bind_eq_some_iff.mp hrun
      exact ih (hreach.step (hnext a s u hu)) hrest

/-- A computed run whose last state passes a test. -/
theorem Reachable.of_test {S : System σ α} {next : σ → α → Option σ}
    (hnext : ∀ a s t, next s a = some t → S.Next a s t) {s : σ} (hreach : Reachable S s)
    {as : List α} {P : σ → Prop} [DecidablePred P]
    (hrun : (as.foldlM next s).map (fun t => decide (P t)) = some true) :
    ∃ t, Reachable S t ∧ P t := by
  obtain ⟨t, ht, htest⟩ := Option.map_eq_some_iff.mp hrun
  exact ⟨t, hreach.foldlM hnext ht, of_decide_eq_true htest⟩

/-- A restriction takes runs away and adds none. -/
theorem Run.of_restrict {S : System σ α} {P : α → σ → Prop} {s t : σ} {as : List α}
    (hrun : Run (S.restrict P) s as t) : Run S s as t := by
  induction hrun with
  | nil => exact Run.nil
  | snoc _ hnext ih => exact ih.snoc hnext.2

theorem Reachable.of_restrict {S : System σ α} {P : α → σ → Prop} {t : σ}
    (hreach : Reachable (S.restrict P) t) : Reachable S t := by
  obtain ⟨s, as, hs, hrun⟩ := hreach
  exact ⟨s, as, hs, hrun.of_restrict⟩

/-- Steps of a restricted system are computed by testing the side condition first. -/
theorem System.restrict_next {S : System σ α} {P : α → σ → Prop} [∀ a s, Decidable (P a s)]
    {next : σ → α → Option σ} (hnext : ∀ a s t, next s a = some t → S.Next a s t) (a : α)
    (s t : σ) (h : (if P a s then next s a else none) = some t) : (S.restrict P).Next a s t := by
  obtain ⟨hP, h⟩ := Option.ite_none_right_eq_some.mp h
  exact ⟨hP, hnext a s t h⟩

end Lts
