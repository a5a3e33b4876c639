import Mathlib.Data.List.Basic
import Mathlib.Data.List.Induction

/-!
# Fifo — queues as lists

A queue is the list of its items, oldest first.

* `enqueue` appends to a bounded queue that drops its oldest item when it is full.
* A queue that loses nothing hands out a prefix of what was put in. One more item keeps
  it so exactly if it is the item that is due (`concat_prefix_iff`).
* A `Device` has calls that put an item in or take one out. One that behaves like a
  bounded queue that turns away what it has no room for (`IsQueue`) hands out what it
  accepted, in order, over whole sessions (`IsQueue.dropsNewest`).
-/

namespace Fifo

variable {α : Type*}

/-- Append to a queue of at most `cap` items; a full queue drops its oldest one. -/
def enqueue (cap : Nat) (q : List α) (a : α) : List α :=
  if q.length < cap then q ++ [a] else q.tail ++ [a]

theorem concat_prefix_iff {l l' : List α} (h : l <+: l') (x : α) :
    l ++ [x] <+: l' ↔ l'[l.length]? = some x := by
  rcases h with ⟨t, rfl⟩
  rw [List.prefix_append_right_inj, List.getElem?_append_right (Nat.le_refl _), Nat.sub_self]
  cases t with
  | nil => simp
  | cons y t =>
      simp [eq_comm]

/-! ## Devices that drop the newest -/

/-- Append to a queue of at most `cap` items; a full queue turns the new one away. -/
def offer (cap : Nat) (q : List α) (a : α) : List α :=
  if q.length < cap then q ++ [a] else q

variable {σ π : Type*}

/-- Calls on a state `σ`: `put` with an argument that stands for an item, and `get`.
`accepts` says whether a `put` takes its item in. -/
structure Device (σ π α : Type*) where
  put : σ → π → σ
  accepts : σ → π → Bool
  item : π → α
  get : σ → Option α × σ

inductive Call (π : Type*) where
  | put (p : π)
  | get

/-- A device with the record of the items it accepted and of those it delivered. -/
structure Session (σ α : Type*) where
  dev : σ
  accepted : List α
  delivered : List α

namespace Device

def apply (D : Device σ π α) (w : Session σ α) : Call π → Session σ α
  | .put p =>
      { w with
        dev := D.put w.dev p
        accepted := if D.accepts w.dev p then w.accepted ++ [D.item p] else w.accepted }
  | .get =>
      { w with
        dev := (D.get w.dev).2
        delivered := w.delivered ++ (D.get w.dev).1.toList }

/-- The session of some calls, from state `s` on. -/
def session (D : Device σ π α) (s : σ) (calls : List (Call π)) : Session σ α :=
  calls.foldl D.apply ⟨s, [], []⟩

end Device

/-- After a session, what was delivered is the oldest part of what was accepted, the next
`get` hands out the item that is due, and a `put` is accepted exactly while fewer than
`cap` accepted items are undelivered. -/
structure DropsNewest (D : Device σ π α) (cap : Nat) (w : Session σ α) : Prop where
  in_order : w.delivered <+: w.accepted
  next : (D.get w.dev).1 = w.accepted[w.delivered.length]?
  accepted_put : ∀ p, (D.apply w (.put p)).accepted =
    if w.accepted.length - w.delivered.length < cap then w.accepted ++ [D.item p] else w.accepted

/-- In the states that are `Ready`, the device is a queue of at most `cap` items whose
content is `contents`. -/
structure IsQueue (D : Device σ π α) (cap : Nat) (contents : σ → List α) (Ready : σ → Prop) :
    Prop where
  accepts_iff : ∀ s p, Ready s → (D.accepts s p = true ↔ (contents s).length < cap)
  contents_put : ∀ s p, Ready s → contents (D.put s p) = offer cap (contents s) (D.item p)
  ready_put : ∀ s p, Ready s → Ready (D.put s p)
  get_eq : ∀ s, Ready s → (D.get s).1 = (contents s).head?
  contents_get : ∀ s, Ready s → contents (D.get s).2 = (contents s).tail
  ready_get : ∀ s, Ready s → Ready (D.get s).2

namespace IsQueue

variable {D : Device σ π α} {cap : Nat} {contents : σ → List α} {Ready : σ → Prop}

/-- One call keeps the balance: accepted is delivered and then waiting. -/
theorem apply_accepted (h : IsQueue D cap contents Ready) {w : Session σ α}
    (hready : Ready w.dev) (hw : w.accepted = w.delivered ++ contents w.dev) (call : Call π) :
    Ready (D.apply w call).dev ∧
      (D.apply w call).accepted = (D.apply w call).delivered ++ contents (D.apply w call).dev := by
  cases call with
  | put p =>
      constructor
      · exact h.ready_put w.dev p hready
      show (if D.accepts w.dev p then w.accepted ++ [D.item p] else w.accepted) =
        w.delivered ++ contents (D.put w.dev p)
      rw [h.contents_put w.dev p hready, offer]
      by_cases hroom : (contents w.dev).length < cap
      · rw [if_pos hroom, if_pos ((h.accepts_iff w.dev p hready).mpr hroom), hw,
          List.append_assoc]
      · have hfull : ¬ D.accepts w.dev p = true := by
          intro haccepts
          exact hroom ((h.accepts_iff w.dev p hready).mp haccepts)
        rw [if_neg hroom, if_neg hfull, hw]
  | get =>
      constructor
      · exact h.ready_get w.dev hready
      show w.accepted = w.delivered ++ (D.get w.dev).1.toList ++ contents (D.get w.dev).2
      rw [h.get_eq w.dev hready, h.contents_get w.dev hready, hw]
      cases contents w.dev with
      | nil => simp
      | cons a q => simp

theorem session_accepted (h : IsQueue D cap contents Ready) {s : σ} (hready : Ready s)
    (hempty : contents s = []) (calls : List (Call π)) :
    Ready (D.session s calls).dev ∧
      (D.session s calls).accepted =
        (D.session s calls).delivered ++ contents (D.session s calls).dev := by
  induction calls using List.reverseRecOn with
  | nil =>
      constructor
      · exact hready
      · show [] = [] ++ contents s
        rw [hempty]
        rfl
  | append_singleton calls call ih =>
      obtain ⟨ih, hbalance⟩ := ih
      rw [Device.session, List.foldl_concat, ← Device.session]
      exact h.apply_accepted ih hbalance call

theorem dropsNewest (h : IsQueue D cap contents Ready) {s : σ} (hready : Ready s)
    (hempty : contents s = []) (calls : List (Call π)) :
    DropsNewest D cap (D.session s calls) := by
  obtain ⟨hready, hbalance⟩ := h.session_accepted hready hempty calls
  generalize D.session s calls = w at hready hbalance
  have hwaiting : w.accepted.length - w.delivered.length = (contents w.dev).length := by
    rw [hbalance, List.length_append, Nat.add_sub_cancel_left]
  constructor
  · exact ⟨contents w.dev, hbalance.symm⟩
  · rw [h.get_eq w.dev hready, hbalance, List.getElem?_append_right (Nat.le_refl _), Nat.sub_self,
      List.head?_eq_getElem?]
  · intro p
    rw [hwaiting]
    exact if_congr (h.accepts_iff w.dev p hready) rfl rfl

end IsQueue

end Fifo
