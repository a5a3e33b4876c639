import OmniOS.Kernel.Sched

/-!
# OmniOS.Kernel.SchedQueue — a run queue is a bounded FIFO list

`Rep rq` is the representation invariant of a run queue and `items rq` the list
it stands for. Each of the three operations on a queue has one spec lemma, in
terms of the list; `runqueues_refine` puts them together over any sequence of
operations on any CPUs.
-/

namespace OmniOS.Sched

variable {T : Type} [DecidableEq T]

/-- `queue[head]`, `queue[head + 1]`, ..., `count` entries, indices modulo 256. -/
def items (rq : Runqueue T) : List (Option T) :=
  Ring.window rq.queue rq.head.toNat rq.count.toNat

structure Rep (rq : Runqueue T) : Prop where
  head_lt : rq.head.toNat < 256
  count_le : rq.count.toNat ≤ 256
  tail_eq : rq.tail.toNat = (rq.head.toNat + rq.count.toNat) % 256

omit [DecidableEq T] in
theorem length_items (rq : Runqueue T) : (items rq).length = rq.count.toNat :=
  Ring.length_window _ _ _

/-! ## Index arithmetic -/

theorem succ_mod_toNat (i : UInt32) : ((i + 1) % 256).toNat = (i.toNat + 1) % 256 := by
  rw [UInt32.toNat_mod, UInt32.toNat_add]
  show (i.toNat + 1) % 2 ^ 32 % 256 = (i.toNat + 1) % 256
  omega

theorem pred_mod_toNat (i : UInt32) : ((i - 1 + 256) % 256).toNat = (i.toNat + 255) % 256 := by
  rw [UInt32.toNat_mod, UInt32.toNat_add, UInt32.toNat_sub]
  show ((2 ^ 32 - 1 + i.toNat) % 2 ^ 32 + 256) % 2 ^ 32 % 256 = (i.toNat + 255) % 256
  omega

theorem succ_toNat {i : UInt32} (hi : i.toNat < 256) : (i + 1).toNat = i.toNat + 1 := by
  rw [UInt32.toNat_add]
  show (i.toNat + 1) % 2 ^ 32 = i.toNat + 1
  omega

theorem pred_toNat {i : UInt32} (hi : 0 < i.toNat) : (i - 1).toNat = i.toNat - 1 := by
  have hle : (1 : UInt32) ≤ i := by
    rw [UInt32.le_iff_toNat_le]
    exact hi
  exact UInt32.toNat_sub_of_le i 1 hle

theorem toNat_ofNat_of_lt {i : Nat} (hi : i < 256) : (UInt32.ofNat i).toNat = i := by
  rw [UInt32.toNat_ofNat']
  exact Nat.mod_eq_of_lt (by omega)

/-- Wrapping at `2^32` does not matter for indices modulo 256. -/
theorem slot_add (i j : UInt32) :
    slot (i + j) = Fin.ofNat MAX_RUNQUEUE_DEPTH (i.toNat + j.toNat) := by
  apply Fin.ext
  show (i + j).toNat % 256 = (i.toNat + j.toNat) % 256
  rw [UInt32.toNat_add]
  omega

/-! ## Adding -/

omit [DecidableEq T] in
/-- The entry `queue[tail]` is the one after the last. -/
theorem Rep.tail_slot {rq : Runqueue T} (h : Rep rq) (htail : rq.tail.toNat < MAX_RUNQUEUE_DEPTH) :
    (⟨rq.tail.toNat, htail⟩ : Fin MAX_RUNQUEUE_DEPTH) =
      Fin.ofNat MAX_RUNQUEUE_DEPTH (rq.head.toNat + rq.count.toNat) :=
  Fin.ext h.tail_eq

omit [DecidableEq T] in
theorem Rep.tail_lt {rq : Runqueue T} (h : Rep rq) : rq.tail.toNat < MAX_RUNQUEUE_DEPTH := by
  rw [h.tail_eq]
  exact Nat.mod_lt _ (by decide)

theorem schedAddThread_full {s : State T} {cpu : Cpu} (t : T)
    (hfull : 256 ≤ (items (s.runqueues cpu)).length) : schedAddThread s cpu t = some s := by
  rw [length_items] at hfull
  have hcount : (s.runqueues cpu).count ≥ 256 := by
    rw [ge_iff_le, UInt32.le_iff_toNat_le]
    exact hfull
  unfold schedAddThread
  exact if_pos hcount

omit [DecidableEq T] in
theorem Rep.put {rq : Runqueue T} (h : Rep rq) (hroom : rq.count.toNat < 256) (t : T) :
    Rep (rq.put h.tail_lt t) ∧ items (rq.put h.tail_lt t) = items rq ++ [some t] := by
  have hhead := h.head_lt
  have htail := h.tail_eq
  have hcount : (rq.put h.tail_lt t).count.toNat = rq.count.toNat + 1 := succ_toNat hroom
  have hnewTail : (rq.put h.tail_lt t).tail.toNat = (rq.tail.toNat + 1) % 256 := succ_mod_toNat _
  constructor
  · refine ⟨hhead, by omega, ?_⟩
    rw [hnewTail, hcount]
    show _ = (rq.head.toNat + (rq.count.toNat + 1)) % 256
    omega
  · unfold items
    rw [hcount]
    show Ring.window (Function.update rq.queue _ (some t)) rq.head.toNat _ = _
    rw [h.tail_slot]
    exact Ring.window_push _ _ _ hroom

theorem schedAddThread_room {s : State T} {cpu : Cpu} (t : T) (h : Rep (s.runqueues cpu))
    (hroom : (items (s.runqueues cpu)).length < 256) :
    ∃ rq, schedAddThread s cpu t = some ((s.setRunqueue cpu rq).setState t .ready) ∧
      Rep rq ∧ items rq = items (s.runqueues cpu) ++ [some t] := by
  rw [length_items] at hroom
  have hcount : ¬ (s.runqueues cpu).count ≥ 256 := by
    rw [ge_iff_le, UInt32.le_iff_toNat_le]
    exact Nat.not_le.mpr hroom
  refine ⟨(s.runqueues cpu).put h.tail_lt t, ?_, h.put hroom t⟩
  unfold schedAddThread
  dsimp only
  rw [if_neg hcount, dif_pos h.tail_lt]

/-! ## Picking -/

theorem schedPickNext_nil {s : State T} {cpu : Cpu} (hitems : items (s.runqueues cpu) = []) :
    schedPickNext s cpu = some (none, s) := by
  have hzero : (s.runqueues cpu).count = 0 := by
    apply UInt32.toNat_inj.mp
    rw [← length_items, hitems]
    rfl
  unfold schedPickNext
  exact if_pos hzero

omit [DecidableEq T] in
/-- Moving `head` on drops the first entry, which is the one at `head`. -/
theorem Rep.advance {rq : Runqueue T} (h : Rep rq) (hpos : 0 < rq.count.toNat) :
    Rep rq.advance ∧
      items rq = rq.queue ⟨rq.head.toNat, h.head_lt⟩ :: items rq.advance := by
  have hhead := h.head_lt
  have hle := h.count_le
  have htail := h.tail_eq
  have hcount : rq.advance.count.toNat = rq.count.toNat - 1 := pred_toNat hpos
  have hnewHead : rq.advance.head.toNat = (rq.head.toNat + 1) % 256 := succ_mod_toNat _
  constructor
  · refine ⟨by omega, by omega, ?_⟩
    rw [hnewHead, hcount]
    show rq.tail.toNat = _
    omega
  · have hslot : (⟨rq.head.toNat, h.head_lt⟩ : Fin MAX_RUNQUEUE_DEPTH) =
        Fin.ofNat MAX_RUNQUEUE_DEPTH rq.head.toNat :=
      Fin.ext (Nat.mod_eq_of_lt hhead).symm
    have hwindow : items rq.advance =
        Ring.window rq.queue (rq.head.toNat + 1) (rq.count.toNat - 1) := by
      unfold items
      rw [hcount, hnewHead]
      exact Ring.window_mod _ _ _
    rw [hwindow, hslot, ← Ring.window_succ, Nat.sub_add_cancel hpos]
    rfl

theorem schedPickNext_cons {s : State T} {cpu : Cpu} {p : Option T} {l : List (Option T)}
    (h : Rep (s.runqueues cpu)) (hitems : items (s.runqueues cpu) = p :: l) :
    ∃ rq, schedPickNext s cpu = some (dispatch (s.setRunqueue cpu rq) p) ∧
      Rep rq ∧ items rq = l := by
  have hlen : (s.runqueues cpu).count.toNat = l.length + 1 := by
    rw [← length_items, hitems]
    rfl
  have hzero : ¬ (s.runqueues cpu).count = 0 := by
    intro heq
    rw [heq] at hlen
    exact absurd hlen (Nat.succ_ne_zero _).symm
  rcases h.advance (by omega) with ⟨hrep, hsplit⟩
  rw [hitems] at hsplit
  rcases List.cons.inj hsplit with ⟨hp, hl⟩
  refine ⟨(s.runqueues cpu).advance, ?_, hrep, hl.symm⟩
  unfold schedPickNext
  dsimp only
  rw [if_neg hzero, dif_pos (show _ < MAX_RUNQUEUE_DEPTH from h.head_lt), ← hp]

/-! ## Removing -/

omit [DecidableEq T] in
/-- What the shift loop leaves in the entry at distance `k` from `head`: the
rounds `j`, ..., `j + n - 1` each take the next entry, nothing else changes. -/
theorem shiftLoop_apply (head : UInt32) {n : Nat} {j : UInt32}
    (queue : Fin MAX_RUNQUEUE_DEPTH → Option T) (hn : j.toNat + n < 256) {k : Nat} (hk : k < 256) :
    shiftLoop head n j queue (Fin.ofNat MAX_RUNQUEUE_DEPTH (head.toNat + k)) =
      if j.toNat ≤ k ∧ k < j.toNat + n then
        queue (Fin.ofNat MAX_RUNQUEUE_DEPTH (head.toNat + (k + 1)))
      else queue (Fin.ofNat MAX_RUNQUEUE_DEPTH (head.toNat + k)) := by
  induction n generalizing j queue with
  | zero =>
      rw [if_neg (by omega)]
      rfl
  | succ n ih =>
      have hj : (j + 1).toNat = j.toNat + 1 := succ_toNat (by omega)
      have hsrc : slot (head + j + 1) =
          Fin.ofNat MAX_RUNQUEUE_DEPTH (head.toNat + (j.toNat + 1)) := by
        rw [UInt32.add_assoc, slot_add, hj]
      unfold shiftLoop
      dsimp only
      rw [ih _ (by omega), hj, hsrc, slot_add]
      -- the entry written in this round is the one at distance `j`
      have hwrite : ∀ i < 256, ∀ v, Function.update queue
          (Fin.ofNat MAX_RUNQUEUE_DEPTH (head.toNat + j.toNat)) v
          (Fin.ofNat MAX_RUNQUEUE_DEPTH (head.toNat + i)) =
          if i = j.toNat then v else queue (Fin.ofNat MAX_RUNQUEUE_DEPTH (head.toNat + i)) := by
        intro i hi v
        by_cases hij : i = j.toNat
        · rw [if_pos hij, hij, Function.update_self]
        · rw [if_neg hij]
          refine Function.update_of_ne ?_ _ _
          intro heq
          have hj256 : j.toNat < 256 := by omega
          exact hij (Ring.slot_injective (n := MAX_RUNQUEUE_DEPTH) hi hj256 heq)
      by_cases hkj : k = j.toNat
      · rw [if_neg (by omega), if_pos (by omega), hwrite k hk, if_pos hkj, hkj]
      · by_cases hin : j.toNat + 1 ≤ k ∧ k < j.toNat + 1 + n
        · rw [if_pos hin, if_pos (by omega), hwrite (k + 1) (by omega), if_neg (by omega)]
        · rw [if_neg hin, if_neg (by omega), hwrite k hk, if_neg hkj]

omit [DecidableEq T] in
theorem Rep.dropAt {rq : Runqueue T} (h : Rep rq) {i : Nat} (hi : i < rq.count.toNat) :
    Rep (rq.dropAt i) ∧ items (rq.dropAt i) = (items rq).eraseIdx i := by
  have hhead := h.head_lt
  have hle := h.count_le
  have htail := h.tail_eq
  have hcount : (rq.dropAt i).count.toNat = rq.count.toNat - 1 := pred_toNat (by omega)
  have hnewTail : (rq.dropAt i).tail.toNat = (rq.tail.toNat + 255) % 256 := pred_mod_toNat _
  have hstart : (UInt32.ofNat i).toNat = i := toNat_ofNat_of_lt (by omega)
  have hrounds : (rq.count - 1).toNat - i = rq.count.toNat - 1 - i := by
    rw [pred_toNat (by omega)]
  constructor
  · refine ⟨hhead, by omega, ?_⟩
    rw [hnewTail, hcount]
    show _ = (rq.head.toNat + _) % 256
    omega
  · unfold items
    rw [hcount]
    show Ring.window (rq.dropAt i).queue rq.head.toNat _ = _
    refine Ring.window_eraseIdx hi ?_ ?_
    · -- entries before `i` are not touched
      intro k hk
      show shiftLoop rq.head _ _ rq.queue _ = _
      rw [hrounds, shiftLoop_apply _ _ (by omega) (by omega), hstart, if_neg (by omega)]
    · -- the others have moved one down
      intro k hik hk
      show shiftLoop rq.head _ _ rq.queue _ = _
      rw [hrounds, shiftLoop_apply _ _ (by omega) (by omega), hstart, if_pos (by omega)]

omit [DecidableEq T] in
/-- The search compares the entries of the list in order. -/
theorem findThread_entry (rq : Runqueue T) {i : Nat} (hi : i < (items rq).length) (h : Rep rq) :
    rq.queue (slot (rq.head + UInt32.ofNat i)) = (items rq)[i] := by
  have hle := h.count_le
  rw [length_items] at hi
  rw [slot_add, toNat_ofNat_of_lt (by omega)]
  exact (Ring.getElem_window _ _ _ _ _).symm

theorem findThread_none {rq : Runqueue T} {thread : Option T} (h : Rep rq)
    (hfind : findThread rq thread = none) : thread ∉ items rq := by
  unfold findThread at hfind
  rw [List.find?_range_eq_none] at hfind
  intro hmem
  rcases List.mem_iff_getElem.mp hmem with ⟨i, hi, heq⟩
  have hne := hfind i (by rw [← length_items]; exact hi)
  rw [findThread_entry rq hi h, heq] at hne
  simp at hne

theorem findThread_some {rq : Runqueue T} {thread : Option T} {i : Nat} (h : Rep rq)
    (hfind : findThread rq thread = some i) :
    i < rq.count.toNat ∧ (items rq).eraseIdx i = (items rq).erase thread := by
  unfold findThread at hfind
  rw [List.find?_range_eq_some] at hfind
  rcases hfind with ⟨hmatch, hmem, hfirst⟩
  have hi : i < rq.count.toNat := List.mem_range.mp hmem
  have hi' : i < (items rq).length := by
    rw [length_items]
    exact hi
  rw [findThread_entry rq hi' h] at hmatch
  -- the loop stops at the first match, which is where the list has it first
  have hidx : (items rq).idxOf thread = i := by
    refine (List.findIdx_eq hi').mpr ⟨hmatch, ?_⟩
    intro j hj
    have hne := hfirst j hj
    rw [findThread_entry rq (Nat.lt_trans hj hi') h] at hne
    simpa using hne
  refine ⟨hi, ?_⟩
  rw [← hidx]
  exact List.eraseIdx_idxOf_eq_erase thread (items rq)

theorem schedRemoveThread_spec {s : State T} {cpu : Cpu} (thread : Option T)
    (h : Rep (s.runqueues cpu)) :
    ∃ rq, schedRemoveThread s cpu thread = s.setRunqueue cpu rq ∧ Rep rq ∧
      items rq = (items (s.runqueues cpu)).erase thread := by
  unfold schedRemoveThread
  dsimp only
  cases hfind : findThread (s.runqueues cpu) thread with
  | none =>
      refine ⟨s.runqueues cpu, ?_, h, ?_⟩
      · dsimp only [State.setRunqueue]
        rw [Function.update_eq_self]
      · exact (List.erase_of_not_mem (findThread_none h hfind)).symm
  | some i =>
      rcases findThread_some h hfind with ⟨hi, herase⟩
      rcases h.dropAt hi with ⟨hrep, hitems⟩
      exact ⟨_, rfl, hrep, hitems.trans herase⟩

/-! ## Refinement -/

/-- The operations on the run queue of a CPU. -/
inductive QueueOp (T : Type) where
  | add (thread : T)
  | remove (thread : Option T)
  | pick

def QueueOp.apply (s : State T) (cpu : Cpu) : QueueOp T → Option (State T)
  | .add t => schedAddThread s cpu t
  | .remove t => some (schedRemoveThread s cpu t)
  | .pick => (schedPickNext s cpu).map Prod.snd

/-- The bounded FIFO list. -/
def QueueOp.onList (l : List (Option T)) : QueueOp T → List (Option T)
  | .add t => if l.length < 256 then l ++ [some t] else l
  | .remove t => l.erase t
  | .pick => l.tail

/-- The operations in order; `none` as soon as one of them goes out of bounds. -/
def runOps (s : State T) (cpu : Cpu) (ops : List (QueueOp T)) : Option (State T) :=
  ops.foldlM (fun s op => op.apply s cpu) s

/-- One operation: it returns, keeps the invariant and does to the list what it
should. -/
theorem apply_refines {s : State T} {cpu : Cpu} (h : Rep (s.runqueues cpu)) (op : QueueOp T) :
    ∃ s', op.apply s cpu = some s' ∧ Rep (s'.runqueues cpu) ∧
      items (s'.runqueues cpu) = op.onList (items (s.runqueues cpu)) ∧
      ∀ cpu', cpu' ≠ cpu → s'.runqueues cpu' = s.runqueues cpu' := by
  cases op with
  | add t =>
      by_cases hroom : (items (s.runqueues cpu)).length < 256
      · rcases schedAddThread_room t h hroom with ⟨rq, hadd, hrep, hitems⟩
        refine ⟨_, hadd, ?_, ?_, ?_⟩
        · simpa using hrep
        · simpa [QueueOp.onList, hroom] using hitems
        · intro cpu' hne
          simp [hne]
      · -- a full queue: the early return
        have hfull := schedAddThread_full t (Nat.le_of_not_lt hroom)
        refine ⟨s, hfull, h, ?_, fun _ _ => rfl⟩
        exact (if_neg hroom).symm
  | remove t =>
      rcases schedRemoveThread_spec t h with ⟨rq, hremove, hrep, hitems⟩
      refine ⟨_, congrArg some hremove, ?_, ?_, ?_⟩
      · simpa using hrep
      · simpa [QueueOp.onList] using hitems
      · intro cpu' hne
        simp [hne]
  | pick =>
      cases hitems : items (s.runqueues cpu) with
      | nil =>
          refine ⟨s, ?_, h, hitems, fun _ _ => rfl⟩
          exact congrArg (Option.map Prod.snd) (schedPickNext_nil hitems)
      | cons p l =>
          rcases schedPickNext_cons h hitems with ⟨rq, hpick, hrep, hl⟩
          refine ⟨_, congrArg (Option.map Prod.snd) hpick, ?_, ?_, ?_⟩
          · rw [(dispatch_frame _ _).1]
            simpa using hrep
          · rw [(dispatch_frame _ _).1]
            simpa [QueueOp.onList] using hl
          · intro cpu' hne
            rw [(dispatch_frame _ _).1]
            simp [hne]

/-- Any sequence of operations on a run queue that meets the invariant returns,
keeps the invariant and does to the list what the bounded FIFO does. The queues
of other CPUs are left alone. -/
theorem runqueue_refines {s : State T} {cpu : Cpu} (h : Rep (s.runqueues cpu))
    (ops : List (QueueOp T)) :
    ∃ s', runOps s cpu ops = some s' ∧ Rep (s'.runqueues cpu) ∧
      items (s'.runqueues cpu) = ops.foldl QueueOp.onList (items (s.runqueues cpu)) ∧
      ∀ cpu', cpu' ≠ cpu → s'.runqueues cpu' = s.runqueues cpu' := by
  induction ops generalizing s with
  | nil => exact ⟨s, rfl, h, rfl, fun _ _ => rfl⟩
  | cons op ops ih =>
      -- the first operation keeps the invariant, so the others start from it
      rcases apply_refines h op with ⟨s₁, happly, hrep₁, hitems₁, hother₁⟩
      rcases ih hrep₁ with ⟨s₂, hrun, hrep₂, hitems₂, hother₂⟩
      refine ⟨s₂, ?_, hrep₂, ?_, ?_⟩
      · show (op.apply s cpu >>= fun s => runOps s cpu ops) = some s₂
        rw [happly]
        exact hrun
      · rw [hitems₂, hitems₁]
        rfl
      · intro cpu' hne
        rw [hother₂ cpu' hne, hother₁ cpu' hne]

/-- From an empty queue: add two threads, remove the first, pick the second. -/
theorem runqueue_refines_two : ∃ s', runOps (schedInit 1 fun _ : Bool => ⟨.ready, 0, 0⟩) 0
      [.add true, .add false, .remove (some true), .pick] = some s' ∧
    Rep (s'.runqueues 0) ∧ items (s'.runqueues 0) = [] ∧
    ∀ cpu', cpu' ≠ 0 → s'.runqueues cpu' =
      (schedInit 1 fun _ : Bool => ⟨.ready, 0, 0⟩).runqueues cpu' := by
  have hrep : Rep ((schedInit 1 fun _ : Bool => ⟨.ready, 0, 0⟩).runqueues 0) :=
    ⟨by decide, by decide, rfl⟩
  exact runqueue_refines hrep [.add true, .add false, .remove (some true), .pick]

/-- One thread in entry 0, reached through `head` = 256. -/
def wildHead : State Unit :=
  (schedInit 1 fun _ => ⟨.ready, 0, 0⟩).setRunqueue 0
    { queue := fun _ => some ()
      head := 256
      tail := 1
      count := 1
      totalTicks := 0
      cpuIndex := 0 }

/-- `sched_pick_next` reads `queue[256]`, past the end of the array. -/
theorem wildHead_out_of_bounds :
    (wildHead.runqueues 0).count.toNat ≤ 256 ∧
    (wildHead.runqueues 0).tail.toNat =
      ((wildHead.runqueues 0).head.toNat + (wildHead.runqueues 0).count.toNat) % 256 ∧
    items (wildHead.runqueues 0) = [some ()] ∧
    runOps wildHead 0 [.pick] = none :=
  ⟨by decide, by decide, rfl, rfl⟩

end OmniOS.Sched
