import OmniOS.Kernel.Virtio
import OmniOS.Lib.Fifo
import OmniOS.Lib.Lts

/-!
# OmniOS.Kernel.VirtioUsed — completions and polls

The device writes completions to the used ring, at most `size` ahead of the driver; each
successful `virtio_recv_used` should return the next of them.

`virtio_recv_used` starts every poll at element 0 and reads it in the layout of
`virtio.h`: the upper half of the id and the lower half of the length make its length
(`seen`). A poll is right exactly if that happens to be the completion that is due
(`InTurn`).
-/

namespace OmniOS.Virtio.Used

/-! ## Runs -/

/-- An id and a length. -/
abbrev Completion := UInt32 × UInt32

/-- The queue, what the device has completed and what polls have returned. -/
structure World where
  q : Queue
  completions : List Completion
  received : List Completion

inductive Event where
  | complete (id len : UInt32)
  | recv

/-- At most `size` completions are outstanding. -/
def World.next (w : World) : Event → Option World
  | .complete id len =>
      if w.completions.length < w.received.length + w.q.size.toNat then
        some { w with
          q := w.q.complete w.completions.length id len
          completions := w.completions ++ [(id, len)] }
      else none
  | .recv =>
      (virtioRecvUsed w.q (some 0)).map fun r =>
        if r.1 = -1 then { w with q := r.2.2 }
        else { w with q := r.2.2, received := w.received ++ [(r.1.toUInt32, r.2.1.getD 0)] }

/-- A queue that was set up with `n` descriptors. -/
def system (n : Nat) : Lts.System World Event where
  Init w := ∃ q phys, virtioSetupQueue n phys = some q ∧ w = ⟨q, [], []⟩
  Next e w w' := w.next e = some w'

/-! ## Element 0 -/

/-- The newest of the first `c` completions that went to element 0. -/
def atZero (n : Nat) (completions : List Completion) : Option Completion :=
  completions[(completions.length - 1) / n * n]?

/-- A completion, as `virtio_recv_used` reads it: bytes 0 and 1 for the id, bytes 2 to 5
for the length. -/
def seen (c : Completion) : Completion := (c.1 % 65536, c.1 / 65536 + c.2 * 65536)

/-- A poll that finds the counter at 0 is made when everything was received, and any
other poll when the completion that is due is what it sees in element 0. -/
def InTurn (n : Nat) (e : Event) (w : World) : Prop :=
  match e with
  | .recv =>
      if w.completions.length % 2 ^ 16 = 0 then w.received = w.completions
      else w.completions[w.received.length]? = (atZero n w.completions).map seen
  | .complete _ _ => True

/-- The bytes of the used ring the driver reads. -/
structure Holds (n : Nat) (w : World) : Prop where
  size : w.q.size = UInt16.ofNat n
  idx : Memory.load w.q.used 2 2 = w.completions.length % 2 ^ 16
  elem : ∀ c, atZero n w.completions = some c →
    Memory.load w.q.used 4 4 = c.1.toNat ∧ Memory.load w.q.used 4 8 = c.2.toNat

section Steps

variable {n : Nat} {w w' : World}

theorem holds_init {q : Queue} {phys : UInt64} (hsetup : virtioSetupQueue n phys = some q) :
    Holds n ⟨q, [], []⟩ := by
  unfold virtioSetupQueue at hsetup
  split at hsetup
  · cases hsetup
  · cases hsetup
    exact ⟨rfl, rfl, fun c hc => by simp [atZero] at hc⟩

theorem size_toNat (hmax : n ≤ 65535) (h : Holds n w) : w.q.size.toNat = n := by
  rw [h.size, UInt16.toNat_ofNat']
  omega

/-- The `k`-th completion goes to element 0, or leaves it alone. -/
theorem atZero_concat (l : List Completion) (c : Completion) :
    atZero n (l ++ [c]) = if l.length % n = 0 then some c else atZero n l := by
  have hdiv := Nat.div_add_mod l.length n
  unfold atZero
  rw [List.length_append, List.length_singleton, Nat.add_sub_cancel, Nat.mul_comm _ n]
  by_cases hzero : l.length % n = 0
  · have hidx : n * (l.length / n) = l.length := by omega
    rw [if_pos hzero, hidx, List.getElem?_concat_length]
  · have hlt : n * (l.length / n) < l.length := by omega
    have hsame : l.length / n = (l.length - 1) / n := by
      have hpred := Nat.div_add_mod (l.length - 1) n
      have hsucc : l.length - 1 + 1 = l.length := by omega
      rw [← hsucc, Nat.succ_div, if_neg]
      · rw [hsucc]
        rfl
      · rw [hsucc]
        exact fun hdvd => hzero (Nat.mod_eq_zero_of_dvd hdvd)
    rw [if_neg hzero, List.getElem?_append_left hlt, hsame, Nat.mul_comm]

theorem Holds.complete (hmax : n ≤ 65535) (h : Holds n w) (id len : UInt32) :
    Holds n { w with
      q := w.q.complete w.completions.length id len
      completions := w.completions ++ [(id, len)] } := by
  have hsize := size_toNat hmax h
  have hid : id.toNat < 256 ^ 4 := id.toNat_lt
  have hlen : len.toNat < 256 ^ 4 := len.toNat_lt
  -- the counter lies before the elements
  have hcounter (m : Memory.Mem) {a v : Nat} (ha : 4 ≤ a) :
      Memory.load (Memory.store m 2 2 v) 4 a = Memory.load m 4 a :=
    Memory.load_store_of_disjoint m (Or.inr ha)
  constructor
  · exact h.size
  · show Memory.load (Memory.store _ 2 2 (w.completions.length + 1)) 2 2 = _
    rw [Memory.load_store_mod, List.length_append, List.length_singleton]
    rfl
  · intro c hc
    rw [atZero_concat] at hc
    simp only [Queue.complete, hsize]
    rw [hcounter _ (by omega), hcounter _ (by omega)]
    by_cases hzero : w.completions.length % n = 0
    · rw [if_pos hzero] at hc
      cases hc
      simp only [hzero, Nat.mul_zero, Nat.add_zero, Nat.reduceAdd]
      constructor
      · rw [Memory.load_store_of_disjoint _ (Or.inl (by omega)), Memory.load_store_self _ hid]
      · rw [Memory.load_store_self _ hlen]
    · rw [if_neg hzero] at hc
      have helem : 12 ≤ 4 + 8 * (w.completions.length % n) := by omega
      have hother (m : Memory.Mem) {a b v : Nat} (ha : a ≤ 8) (hb : 12 ≤ b) :
          Memory.load (Memory.store m 4 b v) 4 a = Memory.load m 4 a :=
        Memory.load_store_of_disjoint m (Or.inl (by omega))
      rw [hother _ (by omega) (by omega), hother _ (by omega) helem, hother _ (by omega) (by omega),
        hother _ (by omega) helem]
      exact h.elem c hc

/-- What `virtio_recv_used` makes of element 0. -/
theorem Holds.seen (h : Holds n w) {c : Completion} (hc : atZero n w.completions = some c) :
    ((Int32.ofNat (w.q.usedId 0).toNat).toUInt32, w.q.usedLen 0) = Used.seen c := by
  rcases h.elem c hc with ⟨hid, hlen⟩
  have hidlt := c.1.toNat_lt
  have hlenlt := c.2.toNat_lt
  have hlow := Memory.load_add w.q.used 2 2 4
  have hhigh := Memory.load_add w.q.used 2 2 8
  have hread := Memory.load_add w.q.used 2 2 6
  have h4 := Memory.load_lt w.q.used 2 4
  have h6 := Memory.load_lt w.q.used 2 6
  have h8 := Memory.load_lt w.q.used 2 8
  simp only [Nat.reduceAdd, Nat.reducePow] at hlow hhigh hread h4 h6 h8
  have hword (k : Nat) : (Int32.ofNat k).toUInt32.toNat = k % 2 ^ 32 := UInt32.toNat_ofNat'
  have hsixteen : (65536 : UInt32).toNat = 65536 := rfl
  refine Prod.ext ?_ ?_
  · apply UInt32.toNat_inj.mp
    simp only [hword, Used.seen, Queue.usedId, UInt16.toNat_ofNat', UInt32.toNat_mod, hsixteen,
      Nat.mul_zero, Nat.add_zero]
    omega
  · apply UInt32.toNat_inj.mp
    simp only [Used.seen, Queue.usedLen, UInt32.toNat_ofNat', UInt32.toNat_add, UInt32.toNat_div,
      UInt32.toNat_mul, hsixteen, Nat.mul_zero, Nat.add_zero, Nat.reduceAdd]
    omega

theorem usedIdx_eq_zero (h : Holds n w) :
    w.q.usedIdx = 0 ↔ w.completions.length % 2 ^ 16 = 0 := by
  rw [Queue.usedIdx, h.idx, ← UInt16.toNat_inj, UInt16.toNat_ofNat', Nat.mod_mod]
  rfl

/-- A poll returns -1, or what it sees in element 0. -/
theorem Holds.recv (hpos : 1 ≤ n) (hmax : n ≤ 65535) (h : Holds n w) :
    if w.completions.length % 2 ^ 16 = 0 then
      virtioRecvUsed w.q (some 0) = some (-1, some 0, w.q) ∧ w.next .recv = some w
    else
      ∃ c q, atZero n w.completions = some c ∧
        (virtioRecvUsed w.q (some 0)).map (·.1) ≠ some (-1) ∧ q.size = w.q.size ∧
        q.used = w.q.used ∧
        w.next .recv = some { w with q := q, received := w.received ++ [Used.seen c] } := by
  have hsize : w.q.size ≠ 0 := by
    intro hzero
    have hnat := size_toNat hmax h
    rw [hzero] at hnat
    exact absurd hnat (Nat.ne_of_lt hpos)
  have hrecv := virtioRecvUsed_eq hsize (some 0)
  by_cases hidle : w.completions.length % 2 ^ 16 = 0
  · rw [if_pos ((usedIdx_eq_zero h).mpr hidle)] at hrecv
    rw [if_pos hidle, World.next, hrecv]
    exact ⟨rfl, rfl⟩
  · rw [if_neg (fun hzero => hidle ((usedIdx_eq_zero h).mp hzero))] at hrecv
    rw [if_neg hidle, World.next, hrecv]
    have hin : (w.completions.length - 1) / n * n < w.completions.length := by
      have hle := Nat.div_mul_le_self (w.completions.length - 1) n
      have hne : w.completions.length ≠ 0 := by
        intro hzero
        rw [hzero] at hidle
        exact hidle rfl
      omega
    have hc : atZero n w.completions = some w.completions[(w.completions.length - 1) / n * n] :=
      List.getElem?_eq_getElem hin
    have hret := (index_ret (w.q.usedId 0)).1
    refine ⟨_, { w.q with freeHead := w.q.usedId 0, freeCount := w.q.freeCount + 1 }, hc, ?_, rfl,
      rfl, ?_⟩
    · simpa using hret
    · rw [← h.seen hc]
      simp [hret]

/-- A step is right: what was received are the first completions, and a poll that
returned -1 found none that was not received. -/
def Right (e : Event) (w w' : World) : Prop :=
  w'.received <+: w'.completions ∧
    (e = .recv → (virtioRecvUsed w.q (some 0)).map (·.1) = some (-1) → w.received = w.completions)

theorem Holds.next (hpos : 1 ≤ n) (hmax : n ≤ 65535) (h : Holds n w)
    (horder : w.received <+: w.completions) {e : Event} (hnext : w.next e = some w') :
    Holds n w' ∧ (Right e w w' ↔ InTurn n e w) := by
  cases e with
  | complete id len =>
      rw [World.next] at hnext
      rcases Option.ite_none_right_eq_some.mp hnext with ⟨-, hw'⟩
      rw [Option.some.injEq] at hw'
      rw [← hw']
      refine ⟨h.complete hmax id len, iff_of_true ⟨?_, fun heq => nomatch heq⟩ trivial⟩
      exact horder.trans (List.prefix_append _ _)
  | recv =>
      have hrecv := h.recv hpos hmax
      by_cases hidle : w.completions.length % 2 ^ 16 = 0
      · -- the counter is 0: the poll returns -1
        rw [if_pos hidle] at hrecv
        rcases hrecv with ⟨hret, hsame⟩
        rw [hnext, Option.some.injEq] at hsame
        subst hsame
        refine ⟨h, ?_⟩
        simp only [Right, InTurn, if_pos hidle, hret, Option.map_some, true_imp_iff]
        exact and_iff_right horder
      · rw [if_neg hidle] at hrecv
        rcases hrecv with ⟨c, q, hc, hret, hsize, hused, hafter⟩
        rw [hnext, Option.some.injEq] at hafter
        subst hafter
        constructor
        · constructor
          · exact hsize.trans h.size
          · show Memory.load q.used 2 2 = _
            rw [hused]
            exact h.idx
          · show ∀ c, _ → Memory.load q.used 4 4 = _ ∧ Memory.load q.used 4 8 = _
            rw [hused]
            exact h.elem
        · simp only [Right, InTurn, if_neg hidle, hc, Option.map_some,
            Fifo.concat_prefix_iff horder]
          exact and_iff_left fun _ hminus => absurd hminus hret

theorem holds_reachable (hpos : 1 ≤ n) (hmax : n ≤ 65535)
    (hreach : Lts.Reachable ((system n).restrict (InTurn n)) w) :
    Holds n w ∧ w.received <+: w.completions := by
  refine hreach.invariant (I := fun w => Holds n w ∧ w.received <+: w.completions) ?_ ?_
  · rintro w ⟨q, phys, hsetup, rfl⟩
    exact ⟨holds_init hsetup, List.nil_prefix⟩
  · rintro e w w' ⟨h, horder⟩ ⟨hturn, hnext⟩
    rcases h.next hpos hmax horder hnext with ⟨h', hright⟩
    exact ⟨h', (hright.mpr hturn).1⟩

end Steps

/-- As long as every poll is made when the completion that is due is what it sees in
element 0, or when nothing is due, polls return the completions in order. The first poll
that is not breaks this. -/
theorem completions_received_if_in_turn {n : Nat} (hpos : 1 ≤ n) (hmax : n ≤ 65535) {w : World}
    (hreach : Lts.Reachable ((system n).restrict (InTurn n)) w) :
    w.received <+: w.completions ∧
    ∀ e w', (system n).Next e w w' → (Right e w w' ↔ InTurn n e w) := by
  rcases holds_reachable hpos hmax hreach with ⟨h, horder⟩
  exact ⟨horder, fun e w' hnext => (h.next hpos hmax horder hnext).2⟩

instance (n : Nat) (e : Event) (w : World) : Decidable (InTurn n e w) :=
  match e with
  | .recv => inferInstanceAs (Decidable (if w.completions.length % 2 ^ 16 = 0 then
      w.received = w.completions
    else w.completions[w.received.length]? = (atZero n w.completions).map seen))
  | .complete _ _ => inferInstanceAs (Decidable True)

/-- The queue of two descriptors before any event. -/
def two : World := ⟨twoQueue, [], []⟩

theorem two_reachable {S : Lts.System World Event} (hinit : S.Init = (system 2).Init) :
    Lts.Reachable S two := by
  apply Lts.Reachable.init
  rw [hinit]
  exact ⟨_, _, setup_twoQueue, rfl⟩

/-- One completion of descriptor 0 with nothing written is received. -/
theorem completions_received_of_one :
    ∃ w : World, w.received = [(0, 0)] ∧ w.received <+: w.completions := by
  have hrun : ([.complete 0 0, .recv].foldlM
      (fun w e => if InTurn 2 e w then World.next w e else none) two).map (fun w =>
        decide (w.received = [(0, 0)])) = some true := by
    decide +kernel
  rcases Lts.Reachable.of_test (Lts.System.restrict_next fun _ _ _ hnext => hnext)
    (two_reachable (S := (system 2).restrict (InTurn 2)) rfl) hrun with ⟨w, hreach, hreceived⟩
  exact ⟨w, hreceived, (completions_received_if_in_turn (by decide) (by decide) hreach).1⟩

/-- A completion with length 5 is received with length 5 * 65536, and a completion that
was received is received again. -/
theorem completion_garbled_or_repeated :
    (∃ w, Lts.Reachable (system 2) w ∧ w.completions = [(0, 5)] ∧ w.received = [(0, 327680)] ∧
      ¬ w.received <+: w.completions) ∧
    (∃ w, Lts.Reachable (system 2) w ∧ w.completions = [(0, 0)] ∧
      w.received = [(0, 0), (0, 0)] ∧ ¬ w.received <+: w.completions) := by
  have hgarbled : ([.complete 0 5, .recv].foldlM World.next two).map (fun w =>
      decide (w.completions = [(0, 5)] ∧ w.received = [(0, 327680)] ∧
        ¬ w.received <+: w.completions)) = some true := by
    decide +kernel
  have hrepeated : ([.complete 0 0, .recv, .recv].foldlM World.next two).map (fun w =>
      decide (w.completions = [(0, 0)] ∧ w.received = [(0, 0), (0, 0)] ∧
        ¬ w.received <+: w.completions)) = some true := by
    decide +kernel
  have hstart : Lts.Reachable (system 2) two := two_reachable rfl
  exact ⟨Lts.Reachable.of_test (fun _ _ _ hnext => hnext) hstart hgarbled,
    Lts.Reachable.of_test (fun _ _ _ hnext => hnext) hstart hrepeated⟩

end OmniOS.Virtio.Used
