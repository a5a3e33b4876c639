import Mathlib.Data.List.Nodup
import OmniOS.Kernel.Virtio
import OmniOS.Lib.Chain
import OmniOS.Lib.Lts

/-!
# OmniOS.Kernel.VirtioFree — who owns a descriptor

A descriptor is free, with the device, or completed and not yet returned by
`virtio_recv_used`. The free ones are linked through `next`.

`virtio_recv_used` puts the descriptor it returns at the head of the free list without
linking it to the rest: its `next` is what `virtio_setup_queue` wrote. So the free list
is always a tail of the descriptors, and it is the right one only while descriptors come
back in the reverse of the order they were sent in (`Stacked`). Nor does it remember
which completions it has returned.
-/

namespace OmniOS.Virtio

/-! ## Runs -/

/-- The queue, the descriptors the device has, the descriptors `virtio_recv_used` has
not returned, in the order they were sent, and how many completions there were. -/
structure World where
  q : Queue
  pending : List UInt16
  unreturned : List UInt16
  completions : Nat

inductive Event where
  | send (addr : UInt64) (len : UInt32) (flags next : UInt16)
  | complete (id : UInt16) (len : UInt32)
  | recv (len : Option UInt32)

/-- The device completes descriptors it has. -/
def World.next (w : World) : Event → Option World
  | .send addr len flags next =>
      (virtioSendDesc w.q addr len flags next).map fun r =>
        if r.1 = -1 then { w with q := r.2 }
        else
          let idx := r.1.toUInt32.toUInt16
          { w with q := r.2, pending := w.pending ++ [idx], unreturned := w.unreturned ++ [idx] }
  | .complete id len =>
      if id ∈ w.pending then
        some { w with
          q := w.q.complete w.completions id.toUInt32 len
          pending := w.pending.erase id
          completions := w.completions + 1 }
      else none
  | .recv len =>
      (virtioRecvUsed w.q len).map fun r =>
        if r.1 = -1 then { w with q := r.2.2 }
        else { w with q := r.2.2, unreturned := w.unreturned.erase r.1.toUInt32.toUInt16 }

/-- A queue that was set up with `n` descriptors. -/
def system (n : Nat) : Lts.System World Event where
  Init w := ∃ q phys, virtioSetupQueue n phys = some q ∧ w = ⟨q, [], [], 0⟩
  Next e w w' := w.next e = some w'

/-! ## Ownership -/

/-- Following `next` from `free_head` visits `free_count` descriptors, none of them with
the device or unreturned, and every descriptor is free or unreturned. -/
structure Owned (n : Nat) (w : World) : Prop where
  chain : ∃ free, Chain.Ends (fun i => (w.q.desc i.toNat).next) 0xFFFF w.q.freeHead free ∧
    free.Nodup ∧ free.length = w.q.freeCount.toNat ∧
    ∀ i ∈ free, i ∉ w.pending ∧ i ∉ w.unreturned
  total : w.q.freeCount.toNat + w.unreturned.length = n

/-- A poll that finds a completion counter other than 0 finds, in element 0 of the used
ring, the descriptor that was sent last, and the device has completed it. -/
def Lifo (e : Event) (w : World) : Prop :=
  match e with
  | .recv _ => w.q.usedIdx ≠ 0 →
      w.unreturned.getLast? = some (w.q.usedId 0) ∧ w.q.usedId 0 ∉ w.pending
  | _ => True

/-- Index `i`, or the end mark. -/
def indexOf (n i : Nat) : UInt16 := if i < n then UInt16.ofNat i else 0xFFFF

/-- The descriptors from `i` up to `j`. -/
def descs (i j : Nat) : List UInt16 := (List.range' i (j - i)).map UInt16.ofNat

/-- The free list is the descriptors from `h` on; those below are unreturned. -/
structure Stacked (n h : Nat) (w : World) : Prop where
  le : h ≤ n
  links : ∀ i < n, (w.q.desc i).next = indexOf n (i + 1)
  entries : w.q.entries = n
  size : w.q.size = UInt16.ofNat n
  head : w.q.freeHead = indexOf n h
  count : w.q.freeCount = UInt16.ofNat (n - h)
  unreturned : w.unreturned = descs 0 h
  pending : ∀ i ∈ w.pending, i ∈ w.unreturned

section Lists

variable {n i j : Nat}

theorem toNat_ofNat16 (h : i ≤ 65535) : (UInt16.ofNat i).toNat = i := by
  rw [UInt16.toNat_ofNat']
  omega

theorem indexOf_of_lt (h : i < n) : indexOf n i = UInt16.ofNat i := if_pos h

theorem mem_descs (hj : j ≤ 65535) {x : UInt16} : x ∈ descs i j ↔ i ≤ x.toNat ∧ x.toNat < j := by
  rw [descs, List.mem_map]
  constructor
  · rintro ⟨k, hk, rfl⟩
    rw [List.mem_range'_1] at hk
    rw [toNat_ofNat16 (by omega)]
    omega
  · rintro ⟨hi, hj'⟩
    refine ⟨x.toNat, ?_, ?_⟩
    · rw [List.mem_range'_1]
      omega
    · exact UInt16.ofNat_toNat

theorem nodup_descs (hj : j ≤ 65535) : (descs i j).Nodup := by
  refine List.Nodup.map_on ?_ List.nodup_range'
  intro a ha b hb heq
  rw [List.mem_range'_1] at ha hb
  have hnat := congrArg UInt16.toNat heq
  rwa [toNat_ofNat16 (by omega), toNat_ofNat16 (by omega)] at hnat

theorem length_descs : (descs i j).length = j - i := by simp [descs]

theorem descs_cons (h : i < j) : descs i j = UInt16.ofNat i :: descs (i + 1) j := by
  have hlen : j - i = j - (i + 1) + 1 := by omega
  rw [descs, hlen, List.range'_succ, List.map_cons]
  rfl

theorem descs_snoc (h : i ≤ j) : descs i (j + 1) = descs i j ++ [UInt16.ofNat j] := by
  have hlen : j + 1 - i = j - i + 1 := by omega
  have hlast : i + 1 * (j - i) = j := by omega
  rw [descs, hlen, List.range'_concat, List.map_append, hlast]
  rfl

/-- The links of `virtio_setup_queue`, followed from any descriptor. -/
theorem ends_descs {desc : Nat → Desc} (hmax : n ≤ 65535)
    (hlinks : ∀ i < n, (desc i).next = indexOf n (i + 1)) (hi : i ≤ n) :
    Chain.Ends (fun x => (desc x.toNat).next) 0xFFFF (indexOf n i) (descs i n) := by
  -- induction on the number of descriptors left
  obtain ⟨k, hk⟩ : ∃ k, n = i + k := ⟨n - i, by omega⟩
  induction k generalizing i with
  | zero =>
      have hnil : descs i n = [] := by simp [descs, hk]
      rw [hnil]
      exact if_neg (by omega)
  | succ k ih =>
      have hlt : i < n := by omega
      have hval := toNat_ofNat16 (show i ≤ 65535 by omega)
      have hne : UInt16.ofNat i ≠ 0xFFFF := by
        intro heq
        have hnat := congrArg UInt16.toNat heq
        rw [hval] at hnat
        have hmark : (0xFFFF : UInt16).toNat = 65535 := rfl
        omega
      rw [descs_cons hlt]
      refine ⟨indexOf_of_lt hlt, hne, ?_⟩
      simp only [hval, hlinks i hlt]
      exact ih hlt (by omega)

end Lists

theorem Stacked.owned {n h : Nat} {w : World} (hmax : n ≤ 65535) (hw : Stacked n h w) :
    Owned n w := by
  have hle := hw.le
  have hcount : w.q.freeCount.toNat = n - h := by
    rw [hw.count]
    exact toNat_ofNat16 (by omega)
  constructor
  · refine ⟨descs h n, ?_, nodup_descs hmax, ?_, ?_⟩
    · rw [hw.head]
      exact ends_descs hmax hw.links hle
    · rw [hcount, length_descs]
    · intro i hi
      have hout : i ∉ w.unreturned := by
        rw [hw.unreturned, mem_descs (by omega)]
        have hge := ((mem_descs hmax).mp hi).1
        omega
      exact ⟨fun hmem => hout (hw.pending i hmem), hout⟩
  · rw [hcount, hw.unreturned, length_descs]
    omega

/-! ## Steps -/

theorem linkLoop_next (k : Nat) (desc : Nat → Desc) (i : Nat) :
    ((List.range k).foldl (fun desc i => Function.update desc i
      { desc i with next := UInt16.ofNat (i + 1) }) desc i).next =
        if i < k then UInt16.ofNat (i + 1) else (desc i).next := by
  induction k with
  | zero => rfl
  | succ k ih =>
      rw [List.range_succ, List.foldl_append, List.foldl_cons, List.foldl_nil]
      by_cases hi : i = k
      · subst hi
        rw [Function.update_self, if_pos (Nat.lt_succ_self i)]
      · rw [Function.update_of_ne hi, ih]
        have hiff : i < k ↔ i < k + 1 := by omega
        simp only [hiff]

variable {n h : Nat} {w w' : World}

theorem stacked_init (hpos : 1 ≤ n) {q : Queue} {phys : UInt64}
    (hsetup : virtioSetupQueue n phys = some q) : Stacked n 0 ⟨q, [], [], 0⟩ := by
  unfold virtioSetupQueue at hsetup
  split at hsetup
  · cases hsetup
  · cases hsetup
    refine ⟨Nat.zero_le n, ?_, rfl, rfl, ?_, rfl, rfl, fun i hi => absurd hi List.not_mem_nil⟩
    · intro i hi
      by_cases hlast : i = n - 1
      · subst hlast
        have hend : ¬ n - 1 + 1 < n := by omega
        simp [indexOf, hend]
      · have hlt : i < n - 1 := by omega
        have hlt' : i + 1 < n := by omega
        simp only [Function.update_of_ne hlast, linkLoop, linkLoop_next, if_pos hlt, indexOf,
          if_pos hlt']
    · exact (indexOf_of_lt hpos).symm

/-- No descriptor is free: nothing is sent. -/
theorem Stacked.send_none (hw : Stacked n h w) (hfull : h = n) (addr : UInt64)
    (len : UInt32) (flags next : UInt16) :
    virtioSendDesc w.q addr len flags next = some (-1, w.q) := by
  have hzero : w.q.freeCount = 0 := by
    rw [hw.count, hfull, Nat.sub_self]
    rfl
  rw [virtioSendDesc, if_pos hzero]

/-- The first free descriptor is sent. -/
theorem Stacked.send (hmax : n ≤ 65535) (hw : Stacked n h w) (hroom : h < n) (addr : UInt64)
    (len : UInt32) (flags next : UInt16) :
    ∃ q, virtioSendDesc w.q addr len flags next = some (Int32.ofNat (UInt16.ofNat h).toNat, q) ∧
      Stacked n (h + 1) { w with
        q := q
        pending := w.pending ++ [UInt16.ofNat h]
        unreturned := w.unreturned ++ [UInt16.ofNat h] } := by
  have hval := toNat_ofNat16 (show h ≤ 65535 by omega)
  have hhead : w.q.freeHead = UInt16.ofNat h := hw.head.trans (indexOf_of_lt hroom)
  have hnonzero {k : Nat} (hk : 0 < k) (hk' : k ≤ 65535) : UInt16.ofNat k ≠ 0 := by
    intro heq
    have hnat := congrArg UInt16.toNat heq
    rw [toNat_ofNat16 hk'] at hnat
    exact absurd hnat (Nat.ne_of_gt hk)
  have hfree : w.q.freeCount ≠ 0 := by
    rw [hw.count]
    exact hnonzero (by omega) (by omega)
  have hsize : w.q.size ≠ 0 := by
    rw [hw.size]
    exact hnonzero (by omega) hmax
  have hidx : w.q.freeHead.toNat < w.q.entries := by
    rw [hhead, hval, hw.entries]
    exact hroom
  obtain ⟨q, hsend, hlinks, hentries, hsize', -, hfreeHead, hfreeCount⟩ :=
    virtioSendDesc_of_free hfree hidx hsize addr len flags next
  rw [hhead] at hsend
  refine ⟨q, hsend, hroom, ?_, ?_, ?_, ?_, ?_, ?_, ?_⟩
  · intro i hi
    exact (hlinks i).trans (hw.links i hi)
  · exact hentries.trans hw.entries
  · exact hsize'.trans hw.size
  · show q.freeHead = _
    rw [hfreeHead, hhead, hval]
    exact hw.links h hroom
  · show q.freeCount = _
    rw [hfreeCount, hw.count]
    apply UInt16.toNat_inj.mp
    have hone : (1 : UInt16).toNat = 1 := rfl
    have hcount := toNat_ofNat16 (show n - h ≤ 65535 by omega)
    rw [UInt16.toNat_sub_of_le, hone, hcount, toNat_ofNat16 (by omega)]
    · omega
    · rw [UInt16.le_iff_toNat_le, hone, hcount]
      omega
  · show w.unreturned ++ [UInt16.ofNat h] = _
    rw [hw.unreturned, descs_snoc (Nat.zero_le h)]
  · intro i hi
    rcases List.mem_append.mp hi with hi | hi
    · exact List.mem_append_left _ (hw.pending i hi)
    · exact List.mem_append_right _ hi

/-- The device takes a descriptor off its list and writes the used ring only. -/
theorem Stacked.complete (hw : Stacked n h w) (id : UInt16) (len : UInt32) :
    Stacked n h { w with
      q := w.q.complete w.completions id.toUInt32 len
      pending := w.pending.erase id
      completions := w.completions + 1 } where
  le := hw.le
  links := hw.links
  entries := hw.entries
  size := hw.size
  head := hw.head
  count := hw.count
  unreturned := hw.unreturned
  pending := fun i hi => hw.pending i (List.mem_of_mem_erase hi)

theorem Stacked.size_ne (hpos : 1 ≤ n) (hmax : n ≤ 65535) (hw : Stacked n h w) : w.q.size ≠ 0 := by
  rw [hw.size]
  intro heq
  have hnat := congrArg UInt16.toNat heq
  rw [toNat_ofNat16 hmax] at hnat
  exact absurd hnat (Nat.ne_of_gt hpos)

/-- The world after a poll that returned descriptor `id`. -/
def World.returned (w : World) (id : UInt16) : World :=
  { w with
    q := { w.q with freeHead := id, freeCount := w.q.freeCount + 1 }
    unreturned := w.unreturned.erase id }

theorem Stacked.recv (hpos : 1 ≤ n) (hmax : n ≤ 65535) (hw : Stacked n h w) (len : Option UInt32) :
    w.next (.recv len) = if w.q.usedIdx = 0 then some w else some (w.returned (w.q.usedId 0)) := by
  rw [World.next, virtioRecvUsed_eq (hw.size_ne hpos hmax)]
  rcases index_ret (w.q.usedId 0) with ⟨hret, hidx⟩
  by_cases hidle : w.q.usedIdx = 0
  · simp [hidle]
  · simp only [if_neg hidle, Option.map_some, if_neg hret, hidx]
    rfl

/-- The descriptor that was sent last comes back, completed. -/
theorem Stacked.pop (hmax : n ≤ 65535) (hw : Stacked n h w) {id : UInt16}
    (hlast : w.unreturned.getLast? = some id) (hdone : id ∉ w.pending) :
    Stacked n (h - 1) (w.returned id) := by
  have hle := hw.le
  rw [hw.unreturned] at hlast
  have hh : h - 1 + 1 = h := by
    have hne : h ≠ 0 := by
      rintro rfl
      cases hlast
    omega
  rw [← hh, descs_snoc (Nat.zero_le _), List.getLast?_concat, Option.some.injEq] at hlast
  have hout : id ∉ descs 0 (h - 1) := by
    rw [← hlast, mem_descs (by omega), toNat_ofNat16 (by omega)]
    omega
  have hrest : w.unreturned.erase id = descs 0 (h - 1) := by
    rw [hw.unreturned, ← hh, descs_snoc (Nat.zero_le _), hlast, Nat.add_sub_cancel,
      List.erase_append_right _ hout]
    simp
  refine ⟨by omega, hw.links, hw.entries, hw.size, ?_, ?_, hrest, ?_⟩
  · exact hlast.symm.trans (indexOf_of_lt (by omega)).symm
  · show w.q.freeCount + 1 = _
    have hmore : n - (h - 1) = n - h + 1 := by omega
    rw [hw.count, hmore]
    exact (UInt16.ofNat_add (n - h) 1).symm
  · intro i hi
    show i ∈ w.unreturned.erase id
    have hne : i ≠ id := fun heq => hdone (heq ▸ hi)
    rw [List.mem_erase_of_ne hne]
    exact hw.pending i hi

/-- Any other descriptor breaks the free list. -/
theorem Stacked.last_of_owned (hmax : n ≤ 65535) (hw : Stacked n h w) {id : UInt16}
    (howned : Owned n (w.returned id)) :
    w.unreturned.getLast? = some id ∧ id ∉ w.pending := by
  have hle := hw.le
  rcases howned with ⟨⟨free, hends, -, hlength, hfree⟩, htotal⟩
  have hcount : (w.returned id).q.freeCount.toNat = (n - h + 1) % 65536 := by
    show (w.q.freeCount + 1).toNat = _
    rw [hw.count, UInt16.toNat_add, toNat_ofNat16 (by omega)]
    rfl
  have hlen : w.unreturned.length = h := by rw [hw.unreturned, length_descs, Nat.sub_zero]
  -- the counts only agree if `id` was unreturned
  have hmem : id ∈ w.unreturned := by
    by_contra hout
    have hsame : (w.returned id).unreturned = w.unreturned := List.erase_of_not_mem hout
    rw [hcount, hsame, hlen] at htotal
    omega
  have hid := hmem
  rw [hw.unreturned, mem_descs (by omega)] at hid
  -- following `next` from `id` visits all descriptors behind it
  have hchain := ends_descs (i := id.toNat) hmax hw.links (by omega)
  rw [indexOf_of_lt (by omega), UInt16.ofNat_toNat] at hchain
  have hall : free = descs id.toNat n := hends.unique hchain
  rw [hall, length_descs, hcount] at hlength
  have hlast : id.toNat = h - 1 := by omega
  constructor
  · have hh : h = id.toNat + 1 := by omega
    rw [hw.unreturned, hh, descs_snoc (Nat.zero_le _), List.getLast?_concat, UInt16.ofNat_toNat]
  · have hfirst : id ∈ free := by
      rw [hall, mem_descs hmax]
      omega
    exact (hfree id hfirst).1

theorem Stacked.next (hpos : 1 ≤ n) (hmax : n ≤ 65535) (hw : Stacked n h w) {e : Event}
    (hnext : w.next e = some w') :
    (Lifo e w → ∃ h', Stacked n h' w') ∧ (Owned n w' → Lifo e w) := by
  cases e with
  | send addr len flags next =>
      refine ⟨fun _ => ?_, fun _ => trivial⟩
      rw [World.next] at hnext
      by_cases hroom : h < n
      · rcases hw.send hmax hroom addr len flags next with ⟨q, hsend, hstacked⟩
        rcases index_ret (UInt16.ofNat h) with ⟨hret, hidx⟩
        simp only [hsend, Option.map_some, if_neg hret, hidx, Option.some.injEq] at hnext
        exact ⟨h + 1, hnext ▸ hstacked⟩
      · have hfull : h = n := Nat.le_antisymm hw.le (Nat.le_of_not_lt hroom)
        simp only [hw.send_none hfull, Option.map_some, if_true, Option.some.injEq] at hnext
        exact ⟨h, hnext ▸ hw⟩
  | complete id len =>
      refine ⟨fun _ => ?_, fun _ => trivial⟩
      rw [World.next] at hnext
      by_cases hmem : id ∈ w.pending
      · rw [if_pos hmem, Option.some.injEq] at hnext
        exact ⟨h, hnext ▸ hw.complete id len⟩
      · rw [if_neg hmem] at hnext
        cases hnext
  | recv len =>
      rw [hw.recv hpos hmax] at hnext
      by_cases hidle : w.q.usedIdx = 0
      · rw [if_pos hidle, Option.some.injEq] at hnext
        exact ⟨fun _ => ⟨h, hnext ▸ hw⟩, fun _ hbusy => absurd hidle hbusy⟩
      · rw [if_neg hidle, Option.some.injEq] at hnext
        rw [← hnext]
        constructor
        · intro hlifo
          rcases hlifo hidle with ⟨hlast, hdone⟩
          exact ⟨h - 1, hw.pop hmax hlast hdone⟩
        · exact fun howned _ => hw.last_of_owned hmax howned

theorem stacked_reachable (hpos : 1 ≤ n) (hmax : n ≤ 65535)
    (hreach : Lts.Reachable ((system n).restrict Lifo) w) : ∃ h, Stacked n h w := by
  refine hreach.invariant (I := fun w => ∃ h, Stacked n h w) ?_ ?_
  · rintro w ⟨q, phys, hsetup, rfl⟩
    exact ⟨0, stacked_init hpos hsetup⟩
  · rintro e w w' ⟨h, hw⟩ ⟨hlifo, hnext⟩
    exact (hw.next hpos hmax hnext).1 hlifo

/-- As long as every poll returns the descriptor that was sent last, and the device has
completed it, every descriptor is owned once, and what `virtio_send_desc` hands out is
neither with the device nor unreturned. A poll that finds anything else breaks this. -/
theorem descriptors_owned_if_lifo (hpos : 1 ≤ n) (hmax : n ≤ 65535)
    (hreach : Lts.Reachable ((system n).restrict Lifo) w) :
    Owned n w ∧
    (∀ addr len flags next, ∃ ret q, virtioSendDesc w.q addr len flags next = some (ret, q) ∧
      (ret = -1 ∨ ∃ idx : UInt16, ret = Int32.ofNat idx.toNat ∧
        idx ∉ w.pending ∧ idx ∉ w.unreturned)) ∧
    ∀ e w', (system n).Next e w w' → (Owned n w' ↔ Lifo e w) := by
  rcases stacked_reachable hpos hmax hreach with ⟨h, hw⟩
  refine ⟨hw.owned hmax, ?_, ?_⟩
  · intro addr len flags next
    by_cases hroom : h < n
    · rcases hw.send hmax hroom addr len flags next with ⟨q, hsend, -⟩
      refine ⟨_, q, hsend, Or.inr ⟨UInt16.ofNat h, rfl, ?_⟩⟩
      have hout : UInt16.ofNat h ∉ w.unreturned := by
        rw [hw.unreturned, mem_descs (by omega), toNat_ofNat16 (by omega)]
        omega
      exact ⟨fun hmem => hout (hw.pending _ hmem), hout⟩
    · have hfull : h = n := Nat.le_antisymm hw.le (Nat.le_of_not_lt hroom)
      exact ⟨_, _, hw.send_none hfull addr len flags next, Or.inl rfl⟩
  · intro e w' hnext
    rcases hw.next hpos hmax hnext with ⟨hkeep, hbreak⟩
    constructor
    · exact hbreak
    · intro hlifo
      rcases hkeep hlifo with ⟨h', hw'⟩
      exact hw'.owned hmax

/-- The queue of two descriptors before any event. -/
def two : World := ⟨twoQueue, [], [], 0⟩

theorem two_reachable {S : Lts.System World Event} (hinit : S.Init = (system 2).Init) :
    Lts.Reachable S two := by
  apply Lts.Reachable.init
  rw [hinit]
  exact ⟨_, _, setup_twoQueue, rfl⟩

instance (e : Event) (w : World) : Decidable (Lifo e w) :=
  match e with
  | .recv _ => inferInstanceAs (Decidable (_ → _ ∧ _))
  | .send _ _ _ _ => inferInstanceAs (Decidable True)
  | .complete _ _ => inferInstanceAs (Decidable True)

/-- One descriptor is sent, completed and returned: both are free again. -/
theorem descriptors_owned_of_one :
    ∃ w, Owned 2 w ∧ w.completions = 1 ∧ w.unreturned = [] := by
  have hrun : ([.send 0x2000 64 0 0, .complete 0 64, .recv none].foldlM
      (fun w e => if Lifo e w then World.next w e else none) two).map (fun w =>
        decide (w.completions = 1 ∧ w.unreturned = [])) = some true := by
    decide +kernel
  rcases Lts.Reachable.of_test (Lts.System.restrict_next fun _ _ _ hnext => hnext)
    (two_reachable (S := (system 2).restrict Lifo) rfl) hrun with ⟨w, hreach, hfacts⟩
  exact ⟨w, (descriptors_owned_if_lifo (by decide) (by decide) hreach).1, hfacts⟩

/-- The free list goes through a descriptor the device has. -/
theorem not_owned_of_link (hhead : w.q.freeHead = 0) (hlink : (w.q.desc 0).next = 1)
    (hpending : 1 ∈ w.pending) : ¬ Owned n w := by
  rintro ⟨⟨free, hends, -, -, hfree⟩, -⟩
  rw [hhead] at hends
  cases free with
  | nil => exact absurd hends (show (0 : UInt16) ≠ 0xFFFF by decide)
  | cons x free =>
      rcases hends with ⟨rfl, -, hends⟩
      have hnext : (w.q.desc (0 : UInt16).toNat).next = 1 := hlink
      simp only [hnext] at hends
      cases free with
      | nil => exact absurd hends (show (1 : UInt16) ≠ 0xFFFF by decide)
      | cons y free =>
          rcases hends with ⟨rfl, -, -⟩
          exact (hfree 1 (by simp)).1 hpending

/-- Both descriptors are sent and the first is completed. One poll puts it back with the
second behind it; after another poll, which returns it again, `virtio_send_desc` hands out
the second, which the device still has. -/
theorem descriptor_reused_in_flight :
    (∃ w, Lts.Reachable (system 2) w ∧ ¬ Owned 2 w) ∧
    (∃ w, Lts.Reachable (system 2) w ∧ 1 ∈ w.pending ∧
      (virtioSendDesc w.q 0x2000 64 0 0).map (·.1) = some 1) := by
  have hpoll : ([.send 0x2000 64 0 0, .send 0x3000 64 0 0, .complete 0 64,
      .recv none].foldlM World.next two).map (fun w => decide (w.q.freeHead = 0 ∧
        (w.q.desc 0).next = 1 ∧ 1 ∈ w.pending)) = some true := by
    decide +kernel
  have hagain : ([.send 0x2000 64 0 0, .send 0x3000 64 0 0, .complete 0 64,
      .recv none, .recv none, .send 0x2000 64 0 0].foldlM World.next two).map (fun w =>
        decide (1 ∈ w.pending ∧ (virtioSendDesc w.q 0x2000 64 0 0).map (·.1) = some 1)) =
      some true := by
    decide +kernel
  have hstart : Lts.Reachable (system 2) two := two_reachable rfl
  rcases Lts.Reachable.of_test (fun _ _ _ hnext => hnext) hstart hpoll with
    ⟨w, hreach, hhead, hlink, hpending⟩
  exact ⟨⟨w, hreach, not_owned_of_link hhead hlink hpending⟩,
    Lts.Reachable.of_test (fun _ _ _ hnext => hnext) hstart hagain⟩

end OmniOS.Virtio
