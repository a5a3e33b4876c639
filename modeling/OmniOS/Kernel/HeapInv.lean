import Mathlib.Data.List.Chain
import OmniOS.Lib.Chain
import OmniOS.Kernel.HeapBlocks

/-!
# OmniOS.Kernel.HeapInv — the heap keeps its block list over every run

`Rep buf c bs` ties a configuration to a block list: the list tiles the
buffer, the headers spell it, no two neighbours are free, and the used blocks
are the live pointers. Each call is described once on block lists
(`kmalloc_cases`, `kfree_rep`), and `rep_of_reachable` is the induction over
runs. `heap_invariant` restates the result on the memory itself.
-/

namespace OmniOS.Heap

open Memory

/-- The payload addresses of the used blocks. -/
def payloads (bs : List Block) : List Nat :=
  (bs.filter fun b => !b.free).map fun b => b.addr + HDR

def usedBlocks (bs : List Block) : List Block := bs.filter fun b => !b.free

/-- The block list a configuration stands for. -/
structure Rep (buf : Buffer) (c : Conf) (bs : List Block) : Prop where
  first : c.heap.heapFirst = buf.addr
  tiles : Tiles buf.addr bs (buf.addr + HEAP_SIZE)
  linked : Linked c.heap.mem 0 bs 0
  noAdj : NoAdjFree bs
  live : c.live.Perm (payloads bs)

@[simp] theorem payloads_nil : payloads [] = [] := rfl

@[simp] theorem payloads_append (xs ys : List Block) :
    payloads (xs ++ ys) = payloads xs ++ payloads ys := by
  simp [payloads]

@[simp] theorem payloads_cons (b : Block) (bs : List Block) :
    payloads (b :: bs) = if b.free then payloads bs else (b.addr + HDR) :: payloads bs := by
  cases hb : b.free <;> simp [payloads, hb]

@[simp] theorem usedBlocks_nil : usedBlocks [] = [] := rfl

@[simp] theorem usedBlocks_append (xs ys : List Block) :
    usedBlocks (xs ++ ys) = usedBlocks xs ++ usedBlocks ys := List.filter_append ..

@[simp] theorem usedBlocks_cons (b : Block) (bs : List Block) :
    usedBlocks (b :: bs) = if b.free then usedBlocks bs else b :: usedBlocks bs := by
  cases hb : b.free <;> simp [usedBlocks, hb]

theorem payloads_of_usedBlocks {bs xs ys : List Block}
    (h : usedBlocks bs = usedBlocks xs ++ usedBlocks ys) :
    payloads bs = payloads xs ++ payloads ys := by
  show (usedBlocks bs).map _ = _
  rw [h, List.map_append]
  rfl

theorem mem_payloads {p : Nat} {bs : List Block} :
    p ∈ payloads bs ↔ ∃ b ∈ bs, b.free = false ∧ p = b.addr + HDR := by
  simp only [payloads, List.mem_map, List.mem_filter, Bool.not_eq_true']
  constructor
  · rintro ⟨b, ⟨hb, hf⟩, rfl⟩
    exact ⟨b, hb, hf, rfl⟩
  · rintro ⟨b, hb, hf, rfl⟩
    exact ⟨b, ⟨hb, hf⟩, rfl⟩

/-! ## Free neighbours -/

theorem noAdjFree_split {xs ys : List Block} {b : Block}
    (h : NoAdjFree (xs ++ b :: ys)) :
    NoAdjFree xs ∧ NoAdjFree ys ∧
      (b.free = true → (∀ x ∈ xs.getLast?, x.free = false) ∧ ∀ y ∈ ys.head?, y.free = false) := by
  obtain ⟨hxs, hb, hseam⟩ := List.isChain_append.mp h
  obtain ⟨hhead, hys⟩ := List.isChain_cons.mp hb
  refine ⟨hxs, hys, fun hf => ⟨fun x hx => ?_, fun y hy => ?_⟩⟩
  · have hxb := hseam x hx b rfl
    simpa [hf] using hxb
  · have hby := hhead y hy
    simpa [hf] using hby

theorem noAdjFree_of_split {xs ys : List Block} {b : Block}
    (hxs : NoAdjFree xs) (hys : NoAdjFree ys)
    (hlast : ∀ x ∈ xs.getLast?, x.free = false)
    (hhead : ∀ y ∈ ys.head?, y.free = false) : NoAdjFree (xs ++ b :: ys) := by
  refine List.isChain_append.mpr ⟨hxs, List.isChain_cons.mpr ⟨fun y hy => ?_, hys⟩, ?_⟩
  · simp [hhead y hy]
  · intro x hx y _
    simp [hlast x hx]

/-- A used block may stand anywhere. -/
theorem noAdjFree_of_used {xs ys : List Block} {b : Block}
    (hxs : NoAdjFree xs) (hys : NoAdjFree ys) (hb : b.free = false) :
    NoAdjFree (xs ++ b :: ys) := by
  refine List.isChain_append.mpr ⟨hxs, List.isChain_cons.mpr ⟨fun y _ => ?_, hys⟩, ?_⟩
  · simp [hb]
  · intro x _ y hy
    have : y = b := by simpa using hy.symm
    simp [this, hb]

/-! ## kmalloc -/

/-- The block is free and large enough. -/
def fits (sz : Nat) (b : Block) : Bool := b.free && decide (sz ≤ b.size)

/-- The search ends, and stops at the first block that fits. -/
theorem findFree_eq {m : Mem} {p a e sz : Nat} {bs : List Block}
    (h : Linked m p bs 0) (ht : Tiles a bs e) (ha : 0 < a) {fuel : Nat}
    (hfuel : bs.length < fuel) :
    findFree m sz fuel (headAddr bs 0) = some (((bs.find? (fits sz)).map Block.addr).getD 0) := by
  induction bs generalizing p a fuel with
  | nil =>
      obtain ⟨fuel, rfl⟩ := Nat.exists_eq_succ_of_ne_zero (Nat.ne_of_gt hfuel)
      rfl
  | cons b bs ih =>
      obtain ⟨fuel, rfl⟩ := Nat.exists_eq_succ_of_ne_zero (Nat.ne_zero_of_lt hfuel)
      have hba : b.addr = a := ht.1
      have hne : b.addr ≠ 0 := by omega
      have hunfold : findFree m sz (fuel + 1) b.addr =
          if b.free ∧ sz ≤ b.size then some b.addr
          else findFree m sz fuel (headAddr bs 0) := by
        rw [findFree, if_neg hne, h.1.free, h.1.size, h.1.next]
      simp only [headAddr]
      rw [hunfold]
      by_cases hfit : b.free ∧ sz ≤ b.size
      · have hfits : fits sz b = true := by simp [fits, hfit]
        rw [if_pos hfit, List.find?_cons_of_pos hfits]
        rfl
      · -- the block does not fit: the loop goes on behind it
        have hfits : ¬ fits sz b = true := by simpa [fits] using hfit
        have hlen : bs.length < fuel := by
          simp only [List.length_cons] at hfuel
          omega
        rw [if_neg hfit, List.find?_cons_of_neg hfits]
        exact ih h.2 ht.2 (by omega) hlen

section Calls

variable {buf : Buffer} {c : Conf} {bs : List Block}

theorem Rep.length_lt (h : Rep buf c bs) : bs.length < HEAP_SIZE := by
  have hS : HEAP_SIZE = 67108864 := rfl
  have hle := h.tiles.le
  rw [HDR_eq] at hle
  omega

theorem Rep.size_le (h : Rep buf c bs) {b : Block} (hb : b ∈ bs) :
    b.size ≤ HEAP_SIZE := by
  have hbd := h.tiles.bounds hb
  omega

theorem Rep.size_eq (h : Rep buf c bs) {b : Block} (hb : b ∈ bs) :
    size c.heap.mem (b.addr + HDR - HDR) = b.size := by
  rw [Nat.add_sub_cancel]
  exact (h.linked.mem hb).1

theorem Rep.ne_nil (h : Rep buf c bs) : bs ≠ [] := by
  rintro rfl
  have hend : buf.addr = buf.addr + HEAP_SIZE := h.tiles
  have hS : HEAP_SIZE = 67108864 := rfl
  omega

/-- `kmalloc` hands out the first free block that is large enough. -/
theorem kmalloc_find (h : Rep buf c bs) {n : UInt64} (hn : n ≠ 0) :
    kmalloc c.heap n = some (match bs.find? (fits (roundSize n)) with
      | none => (0, c.heap)
      | some b => (b.addr + HDR, { c.heap with
          mem := allocateMem c.heap.mem b.addr (roundSize n),
          heapAllocs := c.heap.heapAllocs + 1 })) := by
  have hpos := buf.pos
  -- the heap is set up, so the search starts at the first block of the list
  have hfirst : c.heap.heapFirst ≠ 0 := by
    rw [h.first]
    omega
  have hsearch : findFree c.heap.mem (roundSize n) HEAP_SIZE c.heap.heapFirst =
      some (((bs.find? (fits (roundSize n))).map Block.addr).getD 0) := by
    rw [h.first, ← h.tiles.headAddr (q := 0) h.ne_nil]
    exact findFree_eq h.linked h.tiles hpos h.length_lt
  rw [kmalloc, if_neg hn, if_neg hfirst]
  dsimp only
  rw [hsearch, Option.map_some]
  cases hfind : bs.find? (fits (roundSize n)) with
  | none => rfl
  | some b =>
      have hba : buf.addr ≤ b.addr := (h.tiles.bounds (List.mem_of_find?_eq_some hfind)).1
      rw [Option.map_some, Option.getD_some, if_neg (by omega)]
      rfl

/-- What `kmalloc` can do: refuse and change nothing, or hand out the first
free block that is large enough. -/
theorem kmalloc_cases (h : Rep buf c bs) (n : UInt64) :
    kmalloc c.heap n = some (0, c.heap) ∨
      ∃ xs b ys, bs = xs ++ b :: ys ∧ b.free = true ∧ roundSize n ≤ b.size ∧
        kmalloc c.heap n = some (b.addr + HDR,
          { c.heap with mem := allocateMem c.heap.mem b.addr (roundSize n),
                        heapAllocs := c.heap.heapAllocs + 1 }) := by
  by_cases hn : n = 0
  · exact Or.inl (by rw [kmalloc, if_pos hn])
  rw [kmalloc_find h hn]
  cases hfind : bs.find? (fits (roundSize n)) with
  | none => exact Or.inl rfl
  | some b =>
      right
      obtain ⟨xs, ys, hbs⟩ := List.append_of_mem (List.mem_of_find?_eq_some hfind)
      have hfits : fits (roundSize n) b = true := List.find?_some hfind
      simp only [fits, Bool.and_eq_true, decide_eq_true_eq] at hfits
      exact ⟨xs, b, ys, hbs, hfits.1, hfits.2, rfl⟩

/-- The list after a block has been handed out. -/
theorem Rep.allocate {xs ys : List Block} {b : Block} (h : Rep buf c (xs ++ b :: ys))
    (hf : b.free = true) {sz : Nat} (hsz : sz ≤ b.size) (k : UInt32) :
    Rep buf { heap := { c.heap with mem := allocateMem c.heap.mem b.addr sz, heapAllocs := k },
              live := (b.addr + HDR) :: c.live } (xs ++ (allocated b sz ++ ys)) := by
  have hbs : b.size ≤ HEAP_SIZE := h.size_le (by simp)
  obtain ⟨hxs, hys, hnb⟩ := noAdjFree_split h.noAdj
  refine ⟨h.first, tiles_allocated h.tiles, linked_allocate h.linked h.tiles buf.fits hbs hsz,
    ?_, ?_⟩
  · -- the used part may stand next to anything; the rest kept its right neighbour
    unfold allocated
    split
    · apply noAdjFree_of_used hxs _ rfl
      show NoAdjFree ([] ++ _ :: ys)
      exact noAdjFree_of_split List.isChain_nil hys (by simp) (hnb hf).2
    · exact noAdjFree_of_used hxs hys rfl
  · -- one payload more: that of the block just handed out
    have hold : payloads (xs ++ b :: ys) = payloads xs ++ payloads ys := by simp [hf]
    have hnew : payloads (xs ++ (allocated b sz ++ ys)) =
        payloads xs ++ (b.addr + HDR) :: payloads ys := by
      unfold allocated
      split <;> simp
    rw [hnew]
    have hlive := h.live
    rw [hold] at hlive
    exact (hlive.cons _).trans List.perm_middle.symm

/-! ## kfree -/

theorem Rep.release {xs ys : List Block} {b : Block} {m : Mem} {a e : Nat}
    (h : Linked m 0 (xs ++ b :: ys) 0) (ht : Tiles a (xs ++ b :: ys) e) :
    Linked (setFree m b.addr true) 0 (xs ++ ⟨b.addr, b.size, true⟩ :: ys) 0 := by
  obtain ⟨hxs, hb, hys⟩ := linked_append.mp h
  obtain ⟨htxs, htys⟩ := ht.split
  refine linked_append.mpr ⟨?_, hb.setFree, ?_⟩
  · exact hxs.frame_below htxs fun x hx => setFree_apply (.inl hx)
  · exact hys.frame_above htys fun x hx => setFree_apply (.inr (by omega))

/-- The block list after "coalesce with next block": the merged block and what
follows it. -/
def mergeNext (b : Block) : List Block → Block × List Block
  | [] => (b, [])
  | y :: ys =>
      if y.free then (⟨b.addr, b.size + HDR + y.size, b.free⟩, ys) else (b, y :: ys)

/-- "Coalesce with next block" leaves memory as it is or merges with the right neighbour. -/
theorem coalesceNext_cases {m : Mem} {p e : Nat} {ys : List Block} {b : Block}
    (h : Linked m p (b :: ys) 0) (ht : Tiles (b.addr + HDR + b.size) ys e) (he : e < 2 ^ 64) :
    (mergeNext b ys = (b, ys) ∧ coalesceNext m b.addr = m) ∨
    ∃ y zs, ys = y :: zs ∧
      mergeNext b ys = (⟨b.addr, b.size + HDR + y.size, b.free⟩, zs) ∧
      coalesceNext m b.addr = mergeMem m b.addr (headAddr zs 0) (b.size + HDR + y.size) := by
  cases ys with
  | nil =>
      -- the last block: `next` is NULL
      left
      refine ⟨rfl, ?_⟩
      rw [coalesceNext, h.1.next]
      exact if_neg fun hc => hc.1 rfl
  | cons y ys =>
      obtain ⟨hb, hy, -⟩ := h
      obtain ⟨hya, htys⟩ := ht
      by_cases hf : y.free = true
      · right
        have hend := htys.le
        refine ⟨y, ys, rfl, by simp only [mergeNext, hf, if_true], ?_⟩
        exact coalesceNext_eq hb hy hya (by omega) hf
      · -- the right neighbour is in use
        left
        refine ⟨by simp only [mergeNext, hf]; rfl, ?_⟩
        rw [coalesceNext, hb.next]
        refine if_neg fun hc => hf ?_
        rw [← hy.free]
        exact hc.2

theorem linked_coalesceNext {m : Mem} {a e : Nat} {xs ys : List Block} {b : Block}
    (h : Linked m 0 (xs ++ b :: ys) 0) (ht : Tiles a (xs ++ b :: ys) e)
    (he : e < 2 ^ 64) :
    Linked (coalesceNext m b.addr) 0 (xs ++ (mergeNext b ys).1 :: (mergeNext b ys).2) 0 ∧
      Tiles a (xs ++ (mergeNext b ys).1 :: (mergeNext b ys).2) e := by
  rcases coalesceNext_cases (linked_append.mp h).2 ht.split.2 he with
    ⟨hlist, hmem⟩ | ⟨y, zs, rfl, hlist, hmem⟩
  · rw [hlist, hmem]
    exact ⟨h, ht⟩
  · rw [hlist, hmem]
    exact ⟨linked_merge h ht he, tiles_merge ht⟩

/-- The merge writes headers of the list only, and leaves no header where there was none. -/
theorem coalesceNext_apply {m : Mem} {a e x : Nat} {xs ys : List Block} {b : Block}
    (h : Linked m 0 (xs ++ b :: ys) 0) (ht : Tiles a (xs ++ b :: ys) e)
    (he : e < 2 ^ 64) (hx : OutsideHeaders (xs ++ b :: ys) x) :
    coalesceNext m b.addr x = m x ∧
      OutsideHeaders (xs ++ (mergeNext b ys).1 :: (mergeNext b ys).2) x := by
  rcases coalesceNext_cases (linked_append.mp h).2 ht.split.2 he with
    ⟨hlist, hmem⟩ | ⟨y, zs, rfl, hlist, hmem⟩
  · rw [hlist, hmem]
    exact ⟨rfl, hx⟩
  · have hb : x < b.addr ∨ b.addr + HDR ≤ x := hx b (by simp)
    rw [hlist, hmem]
    refine ⟨mergeMem_apply hb fun c hc => hx c (by simp [hc]), ?_⟩
    intro c hc
    simp only [List.mem_append, List.mem_cons] at hc
    rcases hc with hc | rfl | hc
    · exact hx c (by simp [hc])
    · exact hb
    · exact hx c (by simp [hc])

theorem mergeNext_free (b : Block) (ys : List Block) :
    (mergeNext b ys).1.free = b.free ∧ (mergeNext b ys).1.addr = b.addr := by
  cases ys with
  | nil => exact ⟨rfl, rfl⟩
  | cons y ys =>
      simp only [mergeNext]
      split <;> exact ⟨rfl, rfl⟩

theorem usedBlocks_mergeNext (b : Block) (ys : List Block) :
    usedBlocks (mergeNext b ys).2 = usedBlocks ys := by
  cases ys with
  | nil => rfl
  | cons y ys =>
      simp only [mergeNext]
      split
      · next hf => simp [hf]
      · rfl

/-- Nothing free is left to the right of the merged block. -/
theorem noAdjFree_mergeNext {b : Block} {ys : List Block} (h : NoAdjFree ys) :
    NoAdjFree (mergeNext b ys).2 ∧ ∀ y ∈ (mergeNext b ys).2.head?, y.free = false := by
  cases ys with
  | nil => exact ⟨h, by simp [mergeNext]⟩
  | cons y ys =>
      have hsplit : NoAdjFree ([] ++ y :: ys) := h
      obtain ⟨-, hys, hnext⟩ := noAdjFree_split hsplit
      simp only [mergeNext]
      split
      · next hf => exact ⟨hys, (hnext hf).2⟩
      · next hf =>
          refine ⟨h, fun z hz => ?_⟩
          have : z = y := by simpa using hz.symm
          simpa [this] using hf

/-- "Coalesce with prev block" leaves memory as it is or merges into a free left neighbour. -/
theorem coalescePrev_cases {m : Mem} {a e : Nat} {xs ys : List Block} {b : Block}
    (h : Linked m 0 (xs ++ b :: ys) 0) (ht : Tiles a (xs ++ b :: ys) e)
    (ha : 0 < a) (he : e < 2 ^ 64) :
    ((∀ x ∈ xs.getLast?, x.free = false) ∧ coalescePrev m b.addr = m) ∨
    ∃ ws x, xs = ws ++ [x] ∧ x.free = true ∧
      coalescePrev m b.addr = mergeMem m x.addr (headAddr ys 0) (x.size + HDR + b.size) := by
  rcases List.eq_nil_or_concat xs with rfl | ⟨ws, x, rfl⟩
  · -- no left neighbour: `prev` is NULL
    left
    refine ⟨by simp, ?_⟩
    have hb := h.1
    rw [coalescePrev, hb.prev]
    exact if_neg fun hc => hc.1 rfl
  · simp only [List.concat_eq_append, List.append_assoc, List.singleton_append] at h ht ⊢
    obtain ⟨-, hx, hb, -⟩ := linked_append.mp h
    obtain ⟨htxs, hba, htys⟩ := ht.split
    have hxa : a ≤ x.addr := (ht.bounds (by simp)).1
    by_cases hf : x.free = true
    · right
      have hend := htys.le
      exact ⟨ws, x, rfl, hf, coalescePrev_eq hx hb hba (by omega) hf (by omega)⟩
    · -- the left neighbour is in use
      left
      refine ⟨fun y hy => ?_, ?_⟩
      · have hyx : y = x := by simpa using hy.symm
        simpa [hyx] using hf
      · rw [coalescePrev, hb.prev]
        refine if_neg fun hc => hf ?_
        rw [← hx.free]
        exact hc.2

/-- The free block `b` joins a free left neighbour, after which no two neighbours are free. -/
theorem linked_coalescePrev {m : Mem} {a e : Nat} {xs ys : List Block} {b : Block}
    (h : Linked m 0 (xs ++ b :: ys) 0) (ht : Tiles a (xs ++ b :: ys) e)
    (ha : 0 < a) (he : e < 2 ^ 64) (hbf : b.free = true)
    (hxs : NoAdjFree xs) (hys : NoAdjFree ys) (hhead : ∀ y ∈ ys.head?, y.free = false) :
    ∃ bs', Linked (coalescePrev m b.addr) 0 bs' 0 ∧ Tiles a bs' e ∧ NoAdjFree bs' ∧
      usedBlocks bs' = usedBlocks xs ++ usedBlocks ys := by
  rcases coalescePrev_cases h ht ha he with ⟨hlast, hmem⟩ | ⟨ws, x, rfl, hf, hmem⟩
  · rw [hmem]
    exact ⟨_, h, ht, noAdjFree_of_split hxs hys hlast hhead, by simp [hbf]⟩
  · -- the left neighbour takes `b` in; its own left neighbour is in use
    simp only [List.append_assoc, List.singleton_append] at h ht
    obtain ⟨hws, -, hlast⟩ := noAdjFree_split hxs
    rw [hmem]
    refine ⟨_, linked_merge h ht he, tiles_merge ht, ?_, by simp [hf]⟩
    exact noAdjFree_of_split hws hys (hlast hf).1 hhead

theorem coalescePrev_apply {m : Mem} {a e x : Nat} {xs ys : List Block} {b : Block}
    (h : Linked m 0 (xs ++ b :: ys) 0) (ht : Tiles a (xs ++ b :: ys) e)
    (ha : 0 < a) (he : e < 2 ^ 64) (hx : OutsideHeaders (xs ++ b :: ys) x) :
    coalescePrev m b.addr x = m x := by
  rcases coalescePrev_cases h ht ha he with ⟨-, hmem⟩ | ⟨ws, y, rfl, -, hmem⟩
  · rw [hmem]
  · rw [hmem]
    exact mergeMem_apply (hx y (by simp)) fun c hc => hx c (by simp [hc])

/-- Freeing the payload of a used block: the other used blocks stay, and only headers are
written. -/
theorem kfree_spec {xs ys : List Block} {b : Block} (h : Rep buf c (xs ++ b :: ys))
    (hf : b.free = false) :
    ∃ bs', Rep buf { heap := kfree c.heap (b.addr + HDR),
                     live := c.live.erase (b.addr + HDR) } bs' ∧
      usedBlocks bs' = usedBlocks xs ++ usedBlocks ys ∧
      ∀ x, OutsideHeaders (xs ++ b :: ys) x →
        (kfree c.heap (b.addr + HDR)).mem x = c.heap.mem x := by
  have hH := HDR_eq
  have hpos := buf.pos
  have hhdr := (linked_append.mp h.linked).2.1
  obtain ⟨hnxs, hnys, -⟩ := noAdjFree_split h.noAdj
  -- mark free, then merge right, then merge left
  have h₁ := Rep.release h.linked h.tiles
  have ht₁ : Tiles buf.addr (xs ++ ⟨b.addr, b.size, true⟩ :: ys) (buf.addr + HEAP_SIZE) := by
    obtain ⟨htxs, htys⟩ := h.tiles.split
    exact Tiles.of_split (b := ⟨b.addr, b.size, true⟩) htxs htys
  obtain ⟨h₂, ht₂⟩ := linked_coalesceNext h₁ ht₁ buf.fits
  obtain ⟨hmf, hma⟩ := mergeNext_free ⟨b.addr, b.size, true⟩ ys
  obtain ⟨hnm, hhead⟩ := noAdjFree_mergeNext (b := ⟨b.addr, b.size, true⟩) hnys
  obtain ⟨bs', h₃, ht₃, hn₃, hu₃⟩ := linked_coalescePrev h₂ ht₂ hpos buf.fits hmf hnxs hnm hhead
  have hkeep₃ := fun x => coalescePrev_apply (x := x) h₂ ht₂ hpos buf.fits
  rw [hma] at h₃
  simp only [hma] at hkeep₃
  dsimp only at h₃ hkeep₃
  rw [usedBlocks_mergeNext] at hu₃
  have hcall : kfree c.heap (b.addr + HDR) = { c.heap with
      mem := coalescePrev (coalesceNext (setFree c.heap.mem b.addr true) b.addr) b.addr,
      heapFrees := c.heap.heapFrees + 1 } := by
    have hsub : b.addr + HDR - HDR = b.addr := by omega
    rw [kfree, if_neg (by omega), hsub, if_neg (not_not_intro hhdr.magic)]
  refine ⟨bs', ?_, hu₃, fun x hx => ?_⟩
  · rw [hcall]
    refine ⟨h.first, ht₃, ?_, hn₃, ?_⟩
    · dsimp only
      exact h₃
    · have hlive : c.live.Perm (payloads xs ++ (b.addr + HDR) :: payloads ys) := by
        simpa [hf] using h.live
      have herase := (hlive.trans List.perm_middle).erase (b.addr + HDR)
      rw [List.erase_cons_head] at herase
      rw [payloads_of_usedBlocks hu₃]
      exact herase
  · have hx₁ : OutsideHeaders (xs ++ ⟨b.addr, b.size, true⟩ :: ys) x := by
      intro d hd
      simp only [List.mem_append, List.mem_cons] at hd
      rcases hd with hd | rfl | hd
      · exact hx d (by simp [hd])
      · exact hx b (by simp)
      · exact hx d (by simp [hd])
    obtain ⟨hnext, hx₂⟩ := coalesceNext_apply h₁ ht₁ buf.fits hx₁
    rw [hcall]
    dsimp only at hnext ⊢
    rw [hkeep₃ x hx₂, hnext, setFree_apply (hx b (by simp))]

/-- The blocks of the live pointers. -/
theorem Rep.block_of_live (h : Rep buf c bs) {p : Nat} (hp : p ∈ c.live) :
    ∃ b ∈ bs, b.free = false ∧ p = b.addr + HDR :=
  mem_payloads.mp (h.live.mem_iff.mp hp)

/-- Freeing a live pointer. -/
theorem kfree_rep (h : Rep buf c bs) {p : Nat} (hp : p ∈ c.live) :
    ∃ bs', Rep buf { heap := kfree c.heap p, live := c.live.erase p } bs' := by
  obtain ⟨b, hb, hf, rfl⟩ := h.block_of_live hp
  obtain ⟨xs, ys, rfl⟩ := List.append_of_mem hb
  obtain ⟨bs', hrep, -⟩ := kfree_spec h hf
  exact ⟨bs', hrep⟩

/-- No live pointer is NULL. -/
theorem Rep.zero_notMem (h : Rep buf c bs) : 0 ∉ c.live := by
  intro hmem
  obtain ⟨b, -, -, hb⟩ := h.block_of_live hmem
  have hH := HDR_eq
  omega

/-- Writes into the payload of a block reach no header. -/
theorem Rep.frame (h : Rep buf c bs) {b : Block} (hb : b ∈ bs) {m : Mem}
    (hm : ∀ x, x < b.addr + HDR ∨ b.addr + HDR + b.size ≤ x → m x = c.heap.mem x) :
    Rep buf { c with heap := { c.heap with mem := m } } bs := by
  refine ⟨h.first, h.tiles, h.linked.frame fun e he x hx hx' => hm x ?_, h.noAdj, h.live⟩
  -- a byte of the payload would lie in the header of `e`
  by_contra hin
  have hout := h.tiles.outsideHeaders hb (x := x) (by omega) e he
  omega

/-- A caller's write stays inside one payload and reaches no header. -/
theorem write_rep (h : Rep buf c bs) {p x : Nat} {v : UInt8} (hp : p ∈ c.live)
    (hx : p ≤ x ∧ x < p + size c.heap.mem (p - HDR)) :
    Rep buf { c with heap := { c.heap with mem := store c.heap.mem 1 x v.toNat } } bs := by
  obtain ⟨b, hb, -, rfl⟩ := h.block_of_live hp
  rw [h.size_eq hb] at hx
  exact h.frame hb fun y hy => store_apply_of_notMem _ (by omega)

/-! ## Every run -/

theorem step_rep {call : Call} {c' : Conf} (h : Rep buf c bs)
    (hnext : Next call c c') : ∃ bs', Rep buf c' bs' := by
  have hH := HDR_eq
  cases call with
  | kmalloc n =>
      obtain ⟨p, s, hcall, rfl⟩ := hnext
      rcases kmalloc_cases h n with hnone | ⟨xs, b, ys, rfl, hf, hsz, hsome⟩
      · obtain ⟨rfl, rfl⟩ := Prod.mk.inj (Option.some.inj (hcall.symm.trans hnone))
        exact ⟨bs, h⟩
      · obtain ⟨rfl, rfl⟩ := Prod.mk.inj (Option.some.inj (hcall.symm.trans hsome))
        rw [if_neg (by omega)]
        exact ⟨_, h.allocate hf hsz _⟩
  | kfree p =>
      obtain ⟨hp, rfl⟩ := hnext
      by_cases h0 : p = 0
      · -- `kfree(NULL)` does nothing
        subst h0
        rw [List.erase_of_not_mem h.zero_notMem]
        exact ⟨bs, h⟩
      · exact kfree_rep h (hp.resolve_left h0)
  | write x v =>
      obtain ⟨⟨p, hp, hx⟩, rfl⟩ := hnext
      exact ⟨bs, write_rep h hp hx⟩

end Calls

/-- The configuration `mm_init` builds: one free block. -/
theorem init_rep {buf : Buffer} {c : Conf} (h : (system buf).Init c) :
    Rep buf c [⟨buf.addr, HEAP_SIZE - HDR, true⟩] := by
  have hH := HDR_eq
  have hS : HEAP_SIZE = 67108864 := rfl
  obtain ⟨hlive, s, hnull, hinit⟩ := h
  -- `_heap_first` is NULL, so the fallback buffer is used
  have hkm : kmalloc s (UInt64.ofNat HEAP_SIZE) = some (0, s) := by
    rw [kmalloc, if_pos hnull, ite_self]
  rw [mmInitHeap, hkm] at hinit
  have hheap := Option.some.inj hinit
  simp only [if_true] at hheap
  have hhdr : HdrAt c.heap.mem ⟨buf.addr, HEAP_SIZE - HDR, true⟩ 0 0 := by
    rw [← hheap]
    exact hdrAt_newHeader (by omega) (by omega) (by omega)
  refine ⟨by rw [← hheap], ?_, ⟨hhdr, trivial⟩, List.isChain_singleton _, ?_⟩
  · refine ⟨rfl, ?_⟩
    show buf.addr + HDR + (HEAP_SIZE - HDR) = buf.addr + HEAP_SIZE
    omega
  · rw [hlive]
    simp [payloads]

theorem rep_of_reachable {buf : Buffer} {c : Conf}
    (h : Lts.Reachable (system buf) c) : ∃ bs, Rep buf c bs := by
  refine h.invariant (I := fun c => ∃ bs, Rep buf c bs) ?_ ?_
  · intro c hc
    exact ⟨_, init_rep hc⟩
  · rintro call c c' ⟨bs, hbs⟩ hnext
    exact step_rep hbs hnext

/-! ## Reading the result off memory -/

theorem Linked.visits {m : Mem} {p a e : Nat} {bs : List Block}
    (h : Linked m p bs 0) (ht : Tiles a bs e) (ha : 0 < a) :
    Chain.Visits (next m) (headAddr bs 0) (bs.map Block.addr) := by
  induction bs generalizing p a with
  | nil => rfl
  | cons b bs ih =>
      have hba : b.addr = a := ht.1
      refine ⟨rfl, by omega, ?_⟩
      rw [h.1.next]
      exact ih h.2 ht.2 (by omega)

/-- What two neighbours `b`, `b'` have to do with each other. -/
def Neighbours (m : Mem) (b b' : Nat) : Prop :=
  b' = b + HDR + size m b ∧ next m b = b' ∧ prev m b' = b ∧
    ¬ (free m b = true ∧ free m b' = true)

theorem Linked.neighbours {m : Mem} {p a e : Nat} {bs : List Block}
    (h : Linked m p bs 0) (ht : Tiles a bs e) (hn : NoAdjFree bs) :
    (bs.map Block.addr).IsChain (Neighbours m) := by
  induction bs generalizing p a with
  | nil => exact List.isChain_nil
  | cons b bs ih =>
      cases bs with
      | nil => exact List.isChain_singleton _
      | cons c bs =>
          -- the headers of `b` and `c` point at each other, and `c` starts where `b` ends
          obtain ⟨hb, hc, hbs⟩ := h
          obtain ⟨hadj, hn'⟩ := List.isChain_cons_cons.mp hn
          have hstart : c.addr = b.addr + HDR + size m b.addr := by
            rw [hb.size, ht.1]
            exact ht.2.1
          refine List.isChain_cons_cons.mpr ⟨⟨hstart, hb.next, hc.prev, ?_⟩, ih ⟨hc, hbs⟩ ht.2 hn'⟩
          rw [hb.free, hc.free]
          exact hadj

theorem Tiles.pairwise {a e : Nat} {bs : List Block} (h : Tiles a bs e) :
    bs.Pairwise fun b c => b.addr + HDR + b.size ≤ c.addr := by
  induction bs generalizing a with
  | nil => exact List.Pairwise.nil
  | cons b bs ih =>
      have hba : b.addr = a := h.1
      refine List.pairwise_cons.mpr ⟨fun c hc => ?_, ih h.2⟩
      have hbd := h.2.bounds hc
      omega

/-- Two different blocks do not overlap. -/
theorem Tiles.disjoint {a e : Nat} {bs : List Block} (h : Tiles a bs e)
    {b c : Block} (hb : b ∈ bs) (hc : c ∈ bs) (hne : b.addr ≠ c.addr) :
    b.addr + HDR + b.size ≤ c.addr ∨ c.addr + HDR + c.size ≤ b.addr := by
  obtain ⟨xs, ys, rfl⟩ := List.append_of_mem hb
  obtain ⟨hxs, hys⟩ := h.split
  rcases List.mem_append.mp hc with hc | hc
  · exact Or.inr (hxs.bounds hc).2
  · rcases List.mem_cons.mp hc with rfl | hc
    · exact absurd rfl hne
    · exact Or.inl (hys.bounds hc).1

theorem payloads_nodup {a e : Nat} {bs : List Block} (h : Tiles a bs e) :
    (payloads bs).Nodup := by
  have hH := HDR_eq
  rw [payloads, List.Nodup, List.pairwise_map]
  refine List.Pairwise.filter _ (h.pairwise.imp fun hbc => ?_)
  omega

theorem Tiles.end_eq {a e : Nat} {bs : List Block} (h : Tiles a bs e)
    {b : Block} (hb : b ∈ bs.getLast?) : b.addr + HDR + b.size = e := by
  obtain ⟨xs, rfl⟩ := List.getLast?_eq_some_iff.mp hb
  exact h.split.2

/-- A heap with no used block is one block. -/
theorem Rep.single {buf : Buffer} {c : Conf} {bs : List Block} (h : Rep buf c bs)
    (hempty : c.live = []) : bs = [⟨buf.addr, HEAP_SIZE - HDR, true⟩] := by
  have hH := HDR_eq
  have hS : HEAP_SIZE = 67108864 := rfl
  have hall : ∀ b ∈ bs, b.free = true := by
    intro b hb
    by_contra hf
    have hmem : b.addr + HDR ∈ c.live :=
      h.live.mem_iff.mpr (mem_payloads.mpr ⟨b, hb, by simpa using hf, rfl⟩)
    rw [hempty] at hmem
    exact List.not_mem_nil hmem
  match bs, h.ne_nil with
  | b :: b' :: bs, _ =>
      -- two neighbours would both be free
      have hadj := (List.isChain_cons_cons.mp h.noAdj).1
      exact absurd ⟨hall b (by simp), hall b' (by simp)⟩ hadj
  | [b], _ =>
      have haddr : b.addr = buf.addr := h.tiles.1
      have hend : buf.addr + HDR + b.size = buf.addr + HEAP_SIZE := h.tiles.2
      have hsize : b.size = HEAP_SIZE - HDR := by omega
      have hfree := hall b (by simp)
      rw [← haddr, ← hsize, ← hfree]

/-- The block list as it can be read off memory: `bs` are the addresses that
the walk from `_heap_first` along `next` visits. -/
structure Intact (buf : Buffer) (c : Conf) (bs : List Nat) : Prop where
  /-- The walk ends at NULL after `bs`, and starts at the buffer. -/
  visits : Chain.Visits (next c.heap.mem) c.heap.heapFirst bs
  starts : bs.head? = some buf.addr
  /-- End to end, doubly linked, no two neighbours free. -/
  neighbours : bs.IsChain (Neighbours c.heap.mem)
  prevFirst : prev c.heap.mem buf.addr = 0
  /-- The last block ends where the heap ends. -/
  covers : ∀ b ∈ bs.getLast?, b + HDR + size c.heap.mem b = buf.addr + HEAP_SIZE
  /-- The used blocks are the live allocations, each once. -/
  live : ∀ p, p ∈ c.live ↔ ∃ b ∈ bs, free c.heap.mem b = false ∧ p = b + HDR
  nodup : c.live.Nodup
  /-- Live payloads do not overlap. -/
  disjoint : ∀ p ∈ c.live, ∀ q ∈ c.live, p ≠ q →
    p + size c.heap.mem (p - HDR) ≤ q ∨ q + size c.heap.mem (q - HDR) ≤ p
  /-- With everything freed, one free block of the initial size is left. -/
  emptied : c.live = [] → bs = [buf.addr] ∧ free c.heap.mem buf.addr = true ∧
    size c.heap.mem buf.addr = HEAP_SIZE - HDR

theorem Rep.intact {buf : Buffer} {c : Conf} {bs : List Block} (h : Rep buf c bs) :
    Intact buf c (bs.map Block.addr) := by
  have hH := HDR_eq
  have hpos := buf.pos
  have hhead : headAddr bs 0 = buf.addr := h.tiles.headAddr h.ne_nil
  constructor
  case visits =>
    rw [h.first, ← hhead]
    exact h.linked.visits h.tiles hpos
  case starts =>
    obtain ⟨b, bs, rfl⟩ := List.exists_cons_of_ne_nil h.ne_nil
    rw [← hhead]
    rfl
  case neighbours => exact h.linked.neighbours h.tiles h.noAdj
  case prevFirst =>
    obtain ⟨b, bs, rfl⟩ := List.exists_cons_of_ne_nil h.ne_nil
    rw [← hhead]
    exact h.linked.1.prev
  case covers =>
    intro b hb
    rw [List.getLast?_map, Option.mem_def, Option.map_eq_some_iff] at hb
    obtain ⟨b, hb, rfl⟩ := hb
    rw [(h.linked.mem (List.mem_of_getLast? hb)).1]
    exact h.tiles.end_eq hb
  case live =>
    intro p
    rw [h.live.mem_iff, mem_payloads]
    constructor
    · rintro ⟨b, hb, hf, rfl⟩
      exact ⟨b.addr, List.mem_map_of_mem hb, (h.linked.mem hb).2.trans hf, rfl⟩
    · rintro ⟨a, ha, hf, rfl⟩
      obtain ⟨b, hb, rfl⟩ := List.mem_map.mp ha
      exact ⟨b, hb, (h.linked.mem hb).2.symm.trans hf, rfl⟩
  case nodup => exact h.live.nodup_iff.mpr (payloads_nodup h.tiles)
  case disjoint =>
    intro p hp q hq hne
    obtain ⟨b, hb, -, rfl⟩ := mem_payloads.mp (h.live.mem_iff.mp hp)
    obtain ⟨c', hc, -, rfl⟩ := mem_payloads.mp (h.live.mem_iff.mp hq)
    rw [Nat.add_sub_cancel, Nat.add_sub_cancel, (h.linked.mem hb).1, (h.linked.mem hc).1]
    rcases h.tiles.disjoint hb hc (by omega) with hbc | hcb
    · exact Or.inl (by omega)
    · exact Or.inr (by omega)
  case emptied =>
    intro hempty
    obtain rfl := h.single hempty
    exact ⟨rfl, h.linked.1.free, h.linked.1.size⟩

/-- Over every run of `kmalloc`, `kfree` and payload writes, the heap is
intact, and the next `kmalloc` returns whatever its argument. -/
theorem heap_intact (buf : Buffer) (c : Conf) (h : Lts.Reachable (system buf) c) :
    (∃ bs, Intact buf c bs) ∧ ∀ n, (kmalloc c.heap n).isSome := by
  obtain ⟨bs, hbs⟩ := rep_of_reachable h
  refine ⟨⟨_, hbs.intact⟩, fun n => ?_⟩
  rcases kmalloc_cases hbs n with hnone | ⟨xs, b, ys, -, -, -, hsome⟩
  · rw [hnone]
    rfl
  · rw [hsome]
    rfl

/-- A buffer at 2 MB, and the heap `mm_init` makes of it. -/
def bootBuffer : Buffer := ⟨0x200000, by decide, by decide⟩

def bootHeap : State :=
  { mem := newHeader (fun _ => 0) 0x200000 (HEAP_SIZE - HDR) 0 0, heapStart := 0x200000,
    heapSize := HEAP_SIZE, heapFirst := 0x200000, heapAllocs := 0, heapFrees := 0 }

theorem bootHeap_init : (system bootBuffer).Init ⟨bootHeap, []⟩ :=
  ⟨rfl, { bootHeap with mem := fun _ => 0, heapFirst := 0 }, rfl, rfl⟩

theorem heap_intact_first_alloc : ∃ c : Conf, c.live = [0x200000 + HDR] ∧
    (∃ bs, Intact bootBuffer c bs) ∧ ∀ n, (kmalloc c.heap n).isSome := by
  have hinit := Lts.Reachable.init bootHeap_init
  have hptr : (kmalloc bootHeap 100).map Prod.fst = some (0x200000 + HDR) := by decide
  obtain ⟨⟨p, s⟩, hcall, hp⟩ := Option.map_eq_some_iff.mp hptr
  have hnext : (system bootBuffer).Next (.kmalloc 100) ⟨bootHeap, []⟩
      ⟨s, if p = 0 then [] else [p]⟩ := ⟨p, s, hcall, rfl⟩
  refine ⟨_, ?_, heap_intact bootBuffer _ (hinit.step hnext)⟩
  dsimp only at hp ⊢
  rw [hp]
  rfl

end OmniOS.Heap
