import OmniOS.Lib.Words
import OmniOS.Kernel.HeapInv

/-!
# OmniOS.Kernel.HeapData — what callers of the heap get and keep

1. **Sizes.** `kmalloc` rounds the request up and hands out the first free block with that many
   bytes, cut to size when enough is left over. This is so in every heap state; the rounding
   wraps for the requests above `2^64 - 8`, and the product of `kcalloc` may wrap too.
2. **Frames.** `kmalloc` and `kfree` write headers only, so the payloads of the blocks that stay
   live keep their size and their bytes.
3. **`krealloc`.** An allocation, a copy and a release. The copy stays inside the new block
   unless the rounding wrapped and the old payload is larger than what was handed out.
-/

namespace OmniOS.Heap

open Memory

/-! ## Sizes -/

theorem mask_bits : ∀ i < 64, (~~~(ALIGNMENT - 1)).toNat.testBit i = decide (3 ≤ i) := by decide

theorem roundSize_of_le {n : UInt64} (h : n.toNat ≤ 2 ^ 64 - 8) :
    n.toNat ≤ roundSize n ∧ roundSize n < 2 ^ 64 := by
  have hM : MIN_BLOCK_SIZE = 32 := rfl
  have hround := Words.toNat_round_up (x := n) mask_bits (d := ALIGNMENT) rfl (by omega)
  unfold roundSize
  dsimp only
  rw [hround]
  split
  · omega
  · omega

/-- The rounding wraps to 0. -/
theorem roundSize_of_gt {n : UInt64} (h : 2 ^ 64 - 8 < n.toNat) : roundSize n = MIN_BLOCK_SIZE := by
  have hround := Words.toNat_round_up_wrap (x := n) mask_bits (d := ALIGNMENT) rfl (by omega)
  unfold roundSize
  dsimp only
  rw [hround]
  rfl

theorem roundSize_bounds (n : UInt64) : MIN_BLOCK_SIZE ≤ roundSize n ∧ roundSize n < 2 ^ 64 := by
  have hM : MIN_BLOCK_SIZE = 32 := rfl
  have hlt := ((n + ALIGNMENT - 1) &&& ~~~(ALIGNMENT - 1)).toNat_lt
  unfold roundSize
  dsimp only
  split
  · omega
  · omega

/-- How much of a free block of `avail` bytes is handed out for `sz`. -/
def grantedSize (sz avail : Nat) : Nat :=
  if add64 (add64 sz HDR) MIN_BLOCK_SIZE < avail then sz else avail

theorem le_grantedSize {sz avail : Nat} (h : sz ≤ avail) : sz ≤ grantedSize sz avail := by
  unfold grantedSize
  split
  · exact Nat.le_refl sz
  · exact h

/-- The smallest request gets 32 bytes, or a block too small to be cut. -/
theorem grantedSize_min (avail : Nat) : grantedSize MIN_BLOCK_SIZE avail ≤ 104 := by
  have hcut : add64 (add64 MIN_BLOCK_SIZE HDR) MIN_BLOCK_SIZE = 104 := by decide
  have hM : MIN_BLOCK_SIZE = 32 := rfl
  unfold grantedSize
  rw [hcut]
  split
  · omega
  · omega

/-- The last write to the size field is the cut. -/
theorem size_allocateMem (m : Mem) (block : Nat) {sz : Nat} (hsz : sz < 2 ^ 64) :
    size (allocateMem m block sz) block = grantedSize sz (size m block) := by
  -- the flag and the magic number lie beside the size
  have hflag : size (allocateMem m block sz) block = size (splitBlock m block sz) block := by
    unfold allocateMem setMagic setFree size
    rw [load_store_of_disjoint _ (by omega), load_store_of_disjoint _ (by omega)]
  rw [hflag, grantedSize, splitBlock]
  split
  · exact load_store_self _ hsz
  · rfl

theorem findFree_sound {m : Mem} {sz fuel block b : Nat} (h : findFree m sz fuel block = some b) :
    b = 0 ∨ free m b = true ∧ sz ≤ size m b := by
  induction fuel generalizing block with
  | zero => cases h
  | succ fuel ih =>
      unfold findFree at h
      split at h
      · cases h
        exact Or.inl rfl
      · split at h
        · next hfit =>
            cases h
            exact Or.inr hfit
        · exact ih h

/-- In any heap state, `kmalloc` returns NULL and changes nothing, or cuts a free block. -/
theorem kmalloc_inv {s s' : State} {n : UInt64} {p : Nat} (h : kmalloc s n = some (p, s')) :
    p = 0 ∧ s' = s ∨
    ∃ b, p = b + HDR ∧ free s.mem b = true ∧ roundSize n ≤ size s.mem b ∧
      s' = { s with mem := allocateMem s.mem b (roundSize n), heapAllocs := s.heapAllocs + 1 } := by
  unfold kmalloc at h
  split at h
  · cases h
    exact Or.inl ⟨rfl, rfl⟩
  · split at h
    · cases h
      exact Or.inl ⟨rfl, rfl⟩
    · obtain ⟨b, hfind, hres⟩ := Option.map_eq_some_iff.mp h
      split at hres
      · cases hres
        exact Or.inl ⟨rfl, rfl⟩
      · next hb =>
          obtain ⟨hfree, hsize⟩ := (findFree_sound hfind).resolve_left hb
          obtain ⟨hp, hs'⟩ := Prod.mk.inj hres
          exact Or.inr ⟨b, hp.symm, hfree, hsize, hs'.symm⟩

/-- The header of a block that `kmalloc` returns says how much was handed out. -/
theorem kmalloc_size {s s' : State} {n : UInt64} {p : Nat} (h : kmalloc s n = some (p, s'))
    (hp : p ≠ 0) : ∃ avail, roundSize n ≤ avail ∧
      size s'.mem (p - HDR) = grantedSize (roundSize n) avail := by
  rcases kmalloc_inv h with ⟨h0, -⟩ | ⟨b, rfl, -, hsize, rfl⟩
  · exact absurd h0 hp
  · refine ⟨size s.mem b, hsize, ?_⟩
    rw [Nat.add_sub_cancel]
    exact size_allocateMem s.mem b (roundSize_bounds n).2

theorem kmalloc_large_enough {s s' : State} {n : UInt64} {p : Nat}
    (h : kmalloc s n = some (p, s')) (hp : p ≠ 0) :
    n.toNat ≤ size s'.mem (p - HDR) ↔ n.toNat ≤ 2 ^ 64 - 8 := by
  obtain ⟨avail, havail, hsize⟩ := kmalloc_size h hp
  rw [hsize]
  constructor
  · intro hle
    by_contra hgt
    rw [roundSize_of_gt (by omega)] at hle
    have hmin := grantedSize_min avail
    omega
  · intro hle
    exact Nat.le_trans (roundSize_of_le hle).1 (le_grantedSize havail)

/-- `memset` clears the payload and leaves the header in front of it alone. -/
theorem kcalloc_inv {s s' : State} {num sz : UInt64} {p : Nat}
    (h : kcalloc s num sz = some (p, s')) (hp : p ≠ 0) :
    ∃ s₁, kmalloc s (num * sz) = some (p, s₁) ∧
      size s'.mem (p - HDR) = size s₁.mem (p - HDR) ∧
      ∀ i < (num * sz).toNat, s'.mem (p + i) = 0 := by
  have hH := HDR_eq
  obtain ⟨⟨q, s₁⟩, hcall, hres⟩ := Option.map_eq_some_iff.mp h
  dsimp only at hres
  split at hres
  · cases hres
    exact absurd rfl hp
  · next hq =>
      obtain ⟨rfl, rfl⟩ := Prod.mk.inj hres
      refine ⟨s₁, hcall, ?_, ?_⟩
      · rcases kmalloc_inv hcall with ⟨h0, -⟩ | ⟨b, rfl, -⟩
        · exact absurd h0 hq
        · apply load_congr
          intro x _ hx
          exact fill_apply_of_notMem _ (by omega)
      · intro i hi
        exact fill_apply_of_mem _ (by omega)

/-- In every heap state and for all sizes: what `kmalloc` and `kcalloc` return is as large as
asked, and cleared, exactly if the integer asked for is at most `2^64 - 8`. -/
theorem alloc_as_large_iff (s : State) (n num sz : UInt64) :
    (∀ p s', kmalloc s n = some (p, s') → p ≠ 0 →
      (n.toNat ≤ size s'.mem (p - HDR) ↔ n.toNat ≤ 2 ^ 64 - 8)) ∧
    (∀ p s', kcalloc s num sz = some (p, s') → p ≠ 0 →
      (num.toNat * sz.toNat ≤ size s'.mem (p - HDR) ∧
          (∀ i < num.toNat * sz.toNat, s'.mem (p + i) = 0) ↔
        num.toNat * sz.toNat ≤ 2 ^ 64 - 8)) := by
  constructor
  · intro p s' hcall hp
    exact kmalloc_large_enough hcall hp
  · intro p s' hcall hp
    obtain ⟨s₁, hmalloc, hsize, hzero⟩ := kcalloc_inv hcall hp
    have hlarge := kmalloc_large_enough hmalloc hp
    rw [← hsize, UInt64.toNat_mul] at hlarge
    rw [UInt64.toNat_mul] at hzero
    rcases Nat.lt_or_ge (num.toNat * sz.toNat) (2 ^ 64) with hlt | hge
    · rw [Nat.mod_eq_of_lt hlt] at hlarge hzero
      rw [hlarge]
      exact and_iff_left hzero
    · -- the product has wrapped: no header holds a size that large
      have hbound : size s'.mem (p - HDR) < 256 ^ 8 := load_lt _ 8 _
      refine iff_of_false ?_ (by omega)
      rintro ⟨hle, -⟩
      omega

theorem exists_of_map {α β : Type*} {r : Option (Nat × α)} {f : Nat × α → β} {p : Nat} {b : β}
    (h : (r.map fun x => (x.1, f x)) = some (p, b)) : ∃ a, r = some (p, a) ∧ f (p, a) = b := by
  obtain ⟨⟨q, a⟩, hr, hres⟩ := Option.map_eq_some_iff.mp h
  obtain ⟨rfl, hb⟩ := Prod.mk.inj hres
  exact ⟨a, hr, hb⟩

/-- A hundred bytes, and four words of eight. -/
theorem alloc_as_large_hundred :
    (∃ p s', kmalloc bootHeap 100 = some (p, s') ∧ p ≠ 0 ∧ 100 ≤ size s'.mem (p - HDR)) ∧
    (∃ p s', kcalloc bootHeap 4 8 = some (p, s') ∧ p ≠ 0 ∧ 32 ≤ size s'.mem (p - HDR) ∧
      ∀ i < 32, s'.mem (p + i) = 0) := by
  obtain ⟨hmalloc, hcalloc⟩ := alloc_as_large_iff bootHeap 100 4 8
  have hne : 0x200000 + HDR ≠ 0 := by decide
  constructor
  · have hptr : ((kmalloc bootHeap 100).map fun r => (r.1, ())) = some (0x200000 + HDR, ()) := by
      decide
    obtain ⟨s', hcall, -⟩ := exists_of_map hptr
    exact ⟨_, s', hcall, hne, (hmalloc _ s' hcall hne).mpr (by decide)⟩
  · have hptr : ((kcalloc bootHeap 4 8).map fun r => (r.1, ())) = some (0x200000 + HDR, ()) := by
      decide
    obtain ⟨s', hcall, -⟩ := exists_of_map hptr
    exact ⟨_, s', hcall, hne, (hcalloc _ s' hcall hne).mpr (by decide)⟩

/-- A request for `2^64 - 1` bytes, and one for `2^61 + 1` words of eight, get 32 bytes. -/
theorem alloc_too_small :
    (∃ p s', kmalloc bootHeap 0xFFFFFFFFFFFFFFFF = some (p, s') ∧ p ≠ 0 ∧
      size s'.mem (p - HDR) = 32 ∧ ¬ (0xFFFFFFFFFFFFFFFF : UInt64).toNat ≤ size s'.mem (p - HDR)) ∧
    (∃ p s', kcalloc bootHeap 0x2000000000000001 8 = some (p, s') ∧ p ≠ 0 ∧
      size s'.mem (p - HDR) = 32 ∧
      ¬ (0x2000000000000001 : UInt64).toNat * (8 : UInt64).toNat ≤ size s'.mem (p - HDR)) := by
  constructor
  · have hcall : ((kmalloc bootHeap 0xFFFFFFFFFFFFFFFF).map fun r =>
        (r.1, size r.2.mem (r.1 - HDR))) = some (0x200000 + HDR, 32) := by decide
    obtain ⟨s', hcall, hsize⟩ := exists_of_map hcall
    refine ⟨_, s', hcall, by decide, hsize, ?_⟩
    rw [hsize]
    decide
  · have hcall : ((kcalloc bootHeap 0x2000000000000001 8).map fun r =>
        (r.1, size r.2.mem (r.1 - HDR))) = some (0x200000 + HDR, 32) := by decide
    obtain ⟨s', hcall, hsize⟩ := exists_of_map hcall
    refine ⟨_, s', hcall, by decide, hsize, ?_⟩
    rw [hsize]
    decide

/-! ## Frames -/

/-- The payload at `p` has the size and the bytes it had. -/
structure SamePayload (m m' : Mem) (p : Nat) : Prop where
  size : size m' (p - HDR) = size m (p - HDR)
  bytes : ∀ i < Heap.size m (p - HDR), m' (p + i) = m (p + i)

theorem SamePayload.trans {m₁ m₂ m₃ : Mem} {p : Nat} (h : SamePayload m₁ m₂ p)
    (h' : SamePayload m₂ m₃ p) : SamePayload m₁ m₃ p := by
  refine ⟨h'.size.trans h.size, fun i hi => ?_⟩
  rw [h'.bytes i (by rw [h.size]; exact hi), h.bytes i hi]

section Frames

variable {buf : Buffer} {c c' : Conf} {bs bs' : List Block}

/-- A block that is on the list before and after, and in whose payload nothing is written. -/
theorem Rep.samePayload (h : Rep buf c bs) (h' : Rep buf c' bs') {b : Block} (hb : b ∈ bs)
    (hb' : b ∈ bs')
    (hm : ∀ x, b.addr + HDR ≤ x → x < b.addr + HDR + b.size → c'.heap.mem x = c.heap.mem x) :
    SamePayload c.heap.mem c'.heap.mem (b.addr + HDR) := by
  constructor
  · rw [h.size_eq hb, h'.size_eq hb']
  · intro i hi
    rw [h.size_eq hb] at hi
    exact hm _ (by omega) (by omega)

/-- `kmalloc` keeps every live payload. -/
theorem kmalloc_keeps (h : Rep buf c bs) {n : UInt64} {p : Nat} {s : State}
    (hcall : kmalloc c.heap n = some (p, s)) {q : Nat} (hq : q ∈ c.live) :
    SamePayload c.heap.mem s.mem q := by
  rcases kmalloc_cases h n with hnone | ⟨xs, b, ys, rfl, hf, hsz, hsome⟩
  · obtain ⟨-, rfl⟩ := Prod.mk.inj (Option.some.inj (hcall.symm.trans hnone))
    exact ⟨rfl, fun _ _ => rfl⟩
  · obtain ⟨rfl, rfl⟩ := Prod.mk.inj (Option.some.inj (hcall.symm.trans hsome))
    obtain ⟨d, hd, hdf, rfl⟩ := h.block_of_live hq
    have h' := h.allocate hf hsz (c.heap.heapAllocs + 1)
    -- the block handed out was free, so `d` is another one
    have hd' : d ∈ xs ++ (allocated b (roundSize n) ++ ys) := by
      simp only [List.mem_append, List.mem_cons] at hd ⊢
      rcases hd with hd | rfl | hd
      · exact Or.inl hd
      · rw [hf] at hdf
        cases hdf
      · exact Or.inr (Or.inr hd)
    refine h.samePayload h' hd hd' fun x hx hx' => ?_
    refine allocateMem_apply (linked_append.mp h.linked).2 (h.size_le (by simp)) hsz ?_
    intro e he
    exact h'.tiles.outsideHeaders hd' ⟨hx, hx'⟩ e (List.mem_append_right xs he)

theorem kfree_keeps (h : Rep buf c bs) {p q : Nat} (hp : p ∈ c.live) (hq : q ∈ c.live)
    (hne : q ≠ p) : SamePayload c.heap.mem (kfree c.heap p).mem q := by
  obtain ⟨b, hb, hf, rfl⟩ := h.block_of_live hp
  obtain ⟨d, hd, hdf, rfl⟩ := h.block_of_live hq
  obtain ⟨xs, ys, rfl⟩ := List.append_of_mem hb
  obtain ⟨bs', h', hused, hkeep⟩ := kfree_spec h hf
  have hd' : d ∈ bs' := by
    have hmem : d ∈ usedBlocks bs' := by
      rw [hused, List.mem_append]
      simp only [usedBlocks, List.mem_filter, hdf]
      simp only [List.mem_append, List.mem_cons] at hd
      rcases hd with hd | rfl | hd
      · exact Or.inl ⟨hd, rfl⟩
      · exact absurd rfl hne
      · exact Or.inr ⟨hd, rfl⟩
    exact List.mem_of_mem_filter hmem
  refine h.samePayload h' hd hd' fun x hx hx' => ?_
  exact hkeep x (h.tiles.outsideHeaders hd ⟨hx, hx'⟩)

/-- Writes into the payload of a block are seen by no header and by no other block. -/
theorem Rep.writeBlock (h : Rep buf c bs) {b : Block} (hb : b ∈ bs) {m : Mem}
    (hm : ∀ x, x < b.addr + HDR ∨ b.addr + HDR + b.size ≤ x → m x = c.heap.mem x) :
    Rep buf { c with heap := { c.heap with mem := m } } bs ∧
      ∀ d ∈ bs, d.addr ≠ b.addr → SamePayload c.heap.mem m (d.addr + HDR) := by
  have h' := h.frame hb hm
  refine ⟨h', fun d hd hne => ?_⟩
  refine h.samePayload h' hd hd fun x hx hx' => hm x ?_
  have hapart := h.tiles.disjoint hd hb hne
  omega

/-- The same for the payload of a live pointer. -/
theorem Rep.writeLive (h : Rep buf c bs) {p : Nat} (hp : p ∈ c.live) {m : Mem}
    (hm : ∀ x, x < p ∨ p + size c.heap.mem (p - HDR) ≤ x → m x = c.heap.mem x) :
    Rep buf { c with heap := { c.heap with mem := m } } bs ∧
      size m (p - HDR) = size c.heap.mem (p - HDR) ∧
      ∀ q ∈ c.live, q ≠ p → SamePayload c.heap.mem m q := by
  obtain ⟨b, hb, -, rfl⟩ := h.block_of_live hp
  have hsize := h.size_eq hb
  rw [hsize] at hm ⊢
  obtain ⟨h', hothers⟩ := h.writeBlock hb hm
  refine ⟨h', h'.size_eq hb, fun q hq hne => ?_⟩
  obtain ⟨d, hd, -, rfl⟩ := h.block_of_live hq
  exact hothers d hd fun haddr => hne (by rw [haddr])

end Frames

/-! ## krealloc -/

/-- What should have happened when `krealloc(p, n)` returns the pointer `q`. -/
structure Reallocated (buf : Buffer) (c : Conf) (p : Nat) (n : UInt64) (q : Nat) (s : State) :
    Prop where
  /-- The bytes copied are bytes of the block that was allocated. -/
  inside : ∀ s₁, kmalloc c.heap n = some (q, s₁) →
    min (size c.heap.mem (p - HDR)) n.toNat ≤ size s₁.mem (q - HDR)
  data : ∀ i < min (size c.heap.mem (p - HDR)) n.toNat, s.mem (q + i) = c.heap.mem (p + i)
  released : p ∉ q :: c.live.erase p
  others : ∀ r ∈ c.live, r ≠ p → SamePayload c.heap.mem s.mem r
  /-- The headers are those of a block list in which `q` has taken the place of `p`. -/
  headers : ∃ bs, Rep buf ⟨s, q :: c.live.erase p⟩ bs

/-- When it returns NULL, nothing has changed. -/
def ReallocKeeps (buf : Buffer) (c : Conf) (p : Nat) (n : UInt64) (q : Nat) (s : State) : Prop :=
  (q ≠ 0 → Reallocated buf c p n q s) ∧ (q = 0 → s = c.heap)

/-- The size does not wrap, or the old payload is no larger than what the first free block
gives for the smallest request. -/
def CopyFits (bs : List Block) (old : Nat) (n : UInt64) : Prop :=
  n.toNat ≤ 2 ^ 64 - 8 ∨
    ∀ b, bs.find? (fits MIN_BLOCK_SIZE) = some b → old ≤ grantedSize MIN_BLOCK_SIZE b.size

theorem allocated_eq {b : Block} {sz : Nat} (hbs : b.size ≤ HEAP_SIZE) (hle : sz ≤ b.size) :
    ⟨b.addr, grantedSize sz b.size, false⟩ ∈ allocated b sz := by
  have hS : HEAP_SIZE = 67108864 := rfl
  have hH := HDR_eq
  have hM : MIN_BLOCK_SIZE = 32 := rfl
  have hadd : add64 (add64 sz HDR) MIN_BLOCK_SIZE = sz + HDR + MIN_BLOCK_SIZE := by
    rw [add64_of_lt (a := sz) (by omega), add64_of_lt (by omega)]
  unfold allocated grantedSize
  rw [hadd]
  split
  · exact List.mem_cons_self
  · exact List.mem_cons_self

/-- `memcpy(q, p, len)`. -/
def State.copied (s : State) (q p len : Nat) : State :=
  { s with mem := copy s.mem len q fun i => s.mem (p + i) }

theorem State.copied_apply (s : State) {q p len i : Nat} (hi : i < len) :
    (s.copied q p len).mem (q + i) = s.mem (p + i) := by
  unfold State.copied
  dsimp only
  rw [copy_apply_of_mem _ _ (by omega), Nat.add_sub_cancel_left]

section Realloc

variable {buf : Buffer} {c : Conf} {bs : List Block} {p : Nat} {n : UInt64}

/-- The calls `krealloc` makes for a live pointer. -/
theorem krealloc_eq (h : Rep buf c bs) (hp : p ∈ c.live) (hn : n ≠ 0) :
    krealloc c.heap p n = (kmalloc c.heap n).map fun (q, s) =>
      if q = 0 then (0, s)
      else (q, kfree (s.copied q p (min (size c.heap.mem (p - HDR)) n.toNat)) p) := by
  have hH := HDR_eq
  obtain ⟨b, hb, -, rfl⟩ := h.block_of_live hp
  obtain ⟨xs, ys, rfl⟩ := List.append_of_mem hb
  have hmagic := (linked_append.mp h.linked).2.1.magic
  have hsub : b.addr + HDR - HDR = b.addr := by omega
  have hmin : ∀ k l : Nat, (if k < l then k else l) = min k l := by
    intro k l
    split <;> omega
  rw [krealloc, if_neg (by omega), if_neg hn, hsub, if_neg (not_not_intro hmagic)]
  simp only [hmin, State.copied]

/-- The copy fits exactly if it stays in the block that `kmalloc` hands out. -/
theorem copyFits_iff {b : Block}
    (hfind : bs.find? (fits (roundSize n)) = some b) {old : Nat} (hold : old ≤ HEAP_SIZE) :
    CopyFits bs old n ↔ min old n.toNat ≤ grantedSize (roundSize n) b.size := by
  have hS : HEAP_SIZE = 67108864 := rfl
  have hfits : fits (roundSize n) b = true := List.find?_some hfind
  simp only [fits, Bool.and_eq_true, decide_eq_true_eq] at hfits
  unfold CopyFits
  rcases Nat.lt_or_ge (2 ^ 64 - 8) n.toNat with hgt | hle
  · -- the rounding has wrapped, and so the old size is the smaller one
    rw [roundSize_of_gt hgt] at hfind ⊢
    rw [hfind, Nat.min_eq_left (by omega)]
    simp only [Option.some.injEq, forall_eq']
    exact or_iff_right (by omega)
  · refine iff_of_true (Or.inl hle) ?_
    have hround := (roundSize_of_le hle).1
    have hgrant := le_grantedSize hfits.2
    omega

/-- No live pointer points at the payload of a free block. -/
theorem Rep.ne_of_free (h : Rep buf c bs) (hp : p ∈ c.live) {b : Block} (hb : b ∈ bs)
    (hfree : b.free = true) : b.addr + HDR ≠ p := by
  rintro rfl
  obtain ⟨d, hd, hdf, hda⟩ := h.block_of_live hp
  have hflag := (h.linked.mem hd).2
  rw [← Nat.add_right_cancel hda, (h.linked.mem hb).2, hfree, hdf] at hflag
  cases hflag

/-- The copy stays in the new block: then everything is as it should be. -/
theorem reallocated_of_fits (h : Rep buf c bs) (hp : p ∈ c.live) {b : Block}
    (hfind : bs.find? (fits (roundSize n)) = some b)
    (hlen : min (size c.heap.mem (p - HDR)) n.toNat ≤ grantedSize (roundSize n) b.size) {s₁ : State}
    (hs₁ : s₁ = { c.heap with
      mem := allocateMem c.heap.mem b.addr (roundSize n), heapAllocs := c.heap.heapAllocs + 1 })
    (hcall : kmalloc c.heap n = some (b.addr + HDR, s₁)) :
    Reallocated buf c p n (b.addr + HDR)
      (kfree (s₁.copied (b.addr + HDR) p (min (size c.heap.mem (p - HDR)) n.toNat)) p) := by
  have hfits : fits (roundSize n) b = true := List.find?_some hfind
  simp only [fits, Bool.and_eq_true, decide_eq_true_eq] at hfits
  obtain ⟨hfree, hround⟩ := hfits
  have hb : b ∈ bs := List.mem_of_find?_eq_some hfind
  have hne : b.addr + HDR ≠ p := h.ne_of_free hp hb hfree
  have hbs : b.size ≤ HEAP_SIZE := h.size_le hb
  have hkeep₁ : ∀ r ∈ c.live, SamePayload c.heap.mem s₁.mem r :=
    fun r hr => kmalloc_keeps h hcall hr
  -- the heap after `kmalloc`: the new block is on the list
  obtain ⟨xs, ys, rfl⟩ := List.append_of_mem hb
  have h₁ : Rep buf ⟨s₁, (b.addr + HDR) :: c.live⟩ (xs ++ (allocated b (roundSize n) ++ ys)) := by
    rw [hs₁]
    exact h.allocate hfree hround _
  have hq₁ : (⟨b.addr, grantedSize (roundSize n) b.size, false⟩ : Block) ∈
      xs ++ (allocated b (roundSize n) ++ ys) :=
    List.mem_append_right xs (List.mem_append_left ys (allocated_eq hbs hround))
  generalize xs ++ (allocated b (roundSize n) ++ ys) = bs₁ at h₁ hq₁
  -- after the copy, with the same headers
  have hmin := Nat.min_le_left (size c.heap.mem (p - HDR)) n.toNat
  generalize hlength : min (size c.heap.mem (p - HDR)) n.toNat = len at hlen hmin ⊢
  have hcopied : ∀ i < len, (s₁.copied (b.addr + HDR) p len).mem (b.addr + HDR + i) =
      s₁.mem (p + i) := by
    intro i hi
    exact s₁.copied_apply hi
  have hcopy : Rep buf ⟨s₁.copied (b.addr + HDR) p len, (b.addr + HDR) :: c.live⟩ bs₁ ∧
      ∀ d ∈ bs₁, d.addr ≠ b.addr →
        SamePayload s₁.mem (s₁.copied (b.addr + HDR) p len).mem (d.addr + HDR) :=
    h₁.writeBlock hq₁ fun x hx => copy_apply_of_notMem _ _ (by dsimp only at hx; omega)
  generalize s₁.copied (b.addr + HDR) p len = s₂ at hcopied hcopy ⊢
  obtain ⟨h₂, hkeep₂⟩ := hcopy
  have hp₂ : p ∈ (b.addr + HDR) :: c.live := List.mem_cons_of_mem _ hp
  have hlive : ((b.addr + HDR) :: c.live).erase p = (b.addr + HDR) :: c.live.erase p :=
    List.erase_cons_tail (by simpa using hne)
  have hkeep₃ : ∀ r ∈ (b.addr + HDR) :: c.live, r ≠ p → SamePayload s₂.mem (kfree s₂ p).mem r :=
    fun r hr hrp => kfree_keeps h₂ hp₂ hr hrp
  constructor
  case inside =>
    intro s₁' hcall'
    obtain rfl := (Prod.mk.inj (Option.some.inj (hcall.symm.trans hcall'))).2
    rw [hlength, h₁.size_eq hq₁]
    exact hlen
  case data =>
    intro i hi
    rw [hlength] at hi
    have hroom : i < size s₂.mem (b.addr + HDR - HDR) := by
      rw [h₂.size_eq hq₁]
      exact Nat.lt_of_lt_of_le hi hlen
    -- `kfree` leaves the copied byte, `kmalloc` has left the one it is a copy of
    rw [(hkeep₃ _ List.mem_cons_self hne).bytes i hroom, hcopied i hi]
    exact (hkeep₁ p hp).bytes i (by omega)
  case released =>
    have hnodup : c.live.Nodup := h.live.nodup_iff.mpr (payloads_nodup h.tiles)
    rw [List.mem_cons]
    rintro (heq | hmem)
    · exact hne heq.symm
    · exact hnodup.not_mem_erase hmem
  case others =>
    intro r hr hrp
    have hrq : b.addr + HDR ≠ r := h.ne_of_free hr hb hfree
    obtain ⟨d, hd, -, rfl⟩ := h₁.block_of_live (List.mem_cons_of_mem _ hr)
    have hcopy := hkeep₂ d hd fun haddr => hrq (by rw [← haddr])
    exact ((hkeep₁ _ hr).trans hcopy).trans (hkeep₃ _ (List.mem_cons_of_mem _ hr) hrp)
  case headers =>
    obtain ⟨bs₃, h₃⟩ := kfree_rep h₂ hp₂
    rw [hlive] at h₃
    exact ⟨bs₃, h₃⟩

/-- For every heap with its block list, every live pointer and every size but 0: `krealloc`
returns, and it moves the data and keeps everything else exactly if the copy fits. -/
theorem krealloc_keeps_iff (h : Rep buf c bs) (hp : p ∈ c.live) (hn : n ≠ 0) :
    ∃ q s, krealloc c.heap p n = some (q, s) ∧
      (ReallocKeeps buf c p n q s ↔ CopyFits bs (size c.heap.mem (p - HDR)) n) := by
  have hold : size c.heap.mem (p - HDR) ≤ HEAP_SIZE := by
    obtain ⟨b, hb, -, rfl⟩ := h.block_of_live hp
    rw [h.size_eq hb]
    exact h.size_le hb
  have hmalloc := kmalloc_find h hn
  rw [krealloc_eq h hp hn]
  cases hfind : bs.find? (fits (roundSize n)) with
  | none =>
      rw [hfind] at hmalloc
      rw [hmalloc]
      refine ⟨0, c.heap, rfl, iff_of_true ⟨fun h0 => absurd rfl h0, fun _ => rfl⟩ ?_⟩
      -- there is no free block, also none for the smallest request
      rcases Nat.lt_or_ge (2 ^ 64 - 8) n.toNat with hgt | hle
      · rw [roundSize_of_gt hgt] at hfind
        right
        intro b hb
        rw [hfind] at hb
        cases hb
      · exact Or.inl hle
  | some b =>
      rw [hfind] at hmalloc
      have hq : b.addr + HDR ≠ 0 := by
        have hH := HDR_eq
        omega
      rw [hmalloc, Option.map_some]
      dsimp only
      rw [if_neg hq]
      refine ⟨_, _, rfl, ?_⟩
      rw [copyFits_iff hfind hold]
      constructor
      · intro hkeeps
        have hinside := (hkeeps.1 hq).inside _ hmalloc
        rw [Nat.add_sub_cancel, size_allocateMem _ _ (roundSize_bounds n).2,
          (h.linked.mem (List.mem_of_find?_eq_some hfind)).1] at hinside
        exact hinside
      · intro hlen
        exact ⟨fun _ => reallocated_of_fits h hp hfind hlen rfl hmalloc, fun h0 => absurd h0 hq⟩

end Realloc

/-- The heap with one block of 200 bytes handed out. -/
theorem reachable_two_hundred : ∃ c, Lts.Reachable (system bootBuffer) c ∧
    c.live = [0x200000 + HDR] ∧ kmalloc bootHeap 200 = some (0x200000 + HDR, c.heap) := by
  have hinit := Lts.Reachable.init bootHeap_init
  have hptr : ((kmalloc bootHeap 200).map fun r => (r.1, ())) = some (0x200000 + HDR, ()) := by
    decide
  obtain ⟨s, hcall, -⟩ := exists_of_map hptr
  have hnext : (system bootBuffer).Next (.kmalloc 200) ⟨bootHeap, []⟩ ⟨s, [0x200000 + HDR]⟩ :=
    ⟨_, s, hcall, by rw [if_neg (by decide)]⟩
  exact ⟨_, hinit.step hnext, rfl, hcall⟩

/-- The block of 200 bytes is made one of 400. -/
theorem krealloc_keeps_grown : ∃ c p q s, Lts.Reachable (system bootBuffer) c ∧ p ∈ c.live ∧
    krealloc c.heap p 400 = some (q, s) ∧ ReallocKeeps bootBuffer c p 400 q s := by
  obtain ⟨c, hreach, hlive, -⟩ := reachable_two_hundred
  obtain ⟨bs, h⟩ := rep_of_reachable hreach
  have hp : 0x200000 + HDR ∈ c.live := by rw [hlive]; exact List.mem_singleton_self _
  obtain ⟨q, s, hcall, hiff⟩ := krealloc_keeps_iff h hp (n := 400) (by decide)
  exact ⟨c, _, q, s, hreach, hp, hcall, hiff.mpr (Or.inl (by decide))⟩

/-- With `2^64 - 1` the new block has 32 bytes, and the copy of 200 bytes goes over the header
of the free block behind it. -/
theorem krealloc_overruns : ∃ c p q s, Lts.Reachable (system bootBuffer) c ∧ p ∈ c.live ∧
    krealloc c.heap p 0xFFFFFFFFFFFFFFFF = some (q, s) ∧ magic s.mem (q + 32) = 0 ∧
    ¬ ReallocKeeps bootBuffer c p 0xFFFFFFFFFFFFFFFF q s := by
  obtain ⟨c, hreach, hlive, hc⟩ := reachable_two_hundred
  have hp : 0x200000 + HDR ∈ c.live := by rw [hlive]; exact List.mem_singleton_self _
  have hrun : ((kmalloc bootHeap 200).bind fun r => krealloc r.2 r.1 0xFFFFFFFFFFFFFFFF).map
      (fun r => (r.1, magic r.2.mem (r.1 + 32))) = some (0x200118, 0) := by decide
  have hsizes : ((kmalloc bootHeap 200).bind fun r => (kmalloc r.2 0xFFFFFFFFFFFFFFFF).map
      fun r' => (r'.1, size r.2.mem (r.1 - HDR), size r'.2.mem (r'.1 - HDR))) =
        some (0x200118, 200, 32) := by decide
  rw [hc, Option.bind_some] at hrun hsizes
  obtain ⟨s, hcall, hmagic⟩ := exists_of_map hrun
  obtain ⟨s₁, hmalloc, hsize⟩ := exists_of_map hsizes
  obtain ⟨hold, hnew⟩ := Prod.mk.inj hsize
  refine ⟨c, _, _, s, hreach, hp, hcall, hmagic, fun hkeeps => ?_⟩
  have hinside := (hkeeps.1 (by decide)).inside s₁ hmalloc
  rw [hold, hnew] at hinside
  exact absurd hinside (by decide)

end OmniOS.Heap
