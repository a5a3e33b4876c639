import OmniOS.Kernel.Heap

/-!
# OmniOS.Kernel.HeapBlocks — block lists and the headers that spell them

The heap is a list of blocks. Three predicates say what the list is and how
memory represents it:

* `Tiles a bs e`: the blocks are laid end to end and cover `[a, e)`;
* `Linked m p bs q`: the headers in `m` describe the blocks in order, with
  `next` and `prev` linking neighbours (`p` before the first, `q` after the
  last);
* `NoAdjFree bs`: no two neighbours are free.

Headers of a tiling do not overlap, so an edit of one header leaves the others
alone (`Linked.frame`). The two edits the allocator makes are then two lemmas:
`linked_allocate` (mark a block used, splitting it or not) and `linked_merge`
(absorb the next block). Both of `kfree`'s merges are the second one.
-/

namespace OmniOS.Heap

open Memory

theorem HDR_eq : HDR = 40 := rfl

/-- A block as its header describes it. -/
structure Block where
  addr : Nat
  size : Nat
  free : Bool

/-- Blocks laid end to end from `a` to `e`. -/
def Tiles : Nat → List Block → Nat → Prop
  | a, [], e => a = e
  | a, b :: bs, e => b.addr = a ∧ Tiles (a + HDR + b.size) bs e

/-- No two neighbouring blocks are both free. -/
def NoAdjFree (bs : List Block) : Prop :=
  bs.IsChain fun b c => ¬ (b.free = true ∧ c.free = true)

/-- The header of `b` lies in memory, with links `p` and `n`. -/
structure HdrAt (m : Mem) (b : Block) (p n : Nat) : Prop where
  magic : magic m b.addr = HEAP_MAGIC
  size : size m b.addr = b.size
  free : free m b.addr = b.free
  next : next m b.addr = n
  prev : prev m b.addr = p

/-- Address of the first block, or `q` when there is none. -/
def headAddr : List Block → Nat → Nat
  | [], q => q
  | b :: _, _ => b.addr

/-- Address of the last block, or `p` when there is none. -/
def lastAddr : Nat → List Block → Nat
  | p, [] => p
  | _, b :: bs => lastAddr b.addr bs

/-- The headers of `bs` form a doubly linked segment from `p` to `q`. -/
def Linked (m : Mem) : Nat → List Block → Nat → Prop
  | _, [], _ => True
  | p, b :: bs, q => HdrAt m b p (headAddr bs q) ∧ Linked m b.addr bs q

/-! ## Tilings -/

theorem tiles_append {a e : Nat} {xs ys : List Block} :
    Tiles a (xs ++ ys) e ↔ ∃ c, Tiles a xs c ∧ Tiles c ys e := by
  induction xs generalizing a with
  | nil => simp [Tiles]
  | cons x xs ih =>
      simp only [List.cons_append, Tiles, ih]
      constructor
      · rintro ⟨hx, c, hxs, hys⟩
        exact ⟨c, ⟨hx, hxs⟩, hys⟩
      · rintro ⟨c, ⟨hx, hxs⟩, hys⟩
        exact ⟨hx, c, hxs, hys⟩

theorem Tiles.le {a e : Nat} {bs : List Block} (h : Tiles a bs e) :
    a + bs.length * HDR ≤ e := by
  induction bs generalizing a with
  | nil =>
      have : a = e := h
      simp [this]
  | cons b bs ih =>
      have hrest := ih h.2
      rw [List.length_cons, Nat.add_mul]
      omega

/-- Every block of a tiling lies inside it. -/
theorem Tiles.bounds {a e : Nat} {bs : List Block} (h : Tiles a bs e)
    {b : Block} (hb : b ∈ bs) : a ≤ b.addr ∧ b.addr + HDR + b.size ≤ e := by
  obtain ⟨xs, ys, rfl⟩ := List.append_of_mem hb
  obtain ⟨c, hxs, hb', hys⟩ := tiles_append.mp h
  have h1 := hxs.le
  have h2 := hys.le
  omega

/-- What a split of the list at `b` says about addresses: the blocks before
`b` end where it starts, the blocks after it start where it ends. -/
theorem Tiles.split {a e : Nat} {xs ys : List Block} {b : Block}
    (h : Tiles a (xs ++ b :: ys) e) :
    Tiles a xs b.addr ∧ Tiles (b.addr + HDR + b.size) ys e := by
  obtain ⟨c, hxs, hb, hys⟩ := tiles_append.mp h
  subst hb
  exact ⟨hxs, hys⟩

theorem Tiles.of_split {a e : Nat} {xs ys : List Block} {b : Block}
    (hxs : Tiles a xs b.addr) (hys : Tiles (b.addr + HDR + b.size) ys e) :
    Tiles a (xs ++ b :: ys) e :=
  tiles_append.mpr ⟨b.addr, hxs, rfl, hys⟩

theorem Tiles.headAddr {c e q : Nat} {bs : List Block} (h : Tiles c bs e)
    (hne : bs ≠ []) : headAddr bs q = c := by
  cases bs with
  | nil => exact absurd rfl hne
  | cons b bs => exact h.1

/-! ## Linked segments -/

theorem headAddr_append (xs ys : List Block) (q : Nat) :
    headAddr (xs ++ ys) q = headAddr xs (headAddr ys q) := by
  cases xs <;> rfl

theorem linked_append {m : Mem} {p q : Nat} {xs ys : List Block} :
    Linked m p (xs ++ ys) q ↔
      Linked m p xs (headAddr ys q) ∧ Linked m (lastAddr p xs) ys q := by
  induction xs generalizing p with
  | nil => simp [Linked, lastAddr]
  | cons x xs ih =>
      simp only [List.cons_append, Linked, lastAddr, headAddr_append, ih, and_assoc]

theorem Linked.mem {m : Mem} {p q : Nat} {bs : List Block} (h : Linked m p bs q)
    {b : Block} (hb : b ∈ bs) : size m b.addr = b.size ∧ free m b.addr = b.free := by
  obtain ⟨xs, ys, rfl⟩ := List.append_of_mem hb
  have hhdr := (linked_append.mp h).2.1
  exact ⟨hhdr.size, hhdr.free⟩

theorem HdrAt.frame {m m' : Mem} {b : Block} {p n : Nat} (h : HdrAt m b p n)
    (hm : ∀ x, b.addr ≤ x → x < b.addr + HDR → m' x = m x) : HdrAt m' b p n := by
  have hH := HDR_eq
  have hload : ∀ k off, off + k ≤ HDR →
      load m' k (b.addr + off) = load m k (b.addr + off) := by
    intro k off hoff
    exact load_congr fun x hx hx' => hm x (by omega) (by omega)
  constructor
  · rw [← h.magic]; exact hload 4 0 (by omega)
  · rw [← h.size]; exact hload 8 8 (by omega)
  · rw [← h.free, Heap.free, Heap.free, hload 1 16 (by omega)]
  · rw [← h.next]; exact hload 8 24 (by omega)
  · rw [← h.prev]; exact hload 8 32 (by omega)

/-- A segment is unchanged by writes outside its headers. -/
theorem Linked.frame {m m' : Mem} {p q : Nat} {bs : List Block}
    (h : Linked m p bs q)
    (hm : ∀ b ∈ bs, ∀ x, b.addr ≤ x → x < b.addr + HDR → m' x = m x) :
    Linked m' p bs q := by
  induction bs generalizing p with
  | nil => trivial
  | cons b bs ih =>
      refine ⟨h.1.frame (hm b List.mem_cons_self), ih h.2 fun c hc => ?_⟩
      exact hm c (List.mem_cons_of_mem b hc)

/-- Writes at or above `c` leave a segment that ends at `c` alone. -/
theorem Linked.frame_below {m m' : Mem} {p q a c : Nat} {bs : List Block}
    (h : Linked m p bs q) (ht : Tiles a bs c)
    (hm : ∀ x, x < c → m' x = m x) : Linked m' p bs q := by
  apply h.frame
  intro b hb x _ hx
  have hbd := ht.bounds hb
  exact hm x (by omega)

/-- Writes below `c` leave a segment that starts at `c` alone. -/
theorem Linked.frame_above {m m' : Mem} {p q c e : Nat} {bs : List Block}
    (h : Linked m p bs q) (ht : Tiles c bs e)
    (hm : ∀ x, c ≤ x → m' x = m x) : Linked m' p bs q := by
  apply h.frame
  intro b hb x hx _
  have hbd := ht.bounds hb
  exact hm x (by omega)

/-- The address lies in no header of the list. -/
def OutsideHeaders (bs : List Block) (x : Nat) : Prop :=
  ∀ b ∈ bs, x < b.addr ∨ b.addr + HDR ≤ x

theorem OutsideHeaders.headAddr {bs : List Block} {x : Nat} (h : OutsideHeaders bs x)
    (hne : headAddr bs 0 ≠ 0) : x < headAddr bs 0 ∨ headAddr bs 0 + HDR ≤ x := by
  cases bs with
  | nil => exact absurd rfl hne
  | cons b bs => exact h b List.mem_cons_self

/-- The payload of a block lies in no header. -/
theorem Tiles.outsideHeaders {a e x : Nat} {bs : List Block} (h : Tiles a bs e) {b : Block}
    (hb : b ∈ bs) (hx : b.addr + HDR ≤ x ∧ x < b.addr + HDR + b.size) : OutsideHeaders bs x := by
  obtain ⟨xs, ys, rfl⟩ := List.append_of_mem hb
  obtain ⟨hxs, hys⟩ := h.split
  intro c hc
  rcases List.mem_append.mp hc with hc | hc
  · have hbelow := hxs.bounds hc
    right
    omega
  · rcases List.mem_cons.mp hc with rfl | hc
    · exact Or.inr hx.1
    · have habove := hys.bounds hc
      left
      omega

/-! ## Edits of one header -/

section Outside

variable {m : Mem} {b v x : Nat} (h : x < b ∨ b + HDR ≤ x)
include h

theorem setMagic_apply : setMagic m b v x = m x :=
  store_apply_of_notMem m (by have := HDR_eq; omega)

theorem setSize_apply : setSize m b v x = m x :=
  store_apply_of_notMem m (by have := HDR_eq; omega)

theorem setFree_apply {f : Bool} : setFree m b f x = m x :=
  store_apply_of_notMem m (by have := HDR_eq; omega)

theorem setNext_apply : setNext m b v x = m x :=
  store_apply_of_notMem m (by have := HDR_eq; omega)

theorem setPrev_apply : setPrev m b v x = m x :=
  store_apply_of_notMem m (by have := HDR_eq; omega)

end Outside

section Fields

variable {m : Mem} {b : Block} {p n v : Nat} (h : HdrAt m b p n)
include h

theorem HdrAt.setPrev (hv : v < 2 ^ 64) : HdrAt (setPrev m b.addr v) b v n := by
  obtain ⟨h1, h2, h3, h4, -⟩ := h
  simp only [Heap.magic, Heap.size, Heap.free, Heap.next] at h1 h2 h3 h4
  constructor <;> simp (disch := omega) only [Heap.setPrev, Heap.magic, Heap.size, Heap.free,
    Heap.next, Heap.prev, load_store_of_disjoint, load_store_self, h1, h2, h3, h4]

theorem HdrAt.setNext (hv : v < 2 ^ 64) : HdrAt (setNext m b.addr v) b p v := by
  obtain ⟨h1, h2, h3, -, h5⟩ := h
  simp only [Heap.magic, Heap.size, Heap.free, Heap.prev] at h1 h2 h3 h5
  constructor <;> simp (disch := omega) only [Heap.setNext, Heap.magic, Heap.size, Heap.free,
    Heap.next, Heap.prev, load_store_of_disjoint, load_store_self, h1, h2, h3, h5]

theorem HdrAt.setSize (hv : v < 2 ^ 64) :
    HdrAt (setSize m b.addr v) ⟨b.addr, v, b.free⟩ p n := by
  obtain ⟨h1, -, h3, h4, h5⟩ := h
  simp only [Heap.magic, Heap.free, Heap.next, Heap.prev] at h1 h3 h4 h5
  constructor <;> simp (disch := omega) only [Heap.setSize, Heap.magic, Heap.size, Heap.free,
    Heap.next, Heap.prev, load_store_of_disjoint, load_store_self, h1, h3, h4, h5]

theorem HdrAt.setFree {f : Bool} : HdrAt (setFree m b.addr f) ⟨b.addr, b.size, f⟩ p n := by
  obtain ⟨h1, h2, -, h4, h5⟩ := h
  have hf : f.toNat < 256 ^ 1 := by cases f <;> decide
  simp only [Heap.magic, Heap.size, Heap.next, Heap.prev] at h1 h2 h4 h5
  constructor <;> simp (disch := omega) only [Heap.setFree, Heap.magic, Heap.size, Heap.free,
    Heap.next, Heap.prev, load_store_of_disjoint, load_store_self, h1, h2, h4, h5]
  cases f <;> rfl

theorem HdrAt.setMagic : HdrAt (setMagic m b.addr HEAP_MAGIC) b p n := by
  obtain ⟨-, h2, h3, h4, h5⟩ := h
  have hM : HEAP_MAGIC < 256 ^ 4 := by decide
  simp only [Heap.size, Heap.free, Heap.next, Heap.prev] at h2 h3 h4 h5
  constructor <;> simp (disch := omega) only [Heap.setMagic, Heap.magic, Heap.size, Heap.free,
    Heap.next, Heap.prev, load_store_of_disjoint, load_store_self, h2, h3, h4, h5]

end Fields

/-- A header written field by field. -/
def newHeader (m : Mem) (b sz n p : Nat) : Mem :=
  setPrev (setNext (setFree (setSize (setMagic m b HEAP_MAGIC) b sz) b true) b n) b p

theorem newHeader_apply {m : Mem} {b sz n p x : Nat} (h : x < b ∨ b + HDR ≤ x) :
    newHeader m b sz n p x = m x := by
  simp only [newHeader, setPrev_apply h, setNext_apply h, setFree_apply h,
    setSize_apply h, setMagic_apply h]

theorem hdrAt_newHeader {m : Mem} {b sz n p : Nat}
    (hsz : sz < 2 ^ 64) (hn : n < 2 ^ 64) (hp : p < 2 ^ 64) :
    HdrAt (newHeader m b sz n p) ⟨b, sz, true⟩ p n := by
  have hM : HEAP_MAGIC < 256 ^ 4 := by decide
  have hf : Bool.toNat true < 256 ^ 1 := by decide
  constructor <;> simp (disch := omega) only [newHeader, setMagic, setSize, setFree, setNext,
    setPrev, magic, size, free, next, prev, load_store_of_disjoint, load_store_self]
  rfl

theorem patchPrev_apply {m : Mem} {b v x : Nat}
    (h : b ≠ 0 → x < b ∨ b + HDR ≤ x) : patchPrev m b v x = m x := by
  unfold patchPrev
  split
  · next hb => exact setPrev_apply (h hb)
  · rfl

/-- `if (next) next->prev = v` moves the front link of the segment that
starts at `next`. -/
theorem linked_patchPrev {m : Mem} {p v c e : Nat} {ys : List Block}
    (h : Linked m p ys 0) (ht : Tiles c ys e) (hc : 0 < c) (hv : v < 2 ^ 64) :
    Linked (patchPrev m (headAddr ys 0) v) v ys 0 := by
  cases ys with
  | nil => trivial
  | cons y ys =>
      have hy : y.addr = c := ht.1
      have hne : y.addr ≠ 0 := by omega
      simp only [headAddr, patchPrev, hne, ne_eq, not_false_eq_true, if_true]
      refine ⟨h.1.setPrev hv, h.2.frame_above ht.2 fun x hx => ?_⟩
      exact setPrev_apply (by omega)

/-- The patch of `next->prev` stays above the start of the segment. -/
theorem patchPrev_apply_below {m : Mem} {v c e x : Nat} {ys : List Block}
    (ht : Tiles c ys e) (hx : x < c) : patchPrev m (headAddr ys 0) v x = m x := by
  cases ys with
  | nil => exact patchPrev_apply fun h => absurd rfl h
  | cons y ys =>
      have hy : y.addr = c := ht.1
      exact patchPrev_apply fun _ => by simp only [headAddr]; omega

theorem headAddr_lt {c e : Nat} {ys : List Block} (ht : Tiles c ys e)
    (he : e < 2 ^ 64) : headAddr ys 0 < 2 ^ 64 := by
  cases ys with
  | nil => simp [headAddr]
  | cons y ys =>
      have hy : y.addr = c := ht.1
      have hle := ht.le
      simp only [headAddr]
      omega

/-! ## Allocating a block -/

/-- The writes of `kmalloc` once it has found `block`. -/
def allocateMem (m : Mem) (block sz : Nat) : Mem :=
  setMagic (setFree (splitBlock m block sz) block false) block HEAP_MAGIC

/-- With the header of `b` in place, the split writes a fresh header behind
the first `sz` payload bytes, links it in, and shrinks `b`. -/
theorem splitBlock_eq {m : Mem} {b : Block} {p n sz : Nat} (h : HdrAt m b p n)
    (hb : b.size < 2 ^ 64) (hsz : sz + HDR + MIN_BLOCK_SIZE < b.size) :
    splitBlock m b.addr sz =
      setSize (setNext (patchPrev
        (newHeader m (b.addr + HDR + sz) (b.size - sz - HDR) n b.addr) n
        (b.addr + HDR + sz)) b.addr (b.addr + HDR + sz)) b.addr sz := by
  have hH := HDR_eq
  have hM : MIN_BLOCK_SIZE = 32 := rfl
  -- `block->size` and `block->next` are read after the new header is begun
  have hsize : ∀ v, size (setMagic m (b.addr + HDR + sz) v) b.addr = b.size := by
    intro v
    rw [← h.size]
    exact load_store_of_disjoint m (by omega)
  have hframe : ∀ m' : Mem, (∀ x, x < b.addr + HDR → m' x = m x) → next m' b.addr = n := by
    intro m' hm'
    exact (h.frame fun x _ hx => hm' x hx).next
  have hnext : ∀ v w, next (setFree (setSize (setMagic m (b.addr + HDR + sz) v)
      (b.addr + HDR + sz) w) (b.addr + HDR + sz) true) b.addr = n := by
    intro v w
    apply hframe
    intro x hx
    rw [setFree_apply (by omega), setSize_apply (by omega), setMagic_apply (by omega)]
  have hnext' : ∀ w k, next (newHeader m (b.addr + HDR + sz) w k b.addr) b.addr = n := by
    intro w k
    apply hframe
    intro x hx
    exact newHeader_apply (by omega)
  have hadd : add64 (add64 sz HDR) MIN_BLOCK_SIZE = sz + HDR + MIN_BLOCK_SIZE := by
    rw [add64_of_lt (a := sz) (by omega), add64_of_lt (by omega)]
  have hsub : sub64 (sub64 b.size sz) HDR = b.size - sz - HDR := by
    rw [sub64_of_le (a := b.size) (by omega) (by omega), sub64_of_le (by omega) (by omega)]
  unfold splitBlock
  rw [hadd, h.size, if_pos hsz]
  simp only [hsize, hsub, hnext]
  have := hnext' (b.size - sz - HDR) n
  simp only [newHeader] at this ⊢
  rw [this]

theorem linked_split {m : Mem} {b : Block} {p e sz : Nat} {ys : List Block}
    (h : Linked m p (b :: ys) 0) (ht : Tiles (b.addr + HDR + b.size) ys e)
    (he : e < 2 ^ 64) (hsz : sz + HDR + MIN_BLOCK_SIZE < b.size) :
    Linked (allocateMem m b.addr sz) p
      (⟨b.addr, sz, false⟩ :: ⟨b.addr + HDR + sz, b.size - sz - HDR, true⟩ :: ys) 0 := by
  have hH := HDR_eq
  have hM : MIN_BLOCK_SIZE = 32 := rfl
  have hle := ht.le
  obtain ⟨hb, hys⟩ := h
  have hn := headAddr_lt ht he
  rw [allocateMem, splitBlock_eq hb (by omega) hsz]
  generalize hm₁ : newHeader m (b.addr + HDR + sz) (b.size - sz - HDR) (headAddr ys 0) b.addr = m₁
  generalize hm₂ : patchPrev m₁ (headAddr ys 0) (b.addr + HDR + sz) = m₂
  -- the header of `b` is untouched until `block->next` is set
  have hb₂ : HdrAt m₂ b p (headAddr ys 0) := by
    refine hb.frame fun x _ hx => ?_
    rw [← hm₂, patchPrev_apply_below ht (by omega), ← hm₁]
    exact newHeader_apply (by omega)
  have hnew₂ : HdrAt m₂ ⟨b.addr + HDR + sz, b.size - sz - HDR, true⟩ b.addr (headAddr ys 0) := by
    have hnew₁ : HdrAt m₁ ⟨b.addr + HDR + sz, b.size - sz - HDR, true⟩ b.addr
        (headAddr ys 0) := by
      rw [← hm₁]
      exact hdrAt_newHeader (by omega) hn (by omega)
    refine hnew₁.frame fun x _ hx => ?_
    simp only at hx
    rw [← hm₂, patchPrev_apply_below ht (by omega)]
  have hys₂ : Linked m₂ (b.addr + HDR + sz) ys 0 := by
    rw [← hm₂]
    refine linked_patchPrev (p := b.addr) ?_ ht (by omega) (by omega)
    refine hys.frame_above ht fun x hx => ?_
    rw [← hm₁]
    exact newHeader_apply (by omega)
  -- the remaining writes go to the header of `b`
  have hrest : ∀ x, b.addr + HDR ≤ x →
      setMagic (setFree (setSize (setNext m₂ b.addr (b.addr + HDR + sz)) b.addr sz) b.addr false)
        b.addr HEAP_MAGIC x = m₂ x := by
    intro x hx
    rw [setMagic_apply (.inr hx), setFree_apply (.inr hx), setSize_apply (.inr hx),
      setNext_apply (.inr hx)]
  refine ⟨?_, hnew₂.frame fun x hx _ => hrest x (by simp only at hx; omega),
    hys₂.frame_above ht fun x hx => hrest x (by omega)⟩
  have hb₃ := hb₂.setNext (v := b.addr + HDR + sz) (by omega)
  have hb₄ := hb₃.setSize (v := sz) (by omega)
  have hb₅ := hb₄.setFree (f := false)
  exact hb₅.setMagic

/-- The blocks `kmalloc` leaves in place of the free block `b`. -/
def allocated (b : Block) (sz : Nat) : List Block :=
  if sz + HDR + MIN_BLOCK_SIZE < b.size then
    [⟨b.addr, sz, false⟩, ⟨b.addr + HDR + sz, b.size - sz - HDR, true⟩]
  else [⟨b.addr, b.size, false⟩]

theorem splitBlock_whole {m : Mem} {b : Block} {p n sz : Nat} (h : HdrAt m b p n)
    (hbs : b.size ≤ HEAP_SIZE) (hsz : ¬ sz + HDR + MIN_BLOCK_SIZE < b.size)
    (hle : sz ≤ b.size) : splitBlock m b.addr sz = m := by
  have hH := HDR_eq
  have hM : MIN_BLOCK_SIZE = 32 := rfl
  have hS : HEAP_SIZE = 67108864 := rfl
  have hadd : add64 (add64 sz HDR) MIN_BLOCK_SIZE = sz + HDR + MIN_BLOCK_SIZE := by
    rw [add64_of_lt (a := sz) (by omega), add64_of_lt (by omega)]
  rw [splitBlock, hadd, h.size, if_neg hsz]

/-- A block that is not split only changes its flag. -/
theorem linked_whole {m : Mem} {b : Block} {p e sz : Nat} {ys : List Block}
    (h : Linked m p (b :: ys) 0) (ht : Tiles (b.addr + HDR + b.size) ys e)
    (hbs : b.size ≤ HEAP_SIZE) (hsz : ¬ sz + HDR + MIN_BLOCK_SIZE < b.size)
    (hle : sz ≤ b.size) :
    Linked (allocateMem m b.addr sz) p (⟨b.addr, b.size, false⟩ :: ys) 0 := by
  rw [allocateMem, splitBlock_whole h.1 hbs hsz hle]
  refine ⟨h.1.setFree.setMagic, h.2.frame_above ht fun x hx => ?_⟩
  rw [setMagic_apply (.inr (by omega)), setFree_apply (.inr (by omega))]

theorem allocateMem_apply_below {m : Mem} {b : Block} {p e sz x : Nat} {ys : List Block}
    (h : Linked m p (b :: ys) 0) (ht : Tiles (b.addr + HDR + b.size) ys e)
    (hbs : b.size ≤ HEAP_SIZE) (hle : sz ≤ b.size) (hx : x < b.addr) :
    allocateMem m b.addr sz x = m x := by
  have hS : HEAP_SIZE = 67108864 := rfl
  rw [allocateMem, setMagic_apply (.inl hx), setFree_apply (.inl hx)]
  by_cases hsz : sz + HDR + MIN_BLOCK_SIZE < b.size
  · rw [splitBlock_eq h.1 (by omega) hsz, setSize_apply (.inl hx), setNext_apply (.inl hx),
      patchPrev_apply_below ht (by omega)]
    exact newHeader_apply (by omega)
  · rw [splitBlock_whole h.1 hbs hsz hle]

/-- `kmalloc` writes headers only: those of the list it leaves. -/
theorem allocateMem_apply {m : Mem} {b : Block} {p sz x : Nat} {ys : List Block}
    (h : Linked m p (b :: ys) 0) (hbs : b.size ≤ HEAP_SIZE) (hle : sz ≤ b.size)
    (hx : OutsideHeaders (allocated b sz ++ ys) x) : allocateMem m b.addr sz x = m x := by
  have hS : HEAP_SIZE = 67108864 := rfl
  have hown : x < b.addr ∨ b.addr + HDR ≤ x := by
    unfold allocated at hx
    split at hx
    · exact hx ⟨b.addr, sz, false⟩ (by simp)
    · exact hx ⟨b.addr, b.size, false⟩ (by simp)
  rw [allocateMem, setMagic_apply hown, setFree_apply hown]
  by_cases hsz : sz + HDR + MIN_BLOCK_SIZE < b.size
  · simp only [allocated, hsz, if_true] at hx
    have hnew := hx ⟨b.addr + HDR + sz, b.size - sz - HDR, true⟩ (by simp)
    have hys : OutsideHeaders ys x := fun c hc => hx c (by simp [hc])
    rw [splitBlock_eq h.1 (by omega) hsz, setSize_apply hown, setNext_apply hown,
      patchPrev_apply hys.headAddr, newHeader_apply hnew]
  · rw [splitBlock_whole h.1 hbs hsz hle]

/-- `kmalloc` on the list: the found block gives way to the allocated ones. -/
theorem linked_allocate {m : Mem} {b : Block} {a e sz : Nat} {xs ys : List Block}
    (h : Linked m 0 (xs ++ b :: ys) 0) (ht : Tiles a (xs ++ b :: ys) e)
    (he : e < 2 ^ 64) (hbs : b.size ≤ HEAP_SIZE) (hle : sz ≤ b.size) :
    Linked (allocateMem m b.addr sz) 0 (xs ++ (allocated b sz ++ ys)) 0 := by
  obtain ⟨hxs, hb⟩ := linked_append.mp h
  obtain ⟨htxs, htys⟩ := ht.split
  have hhead : headAddr (allocated b sz ++ ys) 0 = b.addr := by
    unfold allocated
    split <;> rfl
  refine linked_append.mpr ⟨?_, ?_⟩
  · -- nothing below the block is written
    rw [hhead]
    refine hxs.frame_below htxs fun x hx => ?_
    exact allocateMem_apply_below hb htys hbs hle hx
  · by_cases hsz : sz + HDR + MIN_BLOCK_SIZE < b.size
    · simp only [allocated, hsz, if_true]
      exact linked_split hb htys he hsz
    · simp only [allocated, hsz, if_false]
      exact linked_whole hb htys hbs hsz hle

theorem tiles_allocated {b : Block} {a e sz : Nat} {xs ys : List Block}
    (ht : Tiles a (xs ++ b :: ys) e) : Tiles a (xs ++ (allocated b sz ++ ys)) e := by
  obtain ⟨htxs, htys⟩ := ht.split
  refine tiles_append.mpr ⟨b.addr, htxs, ?_⟩
  unfold allocated
  split
  · next hsz =>
      have hend : b.addr + HDR + sz + HDR + (b.size - sz - HDR) = b.addr + HDR + b.size := by
        omega
      refine ⟨rfl, rfl, ?_⟩
      rw [hend]
      exact htys
  · exact ⟨rfl, htys⟩

/-! ## Merging two neighbours -/

/-- Block `b` takes over the bytes and the forward link of its neighbour. -/
def mergeMem (m : Mem) (b n sz : Nat) : Mem :=
  patchPrev (setNext (setSize m b sz) b n) n b

theorem mergeMem_apply {m : Mem} {b sz x : Nat} {ys : List Block} (hb : x < b ∨ b + HDR ≤ x)
    (hys : OutsideHeaders ys x) : mergeMem m b (headAddr ys 0) sz x = m x := by
  rw [mergeMem, patchPrev_apply hys.headAddr, setNext_apply hb, setSize_apply hb]

theorem linked_merge {m : Mem} {b y : Block} {a e : Nat} {xs ys : List Block}
    (h : Linked m 0 (xs ++ b :: y :: ys) 0) (ht : Tiles a (xs ++ b :: y :: ys) e)
    (he : e < 2 ^ 64) :
    Linked (mergeMem m b.addr (headAddr ys 0) (b.size + HDR + y.size)) 0
      (xs ++ ⟨b.addr, b.size + HDR + y.size, b.free⟩ :: ys) 0 := by
  have hH := HDR_eq
  obtain ⟨hxs, hb, hy, hys⟩ := linked_append.mp h
  obtain ⟨htxs, htb⟩ := ht.split
  obtain ⟨hya, htys⟩ := htb
  have hend := htys.le
  have hn := headAddr_lt htys he
  -- writes below the segment behind the merged block
  have hlow : ∀ x, x < b.addr →
      mergeMem m b.addr (headAddr ys 0) (b.size + HDR + y.size) x = m x := by
    intro x hx
    rw [mergeMem, patchPrev_apply_below htys (by omega), setNext_apply (.inl hx),
      setSize_apply (.inl hx)]
  refine linked_append.mpr ⟨hxs.frame_below htxs hlow, ?_, ?_⟩
  · have hb₁ := hb.setSize (v := b.size + HDR + y.size) (by omega)
    have hb₂ := hb₁.setNext (v := headAddr ys 0) hn
    refine hb₂.frame fun x _ hx => ?_
    simp only at hx
    exact patchPrev_apply_below htys (by omega)
  · refine linked_patchPrev (p := y.addr) ?_ htys (by omega) (by omega)
    refine hys.frame_above htys fun x hx => ?_
    rw [setNext_apply (.inr (by omega)), setSize_apply (.inr (by omega))]

theorem tiles_merge {b y : Block} {a e : Nat} {xs ys : List Block}
    (ht : Tiles a (xs ++ b :: y :: ys) e) :
    Tiles a (xs ++ ⟨b.addr, b.size + HDR + y.size, b.free⟩ :: ys) e := by
  obtain ⟨htxs, -, htys⟩ := ht.split
  have hend : b.addr + HDR + b.size + HDR + y.size =
      b.addr + HDR + (b.size + HDR + y.size) := by omega
  rw [hend] at htys
  exact tiles_append.mpr ⟨b.addr, htxs, rfl, htys⟩

section Coalesce

variable {m : Mem} {b y : Block} {p n : Nat}
  (hb : HdrAt m b p y.addr) (hy : HdrAt m y b.addr n)
  (hya : y.addr = b.addr + HDR + b.size) (hfit : y.addr + HDR + y.size < 2 ^ 64)
include hb hy hya hfit

/-- "Coalesce with next block" merges `b` with a free right neighbour. -/
theorem coalesceNext_eq (hf : y.free = true) :
    coalesceNext m b.addr = mergeMem m b.addr n (b.size + HDR + y.size) := by
  have hH := HDR_eq
  have hpos : y.addr ≠ 0 := by omega
  have hadd : add64 b.size (add64 HDR y.size) = b.size + HDR + y.size := by
    rw [add64_of_lt (a := HDR) (by omega), add64_of_lt (by omega)]
    omega
  -- the new size leaves the header of `y` readable, and the new `next` is read back
  have hb₁ := hb.setSize (v := b.size + HDR + y.size) (by omega)
  have hy₁ : HdrAt (setSize m b.addr (b.size + HDR + y.size)) y b.addr n :=
    hy.frame fun x hx _ => setSize_apply (.inr (by omega))
  have hn : n < 2 ^ 64 := by
    rw [← hy.next]
    exact load_lt m 8 _
  have hb₂ := hb₁.setNext hn
  unfold coalesceNext
  rw [hb.next, hy.free, if_pos ⟨hpos, hf⟩, hb.size, hy.size]
  simp only [hadd, hb₁.next, hy₁.next, hb₂.next, mergeMem]

/-- "Coalesce with prev block" does the same edit from the right. -/
theorem coalescePrev_eq (hf : b.free = true) (hpos : b.addr ≠ 0) :
    coalescePrev m y.addr = mergeMem m b.addr n (b.size + HDR + y.size) := by
  have hH := HDR_eq
  have hadd : add64 b.size (add64 HDR y.size) = b.size + HDR + y.size := by
    rw [add64_of_lt (a := HDR) (by omega), add64_of_lt (by omega)]
    omega
  have hy₁ : HdrAt (setSize m b.addr (b.size + HDR + y.size)) y b.addr n :=
    hy.frame fun x hx _ => setSize_apply (.inr (by omega))
  have hy₂ : HdrAt (setNext (setSize m b.addr (b.size + HDR + y.size)) b.addr n) y b.addr n :=
    hy₁.frame fun x hx _ => setNext_apply (.inr (by omega))
  unfold coalescePrev
  rw [hy.prev, hb.free, if_pos ⟨hpos, hf⟩, hb.size, hy.size]
  simp only [hadd, hy₁.prev, hy₁.next, hy₂.next, hy₂.prev, mergeMem]

end Coalesce

end OmniOS.Heap
