import Mathlib.Algebra.BigOperators.Group.List.Basic
import Mathlib.Data.Set.Lattice
import Mathlib.Order.CompletePartialOrder
import Mathlib.Order.Interval.Set.Disjoint
import OmniOS.Lib.Chain
import OmniOS.Kernel.Pmm

/-!
# OmniOS.Kernel.PmmInv — no page is lost, none is owned twice

The allocator moves blocks between the free lists and their owners, and splits
them. The proof follows the blocks, wherever they are:

1. **Blocks.** A block is an order and an address. Splitting one in two halves
   changes neither the pages covered nor their number, and keeps disjoint
   blocks disjoint (`Same.split`, `pairwiseDisjoint_split`).
2. **Ownership.** `Owns s ls hs`: the lists `ls` are threaded through memory,
   and together with the blocks `hs` held outside they are disjoint. Popping,
   splitting, pushing and writing into a held block keep it.
3. **Runs.** `Inv` adds the counter and the comparison with the starting
   state; every call keeps it.
-/

namespace OmniOS.Pmm

open Memory

theorem PAGE_SIZE_eq : PAGE_SIZE = 4096 := rfl

/-- `2^order` pages from address `addr`. -/
structure Block where
  order : Nat
  addr : Nat
deriving DecidableEq

/-- The page numbers of a block. -/
def Block.pages (b : Block) : Set Nat :=
  Set.Ico (b.addr / PAGE_SIZE) (b.addr / PAGE_SIZE + 2 ^ b.order)

/-- The blocks on the free lists `ls 0`, ..., `ls 10`. -/
def freeBlocks (ls : Nat → List Nat) : List Block :=
  (List.range PMM_NUM_ORDERS).flatMap fun k => (ls k).map (Block.mk k)

/-- The blocks handed out. -/
def liveBlocks (live : List (Nat × UInt64)) : List Block :=
  live.map fun b => ⟨(orderOf b.2).getD 0, b.1⟩

def PairwiseDisjoint (bs : List Block) : Prop :=
  bs.Pairwise fun b c => Disjoint b.pages c.pages

/-- All pages of some blocks. -/
def pagesOf (bs : List Block) : Set Nat := {p | ∃ b ∈ bs, p ∈ b.pages}

/-- How many pages they have, block by block. -/
def pageCount (bs : List Block) : Nat := (bs.map fun b => 2 ^ b.order).sum

/-- A zone is well formed, with `ls` on its free lists. -/
structure WellFormed (s : State) (ls : Nat → List Nat) : Prop where
  lists : ∀ k ≤ PMM_MAX_ORDER, Chain.Visits (next s.mem) (s.freeLists k) (ls k)
  disjoint : PairwiseDisjoint (freeBlocks ls)
  aligned : ∀ b ∈ freeBlocks ls, PAGE_SIZE ∣ b.addr
  /-- All `2^k` pages of a block exist. -/
  fits : ∀ b ∈ freeBlocks ls, b.addr + 2 ^ b.order * PAGE_SIZE ≤ 2 ^ 64
  count : s.freeCount.toNat = pageCount (freeBlocks ls)

/-! ## Blocks -/

/-- What holds of every block, free or not. -/
structure Block.Good (b : Block) : Prop where
  pos : b.addr ≠ 0
  order_le : b.order ≤ PMM_MAX_ORDER
  aligned : PAGE_SIZE ∣ b.addr
  fits : b.addr + 2 ^ b.order * PAGE_SIZE ≤ 2 ^ 64

theorem page_le_block (k : Nat) : PAGE_SIZE ≤ 2 ^ k * PAGE_SIZE :=
  Nat.le_mul_of_pos_left _ (Nat.two_pow_pos k)

/-- Disjoint blocks are apart in memory. -/
theorem Block.Good.apart {b c : Block} (hb : b.Good) (hc : c.Good)
    (h : Disjoint b.pages c.pages) :
    b.addr + 2 ^ b.order * PAGE_SIZE ≤ c.addr ∨ c.addr + 2 ^ c.order * PAGE_SIZE ≤ b.addr := by
  have hP := PAGE_SIZE_eq
  obtain ⟨q, hq⟩ := hb.aligned
  obtain ⟨r, hr⟩ := hc.aligned
  have hbpos : 0 < 2 ^ b.order := Nat.two_pow_pos _
  have hcpos : 0 < 2 ^ c.order := Nat.two_pow_pos _
  rw [Block.pages, Block.pages, Set.Ico_disjoint_Ico, hq, hr,
    Nat.mul_div_cancel_left _ (by omega), Nat.mul_div_cancel_left _ (by omega)] at h
  rw [hP] at hq hr ⊢
  -- the block with the lower page number ends before the other begins
  rcases Nat.le_total q r with hqr | hqr
  · left
    have : q + 2 ^ b.order ≤ r := by omega
    omega
  · right
    have : r + 2 ^ c.order ≤ q := by omega
    omega

theorem pairwiseDisjoint_perm {bs bs' : List Block} (h : bs.Perm bs') :
    PairwiseDisjoint bs ↔ PairwiseDisjoint bs' :=
  h.pairwise_iff fun hbc => Disjoint.symm hbc

/-- The two halves of a block of order `k + 1`. -/
theorem pages_split (k a : Nat) :
    Block.pages ⟨k + 1, a⟩ = Block.pages ⟨k, a⟩ ∪ Block.pages ⟨k, a + 2 ^ (k + PAGE_SHIFT)⟩ ∧
      Disjoint (Block.pages ⟨k, a⟩) (Block.pages ⟨k, a + 2 ^ (k + PAGE_SHIFT)⟩) := by
  have hP := PAGE_SIZE_eq
  have hhalf : (a + 2 ^ (k + PAGE_SHIFT)) / PAGE_SIZE = a / PAGE_SIZE + 2 ^ k := by
    rw [pow_add, show 2 ^ PAGE_SHIFT = PAGE_SIZE from rfl, Nat.add_mul_div_right _ _ (by omega)]
  simp only [Block.pages, hhalf, pow_succ]
  constructor
  · ext p
    simp only [Set.mem_union, Set.mem_Ico]
    omega
  · rw [Set.Ico_disjoint_Ico]
    omega

theorem pairwiseDisjoint_split {k a : Nat} {bs : List Block}
    (h : PairwiseDisjoint (⟨k + 1, a⟩ :: bs)) :
    PairwiseDisjoint (⟨k, a⟩ :: ⟨k, a + 2 ^ (k + PAGE_SHIFT)⟩ :: bs) := by
  obtain ⟨hunion, hhalves⟩ := pages_split k a
  obtain ⟨hhead, hbs⟩ := List.pairwise_cons.mp h
  refine List.pairwise_cons.mpr ⟨fun c hc => ?_, List.pairwise_cons.mpr ⟨fun c hc => ?_, hbs⟩⟩
  · rcases List.mem_cons.mp hc with rfl | hc
    · exact hhalves
    · have := hhead c hc
      rw [hunion, Set.disjoint_union_left] at this
      exact this.1
  · have := hhead c hc
    rw [hunion, Set.disjoint_union_left] at this
    exact this.2

/-- Two block lists cover the same pages, and as many. -/
def Same (bs bs' : List Block) : Prop :=
  pagesOf bs = pagesOf bs' ∧ pageCount bs = pageCount bs'

theorem Same.trans {as bs cs : List Block} (h : Same as bs) (h' : Same bs cs) : Same as cs :=
  ⟨h.1.trans h'.1, h.2.trans h'.2⟩

theorem Same.of_perm {bs bs' : List Block} (h : bs.Perm bs') : Same bs bs' := by
  refine ⟨?_, (h.map _).sum_eq⟩
  ext p
  simp only [pagesOf, Set.mem_ofPred_eq, h.mem_iff]

theorem Same.split (k a : Nat) (bs : List Block) :
    Same (⟨k + 1, a⟩ :: bs) (⟨k, a⟩ :: ⟨k, a + 2 ^ (k + PAGE_SHIFT)⟩ :: bs) := by
  obtain ⟨hunion, -⟩ := pages_split k a
  constructor
  · ext p
    simp only [pagesOf, Set.mem_ofPred_eq, List.exists_mem_cons_iff, hunion, Set.mem_union, or_assoc]
  · simp only [pageCount, List.map_cons, List.sum_cons, pow_succ]
    omega

theorem pageCount_cons (b : Block) (bs : List Block) :
    pageCount (b :: bs) = 2 ^ b.order + pageCount bs := by
  simp [pageCount]

theorem pageCount_append (bs cs : List Block) :
    pageCount (bs ++ cs) = pageCount bs + pageCount cs := by
  simp [pageCount]

/-! ## Free lists -/

theorem mem_freeBlocks {ls : Nat → List Nat} {b : Block} :
    b ∈ freeBlocks ls ↔ b.order ≤ PMM_MAX_ORDER ∧ b.addr ∈ ls b.order := by
  simp only [freeBlocks, List.mem_flatMap, List.mem_range, List.mem_map, PMM_NUM_ORDERS]
  constructor
  · rintro ⟨k, hk, a, ha, rfl⟩
    exact ⟨by dsimp only; omega, ha⟩
  · rintro ⟨hk, ha⟩
    exact ⟨b.order, by omega, b.addr, ha, rfl⟩

/-- A block in front of one list is one more block, in any order of lists. -/
theorem flatMap_cons_perm {R : List Nat} {ls : Nat → List Nat} {k b : Nat}
    (hR : R.Nodup) (hk : k ∈ R) :
    (R.flatMap fun j => (Function.update ls k (b :: ls k) j).map (Block.mk j)).Perm
      (⟨k, b⟩ :: R.flatMap fun j => (ls j).map (Block.mk j)) := by
  induction R with
  | nil => exact absurd hk List.not_mem_nil
  | cons j R ih =>
      obtain ⟨hj, hR⟩ := List.nodup_cons.mp hR
      rw [List.flatMap_cons, List.flatMap_cons]
      by_cases hjk : j = k
      · -- the list that grew: the others are as before
        subst hjk
        have hrest : (R.flatMap fun i => (Function.update ls j (b :: ls j) i).map (Block.mk i)) =
            R.flatMap fun i => (ls i).map (Block.mk i) := by
          apply List.flatMap_congr
          intro i hi
          have hij : i ≠ j := by
            rintro rfl
            exact hj hi
          rw [Function.update_of_ne hij]
        rw [Function.update_self, hrest]
        exact List.Perm.refl _
      · have hkR : k ∈ R := (List.mem_cons.mp hk).resolve_left (Ne.symm hjk)
        rw [Function.update_of_ne hjk]
        exact ((ih hR hkR).append_left _).trans List.perm_middle

theorem freeBlocks_push (ls : Nat → List Nat) {k : Nat} (b : Nat) (hk : k ≤ PMM_MAX_ORDER) :
    (freeBlocks (Function.update ls k (b :: ls k))).Perm (⟨k, b⟩ :: freeBlocks ls) :=
  flatMap_cons_perm List.nodup_range (List.mem_range.mpr (Nat.lt_succ_of_le hk))

/-! ## Ownership -/

/-- The lists `ls` are threaded through memory; their blocks and the blocks
`hs` held outside the lists are good and disjoint. -/
structure Owns (s : State) (ls : Nat → List Nat) (hs : List Block) : Prop where
  lists : ∀ k ≤ PMM_MAX_ORDER, Chain.Visits (next s.mem) (s.freeLists k) (ls k)
  good : ∀ b ∈ freeBlocks ls ++ hs, b.Good
  disjoint : PairwiseDisjoint (freeBlocks ls ++ hs)

theorem WellFormed.owns {s : State} {ls : Nat → List Nat} (h : WellFormed s ls) :
    Owns s ls [] := by
  refine ⟨h.lists, fun b hb => ?_, by rw [List.append_nil]; exact h.disjoint⟩
  rw [List.append_nil] at hb
  obtain ⟨hk, ha⟩ := mem_freeBlocks.mp hb
  exact ⟨(h.lists b.order hk).ne_zero ha, hk, h.aligned b hb, h.fits b hb⟩

theorem Owns.wellFormed {s : State} {ls : Nat → List Nat} {hs : List Block}
    (h : Owns s ls hs) (hcount : s.freeCount.toNat = pageCount (freeBlocks ls)) :
    WellFormed s ls := by
  refine ⟨h.lists, (List.pairwise_append.mp h.disjoint).1, fun b hb => ?_, fun b hb => ?_, hcount⟩
  · exact (h.good b (List.mem_append_left _ hb)).aligned
  · exact (h.good b (List.mem_append_left _ hb)).fits

section Ownership

variable {s : State} {ls ls' : Nat → List Nat} {hs hs' : List Block}

/-- Only where the blocks are matters, not in which order they are listed. -/
theorem Owns.of_perm (h : Owns s ls hs) {s' : State}
    (hlists : ∀ k ≤ PMM_MAX_ORDER, Chain.Visits (next s'.mem) (s'.freeLists k) (ls' k))
    (hperm : (freeBlocks ls ++ hs).Perm (freeBlocks ls' ++ hs')) : Owns s' ls' hs' :=
  ⟨hlists, fun b hb => h.good b (hperm.mem_iff.mpr hb),
    (pairwiseDisjoint_perm hperm).mp h.disjoint⟩

theorem Owns.good_free (h : Owns s ls hs) {k a : Nat} (hk : k ≤ PMM_MAX_ORDER)
    (ha : a ∈ ls k) : Block.Good ⟨k, a⟩ :=
  h.good ⟨k, a⟩ (List.mem_append_left _ (mem_freeBlocks.mpr ⟨hk, ha⟩))

/-- Writes inside a held block reach no link of a free block. -/
theorem Owns.frame (h : Owns s ls hs) {b : Block} (hb : b ∈ hs) {m : Mem}
    (hm : ∀ x, x < b.addr ∨ b.addr + 2 ^ b.order * PAGE_SIZE ≤ x → m x = s.mem x)
    {k : Nat} (hk : k ≤ PMM_MAX_ORDER) : ∀ a ∈ ls k, next m a = next s.mem a := by
  have hP := PAGE_SIZE_eq
  intro a ha
  have hfree : (⟨k, a⟩ : Block) ∈ freeBlocks ls := mem_freeBlocks.mpr ⟨hk, ha⟩
  have hdisj := (List.pairwise_append.mp h.disjoint).2.2 _ hfree b hb
  have hapart := (h.good_free hk ha).apart (h.good b (List.mem_append_right _ hb)) hdisj
  have hpage := page_le_block k
  dsimp only at hapart
  exact load_congr fun x hx hx' => hm x (by omega)

/-- Writing into a held block. -/
theorem Owns.write (h : Owns s ls hs) {b : Block} (hb : b ∈ hs) {s' : State}
    (hm : ∀ x, x < b.addr ∨ b.addr + 2 ^ b.order * PAGE_SIZE ≤ x → s'.mem x = s.mem x)
    (hlists : s'.freeLists = s.freeLists) : Owns s' ls hs := by
  refine h.of_perm (fun k hk => ?_) (List.Perm.refl _)
  rw [hlists]
  exact (h.lists k hk).congr (h.frame hb hm hk)

/-- The pages of a free block are free. -/
theorem Owns.page_free (h : Owns s ls hs) {k a x : Nat} (hk : k ≤ PMM_MAX_ORDER) (ha : a ∈ ls k)
    (hlow : a ≤ x) (hhigh : x < a + 2 ^ k * PAGE_SIZE) : x / PAGE_SIZE ∈ pagesOf (freeBlocks ls) := by
  have hP := PAGE_SIZE_eq
  obtain ⟨q, hq⟩ := (h.good_free hk ha).aligned
  refine ⟨⟨k, a⟩, mem_freeBlocks.mpr ⟨hk, ha⟩, ?_⟩
  dsimp only at hq
  rw [Block.pages, Set.mem_Ico]
  dsimp only
  rw [hq, Nat.mul_div_cancel_left _ (by omega)]
  rw [hq] at hlow hhigh
  constructor
  · rw [Nat.le_div_iff_mul_le (by omega), Nat.mul_comm]
    exact hlow
  · rw [Nat.div_lt_iff_lt_mul (by omega), Nat.add_mul, Nat.mul_comm q]
    exact hhigh

/-- Writing where no page is free. -/
theorem Owns.write_away (h : Owns s ls hs) {s' : State}
    (hm : ∀ x, x / PAGE_SIZE ∈ pagesOf (freeBlocks ls) → s'.mem x = s.mem x)
    (hlists : s'.freeLists = s.freeLists) : Owns s' ls hs := by
  have hP := PAGE_SIZE_eq
  refine h.of_perm (fun k hk => ?_) (List.Perm.refl _)
  rw [hlists]
  refine (h.lists k hk).congr fun a ha => load_congr fun x hx hx' => hm x ?_
  have hpage := page_le_block k
  exact h.page_free hk ha hx (by omega)

/-- List heads are addresses. -/
theorem Owns.head_lt (h : Owns s ls hs) {k : Nat} (hk : k ≤ PMM_MAX_ORDER) :
    s.freeLists k < 2 ^ 64 := by
  have hP := PAGE_SIZE_eq
  have hvisits := h.lists k hk
  cases hl : ls k with
  | nil =>
      rw [hl] at hvisits
      have : s.freeLists k = 0 := hvisits
      omega
  | cons a l =>
      rw [hl] at hvisits
      have hhead : s.freeLists k = a := hvisits.1
      have hgood := h.good_free hk (a := a) (by simp [hl])
      have hpage := page_le_block k
      have hfits := hgood.fits
      dsimp only at hfits
      omega

/-- Putting a held block in front of its list. -/
theorem Owns.push {k b : Nat} (h : Owns s ls (⟨k, b⟩ :: hs)) :
    Owns (push s k b) (Function.update ls k (b :: ls k)) hs := by
  have hP := PAGE_SIZE_eq
  have hgood := h.good ⟨k, b⟩ (by simp)
  have hk : k ≤ PMM_MAX_ORDER := hgood.order_le
  have hpage := page_le_block k
  have hlink : next (store s.mem 8 b (s.freeLists k)) b = s.freeLists k :=
    load_store_self _ (h.head_lt hk)
  have hframe : ∀ j, j ≤ PMM_MAX_ORDER → ∀ a ∈ ls j,
      next (store s.mem 8 b (s.freeLists k)) a = next s.mem a := by
    intro j hj
    refine h.frame (b := ⟨k, b⟩) (by simp) (fun x hx => ?_) hj
    dsimp only at hx
    exact store_apply_of_notMem _ (by omega)
  refine h.of_perm (fun j hj => ?_) ?_
  · by_cases hjk : j = k
    · -- the list that grew: its new head links to the old one
      subst hjk
      simp only [Pmm.push, Function.update_self]
      refine ⟨rfl, hgood.pos, ?_⟩
      rw [hlink]
      exact (h.lists j hj).congr (hframe j hj)
    · simp only [Pmm.push, Function.update_of_ne hjk]
      exact (h.lists j hj).congr (hframe j hj)
  · exact List.perm_middle.trans ((freeBlocks_push ls b hk).symm.append_right hs)

/-- Taking the first block off a list. -/
theorem Owns.pop (h : Owns s ls hs) {k : Nat} (hk : k ≤ PMM_MAX_ORDER)
    (hne : s.freeLists k ≠ 0) :
    ∃ ls', (freeBlocks ls).Perm (⟨k, s.freeLists k⟩ :: freeBlocks ls') ∧
      Owns { s with freeLists := Function.update s.freeLists k (next s.mem (s.freeLists k)) }
        ls' (⟨k, s.freeLists k⟩ :: hs) := by
  have hvisits := h.lists k hk
  cases hl : ls k with
  | nil =>
      rw [hl] at hvisits
      exact absurd hvisits hne
  | cons a l =>
      rw [hl] at hvisits
      obtain ⟨hhead, -, htail⟩ := hvisits
      -- seen backwards, the old lists are the new ones with `a` pushed
      have hls : ls = Function.update (Function.update ls k l) k (a :: Function.update ls k l k) := by
        rw [Function.update_self, Function.update_idem, ← hl, Function.update_eq_self]
      have hperm : (freeBlocks ls).Perm (⟨k, a⟩ :: freeBlocks (Function.update ls k l)) := by
        have := freeBlocks_push (Function.update ls k l) a hk
        rwa [← hls] at this
      refine ⟨Function.update ls k l, by rw [hhead]; exact hperm, ?_⟩
      refine h.of_perm (fun j hj => ?_) ?_
      · by_cases hjk : j = k
        · subst hjk
          simp only [Function.update_self, hhead]
          exact htail
        · simp only [Function.update_of_ne hjk]
          exact h.lists j hj
      · rw [hhead]
        exact (hperm.append_right hs).trans List.perm_middle.symm

/-- Splitting a held block. -/
theorem Owns.split {k a : Nat} (h : Owns s ls (⟨k + 1, a⟩ :: hs)) :
    Owns s ls (⟨k, a + 2 ^ (k + PAGE_SHIFT)⟩ :: ⟨k, a⟩ :: hs) := by
  have hP := PAGE_SIZE_eq
  have hpage : 2 ^ (k + PAGE_SHIFT) = 2 ^ k * PAGE_SIZE := by
    rw [pow_add]
    rfl
  have hgood := h.good ⟨k + 1, a⟩ (by simp)
  obtain ⟨hpos, hord, hal, hfits⟩ := hgood
  dsimp only at hpos hord hal hfits
  rw [pow_succ, Nat.mul_right_comm] at hfits
  have hdisj : PairwiseDisjoint (⟨k + 1, a⟩ :: (freeBlocks ls ++ hs)) :=
    (pairwiseDisjoint_perm List.perm_middle).mp h.disjoint
  refine ⟨h.lists, fun b hb => ?_, ?_⟩
  · simp only [List.mem_append, List.mem_cons] at hb
    rcases hb with hb | rfl | rfl | hb
    · exact h.good b (List.mem_append_left _ hb)
    · -- the upper half: half a block up, so aligned and inside the old block
      refine ⟨by dsimp only; omega, by dsimp only; omega, ?_, ?_⟩
      · dsimp only
        rw [hpage]
        exact Nat.dvd_add hal (Nat.dvd_mul_left _ _)
      · dsimp only
        rw [hpage]
        omega
    · exact ⟨hpos, by dsimp only; omega, hal, by dsimp only; omega⟩
    · exact h.good b (by simp [hb])
  · refine (pairwiseDisjoint_perm ?_).mp (pairwiseDisjoint_split hdisj)
    refine (List.Perm.swap _ _ _).trans ?_
    exact (List.perm_middle.trans (List.perm_middle.cons _)).symm

/-! ## Allocating and freeing -/

/-- One round of the split loop. -/
theorem Owns.halve {k a : Nat} (h : Owns s ls (⟨k + 1, a⟩ :: hs)) :
    ∃ ls', Owns (Pmm.push s k (a + 2 ^ (k + PAGE_SHIFT))) ls' (⟨k, a⟩ :: hs) ∧
      Same (freeBlocks ls ++ ⟨k + 1, a⟩ :: hs) (freeBlocks ls' ++ ⟨k, a⟩ :: hs) := by
  have hsplit := h.split
  have hk : k ≤ PMM_MAX_ORDER := (hsplit.good ⟨k, a⟩ (by simp)).order_le
  refine ⟨_, hsplit.push, ?_⟩
  have hgrow := (freeBlocks_push ls (a + 2 ^ (k + PAGE_SHIFT)) hk).append_right
    (⟨k, a⟩ :: hs)
  refine (Same.of_perm List.perm_middle).trans ((Same.split k a _).trans (Same.of_perm ?_))
  refine (List.Perm.swap _ _ _).trans ?_
  exact (List.perm_middle.symm.cons _).trans hgrow.symm

/-- The split loop takes a held block from order `i` down to `order`. -/
theorem splitLoop_owns {order block i : Nat} (hle : order ≤ i)
    (h : Owns s ls (⟨i, block⟩ :: hs)) :
    ∃ ls', Owns (splitLoop order block i s) ls' (⟨order, block⟩ :: hs) ∧
      Same (freeBlocks ls ++ ⟨i, block⟩ :: hs) (freeBlocks ls' ++ ⟨order, block⟩ :: hs) := by
  induction i generalizing s ls with
  | zero =>
      obtain rfl : order = 0 := by omega
      exact ⟨ls, h, Same.of_perm (List.Perm.refl _)⟩
  | succ i ih =>
      rw [splitLoop]
      split
      · obtain ⟨ls₁, h₁, hsame₁⟩ := h.halve
        obtain ⟨ls₂, h₂, hsame₂⟩ := ih (by omega) h₁
        exact ⟨ls₂, h₂, hsame₁.trans hsame₂⟩
      · obtain rfl : order = i + 1 := by omega
        exact ⟨ls, h, Same.of_perm (List.Perm.refl _)⟩

/-- The split loop writes inside the block it splits. -/
theorem splitLoop_frame {order block i x : Nat}
    (hx : x < block ∨ block + 2 ^ i * PAGE_SIZE ≤ x) :
    (splitLoop order block i s).mem x = s.mem x := by
  have hP := PAGE_SIZE_eq
  induction i generalizing s with
  | zero => rfl
  | succ i ih =>
      have hhalf : 2 ^ (i + PAGE_SHIFT) = 2 ^ i * PAGE_SIZE := by
        rw [pow_add]
        rfl
      have hpage := page_le_block i
      rw [pow_succ, Nat.mul_right_comm] at hx
      rw [splitLoop]
      split
      · rw [ih (by omega), hhalf]
        exact store_apply_of_notMem _ (by omega)
      · rfl

theorem push_freeCount (s : State) (k b : Nat) : (push s k b).freeCount = s.freeCount := rfl

theorem splitLoop_freeCount (order block i : Nat) (s : State) :
    (splitLoop order block i s).freeCount = s.freeCount := by
  induction i generalizing s with
  | zero => rfl
  | succ i ih =>
      unfold splitLoop
      split
      · exact (ih _).trans (push_freeCount _ _ _)
      · rfl

/-- `buddy_alloc` finds nothing and changes nothing, or hands out a block whose
pages it took off the lists. -/
theorem buddyAlloc_cases (h : Owns s ls hs) (order : Nat) :
    buddyAlloc s order = (0, s) ∨
    ∃ b s' ls', buddyAlloc s order = (b, s') ∧ Owns s' ls' (⟨order, b⟩ :: hs) ∧
      Same (freeBlocks ls ++ hs) (freeBlocks ls' ++ ⟨order, b⟩ :: hs) ∧
      s'.freeCount = s.freeCount - orderToPages order := by
  cases hfind : findOrder s order with
  | none =>
      left
      rw [buddyAlloc, hfind]
  | some i =>
      right
      obtain ⟨hi, hmem⟩ := And.intro (List.find?_some hfind) (List.mem_of_find?_eq_some hfind)
      rw [List.mem_range'_1, PMM_NUM_ORDERS] at hmem
      have hne : s.freeLists i ≠ 0 := by simpa using hi
      -- take the block off its list, halve it down to the order, zero its pages
      obtain ⟨ls₁, hpop, h₁⟩ := h.pop (by omega) hne
      obtain ⟨ls₂, h₂, hsame⟩ := splitLoop_owns hmem.1 h₁
      refine ⟨s.freeLists i, _, ls₂, by rw [buddyAlloc, hfind], ?_, ?_, ?_⟩
      · refine h₂.write (b := ⟨order, s.freeLists i⟩) (by simp) (fun x hx => ?_) rfl
        exact fill_apply_of_notMem _ (by dsimp only at hx; omega)
      · refine (Same.of_perm ?_).trans hsame
        exact (hpop.append_right hs).trans List.perm_middle.symm
      · dsimp only
        rw [splitLoop_freeCount]

/-- Outside the free pages `buddy_alloc` changes nothing. -/
theorem buddyAlloc_frame (h : Owns s ls hs) (order : Nat) {x : Nat}
    (hx : x / PAGE_SIZE ∉ pagesOf (freeBlocks ls)) : (buddyAlloc s order).2.mem x = s.mem x := by
  have hP := PAGE_SIZE_eq
  cases hfind : findOrder s order with
  | none => rw [buddyAlloc, hfind]
  | some i =>
      obtain ⟨hi, hmem⟩ := And.intro (List.find?_some hfind) (List.mem_of_find?_eq_some hfind)
      rw [List.mem_range'_1, PMM_NUM_ORDERS] at hmem
      have hne : s.freeLists i ≠ 0 := by simpa using hi
      have hle : i ≤ PMM_MAX_ORDER := by omega
      -- the block it takes is the first one of its list
      have hblock : s.freeLists i ∈ ls i := by
        have hvisits := h.lists i hle
        cases hl : ls i with
        | nil =>
            rw [hl] at hvisits
            exact absurd hvisits hne
        | cons a l =>
            rw [hl] at hvisits
            rw [hvisits.1]
            exact List.mem_cons_self
      have hout : x < s.freeLists i ∨ s.freeLists i + 2 ^ i * PAGE_SIZE ≤ x := by
        by_contra hin
        exact hx (h.page_free hle hblock (by omega) (by omega))
      have hsmall : 2 ^ order * PAGE_SIZE ≤ 2 ^ i * PAGE_SIZE :=
        Nat.mul_le_mul_right _ (Nat.pow_le_pow_right (by decide) hmem.1)
      simp only [buddyAlloc, hfind]
      rw [fill_apply_of_notMem _ (by omega), splitLoop_frame hout]

/-- `pmm_alloc_page` panics, or hands out a page of those that are free. -/
theorem pmmAllocPage_cases (h : Owns s ls hs) :
    pmmAllocPage s = none ∨
    ∃ b s' ls', pmmAllocPage s = some (b, s') ∧ Owns s' ls' (⟨0, b⟩ :: hs) ∧
      Same (freeBlocks ls ++ hs) (freeBlocks ls' ++ ⟨0, b⟩ :: hs) ∧
      ∀ x, x / PAGE_SIZE ∉ pagesOf (freeBlocks ls) → s'.mem x = s.mem x := by
  rcases buddyAlloc_cases h 0 with hnone | ⟨b, s', ls', halloc, howns, hsame, -⟩
  · left
    simp [pmmAllocPage, hnone]
  · right
    have hpos := (howns.good ⟨0, b⟩ (by simp)).pos
    refine ⟨b, s', ls', ?_, howns, hsame, ?_⟩
    · simp only [pmmAllocPage, halloc]
      exact if_neg hpos
    · intro x hx
      have hframe := buddyAlloc_frame h 0 hx
      rw [halloc] at hframe
      exact hframe

/-- `buddy_free` of a held block. -/
theorem buddyFree_owns {k b : Nat} (h : Owns s ls (⟨k, b⟩ :: hs)) :
    ∃ s' ls', buddyFree s b k = some s' ∧ Owns s' ls' hs ∧
      Same (freeBlocks ls ++ ⟨k, b⟩ :: hs) (freeBlocks ls' ++ hs) ∧
      s'.freeCount = s.freeCount + orderToPages k := by
  have hk : k ≤ PMM_MAX_ORDER := (h.good ⟨k, b⟩ (by simp)).order_le
  have hpush := h.push
  refine ⟨_, _, if_pos hk, ⟨hpush.lists, hpush.good, hpush.disjoint⟩, ?_, rfl⟩
  refine Same.of_perm (List.perm_middle.trans ?_)
  exact ((freeBlocks_push ls b hk).append_right hs).symm

/-- `pmm_free_page` of a held page. -/
theorem pmmFreePage_owns {b : Nat} (h : Owns s ls (⟨0, b⟩ :: hs)) :
    ∃ s' ls', pmmFreePage s b = some s' ∧ Owns s' ls' hs ∧
      Same (freeBlocks ls ++ ⟨0, b⟩ :: hs) (freeBlocks ls' ++ hs) := by
  have hgood := h.good ⟨0, b⟩ (by simp)
  have hbase : pageBase b = b := Nat.div_mul_cancel hgood.aligned
  obtain ⟨s', ls', hfree, howns, hsame, -⟩ := buddyFree_owns h
  refine ⟨s', ls', ?_, howns, hsame⟩
  rw [pmmFreePage, if_neg hgood.pos, hbase]
  exact hfree

end Ownership

/-- `order_to_pages` does not overflow for the orders of a zone. -/
theorem toNat_orderToPages : ∀ k ≤ PMM_MAX_ORDER, (orderToPages k).toNat = 2 ^ k := by
  decide

/-! ## Runs -/

/-- The lists and the live blocks of a run, compared with the blocks `bs₀` it
started with. -/
structure Inv (bs₀ : List Block) (c : Conf) (ls : Nat → List Nat) : Prop where
  owns : Owns c.st ls (liveBlocks c.live)
  count : c.st.freeCount.toNat = pageCount (freeBlocks ls)
  same : Same bs₀ (freeBlocks ls ++ liveBlocks c.live)
  /-- Every live block was asked for with a count the rounding loop handles. -/
  rounds : ∀ b ∈ c.live, (orderOf b.2).isSome

section Runs

variable {bs₀ : List Block} {c : Conf} {ls : Nat → List Nat}

/-- Handing out a block of `n` pages, rounded up to order `k`. -/
theorem Inv.alloc (h : Inv bs₀ c ls) {n : UInt64} {k : Nat} (hk : orderOf n = some k) :
    (buddyAlloc c.st k = (0, c.st)) ∨
    ∃ b s' ls', buddyAlloc c.st k = (b, s') ∧ b ≠ 0 ∧ Inv bs₀ ⟨s', (b, n) :: c.live⟩ ls' := by
  rcases buddyAlloc_cases h.owns k with hnone | ⟨b, s', ls', halloc, howns, hsame, hcount⟩
  · exact Or.inl hnone
  · right
    have hgood := howns.good ⟨k, b⟩ (by simp)
    have hlive : liveBlocks ((b, n) :: c.live) = ⟨k, b⟩ :: liveBlocks c.live := by
      simp [liveBlocks, hk]
    refine ⟨b, s', ls', halloc, hgood.pos, ⟨?_, ?_, ?_, ?_⟩⟩
    · dsimp only
      rw [hlive]
      exact howns
    · -- the block's pages were among those counted
      have htotal := hsame.2
      have hpages := toNat_orderToPages k hgood.order_le
      have hold := h.count
      simp only [pageCount_append, pageCount_cons] at htotal ⊢
      have hle : orderToPages k ≤ c.st.freeCount := by
        rw [UInt64.le_iff_toNat_le]
        omega
      rw [hcount, UInt64.toNat_sub_of_le _ _ hle]
      omega
    · dsimp only
      rw [hlive]
      exact h.same.trans hsame
    · intro x hx
      rcases List.mem_cons.mp hx with rfl | hx
      · rw [hk]
        rfl
      · exact h.rounds x hx

/-- Freeing a live block. -/
theorem Inv.free (h : Inv bs₀ c ls) (hbs₀ : pageCount bs₀ < 2 ^ 64) {b : Nat} {n : UInt64}
    (hb : (b, n) ∈ c.live) :
    ∃ s' ls', pmmFreePages c.st b n = some s' ∧ Inv bs₀ ⟨s', c.live.erase (b, n)⟩ ls' := by
  have hP := PAGE_SIZE_eq
  obtain ⟨k, hk⟩ := Option.isSome_iff_exists.mp (h.rounds _ hb)
  have hperm : (freeBlocks ls ++ liveBlocks c.live).Perm
      (freeBlocks ls ++ ⟨k, b⟩ :: liveBlocks (c.live.erase (b, n))) := by
    refine List.Perm.append_left _ ?_
    have := (List.perm_cons_erase hb).map fun b : Nat × UInt64 =>
      (⟨(orderOf b.2).getD 0, b.1⟩ : Block)
    simpa [liveBlocks, hk] using this
  obtain ⟨s', ls', hfree, howns, hsame, hcount⟩ :=
    buddyFree_owns (h.owns.of_perm h.owns.lists hperm)
  have hgood := h.owns.good ⟨k, b⟩ (hperm.mem_iff.mpr (by simp))
  have hbase : pageBase b = b := Nat.div_mul_cancel hgood.aligned
  have hsame' := h.same.trans ((Same.of_perm hperm).trans hsame)
  refine ⟨s', ls', ?_, ⟨howns, ?_, hsame', ?_⟩⟩
  · rw [pmmFreePages, if_neg hgood.pos, hk, Option.bind_some, hbase]
    exact hfree
  · -- the count cannot wrap: all pages together are those of the start
    have htotal := hsame.2
    have hbound := hsame'.2
    have hpages := toNat_orderToPages k hgood.order_le
    have hold := h.count
    simp only [pageCount_append, pageCount_cons] at htotal hbound ⊢
    rw [hcount, UInt64.toNat_add, Nat.mod_eq_of_lt (by omega)]
    omega
  · intro x hx
    exact h.rounds x (List.mem_of_mem_erase hx)

/-- The owner of a live block writes one of its bytes. -/
theorem Inv.write (h : Inv bs₀ c ls) {p k a : Nat} {n : UInt64} (hp : (p, n) ∈ c.live)
    (hk : orderOf n = some k) (hlo : p ≤ a) (hhi : a < p + 2 ^ k * PAGE_SIZE) (v : UInt8) :
    Inv bs₀ { c with st := { c.st with mem := store c.st.mem 1 a v.toNat } } ls := by
  refine ⟨h.owns.write (b := ⟨k, p⟩) ?_ (fun x hx => ?_) rfl, h.count, h.same, h.rounds⟩
  · exact List.mem_map.mpr ⟨(p, n), hp, by simp [hk]⟩
  · dsimp only at hx
    exact store_apply_of_notMem _ (by omega)

theorem inv_step (hbs₀ : pageCount bs₀ < 2 ^ 64) {call : Call} {c' : Conf}
    (h : Inv bs₀ c ls) (hnext : Next call c c') : ∃ ls', Inv bs₀ c' ls' := by
  cases call with
  | allocPage =>
      obtain ⟨p, s, hcall, rfl⟩ := hnext
      rw [pmmAllocPage] at hcall
      rcases h.alloc (n := 1) rfl with hnone | ⟨b, s', ls', halloc, hb, hinv⟩
      · simp [hnone] at hcall
      · simp only [halloc, if_neg hb, Option.some.injEq, Prod.mk.injEq] at hcall
        obtain ⟨rfl, rfl⟩ := hcall
        exact ⟨ls', hinv⟩
  | allocPages n =>
      obtain ⟨p, s, hcall, rfl⟩ := hnext
      rw [pmmAllocPages, Option.map_eq_some_iff] at hcall
      obtain ⟨k, hk, hcall⟩ := hcall
      rcases h.alloc hk with hnone | ⟨b, s', ls', halloc, hb, hinv⟩
      · obtain ⟨rfl, rfl⟩ := Prod.mk.inj (hnone.symm.trans hcall)
        exact ⟨ls, h⟩
      · obtain ⟨rfl, rfl⟩ := Prod.mk.inj (halloc.symm.trans hcall)
        rw [if_neg hb]
        exact ⟨ls', hinv⟩
  | freePage p =>
      obtain ⟨hp, s, hcall, rfl⟩ := hnext
      obtain ⟨s', ls', hfree, hinv⟩ := h.free hbs₀ hp
      -- with count 1 the loop stops at order 0
      have hsame : pmmFreePage c.st p = pmmFreePages c.st p 1 := rfl
      obtain rfl := Option.some.inj (hcall.symm.trans (hsame.trans hfree))
      exact ⟨ls', hinv⟩
  | freePages p n =>
      obtain ⟨hp, s, hcall, rfl⟩ := hnext
      obtain ⟨s', ls', hfree, hinv⟩ := h.free hbs₀ hp
      obtain rfl := Option.some.inj (hcall.symm.trans hfree)
      exact ⟨ls', hinv⟩
  | write a v =>
      obtain ⟨⟨p, n, k, hp, hk, hlo, hhi⟩, rfl⟩ := hnext
      exact ⟨ls, h.write hp hk hlo hhi v⟩

end Runs

theorem inv_of_reachable {s₀ : State} {ls₀ : Nat → List Nat} (h₀ : WellFormed s₀ ls₀) {c : Conf}
    (hreach : Lts.Reachable (system s₀) c) : ∃ ls, Inv (freeBlocks ls₀) c ls := by
  have hbs₀ : pageCount (freeBlocks ls₀) < 2 ^ 64 := h₀.count ▸ s₀.freeCount.toNat_lt
  refine hreach.invariant (I := fun c => ∃ ls, Inv (freeBlocks ls₀) c ls) ?_ ?_
  · rintro c rfl
    refine ⟨ls₀, h₀.owns, h₀.count, Same.of_perm ?_, by simp⟩
    rw [liveBlocks, List.map_nil, List.append_nil]
  · rintro call c c' ⟨ls, h⟩ hnext
    exact inv_step hbs₀ h hnext

/-- From any well-formed zone, whatever is allocated and given back: the zone
stays well formed, free and live blocks never overlap, and together they are
the pages of the start. A matching free always returns. -/
theorem zone_intact {s₀ : State} {ls₀ : Nat → List Nat} (h₀ : WellFormed s₀ ls₀) {c : Conf}
    (hreach : Lts.Reachable (system s₀) c) :
    (∃ ls, WellFormed c.st ls ∧
      PairwiseDisjoint (freeBlocks ls ++ liveBlocks c.live) ∧
      pagesOf (freeBlocks ls ++ liveBlocks c.live) = pagesOf (freeBlocks ls₀)) ∧
    (∀ b ∈ c.live, (orderOf b.2).isSome ∧ (pmmFreePages c.st b.1 b.2).isSome) := by
  have hbs₀ : pageCount (freeBlocks ls₀) < 2 ^ 64 := h₀.count ▸ s₀.freeCount.toNat_lt
  obtain ⟨ls, h⟩ := inv_of_reachable h₀ hreach
  refine ⟨⟨ls, h.owns.wellFormed h.count, h.owns.disjoint, h.same.1.symm⟩, fun b hb => ?_⟩
  obtain ⟨s', -, hfree, -⟩ := h.free hbs₀ hb
  exact ⟨h.rounds b hb, by rw [hfree]; rfl⟩

/-- A zone with one block of four pages at 16 MiB. -/
def fourPages : State where
  mem := fun _ => 0
  freeLists := fun k => if k = 2 then 0x1000000 else 0
  freeCount := 4
  usedMemory := 0

def fourPagesLists (k : Nat) : List Nat := if k = 2 then [0x1000000] else []

theorem fourPages_wellFormed : WellFormed fourPages fourPagesLists := by
  have hblocks : freeBlocks fourPagesLists = [⟨2, 0x1000000⟩] := by decide
  refine ⟨fun k _ => ?_, ?_, ?_, ?_, ?_⟩
  · by_cases hk : k = 2
    · subst hk
      exact ⟨rfl, by decide, rfl⟩
    · simp [fourPages, fourPagesLists, hk, Chain.Visits]
  · rw [hblocks]
    exact List.pairwise_singleton _ _
  · rw [hblocks]
    decide
  · rw [hblocks]
    decide
  · rw [hblocks]
    rfl

/-- One page out of the block of four: the other three stay on the lists. -/
theorem zone_intact_one_page : ∃ c, Lts.Reachable (system fourPages) c ∧
    c.live = [(0x1000000, 1)] ∧
    (∃ ls, WellFormed c.st ls ∧
      PairwiseDisjoint (freeBlocks ls ++ liveBlocks c.live) ∧
      pagesOf (freeBlocks ls ++ liveBlocks c.live) = pagesOf (freeBlocks fourPagesLists)) ∧
    (∀ b ∈ c.live, (orderOf b.2).isSome ∧ (pmmFreePages c.st b.1 b.2).isSome) := by
  have hreach : Lts.Reachable (system fourPages) ⟨(buddyAlloc fourPages 0).2, [(0x1000000, 1)]⟩ :=
    (Lts.Reachable.init rfl).step (a := Call.allocPage) ⟨0x1000000, _, rfl, rfl⟩
  exact ⟨_, hreach, rfl, zone_intact fourPages_wellFormed hreach⟩

end OmniOS.Pmm
