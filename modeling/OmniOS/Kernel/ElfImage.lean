import OmniOS.Kernel.Elf

/-!
# OmniOS.Kernel.ElfImage — the image that `elf_load` leaves

`Described` says what a file has to be like so that it describes an image: its headers and
segments lie inside the file, and the segments neither overlap nor touch the file. The loop
then finds every header as the file has it. `Image` is the invariant: the segments of the
headers so far are in memory, and the rest of it is as before.
-/

namespace OmniOS.Elf

open Space

section Headers

variable (m : Mem) (binary : UInt64) (i : Nat)

/-- The address of `phdr[i]`. -/
def entryOf : UInt64 := binary + phoffAt m binary + UInt64.ofNat i * PHDR_SIZE

/-- `phdr[i]` of the file. -/
def segment : Phdr := phdrAt m (entryOf m binary i)

/-- `phdr[i]` is there and describes a segment. -/
def IsSegment : Prop := i < phnumAt m binary ∧ load m 4 (entryOf m binary i) = PT_LOAD

/-- The address belongs to the segment of `phdr[i]`. -/
def InSegment (x : UInt64) : Prop :=
  Range (segment m binary i).vaddr (segment m binary i).memsz.toNat x

end Headers

/-- A file of ELF64 format with headers of 56 bytes. -/
structure Described (m : Mem) (binary size : UInt64) : Prop where
  header : 64 ≤ size.toNat
  magic : load m 4 binary = ELF_MAGIC
  cls : load m 1 (binary + HDR_CLASS) = ELFCLASS64
  phentsize : load m 2 (binary + HDR_PHENTSIZE) = 56
  table : (phoffAt m binary).toNat + 56 * phnumAt m binary ≤ size.toNat
  source : ∀ i, IsSegment m binary i →
    (segment m binary i).offset.toNat + (segment m binary i).filesz.toNat ≤ size.toNat
  sizes : ∀ i, IsSegment m binary i →
    (segment m binary i).filesz.toNat ≤ (segment m binary i).memsz.toNat
  fits : ∀ i, IsSegment m binary i →
    (segment m binary i).vaddr.toNat + (segment m binary i).memsz.toNat ≤ 2 ^ 64
  disjoint : ∀ i j, IsSegment m binary i → IsSegment m binary j → i ≠ j →
    ∀ x, InSegment m binary i x → ¬ InSegment m binary j x
  away : ∀ i, IsSegment m binary i → ∀ x, InSegment m binary i x → ¬ Range binary size.toNat x

/-! ## One turn -/

section Turn

variable {m mem : Mem} {binary size : UInt64} {i : Nat}

/-- The segments in front of `phdr[i]` are in memory, and nothing else has changed. -/
structure Image (m : Mem) (binary : UInt64) (i : Nat) (mem : Mem) : Prop where
  data : ∀ j < i, IsSegment m binary j → ∀ k < (segment m binary j).filesz.toNat,
    mem ((segment m binary j).vaddr + UInt64.ofNat k) =
      m (binary + (segment m binary j).offset + UInt64.ofNat k)
  zero : ∀ j < i, IsSegment m binary j → ∀ k, (segment m binary j).filesz.toNat ≤ k →
    k < (segment m binary j).memsz.toNat →
    mem ((segment m binary j).vaddr + UInt64.ofNat k) = 0
  frame : ∀ x, (∀ j < i, IsSegment m binary j → ¬ InSegment m binary j x) → mem x = m x

theorem Image.start (m : Mem) (binary : UInt64) : Image m binary 0 m :=
  ⟨fun _ h => absurd h (Nat.not_lt_zero _), fun _ h => absurd h (Nat.not_lt_zero _),
    fun _ _ => rfl⟩

/-- The file is as it was. -/
theorem Image.file (h : Image m binary i mem) (hd : Described m binary size) {x : UInt64}
    (hx : Range binary size.toNat x) : mem x = m x :=
  h.frame x fun j _ hj hin => hd.away j hj x hin hx

/-- Words inside the file are what they were. -/
theorem load_of_file (hmem : ∀ x, Range binary size.toNat x → mem x = m x) {a : UInt64} {n : Nat}
    (ha : (a - binary).toNat + n ≤ size.toNat) : load mem n a = load m n a := by
  have hsize : size.toNat < 2 ^ 64 := size.toNat_lt
  refine load_congr (by omega) ?_
  intro x hx
  exact hmem x ((range_subset_iff (by omega) hsize).mpr (Or.inr ha) x hx)

theorem field64_of_file (hmem : ∀ x, Range binary size.toNat x → mem x = m x) {a d : UInt64}
    (ha : (a - binary).toNat + d.toNat + 8 ≤ size.toNat) :
    field64 mem (a + d) = field64 m (a + d) := by
  have hsize : size.toNat < 2 ^ 64 := size.toNat_lt
  rw [field64, field64, load_of_file hmem]
  rw [toNat_add_sub]
  omega

theorem phdrAt_of_file (hmem : ∀ x, Range binary size.toNat x → mem x = m x) {entry : UInt64}
    (hentry : (entry - binary).toNat + 48 ≤ size.toNat) :
    phdrAt mem entry = phdrAt m entry := by
  have hoffsets : PHDR_VADDR.toNat = 16 ∧ PHDR_MEMSZ.toNat = 40 ∧ PHDR_OFFSET.toNat = 8 ∧
      PHDR_FILESZ.toNat = 32 := by decide
  unfold phdrAt
  rw [field64_of_file hmem (by omega), field64_of_file hmem (by omega),
    field64_of_file hmem (by omega), field64_of_file hmem (by omega)]

/-- `phdr[i]` lies inside the file. -/
theorem Described.entry (hd : Described m binary size) (hi : i < phnumAt m binary) :
    (entryOf m binary i - binary).toNat + 56 ≤ size.toNat := by
  have htable := hd.table
  have hsize : size.toNat < 2 ^ 64 := size.toNat_lt
  have hstride : PHDR_SIZE.toNat = 56 := rfl
  have hfirst : binary + phoffAt m binary - binary = phoffAt m binary := by
    rw [UInt64.add_comm, UInt64.add_sub_cancel]
  rw [entryOf, toNat_add_sub, hfirst, UInt64.toNat_mul, UInt64.toNat_ofNat', hstride]
  omega

/-- The header is the one in the file, and stays so while its segment is copied. -/
theorem Image.turn (h : Image m binary i mem) (hd : Described m binary size)
    (hi : i < phnumAt m binary) {t : Turn} (ht : t = ⟨entryOf m binary i, mem⟩) :
    (t.isLoad = true ↔ IsSegment m binary i) ∧ t.phdr = segment m binary i ∧
      t.refused size = false ∧ (IsSegment m binary i → t.again binary = segment m binary i) := by
  have hfile : ∀ x, Range binary size.toNat x → mem x = m x := fun x => h.file hd
  have hentry := hd.entry hi
  have htype : (entryOf m binary i - binary).toNat + 4 ≤ size.toNat := by omega
  have hfields : (entryOf m binary i - binary).toNat + 48 ≤ size.toNat := by omega
  have hload : t.isLoad = true ↔ IsSegment m binary i := by
    rw [Turn.isLoad, beq_iff_eq, ht, load_of_file hfile htype, IsSegment, and_iff_right hi]
  have hphdr : t.phdr = segment m binary i := by
    rw [Turn.phdr, ht]
    exact phdrAt_of_file hfile hfields
  refine ⟨hload, hphdr, ?_, ?_⟩
  · rw [Turn.refused, hphdr, Bool.and_eq_false_iff, decide_eq_false_iff_not]
    by_cases hseg : IsSegment m binary i
    · have hsource := hd.source i hseg
      refine Or.inr ?_
      rw [gt_iff_lt, UInt64.not_lt, UInt64.le_iff_toNat_le, UInt64.toNat_add]
      exact Nat.le_trans (Nat.mod_le _ _) hsource
    · exact Or.inl (Bool.eq_false_iff.mpr (mt hload.mp hseg))
  · intro hseg
    have hsizes := hd.sizes i hseg
    rw [Turn.again, Turn.copied, hphdr, ht]
    refine phdrAt_of_file (fun x hx => ?_) hfields
    -- the copy stays inside the segment, which is not in the file
    rw [copy_apply_of_not_range]
    · exact hfile x hx
    · exact fun hin => hd.away i hseg x (hin.mono hsizes) hx

/-- What a turn leaves at an address: a byte of the file, a zero, or what was there. -/
theorem Turn.loaded_apply (binary : UInt64) {t : Turn} (hagain : t.again binary = t.phdr)
    (hsizes : t.phdr.filesz.toNat ≤ t.phdr.memsz.toNat) (x : UInt64) :
    t.loaded binary x =
      if Range t.phdr.vaddr t.phdr.filesz.toNat x then
        t.mem (binary + t.phdr.offset + (x - t.phdr.vaddr))
      else if Range t.phdr.vaddr t.phdr.memsz.toNat x then 0
      else t.mem x := by
  have hcleared : t.cleared binary = t.phdr.memsz.toNat - t.phdr.filesz.toNat := by
    rw [Turn.cleared, hagain]
    split
    · rw [UInt64.toNat_sub_of_le _ _ (UInt64.le_iff_toNat_le.mpr hsizes)]
    · next hle =>
        rw [gt_iff_lt, UInt64.lt_iff_toNat_lt] at hle
        omega
  have hrest := range_rest_iff (a := t.phdr.vaddr) (x := x) hsizes t.phdr.memsz.toNat_lt
  rw [Turn.loaded, hagain, hcleared]
  by_cases hdata : Range t.phdr.vaddr t.phdr.filesz.toNat x
  · rw [if_pos hdata, fill_apply_of_not_range, Turn.copied, copy_apply_of_range hdata]
    rw [hrest, not_and]
    exact fun hle => absurd hdata (Nat.not_lt.mpr hle)
  · rw [if_neg hdata]
    by_cases hin : Range t.phdr.vaddr t.phdr.memsz.toNat x
    · rw [if_pos hin, fill_apply_of_range]
      exact hrest.mpr ⟨Nat.le_of_not_lt hdata, hin⟩
    · rw [if_neg hin, fill_apply_of_not_range, Turn.copied, copy_apply_of_not_range hdata]
      exact fun h => hin (hrest.mp h).2

theorem offset_in_segment {j k : Nat} (hk : k < (segment m binary j).memsz.toNat) :
    InSegment m binary j ((segment m binary j).vaddr + UInt64.ofNat k) := by
  have hlt := (segment m binary j).memsz.toNat_lt
  exact range_add hk (Nat.le_of_lt hlt)

/-- What a turn that loads `phdr[i]` leaves: its bytes, zeros, and the rest as it was. -/
theorem Image.loaded_segment (h : Image m binary i mem) (hd : Described m binary size)
    (hi : i < phnumAt m binary) {t : Turn} (ht : t = ⟨entryOf m binary i, mem⟩)
    (hseg : IsSegment m binary i) :
    (∀ k < (segment m binary i).filesz.toNat,
      t.loaded binary ((segment m binary i).vaddr + UInt64.ofNat k) =
        m (binary + (segment m binary i).offset + UInt64.ofNat k)) ∧
    (∀ k, (segment m binary i).filesz.toNat ≤ k → k < (segment m binary i).memsz.toNat →
      t.loaded binary ((segment m binary i).vaddr + UInt64.ofNat k) = 0) ∧
    ∀ x, ¬ InSegment m binary i x → t.loaded binary x = mem x := by
  obtain ⟨-, hphdr, -, hagain⟩ := h.turn hd hi ht
  have hsizes := hd.sizes i hseg
  have hsource := hd.source i hseg
  have hlt := size.toNat_lt
  have hmem : t.mem = mem := by rw [ht]
  have hbyte (x : UInt64) := Turn.loaded_apply binary
    ((hagain hseg).trans hphdr.symm) (by rw [hphdr]; exact hsizes) x
  rw [hphdr, hmem] at hbyte
  have hoff (a : UInt64) (k : Nat) : a + UInt64.ofNat k - a = UInt64.ofNat k := by
    rw [UInt64.add_comm, UInt64.add_sub_cancel]
  refine ⟨?_, ?_, ?_⟩
  · intro k hk
    have hin : Range (segment m binary i).vaddr (segment m binary i).filesz.toNat
        ((segment m binary i).vaddr + UInt64.ofNat k) :=
      range_add hk (Nat.le_of_lt (segment m binary i).filesz.toNat_lt)
    have hfirst : binary + (segment m binary i).offset - binary =
        (segment m binary i).offset := by rw [UInt64.add_comm, UInt64.add_sub_cancel]
    rw [hbyte, if_pos hin, hoff]
    refine h.file hd ?_
    rw [Range, toNat_add_sub, hfirst, UInt64.toNat_ofNat']
    omega
  · intro k hlow hk
    have hklt : (UInt64.ofNat k).toNat = k := by
      rw [UInt64.toNat_ofNat']
      exact Nat.mod_eq_of_lt (Nat.lt_trans hk (segment m binary i).memsz.toNat_lt)
    have hin : Range (segment m binary i).vaddr (segment m binary i).memsz.toNat
        ((segment m binary i).vaddr + UInt64.ofNat k) := offset_in_segment hk
    rw [hbyte, if_neg, if_pos hin]
    rw [Range, hoff, hklt]
    exact Nat.not_lt.mpr hlow
  · intro x hx
    have hno : ¬ Range (segment m binary i).vaddr (segment m binary i).memsz.toNat x := hx
    rw [hbyte, if_neg (fun hdata => hno (hdata.mono hsizes)), if_neg hno]

/-- One turn adds the segment of its header, if it describes one. -/
theorem Image.next (h : Image m binary i mem) (hd : Described m binary size)
    (hi : i < phnumAt m binary) {t : Turn} (ht : t = ⟨entryOf m binary i, mem⟩) :
    Image m binary (i + 1) (t.after binary size) := by
  obtain ⟨hload, -, hrefused, -⟩ := h.turn hd hi ht
  by_cases hseg : IsSegment m binary i
  · obtain ⟨hdata, hzero, hold⟩ := h.loaded_segment hd hi ht hseg
    have hafter : t.after binary size = t.loaded binary := by
      rw [Turn.after, hload.mpr hseg, hrefused, Bool.not_false, Bool.and_self, if_pos rfl]
    -- the segments in front are apart from the new one
    have hkept {j k : Nat} (hj : j ≠ i) (hjseg : IsSegment m binary j)
        (hk : k < (segment m binary j).memsz.toNat) :
        t.loaded binary ((segment m binary j).vaddr + UInt64.ofNat k) =
          mem ((segment m binary j).vaddr + UInt64.ofNat k) :=
      hold _ (hd.disjoint j i hjseg hseg hj _ (offset_in_segment hk))
    rw [hafter]
    refine ⟨?_, ?_, ?_⟩
    · intro j hj hjseg k hk
      by_cases hji : j = i
      · rw [hji] at hk ⊢
        exact hdata k hk
      · rw [hkept hji hjseg (Nat.lt_of_lt_of_le hk (hd.sizes j hjseg))]
        exact h.data j (by omega) hjseg k hk
    · intro j hj hjseg k hlow hk
      by_cases hji : j = i
      · rw [hji] at hlow hk ⊢
        exact hzero k hlow hk
      · rw [hkept hji hjseg hk]
        exact h.zero j (by omega) hjseg k hlow hk
    · intro x hx
      rw [hold x (hx i (Nat.lt_succ_self i) hseg)]
      exact h.frame x fun j hj => hx j (Nat.lt_succ_of_lt hj)
  · -- a header of another type
    have hnot : t.isLoad = false := Bool.eq_false_iff.mpr (mt hload.mp hseg)
    have hafter : t.after binary size = mem := by
      rw [Turn.after, hnot, Bool.false_and, if_neg Bool.false_ne_true, ht]
    have hlast {j : Nat} (hj : j < i + 1) (hjseg : IsSegment m binary j) : j < i := by
      have hne : j ≠ i := fun heq => hseg (heq ▸ hjseg)
      omega
    rw [hafter]
    refine ⟨fun j hj hjseg => h.data j (hlast hj hjseg) hjseg,
      fun j hj hjseg => h.zero j (hlast hj hjseg) hjseg, ?_⟩
    intro x hx
    exact h.frame x fun j hj => hx j (Nat.lt_succ_of_lt hj)

end Turn

/-! ## The whole load -/

section Load

variable {m mem : Mem} {binary size : UInt64} {i : Nat} {loadBase : UInt64}

/-- `load_base` in front of `phdr[i]`. -/
structure Least (m : Mem) (binary : UInt64) (i : Nat) (loadBase : UInt64) : Prop where
  le : ∀ j < i, IsSegment m binary j → loadBase ≤ (segment m binary j).vaddr
  eq : loadBase = -1 ∨ ∃ j < i, IsSegment m binary j ∧ loadBase = (segment m binary j).vaddr

theorem Least.start (m : Mem) (binary : UInt64) : Least m binary 0 (-1) :=
  ⟨fun _ h => absurd h (Nat.not_lt_zero _), Or.inl rfl⟩

theorem Least.next (h : Least m binary i loadBase) {t : Turn}
    (hload : t.isLoad = true ↔ IsSegment m binary i) (hphdr : t.phdr = segment m binary i) :
    Least m binary (i + 1) (t.base loadBase) := by
  have hlast {j : Nat} (hj : j < i + 1) : j < i ∨ j = i := by omega
  rw [Turn.base, hphdr]
  by_cases hseg : IsSegment m binary i
  · rw [hload.mpr hseg, Bool.true_and]
    by_cases hlt : (segment m binary i).vaddr < loadBase
    · rw [if_pos (decide_eq_true hlt)]
      refine ⟨?_, Or.inr ⟨i, Nat.lt_succ_self i, hseg, rfl⟩⟩
      intro j hj hjseg
      rcases hlast hj with hj | rfl
      · exact UInt64.le_of_lt (UInt64.lt_of_lt_of_le hlt (h.le j hj hjseg))
      · exact UInt64.le_refl _
    · rw [if_neg (by simpa using hlt)]
      refine ⟨?_, h.eq.imp_right (Exists.imp fun j hj => ⟨Nat.lt_succ_of_lt hj.1, hj.2⟩)⟩
      intro j hj hjseg
      rcases hlast hj with hj | rfl
      · exact h.le j hj hjseg
      · exact UInt64.not_lt.mp hlt
  · have hnot : t.isLoad = false := Bool.eq_false_iff.mpr (mt hload.mp hseg)
    rw [hnot, Bool.false_and, if_neg Bool.false_ne_true]
    refine ⟨?_, h.eq.imp_right (Exists.imp fun j hj => ⟨Nat.lt_succ_of_lt hj.1, hj.2⟩)⟩
    intro j hj hjseg
    rcases hlast hj with hj | rfl
    · exact h.le j hj hjseg
    · exact absurd hjseg hseg

theorem Image.phnum (h : Image m binary i mem) (hd : Described m binary size) :
    phnumAt mem binary = phnumAt m binary := by
  have hsize := hd.header
  have hfirst : binary + HDR_PHNUM - binary = HDR_PHNUM := by
    rw [UInt64.add_comm, UInt64.add_sub_cancel]
  have hoff : HDR_PHNUM.toNat = 56 := rfl
  refine load_of_file (fun x => h.file hd) ?_
  rw [hfirst]
  omega

/-- What the turns from `phdr[i]` on lead to. -/
structure Rest (m : Mem) (binary size : UInt64) (i : Nat) (mem : Mem) (loadBase : UInt64)
    (ts : List Turn) : Prop where
  accepted : ts.any (Turn.refused size) = false
  image : Image m binary (phnumAt m binary) (ts.foldl (fun _ t => t.after binary size) mem)
  least : Least m binary (phnumAt m binary) (ts.foldl (fun b t => t.base b) loadBase)
  loads : ∀ p, p ∈ loads ts ↔ ∃ j, i ≤ j ∧ IsSegment m binary j ∧ segment m binary j = p

theorem Rest.nil (hend : i = phnumAt m binary) (h : Image m binary i mem)
    (hleast : Least m binary i loadBase) : Rest m binary size i mem loadBase [] := by
  refine ⟨rfl, hend ▸ h, hend ▸ hleast, ?_⟩
  intro p
  refine iff_of_false List.not_mem_nil ?_
  rintro ⟨j, hij, hj, -⟩
  exact Nat.not_lt.mpr (hend ▸ hij) hj.1

theorem Rest.cons {t : Turn} {ts : List Turn} (hload : t.isLoad = true ↔ IsSegment m binary i)
    (hphdr : t.phdr = segment m binary i) (hrefused : t.refused size = false)
    (h : Rest m binary size (i + 1) (t.after binary size) (t.base loadBase) ts) :
    Rest m binary size i mem loadBase (t :: ts) := by
  refine ⟨?_, h.image, h.least, ?_⟩
  · rw [List.any_cons, hrefused, Bool.false_or]
    exact h.accepted
  · intro p
    -- the header of this turn, or one behind it
    have hsplit : (∃ j, i ≤ j ∧ IsSegment m binary j ∧ segment m binary j = p) ↔
        (IsSegment m binary i ∧ segment m binary i = p) ∨
          ∃ j, i + 1 ≤ j ∧ IsSegment m binary j ∧ segment m binary j = p := by
      constructor
      · rintro ⟨j, hij, hj⟩
        rcases Nat.eq_or_lt_of_le hij with rfl | hlt
        · exact Or.inl hj
        · exact Or.inr ⟨j, hlt, hj⟩
      · rintro (hi | ⟨j, hij, hj⟩)
        · exact ⟨i, Nat.le_refl i, hi⟩
        · exact ⟨j, Nat.le_of_succ_le hij, hj⟩
    rw [hsplit, ← h.loads, loads_cons]
    by_cases hseg : IsSegment m binary i
    · rw [if_pos (hload.mpr hseg), hphdr, List.mem_cons, and_iff_right hseg, eq_comm]
    · rw [if_neg (mt hload.mp hseg)]
      simp [hseg]

theorem Image.run (hd : Described m binary size) (left : Nat) (hleft : i + left = 65535)
    (hi : i ≤ phnumAt m binary) (h : Image m binary i mem) (hleast : Least m binary i loadBase) :
    Rest m binary size i mem loadBase
      (turns binary size (binary + phoffAt m binary) left mem) := by
  induction left generalizing i mem loadBase with
  | zero =>
      have hlt : phnumAt m binary < 256 ^ 2 := load_lt m 2 _
      exact Rest.nil (by omega) h hleast
  | succ left ih =>
      have hindex : 65534 - left = i := by omega
      by_cases hend : phnumAt mem binary ≤ i
      · have hlast : i = phnumAt m binary := by
          rw [h.phnum hd] at hend
          omega
        rw [turns, hindex, if_pos hend]
        exact Rest.nil hlast h hleast
      · have hlt : i < phnumAt m binary := by
          rw [h.phnum hd] at hend
          omega
        obtain ⟨t, ht⟩ : ∃ t : Turn, t = ⟨entryOf m binary i, mem⟩ := ⟨_, rfl⟩
        obtain ⟨hload, hphdr, hrefused, -⟩ := h.turn hd hlt ht
        have hentry : binary + phoffAt m binary + UInt64.ofNat (65534 - left) * PHDR_SIZE =
            t.entry := by
          rw [ht, hindex]
          rfl
        have hmem : mem = t.mem := by rw [ht]
        have hcons := turns_turn binary size (binary + phoffAt m binary) hentry
          (by rw [← hmem, hindex]; exact hend)
        rw [hrefused, if_neg Bool.false_ne_true, ← hmem] at hcons
        rw [hcons]
        exact Rest.cons hload hphdr hrefused
          (ih (by omega) hlt (h.next hd hlt ht) (hleast.next hload hphdr))

/-- The loop meets exactly the segments that the file describes. -/
theorem mem_loads_iff (hd : Described m binary size) {p : Phdr} :
    p ∈ loads (fileTurns m binary size) ↔
      ∃ i, IsSegment m binary i ∧ segment m binary i = p := by
  have hrest := Image.run hd 65535 (Nat.zero_add _) (Nat.zero_le _) (Image.start m binary)
    (Least.start m binary)
  rw [← fileTurns_eq, hrest.loads]
  simp

/-- Neither the product nor the sum of the check of the table overflows. -/
theorem Described.table_fits (hd : Described m binary size) : tableBytes m binary < 2 ^ 31 ∧
    ¬ phoffAt m binary + UInt64.ofNat (tableBytes m binary) > size := by
  have hphnum : phnumAt m binary < 256 ^ 2 := load_lt m 2 _
  have hbytes : tableBytes m binary = 56 * phnumAt m binary := by rw [tableBytes, hd.phentsize]
  have htable := hd.table
  have hlt := size.toNat_lt
  rw [gt_iff_lt, UInt64.lt_iff_toNat_lt, UInt64.toNat_add, UInt64.toNat_ofNat', hbytes]
  omega

/-- The start value of `load_base` is also the greatest address. -/
theorem Least.of_segment (h : Least m binary (phnumAt m binary) loadBase)
    (hi : IsSegment m binary i) :
    ∃ j, IsSegment m binary j ∧ loadBase = (segment m binary j).vaddr := by
  rcases h.eq with hmax | ⟨j, -, hj, heq⟩
  · have hle := h.le i hi.1 hi
    have hlt := (segment m binary i).vaddr.toNat_lt
    have hgreatest : (-1 : UInt64).toNat = 2 ^ 64 - 1 := by decide
    refine ⟨i, hi, UInt64.le_antisymm hle ?_⟩
    rw [hmax, UInt64.le_iff_toNat_le, hgreatest]
    omega
  · exact ⟨j, hj, heq⟩

/-- An executable file is loaded as it says: each segment holds its bytes of the file and
zeros behind them, and the rest of memory is as before; `entry` is that of the header and
`load_base` the least address of a segment. -/
theorem elf_load_image (hd : Described m binary size) (hbinary : binary ≠ 0)
    (htype : load m 2 (binary + HDR_TYPE) = ET_EXEC ∨ load m 2 (binary + HDR_TYPE) = ET_DYN)
    (out : Loaded) (trace : List Access) :
    ∃ s' loaded, elfLoad binary size (some out) ⟨m, trace⟩ = some ((0, some loaded), s') ∧
      (∀ i, IsSegment m binary i →
        (∀ k < (segment m binary i).filesz.toNat,
          s'.mem ((segment m binary i).vaddr + UInt64.ofNat k) =
            m (binary + (segment m binary i).offset + UInt64.ofNat k)) ∧
        ∀ k, (segment m binary i).filesz.toNat ≤ k → k < (segment m binary i).memsz.toNat →
          s'.mem ((segment m binary i).vaddr + UInt64.ofNat k) = 0) ∧
      (∀ x, (∀ i, IsSegment m binary i → ¬ InSegment m binary i x) → s'.mem x = m x) ∧
      loaded.entry = entryAt m binary ∧
      ((∃ i, IsSegment m binary i) →
        (∃ i, IsSegment m binary i ∧ loaded.loadBase = (segment m binary i).vaddr) ∧
        ∀ i, IsSegment m binary i → loaded.loadBase ≤ (segment m binary i).vaddr) := by
  have hheader := hd.header
  have hchecked : Checked m binary size (some out) :=
    ⟨hbinary, Option.some_ne_none out, UInt64.le_iff_toNat_le.mpr hheader, hd.magic, hd.cls, htype⟩
  obtain ⟨hbytes, hfits⟩ := hd.table_fits
  rcases loadProgram_loop hbytes hfits (some out) (trace ++ checkReads binary) with
    ⟨s', hrun, hmem, -⟩
  have hall := Image.run hd 65535 (Nat.zero_add _) (Nat.zero_le _) (Image.start m binary)
    (Least.start m binary)
  have himage := hall.image
  have hleast := hall.least
  have hrefused := hall.accepted
  rw [fileTurns_eq] at himage hleast hrefused
  rw [← hmem] at himage
  rw [hrefused, if_neg Bool.false_ne_true] at hrun
  refine ⟨s', _, (elfLoad_checked hchecked trace).trans hrun, ?_, ?_, ?_, ?_⟩
  · intro i hi
    exact ⟨himage.data i hi.1 hi, himage.zero i hi.1 hi⟩
  · intro x hx
    exact himage.frame x fun j _ hj => hx j hj
  · have hfile : ∀ x, Range binary size.toNat x → s'.mem x = m x := fun x => himage.file hd
    refine field64_of_file hfile ?_
    have hoff : HDR_ENTRY.toNat = 24 := rfl
    rw [UInt64.sub_self, hoff]
    exact Nat.le_trans (by decide) hheader
  · rintro ⟨i, hi⟩
    exact ⟨hleast.of_segment hi, fun j hj => hleast.le j hj.1 hj⟩

end Load

/-! ## Files -/

/-- The `n` low bytes of `v`, the lowest first. -/
def le (n v : Nat) : List UInt8 := (List.range n).map fun i => UInt8.ofNat (v / 256 ^ i)

/-- An ELF64 header. -/
def headerBytes (type entry phoff phentsize phnum : Nat) : List UInt8 :=
  le 4 ELF_MAGIC ++ [2, 1, 1, 0, 0] ++ le 7 0 ++ le 2 type ++ le 2 0x3E ++ le 4 1 ++ le 8 entry ++
    le 8 phoff ++ le 8 0 ++ le 4 0 ++ le 2 64 ++ le 2 phentsize ++ le 2 phnum ++ le 6 0

/-- A program header. -/
def phdrBytes (type offset vaddr filesz memsz : Nat) : List UInt8 :=
  le 4 type ++ le 4 0 ++ le 8 offset ++ le 8 vaddr ++ le 8 vaddr ++ le 8 filesz ++ le 8 memsz ++
    le 8 0x1000

/-- Memory with nothing but the file in it. -/
def placed (binary : UInt64) (file : List UInt8) : Mem := fun x => file.getD (x - binary).toNat 0

/-- A segment of eight bytes, four of them in the file, and a header of another type. -/
def smallFile : List UInt8 :=
  headerBytes 2 0x400000 64 56 2 ++ phdrBytes 1 176 0x400000 4 8 ++ phdrBytes 4 176 0 4 4 ++
    [0x48, 0x31, 0xC0, 0xC3]

theorem smallFile_segment {i : Nat} (h : IsSegment (placed 0x100000 smallFile) 0x100000 i) :
    i = 0 := by
  have hphnum : phnumAt (placed 0x100000 smallFile) 0x100000 = 2 := by decide +kernel
  rcases h with ⟨hi, htype⟩
  rw [hphnum] at hi
  have hcases : i = 0 ∨ i = 1 := by omega
  rcases hcases with rfl | rfl
  · rfl
  · revert htype
    decide +kernel

theorem smallFile_first : segment (placed 0x100000 smallFile) 0x100000 0 =
    ⟨0x400000, 8, 176, 4⟩ := by decide +kernel

theorem smallFile_described : Described (placed 0x100000 smallFile) 0x100000 180 where
  header := by decide
  magic := by decide +kernel
  cls := by decide +kernel
  phentsize := by decide +kernel
  table := by decide +kernel
  source i hi := by
    rw [smallFile_segment hi, smallFile_first]
    decide
  sizes i hi := by
    rw [smallFile_segment hi, smallFile_first]
    decide
  fits i hi := by
    rw [smallFile_segment hi, smallFile_first]
    decide
  disjoint i j hi hj hne := absurd ((smallFile_segment hi).trans (smallFile_segment hj).symm) hne
  away i hi x hx := by
    rw [InSegment, smallFile_segment hi, smallFile_first] at hx
    have hin : Range 0x400000 8 x := hx
    rw [range_iff_of_le (by decide)] at hin ⊢
    have hbounds : (0x400000 : UInt64).toNat = 0x400000 ∧ (0x100000 : UInt64).toNat = 0x100000 ∧
        (180 : UInt64).toNat = 180 := by decide
    omega

theorem elf_load_small :
    ∃ s' loaded, elfLoad 0x100000 180 (some ⟨0, 0, 0, 0⟩) ⟨placed 0x100000 smallFile, []⟩ =
        some ((0, some loaded), s') ∧
      s'.mem (0x400000 + UInt64.ofNat 3) = 0xC3 ∧ s'.mem (0x400000 + UInt64.ofNat 4) = 0 ∧
      loaded.loadBase = 0x400000 := by
  have hseg : IsSegment (placed 0x100000 smallFile) 0x100000 0 := by
    unfold IsSegment
    decide +kernel
  rcases elf_load_image smallFile_described (by decide) (Or.inl (by decide +kernel)) ⟨0, 0, 0, 0⟩ []
    with ⟨s', loaded, hload, himage, -, -, hbase⟩
  obtain ⟨hdata, hzero⟩ := himage 0 hseg
  obtain ⟨i, hi, hleast⟩ := (hbase ⟨0, hseg⟩).1
  rw [smallFile_first] at hdata hzero
  rw [smallFile_segment hi, smallFile_first] at hleast
  refine ⟨s', loaded, hload, ?_, hzero 4 (by decide) (by decide), hleast⟩
  exact (hdata 3 (by decide)).trans (by decide +kernel)

/-- A core file without segments. -/
def coreFile : List UInt8 := headerBytes 4 0 64 56 0

theorem coreFile_described : Described (placed 0x100000 coreFile) 0x100000 64 := by
  have hnone (i : Nat) : ¬ IsSegment (placed 0x100000 coreFile) 0x100000 i := by
    have hphnum : phnumAt (placed 0x100000 coreFile) 0x100000 = 0 := by decide +kernel
    rintro ⟨hi, -⟩
    rw [hphnum] at hi
    exact Nat.not_lt_zero i hi
  constructor
  · decide
  · decide +kernel
  · decide +kernel
  · decide +kernel
  · decide +kernel
  · exact fun i hi => absurd hi (hnone i)
  · exact fun i hi => absurd hi (hnone i)
  · exact fun i hi => absurd hi (hnone i)
  · exact fun i _ hi => absurd hi (hnone i)
  · exact fun i hi => absurd hi (hnone i)

/-- A file that is not executable is refused. -/
theorem elf_load_core :
    Described (placed 0x100000 coreFile) 0x100000 64 ∧
    (elfLoad 0x100000 64 (some ⟨0, 0, 0, 0⟩) ⟨placed 0x100000 coreFile, []⟩).map (fun r => r.1.1) =
      some (-1) :=
  ⟨coreFile_described, by decide +kernel⟩

end OmniOS.Elf
