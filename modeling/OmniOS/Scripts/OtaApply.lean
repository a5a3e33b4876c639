import OmniOS.Scripts.OtaSlots

/-!
# OmniOS.Scripts.OtaApply — what `cmd_apply` writes to

`apply` is meant for the slot that is not active. Its partitions come from `active_slot`, but
the verity files are named by `update_slot`, which `switch` leaves behind at the slot it makes
active, and the device tree goes to one place for both slots. A command that is interrupted
has done a first part of its writes, so what is said of each write holds at every point.
-/

namespace OmniOS.Ota

variable {Image : Type} {d d' : Device Image}

/-- The write is to a partition or a verity file of `s`. -/
def Action.BelongsTo (s : Slot) : Action Image → Prop
  | .flashBoot slot _ => slot = s
  | .flashRoot slot _ => slot = s
  | .flashDtb _ => False
  | .copyTree updateSlot _ => updateSlot = some s
  | .writeHash updateSlot _ => updateSlot = some s
  | .stage _ => False
  | .writeInfo _ => False

/-- All that a boot of `s` depends on is the same. -/
structure Untouched (s : Slot) (d d' : Device Image) : Prop where
  slotInfo : d'.slotInfo = d.slotInfo
  boot : d'.boot s = d.boot s
  root : d'.root s = d.root s
  dtb : d'.dtb = d.dtb
  verityTree : d'.verityTree s = d.verityTree s
  verityHash : d'.verityHash s = d.verityHash s

/-- `cmd_verify` finds the root of `s` as it should be: hash tree and root hash are those of
the image in the partition. -/
def Verified (d : Device Image) (s : Slot) : Prop :=
  ∃ hash : RootHash Image, d.root s = .flashed hash.image ∧ d.verityTree s = some hash ∧
    d.verityHash s = some hash

/-- However far `apply` gets, it has written to the other slot only, and the active one is
untouched. -/
def ApplyConfined (d : Device Image) : Prop :=
  ∀ active, d.slotInfo.activeSlot = some active → ∀ stop,
    (∀ action ∈ (plan d .apply).actions.take stop, action.BelongsTo active.other) ∧
      Untouched active d (next d (.run .apply stop))

/-- There is nothing to apply, or no device tree, and verity files only if `update_slot` is
the other slot. -/
def Aligned (d : Device Image) : Prop :=
  d.slotInfo.updateAvailable ≠ some true ∨
    d.updateDir.dtbImg = none ∧
      (d.updateDir.rootImg = none ∨ d.updateDir.hash = none ∨
        d.slotInfo.updateSlot = d.slotInfo.activeSlot.map Slot.other)

/-! ## Writes to one slot -/

section Writes

variable {s : Slot}

theorem Untouched.refl (s : Slot) (d : Device Image) : Untouched s d d :=
  ⟨rfl, rfl, rfl, rfl, rfl, rfl⟩

theorem Untouched.trans {d₁ d₂ d₃ : Device Image} (h : Untouched s d₁ d₂)
    (h' : Untouched s d₂ d₃) : Untouched s d₁ d₃ where
  slotInfo := h'.slotInfo.trans h.slotInfo
  boot := h'.boot.trans h.boot
  root := h'.root.trans h.root
  dtb := h'.dtb.trans h.dtb
  verityTree := h'.verityTree.trans h.verityTree
  verityHash := h'.verityHash.trans h.verityHash

/-- What verified still does. -/
theorem Untouched.verified (h : Untouched s d d') : Verified d' s ↔ Verified d s := by
  unfold Verified
  rw [h.root, h.verityTree, h.verityHash]

theorem putFile_of_ne {α : Type} (files : Slot → Option α) {slot : Slot} (hne : s ≠ slot)
    (file : α) : putFile files (some slot) file s = files s :=
  Function.update_of_ne hne _ _

/-- A write to the other slot. -/
theorem exec_untouched {action : Action Image} (h : action.BelongsTo s.other) :
    Untouched s d (exec d action) := by
  have hne : s ≠ s.other := Ne.symm s.other_ne
  cases action with
  | flashBoot slot content =>
      obtain rfl : slot = s.other := h
      exact ⟨rfl, Function.update_of_ne hne _ _, rfl, rfl, rfl, rfl⟩
  | flashRoot slot content =>
      obtain rfl : slot = s.other := h
      exact ⟨rfl, rfl, Function.update_of_ne hne _ _, rfl, rfl, rfl⟩
  | flashDtb content => exact h.elim
  | copyTree updateSlot tree =>
      obtain rfl : updateSlot = some s.other := h
      exact ⟨rfl, rfl, rfl, rfl, putFile_of_ne _ hne _, rfl⟩
  | writeHash updateSlot hash =>
      obtain rfl : updateSlot = some s.other := h
      exact ⟨rfl, rfl, rfl, rfl, rfl, putFile_of_ne _ hne _⟩
  | stage dir => exact h.elim
  | writeInfo info => exact h.elim

theorem foldl_untouched {actions : List (Action Image)}
    (h : ∀ action ∈ actions, action.BelongsTo s.other) :
    Untouched s d (actions.foldl exec d) := by
  induction actions generalizing d with
  | nil => exact Untouched.refl s d
  | cons action actions ih =>
      rw [List.forall_mem_cons] at h
      exact (exec_untouched h.1).trans (ih h.2)

/-- It is enough to look at the whole plan. -/
theorem applyConfined_iff (d : Device Image) :
    ApplyConfined d ↔ ∀ active, d.slotInfo.activeSlot = some active →
      ∀ action ∈ (plan d .apply).actions, action.BelongsTo active.other := by
  constructor
  · intro hconfined active hactive
    have hall := (hconfined active hactive (plan d .apply).actions.length).1
    rwa [List.take_length] at hall
  · intro hall active hactive stop
    have hpart : ∀ action ∈ (plan d .apply).actions.take stop, action.BelongsTo active.other :=
      fun action haction => hall active hactive action (List.mem_of_mem_take haction)
    exact ⟨hpart, foldl_untouched hpart⟩

end Writes

/-! ## The plan -/

section Parts

variable {s : Slot}

theorem boot_belongs (d : Device Image) (s : Slot) :
    ∀ action ∈ d.updateDir.bootImg.elim [] (dd (.flashBoot s)), action.BelongsTo s := by
  cases d.updateDir.bootImg with
  | none => simp
  | some image => simp [dd, Action.BelongsTo]

theorem dtb_belongs_iff (d : Device Image) (s : Slot) :
    (∀ action ∈ d.updateDir.dtbImg.elim [] (dd .flashDtb), action.BelongsTo s) ↔
      d.updateDir.dtbImg = none := by
  cases d.updateDir.dtbImg with
  | none => simp
  | some image => simp [dd, Action.BelongsTo]

theorem storeVerity_belongs_iff (d : Device Image) (s : Slot) :
    (∀ action ∈ storeVerity d, action.BelongsTo s) ↔
      (d.updateDir.hash = none ∨ d.slotInfo.updateSlot = some s) := by
  unfold storeVerity UpdateDir.hash
  cases d.updateDir.rootVerity with
  | none => simp
  | some tree =>
      cases d.updateDir.verityParams with
      | none => simp
      | some params =>
          cases params with
          | none => simp
          | some hash => simp [Action.BelongsTo]

theorem root_belongs_iff (d : Device Image) (s : Slot) :
    (∀ action ∈ d.updateDir.rootImg.elim [] fun image =>
        dd (.flashRoot s) image ++ storeVerity d, action.BelongsTo s) ↔
      (d.updateDir.rootImg = none ∨ d.updateDir.hash = none ∨
        d.slotInfo.updateSlot = some s) := by
  cases d.updateDir.rootImg with
  | none => simp
  | some image =>
      rw [Option.elim_some, List.forall_mem_append, storeVerity_belongs_iff]
      simp [dd, Action.BelongsTo]

theorem apply_belongs_iff (hactive : d.slotInfo.activeSlot = some s)
    (havailable : d.slotInfo.updateAvailable = some true) :
    (∀ action ∈ (plan d .apply).actions, action.BelongsTo s.other) ↔
      d.updateDir.dtbImg = none ∧ (d.updateDir.rootImg = none ∨ d.updateDir.hash = none ∨
        d.slotInfo.updateSlot = some s.other) := by
  rw [plan_apply hactive havailable, Plan.actions, Option.elim_none, List.append_nil,
    List.forall_mem_append, List.forall_mem_append, dtb_belongs_iff, root_belongs_iff, and_comm]
  exact and_congr_right fun _ => and_iff_right (boot_belongs d s.other)

end Parts

/-- `apply` keeps to the other slot exactly when the files in the update directory and
`update_slot` let it. -/
theorem ota_apply_confined_iff (d : Device Image) :
    ApplyConfined d ↔ d.slotInfo.activeSlot = none ∨ Aligned d := by
  rw [applyConfined_iff]
  unfold Aligned
  cases hactive : d.slotInfo.activeSlot with
  | none => simp
  | some active =>
      simp only [Option.some.injEq, forall_eq', reduceCtorEq, false_or, Option.map_some]
      by_cases havailable : d.slotInfo.updateAvailable = some true
      · rw [apply_belongs_iff hactive havailable]
        exact (or_iff_right (not_not_intro havailable)).symm
      · rw [plan_apply_refused havailable]
        refine iff_of_true ?_ (Or.inl havailable)
        intro action haction
        exact absurd haction List.not_mem_nil

/-- A second update is prepared after the switch to slot `b`. -/
def preparedAgain : Device Nat :=
  next switchedDevice (.run (.prepare "update" (some ⟨some 5, some 6, none, none, none⟩) 1) 8)

/-- A first update with a device tree. -/
def preparedTree : Device Nat :=
  next firstDevice (.run (.prepare "update" (some ⟨some 3, some 4, some 7, none, none⟩) 0) 8)

/-- After `switch`, `apply` replaces the verity files of the running slot, which no longer
verifies; and a device tree goes to no slot at all. -/
theorem ota_apply_active_verity :
    (Lts.Reachable commands preparedAgain ∧ preparedAgain.slotInfo.activeSlot = some .b ∧
      Verified preparedAgain .b ∧ ¬ Verified (next preparedAgain (.run .apply 6)) .b ∧
      ¬ ApplyConfined preparedAgain) ∧
    (Lts.Reachable commands preparedTree ∧ preparedTree.dtb = .blank ∧
      (next preparedTree (.run .apply 8)).dtb = .flashed 7 ∧ ¬ ApplyConfined preparedTree) := by
  have hfirst : Lts.Reachable commands firstDevice := Lts.Reachable.init firstDevice_installed
  have hprepared : Lts.Reachable commands preparedDevice := commands_run hfirst _ (by decide)
  have hupdated : Lts.Reachable commands updatedDevice := commands_run hprepared _ (by decide)
  have hswitched : Lts.Reachable commands switchedDevice := commands_run hupdated _ (by decide)
  have hagain : Lts.Reachable commands preparedAgain := commands_run hswitched _ (by decide)
  have htree : Lts.Reachable commands preparedTree := commands_run hfirst _ (by decide)
  have hverified : Verified preparedAgain .b := ⟨⟨4, 0⟩, rfl, rfl, rfl⟩
  have hbroken : ¬ Verified (next preparedAgain (.run .apply 6)) .b := by
    rintro ⟨hash, hroot, -, hhash⟩
    obtain rfl : (⟨6, 1⟩ : RootHash Nat) = hash := Option.some.inj hhash
    cases hroot
  refine ⟨⟨hagain, rfl, hverified, hbroken, fun hconfined => ?_⟩, htree, rfl, rfl,
    fun hconfined => ?_⟩
  · exact hbroken ((hconfined .b rfl 6).2.verified.mpr hverified)
  · have hdtb := (hconfined .a rfl 8).2.dtb
    cases hdtb

end OmniOS.Ota
