import OmniOS.Lib.Lts

/-!
# OmniOS.Scripts.Ota — the A/B updater of `scripts/ota_update.sh`

A device has two slots, `a` and `b`, each with a boot and a root partition. The
file `slot_info` names the active one; an update is staged in a directory,
flashed to the other slot, and activated by rewriting `slot_info`.

Each command reads `slot_info` at its start and then writes: first partitions and
files, then perhaps `slot_info`. What it writes, in order, is its plan; a command
that fails or is interrupted has done the first part of its plan. `dd` leaves the
partition torn until it is done, and `cat > slot_info` truncates the file and
writes it line by line.

The check for the root user ends in `}` where `fi` is meant; it is read as `fi`.
-/

namespace OmniOS.Ota

inductive Slot where
  | a
  | b
  deriving DecidableEq

def Slot.other : Slot → Slot
  | .a => .b
  | .b => .a

theorem Slot.other_ne (s : Slot) : s.other ≠ s := by
  cases s <;> decide

/-- `slot_info`. A variable that is empty or not assigned is `none`. -/
structure SlotInfo where
  activeSlot : Option Slot
  bootCount : Option Nat
  maxBootAttempts : Option Nat
  updateAvailable : Option Bool
  updateSlot : Option Slot

/-- The file with only its first `n` lines. -/
def SlotInfo.firstLines (info : SlotInfo) (n : Nat) : SlotInfo where
  activeSlot := if 0 < n then info.activeSlot else none
  bootCount := if 1 < n then info.bootCount else none
  maxBootAttempts := if 2 < n then info.maxBootAttempts else none
  updateAvailable := if 3 < n then info.updateAvailable else none
  updateSlot := if 4 < n then info.updateSlot else none

/-- As `partition_layout.sh` writes it. -/
def initialInfo : SlotInfo := ⟨some .a, some 0, some 3, some false, some .b⟩

/-- What is in a partition. -/
inductive Content (Image : Type) where
  | blank
  | torn
  | flashed (image : Image)

def Content.isFlashed {Image : Type} : Content Image → Bool
  | .flashed _ => true
  | _ => false

/-- A hash tree of `veritysetup format`, and its root hash: what it was computed
for, and the salt. -/
structure RootHash (Image : Type) where
  image : Image
  salt : Nat

/-- The directory `UPDATE_DIR`: the files in it. -/
structure UpdateDir (Image : Type) where
  bootImg : Option Image
  rootImg : Option Image
  dtbImg : Option Image
  rootVerity : Option (RootHash Image)
  /-- `verity_params`, which may lack the line with the root hash. -/
  verityParams : Option (Option (RootHash Image))

/-- The persistent state of a device, with the staged update. -/
structure Device (Image : Type) where
  slotInfo : SlotInfo
  boot : Slot → Content Image
  root : Slot → Content Image
  dtb : Content Image
  /-- `/metadata/verity/root_a.verity` and `root_b.verity`. -/
  verityTree : Slot → Option (RootHash Image)
  /-- `/metadata/verity/root_a.hash` and `root_b.hash`. -/
  verityHash : Slot → Option (RootHash Image)
  updateDir : UpdateDir Image

variable {Image : Type}

/-! ## Writes -/

/-- A write that is not divided further. -/
inductive Action (Image : Type) where
  | flashBoot (slot : Slot) (content : Content Image)
  | flashRoot (slot : Slot) (content : Content Image)
  | flashDtb (content : Content Image)
  /-- `cp root.verity root_$update_slot.verity`; with an empty variable the file
  belongs to no slot. -/
  | copyTree (updateSlot : Option Slot) (tree : RootHash Image)
  /-- `echo $HASH > root_$update_slot.hash`. -/
  | writeHash (updateSlot : Option Slot) (hash : RootHash Image)
  | stage (dir : UpdateDir Image)
  | writeInfo (info : SlotInfo)

/-- Write the file of a slot, if there is a slot. -/
def putFile {α : Type} (files : Slot → Option α) : Option Slot → α → Slot → Option α
  | none, _ => files
  | some slot, file => Function.update files slot (some file)

def exec (d : Device Image) : Action Image → Device Image
  | .flashBoot slot content => { d with boot := Function.update d.boot slot content }
  | .flashRoot slot content => { d with root := Function.update d.root slot content }
  | .flashDtb content => { d with dtb := content }
  | .copyTree updateSlot tree => { d with verityTree := putFile d.verityTree updateSlot tree }
  | .writeHash updateSlot hash => { d with verityHash := putFile d.verityHash updateSlot hash }
  | .stage dir => { d with updateDir := dir }
  | .writeInfo info => { d with slotInfo := info }

/-- `dd` of an image to a partition. -/
def dd (flash : Content Image → Action Image) (image : Image) : List (Action Image) :=
  [flash .torn, flash (.flashed image)]

/-- `save_slot_info`. -/
def saveSlotInfo (info : SlotInfo) : List (Action Image) :=
  (List.range 6).map fun n => .writeInfo (info.firstLines n)

/-- What a command writes: `work`, and then `slot_info` if it saves it. -/
structure Plan (Image : Type) where
  work : List (Action Image)
  info : Option SlotInfo

def Plan.actions (p : Plan Image) : List (Action Image) :=
  p.work ++ p.info.elim [] saveSlotInfo

/-- A command that stops with an error, or only prints. -/
def Plan.nothing : Plan Image := ⟨[], none⟩

/-! ## Commands -/

/-- `unzip -o`: the files of the package replace those that are there. -/
def UpdateDir.unzip (dir package : UpdateDir Image) : UpdateDir Image where
  bootImg := package.bootImg.or dir.bootImg
  rootImg := package.rootImg.or dir.rootImg
  dtbImg := package.dtbImg.or dir.dtbImg
  rootVerity := package.rootVerity.or dir.rootVerity
  verityParams := package.verityParams.or dir.verityParams

/-- `veritysetup format`, if there is a root image. -/
def UpdateDir.format (dir : UpdateDir Image) (salt : Nat) : UpdateDir Image :=
  match dir.rootImg with
  | none => dir
  | some image =>
      { dir with rootVerity := some ⟨image, salt⟩, verityParams := some (some ⟨image, salt⟩) }

/-- `fetched` is what the download gives, `none` if it fails. -/
def cmdPrepare (d : Device Image) (url : String) (fetched : Option (UpdateDir Image))
    (salt : Nat) : Plan Image :=
  if url = "" then Plan.nothing
  else
    match fetched with
    | none => Plan.nothing
    | some package =>
        let dir := d.updateDir.unzip package
        { work := [.stage dir, .stage (dir.format salt)]
          info := some { d.slotInfo with updateAvailable := some true } }

/-- The root hash that `cmd_apply` finds: both files are there, and the second has
the line. -/
def UpdateDir.hash (dir : UpdateDir Image) : Option (RootHash Image) :=
  dir.rootVerity.bind fun _ => dir.verityParams.join

/-- The dm-verity block of `cmd_apply`, which names the files by `update_slot`. -/
def storeVerity (d : Device Image) : List (Action Image) :=
  match d.updateDir.rootVerity, d.updateDir.verityParams with
  | some tree, some (some hash) =>
      [.copyTree d.slotInfo.updateSlot tree, .writeHash d.slotInfo.updateSlot hash]
  | _, _ => []

/-- The partitions are those that `get_slot_devices` derives from `active_slot`.
`update_slot` is recomputed at the end and not saved. -/
def cmdApply (d : Device Image) : Plan Image :=
  if d.slotInfo.updateAvailable ≠ some true then Plan.nothing
  else
    match d.slotInfo.activeSlot with
    | none => Plan.nothing
    | some active =>
        let boot := d.updateDir.bootImg.elim [] (dd (.flashBoot active.other))
        let root := d.updateDir.rootImg.elim [] fun image =>
          dd (.flashRoot active.other) image ++ storeVerity d
        let dtb := d.updateDir.dtbImg.elim [] (dd .flashDtb)
        { work := boot ++ root ++ dtb, info := none }

/-- The `slot_info` that makes the other slot active. -/
def SlotInfo.flip (info : SlotInfo) (active : Slot) : SlotInfo :=
  { info with activeSlot := some active.other, bootCount := some 0, updateAvailable := some false }

def cmdSwitch (d : Device Image) : Plan Image :=
  match d.slotInfo.activeSlot with
  | none => Plan.nothing
  | some active => { work := [], info := some (d.slotInfo.flip active) }

def cmdCommit (d : Device Image) : Plan Image :=
  { work := [], info := some { d.slotInfo with bootCount := some 0 } }

/-- `[ "$boot_count" -ge "$max_boot_attempts" ]`, false when one of them is empty. -/
def SlotInfo.outOfAttempts (info : SlotInfo) : Bool :=
  match info.bootCount, info.maxBootAttempts with
  | some bootCount, some maxBootAttempts => maxBootAttempts ≤ bootCount
  | _, _ => false

def cmdRollback (d : Device Image) : Plan Image :=
  match d.slotInfo.activeSlot with
  | none => Plan.nothing
  | some active =>
      if d.slotInfo.outOfAttempts then { work := [], info := some (d.slotInfo.flip active) }
      else Plan.nothing

inductive Command (Image : Type) where
  | status
  | prepare (url : String) (fetched : Option (UpdateDir Image)) (salt : Nat)
  | apply
  | switch
  | commit
  | rollback
  | verify

/-- `status` and `verify` write nothing. -/
def plan (d : Device Image) : Command Image → Plan Image
  | .status => Plan.nothing
  | .prepare url fetched salt => cmdPrepare d url fetched salt
  | .apply => cmdApply d
  | .switch => cmdSwitch d
  | .commit => cmdCommit d
  | .rollback => cmdRollback d
  | .verify => Plan.nothing

inductive Event (Image : Type) where
  /-- The first `stop` writes of a command. -/
  | run (command : Command Image) (stop : Nat)
  /-- Somebody else changes the staged files. -/
  | stage (dir : UpdateDir Image)

def next (d : Device Image) : Event Image → Device Image
  | .run command stop => ((plan d command).actions.take stop).foldl exec d
  | .stage dir => { d with updateDir := dir }

def system (Init : Device Image → Prop) : Lts.System (Device Image) (Event Image) where
  Init := Init
  Next e d d' := d' = next d e

/-! ## What a command saves -/

/-- The branches that save `slot_info`. -/
inductive Saves (d : Device Image) : Command Image → SlotInfo → Prop where
  | prepare (url : String) (fetched : Option (UpdateDir Image)) (salt : Nat) :
      Saves d (.prepare url fetched salt) { d.slotInfo with updateAvailable := some true }
  | switch {active : Slot} (hactive : d.slotInfo.activeSlot = some active) :
      Saves d .switch (d.slotInfo.flip active)
  | commit : Saves d .commit { d.slotInfo with bootCount := some 0 }
  | rollback {active : Slot} (hactive : d.slotInfo.activeSlot = some active)
      (hattempts : d.slotInfo.outOfAttempts = true) : Saves d .rollback (d.slotInfo.flip active)

theorem saves_of_plan {d : Device Image} {command : Command Image} {info : SlotInfo}
    (h : (plan d command).info = some info) : Saves d command info := by
  cases command with
  | status => cases h
  | prepare url fetched salt =>
      rw [plan, cmdPrepare.eq_def] at h
      by_cases hurl : url = ""
      · rw [if_pos hurl] at h
        cases h
      · rw [if_neg hurl] at h
        cases fetched with
        | none => cases h
        | some package =>
            cases h
            exact Saves.prepare url _ salt
  | apply =>
      rw [plan, cmdApply] at h
      by_cases havailable : d.slotInfo.updateAvailable ≠ some true
      · rw [if_pos havailable] at h
        cases h
      · rw [if_neg havailable] at h
        cases hactive : d.slotInfo.activeSlot with
        | none =>
            rw [hactive] at h
            cases h
        | some active =>
            rw [hactive] at h
            cases h
  | switch =>
      rw [plan, cmdSwitch] at h
      cases hactive : d.slotInfo.activeSlot with
      | none =>
          rw [hactive] at h
          cases h
      | some active =>
          rw [hactive] at h
          cases h
          exact Saves.switch hactive
  | commit =>
      cases h
      exact Saves.commit
  | rollback =>
      rw [plan, cmdRollback] at h
      cases hactive : d.slotInfo.activeSlot with
      | none =>
          rw [hactive] at h
          cases h
      | some active =>
          by_cases hattempts : d.slotInfo.outOfAttempts = true
          · simp only [hactive, if_pos hattempts] at h
            cases h
            exact Saves.rollback hactive hattempts
          · simp only [hactive, if_neg hattempts] at h
            cases h
  | verify => cases h

theorem plan_switch {d : Device Image} {active : Slot}
    (hactive : d.slotInfo.activeSlot = some active) :
    plan d .switch = { work := [], info := some (d.slotInfo.flip active) } := by
  rw [plan, cmdSwitch, hactive]

/-- The writes of `cmd_apply`. -/
theorem plan_apply {d : Device Image} {active : Slot}
    (hactive : d.slotInfo.activeSlot = some active)
    (havailable : d.slotInfo.updateAvailable = some true) :
    plan d .apply =
      { work := d.updateDir.bootImg.elim [] (dd (.flashBoot active.other)) ++
          (d.updateDir.rootImg.elim [] fun image =>
            dd (.flashRoot active.other) image ++ storeVerity d) ++
          d.updateDir.dtbImg.elim [] (dd .flashDtb)
        info := none } := by
  rw [plan, cmdApply, if_neg (not_not_intro havailable), hactive]

theorem plan_apply_refused {d : Device Image} (h : d.slotInfo.updateAvailable ≠ some true) :
    plan d .apply = Plan.nothing := by
  rw [plan, cmdApply, if_pos h]

/-! ## Interruptions -/

theorem firstLines_five (info : SlotInfo) {n : Nat} (h : 5 ≤ n) : info.firstLines n = info := by
  have h0 : 0 < n := by omega
  have h1 : 1 < n := by omega
  have h2 : 2 < n := by omega
  have h3 : 3 < n := by omega
  have h4 : 4 < n := by omega
  simp [SlotInfo.firstLines, h0, h1, h2, h3, h4]

/-- Part of `save_slot_info`, at least the truncation. -/
theorem foldl_save (d : Device Image) (info : SlotInfo) (n : Nat) :
    ((saveSlotInfo info).take (n + 1)).foldl exec d = { d with slotInfo := info.firstLines n } := by
  match n with
  | 0 => rfl
  | 1 => rfl
  | 2 => rfl
  | 3 => rfl
  | 4 => rfl
  | n + 5 =>
      have hall : (saveSlotInfo info : List (Action Image)).take (n + 5 + 1) = saveSlotInfo info :=
        List.take_of_length_le (by simp [saveSlotInfo])
      rw [hall, firstLines_five info (Nat.le_add_left 5 n), ← firstLines_five info (Nat.le_refl 5)]
      rfl

/-- A command stops in its work, or in saving `slot_info` with `n` lines written. -/
theorem run_cases (d : Device Image) (p : Plan Image) (stop : Nat) :
    ((p.info = none ∨ stop ≤ p.work.length) ∧
      (p.actions.take stop).foldl exec d = (p.work.take stop).foldl exec d) ∨
    ∃ info n, p.info = some info ∧ stop = p.work.length + (n + 1) ∧
      (p.actions.take stop).foldl exec d =
        { p.work.foldl exec d with slotInfo := info.firstLines n } := by
  rw [Plan.actions, List.take_append, List.foldl_append]
  cases hinfo : p.info with
  | none =>
      left
      exact ⟨Or.inl rfl, by simp⟩
  | some info =>
      by_cases hstop : stop ≤ p.work.length
      · left
        refine ⟨Or.inr hstop, ?_⟩
        rw [Nat.sub_eq_zero_of_le hstop, List.take_zero]
        rfl
      · right
        obtain ⟨n, rfl⟩ : ∃ n, stop = p.work.length + (n + 1) :=
          ⟨stop - p.work.length - 1, by omega⟩
        refine ⟨info, n, rfl, rfl, ?_⟩
        rw [List.take_of_length_le (Nat.le_add_right _ _), Nat.add_sub_cancel_left]
        exact foldl_save _ info n

theorem length_actions (p : Plan Image) :
    p.actions.length = p.work.length + p.info.elim 0 fun _ => 6 := by
  rw [Plan.actions, List.length_append]
  cases p.info with
  | none => rfl
  | some info => simp [saveSlotInfo]

/-- A command that was not interrupted. -/
theorem run_whole (d : Device Image) (p : Plan Image) {stop : Nat}
    (hstop : p.actions.length ≤ stop) :
    (p.actions.take stop).foldl exec d =
      { p.work.foldl exec d with slotInfo := p.info.getD (p.work.foldl exec d).slotInfo } := by
  rw [length_actions] at hstop
  rcases run_cases d p stop with ⟨hcut, hrun⟩ | ⟨info, n, hinfo, rfl, hrun⟩
  · have hnone : p.info = none := by
      rcases hcut with hnone | hle
      · exact hnone
      · cases hinfo : p.info with
        | none => rfl
        | some info =>
            rw [hinfo, Option.elim_some] at hstop
            omega
    rw [hrun, hnone, List.take_of_length_le (by omega)]
    rfl
  · rw [hinfo, Option.elim_some] at hstop
    rw [hrun, hinfo, firstLines_five info (by omega)]
    rfl

end OmniOS.Ota
