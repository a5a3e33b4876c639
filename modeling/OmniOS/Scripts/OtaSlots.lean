import OmniOS.Scripts.Ota

/-!
# OmniOS.Scripts.OtaSlots — what the updater keeps, and where it does not

Three properties of the device over any sequence of commands.

1. **The active slot is flashed.** Every command spares the active slot while it
   works (`plan_spares`), so a device stays bootable unless `slot_info` is left
   truncated or `switch` names a slot that is not complete.
2. **The metadata agree.** `update_slot` is the slot that is not active, and each
   root hash belongs to the root image of its slot. `switch` does not keep
   `update_slot` up to date.
3. **Only `switch` chooses the slot.** No command counts the boots, so `rollback`
   never finds the attempts used up.
-/

namespace OmniOS.Ota

variable {Image : Type} {d d' : Device Image}

/-! ## The active slot is flashed -/

/-- Both partitions of a slot were flashed to the end. -/
def Complete (d : Device Image) (s : Slot) : Prop :=
  (d.boot s).isFlashed ∧ (d.root s).isFlashed

instance (d : Device Image) (s : Slot) : Decidable (Complete d s) :=
  inferInstanceAs (Decidable (_ ∧ _))

/-- `slot_info` names a complete slot. -/
def ActiveFlashed (d : Device Image) : Prop :=
  ∃ s, d.slotInfo.activeSlot = some s ∧ Complete d s

/-- A write that leaves `slot_info` and the partitions of `s` alone. -/
def Action.Spares (s : Slot) : Action Image → Prop
  | .flashBoot slot _ => slot ≠ s
  | .flashRoot slot _ => slot ≠ s
  | .writeInfo _ => False
  | _ => True

/-- What is the same after writes that spare `s`. -/
structure Spared (s : Slot) (d d' : Device Image) : Prop where
  slotInfo : d'.slotInfo = d.slotInfo
  boot : d'.boot s = d.boot s
  root : d'.root s = d.root s

theorem Spared.complete {s : Slot} (h : Spared s d d') : Complete d' s ↔ Complete d s := by
  rw [Complete, Complete, h.boot, h.root]

theorem exec_spares {s : Slot} {action : Action Image} (h : action.Spares s) :
    Spared s d (exec d action) := by
  cases action with
  | flashBoot slot content => exact ⟨rfl, Function.update_of_ne (Ne.symm h) _ _, rfl⟩
  | flashRoot slot content => exact ⟨rfl, rfl, Function.update_of_ne (Ne.symm h) _ _⟩
  | flashDtb content => exact ⟨rfl, rfl, rfl⟩
  | copyTree updateSlot tree => exact ⟨rfl, rfl, rfl⟩
  | writeHash updateSlot hash => exact ⟨rfl, rfl, rfl⟩
  | stage dir => exact ⟨rfl, rfl, rfl⟩
  | writeInfo info => exact h.elim

theorem foldl_spares {s : Slot} {actions : List (Action Image)}
    (h : ∀ action ∈ actions, action.Spares s) : Spared s d (actions.foldl exec d) := by
  induction actions generalizing d with
  | nil => exact ⟨rfl, rfl, rfl⟩
  | cons action actions ih =>
      have hfirst : Spared s d (exec d action) := exec_spares (h action List.mem_cons_self)
      have hrest : Spared s (exec d action) (actions.foldl exec (exec d action)) :=
        ih fun action' haction' => h action' (List.mem_cons_of_mem _ haction')
      exact ⟨hrest.slotInfo.trans hfirst.slotInfo, hrest.boot.trans hfirst.boot,
        hrest.root.trans hfirst.root⟩

theorem dd_spares {s : Slot} (flash : Content Image → Action Image) (h : ∀ c, (flash c).Spares s)
    (image : Option Image) : ∀ action ∈ image.elim [] (dd flash), action.Spares s := by
  intro action haction
  cases image with
  | none => exact absurd haction List.not_mem_nil
  | some image =>
      rw [Option.elim_some, dd, List.mem_pair] at haction
      rcases haction with rfl | rfl
      · exact h _
      · exact h _

theorem storeVerity_spares (d : Device Image) (s : Slot) :
    ∀ action ∈ storeVerity d, action.Spares s := by
  intro action haction
  unfold storeVerity at haction
  split at haction
  next =>
    rw [List.mem_pair] at haction
    rcases haction with rfl | rfl
    · trivial
    · trivial
  next => exact absurd haction List.not_mem_nil

/-- Commands work on the slot that is not active. -/
theorem plan_spares {s : Slot} (hactive : d.slotInfo.activeSlot = some s) (command : Command Image) :
    ∀ action ∈ (plan d command).work, action.Spares s := by
  intro action haction
  cases command with
  | status => exact absurd haction List.not_mem_nil
  | prepare url fetched salt =>
      rw [plan, cmdPrepare.eq_def] at haction
      by_cases hurl : url = ""
      · rw [if_pos hurl] at haction
        exact absurd haction List.not_mem_nil
      · rw [if_neg hurl] at haction
        cases fetched with
        | none => exact absurd haction List.not_mem_nil
        | some package =>
            -- only the staged files change
            rw [List.mem_pair] at haction
            rcases haction with rfl | rfl
            · trivial
            · trivial
  | apply =>
      by_cases havailable : d.slotInfo.updateAvailable = some true
      · rw [plan_apply hactive havailable, List.mem_append, List.mem_append] at haction
        rcases haction with (hboot | hroot) | hdtb
        · exact dd_spares (.flashBoot s.other) (fun _ => s.other_ne) _ action hboot
        · cases hroot' : d.updateDir.rootImg with
          | none =>
              rw [hroot'] at hroot
              exact absurd hroot List.not_mem_nil
          | some image =>
              rw [hroot', Option.elim_some, List.mem_append] at hroot
              rcases hroot with hdd | hverity
              · exact dd_spares (.flashRoot s.other) (fun _ => s.other_ne) (some image) action hdd
              · exact storeVerity_spares d s action hverity
        · exact dd_spares .flashDtb (fun _ => trivial) _ action hdtb
      · rw [plan_apply_refused havailable] at haction
        exact absurd haction List.not_mem_nil
  | switch =>
      rw [plan_switch hactive] at haction
      exact absurd haction List.not_mem_nil
  | commit => exact absurd haction List.not_mem_nil
  | rollback =>
      rw [plan, cmdRollback, hactive] at haction
      by_cases hattempts : d.slotInfo.outOfAttempts = true
      · simp only [if_pos hattempts] at haction
        exact absurd haction List.not_mem_nil
      · simp only [if_neg hattempts] at haction
        exact absurd haction List.not_mem_nil
  | verify => exact absurd haction List.not_mem_nil

/-- The counters that the script leaves in `slot_info`. -/
structure SlotInfo.Quiet (info : SlotInfo) : Prop where
  bootCount : ∀ n, info.bootCount = some n → n = 0
  maxBootAttempts : ∀ n, info.maxBootAttempts = some n → n = 3

/-- `rollback` never finds that the attempts are used up. -/
theorem SlotInfo.Quiet.outOfAttempts {info : SlotInfo} (h : info.Quiet) :
    info.outOfAttempts = false := by
  unfold SlotInfo.outOfAttempts
  split
  next n m hn hm =>
    rw [h.bootCount n hn, h.maxBootAttempts m hm]
    rfl
  next => rfl

theorem SlotInfo.Quiet.firstLines {info : SlotInfo} (h : info.Quiet) (n : Nat) :
    (info.firstLines n).Quiet := by
  constructor
  · intro k hk
    exact h.bootCount k (Option.ite_none_right_eq_some.mp hk).2
  · intro k hk
    exact h.maxBootAttempts k (Option.ite_none_right_eq_some.mp hk).2

theorem Saves.quiet {command : Command Image} {info : SlotInfo} (h : Saves d command info)
    (hquiet : d.slotInfo.Quiet) : info.Quiet := by
  have hzero : ∀ n, some 0 = some n → n = 0 := fun n hn => (Option.some.inj hn).symm
  cases h with
  | prepare url fetched salt => exact ⟨hquiet.bootCount, hquiet.maxBootAttempts⟩
  | switch hactive => exact ⟨hzero, hquiet.maxBootAttempts⟩
  | commit => exact ⟨hzero, hquiet.maxBootAttempts⟩
  | rollback hactive hattempts => exact ⟨hzero, hquiet.maxBootAttempts⟩

/-- Only `switch` saves another active slot. -/
theorem Saves.activeSlot {command : Command Image} {info : SlotInfo} (h : Saves d command info)
    (hquiet : d.slotInfo.Quiet) (hcommand : command ≠ .switch) :
    info.activeSlot = d.slotInfo.activeSlot ∧ info.updateSlot = d.slotInfo.updateSlot := by
  cases h with
  | prepare url fetched salt => exact ⟨rfl, rfl⟩
  | switch hactive => exact absurd rfl hcommand
  | commit => exact ⟨rfl, rfl⟩
  | rollback hactive hattempts =>
      rw [hquiet.outOfAttempts] at hattempts
      cases hattempts

/-- `slot_info` is not left truncated, and `switch` is run when the other slot is
complete. -/
def Careful : Event Image → Device Image → Prop
  | .stage _, _ => True
  | .run command stop, d =>
      ((plan d command).info.isSome → stop ≠ (plan d command).work.length + 1) ∧
      (command = .switch → 1 < stop → ∀ s, d.slotInfo.activeSlot = some s → Complete d s.other)

/-- The end of a command that got at least one line of `slot_info` written. -/
theorem activeFlashed_saved {s : Slot} (hactive : d.slotInfo.activeSlot = some s)
    (hcomplete : Complete d s) (hquiet : d.slotInfo.Quiet) {command : Command Image} {info : SlotInfo}
    (hinfo : (plan d command).info = some info) (n : Nat) :
    ActiveFlashed { (plan d command).work.foldl exec d with slotInfo := info.firstLines (n + 1) } ↔
      (command = .switch → Complete d s.other) := by
  by_cases hswitch : command = .switch
  · -- nothing but `slot_info` is written
    subst hswitch
    rw [plan_switch hactive, Option.some.injEq] at hinfo
    subst hinfo
    rw [plan_switch hactive]
    constructor
    · rintro ⟨t, ht, hcomplete'⟩ -
      have hother : s.other = t := Option.some.inj ht
      rw [hother]
      exact hcomplete'
    · intro hother
      exact ⟨s.other, rfl, hother rfl⟩
  · have hspared : Spared s d ((plan d command).work.foldl exec d) :=
      foldl_spares (plan_spares hactive command)
    have hsame := ((saves_of_plan hinfo).activeSlot hquiet hswitch).1
    exact iff_of_true ⟨s, hsame.trans hactive, hspared.complete.mpr hcomplete⟩
      fun heq => absurd heq hswitch

/-- One event keeps the active slot flashed exactly if it is careful. -/
theorem activeFlashed_next (h : ActiveFlashed d) (hquiet : d.slotInfo.Quiet) (e : Event Image) :
    (ActiveFlashed (next d e) ↔ Careful e d) ∧ (next d e).slotInfo.Quiet := by
  cases e with
  | stage dir => exact ⟨iff_of_true h trivial, hquiet⟩
  | run command stop =>
      rcases h with ⟨s, hactive, hcomplete⟩
      show (ActiveFlashed (((plan d command).actions.take stop).foldl exec d) ↔ _) ∧
        (((plan d command).actions.take stop).foldl exec d).slotInfo.Quiet
      rcases run_cases d (plan d command) stop with ⟨hcut, hrun⟩ | ⟨info, n, hinfo, rfl, hrun⟩
      · -- `slot_info` is not written
        rw [hrun]
        have hspared : Spared s d (((plan d command).work.take stop).foldl exec d) :=
          foldl_spares fun action haction =>
            plan_spares hactive command action (List.mem_of_mem_take haction)
        refine ⟨iff_of_true ?_ ?_, ?_⟩
        · exact ⟨s, by rw [hspared.slotInfo, hactive], hspared.complete.mpr hcomplete⟩
        · constructor
          · intro hsome
            rcases hcut with hnone | hle
            · rw [hnone] at hsome
              cases hsome
            · omega
          · intro hswitch hstop
            rw [hswitch, plan_switch hactive] at hcut
            rcases hcut with hnone | hle
            · cases hnone
            · exact absurd hle (by simp; omega)
        · rw [hspared.slotInfo]
          exact hquiet
      · rw [hrun]
        refine ⟨?_, ((saves_of_plan hinfo).quiet hquiet).firstLines n⟩
        cases n with
        | zero =>
            -- the file is empty
            refine iff_of_false ?_ ?_
            · rintro ⟨t, ht, -⟩
              cases ht
            · intro hcareful
              exact hcareful.1 (by rw [hinfo]; rfl) rfl
        | succ n =>
            rw [activeFlashed_saved hactive hcomplete hquiet hinfo n]
            constructor
            · intro hother
              refine ⟨fun _ => by omega, fun hswitch _ t ht => ?_⟩
              rw [hactive, Option.some.injEq] at ht
              exact ht ▸ hother hswitch
            · intro hcareful hswitch
              exact hcareful.2 hswitch (by omega) s hactive

/-- Slot `a` holds the only complete system, and nothing was updated yet. -/
def FirstBoot (d : Device Image) : Prop :=
  d.slotInfo = initialInfo ∧ Complete d .a ∧ ¬ Complete d .b

theorem initialInfo_quiet : initialInfo.Quiet where
  bootCount := fun _ hn => (Option.some.inj hn).symm
  maxBootAttempts := fun _ hn => (Option.some.inj hn).symm

/-- While all events are careful, `slot_info` names a complete slot; the first one
that is not careful ends this. -/
theorem active_slot_flashed_if_careful
    (hreach : Lts.Reachable ((system FirstBoot).restrict Careful) d) :
    ActiveFlashed d ∧
    ∀ e d', (system FirstBoot).Next e d d' → (ActiveFlashed d' ↔ Careful e d) := by
  have hinv : ActiveFlashed d ∧ d.slotInfo.Quiet := by
    refine hreach.invariant (I := fun d => ActiveFlashed d ∧ d.slotInfo.Quiet) ?_ ?_
    · rintro d ⟨hinfo, hcomplete, -⟩
      refine ⟨⟨.a, ?_, hcomplete⟩, ?_⟩
      · rw [hinfo]
        rfl
      · rw [hinfo]
        exact initialInfo_quiet
    · rintro e d d' ⟨hflashed, hquiet⟩ ⟨hcareful, rfl⟩
      rcases activeFlashed_next hflashed hquiet e with ⟨hiff, hquiet'⟩
      exact ⟨hiff.mpr hcareful, hquiet'⟩
  refine ⟨hinv.1, ?_⟩
  rintro e d' rfl
  exact (activeFlashed_next hinv.1 hinv.2 e).1

/-- A device with a system in slot `a`; images are numbers. -/
def firstDevice : Device Nat where
  slotInfo := initialInfo
  boot := fun s => if s = .a then .flashed 1 else .blank
  root := fun s => if s = .a then .flashed 2 else .blank
  dtb := .blank
  verityTree := fun _ => none
  verityHash := fun _ => none
  updateDir := ⟨none, none, none, none, none⟩

theorem firstDevice_firstBoot : FirstBoot firstDevice := ⟨rfl, by decide, by decide⟩

/-- `switch` without an update activates an empty slot; `commit`, interrupted after
`slot_info` is truncated, leaves no active slot. -/
theorem unflashed_slot_activated :
    FirstBoot firstDevice ∧
    (next firstDevice (.run .switch 6)).slotInfo.activeSlot = some .b ∧
    ¬ Complete (next firstDevice (.run .switch 6)) .b ∧
    ¬ ActiveFlashed (next firstDevice (.run .switch 6)) ∧
    ¬ ActiveFlashed (next firstDevice (.run .commit 1)) := by
  have hblank : ¬ Complete (next firstDevice (.run .switch 6)) .b := by decide
  refine ⟨firstDevice_firstBoot, rfl, hblank, ?_, ?_⟩
  · rintro ⟨s, hs, hcomplete⟩
    have hb : Slot.b = s := Option.some.inj hs
    exact hblank (hb ▸ hcomplete)
  · rintro ⟨s, hs, -⟩
    cases hs

/-- An update with both images. -/
def package : UpdateDir Nat := ⟨some 3, some 4, none, none, none⟩

/-- `prepare` on the first device. -/
def preparedDevice : Device Nat := next firstDevice (.run (.prepare "update" (some package) 0) 8)

/-- The update is flashed to slot `b`. -/
def updatedDevice : Device Nat := next preparedDevice (.run .apply 6)

/-- After `prepare` and `apply`, `switch` activates a flashed slot. -/
theorem active_slot_flashed_after_update :
    (next updatedDevice (.run .switch 6)).slotInfo.activeSlot = some .b ∧
      ActiveFlashed (next updatedDevice (.run .switch 6)) := by
  have hfirst : Lts.Reachable ((system FirstBoot).restrict Careful) firstDevice :=
    Lts.Reachable.init firstDevice_firstBoot
  have hprepare : Careful (.run (.prepare "update" (some package) 0) 8) firstDevice :=
    ⟨fun _ => by decide, fun h => (nomatch h)⟩
  have hprepared : Lts.Reachable ((system FirstBoot).restrict Careful) preparedDevice :=
    hfirst.step ⟨hprepare, rfl⟩
  have happly : Careful (.run .apply 6) preparedDevice :=
    ⟨fun h => (nomatch h), fun h => (nomatch h)⟩
  have hupdated : Lts.Reachable ((system FirstBoot).restrict Careful) updatedDevice :=
    hprepared.step ⟨happly, rfl⟩
  have hcareful : Careful (.run .switch 6) updatedDevice := by
    refine ⟨fun _ => by decide, fun _ _ s hs => ?_⟩
    have ha : Slot.a = s := Option.some.inj hs
    subst ha
    decide
  exact ⟨rfl, ((active_slot_flashed_if_careful hupdated).2 _ _ rfl).mpr hcareful⟩

/-! ## The metadata agree -/

/-- Each root hash in the metadata belongs to the image in its root partition. -/
def HashesAgree (d : Device Image) : Prop :=
  ∀ s h, d.verityHash s = some h → d.root s = .flashed h.image

def Agrees (d : Device Image) : Prop :=
  d.slotInfo.updateSlot ≠ d.slotInfo.activeSlot ∧ HashesAgree d

/-- The command ran to its end. -/
def Whole : Event Image → Device Image → Prop
  | .run command stop, d => (plan d command).actions.length ≤ stop
  | .stage _, _ => True

/-- The root hash of the standby slot after `apply`, the old one or the staged
one, is that of the staged root image. -/
def HashStaged (d : Device Image) : Prop :=
  d.slotInfo.updateAvailable = some true →
    ∀ s image h, d.slotInfo.activeSlot = some s → d.updateDir.rootImg = some image →
      d.updateDir.hash.or (d.verityHash s.other) = some h → h.image = image

/-- No `switch`, and every `apply` of a root image finds its root hash. -/
def Matching : Event Image → Device Image → Prop
  | .run command _, d => command ≠ .switch ∧ (command = .apply → HashStaged d)
  | .stage _, _ => True

/-- What holds as long as nobody switches. -/
structure Tracked (d : Device Image) : Prop where
  slots : ∃ s, d.slotInfo.activeSlot = some s ∧ d.slotInfo.updateSlot = some s.other
  quiet : d.slotInfo.Quiet
  hashes : HashesAgree d

theorem Tracked.agrees (h : Tracked d) : Agrees d := by
  rcases h.slots with ⟨s, hactive, hupdate⟩
  refine ⟨?_, h.hashes⟩
  rw [hactive, hupdate]
  exact fun heq => s.other_ne (Option.some.inj heq)

/-- Only `apply` touches root partitions and root hashes. -/
theorem work_frame {command : Command Image} (h : command ≠ .apply) :
    ((plan d command).work.foldl exec d).root = d.root ∧
      ((plan d command).work.foldl exec d).verityHash = d.verityHash := by
  cases command with
  | status => exact ⟨rfl, rfl⟩
  | prepare url fetched salt =>
      rw [plan, cmdPrepare.eq_def]
      by_cases hurl : url = ""
      · rw [if_pos hurl]
        exact ⟨rfl, rfl⟩
      · rw [if_neg hurl]
        cases fetched with
        | none => exact ⟨rfl, rfl⟩
        | some package => exact ⟨rfl, rfl⟩
  | apply => exact absurd rfl h
  | switch =>
      rw [plan, cmdSwitch]
      cases d.slotInfo.activeSlot with
      | none => exact ⟨rfl, rfl⟩
      | some active => exact ⟨rfl, rfl⟩
  | commit => exact ⟨rfl, rfl⟩
  | rollback =>
      rw [plan, cmdRollback]
      cases d.slotInfo.activeSlot with
      | none => exact ⟨rfl, rfl⟩
      | some active =>
          by_cases hattempts : d.slotInfo.outOfAttempts = true
          · simp only [if_pos hattempts]
            exact ⟨rfl, rfl⟩
          · simp only [if_neg hattempts]
            exact ⟨rfl, rfl⟩
  | verify => exact ⟨rfl, rfl⟩

/-- Flashing another partition than a root one. -/
theorem foldl_dd {flash : Content Image → Action Image}
    (h : ∀ d c, (exec d (flash c)).root = d.root ∧ (exec d (flash c)).verityHash = d.verityHash)
    (d : Device Image) (image : Option Image) :
    ((image.elim [] (dd flash)).foldl exec d).root = d.root ∧
      ((image.elim [] (dd flash)).foldl exec d).verityHash = d.verityHash := by
  cases image with
  | none => exact ⟨rfl, rfl⟩
  | some image =>
      rcases h d .torn with ⟨hroot, hhash⟩
      rcases h (exec d (flash .torn)) (.flashed image) with ⟨hroot', hhash'⟩
      exact ⟨hroot'.trans hroot, hhash'.trans hhash⟩

theorem foldl_dd_boot (d : Device Image) (slot : Slot) (image : Option Image) :
    ((image.elim [] (dd (.flashBoot slot))).foldl exec d).root = d.root ∧
      ((image.elim [] (dd (.flashBoot slot))).foldl exec d).verityHash = d.verityHash :=
  foldl_dd (fun _ _ => ⟨rfl, rfl⟩) d image

theorem foldl_dd_dtb (d : Device Image) (image : Option Image) :
    ((image.elim [] (dd .flashDtb)).foldl exec d).root = d.root ∧
      ((image.elim [] (dd .flashDtb)).foldl exec d).verityHash = d.verityHash :=
  foldl_dd (fun _ _ => ⟨rfl, rfl⟩) d image

theorem foldl_storeVerity (d₀ d : Device Image) {s : Slot} (hupdate : d.slotInfo.updateSlot = some s) :
    ((storeVerity d).foldl exec d₀).root = d₀.root ∧
      ((storeVerity d).foldl exec d₀).verityHash =
        Function.update d₀.verityHash s (d.updateDir.hash.or (d₀.verityHash s)) := by
  have hself : d₀.verityHash = Function.update d₀.verityHash s (d₀.verityHash s) :=
    (Function.update_eq_self s d₀.verityHash).symm
  -- the hash is stored only next to its tree
  unfold storeVerity UpdateDir.hash
  cases htree : d.updateDir.rootVerity with
  | none => exact ⟨rfl, hself⟩
  | some tree =>
      cases hparams : d.updateDir.verityParams with
      | none => exact ⟨rfl, hself⟩
      | some hash =>
          cases hash with
          | none => exact ⟨rfl, hself⟩
          | some hash =>
              rw [hupdate]
              exact ⟨rfl, rfl⟩

/-- The root partition and the root hash of the standby slot after `apply`. -/
theorem apply_effect {s : Slot} (hactive : d.slotInfo.activeSlot = some s)
    (hupdate : d.slotInfo.updateSlot = some s.other)
    (havailable : d.slotInfo.updateAvailable = some true) {image : Image}
    (hroot : d.updateDir.rootImg = some image) :
    ((plan d .apply).work.foldl exec d).root = Function.update d.root s.other (.flashed image) ∧
      ((plan d .apply).work.foldl exec d).verityHash = Function.update d.verityHash s.other
        (d.updateDir.hash.or (d.verityHash s.other)) := by
  rw [plan_apply hactive havailable, hroot, Option.elim_some, List.foldl_append, List.foldl_append,
    List.foldl_append]
  rcases foldl_dd_boot d s.other d.updateDir.bootImg with ⟨hboot, hhash⟩
  generalize (d.updateDir.bootImg.elim [] (dd (.flashBoot s.other))).foldl exec d = d₁ at hboot hhash
  obtain ⟨hdtb, hdtb'⟩ := foldl_dd_dtb
    ((storeVerity d).foldl exec ((dd (.flashRoot s.other) image).foldl exec d₁)) d.updateDir.dtbImg
  obtain ⟨hstore, hstore'⟩ :=
    foldl_storeVerity ((dd (.flashRoot s.other) image).foldl exec d₁) d hupdate
  rw [hdtb, hdtb', hstore, hstore']
  constructor
  · show Function.update (Function.update d₁.root s.other .torn) s.other (.flashed image) = _
    rw [Function.update_idem, hboot]
  · show Function.update d₁.verityHash s.other
      (d.updateDir.hash.or (d₁.verityHash s.other)) = _
    rw [hhash]

/-- Without a root image `apply` leaves root partitions and root hashes alone. -/
theorem apply_frame {s : Slot} (hactive : d.slotInfo.activeSlot = some s)
    (hroot : d.updateDir.rootImg = none) :
    ((plan d .apply).work.foldl exec d).root = d.root ∧
      ((plan d .apply).work.foldl exec d).verityHash = d.verityHash := by
  by_cases havailable : d.slotInfo.updateAvailable = some true
  · rw [plan_apply hactive havailable, hroot, Option.elim_none, List.append_nil, List.foldl_append]
    rcases foldl_dd_boot d s.other d.updateDir.bootImg with ⟨hboot, hhash⟩
    obtain ⟨hdtb, hhash'⟩ := foldl_dd_dtb
      ((d.updateDir.bootImg.elim [] (dd (.flashBoot s.other))).foldl exec d) d.updateDir.dtbImg
    exact ⟨hdtb.trans hboot, hhash'.trans hhash⟩
  · rw [plan_apply_refused havailable]
    exact ⟨rfl, rfl⟩

/-- `apply` keeps the hashes in agreement exactly if the hash is staged. -/
theorem hashesAgree_apply (h : Tracked d) :
    HashesAgree ((plan d .apply).work.foldl exec d) ↔ HashStaged d := by
  rcases h.slots with ⟨s, hactive, hupdate⟩
  by_cases havailable : d.slotInfo.updateAvailable = some true
  · cases hroot : d.updateDir.rootImg with
    | none =>
        rcases apply_frame hactive hroot with ⟨hsame, hsame'⟩
        refine iff_of_true ?_ ?_
        · unfold HashesAgree
          rw [hsame, hsame']
          exact h.hashes
        · intro _ _ image _ _ himage
          rw [hroot] at himage
          cases himage
    | some image =>
        rcases apply_effect hactive hupdate havailable hroot with ⟨hafter, hafter'⟩
        unfold HashesAgree
        rw [hafter, hafter']
        constructor
        · intro hagree _ t image' hash ht himage' hhash
          rw [hactive, Option.some.injEq] at ht
          rw [hroot, Option.some.injEq] at himage'
          subst ht himage'
          have hflashed := hagree s.other hash (by rw [Function.update_self]; exact hhash)
          rw [Function.update_self] at hflashed
          exact (Content.flashed.inj hflashed).symm
        · intro hstaged t hash hhash
          by_cases ht : t = s.other
          · -- an old hash may be left here, for the new image
            subst ht
            rw [Function.update_self] at hhash ⊢
            rw [hstaged havailable s image hash hactive hroot hhash]
          · rw [Function.update_of_ne ht] at hhash ⊢
            exact h.hashes t hash hhash
  · rw [plan_apply_refused havailable]
    exact iff_of_true h.hashes fun htrue => absurd htrue havailable

/-- A command that ran to its end, and did not switch, leaves the slots as they
are. -/
theorem Tracked.whole (h : Tracked d) {command : Command Image} (hswitch : command ≠ .switch)
    {stop : Nat} (hstop : (plan d command).actions.length ≤ stop)
    (hhashes : HashesAgree ((plan d command).work.foldl exec d)) :
    Tracked (next d (.run command stop)) := by
  rcases h.slots with ⟨s, hactive, hupdate⟩
  have hspared : Spared s d ((plan d command).work.foldl exec d) :=
    foldl_spares (plan_spares hactive command)
  have hnext : next d (.run command stop) = _ := run_whole d (plan d command) hstop
  rw [hnext, hspared.slotInfo]
  cases hinfo : (plan d command).info with
  | none => exact ⟨⟨s, hactive, hupdate⟩, h.quiet, hhashes⟩
  | some info =>
      have hsaves := saves_of_plan hinfo
      rcases hsaves.activeSlot h.quiet hswitch with ⟨hactive', hupdate'⟩
      exact ⟨⟨s, hactive'.trans hactive, hupdate'.trans hupdate⟩, hsaves.quiet h.quiet, hhashes⟩

theorem agrees_next (h : Tracked d) {e : Event Image} (hwhole : Whole e d) :
    (Agrees (next d e) ↔ Matching e d) ∧ (Matching e d → Tracked (next d e)) := by
  cases e with
  | stage dir =>
      have htracked : Tracked (next d (.stage dir)) := ⟨h.slots, h.quiet, h.hashes⟩
      exact ⟨iff_of_true htracked.agrees trivial, fun _ => htracked⟩
  | run command stop =>
      by_cases hswitch : command = .switch
      · -- `update_slot` now names the active slot
        subst hswitch
        rcases h.slots with ⟨s, hactive, hupdate⟩
        have hnext : next d (.run .switch stop) = _ := run_whole d (plan d .switch) hwhole
        refine ⟨iff_of_false ?_ fun hmatching => hmatching.1 rfl, fun hmatching => ?_⟩
        · intro hagrees
          apply hagrees.1
          rw [hnext, plan_switch hactive]
          exact hupdate
        · exact absurd rfl hmatching.1
      · have hnext : next d (.run command stop) = _ := run_whole d (plan d command) hwhole
        have hhashes : HashesAgree ((plan d command).work.foldl exec d) ↔
            (command = .apply → HashStaged d) := by
          by_cases happly : command = .apply
          · subst happly
            rw [hashesAgree_apply h]
            exact ⟨fun hstaged _ => hstaged, fun hstaged => hstaged rfl⟩
          · rcases work_frame (d := d) happly with ⟨hroot, hhash⟩
            refine iff_of_true ?_ fun heq => absurd heq happly
            unfold HashesAgree
            rw [hroot, hhash]
            exact h.hashes
        refine ⟨⟨fun hagrees => ⟨hswitch, hhashes.mp ?_⟩, fun hmatching => ?_⟩, fun hmatching => ?_⟩
        · rw [hnext] at hagrees
          exact hagrees.2
        · exact (h.whole hswitch hwhole (hhashes.mpr hmatching.2)).agrees
        · exact h.whole hswitch hwhole (hhashes.mpr hmatching.2)

/-- The initial `slot_info`, with root hashes that are right if there are any. -/
def Installed (d : Device Image) : Prop := d.slotInfo = initialInfo ∧ HashesAgree d

/-- Commands that all run to their end. -/
def commands : Lts.System (Device Image) (Event Image) := (system Installed).restrict Whole

theorem commands_run (hreach : Lts.Reachable commands d) (command : Command Image) {stop : Nat}
    (hstop : (plan d command).actions.length ≤ stop) :
    Lts.Reachable commands (next d (.run command stop)) :=
  hreach.step (a := Event.run command stop) ⟨hstop, rfl⟩

/-- While nobody switches and every root image comes with its root hash, the
metadata agree with the slots; the first event of another kind ends this. -/
theorem metadata_agree_if_matching (hreach : Lts.Reachable (commands.restrict Matching) d) :
    Agrees d ∧ ∀ e d', commands.Next e d d' → (Agrees d' ↔ Matching e d) := by
  have hinv : Tracked d := by
    refine hreach.invariant (I := Tracked) ?_ ?_
    · rintro d ⟨hinfo, hhashes⟩
      refine ⟨⟨.a, ?_, ?_⟩, ?_, hhashes⟩
      · rw [hinfo]
        rfl
      · rw [hinfo]
        rfl
      · rw [hinfo]
        exact initialInfo_quiet
    · rintro e d d' htracked ⟨hmatching, hwhole, rfl⟩
      exact (agrees_next htracked hwhole).2 hmatching
  refine ⟨hinv.agrees, ?_⟩
  rintro e d' ⟨hwhole, rfl⟩
  exact (agrees_next hinv hwhole).1

theorem firstDevice_installed : Installed firstDevice := ⟨rfl, fun _ _ h => nomatch h⟩

/-- The first update stores the root hash of its image. -/
theorem metadata_agree_after_update :
    updatedDevice.verityHash .b = some ⟨4, 0⟩ ∧ Agrees updatedDevice := by
  have hfirst : Lts.Reachable (commands.restrict Matching) firstDevice :=
    Lts.Reachable.init firstDevice_installed
  have hmatching : Matching (.run (.prepare "update" (some package) 0) 8) firstDevice :=
    ⟨fun h => (nomatch h), fun h => (nomatch h)⟩
  have hwhole : Whole (.run (.prepare "update" (some package) 0) 8) firstDevice := by
    show (plan firstDevice _).actions.length ≤ 8
    decide
  have hprepared : Lts.Reachable (commands.restrict Matching) preparedDevice :=
    hfirst.step ⟨hmatching, hwhole, rfl⟩
  have happly : commands.Next (.run .apply 6) preparedDevice updatedDevice := by
    refine ⟨?_, rfl⟩
    show (plan preparedDevice .apply).actions.length ≤ 6
    decide
  refine ⟨rfl, ((metadata_agree_if_matching hprepared).2 _ _ happly).mpr ⟨fun h => (nomatch h), ?_⟩⟩
  intro _ _ s image hash _ himage hhash
  have himage' : 4 = image := Option.some.inj himage
  have hhash' : ⟨4, 0⟩ = hash := Option.some.inj hhash
  rw [← himage', ← hhash']

/-- The updated device after `switch`. -/
def switchedDevice : Device Nat := next updatedDevice (.run .switch 6)

/-- Another update, flashed to slot `a`. -/
def twiceUpdatedDevice : Device Nat :=
  next (next switchedDevice (.run (.prepare "update" (some ⟨some 5, some 6, none, none, none⟩) 1) 8))
    (.run .apply 6)

/-- After `switch` the active slot is also the update slot, and the next `apply`
stores the root hash of slot `a` as that of slot `b`. -/
theorem metadata_disagree_after_switch :
    Lts.Reachable commands switchedDevice ∧
      switchedDevice.slotInfo.updateSlot = switchedDevice.slotInfo.activeSlot ∧
    Lts.Reachable commands twiceUpdatedDevice ∧
      twiceUpdatedDevice.root .a = .flashed 6 ∧ twiceUpdatedDevice.root .b = .flashed 4 ∧
      twiceUpdatedDevice.verityHash .b = some ⟨6, 1⟩ ∧ ¬ HashesAgree twiceUpdatedDevice := by
  have hfirst : Lts.Reachable commands firstDevice := Lts.Reachable.init firstDevice_installed
  have hprepared : Lts.Reachable commands preparedDevice := commands_run hfirst _ (by decide)
  have hupdated : Lts.Reachable commands updatedDevice := commands_run hprepared _ (by decide)
  have hswitched : Lts.Reachable commands switchedDevice := commands_run hupdated _ (by decide)
  have htwice : Lts.Reachable commands twiceUpdatedDevice :=
    commands_run (commands_run hswitched _ (by decide)) _ (by decide)
  refine ⟨hswitched, rfl, htwice, rfl, rfl, rfl, ?_⟩
  intro hagree
  have hflashed : Content.flashed 4 = Content.flashed 6 := hagree .b ⟨6, 1⟩ rfl
  cases hflashed

/-! ## Only `switch` chooses the active slot -/

/-- Before it saves `slot_info`, a command leaves it alone. -/
theorem work_slotInfo (d : Device Image) (command : Command Image) (n : Nat) :
    (((plan d command).work.take n).foldl exec d).slotInfo = d.slotInfo := by
  cases hactive : d.slotInfo.activeSlot with
  | some s =>
      exact (foldl_spares fun action haction =>
        plan_spares hactive command action (List.mem_of_mem_take haction)).slotInfo
  | none =>
      -- only `prepare` does anything, and that to the staged files
      suffices hspares : ∀ action ∈ (plan d command).work, action.Spares .a from
        (foldl_spares fun action haction => hspares action (List.mem_of_mem_take haction)).slotInfo
      intro action haction
      cases command with
      | prepare url fetched salt =>
          rw [plan, cmdPrepare.eq_def] at haction
          grind [Plan.nothing, Action.Spares]
      | apply =>
          rw [plan, cmdApply, hactive, ite_self] at haction
          exact absurd haction List.not_mem_nil
      | switch =>
          rw [plan, cmdSwitch, hactive] at haction
          exact absurd haction List.not_mem_nil
      | rollback =>
          rw [plan, cmdRollback, hactive] at haction
          exact absurd haction List.not_mem_nil
      | status | commit | verify => exact absurd haction List.not_mem_nil

/-- The event leaves `slot_info` empty: it stops right after the file is truncated. -/
def Truncates : Event Image → Device Image → Prop
  | .stage _, _ => False
  | .run command stop, d =>
      (plan d command).info.isSome ∧ stop = (plan d command).work.length + 1

/-- A `switch` that gets to write the first line. -/
def Event.switches : Event Image → Bool
  | .run .switch stop => 1 < stop
  | _ => false

/-- What one event can do to `slot_info`. -/
theorem slotInfo_next (d : Device Image) (e : Event Image) :
    ((next d e).slotInfo = d.slotInfo ∧ ¬ Truncates e d ∧
      (d.slotInfo.activeSlot ≠ none → e.switches = false)) ∨
    ∃ command n info, e = .run command ((plan d command).work.length + (n + 1)) ∧
      (plan d command).info = some info ∧ (next d e).slotInfo = info.firstLines n := by
  cases e with
  | stage dir => exact Or.inl ⟨rfl, id, fun _ => rfl⟩
  | run command stop =>
      rcases run_cases d (plan d command) stop with ⟨hcut, hrun⟩ | ⟨info, n, hinfo, rfl, hrun⟩
      · refine Or.inl ⟨?_, ?_, fun hactive => ?_⟩
        · show (((plan d command).actions.take stop).foldl exec d).slotInfo = _
          rw [hrun, work_slotInfo]
        · rintro ⟨hsome, rfl⟩
          rcases hcut with hnone | hle
          · rw [hnone] at hsome
            cases hsome
          · omega
        · cases command with
          | switch =>
              obtain ⟨s, hs⟩ := Option.ne_none_iff_exists'.mp hactive
              rw [plan_switch hs] at hcut
              have hstop : stop ≤ 0 := hcut.resolve_left (Option.some_ne_none _)
              exact decide_eq_false (by omega)
          | status | prepare | apply | commit | rollback | verify => rfl
      · exact Or.inr ⟨command, n, info, rfl, hinfo, congrArg Device.slotInfo hrun⟩

theorem quiet_next (hquiet : d.slotInfo.Quiet) (e : Event Image) : (next d e).slotInfo.Quiet := by
  rcases slotInfo_next d e with ⟨hsame, -, -⟩ | ⟨command, n, info, rfl, hinfo, hsaved⟩
  · rw [hsame]
    exact hquiet
  · rw [hsaved]
    exact ((saves_of_plan hinfo).quiet hquiet).firstLines n

/-- No command finds its way back from a `slot_info` without an active slot. -/
theorem activeSlot_next_none (hnone : d.slotInfo.activeSlot = none) (e : Event Image) :
    (next d e).slotInfo.activeSlot = none := by
  rcases slotInfo_next d e with ⟨hsame, -, -⟩ | ⟨command, n, info, rfl, hinfo, hsaved⟩
  · rw [hsame, hnone]
  · have hinfo' : info.activeSlot = none := by
      cases saves_of_plan hinfo with
      | prepare | commit => exact hnone
      | switch hactive | rollback hactive => cases hnone.symm.trans hactive
    rw [hsaved, SlotInfo.firstLines, hinfo', ite_self]

theorem activeSlot_next {s : Slot} (hactive : d.slotInfo.activeSlot = some s)
    (hquiet : d.slotInfo.Quiet) (e : Event Image) :
    (Truncates e d ∧ (next d e).slotInfo.activeSlot = none) ∨
    (¬ Truncates e d ∧
      (next d e).slotInfo.activeSlot = some (bif e.switches then s.other else s)) := by
  rcases slotInfo_next d e with ⟨hsame, hwhole, hswitches⟩ | ⟨command, n, info, rfl, hinfo, hsaved⟩
  · right
    rw [hsame, hactive, hswitches (hactive ▸ Option.some_ne_none s)]
    exact ⟨hwhole, rfl⟩
  · cases n with
    | zero => exact Or.inl ⟨⟨hinfo ▸ rfl, rfl⟩, hsaved ▸ rfl⟩
    | succ n =>
        refine Or.inr ⟨fun htruncates => absurd htruncates.2 (by omega), ?_⟩
        rw [hsaved, SlotInfo.firstLines, if_pos n.succ_pos]
        cases saves_of_plan hinfo with
        | prepare | commit => exact hactive
        | switch hactive' =>
            have hlong : decide (1 < (plan d .switch).work.length + (n + 1 + 1)) = true :=
              decide_eq_true (by omega)
            rw [Event.switches, hlong, cond_true, ← Option.some.inj (hactive'.symm.trans hactive)]
            rfl
        | rollback _ hattempts => cases hquiet.outOfAttempts.symm.trans hattempts

/-- The active slot after `n` switches from slot `a`. -/
def slotAfter (n : Nat) : Slot := if n % 2 = 0 then .a else .b

theorem slotAfter_succ (n : Nat) : slotAfter (n + 1) = (slotAfter n).other := by
  unfold slotAfter
  rcases Nat.mod_two_eq_zero_or_one n with heven | hodd
  · rw [if_pos heven, if_neg (by omega)]
    rfl
  · rw [if_pos (by omega), if_neg (by omega)]
    rfl

section Runs

variable {Init : Device Image → Prop} {d₀ : Device Image} {es : List (Event Image)}

theorem quiet_run (hinitial : d₀.slotInfo = initialInfo) (hrun : Lts.Run (system Init) d₀ es d) :
    d.slotInfo.Quiet := by
  refine hrun.invariant (I := fun d => d.slotInfo.Quiet) ?_ ?_
  · rintro e d d' hquiet rfl
    exact quiet_next hquiet e
  · rw [hinitial]
    exact initialInfo_quiet

theorem activeSlot_run (hinitial : d₀.slotInfo = initialInfo)
    (hrun : Lts.Run (system Init) d₀ es d) :
    d.slotInfo.activeSlot = none ∨
      d.slotInfo.activeSlot = some (slotAfter (es.countP Event.switches)) := by
  induction hrun with
  | nil =>
      right
      rw [hinitial]
      rfl
  | @snoc es e d d' hrun hnext ih =>
      obtain rfl : d' = next d e := hnext
      rcases ih with hnone | hactive
      · exact Or.inl (activeSlot_next_none hnone e)
      · rcases activeSlot_next hactive (quiet_run hinitial hrun) e with ⟨-, hnone⟩ | ⟨-, hsome⟩
        · exact Or.inl hnone
        · right
          rw [hsome, List.countP_append, List.countP_singleton]
          cases e.switches with
          | false => rfl
          | true => exact congrArg some (slotAfter_succ _).symm

/-- From the initial `slot_info`, the active slot is the one that the number of
`switch` commands gives, until a command leaves the file empty; no command repairs
that. `rollback` never does anything, since nothing counts the boots. -/
theorem active_slot_by_switches (hinitial : d₀.slotInfo = initialInfo)
    (hrun : Lts.Run (system Init) d₀ es d) :
    (d.slotInfo.activeSlot = none ∨
      d.slotInfo.activeSlot = some (slotAfter (es.countP Event.switches))) ∧
    (∀ e, (next d e).slotInfo.activeSlot = none ↔
      d.slotInfo.activeSlot = none ∨ Truncates e d) ∧
    ∀ stop, next d (.run .rollback stop) = d := by
  have hquiet : d.slotInfo.Quiet := quiet_run hinitial hrun
  refine ⟨activeSlot_run hinitial hrun, fun e => ?_, fun stop => ?_⟩
  · cases hactive : d.slotInfo.activeSlot with
    | none => exact iff_of_true (activeSlot_next_none hactive e) (Or.inl rfl)
    | some s =>
        rcases activeSlot_next hactive hquiet e with ⟨htruncates, hnone⟩ | ⟨hwhole, hsome⟩
        · exact iff_of_true hnone (Or.inr htruncates)
        · rw [hsome]
          exact iff_of_false (Option.some_ne_none _) (by simp [hwhole])
  · have hplan : plan d .rollback = Plan.nothing := by
      rw [plan, cmdRollback, hquiet.outOfAttempts]
      cases d.slotInfo.activeSlot with
      | none | some s => rfl
    rw [next, hplan]
    exact congrArg (List.foldl exec d) List.take_nil

end Runs

/-- One `switch` activates slot `b`, and `rollback` does not take it back. -/
theorem active_slot_by_switches_once :
    (next firstDevice (.run .switch 6)).slotInfo.activeSlot = some .b ∧
    ∀ stop, next (next firstDevice (.run .switch 6)) (.run .rollback stop) =
      next firstDevice (.run .switch 6) := by
  have hnext : (system FirstBoot).Next (.run .switch 6) firstDevice
      (next firstDevice (.run .switch 6)) := rfl
  exact ⟨rfl, (active_slot_by_switches rfl (Lts.Run.single hnext)).2.2⟩

end OmniOS.Ota
