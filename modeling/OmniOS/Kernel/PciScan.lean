import Mathlib.Data.Fintype.Card
import Mathlib.Data.Fintype.Prod
import Mathlib.Data.List.Nodup
import OmniOS.Kernel.Pci

/-!
# OmniOS.Kernel.PciScan — which functions `pci_init` lists

A scan of a bus appends a record for each function of `busPlaces`, as long as the table has room
(`pciScanBus_places`). It writes command registers only, so a second scan finds the same
functions again; `pci_init` makes one if there is a function 00:00.0 with the multi-function bit
(`pciInit_scanned`).
-/

namespace OmniOS.Pci

/-! ## What is there -/

section Places

variable (config : Location → Registers)

/-- An id of all ones is that of no function. -/
def present (l : Location) : Bool := config l 0 != 0xFFFFFFFF

variable {config} in
theorem present_eq_false {l : Location} (h : config l 0 = 0xFFFFFFFF) :
    present config l = false := by
  rw [present, h]
  rfl

variable {config} in
theorem present_eq_true {l : Location} (h : config l 0 ≠ 0xFFFFFFFF) :
    present config l = true :=
  bne_iff_ne.mpr h

/-- `hdr_type` of the slot. -/
def headerType (bus : UInt8) (slot : Fin 32) : UInt8 := (config ⟨bus, slot, 0⟩ 3 >>> 16).toUInt8

/-- The multi-function bit of function 0. -/
def multiFunction (bus : UInt8) (slot : Fin 32) : Bool := headerType config bus slot &&& 0x80 != 0

/-- The functions that the table has to list: those numbered 0, and the others of a device that
says it has several. -/
structure Expected (l : Location) : Prop where
  bus : l.bus = 0
  present : present config l = true
  multi : l.func = 0 ∨
    Pci.present config ⟨0, l.slot, 0⟩ = true ∧ multiFunction config 0 l.slot = true

/-- One record for each of them, and no other. -/
structure EachOnce (devices : List Device) : Prop where
  nodup : (devices.map Device.place).Nodup
  mem : ∀ l, l ∈ devices.map Device.place ↔ Expected config l

/-- The functions that the scan finds in a slot. -/
def slotPlaces (bus : UInt8) (slot : Fin 32) : List Location :=
  if present config ⟨bus, slot, 0⟩ then
    ((functionsOf (headerType config bus slot)).map (Location.mk bus slot)).filter (present config)
  else []

/-- Those of a bus, in the order of the scan. -/
def busPlaces (bus : UInt8) : List Location :=
  (List.finRange 32).flatMap (slotPlaces config bus)

end Places

/-! ## One scan -/

/-- The registers are the same, command registers apart. -/
def SameIds (config config' : Location → Registers) : Prop :=
  ∀ l r, r ≠ 1 → config' l r = config l r

theorem SameIds.refl (config : Location → Registers) : SameIds config config := fun _ _ _ => rfl

section Scan

variable {latch : Latch} {config : Location → Registers} {bus : UInt8} {slot : Fin 32} {s : State}

theorem SameIds.read (h : SameIds config s.machine.config) (l : Location) :
    (s.read l 0).1 = config l 0 ∧ (s.read l PCI_HEADER_TYPE).1 = config l 3 := by
  have hdwords : dwordOf 0 = 0 ∧ dwordOf PCI_HEADER_TYPE = 3 := by decide
  simp only [State.read, pciReadConfig_eq, hdwords]
  exact ⟨h l 0 (by decide), h l 3 (by decide)⟩

theorem SameIds.barsOf_eq {config' : Location → Registers} (h : SameIds config config')
    (l : Location) : barsOf (config' l) = barsOf (config l) := by
  have hbar : ∀ i ≤ 6, barRegister (config' l) i = barRegister (config l) i := by
    intro i hi
    refine h l _ fun heq => ?_
    have hval : (4 + i) % 64 = 1 := congrArg Fin.val heq
    omega
  refine List.map_congr_left fun b hb => ?_
  have hlt := List.mem_range.mp hb
  rw [hbar b (by omega), hbar (b + 1) (by omega)]

/-- A read writes the address port only. -/
theorem SameIds.after_read (h : SameIds config s.machine.config) (l : Location) (offset : UInt8) :
    ∃ s', (s.read l offset).2 = s' ∧ s'.devices = s.devices ∧
      SameIds config s'.machine.config := by
  simp only [State.read, pciReadConfig_eq]
  exact ⟨_, rfl, rfl, h⟩

/-- What a part of the scan makes of a table that finds the functions `ps`. -/
structure Scanned (config : Location → Registers) (before : List Device) (ps : List Location)
    (s' : State) : Prop where
  places : s'.devices.map Device.place =
    before.map Device.place ++ ps.take (PCI_MAX_DEVICES - before.length)
  bars : ∀ dev ∈ s'.devices, dev ∈ before ∨ dev.bars = barsOf (config dev.place)
  same : SameIds config s'.machine.config

/-- A function gets a record of its own. -/
theorem SameIds.record (h : SameIds config s.machine.config) (latch : Latch) (l : Location)
    (id2 : UInt32) :
    ∃ dev m, readDevice latch l id2 s.machine = (dev, m) ∧ dev.place = l ∧
      dev.bars = barsOf (config dev.place) ∧ SameIds config m.config := by
  obtain ⟨hdev, hwrite⟩ := readDevice_eq latch l s.machine id2
  obtain ⟨⟨dev, m⟩, hread⟩ : ∃ r : Device × Machine, readDevice latch l id2 s.machine = r :=
    ⟨_, rfl⟩
  rw [hread] at hdev hwrite
  dsimp only at hdev
  have hplace : dev.place = l := by rw [hdev, deviceOf]
  refine ⟨dev, m, hread, hplace, ?_, fun l r hr => (hwrite l r hr).trans (h l r hr)⟩
  rw [hplace, hdev, deviceOf, h.barsOf_eq]

/-- The record comes in front of those that the rest of the scan adds. -/
theorem Scanned.cons {before : List Device} {dev : Device} {ps : List Location} {s' : State}
    (h : Scanned config (before ++ [dev]) ps s') (hroom : before.length < PCI_MAX_DEVICES)
    (hbars : dev.bars = barsOf (config dev.place)) :
    Scanned config before (dev.place :: ps) s' := by
  have hsucc : PCI_MAX_DEVICES - before.length = PCI_MAX_DEVICES - (before.length + 1) + 1 := by
    omega
  refine ⟨?_, fun dev' hdev' => ?_, h.same⟩
  · rw [h.places, hsucc, List.take_succ_cons, List.map_append, List.append_assoc,
      List.length_append]
    rfl
  · rcases h.bars dev' hdev' with hmem | hnew
    · rcases List.mem_append.mp hmem with hmem | hmem
      · exact Or.inl hmem
      · rw [List.mem_singleton.mp hmem]
        exact Or.inr hbars
    · exact Or.inr hnew

theorem scanFunctions_eq (funcs : List (Fin 8)) (h : SameIds config s.machine.config)
    (hroom : s.devices.length ≤ PCI_MAX_DEVICES) :
    Scanned config s.devices ((funcs.map (Location.mk bus slot)).filter (present config))
        (scanFunctions latch bus slot funcs s).2 ∧
      ((scanFunctions latch bus slot funcs s).1 = true ↔ PCI_MAX_DEVICES - s.devices.length <
        ((funcs.map (Location.mk bus slot)).filter (present config)).length) := by
  induction funcs generalizing s with
  | nil => exact ⟨⟨by simp [scanFunctions], fun _ => Or.inl, h⟩, by simp [scanFunctions]⟩
  | cons func funcs ih =>
      obtain ⟨s₁, hs₁, hdevices, h₁⟩ := h.after_read ⟨bus, slot, func⟩ 0
      simp only [scanFunctions, (h.read _).1, hs₁, List.map_cons, List.filter_cons]
      rw [← hdevices] at hroom ⊢
      by_cases habsent : config ⟨bus, slot, func⟩ 0 = 0xFFFFFFFF
      · rw [if_pos habsent, present_eq_false habsent, if_neg Bool.false_ne_true]
        exact ih h₁ hroom
      · rw [if_neg habsent, present_eq_true habsent, if_pos rfl]
        by_cases hfull : PCI_MAX_DEVICES ≤ s₁.devices.length
        · -- the scan returns here
          have hnone : PCI_MAX_DEVICES - s₁.devices.length = 0 := by omega
          rw [if_pos hfull, hnone]
          exact ⟨⟨by rw [hnone, List.take_zero, List.append_nil], fun _ => Or.inl, h₁⟩, by simp⟩
        · obtain ⟨dev, m, hread, hplace, hbars, h₂⟩ := h₁.record latch ⟨bus, slot, func⟩
            (config ⟨bus, slot, func⟩ 0)
          have hlength : (s₁.devices ++ [dev]).length = s₁.devices.length + 1 := by simp
          obtain ⟨hscan, hflag⟩ := ih (s := ⟨m, s₁.devices ++ [dev]⟩) h₂
            (by simp only [hlength]; omega)
          have hcons := hscan.cons (by omega) hbars
          simp only [hlength] at hflag
          rw [hplace] at hcons
          rw [if_neg hfull, hread, List.length_cons]
          refine ⟨hcons, hflag.trans ?_⟩
          omega

theorem Scanned.length_eq {before : List Device} {ps : List Location} {s' : State}
    (h : Scanned config before ps s') :
    s'.devices.length = before.length + min (PCI_MAX_DEVICES - before.length) ps.length := by
  have hlength := congrArg List.length h.places
  rwa [List.length_append, List.length_map, List.length_map, List.length_take] at hlength

/-- A table that is full stays as it is. -/
theorem Scanned.append_of_full {before : List Device} {ps qs : List Location} {s' : State}
    (h : Scanned config before ps s') (hfull : PCI_MAX_DEVICES - before.length < ps.length) :
    Scanned config before (ps ++ qs) s' := by
  refine ⟨?_, h.bars, h.same⟩
  rw [h.places, List.take_append_of_le_length (by omega)]

theorem Scanned.append {before : List Device} {ps qs : List Location} {s' s'' : State}
    (h : Scanned config before ps s') (hroom : ps.length ≤ PCI_MAX_DEVICES - before.length)
    (h' : Scanned config s'.devices qs s'') : Scanned config before (ps ++ qs) s'' := by
  refine ⟨?_, fun dev hdev => (h'.bars dev hdev).elim (h.bars dev) Or.inr, h'.same⟩
  have hlength := h.length_eq
  rw [Nat.min_eq_right hroom] at hlength
  rw [h'.places, h.places, hlength, List.take_append, List.append_assoc, Nat.sub_sub]

theorem Scanned.after_read {before : List Device} {ps : List Location} {s' : State}
    (h : Scanned config before ps s') (l : Location) (offset : UInt8) :
    ∃ s'', (s'.read l offset).2 = s'' ∧ Scanned config before ps s'' := by
  obtain ⟨s'', hs'', hdevices, hsame⟩ := h.same.after_read l offset
  refine ⟨s'', hs'', ?_, ?_, hsame⟩
  · rw [hdevices]
    exact h.places
  · rw [hdevices]
    exact h.bars

theorem scanSlots_eq (slots : List (Fin 32)) (h : SameIds config s.machine.config)
    (hroom : s.devices.length ≤ PCI_MAX_DEVICES) :
    Scanned config s.devices (slots.flatMap (slotPlaces config bus))
      (scanSlots latch bus slots s) := by
  induction slots generalizing s with
  | nil => exact ⟨by simp [scanSlots], fun _ => Or.inl, h⟩
  | cons slot slots ih =>
      obtain ⟨s₁, hs₁, hdevices, h₁⟩ := h.after_read ⟨bus, slot, 0⟩ 0
      simp only [scanSlots, (h.read _).1, hs₁, List.flatMap_cons]
      rw [← hdevices] at hroom ⊢
      by_cases habsent : config ⟨bus, slot, 0⟩ 0 = 0xFFFFFFFF
      · rw [if_pos habsent, slotPlaces, present_eq_false habsent, if_neg Bool.false_ne_true, List.nil_append]
        exact ih h₁ hroom
      · have hthere := present_eq_true habsent
        obtain ⟨s₂, hs₂, hdevices₂, h₂⟩ := h₁.after_read ⟨bus, slot, 0⟩ PCI_HEADER_TYPE
        rw [if_neg habsent, (h₁.read _).2, hs₂]
        rw [← hdevices₂] at hroom ⊢
        obtain ⟨hscan, hflag⟩ := @scanFunctions_eq latch config bus slot s₂
          (functionsOf (headerType config bus slot)) h₂ hroom
        have hplaces : slotPlaces config bus slot = ((functionsOf (headerType config bus slot)).map
            (Location.mk bus slot)).filter (present config) := by
          rw [slotPlaces, hthere, if_pos rfl]
        rw [← hplaces] at hscan hflag
        rw [show (config ⟨bus, slot, 0⟩ 3 >>> 16).toUInt8 = headerType config bus slot from rfl]
        obtain ⟨⟨full, s₃⟩, hs₃⟩ : ∃ r, scanFunctions latch bus slot
            (functionsOf (headerType config bus slot)) s₂ = r := ⟨_, rfl⟩
        rw [hs₃] at hscan hflag ⊢
        dsimp only at hscan hflag
        have hlength := hscan.length_eq
        cases full with
        | true => exact hscan.append_of_full (hflag.mp rfl)
        | false =>
            have hfits : (slotPlaces config bus slot).length ≤
                PCI_MAX_DEVICES - s₂.devices.length := by
              by_contra hnot
              exact Bool.false_ne_true (hflag.mpr (by omega))
            exact hscan.append hfits (ih hscan.same (by omega))

/-- A scan adds the functions of the bus that there is room for. -/
theorem pciScanBus_places (h : SameIds config s.machine.config)
    (hroom : s.devices.length ≤ PCI_MAX_DEVICES) :
    Scanned config s.devices (busPlaces config bus) (pciScanBus latch bus s) :=
  scanSlots_eq (List.finRange 32) h hroom

end Scan

/-! ## The functions of a bus -/

section Bus

variable {config : Location → Registers} {bus : UInt8} {slot : Fin 32} {l : Location}

theorem mem_functionsOf_iff {func : Fin 8} :
    func ∈ functionsOf (headerType config bus slot) ↔
      func = 0 ∨ multiFunction config bus slot = true := by
  by_cases hmulti : headerType config bus slot &&& 0x80 = 0
  · simp [functionsOf, multiFunction, hmulti]
  · simp [functionsOf, multiFunction, hmulti]

theorem mem_slotPlaces_iff : l ∈ slotPlaces config bus slot ↔
    l.bus = bus ∧ l.slot = slot ∧ present config l = true ∧
      (l.func = 0 ∨ present config ⟨bus, slot, 0⟩ = true ∧
        multiFunction config bus slot = true) := by
  obtain ⟨bus', slot', func⟩ := l
  rw [slotPlaces]
  by_cases hthere : present config ⟨bus, slot, 0⟩ = true
  · rw [if_pos hthere]
    simp only [List.mem_filter, List.mem_map, mem_functionsOf_iff, Location.mk.injEq, hthere,
      true_and]
    constructor
    · rintro ⟨⟨_, hfunc, rfl, rfl, rfl⟩, hpresent⟩
      exact ⟨rfl, rfl, hpresent, hfunc⟩
    · rintro ⟨rfl, rfl, hpresent, hfunc⟩
      exact ⟨⟨func, hfunc, rfl, rfl, rfl⟩, hpresent⟩
  · rw [if_neg hthere]
    simp only [List.not_mem_nil, hthere, Bool.false_eq_true, false_and, or_false, false_iff]
    rintro ⟨rfl, rfl, hpresent, rfl⟩
    exact hthere hpresent

theorem mem_busPlaces_iff : l ∈ busPlaces config 0 ↔ Expected config l := by
  rw [busPlaces, List.mem_flatMap]
  constructor
  · rintro ⟨slot, _, hl⟩
    obtain ⟨hbus, rfl, hpresent, hfunc⟩ := mem_slotPlaces_iff.mp hl
    exact ⟨hbus, hpresent, hfunc⟩
  · intro h
    exact ⟨l.slot, List.mem_finRange _, mem_slotPlaces_iff.mpr ⟨h.bus, rfl, h.present, h.multi⟩⟩

theorem slotPlaces_nodup : (slotPlaces config bus slot).Nodup := by
  rw [slotPlaces]
  split
  · refine List.Nodup.filter _ (List.Nodup.map (fun _ _ h => (Location.mk.inj h).2.2) ?_)
    rw [functionsOf]
    split
    · exact List.nodup_finRange 8
    · exact List.nodup_singleton 0
  · exact List.nodup_nil

theorem busPlaces_nodup : (busPlaces config bus).Nodup := by
  refine List.nodup_flatMap.mpr ⟨fun slot _ => slotPlaces_nodup, ?_⟩
  refine List.Pairwise.imp ?_ (List.nodup_finRange 32)
  intro slot slot' hne l hl hl'
  exact hne ((mem_slotPlaces_iff.mp hl).2.1.symm.trans (mem_slotPlaces_iff.mp hl').2.1)

/-- The slots and functions of the bus fill the table exactly. -/
theorem card_places : Fintype.card (Fin 32 × Fin 8) = PCI_MAX_DEVICES := by
  rw [Fintype.card_prod, Fintype.card_fin, Fintype.card_fin]
  rfl

theorem busPlaces_pairs_nodup :
    ((busPlaces config 0).map fun l => (l.slot, l.func)).Nodup := by
  refine List.Nodup.map_on ?_ busPlaces_nodup
  rintro ⟨bus, slot, func⟩ hl ⟨bus', slot', func'⟩ hl' heq
  obtain ⟨rfl, rfl⟩ := Prod.mk.inj heq
  have hbus : bus = 0 := (mem_busPlaces_iff.mp hl).bus
  have hbus' : bus' = 0 := (mem_busPlaces_iff.mp hl').bus
  rw [hbus, hbus']

theorem busPlaces_length_le : (busPlaces config 0).length ≤ PCI_MAX_DEVICES := by
  have hle := (@busPlaces_pairs_nodup config).length_le_card
  rwa [List.length_map, card_places] at hle

/-- A bus fills the table if every function of every slot is there. -/
theorem busPlaces_length_eq_iff : (busPlaces config 0).length = PCI_MAX_DEVICES ↔
    ∀ slot func, present config ⟨0, slot, func⟩ = true ∧ multiFunction config 0 slot = true := by
  have hcard := List.toFinset_card_of_nodup (@busPlaces_pairs_nodup config)
  rw [List.length_map] at hcard
  rw [← hcard, ← card_places, Finset.card_eq_iff_eq_univ, Finset.eq_univ_iff_forall]
  simp only [List.mem_toFinset, List.mem_map, Prod.forall]
  constructor
  · intro hall slot func
    have hexpected : ∀ func, Expected config ⟨0, slot, func⟩ := by
      intro func
      obtain ⟨l, hl, heq⟩ := hall slot func
      obtain ⟨rfl, rfl⟩ := Prod.mk.inj heq
      have hexp := mem_busPlaces_iff.mp hl
      rw [← hexp.bus]
      exact hexp
    -- function 1 is not numbered 0
    have hone : ¬ (1 : Fin 8) = 0 := by decide
    exact ⟨(hexpected func).present, ((hexpected 1).multi.resolve_left hone).2⟩
  · intro hall slot func
    exact ⟨⟨0, slot, func⟩, mem_busPlaces_iff.mpr ⟨rfl, (hall slot func).1,
      Or.inr ⟨(hall slot 0).1, (hall slot 0).2⟩⟩, rfl⟩

end Bus

/-! ## The table after `pci_init` -/

section Init

variable (latch : Latch) (s : State)

theorem bridge_bit_iff (x : UInt32) : x &&& 0x80 = 0 ↔ x.toUInt8 &&& 0x80 = 0 := by
  have hlow : (x &&& 0x80).toUInt8 = x.toUInt8 &&& 0x80 := UInt32.toUInt8_and x 0x80
  have hle : (x &&& 0x80).toNat ≤ 0x80 := by
    rw [UInt32.toNat_and]
    exact Nat.and_le_right
  rw [← hlow, ← UInt32.toNat_inj, ← UInt8.toNat_inj, UInt32.toNat_toUInt8]
  have hzero : (0 : UInt32).toNat = 0 ∧ (0 : UInt8).toNat = 0 := by decide
  rw [hzero.1, hzero.2]
  omega

/-- The table lists the functions of the bus, and the same ones again behind them if `pci_init`
finds a host bridge with several functions. -/
theorem pciInit_scanned : Scanned s.machine.config [] (busPlaces s.machine.config 0 ++
    if present s.machine.config ⟨0, 0, 0⟩ && multiFunction s.machine.config 0 0 then
      busPlaces s.machine.config 0 else []) (pciInit latch s) := by
  obtain ⟨config, hconfig⟩ : ∃ config, s.machine.config = config := ⟨_, rfl⟩
  rw [hconfig]
  have h₁ := @pciScanBus_places latch s.machine.config 0 { s with devices := [] }
    (SameIds.refl _) (Nat.zero_le _)
  rw [hconfig] at h₁
  unfold pciInit
  dsimp only at h₁ ⊢
  obtain ⟨s₁, hs₁⟩ : ∃ s₁, pciScanBus latch 0 { s with devices := [] } = s₁ := ⟨_, rfl⟩
  rw [hs₁] at h₁ ⊢
  obtain ⟨s₂, hs₂, h₂⟩ := h₁.after_read ⟨0, 0, 0⟩ PCI_HEADER_TYPE
  obtain ⟨s₃, hs₃, h₃⟩ := h₂.after_read ⟨0, 0, 0⟩ 0
  rw [hs₂, (h₁.same.read _).2, hs₃, (h₂.same.read _).1]
  by_cases hbit : config ⟨0, 0, 0⟩ 3 >>> 16 &&& 0x80 = 0
  · have hnot : multiFunction config 0 0 = false := by
      simp [multiFunction, headerType, (bridge_bit_iff _).mp hbit]
    rw [if_neg (not_not.mpr hbit), hnot, Bool.and_false, if_neg Bool.false_ne_true,
      List.append_nil]
    exact h₂
  · have hmulti : multiFunction config 0 0 = true := by
      simp [multiFunction, headerType, mt (bridge_bit_iff _).mpr hbit]
    rw [if_pos hbit, hmulti, Bool.and_true]
    by_cases hid : config ⟨0, 0, 0⟩ 0 = 0xFFFFFFFF
    · rw [if_neg (not_not.mpr hid), present_eq_false hid, if_neg Bool.false_ne_true, List.append_nil]
      exact h₃
    · have hlength := h₃.length_eq
      have hle := @busPlaces_length_le config
      rw [List.length_nil] at hlength
      rw [if_pos hid, present_eq_true hid, if_pos rfl]
      exact h₃.append hle (pciScanBus_places h₃.same (by omega))

theorem pciInit_places : (pciInit latch s).devices.map Device.place =
    busPlaces s.machine.config 0 ++
      (if present s.machine.config ⟨0, 0, 0⟩ && multiFunction s.machine.config 0 0 then
        busPlaces s.machine.config 0 else []).take
          (PCI_MAX_DEVICES - (busPlaces s.machine.config 0).length) := by
  rw [(pciInit_scanned latch s).places, List.map_nil, List.nil_append, List.length_nil,
    Nat.sub_zero, List.take_append, List.take_of_length_le busPlaces_length_le]

/-- `pci_init` lists each function once unless the first slot has a host bridge with several
functions, which it takes for a reason to scan bus 0 again; then the second scan adds nothing only
if the first one has filled the table. -/
theorem pci_init_lists_iff : EachOnce s.machine.config (pciInit latch s).devices ↔
    ¬ (present s.machine.config ⟨0, 0, 0⟩ = true ∧ multiFunction s.machine.config 0 0 = true) ∨
      ∀ slot func, present s.machine.config ⟨0, slot, func⟩ = true ∧
        multiFunction s.machine.config 0 slot = true := by
  have hplaces := pciInit_places latch s
  obtain ⟨config, hconfig⟩ : ∃ config, s.machine.config = config := ⟨_, rfl⟩
  rw [hconfig] at hplaces ⊢
  rw [← busPlaces_length_eq_iff]
  constructor
  · intro honce
    by_contra hnot
    obtain ⟨hbridge, hlength⟩ := not_or.mp hnot
    obtain ⟨hthere, hmulti⟩ := not_not.mp hbridge
    have hroom : PCI_MAX_DEVICES - (busPlaces config 0).length ≠ 0 := by
      have hle := @busPlaces_length_le config
      omega
    have hmem : (⟨0, 0, 0⟩ : Location) ∈ busPlaces config 0 :=
      mem_busPlaces_iff.mpr ⟨rfl, hthere, Or.inl rfl⟩
    have hnodup := honce.nodup
    rw [hplaces, hthere, hmulti, Bool.and_self, if_pos rfl] at hnodup
    -- the second scan starts with the functions of the first one
    obtain ⟨l, rest, heq⟩ := List.exists_cons_of_ne_nil (List.ne_nil_of_mem hmem)
    obtain ⟨k, hk⟩ := Nat.exists_eq_succ_of_ne_zero hroom
    rw [hk, heq, List.take_succ_cons] at hnodup
    exact (List.nodup_append.mp hnodup).2.2 l List.mem_cons_self l List.mem_cons_self rfl
  · intro hcond
    have honce : (pciInit latch s).devices.map Device.place = busPlaces config 0 := by
      rw [hplaces]
      rcases hcond with hbridge | hlength
      · rw [if_neg (by rwa [Bool.and_eq_true]), List.take_nil, List.append_nil]
      · rw [hlength, Nat.sub_self, List.take_zero, List.append_nil]
    refine ⟨?_, fun l => ?_⟩
    · rw [honce]
      exact busPlaces_nodup
    · rw [honce]
      exact mem_busPlaces_iff

/-- A bus with one function, at 00:00.0, and nothing else. -/
def alone (c : Registers) : State where
  machine := { address := 0, config := fun l => if l = ⟨0, 0, 0⟩ then c else fun _ => 0xFFFFFFFF }
  devices := []

theorem busPlaces_alone {c : Registers} (hc : c 0 ≠ 0xFFFFFFFF) :
    busPlaces (alone c).machine.config 0 = [⟨0, 0, 0⟩] := by
  refine List.perm_singleton.mp ((List.perm_ext_iff_of_nodup busPlaces_nodup
    (List.nodup_singleton _)).mpr fun l => ?_)
  rw [mem_busPlaces_iff, List.mem_singleton]
  constructor
  · intro h
    by_contra hne
    have hpresent := h.present
    simp [present, alone, hne] at hpresent
  · rintro rfl
    exact ⟨rfl, by simp [present, alone, hc], Or.inl rfl⟩

/-- A host bridge that sets the multi-function bit. -/
def hostBridge : Registers := fun r => if r = 3 then 0x00800000 else 0x12378086

theorem pci_init_lists_twice :
    (pciInit (fun _ _ _ value => value) (alone hostBridge)).devices.map Device.place =
        [⟨0, 0, 0⟩, ⟨0, 0, 0⟩] ∧
      ¬ EachOnce (alone hostBridge).machine.config
        (pciInit (fun _ _ _ value => value) (alone hostBridge)).devices := by
  have hplaces : (pciInit (fun _ _ _ value => value) (alone hostBridge)).devices.map
      Device.place = [⟨0, 0, 0⟩, ⟨0, 0, 0⟩] := by
    rw [pciInit_places, busPlaces_alone (by decide)]
    decide
  refine ⟨hplaces, fun honce => ?_⟩
  have hnodup := honce.nodup
  rw [hplaces] at hnodup
  exact absurd hnodup (by decide)

end Init

end OmniOS.Pci
