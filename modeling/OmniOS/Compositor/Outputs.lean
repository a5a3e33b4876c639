import OmniOS.Lib.Links
import OmniOS.Lib.Lts
import Mathlib.Data.List.Nodup

/-!
# OmniOS.Compositor.Outputs — the output list of the compositor

`server->outputs` is a circular list whose nodes are the `link` fields of other objects.
`new_output` puts the link of its `omnios_output` there, and `new_layer_surface` that of its
`omnios_layer_surface`. Where a client names no output, `new_layer_surface` takes the object
around `server->outputs.next` for an `omnios_output` and reads its `wlr_output`; the field of
a layer surface at that offset is `layer_surface`.

1. **Runs.** In every run the list holds the links of the live objects of both kinds, and no
   event meets a NULL pointer or reads a freed object.
2. **Outputs only.** So the list holds outputs only exactly while no layer surface is live,
   and then the default output is that of a live output.
-/

namespace OmniOS.Compositor

/-! ## Model -/

/-- A `wl_list` node: `server->outputs` or the `link` of the object at an address. -/
inductive Node (A : Type*) where
  | outputs
  | link (a : A)
deriving DecidableEq

/-- `omnios_output` and `omnios_layer_surface`, with the pointer each has behind `link` and
`server`: `wlr_output` and `layer_surface`. -/
inductive Object (W L : Type*) where
  | output (wlrOutput : W)
  | layer (layerSurface : L)
deriving DecidableEq

/-- What a `struct wlr_output *` may point to. -/
inductive Pointer (W L : Type*) where
  | wlrOutput (w : W)
  | layerSurface (l : L)
deriving DecidableEq

/-- The pointers of the list, the objects allocated and not freed, and `output` of each
`wlr_layer_surface_v1`. -/
structure State (A W L : Type*) where
  links : Links (Node A)
  objects : A → Option (Object W L)
  outputOf : L → Option (Pointer W L)

/-- The signals; `calloc` answers with the address of a new object. -/
inductive Event (A W L : Type*) where
  | newOutput (a : A) (wlrOutput : W)
  | outputDestroy (a : A)
  | newLayerSurface (a : A) (wlrLs : L) (output : Option W)
  | layerSurfaceDestroy (a : A)

variable {A W L : Type*}

/-- `output->wlr_output` at the offset it has in `omnios_output`. -/
def Object.wlrOutput : Object W L → Pointer W L
  | .output w => .wlrOutput w
  | .layer l => .layerSurface l

/-- The object around a `link`, while it is live. -/
def State.containerOf (s : State A W L) : Node A → Option (Object W L)
  | .outputs => none
  | .link a => s.objects a

/-- `calloc` answers with an address that is not live; a destroy signal has listeners in live
objects of its kind only. -/
def Event.Occurs (s : State A W L) : Event A W L → Prop
  | .newOutput a _ => s.objects a = none
  | .outputDestroy a => ∃ w, s.objects a = some (.output w)
  | .newLayerSurface a _ _ => s.objects a = none
  | .layerSurfaceDestroy a => ∃ l, s.objects a = some (.layer l)

variable [DecidableEq A]

/-- `wl_list_insert(&server->outputs, &obj->link)` for a new object. -/
def State.add (s : State A W L) (a : A) (obj : Object W L) : Option (State A W L) :=
  (s.links.insert .outputs (.link a)).map fun links =>
    { s with links := links, objects := Function.update s.objects a (some obj) }

/-- `wl_list_remove(&obj->link)` and `free(obj)`. -/
def State.destroy (s : State A W L) (a : A) : Option (State A W L) :=
  (s.links.remove (.link a)).map fun links =>
    { s with links := links, objects := Function.update s.objects a none }

def newOutput (s : State A W L) (a : A) (wlrOutput : W) : Option (State A W L) :=
  s.add a (.output wlrOutput)

def outputDestroy (s : State A W L) (a : A) : Option (State A W L) := s.destroy a

/-- `wlr_ls->output` when the client named none. -/
def defaultOutput (s : State A W L) : Option (Option (Pointer W L)) :=
  if s.links.empty .outputs then some none
  else
    (s.links.next .outputs).bind fun next =>
      (s.containerOf next).map fun output => some output.wlrOutput

def layerSurfaceDestroy (s : State A W L) (a : A) : Option (State A W L) := s.destroy a

/-- `main` before the first event. -/
def init (s : State A W L) : State A W L :=
  { s with links := s.links.init .outputs, objects := fun _ => none }

def newLayerSurface [DecidableEq L] (s : State A W L) (a : A) (wlrLs : L) (output : Option W) :
    Option (State A W L) :=
  let output : Option (Option (Pointer W L)) :=
    match output with
    | some w => some (some (.wlrOutput w))
    | none => defaultOutput s
  output.bind fun output =>
    State.add { s with outputOf := Function.update s.outputOf wlrLs output } a (.layer wlrLs)

/-- The handler of an event; `none` is a NULL pointer followed or a freed object read. -/
def handle [DecidableEq L] (s : State A W L) : Event A W L → Option (State A W L)
  | .newOutput a w => newOutput s a w
  | .outputDestroy a => outputDestroy s a
  | .newLayerSurface a l output => newLayerSurface s a l output
  | .layerSurfaceDestroy a => layerSurfaceDestroy s a

/-- Runs of events after `main` has set up the list. -/
def system (A W L : Type*) [DecidableEq A] [DecidableEq L] :
    Lts.System (State A W L) (Event A W L) where
  Init s := ∃ s₀, s = init s₀
  Next e s s' := e.Occurs s ∧ handle s e = some s'

/-! ## The list -/

section Contents

variable {A W L : Type*}

/-- The list goes through the links of the live objects. -/
structure State.Holds (s : State A W L) (as : List A) : Prop where
  cycle : s.links.Cycle .outputs (as.map .link)
  live : ∀ a, a ∈ as ↔ (s.objects a).isSome

/-- Every node one finds from `server->outputs` is the link of a live output. -/
def State.OnlyOutputs (s : State A W L) : Prop :=
  ∀ x, s.links.Reaches .outputs x → ∃ a w, x = .link a ∧ s.objects a = some (.output w)

variable {s : State A W L} {as : List A}

theorem link_injective : Function.Injective (Node.link : A → Node A) := by
  intro a b hab
  cases hab
  rfl

theorem State.Holds.nodup (hs : s.Holds as) : as.Nodup :=
  (List.nodup_map_iff link_injective).mp (List.nodup_cons.mp hs.cycle.nodup).2

theorem onlyOutputs_iff (hs : s.Holds as) :
    s.OnlyOutputs ↔ ∀ a l, s.objects a ≠ some (.layer l) := by
  constructor
  · intro honly a l ha
    have hmem : Node.link a ∈ as.map .link :=
      List.mem_map_of_mem ((hs.live a).mpr (Option.isSome_of_eq_some ha))
    obtain ⟨b, w, hb, hw⟩ := honly _ ((Links.reaches_iff hs.cycle _).mpr hmem)
    cases hb
    rw [ha] at hw
    cases hw
  · intro hnone x hx
    obtain ⟨a, ha, rfl⟩ := List.mem_map.mp ((Links.reaches_iff hs.cycle x).mp hx)
    obtain ⟨obj, hobj⟩ := Option.isSome_iff_exists.mp ((hs.live a).mp ha)
    cases obj with
    | output w => exact ⟨a, w, rfl, hobj⟩
    | layer l => exact absurd hobj (hnone a l)

end Contents

/-! ## Runs -/

section Steps

variable {s s' : State A W L} {as : List A} {a : A}

theorem isSome_update_some (objects : A → Option (Object W L)) (obj : Object W L) (b : A) :
    (Function.update objects a (some obj) b).isSome ↔ b = a ∨ (objects b).isSome := by
  by_cases hba : b = a
  · simp [hba]
  · simp [hba]

theorem isSome_update_none (objects : A → Option (Object W L)) (b : A) :
    (Function.update objects a none b).isSome ↔ b ≠ a ∧ (objects b).isSome := by
  by_cases hba : b = a
  · simp [hba]
  · simp [hba]

theorem State.Holds.add (hs : s.Holds as) (ha : s.objects a = none) (obj : Object W L) :
    ∃ s', s.add a obj = some s' ∧ s'.Holds (a :: as) := by
  have hfresh : Node.link a ∉ Node.outputs :: as.map .link := by
    intro hmem
    obtain ⟨b, hb, hba⟩ := List.mem_map.mp (List.mem_of_ne_of_mem (by simp) hmem)
    cases hba
    have hlive := (hs.live a).mp hb
    rw [ha] at hlive
    cases hlive
  obtain ⟨links, hlinks, hcycle⟩ := Links.cycle_insert hs.cycle hfresh
  refine ⟨_, by rw [State.add, hlinks]; rfl, hcycle, ?_⟩
  intro b
  rw [List.mem_cons, hs.live b]
  exact (isSome_update_some s.objects obj b).symm

theorem State.Holds.destroy (hs : s.Holds as) (ha : (s.objects a).isSome) :
    ∃ s', s.destroy a = some s' ∧ s'.Holds (as.erase a) := by
  have hmem : Node.link a ∈ as.map .link := List.mem_map_of_mem ((hs.live a).mpr ha)
  obtain ⟨links, hlinks, hcycle⟩ := Links.cycle_remove hs.cycle hmem
  rw [← List.map_erase link_injective] at hcycle
  refine ⟨_, by rw [State.destroy, hlinks]; rfl, hcycle, ?_⟩
  intro b
  rw [hs.nodup.mem_erase_iff, hs.live b]
  exact (isSome_update_none s.objects b).symm

/-- The default output is read from the object inserted last. -/
theorem State.Holds.defaultOutput (hs : s.Holds as) :
    (as = [] ∧ defaultOutput s = some none) ∨
    ∃ a obj, a ∈ as ∧ s.objects a = some obj ∧ defaultOutput s = some (some obj.wlrOutput) := by
  unfold Compositor.defaultOutput
  cases as with
  | nil => exact Or.inl ⟨rfl, if_pos ((Links.cycle_empty_iff hs.cycle).mpr rfl)⟩
  | cons a as =>
      right
      obtain ⟨obj, hobj⟩ := Option.isSome_iff_exists.mp ((hs.live a).mp List.mem_cons_self)
      have hne : ¬ s.links.empty .outputs = true := by
        rw [Links.cycle_empty_iff hs.cycle]
        exact List.cons_ne_nil _ _
      obtain ⟨n, rest, hlist, hnext⟩ := hs.cycle.first
      cases hlist
      refine ⟨a, obj, List.mem_cons_self, hobj, ?_⟩
      rw [if_neg hne, hnext]
      show (s.objects a).map _ = _
      rw [hobj]
      rfl

variable [DecidableEq L]

/-- An event is handled, and the list holds the live objects after it. -/
theorem handle_holds (hs : s.Holds as) {e : Event A W L} (he : e.Occurs s) :
    ∃ s' as', handle s e = some s' ∧ s'.Holds as' := by
  cases e with
  | newOutput a w =>
      obtain ⟨s', hs', hholds⟩ := hs.add he (.output w)
      exact ⟨s', _, hs', hholds⟩
  | outputDestroy a =>
      obtain ⟨w, hw⟩ := he
      obtain ⟨s', hs', hholds⟩ := hs.destroy (Option.isSome_of_eq_some hw)
      exact ⟨s', _, hs', hholds⟩
  | newLayerSurface a l output =>
      have hadd (p : Option (Pointer W L)) : ∃ s' as',
          State.add { s with outputOf := Function.update s.outputOf l p } a (.layer l) = some s' ∧
            s'.Holds as' := by
        have hset : State.Holds { s with outputOf := Function.update s.outputOf l p } as :=
          ⟨hs.cycle, hs.live⟩
        obtain ⟨s', hs', hholds⟩ := hset.add he (.layer l)
        exact ⟨s', _, hs', hholds⟩
      cases output with
      | some w => exact hadd _
      | none =>
          -- the default output is there to be read
          show ∃ s' as', (Compositor.defaultOutput s).bind _ = some s' ∧ _
          rcases hs.defaultOutput with ⟨-, hdefault⟩ | ⟨_, _, -, -, hdefault⟩
          · rw [hdefault]
            exact hadd _
          · rw [hdefault]
            exact hadd _
  | layerSurfaceDestroy a =>
      obtain ⟨l, hl⟩ := he
      obtain ⟨s', hs', hholds⟩ := hs.destroy (Option.isSome_of_eq_some hl)
      exact ⟨s', _, hs', hholds⟩

theorem holds_of_reachable (hs : Lts.Reachable (system A W L) s) : ∃ as, s.Holds as := by
  refine hs.invariant (I := fun s => ∃ as, s.Holds as) ?_ ?_
  · rintro s ⟨s₀, rfl⟩
    refine ⟨[], Links.cycle_init _ _, ?_⟩
    intro a
    exact iff_of_false List.not_mem_nil Bool.false_ne_true
  · rintro e s s' ⟨as, hs⟩ ⟨he, hs'⟩
    obtain ⟨t, as', ht, hholds⟩ := handle_holds hs he
    rw [hs'] at ht
    cases ht
    exact ⟨as', hholds⟩

/-- Without an output of its own, a layer surface gets the default output. -/
theorem outputOf_newLayerSurface {a : A} {l : L} (h : newLayerSurface s a l none = some s') :
    Compositor.defaultOutput s = some (s'.outputOf l) := by
  obtain ⟨output, houtput, hadd⟩ := Option.bind_eq_some_iff.mp h
  obtain ⟨links, -, rfl⟩ := Option.map_eq_some_iff.mp hadd
  have hself : Function.update s.outputOf l output l = output := Function.update_self _ _ _
  exact houtput.trans (congrArg some hself.symm)

end Steps

/-- In every run no event meets a NULL pointer or a freed object, and `server->outputs` holds
outputs only exactly while no layer surface is live. Then a layer surface without an output of
its own gets the `wlr_output` of a live output, or none if there is none. -/
theorem outputs_only_iff {A W L : Type*} [DecidableEq A] [DecidableEq L] {s : State A W L}
    (hs : Lts.Reachable (system A W L) s) :
    (s.OnlyOutputs ↔ ∀ a l, s.objects a ≠ some (.layer l)) ∧
    (∀ e : Event A W L, e.Occurs s → ∃ s', handle s e = some s') ∧
    ∀ a l s', s.OnlyOutputs → handle s (.newLayerSurface a l none) = some s' →
      (∀ b, s.objects b = none) ∧ s'.outputOf l = none ∨
      ∃ b w, s.objects b = some (.output w) ∧ s'.outputOf l = some (.wlrOutput w) := by
  obtain ⟨as, hholds⟩ := holds_of_reachable hs
  refine ⟨onlyOutputs_iff hholds, ?_, ?_⟩
  · intro e he
    obtain ⟨s', -, hs', -⟩ := handle_holds hholds he
    exact ⟨s', hs'⟩
  · intro a l s' honly hs'
    have houtput := outputOf_newLayerSurface hs'
    rcases hholds.defaultOutput with ⟨rfl, hdefault⟩ | ⟨b, obj, -, hobj, hdefault⟩
    · left
      refine ⟨?_, Option.some.inj (houtput.symm.trans hdefault)⟩
      intro b
      cases hb : s.objects b with
      | none => rfl
      | some obj => exact absurd ((hholds.live b).mpr (Option.isSome_of_eq_some hb)) List.not_mem_nil
    · right
      cases obj with
      | output w => exact ⟨b, w, hobj, Option.some.inj (houtput.symm.trans hdefault)⟩
      | layer l => exact absurd hobj ((onlyOutputs_iff hholds).mp honly b l)

/-- Nothing linked, nothing live. -/
def emptyState : State Nat Nat Nat :=
  init ⟨⟨fun _ => none, fun _ => none⟩, fun _ => none, fun _ => none⟩

/-- The list after one `new_output`. -/
theorem one_output_only :
    ∃ s, Lts.Reachable (system Nat Nat Nat) s ∧ s.objects 0 = some (.output 7) ∧ s.OnlyOutputs := by
  have hinit : Lts.Reachable (system Nat Nat Nat) emptyState := Lts.Reachable.init ⟨_, rfl⟩
  obtain ⟨s, hs⟩ := (outputs_only_iff hinit).2.1 (.newOutput 0 7) rfl
  have hreach := hinit.step (a := Event.newOutput 0 7) ⟨rfl, hs⟩
  have hadd : emptyState.add 0 (.output 7) = some s := hs
  obtain ⟨links, -, rfl⟩ := Option.map_eq_some_iff.mp hadd
  refine ⟨_, hreach, rfl, (outputs_only_iff hreach).1.mpr ?_⟩
  intro a l ha
  by_cases hzero : a = 0
  · subst hzero
    cases ha
  · have hnone : Function.update emptyState.objects 0 (some (.output 7)) a = none :=
      Function.update_of_ne hzero _ _
    exact Option.some_ne_none _ (ha.symm.trans hnone)

/-- After one output and one layer surface the list starts with the layer surface, and the
next layer surface gets the first one for its output. -/
theorem layer_surface_as_output :
    ∃ s s', Lts.Reachable (system Nat Nat Nat) s ∧ ¬ s.OnlyOutputs ∧
      (Event.newLayerSurface 2 11 none).Occurs s ∧
      handle s (.newLayerSurface 2 11 none) = some s' ∧
      s'.outputOf 11 = some (.layerSurface 10) := by
  have hrun : ((handle emptyState (.newOutput 0 7)).bind fun s₁ =>
      (handle s₁ (.newLayerSurface 1 10 none)).bind fun s₂ =>
      (handle s₂ (.newLayerSurface 2 11 none)).map fun s₃ =>
        decide (s₁.objects 1 = none ∧ s₂.objects 2 = none ∧ s₂.objects 1 = some (.layer 10) ∧
          s₃.outputOf 11 = some (.layerSurface 10))) = some true := by
    decide
  obtain ⟨s₁, hs₁, hrun⟩ := Option.bind_eq_some_iff.mp hrun
  obtain ⟨s₂, hs₂, hrun⟩ := Option.bind_eq_some_iff.mp hrun
  obtain ⟨s₃, hs₃, hfacts⟩ := Option.map_eq_some_iff.mp hrun
  obtain ⟨hfree₁, hfree₂, hlayer, houtput⟩ := of_decide_eq_true hfacts
  have hreach : Lts.Reachable (system Nat Nat Nat) s₂ := by
    have hinit : Lts.Reachable (system Nat Nat Nat) emptyState := Lts.Reachable.init ⟨_, rfl⟩
    have houtput := hinit.step (a := Event.newOutput 0 7) ⟨rfl, hs₁⟩
    exact houtput.step (a := Event.newLayerSurface 1 10 none) ⟨hfree₁, hs₂⟩
  refine ⟨s₂, s₃, hreach, ?_, hfree₂, hs₃, houtput⟩
  obtain ⟨as, hholds⟩ := holds_of_reachable hreach
  intro honly
  exact (onlyOutputs_iff hholds).mp honly 1 10 hlayer

end OmniOS.Compositor
