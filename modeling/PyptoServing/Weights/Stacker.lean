import PyptoServing.Weights.Packer

/-!
# Whole-model slabs

Each weight of a group of layers is one slab, in which a layer owns the slice at its position
in the group. Layers are packed into their slices; in any order the slabs become the
concatenation of the layers packed on their own.
-/
namespace PyptoServing.Weights

open Lib

/-- `StackGroup`; `members` is `none` for the group of all weights that no other claims. -/
structure StackGroup where
  id : String
  members : Option (List String)
  layerIds : List Nat

/-- A slice of a slab along the stack axis. -/
structure SlabView where
  start : Nat
  width : Nat
  deriving DecidableEq, Repr

namespace StackGroup

/-- `position_of`. -/
def positionOf (group : StackGroup) (layerId : Nat) : Option Nat :=
  group.layerIds.idxOf? layerId

/-- `group.members or ()`. -/
def memberNames (group : StackGroup) : List String := group.members.getD []

end StackGroup

variable {α : Type}

/-- The names of a packed layer, in packing order. -/
def names (packed : Dict String (Weight α)) : List String := packed.keys.reverse

/-- The names that the groups list. -/
def claimed (groups : List StackGroup) : List String := groups.flatMap (·.memberNames)

/-- A list of names, as Python prints it. -/
def reprNames (names : List String) : String :=
  "[" ++ ", ".intercalate (names.map fun name => "'" ++ name ++ "'") ++ "]"

/-- `resolve_members`. -/
def resolveMembers (groups : List StackGroup) (template : Dict String (Weight α)) :
    Except String (List StackGroup) :=
  let catchAll := groups.filter fun group => group.members.isNone
  let missing := (claimed groups).filter fun name => name ∉ template
  if 1 < catchAll.length then
    .error ("at most one stack group may be the catch-all, got " ++
      reprNames (catchAll.map (·.id)))
  else if missing ≠ [] then
    .error ("stack groups name weights the packed layer does not have: " ++
      reprNames (missing.dedup.mergeSort fun a b => a ≤ b))
  else .ok (groups.map fun group => { group with
    members := match group.members with
      | none => some ((names template).filter fun name => name ∉ claimed groups)
      | some members => some members })

/-- The weights of every group. -/
def entries (groups : List StackGroup) : List (StackGroup × String) :=
  groups.flatMap fun group => group.memberNames.map fun name => (group, name)

section Stack
variable (casts : Casts α) (groups : List StackGroup) (template : Dict String (Weight α))
  (axis : Nat)

/-- The checks of one weight in `allocate_slabs`. -/
def checkStackable (name : String) : Except String Unit :=
  match template.lookup name with
  | none => .error name
  | some source =>
    if source.shape.length < 2 then
      .error s!"packed weight {name} must have rank >= 2, got {source.shape.length}"
    else if source.shape.length ≤ axis then
      .error s!"stack_axis {axis} is out of range for {name} with rank {source.shape.length}"
    else .ok ()

/-- One slab of `allocate_slabs`; its elements are not initialised. -/
def entrySlab (uninitialised : String → List Nat → α) (entry : StackGroup × String) :
    Option (Weight α) :=
  (template.lookup entry.2).map fun source =>
    ⟨source.shape.set axis (source.width axis * entry.1.layerIds.length), source.dtype,
      uninitialised entry.2⟩

/-- `allocate_slabs`. -/
def allocateSlabs (uninitialised : String → List Nat → α) :
    Except String (Dict String (Weight α)) := do
  let stacked := entries (groups.filter fun group => group.layerIds ≠ [])
  stacked.forM fun entry => checkStackable template axis entry.2
  return Dict.insertAll (·.2) (entrySlab template axis uninitialised) stacked ∅

/-- The slice of one weight that a layer owns. -/
def entryView (layerId : Nat) (entry : StackGroup × String) : Option SlabView :=
  match entry.1.positionOf layerId, template.lookup entry.2 with
  | some position, some source =>
    some ⟨position * source.width axis, source.width axis⟩
  | _, _ => none

/-- The slice of a weight lies in its slab. -/
def checkView (slabs : Dict String (Weight α)) (layerId : Nat) (entry : StackGroup × String) :
    Except String Unit :=
  match entryView template axis layerId entry with
  | none => .ok ()
  | some view =>
    match slabs.lookup entry.2 with
    | none => .error entry.2
    | some slab =>
      if slab.width axis < view.start + view.width then
        .error (s!"start ({view.start}) + length ({view.width}) exceeds dimension size " ++
          s!"({slab.width axis})")
      else .ok ()

/-- `destinations_for`: the slices of a layer in the slabs. -/
def destinationsFor (slabs : Dict String (Weight α)) (layerId : Nat) :
    Except String (Dict String SlabView) := do
  (entries groups).forM (checkView template axis slabs layerId)
  return Dict.insertAll (·.2) (entryView template axis layerId) (entries groups) ∅

/-- The slices as tensors. -/
def narrowed (slabs : Dict String (Weight α)) (views : Dict String SlabView) :
    Dict String (Weight α) :=
  Dict.insertAll (·.1) (fun entry => (slabs.lookup entry.1).map fun slab =>
    slab.narrow axis entry.2.start entry.2.width) views.entries ∅

/-- `copy_packed_layer`. -/
def copyPackedLayer (destinations : Dict String (Weight α)) :
    Except String (Dict String (Weight α)) :=
  destinations.entries.foldlM (fun copied ⟨name, destination⟩ =>
    match template.lookup name with
    | none => .error name
    | some source =>
      if source.shape ≠ destination.shape ∨ source.dtype ≠ destination.dtype then
        .error (s!"packed weight {name} shape/dtype mismatch: " ++
          s!"source={describe source.shape source.dtype}, " ++
          s!"destination={describe destination.shape destination.dtype}")
      else do return copied.insert name (← destination.copyFrom casts.convert source)) ∅

/-- What was written into the slices, in the slabs. -/
def writeBack (slabs : Dict String (Weight α)) (views : Dict String SlabView)
    (written : Dict String (Weight α)) : Dict String (Weight α) :=
  Dict.insertAll (·.1) (fun entry => (slabs.lookup entry.1).bind fun slab =>
    (written.lookup entry.1).map fun part => slab.assign axis entry.2.start part) views.entries
    slabs

/-- The staging of one layer. -/
def stageLayer
    (packInto : Nat → Dict String (Weight α) → Except String (Dict String (Weight α)))
    (templateLayerId : Option Nat) (slabs : Dict String (Weight α)) (layerId : Nat) :
    Except String (Dict String (Weight α)) := do
  let views ← destinationsFor groups template axis slabs layerId
  let destinations := narrowed axis slabs views
  let written ←
    if templateLayerId = some layerId then copyPackedLayer casts template destinations
    else packInto layerId destinations
  return writeBack axis slabs views written

/-- `stack_layers`, with the layers in the order in which they are staged. -/
def stackLayers
    (packInto : Nat → Dict String (Weight α) → Except String (Dict String (Weight α)))
    (templateLayerId : Option Nat) (uninitialised : String → List Nat → α)
    (order : List Nat) : Except String (Dict String (Weight α)) := do
  let resolved ← resolveMembers groups template
  let slabs ← allocateSlabs resolved template axis uninitialised
  order.foldlM (stageLayer casts resolved template axis packInto templateLayerId) slabs

theorem mem_entries {groups : List StackGroup} {group : StackGroup} {name : String} :
    (group, name) ∈ entries groups ↔ group ∈ groups ∧ name ∈ group.memberNames := by
  unfold entries
  rw [List.mem_flatMap]
  constructor
  · rintro ⟨g, hg, hmem⟩
    obtain ⟨n, hn, heq⟩ := List.mem_map.mp hmem
    cases heq
    exact ⟨hg, hn⟩
  · rintro ⟨hg, hn⟩
    exact ⟨group, hg, List.mem_map.mpr ⟨name, hn, rfl⟩⟩

theorem positionOf_eq_some {group : StackGroup} {layerId position : Nat}
    (hnodup : group.layerIds.Nodup) :
    group.positionOf layerId = some position ↔ group.layerIds[position]? = some layerId := by
  unfold StackGroup.positionOf
  rw [List.idxOf?_eq_some_iff, List.getElem?_eq_some_iff]
  constructor
  · rintro ⟨hlt, heq, -⟩
    exact ⟨hlt, heq⟩
  · rintro ⟨hlt, heq⟩
    refine ⟨hlt, heq, fun j hj hji => ?_⟩
    have hsame := (hnodup.getElem_inj_iff).mp (hji.trans heq.symm)
    omega

/-- The groups, with what the layers are when they are packed on their own: each weight belongs
to one group, and every layer of the group packs it like the template. -/
structure Stackable (groups : List StackGroup) (template : Dict String (Weight α))
    (packed : Nat → Dict String (Weight α)) (axis : Nat) : Prop where
  distinct : ∀ group ∈ groups, group.layerIds.Nodup
  owned : ∀ group ∈ groups, ∀ group' ∈ groups, ∀ name, name ∈ group.memberNames →
    name ∈ group'.memberNames → group = group'
  ranked : ∀ group ∈ groups, group.layerIds ≠ [] → ∀ name ∈ group.memberNames,
    ∃ source, template.lookup name = some source ∧ 2 ≤ source.shape.length ∧
      axis < source.shape.length
  fits : ∀ group ∈ groups, ∀ layerId ∈ group.layerIds, ∀ name ∈ group.memberNames, ∀ source,
    template.lookup name = some source → ∃ t, (packed layerId).lookup name = some t ∧
      t.shape = source.shape ∧ t.dtype = source.dtype

/-- The slabs have room for the layers of their group. -/
def Sized (groups : List StackGroup) (template slabs : Dict String (Weight α)) (axis : Nat) :
    Prop :=
  ∀ group ∈ groups, group.layerIds ≠ [] → ∀ name ∈ group.memberNames, ∀ source,
    template.lookup name = some source → ∃ slab, slabs.lookup name = some slab ∧
      slab.shape = source.shape.set axis (source.width axis * group.layerIds.length) ∧
      slab.dtype = source.dtype

variable {casts groups template axis} {packed : Nat → Dict String (Weight α)}
  {slabs : Dict String (Weight α)}

theorem allocateSlabs_ok (h : Stackable groups template packed axis)
    (uninitialised : String → List Nat → α) :
    ∃ slabs, allocateSlabs groups template axis uninitialised = .ok slabs ∧
      Sized groups template slabs axis := by
  refine ⟨_, Fallible.bind_eq_ok.mpr ⟨⟨⟩, Fallible.forM_total ?_, rfl⟩, ?_⟩
  · rintro ⟨group, name⟩ hmem
    obtain ⟨hgroup, hname⟩ := mem_entries.mp hmem
    obtain ⟨hgroup, hlayers⟩ := List.mem_filter.mp hgroup
    obtain ⟨source, hsource, hrank, haxis⟩ :=
      h.ranked group hgroup (of_decide_eq_true hlayers) name hname
    show checkStackable template axis name = _
    unfold checkStackable
    rw [hsource]
    dsimp only
    rw [if_neg (by omega), if_neg (by omega)]
  · intro group hgroup hlayers name hname source hsource
    have hmem : (group, name) ∈ entries (groups.filter fun group => group.layerIds ≠ []) :=
      mem_entries.mpr ⟨List.mem_filter.mpr ⟨hgroup, decide_eq_true hlayers⟩, hname⟩
    have hslab : entrySlab template axis uninitialised (group, name) = some
        ⟨source.shape.set axis (source.width axis * group.layerIds.length), source.dtype,
          uninitialised name⟩ := by
      unfold entrySlab
      rw [hsource]
      rfl
    refine ⟨_, Dict.lookup_insertAll hmem rfl hslab ?_, rfl, rfl⟩
    rintro ⟨group', name'⟩ hmem' hkey slab hslab'
    cases hkey
    obtain ⟨hgroup', hname'⟩ := mem_entries.mp hmem'
    cases h.owned group hgroup group' (List.mem_of_mem_filter hgroup') name' hname hname'
    rw [hslab] at hslab'
    cases hslab'
    rfl

/-- A layer's slice of a weight. -/
theorem entryView_eq_some {group : StackGroup} {name : String} {layerId : Nat} {view : SlabView} :
    entryView template axis layerId (group, name) = some view ↔
      ∃ position source, group.positionOf layerId = some position ∧
        template.lookup name = some source ∧
        view = ⟨position * source.width axis, source.width axis⟩ := by
  unfold entryView
  dsimp only
  cases group.positionOf layerId with
  | none => simp
  | some position =>
    cases template.lookup name with
    | none => simp
    | some source => simp [eq_comm]

/-- A layer's slices lie in the slabs, and the slice of a weight is that of its group. -/
theorem destinationsFor_ok (h : Stackable groups template packed axis)
    (hsized : Sized groups template slabs axis) (layerId : Nat) :
    ∃ views, destinationsFor groups template axis slabs layerId = .ok views ∧
      (∀ group ∈ groups, ∀ name ∈ group.memberNames,
        views.lookup name = entryView template axis layerId (group, name)) ∧
      ∀ name view, views.lookup name = some view →
        ∃ group ∈ groups, name ∈ group.memberNames := by
  refine ⟨_, Fallible.bind_eq_ok.mpr ⟨⟨⟩, Fallible.forM_total ?_, rfl⟩, ?_, ?_⟩
  · rintro ⟨group, name⟩ hmem
    obtain ⟨hgroup, hname⟩ := mem_entries.mp hmem
    unfold checkView
    cases hview : entryView template axis layerId (group, name) with
    | none => rfl
    | some view =>
      obtain ⟨position, source, hposition, hsource, rfl⟩ := entryView_eq_some.mp hview
      have hlayer := (positionOf_eq_some (h.distinct group hgroup)).mp hposition
      have hlayers : group.layerIds ≠ [] := by
        rintro hnil
        rw [hnil] at hlayer
        cases hlayer
      obtain ⟨slab, hslab, hshape, -⟩ := hsized group hgroup hlayers name hname source hsource
      obtain ⟨source', hsource', -, haxis⟩ := h.ranked group hgroup hlayers name hname
      cases hsource.symm.trans hsource'
      obtain ⟨hlt, -⟩ := List.getElem?_eq_some_iff.mp hlayer
      have hwidth : slab.width axis = source.width axis * group.layerIds.length := by
        unfold Tensor.width
        rw [hshape, Tensor.getD_set_self haxis]
        rfl
      have hroom : position * source.width axis + source.width axis ≤ slab.width axis := by
        rw [hwidth, ← Nat.succ_mul, Nat.mul_comm]
        exact Nat.mul_le_mul_left _ hlt
      dsimp only
      rw [hslab]
      dsimp only
      rw [if_neg (by omega)]
  · intro group hgroup name hname
    cases hview : entryView template axis layerId (group, name) with
    | none =>
      rw [Dict.lookup_insertAll_of_none, AList.lookup_empty]
      rintro ⟨group', name'⟩ hmem hkey
      cases hkey
      obtain ⟨hgroup', hname'⟩ := mem_entries.mp hmem
      cases h.owned group hgroup group' hgroup' name' hname hname'
      exact hview
    | some view =>
      refine Dict.lookup_insertAll (mem_entries.mpr ⟨hgroup, hname⟩) rfl hview ?_
      rintro ⟨group', name'⟩ hmem hkey view' hview'
      cases hkey
      obtain ⟨hgroup', hname'⟩ := mem_entries.mp hmem
      cases h.owned group hgroup group' hgroup' name' hname hname'
      rw [hview] at hview'
      cases hview'
      rfl
  · intro name view hview
    rcases Dict.insertAll_from hview with ⟨⟨group, name'⟩, hmem, hkey, -⟩ | ⟨-, hempty⟩
    · cases hkey
      exact ⟨group, mem_entries.mp hmem⟩
    · rw [AList.lookup_empty] at hempty
      cases hempty

end Stack
end PyptoServing.Weights
