import PyptoServing.Weights.Stacker

/-!
# Staging layers into slabs

Staging a layer fills its slices and leaves those of the other layers alone. After every layer
was staged, in any order, each slab is the concatenation of its layers packed on their own.
-/
namespace PyptoServing.Weights

open Lib

section Stacking
variable {α : Type} {casts : Casts α} {groups : List StackGroup}
  {template slabs : Dict String (Weight α)} {axis : Nat} {packed : Nat → Dict String (Weight α)}

theorem lookup_narrowed {views : Dict String SlabView} {name : String} {destination : Weight α}
    (h : (narrowed axis slabs views).lookup name = some destination) :
    ∃ view slab, views.lookup name = some view ∧ slabs.lookup name = some slab ∧
      destination = slab.narrow axis view.start view.width := by
  rcases Dict.insertAll_from h with ⟨⟨name', view⟩, hmem, hkey, hval⟩ | ⟨-, hempty⟩
  · cases hkey
    obtain ⟨slab, hslab, hdest⟩ := Option.map_eq_some_iff.mp hval
    exact ⟨view, slab, AList.mem_lookup_iff.mpr hmem, hslab, hdest.symm⟩
  · rw [AList.lookup_empty] at hempty
    cases hempty

theorem lookup_writeBack {views : Dict String SlabView} {written : Dict String (Weight α)}
    {name : String} {view : SlabView} {slab part : Weight α} (hview : views.lookup name = some view)
    (hslab : slabs.lookup name = some slab) (hpart : written.lookup name = some part) :
    (writeBack axis slabs views written).lookup name =
      some (slab.assign axis view.start part) := by
  refine Dict.lookup_insertAll_entries hview ?_
  show Option.bind (slabs.lookup name) _ = _
  rw [hslab, Option.bind_some, hpart]
  rfl

theorem lookup_writeBack_none {views : Dict String SlabView} {written : Dict String (Weight α)}
    {name : String} (hview : views.lookup name = none) :
    (writeBack axis slabs views written).lookup name = slabs.lookup name :=
  Dict.lookup_insertAll_entries_none hview

/-- What a slab of a group of layers looks like. -/
structure IsSlab (group : StackGroup) (source slab : Weight α) (axis : Nat) : Prop where
  shape : slab.shape = source.shape.set axis (source.width axis * group.layerIds.length)
  dtype : slab.dtype = source.dtype
  axis_lt : axis < source.shape.length

namespace IsSlab
variable {group : StackGroup} {source slab : Weight α}

theorem axis_lt_slab (h : IsSlab group source slab axis) : axis < slab.shape.length := by
  rw [h.shape, List.length_set]
  exact h.axis_lt

theorem width (h : IsSlab group source slab axis) :
    slab.width axis = source.width axis * group.layerIds.length := by
  unfold Tensor.width
  rw [h.shape, Tensor.getD_set_self h.axis_lt]
  rfl

/-- The slice of a layer has the shape of the layer. -/
theorem slice_shape (h : IsSlab group source slab axis) :
    slab.shape.set axis (source.width axis) = source.shape := by
  rw [h.shape, List.set_set]
  unfold Tensor.width
  rw [List.getD_eq_getElem?_getD, List.getElem?_eq_getElem h.axis_lt, Option.getD_some,
    List.set_getElem_self]

end IsSlab

/-- Two layers' slices do not overlap. -/
theorem slices_disjoint {p q w : Nat} (h : p ≠ q) : p * w + w ≤ q * w ∨ q * w + w ≤ p * w := by
  rcases Nat.lt_or_gt_of_ne h with hlt | hlt
  · left
    rw [← Nat.succ_mul]
    exact Nat.mul_le_mul_right w hlt
  · right
    rw [← Nat.succ_mul]
    exact Nat.mul_le_mul_right w hlt

theorem Sized.isSlab (hsized : Sized groups template slabs axis)
    (h : Stackable groups template packed axis) {group : StackGroup} (hgroup : group ∈ groups)
    {layerId : Nat} (hlayer : layerId ∈ group.layerIds) {name : String}
    (hname : name ∈ group.memberNames) : ∃ source slab t, template.lookup name = some source ∧
      slabs.lookup name = some slab ∧ IsSlab group source slab axis ∧
      (packed layerId).lookup name = some t ∧ t.shape = source.shape ∧ t.dtype = source.dtype := by
  have hlayers : group.layerIds ≠ [] := List.ne_nil_of_mem hlayer
  obtain ⟨source, hsource, -, haxis⟩ := h.ranked group hgroup hlayers name hname
  obtain ⟨slab, hslab, hshape, hdtype⟩ := hsized group hgroup hlayers name hname source hsource
  obtain ⟨t, ht, htshape, htdtype⟩ := h.fits group hgroup layerId hlayer name hname source hsource
  exact ⟨source, slab, t, hsource, hslab, ⟨hshape, hdtype, haxis⟩, ht, htshape, htdtype⟩

/-- What packing a layer into its slices must do: write what the layer packs on its own. -/
def Writes (packed : Dict String (Weight α))
    (pack : Dict String (Weight α) → Except String (Dict String (Weight α))) : Prop :=
  ∀ destinations : Dict String (Weight α),
    (∀ name destination, destinations.lookup name = some destination → ∃ t,
      packed.lookup name = some t ∧ destination.shape = t.shape ∧ destination.dtype = t.dtype) →
    ∃ out, pack destinations = .ok out ∧ ∀ name destination t,
      destinations.lookup name = some destination → packed.lookup name = some t →
        ∃ t', out.lookup name = some t' ∧ t'.Same t

/-- One entry of `copyPackedLayer`. -/
def copyPackedEntry (casts : Casts α) (template copied : Dict String (Weight α))
    (entry : Σ _ : String, Weight α) : Except String (Dict String (Weight α)) :=
  match template.lookup entry.1 with
  | none => .error entry.1
  | some source =>
    if source.shape ≠ entry.2.shape ∨ source.dtype ≠ entry.2.dtype then
      .error (s!"packed weight {entry.1} shape/dtype mismatch: " ++
        s!"source={describe source.shape source.dtype}, " ++
        s!"destination={describe entry.2.shape entry.2.dtype}")
    else do return copied.insert entry.1 (← entry.2.copyFrom casts.convert source)

/-- The template is copied as it was packed. -/
theorem writes_copyPackedLayer (casts : Casts α) (template : Dict String (Weight α)) :
    Writes template (copyPackedLayer casts template) := by
  intro destinations hfits
  have hentry : ∀ entry ∈ destinations.entries, destinations.lookup entry.1 = some entry.2 :=
    fun entry hmem => AList.mem_lookup_iff.mpr hmem
  obtain ⟨out, hout, -, hdone⟩ := Fallible.foldlM_total
    (I := fun rest (out : Dict String (Weight α)) =>
      (∀ entry ∈ rest, entry ∈ destinations.entries) ∧
      ∀ name destination t, (⟨name, destination⟩ : Σ _ : String, Weight α) ∈ destinations.entries →
        (⟨name, destination⟩ : Σ _ : String, Weight α) ∉ rest → template.lookup name = some t →
          ∃ t', out.lookup name = some t' ∧ t'.Same t)
    (f := copyPackedEntry casts template)
    (by
      rintro ⟨name, destination⟩ rest out ⟨hmem, hdone⟩
      have hdest := hentry ⟨name, destination⟩ (hmem _ List.mem_cons_self)
      obtain ⟨source, hsource, hshape, hdtype⟩ := hfits name destination hdest
      obtain ⟨t', ht', hsame⟩ := Tensor.copyFrom_same casts.convert hshape
      refine ⟨out.insert name t', ?_, fun entry h => hmem entry (by simp [h]), ?_⟩
      · rw [copyPackedEntry]
        dsimp only
        rw [hsource]
        dsimp only
        rw [if_neg (by simp [hshape, hdtype])]
        exact Fallible.bind_eq_ok.mpr ⟨t', ht', rfl⟩
      · intro other dest t hother hnot ht
        by_cases heq : other = name
        · subst heq
          rw [hsource] at ht
          cases ht
          refine ⟨t', AList.lookup_insert _, hsame.trans ⟨rfl, hdtype, fun idx _ => ?_⟩⟩
          show casts.convert source.dtype destination.dtype _ = _
          rw [hdtype, casts.convert_self]
        · rw [AList.lookup_insert_ne heq]
          refine hdone other dest t hother ?_ ht
          rw [List.mem_cons, not_or]
          exact ⟨fun h => heq (congrArg Sigma.fst h), hnot⟩)
    destinations.entries ∅ ⟨fun _ h => h, fun name dest t hmem hnot => absurd hmem hnot⟩
  exact ⟨out, hout, fun name dest t hdest ht =>
    hdone name dest t (AList.mem_lookup_iff.mp hdest) (by simp) ht⟩

/-- The slices of the layers that were staged. -/
def Staged (groups : List StackGroup) (packed : Nat → Dict String (Weight α)) (axis : Nat)
    (done : Nat → Prop) (slabs : Dict String (Weight α)) : Prop :=
  ∀ group ∈ groups, ∀ name ∈ group.memberNames, ∀ position layerId, done layerId →
    group.layerIds[position]? = some layerId → ∀ t slab, (packed layerId).lookup name = some t →
      slabs.lookup name = some slab →
        (slab.narrow axis (position * t.width axis) (t.width axis)).Same t

/-- The slice of a layer, with the layer packed on its own. -/
theorem slice_of_view (h : Stackable groups template packed axis)
    (hsized : Sized groups template slabs axis) {group : StackGroup} (hgroup : group ∈ groups)
    {name : String} (hname : name ∈ group.memberNames) {layerId : Nat} {view : SlabView}
    (hview : entryView template axis layerId (group, name) = some view) :
    ∃ position source slab t, group.layerIds[position]? = some layerId ∧
      template.lookup name = some source ∧ slabs.lookup name = some slab ∧
      IsSlab group source slab axis ∧ (packed layerId).lookup name = some t ∧
      t.shape = source.shape ∧ t.dtype = source.dtype ∧
      view = ⟨position * source.width axis, source.width axis⟩ := by
  obtain ⟨position, source, hposition, hsource, rfl⟩ := entryView_eq_some.mp hview
  have hlayer := (positionOf_eq_some (h.distinct group hgroup)).mp hposition
  obtain ⟨source', slab, t, hsource', hslab, his, ht, hshape, hdtype⟩ :=
    hsized.isSlab h hgroup (List.mem_of_getElem? hlayer) hname
  cases hsource.symm.trans hsource'
  exact ⟨position, source, slab, t, hlayer, hsource, hslab, his, ht, hshape, hdtype, rfl⟩

/-- What staging a layer does to a slab: nothing, or a write of the layer into its slice. -/
structure Wrote (groups : List StackGroup) (template : Dict String (Weight α))
    (packed : Dict String (Weight α)) (axis layerId : Nat)
    (slabs slabs' : Dict String (Weight α)) : Prop where
  unnamed : ∀ name, (∀ group ∈ groups, name ∉ group.memberNames) →
    slabs'.lookup name = slabs.lookup name
  others : ∀ group ∈ groups, ∀ name ∈ group.memberNames,
    entryView template axis layerId (group, name) = none →
      slabs'.lookup name = slabs.lookup name
  slice : ∀ group ∈ groups, ∀ name ∈ group.memberNames, ∀ view slab t,
    entryView template axis layerId (group, name) = some view → slabs.lookup name = some slab →
      packed.lookup name = some t → ∃ part, part.Same t ∧
        slabs'.lookup name = some (slab.assign axis view.start part)

/-- Staging a layer. -/
theorem stageLayer_ok {packInto : Nat → Dict String (Weight α) →
      Except String (Dict String (Weight α))} {templateLayerId : Option Nat} {layerId : Nat}
    (h : Stackable groups template packed axis)
    (hwrites : Writes (packed layerId) (if templateLayerId = some layerId then
      copyPackedLayer casts template else packInto layerId))
    (hsized : Sized groups template slabs axis) :
    ∃ slabs', stageLayer casts groups template axis packInto templateLayerId slabs layerId =
      .ok slabs' ∧ Wrote groups template (packed layerId) axis layerId slabs slabs' := by
  obtain ⟨views, hviews, hlookup, hfrom⟩ := destinationsFor_ok h hsized layerId
  obtain ⟨written, hwritten, hparts⟩ := hwrites (narrowed axis slabs views) (by
    intro name destination hdest
    obtain ⟨view, slab, hv, hslab, rfl⟩ := lookup_narrowed hdest
    obtain ⟨group, hgroup, hname⟩ := hfrom name view hv
    rw [hlookup group hgroup name hname] at hv
    obtain ⟨position, source, slab', t, -, -, hslab', his, ht, hshape, hdtype, rfl⟩ :=
      slice_of_view h hsized hgroup hname hv
    cases hslab.symm.trans hslab'
    exact ⟨t, ht, his.slice_shape.trans hshape.symm, his.dtype.trans hdtype.symm⟩)
  refine ⟨writeBack axis slabs views written, ?_, ?_, ?_, ?_⟩
  · refine Fallible.bind_eq_ok.mpr ⟨views, hviews, ?_⟩
    by_cases htemplate : templateLayerId = some layerId
    · rw [if_pos htemplate] at hwritten ⊢
      exact Fallible.bind_eq_ok.mpr ⟨written, hwritten, rfl⟩
    · rw [if_neg htemplate] at hwritten ⊢
      exact Fallible.bind_eq_ok.mpr ⟨written, hwritten, rfl⟩
  · intro name hname
    refine lookup_writeBack_none (Option.eq_none_iff_forall_ne_some.mpr fun view hv => ?_)
    obtain ⟨group, hgroup, hmem⟩ := hfrom name view hv
    exact hname group hgroup hmem
  · intro group hgroup name hname hview
    exact lookup_writeBack_none ((hlookup group hgroup name hname).trans hview)
  · intro group hgroup name hname view slab t hview hslab ht
    have hv := (hlookup group hgroup name hname).trans hview
    have hdest : (narrowed axis slabs views).lookup name =
        some (slab.narrow axis view.start view.width) := by
      refine Dict.lookup_insertAll_entries hv ?_
      show Option.map _ (slabs.lookup name) = _
      rw [hslab]
      rfl
    obtain ⟨part, hpart, hsame⟩ := hparts name _ t hdest ht
    exact ⟨part, hsame, lookup_writeBack hv hslab hpart⟩

variable {layerId : Nat} {slabs' : Dict String (Weight α)}

/-- Staging keeps the slabs' shapes. -/
theorem Wrote.sized (hwrote : Wrote groups template (packed layerId) axis layerId slabs slabs')
    (h : Stackable groups template packed axis) (hsized : Sized groups template slabs axis) :
    Sized groups template slabs' axis := by
  intro group hgroup hlayers name hname source hsource
  obtain ⟨slab, hslab, hshape, hdtype⟩ := hsized group hgroup hlayers name hname source hsource
  cases hview : entryView template axis layerId (group, name) with
  | none =>
    exact ⟨slab, (hwrote.others group hgroup name hname hview).trans hslab, hshape, hdtype⟩
  | some view =>
    obtain ⟨position, source', slab', t, -, -, -, -, ht, -⟩ :=
      slice_of_view h hsized hgroup hname hview
    obtain ⟨part, -, hnew⟩ := hwrote.slice group hgroup name hname view slab t hview hslab ht
    exact ⟨_, hnew, hshape, hdtype⟩

/-- Staging fills the slices of its layer and keeps those of the others. -/
theorem Wrote.staged (hwrote : Wrote groups template (packed layerId) axis layerId slabs slabs')
    (h : Stackable groups template packed axis) (hsized : Sized groups template slabs axis)
    {done : Nat → Prop} (hstaged : Staged groups packed axis done slabs) :
    Staged groups packed axis (fun l => l = layerId ∨ done l) slabs' := by
  intro group hgroup name hname position l hdone hl t slab' ht hslab'
  obtain ⟨source, slab, u, hsource, hslab, his, hu, hushape, hudtype⟩ :=
    hsized.isSlab h hgroup (List.mem_of_getElem? hl) hname
  cases ht.symm.trans hu
  have hwidth : t.width axis = source.width axis := by
    unfold Tensor.width
    rw [hushape]
  cases hview : entryView template axis layerId (group, name) with
  | none =>
    rw [hwrote.others group hgroup name hname hview, hslab] at hslab'
    cases hslab'
    rcases hdone with rfl | hdone
    · -- a layer of the group has a slice
      have hposition := (positionOf_eq_some (h.distinct group hgroup)).mpr hl
      have hsome : entryView template axis l (group, name) =
          some ⟨position * source.width axis, source.width axis⟩ :=
        entryView_eq_some.mpr ⟨position, source, hposition, hsource, rfl⟩
      rw [hview] at hsome
      cases hsome
    · exact hstaged group hgroup name hname position l hdone hl t slab' ht hslab
  | some view =>
    obtain ⟨position', source', -, t', hl', hsource', -, -, ht', hshape', hdtype', rfl⟩ :=
      slice_of_view h hsized hgroup hname hview
    cases hsource.symm.trans hsource'
    obtain ⟨part, hsame, hnew⟩ := hwrote.slice group hgroup name hname _ slab t' hview hslab ht'
    cases hnew.symm.trans hslab'
    have hpart : part.width axis = source.width axis := by
      rw [hsame.width]
      unfold Tensor.width
      rw [hshape']
    rw [hwidth]
    by_cases heq : position = position'
    · subst heq
      cases hl.symm.trans hl'
      cases ht.symm.trans ht'
      refine Tensor.Same.trans ?_ hsame
      have hfill : ((slab.assign axis (position * source.width axis) part).narrow axis
          (position * source.width axis) (part.width axis)).Same part :=
        Tensor.narrow_assign his.axis_lt_slab
          (by rw [hpart, his.slice_shape, hsame.shape, hshape'])
          (by rw [hsame.dtype, hdtype', his.dtype])
      rwa [hpart] at hfill
    · have hne : l ≠ layerId := by
        rintro rfl
        obtain ⟨hi, hli⟩ := List.getElem?_eq_some_iff.mp hl
        obtain ⟨hj, hlj⟩ := List.getElem?_eq_some_iff.mp hl'
        exact heq (((h.distinct group hgroup).getElem_inj_iff).mp (hli.trans hlj.symm))
      have hbeside : ((slab.assign axis (position' * source.width axis) part).narrow axis
          (position * source.width axis) (source.width axis)).Same
          (slab.narrow axis (position * source.width axis) (source.width axis)) := by
        refine Tensor.narrow_assign_beside his.axis_lt_slab ?_
        rw [hpart]
        exact slices_disjoint heq
      have hold := hstaged group hgroup name hname position l (hdone.resolve_left hne) hl t slab
        ht hslab
      rw [hwidth] at hold
      exact hbeside.trans hold

/-- Every slab is a weight of a group with layers. -/
def Named (groups : List StackGroup) (slabs : Dict String (Weight α)) : Prop :=
  ∀ name slab, slabs.lookup name = some slab →
    ∃ group ∈ groups, group.layerIds ≠ [] ∧ name ∈ group.memberNames

theorem Wrote.named (hwrote : Wrote groups template (packed layerId) axis layerId slabs slabs')
    (hnamed : Named groups slabs) : Named groups slabs' := by
  intro name slab hslab
  by_cases hname : ∃ group ∈ groups, name ∈ group.memberNames
  · obtain ⟨group, hgroup, hmem⟩ := hname
    by_cases hlayers : group.layerIds = []
    · have hview : entryView template axis layerId (group, name) = none := by
        unfold entryView StackGroup.positionOf
        dsimp only
        rw [hlayers]
        rfl
      rw [hwrote.others group hgroup name hmem hview] at hslab
      exact hnamed name slab hslab
    · exact ⟨group, hgroup, hlayers, hmem⟩
  · push Not at hname
    rw [hwrote.unnamed name hname] at hslab
    exact hnamed name slab hslab

theorem named_allocateSlabs {uninitialised : String → List Nat → α}
    (h : allocateSlabs groups template axis uninitialised = .ok slabs) : Named groups slabs := by
  obtain ⟨-, -, h⟩ := Fallible.bind_eq_ok.mp h
  cases h
  intro name slab hslab
  rcases Dict.insertAll_from hslab with ⟨⟨group, name'⟩, hmem, hkey, -⟩ | ⟨-, hempty⟩
  · cases hkey
    obtain ⟨hgroup, hname⟩ := mem_entries.mp hmem
    obtain ⟨hgroup, hlayers⟩ := List.mem_filter.mp hgroup
    exact ⟨group, hgroup, of_decide_eq_true hlayers, hname⟩
  · rw [AList.lookup_empty] at hempty
    cases hempty

/-- Staging the layers of any order, with every layer of the groups among them. -/
theorem stage_all {packInto : Nat → Dict String (Weight α) →
      Except String (Dict String (Weight α))} {templateLayerId : Option Nat} {order : List Nat}
    (h : Stackable groups template packed axis)
    (hwrites : ∀ l ∈ order, Writes (packed l) (if templateLayerId = some l then
      copyPackedLayer casts template else packInto l))
    (hsized : Sized groups template slabs axis) (hnamed : Named groups slabs) :
    ∃ slabs', order.foldlM (stageLayer casts groups template axis packInto templateLayerId) slabs =
        .ok slabs' ∧ Sized groups template slabs' axis ∧ Named groups slabs' ∧
      Staged groups packed axis (· ∈ order) slabs' := by
  obtain ⟨slabs', hrun, -, hsized', hnamed', hstaged⟩ := Fallible.foldlM_total
    (I := fun rest (slabs : Dict String (Weight α)) => (∀ l ∈ rest, l ∈ order) ∧
      Sized groups template slabs axis ∧ Named groups slabs ∧
      Staged groups packed axis (fun l => l ∈ order ∧ l ∉ rest) slabs)
    (f := stageLayer casts groups template axis packInto templateLayerId)
    (by
      rintro l rest slabs ⟨hmem, hsized, hnamed, hstaged⟩
      obtain ⟨slabs', hstage, hwrote⟩ :=
        stageLayer_ok h (hwrites l (hmem l List.mem_cons_self)) hsized
      refine ⟨slabs', hstage, fun l' hl' => hmem l' (List.mem_cons_of_mem l hl'),
        hwrote.sized h hsized, hwrote.named hnamed, ?_⟩
      intro group hgroup name hname position l' hdone
      refine hwrote.staged h hsized hstaged group hgroup name hname position l' ?_
      by_cases heq : l' = l
      · exact .inl heq
      · exact .inr ⟨hdone.1, by simp [heq, hdone.2]⟩)
    order slabs ⟨fun _ hl => hl, hsized, hnamed, fun _ _ _ _ _ _ hdone => absurd hdone.1 hdone.2⟩
  refine ⟨slabs', hrun, hsized', hnamed', ?_⟩
  intro group hgroup name hname position l hdone
  exact hstaged group hgroup name hname position l ⟨hdone, List.not_mem_nil⟩

/-- The slabs, against the layers packed on their own. -/
structure Stacked (groups : List StackGroup) (template : Dict String (Weight α))
    (packed : Nat → Dict String (Weight α)) (axis : Nat) (slabs : Dict String (Weight α)) :
    Prop where
  /-- A slab is the concatenation of its layers, in the order of the group. -/
  cat : ∀ group ∈ groups, group.layerIds ≠ [] → ∀ name ∈ group.memberNames, ∃ slab first rest,
    slabs.lookup name = some slab ∧
    List.Forall₂ (fun l t => (packed l).lookup name = some t) group.layerIds (first :: rest) ∧
    slab.Same (Tensor.cat axis first rest)
  /-- Each place of a slab is in the slice of one layer. -/
  tiled : ∀ name slab, slabs.lookup name = some slab → ∀ i < slab.width axis, ∃! l : Nat,
    ∃ views view, destinationsFor groups template axis slabs l = .ok views ∧
      views.lookup name = some view ∧ view.start ≤ i ∧ i < view.start + view.width

/-- The layers of a group, packed on their own. -/
theorem parts_of_group (h : Stackable groups template packed axis) {group : StackGroup}
    (hgroup : group ∈ groups) {name : String} (hname : name ∈ group.memberNames)
    {source : Weight α} (hsource : template.lookup name = some source) :
    ∃ parts, List.Forall₂ (fun l t => (packed l).lookup name = some t ∧
      t.shape = source.shape ∧ t.dtype = source.dtype) group.layerIds parts :=
  Fallible.exists_forall₂ fun l hl => h.fits group hgroup l hl name hname source hsource

/-- Slabs whose slices are the layers are the concatenation of the layers. -/
theorem stacked_of_staged (h : Stackable groups template packed axis)
    (hsized : Sized groups template slabs axis) (hnamed : Named groups slabs)
    (hstaged : Staged groups packed axis (fun l => ∃ group ∈ groups, l ∈ group.layerIds) slabs) :
    Stacked groups template packed axis slabs where
  cat group hgroup hlayers name hname := by
    obtain ⟨first, hfirst⟩ := List.exists_mem_of_ne_nil _ hlayers
    obtain ⟨source, slab, -, hsource, hslab, his, -⟩ := hsized.isSlab h hgroup hfirst hname
    obtain ⟨parts, hparts⟩ := parts_of_group h hgroup hname hsource
    have hlen := hparts.length_eq
    cases parts with
    | nil => exact absurd (List.length_eq_zero_iff.mp hlen) hlayers
    | cons part rest =>
      have hwidth : ∀ p ∈ part :: rest, p.width axis = source.width axis := by
        intro p hp
        obtain ⟨l, -, -, hshape, -⟩ := Fallible.forall₂_mem_right hparts hp
        unfold Tensor.width
        rw [hshape]
      refine ⟨slab, part, rest, hslab, hparts.imp fun _ _ hp => hp.1,
        Tensor.same_cat his.axis_lt_slab hwidth ?_ ?_⟩
      · rw [his.width, hlen, Nat.mul_comm]
        rfl
      · intro j hj
        have hlayer : j < group.layerIds.length := by omega
        have hpart := hparts.get hlayer hj
        have hslice := hstaged group hgroup name hname j group.layerIds[j]
          ⟨group, hgroup, List.getElem_mem hlayer⟩ (List.getElem?_eq_getElem hlayer) _ slab
          hpart.1 hslab
        rwa [hwidth _ (List.get_mem _ ⟨j, hj⟩)] at hslice
  tiled name slab hslab i hi := by
    obtain ⟨group, hgroup, hlayers, hname⟩ := hnamed name slab hslab
    obtain ⟨first, hfirst⟩ := List.exists_mem_of_ne_nil _ hlayers
    obtain ⟨source, slab', -, hsource, hslab', his, -⟩ := hsized.isSlab h hgroup hfirst hname
    cases hslab.symm.trans hslab'
    rw [his.width] at hi
    have hpos : 0 < source.width axis := by
      rw [Nat.pos_iff_ne_zero]
      rintro hzero
      rw [hzero, Nat.zero_mul] at hi
      omega
    have hdiv : i / source.width axis < group.layerIds.length := Nat.div_lt_of_lt_mul hi
    have hdm := Nat.div_add_mod i (source.width axis)
    have hmod := Nat.mod_lt i hpos
    refine ⟨group.layerIds[i / source.width axis], ?_, ?_⟩
    · obtain ⟨views, hviews, hlookup, -⟩ :=
        destinationsFor_ok h hsized group.layerIds[i / source.width axis]
      have hposition := (positionOf_eq_some (h.distinct group hgroup)).mpr
        (List.getElem?_eq_getElem hdiv)
      refine ⟨views, _, hviews, (hlookup group hgroup name hname).trans
        (entryView_eq_some.mpr ⟨_, source, hposition, hsource, rfl⟩), ?_, ?_⟩
      · show i / source.width axis * source.width axis ≤ i
        rw [Nat.mul_comm]
        omega
      · show i < i / source.width axis * source.width axis + source.width axis
        rw [Nat.mul_comm]
        omega
    · rintro l ⟨views, view, hviews, hview, hstart, hend⟩
      obtain ⟨views', hviews', hlookup, -⟩ := destinationsFor_ok h hsized l
      cases hviews.symm.trans hviews'
      rw [hlookup group hgroup name hname] at hview
      obtain ⟨position, source', -, -, hl, hsource', -, -, -, -, -, rfl⟩ :=
        slice_of_view h hsized hgroup hname hview
      cases hsource.symm.trans hsource'
      have hposition : i / source.width axis = position :=
        Nat.div_eq_of_lt_le hstart (by rwa [Nat.succ_mul])
      obtain ⟨hlt, hll⟩ := List.getElem?_eq_some_iff.mp hl
      subst hposition
      exact hll.symm

/-- The place of every expert in a packed tensor, and the expert there. -/
structure ExpertsPlaced (casts : Casts α) (policy : ExpertParallel)
    (lookup : Nat → Except String (Weight α)) (dtype : DType) (t : Weight α) : Prop where
  rows : ∃ shape, ExpertParallel.Rows casts policy lookup dtype shape t
  once : ∀ e < policy.nExperts, ∃! p : Nat × Nat, p.1 < policy.ranks ∧ ∃ ids,
    policy.idsFor p.1 = .ok ids ∧ ids[p.2]? = some e

/-- The experts are split over a rank count that divides them. -/
def Split (policy : ExpertParallel) : Prop :=
  ∃ ranks n mismatchError, 0 < n ∧ ranks ∣ n ∧
    policy = deepseekV4ExpertParallel ranks n mismatchError

variable {zero one : α} {inputs : PackInputs α} {context : LayerContext} {rules : List LayerRule}
  {own : Dict String (Weight α)}

theorem placed_of_split {policy : ExpertParallel} (h : Split policy) : Placed policy := by
  obtain ⟨ranks, n, mismatchError, hn, hdvd, rfl⟩ := h
  exact placed_deepseekV4 hn hdvd

/-- Packing into destinations writes what is packed without. -/
theorem writes_packLayer (hnames : (rules.map (·.name)).Nodup)
    (hexperts : ∀ policy, inputs.expertPolicy = some policy → Split policy)
    (h : packLayer casts zero one inputs context rules none = .ok own) :
    Writes own fun destinations =>
      packLayer casts zero one inputs context rules (some destinations) := by
  intro destinations hfits
  refine packLayer_into hnames (fun policy hp => placed_of_split (hexperts policy hp)) h ?_
  intro name destination t hdest ht
  obtain ⟨t', ht', hshape, hdtype⟩ := hfits name destination hdest
  cases ht.symm.trans ht'
  exact ⟨hshape, hdtype⟩

theorem expertsPlaced_packLayer (hnames : (rules.map (·.name)).Nodup) {policy : ExpertParallel}
    (hpolicy : inputs.expertPolicy = some policy) (hsplit : Split policy)
    (h : packLayer casts zero one inputs context rules none = .ok own)
    {name source : String} {dtype : DType} (hrule : .expert name source dtype ∈ rules) :
    ∃ t, own.lookup name = some t ∧
      ExpertsPlaced casts policy (lookupExpert inputs context source) dtype t := by
  obtain ⟨t, ht, hlookup⟩ := (packLayer_none hnames h).1 _ hrule
  refine ⟨t, hlookup, ?_, fun e he => ?_⟩
  · unfold packRule at ht
    rw [hpolicy] at ht
    have hplaced := placed_of_split hsplit
    exact ExpertParallel.rows_of_apply hplaced.ranks_pos hplaced.share ht
  · obtain ⟨ranks, n, mismatchError, hn, hdvd, rfl⟩ := hsplit
    exact expert_placed_once hn hdvd he

/-- The slabs of layers staged in place, in any order, are the concatenations of the layers
packed on their own. -/
theorem stackLayers_in_place {zero one : α} {inputs : Nat → PackInputs α}
    {context : Nat → LayerContext} {rules : List LayerRule} {order : List Nat}
    {templateLayerId : Option Nat} {resolved : List StackGroup}
    (uninitialised : String → List Nat → α)
    (hresolved : resolveMembers groups template = .ok resolved)
    (hnames : (rules.map (·.name)).Nodup)
    (hexperts : ∀ l ∈ order, ∀ policy, (inputs l).expertPolicy = some policy → Split policy)
    (hpacked : ∀ l ∈ order,
      packLayer casts zero one (inputs l) (context l) rules none = .ok (packed l))
    (htemplate : ∀ l ∈ order, templateLayerId = some l → packed l = template)
    (hstackable : Stackable resolved template packed axis)
    (hstaged : ∀ group ∈ resolved, ∀ l ∈ group.layerIds, l ∈ order) :
    (∃ slabs, stackLayers casts groups template axis (fun l destinations =>
        packLayer casts zero one (inputs l) (context l) rules (some destinations))
        templateLayerId uninitialised order = .ok slabs ∧
      Stacked resolved template packed axis slabs) ∧
    ∀ l ∈ order, (Writes (packed l) fun destinations =>
        packLayer casts zero one (inputs l) (context l) rules (some destinations)) ∧
      ∀ policy, (inputs l).expertPolicy = some policy → ∀ name source dtype,
        .expert name source dtype ∈ rules → ∃ t, (packed l).lookup name = some t ∧
          ExpertsPlaced casts policy (lookupExpert (inputs l) (context l) source) dtype t := by
  refine ⟨?_, fun l hl => ⟨writes_packLayer hnames (hexperts l hl) (hpacked l hl),
    fun policy hpolicy name source dtype hrule => expertsPlaced_packLayer hnames hpolicy
      (hexperts l hl policy hpolicy) (hpacked l hl) hrule⟩⟩
  obtain ⟨slabs, hslabs, hsized⟩ := allocateSlabs_ok hstackable uninitialised
  have hwrites : ∀ l ∈ order, Writes (packed l) (if templateLayerId = some l then
      copyPackedLayer casts template else fun destinations =>
        packLayer casts zero one (inputs l) (context l) rules (some destinations)) := by
    intro l hl
    split
    next htl =>
      rw [htemplate l hl htl]
      exact writes_copyPackedLayer casts template
    next => exact writes_packLayer hnames (hexperts l hl) (hpacked l hl)
  obtain ⟨slabs', hrun, hsized', hnamed', hall⟩ :=
    stage_all hstackable hwrites hsized (named_allocateSlabs hslabs)
  refine ⟨slabs', ?_, stacked_of_staged hstackable hsized' hnamed' ?_⟩
  · exact Fallible.bind_eq_ok.mpr
      ⟨resolved, hresolved, Fallible.bind_eq_ok.mpr ⟨slabs, hslabs, hrun⟩⟩
  · rintro group hgroup name hname position l ⟨group', hgroup', hl⟩
    exact hall group hgroup name hname position l (hstaged group' hgroup' l hl)

end Stacking

namespace TwoLayers

def casts : Casts Nat := ⟨fun _ _ a => a, fun _ _ => rfl⟩

def rules : List LayerRule := [.layer "w" "w" .float32, .expert "e" "w1" .int8]

/-- Two experts on two ranks; each layer holds its own number. -/
def inputs (layerId : Nat) : PackInputs Nat where
  raw _ := some ⟨[1], .float32, fun _ => layerId⟩
  policy := .replicate { ranks := 2 }
  expertPolicy := some (deepseekV4ExpertParallel 2 2 defaultMismatchError)

def context (layerId : Nat) : LayerContext := { layerId, pre := "layers", ranks := 2 }

/-- A layer packed on its own. -/
def packed (layerId : Nat) : Dict String (Weight Nat) :=
  match packLayer casts 0 1 (inputs layerId) (context layerId) rules none with
  | .ok packed => packed
  | .error _ => ∅

def groups : List StackGroup := [{ id := "fwd", members := none, layerIds := [0, 1] }]

/-- The group with its members. -/
def resolved : List StackGroup :=
  [{ id := "fwd", members := some ["w", "e"], layerIds := [0, 1] }]

theorem resolveMembers_groups : resolveMembers groups (packed 0) = .ok resolved := rfl

theorem packLayer_eq (layerId : Nat) :
    packLayer casts 0 1 (inputs layerId) (context layerId) rules none = .ok (packed layerId) := rfl

/-- Both layers pack the weights alike. -/
theorem lookup_packed (layerId : Nat) {name : String} (hname : name = "w" ∨ name = "e") :
    ∃ t, (packed layerId).lookup name = some t ∧
      t.shape = (if name = "w" then [2, 1] else [2, 1, 1]) ∧
      t.dtype = if name = "w" then .float32 else .int8 := by
  rcases hname with rfl | rfl
  · exact ⟨_, rfl, rfl, rfl⟩
  · exact ⟨_, rfl, rfl, rfl⟩

theorem stackable : Stackable resolved (packed 0) packed 1 where
  distinct := by decide
  owned group hgroup group' hgroup' name _ _ := by
    rw [List.mem_singleton.mp hgroup, List.mem_singleton.mp hgroup']
  ranked group hgroup _ name hname := by
    cases List.mem_singleton.mp hgroup
    have hname' : name = "w" ∨ name = "e" := by simpa [StackGroup.memberNames] using hname
    obtain ⟨t, ht, hshape, -⟩ := lookup_packed 0 hname'
    refine ⟨t, ht, ?_⟩
    rw [hshape]
    split <;> decide
  fits group hgroup layerId _ name hname source hsource := by
    cases List.mem_singleton.mp hgroup
    have hname' : name = "w" ∨ name = "e" := by simpa [StackGroup.memberNames] using hname
    obtain ⟨t, ht, hshape, hdtype⟩ := lookup_packed layerId hname'
    obtain ⟨t₀, ht₀, hshape₀, hdtype₀⟩ := lookup_packed 0 hname'
    cases hsource.symm.trans ht₀
    exact ⟨t, ht, hshape.trans hshape₀.symm, hdtype.trans hdtype₀.symm⟩

end TwoLayers

/-- Two layers, the second one first. -/
theorem stackLayers_in_place_two : ∃ slabs, stackLayers TwoLayers.casts TwoLayers.groups
      (TwoLayers.packed 0) 1 (fun l destinations => packLayer TwoLayers.casts 0 1
        (TwoLayers.inputs l) (TwoLayers.context l) TwoLayers.rules (some destinations))
      (some 0) (fun _ _ => 99) [1, 0] = .ok slabs ∧
    Stacked TwoLayers.resolved (TwoLayers.packed 0) TwoLayers.packed 1 slabs :=
  (stackLayers_in_place (fun _ _ => 99) TwoLayers.resolveMembers_groups (by decide)
    (fun _ _ policy hpolicy => ⟨2, 2, defaultMismatchError, by decide, by decide,
      (Option.some.inj hpolicy).symm⟩)
    (fun l _ => TwoLayers.packLayer_eq l)
    (fun l _ hl => by rw [← Option.some.inj hl])
    TwoLayers.stackable (by decide)).1

namespace SharedWeight

/-- Two groups that both claim the weight `w`. -/
def groups : List StackGroup :=
  [{ id := "a", members := some ["w"], layerIds := [0, 1] },
    { id := "b", members := some ["w"], layerIds := [1, 2] }]

def slabs : Except String (Dict String (Weight Nat)) :=
  stackLayers TwoLayers.casts groups (TwoLayers.packed 0) 1 (fun l destinations =>
    packLayer TwoLayers.casts 0 1 (TwoLayers.inputs l) (TwoLayers.context l) TwoLayers.rules
      (some destinations)) none (fun _ _ => 99) [1, 2, 0]

/-- The slab of a weight of two groups is neither group's concatenation. -/
theorem shared_weight_mixed : ∃ stacked slab first second third,
    slabs = .ok stacked ∧ stacked.lookup "w" = some slab ∧
    (TwoLayers.packed 0).lookup "w" = some first ∧ (TwoLayers.packed 1).lookup "w" = some second ∧
    (TwoLayers.packed 2).lookup "w" = some third ∧
    ¬ slab.Same (Tensor.cat 1 first [second]) ∧ ¬ slab.Same (Tensor.cat 1 second [third]) := by
  -- layer 2 was the last to write the second slice, layer 0 the first one
  have hsecond : Tensor.InRange [2, 2] [0, 1] := .cons (by decide) (.cons (by decide) .nil)
  have hfirst : Tensor.InRange [2, 2] [0, 0] := .cons (by decide) (.cons (by decide) .nil)
  refine ⟨_, _, _, _, _, rfl, rfl, rfl, rfl, rfl, fun h => ?_, fun h => ?_⟩
  · exact absurd (show 2 = 1 from h.get [0, 1] hsecond) (by decide)
  · exact absurd (show 0 = 1 from h.get [0, 0] hfirst) (by decide)

end SharedWeight

end PyptoServing.Weights
