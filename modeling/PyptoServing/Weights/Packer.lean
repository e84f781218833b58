import PyptoServing.Lib.Dict
import PyptoServing.Weights.Shard

/-!
# Packing a layer

The rules of a layer read its raw tensors and pack them, into destinations when these are
given. A destination of the packed shape receives the same values.
-/
namespace PyptoServing.Weights

open Lib

/-- A dimension, literal or named. -/
inductive Dim
  | lit (n : Nat)
  | named (name : String)

/-- `LayerContext`. -/
structure LayerContext where
  layerId : Nat
  pre : String
  ranks : Nat
  compressRatio : Nat := 0
  nRoutedExperts : Nat := 0
  includeTid2eid : Bool := false
  includeGateBias : Bool := false
  dims : List (String × Nat) := []

/-- The flags that `required_when` names. -/
inductive Requirement
  | includeTid2eid
  | includeGateBias

inductive DefaultFill
  | zeros
  | ones

/-- `LayerRule`. -/
inductive LayerRule
  /-- `LayerWeightRule`. -/
  | layer (name source : String) (dtype : DType) (transpose : Bool := false)
      (reshapeGroups : Option Nat := none) (flattenToRow : Bool := false)
  /-- `OptionalWeightRule`. -/
  | optional (name source : String) (dtype : DType) (absentShape : List Dim)
      (enabledRatios : List Nat) (transpose : Bool := false)
  /-- `DefaultedWeightRule`. -/
  | defaulted (name source : String) (dtype : DType) (defaultShape : List Dim)
      (requiredWhen : Option Requirement := none) (defaultFill : DefaultFill := .zeros)
      (flattenToRow : Bool := false)
  /-- `SyntheticWeightRule`. -/
  | synthetic (name : String) (dtype : DType) (factory : String)
  /-- `ExpertWeightRule`. -/
  | expert (name source : String) (dtype : DType)

def LayerRule.name : LayerRule → String
  | .layer name .. => name
  | .optional name .. => name
  | .defaulted name .. => name
  | .synthetic name .. => name
  | .expert name .. => name

namespace LayerContext
variable (context : LayerContext)

/-- `source_name`. -/
def sourceName (suffix : String) : String := s!"{context.pre}.{suffix}"

def requires : Requirement → Bool
  | .includeTid2eid => context.includeTid2eid
  | .includeGateBias => context.includeGateBias

/-- A named dimension is one of `dims`, or a field of the context. -/
def resolveDim : Dim → Except String Nat
  | .lit n => .ok n
  | .named name =>
    match context.dims.lookup name with
    | some n => .ok n
    | none =>
      match name with
      | "layer_id" => .ok context.layerId
      | "ranks" => .ok context.ranks
      | "compress_ratio" => .ok context.compressRatio
      | "n_routed_experts" => .ok context.nRoutedExperts
      | _ => .error s!"'LayerContext' object has no attribute '{name}'"

/-- `resolve_shape`. -/
def resolveShape (shape : List Dim) : Except String (List Nat) := shape.mapM context.resolveDim

end LayerContext

/-- What a layer is packed from: the raw tensors, the policies and the factories. -/
structure PackInputs (α : Type) where
  raw : String → Option (Weight α)
  policy : RankPolicy
  expertPolicy : Option ExpertParallel := none
  factories : String → Option (Weight α) := fun _ => none
  missingSourceError : String → String := fun name => s!"missing raw layer tensor: {name}"
  missingExpertError : String → String := fun name => s!"missing raw expert tensor: {name}"

section Pack
variable {α : Type} (casts : Casts α) (zero one : α) (inputs : PackInputs α)
  (context : LayerContext)

/-- `_reshaped_groups`. -/
def reshapedGroups (name : String) (weight : Weight α) (groups : Nat) :
    Except String (Weight α) :=
  match weight.shape with
  | [rows, cols] =>
    if rows % groups ≠ 0 then .error s!"{name} first dimension {rows} must divide by {groups}"
    else .ok (weight.reshape [groups, rows / groups, cols])
  | _ => .error s!"{name} weight must be rank-2"

/-- `tensor.reshape(1, -1)`. -/
def toRow (tensor : Weight α) : Weight α := tensor.reshape [1, tensor.shape.prod]

/-- A tensor ready for the policy, or the zeros of an inactive branch. -/
inductive Source (α : Type)
  | tensor (t : Weight α)
  | absent (shape : List Nat)

/-- What stands for a source that the checkpoint omits. -/
def defaultTensor (source : String) (dtype : DType) (defaultShape : List Dim)
    (requiredWhen : Option Requirement) (defaultFill : DefaultFill) : Except String (Weight α) :=
  if requiredWhen.any context.requires then
    .error (inputs.missingSourceError (context.sourceName source))
  else do
    let shape ← context.resolveShape defaultShape
    return Tensor.full shape dtype (match defaultFill with
      | .zeros => zero
      | .ones => one)

/-- The tensor that a rule other than an expert one packs. -/
def ruleSource : LayerRule → Except String (Source α)
  | .layer name source _ transpose reshapeGroups flattenToRow => do
    let sourceName := context.sourceName source
    let tensor ← match inputs.raw sourceName with
      | none => .error (inputs.missingSourceError sourceName)
      | some tensor => .ok tensor
    let tensor ← match reshapeGroups with
      | none => .ok tensor
      | some groups => reshapedGroups name tensor groups
    let tensor ← if transpose then tensor.transpose else .ok tensor
    return .tensor (if flattenToRow then toRow tensor else tensor)
  | .optional _ source _ absentShape enabledRatios transpose =>
    let tensor :=
      if context.compressRatio ∈ enabledRatios then inputs.raw (context.sourceName source)
      else none
    match tensor with
    | none => return .absent (← context.resolveShape absentShape)
    | some tensor => return .tensor (← if transpose then tensor.transpose else .ok tensor)
  | .defaulted _ source dtype defaultShape requiredWhen defaultFill flattenToRow => do
    let tensor ← match inputs.raw (context.sourceName source) with
      | some tensor => .ok tensor
      | none =>
        defaultTensor zero one inputs context source dtype defaultShape requiredWhen defaultFill
    return .tensor (if flattenToRow then toRow tensor else tensor)
  | .synthetic name _ factory =>
    match inputs.factories factory with
    | none => .error s!"{name} needs the '{factory}' factory but none was given"
    | some tensor => .ok (.tensor tensor)
  | .expert .. => .error "unsupported weight rule: ExpertWeightRule"

/-- The lookup of one expert. -/
def lookupExpert (source : String) (expertId : Nat) : Except String (Weight α) :=
  let name := context.sourceName s!"ffn.experts.{expertId}.{source}"
  match inputs.raw name with
  | none => .error (inputs.missingExpertError name)
  | some tensor => .ok tensor

/-- `_zero_filled`. -/
def zeroFilled (mismatchError : MismatchError) (name : String) (shape : List Nat) (dtype : DType)
    (ranks : Nat) : Option (Weight α) → Except String (Weight α)
  | none => .ok (Tensor.full (ranks :: shape) dtype zero)
  | some destination => do
    checkDestination mismatchError name (ranks :: shape) dtype destination
    return { destination with get := fun _ => zero }

def LayerRule.dtype : LayerRule → DType
  | .layer _ _ dtype .. => dtype
  | .optional _ _ dtype .. => dtype
  | .defaulted _ _ dtype .. => dtype
  | .synthetic _ dtype _ => dtype
  | .expert _ _ dtype => dtype

/-- One rule of `pack_layer`. -/
def packRule (rule : LayerRule) (destination : Option (Weight α)) : Except String (Weight α) :=
  match rule with
  | .expert name source dtype =>
    match inputs.expertPolicy with
    | none => .error s!"{name} needs an expert policy but none was given"
    | some policy => policy.apply casts name (lookupExpert inputs context source) dtype destination
  | rule => do
    match ← ruleSource zero one inputs context rule with
    | .absent shape =>
      zeroFilled zero inputs.policy.mismatchError rule.name shape rule.dtype
        (← inputs.policy.ranks) destination
    | .tensor t => inputs.policy.apply casts rule.name t (some rule.dtype) destination

/-- `pack_layer`: a rule without a destination is skipped when destinations are given. -/
def packLayer (rules : List LayerRule) (destinations : Option (Dict String (Weight α))) :
    Except String (Dict String (Weight α)) :=
  rules.foldlM (fun packed rule =>
    match destinations with
    | none => do return packed.insert rule.name (← packRule casts zero one inputs context rule none)
    | some destinations =>
      match destinations.lookup rule.name with
      | none => .ok packed
      | some destination => do
        return packed.insert rule.name
          (← packRule casts zero one inputs context rule (some destination))) ∅

/-- Every rank owns its share of the experts, and expert 0 is owned. -/
structure Placed (policy : ExpertParallel) : Prop where
  ranks_pos : 0 < policy.ranks
  share : ∀ rank < policy.ranks, ∃ ids, policy.idsFor rank = .ok ids ∧
    ids.length = policy.nExperts / policy.ranks
  first : ∃ rank < policy.ranks, ∃ ids, policy.idsFor rank = .ok ids ∧ 0 ∈ ids

theorem placed_deepseekV4 {ranks n : Nat} {mismatchError : MismatchError} (hn : 0 < n)
    (hdvd : ranks ∣ n) : Placed (deepseekV4ExpertParallel ranks n mismatchError) where
  ranks_pos := Nat.pos_of_dvd_of_pos hdvd hn
  share rank hrank := ⟨_, idsFor_ok hn hdvd hrank, List.length_range'⟩
  first := by
    obtain ⟨⟨rank, l⟩, ⟨hrank, ids, hids, hl⟩, -⟩ := @expert_placed_once _ _ mismatchError hn hdvd _ hn
    exact ⟨rank, hrank, ids, hids, List.mem_of_getElem? hl⟩

variable {casts zero one inputs context}

theorem zeroFilled_into {mismatchError : MismatchError} {name : String} {shape : List Nat}
    {dtype : DType} {ranks : Nat} {t destination : Weight α}
    (h : zeroFilled zero mismatchError name shape dtype ranks none = .ok t)
    (hshape : destination.shape = t.shape) (hdtype : destination.dtype = t.dtype) :
    ∃ t', zeroFilled zero mismatchError name shape dtype ranks (some destination) = .ok t' ∧
      t'.Same t := by
  cases h
  exact ⟨_, Fallible.bind_eq_ok.mpr ⟨(), checkDestination_ok hshape hdtype, rfl⟩, hshape, hdtype,
    fun _ _ => rfl⟩

/-- One rule packs the same into a destination of the packed shape. -/
theorem packRule_into {rule : LayerRule} {t destination : Weight α}
    (hexperts : ∀ policy, inputs.expertPolicy = some policy → Placed policy)
    (h : packRule casts zero one inputs context rule none = .ok t)
    (hshape : destination.shape = t.shape) (hdtype : destination.dtype = t.dtype) :
    ∃ t', packRule casts zero one inputs context rule (some destination) = .ok t' ∧
      t'.Same t := by
  have hother (hrule : ∀ destination, packRule casts zero one inputs context rule destination = do
      match ← ruleSource zero one inputs context rule with
      | .absent shape =>
        zeroFilled zero inputs.policy.mismatchError rule.name shape rule.dtype
          (← inputs.policy.ranks) destination
      | .tensor t => inputs.policy.apply casts rule.name t (some rule.dtype) destination) :
      ∃ t', packRule casts zero one inputs context rule (some destination) = .ok t' ∧
        t'.Same t := by
    rw [hrule] at h ⊢
    obtain ⟨source, hsource, h⟩ := Fallible.bind_eq_ok.mp h
    cases source with
    | tensor source =>
      obtain ⟨t', ht', hsame⟩ := inputs.policy.apply_into h hshape hdtype
      exact ⟨t', Fallible.bind_eq_ok.mpr ⟨_, hsource, ht'⟩, hsame⟩
    | absent shape =>
      obtain ⟨ranks, hranks, h⟩ := Fallible.bind_eq_ok.mp h
      obtain ⟨t', ht', hsame⟩ := zeroFilled_into h hshape hdtype
      exact ⟨t', Fallible.bind_eq_ok.mpr ⟨_, hsource, Fallible.bind_eq_ok.mpr ⟨_, hranks, ht'⟩⟩,
        hsame⟩
  cases rule with
  | expert name source dtype =>
    unfold packRule at h ⊢
    cases hpolicy : inputs.expertPolicy with
    | none =>
      rw [hpolicy] at h
      cases h
    | some policy =>
      rw [hpolicy] at h
      have hplaced := hexperts policy hpolicy
      exact ExpertParallel.apply_into hplaced.ranks_pos hplaced.share hplaced.first h hshape hdtype
  | layer => exact hother fun _ => rfl
  | optional => exact hother fun _ => rfl
  | defaulted => exact hother fun _ => rfl
  | synthetic => exact hother fun _ => rfl

/-- A layer packed on its own holds what its rules pack. -/
theorem packLayer_none {rules : List LayerRule} {packed : Dict String (Weight α)}
    (hnodup : (rules.map (·.name)).Nodup)
    (h : packLayer casts zero one inputs context rules none = .ok packed) :
    (∀ rule ∈ rules, ∃ t, packRule casts zero one inputs context rule none = .ok t ∧
      packed.lookup rule.name = some t) ∧
    ∀ name, name ∉ rules.map (·.name) → packed.lookup name = none := by
  have hall : ∀ (rules : List LayerRule) (d : Dict String (Weight α)),
      (rules.map (·.name)).Nodup → rules.foldlM (fun (packed : Dict String (Weight α)) rule => do
        return packed.insert rule.name (← packRule casts zero one inputs context rule none)) d =
          .ok packed →
      (∀ rule ∈ rules, ∃ t, packRule casts zero one inputs context rule none = .ok t ∧
        packed.lookup rule.name = some t) ∧
      ∀ name, name ∉ rules.map (·.name) → packed.lookup name = d.lookup name := by
    intro rules
    induction rules with
    | nil =>
      intro d _ h
      cases h
      exact ⟨by simp, fun _ _ => rfl⟩
    | cons rule rules ih =>
      intro d hnodup h
      rw [List.map_cons, List.nodup_cons] at hnodup
      rw [List.foldlM_cons, Fallible.bind_eq_ok] at h
      obtain ⟨d', hd', h⟩ := h
      obtain ⟨t, ht, hd'⟩ := Fallible.bind_eq_ok.mp hd'
      cases hd'
      obtain ⟨hrules, hothers⟩ := ih _ hnodup.2 h
      refine ⟨List.forall_mem_cons.mpr ⟨⟨t, ht, ?_⟩, hrules⟩, fun name hname => ?_⟩
      · rw [hothers _ hnodup.1, AList.lookup_insert]
      · rw [List.map_cons, List.mem_cons, not_or] at hname
        rw [hothers name hname.2, AList.lookup_insert_ne hname.1]
  obtain ⟨hrules, hothers⟩ := hall rules ∅ hnodup h
  exact ⟨hrules, fun name hname => (hothers name hname).trans (AList.lookup_empty name)⟩

/-- A layer packed into destinations of the packed shapes writes each of them as it packs it
without destinations. -/
theorem packLayer_into {rules : List LayerRule} {packed destinations : Dict String (Weight α)}
    (hnodup : (rules.map (·.name)).Nodup)
    (hexperts : ∀ policy, inputs.expertPolicy = some policy → Placed policy)
    (h : packLayer casts zero one inputs context rules none = .ok packed)
    (hfits : ∀ name destination t, destinations.lookup name = some destination →
      packed.lookup name = some t → destination.shape = t.shape ∧ destination.dtype = t.dtype) :
    ∃ out, packLayer casts zero one inputs context rules (some destinations) = .ok out ∧
      ∀ name destination t, destinations.lookup name = some destination →
        packed.lookup name = some t → ∃ t', out.lookup name = some t' ∧ t'.Same t := by
  obtain ⟨hrules, hothers⟩ := packLayer_none hnodup h
  obtain ⟨out, hout, -, hdone⟩ := Fallible.foldlM_total
    (I := fun rest (out : Dict String (Weight α)) => (∀ rule ∈ rest, rule ∈ rules) ∧
      ∀ rule ∈ rules, rule ∉ rest →
      ∀ destination t, destinations.lookup rule.name = some destination →
        packed.lookup rule.name = some t → ∃ t', out.lookup rule.name = some t' ∧ t'.Same t)
    (f := fun (packed : Dict String (Weight α)) rule =>
      match destinations.lookup rule.name with
      | none => .ok packed
      | some destination => do
        return packed.insert rule.name
          (← packRule casts zero one inputs context rule (some destination)))
    (by
      rintro rule rest out ⟨hmem, hdone⟩
      have hrule := hmem rule (by simp)
      have hrest : ∀ rule ∈ rest, rule ∈ rules := fun r hr => hmem r (by simp [hr])
      cases hdest : destinations.lookup rule.name with
      | none =>
        refine ⟨out, rfl, hrest, fun r hr hnot d t hd ht => ?_⟩
        by_cases heq : r = rule
        · subst heq
          rw [hdest] at hd
          cases hd
        · exact hdone r hr (by simp [heq, hnot]) d t hd ht
      | some destination =>
        obtain ⟨t, ht, hlookup⟩ := hrules rule hrule
        obtain ⟨hshape, hdtype⟩ := hfits rule.name destination t hdest hlookup
        obtain ⟨t', ht', hsame⟩ := packRule_into hexperts ht hshape hdtype
        refine ⟨_, Fallible.bind_eq_ok.mpr ⟨t', ht', rfl⟩, hrest, fun r hr hnot d u hd hu => ?_⟩
        by_cases heq : r.name = rule.name
        · rw [heq, hlookup] at hu
          cases hu
          exact ⟨t', by rw [heq, AList.lookup_insert], hsame⟩
        · rw [AList.lookup_insert_ne heq]
          exact hdone r hr (by simp [show r ≠ rule from fun h => heq (h ▸ rfl), hnot]) d u hd hu)
    rules ∅ ⟨fun _ hr => hr, fun rule hr hnot => absurd hr hnot⟩
  refine ⟨out, hout, fun name destination t hd ht => ?_⟩
  by_cases hname : name ∈ rules.map (·.name)
  · obtain ⟨rule, hrule, rfl⟩ := List.mem_map.mp hname
    exact hdone rule hrule (by simp) destination t hd ht
  · rw [hothers name hname] at ht
    cases ht

end Pack
end PyptoServing.Weights
