import PyptoServing.Weights.ConversionPlan
import PyptoServing.Weights.Requantisation

/-!
# A converted shard

With usable scales, and dtypes that can be loaded, a shard's conversion returns, and what it saves
is what is planned for the shard.
-/
namespace PyptoServing.Weights

open Lib

variable {lib : Libraries} {inputDir : String} {source : InputDirectory}
  {sourceMap : Dict String String} {sourceSpecs : Dict String TensorSpec}
  {shapes : Dict String (List Nat)} {compressRatios : List Int} {mtpLayerCount : Nat}
  {name filename : String}

/-- A scale that the source's tensors are listed with has bytes, none of them NaN's. -/
def UsableScale (source : InputDirectory) (sourceMap : Dict String String) (name : String) : Prop :=
  ∀ filename file metadata, sourceMap.lookup name = some filename →
    source.lookup filename = some (.safetensors file) → file.header.lookup name = some metadata →
      payload file metadata ≠ [] ∧ 0xFF#8 ∉ payload file metadata

theorem loadE8m0Scale_total (path : String) {file : SafetensorsFile} {metadata : TensorMetadata}
    (hmeta : file.header.lookup name = some metadata) (hdtype : metadata.dtype = "F8_E8M0")
    (hlo : metadata.dataOffsets.1 ≤ metadata.dataOffsets.2)
    (hhi : metadata.dataOffsets.2 ≤ file.data.length)
    (hsize : metadata.dataOffsets.2 - metadata.dataOffsets.1 = metadata.shape.prod)
    (hne : payload file metadata ≠ []) (hnan : 0xFF#8 ∉ payload file metadata) :
    ∃ scale, loadE8m0Scale path file name = .ok scale ∧ scale.shape = metadata.shape := by
  have hlength : (payload file metadata).length = metadata.shape.prod := by
    rw [payload, List.length_take, List.length_drop]
    omega
  have hoffsets : (metadata.dataOffsets.2 : Int) - metadata.dataOffsets.1 = metadata.shape.prod := by
    omega
  unfold loadE8m0Scale
  rw [hmeta]
  dsimp only
  rw [if_neg (not_not.mpr hdtype), if_neg (not_not.mpr hoffsets), if_neg (not_not.mpr hlength),
    if_neg hne, if_neg hnan]
  exact ⟨_, rfl, rfl⟩

theorem ShardFile.lookup (hlib : lib.Documented) {file : SafetensorsFile}
    (h : ShardFile lib source sourceMap filename file) :
    source.lookup filename = some (.safetensors file) ∧
      lib.safeOpen (.safetensors file) = .ok file := by
  obtain ⟨content, hlook, hopen⟩ := h.content
  obtain rfl := hlib.content content file hopen
  exact ⟨hlook, hopen⟩

variable (inputDir) in
/-- A usable scale loads with the shape that its header gives. -/
theorem loadScale_total (hlib : lib.Documented) (hread : SourceRead lib source sourceMap sourceSpecs)
    (hmem : name ∈ sourceMap) {shape : List Nat}
    (hspec : sourceSpecs.lookup name = some ("F8_E8M0", shape))
    (husable : UsableScale source sourceMap name) :
    ∃ scale, loadScale inputDir source sourceMap name = .ok scale ∧ scale.shape = shape ∧
      shape.prod ≠ 0 := by
  obtain ⟨filename, hname⟩ := Option.isSome_iff_exists.mp (AList.lookup_isSome.mpr hmem)
  obtain ⟨file, metadata, hfile, hmeta, hspec'⟩ := hread.metadata hname
  rw [hspec] at hspec'
  obtain ⟨hdtype, hshape⟩ := Prod.mk.inj (Option.some.inj hspec')
  obtain ⟨hlook, hopen⟩ := hfile.lookup hlib
  obtain ⟨hne, hnan⟩ := husable filename file metadata hname hlook hmeta
  obtain ⟨hlo, hhi, hsize⟩ := hlib.offsets file hopen name metadata hmeta
  obtain ⟨scale, hload, hscale⟩ := loadE8m0Scale_total s!"{inputDir}/{filename}" hmeta
    hdtype.symm hlo hhi (hsize hdtype.symm) hne hnan
  refine ⟨scale, ?_, hscale.trans hshape.symm, fun hzero => hne ?_⟩
  · unfold loadScale
    rw [hname]
    dsimp only
    rw [hfile.path]
    show Except.bind _ _ = _
    dsimp only [Except.bind]
    rw [hlook]
    dsimp only
    rw [hload]
    rfl
  · rw [payload, ← hshape, hzero, List.take_zero]

theorem numGroups_zero {group : Nat} (h : 0 < group) : numGroups 0 group = 0 :=
  Nat.div_eq_of_lt (by omega)

/-- A weight agrees with its loaded scale as the plan said. -/
theorem ScaledWeight.accepted (hlib : lib.Documented) {rows cols : Nat} {shape : List Nat}
    (h : ScaledWeight sourceSpecs name rows cols shape) {tensor : LoadedTensor}
    (hspec : sourceSpecs.lookup name = some (tensor.dtype, tensor.shape))
    (htorch : lib.torchDtype tensor.dtype = some tensor.torchDtype) {scaleShape : List Nat}
    (hscale : sourceSpecs.lookup (scaleNameOf name) = some ("F8_E8M0", scaleShape))
    {scale : Tensor Unit Rat} (hshape : scale.shape = scaleShape) :
    Accepted tensor.weight scale ∧ shape = [rows, outputCols tensor.weight] ∧
      tensor.weight.width 0 = rows ∧ (scaleShape.prod ≠ 0 → outputCols tensor.weight ≠ 0) := by
  rcases h.spec with ⟨hw, rfl, hs⟩ | ⟨hw, rfl, hs⟩
  all_goals
    rw [hspec] at hw
    rw [hscale] at hs
    obtain ⟨hdtype, hwshape⟩ := Prod.mk.inj (Option.some.inj hw)
    obtain ⟨-, rfl⟩ := Prod.mk.inj (Option.some.inj hs)
    rw [hdtype] at htorch
  · rw [hlib.int8] at htorch
    have hd : tensor.weight.dtype = .int8 := (Option.some.inj htorch).symm
    have hrows : tensor.weight.width 0 = rows := by simp [Tensor.width, LoadedTensor.weight, hwshape]
    have hcols : outputCols tensor.weight = cols * 2 := by
      rw [outputCols, hd]
      simp [Tensor.width, LoadedTensor.weight, hwshape]
    refine ⟨⟨by simp [LoadedTensor.weight, hwshape], .inl hd, ?_⟩, by rw [hcols], hrows, ?_⟩
    · rw [hshape, acceptedScaleShape, hd]
      dsimp only
      rw [hrows, hcols]
    · intro hprod hzero
      rw [hcols] at hzero
      rw [hzero, numGroups_zero (by decide)] at hprod
      simp at hprod
  · rw [hlib.float8] at htorch
    have hd : tensor.weight.dtype = .float8E4m3fn := (Option.some.inj htorch).symm
    have hrows : tensor.weight.width 0 = rows := by simp [Tensor.width, LoadedTensor.weight, hwshape]
    have hwidth : tensor.weight.width 1 = cols := by
      simp [Tensor.width, LoadedTensor.weight, hwshape]
    have hcols : outputCols tensor.weight = cols := by
      rw [outputCols, hd]
      exact hwidth
    refine ⟨⟨by simp [LoadedTensor.weight, hwshape], .inr hd, ?_⟩, by rw [hcols], hrows, ?_⟩
    · rw [hshape, acceptedScaleShape, hd]
      dsimp only
      rw [hrows, hwidth]
    · intro hprod hzero
      rw [hcols] at hzero
      rw [hzero, numGroups_zero (by decide)] at hprod
      simp at hprod

theorem ScaledWeight.scale {rows cols : Nat} {shape : List Nat}
    (h : ScaledWeight sourceSpecs name rows cols shape) : ∃ scaleShape,
      sourceSpecs.lookup (scaleNameOf name) = some ("F8_E8M0", scaleShape) := by
  rcases h.spec with ⟨-, -, hs⟩ | ⟨-, -, hs⟩
  · exact ⟨_, hs⟩
  · exact ⟨_, hs⟩

theorem quantize_shapes {w : Values} {rows cols : Nat} (hw : w.shape = [rows, cols])
    (hcols : cols ≠ 0) : ∃ q s, quantizeWeightPerOutput w = .ok (q, s) ∧ q.shape = [rows, cols] ∧
      s.shape = [rows] := by
  have hwidth : w.width 1 = cols := by simp [Tensor.width, hw]
  unfold quantizeWeightPerOutput
  rw [if_neg (by rwa [hwidth])]
  exact ⟨_, _, rfl, hw, by simp [Tensor.width, hw]⟩

/-- What the conversion of one tensor gives. -/
structure Converts (sourceMap : Dict String String) (sourceSpecs : Dict String TensorSpec)
    (shapes : Dict String (List Nat)) (compressRatios : List Int) (mtpLayerCount : Nat)
    (name : String) (outputs : List (String × SavedTensor)) : Prop where
  names : outputs.map (·.1) = outputNames sourceMap compressRatios mtpLayerCount name
  sized : ∀ o ∈ outputs, o.2.Sized
  spec : ∀ o ∈ outputs,
    plannedSpec sourceSpecs shapes compressRatios mtpLayerCount o.1 = .ok o.2.spec

/-- A tensor that was loaded as its shard's header says. -/
structure Loaded (lib : Libraries) (sourceSpecs : Dict String TensorSpec) (name : String)
    (tensor : LoadedTensor) : Prop where
  spec : sourceSpecs.lookup name = some (tensor.dtype, tensor.shape)
  torch : lib.torchDtype tensor.dtype = some tensor.torchDtype
  sized : tensor.dtype = "F8_E8M0" → tensor.bytes.length = tensor.shape.prod

/-- A tensor without a scale is copied. -/
theorem convertTensor_plain (hshapes : dequantizedShapes sourceMap sourceSpecs = .ok shapes)
    (hplain : ¬ IsPartnered sourceMap name) {tensor : LoadedTensor}
    (hloaded : Loaded lib sourceSpecs name tensor) (hno : scaleNameOf name ∉ sourceMap) :
    ∃ outputs, convertTensor inputDir source sourceMap compressRatios mtpLayerCount name tensor =
      .ok outputs ∧
        Converts sourceMap sourceSpecs shapes compressRatios mtpLayerCount name outputs := by
  unfold convertTensor
  rw [if_pos hno]
  refine ⟨_, rfl, ?_, ?_, ?_⟩
  · rw [outputNames, if_neg hplain, if_neg fun h =>
      hno ((scaleNameOf_mem (empty_not_mem hshapes)).mpr ⟨h.1, h.2.1⟩)]
    rfl
  · intro o ho
    rw [List.mem_singleton.mp ho]
    exact hloaded.sized
  · intro o ho
    rw [List.mem_singleton.mp ho, plannedSpec_plain hshapes hplain hno, getItem_ok]
    exact hloaded.spec

theorem convertTensor_total (hlib : lib.Documented)
    (hread : SourceRead lib source sourceMap sourceSpecs)
    (hshapes : dequantizedShapes sourceMap sourceSpecs = .ok shapes) (hmem : name ∈ sourceMap)
    (hplain : ¬ IsPartnered sourceMap name) {tensor : LoadedTensor}
    (hloaded : Loaded lib sourceSpecs name tensor)
    (husable : scaleNameOf name ∈ sourceMap → UsableScale source sourceMap (scaleNameOf name)) :
    ∃ outputs, convertTensor inputDir source sourceMap compressRatios mtpLayerCount name tensor =
      .ok outputs ∧
        Converts sourceMap sourceSpecs shapes compressRatios mtpLayerCount name outputs := by
  by_cases hno : scaleNameOf name ∉ sourceMap
  · exact convertTensor_plain hshapes hplain hloaded hno
  · have hyes := not_not.mp hno
    unfold convertTensor
    rw [if_neg hno]
    obtain ⟨hweight, hscaleMem⟩ := (scaleNameOf_mem (empty_not_mem hshapes)).mp hyes
    have hname : scaleNameOf name = sourceScaleName name := if_pos hweight
    obtain ⟨shape, hok⟩ := (dequantizedShapes_ok hshapes).1 name hmem hyes
    have hshape : shapes.lookup name = some shape :=
      ((dequantizedShapes_ok hshapes).2 name shape).mpr ⟨hmem, hyes, hok⟩
    obtain ⟨rows, cols, hsw⟩ := dequantizedShape_ok hok
    obtain ⟨scaleShape, hscaleSpec⟩ := hsw.scale
    obtain ⟨scale, hload, hscale, hprod⟩ := loadScale_total inputDir hlib hread hyes
      hscaleSpec (husable hyes)
    obtain ⟨hacc, hout, hrows, hcols⟩ := hsw.accepted hlib hloaded.spec hloaded.torch hscaleSpec hscale
    obtain ⟨w, hw, hwshape, -⟩ := hacc.dequantize
    rw [hrows] at hwshape
    rw [hload]
    show ∃ outputs, (Except.mapError _ (dequantizeHybridWeight tensor.weight scale) >>= _) =
      Except.ok outputs ∧ _
    rw [hw]
    by_cases hserving : isServingQuantizedWeight name compressRatios mtpLayerCount = true
    · obtain ⟨q, s, hq, hqshape, hsshape⟩ := quantize_shapes hwshape (hcols hprod)
      refine ⟨[(name, .int8 q), (scaleNameOf name, .float32 s)], ?_, ?_, ?_, ?_⟩
      · show (if isServingQuantizedWeight name compressRatios mtpLayerCount = true then _ else _) = _
        rw [if_pos hserving, hq]
        rfl
      · rw [outputNames, if_neg hplain, if_pos ⟨hweight, hscaleMem, hserving⟩, ← hname]
        rfl
      · intro o ho
        rcases List.mem_pair.mp ho with rfl | rfl
        · trivial
        · trivial
      · intro o ho
        rcases List.mem_pair.mp ho with rfl | rfl
        · rw [plannedSpec_weight hshapes hplain hshape, if_pos hserving, SavedTensor.spec, hqshape,
            hout]
        · dsimp only
          rw [hname, plannedSpec_scale hweight hshape, SavedTensor.spec, hsshape, hout]
          rfl
    · refine ⟨[(name, .bfloat16 w)], ?_, ?_, ?_, ?_⟩
      · show (if isServingQuantizedWeight name compressRatios mtpLayerCount = true then _ else _) = _
        rw [if_neg hserving]
        rfl
      · rw [outputNames, if_neg hplain, if_neg fun h => hserving h.2.2]
        rfl
      · intro o ho
        rw [List.mem_singleton.mp ho]
        trivial
      · intro o ho
        rw [List.mem_singleton.mp ho, plannedSpec_weight hshapes hplain hshape, if_neg hserving,
          SavedTensor.spec, hwshape, hout]

/-- Torch has the dtypes of all tensors that `get_tensor` is asked for. -/
def Loadable (lib : Libraries) (source : InputDirectory) (sourceMap : Dict String String) : Prop :=
  ∀ name filename file metadata, sourceMap.lookup name = some filename →
    ¬ IsPartnered sourceMap name → source.lookup filename = some (.safetensors file) →
      file.header.lookup name = some metadata → (lib.torchDtype metadata.dtype).isSome = true

theorem getTensor_total (hlib : lib.Documented) {file : SafetensorsFile} {metadata : TensorMetadata}
    (hopen : lib.safeOpen (.safetensors file) = .ok file)
    (hmeta : file.header.lookup name = some metadata)
    (hspec : sourceSpecs.lookup name = some metadata.spec)
    (htorch : (lib.torchDtype metadata.dtype).isSome = true) :
    ∃ tensor, getTensor lib file metadata = .ok tensor ∧ Loaded lib sourceSpecs name tensor := by
  obtain ⟨torchDtype, htorch⟩ := Option.isSome_iff_exists.mp htorch
  obtain ⟨hlo, hhi, hsize⟩ := hlib.offsets file hopen name metadata hmeta
  unfold getTensor
  rw [htorch]
  refine ⟨_, rfl, hspec, htorch, fun hdtype => ?_⟩
  dsimp only
  rw [List.length_take, List.length_drop, ← hsize hdtype]
  omega

theorem loadShardTensors_total (hlib : lib.Documented)
    (hread : SourceRead lib source sourceMap sourceSpecs)
    (hloadable : Loadable lib source sourceMap) {file : SafetensorsFile}
    (hfile : ShardFile lib source sourceMap filename file) :
    ∃ tensors, loadShardTensors lib (source.lookup filename) sourceMap = .ok tensors ∧
      (∀ e ∈ tensors, sourceMap.lookup e.1 = some filename ∧ ¬ IsPartnered sourceMap e.1 ∧
        Loaded lib sourceSpecs e.1 e.2) ∧
      ∀ name, sourceMap.lookup name = some filename → ¬ IsPartnered sourceMap name →
        ∃ tensor, (name, tensor) ∈ tensors := by
  obtain ⟨hlook, hopen⟩ := hfile.lookup hlib
  unfold loadShardTensors
  rw [hlook, Option.map_some, hopen]
  dsimp only
  have hkept : ∀ e : (_ : String) × TensorMetadata,
      (e ∈ file.header.entries.filter fun e => ¬ IsPartnered sourceMap e.1) ↔
        file.header.lookup e.1 = some e.2 ∧ ¬ IsPartnered sourceMap e.1 := by
    intro e
    rw [List.mem_filter, decide_eq_true_iff]
    exact and_congr_left' AList.mem_lookup_iff.symm
  have hround : ∀ e ∈ file.header.entries.filter fun e => ¬ IsPartnered sourceMap e.1,
      ∃ tensor, getTensor lib file e.2 = .ok tensor ∧ sourceMap.lookup e.1 = some filename ∧
        ¬ IsPartnered sourceMap e.1 ∧ Loaded lib sourceSpecs e.1 tensor := by
    intro e he
    obtain ⟨hmeta, hplain⟩ := (hkept e).mp he
    have hname := (hfile.names e.1).mp (AList.lookup_isSome.mp (by rw [hmeta]; rfl))
    have hspec := hread.spec e.1 filename file hname hfile
    rw [hmeta, Option.map_some] at hspec
    obtain ⟨tensor, hget, hloaded⟩ := getTensor_total hlib hopen hmeta hspec
      (hloadable e.1 filename file e.2 hname hplain hlook hmeta)
    exact ⟨tensor, hget, hname, hplain, hloaded⟩
  obtain ⟨tensors, htensors, -⟩ := Fallible.mapM_total
    (f := fun e : (_ : String) × TensorMetadata => do
      return (e.1, ← getTensor lib file e.2)) (R := fun _ _ => True) fun e he => by
    obtain ⟨tensor, hget, -⟩ := hround e he
    exact ⟨(e.1, tensor), by rw [hget]; rfl, trivial⟩
  refine ⟨tensors, htensors, fun t ht => ?_, fun name hname hplain => ?_⟩
  · obtain ⟨e, he, hok⟩ := (Fallible.mem_mapM htensors).mp ht
    obtain ⟨tensor, hget, hfacts⟩ := hround e he
    rw [hget] at hok
    cases hok
    exact hfacts
  · obtain ⟨metadata, hmeta⟩ := Option.isSome_iff_exists.mp
      (AList.lookup_isSome.mpr ((hfile.names name).mpr hname))
    have he := (hkept ⟨name, metadata⟩).mpr ⟨hmeta, hplain⟩
    obtain ⟨tensor, hget, -⟩ := hround _ he
    refine ⟨tensor, (Fallible.mem_mapM htensors).mpr ⟨_, he, ?_⟩⟩
    rw [hget]
    rfl

section Shard
variable {plan : ConversionPlan}

/-- A source whose tensors can all be read. -/
structure Readable (lib : Libraries) (source : InputDirectory) (sourceMap : Dict String String) :
    Prop where
  scales : ∀ name ∈ sourceMap, IsPartnered sourceMap name → UsableScale source sourceMap name
  loadable : Loadable lib source sourceMap

variable (inputDir) in
/-- The conversion of a shard gives what is planned for it. -/
theorem convertTensors_total (hlib : lib.Documented)
    (hplan : PlanOf lib source plan sourceSpecs shapes)
    (hreadable : Readable lib source plan.sourceMap)
    (hlisted : ∃ name, plan.sourceMap.lookup name = some filename) :
    ∃ converted, convertTensors lib inputDir source plan filename = .ok converted ∧
      (∀ x tensor, converted.lookup x = some tensor → tensor.Sized) ∧
      ∀ x spec, (converted.lookup x).map SavedTensor.spec = some spec ↔
        (plan.expectedByShard.lookup filename).bind (·.lookup x) = some spec := by
  obtain ⟨name, hname⟩ := hlisted
  obtain ⟨file, hfile⟩ := hplan.read.shard name filename hname
  obtain ⟨tensors, hload, hloaded, hall⟩ :=
    loadShardTensors_total hlib hplan.read hreadable.loadable hfile
  have hround : ∀ e ∈ tensors, ∃ outputs, convertTensor inputDir source plan.sourceMap
      plan.compressRatios plan.mtpLayerCount e.1 e.2 = .ok outputs ∧
        Converts plan.sourceMap sourceSpecs shapes plan.compressRatios plan.mtpLayerCount e.1
          outputs := by
    intro e he
    obtain ⟨hlook, hplain, htensor⟩ := hloaded e he
    have hmem : e.1 ∈ plan.sourceMap := AList.lookup_isSome.mp (by rw [hlook]; rfl)
    refine convertTensor_total hlib hplan.read hplan.dequantized hmem hplain htensor fun hscale => ?_
    refine hreadable.scales _ hscale ?_
    have hweight := (scaleNameOf_mem (empty_not_mem hplan.dequantized)).mp hscale
    rw [scaleNameOf, if_pos hweight.1]
    exact scale_isPartnered hweight.1 hmem
  obtain ⟨converted, hconverted, -⟩ := Fallible.mapM_total (R := fun _ _ => True) fun e he => by
    obtain ⟨outputs, hok, -⟩ := hround e he
    exact ⟨outputs, hok, trivial⟩
  have hmem : ∀ x tensor, (x, tensor) ∈ converted.flatten → tensor.Sized ∧
      (∃ name, plan.sourceMap.lookup name = some filename ∧
        x ∈ outputNames plan.sourceMap plan.compressRatios plan.mtpLayerCount name) ∧
      plannedSpec sourceSpecs shapes plan.compressRatios plan.mtpLayerCount x =
        .ok tensor.spec := by
    intro x tensor hx
    obtain ⟨outputs, houtputs, hx⟩ := List.mem_flatten.mp hx
    obtain ⟨e, he, hok⟩ := (Fallible.mem_mapM hconverted).mp houtputs
    obtain ⟨outputs', hok', hconv⟩ := hround e he
    rw [hok'] at hok
    cases hok
    refine ⟨hconv.sized _ hx, ⟨e.1, (hloaded e he).1, ?_⟩, hconv.spec _ hx⟩
    rw [← hconv.names]
    exact List.mem_map_of_mem hx
  refine ⟨Dict.assign ∅ converted.flatten, ?_, fun x tensor hx => ?_, fun x spec => ?_⟩
  · refine Fallible.bind_eq_ok.mpr ⟨filename, hfile.path, ?_⟩
    refine Fallible.bind_eq_ok.mpr ⟨tensors, hload, ?_⟩
    exact Fallible.bind_eq_ok.mpr ⟨converted, hconverted, rfl⟩
  · exact (hmem x tensor (Dict.mem_of_lookup_assign hx)).1
  · rw [hplan.expected, hplan.outputMap, lookup_outputMap]
    constructor
    · intro hx
      obtain ⟨tensor, hlook, rfl⟩ := Option.map_eq_some_iff.mp hx
      exact (hmem x tensor (Dict.mem_of_lookup_assign hlook)).2
    · rintro ⟨⟨name, hname, hx⟩, hspec⟩
      obtain ⟨tensor, htensor⟩ := hall name hname (mem_outputNames.mp hx).1
      obtain ⟨outputs, hok, hconv⟩ := hround _ htensor
      have houtputs := (Fallible.mem_mapM hconverted).mpr ⟨_, htensor, hok⟩
      rw [← hconv.names] at hx
      obtain ⟨o, ho, rfl⟩ := List.mem_map.mp hx
      have hflat := List.mem_flatten.mpr ⟨outputs, houtputs, ho⟩
      obtain ⟨saved, hsaved⟩ := Option.isSome_iff_exists.mp
        (Dict.lookup_assign_isSome (d := ∅) (List.mem_map_of_mem (f := Prod.fst) hflat))
      have hplanned := (hmem _ _ (Dict.mem_of_lookup_assign hsaved)).2.2
      rw [hspec] at hplanned
      rw [hsaved, Option.map_some, Except.ok.inj hplanned]

end Shard

end PyptoServing.Weights
