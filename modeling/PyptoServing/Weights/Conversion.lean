import PyptoServing.Lib.AtomicPuts
import PyptoServing.Weights.Checkpoint

/-!
# The conversion of a checkpoint

What is planned for every shard, what is written to it, and the run that can be resumed. The
libraries that files go through are a parameter; the output directory is a durable state whose
files are torn while they are written.
-/
namespace PyptoServing.Weights

open Lib

/-- A tensor that is given to `save_file`. -/
inductive SavedTensor
  | plain (dtype : String) (shape : List Nat) (bytes : List (BitVec 8))
  | int8 (tensor : Tensor Unit (Option Int))
  | float32 (tensor : Values)
  | bfloat16 (tensor : Values)

def TensorMetadata.spec (metadata : TensorMetadata) : TensorSpec := (metadata.dtype, metadata.shape)

def SavedTensor.spec : SavedTensor → TensorSpec
  | .plain dtype shape _ => (dtype, shape)
  | .int8 tensor => ("I8", tensor.shape)
  | .float32 tensor => ("F32", tensor.shape)
  | .bfloat16 tensor => ("BF16", tensor.shape)

/-- `safetensors`, `torch` and `hashlib`. -/
structure Libraries where
  /-- `safe_open`, which parses and checks the header. -/
  safeOpen : FileContent → Except String SafetensorsFile
  /-- The dtype that `get_tensor` loads a tensor with, where torch has one. -/
  torchDtype : String → Option SourceDType
  saveFile : Dict String SavedTensor → SafetensorsFile
  fileDigest : FileContent → String
  /-- The digest over the names and the digests of the shards. -/
  shardsDigest : List (String × String) → String

/-- A tensor with the dtype of scales has a byte for each element. -/
def SavedTensor.Sized : SavedTensor → Prop
  | .plain dtype shape bytes => dtype = "F8_E8M0" → bytes.length = shape.prod
  | _ => True

/-- What the conversion relies on: a file that opens has its tensors inside its data, each as long
as its shape says; and a saved file opens with the tensors that were saved. -/
structure Libraries.Documented (lib : Libraries) : Prop where
  content : ∀ content file, lib.safeOpen content = .ok file → content = .safetensors file
  offsets : ∀ file, lib.safeOpen (.safetensors file) = .ok file → ∀ name metadata,
    file.header.lookup name = some metadata →
      metadata.dataOffsets.1 ≤ metadata.dataOffsets.2 ∧
      metadata.dataOffsets.2 ≤ file.data.length ∧
      (metadata.dtype = "F8_E8M0" →
        metadata.dataOffsets.2 - metadata.dataOffsets.1 = metadata.shape.prod)
  int8 : lib.torchDtype "I8" = some .int8
  float8 : lib.torchDtype "F8_E4M3" = some .float8E4m3fn
  saved : ∀ tensors, (∀ name tensor, tensors.lookup name = some tensor → tensor.Sized) →
    lib.safeOpen (.safetensors (lib.saveFile tensors)) = .ok (lib.saveFile tensors) ∧
      ∀ name, ((lib.saveFile tensors).header.lookup name).map TensorMetadata.spec =
        (tensors.lookup name).map SavedTensor.spec

/-- A tensor that `get_tensor` returned. -/
structure LoadedTensor where
  torchDtype : SourceDType
  dtype : String
  shape : List Nat
  bytes : List (BitVec 8)

/-- The elements of a source weight have a byte each. -/
def LoadedTensor.weight (tensor : LoadedTensor) : SourceWeight :=
  ⟨tensor.shape, tensor.torchDtype, fun idx => tensor.bytes.getD (Tensor.ravel tensor.shape idx) 0⟩

/-- `_build_output_weight_map`. -/
def buildOutputWeightMap (sourceMap : Dict String String) (compressRatios : List Int)
    (mtpLayerCount : Nat) : Dict String String :=
  let outputs := sourceMap.entries.flatMap fun ⟨name, filename⟩ =>
    if IsPartnered sourceMap name then []
    else if endsWith name ".weight" ∧ sourceScaleName name ∈ sourceMap ∧
        isServingQuantizedWeight name compressRatios mtpLayerCount then
      [(name, filename), (sourceScaleName name, filename)]
    else [(name, filename)]
  Dict.assign ∅ outputs

/-- `_quantization_ignore`. -/
def quantizationIgnore (numLayers : Nat) (compressRatios : List Int) (mtpLayerCount : Nat) :
    List String :=
  let layers := (List.range numLayers).flatMap fun layerId =>
    let p := s!"layers.{layerId}.attn"
    let ratio := compressRatios.getD layerId 0
    [s!"{p}.wq_a", s!"{p}.wkv", s!"{p}.wo_a"] ++
      if ratio = 4 then
        [s!"{p}.indexer.weights_proj", s!"{p}.indexer.compressor.wgate",
          s!"{p}.indexer.compressor.wkv", s!"{p}.compressor.wgate", s!"{p}.compressor.wkv"]
      else if ratio = 128 then [s!"{p}.compressor.wgate", s!"{p}.compressor.wkv"]
      else []
  let mtpLayers := (List.range mtpLayerCount).flatMap fun mtpLayer =>
    let p := s!"mtp.{mtpLayer}"
    [s!"{p}.attn.wq_a", s!"{p}.attn.wkv", s!"{p}.attn.wo_a", s!"{p}.head"]
  let draft :=
    if mtpLayerCount > 1 then
      let p := s!"mtp.{mtpLayerCount - 1}"
      ["mtp.0.main_proj", s!"{p}.markov_head.markov_w1", s!"{p}.markov_head.markov_w2",
        s!"{p}.confidence_head.proj"]
    else []
  layers ++ mtpLayers ++ draft ++ ["head"]

/-- `_build_output_config`; `quantization_config` is `_serving_quantization_config`'s. -/
def buildOutputConfig (config : ModelConfig) (numLayers : Nat) (compressRatios : List Int)
    (mtpLayerCount : Nat) (noSpecCompatible : Bool) : ModelConfig :=
  let outputRatios := if noSpecCompatible then compressRatios.take (numLayers + 1) else compressRatios
  { config with
    compressRatios := some (outputRatios.map .ok)
    quantization := ⟨.ok "'compressed-tensors'",
      quantizationIgnore numLayers compressRatios mtpLayerCount⟩ }

def tensorSpecs (file : SafetensorsFile) : Dict String TensorSpec :=
  Dict.mapValues TensorMetadata.spec file.header

/-- `_read_tensor_specs`; a missing file cannot be opened. -/
def readTensorSpecs (lib : Libraries) (path : String) (content : Option FileContent) :
    Except ConversionError (Dict String TensorSpec) :=
  match content with
  | none => .error (.value s!"invalid safetensors shard {path}: No such file or directory: {path}")
  | some content =>
    match lib.safeOpen content with
    | .error exc => .error (.value s!"invalid safetensors shard {path}: {exc}")
    | .ok file => .ok (tensorSpecs file)

/-- `d[key]`. -/
def getItem {α : Type} (d : Dict String α) (key : String) : Except ConversionError α :=
  match d.lookup key with
  | none => .error (.key key)
  | some a => .ok a

/-- The name of the scale that a tensor may have: for one that is no weight, the empty name. -/
def scaleNameOf (name : String) : String :=
  if endsWith name ".weight" then sourceScaleName name else ""

/-- The specs of one shard are added to those read before. -/
def addShardSpecs (lib : Libraries) (inputDir : String) (source : InputDirectory)
    (sourceMap : Dict String String) (sourceSpecs : Dict String TensorSpec) (filename : String) :
    Except ConversionError (Dict String TensorSpec) := do
  let path := s!"{inputDir}/{filename}"
  let shardSpecs ← readTensorSpecs lib path (source.lookup (← safeShardPath filename))
  let expectedNames := sourceMap.keys.filter fun name => sourceMap.lookup name = some filename
  if shardSpecs.keys ⊆ expectedNames ∧ expectedNames ⊆ shardSpecs.keys then
    return Dict.insertAll (·.1) (fun e => some e.2) shardSpecs.entries sourceSpecs
  else throw (.value s!"tensor set in {path} differs from model.safetensors.index.json")

/-- The specs of all source tensors, shard by shard. -/
def readSourceSpecs (lib : Libraries) (inputDir : String) (source : InputDirectory)
    (sourceMap : Dict String String) : Except ConversionError (Dict String TensorSpec) :=
  (sourceMap.entries.map (·.2)).dedup.foldlM (addShardSpecs lib inputDir source sourceMap) ∅

/-- The output shape of a weight whose scale is as expected. -/
def checkScaleContract (weightName : String) (scale : TensorSpec)
    (outputShape expectedScaleShape : List Nat) : Except ConversionError (List Nat) :=
  if scale.1 ≠ "F8_E8M0" ∨ scale.2 ≠ expectedScaleShape then
    .error (.value (s!"invalid source scale contract for {weightName}: " ++
      s!"{scale.1}/{showShape scale.2}, expected F8_E8M0/{showShape expectedScaleShape}"))
  else .ok outputShape

/-- The shape of a dequantised weight, once the weight and its scale agree. -/
def dequantizedShape (sourceSpecs : Dict String TensorSpec) (weightName : String) :
    Except ConversionError (List Nat) := do
  let weight ← getItem sourceSpecs weightName
  let scale ← getItem sourceSpecs (scaleNameOf weightName)
  match weight.2, scale.2 with
  | [rows, cols], [_, _] =>
    if weight.1 = "I8" then
      checkScaleContract weightName scale [rows, cols * 2]
        [rows, numGroups (cols * 2) mxfp4GroupSize]
    else if weight.1 = "F8_E4M3" then
      checkScaleContract weightName scale [rows, cols]
        [numGroups rows fp8BlockSize, numGroups cols fp8BlockSize]
    else throw (.value s!"unsupported source quantized dtype for {weightName}: {weight.1}")
  | _, _ => throw (.value s!"source quantized weight/scale must be rank-2: {weightName}")

def dequantizedShapes (sourceMap : Dict String String) (sourceSpecs : Dict String TensorSpec) :
    Except ConversionError (Dict String (List Nat)) := do
  let weights := sourceMap.keys.filter fun name => scaleNameOf name ∈ sourceMap
  let shapes ← weights.mapM fun name => do return (name, ← dequantizedShape sourceSpecs name)
  return Dict.assign ∅ shapes

/-- The spec that is planned for an output tensor. -/
def plannedSpec (sourceSpecs : Dict String TensorSpec) (shapes : Dict String (List Nat))
    (compressRatios : List Int) (mtpLayerCount : Nat) (name : String) :
    Except ConversionError TensorSpec :=
  match if endsWith name ".scale" then shapes.lookup (sourceWeightName name) else none with
  | some shape => .ok ("F32", [shape.headD 0])
  | none =>
    match shapes.lookup name with
    | some shape =>
      .ok (if isServingQuantizedWeight name compressRatios mtpLayerCount then "I8" else "BF16", shape)
    | none => getItem sourceSpecs name

/-- `result.setdefault(filename, {})[name] = spec`. -/
def addSpec (result : Dict String (Dict String TensorSpec)) (planned : String × String × TensorSpec) :
    Dict String (Dict String TensorSpec) :=
  result.insert planned.1 (((result.lookup planned.1).getD ∅).insert planned.2.1 planned.2.2)

/-- `_expected_output_specs`. -/
def expectedOutputSpecs (lib : Libraries) (inputDir : String) (source : InputDirectory)
    (sourceMap outputMap : Dict String String) (compressRatios : List Int) (mtpLayerCount : Nat) :
    Except ConversionError (Dict String (Dict String TensorSpec)) := do
  let sourceSpecs ← readSourceSpecs lib inputDir source sourceMap
  let shapes ← dequantizedShapes sourceMap sourceSpecs
  let planned ← outputMap.entries.mapM fun ⟨name, filename⟩ => do
    return (filename, name, ← plannedSpec sourceSpecs shapes compressRatios mtpLayerCount name)
  return planned.foldl addSpec ∅

/-- What a conversion does, as it is decided before anything is written. -/
structure ConversionPlan where
  sourceMap : Dict String String
  compressRatios : List Int
  mtpLayerCount : Nat
  outputConfig : ModelConfig
  outputMap : Dict String String
  shardNames : List String
  expectedByShard : Dict String (Dict String TensorSpec)

/-- The part of `convert_checkpoint` that a dry run does. -/
def planConversion (lib : Libraries) (inputDir : String) (source : InputDirectory)
    (noSpecCompatible : Bool) : Except ConversionError ConversionPlan := do
  let (config, sourceMap) ← validateSource inputDir source
  let numLayers ← config.numHiddenLayers
  let compressRatios ← (config.compressRatios.getD []).mapM id
  let mtpLayerCount ← mtpLayerCount config
  let outputMap := buildOutputWeightMap sourceMap compressRatios mtpLayerCount
  let expectedByShard ← expectedOutputSpecs lib inputDir source sourceMap outputMap compressRatios
    mtpLayerCount
  return {
    sourceMap, compressRatios, mtpLayerCount, outputMap, expectedByShard
    outputConfig := buildOutputConfig config numLayers.toNat compressRatios mtpLayerCount
      noSpecCompatible
    shardNames := sortedNames (sourceMap.entries.map (·.2)) }

/-- `reader.get_tensor`. -/
def getTensor (lib : Libraries) (file : SafetensorsFile) (metadata : TensorMetadata) :
    Except ConversionError LoadedTensor :=
  match lib.torchDtype metadata.dtype with
  | none => .error (.runtime s!"no torch dtype for {metadata.dtype}")
  | some torchDtype =>
    .ok ⟨torchDtype, metadata.dtype, metadata.shape, (file.data.drop metadata.dataOffsets.1).take
      (metadata.dataOffsets.2 - metadata.dataOffsets.1)⟩

/-- `_load_shard_tensors`. -/
def loadShardTensors (lib : Libraries) (content : Option FileContent)
    (sourceMap : Dict String String) : Except ConversionError (List (String × LoadedTensor)) :=
  match content.map lib.safeOpen with
  | none => .error (.os "No such file or directory")
  | some (.error exc) => .error (.runtime exc)
  | some (.ok file) =>
    (file.header.entries.filter fun e => ¬ IsPartnered sourceMap e.1).mapM fun e => do
      return (e.1, ← getTensor lib file e.2)

/-- `_load_scale`. -/
def loadScale (inputDir : String) (source : InputDirectory) (sourceMap : Dict String String)
    (scaleName : String) : Except ConversionError (Tensor Unit Rat) :=
  match sourceMap.lookup scaleName with
  | none => .error (.value s!"missing source scale for quantized weight: {scaleName}")
  | some filename => do
    let path := s!"{inputDir}/{filename}"
    match source.lookup (← safeShardPath filename) with
    | some (.safetensors file) => (loadE8m0Scale path file scaleName).mapError .value
    | _ => throw (.value s!"invalid safetensors header in {path}")

/-- The round of `_convert_shard` for one tensor: what it adds to the converted tensors. -/
def convertTensor (inputDir : String) (source : InputDirectory) (sourceMap : Dict String String)
    (compressRatios : List Int) (mtpLayerCount : Nat) (name : String) (tensor : LoadedTensor) :
    Except ConversionError (List (String × SavedTensor)) :=
  if scaleNameOf name ∉ sourceMap then
    .ok [(name, .plain tensor.dtype tensor.shape tensor.bytes)]
  else do
    let sourceScale ← loadScale inputDir source sourceMap (scaleNameOf name)
    let dequantized ← (dequantizeHybridWeight tensor.weight sourceScale).mapError .value
    if isServingQuantizedWeight name compressRatios mtpLayerCount then
      let (quantized, dequantScale) ← (quantizeWeightPerOutput dequantized).mapError .runtime
      return [(name, .int8 quantized), (scaleNameOf name, .float32 dequantScale)]
    else return [(name, .bfloat16 dequantized)]

/-- The tensors that `_convert_shard` saves. -/
def convertTensors (lib : Libraries) (inputDir : String) (source : InputDirectory)
    (plan : ConversionPlan) (filename : String) :
    Except ConversionError (Dict String SavedTensor) := do
  let tensors ← loadShardTensors lib (source.lookup (← safeShardPath filename)) plan.sourceMap
  let converted ← tensors.mapM fun (name, tensor) =>
    convertTensor inputDir source plan.sourceMap plan.compressRatios plan.mtpLayerCount name tensor
  return Dict.assign ∅ converted.flatten

/-- `_safetensors_total_size`. -/
def safetensorsTotalSize (path : String) (content : Option FileContent) :
    Except ConversionError Nat :=
  match content with
  | some (.safetensors file) =>
    file.header.entries.foldlM (fun total e =>
      if e.2.dataOffsets.2 < e.2.dataOffsets.1 then
        .error (.value s!"invalid data offsets for '{e.1}' in {path}")
      else .ok (total + (e.2.dataOffsets.2 - e.2.dataOffsets.1))) 0
  | some _ => .error (.value s!"invalid safetensors header in {path}")
  | none => .error (.os s!"[Errno 2] No such file or directory: '{path}'")

/-- The output directory itself, or a name in it. -/
inductive OutputPath
  | dir
  | file (name : String)
  deriving DecidableEq, Repr

abbrev Directory := Files OutputPath FileContent

abbrev Conversion (α : Type) := Raising ConversionError (Traced Directory) α

open Raising Traced Files

def conversionFormat : String := "pypto-deepseek-v4-w8a8-v3"

def markerName : String := ".pypto-w8a8-conversion.json"

/-- `marker_path.with_suffix(".tmp")`. -/
def markerTempName : String := ".pypto-w8a8-conversion.tmp"

/-- `path.with_name(f".{path.name}.tmp")`. -/
def tempName (name : String) : String := s!".{name}.tmp"

/-- `path.suffix`. -/
def pathSuffix (name : String) : String :=
  let extension := name.toList.reverse.takeWhile (· ≠ '.')
  let stem := name.toList.reverse.drop (extension.length + 1)
  if extension = [] ∨ stem = [] then "" else String.ofList ('.' :: extension.reverse)

def auxiliarySuffixes : List String := [".json", ".py", ".jinja", ".model"]

/-- The put of a file that replaces its temporary file. -/
def putOf (name : String) (content : FileContent) : Put OutputPath FileContent :=
  ⟨.file name, .file (tempName name), content⟩

/-- Whether `_copy_auxiliary_files` copies a file of the input directory. -/
def isAuxiliary (name : String) (content : FileContent) : Bool :=
  (match content with | .directory => false | _ => true) &&
    name ∉ ["config.json", "model.safetensors.index.json"] && pathSuffix name ∈ auxiliarySuffixes

/-- The round of `_copy_auxiliary_files` for one file. -/
def copyAuxiliaryFile (e : Σ _ : String, FileContent) : Conversion Unit :=
  if isAuxiliary e.1 e.2 then do
    let directory ← read
    if (directory (.file e.1)).isSome then return ()
    else put .torn (putOf e.1 e.2)
  else return ()

/-- `_copy_auxiliary_files`. -/
def copyAuxiliaryFiles (source : InputDirectory) : Conversion Unit :=
  source.entries.forM copyAuxiliaryFile

/-- `_file_digest`. -/
def fileDigest (lib : Libraries) (inputDir : String) (source : InputDirectory) (name : String) :
    Except ConversionError String :=
  match source.lookup name with
  | none => .error (.os s!"[Errno 2] No such file or directory: '{inputDir}/{name}'")
  | some content => .ok (lib.fileDigest content)

/-- `_conversion_marker`. -/
def conversionMarker (lib : Libraries) (inputDir : String) (source : InputDirectory)
    (shardNames : List String) (complete : Bool) : Except ConversionError ConversionMarker := do
  let config ← fileDigest lib inputDir source "config.json"
  let index ← fileDigest lib inputDir source "model.safetensors.index.json"
  let shards ← (sortedNames shardNames).mapM fun filename => do
    return (filename, ← fileDigest lib inputDir source (← safeShardPath filename))
  return ⟨conversionFormat, inputDir, config, index, lib.shardsDigest shards, complete⟩

/-- `_write_conversion_marker`. -/
def writeConversionMarker (marker : ConversionMarker) : Conversion Unit :=
  put .torn ⟨.file markerName, .file markerTempName, .marker marker⟩

/-- The first field of a marker that is not as it should be. -/
def markerMismatch (marker expected : ConversionMarker) : Option String :=
  if marker.format ≠ expected.format then some "format"
  else if marker.sourceConfigSha256 ≠ expected.sourceConfigSha256 then some "source_config_sha256"
  else if marker.sourceIndexSha256 ≠ expected.sourceIndexSha256 then some "source_index_sha256"
  else if marker.sourceShardsSha256 ≠ expected.sourceShardsSha256 then some "source_shards_sha256"
  else none

/-- `_validate_conversion_marker`. -/
def validateConversionMarker (lib : Libraries) (inputDir outputDir : String)
    (source : InputDirectory) (shardNames : List String) (content : Option FileContent) :
    Except ConversionError ConversionMarker :=
  match content with
  | none | some .directory =>
    .error (.value (s!"cannot resume from {outputDir}: {markerName} is missing; " ++
      "use a new output directory"))
  | some content => do
    let marker ← readMarker s!"{outputDir}/{markerName}" content
    let expected ← conversionMarker lib inputDir source shardNames marker.complete
    match markerMismatch marker expected with
    | some key =>
      throw (.value (s!"cannot resume from {outputDir}: conversion marker field '{key}' " ++
        "does not match"))
    | none => return marker

/-- `_validate_resumable_shard`. -/
def validateResumableShard (lib : Libraries) (path : String) (content : Option FileContent)
    (expectedSpecs : Dict String TensorSpec) : Except ConversionError Unit :=
  match readTensorSpecs lib path content with
  | .error (.value exc) =>
    .error (.value s!"cannot resume from invalid output shard {path}: {exc}")
  | .error exc => .error exc
  | .ok actualSpecs =>
    if Dict.same actualSpecs expectedSpecs then .ok ()
    else .error (.value (s!"cannot resume from {path}: tensor names, dtypes, or shapes differ " ++
      "from the expected conversion output"))

/-- `_convert_shard`. -/
def convertShard (lib : Libraries) (inputDir : String) (source : InputDirectory)
    (plan : ConversionPlan) (filename : String) : Conversion Unit := do
  let converted ← MonadExcept.ofExcept (convertTensors lib inputDir source plan filename)
  put .torn (putOf filename (.safetensors (lib.saveFile converted)))

/-- The round of `convert_checkpoint` for one shard. -/
def convertOrResume (lib : Libraries) (inputDir outputDir : String) (source : InputDirectory)
    (plan : ConversionPlan) (resume : Bool) (filename : String) : Conversion Unit := do
  let path := s!"{outputDir}/{filename}"
  let name ← MonadExcept.ofExcept (safeShardPath filename)
  let directory ← read
  if (directory (.file name)).isSome then
    if resume then
      let expectedSpecs ← MonadExcept.ofExcept (getItem plan.expectedByShard filename)
      MonadExcept.ofExcept (validateResumableShard lib path (directory (.file name)) expectedSpecs)
    else throw (.value s!"refusing to overwrite existing output shard: {path}")
  else convertShard lib inputDir source plan filename

/-- The marker of a run: an existing directory's own, or a new one. -/
def startConversion (lib : Libraries) (inputDir outputDir : String) (source : InputDirectory)
    (plan : ConversionPlan) (resume : Bool) : Conversion ConversionMarker := do
  let directory ← read
  if (directory .dir).isSome then
    if resume then
      MonadExcept.ofExcept (validateConversionMarker lib inputDir outputDir source plan.shardNames
        (directory (.file markerName)))
    else
      throw (.value s!"output directory already exists: {outputDir}; use --resume or a new path")
  else do
    change fun d => Function.update d .dir (some .directory)
    let marker ← MonadExcept.ofExcept (conversionMarker lib inputDir source plan.shardNames false)
    writeConversionMarker marker
    return marker

/-- What follows the shards: the configuration, the index and the completed marker. -/
def finishConversion (outputDir : String) (plan : ConversionPlan) (marker : ConversionMarker) :
    Conversion Unit := do
  write .torn (.file "config.json") (.config plan.outputConfig)
  let directory ← read
  let sizes ← MonadExcept.ofExcept (plan.shardNames.mapM fun filename => do
    safetensorsTotalSize s!"{outputDir}/{filename}" (directory (.file (← safeShardPath filename))))
  write .torn (.file "model.safetensors.index.json") (.index ⟨sizes.sum, some plan.outputMap⟩)
  writeConversionMarker { marker with complete := true }

/-- `convert_checkpoint`. -/
def convertCheckpoint (lib : Libraries) (inputDir outputDir : String) (source : InputDirectory)
    (resume dryRun noSpecCompatible : Bool) : Conversion Unit := do
  if inputDir = outputDir then throw (.value "input and output directories must be different")
  else
    let plan ← MonadExcept.ofExcept (planConversion lib inputDir source noSpecCompatible)
    if dryRun then return ()
    else
      let marker ← startConversion lib inputDir outputDir source plan resume
      copyAuxiliaryFiles source
      plan.shardNames.forM (convertOrResume lib inputDir outputDir source plan resume)
      finishConversion outputDir plan marker

end PyptoServing.Weights
