import PyptoServing.Weights.HybridWeight

/-!
# Source checkpoints

What a checkpoint directory holds, the tensors that belong together by their names, and the
checks that a source has to pass before anything is converted.
-/
namespace PyptoServing.Weights

open Lib

/-- The exceptions that a conversion may end with. -/
inductive ConversionError
  | value (message : String)
  | key (name : String)
  | type (message : String)
  | runtime (message : String)
  | os (message : String)
  deriving DecidableEq, Repr

/-- A tensor's dtype and shape. -/
abbrev TensorSpec := String × List Nat

/-- `quantization_config`: the `repr` of its method, and the modules that are not quantised. -/
structure QuantizationConfig where
  quantMethod : Except ConversionError String := .ok "None"
  ignore : List String := []

/-- `config.json`. A field that is read through `str` or `int` stands here as their result, with
what they raise for a value that has none; the defaults are those of a file without the field. -/
structure ModelConfig where
  modelType : String := ""
  architectures : Except ConversionError (List String) := .ok []
  quantization : QuantizationConfig := {}
  numHiddenLayers : Except ConversionError Int := .ok 0
  /-- `none`: no list. -/
  compressRatios : Option (List (Except ConversionError Int)) := none
  /-- `some none`: no list of integers. -/
  dsparkTargetLayerIds : Option (Option (List Int)) := none
  nRoutedExperts : Except ConversionError Int := .ok 0

/-- `model.safetensors.index.json`. -/
structure WeightIndex where
  totalSize : Nat := 0
  /-- `none`: no dictionary. -/
  weightMap : Option (Dict String String) := none

structure ConversionMarker where
  format : String := ""
  inputDir : String := ""
  sourceConfigSha256 : String := ""
  sourceIndexSha256 : String := ""
  sourceShardsSha256 : String := ""
  complete : Bool := false
  deriving DecidableEq, Repr

/-- What stands under a name in a directory. -/
inductive FileContent
  | directory
  | config (config : ModelConfig)
  | index (index : WeightIndex)
  | marker (marker : ConversionMarker)
  | safetensors (file : SafetensorsFile)
  /-- A file that was not written to its end. -/
  | torn
  | other (text : String)

/-- The files of the input directory, in the order in which it lists them. -/
abbrev InputDirectory := Dict String FileContent

/-- A JSON object of another kind has none of the fields that are read. -/
def readConfig (path : String) : Option FileContent → Except ConversionError ModelConfig
  | some (.config config) => .ok config
  | some (.index _) | some (.marker _) => .ok {}
  | some .directory => .error (.os s!"[Errno 21] Is a directory: '{path}'")
  | some _ => .error (.value s!"invalid JSON in {path}")
  | none => .error (.value s!"missing required file: {path}")

def readIndex (path : String) : Option FileContent → Except ConversionError WeightIndex
  | some (.index index) => .ok index
  | some (.config _) | some (.marker _) => .ok {}
  | some .directory => .error (.os s!"[Errno 21] Is a directory: '{path}'")
  | some _ => .error (.value s!"invalid JSON in {path}")
  | none => .error (.value s!"missing required file: {path}")

def readMarker (path : String) : Option FileContent → Except ConversionError ConversionMarker
  | some (.marker marker) => .ok marker
  | some (.config _) | some (.index _) => .ok {}
  | some .directory => .error (.os s!"[Errno 21] Is a directory: '{path}'")
  | some _ => .error (.value s!"invalid JSON in {path}")
  | none => .error (.value s!"missing required file: {path}")

/-- `name.endswith(suffix)`. -/
def endsWith (name suffix : String) : Bool := suffix.toList.isSuffixOf name.toList

/-- `_source_scale_name`. -/
def sourceScaleName (weightName : String) : String :=
  String.ofList (weightName.toList.take (weightName.toList.length - 7)) ++ ".scale"

/-- `_source_weight_name`. -/
def sourceWeightName (scaleName : String) : String :=
  String.ofList (scaleName.toList.take (scaleName.toList.length - 6)) ++ ".weight"

/-- The scale of a listed weight: the converter reads it with its weight, and passes it over where
it goes through the tensors. -/
def IsPartnered (sourceMap : Dict String String) (name : String) : Prop :=
  endsWith name ".scale" = true ∧ sourceWeightName name ∈ sourceMap

instance (sourceMap : Dict String String) (name : String) : Decidable (IsPartnered sourceMap name) :=
  inferInstanceAs (Decidable (_ ∧ _))

/-- The zeros of the Unicode decimal digits; a script's nine others follow its zero. -/
def decimalZeros : List Nat :=
  [0x30, 0x660, 0x6F0, 0x7C0, 0x966, 0x9E6, 0xA66, 0xAE6, 0xB66, 0xBE6, 0xC66, 0xCE6, 0xD66, 0xDE6,
    0xE50, 0xED0, 0xF20, 0x1040, 0x1090, 0x17E0, 0x1810, 0x1946, 0x19D0, 0x1A80, 0x1A90, 0x1B50,
    0x1BB0, 0x1C40, 0x1C50, 0xA620, 0xA8D0, 0xA900, 0xA9D0, 0xA9F0, 0xAA50, 0xABF0, 0xFF10, 0x104A0,
    0x10D30, 0x11066, 0x110F0, 0x11136, 0x111D0, 0x112F0, 0x11450, 0x114D0, 0x11650, 0x116C0,
    0x11730, 0x118E0, 0x11950, 0x11C50, 0x11D50, 0x11DA0, 0x16A60, 0x16AC0, 0x16B50, 0x1D7CE,
    0x1D7D8, 0x1D7E2, 0x1D7EC, 0x1D7F6, 0x1E140, 0x1E2F0, 0x1E950, 0x1FBF0]

def decimalDigit (c : Char) : Option Nat :=
  (decimalZeros.find? fun first => first ≤ c.toNat ∧ c.toNat < first + 10).map (c.toNat - ·)

/-- `int` of what `\d+` matches. -/
def decimalNumber (s : String) : Option Nat :=
  if s = "" then none
  else s.toList.foldlM (fun n c => (decimalDigit c).map (10 * n + ·)) 0

def isDecimal (s : String) : Bool := (decimalNumber s).isSome

/-- What both patterns allow between the layer and the suffix. -/
def isSharedQuantModule : List String → Bool
  | ["attn", projection] => projection ∈ ["wq_b", "wo_b"]
  | ["ffn", "shared_experts", w] => w ∈ ["w1", "w2", "w3"]
  | ["ffn", "experts", expert, w] => isDecimal expert && w ∈ ["w1", "w2", "w3"]
  | _ => false

/-- `_is_serving_quantized_weight`; no alternative of a pattern spans a dot. -/
def isServingQuantizedWeight (name : String) (compressRatios : List Int) (mtpLayerCount : Nat) :
    Bool :=
  let parts := (name.toList.splitOn '.').map String.ofList
  if parts.getLast? ≠ some "weight" then false
  else match parts.dropLast with
    | "mtp" :: layer :: rest =>
      match decimalNumber layer with
      | none => false
      | some layerId =>
        (isSharedQuantModule rest || rest ∈ [["e_proj"], ["h_proj"]]) && layerId < mtpLayerCount
    | "layers" :: layer :: rest =>
      match decimalNumber layer with
      | none => false
      | some layerId =>
        isSharedQuantModule rest ||
          rest = ["attn", "indexer", "wq_b"] && compressRatios[layerId]? = some 4
    | _ => false

/-- `str.lower`, as far as a comparison with ASCII letters can tell: the Kelvin sign is the only
other character that becomes one. -/
def lower (s : String) : String :=
  String.ofList (s.toList.map fun c => if c.toNat = 0x212A then 'k' else c.toLower)

/-- `_safe_shard_path`: the file's name under the root. -/
def safeShardPath (filename : String) : Except ConversionError String :=
  if filename ∈ ["", ".", ".."] ∨ '/' ∈ filename.toList then
    .error (.value s!"unsafe shard filename in model index: '{filename}'")
  else .ok filename

/-- `_mtp_layer_count`. -/
def mtpLayerCount (config : ModelConfig) : Except ConversionError Nat :=
  match config.dsparkTargetLayerIds with
  | none => .ok 1
  | some targetLayerIds => do
    let numLayers ← config.numHiddenLayers
    match targetLayerIds with
    | none => throw (.value "config.json has invalid dspark_target_layer_ids")
    | some ids =>
      if ids = [] ∨ ¬ ids.Nodup ∨ ∃ layerId ∈ ids, layerId < 0 ∨ numLayers ≤ layerId then
        throw (.value "config.json has invalid dspark_target_layer_ids")
      else return ids.length

def dsparkCommonTensorSuffixes : List String :=
  ["attn.attn_sink", "attn.q_norm.weight", "attn.kv_norm.weight", "attn_norm.weight",
    "ffn_norm.weight", "ffn.gate.weight", "ffn.gate.bias", "hc_attn_base", "hc_attn_fn",
    "hc_attn_scale", "hc_ffn_base", "hc_ffn_fn", "hc_ffn_scale"]

def dsparkScaledModuleSuffixes : List String :=
  ["attn.wq_a", "attn.wq_b", "attn.wkv", "attn.wo_a", "attn.wo_b", "ffn.shared_experts.w1",
    "ffn.shared_experts.w2", "ffn.shared_experts.w3"]

def dsparkFirstLayerTensorSuffixes : List String :=
  ["main_norm.weight", "main_proj.weight", "main_proj.scale"]

def dsparkFinalLayerTensorSuffixes : List String :=
  ["confidence_head.proj.weight", "markov_head.markov_w1.weight", "markov_head.markov_w2.weight",
    "norm.weight", "hc_head_base", "hc_head_fn", "hc_head_scale"]

/-- A module's weight and scale. -/
def weightAndScale (suffix : String) : List String := [suffix ++ ".weight", suffix ++ ".scale"]

/-- `_required_dspark_tensor_names`. -/
def requiredDsparkTensorNames (mtpLayerCount nRoutedExperts : Nat) : List String :=
  (List.range mtpLayerCount).flatMap fun layerId =>
    let experts := (List.range nRoutedExperts).flatMap fun expertId =>
      [1, 2, 3].flatMap fun weightId => weightAndScale s!"ffn.experts.{expertId}.w{weightId}"
    let suffixes := dsparkCommonTensorSuffixes ++
      dsparkScaledModuleSuffixes.flatMap weightAndScale ++ experts ++
      (if layerId = 0 then dsparkFirstLayerTensorSuffixes else []) ++
      if layerId + 1 = mtpLayerCount then dsparkFinalLayerTensorSuffixes else []
    suffixes.map fun suffix => s!"mtp.{layerId}.{suffix}"

/-- `sorted(set(names))`. -/
def sortedNames (names : List String) : List String := names.dedup.insertionSort (· ≤ ·)

/-- The first of the names in their order is the one that a message reports. -/
def rejectFirst (names : List String) (message : String → String) : Except ConversionError Unit :=
  match sortedNames names with
  | [] => .ok ()
  | name :: _ => .error (.value (message name))

/-- `path.is_file()`. -/
def isFile (source : InputDirectory) (filename : String) : Bool :=
  match source.lookup filename with
  | none | some .directory => false
  | some _ => true

/-- What the configuration says: its ratios and the number of MTP layers. -/
def validateConfig (inputDir : String) (config : ModelConfig) :
    Except ConversionError (List (Except ConversionError Int) × Nat × Nat) := do
  let architectures ← config.architectures
  if lower config.modelType ≠ "deepseek_v4" ∧ "deepseekv4forcausallm" ∉ architectures.map lower then
    throw (.value s!"{inputDir} is not a DeepSeek-V4 checkpoint")
  let quantMethod ← config.quantization.quantMethod
  if quantMethod ≠ "'fp8'" then
    throw (.value ("expected the original Hybrid FP8/MXFP4 checkpoint, " ++
      s!"got quant_method={quantMethod}"))
  let numLayers ← config.numHiddenLayers
  match config.compressRatios with
  | none =>
    throw (.value "config.json has an invalid num_hidden_layers/compress_ratios contract")
  | some compressRatios =>
    if numLayers ≤ 0 then
      throw (.value "config.json has an invalid num_hidden_layers/compress_ratios contract")
    let layerCount ← mtpLayerCount config
    if (compressRatios.length : Int) ≠ numLayers + layerCount then
      throw (.value ("config.json compress_ratios must include one entry per hidden layer and " ++
        s!"MTP/DSpark layer: expected {numLayers + layerCount}, got {compressRatios.length}"))
    let nRoutedExperts ← config.nRoutedExperts
    if nRoutedExperts ≤ 0 then
      throw (.value "config.json has an invalid n_routed_experts value")
    return (compressRatios, layerCount, nRoutedExperts.toNat)

/-- Every shard of the index is a file of the directory. -/
def validateShards (inputDir : String) (source : InputDirectory) (weightMap : Dict String String) :
    Except ConversionError Unit := do
  let filenames := (weightMap.entries.map (·.2)).dedup
  filenames.forM fun filename => discard (safeShardPath filename)
  rejectFirst (filenames.filter fun filename => !isFile source filename) fun filename =>
    s!"missing source shard: {inputDir}/{filename}"

/-- `_validate_source`. -/
def validateSource (inputDir : String) (source : InputDirectory) :
    Except ConversionError (ModelConfig × Dict String String) := do
  let config ← readConfig s!"{inputDir}/config.json" (source.lookup "config.json")
  let (compressRatios, mtpLayerCount, nRoutedExperts) ← validateConfig inputDir config
  let index ← readIndex s!"{inputDir}/model.safetensors.index.json"
    (source.lookup "model.safetensors.index.json")
  match index.weightMap with
  | none => throw (.value "model.safetensors.index.json has no weight_map")
  | some weightMap =>
    if weightMap.entries = [] then
      throw (.value "model.safetensors.index.json has no weight_map")
    validateShards inputDir source weightMap
    let compressRatios ← compressRatios.mapM id
    if config.dsparkTargetLayerIds.isSome then
      rejectFirst ((requiredDsparkTensorNames mtpLayerCount nRoutedExperts).filter
        (· ∉ weightMap.keys)) fun name => s!"checkpoint is missing required MTP/DSpark tensor: {name}"
    rejectFirst (weightMap.keys.filter fun name => endsWith name ".weight" &&
      isServingQuantizedWeight name compressRatios mtpLayerCount &&
        sourceScaleName name ∉ weightMap.keys) fun name =>
      s!"missing source scale for serving-quantized weight: {name}"
    return (config, weightMap)

end PyptoServing.Weights
