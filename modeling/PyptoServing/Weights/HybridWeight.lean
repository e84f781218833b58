import PyptoServing.Lib.Dict
import PyptoServing.Lib.Elementwise
import PyptoServing.Lib.Fallible
import PyptoServing.Lib.Rounding

/-!
# Hybrid weights

The conversion of FP8 and packed MXFP4 weights in exact arithmetic: source tensors are read as
bytes, and a value is a rational or, for the two encodings that are no number, nothing.
-/
namespace PyptoServing.Weights

open Lib

def fp8BlockSize : Nat := 128
def mxfp4GroupSize : Nat := 32
def int8Max : Int := 127
def int8AmaxEps : Rat := 1 / 10000

/-- The element types of source weights. -/
inductive SourceDType
  | int8
  | float8E4m3fn
  | other (name : String)
  deriving DecidableEq, Repr

def SourceDType.name : SourceDType → String
  | .int8 => "torch.int8"
  | .float8E4m3fn => "torch.float8_e4m3fn"
  | .other name => name

/-- A source weight with the encodings of its elements. -/
abbrev SourceWeight := Tensor SourceDType (BitVec 8)

/-- A tensor of FP32 values; `none` is NaN. -/
abbrev Values := Tensor Unit (Option Rat)

/-- `tuple(shape)` in a message. -/
def showShape (shape : List Nat) : String :=
  "(" ++ ", ".intercalate (shape.map toString) ++ if shape.length = 1 then ",)" else ")"

/-- What a safetensors header says of one tensor. -/
structure TensorMetadata where
  dtype : String
  shape : List Nat
  dataOffsets : Nat × Nat

/-- A safetensors file: its header, and the bytes behind it. -/
structure SafetensorsFile where
  header : Dict String TensorMetadata
  data : List (BitVec 8)

/-- `torch.ldexp(1, encoded - 127)`. -/
def e8m0Value (encoded : BitVec 8) : Rat := 2 ^ ((encoded.toNat : Int) - 127)

/-- The bytes of a tensor. -/
def payload (file : SafetensorsFile) (metadata : TensorMetadata) : List (BitVec 8) :=
  (file.data.drop metadata.dataOffsets.1).take metadata.shape.prod

/-- `_load_e8m0_scale`. -/
def loadE8m0Scale (path : String) (file : SafetensorsFile) (name : String) :
    Except String (Tensor Unit Rat) :=
  match file.header.lookup name with
  | none => .error s!"missing F8_E8M0 tensor '{name}' in {path}"
  | some metadata =>
    if metadata.dtype ≠ "F8_E8M0" then .error s!"missing F8_E8M0 tensor '{name}' in {path}"
    else if (metadata.dataOffsets.2 : Int) - metadata.dataOffsets.1 ≠ metadata.shape.prod then
      .error s!"invalid F8_E8M0 data offsets for '{name}' in {path}"
    else
      let encoded := payload file metadata
      if encoded.length ≠ metadata.shape.prod then
        .error s!"truncated F8_E8M0 tensor '{name}' in {path}"
      else if encoded = [] then
        -- `torch.frombuffer` takes no empty buffer.
        .error "both buffer length (0) and count (-1) must not be 0"
      else if 0xFF#8 ∈ encoded then .error s!"F8_E8M0 tensor '{name}' in {path} contains NaN"
      else .ok ⟨metadata.shape, (), fun idx =>
        e8m0Value (encoded.getD (Tensor.ravel metadata.shape idx) 0)⟩

/-- `_MXFP4_VALUES`. -/
def mxfp4Values : List Rat :=
  [0, 1 / 2, 1, 3 / 2, 2, 3, 4, 6, 0, -1 / 2, -1, -3 / 2, -2, -3, -4, -6]

/-- `packed & 0x0F`. -/
def lowNibble (packed : BitVec 8) : Nat := (packed &&& 0x0F#8).toNat

/-- `(packed >> 4) & 0x0F`. -/
def highNibble (packed : BitVec 8) : Nat := ((packed >>> 4) &&& 0x0F#8).toNat

/-- The value of an FP8 E4M3 encoding. -/
def e4m3Value (encoded : BitVec 8) : Option Rat :=
  let sign : Rat := if encoded.toNat / 128 = 0 then 1 else -1
  let exponent := encoded.toNat / 8 % 16
  let mantissa := encoded.toNat % 8
  if exponent = 15 ∧ mantissa = 7 then none
  else if exponent = 0 then some (sign * mantissa * 2 ^ (-9 : Int))
  else some (sign * (8 + mantissa) * 2 ^ ((exponent : Int) - 10))

/-- `_unpack_mxfp4`. -/
def unpackMxfp4 (weight : SourceWeight) : Except String Values :=
  match weight.dtype, weight.shape with
  | .int8, [rows, cols] =>
    let indices := (weight.mapAs () lowNibble).stackLast [weight.mapAs () highNibble]
    .ok ((indices.mapAs () fun index => some (mxfp4Values.getD index 0)).reshape [rows, cols * 2])
  | dtype, shape =>
    .error s!"MXFP4 weight must be rank-2 INT8, got {dtype.name}/{showShape shape}"

/-- How many groups a row or a column of blocks has. -/
def numGroups (size group : Nat) : Nat := (size + group - 1) / group

/-- `_dequantize_hybrid_weight`. -/
def dequantizeHybridWeight (weight : SourceWeight) (scale : Tensor Unit Rat) :
    Except String Values :=
  if weight.shape.length ≠ 2 ∨ scale.shape.length ≠ 2 then
    .error (s!"source quantized weight/scale must be rank-2, got {showShape weight.shape}/" ++
      showShape scale.shape)
  else
    let rows := weight.shape.getD 0 0
    let cols := weight.shape.getD 1 0
    match weight.dtype with
    | .int8 => do
      let unpacked ← unpackMxfp4 weight
      let expected := [unpacked.width 0, numGroups (unpacked.width 1) mxfp4GroupSize]
      if scale.shape ≠ expected then
        .error (s!"MXFP4 scale shape mismatch: expected {showShape expected}, got " ++
          showShape scale.shape)
      else
        let expanded := scale.repeatInterleave mxfp4GroupSize 1
        unpacked.zipWith (fun value s => value.map (· * s)) (expanded.narrow 1 0 (unpacked.width 1))
    | .float8E4m3fn =>
      let expected := [numGroups rows fp8BlockSize, numGroups cols fp8BlockSize]
      if scale.shape ≠ expected then
        .error (s!"FP8 scale shape mismatch: expected {showShape expected}, got " ++
          showShape scale.shape)
      else
        let expanded := (scale.repeatInterleave fp8BlockSize 0).repeatInterleave fp8BlockSize 1
        (weight.mapAs () e4m3Value).zipWith (fun value s => value.map (· * s))
          ((expanded.narrow 0 0 rows).narrow 1 0 cols)
    | .other name => .error s!"unsupported source quantized dtype: {name}"

/-- `row.abs().amax()`: NaN where a value is. -/
def amax (row : List (Option Rat)) : Option Rat :=
  if none ∈ row then none else (row.reduceOption.map (|·|)).max?

/-- `amax.clamp_min(INT8_AMAX_EPS) / INT8_MAX`. -/
def outputScale (row : List (Option Rat)) : Option Rat :=
  (amax row).map fun largest => max largest int8AmaxEps / int8Max

/-- `torch.round(value / scale).clamp(-INT8_MAX, INT8_MAX)`. -/
def quantizeValue (value scale : Rat) : Int :=
  max (-int8Max) (min (roundHalfEven (value / scale)) int8Max)

/-- The row of an element of a matrix. -/
def rowOf (weight : Values) (i : Nat) : List (Option Rat) :=
  (List.range (weight.width 1)).map fun j => weight.get [i, j]

/-- `_quantize_weight_per_output` of a matrix; an INT8 element that is converted from NaN has no
value. -/
def quantizeWeightPerOutput (weight : Values) :
    Except String (Tensor Unit (Option Int) × Values) :=
  if weight.width 1 = 0 then
    .error "amax(): Expected reduction dim -1 to have non-zero size."
  else
    let scale : Values := ⟨[weight.width 0], (), fun idx => outputScale (rowOf weight (idx.headD 0))⟩
    .ok (⟨weight.shape, (), fun idx =>
      (weight.get idx).bind fun value => (scale.get [idx.headD 0]).map (quantizeValue value)⟩, scale)

end PyptoServing.Weights
