import PyptoServing.Weights.Conversion

/-!
# Packed files

A small version of the libraries: tensors are saved one behind the other, and a file opens if its
tensors lie inside its data. It has the documented properties.
-/
namespace PyptoServing.Weights

open Lib

/-- The FP32 encoding of a number in the range of the normal ones, or of zero. -/
def float32Bits (x : Rat) : Nat :=
  if x = 0 then 0
  else
    let exponent := Int.log 2 |x|
    let significand := roundHalfEven (|x| / 2 ^ (exponent - 23))
    (if x < 0 then 2 ^ 31 else 0) + ((exponent + 126) * 2 ^ 23 + significand).toNat

/-- BF16 is the upper half of FP32, rounded. -/
def bfloat16Bits (x : Rat) : Nat := (roundHalfEven ((float32Bits x : Rat) / 2 ^ 16)).toNat

def littleEndian (bits bytes : Nat) : List (BitVec 8) :=
  (List.range bytes).map fun i => BitVec.ofNat 8 (bits / 256 ^ i)

def elements {α : Type} (tensor : Tensor Unit α) : List α :=
  (List.range tensor.shape.prod).map fun n => tensor.get (Tensor.unravel tensor.shape n)

/-- The bytes that a tensor is saved as. -/
def SavedTensor.bytes : SavedTensor → List (BitVec 8)
  | .plain _ _ bytes => bytes
  | .int8 tensor => (elements tensor).map fun value => BitVec.ofInt 8 (value.getD 0)
  | .float32 tensor => (elements tensor).flatMap fun value =>
    littleEndian (float32Bits (value.getD 0)) 4
  | .bfloat16 tensor => (elements tensor).flatMap fun value =>
    littleEndian (bfloat16Bits (value.getD 0)) 2

/-- The places of tensors that are saved one behind the other. -/
def placed : Nat → List (Σ _ : String, SavedTensor) → List (String × TensorMetadata)
  | _, [] => []
  | start, e :: l =>
    let stop := start + e.2.bytes.length
    (e.1, ⟨e.2.spec.1, e.2.spec.2, (start, stop)⟩) :: placed stop l

def packFile (tensors : Dict String SavedTensor) : SafetensorsFile where
  header := Dict.assign ∅ (placed 0 tensors.entries)
  data := tensors.entries.flatMap fun e => e.2.bytes

/-- A tensor lies inside the data, and has the length that its shape says. -/
def insideData (data : List (BitVec 8)) (metadata : TensorMetadata) : Bool :=
  metadata.dataOffsets.1 ≤ metadata.dataOffsets.2 && metadata.dataOffsets.2 ≤ data.length &&
    (metadata.dtype ≠ "F8_E8M0" ||
      metadata.dataOffsets.2 - metadata.dataOffsets.1 = metadata.shape.prod)

def openPacked : FileContent → Except String SafetensorsFile
  | .safetensors file =>
    if file.header.entries.all fun e => insideData file.data e.2 then .ok file
    else .error "Error while deserializing header: MetadataIncompleteBuffer"
  | _ => .error "Error while deserializing header: HeaderTooLarge"

def packedDtype : String → Option SourceDType
  | "I8" => some .int8
  | "F8_E4M3" => some .float8E4m3fn
  | "F32" => some (.other "torch.float32")
  | "BF16" => some (.other "torch.bfloat16")
  | _ => none

/-- Libraries that pack; their digests tell no files apart. -/
def packedLibraries : Libraries where
  safeOpen := openPacked
  torchDtype := packedDtype
  saveFile := packFile
  fileDigest _ := "digest"
  shardsDigest shards := "".intercalate (shards.map (·.1))

theorem mem_placed {start : Nat} {l : List (Σ _ : String, SavedTensor)} {name : String}
    {metadata : TensorMetadata} (h : (name, metadata) ∈ placed start l) :
    ∃ tensor, ⟨name, tensor⟩ ∈ l ∧ metadata.spec = tensor.spec ∧
      metadata.dataOffsets.2 = metadata.dataOffsets.1 + tensor.bytes.length ∧
      metadata.dataOffsets.2 ≤ start + (l.flatMap fun e => e.2.bytes).length := by
  induction l generalizing start with
  | nil => cases h
  | cons e l ih =>
    rw [List.flatMap_cons, List.length_append]
    rcases List.mem_cons.mp h with heq | hmem
    · obtain ⟨rfl, rfl⟩ := Prod.mk.inj heq
      exact ⟨e.2, by simp, rfl, rfl, by dsimp only; omega⟩
    · obtain ⟨tensor, htensor, hspec, hoffsets, hle⟩ := ih hmem
      exact ⟨tensor, by simp [htensor], hspec, hoffsets, by omega⟩

theorem placed_keys (start : Nat) (l : List (Σ _ : String, SavedTensor)) :
    (placed start l).map (·.1) = l.map (·.1) := by
  induction l generalizing start with
  | nil => rfl
  | cons e l ih => rw [placed, List.map_cons, ih, List.map_cons]

theorem SavedTensor.Sized.length {tensor : SavedTensor} (h : tensor.Sized)
    (hdtype : tensor.spec.1 = "F8_E8M0") : tensor.bytes.length = tensor.spec.2.prod := by
  cases tensor with
  | plain dtype shape bytes => exact h hdtype
  | int8 tensor => exact absurd hdtype (by simp [SavedTensor.spec])
  | float32 tensor => exact absurd hdtype (by simp [SavedTensor.spec])
  | bfloat16 tensor => exact absurd hdtype (by simp [SavedTensor.spec])

theorem openPacked_ok {content : FileContent} {file : SafetensorsFile}
    (h : openPacked content = .ok file) : content = .safetensors file ∧
      ∀ name metadata, file.header.lookup name = some metadata →
        insideData file.data metadata = true := by
  cases content with
  | safetensors file' =>
    dsimp only [openPacked] at h
    split at h
    next hall =>
      cases h
      exact ⟨rfl, fun name metadata hmeta =>
        List.all_eq_true.mp hall _ (AList.mem_lookup_iff.mp hmeta)⟩
    next => cases h
  | directory | config _ | index _ | marker _ | torn | other _ => cases h

theorem packedLibraries_documented : packedLibraries.Documented where
  content content file h := (openPacked_ok h).1
  offsets file h name metadata hmeta := by
    have hopen : openPacked (.safetensors file) = .ok file := h
    have hinside := (openPacked_ok hopen).2 name metadata hmeta
    simp only [insideData, Bool.and_eq_true, Bool.or_eq_true, decide_eq_true_eq] at hinside
    exact ⟨hinside.1.1, hinside.1.2, fun hdtype => hinside.2.resolve_left (not_not.mpr hdtype)⟩
  int8 := rfl
  float8 := rfl
  saved tensors hsized := by
    have hplaced : ∀ name metadata, (packFile tensors).header.lookup name = some metadata →
        ∃ tensor, tensors.lookup name = some tensor ∧ metadata.spec = tensor.spec ∧
          insideData (packFile tensors).data metadata = true := by
      intro name metadata hmeta
      obtain ⟨tensor, hmem, hspec, hoffsets, hle⟩ := mem_placed (Dict.mem_of_lookup_assign hmeta)
      have hlook : tensors.lookup name = some tensor := AList.mem_lookup_iff.mpr hmem
      refine ⟨tensor, hlook, hspec, ?_⟩
      simp only [insideData, Bool.and_eq_true, Bool.or_eq_true, decide_eq_true_eq]
      obtain ⟨hdtype, hshape⟩ := Prod.mk.inj hspec
      refine ⟨⟨by omega, ?_⟩, or_iff_not_imp_left.mpr fun h => ?_⟩
      · rw [Nat.zero_add] at hle
        exact hle
      · have hlength := (hsized name tensor hlook).length (hdtype.symm.trans (not_not.mp h))
        rw [hshape, hoffsets, Nat.add_sub_cancel_left]
        exact hlength
    constructor
    · refine if_pos (List.all_eq_true.mpr fun e he => ?_)
      obtain ⟨tensor, -, -, hinside⟩ := hplaced e.1 e.2 (AList.mem_lookup_iff.mpr he)
      exact hinside
    · intro name
      cases hmeta : (packFile tensors).header.lookup name with
      | some metadata =>
        obtain ⟨tensor, hlook, hspec, -⟩ := hplaced name metadata hmeta
        rw [show (packedLibraries.saveFile tensors).header.lookup name = _ from hmeta, hlook,
          Option.map_some, Option.map_some, hspec]
      | none =>
        have hnone : tensors.lookup name = none := by
          rw [AList.lookup_eq_none, AList.mem_keys]
          intro hmem
          have hkey : name ∈ (placed 0 tensors.entries).map (·.1) := by
            rw [placed_keys]
            exact hmem
          have hsome := Dict.lookup_assign_isSome (d := ∅) hkey
          rw [show (Dict.assign ∅ (placed 0 tensors.entries)).lookup name = none from hmeta] at hsome
          cases hsome
        rw [show (packedLibraries.saveFile tensors).header.lookup name = _ from hmeta, hnone]
        rfl

end PyptoServing.Weights
