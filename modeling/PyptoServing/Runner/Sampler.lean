import PyptoServing.Lib.Session
import PyptoServing.Sched.Request

/-!
# The host sampler

Greedy, top-k and top-p sampling over a row of logits or of device-selected candidates. The
tensor arithmetic is a parameter. A request with a seed keeps its own generator from its
first draw until it is released.
-/
namespace PyptoServing.Runner

open Lib Memory Sched

structure SamplingParams where
  temperature : Rat
  topP : Rat
  topK : Option Int := none
  seed : Option Int := none
  deriving DecidableEq

/-- A row of a tensor, and its device. -/
structure Row (F : Type*) where
  device : String
  values : List F
  deriving DecidableEq

/-- Device-selected sampling candidates. -/
structure SamplingCandidates (F : Type*) where
  device : String
  values : List (List F)
  tokenIds : List (List Int)
  deriving DecidableEq

/-- A `torch.Generator`: its state follows from its seed and from the draws made with it. -/
structure Generator (F : Type*) where
  device : String
  seed : Nat
  drawn : List (List F) := []
  deriving DecidableEq

/-- The tensor arithmetic of one row. -/
structure TensorOps (F : Type*) where
  sanitize : List F → List F
  /-- `logits / max(temperature, 1e-5)`. -/
  scale : List F → Rat → List F
  keepTopk : List F → Int → List F
  softmax : List F → List F
  isValidDistribution : List F → Bool
  /-- The most likely tokens up to a mass of `top_p`, unless their mass is no number. -/
  nucleus : List F → Rat → Option (List F)
  argmax : List F → Nat
  /-- The position that a draw with a generator selects. -/
  multinomial : Generator F → List F → Nat

variable {F : Type*}

namespace TensorOps
variable (ops : TensorOps F)

/-- The probabilities of a scaled row; without them the choice is greedy. -/
def distribution (params : SamplingParams) (scaled : List F) : Option (List F) :=
  let probs := ops.softmax scaled
  if ¬ ops.isValidDistribution probs then none
  else if 0 < params.topP ∧ params.topP < 1 then
    (ops.nucleus probs params.topP).filter ops.isValidDistribution
  else some probs

/-- The logits that `sample` turns into probabilities. -/
def scaledLogits (params : SamplingParams) (values : List F) : List F :=
  let scaled := ops.scale values params.temperature
  match params.topK with
  | some k => if 0 < k ∧ k < scaled.length then ops.keepTopk scaled k else scaled
  | none => scaled

end TensorOps

namespace SamplingCandidates

/-- The candidates of one row that `sample_from_candidates` chooses from. -/
def row (candidates : SamplingCandidates F) (ops : TensorOps F) (rowIdx : Nat)
    (params : SamplingParams) : Except String (List F × List Int) :=
  let valueRows := candidates.values.length
  let tokenIdRows := candidates.tokenIds.length
  if valueRows ≠ tokenIdRows then
    .error s!"candidate values/ids row mismatch: {valueRows} != {tokenIdRows}"
  else
    match candidates.values[rowIdx]?, candidates.tokenIds[rowIdx]? with
    | some values, some tokenIds =>
      if values.isEmpty ∨ tokenIds.isEmpty then .error "sampling candidates must not be empty"
      else if values.length ≠ tokenIds.length then
        .error s!"candidate values/ids width mismatch: {values.length} != {tokenIds.length}"
      else
        let width :=
          match params.topK with
          | some k => if 0 < k then min values.length k.toNat else values.length
          | none => values.length
        .ok (ops.sanitize (values.take width), tokenIds.take width)
    | _, _ => .error s!"row_idx {rowIdx} is out of bounds for candidates with {valueRows} rows"

end SamplingCandidates

structure Sampler (F : Type*) where
  generators : Dict RequestId (Generator F) := ∅
  /-- The generator of a draw without a seed. -/
  ambient : Generator F

namespace Sampler
variable (ops : TensorOps F) (s : Sampler F)

/-- `int(params.seed) & 0x3FFFFFFF`. -/
def maskSeed (seed : Int) : Nat := (seed % 0x40000000).toNat

/-- `_generator` for a seed. -/
def generatorFor (device : String) (seed : Int) (r : RequestId) : Generator F :=
  match s.generators.lookup r with
  | some cached =>
    if cached.seed = maskSeed seed ∧ cached.device = device then cached
    else { device, seed := maskSeed seed }
  | none => { device, seed := maskSeed seed }

/-- `torch.multinomial`, which advances the generator it is given. -/
def multinomial (device : String) (probs : List F) (params : SamplingParams)
    (requestId : Option RequestId) : Nat × Sampler F :=
  match params.seed, requestId with
  | none, _ =>
    (ops.multinomial s.ambient probs,
      { s with ambient := { s.ambient with drawn := s.ambient.drawn ++ [probs] } })
  | some seed, none => (ops.multinomial { device, seed := maskSeed seed } probs, s)
  | some seed, some r =>
    let generator := s.generatorFor device seed r
    (ops.multinomial generator probs,
      { s with generators :=
          s.generators.insert r { generator with drawn := generator.drawn ++ [probs] } })

/-- `sample`. -/
def sample (logits : Row F) (params : SamplingParams) (requestId : Option RequestId) :
    Int × Sampler F :=
  let values := ops.sanitize logits.values
  if params.temperature ≤ 0 then (ops.argmax values, s)
  else
    match ops.distribution params (ops.scaledLogits params values) with
    | none => (ops.argmax values, s)
    | some probs =>
      let (position, s) := s.multinomial ops logits.device probs params requestId
      (position, s)

/-- `token_ids[position]`. -/
def tokenAt (tokenIds : List Int) (position : Nat) : Except String Int :=
  match tokenIds[position]? with
  | some token => .ok token
  | none => .error s!"index {position} is out of bounds for dimension 0 with size {tokenIds.length}"

/-- `sample_from_candidates`. -/
def sampleFromCandidates (candidates : SamplingCandidates F) (rowIdx : Nat)
    (params : SamplingParams) (requestId : Option RequestId) : Except String Int × Sampler F :=
  match candidates.row ops rowIdx params with
  | .error error => (.error error, s)
  | .ok (values, tokenIds) =>
    if params.temperature ≤ 0 then (tokenAt tokenIds (ops.argmax values), s)
    else
      match ops.distribution params (ops.scale values params.temperature) with
      | none => (tokenAt tokenIds (ops.argmax values), s)
      | some probs =>
        let (position, s) := s.multinomial ops candidates.device probs params requestId
        (tokenAt tokenIds position, s)

/-- `release_requests`. -/
def releaseRequests (requestIds : List RequestId) : Sampler F :=
  { s with generators := requestIds.foldl (fun d r => d.erase r) s.generators }

end Sampler
end PyptoServing.Runner
