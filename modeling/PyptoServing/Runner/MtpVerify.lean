import PyptoServing.Lib.Raising
import PyptoServing.Lib.Speculation
import PyptoServing.Runner.DecodeBatch
import PyptoServing.Runner.Sampler

/-!
# Verifying drafts

`_verify_mtp_drafts`: the target runs over the current token and its drafts in chunks of the
compiled width, and requests drop out where a draft is not predicted. The main decode kernel is a
parameter; it reads what the host staged, and the block tables of a row stand for the request
that owns them.
-/
namespace PyptoServing.Runner

open Lib Lib.Raising Memory Sched

/-- `tensor[indices]`, or a list picked by indices. -/
def rowsAt {α : Type} (rows : List α) (indices : List Nat) : List α := indices.filterMap (rows[·]?)

/-- What a decode batch holds for one request; `tokenId` is `token_ids[row, 0]`. -/
structure DecodeRow where
  requestId : RequestId
  tokenId : Int
  seqLen : Nat
  cachePartition : Option Nat
  deriving Inhabited

/-- `DecodeBatch`. -/
structure DecodeBatch where
  rows : List DecodeRow
  allowDeviceGreedySampling : Bool := false
  samplingParams : List SamplingParams := []

/-- `_select_decode_batch_rows`. The sampling parameters are not selected. -/
def selectDecodeBatchRows (batch : DecodeBatch) (indices : List Nat) : DecodeBatch :=
  { batch with rows := rowsAt batch.rows indices }

/-- `_decode_assignment` of a batch. -/
def DecodeBatch.assignment (layout : DeepSeekV4CacheLayout) (batch : DecodeBatch) :
    Except String DecodeAssignment :=
  (decodeAssignment layout (batch.rows.map (·.requestId)) (batch.rows.map (·.cachePartition))).mapError
    AssignmentError.message

/-- The staged inputs of one dispatch: for each rank and local row the owner of the block tables,
the tokens and positions of the compiled width, the length and the sampling parameters. -/
structure DecodeInputs where
  ranks : List Nat
  localRows : List Nat
  owners : List (List RequestId)
  inputIds : Nat → Nat → List Int
  positionIds : Nat → Nat → List Nat
  kvSeqLens : Nat → Nat → Nat
  samplingParams : Nat → Nat → Option SamplingParams
  numTokensPerOwner : List Nat

/-- The request staged in a local row: its own, or the first one of the rank, or of the batch. -/
def stagedIndex (assignment : DecodeAssignment) (rank row : Nat) : Nat :=
  let indices := assignment.indicesByRank.getD rank []
  (indices[row]?.orElse fun _ => indices.head?).getD 0

def defaultSampling : SamplingParams := { temperature := 0, topP := 1 }

/-- `_stage_decode_dynamic_inputs` and the row counts of `_prepare_decode_inputs`. -/
def stageDecode (batch : DecodeBatch) (assignment : DecodeAssignment) (activeSeq : Nat)
    (positions : List (List Nat)) (tokenRows : List (List Int)) : DecodeInputs where
  ranks := assignment.ranks
  localRows := assignment.localRows
  owners := assignment.indicesByRank.map fun indices =>
    (rowsAt batch.rows indices).map (·.requestId)
  inputIds rank row := tokenRows.getD (stagedIndex assignment rank row) []
  positionIds rank row := positions.getD (stagedIndex assignment rank row) []
  kvSeqLens rank row := ((batch.rows[stagedIndex assignment rank row]?).map (·.seqLen)).getD 0
  samplingParams rank row :=
    ((assignment.indicesByRank.getD rank [])[row]?).map fun index =>
      if batch.samplingParams = [] then defaultSampling
      else batch.samplingParams.getD index defaultSampling
  numTokensPerOwner := assignment.perRankCounts.map (· * activeSeq)

/-- `_prepare_decode_inputs`. -/
def prepareDecodeInputs (layout : DeepSeekV4CacheLayout) (numSpeculativeTokens maxSeqLen : Nat)
    (batch : DecodeBatch) (assignment : DecodeAssignment) (activeSeq : Nat)
    (positions : List (List Nat)) (tokenRows : List (List Int)) : Except String DecodeInputs :=
  let maxPosition := positions.flatten.foldr max 0
  if maxSeqLen ≤ maxPosition then
    .error s!"decode position {maxPosition} exceeds max_seq_len={maxSeqLen}"
  else if numSpeculativeTokens ≠ 1 ∧ batch.samplingParams ≠ [] ∧
      batch.samplingParams.length ≠ batch.rows.length then
    .error "decode sampling params must align with request IDs"
  else
    match assignment.perRankCounts.zipIdx.find? fun e => layout.decodeTokens < e.1 * activeSeq with
    | some (count, rank) =>
      .error (s!"rank {rank} requires {count * activeSeq} logit rows, " ++
        s!"capacity is {layout.decodeTokens}")
    | none => .ok (stageDecode batch assignment activeSeq positions tokenRows)

/-- `prepare_mtp_target_inputs`. -/
def prepareMtpTargetInputs (layout : DeepSeekV4CacheLayout) (numSpeculativeTokens maxSeqLen : Nat)
    (batch : DecodeBatch) (tokenRows : List (List Int)) (positions : List (List Nat))
    (activeWidth : Nat) : Except String DecodeInputs :=
  let actualBatch := batch.rows.length
  if tokenRows.length ≠ actualBatch ∨ tokenRows.any fun row => row.length ≠ layout.decodeSeq then
    .error (s!"MTP target token rows must have shape {(actualBatch, layout.decodeSeq)}, " ++
      s!"got {(tokenRows.length, (tokenRows.head?.map List.length).getD 0)}")
  else if activeWidth < 1 ∨ layout.decodeSeq < activeWidth then
    .error "MTP target active width must fit the fixed decode sequence"
  else if positions.length ≠ actualBatch ∨ positions.any fun row => row.length ≠ layout.decodeSeq then
    .error "MTP target positions must align with the fixed decode sequence"
  else do
    let assignment ← batch.assignment layout
    if activeWidth < layout.decodeSeq ∧ assignment.perRankCounts.any fun count => 1 < count then
      .error "partial MTP target chunks require at most one request per rank"
    else
      prepareDecodeInputs layout numSpeculativeTokens maxSeqLen batch assignment activeWidth positions
        tokenRows

/-- The outputs by rank and packed row. -/
structure MainDecodeOutput (H L : Type) where
  sampledIds : Nat → Nat → Int
  preHcHidden : Nat → Nat → H
  logits : Nat → Nat → L

/-- What a dispatch raises: a `RuntimeError`, or another exception with its text. -/
inductive DispatchError
  | runtimeError
  | other (message : String)

/-- The packed main-model decode kernel with its device state, which a dispatch that fails may have
written to; `holds` says which token's rows the blocks of a request hold at a position. -/
structure DecodeKernel (σ H L : Type) where
  run : σ → DecodeInputs → σ × Except DispatchError (MainDecodeOutput H L)
  holds : σ → RequestId → Nat → Option Int

/-- The device, and the dispatches made so far. -/
structure Device (σ : Type) where
  state : σ
  dispatched : List DecodeInputs := []

variable {σ H L : Type}

/-- A tuple of numbers as Python prints it. -/
def tupleRepr : List Nat → String
  | [n] => s!"({n},)"
  | numbers => "(" ++ ", ".intercalate (numbers.map toString) ++ ")"

/-- What a failed dispatch is reported as: `except RuntimeError` rewords, the others pass through. -/
def DispatchError.message (inputs : DecodeInputs) : DispatchError → String
  | runtimeError => "DeepSeekV4 packed decode dispatch failed " ++
      s!"(actual_batch={inputs.ranks.length}, ranks={tupleRepr inputs.ranks})"
  | other message => message

/-- `_execute_main_decode`. -/
def executeMainDecode (kernel : DecodeKernel σ H L) (inputs : DecodeInputs) :
    Raising String (Device σ) (MainDecodeOutput H L) := do
  let device ← get
  let (state, result) := kernel.run device.state inputs
  set ({ state, dispatched := device.dispatched ++ [inputs] } : Device σ)
  MonadExcept.ofExcept (result.mapError (DispatchError.message inputs))

/-- The last accepted prediction, its hidden row and its position. -/
structure Tail (H : Type) where
  token : Int
  hidden : H
  position : Nat

/-- The entries of one request in the lists of `_verify_mtp_drafts`, and in `pending`. -/
structure Progress (H L : Type) where
  accepted : List Int := []
  firstLogits : Option L := none
  tail : Option (Tail H) := none
  pending : Option (Tail H) := none

/-- A request that waits for the first draft of a chunk. -/
def resolvePending (drafts : List (List Int)) (inputOffset : Nat)
    (acc : (Nat → Progress H L) × List Nat) (requestIndex : Nat) :
    Except String ((Nat → Progress H L) × List Nat) :=
  let progress := acc.1 requestIndex
  match progress.pending with
  | none => .error s!"{requestIndex}"
  | some tail =>
    let progress := { progress with accepted := progress.accepted ++ [tail.token], pending := none }
    if (drafts.getD requestIndex [])[inputOffset - 1]? = some tail.token then
      .ok (Function.update acc.1 requestIndex progress, acc.2 ++ [requestIndex])
    else .ok (Function.update acc.1 requestIndex { progress with tail := some tail }, acc.2)

/-- The drafts inside a chunk; whether one was rejected. -/
def acceptOffsets (predicted : Nat → Int) (hidden : Nat → H) (positions : List Nat)
    (drafts : List Int) (inputOffset : Nat) : List Nat → Progress H L → Progress H L × Bool
  | [], progress => (progress, false)
  | offset :: offsets, progress =>
    let progress := { progress with accepted := progress.accepted ++ [predicted offset] }
    if drafts[inputOffset + offset]? ≠ some (predicted offset) then
      ({ progress with
        tail := some ⟨predicted offset, hidden offset, positions.getD offset 0 + 1⟩ }, true)
    else acceptOffsets predicted hidden positions drafts inputOffset offsets progress

/-- The rows of one request in a dispatch; whether it goes on to the next chunk. -/
def acceptRows (predicted : Nat → Int) (hidden : Nat → H) (logits : Nat → L) (positions : List Nat)
    (drafts : List Int) (numDrafts inputOffset realWidth : Nat) (progress : Progress H L) :
    Progress H L × Bool :=
  let progress := { progress with firstLogits := progress.firstLogits.orElse fun _ => logits 0 }
  let (progress, rejected) := acceptOffsets predicted hidden positions drafts inputOffset
    (List.range (realWidth - 1)) progress
  if rejected then (progress, false)
  else
    let lastOffset := realWidth - 1
    let tail : Tail H := ⟨predicted lastOffset, hidden lastOffset, positions.getD lastOffset 0 + 1⟩
    if inputOffset + lastOffset = numDrafts then
      ({ progress with accepted := progress.accepted ++ [tail.token], tail := some tail }, false)
    else ({ progress with pending := some tail }, true)

/-- The rows of one request of a wave. -/
def acceptRequest (layout : DeepSeekV4CacheLayout) (inputs : DecodeInputs)
    (output : MainDecodeOutput H L) (positionRows : List (List Nat)) (drafts : List (List Int))
    (numDrafts inputOffset realWidth : Nat) (acc : (Nat → Progress H L) × List Nat)
    (entry : Nat × Nat) : (Nat → Progress H L) × List Nat :=
  let (requestIndex, chunkIndex) := entry
  let rank := inputs.ranks.getD chunkIndex 0
  let rowStart := inputs.localRows.getD chunkIndex 0 * layout.decodeSeq
  let (progress, continues) := acceptRows (fun offset => output.sampledIds rank (rowStart + offset))
    (fun offset => output.preHcHidden rank (rowStart + offset))
    (fun offset => output.logits rank (rowStart + offset)) (positionRows.getD chunkIndex [])
    (drafts.getD requestIndex []) numDrafts inputOffset realWidth (acc.1 requestIndex)
  (Function.update acc.1 requestIndex progress,
    if continues then acc.2 ++ [requestIndex] else acc.2)

/-- A row of the compiled width: the last entry is repeated. -/
def padChunk {α : Type} (width : Nat) (row : List α) : List α :=
  row ++ (row.getLast?.map (List.replicate (width - row.length))).getD []

/-- The rounds of a partial chunk: one request a rank. -/
def partialWaves (assignment : DecodeAssignment) : List (List Nat) :=
  (List.range (assignment.perRankCounts.foldr max 0)).map fun wave =>
    assignment.indicesByRank.filterMap (·[wave]?)

/-- What stays fixed while drafts are verified. -/
structure Verification (σ H L : Type) where
  kernel : DecodeKernel σ H L
  layout : DeepSeekV4CacheLayout
  numSpeculativeTokens : Nat
  maxSeqLen : Nat
  batch : DecodeBatch
  numDrafts : Nat
  drafts : List (List Int)

namespace Verification
variable (v : Verification σ H L)

/-- The current token of each request and its drafts. -/
def inputSequences : List (List Int) :=
  List.zipWith (fun row drafts => row.tokenId :: drafts) v.batch.rows v.drafts

/-- The tokens of the active requests in a chunk. -/
def activeRows (active : List Nat) (inputOffset realWidth : Nat) : List (List Int) :=
  rowsAt (v.inputSequences.map fun row =>
    padChunk v.layout.decodeSeq ((row.drop inputOffset).take realWidth)) active

/-- Their positions. -/
def positionRows (active : List Nat) (inputOffset realWidth : Nat) : List (List Nat) :=
  rowsAt (v.batch.rows.map fun row =>
    padChunk v.layout.decodeSeq
      ((List.range realWidth).map fun offset => row.seqLen - 1 + inputOffset + offset)) active

/-- The waves of a chunk, by indices into the active requests. -/
def waves (active : List Nat) (realWidth : Nat) : Except String (List (List Nat)) :=
  if realWidth = v.layout.decodeSeq then .ok [List.range active.length]
  else do
    let assignment ← (selectDecodeBatchRows v.batch active).assignment v.layout
    return partialWaves assignment

/-- One wave. -/
def verifyWave (active : List Nat) (inputOffset realWidth : Nat)
    (acc : (Nat → Progress H L) × List Nat) (waveLocalIndices : List Nat) :
    Raising String (Device σ) ((Nat → Progress H L) × List Nat) := do
  let waveRequestIndices := rowsAt active waveLocalIndices
  let selected := selectDecodeBatchRows v.batch waveRequestIndices
  let waveBatch := { selected with rows := selected.rows.map fun row =>
    { row with seqLen := row.seqLen + inputOffset + realWidth - 1 } }
  let wavePositionRows := rowsAt (v.positionRows active inputOffset realWidth) waveLocalIndices
  let inputs ← MonadExcept.ofExcept (prepareMtpTargetInputs v.layout v.numSpeculativeTokens v.maxSeqLen
    waveBatch (rowsAt (v.activeRows active inputOffset realWidth) waveLocalIndices) wavePositionRows
    realWidth)
  let output ← executeMainDecode v.kernel inputs
  return waveRequestIndices.zipIdx.foldl (acceptRequest v.layout inputs output wavePositionRows v.drafts
    v.numDrafts inputOffset realWidth) acc

/-- The part of the loop behind the pending predictions. -/
def verifyChunk (progress : Nat → Progress H L) (active : List Nat) (inputOffset : Nat) :
    Raising String (Device σ) ((Nat → Progress H L) × List Nat) := do
  let realWidth := min v.layout.decodeSeq (v.numDrafts + 1 - inputOffset)
  let waves ← MonadExcept.ofExcept (v.waves active realWidth)
  waves.foldlM (v.verifyWave active inputOffset realWidth) (progress, [])

/-- `while active`, with a bound on the number of chunks. -/
def verifyLoop : Nat → (Nat → Progress H L) → List Nat → Nat →
    Raising String (Device σ) (Nat → Progress H L)
  | 0, _, _, _ => throw "out of fuel"
  | fuel + 1, progress, active, inputOffset =>
    if active = [] then return progress
    else do
      let (progress, active) ←
        if inputOffset = 0 then pure (progress, active)
        else MonadExcept.ofExcept (active.foldlM (resolvePending v.drafts inputOffset) (progress, []))
      if active = [] then return progress
      else do
        let (progress, continuing) ← v.verifyChunk progress active inputOffset
        verifyLoop fuel progress continuing
          (inputOffset + min v.layout.decodeSeq (v.numDrafts + 1 - inputOffset))

end Verification

/-- `_DeepSeekV4MtpVerification`. -/
structure MtpVerification (H L : Type) where
  acceptedTokenIds : List (List Int)
  tails : List (Tail H)
  firstLogits : List L

/-- `_verify_mtp_drafts`; the chunks are at most as many as the inputs of a request. -/
def verifyMtpDrafts (v : Verification σ H L) :
    Raising String (Device σ) (MtpVerification H L) := do
  if v.drafts.length ≠ v.batch.rows.length then
    throw s!"MTP drafts must have shape [batch, K], got {(v.drafts.length, v.numDrafts)}"
  let indices := List.range v.batch.rows.length
  let progress ← v.verifyLoop (v.numDrafts + 2) (fun _ => {}) indices 0
  match indices.mapM (fun i => (progress i).tail), indices.mapM fun i => (progress i).firstLogits with
  | some tails, some firstLogits =>
    return { acceptedTokenIds := indices.map fun i => (progress i).accepted, tails, firstLogits }
  | _, _ => throw "DeepSeekV4 MTP target verification left incomplete request state"

/-- The `while` loop of `accept_mtp_tokens` for one row. -/
def acceptRow (draft main : List Int) : List Int := Speculation.accepted draft main

/-- `accept_mtp_tokens`, given the two tensors with the lengths of their rows. -/
def acceptMtpTokens (mainWidth draftWidth : Nat) (main draft : List (List Int)) :
    Except String (List (List Int)) :=
  if mainWidth < 2 then
    .error s!"main_token_ids must have shape [batch, K+1], got {(main.length, mainWidth)}"
  else if draft.length ≠ main.length ∨ draftWidth ≠ mainWidth - 1 then
    .error (s!"draft_token_ids must have shape {(main.length, mainWidth - 1)}, " ++
      s!"got {(draft.length, draftWidth)}")
  else .ok (List.zipWith acceptRow draft main)

/-- `_mtp_draft_count`. -/
def mtpDraftCount (numSpeculativeTokens maxSeqLen : Nat) (seqLens : List Nat) : Nat :=
  let remainingContext := seqLens.map fun (seqLen : Nat) => (maxSeqLen : Int) - (seqLen : Int)
  min numSpeculativeTokens ((remainingContext.foldl min (remainingContext.headD 0)).toNat)

end PyptoServing.Runner
