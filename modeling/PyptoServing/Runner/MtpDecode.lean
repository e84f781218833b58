import PyptoServing.Runner.MtpState
import PyptoServing.Runner.MtpVerify

/-!
# Decoding with drafts

`_run_chunked_mtp_decode`: the lengths are corrected, drafts are proposed and verified, the counters
of the requests move on, and the drafting layer prepares the next step. That layer is a parameter.
-/
namespace PyptoServing.Runner

open Lib Lib.Raising Memory Sched

/-- What `_DeepSeekV4MtpRequestState` keeps for drafting: the recurrent state and the counters. -/
structure DraftState (H : Type) extends MtpRequestState H where
  draftPreHcHidden : Option H := none
  draftPosition : Option Nat := none
  proposedTokens : Nat := 0
  acceptedTokens : Nat := 0
  committedCount : Nat := 0

/-- The runner with its device, and its totals over all requests. -/
structure DraftRunner (σ H : Type) where
  device : Device σ
  requestStates : Dict RequestId (DraftState H) := ∅
  proposedTokens : Nat := 0
  acceptedTokens : Nat := 0

abbrev DraftM (σ H α : Type) := Raising String (DraftRunner σ H) α

/-- The drafting layer: `_run_mtp_token_step`, which drafts one token for each request, and the
draft behind a prompt. -/
structure Drafter (σ H : Type) where
  tokenStep : σ → DecodeBatch → List Int → List H → List Nat → σ × Except String (List Int × List H)
  promptStep : σ → MtpPrefillContext H → Int → σ × Except String (Int × H)

/-- What stays fixed while requests are decoded. -/
structure ChunkedDecode (σ H L : Type) where
  kernel : DecodeKernel σ H L
  drafter : Drafter σ H
  layout : DeepSeekV4CacheLayout
  numSpeculativeTokens : Nat
  maxSeqLen : Nat

variable {σ H L α : Type}

/-- The length of a request: its own counter is read once drafts were proposed for it. -/
def correctMtpSeqLen (requestStates : Dict RequestId (DraftState H)) (row : DecodeRow) : Nat :=
  match requestStates.lookup row.requestId with
  | some state =>
    if 0 < state.proposedTokens then state.promptLen + state.committedCount + 1 else row.seqLen
  | none => row.seqLen

/-- `_correct_mtp_seq_lens`. -/
def correctMtpSeqLens (requestStates : Dict RequestId (DraftState H)) (rows : List DecodeRow) :
    List Nat :=
  rows.map (correctMtpSeqLen requestStates)

/-- `replace(batch, seq_lens=...)`. -/
def DecodeBatch.withSeqLens (batch : DecodeBatch) (seqLens : List Nat) : DecodeBatch :=
  { batch with rows := List.zipWith (fun row seqLen => { row with seqLen }) batch.rows seqLens }

/-- `_require_mtp_request_state`. -/
def requireDraftState (r : RequestId) : DraftM σ H (DraftState H) := do
  match (← get).requestStates.lookup r with
  | none => throw s!"DeepSeekV4 MTP state is missing for request '{r}'"
  | some state => return state

/-- Write to the state of a request, which has to be there. -/
def updateDraftState (r : RequestId) (f : DraftState H → DraftState H) : DraftM σ H PUnit := do
  let state ← requireDraftState r
  modify fun m => { m with requestStates := m.requestStates.insert r (f state) }

/-- Run on the device. -/
def onDevice (program : Raising String (Device σ) α) : DraftM σ H α := do
  let m ← get
  let (result, device) := program.exec m.device
  set { m with device }
  MonadExcept.ofExcept result

/-- Run a step of the drafting layer. -/
def onDrafter (step : σ → σ × Except String α) : DraftM σ H α := do
  let m ← get
  let (state, result) := step m.device.state
  set { m with device := { m.device with state } }
  MonadExcept.ofExcept result

namespace DraftState

def withDraft (state : DraftState H) (token : Int) (hidden : H) (position : Nat) : DraftState H :=
  { state with draftTokenId := some token, draftPreHcHidden := some hidden, draftPosition := some position }

/-- The counters after a step that proposed and returned so many tokens. -/
def commit (state : DraftState H) (proposed returned : Nat) : DraftState H :=
  { state with
    proposedTokens := state.proposedTokens + proposed
    acceptedTokens := state.acceptedTokens + (returned - 1)
    committedCount := state.committedCount + returned }

end DraftState

namespace ChunkedDecode
variable (c : ChunkedDecode σ H L)

/-- `_initialize_mtp_draft`. -/
def initializeMtpDraft (r : RequestId) (state : DraftState H) (firstTokenId : Int) :
    DraftM σ H PUnit := do
  match state.prefillContext with
  | none => throw s!"DeepSeekV4 MTP prefill context is missing for '{r}'"
  | some context =>
    let (token, hidden) ← onDrafter fun s => c.drafter.promptStep s context firstTokenId
    updateDraftState r fun state =>
      { state.withDraft token hidden (context.positionId + 1) with
        promptLen := context.promptLen, prefillContext := none }

/-- `finalize_prefill`. -/
def finalizePrefill (requests : List (RequestId × Int)) : DraftM σ H PUnit :=
  requests.forM fun (r, tokenId) => do
    let state ← requireDraftState r
    if state.draftTokenId.isNone then c.initializeMtpDraft r state tokenId

/-- `_initialize_mtp_drafts`. -/
def initializeMtpDrafts (batch : DecodeBatch) : DraftM σ H PUnit :=
  c.finalizePrefill (batch.rows.map fun row => (row.requestId, row.tokenId))

/-- What `mapM` reads of the states of the requests. -/
def readStates (batch : DecodeBatch) (read : DraftState H → Option α) (missing : RequestId → String) :
    DraftM σ H (List α) :=
  batch.rows.mapM fun row => do
    match read (← requireDraftState row.requestId) with
    | none => throw (missing row.requestId)
    | some value => return value

/-- `while len(draft_columns) < num_drafts`. -/
def proposeColumns (batch : DecodeBatch) : Nat → List Int → List H → List Nat →
    DraftM σ H (List (List Int))
  | 0, _, _, _ => return []
  | n + 1, tokenIds, hidden, positions => do
    let (tokenIds, hidden) ← onDrafter fun s => c.drafter.tokenStep s batch tokenIds hidden positions
    return tokenIds :: (← proposeColumns batch n tokenIds hidden (positions.map (· + 1)))

/-- `torch.stack(columns, dim=1)`. -/
def stackColumns (batch : DecodeBatch) (columns : List (List Int)) : List (List Int) :=
  (List.range batch.rows.length).map fun i => columns.map (·.getD i 0)

/-- `_propose_mtp_tokens`. -/
def proposeMtpTokens (batch : DecodeBatch) (numDrafts : Nat) : DraftM σ H (List (List Int)) :=
  if c.numSpeculativeTokens < numDrafts then
    throw "MTP draft count must fit the compiled speculative depth"
  else if numDrafts = 0 then return stackColumns batch []
  else do
    c.initializeMtpDrafts batch
    let first ← readStates batch (·.draftTokenId) fun r =>
      s!"DeepSeekV4 MTP draft is not initialized for '{r}'"
    if numDrafts = 1 then return stackColumns batch [first]
    else do
      let recurrent ← readStates batch
        (fun state => do return (← state.draftPreHcHidden, ← state.draftPosition)) fun r =>
          s!"DeepSeekV4 recurrent MTP state is missing for '{r}'"
      let columns ← c.proposeColumns batch (numDrafts - 1) first (recurrent.map (·.1))
        (recurrent.map (·.2))
      return stackColumns batch (first :: columns)

/-- The verification of a batch. -/
def verification (batch : DecodeBatch) (numDrafts : Nat) (drafts : List (List Int)) :
    Verification σ H L where
  kernel := c.kernel
  layout := c.layout
  numSpeculativeTokens := c.numSpeculativeTokens
  maxSeqLen := c.maxSeqLen
  batch
  numDrafts
  drafts

/-- The counters of the requests behind a verification. -/
def recordVerification (batch : DecodeBatch) (numDrafts : Nat) (accepted : List (List Int)) :
    DraftM σ H PUnit := do
  modify fun m => { m with
    proposedTokens := m.proposedTokens + batch.rows.length * numDrafts
    acceptedTokens := m.acceptedTokens + (accepted.map (·.length - 1)).sum }
  (batch.rows.zip accepted).forM fun e => updateDraftState e.1.requestId (·.commit numDrafts e.2.length)

/-- The drafts that the next step starts from. -/
def draftNext (batch : DecodeBatch) (tails : List (Tail H)) : DraftM σ H PUnit := do
  let drafted ← onDrafter fun s => c.drafter.tokenStep s batch (tails.map (·.token))
    (tails.map (·.hidden)) (tails.map (·.position))
  (batch.rows.zip (drafted.1.zip (drafted.2.zip tails))).forM fun e =>
    updateDraftState e.1.requestId (·.withDraft e.2.1 e.2.2.1 (e.2.2.2.position + 1))

/-- `_run_chunked_mtp_decode`: the accepted tokens, and the logits of the first one. -/
def runChunkedMtpDecode (batch : DecodeBatch) : DraftM σ H (List (List Int) × List L) := do
  if ¬ batch.allowDeviceGreedySampling then
    throw "DeepSeekV4 standalone MTP decode requires device sampling"
  let batch := batch.withSeqLens (correctMtpSeqLens (← get).requestStates batch.rows)
  let numDrafts := mtpDraftCount c.numSpeculativeTokens c.maxSeqLen (batch.rows.map (·.seqLen))
  let drafts ← c.proposeMtpTokens batch numDrafts
  let verification ← onDevice (verifyMtpDrafts (c.verification batch numDrafts drafts))
  recordVerification batch numDrafts verification.acceptedTokenIds
  c.draftNext batch verification.tails
  return (verification.acceptedTokenIds, verification.firstLogits)

end ChunkedDecode
end PyptoServing.Runner
