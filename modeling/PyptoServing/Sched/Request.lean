import Mathlib.Algebra.Order.Ring.Rat
import PyptoServing.Memory.KvCacheManager

/-!
# Requests, scheduler configuration and step records

The dataclasses of the scheduler. A request object is addressed by its id. The
`__post_init__` checks of the configuration are fields, as for the cache layout.
-/
namespace PyptoServing.Sched

open Lib Memory

inductive RequestStatus
  | waiting
  | running
  | preempted
  | finishedEos
  | finishedLength
  | finishedStop
  | finishedAborted
  deriving DecidableEq, Repr

namespace RequestStatus

def isFinished : RequestStatus → Bool
  | finishedEos | finishedLength | finishedStop | finishedAborted => true
  | waiting | running | preempted => false

/-- `status.name`. -/
def name : RequestStatus → String
  | waiting => "WAITING"
  | running => "RUNNING"
  | preempted => "PREEMPTED"
  | finishedEos => "FINISHED_EOS"
  | finishedLength => "FINISHED_LENGTH"
  | finishedStop => "FINISHED_STOP"
  | finishedAborted => "FINISHED_ABORTED"

end RequestStatus

structure SchedulerConfig where
  maxNumRunningReqs : Nat := 32
  maxNumScheduledTokens : Nat := 4096
  longPrefillTokenThreshold : Nat := 2048
  maxPrefillTokensPerRequest : Option Nat := none
  prefillChunkSizeChoices : List Nat := []
  maxSeqLen : Nat := 4096
  enablePrefixCache : Bool := true
  enableChunkPrefill : Bool := true
  numSpeculativeTokens : Nat := 0
  supportsChunkedPrefillWithSpeculation : Bool := true
  requiresHomogeneousPrefillDecode : Bool := false
  asyncScheduling : Bool := false
  decode_fits : numSpeculativeTokens + 1 ≤ maxNumScheduledTokens
  prefill_pos : ∀ n ∈ maxPrefillTokensPerRequest, 0 < n
  threshold_mem : prefillChunkSizeChoices ≠ [] →
    longPrefillTokenThreshold ∈ prefillChunkSizeChoices

/-- `SchedulerConfig()`: the defaults pass the checks. -/
def SchedulerConfig.defaults : SchedulerConfig where
  decode_fits := by decide
  prefill_pos := Config.KVCacheGroupSpec.unset_pos
  threshold_mem := by simp

/-- One request. `topP`, `topK` and `seed` are only handed on to the worker. -/
structure Request where
  requestId : RequestId
  promptTokenIds : List Int
  maxNewTokens : Nat
  arrivalTime : Rat
  status : RequestStatus := .waiting
  numComputedTokens : Nat := 0
  outputTokenIds : List Int := []
  stopStrings : List String := []
  eosTokenId : Option Int := none
  temperature : Rat := 0
  topP : Rat := 1
  topK : Option Int := none
  seed : Option Int := none
  cachedBlockIds : List BlockId := []
  allocatedBlockIds : List BlockId := []
  allocatedGroupBlockIds : GroupTables := ∅
  cachePartition : Option Nat := none
  blockHashes : List Int := []
  groupBlockHashes : GroupHashes := ∅
  numBlocksCached : Nat := 0
  numGroupBlocksCached : Dict String Nat := ∅
  numOutputPlaceholders : Nat := 0
  terminalPrefillInFlight : Bool := false

namespace Request

def numPromptTokens (request : Request) : Nat := request.promptTokenIds.length

/-- Placeholders count as output tokens that are still in flight. -/
def numTokens (request : Request) : Nat :=
  request.numPromptTokens + request.outputTokenIds.length + request.numOutputPlaceholders

/-- A negative difference is 0 here: the scheduler only asks whether it is positive. -/
def numNewTokensNeeded (request : Request) : Nat := request.numTokens - request.numComputedTokens

def isPrefill (request : Request) : Bool :=
  decide (request.numComputedTokens < request.numPromptTokens)

def allTokenIds (request : Request) : List Int := request.promptTokenIds ++ request.outputTokenIds

end Request

/-- One request's share of a step, with the tables as they were sent. -/
structure ScheduledRequest where
  requestId : RequestId
  numNewTokens : Nat
  isPrefill : Bool
  numComputedTokens : Nat
  blockIds : List BlockId
  blockIdsByGroup : GroupTables
  cachePartition : Option Nat
  groupBlocksRetained : Bool := false

structure SchedulerOutput where
  scheduledRequests : List ScheduledRequest := []
  preemptedRequests : List RequestId := []
  rejectedRequests : Dict RequestId String := ∅
  numPrefillTokens : Int := 0
  numDecodeTokens : Int := 0

def SchedulerOutput.isEmpty (output : SchedulerOutput) : Bool := output.scheduledRequests.isEmpty

structure RequestOutput where
  requestId : RequestId
  newTokenId : Option Int := none
  finished : Bool := false
  finishReason : String := ""
  deriving DecidableEq, Repr

end PyptoServing.Sched
