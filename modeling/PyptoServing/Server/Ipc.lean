import PyptoServing.Sched.Request

/-!
# Commands and results between engine and worker

The structs of the IPC protocol. Prompt tokens and sampling parameters travel once, when a
request is registered; a step carries the rest. A serial number, the position of a message
in the input queue, stands for the identity of a decoded object.
-/
namespace PyptoServing.Server

open Lib Memory Sched

/-- `PLACEHOLDER_TOKEN`: a decode input that the worker resolves from its own cache. -/
def placeholderToken : Int := -1

/-- Sent once, when a request is first scheduled. -/
structure NewRequestData where
  requestId : RequestId
  promptTokenIds : List Int
  temperature : Rat
  topP : Rat
  topK : Option Int
  seed : Option Int := none
  deriving DecidableEq

structure PrefillRequest where
  requestId : RequestId
  chunkTokens : List Int
  numComputedTokens : Nat
  blockIds : List BlockId
  blockIdsByGroup : GroupTables := ∅
  cachePartition : Option Nat := none

structure DecodeRequest where
  requestId : RequestId
  lastToken : Int
  seqLen : Nat
  blockIds : List BlockId
  blockIdsByGroup : GroupTables := ∅
  cachePartition : Option Nat := none

structure StepCommand where
  newRequests : List NewRequestData
  prefillRequests : List PrefillRequest
  decodeRequests : List DecodeRequest
  finishedRequestIds : List RequestId
  stepId : Nat := 0

namespace StepCommand

def newIds (cmd : StepCommand) : List RequestId := cmd.newRequests.map (·.requestId)

/-- The requests that a step computes tokens for. -/
def scheduledIds (cmd : StepCommand) : List RequestId :=
  cmd.prefillRequests.map (·.requestId) ++ cmd.decodeRequests.map (·.requestId)

end StepCommand

structure StepResult where
  newTokens : Dict RequestId (List Int) := ∅
  error : Option String := none
  stepId : Nat := 0

/-- What the input queue delivers: bytes that decode or not, or an exception. -/
inductive Message
  | step (cmd : StepCommand)
  | profile (active : Bool)
  | shutdown
  | undecodable (error : String)
  | closed

/-- A registration in `_req_cache`, with the command that brought the object. -/
structure Registered where
  data : NewRequestData
  command : Nat
  deriving DecidableEq

/-- A token in `_last_tokens`, with the command whose step sampled it. -/
structure Sampled where
  token : Int
  command : Nat
  deriving DecidableEq

abbrev ReqCache := Dict RequestId Registered

abbrev LastTokens := Dict RequestId (List Sampled)

/-- `_record_last_tokens`: only the latest token of a request is kept. -/
def LastTokens.record (lastTokens : LastTokens) (command : Nat) (r : RequestId)
    (tokens : List Int) : LastTokens :=
  let recent := (lastTokens.lookup r).getD [] ++ tokens.map fun token => ⟨token, command⟩
  lastTokens.insert r recent.getLast?.toList

end PyptoServing.Server
