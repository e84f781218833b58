import Mathlib.Logic.Function.Basic
import PyptoServing.Sched.Request

/-!
# The client side of a request

The context of a request, the queue that its outputs are put on and the generator that
reads it. The queue belongs to the context, but the generator keeps it when the context is
dropped, so it is found by the request id here.
-/
namespace PyptoServing.Engine

open Lib Memory Sched

structure TokenOutput where
  tokenId : Option Int := none
  text : String := ""
  finished : Bool := false
  finishReason : String := ""
  promptTokens : Nat := 0
  completionTokens : Nat := 0
  tokenIds : List Int := []

/-- An entry of an output queue: an output, or the `ValueError` of a rejection. -/
inductive Queued
  | output (output : TokenOutput)
  | failure (reason : String)

/-- `_RequestContext`, less the request object and the queue. -/
structure Context where
  stream : Bool := true
  detokText : String := ""
  detokPrefixOffset : Nat := 0
  detokReadOffset : Nat := 0

namespace Context

/-- U+FFFD, which ends the text of an incomplete character. -/
def replacementChar : Char := '\uFFFD'

/-- `_detokenize_incrementally`. -/
def detokenizeIncrementally (ctx : Context) (decode : List Int → String) (outputIds : List Int) :
    Context :=
  if outputIds = [] then ctx
  else
    let prefixIds := (outputIds.take ctx.detokReadOffset).drop ctx.detokPrefixOffset
    let newIds := outputIds.drop ctx.detokPrefixOffset
    let prefixText := if prefixIds = [] then "" else decode prefixIds
    let newText := decode newIds
    if newText.length ≤ prefixText.length ∨ newText.toList.getLast? = some replacementChar then ctx
    else
      { ctx with
        detokText := ctx.detokText ++ String.ofList (newText.toList.drop prefixText.length)
        detokReadOffset := outputIds.length
        detokPrefixOffset := outputIds.length - 3 }

/-- `_finalize_detokenization`. -/
def finalizeDetokenization (ctx : Context) (decode : List Int → String) (outputIds : List Int) :
    Context :=
  if outputIds = [] then ctx
  else
    { ctx with
      detokText := decode outputIds
      detokReadOffset := outputIds.length
      detokPrefixOffset := outputIds.length - 3 }

/-- `stop and text.endswith(stop)`. -/
def endsWith (ctx : Context) (stop : String) : Bool :=
  stop ≠ "" && stop.toList.isSuffixOf ctx.detokText.toList

end Context

/-- Where the generator of `add_request` is suspended: at the queue, or at the `yield` of an
output. -/
inductive Consumer
  | waiting
  | yielded (finished : Bool)
  deriving DecidableEq

structure Clients where
  requestContexts : Dict RequestId Context := ∅
  /-- Everything put on the queue of a request. -/
  queues : RequestId → List Queued := fun _ => []
  /-- How much of it its generator has taken. -/
  taken : RequestId → Nat := fun _ => 0
  consumers : Dict RequestId Consumer := ∅
  /-- The request ids used so far. -/
  usedIds : List RequestId := []

namespace Clients
variable (c : Clients) (r : RequestId)

/-- `ctx.queue.put_nowait(..)`. -/
def put (entry : Queued) : Clients :=
  { c with queues := Function.update c.queues r (c.queues r ++ [entry]) }

/-- Put an entry for a request that still has its context. -/
def notify (entry : Queued) : Clients :=
  if r ∈ c.requestContexts then c.put r entry else c

/-- `self._request_contexts.pop(request_id, None)`. -/
def forget : Clients := { c with requestContexts := c.requestContexts.erase r }

def setContext (ctx : Context) : Clients :=
  { c with requestContexts := c.requestContexts.insert r ctx }

/-- The generator moves on. -/
def suspend (consumer : Consumer) : Clients :=
  { c with consumers := c.consumers.insert r consumer }

/-- The generator ends. -/
def close : Clients := { c with consumers := c.consumers.erase r }

/-- `ctx.queue.get()`. -/
def take : Clients := { c with taken := Function.update c.taken r (c.taken r + 1) }

/-- A new context, with the generator not started yet. -/
def enter (stream : Bool) : Clients :=
  { c with
    requestContexts := c.requestContexts.insert r { stream }
    usedIds := r :: c.usedIds }

/-- The entry that the generator gets next. -/
def next? : Option Queued := (c.queues r)[c.taken r]?

end Clients
end PyptoServing.Engine
