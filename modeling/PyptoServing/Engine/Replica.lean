import PyptoServing.Engine.Clients
import PyptoServing.Engine.Commands
import PyptoServing.Sched.Pipeline
import PyptoServing.Server.Worker

/-!
# One replica

The engine core, the two queues and the worker as one machine. A coroutine runs without
interruption up to its next `await`, so one step is what one coroutine does in between: the
engine loop, the generator of a request, a call of `abort_request`. The worker executes one
command in a step. The tokenizer's `decode` is a parameter.
-/
namespace PyptoServing.Engine

open Lib Lib.Fallible Memory Sched Server

/-- A command as sent, with `_worker_known_req_ids` when it was built. -/
structure Built where
  command : StepCommand
  known : List RequestId

/-- The queues between engine and worker, with their history, and the worker. -/
structure Channel where
  commands : List Built := []
  /-- The results of the commands executed so far. -/
  results : List StepResult := []
  numReceived : Nat := 0
  worker : Worker := {}

namespace Channel

def send (c : Channel) (built : Built) : Channel := { c with commands := c.commands ++ [built] }

/-- The result at the front of the output queue. -/
def next? (c : Channel) : Option StepResult := c.results[c.numReceived]?

def receive (c : Channel) : Channel := { c with numReceived := c.numReceived + 1 }

/-- The worker executes a command. -/
def execute (c : Channel) (built : Built) (x : Execution) : Channel :=
  let (worker, result) := c.worker.runStepCommand c.results.length built.command x
  { c with worker, results := c.results ++ [result] }

end Channel

structure Replica where
  pipeline : Pipeline
  /-- The ids of the steps in flight, oldest first. -/
  batchStepIds : List Nat := []
  stepCounter : Nat := 0
  pendingFreeIds : List RequestId := []
  workerKnownReqIds : List RequestId := []
  discardResultStepIds : List Nat := []
  /-- The cleanup-only step whose reply `_flush_pending_frees` awaits. -/
  flushing : Option Nat := none
  clients : Clients := {}
  channel : Channel := {}

namespace Replica
variable (e : Replica)

/-- `_schedule_worker_free`. -/
def scheduleWorkerFree (r : RequestId) : Replica :=
  if r ∈ e.pendingFreeIds then e else { e with pendingFreeIds := e.pendingFreeIds ++ [r] }

/-- A rejection of `schedule()`. -/
def rejectRequest (rejection : RequestId × String) : Replica :=
  let e := { e with clients := e.clients.notify rejection.1 (.failure rejection.2) }
  if rejection.1 ∈ e.workerKnownReqIds then e.scheduleWorkerFree rejection.1 else e

/-- The first part of `_try_dispatch_step`: rejections and preemptions. -/
def handlePass (output : SchedulerOutput) : Replica :=
  let e := (output.rejectedRequests.entries.map fun entry => (entry.1, entry.2)).foldl rejectRequest e
  output.preemptedRequests.foldl scheduleWorkerFree e

/-- Build the command of a pass and put it on the input queue. -/
def sendStep (pass : Pass) : Replica :=
  let stepId := e.stepCounter + 1
  let (command, known) := buildStepCommand pass.sched.object pass.output e.workerKnownReqIds
    e.pendingFreeIds stepId
  { e with
    pendingFreeIds := []
    workerKnownReqIds := known
    stepCounter := stepId
    batchStepIds := e.batchStepIds ++ [stepId]
    channel := e.channel.send ⟨command, known⟩ }

/-- `_flush_pending_frees`, up to its wait. -/
def flush : Replica :=
  if e.pendingFreeIds = [] then e
  else
    let stepId := e.stepCounter + 1
    let known := e.workerKnownReqIds.filter (· ∉ e.pendingFreeIds)
    { e with
      pendingFreeIds := []
      workerKnownReqIds := known
      stepCounter := stepId
      flushing := some stepId
      channel := e.channel.send ⟨cleanupCommand e.pendingFreeIds stepId, known⟩ }

/-- The output of one step for a client. -/
def tokenOutput (request : Request) (ctx : Context) (out : RequestOutput) : TokenOutput where
  tokenId := out.newTokenId
  text := ctx.detokText
  finished := out.finished
  finishReason := out.finishReason
  promptTokens := request.numPromptTokens
  completionTokens := request.outputTokenIds.length
  tokenIds := if out.finished then request.outputTokenIds else []

/-- The stop check: the output as it is delivered. -/
def stopOutput (request : Request) (ctx : Context) (out : RequestOutput) : RequestOutput :=
  if !out.finished && request.stopStrings.any ctx.endsWith then
    { out with finished := true, finishReason := RequestStatus.finishedStop.name }
  else out

/-- Deliver an output whose stop check is done. -/
def publish (decode : List Int → String) (ctx : Context) (out : RequestOutput) : Replica :=
  let r := out.requestId
  let request := e.pipeline.sched.object r
  let ctx := if out.finished then ctx.finalizeDetokenization decode request.outputTokenIds else ctx
  let e := if out.finished then e.scheduleWorkerFree r else e
  let clients := e.clients.setContext r ctx
  { e with
    clients :=
      if !ctx.stream && !out.finished then clients
      else clients.put r (.output (tokenOutput request ctx out)) }

/-- The loop body of `_process_step_output`. -/
def deliver (decode : List Int → String) (e : Replica) (out : RequestOutput) :
    Except KvError Replica :=
  match e.clients.requestContexts.lookup out.requestId with
  | none => .ok e
  | some ctx => do
    let request := e.pipeline.sched.object out.requestId
    let ctx := ctx.detokenizeIncrementally decode request.outputTokenIds
    let checked := stopOutput request ctx out
    if checked.finished ∧ ¬ out.finished then
      let sched ← e.pipeline.sched.finishRequest out.requestId .finishedStop
      let e := { e with pipeline := { e.pipeline with sched } }
      return e.publish decode ctx checked
    else return e.publish decode ctx checked

/-- The engine side of `_handle_step_error` for one request. -/
def failRequest (r : RequestId) : Replica :=
  let clients := e.clients.notify r (.output { finished := true, finishReason := "error" })
  { e with clients }.scheduleWorkerFree r

/-- The requests of the dropped batches, each once. -/
def droppedIds : List RequestId :=
  (e.pipeline.inFlight.flatMap fun output => output.scheduledRequests.map (·.requestId)).eraseDups

/-- `_handle_step_error`; `p` is the pipeline without its batches, `pending` are the dropped
steps whose results are still to come. -/
def handleStepError (p : Pipeline) (pending : List Nat) : Replica :=
  { e.droppedIds.foldl failRequest e with
    pipeline := p
    batchStepIds := []
    discardResultStepIds := e.discardResultStepIds ++ pending }

/-- Drop a request whose client is gone. -/
def release (p : Pipeline) (r : RequestId) : Replica :=
  { e with pipeline := p, clients := e.clients.forget r }.scheduleWorkerFree r

end Replica

inductive ReplicaOp
  | add (request : Request) (stream : Bool)
  | dispatch
  | flush
  | receive
  | drain
  | timeout
  | consume (r : RequestId)
  | resume (r : RequestId)
  | cancel (r : RequestId)
  | abort (r : RequestId)
  | work (x : Execution)

namespace Replica

/-- A prompt as the tokenizer encodes it. -/
def Encoded (request : Request) : Prop := ∀ token ∈ request.promptTokenIds, 0 ≤ token

inductive Step (decode : List Int → String) (e : Replica) : ReplicaOp → Replica → Prop
  | add {request : Request} {stream : Bool} {p : Pipeline} :
      request.requestId ∉ e.clients.usedIds → Encoded request →
      e.pipeline.Step (.add request) p →
      Step decode e (.add request stream) { e with
        pipeline := p
        clients := (e.clients.enter request.requestId stream).suspend request.requestId .waiting }
  | refuse {request : Request} {stream : Bool} {reason : String} : request.Fresh →
      request.requestId ∉ e.clients.usedIds →
      e.pipeline.sched.addRequest request = .error reason →
      Step decode e (.add request stream)
        { e with clients := e.clients.enter request.requestId stream }
  | dispatch {pass : Pass} {s : Scheduler} {output : SchedulerOutput} : e.flushing = none →
      e.pipeline.Ready → e.pipeline.sched.schedule = .ok pass → pass.output.isEmpty = false →
      pass.sched.advanceAfterSchedule pass.output = .ok (s, output) →
      Step decode e .dispatch { (e.handlePass pass.output).sendStep pass with
        pipeline := { e.pipeline with sched := s, inFlight := e.pipeline.inFlight ++ [output] } }
  | await {pass : Pass} : e.flushing = none →
      e.pipeline.Ready → e.pipeline.sched.schedule = .ok pass → pass.output.isEmpty = true →
      e.pipeline.inFlight ≠ [] →
      Step decode e .dispatch { e.handlePass pass.output with
        pipeline := { e.pipeline with sched := pass.sched, mustAwait := true } }
  | idle {pass : Pass} : e.flushing = none →
      e.pipeline.Ready → e.pipeline.sched.schedule = .ok pass → pass.output.isEmpty = true →
      e.pipeline.inFlight = [] →
      Step decode e .dispatch { (e.handlePass pass.output).flush with
        pipeline := { e.pipeline with sched := pass.sched, mustAwait := false } }
  | flush : e.flushing = none → e.pipeline.inFlight = [] → e.pipeline.sched.hasWork = false →
      Step decode e .flush e.flush
  | receive {stepId : Nat} {stepIds : List Nat} {result : StepResult} {output : SchedulerOutput}
      {rest : List SchedulerOutput} {s : Scheduler} {outputs : List RequestOutput} {e' : Replica} :
      e.batchStepIds = stepId :: stepIds → e.channel.next? = some result →
      result.stepId ∉ e.discardResultStepIds → result.stepId = stepId → result.error = none →
      e.pipeline.inFlight = output :: rest →
      e.pipeline.sched.updateFromOutput output result.newTokens = .ok (s, outputs) →
      outputs.foldlM (deliver decode) { e with
        pipeline := { e.pipeline with sched := s, inFlight := rest, mustAwait := false }
        batchStepIds := stepIds
        channel := e.channel.receive } = .ok e' →
      Step decode e .receive e'
  | failed {stepId : Nat} {stepIds : List Nat} {result : StepResult} {p : Pipeline} :
      e.batchStepIds = stepId :: stepIds → e.channel.next? = some result →
      result.stepId ∉ e.discardResultStepIds → result.stepId = stepId →
      result.error.isSome = true → e.pipeline.Step .discard p →
      Step decode e .receive { e.handleStepError p stepIds with channel := e.channel.receive }
  | desync {stepId : Nat} {stepIds : List Nat} {result : StepResult} {p : Pipeline} :
      e.batchStepIds = stepId :: stepIds → e.channel.next? = some result →
      result.stepId ∉ e.discardResultStepIds → result.stepId ≠ stepId →
      e.pipeline.Step .discard p →
      Step decode e .receive { e.handleStepError p stepIds with channel := e.channel.receive }
  | flushed {stepId : Nat} {result : StepResult} : e.flushing = some stepId →
      e.channel.next? = some result → result.stepId ∉ e.discardResultStepIds →
      Step decode e .receive { e with flushing := none, channel := e.channel.receive }
  | drain {result : StepResult} : e.batchStepIds ≠ [] ∨ e.flushing.isSome = true →
      e.channel.next? = some result → result.stepId ∈ e.discardResultStepIds →
      Step decode e .drain { e with
        discardResultStepIds := e.discardResultStepIds.filter (· ≠ result.stepId)
        channel := e.channel.receive }
  | timeout {stepId : Nat} {stepIds : List Nat} {p : Pipeline} :
      e.batchStepIds = stepId :: stepIds → e.channel.next? = none →
      e.pipeline.Step .discard p →
      Step decode e .timeout (e.handleStepError p (stepId :: stepIds))
  | flushTimeout {stepId : Nat} : e.flushing = some stepId → e.channel.next? = none →
      Step decode e .timeout { e with flushing := none }
  | takeFailure {r : RequestId} {reason : String} :
      e.clients.consumers.lookup r = some .waiting → e.clients.next? r = some (.failure reason) →
      Step decode e (.consume r) { e with clients := ((e.clients.take r).forget r).close r }
  | takeOutput {r : RequestId} {output : TokenOutput} :
      e.clients.consumers.lookup r = some .waiting → e.clients.next? r = some (.output output) →
      Step decode e (.consume r)
        { e with clients := (e.clients.take r).suspend r (.yielded output.finished) }
  | resume {r : RequestId} : e.clients.consumers.lookup r = some (.yielded false) →
      Step decode e (.resume r) { e with clients := e.clients.suspend r .waiting }
  | complete {r : RequestId} : e.clients.consumers.lookup r = some (.yielded true) →
      Step decode e (.resume r) { e with clients := e.clients.close r }
  | cancel {r : RequestId} {p : Pipeline} : r ∈ e.clients.consumers →
      r ∈ e.clients.requestContexts → e.pipeline.Step (.abort r) p →
      Step decode e (.cancel r) { e.release p r with clients := (e.clients.forget r).close r }
  | leave {r : RequestId} : r ∈ e.clients.consumers → r ∉ e.clients.requestContexts →
      Step decode e (.cancel r) { e with clients := e.clients.close r }
  | abort {r : RequestId} {p : Pipeline} : r ∈ e.clients.requestContexts →
      e.pipeline.Step (.abort r) p →
      Step decode e (.abort r) { e.release p r with
        clients := (e.clients.forget r).put r
          (.output { finished := true, finishReason := RequestStatus.finishedAborted.name }) }
  | unknown {r : RequestId} : r ∉ e.clients.requestContexts → Step decode e (.abort r) e
  | work {built : Built} {x : Execution} : x.Samples →
      e.channel.commands[e.channel.results.length]? = some built →
      Step decode e (.work x) { e with channel := e.channel.execute built x }

/-- The start of a replica. -/
structure Started (e : Replica) : Prop where
  pipeline : e.pipeline.Started
  rest : e = { pipeline := e.pipeline }

end Replica

/-- Every run of an engine core, its clients and its worker. -/
def replicaMachine (decode : List Int → String) : Machine Replica ReplicaOp where
  init := Replica.Started
  step := Replica.Step decode

end PyptoServing.Engine
