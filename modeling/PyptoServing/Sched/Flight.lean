import PyptoServing.Sched.Pipeline

/-!
# The life of one request

A request seen on its own: its object without the cache bookkeeping, the queue it is in,
and its shares of the steps in flight, oldest first. `FlightStep` lists everything one step
of the pipeline can do to it, whatever the other requests do.
-/
namespace PyptoServing.Sched

open Lib Memory

/-- The size of one record. -/
structure StepShare where
  numNewTokens : Nat
  isPrefill : Bool
  numComputedTokens : Nat
  deriving DecidableEq, Repr

def ScheduledRequest.share (scheduled : ScheduledRequest) : StepShare where
  numNewTokens := scheduled.numNewTokens
  isPrefill := scheduled.isPrefill
  numComputedTokens := scheduled.numComputedTokens

/-- The queue of a request; `done` when it is in neither. -/
inductive Place
  | waiting
  | running
  | done
  deriving DecidableEq, Repr

structure Flight where
  request : Request
  place : Place
  shares : List StepShare

namespace Request

/-- The speculative positions of a share. -/
def speculation (request : Request) (config : SchedulerConfig) (share : StepShare) : Nat :=
  if share.isPrefill ∨ 0 < request.temperature then 0 else config.numSpeculativeTokens

/-- The positions that a share reserves for tokens to come when it is dispatched. -/
def reservation (request : Request) (config : SchedulerConfig) (share : StepShare) : Nat :=
  if ¬ share.isPrefill ∨ request.numPromptTokens ≤ share.numComputedTokens + share.numNewTokens then
    1 + request.speculation config share
  else 0

/-- The request after the optimistic advance past a share. -/
def advanced (request : Request) (config : SchedulerConfig) (share : StepShare) : Request :=
  if config.asyncScheduling then
    { request with
      numComputedTokens := request.numComputedTokens + share.numNewTokens +
        (request.reservation config share - 1)
      numOutputPlaceholders := request.numOutputPlaceholders + request.reservation config share
      terminalPrefillInFlight := request.terminalPrefillInFlight ||
        (share.isPrefill &&
          decide (request.numPromptTokens ≤ share.numComputedTokens + share.numNewTokens) &&
          decide (0 < config.numSpeculativeTokens)) }
  else request

/-- The barrier is lifted when the prefill that completes the prompt is confirmed. -/
def confirmed (request : Request) (share : StepShare) : Request :=
  if share.isPrefill ∧ request.numPromptTokens ≤ share.numComputedTokens + share.numNewTokens then
    { request with terminalPrefillInFlight := false }
  else request

/-- The placeholders that reconciling a share releases; it reads the present counter. -/
def released (request : Request) (config : SchedulerConfig) (share : StepShare) : Nat :=
  if ¬ share.isPrefill ∨ request.numPromptTokens ≤ request.numComputedTokens then
    1 + request.speculation config share
  else 0

/-- The request after a result of an asynchronous step. -/
def reconciled (request : Request) (config : SchedulerConfig) (share : StepShare)
    (tokens : List Int) : Request :=
  let appended := Scheduler.appendTokens (request.confirmed share) tokens
  Scheduler.settle appended.1 (request.released config share) appended.2

/-- The request after a result of a synchronous step. -/
def stepped (request : Request) (share : StepShare) (tokens : List Int) : Request :=
  let request := request.confirmed share
  if share.isPrefill then
    let request :=
      { request with numComputedTokens := request.numComputedTokens + share.numNewTokens }
    if request.isPrefill then request else (Scheduler.appendTokens request tokens).1
  else
    let appended := Scheduler.appendTokens request tokens
    { appended.1 with numComputedTokens := appended.1.numComputedTokens + appended.2 }

/-- The request after a result. -/
def applied (request : Request) (config : SchedulerConfig) (share : StepShare)
    (tokens : List Int) : Request :=
  if config.asyncScheduling then request.reconciled config share tokens
  else request.stepped share tokens

/-- The tokens of a result that the request keeps. -/
def emitted (request : Request) (config : SchedulerConfig) (share : StepShare)
    (tokens : List Int) : List Int :=
  if ¬ config.asyncScheduling ∧ share.isPrefill ∧
      request.numComputedTokens + share.numNewTokens < request.numPromptTokens then []
  else tokens.take (Scheduler.appendTokens request tokens).2

end Request

/-- A share is sized from the request's counters. -/
structure StepShare.Fits (share : StepShare) (request : Request) : Prop where
  computed : share.numComputedTokens = request.numComputedTokens
  isPrefill : share.isPrefill = request.isPrefill
  pos : 0 < share.numNewTokens
  le_needed : share.numNewTokens ≤ request.numNewTokensNeeded

/-- What one step of the pipeline can do to a request. -/
inductive FlightEvent
  | keep
  | launch (hit : Nat) (share : StepShare)
  | grant (share : StepShare)
  | preempt
  | reject
  | apply (tokens : List Int)
  | drop
  | close (status : RequestStatus)
  | discard (status : RequestStatus)

inductive FlightStep (config : SchedulerConfig) : Flight → FlightEvent → Flight → Prop
  | keep (f : Flight) : FlightStep config f .keep f
  | launch {q : Request} {hit : Nat} {share : StepShare} : q.Idle → hit < q.numPromptTokens →
      share.Fits (q.admittedWith hit) →
      FlightStep config ⟨q, .waiting, []⟩ (.launch hit share)
        ⟨(q.admittedWith hit).advanced config share, .running, [share]⟩
  | grant {q : Request} {share : StepShare} {shares : List StepShare} :
      q.terminalPrefillInFlight = false → share.Fits q →
      shares.length < config.maxInFlight →
      FlightStep config ⟨q, .running, shares⟩ (.grant share)
        ⟨q.advanced config share, .running, shares ++ [share]⟩
  | preempt {q : Request} {shares : List StepShare} :
      FlightStep config ⟨q, .running, shares⟩ .preempt
        ⟨Scheduler.resetVictim q, .waiting, shares⟩
  | reject {q : Request} : FlightStep config ⟨q, .waiting, []⟩ .reject ⟨q.rejected, .done, []⟩
  | apply {q : Request} {share : StepShare} {shares : List StepShare} {tokens : List Int} :
      Scheduler.checkFinish (q.applied config share tokens) = none →
      FlightStep config ⟨q, .running, share :: shares⟩ (.apply tokens)
        ⟨q.applied config share tokens, .running, shares⟩
  | finish {q : Request} {share : StepShare} {shares : List StepShare} {tokens : List Int}
      {status : RequestStatus} :
      Scheduler.checkFinish (q.applied config share tokens) = some status →
      FlightStep config ⟨q, .running, share :: shares⟩ (.apply tokens)
        ⟨{ q.applied config share tokens with status }, .done, shares⟩
  | drop {q : Request} {place : Place} {share : StepShare} {shares : List StepShare} :
      place ≠ .running →
      FlightStep config ⟨q, place, share :: shares⟩ .drop ⟨q, place, shares⟩
  | close {q : Request} {place : Place} {status : RequestStatus} {shares : List StepShare} :
      status.isFinished →
      FlightStep config ⟨q, place, shares⟩ (.close status) ⟨{ q with status }, .done, shares⟩
  | discard {q : Request} {place : Place} {status : RequestStatus} {shares : List StepShare} :
      status.isFinished →
      FlightStep config ⟨q, place, shares⟩ (.discard status) ⟨{ q with status }, .done, []⟩

end PyptoServing.Sched
