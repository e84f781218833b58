import PyptoServing.Lib.Machine
import PyptoServing.Sched.Summary
import PyptoServing.Sched.Update

/-!
# The scheduling pipeline

The runs of a scheduler under its engine loop: requests arrive, steps are scheduled and put
in flight, results are applied in dispatch order, requests end or are aborted, and an error
drops the steps in flight. One step is in flight at a time in synchronous mode, two in
asynchronous mode; after a pass that scheduled nothing the loop waits for the oldest step.
-/
namespace PyptoServing.Sched

open Lib Lib.Fallible Memory
open Scheduler (StepTokens)

/-- A request as the engine builds it, with its progress at the defaults. -/
structure Request.Fresh (request : Request) : Prop where
  defaults : request =
    { requestId := request.requestId
      promptTokenIds := request.promptTokenIds
      maxNewTokens := request.maxNewTokens
      arrivalTime := request.arrivalTime
      stopStrings := request.stopStrings
      eosTokenId := request.eosTokenId
      temperature := request.temperature
      topP := request.topP
      topK := request.topK
      seed := request.seed }
  prompt_pos : 0 < request.numPromptTokens

/-- `_max_in_flight`. -/
def SchedulerConfig.maxInFlight (config : SchedulerConfig) : Nat :=
  if config.asyncScheduling then 2 else 1

structure Pipeline where
  sched : Scheduler
  /-- The steps whose results are not applied yet, oldest first. -/
  inFlight : List SchedulerOutput := []
  /-- The last pass scheduled nothing, so the oldest step is awaited first. -/
  mustAwait : Bool := false
  /-- The request ids used so far. -/
  issued : List RequestId := []

inductive PipelineOp
  | add (request : Request)
  | dispatch
  | complete (newTokenIds : StepTokens)
  | finish (requestId : RequestId)
  | abort (requestId : RequestId)
  | discard

namespace Pipeline

/-- The engine loop schedules: there is room in flight and something to do. -/
structure Ready (p : Pipeline) : Prop where
  room : p.inFlight.length < p.sched.config.maxInFlight
  free : p.mustAwait = false
  work : p.sched.hasWork

/-- The scheduler side of `_handle_step_error` for one record; `seen` holds the requests
that were aborted. -/
def dropScheduled (acc : Scheduler × List RequestId) (scheduled : ScheduledRequest) :
    Except KvError (Scheduler × List RequestId) := do
  let s ← acc.1.releaseScheduledGroupBlocks scheduled
  if scheduled.requestId ∈ acc.2 then return (s, acc.2)
  else
    let s ← s.abortRequest scheduled.requestId
    return (s, scheduled.requestId :: acc.2)

/-- Drop every step in flight and abort its requests. -/
def dropBatches (s : Scheduler) (batches : List SchedulerOutput) : Except KvError Scheduler := do
  let (s, _) ← (batches.flatMap (·.scheduledRequests)).foldlM dropScheduled (s, [])
  return s

inductive Step (p : Pipeline) : PipelineOp → Pipeline → Prop
  | add {request : Request} {s : Scheduler} : request.Fresh → request.requestId ∉ p.issued →
      p.sched.addRequest request = .ok s →
      Step p (.add request) { p with sched := s, issued := request.requestId :: p.issued }
  | dispatch {pass : Pass} {s : Scheduler} {output : SchedulerOutput} : p.Ready →
      p.sched.schedule = .ok pass → pass.output.isEmpty = false →
      pass.sched.advanceAfterSchedule pass.output = .ok (s, output) →
      Step p .dispatch { p with sched := s, inFlight := p.inFlight ++ [output] }
  | idle {pass : Pass} : p.Ready → p.sched.schedule = .ok pass → pass.output.isEmpty = true →
      Step p .dispatch { p with sched := pass.sched, mustAwait := !p.inFlight.isEmpty }
  | complete {output : SchedulerOutput} {rest : List SchedulerOutput} {tokens : StepTokens}
      {s : Scheduler} {outputs : List RequestOutput} : p.inFlight = output :: rest →
      p.sched.updateFromOutput output tokens = .ok (s, outputs) →
      Step p (.complete tokens) { p with sched := s, inFlight := rest, mustAwait := false }
  | finish {r : RequestId} {s : Scheduler} : r ∉ p.sched.waiting →
      p.sched.finishRequest r .finishedStop = .ok s → Step p (.finish r) { p with sched := s }
  | abort {r : RequestId} {s : Scheduler} : p.sched.abortRequest r = .ok s →
      Step p (.abort r) { p with sched := s }
  | discard {s : Scheduler} : p.inFlight ≠ [] → dropBatches p.sched p.inFlight = .ok s →
      Step p .discard { p with sched := s, inFlight := [], mustAwait := false }

/-- The start of the engine: initialised cache pools and a scheduler without requests. -/
structure Started (p : Pipeline) : Prop where
  sched : ∃ pyHash groups maxBatchSize pageSize numBlocks kv config object, 0 < pageSize ∧
    KvCacheManager.initializePools
      { pyHash, blockSize := pageSize, enablePrefixCache := config.enablePrefixCache }
      groups maxBatchSize pageSize numBlocks = .ok kv ∧
    Scheduler.new config kv object = .ok p.sched
  inFlight : p.inFlight = []
  mustAwait : p.mustAwait = false
  issued : p.issued = []

end Pipeline

/-- Every run of a scheduler under its engine loop. -/
def pipelineMachine : Machine Pipeline PipelineOp where
  init := Pipeline.Started
  step := Pipeline.Step

namespace Pipeline

/-- The step of an operation, computed. -/
def exec (p : Pipeline) : PipelineOp → Option Pipeline
  | .add request =>
    if request.requestId ∈ p.issued then none
    else (p.sched.addRequest request).toOption.map fun sched =>
      { p with sched, issued := request.requestId :: p.issued }
  | .dispatch =>
    if p.inFlight.length < p.sched.config.maxInFlight ∧ p.mustAwait = false ∧ p.sched.hasWork then
      p.sched.schedule.toOption.bind fun pass =>
        if pass.output.isEmpty then
          some { p with sched := pass.sched, mustAwait := !p.inFlight.isEmpty }
        else (pass.sched.advanceAfterSchedule pass.output).toOption.map fun advanced =>
          { p with sched := advanced.1, inFlight := p.inFlight ++ [advanced.2] }
    else none
  | .complete newTokenIds =>
    match p.inFlight with
    | [] => none
    | output :: inFlight =>
      (p.sched.updateFromOutput output newTokenIds).toOption.map fun updated =>
        { p with sched := updated.1, inFlight, mustAwait := false }
  | .finish r =>
    if r ∉ p.sched.waiting then
      (p.sched.finishRequest r .finishedStop).toOption.map fun sched => { p with sched }
    else none
  | .abort r => (p.sched.abortRequest r).toOption.map fun sched => { p with sched }
  | .discard =>
    if p.inFlight.isEmpty then none
    else (dropBatches p.sched p.inFlight).toOption.map fun sched =>
      { p with sched, inFlight := [], mustAwait := false }

def execAll (p : Pipeline) (ops : List PipelineOp) : Option Pipeline := ops.foldlM exec p

theorem toOption_eq_some {ε α : Type} {x : Except ε α} {a : α} (h : x.toOption = some a) :
    x = .ok a := by
  cases x with
  | error e => cases h
  | ok b => cases h; rfl

theorem exec_step {p p' : Pipeline} {op : PipelineOp} (hfresh : ∀ q, op = .add q → q.Fresh)
    (h : p.exec op = some p') : Step p op p' := by
  cases op with
  | add q =>
    simp only [exec] at h
    split at h
    · cases h
    · next hid =>
      obtain ⟨s, hs, rfl⟩ := Option.map_eq_some_iff.mp h
      exact .add (hfresh q rfl) hid (toOption_eq_some hs)
  | dispatch =>
    simp only [exec] at h
    split at h
    · next hready =>
      obtain ⟨pass, hsched, h⟩ := Option.bind_eq_some_iff.mp h
      have hr : p.Ready := ⟨hready.1, hready.2.1, hready.2.2⟩
      split at h
      · next hempty =>
        cases h
        exact .idle hr (toOption_eq_some hsched) hempty
      · next hne =>
        obtain ⟨⟨s, output⟩, hadv, rfl⟩ := Option.map_eq_some_iff.mp h
        exact .dispatch hr (toOption_eq_some hsched) (by simpa using hne) (toOption_eq_some hadv)
    · cases h
  | complete tokens =>
    simp only [exec] at h
    split at h
    · cases h
    · next output rest hfl =>
      obtain ⟨⟨s, outputs⟩, hupd, rfl⟩ := Option.map_eq_some_iff.mp h
      exact .complete hfl (toOption_eq_some hupd)
  | finish r =>
    simp only [exec] at h
    split at h
    · next hr =>
      obtain ⟨s, hs, rfl⟩ := Option.map_eq_some_iff.mp h
      exact .finish hr (toOption_eq_some hs)
    · cases h
  | abort r =>
    obtain ⟨s, hs, rfl⟩ := Option.map_eq_some_iff.mp h
    exact .abort (toOption_eq_some hs)
  | discard =>
    simp only [exec] at h
    split at h
    · cases h
    · next hne =>
      obtain ⟨s, hs, rfl⟩ := Option.map_eq_some_iff.mp h
      exact .discard (by simpa using hne) (toOption_eq_some hs)

/-- A computed run is a run. -/
theorem execAll_reachable {p p' : Pipeline} {ops : List PipelineOp}
    (hp : pipelineMachine.Reachable p) (hfresh : ∀ q, PipelineOp.add q ∈ ops → q.Fresh)
    (h : p.execAll ops = some p') : pipelineMachine.Reachable p' := by
  induction ops generalizing p with
  | nil =>
    cases h
    exact hp
  | cons op ops ih =>
    rw [execAll, List.foldlM_cons] at h
    obtain ⟨p₁, hone, h⟩ := Option.bind_eq_some_iff.mp h
    refine ih (hp.next (a := op) (exec_step (fun q hq => hfresh q (by simp [hq])) hone))
      (fun q hq => hfresh q (by simp [hq])) h

/-- Initialise the pools and build the scheduler. -/
def boot (pyHash : PyHash) (groups : List Config.KVCacheGroupSpec)
    (maxBatchSize pageSize numBlocks : Nat) (config : SchedulerConfig) : Option Pipeline := do
  let kv ← (KvCacheManager.initializePools
    { pyHash, blockSize := pageSize, enablePrefixCache := config.enablePrefixCache }
    groups maxBatchSize pageSize numBlocks).toOption
  let sched ← (Scheduler.new config kv fun _ =>
    { requestId := "", promptTokenIds := [], maxNewTokens := 0, arrivalTime := 0 }).toOption
  return { sched }

/-- `execAll`, as long as each operation is allowed. -/
def execAllowed (allowed : Pipeline → PipelineOp → Bool) (p : Pipeline) (ops : List PipelineOp) :
    Option Pipeline :=
  ops.foldlM (fun p op => if allowed p op then p.exec op else none) p

/-- A computed run of allowed operations is a run of the restricted machine. -/
theorem execAllowed_reachable {C : Pipeline → PipelineOp → Pipeline → Prop}
    {allowed : Pipeline → PipelineOp → Bool} {p p' : Pipeline} {ops : List PipelineOp}
    (hC : ∀ p op p', allowed p op = true → C p op p')
    (hp : (pipelineMachine.restrict C).Reachable p)
    (hfresh : ∀ q, PipelineOp.add q ∈ ops → q.Fresh) (h : p.execAllowed allowed ops = some p') :
    (pipelineMachine.restrict C).Reachable p' := by
  induction ops generalizing p with
  | nil =>
    cases h
    exact hp
  | cons op ops ih =>
    rw [execAllowed, List.foldlM_cons] at h
    obtain ⟨p₁, hone, h⟩ := Option.bind_eq_some_iff.mp h
    split at hone
    · next hop =>
      refine ih (hp.next (a := op) ⟨?_, hC p op p₁ hop⟩) (fun q hq => hfresh q (by simp [hq])) h
      exact exec_step (fun q hq => hfresh q (by simp [hq])) hone
    · cases hone

/-- Boot and run. -/
def bootAll (pyHash : PyHash) (groups : List Config.KVCacheGroupSpec)
    (maxBatchSize pageSize numBlocks : Nat) (config : SchedulerConfig)
    (ops : List PipelineOp) : Option Pipeline :=
  (boot pyHash groups maxBatchSize pageSize numBlocks config).bind (·.execAll ops)

theorem boot_started {pyHash : PyHash} {groups : List Config.KVCacheGroupSpec}
    {maxBatchSize pageSize numBlocks : Nat} {config : SchedulerConfig} {p : Pipeline}
    (hpage : 0 < pageSize)
    (h : boot pyHash groups maxBatchSize pageSize numBlocks config = some p) : p.Started := by
  obtain ⟨kv, hkv, h⟩ := Option.bind_eq_some_iff.mp h
  obtain ⟨sched, hnew, h⟩ := Option.bind_eq_some_iff.mp h
  cases h
  exact ⟨⟨pyHash, groups, maxBatchSize, pageSize, numBlocks, kv, config, _, hpage,
    toOption_eq_some hkv, toOption_eq_some hnew⟩, rfl, rfl, rfl⟩

theorem bootAll_reachable {pyHash : PyHash} {groups : List Config.KVCacheGroupSpec}
    {maxBatchSize pageSize numBlocks : Nat} {config : SchedulerConfig} {ops : List PipelineOp}
    {p : Pipeline} (hpage : 0 < pageSize) (hfresh : ∀ q, PipelineOp.add q ∈ ops → q.Fresh)
    (h : bootAll pyHash groups maxBatchSize pageSize numBlocks config ops = some p) :
    pipelineMachine.Reachable p := by
  obtain ⟨p₀, hboot, h⟩ := Option.bind_eq_some_iff.mp h
  exact execAll_reachable (.start (boot_started hpage hboot)) hfresh h

/-- Boot and run allowed operations. -/
def bootAllowed (allowed : Pipeline → PipelineOp → Bool) (pyHash : PyHash)
    (groups : List Config.KVCacheGroupSpec) (maxBatchSize pageSize numBlocks : Nat)
    (config : SchedulerConfig) (ops : List PipelineOp) : Option Pipeline :=
  (boot pyHash groups maxBatchSize pageSize numBlocks config).bind (·.execAllowed allowed ops)

theorem bootAllowed_reachable {C : Pipeline → PipelineOp → Pipeline → Prop}
    {allowed : Pipeline → PipelineOp → Bool} {pyHash : PyHash}
    {groups : List Config.KVCacheGroupSpec} {maxBatchSize pageSize numBlocks : Nat}
    {config : SchedulerConfig} {ops : List PipelineOp} {p : Pipeline}
    (hC : ∀ p op p', allowed p op = true → C p op p') (hpage : 0 < pageSize)
    (hfresh : ∀ q, PipelineOp.add q ∈ ops → q.Fresh)
    (h : bootAllowed allowed pyHash groups maxBatchSize pageSize numBlocks config ops = some p) :
    (pipelineMachine.restrict C).Reachable p := by
  obtain ⟨p₀, hboot, h⟩ := Option.bind_eq_some_iff.mp h
  exact execAllowed_reachable hC (.start (boot_started hpage hboot)) hfresh h

end Pipeline

/-- A greedy request without stop conditions but its length. -/
def plainRequest (id : RequestId) (prompt : List Int) (maxNewTokens : Nat) (arrival : Rat) :
    Request :=
  { requestId := id, promptTokenIds := prompt, maxNewTokens, arrivalTime := arrival }

theorem plainRequest_fresh {id : RequestId} {prompt : List Int} {maxNewTokens : Nat}
    {arrival : Rat} (h : 0 < prompt.length) : (plainRequest id prompt maxNewTokens arrival).Fresh :=
  ⟨rfl, h⟩

end PyptoServing.Sched
