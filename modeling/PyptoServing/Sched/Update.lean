import PyptoServing.Sched.Scheduler

/-!
# After a step

`advance_after_schedule` moves the scheduler past a step whose tokens are not known yet;
`update_from_output` applies the tokens, either directly or by reconciling them with the
optimistic state.
-/
namespace PyptoServing.Sched

open Lib Memory

namespace Scheduler

/-- `_speculative_tokens_for`: only greedy decode steps get speculative capacity. -/
def speculativeTokensFor (s : Scheduler) (scheduled : ScheduledRequest) : Nat :=
  if scheduled.isPrefill ∨ 0 < (s.object scheduled.requestId).temperature then 0
  else s.config.numSpeculativeTokens

/-- Pin the tables that one record sends. -/
def retainScheduled (s : Scheduler) (scheduled : ScheduledRequest) :
    Except KvError (Scheduler × ScheduledRequest) :=
  if scheduled.blockIdsByGroup.entries = [] then .ok (s, scheduled)
  else
    match scheduled.cachePartition with
    | none => .error (.runtime "Grouped async step has no cache partition")
    | some partition => do
      let kv ← s.kvCacheManager.retainGroupBlockSnapshot scheduled.blockIdsByGroup partition
      return ({ s with kvCacheManager := kv }, { scheduled with groupBlocksRetained := true })

/-- The optimistic advance of one request. -/
def advanceRequest (s : Scheduler) (scheduled : ScheduledRequest) : Scheduler :=
  let request := s.object scheduled.requestId
  let completesPrompt :=
    decide (request.numPromptTokens ≤ request.numComputedTokens + scheduled.numNewTokens)
  let reserved :=
    if ¬ scheduled.isPrefill ∨ completesPrompt then 1 + s.speculativeTokensFor scheduled else 0
  s.modify scheduled.requestId fun request =>
    { request with
      numComputedTokens := request.numComputedTokens + scheduled.numNewTokens + (reserved - 1)
      numOutputPlaceholders := request.numOutputPlaceholders + reserved
      terminalPrefillInFlight := request.terminalPrefillInFlight ||
        (scheduled.isPrefill && completesPrompt && decide (0 < s.config.numSpeculativeTokens)) }

/-- The loop of `advance_after_schedule`: the records, advanced one after the other, behind
those of `acc`. -/
def advanceRecords (records : List ScheduledRequest) (acc : Scheduler × List ScheduledRequest) :
    Except KvError (Scheduler × List ScheduledRequest) :=
  records.foldlM (fun (acc : Scheduler × List ScheduledRequest) scheduled => do
    let (s, scheduled) ← acc.1.retainScheduled scheduled
    return (s.advanceRequest scheduled, acc.2 ++ [scheduled])) acc

/-- `advance_after_schedule`: the records come back with their pins marked. -/
def advanceAfterSchedule (s : Scheduler) (output : SchedulerOutput) :
    Except KvError (Scheduler × SchedulerOutput) :=
  if ¬ s.config.asyncScheduling then .ok (s, output)
  else do
    let (s, records) ← advanceRecords output.scheduledRequests (s, [])
    return (s, { output with scheduledRequests := records })

theorem advanceRecords_cons {sr : ScheduledRequest} {records : List ScheduledRequest}
    {acc res : Scheduler × List ScheduledRequest}
    (h : advanceRecords (sr :: records) acc = .ok res) :
    ∃ t sr', acc.1.retainScheduled sr = .ok (t, sr') ∧
      advanceRecords records (t.advanceRequest sr', acc.2 ++ [sr']) = .ok res := by
  rw [advanceRecords, List.foldlM_cons] at h
  obtain ⟨acc', hone, hrest⟩ := Lib.Fallible.bind_eq_ok.mp h
  obtain ⟨⟨t, sr'⟩, hret, hone⟩ := Lib.Fallible.bind_eq_ok.mp hone
  cases hone
  exact ⟨t, sr', hret, hrest⟩

theorem advanceAfterSchedule_cases {s s' : Scheduler} {output output' : SchedulerOutput}
    (h : s.advanceAfterSchedule output = .ok (s', output')) :
    (¬ s.config.asyncScheduling ∧ s' = s ∧ output' = output) ∨
    (s.config.asyncScheduling = true ∧ ∃ records,
      advanceRecords output.scheduledRequests (s, []) = .ok (s', records) ∧
        output' = { output with scheduledRequests := records }) := by
  unfold advanceAfterSchedule at h
  split at h
  · next hsync =>
    cases h
    exact .inl ⟨hsync, rfl, rfl⟩
  · next hasync =>
    obtain ⟨⟨t, records⟩, hfold, h⟩ := Lib.Fallible.bind_eq_ok.mp h
    cases h
    exact .inr ⟨not_not.mp hasync, records, hfold, rfl⟩

/-- `_release_scheduled_group_blocks`. -/
def releaseScheduledGroupBlocks (s : Scheduler) (scheduled : ScheduledRequest) :
    Except KvError Scheduler :=
  if ¬ scheduled.groupBlocksRetained then .ok s
  else
    match scheduled.cachePartition with
    | none => .error (.runtime "Retained grouped async step has no cache partition")
    | some partition => do
      let kv ← s.kvCacheManager.releaseGroupBlockSnapshot scheduled.blockIdsByGroup partition
      return { s with kvCacheManager := kv }

/-- `_check_finish`. -/
def checkFinish (request : Request) : Option RequestStatus :=
  match request.outputTokenIds.getLast? with
  | none => none
  | some lastToken =>
    if request.eosTokenId = some lastToken then some .finishedEos
    else if request.maxNewTokens ≤ request.outputTokenIds.length then some .finishedLength
    else none

/-- Append tokens to a request until it finishes; the number of tokens kept. -/
def appendTokens (request : Request) : List Int → Request × Nat
  | [] => (request, 0)
  | token :: tokens =>
    let request := { request with outputTokenIds := request.outputTokenIds ++ [token] }
    if (checkFinish request).isSome then (request, 1)
    else
      let r := appendTokens request tokens
      (r.1, r.2 + 1)

/-- The append loop of `update_from_output`: the request's new tokens and their outputs. -/
def applyTokens (s : Scheduler) (r : RequestId) (tokens : List Int) :
    Scheduler × List RequestOutput × Nat :=
  let kept := (appendTokens (s.object r) tokens).2
  (s.modify r fun request => (appendTokens request tokens).1,
    (tokens.take kept).map fun token => { requestId := r, newTokenId := some token }, kept)

/-- The generic half of `_cache_completed_blocks`. -/
def cacheGenericBlocks (s : Scheduler) (r : RequestId) (confirmedTokens : Nat) : Scheduler :=
  let request := s.object r
  let total := min (confirmedTokens / s.kvCacheManager.blockSize) request.blockHashes.length
  if total ≤ request.numBlocksCached then s
  else
    { s with
      kvCacheManager := s.kvCacheManager.cacheBlockIds
        (request.cachedBlockIds ++ request.allocatedBlockIds) request.blockHashes
        request.numBlocksCached total }.modify r fun request =>
      { request with numBlocksCached := total }

/-- `_cache_completed_blocks`. A failed publication is raised. -/
def cacheCompletedBlocks (s : Scheduler) (r : RequestId) (confirmedTokens : Nat) :
    Except KvError Scheduler :=
  if ¬ s.config.enablePrefixCache then .ok s
  else if s.kvCacheManager.hasGroups then
    let request := s.object r
    match s.kvCacheManager.cacheGroupBlocks r request.groupBlockHashes confirmedTokens
        request.numGroupBlocksCached with
    | (.ok counts, kv) =>
      .ok ({ s with kvCacheManager := kv }.modify r fun request =>
        { request with numGroupBlocksCached := counts })
    | (.error e, _) => .error e
  else .ok (s.cacheGenericBlocks r confirmedTokens)

/-- The publication of a confirmed asynchronous step, through the tables it was sent with. -/
def publishScheduled (s : Scheduler) (scheduled : ScheduledRequest) : Except KvError Scheduler := do
  let confirmedTokens := scheduled.numComputedTokens + scheduled.numNewTokens
  if s.kvCacheManager.hasGroups then
    match scheduled.cachePartition with
    | none => .error (.runtime "Grouped async step has no cache partition")
    | some partition =>
      let request := s.object scheduled.requestId
      match s.kvCacheManager.cacheGroupBlocksFromSnapshot request.groupBlockHashes confirmedTokens
          request.numGroupBlocksCached scheduled.blockIdsByGroup partition with
      | (.ok counts, kv) =>
        .ok ({ s with kvCacheManager := kv }.modify scheduled.requestId fun request =>
          { request with numGroupBlocksCached := counts })
      | (.error e, _) => .error e
  else s.cacheCompletedBlocks scheduled.requestId confirmedTokens

/-- The placeholders that an asynchronous step reserved. -/
def reservedTokens (s : Scheduler) (scheduled : ScheduledRequest) : Nat :=
  let request := s.object scheduled.requestId
  if ¬ scheduled.isPrefill ∨ request.numPromptTokens ≤ request.numComputedTokens then
    1 + s.speculativeTokensFor scheduled
  else 0

/-- Release a step's placeholders and the speculative positions that kept no token. -/
def settle (request : Request) (reserved retained : Nat) : Request :=
  if reserved = 0 then request
  else
    { request with
      numOutputPlaceholders := request.numOutputPlaceholders - reserved
      numComputedTokens := request.numComputedTokens - ((reserved - 1) - (retained - 1)) }

/-- `_reconcile_async_output`. -/
def reconcileAsyncOutput (s : Scheduler) (scheduled : ScheduledRequest) (tokens : List Int) :
    Except KvError (Scheduler × List RequestOutput) := do
  let r := scheduled.requestId
  let reserved := s.reservedTokens scheduled
  let s ← s.publishScheduled scheduled
  let s ← s.releaseScheduledGroupBlocks scheduled
  let (s, outputs, retained) := s.applyTokens r tokens
  return (s.modify r fun request => settle request reserved retained, outputs)

/-- One record of a synchronous step. -/
def applySyncOutput (s : Scheduler) (scheduled : ScheduledRequest) (tokens : List Int) :
    Except KvError (Scheduler × List RequestOutput) := do
  let r := scheduled.requestId
  if scheduled.isPrefill then
    let s := s.modify r fun request =>
      { request with numComputedTokens := request.numComputedTokens + scheduled.numNewTokens }
    let s ← s.cacheCompletedBlocks r (s.object r).numComputedTokens
    if (s.object r).isPrefill then return (s, [])
    else
      let (s, outputs, _) := s.applyTokens r tokens
      return (s, outputs)
  else
    let (s, outputs, retained) := s.applyTokens r tokens
    let s := s.modify r fun request =>
      { request with numComputedTokens := request.numComputedTokens + retained }
    let s ← s.cacheCompletedBlocks r (s.object r).numComputedTokens
    return (s, outputs)

/-- The tokens a step returned, by request; a request without an entry returned none. -/
abbrev StepTokens := Dict RequestId (List Int)

/-- The result of one record, by the mode of the scheduler. -/
def applyOutput (s : Scheduler) (scheduled : ScheduledRequest) (tokens : List Int) :
    Except KvError (Scheduler × List RequestOutput) :=
  if s.config.asyncScheduling then s.reconcileAsyncOutput scheduled tokens
  else s.applySyncOutput scheduled tokens

/-- The prefill that completes the prompt has been confirmed. -/
def clearTerminalPrefill (s : Scheduler) (scheduled : ScheduledRequest) : Scheduler :=
  let r := scheduled.requestId
  if scheduled.isPrefill ∧
      (s.object r).numPromptTokens ≤ scheduled.numComputedTokens + scheduled.numNewTokens then
    s.modify r fun request => { request with terminalPrefillInFlight := false }
  else s

/-- One record of `update_from_output`. The result of a request that has finished or was
preempted since is dropped. -/
def applyScheduled (newTokenIds : StepTokens) (acc : Scheduler × List RequestOutput)
    (scheduled : ScheduledRequest) : Except KvError (Scheduler × List RequestOutput) := do
  let (s, outputs) := acc
  let r := scheduled.requestId
  let request := s.object r
  if request.status.isFinished ∨ request.status = .preempted then
    let s ← s.releaseScheduledGroupBlocks scheduled
    return (s, outputs)
  else
    let tokens := (newTokenIds.lookup r).getD []
    let (s, new) ← (s.clearTerminalPrefill scheduled).applyOutput scheduled tokens
    return (s, outputs ++ new)

/-- Mark the last output of a finished request, or emit one for it. -/
def markFinished (r : RequestId) (reason : String) : List RequestOutput → List RequestOutput
  | [] => [{ requestId := r, finished := true, finishReason := reason }]
  | out :: outputs =>
    if outputs.any fun out => out.requestId = r then out :: markFinished r reason outputs
    else if out.requestId = r then
      { out with finished := true, finishReason := reason } :: outputs
    else out :: markFinished r reason outputs

/-- The finish check of one running request. -/
def finishRunning (acc : Scheduler × List RequestOutput × List RequestId) (r : RequestId) :
    Scheduler × List RequestOutput × List RequestId :=
  let (s, outputs, finishedIds) := acc
  if (s.object r).status.isFinished then acc
  else
    match checkFinish (s.object r) with
    | none => acc
    | some status =>
      (s.modify r fun request => { request with status },
        markFinished r status.name outputs, finishedIds ++ [r])

/-- Free one finished request and take it out of the running queue. -/
def retire (s : Scheduler) (r : RequestId) : Except KvError Scheduler :=
  if r ∈ s.requests then do
    let s ← s.freeRequestBlocks r
    return { s with running := s.running.filter (· ≠ r) }
  else .ok { s with running := s.running.filter (· ≠ r) }

/-- `update_from_output`. -/
def updateFromOutput (s : Scheduler) (output : SchedulerOutput) (newTokenIds : StepTokens) :
    Except KvError (Scheduler × List RequestOutput) := do
  let (s, outputs) ← output.scheduledRequests.foldlM (applyScheduled newTokenIds) (s, [])
  let (s, outputs, finishedIds) := s.running.foldl finishRunning (s, outputs, [])
  let s ← finishedIds.foldlM retire s
  return (s, outputs)

end Scheduler
end PyptoServing.Sched
