import PyptoServing.Memory.Conservation
import PyptoServing.Sched.Request

/-!
# The scheduler

`Scheduler`: the state, admission, the two phases of `schedule` and the updates after a
step. `Pass` holds the local variables of one `schedule` call. It also lists the cache
operations and preemptions of the call in order; nothing reads that list back.
-/
namespace PyptoServing.Sched

open Lib Memory

/-- The kernel phase of a step when prefill and decode may not be mixed. -/
inductive Phase
  | prefill
  | decode
  deriving DecidableEq, Repr

structure Scheduler where
  config : SchedulerConfig
  kvCacheManager : KvCacheManager
  /-- The request objects, which the queues and the steps in flight share. -/
  object : RequestId → Request
  waiting : List RequestId := []
  running : List RequestId := []
  requests : List RequestId := []
  nextGroupedCachePhase : Phase := .decode

namespace Scheduler

/-- Write one request object. -/
def modify (s : Scheduler) (r : RequestId) (f : Request → Request) : Scheduler :=
  { s with object := Function.update s.object r (f (s.object r)) }

/-- `Scheduler(...)`: grouped speculative prefix caching needs an EAGLE group. -/
def new (config : SchedulerConfig) (kvCacheManager : KvCacheManager)
    (object : RequestId → Request) : Except String Scheduler :=
  if kvCacheManager.hasGroups ∧ config.enablePrefixCache ∧ 0 < config.numSpeculativeTokens ∧
      ¬ kvCacheManager.hasEagleGroups then
    .error "Grouped speculative/MTP prefix caching requires an EAGLE cache group"
  else .ok { config, kvCacheManager, object }

/-- `_prefill_chunk_limit`: the per-request prefill limit before the step budget. -/
def prefillChunkLimit (s : Scheduler) : Option Nat :=
  let limits := s.config.maxPrefillTokensPerRequest.toList ++
    (if s.config.enableChunkPrefill ∧ 0 < s.config.longPrefillTokenThreshold then
      [s.config.longPrefillTokenThreshold] else [])
  limits.min?

/-- `_single_prefill_dispatch_limit`: the largest prompt that runs in one step. -/
def singlePrefillDispatchLimit (s : Scheduler) : Nat :=
  match s.prefillChunkLimit with
  | none => s.config.maxNumScheduledTokens
  | some limit => min limit s.config.maxNumScheduledTokens

/-- `_requires_single_prefill_dispatch`. -/
def requiresSinglePrefillDispatch (s : Scheduler) : Bool :=
  !s.config.enableChunkPrefill ||
    (decide (0 < s.config.numSpeculativeTokens) &&
      !s.config.supportsChunkedPrefillWithSpeculation)

/-- `_single_prefill_rejection`: the admission error of an uncached prompt that cannot
run in one step. -/
def singlePrefillRejection (s : Scheduler) (request : Request) : Option String :=
  if ¬ s.requiresSinglePrefillDispatch then none
  else
    let uncachedTokens := max 1 (request.numPromptTokens - request.numComputedTokens)
    let limit := s.singlePrefillDispatchLimit
    if uncachedTokens ≤ limit then none
    else if ¬ s.config.enableChunkPrefill then
      some (s!"Request {request.requestId} uncached prompt length {uncachedTokens} exceeds " ++
        s!"the effective single-dispatch prefill limit {limit} while " ++
        "chunked prefill is disabled.")
    else
      some (s!"Request {request.requestId} uncached prompt length {uncachedTokens} requires " ++
        "chunked prefill, which is not supported with speculative decoding for this model; " ++
        s!"the single-dispatch limit is {limit}. Disable speculative " ++
        "decoding or shorten the uncached prompt suffix.")

/-- The most tokens of one prefill that the chunk limit and the remaining budget allow. -/
def prefillLimit (s : Scheduler) (tokenBudget : Nat) : Nat :=
  match s.prefillChunkLimit with
  | some chunkLimit => min tokenBudget chunkLimit
  | none => tokenBudget

/-- `_limit_scheduled_tokens`: the per-request prefill limits and the remaining budget. -/
def limitScheduledTokens (s : Scheduler) (request : Request) (tokenBudget : Nat) : Nat :=
  let needed := request.numNewTokensNeeded
  if request.isPrefill then
    let limit := s.prefillLimit tokenBudget
    if s.requiresSinglePrefillDispatch ∧ limit < needed then 0 else min needed limit
  else min needed tokenBudget

/-- The draft positions of a running request's share: only greedy decode has some. -/
def speculativeTokens (s : Scheduler) (request : Request) : Nat :=
  if ¬ request.isPrefill ∧ request.temperature ≤ 0 then s.config.numSpeculativeTokens else 0

/-- The cache after a request's blocks are given back. -/
def freedCache (s : Scheduler) (r : RequestId) : Except KvError KvCacheManager :=
  let request := s.object r
  let kv := (s.kvCacheManager.releaseBlocksByIds request.cachedBlockIds).releaseBlocksByIds
    request.allocatedBlockIds
  if request.allocatedGroupBlockIds.entries ≠ [] then kv.releaseAllGroupRequests r else .ok kv

/-- `_free_request_blocks`. -/
def freeRequestBlocks (s : Scheduler) (r : RequestId) : Except KvError Scheduler := do
  let kv ← s.freedCache r
  return { s with kvCacheManager := kv }.modify r fun request =>
    { request with
      cachedBlockIds := []
      allocatedBlockIds := []
      allocatedGroupBlockIds := ∅
      cachePartition := none
      numGroupBlocksCached := ∅ }

/-- `add_request`. -/
def addRequest (s : Scheduler) (request : Request) : Except String Scheduler :=
  let promptLen := request.promptTokenIds.length
  let maxSeqLen := s.config.maxSeqLen
  if maxSeqLen < promptLen then
    .error (s!"Request {request.requestId} prompt length {promptLen} " ++
      s!"exceeds max_seq_len {maxSeqLen}; request rejected.")
  else if maxSeqLen - promptLen = 0 then
    .error (s!"Request {request.requestId} prompt length {promptLen} " ++
      s!"leaves no room for generation within max_seq_len {maxSeqLen}; request rejected.")
  else
    let request := { request with maxNewTokens := min request.maxNewTokens (maxSeqLen - promptLen) }
    match if s.config.enablePrefixCache then none else s.singlePrefillRejection request with
    | some rejection => .error rejection
    | none =>
      let request :=
        if s.config.enablePrefixCache then
          if s.kvCacheManager.hasGroups then
            { request with
              groupBlockHashes :=
                s.kvCacheManager.computeGroupBlockHashes request.promptTokenIds }
          else
            { request with
              blockHashes := s.kvCacheManager.computeBlockHashes request.promptTokenIds }
        else request
      .ok { s with
        object := Function.update s.object request.requestId { request with status := .waiting }
        waiting := s.waiting ++ [request.requestId]
        requests := s.requests ++ [request.requestId] }

/-- `abort_request`. -/
def abortRequest (s : Scheduler) (r : RequestId) : Except KvError Scheduler :=
  if r ∉ s.requests then .ok s
  else do
    let s ← (s.modify r fun request => { request with status := .finishedAborted }).freeRequestBlocks r
    return { s with
      running := s.running.filter (· ≠ r)
      waiting := s.waiting.filter (· ≠ r)
      requests := s.requests.filter (· ≠ r) }

/-- `finish_request`: mark a running request as finished and free its resources. -/
def finishRequest (s : Scheduler) (r : RequestId) (status : RequestStatus) :
    Except KvError Scheduler :=
  if r ∉ s.requests then .ok s
  else do
    let s ← (s.modify r fun request => { request with status }).freeRequestBlocks r
    return { s with running := s.running.filter (· ≠ r) }

def hasWork (s : Scheduler) : Bool := !s.running.isEmpty || !s.waiting.isEmpty

/-- `_grouped_cache_phase`: one kernel phase for this step, and the rotated preference. -/
def groupedCachePhase (s : Scheduler) : Option Phase × Scheduler :=
  if ¬ s.config.requiresHomogeneousPrefillDecode then (none, s)
  else
    let ready := s.running.filter fun r =>
      (s.object r).status ≠ .preempted ∧ ¬ (s.object r).terminalPrefillInFlight ∧
        0 < (s.object r).numNewTokensNeeded
    let hasRunningPrefill := ready.any fun r => (s.object r).isPrefill
    let canAdmitWaitingPrefill :=
      !s.waiting.isEmpty && decide (s.running.length < s.config.maxNumRunningReqs)
    let hasPrefill := hasRunningPrefill || canAdmitWaitingPrefill
    let hasDecode := ready.any fun r => !(s.object r).isPrefill
    if !hasPrefill && !hasDecode then (none, s)
    else
      let phase :=
        if hasPrefill && hasDecode then s.nextGroupedCachePhase
        else if hasPrefill then .prefill
        else .decode
      (some phase,
        { s with nextGroupedCachePhase := if phase = .prefill then .decode else .prefill })

/-- `_blocks_needed` of the generic pool. -/
def blocksNeeded (s : Scheduler) (request : Request) (numNewTokens : Nat) : Nat :=
  let currentBlocks := request.cachedBlockIds.length + request.allocatedBlockIds.length
  ceilDiv (request.numComputedTokens + numNewTokens) s.kvCacheManager.blockSize - currentBlocks

/-- `_try_allocate_blocks`. -/
def tryAllocateBlocks (s : Scheduler) (r : RequestId) (numBlocks : Nat) : Bool × Scheduler :=
  if numBlocks = 0 then (true, s)
  else if s.kvCacheManager.numFreeBlocks < numBlocks then (false, s)
  else
    match s.kvCacheManager.allocateBlockIds numBlocks with
    | (none, kv) => (false, { s with kvCacheManager := kv })
    | (some blockIds, kv) =>
      (true, { s with kvCacheManager := kv }.modify r fun request =>
        { request with allocatedBlockIds := request.allocatedBlockIds ++ blockIds })

/-- `_try_allocate_request_blocks`: a shortage is `false`, any other error is raised. -/
def tryAllocateRequestBlocks (s : Scheduler) (r : RequestId) (numNewTokens : Nat) :
    Except KvError (Bool × Scheduler) :=
  let request := s.object r
  if s.kvCacheManager.hasGroups then
    match s.kvCacheManager.ensureGroupBlocks r (request.numComputedTokens + numNewTokens)
        request.cachePartition with
    | (.ok tables, kv) =>
      .ok (true, { s with kvCacheManager := kv }.modify r fun request =>
        { request with
          allocatedGroupBlockIds := tables
          cachePartition := kv.groupRequestPartition r })
    | (.error (.capacity _), kv) => .ok (false, { s with kvCacheManager := kv })
    | (.error e, _) => .error e
  else .ok (s.tryAllocateBlocks r (s.blocksNeeded request numNewTokens))

/-- The running requests that may be preempted for `exclude`: the others, of its own
cache partition when one of them is there. -/
def preemptionCandidates (s : Scheduler) (exclude : RequestId) : List RequestId :=
  let candidates := s.running.filter (· ≠ exclude)
  let partition := (s.object exclude).cachePartition
  if s.kvCacheManager.hasGroups ∧ partition.isSome then
    let samePartition := candidates.filter fun r => (s.object r).cachePartition = partition
    if samePartition = [] then candidates else samePartition
  else candidates

/-- `max(candidates, key=arrival_time)`: the first of the latest arrivals. -/
def latestArrival (s : Scheduler) : List RequestId → Option RequestId
  | [] => none
  | r :: rest =>
    match latestArrival s rest with
    | none => some r
    | some v => some (if (s.object r).arrivalTime < (s.object v).arrivalTime then v else r)

/-- `_release_waiting_prefix_blocks`: roll back the prefix references of a deferred request. -/
def releaseWaitingPrefixBlocks (s : Scheduler) (r : RequestId) : Except KvError Scheduler := do
  let s ← s.freeRequestBlocks r
  return s.modify r fun request =>
    { request with numComputedTokens := 0, numBlocksCached := 0, numGroupBlocksCached := ∅ }

/-- A victim restarts from a clean prefill state. -/
def resetVictim (request : Request) : Request :=
  { request with
    status := .preempted
    numComputedTokens := 0
    cachedBlockIds := []
    allocatedBlockIds := []
    allocatedGroupBlockIds := ∅
    cachePartition := none
    numBlocksCached := 0
    numGroupBlocksCached := ∅
    numOutputPlaceholders := 0
    terminalPrefillInFlight := false }

end Scheduler

/-- What one pass did to the cache and to other requests, and the budgets that it granted
shares from, in order. -/
inductive PassEvent
  | cache (op : KvCacheManager.GroupOp)
  | preempt (victim exclude : RequestId) (before : Scheduler)
  | grant (requestId : RequestId) (tokenBudget : Nat)

/-- The state of one `schedule` call: `self`, its output and its local variables. -/
structure Pass where
  sched : Scheduler
  output : SchedulerOutput := {}
  tokenBudget : Nat
  scheduledReqIds : List RequestId := []
  numScheduledTokens : Dict RequestId Nat := ∅
  runningToKeep : List RequestId := []
  events : List PassEvent := []

namespace Pass

open Scheduler

def keep (pass : Pass) (r : RequestId) : Pass :=
  { pass with runningToKeep := pass.runningToKeep ++ [r] }

def log (pass : Pass) (events : List PassEvent) : Pass :=
  { pass with events := pass.events ++ events }

/-- The cache operation of freeing a request's blocks. -/
def releaseEvents (request : Request) (r : RequestId) : List PassEvent :=
  if request.allocatedGroupBlockIds.entries ≠ [] then [.cache (.releaseAll r)] else []

/-- Grow a request's tables for `numNewTokens` more tokens. -/
def allocate (pass : Pass) (r : RequestId) (numNewTokens : Nat) : Except KvError (Bool × Pass) := do
  let request := pass.sched.object r
  let (allocated, sched) ← pass.sched.tryAllocateRequestBlocks r numNewTokens
  let pass := { pass with sched }
  return (allocated, if sched.kvCacheManager.hasGroups then
    pass.log [.cache (.ensure r (request.numComputedTokens + numNewTokens) request.cachePartition)]
    else pass)

/-- The record sent for a request, with its present tables. -/
def scheduledRequest (pass : Pass) (r : RequestId) (numNewTokens : Nat) (isPrefill : Bool) :
    ScheduledRequest :=
  let request := pass.sched.object r
  { requestId := r
    numNewTokens
    isPrefill
    numComputedTokens := request.numComputedTokens
    blockIds := request.cachedBlockIds ++ request.allocatedBlockIds
    blockIdsByGroup := request.allocatedGroupBlockIds
    cachePartition := request.cachePartition }

/-- Give a running request its share of the step, which was limited by `limitBudget`. -/
def grantRunning (pass : Pass) (r : RequestId) (numNew scheduledTokens : Nat) (isPrefill : Bool)
    (limitBudget : Nat) : Pass :=
  { pass with
    events := pass.events ++ [.grant r limitBudget]
    output := { pass.output with
      scheduledRequests :=
        pass.output.scheduledRequests ++ [pass.scheduledRequest r numNew isPrefill]
      numPrefillTokens := pass.output.numPrefillTokens + if isPrefill then (numNew : Int) else 0
      numDecodeTokens :=
        pass.output.numDecodeTokens + if isPrefill then 0 else (scheduledTokens : Int) }
    scheduledReqIds := r :: pass.scheduledReqIds
    numScheduledTokens := pass.numScheduledTokens.insert r scheduledTokens
    tokenBudget := pass.tokenBudget - scheduledTokens
    runningToKeep := pass.runningToKeep ++ [r] }

/-- Take a victim that this pass already scheduled out of the step again. -/
def unschedule (pass : Pass) (victim : RequestId) : Pass :=
  if victim ∉ pass.scheduledReqIds then pass
  else
    let returnedTokens := (pass.numScheduledTokens.lookup victim).getD 0
    let isPrefill := (pass.sched.object victim).isPrefill
    { pass with
      scheduledReqIds := pass.scheduledReqIds.filter (· ≠ victim)
      numScheduledTokens := pass.numScheduledTokens.erase victim
      output := { pass.output with
        scheduledRequests := pass.output.scheduledRequests.filter (·.requestId ≠ victim)
        numPrefillTokens :=
          pass.output.numPrefillTokens - if isPrefill then (returnedTokens : Int) else 0
        numDecodeTokens :=
          pass.output.numDecodeTokens - if isPrefill then 0 else (returnedTokens : Int) }
      tokenBudget := pass.tokenBudget + returnedTokens }

/-- `_preempt_lowest_priority`, with the bookkeeping of its caller; `none` when there is
no candidate. -/
def preemptLowestPriority (pass : Pass) (exclude : RequestId) : Except KvError (Option Pass) :=
  match pass.sched.latestArrival (pass.sched.preemptionCandidates exclude) with
  | none => .ok none
  | some victim => do
    let before := pass.sched
    let pass := pass.unschedule victim
    let sched ← pass.sched.freeRequestBlocks victim
    let sched := sched.modify victim resetVictim
    let pass := { pass with
      sched := { sched with
        running := sched.running.filter (· ≠ victim)
        waiting := victim :: sched.waiting }
      output := { pass.output with
        preemptedRequests := pass.output.preemptedRequests ++ [victim] } }
    return some (pass.log
      (.preempt victim exclude before :: releaseEvents (before.object victim) victim))

/-- The body of the running phase for one request of the snapshot. -/
def scheduleRunningOne (phase : Option Phase) (pass : Pass) (r : RequestId) :
    Except KvError Pass :=
  let request := pass.sched.object r
  if request.status = .preempted then .ok pass
  else if request.terminalPrefillInFlight then .ok (pass.keep r)
  else if phase.any fun phase => request.isPrefill ≠ decide (phase = .prefill) then
    .ok (pass.keep r)
  else if request.numNewTokensNeeded = 0 then .ok (pass.keep r)
  else
    let numNew := pass.sched.limitScheduledTokens request pass.tokenBudget
    if numNew = 0 then .ok (pass.keep r)
    else
      let isPrefill := request.isPrefill
      let scheduledTokens := numNew + pass.sched.speculativeTokens request
      let limitBudget := pass.tokenBudget
      if limitBudget < scheduledTokens then .ok (pass.keep r)
      else do
        let (allocated, pass) ← pass.allocate r scheduledTokens
        if allocated then return pass.grantRunning r numNew scheduledTokens isPrefill limitBudget
        else
          match ← pass.preemptLowestPriority r with
          | none => return pass.keep r
          | some pass =>
            let (allocated, pass) ← pass.allocate r scheduledTokens
            if allocated then
              return pass.grantRunning r numNew scheduledTokens isPrefill limitBudget
            else return pass.keep r

/-- The prefix cache lookup of a waiting request. -/
def lookupPrefix (pass : Pass) (r : RequestId) : Except KvError Pass :=
  let request := pass.sched.object r
  let kv := pass.sched.kvCacheManager
  if ¬ pass.sched.config.enablePrefixCache then .ok pass
  else if kv.hasGroups then do
    let ((tables, hitTokens, partition), kv') ←
      kv.acquireGroupPrefixBlocks r request.groupBlockHashes (request.numPromptTokens - 1)
    let sched := { pass.sched with kvCacheManager := kv' }.modify r fun request =>
      { request with
        allocatedGroupBlockIds := tables
        numComputedTokens := hitTokens
        cachePartition := partition
        numGroupBlocksCached := if hitTokens ≠ 0 then kv'.publishedGroupBlockCounts hitTokens else ∅ }
    return { pass with sched }.log
      [.cache (.acquire r request.promptTokenIds (request.numPromptTokens - 1))]
  else
    let (cachedBlocks, kv') := kv.getComputedBlocks request.promptTokenIds
    let sched := { pass.sched with kvCacheManager := kv' }
    if cachedBlocks = [] then .ok { pass with sched }
    else .ok { pass with
      sched := sched.modify r fun request =>
        { request with
          cachedBlockIds := cachedBlocks
          numComputedTokens := cachedBlocks.length * kv'.blockSize
          numBlocksCached := cachedBlocks.length } }

/-- `_release_waiting_prefix_blocks` in a pass. -/
def releaseWaiting (pass : Pass) (r : RequestId) : Except KvError Pass := do
  let sched ← pass.sched.releaseWaitingPrefixBlocks r
  return { pass with sched }.log (releaseEvents (pass.sched.object r) r)

/-- What happened to one waiting request. -/
inductive WaitingOutcome
  | admitted
  | rejected
  | deferred
  /-- Deferred for lack of blocks, which ends the phase. -/
  | blocked
  deriving DecidableEq, Repr

/-- Admit a waiting request whose blocks are allocated. -/
def launch (pass : Pass) (r : RequestId) (numNew : Nat) : Pass :=
  let sched := pass.sched.modify r fun request => { request with status := .running }
  let pass := { pass with sched := { sched with running := sched.running ++ [r] } }
  { pass with
    events := pass.events ++ [.grant r pass.tokenBudget]
    output := { pass.output with
      scheduledRequests :=
        pass.output.scheduledRequests ++ [pass.scheduledRequest r numNew true]
      numPrefillTokens := pass.output.numPrefillTokens + numNew }
    tokenBudget := pass.tokenBudget - numNew }

/-- Reject a waiting request for good. -/
def reject (pass : Pass) (r : RequestId) (reason : String) : Pass :=
  let sched := pass.sched.modify r fun request => { request with status := .finishedAborted }
  { pass with
    sched := { sched with requests := sched.requests.filter (· ≠ r) }
    output := { pass.output with
      rejectedRequests := pass.output.rejectedRequests.insert r reason } }

/-- The allocation of a waiting request. A grouped hit whose partition has no room for the
uncached suffix is released and the request is tried cold. The second component is the
number of tokens that were allocated for. -/
def allocateWaiting (pass : Pass) (r : RequestId) (numNew : Nat) (groupedPrefixHit : Bool) :
    Except KvError (Bool × Nat × Pass) := do
  let (allocated, pass) ← pass.allocate r numNew
  if ¬ allocated ∧ groupedPrefixHit then
    let pass ← pass.releaseWaiting r
    let coldNumNew := pass.sched.limitScheduledTokens (pass.sched.object r) pass.tokenBudget
    if coldNumNew = 0 then return (false, numNew, pass)
    else
      let (allocated, pass) ← pass.allocate r coldNumNew
      return (allocated, if allocated then coldNumNew else numNew, pass)
  else return (allocated, numNew, pass)

/-- The body of the waiting phase for one request that was not preempted in this pass. -/
def scheduleWaitingOne (pass : Pass) (r : RequestId) : Except KvError (WaitingOutcome × Pass) := do
  let pass ← pass.lookupPrefix r
  let request := pass.sched.object r
  let groupedPrefixHit :=
    pass.sched.kvCacheManager.hasGroups && decide (0 < request.numComputedTokens)
  match pass.sched.singlePrefillRejection request with
  | some reason =>
    let pass ← pass.releaseWaiting r
    return (.rejected, pass.reject r reason)
  | none =>
    let numNew := pass.sched.limitScheduledTokens request pass.tokenBudget
    if numNew = 0 ∧ request.numComputedTokens < request.numPromptTokens then
      let pass ← pass.releaseWaiting r
      return (.deferred, pass)
    else
      -- A full prefix hit leaves one token for the prefill kernel.
      let (pass, numNew) :=
        if numNew = 0 then
          ({ pass with sched := pass.sched.modify r fun request =>
              { request with numComputedTokens := request.numPromptTokens - 1 } }, 1)
        else (pass, numNew)
      let (allocated, numNew, pass) ← pass.allocateWaiting r numNew groupedPrefixHit
      if allocated then return (.admitted, pass.launch r numNew)
      else
        let pass ← pass.releaseWaiting r
        return (.blocked, pass)

/-- The waiting phase over the queue, with the requests that stay in it so far. -/
def scheduleWaiting (remaining : List RequestId) (pass : Pass) :
    List RequestId → Except KvError Pass
  | [] => .ok { pass with sched := { pass.sched with waiting := remaining } }
  | r :: queue =>
    if pass.tokenBudget = 0 ∨ pass.sched.config.maxNumRunningReqs ≤ pass.sched.running.length then
      .ok { pass with sched := { pass.sched with waiting := remaining ++ r :: queue } }
    else if r ∈ pass.output.preemptedRequests then
      scheduleWaiting (remaining ++ [r]) pass queue
    else do
      match ← pass.scheduleWaitingOne r with
      | (.admitted, pass) => scheduleWaiting remaining pass queue
      | (.rejected, pass) => scheduleWaiting remaining pass queue
      | (.deferred, pass) => scheduleWaiting (remaining ++ [r]) pass queue
      | (.blocked, pass) =>
        return { pass with
          sched := { pass.sched with waiting := (remaining ++ [r]) ++ queue } }

/-- Keep the snapshot's requests that were not preempted after their turn. -/
def closeRunning (pass : Pass) : Pass :=
  { pass with sched := { pass.sched with
      running := pass.runningToKeep.filter fun r => (pass.sched.object r).status ≠ .preempted } }

end Pass

namespace Scheduler

/-- The pass at the start of `schedule`. -/
def startPass (s : Scheduler) : Pass :=
  { sched := s.groupedCachePhase.2, tokenBudget := s.config.maxNumScheduledTokens }

/-- `schedule`. A decode-only step ends after the running phase. -/
def schedule (s : Scheduler) : Except KvError Pass := do
  let phase := s.groupedCachePhase.1
  let pass ← s.running.foldlM (Pass.scheduleRunningOne phase) s.startPass
  let pass := pass.closeRunning
  if phase = some .decode then return pass
  else pass.scheduleWaiting [] pass.sched.waiting

end Scheduler
end PyptoServing.Sched
