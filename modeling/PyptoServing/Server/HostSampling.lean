import PyptoServing.Lib.Raising
import PyptoServing.Runner.Sampling
import PyptoServing.Server.Worker

/-!
# The worker and its sampler

The serial worker with the sampler inside: what the executor returns are rows, and the
worker samples from them. What a command did before it raised stays done.
-/
namespace PyptoServing.Server

open Lib Memory Sched Runner

variable {F : Type}

/-- What the worker asks of its executor before it samples. -/
structure SamplingSupport where
  supportsDeviceSampling : Bool := false
  supportsDeviceStochasticSampling : Bool := false
  deviceTopkSamplingK : Int := 0
  maxPrefillBatchSize : Option Int := none

/-- `PrefillResult` or `DecodeResult`. -/
structure BatchResult (F : Type) where
  logits : Option (List (Row F)) := none
  sampledTokenIds : Option (List Int) := none
  samplingCandidates : Option (SamplingCandidates F) := none
  acceptedTokenIds : Option (List (List Int)) := none

/-- What the executor returns or raises in one command. -/
structure Device (F : Type) where
  releaseError : Option String := none
  runPrefill : List PrefillRequest → Except String (BatchResult F)
  finalizePrefill : List RequestId → List Int → Except String Unit := fun _ _ => .ok ()
  runDecode : List DecodeRequest → Except String (BatchResult F)

structure HostWorker (F : Type) where
  worker : Worker := {}
  sampler : Sampler F
  /-- The calls of the sampler so far. -/
  calls : List (Call F) := []
  /-- The number of commands so far. -/
  commands : Nat := 0

abbrev HostM (F α : Type) := Raising String (HostWorker F) α

namespace HostWorker
variable (ops : TensorOps F) (support : SamplingSupport)

def samplingParams (data : NewRequestData) : SamplingParams where
  temperature := data.temperature
  topP := data.topP
  topK := data.topK
  seed := data.seed

/-- `self._req_cache[request_id]`. -/
def registered (r : RequestId) : HostM F Registered := do
  MonadExcept.ofExcept ((← get).worker.registered r)

/-- A call of the sampler for a request. -/
def sampleFrom (source : Source F) (params : SamplingParams) (r : RequestId) : HostM F Int :=
  ExceptT.mk fun st =>
    let (token, sampler) := st.sampler.sampleFrom ops source params r
    (token, { st with sampler, calls := st.calls ++ [.sample r params source] })

/-- `_allow_device_sampled_ids`. -/
def allowDeviceSampledIds (requests : List NewRequestData) : Bool :=
  support.supportsDeviceSampling && requests.all fun request =>
    decide (request.temperature ≤ 0) ||
      (support.supportsDeviceStochasticSampling && decide (1 ≤ request.topP))

/-- `_allow_device_topk_sampling`. -/
def allowDeviceTopkSampling (requests : List NewRequestData) : Bool :=
  decide (0 < support.deviceTopkSamplingK) && requests.all fun request =>
    decide (0 < request.temperature) &&
      request.topK.any fun k => decide (0 < k) && decide (k ≤ support.deviceTopkSamplingK)

/-- `_sample_result_row`. -/
def sampleResultRow (result : BatchResult F) (logits : Option (Row F)) (params : SamplingParams)
    (r : RequestId) (rowIdx : Nat) (allowDeviceSampled allowDeviceTopk : Bool) : HostM F Int :=
  match result.sampledTokenIds.filter fun _ => allowDeviceSampled with
  | some sampled =>
    match sampled[rowIdx]? with
    | some token => pure token
    | none => throw s!"sampled_token_ids has {sampled.length} rows, expected row {rowIdx}"
  | none =>
    match result.samplingCandidates.filter fun _ => allowDeviceTopk with
    | some candidates => sampleFrom ops (.candidates candidates rowIdx) params r
    | none =>
      match logits with
      | some row => sampleFrom ops (.logits row) params r
      | none => throw "'NoneType' object has no attribute 'float'"

/-- `logits[i]`. -/
def logitsRow (result : BatchResult F) (i : Nat) : Except String (Option (Row F)) :=
  match result.logits with
  | none => .ok none
  | some rows =>
    match rows[i]? with
    | some row => .ok (some row)
    | none => .error s!"index {i} is out of bounds for dimension 0 with size {rows.length}"

/-- The requests of a batch as they are registered. -/
def cachedRequests (ids : List RequestId) : HostM F (List NewRequestData) :=
  ids.foldlM (fun requests r => do return requests ++ [(← registered r).data]) []

/-- The chunk under construction, the deferred requests and `used_partitions`. -/
structure Chunking where
  chunk : List PrefillRequest := []
  deferred : List PrefillRequest := []
  usedPartitions : List Nat := []

/-- One request in `_partitioned_prefill_chunks`. -/
def Chunking.add (maxBatch : Nat) (c : Chunking) (item : PrefillRequest) : Chunking :=
  if c.chunk.length < maxBatch ∧ item.cachePartition.all (· ∉ c.usedPartitions) then
    { c with
      chunk := c.chunk ++ [item]
      usedPartitions := c.usedPartitions ++ item.cachePartition.toList }
  else { c with deferred := c.deferred ++ [item] }

/-- `_partitioned_prefill_chunks`: the next chunk and what is left. -/
def takeChunk (maxBatch : Nat) (pending : List PrefillRequest) : Chunking :=
  pending.foldl (Chunking.add maxBatch) {}

/-- `_partitioned_prefill_chunks` for at most `n` chunks. -/
def partitionedPrefillChunks (maxBatch : Nat) :
    Nat → List PrefillRequest → Except String (List (List PrefillRequest))
  | _, [] => .ok []
  | 0, _ => .error "unable to form a prefill dispatch chunk"
  | n + 1, pending =>
    let c := takeChunk maxBatch pending
    if c.chunk = [] then .error "unable to form a prefill dispatch chunk"
    else do return c.chunk :: (← partitionedPrefillChunks maxBatch n c.deferred)

/-- One row of `_batch_prefill`. -/
def prefillRow (result : BatchResult F) (allowDeviceSampled allowDeviceTopk : Bool)
    (newTokens : List (RequestId × List Int)) (row : PrefillRequest × Nat) :
    HostM F (List (RequestId × List Int)) := do
  let (pr, i) := row
  let cached ← registered pr.requestId
  if cached.data.promptTokenIds.length ≤ pr.numComputedTokens + pr.chunkTokens.length then
    let logits ← MonadExcept.ofExcept (logitsRow result i)
    let token ← sampleResultRow ops result logits (samplingParams cached.data) pr.requestId i
      allowDeviceSampled allowDeviceTopk
    return newTokens ++ [(pr.requestId, [token])]
  else return newTokens

/-- `_batch_prefill`. -/
def batchPrefill (x : Device F) (newTokens : List (RequestId × List Int))
    (scheduled : List PrefillRequest) : HostM F (List (RequestId × List Int)) := do
  let requests ← cachedRequests (scheduled.map (·.requestId))
  let result ← MonadExcept.ofExcept (x.runPrefill scheduled)
  let completed ← scheduled.zipIdx.foldlM
    (prefillRow ops result (allowDeviceSampledIds support requests)
      (allowDeviceTopkSampling support requests)) []
  if completed ≠ [] then
    MonadExcept.ofExcept (x.finalizePrefill (completed.map (·.1)) (completed.flatMap (·.2)))
  return newTokens ++ completed

/-- One row of `_consume_decode_result`. -/
def decodeRow (result : BatchResult F) (allowDeviceSampled allowDeviceTopk : Bool)
    (newTokens : List (RequestId × List Int)) (row : DecodeRequest × Nat) :
    HostM F (List (RequestId × List Int)) := do
  let (dr, i) := row
  match result.acceptedTokenIds with
  | some accepted =>
    match accepted[i]? with
    | some tokens => return newTokens ++ [(dr.requestId, tokens)]
    | none => throw "list index out of range"
  | none =>
    let cached ← registered dr.requestId
    let logits ← MonadExcept.ofExcept (logitsRow result i)
    let token ← sampleResultRow ops result logits (samplingParams cached.data) dr.requestId i
      allowDeviceSampled allowDeviceTopk
    return newTokens ++ [(dr.requestId, [token])]

/-- `_batch_decode`. -/
def batchDecode (x : Device F) (newTokens : List (RequestId × List Int))
    (scheduled : List DecodeRequest) : HostM F (List (RequestId × List Int)) := do
  let requests ← cachedRequests (scheduled.map (·.requestId))
  let _ ← MonadExcept.ofExcept (scheduled.mapM (← get).worker.resolveDecodeToken)
  let result ← MonadExcept.ofExcept (x.runDecode scheduled)
  scheduled.zipIdx.foldlM
    (decodeRow ops result (allowDeviceSampledIds support requests)
      (allowDeviceTopkSampling support requests)) newTokens

/-- The batches of a prefill. -/
def prefillBatches (scheduled : List PrefillRequest) : Except String (List (List PrefillRequest)) :=
  if scheduled = [] then .ok []
  else
    match support.maxPrefillBatchSize with
    | none => .ok [scheduled]
    | some maxBatch =>
      if maxBatch ≤ 0 then .error "executor max_prefill_batch_size must be positive"
      else partitionedPrefillChunks maxBatch.toNat scheduled.length scheduled

/-- `_execute_step`. -/
def executeStep (cmd : StepCommand) (x : Device F) : HostM F StepResult := do
  let batches ← MonadExcept.ofExcept (prefillBatches support cmd.prefillRequests)
  let newTokens ← batches.foldlM (batchPrefill ops support x) []
  let newTokens ←
    if cmd.decodeRequests = [] then pure newTokens
    else batchDecode ops support x newTokens cmd.decodeRequests
  modify fun st => { st with worker := st.worker.recordTokens st.commands newTokens }
  return { newTokens := Dict.ofList newTokens, stepId := cmd.stepId }

/-- `_apply_command_lifecycle`. -/
def applyLifecycle (cmd : StepCommand) (x : Device F) : HostM F Unit := do
  match if cmd.finishedRequestIds = [] then none else x.releaseError with
  | some error => throw error
  | none =>
    modify fun st => { st with
      worker := st.worker.applyLifecycle st.commands cmd
      sampler := cmd.finishedRequestIds.foldl (fun s r => s.releaseRequests [r]) st.sampler
      calls := st.calls ++ cmd.finishedRequestIds.map fun r => .release [r] }

/-- `_run_step_command`: every exception becomes an error result. -/
def runStepCommand (st : HostWorker F) (step : StepCommand × Device F) :
    HostWorker F × StepResult :=
  let (cmd, x) := step
  let done := (applyLifecycle cmd x >>= fun _ => executeStep ops support cmd x).run.run st
  let result :=
    match done.1 with
    | .ok result => result
    | .error error => { error := some error, stepId := cmd.stepId }
  ({ done.2 with commands := done.2.commands + 1 }, result)

/-- The worker after some commands. -/
def runCommands (st : HostWorker F) (steps : List (StepCommand × Device F)) : HostWorker F :=
  steps.foldl (fun st step => (st.runStepCommand ops support step).1) st

/-- Forming a chunk loses no request. -/
theorem foldl_add_spec (maxBatch : Nat) (l : List PrefillRequest) (c : Chunking) :
    ((l.foldl (Chunking.add maxBatch) c).chunk ++ (l.foldl (Chunking.add maxBatch) c).deferred).Perm
        (c.chunk ++ c.deferred ++ l) ∧
      (c.chunk ≠ [] → (l.foldl (Chunking.add maxBatch) c).chunk ≠ []) := by
  induction l generalizing c with
  | nil => exact ⟨by simp, id⟩
  | cons item l ih =>
    obtain ⟨hperm, hne⟩ := ih (c.add maxBatch item)
    rw [List.foldl_cons]
    unfold Chunking.add at hperm hne ⊢
    split at hperm
    · next hroom =>
      rw [if_pos hroom] at hne ⊢
      refine ⟨hperm.trans ?_, fun _ => hne (by simp)⟩
      have hmove : (item :: (c.deferred ++ l)).Perm (c.deferred ++ item :: l) :=
        List.perm_middle.symm
      simpa using hmove.append_left c.chunk
    · next hfull =>
      rw [if_neg hfull] at hne ⊢
      exact ⟨by simpa using hperm, hne⟩

theorem takeChunk_ne_nil {maxBatch : Nat} (hpos : 0 < maxBatch) (item : PrefillRequest)
    (rest : List PrefillRequest) : (takeChunk maxBatch (item :: rest)).chunk ≠ [] := by
  have hroom : Chunking.add maxBatch {} item =
      { chunk := [item], usedPartitions := item.cachePartition.toList } := by
    unfold Chunking.add
    rw [if_pos ⟨hpos, by cases item.cachePartition <;> simp⟩]
    simp
  rw [takeChunk, List.foldl_cons, hroom]
  exact (foldl_add_spec maxBatch rest _).2 (by simp)

/-- Every request of a prefill is in one of its batches. -/
theorem partitionedPrefillChunks_ok {maxBatch : Nat} (hpos : 0 < maxBatch) (n : Nat)
    (pending : List PrefillRequest) (hn : pending.length ≤ n) :
    ∃ chunks, partitionedPrefillChunks maxBatch n pending = .ok chunks ∧
      chunks.flatten.Perm pending := by
  induction n generalizing pending with
  | zero =>
    obtain rfl := List.length_eq_zero_iff.mp (Nat.le_zero.mp hn)
    exact ⟨[], rfl, by simp⟩
  | succ n ih =>
    cases pending with
    | nil => exact ⟨[], rfl, by simp⟩
    | cons item rest =>
      have hperm : ((takeChunk maxBatch (item :: rest)).chunk ++
          (takeChunk maxBatch (item :: rest)).deferred).Perm (item :: rest) :=
        (foldl_add_spec maxBatch (item :: rest) {}).1
      have hne := takeChunk_ne_nil hpos item rest
      simp only [partitionedPrefillChunks]
      generalize takeChunk maxBatch (item :: rest) = c at hperm hne
      have hlen := hperm.length_eq
      have hchunk := List.length_pos_iff.mpr hne
      rw [List.length_append] at hlen
      obtain ⟨chunks, hok, hflat⟩ := ih c.deferred (by omega)
      refine ⟨c.chunk :: chunks, ?_, ?_⟩
      · rw [if_neg hne, hok]
        rfl
      · rw [List.flatten_cons]
        exact (hflat.append_left _).trans hperm

section Invariant
variable {ops : TensorOps F} {support : SamplingSupport} {init : Sampler F} {r : RequestId}
  {data : NewRequestData} {st : HostWorker F}

/-- The sampler is the result of the calls, and the request is sampled as it is registered. -/
structure Tracks (ops : TensorOps F) (init : Sampler F) (r : RequestId) (data : NewRequestData)
    (st : HostWorker F) : Prop where
  sampler : st.sampler = init.run ops st.calls
  registered : ∀ entry, st.worker.reqCache.lookup r = some entry → entry.data = data
  samples : SamplesWith r (samplingParams data) st.calls

open Raising

theorem registered_keeps (r' : RequestId) : Keeps (Tracks ops init r data) (registered r')
    fun cached => r' = r → cached.data = data := by
  refine Keeps.get.bind fun st hst => .ofExcept fun cached hcached hr => ?_
  subst hr
  unfold Worker.registered at hcached
  split at hcached
  · cases hcached
  · next hlook =>
    cases hcached
    exact hst.registered _ hlook

/-- A call of the sampler is recorded with its effect. -/
theorem Tracks.call (h : Tracks ops init r data st) (call : Call F)
    (hwith : ∀ p source, call = .sample r p source → p = samplingParams data) :
    Tracks ops init r data
      { st with sampler := st.sampler.perform ops call, calls := st.calls ++ [call] } := by
  refine ⟨?_, h.registered, fun p source hmem => ?_⟩
  · rw [Sampler.run, List.foldl_append, h.sampler]
    rfl
  · rcases List.mem_append.mp hmem with hmem | hmem
    · exact h.samples p source hmem
    · exact hwith p source (List.mem_singleton.mp hmem).symm

theorem sampleFrom_keeps (source : Source F) {params : SamplingParams} {r' : RequestId}
    (hparams : r' = r → params = samplingParams data) :
    Keeps (Tracks ops init r data) (sampleFrom ops source params r') fun _ => True := by
  intro st hst
  refine ⟨hst.call (.sample r' params source) fun p source' hcall => ?_, fun _ _ => trivial⟩
  cases hcall
  exact hparams rfl

theorem cachedRequests_keeps (ids : List RequestId) :
    Keeps (Tracks ops init r data) (cachedRequests ids) fun _ => True :=
  .foldlM (fun r' _ _ _ => (registered_keeps r').bind fun _ _ => .pure trivial) trivial

theorem sampleResultRow_keeps (result : BatchResult F) (logits : Option (Row F)) (rowIdx : Nat)
    (allowDeviceSampled allowDeviceTopk : Bool) {params : SamplingParams} {r' : RequestId}
    (hparams : r' = r → params = samplingParams data) :
    Keeps (Tracks ops init r data) (sampleResultRow ops result logits params r' rowIdx
      allowDeviceSampled allowDeviceTopk) fun _ => True := by
  unfold sampleResultRow
  split
  · split
    · exact .pure trivial
    · exact .throw _
  · split
    · exact sampleFrom_keeps _ hparams
    · split
      · exact sampleFrom_keeps _ hparams
      · exact .throw _

theorem prefillRow_keeps (result : BatchResult F) (allowDeviceSampled allowDeviceTopk : Bool)
    (newTokens : List (RequestId × List Int)) (row : PrefillRequest × Nat) :
    Keeps (Tracks ops init r data) (prefillRow ops result allowDeviceSampled allowDeviceTopk
      newTokens row) fun _ => True := by
  refine (registered_keeps row.1.requestId).bind fun cached hcached => ?_
  split
  · refine (Keeps.ofExcept (P := fun _ => True) fun _ _ => trivial).bind fun logits _ => ?_
    refine (sampleResultRow_keeps result logits _ _ _ fun hr => ?_).bind fun _ _ => .pure trivial
    rw [hcached hr]
  · exact .pure trivial

theorem decodeRow_keeps (result : BatchResult F) (allowDeviceSampled allowDeviceTopk : Bool)
    (newTokens : List (RequestId × List Int)) (row : DecodeRequest × Nat) :
    Keeps (Tracks ops init r data) (decodeRow ops result allowDeviceSampled allowDeviceTopk
      newTokens row) fun _ => True := by
  unfold decodeRow
  dsimp only
  split
  · split
    · exact .pure trivial
    · exact .throw _
  · refine (registered_keeps row.1.requestId).bind fun cached hcached => ?_
    refine (Keeps.ofExcept (P := fun _ => True) fun _ _ => trivial).bind fun logits _ => ?_
    refine (sampleResultRow_keeps result logits _ _ _ fun hr => ?_).bind fun _ _ => .pure trivial
    rw [hcached hr]

theorem batchPrefill_keeps (x : Device F) (newTokens : List (RequestId × List Int))
    (scheduled : List PrefillRequest) : Keeps (Tracks ops init r data)
      (batchPrefill ops support x newTokens scheduled) fun _ => True := by
  refine (cachedRequests_keeps _).bind fun requests _ => ?_
  refine (Keeps.ofExcept (P := fun _ => True) fun _ _ => trivial).bind fun result _ => ?_
  refine (Keeps.foldlM (P := fun _ => True)
    (fun row _ tokens _ => prefillRow_keeps result _ _ tokens row) trivial).bind fun completed _ => ?_
  split
  · exact (Keeps.ofExcept (P := fun _ => True) fun _ _ => trivial).bind fun _ _ => .pure trivial
  · exact .pure trivial

theorem batchDecode_keeps (x : Device F) (newTokens : List (RequestId × List Int))
    (scheduled : List DecodeRequest) : Keeps (Tracks ops init r data)
      (batchDecode ops support x newTokens scheduled) fun _ => True := by
  refine (cachedRequests_keeps _).bind fun requests _ => ?_
  refine Keeps.get.bind fun st _ => ?_
  refine (Keeps.ofExcept (P := fun _ => True) fun _ _ => trivial).bind fun _ _ => ?_
  refine (Keeps.ofExcept (P := fun _ => True) fun _ _ => trivial).bind fun result _ => ?_
  exact .foldlM (P := fun _ => True) (fun row _ tokens _ => decodeRow_keeps result _ _ tokens row)
    trivial

theorem executeStep_keeps (cmd : StepCommand) (x : Device F) :
    Keeps (Tracks ops init r data) (executeStep ops support cmd x) fun _ => True := by
  refine (Keeps.ofExcept (P := fun _ => True) fun _ _ => trivial).bind fun batches _ => ?_
  refine (Keeps.foldlM (P := fun _ => True)
    (fun chunk _ tokens _ => batchPrefill_keeps x tokens chunk) trivial).bind fun tokens _ => ?_
  have hrecord : ∀ tokens : List (RequestId × List Int), Keeps (Tracks ops init r data)
      (do modify fun st : HostWorker F => { st with
            worker := st.worker.recordTokens st.commands tokens }
          return ({ newTokens := Dict.ofList tokens, stepId := cmd.stepId } : StepResult) :
        HostM F StepResult) fun _ => True := fun tokens =>
    (Keeps.modify fun st hst => ⟨hst.sampler, hst.registered, hst.samples⟩).bind
      fun _ _ => .pure trivial
  split
  · exact (Keeps.pure (P := fun _ => True) trivial).bind fun tokens _ => hrecord tokens
  · exact (batchDecode_keeps x tokens cmd.decodeRequests).bind fun tokens _ => hrecord tokens

theorem applyLifecycle_keeps (cmd : StepCommand) (x : Device F)
    (hreg : ∀ d ∈ cmd.newRequests, d.requestId = r → d = data) :
    Keeps (Tracks ops init r data) (applyLifecycle cmd x) fun _ => True := by
  unfold applyLifecycle
  split
  · exact .throw _
  · refine .modify fun st hst => ⟨?_, fun entry hlook => ?_, fun p source hmem => ?_⟩
    · rw [Sampler.run, List.foldl_append, hst.sampler, List.foldl_map]
      rfl
    · rcases Worker.lookup_applyLifecycle hlook with ⟨hnew, hid⟩ | ⟨hold, -⟩
      · exact hreg _ hnew hid
      · exact hst.registered entry hold
    · rcases List.mem_append.mp hmem with hmem | hmem
      · exact hst.samples p source hmem
      · obtain ⟨_, -, hcall⟩ := List.mem_map.mp hmem
        cases hcall

theorem runStepCommand_tracks (h : Tracks ops init r data st) (step : StepCommand × Device F)
    (hreg : ∀ d ∈ step.1.newRequests, d.requestId = r → d = data) :
    Tracks ops init r data (st.runStepCommand ops support step).1 := by
  have hkeeps : Keeps (Tracks ops init r data)
      (applyLifecycle step.1 step.2 >>= fun _ => executeStep ops support step.1 step.2)
      fun _ => True :=
    (applyLifecycle_keeps step.1 step.2 hreg).bind fun _ _ => executeStep_keeps step.1 step.2
  have hnext := (hkeeps st h).1
  exact ⟨hnext.sampler, hnext.registered, hnext.samples⟩

/-- Every run of the worker tracks its sampler. -/
theorem runCommands_tracks (h : Tracks ops init r data st) (steps : List (StepCommand × Device F))
    (hreg : ∀ step ∈ steps, ∀ d ∈ step.1.newRequests, d.requestId = r → d = data) :
    Tracks ops init r data (st.runCommands ops support steps) := by
  induction steps generalizing st with
  | nil => exact h
  | cons step steps ih =>
    exact ih (runStepCommand_tracks h step (hreg step (by simp))) fun step' hmem =>
      hreg step' (by simp [hmem])

end Invariant

/-- Every registration of a request brings the same data. -/
def Registers (r : RequestId) (data : NewRequestData) (steps : List (StepCommand × Device F)) :
    Prop :=
  ∀ step ∈ steps, ∀ d ∈ step.1.newRequests, d.requestId = r → d = data

/-- The calls of a worker that starts with some commands. -/
def callsOf (ops : TensorOps F) (support : SamplingSupport) (init : Sampler F)
    (steps : List (StepCommand × Device F)) : List (Call F) :=
  (runCommands ops support { sampler := init } steps).calls

theorem callsOf_samples (ops : TensorOps F) (support : SamplingSupport) (init : Sampler F)
    {r : RequestId} {data : NewRequestData} {steps : List (StepCommand × Device F)}
    (hreg : Registers r data steps) :
    SamplesWith r (samplingParams data) (callsOf ops support init steps) := by
  have hstart : Tracks ops init r data { sampler := init } := ⟨rfl, by simp, by simp [SamplesWith]⟩
  exact (runCommands_tracks hstart steps hreg).samples

/-- A request with a seed is sampled with the draws of one generator, in order, exactly when
no release falls between two of its draws and they are on one device; two such runs with the
same rows give it the same tokens. -/
theorem seeded_draws_in_order_iff {ops : TensorOps F} {support : SamplingSupport}
    {init : Sampler F} {r : RequestId} {data : NewRequestData} {seed : Int}
    {steps : List (StepCommand × Device F)} (hinit : init.generators = ∅)
    (hseed : data.seed = some seed) (hreg : Registers r data steps) :
    (InOrder ops init r seed (callsOf ops support init steps) ↔
      Undisturbed ops r (callsOf ops support init steps)) ∧
    ∀ (support' : SamplingSupport) (init' : Sampler F) (steps' : List (StepCommand × Device F))
      (rows : List Int → Source F), init'.generators = ∅ → Registers r data steps' →
      Undisturbed ops r (callsOf ops support init steps) →
      Undisturbed ops r (callsOf ops support' init' steps') →
      RowsBy ops init r rows (callsOf ops support init steps) →
      RowsBy ops init' r rows (callsOf ops support' init' steps') →
      init.tokens ops r (callsOf ops support init steps) <+:
          init'.tokens ops r (callsOf ops support' init' steps') ∨
        init'.tokens ops r (callsOf ops support' init' steps') <+:
          init.tokens ops r (callsOf ops support init steps) := by
  have hwith := callsOf_samples ops support init hreg
  refine ⟨inOrder_iff_undisturbed hinit hseed hwith, ?_⟩
  intro support' init' steps' rows hinit' hreg' hu hu' hrows hrows'
  have hwith' := callsOf_samples ops support' init' hreg'
  exact tokens_agree hseed hwith hwith' ((inOrder_iff_undisturbed hinit hseed hwith).mpr hu)
    ((inOrder_iff_undisturbed hinit' hseed hwith').mpr hu') hrows hrows'

/-- Integer weights; a draw takes the position that its generator has come to. -/
def countingOps : TensorOps Int where
  sanitize values := values
  scale values _ := values
  keepTopk values _ := values
  softmax values := values
  isValidDistribution _ := true
  nucleus values _ := some values
  argmax _ := 0
  multinomial generator probs := (generator.seed + generator.drawn.length) % probs.length

/-- One row of weights for each request. -/
def plainDevice : Device Int where
  runPrefill scheduled := .ok { logits := some (scheduled.map fun _ => ⟨"cpu", [1, 1, 1, 1]⟩) }
  runDecode scheduled := .ok { logits := some (scheduled.map fun _ => ⟨"cpu", [1, 1, 1, 1]⟩) }

def seededData (r : RequestId) : NewRequestData where
  requestId := r
  promptTokenIds := [1]
  temperature := 1
  topP := 1
  topK := none
  seed := some 7

def prefillCommand (finished : List RequestId) (r : RequestId) : StepCommand where
  newRequests := [seededData r]
  prefillRequests :=
    [{ requestId := r, chunkTokens := [1], numComputedTokens := 0, blockIds := [0] }]
  decodeRequests := []
  finishedRequestIds := finished

def decodeCommand (r : RequestId) : StepCommand where
  newRequests := []
  prefillRequests := []
  decodeRequests := [{ requestId := r, lastToken := placeholderToken, seqLen := 2, blockIds := [0] }]
  finishedRequestIds := []

/-- The call of the sampler for a request of these commands. -/
def plainCall (r : RequestId) : Call Int :=
  .sample r (samplingParams (seededData r)) (.logits ⟨"cpu", [1, 1, 1, 1]⟩)

theorem seeded_draws_in_order_iff_steady :
    InOrder countingOps { ambient := ⟨"cpu", 0, []⟩ } "a" 7
      (callsOf countingOps {} { ambient := ⟨"cpu", 0, []⟩ }
        [(prefillCommand [] "a", plainDevice), (decodeCommand "a", plainDevice)]) := by
  have hcalls : callsOf countingOps {} { ambient := ⟨"cpu", 0, []⟩ }
      [(prefillCommand [] "a", plainDevice), (decodeCommand "a", plainDevice)] =
      [plainCall "a", plainCall "a"] := by decide +kernel
  have hsession : session countingOps "a" [plainCall "a", plainCall "a"] =
      [.use "cpu" [1, 1, 1, 1], .use "cpu" [1, 1, 1, 1]] := by decide +kernel
  have hseed : (seededData "a").seed = some 7 := rfl
  refine (seeded_draws_in_order_iff rfl hseed ?_).1.mpr ?_
  · simp [Registers, prefillCommand, decodeCommand]
  · rw [hcalls, Undisturbed, hsession]
    exact Session.undisturbed_of_tag "cpu" (by simp) (by simp)

/-- Preempted for another request and admitted again, a request starts over with its first
draw. -/
theorem seed_restarts :
    ¬ InOrder countingOps { ambient := ⟨"cpu", 0, []⟩ } "a" 7
      (callsOf countingOps {} { ambient := ⟨"cpu", 0, []⟩ }
        [(prefillCommand [] "a", plainDevice), (decodeCommand "a", plainDevice),
          (prefillCommand ["a"] "b", plainDevice), (prefillCommand [] "a", plainDevice)]) := by
  have hcalls : callsOf countingOps {} { ambient := ⟨"cpu", 0, []⟩ }
      [(prefillCommand [] "a", plainDevice), (decodeCommand "a", plainDevice),
        (prefillCommand ["a"] "b", plainDevice), (prefillCommand [] "a", plainDevice)] =
      [plainCall "a", plainCall "a", .release ["a"], plainCall "b"] ++ plainCall "a" :: [] := by
    decide +kernel
  intro h
  have hdrawn := congrArg Generator.drawn (h _ _ _ _ "cpu" [1, 1, 1, 1] hcalls (by decide +kernel))
  exact absurd hdrawn (by decide +kernel)

end HostWorker
end PyptoServing.Server
