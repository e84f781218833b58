import PyptoServing.Server.Ipc
import PyptoServing.Sched.Scheduler

/-!
# Building commands

`_build_step_command`: one entry for each record of a pass, with the registration of the
requests that the worker does not know. It reads the request objects before the optimistic
advance past the step.
-/
namespace PyptoServing.Engine

open Lib Memory Sched Server

/-- The registration of a request. -/
def newRequestData (request : Request) (r : RequestId) : NewRequestData where
  requestId := r
  promptTokenIds := request.promptTokenIds
  temperature := request.temperature
  topP := request.topP
  topK := request.topK
  seed := request.seed

def prefillEntry (request : Request) (sr : ScheduledRequest) : PrefillRequest where
  requestId := sr.requestId
  chunkTokens := (request.promptTokenIds.drop sr.numComputedTokens).take sr.numNewTokens
  numComputedTokens := sr.numComputedTokens
  blockIds := sr.blockIds
  blockIdsByGroup := sr.blockIdsByGroup
  cachePartition := sr.cachePartition

/-- The decode input: a placeholder while a token of the request is in flight. -/
def lastToken (request : Request) : Int :=
  if 0 < request.numOutputPlaceholders then placeholderToken
  else (request.outputTokenIds.getLast?.orElse fun _ => request.promptTokenIds.getLast?).getD 0

def decodeEntry (request : Request) (sr : ScheduledRequest) : DecodeRequest where
  requestId := sr.requestId
  lastToken := lastToken request
  seqLen := sr.numComputedTokens + sr.numNewTokens
  blockIds := sr.blockIds
  blockIdsByGroup := sr.blockIdsByGroup
  cachePartition := sr.cachePartition

/-- The part of the loop for one record; the second component is `_worker_known_req_ids`. -/
def addEntry (object : RequestId → Request) (acc : StepCommand × List RequestId)
    (sr : ScheduledRequest) : StepCommand × List RequestId :=
  let (cmd, known) := acc
  let r := sr.requestId
  let request := object r
  let (cmd, known) :=
    if r ∈ known then (cmd, known)
    else ({ cmd with newRequests := cmd.newRequests ++ [newRequestData request r] }, known ++ [r])
  if sr.isPrefill then
    ({ cmd with prefillRequests := cmd.prefillRequests ++ [prefillEntry request sr] }, known)
  else
    ({ cmd with decodeRequests := cmd.decodeRequests ++ [decodeEntry request sr] }, known)

/-- A command without entries. -/
def cleanupCommand (finishedIds : List RequestId) (stepId : Nat) : StepCommand where
  newRequests := []
  prefillRequests := []
  decodeRequests := []
  finishedRequestIds := finishedIds
  stepId := stepId

/-- `_build_step_command`. -/
def buildStepCommand (object : RequestId → Request) (output : SchedulerOutput)
    (known finishedIds : List RequestId) (stepId : Nat) : StepCommand × List RequestId :=
  output.scheduledRequests.foldl (addEntry object)
    (cleanupCommand finishedIds stepId, known.filter (· ∉ finishedIds))

section Build
variable {object : RequestId → Request} {records : List ScheduledRequest} {cmd : StepCommand}
  {known : List RequestId}

/-- The entries of a command are those of its records, in order. -/
structure Holds (object : RequestId → Request) (records : List ScheduledRequest)
    (before after : StepCommand × List RequestId) : Prop where
  prefill : after.1.prefillRequests = before.1.prefillRequests ++
    (records.filter (·.isPrefill)).map fun sr => prefillEntry (object sr.requestId) sr
  decode : after.1.decodeRequests = before.1.decodeRequests ++
    (records.filter (!·.isPrefill)).map fun sr => decodeEntry (object sr.requestId) sr
  new : after.1.newRequests = before.1.newRequests ++ ((records.map (·.requestId)).filter
    (· ∉ before.2)).map fun r => newRequestData (object r) r
  finished : after.1.finishedRequestIds = before.1.finishedRequestIds
  stepId : after.1.stepId = before.1.stepId
  known : after.2 = before.2 ++ (records.map (·.requestId)).filter (· ∉ before.2)

theorem addEntry_holds (acc : StepCommand × List RequestId) (sr : ScheduledRequest) :
    Holds object [sr] acc (addEntry object acc sr) := by
  obtain ⟨cmd, known⟩ := acc
  unfold addEntry
  by_cases hk : sr.requestId ∈ known <;> cases hpre : sr.isPrefill <;>
    constructor <;> simp [hk, hpre]

theorem foldl_holds (hnd : (records.map (·.requestId)).Nodup) (acc : StepCommand × List RequestId) :
    Holds object records acc (records.foldl (addEntry object) acc) := by
  induction records generalizing acc with
  | nil => constructor <;> simp
  | cons sr records ih =>
    obtain ⟨hsr, hnd⟩ := List.nodup_cons.mp hnd
    have h : Holds object [sr] acc (addEntry object acc sr) := addEntry_holds acc sr
    have h' := ih hnd (addEntry object acc sr)
    have hfilter : (records.map (·.requestId)).filter (· ∉ (addEntry object acc sr).2) =
        (records.map (·.requestId)).filter (· ∉ acc.2) := by
      refine List.filter_congr fun r hr => ?_
      have hne : r ≠ sr.requestId := by
        rintro rfl
        exact hsr hr
      rw [h.known]
      by_cases hk : sr.requestId ∈ acc.2 <;> simp [hk, hne]
    rw [List.foldl_cons]
    refine ⟨?_, ?_, ?_, h'.finished.trans h.finished, h'.stepId.trans h.stepId, ?_⟩
    · rw [h'.prefill, h.prefill]
      cases hpre : sr.isPrefill <;> simp [hpre]
    · rw [h'.decode, h.decode]
      cases hpre : sr.isPrefill <;> simp [hpre]
    · rw [h'.new, h.new, hfilter]
      by_cases hk : sr.requestId ∈ acc.2 <;> simp [hk]
    · rw [h'.known, h.known, ← h.known, hfilter, h.known]
      by_cases hk : sr.requestId ∈ acc.2 <;> simp [hk]

/-- `_build_step_command` over a pass that schedules each request once. -/
theorem buildStepCommand_holds (object : RequestId → Request) {output : SchedulerOutput}
    (known finishedIds : List RequestId) (stepId : Nat) (hnd : (output.scheduledRequests.map (·.requestId)).Nodup) :
    Holds object output.scheduledRequests
      (cleanupCommand finishedIds stepId, known.filter (· ∉ finishedIds))
      (buildStepCommand object output known finishedIds stepId) :=
  foldl_holds hnd _

/-- The ids that a command introduces: those of its records that the worker does not keep. -/
theorem buildStepCommand_newIds (object : RequestId → Request) {output : SchedulerOutput}
    (known finishedIds : List RequestId) (stepId : Nat)
    (hnd : (output.scheduledRequests.map (·.requestId)).Nodup) :
    (buildStepCommand object output known finishedIds stepId).1.newIds =
      (output.scheduledRequests.map (·.requestId)).filter
        (· ∉ known.filter (· ∉ finishedIds)) := by
  rw [StepCommand.newIds, (buildStepCommand_holds object known finishedIds stepId hnd).new,
    List.map_append, List.map_map]
  exact List.map_id _

end Build
end PyptoServing.Engine
