import PyptoServing.Lib.Machine
import PyptoServing.Server.Ipc

/-!
# The pipelined worker

The three lanes of `_pipelined_busy_loop`: the prepare loop reads commands and prepares
decode metadata, the device lane applies lifecycle and dispatches, the reclaim lane
materializes outputs and publishes results. They share a bounded and an unbounded queue, one
semaphore for each buffer slot, the request cache and the last tokens. Each access to shared
state is a step of its own, so the lanes interleave freely; the executor may fail wherever
the source catches an exception.
-/
namespace PyptoServing.Server

open Lib Memory Sched

/-- The properties of the executor that the lanes read. -/
structure LaneConfig where
  supportsDeviceDecodeEmbedding : Bool
  supportsAsyncDecodeReclaim : Bool

/-- `_DECODE_PIPELINE_SLOTS`. -/
abbrev decodePipelineSlots : Nat := 2

abbrev Slot := Fin decodePipelineSlots

/-- `_PreparedDecodeWork`; the metadata and the batch are there unless preparation failed. -/
structure PreparedDecodeWork where
  bufferSlot : Slot
  error : Option String := none

/-- A step command on its way through the lanes, with the entries it intends to release. -/
structure StepWork where
  serial : Nat
  cmd : StepCommand
  prepared : Option PreparedDecodeWork := none
  releaseCacheEntries : Dict RequestId (Option Registered) := ∅

inductive WorkItem
  | shutdown (serial : Nat)
  | failure (serial : Nat) (error : String)
  | profile (serial : Nat) (active : Bool)
  | step (work : StepWork)

inductive OutputItem
  | shutdown (serial : Nat)
  | profileBarrier (serial : Nat) (active : Bool)
  | completed (serial : Nat) (result : StepResult) (bufferSlot : Option Slot)
  | pending (work : StepWork) (bufferSlot : Slot)

inductive PrepareLane
  | reading
  | snapshotting (work : StepWork) (remaining : List RequestId)
  | publishing (work : StepWork) (remaining : List NewRequestData)
  | acquiring (work : StepWork) (slot : Slot)
  | preparing (work : StepWork) (slot : Slot)
  | putting (item : WorkItem)
  | done

inductive DeviceLane
  | taking
  | awaitingProfile
  | releasing (work : StepWork)
  | comparing (work : StepWork) (remaining : List RequestId)
  | poppingEntry (work : StepWork) (r : RequestId) (remaining : List RequestId)
  | poppingTokens (work : StepWork) (r : RequestId) (remaining : List RequestId)
  | registering (work : StepWork) (remaining : List NewRequestData)
  | executing (work : StepWork)
  | computing (work : StepWork)
  | recording (work : StepWork) (newTokens : Dict RequestId (List Int))
      (remaining : List (RequestId × List Int))
  | done

inductive ReclaimLane
  | taking
  | profiling (serial : Nat) (active : Bool)
  | reclaiming (work : StepWork) (slot : Slot)
  | recording (work : StepWork) (slot : Slot) (newTokens : Dict RequestId (List Int))
      (remaining : List (RequestId × List Int))
  | publishing (serial : Nat) (result : StepResult) (bufferSlot : Option Slot)
  | emitting (serial : Nat) (result : StepResult)
  | done

structure Lanes where
  /-- What the input queue delivers, in order. -/
  sent : List Message := []
  numRead : Nat := 0
  prepare : PrepareLane := .reading
  workQueue : List WorkItem := []
  device : DeviceLane := .taking
  outputQueue : List OutputItem := []
  reclaim : ReclaimLane := .taking
  slotOwnership : Slot → Nat := fun _ => 1
  /-- The runner's table of fused dispatches that have not been waited for. -/
  pendingMtpDispatches : Slot → Option Nat := fun _ => none
  profileCompleted : Bool := false
  reqCache : ReqCache := ∅
  lastTokens : LastTokens := ∅
  /-- The results published, each with the message that it answers. -/
  results : List (Nat × StepResult) := []
  numHandled : Nat := 0
  /-- History of the semaphores and of the releases that the device lane has applied. -/
  acquired : List (Nat × Slot) := []
  released : List (Nat × Slot) := []
  freed : List (Nat × RequestId) := []

inductive LaneOp
  | read
  | snapshot
  | publish
  | acquire
  | prepareDecode (error : Option String)
  | putWork
  | takeWork
  | profiled
  | releaseFinished (error : Option String)
  | compare
  | popEntry
  | popTokens
  | register
  | dispatchDecode (error : Option String)
  | start
  | failStep (error : String)
  | compute (outcome : Except String (Dict RequestId (List Int)))
  | recordComputed
  | takeOutput
  | profile
  | reclaimDecode (outcome : Except String (Dict RequestId (List Int)))
  | recordReclaimed
  | releaseSlot
  | putResult

/-- Whether the prepare loop acquires a buffer slot for a command. -/
def LaneConfig.ownedSlot (config : LaneConfig) (cmd : StepCommand) : Option Slot :=
  if cmd.decodeRequests ≠ [] ∧ cmd.prefillRequests = [] ∧ config.supportsDeviceDecodeEmbedding then
    some (Fin.ofNat decodePipelineSlots cmd.stepId)
  else none

/-- `_can_split_decode_output`: the slot of a command whose output is reclaimed on its own. -/
def LaneConfig.splitSlot (config : LaneConfig) (work : StepWork) : Option Slot :=
  match work.prepared with
  | some ⟨slot, none⟩ =>
    if work.cmd.decodeRequests ≠ [] ∧ work.cmd.prefillRequests = [] ∧ work.cmd.newRequests = [] ∧
        config.supportsAsyncDecodeReclaim then some slot else none
  | _ => none

/-- `_track_pending_mtp_dispatch`. -/
def trackPendingMtpDispatch (table : Slot → Option Nat) (slot : Slot) (serial : Nat) :
    Except String (Slot → Option Nat) :=
  if (table slot).isSome then
    .error s!"DeepSeekV4 MTP decode buffer slot {slot.val} was reused before completion"
  else .ok (Function.update table slot (some serial))

/-- `_forget_pending_mtp_dispatch`: a newer owner of the slot stays. -/
def forgetPendingMtpDispatch (table : Slot → Option Nat) (slot : Slot) (serial : Nat) :
    Slot → Option Nat :=
  if table slot = some serial then Function.update table slot none else table

namespace StepWork

/-- The slot that a result gives back. -/
def bufferSlot (work : StepWork) : Option Slot := work.prepared.map (·.bufferSlot)

/-- The error result of a step. -/
def failed (work : StepWork) (error : String) : OutputItem :=
  .completed work.serial { error := some error, stepId := work.cmd.stepId } work.bufferSlot

/-- What `_execute_step` does to the runner's table before it computes: prefill waits for
every fused dispatch, a prepared decode adds its own when the runner fuses. -/
def start (work : StepWork) (config : LaneConfig) (table : Slot → Option Nat) :
    Except String (Slot → Option Nat) :=
  if work.cmd.prefillRequests ≠ [] then .ok fun _ => none
  else
    match work.prepared with
    | none => .ok table
    | some ⟨_, some error⟩ => .error error
    | some ⟨slot, none⟩ =>
      if config.supportsAsyncDecodeReclaim then trackPendingMtpDispatch table slot work.serial
      else .ok table

/-- The dispatch of a prepared decode is forgotten when its step ends. -/
def forget (work : StepWork) (table : Slot → Option Nat) : Slot → Option Nat :=
  match work.prepared with
  | none => table
  | some prepared => forgetPendingMtpDispatch table prepared.bufferSlot work.serial

end StepWork

/-- What the prepare loop puts into the work queue for a message without a step. -/
def Message.item (serial : Nat) : Message → Option WorkItem
  | .step _ => none
  | .profile active => some (.profile serial active)
  | .shutdown | .closed => some (.shutdown serial)
  | .undecodable error => some (.failure serial error)

namespace Lanes

/-- The entries that may be recorded for a step. -/
def TokensFor (ids : List RequestId) (newTokens : Dict RequestId (List Int)) : Prop :=
  ∀ r ∈ newTokens.keys, r ∈ ids

instance (ids : List RequestId) (newTokens : Dict RequestId (List Int)) :
    Decidable (TokensFor ids newTokens) :=
  inferInstanceAs (Decidable (∀ r ∈ newTokens.keys, r ∈ ids))

/-- The pairs of `new_tokens.items()`. -/
def items (newTokens : Dict RequestId (List Int)) : List (RequestId × List Int) :=
  newTokens.entries.map fun e => (e.1, e.2)

/-- Record one pair, unless it has no token. -/
def recordTokens (lastTokens : LastTokens) (serial : Nat) (entry : RequestId × List Int) :
    LastTokens :=
  if entry.2 = [] then lastTokens else lastTokens.record serial entry.1 entry.2

/-- After the snapshots and registrations, a command waits for its slot or is put as it is. -/
def published (config : LaneConfig) (work : StepWork) : PrepareLane :=
  match config.ownedSlot work.cmd with
  | some slot => .acquiring work slot
  | none => .putting (.step work)

/-- The device lane at the start of one item. -/
def taken : WorkItem → DeviceLane × List OutputItem
  | .shutdown serial => (.done, [.shutdown serial])
  | .failure serial error => (.taking, [.completed serial { error := some error } none])
  | .profile serial active => (.awaitingProfile, [.profileBarrier serial active])
  | .step work =>
    (if work.cmd.finishedRequestIds = [] then .registering work work.cmd.newRequests
      else .releasing work, [])

/-- The reclaim lane at the start of one item. -/
def collected : OutputItem → ReclaimLane
  | .shutdown _ => .done
  | .profileBarrier serial active => .profiling serial active
  | .completed serial result slot => .publishing serial result slot
  | .pending work slot => .reclaiming work slot

/-- A command holds prefill or decode entries, not both: the engine schedules one phase at a
time for the executors that this worker loop serves. -/
def Homogeneous : Message → Prop
  | .step cmd => cmd.prefillRequests = [] ∨ cmd.decodeRequests = []
  | _ => True

inductive Step (config : LaneConfig) (s : Lanes) : LaneOp → Lanes → Prop
  -- The prepare loop.
  | readStep {cmd : StepCommand} : s.prepare = .reading → s.sent[s.numRead]? = some (.step cmd) →
      Step config s .read { s with
        numRead := s.numRead + 1
        prepare := .snapshotting { serial := s.numRead, cmd } cmd.finishedRequestIds }
  | readOther {m : Message} {item : WorkItem} : s.prepare = .reading →
      s.sent[s.numRead]? = some m → m.item s.numRead = some item →
      Step config s .read { s with numRead := s.numRead + 1, prepare := .putting item }
  | snapshot {work : StepWork} {r : RequestId} {remaining : List RequestId} :
      s.prepare = .snapshotting work (r :: remaining) →
      Step config s .snapshot { s with
        prepare := .snapshotting { work with
          releaseCacheEntries := work.releaseCacheEntries.insert r (s.reqCache.lookup r) } remaining }
  | snapshotted {work : StepWork} : s.prepare = .snapshotting work [] →
      Step config s .snapshot { s with prepare := .publishing work work.cmd.newRequests }
  | publish {work : StepWork} {data : NewRequestData} {remaining : List NewRequestData} :
      s.prepare = .publishing work (data :: remaining) →
      Step config s .publish { s with
        reqCache := s.reqCache.insert data.requestId ⟨data, work.serial⟩
        prepare := .publishing work remaining }
  | published {work : StepWork} : s.prepare = .publishing work [] →
      Step config s .publish { s with prepare := published config work }
  | acquire {work : StepWork} {slot : Slot} : s.prepare = .acquiring work slot →
      0 < s.slotOwnership slot →
      Step config s .acquire { s with
        prepare := .preparing work slot
        slotOwnership := Function.update s.slotOwnership slot (s.slotOwnership slot - 1)
        acquired := s.acquired ++ [(work.serial, slot)] }
  | prepareDecode {work : StepWork} {slot : Slot} {error : Option String} :
      s.prepare = .preparing work slot →
      Step config s (.prepareDecode error) { s with
        prepare := .putting (.step { work with prepared := some ⟨slot, error⟩ }) }
  | putWork {item : WorkItem} : s.prepare = .putting item →
      s.workQueue.length < decodePipelineSlots → (∀ serial, item ≠ .shutdown serial) →
      Step config s .putWork { s with workQueue := s.workQueue ++ [item], prepare := .reading }
  | putShutdown {serial : Nat} : s.prepare = .putting (.shutdown serial) →
      s.workQueue.length < decodePipelineSlots →
      Step config s .putWork { s with
        workQueue := s.workQueue ++ [.shutdown serial], prepare := .done }
  -- The device lane.
  | takeWork {item : WorkItem} {queue : List WorkItem} : s.device = .taking →
      s.workQueue = item :: queue →
      Step config s .takeWork { s with
        workQueue := queue
        device := (taken item).1
        outputQueue := s.outputQueue ++ (taken item).2
        profileCompleted := false }
  | profiled : s.device = .awaitingProfile → s.profileCompleted = true →
      Step config s .profiled { s with device := .taking }
  | releaseFinished {work : StepWork} : s.device = .releasing work →
      Step config s (.releaseFinished none) { s with
        device := .comparing work work.cmd.finishedRequestIds }
  | releaseFailed {work : StepWork} {error : String} : s.device = .releasing work →
      Step config s (.releaseFinished (some error)) { s with
        device := .taking, outputQueue := s.outputQueue ++ [work.failed error] }
  | compareSame {work : StepWork} {r : RequestId} {remaining : List RequestId} :
      s.device = .comparing work (r :: remaining) →
      s.reqCache.lookup r = (work.releaseCacheEntries.lookup r).join →
      Step config s .compare { s with device := .poppingEntry work r remaining }
  | compareOther {work : StepWork} {r : RequestId} {remaining : List RequestId} :
      s.device = .comparing work (r :: remaining) →
      s.reqCache.lookup r ≠ (work.releaseCacheEntries.lookup r).join →
      Step config s .compare { s with
        device := .comparing work remaining, freed := s.freed ++ [(work.serial, r)] }
  | compared {work : StepWork} : s.device = .comparing work [] →
      Step config s .compare { s with device := .registering work work.cmd.newRequests }
  | popEntry {work : StepWork} {r : RequestId} {remaining : List RequestId} :
      s.device = .poppingEntry work r remaining →
      Step config s .popEntry { s with
        reqCache := s.reqCache.erase r, device := .poppingTokens work r remaining }
  | popTokens {work : StepWork} {r : RequestId} {remaining : List RequestId} :
      s.device = .poppingTokens work r remaining →
      Step config s .popTokens { s with
        lastTokens := s.lastTokens.erase r
        device := .comparing work remaining
        freed := s.freed ++ [(work.serial, r)] }
  | register {work : StepWork} {data : NewRequestData} {remaining : List NewRequestData} :
      s.device = .registering work (data :: remaining) →
      Step config s .register { s with
        reqCache := s.reqCache.insert data.requestId ⟨data, work.serial⟩
        device := .registering work remaining }
  | registered {work : StepWork} : s.device = .registering work [] →
      Step config s .register { s with device := .executing work }
  | dispatchDecode {work : StepWork} {slot : Slot} {table : Slot → Option Nat} :
      s.device = .executing work → config.splitSlot work = some slot →
      trackPendingMtpDispatch s.pendingMtpDispatches slot work.serial = .ok table →
      Step config s (.dispatchDecode none) { s with
        pendingMtpDispatches := table
        device := .taking
        outputQueue := s.outputQueue ++ [.pending work slot] }
  | dispatchReused {work : StepWork} {slot : Slot} {error : String} :
      s.device = .executing work → config.splitSlot work = some slot →
      trackPendingMtpDispatch s.pendingMtpDispatches slot work.serial = .error error →
      Step config s (.dispatchDecode none) { s with
        device := .taking, outputQueue := s.outputQueue ++ [work.failed error] }
  | dispatchFailed {work : StepWork} {slot : Slot} {error : String} :
      s.device = .executing work → config.splitSlot work = some slot →
      Step config s (.dispatchDecode (some error)) { s with
        device := .taking, outputQueue := s.outputQueue ++ [work.failed error] }
  | start {work : StepWork} {table : Slot → Option Nat} : s.device = .executing work →
      config.splitSlot work = none → work.start config s.pendingMtpDispatches = .ok table →
      Step config s .start { s with pendingMtpDispatches := table, device := .computing work }
  | startFailed {work : StepWork} {error : String} : s.device = .executing work →
      config.splitSlot work = none → work.start config s.pendingMtpDispatches = .error error →
      Step config s .start { s with
        device := .taking, outputQueue := s.outputQueue ++ [work.failed error] }
  | failStep {work : StepWork} {error : String} : s.device = .executing work →
      config.splitSlot work = none →
      Step config s (.failStep error) { s with
        device := .taking, outputQueue := s.outputQueue ++ [work.failed error] }
  | compute {work : StepWork} {newTokens : Dict RequestId (List Int)} :
      s.device = .computing work → TokensFor work.cmd.scheduledIds newTokens →
      Step config s (.compute (.ok newTokens)) { s with
        pendingMtpDispatches := work.forget s.pendingMtpDispatches
        device := .recording work newTokens (items newTokens) }
  | computeFailed {work : StepWork} {error : String} : s.device = .computing work →
      Step config s (.compute (.error error)) { s with
        pendingMtpDispatches := work.forget s.pendingMtpDispatches
        device := .taking
        outputQueue := s.outputQueue ++ [work.failed error] }
  | recordComputed {work : StepWork} {newTokens : Dict RequestId (List Int)}
      {entry : RequestId × List Int} {remaining : List (RequestId × List Int)} :
      s.device = .recording work newTokens (entry :: remaining) →
      Step config s .recordComputed { s with
        lastTokens := recordTokens s.lastTokens work.serial entry
        device := .recording work newTokens remaining }
  | recordedComputed {work : StepWork} {newTokens : Dict RequestId (List Int)} :
      s.device = .recording work newTokens [] →
      Step config s .recordComputed { s with
        device := .taking
        outputQueue := s.outputQueue ++
          [.completed work.serial { newTokens, stepId := work.cmd.stepId } work.bufferSlot] }
  -- The reclaim lane.
  | takeOutput {item : OutputItem} {queue : List OutputItem} : s.reclaim = .taking →
      s.outputQueue = item :: queue → (∀ serial, item ≠ .shutdown serial) →
      Step config s .takeOutput { s with outputQueue := queue, reclaim := collected item }
  | takeShutdown {serial : Nat} {queue : List OutputItem} : s.reclaim = .taking →
      s.outputQueue = .shutdown serial :: queue →
      Step config s .takeOutput { s with
        outputQueue := queue, reclaim := .done, numHandled := s.numHandled + 1 }
  | profile {serial : Nat} {active : Bool} : s.reclaim = .profiling serial active →
      Step config s .profile { s with
        reclaim := .taking, profileCompleted := true, numHandled := s.numHandled + 1 }
  | reclaimDecode {work : StepWork} {slot : Slot} {newTokens : Dict RequestId (List Int)} :
      s.reclaim = .reclaiming work slot →
      TokensFor (work.cmd.decodeRequests.map (·.requestId)) newTokens →
      Step config s (.reclaimDecode (.ok newTokens)) { s with
        pendingMtpDispatches := forgetPendingMtpDispatch s.pendingMtpDispatches slot work.serial
        reclaim := .recording work slot newTokens (items newTokens) }
  | reclaimFailed {work : StepWork} {slot : Slot} {error : String} :
      s.reclaim = .reclaiming work slot →
      Step config s (.reclaimDecode (.error error)) { s with
        pendingMtpDispatches := forgetPendingMtpDispatch s.pendingMtpDispatches slot work.serial
        reclaim := .publishing work.serial { error := some error, stepId := work.cmd.stepId }
          (some slot) }
  | recordReclaimed {work : StepWork} {slot : Slot} {newTokens : Dict RequestId (List Int)}
      {entry : RequestId × List Int} {remaining : List (RequestId × List Int)} :
      s.reclaim = .recording work slot newTokens (entry :: remaining) →
      Step config s .recordReclaimed { s with
        lastTokens := recordTokens s.lastTokens work.serial entry
        reclaim := .recording work slot newTokens remaining }
  | recordedReclaimed {work : StepWork} {slot : Slot} {newTokens : Dict RequestId (List Int)} :
      s.reclaim = .recording work slot newTokens [] →
      Step config s .recordReclaimed { s with
        reclaim := .publishing work.serial { newTokens, stepId := work.cmd.stepId } (some slot) }
  | releaseSlot {serial : Nat} {result : StepResult} {slot : Slot} :
      s.reclaim = .publishing serial result (some slot) →
      Step config s .releaseSlot { s with
        slotOwnership := Function.update s.slotOwnership slot (s.slotOwnership slot + 1)
        released := s.released ++ [(serial, slot)]
        reclaim := .emitting serial result }
  | keepSlot {serial : Nat} {result : StepResult} :
      s.reclaim = .publishing serial result none →
      Step config s .releaseSlot { s with reclaim := .emitting serial result }
  | putResult {serial : Nat} {result : StepResult} : s.reclaim = .emitting serial result →
      Step config s .putResult { s with
        results := s.results ++ [(serial, result)]
        numHandled := s.numHandled + 1
        reclaim := .taking }

end Lanes

/-- Every run of the worker's lanes under any sequence of messages. -/
def laneMachine (config : LaneConfig) : Machine Lanes LaneOp where
  init s := ∃ messages : List Message,
    (∀ m ∈ messages, Lanes.Homogeneous m) ∧ s = { sent := messages }
  step := Lanes.Step config

theorem Lanes.next_reachable {config : LaneConfig} {s s' : Lanes} {op : LaneOp}
    (hs : (laneMachine config).Reachable s) (hstep : Lanes.Step config s op s') :
    (laneMachine config).Reachable s' :=
  hs.next hstep

end PyptoServing.Server
