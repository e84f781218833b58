import PyptoServing.Lib.Generation
import PyptoServing.Lib.Raising
import PyptoServing.Runner.DecodeBatch

/-!
# The state of speculative decoding

What the runner keeps for each request while its tokens are drafted: the last prompt row
that waits for its next token, the draft, and the device slot of its tail.
-/
namespace PyptoServing.Runner

open Lib Memory Sched

/-- `_DeepSeekV4MtpPrefillContext`. -/
structure MtpPrefillContext (H : Type) where
  rank : Nat
  prevHiddenState : H
  positionId : Nat
  blockTable : List BlockId
  slotMapping : Int
  promptLen : Nat

/-- `tail_rank`, `tail_slot_id` and `generation`, which are set together. -/
structure TailSlot where
  rank : Nat
  slotId : Nat
  generation : Nat
  deriving DecidableEq, Repr

/-- `_DeepSeekV4MtpRequestState`. -/
structure MtpRequestState (H : Type) where
  prefillContext : Option (MtpPrefillContext H) := none
  draftTokenId : Option Int := none
  tail : Option TailSlot := none
  promptLen : Nat := 0

/-- The part of the runner that `_mtp_state_lock` guards. -/
structure MtpRunner (H : Type) where
  requestStates : Dict RequestId (MtpRequestState H) := ∅
  freeTailSlots : List (List Nat)
  slotGenerations : List (List Nat)

abbrev MtpM (H α : Type) := Raising String (MtpRunner H) α

namespace MtpRunner
variable {H : Type}

def new (layout : DeepSeekV4CacheLayout) : MtpRunner H where
  freeTailSlots := List.replicate layout.ranks (List.range layout.decodeBatch).reverse
  slotGenerations := List.replicate layout.ranks (List.replicate layout.decodeBatch 0)

def freeSlots (m : MtpRunner H) (rank : Nat) : List Nat := m.freeTailSlots.getD rank []

def generation (m : MtpRunner H) (rank slot : Nat) : Nat :=
  (m.slotGenerations.getD rank []).getD slot 0

/-- The slot of a request. -/
def tail (m : MtpRunner H) (r : RequestId) : Option TailSlot :=
  (m.requestStates.lookup r).bind (·.tail)

/-- The device generations are counted in 31 bits. -/
def generationLimit : Nat := 2 ^ 31

/-- The state after `free_slots.pop()` gave a slot of the rank to a request. -/
def assign (m : MtpRunner H) (r : RequestId) (state : MtpRequestState H) (rank slot : Nat) :
    MtpRunner H :=
  let generation := Generation.next generationLimit (m.generation rank slot)
  { requestStates := m.requestStates.insert r { state with tail := some ⟨rank, slot, generation⟩ }
    freeTailSlots := m.freeTailSlots.modify rank List.dropLast
    slotGenerations := m.slotGenerations.modify rank (·.set slot generation) }

/-- `_require_mtp_request_state`. -/
def requireMtpRequestState (r : RequestId) : MtpM H (MtpRequestState H) := do
  match (← get).requestStates.lookup r with
  | none => throw s!"DeepSeekV4 MTP state is missing for request '{r}'"
  | some state => return state

/-- `_reserve_mtp_state_slot` for a registered request. -/
def reserveMtpStateSlot (r : RequestId) (rank : Nat) (requestId : String) : MtpM H Unit := do
  let state ← requireMtpRequestState r
  match state.tail with
  | some tail =>
    if tail.rank ≠ rank then
      throw (s!"DeepSeekV4 MTP state rank changed for '{requestId}': " ++
        s!"slot rank={tail.rank}, decode rank={rank}")
  | none =>
    let m ← get
    match m.freeTailSlots[rank]? with
    | none => throw "list index out of range"
    | some freeSlots =>
      match freeSlots.getLast? with
      | none => throw s!"DeepSeekV4 MTP tail slots are exhausted on rank {rank}"
      | some slot => set (m.assign r state rank slot)

/-- `_reserve_mtp_request_state`. -/
def reserveMtpRequestState (r : RequestId) (rank : Nat) : MtpM H Unit := do
  modify fun m => { m with requestStates := m.requestStates.setDefault r {} }
  reserveMtpStateSlot r rank r

/-- One request in `release_finished_requests`. -/
def releaseRequest (m : MtpRunner H) (r : RequestId) : MtpRunner H :=
  { m with
    requestStates := m.requestStates.erase r
    freeTailSlots :=
      match m.tail r with
      | none => m.freeTailSlots
      | some tail => m.freeTailSlots.modify tail.rank (· ++ [tail.slotId]) }

/-- `release_finished_requests`. -/
def releaseFinishedRequests (m : MtpRunner H) (requestIds : List RequestId) : MtpRunner H :=
  requestIds.foldl releaseRequest m

/-- `_prepare_mtp_device_state_descriptors`: the slot id and the generation of every row, given
its request and its rank; none when a request has no slot yet. -/
def prepareMtpDeviceStateDescriptors (m : MtpRunner H) (requireReady : Bool) :
    List (RequestId × Nat) → Except String (Option (List TailSlot))
  | [] => .ok (some [])
  | (r, rank) :: rows =>
    match m.requestStates.lookup r with
    | none =>
      if requireReady then .error s!"DeepSeekV4 MTP state is missing for request '{r}'"
      else .ok none
    | some state =>
      match state.tail with
      | none =>
        if requireReady then .error s!"DeepSeekV4 MTP tail slot is not reserved for '{r}'"
        else .ok none
      | some tail =>
        if tail.rank ≠ rank then
          .error (s!"DeepSeekV4 MTP state rank changed for '{r}': " ++
            s!"slot rank={tail.rank}, decode rank={rank}")
        else do return (← m.prepareMtpDeviceStateDescriptors requireReady rows).map (tail :: ·)

end MtpRunner
end PyptoServing.Runner
