import Mathlib.Data.Nat.Count
import PyptoServing.Server.Lanes

/-!
# The protocol of the lanes

The messages in the lanes and the queues are, from the reclaim lane back to the prepare
loop, the consecutive messages that were read and are not handled yet. From this order and
the semaphores follow one result for each command in dispatch order, the exclusive use of
the buffer slots, and progress.
-/
namespace PyptoServing.Server

open Lib Memory Sched

def WorkItem.serial : WorkItem → Nat
  | .shutdown serial | .failure serial _ | .profile serial _ => serial
  | .step work => work.serial

def OutputItem.serial : OutputItem → Nat
  | .shutdown serial | .profileBarrier serial _ | .completed serial _ _ => serial
  | .pending work _ => work.serial

def PrepareLane.serials : PrepareLane → List Nat
  | .reading | .done => []
  | .snapshotting work _ | .publishing work _ | .acquiring work _ | .preparing work _ =>
    [work.serial]
  | .putting item => [item.serial]

/-- A device lane that waits at a barrier has handed its message on. -/
def DeviceLane.serials : DeviceLane → List Nat
  | .taking | .awaitingProfile | .done => []
  | .releasing work | .comparing work _ | .poppingEntry work _ _ | .poppingTokens work _ _
  | .registering work _ | .executing work | .computing work | .recording work _ _ => [work.serial]

def ReclaimLane.serials : ReclaimLane → List Nat
  | .taking | .done => []
  | .profiling serial _ | .publishing serial _ _ | .emitting serial _ => [serial]
  | .reclaiming work _ | .recording work _ _ _ => [work.serial]

namespace Lanes
variable {config : LaneConfig} {s s' : Lanes} {op : LaneOp}

/-- The messages in the lanes, oldest first. -/
def carried (s : Lanes) : List Nat :=
  s.reclaim.serials ++ s.outputQueue.map (·.serial) ++ s.device.serials ++
    s.workQueue.map (·.serial) ++ s.prepare.serials

structure Ordered (s : Lanes) : Prop where
  carried : s.carried = List.range' s.numHandled (s.numRead - s.numHandled)
  handled : s.numHandled ≤ s.numRead
  read : s.numRead ≤ s.sent.length

namespace Ordered

/-- A message that is read comes last. -/
theorem read_one (h : Ordered s) (hlen : s.numRead < s.sent.length)
    (hcarried : s'.carried = s.carried ++ [s.numRead]) (hsent : s'.sent = s.sent)
    (hread : s'.numRead = s.numRead + 1) (hhandled : s'.numHandled = s.numHandled) :
    Ordered s' := by
  have hle := h.handled
  refine ⟨?_, by omega, by rw [hread, hsent]; exact hlen⟩
  rw [hcarried, h.carried, hread, hhandled, Nat.sub_add_comm hle, List.range'_1_concat]
  congr 2
  omega

/-- The oldest message is the one that is handled. -/
theorem handle_one (h : Ordered s) {serial : Nat}
    (hcarried : s.carried = serial :: s'.carried) (hsent : s'.sent = s.sent)
    (hread : s'.numRead = s.numRead) (hhandled : s'.numHandled = s.numHandled + 1) :
    serial = s.numHandled ∧ Ordered s' := by
  have hle := h.handled
  have hrange := h.carried
  rw [hcarried] at hrange
  obtain ⟨n, hn⟩ : ∃ n, s.numRead - s.numHandled = n + 1 := by
    cases hd : s.numRead - s.numHandled with
    | zero =>
      rw [hd] at hrange
      cases hrange
    | succ n => exact ⟨n, rfl⟩
  rw [hn, List.range'_succ, List.cons.injEq] at hrange
  refine ⟨hrange.1, ?_, by omega, by rw [hread, hsent]; exact h.read⟩
  rw [hrange.2, hread, hhandled]
  congr 1
  omega

/-- Nothing is read or handled, and the messages keep their order. -/
theorem move (h : Ordered s) (hcarried : s'.carried = s.carried) (hsent : s'.sent = s.sent)
    (hread : s'.numRead = s.numRead) (hhandled : s'.numHandled = s.numHandled) :
    Ordered s' :=
  ⟨by rw [hcarried, h.carried, hread, hhandled], by rw [hread, hhandled]; exact h.handled,
    by rw [hread, hsent]; exact h.read⟩

end Ordered

/-- What a step does to the messages in the lanes. -/
inductive Flows (s s' : Lanes) : Prop
  | move : s'.carried = s.carried → s'.numRead = s.numRead → s'.numHandled = s.numHandled →
      Flows s s'
  | read : s.numRead < s.sent.length → s'.carried = s.carried ++ [s.numRead] →
      s'.numRead = s.numRead + 1 → s'.numHandled = s.numHandled → Flows s s'
  | handle {serial : Nat} : s.carried = serial :: s'.carried → s'.numRead = s.numRead →
      s'.numHandled = s.numHandled + 1 → Flows s s'

theorem Step.sent (h : Step config s op s') : s'.sent = s.sent := by
  cases h <;> rfl

theorem Step.flows (h : Step config s op s') : Flows s s' := by
  cases h with
  | readStep hp hm =>
    obtain ⟨hlt, -⟩ := List.getElem?_eq_some_iff.mp hm
    refine .read hlt ?_ rfl rfl
    simp [carried, hp, PrepareLane.serials]
  | readOther hp hm hitem =>
    obtain ⟨hlt, -⟩ := List.getElem?_eq_some_iff.mp hm
    refine .read hlt ?_ rfl rfl
    have hser : ∀ {m : Message} {item : WorkItem}, m.item s.numRead = some item →
        item.serial = s.numRead := by
      rintro (_ | _ | _ | _ | _) item hi <;> cases hi <;> rfl
    simp [carried, hp, PrepareLane.serials, hser hitem]
  | published hp =>
    refine .move ?_ rfl rfl
    simp only [carried, hp, Lanes.published]
    split <;> rfl
  | putWork hp =>
    refine .move ?_ rfl rfl
    simp [carried, hp, PrepareLane.serials]
  | putShutdown hp =>
    refine .move ?_ rfl rfl
    simp [carried, hp, PrepareLane.serials]
  | takeWork hd hq =>
    refine .move ?_ rfl rfl
    rename_i item queue
    cases item with
    | step work =>
      simp only [carried, hd, hq, taken]
      split <;> simp [DeviceLane.serials, WorkItem.serial]
    | _ => simp [carried, hd, hq, taken, DeviceLane.serials, WorkItem.serial, OutputItem.serial]
  | takeOutput hr hq hne =>
    rename_i item queue
    refine .move ?_ rfl rfl
    cases item with
    | shutdown serial => exact absurd rfl (hne serial)
    | _ => simp [carried, hr, hq, collected, ReclaimLane.serials, OutputItem.serial]
  | @takeShutdown serial queue hr hq =>
    refine @Flows.handle _ _ serial ?_ rfl rfl
    simp only [carried, hr, hq, ReclaimLane.serials, List.map_cons, List.nil_append,
      List.cons_append, OutputItem.serial]
  | @profile serial active hr =>
    refine @Flows.handle _ _ serial ?_ rfl rfl
    simp only [carried, hr, ReclaimLane.serials, List.nil_append, List.cons_append]
  | @putResult serial result hr =>
    refine @Flows.handle _ _ serial ?_ rfl rfl
    simp only [carried, hr, ReclaimLane.serials, List.nil_append, List.cons_append]
  | _ =>
    refine .move ?_ rfl rfl
    simp only [carried, *]
    simp [PrepareLane.serials, DeviceLane.serials, ReclaimLane.serials, WorkItem.serial,
      OutputItem.serial, StepWork.failed]

theorem Ordered.step (h : Ordered s) (hstep : Step config s op s') : Ordered s' := by
  cases hstep.flows with
  | move hcarried hread hhandled => exact h.move hcarried hstep.sent hread hhandled
  | read hlt hcarried hread hhandled => exact h.read_one hlt hcarried hstep.sent hread hhandled
  | handle hcarried hread hhandled => exact (h.handle_one hcarried hstep.sent hread hhandled).2

end Lanes

/-- The slot that the message at a position uses. -/
def slotAt (config : LaneConfig) (sent : List Message) (i : Nat) : Option Slot :=
  match sent[i]? with
  | some (.step cmd) => config.ownedSlot cmd
  | _ => none

/-- The messages that get a result. -/
def answered (sent : List Message) (i : Nat) : Bool :=
  match sent[i]? with
  | some (.step _) | some (.undecodable _) => true
  | _ => false

/-- The messages that end the worker loop. -/
def Stops (sent : List Message) (i : Nat) : Prop :=
  sent[i]? = some .shutdown ∨ sent[i]? = some .closed

structure StepWork.Fits (config : LaneConfig) (sent : List Message) (work : StepWork) : Prop where
  cmd : sent[work.serial]? = some (.step work.cmd)
  slot : work.bufferSlot = config.ownedSlot work.cmd

/-- A result for the message at a position, with the slot that it gives back. -/
structure ResultFits (config : LaneConfig) (sent : List Message) (i : Nat) (result : StepResult)
    (slot : Option Slot) : Prop where
  answered : answered sent i = true
  slot : slot = slotAt config sent i
  echo : ∀ cmd, sent[i]? = some (.step cmd) → result.stepId = cmd.stepId

def WorkItem.Fits (config : LaneConfig) (sent : List Message) : WorkItem → Prop
  | .shutdown serial => Stops sent serial
  | .failure serial error => sent[serial]? = some (.undecodable error)
  | .profile serial active => sent[serial]? = some (.profile active)
  | .step work => work.Fits config sent

def OutputItem.Fits (config : LaneConfig) (sent : List Message) : OutputItem → Prop
  | .shutdown serial => Stops sent serial
  | .profileBarrier serial active => sent[serial]? = some (.profile active)
  | .completed serial result slot => ResultFits config sent serial result slot
  | .pending work slot => work.Fits config sent ∧ work.bufferSlot = some slot

/-- A command that is not prepared yet. -/
def StepWork.Unprepared (sent : List Message) (work : StepWork) : Prop :=
  sent[work.serial]? = some (.step work.cmd) ∧ work.prepared = none

def PrepareLane.Fits (config : LaneConfig) (sent : List Message) : PrepareLane → Prop
  | .reading | .done => True
  | .snapshotting work _ | .publishing work _ => work.Unprepared sent
  | .acquiring work slot | .preparing work slot =>
    work.Unprepared sent ∧ config.ownedSlot work.cmd = some slot
  | .putting item => item.Fits config sent

def DeviceLane.Fits (config : LaneConfig) (sent : List Message) : DeviceLane → Prop
  | .taking | .awaitingProfile | .done => True
  | .releasing work | .comparing work _ | .poppingEntry work _ _ | .poppingTokens work _ _
  | .registering work _ | .executing work | .computing work | .recording work _ _ =>
    work.Fits config sent

def ReclaimLane.Fits (config : LaneConfig) (sent : List Message) : ReclaimLane → Prop
  | .taking | .done => True
  | .profiling serial active => sent[serial]? = some (.profile active)
  | .reclaiming work slot | .recording work slot _ _ =>
    work.Fits config sent ∧ work.bufferSlot = some slot
  | .publishing serial result slot => ResultFits config sent serial result slot
  | .emitting serial result => ResultFits config sent serial result (slotAt config sent serial)

section Fits
variable {config : LaneConfig} {sent : List Message} {work : StepWork}

theorem StepWork.Fits.slotAt (h : work.Fits config sent) :
    work.bufferSlot = slotAt config sent work.serial := by
  rw [Server.slotAt, h.cmd]
  exact h.slot

/-- Every result built for a command fits. -/
theorem StepWork.Fits.result (h : work.Fits config sent) {result : StepResult}
    (hid : result.stepId = work.cmd.stepId) :
    ResultFits config sent work.serial result work.bufferSlot := by
  refine ⟨?_, h.slotAt, fun cmd hcmd => ?_⟩
  · rw [Server.answered, h.cmd]
  · rw [h.cmd, Option.some.injEq, Message.step.injEq] at hcmd
    rw [hid, hcmd]

theorem StepWork.Fits.reclaimed (h : work.Fits config sent) {slot : Slot} {result : StepResult}
    (hslot : work.bufferSlot = some slot) (hid : result.stepId = work.cmd.stepId) :
    ResultFits config sent work.serial result (some slot) :=
  hslot ▸ h.result hid

theorem StepWork.Fits.failed (h : work.Fits config sent) (error : String) :
    (work.failed error).Fits config sent :=
  h.result rfl

theorem Message.item_fits {m : Message} {item : WorkItem} {i : Nat} (hm : sent[i]? = some m)
    (hitem : m.item i = some item) : item.Fits config sent := by
  cases m with
  | step cmd => cases hitem
  | profile active =>
    cases hitem
    exact hm
  | shutdown =>
    cases hitem
    exact .inl hm
  | undecodable error =>
    cases hitem
    exact hm
  | closed =>
    cases hitem
    exact .inr hm

theorem splitSlot_bufferSlot {slot : Slot} (h : config.splitSlot work = some slot) :
    work.bufferSlot = some slot := by
  unfold LaneConfig.splitSlot at h
  split at h
  · next heq =>
    split at h
    · cases h
      rw [StepWork.bufferSlot, heq]
      rfl
    · cases h
  · cases h

end Fits

namespace Lanes
variable {config : LaneConfig} {s s' : Lanes} {op : LaneOp}

structure Fitting (config : LaneConfig) (s : Lanes) : Prop where
  prepare : s.prepare.Fits config s.sent
  workQueue : ∀ item ∈ s.workQueue, item.Fits config s.sent
  device : s.device.Fits config s.sent
  outputQueue : ∀ item ∈ s.outputQueue, item.Fits config s.sent
  reclaim : s.reclaim.Fits config s.sent

theorem forall_mem_concat {α : Type} {P : α → Prop} {l : List α} {a : α} (hl : ∀ x ∈ l, P x)
    (ha : P a) : ∀ x ∈ l ++ [a], P x :=
  List.forall_mem_append.mpr ⟨hl, List.forall_mem_singleton.mpr ha⟩

theorem published_fits {work : StepWork} {sent : List Message} (h : work.Unprepared sent) :
    (published config work).Fits config sent := by
  unfold Lanes.published
  split
  · next hslot => exact ⟨h, hslot⟩
  · next hslot =>
    refine ⟨h.1, ?_⟩
    rw [StepWork.bufferSlot, h.2, hslot]
    rfl

/-- What the device lane starts with and what it hands on at once fit the item that it took. -/
theorem taken_fits {item : WorkItem} {sent : List Message} (h : item.Fits config sent) :
    (taken item).1.Fits config sent ∧ ∀ x ∈ (taken item).2, x.Fits config sent := by
  cases item with
  | step work =>
    refine ⟨?_, by simp [taken]⟩
    dsimp only [taken]
    split <;> exact h
  | shutdown serial => exact ⟨trivial, List.forall_mem_singleton.mpr h⟩
  | profile serial active => exact ⟨trivial, List.forall_mem_singleton.mpr h⟩
  | failure serial error =>
    refine ⟨trivial, List.forall_mem_singleton.mpr ⟨?_, ?_, fun cmd hcmd => ?_⟩⟩
    · rw [answered, show sent[serial]? = _ from h]
    · rw [slotAt, show sent[serial]? = _ from h]
    · rw [show sent[serial]? = _ from h] at hcmd
      cases hcmd

theorem Fitting.step (h : Fitting config s) (hstep : Step config s op s') : Fitting config s' := by
  obtain ⟨hp, hw, hd, ho, hr⟩ := h
  cases hstep with
  | readStep hpre hm => exact ⟨⟨hm, rfl⟩, hw, hd, ho, hr⟩
  | readOther hpre hm hitem => exact ⟨Message.item_fits hm hitem, hw, hd, ho, hr⟩
  | published hpre =>
    rw [hpre] at hp
    exact ⟨published_fits hp, hw, hd, ho, hr⟩
  | prepareDecode hpre =>
    rw [hpre] at hp
    exact ⟨⟨hp.1.1, hp.2.symm⟩, hw, hd, ho, hr⟩
  | putWork hpre hlt hne =>
    rw [hpre] at hp
    exact ⟨trivial, forall_mem_concat hw hp, hd, ho, hr⟩
  | putShutdown hpre hlt =>
    rw [hpre] at hp
    exact ⟨trivial, forall_mem_concat hw hp, hd, ho, hr⟩
  | @takeWork item queue hdev hq =>
    rw [hq] at hw
    obtain ⟨hdev', hout⟩ := taken_fits (hw item (by simp))
    exact ⟨hp, fun x hx => hw x (by simp [hx]), hdev', List.forall_mem_append.mpr ⟨ho, hout⟩, hr⟩
  | releaseFailed hdev =>
    rw [hdev] at hd
    exact ⟨hp, hw, trivial, forall_mem_concat ho (StepWork.Fits.failed hd _), hr⟩
  | dispatchDecode hdev hslot htrack =>
    rw [hdev] at hd
    exact ⟨hp, hw, trivial, forall_mem_concat ho ⟨hd, splitSlot_bufferSlot hslot⟩, hr⟩
  | dispatchReused hdev hslot htrack =>
    rw [hdev] at hd
    exact ⟨hp, hw, trivial, forall_mem_concat ho (StepWork.Fits.failed hd _), hr⟩
  | dispatchFailed hdev hslot =>
    rw [hdev] at hd
    exact ⟨hp, hw, trivial, forall_mem_concat ho (StepWork.Fits.failed hd _), hr⟩
  | startFailed hdev hslot hstart =>
    rw [hdev] at hd
    exact ⟨hp, hw, trivial, forall_mem_concat ho (StepWork.Fits.failed hd _), hr⟩
  | failStep hdev hslot =>
    rw [hdev] at hd
    exact ⟨hp, hw, trivial, forall_mem_concat ho (StepWork.Fits.failed hd _), hr⟩
  | computeFailed hdev =>
    rw [hdev] at hd
    exact ⟨hp, hw, trivial, forall_mem_concat ho (StepWork.Fits.failed hd _), hr⟩
  | recordedComputed hdev =>
    rw [hdev] at hd
    exact ⟨hp, hw, trivial, forall_mem_concat ho (StepWork.Fits.result hd rfl), hr⟩
  | @takeOutput item queue hrec hq hne =>
    rw [hq] at ho
    have hitem := ho item (by simp)
    refine ⟨hp, hw, hd, fun x hx => ho x (by simp [hx]), ?_⟩
    cases item with
    | shutdown serial => trivial
    | _ => exact hitem
  | takeShutdown hrec hq =>
    rw [hq] at ho
    exact ⟨hp, hw, hd, fun x hx => ho x (by simp [hx]), trivial⟩
  | profile hrec => exact ⟨hp, hw, hd, ho, trivial⟩
  | reclaimFailed hrec =>
    rw [hrec] at hr
    exact ⟨hp, hw, hd, ho, StepWork.Fits.reclaimed hr.1 hr.2 rfl⟩
  | recordedReclaimed hrec =>
    rw [hrec] at hr
    exact ⟨hp, hw, hd, ho, StepWork.Fits.reclaimed hr.1 hr.2 rfl⟩
  | releaseSlot hrec =>
    rw [hrec] at hr
    exact ⟨hp, hw, hd, ho, ⟨hr.answered, rfl, hr.echo⟩⟩
  | keepSlot hrec =>
    rw [hrec] at hr
    exact ⟨hp, hw, hd, ho, ⟨hr.answered, rfl, hr.echo⟩⟩
  | putResult hrec => exact ⟨hp, hw, hd, ho, trivial⟩
  | _ =>
    simp only [*] at hp hd hr
    exact ⟨by assumption, hw, by assumption, ho, by assumption⟩

end Lanes

/-- The slots that the first messages use. -/
def slotUses (config : LaneConfig) (sent : List Message) (n : Nat) : List (Nat × Slot) :=
  (List.range n).filterMap fun i => (slotAt config sent i).map (i, ·)

/-- How many of the first messages use a slot. -/
def useCount (config : LaneConfig) (sent : List Message) (slot : Slot) (n : Nat) : Nat :=
  Nat.count (fun i => slotAt config sent i = some slot) n

theorem slotUses_succ (config : LaneConfig) (sent : List Message) (n : Nat) :
    slotUses config sent (n + 1) =
      slotUses config sent n ++ ((slotAt config sent n).map (n, ·)).toList := by
  rw [slotUses, List.range_succ, List.filterMap_append]
  congr 1

theorem useCount_succ (config : LaneConfig) (sent : List Message) (slot : Slot) (n : Nat) :
    useCount config sent slot (n + 1) =
      useCount config sent slot n + if slotAt config sent n = some slot then 1 else 0 :=
  Nat.count_succ _ n

/-- The message of the prepare loop has not passed the acquisition yet. -/
def PrepareLane.unacquired : PrepareLane → Nat
  | .snapshotting _ _ | .publishing _ _ | .acquiring _ _ => 1
  | _ => 0

/-- The message of the reclaim lane has passed the release. -/
def ReclaimLane.settled : ReclaimLane → Nat
  | .emitting _ _ => 1
  | _ => 0

namespace Lanes
variable {config : LaneConfig} {s s' : Lanes} {op : LaneOp}

def numAcquired (s : Lanes) : Nat := s.numRead - s.prepare.unacquired

def numReleased (s : Lanes) : Nat := s.numHandled + s.reclaim.settled

structure Accounts (config : LaneConfig) (s : Lanes) : Prop where
  results : s.results.map (·.1) = (List.range s.numHandled).filter (answered s.sent)
  echoed : ∀ e ∈ s.results, ∀ cmd, s.sent[e.1]? = some (.step cmd) → e.2.stepId = cmd.stepId
  acquired : s.acquired = slotUses config s.sent s.numAcquired
  released : s.released = slotUses config s.sent s.numReleased
  semaphore : ∀ slot, s.slotOwnership slot + useCount config s.sent slot s.numAcquired =
    1 + useCount config s.sent slot s.numReleased

/-- The message in the prepare loop is the last one read. -/
theorem Ordered.last (h : Ordered s) {i : Nat} (hp : s.prepare.serials = [i]) :
    i + 1 = s.numRead := by
  have hc := h.carried
  have hle := h.handled
  rw [Lanes.carried, hp] at hc
  have hlen := congrArg List.length hc
  rw [List.length_append, List.length_range', List.length_singleton] at hlen
  obtain ⟨n, hn⟩ : ∃ n, s.numRead - s.numHandled = n + 1 := ⟨_, hlen.symm⟩
  rw [hn, List.range'_1_concat] at hc
  have := (List.append_inj' hc rfl).2
  rw [List.cons.injEq] at this
  omega

/-- The first message carried is the first that is not handled. -/
theorem Ordered.head (h : Ordered s) {i : Nat} {rest : List Nat} (hc : s.carried = i :: rest) :
    i = s.numHandled ∧ s.numHandled < s.numRead := by
  have hrange := h.carried
  rw [hc] at hrange
  cases hd : s.numRead - s.numHandled with
  | zero =>
    rw [hd] at hrange
    cases hrange
  | succ n =>
    rw [hd, List.range'_succ, List.cons.injEq] at hrange
    exact ⟨hrange.1, by omega⟩

theorem Ordered.first (h : Ordered s) {i : Nat} (hr : s.reclaim.serials = [i]) :
    i = s.numHandled ∧ s.numHandled < s.numRead := by
  have hc : s.carried = i :: (s.outputQueue.map (·.serial) ++ s.device.serials ++
      s.workQueue.map (·.serial) ++ s.prepare.serials) := by
    rw [Lanes.carried, hr]
    rfl
  exact h.head hc

namespace Accounts

/-- One more message passed the acquisition. -/
theorem acquire_one (h : Accounts config s) (hn : s'.numAcquired = s.numAcquired + 1)
    (hreleased : s'.numReleased = s.numReleased) (hsent : s'.sent = s.sent)
    (hresults : s'.results = s.results) (hhandled : s'.numHandled = s.numHandled)
    (hacq : s'.acquired =
      s.acquired ++ ((slotAt config s.sent s.numAcquired).map (s.numAcquired, ·)).toList)
    (hrel : s'.released = s.released)
    (hsem : ∀ slot, s.slotOwnership slot = s'.slotOwnership slot +
      if slotAt config s.sent s.numAcquired = some slot then 1 else 0) : Accounts config s' := by
  obtain ⟨hres, hecho, ha, hr, hs⟩ := h
  refine ⟨?_, ?_, ?_, ?_, fun slot => ?_⟩
  · rw [hresults, hhandled, hsent, hres]
  · rw [hresults, hsent]
    exact hecho
  · rw [hacq, hn, hsent, slotUses_succ, ha]
  · rw [hrel, hreleased, hsent, hr]
  · rw [hn, hreleased, hsent, useCount_succ]
    have := hs slot
    have := hsem slot
    omega

/-- One more message passed the release. -/
theorem release_one (h : Accounts config s) (hn : s'.numReleased = s.numReleased + 1)
    (hacquired : s'.numAcquired = s.numAcquired) (hsent : s'.sent = s.sent)
    (hresults : s'.results.map (·.1) =
      (List.range s'.numHandled).filter (answered s.sent))
    (hechoed : ∀ e ∈ s'.results, ∀ cmd, s.sent[e.1]? = some (.step cmd) → e.2.stepId = cmd.stepId)
    (hacq : s'.acquired = s.acquired)
    (hrel : s'.released =
      s.released ++ ((slotAt config s.sent s.numReleased).map (s.numReleased, ·)).toList)
    (hsem : ∀ slot, s'.slotOwnership slot = s.slotOwnership slot +
      if slotAt config s.sent s.numReleased = some slot then 1 else 0) : Accounts config s' := by
  obtain ⟨hres, hecho, ha, hr, hs⟩ := h
  refine ⟨?_, ?_, ?_, ?_, fun slot => ?_⟩
  · rw [hresults, hsent]
  · rw [hsent]
    exact hechoed
  · rw [hacq, hacquired, hsent, ha]
  · rw [hrel, hn, hsent, slotUses_succ, hr]
  · rw [hacquired, hn, hsent, useCount_succ]
    have := hs slot
    have := hsem slot
    omega

/-- Nothing changes but the lanes. -/
theorem move (h : Accounts config s) (ha : s'.numAcquired = s.numAcquired)
    (hr : s'.numReleased = s.numReleased) (hsent : s'.sent = s.sent)
    (hresults : s'.results = s.results) (hhandled : s'.numHandled = s.numHandled)
    (hacq : s'.acquired = s.acquired) (hrel : s'.released = s.released)
    (hsem : s'.slotOwnership = s.slotOwnership) : Accounts config s' := by
  obtain ⟨hres, hecho, hacq', hrel', hs⟩ := h
  constructor
  · rw [hresults, hhandled, hsent, hres]
  · rw [hresults, hsent]
    exact hecho
  · rw [hacq, ha, hsent, hacq']
  · rw [hrel, hr, hsent, hrel']
  · rw [ha, hr, hsent, hsem]
    exact hs

end Accounts

theorem filter_range_succ {P : Nat → Bool} (n : Nat) :
    (List.range (n + 1)).filter P = (List.range n).filter P ++ if P n then [n] else [] := by
  rw [List.range_succ, List.filter_append]
  congr 1
  cases hP : P n <;> simp [hP]

/-- A message waiting for the acquisition is the next to pass it. -/
theorem Ordered.numAcquired_eq (h : Ordered s) {i : Nat} (hp : s.prepare.serials = [i])
    (hu : s.prepare.unacquired = 1) : s.numAcquired = i := by
  have hlast := h.last hp
  rw [numAcquired, hu]
  omega

theorem numReleased_eq (hs : s.reclaim.settled = 0) : s.numReleased = s.numHandled := by
  rw [numReleased, hs, Nat.add_zero]

/-- A message waiting for the release is the next to pass it. -/
theorem Ordered.numReleased_eq (h : Ordered s) {i : Nat} (hr : s.reclaim.serials = [i])
    (hs : s.reclaim.settled = 0) : s.numReleased = i := by
  rw [Lanes.numReleased_eq hs, (h.first hr).1]

theorem update_pred (f : Slot → Nat) {slot : Slot} (hpos : 0 < f slot) (slot' : Slot) :
    f slot' = Function.update f slot (f slot - 1) slot' +
      if some slot = some slot' then 1 else 0 := by
  by_cases hs : slot = slot'
  · subst hs
    rw [Function.update_self, if_pos rfl]
    omega
  · have hne : slot' ≠ slot := fun he => hs he.symm
    rw [Function.update_of_ne hne, if_neg fun he => hs (Option.some.inj he), Nat.add_zero]

theorem update_succ (f : Slot → Nat) (slot slot' : Slot) :
    Function.update f slot (f slot + 1) slot' =
      f slot' + if some slot = some slot' then 1 else 0 := by
  by_cases hs : slot = slot'
  · subst hs
    rw [Function.update_self, if_pos rfl]
  · have hne : slot' ≠ slot := fun he => hs he.symm
    rw [Function.update_of_ne hne, if_neg fun he => hs (Option.some.inj he), Nat.add_zero]

namespace Accounts

/-- A message other than a command uses no slot. -/
theorem readOther (h : Accounts config s) {m : Message} {item : WorkItem}
    (hp : s.prepare = .reading) (hm : s.sent[s.numRead]? = some m)
    (hitem : m.item s.numRead = some item) :
    Accounts config { s with numRead := s.numRead + 1, prepare := .putting item } := by
  have hnum : s.numAcquired = s.numRead := by simp [numAcquired, hp, PrepareLane.unacquired]
  have hat : slotAt config s.sent s.numAcquired = none := by
    rw [hnum, slotAt, hm]
    cases m with
    | step cmd => cases hitem
    | _ => rfl
  refine h.acquire_one ?_ rfl rfl rfl rfl ?_ rfl ?_
  · rw [hnum]
    rfl
  · simp [hat]
  · simp [hat]

/-- A published command waits for its slot, or has none to wait for. -/
theorem published (ho : Ordered s) (hf : Fitting config s) (h : Accounts config s)
    {work : StepWork} (hp : s.prepare = .publishing work []) :
    Accounts config { s with prepare := Lanes.published config work } := by
  have hnum := ho.numAcquired_eq (i := work.serial) (by rw [hp]; rfl) (by rw [hp]; rfl)
  have hlast := ho.last (i := work.serial) (by rw [hp]; rfl)
  have hfit := hf.prepare
  rw [hp] at hfit
  have hat : slotAt config s.sent s.numAcquired = config.ownedSlot work.cmd := by
    rw [hnum, slotAt, hfit.1]
  cases hslot : config.ownedSlot work.cmd with
  | some slot =>
    refine h.move ?_ rfl rfl rfl rfl rfl rfl rfl
    simp [numAcquired, hp, PrepareLane.unacquired, Lanes.published, hslot]
  | none =>
    refine h.acquire_one ?_ rfl rfl rfl rfl ?_ rfl ?_
    · rw [hnum]
      simp only [numAcquired, PrepareLane.unacquired, Lanes.published, hslot]
      omega
    · simp [hat, hslot]
    · simp [hat, hslot]

theorem acquire (ho : Ordered s) (hf : Fitting config s) (h : Accounts config s)
    {work : StepWork} {slot : Slot} (hp : s.prepare = .acquiring work slot)
    (hpos : 0 < s.slotOwnership slot) :
    Accounts config { s with
      prepare := .preparing work slot
      slotOwnership := Function.update s.slotOwnership slot (s.slotOwnership slot - 1)
      acquired := s.acquired ++ [(work.serial, slot)] } := by
  have hnum := ho.numAcquired_eq (i := work.serial) (by rw [hp]; rfl) (by rw [hp]; rfl)
  have hlast := ho.last (i := work.serial) (by rw [hp]; rfl)
  have hfit := hf.prepare
  rw [hp] at hfit
  have hat : slotAt config s.sent s.numAcquired = some slot := by
    rw [hnum, slotAt, hfit.1.1]
    exact hfit.2
  refine h.acquire_one ?_ rfl rfl rfl rfl ?_ rfl fun slot' => ?_
  · rw [hnum]
    simp only [numAcquired, PrepareLane.unacquired]
    omega
  · rw [hat, hnum]
    rfl
  · rw [hat]
    exact update_pred _ hpos slot'

/-- A message without an answer uses no slot, and the reclaim lane handles it at once. -/
theorem unanswered (h : Accounts config s) (hs : s.reclaim.settled = 0)
    (hat : slotAt config s.sent s.numHandled = none) (hans : answered s.sent s.numHandled = false)
    (hhandled : s'.numHandled = s.numHandled + 1) (hs' : s'.reclaim.settled = 0)
    (hacquired : s'.numAcquired = s.numAcquired) (hsent : s'.sent = s.sent)
    (hresults : s'.results = s.results) (hacq : s'.acquired = s.acquired)
    (hrel : s'.released = s.released) (hsem : s'.slotOwnership = s.slotOwnership) :
    Accounts config s' := by
  have hnum := numReleased_eq hs
  rw [← hnum] at hat
  refine h.release_one ?_ hacquired hsent ?_ ?_ hacq ?_ ?_
  · rw [numReleased_eq hs', hhandled, hnum]
  · rw [hhandled, filter_range_succ, hans, hresults, h.results]
    simp
  · rw [hresults]
    exact h.echoed
  · simp [hat, hrel]
  · simp [hat, hsem]

theorem takeShutdown (ho : Ordered s) (hf : Fitting config s) (h : Accounts config s)
    {serial : Nat} {queue : List OutputItem} (hr : s.reclaim = .taking)
    (hq : s.outputQueue = .shutdown serial :: queue) :
    Accounts config { s with
      outputQueue := queue, reclaim := .done, numHandled := s.numHandled + 1 } := by
  obtain ⟨hi, -⟩ := ho.head (i := serial) (by
    rw [carried, hr, hq]
    rfl)
  have hfit : Stops s.sent serial := hf.outputQueue (.shutdown serial) (by rw [hq]; simp)
  refine h.unanswered ?_ ?_ ?_ rfl rfl rfl rfl rfl rfl rfl rfl
  · rw [hr]
    rfl
  · rw [← hi, slotAt]
    rcases hfit with hfit | hfit <;> rw [hfit]
  · rw [← hi, answered]
    rcases hfit with hfit | hfit <;> rw [hfit]

theorem profile (ho : Ordered s) (hf : Fitting config s) (h : Accounts config s)
    {serial : Nat} {active : Bool} (hr : s.reclaim = .profiling serial active) :
    Accounts config { s with
      reclaim := .taking, profileCompleted := true, numHandled := s.numHandled + 1 } := by
  obtain ⟨hi, -⟩ := ho.first (i := serial) (by rw [hr]; rfl)
  have hfit := hf.reclaim
  rw [hr] at hfit
  have hfit : s.sent[serial]? = some (.profile active) := hfit
  refine h.unanswered ?_ ?_ ?_ rfl rfl rfl rfl rfl rfl rfl rfl
  · rw [hr]
    rfl
  · rw [← hi, slotAt, hfit]
  · rw [← hi, answered, hfit]

theorem releaseSlot (ho : Ordered s) (hf : Fitting config s) (h : Accounts config s)
    {serial : Nat} {result : StepResult} {slot : Slot}
    (hr : s.reclaim = .publishing serial result (some slot)) :
    Accounts config { s with
      reclaim := .emitting serial result
      slotOwnership := Function.update s.slotOwnership slot (s.slotOwnership slot + 1)
      released := s.released ++ [(serial, slot)] } := by
  have hnum := ho.numReleased_eq (i := serial) (by rw [hr]; rfl) (by rw [hr]; rfl)
  have hfit := hf.reclaim
  rw [hr] at hfit
  have hat : slotAt config s.sent s.numReleased = some slot := by rw [hnum]; exact hfit.slot.symm
  refine h.release_one ?_ rfl rfl h.results h.echoed rfl ?_ fun slot' => ?_
  · simp [numReleased, hr, ReclaimLane.settled]
  · rw [hat, hnum]
    rfl
  · rw [hat]
    exact update_succ _ slot slot'

theorem keepSlot (ho : Ordered s) (hf : Fitting config s) (h : Accounts config s)
    {serial : Nat} {result : StepResult} (hr : s.reclaim = .publishing serial result none) :
    Accounts config { s with reclaim := .emitting serial result } := by
  have hnum := ho.numReleased_eq (i := serial) (by rw [hr]; rfl) (by rw [hr]; rfl)
  have hfit := hf.reclaim
  rw [hr] at hfit
  have hat : slotAt config s.sent s.numReleased = none := by rw [hnum]; exact hfit.slot.symm
  refine h.release_one ?_ rfl rfl h.results h.echoed rfl ?_ ?_
  · simp [numReleased, hr, ReclaimLane.settled]
  · simp [hat]
  · simp [hat]

/-- The result that leaves is the next one owed. -/
theorem putResult (ho : Ordered s) (hf : Fitting config s) (h : Accounts config s)
    {serial : Nat} {result : StepResult} (hr : s.reclaim = .emitting serial result) :
    Accounts config { s with
      reclaim := .taking
      results := s.results ++ [(serial, result)]
      numHandled := s.numHandled + 1 } := by
  obtain ⟨hi, -⟩ := ho.first (i := serial) (by rw [hr]; rfl)
  have hfit := hf.reclaim
  rw [hr] at hfit
  have hrel : s.numHandled + 1 = s.numReleased := by simp [numReleased, hr, ReclaimLane.settled]
  obtain ⟨hres, hecho, ha, hr', hs⟩ := h
  refine ⟨?_, ?_, ha, ?_, ?_⟩
  · show (s.results ++ [(serial, result)]).map (·.1) =
      (List.range (s.numHandled + 1)).filter (answered s.sent)
    rw [filter_range_succ, List.map_append, hres, ← hi, hfit.answered]
    rfl
  · exact forall_mem_concat hecho hfit.echo
  · rw [hr', ← hrel]
    rfl
  · intro slot
    have := hs slot
    rw [← hrel] at this
    exact this

end Accounts

theorem Accounts.step (ho : Ordered s) (hf : Fitting config s) (h : Accounts config s)
    (hstep : Step config s op s') : Accounts config s' := by
  cases hstep with
  | readStep hp hm =>
    refine h.move ?_ rfl rfl rfl rfl rfl rfl rfl
    simp [numAcquired, hp, PrepareLane.unacquired]
  | readOther hp hm hitem => exact h.readOther hp hm hitem
  | published hp => exact h.published ho hf hp
  | acquire hp hpos => exact h.acquire ho hf hp hpos
  | prepareDecode hp | putWork hp | putShutdown hp | snapshotted hp | snapshot hp | publish hp =>
    refine h.move ?_ rfl rfl rfl rfl rfl rfl rfl
    simp [numAcquired, hp, PrepareLane.unacquired]
  | @takeOutput item queue hr hq hne =>
    refine h.move rfl ?_ rfl rfl rfl rfl rfl rfl
    cases item <;> simp [numReleased, hr, ReclaimLane.settled, collected]
  | takeShutdown hr hq => exact h.takeShutdown ho hf hr hq
  | profile hr => exact h.profile ho hf hr
  | releaseSlot hr => exact h.releaseSlot ho hf hr
  | keepSlot hr => exact h.keepSlot ho hf hr
  | putResult hr => exact h.putResult ho hf hr
  | _ =>
    refine h.move rfl ?_ rfl rfl rfl rfl rfl rfl
    simp [numReleased, ReclaimLane.settled, *]

section Order
variable {i j : Nat}

theorem Ordered.pairwise (h : Ordered s) : s.carried.Pairwise (· < ·) := by
  rw [h.carried]
  exact List.pairwise_lt_range'

theorem Ordered.mem_carried (h : Ordered s) (hi : i ∈ s.carried) :
    s.numHandled ≤ i ∧ i < s.numRead := by
  have hle := h.handled
  rw [h.carried, List.mem_range'_1] at hi
  omega

theorem Ordered.released_le (h : Ordered s) : s.numReleased ≤ s.numAcquired := by
  have hlen := congrArg List.length h.carried
  have hle := h.handled
  have hr : s.reclaim.settled ≤ s.reclaim.serials.length := by
    cases s.reclaim <;> simp [ReclaimLane.settled, ReclaimLane.serials]
  have hp : s.prepare.unacquired ≤ s.prepare.serials.length := by
    cases s.prepare <;> simp [PrepareLane.unacquired, PrepareLane.serials]
  simp only [Lanes.carried, List.length_append, List.length_range'] at hlen
  unfold numReleased numAcquired
  omega

theorem Ordered.device_acquired (h : Ordered s) (hj : j ∈ s.device.serials) :
    j < s.numAcquired := by
  have hmem := h.mem_carried (i := j) (by simp [Lanes.carried, hj])
  have hpair := h.pairwise
  rw [Lanes.carried, List.pairwise_append] at hpair
  unfold numAcquired
  cases hp : s.prepare.serials with
  | nil =>
    have : s.prepare.unacquired = 0 := by
      revert hp
      cases s.prepare <;> simp [PrepareLane.unacquired, PrepareLane.serials]
    omega
  | cons p rest =>
    have hrest : rest = [] := by
      revert hp
      cases s.prepare <;> simp [PrepareLane.serials]
    subst hrest
    have hlast := h.last hp
    have hlt := hpair.2.2 j (by simp [hj]) p (by simp [hp])
    have : s.prepare.unacquired ≤ 1 := by
      cases s.prepare <;> simp [PrepareLane.unacquired]
    omega

/-- What is behind the reclaim lane has not been released. -/
theorem Ordered.unreleased (h : Ordered s) (hi : i ∈ s.carried)
    (hne : s.reclaim.settled = 0 ∨ i ∉ s.reclaim.serials) : s.numReleased ≤ i := by
  have hmem := h.mem_carried hi
  unfold numReleased
  by_cases h0 : s.reclaim.settled = 0
  · omega
  · have hout := hne.resolve_left h0
    cases hr : s.reclaim.serials with
    | nil =>
      exfalso
      revert h0 hr
      cases s.reclaim <;> simp [ReclaimLane.settled, ReclaimLane.serials]
    | cons q rest =>
      have hrest : rest = [] := by
        revert hr
        cases s.reclaim <;> simp [ReclaimLane.serials]
      subst hrest
      obtain ⟨hq, -⟩ := h.first hr
      rw [hr, List.mem_singleton] at hout
      have : s.reclaim.settled ≤ 1 := by
        cases s.reclaim <;> simp [ReclaimLane.settled]
      omega

/-- Two messages that use a slot do not own it at the same time. -/
theorem Accounts.sole (h : Accounts config s) {slot : Slot}
    (hi : slotAt config s.sent i = some slot) (hj : slotAt config s.sent j = some slot)
    (hlow : s.numReleased ≤ i) (hij : i < j) (hhigh : j < s.numAcquired) : False := by
  have hsem := h.semaphore slot
  have hmono : Monotone (useCount config s.sent slot) := Nat.count_monotone _
  have hci := useCount_succ config s.sent slot i
  have hcj := useCount_succ config s.sent slot j
  rw [if_pos hi] at hci
  rw [if_pos hj] at hcj
  have h1 := hmono hlow
  have h2 := hmono (show i + 1 ≤ j by omega)
  have h3 := hmono (show j + 1 ≤ s.numAcquired by omega)
  omega

end Order

/-- A dispatch in the table belongs to a command whose output is not reclaimed yet. -/
inductive Awaited (s : Lanes) (slot : Slot) (i : Nat) : Prop
  | queued {work : StepWork} : OutputItem.pending work slot ∈ s.outputQueue → work.serial = i →
      Awaited s slot i
  | reclaiming {work : StepWork} : s.reclaim = .reclaiming work slot → work.serial = i →
      Awaited s slot i
  | computing {work : StepWork} : s.device = .computing work → work.bufferSlot = some slot →
      work.serial = i → Awaited s slot i

def Tracked (s : Lanes) : Prop :=
  ∀ slot i, s.pendingMtpDispatches slot = some i → Awaited s slot i

theorem Awaited.mono {slot : Slot} {i : Nat} (h : Awaited s slot i)
    (hout : ∀ item ∈ s.outputQueue, item ∈ s'.outputQueue)
    (hrec : ∀ work, s.reclaim = .reclaiming work slot → s'.reclaim = .reclaiming work slot)
    (hdev : ∀ work, s.device = .computing work → s'.device = .computing work) :
    Awaited s' slot i := by
  cases h with
  | queued hmem hi => exact .queued (hout _ hmem) hi
  | reclaiming hr hi => exact .reclaiming (hrec _ hr) hi
  | computing hd hslot hi => exact .computing (hdev _ hd) hslot hi

theorem forget_some {table : Slot → Option Nat} {slot slot' : Slot} {i j : Nat}
    (h : forgetPendingMtpDispatch table slot i slot' = some j) :
    table slot' = some j ∧ ¬ (slot' = slot ∧ j = i) := by
  unfold forgetPendingMtpDispatch at h
  split at h
  · next heq =>
    by_cases hs : slot' = slot
    · subst hs
      rw [Function.update_self] at h
      cases h
    · rw [Function.update_of_ne hs] at h
      exact ⟨h, fun hc => hs hc.1⟩
  · next hne =>
    refine ⟨h, ?_⟩
    rintro ⟨rfl, rfl⟩
    exact hne h

theorem work_forget_some {work : StepWork} {table : Slot → Option Nat} {slot : Slot} {j : Nat}
    (h : work.forget table slot = some j) :
    table slot = some j ∧ ¬ (work.bufferSlot = some slot ∧ j = work.serial) := by
  unfold StepWork.forget at h
  unfold StepWork.bufferSlot
  cases hp : work.prepared with
  | none =>
    rw [hp] at h
    exact ⟨h, fun hc => by cases hc.1⟩
  | some prepared =>
    rw [hp] at h
    obtain ⟨hold, hne⟩ := forget_some h
    refine ⟨hold, fun hc => hne ⟨?_, hc.2⟩⟩
    simpa using hc.1.symm

theorem track_some {table table' : Slot → Option Nat} {slot slot' : Slot} {i j : Nat}
    (ht : trackPendingMtpDispatch table slot i = .ok table') (h : table' slot' = some j) :
    table slot' = some j ∨ (slot' = slot ∧ j = i) := by
  unfold trackPendingMtpDispatch at ht
  split at ht
  · cases ht
  · cases ht
    by_cases hs : slot' = slot
    · subst hs
      rw [Function.update_self, Option.some.injEq] at h
      exact .inr ⟨rfl, h.symm⟩
    · rw [Function.update_of_ne hs] at h
      exact .inl h

theorem start_some {work : StepWork} {table table' : Slot → Option Nat} {slot : Slot} {j : Nat}
    (hs : work.start config table = .ok table') (h : table' slot = some j) :
    table slot = some j ∨ (work.bufferSlot = some slot ∧ j = work.serial) := by
  unfold StepWork.start at hs
  split at hs
  · cases hs
    cases h
  · split at hs
    · cases hs
      exact .inl h
    · cases hs
    · next slot' hprep =>
      split at hs
      · rcases track_some hs h with hold | ⟨rfl, rfl⟩
        · exact .inl hold
        · exact .inr ⟨by rw [StepWork.bufferSlot, hprep]; rfl, rfl⟩
      · cases hs
        exact .inl h

theorem Tracked.step (h : Tracked s) (hstep : Step config s op s') : Tracked s' := by
  intro slot i hi
  cases hstep with
  | takeWork hd hq =>
    refine (h slot i hi).mono (fun item hitem => List.mem_append_left _ hitem) (fun _ => id) ?_
    intro work hw
    rw [hd] at hw
    cases hw
  | @dispatchDecode work slot' table hd hslot htrack =>
    rcases track_some htrack hi with hold | ⟨rfl, rfl⟩
    · refine (h slot i hold).mono (fun item hitem => List.mem_append_left _ hitem)
        (fun _ => id) ?_
      intro work' hw
      rw [hd] at hw
      cases hw
    · exact .queued (List.mem_append_right _ (List.mem_singleton.mpr rfl)) rfl
  | @start work table hd hslot hstart =>
    rcases start_some hstart hi with hold | ⟨hbuf, rfl⟩
    · refine (h slot i hold).mono (fun item => id) (fun _ => id) ?_
      intro work' hw
      rw [hd] at hw
      cases hw
    · exact .computing rfl hbuf rfl
  | @compute work newTokens hd htok =>
    obtain ⟨hold, hne⟩ := work_forget_some hi
    cases h slot i hold with
    | queued hmem hi => exact .queued hmem hi
    | reclaiming hr hi => exact .reclaiming hr hi
    | computing hd' hbuf hser =>
      rw [hd] at hd'
      cases hd'
      exact absurd ⟨hbuf, hser.symm⟩ hne
  | @computeFailed work error hd =>
    obtain ⟨hold, hne⟩ := work_forget_some hi
    cases h slot i hold with
    | queued hmem hi => exact .queued (List.mem_append_left _ hmem) hi
    | reclaiming hr hi => exact .reclaiming hr hi
    | computing hd' hbuf hser =>
      rw [hd] at hd'
      cases hd'
      exact absurd ⟨hbuf, hser.symm⟩ hne
  | @takeOutput item queue hr hq hne =>
    cases h slot i hi with
    | @queued work hmem hser =>
      rw [hq, List.mem_cons] at hmem
      rcases hmem with rfl | hmem
      · exact .reclaiming rfl hser
      · exact .queued hmem hser
    | reclaiming hr' hser =>
      rw [hr] at hr'
      cases hr'
    | computing hd hbuf hser => exact .computing hd hbuf hser
  | @takeShutdown serial queue hr hq =>
    cases h slot i hi with
    | @queued work hmem hser =>
      rw [hq, List.mem_cons] at hmem
      rcases hmem with hcons | hmem
      · cases hcons
      · exact .queued hmem hser
    | reclaiming hr' hser =>
      rw [hr] at hr'
      cases hr'
    | computing hd hbuf hser => exact .computing hd hbuf hser
  | @reclaimDecode work slot' newTokens hr htok =>
    obtain ⟨hold, hne⟩ := forget_some hi
    cases h slot i hold with
    | queued hmem hser => exact .queued hmem hser
    | reclaiming hr' hser =>
      rw [hr] at hr'
      cases hr'
      exact absurd ⟨rfl, hser.symm⟩ hne
    | computing hd hbuf hser => exact .computing hd hbuf hser
  | @reclaimFailed work slot' error hr =>
    obtain ⟨hold, hne⟩ := forget_some hi
    cases h slot i hold with
    | queued hmem hser => exact .queued hmem hser
    | reclaiming hr' hser =>
      rw [hr] at hr'
      cases hr'
      exact absurd ⟨rfl, hser.symm⟩ hne
    | computing hd hbuf hser => exact .computing hd hbuf hser
  | _ =>
    refine (h slot i hi).mono ?_ ?_ ?_ <;> simp +contextual [*]

/-- How a lane that waits or has ended is going to be woken up or was ended. -/
structure Waking (s : Lanes) : Prop where
  prepare : s.prepare = .done → (∃ i, WorkItem.shutdown i ∈ s.workQueue) ∨ s.device = .done
  device : s.device = .done → (∃ i, OutputItem.shutdown i ∈ s.outputQueue) ∨ s.reclaim = .done
  reclaim : s.reclaim = .done → ∃ i < s.numHandled, Stops s.sent i
  profile : s.device = .awaitingProfile → s.profileCompleted = true ∨
    (∃ i active, OutputItem.profileBarrier i active ∈ s.outputQueue) ∨
    ∃ i active, s.reclaim = .profiling i active

theorem Waking.step (ho : Ordered s) (hf : Fitting config s) (h : Waking s)
    (hstep : Step config s op s') : Waking s' := by
  obtain ⟨hp, hd, hr, hprof⟩ := h
  cases hstep with
  | readStep => exact ⟨nofun, hd, hr, hprof⟩
  | readOther => exact ⟨nofun, hd, hr, hprof⟩
  | snapshot => exact ⟨nofun, hd, hr, hprof⟩
  | snapshotted => exact ⟨nofun, hd, hr, hprof⟩
  | publish => exact ⟨nofun, hd, hr, hprof⟩
  | published =>
    refine ⟨?_, hd, hr, hprof⟩
    dsimp only [Lanes.published]
    split <;> exact nofun
  | acquire => exact ⟨nofun, hd, hr, hprof⟩
  | prepareDecode => exact ⟨nofun, hd, hr, hprof⟩
  | putWork => exact ⟨nofun, hd, hr, hprof⟩
  | @putShutdown serial => exact ⟨fun _ => .inl ⟨serial, by simp⟩, hd, hr, hprof⟩
  | @takeWork item queue hdev hq =>
    refine ⟨fun hdone => ?_, fun hdone => ?_, hr, fun hwait => ?_⟩
    · rcases hp hdone with ⟨i, hmem⟩ | hdd
      · rw [hq, List.mem_cons] at hmem
        rcases hmem with rfl | hmem
        · exact .inr rfl
        · exact .inl ⟨i, hmem⟩
      · rw [hdev] at hdd
        cases hdd
    · cases item with
      | shutdown serial => exact .inl ⟨serial, by simp [taken]⟩
      | failure serial error => cases hdone
      | profile serial active => cases hdone
      | step work =>
        dsimp only [taken] at hdone
        split at hdone <;> cases hdone
    · cases item with
      | shutdown serial => cases hwait
      | failure serial error => cases hwait
      | profile serial active => exact .inr (.inl ⟨serial, active, by simp [taken]⟩)
      | step work =>
        dsimp only [taken] at hwait
        split at hwait <;> cases hwait
  | @takeOutput item queue hrec hq hne =>
    refine ⟨hp, fun hdone => ?_, fun hdone => ?_, fun hwait => ?_⟩
    · rcases hd hdone with ⟨i, hmem⟩ | hrr
      · rw [hq, List.mem_cons] at hmem
        rcases hmem with rfl | hmem
        · exact absurd rfl (hne i)
        · exact .inl ⟨i, hmem⟩
      · rw [hrec] at hrr
        cases hrr
    · cases item with
      | shutdown serial => exact absurd rfl (hne serial)
      | _ => cases hdone
    · rcases hprof hwait with hc | ⟨i, active, hmem⟩ | ⟨i, active, hrr⟩
      · exact .inl hc
      · rw [hq, List.mem_cons] at hmem
        rcases hmem with rfl | hmem
        · exact .inr (.inr ⟨i, active, rfl⟩)
        · exact .inr (.inl ⟨i, active, hmem⟩)
      · rw [hrec] at hrr
        cases hrr
  | @takeShutdown serial queue hrec hq =>
    obtain ⟨hi, -⟩ := ho.head (i := serial) (by
      rw [carried, hrec, hq]
      rfl)
    have hfit := hf.outputQueue (.shutdown serial) (by rw [hq]; simp)
    refine ⟨hp, fun _ => .inr rfl, fun _ => ⟨serial, ?_, hfit⟩, fun hwait => ?_⟩
    · show serial < s.numHandled + 1
      omega
    · rcases hprof hwait with hc | ⟨i, active, hmem⟩ | ⟨i, active, hrr⟩
      · exact .inl hc
      · rw [hq, List.mem_cons] at hmem
        rcases hmem with hcons | hmem
        · cases hcons
        · exact .inr (.inl ⟨i, active, hmem⟩)
      · rw [hrec] at hrr
        cases hrr
  | profile hrec =>
    refine ⟨hp, fun hdone => ?_, nofun, fun _ => .inl rfl⟩
    rcases hd hdone with hmem | hrr
    · exact .inl hmem
    · rw [hrec] at hrr
      cases hrr
  | _ =>
    refine ⟨?_, ?_, ?_, ?_⟩ <;> simp_all

/-- A command that has no result yet and that the worker is not told to drop. -/
structure Pending (s : Lanes) (i : Nat) : Prop where
  answered : answered s.sent i = true
  unhandled : s.numHandled ≤ i
  running : ∀ j < i, ¬ Stops s.sent j

/-- Some lane can take a step. -/
def Active (config : LaneConfig) (s : Lanes) : Prop := ∃ op s', Step config s op s'

/-- A prepare loop that cannot go on waits for a message, a slot or room, or has ended. -/
theorem prepare_blocked (h : ¬ Active config s) :
    (s.prepare = .reading ∧ s.sent.length ≤ s.numRead) ∨
    (∃ work slot, s.prepare = .acquiring work slot ∧ s.slotOwnership slot = 0) ∨
    (∃ item, s.prepare = .putting item ∧ decodePipelineSlots ≤ s.workQueue.length) ∨
    s.prepare = .done := by
  cases hp : s.prepare with
  | reading =>
    refine .inl ⟨rfl, ?_⟩
    by_contra hlt
    obtain ⟨m, hm⟩ : ∃ m, s.sent[s.numRead]? = some m := ⟨_, List.getElem?_eq_getElem (not_le.mp hlt)⟩
    cases m with
    | step cmd => exact h ⟨_, _, .readStep hp hm⟩
    | profile active => exact h ⟨_, _, .readOther hp hm rfl⟩
    | shutdown => exact h ⟨_, _, .readOther hp hm rfl⟩
    | undecodable error => exact h ⟨_, _, .readOther hp hm rfl⟩
    | closed => exact h ⟨_, _, .readOther hp hm rfl⟩
  | snapshotting work remaining =>
    cases remaining with
    | nil => exact absurd ⟨_, _, .snapshotted hp⟩ h
    | cons r remaining => exact absurd ⟨_, _, .snapshot hp⟩ h
  | publishing work remaining =>
    cases remaining with
    | nil => exact absurd ⟨_, _, .published hp⟩ h
    | cons data remaining => exact absurd ⟨_, _, .publish hp⟩ h
  | acquiring work slot =>
    refine .inr (.inl ⟨work, slot, rfl, ?_⟩)
    by_contra hpos
    exact h ⟨_, _, .acquire hp (Nat.pos_of_ne_zero hpos)⟩
  | preparing work slot => exact absurd ⟨.prepareDecode none, _, .prepareDecode hp⟩ h
  | putting item =>
    refine .inr (.inr (.inl ⟨item, rfl, ?_⟩))
    by_contra hroom
    cases item with
    | shutdown serial => exact h ⟨_, _, .putShutdown hp (not_le.mp hroom)⟩
    | failure serial error => exact h ⟨_, _, .putWork hp (not_le.mp hroom) nofun⟩
    | profile serial active => exact h ⟨_, _, .putWork hp (not_le.mp hroom) nofun⟩
    | step work => exact h ⟨_, _, .putWork hp (not_le.mp hroom) nofun⟩
  | done => exact .inr (.inr (.inr rfl))

/-- A device lane that cannot go on waits for work or at a barrier, or has ended. -/
theorem device_blocked (h : ¬ Active config s) :
    (s.device = .taking ∧ s.workQueue = []) ∨
    (s.device = .awaitingProfile ∧ s.profileCompleted = false) ∨ s.device = .done := by
  cases hd : s.device with
  | taking =>
    refine .inl ⟨rfl, ?_⟩
    cases hq : s.workQueue with
    | nil => rfl
    | cons item queue => exact absurd ⟨_, _, .takeWork hd hq⟩ h
  | awaitingProfile =>
    refine .inr (.inl ⟨rfl, ?_⟩)
    cases hc : s.profileCompleted with
    | false => rfl
    | true => exact absurd ⟨_, _, .profiled hd hc⟩ h
  | releasing work => exact absurd ⟨_, _, .releaseFinished hd⟩ h
  | comparing work remaining =>
    cases remaining with
    | nil => exact absurd ⟨_, _, .compared hd⟩ h
    | cons r remaining =>
      by_cases hsame : s.reqCache.lookup r = (work.releaseCacheEntries.lookup r).join
      · exact absurd ⟨_, _, .compareSame hd hsame⟩ h
      · exact absurd ⟨_, _, .compareOther hd hsame⟩ h
  | poppingEntry work r remaining => exact absurd ⟨_, _, .popEntry hd⟩ h
  | poppingTokens work r remaining => exact absurd ⟨_, _, .popTokens hd⟩ h
  | registering work remaining =>
    cases remaining with
    | nil => exact absurd ⟨_, _, .registered hd⟩ h
    | cons data remaining => exact absurd ⟨_, _, .register hd⟩ h
  | executing work =>
    cases hslot : config.splitSlot work with
    | some slot => exact absurd ⟨.dispatchDecode (some ""), _, .dispatchFailed hd hslot⟩ h
    | none => exact absurd ⟨.failStep "", _, .failStep hd hslot⟩ h
  | computing work => exact absurd ⟨.compute (.error ""), _, .computeFailed hd⟩ h
  | recording work newTokens remaining =>
    cases remaining with
    | nil => exact absurd ⟨_, _, .recordedComputed hd⟩ h
    | cons entry remaining => exact absurd ⟨_, _, .recordComputed hd⟩ h
  | done => exact .inr (.inr rfl)

/-- A reclaim lane that cannot go on waits for an output or has ended. -/
theorem reclaim_blocked (h : ¬ Active config s) :
    (s.reclaim = .taking ∧ s.outputQueue = []) ∨ s.reclaim = .done := by
  cases hr : s.reclaim with
  | taking =>
    refine .inl ⟨rfl, ?_⟩
    cases hq : s.outputQueue with
    | nil => rfl
    | cons item queue =>
      cases item with
      | shutdown serial => exact absurd ⟨_, _, .takeShutdown hr hq⟩ h
      | profileBarrier serial active => exact absurd ⟨_, _, .takeOutput hr hq nofun⟩ h
      | completed serial result slot => exact absurd ⟨_, _, .takeOutput hr hq nofun⟩ h
      | pending work slot => exact absurd ⟨_, _, .takeOutput hr hq nofun⟩ h
  | profiling serial active => exact absurd ⟨_, _, .profile hr⟩ h
  | reclaiming work slot => exact absurd ⟨.reclaimDecode (.error ""), _, .reclaimFailed hr⟩ h
  | recording work slot newTokens remaining =>
    cases remaining with
    | nil => exact absurd ⟨_, _, .recordedReclaimed hr⟩ h
    | cons entry remaining => exact absurd ⟨_, _, .recordReclaimed hr⟩ h
  | publishing serial result slot =>
    cases slot with
    | none => exact absurd ⟨_, _, .keepSlot hr⟩ h
    | some slot => exact absurd ⟨_, _, .releaseSlot hr⟩ h
  | emitting serial result => exact absurd ⟨_, _, .putResult hr⟩ h
  | done => exact .inr rfl

/-- With a command pending, the lanes do not all wait. -/
theorem active_of_pending (ho : Ordered s) (ha : Accounts config s) (hw : Waking s) {i : Nat}
    (hi : Pending s i) : Active config s := by
  by_contra h
  rcases reclaim_blocked h with ⟨hrec, hout⟩ | hrec
  · have hdev : s.device = .taking ∧ s.workQueue = [] := by
      rcases device_blocked h with hdev | ⟨hdev, hwait⟩ | hdev
      · exact hdev
      · rcases hw.profile hdev with hc | ⟨j, active, hmem⟩ | ⟨j, active, hrr⟩
        · rw [hwait] at hc
          cases hc
        · rw [hout] at hmem
          cases hmem
        · rw [hrec] at hrr
          cases hrr
      · rcases hw.device hdev with ⟨j, hmem⟩ | hrr
        · rw [hout] at hmem
          cases hmem
        · rw [hrec] at hrr
          cases hrr
    -- Only the prepare loop can hold a message, so every slot it may wait for is free.
    have hcarried : s.carried = s.prepare.serials := by
      rw [carried, hrec, hout, hdev.1, hdev.2]
      rfl
    have hlen := congrArg List.length ho.carried
    rw [hcarried, List.length_range'] at hlen
    have hle := ho.handled
    rcases prepare_blocked h with ⟨hp, hend⟩ | ⟨work, slot, hp, hslot⟩ | ⟨item, hp, hfull⟩ | hp
    · rw [hp] at hlen
      have hhandled : s.sent.length ≤ s.numHandled := by
        have : 0 = s.numRead - s.numHandled := hlen
        omega
      have hans := hi.answered
      rw [answered, List.getElem?_eq_none (hhandled.trans hi.unhandled)] at hans
      cases hans
    · have hsem := ha.semaphore slot
      have hacq : s.numAcquired = s.numReleased := by
        rw [hp] at hlen
        have : 1 = s.numRead - s.numHandled := hlen
        unfold numAcquired numReleased
        rw [hp, hrec]
        dsimp only [PrepareLane.unacquired, ReclaimLane.settled]
        omega
      rw [hslot, hacq] at hsem
      omega
    · rw [hdev.2] at hfull
      exact absurd hfull (by decide)
    · rcases hw.prepare hp with ⟨j, hmem⟩ | hdd
      · rw [hdev.2] at hmem
        cases hmem
      · rw [hdev.1] at hdd
        cases hdd
  · obtain ⟨j, hj, hstop⟩ := hw.reclaim hrec
    exact hi.running j (hj.trans_le hi.unhandled) hstop

structure Protocol (config : LaneConfig) (s : Lanes) : Prop where
  ordered : Ordered s
  fitting : Fitting config s
  accounts : Accounts config s
  tracked : Tracked s
  waking : Waking s

theorem protocol_of_reachable (h : (laneMachine config).Reachable s) : Protocol config s := by
  refine h.invariant ?_ ?_
  · rintro s ⟨messages, -, rfl⟩
    refine ⟨⟨rfl, le_rfl, Nat.zero_le _⟩, ⟨trivial, by simp, trivial, by simp, trivial⟩,
      ⟨rfl, by simp, rfl, rfl, fun _ => rfl⟩, nofun, ⟨nofun, nofun, nofun, nofun⟩⟩
  · intro s op s' hs hinv hstep
    exact ⟨hinv.ordered.step hstep, hinv.fitting.step hstep,
      hinv.accounts.step hinv.ordered hinv.fitting hstep, hinv.tracked.step hstep,
      hinv.waking.step hinv.ordered hinv.fitting hstep⟩

/-- The protocol of the three lanes in one state. -/
structure LaneProtocol (config : LaneConfig) (s : Lanes) : Prop where
  /-- One result for each command among the messages handled so far, in dispatch order. -/
  results : s.results.map (·.1) = (List.range s.numHandled).filter (answered s.sent)
  echoed : ∀ e ∈ s.results, ∀ cmd, s.sent[e.1]? = some (.step cmd) → e.2.stepId = cmd.stepId
  /-- Each prepared command acquires its slot once, and has released it once by its result. -/
  semaphores : ∃ m n, s.numHandled ≤ m ∧ m ≤ n ∧ n ≤ s.numRead ∧
    s.released = slotUses config s.sent m ∧ s.acquired = slotUses config s.sent n
  owned : ∀ slot, s.slotOwnership slot ≤ 1
  /-- A slot is prepared when every earlier output in it has been reclaimed. -/
  exclusive : ∀ work slot, s.prepare = .preparing work slot → ∀ i < work.serial,
    slotAt config s.sent i = some slot → (i, slot) ∈ s.released
  /-- The runner's check for a reused slot does not fail. -/
  unused : ∀ work slot, s.device = .executing work → work.bufferSlot = some slot →
    ∃ table, trackPendingMtpDispatch s.pendingMtpDispatches slot work.serial = .ok table
  progress : ∀ i, Pending s i → Active config s

theorem three_lane_protocol (h : (laneMachine config).Reachable s) : LaneProtocol config s := by
  obtain ⟨ho, hf, ha, ht, hw⟩ := protocol_of_reachable h
  have hle := ho.released_le
  refine ⟨ha.results, ha.echoed, ⟨s.numReleased, s.numAcquired, Nat.le_add_right _ _, hle,
    Nat.sub_le _ _, ha.released, ha.acquired⟩, fun slot => ?_, ?_, ?_,
    fun i hi => active_of_pending ho ha hw hi⟩
  · have hsem := ha.semaphore slot
    have hmono : useCount config s.sent slot s.numReleased ≤
        useCount config s.sent slot s.numAcquired := Nat.count_monotone _ hle
    omega
  · intro work slot hp i hi hslot
    have hfit := hf.prepare
    rw [hp] at hfit
    have hlast := ho.last (i := work.serial) (by rw [hp]; rfl)
    have hacq : s.numAcquired = s.numRead := by
      rw [numAcquired, hp]
      rfl
    have hat : slotAt config s.sent work.serial = some slot := by
      rw [slotAt, hfit.1.1]
      exact hfit.2
    have hlow : i < s.numReleased := by
      by_contra hge
      exact ha.sole hslot hat (not_lt.mp hge) hi (by omega)
    rw [ha.released, slotUses, List.mem_filterMap]
    exact ⟨i, List.mem_range.mpr hlow, by rw [hslot]; rfl⟩
  · intro work slot hd hbuf
    have hfit := hf.device
    rw [hd] at hfit
    have hat : slotAt config s.sent work.serial = some slot := by rw [← hbuf, hfit.slotAt]
    have hserial : s.device.serials = [work.serial] := by rw [hd]; rfl
    have hfree : s.pendingMtpDispatches slot = none := by
      cases htab : s.pendingMtpDispatches slot with
      | none => rfl
      | some i =>
        exfalso
        have hpair := ho.pairwise
        simp only [carried, hserial, List.pairwise_append] at hpair
        have hacq := ho.device_acquired (j := work.serial) (by simp [hserial])
        cases ht slot i htab with
        | @queued other hmem hi =>
          have hmem' : i ∈ s.outputQueue.map (·.serial) := List.mem_map.mpr ⟨_, hmem, hi⟩
          have hother := hf.outputQueue _ hmem
          have hlt := hpair.1.1.2.2 i (by simp [hmem']) work.serial (by simp)
          refine ha.sole (i := i) ?_ hat (ho.unreleased ?_ ?_) hlt hacq
          · rw [← hi, ← hother.1.slotAt, hother.2]
          · simp [carried, hmem']
          · refine .inr fun hrec => ?_
            exact absurd (hpair.1.1.1.2.2 i hrec i hmem') (lt_irrefl i)
        | @reclaiming other hrec hi =>
          have hother := hf.reclaim
          rw [hrec] at hother
          have hmem' : i ∈ s.reclaim.serials := by
            rw [hrec, ← hi]
            exact List.mem_singleton.mpr rfl
          have hlt := hpair.1.1.2.2 i (by simp [hmem']) work.serial (by simp)
          refine ha.sole (i := i) ?_ hat (ho.unreleased ?_ (.inl ?_)) hlt hacq
          · rw [← hi, ← hother.1.slotAt, hother.2]
          · simp [carried, hmem']
          · rw [hrec]
            rfl
        | computing hd' =>
          rw [hd] at hd'
          cases hd'
    exact ⟨_, by rw [trackPendingMtpDispatch, hfree]; rfl⟩

/-- A decode command for one request. -/
def decodeCommand (stepId : Nat) (r : RequestId) (finished : List RequestId) : StepCommand where
  newRequests := []
  prefillRequests := []
  decodeRequests := [{ requestId := r, lastToken := placeholderToken, seqLen := 3, blockIds := [0] }]
  finishedRequestIds := finished
  stepId := stepId

/-- An executor with fused decode. -/
def fusedConfig : LaneConfig where
  supportsDeviceDecodeEmbedding := true
  supportsAsyncDecodeReclaim := true

theorem three_lane_protocol_decode : ∃ s, (laneMachine fusedConfig).Reachable s ∧
    s.results.map (·.1) = [0] ∧ s.released = [(0, 1)] ∧ LaneProtocol fusedConfig s := by
  have h0 : (laneMachine fusedConfig).Reachable { sent := [.step (decodeCommand 1 "a" [])] } :=
    .start ⟨_, by simp [Homogeneous, decodeCommand], rfl⟩
  have h1 := next_reachable h0 (.readStep rfl rfl)
  have h2 := next_reachable h1 (.snapshotted rfl)
  have h3 := next_reachable h2 (.published rfl)
  have h4 := next_reachable h3 (.acquire rfl (by decide))
  have h5 := next_reachable h4 (@Step.prepareDecode _ _ _ _ none rfl)
  have h6 := next_reachable h5 (.putWork rfl (by decide) nofun)
  have h7 := next_reachable h6 (.takeWork rfl rfl)
  have h8 := next_reachable h7 (.registered rfl)
  have h9 := next_reachable h8 (.dispatchDecode rfl rfl rfl)
  have h10 := next_reachable h9 (.takeOutput rfl rfl nofun)
  have h11 := next_reachable h10 (@Step.reclaimDecode _ _ _ _ ∅ rfl (by decide))
  have h12 := next_reachable h11 (.recordedReclaimed rfl)
  have h13 := next_reachable h12 (.releaseSlot rfl)
  have h14 := next_reachable h13 (.putResult rfl)
  exact ⟨_, h14, rfl, rfl, three_lane_protocol h14⟩

end Lanes
end PyptoServing.Server
