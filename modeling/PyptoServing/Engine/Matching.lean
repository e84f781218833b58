import PyptoServing.Engine.Run
import PyptoServing.Engine.Effects
import PyptoServing.Lib.NumberedCalls

/-!
# Results and their steps

Every command carries the number of its step and the worker answers in order. The results of
dropped batches are discarded as they come; what is left is applied to the batch that it belongs to,
as long as no cleanup-only step is given up.
-/
namespace PyptoServing.Engine

open Lib Lib.Fallible Lib.NumberedCalls Memory Sched Server

namespace Channel
variable (c : Channel)

def sentIds : List Nat := c.commands.map (·.command.stepId)

def resultIds : List Nat := c.results.map (·.stepId)

def receivedIds : List Nat := c.resultIds.take c.numReceived

end Channel

/-- The steps whose results the engine waits for. -/
def Replica.awaited (e : Replica) : List Nat := e.batchStepIds ++ e.flushing.toList

/-- A dropped step whose result was not received: it was sent, and the engine waits no longer. -/
def Replica.Abandoned (e : Replica) (id : Nat) : Prop :=
  id ∈ e.channel.sentIds ∧ id ∉ e.channel.receivedIds ∧ id ∉ e.awaited

/-- The numbers of the steps, from the dispatch to the result. -/
structure Numbered (e : Replica) : Prop where
  sent : e.channel.sentIds = List.range' 1 e.stepCounter
  results : e.channel.resultIds = List.range' 1 e.channel.results.length
  executed : e.channel.results.length ≤ e.channel.commands.length
  received : e.channel.numReceived ≤ e.channel.results.length
  window : Window e.stepCounter e.channel.numReceived e.discardResultStepIds e.awaited
  cleanup : e.flushing ≠ none → e.batchStepIds = []
  batches : e.batchStepIds.length = e.pipeline.inFlight.length

/-- A step that sends no command and receives no result. -/
structure SameCalls (e e' : Replica) : Prop where
  channel : e'.channel = e.channel
  counter : e'.stepCounter = e.stepCounter
  batches : e'.batchStepIds = e.batchStepIds
  flushing : e'.flushing = e.flushing
  discard : e'.discardResultStepIds = e.discardResultStepIds
  inFlight : e'.pipeline.inFlight = e.pipeline.inFlight

theorem Notifies.sameCalls {P : RequestId → Queued → Prop} {freed : RequestId → Prop}
    {e e' : Replica} (h : Notifies P freed e e') : SameCalls e e' := by
  constructor <;> rw [h.rest]

theorem buildStepCommand_stepId (object : RequestId → Request) (output : SchedulerOutput)
    (known finishedIds : List RequestId) (stepId : Nat) :
    (buildStepCommand object output known finishedIds stepId).1.stepId = stepId := by
  unfold buildStepCommand
  suffices h : ∀ (records : List ScheduledRequest) (acc : StepCommand × List RequestId),
      (records.foldl (addEntry object) acc).1.stepId = acc.1.stepId from h _ _
  intro records
  induction records with
  | nil => exact fun _ => rfl
  | cons sr records ih =>
    intro acc
    rw [List.foldl_cons, ih]
    exact (addEntry_holds acc sr).stepId

theorem runStepCommand_stepId (w : Worker) (i : Nat) (cmd : StepCommand) (x : Execution) :
    (w.runStepCommand i cmd x).2.stepId = cmd.stepId := by
  unfold Worker.runStepCommand
  split
  · rfl
  · dsimp only
    split
    · next done hdone =>
      unfold Worker.executeStep at hdone
      obtain ⟨prefillTokens, -, hdone⟩ := bind_eq_ok.mp hdone
      obtain ⟨decodeTokens, -, hdone⟩ := bind_eq_ok.mp hdone
      split at hdone
      · cases hdone
      · cases hdone
        rfl
    · rfl

theorem Channel.resultIds_execute (c : Channel) (built : Built) (x : Execution) :
    (c.execute built x).resultIds = c.resultIds ++ [built.command.stepId] := by
  show (c.results ++ [(c.worker.runStepCommand c.results.length built.command x).2]).map
    (fun (result : StepResult) => result.stepId) = _
  rw [List.map_append, List.map_singleton, runStepCommand_stepId]
  rfl

theorem Channel.length_execute (c : Channel) (built : Built) (x : Execution) :
    (c.execute built x).results.length = c.results.length + 1 :=
  List.length_append

namespace Numbered
variable {decode : List Int → String} {e e' e₁ : Replica} {op : ReplicaOp}

theorem start (h : e.Started) : Numbered e := by
  obtain ⟨hp, hrest⟩ := h
  rw [hrest]
  refine ⟨rfl, rfl, le_rfl, le_rfl, .start, fun h => absurd rfl h, ?_⟩
  show 0 = e.pipeline.inFlight.length
  rw [hp.inFlight]
  rfl

theorem same (h : Numbered e) (hs : SameCalls e e') : Numbered e' := by
  have hawaited : e'.awaited = e.awaited := by rw [Replica.awaited, hs.batches, hs.flushing, Replica.awaited]
  constructor
  · rw [hs.channel, hs.counter]
    exact h.sent
  · rw [hs.channel]
    exact h.results
  · rw [hs.channel]
    exact h.executed
  · rw [hs.channel]
    exact h.received
  · rw [hs.counter, hs.channel, hs.discard, hawaited]
    exact h.window
  · rw [hs.flushing, hs.batches]
    exact h.cleanup
  · rw [hs.batches, hs.inFlight]
    exact h.batches

/-- A command on the input queue, and the step that is awaited for it. -/
theorem send (h : Numbered e) {built : Built} {known pending : List RequestId} {ids : List Nat}
    {flushing : Option Nat} {p : Pipeline} (hid : built.command.stepId = e.stepCounter + 1)
    (hawaited : ids ++ flushing.toList = e.awaited ++ [e.stepCounter + 1])
    (hcleanup : flushing ≠ none → ids = []) (hbatches : ids.length = p.inFlight.length) :
    Numbered { e with
      pipeline := p, pendingFreeIds := pending, workerKnownReqIds := known
      stepCounter := e.stepCounter + 1, batchStepIds := ids, flushing := flushing
      channel := e.channel.send built } := by
  constructor
  · show (e.channel.commands ++ [built]).map (·.command.stepId) = _
    rw [List.map_append, List.range'_1_concat, ← h.sent, List.map_singleton, hid, Nat.add_comm]
    rfl
  · exact h.results
  · show e.channel.results.length ≤ (e.channel.commands ++ [built]).length
    rw [List.length_append]
    exact h.executed.trans (Nat.le_add_right _ _)
  · exact h.received
  · show Window _ _ _ (ids ++ flushing.toList)
    rw [hawaited]
    exact h.window.send
  · exact hcleanup
  · exact hbatches

/-- `_flush_pending_frees`, up to its wait. -/
theorem flush (h : Numbered e) (hidle : e.flushing = none) (hnil : e.pipeline.inFlight = []) :
    Numbered e.flush := by
  have hbatches : e.batchStepIds = [] := by
    have hlen := h.batches
    rw [hnil] at hlen
    exact List.length_eq_zero_iff.mp hlen
  unfold Replica.flush
  split
  · exact h
  · refine h.send rfl ?_ (fun _ => hbatches) h.batches
    rw [Replica.awaited, hidle, hbatches]
    rfl

/-- The result at the front of the output queue. -/
theorem next_id (h : Numbered e) {result : StepResult} (hnext : e.channel.next? = some result) :
    result.stepId = e.channel.numReceived + 1 ∧ e.channel.numReceived < e.channel.results.length := by
  have hlt := (List.getElem?_eq_some_iff.mp hnext).1
  refine ⟨?_, hlt⟩
  have hget : e.channel.resultIds[e.channel.numReceived]? = some result.stepId := by
    rw [Channel.resultIds, List.getElem?_map]
    exact congrArg (Option.map _) hnext
  rw [h.results, List.getElem?_range' hlt, Option.some.injEq] at hget
  omega

/-- What is left of the queues behind a result. -/
theorem take (h : Numbered e) {result : StepResult} (hnext : e.channel.next? = some result)
    {e₁ : Replica} (hchannel : e₁.channel = e.channel.receive) (hcounter : e₁.stepCounter = e.stepCounter)
    (hwindow : Window e.stepCounter (e.channel.numReceived + 1) e₁.discardResultStepIds e₁.awaited)
    (hcleanup : e₁.flushing ≠ none → e₁.batchStepIds = [])
    (hbatches : e₁.batchStepIds.length = e₁.pipeline.inFlight.length) : Numbered e₁ := by
  constructor
  · rw [hchannel, hcounter]
    exact h.sent
  · rw [hchannel]
    exact h.results
  · rw [hchannel]
    exact h.executed
  · rw [hchannel]
    exact (h.next_id hnext).2
  · rw [hchannel, hcounter]
    exact hwindow
  · exact hcleanup
  · exact hbatches

/-- The oldest batch waits for the result at the front, unless that result is discarded. -/
theorem oldest (h : Numbered e) {stepId : Nat} {stepIds : List Nat} {result : StepResult}
    (hids : e.batchStepIds = stepId :: stepIds) (hnext : e.channel.next? = some result)
    (hlive : result.stepId ∉ e.discardResultStepIds) :
    result.stepId = stepId ∧ e.discardResultStepIds = [] ∧ e.flushing = none ∧
      Window e.stepCounter (e.channel.numReceived + 1) [] stepIds := by
  have hflushing : e.flushing = none := by
    by_contra hne
    rw [h.cleanup hne] at hids
    cases hids
  have hwindow := h.window
  rw [Replica.awaited, hids, hflushing, Option.toList_none, List.append_nil] at hwindow
  rw [(h.next_id hnext).1] at hlive ⊢
  obtain ⟨hnil, hid, hrest⟩ := hwindow.reply hlive
  exact ⟨hid.symm, hnil, hflushing, hrest⟩

theorem stepError (h : Numbered e) {stepId : Nat} {stepIds : List Nat} {p : Pipeline}
    {result : StepResult} (hids : e.batchStepIds = stepId :: stepIds)
    (hnext : e.channel.next? = some result) (hlive : result.stepId ∉ e.discardResultStepIds)
    (hp : e.pipeline.Step .discard p) :
    Numbered { e.handleStepError p stepIds with channel := e.channel.receive } := by
  obtain ⟨-, hnil, hflushing, hwindow⟩ := h.oldest hids hnext hlive
  have hs := (Replica.droppedIds_notifies e).sameCalls
  have hkept : (e.droppedIds.foldl Replica.failRequest e).flushing = none := hs.flushing.trans hflushing
  refine h.take hnext rfl hs.counter ?_ (fun _ => rfl) ?_
  · show Window _ _ (e.discardResultStepIds ++ stepIds)
      ([] ++ (e.droppedIds.foldl Replica.failRequest e).flushing.toList)
    rw [← List.append_nil stepIds] at hwindow
    rw [hnil, hkept]
    exact hwindow.abandon
  · show 0 = p.inFlight.length
    rw [discard_inFlight hp]
    rfl

theorem timeout (h : Numbered e) {stepId : Nat} {stepIds : List Nat} {p : Pipeline}
    (hids : e.batchStepIds = stepId :: stepIds) (hflushing : e.flushing = none)
    (hp : e.pipeline.Step .discard p) : Numbered (e.handleStepError p (stepId :: stepIds)) := by
  have hs := (Replica.droppedIds_notifies e).sameCalls
  have hkept : (e.droppedIds.foldl Replica.failRequest e).flushing = none := hs.flushing.trans hflushing
  have hchannel : (e.handleStepError p (stepId :: stepIds)).channel = e.channel := hs.channel
  have hcounter : (e.handleStepError p (stepId :: stepIds)).stepCounter = e.stepCounter := hs.counter
  constructor
  · rw [hchannel, hcounter]
    exact h.sent
  · rw [hchannel]
    exact h.results
  · rw [hchannel]
    exact h.executed
  · rw [hchannel]
    exact h.received
  · rw [hchannel]
    show Window _ _ (e.discardResultStepIds ++ (stepId :: stepIds))
      ([] ++ (e.droppedIds.foldl Replica.failRequest e).flushing.toList)
    have hwindow := h.window
    rw [Replica.awaited, hids, hflushing] at hwindow
    rw [hkept, hcounter]
    exact hwindow.abandon
  · exact fun _ => rfl
  · show 0 = p.inFlight.length
    rw [discard_inFlight hp]
    rfl

end Numbered

/-- No cleanup-only step is given up. -/
def CleanupAnswered (e : Replica) (op : ReplicaOp) (_ : Replica) : Prop :=
  op = .timeout → e.flushing = none

namespace Numbered
variable {decode : List Int → String} {e e' : Replica} {op : ReplicaOp}

theorem dispatch (h : Numbered e) {pass : Pass} {s : Scheduler} {output : SchedulerOutput}
    (hidle : e.flushing = none) :
    Numbered { (e.handlePass pass.output).sendStep pass with
      pipeline := { e.pipeline with sched := s, inFlight := e.pipeline.inFlight ++ [output] } } := by
  have hs := (Replica.handlePass_notifies e pass.output).sameCalls
  have hn := h.same hs
  have hid := buildStepCommand_stepId pass.sched.object pass.output
    (e.handlePass pass.output).workerKnownReqIds (e.handlePass pass.output).pendingFreeIds
    ((e.handlePass pass.output).stepCounter + 1)
  refine hn.send hid ?_ (fun hne => absurd (hs.flushing.trans hidle) hne) ?_
  · have hsent : ((e.handlePass pass.output).sendStep pass).flushing = none := hs.flushing.trans hidle
    rw [Replica.awaited, hs.flushing, hidle, hsent, Option.toList_none, List.append_nil,
      List.append_nil]
    rfl
  · show ((e.handlePass pass.output).batchStepIds ++ [_]).length =
      (e.pipeline.inFlight ++ [output]).length
    rw [hs.batches, List.length_append, List.length_append, h.batches]
    rfl

/-- An empty pass sends what is left to clean up. -/
theorem idle (h : Numbered e) {pass : Pass} (hidle : e.flushing = none)
    (hnil : e.pipeline.inFlight = []) :
    Numbered { (e.handlePass pass.output).flush with
      pipeline := { e.pipeline with sched := pass.sched, mustAwait := false } } := by
  have hs := (Replica.handlePass_notifies e pass.output).sameCalls
  have hn := (h.same hs).flush (hs.flushing.trans hidle) (hs.inFlight.trans hnil)
  refine ⟨hn.sent, hn.results, hn.executed, hn.received, hn.window, hn.cleanup, ?_⟩
  have hpipeline : (e.handlePass pass.output).flush.pipeline = (e.handlePass pass.output).pipeline := by
    unfold Replica.flush
    split <;> rfl
  have hbatches := hn.batches
  rw [hpipeline, hs.inFlight] at hbatches
  exact hbatches

/-- The worker answers the next command under its own number. -/
theorem work (h : Numbered e) {built : Built} (x : Execution)
    (hbuilt : e.channel.commands[e.channel.results.length]? = some built) :
    Numbered { e with channel := e.channel.execute built x } := by
  have hlt := (List.getElem?_eq_some_iff.mp hbuilt).1
  have hid : built.command.stepId = e.channel.results.length + 1 := by
    have hget : e.channel.sentIds[e.channel.results.length]? = some built.command.stepId := by
      rw [Channel.sentIds, List.getElem?_map, hbuilt]
      rfl
    have hlen : e.channel.sentIds.length = e.channel.commands.length := List.length_map _
    rw [h.sent, List.length_range'] at hlen
    rw [h.sent, List.getElem?_range' (by omega), Option.some.injEq] at hget
    omega
  refine ⟨h.sent, ?_, ?_, ?_, h.window, h.cleanup, h.batches⟩
  · show (e.channel.execute built x).resultIds =
      List.range' 1 (e.channel.execute built x).results.length
    rw [Channel.resultIds_execute, Channel.length_execute, List.range'_1_concat, ← h.results, hid,
      Nat.add_comm]
  · show (e.channel.execute built x).results.length ≤ e.channel.commands.length
    rw [Channel.length_execute]
    exact hlt
  · show e.channel.numReceived ≤ (e.channel.execute built x).results.length
    rw [Channel.length_execute]
    exact h.received.trans (Nat.le_succ _)

/-- A request that leaves keeps the calls as they are. -/
theorem release (h : Numbered e) {p : Pipeline} (clients : Clients) (r : RequestId)
    (hp : e.pipeline.Step (.abort r) p) :
    Numbered { e.release p r with clients } := by
  have hs := (Notifies.scheduleWorkerFree (fun _ _ => True)
    { e with pipeline := p, clients := e.clients.forget r } r).sameCalls
  exact h.same ⟨hs.channel, hs.counter, hs.batches, hs.flushing, hs.discard,
    hs.inFlight.trans (abort_inFlight hp)⟩

theorem step (h : Numbered e) (hwf : e.pipeline.WellFormed) (hstep : Replica.Step decode e op e')
    (hanswered : CleanupAnswered e op e') : Numbered e' := by
  cases hstep with
  | add _ _ hp =>
    refine h.same ⟨rfl, rfl, rfl, rfl, rfl, ?_⟩
    cases hp
    rfl
  | dispatch hidle => exact h.dispatch hidle
  | @await pass =>
    have hs := (Replica.handlePass_notifies e pass.output).sameCalls
    exact h.same ⟨hs.channel, hs.counter, hs.batches, hs.flushing, hs.discard, rfl⟩
  | idle hidle _ _ _ hnil => exact h.idle hidle hnil
  | flush hidle hnil _ => exact h.flush hidle hnil
  | receive hids hnext hlive _ _ hfl hupd hdel =>
    obtain ⟨-, hnil, hflushing, hwindow⟩ := h.oldest hids hnext hlive
    obtain ⟨-, hd⟩ := receive_spec hwf hfl hupd hdel
    have hbatches := h.batches
    rw [hids, hfl, List.length_cons, List.length_cons] at hbatches
    refine h.take hnext (by rw [hd.rest]) (by rw [hd.rest]) ?_ ?_ ?_
    · rw [hd.rest, hnil, Replica.awaited, hflushing, Option.toList_none, List.append_nil]
      exact hwindow
    · rw [hd.rest, hflushing]
      exact fun hne => absurd rfl hne
    · rw [hd.inFlight, hd.rest]
      exact Nat.succ.inj hbatches
  | failed hids hnext hlive _ _ hp => exact h.stepError hids hnext hlive hp
  | desync hids hnext hlive _ hp => exact h.stepError hids hnext hlive hp
  | flushed hflushing hnext hlive =>
    have hnil := h.cleanup (by rw [hflushing]; exact Option.some_ne_none _)
    have hwindow := h.window
    rw [Replica.awaited, hnil, hflushing] at hwindow
    rw [(h.next_id hnext).1] at hlive
    obtain ⟨hdiscard, -, hrest⟩ := hwindow.reply hlive
    refine h.take hnext rfl rfl ?_ (fun hne => absurd rfl hne) h.batches
    rw [Replica.awaited, hnil, hdiscard]
    exact hrest
  | @drain result _ hnext hmem =>
    rw [(h.next_id hnext).1] at hmem
    refine h.take hnext rfl rfl ?_ h.cleanup h.batches
    rw [(h.next_id hnext).1]
    exact h.window.drop hmem
  | timeout hids _ hp => exact h.timeout hids (hanswered rfl) hp
  | flushTimeout hflushing _ => exact absurd ((hanswered rfl).symm.trans hflushing) (by simp)
  | cancel _ _ hp => exact h.release _ _ hp
  | abort _ hp => exact h.release _ _ hp
  | work _ hbuilt => exact h.work _ hbuilt
  | refuse | takeFailure | takeOutput | resume | complete | leave | unknown =>
    exact h.same ⟨rfl, rfl, rfl, rfl, rfl, rfl⟩

theorem mem_sentIds (h : Numbered e) {id : Nat} :
    id ∈ e.channel.sentIds ↔ 0 < id ∧ id ≤ e.stepCounter := by
  rw [h.sent, List.mem_range'_1]
  omega

theorem mem_receivedIds (h : Numbered e) {id : Nat} :
    id ∈ e.channel.receivedIds ↔ 0 < id ∧ id ≤ e.channel.numReceived := by
  rw [Channel.receivedIds, h.results, List.take_range'_of_length_ge h.received, List.mem_range'_1]
  omega

/-- The steps to discard are the dropped ones whose results are still to come. -/
theorem mem_discard (h : Numbered e) {id : Nat} :
    id ∈ e.discardResultStepIds ↔ e.Abandoned id := by
  rw [h.window.mem_abandoned, Replica.Abandoned, h.mem_sentIds, h.mem_receivedIds]
  have hle := h.window.le
  constructor
  · rintro ⟨⟨hlt, hsent⟩, hnot⟩
    exact ⟨⟨by omega, hsent⟩, by omega, hnot⟩
  · rintro ⟨⟨hpos, hsent⟩, hlive, hnot⟩
    exact ⟨⟨by omega, hsent⟩, hnot⟩

theorem of_reachable (h : ((replicaMachine decode).restrict CleanupAnswered).Reachable e) :
    Numbered e :=
  h.invariant (fun _ => Numbered.start) fun _ _ _ hr hi hstep =>
    hi.step (pipeline_wellFormed (Machine.restrict_reachable hr)) hstep.1 hstep.2

end Numbered

/-- Every result that the engine looks at belongs to the step it waits for: the oldest batch, or a
cleanup-only step. The results of dropped steps, and no others, are discarded. -/
structure Matched (decode : List Int → String) (e : Replica) : Prop where
  discard : ∀ id, id ∈ e.discardResultStepIds ↔ e.Abandoned id
  batches : e.batchStepIds.length = e.pipeline.inFlight.length
  oldest : ∀ stepId stepIds result, e.batchStepIds = stepId :: stepIds →
    e.channel.next? = some result → result.stepId ∉ e.discardResultStepIds → result.stepId = stepId
  cleanup : ∀ stepId result, e.flushing = some stepId → e.channel.next? = some result →
    result.stepId ∉ e.discardResultStepIds → result.stepId = stepId
  late : ∀ result, e.channel.next? = some result → e.Abandoned result.stepId →
    ∀ e', ¬ Replica.Step decode e .receive e'

section Matching
variable {decode : List Int → String} {e e' : Replica} {op : ReplicaOp}

/-- A result is received if it is not discarded. -/
theorem live_of_receive (h : Replica.Step decode e .receive e') :
    ∃ result, e.channel.next? = some result ∧ result.stepId ∉ e.discardResultStepIds := by
  cases h with
  | receive _ hnext hlive => exact ⟨_, hnext, hlive⟩
  | failed _ hnext hlive => exact ⟨_, hnext, hlive⟩
  | desync _ hnext hlive => exact ⟨_, hnext, hlive⟩
  | flushed _ hnext hlive => exact ⟨_, hnext, hlive⟩

theorem Numbered.matched (h : Numbered e) : Matched decode e := by
  refine ⟨fun id => h.mem_discard, h.batches, ?_, ?_, ?_⟩
  · exact fun stepId stepIds result hids hnext hlive => (h.oldest hids hnext hlive).1
  · intro stepId result hflushing hnext hlive
    have hnil := h.cleanup (by rw [hflushing]; exact Option.some_ne_none _)
    have hwindow := h.window
    rw [Replica.awaited, hnil, hflushing] at hwindow
    rw [(h.next_id hnext).1] at hlive ⊢
    exact (hwindow.reply hlive).2.1.symm
  · intro result hnext habandoned e' hstep
    obtain ⟨result', hnext', hlive⟩ := live_of_receive hstep
    rw [hnext, Option.some.injEq] at hnext'
    subst hnext'
    exact hlive (h.mem_discard.mpr habandoned)

/-- A cleanup-only step that is given up is dropped without a record. -/
theorem Numbered.unmatched (h : Numbered e) (hstep : Replica.Step decode e .timeout e')
    (hflushing : e.flushing ≠ none) : ¬ Matched decode e' := by
  have hnil := h.cleanup hflushing
  intro hmatched
  cases hstep with
  | timeout hids =>
    rw [hnil] at hids
    cases hids
  | @flushTimeout stepId hid _ =>
    have hwindow := h.window
    rw [Replica.awaited, hnil, hid] at hwindow
    have hmem : stepId ∈ ([] : List Nat) ++ (some stepId).toList := by simp
    obtain ⟨hlt, hsent⟩ := hwindow.mem_iff.mp (.inr hmem)
    have hdropped : Replica.Abandoned { e with flushing := none } stepId := by
      refine ⟨h.mem_sentIds.mpr ⟨by omega, hsent⟩, fun hrec => ?_, ?_⟩
      · have hle := (h.mem_receivedIds.mp hrec).2
        omega
      · rw [Replica.awaited, hnil]
        exact List.not_mem_nil
    exact (hwindow.mem_abandoned.mp ((hmatched.discard stepId).mpr hdropped)).2 hmem

/-- In every run that gives up no cleanup-only step, the results match their steps; a step from such
a run leaves them matched if and only if it does not give one up. -/
theorem results_matched_iff (h : ((replicaMachine decode).restrict CleanupAnswered).Reachable e) :
    Matched decode e ∧
      ∀ op e', Replica.Step decode e op e' → (Matched decode e' ↔ CleanupAnswered e op e') := by
  have hn := Numbered.of_reachable h
  have hwf := pipeline_wellFormed (Machine.restrict_reachable h)
  refine ⟨hn.matched, fun op e' hstep => ⟨fun hmatched hop => ?_, fun hanswered => ?_⟩⟩
  · subst hop
    by_contra hflushing
    exact hn.unmatched hstep hflushing hmatched
  · exact (hn.step hwf hstep hanswered).matched

end Matching

/-- Timeouts of batches only. -/
def batchTimeouts (e : Replica) : ReplicaOp → Bool
  | .timeout => e.flushing.isNone
  | _ => true

/-- Two steps in flight are given up; the results of both come while the next step waits. -/
def lateRun : Option Replica :=
  Replica.bootAllowed (fun _ => "") batchTimeouts pipelinedBoot
    [.add (plainRequest "a" [1] 4 0) true, .dispatch, .dispatch, .timeout,
      .add (plainRequest "b" [1] 4 1) true, .dispatch, .work sampleSeven, .work sampleSeven,
      .work sampleSeven, .drain]

theorem results_matched_late : ∃ e, (replicaMachine fun _ => "").Reachable e ∧
    e.discardResultStepIds = [2] ∧ e.batchStepIds = [3] ∧ e.channel.resultIds = [1, 2, 3] ∧
      Matched (fun _ => "") e := by
  have hrun : (lateRun.map fun e => decide (e.discardResultStepIds = [2] ∧ e.batchStepIds = [3] ∧
      e.channel.resultIds = [1, 2, 3])) = some true := by decide
  obtain ⟨e, hboot, h⟩ := Option.map_eq_some_iff.mp hrun
  obtain ⟨hdiscard, hids, hresults⟩ := of_decide_eq_true h
  have he : ((replicaMachine fun _ => "").restrict CleanupAnswered).Reachable e := by
    refine Replica.bootAllowed_reachable ?_ ?_ (fun p => pipelinedBoot_started) hboot
    · intro e op e' _ hallowed hop
      subst hop
      exact Option.isNone_iff_eq_none.mp hallowed
    · intro op hop
      simp only [List.mem_cons, List.not_mem_nil, or_false] at hop
      rcases hop with rfl | rfl | rfl | rfl | rfl | rfl | rfl | rfl | rfl | rfl
      · exact plainRequest_fresh (by decide)
      · trivial
      · trivial
      · trivial
      · exact plainRequest_fresh (by decide)
      · trivial
      · exact sampleSeven_samples
      · exact sampleSeven_samples
      · exact sampleSeven_samples
      · trivial
  exact ⟨e, Machine.restrict_reachable he, hdiscard, hids, hresults, (results_matched_iff he).1⟩

/-- The release of an aborted request is given up; its result comes while the next step waits. -/
def forgottenRun : Option Replica :=
  Replica.bootAllowed (fun _ => "") (fun _ _ => true) pipelinedBoot
    [.add (plainRequest "a" [1] 4 0) true, .abort "a", .flush, .timeout,
      .add (plainRequest "b" [1] 4 1) true, .dispatch, .work sampleSeven]

/-- The batch of step 2 finds the result of step 1. -/
theorem results_mismatch : ∃ e, (replicaMachine fun _ => "").Reachable e ∧
    e.batchStepIds = [2] ∧ e.channel.next?.map (·.stepId) = some 1 ∧ e.discardResultStepIds = [] ∧
      ¬ Matched (fun _ => "") e := by
  have hrun : (forgottenRun.map fun e => decide (e.batchStepIds = [2] ∧
      e.channel.next?.map (·.stepId) = some 1 ∧ e.discardResultStepIds = [])) = some true := by decide
  obtain ⟨e, hboot, h⟩ := Option.map_eq_some_iff.mp hrun
  obtain ⟨hids, hnext, hdiscard⟩ := of_decide_eq_true h
  have he : ((replicaMachine fun _ => "").restrict fun _ _ _ => True).Reachable e := by
    refine Replica.bootAllowed_reachable (fun _ _ _ _ _ => trivial) ?_
      (fun p => pipelinedBoot_started) hboot
    intro op hop
    simp only [List.mem_cons, List.not_mem_nil, or_false] at hop
    rcases hop with rfl | rfl | rfl | rfl | rfl | rfl | rfl
    · exact plainRequest_fresh (by decide)
    · trivial
    · trivial
    · trivial
    · exact plainRequest_fresh (by decide)
    · trivial
    · exact sampleSeven_samples
  refine ⟨e, Machine.restrict_reachable he, hids, hnext, hdiscard, fun hmatched => ?_⟩
  obtain ⟨result, hresult, hid⟩ := Option.map_eq_some_iff.mp hnext
  have hlive : result.stepId ∉ e.discardResultStepIds := by simp [hdiscard]
  have hsame := hmatched.oldest 2 [] result hids hresult hlive
  omega

end PyptoServing.Engine
