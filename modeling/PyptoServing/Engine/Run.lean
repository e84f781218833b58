import PyptoServing.Engine.Replica

/-!
# Running a replica

`exec` computes the step of an operation, so that a concrete run can be evaluated. Where a
step has a choice, that of `exec` is the next thing in the queue.
-/
namespace PyptoServing.Engine

open Lib Lib.Fallible Memory Sched Server

namespace Replica
open Pipeline (toOption_eq_some)

/-- The engine's step on the result at the front of the output queue. -/
def execReceive (decode : List Int → String) (e : Replica) (result : StepResult) :
    Option Replica :=
  if result.stepId ∈ e.discardResultStepIds then none
  else
    match e.batchStepIds with
    | stepId :: stepIds =>
      if result.stepId = stepId ∧ result.error = none then
        match e.pipeline.inFlight with
        | [] => none
        | output :: rest =>
          (e.pipeline.sched.updateFromOutput output result.newTokens).toOption.bind fun updated =>
            (updated.2.foldlM (deliver decode) { e with
              pipeline := { e.pipeline with sched := updated.1, inFlight := rest, mustAwait := false }
              batchStepIds := stepIds
              channel := e.channel.receive }).toOption
      else
        (e.pipeline.exec .discard).map fun p =>
          { e.handleStepError p stepIds with channel := e.channel.receive }
    | [] =>
      match e.flushing with
      | none => none
      | some _ => some { e with flushing := none, channel := e.channel.receive }

/-- The generator of a request takes the next entry of its queue. -/
def execConsume (e : Replica) (r : RequestId) : Option Replica :=
  if e.clients.consumers.lookup r = some .waiting then
    match e.clients.next? r with
    | none => none
    | some (.failure _) => some { e with clients := ((e.clients.take r).forget r).close r }
    | some (.output output) =>
      some { e with clients := (e.clients.take r).suspend r (.yielded output.finished) }
  else none

def execDispatch (e : Replica) : Option Replica :=
  if e.flushing = none ∧ e.pipeline.inFlight.length < e.pipeline.sched.config.maxInFlight ∧
      e.pipeline.mustAwait = false ∧ e.pipeline.sched.hasWork then
    e.pipeline.sched.schedule.toOption.bind fun pass =>
      if pass.output.isEmpty then
        some (if e.pipeline.inFlight = [] then
          { (e.handlePass pass.output).flush with
            pipeline := { e.pipeline with sched := pass.sched, mustAwait := false } }
        else { e.handlePass pass.output with
          pipeline := { e.pipeline with sched := pass.sched, mustAwait := true } })
      else (pass.sched.advanceAfterSchedule pass.output).toOption.map fun advanced =>
        { (e.handlePass pass.output).sendStep pass with
          pipeline :=
            { e.pipeline with sched := advanced.1, inFlight := e.pipeline.inFlight ++ [advanced.2] } }
  else none

def exec (decode : List Int → String) (e : Replica) : ReplicaOp → Option Replica
  | .add request stream =>
    if request.requestId ∈ e.clients.usedIds then none
    else
      match e.pipeline.sched.addRequest request with
      | .error _ => some { e with clients := e.clients.enter request.requestId stream }
      | .ok _ =>
        if ∀ token ∈ request.promptTokenIds, 0 ≤ token then
          (e.pipeline.exec (.add request)).map fun p => { e with
            pipeline := p
            clients := (e.clients.enter request.requestId stream).suspend request.requestId .waiting }
        else none
  | .dispatch => e.execDispatch
  | .flush =>
    if e.flushing = none ∧ e.pipeline.inFlight = [] ∧ e.pipeline.sched.hasWork = false then
      some e.flush
    else none
  | .receive => e.channel.next?.bind fun result => e.execReceive decode result
  | .drain => e.channel.next?.bind fun result =>
    if (e.batchStepIds ≠ [] ∨ e.flushing.isSome = true) ∧ result.stepId ∈ e.discardResultStepIds then
      some { e with
        discardResultStepIds := e.discardResultStepIds.filter (· ≠ result.stepId)
        channel := e.channel.receive }
    else none
  | .timeout =>
    if e.channel.next?.isSome then none
    else
      match e.batchStepIds with
      | stepId :: stepIds =>
        (e.pipeline.exec .discard).map fun p => e.handleStepError p (stepId :: stepIds)
      | [] => if e.flushing.isSome then some { e with flushing := none } else none
  | .consume r => e.execConsume r
  | .resume r =>
    match e.clients.consumers.lookup r with
    | some (.yielded false) => some { e with clients := e.clients.suspend r .waiting }
    | some (.yielded true) => some { e with clients := e.clients.close r }
    | _ => none
  | .cancel r =>
    if r ∈ e.clients.consumers then
      if r ∈ e.clients.requestContexts then
        (e.pipeline.exec (.abort r)).map fun p =>
          { e.release p r with clients := (e.clients.forget r).close r }
      else some { e with clients := e.clients.close r }
    else none
  | .abort r =>
    if r ∈ e.clients.requestContexts then
      (e.pipeline.exec (.abort r)).map fun p => { e.release p r with
        clients := (e.clients.forget r).put r
          (.output { finished := true, finishReason := RequestStatus.finishedAborted.name }) }
    else some e
  | .work x => e.channel.commands[e.channel.results.length]?.map fun built =>
    { e with channel := e.channel.execute built x }

/-- What `exec` does not check: arrivals are new and samples are well formed. -/
def OpSound : ReplicaOp → Prop
  | .add request _ => request.Fresh
  | .work x => x.Samples
  | _ => True

variable {decode : List Int → String} {e e' : Replica} {op : ReplicaOp}

theorem execReceive_step {result : StepResult} (hnext : e.channel.next? = some result)
    (h : e.execReceive decode result = some e') : Step decode e .receive e' := by
  unfold execReceive at h
  split at h
  · cases h
  · next hlive =>
    split at h
    · next stepId stepIds hids =>
      split at h
      · next hok =>
        split at h
        · cases h
        · next output rest hfl =>
          obtain ⟨⟨s, outputs⟩, hupd, h⟩ := Option.bind_eq_some_iff.mp h
          exact .receive hids hnext hlive hok.1 hok.2 hfl (toOption_eq_some hupd)
            (toOption_eq_some h)
      · next hbad =>
        obtain ⟨p, hp, rfl⟩ := Option.map_eq_some_iff.mp h
        have hdrop : e.pipeline.Step .discard p := Pipeline.exec_step (fun _ hq => nomatch hq) hp
        by_cases hid : result.stepId = stepId
        · refine .failed hids hnext hlive hid ?_ hdrop
          exact Option.isSome_iff_ne_none.mpr fun hnone => hbad ⟨hid, hnone⟩
        · exact .desync hids hnext hlive hid hdrop
    · split at h
      · cases h
      · next stepId hflush =>
        cases h
        exact .flushed hflush hnext hlive

theorem execDispatch_step (h : e.execDispatch = some e') : Step decode e .dispatch e' := by
  unfold execDispatch at h
  split at h
  · next hready =>
    obtain ⟨hflush, hroom, hfree, hwork⟩ := hready
    have hr : e.pipeline.Ready := ⟨hroom, hfree, hwork⟩
    obtain ⟨pass, hsched, h⟩ := Option.bind_eq_some_iff.mp h
    split at h
    · next hempty =>
      split at h
      · next hnil =>
        cases h
        exact .idle hflush hr (toOption_eq_some hsched) hempty hnil
      · next hne =>
        cases h
        exact .await hflush hr (toOption_eq_some hsched) hempty hne
    · next hne =>
      obtain ⟨⟨s, output⟩, hadv, rfl⟩ := Option.map_eq_some_iff.mp h
      exact .dispatch hflush hr (toOption_eq_some hsched) (by simpa using hne)
        (toOption_eq_some hadv)
  · cases h

theorem execAdd_step {request : Request} {stream : Bool} (hop : request.Fresh)
    (h : e.exec decode (.add request stream) = some e') :
    Step decode e (.add request stream) e' := by
  simp only [exec] at h
  split at h
  · cases h
  · next hid =>
    split at h
    · next reason hadd =>
      cases h
      exact .refuse hop hid hadd
    · split at h
      · next henc =>
        obtain ⟨p, hp, rfl⟩ := Option.map_eq_some_iff.mp h
        refine .add hid henc (Pipeline.exec_step (fun q hq => ?_) hp)
        cases hq
        exact hop
      · cases h

theorem execTimeout_step (h : e.exec decode .timeout = some e') : Step decode e .timeout e' := by
  simp only [exec] at h
  split at h
  · cases h
  · next hnone =>
    replace hnone : e.channel.next? = none := by simpa using hnone
    split at h
    · next stepId stepIds hids =>
      obtain ⟨p, hp, rfl⟩ := Option.map_eq_some_iff.mp h
      have hdrop : e.pipeline.Step .discard p := Pipeline.exec_step (fun _ hq => nomatch hq) hp
      exact .timeout hids hnone hdrop
    · split at h
      · next hflush =>
        obtain ⟨stepId, hflush⟩ := Option.isSome_iff_exists.mp hflush
        cases h
        exact .flushTimeout hflush hnone
      · cases h

theorem execCancel_step {r : RequestId} (h : e.exec decode (.cancel r) = some e') :
    Step decode e (.cancel r) e' := by
  simp only [exec] at h
  split at h
  · next hcons =>
    split at h
    · next hctx =>
      obtain ⟨p, hp, rfl⟩ := Option.map_eq_some_iff.mp h
      have habort : e.pipeline.Step (.abort r) p := Pipeline.exec_step (fun _ hq => nomatch hq) hp
      exact .cancel hcons hctx habort
    · next hctx =>
      cases h
      exact .leave hcons hctx
  · cases h

theorem execAbort_step {r : RequestId} (h : e.exec decode (.abort r) = some e') :
    Step decode e (.abort r) e' := by
  simp only [exec] at h
  split at h
  · next hctx =>
    obtain ⟨p, hp, rfl⟩ := Option.map_eq_some_iff.mp h
    have habort : e.pipeline.Step (.abort r) p := Pipeline.exec_step (fun _ hq => nomatch hq) hp
    exact .abort hctx habort
  · next hctx =>
    cases h
    exact .unknown hctx

theorem exec_step (hop : OpSound op) (h : e.exec decode op = some e') : Step decode e op e' := by
  cases op with
  | add request stream => exact execAdd_step hop h
  | dispatch => exact execDispatch_step h
  | flush =>
    simp only [exec] at h
    split at h
    · next hidle =>
      cases h
      exact .flush hidle.1 hidle.2.1 hidle.2.2
    · cases h
  | receive =>
    obtain ⟨result, hnext, h⟩ := Option.bind_eq_some_iff.mp h
    exact execReceive_step hnext h
  | drain =>
    obtain ⟨result, hnext, h⟩ := Option.bind_eq_some_iff.mp h
    split at h
    · next hdrop =>
      cases h
      exact .drain hdrop.1 hnext hdrop.2
    · cases h
  | timeout => exact execTimeout_step h
  | consume r =>
    simp only [exec, execConsume] at h
    split at h
    · next hwait =>
      split at h
      · cases h
      · next reason hnext =>
        cases h
        exact .takeFailure hwait hnext
      · next output hnext =>
        cases h
        exact .takeOutput hwait hnext
    · cases h
  | resume r =>
    simp only [exec] at h
    split at h
    · next hy =>
      cases h
      exact .resume hy
    · next hy =>
      cases h
      exact .complete hy
    · cases h
  | cancel r => exact execCancel_step h
  | abort r => exact execAbort_step h
  | work x =>
    obtain ⟨built, hbuilt, rfl⟩ := Option.map_eq_some_iff.mp h
    exact .work hop hbuilt

/-- Run operations, as long as each is allowed. -/
def execAllowed (decode : List Int → String) (allowed : Replica → ReplicaOp → Bool) (e : Replica)
    (ops : List ReplicaOp) : Option Replica :=
  ops.foldlM (fun e op => if allowed e op then e.exec decode op else none) e

/-- A computed run of allowed operations is a run of the restricted machine. -/
theorem execAllowed_reachable {C : Replica → ReplicaOp → Replica → Prop}
    {allowed : Replica → ReplicaOp → Bool} {ops : List ReplicaOp}
    (hC : ∀ e op e', op ∈ ops → allowed e op = true → C e op e') (hops : ∀ op ∈ ops, OpSound op)
    (he : ((replicaMachine decode).restrict C).Reachable e)
    (h : execAllowed decode allowed e ops = some e') :
    ((replicaMachine decode).restrict C).Reachable e' := by
  induction ops generalizing e with
  | nil =>
    cases h
    exact he
  | cons op ops ih =>
    rw [execAllowed, List.foldlM_cons] at h
    obtain ⟨e₁, hone, h⟩ := Option.bind_eq_some_iff.mp h
    split at hone
    · next hop =>
      have hstep : ((replicaMachine decode).restrict C).step e op e₁ :=
        ⟨exec_step (hops op (by simp)) hone, hC e op e₁ (by simp) hop⟩
      exact ih (fun e op e' hmem => hC e op e' (by simp [hmem])) (fun op hmem => hops op (by simp [hmem]))
        (he.next hstep) h
    · cases hone

/-- Boot a pipeline and run. -/
def bootAllowed (decode : List Int → String) (allowed : Replica → ReplicaOp → Bool)
    (boot : Option Pipeline) (ops : List ReplicaOp) : Option Replica :=
  boot.bind fun p => execAllowed decode allowed { pipeline := p } ops

theorem bootAllowed_reachable {C : Replica → ReplicaOp → Replica → Prop}
    {allowed : Replica → ReplicaOp → Bool} {boot : Option Pipeline} {ops : List ReplicaOp}
    (hC : ∀ e op e', op ∈ ops → allowed e op = true → C e op e') (hops : ∀ op ∈ ops, OpSound op)
    (hboot : ∀ p, boot = some p → p.Started)
    (h : bootAllowed decode allowed boot ops = some e') :
    ((replicaMachine decode).restrict C).Reachable e' := by
  obtain ⟨p, hp, h⟩ := Option.bind_eq_some_iff.mp h
  exact execAllowed_reachable hC hops (.start ⟨hboot p hp, rfl⟩) h

end Replica

/-- An executor that samples the token 7 everywhere. -/
def sampleSeven : Execution where
  prefillToken := fun _ => 7
  decodeTokens := fun _ => [7]

theorem sampleSeven_samples : sampleSeven.Samples := by
  refine ⟨fun r => ?_, fun r token htoken => ?_, fun r => List.cons_ne_nil 7 []⟩
  · show (0 : Int) ≤ 7
    decide
  · rw [List.mem_singleton.mp htoken]
    decide

/-- Two steps in flight, four blocks of two tokens, no prefix cache. -/
def pipelinedConfig : SchedulerConfig :=
  { SchedulerConfig.defaults with enablePrefixCache := false, asyncScheduling := true }

def pipelinedBoot : Option Pipeline :=
  Pipeline.boot KvCacheManager.encodingHash [] 2 2 4 pipelinedConfig

theorem pipelinedBoot_started {p : Pipeline} (h : pipelinedBoot = some p) : p.Started :=
  Pipeline.boot_started (by decide) h

end PyptoServing.Engine
