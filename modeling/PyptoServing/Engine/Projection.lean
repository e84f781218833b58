import PyptoServing.Engine.Delivery
import PyptoServing.Engine.Effects
import PyptoServing.Sched.Placeholders

/-!
# What a replica shows of one request

`Shows e r d` says that the replica `e` shows the request `r` as the delivery `d`. A result of a
step moves what it shows of each running request by `Delivery.receive`, whatever it does to the
other requests.
-/
namespace PyptoServing.Engine

open Lib Lib.Fallible Memory Sched Scheduler

/-- The same request, apart from the account of its blocks and positions. -/
structure Agrees (q q' : Request) : Prop where
  task : q'.task = q.task
  tokens : q'.outputTokenIds = q.outputTokenIds
  status : q'.status = q.status

namespace Agrees
variable {q q' q'' : Request}

theorem of_same (h : SameRequest q q') : Agrees q q' :=
  ⟨task_of_same h, h.outputTokenIds, h.status⟩

theorem trans (h : Agrees q q') (h' : Agrees q' q'') : Agrees q q'' :=
  ⟨h'.task.trans h.task, h'.tokens.trans h.tokens, h'.status.trans h.status⟩

theorem withStatus (h : Agrees q q') (status : RequestStatus) :
    Agrees { q with status } { q' with status } :=
  ⟨h.task, h.tokens, rfl⟩

theorem checkFinish (h : Agrees q q') : checkFinish q' = checkFinish q := by
  unfold Scheduler.checkFinish
  rw [h.tokens, show q'.eosTokenId = q.eosTokenId from (congrArg Request.eosTokenId h.task :),
    show q'.maxNewTokens = q.maxNewTokens from (congrArg Request.maxNewTokens h.task :)]

theorem appendTokens_snd (h : Agrees q q') (tokens : List Int) :
    (appendTokens q' tokens).2 = (appendTokens q tokens).2 :=
  appendTokens_snd_congr h.tokens (congrArg Request.eosTokenId h.task :)
    (congrArg Request.maxNewTokens h.task :) tokens

theorem appendTokens (h : Agrees q q') (tokens : List Int) :
    Agrees (appendTokens q tokens).1 (appendTokens q' tokens).1 := by
  rw [appendTokens_fst, appendTokens_fst, h.appendTokens_snd]
  refine ⟨h.task, ?_, h.status⟩
  rw [h.tokens]

theorem tokenOutput (h : Agrees q q') (ctx : Context) (out : RequestOutput) :
    Replica.tokenOutput q' ctx out = Replica.tokenOutput q ctx out := by
  unfold Replica.tokenOutput
  rw [h.tokens, show q'.numPromptTokens = q.numPromptTokens from numPromptTokens_task h.task]

theorem stopOutput (h : Agrees q q') (ctx : Context) (out : RequestOutput) :
    Replica.stopOutput q' ctx out = Replica.stopOutput q ctx out := by
  unfold Replica.stopOutput
  rw [show q'.stopStrings = q.stopStrings from (congrArg Request.stopStrings h.task :)]

end Agrees

/-- The result of a step appends to a request, unless the step was a chunk of its prompt. -/
theorem applied_agrees {config : SchedulerConfig} {share : StepShare} {q : Request}
    (tokens : List Int) (hsamples : config.asyncScheduling = true ∨ ¬ (share.isPrefill = true ∧
      q.numComputedTokens + share.numNewTokens < q.numPromptTokens)) :
    Agrees (appendTokens q tokens).1 (q.applied config share tokens) := by
  have hconf : Agrees q (q.confirmed share) := by
    refine ⟨confirmed_task q share, ?_, ?_⟩ <;> unfold Request.confirmed <;> split <;> rfl
  by_cases hasync : config.asyncScheduling = true
  · have hsettle : ∀ (r : Request) (reserved retained : Nat), Agrees r (settle r reserved retained) := by
      intro r reserved retained
      unfold settle
      split <;> exact ⟨rfl, rfl, rfl⟩
    rw [Request.applied, if_pos hasync]
    exact (hconf.appendTokens tokens).trans (hsettle _ _ _)
  · rw [Request.applied, if_neg hasync, stepped_eq]
    by_cases hp : share.isPrefill = true
    · have hend : ¬ (q.confirmed share).numComputedTokens + share.numNewTokens <
          (q.confirmed share).numPromptTokens := by
        rw [confirmed_numComputedTokens, numPromptTokens_task (confirmed_task q share)]
        exact fun hlt => hsamples.elim hasync fun hn => hn ⟨hp, hlt⟩
      rw [steppedFrom_prompt tokens hp hend]
      have hmoved : Agrees (q.confirmed share) { q.confirmed share with
          numComputedTokens := (q.confirmed share).numComputedTokens + share.numNewTokens } :=
        ⟨rfl, rfl, rfl⟩
      exact (hconf.trans hmoved).appendTokens tokens
    · rw [steppedFrom_decode tokens hp]
      exact (hconf.appendTokens tokens).trans ⟨rfl, rfl, rfl⟩

/-- What a replica shows of a request that has its context. -/
structure Shows (e : Replica) (r : RequestId) (d : Delivery) : Prop where
  tracked : r ∈ e.pipeline.sched.requests
  request : Agrees d.request (e.pipeline.sched.object r)
  ctx : e.clients.requestContexts.lookup r = some d.ctx
  emitted : e.clients.queues r = d.emitted.map .output

namespace Shows
variable {e e' : Replica} {r : RequestId} {d : Delivery} {out : RequestOutput}
  {outs : List RequestOutput} {decode : List Int → String}

theorem scheduleWorkerFree_rest (e : Replica) (r : RequestId) :
    (e.scheduleWorkerFree r).pipeline = e.pipeline ∧ (e.scheduleWorkerFree r).clients = e.clients := by
  unfold Replica.scheduleWorkerFree
  split <;> exact ⟨rfl, rfl⟩

/-- Delivering an output leaves the pipeline alone and touches the client of its request. -/
theorem publish_rest (e : Replica) (decode : List Int → String) (ctx : Context)
    (out : RequestOutput) :
    let request := e.pipeline.sched.object out.requestId
    let ctx' := if out.finished then ctx.finalizeDetokenization decode request.outputTokenIds else ctx
    (e.publish decode ctx out).pipeline = e.pipeline ∧
      (e.publish decode ctx out).clients =
        if !ctx'.stream && !out.finished then e.clients.setContext out.requestId ctx'
        else (e.clients.setContext out.requestId ctx').put out.requestId
          (.output (Replica.tokenOutput request ctx' out)) := by
  obtain ⟨hpipeline, hclients⟩ := scheduleWorkerFree_rest e out.requestId
  unfold Replica.publish
  dsimp only
  by_cases hf : out.finished = true
  · rw [if_pos hf, if_pos hf, hpipeline, hclients]
    exact ⟨rfl, rfl⟩
  · rw [if_neg hf, if_neg hf]
    exact ⟨rfl, rfl⟩

/-- The output of another request. -/
theorem publish_other (h : Shows e r d) (hid : out.requestId ≠ r) (ctx : Context) :
    Shows (e.publish decode ctx out) r d := by
  obtain ⟨hpipeline, hclients⟩ := publish_rest e decode ctx out
  generalize (if out.finished = true then ctx.finalizeDetokenization decode
    (e.pipeline.sched.object out.requestId).outputTokenIds else ctx) = ctx' at hclients
  have hctx : (e.clients.setContext out.requestId ctx').requestContexts.lookup r = some d.ctx :=
    (AList.lookup_insert_ne (Ne.symm hid)).trans h.ctx
  have hqueue : ∀ entry, ((e.clients.setContext out.requestId ctx').put out.requestId entry).queues r =
      d.emitted.map .output := fun entry =>
    (Function.update_of_ne (Ne.symm hid) _ _).trans h.emitted
  refine ⟨by rw [hpipeline]; exact h.tracked, by rw [hpipeline]; exact h.request, ?_, ?_⟩
  · rw [hclients]
    split <;> exact hctx
  · rw [hclients]
    split
    · exact h.emitted
    · exact hqueue _

/-- An output of the request whose stop check is done. -/
theorem publish_self (h : Shows e r d) (hid : out.requestId = r) (ctx : Context) :
    let ctx' := if out.finished then ctx.finalizeDetokenization decode d.request.outputTokenIds else ctx
    Shows (e.publish decode ctx out) r { d with
      ctx := ctx'
      emitted :=
        if !ctx'.stream && !out.finished then d.emitted
        else d.emitted ++ [Replica.tokenOutput d.request ctx' out] } := by
  subst hid
  obtain ⟨hpipeline, hclients⟩ := publish_rest e decode ctx out
  dsimp only at hclients ⊢
  rw [h.request.tokens] at hclients
  generalize (if out.finished = true then ctx.finalizeDetokenization decode d.request.outputTokenIds
    else ctx) = ctx' at hclients ⊢
  rw [h.request.tokenOutput] at hclients
  have hctx : (e.clients.setContext out.requestId ctx').requestContexts.lookup out.requestId =
      some ctx' := AList.lookup_insert _
  refine ⟨by rw [hpipeline]; exact h.tracked, by rw [hpipeline]; exact h.request, ?_, ?_⟩
  · rw [hclients]
    split <;> exact hctx
  · rw [hclients]
    split
    · exact h.emitted
    · rw [List.map_append, ← h.emitted]
      exact Function.update_self _ _ _

/-- One output of a result, for a request that the scheduler still has. -/
theorem deliver (h : Shows e r d) (hdel : Replica.deliver decode e out = .ok e') :
    Shows e' r (if out.requestId = r then d.deliver decode out else d) := by
  unfold Replica.deliver at hdel
  by_cases hid : out.requestId = r
  · rw [if_pos hid]
    rw [hid, h.ctx] at hdel
    dsimp only at hdel
    rw [h.request.tokens, h.request.stopOutput] at hdel
    unfold Delivery.deliver
    dsimp only
    generalize d.ctx.detokenizeIncrementally decode d.request.outputTokenIds = ctx at hdel ⊢
    have hout : (Replica.stopOutput d.request ctx out).requestId = r :=
      (Delivers.stopOutput_requestId _ _ _).trans hid
    generalize Replica.stopOutput d.request ctx out = checked at hdel hout ⊢
    split at hdel
    · next hstop =>
      obtain ⟨s, hfinish, hdel⟩ := bind_eq_ok.mp hdel
      cases hdel
      rw [if_pos hstop]
      rcases finishRequest_spec hfinish with ⟨hno, -⟩ | ⟨-, hends, -, hrequests⟩
      · exact absurd h.tracked hno
      · have hstopped : Shows { e with pipeline := { e.pipeline with sched := s } } r
            { d with request := { d.request with status := .finishedStop } } := by
          refine ⟨?_, (h.request.withStatus .finishedStop).trans (.of_same hends.self), h.ctx,
            h.emitted⟩
          rw [hrequests]
          exact h.tracked
        exact hstopped.publish_self hout ctx
    · next hgo =>
      cases hdel
      rw [if_neg hgo]
      exact h.publish_self hout ctx
  · rw [if_neg hid]
    split at hdel
    · cases hdel
      exact h
    · next ctx hctx =>
      dsimp only at hdel
      have hout : (Replica.stopOutput (e.pipeline.sched.object out.requestId)
          (ctx.detokenizeIncrementally decode
            (e.pipeline.sched.object out.requestId).outputTokenIds) out).requestId ≠ r := by
        rw [Delivers.stopOutput_requestId]
        exact hid
      split at hdel
      · obtain ⟨s, hfinish, hdel⟩ := bind_eq_ok.mp hdel
        cases hdel
        have hframe : Shows { e with pipeline := { e.pipeline with sched := s } } r d := by
          rcases finishRequest_spec hfinish with ⟨-, rfl⟩ | ⟨-, hends, -, hrequests⟩
          · exact ⟨h.tracked, h.request, h.ctx, h.emitted⟩
          · refine ⟨?_, h.request.trans (.of_same (hends.other r (Ne.symm hid))), h.ctx, h.emitted⟩
            rw [hrequests]
            exact h.tracked
        exact hframe.publish_other hout _
      · cases hdel
        exact h.publish_other hout _

/-- The loop of `_process_step_output`. -/
theorem deliverAll (h : Shows e r d) (hdel : outs.foldlM (Replica.deliver decode) e = .ok e') :
    Shows e' r ((outputsOf r outs).foldl (Delivery.deliver decode) d) := by
  induction outs generalizing e d with
  | nil =>
    cases hdel
    exact h
  | cons out outs ih =>
    rw [List.foldlM_cons] at hdel
    obtain ⟨e₁, hone, hdel⟩ := bind_eq_ok.mp hdel
    have hrest := ih (h.deliver hone) hdel
    by_cases hid : out.requestId = r
    · rw [if_pos hid] at hrest
      rw [outputsOf_cons_self hid]
      exact hrest
    · rw [if_neg hid] at hrest
      rw [outputsOf_cons_other hid]
      exact hrest

end Shows

section Results
variable {e e' : Replica} {d : Delivery} {sr : ScheduledRequest} {output : SchedulerOutput}
  {rest : List SchedulerOutput} {tokens : StepTokens} {s : Scheduler}
  {outputs : List RequestOutput} {decode : List Int → String}

/-- A result may bring tokens for a record: it was no chunk that ends inside the prompt. -/
def Samples (s : Scheduler) (sr : ScheduledRequest) : Prop :=
  s.config.asyncScheduling = true ∨ ¬ (sr.share.isPrefill = true ∧
    (s.object sr.requestId).numComputedTokens + sr.share.numNewTokens <
      (s.object sr.requestId).numPromptTokens)

/-- What `update_from_output` does to a running request and which outputs it gets. -/
theorem updateFromOutput_agrees {p : Pipeline} {q : Request} (hwf : p.WellFormed)
    (hfl : p.inFlight = output :: rest)
    (hupd : p.sched.updateFromOutput output tokens = .ok (s, outputs))
    (hsr : sr ∈ output.scheduledRequests) (hrun : sr.requestId ∈ p.sched.running)
    (hsamples : Samples p.sched sr) (hq : Agrees q (p.sched.object sr.requestId))
    (hid : q.requestId = sr.requestId) :
    Agrees (Delivery.update q (tokensFor tokens sr.requestId)).1 (s.object sr.requestId) ∧
      outputsOf sr.requestId outputs = (Delivery.update q (tokensFor tokens sr.requestId)).2 := by
  obtain ⟨mid, hu, rfl⟩ := hwf.update hfl hupd
  have hstatus := hwf.queues.running_status _ hrun
  have hlive : ¬ Dropped (p.sched.object sr.requestId).status := by
    rw [hstatus]
    decide
  have hnd : (output.scheduledRequests.map (·.requestId)).Nodup :=
    hwf.nodup output (by rw [hfl]; exact List.mem_cons_self)
  have hmid : Agrees (appendTokens q (tokensFor tokens sr.requestId)).1 (mid.object sr.requestId) :=
    ((hq.appendTokens _).trans (applied_agrees _ hsamples)).trans
      (.of_same (hu.applies.applied sr hsr hlive))
  have hrecord : recordOutputs p.sched tokens sr =
      ((tokensFor tokens sr.requestId).take (appendTokens q (tokensFor tokens sr.requestId)).2).map
        (tokenOutput q.requestId) := by
    rw [recordOutputs, if_neg hlive, Request.emitted, if_neg, hq.appendTokens_snd, hid]
    rintro ⟨hsync, hchunk⟩
    exact hsamples.elim hsync fun hn => hn hchunk
  have houts := outputsOf_finishRunning (r := sr.requestId) p.sched.running hwf.queues.running_nodup
    (mid, output.scheduledRequests.flatMap (recordOutputs p.sched tokens), []) fun x hx => by
      rw [hu.applies.running_status (hwf.queues.running_status x hx)]
      rfl
  rw [if_pos hrun, outputsOf_records hnd hsr, hrecord, hmid.checkFinish] at houts
  rw [houts, Delivery.update]
  dsimp only
  cases hfin : checkFinish (appendTokens q (tokensFor tokens sr.requestId)).1 with
  | none => exact ⟨hmid.trans (.of_same (hu.unfinished _ hrun (hmid.checkFinish.trans hfin))), rfl⟩
  | some status =>
    refine ⟨(hmid.withStatus status).trans
      (.of_same (hu.finished _ hrun status (hmid.checkFinish.trans hfin))), ?_⟩
    rw [hid]

/-- A result moves what the replica shows of a running request by `receive`. -/
theorem receive_shows (hwf : e.pipeline.WellFormed) (hfl : e.pipeline.inFlight = output :: rest)
    (hupd : e.pipeline.sched.updateFromOutput output tokens = .ok (s, outputs))
    {stepIds : List Nat} {channel : Channel}
    (hdel : outputs.foldlM (Replica.deliver decode) { e with
      pipeline := { e.pipeline with sched := s, inFlight := rest, mustAwait := false }
      batchStepIds := stepIds, channel } = .ok e')
    (hsr : sr ∈ output.scheduledRequests) (hrun : sr.requestId ∈ e.pipeline.sched.running)
    (hsamples : Samples e.pipeline.sched sr) (hid : d.request.requestId = sr.requestId)
    (h : Shows e sr.requestId d) :
    Shows e' sr.requestId (d.receive decode (tokensFor tokens sr.requestId)) := by
  obtain ⟨hagrees, houts⟩ := updateFromOutput_agrees hwf hfl hupd hsr hrun hsamples h.request hid
  obtain ⟨mid, hu, -⟩ := hwf.update hfl hupd
  have hopen : ¬ d.request.status.isFinished = true := by
    rw [← h.request.status, hwf.queues.running_status _ hrun]
    decide
  have hupdated : Shows { e with
      pipeline := { e.pipeline with sched := s, inFlight := rest, mustAwait := false }
      batchStepIds := stepIds, channel } sr.requestId
      { d with request := (Delivery.update d.request (tokensFor tokens sr.requestId)).1 } := by
    refine ⟨?_, hagrees, h.ctx, h.emitted⟩
    show sr.requestId ∈ s.requests
    rw [hu.requests]
    exact h.tracked
  rw [Delivery.receive, if_neg hopen]
  dsimp only
  rw [← houts]
  exact hupdated.deliverAll hdel

/-- A result for a request that has finished is dropped. -/
theorem receive_finished_shows {r : RequestId} {tokens' : List Int} (hwf : e.pipeline.WellFormed)
    (hfl : e.pipeline.inFlight = output :: rest)
    (hupd : e.pipeline.sched.updateFromOutput output tokens = .ok (s, outputs))
    {stepIds : List Nat} {channel : Channel}
    (hdel : outputs.foldlM (Replica.deliver decode) { e with
      pipeline := { e.pipeline with sched := s, inFlight := rest, mustAwait := false }
      batchStepIds := stepIds, channel } = .ok e')
    (hfinished : d.request.status.isFinished = true) (h : Shows e r d) :
    Shows e' r (d.receive decode tokens') := by
  have hnot : r ∉ e.pipeline.sched.running := by
    intro hrun
    rw [← h.request.status, hwf.queues.running_status _ hrun] at hfinished
    cases hfinished
  obtain ⟨mid, hu, -⟩ := hwf.update hfl hupd
  have houts : outputsOf r outputs = [] := by
    refine List.filter_eq_nil_iff.mpr fun out hout hid => hnot ?_
    rw [← of_decide_eq_true hid]
    exact (hwf.emits hfl hupd).running out hout
  have hkept : Shows { e with
      pipeline := { e.pipeline with sched := s, inFlight := rest, mustAwait := false }
      batchStepIds := stepIds, channel } r d := by
    refine ⟨?_, h.request.trans (.of_same (hwf.mid_idle hfl hu hnot)), h.ctx, h.emitted⟩
    show r ∈ s.requests
    rw [hu.requests]
    exact h.tracked
  have hshows := hkept.deliverAll hdel
  rw [houts] at hshows
  rw [Delivery.receive, if_pos hfinished]
  exact hshows

end Results

end PyptoServing.Engine
