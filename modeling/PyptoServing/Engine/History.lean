import PyptoServing.Engine.Registration
import PyptoServing.Sched.Coverage

/-!
# The commands sent so far

What the engine knows is what its commands registered and released. A command is built with
at most one step in flight, so an entry with a placeholder comes right behind the command
that samples its token, with no release or registration of the request in between.
-/
namespace PyptoServing.Engine

open Lib Lib.Fallible Memory Sched Server
open Scheduler (tokensFor)

/-- The messages on the input queue. -/
def Channel.sent (c : Channel) : List Message := c.commands.map fun built => .step built.command

def Replica.promptLength (e : Replica) (r : RequestId) : Nat :=
  (e.pipeline.sched.object r).numPromptTokens

/-- A command whose step samples for a request with a prompt of `n` tokens. -/
def SamplesFor (n : Nat) (cmd : StepCommand) (r : RequestId) : Prop :=
  (∃ dr ∈ cmd.decodeRequests, dr.requestId = r) ∨
    ∃ pr ∈ cmd.prefillRequests, pr.requestId = r ∧ n ≤ pr.numComputedTokens + pr.chunkTokens.length

/-- The entry with a placeholder for `r` in a command comes right behind `prev`. -/
structure Follows (n : Nat) (prev cmd : StepCommand) (r : RequestId) : Prop where
  samples : SamplesFor n prev r
  kept : r ∉ cmd.finishedRequestIds
  registered : r ∉ cmd.newIds

structure History (e : Replica) : Prop where
  known : e.workerKnownReqIds = knownIds e.channel.sent
  recorded : ∀ (i : Nat) (built : Built), e.channel.commands[i]? = some built →
    built.known = knownIds (e.channel.sent.take (i + 1))
  built : EngineBuilt e.channel.sent
  nodup : ∀ built ∈ e.channel.commands, built.command.scheduledIds.Nodup
  data : ∀ built ∈ e.channel.commands, ∀ data ∈ built.command.newRequests,
    data.requestId ∈ e.pipeline.issued ∧
      data.promptTokenIds = (e.pipeline.sched.object data.requestId).promptTokenIds
  scheduled : ∀ built ∈ e.channel.commands, ∀ r ∈ built.command.scheduledIds, r ∈ e.pipeline.issued
  last : ∀ output, e.pipeline.inFlight.getLast? = some output →
    ∃ built, e.channel.commands.getLast? = some built ∧ ∀ sr ∈ output.scheduledRequests,
      (sr.isPrefill = true → e.promptLength sr.requestId ≤ sr.numComputedTokens + sr.numNewTokens) →
      SamplesFor (e.promptLength sr.requestId) built.command sr.requestId
  anticipated : ∀ (i : Nat) (built : Built), e.channel.commands[i]? = some built →
    ∀ dr ∈ built.command.decodeRequests, dr.lastToken = placeholderToken →
      ∃ j prev, i = j + 1 ∧ e.channel.commands[j]? = some prev ∧
        Follows (e.promptLength dr.requestId) prev.command built.command dr.requestId

section Run
variable {p p' : Pipeline} {ops : List PipelineOp} {r : RequestId}

theorem run_keeps (hp : pipelineMachine.Reachable p) (hrun : pipelineMachine.Run p ops p')
    (hr : r ∈ p.issued) : r ∈ p'.issued ∧
      (p'.sched.object r).promptTokenIds = (p.sched.object r).promptTokenIds ∧
      ∀ token ∈ (p'.sched.object r).outputTokenIds, token ∈ (p.sched.object r).outputTokenIds ∨
        ∃ tokens, .complete tokens ∈ ops ∧ token ∈ tokensFor tokens r := by
  induction hrun with
  | nil => exact ⟨hr, rfl, fun token => .inl⟩
  | @snoc q q' ops op hrun hstep ih =>
    obtain ⟨hr, hprompt, hout⟩ := ih
    have hwf := wellFormed_of_reachable (hp.run hrun)
    obtain ⟨hprompt', hout'⟩ := step_keeps hwf hstep hr
    refine ⟨?_, hprompt'.trans hprompt, fun token htoken => ?_⟩
    · cases hstep with
      | add => exact List.mem_cons_of_mem _ hr
      | _ => exact hr
    · rcases hout' token htoken with htoken | ⟨tokens, rfl, hmem⟩
      · refine (hout token htoken).imp_right ?_
        rintro ⟨tokens, hmem, htok⟩
        exact ⟨tokens, List.mem_append_left _ hmem, htok⟩
      · exact .inr ⟨tokens, by simp, hmem⟩

/-- Only an arrival uses a new id. -/
theorem run_issued (hrun : pipelineMachine.Run p ops p') (hr : r ∈ p'.issued) :
    r ∈ p.issued ∨ ∃ request, .add request ∈ ops ∧ r = request.requestId := by
  induction hrun with
  | nil => exact .inl hr
  | snoc _ hstep ih =>
    rcases step_issued hstep hr with hr | ⟨request, rfl, hid⟩
    · refine (ih hr).imp_right ?_
      rintro ⟨request, hmem, hid⟩
      exact ⟨request, List.mem_append_left _ hmem, hid⟩
    · exact .inr ⟨request, by simp, hid⟩

end Run

variable {e e' : Replica} {op : ReplicaOp} {decode : List Int → String}

/-- A step of the replica keeps the prompts. -/
theorem step_promptLength {r : RequestId} (hp : pipelineMachine.Reachable e.pipeline)
    (hstep : Replica.Step decode e op e') (hr : r ∈ e.pipeline.issued) :
    r ∈ e'.pipeline.issued ∧ (e'.pipeline.sched.object r).promptTokenIds =
      (e.pipeline.sched.object r).promptTokenIds := by
  obtain ⟨ops, hrun, -⟩ := step_pipeline (wellFormed_of_reachable hp) hstep
  obtain ⟨hissued, hprompt, -⟩ := run_keeps hp hrun hr
  exact ⟨hissued, hprompt⟩

/-- Every token id is a vocabulary index. -/
structure Encodes (e : Replica) : Prop where
  requests : ∀ r ∈ e.pipeline.issued, ∀ token ∈ (e.pipeline.sched.object r).allTokenIds, 0 ≤ token
  results : ∀ result ∈ e.channel.results, ∀ r, ∀ token ∈ tokensFor result.newTokens r, 0 ≤ token

namespace Encodes

theorem start (h : e.Started) : Encodes e := by
  have hissued := h.pipeline.issued
  rw [h.rest]
  exact ⟨by simp [hissued], by simp⟩

theorem step (h : Encodes e) (hp : pipelineMachine.Reachable e.pipeline)
    (hstep : Replica.Step decode e op e') : Encodes e' := by
  have hwf := wellFormed_of_reachable hp
  constructor
  · obtain ⟨ops, hrun, hops⟩ := step_pipeline hwf hstep
    intro r hr token htoken
    by_cases hold : r ∈ e.pipeline.issued
    · obtain ⟨-, hprompt, hout⟩ := run_keeps hp hrun hold
      have hreq := h.requests r hold
      rw [Request.allTokenIds, List.mem_append, hprompt] at htoken
      rw [Request.allTokenIds] at hreq
      rcases htoken with htoken | htoken
      · exact hreq token (List.mem_append_left _ htoken)
      · rcases hout token htoken with htoken | ⟨tokens, hmem, htok⟩
        · exact hreq token (List.mem_append_right _ htoken)
        · obtain ⟨result, hnext, rfl⟩ := hops _ hmem
          exact h.results result (List.mem_of_getElem? hnext) r token htok
    · obtain ⟨request, hmem, rfl⟩ := (run_issued hrun hr).resolve_left hold
      obtain ⟨⟨stream, rfl⟩, henc⟩ := hops _ hmem
      cases hstep with
      | add _ _ hstep =>
        cases hstep with
        | add hfresh _ hadd =>
          obtain ⟨stored, hstored, rfl⟩ := Scheduler.addRequest_spec hadd
          dsimp only at htoken
          rw [Function.update_self, Request.allTokenIds, hstored.eq, List.mem_append] at htoken
          refine henc token (htoken.resolve_right ?_)
          rw [hfresh.defaults]
          exact List.not_mem_nil
      | refuse => exact absurd hr hold
  · intro result hresult r token htoken
    cases step_traffic hwf hstep with
    | quiet hq =>
      rw [hq.results] at hresult
      exact h.results result hresult r token htoken
    | @sent pass _ _ _ _ _ =>
      have hn := Replica.handlePass_notifies e pass.output
      have hsame : (e.handlePass pass.output).channel.results = e.channel.results := by rw [hn.rest]
      exact h.results result (hsame ▸ hresult) r token htoken
    | @flushed _ e₁ hq _ hpend =>
      rw [Replica.flush, if_neg hpend] at hresult
      exact h.results result (hq.results ▸ hresult) r token htoken
    | @worked built x hx _ =>
      rcases List.mem_append.mp hresult with hresult | hresult
      · exact h.results result hresult r token htoken
      · rw [List.mem_singleton.mp hresult] at htoken
        rcases Worker.mem_runStepCommand htoken with rfl | htoken
        · exact hx.prefill r
        · exact hx.decode r token htoken

end Encodes

theorem encodes_of_reachable (h : (replicaMachine decode).Reachable e) : Encodes e :=
  h.invariant (fun _ => Encodes.start) fun _ _ _ hr hi hstep =>
    hi.step (pipeline_reachable hr) hstep

theorem placeholder_of_lastToken {q : Request} (hq : ∀ token ∈ q.allTokenIds, 0 ≤ token)
    (h : lastToken q = placeholderToken) : 0 < q.numOutputPlaceholders := by
  by_contra hzero
  rw [lastToken, if_neg hzero] at h
  have hlast : ∀ token ∈ q.outputTokenIds.getLast?.orElse fun _ => q.promptTokenIds.getLast?,
      0 ≤ token := by
    intro token htoken
    cases hout : q.outputTokenIds.getLast? with
    | some last =>
      rw [hout, Option.orElse_some, Option.mem_some_iff] at htoken
      subst htoken
      exact hq _ (List.mem_append_right _ (List.mem_of_getLast? hout))
    | none =>
      rw [hout, Option.orElse_none] at htoken
      exact hq _ (List.mem_append_left _ (List.mem_of_getLast? htoken))
  cases hopt : q.outputTokenIds.getLast?.orElse fun _ => q.promptTokenIds.getLast? with
  | none =>
    rw [hopt] at h
    cases h
  | some token =>
    have hpos := hlast token hopt
    rw [hopt, Option.getD_some] at h
    rw [h] at hpos
    exact absurd hpos (by decide)

/-- The requests of an older state keep their prompts. -/
def Keeps (e e' : Replica) : Prop := ∀ r ∈ e.pipeline.issued, r ∈ e'.pipeline.issued ∧
  (e'.pipeline.sched.object r).promptTokenIds = (e.pipeline.sched.object r).promptTokenIds

theorem Keeps.promptLength (h : Keeps e e') {r : RequestId} (hr : r ∈ e.pipeline.issued) :
    e'.promptLength r = e.promptLength r := congrArg List.length (h r hr).2

namespace History

theorem start (h : e.Started) : History e := by
  have hfl := h.pipeline.inFlight
  rw [h.rest]
  exact ⟨rfl, by simp, engineBuilt_nil, by simp, by simp, by simp, by simp [hfl], by simp⟩

/-- Without a new command. -/
theorem quiet (h : History e) (hwf : e.pipeline.WellFormed) (hq : Quiet e e') (hk : Keeps e e') :
    History e' := by
  have hsent : e'.channel.sent = e.channel.sent := by
    rw [Channel.sent, hq.commands]
    rfl
  constructor
  · rw [hq.known, hsent]
    exact h.known
  · rw [hq.commands, hsent]
    exact h.recorded
  · rw [hsent]
    exact h.built
  · rw [hq.commands]
    exact h.nodup
  · intro built hbuilt data hdata
    rw [hq.commands] at hbuilt
    obtain ⟨hissued, hprompt⟩ := h.data built hbuilt data hdata
    obtain ⟨hissued', hprompt'⟩ := hk _ hissued
    exact ⟨hissued', hprompt.trans hprompt'.symm⟩
  · intro built hbuilt r hr
    rw [hq.commands] at hbuilt
    exact (hk r (h.scheduled built hbuilt r hr)).1
  · intro output hlast
    rcases hq.last with hnil | hsame
    · rw [hnil] at hlast
      cases hlast
    · rw [hsame] at hlast
      obtain ⟨built, hbuilt, hsamples⟩ := h.last output hlast
      rw [hq.commands]
      refine ⟨built, hbuilt, fun sr hsr => ?_⟩
      have hissued := hwf.recorded output (List.mem_of_getLast? hlast) sr.requestId
        (List.mem_map_of_mem hsr)
      rw [hk.promptLength hissued]
      exact hsamples sr hsr
  · intro i built hbuilt dr hdr hph
    rw [hq.commands] at hbuilt ⊢
    have hissued := h.scheduled built (List.mem_of_getElem? hbuilt) dr.requestId
      (List.mem_append_right _ (List.mem_map_of_mem hdr))
    rw [hk.promptLength hissued]
    exact h.anticipated i built hbuilt dr hdr hph

theorem getElem?_concat_some {α : Type*} {l : List α} {a x : α} {i : Nat}
    (h : (l ++ [a])[i]? = some x) : l[i]? = some x ∨ (i = l.length ∧ x = a) := by
  by_cases hi : i < l.length
  · rw [List.getElem?_append_left hi] at h
    exact .inl h
  · obtain ⟨hlt, -⟩ := List.getElem?_eq_some_iff.mp h
    rw [List.length_append, List.length_singleton] at hlt
    obtain rfl : i = l.length := by omega
    rw [List.getElem?_concat_length, Option.some.injEq] at h
    exact .inr ⟨rfl, h.symm⟩

/-- One more command, without a step in flight that would not be its own. -/
theorem send {cmd : StepCommand} {known : List RequestId} {e₁ : Replica} (h : History e)
    (hk : Keeps e e₁) (hcommands : e₁.channel.commands = e.channel.commands ++ [⟨cmd, known⟩])
    (hknown : e₁.workerKnownReqIds = known)
    (hafter : known = knownAfter e.workerKnownReqIds (.step cmd))
    (hreg : ∀ r ∈ cmd.scheduledIds, r ∈ known ∧ r ∈ e₁.pipeline.issued)
    (hfresh : ∀ r ∈ cmd.newIds, r ∈ e.workerKnownReqIds → r ∈ cmd.finishedRequestIds)
    (hnd : cmd.scheduledIds.Nodup)
    (hdata : ∀ data ∈ cmd.newRequests, data.requestId ∈ e₁.pipeline.issued ∧
      data.promptTokenIds = (e₁.pipeline.sched.object data.requestId).promptTokenIds)
    (hlast : ∀ output, e₁.pipeline.inFlight.getLast? = some output →
      ∀ sr ∈ output.scheduledRequests,
      (sr.isPrefill = true → e₁.promptLength sr.requestId ≤ sr.numComputedTokens + sr.numNewTokens) →
      SamplesFor (e₁.promptLength sr.requestId) cmd sr.requestId)
    (hant : ∀ dr ∈ cmd.decodeRequests, dr.lastToken = placeholderToken →
      ∃ prev, e.channel.commands.getLast? = some prev ∧
        Follows (e₁.promptLength dr.requestId) prev.command cmd dr.requestId) : History e₁ := by
  have hsent : e₁.channel.sent = e.channel.sent ++ [.step cmd] := by
    rw [Channel.sent, hcommands, List.map_append]
    rfl
  have hlen : e.channel.sent.length = e.channel.commands.length := List.length_map _
  have hnext : knownIds e₁.channel.sent = known := by
    rw [hsent, knownIds, List.foldl_append, hafter, h.known]
    rfl
  have hcases : ∀ (i : Nat) (built : Built), e₁.channel.commands[i]? = some built →
      e.channel.commands[i]? = some built ∨
        (i = e.channel.commands.length ∧ built = ⟨cmd, known⟩) := by
    intro i built hbuilt
    rw [hcommands] at hbuilt
    exact getElem?_concat_some hbuilt
  have hmem : ∀ built ∈ e₁.channel.commands, built ∈ e.channel.commands ∨ built = ⟨cmd, known⟩ := by
    intro built hbuilt
    rw [hcommands] at hbuilt
    simpa using hbuilt
  constructor
  · rw [hknown, hnext]
  · intro i built hbuilt
    rw [hsent]
    rcases hcases i built hbuilt with hbuilt | ⟨rfl, rfl⟩
    · obtain ⟨hlt, -⟩ := List.getElem?_eq_some_iff.mp hbuilt
      rw [List.take_append_of_le_length (by omega)]
      exact h.recorded i built hbuilt
    · rw [← hsent, List.take_of_length_le (by rw [hsent]; simp [hlen]), hnext]
  · rw [hsent]
    refine h.built.snoc cmd (fun r hr => ?_) fun r hr hkn => ?_
    · rw [← h.known, ← hafter]
      exact (hreg r hr).1
    · rw [← h.known] at hkn
      exact hfresh r hr hkn
  · intro built hbuilt
    rcases hmem built hbuilt with hbuilt | rfl
    · exact h.nodup built hbuilt
    · exact hnd
  · intro built hbuilt data hd
    rcases hmem built hbuilt with hbuilt | rfl
    · obtain ⟨hissued, hprompt⟩ := h.data built hbuilt data hd
      obtain ⟨hissued', hprompt'⟩ := hk _ hissued
      exact ⟨hissued', hprompt.trans hprompt'.symm⟩
    · exact hdata data hd
  · intro built hbuilt r hr
    rcases hmem built hbuilt with hbuilt | rfl
    · exact (hk r (h.scheduled built hbuilt r hr)).1
    · exact (hreg r hr).2
  · intro output hout
    exact ⟨⟨cmd, known⟩, by rw [hcommands, List.getLast?_concat], hlast output hout⟩
  · intro i built hbuilt dr hdr hph
    rcases hcases i built hbuilt with hbuilt | ⟨rfl, rfl⟩
    · obtain ⟨j, prev, rfl, hprev, hfol⟩ := h.anticipated i built hbuilt dr hdr hph
      have hissued := h.scheduled built (List.mem_of_getElem? hbuilt) dr.requestId
        (List.mem_append_right _ (List.mem_map_of_mem hdr))
      obtain ⟨hlt, -⟩ := List.getElem?_eq_some_iff.mp hprev
      rw [hk.promptLength hissued]
      refine ⟨j, prev, rfl, ?_, hfol⟩
      rw [hcommands, List.getElem?_append_left hlt]
      exact hprev
    · obtain ⟨prev, hprev, hfol⟩ := hant dr hdr hph
      rw [List.getLast?_eq_getElem?] at hprev
      obtain ⟨hlt, -⟩ := List.getElem?_eq_some_iff.mp hprev
      refine ⟨e.channel.commands.length - 1, prev, by omega, ?_, hfol⟩
      rw [hcommands, List.getElem?_append_left hlt]
      exact hprev

section Dispatch
variable {pass : Pass} {s : Scheduler} {output : SchedulerOutput}

/-- A record of a pass against the state before it: a decode belongs to a request that ran
already and stays. -/
structure PassRecord (p : Pipeline) (pass : Pass) (sr : ScheduledRequest) : Prop where
  issued : sr.requestId ∈ p.issued
  prompt : (pass.sched.object sr.requestId).promptTokenIds =
    (p.sched.object sr.requestId).promptTokenIds
  decode : sr.isPrefill = false → sr.requestId ∈ p.sched.running ∧
    sr.requestId ∉ pass.output.preemptedRequests ∧
    SameRequest (p.sched.object sr.requestId) (pass.sched.object sr.requestId)

theorem pass_record (hwf : e.pipeline.WellFormed) (hready : e.pipeline.Ready)
    (hsched : e.pipeline.sched.schedule = .ok pass) {sr : ScheduledRequest}
    (hsr : sr ∈ pass.output.scheduledRequests) : PassRecord e.pipeline pass sr := by
  obtain ⟨admitted, rejected, ha⟩ := hwf.afterPass hready hsched
  have hissued : sr.requestId ∈ e.pipeline.issued :=
    ha.issued _ (ha.tracked _ (.inl (ha.scheduled _ (List.mem_map_of_mem hsr))))
  rcases ha.summary.records sr hsr with ⟨hrun, hout, hsized⟩ | ⟨hadm, c, hc, hsized, hobj⟩
  · have hsame := ha.summary.running_object hwf.queues hrun hout
    exact ⟨hissued, hsame.promptTokenIds, fun _ => ⟨hrun, hout, hsame⟩⟩
  · refine ⟨hissued, hobj.promptTokenIds, fun hpre => ?_⟩
    have hlt : ((e.pipeline.sched.object sr.requestId).resumedAt c).isPrefill = true :=
      decide_eq_true hc
    rw [hsized.isPrefill, hlt] at hpre
    cases hpre

/-- The entry of a record samples when the record does. -/
theorem samplesFor_entry {object : RequestId → Request} {records : List ScheduledRequest}
    {before after : StepCommand × List RequestId} (hholds : Holds object records before after)
    {sr : ScheduledRequest} (hsr : sr ∈ records)
    (hdone : sr.isPrefill = true →
      (object sr.requestId).numPromptTokens ≤ sr.numComputedTokens + sr.numNewTokens) :
    SamplesFor (object sr.requestId).numPromptTokens after.1 sr.requestId := by
  cases hpre : sr.isPrefill with
  | false =>
    refine .inl ⟨decodeEntry (object sr.requestId) sr, ?_, rfl⟩
    rw [hholds.decode]
    exact List.mem_append_right _ (List.mem_map.mpr ⟨sr, by simp [hsr, hpre], rfl⟩)
  | true =>
    refine .inr ⟨prefillEntry (object sr.requestId) sr, ?_, rfl, ?_⟩
    · rw [hholds.prefill]
      exact List.mem_append_right _ (List.mem_map.mpr ⟨sr, by simp [hsr, hpre], rfl⟩)
    · have hle := hdone hpre
      unfold Request.numPromptTokens at *
      simp only [prefillEntry, List.length_take, List.length_drop]
      omega

/-- The advance moves neither the share nor the prompt of a record. -/
theorem samplesFor_advanced {records records' : List ScheduledRequest}
    {before after : StepCommand × List RequestId}
    (hholds : Holds pass.sched.object records before after)
    (hadv : Scheduler.Advances pass.sched records s records')
    (hprompt : ∀ sr ∈ records, (pass.sched.object sr.requestId).promptTokenIds =
      (s.object sr.requestId).promptTokenIds) {sr : ScheduledRequest} (hsr : sr ∈ records')
    (hdone : sr.isPrefill = true →
      (s.object sr.requestId).numPromptTokens ≤ sr.numComputedTokens + sr.numNewTokens) :
    SamplesFor (s.object sr.requestId).numPromptTokens after.1 sr.requestId := by
  obtain ⟨sr₀, hsr₀, hid, hshare⟩ := hadv.origin hsr
  have hlen := congrArg List.length (hprompt sr₀ hsr₀)
  have hcomp := congrArg StepShare.numComputedTokens hshare
  have hnew := congrArg StepShare.numNewTokens hshare
  have hpre := congrArg StepShare.isPrefill hshare
  simp only [ScheduledRequest.share] at hcomp hnew hpre
  rw [hid] at hdone ⊢
  rw [hcomp, hnew, hpre] at hdone
  unfold Request.numPromptTokens at hdone ⊢
  rw [← hlen] at hdone ⊢
  exact samplesFor_entry hholds hsr₀ hdone

theorem scheduledIds_perm {object : RequestId → Request} {records : List ScheduledRequest}
    {before after : StepCommand × List RequestId} (hholds : Holds object records before after)
    (hp : before.1.prefillRequests = []) (hd : before.1.decodeRequests = []) :
    after.1.scheduledIds.Perm (records.map (·.requestId)) := by
  have hids : after.1.scheduledIds = (records.filter (·.isPrefill)).map (·.requestId) ++
      (records.filter (!·.isPrefill)).map (·.requestId) := by
    rw [StepCommand.scheduledIds, hholds.prefill, hholds.decode, hp, hd]
    simp only [List.nil_append, List.map_map]
    rfl
  rw [hids, ← List.map_append]
  exact (List.filter_append_perm _ _).map _

/-- The last command samples for a request with a placeholder when there is room for one more
step: the one in flight is the last one sent. -/
theorem sampled_last {r : RequestId} (h : History e) (hp : pipelineMachine.Reachable e.pipeline)
    (hready : e.pipeline.Ready) (hrun : r ∈ e.pipeline.sched.running)
    (hph : 0 < (e.pipeline.sched.object r).numOutputPlaceholders) :
    ∃ prev, e.channel.commands.getLast? = some prev ∧
      SamplesFor (e.promptLength r) prev.command r := by
  obtain ⟨output, hout, sr, hsr, rfl, hpos⟩ := placeholder_covered hp hrun hph
  have hroom := hready.room
  have hsingle : e.pipeline.inFlight = [output] := by
    have hdepth : e.pipeline.sched.config.maxInFlight ≤ 2 := by
      unfold SchedulerConfig.maxInFlight
      split <;> decide
    have hlen := List.length_pos_of_mem hout
    obtain ⟨output', hfl⟩ := List.length_eq_one_iff.mp
      (show e.pipeline.inFlight.length = 1 by omega)
    rw [hfl] at hout ⊢
    rw [List.mem_singleton.mp hout]
  obtain ⟨prev, hprev, hsamples⟩ := h.last output (by rw [hsingle]; rfl)
  refine ⟨prev, hprev, hsamples sr hsr fun hpre => ?_⟩
  by_contra hshort
  unfold Request.reservation at hpos
  rw [if_neg] at hpos
  · cases hpos
  · rintro (hdec | hle)
    · exact hdec hpre
    · exact hshort hle

/-- A decode of a pass with a placeholder: the command before samples its token, and neither the
pass nor the flush in front of it touches the request. -/
theorem decode_follows {sr : ScheduledRequest} (h : History e) (hr : Registry e)
    (henc : Encodes e) (hp : pipelineMachine.Reachable e.pipeline) (hready : e.pipeline.Ready)
    (hsched : e.pipeline.sched.schedule = .ok pass) (hsr : sr ∈ pass.output.scheduledRequests)
    (hdec : sr.isPrefill = false)
    (hph : lastToken (pass.sched.object sr.requestId) = placeholderToken) :
    sr.requestId ∈ e.workerKnownReqIds ∧
      sr.requestId ∉ (e.handlePass pass.output).pendingFreeIds ∧
      ∃ prev, e.channel.commands.getLast? = some prev ∧
        SamplesFor (e.promptLength sr.requestId) prev.command sr.requestId := by
  have hwf := wellFormed_of_reachable hp
  have hrec := pass_record hwf hready hsched hsr
  obtain ⟨hrun, hkept, hsame⟩ := hrec.decode hdec
  have hph' : 0 < (e.pipeline.sched.object sr.requestId).numOutputPlaceholders := by
    rw [← hsame.numOutputPlaceholders]
    refine placeholder_of_lastToken ?_ hph
    rw [hsame.allTokenIds]
    exact henc.requests _ hrec.issued
  exact ⟨hr.running_known _ hrun, hr.passed_kept hwf hready hsched hrun hkept,
    h.sampled_last hp hready hrun hph'⟩

theorem dispatch (h : History e) (hr : Registry e) (henc : Encodes e)
    (hp : pipelineMachine.Reachable e.pipeline) (hready : e.pipeline.Ready)
    (hsched : e.pipeline.sched.schedule = .ok pass)
    (hadv : pass.sched.advanceAfterSchedule pass.output = .ok (s, output))
    (hk : Keeps e { (e.handlePass pass.output).sendStep pass with
      pipeline := { e.pipeline with sched := s, inFlight := e.pipeline.inFlight ++ [output] } }) :
    History { (e.handlePass pass.output).sendStep pass with
      pipeline := { e.pipeline with sched := s, inFlight := e.pipeline.inFlight ++ [output] } } := by
  have hwf := wellFormed_of_reachable hp
  obtain ⟨admitted, rejected, ha⟩ := hwf.afterPass hready hsched
  have hadv := ha.advances hwf.queues hadv
  have hn := Replica.handlePass_notifies e pass.output
  have hnd := ha.summary.records_nodup
  have hrec : ∀ sr ∈ pass.output.scheduledRequests, PassRecord e.pipeline pass sr :=
    fun sr hsr => pass_record hwf hready hsched hsr
  -- The prompt of a record is the same before the pass, after it and after the advance.
  have hprompt : ∀ sr ∈ pass.output.scheduledRequests, (pass.sched.object sr.requestId).promptTokenIds =
      (s.object sr.requestId).promptTokenIds := fun sr hsr =>
    (hrec sr hsr).prompt.trans (hk _ (hrec sr hsr).issued).2.symm
  have hholds := buildStepCommand_holds pass.sched.object
    (e.handlePass pass.output).workerKnownReqIds (e.handlePass pass.output).pendingFreeIds
    ((e.handlePass pass.output).stepCounter + 1) hnd
  have hfin : (buildStepCommand pass.sched.object pass.output
      (e.handlePass pass.output).workerKnownReqIds (e.handlePass pass.output).pendingFreeIds
      ((e.handlePass pass.output).stepCounter + 1)).1.finishedRequestIds =
      (e.handlePass pass.output).pendingFreeIds := hholds.finished
  have hnewIds := buildStepCommand_newIds pass.sched.object
    (e.handlePass pass.output).workerKnownReqIds (e.handlePass pass.output).pendingFreeIds
    ((e.handlePass pass.output).stepCounter + 1) hnd
  have hperm := scheduledIds_perm hholds rfl rfl
  refine h.send hk ?_ rfl ?_ (fun r hr => ?_) (fun r hr hkn => ?_) (hperm.nodup_iff.mpr hnd)
    (fun data hdata => ?_) (fun output' hlast sr hsr hdone => ?_) fun dr hdr hph => ?_
  · show (e.handlePass pass.output).channel.commands ++ _ = e.channel.commands ++ _
    rw [show (e.handlePass pass.output).channel = e.channel by rw [hn.rest]]
    rfl
  · refine hholds.known.trans ?_
    rw [knownAfter, hfin, hnewIds, hn.known]
  · have hmem := hperm.mem_iff.mp hr
    refine ⟨(mem_known_build hnd).mpr (.inr hmem), ?_⟩
    obtain ⟨sr, hsr, rfl⟩ := List.mem_map.mp hmem
    exact (hrec sr hsr).issued
  · rw [hnewIds, List.mem_filter, decide_eq_true_eq, List.mem_filter, hn.known,
      decide_eq_true_eq] at hr
    rw [hfin]
    by_contra hkept
    exact hr.2 ⟨hkn, hkept⟩
  · rw [hholds.new] at hdata
    obtain ⟨r, hr, rfl⟩ := List.mem_map.mp ((List.mem_append.mp hdata).resolve_left List.not_mem_nil)
    obtain ⟨sr, hsr, rfl⟩ := List.mem_map.mp (List.mem_filter.mp hr).1
    exact ⟨(hrec sr hsr).issued, hprompt sr hsr⟩
  · obtain rfl : output = output' := by simpa using hlast
    exact samplesFor_advanced hholds hadv hprompt hsr hdone
  · rw [hholds.decode] at hdr
    obtain ⟨sr, hsr, rfl⟩ := List.mem_map.mp ((List.mem_append.mp hdr).resolve_left List.not_mem_nil)
    obtain ⟨hsr, hdec⟩ := List.mem_filter.mp hsr
    obtain ⟨hkn, hkept, prev, hprev, hsamples⟩ :=
      h.decode_follows hr henc hp hready hsched hsr (by simpa using hdec) hph
    refine ⟨prev, hprev, ?_, ?_, ?_⟩
    · show SamplesFor (Replica.promptLength _ sr.requestId) prev.command sr.requestId
      rw [hk.promptLength (hrec sr hsr).issued]
      exact hsamples
    · rw [hfin]
      exact hkept
    · rw [hnewIds, List.mem_filter, decide_eq_true_eq, List.mem_filter, decide_eq_true_eq, hn.known]
      exact fun hmem => hmem.2 ⟨hkn, hkept⟩

end Dispatch

theorem step (h : History e) (hr : (replicaMachine decode).Reachable e)
    (hstep : Replica.Step decode e op e') : History e' := by
  have hp := pipeline_reachable hr
  have hwf := wellFormed_of_reachable hp
  have hk : Keeps e e' := fun r hissued => step_promptLength hp hstep hissued
  cases step_traffic hwf hstep with
  | quiet hq => exact h.quiet hwf hq hk
  | sent hready hsched hadv =>
    exact h.dispatch (registry_of_reachable hr) (encodes_of_reachable hr) hp hready hsched hadv hk
  | @flushed _ e₁ hq hnil hpend =>
    rw [Replica.flush, if_neg hpend] at hk ⊢
    have hk₁ : Keeps e e₁ := hk
    refine (h.quiet hwf hq hk₁).send (fun r hr => ⟨hr, rfl⟩) rfl rfl ?_ ?_ ?_ ?_ ?_ ?_ ?_
    · exact (List.append_nil _).symm
    · simp [cleanupCommand, StepCommand.scheduledIds]
    · simp [cleanupCommand, StepCommand.newIds]
    · simp [cleanupCommand, StepCommand.scheduledIds]
    · simp [cleanupCommand]
    · intro output hlast
      rw [show _ = [] from hnil] at hlast
      cases hlast
    · simp [cleanupCommand]
  | worked hx hbuilt =>
    exact ⟨h.known, h.recorded, h.built, h.nodup, h.data, h.scheduled, h.last, h.anticipated⟩

end History

theorem history_of_reachable (h : (replicaMachine decode).Reachable e) : History e :=
  h.invariant (fun _ => History.start) fun _ _ _ hr hi hstep => hi.step hr hstep

end PyptoServing.Engine
