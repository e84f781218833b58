import PyptoServing.Engine.History
import PyptoServing.Engine.Run

/-!
# The worker mirrors the engine

A serial worker behind the engine's command queue, with an executor that raises nothing. The
invariant says what the worker holds in terms of the commands executed so far; from it every
command finds its registrations and the tokens that its placeholders stand for.
-/
namespace PyptoServing.Engine

open Lib Lib.Fallible Memory Sched Server

/-- The executor raises nothing. -/
def Undisturbed (_ : Replica) (op : ReplicaOp) (_ : Replica) : Prop :=
  ∀ x, op = .work x → x.error = none ∧ x.releaseError = none

/-- The last token of a result for a request. -/
def LastOf (result : StepResult) (r : RequestId) (token : Int) : Prop :=
  ∃ tokens, result.newTokens.lookup r = some tokens ∧ tokens.getLast? = some token

/-- What the worker holds after the commands executed so far. -/
structure Served (e : Replica) : Prop where
  executed : e.channel.results.length ≤ e.channel.commands.length
  keys : ∀ r, r ∈ e.channel.worker.reqCache ↔
    r ∈ knownIds (e.channel.sent.take e.channel.results.length)
  prompts : ∀ r entry, e.channel.worker.reqCache.lookup r = some entry →
    r ∈ e.pipeline.issued ∧
      entry.data.promptTokenIds = (e.pipeline.sched.object r).promptTokenIds
  sampled : ∀ (j : Nat) (built : Built), e.channel.results.length = j + 1 →
    e.channel.commands[j]? = some built → ∀ r,
    SamplesFor (e.promptLength r) built.command r → ∃ result token,
      e.channel.results[j]? = some result ∧ LastOf result r token ∧
        e.channel.worker.lastTokens.lookup r = some [⟨token, j⟩]

/-- What a placeholder of command `k` resolves to. -/
structure Resolves (e : Replica) (k : Nat) (built : Built) (dr : DecodeRequest) (j : Nat) :
    Prop where
  /-- The step right before, which ran the request. -/
  previous : k = j + 1
  scheduled : ∃ prev, e.channel.commands[j]? = some prev ∧ dr.requestId ∈ prev.command.scheduledIds
  /-- Between the two the request is neither released nor registered. -/
  kept : dr.requestId ∉ built.command.finishedRequestIds ∧ dr.requestId ∉ built.command.newIds
  registration : ∃ entry, e.channel.worker.reqCache.lookup dr.requestId = some entry ∧
    (e.channel.worker.applyLifecycle k built.command).reqCache.lookup dr.requestId = some entry
  token : ∃ result token, e.channel.results[j]? = some result ∧ LastOf result dr.requestId token ∧
    (e.channel.worker.applyLifecycle k built.command).resolveDecodeToken dr = .ok token

/-- The execution of command `k` in `e`, with `e'` right after it. -/
structure Mirrors (e e' : Replica) (k : Nat) (built : Built) : Prop where
  registered : ∀ r ∈ built.command.scheduledIds,
    r ∈ (e.channel.worker.applyLifecycle k built.command).reqCache
  resolved : ∀ dr ∈ built.command.decodeRequests, dr.lastToken = placeholderToken →
    ∃ j, Resolves e k built dr j
  keys : ∀ r, r ∈ e'.channel.worker.reqCache ↔ r ∈ built.known
  succeeds : ∃ result, e'.channel.results[k]? = some result ∧ result.error = none

section Serving
variable {e e' : Replica} {op : ReplicaOp} {decode : List Int → String}

theorem SamplesFor.scheduled {n : Nat} {cmd : StepCommand} {r : RequestId} (h : SamplesFor n cmd r) :
    r ∈ cmd.scheduledIds := by
  rw [StepCommand.scheduledIds, List.mem_append]
  rcases h with ⟨dr, hdr, rfl⟩ | ⟨pr, hpr, rfl, -⟩
  · exact .inr (List.mem_map_of_mem hdr)
  · exact .inl (List.mem_map_of_mem hpr)

namespace Served

theorem start (h : e.Started) : Served e := by
  rw [h.rest]
  refine ⟨le_rfl, fun r => ?_, nofun, nofun⟩
  exact iff_of_false (AList.notMem_empty r) List.not_mem_nil

/-- A step that leaves the worker alone; commands may be added. -/
theorem quiet (h : Served e) (hh : History e) (hk : Keeps e e')
    (hcommands : e.channel.commands <+: e'.channel.commands)
    (hresults : e'.channel.results = e.channel.results)
    (hworker : e'.channel.worker = e.channel.worker) : Served e' := by
  have hexec := h.executed
  obtain ⟨new, hcommands⟩ := hcommands
  rw [eq_comm] at hcommands
  refine ⟨?_, fun r => ?_, fun r entry hlook => ?_, fun j built hj hbuilt r hsamples => ?_⟩
  · rw [hcommands, hresults, List.length_append]
    omega
  · rw [hworker, hresults, h.keys, Channel.sent, Channel.sent, hcommands, List.map_append,
      List.take_append_of_le_length (by rwa [List.length_map])]
  · rw [hworker] at hlook
    obtain ⟨hissued, hprompt⟩ := h.prompts r entry hlook
    obtain ⟨hissued', hprompt'⟩ := hk r hissued
    exact ⟨hissued', hprompt.trans hprompt'.symm⟩
  · rw [hresults] at hj ⊢
    rw [hworker]
    rw [hcommands, List.getElem?_append_left (by omega)] at hbuilt
    have hissued := hh.scheduled built (List.mem_of_getElem? hbuilt) r hsamples.scheduled
    rw [hk.promptLength hissued] at hsamples
    exact h.sampled j built hj hbuilt r hsamples

section Work
variable {built : Built} {x : Execution}

/-- The registered ids once the lifecycle of the next command is applied. -/
theorem keys_lifecycle (h : Served e)
    (hbuilt : e.channel.commands[e.channel.results.length]? = some built) (r : RequestId) :
    r ∈ (e.channel.worker.applyLifecycle e.channel.results.length built.command).reqCache ↔
      r ∈ knownIds (e.channel.sent.take (e.channel.results.length + 1)) := by
  have hsent : e.channel.sent[e.channel.results.length]? = some (.step built.command) := by
    rw [Channel.sent, List.getElem?_map, hbuilt]
    rfl
  rw [knownIds_take_succ hsent, Worker.mem_applyLifecycle, h.keys, knownAfter, List.mem_append,
    List.mem_filter, decide_eq_true_eq]

/-- The requests of the next command are registered when it runs. -/
theorem registers {r : RequestId} (h : Served e) (hh : History e)
    (hbuilt : e.channel.commands[e.channel.results.length]? = some built)
    (hr : r ∈ built.command.scheduledIds) :
    r ∈ (e.channel.worker.applyLifecycle e.channel.results.length built.command).reqCache := by
  rw [h.keys_lifecycle hbuilt]
  refine hh.built.registered _ _ ⟨built.command, ?_, hr⟩
  rw [Channel.sent, List.getElem?_map, hbuilt]
  rfl

theorem resolves {dr : DecodeRequest} (h : Served e) (hh : History e)
    (hbuilt : e.channel.commands[e.channel.results.length]? = some built)
    (hdr : dr ∈ built.command.decodeRequests) (hph : dr.lastToken = placeholderToken) :
    ∃ j, Resolves e e.channel.results.length built dr j := by
  obtain ⟨j, prev, hj, hprev, hfol⟩ := hh.anticipated _ built hbuilt dr hdr hph
  obtain ⟨result, token, hresult, hlast, hlook⟩ := h.sampled j prev hj hprev _ hfol.samples
  have hkept := Worker.lastTokens_applyLifecycle (w := e.channel.worker)
    (i := e.channel.results.length) hfol.kept
  have hreg := h.registers hh hbuilt (List.mem_append_right _ (List.mem_map_of_mem hdr))
  rw [← AList.lookup_isSome] at hreg
  obtain ⟨entry, hentry⟩ := Option.isSome_iff_exists.mp hreg
  refine ⟨j, hj, ⟨prev, hprev, hfol.samples.scheduled⟩, ⟨hfol.kept, hfol.registered⟩,
    ⟨entry, ?_, hentry⟩, result, token, hresult, hlast, ?_⟩
  · rcases Worker.lookup_applyLifecycle hentry with ⟨hmem, hid⟩ | ⟨hold, -⟩
    · exact absurd (List.mem_map.mpr ⟨_, hmem, hid⟩) hfol.registered
    · exact hold
  · rw [Worker.resolveDecodeToken, if_neg (not_not.mpr hph), hkept, hlook]
    rfl

/-- The next command executes without an error. -/
theorem executes (h : Served e) (hh : History e)
    (hbuilt : e.channel.commands[e.channel.results.length]? = some built)
    (hx : x.error = none ∧ x.releaseError = none) :
    ∃ newTokens, Worker.Samples
        (e.channel.worker.applyLifecycle e.channel.results.length built.command) built.command x
        newTokens ∧
      e.channel.worker.runStepCommand e.channel.results.length built.command x =
        ((e.channel.worker.applyLifecycle e.channel.results.length built.command).recordTokens
          e.channel.results.length newTokens,
        { newTokens := Dict.ofList newTokens, stepId := built.command.stepId }) := by
  have hreg := fun r hr => h.registers (r := r) hh hbuilt hr
  have hres : ∀ dr ∈ built.command.decodeRequests, ∃ token,
      (e.channel.worker.applyLifecycle e.channel.results.length
        built.command).resolveDecodeToken dr = .ok token := by
    intro dr hdr
    by_cases hph : dr.lastToken = placeholderToken
    · obtain ⟨j, hresolves⟩ := h.resolves hh hbuilt hdr hph
      obtain ⟨_, token, -, -, hok⟩ := hresolves.token
      exact ⟨token, hok⟩
    · refine ⟨dr.lastToken, ?_⟩
      rw [Worker.resolveDecodeToken, if_pos hph]
  obtain ⟨newTokens, hsamples, hok⟩ := Worker.executeStep_ok (i := e.channel.results.length)
    hreg hres hx.1
  refine ⟨newTokens, hsamples, ?_⟩
  rw [Worker.runStepCommand, hx.2, ite_self]
  dsimp only
  rw [hok]

/-- The state after the next command. -/
theorem work (h : Served e) (hh : History e) (hs : x.Samples)
    (hbuilt : e.channel.commands[e.channel.results.length]? = some built)
    (hx : x.error = none ∧ x.releaseError = none) :
    Served { e with channel := e.channel.execute built x } ∧
      Mirrors e { e with channel := e.channel.execute built x } e.channel.results.length built := by
  obtain ⟨newTokens, hsamples, hrun⟩ := h.executes hh hbuilt hx
  have hmem := List.mem_of_getElem? hbuilt
  obtain ⟨hlt, -⟩ := List.getElem?_eq_some_iff.mp hbuilt
  have hexecute : e.channel.execute built x = { e.channel with
      worker := (e.channel.worker.applyLifecycle e.channel.results.length
        built.command).recordTokens e.channel.results.length newTokens
      results := e.channel.results ++
        [{ newTokens := Dict.ofList newTokens, stepId := built.command.stepId }] } := by
    rw [Channel.execute, hrun]
  rw [hexecute]
  have hnd : (newTokens.map (·.1)).Nodup := (hh.nodup built hmem).sublist hsamples.ids
  have hreg := fun r hr => h.registers (r := r) hh hbuilt hr
  have hprompts : ∀ r entry, (e.channel.worker.applyLifecycle e.channel.results.length
      built.command).reqCache.lookup r = some entry → r ∈ e.pipeline.issued ∧
        entry.data.promptTokenIds = (e.pipeline.sched.object r).promptTokenIds := by
    intro r entry hlook
    rcases Worker.lookup_applyLifecycle hlook with ⟨hnew, rfl⟩ | ⟨hold, -⟩
    · exact hh.data built hmem _ hnew
    · exact h.prompts r entry hold
  refine ⟨⟨?_, fun r => ?_, hprompts, fun j built' hj hbuilt' r hr => ?_⟩,
    ⟨hreg, fun dr hdr hph => h.resolves hh hbuilt hdr hph, fun r => ?_, ?_⟩⟩
  · dsimp only
    rw [List.length_append, List.length_singleton]
    exact hlt
  · dsimp only
    rw [List.length_append, List.length_singleton]
    exact h.keys_lifecycle hbuilt r
  · dsimp only at hj
    rw [List.length_append, List.length_singleton] at hj
    obtain rfl : e.channel.results.length = j := by omega
    rw [show e.channel.commands[e.channel.results.length]? = some built' from hbuilt',
      Option.some.injEq] at hbuilt
    subst hbuilt
    -- The tokens of the request, from the decode or from the chunk that completes the prompt.
    obtain ⟨tokens, hin, hne⟩ : ∃ tokens, (r, tokens) ∈ newTokens ∧ tokens ≠ [] := by
      rcases hr with ⟨dr, hdr, rfl⟩ | ⟨pr, hpr, rfl, hdone⟩
      · exact ⟨_, hsamples.decode dr hdr, hs.decode_ne _⟩
      · have hin := hreg pr.requestId (List.mem_append_left _ (List.mem_map_of_mem hpr))
        obtain ⟨entry, -, hlook⟩ := Worker.registered_ok hin
        refine ⟨_, hsamples.prefill pr hpr entry hlook ?_, by simp⟩
        rw [(hprompts _ entry hlook).2]
        exact hdone
    obtain ⟨token, hlast⟩ := Option.isSome_iff_exists.mp (List.getLast?_isSome.mpr hne)
    refine ⟨_, token, List.getElem?_concat_length, ⟨tokens, ?_, hlast⟩, ?_⟩
    · exact Worker.lookup_newTokens hnd hin
    · exact Worker.lookup_recordTokens hnd hin hlast
  · rw [hh.recorded _ built hbuilt]
    exact h.keys_lifecycle hbuilt r
  · exact ⟨_, List.getElem?_concat_length, rfl⟩

end Work

theorem step (h : Served e) (hr : (replicaMachine decode).Reachable e)
    (hstep : Replica.Step decode e op e') (hx : Undisturbed e op e') : Served e' := by
  have hp := pipeline_reachable hr
  have hh := history_of_reachable hr
  have hk : Keeps e e' := fun r hissued => step_promptLength hp hstep hissued
  cases step_traffic (wellFormed_of_reachable hp) hstep with
  | quiet hq =>
    refine h.quiet hh hk ?_ hq.results hq.worker
    rw [hq.commands]
  | @sent pass _ _ _ _ _ =>
    have hsame : (e.handlePass pass.output).channel = e.channel := by
      rw [(Replica.handlePass_notifies e pass.output).rest]
    refine h.quiet hh hk ?_ ?_ ?_
    · rw [← hsame]
      exact List.prefix_append _ _
    · show (e.handlePass pass.output).channel.results = _
      rw [hsame]
    · show (e.handlePass pass.output).channel.worker = _
      rw [hsame]
  | flushed hq _ hpend =>
    rw [Replica.flush, if_neg hpend] at hk ⊢
    refine h.quiet hh hk ?_ hq.results hq.worker
    rw [← hq.commands]
    exact List.prefix_append _ _
  | worked hs hbuilt => exact (h.work hh hs hbuilt (hx _ rfl)).1

end Served

theorem served_of_reachable (h : ((replicaMachine decode).restrict Undisturbed).Reachable e) :
    Served e :=
  h.invariant (fun _ => Served.start) fun _ _ _ hr hi hstep =>
    hi.step (Machine.restrict_reachable hr) hstep.1 hstep.2

/-- After command `k` the worker has registered what the engine knew when it built it; the
command found its requests registered and its placeholders resolved to the last token sampled
for the same registration. -/
theorem worker_mirrors_engine {x : Execution}
    (h : ((replicaMachine decode).restrict Undisturbed).Reachable e)
    (hstep : Replica.Step decode e (.work x) e') (hx : Undisturbed e (.work x) e') :
    ∃ built, e.channel.commands[e.channel.results.length]? = some built ∧
      Mirrors e e' e.channel.results.length built := by
  have hh := history_of_reachable (Machine.restrict_reachable h)
  cases hstep with
  | @work built _ hs hbuilt =>
    exact ⟨built, hbuilt, ((served_of_reachable h).work hh hs hbuilt (hx _ rfl)).2⟩

end Serving

/-- The decode is sent before the token of the prefill is known. -/
def anticipatedRun : Option Replica :=
  Replica.bootAllowed (fun _ => "") (fun _ _ => true) pipelinedBoot
    [.add (plainRequest "a" [1] 4 0) true, .dispatch, .dispatch, .work sampleSeven]

theorem worker_mirrors_engine_anticipated : ∃ e e' built,
    ((replicaMachine fun _ => "").restrict Undisturbed).Reachable e ∧
      e.channel.commands[1]? = some built ∧
      built.command.decodeRequests.map (·.lastToken) = [placeholderToken] ∧
      Mirrors e e' 1 built := by
  have hrun : (anticipatedRun.map fun e => decide (e.channel.results.length = 1 ∧
      (e.channel.commands[1]?.map fun built =>
        built.command.decodeRequests.map (·.lastToken)) = some [placeholderToken])) = some true := by
    decide
  obtain ⟨e, hboot, h⟩ := Option.map_eq_some_iff.mp hrun
  obtain ⟨hlen, hph⟩ := of_decide_eq_true h
  have he : ((replicaMachine fun _ => "").restrict Undisturbed).Reachable e := by
    refine Replica.bootAllowed_reachable ?_ ?_ (fun p => pipelinedBoot_started) hboot
    · intro e op e' hop _ x hx
      subst hx
      simp only [List.mem_cons, ReplicaOp.work.injEq, List.not_mem_nil, or_false, reduceCtorEq,
        false_or] at hop
      rw [hop]
      exact ⟨rfl, rfl⟩
    · intro op hop
      simp only [List.mem_cons, List.not_mem_nil, or_false] at hop
      rcases hop with rfl | rfl | rfl | rfl
      · exact plainRequest_fresh (by decide)
      · trivial
      · trivial
      · exact sampleSeven_samples
  obtain ⟨built, hbuilt, hdr⟩ := Option.map_eq_some_iff.mp hph
  rw [← hlen] at hbuilt
  obtain ⟨built', hbuilt', hmirrors⟩ := worker_mirrors_engine he
    (.work sampleSeven_samples hbuilt) fun x hx => by
      cases hx
      exact ⟨rfl, rfl⟩
  rw [hbuilt, Option.some.injEq] at hbuilt'
  subst hbuilt'
  rw [hlen] at hbuilt hmirrors
  exact ⟨e, _, built, he, hbuilt, hdr, hmirrors⟩

end PyptoServing.Engine
