import PyptoServing.Sched.Placeholders

/-!
# What a placeholder stands for

A step that is reconciled too early may release a placeholder of a later step, so the
account of the placeholders is not exact in every run. In every run, though, a running
request holds no more placeholders than its steps in flight reserved: whenever there is
one, a step in flight samples for the request.
-/
namespace PyptoServing.Sched

open Lib Memory Scheduler

/-- The bounds that hold in every run of the asynchronous pipeline. -/
structure Covered (config : SchedulerConfig) (f : Flight) : Prop where
  waiting : f.place = .waiting → f.request.numOutputPlaceholders = 0
  running : f.place = .running →
    f.request.numOutputPlaceholders ≤ f.request.reservations config f.shares
  computed : f.place = .running →
    f.request.optimism config f.shares ≤ f.request.numComputedTokens
  prompt : f.place = .running → 0 < f.request.reservations config f.shares →
    f.request.numPromptTokens + f.request.optimism config f.shares ≤ f.request.numComputedTokens

namespace Covered
variable {config : SchedulerConfig} {q : Request} {share : StepShare} {shares : List StepShare}
  {tokens : List Int}

theorem of_done : Covered config ⟨q, .done, shares⟩ := by
  constructor <;> intro h <;> cases h

theorem of_waiting (h : q.numOutputPlaceholders = 0) :
    Covered config ⟨q, .waiting, shares⟩ := by
  constructor <;> intro hplace <;> first | exact h | cases hplace

theorem of_running (hph : q.numOutputPlaceholders ≤ q.reservations config shares)
    (hcomp : q.optimism config shares ≤ q.numComputedTokens)
    (hprompt : 0 < q.reservations config shares →
      q.numPromptTokens + q.optimism config shares ≤ q.numComputedTokens) :
    Covered config ⟨q, .running, shares⟩ := by
  constructor <;> intro hplace <;> first | assumption | cases hplace

/-- Dispatching a share. -/
theorem grant (hasync : config.asyncScheduling = true) (hfit : share.Fits q)
    (h : Covered config ⟨q, .running, shares⟩) :
    Covered config ⟨q.advanced config share, .running, shares ++ [share]⟩ := by
  have hph := h.running rfl
  -- The exact account only differs in its first part, which the grant moves on both sides.
  have hexact : Accounted config
      ⟨{ q with numOutputPlaceholders := q.reservations config shares }, .running, shares⟩ :=
    .of_running rfl (h.computed rfl) (h.prompt rfl)
  have hfit' : share.Fits { q with numOutputPlaceholders := q.reservations config shares } := by
    refine ⟨hfit.computed, hfit.isPrefill, hfit.pos, ?_⟩
    have hle := hfit.le_needed
    unfold Request.numNewTokensNeeded Request.numTokens Request.numPromptTokens at *
    dsimp only at *
    omega
  have hgrant := hexact.grant hasync hfit'
  have htask := advanced_task q config share
  refine of_running ?_ ?_ ?_
  · rw [reservations_task htask, reservations_append, Request.advanced, if_pos hasync]
    exact Nat.add_le_add_right hph _
  · have := hgrant.computed rfl
    simp only [Request.advanced, if_pos hasync] at this ⊢
    exact this
  · have := hgrant.prompt rfl
    simp only [Request.advanced, if_pos hasync] at this ⊢
    exact this

/-- A share that samples is behind the counter, so reconciling it releases what it reserved. -/
theorem reservation_le (h : Covered config ⟨q, .running, share :: shares⟩) :
    q.reservation config share ≤ q.released config share := by
  cases hpre : share.isPrefill with
  | false => rw [released_decode hpre, reservation_decode hpre]
  | true =>
    rw [released_prefill hpre, reservation_prefill hpre]
    split
    · next hdone =>
      have hprompt := h.prompt rfl (by
        dsimp only
        rw [reservations_cons, reservation_prefill hpre, if_pos hdone]
        omega)
      dsimp only at hprompt
      rw [if_pos (by omega)]
    · exact Nat.zero_le _

/-- Both shares of the optimism are the same: a prefill has none. -/
theorem speculation_eq (q : Request) (config : SchedulerConfig) (share : StepShare) :
    q.released config share - 1 = q.reservation config share - 1 := by
  cases hpre : share.isPrefill with
  | false => rw [released_decode hpre, reservation_decode hpre]
  | true =>
    rw [released_prefill hpre, reservation_prefill hpre]
    split <;> split <;> rfl

/-- Reconciling the oldest share. -/
theorem apply (hasync : config.asyncScheduling = true)
    (h : Covered config ⟨q, .running, share :: shares⟩) :
    Covered config ⟨q.applied config share tokens, .running, shares⟩ := by
  have hph := h.running rfl
  have hcomp := h.computed rfl
  have hprompt := h.prompt rfl
  have hrel := h.reservation_le
  have hspec := speculation_eq q config share
  dsimp only at hph hcomp hprompt
  rw [reservations_cons] at hph hprompt
  rw [optimism_cons] at hcomp hprompt
  have htask := applied_task q config share tokens
  obtain ⟨hph', hcomp', -⟩ := reconciled_counters q config share tokens
  have happ : q.applied config share tokens = q.reconciled config share tokens := by
    rw [Request.applied, if_pos hasync]
  rw [← happ] at hph' hcomp'
  refine of_running ?_ ?_ ?_
  · rw [reservations_task htask, hph']
    omega
  · rw [optimism_task htask, hcomp']
    omega
  · rw [reservations_task htask, optimism_task htask, numPromptTokens_task htask, hcomp']
    intro hsum
    have := hprompt (by omega)
    omega

theorem step {f f' : Flight} {ev : FlightEvent} (hasync : config.asyncScheduling = true)
    (hstep : FlightStep config f ev f') (h : Covered config f) : Covered config f' := by
  cases hstep with
  | keep => exact h
  | @launch q hit share hidle hhit hfit =>
    exact @grant _ _ _ [] hasync hfit
      (of_running hidle.numOutputPlaceholders.le (Nat.zero_le _) fun h =>
        absurd h (Nat.lt_irrefl 0))
  | grant hbar hfit hroom => exact h.grant hasync hfit
  | preempt => exact of_waiting rfl
  | reject => exact of_done
  | apply hlive => exact h.apply hasync
  | finish hend => exact of_done
  | drop hplace =>
    exact ⟨h.waiting, fun hr => absurd hr hplace, fun hr => absurd hr hplace,
      fun hr => absurd hr hplace⟩
  | close hstatus => exact of_done
  | discard hstatus => exact of_done

end Covered

/-- Without the optimistic advance there are no placeholders. -/
theorem FlightStep.noPlaceholders {config : SchedulerConfig} {f f' : Flight} {ev : FlightEvent}
    (hsync : config.asyncScheduling = false) (hstep : FlightStep config f ev f')
    (h : f.request.numOutputPlaceholders = 0) : f'.request.numOutputPlaceholders = 0 := by
  have hadv : ∀ (q : Request) (share : StepShare), q.advanced config share = q := by
    intro q share
    rw [Request.advanced, if_neg (by rw [hsync]; decide)]
  have happ : ∀ (q : Request) (share : StepShare) (tokens : List Int),
      (q.applied config share tokens).numOutputPlaceholders = q.numOutputPlaceholders := by
    intro q share tokens
    rw [Request.applied, if_neg (by rw [hsync]; decide)]
    have hstepped := confirmed_numOutputPlaceholders q share
    unfold Request.stepped
    dsimp only
    split
    · split
      · exact hstepped
      · rw [appendTokens_fst]
        exact hstepped
    · rw [appendTokens_fst]
      exact hstepped
  cases hstep with
  | launch =>
    rw [hadv]
    exact h
  | grant =>
    rw [hadv]
    exact h
  | preempt => rfl
  | apply =>
    rw [happ]
    exact h
  | finish =>
    dsimp only
    rw [happ]
    exact h
  | _ => exact h

section Runs
variable {p : Pipeline} {r : RequestId}

/-- Every request in every run. -/
theorem covered_of_reachable (hp : pipelineMachine.Reachable p) :
    ∀ r ∈ p.issued, ∃ f, Views p r f ∧
      (p.sched.config.asyncScheduling = true → Covered p.sched.config f) ∧
      (p.sched.config.asyncScheduling = false → f.request.numOutputPlaceholders = 0) := by
  refine flight_invariant (I := fun config f =>
    (config.asyncScheduling = true → Covered config f) ∧
      (config.asyncScheduling = false → f.request.numOutputPlaceholders = 0)) ?_ ?_ hp.unrestricted
  · intro p request stored hfresh hacc
    have hzero : stored.numOutputPlaceholders = 0 := by
      rw [hacc.eq, hfresh.defaults]
    exact ⟨fun _ => .of_waiting hzero, fun _ => hzero⟩
  · intro p op p' r f ev f' hwf _ hv hev hstep h
    exact ⟨fun hasync => (h.1 hasync).step hasync hstep,
      fun hsync => hstep.noPlaceholders hsync (h.2 hsync)⟩

/-- Behind a placeholder of a running request there is a step in flight that samples for it. -/
theorem placeholder_covered (hp : pipelineMachine.Reachable p) (hr : r ∈ p.sched.running)
    (hph : 0 < (p.sched.object r).numOutputPlaceholders) :
    ∃ output ∈ p.inFlight, ∃ sr ∈ output.scheduledRequests, sr.requestId = r ∧
      0 < (p.sched.object r).reservation p.sched.config sr.share := by
  have hwf := wellFormed_of_reachable hp
  obtain ⟨f, hv, hasync, hsync⟩ := covered_of_reachable hp r
    (hwf.issued r (hwf.tracked r (.inl hr)))
  rw [hv.same.numOutputPlaceholders] at hph
  cases hmode : p.sched.config.asyncScheduling with
  | false =>
    rw [hsync hmode] at hph
    cases hph
  | true =>
    have hle := (hasync hmode).running (by rw [hv.place, placeOf_running hr])
    rw [← reserved_eq hr hv, Pipeline.reserved, Pipeline.unreconciled, if_pos hr] at hle
    obtain ⟨n, hn, hpos⟩ := List.sum_pos_iff_exists_pos_nat.mp (lt_of_lt_of_le hph hle)
    obtain ⟨sr, hsr, rfl⟩ := List.mem_map.mp hn
    obtain ⟨output, hout, hsr⟩ := List.mem_flatMap.mp hsr
    obtain ⟨hsr, hid⟩ := List.mem_filter.mp hsr
    exact ⟨output, hout, sr, hsr, of_decide_eq_true hid, hpos⟩

end Runs

/-- The tokens a request holds are those it held and those of the result. -/
theorem mem_applied_outputTokenIds {q : Request} {config : SchedulerConfig} {share : StepShare}
    {tokens : List Int} {token : Int}
    (h : token ∈ (q.applied config share tokens).outputTokenIds) :
    token ∈ q.outputTokenIds ∨ token ∈ tokens := by
  have hconf : ∀ q : Request, (q.confirmed share).outputTokenIds = q.outputTokenIds := by
    intro q
    unfold Request.confirmed
    split <;> rfl
  have happend : ∀ q : Request, ∀ token ∈ (appendTokens q tokens).1.outputTokenIds,
      token ∈ q.outputTokenIds ∨ token ∈ tokens := by
    intro q token htoken
    rw [appendTokens_fst] at htoken
    exact (List.mem_append.mp htoken).imp_right List.mem_of_mem_take
  unfold Request.applied at h
  split at h
  · rw [(reconciled_counters q config share tokens).2.2] at h
    exact (List.mem_append.mp h).imp_right List.mem_of_mem_take
  · unfold Request.stepped at h
    dsimp only at h
    split at h
    · split at h
      · rw [hconf] at h
        exact .inl h
      · have := happend _ _ h
        dsimp only at this
        rwa [hconf] at this
    · have := happend _ _ h
      rwa [hconf] at this

/-- A step keeps the task, and new tokens come from a result. -/
theorem FlightStep.keeps {config : SchedulerConfig} {f f' : Flight} {ev : FlightEvent}
    (h : FlightStep config f ev f') : f'.request.task = f.request.task ∧
      ∀ token ∈ f'.request.outputTokenIds, token ∈ f.request.outputTokenIds ∨
        ∃ tokens, ev = .apply tokens ∧ token ∈ tokens := by
  have hadv : ∀ (q : Request) (share : StepShare),
      (q.advanced config share).outputTokenIds = q.outputTokenIds := by
    intro q share
    unfold Request.advanced
    split <;> rfl
  cases h with
  | launch =>
    refine ⟨(advanced_task _ _ _).trans rfl, fun token htoken => .inl ?_⟩
    rw [hadv] at htoken
    exact htoken
  | grant =>
    refine ⟨advanced_task _ _ _, fun token htoken => .inl ?_⟩
    rw [hadv] at htoken
    exact htoken
  | apply =>
    exact ⟨applied_task _ _ _ _, fun token htoken =>
      (mem_applied_outputTokenIds htoken).imp_right fun h => ⟨_, rfl, h⟩⟩
  | finish =>
    exact ⟨applied_task _ _ _ _, fun token htoken =>
      (mem_applied_outputTokenIds htoken).imp_right fun h => ⟨_, rfl, h⟩⟩
  | _ => exact ⟨rfl, fun token htoken => .inl htoken⟩

/-- The prompt of a request is fixed, and its new tokens come from the result that the step
applies. -/
theorem step_keeps {p p' : Pipeline} {op : PipelineOp} {r : RequestId} (hwf : p.WellFormed)
    (hstep : p.Step op p') (hr : r ∈ p.issued) :
    (p'.sched.object r).promptTokenIds = (p.sched.object r).promptTokenIds ∧
      ∀ token ∈ (p'.sched.object r).outputTokenIds, token ∈ (p.sched.object r).outputTokenIds ∨
        ∃ tokens, op = .complete tokens ∧ token ∈ tokensFor tokens r := by
  obtain ⟨ev, f', hf, hv, hev⟩ := flight_step hwf hstep hr (views_self p r)
  obtain ⟨htask, hout⟩ := hf.keeps
  have hprompt : f'.request.promptTokenIds = (p.sched.object r).promptTokenIds :=
    (congrArg Request.promptTokenIds htask :)
  refine ⟨hv.same.promptTokenIds.trans hprompt, fun token htoken => ?_⟩
  rw [hv.same.outputTokenIds] at htoken
  refine (hout token htoken).imp_right ?_
  rintro ⟨tokens, rfl, hmem⟩
  cases hev with
  | pass _ hpass => cases hpass
  | apply => exact ⟨_, rfl, hmem⟩

end PyptoServing.Sched
