import PyptoServing.Sched.FlightSteps

/-!
# Placeholder accounting

In the asynchronous mode a running request holds one placeholder for each token that its
steps in flight may still return. Reconciling a result infers from the request's present
counter whether the step sampled, so the account stays exact as long as no chunk's result
arrives after the step that completes its prompt was dispatched.
-/
namespace PyptoServing.Sched

open Lib Memory Scheduler

section Request
variable {q : Request} {config : SchedulerConfig} {share share' : StepShare} {tokens : List Int}

theorem confirmed_numComputedTokens (q : Request) (share : StepShare) :
    (q.confirmed share).numComputedTokens = q.numComputedTokens := by
  unfold Request.confirmed
  split <;> rfl

theorem confirmed_numOutputPlaceholders (q : Request) (share : StepShare) :
    (q.confirmed share).numOutputPlaceholders = q.numOutputPlaceholders := by
  unfold Request.confirmed
  split <;> rfl

/-- What reconciling a share does to the counters, the prompt and the outputs. -/
theorem reconciled_counters (q : Request) (config : SchedulerConfig) (share : StepShare)
    (tokens : List Int) :
    let kept := (appendTokens q tokens).2
    let released := q.released config share
    (q.reconciled config share tokens).numOutputPlaceholders =
        q.numOutputPlaceholders - released ∧
      (q.reconciled config share tokens).numComputedTokens =
        q.numComputedTokens - ((released - 1) - (kept - 1)) ∧
      (q.reconciled config share tokens).outputTokenIds = q.outputTokenIds ++ tokens.take kept := by
  have hout : (q.confirmed share).outputTokenIds = q.outputTokenIds := by
    unfold Request.confirmed
    split <;> rfl
  unfold Request.reconciled
  dsimp only
  rw [appendTokens_fst, appendTokens_snd_confirmed]
  unfold settle
  split
  · next h0 =>
    refine ⟨?_, ?_, ?_⟩
    · rw [h0, Nat.sub_zero]
      exact confirmed_numOutputPlaceholders q share
    · rw [h0, Nat.zero_sub, Nat.sub_zero]
      exact confirmed_numComputedTokens q share
    · exact congrArg (· ++ _) hout
  · refine ⟨?_, ?_, ?_⟩
    · exact congrArg (· - _) (confirmed_numOutputPlaceholders q share)
    · exact congrArg (· - _) (confirmed_numComputedTokens q share)
    · exact congrArg (· ++ _) hout

/-- What a request keeps for its whole life. -/
def Request.task (q : Request) : Request where
  requestId := q.requestId
  promptTokenIds := q.promptTokenIds
  maxNewTokens := q.maxNewTokens
  arrivalTime := q.arrivalTime
  stopStrings := q.stopStrings
  eosTokenId := q.eosTokenId
  temperature := q.temperature
  topP := q.topP
  topK := q.topK
  seed := q.seed

theorem confirmed_task (q : Request) (share : StepShare) : (q.confirmed share).task = q.task := by
  unfold Request.confirmed
  split <;> rfl

theorem advanced_task (q : Request) (config : SchedulerConfig) (share : StepShare) :
    (q.advanced config share).task = q.task := by
  unfold Request.advanced
  split <;> rfl

theorem appendTokens_task (q : Request) (tokens : List Int) :
    (appendTokens q tokens).1.task = q.task := by
  rw [appendTokens_fst]
  rfl

theorem applied_task (q : Request) (config : SchedulerConfig) (share : StepShare)
    (tokens : List Int) : (q.applied config share tokens).task = q.task := by
  have happend := (appendTokens_task (q.confirmed share) tokens).trans (confirmed_task q share)
  unfold Request.applied
  split
  · unfold Request.reconciled settle
    dsimp only
    split <;> exact happend
  · unfold Request.stepped
    dsimp only
    split
    · split
      · exact confirmed_task q share
      · exact (appendTokens_task _ tokens).trans (confirmed_task q share)
    · exact happend

theorem numPromptTokens_task {q' : Request} (h : q'.task = q.task) :
    q'.numPromptTokens = q.numPromptTokens :=
  (congrArg Request.numPromptTokens h :)

theorem task_of_same {q' : Request} (h : SameRequest q q') : q'.task = q.task :=
  (congrArg Request.task h.core :)

/-- The reservation of a share is fixed by the task. -/
theorem reservation_task {q' : Request} (h : q'.task = q.task) (config : SchedulerConfig)
    (share : StepShare) : q'.reservation config share = q.reservation config share :=
  (congrArg (fun q : Request => q.reservation config share) h :)

end Request

/-- What happens to a request leaves its task alone. -/
theorem FlightStep.task {config : SchedulerConfig} {f f' : Flight} {ev : FlightEvent}
    (h : FlightStep config f ev f') : f'.request.task = f.request.task := by
  cases h with
  | keep => rfl
  | @launch q hit share => exact advanced_task (q.admittedWith hit) config share
  | @grant q share => exact advanced_task q config share
  | preempt => rfl
  | reject => rfl
  | @apply q share shares tokens => exact applied_task q config share tokens
  | @finish q share shares tokens => exact applied_task q config share tokens
  | drop => rfl
  | close => rfl
  | discard => rfl

/-- The placeholders that the shares reserved. -/
def Request.reservations (q : Request) (config : SchedulerConfig) (shares : List StepShare) : Nat :=
  (shares.map (q.reservation config)).sum

/-- The speculative positions among them. -/
def Request.optimism (q : Request) (config : SchedulerConfig) (shares : List StepShare) : Nat :=
  (shares.map fun share => q.reservation config share - 1).sum

section Reservations
variable {q q' : Request} {config : SchedulerConfig} {share : StepShare} {shares : List StepShare}

theorem reservations_task (h : q'.task = q.task) :
    q'.reservations config shares = q.reservations config shares := by
  unfold Request.reservations
  rw [funext fun share => reservation_task h config share]

theorem optimism_task (h : q'.task = q.task) :
    q'.optimism config shares = q.optimism config shares := by
  unfold Request.optimism
  simp only [reservation_task h]

@[simp] theorem reservations_nil : q.reservations config [] = 0 := rfl

@[simp] theorem reservations_cons : q.reservations config (share :: shares) =
    q.reservation config share + q.reservations config shares := by
  simp [Request.reservations]

@[simp] theorem reservations_append : q.reservations config (shares ++ [share]) =
    q.reservations config shares + q.reservation config share := by
  simp [Request.reservations]

@[simp] theorem optimism_nil : q.optimism config [] = 0 := rfl

@[simp] theorem optimism_cons : q.optimism config (share :: shares) =
    (q.reservation config share - 1) + q.optimism config shares := by
  simp [Request.optimism]

@[simp] theorem optimism_append : q.optimism config (shares ++ [share]) =
    q.optimism config shares + (q.reservation config share - 1) := by
  simp [Request.optimism]

theorem optimism_le : q.optimism config shares ≤ q.reservations config shares := by
  induction shares with
  | nil => exact le_rfl
  | cons share shares ih =>
    rw [optimism_cons, reservations_cons]
    omega

theorem reservation_prefill (h : share.isPrefill = true) : q.reservation config share =
    if q.numPromptTokens ≤ share.numComputedTokens + share.numNewTokens then 1 else 0 := by
  unfold Request.reservation Request.speculation
  simp [h]

theorem reservation_decode (h : share.isPrefill = false) :
    q.reservation config share = 1 + q.speculation config share := by
  unfold Request.reservation
  simp [h]

theorem released_prefill (h : share.isPrefill = true) : q.released config share =
    if q.numPromptTokens ≤ q.numComputedTokens then 1 else 0 := by
  unfold Request.released Request.speculation
  simp [h]

theorem released_decode (h : share.isPrefill = false) :
    q.released config share = 1 + q.speculation config share := by
  unfold Request.released
  simp [h]

end Reservations

/-- The counters of an admitted request against its shares in flight. The prompt is behind
the counter, whatever is rolled back, once a share sampled. -/
structure Accounted (config : SchedulerConfig) (f : Flight) : Prop where
  waiting : f.place = .waiting → f.request.numOutputPlaceholders = 0
  running : f.place = .running →
    f.request.numOutputPlaceholders = f.request.reservations config f.shares
  computed : f.place = .running →
    f.request.optimism config f.shares ≤ f.request.numComputedTokens
  prompt : f.place = .running → 0 < f.request.reservations config f.shares →
    f.request.numPromptTokens + f.request.optimism config f.shares ≤ f.request.numComputedTokens

namespace Accounted
variable {config : SchedulerConfig} {q : Request} {share : StepShare} {shares : List StepShare}
  {tokens : List Int}

/-- A request that is in neither queue is not accounted for. -/
theorem of_done : Accounted config ⟨q, .done, shares⟩ := by
  constructor <;> intro h <;> cases h

theorem of_waiting (h : q.numOutputPlaceholders = 0) :
    Accounted config ⟨q, .waiting, shares⟩ := by
  constructor <;> intro hplace <;> first | exact h | cases hplace

theorem of_running (hph : q.numOutputPlaceholders = q.reservations config shares)
    (hcomp : q.optimism config shares ≤ q.numComputedTokens)
    (hprompt : 0 < q.reservations config shares →
      q.numPromptTokens + q.optimism config shares ≤ q.numComputedTokens) :
    Accounted config ⟨q, .running, shares⟩ := by
  constructor <;> intro hplace <;> first | assumption | cases hplace

/-- Dispatching a share. -/
theorem grant (hasync : config.asyncScheduling = true) (hfit : share.Fits q)
    (h : Accounted config ⟨q, .running, shares⟩) :
    Accounted config ⟨q.advanced config share, .running, shares ++ [share]⟩ := by
  have hph := h.running rfl
  have hcomp := h.computed rfl
  have hprompt := h.prompt rfl
  dsimp only at hph hcomp hprompt
  have htask := advanced_task q config share
  have hadv : (q.advanced config share).numComputedTokens = q.numComputedTokens +
      share.numNewTokens + (q.reservation config share - 1) := by
    rw [Request.advanced, if_pos hasync]
  have hpos := hfit.pos
  have hc := hfit.computed
  refine of_running ?_ ?_ ?_
  · rw [reservations_task htask, reservations_append, Request.advanced, if_pos hasync, ← hph]
  · rw [optimism_task htask, optimism_append, hadv]
    omega
  · rw [reservations_task htask, optimism_task htask, numPromptTokens_task htask,
      reservations_append, optimism_append, hadv]
    intro hsum
    by_cases hold : 0 < q.reservations config shares
    · have := hprompt hold
      omega
    · have hzero : q.optimism config shares = 0 := by
        have : q.optimism config shares ≤ q.reservations config shares := optimism_le
        omega
      cases hpre : share.isPrefill with
      | true =>
        rw [reservation_prefill hpre] at hsum ⊢
        split at hsum <;> omega
      | false =>
        have hpast : q.numPromptTokens ≤ q.numComputedTokens := by
          have hp := hfit.isPrefill
          rw [hpre] at hp
          unfold Request.isPrefill at hp
          simpa using hp.symm
        omega

/-- A share releases what it reserved, unless it is a chunk whose prompt was completed
behind it. -/
theorem released_eq (h : Accounted config ⟨q, .running, share :: shares⟩)
    (hchunk : share.isPrefill = true →
      share.numComputedTokens + share.numNewTokens < q.numPromptTokens →
      q.numComputedTokens < q.numPromptTokens) :
    q.released config share = q.reservation config share := by
  cases hpre : share.isPrefill with
  | false => rw [released_decode hpre, reservation_decode hpre]
  | true =>
    rw [released_prefill hpre, reservation_prefill hpre]
    by_cases hdone : q.numPromptTokens ≤ share.numComputedTokens + share.numNewTokens
    · have hprompt := h.prompt rfl (by
        dsimp only
        rw [reservations_cons, reservation_prefill hpre, if_pos hdone]
        omega)
      dsimp only at hprompt
      rw [if_pos hdone, if_pos (by omega)]
    · have := hchunk hpre (by omega)
      rw [if_neg hdone, if_neg (by omega)]

/-- Reconciling the oldest share. -/
theorem apply (hasync : config.asyncScheduling = true)
    (h : Accounted config ⟨q, .running, share :: shares⟩)
    (hrel : q.released config share = q.reservation config share) :
    Accounted config ⟨q.applied config share tokens, .running, shares⟩ := by
  have hph := h.running rfl
  have hcomp := h.computed rfl
  have hprompt := h.prompt rfl
  dsimp only at hph hcomp hprompt
  rw [reservations_cons] at hph hprompt
  rw [optimism_cons] at hcomp hprompt
  have htask := applied_task q config share tokens
  obtain ⟨hph', hcomp', -⟩ := reconciled_counters q config share tokens
  have happ : q.applied config share tokens = q.reconciled config share tokens := by
    rw [Request.applied, if_pos hasync]
  rw [← happ, hrel] at hph' hcomp'
  refine of_running ?_ ?_ ?_
  · rw [reservations_task htask, hph', hph]
    omega
  · rw [optimism_task htask, hcomp']
    omega
  · rw [reservations_task htask, optimism_task htask, numPromptTokens_task htask, hcomp']
    intro hsum
    have := hprompt (by omega)
    omega

/-- One step of the flight, when no chunk is confirmed behind its prompt's last step. -/
theorem step {f f' : Flight} {ev : FlightEvent} (hasync : config.asyncScheduling = true)
    (hstep : FlightStep config f ev f') (h : Accounted config f)
    (hchunk : ∀ tokens, ev = .apply tokens → ∀ share ∈ f.shares.head?, share.isPrefill = true →
      share.numComputedTokens + share.numNewTokens < f.request.numPromptTokens →
      f.request.numComputedTokens < f.request.numPromptTokens) :
    Accounted config f' := by
  cases hstep with
  | keep => exact h
  | @launch q hit share hidle hhit hfit =>
    exact @grant _ _ _ [] hasync hfit
      (of_running hidle.numOutputPlaceholders (Nat.zero_le _) fun h => absurd h (Nat.lt_irrefl 0))
  | grant hbar hfit hroom => exact h.grant hasync hfit
  | preempt => exact of_waiting rfl
  | reject => exact of_done
  | apply hlive =>
    exact h.apply hasync (h.released_eq (hchunk _ rfl _ rfl))
  | finish hend => exact of_done
  | drop hplace =>
    exact ⟨h.waiting, fun hr => absurd hr hplace, fun hr => absurd hr hplace,
      fun hr => absurd hr hplace⟩
  | close hstatus => exact of_done
  | discard hstatus => exact of_done

end Accounted

namespace Pipeline

/-- The records of a running request's steps in flight. A request is admitted when none of
its steps is in flight, so all of them belong to its present admission; a request that waits
has no admission. -/
def unreconciled (p : Pipeline) (r : RequestId) : List ScheduledRequest :=
  if r ∈ p.sched.running then
    p.inFlight.flatMap fun output => output.scheduledRequests.filter (·.requestId = r)
  else []

/-- For each of these steps that samples a token, one and its speculative tokens. -/
def reserved (p : Pipeline) (r : RequestId) : Nat :=
  ((p.unreconciled r).map fun sr => (p.sched.object r).reservation p.sched.config sr.share).sum

/-- When the result of a prefill chunk that leaves a part of the prompt is reconciled, the
rest of the prompt has not been dispatched yet. -/
def ChunkConfirmed (p : Pipeline) : PipelineOp → Pipeline → Prop
  | .complete _, _ => ∀ output ∈ p.inFlight.head?, ∀ sr ∈ output.scheduledRequests,
      sr.requestId ∈ p.sched.running → sr.isPrefill = true →
      sr.numComputedTokens + sr.numNewTokens < (p.sched.object sr.requestId).numPromptTokens →
      (p.sched.object sr.requestId).numComputedTokens <
        (p.sched.object sr.requestId).numPromptTokens
  | _, _ => True

end Pipeline

/-- No `max(0, ..)` of `_reconcile_async_output` changes its argument. Those over the number
of kept tokens presume that a step that samples returns at most what it reserved. -/
structure ClampsIdle (config : SchedulerConfig) (request : Request) (share : StepShare)
    (tokens : List Int) : Prop where
  placeholders : request.released config share ≤ request.numOutputPlaceholders
  computed : (request.released config share - 1) - ((appendTokens request tokens).2 - 1) ≤
    request.numComputedTokens
  retained : 0 < request.released config share → tokens ≠ [] → 1 ≤ (appendTokens request tokens).2
  speculative : tokens.length ≤ request.released config share →
    (appendTokens request tokens).2 - 1 ≤ request.released config share - 1

/-- The account of a state and of each step from it. -/
structure PlaceholdersExact (p : Pipeline) : Prop where
  exact : ∀ r, r ∈ p.sched.running ∨ r ∈ p.sched.waiting →
    (p.sched.object r).numOutputPlaceholders = p.reserved r
  admitted : ∀ op p', p.Step op p' → ∀ r ∈ p.sched.waiting, r ∈ p'.sched.running →
    ∀ output ∈ p.inFlight, ∀ sr ∈ output.scheduledRequests, sr.requestId ≠ r
  chunk : ∀ tokens p', p.Step (.complete tokens) p' → p.ChunkConfirmed (.complete tokens) p' →
    ∀ output ∈ p.inFlight.head?, ∀ sr ∈ output.scheduledRequests,
    sr.requestId ∈ p.sched.running → sr.isPrefill = true →
    sr.numComputedTokens + sr.numNewTokens < (p.sched.object sr.requestId).numPromptTokens →
    (p'.sched.object sr.requestId).numOutputPlaceholders =
      (p.sched.object sr.requestId).numOutputPlaceholders
  clamps : ∀ tokens p', p.Step (.complete tokens) p' → p.ChunkConfirmed (.complete tokens) p' →
    ∀ output ∈ p.inFlight.head?, ∀ sr ∈ output.scheduledRequests,
    sr.requestId ∈ p.sched.running →
    ClampsIdle p.sched.config (p.sched.object sr.requestId) sr.share
      (tokensFor tokens sr.requestId)

section Runs
variable {p p' : Pipeline} {r : RequestId} {f : Flight}

theorem views_self (p : Pipeline) (r : RequestId) :
    Views p r ⟨p.sched.object r, p.sched.placeOf r, p.inFlight.flatMap (·.sharesOf r)⟩ :=
  ⟨.refl _, rfl, rfl⟩

/-- The task of a request never changes. -/
theorem step_task {op : PipelineOp} (hwf : p.WellFormed) (hstep : p.Step op p')
    (hr : r ∈ p.issued) : (p'.sched.object r).task = (p.sched.object r).task := by
  obtain ⟨ev, f', hflight, hv, -⟩ := flight_step hwf hstep hr (views_self p r)
  exact (task_of_same hv.same).trans hflight.task

theorem reserved_eq (hr : r ∈ p.sched.running) (hv : Views p r f) :
    p.reserved r = f.request.reservations p.sched.config f.shares := by
  have htask : (p.sched.object r).task = f.request.task := task_of_same hv.same
  have hfun : (p.sched.object r).reservation p.sched.config =
      f.request.reservation p.sched.config :=
    funext fun share => reservation_task htask _ share
  rw [Pipeline.reserved, Pipeline.unreconciled, if_pos hr, Request.reservations, hv.shares]
  simp only [hfun, List.map_flatMap, SchedulerOutput.sharesOf, List.map_map]
  rfl

/-- The oldest share of a request with a record in the oldest step. -/
theorem head_share (hwf : p.WellFormed) {output : SchedulerOutput} {rest : List SchedulerOutput}
    {sr : ScheduledRequest} (hfl : p.inFlight = output :: rest)
    (hsr : sr ∈ output.scheduledRequests) (hv : Views p sr.requestId f) :
    f.shares.head? = some sr.share := by
  rw [hv.shares, hfl, List.flatMap_cons,
    sharesOf_eq_single (hwf.nodup output (by simp [hfl])) hsr]
  rfl

/-- The account of every request in every run whose chunks are confirmed in time. -/
theorem accounted_of_reachable (hp : (pipelineMachine.restrict Pipeline.ChunkConfirmed).Reachable p)
    (hasync : p.sched.config.asyncScheduling = true) :
    ∀ r ∈ p.issued, ∃ f, Views p r f ∧ Accounted p.sched.config f := by
  have main := flight_invariant (C := Pipeline.ChunkConfirmed)
    (I := fun config f => config.asyncScheduling = true → Accounted config f) ?_ ?_ hp
  · intro r hr
    obtain ⟨f, hv, h⟩ := main r hr
    exact ⟨f, hv, h hasync⟩
  · intro p request stored hfresh hacc _
    refine Accounted.of_waiting ?_
    rw [hacc.eq, hfresh.defaults]
  · intro p op p' r f ev f' hwf hC hv hev hstep h hasync
    refine (h hasync).step hasync hstep ?_
    rintro tokens rfl share hshare hpre hlt
    cases hev with
    | pass hsched hpass => cases hpass
    | @apply output rest tokens hfl hrec hrun =>
      obtain ⟨sr, hsr, rfl⟩ := List.mem_map.mp hrec
      rw [head_share hwf hfl hsr hv, Option.mem_some_iff] at hshare
      subst hshare
      have hc := hC output (by simp [hfl]) sr hsr hrun hpre
      rw [hv.same.numPromptTokens, hv.same.numComputedTokens] at hc
      exact hc hlt

end Runs

section Account
variable {p : Pipeline}

/-- The account of the request of a record that is being reconciled. -/
theorem accounted_record (hp : (pipelineMachine.restrict Pipeline.ChunkConfirmed).Reachable p)
    (hasync : p.sched.config.asyncScheduling = true) {output : SchedulerOutput}
    (hout : output ∈ p.inFlight.head?) {sr : ScheduledRequest}
    (hsr : sr ∈ output.scheduledRequests) (hrun : sr.requestId ∈ p.sched.running) :
    ∃ shares, Accounted p.sched.config
        ⟨p.sched.object sr.requestId, .running, sr.share :: shares⟩ ∧
      Views p sr.requestId ⟨p.sched.object sr.requestId, .running, sr.share :: shares⟩ := by
  have hwf := wellFormed_of_reachable (Machine.restrict_reachable hp)
  obtain ⟨rest, hfl⟩ : ∃ rest, p.inFlight = output :: rest := by
    cases hi : p.inFlight with
    | nil =>
      rw [hi] at hout
      cases hout
    | cons out rest =>
      rw [hi] at hout
      cases hout
      exact ⟨rest, rfl⟩
  obtain ⟨⟨q, place, shares⟩, hv, h⟩ := accounted_of_reachable hp hasync sr.requestId
    (hwf.issued _ (hwf.tracked _ (.inl hrun)))
  have hplace := hv.place
  rw [placeOf_running hrun] at hplace
  have hhead := head_share hwf hfl hsr hv
  dsimp only at hplace hhead
  obtain ⟨shares, rfl⟩ := List.head?_eq_some_iff.mp hhead
  subst hplace
  have hsame : (p.sched.object sr.requestId).task = q.task :=
    (congrArg Request.task hv.same.core :)
  refine ⟨shares, Accounted.of_running ?_ ?_ ?_, ⟨.refl _, hv.place, hv.shares⟩⟩
  · rw [reservations_task hsame, hv.same.numOutputPlaceholders]
    exact h.running rfl
  · rw [optimism_task hsame, hv.same.numComputedTokens]
    exact h.computed rfl
  · rw [reservations_task hsame, optimism_task hsame, hv.same.numComputedTokens,
      hv.same.numPromptTokens]
    exact h.prompt rfl

theorem appendTokens_snd_le (q : Request) (tokens : List Int) :
    (appendTokens q tokens).2 ≤ tokens.length := by
  induction tokens generalizing q with
  | nil => exact le_rfl
  | cons token tokens ih =>
    rw [appendTokens]
    dsimp only
    split
    · simp
    · exact Nat.succ_le_succ (ih _)

theorem appendTokens_snd_pos (q : Request) {tokens : List Int} (h : tokens ≠ []) :
    1 ≤ (appendTokens q tokens).2 := by
  cases tokens with
  | nil => exact absurd rfl h
  | cons token tokens =>
    rw [appendTokens]
    dsimp only
    split
    · exact le_rfl
    · exact Nat.le_add_left 1 _

/-- In every run of the asynchronous pipeline whose chunks are confirmed in time, the
placeholders of every live request are those its steps in flight reserved. -/
theorem placeholder_accounting
    (hp : (pipelineMachine.restrict Pipeline.ChunkConfirmed).Reachable p)
    (hasync : p.sched.config.asyncScheduling = true) : PlaceholdersExact p := by
  have hwf := wellFormed_of_reachable (Machine.restrict_reachable hp)
  refine ⟨fun r hr => ?_, fun op p' hstep r hwait hrun output hout sr hsr hid => ?_,
    fun tokens p' hstep hC output hout sr hsr hrun hpre hlt => ?_,
    fun tokens p' hstep hC output hout sr hsr hrun => ?_⟩
  · obtain ⟨f, hv, h⟩ := accounted_of_reachable hp hasync r (hwf.issued r (hwf.tracked r hr))
    rw [hv.same.numOutputPlaceholders]
    by_cases hrun : r ∈ p.sched.running
    · rw [reserved_eq hrun hv]
      exact h.running (by rw [hv.place, placeOf_running hrun])
    · have hwait := hr.resolve_left hrun
      rw [Pipeline.reserved, Pipeline.unreconciled, if_neg hrun]
      exact h.waiting (by rw [hv.place, placeOf_waiting hrun hwait])
  · subst hid
    have hnr : sr.requestId ∉ p.sched.running := fun h => hwf.queues.disjoint _ h hwait
    obtain ⟨ev, f', hf, hv', -⟩ := flight_step hwf hstep
      (hwf.issued _ (hwf.tracked _ (.inr hwait))) (views_self p sr.requestId)
    have hplace' := hv'.place
    rw [placeOf_running hrun] at hplace'
    rw [placeOf_waiting hnr hwait] at hf
    have hshares : p.inFlight.flatMap (·.sharesOf sr.requestId) = [] := by
      generalize p.inFlight.flatMap (·.sharesOf sr.requestId) = shares at hf
      cases hf with
      | launch => rfl
      | reject => rfl
      | _ => cases hplace'
    have hnil := List.flatMap_eq_nil_iff.mp hshares output hout
    rw [sharesOf_eq_single (hwf.nodup output hout) hsr] at hnil
    cases hnil
  · obtain ⟨shares, h, hv⟩ := accounted_record hp hasync hout hsr hrun
    have hc := hC output hout sr hsr hrun hpre
    have hrel := h.released_eq fun _ => hc
    obtain ⟨ev, f', hf, hv', hev⟩ := flight_step hwf hstep
      (hwf.issued _ (hwf.tracked _ (.inl hrun))) hv
    rw [hv'.same.numOutputPlaceholders]
    have hzero : (p.sched.object sr.requestId).released p.sched.config sr.share = 0 := by
      rw [hrel, reservation_prefill hpre]
      exact if_neg (not_le.mpr hlt)
    have happ : ∀ tokens, ((p.sched.object sr.requestId).applied p.sched.config sr.share
        tokens).numOutputPlaceholders = (p.sched.object sr.requestId).numOutputPlaceholders := by
      intro tokens
      rw [Request.applied, if_pos hasync, (reconciled_counters _ _ _ _).1, hzero, Nat.sub_zero]
    cases hev with
    | keep =>
      cases hf
      rfl
    | apply =>
      cases hf with
      | apply => exact happ _
      | finish => exact happ _
    | drop hnr => exact absurd hrun hnr
  · obtain ⟨shares, h, hv⟩ := accounted_record hp hasync hout hsr hrun
    have hrel := h.released_eq fun hpre => hC output hout sr hsr hrun hpre
    have hph := h.running rfl
    have hcomp := h.computed rfl
    dsimp only at hph hcomp
    rw [reservations_cons] at hph
    rw [optimism_cons] at hcomp
    have hle := appendTokens_snd_le (p.sched.object sr.requestId) (tokensFor tokens sr.requestId)
    refine ⟨?_, ?_, fun _ hne => appendTokens_snd_pos _ hne, fun hlen => ?_⟩
    · omega
    · omega
    · omega

end Account

instance (p : Pipeline) (p' : Pipeline) : ∀ op, Decidable (p.ChunkConfirmed op p')
  | .complete _ => inferInstanceAs (Decidable (∀ output ∈ p.inFlight.head?,
      ∀ sr ∈ output.scheduledRequests, sr.requestId ∈ p.sched.running → sr.isPrefill = true →
      sr.numComputedTokens + sr.numNewTokens < (p.sched.object sr.requestId).numPromptTokens →
      (p.sched.object sr.requestId).numComputedTokens <
        (p.sched.object sr.requestId).numPromptTokens))
  | .add _ | .dispatch | .finish _ | .abort _ | .discard => .isTrue trivial

def chunkedConfig : SchedulerConfig :=
  { SchedulerConfig.defaults with
    enablePrefixCache := false
    longPrefillTokenThreshold := 2
    asyncScheduling := true
    threshold_mem := fun h => absurd rfl h }

/-- Three chunks of two tokens; the first is confirmed before the last is dispatched. -/
def chunkedRun : Option Pipeline :=
  Pipeline.bootAllowed (fun p op => decide (p.ChunkConfirmed op p)) KvCacheManager.encodingHash
    [] 2 2 4 chunkedConfig
    [.add (plainRequest "a" [1, 2, 3, 4, 5, 6] 4 0), .dispatch, .dispatch, .complete ∅, .dispatch]

theorem placeholder_accounting_chunked : ∃ p,
    (pipelineMachine.restrict Pipeline.ChunkConfirmed).Reachable p ∧
      (p.sched.object "a").numOutputPlaceholders = 1 ∧ PlaceholdersExact p := by
  have hrun : (chunkedRun.map fun p => decide (p.sched.config.asyncScheduling = true ∧
      (p.sched.object "a").numOutputPlaceholders = 1)) = some true := by
    decide
  obtain ⟨p, hboot, h⟩ := Option.map_eq_some_iff.mp hrun
  obtain ⟨hasync, hph⟩ := of_decide_eq_true h
  have hp : (pipelineMachine.restrict Pipeline.ChunkConfirmed).Reachable p := by
    refine Pipeline.bootAllowed_reachable ?_ (by decide) ?_ hboot
    · intro p op p' hop
      cases op <;> exact of_decide_eq_true hop
    · intro q hq
      simp only [List.mem_cons, PipelineOp.add.injEq, List.not_mem_nil, or_false,
        reduceCtorEq] at hq
      subst hq
      exact plainRequest_fresh (by decide)
  exact ⟨p, hp, hph, placeholder_accounting hp hasync⟩

/-- The first of two chunks is confirmed after the second was dispatched: its result takes
the placeholder of the second. -/
def overtakenRun : Option Pipeline :=
  Pipeline.bootAll KvCacheManager.encodingHash [] 2 2 4 chunkedConfig
    [.add (plainRequest "a" [1, 2, 3, 4] 4 0), .dispatch, .dispatch, .complete ∅]

theorem placeholder_lost : ¬ ∀ p, pipelineMachine.Reachable p →
    p.sched.config.asyncScheduling = true → PlaceholdersExact p := by
  intro hall
  have hrun : (overtakenRun.map fun p => decide (p.sched.config.asyncScheduling = true ∧
      "a" ∈ p.sched.running ∧ (p.sched.object "a").numOutputPlaceholders = 0 ∧
      p.reserved "a" = 1)) = some true := by
    decide
  obtain ⟨p, hboot, h⟩ := Option.map_eq_some_iff.mp hrun
  obtain ⟨hasync, hmem, hph, hres⟩ := of_decide_eq_true h
  have hp : pipelineMachine.Reachable p := by
    refine Pipeline.bootAll_reachable (by decide) ?_ hboot
    intro q hq
    simp only [List.mem_cons, PipelineOp.add.injEq, List.not_mem_nil, or_false,
      reduceCtorEq] at hq
    subst hq
    exact plainRequest_fresh (by decide)
  have hexact := (hall p hp hasync).exact "a" (.inl hmem)
  rw [hph, hres] at hexact
  cases hexact

end PyptoServing.Sched
