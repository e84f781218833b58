import PyptoServing.Engine.Commands
import PyptoServing.Sched.Coverage
import PyptoServing.Sched.PreemptionOrder
import PyptoServing.Sched.UnsharedPages

/-!
# What the prefills carry

The scheduler sizes a prefill over all tokens of a request, the command cuts its payload from
the prompt. The records of every dispatch are kept in a log, each with the request object that
its command reads. A payload is the part of the request that its record stands for exactly when
the record ends inside the prompt; then every position below a first decode was carried by a
payload since the admission or covered by the lookup at the admission.
-/
namespace PyptoServing.Engine

open Lib Memory Sched Server
open Pipeline (recordIds)

/-- A record when its command is built. -/
structure SentRecord where
  /-- The object that the command reads. -/
  request : Request
  record : ScheduledRequest
  /-- The request was waiting, so the record admits it. -/
  admits : Bool

namespace SentRecord
variable {e : SentRecord}

/-- The tokens of the prefill entry. -/
def payload (e : SentRecord) : List Int := (prefillEntry e.request e.record).chunkTokens

/-- The payload is what the record stands for in the prompt and the outputs. -/
structure Exact (e : SentRecord) : Prop where
  length : e.payload.length = e.record.numNewTokens
  tokens : e.payload =
    (e.request.allTokenIds.drop e.record.numComputedTokens).take e.record.numNewTokens

/-- The record ends inside the prompt. -/
def Inside (e : SentRecord) : Prop :=
  e.record.numComputedTokens + e.record.numNewTokens ≤ e.request.numPromptTokens

instance : Decidable e.Inside := inferInstanceAs (Decidable (_ ≤ _))

theorem length_payload (e : SentRecord) : e.payload.length =
    min e.record.numNewTokens (e.request.numPromptTokens - e.record.numComputedTokens) := by
  rw [payload, prefillEntry, List.length_take, List.length_drop, Request.numPromptTokens]

theorem Inside.length (h : e.Inside) : e.payload.length = e.record.numNewTokens := by
  rw [length_payload]
  unfold Inside at h
  omega

theorem Inside.exact (h : e.Inside) : e.Exact := by
  refine ⟨h.length, ?_⟩
  have hlen : e.record.numNewTokens ≤
      (e.request.promptTokenIds.drop e.record.numComputedTokens).length := by
    rw [List.length_drop]
    unfold Inside Request.numPromptTokens at h
    omega
  have hle : e.record.numComputedTokens ≤ e.request.promptTokenIds.length :=
    le_trans (Nat.le_add_right _ _) h
  rw [Request.allTokenIds, List.drop_append_of_le_length hle, List.take_append_of_le_length hlen]
  rfl

/-- A payload that is cut short has too few tokens. -/
theorem Exact.inside (h : e.Exact) (hpos : 0 < e.record.numNewTokens) : e.Inside := by
  have hlen := h.length
  rw [length_payload] at hlen
  unfold Inside
  omega

end SentRecord

def sentRecord (p : Pipeline) (pass : Pass) (sr : ScheduledRequest) : SentRecord where
  request := pass.sched.object sr.requestId
  record := sr
  admits := decide (sr.requestId ∉ p.sched.running)

/-- The records that an operation sends. -/
def sentBy (p : Pipeline) : PipelineOp → List SentRecord
  | .dispatch =>
    match p.sched.schedule with
    | .ok pass => pass.output.scheduledRequests.map (sentRecord p pass)
    | .error _ => []
  | _ => []

/-- The runs of the pipeline with the records that were sent. -/
def payloadMachine : Machine (Pipeline × List SentRecord) PipelineOp :=
  pipelineMachine.track [] fun log p op _ => log ++ sentBy p op

/-- The records of a request since it was admitted last. -/
def sinceAdmission (r : RequestId) (log : List SentRecord) : List SentRecord :=
  (log.filter (·.record.requestId = r)).foldl
    (fun since e => if e.admits then [e] else since ++ [e]) []

/-- The position was covered by the lookup at the admission, or a payload carried it. -/
def Supplies (since : List SentRecord) (i : Nat) : Prop :=
  (∃ e ∈ since, e.admits = true ∧ i < e.record.numComputedTokens) ∨
    ∃ e ∈ since, e.record.isPrefill = true ∧ e.record.numComputedTokens ≤ i ∧
      i < e.record.numComputedTokens + e.payload.length

/-- The payloads cover what they stand for, and the positions below a first decode. -/
structure PayloadsCover (log : List SentRecord) : Prop where
  exact : ∀ e ∈ log, e.record.isPrefill = true → e.Exact
  decode : ∀ sent e later, log = sent ++ e :: later → e.record.isPrefill = false →
    (∀ e' ∈ sinceAdmission e.record.requestId sent, e'.record.isPrefill = true) →
    ∀ i < e.record.numComputedTokens, Supplies (sinceAdmission e.record.requestId sent) i

section Log
variable {p : Pipeline} {pass : Pass} {op : PipelineOp} {sr : ScheduledRequest} {e : SentRecord}
  {log new since since' : List SentRecord} {r : RequestId} {i : Nat}

theorem sentBy_dispatch (h : p.sched.schedule = .ok pass) :
    sentBy p .dispatch = pass.output.scheduledRequests.map (sentRecord p pass) := by
  rw [sentBy, h]

theorem mem_sentBy (h : e ∈ sentBy p op) : op = .dispatch ∧ ∃ pass, p.sched.schedule = .ok pass ∧
    ∃ sr ∈ pass.output.scheduledRequests, e = sentRecord p pass sr := by
  unfold sentBy at h
  split at h
  · split at h
    · next pass hsched =>
      obtain ⟨sr, hsr, rfl⟩ := List.mem_map.mp h
      exact ⟨rfl, pass, hsched, sr, hsr, rfl⟩
    · cases h
  · cases h

theorem sinceAdmission_other (h : ∀ e ∈ new, e.record.requestId ≠ r) :
    sinceAdmission r (log ++ new) = sinceAdmission r log := by
  have hnil : new.filter (·.record.requestId = r) = [] :=
    List.filter_eq_nil_iff.mpr fun e he hid => h e he (of_decide_eq_true hid)
  rw [sinceAdmission, List.filter_append, hnil, List.append_nil]
  rfl

theorem sinceAdmission_single (h : new.filter (·.record.requestId = r) = [e]) :
    sinceAdmission r (log ++ new) =
      if e.admits then [e] else sinceAdmission r log ++ [e] := by
  rw [sinceAdmission, List.filter_append, h, List.foldl_append]
  rfl

/-- A dispatch sends one record for a request that it schedules. -/
theorem filter_sentBy (hsched : p.sched.schedule = .ok pass)
    (hnd : (recordIds pass.output).Nodup) (hsr : sr ∈ pass.output.scheduledRequests) :
    (sentBy p .dispatch).filter (·.record.requestId = sr.requestId) = [sentRecord p pass sr] := by
  obtain ⟨x, hx, -⟩ := List.map_eq_singleton_iff.mp (sharesOf_eq_single hnd hsr)
  have hmem : sr ∈ pass.output.scheduledRequests.filter (·.requestId = sr.requestId) :=
    List.mem_filter.mpr ⟨hsr, decide_eq_true rfl⟩
  have hfilter : pass.output.scheduledRequests.filter (·.requestId = sr.requestId) = [sr] := by
    rw [hx] at hmem ⊢
    rw [List.mem_singleton.mp hmem]
  rw [sentBy_dispatch hsched, List.filter_map]
  exact congrArg (List.map (sentRecord p pass)) hfilter

theorem sinceAdmission_unscheduled (hsched : p.sched.schedule = .ok pass)
    (hr : r ∉ recordIds pass.output) :
    sinceAdmission r (log ++ sentBy p .dispatch) = sinceAdmission r log := by
  refine sinceAdmission_other fun e he hid => hr ?_
  rw [sentBy_dispatch hsched] at he
  obtain ⟨sr, hsr, rfl⟩ := List.mem_map.mp he
  rw [← hid]
  exact List.mem_map_of_mem hsr

theorem Supplies.mono (hsub : since ⊆ since') (h : Supplies since i) : Supplies since' i := by
  rcases h with ⟨e, he, hadm, hi⟩ | ⟨e, he, hpre, hle, hlt⟩
  · exact .inl ⟨e, hsub he, hadm, hi⟩
  · exact .inr ⟨e, hsub he, hpre, hle, hlt⟩

/-- The positions up to the end of a record that ends inside the prompt. -/
theorem Supplies.record (he : e ∈ since) (hpre : e.record.isPrefill = true) (hin : e.Inside)
    (hbelow : i < e.record.numComputedTokens → Supplies since i)
    (hi : i < e.record.numComputedTokens + e.record.numNewTokens) : Supplies since i := by
  by_cases hc : i < e.record.numComputedTokens
  · exact hbelow hc
  · refine .inr ⟨e, he, hpre, Nat.le_of_not_lt hc, ?_⟩
    rwa [hin.length]

end Log

/-- The positions that the records sent so far stand for: the counter is past them when it was
advanced at the dispatch. -/
def reach (config : SchedulerConfig) (f : Flight) : Nat :=
  if config.asyncScheduling then f.request.numComputedTokens
  else f.request.numComputedTokens + (f.shares.map (·.numNewTokens)).sum

/-- Until its first decode a running request has a payload for every position it reached. -/
structure Supplied (config : SchedulerConfig) (f : Flight) (since : List SentRecord) : Prop where
  positions : f.place = .running → (∀ e ∈ since, e.record.isPrefill = true) →
    ∀ i < reach config f, Supplies since i
  shares : f.place = .running → (∀ e ∈ since, e.record.isPrefill = true) →
    ∀ share ∈ f.shares, share.isPrefill = true

/-- What an event adds to the records since the admission. -/
inductive Recorded (since : List SentRecord) : FlightEvent → List SentRecord → Prop
  | launch {hit : Nat} {e : SentRecord} : e.admits = true →
      (e.record.isPrefill = true → e.Inside) → Recorded since (.launch hit e.record.share) [e]
  | grant {e : SentRecord} : (e.record.isPrefill = true → e.Inside) →
      Recorded since (.grant e.record.share) (since ++ [e])
  | other {ev : FlightEvent} : (∀ hit share, ev ≠ .launch hit share) →
      (∀ share, ev ≠ .grant share) → Recorded since ev since

section Reach
variable {config : SchedulerConfig} {q : Request} {place : Place} {share : StepShare}
  {shares : List StepShare} {tokens : List Int} {f f' : Flight} {ev : FlightEvent}
  {since since' : List SentRecord}

theorem computed_le_reach (config : SchedulerConfig) (f : Flight) :
    f.request.numComputedTokens ≤ reach config f := by
  unfold reach
  split
  · exact le_rfl
  · exact Nat.le_add_right _ _

/-- With room in flight nothing is ahead of the counter. -/
theorem reach_ready (hroom : shares.length < config.maxInFlight) :
    reach config ⟨q, place, shares⟩ = q.numComputedTokens := by
  unfold reach
  split
  · rfl
  · next hsync =>
    rw [SchedulerConfig.maxInFlight, if_neg hsync, Nat.lt_one_iff, List.length_eq_zero_iff] at hroom
    rw [hroom]
    rfl

/-- A prefill reaches as far as its share. -/
theorem reach_advanced (hpre : share.isPrefill = true) (place' : Place) :
    reach config ⟨q.advanced config share, place, shares ++ [share]⟩ =
      reach config ⟨q, place', shares⟩ + share.numNewTokens := by
  have hspec : q.reservation config share - 1 = 0 := by
    rw [reservation_prefill hpre]
    split <;> rfl
  unfold reach Request.advanced
  split
  · dsimp only
    rw [hspec, Nat.add_zero]
  · dsimp only
    rw [List.map_append, List.sum_append, List.map_singleton, List.sum_singleton, Nat.add_assoc]

/-- The result of a prefill reaches no further. -/
theorem reach_applied (hpre : share.isPrefill = true) :
    reach config ⟨q.applied config share tokens, place, shares⟩ ≤
      reach config ⟨q, place, share :: shares⟩ := by
  have hconf : (q.confirmed share).numComputedTokens = q.numComputedTokens := by
    unfold Request.confirmed
    split <;> rfl
  unfold reach Request.applied
  split
  · dsimp only
    rw [(reconciled_counters q config share tokens).2.1]
    exact Nat.sub_le _ _
  · have hstep : (q.stepped share tokens).numComputedTokens =
        q.numComputedTokens + share.numNewTokens := by
      unfold Request.stepped
      dsimp only
      rw [if_pos hpre]
      split
      · exact congrArg (· + share.numNewTokens) hconf
      · rw [Scheduler.appendTokens_fst]
        exact congrArg (· + share.numNewTokens) hconf
    dsimp only
    rw [hstep, List.map_cons, List.sum_cons, Nat.add_assoc]

theorem Supplied.of_place (h : f.place ≠ .running) : Supplied config f since :=
  ⟨fun hrun => absurd hrun h, fun hrun => absurd hrun h⟩

/-- A share that was dispatched with room in flight. -/
theorem Supplied.dispatched {e : SentRecord} (hroom : shares.length < config.maxInFlight)
    (hfit : e.record.share.Fits q) (hin : e.record.isPrefill = true → e.Inside)
    (he : e ∈ since') (hpast : (∀ e ∈ since', e.record.isPrefill = true) →
      (∀ i < q.numComputedTokens, Supplies since' i) ∧ ∀ share ∈ shares, share.isPrefill = true) :
    Supplied config ⟨q.advanced config e.record.share, .running, shares ++ [e.record.share]⟩
      since' := by
  refine ⟨fun _ hall i hi => ?_, fun _ hall share hshare => ?_⟩
  · have hpre := hall e he
    rw [reach_advanced hpre .running, reach_ready hroom] at hi
    have hc : e.record.numComputedTokens = q.numComputedTokens := hfit.computed
    refine .record he hpre (hin hpre) (fun hlt => (hpast hall).1 i (hc ▸ hlt)) ?_
    rw [hc]
    exact hi
  · rcases List.mem_append.mp hshare with hold | hnew
    · exact (hpast hall).2 share hold
    · rw [List.mem_singleton.mp hnew]
      exact hall e he

theorem Supplied.step (hstep : FlightStep config f ev f') (hrec : Recorded since ev since')
    (h : Supplied config f since) : Supplied config f' since' := by
  cases hstep with
  | keep =>
    cases hrec
    exact h
  | @launch q hit share hidle hhit hfit =>
    cases hrec with
    | @launch _ e hadm hin =>
      have hroom : ([] : List StepShare).length < config.maxInFlight := by
        unfold SchedulerConfig.maxInFlight
        split <;> decide
      refine Supplied.dispatched hroom hfit hin List.mem_cons_self fun _ => ⟨?_, ?_⟩
      · intro i hi
        have hc : e.record.numComputedTokens = (q.admittedWith hit).numComputedTokens :=
          hfit.computed
        exact .inl ⟨e, List.mem_cons_self, hadm, hc ▸ hi⟩
      · intro share hshare
        cases hshare
    | other hl _ => exact absurd rfl (hl _ _)
  | @grant q share shares hbar hfit hroom =>
    cases hrec with
    | @grant e hin =>
      refine Supplied.dispatched hroom hfit hin (List.mem_append_right _ List.mem_cons_self) ?_
      intro hall
      have hold : ∀ e ∈ since, e.record.isPrefill = true := fun e he =>
        hall e (List.mem_append_left _ he)
      refine ⟨fun i hi => ?_, h.shares rfl hold⟩
      have hreach := computed_le_reach config ⟨q, .running, shares⟩
      exact (h.positions rfl hold i (hi.trans_le hreach)).mono (List.subset_append_left _ _)
    | other _ hg => exact absurd rfl (hg _)
  | apply hlive =>
    cases hrec
    refine ⟨fun _ hall i hi => ?_, fun _ hall share hshare => ?_⟩
    · have hpre := h.shares rfl hall _ List.mem_cons_self
      exact h.positions rfl hall i (hi.trans_le (reach_applied hpre))
    · exact h.shares rfl hall share (List.mem_cons_of_mem _ hshare)
  | drop hplace => exact .of_place hplace
  | preempt => exact .of_place fun hplace => nomatch hplace
  | reject => exact .of_place fun hplace => nomatch hplace
  | finish => exact .of_place fun hplace => nomatch hplace
  | close => exact .of_place fun hplace => nomatch hplace
  | discard => exact .of_place fun hplace => nomatch hplace

end Reach

/-- The records of a pass that admit a request start at its first token. -/
def ColdStarts (s : Scheduler) (pass : Pass) : Prop :=
  ∀ sr ∈ pass.output.scheduledRequests, sr.requestId ∈ s.running ∨ sr.numComputedTokens = 0

section Cold
variable {s : Scheduler} {pass pass' : Pass} {r : RequestId}

theorem ColdStarts.congr (h : ColdStarts s pass)
    (hout : pass'.output.scheduledRequests = pass.output.scheduledRequests) :
    ColdStarts s pass' := by
  unfold ColdStarts
  rw [hout]
  exact h

/-- Without a prefix index a turn of the waiting phase admits cold. -/
theorem ColdStarts.turn {outcome : Pass.WaitingOutcome}
    (hoff : s.config.enablePrefixCache = false) (hw : Waits s pass r) (h : ColdStarts s pass)
    (ht : Pass.WaitingTurn pass r outcome pass') : ColdStarts s pass' := by
  have hlookup : ∀ {p : Pass}, pass.lookupPrefix r = .ok p → p = pass := by
    intro p hl
    unfold Pass.lookupPrefix at hl
    dsimp only at hl
    rw [hw.config, hoff, if_pos Bool.false_ne_true] at hl
    exact (Except.ok.inj hl).symm
  have hreleased : ∀ {p p' : Pass}, p.output = pass.output → p.releaseWaiting r = .ok p' →
      ColdStarts s p' := by
    intro p p' hout hrel
    have hstep := WaitingStep.of_release (s := s) hrel
    exact h.congr (congrArg _ (hstep.output.trans hout))
  cases ht with
  | reject hl _ hrel =>
    cases hlookup hl
    exact (hreleased rfl hrel).congr rfl
  | defer hl _ _ _ hrel =>
    cases hlookup hl
    exact hreleased rfl hrel
  | block hl _ hoff halloc hrel =>
    cases hlookup hl
    cases hw.offer_cold hoff
    exact hreleased (Pass.allocate_allocated (hw.allocation_cold halloc)).output hrel
  | @launch _ _ p₃ _ n' hl _ hoff halloc =>
    cases hlookup hl
    cases hw.offer_cold hoff
    have hall := Pass.allocate_allocated (hw.allocation_cold halloc)
    intro sr hsr
    rw [Pass.launch_scheduledRequests, hall.output] at hsr
    rcases List.mem_append.mp hsr with hsr | hsr
    · exact h sr hsr
    · rw [List.mem_singleton.mp hsr]
      refine .inr ?_
      show ((p₃.launch r n').sched.object r).numComputedTokens = 0
      rw [Pass.launch_object_self]
      exact (hall.core.object r).numComputedTokens.trans hw.computed_zero

theorem coldStarts_schedule (hq : Queues s) (hoff : s.config.enablePrefixCache = false)
    (hsched : s.schedule = .ok pass) : ColdStarts s pass := by
  refine Scheduler.schedule_rule (P := ColdStarts s) hq ?_ ?_ ?_ ?_ ?_ hsched
  · exact fun sr hsr => absurd hsr List.not_mem_nil
  · intro done r rest pass pass' hI _ ht sr hsr
    have hI' := hI.turn hq ht
    refine .inl ?_
    rw [← hI'.split]
    exact List.mem_append_left _ (hI'.records sr hsr).1
  · exact fun pass _ hp => hp
  · intro admitted rejected remaining r queue pass outcome pass' hw hnew _ hp ht
    obtain ⟨hwaits, -, -⟩ := hw.waits hq hnew
    exact hp.turn hoff hwaits ht
  · exact fun pass waiting hp => hp

end Cold

section Runs
variable {p p' : Pipeline} {pass : Pass} {op : PipelineOp} {sr : ScheduledRequest}
  {f f' : Flight} {ev : FlightEvent} {log since : List SentRecord} {r : RequestId}
  {t : Pipeline × List SentRecord}

theorem dispatch_pass (h : p.Step .dispatch p') : p.Ready ∧ ∃ pass, p.sched.schedule = .ok pass := by
  cases h with
  | dispatch hready hsched => exact ⟨hready, _, hsched⟩
  | idle hready hsched => exact ⟨hready, _, hsched⟩

/-- A dispatch moves a request by one flight step, and the pass says which. -/
theorem dispatched_flight (hwf : p.WellFormed) (hstep : p.Step .dispatch p') (hv : Views p r f) :
    p.Ready ∧ ∃ pass ev f', p.sched.schedule = .ok pass ∧
      FlightStep p.sched.config f ev f' ∧ Views p' r f' ∧ PassFor pass r ev := by
  cases hstep with
  | @dispatch pass s output hready hsched hne hadv =>
    obtain ⟨admitted, rejected, ha⟩ := hwf.afterPass hready hsched
    have hadv' := ha.advances hwf.queues hadv
    obtain ⟨ev, f', hf, hs, hp, hsh, hev⟩ := passed_flight hwf hready ha hadv' hv
    refine ⟨hready, pass, ev, f', hsched, hf, ⟨hs, hp, ?_⟩, hev⟩
    dsimp only
    rw [hsh, hv.shares, List.flatMap_append, List.flatMap_singleton,
      sharesOf_congr hadv'.ids hadv'.shares]
  | @idle pass hready hsched hempty =>
    obtain ⟨admitted, rejected, ha⟩ := hwf.afterPass hready hsched
    have hnil : pass.output.scheduledRequests = [] := List.isEmpty_iff.mp hempty
    have hadv : Scheduler.Advances pass.sched pass.output.scheduledRequests pass.sched [] := by
      rw [hnil]
      exact ⟨rfl, rfl, rfl, rfl, rfl, rfl, by simp, fun r _ => .refl _⟩
    obtain ⟨ev, f', hf, hs, hp, hsh, hev⟩ := passed_flight hwf hready ha hadv hv
    refine ⟨hready, pass, ev, f', hsched, hf, ⟨hs, hp, ?_⟩, hev⟩
    dsimp only
    rw [hsh, hv.shares, SchedulerOutput.sharesOf, hnil]
    simp

/-- What every record has when its command is built, every record in the log has. -/
theorem log_invariant {Q : SentRecord → Prop}
    (send : ∀ (p : Pipeline) (pass : Pass) (sr : ScheduledRequest), pipelineMachine.Reachable p →
      p.Ready → p.sched.schedule = .ok pass → sr ∈ pass.output.scheduledRequests →
      Q (sentRecord p pass sr)) (ht : payloadMachine.Reachable t) : ∀ e ∈ t.2, Q e := by
  induction ht with
  | start h =>
    rw [h.2]
    intro e he
    cases he
  | @next t t' op hreach hstep ih =>
    rw [hstep.2]
    intro e he
    rcases List.mem_append.mp he with he | he
    · exact ih e he
    · obtain ⟨rfl, pass, hsched, sr, hsr, rfl⟩ := mem_sentBy he
      exact send t.1 pass sr (Machine.track_reachable_fst hreach) (dispatch_pass hstep.1).1 hsched hsr

/-- How a record was sized. -/
theorem sent_sized (hp : pipelineMachine.Reachable p) (hready : p.Ready)
    (hsched : p.sched.schedule = .ok pass) (hsr : sr ∈ pass.output.scheduledRequests) :
    ∃ q, SameRequest q (pass.sched.object sr.requestId) ∧ sr.share.Fits q := by
  have hwf := wellFormed_of_reachable hp
  obtain ⟨admitted, rejected, ha⟩ := hwf.afterPass hready hsched
  rcases ha.summary.records sr hsr with ⟨hrun, hout, hsized⟩ | ⟨-, c, -, hsized, hobj⟩
  · exact ⟨_, ha.summary.running_object hwf.queues hrun hout, sized_fits hsized⟩
  · have hfits := sized_fits hsized
    exact ⟨_, hobj, hfits.computed, hfits.isPrefill, hfits.pos, hfits.le_needed⟩

theorem sent_pos (ht : payloadMachine.Reachable t) : ∀ e ∈ t.2, 0 < e.record.numNewTokens := by
  refine log_invariant (fun p pass sr hp hready hsched hsr => ?_) ht
  obtain ⟨q, -, hfits⟩ := sent_sized hp hready hsched hsr
  exact hfits.pos

/-- The command of a dispatch carries the payloads of its prefill records. -/
theorem command_payloads (hp : pipelineMachine.Reachable p) (hready : p.Ready)
    (hsched : p.sched.schedule = .ok pass) (known finishedIds : List RequestId) (stepId : Nat) :
    (buildStepCommand pass.sched.object pass.output known finishedIds
      stepId).1.prefillRequests.map (·.chunkTokens) =
      ((sentBy p .dispatch).filter (·.record.isPrefill)).map (·.payload) := by
  obtain ⟨admitted, rejected, ha⟩ := (wellFormed_of_reachable hp).afterPass hready hsched
  rw [(buildStepCommand_holds _ _ _ _ ha.summary.records_nodup).prefill, cleanupCommand,
    List.nil_append, List.map_map, sentBy_dispatch hsched, List.filter_map, List.map_map]
  rfl

/-- A request that still computes its prompt has no placeholder. -/
theorem prefill_noPlaceholders (hp : pipelineMachine.Reachable p) (hr : r ∈ p.sched.running)
    (hpre : (p.sched.object r).isPrefill = true) :
    (p.sched.object r).numOutputPlaceholders = 0 := by
  have hwf := wellFormed_of_reachable hp
  obtain ⟨f, hv, hasync, hsync⟩ := covered_of_reachable hp r
    (hwf.issued r (hwf.tracked r (.inl hr)))
  rw [hv.same.numOutputPlaceholders]
  cases hmode : p.sched.config.asyncScheduling with
  | false => exact hsync hmode
  | true =>
    have hplace : f.place = .running := by rw [hv.place, placeOf_running hr]
    have hle := (hasync hmode).running hplace
    have hprompt := (hasync hmode).prompt hplace
    have hlt : (p.sched.object r).numComputedTokens < (p.sched.object r).numPromptTokens :=
      of_decide_eq_true hpre
    rw [hv.same.numComputedTokens, hv.same.numPromptTokens] at hlt
    by_contra hne
    have := hprompt (lt_of_lt_of_le (Nat.pos_of_ne_zero hne) hle)
    omega

/-- A prefill record ends inside the tokens that the request holds. -/
theorem prefill_within (ht : payloadMachine.Reachable t) : ∀ e ∈ t.2, e.record.isPrefill = true →
    e.record.numComputedTokens + e.record.numNewTokens ≤ e.request.allTokenIds.length := by
  refine log_invariant (fun p pass sr hp hready hsched hsr hpre => ?_) ht
  have hwf := wellFormed_of_reachable hp
  obtain ⟨admitted, rejected, ha⟩ := hwf.afterPass hready hsched
  obtain ⟨q, hsame, hfits, hph⟩ : ∃ q, SameRequest q (pass.sched.object sr.requestId) ∧
      sr.share.Fits q ∧ q.numOutputPlaceholders = 0 := by
    rcases ha.summary.records sr hsr with ⟨hrun, hout, hsized⟩ | ⟨hadm, c, -, hsized, hobj⟩
    · refine ⟨_, ha.summary.running_object hwf.queues hrun hout, sized_fits hsized, ?_⟩
      exact prefill_noPlaceholders hp hrun (hsized.isPrefill.symm.trans hpre)
    · have hfits := sized_fits hsized
      exact ⟨_, hobj, ⟨hfits.computed, hfits.isPrefill, hfits.pos, hfits.le_needed⟩,
        (hwf.queues.idle _ (ha.summary.admitted_waiting _ hadm)).numOutputPlaceholders⟩
  have hc : sr.numComputedTokens = q.numComputedTokens := hfits.computed
  have hpos : 0 < sr.numNewTokens := hfits.pos
  have hle : sr.numNewTokens ≤ q.numNewTokensNeeded := hfits.le_needed
  have hprompt : (pass.sched.object sr.requestId).promptTokenIds = q.promptTokenIds :=
    hsame.promptTokenIds
  have houtput : (pass.sched.object sr.requestId).outputTokenIds = q.outputTokenIds :=
    hsame.outputTokenIds
  show sr.numComputedTokens + sr.numNewTokens ≤
    (pass.sched.object sr.requestId).allTokenIds.length
  rw [Request.allTokenIds, List.length_append, hprompt, houtput, hc]
  unfold Request.numNewTokensNeeded Request.numTokens Request.numPromptTokens at hle
  omega

/-- Only a request that was preempted with outputs has a record past its prompt. -/
theorem overrun_has_outputs (ht : payloadMachine.Reachable t) {e : SentRecord} (he : e ∈ t.2)
    (hpre : e.record.isPrefill = true) (hover : ¬ e.Inside) : e.request.outputTokenIds ≠ [] := by
  intro hnil
  have hwithin := prefill_within ht e he hpre
  rw [Request.allTokenIds, hnil, List.append_nil] at hwithin
  exact hover hwithin

/-- Without a prefix index no admission starts behind a hit. -/
theorem admission_cold (ht : payloadMachine.Reachable t)
    (hoff : t.1.sched.config.enablePrefixCache = false) :
    ∀ e ∈ t.2, e.admits = true → e.record.numComputedTokens = 0 := by
  induction ht with
  | start h =>
    rw [h.2]
    intro e he
    cases he
  | @next t t' op hreach hstep ih =>
    have hwf := wellFormed_of_reachable (Machine.track_reachable_fst hreach)
    rw [step_config hwf hstep.1] at hoff
    rw [hstep.2]
    intro e he hadm
    rcases List.mem_append.mp he with he | he
    · exact ih hoff e he hadm
    · obtain ⟨rfl, pass, hsched, sr, hsr, rfl⟩ := mem_sentBy he
      rcases coldStarts_schedule hwf.queues hoff hsched sr hsr with hrun | hzero
      · exact absurd hrun (of_decide_eq_true hadm)
      · exact hzero

/-- What a dispatch records of a request. -/
theorem recorded_dispatch (hwf : p.WellFormed) (hready : p.Ready)
    (hsched : p.sched.schedule = .ok pass) (hv : Views p r f)
    (hstep : FlightStep p.sched.config f ev f') (hpass : PassFor pass r ev)
    (hin : ∀ e ∈ sentBy p .dispatch, e.record.isPrefill = true → e.Inside) :
    Recorded (sinceAdmission r log) ev (sinceAdmission r (log ++ sentBy p .dispatch)) := by
  obtain ⟨admitted, rejected, ha⟩ := hwf.afterPass hready hsched
  have hnd := ha.summary.records_nodup
  have hmem : ∀ sr ∈ pass.output.scheduledRequests, sentRecord p pass sr ∈ sentBy p .dispatch := by
    intro sr hsr
    rw [sentBy_dispatch hsched]
    exact List.mem_map_of_mem hsr
  cases hpass with
  | keep hnot =>
    rw [sinceAdmission_unscheduled hsched hnot]
    exact .other (fun _ _ h => nomatch h) fun _ h => nomatch h
  | reject hnot =>
    rw [sinceAdmission_unscheduled hsched hnot]
    exact .other (fun _ _ h => nomatch h) fun _ h => nomatch h
  | preempt hvic =>
    have hnot : r ∉ recordIds pass.output := by
      intro hrec
      rcases ha.summary.mem_running.mp (ha.scheduled r hrec) with ⟨-, hout⟩ | hadm
      · exact hout hvic
      · exact hwf.queues.disjoint r (ha.summary.victims_running r hvic)
          (ha.summary.admitted_waiting r hadm)
    rw [sinceAdmission_unscheduled hsched hnot]
    exact .other (fun _ _ h => nomatch h) fun _ h => nomatch h
  | @launch hit sr hsr hid =>
    subst hid
    have hplace : f.place = .waiting := by cases hstep; rfl
    have hadm : (sentRecord p pass sr).admits = true := by
      refine decide_eq_true fun hrun => ?_
      rw [hv.place, placeOf_running hrun] at hplace
      cases hplace
    rw [sinceAdmission_single (filter_sentBy hsched hnd hsr), if_pos hadm]
    exact .launch hadm (hin _ (hmem sr hsr))
  | @grant sr hsr hid =>
    subst hid
    have hplace : f.place = .running := by cases hstep; rfl
    have hadm : (sentRecord p pass sr).admits = false := by
      refine decide_eq_false (not_not.mpr ?_)
      by_contra hrun
      rw [hv.place, Scheduler.placeOf, if_neg hrun] at hplace
      split at hplace <;> cases hplace
    rw [sinceAdmission_single (filter_sentBy hsched hnd hsr), hadm, if_neg Bool.false_ne_true]
    exact .grant (hin _ (hmem sr hsr))

/-- Only a dispatch sends records. -/
theorem recorded_other (hne : op ≠ .dispatch) (hev : EventOf p r op ev) :
    Recorded (sinceAdmission r log) ev (sinceAdmission r (log ++ sentBy p op)) := by
  have hnil : sentBy p op = [] := by
    cases op <;> first | rfl | exact absurd rfl hne
  rw [hnil, List.append_nil]
  cases hev with
  | pass => exact absurd rfl hne
  | _ => exact .other (fun _ _ h => nomatch h) fun _ h => nomatch h

/-- Every request in every run whose prefills end inside the prompts. -/
theorem supplied_of_reachable (ht : payloadMachine.Reachable t)
    (hin : ∀ e ∈ t.2, e.record.isPrefill = true → e.Inside) : ∀ r ∈ t.1.issued,
    ∃ f, Views t.1 r f ∧ Supplied t.1.sched.config f (sinceAdmission r t.2) := by
  induction ht with
  | start h =>
    intro r hr
    rw [h.1.issued] at hr
    cases hr
  | @next t t' op hreach hstep ih =>
    obtain ⟨p, log⟩ := t
    obtain ⟨p', log'⟩ := t'
    obtain ⟨hstep, hlog⟩ := hstep
    dsimp only at hstep hlog hin ih ⊢
    subst hlog
    have hwf := wellFormed_of_reachable (Machine.track_reachable_fst hreach)
    have hold := ih fun e he => hin e (List.mem_append_left _ he)
    rw [step_config hwf hstep]
    intro r hr
    rcases step_issued hstep hr with hr | ⟨request, rfl, rfl⟩
    · obtain ⟨f, hv, hs⟩ := hold r hr
      obtain ⟨ev, f', hf, hv', hrec⟩ : ∃ ev f', FlightStep p.sched.config f ev f' ∧ Views p' r f' ∧
          Recorded (sinceAdmission r log) ev (sinceAdmission r (log ++ sentBy p op)) := by
        by_cases hop : op = .dispatch
        · subst hop
          obtain ⟨hready, pass, ev, f', hsched, hf, hv', hpass⟩ := dispatched_flight hwf hstep hv
          exact ⟨ev, f', hf, hv', recorded_dispatch hwf hready hsched hv hf hpass fun e he =>
            hin e (List.mem_append_right _ he)⟩
        · obtain ⟨ev, f', hf, hv', hev⟩ := flight_step hwf hstep hr hv
          exact ⟨ev, f', hf, hv', recorded_other hop hev⟩
      exact ⟨f', hv', hs.step hf hrec⟩
    · obtain ⟨stored, -, hv, -, -, -⟩ := flight_start hwf hstep
      exact ⟨_, hv, .of_place fun hplace => nomatch hplace⟩

/-- A first decode is behind payloads. -/
theorem decode_supplied (ht : payloadMachine.Reachable (p, log))
    (hin : ∀ e ∈ log, e.record.isPrefill = true → e.Inside) (hready : p.Ready)
    (hsched : p.sched.schedule = .ok pass) (hsr : sr ∈ pass.output.scheduledRequests)
    (hdec : sr.isPrefill = false)
    (hfirst : ∀ e ∈ sinceAdmission sr.requestId log, e.record.isPrefill = true) :
    ∀ i < sr.numComputedTokens, Supplies (sinceAdmission sr.requestId log) i := by
  have hwf := wellFormed_of_reachable (Machine.track_reachable_fst ht)
  obtain ⟨admitted, rejected, ha⟩ := hwf.afterPass hready hsched
  rcases ha.summary.records sr hsr with ⟨hrun, -, hsized⟩ | ⟨-, c, hc, hsized, -⟩
  · obtain ⟨f, hv, hs⟩ := supplied_of_reachable ht hin sr.requestId
      (hwf.issued _ (hwf.tracked _ (.inl hrun)))
    intro i hi
    have hplace : f.place = .running := by rw [hv.place, placeOf_running hrun]
    refine hs.positions hplace hfirst i (hi.trans_le ?_)
    rw [hsized.computed, hv.same.numComputedTokens]
    exact computed_le_reach _ f
  · -- An admission leaves a prompt token to compute.
    have hpre : ((p.sched.object sr.requestId).resumedAt c).isPrefill = true := decide_eq_true hc
    rw [hsized.isPrefill, hpre] at hdec
    cases hdec

theorem covers_of_inside (ht : payloadMachine.Reachable t)
    (hin : ∀ e ∈ t.2, e.record.isPrefill = true → e.Inside) : PayloadsCover t.2 := by
  refine ⟨fun e he hpre => (hin e he hpre).exact, ?_⟩
  induction ht with
  | start h =>
    intro sent e later hlog
    rw [h.2] at hlog
    exact absurd hlog.symm (List.append_ne_nil_of_right_ne_nil _ (List.cons_ne_nil _ _))
  | @next t t' op hreach hstep ih =>
    obtain ⟨p, log⟩ := t
    obtain ⟨p', log'⟩ := t'
    obtain ⟨hstep, hlog⟩ := hstep
    dsimp only at hstep hlog hin ih ⊢
    subst hlog
    have hold : ∀ e ∈ log, e.record.isPrefill = true → e.Inside := fun e he =>
      hin e (List.mem_append_left _ he)
    intro sent e later hsplit hdec hfirst
    have hnew : ∀ pre, sent = log ++ pre → sentBy p op = pre ++ e :: later →
        ∀ i < e.record.numComputedTokens,
          Supplies (sinceAdmission e.record.requestId sent) i := by
      rintro pre rfl hsent
      have hmem : e ∈ sentBy p op := by
        rw [hsent]
        exact List.mem_append_right _ List.mem_cons_self
      obtain ⟨rfl, pass, hsched, sr, hsr, rfl⟩ := mem_sentBy hmem
      have hready := (dispatch_pass hstep).1
      have hpre : ∀ e' ∈ pre, e'.record.requestId ≠ sr.requestId := by
        have hwf := wellFormed_of_reachable (Machine.track_reachable_fst hreach)
        obtain ⟨admitted, rejected, ha⟩ := hwf.afterPass hready hsched
        have hnd : ((sentBy p .dispatch).map (·.record.requestId)).Nodup := by
          rw [sentBy_dispatch hsched, List.map_map]
          exact ha.summary.records_nodup
        rw [hsent, List.map_append, List.map_cons] at hnd
        intro e' he' hid
        exact (List.nodup_append.mp hnd).2.2 _ (List.mem_map_of_mem he') _ List.mem_cons_self hid
      have hsame : sinceAdmission sr.requestId (log ++ pre) = sinceAdmission sr.requestId log :=
        sinceAdmission_other hpre
      rw [show (sentRecord p pass sr).record.requestId = sr.requestId from rfl, hsame] at hfirst ⊢
      exact decode_supplied hreach hold hready hsched hsr hdec hfirst
    rcases List.append_eq_append_iff.mp hsplit with ⟨pre, hsent, hrest⟩ | ⟨post, hsent, hrest⟩
    · exact hnew pre hsent hrest
    · cases post with
      | nil =>
        refine hnew [] ?_ hrest.symm
        rw [hsent, List.append_nil, List.append_nil]
      | cons e' post =>
        obtain ⟨rfl, hlater⟩ := List.cons.inj hrest
        exact ih hold sent e post hsent hdec hfirst

/-- In every run the payloads are what their records stand for, and cover the positions below
each first decode, exactly when no prefill record ends past the prompt of its request. -/
theorem payloads_cover_iff (ht : payloadMachine.Reachable t) :
    PayloadsCover t.2 ↔ ∀ e ∈ t.2, e.record.isPrefill = true → e.Inside :=
  ⟨fun h e he hpre => (h.exact e he hpre).inside (sent_pos ht e he), covers_of_inside ht⟩

end Runs

/-- The records that a sequence of operations sends. -/
def sentAll (p : Pipeline) : List PipelineOp → List SentRecord
  | [] => []
  | op :: ops => sentBy p op ++ (p.exec op).elim [] fun p' => sentAll p' ops

/-- A computed run with its log. -/
theorem execAll_logged {p p' : Pipeline} {ops : List PipelineOp} {log : List SentRecord}
    (hfresh : ∀ q, PipelineOp.add q ∈ ops → q.Fresh) (ht : payloadMachine.Reachable (p, log))
    (h : p.execAll ops = some p') : payloadMachine.Reachable (p', log ++ sentAll p ops) := by
  induction ops generalizing p log with
  | nil =>
    cases h
    rw [sentAll, List.append_nil]
    exact ht
  | cons op ops ih =>
    rw [Pipeline.execAll, List.foldlM_cons] at h
    obtain ⟨p₁, hone, h⟩ := Option.bind_eq_some_iff.mp h
    have hstep := Pipeline.exec_step (fun q hq => hfresh q (by simp [hq])) hone
    rw [sentAll, hone, Option.elim_some, ← List.append_assoc]
    exact ih (fun q hq => hfresh q (by simp [hq]))
      (ht.next (a := op) (t := (p₁, log ++ sentBy p op)) ⟨hstep, rfl⟩) h

def decodeOps : List PipelineOp :=
  [.add (plainRequest "a" [1, 2, 3] 4 0), .dispatch, .complete (Dict.ofList [("a", [7])]), .dispatch]

/-- A prefill of the prompt, and the decode behind it. -/
theorem payloads_cover_decode : ∃ log : List SentRecord,
    log.map (fun e => (e.record.isPrefill, e.record.numComputedTokens)) =
      [(true, 0), (false, 3)] ∧ PayloadsCover log := by
  have hrun : ((Pipeline.boot KvCacheManager.encodingHash [] 2 2 4 tightConfig).bind fun p₀ =>
      (p₀.execAll decodeOps).map fun _ => decide ((sentAll p₀ decodeOps).map
        (fun e => (e.record.isPrefill, e.record.numComputedTokens)) = [(true, 0), (false, 3)] ∧
        ∀ e ∈ sentAll p₀ decodeOps, e.record.isPrefill = true → e.Inside)) = some true := by
    decide +kernel
  obtain ⟨p₀, hboot, hrun⟩ := Option.bind_eq_some_iff.mp hrun
  obtain ⟨p, hexec, hrun⟩ := Option.map_eq_some_iff.mp hrun
  obtain ⟨hlog, hin⟩ := of_decide_eq_true hrun
  have hfresh : ∀ q, PipelineOp.add q ∈ decodeOps → q.Fresh := by
    intro q hq
    simp only [decodeOps, List.mem_cons, PipelineOp.add.injEq, reduceCtorEq, List.not_mem_nil,
      or_false] at hq
    cases hq
    exact plainRequest_fresh (by decide)
  have ht := execAll_logged hfresh
    (.start (M := payloadMachine) ⟨Pipeline.boot_started (by decide) hboot, rfl⟩) hexec
  exact ⟨_, hlog, (payloads_cover_iff ht).mpr hin⟩

/-- The second request takes the page of the first, which restarts when it finished. -/
def restartOps : List PipelineOp :=
  [.add (plainRequest "a" [1] 4 0), .add (plainRequest "b" [2, 3] 2 1), .dispatch,
    .complete (Dict.ofList [("a", [7]), ("b", [8])]), .dispatch,
    .complete (Dict.ofList [("b", [9])]), .dispatch]

theorem restart_payload : ∃ t, payloadMachine.Reachable t ∧ ∃ e ∈ t.2,
    e.record.isPrefill = true ∧ e.record.numNewTokens = 2 ∧ e.request.allTokenIds = [1, 7] ∧
      e.payload = [1] := by
  have hrun : ((Pipeline.boot KvCacheManager.encodingHash [] 2 2 2 tightConfig).bind fun p₀ =>
      (p₀.execAll restartOps).map fun _ => decide (∃ e ∈ sentAll p₀ restartOps,
        e.record.isPrefill = true ∧ e.record.numNewTokens = 2 ∧ e.request.allTokenIds = [1, 7] ∧
          e.payload = [1])) = some true := by
    decide +kernel
  obtain ⟨p₀, hboot, hrun⟩ := Option.bind_eq_some_iff.mp hrun
  obtain ⟨p, hexec, hrun⟩ := Option.map_eq_some_iff.mp hrun
  have hfresh : ∀ q, PipelineOp.add q ∈ restartOps → q.Fresh := by
    intro q hq
    simp only [restartOps, List.mem_cons, PipelineOp.add.injEq, reduceCtorEq, List.not_mem_nil,
      or_false] at hq
    rcases hq with rfl | rfl
    · exact plainRequest_fresh (by decide)
    · exact plainRequest_fresh (by decide)
  have ht := execAll_logged hfresh
    (.start (M := payloadMachine) ⟨Pipeline.boot_started (by decide) hboot, rfl⟩) hexec
  exact ⟨_, ht, of_decide_eq_true hrun⟩

/-- Not every payload has the tokens of its record. -/
theorem restart_payload_short : ¬ ∀ t, payloadMachine.Reachable t → PayloadsCover t.2 := by
  intro hall
  obtain ⟨t, ht, e, he, hpre, hn, -, hpayload⟩ := restart_payload
  have hlen := ((hall t ht).exact e he hpre).length
  rw [hn, hpayload] at hlen
  cases hlen

end PyptoServing.Engine
