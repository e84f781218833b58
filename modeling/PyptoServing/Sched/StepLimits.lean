import PyptoServing.Sched.PreemptionOrder

/-!
# Limits and totals of a step

The budget of a pass is what its records have not taken. A pass that preempts a request it
already scheduled takes the record out of the list, its tokens out of the totals and gives
them back to the budget.
-/
namespace PyptoServing.Sched

open Lib Lib.Fallible Memory Pass

variable {s : Scheduler} {pass pass' : Pass} {r v : RequestId}

/-- The draft positions of a record. -/
def Scheduler.draftTokens (s : Scheduler) (sr : ScheduledRequest) : Nat :=
  if sr.isPrefill = false ∧ (s.object sr.requestId).temperature ≤ 0 then
    s.config.numSpeculativeTokens
  else 0

/-- The tokens that a record takes from the budget of its step. -/
def Scheduler.stepTokens (s : Scheduler) (sr : ScheduledRequest) : Nat :=
  sr.numNewTokens + s.draftTokens sr

def ScheduledRequest.prefillTokens (sr : ScheduledRequest) : Nat :=
  if sr.isPrefill then sr.numNewTokens else 0

def Scheduler.decodeTokens (s : Scheduler) (sr : ScheduledRequest) : Nat :=
  if sr.isPrefill then 0 else s.stepTokens sr

/-- The totals of an output are the sums over its list. -/
structure Totals (s : Scheduler) (output : SchedulerOutput) : Prop where
  prefill : output.numPrefillTokens = (output.scheduledRequests.map (·.prefillTokens)).sum
  decode : output.numDecodeTokens = (output.scheduledRequests.map s.decodeTokens).sum

/-- What the records took and what is left make up the budget of the step. -/
structure Balanced (s : Scheduler) (pass : Pass) : Prop extends Totals s pass.output where
  budget : (pass.output.scheduledRequests.map s.stepTokens).sum + pass.tokenBudget =
    s.config.maxNumScheduledTokens

/-- The running phase remembers what each record took. -/
def Remembers (s : Scheduler) (pass : Pass) : Prop :=
  ∀ sr ∈ pass.output.scheduledRequests,
    pass.numScheduledTokens.lookup sr.requestId = some (s.stepTokens sr)

/-- Taking one record out of a list takes its value out of the sum. -/
theorem sum_filter_record (f : ScheduledRequest → Nat) {records : List ScheduledRequest}
    (hnodup : (records.map (·.requestId)).Nodup) {sr : ScheduledRequest} (hsr : sr ∈ records) :
    (records.map f).sum = f sr + ((records.filter (·.requestId ≠ sr.requestId)).map f).sum := by
  induction records with
  | nil => simp at hsr
  | cons x records ih =>
    rw [List.map_cons, List.nodup_cons] at hnodup
    rcases List.mem_cons.mp hsr with rfl | hsr
    · have hothers : records.filter (·.requestId ≠ sr.requestId) = records := by
        rw [List.filter_eq_self]
        intro y hy
        simp only [decide_eq_true_eq]
        exact fun hid => hnodup.1 (hid ▸ List.mem_map_of_mem hy)
      rw [List.filter_cons_of_neg (by simp), hothers, List.map_cons, List.sum_cons]
    · have hne : x.requestId ≠ sr.requestId :=
        fun hid => hnodup.1 (hid ▸ List.mem_map_of_mem hsr)
      rw [List.filter_cons_of_pos (by simpa using hne), List.map_cons, List.map_cons,
        List.sum_cons, List.sum_cons, ih hnodup.2 hsr]
      omega

theorem sum_append_record (f : ScheduledRequest → Nat) (records : List ScheduledRequest)
    (sr : ScheduledRequest) : ((records ++ [sr]).map f).sum = (records.map f).sum + f sr := by
  rw [List.map_append, List.sum_append, List.map_singleton, List.sum_singleton]

theorem Remembers.allocated (h : Remembers s pass) (ha : Allocated pass pass') :
    Remembers s pass' := by
  intro sr hsr
  rw [ha.output] at hsr
  rw [ha.numScheduledTokens]
  exact h sr hsr

theorem Balanced.allocated (h : Balanced s pass) (ha : Allocated pass pass') :
    Balanced s pass' where
  prefill := by rw [ha.output]; exact h.prefill
  decode := by rw [ha.output]; exact h.decode
  budget := by rw [ha.output, ha.tokenBudget]; exact h.budget

/-- A share of a running request. -/
theorem Balanced.grant {numNew spec budget : Nat} {isPrefill : Bool} (h : Balanced s pass)
    (hfits : numNew + spec ≤ pass.tokenBudget) (hpre : isPrefill = (s.object r).isPrefill)
    (hspec : spec = s.speculativeTokens (s.object r)) :
    Balanced s (pass.grantRunning r numNew (numNew + spec) isPrefill budget) := by
  set sr := pass.scheduledRequest r numNew isPrefill with hsr
  have hdraft : s.draftTokens sr = spec := by
    rw [hspec]
    unfold Scheduler.draftTokens Scheduler.speculativeTokens
    simp [hsr, Pass.scheduledRequest, hpre]
  have htokens : s.stepTokens sr = numNew + spec := by
    rw [Scheduler.stepTokens, hdraft]
    rfl
  have hrecords : (pass.grantRunning r numNew (numNew + spec) isPrefill
      budget).output.scheduledRequests = pass.output.scheduledRequests ++ [sr] := rfl
  constructor
  · constructor
    · rw [hrecords, sum_append_record, Nat.cast_add, ← h.prefill]
      show _ + _ = _ + _
      congr 1
      unfold ScheduledRequest.prefillTokens
      show _ = ((if isPrefill then numNew else 0 : Nat) : Int)
      split <;> rfl
    · rw [hrecords, sum_append_record, Nat.cast_add, ← h.decode]
      show _ + _ = _ + _
      congr 1
      unfold Scheduler.decodeTokens
      rw [htokens]
      show _ = ((if isPrefill then 0 else numNew + spec : Nat) : Int)
      split <;> simp
  · have hbudget := h.budget
    rw [hrecords, sum_append_record, htokens]
    show _ + (pass.tokenBudget - (numNew + spec)) = _
    omega

theorem Remembers.grant {numNew spec budget : Nat} {isPrefill : Bool} (h : Remembers s pass)
    (hnew : r ∉ pass.output.scheduledRequests.map (·.requestId))
    (hpre : isPrefill = (s.object r).isPrefill) (hspec : spec = s.speculativeTokens (s.object r)) :
    Remembers s (pass.grantRunning r numNew (numNew + spec) isPrefill budget) := by
  intro sr hsr
  rcases List.mem_append.mp hsr with hsr | hsr
  · have hne : sr.requestId ≠ r := fun hid => hnew (hid ▸ List.mem_map_of_mem hsr)
    exact (AList.lookup_insert_ne hne).trans (h sr hsr)
  · rw [List.mem_singleton.mp hsr]
    refine (AList.lookup_insert _).trans (congrArg some ?_)
    rw [hspec]
    unfold Scheduler.stepTokens Scheduler.draftTokens Scheduler.speculativeTokens
    simp [Pass.scheduledRequest, hpre]

/-- What a preemption leaves of the budget and the totals. -/
theorem preempt_returns (h : pass.preemptLowestPriority r = .ok (some pass')) :
    ∃ v, Preempts pass r v pass' ∧ pass'.tokenBudget = (pass.unschedule v).tokenBudget ∧
      pass'.numScheduledTokens = (pass.unschedule v).numScheduledTokens ∧
      pass'.output.numPrefillTokens = (pass.unschedule v).output.numPrefillTokens ∧
      pass'.output.numDecodeTokens = (pass.unschedule v).output.numDecodeTokens := by
  obtain ⟨v, hp⟩ := preemptLowestPriority_spec h
  refine ⟨v, hp, ?_⟩
  unfold preemptLowestPriority at h
  rw [hp.victim] at h
  obtain ⟨s₁, -, h⟩ := bind_eq_ok.mp h
  cases h
  exact ⟨rfl, rfl, rfl, rfl⟩

section Unschedule
variable {done rest : List RequestId} {sr : ScheduledRequest}

/-- A victim without a record changes nothing. -/
theorem unschedule_absent (hv : v ∉ pass.scheduledReqIds) : pass.unschedule v = pass := if_pos hv

/-- A victim's record is out of the budget and the totals. -/
theorem unschedule_record (h : RunningPhase s done rest pass) (hb : Balanced s pass)
    (hr : Remembers s pass) (hsr : sr ∈ pass.output.scheduledRequests) :
    Balanced s (pass.unschedule sr.requestId) ∧ Remembers s (pass.unschedule sr.requestId) := by
  have hid : sr.requestId ∈ pass.scheduledReqIds := (h.ids _).mpr (List.mem_map_of_mem hsr)
  obtain ⟨-, hout, hsized⟩ := h.records sr hsr
  have hpre : (pass.sched.object sr.requestId).isPrefill = sr.isPrefill := by
    rw [(h.other _ hout).isPrefill, hsized.isPrefill]
  have htokens : (pass.numScheduledTokens.lookup sr.requestId).getD 0 = s.stepTokens sr := by
    rw [hr sr hsr]
    rfl
  have hdraft : sr.isPrefill = true → s.stepTokens sr = sr.numNewTokens := by
    intro hp
    unfold Scheduler.stepTokens Scheduler.draftTokens
    simp [hp]
  have hsum := fun f => sum_filter_record f h.records_nodup hsr
  have heq : pass.unschedule sr.requestId = { pass with
      scheduledReqIds := pass.scheduledReqIds.filter (· ≠ sr.requestId)
      numScheduledTokens := pass.numScheduledTokens.erase sr.requestId
      output := { pass.output with
        scheduledRequests := pass.output.scheduledRequests.filter (·.requestId ≠ sr.requestId)
        numPrefillTokens := pass.output.numPrefillTokens -
          if sr.isPrefill then (s.stepTokens sr : Int) else 0
        numDecodeTokens := pass.output.numDecodeTokens -
          if sr.isPrefill then 0 else (s.stepTokens sr : Int) }
      tokenBudget := pass.tokenBudget + s.stepTokens sr } := by
    unfold Pass.unschedule
    rw [if_neg (not_not.mpr hid), htokens, hpre]
  rw [heq]
  refine ⟨⟨⟨?_, ?_⟩, ?_⟩, ?_⟩
  · show pass.output.numPrefillTokens - _ = _
    rw [hb.prefill, hsum, Nat.cast_add]
    unfold ScheduledRequest.prefillTokens
    cases hp : sr.isPrefill with
    | true =>
      rw [hdraft hp]
      simp
    | false => simp
  · show pass.output.numDecodeTokens - _ = _
    rw [hb.decode, hsum, Nat.cast_add]
    unfold Scheduler.decodeTokens
    cases hp : sr.isPrefill with
    | true => simp
    | false => simp
  · have hbudget := hb.budget
    rw [hsum] at hbudget
    show ((pass.output.scheduledRequests.filter (·.requestId ≠ sr.requestId)).map s.stepTokens).sum +
      (pass.tokenBudget + s.stepTokens sr) = _
    omega
  · intro x hx
    obtain ⟨hx, hne⟩ := List.mem_filter.mp hx
    exact (AList.lookup_erase_ne (by simpa using hne)).trans (hr x hx)

/-- A preemption gives back what the victim's record took. -/
theorem Balanced.preempts (h : RunningPhase s done rest pass) (hb : Balanced s pass)
    (hr : Remembers s pass) (hp : pass.preemptLowestPriority r = .ok (some pass')) :
    Balanced s pass' ∧ Remembers s pass' := by
  obtain ⟨v, hp, hbudget, hshares, hprefill, hdecode⟩ := preempt_returns hp
  have hkeep : Balanced s (pass.unschedule v) ∧ Remembers s (pass.unschedule v) := by
    by_cases hv : v ∈ pass.scheduledReqIds
    · obtain ⟨sr, hsr, rfl⟩ := List.mem_map.mp ((h.ids v).mp hv)
      exact unschedule_record h hb hr hsr
    · rw [unschedule_absent hv]
      exact ⟨hb, hr⟩
  have hrecords : pass'.output.scheduledRequests =
      (pass.unschedule v).output.scheduledRequests := by
    rw [hp.scheduled, (unschedule_spec pass v).scheduled]
  refine ⟨⟨⟨?_, ?_⟩, ?_⟩, fun sr hsr => ?_⟩
  · rw [hprefill, hrecords]
    exact hkeep.1.prefill
  · rw [hdecode, hrecords]
    exact hkeep.1.decode
  · rw [hbudget, hrecords]
    exact hkeep.1.budget
  · rw [hrecords] at hsr
    rw [hshares]
    exact hkeep.2 sr hsr

variable {phase : Option Phase}

/-- One turn of the running phase. -/
theorem Balanced.runningTurn (hq : Queues s) (h : RunningPhase s done (r :: rest) pass)
    (hb : Balanced s pass) (hr : Remembers s pass) (ht : RunningTurn phase pass r pass') :
    Balanced s pass' ∧ Remembers s pass' := by
  have hnew : ∀ {p : Pass} {l : List RequestId}, RunningPhase s done (r :: l) p →
      r ∉ p.output.scheduledRequests.map (·.requestId) := by
    intro p l hphase hmem
    obtain ⟨sr, hsr, hid⟩ := List.mem_map.mp hmem
    have hdone := (hphase.records sr hsr).1
    have hnd := hq.running_nodup
    rw [← hphase.split, List.nodup_append] at hnd
    exact hnd.2.2 _ hdone r (by simp) hid
  have hspec : ∀ {numNew spec : Nat}, RunningShare phase pass r numNew spec pass.tokenBudget →
      (pass.sched.object r).isPrefill = (s.object r).isPrefill ∧
        spec = s.speculativeTokens (s.object r) := by
    intro numNew spec hs
    obtain ⟨-, -, hsame, -⟩ := h.share hs
    exact ⟨hsame.isPrefill, hs.spec_eq.trans (speculativeTokens_congr h.config hsame)⟩
  cases ht with
  | skip => exact ⟨hb, hr⟩
  | keep => exact ⟨⟨hb.toTotals, hb.budget⟩, hr⟩
  | @grant numNew spec p₁ hs ha =>
    obtain ⟨hpre, hspec⟩ := hspec hs
    have hall := allocate_allocated ha
    obtain ⟨hrun, -, -, -, hgrow⟩ := h.share hs
    exact ⟨(hb.allocated hall).grant (by rw [hall.tokenBudget]; exact hs.fits) hpre hspec,
      (hr.allocated hall).grant (hnew (h.allocated ha hrun hgrow)) hpre hspec⟩
  | short _ ha _ =>
    have hall := allocate_allocated ha
    have hb₁ := hb.allocated hall
    have hr₁ := hr.allocated hall
    exact ⟨⟨hb₁.toTotals, hb₁.budget⟩, hr₁⟩
  | @preempt numNew spec p₁ p₂ p₃ b hs ha hp ha' =>
    obtain ⟨hpre, hspec⟩ := hspec hs
    have hall := allocate_allocated ha
    obtain ⟨hrun, hout, hsame, -, hgrow⟩ := h.share hs
    have h₁ := h.allocated ha hrun hgrow
    obtain ⟨hb₂, hr₂⟩ := Balanced.preempts h₁ (hb.allocated hall) (hr.allocated hall) hp
    obtain ⟨v, hpv⟩ := preemptLowestPriority_spec hp
    have hr₁ : r ∈ p₁.sched.running := by
      rw [h₁.running, List.mem_filter, hall.output]
      simpa using ⟨hrun, hout⟩
    have h₂ := h₁.preempts hr₁ hpv
    have hall' := allocate_allocated ha'
    have hb₃ := hb₂.allocated hall'
    have hr₃ := hr₂.allocated hall'
    cases b with
    | false => exact ⟨⟨hb₃.toTotals, hb₃.budget⟩, hr₃⟩
    | true =>
      have hroom : numNew + spec ≤ p₃.tokenBudget := by
        rw [hall'.tokenBudget]
        exact hs.fits.trans ((le_of_eq hall.tokenBudget.symm).trans hpv.tokenBudget)
      have hnew₃ : r ∉ p₃.output.scheduledRequests.map (·.requestId) := by
        rw [hall'.output]
        exact hnew h₂
      exact ⟨hb₃.grant hroom hpre hspec, hr₃.grant hnew₃ hpre hspec⟩

end Unschedule

theorem limitScheduledTokens_le_budget (s : Scheduler) (q : Request) (budget : Nat) :
    s.limitScheduledTokens q budget ≤ budget := by
  unfold Scheduler.limitScheduledTokens
  dsimp only
  split
  · split
    · exact Nat.zero_le _
    · refine (min_le_right _ _).trans ?_
      unfold Scheduler.prefillLimit
      split
      · exact min_le_left _ _
      · exact le_rfl
  · exact min_le_right _ _

/-- A share of a waiting request. -/
theorem Balanced.launch {n : Nat} (h : Balanced s pass) (hfits : n ≤ pass.tokenBudget) :
    Balanced s (pass.launch r n) := by
  obtain ⟨sr, hsr, hpre, hnew⟩ : ∃ sr : ScheduledRequest,
      (pass.launch r n).output.scheduledRequests = pass.output.scheduledRequests ++ [sr] ∧
        sr.isPrefill = true ∧ sr.numNewTokens = n :=
    ⟨_, launch_scheduledRequests pass r n, rfl, rfl⟩
  have htokens : s.stepTokens sr = n := by
    unfold Scheduler.stepTokens Scheduler.draftTokens
    simp [hpre, hnew]
  constructor
  · constructor
    · rw [hsr, sum_append_record, Nat.cast_add, ← h.prefill]
      unfold ScheduledRequest.prefillTokens
      rw [hpre, hnew]
      rfl
    · rw [hsr, sum_append_record, Nat.cast_add, ← h.decode]
      unfold Scheduler.decodeTokens
      rw [hpre]
      exact (Int.add_zero _).symm
  · have hbudget := h.budget
    rw [hsr, sum_append_record, htokens]
    show _ + (pass.tokenBudget - n) = _
    omega

theorem Balanced.congr (h : Balanced s pass)
    (hrecords : pass'.output.scheduledRequests = pass.output.scheduledRequests)
    (hprefill : pass'.output.numPrefillTokens = pass.output.numPrefillTokens)
    (hdecode : pass'.output.numDecodeTokens = pass.output.numDecodeTokens)
    (hbudget : pass'.tokenBudget = pass.tokenBudget) : Balanced s pass' where
  prefill := by rw [hprefill, hrecords]; exact h.prefill
  decode := by rw [hdecode, hrecords]; exact h.decode
  budget := by rw [hbudget, hrecords]; exact h.budget

/-- One turn of the waiting phase. -/
theorem Balanced.waitingResult {outcome : WaitingOutcome} (h : Balanced s pass)
    (ht : WaitingResult s pass r outcome pass') : Balanced s pass' := by
  have hstep : ∀ {c : Nat} {p : Pass}, WaitingStep s pass r c p → Balanced s p :=
    fun hs => h.congr (by rw [hs.output]) (by rw [hs.output]) (by rw [hs.output]) hs.tokenBudget
  cases ht with
  | admitted ha =>
    refine (hstep ha.step).launch ?_
    rw [ha.step.tokenBudget, ha.share]
    exact limitScheduledTokens_le_budget _ _ _
  | rejected _ _ hs => exact (hstep hs).congr rfl rfl rfl rfl
  | kept _ hs => exact hstep hs

theorem Balanced.start (s : Scheduler) : Balanced s s.startPass ∧ Remembers s s.startPass :=
  ⟨⟨⟨rfl, rfl⟩, Nat.zero_add _⟩, fun _ hsr => absurd hsr List.not_mem_nil⟩

/-- A pass takes no more than its budget, and runs no more requests than allowed. -/
theorem balanced_schedule (hq : Queues s) (h : s.schedule = .ok pass)
    (hroom : s.running.length ≤ s.config.maxNumRunningReqs) :
    Balanced s pass ∧ pass.sched.running.length ≤ s.config.maxNumRunningReqs := by
  obtain ⟨p₁, hrun, hend⟩ := Scheduler.schedule_phases h
  obtain ⟨hphase, hb, -⟩ := runningPhase_rule (P := fun pass => Balanced s pass ∧ Remembers s pass)
    hq (Balanced.start s)
    (fun done r rest pass pass' hI ⟨hb, hr⟩ ht => hb.runningTurn hq hI hr ht) hrun
  have hclosed : Balanced s p₁.closeRunning := hb.congr rfl rfl rfl rfl
  have hlength : p₁.closeRunning.sched.running.length ≤ s.config.maxNumRunningReqs := by
    rw [hphase.closed hq]
    exact (List.length_filter_le _ _).trans hroom
  rcases hend with ⟨-, rfl⟩ | hloop
  · exact ⟨hclosed, hlength⟩
  · refine waitingPhase_rule
      (P := fun pass => Balanced s pass ∧
        pass.sched.running.length ≤ s.config.maxNumRunningReqs)
      hq ?_ ?_ hloop (hphase.waitingPhase hq) ⟨hclosed, hlength⟩
    · intro admitted rejected remaining r queue pass outcome pass' hI hnew hslot ⟨hbal, hle⟩ ht
      obtain ⟨hw, -, -⟩ := hI.waits hq hnew
      have hresult := hw.result ht
      refine ⟨hbal.waitingResult hresult, ?_⟩
      rw [hI.config] at hslot
      cases hresult with
      | admitted ha =>
        rw [launch_running, ha.step.core.running]
        show (pass.sched.running ++ [r]).length ≤ _
        rw [List.length_append, List.length_singleton]
        exact hslot
      | rejected _ _ hs =>
        rw [reject_running, hs.core.running]
        exact hle
      | kept _ hs =>
        rw [hs.core.running]
        exact hle
    · exact fun pass waiting ⟨hbal, hle⟩ => ⟨hbal.congr rfl rfl rfl rfl, hle⟩

/-- A prefill share is within the chunk limit. -/
theorem limitScheduledTokens_le_chunk {q : Request} {budget limit : Nat}
    (hpre : q.isPrefill = true) (hlimit : s.prefillChunkLimit = some limit) :
    s.limitScheduledTokens q budget ≤ limit := by
  unfold Scheduler.limitScheduledTokens Scheduler.prefillLimit
  rw [if_pos hpre, hlimit]
  dsimp only
  split
  · exact Nat.zero_le _
  · exact (min_le_right _ _).trans (min_le_right _ _)

/-- The limits of one step. -/
structure StepLimits (s : Scheduler) (pass : Pass) : Prop where
  budget : (pass.output.scheduledRequests.map s.stepTokens).sum ≤ s.config.maxNumScheduledTokens
  running : pass.sched.running.length ≤ s.config.maxNumRunningReqs
  once : (pass.output.scheduledRequests.map (·.requestId)).Nodup
  pos : ∀ sr ∈ pass.output.scheduledRequests, 1 ≤ sr.numNewTokens
  chunk : ∀ sr ∈ pass.output.scheduledRequests, sr.isPrefill = true →
    ∀ limit, s.prefillChunkLimit = some limit → sr.numNewTokens ≤ limit
  totals : Totals s pass.output
  preempted : ∀ sr ∈ pass.output.scheduledRequests,
    sr.requestId ∉ pass.output.preemptedRequests

theorem stepLimits_schedule (hq : Queues s) (h : s.schedule = .ok pass)
    (hroom : s.running.length ≤ s.config.maxNumRunningReqs) : StepLimits s pass := by
  obtain ⟨hb, hlength⟩ := balanced_schedule hq h hroom
  obtain ⟨admitted, rejected, hs, -⟩ := Scheduler.schedule_summary hq h
  have hsized : ∀ sr ∈ pass.output.scheduledRequests, ∃ q, Sized s pass.events q sr := by
    intro sr hsr
    rcases hs.records sr hsr with ⟨-, -, hz⟩ | ⟨-, c, -, hz, -⟩
    · exact ⟨_, hz⟩
    · exact ⟨_, hz⟩
  refine ⟨?_, hlength, hs.records_nodup, ?_, ?_, hb.toTotals, ?_⟩
  · have hbudget := hb.budget
    omega
  · intro sr hsr
    obtain ⟨q, hz⟩ := hsized sr hsr
    exact hz.pos
  · intro sr hsr hpre limit hlimit
    obtain ⟨q, hz⟩ := hsized sr hsr
    obtain ⟨budget, -, hshare⟩ := hz.limited
    rw [hshare]
    exact limitScheduledTokens_le_chunk (hz.isPrefill.symm.trans hpre) hlimit
  · intro sr hsr hv
    rcases hs.records sr hsr with ⟨-, hout, -⟩ | ⟨hadm, -⟩
    · exact hout hv
    · exact hq.disjoint _ (hs.victims_running _ hv) (hs.admitted_waiting _ hadm)

namespace Pipeline

open Scheduler

/-- No step runs more requests than allowed. -/
theorem room_of_reachable {p : Pipeline} (h : pipelineMachine.Reachable p) :
    p.sched.running.length ≤ p.sched.config.maxNumRunningReqs := by
  refine h.invariant (I := fun p : Pipeline =>
    p.sched.running.length ≤ p.sched.config.maxNumRunningReqs) ?_ ?_
  · rintro p ⟨⟨H, groups, batch, page, n, kv, config, object, -, -, hnew⟩, -⟩
    unfold Scheduler.new at hnew
    split at hnew
    · cases hnew
    · rw [← Except.ok.inj hnew]
      exact Nat.zero_le _
  · intro p op p' hr hI hstep
    have hw := wellFormed_of_reachable hr
    cases hstep with
    | add hfresh hid hadd =>
      obtain ⟨stored, -, rfl⟩ := addRequest_spec hadd
      exact hI
    | dispatch hready hsched hne hadv =>
      obtain ⟨admitted, rejected, ha⟩ := hw.afterPass hready hsched
      have hadv := ha.advances hw.queues hadv
      rw [hadv.running, hadv.config, ha.summary.config]
      exact (balanced_schedule hw.queues hsched hI).2
    | idle hready hsched hempty =>
      obtain ⟨admitted, rejected, ha⟩ := hw.afterPass hready hsched
      have hle := (balanced_schedule hw.queues hsched hI).2
      rwa [← ha.summary.config] at hle
    | complete hfl hupd =>
      obtain ⟨mid, hu, -⟩ := updateFromOutput_spec (hw.nodup _ (by rw [hfl]; simp))
        hw.queues.running_nodup hw.queues.running_status hupd
      rw [hu.running, hu.config]
      exact (List.length_filter_le _ _).trans hI
    | finish hr hfin =>
      rcases finishRequest_spec hfin with ⟨-, rfl⟩ | ⟨-, he, -⟩
      · exact hI
      · rw [he.running, he.config]
        exact (List.length_filter_le _ _).trans hI
    | abort habort =>
      rcases abortRequest_spec habort with ⟨-, rfl⟩ | ⟨-, he, -⟩
      · exact hI
      · rw [he.running, he.config]
        exact (List.length_filter_le _ _).trans hI
    | discard hne hdrop =>
      have hd := dropBatches_spec hw.tracked hdrop
      rw [hd.running, hd.config]
      exact (List.length_filter_le _ _).trans hI

end Pipeline

/-- Every pass from a reachable state keeps the limits of a step. -/
theorem step_limits {p : Pipeline} (hp : pipelineMachine.Reachable p) {pass : Pass}
    (h : p.sched.schedule = .ok pass) : StepLimits p.sched pass :=
  stepLimits_schedule (wellFormed_of_reachable hp).queues h (Pipeline.room_of_reachable hp)

/-- A pass that preempts a request it had already scheduled. -/
theorem step_limits_crowded : ∃ p pass, pipelineMachine.Reachable p ∧
    p.sched.schedule = .ok pass ∧ StepLimits p.sched pass := by
  obtain ⟨p, pass, v, r, before, hp, hpass, -⟩ := crowdedRun_pass
  exact ⟨p, pass, hp, hpass, step_limits hp hpass⟩

end PyptoServing.Sched
