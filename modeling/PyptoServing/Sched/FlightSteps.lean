import PyptoServing.Sched.WellFormed

/-!
# Every pipeline step moves a request by one flight step

`Views p r f` says that `f` is what the pipeline state `p` shows of the request `r`. Each
step of the pipeline changes the view of each request by one `FlightStep`, so a property of
one request that flight steps keep holds in every reachable state.
-/
namespace PyptoServing.Sched

open Lib Lib.Fallible Memory Scheduler Pipeline

/-- The queue that holds a request. -/
def Scheduler.placeOf (s : Scheduler) (r : RequestId) : Place :=
  if r ∈ s.running then .running else if r ∈ s.waiting then .waiting else .done

/-- A request's share of one step. -/
def SchedulerOutput.sharesOf (output : SchedulerOutput) (r : RequestId) : List StepShare :=
  (output.scheduledRequests.filter (·.requestId = r)).map (·.share)

structure Views (p : Pipeline) (r : RequestId) (f : Flight) : Prop where
  same : SameRequest f.request (p.sched.object r)
  place : f.place = p.sched.placeOf r
  shares : f.shares = p.inFlight.flatMap (·.sharesOf r)

section Shares
variable {output : SchedulerOutput} {sr : ScheduledRequest} {r : RequestId}

theorem sharesOf_eq_nil (h : r ∉ recordIds output) : output.sharesOf r = [] := by
  rw [SchedulerOutput.sharesOf, List.map_eq_nil_iff, List.filter_eq_nil_iff]
  intro sr hsr hid
  exact h (List.mem_map.mpr ⟨sr, hsr, of_decide_eq_true hid⟩)

theorem sharesOf_eq_single (hnd : (recordIds output).Nodup) (hsr : sr ∈ output.scheduledRequests) :
    output.sharesOf sr.requestId = [sr.share] := by
  have hfilter : output.scheduledRequests.filter (·.requestId = sr.requestId) = [sr] := by
    unfold recordIds at hnd
    generalize output.scheduledRequests = l at hnd hsr
    induction l with
    | nil => cases hsr
    | cons a l ih =>
      rw [List.map_cons, List.nodup_cons] at hnd
      rcases List.mem_cons.mp hsr with rfl | hsr
      · have hrest : l.filter (·.requestId = sr.requestId) = [] := by
          rw [List.filter_eq_nil_iff]
          intro b hb hid
          exact hnd.1 (List.mem_map.mpr ⟨b, hb, of_decide_eq_true hid⟩)
        rw [List.filter_cons, if_pos (by simp), hrest]
      · have hne : a.requestId ≠ sr.requestId := fun he =>
          hnd.1 (he ▸ List.mem_map_of_mem hsr)
        rw [List.filter_cons, if_neg (by simpa using hne), ih hnd.2 hsr]
  rw [SchedulerOutput.sharesOf, hfilter]
  rfl

theorem sharesOf_length_le (hnd : (recordIds output).Nodup) (r : RequestId) :
    (output.sharesOf r).length ≤ 1 := by
  by_cases hr : r ∈ recordIds output
  · obtain ⟨sr, hsr, rfl⟩ := List.mem_map.mp hr
    rw [sharesOf_eq_single hnd hsr]
    simp
  · rw [sharesOf_eq_nil hr]
    simp

theorem shares_eq_nil {l : List SchedulerOutput} (h : ∀ out ∈ l, r ∉ recordIds out) :
    l.flatMap (·.sharesOf r) = [] := by
  rw [List.flatMap_eq_nil_iff]
  exact fun out hout => sharesOf_eq_nil (h out hout)

theorem shares_length_le {l : List SchedulerOutput} (h : ∀ out ∈ l, (recordIds out).Nodup)
    (r : RequestId) : (l.flatMap (·.sharesOf r)).length ≤ l.length := by
  induction l with
  | nil => simp
  | cons out l ih =>
    rw [List.flatMap_cons, List.length_append, List.length_cons]
    have h1 := sharesOf_length_le (h out (by simp)) r
    have h2 := ih fun out hout => h out (by simp [hout])
    omega

/-- The advance keeps ids and sizes, so the step sent has the same shares. -/
theorem sharesOf_congr {output' : SchedulerOutput} (hids : recordIds output' = recordIds output)
    (hshares : output'.scheduledRequests.map (·.share) = output.scheduledRequests.map (·.share)) :
    output'.sharesOf r = output.sharesOf r := by
  unfold SchedulerOutput.sharesOf
  unfold recordIds at hids
  generalize output'.scheduledRequests = l' at hids hshares
  generalize output.scheduledRequests = l at hids hshares
  induction l generalizing l' with
  | nil =>
    cases l' with
    | nil => rfl
    | cons a l' => cases hids
  | cons b l ih =>
    cases l' with
    | nil => cases hids
    | cons a l' =>
      simp only [List.map_cons, List.cons.injEq] at hids hshares
      rw [List.filter_cons, List.filter_cons, hids.1]
      split
      · rw [List.map_cons, List.map_cons, hshares.1, ih l' hids.2 hshares.2]
      · exact ih l' hids.2 hshares.2

end Shares

section Place
variable {s : Scheduler} {r : RequestId}

theorem placeOf_running (h : r ∈ s.running) : s.placeOf r = .running := if_pos h

theorem placeOf_waiting (hn : r ∉ s.running) (h : r ∈ s.waiting) : s.placeOf r = .waiting := by
  rw [placeOf, if_neg hn, if_pos h]

theorem placeOf_done (hn : r ∉ s.running) (h : r ∉ s.waiting) : s.placeOf r = .done := by
  rw [placeOf, if_neg hn, if_neg h]

theorem placeOf_congr {s' : Scheduler} (hr : r ∈ s'.running ↔ r ∈ s.running)
    (hw : r ∈ s'.waiting ↔ r ∈ s.waiting) : s'.placeOf r = s.placeOf r := by
  simp only [placeOf, hr, hw]

end Place

variable {p p' : Pipeline} {r : RequestId} {f : Flight}

theorem sized_fits {s : Scheduler} {events : List PassEvent} {q : Request} {sr : ScheduledRequest}
    (h : Sized s events q sr) : sr.share.Fits q := by
  obtain ⟨budget, -, hlim⟩ := h.limited
  exact ⟨h.computed, h.isPrefill, h.pos, by
    rw [show sr.share.numNewTokens = _ from hlim]
    exact limitScheduledTokens_le _ _ _⟩

theorem StepShare.Fits.congr {share : StepShare} {q q' : Request} (h : share.Fits q)
    (hs : SameRequest q q') : share.Fits q' :=
  ⟨h.computed.trans hs.numComputedTokens.symm, h.isPrefill.trans hs.isPrefill.symm, h.pos, by
    rw [hs.numNewTokensNeeded]
    exact h.le_needed⟩

theorem Request.Idle.congr {q q' : Request} (h : q.Idle) (hs : SameRequest q q') : q'.Idle :=
  ⟨hs.numComputedTokens.trans h.numComputedTokens,
    hs.numOutputPlaceholders.trans h.numOutputPlaceholders,
    hs.terminalPrefillInFlight.trans h.terminalPrefillInFlight⟩

/-- The event of a pass for one request. -/
inductive PassFor (pass : Pass) (r : RequestId) : FlightEvent → Prop
  | keep : r ∉ recordIds pass.output → PassFor pass r .keep
  | launch {hit : Nat} {sr : ScheduledRequest} : sr ∈ pass.output.scheduledRequests →
      sr.requestId = r → PassFor pass r (.launch hit sr.share)
  | grant {sr : ScheduledRequest} : sr ∈ pass.output.scheduledRequests →
      sr.requestId = r → PassFor pass r (.grant sr.share)
  | preempt : r ∈ pass.output.preemptedRequests → PassFor pass r .preempt
  | reject : r ∉ recordIds pass.output → PassFor pass r .reject

/-- The flight of a request moves on with the pass and the advance. -/
def Passed (config : SchedulerConfig) (pass : Pass) (s : Scheduler) (r : RequestId)
    (f : Flight) : Prop :=
  ∃ ev f', FlightStep config f ev f' ∧ SameRequest f'.request (s.object r) ∧
    f'.place = s.placeOf r ∧ f'.shares = f.shares ++ pass.output.sharesOf r ∧ PassFor pass r ev

section Passes
variable {admitted rejected : List RequestId} {pass : Pass} {s : Scheduler}
  {records : List ScheduledRequest}

/-- No share of a waiting request is left in the pipeline when a pass starts. -/
theorem shares_eq_nil_of_waiting (ha : AfterPass p admitted rejected pass) (hv : Views p r f)
    (hw : r ∈ p.sched.waiting) : f.shares = [] := by
  rw [hv.shares]
  exact shares_eq_nil fun out hout hmem => ha.settled out hout r hmem hw

theorem preempted_flight (hwf : p.WellFormed) (ha : AfterPass p admitted rejected pass)
    (hadv : Advances pass.sched pass.output.scheduledRequests s records) (hv : Views p r f)
    (hvic : r ∈ pass.output.preemptedRequests) : Passed p.sched.config pass s r f := by
  obtain ⟨q, place, shares⟩ := f
  obtain ⟨hsame, hplace, hshares⟩ := hv
  dsimp only at hsame hplace
  have hsum := ha.summary
  have hrun := hsum.victims_running r hvic
  have hnr : r ∉ s.running := by
    rw [hadv.running]
    intro h
    rcases hsum.mem_running.mp h with ⟨-, hout⟩ | hadm
    · exact hout hvic
    · exact hwf.queues.disjoint r hrun (hsum.admitted_waiting r hadm)
  have hnorec : r ∉ recordIds pass.output := fun h => hnr (hadv.running ▸ ha.scheduled r h)
  rw [placeOf_running hrun] at hplace
  subst hplace
  refine ⟨_, _, .preempt, ?_, ?_, ?_, .preempt hvic⟩
  · exact ((hsame.map (f := resetVictim) fun _ => rfl).trans (hsum.victim r hvic)).trans
      (hadv.other r hnorec)
  · rw [placeOf_waiting hnr]
    rw [hadv.waiting]
    exact (ha.mem_waiting r).mpr (.inl hvic)
  · rw [sharesOf_eq_nil hnorec, List.append_nil]

theorem admitted_flight (hwf : p.WellFormed) (ha : AfterPass p admitted rejected pass)
    (hadv : Advances pass.sched pass.output.scheduledRequests s records) (hv : Views p r f)
    (hadm : r ∈ admitted) : Passed p.sched.config pass s r f := by
  have hsum := ha.summary
  have hcfg := hsum.config
  have hw := hsum.admitted_waiting r hadm
  have hnrun : r ∉ p.sched.running := fun h => hwf.queues.disjoint r h hw
  have hnil := shares_eq_nil_of_waiting ha hv hw
  obtain ⟨q, place, shares⟩ := f
  obtain ⟨hsame, hplace, -⟩ := hv
  dsimp only at hsame hplace hnil
  rw [placeOf_waiting hnrun hw] at hplace
  subst hplace
  subst hnil
  obtain ⟨sr, hsr, rfl⟩ := List.mem_map.mp (hsum.admitted_records r hadm)
  rcases hsum.records sr hsr with ⟨hrun, -⟩ | ⟨-, c, hc, hsized, hobj⟩
  · exact absurd hrun hnrun
  · have hq := (hwf.queues.idle _ hw).congr hsame.symm
    have hlaunch : SameRequest ((p.sched.object sr.requestId).admittedWith c)
        (q.admittedWith c) := hsame.symm.map (f := (·.admittedWith c)) fun _ => rfl
    refine ⟨_, _, @FlightStep.launch _ _ c sr.share hq ?_ ?_, ?_, ?_, ?_, .launch hsr rfl⟩
    · rw [← hsame.numPromptTokens]
      exact hc
    · have hfits := (sized_fits hsized).congr
        (hsame.symm.map (f := (·.resumedAt c)) fun _ => rfl)
      exact ⟨hfits.computed, hfits.isPrefill, hfits.pos, hfits.le_needed⟩
    · have := hadv.advanced sr hsr
      rw [hcfg] at this
      exact (hlaunch.symm.trans hobj).advanced.trans this
    · rw [placeOf_running]
      rw [hadv.running]
      exact ha.scheduled _ (List.mem_map_of_mem hsr)
    · rw [sharesOf_eq_single hsum.records_nodup hsr]
      rfl

theorem rejected_flight (hwf : p.WellFormed) (ha : AfterPass p admitted rejected pass)
    (hadv : Advances pass.sched pass.output.scheduledRequests s records) (hv : Views p r f)
    (hvic : r ∉ pass.output.preemptedRequests) (hadm : r ∉ admitted) (hrej : r ∈ rejected) :
    Passed p.sched.config pass s r f := by
  have hsum := ha.summary
  have hw := hsum.rejected_waiting r hrej
  have hnrun : r ∉ p.sched.running := fun h => hwf.queues.disjoint r h hw
  have hnil := shares_eq_nil_of_waiting ha hv hw
  have hnr : r ∉ s.running := by
    rw [hadv.running, hsum.mem_running]
    tauto
  have hnw : r ∉ s.waiting := by
    rw [hadv.waiting, ha.mem_waiting]
    tauto
  have hnorec : r ∉ recordIds pass.output := fun h => hnr (hadv.running ▸ ha.scheduled r h)
  obtain ⟨q, place, shares⟩ := f
  obtain ⟨hsame, hplace, -⟩ := hv
  dsimp only at hsame hplace hnil
  rw [placeOf_waiting hnrun hw] at hplace
  subst hplace
  subst hnil
  refine ⟨_, _, .reject, ?_, ?_, ?_, .reject hnorec⟩
  · have hobj := (hsum.rejection r hrej).1
    exact ((hsame.map (f := Request.rejected) fun _ => rfl).trans hobj).trans
      (hadv.other r hnorec)
  · rw [placeOf_done hnr hnw]
  · rw [sharesOf_eq_nil hnorec]
    rfl

/-- The remaining requests stay where they are; a running one may be granted a share. -/
theorem stayed_flight (hwf : p.WellFormed) (hready : p.Ready)
    (ha : AfterPass p admitted rejected pass)
    (hadv : Advances pass.sched pass.output.scheduledRequests s records) (hv : Views p r f)
    (hvic : r ∉ pass.output.preemptedRequests) (hadm : r ∉ admitted) (hrej : r ∉ rejected) :
    Passed p.sched.config pass s r f := by
  obtain ⟨q, place, shares⟩ := f
  obtain ⟨hsame, hplace, hshares⟩ := hv
  dsimp only at hsame hplace hshares
  have hsum := ha.summary
  have hcfg := hsum.config
  have hstay := hsum.other r hvic hadm hrej
  have hplace' : s.placeOf r = p.sched.placeOf r := by
    refine placeOf_congr ?_ ?_
    · rw [hadv.running, hsum.mem_running]
      tauto
    · rw [hadv.waiting, ha.mem_waiting]
      tauto
  by_cases hmem : r ∈ recordIds pass.output
  · obtain ⟨sr, hsr, rfl⟩ := List.mem_map.mp hmem
    rcases hsum.records sr hsr with ⟨hrun, hout, hsized⟩ | ⟨hadm', -⟩
    · rw [placeOf_running hrun] at hplace
      subst hplace
      refine ⟨_, _, @FlightStep.grant _ _ sr.share _ ?_ ?_ ?_, ?_, ?_, ?_, .grant hsr rfl⟩
      · rw [← hsame.terminalPrefillInFlight]
        exact hsized.noBarrier
      · exact (sized_fits hsized).congr hsame.symm
      · rw [hshares]
        exact (shares_length_le hwf.nodup _).trans_lt hready.room
      · have := hadv.advanced sr hsr
        rw [hcfg] at this
        exact (hsame.trans hstay).advanced.trans this
      · rw [hplace', placeOf_running hrun]
      · rw [sharesOf_eq_single hsum.records_nodup hsr]
    · exact absurd hadm' hadm
  · refine ⟨_, _, .keep _, (hsame.trans hstay).trans (hadv.other r hmem), ?_, ?_, .keep hmem⟩
    · rw [hplace', hplace]
    · rw [sharesOf_eq_nil hmem, List.append_nil]

theorem passed_flight (hwf : p.WellFormed) (hready : p.Ready)
    (ha : AfterPass p admitted rejected pass)
    (hadv : Advances pass.sched pass.output.scheduledRequests s records) (hv : Views p r f) :
    Passed p.sched.config pass s r f := by
  by_cases hvic : r ∈ pass.output.preemptedRequests
  · exact preempted_flight hwf ha hadv hv hvic
  by_cases hadm : r ∈ admitted
  · exact admitted_flight hwf ha hadv hv hadm
  by_cases hrej : r ∈ rejected
  · exact rejected_flight hwf ha hadv hv hvic hadm hrej
  · exact stayed_flight hwf hready ha hadv hv hvic hadm hrej

end Passes

/-- The flight of a request moves on with the result of the oldest step. -/
def Completed (p : Pipeline) (output : SchedulerOutput) (rest : List SchedulerOutput)
    (tokens : StepTokens) (s : Scheduler) (r : RequestId) (f : Flight) : Prop :=
  ∃ ev f', FlightStep p.sched.config f ev f' ∧
    Views { p with sched := s, inFlight := rest, mustAwait := false } r f' ∧
    ((ev = .keep ∧ r ∉ recordIds output) ∨
      (ev = .apply (tokensFor tokens r) ∧ r ∈ p.sched.running ∧ r ∈ recordIds output) ∨
      (ev = .drop ∧ r ∉ p.sched.running))

section Completes
variable {output : SchedulerOutput} {rest : List SchedulerOutput} {tokens : StepTokens}
  {mid s : Scheduler}

theorem applied_flight {sr : ScheduledRequest} (hwf : p.WellFormed)
    (hfl : p.inFlight = output :: rest)
    (hu : Updates p.sched tokens output.scheduledRequests mid s)
    (hsr : sr ∈ output.scheduledRequests) (hv : Views p sr.requestId f)
    (hrun : sr.requestId ∈ p.sched.running) :
    Completed p output rest tokens s sr.requestId f := by
  have hrec : sr.requestId ∈ recordIds output := List.mem_map_of_mem hsr
  obtain ⟨q, place, shares⟩ := f
  obtain ⟨hsame, hplace, hshares⟩ := hv
  dsimp only at hsame hplace hshares
  rw [hfl, List.flatMap_cons, sharesOf_eq_single (hwf.nodup output (by simp [hfl])) hsr,
    List.singleton_append] at hshares
  subst hshares
  rw [placeOf_running hrun] at hplace
  subst hplace
  have happ := hu.applies.applied sr hsr fun hd =>
    (hwf.dropped_iff (by simp [hfl]) hrec).mp hd hrun
  have hq : SameRequest
      (q.applied p.sched.config sr.share (tokensFor tokens sr.requestId))
      (mid.object sr.requestId) := (hsame.applied _).trans happ
  have hnw : sr.requestId ∉ s.waiting := by
    rw [hu.waiting]
    exact hwf.queues.disjoint _ hrun
  cases hc : checkFinish (mid.object sr.requestId) with
  | none =>
    refine ⟨_, _, @FlightStep.apply _ _ _ _ (tokensFor tokens sr.requestId) ?_, ⟨?_, ?_, rfl⟩,
      .inr (.inl ⟨rfl, hrun, hrec⟩)⟩
    · rw [← hq.checkFinish, hc]
    · exact hq.trans (hu.unfinished _ hrun hc)
    · refine (placeOf_running ?_).symm
      show sr.requestId ∈ s.running
      rw [hu.running, List.mem_filter]
      exact ⟨hrun, by rw [hc]; rfl⟩
  | some status =>
    refine ⟨_, _, @FlightStep.finish _ _ _ _ (tokensFor tokens sr.requestId) status ?_,
      ⟨?_, ?_, rfl⟩, .inr (.inl ⟨rfl, hrun, hrec⟩)⟩
    · rw [← hq.checkFinish, hc]
    · exact (hq.map (f := fun q => { q with status }) fun _ => rfl).trans
        (hu.finished _ hrun status hc)
    · refine (placeOf_done ?_ hnw).symm
      show sr.requestId ∉ s.running
      rw [hu.running, List.mem_filter]
      rintro ⟨-, hn⟩
      rw [hc] at hn
      cases hn

/-- The result of a request that no longer runs is dropped. -/
theorem dropped_flight {sr : ScheduledRequest} (hwf : p.WellFormed)
    (hfl : p.inFlight = output :: rest)
    (hu : Updates p.sched tokens output.scheduledRequests mid s)
    (hsr : sr ∈ output.scheduledRequests) (hv : Views p sr.requestId f)
    (hrun : sr.requestId ∉ p.sched.running) :
    Completed p output rest tokens s sr.requestId f := by
  obtain ⟨q, place, shares⟩ := f
  obtain ⟨hsame, hplace, hshares⟩ := hv
  dsimp only at hsame hplace hshares
  rw [hfl, List.flatMap_cons, sharesOf_eq_single (hwf.nodup output (by simp [hfl])) hsr,
    List.singleton_append] at hshares
  subst hshares
  have hne : place ≠ .running := by
    rw [hplace]
    unfold placeOf
    rw [if_neg hrun]
    split <;> simp
  refine ⟨_, _, .drop hne, ⟨hsame.trans (hwf.mid_idle hfl hu hrun), ?_, rfl⟩,
    .inr (.inr ⟨rfl, hrun⟩)⟩
  rw [hplace]
  refine (placeOf_congr ?_ ?_).symm
  · show sr.requestId ∈ s.running ↔ _
    rw [hu.running, List.mem_filter]
    tauto
  · show sr.requestId ∈ s.waiting ↔ _
    rw [hu.waiting]

theorem unrecorded_flight (hwf : p.WellFormed) (hfl : p.inFlight = output :: rest)
    (hu : Updates p.sched tokens output.scheduledRequests mid s) (hv : Views p r f)
    (hrec : r ∉ recordIds output) : Completed p output rest tokens s r f := by
  obtain ⟨q, place, shares⟩ := f
  obtain ⟨hsame, hplace, hshares⟩ := hv
  dsimp only at hsame hplace hshares
  rw [hfl, List.flatMap_cons, sharesOf_eq_nil hrec, List.nil_append] at hshares
  have hcheck : r ∈ p.sched.running → checkFinish (mid.object r) = none := fun hrun => by
    rw [(hu.applies.other r hrec).checkFinish]
    exact hwf.unfinished r (.inl hrun)
  have hkeep : SameRequest (p.sched.object r) (s.object r) := by
    by_cases hrun : r ∈ p.sched.running
    · exact (hu.applies.other r hrec).trans (hu.unfinished r hrun (hcheck hrun))
    · exact hwf.mid_idle hfl hu hrun
  refine ⟨_, _, .keep _, ⟨hsame.trans hkeep, ?_, hshares⟩, .inl ⟨rfl, hrec⟩⟩
  dsimp only
  rw [hplace]
  refine (placeOf_congr ?_ ?_).symm
  · rw [hu.running, List.mem_filter]
    exact ⟨fun h => h.1, fun hrun => ⟨hrun, by rw [hcheck hrun]; rfl⟩⟩
  · rw [hu.waiting]

theorem completed_flight (hwf : p.WellFormed) (hfl : p.inFlight = output :: rest)
    (hu : Updates p.sched tokens output.scheduledRequests mid s) (hv : Views p r f) :
    Completed p output rest tokens s r f := by
  by_cases hrec : r ∈ recordIds output
  · obtain ⟨sr, hsr, rfl⟩ := List.mem_map.mp hrec
    by_cases hrun : sr.requestId ∈ p.sched.running
    · exact applied_flight hwf hfl hu hsr hv hrun
    · exact dropped_flight hwf hfl hu hsr hv hrun
  · exact unrecorded_flight hwf hfl hu hv hrec

end Completes

theorem ended_flight {s : Scheduler} {r' : RequestId} {status : RequestStatus}
    (hfin : status.isFinished = true) (he : Ends p.sched r' status s)
    (hw : s.waiting = p.sched.waiting.filter (· ≠ r')) (hv : Views p r f) :
    ∃ ev f', FlightStep p.sched.config f ev f' ∧ Views { p with sched := s } r f' ∧
      (ev = .keep ∨ (ev = .close status ∧ r = r')) := by
  obtain ⟨q, place, shares⟩ := f
  obtain ⟨hsame, hplace, hshares⟩ := hv
  dsimp only at hsame hplace hshares
  by_cases hr : r = r'
  · subst hr
    refine ⟨_, _, .close hfin, ⟨?_, ?_, hshares⟩, .inr ⟨rfl, rfl⟩⟩
    · exact (hsame.map (f := fun q => { q with status }) fun _ => rfl).trans he.self
    · refine (placeOf_done ?_ ?_).symm
      · show r ∉ s.running
        rw [he.running]
        simp
      · show r ∉ s.waiting
        rw [hw]
        simp
  · refine ⟨_, _, .keep _, ⟨hsame.trans (he.other r hr), ?_, hshares⟩, .inl rfl⟩
    dsimp only
    rw [hplace]
    refine (placeOf_congr ?_ ?_).symm
    · rw [he.running]
      simp [hr]
    · rw [hw]
      simp [hr]

theorem discarded_flight {s : Scheduler} (hwf : p.WellFormed)
    (hd : Drops p.sched p.flightIds s) (hr : r ∈ p.issued) (hv : Views p r f) :
    ∃ ev f', FlightStep p.sched.config f ev f' ∧
      Views { p with sched := s, inFlight := [], mustAwait := false } r f' ∧
      ((ev = .keep ∧ r ∉ p.flightIds) ∨ ∃ status, ev = .discard status) := by
  obtain ⟨q, place, shares⟩ := f
  obtain ⟨hsame, hplace, hshares⟩ := hv
  dsimp only at hsame hplace hshares
  by_cases hids : r ∈ p.flightIds
  · have hdone : s.placeOf r = .done := by
      refine placeOf_done ?_ ?_
      · rw [hd.running, List.mem_filter]
        simp [hids]
      · rw [hd.waiting, List.mem_filter]
        simp [hids]
    by_cases hreq : r ∈ p.sched.requests
    · refine ⟨_, _, @FlightStep.discard _ _ _ .finishedAborted _ rfl, ⟨?_, hdone.symm, rfl⟩,
        .inr ⟨_, rfl⟩⟩
      exact (hsame.map (f := fun q => { q with status := .finishedAborted }) fun _ => rfl).trans
        (hd.aborted r hids hreq)
    · have hfin : q.status.isFinished = true := by
        rw [← hsame.status]
        exact hwf.finished hr (fun h => hreq (hwf.tracked r (.inl h)))
          fun h => hreq (hwf.tracked r (.inr h))
      exact ⟨_, _, @FlightStep.discard _ _ _ q.status _ hfin,
        ⟨hsame.trans (hd.other r (.inr hreq)), hdone.symm, rfl⟩, .inr ⟨_, rfl⟩⟩
  · refine ⟨_, _, .keep _, ⟨hsame.trans (hd.other r (.inl hids)), ?_, ?_⟩, .inl ⟨rfl, hids⟩⟩
    · dsimp only
      rw [hplace]
      refine (placeOf_congr ?_ ?_).symm
      · rw [hd.running]
        simp [hids]
      · rw [hd.waiting]
        simp [hids]
    · dsimp only
      rw [hshares, List.flatMap_nil]
      refine shares_eq_nil fun out hout hmem => hids ?_
      obtain ⟨sr, hsr, rfl⟩ := List.mem_map.mp hmem
      exact List.mem_map.mpr ⟨sr, List.mem_flatMap.mpr ⟨out, hout, hsr⟩, rfl⟩

/-- The event that a pipeline operation is for one request. -/
inductive EventOf (p : Pipeline) (r : RequestId) : PipelineOp → FlightEvent → Prop
  | keep {op : PipelineOp} : EventOf p r op .keep
  | pass {pass : Pass} {ev : FlightEvent} : p.sched.schedule = .ok pass → PassFor pass r ev →
      EventOf p r .dispatch ev
  | apply {output : SchedulerOutput} {rest : List SchedulerOutput} {tokens : StepTokens} :
      p.inFlight = output :: rest → r ∈ recordIds output → r ∈ p.sched.running →
      EventOf p r (.complete tokens) (.apply (tokensFor tokens r))
  | drop {tokens : StepTokens} : r ∉ p.sched.running → EventOf p r (.complete tokens) .drop
  | finish : EventOf p r (.finish r) (.close .finishedStop)
  | abort : EventOf p r (.abort r) (.close .finishedAborted)
  | discard {status : RequestStatus} : EventOf p r .discard (.discard status)

/-- Every step of the pipeline moves each of its requests by one flight step. -/
theorem flight_step {op : PipelineOp} (hwf : p.WellFormed) (hstep : p.Step op p')
    (hr : r ∈ p.issued) (hv : Views p r f) :
    ∃ ev f', FlightStep p.sched.config f ev f' ∧ Views p' r f' ∧ EventOf p r op ev := by
  cases hstep with
  | @add request s hfresh hid hadd =>
    obtain ⟨stored, -, rfl⟩ := addRequest_spec hadd
    have hne : r ≠ request.requestId := fun he => hid (he ▸ hr)
    refine ⟨_, _, .keep f, ⟨?_, ?_, hv.shares⟩, .keep⟩
    · dsimp only
      rw [Function.update_of_ne hne]
      exact hv.same
    · rw [hv.place]
      symm
      apply placeOf_congr
      · exact Iff.rfl
      · simp [hne]
  | dispatch hready hsched hne hadv =>
    obtain ⟨admitted, rejected, ha⟩ := hwf.afterPass hready hsched
    have hadv' := ha.advances hwf.queues hadv
    obtain ⟨ev, f', hf, hs, hp, hsh, hev⟩ := passed_flight hwf hready ha hadv' hv
    refine ⟨ev, f', hf, ⟨hs, hp, ?_⟩, .pass hsched hev⟩
    dsimp only
    rw [hsh, hv.shares, List.flatMap_append, List.flatMap_singleton,
      sharesOf_congr hadv'.ids hadv'.shares]
  | @idle pass hready hsched hempty =>
    obtain ⟨admitted, rejected, ha⟩ := hwf.afterPass hready hsched
    have hnil : pass.output.scheduledRequests = [] := List.isEmpty_iff.mp hempty
    have hadv : Advances pass.sched pass.output.scheduledRequests pass.sched [] := by
      rw [hnil]
      exact ⟨rfl, rfl, rfl, rfl, rfl, rfl, by simp, fun r _ => .refl _⟩
    obtain ⟨ev, f', hf, hs, hp, hsh, hev⟩ := passed_flight hwf hready ha hadv hv
    refine ⟨ev, f', hf, ⟨hs, hp, ?_⟩, .pass hsched hev⟩
    dsimp only
    rw [hsh, hv.shares, SchedulerOutput.sharesOf, hnil]
    simp
  | complete hfl hupd =>
    obtain ⟨mid, hu, -⟩ := hwf.update hfl hupd
    obtain ⟨ev, f', hf, hv', hev⟩ := completed_flight hwf hfl hu hv
    refine ⟨ev, f', hf, hv', ?_⟩
    rcases hev with ⟨rfl, -⟩ | ⟨rfl, hrun, hrec⟩ | ⟨rfl, hrun⟩
    · exact .keep
    · exact .apply hfl hrec hrun
    · exact .drop hrun
  | finish hrun hfin =>
    rcases finishRequest_spec hfin with ⟨-, rfl⟩ | ⟨-, he, hw, -⟩
    · exact ⟨_, _, .keep f, hv, .keep⟩
    · obtain ⟨ev, f', hf, hv', hev⟩ := ended_flight (by decide) he (by
        rw [hw, List.filter_eq_self.mpr]
        intro x hx
        exact decide_eq_true fun hxr => hrun (by rwa [hxr] at hx)) hv
      refine ⟨ev, f', hf, hv', ?_⟩
      rcases hev with rfl | ⟨rfl, rfl⟩
      · exact .keep
      · exact .finish
  | abort habort =>
    rcases abortRequest_spec habort with ⟨-, rfl⟩ | ⟨-, he, hw, -⟩
    · exact ⟨_, _, .keep f, hv, .keep⟩
    · obtain ⟨ev, f', hf, hv', hev⟩ := ended_flight (by decide) he hw hv
      refine ⟨ev, f', hf, hv', ?_⟩
      rcases hev with rfl | ⟨rfl, rfl⟩
      · exact .keep
      · exact .abort
  | discard hne hdrop =>
    obtain ⟨ev, f', hf, hv', hev⟩ :=
      discarded_flight hwf (dropBatches_spec hwf.tracked hdrop) hr hv
    refine ⟨ev, f', hf, hv', ?_⟩
    rcases hev with ⟨rfl, -⟩ | ⟨status, rfl⟩
    · exact .keep
    · exact .discard

/-- The configuration never changes. -/
theorem step_config {op : PipelineOp} (hwf : p.WellFormed) (hstep : p.Step op p') :
    p'.sched.config = p.sched.config := by
  cases hstep with
  | add hfresh hid hadd =>
    obtain ⟨stored, -, rfl⟩ := addRequest_spec hadd
    rfl
  | dispatch hready hsched hne hadv =>
    obtain ⟨admitted, rejected, ha⟩ := hwf.afterPass hready hsched
    exact (ha.advances hwf.queues hadv).config.trans ha.summary.config
  | idle hready hsched hempty =>
    obtain ⟨admitted, rejected, ha⟩ := hwf.afterPass hready hsched
    exact ha.summary.config
  | complete hfl hupd =>
    obtain ⟨mid, hu, -⟩ := hwf.update hfl hupd
    exact hu.config
  | finish hrun hfin =>
    rcases finishRequest_spec hfin with ⟨-, rfl⟩ | ⟨-, he, -⟩
    · rfl
    · exact he.config
  | abort habort =>
    rcases abortRequest_spec habort with ⟨-, rfl⟩ | ⟨-, he, -⟩
    · rfl
    · exact he.config
  | discard hne hdrop => exact (dropBatches_spec hwf.tracked hdrop).config

/-- Only an arrival uses a new id. -/
theorem step_issued {op : PipelineOp} (hstep : p.Step op p') (hr : r ∈ p'.issued) :
    r ∈ p.issued ∨ ∃ request : Request, op = .add request ∧ r = request.requestId := by
  cases hstep with
  | add =>
    rcases List.mem_cons.mp hr with rfl | hr
    · exact .inr ⟨_, rfl, rfl⟩
    · exact .inl hr
  | _ => exact .inl hr

/-- A request starts its flight when it is added. -/
theorem flight_start {request : Request} (hwf : p.WellFormed) (hstep : p.Step (.add request) p') :
    ∃ stored, Accepted p.sched request stored ∧
      Views p' request.requestId ⟨stored, .waiting, []⟩ ∧ p'.issued = request.requestId :: p.issued ∧
      request.Fresh ∧ request.requestId ∉ p.issued := by
  cases hstep with
  | add hfresh hid hadd =>
    obtain ⟨stored, hstored, rfl⟩ := addRequest_spec hadd
    have hnr : request.requestId ∉ p.sched.running := fun h =>
      hid (hwf.issued _ (hwf.tracked _ (.inl h)))
    refine ⟨stored, hstored, ⟨?_, ?_, ?_⟩, rfl, hfresh, hid⟩
    · dsimp only
      rw [Function.update_self]
      exact .refl _
    · symm
      apply placeOf_waiting
      · exact hnr
      · simp
    · exact (shares_eq_nil fun out hout hmem => hid (hwf.recorded out hout _ hmem)).symm

/-- A property that every accepted request has, and that each flight step keeps which is part
of an allowed pipeline step, holds of every request in every run of allowed steps. -/
theorem flight_invariant {C : Pipeline → PipelineOp → Pipeline → Prop}
    {I : SchedulerConfig → Flight → Prop}
    (start : ∀ (p : Pipeline) (request stored : Request), request.Fresh →
      Accepted p.sched request stored → I p.sched.config ⟨stored, .waiting, []⟩)
    (step : ∀ (p : Pipeline) (op : PipelineOp) (p' : Pipeline) (r : RequestId) (f : Flight)
      (ev : FlightEvent) (f' : Flight), p.WellFormed → C p op p' → Views p r f → EventOf p r op ev →
      FlightStep p.sched.config f ev f' → I p.sched.config f → I p.sched.config f')
    {p : Pipeline} (hp : (pipelineMachine.restrict C).Reachable p) :
    ∀ r ∈ p.issued, ∃ f, Views p r f ∧ I p.sched.config f := by
  induction hp with
  | start h =>
    intro r hr
    rw [h.issued] at hr
    cases hr
  | @next p p' op hp hstep ih =>
    have hwf := wellFormed_of_reachable (Machine.restrict_reachable hp)
    have hcfg := step_config hwf hstep.1
    have old : ∀ r ∈ p.issued, ∃ f, Views p' r f ∧ I p'.sched.config f := by
      intro r hr
      obtain ⟨f, hv, hI⟩ := ih r hr
      obtain ⟨ev, f', hf, hv', hev⟩ := flight_step hwf hstep.1 hr hv
      exact ⟨f', hv', by rw [hcfg]; exact step p op p' r f ev f' hwf hstep.2 hv hev hf hI⟩
    intro r hr
    rcases step_issued hstep.1 hr with hr | ⟨request, rfl, rfl⟩
    · exact old r hr
    · obtain ⟨stored, hstored, hv, -, hfresh, -⟩ := flight_start hwf hstep.1
      exact ⟨_, hv, by rw [hcfg]; exact start p request stored hfresh hstored⟩

end PyptoServing.Sched
