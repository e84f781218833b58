import PyptoServing.Sched.Effects

/-!
# The invariant of the pipeline

`WellFormed` is kept by every step: the queues are in order, unfinished requests are
tracked, and a step in flight never belongs to a request that waits for its first admission
after it. The last part is what the depth of two buys: a request that was preempted with a
step in flight is only admitted again after that step has been drained.
-/
namespace PyptoServing.Sched

open Lib Lib.Fallible Memory Scheduler

/-- Every queued request is in the request table. -/
def Scheduler.Tracked (s : Scheduler) : Prop :=
  ∀ r, r ∈ s.running ∨ r ∈ s.waiting → r ∈ s.requests

/-- Aborting the requests `ids` that are still in the table. -/
structure Drops (s : Scheduler) (ids : List RequestId) (s' : Scheduler) : Prop where
  config : s'.config = s.config
  running : s'.running = s.running.filter (· ∉ ids)
  waiting : s'.waiting = s.waiting.filter (· ∉ ids)
  requests : s'.requests = s.requests.filter (· ∉ ids)
  aborted : ∀ r ∈ ids, r ∈ s.requests →
    SameRequest { s.object r with status := .finishedAborted } (s'.object r)
  other : ∀ r, r ∉ ids ∨ r ∉ s.requests → SameRequest (s.object r) (s'.object r)

namespace Drops
variable {s s₁ s₂ : Scheduler} {r : RequestId} {ids : List RequestId}

theorem tracked (h : Drops s ids s₁) (ht : s.Tracked) : s₁.Tracked := by
  intro x hx
  rw [h.running, h.waiting] at hx
  rw [h.requests, List.mem_filter]
  rcases hx with hx | hx <;> rw [List.mem_filter] at hx
  · exact ⟨ht x (.inl hx.1), hx.2⟩
  · exact ⟨ht x (.inr hx.1), hx.2⟩

theorem filter_absent {l : List RequestId} (h : r ∉ l) : l.filter (· ∉ [r]) = l := by
  rw [List.filter_eq_self]
  intro x hx
  simpa using fun hxr : x = r => h (hxr ▸ hx)

/-- A request that is not in the table is left alone. -/
theorem of_absent (ht : s.Tracked) (hs : SameCore s s₁) (hr : r ∉ s.requests) :
    Drops s [r] s₁ where
  config := hs.config
  running := by rw [hs.running, filter_absent fun h => hr (ht r (.inl h))]
  waiting := by rw [hs.waiting, filter_absent fun h => hr (ht r (.inr h))]
  requests := by rw [hs.requests, filter_absent hr]
  aborted x hx hx' := by
    rw [List.mem_singleton.mp hx] at hx'
    exact absurd hx' hr
  other x _ := hs.object x

theorem trans (h : Drops s [r] s₁) (h' : Drops s₁ ids s₂) : Drops s (r :: ids) s₂ := by
  have hfilter : ∀ l : List RequestId,
      (l.filter (· ∉ [r])).filter (· ∉ ids) = l.filter (· ∉ r :: ids) := by
    intro l
    rw [List.filter_filter]
    refine List.filter_congr fun x _ => ?_
    rw [Bool.eq_iff_iff]
    simp only [List.mem_cons, List.not_mem_nil, decide_eq_true_eq, Bool.and_eq_true]
    tauto
  refine ⟨h'.config.trans h.config, ?_, ?_, ?_, ?_, ?_⟩
  · rw [h'.running, h.running, hfilter]
  · rw [h'.waiting, h.waiting, hfilter]
  · rw [h'.requests, h.requests, hfilter]
  · intro x hx hreq
    by_cases hxr : x = r
    · rw [hxr] at hreq ⊢
      refine (h.aborted r (by simp) hreq).trans (h'.other r (.inr ?_))
      rw [h.requests, List.mem_filter]
      simp
    · have hids : x ∈ ids := (List.mem_cons.mp hx).resolve_left hxr
      have hreq' : x ∈ s₁.requests := by
        rw [h.requests, List.mem_filter]
        simpa using ⟨hreq, hxr⟩
      have hs := h.other x (.inl (by simpa using hxr))
      have ha := h'.aborted x hids hreq'
      have hc := congrArg (fun q : Request => { q with status := .finishedAborted }) hs.core
      have ho : SameRequest { s₁.object x with status := .finishedAborted } _ := ha
      refine .trans ?_ ho
      exact ⟨hc⟩
  · intro x hx
    by_cases hreq : x ∈ s.requests
    · have hx : x ∉ r :: ids := hx.resolve_right (not_not.mpr hreq)
      rw [List.mem_cons, not_or] at hx
      exact (h.other x (.inl (by simpa using hx.1))).trans (h'.other x (.inl hx.2))
    · refine (h.other x (.inr hreq)).trans (h'.other x (.inr ?_))
      rw [h.requests, List.mem_filter]
      exact fun hand => hreq hand.1

end Drops

/-- A pass keeps the queued requests in the table: it drops only those that it rejects. -/
theorem PassSummary.tracked {s : Scheduler} {admitted rejected : List RequestId} {pass : Pass}
    (hsum : PassSummary s admitted rejected pass) (hq : Queues s) (ht : s.Tracked)
    (hperm : (pass.sched.waiting ++ (admitted ++ rejected)).Perm
      (pass.output.preemptedRequests.reverse ++ s.waiting)) : pass.sched.Tracked := by
  obtain ⟨-, hwaiting⟩ := hsum.mem_waiting hq hperm
  have hnot : ∀ r ∈ s.running, r ∉ rejected := fun r hrun hrej =>
    hq.disjoint r hrun (hsum.rejected_waiting r hrej)
  intro r hr
  rw [hsum.requests, List.mem_filter]
  have hmem : r ∈ s.requests ∧ r ∉ rejected := by
    rcases hr with hr | hr
    · rcases hsum.mem_running.mp hr with ⟨hrun, -⟩ | hadm
      · exact ⟨ht r (.inl hrun), hnot r hrun⟩
      · exact ⟨ht r (.inr (hsum.admitted_waiting r hadm)), hsum.disjoint r hadm⟩
    · rcases (hwaiting r).mp hr with hv | ⟨hw, -, hnr⟩
      · exact ⟨ht r (.inl (hsum.victims_running r hv)), hnot r (hsum.victims_running r hv)⟩
      · exact ⟨ht r (.inr hw), hnr⟩
  simpa using hmem

theorem Scheduler.dropScheduled_spec {s : Scheduler} {seen : List RequestId}
    {sr : ScheduledRequest} {res : Scheduler × List RequestId} (ht : s.Tracked)
    (hseen : ∀ r ∈ seen, r ∉ s.requests)
    (h : Pipeline.dropScheduled (s, seen) sr = .ok res) :
    Drops s [sr.requestId] res.1 ∧ ∀ r ∈ res.2, r ∉ res.1.requests := by
  unfold Pipeline.dropScheduled at h
  obtain ⟨s₁, hrel, h⟩ := bind_eq_ok.mp h
  have hs := releaseScheduledGroupBlocks_sameCore hrel
  split at h
  · next hmem =>
    cases h
    refine ⟨Drops.of_absent ht hs (hseen _ hmem), fun r hr => ?_⟩
    rw [hs.requests]
    exact hseen r hr
  · obtain ⟨s₂, habort, h⟩ := bind_eq_ok.mp h
    cases h
    rcases abortRequest_spec habort with ⟨hno, rfl⟩ | ⟨hreq, he, hw, hr⟩
    · rw [hs.requests] at hno
      refine ⟨Drops.of_absent ht hs hno, fun r hr => ?_⟩
      rw [hs.requests]
      rcases List.mem_cons.mp hr with rfl | hr
      · exact hno
      · exact hseen r hr
    · have hd : Drops s [sr.requestId] s₂ := by
        refine ⟨he.config.trans hs.config, ?_, ?_, ?_, ?_, ?_⟩
        · rw [he.running, hs.running]
          exact List.filter_congr fun x _ => by simp
        · rw [hw, hs.waiting]
          exact List.filter_congr fun x _ => by simp
        · rw [hr, hs.requests]
          exact List.filter_congr fun x _ => by simp
        · intro x hx _
          rw [List.mem_singleton.mp hx]
          have hc := congrArg (fun q : Request => { q with status := .finishedAborted })
            (hs.object sr.requestId).core
          have ho : SameRequest { s₁.object sr.requestId with status := .finishedAborted } _ :=
            he.self
          refine .trans ?_ ho
          exact ⟨hc⟩
        · intro x hx
          have hne : x ≠ sr.requestId := by
            rintro rfl
            rw [hs.requests] at hreq
            simp [hreq] at hx
          exact (hs.object x).trans (he.other x hne)
      refine ⟨hd, fun r hr' => ?_⟩
      rw [hd.requests, List.mem_filter]
      rcases List.mem_cons.mp hr' with rfl | hr'
      · simp
      · exact fun hand => hseen r hr' hand.1

theorem Scheduler.dropBatches_spec {s s' : Scheduler} {batches : List SchedulerOutput}
    (ht : s.Tracked) (h : Pipeline.dropBatches s batches = .ok s') :
    Drops s ((batches.flatMap (·.scheduledRequests)).map (·.requestId)) s' := by
  have hfold : ∀ (l : List ScheduledRequest) (s : Scheduler) (seen : List RequestId)
      (res : Scheduler × List RequestId), s.Tracked → (∀ r ∈ seen, r ∉ s.requests) →
      l.foldlM Pipeline.dropScheduled (s, seen) = .ok res →
      Drops s (l.map (·.requestId)) res.1 := by
    intro l
    induction l with
    | nil =>
      intro s seen res _ _ h
      cases h
      exact ⟨rfl, by simp, by simp, by simp, by simp, fun _ _ => .refl _⟩
    | cons sr l ih =>
      intro s seen res ht hseen h
      rw [List.foldlM_cons] at h
      obtain ⟨⟨s₁, seen₁⟩, hone, h⟩ := bind_eq_ok.mp h
      obtain ⟨hd, hseen₁⟩ := dropScheduled_spec ht hseen hone
      exact hd.trans (ih s₁ seen₁ res (hd.tracked ht) hseen₁ h)
  unfold Pipeline.dropBatches at h
  obtain ⟨⟨s₁, seen⟩, hrun, h⟩ := bind_eq_ok.mp h
  cases h
  exact hfold _ s [] _ ht (by simp) hrun

namespace Pipeline

/-- The request ids of a step. -/
def recordIds (output : SchedulerOutput) : List RequestId :=
  output.scheduledRequests.map (·.requestId)

/-- The steps in flight that the next pass can see: all of them when a pass may come next,
else those behind the step that is drained first. -/
def exposed (p : Pipeline) : List SchedulerOutput :=
  if p.mustAwait then []
  else if p.inFlight.length < p.sched.config.maxInFlight then p.inFlight
  else p.inFlight.tail

structure WellFormed (p : Pipeline) : Prop where
  queues : Queues p.sched
  tracked : p.sched.Tracked
  unfinished : ∀ r, r ∈ p.sched.running ∨ r ∈ p.sched.waiting →
    checkFinish (p.sched.object r) = none
  issued : ∀ r ∈ p.sched.requests, r ∈ p.issued
  recorded : ∀ out ∈ p.inFlight, ∀ r ∈ recordIds out, r ∈ p.issued
  ended : ∀ r ∈ p.issued, r ∈ p.sched.running ∨ r ∈ p.sched.waiting ∨
    (p.sched.object r).status.isFinished = true
  depth : p.inFlight.length ≤ p.sched.config.maxInFlight
  awaiting : p.mustAwait = true → p.inFlight.length < p.sched.config.maxInFlight
  nodup : ∀ out ∈ p.inFlight, (recordIds out).Nodup
  stale : ∀ out ∈ p.inFlight, ∀ r ∈ recordIds out, r ∈ p.sched.waiting →
    (p.sched.object r).status = .preempted
  exposed : ∀ out ∈ p.exposed, ∀ r ∈ recordIds out, r ∉ p.sched.waiting

variable {p p' : Pipeline} {r : RequestId}

theorem maxInFlight_le (config : SchedulerConfig) : config.maxInFlight ≤ 2 := by
  unfold SchedulerConfig.maxInFlight
  split <;> omega

theorem WellFormed.start (h : p.Started) : WellFormed p := by
  obtain ⟨H, groups, batch, page, n, kv, config, object, -, -, hnew⟩ := h.sched
  unfold Scheduler.new at hnew
  split at hnew
  · cases hnew
  · have hs := Except.ok.inj hnew
    constructor
    · constructor <;> simp [← hs]
    · intro r
      simp [← hs]
    · simp [← hs]
    · simp [← hs]
    · simp [h.inFlight]
    · simp [h.issued]
    · simp [h.inFlight]
    · simp [h.mustAwait]
    · simp [h.inFlight]
    · simp [h.inFlight]
    · simp [Pipeline.exposed, h.inFlight]

theorem WellFormed.add {request : Request} {s : Scheduler} (h : WellFormed p)
    (hfresh : request.Fresh) (hid : request.requestId ∉ p.issued)
    (hadd : p.sched.addRequest request = .ok s) :
    WellFormed { p with sched := s, issued := request.requestId :: p.issued } := by
  obtain ⟨stored, hstored, rfl⟩ := addRequest_spec hadd
  have hidle : checkFinish stored = none := by
    rw [hstored.eq, hfresh.defaults]
    rfl
  have hnot : request.requestId ∉ p.sched.requests := fun hr => hid (h.issued _ hr)
  have hobj : ∀ x, x ≠ request.requestId →
      Function.update p.sched.object request.requestId stored x = p.sched.object x :=
    fun x hx => Function.update_of_ne hx _ _
  have hself : Function.update p.sched.object request.requestId stored request.requestId =
      stored := Function.update_self _ _ _
  have hrec : ∀ out ∈ p.inFlight, ∀ x ∈ recordIds out, x ≠ request.requestId :=
    fun out hout x hx he => hid (he ▸ h.recorded out hout x hx)
  have hmem : ∀ x, x ∈ p.sched.waiting ++ [request.requestId] ↔
      x ∈ p.sched.waiting ∨ x = request.requestId := by simp
  refine ⟨h.queues.add hstored hfresh (fun hr => hnot (h.tracked _ (.inl hr)))
    fun hr => hnot (h.tracked _ (.inr hr)), ?_, ?_, ?_, ?_, ?_, h.depth, h.awaiting,
    h.nodup, ?_, ?_⟩
  · intro x hx
    dsimp only at hx ⊢
    rw [List.mem_append, List.mem_singleton]
    rw [hmem] at hx
    rcases hx with hx | hx | hx
    · exact .inl (h.tracked x (.inl hx))
    · exact .inl (h.tracked x (.inr hx))
    · exact .inr hx
  · intro x hx
    dsimp only at hx ⊢
    by_cases hxe : x = request.requestId
    · rw [hxe, hself]
      exact hidle
    · rw [hobj x hxe]
      exact h.unfinished x (hx.imp id fun hw => ((hmem x).mp hw).resolve_right hxe)
  · intro x hx
    rcases List.mem_append.mp hx with hx | hx
    · exact List.mem_cons_of_mem _ (h.issued x hx)
    · rw [List.mem_singleton.mp hx]
      exact List.mem_cons_self
  · exact fun out hout x hx => List.mem_cons_of_mem _ (h.recorded out hout x hx)
  · intro x hx
    dsimp only
    rcases List.mem_cons.mp hx with rfl | hx
    · exact .inr (.inl (by simp))
    · have hxe : x ≠ request.requestId := fun he => hid (he ▸ hx)
      rw [hobj x hxe]
      rcases h.ended x hx with hr | hw | hf
      · exact .inl hr
      · exact .inr (.inl ((hmem x).mpr (.inl hw)))
      · exact .inr (.inr hf)
  · intro out hout x hx hw
    dsimp only at hw ⊢
    have hxe := hrec out hout x hx
    rw [hobj x hxe]
    exact h.stale out hout x hx (((hmem x).mp hw).resolve_right hxe)
  · intro out hout x hx hw
    have hin : out ∈ p.inFlight := by
      have hout' : out ∈ p.exposed := hout
      unfold Pipeline.exposed at hout'
      split at hout'
      · cases hout'
      · split at hout'
        · exact hout'
        · exact List.mem_of_mem_tail hout'
    exact h.exposed out hout x hx (((hmem x).mp hw).resolve_right (hrec out hin x hx))

/-- A step that admits nobody: the queues shrink, waiting requests are untouched and the
running ones keep running. -/
theorem WellFormed.shrink (h : WellFormed p) (hcfg : p'.sched.config = p.sched.config)
    (hrun : p'.sched.running.Sublist p.sched.running)
    (hwait : p'.sched.waiting.Sublist p.sched.waiting) (hissued : p'.issued = p.issued)
    (hreq : p'.sched.requests ⊆ p.sched.requests) (htracked : p'.sched.Tracked)
    (hrunning : ∀ r ∈ p'.sched.running, (p'.sched.object r).status = .running ∧
      checkFinish (p'.sched.object r) = none ∧ 0 < (p'.sched.object r).numPromptTokens)
    (hwaiting : ∀ r ∈ p'.sched.waiting, SameRequest (p.sched.object r) (p'.sched.object r))
    (hended : ∀ r ∈ p.issued, r ∉ p'.sched.running → r ∉ p'.sched.waiting →
      (p'.sched.object r).status.isFinished = true)
    (hfl : p'.inFlight.Sublist p.inFlight)
    (hawait : p'.mustAwait = true → p'.inFlight.length < p'.sched.config.maxInFlight)
    (hexp : ∀ out ∈ p'.exposed, out ∈ p.exposed) : WellFormed p' where
  queues := h.queues.shrink hrun hwait (fun x hx => ⟨(hrunning x hx).1, (hrunning x hx).2.2⟩)
    hwaiting
  tracked := htracked
  unfinished x hx := by
    rcases hx with hx | hx
    · exact (hrunning x hx).2.1
    · rw [(hwaiting x hx).checkFinish]
      exact h.unfinished x (.inr (hwait.subset hx))
  issued x hx := by
    rw [hissued]
    exact h.issued x (hreq hx)
  recorded out hout x hx := by
    rw [hissued]
    exact h.recorded out (hfl.subset hout) x hx
  ended x hx := by
    rw [hissued] at hx
    by_cases hr : x ∈ p'.sched.running
    · exact .inl hr
    · by_cases hw : x ∈ p'.sched.waiting
      · exact .inr (.inl hw)
      · exact .inr (.inr (hended x hx hr hw))
  depth := by
    rw [hcfg]
    exact hfl.length_le.trans h.depth
  awaiting := hawait
  nodup out hout := h.nodup out (hfl.subset hout)
  stale out hout x hx hw := by
    rw [(hwaiting x hw).status]
    exact h.stale out (hfl.subset hout) x hx (hwait.subset hw)
  exposed out hout x hx hw := h.exposed out (hexp out hout) x hx (hwait.subset hw)

/-- A request of the pipeline is queued or has ended. -/
theorem WellFormed.finished (h : WellFormed p) (hi : r ∈ p.issued) (hr : r ∉ p.sched.running)
    (hw : r ∉ p.sched.waiting) : (p.sched.object r).status.isFinished = true :=
  ((h.ended r hi).resolve_left hr).resolve_left hw

/-- Ending one request. -/
theorem WellFormed.ends {s : Scheduler} {status : RequestStatus} (h : WellFormed p)
    (hfin : status.isFinished = true) (he : Ends p.sched r status s)
    (hw : s.waiting = p.sched.waiting.filter (· ≠ r)) (hreq : s.requests ⊆ p.sched.requests)
    (hkeep : ∀ x ∈ p.sched.requests, x ≠ r → x ∈ s.requests) :
    WellFormed { p with sched := s } := by
  have hrun : ∀ x ∈ s.running, x ∈ p.sched.running ∧ x ≠ r := by
    intro x hx
    rw [he.running] at hx
    simpa using hx
  have hwait : ∀ x ∈ s.waiting, x ∈ p.sched.waiting ∧ x ≠ r := by
    intro x hx
    rw [hw] at hx
    simpa using hx
  refine h.shrink he.config (by rw [he.running]; exact List.filter_sublist)
    (by rw [hw]; exact List.filter_sublist) rfl hreq ?_ ?_ ?_ ?_ (List.Sublist.refl _) ?_ ?_
  · intro x hx
    dsimp only at hx ⊢
    rcases hx with hx | hx
    · exact hkeep x (h.tracked x (.inl (hrun x hx).1)) (hrun x hx).2
    · exact hkeep x (h.tracked x (.inr (hwait x hx).1)) (hwait x hx).2
  · intro x hx
    obtain ⟨hx, hxr⟩ := hrun x hx
    have hs := he.other x hxr
    exact ⟨hs.status.trans (h.queues.running_status x hx),
      hs.checkFinish.trans (h.unfinished x (.inl hx)),
      by rw [hs.numPromptTokens]; exact h.queues.prompt_pos x (.inl hx)⟩
  · exact fun x hx => he.other x (hwait x hx).2
  · intro x hx hxr hxw
    dsimp only at hxr hxw ⊢
    by_cases hxe : x = r
    · rw [hxe, he.self.status]
      exact hfin
    · rw [(he.other x hxe).status]
      refine h.finished hx (fun hrn => hxr ?_) fun hwn => hxw ?_
      · rw [he.running]
        simpa using ⟨hrn, hxe⟩
      · rw [hw]
        simpa using ⟨hwn, hxe⟩
  · dsimp only
    rw [he.config]
    exact h.awaiting
  · intro out hout
    unfold Pipeline.exposed at hout ⊢
    rw [← he.config]
    exact hout

theorem WellFormed.finish {s : Scheduler} (h : WellFormed p) (hr : r ∉ p.sched.waiting)
    (hfin : p.sched.finishRequest r .finishedStop = .ok s) :
    WellFormed { p with sched := s } := by
  rcases finishRequest_spec hfin with ⟨-, rfl⟩ | ⟨-, he, hw, hreq⟩
  · exact h
  · refine h.ends rfl he ?_ (by rw [hreq]; exact List.Subset.refl _) fun x hx _ => by rwa [hreq]
    rw [hw, List.filter_eq_self.mpr]
    intro x hx
    simpa using fun hxr : x = r => hr (hxr ▸ hx)

theorem WellFormed.abort {s : Scheduler} (h : WellFormed p)
    (habort : p.sched.abortRequest r = .ok s) : WellFormed { p with sched := s } := by
  rcases abortRequest_spec habort with ⟨-, rfl⟩ | ⟨-, he, hw, hreq⟩
  · exact h
  · refine h.ends rfl he hw (by rw [hreq]; exact List.filter_subset_self _) fun x hx hxr => ?_
    rw [hreq]
    simpa using ⟨hx, hxr⟩

/-- The requests of the steps in flight. -/
def flightIds (p : Pipeline) : List RequestId :=
  (p.inFlight.flatMap (·.scheduledRequests)).map (·.requestId)

theorem WellFormed.discard {s : Scheduler} (h : WellFormed p)
    (hdrop : dropBatches p.sched p.inFlight = .ok s) :
    WellFormed { p with sched := s, inFlight := [], mustAwait := false } := by
  have hd := dropBatches_spec h.tracked hdrop
  have hsub : ∀ {l : List RequestId} {x}, x ∈ l.filter (· ∉ p.flightIds) →
      x ∈ l ∧ x ∉ p.flightIds := by
    intro l x hx
    simpa using hx
  refine h.shrink hd.config (by rw [hd.running]; exact List.filter_sublist)
    (by rw [hd.waiting]; exact List.filter_sublist) rfl
    (by rw [hd.requests]; exact List.filter_subset_self _) (hd.tracked h.tracked) ?_ ?_ ?_
    (List.nil_sublist _) (by simp) (by simp [Pipeline.exposed])
  · intro x hx
    dsimp only at hx ⊢
    rw [hd.running] at hx
    obtain ⟨hx, hxr⟩ := hsub hx
    have hs := hd.other x (.inl hxr)
    exact ⟨hs.status.trans (h.queues.running_status x hx),
      hs.checkFinish.trans (h.unfinished x (.inl hx)),
      by rw [hs.numPromptTokens]; exact h.queues.prompt_pos x (.inl hx)⟩
  · intro x hx
    dsimp only at hx
    rw [hd.waiting] at hx
    exact hd.other x (.inl (hsub hx).2)
  · intro x hx hxr hxw
    dsimp only at hxr hxw ⊢
    by_cases hin : x ∈ p.flightIds ∧ x ∈ p.sched.requests
    · rw [(hd.aborted x hin.1 hin.2).status]
      rfl
    · have hout : x ∉ p.flightIds ∨ x ∉ p.sched.requests := by tauto
      rw [(hd.other x hout).status]
      have hkeep : ∀ {l : List RequestId}, x ∈ l → x ∈ p.sched.requests →
          x ∈ l.filter (· ∉ p.flightIds) := by
        intro l hl hreq
        rw [List.mem_filter]
        exact ⟨hl, by simpa using hout.resolve_right (not_not.mpr hreq)⟩
      refine h.finished hx (fun hrn => hxr ?_) fun hwn => hxw ?_
      · rw [hd.running]
        exact hkeep hrn (h.tracked x (.inl hrn))
      · rw [hd.waiting]
        exact hkeep hwn (h.tracked x (.inr hwn))

/-- The oldest step's record of a running request is live, that of another one is not. -/
theorem WellFormed.dropped_iff (h : WellFormed p) {out : SchedulerOutput} (hout : out ∈ p.inFlight)
    (hr : r ∈ recordIds out) :
    Dropped (p.sched.object r).status ↔ r ∉ p.sched.running := by
  constructor
  · intro hd hrun
    rw [h.queues.running_status r hrun] at hd
    revert hd
    decide
  · intro hrun
    by_cases hw : r ∈ p.sched.waiting
    · exact .inr (h.stale out hout r hr hw)
    · exact .inl (h.finished (h.recorded out hout r hr) hrun hw)

theorem applied_promptTokenIds (q : Request) (config : SchedulerConfig) (share : StepShare)
    (tokens : List Int) :
    (q.applied config share tokens).promptTokenIds = q.promptTokenIds := by
  have hconf : (q.confirmed share).promptTokenIds = q.promptTokenIds := by
    unfold Request.confirmed
    split <;> rfl
  unfold Request.applied
  split
  · unfold Request.reconciled settle
    dsimp only
    split <;> rw [appendTokens_fst, hconf]
  · rw [stepped_eq, ← hconf]
    by_cases hp : share.isPrefill = true
    · by_cases hc : (q.confirmed share).numComputedTokens + share.numNewTokens <
          (q.confirmed share).numPromptTokens
      · rw [steppedFrom_chunk tokens hp hc]
      · rw [steppedFrom_prompt tokens hp hc, appendTokens_fst]
    · rw [steppedFrom_decode tokens hp, appendTokens_fst]

theorem WellFormed.update {output : SchedulerOutput} {rest : List SchedulerOutput}
    {tokens : StepTokens} {s : Scheduler} {outputs : List RequestOutput} (h : WellFormed p)
    (hfl : p.inFlight = output :: rest)
    (hupd : p.sched.updateFromOutput output tokens = .ok (s, outputs)) :
    ∃ mid, Updates p.sched tokens output.scheduledRequests mid s ∧
      outputs = (p.sched.running.foldl finishRunning
        (mid, output.scheduledRequests.flatMap (recordOutputs p.sched tokens), [])).2.1 :=
  updateFromOutput_spec (h.nodup output (by simp [hfl])) h.queues.running_nodup
    h.queues.running_status hupd

/-- The records of a result leave requests that do not run alone. -/
theorem WellFormed.mid_idle {output : SchedulerOutput} {rest : List SchedulerOutput}
    {tokens : StepTokens} {mid s : Scheduler} (h : WellFormed p)
    (hfl : p.inFlight = output :: rest)
    (hu : Updates p.sched tokens output.scheduledRequests mid s) (hr : r ∉ p.sched.running) :
    SameRequest (p.sched.object r) (s.object r) := by
  refine SameRequest.trans ?_ (hu.other r hr)
  by_cases hrec : r ∈ recordIds output
  · have hd := (h.dropped_iff (by simp [hfl]) hrec).mpr hr
    obtain ⟨sr, hsr, rfl⟩ := List.mem_map.mp hrec
    exact hu.applies.dropped sr hsr hd
  · exact hu.applies.other r hrec

/-- A running request keeps running until the finish check, with the prompt that it has. -/
theorem WellFormed.mid_running {output : SchedulerOutput} {rest : List SchedulerOutput}
    {tokens : StepTokens} {mid s : Scheduler} (h : WellFormed p)
    (hfl : p.inFlight = output :: rest)
    (hu : Updates p.sched tokens output.scheduledRequests mid s) (hr : r ∈ p.sched.running) :
    (mid.object r).status = .running ∧
      (mid.object r).numPromptTokens = (p.sched.object r).numPromptTokens := by
  by_cases hrec : r ∈ recordIds output
  · have hd := fun hd => (h.dropped_iff (by simp [hfl]) hrec).mp hd hr
    obtain ⟨sr, hsr, rfl⟩ := List.mem_map.mp hrec
    have hs := hu.applies.applied sr hsr hd
    rw [hs.status, applied_status, hs.numPromptTokens, Request.numPromptTokens,
      applied_promptTokenIds]
    exact ⟨h.queues.running_status _ hr, rfl⟩
  · have hs := hu.applies.other r hrec
    exact ⟨hs.status.trans (h.queues.running_status r hr), hs.numPromptTokens⟩

/-- The steps behind the drained one were behind it before. -/
theorem WellFormed.exposed_complete {output out : SchedulerOutput} {rest : List SchedulerOutput}
    {s : Scheduler} (h : WellFormed p) (hfl : p.inFlight = output :: rest)
    (hconfig : s.config = p.sched.config)
    (hout : out ∈ Pipeline.exposed
      { p with sched := s, inFlight := rest, mustAwait := false }) :
    out ∈ p.exposed := by
  have hdepth := h.depth
  have hle := maxInFlight_le p.sched.config
  have haw := h.awaiting
  unfold Pipeline.exposed at hout ⊢
  dsimp only at hout
  rw [hconfig] at hout
  rw [hfl] at hdepth haw ⊢
  rw [List.length_cons] at hdepth haw ⊢
  have hrest : out ∈ rest := by
    rw [if_neg (by simp)] at hout
    split at hout
    · exact hout
    · exact List.mem_of_mem_tail hout
  have hpos : 0 < rest.length := List.length_pos_of_mem hrest
  rw [if_neg (by
    intro hm
    have := haw hm
    omega), if_neg (by omega)]
  exact hrest

theorem WellFormed.complete {output : SchedulerOutput} {rest : List SchedulerOutput}
    {tokens : StepTokens} {s : Scheduler} {outputs : List RequestOutput} (h : WellFormed p)
    (hfl : p.inFlight = output :: rest)
    (hupd : p.sched.updateFromOutput output tokens = .ok (s, outputs)) :
    WellFormed { p with sched := s, inFlight := rest, mustAwait := false } := by
  obtain ⟨mid, hu, -⟩ := h.update hfl hupd
  have hrun : ∀ x ∈ s.running, x ∈ p.sched.running ∧ checkFinish (mid.object x) = none := by
    intro x hx
    rw [hu.running] at hx
    simpa using hx
  refine h.shrink hu.config (by rw [hu.running]; exact List.filter_sublist)
    (by rw [hu.waiting]) rfl (by rw [hu.requests]; exact List.Subset.refl _) ?_ ?_ ?_ ?_ ?_ ?_ ?_
  · intro x hx
    dsimp only at hx ⊢
    rw [hu.requests]
    rcases hx with hx | hx
    · exact h.tracked x (.inl (hrun x hx).1)
    · exact h.tracked x (.inr (hu.waiting ▸ hx))
  · intro x hx
    obtain ⟨hx, hc⟩ := hrun x hx
    obtain ⟨hstatus, hprompt⟩ := h.mid_running hfl hu hx
    have hs := hu.unfinished x hx hc
    refine ⟨hs.status.trans hstatus, hs.checkFinish.trans hc, ?_⟩
    dsimp only
    rw [hs.numPromptTokens, hprompt]
    exact h.queues.prompt_pos x (.inl hx)
  · intro x hx
    dsimp only at hx
    rw [hu.waiting] at hx
    exact h.mid_idle hfl hu fun hr => h.queues.disjoint x hr hx
  · intro x hx hxr hxw
    dsimp only at hxr hxw ⊢
    rw [hu.waiting] at hxw
    by_cases hrn : x ∈ p.sched.running
    · rw [hu.running, List.mem_filter] at hxr
      cases hc : checkFinish (mid.object x) with
      | none => exact absurd ⟨hrn, by simp [hc]⟩ hxr
      | some status =>
        rw [(hu.finished x hrn status hc).status]
        exact checkFinish_finished hc
    · rw [(h.mid_idle hfl hu hrn).status]
      exact h.finished hx hrn hxw
  · rw [hfl]
    exact List.sublist_cons_self _ _
  · simp
  · exact fun out hout => h.exposed_complete hfl hu.config hout

/-- The pipeline right after a pass. -/
structure AfterPass (p : Pipeline) (admitted rejected : List RequestId) (pass : Pass) : Prop where
  summary : PassSummary p.sched admitted rejected pass
  mem_waiting : ∀ r, r ∈ pass.sched.waiting ↔ r ∈ pass.output.preemptedRequests ∨
    (r ∈ p.sched.waiting ∧ r ∉ admitted ∧ r ∉ rejected)
  queues : Queues pass.sched
  tracked : pass.sched.Tracked
  unfinished : ∀ r, r ∈ pass.sched.running ∨ r ∈ pass.sched.waiting →
    checkFinish (pass.sched.object r) = none
  issued : ∀ r ∈ pass.sched.requests, r ∈ p.issued
  ended : ∀ r ∈ p.issued, r ∈ pass.sched.running ∨ r ∈ pass.sched.waiting ∨
    (pass.sched.object r).status.isFinished = true
  settled : ∀ out ∈ p.inFlight, ∀ r ∈ recordIds out, r ∉ p.sched.waiting
  stale : ∀ out ∈ p.inFlight, ∀ r ∈ recordIds out, r ∈ pass.sched.waiting →
    (pass.sched.object r).status = .preempted
  scheduled : ∀ r ∈ recordIds pass.output, r ∈ pass.sched.running

theorem WellFormed.exposed_ready (h : WellFormed p) (hready : p.Ready) :
    ∀ out ∈ p.inFlight, ∀ r ∈ recordIds out, r ∉ p.sched.waiting := by
  have hexp := h.exposed
  rw [Pipeline.exposed, if_neg (by simp [hready.free]), if_pos hready.room] at hexp
  exact hexp

theorem WellFormed.afterPass {pass : Pass} (h : WellFormed p) (hready : p.Ready)
    (hsched : p.sched.schedule = .ok pass) :
    ∃ admitted rejected, AfterPass p admitted rejected pass := by
  obtain ⟨admitted, rejected, hsum, hperm⟩ := schedule_summary h.queues hsched
  obtain ⟨-, hwaiting⟩ := hsum.mem_waiting h.queues hperm
  have hwobj := fun r hr => hsum.waiting_object ((hwaiting r).mp hr)
  have hrec : ∀ r ∈ recordIds pass.output, r ∈ pass.sched.running := by
    intro r hr
    obtain ⟨sr, hsr, rfl⟩ := List.mem_map.mp hr
    exact hsum.scheduled hsr
  refine ⟨admitted, rejected, hsum, hwaiting, hsum.queues h.queues hperm,
    hsum.tracked h.queues h.tracked hperm, ?_, ?_, ?_, h.exposed_ready hready, ?_, hrec⟩
  · rintro r (hr | hr)
    · rcases hsum.mem_running.mp hr with ⟨hrun, hout⟩ | hadm
      · rw [(hsum.running_object h.queues hrun hout).checkFinish]
        exact h.unfinished r (.inl hrun)
      · obtain ⟨c, -, hobj⟩ := hsum.admitted_object h.queues hadm
        rw [hobj.checkFinish]
        exact h.unfinished r (.inr (hsum.admitted_waiting r hadm))
    · rcases hwobj r hr with ⟨hv, hobj⟩ | ⟨hw, hobj⟩
      · rw [hobj.checkFinish]
        exact h.unfinished r (.inl (hsum.victims_running r hv))
      · rw [hobj.checkFinish]
        exact h.unfinished r (.inr hw)
  · intro r hr
    rw [hsum.requests] at hr
    exact h.issued r (List.mem_filter.mp hr).1
  · intro r hr
    by_cases hv : r ∈ pass.output.preemptedRequests
    · exact .inr (.inl ((hwaiting r).mpr (.inl hv)))
    by_cases hadm : r ∈ admitted
    · exact .inl (hsum.mem_running.mpr (.inr hadm))
    by_cases hrej : r ∈ rejected
    · rw [(hsum.rejection r hrej).1.status]
      exact .inr (.inr rfl)
    rcases h.ended r hr with hrun | hw | hf
    · exact .inl (hsum.mem_running.mpr (.inl ⟨hrun, hv⟩))
    · exact .inr (.inl ((hwaiting r).mpr (.inr ⟨hw, hadm, hrej⟩)))
    · rw [(hsum.other r hv hadm hrej).status]
      exact .inr (.inr hf)
  · intro out hout r hr hw
    rcases hwobj r hw with ⟨-, hobj⟩ | ⟨hsw, -⟩
    · exact hobj.status
    · exact absurd hsw (h.exposed_ready hready out hout r hr)

theorem WellFormed.idle {pass : Pass} (h : WellFormed p) (hready : p.Ready)
    (hsched : p.sched.schedule = .ok pass) :
    WellFormed { p with sched := pass.sched, mustAwait := !p.inFlight.isEmpty } := by
  obtain ⟨admitted, rejected, ha⟩ := h.afterPass hready hsched
  refine ⟨ha.queues, ha.tracked, ha.unfinished, ha.issued, h.recorded, ha.ended, ?_, ?_, h.nodup,
    ha.stale, ?_⟩
  · dsimp only
    rw [ha.summary.config]
    exact h.depth
  · intro _
    dsimp only
    rw [ha.summary.config]
    exact hready.room
  · intro out hout
    unfold Pipeline.exposed at hout
    dsimp only at hout
    split at hout
    · cases hout
    · next hne =>
      have hnil : p.inFlight = [] := by simpa using hne
      rw [hnil] at hout
      split at hout <;> cases hout

theorem AfterPass.advances {admitted rejected : List RequestId} {pass : Pass} {s : Scheduler}
    {output : SchedulerOutput} (ha : AfterPass p admitted rejected pass) (hq : Queues p.sched)
    (hadv : pass.sched.advanceAfterSchedule pass.output = .ok (s, output)) :
    Advances pass.sched pass.output.scheduledRequests s output.scheduledRequests :=
  advances_of_summary ha.summary hq hadv

/-- Behind the oldest step there is at most the new one. -/
theorem exposed_dispatch {s : Scheduler} {output out : SchedulerOutput} (hready : p.Ready)
    (hconfig : s.config = p.sched.config)
    (hout : out ∈ exposed { p with sched := s, inFlight := p.inFlight ++ [output] }) :
    out = output := by
  have hle := maxInFlight_le p.sched.config
  have hroom := hready.room
  unfold exposed at hout
  dsimp only at hout
  rw [hconfig, if_neg (by simp [hready.free]), List.length_append, List.length_singleton] at hout
  cases hin : p.inFlight with
  | nil =>
    rw [hin] at hout
    split at hout
    · simpa using hout
    · simp at hout
  | cons o l =>
    rw [hin] at hout hroom
    rw [List.length_cons] at hout hroom
    have hl : l = [] := List.length_eq_zero_iff.mp (by omega)
    rw [hl, if_neg (by rw [List.length_nil]; omega)] at hout
    simpa using hout

theorem WellFormed.dispatch {pass : Pass} {s : Scheduler} {output : SchedulerOutput}
    (h : WellFormed p) (hready : p.Ready) (hsched : p.sched.schedule = .ok pass)
    (hadv : pass.sched.advanceAfterSchedule pass.output = .ok (s, output)) :
    WellFormed { p with sched := s, inFlight := p.inFlight ++ [output] } := by
  obtain ⟨admitted, rejected, ha⟩ := h.afterPass hready hsched
  have hadv := ha.advances h.queues hadv
  have hids : recordIds output = recordIds pass.output := hadv.ids
  have hrun := hadv.keeps
  have hconfig : s.config = p.sched.config := hadv.config.trans ha.summary.config
  have hnew : ∀ r ∈ recordIds output, r ∉ s.waiting := by
    intro r hr
    rw [hids] at hr
    rw [hadv.waiting]
    exact ha.queues.disjoint r (ha.scheduled r hr)
  have hflight : ∀ out ∈ p.inFlight ++ [output], out ∈ p.inFlight ∨ out = output := by
    intro out hout
    simpa using hout
  constructor
  · exact hadv.queues ha.queues fun r hr hrec => ha.queues.disjoint r (ha.scheduled r hrec) hr
  · intro r hr
    dsimp only at hr ⊢
    rw [hadv.running, hadv.waiting] at hr
    rw [hadv.requests]
    exact ha.tracked r hr
  · intro r hr
    dsimp only at hr ⊢
    rw [hadv.running, hadv.waiting] at hr
    rw [(hrun r).2.1]
    exact ha.unfinished r hr
  · dsimp only
    rw [hadv.requests]
    exact ha.issued
  · intro out hout r hr
    rcases hflight out hout with hin | rfl
    · exact h.recorded out hin r hr
    · rw [hids] at hr
      exact ha.issued r (ha.tracked r (.inl (ha.scheduled r hr)))
  · intro r hr
    dsimp only
    rw [hadv.running, hadv.waiting, (hrun r).1]
    exact ha.ended r hr
  · dsimp only
    rw [hconfig, List.length_append]
    exact hready.room
  · intro hm
    rw [show p.mustAwait = false from hready.free] at hm
    cases hm
  · intro out hout
    rcases hflight out hout with hin | rfl
    · exact h.nodup out hin
    · rw [hids]
      exact ha.summary.records_nodup
  · intro out hout r hr hw
    dsimp only at hw ⊢
    rcases hflight out hout with hin | rfl
    · rw [hadv.waiting] at hw
      rw [(hrun r).1]
      exact ha.stale out hin r hr hw
    · exact absurd hw (hnew r hr)
  · intro out hout r hr
    obtain rfl := exposed_dispatch hready hconfig hout
    exact hnew r hr

end Pipeline

/-- Every state that the pipeline reaches is well formed. -/
theorem wellFormed_of_reachable {p : Pipeline} (h : pipelineMachine.Reachable p) :
    p.WellFormed := by
  refine h.invariant (fun _ => Pipeline.WellFormed.start) ?_
  rintro p op p' - hwf hstep
  cases hstep with
  | add hfresh hid hadd => exact hwf.add hfresh hid hadd
  | dispatch hready hsched hne hadv => exact hwf.dispatch hready hsched hadv
  | idle hready hsched hempty => exact hwf.idle hready hsched
  | complete hfl hupd => exact hwf.complete hfl hupd
  | finish hr hfin => exact hwf.finish hr hfin
  | abort habort => exact hwf.abort habort
  | discard hne hdrop => exact hwf.discard hdrop

end PyptoServing.Sched
