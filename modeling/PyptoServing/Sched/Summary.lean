import PyptoServing.Memory.PrefixHit
import PyptoServing.Sched.Pass

/-!
# What one `schedule` call does

`PassSummary` is the specification of `schedule` for everything outside the cache: which
requests are preempted, admitted and rejected, what the queues and the request objects
are afterwards, and how each record of the step was sized.
-/
namespace PyptoServing.Sched

open Lib Lib.Fallible Memory Memory.KvCacheManager Pass

/-- A request without optimistic progress. -/
structure Request.Idle (request : Request) : Prop where
  numComputedTokens : request.numComputedTokens = 0
  numOutputPlaceholders : request.numOutputPlaceholders = 0
  terminalPrefillInFlight : request.terminalPrefillInFlight = false

/-- The queues are duplicate free and disjoint, and agree with the request objects. -/
structure Queues (s : Scheduler) : Prop where
  running_nodup : s.running.Nodup
  waiting_nodup : s.waiting.Nodup
  disjoint : ∀ r ∈ s.running, r ∉ s.waiting
  running_status : ∀ r ∈ s.running, (s.object r).status = .running
  waiting_status : ∀ r ∈ s.waiting,
    (s.object r).status = .waiting ∨ (s.object r).status = .preempted
  idle : ∀ r ∈ s.waiting, (s.object r).Idle
  prompt_pos : ∀ r, r ∈ s.running ∨ r ∈ s.waiting → 0 < (s.object r).numPromptTokens

/-- The queues stay in order when they shrink, waiting requests are untouched and the running
ones keep running. -/
theorem Queues.shrink {s s' : Scheduler} (h : Queues s) (hrun : s'.running.Sublist s.running)
    (hwait : s'.waiting.Sublist s.waiting)
    (hrunning : ∀ r ∈ s'.running,
      (s'.object r).status = .running ∧ 0 < (s'.object r).numPromptTokens)
    (hwaiting : ∀ r ∈ s'.waiting, SameRequest (s.object r) (s'.object r)) : Queues s' where
  running_nodup := h.running_nodup.sublist hrun
  waiting_nodup := h.waiting_nodup.sublist hwait
  disjoint x hx hw := h.disjoint x (hrun.subset hx) (hwait.subset hw)
  running_status x hx := (hrunning x hx).1
  waiting_status x hx := by
    rw [(hwaiting x hx).status]
    exact h.waiting_status x (hwait.subset hx)
  idle x hx := by
    have hi := h.idle x (hwait.subset hx)
    have hs := hwaiting x hx
    exact ⟨hs.numComputedTokens.trans hi.numComputedTokens,
      hs.numOutputPlaceholders.trans hi.numOutputPlaceholders,
      hs.terminalPrefillInFlight.trans hi.terminalPrefillInFlight⟩
  prompt_pos x hx := by
    rcases hx with hx | hx
    · exact (hrunning x hx).2
    · rw [(hwaiting x hx).numPromptTokens]
      exact h.prompt_pos x (.inr (hwait.subset hx))

/-- How the share of a request with the counters of `q` was sized. -/
structure Sized (s : Scheduler) (events : List PassEvent) (q : Request) (sr : ScheduledRequest) :
    Prop where
  computed : sr.numComputedTokens = q.numComputedTokens
  isPrefill : sr.isPrefill = q.isPrefill
  pos : 0 < sr.numNewTokens
  noBarrier : q.terminalPrefillInFlight = false
  limited : ∃ budget, PassEvent.grant sr.requestId budget ∈ events ∧
    sr.numNewTokens = s.limitScheduledTokens q budget

theorem Sized.mono {s : Scheduler} {events events' : List PassEvent} {q : Request}
    {sr : ScheduledRequest} (h : Sized s events q sr) (hsub : events ⊆ events') :
    Sized s events' q sr := by
  obtain ⟨budget, hmem, hlim⟩ := h.limited
  exact ⟨h.computed, h.isPrefill, h.pos, h.noBarrier, budget, hsub hmem, hlim⟩

/-- The circumstances in which `v` was preempted to make room for `r`. -/
structure Preemption (s : Scheduler) (v r : RequestId) (before : Scheduler) : Prop where
  victim : before.latestArrival (before.preemptionCandidates r) = some v
  requester : r ∈ before.running
  running : before.running ⊆ s.running
  object : ∀ x ∈ before.running, SameRequest (s.object x) (before.object x)

/-- The most tokens that the tables of `r` are grown for. -/
def Scheduler.growthLimit (s : Scheduler) (r : RequestId) : Nat :=
  (s.object r).numTokens + if r ∈ s.running then s.speculativeTokens (s.object r) else 0

/-- What holds of every event of a pass that starts in `s`. -/
def PassEvent.Sound (s : Scheduler) : PassEvent → Prop
  | .cache (.ensure r n _) => (r ∈ s.running ∨ r ∈ s.waiting) ∧ n ≤ s.growthLimit r
  | .preempt v r before => Preemption s v r before
  | _ => True

def PassEvent.victim? : PassEvent → Option RequestId
  | .preempt v _ _ => some v
  | _ => none

/-- A request that was admitted with `c` tokens computed. -/
def Request.admittedWith (request : Request) (c : Nat) : Request :=
  { request with numComputedTokens := c, status := .running }

/-- A request that was rejected at admission. -/
def Request.rejected (request : Request) : Request :=
  { request with numComputedTokens := 0, status := .finishedAborted }

/-- The running phase after the requests of `done`, with `rest` to come. -/
structure RunningPhase (s : Scheduler) (done rest : List RequestId) (pass : Pass) : Prop where
  split : done ++ rest = s.running
  config : pass.sched.config = s.config
  requests : pass.sched.requests = s.requests
  victims_nodup : pass.output.preemptedRequests.Nodup
  victims_running : ∀ v ∈ pass.output.preemptedRequests, v ∈ s.running
  running : pass.sched.running = s.running.filter (· ∉ pass.output.preemptedRequests)
  waiting : pass.sched.waiting = pass.output.preemptedRequests.reverse ++ s.waiting
  victim : ∀ v ∈ pass.output.preemptedRequests,
    SameRequest (Scheduler.resetVictim (s.object v)) (pass.sched.object v)
  other : ∀ r, r ∉ pass.output.preemptedRequests → SameRequest (s.object r) (pass.sched.object r)
  kept : pass.runningToKeep.filter (· ∉ pass.output.preemptedRequests) =
    done.filter (· ∉ pass.output.preemptedRequests)
  ids : ∀ r, r ∈ pass.scheduledReqIds ↔ r ∈ pass.output.scheduledRequests.map (·.requestId)
  records_nodup : (pass.output.scheduledRequests.map (·.requestId)).Nodup
  records : ∀ sr ∈ pass.output.scheduledRequests, sr.requestId ∈ done ∧
    sr.requestId ∉ pass.output.preemptedRequests ∧
    Sized s pass.events (s.object sr.requestId) sr
  rejected : pass.output.rejectedRequests = ∅
  sound : ∀ ev ∈ pass.events, ev.Sound s
  victims : pass.output.preemptedRequests = pass.events.filterMap PassEvent.victim?

variable {s : Scheduler} {done rest : List RequestId} {pass pass' : Pass} {r v : RequestId}
  {phase : Option Phase}

/-- The limits read the configuration and the core of the request. -/
theorem limitScheduledTokens_congr {s s' : Scheduler} {q q' : Request}
    (hc : s'.config = s.config) (hq : SameRequest q q') (budget : Nat) :
    s'.limitScheduledTokens q' budget = s.limitScheduledTokens q budget := by
  unfold Scheduler.limitScheduledTokens Scheduler.prefillLimit
    Scheduler.requiresSinglePrefillDispatch Scheduler.prefillChunkLimit
  rw [hq.numNewTokensNeeded, hq.isPrefill, hc]

theorem speculativeTokens_congr {s s' : Scheduler} {q q' : Request}
    (hc : s'.config = s.config) (hq : SameRequest q q') :
    s'.speculativeTokens q' = s.speculativeTokens q := by
  rw [Scheduler.speculativeTokens, Scheduler.speculativeTokens, hq.isPrefill, hq.temperature, hc]

theorem limitScheduledTokens_le (s : Scheduler) (q : Request) (budget : Nat) :
    s.limitScheduledTokens q budget ≤ q.numNewTokensNeeded := by
  unfold Scheduler.limitScheduledTokens
  dsimp only
  split
  · split
    · exact Nat.zero_le _
    · exact min_le_left _ _
  · exact min_le_left _ _

/-- A nonempty share ends within the tokens of the request. -/
theorem computed_add_limit_le {s : Scheduler} {q : Request} {budget : Nat}
    (h : 0 < s.limitScheduledTokens q budget) :
    q.numComputedTokens + s.limitScheduledTokens q budget ≤ q.numTokens := by
  have := limitScheduledTokens_le s q budget
  unfold Request.numNewTokensNeeded at this
  omega

/-- An allocation of the running phase, logged when the cache has groups. -/
theorem RunningPhase.allocated {n : Nat} {b : Bool} (h : RunningPhase s done rest pass)
    (ha : pass.allocate r n = .ok (b, pass')) (hr : r ∈ s.running)
    (hn : (pass.sched.object r).numComputedTokens + n ≤ s.growthLimit r) :
    RunningPhase s done rest pass' := by
  obtain ⟨sched, -, -, ha, hev⟩ := allocate_spec ha
  have hnew : ∃ new, pass'.events = pass.events ++ new ∧ (∀ ev ∈ new, ev.Sound s) ∧
      new.filterMap PassEvent.victim? = [] := by
    refine ⟨_, hev, ?_⟩
    split
    · simpa [PassEvent.Sound, PassEvent.victim?] using ⟨.inl hr, hn⟩
    · simp
  obtain ⟨new, hev, hsound, hvict⟩ := hnew
  constructor
  · exact h.split
  · exact ha.core.config.trans h.config
  · exact ha.core.requests.trans h.requests
  · rw [ha.output]; exact h.victims_nodup
  · rw [ha.output]; exact h.victims_running
  · rw [ha.core.running, ha.output]; exact h.running
  · rw [ha.core.waiting, ha.output]; exact h.waiting
  · rw [ha.output]
    exact fun v hv => (h.victim v hv).trans (ha.core.object v)
  · rw [ha.output]
    exact fun r hr => (h.other r hr).trans (ha.core.object r)
  · rw [ha.runningToKeep, ha.output]; exact h.kept
  · rw [ha.scheduledReqIds, ha.output]; exact h.ids
  · rw [ha.output]; exact h.records_nodup
  · rw [ha.output]
    exact fun sr hsr => ⟨(h.records sr hsr).1, (h.records sr hsr).2.1,
      (h.records sr hsr).2.2.mono (by rw [hev]; exact List.subset_append_left _ _)⟩
  · rw [ha.output]; exact h.rejected
  · rw [hev]
    exact fun ev hmem => (List.mem_append.mp hmem).elim (h.sound ev) (hsound ev)
  · rw [ha.output, hev, List.filterMap_append, hvict, List.append_nil]; exact h.victims

theorem RunningPhase.keep (h : RunningPhase s done (r :: rest) pass) :
    RunningPhase s (done ++ [r]) rest (pass.keep r) where
  split := by rw [List.append_assoc]; exact h.split
  config := h.config
  requests := h.requests
  victims_nodup := h.victims_nodup
  victims_running := h.victims_running
  running := h.running
  waiting := h.waiting
  victim := h.victim
  other := h.other
  kept := (List.filter_append ..).trans
    ((congrArg (· ++ _) h.kept).trans (List.filter_append ..).symm)
  ids := h.ids
  records_nodup := h.records_nodup
  records sr hsr := ⟨List.mem_append_left _ (h.records sr hsr).1, (h.records sr hsr).2⟩
  rejected := h.rejected
  sound := h.sound
  victims := h.victims

/-- A request whose turn comes after it was preempted is passed over. -/
theorem RunningPhase.skip (hq : Queues s) (h : RunningPhase s done (r :: rest) pass)
    (hpre : (pass.sched.object r).status = .preempted) :
    RunningPhase s (done ++ [r]) rest pass := by
  have hr : r ∈ s.running := by rw [← h.split]; simp
  have hvictim : r ∈ pass.output.preemptedRequests := by
    by_contra hout
    rw [(h.other r hout).status, hq.running_status r hr] at hpre
    cases hpre
  refine { h with split := ?_, kept := ?_, records := ?_ }
  · rw [List.append_assoc]
    exact h.split
  · rw [List.filter_append, ← h.kept]
    simp [hvictim]
  · exact fun sr hsr => ⟨List.mem_append_left _ (h.records sr hsr).1, (h.records sr hsr).2⟩

/-- No record of a victim is left, whether or not it had one. -/
theorem RunningPhase.mem_records (h : RunningPhase s done rest pass)
    (hp : Preempts pass r v pass') (sr : ScheduledRequest) :
    sr ∈ pass'.output.scheduledRequests ↔
      sr ∈ pass.output.scheduledRequests ∧ sr.requestId ≠ v := by
  rw [hp.scheduled]
  split
  · simp
  · next hno =>
    refine ⟨fun hsr => ⟨hsr, fun hid => hno ?_⟩, fun hsr => hsr.1⟩
    rw [h.ids, ← hid]
    exact List.mem_map_of_mem hsr

theorem SameRequest.resetVictim {q q' : Request} (h : SameRequest q q') :
    SameRequest (Scheduler.resetVictim q) (Scheduler.resetVictim q') :=
  ⟨(congrArg Scheduler.resetVictim h.core :)⟩

/-- The victim starts over, and the other requests keep their counters. -/
theorem Pass.Preempts.object (hp : Preempts pass r v pass') :
    SameRequest (Scheduler.resetVictim (pass.sched.object v)) (pass'.sched.object v) ∧
      ∀ x, x ≠ v → SameRequest (pass.sched.object x) (pass'.sched.object x) := by
  obtain ⟨s₁, hfree, hsched⟩ := hp.sched
  have hcore := Scheduler.freeRequestBlocks_sameCore hfree
  rw [hsched]
  refine ⟨?_, fun x hx => ?_⟩
  · show SameRequest _ ((s₁.modify v Scheduler.resetVictim).object v)
    rw [Scheduler.modify_object_self]
    exact (hcore.object v).resetVictim
  · show SameRequest _ ((s₁.modify v Scheduler.resetVictim).object x)
    rw [Scheduler.modify_object_ne _ _ hx]
    exact hcore.object x

/-- The preemption is logged as it happened. -/
theorem RunningPhase.sound_preempts (h : RunningPhase s done rest pass)
    (hr : r ∈ pass.sched.running) (hp : Preempts pass r v pass') :
    ∀ ev ∈ pass'.events, ev.Sound s := by
  intro ev hev
  rw [hp.events, List.mem_append, List.mem_cons] at hev
  rcases hev with hev | rfl | hev
  · exact h.sound ev hev
  · refine ⟨hp.victim, hr, fun x hx => ?_, fun x hx => ?_⟩
    · rw [h.running] at hx
      exact (List.mem_filter.mp hx).1
    · rw [h.running, List.mem_filter] at hx
      exact h.other x (by simpa using hx.2)
  · unfold releaseEvents at hev
    split at hev
    · rw [List.mem_singleton.mp hev]
      trivial
    · simp at hev

theorem RunningPhase.victims_preempts (h : RunningPhase s done rest pass)
    (hp : Preempts pass r v pass') :
    pass'.output.preemptedRequests = pass'.events.filterMap PassEvent.victim? := by
  have hrel : (releaseEvents (pass.sched.object v) v).filterMap PassEvent.victim? = [] := by
    unfold releaseEvents
    split <;> simp [PassEvent.victim?]
  rw [hp.preempted, hp.events, List.filterMap_append, h.victims]
  simp [PassEvent.victim?, hrel]

/-- Preempting a running request adds it to the victims. -/
theorem RunningPhase.preempts (h : RunningPhase s done rest pass) (hr : r ∈ pass.sched.running)
    (hp : Preempts pass r v pass') : RunningPhase s done rest pass' := by
  have hv := hp.victim_running.1
  rw [h.running, List.mem_filter] at hv
  obtain ⟨hvrun, hvnew⟩ := hv
  replace hvnew : v ∉ pass.output.preemptedRequests := by simpa using hvnew
  have hmem := hp.mem_preempted
  have hrecords := h.mem_records hp
  obtain ⟨hself, hother⟩ := hp.object
  obtain ⟨s₁, hfree, hsched⟩ := hp.sched
  have hcore := Scheduler.freeRequestBlocks_sameCore hfree
  constructor
  · exact h.split
  · rw [hsched]
    exact hcore.config.trans h.config
  · rw [hsched]
    exact hcore.requests.trans h.requests
  · rw [hp.preempted]
    refine h.victims_nodup.append (List.nodup_singleton v) ?_
    simpa using hvnew
  · intro x hx
    rcases (hmem x).mp hx with hx | rfl
    · exact h.victims_running x hx
    · exact hvrun
  · rw [hp.running, hp.filter_preempted, ← h.running]
  · rw [hsched, hp.preempted, List.reverse_append]
    exact congrArg (v :: ·) h.waiting
  · intro x hx
    rcases (hmem x).mp hx with hx | rfl
    · exact (h.victim x hx).trans (hother x fun he => hvnew (he ▸ hx))
    · exact (h.other x hvnew).resetVictim.trans hself
  · intro x hx
    rw [hmem, not_or] at hx
    exact (h.other x hx.1).trans (hother x hx.2)
  · rw [hp.runningToKeep, hp.filter_preempted, hp.filter_preempted, h.kept]
  · intro x
    rw [hp.scheduledReqIds, List.mem_filter, h.ids, List.mem_map, List.mem_map]
    simp only [hrecords, decide_eq_true_eq]
    constructor
    · rintro ⟨⟨sr, hsr, rfl⟩, hne⟩
      exact ⟨sr, ⟨hsr, hne⟩, rfl⟩
    · rintro ⟨sr, ⟨hsr, hne⟩, rfl⟩
      exact ⟨⟨sr, hsr, rfl⟩, hne⟩
  · rw [hp.scheduled]
    split
    · exact h.records_nodup.sublist (List.filter_sublist.map _)
    · exact h.records_nodup
  · intro sr hsr
    obtain ⟨hsr, hne⟩ := (hrecords sr).mp hsr
    obtain ⟨h1, h2, h3⟩ := h.records sr hsr
    refine ⟨h1, fun hx => ?_, h3.mono ?_⟩
    · exact ((hmem _).mp hx).elim h2 hne
    · rw [hp.events]
      exact List.subset_append_left _ _
  · exact hp.rejected.trans h.rejected
  · exact h.sound_preempts hr hp
  · exact h.victims_preempts hp

/-- What a running request's share says about the state at the start of the pass. -/
theorem RunningPhase.share {numNew spec budget : Nat} (h : RunningPhase s done (r :: rest) pass)
    (hs : RunningShare phase pass r numNew spec budget) :
    r ∈ s.running ∧ r ∉ pass.output.preemptedRequests ∧
      SameRequest (s.object r) (pass.sched.object r) ∧
      numNew = s.limitScheduledTokens (s.object r) budget ∧
      (pass.sched.object r).numComputedTokens + (numNew + spec) ≤ s.growthLimit r := by
  have hr : r ∈ s.running := by rw [← h.split]; simp
  have hout : r ∉ pass.output.preemptedRequests := by
    intro hv
    exact hs.notPreempted (h.victim r hv).status
  have hsame := h.other r hout
  have hlim : numNew = s.limitScheduledTokens (s.object r) budget := by
    rw [hs.limited, limitScheduledTokens_congr h.config hsame]
  refine ⟨hr, hout, hsame, hlim, ?_⟩
  have hle := computed_add_limit_le (hlim ▸ hs.pos)
  rw [Scheduler.growthLimit, if_pos hr, hs.spec_eq, speculativeTokens_congr h.config hsame,
    hsame.numComputedTokens, hlim]
  omega

/-- Granting a share moves the request to the done part. -/
theorem RunningPhase.grant {numNew tokens budget : Nat} {isPrefill : Bool}
    (hq : Queues s) (h : RunningPhase s done (r :: rest) pass)
    (hout : r ∉ pass.output.preemptedRequests) (hpos : 0 < numNew)
    (hlim : numNew = s.limitScheduledTokens (s.object r) budget)
    (hpre : isPrefill = (s.object r).isPrefill)
    (hbar : (s.object r).terminalPrefillInFlight = false) :
    RunningPhase s (done ++ [r]) rest (pass.grantRunning r numNew tokens isPrefill budget) := by
  have hnew : r ∉ done := by
    have hnd := hq.running_nodup
    rw [← h.split, List.nodup_append] at hnd
    exact fun hr => hnd.2.2 r hr r (by simp) rfl
  have hk := h.keep
  have hsub : pass.events ⊆ (pass.grantRunning r numNew tokens isPrefill budget).events :=
    List.subset_append_left _ _
  refine { hk with ids := ?_, records_nodup := ?_, records := ?_, sound := ?_, victims := ?_ }
  · intro x
    show x ∈ r :: pass.scheduledReqIds ↔
      x ∈ (pass.output.scheduledRequests ++ [_]).map ScheduledRequest.requestId
    rw [List.mem_cons, h.ids, List.map_append, List.mem_append]
    simp [Pass.scheduledRequest, or_comm]
  · show ((pass.output.scheduledRequests ++ [_]).map ScheduledRequest.requestId).Nodup
    rw [List.map_append, List.nodup_append]
    refine ⟨h.records_nodup, by simp, fun a ha b hb hab => ?_⟩
    obtain ⟨sr, hsr, rfl⟩ := List.mem_map.mp ha
    simp only [Pass.scheduledRequest, List.map_cons, List.map_nil, List.mem_singleton] at hb
    exact hnew (hb ▸ hab ▸ (h.records sr hsr).1)
  · intro sr hsr
    rcases List.mem_append.mp hsr with hsr | hsr
    · obtain ⟨h1, h2, h3⟩ := h.records sr hsr
      exact ⟨List.mem_append_left _ h1, h2, h3.mono hsub⟩
    · rw [List.mem_singleton.mp hsr]
      refine ⟨by simp [Pass.scheduledRequest], hout, ?_⟩
      exact ⟨(h.other r hout).numComputedTokens, hpre, hpos, hbar, budget, by
        simp [Pass.grantRunning, Pass.scheduledRequest], hlim⟩
  · intro ev hev
    rcases List.mem_append.mp hev with hev | hev
    · exact h.sound ev hev
    · rw [List.mem_singleton.mp hev]
      trivial
  · show _ = (pass.events ++ [_]).filterMap PassEvent.victim?
    rw [List.filterMap_append, ← h.victims]
    exact (List.append_nil _).symm

/-- A request with a share was not preempted before its turn. -/
theorem RunningPhase.running_of_share {numNew spec budget : Nat}
    (h : RunningPhase s done (r :: rest) pass) (hs : RunningShare phase pass r numNew spec budget) :
    r ∈ pass.sched.running := by
  obtain ⟨hr, hout, -⟩ := h.share hs
  rw [h.running, List.mem_filter]
  exact ⟨hr, decide_eq_true hout⟩

/-- One turn of the running phase. -/
theorem RunningPhase.turn (hq : Queues s) (h : RunningPhase s done (r :: rest) pass)
    (ht : RunningTurn phase pass r pass') : RunningPhase s (done ++ [r]) rest pass' := by
  cases ht with
  | skip hpre => exact h.skip hq hpre
  | keep => exact h.keep
  | grant hs ha =>
    obtain ⟨hr, hout, hsame, hlim, hgrow⟩ := h.share hs
    have h₁ := h.allocated ha hr hgrow
    refine h₁.grant hq ?_ hs.pos hlim hsame.isPrefill ?_
    · rwa [(allocate_allocated ha).output]
    · rw [← hsame.terminalPrefillInFlight]
      exact hs.noBarrier
  | short hs ha _ =>
    obtain ⟨hr, hout, hsame, hlim, hgrow⟩ := h.share hs
    exact (h.allocated ha hr hgrow).keep
  | @preempt numNew spec p₁ p₂ p₃ b hs ha hp ha' =>
    obtain ⟨hr, hout, hsame, hlim, hgrow⟩ := h.share hs
    have h₁ := h.allocated ha hr hgrow
    have hc₁ := allocate_allocated ha
    have hr₁ : r ∈ p₁.sched.running := by
      rw [hc₁.core.running]
      exact h.running_of_share hs
    obtain ⟨v, hp⟩ := preemptLowestPriority_spec hp
    have h₂ := h₁.preempts hr₁ hp
    have hvr := hp.victim_running.2
    have hout₂ : r ∉ p₂.output.preemptedRequests := by
      rw [hp.preempted, hc₁.output, List.mem_append, List.mem_singleton, not_or]
      exact ⟨hout, fun hrv => hvr hrv.symm⟩
    have h₃ := h₂.allocated ha' hr (by
      rw [(h₂.other r hout₂).numComputedTokens, ← hsame.numComputedTokens]
      exact hgrow)
    cases b with
    | false => exact h₃.keep
    | true =>
      refine h₃.grant hq ?_ hs.pos hlim hsame.isPrefill ?_
      · rwa [(allocate_allocated ha').output]
      · rw [← hsame.terminalPrefillInFlight]
        exact hs.noBarrier

/-- Choosing the phase only rotates the preference. -/
theorem Scheduler.groupedCachePhase_snd (s : Scheduler) :
    ∃ ph, s.groupedCachePhase.2 = { s with nextGroupedCachePhase := ph } := by
  unfold Scheduler.groupedCachePhase
  split
  · exact ⟨s.nextGroupedCachePhase, rfl⟩
  · dsimp only
    split
    · exact ⟨s.nextGroupedCachePhase, rfl⟩
    · exact ⟨_, rfl⟩

/-- The start of the pass. -/
theorem RunningPhase.start (s : Scheduler) : RunningPhase s [] s.running s.startPass := by
  obtain ⟨ph, hph⟩ := s.groupedCachePhase_snd
  rw [Scheduler.startPass, hph]
  constructor <;> first | rfl | simp [SameRequest.refl]

/-- The snapshot's requests that were not preempted stay running. -/
theorem RunningPhase.closed (hq : Queues s) (h : RunningPhase s s.running [] pass) :
    pass.closeRunning.sched.running = s.running.filter (· ∉ pass.output.preemptedRequests) := by
  rw [← h.kept]
  refine List.filter_congr fun r hr => ?_
  by_cases hv : r ∈ pass.output.preemptedRequests
  · simp [hv, (h.victim r hv).status, Scheduler.resetVictim]
  · have hmem : r ∈ s.running := by
      have : r ∈ pass.runningToKeep.filter (· ∉ pass.output.preemptedRequests) := by
        simp [hr, hv]
      rw [h.kept] at this
      exact (List.mem_filter.mp this).1
    simp [hv, (h.other r hv).status, hq.running_status r hmem]

/-- The request as it is looked at when its lookup covered `c` tokens. -/
def Request.resumedAt (request : Request) (c : Nat) : Request :=
  { request with numComputedTokens := c }

/-- Part of a waiting request's turn: its computed tokens become `c`, and besides the cache
only the log changes. -/
structure WaitingStep (s : Scheduler) (pass : Pass) (r : RequestId) (c : Nat) (pass' : Pass) :
    Prop where
  core : SameCore (pass.sched.modify r (·.resumedAt c)) pass'.sched
  output : pass'.output = pass.output
  tokenBudget : pass'.tokenBudget = pass.tokenBudget
  events : ∃ new, pass'.events = pass.events ++ new ∧ (∀ ev ∈ new, ev.Sound s) ∧
    new.filterMap PassEvent.victim? = []

namespace WaitingStep
variable {c c' : Nat} {p₁ p₂ p₃ : Pass}

theorem object (h : WaitingStep s pass r c pass') :
    SameRequest ((pass.sched.object r).resumedAt c) (pass'.sched.object r) := by
  have := h.core.object r
  rwa [Scheduler.modify_object_self] at this

theorem other {r' : RequestId} (h : WaitingStep s pass r c pass') (hr : r' ≠ r) :
    SameRequest (pass.sched.object r') (pass'.sched.object r') := by
  have := h.core.object r'
  rwa [Scheduler.modify_object_ne _ _ hr] at this

theorem trans (h : WaitingStep s p₁ r c p₂) (h' : WaitingStep s p₂ r c' p₃) :
    WaitingStep s p₁ r c' p₃ := by
  obtain ⟨new, hnew, hs, hv⟩ := h.events
  obtain ⟨new', hnew', hs', hv'⟩ := h'.events
  refine ⟨⟨h'.core.config.trans h.core.config, fun r' => ?_, h'.core.waiting.trans h.core.waiting,
    h'.core.running.trans h.core.running, h'.core.requests.trans h.core.requests,
    h'.core.phase.trans h.core.phase⟩, h'.output.trans h.output,
    h'.tokenBudget.trans h.tokenBudget, new ++ new', ?_, ?_, ?_⟩
  · by_cases hr : r' = r
    · subst hr
      rw [Scheduler.modify_object_self]
      have hc := congrArg (fun q : Request => q.resumedAt c') h.object.core
      have ho : SameRequest ((p₂.sched.object r').resumedAt c') _ := h'.object
      refine .trans ?_ ho
      exact ⟨hc⟩
    · rw [Scheduler.modify_object_ne _ _ hr]
      exact (h.other hr).trans (h'.other hr)
  · rw [hnew', hnew, List.append_assoc]
  · exact fun ev hev => (List.mem_append.mp hev).elim (hs ev) (hs' ev)
  · rw [List.filterMap_append, hv, hv', List.append_nil]

/-- An allocation leaves the computed tokens as they are. -/
theorem of_allocate {n : Nat} {b : Bool} (h : pass.allocate r n = .ok (b, pass'))
    (hr : r ∈ s.waiting) (hn : (pass.sched.object r).numComputedTokens + n ≤ s.growthLimit r) :
    WaitingStep s pass r (pass.sched.object r).numComputedTokens pass' := by
  obtain ⟨sched, -, -, ha, hev⟩ := allocate_spec h
  refine ⟨⟨ha.core.config, fun r' => ?_, ha.core.waiting, ha.core.running, ha.core.requests,
    ha.core.phase⟩, ha.output, ha.tokenBudget, _, hev, ?_⟩
  · rw [Scheduler.modify_object]
    split
    · next h' =>
      subst h'
      exact ha.core.object r'
    · exact ha.core.object r'
  · split
    · simpa [PassEvent.Sound, PassEvent.victim?] using ⟨.inr hr, hn⟩
    · simp

theorem of_release (h : pass.releaseWaiting r = .ok pass') : WaitingStep s pass r 0 pass' := by
  unfold releaseWaiting at h
  obtain ⟨sched, hrel, h⟩ := bind_eq_ok.mp h
  cases h
  refine ⟨Scheduler.releaseWaitingPrefixBlocks_spec hrel, rfl, rfl, _, rfl, ?_⟩
  unfold releaseEvents
  split <;> simp [PassEvent.Sound, PassEvent.victim?]

/-- The lookup covers at most all prompt tokens but the last. -/
theorem of_lookup (h : pass.lookupPrefix r = .ok pass')
    (hidle : (pass.sched.object r).numComputedTokens = 0) :
    ∃ c ≤ (pass.sched.object r).numPromptTokens - 1, WaitingStep s pass r c pass' := by
  have hself : ∀ s' : Scheduler, SameCore pass.sched s' →
      SameCore (pass.sched.modify r (·.resumedAt 0)) s' := by
    intro s' hs'
    refine ⟨hs'.config, fun r' => ?_, hs'.waiting, hs'.running, hs'.requests, hs'.phase⟩
    rw [Scheduler.modify_object]
    split
    · next h' =>
      subst h'
      have : (pass.sched.object r').resumedAt 0 = pass.sched.object r' := by
        rw [Request.resumedAt, ← hidle]
      rw [this]
      exact hs'.object r'
    · exact hs'.object r'
  unfold lookupPrefix at h
  dsimp only at h
  split at h
  · cases h
    exact ⟨0, Nat.zero_le _, hself _ (.refl _), rfl, rfl, [], by simp, by simp, rfl⟩
  · split at h
    · obtain ⟨⟨⟨tables, hit, partition⟩, kv'⟩, hacq, h⟩ := bind_eq_ok.mp h
      cases h
      have hle := KvCacheManager.acquire_hit_le hacq
      refine ⟨hit, hle, ?_, rfl, rfl, _, rfl, ?_, rfl⟩
      · dsimp only [Pass.log]
        apply SameCore.of_modify_both pass.sched kv' r
        exact ⟨rfl⟩
      · simp [PassEvent.Sound]
    · split at h
      · cases h
        exact ⟨0, Nat.zero_le _, hself _ (.of_cache _ _), rfl, rfl, [], by simp, by simp, rfl⟩
      · cases h
        refine ⟨_, getComputedBlocks_le pass.sched.kvCacheManager _, ?_, rfl, rfl, [], by simp,
          by simp, rfl⟩
        dsimp only
        apply SameCore.of_modify_both pass.sched _ r
        rw [getComputedBlocks_blockSize]
        exact ⟨rfl⟩

end WaitingStep

theorem singlePrefillRejection_congr {s s' : Scheduler} {q q' : Request}
    (hc : s'.config = s.config) (hq : SameRequest q q') :
    s'.singlePrefillRejection q' = s.singlePrefillRejection q := by
  unfold Scheduler.singlePrefillRejection Scheduler.singlePrefillDispatchLimit
    Scheduler.requiresSinglePrefillDispatch Scheduler.prefillChunkLimit
  rw [hq.numPromptTokens, hq.numComputedTokens, hq.requestId, hc]

/-- A request that waits for its turn, as it was at the start of the pass. -/
structure Waits (s : Scheduler) (pass : Pass) (r : RequestId) : Prop where
  waiting : r ∈ s.waiting
  idle : (s.object r).Idle
  prompt_pos : 0 < (s.object r).numPromptTokens
  notRunning : r ∉ s.running
  config : pass.sched.config = s.config
  same : SameRequest (s.object r) (pass.sched.object r)

/-- An admission with `c` tokens covered by the lookup and a share of `n`. -/
structure Admission (s : Scheduler) (pass : Pass) (r : RequestId) (c n : Nat) (pass' : Pass) :
    Prop where
  step : WaitingStep s pass r c pass'
  covered : c < (s.object r).numPromptTokens
  pos : 0 < n
  share : n = s.limitScheduledTokens ((s.object r).resumedAt c) pass.tokenBudget

/-- The results of a waiting request's turn. -/
inductive WaitingResult (s : Scheduler) (pass : Pass) (r : RequestId) :
    WaitingOutcome → Pass → Prop
  | admitted {c n : Nat} {p₁ : Pass} : Admission s pass r c n p₁ →
      WaitingResult s pass r .admitted (p₁.launch r n)
  | rejected {c : Nat} {reason : String} {p₁ : Pass} : c < (s.object r).numPromptTokens →
      s.singlePrefillRejection ((s.object r).resumedAt c) = some reason →
      WaitingStep s pass r 0 p₁ → WaitingResult s pass r .rejected (p₁.reject r reason)
  | kept {outcome : WaitingOutcome} {p₁ : Pass} : outcome.left r = [r] →
      WaitingStep s pass r 0 p₁ → WaitingResult s pass r outcome p₁

namespace Waits
variable {c n : Nat} {p₁ p₂ p₃ : Pass} {b : Bool}

theorem lookup (hw : Waits s pass r) (h : pass.lookupPrefix r = .ok p₁) :
    ∃ c < (s.object r).numPromptTokens, WaitingStep s pass r c p₁ := by
  have hidle : (pass.sched.object r).numComputedTokens = 0 :=
    hw.same.numComputedTokens.trans hw.idle.numComputedTokens
  obtain ⟨c, hc, hstep⟩ := WaitingStep.of_lookup (s := s) h hidle
  rw [hw.same.numPromptTokens] at hc
  exact ⟨c, by have := hw.prompt_pos; omega, hstep⟩

/-- The object after a part of the turn, seen from the start of the pass. -/
theorem object (hw : Waits s pass r) (h : WaitingStep s pass r c p₁) :
    SameRequest ((s.object r).resumedAt c) (p₁.sched.object r) := by
  have hc := congrArg (fun q : Request => q.resumedAt c) hw.same.core
  have ho : SameRequest ((pass.sched.object r).resumedAt c) _ := h.object
  refine .trans ?_ ho
  exact ⟨hc⟩

theorem step_config (hw : Waits s pass r) (h : WaitingStep s pass r c p₁) :
    p₁.sched.config = s.config :=
  h.core.config.trans hw.config

theorem step_limit (hw : Waits s pass r) (h : WaitingStep s pass r c p₁) :
    p₁.sched.limitScheduledTokens (p₁.sched.object r) p₁.tokenBudget =
      s.limitScheduledTokens ((s.object r).resumedAt c) pass.tokenBudget := by
  rw [h.tokenBudget]
  exact limitScheduledTokens_congr (hw.step_config h) (hw.object h) _

/-- A waiting request's tables are grown within its tokens. -/
theorem allocate (hw : Waits s pass r) (h : WaitingStep s pass r c p₁)
    (hpos : 0 < s.limitScheduledTokens ((s.object r).resumedAt c) pass.tokenBudget)
    (ha : p₁.allocate r (s.limitScheduledTokens ((s.object r).resumedAt c) pass.tokenBudget) =
      .ok (b, p₂)) : WaitingStep s pass r c p₂ := by
  have hcomp : (p₁.sched.object r).numComputedTokens = c := (hw.object h).numComputedTokens
  have hle : c + s.limitScheduledTokens ((s.object r).resumedAt c) pass.tokenBudget ≤
      (s.object r).numTokens := computed_add_limit_le hpos
  have hstep := WaitingStep.of_allocate ha hw.waiting (by
    rw [hcomp, Scheduler.growthLimit, if_neg hw.notRunning]
    exact hle)
  rw [hcomp] at hstep
  exact h.trans hstep

/-- Every turn of a waiting request has one of the three results. -/
theorem result {outcome : WaitingOutcome} (hw : Waits s pass r)
    (ht : WaitingTurn pass r outcome pass') : WaitingResult s pass r outcome pass' := by
  -- The lookup leaves a token uncached, so the full-hit offer does not occur.
  have offer : ∀ {c p₁ p₂ n}, c < (s.object r).numPromptTokens → WaitingStep s pass r c p₁ →
      WaitingOffer p₁ r p₂ n → p₂ = p₁ ∧ 0 < n ∧
        n = s.limitScheduledTokens ((s.object r).resumedAt c) pass.tokenBudget := by
    intro c p₁ p₂ n hc hstep hoff
    cases hoff with
    | share hpos => exact ⟨rfl, hpos, hw.step_limit hstep⟩
    | lastToken _ hfull =>
      rw [(hw.object hstep).numPromptTokens, (hw.object hstep).numComputedTokens] at hfull
      exact absurd hc (not_lt.mpr hfull)
  cases ht with
  | reject hl hreason hrel =>
    obtain ⟨c, hc, hstep⟩ := hw.lookup hl
    rw [singlePrefillRejection_congr (hw.step_config hstep) (hw.object hstep)] at hreason
    exact .rejected hc hreason (hstep.trans (.of_release hrel))
  | defer hl _ _ _ hrel =>
    obtain ⟨c, hc, hstep⟩ := hw.lookup hl
    exact .kept rfl (hstep.trans (.of_release hrel))
  | block hl _ hoff halloc hrel =>
    obtain ⟨c, hc, hstep⟩ := hw.lookup hl
    obtain ⟨rfl, hpos, rfl⟩ := offer hc hstep hoff
    suffices ∃ c', WaitingStep s pass r c' _ from
      let ⟨_, h⟩ := this; .kept rfl (h.trans (.of_release hrel))
    cases halloc with
    | direct ha _ => exact ⟨c, hw.allocate hstep hpos ha⟩
    | noShare _ ha hrel' => exact ⟨0, (hw.allocate hstep hpos ha).trans (.of_release hrel')⟩
    | cold _ ha hrel' hpos' ha' =>
      have h0 := (hw.allocate hstep hpos ha).trans (.of_release hrel')
      rw [hw.step_limit h0] at hpos' ha'
      exact ⟨0, hw.allocate h0 hpos' ha'⟩
  | launch hl _ hoff halloc =>
    obtain ⟨c, hc, hstep⟩ := hw.lookup hl
    obtain ⟨rfl, hpos, rfl⟩ := offer hc hstep hoff
    cases halloc with
    | direct ha _ => exact .admitted ⟨hw.allocate hstep hpos ha, hc, hpos, rfl⟩
    | cold _ ha hrel' hpos' ha' =>
      have h0 := (hw.allocate hstep hpos ha).trans (.of_release hrel')
      rw [hw.step_limit h0] at hpos' ha'
      rw [if_pos rfl, hw.step_limit h0]
      exact .admitted ⟨hw.allocate h0 hpos' ha', hw.prompt_pos, hpos', rfl⟩

end Waits

/-- What a pass from `s` has done: `victims` were preempted, `admitted` and `rejected` left
the waiting queue, and the other requests are as before. -/
structure PassSummary (s : Scheduler) (admitted rejected : List RequestId) (pass : Pass) :
    Prop where
  config : pass.sched.config = s.config
  requests : pass.sched.requests = s.requests.filter (· ∉ rejected)
  running : pass.sched.running =
    s.running.filter (· ∉ pass.output.preemptedRequests) ++ admitted
  admitted_waiting : ∀ r ∈ admitted, r ∈ s.waiting
  rejected_waiting : ∀ r ∈ rejected, r ∈ s.waiting
  admitted_nodup : admitted.Nodup
  rejected_nodup : rejected.Nodup
  disjoint : ∀ r ∈ admitted, r ∉ rejected
  victims_nodup : pass.output.preemptedRequests.Nodup
  victims_running : ∀ v ∈ pass.output.preemptedRequests, v ∈ s.running
  victim : ∀ v ∈ pass.output.preemptedRequests,
    SameRequest (Scheduler.resetVictim (s.object v)) (pass.sched.object v)
  rejection : ∀ r ∈ rejected, SameRequest (s.object r).rejected (pass.sched.object r) ∧
    ∃ c < (s.object r).numPromptTokens, ∃ reason,
      s.singlePrefillRejection ((s.object r).resumedAt c) = some reason
  other : ∀ r, r ∉ pass.output.preemptedRequests → r ∉ admitted → r ∉ rejected →
    SameRequest (s.object r) (pass.sched.object r)
  records_nodup : (pass.output.scheduledRequests.map (·.requestId)).Nodup
  admitted_records : ∀ r ∈ admitted, r ∈ pass.output.scheduledRequests.map (·.requestId)
  records : ∀ sr ∈ pass.output.scheduledRequests,
    (sr.requestId ∈ s.running ∧ sr.requestId ∉ pass.output.preemptedRequests ∧
      Sized s pass.events (s.object sr.requestId) sr) ∨
    (sr.requestId ∈ admitted ∧ ∃ c < (s.object sr.requestId).numPromptTokens,
      Sized s pass.events ((s.object sr.requestId).resumedAt c) sr ∧
      SameRequest ((s.object sr.requestId).admittedWith c) (pass.sched.object sr.requestId))
  rejectedIds : ∀ r, r ∈ pass.output.rejectedRequests.keys ↔ r ∈ rejected
  sound : ∀ ev ∈ pass.events, ev.Sound s
  victims : pass.output.preemptedRequests = pass.events.filterMap PassEvent.victim?

/-- The waiting phase, with `remaining` and `queue` still waiting. -/
structure WaitingPhase (s : Scheduler) (admitted rejected remaining queue : List RequestId)
    (pass : Pass) : Prop extends PassSummary s admitted rejected pass where
  perm : (remaining ++ queue ++ (admitted ++ rejected)).Perm
    (pass.output.preemptedRequests.reverse ++ s.waiting)

/-- The waiting phase starts where the running phase ends. -/
theorem RunningPhase.waitingPhase (hq : Queues s) (h : RunningPhase s s.running [] pass) :
    WaitingPhase s [] [] [] pass.sched.waiting pass.closeRunning where
  config := h.config
  requests := by
    rw [show pass.closeRunning.sched.requests = pass.sched.requests from rfl, h.requests]
    simp
  running := by
    rw [h.closed hq, List.append_nil]
    rfl
  admitted_waiting := by simp
  rejected_waiting := by simp
  admitted_nodup := List.nodup_nil
  rejected_nodup := List.nodup_nil
  disjoint := by simp
  victims_nodup := h.victims_nodup
  victims_running := h.victims_running
  victim := h.victim
  rejection := by simp
  other r hr _ _ := h.other r hr
  records_nodup := h.records_nodup
  admitted_records := by simp
  records sr hsr := .inl (h.records sr hsr)
  rejectedIds r := by
    rw [show pass.closeRunning.output.rejectedRequests = ∅ from h.rejected]
    simp
  sound := h.sound
  victims := h.victims
  perm := by
    rw [h.waiting]
    simp [closeRunning]

namespace WaitingPhase
variable {admitted rejected remaining queue : List RequestId}

/-- The next request of the queue, when it is not a victim of this pass. -/
theorem waits (hq : Queues s) (h : WaitingPhase s admitted rejected remaining (r :: queue) pass)
    (hr : r ∉ pass.output.preemptedRequests) :
    Waits s pass r ∧ r ∉ admitted ∧ r ∉ rejected := by
  have hnd : (pass.output.preemptedRequests.reverse ++ s.waiting).Nodup := by
    refine (List.nodup_reverse.mpr h.victims_nodup).append hq.waiting_nodup ?_
    intro x hx hw
    exact hq.disjoint x (h.victims_running x (List.mem_reverse.mp hx)) hw
  have hmem : r ∈ s.waiting := by
    have : r ∈ pass.output.preemptedRequests.reverse ++ s.waiting :=
      h.perm.subset (by simp)
    simpa [hr] using this
  have hnot : r ∉ admitted ++ rejected := by
    have := h.perm.nodup_iff.mpr hnd
    rw [List.nodup_append] at this
    exact fun hx => this.2.2 r (by simp) r hx rfl
  rw [List.mem_append, not_or] at hnot
  exact ⟨⟨hmem, hq.idle r hmem, hq.prompt_pos r (.inr hmem), fun hrun => hq.disjoint r hrun hmem,
    h.config, h.other r hr hnot.1 hnot.2⟩, hnot.1, hnot.2⟩

/-- A step that leaves the request idle changes nothing here. -/
theorem keeps (hw : Waits s pass r) (hnew : r ∉ pass.output.preemptedRequests)
    (hna : r ∉ admitted) (hnr : r ∉ rejected)
    (h : WaitingPhase s admitted rejected remaining queue pass)
    (hstep : WaitingStep s pass r 0 pass') :
    WaitingPhase s admitted rejected remaining queue pass' := by
  obtain ⟨new, hev, hsound, hvict⟩ := hstep.events
  have hother : ∀ x, x ≠ r → SameRequest (pass.sched.object x) (pass'.sched.object x) :=
    fun x hx => hstep.other hx
  have hself : SameRequest (s.object r) (pass'.sched.object r) := by
    have := hw.object hstep
    rwa [show (s.object r).resumedAt 0 = s.object r by
      rw [Request.resumedAt, ← hw.idle.numComputedTokens]] at this
  constructor
  · constructor
    · exact hw.step_config hstep
    · exact hstep.core.requests.trans h.requests
    · rw [hstep.output]
      exact hstep.core.running.trans h.running
    · exact h.admitted_waiting
    · exact h.rejected_waiting
    · exact h.admitted_nodup
    · exact h.rejected_nodup
    · exact h.disjoint
    · rw [hstep.output]; exact h.victims_nodup
    · rw [hstep.output]; exact h.victims_running
    · rw [hstep.output]
      exact fun v hv => (h.victim v hv).trans (hother v fun hvr => hnew (hvr ▸ hv))
    · exact fun x hx => ⟨(h.rejection x hx).1.trans (hother x fun hxr => hnr (hxr ▸ hx)),
        (h.rejection x hx).2⟩
    · rw [hstep.output]
      intro x hx hxa hxr
      by_cases hxe : x = r
      · rw [hxe]
        exact hself
      · exact (h.other x hx hxa hxr).trans (hother x hxe)
    · rw [hstep.output]; exact h.records_nodup
    · rw [hstep.output]; exact h.admitted_records
    · rw [hstep.output, hev]
      intro sr hsr
      rcases h.records sr hsr with ⟨h1, h2, h3⟩ | ⟨h1, c, hc, h2, h3⟩
      · exact .inl ⟨h1, h2, h3.mono (List.subset_append_left _ _)⟩
      · exact .inr ⟨h1, c, hc, h2.mono (List.subset_append_left _ _),
          h3.trans (hother _ fun he => hna (he ▸ h1))⟩
    · rw [hstep.output]; exact h.rejectedIds
    · rw [hev]
      exact fun ev hmem => (List.mem_append.mp hmem).elim (h.sound ev) (hsound ev)
    · rw [hstep.output, hev, List.filterMap_append, hvict, List.append_nil]; exact h.victims
  · rw [hstep.output]
    exact h.perm

theorem not_running (hq : Queues s)
    (h : WaitingPhase s admitted rejected remaining (r :: queue) pass)
    (hr : r ∉ pass.output.preemptedRequests) : r ∉ pass.sched.running := by
  obtain ⟨hw, hna, -⟩ := h.waits hq hr
  rw [h.running, List.mem_append, List.mem_filter, not_or]
  exact ⟨fun hrun => hw.notRunning hrun.1, hna⟩

/-- The request of a turn moves from the queue to those that left it. -/
theorem perm_turn {admitted' rejected' : List RequestId}
    (h : WaitingPhase s admitted rejected remaining (r :: queue) pass)
    (hleft : ∀ x, (admitted' ++ rejected').count x = (r :: (admitted ++ rejected)).count x) :
    (remaining ++ queue ++ (admitted' ++ rejected')).Perm
      (pass.output.preemptedRequests.reverse ++ s.waiting) := by
  refine List.Perm.trans (List.perm_iff_count.mpr fun x => ?_) h.perm
  have := hleft x
  simp only [List.count_append, List.count_cons] at this ⊢
  omega

/-- An admission adds the grant of its record to the log. -/
theorem launch_log {c n : Nat} {p₁ : Pass} (ha : Admission s pass r c n p₁) :
    ∃ new, (p₁.launch r n).events = pass.events ++ new ∧ (∀ ev ∈ new, ev.Sound s) ∧
      new.filterMap PassEvent.victim? = [] ∧ PassEvent.grant r pass.tokenBudget ∈ new := by
  obtain ⟨new, hev, hsound, hvict⟩ := ha.step.events
  refine ⟨new ++ [.grant r pass.tokenBudget], ?_, fun ev hmem => ?_, ?_, by simp⟩
  · rw [launch_events, hev, ha.step.tokenBudget, List.append_assoc]
  · rw [List.mem_append, List.mem_singleton] at hmem
    rcases hmem with hmem | rfl
    · exact hsound ev hmem
    · trivial
  · rw [List.filterMap_append, hvict]
    rfl

/-- The record of an admitted request is sized by its share. -/
theorem launch_sized {c n : Nat} {p₁ : Pass} (hw : Waits s pass r)
    (ha : Admission s pass r c n p₁) :
    SameRequest ((s.object r).admittedWith c) ((p₁.launch r n).sched.object r) ∧
      Sized s (p₁.launch r n).events ((s.object r).resumedAt c)
        ((p₁.launch r n).scheduledRequest r n true) := by
  obtain ⟨new, hev, -, -, hgrant⟩ := launch_log ha
  have hself : SameRequest ((s.object r).admittedWith c) ((p₁.launch r n).sched.object r) := by
    rw [launch_object_self]
    have hc := congrArg (fun q : Request => { q with status := .running }) (hw.object ha.step).core
    exact ⟨hc⟩
  refine ⟨hself, hself.numComputedTokens, ?_, ha.pos, hw.idle.terminalPrefillInFlight,
    pass.tokenBudget, ?_, ha.share⟩
  · exact (decide_eq_true ha.covered).symm
  · rw [hev]
    exact List.mem_append_right _ hgrant

/-- Admitting the next request of the queue. -/
theorem admits {c n : Nat} {p₁ : Pass} (hq : Queues s)
    (h : WaitingPhase s admitted rejected remaining (r :: queue) pass)
    (hnew : r ∉ pass.output.preemptedRequests) (ha : Admission s pass r c n p₁) :
    WaitingPhase s (admitted ++ [r]) rejected remaining queue (p₁.launch r n) := by
  obtain ⟨hw, hna, hnr⟩ := h.waits hq hnew
  obtain ⟨new, hev, hsound, hvict, -⟩ := launch_log ha
  obtain ⟨hself, hsized⟩ := launch_sized hw ha
  have hout := ha.step.output
  have hother : ∀ x, x ≠ r → SameRequest (pass.sched.object x) ((p₁.launch r n).sched.object x) := by
    intro x hx
    rw [launch_object_ne _ _ hx]
    exact ha.step.other hx
  have hrecords : (p₁.launch r n).output.scheduledRequests = pass.output.scheduledRequests ++
      [(p₁.launch r n).scheduledRequest r n true] := by
    rw [launch_scheduledRequests, hout]
  have hpre : (p₁.launch r n).output.preemptedRequests = pass.output.preemptedRequests := by
    rw [launch_preemptedRequests, hout]
  have hfresh : r ∉ pass.output.scheduledRequests.map (·.requestId) := by
    intro hmem
    obtain ⟨sr, hsr, rfl⟩ := List.mem_map.mp hmem
    rcases h.records sr hsr with ⟨hrun, -⟩ | ⟨hadm, -⟩
    · exact hw.notRunning hrun
    · exact hna hadm
  have hsub : pass.events ⊆ (p₁.launch r n).events := by
    rw [hev]
    exact List.subset_append_left _ _
  constructor
  · constructor
    · rw [launch_config]
      exact hw.step_config ha.step
    · rw [launch_requests]
      exact ha.step.core.requests.trans h.requests
    · rw [hpre, ← List.append_assoc, ← h.running, launch_running]
      exact congrArg (· ++ [r]) ha.step.core.running
    · exact List.forall_mem_append.mpr ⟨h.admitted_waiting, List.forall_mem_singleton.mpr hw.waiting⟩
    · exact h.rejected_waiting
    · exact h.admitted_nodup.append (List.nodup_singleton r) (by simpa using hna)
    · exact h.rejected_nodup
    · exact List.forall_mem_append.mpr ⟨h.disjoint, List.forall_mem_singleton.mpr hnr⟩
    · rw [hpre]; exact h.victims_nodup
    · rw [hpre]; exact h.victims_running
    · rw [hpre]
      exact fun v hv => (h.victim v hv).trans (hother v fun hvr => hnew (hvr ▸ hv))
    · exact fun x hx => ⟨(h.rejection x hx).1.trans (hother x fun hxr => hnr (hxr ▸ hx)),
        (h.rejection x hx).2⟩
    · rw [hpre]
      intro x hx hxa hxr
      rw [List.mem_append, List.mem_singleton, not_or] at hxa
      exact (h.other x hx hxa.1 hxr).trans (hother x hxa.2)
    · rw [hrecords, List.map_append]
      exact h.records_nodup.append (List.nodup_singleton _) (by
        simpa [Pass.scheduledRequest] using hfresh)
    · intro x hx
      rw [hrecords, List.map_append, List.mem_append]
      rcases List.mem_append.mp hx with hx | hx
      · exact .inl (h.admitted_records x hx)
      · exact .inr hx
    · rw [hrecords, hpre]
      refine List.forall_mem_append.mpr ⟨fun sr hsr => ?_, List.forall_mem_singleton.mpr ?_⟩
      · rcases h.records sr hsr with ⟨h1, h2, h3⟩ | ⟨h1, c', hc', h2, h3⟩
        · exact .inl ⟨h1, h2, h3.mono hsub⟩
        · exact .inr ⟨List.mem_append_left _ h1, c', hc', h2.mono hsub,
            h3.trans (hother _ fun he => hna (he ▸ h1))⟩
      · exact .inr ⟨by simp [Pass.scheduledRequest], c, ha.covered, hsized, hself⟩
    · rw [launch_rejectedRequests, hout]
      exact h.rejectedIds
    · rw [hev]
      exact fun ev hmem => (List.mem_append.mp hmem).elim (h.sound ev) (hsound ev)
    · rw [hpre, hev, List.filterMap_append, hvict, List.append_nil]
      exact h.victims
  · rw [hpre]
    refine h.perm_turn fun x => ?_
    simp only [List.count_append, List.count_cons, List.count_nil]
    omega

/-- Rejecting the next request of the queue. -/
theorem rejects {c : Nat} {reason : String} {p₁ : Pass} (hq : Queues s)
    (h : WaitingPhase s admitted rejected remaining (r :: queue) pass)
    (hnew : r ∉ pass.output.preemptedRequests) (hc : c < (s.object r).numPromptTokens)
    (hreason : s.singlePrefillRejection ((s.object r).resumedAt c) = some reason)
    (hstep : WaitingStep s pass r 0 p₁) :
    WaitingPhase s admitted (rejected ++ [r]) remaining queue (p₁.reject r reason) := by
  obtain ⟨hw, hna, hnr⟩ := h.waits hq hnew
  obtain ⟨new, hev, hsound, hvict⟩ := hstep.events
  have hout := hstep.output
  have hself : SameRequest (s.object r).rejected ((p₁.reject r reason).sched.object r) := by
    rw [reject_object_self]
    have hc := congrArg (fun q : Request => { q with status := .finishedAborted })
      (hw.object hstep).core
    exact ⟨hc⟩
  have hother : ∀ x, x ≠ r →
      SameRequest (pass.sched.object x) ((p₁.reject r reason).sched.object x) := by
    intro x hx
    rw [reject_object_ne _ _ hx]
    exact hstep.other hx
  have hrecords : (p₁.reject r reason).output.scheduledRequests =
      pass.output.scheduledRequests := by
    rw [reject_scheduledRequests, hout]
  have hpre : (p₁.reject r reason).output.preemptedRequests = pass.output.preemptedRequests := by
    rw [reject_preemptedRequests, hout]
  have hsub : pass.events ⊆ p₁.events := by
    rw [hev]
    exact List.subset_append_left _ _
  constructor
  · constructor
    · rw [reject_config]
      exact hw.step_config hstep
    · rw [reject_requests, show p₁.sched.requests = _ from hstep.core.requests.trans h.requests,
        List.filter_filter]
      refine List.filter_congr fun x _ => ?_
      rw [Bool.eq_iff_iff]
      simp only [List.mem_append, List.mem_singleton, decide_eq_true_eq, Bool.and_eq_true]
      tauto
    · rw [hpre, reject_running]
      exact hstep.core.running.trans h.running
    · exact h.admitted_waiting
    · exact List.forall_mem_append.mpr ⟨h.rejected_waiting, List.forall_mem_singleton.mpr hw.waiting⟩
    · exact h.admitted_nodup
    · exact h.rejected_nodup.append (List.nodup_singleton r) (by simpa using hnr)
    · intro x hx hx'
      rcases List.mem_append.mp hx' with hx' | hx'
      · exact h.disjoint x hx hx'
      · exact hna (List.mem_singleton.mp hx' ▸ hx)
    · rw [hpre]; exact h.victims_nodup
    · rw [hpre]; exact h.victims_running
    · rw [hpre]
      exact fun v hv => (h.victim v hv).trans (hother v fun hvr => hnew (hvr ▸ hv))
    · refine List.forall_mem_append.mpr ⟨fun x hx => ?_,
        List.forall_mem_singleton.mpr ⟨hself, c, hc, reason, hreason⟩⟩
      exact ⟨(h.rejection x hx).1.trans (hother x fun hxr => hnr (hxr ▸ hx)),
        (h.rejection x hx).2⟩
    · rw [hpre]
      intro x hx hxa hxr
      rw [List.mem_append, List.mem_singleton, not_or] at hxr
      exact (h.other x hx hxa hxr.1).trans (hother x hxr.2)
    · rw [hrecords]; exact h.records_nodup
    · rw [hrecords]; exact h.admitted_records
    · rw [hrecords, hpre]
      intro sr hsr
      rcases h.records sr hsr with ⟨h1, h2, h3⟩ | ⟨h1, c', hc', h2, h3⟩
      · exact .inl ⟨h1, h2, h3.mono hsub⟩
      · exact .inr ⟨h1, c', hc', h2.mono hsub, h3.trans (hother _ fun he => hna (he ▸ h1))⟩
    · intro x
      rw [reject_rejectedRequests, hout, ← AList.mem_keys, AList.mem_insert, AList.mem_keys,
        h.rejectedIds, List.mem_append, List.mem_singleton, or_comm]
    · rw [reject_events, hev]
      exact fun ev hmem => (List.mem_append.mp hmem).elim (h.sound ev) (hsound ev)
    · rw [hpre, reject_events, hev, List.filterMap_append, hvict, List.append_nil]
      exact h.victims
  · rw [hpre]
    refine h.perm_turn fun x => ?_
    simp only [List.count_append, List.count_cons, List.count_nil]
    omega

/-- One turn of the waiting phase. -/
theorem turn {outcome : WaitingOutcome} (hq : Queues s)
    (h : WaitingPhase s admitted rejected remaining (r :: queue) pass)
    (hnew : r ∉ pass.output.preemptedRequests) (ht : WaitingTurn pass r outcome pass') :
    ∃ admitted rejected,
      WaitingPhase s admitted rejected (remaining ++ outcome.left r) queue pass' := by
  obtain ⟨hw, hna, hnr⟩ := h.waits hq hnew
  cases hw.result ht with
  | admitted ha =>
    refine ⟨admitted ++ [r], rejected, ?_⟩
    rw [WaitingOutcome.left, List.append_nil]
    exact h.admits hq hnew ha
  | rejected hc hreason hstep =>
    refine ⟨admitted, rejected ++ [r], ?_⟩
    rw [WaitingOutcome.left, List.append_nil]
    exact h.rejects hq hnew hc hreason hstep
  | kept hleft hstep =>
    have hk := keeps hw hnew hna hnr h hstep
    refine ⟨admitted, rejected, { hk with perm := ?_ }⟩
    rw [hleft, List.append_assoc remaining]
    exact hk.perm

/-- Passing over a victim of this pass. -/
theorem skip (h : WaitingPhase s admitted rejected remaining (r :: queue) pass) :
    WaitingPhase s admitted rejected (remaining ++ [r]) queue pass :=
  { h with perm := by rw [List.append_assoc remaining]; exact h.perm }

end WaitingPhase

/-- The queue that the phase leaves behind is not read by the summary. -/
theorem PassSummary.withWaiting {admitted rejected : List RequestId}
    (h : PassSummary s admitted rejected pass) (waiting : List RequestId) :
    PassSummary s admitted rejected { pass with sched := { pass.sched with waiting } } :=
  { h with }

/-- A property that every turn of the running phase keeps holds at its end. -/
theorem runningPhase_rule {P : Pass → Prop} (hq : Queues s) (start : P s.startPass)
    (turn : ∀ done r rest pass pass', RunningPhase s done (r :: rest) pass → P pass →
      RunningTurn s.groupedCachePhase.1 pass r pass' → P pass')
    (h : s.running.foldlM (scheduleRunningOne s.groupedCachePhase.1) s.startPass = .ok pass) :
    RunningPhase s s.running [] pass ∧ P pass := by
  obtain ⟨done, hI, hP⟩ := runningLoop_rule
    (I := fun rest pass => ∃ done, RunningPhase s done rest pass ∧ P pass)
    (fun r rest pass pass' ⟨done, hI, hP⟩ ht =>
      ⟨done ++ [r], hI.turn hq ht, turn done r rest pass pass' hI hP ht⟩)
    h ⟨[], RunningPhase.start s, start⟩
  have hdone : done = s.running := by simpa using hI.split
  exact ⟨hdone ▸ hI, hP⟩

/-- A property that every turn of the waiting phase keeps holds at its end. -/
theorem waitingPhase_rule {P : Pass → Prop} {queue : List RequestId} (hq : Queues s)
    (turn : ∀ admitted rejected remaining r queue pass outcome pass',
      WaitingPhase s admitted rejected remaining (r :: queue) pass →
      r ∉ pass.output.preemptedRequests →
      pass.sched.running.length < pass.sched.config.maxNumRunningReqs → P pass →
      WaitingTurn pass r outcome pass' → P pass')
    (stop : ∀ pass waiting, P pass → P { pass with sched := { pass.sched with waiting } })
    (h : pass.scheduleWaiting [] queue = .ok pass') (hI : WaitingPhase s [] [] [] queue pass)
    (hP : P pass) : P pass' := by
  refine waitingLoop_rule
    (I := fun rem queue pass => ∃ admitted rejected,
      WaitingPhase s admitted rejected rem queue pass ∧ P pass)
    (J := P) ?_ ?_ ?_ h ⟨[], [], hI, hP⟩
  · exact fun rem r queue pass ⟨a, b, hI, hP⟩ _ => ⟨a, b, hI.skip, hP⟩
  · intro rem r queue pass outcome pass' ⟨a, b, hI, hP⟩ hnew _ hroom ht
    obtain ⟨a', b', hI'⟩ := hI.turn hq hnew ht
    exact ⟨a', b', hI', turn a b rem r queue pass outcome pass' hI hnew hroom hP ht⟩
  · exact fun rem queue pass ⟨_, _, _, hP⟩ => stop pass (rem ++ queue) hP

/-- A property that every turn of a pass keeps holds of the pass that `schedule` returns. -/
theorem Scheduler.schedule_rule {P : Pass → Prop} (hq : Queues s) (start : P s.startPass)
    (running : ∀ done r rest pass pass', RunningPhase s done (r :: rest) pass → P pass →
      RunningTurn s.groupedCachePhase.1 pass r pass' → P pass')
    (close : ∀ pass, RunningPhase s s.running [] pass → P pass → P pass.closeRunning)
    (waiting : ∀ admitted rejected remaining r queue pass outcome pass',
      WaitingPhase s admitted rejected remaining (r :: queue) pass →
      r ∉ pass.output.preemptedRequests →
      pass.sched.running.length < pass.sched.config.maxNumRunningReqs → P pass →
      WaitingTurn pass r outcome pass' → P pass')
    (stop : ∀ pass waiting, P pass → P { pass with sched := { pass.sched with waiting } })
    (h : s.schedule = .ok pass) : P pass := by
  obtain ⟨p₁, hrun, hend⟩ := schedule_phases h
  obtain ⟨hI, hP⟩ := runningPhase_rule hq start running hrun
  have hclose := close p₁ hI hP
  rcases hend with ⟨-, rfl⟩ | hloop
  · exact hclose
  · exact waitingPhase_rule hq waiting stop hloop (hI.waitingPhase hq) hclose

/-- The specification of `schedule` outside the cache. -/
theorem Scheduler.schedule_summary (hq : Queues s) (h : s.schedule = .ok pass) :
    ∃ admitted rejected, PassSummary s admitted rejected pass ∧
      (pass.sched.waiting ++ (admitted ++ rejected)).Perm
        (pass.output.preemptedRequests.reverse ++ s.waiting) := by
  obtain ⟨p₁, hrun, hend⟩ := schedule_phases h
  obtain ⟨hphase, -⟩ := runningPhase_rule (P := fun _ => True) hq trivial
    (fun _ _ _ _ _ _ _ _ => trivial) hrun
  have hwait := hphase.waitingPhase hq
  rcases hend with ⟨-, rfl⟩ | hloop
  · have hperm := hwait.perm
    rw [List.nil_append] at hperm
    exact ⟨[], [], hwait.toPassSummary, hperm⟩
  · refine waitingLoop_rule
      (I := fun rem queue pass => ∃ admitted rejected, WaitingPhase s admitted rejected rem queue pass)
      (J := fun pass => ∃ admitted rejected, PassSummary s admitted rejected pass ∧
        (pass.sched.waiting ++ (admitted ++ rejected)).Perm
          (pass.output.preemptedRequests.reverse ++ s.waiting))
      ?_ ?_ ?_ hloop ⟨[], [], hwait⟩
    · exact fun rem r queue pass ⟨a, b, hI⟩ _ => ⟨a, b, hI.skip⟩
    · exact fun rem r queue pass outcome pass' ⟨a, b, hI⟩ hnew _ _ ht => hI.turn hq hnew ht
    · exact fun rem queue pass ⟨a, b, hI⟩ =>
        ⟨a, b, hI.toPassSummary.withWaiting (rem ++ queue), hI.perm⟩

namespace PassSummary
variable {admitted rejected : List RequestId}

theorem running_object (h : PassSummary s admitted rejected pass) (hq : Queues s)
    (hr : r ∈ s.running) (hout : r ∉ pass.output.preemptedRequests) :
    SameRequest (s.object r) (pass.sched.object r) :=
  h.other r hout (fun hx => hq.disjoint r hr (h.admitted_waiting r hx))
    fun hx => hq.disjoint r hr (h.rejected_waiting r hx)

theorem admitted_object (h : PassSummary s admitted rejected pass) (hq : Queues s)
    (hr : r ∈ admitted) : ∃ c < (s.object r).numPromptTokens,
      SameRequest ((s.object r).admittedWith c) (pass.sched.object r) := by
  obtain ⟨sr, hsr, rfl⟩ := List.mem_map.mp (h.admitted_records r hr)
  rcases h.records sr hsr with ⟨hrun, -⟩ | ⟨-, c, hc, -, hobj⟩
  · exact absurd (h.admitted_waiting _ hr) (hq.disjoint _ hrun)
  · exact ⟨c, hc, hobj⟩

/-- What waits after the pass was preempted in it, or waited before and was not taken. -/
theorem mem_waiting (h : PassSummary s admitted rejected pass) (hq : Queues s)
    (hperm : (pass.sched.waiting ++ (admitted ++ rejected)).Perm
      (pass.output.preemptedRequests.reverse ++ s.waiting)) :
    pass.sched.waiting.Nodup ∧ ∀ r, r ∈ pass.sched.waiting ↔
      r ∈ pass.output.preemptedRequests ∨ (r ∈ s.waiting ∧ r ∉ admitted ∧ r ∉ rejected) := by
  have hnd : (pass.output.preemptedRequests.reverse ++ s.waiting).Nodup := by
    refine (List.nodup_reverse.mpr h.victims_nodup).append hq.waiting_nodup ?_
    intro x hx hw
    exact hq.disjoint x (h.victims_running x (List.mem_reverse.mp hx)) hw
  have hleft := hperm.nodup_iff.mpr hnd
  refine ⟨hleft.of_append_left, fun r => ?_⟩
  rw [List.nodup_append] at hleft
  have hout : r ∈ pass.sched.waiting → r ∉ admitted ++ rejected :=
    fun hr hx => hleft.2.2 r hr r hx rfl
  have hmem := hperm.mem_iff (a := r)
  simp only [List.mem_append, List.mem_reverse] at hmem hout
  constructor
  · intro hr
    have hnot := hout hr
    rcases hmem.mp (.inl hr) with hv | hw
    · exact .inl hv
    · exact .inr ⟨hw, fun ha => hnot (.inl ha), fun ha => hnot (.inr ha)⟩
  · rintro (hv | ⟨hw, hna, hnr⟩)
    · refine (hmem.mpr (.inl hv)).resolve_right ?_
      rintro (ha | ha)
      · exact hq.disjoint r (h.victims_running r hv) (h.admitted_waiting r ha)
      · exact hq.disjoint r (h.victims_running r hv) (h.rejected_waiting r ha)
    · exact (hmem.mpr (.inr hw)).resolve_right (by tauto)

theorem mem_running (h : PassSummary s admitted rejected pass) :
    r ∈ pass.sched.running ↔
      (r ∈ s.running ∧ r ∉ pass.output.preemptedRequests) ∨ r ∈ admitted := by
  rw [h.running, List.mem_append, List.mem_filter]
  simp

/-- Every record is of a request that runs after the pass. -/
theorem scheduled (h : PassSummary s admitted rejected pass) {sr : ScheduledRequest}
    (hsr : sr ∈ pass.output.scheduledRequests) : sr.requestId ∈ pass.sched.running := by
  rcases h.records sr hsr with ⟨hrun, hout, -⟩ | ⟨hadm, -⟩
  · exact h.mem_running.mpr (.inl ⟨hrun, hout⟩)
  · exact h.mem_running.mpr (.inr hadm)

/-- The object of a request that waits after the pass. -/
theorem waiting_object (h : PassSummary s admitted rejected pass)
    (hr : r ∈ pass.output.preemptedRequests ∨ (r ∈ s.waiting ∧ r ∉ admitted ∧ r ∉ rejected)) :
    (r ∈ pass.output.preemptedRequests ∧
      SameRequest (Scheduler.resetVictim (s.object r)) (pass.sched.object r)) ∨
    (r ∈ s.waiting ∧ SameRequest (s.object r) (pass.sched.object r)) := by
  by_cases hv : r ∈ pass.output.preemptedRequests
  · exact .inl ⟨hv, h.victim r hv⟩
  · obtain ⟨hw, hna, hnr⟩ := hr.resolve_left hv
    exact .inr ⟨hw, h.other r hv hna hnr⟩

/-- A pass keeps the queues in order. -/
theorem queues (h : PassSummary s admitted rejected pass) (hq : Queues s)
    (hperm : (pass.sched.waiting ++ (admitted ++ rejected)).Perm
      (pass.output.preemptedRequests.reverse ++ s.waiting)) : Queues pass.sched := by
  obtain ⟨hnd, hwaiting⟩ := h.mem_waiting hq hperm
  have hcases := fun r hr => h.waiting_object ((hwaiting r).mp hr)
  constructor
  · rw [h.running]
    refine (hq.running_nodup.filter _).append h.admitted_nodup fun x hx hxa => ?_
    exact hq.disjoint x (List.mem_filter.mp hx).1 (h.admitted_waiting x hxa)
  · exact hnd
  · intro r hr hw
    rcases h.mem_running.mp hr with ⟨hrun, hout⟩ | hadm
    · rcases (hwaiting r).mp hw with hv | ⟨hsw, -⟩
      · exact hout hv
      · exact hq.disjoint r hrun hsw
    · rcases (hwaiting r).mp hw with hv | ⟨-, hna, -⟩
      · exact hq.disjoint r (h.victims_running r hv) (h.admitted_waiting r hadm)
      · exact hna hadm
  · intro r hr
    rcases h.mem_running.mp hr with ⟨hrun, hout⟩ | hadm
    · rw [(h.running_object hq hrun hout).status]
      exact hq.running_status r hrun
    · obtain ⟨c, -, hobj⟩ := h.admitted_object hq hadm
      exact hobj.status
  · intro r hr
    rcases hcases r hr with ⟨-, hobj⟩ | ⟨hsw, hobj⟩
    · exact .inr hobj.status
    · rw [hobj.status]
      exact hq.waiting_status r hsw
  · intro r hr
    rcases hcases r hr with ⟨-, hobj⟩ | ⟨hsw, hobj⟩
    · exact ⟨hobj.numComputedTokens, hobj.numOutputPlaceholders, hobj.terminalPrefillInFlight⟩
    · have hi := hq.idle r hsw
      exact ⟨hobj.numComputedTokens.trans hi.numComputedTokens,
        hobj.numOutputPlaceholders.trans hi.numOutputPlaceholders,
        hobj.terminalPrefillInFlight.trans hi.terminalPrefillInFlight⟩
  · rintro r (hr | hr)
    · rcases h.mem_running.mp hr with ⟨hrun, hout⟩ | hadm
      · rw [(h.running_object hq hrun hout).numPromptTokens]
        exact hq.prompt_pos r (.inl hrun)
      · obtain ⟨c, -, hobj⟩ := h.admitted_object hq hadm
        rw [hobj.numPromptTokens]
        exact hq.prompt_pos r (.inr (h.admitted_waiting r hadm))
    · rcases hcases r hr with ⟨hv, hobj⟩ | ⟨hsw, hobj⟩
      · rw [hobj.numPromptTokens]
        exact hq.prompt_pos r (.inl (h.victims_running r hv))
      · rw [hobj.numPromptTokens]
        exact hq.prompt_pos r (.inr hsw)

end PassSummary

end PyptoServing.Sched
