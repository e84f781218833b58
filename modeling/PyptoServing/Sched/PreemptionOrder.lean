import PyptoServing.Sched.WellFormed

/-!
# Who is preempted

A victim makes room for a running request and is never that request itself: it is the
latest arrival among the other candidates, so an older request is only preempted when no
candidate arrived later. A victim waits until a later pass.
-/
namespace PyptoServing.Sched

open Lib Memory

/-- The rule for a preemption of `v` in favour of `r`, in terms of the pass's start. -/
structure PreemptionRule (s : Scheduler) (v r : RequestId) (before : Scheduler) : Prop where
  requester : r ∈ s.running
  victim : v ∈ before.preemptionCandidates r
  candidates : ∀ c ∈ before.preemptionCandidates r, c ∈ s.running ∧ c ≠ r
  latest : ∀ c ∈ before.preemptionCandidates r,
    (s.object c).arrivalTime ≤ (s.object v).arrivalTime
  older : (s.object v).arrivalTime < (s.object r).arrivalTime →
    ∀ c ∈ before.preemptionCandidates r, (s.object c).arrivalTime < (s.object r).arrivalTime

/-- The rule follows from what holds when the victim is chosen. -/
theorem Preemption.rule {s before : Scheduler} {v r : RequestId} (h : Preemption s v r before) :
    PreemptionRule s v r before := by
  obtain ⟨hv, hmax⟩ := Pass.latestArrival_spec h.victim
  have hcand : ∀ c ∈ before.preemptionCandidates r, c ∈ before.running ∧ c ≠ r :=
    fun c hc => Pass.preemptionCandidates_subset hc
  have harrival : ∀ c ∈ before.preemptionCandidates r,
      (before.object c).arrivalTime = (s.object c).arrivalTime :=
    fun c hc => (h.object c (hcand c hc).1).arrivalTime
  have hlatest : ∀ c ∈ before.preemptionCandidates r,
      (s.object c).arrivalTime ≤ (s.object v).arrivalTime := by
    intro c hc
    rw [← harrival c hc, ← harrival v hv]
    exact hmax c hc
  exact ⟨h.running h.requester, hv, fun c hc => ⟨h.running (hcand c hc).1, (hcand c hc).2⟩,
    hlatest, fun hold c hc => (hlatest c hc).trans_lt hold⟩

/-- In every reachable state and every pass from there: each preemption follows the rule, and
each preempted request was chosen by such a preemption and waits after the pass. -/
theorem preemption_order {p : Pipeline} (hp : pipelineMachine.Reachable p) {pass : Pass}
    (h : p.sched.schedule = .ok pass) :
    (∀ v r before, PassEvent.preempt v r before ∈ pass.events →
      PreemptionRule p.sched v r before) ∧
    ∀ v ∈ pass.output.preemptedRequests,
      (∃ r before, PassEvent.preempt v r before ∈ pass.events) ∧
        v ∈ pass.sched.waiting ∧ v ∉ pass.sched.running := by
  have hwf := wellFormed_of_reachable hp
  obtain ⟨admitted, rejected, hsum, hperm⟩ := Scheduler.schedule_summary hwf.queues h
  obtain ⟨-, hwaiting⟩ := hsum.mem_waiting hwf.queues hperm
  refine ⟨fun v r before hev => Preemption.rule (hsum.sound _ hev), fun v hv => ⟨?_, ?_, ?_⟩⟩
  · rw [hsum.victims, List.mem_filterMap] at hv
    obtain ⟨ev, hev, hvic⟩ := hv
    cases ev with
    | preempt v' r before =>
      cases hvic
      exact ⟨r, before, hev⟩
    | cache op => cases hvic
    | grant r budget => cases hvic
  · exact (hwaiting v).mpr (.inl hv)
  · intro hrun
    rcases hsum.mem_running.mp hrun with ⟨-, hout⟩ | hadm
    · exact hout hv
    · exact hwf.queues.disjoint v (hsum.victims_running v hv) (hsum.admitted_waiting v hadm)

def tightConfig : SchedulerConfig :=
  { SchedulerConfig.defaults with enablePrefixCache := false }

/-- Two blocks of two tokens hold `a` and `b` until `b`, which arrived later, needs a second
block. -/
def crowdedRun : Option Pipeline :=
  Pipeline.bootAll KvCacheManager.encodingHash [] 2 2 2 tightConfig
    [.add (plainRequest "a" [1] 4 0), .add (plainRequest "b" [2, 3] 4 1), .dispatch,
      .complete (Dict.ofList [("a", [7]), ("b", [8])])]

/-- Four blocks hold `a` and `b` until `a` needs a third one; `c` arrived last and asks for one. -/
def queuedRun : Option Pipeline :=
  Pipeline.bootAll KvCacheManager.encodingHash [] 2 2 4 tightConfig
    [.add (plainRequest "a" [1, 2, 3, 4] 4 0), .add (plainRequest "b" [5, 6, 7, 8] 4 1), .dispatch,
      .complete (Dict.ofList [("a", [9]), ("b", [9])]), .add (plainRequest "c" [1, 2] 4 2)]

/-- Some preemption of the pass takes an older request for a newer one. -/
def preemptsOlder (s : Scheduler) (pass : Pass) : Bool :=
  pass.events.any fun
    | .preempt v r _ => decide ((s.object v).arrivalTime < (s.object r).arrivalTime)
    | _ => false

/-- Some victim of the pass arrived before every request that was running. -/
def preemptsOldest (s : Scheduler) (pass : Pass) : Bool :=
  pass.output.preemptedRequests.any fun v => s.running.all fun c =>
    decide ((s.object v).arrivalTime ≤ (s.object c).arrivalTime)

/-- The pass admits a request that arrived after one of its victims. -/
def admitsNewer (s : Scheduler) (pass : Pass) : Bool :=
  pass.output.preemptedRequests.any fun v => pass.sched.running.any fun c =>
    decide (c ∈ s.waiting ∧ (s.object v).arrivalTime < (s.object c).arrivalTime)

/-- The next pass behind a run. -/
def passes (run : Option Pipeline) (test : Scheduler → Pass → Bool) : Option Bool :=
  run.bind fun p => p.sched.schedule.toOption.map (test p.sched)

theorem crowdedRun_preempts : passes crowdedRun preemptsOlder = some true := by decide

theorem crowdedRun_oldest : passes crowdedRun preemptsOldest = some true := by decide

theorem queuedRun_admits : passes queuedRun admitsNewer = some true := by decide +kernel

theorem crowdedRun_reachable {p : Pipeline} (h : crowdedRun = some p) :
    pipelineMachine.Reachable p := by
  refine Pipeline.bootAll_reachable (by decide) (fun q hq => ?_) h
  simp only [List.mem_cons, PipelineOp.add.injEq, List.not_mem_nil, or_false, reduceCtorEq] at hq
  rcases hq with rfl | rfl <;> exact plainRequest_fresh (by decide)

theorem queuedRun_reachable {p : Pipeline} (h : queuedRun = some p) :
    pipelineMachine.Reachable p := by
  refine Pipeline.bootAll_reachable (by decide) (fun q hq => ?_) h
  simp only [List.mem_cons, PipelineOp.add.injEq, List.not_mem_nil, or_false, false_or,
    reduceCtorEq] at hq
  rcases hq with rfl | rfl | rfl <;> exact plainRequest_fresh (by decide)

theorem exists_of_passes {run : Option Pipeline} {test : Scheduler → Pass → Bool}
    (h : passes run test = some true) :
    ∃ p pass, run = some p ∧ p.sched.schedule = .ok pass ∧ test p.sched pass = true := by
  obtain ⟨p, hrun, h⟩ := Option.bind_eq_some_iff.mp h
  obtain ⟨pass, hpass, htest⟩ := Option.map_eq_some_iff.mp h
  exact ⟨p, pass, hrun, Pipeline.toOption_eq_some hpass, htest⟩

theorem crowdedRun_pass : ∃ p pass v r before, pipelineMachine.Reachable p ∧
    p.sched.schedule = .ok pass ∧ PassEvent.preempt v r before ∈ pass.events ∧
    (p.sched.object v).arrivalTime < (p.sched.object r).arrivalTime := by
  obtain ⟨p, pass, hrun, hpass, hany⟩ := exists_of_passes crowdedRun_preempts
  obtain ⟨ev, hev, hold⟩ := List.any_eq_true.mp hany
  cases ev with
  | preempt v r before =>
    exact ⟨p, pass, v, r, before, crowdedRun_reachable hrun, hpass, hev, of_decide_eq_true hold⟩
  | cache op => cases hold
  | grant r budget => cases hold

theorem preemption_order_crowded : ∃ p pass v r before,
    pipelineMachine.Reachable p ∧ p.sched.schedule = .ok pass ∧
      PassEvent.preempt v r before ∈ pass.events ∧ PreemptionRule p.sched v r before := by
  obtain ⟨p, pass, v, r, before, hp, hpass, hev, -⟩ := crowdedRun_pass
  exact ⟨p, pass, v, r, before, hp, hpass, hev, (preemption_order hp hpass).1 v r before hev⟩

/-- A preempted request may have arrived before the request it makes room for, and before every
other running request, and before a request that the same pass admits. -/
theorem preemption_of_older :
    (¬ ∀ p pass v r before, pipelineMachine.Reachable p → p.sched.schedule = .ok pass →
      PassEvent.preempt v r before ∈ pass.events →
      (p.sched.object r).arrivalTime ≤ (p.sched.object v).arrivalTime) ∧
    (¬ ∀ p pass, pipelineMachine.Reachable p → p.sched.schedule = .ok pass →
      ∀ v ∈ pass.output.preemptedRequests, ∃ c ∈ p.sched.running,
        (p.sched.object c).arrivalTime < (p.sched.object v).arrivalTime) ∧
    ¬ ∀ p pass, pipelineMachine.Reachable p → p.sched.schedule = .ok pass →
      ∀ v ∈ pass.output.preemptedRequests, ∀ c ∈ pass.sched.running, c ∈ p.sched.waiting →
        (p.sched.object c).arrivalTime ≤ (p.sched.object v).arrivalTime := by
  refine ⟨fun hall => ?_, fun hall => ?_, fun hall => ?_⟩
  · obtain ⟨p, pass, v, r, before, hp, hpass, hev, hold⟩ := crowdedRun_pass
    exact absurd hold (not_lt.mpr (hall p pass v r before hp hpass hev))
  · obtain ⟨p, pass, hrun, hpass, hany⟩ := exists_of_passes crowdedRun_oldest
    obtain ⟨v, hv, holdest⟩ := List.any_eq_true.mp hany
    obtain ⟨c, hc, hlt⟩ := hall p pass (crowdedRun_reachable hrun) hpass v hv
    exact absurd hlt (not_lt.mpr (of_decide_eq_true (List.all_eq_true.mp holdest c hc)))
  · obtain ⟨p, pass, hrun, hpass, hany⟩ := exists_of_passes queuedRun_admits
    obtain ⟨v, hv, hnewer⟩ := List.any_eq_true.mp hany
    obtain ⟨c, hc, hlater⟩ := List.any_eq_true.mp hnewer
    obtain ⟨hwaits, hlt⟩ := of_decide_eq_true hlater
    exact absurd hlt (not_lt.mpr (hall p pass (queuedRun_reachable hrun) hpass v hv c hc hwaits))

end PyptoServing.Sched
