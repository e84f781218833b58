import PyptoServing.Sched.PreemptionOrder

/-!
# The queues partition the unfinished requests

Every tracked request that has not finished stands in exactly one of the two queues, the
one that its status names. The waiting queue keeps its order: a step takes requests out of
it and puts preempted requests in front.
-/
namespace PyptoServing.Sched

open Lib Lib.Fallible Memory Scheduler

/-- What one state of the scheduler shows. -/
structure QueuePartition (s : Scheduler) : Prop where
  once : ∀ r ∈ s.requests, (s.object r).status.isFinished = false →
    (s.waiting ++ s.running).count r = 1
  running_iff : ∀ r ∈ s.requests, (s.object r).status.isFinished = false →
    ((s.object r).status = .running ↔ r ∈ s.running)
  waiting_iff : ∀ r ∈ s.requests, (s.object r).status.isFinished = false →
    ((s.object r).status = .waiting ∨ (s.object r).status = .preempted ↔ r ∈ s.waiting)
  clean : ∀ r ∈ s.waiting ++ s.running, r ∈ s.requests ∧ (s.object r).status.isFinished = false

/-- What one step does to the order of the waiting queue: the requests of both states
stand in the same order, and whoever ran before stands ahead of them. -/
structure QueueOrder (s s' : Scheduler) : Prop where
  stays : s'.waiting.filter (· ∈ s.waiting) = s.waiting.filter (· ∈ s'.waiting)
  ahead : ∀ v ∈ s.running, v ∈ s'.waiting → ∀ w ∈ s.waiting, w ∈ s'.waiting →
    [v, w].Sublist s'.waiting

variable {α : Type}

theorem filter_mem_of_sublist [DecidableEq α] {l l' : List α} (h : l.Sublist l') (hnd : l'.Nodup) :
    l'.filter (· ∈ l) = l := by
  induction h with
  | slnil => rfl
  | @cons l l' a h ih =>
    rw [List.nodup_cons] at hnd
    have hal : a ∉ l := fun ha => hnd.1 (h.subset ha)
    rw [List.filter_cons_of_neg (by simpa using hal)]
    exact ih hnd.2
  | @cons_cons l l' a h ih =>
    rw [List.nodup_cons] at hnd
    rw [List.filter_cons_of_pos (by simp)]
    refine congrArg (a :: ·) (Eq.trans (List.filter_congr fun x hx => ?_) (ih hnd.2))
    have hne : x ≠ a := fun he => hnd.1 (he ▸ hx)
    simp [hne]

/-- A part of `front ++ back` that has all of `front` is `front` and a part of `back`. -/
theorem sublist_append_of_subset {front back l : List α} (hnd : (front ++ back).Nodup)
    (h : l.Sublist (front ++ back)) (hsub : front ⊆ l) :
    ∃ rest, rest.Sublist back ∧ l = front ++ rest := by
  obtain ⟨a, rest, rfl, ha, hrest⟩ := List.sublist_append_iff.mp h
  refine ⟨rest, hrest, congrArg (· ++ rest) ?_⟩
  have hfront := List.nodup_append.mp hnd
  have hin : front ⊆ a := by
    intro x hx
    refine (List.mem_append.mp (hsub hx)).resolve_right fun hx' => ?_
    exact hfront.2.2 x hx x (hrest.subset hx') rfl
  refine ha.eq_of_length (Nat.le_antisymm ha.length_le ?_)
  exact (hfront.1.subperm hin).length_le

/-- Requests in front of a part of a queue. -/
theorem queueOrder_of_front {s s' : Scheduler} (hq : Queues s) {front rest back : List RequestId}
    (hw : s'.waiting = front ++ rest ++ back) (hrest : rest.Sublist s.waiting)
    (hfront : ∀ v ∈ front, v ∉ s.waiting) (hback : ∀ v ∈ back, v ∉ s.waiting)
    (hran : ∀ v ∈ back, v ∉ s.running) : QueueOrder s s' where
  stays := by
    have hout : ∀ l : List RequestId, (∀ v ∈ l, v ∉ s.waiting) → l.filter (· ∈ s.waiting) = [] :=
      fun l hl => List.filter_eq_nil_iff.mpr fun v hv => by simpa using hl v hv
    have hin : rest.filter (· ∈ s.waiting) = rest :=
      List.filter_eq_self.mpr fun v hv => by simpa using hrest.subset hv
    have hmem : s.waiting.filter (· ∈ s'.waiting) = s.waiting.filter (· ∈ rest) := by
      refine List.filter_congr fun v hv => ?_
      have h1 : v ∉ front := fun h => hfront v h hv
      have h2 : v ∉ back := fun h => hback v h hv
      simp [hw, h1, h2]
    rw [hmem, filter_mem_of_sublist hrest hq.waiting_nodup, hw, List.filter_append,
      List.filter_append, hout front hfront, hout back hback, hin, List.nil_append,
      List.append_nil]
  ahead v hv hv' w hww hw' := by
    have hvf : v ∈ front := by
      rw [hw, List.append_assoc, List.mem_append, List.mem_append] at hv'
      rcases hv' with hv' | hv' | hv'
      · exact hv'
      · exact absurd (hrest.subset hv') (hq.disjoint v hv)
      · exact absurd hv (hran v hv')
    have hwr : w ∈ rest := by
      rw [hw, List.append_assoc, List.mem_append, List.mem_append] at hw'
      rcases hw' with hw' | hw' | hw'
      · exact absurd hww (hfront w hw')
      · exact hw'
      · exact absurd hww (hback w hw')
    rw [hw]
    refine List.Sublist.trans ?_ (List.sublist_append_left _ back)
    exact (List.singleton_sublist.mpr hvf).append (List.singleton_sublist.mpr hwr)

/-- A queue that only shrinks. -/
theorem queueOrder_of_sublist {s s' : Scheduler} (hq : Queues s)
    (h : s'.waiting.Sublist s.waiting) : QueueOrder s s' :=
  queueOrder_of_front hq (show s'.waiting = [] ++ s'.waiting ++ [] by simp) h (by simp) (by simp)
    (by simp)

variable {s : Scheduler} {pass pass' : Pass} {r : RequestId}

theorem WaitingResult.preemptedRequests {outcome : Pass.WaitingOutcome}
    (h : WaitingResult s pass r outcome pass') :
    pass'.output.preemptedRequests = pass.output.preemptedRequests := by
  cases h with
  | admitted ha => rw [Pass.launch_preemptedRequests, ha.step.output]
  | rejected hc hreason hstep => rw [Pass.reject_preemptedRequests, hstep.output]
  | kept hleft hstep => rw [hstep.output]

/-- What one turn leaves of the queue's front. -/
theorem left_sublist (outcome : Pass.WaitingOutcome) (r : RequestId)
    (remaining queue : List RequestId) :
    (remaining ++ outcome.left r ++ queue).Sublist (remaining ++ r :: queue) := by
  rw [List.append_assoc]
  refine List.Sublist.append_left ?_ remaining
  cases outcome <;> simp [Pass.WaitingOutcome.left]

/-- After a pass, the victims stand in front, the last one first, and the rest of the
queue stands behind them in the old order. -/
theorem schedule_waiting (hq : Queues s) (h : s.schedule = .ok pass) :
    ∃ rest, rest.Sublist s.waiting ∧
      pass.sched.waiting = pass.output.preemptedRequests.reverse ++ rest := by
  obtain ⟨p₁, hrun, hend⟩ := schedule_phases h
  obtain ⟨hdone, -⟩ := runningPhase_rule (P := fun _ => True) hq trivial
    (fun _ _ _ _ _ _ _ _ => trivial) hrun
  have hphase := hdone.waitingPhase hq
  rcases hend with ⟨-, rfl⟩ | hloop
  · exact ⟨s.waiting, List.Sublist.refl _, hdone.waiting⟩
  · have hrule := Pass.waitingLoop_rule
      (I := fun rem queue pass => (∃ a b, WaitingPhase s a b rem queue pass) ∧
        (rem ++ queue).Sublist (pass.output.preemptedRequests.reverse ++ s.waiting))
      (J := fun pass => pass.sched.waiting.Sublist
        (pass.output.preemptedRequests.reverse ++ s.waiting))
      ?_ ?_ ?_ hloop ⟨⟨[], [], hphase⟩, by rw [List.nil_append, hdone.waiting]; rfl⟩
    · obtain ⟨admitted, rejected, hsum, hperm⟩ := schedule_summary hq h
      have hmem := (hsum.mem_waiting hq hperm).2
      refine sublist_append_of_subset ?_ hrule fun v hv => (hmem v).mpr (.inl ?_)
      · refine (List.nodup_reverse.mpr hsum.victims_nodup).append hq.waiting_nodup ?_
        exact fun v hv hw => hq.disjoint v (hsum.victims_running v (List.mem_reverse.mp hv)) hw
      · exact List.mem_reverse.mp hv
    · rintro rem r queue pass ⟨⟨a, b, hI⟩, hsub⟩ -
      exact ⟨⟨a, b, hI.skip⟩, by rwa [List.append_assoc]⟩
    · rintro rem r queue pass outcome pass' ⟨⟨a, b, hI⟩, hsub⟩ hnew - - ht
      obtain ⟨hw, -, -⟩ := hI.waits hq hnew
      refine ⟨hI.turn hq hnew ht, ?_⟩
      rw [(hw.result ht).preemptedRequests]
      exact (left_sublist outcome r rem queue).trans hsub
    · exact fun rem queue pass hI => hI.2

theorem queueOrder_of_pass (hq : Queues s) (h : s.schedule = .ok pass) :
    QueueOrder s pass.sched := by
  obtain ⟨rest, hrest, hwaiting⟩ := schedule_waiting hq h
  obtain ⟨admitted, rejected, hsum, -⟩ := schedule_summary hq h
  rw [← List.append_nil (_ ++ rest)] at hwaiting
  refine queueOrder_of_front hq hwaiting hrest ?_ (by simp) (by simp)
  exact fun v hv => hq.disjoint v (hsum.victims_running v (List.mem_reverse.mp hv))

namespace Pipeline
variable {p p' : Pipeline} {op : PipelineOp}

theorem WellFormed.queuePartition (h : WellFormed p) : QueuePartition p.sched where
  once r hr hlive := by
    have hqueued : r ∈ p.sched.running ∨ r ∈ p.sched.waiting := by
      rcases h.ended r (h.issued r hr) with hrun | hwait | hfin
      · exact .inl hrun
      · exact .inr hwait
      · rw [hlive] at hfin
        cases hfin
    have hnd : (p.sched.waiting ++ p.sched.running).Nodup :=
      h.queues.waiting_nodup.append h.queues.running_nodup
        fun x hw hrun => h.queues.disjoint x hrun hw
    refine List.count_eq_one_of_mem hnd ?_
    rw [List.mem_append]
    exact hqueued.symm
  running_iff r hr hlive := by
    refine ⟨fun hs => ?_, h.queues.running_status r⟩
    by_contra hrun
    have hwait : r ∈ p.sched.waiting := by
      by_contra hwait
      rw [h.finished (h.issued r hr) hrun hwait] at hlive
      cases hlive
    rcases h.queues.waiting_status r hwait with hs' | hs' <;> rw [hs] at hs' <;> cases hs'
  waiting_iff r hr hlive := by
    refine ⟨fun hs => ?_, h.queues.waiting_status r⟩
    by_contra hwait
    have hrun : r ∈ p.sched.running := by
      by_contra hrun
      rw [h.finished (h.issued r hr) hrun hwait] at hlive
      cases hlive
    rw [h.queues.running_status r hrun] at hs
    rcases hs with hs | hs <;> cases hs
  clean r hr := by
    rcases List.mem_append.mp hr with hw | hrun
    · refine ⟨h.tracked r (.inr hw), ?_⟩
      rcases h.queues.waiting_status r hw with hs | hs <;> rw [hs] <;> rfl
    · refine ⟨h.tracked r (.inl hrun), ?_⟩
      rw [h.queues.running_status r hrun]
      rfl

theorem WellFormed.queueOrder (h : WellFormed p) (hstep : Step p op p') :
    QueueOrder p.sched p'.sched := by
  cases hstep with
  | @add request s hfresh hid hadd =>
    obtain ⟨stored, -, rfl⟩ := addRequest_spec hadd
    have hnew : ∀ v ∈ [request.requestId], v ∉ p.sched.requests := by
      intro v hv hr
      rw [List.mem_singleton.mp hv] at hr
      exact hid (h.issued _ hr)
    exact queueOrder_of_front h.queues
      (show p.sched.waiting ++ [request.requestId] = [] ++ p.sched.waiting ++ [request.requestId] from rfl)
      (List.Sublist.refl _) (by simp)
      (fun v hv hw => hnew v hv (h.tracked v (.inr hw)))
      fun v hv hrun => hnew v hv (h.tracked v (.inl hrun))
  | dispatch hready hsched hne hadv =>
    obtain ⟨admitted, rejected, ha⟩ := h.afterPass hready hsched
    have hwaiting := (ha.advances h.queues hadv).waiting
    have hpass := queueOrder_of_pass h.queues hsched
    constructor
    · dsimp only
      rw [hwaiting]
      exact hpass.stays
    · dsimp only
      rw [hwaiting]
      exact hpass.ahead
  | idle hready hsched hempty => exact queueOrder_of_pass h.queues hsched
  | complete hfl hupd =>
    obtain ⟨mid, hu, -⟩ := updateFromOutput_spec (h.nodup _ (by rw [hfl]; simp))
      h.queues.running_nodup h.queues.running_status hupd
    exact queueOrder_of_sublist h.queues (by rw [hu.waiting])
  | finish hr hfin =>
    rcases finishRequest_spec hfin with ⟨-, rfl⟩ | ⟨-, -, hw, -⟩
    · exact queueOrder_of_sublist h.queues (List.Sublist.refl _)
    · exact queueOrder_of_sublist h.queues (by rw [hw])
  | abort habort =>
    rcases abortRequest_spec habort with ⟨-, rfl⟩ | ⟨-, -, hw, -⟩
    · exact queueOrder_of_sublist h.queues (List.Sublist.refl _)
    · exact queueOrder_of_sublist h.queues (by rw [hw]; exact List.filter_sublist)
  | discard hne hdrop =>
    have hd := dropBatches_spec h.tracked hdrop
    exact queueOrder_of_sublist h.queues (by rw [hd.waiting]; exact List.filter_sublist)

end Pipeline

/-- In every reachable state the queues partition the tracked unfinished requests, every
step keeps the order of the requests that stay, and a pass puts its victims in front. -/
theorem queue_partition {p : Pipeline} (hp : pipelineMachine.Reachable p) :
    QueuePartition p.sched ∧
      (∀ op p', Pipeline.Step p op p' → QueueOrder p.sched p'.sched) ∧
      ∀ pass, p.sched.schedule = .ok pass → ∃ rest, rest.Sublist p.sched.waiting ∧
        pass.sched.waiting = pass.output.preemptedRequests.reverse ++ rest := by
  have hwf := wellFormed_of_reachable hp
  exact ⟨hwf.queuePartition, fun op p' => hwf.queueOrder,
    fun pass => schedule_waiting hwf.queues⟩

theorem queue_partition_crowded : ∃ p pass, pipelineMachine.Reachable p ∧
    p.sched.schedule = .ok pass ∧ QueuePartition p.sched ∧
      (∀ op p', Pipeline.Step p op p' → QueueOrder p.sched p'.sched) ∧
      ∃ rest, rest.Sublist p.sched.waiting ∧
        pass.sched.waiting = pass.output.preemptedRequests.reverse ++ rest := by
  obtain ⟨p, pass, v, r, before, hp, hpass, -⟩ := crowdedRun_pass
  obtain ⟨h1, h2, h3⟩ := queue_partition hp
  exact ⟨p, pass, hp, hpass, h1, h2, h3 pass hpass⟩

end PyptoServing.Sched
