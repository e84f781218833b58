import PyptoServing.Engine.Effects
import PyptoServing.Server.Residue

/-!
# Registrations as the engine sees them

`_worker_known_req_ids` holds the running requests and those whose release is queued, and
nothing else. A running request has its context and is never queued for release, so it stays
registered; the set is what the commands sent so far make of it.
-/
namespace PyptoServing.Engine

open Lib Lib.Fallible Memory Sched Server

structure Registry (e : Replica) : Prop where
  running_known : ∀ r ∈ e.pipeline.sched.running, r ∈ e.workerKnownReqIds
  running_kept : ∀ r ∈ e.pipeline.sched.running, r ∉ e.pendingFreeIds
  known_held : ∀ r ∈ e.workerKnownReqIds, r ∈ e.pipeline.sched.running ∨ r ∈ e.pendingFreeIds
  contexts : ∀ r, r ∈ e.pipeline.sched.running ∨ r ∈ e.pipeline.sched.waiting →
    r ∈ e.clients.requestContexts
  failures : ∀ r reason, .failure reason ∈ e.clients.queues r →
    r ∉ e.pipeline.sched.running ∧ r ∉ e.pipeline.sched.waiting
  unused : ∀ r, r ∉ e.clients.usedIds → e.clients.queues r = []
  contexts_used : ∀ r ∈ e.clients.requestContexts, r ∈ e.clients.usedIds
  issued_used : ∀ r ∈ e.pipeline.issued, r ∈ e.clients.usedIds

/-- The queues and the pending releases after a pass, before its command is built. -/
structure Passed (e : Replica) (output : SchedulerOutput) (p : Pipeline) (pending : List RequestId) :
    Prop where
  running : ∀ r ∈ p.sched.running, r ∈ Pipeline.recordIds output ∨
    (r ∈ e.pipeline.sched.running ∧ r ∉ pending)
  records : ∀ r ∈ Pipeline.recordIds output, r ∈ p.sched.running
  known : ∀ r ∈ e.workerKnownReqIds, r ∉ pending → r ∈ p.sched.running
  live : ∀ r, r ∈ p.sched.running ∨ r ∈ p.sched.waiting →
    r ∈ e.pipeline.sched.running ∨ r ∈ e.pipeline.sched.waiting
  rejected : ∀ r ∈ output.rejectedRequests.keys, r ∈ e.pipeline.sched.waiting ∧
    r ∉ p.sched.running ∧ r ∉ p.sched.waiting
  issued : p.issued = e.pipeline.issued

variable {e e' : Replica} {op : ReplicaOp} {decode : List Int → String}

/-- A running request that a pass does not preempt is not queued for release. -/
theorem Registry.passed_kept {pass : Pass} {r : RequestId} (h : Registry e)
    (hwf : e.pipeline.WellFormed) (hready : e.pipeline.Ready)
    (hsched : e.pipeline.sched.schedule = .ok pass) (hrun : r ∈ e.pipeline.sched.running)
    (hout : r ∉ pass.output.preemptedRequests) : r ∉ (e.handlePass pass.output).pendingFreeIds := by
  obtain ⟨admitted, rejected, ha⟩ := hwf.afterPass hready hsched
  intro hmem
  rcases ((Replica.handlePass_notifies e pass.output).pending r).mp hmem with hmem | ⟨hrej, -⟩ | hpre
  · exact h.running_kept r hrun hmem
  · exact hwf.queues.disjoint r hrun
      (ha.summary.rejected_waiting r ((ha.summary.rejectedIds r).mp hrej))
  · exact hout hpre

theorem Registry.passed {pass : Pass} {p : Pipeline} (h : Registry e)
    (hwf : e.pipeline.WellFormed) (hready : e.pipeline.Ready)
    (hsched : e.pipeline.sched.schedule = .ok pass)
    (hrunning : p.sched.running = pass.sched.running)
    (hwaiting : p.sched.waiting = pass.sched.waiting) (hissued : p.issued = e.pipeline.issued) :
    Passed e pass.output p (e.handlePass pass.output).pendingFreeIds := by
  obtain ⟨admitted, rejected, ha⟩ := hwf.afterPass hready hsched
  have hsum := ha.summary
  have hpending := (Replica.handlePass_notifies e pass.output).pending
  have hrejected : ∀ r ∈ pass.output.rejectedRequests.keys, r ∈ e.pipeline.sched.waiting :=
    fun r hr => hsum.rejected_waiting r ((hsum.rejectedIds r).mp hr)
  refine ⟨fun r hr => ?_, fun r hr => ?_, fun r hr hkept => ?_, fun r hr => ?_, fun r hr => ?_,
    hissued⟩
  · rw [hrunning] at hr
    rcases hsum.mem_running.mp hr with ⟨hrun, hout⟩ | hadm
    · exact .inr ⟨hrun, h.passed_kept hwf hready hsched hrun hout⟩
    · exact .inl (hsum.admitted_records r hadm)
  · rw [hrunning]
    exact ha.scheduled r hr
  · rw [hpending, not_or, not_or] at hkept
    rw [hrunning]
    have hrun := (h.known_held r hr).resolve_right hkept.1
    exact hsum.mem_running.mpr (.inl ⟨hrun, hkept.2.2⟩)
  · rw [hrunning, hwaiting, hsum.mem_running, ha.mem_waiting] at hr
    rcases hr with (⟨hr, -⟩ | hr) | hr | ⟨hr, -⟩
    · exact .inl hr
    · exact .inr (hsum.admitted_waiting r hr)
    · exact .inl (hsum.victims_running r hr)
    · exact .inr hr
  · have hw := hrejected r hr
    have hrej := (hsum.rejectedIds r).mp hr
    rw [hrunning, hwaiting, hsum.mem_running, ha.mem_waiting]
    refine ⟨hw, ?_, ?_⟩
    · rintro (⟨hrun, -⟩ | hadm)
      · exact hwf.queues.disjoint r hrun hw
      · exact hsum.disjoint r hadm hrej
    · rintro (hpre | ⟨-, -, hn⟩)
      · exact hwf.queues.disjoint r (hsum.victims_running r hpre) hw
      · exact hn hrej

/-- The client side of a pass. -/
theorem Registry.notified {p : Pipeline} {output : SchedulerOutput} (h : Registry e)
    (hp : Passed e output p (e.handlePass output).pendingFreeIds)
    (hused : ∀ r, r ∈ e.pipeline.sched.waiting → r ∈ e.clients.usedIds) :
    (∀ r, r ∈ p.sched.running ∨ r ∈ p.sched.waiting →
      r ∈ (e.handlePass output).clients.requestContexts) ∧
    (∀ r reason, .failure reason ∈ (e.handlePass output).clients.queues r →
      r ∉ p.sched.running ∧ r ∉ p.sched.waiting) ∧
    (∀ r, r ∉ (e.handlePass output).clients.usedIds →
      (e.handlePass output).clients.queues r = []) ∧
    (∀ r ∈ (e.handlePass output).clients.requestContexts,
      r ∈ (e.handlePass output).clients.usedIds) ∧
    ∀ r ∈ p.issued, r ∈ (e.handlePass output).clients.usedIds := by
  have hc := (Replica.handlePass_notifies e output).clients
  refine ⟨fun r hr => (hc.contexts r).mpr (h.contexts r (hp.live r hr)), fun r reason hmem => ?_,
    fun r hr => ?_, fun r hr => ?_, fun r hr => ?_⟩
  · obtain ⟨new, hq, hnew⟩ := hc.queues r
    rw [hq, List.mem_append] at hmem
    rcases hmem with hmem | hmem
    · have hnot := h.failures r reason hmem
      exact ⟨fun hr => (hp.live r (.inl hr)).elim hnot.1 hnot.2,
        fun hr => (hp.live r (.inr hr)).elim hnot.1 hnot.2⟩
    · exact (hp.rejected r (hnew _ hmem).1).2
  · rw [hc.usedIds] at hr
    obtain ⟨new, hq, hnew⟩ := hc.queues r
    rw [hq, h.unused r hr, List.nil_append]
    refine List.eq_nil_iff_forall_not_mem.mpr fun entry hentry => hr ?_
    exact hused r (hp.rejected r (hnew entry hentry).1).1
  · rw [hc.usedIds]
    exact h.contexts_used r ((hc.contexts r).mp hr)
  · rw [hc.usedIds]
    rw [hp.issued] at hr
    exact h.issued_used r hr

/-- What the engine knows after a command with the records of a pass. -/
theorem mem_known_build {object : RequestId → Request} {output : SchedulerOutput}
    {known finishedIds : List RequestId} {stepId : Nat} {r : RequestId}
    (hnd : (output.scheduledRequests.map (·.requestId)).Nodup) :
    r ∈ (buildStepCommand object output known finishedIds stepId).2 ↔
      (r ∈ known ∧ r ∉ finishedIds) ∨ r ∈ Pipeline.recordIds output := by
  rw [(buildStepCommand_holds _ _ _ _ hnd).known, List.mem_append, List.mem_filter, List.mem_filter,
    decide_eq_true_eq, decide_eq_true_eq, Pipeline.recordIds]
  by_cases hr : r ∈ known ∧ r ∉ finishedIds
  · simp [hr]
  · have hnot : r ∉ known.filter (· ∉ finishedIds) := by simpa [List.mem_filter] using hr
    simp only [hr, hnot, not_false_eq_true, and_true, false_or]

/-- A new scheduler holds no request. -/
theorem Replica.Started.queues (h : e.Started) :
    e.pipeline.sched.running = [] ∧ e.pipeline.sched.waiting = [] := by
  obtain ⟨kv, _, _, _, _, _, config, _, _, _, hnew⟩ := h.pipeline.sched
  unfold Scheduler.new at hnew
  split at hnew
  · cases hnew
  · rw [← Except.ok.inj hnew]
    exact ⟨rfl, rfl⟩

namespace Registry

theorem start (h : e.Started) : Registry e := by
  have hissued := h.pipeline.issued
  have hsched := h.queues
  rw [h.rest]
  constructor <;> simp [hsched, hissued, AList.notMem_empty]

/-- A step that moves neither the queues of the scheduler nor the releases. -/
theorem congr (h : Registry e) (hrun : e'.pipeline.sched.running = e.pipeline.sched.running)
    (hwait : e'.pipeline.sched.waiting = e.pipeline.sched.waiting)
    (hissued : e'.pipeline.issued = e.pipeline.issued)
    (hknown : e'.workerKnownReqIds = e.workerKnownReqIds)
    (hpending : e'.pendingFreeIds = e.pendingFreeIds)
    (hctx : e'.clients.requestContexts = e.clients.requestContexts)
    (hq : e'.clients.queues = e.clients.queues) (hused : e'.clients.usedIds = e.clients.usedIds) :
    Registry e' := by
  constructor
  · rw [hrun, hknown]
    exact h.running_known
  · rw [hrun, hpending]
    exact h.running_kept
  · rw [hrun, hknown, hpending]
    exact h.known_held
  · rw [hrun, hwait, hctx]
    exact h.contexts
  · rw [hrun, hwait, hq]
    exact h.failures
  · rw [hused, hq]
    exact h.unused
  · rw [hctx, hused]
    exact h.contexts_used
  · rw [hissued, hused]
    exact h.issued_used

theorem waiting_used (h : Registry e) {r : RequestId} (hr : r ∈ e.pipeline.sched.waiting) :
    r ∈ e.clients.usedIds :=
  h.contexts_used r (h.contexts r (.inr hr))

theorem dispatch {pass : Pass} {p : Pipeline} (h : Registry e)
    (hp : Passed e pass.output p (e.handlePass pass.output).pendingFreeIds)
    (hnd : (Pipeline.recordIds pass.output).Nodup) :
    Registry { (e.handlePass pass.output).sendStep pass with pipeline := p } := by
  have hknown := (Replica.handlePass_notifies e pass.output).known
  obtain ⟨hctx, hfail, hunused, hcused, hissued⟩ := h.notified hp fun r => h.waiting_used
  refine ⟨fun r hr => ?_, fun r _ => by simp [Replica.sendStep], fun r hr => ?_, hctx, hfail,
    hunused, hcused, hissued⟩
  · refine (mem_known_build hnd).mpr ?_
    rcases hp.running r hr with hrec | ⟨hrun, hkept⟩
    · exact .inr hrec
    · exact .inl ⟨by rw [hknown]; exact h.running_known r hrun, hkept⟩
  · refine .inl ?_
    rcases (mem_known_build hnd).mp hr with ⟨hk, hkept⟩ | hrec
    · rw [hknown] at hk
      exact hp.known r hk hkept
    · exact hp.records r hrec

/-- A pass that scheduled nothing. -/
theorem await {pass : Pass} {p : Pipeline} (h : Registry e)
    (hp : Passed e pass.output p (e.handlePass pass.output).pendingFreeIds)
    (hnil : Pipeline.recordIds pass.output = []) :
    Registry { e.handlePass pass.output with pipeline := p } := by
  have hknown := (Replica.handlePass_notifies e pass.output).known
  obtain ⟨hctx, hfail, hunused, hcused, hissued⟩ := h.notified hp fun r => h.waiting_used
  have hold : ∀ r ∈ p.sched.running, r ∈ e.pipeline.sched.running ∧
      r ∉ (e.handlePass pass.output).pendingFreeIds := by
    intro r hr
    refine (hp.running r hr).resolve_left ?_
    rw [hnil]
    exact List.not_mem_nil
  refine ⟨fun r hr => ?_, fun r hr => (hold r hr).2, fun r hr => ?_, hctx, hfail, hunused, hcused,
    hissued⟩
  · show r ∈ (e.handlePass pass.output).workerKnownReqIds
    rw [hknown]
    exact h.running_known r (hold r hr).1
  · by_cases hkept : r ∈ (e.handlePass pass.output).pendingFreeIds
    · exact .inr hkept
    · refine .inl (hp.known r ?_ hkept)
      rw [← hknown]
      exact hr

theorem flush (h : Registry e) : Registry e.flush := by
  unfold Replica.flush
  split
  · exact h
  · refine ⟨fun r hr => ?_, fun r _ => by simp, fun r hr => ?_, h.contexts, h.failures, h.unused,
      h.contexts_used, h.issued_used⟩
    · exact List.mem_filter.mpr ⟨h.running_known r hr, by simpa using h.running_kept r hr⟩
    · obtain ⟨hk, hkept⟩ := List.mem_filter.mp hr
      exact .inl ((h.known_held r hk).resolve_right (by simpa using hkept))

/-- Entries that are no failures are put, and requests leave the queues of the scheduler. -/
theorem shrink {P : RequestId → Queued → Prop} (h : Registry e)
    (hrun : ∀ r ∈ e'.pipeline.sched.running, r ∈ e.pipeline.sched.running)
    (hwait : ∀ r ∈ e'.pipeline.sched.waiting, r ∈ e.pipeline.sched.waiting)
    (hissued : e'.pipeline.issued = e.pipeline.issued)
    (hknown : e'.workerKnownReqIds = e.workerKnownReqIds)
    (hkept : ∀ r ∈ e.pendingFreeIds, r ∈ e'.pendingFreeIds)
    (hgone : ∀ r ∈ e.pipeline.sched.running, r ∉ e'.pipeline.sched.running →
      r ∈ e'.pendingFreeIds)
    (hnew : ∀ r ∈ e'.pendingFreeIds, r ∈ e.pendingFreeIds ∨ r ∉ e'.pipeline.sched.running)
    (hputs : Puts P e.clients e'.clients)
    (hP : ∀ r entry, P r entry → r ∈ e.clients.usedIds ∧ ∀ reason, entry ≠ .failure reason) :
    Registry e' := by
  refine ⟨fun r hr => ?_, fun r hr hmem => ?_, fun r hr => ?_, fun r hr => ?_, fun r reason hmem => ?_,
    fun r hr => ?_, fun r hr => ?_, fun r hr => ?_⟩
  · rw [hknown]
    exact h.running_known r (hrun r hr)
  · rcases hnew r hmem with hmem | hnr
    · exact h.running_kept r (hrun r hr) hmem
    · exact hnr hr
  · rw [hknown] at hr
    rcases h.known_held r hr with hr | hr
    · by_cases hr' : r ∈ e'.pipeline.sched.running
      · exact .inl hr'
      · exact .inr (hgone r hr hr')
    · exact .inr (hkept r hr)
  · exact (hputs.contexts r).mpr (h.contexts r (hr.imp (hrun r) (hwait r)))
  · obtain ⟨new, hq, hall⟩ := hputs.queues r
    rw [hq, List.mem_append] at hmem
    rcases hmem with hmem | hmem
    · have hnot := h.failures r reason hmem
      exact ⟨fun hr => hnot.1 (hrun r hr), fun hr => hnot.2 (hwait r hr)⟩
    · exact absurd rfl ((hP r _ (hall _ hmem)).2 reason)
  · rw [hputs.usedIds] at hr
    obtain ⟨new, hq, hall⟩ := hputs.queues r
    rw [hq, h.unused r hr, List.nil_append]
    exact List.eq_nil_iff_forall_not_mem.mpr fun entry hentry => hr (hP r entry (hall _ hentry)).1
  · rw [hputs.usedIds]
    exact h.contexts_used r ((hputs.contexts r).mp hr)
  · rw [hputs.usedIds]
    rw [hissued] at hr
    exact h.issued_used r hr

theorem receive {output : SchedulerOutput} {rest : List SchedulerOutput}
    {tokens : Scheduler.StepTokens} {s : Scheduler} {outputs : List RequestOutput}
    {stepIds : List Nat} {channel : Channel} (h : Registry e) (hwf : e.pipeline.WellFormed)
    (hfl : e.pipeline.inFlight = output :: rest)
    (hupd : e.pipeline.sched.updateFromOutput output tokens = .ok (s, outputs))
    (hdel : outputs.foldlM (Replica.deliver decode) { e with
      pipeline := { e.pipeline with sched := s, inFlight := rest, mustAwait := false }
      batchStepIds := stepIds, channel } = .ok e') : Registry e' := by
  obtain ⟨hemits, hd⟩ := receive_spec hwf hfl hupd hdel
  obtain ⟨mid, hu, -⟩ := hwf.update hfl hupd
  have hsub : ∀ r ∈ s.running, r ∈ e.pipeline.sched.running := fun r hr => by
    rw [hu.running] at hr
    exact (List.mem_filter.mp hr).1
  have hlive : ∀ r, (∃ out ∈ outputs, out.requestId = r) → r ∈ e.pipeline.sched.running := by
    rintro r ⟨out, hout, rfl⟩
    exact hemits.running out hout
  refine h.shrink (P := fun r entry => (∃ out ∈ outputs, out.requestId = r) ∧
    ∃ output, entry = .output output ∧ (output.finished = true → Final e'.pipeline.sched outputs r))
    (fun r hr => hsub r (hd.running r hr)) ?_ ?_ ?_ hd.kept ?_ ?_ hd.clients ?_
  · intro r hr
    rw [hd.waiting] at hr
    rwa [← hu.waiting]
  · rw [hd.inFlight]
  · rw [hd.rest]
  · intro r hr hnr
    by_cases hs : r ∈ s.running
    · exact hd.stopped r hs hnr
    · obtain ⟨out, hout, rfl, hf⟩ := hemits.finished r hr hs
      exact hd.freed out hout hf (h.contexts _ (.inl hr))
  · intro r hr
    refine (hd.pending r hr).imp_right ?_
    rintro ⟨-, hnr | ⟨out, hout, rfl, hf⟩⟩
    · exact hnr
    · exact fun hrun => hemits.final out hout hf (hd.running _ hrun)
  · rintro r entry ⟨hid, output, rfl, -⟩
    exact ⟨h.contexts_used r (h.contexts r (.inl (hlive r hid))), nofun⟩

/-- The queues after the batches in flight were dropped. -/
theorem discard_spec {p : Pipeline} (hwf : e.pipeline.WellFormed)
    (hstep : e.pipeline.Step .discard p) :
    (∀ r, r ∈ p.sched.running ↔ r ∈ e.pipeline.sched.running ∧ r ∉ e.droppedIds) ∧
      (∀ r, r ∈ p.sched.waiting ↔ r ∈ e.pipeline.sched.waiting ∧ r ∉ e.droppedIds) ∧
      (∀ r, r ∈ p.sched.requests ↔ r ∈ e.pipeline.sched.requests ∧ r ∉ e.droppedIds) ∧
      p.issued = e.pipeline.issued ∧ p.inFlight = [] := by
  cases hstep with
  | discard _ hdrop =>
    have hd := Scheduler.dropBatches_spec hwf.tracked hdrop
    have hids : ∀ r, r ∈ (e.pipeline.inFlight.flatMap (·.scheduledRequests)).map (·.requestId) ↔
        r ∈ e.droppedIds := by
      intro r
      simp only [Replica.mem_droppedIds, Pipeline.recordIds, List.mem_map, List.mem_flatMap]
      constructor
      · rintro ⟨sr, ⟨output, hout, hsr⟩, rfl⟩
        exact ⟨output, hout, sr, hsr, rfl⟩
      · rintro ⟨output, hout, sr, hsr, rfl⟩
        exact ⟨sr, ⟨output, hout, hsr⟩, rfl⟩
    refine ⟨fun r => ?_, fun r => ?_, fun r => ?_, rfl, rfl⟩
    · rw [hd.running, List.mem_filter, decide_eq_true_eq, hids]
    · rw [hd.waiting, List.mem_filter, decide_eq_true_eq, hids]
    · rw [hd.requests, List.mem_filter, decide_eq_true_eq, hids]

theorem dropped_issued {r : RequestId} (hwf : e.pipeline.WellFormed) (hr : r ∈ e.droppedIds) :
    r ∈ e.pipeline.issued := by
  obtain ⟨output, hout, hrec⟩ := Replica.mem_droppedIds.mp hr
  exact hwf.recorded output hout r hrec

theorem handleStepError {p : Pipeline} (pending : List Nat) (h : Registry e)
    (hwf : e.pipeline.WellFormed) (hstep : e.pipeline.Step .discard p) :
    Registry (e.handleStepError p pending) := by
  obtain ⟨hrun, hwait, -, hissued, -⟩ := discard_spec hwf hstep
  have hn := Replica.droppedIds_notifies e
  refine h.shrink (fun r hr => ((hrun r).mp hr).1) (fun r hr => ((hwait r).mp hr).1) hissued hn.known
    (fun r hr => (hn.pending r).mpr (.inl hr)) ?_ ?_ hn.clients ?_
  · intro r hr hnr
    refine (hn.pending r).mpr (.inr ?_)
    by_contra hdrop
    exact hnr ((hrun r).mpr ⟨hr, hdrop⟩)
  · intro r hr
    exact ((hn.pending r).mp hr).imp_right fun hdrop hr => ((hrun r).mp hr).2 hdrop
  · rintro r entry ⟨hdrop, rfl⟩
    exact ⟨h.issued_used r (dropped_issued hwf hdrop), nofun⟩

/-- The queues after one request was aborted. -/
theorem abort_spec {p : Pipeline} {r : RequestId} (hwf : e.pipeline.WellFormed)
    (hstep : e.pipeline.Step (.abort r) p) :
    (∀ x, x ∈ p.sched.running ↔ x ∈ e.pipeline.sched.running ∧ x ≠ r) ∧
      (∀ x, x ∈ p.sched.waiting ↔ x ∈ e.pipeline.sched.waiting ∧ x ≠ r) ∧
      (∀ x, x ∈ p.sched.requests ↔ x ∈ e.pipeline.sched.requests ∧ x ≠ r) ∧
      p.issued = e.pipeline.issued ∧ p.inFlight = e.pipeline.inFlight := by
  cases hstep with
  | @abort _ s habort =>
    rcases Scheduler.abortRequest_spec habort with ⟨hno, rfl⟩ | ⟨-, he, hw, hreq⟩
    · have hne : ∀ x, x ∈ e.pipeline.sched.requests → x ≠ r := by
        rintro x hx rfl
        exact hno hx
      refine ⟨fun x => ⟨fun hx => ⟨hx, ?_⟩, fun hx => hx.1⟩,
        fun x => ⟨fun hx => ⟨hx, ?_⟩, fun hx => hx.1⟩,
        fun x => ⟨fun hx => ⟨hx, hne x hx⟩, fun hx => hx.1⟩, rfl, rfl⟩
      · exact hne x (hwf.tracked x (.inl hx))
      · exact hne x (hwf.tracked x (.inr hx))
    · refine ⟨fun x => ?_, fun x => ?_, fun x => ?_, rfl, rfl⟩
      · rw [he.running, List.mem_filter, decide_eq_true_eq]
      · rw [hw, List.mem_filter, decide_eq_true_eq]
      · rw [hreq, List.mem_filter, decide_eq_true_eq]

/-- A request whose client is gone, with whatever entry it still gets. -/
theorem leave {p : Pipeline} {r : RequestId} {c : Clients} (h : Registry e)
    (hwf : e.pipeline.WellFormed) (hctx : r ∈ e.clients.requestContexts)
    (hstep : e.pipeline.Step (.abort r) p) (hcc : c.requestContexts = (e.clients.forget r).requestContexts)
    (hq : ∀ x, ∃ new, c.queues x = e.clients.queues x ++ new ∧ ∀ entry ∈ new, x = r ∧
      ∀ reason, entry ≠ .failure reason) (hused : c.usedIds = e.clients.usedIds) :
    Registry { e.release p r with clients := c } := by
  obtain ⟨hrun, hwait, -, hissued, -⟩ := abort_spec hwf hstep
  have hn := Notifies.scheduleWorkerFree (fun _ _ => True)
    { e with pipeline := p, clients := e.clients.forget r } r
  have hpipe : (e.release p r).pipeline = p := by rw [Replica.release, hn.rest]
  have hknown : (e.release p r).workerKnownReqIds = e.workerKnownReqIds := by
    rw [Replica.release, hn.rest]
  have hpending : ∀ x, x ∈ (e.release p r).pendingFreeIds ↔ x ∈ e.pendingFreeIds ∨ x = r :=
    hn.pending
  have hmem : ∀ x, x ∈ c.requestContexts ↔ x ≠ r ∧ x ∈ e.clients.requestContexts := by
    intro x
    rw [hcc, Clients.forget, AList.mem_erase]
  refine ⟨fun x hx => ?_, fun x hx hp => ?_, fun x hx => ?_, fun x hx => ?_, fun x reason hx => ?_,
    fun x hx => ?_, fun x hx => ?_, fun x hx => ?_⟩ <;> dsimp only at * <;>
    simp only [hpipe, hknown] at *
  · exact h.running_known x ((hrun x).mp hx).1
  · rcases (hpending x).mp hp with hp | rfl
    · exact h.running_kept x ((hrun x).mp hx).1 hp
    · exact ((hrun x).mp hx).2 rfl
  · rcases h.known_held x hx with hr | hp
    · by_cases hxr : x = r
      · exact .inr ((hpending x).mpr (.inr hxr))
      · exact .inl ((hrun x).mpr ⟨hr, hxr⟩)
    · exact .inr ((hpending x).mpr (.inl hp))
  · rcases hx with hx | hx
    · exact (hmem x).mpr ⟨((hrun x).mp hx).2, h.contexts x (.inl ((hrun x).mp hx).1)⟩
    · exact (hmem x).mpr ⟨((hwait x).mp hx).2, h.contexts x (.inr ((hwait x).mp hx).1)⟩
  · obtain ⟨new, hqx, hnew⟩ := hq x
    rw [hqx, List.mem_append] at hx
    rcases hx with hx | hx
    · have hnot := h.failures x reason hx
      exact ⟨fun hr => hnot.1 ((hrun x).mp hr).1, fun hr => hnot.2 ((hwait x).mp hr).1⟩
    · exact absurd rfl ((hnew _ hx).2 reason)
  · rw [hused] at hx
    obtain ⟨new, hqx, hnew⟩ := hq x
    rw [hqx, h.unused x hx, List.nil_append]
    refine List.eq_nil_iff_forall_not_mem.mpr fun entry hentry => hx ?_
    rw [(hnew entry hentry).1]
    exact h.contexts_used r hctx
  · rw [hused]
    exact h.contexts_used x ((hmem x).mp hx).2
  · rw [hused]
    rw [hissued] at hx
    exact h.issued_used x hx

/-- A new context, accepted by the scheduler or not. -/
theorem enter {request : Request} {stream : Bool} {p : Pipeline} {c : Clients} (h : Registry e)
    (hfresh : request.requestId ∉ e.clients.usedIds)
    (hrun : p.sched.running = e.pipeline.sched.running)
    (hwait : ∀ r ∈ p.sched.waiting, r ∈ e.pipeline.sched.waiting ∨ r = request.requestId)
    (hissued : ∀ r ∈ p.issued, r ∈ e.pipeline.issued ∨ r = request.requestId)
    (hcc : c.requestContexts = (e.clients.enter request.requestId stream).requestContexts)
    (hq : c.queues = e.clients.queues)
    (hused : c.usedIds = request.requestId :: e.clients.usedIds) :
    Registry { e with pipeline := p, clients := c } := by
  have hmem : ∀ x, x ∈ c.requestContexts ↔ x = request.requestId ∨ x ∈ e.clients.requestContexts := by
    intro x
    rw [hcc, Clients.enter, AList.mem_insert]
  refine ⟨fun r hr => ?_, fun r hr => ?_, fun r hr => ?_, fun r hr => ?_, fun r reason hr => ?_,
    fun r hr => ?_, fun r hr => ?_, fun r hr => ?_⟩ <;> dsimp only at *
  · rw [hrun] at hr
    exact h.running_known r hr
  · rw [hrun] at hr
    exact h.running_kept r hr
  · rw [hrun]
    exact h.known_held r hr
  · rw [hmem]
    rw [hrun] at hr
    rcases hr with hr | hr
    · exact .inr (h.contexts r (.inl hr))
    · exact (hwait r hr).symm.imp_right fun hr => h.contexts r (.inr hr)
  · rw [hq] at hr
    have hnot := h.failures r reason hr
    rw [hrun]
    refine ⟨hnot.1, fun hw => (hwait r hw).elim hnot.2 ?_⟩
    rintro rfl
    rw [h.unused _ hfresh] at hr
    cases hr
  · rw [hused, List.mem_cons, not_or] at hr
    rw [hq]
    exact h.unused r hr.2
  · rw [hused, List.mem_cons]
    exact ((hmem r).mp hr).imp_right (h.contexts_used r)
  · rw [hused, List.mem_cons]
    exact (hissued r hr).symm.imp_right (h.issued_used r)

/-- A generator takes the error of a rejection. -/
theorem takeFailure {r : RequestId} {reason : String} (h : Registry e)
    (hnext : e.clients.next? r = some (.failure reason)) :
    Registry { e with clients := ((e.clients.take r).forget r).close r } := by
  have hmem : .failure reason ∈ e.clients.queues r := List.mem_of_getElem? hnext
  have hnot := h.failures r reason hmem
  have hctx : ∀ x, x ∈ (((e.clients.take r).forget r).close r).requestContexts ↔
      x ≠ r ∧ x ∈ e.clients.requestContexts := fun x => AList.mem_erase
  refine ⟨h.running_known, h.running_kept, h.known_held, fun x hx => (hctx x).mpr ⟨?_, h.contexts x hx⟩,
    h.failures, h.unused, fun x hx => h.contexts_used x ((hctx x).mp hx).2, h.issued_used⟩
  rintro rfl
  exact hx.elim hnot.1 hnot.2

theorem recordIds_eq_nil {output : SchedulerOutput} (h : output.isEmpty = true) :
    Pipeline.recordIds output = [] := by
  rw [Pipeline.recordIds, List.isEmpty_iff.mp h]
  rfl

theorem step (h : Registry e) (hwf : e.pipeline.WellFormed) (hstep : Replica.Step decode e op e') :
    Registry e' := by
  cases hstep with
  | @add request stream p hfresh _ hstep =>
    cases hstep with
    | add _ hid hadd =>
      obtain ⟨stored, -, rfl⟩ := Scheduler.addRequest_spec hadd
      exact h.enter hfresh rfl (fun r hr => by simpa using hr) (fun r hr => (List.mem_cons.mp hr).symm)
        rfl rfl rfl
  | refuse _ hfresh _ => exact h.enter hfresh rfl (fun r => .inl) (fun r => .inl) rfl rfl rfl
  | dispatch _ hready hsched hne hadv =>
    obtain ⟨admitted, rejected, ha⟩ := hwf.afterPass hready hsched
    have hadv := ha.advances hwf.queues hadv
    exact h.dispatch (h.passed hwf hready hsched hadv.running hadv.waiting rfl) ha.summary.records_nodup
  | await _ hready hsched hempty _ =>
    exact h.await (h.passed hwf hready hsched rfl rfl rfl) (recordIds_eq_nil hempty)
  | @idle pass _ hready hsched hempty _ =>
    have hawait := h.await (p := { e.pipeline with sched := pass.sched, mustAwait := false })
      (h.passed hwf hready hsched rfl rfl rfl) (recordIds_eq_nil hempty)
    have hflush := hawait.flush
    unfold Replica.flush at hflush ⊢
    dsimp only at hflush ⊢
    split <;> simpa only [*, if_true, if_false] using hflush
  | flush => exact h.flush
  | receive _ _ _ _ _ hfl hupd hdel => exact h.receive hwf hfl hupd hdel
  | @failed _ stepIds _ _ _ _ _ _ _ hstep =>
    exact (h.handleStepError stepIds hwf hstep).congr rfl rfl rfl rfl rfl rfl rfl rfl
  | @desync _ stepIds _ _ _ _ _ _ hstep =>
    exact (h.handleStepError stepIds hwf hstep).congr rfl rfl rfl rfl rfl rfl rfl rfl
  | flushed => exact h.congr rfl rfl rfl rfl rfl rfl rfl rfl
  | drain => exact h.congr rfl rfl rfl rfl rfl rfl rfl rfl
  | timeout _ _ hstep => exact h.handleStepError _ hwf hstep
  | flushTimeout => exact h.congr rfl rfl rfl rfl rfl rfl rfl rfl
  | takeFailure _ hnext => exact h.takeFailure hnext
  | takeOutput => exact h.congr rfl rfl rfl rfl rfl rfl rfl rfl
  | resume => exact h.congr rfl rfl rfl rfl rfl rfl rfl rfl
  | complete => exact h.congr rfl rfl rfl rfl rfl rfl rfl rfl
  | cancel _ hctx hstep =>
    exact h.leave hwf hctx hstep rfl (fun x => ⟨[], (List.append_nil _).symm, by simp⟩) rfl
  | leave => exact h.congr rfl rfl rfl rfl rfl rfl rfl rfl
  | @abort r p hctx hstep =>
    refine h.leave hwf hctx hstep rfl (fun x => ?_) rfl
    have hputs : Puts (fun x entry => x = r ∧ ∀ reason, entry ≠ .failure reason)
        (e.clients.forget r) ((e.clients.forget r).put r (.output
          { finished := true, finishReason := RequestStatus.finishedAborted.name })) :=
      .put ⟨rfl, nofun⟩
    exact hputs.queues x
  | unknown => exact h
  | work => exact h.congr rfl rfl rfl rfl rfl rfl rfl rfl

end Registry

theorem registry_of_reachable (h : (replicaMachine decode).Reachable e) : Registry e :=
  h.invariant (fun _ => Registry.start) fun _ _ _ hr hi hstep =>
    hi.step (pipeline_wellFormed hr) hstep

end PyptoServing.Engine
