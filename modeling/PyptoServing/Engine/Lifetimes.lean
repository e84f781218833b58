import PyptoServing.Engine.Registration
import PyptoServing.Engine.Run

/-!
# What is left of a request

The dictionaries of the engine and of the scheduler, over the life of a request. A rejection
of `schedule()`, an abort and a client that leaves take the request out of all of them; a
request that ends in any other way stays in `requests` or `_request_contexts`. Which of these
happened is a history variable.
-/
namespace PyptoServing.Engine

open Lib Lib.Fallible Memory Sched Server

/-- The requests cleaned up so far: by an abort or a leaving client that found the context,
or by a rejection of `schedule()`. -/
def cleanups (cleaned : List RequestId) (e : Replica) (op : ReplicaOp) (_ : Replica) :
    List RequestId :=
  match op with
  | .cancel r | .abort r => if r ∈ e.clients.requestContexts then r :: cleaned else cleaned
  | .dispatch =>
    match e.pipeline.sched.schedule with
    | .ok pass => cleaned ++ pass.output.rejectedRequests.keys
    | .error _ => cleaned
  | _ => cleaned

/-- Runs of a replica with the requests cleaned up so far. -/
def lifetimeMachine (decode : List Int → String) : Machine (Replica × List RequestId) ReplicaOp :=
  (replicaMachine decode).track [] cleanups

def Replica.Live (e : Replica) (r : RequestId) : Prop :=
  r ∈ e.pipeline.sched.running ∨ r ∈ e.pipeline.sched.waiting

def Replica.InFlight (e : Replica) (r : RequestId) : Prop :=
  ∃ output ∈ e.pipeline.inFlight, r ∈ Pipeline.recordIds output

/-- The generator of a request still reads, and its queue holds no final output. -/
structure Attended (c : Clients) (r : RequestId) : Prop where
  reading : c.consumers.lookup r = some .waiting ∨ c.consumers.lookup r = some (.yielded false)
  unfinished : ∀ output, .output output ∈ c.queues r → output.finished = false

/-- A request that was rejected, and whose generator is about to learn of it. -/
structure Rejected (e : Replica) (r : RequestId) : Prop where
  attended : Attended e.clients r
  failure : ∃ i reason, e.clients.taken r ≤ i ∧ (e.clients.queues r)[i]? = some (.failure reason)
  settled : ¬ e.InFlight r

structure Lifetime (e : Replica) (cleaned : List RequestId) (r : RequestId) : Prop where
  used : r ∈ e.clients.usedIds → r ∈ e.clients.requestContexts ∨ r ∈ cleaned
  cleaned_used : r ∈ cleaned → r ∈ e.clients.usedIds
  unlisted : r ∈ cleaned → r ∉ e.pipeline.sched.requests
  live : e.Live r → Attended e.clients r
  taken : e.clients.taken r ≤ (e.clients.queues r).length
  failures : ∀ reason, .failure reason ∈ e.clients.queues r → r ∈ cleaned
  rejected : r ∈ cleaned → r ∈ e.clients.requestContexts → Rejected e r

/-- The step leaves a request alone, up to new entries on its queue. -/
structure Kept (e e' : Replica) (r : RequestId) (new : List Queued) : Prop where
  used : r ∈ e'.clients.usedIds ↔ r ∈ e.clients.usedIds
  contexts : r ∈ e'.clients.requestContexts ↔ r ∈ e.clients.requestContexts
  consumers : e'.clients.consumers.lookup r = e.clients.consumers.lookup r
  queues : e'.clients.queues r = e.clients.queues r ++ new
  taken : e'.clients.taken r = e.clients.taken r
  live : e'.Live r → e.Live r
  requests : r ∈ e'.pipeline.sched.requests → r ∈ e.pipeline.sched.requests

variable {e e' : Replica} {op : ReplicaOp} {decode : List Int → String}
  {cleaned cleaned' : List RequestId} {r : RequestId} {new : List Queued}

theorem Kept.of_puts {P : RequestId → Queued → Prop} (h : Puts P e.clients e'.clients)
    (hlive : e'.Live r → e.Live r)
    (hreq : r ∈ e'.pipeline.sched.requests → r ∈ e.pipeline.sched.requests) :
    ∃ new, Kept e e' r new ∧ ∀ entry ∈ new, P r entry := by
  obtain ⟨new, hq, hnew⟩ := h.queues r
  exact ⟨new, ⟨by rw [h.usedIds], h.contexts r, by rw [h.consumers], hq, by rw [h.taken], hlive,
    hreq⟩, hnew⟩

theorem Attended.extend (h : Attended e.clients r) (hk : Kept e e' r new)
    (hnew : ∀ output, .output output ∈ new → output.finished = false) : Attended e'.clients r := by
  refine ⟨?_, fun output hmem => ?_⟩
  · rw [hk.consumers]
    exact h.reading
  · rw [hk.queues, List.mem_append] at hmem
    exact hmem.elim (h.unfinished output) (hnew output)

namespace Lifetime

theorem extend (h : Lifetime e cleaned r) (hk : Kept e e' r new)
    (hfly : r ∈ cleaned → e'.InFlight r → e.InFlight r)
    (hfin : ∀ output, .output output ∈ new → output.finished = true →
      ¬ e'.Live r ∧ (r ∈ cleaned → r ∉ e.clients.requestContexts))
    (hfail : ∀ reason, .failure reason ∈ new → r ∈ cleaned) : Lifetime e' cleaned r := by
  refine ⟨fun hr => ?_, fun hr => ?_, fun hr hreq => ?_, fun hr => ?_, ?_, fun reason hmem => ?_,
    fun hr hctx => ?_⟩
  · rw [hk.contexts]
    exact h.used (hk.used.mp hr)
  · rw [hk.used]
    exact h.cleaned_used hr
  · exact h.unlisted hr (hk.requests hreq)
  · refine (h.live (hk.live hr)).extend hk fun output hmem => ?_
    by_contra hf
    exact (hfin output hmem (by simpa using hf)).1 hr
  · rw [hk.taken, hk.queues, List.length_append]
    exact h.taken.trans (Nat.le_add_right _ _)
  · rw [hk.queues, List.mem_append] at hmem
    exact hmem.elim (h.failures reason) (hfail reason)
  · rw [hk.contexts] at hctx
    have hrej := h.rejected hr hctx
    obtain ⟨i, reason, hle, hget⟩ := hrej.failure
    refine ⟨hrej.attended.extend hk fun output hmem => ?_, ⟨i, reason, ?_, ?_⟩,
      fun hf => hrej.settled (hfly hr hf)⟩
    · by_contra hf
      exact (hfin output hmem (by simpa using hf)).2 hr hctx
    · rw [hk.taken]
      exact hle
    · obtain ⟨hlt, -⟩ := List.getElem?_eq_some_iff.mp hget
      rw [hk.queues, List.getElem?_append_left hlt]
      exact hget

/-- Another request was cleaned up. -/
theorem congr (h : Lifetime e cleaned r) (hc : r ∈ cleaned' ↔ r ∈ cleaned) :
    Lifetime e cleaned' r := by
  constructor
  · rw [hc]; exact h.used
  · rw [hc]; exact h.cleaned_used
  · rw [hc]; exact h.unlisted
  · exact h.live
  · exact h.taken
  · rw [hc]; exact h.failures
  · rw [hc]; exact h.rejected

/-- Nothing of the request moves. -/
theorem same (h : Lifetime e cleaned r) (hk : Kept e e' r [])
    (hfly : r ∈ cleaned → e'.InFlight r → e.InFlight r) : Lifetime e' cleaned r :=
  h.extend hk hfly nofun nofun

end Lifetime

/-- A rejection reaches the queue of a request with a context. -/
theorem handlePass_failure {output : SchedulerOutput} {new : List Queued}
    (hr : r ∈ output.rejectedRequests.keys) (hctx : r ∈ e.clients.requestContexts)
    (hq : (e.handlePass output).clients.queues r = e.clients.queues r ++ new) :
    ∃ reason, .failure reason ∈ new := by
  obtain ⟨entry, hentry, rfl⟩ := List.mem_map.mp hr
  have hmem : (entry.1, entry.2) ∈
      output.rejectedRequests.entries.map fun entry => (entry.1, entry.2) :=
    List.mem_map_of_mem hentry
  obtain ⟨before, after, hsplit⟩ := List.append_of_mem hmem
  have hputs : ∀ (e₁ : Replica) (l : List (RequestId × String)),
      Puts (fun _ _ => True) e₁.clients (l.foldl Replica.rejectRequest e₁).clients := by
    intro e₁ l
    induction l generalizing e₁ with
    | nil => exact .refl _ _
    | cons rejection l ih =>
      exact (Replica.rejectRequest_notifies rejection trivial).clients.trans (ih _)
  unfold Replica.handlePass at hq
  dsimp only at hq
  rw [hsplit, List.foldl_append, List.foldl_cons] at hq
  -- The rejections before leave the context, those after it and the releases the entry.
  obtain ⟨old, hold, -⟩ := (hputs e before).queues entry.1
  have hctx' := ((hputs e before).contexts entry.1).mpr hctx
  generalize before.foldl Replica.rejectRequest e = e₁ at hold hctx' hq
  have hput : (e₁.rejectRequest (entry.1, entry.2)).clients.queues entry.1 =
      e₁.clients.queues entry.1 ++ [.failure entry.2] := by
    unfold Replica.rejectRequest Replica.scheduleWorkerFree Clients.notify
    simp only [if_pos hctx']
    split
    · split <;> simp [Clients.put]
    · simp [Clients.put]
  obtain ⟨later, hlater, -⟩ := (hputs (e₁.rejectRequest (entry.1, entry.2)) after).queues entry.1
  generalize after.foldl Replica.rejectRequest (e₁.rejectRequest (entry.1, entry.2)) = e₂ at hlater hq
  have hfree := Replica.freeAll_notifies (fun _ _ => False) e₂ output.preemptedRequests
  obtain ⟨rest, hrest, -⟩ := hfree.clients.queues entry.1
  rw [hrest, hlater, hput, hold] at hq
  simp only [List.append_assoc, List.append_cancel_left_eq] at hq
  exact ⟨entry.2, by simp [← hq]⟩

namespace Lifetime

theorem pass {pass : Pass} (h : Lifetime e cleaned r) (hreg : Registry e)
    (hwf : e.pipeline.WellFormed) (hready : e.pipeline.Ready)
    (hsched : e.pipeline.sched.schedule = .ok pass)
    (hpassed : Passed e pass.output e'.pipeline (e.handlePass pass.output).pendingFreeIds)
    (hreq : e'.pipeline.sched.requests = pass.sched.requests)
    (hfly : ∀ output ∈ e'.pipeline.inFlight, r ∈ Pipeline.recordIds output →
      e.InFlight r ∨ r ∈ Pipeline.recordIds pass.output)
    (hclients : e'.clients = (e.handlePass pass.output).clients) :
    Lifetime e' (cleaned ++ pass.output.rejectedRequests.keys) r := by
  obtain ⟨admitted, rejected, ha⟩ := hwf.afterPass hready hsched
  have hn := Replica.handlePass_notifies e pass.output
  have hlisted : r ∈ e'.pipeline.sched.requests →
      r ∈ e.pipeline.sched.requests ∧ r ∉ pass.output.rejectedRequests.keys := by
    intro hr
    rw [hreq, ha.summary.requests, List.mem_filter, decide_eq_true_eq] at hr
    exact ⟨hr.1, fun hrej => hr.2 ((ha.summary.rejectedIds r).mp hrej)⟩
  obtain ⟨new, hk, hnew⟩ : ∃ new, Kept e e' r new ∧ ∀ entry ∈ new,
      r ∈ pass.output.rejectedRequests.keys ∧ ∃ reason, entry = .failure reason := by
    exact Kept.of_puts (by rw [hclients]; exact hn.clients) (hpassed.live r)
      fun hr => (hlisted hr).1
  by_cases hrej : r ∈ pass.output.rejectedRequests.keys
  · obtain ⟨hwait, hnr, hnw⟩ := hpassed.rejected r hrej
    have hctx := hreg.contexts r (.inr hwait)
    have hatt := h.live (.inr hwait)
    have hdead : ¬ e'.Live r := not_or.mpr ⟨hnr, hnw⟩
    refine ⟨fun _ => .inr (List.mem_append_right _ hrej), fun _ => ?_, fun _ hr => (hlisted hr).2 hrej,
      fun hr => absurd hr hdead, ?_, fun _ _ => List.mem_append_right _ hrej, fun _ _ => ⟨?_, ?_, ?_⟩⟩
    · exact hk.used.mpr (hreg.waiting_used hwait)
    · rw [hk.taken, hk.queues, List.length_append]
      exact h.taken.trans (Nat.le_add_right _ _)
    · refine hatt.extend hk fun output hmem => ?_
      obtain ⟨-, reason, hentry⟩ := hnew _ hmem
      cases hentry
    · obtain ⟨reason, hput⟩ := handlePass_failure hrej hctx (by rw [← hclients]; exact hk.queues)
      obtain ⟨i, hi⟩ := List.mem_iff_getElem?.mp hput
      refine ⟨(e.clients.queues r).length + i, reason, ?_, ?_⟩
      · rw [hk.taken]
        exact h.taken.trans (Nat.le_add_right _ _)
      · rw [hk.queues, List.getElem?_append_right (Nat.le_add_right _ _), Nat.add_sub_cancel_left]
        exact hi
    · rintro ⟨output, hout, hrec⟩
      rcases hfly output hout hrec with ⟨old, hold, hrec⟩ | hrec
      · exact ha.settled old hold r hrec hwait
      · exact hnr (hpassed.records r hrec)
  · refine (h.extend hk (fun hr => ?_) (fun output hmem => absurd (hnew _ hmem).1 hrej)
      fun reason hmem => absurd (hnew _ hmem).1 hrej).congr ?_
    · rintro ⟨output, hout, hrec⟩
      refine (hfly output hout hrec).resolve_right fun hrec => h.unlisted hr ?_
      exact (hpassed.live r (.inl (hpassed.records r hrec))).elim (fun hr => hwf.tracked r (.inl hr))
        fun hr => hwf.tracked r (.inr hr)
    · rw [List.mem_append]
      exact or_iff_left hrej

theorem receive {output : SchedulerOutput} {rest : List SchedulerOutput}
    {tokens : Scheduler.StepTokens} {s : Scheduler} {outputs : List RequestOutput}
    {stepIds : List Nat} {channel : Channel} (h : Lifetime e cleaned r) (hwf : e.pipeline.WellFormed)
    (hfl : e.pipeline.inFlight = output :: rest)
    (hupd : e.pipeline.sched.updateFromOutput output tokens = .ok (s, outputs))
    (hdel : outputs.foldlM (Replica.deliver decode) { e with
      pipeline := { e.pipeline with sched := s, inFlight := rest, mustAwait := false }
      batchStepIds := stepIds, channel } = .ok e') : Lifetime e' cleaned r := by
  obtain ⟨hemits, hd⟩ := receive_spec hwf hfl hupd hdel
  obtain ⟨mid, hu, -⟩ := hwf.update hfl hupd
  have hrun : r ∈ e'.pipeline.sched.running → r ∈ e.pipeline.sched.running := by
    intro hr
    have hr := hd.running r hr
    dsimp only at hr
    rw [hu.running] at hr
    exact (List.mem_filter.mp hr).1
  have hwait : r ∈ e'.pipeline.sched.waiting → r ∈ e.pipeline.sched.waiting := by
    rw [hd.waiting]
    exact fun hr => hu.waiting ▸ hr
  obtain ⟨new, hk, hnew⟩ := Kept.of_puts hd.clients (e := e) (r := r) (fun hr => hr.imp hrun hwait)
    fun hr => hu.requests ▸ hd.requests ▸ hr
  refine h.extend hk (fun _ hin => ?_) (fun out hmem hfin => ?_) fun reason hmem => ?_
  · obtain ⟨o, ho, hrec⟩ := hin
    rw [hd.inFlight] at ho
    exact ⟨o, by rw [hfl]; exact List.mem_cons_of_mem _ ho, hrec⟩
  · obtain ⟨⟨o, ho, rfl⟩, _, hentry, hfinal⟩ := hnew _ hmem
    cases hentry
    have hbefore := hemits.running o ho
    refine ⟨?_, fun hc => absurd (hwf.tracked _ (.inl hbefore)) (h.unlisted hc)⟩
    rintro (hr | hw)
    · rcases hfinal hfin with hnr | ⟨o', ho', hid, hf⟩
      · exact hnr hr
      · exact hemits.final o' ho' hf (hid ▸ hd.running _ hr)
    · exact hwf.queues.disjoint _ hbefore (hwait hw)
  · obtain ⟨-, _, hentry, -⟩ := hnew _ hmem
    cases hentry

theorem handleStepError {p : Pipeline} (pending : List Nat) (h : Lifetime e cleaned r)
    (hwf : e.pipeline.WellFormed) (hstep : e.pipeline.Step .discard p) :
    Lifetime (e.handleStepError p pending) cleaned r := by
  obtain ⟨hrun, hwait, hreq, -, hnil⟩ := Registry.discard_spec hwf hstep
  have hn := Replica.droppedIds_notifies e
  obtain ⟨new, hk, hnew⟩ := @Kept.of_puts e (e.handleStepError p pending) r _ hn.clients (fun hr => hr.imp (fun hr => ((hrun r).mp hr).1) fun hr => ((hwait r).mp hr).1)
    fun hr => ((hreq r).mp hr).1
  refine h.extend hk (fun _ hin => ?_) (fun out hmem _ => ?_) fun reason hmem => ?_
  · obtain ⟨o, ho, -⟩ := hin
    rw [show (e.handleStepError p pending).pipeline.inFlight = [] from hnil] at ho
    cases ho
  · have hdrop := (hnew _ hmem).1
    refine ⟨?_, fun hc hctx => (h.rejected hc hctx).settled (Replica.mem_droppedIds.mp hdrop)⟩
    rintro (hr | hw)
    · exact ((hrun r).mp hr).2 hdrop
    · exact ((hwait r).mp hw).2 hdrop
  · cases (hnew _ hmem).2

/-- A request that is cleaned up and forgotten. -/
theorem of_forgotten (hused : r ∈ e.clients.usedIds) (hc : r ∈ cleaned) (hlive : ¬ e.Live r)
    (hreq : r ∉ e.pipeline.sched.requests) (hctx : r ∉ e.clients.requestContexts)
    (htaken : e.clients.taken r ≤ (e.clients.queues r).length) : Lifetime e cleaned r :=
  ⟨fun _ => .inr hc, fun _ => hused, fun _ => hreq, fun hr => absurd hr hlive, htaken,
    fun _ _ => hc, fun _ h => absurd h hctx⟩

/-- A generator moves: it takes an output, yields, resumes or ends. -/
theorem moves {c : Clients} (h : Lifetime e cleaned r) (hreg : Registry e)
    (hused : c.usedIds = e.clients.usedIds)
    (hcontexts : c.requestContexts = e.clients.requestContexts)
    (hqueues : c.queues = e.clients.queues)
    (htaken : c.taken r ≤ (e.clients.queues r).length)
    (hread : r ∈ e.clients.requestContexts → Attended e.clients r →
      c.consumers.lookup r = some .waiting ∨ c.consumers.lookup r = some (.yielded false))
    (hnext : ∀ i reason, e.clients.taken r ≤ i →
      (e.clients.queues r)[i]? = some (.failure reason) → c.taken r ≤ i) :
    Lifetime { e with clients := c } cleaned r := by
  have hatt : r ∈ e.clients.requestContexts → Attended e.clients r → Attended c r := by
    intro hctx ha
    refine ⟨hread hctx ha, ?_⟩
    rw [hqueues]
    exact ha.unfinished
  constructor
  · dsimp only
    rw [hused, hcontexts]
    exact h.used
  · dsimp only
    rw [hused]
    exact h.cleaned_used
  · exact h.unlisted
  · exact fun hr => hatt (hreg.contexts r hr) (h.live hr)
  · dsimp only
    rw [hqueues]
    exact htaken
  · dsimp only
    rw [hqueues]
    exact h.failures
  · dsimp only
    rw [hcontexts]
    intro hc hctx
    have hrej := h.rejected hc hctx
    obtain ⟨i, reason, hle, hget⟩ := hrej.failure
    refine ⟨hatt hctx hrej.attended, ⟨i, reason, hnext i reason hle hget, ?_⟩, hrej.settled⟩
    dsimp only
    rw [hqueues]
    exact hget

theorem takeOutput {x : RequestId} {output : TokenOutput} (h : Lifetime e cleaned r)
    (hreg : Registry e) (hnext : e.clients.next? x = some (.output output)) :
    Lifetime { e with clients := (e.clients.take x).suspend x (.yielded output.finished) }
      cleaned r := by
  by_cases hr : r = x
  · subst hr
    obtain ⟨hlt, -⟩ := List.getElem?_eq_some_iff.mp hnext
    have htaken : ((e.clients.take r).suspend r (.yielded output.finished)).taken r =
        e.clients.taken r + 1 := Function.update_self _ _ _
    refine h.moves hreg rfl rfl rfl ?_ (fun _ ha => .inr ?_) fun i reason hle hfail => ?_
    · rw [htaken]
      exact hlt
    · rw [Clients.suspend, AList.lookup_insert, ha.unfinished output (List.mem_of_getElem? hnext)]
    · rw [htaken]
      refine lt_of_le_of_ne hle ?_
      rintro rfl
      rw [show (e.clients.queues r)[e.clients.taken r]? = _ from hnext] at hfail
      cases hfail
  · have htaken : ((e.clients.take x).suspend x (.yielded output.finished)).taken r =
        e.clients.taken r := Function.update_of_ne hr _ _
    refine h.moves hreg rfl rfl rfl ?_ (fun _ ha => ?_) fun i reason hle _ => ?_
    · rw [htaken]
      exact h.taken
    · rw [Clients.suspend, AList.lookup_insert_ne hr]
      exact ha.reading
    · rw [htaken]
      exact hle

theorem resume {x : RequestId} (h : Lifetime e cleaned r) (hreg : Registry e) :
    Lifetime { e with clients := e.clients.suspend x .waiting } cleaned r := by
  refine h.moves hreg rfl rfl rfl h.taken (fun _ ha => ?_) fun i reason hle _ => hle
  rw [Clients.suspend]
  by_cases hr : r = x
  · rw [hr, AList.lookup_insert]
    exact .inl rfl
  · rw [AList.lookup_insert_ne hr]
    exact ha.reading

/-- A generator ends that nothing was open for. -/
theorem close {x : RequestId} (h : Lifetime e cleaned r) (hreg : Registry e)
    (hx : x ∈ e.clients.requestContexts → ¬ Attended e.clients x) :
    Lifetime { e with clients := e.clients.close x } cleaned r := by
  refine h.moves hreg rfl rfl rfl h.taken (fun hctx ha => ?_) fun i reason hle _ => hle
  have hr : r ≠ x := by
    rintro rfl
    exact hx hctx ha
  rw [Clients.close, AList.lookup_erase_ne hr]
  exact ha.reading

theorem takeFailure {x : RequestId} {reason : String} (h : Lifetime e cleaned r)
    (hwf : e.pipeline.WellFormed) (hnext : e.clients.next? x = some (.failure reason)) :
    Lifetime { e with clients := ((e.clients.take x).forget x).close x } cleaned r := by
  by_cases hr : r = x
  · subst hr
    obtain ⟨hlt, -⟩ := List.getElem?_eq_some_iff.mp hnext
    have hc := h.failures reason (List.mem_of_getElem? hnext)
    have hreq := h.unlisted hc
    refine of_forgotten (h.cleaned_used hc) hc (fun hl => hreq ?_) hreq (fun hctx => ?_) ?_
    · exact hl.elim (fun hl => hwf.tracked r (.inl hl)) fun hl => hwf.tracked r (.inr hl)
    · exact (AList.mem_erase.mp hctx).1 rfl
    · show Function.update e.clients.taken r (e.clients.taken r + 1) r ≤ _
      rw [Function.update_self]
      exact hlt
  · refine h.same ⟨.rfl, ?_, ?_, (List.append_nil _).symm, Function.update_of_ne hr _ _, id, id⟩
      fun _ => id
    · exact AList.mem_erase.trans (and_iff_right hr)
    · exact AList.lookup_erase_ne hr

/-- A client leaves while the engine has the context of its request. -/
theorem leave {p : Pipeline} {x : RequestId} {c : Clients} (h : Lifetime e cleaned r)
    (hreg : Registry e) (hwf : e.pipeline.WellFormed) (hx : x ∈ e.clients.requestContexts)
    (hstep : e.pipeline.Step (.abort x) p) (hused : c.usedIds = e.clients.usedIds)
    (hcontexts : c.requestContexts = (e.clients.forget x).requestContexts)
    (htaken : c.taken = e.clients.taken)
    (hqueue : ∀ y, ∃ new, c.queues y = e.clients.queues y ++ new ∧ (y ≠ x → new = []))
    (hconsumers : ∀ y, y ≠ x → c.consumers.lookup y = e.clients.consumers.lookup y) :
    Lifetime { e.release p x with clients := c } (x :: cleaned) r := by
  obtain ⟨hrun, hwait, hreq, -, hfl⟩ := Registry.abort_spec hwf hstep
  have hpipe : (e.release p x).pipeline = p := by
    rw [Replica.release, (Notifies.scheduleWorkerFree (fun _ _ => True) _ x).rest]
  have hlive : (Replica.Live { e.release p x with clients := c } r) ↔ e.Live r ∧ r ≠ x := by
    rw [Replica.Live, hpipe, hrun, hwait, Replica.Live]
    tauto
  obtain ⟨new, hnew, hne⟩ := hqueue r
  by_cases hr : r = x
  · subst hr
    refine of_forgotten ?_ (by simp) (fun hl => (hlive.mp hl).2 rfl) (fun hmem => ?_)
      (fun hctx => ?_) ?_
    · show r ∈ c.usedIds
      rw [hused]
      exact hreg.contexts_used r hx
    · dsimp only at hmem
      rw [hpipe, hreq] at hmem
      exact hmem.2 rfl
    · dsimp only at hctx
      rw [hcontexts] at hctx
      exact (AList.mem_erase.mp hctx).1 rfl
    · show c.taken r ≤ (c.queues r).length
      rw [htaken, hnew, List.length_append]
      exact h.taken.trans (Nat.le_add_right _ _)
  · rw [hne hr] at hnew
    refine (h.same ⟨by rw [hused], ?_, hconsumers r hr, hnew, by rw [htaken], fun hl => (hlive.mp hl).1,
      fun hmem => ?_⟩ fun _ hin => ?_).congr (by simp [hr])
    · dsimp only
      rw [hcontexts]
      exact AList.mem_erase.trans (and_iff_right hr)
    · dsimp only at hmem
      rw [hpipe, hreq] at hmem
      exact hmem.1
    · obtain ⟨output, hout, hrec⟩ := hin
      dsimp only at hout
      rw [hpipe, hfl] at hout
      exact ⟨output, hout, hrec⟩

/-- A new context, with the request in the scheduler when that accepted it. -/
theorem enter {request : Request} {stream : Bool} {p : Pipeline} {c : Clients}
    (h : Lifetime e cleaned r) (hreg : Registry e) (hfresh : request.requestId ∉ e.clients.usedIds)
    (hc : c = e.clients.enter request.requestId stream ∨
      c = (e.clients.enter request.requestId stream).suspend request.requestId .waiting)
    (hlive : Replica.Live { e with pipeline := p, clients := c } request.requestId →
      c.consumers.lookup request.requestId = some .waiting)
    (hkept : r ≠ request.requestId →
      (Replica.Live { e with pipeline := p, clients := c } r → e.Live r) ∧
      (r ∈ p.sched.requests → r ∈ e.pipeline.sched.requests))
    (hfl : p.inFlight = e.pipeline.inFlight) :
    Lifetime { e with pipeline := p, clients := c } cleaned r := by
  obtain ⟨hused, hctx, hqueues, htaken, hcons⟩ : c.usedIds = request.requestId :: e.clients.usedIds ∧
      (∀ x, x ∈ c.requestContexts ↔ x = request.requestId ∨ x ∈ e.clients.requestContexts) ∧
      c.queues = e.clients.queues ∧ c.taken = e.clients.taken ∧
      ∀ x, x ≠ request.requestId → c.consumers.lookup x = e.clients.consumers.lookup x := by
    rcases hc with rfl | rfl
    · exact ⟨rfl, fun x => AList.mem_insert _, rfl, rfl, fun _ _ => rfl⟩
    · exact ⟨rfl, fun x => AList.mem_insert _, rfl, rfl, fun _ hx => AList.lookup_insert_ne hx⟩
  by_cases hr : r = request.requestId
  · subst hr
    have hnc : request.requestId ∉ cleaned := fun hmem => hfresh (h.cleaned_used hmem)
    have hnil := hreg.unused _ hfresh
    refine ⟨fun _ => .inl ((hctx _).mpr (.inl rfl)), fun hmem => absurd hmem hnc,
      fun hmem => absurd hmem hnc, fun hl => ⟨.inl (hlive hl), ?_⟩, ?_, ?_, fun hmem => absurd hmem hnc⟩
    · dsimp only
      rw [hqueues, hnil]
      exact nofun
    · dsimp only
      rw [hqueues, htaken]
      exact h.taken
    · dsimp only
      rw [hqueues, hnil]
      exact nofun
  · refine h.same ⟨?_, (hctx r).trans (or_iff_right hr), hcons r hr, ?_, by rw [htaken], (hkept hr).1,
      (hkept hr).2⟩ fun _ hin => ?_
    · dsimp only
      rw [hused, List.mem_cons]
      exact or_iff_right hr
    · dsimp only
      rw [hqueues, List.append_nil]
    · obtain ⟨output, hout, hrec⟩ := hin
      dsimp only at hout
      rw [hfl] at hout
      exact ⟨output, hout, hrec⟩

/-- Only the channel and the releases move. -/
theorem aside (h : Lifetime e cleaned r) (hpipe : e'.pipeline = e.pipeline)
    (hclients : e'.clients = e.clients) : Lifetime e' cleaned r := by
  refine h.same ⟨by rw [hclients], by rw [hclients], by rw [hclients], by rw [hclients]; simp,
    by rw [hclients], ?_, by rw [hpipe]; exact id⟩ fun _ => ?_
  · rw [Replica.Live, hpipe]
    exact id
  · rw [Replica.InFlight, hpipe]
    exact id

theorem step (h : Lifetime e cleaned r) (hreg : Registry e) (hwf : e.pipeline.WellFormed)
    (hstep : Replica.Step decode e op e') : Lifetime e' (cleanups cleaned e op e') r := by
  have hflush : ∀ e₁ : Replica, e₁.flush.pipeline = e₁.pipeline ∧ e₁.flush.clients = e₁.clients := by
    intro e₁
    unfold Replica.flush
    split <;> exact ⟨rfl, rfl⟩
  cases hstep with
  | @add request stream p hfresh _ hstep =>
    cases hstep with
    | add _ _ hadd =>
      obtain ⟨stored, -, rfl⟩ := Scheduler.addRequest_spec hadd
      refine h.enter hreg hfresh (.inr rfl) (fun _ => AList.lookup_insert _) (fun hr => ⟨?_, ?_⟩) rfl
      · rintro (hl | hl)
        · exact .inl hl
        · exact .inr ((List.mem_append.mp hl).resolve_right fun hl => hr (List.mem_singleton.mp hl))
      · intro hl
        exact (List.mem_append.mp hl).resolve_right fun hl => hr (List.mem_singleton.mp hl)
  | refuse _ hfresh _ =>
    refine h.enter hreg hfresh (.inl rfl) (fun hl => ?_) (fun _ => ⟨id, id⟩) rfl
    exact absurd (hreg.contexts_used _ (hreg.contexts _ hl)) hfresh
  | @dispatch pass _ _ _ hready hsched _ hadv =>
    obtain ⟨admitted, rejected, ha⟩ := hwf.afterPass hready hsched
    have hadv := ha.advances hwf.queues hadv
    rw [cleanups, hsched]
    refine h.pass hreg hwf hready hsched
      (hreg.passed hwf hready hsched hadv.running hadv.waiting rfl) hadv.requests ?_ rfl
    intro o ho hrec
    rcases List.mem_append.mp ho with ho | ho
    · exact .inl ⟨o, ho, hrec⟩
    · rw [List.mem_singleton.mp ho, Pipeline.recordIds, hadv.ids] at hrec
      exact .inr hrec
  | @await pass _ hready hsched _ _ =>
    rw [cleanups, hsched]
    exact h.pass hreg hwf hready hsched (hreg.passed hwf hready hsched rfl rfl rfl) rfl
      (fun o ho hrec => .inl ⟨o, ho, hrec⟩) rfl
  | @idle pass _ hready hsched _ _ =>
    rw [cleanups, hsched]
    exact h.pass hreg hwf hready hsched (hreg.passed hwf hready hsched rfl rfl rfl) rfl
      (fun o ho hrec => .inl ⟨o, ho, hrec⟩) (hflush _).2
  | flush => exact h.aside (hflush e).1 (hflush e).2
  | receive _ _ _ _ _ hfl hupd hdel => exact h.receive hwf hfl hupd hdel
  | @failed _ stepIds _ _ _ _ _ _ _ hstep =>
    exact Lifetime.aside (h.handleStepError stepIds hwf hstep) rfl rfl
  | @desync _ stepIds _ _ _ _ _ _ hstep =>
    exact Lifetime.aside (h.handleStepError stepIds hwf hstep) rfl rfl
  | timeout _ _ hstep => exact h.handleStepError _ hwf hstep
  | takeFailure _ hnext => exact h.takeFailure hwf hnext
  | takeOutput _ hnext => exact h.takeOutput hreg hnext
  | resume => exact h.resume hreg
  | complete hyielded =>
    refine h.close hreg fun _ ha => ?_
    rcases ha.reading with hr | hr <;> rw [hyielded] at hr <;> cases hr
  | @cancel x _ _ hctx hstep =>
    rw [cleanups, if_pos hctx]
    refine h.leave hreg hwf hctx hstep rfl rfl rfl (fun y => ⟨[], (List.append_nil _).symm, fun _ => rfl⟩)
      fun y hy => AList.lookup_erase_ne hy
  | leave _ hctx =>
    rw [cleanups, if_neg hctx]
    exact h.close hreg fun hx => absurd hx hctx
  | @abort x _ hctx hstep =>
    rw [cleanups, if_pos hctx]
    refine h.leave hreg hwf hctx hstep rfl rfl rfl (fun y => ?_) fun _ _ => rfl
    by_cases hy : y = x
    · exact ⟨_, by rw [hy]; exact Function.update_self _ _ _, fun hne => absurd hy hne⟩
    · refine ⟨[], ?_, fun _ => rfl⟩
      rw [List.append_nil]
      exact Function.update_of_ne hy _ _
  | unknown hctx =>
    rw [cleanups, if_neg hctx]
    exact h
  | flushed | drain | flushTimeout | work => exact h.aside rfl rfl

end Lifetime

theorem lifetime_of_reachable (h : (lifetimeMachine decode).Reachable (e, cleaned)) :
    ∀ r, Lifetime e cleaned r := by
  have hall : ∀ p, (lifetimeMachine decode).Reachable p → ∀ r, Lifetime p.1 p.2 r := by
    intro p hp
    induction hp with
    | start h0 =>
      obtain ⟨hstart, hnil⟩ := h0
      obtain ⟨hrun, hwait⟩ := hstart.queues
      intro r
      rw [hnil, hstart.rest]
      refine ⟨nofun, nofun, nofun, fun hl => ?_, le_rfl, nofun, nofun⟩
      rw [Replica.Live, hrun, hwait] at hl
      exact absurd hl (by simp)
    | next hp hstep ih =>
      intro r
      have hr := Machine.track_reachable_fst hp
      have h := (ih r).step (registry_of_reachable hr) (pipeline_wellFormed hr) hstep.1
      rwa [← hstep.2] at h
  exact hall _ h

/-- A request that has ended, whose outputs were read and whose steps are drained. -/
structure Over (e : Replica) (r : RequestId) : Prop where
  used : r ∈ e.clients.usedIds
  terminated : r ∈ e.pipeline.issued → (e.pipeline.sched.object r).status.isFinished = true
  consumed : r ∉ e.clients.consumers ∨ e.clients.taken r = (e.clients.queues r).length
  drained : ¬ e.InFlight r

/-- The engine does not know the request once the next command is built. -/
def Forgotten (decode : List Int → String) (e : Replica) (r : RequestId) : Prop :=
  ∀ ops e', (replicaMachine decode).Run e ops e' →
    e.channel.commands.length < e'.channel.commands.length → r ∉ e'.workerKnownReqIds

structure Gone (decode : List Int → String) (e : Replica) (r : RequestId) : Prop where
  requests : r ∉ e.pipeline.sched.requests
  waiting : r ∉ e.pipeline.sched.waiting
  running : r ∉ e.pipeline.sched.running
  contexts : r ∉ e.clients.requestContexts
  known : Forgotten decode e r

/-- The same of all requests at once. -/
structure Emptied (decode : List Int → String) (e : Replica) : Prop where
  requests : e.pipeline.sched.requests = []
  waiting : e.pipeline.sched.waiting = []
  running : e.pipeline.sched.running = []
  contexts : e.clients.requestContexts.keys = []
  known : ∀ r ∈ e.clients.usedIds, Forgotten decode e r

/-- A step without a command leaves the known ids alone, and a command leaves no release
behind. -/
theorem step_command (hwf : e.pipeline.WellFormed) (hstep : Replica.Step decode e op e') :
    (e'.channel.commands = e.channel.commands ∧ e'.workerKnownReqIds = e.workerKnownReqIds) ∨
      e'.pendingFreeIds = [] := by
  cases step_traffic hwf hstep with
  | quiet hq => exact .inl ⟨hq.commands, hq.known⟩
  | sent => exact .inr rfl
  | flushed _ _ hpend =>
    right
    rw [Replica.flush, if_neg hpend]
  | worked => exact .inl ⟨rfl, rfl⟩

theorem forgotten_of_cleaned (h : (lifetimeMachine decode).Reachable (e, cleaned))
    (hr : r ∈ cleaned) : Forgotten decode e r := by
  have hrun : ∀ ops e', (replicaMachine decode).Run e ops e' →
      ∃ cleaned', (lifetimeMachine decode).Reachable (e', cleaned') ∧ r ∈ cleaned' ∧
        (e'.channel.commands = e.channel.commands ∨ r ∉ e'.workerKnownReqIds) := by
    intro ops e' hrun
    induction hrun with
    | nil => exact ⟨cleaned, h, hr, .inl rfl⟩
    | @snoc e₁ e₂ ops op _ hstep ih =>
      obtain ⟨cleaned₁, h₁, hr₁, hcmd⟩ := ih
      have hnext : (lifetimeMachine decode).Reachable (e₂, cleanups cleaned₁ e₁ op e₂) :=
        h₁.next ⟨hstep, rfl⟩
      have hmem : r ∈ cleanups cleaned₁ e₁ op e₂ := by
        unfold cleanups
        split
        · split <;> simp [hr₁]
        · split <;> simp [hr₁]
        · split <;> simp [hr₁]
        · exact hr₁
      have hr₂ := Machine.track_reachable_fst hnext
      refine ⟨_, hnext, hmem, ?_⟩
      rcases step_command (pipeline_wellFormed (Machine.track_reachable_fst h₁)) hstep with
        ⟨hsame, hknown⟩ | hnil
      · rw [hsame, hknown]
        exact hcmd
      · refine .inr fun hkn => ?_
        have hrun := ((registry_of_reachable hr₂).known_held r hkn).resolve_right (by simp [hnil])
        exact (lifetime_of_reachable hnext r).unlisted hmem
          ((pipeline_wellFormed hr₂).tracked r (.inl hrun))
  intro ops e' hops hlt
  obtain ⟨-, -, -, hsame | hno⟩ := hrun ops e' hops
  · rw [hsame] at hlt
    exact absurd hlt (lt_irrefl _)
  · exact hno

theorem gone_iff (h : (lifetimeMachine decode).Reachable (e, cleaned)) (hover : Over e r) :
    Gone decode e r ↔ r ∈ cleaned := by
  have hl := lifetime_of_reachable h r
  have hwf := pipeline_wellFormed (Machine.track_reachable_fst h)
  constructor
  · intro hgone
    exact (hl.used hover.used).resolve_left hgone.contexts
  · intro hr
    have hreq := hl.unlisted hr
    refine ⟨hreq, fun hw => hreq (hwf.tracked r (.inr hw)), fun hrun => hreq (hwf.tracked r (.inl hrun)),
      fun hctx => ?_, forgotten_of_cleaned h hr⟩
    obtain ⟨⟨hread, -⟩, ⟨i, reason, hle, hget⟩, -⟩ := hl.rejected hr hctx
    rcases hover.consumed with hend | htaken
    · rw [← AList.lookup_eq_none] at hend
      rcases hread with hread | hread <;> rw [hend] at hread <;> cases hread
    · obtain ⟨hlt, -⟩ := List.getElem?_eq_some_iff.mp hget
      omega

/-- Which of the ways to end leaves nothing behind. -/
theorem request_state_gone_iff (h : (lifetimeMachine decode).Reachable (e, cleaned)) :
    (∀ r, Over e r → (Gone decode e r ↔ r ∈ cleaned)) ∧
      ((∀ r ∈ e.clients.usedIds, Over e r) →
        (Emptied decode e ↔ ∀ r ∈ e.clients.usedIds, r ∈ cleaned)) := by
  have hr := Machine.track_reachable_fst h
  have hreg := registry_of_reachable hr
  have hwf := pipeline_wellFormed hr
  refine ⟨fun r => gone_iff h, fun hall => ⟨fun hempty r hused => ?_, fun hcleaned => ?_⟩⟩
  · refine (gone_iff h (hall r hused)).mp ⟨?_, ?_, ?_, ?_, hempty.known r hused⟩
    · simp [hempty.requests]
    · simp [hempty.waiting]
    · simp [hempty.running]
    · show r ∉ e.clients.requestContexts.keys
      rw [hempty.contexts]
      exact List.not_mem_nil
  · have hgone : ∀ r ∈ e.clients.usedIds, Gone decode e r := fun r hused =>
      (gone_iff h (hall r hused)).mpr (hcleaned r hused)
    have hlisted : ∀ r ∈ e.pipeline.sched.requests, r ∈ e.clients.usedIds := fun r hreq =>
      hreg.issued_used r (hwf.issued r hreq)
    refine ⟨?_, ?_, ?_, ?_, fun r hused => (hgone r hused).known⟩ <;>
      refine List.eq_nil_iff_forall_not_mem.mpr fun r hmem => ?_
    · exact (hgone r (hlisted r hmem)).requests hmem
    · exact (hgone r (hlisted r (hwf.tracked r (.inr hmem)))).waiting hmem
    · exact (hgone r (hlisted r (hwf.tracked r (.inl hmem)))).running hmem
    · exact (hgone r (hreg.contexts_used r hmem)).contexts hmem

instance (e : Replica) (r : RequestId) : Decidable (e.InFlight r) :=
  inferInstanceAs (Decidable (∃ output ∈ e.pipeline.inFlight, r ∈ Pipeline.recordIds output))

instance (e : Replica) (r : RequestId) : Decidable (Over e r) :=
  decidable_of_iff (r ∈ e.clients.usedIds ∧
      (r ∈ e.pipeline.issued → (e.pipeline.sched.object r).status.isFinished = true) ∧
      (r ∉ e.clients.consumers ∨ e.clients.taken r = (e.clients.queues r).length) ∧ ¬ e.InFlight r)
    ⟨fun h => ⟨h.1, h.2.1, h.2.2.1, h.2.2.2⟩,
      fun h => ⟨h.used, h.terminated, h.consumed, h.drained⟩⟩

/-- Run operations with the requests cleaned up. -/
def execCleaned (decode : List Int → String) (p : Replica × List RequestId)
    (ops : List ReplicaOp) : Option (Replica × List RequestId) :=
  ops.foldlM (fun p op => (p.1.exec decode op).map fun e' => (e', cleanups p.2 p.1 op e')) p

theorem execCleaned_reachable {p p' : Replica × List RequestId} {ops : List ReplicaOp}
    (hops : ∀ op ∈ ops, Replica.OpSound op) (hp : (lifetimeMachine decode).Reachable p)
    (h : execCleaned decode p ops = some p') : (lifetimeMachine decode).Reachable p' := by
  induction ops generalizing p with
  | nil =>
    cases h
    exact hp
  | cons op ops ih =>
    rw [execCleaned, List.foldlM_cons] at h
    obtain ⟨p₁, hone, h⟩ := Option.bind_eq_some_iff.mp h
    obtain ⟨e', hexec, rfl⟩ := Option.map_eq_some_iff.mp hone
    have hstep : (lifetimeMachine decode).step p op (e', cleanups p.2 p.1 op e') :=
      ⟨Replica.exec_step (hops op (by simp)) hexec, rfl⟩
    exact ih (fun op hmem => hops op (by simp [hmem])) (hp.next hstep) h

/-- "a" runs to its length limit; "b" is aborted. -/
def mixedOps : List ReplicaOp :=
  [.add (plainRequest "a" [1] 1 0) true, .dispatch, .work sampleSeven, .receive, .consume "a",
    .resume "a", .add (plainRequest "b" [1] 1 1) true, .abort "b", .consume "b", .resume "b"]

theorem mixedOps_sound : ∀ op ∈ mixedOps, Replica.OpSound op := by
  intro op hop
  simp only [mixedOps, List.mem_cons, List.not_mem_nil, or_false] at hop
  rcases hop with rfl | rfl | rfl | rfl | rfl | rfl | rfl | rfl | rfl | rfl
  · exact plainRequest_fresh (by decide)
  · trivial
  · exact sampleSeven_samples
  · trivial
  · trivial
  · trivial
  · exact plainRequest_fresh (by decide)
  · trivial
  · trivial
  · trivial

def mixedRun : Option (Replica × List RequestId) :=
  pipelinedBoot.bind fun p => execCleaned (fun _ => "") ({ pipeline := p }, []) mixedOps

theorem mixedRun_reachable {p : Replica × List RequestId} (h : mixedRun = some p) :
    (lifetimeMachine fun _ => "").Reachable p := by
  obtain ⟨p₀, hboot, h⟩ := Option.bind_eq_some_iff.mp h
  exact execCleaned_reachable mixedOps_sound (.start ⟨⟨pipelinedBoot_started hboot, rfl⟩, rfl⟩) h

theorem aborted_gone_finished_kept : ∃ e cleaned,
    (lifetimeMachine fun _ => "").Reachable (e, cleaned) ∧ Over e "a" ∧ Over e "b" ∧
      ¬ Gone (fun _ => "") e "a" ∧ Gone (fun _ => "") e "b" := by
  have hrun : (mixedRun.map fun p => decide (Over p.1 "a" ∧ Over p.1 "b" ∧ p.2 = ["b"])) =
      some true := by
    decide
  obtain ⟨⟨e, cleaned⟩, hboot, h⟩ := Option.map_eq_some_iff.mp hrun
  obtain ⟨ha, hb, hcleaned⟩ := of_decide_eq_true h
  dsimp only at ha hb hcleaned
  have he := mixedRun_reachable hboot
  obtain ⟨hgone, -⟩ := request_state_gone_iff he
  refine ⟨e, cleaned, he, ha, hb, ?_, ?_⟩
  · rw [hgone "a" ha, hcleaned]
    decide
  · exact (hgone "b" hb).mpr (hcleaned ▸ List.mem_singleton_self _)

/-- A request that ran to its length limit stays in `requests`. -/
theorem finished_request_kept : ¬ ∀ e, (replicaMachine fun _ => "").Reachable e →
    ∀ r, Over e r → Gone (fun _ => "") e r := by
  intro hall
  have hrun : (mixedRun.map fun p => decide (Over p.1 "a" ∧ "a" ∈ p.1.pipeline.sched.requests)) =
      some true := by
    decide
  obtain ⟨p, hboot, h⟩ := Option.map_eq_some_iff.mp hrun
  obtain ⟨hover, hmem⟩ := of_decide_eq_true h
  have hp := Machine.track_reachable_fst (mixedRun_reachable hboot)
  exact (hall p.1 hp "a" hover).requests hmem

end PyptoServing.Engine
