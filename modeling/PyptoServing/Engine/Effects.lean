import PyptoServing.Engine.Replica
import PyptoServing.Sched.Outputs

/-!
# What a step of a replica changes

One lemma for each part of the engine loop: which requests are queued for release, what is
put on the output queues, and which pipeline operations the step stands for.
-/
namespace PyptoServing.Engine

open Lib Lib.Fallible Memory Sched Server

/-- Entries that meet `P` are put on queues, and the contexts stay. -/
structure Puts (P : RequestId → Queued → Prop) (c c' : Clients) : Prop where
  contexts : ∀ r, r ∈ c'.requestContexts ↔ r ∈ c.requestContexts
  queues : ∀ r, ∃ new, c'.queues r = c.queues r ++ new ∧ ∀ entry ∈ new, P r entry
  taken : c'.taken = c.taken
  consumers : c'.consumers = c.consumers
  usedIds : c'.usedIds = c.usedIds

namespace Puts
variable {P Q : RequestId → Queued → Prop} {c c₁ c₂ : Clients} {r : RequestId}

theorem refl (P : RequestId → Queued → Prop) (c : Clients) : Puts P c c :=
  ⟨fun _ => .rfl, fun r => ⟨[], by simp⟩, rfl, rfl, rfl⟩

theorem trans (h : Puts P c c₁) (h' : Puts P c₁ c₂) : Puts P c c₂ := by
  refine ⟨fun r => (h'.contexts r).trans (h.contexts r), fun r => ?_, h'.taken.trans h.taken,
    h'.consumers.trans h.consumers, h'.usedIds.trans h.usedIds⟩
  obtain ⟨new, hq, hP⟩ := h.queues r
  obtain ⟨new', hq', hP'⟩ := h'.queues r
  refine ⟨new ++ new', by rw [hq', hq, List.append_assoc], fun entry hentry => ?_⟩
  rcases List.mem_append.mp hentry with hentry | hentry
  · exact hP entry hentry
  · exact hP' entry hentry

theorem mono (h : Puts P c c₁) (hPQ : ∀ r entry, P r entry → Q r entry) : Puts Q c c₁ :=
  ⟨h.contexts, fun r => (h.queues r).imp fun _ hnew =>
    ⟨hnew.1, fun entry hentry => hPQ r entry (hnew.2 entry hentry)⟩, h.taken, h.consumers,
    h.usedIds⟩

theorem put {entry : Queued} (h : P r entry) : Puts P c (c.put r entry) := by
  refine ⟨fun _ => .rfl, fun x => ?_, rfl, rfl, rfl⟩
  by_cases hx : x = r
  · subst hx
    exact ⟨[entry], by simp [Clients.put], by simpa using h⟩
  · exact ⟨[], by simp [Clients.put, Function.update_of_ne hx], by simp⟩

theorem notify {entry : Queued} (h : P r entry) : Puts P c (c.notify r entry) := by
  unfold Clients.notify
  split
  · exact put h
  · exact refl P c

theorem setContext (hr : r ∈ c.requestContexts) (ctx : Context) : Puts P c (c.setContext r ctx) := by
  refine ⟨fun x => ?_, fun x => ⟨[], by simp [Clients.setContext], by simp⟩, rfl, rfl, rfl⟩
  rw [Clients.setContext, AList.mem_insert]
  exact ⟨fun hx => hx.elim (fun hx => hx ▸ hr) id, .inr⟩

end Puts

/-- Only the pending releases and the clients move. -/
structure Notifies (P : RequestId → Queued → Prop) (freed : RequestId → Prop) (e e' : Replica) :
    Prop where
  rest : e' = { e with pendingFreeIds := e'.pendingFreeIds, clients := e'.clients }
  pending : ∀ r, r ∈ e'.pendingFreeIds ↔ r ∈ e.pendingFreeIds ∨ freed r
  clients : Puts P e.clients e'.clients

namespace Notifies
variable {P Q : RequestId → Queued → Prop} {freed freed' : RequestId → Prop} {e e₁ e₂ : Replica}
  {r : RequestId}

theorem refl (P : RequestId → Queued → Prop) (e : Replica) : Notifies P (fun _ => False) e e :=
  ⟨rfl, by simp, .refl P _⟩

theorem trans (h : Notifies P freed e e₁) (h' : Notifies P freed' e₁ e₂) :
    Notifies P (fun r => freed r ∨ freed' r) e e₂ := by
  refine ⟨?_, fun r => by rw [h'.pending, h.pending, or_assoc], h.clients.trans h'.clients⟩
  rw [h'.rest, h.rest]

theorem mono (h : Notifies P freed e e₁) (hPQ : ∀ r entry, P r entry → Q r entry)
    (hf : ∀ r, freed r ↔ freed' r) : Notifies Q freed' e e₁ :=
  ⟨h.rest, fun r => by rw [h.pending, hf], h.clients.mono hPQ⟩

theorem known (h : Notifies P freed e e₁) : e₁.workerKnownReqIds = e.workerKnownReqIds := by
  rw [h.rest]

theorem scheduleWorkerFree (P : RequestId → Queued → Prop) (e : Replica) (r : RequestId) :
    Notifies P (· = r) e (e.scheduleWorkerFree r) := by
  unfold Replica.scheduleWorkerFree
  split
  · next hr =>
    refine ⟨rfl, fun x => ?_, .refl P _⟩
    exact ⟨.inl, fun hx => hx.elim id fun hx => hx ▸ hr⟩
  · exact ⟨rfl, by simp, .refl P _⟩

theorem notify {entry : Queued} (h : P r entry) :
    Notifies P (fun _ => False) e { e with clients := e.clients.notify r entry } :=
  ⟨rfl, by simp, .notify h⟩

/-- A loop over requests. -/
theorem foldl {α : Type*} {f : Replica → α → Replica} {freed : α → RequestId → Prop}
    {l : List α} (hf : ∀ e₁, e₁.workerKnownReqIds = e.workerKnownReqIds → ∀ a ∈ l,
      Notifies P (freed a) e₁ (f e₁ a)) :
    Notifies P (fun r => ∃ a ∈ l, freed a r) e (l.foldl f e) := by
  induction l generalizing e with
  | nil => exact (refl P e).mono (fun _ _ => id) (by simp)
  | cons a l ih =>
    rw [List.foldl_cons]
    have hone := hf e rfl a (by simp)
    have hrest := ih (e := f e a) fun e₁ he₁ b hb =>
      hf e₁ (he₁.trans hone.known) b (by simp [hb])
    exact (hone.trans hrest).mono (fun _ _ => id) (by simp)

end Notifies

namespace Replica
variable {e e' : Replica} {r : RequestId}

theorem rejectRequest_notifies {P : RequestId → Queued → Prop} (rejection : RequestId × String)
    (h : P rejection.1 (.failure rejection.2)) :
    Notifies P (fun r => r = rejection.1 ∧ r ∈ e.workerKnownReqIds) e
      (e.rejectRequest rejection) := by
  unfold rejectRequest
  dsimp only
  split
  · next hk =>
    refine ((Notifies.notify h).trans (.scheduleWorkerFree P _ _)).mono (fun _ _ => id) fun r => ?_
    exact ⟨fun hr => ⟨hr.resolve_left id, by rw [hr.resolve_left id]; exact hk⟩, fun hr => .inr hr.1⟩
  · next hk =>
    refine (Notifies.notify h).mono (fun _ _ => id) fun r => ⟨nofun, fun hr => hk ?_⟩
    rw [← hr.1]
    exact hr.2

theorem freeAll_notifies (P : RequestId → Queued → Prop) (e : Replica) (l : List RequestId) :
    Notifies P (· ∈ l) e (l.foldl scheduleWorkerFree e) := by
  have h : Notifies P _ e _ := .foldl (l := l) (f := scheduleWorkerFree)
    fun e₁ _ r _ => .scheduleWorkerFree P e₁ r
  exact h.mono (fun _ _ => id) (by simp)

/-- The rejections and preemptions of a pass. -/
theorem handlePass_notifies (e : Replica) (output : SchedulerOutput) :
    Notifies (fun r entry => r ∈ output.rejectedRequests.keys ∧ ∃ reason, entry = .failure reason)
      (fun r => (r ∈ output.rejectedRequests.keys ∧ r ∈ e.workerKnownReqIds) ∨
        r ∈ output.preemptedRequests) e (e.handlePass output) := by
  unfold handlePass
  dsimp only
  have hkeys : ∀ rejection ∈ output.rejectedRequests.entries.map fun entry => (entry.1, entry.2),
      rejection.1 ∈ output.rejectedRequests.keys := by
    intro rejection hmem
    obtain ⟨entry, hentry, rfl⟩ := List.mem_map.mp hmem
    exact List.mem_map_of_mem hentry
  have hreject : Notifies _ _ e _ := .foldl (f := rejectRequest) fun e₁ he₁ rejection hmem =>
    (rejectRequest_notifies (e := e₁) (P := fun r entry =>
      r ∈ output.rejectedRequests.keys ∧ ∃ reason, entry = .failure reason)
      rejection ⟨hkeys _ hmem, _, rfl⟩).mono (fun _ _ => id) fun r =>
        (show _ ↔ r = rejection.1 ∧ r ∈ e.workerKnownReqIds by rw [he₁])
  refine (hreject.trans (freeAll_notifies _ _ output.preemptedRequests)).mono (fun _ _ => id)
    fun r => or_congr_left ⟨?_, ?_⟩
  · rintro ⟨rejection, hmem, rfl, hk⟩
    exact ⟨hkeys _ hmem, hk⟩
  · rintro ⟨hr, hk⟩
    obtain ⟨entry, hentry, rfl⟩ := List.mem_map.mp hr
    exact ⟨_, List.mem_map_of_mem hentry, rfl, hk⟩

/-- The requests of dropped batches. -/
theorem droppedIds_notifies (e : Replica) :
    Notifies (fun r entry => r ∈ e.droppedIds ∧
        entry = .output { finished := true, finishReason := "error" })
      (· ∈ e.droppedIds) e (e.droppedIds.foldl failRequest e) := by
  have hfail : Notifies _ _ e _ := .foldl (l := e.droppedIds) (f := failRequest)
    fun e₁ _ r hr => (Notifies.notify (e := e₁) (r := r)
      (P := fun r entry => r ∈ e.droppedIds ∧
        entry = .output { finished := true, finishReason := "error" }) ⟨hr, rfl⟩).trans
      (.scheduleWorkerFree _ _ r)
  exact hfail.mono (fun _ _ => id) (by simp)

theorem mem_droppedIds : r ∈ e.droppedIds ↔
    ∃ output ∈ e.pipeline.inFlight, r ∈ Pipeline.recordIds output := by
  simp [droppedIds, Pipeline.recordIds]

end Replica

/-- The outputs that are final for a request: marked by the scheduler, or behind a stop. -/
def Final (s : Scheduler) (outs : List RequestOutput) (r : RequestId) : Prop :=
  r ∉ s.running ∨ ∃ out ∈ outs, out.requestId = r ∧ out.finished = true

/-- What delivering `outs` does: a request whose text ends in a stop string is finished, and
the requests with a final output are queued for release. -/
structure Delivers (e : Replica) (outs : List RequestOutput) (e' : Replica) : Prop where
  rest : e' = { e with
    pipeline := e'.pipeline, pendingFreeIds := e'.pendingFreeIds, clients := e'.clients }
  finishes : ∃ ids : List RequestId, (∀ r ∈ ids, ∃ out ∈ outs, out.requestId = r) ∧
    pipelineMachine.Run e.pipeline (ids.map .finish) e'.pipeline
  inFlight : e'.pipeline = { e.pipeline with sched := e'.pipeline.sched }
  waiting : e'.pipeline.sched.waiting = e.pipeline.sched.waiting
  requests : e'.pipeline.sched.requests = e.pipeline.sched.requests
  running : ∀ r ∈ e'.pipeline.sched.running, r ∈ e.pipeline.sched.running
  stopped : ∀ r ∈ e.pipeline.sched.running, r ∉ e'.pipeline.sched.running → r ∈ e'.pendingFreeIds
  kept : ∀ r ∈ e.pendingFreeIds, r ∈ e'.pendingFreeIds
  freed : ∀ out ∈ outs, out.finished = true → out.requestId ∈ e.clients.requestContexts →
    out.requestId ∈ e'.pendingFreeIds
  pending : ∀ r ∈ e'.pendingFreeIds, r ∈ e.pendingFreeIds ∨
    ((∃ out ∈ outs, out.requestId = r) ∧ Final e'.pipeline.sched outs r)
  clients : Puts (fun r entry => (∃ out ∈ outs, out.requestId = r) ∧ ∃ output,
    entry = .output output ∧ (output.finished = true → Final e'.pipeline.sched outs r))
    e.clients e'.clients

namespace Delivers
variable {e e₁ e₂ : Replica} {outs outs' : List RequestOutput} {out : RequestOutput}
  {decode : List Int → String}

theorem refl (e : Replica) : Delivers e [] e :=
  ⟨rfl, ⟨[], by simp, .nil _⟩, rfl, rfl, rfl, fun _ => id, fun r hr hnr => absurd hr hnr,
    fun _ => id, by simp, fun _ => .inl, .refl _ _⟩

theorem trans (h : Delivers e outs e₁) (h' : Delivers e₁ outs' e₂) :
    Delivers e (outs ++ outs') e₂ := by
  have hl : ∀ r, (∃ out ∈ outs, out.requestId = r) → ∃ out ∈ outs ++ outs', out.requestId = r :=
    fun r ⟨out, hout, hid⟩ => ⟨out, by simp [hout], hid⟩
  have hr : ∀ r, (∃ out ∈ outs', out.requestId = r) → ∃ out ∈ outs ++ outs', out.requestId = r :=
    fun r ⟨out, hout, hid⟩ => ⟨out, by simp [hout], hid⟩
  have hfl : ∀ r, Final e₁.pipeline.sched outs r → Final e₂.pipeline.sched (outs ++ outs') r := by
    rintro r (hnr | ⟨out, hout, hid⟩)
    · exact .inl fun hrun => hnr (h'.running r hrun)
    · exact .inr ⟨out, by simp [hout], hid⟩
  have hfr : ∀ r, Final e₂.pipeline.sched outs' r → Final e₂.pipeline.sched (outs ++ outs') r := by
    rintro r (hnr | ⟨out, hout, hid⟩)
    · exact .inl hnr
    · exact .inr ⟨out, by simp [hout], hid⟩
  refine ⟨?_, ?_, ?_, h'.waiting.trans h.waiting, h'.requests.trans h.requests,
    fun r hr => h.running r (h'.running r hr), ?_, fun r hr => h'.kept r (h.kept r hr), ?_, ?_, ?_⟩
  · rw [h'.rest, h.rest]
  · obtain ⟨ids, hids, hrun⟩ := h.finishes
    obtain ⟨ids', hids', hrun'⟩ := h'.finishes
    refine ⟨ids ++ ids', fun r hmem => ?_, ?_⟩
    · rcases List.mem_append.mp hmem with hmem | hmem
      · exact hl r (hids r hmem)
      · exact hr r (hids' r hmem)
    · rw [List.map_append]
      exact hrun.append hrun'
  · rw [h'.inFlight, h.inFlight]
  · intro r hrun hnr
    by_cases hrun₁ : r ∈ e₁.pipeline.sched.running
    · exact h'.stopped r hrun₁ hnr
    · exact h'.kept r (h.stopped r hrun hrun₁)
  · intro out hout hf hctx
    rcases List.mem_append.mp hout with hout | hout
    · exact h'.kept _ (h.freed out hout hf hctx)
    · exact h'.freed out hout hf ((h.clients.contexts _).mpr hctx)
  · intro r hmem
    rcases h'.pending r hmem with hmem | ⟨hid, hf⟩
    · exact (h.pending r hmem).imp_right fun ⟨hid, hf⟩ => ⟨hl r hid, hfl r hf⟩
    · exact .inr ⟨hr r hid, hfr r hf⟩
  · refine (h.clients.mono ?_).trans (h'.clients.mono ?_)
    · rintro r entry ⟨hid, output, rfl, hf⟩
      exact ⟨hl r hid, output, rfl, fun hfin => hfl r (hf hfin)⟩
    · rintro r entry ⟨hid, output, rfl, hf⟩
      exact ⟨hr r hid, output, rfl, fun hfin => hfr r (hf hfin)⟩

/-- An output whose stop check is done. -/
theorem publish_notifies (decode : List Int → String) (out : RequestOutput) (hr : out.requestId ∈ e.clients.requestContexts) (ctx : Context) :
    Notifies (fun r entry => r = out.requestId ∧ ∃ output, entry = .output output ∧
        output.finished = out.finished)
      (fun r => out.finished = true ∧ r = out.requestId) e (e.publish decode ctx out) := by
  have hputs : ∀ ctx', Puts (fun r entry => r = out.requestId ∧ ∃ output,
      entry = Queued.output output ∧ output.finished = out.finished) e.clients
      (if !ctx'.stream && !out.finished then e.clients.setContext out.requestId ctx'
        else (e.clients.setContext out.requestId ctx').put out.requestId
          (.output (Replica.tokenOutput (e.pipeline.sched.object out.requestId) ctx' out))) := by
    intro ctx'
    have hset := Puts.setContext (P := fun r entry => r = out.requestId ∧ ∃ output,
      entry = Queued.output output ∧ output.finished = out.finished) hr ctx'
    split
    · exact hset
    · exact hset.trans (.put ⟨rfl, _, rfl, rfl⟩)
  unfold Replica.publish
  dsimp only
  cases hf : out.finished with
  | false =>
    have := hputs ctx
    rw [hf] at this
    exact ⟨rfl, by simp, by simpa using this⟩
  | true =>
    have hfree := Notifies.scheduleWorkerFree (fun _ _ => True) e out.requestId
    have hclients : (e.scheduleWorkerFree out.requestId).clients = e.clients := by
      unfold Replica.scheduleWorkerFree
      split <;> rfl
    have := hputs (ctx.finalizeDetokenization decode
      (e.pipeline.sched.object out.requestId).outputTokenIds)
    rw [hf] at this
    simp only [if_true, hclients]
    refine ⟨?_, fun r => ?_, this⟩
    · rw [hfree.rest]
    · rw [hfree.pending]
      simp

theorem stopOutput_requestId (request : Request) (ctx : Context) (out : RequestOutput) :
    (Replica.stopOutput request ctx out).requestId = out.requestId := by
  unfold Replica.stopOutput
  split <;> rfl

theorem stopOutput_finished {request : Request} {ctx : Context} (h : out.finished = true) :
    (Replica.stopOutput request ctx out).finished = true := by
  unfold Replica.stopOutput
  split
  · rfl
  · exact h

/-- An output that needs no end in the scheduler. -/
theorem of_publish {out' : RequestOutput} (hid : out'.requestId = out.requestId)
    (hf : out'.finished = out.finished) (hmem : out.requestId ∈ e.clients.requestContexts)
    (ctx : Context) : Delivers e [out] (e.publish decode ctx out') := by
  have hp := publish_notifies decode out' (by rwa [hid]) ctx
  rw [hid, hf] at hp
  have hpipe : (e.publish decode ctx out').pipeline = e.pipeline := by rw [hp.rest]
  refine ⟨?_, ⟨[], by simp, ?_⟩, ?_, ?_, ?_, ?_, ?_, ?_, ?_, ?_, ?_⟩
  · rw [hpipe]
    exact hp.rest
  · rw [hpipe]
    exact .nil _
  · rw [hpipe]
  · rw [hpipe]
  · rw [hpipe]
  · rw [hpipe]
    exact fun _ => id
  · rw [hpipe]
    exact fun r hr hnr => absurd hr hnr
  · exact fun r hr => (hp.pending r).mpr (.inl hr)
  · intro out₁ hout hfin _
    rw [List.mem_singleton.mp hout] at hfin ⊢
    exact (hp.pending _).mpr (.inr ⟨hfin, rfl⟩)
  · intro r hr
    rcases (hp.pending r).mp hr with hr | ⟨hfin, rfl⟩
    · exact .inl hr
    · exact .inr ⟨⟨out, by simp, rfl⟩, .inr ⟨out, by simp, rfl, hfin⟩⟩
  · refine hp.clients.mono ?_
    rintro r entry ⟨rfl, output, rfl, hfin⟩
    exact ⟨⟨out, by simp, rfl⟩, output, rfl, fun h => .inr ⟨out, by simp, rfl, by rwa [← hfin]⟩⟩

/-- A stop string ends the request in the scheduler. -/
theorem of_stop {out' : RequestOutput} {s : Scheduler} (hid : out'.requestId = out.requestId)
    (hf : out'.finished = true) (hmem : out.requestId ∈ e.clients.requestContexts)
    (ht : e.pipeline.sched.Tracked) (hw : out.requestId ∉ e.pipeline.sched.waiting)
    (hfinish : e.pipeline.sched.finishRequest out.requestId .finishedStop = .ok s)
    (ctx : Context) : Delivers e [out]
      (Replica.publish { e with pipeline := { e.pipeline with sched := s } } decode ctx out') := by
  have hp := @publish_notifies { e with pipeline := { e.pipeline with sched := s } } decode out'
    (by rwa [hid]) ctx
  rw [hid] at hp
  have hpipe : (Replica.publish { e with pipeline := { e.pipeline with sched := s } } decode ctx
      out').pipeline = { e.pipeline with sched := s } := by rw [hp.rest]
  have hrunning : s.running = e.pipeline.sched.running.filter (· ≠ out.requestId) := by
    rcases Scheduler.finishRequest_spec hfinish with ⟨hnr, rfl⟩ | ⟨-, he, -⟩
    · symm
      rw [List.filter_eq_self]
      intro r hr
      refine decide_eq_true fun hreq => hnr ?_
      rw [← hreq]
      exact ht r (.inl hr)
    · exact he.running
  have hqueue : s.waiting = e.pipeline.sched.waiting ∧ s.requests = e.pipeline.sched.requests := by
    rcases Scheduler.finishRequest_spec hfinish with ⟨-, rfl⟩ | ⟨-, -, hwait, hreq⟩
    · exact ⟨rfl, rfl⟩
    · exact ⟨hwait, hreq⟩
  have hgone : out.requestId ∉ s.running := by simp [hrunning]
  refine ⟨?_, ⟨[out.requestId], by simp, ?_⟩, ?_, ?_, ?_, ?_, ?_, ?_, ?_, ?_, ?_⟩
  · rw [hpipe]
    exact hp.rest
  · rw [hpipe]
    exact .single (.finish hw hfinish)
  · rw [hpipe]
  · rw [hpipe]
    exact hqueue.1
  · rw [hpipe]
    exact hqueue.2
  · rw [hpipe]
    dsimp only
    rw [hrunning]
    exact fun r hr => (List.mem_filter.mp hr).1
  · rw [hpipe]
    intro r hr hnr
    dsimp only at hnr
    rw [hrunning, List.mem_filter, not_and] at hnr
    have hreq : r = out.requestId := by simpa using hnr hr
    exact (hp.pending r).mpr (.inr ⟨hf, hreq⟩)
  · exact fun r hr => (hp.pending r).mpr (.inl hr)
  · intro out₁ hout _ _
    rw [List.mem_singleton.mp hout]
    exact (hp.pending _).mpr (.inr ⟨hf, rfl⟩)
  · intro r hr
    rw [hpipe]
    rcases (hp.pending r).mp hr with hr | ⟨-, rfl⟩
    · exact .inl hr
    · exact .inr ⟨⟨out, by simp, rfl⟩, .inl hgone⟩
  · rw [hpipe]
    refine hp.clients.mono ?_
    rintro r entry ⟨rfl, output, rfl, -⟩
    exact ⟨⟨out, by simp, rfl⟩, output, rfl, fun _ => .inl hgone⟩

/-- One output. -/
theorem of_deliver (ht : e.pipeline.sched.Tracked) (hw : out.requestId ∉ e.pipeline.sched.waiting)
    (h : Replica.deliver decode e out = .ok e₁) : Delivers e [out] e₁ := by
  unfold Replica.deliver at h
  split at h
  · next hnone =>
    cases h
    refine ⟨rfl, ⟨[], by simp, .nil _⟩, rfl, rfl, rfl, fun _ => id, fun r hr hnr => absurd hr hnr,
      fun _ => id, fun out' hout _ hctx => ?_, fun _ => .inl, .refl _ _⟩
    rw [List.mem_singleton.mp hout, ← AList.lookup_isSome, hnone] at hctx
    cases hctx
  · next ctx hctx =>
    have hmem : out.requestId ∈ e.clients.requestContexts := by
      rw [← AList.lookup_isSome, hctx]
      rfl
    dsimp only at h
    split at h
    · next hstop =>
      obtain ⟨s, hfinish, h⟩ := bind_eq_ok.mp h
      cases h
      exact of_stop (stopOutput_requestId _ _ _) hstop.1 hmem ht hw hfinish _
    · next hstop =>
      cases h
      refine of_publish (stopOutput_requestId _ _ _) ?_ hmem _
      cases hf : out.finished with
      | true => exact stopOutput_finished hf
      | false => simpa [hf] using hstop

/-- The loop of `_process_step_output`. -/
theorem of_deliverAll (ht : e.pipeline.sched.Tracked)
    (hw : ∀ out ∈ outs, out.requestId ∉ e.pipeline.sched.waiting)
    (h : outs.foldlM (Replica.deliver decode) e = .ok e₁) : Delivers e outs e₁ := by
  induction outs generalizing e with
  | nil =>
    cases h
    exact refl _
  | cons out outs ih =>
    rw [List.foldlM_cons] at h
    obtain ⟨e₀, hone, h⟩ := bind_eq_ok.mp h
    have hd := of_deliver ht (hw out (by simp)) hone
    have ht₀ : e₀.pipeline.sched.Tracked := by
      intro r hr
      rw [hd.requests]
      rw [hd.waiting] at hr
      exact ht r (hr.imp_left (hd.running r))
    refine hd.trans (ih ht₀ (fun out' hout => ?_) h)
    rw [hd.waiting]
    exact hw out' (by simp [hout])

end Delivers

section Step
variable {e e' : Replica} {op : ReplicaOp} {decode : List Int → String}

/-- A result and its deliveries. -/
theorem receive_spec {output : SchedulerOutput} {rest : List SchedulerOutput}
    {tokens : Scheduler.StepTokens} {s : Scheduler} {outputs : List RequestOutput}
    {stepIds : List Nat} {channel : Channel} (hwf : e.pipeline.WellFormed)
    (hfl : e.pipeline.inFlight = output :: rest)
    (hupd : e.pipeline.sched.updateFromOutput output tokens = .ok (s, outputs))
    (hdel : outputs.foldlM (Replica.deliver decode) { e with
      pipeline := { e.pipeline with sched := s, inFlight := rest, mustAwait := false }
      batchStepIds := stepIds, channel } = .ok e') :
    Emits e.pipeline.sched s outputs ∧ Delivers { e with
      pipeline := { e.pipeline with sched := s, inFlight := rest, mustAwait := false }
      batchStepIds := stepIds, channel } outputs e' := by
  have hemits := hwf.emits hfl hupd
  have hnext := hwf.complete hfl hupd
  obtain ⟨mid, hu, -⟩ := hwf.update hfl hupd
  refine ⟨hemits, .of_deliverAll hnext.tracked (fun out hout => ?_) hdel⟩
  show out.requestId ∉ s.waiting
  rw [hu.waiting]
  exact hwf.queues.disjoint _ (hemits.running out hout)

/-- The pipeline operations that a step of the replica can stand for. -/
def Replica.Issues (e : Replica) (op : ReplicaOp) : PipelineOp → Prop
  | .add request => (∃ stream, op = .add request stream) ∧ Replica.Encoded request
  | .complete tokens => ∃ result, e.channel.next? = some result ∧ tokens = result.newTokens
  | _ => True

/-- Every step of the replica is a run of the pipeline. -/
theorem step_pipeline (hwf : e.pipeline.WellFormed) (h : Replica.Step decode e op e') :
    ∃ ops, pipelineMachine.Run e.pipeline ops e'.pipeline ∧ ∀ o ∈ ops, e.Issues op o := by
  cases h with
  | add _ henc hstep => exact ⟨_, .single hstep, by simpa [Replica.Issues] using henc⟩
  | dispatch _ hready hsched hne hadv =>
    exact ⟨[.dispatch], .single (.dispatch hready hsched hne hadv), by simp [Replica.Issues]⟩
  | await _ hready hsched hempty hfl =>
    refine ⟨[.dispatch], .single ?_, by simp [Replica.Issues]⟩
    have hidle := Pipeline.Step.idle hready hsched hempty
    rwa [show (!e.pipeline.inFlight.isEmpty) = true by simpa using hfl] at hidle
  | idle _ hready hsched hempty hfl =>
    refine ⟨[.dispatch], .single ?_, by simp [Replica.Issues]⟩
    have hidle := Pipeline.Step.idle hready hsched hempty
    rwa [show (!e.pipeline.inFlight.isEmpty) = false by simp [hfl]] at hidle
  | flush =>
    refine ⟨[], ?_, by simp⟩
    unfold Replica.flush
    split <;> exact .nil _
  | receive _ hnext _ _ _ hfl hupd hdel =>
    obtain ⟨-, hd⟩ := receive_spec hwf hfl hupd hdel
    obtain ⟨ids, -, hrun⟩ := hd.finishes
    have hcomplete := Pipeline.Step.complete hfl hupd
    refine ⟨_, (Machine.Run.single hcomplete).append hrun, fun o ho => ?_⟩
    rcases List.mem_append.mp ho with ho | ho
    · rw [List.mem_singleton.mp ho]
      exact ⟨_, hnext, rfl⟩
    · obtain ⟨r, -, rfl⟩ := List.mem_map.mp ho
      trivial
  | failed _ _ _ _ _ hstep => exact ⟨[.discard], .single hstep, by simp [Replica.Issues]⟩
  | desync _ _ _ _ hstep => exact ⟨[.discard], .single hstep, by simp [Replica.Issues]⟩
  | timeout _ _ hstep => exact ⟨[.discard], .single hstep, by simp [Replica.Issues]⟩
  | @cancel r p _ _ hstep =>
    refine ⟨[.abort r], .single ?_, by simp [Replica.Issues]⟩
    unfold Replica.release Replica.scheduleWorkerFree
    dsimp only
    split <;> exact hstep
  | @abort r p _ hstep =>
    refine ⟨[.abort r], .single ?_, by simp [Replica.Issues]⟩
    unfold Replica.release Replica.scheduleWorkerFree
    dsimp only
    split <;> exact hstep
  | refuse | flushed | drain | flushTimeout | takeFailure | takeOutput | resume | complete |
    leave | unknown | work => exact ⟨[], .nil _, by simp⟩

/-- The pipeline of a replica is a run of the pipeline machine. -/
theorem pipeline_reachable (h : (replicaMachine decode).Reachable e) :
    pipelineMachine.Reachable e.pipeline := by
  induction h with
  | start h => exact .start h.pipeline
  | next _ hstep ih =>
    obtain ⟨ops, hrun, -⟩ := step_pipeline (wellFormed_of_reachable ih) hstep
    exact ih.run hrun

theorem pipeline_wellFormed (h : (replicaMachine decode).Reachable e) : e.pipeline.WellFormed :=
  wellFormed_of_reachable (pipeline_reachable h)

/-- A step without a command, sent or executed. -/
structure Quiet (e e' : Replica) : Prop where
  commands : e'.channel.commands = e.channel.commands
  results : e'.channel.results = e.channel.results
  worker : e'.channel.worker = e.channel.worker
  known : e'.workerKnownReqIds = e.workerKnownReqIds
  last : e'.pipeline.inFlight = [] ∨
    e'.pipeline.inFlight.getLast? = e.pipeline.inFlight.getLast?

/-- What a step means for the commands. -/
inductive Traffic (e : Replica) : ReplicaOp → Replica → Prop
  | quiet {op : ReplicaOp} {e' : Replica} : Quiet e e' → Traffic e op e'
  | sent {pass : Pass} {s : Scheduler} {output : SchedulerOutput} : e.pipeline.Ready →
      e.pipeline.sched.schedule = .ok pass →
      pass.sched.advanceAfterSchedule pass.output = .ok (s, output) →
      Traffic e .dispatch { (e.handlePass pass.output).sendStep pass with
        pipeline := { e.pipeline with sched := s, inFlight := e.pipeline.inFlight ++ [output] } }
  | flushed {op : ReplicaOp} {e₁ : Replica} : Quiet e e₁ → e₁.pipeline.inFlight = [] →
      e₁.pendingFreeIds ≠ [] → Traffic e op e₁.flush
  | worked {built : Built} {x : Execution} : x.Samples →
      e.channel.commands[e.channel.results.length]? = some built →
      Traffic e (.work x) { e with channel := e.channel.execute built x }

theorem Notifies.quiet {P : RequestId → Queued → Prop} {freed : RequestId → Prop} {p : Pipeline}
    (h : Notifies P freed e e') (hlast : p.inFlight = [] ∨
      p.inFlight.getLast? = e.pipeline.inFlight.getLast?) : Quiet e { e' with pipeline := p } := by
  constructor
  · rw [h.rest]
  · rw [h.rest]
  · rw [h.rest]
  · exact h.known
  · exact hlast

theorem Traffic.of_flush {e₁ : Replica} (h : Quiet e e₁) (hnil : e₁.pipeline.inFlight = []) :
    Traffic e op e₁.flush := by
  by_cases hp : e₁.pendingFreeIds = []
  · rw [Replica.flush, if_pos hp]
    exact .quiet h
  · exact .flushed h hnil hp

/-- Dropping a client leaves the commands alone. -/
theorem release_quiet {p : Pipeline} {r : RequestId} {c : Clients}
    (hfl : p.inFlight = e.pipeline.inFlight) : Quiet e { e.release p r with clients := c } := by
  have hn := Notifies.scheduleWorkerFree (fun _ _ => True)
    { e with pipeline := p, clients := e.clients.forget r } r
  constructor
  · show (Replica.scheduleWorkerFree _ _).channel.commands = _
    rw [hn.rest]
  · show (Replica.scheduleWorkerFree _ _).channel.results = _
    rw [hn.rest]
  · show (Replica.scheduleWorkerFree _ _).channel.worker = _
    rw [hn.rest]
  · exact hn.known
  · right
    show (Replica.scheduleWorkerFree _ _).pipeline.inFlight.getLast? = _
    rw [hn.rest]
    exact congrArg List.getLast? hfl

theorem abort_inFlight {p p' : Pipeline} {r : RequestId} (h : p.Step (.abort r) p') :
    p'.inFlight = p.inFlight := by
  cases h
  rfl

theorem discard_inFlight {p p' : Pipeline} (h : p.Step .discard p') : p'.inFlight = [] := by
  cases h
  rfl

theorem step_traffic (hwf : e.pipeline.WellFormed) (h : Replica.Step decode e op e') :
    Traffic e op e' := by
  cases h with
  | add _ _ hstep =>
    refine .quiet ⟨rfl, rfl, rfl, rfl, .inr ?_⟩
    cases hstep
    rfl
  | dispatch _ hready hsched _ hadv => exact .sent hready hsched hadv
  | @await pass => exact .quiet ((Replica.handlePass_notifies e pass.output).quiet (.inr rfl))
  | @idle pass _ _ _ _ hnil =>
    have hq := (Replica.handlePass_notifies e pass.output).quiet
      (p := { e.pipeline with sched := pass.sched, mustAwait := false }) (.inr rfl)
    have hflush : Traffic e .dispatch _ := .of_flush hq hnil
    unfold Replica.flush at hflush ⊢
    dsimp only at hflush ⊢
    split <;> simpa only [*, if_true, if_false] using hflush
  | flush _ hnil _ => exact .of_flush ⟨rfl, rfl, rfl, rfl, .inr rfl⟩ hnil
  | @receive _ _ _ _ rest _ _ _ _ _ _ _ _ hfl hupd hdel =>
    obtain ⟨-, hd⟩ := receive_spec hwf hfl hupd hdel
    refine .quiet ⟨by rw [hd.rest]; rfl, by rw [hd.rest]; rfl, by rw [hd.rest]; rfl,
      by rw [hd.rest], ?_⟩
    rw [hd.inFlight, hfl]
    cases hrest : rest with
    | nil => exact .inl rfl
    | cons a l => exact .inr (by rw [List.getLast?_cons_cons])
  | failed _ _ _ _ _ hstep =>
    have hq := (Replica.droppedIds_notifies e).quiet (.inl (discard_inFlight hstep))
    exact .quiet ⟨rfl, rfl, rfl, hq.known, hq.last⟩
  | desync _ _ _ _ hstep =>
    have hq := (Replica.droppedIds_notifies e).quiet (.inl (discard_inFlight hstep))
    exact .quiet ⟨rfl, rfl, rfl, hq.known, hq.last⟩
  | timeout _ _ hstep =>
    have hq := (Replica.droppedIds_notifies e).quiet (.inl (discard_inFlight hstep))
    exact .quiet ⟨hq.commands, hq.results, hq.worker, hq.known, hq.last⟩
  | cancel _ _ hstep => exact .quiet (release_quiet (abort_inFlight hstep))
  | abort _ hstep => exact .quiet (release_quiet (abort_inFlight hstep))
  | work hx hbuilt => exact .worked hx hbuilt
  | refuse | flushed | drain | flushTimeout | takeFailure | takeOutput | resume | complete |
    leave | unknown => exact .quiet ⟨rfl, rfl, rfl, rfl, .inr rfl⟩

end Step
end PyptoServing.Engine
