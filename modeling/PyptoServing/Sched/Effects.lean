import PyptoServing.Sched.Flight

/-!
# The scheduler operations outside the cache

Each operation as a function on the request objects, up to their cache bookkeeping, and on
the queues.
-/
namespace PyptoServing.Sched

open Lib Lib.Fallible Memory Scheduler

namespace Request
variable {config : SchedulerConfig} {share : StepShare}

theorem core_advanced (q : Request) :
    (q.advanced config share).core = q.core.advanced config share := by
  unfold advanced
  split <;> rfl

theorem core_confirmed (q : Request) : (q.confirmed share).core = q.core.confirmed share := by
  unfold confirmed
  rw [show q.core.numPromptTokens = q.numPromptTokens from rfl]
  split <;> rfl

theorem core_settle (q : Request) (reserved retained : Nat) :
    (settle q reserved retained).core = settle q.core reserved retained := by
  unfold settle
  split <;> rfl

theorem checkFinish_core (q : Request) : checkFinish q.core = checkFinish q := rfl

theorem core_appendTokens (q : Request) (tokens : List Int) :
    appendTokens q.core tokens = ((appendTokens q tokens).1.core, (appendTokens q tokens).2) := by
  induction tokens generalizing q with
  | nil => rfl
  | cons token tokens ih =>
    have hstep : ({ q.core with outputTokenIds := q.core.outputTokenIds ++ [token] } : Request) =
        Request.core { q with outputTokenIds := q.outputTokenIds ++ [token] } := rfl
    rw [appendTokens, appendTokens]
    dsimp only
    rw [hstep, checkFinish_core]
    split
    · rfl
    · rw [ih]

theorem core_reconciled (q : Request) (tokens : List Int) :
    (q.reconciled config share tokens).core = q.core.reconciled config share tokens := by
  unfold reconciled
  dsimp only
  rw [core_settle, ← core_confirmed, core_appendTokens]
  rfl

theorem core_stepped (q : Request) (tokens : List Int) :
    (q.stepped share tokens).core = q.core.stepped share tokens := by
  unfold stepped
  dsimp only
  rw [← core_confirmed]
  generalize q.confirmed share = q
  split
  · have hstep : ({ q.core with
        numComputedTokens := q.core.numComputedTokens + share.numNewTokens } : Request) =
        Request.core { q with numComputedTokens := q.numComputedTokens + share.numNewTokens } := rfl
    rw [hstep, core_appendTokens]
    split
    · next h => exact (if_pos h).symm
    · next h => exact (if_neg h).symm
  · rw [core_appendTokens]
    rfl

theorem core_applied (q : Request) (tokens : List Int) :
    (q.applied config share tokens).core = q.core.applied config share tokens := by
  unfold applied
  split
  · exact core_reconciled q tokens
  · exact core_stepped q tokens

end Request

namespace SameRequest
variable {q q' : Request} {config : SchedulerConfig} {share : StepShare}

/-- A function that commutes with forgetting the bookkeeping keeps requests the same. -/
theorem map {f : Request → Request} (hf : ∀ q, (f q).core = f q.core) (h : SameRequest q q') :
    SameRequest (f q) (f q') :=
  ⟨by rw [hf, hf, h.core]⟩

theorem symm (h : SameRequest q q') : SameRequest q' q := ⟨h.core.symm⟩

theorem advanced (h : SameRequest q q') :
    SameRequest (q.advanced config share) (q'.advanced config share) :=
  h.map Request.core_advanced

theorem applied (h : SameRequest q q') (tokens : List Int) :
    SameRequest (q.applied config share tokens) (q'.applied config share tokens) :=
  h.map fun q => Request.core_applied q tokens

theorem checkFinish (h : SameRequest q q') : checkFinish q' = checkFinish q := by
  rw [← Request.checkFinish_core q', h.core, Request.checkFinish_core]

end SameRequest

/-- One request object is mapped by `f`; the queues are untouched. -/
structure Mapped (s : Scheduler) (r : RequestId) (f : Request → Request) (s' : Scheduler) : Prop where
  config : s'.config = s.config
  self : SameRequest (f (s.object r)) (s'.object r)
  other : ∀ r', r' ≠ r → SameRequest (s.object r') (s'.object r')
  waiting : s'.waiting = s.waiting
  running : s'.running = s.running
  requests : s'.requests = s.requests

namespace Mapped
variable {s s₁ s₂ : Scheduler} {r : RequestId} {f g : Request → Request}

theorem of_same (h : SameCore s s₁) : Mapped s r id s₁ :=
  ⟨h.config, h.object r, fun r' _ => h.object r', h.waiting, h.running, h.requests⟩

theorem of_modify (s : Scheduler) (r : RequestId) (f : Request → Request) :
    Mapped s r f (s.modify r f) := by
  refine ⟨rfl, ?_, fun r' hr => ?_, rfl, rfl, rfl⟩
  · rw [modify_object_self]
    exact .refl _
  · rw [modify_object_ne _ _ hr]
    exact .refl _

theorem trans (h : Mapped s r f s₁) (h' : Mapped s₁ r g s₂) (hg : ∀ q, (g q).core = g q.core) :
    Mapped s r (g ∘ f) s₂ :=
  ⟨h'.config.trans h.config, (h.self.map hg).trans h'.self,
    fun r' hr => (h.other r' hr).trans (h'.other r' hr), h'.waiting.trans h.waiting,
    h'.running.trans h.running, h'.requests.trans h.requests⟩

/-- The cache bookkeeping may change after the map. -/
theorem trans_same (h : Mapped s r f s₁) (h' : SameCore s₁ s₂) : Mapped s r f s₂ :=
  ⟨h'.config.trans h.config, h.self.trans (h'.object r),
    fun r' hr => (h.other r' hr).trans (h'.object r'), h'.waiting.trans h.waiting,
    h'.running.trans h.running, h'.requests.trans h.requests⟩

/-- The cache bookkeeping may change before the map. -/
theorem after_same (h : SameCore s s₁) (h' : Mapped s₁ r g s₂) (hg : ∀ q, (g q).core = g q.core) :
    Mapped s r g s₂ :=
  (of_same h).trans h' hg

end Mapped

namespace Scheduler
variable {s s' s₁ : Scheduler} {r : RequestId} {sr sr' : ScheduledRequest}
  {output output' : SchedulerOutput}

theorem retainScheduled_spec (h : s.retainScheduled sr = .ok (s', sr')) :
    SameCore s s' ∧ sr'.requestId = sr.requestId ∧ sr'.share = sr.share := by
  unfold retainScheduled at h
  split at h
  · cases h
    exact ⟨.refl s, rfl, rfl⟩
  · split at h
    · cases h
    · obtain ⟨kv, -, h⟩ := bind_eq_ok.mp h
      cases h
      exact ⟨.of_cache s kv, rfl, rfl⟩

/-- The advance of a record that was sized from the present counters. -/
theorem advanceRequest_mapped (hasync : s.config.asyncScheduling = true)
    (hc : sr.numComputedTokens = (s.object sr.requestId).numComputedTokens) :
    Mapped s sr.requestId (·.advanced s.config sr.share) (s.advanceRequest sr) := by
  have hm := Mapped.of_modify s sr.requestId (·.advanced s.config sr.share)
  have heq : s.advanceRequest sr = s.modify sr.requestId (·.advanced s.config sr.share) := by
    unfold advanceRequest modify
    simp only [Request.advanced, hasync, if_true, Request.reservation, ScheduledRequest.share,
      Request.speculation, speculativeTokensFor, hc, decide_eq_true_eq]
  rwa [heq]

theorem checkFinish_finished {q : Request} {status : RequestStatus}
    (h : checkFinish q = some status) : status.isFinished = true := by
  unfold checkFinish at h
  split at h
  · cases h
  · split at h
    · cases h
      rfl
    · split at h
      · cases h
        rfl
      · cases h

/-- What `advance_after_schedule` does to the requests of the step. -/
structure Advances (s : Scheduler) (records : List ScheduledRequest) (s' : Scheduler)
    (records' : List ScheduledRequest) : Prop where
  config : s'.config = s.config
  waiting : s'.waiting = s.waiting
  running : s'.running = s.running
  requests : s'.requests = s.requests
  ids : records'.map (·.requestId) = records.map (·.requestId)
  shares : records'.map (·.share) = records.map (·.share)
  advanced : ∀ sr ∈ records,
    SameRequest ((s.object sr.requestId).advanced s.config sr.share) (s'.object sr.requestId)
  other : ∀ r, r ∉ records.map (·.requestId) → SameRequest (s.object r) (s'.object r)

/-- The record behind one of a step that was sent. -/
theorem Advances.origin {s s' : Scheduler} {records records' : List ScheduledRequest}
    {sr' : ScheduledRequest} (h : Advances s records s' records') (hsr : sr' ∈ records') :
    ∃ sr ∈ records, sr'.requestId = sr.requestId ∧ sr'.share = sr.share := by
  obtain ⟨i, hi⟩ := List.mem_iff_getElem?.mp hsr
  have hid := congrArg (·[i]?) h.ids
  have hshare := congrArg (·[i]?) h.shares
  simp only [List.getElem?_map, hi, Option.map_some] at hid hshare
  cases hsr' : records[i]? with
  | none =>
    rw [hsr'] at hid
    cases hid
  | some sr =>
    rw [hsr', Option.map_some, Option.some.injEq] at hid hshare
    exact ⟨sr, List.mem_of_getElem? hsr', hid, hshare⟩

namespace Advances
variable {records records' : List ScheduledRequest}

/-- The advance changes only the counters of the scheduled requests. -/
theorem keeps (h : Advances s records s' records') (r : RequestId) :
    (s'.object r).status = (s.object r).status ∧
      checkFinish (s'.object r) = checkFinish (s.object r) ∧
      (s'.object r).numPromptTokens = (s.object r).numPromptTokens := by
  by_cases hr : r ∈ records.map (·.requestId)
  · obtain ⟨sr, hsr, rfl⟩ := List.mem_map.mp hr
    have hs := h.advanced sr hsr
    have hkeep : ∀ (q : Request) (config : SchedulerConfig) (share : StepShare),
        (q.advanced config share).status = q.status ∧
          checkFinish (q.advanced config share) = checkFinish q ∧
          (q.advanced config share).numPromptTokens = q.numPromptTokens := by
      intro q config share
      unfold Request.advanced
      split <;> exact ⟨rfl, rfl, rfl⟩
    obtain ⟨h1, h2, h3⟩ := hkeep (s.object sr.requestId) s.config sr.share
    exact ⟨hs.status.trans h1, hs.checkFinish.trans h2, hs.numPromptTokens.trans h3⟩
  · have hs := h.other r hr
    exact ⟨hs.status, hs.checkFinish, hs.numPromptTokens⟩

/-- The advance keeps the queues in order when no waiting request is in the step. -/
theorem queues (h : Advances s records s' records') (hq : Queues s)
    (hidle : ∀ r ∈ s.waiting, r ∉ records.map (·.requestId)) : Queues s' := by
  refine hq.shrink (by rw [h.running]) (by rw [h.waiting]) (fun r hr => ?_) fun r hr => ?_
  · rw [h.running] at hr
    obtain ⟨hstatus, -, hprompt⟩ := h.keeps r
    rw [hstatus, hprompt]
    exact ⟨hq.running_status r hr, hq.prompt_pos r (.inl hr)⟩
  · rw [h.waiting] at hr
    exact h.other r (hidle r hr)

end Advances

/-- The records are advanced one after the other. -/
theorem advanceRecords_spec (l : List ScheduledRequest) {acc : List ScheduledRequest}
    {res : Scheduler × List ScheduledRequest} (hasync : s.config.asyncScheduling = true)
    (hnd : (l.map (·.requestId)).Nodup)
    (hc : ∀ sr ∈ l, sr.numComputedTokens = (s.object sr.requestId).numComputedTokens)
    (h : advanceRecords l (s, acc) = .ok res) :
    ∃ new, res.2 = acc ++ new ∧ Advances s l res.1 new := by
  induction l generalizing s acc with
  | nil =>
    cases h
    exact ⟨[], by simp, ⟨rfl, rfl, rfl, rfl, rfl, rfl, by simp, fun r _ => .refl _⟩⟩
  | cons sr l ih =>
    obtain ⟨t₁, sr', hret, h⟩ := advanceRecords_cons h
    obtain ⟨hsame, hid, hshare⟩ := retainScheduled_spec hret
    have hasync₁ : t₁.config.asyncScheduling = true := by rw [hsame.config, hasync]
    have hm : Mapped t₁ sr'.requestId (·.advanced t₁.config sr'.share)
        (t₁.advanceRequest sr') := advanceRequest_mapped hasync₁ (by
      rw [hid, (hsame.object _).numComputedTokens, ← hc sr (by simp)]
      exact congrArg StepShare.numComputedTokens hshare)
    rw [hid, hshare, hsame.config] at hm
    have hm := Mapped.after_same hsame hm fun q => Request.core_advanced q
    rw [List.map_cons, List.nodup_cons] at hnd
    have hne : ∀ sr₂ ∈ l, sr₂.requestId ≠ sr.requestId := fun sr₂ hsr₂ he =>
      hnd.1 (he ▸ List.mem_map_of_mem hsr₂)
    obtain ⟨new, hnew, ha⟩ := ih (by rw [hm.config, hasync]) hnd.2 (fun sr₂ hsr₂ => by
      rw [(hm.other _ (hne sr₂ hsr₂)).numComputedTokens]
      exact hc sr₂ (by simp [hsr₂])) h
    refine ⟨sr' :: new, by rw [hnew, List.append_assoc]; rfl, ?_⟩
    refine ⟨ha.config.trans hm.config, ha.waiting.trans hm.waiting,
      ha.running.trans hm.running, ha.requests.trans hm.requests, ?_, ?_, ?_, ?_⟩
    · rw [List.map_cons, List.map_cons, hid, ha.ids]
    · rw [List.map_cons, List.map_cons, hshare, ha.shares]
    · intro sr₂ hsr₂
      rcases List.mem_cons.mp hsr₂ with rfl | hsr₂
      · exact hm.self.trans (ha.other _ hnd.1)
      · have hadv := ha.advanced sr₂ hsr₂
        rw [hm.config] at hadv
        exact (hm.other _ (hne sr₂ hsr₂)).advanced.trans hadv
    · intro r hr
      rw [List.map_cons, List.mem_cons, not_or] at hr
      exact (hm.other r hr.1).trans (ha.other r hr.2)

theorem advanceAfterSchedule_spec (h : s.advanceAfterSchedule output = .ok (s', output'))
    (hnd : (output.scheduledRequests.map (·.requestId)).Nodup)
    (hc : ∀ sr ∈ output.scheduledRequests,
      sr.numComputedTokens = (s.object sr.requestId).numComputedTokens) :
    Advances s output.scheduledRequests s' output'.scheduledRequests := by
  obtain ⟨hsync, rfl, rfl⟩ | ⟨hasync, records', hfold, rfl⟩ := advanceAfterSchedule_cases h
  · refine ⟨rfl, rfl, rfl, rfl, rfl, rfl, fun sr _ => ?_, fun r _ => .refl _⟩
    rw [Request.advanced, if_neg hsync]
    exact .refl _
  · obtain ⟨new, hnew, ha⟩ := advanceRecords_spec _ hasync hnd hc hfold
    rw [List.nil_append] at hnew
    simp only at hnew
    rw [hnew]
    exact ha

/-- A pass is followed by the advance of its own records. -/
theorem advances_of_summary {admitted rejected : List RequestId} {pass : Pass}
    (hsum : PassSummary s admitted rejected pass) (hq : Queues s)
    (hadv : pass.sched.advanceAfterSchedule pass.output = .ok (s', output')) :
    Advances pass.sched pass.output.scheduledRequests s' output'.scheduledRequests := by
  refine advanceAfterSchedule_spec hadv hsum.records_nodup fun sr hsr => ?_
  rcases hsum.records sr hsr with ⟨hrun, hout, hsized⟩ | ⟨-, c, -, hsized, hobj⟩
  · rw [hsized.computed, (hsum.running_object hq hrun hout).numComputedTokens]
  · rw [hsized.computed, hobj.numComputedTokens]
    rfl

/-- Appending keeps everything but the outputs. -/
theorem appendTokens_fst (q : Request) (tokens : List Int) :
    (appendTokens q tokens).1 =
      { q with outputTokenIds := q.outputTokenIds ++ tokens.take (appendTokens q tokens).2 } := by
  induction tokens generalizing q with
  | nil => simp [appendTokens]
  | cons token tokens ih =>
    rw [appendTokens]
    dsimp only
    split
    · simp
    · rw [ih]
      simp

/-- How many tokens are kept depends on the outputs and the stop conditions. -/
theorem appendTokens_snd_congr {q q' : Request} (ho : q'.outputTokenIds = q.outputTokenIds)
    (he : q'.eosTokenId = q.eosTokenId) (hm : q'.maxNewTokens = q.maxNewTokens)
    (tokens : List Int) : (appendTokens q' tokens).2 = (appendTokens q tokens).2 := by
  induction tokens generalizing q q' with
  | nil => rfl
  | cons token tokens ih =>
    have hcheck : checkFinish { q' with outputTokenIds := q'.outputTokenIds ++ [token] } =
        checkFinish { q with outputTokenIds := q.outputTokenIds ++ [token] } := by
      simp only [checkFinish, ho, he, hm]
    rw [appendTokens, appendTokens]
    dsimp only
    rw [hcheck]
    split
    · rfl
    · dsimp only
      rw [@ih { q with outputTokenIds := q.outputTokenIds ++ [token] }
        { q' with outputTokenIds := q'.outputTokenIds ++ [token] } (by rw [ho]) he hm]

theorem cacheGenericBlocks_sameCore (s : Scheduler) (r : RequestId) (n : Nat) :
    SameCore s (s.cacheGenericBlocks r n) := by
  unfold cacheGenericBlocks
  dsimp only
  split
  · exact .refl s
  · apply SameCore.of_modify
    exact fun _ => ⟨rfl⟩

theorem cacheCompletedBlocks_sameCore {n : Nat} (h : s.cacheCompletedBlocks r n = .ok s') :
    SameCore s s' := by
  unfold cacheCompletedBlocks at h
  split at h
  · cases h
    exact .refl s
  · split at h
    · dsimp only at h
      split at h
      · cases h
        apply SameCore.of_modify
        exact fun _ => ⟨rfl⟩
      · cases h
    · cases h
      exact cacheGenericBlocks_sameCore s r n

theorem publishScheduled_sameCore (h : s.publishScheduled sr = .ok s') : SameCore s s' := by
  unfold publishScheduled at h
  dsimp only at h
  split at h
  · split at h
    · cases h
    · split at h
      · cases h
        apply SameCore.of_modify
        exact fun _ => ⟨rfl⟩
      · cases h
  · exact cacheCompletedBlocks_sameCore h

theorem releaseScheduledGroupBlocks_sameCore (h : s.releaseScheduledGroupBlocks sr = .ok s') :
    SameCore s s' := by
  unfold releaseScheduledGroupBlocks at h
  split at h
  · cases h
    exact .refl s
  · split at h
    · cases h
    · obtain ⟨kv, -, h⟩ := bind_eq_ok.mp h
      cases h
      exact .of_cache s kv

/-- The output that streams one token. -/
def tokenOutput (r : RequestId) (token : Int) : RequestOutput :=
  { requestId := r, newTokenId := some token }

theorem clearTerminalPrefill_eq (s : Scheduler) (sr : ScheduledRequest) :
    s.clearTerminalPrefill sr = s.modify sr.requestId (·.confirmed sr.share) := by
  unfold clearTerminalPrefill
  dsimp only
  split
  · next h =>
    have hc : (s.object sr.requestId).confirmed sr.share =
      { s.object sr.requestId with terminalPrefillInFlight := false } := if_pos h
    simp only [modify, hc]
  · next h =>
    have hc : (s.object sr.requestId).confirmed sr.share = s.object sr.requestId := if_neg h
    simp only [modify, hc, Function.update_eq_self]

/-- The kept tokens do not depend on the barrier or the counters. -/
theorem appendTokens_snd_confirmed (q : Request) (share : StepShare) (tokens : List Int) :
    (appendTokens (q.confirmed share) tokens).2 = (appendTokens q tokens).2 := by
  apply appendTokens_snd_congr <;> (unfold Request.confirmed; split <;> rfl)

theorem reconcileAsyncOutput_mapped {tokens : List Int} {new : List RequestOutput}
    (h : s.reconcileAsyncOutput sr tokens = .ok (s', new)) :
    Mapped s sr.requestId (fun q => settle (appendTokens q tokens).1
      (q.released s.config sr.share) (appendTokens q tokens).2) s' ∧
    new = (tokens.take (appendTokens (s.object sr.requestId) tokens).2).map
      (tokenOutput sr.requestId) := by
  unfold reconcileAsyncOutput at h
  obtain ⟨s₁, hpub, h⟩ := bind_eq_ok.mp h
  obtain ⟨s₂, hrel, h⟩ := bind_eq_ok.mp h
  cases h
  have hsame := (publishScheduled_sameCore hpub).trans (releaseScheduledGroupBlocks_sameCore hrel)
  have hself := hsame.object sr.requestId
  have hkept : (appendTokens (s₂.object sr.requestId) tokens).2 =
      (appendTokens (s.object sr.requestId) tokens).2 :=
    appendTokens_snd_congr hself.outputTokenIds hself.eosTokenId hself.maxNewTokens tokens
  refine ⟨?_, by rw [hkept]; rfl⟩
  have hm := Mapped.after_same hsame
    ((Mapped.of_modify s₂ sr.requestId fun q => (appendTokens q tokens).1).trans
      (Mapped.of_modify _ sr.requestId fun q => settle q (s.reservedTokens sr)
        (appendTokens (s₂.object sr.requestId) tokens).2)
      fun q => Request.core_settle q _ _)
    fun q => by
      show (settle _ _ _).core = settle _ _ _
      dsimp only
      rw [Request.core_settle, Request.core_appendTokens]
  refine { hm with self := ?_ }
  show SameRequest (settle (appendTokens (s.object sr.requestId) tokens).1 (s.reservedTokens sr)
    (appendTokens (s.object sr.requestId) tokens).2) _
  rw [← hkept]
  exact hm.self

/-- The synchronous result on one request, after the barrier was cleared. -/
def steppedFrom (share : StepShare) (tokens : List Int) (q : Request) : Request :=
  if share.isPrefill then
    let q := { q with numComputedTokens := q.numComputedTokens + share.numNewTokens }
    if q.isPrefill then q else (appendTokens q tokens).1
  else
    { (appendTokens q tokens).1 with
      numComputedTokens := q.numComputedTokens + (appendTokens q tokens).2 }

theorem steppedFrom_chunk {share : StepShare} (tokens : List Int) {q : Request}
    (hp : share.isPrefill = true)
    (h : q.numComputedTokens + share.numNewTokens < q.numPromptTokens) :
    steppedFrom share tokens q =
      { q with numComputedTokens := q.numComputedTokens + share.numNewTokens } := by
  unfold steppedFrom
  rw [if_pos hp]
  exact if_pos (decide_eq_true h)

theorem steppedFrom_prompt {share : StepShare} (tokens : List Int) {q : Request}
    (hp : share.isPrefill = true)
    (h : ¬ q.numComputedTokens + share.numNewTokens < q.numPromptTokens) :
    steppedFrom share tokens q = (appendTokens
      { q with numComputedTokens := q.numComputedTokens + share.numNewTokens } tokens).1 := by
  unfold steppedFrom
  rw [if_pos hp]
  exact if_neg fun hd => h (of_decide_eq_true hd)

theorem steppedFrom_decode {share : StepShare} (tokens : List Int) {q : Request}
    (hp : ¬ share.isPrefill = true) : steppedFrom share tokens q =
      { (appendTokens q tokens).1 with
        numComputedTokens := q.numComputedTokens + (appendTokens q tokens).2 } := by
  unfold steppedFrom
  rw [if_neg hp]

theorem stepped_eq (q : Request) (share : StepShare) (tokens : List Int) :
    q.stepped share tokens = steppedFrom share tokens (q.confirmed share) := by
  unfold Request.stepped steppedFrom
  dsimp only
  split
  · rfl
  · rw [appendTokens_fst]

theorem core_steppedFrom (share : StepShare) (tokens : List Int) (q : Request) :
    (steppedFrom share tokens q).core = steppedFrom share tokens q.core := by
  by_cases hp : share.isPrefill = true
  · by_cases hc : q.numComputedTokens + share.numNewTokens < q.numPromptTokens
    · rw [steppedFrom_chunk tokens hp hc, steppedFrom_chunk (q := q.core) tokens hp hc]
      rfl
    · rw [steppedFrom_prompt tokens hp hc, steppedFrom_prompt (q := q.core) tokens hp hc]
      have := Request.core_appendTokens { q with
        numComputedTokens := q.numComputedTokens + share.numNewTokens } tokens
      exact (congrArg Prod.fst this).symm
  · rw [steppedFrom_decode tokens hp, steppedFrom_decode tokens hp, Request.core_appendTokens]
    rfl

theorem applySyncOutput_mapped {tokens : List Int} {new : List RequestOutput}
    (h : s.applySyncOutput sr tokens = .ok (s', new)) :
    Mapped s sr.requestId (steppedFrom sr.share tokens) s' ∧
    new = (if sr.isPrefill ∧ (s.object sr.requestId).numComputedTokens + sr.numNewTokens <
        (s.object sr.requestId).numPromptTokens then []
      else tokens.take (appendTokens (s.object sr.requestId) tokens).2).map
        (tokenOutput sr.requestId) := by
  unfold applySyncOutput at h
  dsimp only at h
  split at h
  · next hpre =>
    have hm := Mapped.of_modify s sr.requestId fun q =>
      { q with numComputedTokens := q.numComputedTokens + sr.numNewTokens }
    obtain ⟨s₁, hpub, h⟩ := bind_eq_ok.mp h
    have hsame := cacheCompletedBlocks_sameCore hpub
    have hm₁ := hm.trans_same hsame
    have hself := hm₁.self
    have hprefill : (s₁.object sr.requestId).isPrefill = decide
        ((s.object sr.requestId).numComputedTokens + sr.numNewTokens <
          (s.object sr.requestId).numPromptTokens) := hself.isPrefill
    split at h
    · next hp =>
      cases h
      rw [hprefill, decide_eq_true_eq] at hp
      refine ⟨{ hm₁ with self := ?_ }, by rw [if_pos ⟨hpre, hp⟩]; rfl⟩
      rw [steppedFrom_chunk tokens hpre hp]
      exact hself
    · next hp =>
      cases h
      rw [hprefill, decide_eq_true_eq] at hp
      have happ := Mapped.of_modify s₁ sr.requestId fun q => (appendTokens q tokens).1
      have hm₂ := hm₁.trans happ fun q => by rw [Request.core_appendTokens]
      have hkept : (appendTokens (s₁.object sr.requestId) tokens).2 =
          (appendTokens (s.object sr.requestId) tokens).2 := by
        apply appendTokens_snd_congr
        · exact hself.outputTokenIds
        · exact hself.eosTokenId
        · exact hself.maxNewTokens
      refine ⟨{ hm₂ with self := ?_ }, ?_⟩
      · rw [steppedFrom_prompt tokens hpre hp]
        exact hm₂.self
      · rw [if_neg fun hand => hp hand.2, ← hkept]
        rfl
  · next hpre =>
    obtain ⟨s₁, hpub, h⟩ := bind_eq_ok.mp h
    cases h
    have hsame := cacheCompletedBlocks_sameCore hpub
    have hm := ((Mapped.of_modify s sr.requestId fun q => (appendTokens q tokens).1).trans
      (Mapped.of_modify _ sr.requestId fun q => { q with
        numComputedTokens := q.numComputedTokens +
          (appendTokens (s.object sr.requestId) tokens).2 }) fun _ => rfl).trans_same hsame
    refine ⟨{ hm with self := ?_ }, ?_⟩
    · rw [steppedFrom_decode tokens hpre]
      have := hm.self
      rw [Function.comp, appendTokens_fst] at this
      rw [appendTokens_fst]
      exact this
    · rw [if_neg fun hand => hpre hand.1]
      rfl

/-- A request whose result is dropped: it has ended or was preempted. -/
def Dropped (status : RequestStatus) : Prop := status.isFinished = true ∨ status = .preempted

instance (status : RequestStatus) : Decidable (Dropped status) :=
  inferInstanceAs (Decidable (_ ∨ _))

/-- The tokens that a result brings for a request. -/
def tokensFor (newTokenIds : StepTokens) (r : RequestId) : List Int :=
  (newTokenIds.lookup r).getD []

theorem applyScheduled_spec {newTokenIds : StepTokens} {outs outs' : List RequestOutput}
    (h : applyScheduled newTokenIds (s, outs) sr = .ok (s', outs')) :
    (Dropped (s.object sr.requestId).status ∧ SameCore s s' ∧ outs' = outs) ∨
    (¬ Dropped (s.object sr.requestId).status ∧
      Mapped s sr.requestId
        (·.applied s.config sr.share (tokensFor newTokenIds sr.requestId)) s' ∧
      outs' = outs ++ ((s.object sr.requestId).emitted s.config sr.share
        (tokensFor newTokenIds sr.requestId)).map (tokenOutput sr.requestId)) := by
  unfold applyScheduled at h
  dsimp only at h
  split at h
  · next hd =>
    obtain ⟨s₁, hrel, h⟩ := bind_eq_ok.mp h
    cases h
    exact .inl ⟨hd, releaseScheduledGroupBlocks_sameCore hrel, rfl⟩
  · next hd =>
    obtain ⟨⟨s₁, new⟩, happ, h⟩ := bind_eq_ok.mp h
    cases h
    rw [clearTerminalPrefill_eq] at happ
    have hm := Mapped.of_modify s sr.requestId (·.confirmed sr.share)
    generalize hs₀ : s.modify sr.requestId (·.confirmed sr.share) = s₀ at happ hm
    have hobj : s₀.object sr.requestId = (s.object sr.requestId).confirmed sr.share := by
      rw [← hs₀, modify_object_self]
    have hkept := appendTokens_snd_confirmed (s.object sr.requestId) sr.share
      (tokensFor newTokenIds sr.requestId)
    have hcomp : ((s.object sr.requestId).confirmed sr.share).numComputedTokens =
        (s.object sr.requestId).numComputedTokens := by
      unfold Request.confirmed
      split <;> rfl
    have hprompt : ((s.object sr.requestId).confirmed sr.share).numPromptTokens =
        (s.object sr.requestId).numPromptTokens := by
      unfold Request.confirmed
      split <;> rfl
    have htemp : ((s.object sr.requestId).confirmed sr.share).temperature =
        (s.object sr.requestId).temperature := by
      unfold Request.confirmed
      split <;> rfl
    refine .inr ⟨hd, ?_⟩
    unfold applyOutput at happ
    rw [hm.config] at happ
    split at happ
    · next hasync =>
      obtain ⟨hm', hnew⟩ := reconcileAsyncOutput_mapped happ
      rw [hm.config] at hm'
      have ht := hm.trans hm' fun q => by
        rw [Request.core_settle, Request.core_appendTokens]
        rfl
      refine ⟨{ ht with self := ?_ }, ?_⟩
      · have hself := ht.self
        rw [Function.comp] at hself
        dsimp only
        rw [Request.applied, if_pos hasync, Request.reconciled]
        rw [Request.released, hcomp, hprompt, Request.speculation, htemp] at hself
        exact hself
      · rw [hnew, hobj, Request.emitted, if_neg (by simp [hasync])]
        rw [← hkept]
        rfl
    · next hsync =>
      obtain ⟨hm', hnew⟩ := applySyncOutput_mapped happ
      have ht := hm.trans hm' (core_steppedFrom _ _)
      refine ⟨{ ht with self := ?_ }, ?_⟩
      · have hself := ht.self
        rw [Function.comp, ← stepped_eq] at hself
        dsimp only
        rw [Request.applied, if_neg hsync]
        exact hself
      · rw [hnew, hobj, hcomp, hprompt, Request.emitted]
        by_cases hchunk : sr.isPrefill ∧ (s.object sr.requestId).numComputedTokens +
            sr.numNewTokens < (s.object sr.requestId).numPromptTokens
        · rw [if_pos hchunk, if_pos ⟨hsync, hchunk⟩]
        · rw [if_neg hchunk, if_neg (fun hand => hchunk hand.2), ← hkept]
          rfl

theorem emitted_congr {q q' : Request} (h : SameRequest q q') (config : SchedulerConfig)
    (share : StepShare) (tokens : List Int) :
    q'.emitted config share tokens = q.emitted config share tokens := by
  unfold Request.emitted
  rw [h.numComputedTokens, h.numPromptTokens,
    appendTokens_snd_congr h.outputTokenIds h.eosTokenId h.maxNewTokens]

/-- The outputs that one record contributes. -/
def recordOutputs (s : Scheduler) (newTokenIds : StepTokens) (sr : ScheduledRequest) :
    List RequestOutput :=
  if Dropped (s.object sr.requestId).status then []
  else ((s.object sr.requestId).emitted s.config sr.share
    (tokensFor newTokenIds sr.requestId)).map (tokenOutput sr.requestId)

/-- What the records of a result do to the requests. -/
structure Applies (s : Scheduler) (newTokenIds : StepTokens) (records : List ScheduledRequest)
    (s' : Scheduler) : Prop where
  config : s'.config = s.config
  waiting : s'.waiting = s.waiting
  running : s'.running = s.running
  requests : s'.requests = s.requests
  applied : ∀ sr ∈ records, ¬ Dropped (s.object sr.requestId).status →
    SameRequest ((s.object sr.requestId).applied s.config sr.share
      (tokensFor newTokenIds sr.requestId)) (s'.object sr.requestId)
  dropped : ∀ sr ∈ records, Dropped (s.object sr.requestId).status →
    SameRequest (s.object sr.requestId) (s'.object sr.requestId)
  other : ∀ r, r ∉ records.map (·.requestId) → SameRequest (s.object r) (s'.object r)

theorem applyScheduled_fold {newTokenIds : StepTokens} (l : List ScheduledRequest)
    (hnd : (l.map (·.requestId)).Nodup) {outs : List RequestOutput}
    {res : Scheduler × List RequestOutput}
    (h : l.foldlM (applyScheduled newTokenIds) (s, outs) = .ok res) :
    Applies s newTokenIds l res.1 ∧ res.2 = outs ++ l.flatMap (recordOutputs s newTokenIds) := by
  induction l generalizing s outs with
  | nil =>
    cases h
    exact ⟨⟨rfl, rfl, rfl, rfl, by simp, by simp, fun r _ => .refl _⟩, by simp⟩
  | cons sr l ih =>
    rw [List.foldlM_cons] at h
    obtain ⟨⟨s₁, outs₁⟩, hone, h⟩ := bind_eq_ok.mp h
    rw [List.map_cons, List.nodup_cons] at hnd
    have hne : ∀ sr₂ ∈ l, sr₂.requestId ≠ sr.requestId := fun sr₂ hsr₂ he =>
      hnd.1 (he ▸ List.mem_map_of_mem hsr₂)
    obtain ⟨ha, houts⟩ := ih hnd.2 h
    -- The record behind us changes its own request only.
    have hframe : s₁.config = s.config ∧ s₁.waiting = s.waiting ∧ s₁.running = s.running ∧
        s₁.requests = s.requests ∧
        (∀ r, r ≠ sr.requestId → SameRequest (s.object r) (s₁.object r)) ∧
        outs₁ = outs ++ recordOutputs s newTokenIds sr ∧
        (¬ Dropped (s.object sr.requestId).status →
          SameRequest ((s.object sr.requestId).applied s.config sr.share
            (tokensFor newTokenIds sr.requestId)) (s₁.object sr.requestId)) ∧
        (Dropped (s.object sr.requestId).status →
          SameRequest (s.object sr.requestId) (s₁.object sr.requestId)) := by
      rcases applyScheduled_spec hone with ⟨hd, hs, rfl⟩ | ⟨hd, hm, rfl⟩
      · exact ⟨hs.config, hs.waiting, hs.running, hs.requests, fun r _ => hs.object r,
          by rw [recordOutputs, if_pos hd, List.append_nil], fun hn => absurd hd hn,
          fun _ => hs.object _⟩
      · exact ⟨hm.config, hm.waiting, hm.running, hm.requests, hm.other,
          by rw [recordOutputs, if_neg hd], fun _ => hm.self, fun hd' => absurd hd' hd⟩
    obtain ⟨hcfg, hwait, hrun, hreq, hoth, hout₁, happ, hdrop⟩ := hframe
    refine ⟨⟨ha.config.trans hcfg, ha.waiting.trans hwait, ha.running.trans hrun,
      ha.requests.trans hreq, ?_, ?_, ?_⟩, ?_⟩
    · intro sr₂ hsr₂ hd
      rcases List.mem_cons.mp hsr₂ with rfl | hsr₂
      · exact (happ hd).trans (ha.other _ hnd.1)
      · have hs := hoth _ (hne sr₂ hsr₂)
        have := ha.applied sr₂ hsr₂ (by rwa [hs.status])
        rw [hcfg] at this
        exact (hs.applied _).trans this
    · intro sr₂ hsr₂ hd
      rcases List.mem_cons.mp hsr₂ with rfl | hsr₂
      · exact (hdrop hd).trans (ha.other _ hnd.1)
      · have hs := hoth _ (hne sr₂ hsr₂)
        exact hs.trans (ha.dropped sr₂ hsr₂ (by rwa [hs.status]))
    · intro r hr
      rw [List.map_cons, List.mem_cons, not_or] at hr
      exact (hoth r hr.1).trans (ha.other r hr.2)
    · rw [houts, hout₁, List.flatMap_cons, List.append_assoc]
      congr 2
      refine List.flatMap_congr fun sr₂ hsr₂ => ?_
      have hs := hoth _ (hne sr₂ hsr₂)
      rw [recordOutputs, recordOutputs, hs.status, emitted_congr hs, hcfg]

/-- The finish check marks the running requests that meet a stop condition. -/
theorem finishRunning_fold (l : List RequestId) (hnd : l.Nodup)
    (acc : Scheduler × List RequestOutput × List RequestId)
    (hstatus : ∀ r ∈ l, (acc.1.object r).status.isFinished = false) :
    let res := l.foldl finishRunning acc
    res.1.config = acc.1.config ∧ res.1.waiting = acc.1.waiting ∧
      res.1.running = acc.1.running ∧ res.1.requests = acc.1.requests ∧
      res.1.kvCacheManager = acc.1.kvCacheManager ∧
      (∀ r, res.1.object r = match if r ∈ l then checkFinish (acc.1.object r) else none with
        | some status => { acc.1.object r with status }
        | none => acc.1.object r) ∧
      res.2.2 = acc.2.2 ++ l.filter fun r => (checkFinish (acc.1.object r)).isSome := by
  induction l generalizing acc with
  | nil => simp
  | cons r l ih =>
    rw [List.nodup_cons] at hnd
    have hrun : (acc.1.object r).status.isFinished = false := hstatus r (by simp)
    have hne : ∀ x ∈ l, x ≠ r := fun x hx he => hnd.1 (he ▸ hx)
    rw [List.foldl_cons]
    cases hc : checkFinish (acc.1.object r) with
    | none =>
      have hone : finishRunning acc r = acc := by
        unfold finishRunning
        simp [hrun, hc]
      rw [hone]
      obtain ⟨h1, h2, h3, h4, h5, h6, h7⟩ := ih hnd.2 acc fun x hx => hstatus x (by simp [hx])
      refine ⟨h1, h2, h3, h4, h5, fun x => ?_, ?_⟩
      · rw [h6 x]
        by_cases hx : x = r
        · rw [hx]
          simp [hnd.1, hc]
        · simp [hx]
      · rw [h7, List.filter_cons, hc]
        rfl
    | some status =>
      have hone : finishRunning acc r = (acc.1.modify r fun request => { request with status },
          markFinished r status.name acc.2.1, acc.2.2 ++ [r]) := by
        unfold finishRunning
        simp [hrun, hc]
      rw [hone]
      obtain ⟨h1, h2, h3, h4, h5, h6, h7⟩ := ih hnd.2
        (acc.1.modify r fun request => { request with status },
          markFinished r status.name acc.2.1, acc.2.2 ++ [r]) fun x hx => by
        rw [modify_object_ne _ _ (hne x hx)]
        exact hstatus x (by simp [hx])
      refine ⟨h1, h2, h3, h4, h5, fun x => ?_, ?_⟩
      · rw [h6 x]
        by_cases hx : x = r
        · rw [hx]
          simp [hnd.1, hc]
        · simp [hx, modify_object_ne]
      · rw [h7, List.filter_cons, hc, List.append_assoc]
        refine congrArg (acc.2.2 ++ ·) (congrArg (r :: ·) (List.filter_congr fun x hx => ?_))
        rw [modify_object_ne _ _ (hne x hx)]

theorem retire_spec (h : s.retire r = .ok s') :
    SameCore { s with running := s.running.filter (· ≠ r) } s' := by
  unfold retire at h
  split at h
  · obtain ⟨s₁, hfree, h⟩ := bind_eq_ok.mp h
    cases h
    have hs := freeRequestBlocks_sameCore hfree
    exact ⟨hs.config, hs.object, hs.waiting, by rw [hs.running], hs.requests, hs.phase⟩
  · cases h
    exact .refl _

theorem retire_fold (l : List RequestId) (h : l.foldlM retire s = .ok s') :
    SameCore { s with running := s.running.filter (· ∉ l) } s' := by
  induction l generalizing s with
  | nil =>
    cases h
    simpa using SameCore.refl s'
  | cons r l ih =>
    rw [List.foldlM_cons] at h
    obtain ⟨s₁, hone, h⟩ := bind_eq_ok.mp h
    have hs := retire_spec hone
    have ht := ih h
    refine ⟨ht.config.trans hs.config, fun x => (hs.object x).trans (ht.object x),
      ht.waiting.trans hs.waiting, ?_, ht.requests.trans hs.requests, ht.phase.trans hs.phase⟩
    rw [ht.running]
    dsimp only
    rw [hs.running, List.filter_filter]
    refine List.filter_congr fun x _ => ?_
    rw [Bool.eq_iff_iff]
    simp only [List.mem_cons, decide_eq_true_eq, Bool.and_eq_true]
    tauto

theorem applied_status (q : Request) (config : SchedulerConfig) (share : StepShare)
    (tokens : List Int) : (q.applied config share tokens).status = q.status := by
  have hconf : (q.confirmed share).status = q.status := by
    unfold Request.confirmed
    split <;> rfl
  unfold Request.applied
  split
  · unfold Request.reconciled settle
    dsimp only
    split <;> rw [appendTokens_fst, hconf]
  · rw [stepped_eq, ← hconf]
    by_cases hp : share.isPrefill = true
    · by_cases hc : (q.confirmed share).numComputedTokens + share.numNewTokens <
          (q.confirmed share).numPromptTokens
      · rw [steppedFrom_chunk tokens hp hc]
      · rw [steppedFrom_prompt tokens hp hc, appendTokens_fst]
    · rw [steppedFrom_decode tokens hp, appendTokens_fst]

/-- Running requests still run behind the records of a result. -/
theorem Applies.running_status {newTokenIds : StepTokens} {records : List ScheduledRequest}
    {mid : Scheduler} {r : RequestId} (ha : Applies s newTokenIds records mid)
    (hr : (s.object r).status = .running) : (mid.object r).status = .running := by
  by_cases hrec : r ∈ records.map (·.requestId)
  · obtain ⟨sr, hsr, rfl⟩ := List.mem_map.mp hrec
    rw [(ha.applied sr hsr (by rw [hr]; decide)).status, applied_status, hr]
  · rw [(ha.other r hrec).status, hr]

/-- What `update_from_output` does to the requests and the running queue; `mid` is the
scheduler after the records and before the finish checks. -/
structure Updates (s : Scheduler) (newTokenIds : StepTokens) (records : List ScheduledRequest)
    (mid s' : Scheduler) : Prop where
  applies : Applies s newTokenIds records mid
  config : s'.config = s.config
  waiting : s'.waiting = s.waiting
  requests : s'.requests = s.requests
  running : s'.running = s.running.filter fun r => (checkFinish (mid.object r)).isNone
  finished : ∀ r ∈ s.running, ∀ status, checkFinish (mid.object r) = some status →
    SameRequest { mid.object r with status } (s'.object r)
  unfinished : ∀ r ∈ s.running, checkFinish (mid.object r) = none →
    SameRequest (mid.object r) (s'.object r)
  other : ∀ r, r ∉ s.running → SameRequest (mid.object r) (s'.object r)

theorem updateFromOutput_spec {newTokenIds : StepTokens} {outs : List RequestOutput}
    (hnd : (output.scheduledRequests.map (·.requestId)).Nodup) (hrun : s.running.Nodup)
    (hstatus : ∀ r ∈ s.running, (s.object r).status = .running)
    (h : s.updateFromOutput output newTokenIds = .ok (s', outs)) :
    ∃ mid, Updates s newTokenIds output.scheduledRequests mid s' ∧
      outs = (s.running.foldl finishRunning
        (mid, output.scheduledRequests.flatMap (recordOutputs s newTokenIds), [])).2.1 := by
  unfold updateFromOutput at h
  obtain ⟨⟨mid, outs₁⟩, hfold, h⟩ := bind_eq_ok.mp h
  obtain ⟨s₂, hret, h⟩ := bind_eq_ok.mp h
  cases h
  obtain ⟨ha, houts⟩ := applyScheduled_fold _ hnd hfold
  dsimp only at ha houts
  have hmid : ∀ r ∈ mid.running, (mid.object r).status.isFinished = false := by
    intro r hr
    rw [ha.running] at hr
    rw [ha.running_status (hstatus r hr)]
    rfl
  obtain ⟨h1, h2, h3, h4, h5, h6, h7⟩ := finishRunning_fold mid.running (by rw [ha.running]; exact hrun)
    (mid, outs₁, []) hmid
  have hs := retire_fold _ hret
  refine ⟨mid, ⟨ha, hs.config.trans (h1.trans ha.config), hs.waiting.trans (h2.trans ha.waiting),
    hs.requests.trans (h4.trans ha.requests), ?_, ?_, ?_, ?_⟩, ?_⟩
  · rw [hs.running]
    dsimp only
    rw [h7, h3, ha.running, List.nil_append]
    refine List.filter_congr fun r hr => ?_
    cases hc : checkFinish (mid.object r) <;> simp [hr, hc]
  · intro r hr status hc
    have hobj := h6 r
    rw [if_pos (by rw [ha.running]; exact hr)] at hobj
    dsimp only at hobj
    rw [hc] at hobj
    have := hs.object r
    dsimp only at this
    rwa [hobj] at this
  · intro r hr hc
    have hobj := h6 r
    rw [if_pos (by rw [ha.running]; exact hr)] at hobj
    dsimp only at hobj
    rw [hc] at hobj
    have := hs.object r
    dsimp only at this
    rwa [hobj] at this
  · intro r hr
    have hobj := h6 r
    rw [if_neg (by rw [ha.running]; exact hr)] at hobj
    have := hs.object r
    dsimp only at this
    rwa [hobj] at this
  · rw [ha.running, houts, List.nil_append]

/-- What ending one request with `status` does. -/
structure Ends (s : Scheduler) (r : RequestId) (status : RequestStatus) (s' : Scheduler) : Prop where
  config : s'.config = s.config
  self : SameRequest { s.object r with status } (s'.object r)
  other : ∀ r', r' ≠ r → SameRequest (s.object r') (s'.object r')
  running : s'.running = s.running.filter (· ≠ r)

theorem freed_object {status : RequestStatus}
    (h : (s.modify r fun request => { request with status }).freeRequestBlocks r = .ok s') :
    SameRequest { s.object r with status } (s'.object r) ∧
      ∀ r', r' ≠ r → SameRequest (s.object r') (s'.object r') := by
  have hs := freeRequestBlocks_sameCore h
  refine ⟨?_, fun r' hr => ?_⟩
  · have := hs.object r
    rwa [modify_object_self] at this
  · have := hs.object r'
    rwa [modify_object_ne _ _ hr] at this

theorem abortRequest_spec (h : s.abortRequest r = .ok s') :
    (r ∉ s.requests ∧ s' = s) ∨
    (r ∈ s.requests ∧ Ends s r .finishedAborted s' ∧ s'.waiting = s.waiting.filter (· ≠ r) ∧
      s'.requests = s.requests.filter (· ≠ r)) := by
  unfold abortRequest at h
  split at h
  · next hr =>
    cases h
    exact .inl ⟨hr, rfl⟩
  · next hr =>
    obtain ⟨s₁, hfree, h⟩ := bind_eq_ok.mp h
    cases h
    have hs := freeRequestBlocks_sameCore hfree
    obtain ⟨hself, hother⟩ := freed_object hfree
    refine .inr ⟨not_not.mp hr, ⟨hs.config, hself, hother, ?_⟩, ?_, ?_⟩
    · exact congrArg (List.filter _) hs.running
    · exact congrArg (List.filter _) hs.waiting
    · exact congrArg (List.filter _) hs.requests

theorem finishRequest_spec {status : RequestStatus} (h : s.finishRequest r status = .ok s') :
    (r ∉ s.requests ∧ s' = s) ∨
    (r ∈ s.requests ∧ Ends s r status s' ∧ s'.waiting = s.waiting ∧
      s'.requests = s.requests) := by
  unfold finishRequest at h
  split at h
  · next hr =>
    cases h
    exact .inl ⟨hr, rfl⟩
  · next hr =>
    obtain ⟨s₁, hfree, h⟩ := bind_eq_ok.mp h
    cases h
    have hs := freeRequestBlocks_sameCore hfree
    obtain ⟨hself, hother⟩ := freed_object hfree
    refine .inr ⟨not_not.mp hr, ⟨hs.config, hself, hother, ?_⟩, hs.waiting, hs.requests⟩
    exact congrArg (List.filter _) hs.running

/-- The request object that `add_request` stores. -/
structure Accepted (s : Scheduler) (request stored : Request) : Prop where
  eq : stored = { request with
    maxNewTokens := stored.maxNewTokens, blockHashes := stored.blockHashes,
    groupBlockHashes := stored.groupBlockHashes, status := .waiting }
  room : request.numPromptTokens < s.config.maxSeqLen
  capped : stored.maxNewTokens =
    min request.maxNewTokens (s.config.maxSeqLen - request.numPromptTokens)

theorem addRequest_spec {request : Request} (h : s.addRequest request = .ok s') :
    ∃ stored, Accepted s request stored ∧ s' = { s with
      object := Function.update s.object request.requestId stored
      waiting := s.waiting ++ [request.requestId]
      requests := s.requests ++ [request.requestId] } := by
  unfold addRequest at h
  dsimp only at h
  split at h
  · cases h
  · split at h
    · cases h
    · next hlen hroom =>
      have hlt : request.numPromptTokens < s.config.maxSeqLen := by
        unfold Request.numPromptTokens
        omega
      split at h
      · cases h
      · cases h
        by_cases hcaching : s.config.enablePrefixCache = true
        · by_cases hgroups : s.kvCacheManager.hasGroups = true
          · simp only [hcaching, hgroups, if_true]
            exact ⟨_, ⟨rfl, hlt, rfl⟩, rfl⟩
          · simp only [hcaching, hgroups, if_true, if_false, Bool.false_eq_true]
            exact ⟨_, ⟨rfl, hlt, rfl⟩, rfl⟩
        · simp only [hcaching, if_false, Bool.false_eq_true]
          exact ⟨_, ⟨rfl, hlt, rfl⟩, rfl⟩

end Scheduler

/-- A new request joins the waiting queue. -/
theorem Queues.add {s : Scheduler} {request stored : Request} (h : Queues s)
    (hstored : Scheduler.Accepted s request stored) (hfresh : request.Fresh)
    (hnr : request.requestId ∉ s.running) (hnw : request.requestId ∉ s.waiting) :
    Queues { s with
      object := Function.update s.object request.requestId stored
      waiting := s.waiting ++ [request.requestId]
      requests := s.requests ++ [request.requestId] } := by
  have hidle : stored.Idle ∧ 0 < stored.numPromptTokens := by
    rw [hstored.eq]
    have hp := hfresh.prompt_pos
    rw [hfresh.defaults] at hp ⊢
    exact ⟨⟨rfl, rfl, rfl⟩, hp⟩
  have hwaiting : stored.status = .waiting := by
    rw [hstored.eq]
  have hobj : ∀ x, x ≠ request.requestId →
      Function.update s.object request.requestId stored x = s.object x :=
    fun x hx => Function.update_of_ne hx _ _
  have hself : Function.update s.object request.requestId stored request.requestId = stored :=
    Function.update_self _ _ _
  have hrun : ∀ x ∈ s.running, x ≠ request.requestId := fun x hx he => hnr (he ▸ hx)
  have hwait : ∀ x ∈ s.waiting, x ≠ request.requestId := fun x hx he => hnw (he ▸ hx)
  have hmem : ∀ x, x ∈ s.waiting ++ [request.requestId] ↔
      x ∈ s.waiting ∨ x = request.requestId := by simp
  constructor
  · exact h.running_nodup
  · exact h.waiting_nodup.append (List.nodup_singleton _) (by simpa using hnw)
  · intro x hx hw
    rcases (hmem x).mp hw with hw | rfl
    · exact h.disjoint x hx hw
    · exact hnr hx
  · intro x hx
    dsimp only
    rw [hobj x (hrun x hx)]
    exact h.running_status x hx
  · intro x hx
    dsimp only
    rcases (hmem x).mp hx with hx | rfl
    · rw [hobj x (hwait x hx)]
      exact h.waiting_status x hx
    · rw [hself]
      exact .inl hwaiting
  · intro x hx
    dsimp only
    rcases (hmem x).mp hx with hx | rfl
    · rw [hobj x (hwait x hx)]
      exact h.idle x hx
    · rw [hself]
      exact hidle.1
  · intro x hx
    dsimp only
    by_cases hxe : x = request.requestId
    · rw [hxe, hself]
      exact hidle.2
    · rw [hobj x hxe]
      exact h.prompt_pos x (hx.imp id fun hw => ((hmem x).mp hw).resolve_right hxe)

end PyptoServing.Sched
