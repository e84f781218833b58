import PyptoServing.Sched.Placeholders
import PyptoServing.Sched.UnsharedPages

/-!
# Who owns a page

The engine loop over a cache without groups and without a prefix index. In every run a page
belongs to one running request, and the tables sent with the steps in flight are front parts
of the present tables, long enough for what they compute.
-/
namespace PyptoServing.Sched

open Lib Lib.Fallible Memory Scheduler
open KvCacheManager (GenericBalanced)

variable {s s' s'' t : Scheduler} {ids : List RequestId} {r : RequestId} {sr : ScheduledRequest}
  {output output' : SchedulerOutput}

theorem retainScheduled_samePages {res : Scheduler × ScheduledRequest}
    (h : s.retainScheduled sr = .ok res) : SamePages s res.1 ∧
      res.2.requestId = sr.requestId ∧ res.2.blockIds = sr.blockIds ∧ res.2.share = sr.share := by
  have hblocks := retainScheduled_sameBlocks h
  unfold retainScheduled at h
  split at h
  · cases h
    exact ⟨.refl s, rfl, rfl, rfl⟩
  · split at h
    · cases h
    · obtain ⟨kv, hkv, h⟩ := bind_eq_ok.mp h
      cases h
      refine ⟨⟨hblocks, fun hnil => ?_, rfl⟩, rfl, rfl, rfl⟩
      unfold KvCacheManager.retainGroupBlockSnapshot at hkv
      split at hkv
      · cases hkv
        exact hnil
      · split at hkv
        · cases hkv
        · obtain ⟨resolved, -, hkv⟩ := bind_eq_ok.mp hkv
          cases hkv
          dsimp only
          rw [hnil]
          rfl

/-- A record as it was sent. -/
def SentAs (sr sr' : ScheduledRequest) : Prop :=
  sr'.requestId = sr.requestId ∧ sr'.blockIds = sr.blockIds ∧ sr'.share = sr.share

/-- The optimistic advance moves no page and sends the records with their tables. -/
theorem advanceAfterSchedule_samePages (h : s.advanceAfterSchedule output = .ok (s', output')) :
    SamePages s s' ∧
      ∀ sr' ∈ output'.scheduledRequests, ∃ sr ∈ output.scheduledRequests, SentAs sr sr' := by
  unfold advanceAfterSchedule at h
  split at h
  · cases h
    exact ⟨.refl s, fun sr hsr => ⟨sr, hsr, rfl, rfl, rfl⟩⟩
  · obtain ⟨⟨t, records⟩, hfold, h⟩ := bind_eq_ok.mp h
    cases h
    refine foldlM_keeps_mem (I := fun acc : Scheduler × List ScheduledRequest => SamePages s acc.1 ∧
      ∀ sr' ∈ acc.2, ∃ sr ∈ output.scheduledRequests, SentAs sr sr') _ ?_ _ _ hfold
      ⟨.refl s, fun _ hsr => absurd hsr List.not_mem_nil⟩
    rintro sr hsr ⟨t, l⟩ acc hone ⟨hI, hl⟩
    obtain ⟨⟨t₁, sr₁⟩, hret, hone⟩ := bind_eq_ok.mp hone
    cases hone
    obtain ⟨hsame, hsent⟩ := retainScheduled_samePages hret
    refine ⟨(hI.trans hsame).trans ?_, fun sr' hsr' => ?_⟩
    · dsimp only [advanceRequest]
      apply SamePages.of_modify
      exact fun _ => rfl
    · rcases List.mem_append.mp hsr' with hsr' | hsr'
      · exact hl sr' hsr'
      · rw [List.mem_singleton.mp hsr']
        exact ⟨sr, hsr, hsent⟩

theorem releaseScheduledGroupBlocks_samePages
    (h : s.releaseScheduledGroupBlocks sr = .ok s') : SamePages s s' := by
  have hblocks := releaseScheduledGroupBlocks_sameBlocks h
  unfold releaseScheduledGroupBlocks at h
  split at h
  · cases h
    exact .refl s
  · split at h
    · cases h
    · obtain ⟨kv, hkv, h⟩ := bind_eq_ok.mp h
      cases h
      refine ⟨hblocks, fun hnil => ?_, rfl⟩
      unfold KvCacheManager.releaseGroupBlockSnapshot at hkv
      rw [hnil] at hkv
      cases hkv
      rfl

/-- Nothing is published. -/
theorem cacheCompletedBlocks_off {n : Nat} (hoff : s.config.enablePrefixCache = false)
    (h : s.cacheCompletedBlocks r n = .ok s') : s' = s := by
  unfold cacheCompletedBlocks at h
  rw [hoff, if_pos Bool.false_ne_true] at h
  exact (Except.ok.inj h).symm

section Results
variable {tokens : List Int} {res : Scheduler × List RequestOutput}

theorem publishScheduled_off (hoff : s.config.enablePrefixCache = false)
    (hgroups : s.kvCacheManager.groupPools = []) (h : s.publishScheduled sr = .ok s') : s' = s := by
  unfold publishScheduled at h
  dsimp only at h
  rw [KvCacheManager.hasGroups, hgroups] at h
  exact cacheCompletedBlocks_off hoff h

/-- The result of one record moves no page. -/
theorem applyOutput_samePages (hoff : s.config.enablePrefixCache = false)
    (hgroups : s.kvCacheManager.groupPools = []) (h : s.applyOutput sr tokens = .ok res) :
    SamePages s res.1 := by
  have append : ∀ t : Scheduler, SamePages t (t.applyTokens sr.requestId tokens).1 := fun t =>
    .of_modify t sr.requestId fun q => holding_appendTokens q tokens
  unfold Scheduler.applyOutput at h
  split at h
  · unfold reconcileAsyncOutput at h
    obtain ⟨s₁, hpub, h⟩ := bind_eq_ok.mp h
    obtain ⟨s₂, hrel, h⟩ := bind_eq_ok.mp h
    cases h
    cases publishScheduled_off hoff hgroups hpub
    refine ((releaseScheduledGroupBlocks_samePages hrel).trans (append s₂)).trans ?_
    exact .of_modify _ sr.requestId fun q => holding_settle q _ _
  · unfold applySyncOutput at h
    dsimp only at h
    have computed : SamePages s (s.modify sr.requestId fun request =>
        { request with numComputedTokens := request.numComputedTokens + sr.numNewTokens }) :=
      .of_modify s sr.requestId fun _ => rfl
    split at h
    · obtain ⟨s₁, hpub, h⟩ := bind_eq_ok.mp h
      cases cacheCompletedBlocks_off (computed.config.symm ▸ hoff) hpub
      split at h
      · cases h
        exact computed
      · cases h
        exact computed.trans (append _)
    · obtain ⟨s₁, hpub, h⟩ := bind_eq_ok.mp h
      cases h
      have retained : SamePages s _ := (append s).trans
        (.of_modify (s.applyTokens sr.requestId tokens).1 sr.requestId
          (f := fun request => { request with numComputedTokens := request.numComputedTokens +
            (s.applyTokens sr.requestId tokens).2.2 }) fun _ => rfl)
      cases cacheCompletedBlocks_off (retained.config.symm ▸ hoff) hpub
      exact retained

theorem applyScheduled_samePages {tokens : StepTokens} {outs : List RequestOutput}
    (hoff : s.config.enablePrefixCache = false) (hgroups : s.kvCacheManager.groupPools = [])
    (h : applyScheduled tokens (s, outs) sr = .ok res) : SamePages s res.1 := by
  unfold Scheduler.applyScheduled at h
  dsimp only at h
  split at h
  · obtain ⟨s₁, hrel, h⟩ := bind_eq_ok.mp h
    cases h
    exact releaseScheduledGroupBlocks_samePages hrel
  · obtain ⟨⟨s₁, new⟩, happ, h⟩ := bind_eq_ok.mp h
    cases h
    have hclear : SamePages s (s.clearTerminalPrefill sr) := by
      unfold clearTerminalPrefill
      dsimp only
      split
      · exact .of_modify s sr.requestId fun _ => rfl
      · exact .refl s
    have happlied := applyOutput_samePages (hclear.config.symm ▸ hoff) (hclear.groups hgroups) happ
    exact hclear.trans happlied

end Results

/-- Marking finished requests: they are running ones, and nothing but a status changes. -/
theorem finishRunning_marks (l : List RequestId)
    (acc : Scheduler × List RequestOutput × List RequestId) :
    SamePages acc.1 (l.foldl finishRunning acc).1 ∧
      (l.foldl finishRunning acc).1.running = acc.1.running ∧
      (l.foldl finishRunning acc).1.requests = acc.1.requests ∧
      ∀ r ∈ (l.foldl finishRunning acc).2.2, r ∈ acc.2.2 ∨ r ∈ l := by
  induction l generalizing acc with
  | nil => exact ⟨.refl _, rfl, rfl, fun r hr => .inl hr⟩
  | cons x l ih =>
    have hone : SamePages acc.1 (finishRunning acc x).1 ∧
        (finishRunning acc x).1.running = acc.1.running ∧
        (finishRunning acc x).1.requests = acc.1.requests ∧
        ∀ r ∈ (finishRunning acc x).2.2, r ∈ acc.2.2 ∨ r = x := by
      unfold finishRunning
      dsimp only
      split
      · exact ⟨.refl _, rfl, rfl, fun r hr => .inl hr⟩
      · split
        · exact ⟨.refl _, rfl, rfl, fun r hr => .inl hr⟩
        · refine ⟨?_, rfl, rfl, fun r hr => ?_⟩
          · dsimp only
            apply SamePages.of_modify
            exact fun _ => rfl
          · rcases List.mem_append.mp hr with hr | hr
            · exact .inl hr
            · exact .inr (List.mem_singleton.mp hr)
    obtain ⟨hsame, hrun, hreq, hids⟩ := ih (finishRunning acc x)
    refine ⟨hone.1.trans hsame, hrun.trans hone.2.1, hreq.trans hone.2.2.1, fun r hr => ?_⟩
    rcases hids r hr with hr | hr
    · rcases hone.2.2.2 r hr with hr | rfl
      · exact .inl hr
      · exact .inr List.mem_cons_self
    · exact .inr (List.mem_cons_of_mem _ hr)

/-- Only running requests list pages, and no page twice. -/
structure Owned (s : Scheduler) (ids : List RequestId) : Prop where
  pages : Unshared s ids
  held : HeldByRunning s ids

/-- Requests may have left; the tables of those that still run are as they were. -/
structure Sheds (ids : List RequestId) (s s' : Scheduler) : Prop where
  owned : Owned s' ids
  size : s'.kvCacheManager.blockSize = s.kvCacheManager.blockSize
  running : s'.running ⊆ s.running
  requests : s'.requests ⊆ s.requests
  table : ∀ r ∈ s'.running, (s'.object r).heldBlocks = (s.object r).heldBlocks

namespace Sheds

theorem of_same (h : Owned s ids) (hs : SamePages s s') (hrun : s'.running = s.running)
    (hreq : s'.requests = s.requests) : Sheds ids s s' := by
  refine ⟨⟨h.pages.congr hs, fun x hx hnot => ?_⟩, hs.blocks.kv.blockSize, ?_, ?_,
    fun x _ => hs.blocks.held x⟩
  · rw [hs.blocks.held]
    rw [hrun] at hnot
    exact h.held x hx hnot
  · rw [hrun]
    exact List.Subset.refl _
  · rw [hreq]
    exact List.Subset.refl _

theorem refl (h : Owned s ids) : Sheds ids s s := .of_same h (.refl s) rfl rfl

theorem trans (h : Sheds ids s s') (h' : Sheds ids s' s'') : Sheds ids s s'' :=
  ⟨h'.owned, h'.size.trans h.size, fun _ hx => h.running (h'.running hx),
    fun _ hx => h.requests (h'.requests hx),
    fun x hx => (h'.table x hx).trans (h.table x (h'.running hx))⟩

/-- A request leaves the running queue after its pages were freed. -/
theorem freed (h : Owned s ids) (hr : r ∈ ids) (hf : s.freeRequestBlocks r = .ok t)
    (hs : SamePages t s') (hrun : s'.running = s.running.filter (· ≠ r))
    (hreq : s'.requests ⊆ s.requests) : Sheds ids s s' := by
  obtain ⟨hpages, hbook⟩ := h.pages.free hr hf
  have hother : ∀ x, x ≠ r → (s'.object x).heldBlocks = (s.object x).heldBlocks :=
    fun x hx => (hs.blocks.held x).trans (hbook.books.other x hx)
  refine ⟨⟨hpages.congr hs, fun x hx hnot => ?_⟩, hs.blocks.kv.blockSize.trans hbook.dims.blockSize,
    ?_, hreq, fun x hx => ?_⟩
  · by_cases hxr : x = r
    · rw [hs.blocks.held, hxr]
      exact hbook.books.self
    · rw [hother x hxr]
      refine h.held x hx fun hmem => hnot ?_
      rw [hrun, List.mem_filter]
      exact ⟨hmem, decide_eq_true hxr⟩
  · rw [hrun]
    exact List.filter_subset_self _
  · rw [hrun, List.mem_filter] at hx
    exact hother x (of_decide_eq_true hx.2)

theorem retire (h : Owned s ids) (hr : r ∈ s.requests) (hi : r ∈ ids)
    (hret : retire s r = .ok s') : Sheds ids s s' := by
  unfold Scheduler.retire at hret
  rw [if_pos hr] at hret
  obtain ⟨t, hf, hret⟩ := bind_eq_ok.mp hret
  cases hret
  have hcore := freeRequestBlocks_sameCore hf
  refine .freed h hi hf ⟨⟨fun _ => rfl, .refl _⟩, id, rfl⟩ ?_ ?_
  · exact congrArg (List.filter _) hcore.running
  · rw [show t.requests = s.requests from hcore.requests]
    exact List.Subset.refl _

theorem abort (h : Owned s ids) (hids : ∀ r ∈ s.requests, r ∈ ids)
    (ha : s.abortRequest r = .ok s') : Sheds ids s s' := by
  unfold abortRequest at ha
  split at ha
  · cases ha
    exact .refl h
  · next hr =>
    obtain ⟨t, hf, ha⟩ := bind_eq_ok.mp ha
    cases ha
    have hmark : Sheds ids s (s.modify r fun request =>
        { request with status := .finishedAborted }) :=
      .of_same h (.of_modify s r fun _ => rfl) rfl rfl
    have hcore := freeRequestBlocks_sameCore hf
    refine hmark.trans (.freed hmark.owned (hids r (not_not.mp hr)) hf
      ⟨⟨fun _ => rfl, .refl _⟩, id, rfl⟩ ?_ ?_)
    · exact congrArg (List.filter _) hcore.running
    · rw [show t.requests = s.requests from hcore.requests]
      exact List.filter_subset_self _

theorem finish {status : RequestStatus} (h : Owned s ids) (hids : ∀ r ∈ s.requests, r ∈ ids)
    (ha : s.finishRequest r status = .ok s') : Sheds ids s s' := by
  unfold finishRequest at ha
  split at ha
  · cases ha
    exact .refl h
  · next hr =>
    obtain ⟨t, hf, ha⟩ := bind_eq_ok.mp ha
    cases ha
    have hmark : Sheds ids s (s.modify r fun request => { request with status }) :=
      .of_same h (.of_modify s r fun _ => rfl) rfl rfl
    have hcore := freeRequestBlocks_sameCore hf
    refine hmark.trans (.freed hmark.owned (hids r (not_not.mp hr)) hf
      ⟨⟨fun _ => rfl, .refl _⟩, id, rfl⟩ ?_ ?_)
    · exact congrArg (List.filter _) hcore.running
    · rw [show t.requests = s.requests from hcore.requests]
      exact List.Subset.refl _

/-- Applying the result of a step and retiring what has finished. -/
theorem update {tokens : StepTokens} {outs : List RequestOutput} (h : Owned s ids)
    (ht : s.Tracked) (hids : ∀ r ∈ s.requests, r ∈ ids)
    (hnd : (output.scheduledRequests.map (·.requestId)).Nodup)
    (hu : s.updateFromOutput output tokens = .ok (s', outs)) : Sheds ids s s' := by
  unfold updateFromOutput at hu
  obtain ⟨⟨mid, outs₁⟩, hfold, hu⟩ := bind_eq_ok.mp hu
  obtain ⟨s₂, hret, hu⟩ := bind_eq_ok.mp hu
  cases hu
  obtain ⟨ha, -⟩ := applyScheduled_fold _ hnd hfold
  have hmid : SamePages s mid := by
    refine foldlM_keeps (I := fun acc : Scheduler × List RequestOutput => SamePages s acc.1)
      ?_ _ _ _ hfold (.refl s)
    rintro sr ⟨t, l⟩ acc hone hI
    exact hI.trans (applyScheduled_samePages (hI.config.symm ▸ h.pages.prefixCache)
      (hI.groups h.pages.groups) hone)
  obtain ⟨hmarks, hrun, hreq, hfin⟩ := finishRunning_marks mid.running (mid, outs₁, [])
  generalize mid.running.foldl finishRunning (mid, outs₁, []) = acc at *
  have hstart : Sheds ids s acc.1 := .of_same h (hmid.trans hmarks) (hrun.trans ha.running)
    (hreq.trans ha.requests)
  have hfinished : ∀ x ∈ acc.2.2, x ∈ s.requests := by
    intro x hx
    have hrunning := (hfin x hx).resolve_left List.not_mem_nil
    rw [ha.running] at hrunning
    exact ht x (.inl hrunning)
  have hend := foldlM_keeps_mem (I := fun t : Scheduler => Sheds ids s t ∧ t.requests = s.requests)
    acc.2.2 (fun x hx t t' hone ⟨hI, hreq⟩ => ⟨hI.trans (.retire hI.owned
      (by rw [hreq]; exact hfinished x hx) (hids x (hfinished x hx)) hone),
      (retire_spec hone).requests.trans hreq⟩) _ _ hret ⟨hstart, hreq.trans ha.requests⟩
  exact hend.1

/-- Dropping the steps in flight. -/
theorem drop {batches : List SchedulerOutput} (h : Owned s ids) (hids : ∀ r ∈ s.requests, r ∈ ids)
    (hd : Pipeline.dropBatches s batches = .ok s') : Sheds ids s s' := by
  unfold Pipeline.dropBatches at hd
  obtain ⟨⟨s₁, seen⟩, hfold, hd⟩ := bind_eq_ok.mp hd
  cases hd
  refine foldlM_keeps (I := fun acc : Scheduler × List RequestId => Sheds ids s acc.1)
    ?_ _ _ _ hfold (.refl h)
  rintro sr ⟨t, seen⟩ acc hone hI
  unfold Pipeline.dropScheduled at hone
  obtain ⟨t₁, hrel, hone⟩ := bind_eq_ok.mp hone
  have hcore := releaseScheduledGroupBlocks_sameCore hrel
  have hreleased : Sheds ids s t₁ := hI.trans
    (.of_same hI.owned (releaseScheduledGroupBlocks_samePages hrel) hcore.running hcore.requests)
  split at hone
  · cases hone
    exact hreleased
  · obtain ⟨t₂, habort, hone⟩ := bind_eq_ok.mp hone
    cases hone
    exact hreleased.trans
      (.abort hreleased.owned (fun x hx => hids x (hreleased.requests hx)) habort)

end Sheds

/-- A new request lists nothing. -/
theorem Owned.add {request stored : Request} (h : Owned s ids) (hfresh : request.Fresh)
    (hstored : Accepted s request stored) (hid : request.requestId ∉ ids) :
    Owned { s with
      object := Function.update s.object request.requestId stored
      waiting := s.waiting ++ [request.requestId]
      requests := s.requests ++ [request.requestId] } (request.requestId :: ids) := by
  have hself : (Function.update s.object request.requestId stored request.requestId).heldBlocks =
      [] := by
    rw [Function.update_self, hstored.eq, hfresh.defaults]
    rfl
  have hother : ∀ x ∈ ids, Function.update s.object request.requestId stored x = s.object x := by
    intro x hx
    apply Function.update_of_ne
    rintro rfl
    exact hid hx
  have hcount : ∀ b, Scheduler.holders { s with
      object := Function.update s.object request.requestId stored
      waiting := s.waiting ++ [request.requestId]
      requests := s.requests ++ [request.requestId] } (request.requestId :: ids) b =
      s.holders ids b := by
    intro b
    unfold Scheduler.holders
    rw [List.countP_cons]
    simp only [hself, List.not_mem_nil, decide_false, Bool.false_eq_true, if_false, Nat.add_zero]
    exact List.countP_congr fun x hx => by simp only [hother x hx]
  obtain ⟨free, hfree⟩ := h.pages.pool
  refine ⟨⟨List.nodup_cons.mpr ⟨hid, h.pages.ids_nodup⟩, h.pages.groups, h.pages.prefixCache,
    h.pages.pageSize, ⟨free, GenericBalanced.recount hfree hcount⟩, ?_, ?_, fun b => ?_⟩, ?_⟩
  · intro x hx
    dsimp only
    rcases List.mem_cons.mp hx with rfl | hx
    · rw [hself]
      exact List.nodup_nil
    · rw [hother x hx]
      exact h.pages.nodup x hx
  · intro x hx
    dsimp only
    rcases List.mem_cons.mp hx with rfl | hx
    · rw [hself]
      exact fun b hb => absurd hb List.not_mem_nil
    · rw [hother x hx]
      exact h.pages.bound x hx
  · rw [hcount]
    exact h.pages.single b
  · intro x hx hnot
    dsimp only
    rcases List.mem_cons.mp hx with rfl | hx
    · exact hself
    · rw [hother x hx]
      exact h.held x hx hnot

/-- The table of a record in flight is a front part of the present table of its request, and
covers the positions that the record computes, those of its drafts included. -/
structure Sent (s : Scheduler) (sr : ScheduledRequest) : Prop where
  table : sr.blockIds <+: (s.object sr.requestId).heldBlocks
  covered : sr.numComputedTokens + (sr.numNewTokens + s.speculativeTokensFor sr) ≤
    sr.blockIds.length * s.kvCacheManager.blockSize

theorem Sent.grow (h : Sent s sr)
    (htable : (s.object sr.requestId).heldBlocks <+: (s'.object sr.requestId).heldBlocks)
    (hsize : s'.kvCacheManager.blockSize = s.kvCacheManager.blockSize)
    (hdrafts : s'.speculativeTokensFor sr = s.speculativeTokensFor sr) : Sent s' sr := by
  refine ⟨h.table.trans htable, ?_⟩
  rw [hsize, hdrafts]
  exact h.covered

namespace Pipeline
variable {p p' : Pipeline}

structure Paged (p : Pipeline) : Prop where
  owned : Owned p.sched p.issued
  sent : ∀ out ∈ p.inFlight, ∀ sr ∈ out.scheduledRequests, sr.requestId ∈ p.sched.running →
    Sent p.sched sr

/-- A record asks for the drafts that it asked for. -/
def KeepsDrafts (p p' : Pipeline) : Prop :=
  ∀ sr : ScheduledRequest, sr.requestId ∈ p.issued →
    p'.sched.speculativeTokensFor sr = p.sched.speculativeTokensFor sr

theorem step_keepsDrafts {op : PipelineOp} (hwf : p.WellFormed) (hstep : p.Step op p') :
    p.KeepsDrafts p' := by
  intro sr hsr
  have htemp : (p'.sched.object sr.requestId).temperature =
      (p.sched.object sr.requestId).temperature :=
    (congrArg Request.temperature (step_task hwf hstep hsr) :)
  rw [speculativeTokensFor, speculativeTokensFor, step_config hwf hstep, htemp]

/-- The tables of the requests that keep running only grow. -/
def Grows (p p' : Pipeline) : Prop :=
  ∀ r ∈ p.sched.running, r ∈ p'.sched.running →
    (p.sched.object r).heldBlocks <+: (p'.sched.object r).heldBlocks

namespace Paged

/-- The pool is initialised with every page free. -/
theorem start (h : p.Started) (hgroups : p.sched.kvCacheManager.groupPools = [])
    (hcache : p.sched.config.enablePrefixCache = false) : p.Paged := by
  obtain ⟨H, groups, maxBatchSize, pageSize, numBlocks, kv, config, object, hpage, hkv, hnew⟩ :=
    h.sched
  have hs : p.sched.kvCacheManager = kv := by
    unfold Scheduler.new at hnew
    split at hnew
    · cases hnew
    · rw [← Except.ok.inj hnew]
  have hpool : (∃ free, GenericBalanced kv free fun _ => 0) ∧ 0 < kv.blockSize := by
    unfold KvCacheManager.initializePools at hkv
    split at hkv
    · cases hkv
    · split at hkv
      · have hgen := initGroups_sameGeneric hkv
        have hnone : ∀ b, ¬ b < kv.numBlocks := fun b hb => by
          rw [hgen.numBlocks] at hb
          cases hb
        refine ⟨⟨[], ?_, by simp, fun b hb => absurd hb (hnone b), fun b hb => absurd hb (hnone b),
          fun x b hx => ?_⟩, ?_⟩
        · rw [hgen.freeQueue]
          exact FreeKVCacheBlockQueue.spells_empty _
        · rw [hgen.hashToBlock] at hx
          cases hx
        · rw [hgen.blockSize]
          exact hpage
      · refine ⟨⟨_, (GenericBalanced.initBlocks rfl rfl rfl hkv).1⟩, ?_⟩
        unfold KvCacheManager.initBlocks at hkv
        rw [if_neg (by simp)] at hkv
        cases hkv
        exact hpage
  obtain ⟨⟨free, hfree⟩, hsize⟩ := hpool
  refine ⟨⟨⟨?_, hgroups, hcache, ?_, ⟨free, ?_⟩, ?_, ?_, ?_⟩, ?_⟩, ?_⟩
  · rw [h.issued]
    exact List.nodup_nil
  · rwa [hs]
  · rw [hs, h.issued]
    exact hfree.recount fun _ => rfl
  · simp [h.issued]
  · simp [h.issued]
  · simp [h.issued, Scheduler.holders]
  · simp [h.issued, HeldByRunning]
  · simp [h.inFlight]

/-- Requests leave, and steps in flight are applied or dropped. -/
theorem sheds (h : p.Paged) (hwf : p.WellFormed) (hkeeps : p.KeepsDrafts p')
    (hs : Sheds p.issued p.sched p'.sched) (hissued : p'.issued = p.issued)
    (hflight : ∀ out ∈ p'.inFlight, out ∈ p.inFlight) : p'.Paged ∧ p.Grows p' := by
  refine ⟨⟨by rw [hissued]; exact hs.owned, fun out hout sr hsr hrun => ?_⟩, fun x _ hrun => ?_⟩
  · have hsent := h.sent out (hflight out hout) sr hsr (hs.running hrun)
    refine hsent.grow ?_ hs.size (hkeeps sr ?_)
    · rw [hs.table _ hrun]
    · exact hwf.recorded out (hflight out hout) _ (List.mem_map_of_mem hsr)
  · rw [hs.table x hrun]

/-- A pass, with the records that are sent. -/
theorem passed {pass : Pass} {s : Scheduler} (new : List SchedulerOutput) (h : p.Paged)
    (hwf : p.WellFormed) (hkeeps : p.KeepsDrafts p') (hready : p.Ready)
    (hsched : p.sched.schedule = .ok pass) (hs : SamePages pass.sched s) (hrun : s.running = pass.sched.running)
    (hnew : ∀ out ∈ new, ∀ sr' ∈ out.scheduledRequests,
      ∃ sr ∈ pass.output.scheduledRequests, SentAs sr sr')
    (hsame : p'.sched = s) (hissued : p'.issued = p.issued)
    (hflight : ∀ out ∈ p'.inFlight, out ∈ p.inFlight ∨ out ∈ new) :
    p'.Paged ∧ p.Grows p' := by
  obtain ⟨admitted, rejected, ha⟩ := hwf.afterPass hready hsched
  have hp := PagedPass.schedule h.owned.pages h.owned.held hwf.queues
    (fun x hx => hwf.issued x (hwf.tracked x hx)) hsched
  have hsize : s.kvCacheManager.blockSize = p.sched.kvCacheManager.blockSize :=
    hs.blocks.kv.blockSize.trans hp.size
  have hgrows : p.Grows p' := by
    intro x hx hx'
    rw [hsame, hrun] at hx'
    rw [hsame, hs.blocks.held]
    exact hp.grown x hx hx'
  refine ⟨⟨?_, fun out hout sr hsr hrunning => ?_⟩, hgrows⟩
  · rw [hissued, hsame]
    refine ⟨hp.pages.congr hs, fun x hx hnot => ?_⟩
    rw [hs.blocks.held]
    rw [hrun] at hnot
    exact hp.held x hx hnot
  · rcases hflight out hout with hold | hfresh
    · -- A request with a step in flight was not waiting, so it was running before the pass.
      have hbefore : sr.requestId ∈ p.sched.running := by
        rw [hsame, hrun] at hrunning
        rcases ha.summary.mem_running.mp hrunning with ⟨hr, -⟩ | hadm
        · exact hr
        · exact absurd (ha.summary.admitted_waiting _ hadm)
            (ha.settled out hold _ (List.mem_map_of_mem hsr))
      exact (h.sent out hold sr hsr hbefore).grow (hgrows _ hbefore hrunning) (hsame ▸ hsize)
        (hkeeps sr (hwf.recorded out hold _ (List.mem_map_of_mem hsr)))
    · obtain ⟨sr₀, hsr₀, hid, htable, hshare⟩ := hnew out hfresh sr hsr
      obtain ⟨hruns, hheld, hcover⟩ := hp.records sr₀ hsr₀
      have hcomputed : sr.numComputedTokens = sr₀.numComputedTokens :=
        congrArg StepShare.numComputedTokens hshare
      have hcount : sr.numNewTokens = sr₀.numNewTokens := congrArg StepShare.numNewTokens hshare
      have hdrafts : p'.sched.speculativeTokensFor sr = p.sched.speculativeTokensFor sr₀ := by
        refine (hkeeps sr ?_).trans ?_
        · rw [hid]
          refine hwf.issued _ (hwf.tracked _ ?_)
          rcases ha.summary.mem_running.mp hruns with ⟨hr, -⟩ | hadm
          · exact .inl hr
          · exact .inr (ha.summary.admitted_waiting _ hadm)
        · rw [speculativeTokensFor, speculativeTokensFor, hid,
            show sr.isPrefill = sr₀.isPrefill from congrArg StepShare.isPrefill hshare]
      refine ⟨?_, ?_⟩
      · rw [hsame, hs.blocks.held, htable, hid, hheld]
      · rw [hdrafts, hsame, hcomputed, hcount, htable, hsize]
        exact hcover

theorem step {op : PipelineOp} (h : p.Paged) (hwf : p.WellFormed) (hstep : p.Step op p') :
    p'.Paged ∧ p.Grows p' := by
  have hkeeps := step_keepsDrafts hwf hstep
  cases hstep with
  | @add request s hfresh hid hadd =>
    obtain ⟨stored, hstored, rfl⟩ := addRequest_spec hadd
    have hne : ∀ x ∈ p.issued, x ≠ request.requestId := fun x hx he => hid (he ▸ hx)
    have hold : ∀ x ∈ p.issued,
        Function.update p.sched.object request.requestId stored x = p.sched.object x :=
      fun x hx => Function.update_of_ne (hne x hx) _ _
    refine ⟨⟨h.owned.add hfresh hstored hid, fun out hout sr hsr hrun => ?_⟩, fun x hx _ => ?_⟩
    · have hissued := hwf.recorded out hout _ (List.mem_map_of_mem hsr)
      refine (h.sent out hout sr hsr hrun).grow ?_ rfl (hkeeps sr hissued)
      dsimp only
      rw [hold _ hissued]
    · dsimp only
      rw [hold x (hwf.issued x (hwf.tracked x (.inl hx)))]
  | @dispatch pass s output hready hsched hne hadv =>
    obtain ⟨admitted, rejected, ha⟩ := hwf.afterPass hready hsched
    obtain ⟨hs, hrecords⟩ := advanceAfterSchedule_samePages hadv
    refine h.passed [output] hwf hkeeps hready hsched hs (ha.advances hwf.queues hadv).running ?_ rfl rfl
      ?_
    · intro out hout
      rw [List.mem_singleton.mp hout]
      exact hrecords
    · exact fun out hout => List.mem_append.mp hout
  | idle hready hsched hempty =>
    exact h.passed [] hwf hkeeps hready hsched (.refl _) rfl
      (fun out hout => absurd hout List.not_mem_nil) rfl rfl fun out hout => .inl hout
  | complete hfl hupd =>
    refine h.sheds hwf hkeeps (.update h.owned hwf.tracked hwf.issued ?_ hupd) rfl fun out hout => ?_
    · exact hwf.nodup _ (by rw [hfl]; exact List.mem_cons_self)
    · rw [hfl]
      exact List.mem_cons_of_mem _ hout
  | finish hrun hfin => exact h.sheds hwf hkeeps (.finish h.owned hwf.issued hfin) rfl fun out hout => hout
  | abort habort => exact h.sheds hwf hkeeps (.abort h.owned hwf.issued habort) rfl fun out hout => hout
  | discard hne hdrop =>
    exact h.sheds hwf hkeeps (.drop h.owned hwf.issued hdrop) rfl fun out hout => absurd hout List.not_mem_nil

end Paged

/-- Pages stay owned over a run. -/
theorem paged_of_run {p₀ : Pipeline} {ops : List PipelineOp} (hstart : p₀.Started)
    (hgroups : p₀.sched.kvCacheManager.groupPools = [])
    (hcache : p₀.sched.config.enablePrefixCache = false) (hrun : pipelineMachine.Run p₀ ops p) :
    p.Paged ∧ p.WellFormed := by
  have hreach : pipelineMachine.Reachable p₀ := .start hstart
  induction hrun with
  | nil => exact ⟨.start hstart hgroups hcache, wellFormed_of_reachable hreach⟩
  | snoc hrun hstep ih =>
    obtain ⟨hp, hwf⟩ := ih
    exact ⟨(hp.step hwf hstep).1, wellFormed_of_reachable ((hreach.run hrun).next hstep)⟩

/-- A computed run is a run. -/
theorem execAll_run {ops : List PipelineOp} (hfresh : ∀ q, PipelineOp.add q ∈ ops → q.Fresh)
    (h : p.execAll ops = some p') : pipelineMachine.Run p ops p' := by
  induction ops generalizing p with
  | nil =>
    cases h
    exact .nil _
  | cons op ops ih =>
    rw [execAll, List.foldlM_cons] at h
    obtain ⟨p₁, hone, h⟩ := Option.bind_eq_some_iff.mp h
    have hstep : pipelineMachine.step p op p₁ := exec_step (fun q hq => hfresh q (by simp [hq])) hone
    exact (Machine.Run.single hstep).append (ih (fun q hq => hfresh q (by simp [hq])) h)

end Pipeline

end PyptoServing.Sched
