import PyptoServing.Sched.BlockLedger
import PyptoServing.Sched.WellFormed

/-!
# Conservation of the generic blocks

The scheduler under any interleaving of its operations, free of the engine loop: in every
reachable state each block is referenced once by each request that lists it, the others are
free, and only running requests list blocks.
-/
namespace PyptoServing.Sched

open Lib Lib.Fallible Memory Scheduler
open KvCacheManager (GenericBalanced SameGeneric)

variable {s s' : Scheduler} {ids : List RequestId} {r : RequestId} {sr : ScheduledRequest}
  {output output' : SchedulerOutput}

theorem sameBlocks_modify (s : Scheduler) (r : RequestId) {f : Request → Request}
    (hf : ∀ q, (f q).holding = q.holding) : SameBlocks s (s.modify r f) :=
  .of_modify s s.kvCacheManager (.refl _) r hf

theorem retainScheduled_sameBlocks {res : Scheduler × ScheduledRequest}
    (h : s.retainScheduled sr = .ok res) : SameBlocks s res.1 := by
  unfold retainScheduled at h
  split at h
  · cases h
    exact .refl _
  · split at h
    · cases h
    · obtain ⟨kv, hkv, h⟩ := bind_eq_ok.mp h
      cases h
      exact ⟨fun _ => rfl, retainGroupBlockSnapshot_sameGeneric hkv⟩

/-- The optimistic advance moves no generic block. -/
theorem advanceAfterSchedule_sameBlocks (h : s.advanceAfterSchedule output = .ok (s', output')) :
    SameBlocks s s' := by
  unfold advanceAfterSchedule at h
  split at h
  · cases h
    exact .refl _
  · obtain ⟨⟨t, records⟩, hfold, h⟩ := bind_eq_ok.mp h
    cases h
    refine foldlM_keeps (I := fun acc : Scheduler × List ScheduledRequest => SameBlocks s acc.1)
      ?_ _ _ _ hfold (.refl s)
    rintro sr ⟨t, l⟩ acc hone hI
    obtain ⟨⟨t₁, sr'⟩, hret, hone⟩ := bind_eq_ok.mp hone
    cases hone
    refine (hI.trans (retainScheduled_sameBlocks hret)).trans ?_
    dsimp only [advanceRequest]
    apply sameBlocks_modify
    exact fun _ => rfl

theorem releaseScheduledGroupBlocks_sameBlocks
    (h : s.releaseScheduledGroupBlocks sr = .ok s') : SameBlocks s s' := by
  unfold releaseScheduledGroupBlocks at h
  split at h
  · cases h
    exact .refl _
  · split at h
    · cases h
    · obtain ⟨kv, hkv, h⟩ := bind_eq_ok.mp h
      cases h
      exact ⟨fun _ => rfl, releaseGroupBlockSnapshot_sameGeneric hkv⟩

/-- The ledger is kept and no block list changes. -/
structure KeepsLedger (ids : List RequestId) (s s' : Scheduler) : Prop where
  ledger : BlockLedger s' ids
  held : ∀ r, (s'.object r).heldBlocks = (s.object r).heldBlocks

theorem KeepsLedger.of_same (h : BlockLedger s ids) (hs : SameBlocks s s') : KeepsLedger ids s s' :=
  ⟨h.congr hs, hs.held⟩

theorem KeepsLedger.trans {s'' : Scheduler} (h : KeepsLedger ids s s')
    (h' : KeepsLedger ids s' s'') : KeepsLedger ids s s'' :=
  ⟨h'.ledger, fun r => (h'.held r).trans (h.held r)⟩

theorem holding_appendTokens (q : Request) (tokens : List Int) :
    (appendTokens q tokens).1.holding = q.holding := by
  rw [appendTokens_fst]
  rfl

theorem holding_settle (q : Request) (reserved retained : Nat) :
    (settle q reserved retained).holding = q.holding := by
  unfold settle
  split <;> rfl

/-- Publishing confirmed blocks. -/
theorem KeepsLedger.cacheCompleted {n : Nat} (h : BlockLedger s ids) (hr : r ∈ ids)
    (hc : s.cacheCompletedBlocks r n = .ok s') : KeepsLedger ids s s' := by
  unfold cacheCompletedBlocks at hc
  split at hc
  · cases hc
    exact .of_same h (.refl _)
  · split at hc
    · have hgen := cacheGroupBlocks_sameGeneric s.kvCacheManager r (s.object r).groupBlockHashes n
        (s.object r).numGroupBlocksCached
      dsimp only at hc
      split at hc
      · next counts kv hkv =>
        cases hc
        rw [hkv] at hgen
        refine .of_same h ?_
        exact .of_modify s kv hgen r fun _ => rfl
      · cases hc
    · cases hc
      unfold cacheGenericBlocks
      dsimp only
      split
      · exact .of_same h (.refl _)
      · obtain ⟨free, hfree⟩ := h.pool
        obtain ⟨hpool, hdims⟩ := hfree.cacheBlockIds (h.bound r hr) (s.object r).blockHashes
          (s.object r).numBlocksCached
          (min (n / s.kvCacheManager.blockSize) (s.object r).blockHashes.length)
        have hheld : ∀ x, (({ s with
            kvCacheManager := s.kvCacheManager.cacheBlockIds
              ((s.object r).cachedBlockIds ++ (s.object r).allocatedBlockIds)
              (s.object r).blockHashes (s.object r).numBlocksCached
              (min (n / s.kvCacheManager.blockSize) (s.object r).blockHashes.length) }.modify r
            fun request => { request with
              numBlocksCached := min (n / s.kvCacheManager.blockSize)
                (s.object r).blockHashes.length }).object x).heldBlocks =
            (s.object x).heldBlocks := by
          intro x
          rw [modify_object]
          split
          · next hx =>
            subst hx
            rfl
          · rfl
        exact ⟨h.rebook ⟨hheld r, fun x _ => hheld x⟩ hdims.numBlocks hdims.blockSize hdims.pyHash
          (modify_promptTokenIds _ r fun _ => rfl) (h.nodup r hr) (h.bound r hr)
          ⟨free, hpool.recount (holders_congr hheld)⟩, hheld⟩

theorem KeepsLedger.publish (h : BlockLedger s ids) (hr : sr.requestId ∈ ids)
    (hc : s.publishScheduled sr = .ok s') : KeepsLedger ids s s' := by
  unfold publishScheduled at hc
  dsimp only at hc
  split at hc
  · split at hc
    · cases hc
    · next partition _ =>
      have hgen := cacheGroupBlocksFromSnapshot_sameGeneric s.kvCacheManager
        (s.object sr.requestId).groupBlockHashes (sr.numComputedTokens + sr.numNewTokens)
        (s.object sr.requestId).numGroupBlocksCached sr.blockIdsByGroup partition
      split at hc
      · next counts kv hkv =>
        cases hc
        rw [hkv] at hgen
        refine .of_same h ?_
        exact .of_modify s kv hgen sr.requestId fun _ => rfl
      · cases hc
  · exact .cacheCompleted h hr hc

/-- Applying the result of one record. -/
theorem KeepsLedger.applyOutput {tokens : List Int} {res : Scheduler × List RequestOutput}
    (h : BlockLedger s ids) (hr : sr.requestId ∈ ids) (ha : s.applyOutput sr tokens = .ok res) :
    KeepsLedger ids s res.1 := by
  have append : ∀ t : Scheduler, SameBlocks t (t.applyTokens sr.requestId tokens).1 := fun t =>
    sameBlocks_modify t sr.requestId fun q => holding_appendTokens q tokens
  unfold Scheduler.applyOutput at ha
  split at ha
  · unfold reconcileAsyncOutput at ha
    obtain ⟨s₁, hpub, ha⟩ := bind_eq_ok.mp ha
    obtain ⟨s₂, hrel, ha⟩ := bind_eq_ok.mp ha
    cases ha
    have h₁ := KeepsLedger.publish h hr hpub
    have h₂ := h₁.trans (.of_same h₁.ledger (releaseScheduledGroupBlocks_sameBlocks hrel))
    refine h₂.trans (.of_same h₂.ledger ((append s₂).trans ?_))
    exact sameBlocks_modify _ sr.requestId fun q => holding_settle q _ _
  · unfold applySyncOutput at ha
    dsimp only at ha
    split at ha
    · obtain ⟨s₁, hpub, ha⟩ := bind_eq_ok.mp ha
      have h₀ : KeepsLedger ids s (s.modify sr.requestId fun request =>
          { request with numComputedTokens := request.numComputedTokens + sr.numNewTokens }) :=
        .of_same h (sameBlocks_modify s sr.requestId fun _ => rfl)
      have h₁ := h₀.trans (.cacheCompleted h₀.ledger hr hpub)
      split at ha
      · cases ha
        exact h₁
      · cases ha
        exact h₁.trans (.of_same h₁.ledger (append s₁))
    · obtain ⟨s₁, hpub, ha⟩ := bind_eq_ok.mp ha
      cases ha
      have h₀ : KeepsLedger ids s _ := .of_same h ((append s).trans
        (sameBlocks_modify (s.applyTokens sr.requestId tokens).1 sr.requestId
          (f := fun request => { request with numComputedTokens := request.numComputedTokens +
            (s.applyTokens sr.requestId tokens).2.2 }) fun _ => rfl))
      exact h₀.trans (.cacheCompleted h₀.ledger hr hpub)

theorem KeepsLedger.applyScheduled {tokens : StepTokens} {outs : List RequestOutput}
    {res : Scheduler × List RequestOutput} (h : BlockLedger s ids) (hr : sr.requestId ∈ ids)
    (ha : applyScheduled tokens (s, outs) sr = .ok res) : KeepsLedger ids s res.1 := by
  unfold Scheduler.applyScheduled at ha
  dsimp only at ha
  split at ha
  · obtain ⟨s₁, hrel, ha⟩ := bind_eq_ok.mp ha
    cases ha
    exact .of_same h (releaseScheduledGroupBlocks_sameBlocks hrel)
  · obtain ⟨⟨s₁, new⟩, happ, ha⟩ := bind_eq_ok.mp ha
    cases ha
    have hclear : SameBlocks s (s.clearTerminalPrefill sr) := by
      unfold clearTerminalPrefill
      dsimp only
      split
      · exact sameBlocks_modify s sr.requestId fun _ => rfl
      · exact .refl s
    have h₁ : KeepsLedger ids s (s.clearTerminalPrefill sr) := .of_same h hclear
    have h₂ := KeepsLedger.applyOutput h₁.ledger hr happ
    exact h₁.trans h₂

/-- Marking finished requests moves no block. -/
theorem finishRunning_sameBlocks (l : List RequestId)
    (acc : Scheduler × List RequestOutput × List RequestId) :
    SameBlocks acc.1 (l.foldl finishRunning acc).1 := by
  induction l generalizing acc with
  | nil => exact .refl _
  | cons r l ih =>
    refine SameBlocks.trans ?_ (ih (finishRunning acc r))
    unfold finishRunning
    dsimp only
    split
    · exact .refl _
    · split
      · exact .refl _
      · dsimp only
        apply sameBlocks_modify
        exact fun _ => rfl

/-- Nobody but running requests of the table lists blocks. -/
structure Settled (s : Scheduler) (ids : List RequestId) : Prop where
  ledger : BlockLedger s ids
  held : HeldByRunning s ids

/-- Taking a request out of the running queue after its blocks were freed. -/
theorem Settled.freed {t : Scheduler} (h : Settled s ids) (hr : r ∈ ids)
    (hf : s.freeRequestBlocks r = .ok t) (hs : SameBlocks t s')
    (hrun : s'.running = s.running.filter (· ≠ r)) : Settled s' ids := by
  obtain ⟨hledger, hbook⟩ := h.ledger.free hr hf
  refine ⟨hledger.congr hs, fun x hx hnot => ?_⟩
  rw [hs.held]
  by_cases hxr : x = r
  · rw [hxr]
    exact hbook.self
  · rw [hbook.other x hxr]
    refine h.held x hx fun hmem => hnot ?_
    rw [hrun, List.mem_filter]
    exact ⟨hmem, by simpa using hxr⟩

theorem Settled.modify {f : Request → Request} (h : Settled s ids)
    (hf : ∀ q, (f q).holding = q.holding) : Settled (s.modify r f) ids := by
  have hs := sameBlocks_modify s r hf
  refine ⟨h.ledger.congr hs, fun x hx hnot => ?_⟩
  rw [hs.held]
  exact h.held x hx hnot

theorem Settled.retire (h : Settled s ids) (hr : r ∈ s.requests) (hi : r ∈ ids)
    (hret : retire s r = .ok s') : Settled s' ids := by
  unfold Scheduler.retire at hret
  rw [if_pos hr] at hret
  obtain ⟨t, hf, hret⟩ := bind_eq_ok.mp hret
  cases hret
  refine h.freed hi hf ⟨fun _ => rfl, .refl _⟩ ?_
  exact congrArg (List.filter _) (freeRequestBlocks_sameCore hf).running

theorem Settled.abort (h : Settled s ids) (hids : ∀ r ∈ s.requests, r ∈ ids)
    (ha : s.abortRequest r = .ok s') : Settled s' ids := by
  unfold abortRequest at ha
  split at ha
  · cases ha
    exact h
  · next hr =>
    obtain ⟨t, hf, ha⟩ := bind_eq_ok.mp ha
    cases ha
    have h₁ : Settled (s.modify r fun request => { request with status := .finishedAborted }) ids :=
      h.modify fun _ => rfl
    refine h₁.freed (hids r (not_not.mp hr)) hf ⟨fun _ => rfl, .refl _⟩ ?_
    exact congrArg (List.filter _) (freeRequestBlocks_sameCore hf).running

theorem Settled.finish {status : RequestStatus} (h : Settled s ids)
    (hids : ∀ r ∈ s.requests, r ∈ ids) (ha : s.finishRequest r status = .ok s') :
    Settled s' ids := by
  unfold finishRequest at ha
  split at ha
  · cases ha
    exact h
  · next hr =>
    obtain ⟨t, hf, ha⟩ := bind_eq_ok.mp ha
    cases ha
    have h₁ : Settled (s.modify r fun request => { request with status }) ids :=
      h.modify fun _ => rfl
    refine h₁.freed (hids r (not_not.mp hr)) hf ⟨fun _ => rfl, .refl _⟩ ?_
    exact congrArg (List.filter _) (freeRequestBlocks_sameCore hf).running

/-- Applying the result of a step and retiring what has finished. -/
theorem Settled.update {tokens : StepTokens} {outs : List RequestOutput} (h : Settled s ids)
    (hq : Queues s) (ht : s.Tracked) (hids : ∀ r ∈ s.requests, r ∈ ids)
    (hnd : (output.scheduledRequests.map (·.requestId)).Nodup)
    (hrec : ∀ sr ∈ output.scheduledRequests, sr.requestId ∈ ids)
    (hu : s.updateFromOutput output tokens = .ok (s', outs)) : Settled s' ids := by
  unfold updateFromOutput at hu
  obtain ⟨⟨mid, outs₁⟩, hfold, hu⟩ := bind_eq_ok.mp hu
  obtain ⟨s₂, hret, hu⟩ := bind_eq_ok.mp hu
  cases hu
  have hmid : KeepsLedger ids s mid := by
    refine foldlM_keeps_mem (I := fun acc : Scheduler × List RequestOutput =>
      KeepsLedger ids s acc.1) _ ?_ _ _ hfold (.of_same h.ledger (.refl s))
    intro sr hsr acc acc' hone hI
    exact hI.trans (.applyScheduled hI.ledger (hrec sr hsr) hone)
  obtain ⟨ha, -⟩ := applyScheduled_fold _ hnd hfold
  dsimp only at ha
  have hstatus : ∀ x ∈ mid.running, (mid.object x).status.isFinished = false := by
    intro x hx
    rw [ha.running] at hx
    have hs := hq.running_status x hx
    by_cases hxr : x ∈ output.scheduledRequests.map (·.requestId)
    · obtain ⟨sr, hsr, rfl⟩ := List.mem_map.mp hxr
      rw [(ha.applied sr hsr (by rw [hs]; decide)).status, applied_status, hs]
      rfl
    · rw [(ha.other x hxr).status, hs]
      rfl
  obtain ⟨-, -, hrun, hreq, -, -, hfin⟩ := finishRunning_fold mid.running
    (by rw [ha.running]; exact hq.running_nodup) (mid, outs₁, []) hstatus
  have hsame := finishRunning_sameBlocks mid.running (mid, outs₁, [])
  generalize mid.running.foldl finishRunning (mid, outs₁, []) = acc at *
  dsimp only at hrun hreq hfin hsame
  have hstart : Settled acc.1 ids ∧ acc.1.requests = s.requests := by
    refine ⟨⟨hmid.ledger.congr hsame, fun x hx hnot => ?_⟩, hreq.trans ha.requests⟩
    rw [hsame.held, hmid.held]
    rw [hrun, ha.running] at hnot
    exact h.held x hx hnot
  have hfinished : ∀ x ∈ acc.2.2, x ∈ s.requests := by
    intro x hx
    rw [hfin, List.nil_append] at hx
    have hx' := (List.mem_filter.mp hx).1
    rw [ha.running] at hx'
    exact ht x (.inl hx')
  have hend := foldlM_keeps_mem (I := fun t : Scheduler => Settled t ids ∧ t.requests = s.requests)
    acc.2.2 (fun x hx t t' hone ⟨hI, hreq⟩ => ⟨hI.retire (by rw [hreq]; exact hfinished x hx)
      (hids x (hfinished x hx)) hone, (retire_spec hone).requests.trans hreq⟩) _ _ hret hstart
  exact hend.1

/-- A new request lists nothing. -/
theorem Settled.add {request stored : Request} (h : Settled s ids) (hfresh : request.Fresh)
    (hsep : s.Separates request) (hstored : Accepted s request stored)
    (hid : request.requestId ∉ ids) :
    Settled { s with
      object := Function.update s.object request.requestId stored
      waiting := s.waiting ++ [request.requestId]
      requests := s.requests ++ [request.requestId] } (request.requestId :: ids) := by
  have hnil : stored.heldBlocks = [] := by
    rw [hstored.eq, hfresh.defaults]
    rfl
  have hself : Function.update s.object request.requestId stored request.requestId = stored :=
    Function.update_self _ _ _
  have hother : ∀ x ∈ ids, Function.update s.object request.requestId stored x = s.object x := by
    intro x hx
    apply Function.update_of_ne
    rintro rfl
    exact hid hx
  obtain ⟨free, hfree⟩ := h.ledger.pool
  refine ⟨⟨List.nodup_cons.mpr ⟨hid, h.ledger.ids_nodup⟩, ?_, ⟨free, ?_⟩, ?_, ?_⟩, ?_⟩
  · intro x hx
    show s.Separates (Function.update s.object request.requestId stored x)
    rcases List.mem_cons.mp hx with rfl | hx
    · rw [hself, hstored.eq]
      exact hsep
    · rw [hother x hx]
      exact h.ledger.hash x hx
  · refine GenericBalanced.recount hfree fun b => ?_
    unfold Scheduler.holders
    rw [List.countP_cons]
    simp only [hself, hnil, List.not_mem_nil, decide_false, Bool.false_eq_true, if_false,
      Nat.add_zero]
    exact List.countP_congr fun x hx => by simp only [hother x hx]
  · intro x hx
    dsimp only
    rcases List.mem_cons.mp hx with rfl | hx
    · rw [hself, hnil]
      exact List.nodup_nil
    · rw [hother x hx]
      exact h.ledger.nodup x hx
  · intro x hx
    dsimp only
    rcases List.mem_cons.mp hx with rfl | hx
    · rw [hself, hnil]
      simp
    · rw [hother x hx]
      exact h.ledger.bound x hx
  · intro x hx hnot
    dsimp only
    rcases List.mem_cons.mp hx with rfl | hx
    · rw [hself, hnil]
    · rw [hother x hx]
      exact h.held x hx hnot

/-- A scheduler with the steps it scheduled so far, whose results may be applied in any
order, and the ids used so far. -/
structure Interleaving where
  sched : Scheduler
  outputs : List SchedulerOutput := []
  issued : List RequestId := []

inductive SchedulerOp
  | add (request : Request)
  | schedule
  | update (output : SchedulerOutput) (newTokenIds : StepTokens)
  | abort (requestId : RequestId)
  | finish (requestId : RequestId) (status : RequestStatus)

inductive Interleaving.Step (t : Interleaving) : SchedulerOp → Interleaving → Prop
  | add {request : Request} {s : Scheduler} : request.Fresh → request.requestId ∉ t.issued →
      t.sched.addRequest request = .ok s →
      Step t (.add request) { t with sched := s, issued := request.requestId :: t.issued }
  | schedule {pass : Pass} {s : Scheduler} {output : SchedulerOutput} :
      t.sched.schedule = .ok pass → pass.sched.advanceAfterSchedule pass.output = .ok (s, output) →
      Step t .schedule { t with sched := s, outputs := t.outputs ++ [output] }
  | update {output : SchedulerOutput} {tokens : StepTokens} {s : Scheduler}
      {outs : List RequestOutput} : output ∈ t.outputs →
      t.sched.updateFromOutput output tokens = .ok (s, outs) →
      Step t (.update output tokens) { t with sched := s }
  | abort {r : RequestId} {s : Scheduler} : t.sched.abortRequest r = .ok s →
      Step t (.abort r) { t with sched := s }
  | finish {r : RequestId} {status : RequestStatus} {s : Scheduler} : r ∈ t.sched.running →
      status.isFinished = true → t.sched.finishRequest r status = .ok s →
      Step t (.finish r status) { t with sched := s }

/-- Every interleaving of the scheduler's operations, under the block hash `H`. -/
def schedulerMachine (H : PyHash) : Machine Interleaving SchedulerOp where
  init t := (∃ p : Pipeline, p.Started ∧ t.sched = p.sched) ∧
    t.sched.kvCacheManager.pyHash = H ∧ t.outputs = [] ∧ t.issued = []
  step := Interleaving.Step

/-- Whether no two blocks of the prompt that an operation adds have the same hash. -/
def Interleaving.Separates (t : Interleaving) : SchedulerOp → Prop
  | .add request => t.sched.Separates request
  | _ => True

/-- The interleavings in which no two blocks of one prompt have the same hash. -/
def separatedMachine (H : PyHash) : Machine Interleaving SchedulerOp :=
  (schedulerMachine H).restrict fun t op _ => t.Separates op

/-- What every interleaving keeps. -/
structure Interleaving.Inv (t : Interleaving) : Prop where
  queues : Queues t.sched
  tracked : t.sched.Tracked
  issued : ∀ r ∈ t.sched.requests, r ∈ t.issued
  nodup : ∀ out ∈ t.outputs, (out.scheduledRequests.map (·.requestId)).Nodup
  recorded : ∀ out ∈ t.outputs, ∀ sr ∈ out.scheduledRequests, sr.requestId ∈ t.issued ∧
    (sr.requestId ∈ t.sched.waiting → (t.sched.object sr.requestId).status = .preempted)
  settled : Settled t.sched t.issued

namespace Interleaving.Inv
variable {t t' : Interleaving}

/-- The pools are initialised with every block free. -/
theorem start {H : PyHash} (h : (schedulerMachine H).init t) : t.Inv := by
  obtain ⟨⟨p, hp, hsched⟩, -, houts, hissued⟩ := h
  have hwf := Pipeline.WellFormed.start hp
  obtain ⟨H', groups, maxBatchSize, pageSize, numBlocks, kv, config, object, -, hkv, hnew⟩ := hp.sched
  have hs : p.sched.kvCacheManager = kv := by
    unfold Scheduler.new at hnew
    split at hnew
    · cases hnew
    · rw [← Except.ok.inj hnew]
  have hbalanced : ∃ free, GenericBalanced kv free fun _ => 0 := by
    unfold KvCacheManager.initializePools at hkv
    split at hkv
    · cases hkv
    · split at hkv
      · have hgen := initGroups_sameGeneric hkv
        have hnone : ∀ b, ¬ b < kv.numBlocks := fun b hb => by
          rw [hgen.numBlocks] at hb
          cases hb
        refine ⟨[], ?_, by simp, fun b hb => absurd hb (hnone b), fun b hb => absurd hb (hnone b),
          fun x b hx => ?_⟩
        · rw [hgen.freeQueue]
          exact FreeKVCacheBlockQueue.spells_empty _
        · rw [hgen.hashToBlock] at hx
          cases hx
      · exact ⟨_, (GenericBalanced.initBlocks rfl rfl rfl hkv).1⟩
  refine ⟨by rw [hsched]; exact hwf.queues, by rw [hsched]; exact hwf.tracked, ?_, ?_, ?_, ?_⟩
  · intro r hr
    rw [hsched] at hr
    have := hwf.issued r hr
    rw [hp.issued] at this
    cases this
  · simp [houts]
  · simp [houts]
  · rw [hissued, hsched]
    obtain ⟨free, hfree⟩ := hbalanced
    refine ⟨⟨List.nodup_nil, by simp, ⟨free, ?_⟩, by simp, by simp⟩, by simp [HeldByRunning]⟩
    rw [hs]
    exact hfree.recount fun _ => rfl

theorem add {request : Request} {s : Scheduler} (h : t.Inv) (hfresh : request.Fresh)
    (hsep : t.sched.Separates request) (hid : request.requestId ∉ t.issued) (hadd : t.sched.addRequest request = .ok s) :
    Inv { t with sched := s, issued := request.requestId :: t.issued } := by
  obtain ⟨stored, hstored, rfl⟩ := addRequest_spec hadd
  have hnot : request.requestId ∉ t.sched.requests := fun hr => hid (h.issued _ hr)
  refine ⟨h.queues.add hstored hfresh (fun hr => hnot (h.tracked _ (.inl hr)))
    fun hr => hnot (h.tracked _ (.inr hr)), ?_, ?_, h.nodup, ?_, h.settled.add hfresh hsep hstored hid⟩
  · intro x hx
    dsimp only at hx ⊢
    rw [List.mem_append, List.mem_singleton] at hx ⊢
    rcases hx with hx | hx | hx
    · exact .inl (h.tracked x (.inl hx))
    · exact .inl (h.tracked x (.inr hx))
    · exact .inr hx
  · intro x hx
    rcases List.mem_append.mp hx with hx | hx
    · exact List.mem_cons_of_mem _ (h.issued x hx)
    · rw [List.mem_singleton.mp hx]
      exact List.mem_cons_self
  · intro out hout sr hsr
    obtain ⟨hi, hw⟩ := h.recorded out hout sr hsr
    have hne : sr.requestId ≠ request.requestId := fun he => hid (he ▸ hi)
    refine ⟨List.mem_cons_of_mem _ hi, fun hx => ?_⟩
    dsimp only at hx ⊢
    rw [Function.update_of_ne hne]
    rw [List.mem_append, List.mem_singleton] at hx
    exact hw (hx.resolve_right hne)

theorem schedule {pass : Pass} {s : Scheduler} {output : SchedulerOutput} (h : t.Inv)
    (hsched : t.sched.schedule = .ok pass)
    (hadv : pass.sched.advanceAfterSchedule pass.output = .ok (s, output)) :
    Inv { t with sched := s, outputs := t.outputs ++ [output] } := by
  obtain ⟨admitted, rejected, hsum, hperm⟩ := schedule_summary h.queues hsched
  have hq := hsum.queues h.queues hperm
  have ht : pass.sched.Tracked := hsum.tracked h.queues h.tracked hperm
  obtain ⟨-, hwaiting⟩ := hsum.mem_waiting h.queues hperm
  have ha := advances_of_summary hsum h.queues hadv
  have hidle : ∀ x ∈ pass.sched.waiting, x ∉ pass.output.scheduledRequests.map (·.requestId) := by
    intro x hx hrec
    obtain ⟨sr, hsr, rfl⟩ := List.mem_map.mp hrec
    exact hq.disjoint _ (hsum.scheduled hsr) hx
  have hsettled := h.settled.ledger.schedule h.settled.held h.queues
    (fun x hx => h.issued x (h.tracked x hx)) hsched
  have hsame := advanceAfterSchedule_sameBlocks hadv
  refine ⟨?_, ?_, ?_, ?_, ?_, ⟨hsettled.1.congr hsame, fun x hx hnot => ?_⟩⟩
  · exact ha.queues hq hidle
  · intro x hx
    dsimp only at hx ⊢
    rw [ha.running, ha.waiting] at hx
    rw [ha.requests]
    exact ht x hx
  · intro x hx
    dsimp only at hx ⊢
    rw [ha.requests, hsum.requests] at hx
    exact h.issued x (List.mem_filter.mp hx).1
  · intro out hout
    rcases List.mem_append.mp hout with hout | hout
    · exact h.nodup out hout
    · rw [List.mem_singleton.mp hout, ha.ids]
      exact hsum.records_nodup
  · intro out hout sr hsr
    dsimp only
    rcases List.mem_append.mp hout with hout | hout
    · obtain ⟨hi, hw⟩ := h.recorded out hout sr hsr
      refine ⟨hi, fun hx => ?_⟩
      rw [ha.waiting] at hx
      rw [(ha.keeps _).1]
      rcases hsum.waiting_object ((hwaiting _).mp hx) with ⟨-, hobj⟩ | ⟨hsw, hobj⟩
      · exact hobj.status
      · rw [hobj.status]
        exact hw hsw
    · rw [List.mem_singleton.mp hout] at hsr
      obtain ⟨sr', hsr', hid, -⟩ := ha.origin hsr
      rw [hid]
      refine ⟨?_, fun hx => ?_⟩
      · have hmem := ht _ (.inl (hsum.scheduled hsr'))
        rw [hsum.requests] at hmem
        exact h.issued _ (List.mem_filter.mp hmem).1
      · rw [ha.waiting] at hx
        exact absurd hx (hq.disjoint _ (hsum.scheduled hsr'))
  · rw [hsame.held]
    dsimp only at hnot
    rw [ha.running] at hnot
    exact hsettled.2 x hx hnot

/-- Requests leave by an abort or by a finish. -/
theorem ends {s : Scheduler} {status : RequestStatus} {r : RequestId} (h : t.Inv)
    (he : Ends t.sched r status s) (hw : s.waiting = t.sched.waiting.filter (· ≠ r))
    (hreq : s.requests ⊆ t.sched.requests)
    (hkeep : ∀ x ∈ t.sched.requests, x ≠ r → x ∈ s.requests) (hs : Settled s t.issued) :
    Inv { t with sched := s } := by
  have hrun : ∀ x ∈ s.running, x ∈ t.sched.running ∧ x ≠ r := by
    intro x hx
    rw [he.running] at hx
    simpa using hx
  have hwait : ∀ x ∈ s.waiting, x ∈ t.sched.waiting ∧ x ≠ r := by
    intro x hx
    rw [hw] at hx
    simpa using hx
  refine ⟨?_, ?_, fun x hx => h.issued x (hreq hx), h.nodup, fun out hout sr hsr => ?_, hs⟩
  · refine h.queues.shrink (by rw [he.running]; exact List.filter_sublist)
      (by rw [hw]; exact List.filter_sublist) (fun x hx => ?_)
      fun x hx => he.other x (hwait x hx).2
    obtain ⟨hx, hxr⟩ := hrun x hx
    have hsame := he.other x hxr
    exact ⟨hsame.status.trans (h.queues.running_status x hx),
      by rw [hsame.numPromptTokens]; exact h.queues.prompt_pos x (.inl hx)⟩
  · intro x hx
    rcases hx with hx | hx
    · exact hkeep x (h.tracked x (.inl (hrun x hx).1)) (hrun x hx).2
    · exact hkeep x (h.tracked x (.inr (hwait x hx).1)) (hwait x hx).2
  · obtain ⟨hi, hst⟩ := h.recorded out hout sr hsr
    refine ⟨hi, fun hx => ?_⟩
    obtain ⟨hx, hxr⟩ := hwait _ hx
    exact (he.other _ hxr).status.trans (hst hx)

theorem update {output : SchedulerOutput} {tokens : StepTokens} {s : Scheduler}
    {outs : List RequestOutput} (h : t.Inv) (hout : output ∈ t.outputs)
    (hupd : t.sched.updateFromOutput output tokens = .ok (s, outs)) :
    Inv { t with sched := s } := by
  obtain ⟨mid, hu, -⟩ := updateFromOutput_spec (h.nodup output hout) h.queues.running_nodup
    h.queues.running_status hupd
  have hstatus : ∀ x ∈ t.sched.running, (mid.object x).status = .running ∧
      (mid.object x).numPromptTokens = (t.sched.object x).numPromptTokens := by
    intro x hx
    have hrunning := h.queues.running_status x hx
    by_cases hrec : x ∈ output.scheduledRequests.map (·.requestId)
    · obtain ⟨sr, hsr, rfl⟩ := List.mem_map.mp hrec
      have hs := hu.applies.applied sr hsr (by rw [hrunning]; decide)
      rw [hs.status, applied_status, hs.numPromptTokens, Request.numPromptTokens,
        Pipeline.applied_promptTokenIds]
      exact ⟨hrunning, rfl⟩
    · have hs := hu.applies.other x hrec
      exact ⟨hs.status.trans hrunning, hs.numPromptTokens⟩
  have hidle : ∀ x ∈ t.sched.waiting, SameRequest (t.sched.object x) (s.object x) := by
    intro x hx
    have hnr : x ∉ t.sched.running := fun hr => h.queues.disjoint x hr hx
    refine SameRequest.trans ?_ (hu.other x hnr)
    by_cases hrec : x ∈ output.scheduledRequests.map (·.requestId)
    · obtain ⟨sr, hsr, rfl⟩ := List.mem_map.mp hrec
      exact hu.applies.dropped sr hsr (.inr ((h.recorded output hout sr hsr).2 hx))
    · exact hu.applies.other x hrec
  have hrun : ∀ x ∈ s.running, x ∈ t.sched.running ∧ checkFinish (mid.object x) = none := by
    intro x hx
    rw [hu.running] at hx
    simpa using hx
  refine ⟨?_, ?_, ?_, h.nodup, ?_, ?_⟩
  · refine h.queues.shrink (by rw [hu.running]; exact List.filter_sublist) (by rw [hu.waiting])
      (fun x hx => ?_) fun x hx => hidle x (by rwa [← hu.waiting])
    obtain ⟨hx, hc⟩ := hrun x hx
    have hs := hu.unfinished x hx hc
    refine ⟨hs.status.trans (hstatus x hx).1, ?_⟩
    dsimp only
    rw [hs.numPromptTokens, (hstatus x hx).2]
    exact h.queues.prompt_pos x (.inl hx)
  · intro x hx
    dsimp only at hx ⊢
    rw [hu.requests]
    rcases hx with hx | hx
    · exact h.tracked x (.inl (hrun x hx).1)
    · exact h.tracked x (.inr (hu.waiting ▸ hx))
  · intro x hx
    dsimp only at hx
    rw [hu.requests] at hx
    exact h.issued x hx
  · intro out ho sr hsr
    obtain ⟨hi, hst⟩ := h.recorded out ho sr hsr
    refine ⟨hi, fun hx => ?_⟩
    replace hx : sr.requestId ∈ t.sched.waiting := by rwa [← hu.waiting]
    rw [(hidle _ hx).status]
    exact hst hx
  · exact h.settled.update h.queues h.tracked h.issued (h.nodup output hout)
      (fun sr hsr => (h.recorded output hout sr hsr).1) hupd

theorem step {op : SchedulerOp} (h : t.Inv) (hsep : t.Separates op) (hstep : t.Step op t') :
    t'.Inv := by
  cases hstep with
  | add hfresh hid hadd => exact h.add hfresh hsep hid hadd
  | schedule hsched hadv => exact h.schedule hsched hadv
  | update hout hupd => exact h.update hout hupd
  | abort habort =>
    have hs := h.settled.abort h.issued habort
    rcases abortRequest_spec habort with ⟨-, rfl⟩ | ⟨-, he, hw, hreq⟩
    · exact h
    · refine h.ends he hw (by rw [hreq]; exact List.filter_subset_self _) (fun x hx hxr => ?_) hs
      rw [hreq]
      simpa using ⟨hx, hxr⟩
  | @finish r status s hrun _ hfin =>
    have hs := h.settled.finish h.issued hfin
    rcases finishRequest_spec hfin with ⟨-, rfl⟩ | ⟨-, he, hw, hreq⟩
    · exact h
    · refine h.ends he ?_ (by rw [hreq]; exact List.Subset.refl _) (fun x hx _ => by rwa [hreq]) hs
      rw [hw, List.filter_eq_self.mpr]
      intro x hx
      simpa using fun hxr : x = r => h.queues.disjoint r hrun (hxr ▸ hx)

end Interleaving.Inv

/-- The generic pool and the block lists of the requests `ids` agree. -/
structure BlocksConserved (s : Scheduler) (ids : List RequestId) : Prop where
  /-- One reference for each request that lists the block. -/
  refCnt : ∀ b < s.kvCacheManager.numBlocks, (s.kvCacheManager.blocks b).refCnt = s.holders ids b
  /-- The free queue links exactly the unreferenced blocks, each of them once. -/
  free : ∃ free : List BlockId, free.Nodup ∧
    s.kvCacheManager.freeQueue.Spells s.kvCacheManager.blocks free ∧
    ∀ b, b ∈ free ↔ b < s.kvCacheManager.numBlocks ∧ (s.kvCacheManager.blocks b).refCnt = 0
  listed : ∀ r ∈ ids, (s.object r).heldBlocks.Nodup ∧
    ∀ b ∈ (s.object r).heldBlocks, b < s.kvCacheManager.numBlocks
  waiting : ∀ r ∈ s.waiting,
    (s.object r).cachedBlockIds = [] ∧ (s.object r).allocatedBlockIds = []
  idle : s.running = [] → ∀ b < s.kvCacheManager.numBlocks,
    (s.kvCacheManager.blocks b).refCnt = 0

/-- In every state that the scheduler's operations reach in any order, references, free queue
and block lists agree. -/
theorem generic_pool_conservation {H : PyHash} {t : Interleaving}
    (ht : (separatedMachine H).Reachable t) : BlocksConserved t.sched t.issued := by
  have hinv : t.Inv :=
    ht.invariant (fun _ h => .start h) fun _ _ _ _ h hstep => h.step hstep.2 hstep.1
  obtain ⟨free, hfree⟩ := hinv.settled.ledger.pool
  refine ⟨hfree.refCnt, ⟨free, hfree.free_nodup, hfree.spells, fun b => ⟨fun hb => ?_, ?_⟩⟩,
    fun r hr => ⟨hinv.settled.ledger.nodup r hr, hinv.settled.ledger.bound r hr⟩,
    fun r hr => ?_, fun hnil b hb => ?_⟩
  · have hlt := hfree.free_lt b hb
    exact ⟨hlt, by rw [hfree.refCnt b hlt, (hfree.mem_free b hlt).mp hb]⟩
  · rintro ⟨hlt, hz⟩
    exact (hfree.mem_free b hlt).mpr (by rw [← hfree.refCnt b hlt, hz])
  · have hi := hinv.issued r (hinv.tracked r (.inr hr))
    have hheld := hinv.settled.held r hi fun hrun => hinv.queues.disjoint r hrun hr
    exact List.append_eq_nil_iff.mp hheld
  · rw [hfree.refCnt b hb]
    unfold Scheduler.holders
    rw [List.countP_eq_zero]
    intro r hr
    rw [hinv.settled.held r hr (by simp [hnil])]
    simp

/-- One step of a request of three tokens in blocks of two. -/
def pagedConfig : SchedulerConfig :=
  { SchedulerConfig.defaults with asyncScheduling := true }

theorem generic_pool_conservation_scheduled : ∃ t,
    (separatedMachine KvCacheManager.encodingHash).Reachable t ∧
      (t.sched.object "a").heldBlocks = [0, 1] ∧ BlocksConserved t.sched t.issued := by
  have hrun : ((Pipeline.boot KvCacheManager.encodingHash [] 2 2 4 pagedConfig).bind fun p =>
      (p.sched.addRequest (plainRequest "a" [1, 2, 3] 4 0)).toOption.bind fun s =>
      s.schedule.toOption.bind fun pass =>
      (pass.sched.advanceAfterSchedule pass.output).toOption.map fun advanced =>
        decide ((advanced.1.object "a").heldBlocks = [0, 1])) = some true := by
    decide
  obtain ⟨p, hboot, hrun⟩ := Option.bind_eq_some_iff.mp hrun
  obtain ⟨s, hadd, hrun⟩ := Option.bind_eq_some_iff.mp hrun
  obtain ⟨pass, hsched, hrun⟩ := Option.bind_eq_some_iff.mp hrun
  obtain ⟨⟨s', output⟩, hadv, hrun⟩ := Option.map_eq_some_iff.mp hrun
  have hhash : p.sched.kvCacheManager.pyHash = KvCacheManager.encodingHash := by
    have hsome := congrArg (Option.map fun p : Pipeline => p.sched.kvCacheManager.pyHash) hboot
    exact Option.some.inj (hsome.symm.trans rfl)
  have hp := Pipeline.boot_started (by decide) hboot
  have h₀ : (separatedMachine KvCacheManager.encodingHash).Reachable ⟨p.sched, [], []⟩ :=
    .start ⟨⟨p, hp, rfl⟩, hhash, rfl, rfl⟩
  have hstep₁ : Interleaving.Step ⟨p.sched, [], []⟩ (.add (plainRequest "a" [1, 2, 3] 4 0))
      ⟨s, [], ["a"]⟩ :=
    .add (plainRequest_fresh (by decide)) (by simp) (Pipeline.toOption_eq_some hadd)
  have hstep₂ : Interleaving.Step ⟨s, [], ["a"]⟩ .schedule ⟨s', [] ++ [output], ["a"]⟩ :=
    .schedule (Pipeline.toOption_eq_some hsched) (Pipeline.toOption_eq_some hadv)
  have hsep : p.sched.Separates (plainRequest "a" [1, 2, 3] 4 0) := by
    rw [Separates, hhash]
    exact KvCacheManager.encodingHash_collisionFree.nodup_iterTokenBlockHashes _ _
  have h₁ : (separatedMachine KvCacheManager.encodingHash).Reachable ⟨s, [], ["a"]⟩ :=
    h₀.next (a := .add (plainRequest "a" [1, 2, 3] 4 0)) ⟨hstep₁, hsep⟩
  have h₂ : (separatedMachine KvCacheManager.encodingHash).Reachable ⟨s', [] ++ [output], ["a"]⟩ :=
    h₁.next (a := .schedule) ⟨hstep₂, trivial⟩
  exact ⟨_, h₂, of_decide_eq_true hrun, generic_pool_conservation h₂⟩

end PyptoServing.Sched
