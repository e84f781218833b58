import PyptoServing.Lib.Fallible
import PyptoServing.Sched.Scheduler

/-!
# What one scheduling pass can do

Cache operations change the cache and the requests' cache bookkeeping only, which
`SameCore` states. The two phases are reduced to a few elementary changes, each with the
facts that held when the code made it; a property that every elementary change keeps is
kept by `schedule`.
-/
namespace PyptoServing.Sched

open Lib Lib.Fallible Memory

namespace Scheduler

@[simp] theorem modify_object_self (s : Scheduler) (r : RequestId) (f : Request → Request) :
    (s.modify r f).object r = f (s.object r) := by
  simp [modify]

@[simp] theorem modify_object_ne (s : Scheduler) {r r' : RequestId} (f : Request → Request)
    (h : r' ≠ r) : (s.modify r f).object r' = s.object r' := by
  simp [modify, h]

theorem modify_object (s : Scheduler) (r r' : RequestId) (f : Request → Request) :
    (s.modify r f).object r' = if r' = r then f (s.object r) else s.object r' := by
  by_cases h : r' = r <;> simp [h]

@[simp] theorem modify_config (s : Scheduler) (r : RequestId) (f : Request → Request) :
    (s.modify r f).config = s.config := rfl

@[simp] theorem modify_running (s : Scheduler) (r : RequestId) (f : Request → Request) :
    (s.modify r f).running = s.running := rfl

@[simp] theorem modify_waiting (s : Scheduler) (r : RequestId) (f : Request → Request) :
    (s.modify r f).waiting = s.waiting := rfl

@[simp] theorem modify_requests (s : Scheduler) (r : RequestId) (f : Request → Request) :
    (s.modify r f).requests = s.requests := rfl

@[simp] theorem modify_kvCacheManager (s : Scheduler) (r : RequestId) (f : Request → Request) :
    (s.modify r f).kvCacheManager = s.kvCacheManager := rfl

end Scheduler

/-- A request without its cache bookkeeping. -/
def Request.core (request : Request) : Request :=
  { request with
    cachedBlockIds := []
    allocatedBlockIds := []
    allocatedGroupBlockIds := ∅
    cachePartition := none
    numBlocksCached := 0
    numGroupBlocksCached := ∅ }

/-- Requests with the same core agree on everything else. -/
structure SameRequest (q q' : Request) : Prop where
  core : q'.core = q.core

namespace SameRequest
variable {q q' q'' : Request}

theorem refl (q : Request) : SameRequest q q := ⟨rfl⟩

theorem trans (h : SameRequest q q') (h' : SameRequest q' q'') : SameRequest q q'' :=
  ⟨h'.core.trans h.core⟩

theorem requestId (h : SameRequest q q') : q'.requestId = q.requestId :=
  (congrArg Request.requestId h.core :)

theorem promptTokenIds (h : SameRequest q q') : q'.promptTokenIds = q.promptTokenIds :=
  (congrArg Request.promptTokenIds h.core :)

theorem maxNewTokens (h : SameRequest q q') : q'.maxNewTokens = q.maxNewTokens :=
  (congrArg Request.maxNewTokens h.core :)

theorem arrivalTime (h : SameRequest q q') : q'.arrivalTime = q.arrivalTime :=
  (congrArg Request.arrivalTime h.core :)

theorem status (h : SameRequest q q') : q'.status = q.status := (congrArg Request.status h.core :)

theorem numComputedTokens (h : SameRequest q q') : q'.numComputedTokens = q.numComputedTokens :=
  (congrArg Request.numComputedTokens h.core :)

theorem outputTokenIds (h : SameRequest q q') : q'.outputTokenIds = q.outputTokenIds :=
  (congrArg Request.outputTokenIds h.core :)

theorem temperature (h : SameRequest q q') : q'.temperature = q.temperature :=
  (congrArg Request.temperature h.core :)

theorem eosTokenId (h : SameRequest q q') : q'.eosTokenId = q.eosTokenId :=
  (congrArg Request.eosTokenId h.core :)

theorem allTokenIds (h : SameRequest q q') : q'.allTokenIds = q.allTokenIds := by
  rw [Request.allTokenIds, Request.allTokenIds, h.promptTokenIds, h.outputTokenIds]

theorem numOutputPlaceholders (h : SameRequest q q') :
    q'.numOutputPlaceholders = q.numOutputPlaceholders :=
  (congrArg Request.numOutputPlaceholders h.core :)

theorem terminalPrefillInFlight (h : SameRequest q q') :
    q'.terminalPrefillInFlight = q.terminalPrefillInFlight :=
  (congrArg Request.terminalPrefillInFlight h.core :)

theorem numPromptTokens (h : SameRequest q q') : q'.numPromptTokens = q.numPromptTokens :=
  congrArg List.length h.promptTokenIds

theorem isPrefill (h : SameRequest q q') : q'.isPrefill = q.isPrefill := by
  rw [Request.isPrefill, Request.isPrefill, h.numComputedTokens, h.numPromptTokens]

theorem numNewTokensNeeded (h : SameRequest q q') :
    q'.numNewTokensNeeded = q.numNewTokensNeeded := by
  rw [Request.numNewTokensNeeded, Request.numNewTokensNeeded, Request.numTokens, Request.numTokens,
    h.numPromptTokens, h.outputTokenIds, h.numOutputPlaceholders, h.numComputedTokens]

end SameRequest

/-- Two schedulers that differ in the cache and the cache bookkeeping only. -/
structure SameCore (s s' : Scheduler) : Prop where
  config : s'.config = s.config
  object : ∀ r, SameRequest (s.object r) (s'.object r)
  waiting : s'.waiting = s.waiting
  running : s'.running = s.running
  requests : s'.requests = s.requests
  phase : s'.nextGroupedCachePhase = s.nextGroupedCachePhase

namespace SameCore
variable {s s' s'' : Scheduler}

theorem refl (s : Scheduler) : SameCore s s := ⟨rfl, fun _ => .refl _, rfl, rfl, rfl, rfl⟩

theorem trans (h : SameCore s s') (h' : SameCore s' s'') : SameCore s s'' :=
  ⟨h'.config.trans h.config, fun r => (h.object r).trans (h'.object r),
    h'.waiting.trans h.waiting, h'.running.trans h.running, h'.requests.trans h.requests,
    h'.phase.trans h.phase⟩

/-- The cache changed, and the cache bookkeeping of one request. -/
theorem of_modify (s : Scheduler) (kv : KvCacheManager) (r : RequestId) (f : Request → Request)
    (hf : ∀ q, SameRequest q (f q)) :
    SameCore s ({ s with kvCacheManager := kv }.modify r f) := by
  refine ⟨rfl, fun r' => ?_, rfl, rfl, rfl, rfl⟩
  rw [Scheduler.modify_object]
  split
  · next hr =>
    subst hr
    exact hf _
  · exact .refl _

/-- The cache changed, and one request in two ways that share their core. -/
theorem of_modify_both (s : Scheduler) (kv : KvCacheManager) (r : RequestId)
    {f g : Request → Request} (hfg : SameRequest (f (s.object r)) (g (s.object r))) :
    SameCore (s.modify r f) ({ s with kvCacheManager := kv }.modify r g) := by
  refine ⟨rfl, fun r' => ?_, rfl, rfl, rfl, rfl⟩
  rw [Scheduler.modify_object, Scheduler.modify_object]
  split
  · exact hfg
  · exact .refl _

theorem of_cache (s : Scheduler) (kv : KvCacheManager) :
    SameCore s { s with kvCacheManager := kv } :=
  ⟨rfl, fun _ => .refl _, rfl, rfl, rfl, rfl⟩

end SameCore

namespace Scheduler
variable {s s' : Scheduler} {r : RequestId}

theorem freeRequestBlocks_sameCore (h : s.freeRequestBlocks r = .ok s') : SameCore s s' := by
  unfold freeRequestBlocks at h
  obtain ⟨kv, -, h⟩ := bind_eq_ok.mp h
  cases h
  exact .of_modify s kv r _ fun _ => ⟨rfl⟩

theorem tryAllocateBlocks_sameCore (s : Scheduler) (r : RequestId) (n : Nat) :
    SameCore s (s.tryAllocateBlocks r n).2 := by
  unfold tryAllocateBlocks
  split
  · exact .refl s
  · split
    · exact .refl s
    · split
      · exact .of_cache s _
      · exact SameCore.of_modify s _ r (fun q => { q with allocatedBlockIds := q.allocatedBlockIds ++ _ })
          fun _ => ⟨rfl⟩

theorem tryAllocateRequestBlocks_sameCore {n : Nat} {b : Bool}
    (h : s.tryAllocateRequestBlocks r n = .ok (b, s')) : SameCore s s' := by
  unfold tryAllocateRequestBlocks at h
  dsimp only at h
  split at h
  · split at h
    · cases h
      exact .of_modify s _ r _ fun _ => ⟨rfl⟩
    · cases h
      exact .of_cache s _
    · cases h
  · have hs := tryAllocateBlocks_sameCore s r (s.blocksNeeded (s.object r) n)
    rw [Except.ok.inj h] at hs
    exact hs

theorem releaseWaitingPrefixBlocks_spec (h : s.releaseWaitingPrefixBlocks r = .ok s') :
    SameCore (s.modify r fun q => { q with numComputedTokens := 0 }) s' := by
  unfold releaseWaitingPrefixBlocks at h
  obtain ⟨s₁, hfree, h⟩ := bind_eq_ok.mp h
  cases h
  have hs := freeRequestBlocks_sameCore hfree
  refine ⟨hs.config, fun r' => ?_, hs.waiting, hs.running, hs.requests, hs.phase⟩
  rw [modify_object, modify_object]
  split
  · next hr =>
    subst hr
    have hc := (hs.object r').core
    exact ⟨congrArg (fun q : Request => { q with numComputedTokens := 0 }) hc⟩
  · exact hs.object r'

end Scheduler

namespace Pass
variable {pass pass' p₁ p₂ p₃ : Pass} {r v : RequestId} {n : Nat} {b : Bool}

/-- What an allocation leaves alone: everything but the cache and the log. -/
structure Allocated (pass pass' : Pass) : Prop where
  core : SameCore pass.sched pass'.sched
  output : pass'.output = pass.output
  tokenBudget : pass'.tokenBudget = pass.tokenBudget
  scheduledReqIds : pass'.scheduledReqIds = pass.scheduledReqIds
  numScheduledTokens : pass'.numScheduledTokens = pass.numScheduledTokens
  runningToKeep : pass'.runningToKeep = pass.runningToKeep

theorem allocate_spec (h : pass.allocate r n = .ok (b, pass')) :
    ∃ sched, pass.sched.tryAllocateRequestBlocks r n = .ok (b, sched) ∧
      pass'.sched = sched ∧ Allocated pass pass' ∧
      pass'.events = pass.events ++ (if sched.kvCacheManager.hasGroups then
        [.cache (.ensure r ((pass.sched.object r).numComputedTokens + n)
          (pass.sched.object r).cachePartition)] else []) := by
  unfold allocate at h
  obtain ⟨⟨b', sched⟩, halloc, h⟩ := bind_eq_ok.mp h
  cases h
  have hs := Scheduler.tryAllocateRequestBlocks_sameCore halloc
  refine ⟨sched, halloc, ?_⟩
  split
  · exact ⟨rfl, ⟨hs, rfl, rfl, rfl, rfl, rfl⟩, rfl⟩
  · exact ⟨rfl, ⟨hs, rfl, rfl, rfl, rfl, rfl⟩, by simp⟩

theorem allocate_allocated (h : pass.allocate r n = .ok (b, pass')) : Allocated pass pass' := by
  obtain ⟨_, _, _, ha, _⟩ := allocate_spec h
  exact ha

/-- The share that a running request is offered at its turn. -/
structure RunningShare (phase : Option Phase) (pass : Pass) (r : RequestId)
    (numNew spec limitBudget : Nat) : Prop where
  notPreempted : (pass.sched.object r).status ≠ .preempted
  noBarrier : (pass.sched.object r).terminalPrefillInFlight = false
  inPhase : ∀ ph ∈ phase, (pass.sched.object r).isPrefill = decide (ph = .prefill)
  pos : 0 < numNew
  limited : numNew = pass.sched.limitScheduledTokens (pass.sched.object r) limitBudget
  budget : limitBudget ≤ pass.tokenBudget
  spec_eq : spec = pass.sched.speculativeTokens (pass.sched.object r)
  fits : numNew + spec ≤ limitBudget

/-- The outcomes of one running request's turn. -/
inductive RunningTurn (phase : Option Phase) (pass : Pass) (r : RequestId) : Pass → Prop
  | skip : (pass.sched.object r).status = .preempted → RunningTurn phase pass r pass
  | keep : RunningTurn phase pass r (pass.keep r)
  | grant {numNew spec : Nat} {p₁ : Pass} :
      RunningShare phase pass r numNew spec pass.tokenBudget →
      pass.allocate r (numNew + spec) = .ok (true, p₁) →
      RunningTurn phase pass r (p₁.grantRunning r numNew (numNew + spec)
        (pass.sched.object r).isPrefill pass.tokenBudget)
  | short {numNew spec : Nat} {p₁ : Pass} :
      RunningShare phase pass r numNew spec pass.tokenBudget →
      pass.allocate r (numNew + spec) = .ok (false, p₁) →
      p₁.preemptLowestPriority r = .ok none → RunningTurn phase pass r (p₁.keep r)
  | preempt {numNew spec : Nat} {p₁ p₂ p₃ : Pass} {b : Bool} :
      RunningShare phase pass r numNew spec pass.tokenBudget →
      pass.allocate r (numNew + spec) = .ok (false, p₁) →
      p₁.preemptLowestPriority r = .ok (some p₂) →
      p₂.allocate r (numNew + spec) = .ok (b, p₃) →
      RunningTurn phase pass r (if b then p₃.grantRunning r numNew (numNew + spec)
        (pass.sched.object r).isPrefill pass.tokenBudget else p₃.keep r)

theorem scheduleRunningOne_turn {phase : Option Phase}
    (h : pass.scheduleRunningOne phase r = .ok pass') : RunningTurn phase pass r pass' := by
  unfold scheduleRunningOne at h
  dsimp only at h
  split at h
  · next hpre =>
    cases h
    exact .skip hpre
  · next hpre =>
    split at h
    · cases h
      exact .keep
    · next hbar =>
      split at h
      · cases h
        exact .keep
      · next hphase =>
        split at h
        · cases h
          exact .keep
        · split at h
          · cases h
            exact .keep
          · next hpos =>
            split at h
            · cases h
              exact .keep
            · next hfits =>
              have hshare : RunningShare phase pass r _ _ pass.tokenBudget :=
                ⟨hpre, by simpa using hbar, fun ph hph => by
                  subst hph
                  simpa using hphase, Nat.pos_of_ne_zero hpos, rfl, le_rfl, rfl, not_lt.mp hfits⟩
              obtain ⟨⟨b, p₁⟩, halloc, h⟩ := bind_eq_ok.mp h
              cases b with
              | true =>
                cases h
                exact .grant hshare halloc
              | false =>
                obtain ⟨victim, hpreempt, h⟩ := bind_eq_ok.mp h
                cases victim with
                | none =>
                  cases h
                  exact .short hshare halloc hpreempt
                | some p₂ =>
                  obtain ⟨⟨b, p₃⟩, halloc', h⟩ := bind_eq_ok.mp h
                  have := RunningTurn.preempt hshare halloc hpreempt halloc'
                  cases b <;> (cases h; exact this)

theorem latestArrival_spec {s : Scheduler} {l : List RequestId} (h : s.latestArrival l = some v) :
    v ∈ l ∧ ∀ c ∈ l, (s.object c).arrivalTime ≤ (s.object v).arrivalTime := by
  induction l generalizing v with
  | nil => cases h
  | cons a l ih =>
    rw [Scheduler.latestArrival] at h
    cases hl : s.latestArrival l with
    | none =>
      rw [hl] at h
      cases h
      have hnil : l = [] := by
        cases l with
        | nil => rfl
        | cons c l =>
          rw [Scheduler.latestArrival] at hl
          split at hl <;> cases hl
      subst hnil
      simp
    | some w =>
      obtain ⟨hw, hmax⟩ := ih hl
      rw [hl] at h
      dsimp only at h
      split at h
      · next hlt =>
        cases h
        refine ⟨by simp [hw], fun c hc => ?_⟩
        rcases List.mem_cons.mp hc with rfl | hc
        · exact hlt.le
        · exact hmax c hc
      · next hge =>
        cases h
        refine ⟨by simp, fun c hc => ?_⟩
        rcases List.mem_cons.mp hc with rfl | hc
        · exact le_rfl
        · exact (hmax c hc).trans (not_lt.mp hge)

theorem preemptionCandidates_subset {s : Scheduler} {c : RequestId}
    (h : c ∈ s.preemptionCandidates r) : c ∈ s.running ∧ c ≠ r := by
  unfold Scheduler.preemptionCandidates at h
  dsimp only at h
  split at h
  · split at h
    · simpa using h
    · have := (List.mem_filter.mp h).1
      simpa using this
  · simpa using h

/-- What preempting `v` to make room for `r` does. -/
structure Preempts (pass : Pass) (r v : RequestId) (pass' : Pass) : Prop where
  victim : pass.sched.latestArrival (pass.sched.preemptionCandidates r) = some v
  sched : ∃ s₁, pass.sched.freeRequestBlocks v = .ok s₁ ∧
    pass'.sched = { s₁.modify v Scheduler.resetVictim with
      running := pass.sched.running.filter (· ≠ v), waiting := v :: pass.sched.waiting }
  scheduled : pass'.output.scheduledRequests = if v ∈ pass.scheduledReqIds then
    pass.output.scheduledRequests.filter (·.requestId ≠ v) else pass.output.scheduledRequests
  preempted : pass'.output.preemptedRequests = pass.output.preemptedRequests ++ [v]
  rejected : pass'.output.rejectedRequests = pass.output.rejectedRequests
  tokenBudget : pass.tokenBudget ≤ pass'.tokenBudget
  scheduledReqIds : pass'.scheduledReqIds = pass.scheduledReqIds.filter (· ≠ v)
  runningToKeep : pass'.runningToKeep = pass.runningToKeep
  events : pass'.events = pass.events ++
    .preempt v r pass.sched :: releaseEvents (pass.sched.object v) v

/-- What taking `v` out of the step does. -/
structure Unscheduled (pass : Pass) (v : RequestId) (pass' : Pass) : Prop where
  sched : pass'.sched = pass.sched
  scheduled : pass'.output.scheduledRequests = if v ∈ pass.scheduledReqIds then
    pass.output.scheduledRequests.filter (·.requestId ≠ v) else pass.output.scheduledRequests
  preempted : pass'.output.preemptedRequests = pass.output.preemptedRequests
  rejected : pass'.output.rejectedRequests = pass.output.rejectedRequests
  tokenBudget : pass.tokenBudget ≤ pass'.tokenBudget
  scheduledReqIds : pass'.scheduledReqIds = pass.scheduledReqIds.filter (· ≠ v)
  runningToKeep : pass'.runningToKeep = pass.runningToKeep
  events : pass'.events = pass.events

theorem unschedule_spec (pass : Pass) (v : RequestId) : Unscheduled pass v (pass.unschedule v) := by
  unfold unschedule
  split
  · next hmem =>
    refine ⟨rfl, by rw [if_neg hmem], rfl, rfl, le_rfl, ?_, rfl, rfl⟩
    rw [List.filter_eq_self.mpr]
    intro a ha
    simpa using fun hav : a = v => hmem (hav ▸ ha)
  · next hmem =>
    exact ⟨rfl, by rw [if_pos (not_not.mp hmem)], rfl, rfl, Nat.le_add_right _ _, rfl, rfl, rfl⟩

theorem preemptLowestPriority_spec (h : pass.preemptLowestPriority r = .ok (some pass')) :
    ∃ v, Preempts pass r v pass' := by
  unfold preemptLowestPriority at h
  split at h
  · cases h
  · next v hv =>
    have hu := unschedule_spec pass v
    obtain ⟨s₁, hfree, h⟩ := bind_eq_ok.mp h
    cases h
    rw [hu.sched] at hfree
    have hs := Scheduler.freeRequestBlocks_sameCore hfree
    refine ⟨v, hv, ⟨s₁, hfree, ?_⟩, hu.scheduled, ?_, hu.rejected, hu.tokenBudget,
      hu.scheduledReqIds, hu.runningToKeep, ?_⟩
    · simp only [log, Scheduler.modify_running, Scheduler.modify_waiting, hs.running, hs.waiting]
    · exact congrArg (· ++ [v]) hu.preempted
    · exact congrArg (· ++ _) hu.events

namespace Preempts

theorem victim_running (h : Preempts pass r v pass') : v ∈ pass.sched.running ∧ v ≠ r :=
  preemptionCandidates_subset (latestArrival_spec h.victim).1

theorem running (h : Preempts pass r v pass') :
    pass'.sched.running = pass.sched.running.filter (· ≠ v) := by
  obtain ⟨s₁, -, hs⟩ := h.sched
  rw [hs]

/-- The request that room is made for stays running. -/
theorem requester_running (h : Preempts pass r v pass') (hr : r ∈ pass.sched.running) :
    r ∈ pass'.sched.running := by
  rw [h.running, List.mem_filter]
  exact ⟨hr, decide_eq_true h.victim_running.2.symm⟩

theorem mem_preempted (h : Preempts pass r v pass') (x : RequestId) :
    x ∈ pass'.output.preemptedRequests ↔ x ∈ pass.output.preemptedRequests ∨ x = v := by
  rw [h.preempted, List.mem_append, List.mem_singleton]

theorem filter_preempted (h : Preempts pass r v pass') (l : List RequestId) :
    l.filter (· ∉ pass'.output.preemptedRequests) =
      (l.filter (· ∉ pass.output.preemptedRequests)).filter (· ≠ v) := by
  rw [List.filter_filter]
  congr 1
  funext x
  rw [Bool.eq_iff_iff]
  simp only [h.mem_preempted, decide_eq_true_eq, Bool.and_eq_true]
  tauto

end Preempts

/-- The tokens offered to a waiting request after its prefix lookup: its limited share, or
the last prompt token of a full hit. -/
inductive WaitingOffer (pass : Pass) (r : RequestId) : Pass → Nat → Prop
  | share : 0 < pass.sched.limitScheduledTokens (pass.sched.object r) pass.tokenBudget →
      WaitingOffer pass r pass
        (pass.sched.limitScheduledTokens (pass.sched.object r) pass.tokenBudget)
  | lastToken : pass.sched.limitScheduledTokens (pass.sched.object r) pass.tokenBudget = 0 →
      (pass.sched.object r).numPromptTokens ≤ (pass.sched.object r).numComputedTokens →
      WaitingOffer pass r { pass with sched := pass.sched.modify r fun request =>
        { request with numComputedTokens := request.numPromptTokens - 1 } } 1

/-- The allocation of a waiting request: directly, or cold after its grouped hit was released. -/
inductive WaitingAllocation (pass : Pass) (r : RequestId) (numNew : Nat) (hit : Bool) :
    Bool → Nat → Pass → Prop
  | direct {b : Bool} {p₁ : Pass} : pass.allocate r numNew = .ok (b, p₁) → (b ∨ ¬ hit) →
      WaitingAllocation pass r numNew hit b numNew p₁
  | noShare {p₁ p₂ : Pass} : hit → pass.allocate r numNew = .ok (false, p₁) →
      p₁.releaseWaiting r = .ok p₂ → WaitingAllocation pass r numNew hit false numNew p₂
  | cold {p₁ p₂ p₃ : Pass} {b : Bool} : hit → pass.allocate r numNew = .ok (false, p₁) →
      p₁.releaseWaiting r = .ok p₂ →
      0 < p₂.sched.limitScheduledTokens (p₂.sched.object r) p₂.tokenBudget →
      p₂.allocate r (p₂.sched.limitScheduledTokens (p₂.sched.object r) p₂.tokenBudget) =
        .ok (b, p₃) →
      WaitingAllocation pass r numNew hit b
        (if b then p₂.sched.limitScheduledTokens (p₂.sched.object r) p₂.tokenBudget else numNew) p₃

theorem allocateWaiting_cases {numNew n' : Nat} {hit : Bool}
    (h : pass.allocateWaiting r numNew hit = .ok (b, n', pass')) :
    WaitingAllocation pass r numNew hit b n' pass' := by
  unfold allocateWaiting at h
  obtain ⟨⟨b₁, p₁⟩, halloc, h⟩ := bind_eq_ok.mp h
  dsimp only at h
  split at h
  · next hcold =>
    obtain ⟨hb, hhit⟩ := hcold
    obtain rfl : b₁ = false := by simpa using hb
    obtain ⟨p₂, hrel, h⟩ := bind_eq_ok.mp h
    split at h
    · cases h
      exact .noShare hhit halloc hrel
    · next hpos =>
      obtain ⟨⟨b₂, p₃⟩, halloc', h⟩ := bind_eq_ok.mp h
      cases h
      exact .cold hhit halloc hrel (Nat.pos_of_ne_zero hpos) halloc'
  · next hdirect =>
    cases h
    refine .direct halloc ?_
    cases b
    · exact .inr fun hhit => hdirect ⟨by simp, hhit⟩
    · exact .inl rfl

theorem launch_object_self (pass : Pass) (r : RequestId) (n : Nat) :
    (pass.launch r n).sched.object r = { pass.sched.object r with status := .running } :=
  Scheduler.modify_object_self pass.sched r fun request => { request with status := .running }

theorem launch_object_ne (pass : Pass) (n : Nat) (h : v ≠ r) :
    (pass.launch r n).sched.object v = pass.sched.object v :=
  Scheduler.modify_object_ne pass.sched (fun request => { request with status := .running }) h

theorem launch_config (pass : Pass) (r : RequestId) (n : Nat) :
    (pass.launch r n).sched.config = pass.sched.config := rfl

theorem launch_running (pass : Pass) (r : RequestId) (n : Nat) :
    (pass.launch r n).sched.running = pass.sched.running ++ [r] := rfl

theorem launch_requests (pass : Pass) (r : RequestId) (n : Nat) :
    (pass.launch r n).sched.requests = pass.sched.requests := rfl

theorem launch_events (pass : Pass) (r : RequestId) (n : Nat) :
    (pass.launch r n).events = pass.events ++ [.grant r pass.tokenBudget] := rfl

theorem launch_scheduledRequests (pass : Pass) (r : RequestId) (n : Nat) :
    (pass.launch r n).output.scheduledRequests =
      pass.output.scheduledRequests ++ [(pass.launch r n).scheduledRequest r n true] := rfl

theorem launch_preemptedRequests (pass : Pass) (r : RequestId) (n : Nat) :
    (pass.launch r n).output.preemptedRequests = pass.output.preemptedRequests := rfl

theorem launch_rejectedRequests (pass : Pass) (r : RequestId) (n : Nat) :
    (pass.launch r n).output.rejectedRequests = pass.output.rejectedRequests := rfl

theorem reject_config (pass : Pass) (r : RequestId) (reason : String) :
    (pass.reject r reason).sched.config = pass.sched.config := rfl

theorem reject_running (pass : Pass) (r : RequestId) (reason : String) :
    (pass.reject r reason).sched.running = pass.sched.running := rfl

theorem reject_requests (pass : Pass) (r : RequestId) (reason : String) :
    (pass.reject r reason).sched.requests = pass.sched.requests.filter (· ≠ r) := rfl

theorem reject_events (pass : Pass) (r : RequestId) (reason : String) :
    (pass.reject r reason).events = pass.events := rfl

theorem reject_scheduledRequests (pass : Pass) (r : RequestId) (reason : String) :
    (pass.reject r reason).output.scheduledRequests = pass.output.scheduledRequests := rfl

theorem reject_preemptedRequests (pass : Pass) (r : RequestId) (reason : String) :
    (pass.reject r reason).output.preemptedRequests = pass.output.preemptedRequests := rfl

theorem reject_rejectedRequests (pass : Pass) (r : RequestId) (reason : String) :
    (pass.reject r reason).output.rejectedRequests =
      pass.output.rejectedRequests.insert r reason := rfl

theorem reject_object_self (pass : Pass) (r : RequestId) (reason : String) :
    (pass.reject r reason).sched.object r =
      { pass.sched.object r with status := .finishedAborted } :=
  Scheduler.modify_object_self pass.sched r fun request =>
    { request with status := .finishedAborted }

theorem reject_object_ne (pass : Pass) (reason : String) (h : v ≠ r) :
    (pass.reject r reason).sched.object v = pass.sched.object v :=
  Scheduler.modify_object_ne pass.sched
    (fun request => { request with status := .finishedAborted }) h

/-- Whether a waiting request holds a grouped prefix hit after its lookup. -/
def groupedHit (pass : Pass) (r : RequestId) : Bool :=
  pass.sched.kvCacheManager.hasGroups && decide (0 < (pass.sched.object r).numComputedTokens)

/-- The outcomes of one waiting request's turn. -/
inductive WaitingTurn (pass : Pass) (r : RequestId) : WaitingOutcome → Pass → Prop
  | reject {p₁ p₂ : Pass} {reason : String} : pass.lookupPrefix r = .ok p₁ →
      p₁.sched.singlePrefillRejection (p₁.sched.object r) = some reason →
      p₁.releaseWaiting r = .ok p₂ → WaitingTurn pass r .rejected (p₂.reject r reason)
  | defer {p₁ p₂ : Pass} : pass.lookupPrefix r = .ok p₁ →
      p₁.sched.singlePrefillRejection (p₁.sched.object r) = none →
      p₁.sched.limitScheduledTokens (p₁.sched.object r) p₁.tokenBudget = 0 →
      (p₁.sched.object r).numComputedTokens < (p₁.sched.object r).numPromptTokens →
      p₁.releaseWaiting r = .ok p₂ → WaitingTurn pass r .deferred p₂
  | launch {p₁ p₂ p₃ : Pass} {numNew n' : Nat} : pass.lookupPrefix r = .ok p₁ →
      p₁.sched.singlePrefillRejection (p₁.sched.object r) = none →
      WaitingOffer p₁ r p₂ numNew →
      WaitingAllocation p₂ r numNew (p₁.groupedHit r) true n' p₃ →
      WaitingTurn pass r .admitted (p₃.launch r n')
  | block {p₁ p₂ p₃ p₄ : Pass} {numNew n' : Nat} : pass.lookupPrefix r = .ok p₁ →
      p₁.sched.singlePrefillRejection (p₁.sched.object r) = none →
      WaitingOffer p₁ r p₂ numNew →
      WaitingAllocation p₂ r numNew (p₁.groupedHit r) false n' p₃ →
      p₃.releaseWaiting r = .ok p₄ → WaitingTurn pass r .blocked p₄

theorem scheduleWaitingOne_turn {outcome : WaitingOutcome}
    (h : pass.scheduleWaitingOne r = .ok (outcome, pass')) : WaitingTurn pass r outcome pass' := by
  unfold scheduleWaitingOne at h
  obtain ⟨p₁, hlookup, h⟩ := bind_eq_ok.mp h
  dsimp only at h
  split at h
  · next reason hreason =>
    obtain ⟨p₂, hrel, h⟩ := bind_eq_ok.mp h
    cases h
    exact .reject hlookup hreason hrel
  · next hnone =>
    split at h
    · next hzero =>
      obtain ⟨p₂, hrel, h⟩ := bind_eq_ok.mp h
      cases h
      exact .defer hlookup hnone hzero.1 hzero.2 hrel
    · next hoffer =>
      obtain ⟨p₂, numNew, hp₂, hoff⟩ : ∃ p₂ numNew,
          (if p₁.sched.limitScheduledTokens (p₁.sched.object r) p₁.tokenBudget = 0 then
            ({ p₁ with sched := p₁.sched.modify r fun request =>
              { request with numComputedTokens := request.numPromptTokens - 1 } }, 1)
          else (p₁, p₁.sched.limitScheduledTokens (p₁.sched.object r) p₁.tokenBudget)) =
            (p₂, numNew) ∧ WaitingOffer p₁ r p₂ numNew := by
        by_cases hz : p₁.sched.limitScheduledTokens (p₁.sched.object r) p₁.tokenBudget = 0
        · exact ⟨_, _, if_pos hz, .lastToken hz (not_lt.mp fun hlt => hoffer ⟨hz, hlt⟩)⟩
        · exact ⟨_, _, if_neg hz, .share (Nat.pos_of_ne_zero hz)⟩
      rw [hp₂] at h
      obtain ⟨⟨b, n', p₃⟩, halloc, h⟩ := bind_eq_ok.mp h
      have ha := allocateWaiting_cases halloc
      cases b with
      | true =>
        cases h
        exact .launch hlookup hnone hoff ha
      | false =>
        obtain ⟨p₄, hrel, h⟩ := bind_eq_ok.mp h
        cases h
        exact .block hlookup hnone hoff ha hrel

/-- What every turn passes on to the rest of the snapshot holds after the running phase. -/
theorem runningLoop_rule {phase : Option Phase} {I : List RequestId → Pass → Prop}
    (turn : ∀ r rest pass pass', I (r :: rest) pass → RunningTurn phase pass r pass' →
      I rest pass') :
    ∀ {l : List RequestId} {pass pass' : Pass},
      l.foldlM (scheduleRunningOne phase) pass = .ok pass' → I l pass → I [] pass' := by
  intro l
  induction l with
  | nil =>
    intro pass pass' h hI
    cases h
    exact hI
  | cons r l ih =>
    intro pass pass' h hI
    rw [List.foldlM_cons] at h
    obtain ⟨p₁, h₁, h₂⟩ := bind_eq_ok.mp h
    exact ih h₂ (turn r l pass p₁ hI (scheduleRunningOne_turn h₁))

/-- What stays in the waiting queue of a request after its turn. -/
def WaitingOutcome.left (outcome : WaitingOutcome) (r : RequestId) : List RequestId :=
  match outcome with
  | .admitted | .rejected => []
  | .deferred | .blocked => [r]

/-- The waiting phase: `I remaining queue pass` is passed on by every turn, and the phase
ends with the rest of the queue behind the remaining requests. -/
theorem waitingLoop_rule {I : List RequestId → List RequestId → Pass → Prop} {J : Pass → Prop}
    (skip : ∀ rem r queue pass, I rem (r :: queue) pass → r ∈ pass.output.preemptedRequests →
      I (rem ++ [r]) queue pass)
    (turn : ∀ rem r queue pass outcome pass', I rem (r :: queue) pass →
      r ∉ pass.output.preemptedRequests → 0 < pass.tokenBudget →
      pass.sched.running.length < pass.sched.config.maxNumRunningReqs →
      WaitingTurn pass r outcome pass' → I (rem ++ outcome.left r) queue pass')
    (stop : ∀ rem queue pass, I rem queue pass →
      J { pass with sched := { pass.sched with waiting := rem ++ queue } }) :
    ∀ {queue rem : List RequestId} {pass pass' : Pass},
      scheduleWaiting rem pass queue = .ok pass' → I rem queue pass → J pass' := by
  intro queue
  induction queue with
  | nil =>
    intro rem pass pass' h hI
    cases h
    have := stop rem [] pass hI
    rwa [List.append_nil] at this
  | cons r queue ih =>
    intro rem pass pass' h hI
    rw [scheduleWaiting] at h
    split at h
    · cases h
      exact stop rem (r :: queue) pass hI
    · next hroom =>
      simp only [not_or, not_le] at hroom
      split at h
      · next hpre => exact ih h (skip rem r queue pass hI hpre)
      · next hpre =>
        obtain ⟨⟨outcome, p₁⟩, hone, h⟩ := bind_eq_ok.mp h
        have hturn := turn rem r queue pass outcome p₁ hI hpre (Nat.pos_of_ne_zero hroom.1) hroom.2
          (scheduleWaitingOne_turn hone)
        cases outcome with
        | admitted => exact ih h (by simpa [WaitingOutcome.left] using hturn)
        | rejected => exact ih h (by simpa [WaitingOutcome.left] using hturn)
        | deferred => exact ih h hturn
        | blocked =>
          cases h
          exact stop _ _ _ hturn

end Pass

/-- The two phases of a successful `schedule`. -/
theorem Scheduler.schedule_phases {s : Scheduler} {pass : Pass} (h : s.schedule = .ok pass) :
    ∃ p₁, s.running.foldlM (Pass.scheduleRunningOne s.groupedCachePhase.1) s.startPass = .ok p₁ ∧
      ((s.groupedCachePhase.1 = some .decode ∧ pass = p₁.closeRunning) ∨
        p₁.closeRunning.scheduleWaiting [] p₁.sched.waiting = .ok pass) := by
  unfold schedule at h
  obtain ⟨p₁, hrun, h⟩ := bind_eq_ok.mp h
  refine ⟨p₁, hrun, ?_⟩
  dsimp only at h
  split at h
  · next hphase =>
    cases h
    exact .inl ⟨hphase, rfl⟩
  · exact .inr h

end PyptoServing.Sched
