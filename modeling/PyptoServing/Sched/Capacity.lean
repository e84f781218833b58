import PyptoServing.Sched.Slots

/-!
# Free slots for every admission

`Scheduler.admissionsFit`: at each allocation that the waiting phase tries, a partition with
enough free blocks has a free slot. Then no partition is ever given to more than `slots`
running requests: a hit stays in its partition, a first growth goes to a least loaded one,
and the running phase moves nobody.
-/
namespace PyptoServing.Sched

open Lib Lib.Fallible Memory Scheduler
open KvCacheManager (SameSeats Reseats)

namespace Scheduler

/-- Of the partitions in which `r` can grow by `n` tokens one runs fewer than `slots`
requests, or there is none. A request with a partition can grow there only. -/
def hasSlot (s : Scheduler) (slots : Nat) (r : RequestId) (n : Nat) : Bool :=
  let candidates :=
    s.kvCacheManager.candidateGroupPartitions r ((s.object r).numComputedTokens + n)
  candidates.isEmpty || candidates.any fun p => decide (s.slotsUsed p < slots)

end Scheduler

namespace Pass

/-- The allocations that the turn of a waiting request tries, in order: with its prefix hit,
and cold after the hit was given up. -/
def attempts (pass : Pass) (r : RequestId) : List (Scheduler × Nat) :=
  match pass.lookupPrefix r with
  | .error _ => []
  | .ok pass =>
    let request := pass.sched.object r
    let numNew := pass.sched.limitScheduledTokens request pass.tokenBudget
    if (pass.sched.singlePrefillRejection request).isSome ∨
        (numNew = 0 ∧ request.numComputedTokens < request.numPromptTokens) then []
    else
      let hit := pass.groupedHit r
      let (pass, numNew) :=
        if numNew = 0 then
          ({ pass with sched := pass.sched.modify r fun request =>
              { request with numComputedTokens := request.numPromptTokens - 1 } }, 1)
        else (pass, numNew)
      (pass.sched, numNew) ::
        match pass.allocate r numNew with
        | .ok (false, pass) =>
          if hit then
            match pass.releaseWaiting r with
            | .ok pass =>
              let cold := pass.sched.limitScheduledTokens (pass.sched.object r) pass.tokenBudget
              if cold = 0 then [] else [(pass.sched, cold)]
            | .error _ => []
          else []
        | _ => []

/-- `C` holds at each turn of the waiting phase over `queue`. -/
def everyTurn (C : Pass → RequestId → Bool) (pass : Pass) : List RequestId → Bool
  | [] => true
  | r :: queue =>
    if pass.tokenBudget = 0 ∨ pass.sched.config.maxNumRunningReqs ≤ pass.sched.running.length then
      true
    else if r ∈ pass.output.preemptedRequests then everyTurn C pass queue
    else C pass r &&
      match pass.scheduleWaitingOne r with
      | .error _ => true
      | .ok (.blocked, _) => true
      | .ok (_, pass) => everyTurn C pass queue

/-- The waiting phase when `C` holds at each of its turns. -/
theorem waitingLoop_rule_of {C : Pass → RequestId → Bool}
    {I : List RequestId → List RequestId → Pass → Prop} {J : Pass → Prop}
    (skip : ∀ rem r queue pass, I rem (r :: queue) pass → r ∈ pass.output.preemptedRequests →
      I (rem ++ [r]) queue pass)
    (turn : ∀ rem r queue pass outcome pass', I rem (r :: queue) pass →
      r ∉ pass.output.preemptedRequests → C pass r = true →
      WaitingTurn pass r outcome pass' → I (rem ++ outcome.left r) queue pass')
    (stop : ∀ rem queue pass, I rem queue pass →
      J { pass with sched := { pass.sched with waiting := rem ++ queue } }) :
    ∀ {queue rem : List RequestId} {pass pass' : Pass},
      scheduleWaiting rem pass queue = .ok pass' → everyTurn C pass queue = true →
      I rem queue pass → J pass' := by
  intro queue
  induction queue with
  | nil =>
    intro rem pass pass' h _ hI
    cases h
    have := stop rem [] pass hI
    rwa [List.append_nil] at this
  | cons r queue ih =>
    intro rem pass pass' h hC hI
    rw [scheduleWaiting] at h
    rw [everyTurn] at hC
    split at h
    · cases h
      exact stop rem (r :: queue) pass hI
    · next hroom =>
      rw [if_neg hroom] at hC
      split at h
      · next hpre =>
        rw [if_pos hpre] at hC
        exact ih h hC (skip rem r queue pass hI hpre)
      · next hpre =>
        rw [if_neg hpre] at hC
        obtain ⟨hCr, hC⟩ := Bool.and_eq_true_iff.mp hC
        obtain ⟨⟨outcome, p₁⟩, hone, h⟩ := bind_eq_ok.mp h
        rw [hone] at hC
        have hturn := turn rem r queue pass outcome p₁ hI hpre hCr (scheduleWaitingOne_turn hone)
        cases outcome with
        | admitted => exact ih h hC (by simpa [WaitingOutcome.left] using hturn)
        | rejected => exact ih h hC (by simpa [WaitingOutcome.left] using hturn)
        | deferred => exact ih h hC hturn
        | blocked =>
          cases h
          exact stop _ _ _ hturn

variable {pass p₁ p₂ p₃ p₄ : Pass} {r : RequestId} {n : Nat}

theorem attempts_eq (hlookup : pass.lookupPrefix r = .ok p₁)
    (hnone : p₁.sched.singlePrefillRejection (p₁.sched.object r) = none)
    (hoffer : WaitingOffer p₁ r p₂ n) :
    pass.attempts r = (p₂.sched, n) ::
      match p₂.allocate r n with
      | .ok (false, pass) =>
        if p₁.groupedHit r then
          match pass.releaseWaiting r with
          | .ok pass =>
            let cold := pass.sched.limitScheduledTokens (pass.sched.object r) pass.tokenBudget
            if cold = 0 then [] else [(pass.sched, cold)]
          | .error _ => []
        else []
      | _ => [] := by
  unfold attempts
  rw [hlookup]
  dsimp only
  rw [hnone]
  cases hoffer with
  | share hpos =>
    rw [if_neg (by simp; omega), if_neg (by omega)]
  | lastToken hzero hall =>
    rw [if_neg (by simp; omega), if_pos hzero]

/-- The first attempt is made with the tokens that are offered. -/
theorem attempts_first (hlookup : pass.lookupPrefix r = .ok p₁)
    (hnone : p₁.sched.singlePrefillRejection (p₁.sched.object r) = none)
    (hoffer : WaitingOffer p₁ r p₂ n) : (p₂.sched, n) ∈ pass.attempts r := by
  rw [attempts_eq hlookup hnone hoffer]
  exact List.mem_cons_self

/-- The cold attempt. -/
theorem attempts_cold (hlookup : pass.lookupPrefix r = .ok p₁)
    (hnone : p₁.sched.singlePrefillRejection (p₁.sched.object r) = none)
    (hoffer : WaitingOffer p₁ r p₂ n) (hhit : p₁.groupedHit r = true)
    (halloc : p₂.allocate r n = .ok (false, p₃)) (hrel : p₃.releaseWaiting r = .ok p₄)
    (hpos : 0 < p₄.sched.limitScheduledTokens (p₄.sched.object r) p₄.tokenBudget) :
    (p₄.sched, p₄.sched.limitScheduledTokens (p₄.sched.object r) p₄.tokenBudget) ∈
      pass.attempts r := by
  rw [attempts_eq hlookup hnone hoffer, halloc]
  dsimp only
  rw [if_pos hhit, hrel]
  dsimp only
  rw [if_neg (by omega)]
  simp

/-- Each allocation that a waiting request's turn tries finds a free slot. -/
def turnFits (slots : Nat) (pass : Pass) (r : RequestId) : Bool :=
  (pass.attempts r).all fun attempt => attempt.1.hasSlot slots r attempt.2

end Pass

/-- Each admission of the next pass finds a free slot, if it finds blocks. -/
def Scheduler.admissionsFit (s : Scheduler) (slots : Nat) : Bool :=
  match s.running.foldlM (Pass.scheduleRunningOne s.groupedCachePhase.1) s.startPass with
  | .error _ => true
  | .ok pass =>
    decide (s.groupedCachePhase.1 = some .decode) ||
      pass.closeRunning.everyTurn (Pass.turnFits slots) pass.sched.waiting

/-- The running requests are the ones with a partition, at most `slots` in each. -/
structure Housed (slots : Nat) (s : Scheduler) : Prop where
  seated : Seated s
  owners : ∀ r, (s.partitionOf r).isSome → r ∈ s.running
  assigned : s.kvCacheManager.hasGroups = true → ∀ r ∈ s.running, (s.partitionOf r).isSome
  room : ∀ p, s.slotsUsed p ≤ slots

variable {slots : Nat} {s s' s₂ s₃ : Scheduler} {r v : RequestId} {q : Option Nat}

/-- Nobody moved. -/
theorem Housed.congr (h : Housed slots s) (hseated : Seated s')
    (hpart : ∀ x, s'.partitionOf x = s.partitionOf x)
    (hgroups : s'.kvCacheManager.hasGroups = s.kvCacheManager.hasGroups)
    (hrun : s'.running = s.running) : Housed slots s' := by
  refine ⟨hseated, fun x hx => ?_, fun hg x hx => ?_, fun p => ?_⟩
  · rw [hrun]
    rw [hpart] at hx
    exact h.owners x hx
  · rw [hpart]
    rw [hrun] at hx
    exact h.assigned (hgroups ▸ hg) x hx
  · unfold slotsUsed
    rw [hrun]
    simp only [hpart]
    exact h.room p

theorem Housed.same (h : Housed slots s) (hs : SameSeating s s') (hrun : s'.running = s.running) :
    Housed slots s' :=
  h.congr (h.seated.congr hs) hs.partitionOf hs.kv.hasGroups hrun

/-- A move to the present partition moves nobody. -/
theorem Moves.partitionOf_same (hm : Moves s r q s') (hq : s.partitionOf r = q) (x : RequestId) :
    s'.partitionOf x = s.partitionOf x := by
  by_cases hx : x = r
  · subst hx
    exact hm.kv.self.trans hq.symm
  · exact hm.kv.other x hx

theorem Housed.stays (h : Housed slots s) (hm : Moves s r q s') (hq : s.partitionOf r = q)
    (hrun : s'.running = s.running) : Housed slots s' :=
  h.congr (h.seated.moves hm) (hm.partitionOf_same hq) hm.kv.hasGroups hrun

/-- A running request gives its partition up and leaves the queue. -/
theorem Housed.leaves (h : Housed slots s) (hm : Moves s v none s')
    (hrun : s'.running = s.running.filter (· ≠ v)) : Housed slots s' := by
  have hmem : ∀ x, x ∈ s'.running ↔ x ∈ s.running ∧ x ≠ v := by
    intro x
    rw [hrun, List.mem_filter, decide_eq_true_eq]
  refine ⟨h.seated.moves hm, fun x hx => ?_, fun hg x hx => ?_, fun p => ?_⟩
  · have hxv : x ≠ v := by
      rintro rfl
      rw [partitionOf, hm.kv.self] at hx
      cases hx
    rw [partitionOf, hm.kv.other x hxv] at hx
    exact (hmem x).mpr ⟨h.owners x hx, hxv⟩
  · obtain ⟨hxr, hxv⟩ := (hmem x).mp hx
    rw [partitionOf, hm.kv.other x hxv]
    exact h.assigned (hm.kv.hasGroups ▸ hg) x hxr
  · refine le_trans ?_ (h.room p)
    unfold slotsUsed
    rw [hrun]
    refine le_trans (le_of_eq (List.countP_congr fun x hx => ?_))
      (List.filter_sublist.countP_le (p := fun r => decide (s.partitionOf r = some p)))
    have hxv : x ≠ v := by simpa using (List.mem_filter.mp hx).2
    rw [partitionOf, hm.kv.other x hxv, partitionOf]

/-- A request outside the queue does not count. -/
theorem slotsUsed_moves (hm : Moves s r q s') (hr : r ∉ s.running)
    (hrun : s'.running = s.running) (p : Nat) : s'.slotsUsed p = s.slotsUsed p := by
  unfold slotsUsed
  rw [hrun]
  refine List.countP_congr fun x hx => ?_
  rw [partitionOf, hm.kv.other x fun hxr => hr (hxr ▸ hx), partitionOf]

/-- The partition that an admission ends in had a free slot. -/
theorem Housed.admits {n : Nat} (h : Housed slots s) (hnd : s.running.Nodup)
    (hr : r ∉ s.running) (hm : Moves s r q s₂) (hrun : s₂.running = s.running)
    (hslot : s₂.hasSlot slots r n = true)
    (ha : s₂.tryAllocateRequestBlocks r n = .ok (true, s₃)) :
    ∃ q', Moves s r q' s₃ ∧ (s.kvCacheManager.hasGroups = true → q'.isSome) ∧
      ∀ p, q' = some p → s.slotsUsed p < slots := by
  have hseated := h.seated.moves hm
  rcases allocate_seats ha with ⟨hno, hsame⟩ | ⟨-, hg, p, hseats, hmove⟩
  · -- Without groups nobody has a partition.
    have hbare : s.kvCacheManager.hasGroups = false := by
      rw [← hm.kv.hasGroups]
      exact hno.resolve_left (by decide)
    have hq := hm.bare hbare
    refine ⟨q, hm.same hsame, ?_, ?_⟩
    · rw [hbare]
      exact fun hg => by cases hg
    · rw [hq]
      exact fun p hp => by cases hp
  · refine ⟨some p, hm.trans hmove, fun _ => rfl, fun p' hp' => ?_⟩
    cases hp'
    rw [← slotsUsed_moves hm hr hrun p]
    have hcand := hseats.candidate
    unfold hasSlot at hslot
    dsimp only at hslot
    rw [Bool.or_eq_true, List.isEmpty_iff, List.any_eq_true] at hslot
    obtain ⟨p', hp', hfree⟩ := hslot.resolve_left (List.ne_nil_of_mem hcand)
    rw [decide_eq_true_eq] at hfree
    cases hpart : s₂.partitionOf r with
    | some k =>
      have honly : ∀ x ∈ s₂.kvCacheManager.candidateGroupPartitions r
          ((s₂.object r).numComputedTokens + n), x = k := by
        intro x hx
        have hx' := (List.mem_filter.mp hx).1
        rw [show s₂.kvCacheManager.groupRequestPartition r = some k from hpart] at hx'
        exact List.mem_singleton.mp hx'
      rw [honly p hcand, ← honly p' hp']
      exact hfree
    | none =>
      have hcount := KvCacheManager.ownedCount_eq hg hseated.agreed (hrun ▸ hnd) fun x hx => by
        have hxr : x ≠ r := by
          rintro rfl
          rw [show s₂.kvCacheManager.groupRequestPartition x = none from hpart] at hx
          cases hx
        rw [hm.kv.other x hxr] at hx
        rw [hrun]
        exact h.owners x hx
      have hleast := hseats.least hpart (hm.seat.trans (hm.kv.self.symm.trans hpart)) p' hp'
      rw [hcount, hcount] at hleast
      exact lt_of_le_of_lt hleast hfree

/-- An admitted request enters the queue with its partition. -/
theorem Housed.enters (h : Housed slots s) (hr : r ∉ s.running) (hm : Moves s r q s')
    (hrun : s'.running = s.running ++ [r])
    (hsome : s.kvCacheManager.hasGroups = true → q.isSome)
    (hfree : ∀ p, q = some p → s.slotsUsed p < slots) : Housed slots s' := by
  refine ⟨h.seated.moves hm, fun x hx => ?_, fun hg x hx => ?_, fun p => ?_⟩
  · rw [hrun, List.mem_append, List.mem_singleton]
    by_cases hxr : x = r
    · exact .inr hxr
    · rw [partitionOf, hm.kv.other x hxr] at hx
      exact .inl (h.owners x hx)
  · rw [hm.kv.hasGroups] at hg
    by_cases hxr : x = r
    · subst hxr
      rw [partitionOf, hm.kv.self]
      exact hsome hg
    · rw [partitionOf, hm.kv.other x hxr]
      rw [hrun, List.mem_append, List.mem_singleton] at hx
      exact h.assigned hg x (hx.resolve_right hxr)
  · have hold : (s.running.countP fun x => decide (s'.partitionOf x = some p)) =
        s.slotsUsed p := by
      refine List.countP_congr fun x hx => ?_
      rw [partitionOf, hm.kv.other x fun hxr => hr (hxr ▸ hx), partitionOf]
    unfold slotsUsed
    rw [hrun, List.countP_append, hold, List.countP_singleton,
      show s'.partitionOf r = q from hm.kv.self]
    have hroom := h.room p
    split
    · next hq =>
      have := hfree p (by simpa using hq)
      omega
    · omega

/-- The state of a pass: each record names the partition of its running request. -/
structure Placed (slots : Nat) (pass : Pass) : Prop where
  housed : Housed slots pass.sched
  running : ∀ sr ∈ pass.output.scheduledRequests, sr.requestId ∈ pass.sched.running
  records : ∀ sr ∈ pass.output.scheduledRequests,
    sr.cachePartition = pass.sched.partitionOf sr.requestId

section PassSteps
variable {pass pass' p₁ p₂ p₃ : Pass} {n : Nat} {b : Bool}

theorem Placed.stays (h : Placed slots pass) (hhoused : Housed slots pass'.sched)
    (hpart : ∀ x, pass'.sched.partitionOf x = pass.sched.partitionOf x)
    (hrun : pass'.sched.running = pass.sched.running)
    (hout : pass'.output.scheduledRequests = pass.output.scheduledRequests) :
    Placed slots pass' := by
  refine ⟨hhoused, fun sr hsr => ?_, fun sr hsr => ?_⟩
  · rw [hrun]
    exact h.running sr (hout ▸ hsr)
  · rw [hpart]
    exact h.records sr (hout ▸ hsr)

/-- Growing the tables of a running request. -/
theorem Placed.allocate (h : Placed slots pass) (hr : r ∈ pass.sched.running)
    (hreq : r ∈ pass.sched.requests) (ha : pass.allocate r n = .ok (b, pass')) : Placed slots pass' := by
  obtain ⟨sched, halloc, rfl, hallocated, -⟩ := Pass.allocate_spec ha
  have hrun := hallocated.core.running
  have hout := congrArg SchedulerOutput.scheduledRequests hallocated.output
  have hbare : pass.sched.kvCacheManager.hasGroups = false →
      Placed slots pass' := by
    intro hg
    rcases allocate_seats halloc with ⟨-, hsame⟩ | ⟨-, hg', -⟩
    · exact h.stays (h.housed.same hsame hrun) hsame.partitionOf hrun hout
    · rw [hg] at hg'
      cases hg'
  cases hg : pass.sched.kvCacheManager.hasGroups with
  | false => exact hbare hg
  | true =>
    obtain ⟨k, hk⟩ := Option.isSome_iff_exists.mp (h.housed.assigned hg r hr)
    have hm := h.housed.seated.allocate_stays hreq hk halloc
    exact h.stays (h.housed.stays hm hk hrun) (hm.partitionOf_same hk) hrun hout

/-- Granting a share records the partition of the request. -/
theorem Placed.grant {numNew tokens budget : Nat} {isPrefill : Bool} (h : Placed slots pass)
    (hr : r ∈ pass.sched.running) (hreq : r ∈ pass.sched.requests) :
    Placed slots (pass.grantRunning r numNew tokens isPrefill budget) := by
  refine ⟨h.housed, fun sr hsr => ?_, fun sr hsr => ?_⟩
  · rcases List.mem_append.mp hsr with hsr | hsr
    · exact h.running sr hsr
    · rw [List.mem_singleton.mp hsr]
      exact hr
  · rcases List.mem_append.mp hsr with hsr | hsr
    · exact h.records sr hsr
    · rw [List.mem_singleton.mp hsr]
      exact h.housed.seated.seat r hreq

/-- Preempting a victim empties its slot and drops its record. -/
theorem Placed.preempts (h : Placed slots pass) (hp : Pass.Preempts pass r v pass')
    (hids : v ∉ pass.scheduledReqIds →
      v ∉ pass.output.scheduledRequests.map (·.requestId)) : Placed slots pass' := by
  have hm := h.housed.seated.preempts hp
  have hrun := hp.running
  have hkept : ∀ sr ∈ pass'.output.scheduledRequests,
      sr ∈ pass.output.scheduledRequests ∧ sr.requestId ≠ v := by
    intro sr hsr
    rw [hp.scheduled] at hsr
    split at hsr
    · simpa using hsr
    · next hno => exact ⟨hsr, fun hid => hids hno (hid ▸ List.mem_map_of_mem hsr)⟩
  refine ⟨h.housed.leaves hm hrun, fun sr hsr => ?_, fun sr hsr => ?_⟩
  · obtain ⟨hold, hne⟩ := hkept sr hsr
    rw [hrun, List.mem_filter]
    exact ⟨h.running sr hold, by simpa using hne⟩
  · obtain ⟨hold, hne⟩ := hkept sr hsr
    rw [partitionOf, hm.kv.other _ hne]
    exact h.records sr hold

/-- Part of the turn of a waiting request that has no partition yet. -/
structure SeatTurn (r : RequestId) (pass : Pass) (q : Option Nat) (pass' : Pass) : Prop where
  moves : Moves pass.sched r q pass'.sched
  running : pass'.sched.running = pass.sched.running
  output : pass'.output = pass.output

namespace SeatTurn

theorem seated (h : SeatTurn r pass q p₁) (hs : Seated pass.sched) : Seated p₁.sched :=
  hs.moves h.moves

theorem lookupPrefix_frame (hl : pass.lookupPrefix r = .ok p₁) :
    p₁.sched.running = pass.sched.running ∧ p₁.output = pass.output := by
  unfold Pass.lookupPrefix at hl
  dsimp only at hl
  split at hl
  · cases hl
    exact ⟨rfl, rfl⟩
  · split at hl
    · obtain ⟨res, -, hl⟩ := bind_eq_ok.mp hl
      cases hl
      exact ⟨rfl, rfl⟩
    · split at hl <;> cases hl <;> exact ⟨rfl, rfl⟩

theorem lookup (hs : Seated pass.sched) (hreq : r ∈ pass.sched.requests)
    (hr : pass.sched.partitionOf r = none) (hl : pass.lookupPrefix r = .ok p₁) : ∃ q, SeatTurn r pass q p₁ := by
  obtain ⟨q, hm⟩ := hs.lookup hreq hr hl
  obtain ⟨hrun, hout⟩ := lookupPrefix_frame hl
  exact ⟨q, hm, hrun, hout⟩

theorem offer (h : SeatTurn r pass q p₁) (ho : Pass.WaitingOffer p₁ r p₂ n) :
    SeatTurn r pass q p₂ := by
  cases ho with
  | share => exact h
  | lastToken =>
    refine ⟨h.moves.same ?_, h.running, h.output⟩
    dsimp only
    apply SameSeating.of_modify p₁.sched p₁.sched.kvCacheManager (.refl _)
    exact fun _ => rfl

theorem release (h : SeatTurn r pass q p₁) (hs : Seated pass.sched)
    (hl : p₁.releaseWaiting r = .ok p₂) : SeatTurn r pass none p₂ := by
  have hstep := WaitingStep.of_release (s := p₁.sched) hl
  exact ⟨h.moves.trans ((h.seated hs).releaseWaiting hl), hstep.core.running.trans h.running,
    hstep.output.trans h.output⟩

theorem allocate (h : SeatTurn r pass q p₁) (ha : p₁.allocate r n = .ok (b, p₂)) : ∃ q', SeatTurn r pass q' p₂ := by
  obtain ⟨sched, halloc, rfl, hallocated, -⟩ := Pass.allocate_spec ha
  have hrun := hallocated.core.running.trans h.running
  have hout := hallocated.output.trans h.output
  rcases allocate_seats halloc with ⟨-, hsame⟩ | ⟨-, -, p, -, hm⟩
  · exact ⟨q, h.moves.same hsame, hrun, hout⟩
  · exact ⟨some p, h.moves.trans hm, hrun, hout⟩

theorem waitingAllocation {n' : Nat} {hit : Bool} (h : SeatTurn r pass q p₁)
    (hs : Seated pass.sched) (ha : Pass.WaitingAllocation p₁ r n hit b n' p₂) :
    ∃ q', SeatTurn r pass q' p₂ := by
  cases ha with
  | direct ha => exact h.allocate ha
  | noShare _ ha hrel =>
    obtain ⟨q', h'⟩ := h.allocate ha
    exact ⟨none, h'.release hs hrel⟩
  | cold _ ha hrel _ ha' =>
    obtain ⟨q', h'⟩ := h.allocate ha
    exact (h'.release hs hrel).allocate ha'

/-- Giving everything back leaves the slots as they were. -/
theorem placed (h : SeatTurn r pass none p₁) (hp : Placed slots pass)
    (hr : pass.sched.partitionOf r = none) : Placed slots p₁ :=
  hp.stays (hp.housed.stays h.moves hr h.running) (h.moves.partitionOf_same hr) h.running
    (congrArg SchedulerOutput.scheduledRequests h.output)

/-- The allocation that succeeds puts the request into a free slot. -/
theorem admits (h : SeatTurn r pass q p₁) (hp : Placed slots pass)
    (hnd : pass.sched.running.Nodup) (hr : r ∉ pass.sched.running)
    (hslot : p₁.sched.hasSlot slots r n = true) (ha : p₁.allocate r n = .ok (true, p₂)) :
    ∃ q', SeatTurn r pass q' p₂ ∧ (pass.sched.kvCacheManager.hasGroups = true → q'.isSome) ∧
      ∀ p, q' = some p → pass.sched.slotsUsed p < slots := by
  obtain ⟨sched, halloc, rfl, hallocated, -⟩ := Pass.allocate_spec ha
  obtain ⟨q', hm, hsome, hfree⟩ :=
    hp.housed.admits hnd hr h.moves h.running hslot halloc
  exact ⟨q', ⟨hm, hallocated.core.running.trans h.running, hallocated.output.trans h.output⟩,
    hsome, hfree⟩

/-- A launched request enters the queue with its record. -/
theorem launch {k : Nat} (h : SeatTurn r pass q p₁) (hp : Placed slots pass)
    (hr : r ∉ pass.sched.running)
    (hsome : pass.sched.kvCacheManager.hasGroups = true → q.isSome)
    (hfree : ∀ p, q = some p → pass.sched.slotsUsed p < slots) :
    Placed slots (p₁.launch r k) := by
  have hsame : SameSeating p₁.sched (p₁.launch r k).sched := by
    refine ⟨.refl _, fun x => ?_, List.Subset.refl _⟩
    by_cases hx : x = r
    · subst hx
      rw [Pass.launch_object_self]
      rfl
    · rw [Pass.launch_object_ne _ _ hx]
  have hm := h.moves.same hsame
  have hrun : (p₁.launch r k).sched.running = pass.sched.running ++ [r] :=
    congrArg (· ++ [r]) h.running
  have hrecord : ((p₁.launch r k).scheduledRequest r k true).cachePartition =
      (p₁.launch r k).sched.partitionOf r := hm.seat.trans hm.kv.self.symm
  refine ⟨hp.housed.enters hr hm hrun hsome hfree, fun sr hsr => ?_, fun sr hsr => ?_⟩
  · rw [Pass.launch_scheduledRequests, h.output, List.mem_append, List.mem_singleton] at hsr
    rw [hrun, List.mem_append, List.mem_singleton]
    rcases hsr with hsr | rfl
    · exact .inl (hp.running sr hsr)
    · exact .inr rfl
  · rw [Pass.launch_scheduledRequests, h.output, List.mem_append, List.mem_singleton] at hsr
    rcases hsr with hsr | rfl
    · rw [partitionOf, hm.kv.other _ fun hid => hr (hid ▸ hp.running sr hsr)]
      exact hp.records sr hsr
    · exact hrecord

end SeatTurn

/-- The turn of a waiting request whose allocations find free slots. -/
theorem Placed.waitingTurn {outcome : Pass.WaitingOutcome} (h : Placed slots pass)
    (hnd : pass.sched.running.Nodup) (hr : r ∉ pass.sched.running)
    (hreq : r ∈ pass.sched.requests) (hfits : pass.turnFits slots r = true) (ht : Pass.WaitingTurn pass r outcome pass') :
    Placed slots pass' := by
  have hs := h.housed.seated
  have hnone : pass.sched.partitionOf r = none := by
    by_contra hsome
    exact hr (h.housed.owners r (Option.isSome_iff_ne_none.mpr hsome))
  have hslot : ∀ t k, (t, k) ∈ pass.attempts r → t.hasSlot slots r k = true := fun t k hmem =>
    List.all_eq_true.mp hfits (t, k) hmem
  cases ht with
  | @reject p₁ p₂ reason hl _ hrel =>
    obtain ⟨q, hturn⟩ := SeatTurn.lookup hs hreq hnone hl
    have hp := (hturn.release hs hrel).placed h hnone
    have hsame : SameSeating p₂.sched (p₂.reject r reason).sched := by
      refine ⟨.refl _, fun x => ?_, List.filter_subset_self _⟩
      by_cases hx : x = r
      · subst hx
        rw [Pass.reject_object_self]
        rfl
      · rw [Pass.reject_object_ne _ _ hx]
    exact hp.stays (hp.housed.same hsame rfl) hsame.partitionOf rfl rfl
  | defer hl _ _ _ hrel =>
    obtain ⟨q, hturn⟩ := SeatTurn.lookup hs hreq hnone hl
    exact (hturn.release hs hrel).placed h hnone
  | @launch p₁ p₂ p₃ numNew n' hl hok hoff halloc =>
    obtain ⟨q, hturn⟩ := SeatTurn.lookup hs hreq hnone hl
    have hoffer := hturn.offer hoff
    cases halloc with
    | direct ha _ =>
      obtain ⟨q', hadmitted, hsome, hfree⟩ := hoffer.admits h hnd hr
        (hslot _ _ (Pass.attempts_first hl hok hoff)) ha
      exact hadmitted.launch h hr hsome hfree
    | cold hhit ha hrel hpos ha' =>
      obtain ⟨q₁, hfailed⟩ := hoffer.allocate ha
      obtain ⟨q', hadmitted, hsome, hfree⟩ := (hfailed.release hs hrel).admits h hnd hr
        (hslot _ _ (Pass.attempts_cold hl hok hoff hhit ha hrel hpos)) ha'
      exact hadmitted.launch h hr hsome hfree
  | block hl _ hoff halloc hrel =>
    obtain ⟨q, hturn⟩ := SeatTurn.lookup hs hreq hnone hl
    obtain ⟨q', hfailed⟩ := (hturn.offer hoff).waitingAllocation hs halloc
    exact (hfailed.release hs hrel).placed h hnone

theorem Placed.runningTurn {done rest : List RequestId} {phase : Option Phase}
    (hp : Placed slots pass) (hI : RunningPhase s done (r :: rest) pass) (ht : s.Tracked)
    (hturn : Pass.RunningTurn phase pass r pass') : Placed slots pass' := by
  have hreq : r ∈ pass.sched.requests := by
    rw [hI.requests]
    exact ht r (.inl (by rw [← hI.split]; simp))
  cases hturn with
  | skip => exact hp
  | keep => exact ⟨hp.housed, hp.running, hp.records⟩
  | grant hs ha =>
    have hr := hI.running_of_share hs
    have hcore := (Pass.allocate_allocated ha).core
    exact (hp.allocate hr hreq ha).grant (hcore.running ▸ hr) (hcore.requests ▸ hreq)
  | short hs ha _ =>
    have hp₁ := hp.allocate (hI.running_of_share hs) hreq ha
    exact ⟨hp₁.housed, hp₁.running, hp₁.records⟩
  | @preempt numNew spec q₁ q₂ q₃ b hs ha hpre ha' =>
    have hr := hI.running_of_share hs
    have hp₁ := hp.allocate hr hreq ha
    have hall := Pass.allocate_allocated ha
    obtain ⟨v, hpre⟩ := Pass.preemptLowestPriority_spec hpre
    have hp₂ := hp₁.preempts hpre fun hno hmem => hno (by
      rw [hall.scheduledReqIds, hI.ids]
      rwa [hall.output] at hmem)
    have hr₂ := hpre.requester_running (by rwa [hall.core.running])
    have hreq₂ : r ∈ q₂.sched.requests := by
      obtain ⟨s₂, hfree, hsched₂⟩ := hpre.sched
      rw [hsched₂]
      exact (freeRequestBlocks_sameCore hfree).requests ▸ hall.core.requests ▸ hreq
    have hp₃ := hp₂.allocate hr₂ hreq₂ ha'
    have hcore := (Pass.allocate_allocated ha').core
    cases b with
    | true => exact hp₃.grant (hcore.running ▸ hr₂) (hcore.requests ▸ hreq₂)
    | false => exact ⟨hp₃.housed, hp₃.running, hp₃.records⟩

/-- A pass whose admissions find free slots. -/
theorem Housed.schedule (h : Housed slots s) (hq : Queues s) (ht : s.Tracked) (hfits : s.admissionsFit slots = true)
    (hsched : s.schedule = .ok pass) : Placed slots pass := by
  obtain ⟨p₁, hrun, hend⟩ := schedule_phases hsched
  unfold admissionsFit at hfits
  rw [hrun] at hfits
  obtain ⟨hI, hp⟩ := runningPhase_rule (P := Placed slots) hq
    (by
      obtain ⟨ph, hph⟩ := s.groupedCachePhase_snd
      rw [startPass, hph]
      exact ⟨h.same ⟨.refl _, fun _ => rfl, List.Subset.refl _⟩ rfl, by simp, by simp⟩)
    (fun done r rest pass pass' hI hp hturn => hp.runningTurn hI ht hturn) hrun
  have hclose : Placed slots p₁.closeRunning := by
    have hkept : p₁.closeRunning.sched.running = p₁.sched.running := by
      rw [hI.closed hq, hI.running]
    refine hp.stays (hp.housed.same ⟨.refl _, fun _ => rfl, List.Subset.refl _⟩ hkept) (fun _ => rfl) hkept rfl
  rcases hend with ⟨-, rfl⟩ | hloop
  · exact hclose
  · by_cases hdecode : s.groupedCachePhase.1 = some .decode
    · rw [Scheduler.schedule, hrun] at hsched
      replace hsched : (if s.groupedCachePhase.1 = some .decode then .ok p₁.closeRunning
        else p₁.closeRunning.scheduleWaiting [] p₁.closeRunning.sched.waiting) = .ok pass := hsched
      rw [if_pos hdecode] at hsched
      cases hsched
      exact hclose
    · rw [Bool.or_eq_true, decide_eq_true_eq] at hfits
      refine Pass.waitingLoop_rule_of (C := Pass.turnFits slots)
        (I := fun rem queue pass => ∃ admitted rejected,
          WaitingPhase s admitted rejected rem queue pass ∧ Placed slots pass)
        (J := fun pass => Placed slots pass) ?_ ?_ ?_ hloop (hfits.resolve_left hdecode)
        ⟨[], [], hI.waitingPhase hq, hclose⟩
      · rintro rem r queue pass ⟨a, b, hw, hp⟩ -
        exact ⟨a, b, hw.skip, hp⟩
      · rintro rem r queue pass outcome pass' ⟨a, b, hw, hp⟩ hnew hC hturn
        obtain ⟨a', b', hw'⟩ := hw.turn hq hnew hturn
        obtain ⟨hwaits, -, hnr⟩ := hw.waits hq hnew
        have hnd : pass.sched.running.Nodup := by
          rw [hw.running]
          refine (hq.running_nodup.filter _).append hw.admitted_nodup fun x hx hxa => ?_
          exact hq.disjoint x (List.mem_filter.mp hx).1 (hw.admitted_waiting x hxa)
        have hreq : r ∈ pass.sched.requests := by
          rw [hw.requests, List.mem_filter]
          exact ⟨ht r (.inr hwaits.waiting), by simpa using hnr⟩
        exact ⟨a', b', hw', hp.waitingTurn hnd (hw.not_running hq hnew) hreq hC hturn⟩
      · rintro rem queue pass ⟨a, b, -, hp⟩
        exact hp.stays (hp.housed.same ⟨.refl _, fun _ => rfl, List.Subset.refl _⟩ rfl) (fun _ => rfl) rfl rfl

end PassSteps

section AfterStep
variable {output : SchedulerOutput}

/-- A request leaves the running queue after its blocks were freed. -/
theorem Housed.freed {t : Scheduler} (h : Housed slots s) (hf : s.freeRequestBlocks r = .ok t)
    (hs : SameSeating t s') (hrun : s'.running = s.running.filter (· ≠ r)) : Housed slots s' :=
  h.leaves ((h.seated.free hf).same hs) hrun

theorem Housed.modify {f : Request → Request} (h : Housed slots s)
    (hf : ∀ q, (f q).seat = q.seat) : Housed slots (s.modify r f) :=
  h.same (sameSeating_modify s r hf) rfl

theorem Housed.abort (h : Housed slots s) (ha : s.abortRequest r = .ok s') : Housed slots s' := by
  unfold abortRequest at ha
  split at ha
  · cases ha
    exact h
  · obtain ⟨t, hf, ha⟩ := bind_eq_ok.mp ha
    cases ha
    have h₁ : Housed slots (s.modify r fun request => { request with status := .finishedAborted }) :=
      h.modify fun _ => rfl
    refine h₁.freed hf ⟨.refl _, fun _ => rfl, List.filter_subset_self _⟩ ?_
    exact congrArg (List.filter _) (freeRequestBlocks_sameCore hf).running

theorem Housed.finish {status : RequestStatus} (h : Housed slots s)
    (ha : s.finishRequest r status = .ok s') : Housed slots s' := by
  unfold finishRequest at ha
  split at ha
  · cases ha
    exact h
  · obtain ⟨t, hf, ha⟩ := bind_eq_ok.mp ha
    cases ha
    have h₁ : Housed slots (s.modify r fun request => { request with status }) :=
      h.modify fun _ => rfl
    refine h₁.freed hf ⟨.refl _, fun _ => rfl, List.Subset.refl _⟩ ?_
    exact congrArg (List.filter _) (freeRequestBlocks_sameCore hf).running

theorem Housed.retire (h : Housed slots s) (hr : r ∈ s.requests) (hret : retire s r = .ok s') :
    Housed slots s' := by
  unfold Scheduler.retire at hret
  rw [if_pos hr] at hret
  obtain ⟨t, hf, hret⟩ := bind_eq_ok.mp hret
  cases hret
  refine h.freed hf ⟨.refl _, fun _ => rfl, List.Subset.refl _⟩ ?_
  exact congrArg (List.filter _) (freeRequestBlocks_sameCore hf).running

/-- Applying the result of a step and retiring what has finished. -/
theorem Housed.update {tokens : StepTokens} {outs : List RequestOutput} (h : Housed slots s)
    (hq : Queues s) (ht : s.Tracked)
    (hnd : (output.scheduledRequests.map (·.requestId)).Nodup)
    (hu : s.updateFromOutput output tokens = .ok (s', outs)) : Housed slots s' := by
  unfold updateFromOutput at hu
  obtain ⟨⟨mid, outs₁⟩, hfold, hu⟩ := bind_eq_ok.mp hu
  obtain ⟨s₂, hret, hu⟩ := bind_eq_ok.mp hu
  cases hu
  have hmid : SameSeating s mid := by
    refine foldlM_keeps (I := fun acc : Scheduler × List RequestOutput => SameSeating s acc.1)
      ?_ _ _ _ hfold (.refl s)
    exact fun sr acc acc' hone hI => hI.trans (applyScheduled_seating hone)
  obtain ⟨ha, -⟩ := applyScheduled_fold _ hnd hfold
  dsimp only at ha
  have hstatus : ∀ x ∈ mid.running, (mid.object x).status.isFinished = false := by
    intro x hx
    rw [ha.running] at hx
    have hs := hq.running_status x hx
    by_cases hxr : x ∈ output.scheduledRequests.map (·.requestId)
    · obtain ⟨sr, hsr, rfl⟩ := List.mem_map.mp hxr
      rw [(ha.applied sr hsr (by rw [hs]; decide)).status, applied_status, hs]
      rfl
    · rw [(ha.other x hxr).status, hs]
      rfl
  obtain ⟨-, -, hrun, hreq, -, -, hfin⟩ := finishRunning_fold mid.running
    (by rw [ha.running]; exact hq.running_nodup) (mid, outs₁, []) hstatus
  have hsame := finishRunning_seating mid.running (mid, outs₁, [])
  generalize mid.running.foldl finishRunning (mid, outs₁, []) = acc at *
  dsimp only at hrun hreq hfin hsame
  have hstart : Housed slots acc.1 ∧ acc.1.requests = s.requests :=
    ⟨h.same (hmid.trans hsame) (hrun.trans ha.running), hreq.trans ha.requests⟩
  have hfinished : ∀ x ∈ acc.2.2, x ∈ s.requests := by
    intro x hx
    rw [hfin, List.nil_append] at hx
    have hx' := (List.mem_filter.mp hx).1
    rw [ha.running] at hx'
    exact ht x (.inl hx')
  have hend := foldlM_keeps_mem (I := fun t : Scheduler => Housed slots t ∧ t.requests = s.requests)
    acc.2.2 (fun x hx t t' hone ⟨hI, hreq⟩ => ⟨hI.retire (by rw [hreq]; exact hfinished x hx) hone,
      (retire_spec hone).requests.trans hreq⟩) _ _ hret hstart
  exact hend.1

/-- A new request has no partition. -/
theorem Housed.add {request stored : Request} (h : Housed slots s) (hfresh : request.Fresh)
    (hstored : Accepted s request stored) (hnr : request.requestId ∉ s.running) :
    Housed slots { s with
      object := Function.update s.object request.requestId stored
      waiting := s.waiting ++ [request.requestId]
      requests := s.requests ++ [request.requestId] } := by
  have hnone : s.partitionOf request.requestId = none := by
    by_contra hsome
    exact hnr (h.owners _ (Option.isSome_iff_ne_none.mpr hsome))
  have hseat : stored.cachePartition = none := by
    rw [hstored.eq, hfresh.defaults]
  have hself : Function.update s.object request.requestId stored request.requestId = stored :=
    Function.update_self _ _ _
  have hother : ∀ x, x ≠ request.requestId →
      Function.update s.object request.requestId stored x = s.object x :=
    fun x hx => Function.update_of_ne hx _ _
  refine h.congr ⟨h.seated.agreed, h.seated.bare, fun x hx => ?_, fun x hx => ?_⟩
    (fun _ => rfl) rfl rfl
  · dsimp only at hx ⊢
    by_cases hxr : x = request.requestId
    · subst hxr
      rw [hself, hseat]
      exact hnone.symm
    · rw [hother x hxr]
      rw [List.mem_append, List.mem_singleton] at hx
      exact h.seated.seat x (hx.resolve_right hxr)
  · have hne : x ≠ request.requestId := by
      rintro rfl
      replace hx : (s.partitionOf request.requestId).isSome := hx
      rw [hnone] at hx
      cases hx
    dsimp only
    rw [hother x hne]
    exact h.seated.tables x hx

theorem Housed.dropBatches {batches : List SchedulerOutput} (h : Housed slots s)
    (hd : Pipeline.dropBatches s batches = .ok s') : Housed slots s' := by
  unfold Pipeline.dropBatches at hd
  obtain ⟨⟨t, seen⟩, hfold, hd⟩ := bind_eq_ok.mp hd
  cases hd
  refine foldlM_keeps (I := fun acc : Scheduler × List RequestId => Housed slots acc.1)
    ?_ _ _ _ hfold h
  rintro sr ⟨t, seen⟩ acc hone hI
  unfold Pipeline.dropScheduled at hone
  obtain ⟨t₁, hrel, hone⟩ := bind_eq_ok.mp hone
  have h₁ : Housed slots t₁ := hI.same (releaseScheduledGroupBlocks_seating hrel)
    (releaseScheduledGroupBlocks_sameCore hrel).running
  split at hone
  · cases hone
    exact h₁
  · obtain ⟨t₂, habort, hone⟩ := bind_eq_ok.mp hone
    cases hone
    exact h₁.abort habort

end AfterStep

namespace Pipeline

/-- The admissions of a dispatch find free slots. -/
def AdmissionsFit (slots : Nat) (p : Pipeline) : PipelineOp → Pipeline → Prop
  | .dispatch, _ => p.sched.admissionsFit slots = true
  | _, _ => True

/-- The rows of a step in one cache partition. -/
def rowsIn (output : SchedulerOutput) (partition : Nat) : Nat :=
  output.scheduledRequests.countP fun sr => decide (sr.cachePartition = some partition)

/-- The running requests and every step in flight fit the slots. -/
structure InSlots (slots : Nat) (p : Pipeline) : Prop where
  housed : Housed slots p.sched
  rows : ∀ output ∈ p.inFlight, ∀ partition, rowsIn output partition ≤ slots

/-- The records of a pass belong to different running requests of their partitions. -/
theorem rowsIn_le {pass : Pass} (h : Placed slots pass)
    (hnd : (pass.output.scheduledRequests.map (·.requestId)).Nodup) (partition : Nat) :
    rowsIn pass.output partition ≤ slots := by
  refine le_trans ?_ (h.housed.room partition)
  have hrows : rowsIn pass.output partition =
      (pass.output.scheduledRequests.map (·.requestId)).countP
        fun r => decide (pass.sched.partitionOf r = some partition) := by
    rw [List.countP_map]
    refine List.countP_congr fun sr hsr => ?_
    rw [Function.comp_apply, h.records sr hsr]
  rw [hrows]
  refine (List.Nodup.subperm hnd fun r hr => ?_).countP_le _
  obtain ⟨sr, hsr, rfl⟩ := List.mem_map.mp hr
  exact h.running sr hsr

theorem InSlots.start {p : Pipeline} (h : p.Started) (slots : Nat) : InSlots slots p := by
  obtain ⟨pyHash, groups, batch, page, blocks, kv, config, object, -, hkv, hnew⟩ := h.sched
  have hfresh : kv.Agreed ∧ kv.groupRequestPartitions = ∅ := by
    unfold KvCacheManager.initializePools at hkv
    split at hkv
    · cases hkv
    · split at hkv
      · obtain ⟨hb, -, hparts, -⟩ := KvCacheManager.initGroups_spec rfl rfl hkv
        exact ⟨hb.assigned, hparts⟩
      · unfold KvCacheManager.initBlocks at hkv
        split at hkv
        · split at hkv <;> cases hkv
          exact ⟨by simp [KvCacheManager.Agreed], rfl⟩
        · cases hkv
          exact ⟨by simp [KvCacheManager.Agreed], rfl⟩
  unfold Scheduler.new at hnew
  split at hnew
  · cases hnew
  · have hs := Except.ok.inj hnew
    have hnone : ∀ r, p.sched.partitionOf r = none := by
      intro r
      rw [← hs, partitionOf, KvCacheManager.groupRequestPartition, hfresh.2]
      rfl
    refine ⟨⟨⟨?_, fun _ => hnone, ?_, ?_⟩, ?_, ?_, ?_⟩, by rw [h.inFlight]; simp⟩
    · rw [← hs]
      exact hfresh.1
    · rw [← hs]
      simp
    · intro r hr
      rw [hnone] at hr
      cases hr
    · intro r hr
      rw [hnone] at hr
      cases hr
    · rw [← hs]
      simp
    · rw [← hs]
      simp [slotsUsed]

theorem InSlots.step {slots : Nat} {p p' : Pipeline} {op : PipelineOp} (h : InSlots slots p)
    (hw : WellFormed p) (hstep : Step p op p') (hfits : AdmissionsFit slots p op p') :
    InSlots slots p' := by
  cases hstep with
  | add hfresh hid hadd =>
    obtain ⟨stored, hstored, rfl⟩ := addRequest_spec hadd
    refine ⟨h.housed.add hfresh hstored fun hr => hid ?_, h.rows⟩
    exact hw.issued _ (hw.tracked _ (.inl hr))
  | @dispatch pass s output hready hsched hne hadv =>
    have hp := h.housed.schedule hw.queues hw.tracked hfits hsched
    obtain ⟨admitted, rejected, ha⟩ := hw.afterPass hready hsched
    obtain ⟨hsame, hparts⟩ := advanceAfterSchedule_seating hadv
    have hrun := (ha.advances hw.queues hadv).running
    refine ⟨hp.housed.same hsame hrun, fun out hout => ?_⟩
    rcases List.mem_append.mp hout with hout | hout
    · exact h.rows out hout
    · intro partition
      rw [List.mem_singleton.mp hout]
      have hcount : rowsIn output partition = rowsIn pass.output partition := by
        have := congrArg (List.countP fun p => decide (p = some partition)) hparts
        rwa [List.countP_map, List.countP_map] at this
      rw [hcount]
      exact rowsIn_le hp ha.summary.records_nodup partition
  | idle hready hsched hempty =>
    exact ⟨(h.housed.schedule hw.queues hw.tracked hfits hsched).housed, h.rows⟩
  | @complete output rest tokens s outs hfl hupd =>
    have hnd := hw.nodup output (by simp [hfl])
    exact ⟨h.housed.update hw.queues hw.tracked hnd hupd, fun out hout =>
      h.rows out (by simp [hfl, hout])⟩
  | finish hr hfin => exact ⟨h.housed.finish hfin, h.rows⟩
  | abort habort => exact ⟨h.housed.abort habort, h.rows⟩
  | discard hne hdrop => exact ⟨h.housed.dropBatches hdrop, by simp⟩

theorem inSlots_of_reachable {slots : Nat} {p : Pipeline}
    (h : (pipelineMachine.restrict (AdmissionsFit slots)).Reachable p) : InSlots slots p :=
  h.invariant (fun _ hs => .start hs slots) fun _ _ _ hr hI hstep =>
    hI.step (wellFormed_of_reachable (Machine.restrict_reachable hr)) hstep.1 hstep.2

end Pipeline

end PyptoServing.Sched
