import PyptoServing.Sched.Coverage

/-!
# The phases alternate

A step that may not mix the phases runs the phase that is ready, or the preferred one when
both are; the preference is then the other phase. Nothing but a pass changes the preference,
so ready work of one kind is passed over at most once in a row.
-/
namespace PyptoServing.Sched

open Lib Lib.Fallible Memory Pass Scheduler

variable {s s' : Scheduler} {pass pass' : Pass} {r : RequestId}

/-- The preference is kept. -/
def KeepsPhase (s s' : Scheduler) : Prop := s'.nextGroupedCachePhase = s.nextGroupedCachePhase

theorem retainScheduled_phase {sr sr' : ScheduledRequest}
    (h : s.retainScheduled sr = .ok (s', sr')) : KeepsPhase s s' :=
  (retainScheduled_spec h).1.phase

theorem advanceAfterSchedule_phase {output output' : SchedulerOutput}
    (h : s.advanceAfterSchedule output = .ok (s', output')) : KeepsPhase s s' := by
  unfold advanceAfterSchedule at h
  split at h
  · cases h
    rfl
  · obtain ⟨⟨s₁, records⟩, hfold, h⟩ := bind_eq_ok.mp h
    cases h
    refine foldlM_keeps (I := fun acc : Scheduler × List ScheduledRequest =>
      acc.1.nextGroupedCachePhase = s.nextGroupedCachePhase) ?_ _ _ _ hfold rfl
    rintro sr ⟨t, acc⟩ ⟨t', acc'⟩ hone hI
    obtain ⟨⟨t₁, sr₁⟩, hret, hone⟩ := bind_eq_ok.mp hone
    cases hone
    exact (retainScheduled_phase hret).trans hI

theorem clearTerminalPrefill_phase (s : Scheduler) (sr : ScheduledRequest) :
    KeepsPhase s (s.clearTerminalPrefill sr) := by
  unfold clearTerminalPrefill
  dsimp only
  split <;> rfl

theorem applyOutput_phase {sr : ScheduledRequest} {tokens : List Int} {outs : List RequestOutput}
    (h : s.applyOutput sr tokens = .ok (s', outs)) : KeepsPhase s s' := by
  unfold applyOutput at h
  split at h
  · obtain ⟨s₁, hpub, h⟩ := bind_eq_ok.mp h
    obtain ⟨s₂, hrel, h⟩ := bind_eq_ok.mp h
    cases h
    exact (releaseScheduledGroupBlocks_sameCore hrel).phase.trans
      (publishScheduled_sameCore hpub).phase
  · unfold applySyncOutput at h
    dsimp only at h
    split at h
    · obtain ⟨s₁, hpub, h⟩ := bind_eq_ok.mp h
      have hs := (cacheCompletedBlocks_sameCore hpub).phase
      split at h <;> (cases h; exact hs)
    · obtain ⟨s₁, hpub, h⟩ := bind_eq_ok.mp h
      cases h
      exact (cacheCompletedBlocks_sameCore hpub).phase

theorem finishRunning_phase (l : List RequestId)
    (acc : Scheduler × List RequestOutput × List RequestId) :
    KeepsPhase acc.1 (l.foldl finishRunning acc).1 := by
  induction l generalizing acc with
  | nil => rfl
  | cons r l ih =>
    refine (ih _).trans ?_
    unfold finishRunning
    dsimp only
    split
    · rfl
    · split <;> rfl

theorem updateFromOutput_phase {output : SchedulerOutput} {tokens : StepTokens}
    {outs : List RequestOutput} (h : s.updateFromOutput output tokens = .ok (s', outs)) :
    KeepsPhase s s' := by
  unfold updateFromOutput at h
  obtain ⟨⟨s₁, outs₁⟩, hfold, h⟩ := bind_eq_ok.mp h
  obtain ⟨s₂, hret, h⟩ := bind_eq_ok.mp h
  cases h
  have happlied : s₁.nextGroupedCachePhase = s.nextGroupedCachePhase := by
    refine foldlM_keeps (I := fun acc : Scheduler × List RequestOutput =>
      acc.1.nextGroupedCachePhase = s.nextGroupedCachePhase) ?_ _ _ _ hfold rfl
    rintro sr ⟨t, acc⟩ ⟨t', acc'⟩ hone hI
    unfold applyScheduled at hone
    dsimp only at hone
    split at hone
    · obtain ⟨t₁, hrel, hone⟩ := bind_eq_ok.mp hone
      cases hone
      exact (releaseScheduledGroupBlocks_sameCore hrel).phase.trans hI
    · obtain ⟨⟨t₁, new⟩, happ, hone⟩ := bind_eq_ok.mp hone
      cases hone
      exact ((applyOutput_phase happ).trans (clearTerminalPrefill_phase t sr)).trans hI
  exact ((retire_fold _ hret).phase.trans (finishRunning_phase _ _)).trans happlied

theorem abortRequest_phase (h : s.abortRequest r = .ok s') : KeepsPhase s s' := by
  unfold abortRequest at h
  split at h
  · cases h
    rfl
  · obtain ⟨s₁, hfree, h⟩ := bind_eq_ok.mp h
    cases h
    exact (freeRequestBlocks_sameCore hfree).phase

theorem finishRequest_phase {status : RequestStatus} (h : s.finishRequest r status = .ok s') :
    KeepsPhase s s' := by
  unfold finishRequest at h
  split at h
  · cases h
    rfl
  · obtain ⟨s₁, hfree, h⟩ := bind_eq_ok.mp h
    cases h
    exact (freeRequestBlocks_sameCore hfree).phase

theorem dropBatches_phase {batches : List SchedulerOutput}
    (h : Pipeline.dropBatches s batches = .ok s') : KeepsPhase s s' := by
  unfold Pipeline.dropBatches at h
  obtain ⟨⟨s₁, seen⟩, hfold, h⟩ := bind_eq_ok.mp h
  cases h
  refine foldlM_keeps (I := fun acc : Scheduler × List RequestId =>
    acc.1.nextGroupedCachePhase = s.nextGroupedCachePhase) ?_ _ _ _ hfold rfl
  rintro sr ⟨t, acc⟩ ⟨t', acc'⟩ hone hI
  unfold Pipeline.dropScheduled at hone
  obtain ⟨t₁, hrel, hone⟩ := bind_eq_ok.mp hone
  have hrel := (releaseScheduledGroupBlocks_sameCore hrel).phase.trans hI
  split at hone
  · cases hone
    exact hrel
  · obtain ⟨t₂, habort, hone⟩ := bind_eq_ok.mp hone
    cases hone
    exact (abortRequest_phase habort).trans hrel

/-- A preemption keeps the preference. -/
theorem preempts_phase {v : RequestId} (h : Preempts pass r v pass') :
    KeepsPhase pass.sched pass'.sched := by
  obtain ⟨s₁, hfree, hsched⟩ := h.sched
  rw [KeepsPhase, hsched]
  exact (freeRequestBlocks_sameCore hfree).phase

theorem runningTurn_phase {phase : Option Phase} (h : RunningTurn phase pass r pass') :
    KeepsPhase pass.sched pass'.sched := by
  cases h with
  | skip => rfl
  | keep => rfl
  | grant _ ha => exact (allocate_allocated ha).core.phase
  | short _ ha _ => exact (allocate_allocated ha).core.phase
  | @preempt _ _ _ _ _ b _ ha hp ha' =>
    obtain ⟨v, hp⟩ := preemptLowestPriority_spec hp
    have hkeep := ((allocate_allocated ha').core.phase.trans (preempts_phase hp)).trans
      (allocate_allocated ha).core.phase
    cases b <;> exact hkeep

theorem waitingResult_phase {outcome : WaitingOutcome}
    (h : WaitingResult s pass r outcome pass') : KeepsPhase pass.sched pass'.sched := by
  cases h with
  | admitted ha => exact ha.step.core.phase
  | rejected _ _ hs => exact hs.core.phase
  | kept _ hs => exact hs.core.phase

namespace Scheduler

/-- The running requests that a pass could schedule. -/
def ready (s : Scheduler) : List RequestId :=
  s.running.filter fun r =>
    (s.object r).status ≠ .preempted ∧ ¬ (s.object r).terminalPrefillInFlight ∧
      0 < (s.object r).numNewTokensNeeded

def hasPrefill (s : Scheduler) : Bool :=
  (s.ready.any fun r => (s.object r).isPrefill) ||
    (!s.waiting.isEmpty && decide (s.running.length < s.config.maxNumRunningReqs))

def hasDecode (s : Scheduler) : Bool := s.ready.any fun r => !(s.object r).isPrefill

/-- There is work of a phase to choose. -/
def hasWorkOf (s : Scheduler) : Phase → Bool
  | .prefill => s.hasPrefill
  | .decode => s.hasDecode

/-- The other phase. -/
def otherPhase : Phase → Phase
  | .prefill => .decode
  | .decode => .prefill

theorem groupedCachePhase_eq (h : s.config.requiresHomogeneousPrefillDecode = true) :
    s.groupedCachePhase =
      if !s.hasPrefill && !s.hasDecode then (none, s)
      else
        let phase :=
          if s.hasPrefill && s.hasDecode then s.nextGroupedCachePhase
          else if s.hasPrefill then .prefill
          else .decode
        (some phase,
          { s with nextGroupedCachePhase := if phase = .prefill then .decode else .prefill }) := by
  unfold groupedCachePhase
  rw [if_neg (not_not.mpr h)]
  rfl

/-- Work of one phase that is passed over is preferred afterwards, and was not before. -/
theorem groupedCachePhase_passed {ph : Phase}
    (h : s.config.requiresHomogeneousPrefillDecode = true)
    (hready : s.hasWorkOf ph = true) :
    s.groupedCachePhase.1 = some ph ∨
      (s.groupedCachePhase.2.nextGroupedCachePhase = ph ∧
        s.nextGroupedCachePhase = otherPhase ph) := by
  rw [groupedCachePhase_eq h]
  cases ph with
  | prefill =>
    have hprefill : s.hasPrefill = true := hready
    rw [hprefill]
    cases hdecode : s.hasDecode <;> cases hnext : s.nextGroupedCachePhase <;>
      simp [otherPhase]
  | decode =>
    have hdecode : s.hasDecode = true := hready
    rw [hdecode]
    cases hprefill : s.hasPrefill <;> cases hnext : s.nextGroupedCachePhase <;>
      simp [otherPhase]

theorem mem_ready : r ∈ s.ready ↔ r ∈ s.running ∧ (s.object r).status ≠ .preempted ∧
    (s.object r).terminalPrefillInFlight = false ∧ 0 < (s.object r).numNewTokensNeeded := by
  unfold ready
  simp [List.mem_filter]

/-- Without a choice there is nothing to run. -/
theorem ready_of_none (h : s.config.requiresHomogeneousPrefillDecode = true)
    (hnone : s.groupedCachePhase.1 = none) : s.ready = [] := by
  rw [groupedCachePhase_eq h] at hnone
  split at hnone
  next hnot =>
    rw [Bool.and_eq_true] at hnot
    obtain ⟨hprefill, hdecode⟩ := hnot
    rw [List.eq_nil_iff_forall_not_mem]
    intro r hr
    cases hp : (s.object r).isPrefill with
    | true =>
      have hany : s.ready.any (fun r => (s.object r).isPrefill) = true :=
        List.any_eq_true.mpr ⟨r, hr, hp⟩
      simp [hasPrefill, hany] at hprefill
    | false =>
      have hany : s.hasDecode = true := List.any_eq_true.mpr ⟨r, hr, by rw [hp]; rfl⟩
      rw [hany] at hdecode
      cases hdecode
  next => cases hnone

end Scheduler

/-- The records of a pass are of the phase that it chose. -/
def InPhase (s : Scheduler) (pass : Pass) : Prop :=
  ∀ sr ∈ pass.output.scheduledRequests,
    sr.isPrefill = decide (s.groupedCachePhase.1 ≠ some .decode)

theorem InPhase.congr (h : InPhase s pass)
    (hrecords : pass'.output.scheduledRequests = pass.output.scheduledRequests) :
    InPhase s pass' := by
  unfold InPhase
  rw [hrecords]
  exact h

theorem InPhase.append {sr : ScheduledRequest} (h : InPhase s pass)
    (hrecords : pass'.output.scheduledRequests = pass.output.scheduledRequests ++ [sr])
    (hsr : sr.isPrefill = decide (s.groupedCachePhase.1 ≠ some .decode)) : InPhase s pass' := by
  intro x hx
  rw [hrecords] at hx
  rcases List.mem_append.mp hx with hx | hx
  · exact h x hx
  · rw [List.mem_singleton.mp hx]
    exact hsr

theorem InPhase.preempts {v : RequestId} (h : InPhase s pass) (hp : Preempts pass r v pass') :
    InPhase s pass' := by
  intro sr hsr
  rw [hp.scheduled] at hsr
  split at hsr
  · exact h sr (List.mem_of_mem_filter hsr)
  · exact h sr hsr

/-- A running request that is given a share belongs to the phase. -/
theorem share_inPhase {done rest : List RequestId} {numNew spec : Nat} (hq : Queues s)
    (hhom : s.config.requiresHomogeneousPrefillDecode = true)
    (h : RunningPhase s done (r :: rest) pass)
    (hs : RunningShare s.groupedCachePhase.1 pass r numNew spec pass.tokenBudget) :
    (pass.sched.object r).isPrefill = decide (s.groupedCachePhase.1 ≠ some .decode) := by
  obtain ⟨hrun, -, hsame, hlim, -⟩ := h.share hs
  cases hphase : s.groupedCachePhase.1 with
  | some ph =>
    rw [hs.inPhase ph hphase]
    cases ph <;> rfl
  | none =>
    have hmem : r ∈ s.ready := by
      refine mem_ready.mpr ⟨hrun, ?_, ?_, ?_⟩
      · rw [hq.running_status r hrun]
        decide
      · rw [← hsame.terminalPrefillInFlight]
        exact hs.noBarrier
      · refine lt_of_lt_of_le hs.pos ?_
        rw [hlim]
        exact limitScheduledTokens_le _ _ _
    rw [ready_of_none hhom hphase] at hmem
    cases hmem

theorem InPhase.runningTurn {done rest : List RequestId} (hq : Queues s)
    (hhom : s.config.requiresHomogeneousPrefillDecode = true)
    (hphase : RunningPhase s done (r :: rest) pass) (h : InPhase s pass)
    (ht : RunningTurn s.groupedCachePhase.1 pass r pass') : InPhase s pass' := by
  cases ht with
  | skip => exact h
  | keep => exact h
  | grant hs ha =>
    have h₁ : InPhase s _ := h.congr (congrArg _ (allocate_allocated ha).output)
    exact h₁.append rfl (share_inPhase hq hhom hphase hs)
  | short _ ha _ => exact h.congr (congrArg _ (allocate_allocated ha).output)
  | @preempt _ _ p₁ p₂ p₃ b hs ha hp ha' =>
    obtain ⟨v, hp⟩ := preemptLowestPriority_spec hp
    have h₁ : InPhase s p₁ := h.congr (congrArg _ (allocate_allocated ha).output)
    have h₃ : InPhase s p₃ :=
      (h₁.preempts hp).congr (congrArg _ (allocate_allocated ha').output)
    cases b with
    | false => exact h₃
    | true => exact h₃.append rfl (share_inPhase hq hhom hphase hs)

theorem InPhase.waitingResult {outcome : WaitingOutcome} (h : InPhase s pass)
    (hphase : s.groupedCachePhase.1 ≠ some .decode)
    (ht : WaitingResult s pass r outcome pass') : InPhase s pass' := by
  have hstep : ∀ {c : Nat} {p : Pass}, WaitingStep s pass r c p → InPhase s p :=
    fun hs => h.congr (congrArg _ hs.output)
  cases ht with
  | admitted ha =>
    exact (hstep ha.step).append (launch_scheduledRequests _ _ _) (decide_eq_true hphase).symm
  | rejected _ _ hs =>
    have h₁ := hstep hs
    exact h₁.congr rfl
  | kept _ hs => exact hstep hs

/-- A pass keeps to its phase and to the rotated preference. -/
theorem schedule_inPhase (hq : Queues s)
    (hhom : s.config.requiresHomogeneousPrefillDecode = true) (h : s.schedule = .ok pass) :
    InPhase s pass ∧ KeepsPhase s.groupedCachePhase.2 pass.sched := by
  obtain ⟨p₁, hrun, hend⟩ := schedule_phases h
  obtain ⟨hphase, hin, hkeep⟩ := runningPhase_rule
    (P := fun pass => InPhase s pass ∧ KeepsPhase s.groupedCachePhase.2 pass.sched) hq
    ⟨fun _ hsr => absurd hsr List.not_mem_nil, rfl⟩
    (fun done r rest pass pass' hI ⟨hin, hkeep⟩ ht =>
      ⟨hin.runningTurn hq hhom hI ht, (runningTurn_phase ht).trans hkeep⟩) hrun
  by_cases hdecode : s.groupedCachePhase.1 = some .decode
  · have hpass : pass = p₁.closeRunning := by
      unfold schedule at h
      obtain ⟨p₂, hrun', h⟩ := bind_eq_ok.mp h
      cases hrun.symm.trans hrun'
      dsimp only at h
      rw [if_pos hdecode] at h
      exact (Except.ok.inj h).symm
    rw [hpass]
    exact ⟨hin, hkeep⟩
  · rcases hend with ⟨hdec, -⟩ | hloop
    · exact absurd hdec hdecode
    · refine waitingPhase_rule
        (P := fun pass => InPhase s pass ∧ KeepsPhase s.groupedCachePhase.2 pass.sched) hq ?_ ?_
        hloop (hphase.waitingPhase hq) ⟨hin, hkeep⟩
      · intro admitted rejected remaining r queue pass outcome pass' hI hnew _ ⟨hin, hkeep⟩ ht
        obtain ⟨hw, -, -⟩ := hI.waits hq hnew
        have hresult := hw.result ht
        exact ⟨hin.waitingResult hdecode hresult, (waitingResult_phase hresult).trans hkeep⟩
      · exact fun pass waiting ⟨hin, hkeep⟩ => ⟨hin, hkeep⟩

theorem confirmed_terminal {q : Request} {share : StepShare}
    (h : (q.confirmed share).terminalPrefillInFlight = true) :
    q.terminalPrefillInFlight = true ∧ ¬ (share.isPrefill = true ∧
      q.numPromptTokens ≤ share.numComputedTokens + share.numNewTokens) := by
  unfold Request.confirmed at h
  split at h
  · cases h
  next hnot => exact ⟨h, hnot⟩

theorem applied_terminal (q : Request) (config : SchedulerConfig) (share : StepShare)
    (tokens : List Int) : (q.applied config share tokens).terminalPrefillInFlight =
      (q.confirmed share).terminalPrefillInFlight := by
  unfold Request.applied
  split
  · unfold Request.reconciled settle
    dsimp only
    split <;> rw [appendTokens_fst]
  · rw [stepped_eq]
    by_cases hp : share.isPrefill = true
    · by_cases hc : (q.confirmed share).numComputedTokens + share.numNewTokens <
          (q.confirmed share).numPromptTokens
      · rw [steppedFrom_chunk tokens hp hc]
      · rw [steppedFrom_prompt tokens hp hc, appendTokens_fst]
    · rw [steppedFrom_decode tokens hp, appendTokens_fst]

/-- A running request behind the barrier has its terminal prefill in flight. -/
structure Barred (config : SchedulerConfig) (f : Flight) : Prop where
  share : f.place = .running → f.request.terminalPrefillInFlight = true →
    ∃ share ∈ f.shares, share.isPrefill = true ∧
      f.request.numPromptTokens ≤ share.numComputedTokens + share.numNewTokens
  sync : config.asyncScheduling = false → f.place = .running →
    f.request.terminalPrefillInFlight = false

namespace Barred
variable {config : SchedulerConfig} {q : Request} {share : StepShare} {shares : List StepShare}

theorem advanced_terminal (hbar : q.terminalPrefillInFlight = false)
    (h : (q.advanced config share).terminalPrefillInFlight = true) :
    config.asyncScheduling = true ∧ share.isPrefill = true ∧
      q.numPromptTokens ≤ share.numComputedTokens + share.numNewTokens := by
  unfold Request.advanced at h
  split at h
  next hasync =>
    simp only [hbar, Bool.false_or, Bool.and_eq_true, decide_eq_true_eq] at h
    exact ⟨hasync, h.1.1, h.1.2⟩
  next =>
    rw [hbar] at h
    cases h

theorem grant (hbar : q.terminalPrefillInFlight = false) :
    Barred config ⟨q.advanced config share, .running, shares ++ [share]⟩ := by
  have hprompt : (q.advanced config share).numPromptTokens = q.numPromptTokens :=
    numPromptTokens_task (advanced_task q config share)
  constructor
  · intro _ h
    obtain ⟨-, hpre, hend⟩ := advanced_terminal hbar h
    exact ⟨share, by simp, hpre, hprompt.le.trans hend⟩
  · intro hsync _
    rw [← Bool.not_eq_true]
    intro h
    rw [(advanced_terminal hbar h).1] at hsync
    cases hsync

theorem step {f f' : Flight} {ev : FlightEvent} (hstep : FlightStep config f ev f')
    (h : Barred config f) : Barred config f' := by
  cases hstep with
  | keep => exact h
  | @launch q hit share hidle hhit hfit =>
    have h₁ : Barred config ⟨(q.admittedWith hit).advanced config share, .running, [] ++ [share]⟩ :=
      grant hidle.terminalPrefillInFlight
    exact h₁
  | grant hbar _ _ => exact grant hbar
  | preempt => exact ⟨nofun, nofun⟩
  | reject => exact ⟨nofun, nofun⟩
  | @apply q share shares tokens hlive =>
    have hprompt : (q.applied config share tokens).numPromptTokens = q.numPromptTokens :=
      numPromptTokens_task (applied_task q config share tokens)
    refine ⟨fun _ hterminal => ?_, fun hsync _ => ?_⟩
    · dsimp only at hterminal ⊢
      rw [applied_terminal] at hterminal
      obtain ⟨hterminal, hnot⟩ := confirmed_terminal hterminal
      obtain ⟨sh, hmem, hpre, hend⟩ := h.share rfl hterminal
      rcases List.mem_cons.mp hmem with rfl | hmem
      · exact absurd ⟨hpre, hend⟩ hnot
      · exact ⟨sh, hmem, hpre, hprompt.le.trans hend⟩
    · dsimp only
      rw [applied_terminal, ← Bool.not_eq_true]
      intro hterminal
      have hold := (confirmed_terminal hterminal).1
      rw [h.sync hsync rfl] at hold
      cases hold
  | finish => exact ⟨nofun, nofun⟩
  | drop hplace => exact ⟨fun hr => absurd hr hplace, fun _ hr => absurd hr hplace⟩
  | close => exact ⟨nofun, nofun⟩
  | discard => exact ⟨nofun, nofun⟩

end Barred

/-- An unfinished prefill is not behind the barrier. -/
theorem prefill_unbarred {p : Pipeline} (hp : pipelineMachine.Reachable p)
    (hr : r ∈ p.sched.running) (hpre : (p.sched.object r).isPrefill = true) :
    (p.sched.object r).terminalPrefillInFlight = false := by
  have hwf := wellFormed_of_reachable hp
  obtain ⟨f, hv, hasync, hbarred⟩ := flight_invariant (C := fun _ _ _ => True)
    (I := fun config f => (config.asyncScheduling = true → Covered config f) ∧ Barred config f)
    (by
      intro p request stored hfresh hacc
      have hzero : stored.numOutputPlaceholders = 0 := by
        rw [hacc.eq, hfresh.defaults]
      exact ⟨fun _ => ⟨fun _ => hzero, nofun, nofun, nofun⟩, nofun, nofun⟩)
    (fun p op p' r f ev f' _ _ _ _ hstep h =>
      ⟨fun hasync => (h.1 hasync).step hasync hstep, h.2.step hstep⟩)
    hp.unrestricted r (hwf.issued r (hwf.tracked r (.inl hr)))
  have hplace : f.place = .running := by rw [hv.place, placeOf_running hr]
  rw [hv.same.terminalPrefillInFlight, ← Bool.not_eq_true]
  intro hterminal
  cases hmode : p.sched.config.asyncScheduling with
  | false =>
    rw [hbarred.sync hmode hplace] at hterminal
    cases hterminal
  | true =>
    obtain ⟨share, hshare, hprefill, hend⟩ := hbarred.share hplace hterminal
    have hreserved : 0 < f.request.reservations p.sched.config f.shares := by
      refine List.sum_pos_iff_exists_pos_nat.mpr ⟨_, List.mem_map_of_mem hshare, ?_⟩
      rw [reservation_prefill hprefill, if_pos hend]
      decide
    have hprompt := (hasync hmode).prompt hplace hreserved
    rw [hv.same.isPrefill, Request.isPrefill, decide_eq_true_eq] at hpre
    omega

/-- Decode work is ready: a request past its prompt has a token to compute. -/
def Scheduler.DecodeReady (s : Scheduler) : Prop :=
  ∃ r ∈ s.running, (s.object r).terminalPrefillInFlight = false ∧
    (s.object r).isPrefill = false ∧ 0 < (s.object r).numNewTokensNeeded

/-- Prefill work is ready: an unfinished prefill, or a waiting request with a free place. -/
def Scheduler.PrefillReady (s : Scheduler) : Prop :=
  (∃ r ∈ s.running, (s.object r).isPrefill = true) ∨
    (s.waiting ≠ [] ∧ s.running.length < s.config.maxNumRunningReqs)

/-- The work of one phase is ready. -/
def Scheduler.WorkReady (s : Scheduler) : Phase → Prop
  | .prefill => s.PrefillReady
  | .decode => s.DecodeReady

instance (s : Scheduler) (ph : Phase) : Decidable (s.WorkReady ph) :=
  match ph with
  | .prefill => inferInstanceAs (Decidable (_ ∨ _))
  | .decode => inferInstanceAs (Decidable (∃ r ∈ s.running, _))

section Runs
variable {p p₁ p₂ : Pipeline} {op : PipelineOp} {ph : Phase}

/-- Ready work is seen by the choice. -/
theorem workReady_seen (hp : pipelineMachine.Reachable p) (h : p.sched.WorkReady ph) :
    p.sched.hasWorkOf ph = true := by
  have hq := (wellFormed_of_reachable hp).queues
  have hready : ∀ r ∈ p.sched.running, (p.sched.object r).terminalPrefillInFlight = false →
      0 < (p.sched.object r).numNewTokensNeeded → r ∈ p.sched.ready := by
    intro r hr hbar hneeded
    refine mem_ready.mpr ⟨hr, ?_, hbar, hneeded⟩
    rw [hq.running_status r hr]
    decide
  cases ph with
  | decode =>
    obtain ⟨r, hr, hbar, hpre, hneeded⟩ := h
    exact List.any_eq_true.mpr ⟨r, hready r hr hbar hneeded, by simp [hpre]⟩
  | prefill =>
    show ((_ : Bool) || _) = true
    rw [Bool.or_eq_true]
    rcases h with ⟨r, hr, hpre⟩ | ⟨hwaiting, hroom⟩
    · left
      have hneeded : 0 < (p.sched.object r).numNewTokensNeeded := by
        rw [Request.isPrefill, decide_eq_true_eq] at hpre
        unfold Request.numNewTokensNeeded Request.numTokens
        omega
      exact List.any_eq_true.mpr ⟨r, hready r hr (prefill_unbarred hp hr hpre) hneeded, hpre⟩
    · right
      simp [hwaiting, hroom]

/-- Only a pass changes the preference. -/
theorem step_phase (hop : op ≠ .dispatch) (hstep : Pipeline.Step p op p₁) :
    KeepsPhase p.sched p₁.sched := by
  cases hstep with
  | add hfresh hid hadd =>
    obtain ⟨stored, -, rfl⟩ := addRequest_spec hadd
    rfl
  | dispatch => exact absurd rfl hop
  | idle => exact absurd rfl hop
  | complete hfl hupd => exact updateFromOutput_phase hupd
  | finish hr hfin => exact finishRequest_phase hfin
  | abort habort => exact abortRequest_phase habort
  | discard hne hdrop => exact dropBatches_phase hdrop

theorem run_phase {ops : List PipelineOp} (hops : ∀ op ∈ ops, op ≠ .dispatch)
    (h : pipelineMachine.Run p₁ ops p₂) (hp : pipelineMachine.Reachable p₁) :
    KeepsPhase p₁.sched p₂.sched ∧ p₂.sched.config = p₁.sched.config := by
  induction h with
  | nil => exact ⟨rfl, rfl⟩
  | @snoc p q ops op hrun hstep ih =>
    obtain ⟨hphase, hconfig⟩ := ih fun op hop => hops op (List.mem_append_left _ hop)
    have hq : pipelineMachine.Reachable p := hp.run hrun
    exact ⟨(step_phase (hops op (by simp)) hstep).trans hphase,
      (step_config (wellFormed_of_reachable hq) hstep).trans hconfig⟩

/-- The preference after a pass. -/
theorem dispatch_phase (hp : pipelineMachine.Reachable p)
    (hhom : p.sched.config.requiresHomogeneousPrefillDecode = true)
    (hstep : Pipeline.Step p .dispatch p₁) :
    KeepsPhase p.sched.groupedCachePhase.2 p₁.sched := by
  have hq := (wellFormed_of_reachable hp).queues
  cases hstep with
  | dispatch hready hsched hne hadv =>
    exact (advanceAfterSchedule_phase hadv).trans (schedule_inPhase hq hhom hsched).2
  | idle hready hsched hempty => exact (schedule_inPhase hq hhom hsched).2

end Runs

/-- A step is of one phase, and ready work of a phase is not passed over by two passes in a
row. -/
theorem phases_alternate {p : Pipeline} (hp : pipelineMachine.Reachable p)
    (hhom : p.sched.config.requiresHomogeneousPrefillDecode = true) :
    (∀ pass, p.sched.schedule = .ok pass →
      (∀ sr ∈ pass.output.scheduledRequests, sr.isPrefill = true) ∨
        ∀ sr ∈ pass.output.scheduledRequests, sr.isPrefill = false) ∧
    ∀ p₁ p₂ ops ph, Pipeline.Step p .dispatch p₁ → pipelineMachine.Run p₁ ops p₂ →
      (∀ op ∈ ops, op ≠ .dispatch) → p.sched.WorkReady ph → p₂.sched.WorkReady ph →
        p.sched.groupedCachePhase.1 = some ph ∨ p₂.sched.groupedCachePhase.1 = some ph := by
  constructor
  · intro pass hpass
    have hin := (schedule_inPhase (wellFormed_of_reachable hp).queues hhom hpass).1
    by_cases hdecode : p.sched.groupedCachePhase.1 = some .decode
    · exact .inr fun sr hsr => (hin sr hsr).trans (by simp [hdecode])
    · exact .inl fun sr hsr => (hin sr hsr).trans (by simp [hdecode])
  · intro p₁ p₂ ops ph hstep hrun hops hwork hwork'
    have hp₁ := hp.next hstep
    have hp₂ := hp₁.run hrun
    obtain ⟨hkeep, hconfig⟩ := run_phase hops hrun hp₁
    have hhom₂ : p₂.sched.config.requiresHomogeneousPrefillDecode = true := by
      rw [hconfig, step_config (wellFormed_of_reachable hp) hstep]
      exact hhom
    rcases groupedCachePhase_passed hhom (workReady_seen hp hwork) with hsel | ⟨hnext, -⟩
    · exact .inl hsel
    · rcases groupedCachePhase_passed hhom₂ (workReady_seen hp₂ hwork') with hsel | ⟨-, hbefore⟩
      · exact .inr hsel
      · have hsame : p₂.sched.nextGroupedCachePhase = ph :=
          (hkeep.trans (dispatch_phase hp hhom hstep)).trans hnext
        rw [hsame] at hbefore
        cases ph <;> cases hbefore

def alternatingConfig : SchedulerConfig :=
  { SchedulerConfig.defaults with enablePrefixCache := false, requiresHomogeneousPrefillDecode := true }

/-- `a` has its first token when `b` arrives. -/
def alternatingRun : Option Pipeline :=
  Pipeline.bootAll KvCacheManager.encodingHash [] 2 2 4 alternatingConfig
    [.add (plainRequest "a" [1, 2] 4 0), .dispatch, .complete (Dict.ofList [("a", [7])]),
      .add (plainRequest "b" [3] 4 1)]

theorem alternatingRun_ready : (alternatingRun.bind fun p => (p.exec .dispatch).map fun p₁ =>
    decide (p.sched.config.requiresHomogeneousPrefillDecode = true ∧
      (∀ ph ∈ [Phase.prefill, .decode], p.sched.WorkReady ph ∧ p₁.sched.WorkReady ph))) =
        some true := by
  decide

/-- Both kinds of work are ready in two passes in a row. -/
theorem phases_alternate_arrival : ∃ p p₁, pipelineMachine.Reachable p ∧
    Pipeline.Step p .dispatch p₁ ∧ ∀ ph, p.sched.WorkReady ph ∧ p₁.sched.WorkReady ph ∧
      (p.sched.groupedCachePhase.1 = some ph ∨ p₁.sched.groupedCachePhase.1 = some ph) := by
  obtain ⟨p, hrun, h⟩ := Option.bind_eq_some_iff.mp alternatingRun_ready
  obtain ⟨p₁, hexec, h⟩ := Option.map_eq_some_iff.mp h
  obtain ⟨hhom, hwork⟩ := of_decide_eq_true h
  have hp : pipelineMachine.Reachable p := by
    refine Pipeline.bootAll_reachable (by decide) ?_ hrun
    intro q hq
    simp only [List.mem_cons, PipelineOp.add.injEq, List.not_mem_nil, or_false, reduceCtorEq,
      false_or] at hq
    rcases hq with rfl | rfl <;> exact plainRequest_fresh (by decide)
  have hstep : Pipeline.Step p .dispatch p₁ := Pipeline.exec_step (fun q hq => nomatch hq) hexec
  refine ⟨p, p₁, hp, hstep, fun ph => ?_⟩
  obtain ⟨hw, hw₁⟩ := hwork ph (by cases ph <;> decide)
  exact ⟨hw, hw₁, (phases_alternate hp hhom).2 p₁ p₁ [] ph hstep (.nil p₁)
    (fun _ h => absurd h List.not_mem_nil) hw hw₁⟩

end PyptoServing.Sched
