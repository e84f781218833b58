import PyptoServing.Runner.MtpRuns

/-!
# Decoding goes on

As long as the main kernel and the drafting layer answer, a step of live requests inside the context
returns, if it samples on the device and its sampling parameters fit the waves of its verification:
it accepts at least one token of every request, and at most as many as fit.
-/
namespace PyptoServing.Runner

open Lib Lib.Raising Memory Sched ChunkedDecode DraftRunner Verification

variable {σ H L α : Type} {c : ChunkedDecode σ H L} {target : Target H L} {s : DraftSession σ H}
  {m : DraftRunner σ H} {batch : DecodeBatch} {live : RequestId → Option Sequence}

/-- A drafting layer that never raises. -/
def Drafter.Answers (drafter : Drafter σ H) : Prop :=
  ∀ s batch tokenIds hidden positions,
    ∃ drafted, (drafter.tokenStep s batch tokenIds hidden positions).2 = .ok drafted

section Proposing
variable {kernel : DecodeKernel σ H L}

theorem returns_requireDraftState {r : RequestId} {state : DraftState H}
    (h : m.requestStates.lookup r = some state) :
    Returns (m.Same kernel) (requireDraftState r) (· = state) := by
  intro m' hsame
  refine ⟨state, m', exec_requireDraftState ?_, hsame, rfl⟩
  rw [hsame.states, h]

theorem returns_finalizePrefill {requests : List (RequestId × Int)}
    (hstates : ∀ e ∈ requests, ∃ state, m.requestStates.lookup e.1 = some state ∧
      state.draftTokenId.isSome) :
    Returns (m.Same kernel) (c.finalizePrefill requests) fun _ => True := by
  refine Returns.forM fun e he => ?_
  obtain ⟨state, hstate, hdraft⟩ := hstates e he
  refine (returns_requireDraftState hstate).bind fun state' hstate' => ?_
  subst hstate'
  rw [if_neg (by simp [Option.isNone_iff_eq_none, ← Option.isSome_iff_ne_none, hdraft])]
  exact .pure trivial

theorem returns_readStates {read : DraftState H → Option α} {missing : RequestId → String}
    (hstates : ∀ row ∈ batch.rows, ∃ state, m.requestStates.lookup row.requestId = some state ∧
      (read state).isSome) :
    Returns (m.Same kernel) (ChunkedDecode.readStates batch read missing) fun _ => True := by
  refine Returns.mapM fun row hrow => ?_
  obtain ⟨state, hstate, hread⟩ := hstates row hrow
  obtain ⟨value, hvalue⟩ := Option.isSome_iff_exists.mp hread
  refine (returns_requireDraftState hstate).bind fun state' hstate' => ?_
  subst hstate'
  rw [hvalue]
  exact .pure trivial

theorem returns_proposeColumns (hquiet : c.drafter.Quiet kernel) (hanswers : c.drafter.Answers)
    {n : Nat} {tokenIds : List Int} {hidden : List H} {positions : List Nat} :
    Returns (m.Same kernel) (c.proposeColumns batch n tokenIds hidden positions) fun _ => True := by
  induction n generalizing tokenIds hidden positions with
  | zero => exact .pure trivial
  | succ n ih =>
    have hdraft : Returns (m.Same kernel)
        (onDrafter fun s => c.drafter.tokenStep s batch tokenIds hidden positions) fun _ => True := by
      intro m' hsame
      obtain ⟨drafted, hdrafted⟩ := hanswers m'.device.state batch tokenIds hidden positions
      refine ⟨drafted, _, (exec_onDrafter _ m').trans (by rw [hdrafted]), ?_, trivial⟩
      exact hsame.trans ⟨rfl, hquiet.tokenStep _ _ _ _ _, rfl, rfl⟩
    refine hdraft.bind fun drafted _ => ?_
    exact ih.bind fun columns _ => .pure trivial

/-- Requests with a draft are drafted for. -/
theorem returns_proposeMtpTokens (hquiet : c.drafter.Quiet kernel) (hanswers : c.drafter.Answers)
    {numDrafts : Nat} (hdepth : numDrafts ≤ c.numSpeculativeTokens)
    (hstates : ∀ row ∈ batch.rows, ∃ state, m.requestStates.lookup row.requestId = some state ∧
      state.HasDraft) :
    Returns (m.Same kernel) (c.proposeMtpTokens batch numDrafts) fun _ => True := by
  unfold proposeMtpTokens
  rw [if_neg (by omega)]
  split
  · exact .pure trivial
  have hinit : Returns (m.Same kernel) (c.initializeMtpDrafts batch) fun _ => True := by
    refine returns_finalizePrefill fun e he => ?_
    obtain ⟨row, hrow, rfl⟩ := List.mem_map.mp he
    obtain ⟨state, hstate, hdraft⟩ := hstates row hrow
    exact ⟨state, hstate, hdraft.token⟩
  refine hinit.bind fun _ _ => (returns_readStates fun row hrow => ?_).bind fun first _ => ?_
  · obtain ⟨state, hstate, hdraft⟩ := hstates row hrow
    exact ⟨state, hstate, hdraft.token⟩
  split
  · exact .pure trivial
  refine (returns_readStates fun row hrow => ?_).bind fun recurrent _ =>
    (returns_proposeColumns hquiet hanswers).bind fun columns _ => .pure trivial
  obtain ⟨state, hstate, hdraft⟩ := hstates row hrow
  obtain ⟨hidden, hhidden⟩ := Option.isSome_iff_exists.mp hdraft.hidden
  obtain ⟨position, hposition⟩ := Option.isSome_iff_exists.mp hdraft.position
  exact ⟨state, hstate, by rw [hhidden, hposition]; rfl⟩

end Proposing

/-- Sampling parameters that fit a verification of any depth: there are none, or the drafts are not
staged with them, or every draft fits into the first chunk of requests on different ranks. -/
def ParamsFit (c : ChunkedDecode σ H L) (batch : DecodeBatch) : Prop :=
  c.numSpeculativeTokens = 1 ∨ batch.samplingParams = [] ∨
    c.numSpeculativeTokens < c.layout.decodeSeq ∧ (batch.rows.map (·.cachePartition)).Nodup

theorem draftDepth_le (m : DraftRunner σ H) (batch : DecodeBatch) : draftDepth c m batch ≤ c.numSpeculativeTokens := Nat.min_le_left _ _

theorem samplingFits_of_paramsFit (hfit : ParamsFit c batch) {drafts : List (List Int)}
    (hv : (c.verification (correctedBatch m batch) (draftDepth c m batch) drafts).Verifiable target
      (contextOf live batch)) :
    (c.verification (correctedBatch m batch) (draftDepth c m batch) drafts).SamplingFits target
      (contextOf live batch) := by
  intro hspec hparams o ho hdvd _
  rcases hfit with hone | hnone | ⟨hdepth, hranks⟩
  · exact absurd hone hspec
  · exact absurd hnone hparams
  have hle := (draftDepth_le (c := c) m batch).trans_lt hdepth
  obtain rfl : o = 0 := Nat.eq_zero_of_dvd_of_lt hdvd (lt_of_le_of_lt ho hle)
  refine ⟨fun i _ k hk => absurd hk (Nat.not_lt_zero k), fun _ => ?_⟩
  rw [← map_correctedBatch (m := m) _ fun _ _ => rfl] at hranks
  refine List.Nodup.of_map some ?_
  have hmap : ((List.range (correctedBatch m batch).rows.length).map
      (c.verification (correctedBatch m batch) (draftDepth c m batch) drafts).rank).map some =
      (correctedBatch m batch).rows.map (·.cachePartition) := by
    refine Eq.trans ?_ (Verification.map_row
      (v := c.verification (correctedBatch m batch) (draftDepth c m batch) drafts) (·.cachePartition))
    rw [List.map_map]
    exact List.map_congr_left fun i hi => (hv.cachePartition (List.mem_range.mp hi)).1.symm
  exact hmap ▸ hranks

/-- In every run, a step of requests inside the context returns, where it is answered, sampled on the
device and given fitting sampling parameters: at least one token for every request, no more than
were drafted and the one behind them, and none beyond the context but the last one. -/
theorem decode_returns (hc : c.Decodes target) (hs : c.machine.Reachable s)
    (hkernel : c.kernel.Answers) (hanswers : c.drafter.Answers)
    (hb : c.Batched s.runner s.live batch) (hdevice : batch.allowDeviceGreedySampling)
    (hfit : ParamsFit c batch)
    (hroom : ∀ row ∈ batch.rows, ∀ seq, s.live row.requestId = some seq →
      seq.tokens.length ≤ c.maxSeqLen) :
    ∃ accepted logits m', exec (c.runChunkedMtpDecode batch) s.runner = (.ok (accepted, logits), m') ∧
      accepted.length = batch.rows.length ∧
      ∀ (i : Nat) (row : DecodeRow) (seq : Sequence), batch.rows[i]? = some row →
        s.live row.requestId = some seq → ∃ tokens, accepted[i]? = some tokens ∧
          0 < tokens.length ∧ tokens.length ≤ c.numSpeculativeTokens + 1 ∧
          seq.tokens.length + tokens.length ≤ c.maxSeqLen + 1 := by
  have ht := tracks_reachable hc hs
  have hrow : ∀ row ∈ (correctedBatch s.runner batch).rows, ∃ seq state,
      s.live row.requestId = some seq ∧ row.seqLen = seq.tokens.length ∧
        s.runner.requestStates.lookup row.requestId = some state ∧ state.HasDraft := by
    intro row hmem
    obtain ⟨i, seq, state, hrow⟩ := exists_rowOf_of_mem ht hb hmem
    exact ⟨seq, state, hrow.sequence, hrow.seqLen, hrow.follows.registered, hrow.follows.draft⟩
  have hinside : ∀ row ∈ (correctedBatch s.runner batch).rows, row.seqLen ≤ c.maxSeqLen := by
    intro row hmem
    obtain ⟨seq, state, hseq, hlen, -, -⟩ := hrow row hmem
    obtain ⟨row', hrow', rfl⟩ := mem_correctedBatch hmem
    exact hlen.trans_le (hroom row' hrow' seq hseq)
  obtain ⟨m', -, ⟨e, -, hrefusal⟩ | ⟨accepted, logits, hok, hlen, hfollowed⟩⟩ :=
    exec_runChunkedMtpDecode hc ht hb
  · exfalso
    cases hrefusal with
    | sampling hhost => exact hhost hdevice
    | propose hexec =>
      obtain ⟨drafts, m₁, hok, -⟩ := returns_proposeMtpTokens hc.quiet hanswers
        (draftDepth_le s.runner batch)
        (fun row hmem => by
          obtain ⟨_, state, -, -, hstate, hdraft⟩ := hrow row hmem
          exact ⟨state, hstate, hdraft⟩) s.runner (.refl _)
      rw [hexec] at hok
      cases hok
    | verify hdrafted hrefused =>
      have hv := verifiable hc ht hb hdrafted
      exact hrefused ⟨(Verification.admittedFrom_iff hv).mpr
        ⟨Verification.hasRoom_of_mtpDraftCount hv rfl hinside, samplingFits_of_paramsFit hfit hv⟩,
        hkernel⟩
    | drafter herror =>
      obtain ⟨drafted, hok⟩ := hanswers _ _ _ _ _
      rw [herror] at hok
      cases hok
  · refine ⟨accepted, logits, m', hok, hlen, fun i row seq hi hseq => ?_⟩
    obtain ⟨tokens, state, htokens, hpos, hdepth, -⟩ := hfollowed i row seq hi hseq
    refine ⟨tokens, htokens, hpos, hdepth.trans (Nat.succ_le_succ (draftDepth_le s.runner batch)), ?_⟩
    obtain ⟨row', seq', state', hrow'⟩ := exists_rowOf ht hb (List.getElem?_eq_some_iff.mp hi).1
    have hid := hrow'.requestId_eq hi
    obtain rfl := Option.some.inj (hseq.symm.trans (hid ▸ hrow'.sequence))
    have hmem := List.mem_of_getElem? hrow'.staged
    have hfits := add_mtpDraftCount_le c.numSpeculativeTokens
      (List.mem_map_of_mem (f := (·.seqLen)) hmem) (hinside row' hmem)
    rw [hrow'.seqLen] at hfits
    unfold draftDepth at hdepth
    omega

/-- The counted request is decoded with its sampling parameters. -/
theorem decode_returns_counted : ∃ accepted logits m',
    exec (countingDecode.runChunkedMtpDecode countedBatch) finalizedRunner =
        (.ok (accepted, logits), m') ∧
      accepted.length = 1 ∧
      ∀ (i : Nat) (row : DecodeRow) (seq : Sequence), countedBatch.rows[i]? = some row →
        countedLive row.requestId = some seq → ∃ tokens, accepted[i]? = some tokens ∧
          0 < tokens.length ∧ tokens.length ≤ 3 ∧ seq.tokens.length + tokens.length ≤ 17 := by
  have hroom : ∀ row ∈ countedBatch.rows, ∀ seq, countedLive row.requestId = some seq →
      seq.tokens.length ≤ countingDecode.maxSeqLen := by
    intro row hrow seq hseq
    obtain rfl := List.mem_singleton.mp hrow
    obtain rfl : (⟨[7, 8], [2]⟩ : Sequence) = seq := Option.some.inj hseq
    show 3 ≤ 16
    decide
  obtain ⟨accepted, logits, m', hok, hlen, hall⟩ := decode_returns (s := ⟨finalizedRunner, countedLive⟩)
    countingDecode_decodes finalizedRunner_reachable (referenceKernel_answers _ _)
    (fun _ _ _ _ _ => ⟨_, rfl⟩) countedBatch_batched rfl
    (.inr (.inr ⟨by decide, List.nodup_singleton _⟩)) hroom
  exact ⟨accepted, logits, m', hok, hlen, hall⟩

end PyptoServing.Runner
