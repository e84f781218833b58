import PyptoServing.Runner.MtpDecode
import PyptoServing.Runner.MtpSpecification

/-!
# One step of decoding with drafts

Proposing drafts leaves the states of the requests and the rows of the main model alone, and the
counters of the requests of a batch move on after its verification.
-/
namespace PyptoServing.Runner

open Lib Lib.Raising Memory Sched

variable {σ H L α β : Type} {c : ChunkedDecode σ H L} {m m' m'' : DraftRunner σ H}

/-- A drafting layer that leaves the rows of the main model alone and answers for every request. -/
structure Drafter.Quiet (drafter : Drafter σ H) (kernel : DecodeKernel σ H L) : Prop where
  tokenStep : ∀ s batch tokenIds hidden positions,
    kernel.holds (drafter.tokenStep s batch tokenIds hidden positions).1 = kernel.holds s
  answers : ∀ s batch tokenIds hidden positions tokens rows,
    (drafter.tokenStep s batch tokenIds hidden positions).2 = .ok (tokens, rows) →
      tokens.length = batch.rows.length ∧ rows.length = batch.rows.length
  promptStep : ∀ s context token,
    kernel.holds (drafter.promptStep s context token).1 = kernel.holds s

namespace DraftRunner

/-- The same states, and the same rows of the main model. -/
structure Same (kernel : DecodeKernel σ H L) (m m' : DraftRunner σ H) : Prop where
  states : m'.requestStates = m.requestStates
  holds : kernel.holds m'.device.state = kernel.holds m.device.state
  proposed : m'.proposedTokens = m.proposedTokens
  accepted : m'.acceptedTokens = m.acceptedTokens

variable {kernel : DecodeKernel σ H L}

theorem Same.refl (m : DraftRunner σ H) : m.Same kernel m := ⟨rfl, rfl, rfl, rfl⟩

theorem Same.trans (h : m.Same kernel m') (h' : m'.Same kernel m'') :
    m.Same kernel m'' :=
  ⟨h'.states.trans h.states, h'.holds.trans h.holds, h'.proposed.trans h.proposed,
    h'.accepted.trans h.accepted⟩

end DraftRunner

open DraftRunner

theorem exec_requireDraftState {r : RequestId} {state : DraftState H}
    (h : m.requestStates.lookup r = some state) :
    exec (requireDraftState r) m = (.ok state, m) := by
  unfold requireDraftState
  rw [exec_bind_ok (exec_get m), h]
  rfl

theorem exec_updateDraftState {r : RequestId} {state : DraftState H} {f : DraftState H → DraftState H}
    (h : m.requestStates.lookup r = some state) :
    exec (updateDraftState r f) m =
      (.ok ⟨⟩, { m with requestStates := m.requestStates.insert r (f state) }) := by
  unfold updateDraftState
  rw [exec_bind_ok (exec_requireDraftState h)]
  rfl

/-- One write for each request of a list. -/
theorem exec_updates {l : List β} {key : β → RequestId} {f : β → DraftState H → DraftState H}
    (hnodup : (l.map key).Nodup) (hstates : ∀ e ∈ l, (m.requestStates.lookup (key e)).isSome) :
    ∃ states, exec (l.forM fun e => updateDraftState (key e) (f e)) m =
        (.ok ⟨⟩, { m with requestStates := states }) ∧
      (∀ r ∉ l.map key, states.lookup r = m.requestStates.lookup r) ∧
      ∀ e ∈ l, states.lookup (key e) = (m.requestStates.lookup (key e)).map (f e) := by
  induction l generalizing m with
  | nil => exact ⟨m.requestStates, rfl, fun _ _ => rfl, by simp⟩
  | cons e l ih =>
    rw [List.map_cons, List.nodup_cons] at hnodup
    obtain ⟨state, hstate⟩ := Option.isSome_iff_exists.mp (hstates e (by simp))
    have hother : ∀ r, r ≠ key e →
        (m.requestStates.insert (key e) (f e state)).lookup r = m.requestStates.lookup r :=
      fun r hr => AList.lookup_insert_ne hr
    have hne : ∀ e' ∈ l, key e' ≠ key e := by
      rintro e' he' heq
      exact hnodup.1 (heq ▸ List.mem_map_of_mem he')
    obtain ⟨states, hexec, hrest, hwritten⟩ :=
      ih (m := { m with requestStates := m.requestStates.insert (key e) (f e state) }) hnodup.2
        fun e' he' => by
          show ((m.requestStates.insert (key e) (f e state)).lookup (key e')).isSome
          rw [hother _ (hne e' he')]
          exact hstates e' (List.mem_cons_of_mem _ he')
    refine ⟨states, ?_, fun r hr => ?_, fun e' he' => ?_⟩
    · rw [forM_cons, exec_bind_ok (exec_updateDraftState hstate), hexec]
    · rw [List.map_cons, List.mem_cons, not_or] at hr
      rw [hrest r hr.2]
      exact hother r hr.1
    · rcases List.mem_cons.mp he' with rfl | he'
      · rw [hrest _ hnodup.1, hstate]
        exact AList.lookup_insert _
      · rw [hwritten e' he']
        exact congrArg _ (hother _ (hne e' he'))

section Proposing
variable {kernel : DecodeKernel σ H L} {batch : DecodeBatch}

theorem keeps_requireDraftState (r : RequestId) :
    Keeps (m.Same kernel) (requireDraftState r) fun state => m.requestStates.lookup r = some state := by
  refine Keeps.get.bind fun m' hsame => ?_
  rw [hsame.states]
  cases m.requestStates.lookup r with
  | none => exact .throw _
  | some state => exact .pure rfl

theorem exec_onDrafter (step : σ → σ × Except String α) (m : DraftRunner σ H) :
    exec (onDrafter step) m = ((step m.device.state).2,
      { m with device := { m.device with state := (step m.device.state).1 } }) := by
  unfold onDrafter
  rw [exec_bind_ok (exec_get m)]
  exact exec_ofExcept _ _

theorem keeps_onDrafter {step : σ → σ × Except String α}
    (hquiet : ∀ s, kernel.holds (step s).1 = kernel.holds s) :
    Keeps (m.Same kernel) (onDrafter step) fun a => ∃ s, (step s).2 = .ok a := by
  intro m' hsame
  rw [show (onDrafter step : DraftM σ H α).run.run m' = _ from exec_onDrafter step m']
  exact ⟨hsame.trans ⟨rfl, hquiet _, rfl, rfl⟩, fun a ha => ⟨_, ha⟩⟩

/-- Requests that have a draft are not initialized again. -/
theorem keeps_finalizePrefill {requests : List (RequestId × Int)}
    (hdrafts : ∀ e ∈ requests, ∀ state, m.requestStates.lookup e.1 = some state →
      state.draftTokenId.isSome) :
    Keeps (m.Same kernel) (c.finalizePrefill requests) fun _ => True := by
  refine Keeps.forM fun e he => (keeps_requireDraftState e.1).bind fun state hstate => ?_
  rw [if_neg (by simp [Option.isNone_iff_eq_none, ← Option.isSome_iff_ne_none, hdrafts e he state hstate])]
  exact .pure trivial

theorem keeps_readStates (read : DraftState H → Option α) (missing : RequestId → String) :
    Keeps (m.Same kernel) (ChunkedDecode.readStates batch read missing) fun _ => True := by
  refine Keeps.mapM fun row _ => (keeps_requireDraftState row.requestId).bind fun state _ => ?_
  cases read state with
  | none => exact .throw _
  | some value => exact .pure trivial

theorem keeps_proposeColumns (hquiet : c.drafter.Quiet kernel) {n : Nat} {tokenIds : List Int}
    {hidden : List H} {positions : List Nat} :
    Keeps (m.Same kernel) (c.proposeColumns batch n tokenIds hidden positions) (·.length = n) := by
  induction n generalizing tokenIds hidden positions with
  | zero => exact .pure rfl
  | succ n ih =>
    refine (keeps_onDrafter fun s => hquiet.tokenStep s _ _ _ _).bind fun drafted _ => ?_
    obtain ⟨tokenIds, hidden⟩ := drafted
    exact ih.bind fun columns hcolumns => .pure (by rw [List.length_cons, hcolumns])

/-- One draft column for each step of the drafting layer. -/
structure Drafted (batch : DecodeBatch) (numDrafts : Nat) (drafts : List (List Int)) : Prop where
  rows : drafts.length = batch.rows.length
  depth : ∀ row ∈ drafts, row.length = numDrafts

theorem stackColumns_drafted (batch : DecodeBatch) (columns : List (List Int)) :
    Drafted batch columns.length (ChunkedDecode.stackColumns batch columns) := by
  refine ⟨by simp [ChunkedDecode.stackColumns], fun row hrow => ?_⟩
  obtain ⟨i, -, rfl⟩ := List.mem_map.mp hrow
  exact List.length_map _

/-- Proposing leaves the states of the requests alone once they have a draft. -/
theorem keeps_proposeMtpTokens (hquiet : c.drafter.Quiet kernel) {numDrafts : Nat}
    (hdrafts : ∀ row ∈ batch.rows, ∀ state, m.requestStates.lookup row.requestId = some state →
      state.draftTokenId.isSome) :
    Keeps (m.Same kernel) (c.proposeMtpTokens batch numDrafts) (Drafted batch numDrafts) := by
  unfold ChunkedDecode.proposeMtpTokens
  split
  · exact .throw _
  split
  · next hzero =>
    subst hzero
    exact .pure (stackColumns_drafted batch [])
  next hzero =>
  have hinit : Keeps (m.Same kernel) (c.initializeMtpDrafts batch) fun _ => True := by
    refine keeps_finalizePrefill fun e he => ?_
    obtain ⟨row, hrow, rfl⟩ := List.mem_map.mp he
    exact hdrafts row hrow
  refine hinit.bind fun _ _ => (keeps_readStates _ _).bind fun first _ => ?_
  split
  · next hone =>
    subst hone
    exact .pure (stackColumns_drafted batch [first])
  · refine (keeps_readStates _ _).bind fun recurrent _ =>
      (keeps_proposeColumns hquiet).bind fun columns hcolumns => .pure ?_
    have hlen : (first :: columns).length = numDrafts := by
      rw [List.length_cons, hcolumns]
      omega
    exact hlen ▸ stackColumns_drafted batch (first :: columns)

end Proposing

/-- A request: its prompt and its output. -/
structure Sequence where
  prompt : List Int
  output : List Int

namespace Sequence

def tokens (seq : Sequence) : List Int := seq.prompt ++ seq.output

def append (seq : Sequence) (accepted : List Int) : Sequence :=
  { seq with output := seq.output ++ accepted }

theorem tokens_append (seq : Sequence) (accepted : List Int) :
    (seq.append accepted).tokens = seq.tokens ++ accepted := by
  simp [tokens, append, List.append_assoc]

end Sequence

/-- A draft, with the recurrent state behind it. -/
structure DraftState.HasDraft (state : DraftState H) : Prop where
  token : state.draftTokenId.isSome
  hidden : state.draftPreHcHidden.isSome
  position : state.draftPosition.isSome

theorem DraftState.hasDraft_withDraft (state : DraftState H) (token : Int) (hidden : H)
    (position : Nat) : (state.withDraft token hidden position).HasDraft :=
  ⟨rfl, rfl, rfl⟩

namespace ChunkedDecode

/-- A runner whose main kernel decodes with a target and whose drafting layer is quiet. -/
structure Decodes (c : ChunkedDecode σ H L) (target : Target H L) : Prop where
  computes : c.kernel.Computes target c.layout.decodeSeq
  width : 0 < c.layout.decodeSeq
  tokens : c.layout.decodeTokens = c.layout.decodeBatch * c.layout.decodeSeq
  quiet : c.drafter.Quiet c.kernel

/-- The runner and its device agree with a request: the output is what the target generates behind
its first token, the counter counts it, and the device holds everything but the last token. -/
structure Follows (c : ChunkedDecode σ H L) (target : Target H L) (m : DraftRunner σ H)
    (r : RequestId) (seq : Sequence) (state : DraftState H) : Prop where
  registered : m.requestStates.lookup r = some state
  draft : state.HasDraft
  prompt : state.promptLen = seq.prompt.length
  generated : ∃ first, seq.output = first ::
    Speculation.generate target.next (seq.prompt ++ [first]) state.committedCount
  accepted : state.acceptedTokens ≤ state.proposedTokens
  holds : ∀ q, q + 1 < seq.tokens.length →
    c.kernel.holds m.device.state r q = seq.tokens[q]?

/-- Every live request is followed. -/
def Tracks (c : ChunkedDecode σ H L) (target : Target H L) (m : DraftRunner σ H)
    (live : RequestId → Option Sequence) : Prop :=
  ∀ r seq, live r = some seq → ∃ state, c.Follows target m r seq state

/-- A batch of live requests. Its lengths have to be right where nothing was proposed yet. -/
structure Batched (c : ChunkedDecode σ H L) (m : DraftRunner σ H)
    (live : RequestId → Option Sequence) (batch : DecodeBatch) : Prop where
  ids : (batch.rows.map (·.requestId)).Nodup
  assigned : ∃ a, decodeAssignment c.layout (batch.rows.map (·.requestId))
    (batch.rows.map (·.cachePartition)) = .ok a
  params : batch.samplingParams = [] ∨ batch.samplingParams.length = batch.rows.length
  rows : ∀ row ∈ batch.rows, ∃ seq, live row.requestId = some seq ∧
    seq.tokens.getLast? = some row.tokenId ∧
    ∀ state, m.requestStates.lookup row.requestId = some state → state.proposedTokens = 0 →
      row.seqLen = seq.tokens.length

end ChunkedDecode

open ChunkedDecode

variable {target : Target H L} {live : RequestId → Option Sequence} {batch : DecodeBatch}
  {seq : Sequence} {state : DraftState H} {r : RequestId} {kernel : DecodeKernel σ H L}

theorem ChunkedDecode.Follows.committed (h : c.Follows target m r seq state) :
    seq.output.length = state.committedCount + 1 := by
  obtain ⟨first, hout⟩ := h.generated
  rw [hout, List.length_cons, Speculation.length_generate]

theorem ChunkedDecode.Follows.length_tokens (h : c.Follows target m r seq state) :
    seq.tokens.length = state.promptLen + state.committedCount + 1 := by
  have hcommitted := h.committed
  rw [Sequence.tokens, List.length_append, h.prompt]
  omega

/-- What a request is followed by stays where neither its state nor its rows change. -/
theorem ChunkedDecode.Follows.congr (h : c.Follows target m r seq state)
    (hstate : m'.requestStates.lookup r = m.requestStates.lookup r)
    (hholds : ∀ q, c.kernel.holds m'.device.state r q = c.kernel.holds m.device.state r q) :
    c.Follows target m' r seq state :=
  ⟨hstate.trans h.registered, h.draft, h.prompt, h.generated, h.accepted,
    fun q hq => (hholds q).trans (h.holds q hq)⟩

/-- The batch with the lengths of the runner. -/
def correctedBatch (m : DraftRunner σ H) (batch : DecodeBatch) : DecodeBatch :=
  batch.withSeqLens (correctMtpSeqLens m.requestStates batch.rows)

theorem correctedBatch_rows (m : DraftRunner σ H) (batch : DecodeBatch) :
    (correctedBatch m batch).rows = batch.rows.map fun row =>
      { row with seqLen := correctMtpSeqLen m.requestStates row } := by
  show List.zipWith _ batch.rows (batch.rows.map _) = _
  rw [List.zipWith_map_right, List.zipWith_self]

theorem mem_correctedBatch {row : DecodeRow} (h : row ∈ (correctedBatch m batch).rows) :
    ∃ row' ∈ batch.rows, row = { row' with seqLen := correctMtpSeqLen m.requestStates row' } := by
  rw [correctedBatch_rows] at h
  obtain ⟨row', hrow', rfl⟩ := List.mem_map.mp h
  exact ⟨row', hrow', rfl⟩

theorem map_correctedBatch {γ : Type} (f : DecodeRow → γ)
    (hf : ∀ row seqLen, f { row with seqLen } = f row) :
    (correctedBatch m batch).rows.map f = batch.rows.map f := by
  rw [correctedBatch_rows, List.map_map]
  exact List.map_congr_left fun row _ => hf row _

@[simp]
theorem length_correctedBatch : (correctedBatch m batch).rows.length = batch.rows.length := by
  rw [correctedBatch_rows, List.length_map]

/-- Whatever length the scheduler sent, a request whose drafts were proposed before gets its own. -/
theorem correctMtpSeqLen_eq {row : DecodeRow} (h : c.Follows target m row.requestId seq state)
    (hlen : state.proposedTokens = 0 → row.seqLen = seq.tokens.length) :
    correctMtpSeqLen m.requestStates row = seq.tokens.length := by
  unfold correctMtpSeqLen
  rw [h.registered]
  dsimp only
  split
  · exact h.length_tokens.symm
  · exact hlen (by omega)

/-- What the device holds of a row of a batch: all tokens but the last one. -/
def contextOf (live : RequestId → Option Sequence) (batch : DecodeBatch) (i : Nat) : List Int :=
  (((live (batch.rows.getD i default).requestId).map Sequence.tokens).getD []).dropLast

/-- A row of a batch with the request that it stands for. -/
structure RowOf (c : ChunkedDecode σ H L) (target : Target H L) (m : DraftRunner σ H)
    (live : RequestId → Option Sequence) (batch : DecodeBatch) (i : Nat) (row : DecodeRow)
    (seq : Sequence) (state : DraftState H) : Prop where
  staged : (correctedBatch m batch).rows[i]? = some row
  sequence : live row.requestId = some seq
  follows : c.Follows target m row.requestId seq state
  tokens : seq.tokens = contextOf live batch i ++ [row.tokenId]
  seqLen : row.seqLen = seq.tokens.length

theorem exists_rowOf (ht : c.Tracks target m live) (hb : c.Batched m live batch) {i : Nat}
    (hi : i < batch.rows.length) : ∃ row seq state, RowOf c target m live batch i row seq state := by
  have hmem := List.getElem_mem hi
  obtain ⟨seq, hseq, hlast, hlen⟩ := hb.rows _ hmem
  obtain ⟨state, hfollows⟩ := ht _ _ hseq
  refine ⟨{ batch.rows[i] with seqLen := correctMtpSeqLen m.requestStates batch.rows[i] }, seq, state,
    ?_, hseq, hfollows, ?_, ?_⟩
  · rw [correctedBatch_rows, List.getElem?_map, List.getElem?_eq_getElem hi]
    rfl
  · have hcontext : contextOf live batch i = seq.tokens.dropLast := by
      unfold contextOf
      rw [List.getD_eq_getElem _ _ hi, hseq]
      rfl
    rw [hcontext]
    exact (List.dropLast_append_getLast? _ hlast).symm
  · exact correctMtpSeqLen_eq hfollows fun hzero => hlen state hfollows.registered hzero

theorem exists_rowOf_of_mem (ht : c.Tracks target m live) (hb : c.Batched m live batch)
    {row : DecodeRow} (hmem : row ∈ (correctedBatch m batch).rows) :
    ∃ i seq state, RowOf c target m live batch i row seq state := by
  obtain ⟨i, hi⟩ := List.mem_iff_getElem?.mp hmem
  have hlt := (List.getElem?_eq_some_iff.mp hi).1
  obtain ⟨row', seq, state, hrow⟩ := exists_rowOf ht hb (hlt.trans_eq length_correctedBatch)
  obtain rfl := Option.some.inj (hi.symm.trans hrow.staged)
  exact ⟨i, seq, state, hrow⟩

/-- Correcting its length keeps the request of a row. -/
theorem RowOf.requestId_eq {i : Nat} {row row' : DecodeRow}
    (h : RowOf c target m live batch i row seq state) (hi : batch.rows[i]? = some row') :
    row'.requestId = row.requestId := by
  have hstaged := h.staged
  rw [correctedBatch_rows, List.getElem?_map, hi] at hstaged
  cases hstaged
  rfl

theorem verifiable (hc : c.Decodes target) (ht : c.Tracks target m live) (hb : c.Batched m live batch)
    {numDrafts : Nat} {drafts : List (List Int)}
    (hd : Drafted (correctedBatch m batch) numDrafts drafts) :
    (c.verification (correctedBatch m batch) numDrafts drafts).Verifiable target
      (contextOf live batch) where
  computes := hc.computes
  width := hc.width
  tokens := hc.tokens
  ids := by
    show ((correctedBatch m batch).rows.map (·.requestId)).Nodup
    rw [map_correctedBatch _ fun _ _ => rfl]
    exact hb.ids
  assigned := by
    show ∃ a, decodeAssignment c.layout ((correctedBatch m batch).rows.map (·.requestId))
      ((correctedBatch m batch).rows.map (·.cachePartition)) = .ok a
    rw [map_correctedBatch _ fun _ _ => rfl, map_correctedBatch _ fun _ _ => rfl]
    exact hb.assigned
  drafts := hd.rows
  depth := hd.depth
  seqLen i hi := by
    have hi' : i < batch.rows.length := hi.trans_eq length_correctedBatch
    obtain ⟨row, seq, state, hrow⟩ := exists_rowOf ht hb hi'
    show ((correctedBatch m batch).rows.getD i default).seqLen = _
    rw [List.getD_eq_getElem?_getD, hrow.staged, Option.getD_some, hrow.seqLen, hrow.tokens,
      List.length_append]
    rfl
  params := by
    show batch.samplingParams = [] ∨
      batch.samplingParams.length = (correctedBatch m batch).rows.length
    rw [length_correctedBatch]
    exact hb.params

section Verified
variable {numDrafts : Nat} {drafts : List (List Int)} {i : Nat} {row : DecodeRow} {device : Device σ}

theorem RowOf.row_eq (h : RowOf c target m live batch i row seq state) :
    (c.verification (correctedBatch m batch) numDrafts drafts).row i = row := by
  show (correctedBatch m batch).rows.getD i default = row
  rw [List.getD_eq_getElem?_getD, h.staged]
  rfl

/-- The device holds the context of every row. -/
theorem RowOf.holds (h : RowOf c target m live batch i row seq state)
    (hdevice : c.kernel.holds device.state = c.kernel.holds m.device.state) :
    (c.verification (correctedBatch m batch) numDrafts drafts).Holds (contextOf live batch)
      device.state i 0 := by
  intro q hq
  rw [h.row_eq]
  show c.kernel.holds device.state row.requestId q = _
  have hlen : (contextOf live batch i).length + 1 = seq.tokens.length := by
    rw [h.tokens, List.length_append]
    rfl
  rw [hdevice, h.follows.holds q (by omega), h.tokens,
    List.getElem?_append_left (by omega), List.getElem?_append_left (by omega)]

/-- The tokens that are accepted for a row are those that the target generates behind it. -/
theorem RowOf.accepted (h : RowOf c target m live batch i row seq state) :
    let v := c.verification (correctedBatch m batch) numDrafts drafts
    v.acceptedOf target (contextOf live batch) i =
      Speculation.generate target.next seq.tokens (v.matched target (contextOf live batch) i + 1) := by
  intro v
  have hrow : v.row i = row := h.row_eq
  show acceptRow (v.draftsOf i) (target.main _ ((v.row i).tokenId :: v.draftsOf i)) = _
  rw [hrow, h.tokens]
  show Speculation.accepted _ _ = Speculation.generate _ _ (target.matched _ (v.row i).tokenId _ + 1)
  rw [hrow]
  exact Speculation.accepted_eq_generate _ _ _

/-- A row is followed behind its verification. -/
theorem RowOf.next (h : RowOf c target m live batch i row seq state)
    {v : Verification σ H L} (hv : v = c.verification (correctedBatch m batch) numDrafts drafts)
    {state' : DraftState H} (hstate : m'.requestStates.lookup row.requestId = some state')
    (hdraft : state'.HasDraft) (hprompt : state'.promptLen = state.promptLen)
    (hcount : state'.committedCount =
      state.committedCount + (v.matched target (contextOf live batch) i + 1))
    (haccepted : state'.acceptedTokens ≤ state'.proposedTokens)
    (hholds : v.Holds (contextOf live batch) m'.device.state i
      (v.matched target (contextOf live batch) i + 1)) :
    c.Follows target m' row.requestId
      (seq.append (v.acceptedOf target (contextOf live batch) i)) state' := by
  subst hv
  set v := c.verification (correctedBatch m batch) numDrafts drafts
  have hrow : v.row i = row := h.row_eq
  have hgenerate : v.acceptedOf target (contextOf live batch) i = Speculation.generate target.next
      seq.tokens (v.matched target (contextOf live batch) i + 1) := h.accepted
  refine ⟨hstate, hdraft, hprompt.trans h.follows.prompt, ?_, haccepted, fun q hq => ?_⟩
  · obtain ⟨first, hout⟩ := h.follows.generated
    refine ⟨first, ?_⟩
    have htokens : seq.prompt ++ [first] ++
        Speculation.generate target.next (seq.prompt ++ [first]) state.committedCount = seq.tokens := by
      rw [Sequence.tokens, hout, List.append_assoc]
      rfl
    show seq.output ++ v.acceptedOf target (contextOf live batch) i = first ::
      Speculation.generate target.next (seq.prompt ++ [first]) state'.committedCount
    rw [hcount, Speculation.generate_add, htokens, hout, hgenerate]
    rfl
  · have hlen : seq.tokens.length = (contextOf live batch i).length + 1 := by
      rw [h.tokens, List.length_append]
      rfl
    rw [Sequence.tokens_append, List.length_append, hgenerate, Speculation.length_generate] at hq
    have hheld := hholds q (by omega)
    rw [hrow] at hheld
    have hinputs : contextOf live batch i ++ v.inputs i = seq.tokens ++ v.draftsOf i := by
      rw [Verification.inputs, hrow, h.tokens, List.append_assoc]
      rfl
    rw [Sequence.tokens_append]
    refine hheld.trans ?_
    rw [hinputs]
    by_cases hlt : q < seq.tokens.length
    · rw [List.getElem?_append_left hlt, List.getElem?_append_left hlt]
    · rw [List.getElem?_append_right (by omega), List.getElem?_append_right (by omega)]
      obtain ⟨token, hdraft, hpredicted⟩ := Speculation.getElem?_of_lt_matched
        (show q - seq.tokens.length < Speculation.matched (v.draftsOf i)
          (target.main (contextOf live batch i) ((v.row i).tokenId :: v.draftsOf i)) by
          show _ < v.matched target (contextOf live batch) i
          omega)
      rw [hdraft]
      show _ = (Speculation.accepted _ _)[_]?
      rw [Speculation.accepted, List.getElem?_take_of_lt]
      · exact hpredicted.symm
      · show _ < v.matched target (contextOf live batch) i + 1
        omega

/-- The counters of a row behind its verification are those of what it then returned. -/
theorem RowOf.advance (h : RowOf c target m live batch i row seq state)
    {v : Verification σ H L} (hv_def : v = c.verification (correctedBatch m batch) numDrafts drafts)
    (hv : v.Verifiable target (contextOf live batch)) {token : Int} {hidden : H} {position : Nat}
    (hlookup : m'.requestStates.lookup row.requestId =
      some ((state.commit numDrafts (v.acceptedOf target (contextOf live batch) i).length).withDraft
        token hidden position))
    (hholds : v.Holds (contextOf live batch) m'.device.state i
      (v.matched target (contextOf live batch) i + 1)) :
    c.Follows target m' row.requestId (seq.append (v.acceptedOf target (contextOf live batch) i))
      ((state.commit numDrafts (v.acceptedOf target (contextOf live batch) i).length).withDraft
        token hidden position) := by
  have hi : i < v.batch.rows.length := by
    rw [hv_def]
    exact (List.getElem?_eq_some_iff.mp h.staged).1
  have hlength := Verification.length_acceptedOf hv hi
  refine h.next hv_def hlookup (DraftState.hasDraft_withDraft _ _ _ _) rfl ?_ ?_ hholds
  · show state.committedCount + _ = _
    rw [hlength]
  · show state.acceptedTokens + (_ - 1) ≤ state.proposedTokens + numDrafts
    have hle := h.follows.accepted
    have hmatched := hv.matched_le hi
    have hdepth : v.numDrafts = numDrafts := by
      rw [hv_def]
      rfl
    omega

end Verified

/-- What a step of a batch leaves of the requests that are not in it. -/
structure Frame (kernel : DecodeKernel σ H L) (batch : DecodeBatch) (m m' : DraftRunner σ H) : Prop where
  states : ∀ r ∉ batch.rows.map (·.requestId), m'.requestStates.lookup r = m.requestStates.lookup r
  holds : ∀ r ∉ batch.rows.map (·.requestId), ∀ q,
    kernel.holds m'.device.state r q = kernel.holds m.device.state r q

theorem Frame.trans (h : Frame kernel batch m m') (h' : Frame kernel batch m' m'') : Frame kernel batch m m'' :=
  ⟨fun r hr => (h'.states r hr).trans (h.states r hr),
    fun r hr q => (h'.holds r hr q).trans (h.holds r hr q)⟩

theorem DraftRunner.Same.frame (h : m.Same kernel m')
    (batch : DecodeBatch) : Frame kernel batch m m' :=
  ⟨fun _ _ => by rw [h.states], fun _ _ _ => by rw [h.holds]⟩

theorem exec_onDevice {program : Raising String (Device σ) α} {result : Except String α}
    {device : Device σ} (h : exec program m.device = (result, device)) :
    exec (onDevice program : DraftM σ H α) m = (result, { m with device }) := by
  unfold onDevice
  rw [exec_bind_ok (exec_get m), h]
  exact exec_ofExcept _ _

/-- Writes to the states of a batch, one for each row. -/
theorem exec_rowUpdates {l : List β} {f : β → DraftState H → DraftState H}
    (hids : (batch.rows.map (·.requestId)).Nodup) (hlen : l.length = batch.rows.length)
    (hpresent : ∀ row ∈ batch.rows, (m.requestStates.lookup row.requestId).isSome) :
    ∃ states, exec ((batch.rows.zip l).forM fun e => updateDraftState e.1.requestId (f e.2)) m =
        (.ok ⟨⟩, { m with requestStates := states }) ∧
      (∀ r ∉ batch.rows.map (·.requestId), states.lookup r = m.requestStates.lookup r) ∧
      ∀ (i : Nat) (row : DecodeRow) (a : β), batch.rows[i]? = some row → l[i]? = some a →
        states.lookup row.requestId = (m.requestStates.lookup row.requestId).map (f a) := by
  have hkeys : (batch.rows.zip l).map (fun e => e.1.requestId) = batch.rows.map (·.requestId) := by
    have hfst : (batch.rows.zip l).map Prod.fst = batch.rows := List.map_fst_zip (by omega)
    rw [← congrArg (List.map (·.requestId)) hfst, List.map_map]
    rfl
  obtain ⟨states, hexec, hother, hwritten⟩ := exec_updates (m := m) (l := batch.rows.zip l)
    (f := fun e => f e.2) (by rw [hkeys]; exact hids)
    fun e he => hpresent e.1 (List.of_mem_zip he).1
  rw [hkeys] at hother
  refine ⟨states, hexec, hother, fun i row a hrow ha => ?_⟩
  exact hwritten (row, a) (List.mem_of_getElem? (List.getElem?_zip_eq_some.mpr ⟨hrow, ha⟩))

/-- The counters move on by what was proposed and what was returned. -/
theorem exec_recordVerification (kernel : DecodeKernel σ H L) (numDrafts : Nat)
    {accepted : List (List Int)}
    (hids : (batch.rows.map (·.requestId)).Nodup) (hlen : accepted.length = batch.rows.length)
    (hpresent : ∀ row ∈ batch.rows, (m.requestStates.lookup row.requestId).isSome) :
    ∃ m', exec (recordVerification batch numDrafts accepted) m = (.ok ⟨⟩, m') ∧
      m'.device = m.device ∧ Frame kernel batch m m' ∧
      ∀ (i : Nat) (row : DecodeRow) (tokens : List Int), batch.rows[i]? = some row →
        accepted[i]? = some tokens → m'.requestStates.lookup row.requestId =
          (m.requestStates.lookup row.requestId).map (·.commit numDrafts tokens.length) := by
  unfold recordVerification
  rw [exec_bind_ok (exec_modify _ _)]
  obtain ⟨states, hexec, hother, hwritten⟩ := exec_rowUpdates (m := { m with
      proposedTokens := m.proposedTokens + batch.rows.length * numDrafts
      acceptedTokens := m.acceptedTokens + (accepted.map (·.length - 1)).sum })
    (f := fun tokens state => state.commit numDrafts tokens.length) hids hlen hpresent
  exact ⟨_, hexec, rfl, ⟨hother, fun _ _ _ => rfl⟩, hwritten⟩

/-- The next drafts leave the counters alone. -/
theorem exec_draftNext (hquiet : c.drafter.Quiet kernel) {tails : List (Tail H)}
    (hids : (batch.rows.map (·.requestId)).Nodup) (hlen : tails.length = batch.rows.length)
    (hpresent : ∀ row ∈ batch.rows, (m.requestStates.lookup row.requestId).isSome) :
    ∃ m', kernel.holds m'.device.state = kernel.holds m.device.state ∧ Frame kernel batch m m' ∧
      ((∃ e s, exec (c.draftNext batch tails) m = (.error e, m') ∧
        (c.drafter.tokenStep s batch (tails.map (·.token)) (tails.map (·.hidden))
          (tails.map (·.position))).2 = .error e) ∨
      exec (c.draftNext batch tails) m = (.ok ⟨⟩, m') ∧
        ∀ row ∈ batch.rows, ∃ token hidden position, m'.requestStates.lookup row.requestId =
          (m.requestStates.lookup row.requestId).map (·.withDraft token hidden position)) := by
  unfold ChunkedDecode.draftNext
  rcases hdraft : exec (onDrafter fun s => c.drafter.tokenStep s batch (tails.map (·.token))
    (tails.map (·.hidden)) (tails.map (·.position))) m with ⟨e | drafted, m₁⟩
  · obtain ⟨hsame, -⟩ := (keeps_onDrafter fun s => hquiet.tokenStep s _ _ _ _).result (.refl m) hdraft
    refine ⟨m₁, hsame.holds, hsame.frame batch, .inl ⟨e, m.device.state, exec_bind_error hdraft, ?_⟩⟩
    rw [exec_onDrafter] at hdraft
    exact congrArg Prod.fst hdraft
  · obtain ⟨hsame, hanswer⟩ :=
      (keeps_onDrafter fun s => hquiet.tokenStep s _ _ _ _).result (.refl m) hdraft
    obtain ⟨s, hs⟩ := hanswer drafted rfl
    obtain ⟨htokens, hhidden⟩ := hquiet.answers _ _ _ _ _ _ _ hs
    have hzip : (drafted.1.zip (drafted.2.zip tails)).length = batch.rows.length := by
      simp [htokens, hhidden, hlen]
    rw [← hsame.states] at hpresent
    obtain ⟨states, hexec, hother, hwritten⟩ := exec_rowUpdates (m := m₁)
      (f := fun e state => state.withDraft e.1 e.2.1 (e.2.2.position + 1)) hids hzip hpresent
    refine ⟨{ m₁ with requestStates := states }, hsame.holds, ?_, .inr ⟨?_, fun row hrow => ?_⟩⟩
    · exact (hsame.frame batch).trans ⟨hother, fun _ _ _ => rfl⟩
    · exact (exec_bind_ok hdraft).trans hexec
    · obtain ⟨i, hi⟩ := List.mem_iff_getElem?.mp hrow
      have hlt := (List.getElem?_eq_some_iff.mp hi).1
      obtain ⟨e, he⟩ : ∃ e, (drafted.1.zip (drafted.2.zip tails))[i]? = some e :=
        ⟨_, List.getElem?_eq_getElem (by omega)⟩
      refine ⟨e.1, e.2.1, e.2.2.position + 1, ?_⟩
      rw [← hsame.states]
      exact hwritten i row e hi he

/-- The drafts that a step proposes for every request of a batch. -/
def draftDepth (c : ChunkedDecode σ H L) (m : DraftRunner σ H) (batch : DecodeBatch) : Nat :=
  mtpDraftCount c.numSpeculativeTokens c.maxSeqLen ((correctedBatch m batch).rows.map (·.seqLen))

/-- A batch that is sampled on the host is refused. -/
theorem exec_hostSampled (hdevice : ¬ batch.allowDeviceGreedySampling) :
    exec (c.runChunkedMtpDecode batch) m =
      (.error "DeepSeekV4 standalone MTP decode requires device sampling", m) := by
  unfold runChunkedMtpDecode
  rw [if_pos hdevice]
  rfl

/-- A step reads the states once, for the lengths. -/
theorem exec_corrected (hdevice : batch.allowDeviceGreedySampling) :
    exec (c.runChunkedMtpDecode batch) m = exec (do
    let drafts ← c.proposeMtpTokens (correctedBatch m batch) (draftDepth c m batch)
    let verified ← onDevice (verifyMtpDrafts
      (c.verification (correctedBatch m batch) (draftDepth c m batch) drafts))
    recordVerification (correctedBatch m batch) (draftDepth c m batch) verified.acceptedTokenIds
    c.draftNext (correctedBatch m batch) verified.tails
    return (verified.acceptedTokenIds, verified.firstLogits)) m := by
  unfold runChunkedMtpDecode
  rw [if_neg (not_not.mpr hdevice), exec_bind_ok (exec_get m)]
  rfl

theorem Frame.of_corrected (h : Frame kernel (correctedBatch m batch) m' m'') :
    Frame kernel batch m' m'' := by
  have hids : ((correctedBatch m batch).rows.map (·.requestId)) = batch.rows.map (·.requestId) :=
    map_correctedBatch _ fun _ _ => rfl
  exact ⟨fun r hr => h.states r (hids ▸ hr), fun r hr => h.holds r (hids ▸ hr)⟩

/-- The requests outside a batch are outside its verification. -/
theorem frame_of_keeps {numDrafts : Nat} {drafts : List (List Int)} {device : Device σ}
    (h : (c.verification (correctedBatch m batch) numDrafts drafts).Keeps m'.device device) :
    Frame c.kernel batch m' { m' with device } := by
  refine ⟨fun _ _ => rfl, fun r hr q => h.others r (fun i hi heq => hr ?_) q⟩
  have hi' : i < (correctedBatch m batch).rows.length := hi
  have hmem : r ∈ (correctedBatch m batch).rows.map (·.requestId) := by
    refine List.mem_map.mpr ⟨(correctedBatch m batch).rows[i], List.getElem_mem _, ?_⟩
    rw [← heq]
    show _ = ((correctedBatch m batch).rows.getD i default).requestId
    rw [List.getD_eq_getElem _ _ hi']
  rwa [map_correctedBatch _ fun _ _ => rfl] at hmem

/-- Why a step raises: the batch does not sample on the device, the drafting layer raises, a draft
cannot be proposed, or a chunk of the verification is not dispatched by the host or not answered by
the kernel. -/
inductive Refusal (c : ChunkedDecode σ H L) (target : Target H L) (m : DraftRunner σ H)
    (live : RequestId → Option Sequence) (batch : DecodeBatch) : Prop
  | sampling : ¬ batch.allowDeviceGreedySampling → Refusal c target m live batch
  | propose {e : String} {m₁ : DraftRunner σ H} :
      exec (c.proposeMtpTokens (correctedBatch m batch) (draftDepth c m batch)) m = (.error e, m₁) →
      Refusal c target m live batch
  | verify {drafts : List (List Int)} :
      Drafted (correctedBatch m batch) (draftDepth c m batch) drafts →
      ¬ ((c.verification (correctedBatch m batch) (draftDepth c m batch) drafts).AdmittedFrom target
        (contextOf live batch) 0 ∧ c.kernel.Answers) → Refusal c target m live batch
  | drafter {s : σ} {tokenIds : List Int} {hidden : List H} {positions : List Nat} {e : String} :
      (c.drafter.tokenStep s (correctedBatch m batch) tokenIds hidden positions).2 = .error e →
      Refusal c target m live batch

section Step
variable {m₁ : DraftRunner σ H} {drafts : List (List Int)}

/-- The drafts are proposed, or the step raises. -/
theorem exec_proposing (hc : c.Decodes target) (ht : c.Tracks target m live)
    (hb : c.Batched m live batch) :
    ∃ m₁, m.Same c.kernel m₁ ∧
      ((∃ e, exec (c.proposeMtpTokens (correctedBatch m batch) (draftDepth c m batch)) m =
        (.error e, m₁)) ∨
      ∃ drafts, exec (c.proposeMtpTokens (correctedBatch m batch) (draftDepth c m batch)) m =
        (.ok drafts, m₁) ∧ Drafted (correctedBatch m batch) (draftDepth c m batch) drafts) := by
  have hdrafts : ∀ row ∈ (correctedBatch m batch).rows, ∀ state,
      m.requestStates.lookup row.requestId = some state → state.draftTokenId.isSome := by
    intro row hmem state hstate
    obtain ⟨i, seq, state', hrow⟩ := exists_rowOf_of_mem ht hb hmem
    obtain rfl := Option.some.inj (hstate.symm.trans hrow.follows.registered)
    exact hrow.follows.draft.token
  rcases hpropose : exec (c.proposeMtpTokens (correctedBatch m batch) (draftDepth c m batch)) m
    with ⟨e | drafts, m₁⟩
  · obtain ⟨hsame, -⟩ := (keeps_proposeMtpTokens hc.quiet hdrafts).result (.refl m) hpropose
    exact ⟨m₁, hsame, .inl ⟨e, rfl⟩⟩
  · obtain ⟨hsame, hdrafted⟩ :=
      (keeps_proposeMtpTokens hc.quiet hdrafts).result (.refl m) hpropose
    exact ⟨m₁, hsame, .inr ⟨drafts, rfl, hdrafted drafts rfl⟩⟩

/-- The drafts are verified, or the step raises; the requests outside the batch stay. -/
theorem exec_verifying (hc : c.Decodes target) (ht : c.Tracks target m live)
    (hb : c.Batched m live batch) (hsame : m.Same c.kernel m₁)
    (hd : Drafted (correctedBatch m batch) (draftDepth c m batch) drafts) {v : Verification σ H L}
    (hv : v = c.verification (correctedBatch m batch) (draftDepth c m batch) drafts) :
    ∃ device, Frame c.kernel batch m { m₁ with device } ∧
      ((∃ e, exec (onDevice (verifyMtpDrafts v)) m₁ = (.error e, { m₁ with device }) ∧
        Refusal c target m live batch) ∨
      exec (onDevice (verifyMtpDrafts v)) m₁ =
          (.ok (v.specified target (contextOf live batch)), { m₁ with device }) ∧
        ∀ i < batch.rows.length, v.Holds (contextOf live batch) device.state i
          (v.matched target (contextOf live batch) i + 1)) := by
  subst hv
  have hlen : (correctedBatch m batch).rows.length = batch.rows.length := length_correctedBatch
  have hholds : ∀ i < (correctedBatch m batch).rows.length,
      (c.verification (correctedBatch m batch) (draftDepth c m batch) drafts).Holds
        (contextOf live batch) m₁.device.state i 0 := by
    intro i hi
    obtain ⟨row, seq, state, hrow⟩ := exists_rowOf ht hb (hi.trans_eq hlen)
    exact hrow.holds hsame.holds
  rcases Verification.exec_verifyMtpDrafts (verifiable hc ht hb hd) hholds with
    ⟨-, device, hverify, hheld, hkeeps⟩ | ⟨hrefused, e, device, hverify, hkeeps⟩
  · exact ⟨device, (hsame.frame batch).trans (frame_of_keeps hkeeps),
      .inr ⟨exec_onDevice hverify, fun i hi => hheld i (hi.trans_eq hlen.symm)⟩⟩
  · exact ⟨device, (hsame.frame batch).trans (frame_of_keeps hkeeps),
      .inl ⟨e, exec_onDevice hverify, .verify hd hrefused⟩⟩

variable (m₁) in
/-- The counters move on and the next drafts are stored, or the drafting layer raises. -/
theorem exec_advancing (hc : c.Decodes target) (ht : c.Tracks target m live)
    (hb : c.Batched m live batch) (hstates : m₁.requestStates = m.requestStates)
    {verified : MtpVerification H L} (haccepted : verified.acceptedTokenIds.length = batch.rows.length)
    (htails : verified.tails.length = batch.rows.length) :
    ∃ m', c.kernel.holds m'.device.state = c.kernel.holds m₁.device.state ∧
      Frame c.kernel batch m₁ m' ∧
      ((∃ e, exec (do
          recordVerification (correctedBatch m batch) (draftDepth c m batch) verified.acceptedTokenIds
          c.draftNext (correctedBatch m batch) verified.tails
          return (verified.acceptedTokenIds, verified.firstLogits)) m₁ = (.error e, m') ∧
        Refusal c target m live batch) ∨
      exec (do
          recordVerification (correctedBatch m batch) (draftDepth c m batch) verified.acceptedTokenIds
          c.draftNext (correctedBatch m batch) verified.tails
          return (verified.acceptedTokenIds, verified.firstLogits)) m₁ =
          (.ok (verified.acceptedTokenIds, verified.firstLogits), m') ∧
        ∀ (i : Nat) (row : DecodeRow) (seq : Sequence) (state : DraftState H) (tokens : List Int),
          RowOf c target m live batch i row seq state → verified.acceptedTokenIds[i]? = some tokens →
          ∃ token hidden position, m'.requestStates.lookup row.requestId =
            some ((state.commit (draftDepth c m batch) tokens.length).withDraft token hidden position)) := by
  have hlen : (correctedBatch m batch).rows.length = batch.rows.length := length_correctedBatch
  have hids : ((correctedBatch m batch).rows.map (·.requestId)).Nodup := by
    rw [map_correctedBatch _ fun _ _ => rfl]
    exact hb.ids
  have hpresent : ∀ row ∈ (correctedBatch m batch).rows,
      (m₁.requestStates.lookup row.requestId).isSome := by
    intro row hmem
    obtain ⟨i, seq, state, hrow⟩ := exists_rowOf_of_mem ht hb hmem
    rw [hstates, hrow.follows.registered]
    rfl
  obtain ⟨m₂, hrecord, hdevice, hframe₂, hcommit⟩ := exec_recordVerification c.kernel
    (draftDepth c m batch) hids (haccepted.trans hlen.symm) hpresent
  have hpresent₂ : ∀ row ∈ (correctedBatch m batch).rows,
      (m₂.requestStates.lookup row.requestId).isSome := by
    intro row hmem
    obtain ⟨i, hi⟩ := List.mem_iff_getElem?.mp hmem
    have hlt := (List.getElem?_eq_some_iff.mp hi).1
    rw [hcommit i row _ hi (List.getElem?_eq_getElem (by omega)), Option.isSome_map]
    exact hpresent row hmem
  obtain ⟨m₃, hkept, hframe₃, hnext⟩ :=
    exec_draftNext hc.quiet hids (htails.trans hlen.symm) hpresent₂
  rw [exec_bind_ok hrecord]
  refine ⟨m₃, by rw [hkept, hdevice], hframe₂.of_corrected.trans hframe₃.of_corrected, ?_⟩
  rcases hnext with ⟨e, _, herror, hdrafter⟩ | ⟨hok, hwritten⟩
  · exact .inl ⟨e, exec_bind_error herror, .drafter hdrafter⟩
  refine .inr ⟨exec_bind_ok hok, fun i row seq state tokens hrow htokens => ?_⟩
  obtain ⟨token, hidden, position, hlookup⟩ := hwritten row (List.mem_of_getElem? hrow.staged)
  rw [hcommit i row tokens hrow.staged htokens, hstates, hrow.follows.registered] at hlookup
  exact ⟨token, hidden, position, hlookup⟩

end Step

/-- A step either raises, and leaves the requests outside the batch alone, or it appends to every
request of the batch what the target generates next. -/
theorem exec_runChunkedMtpDecode (hc : c.Decodes target) (ht : c.Tracks target m live)
    (hb : c.Batched m live batch) :
    ∃ m', Frame c.kernel batch m m' ∧
      ((∃ e, exec (c.runChunkedMtpDecode batch) m = (.error e, m') ∧ Refusal c target m live batch) ∨
      ∃ accepted logits, exec (c.runChunkedMtpDecode batch) m = (.ok (accepted, logits), m') ∧
        accepted.length = batch.rows.length ∧
        ∀ (i : Nat) (row : DecodeRow) (seq : Sequence), batch.rows[i]? = some row →
          live row.requestId = some seq → ∃ tokens state, accepted[i]? = some tokens ∧
            0 < tokens.length ∧ tokens.length ≤ draftDepth c m batch + 1 ∧
            c.Follows target m' row.requestId (seq.append tokens) state) := by
  by_cases hdevice : batch.allowDeviceGreedySampling
  swap
  · exact ⟨m, (DraftRunner.Same.refl m).frame batch,
      .inl ⟨_, exec_hostSampled hdevice, .sampling hdevice⟩⟩
  rw [exec_corrected hdevice]
  obtain ⟨m₁, hsame, ⟨e, herror⟩ | ⟨drafts, hpropose, hdrafted⟩⟩ := exec_proposing hc ht hb
  · exact ⟨m₁, hsame.frame batch, .inl ⟨e, exec_bind_error herror, .propose herror⟩⟩
  rw [exec_bind_ok hpropose]
  obtain ⟨v, hv_def⟩ :
      ∃ v, v = c.verification (correctedBatch m batch) (draftDepth c m batch) drafts := ⟨_, rfl⟩
  obtain ⟨device, hframe₁, ⟨e, herror, hrefusal⟩ | ⟨hverify, hheld⟩⟩ :=
    exec_verifying hc ht hb hsame hdrafted hv_def
  · rw [hv_def] at herror
    exact ⟨_, hframe₁, .inl ⟨e, exec_bind_error herror, hrefusal⟩⟩
  rw [← hv_def, exec_bind_ok hverify]
  have hv : v.Verifiable target (contextOf live batch) := hv_def ▸ verifiable hc ht hb hdrafted
  have hlen : v.batch.rows.length = batch.rows.length := by
    rw [hv_def]
    exact length_correctedBatch
  have haccepted : (v.specified target (contextOf live batch)).acceptedTokenIds.length =
      batch.rows.length := by
    simp only [Verification.specified, List.length_map, List.length_range, hlen]
  have htails : (v.specified target (contextOf live batch)).tails.length = batch.rows.length := by
    simp only [Verification.specified, List.length_map, List.length_range, hlen]
  obtain ⟨m', hkept, hframe₂, ⟨e, herror, hrefusal⟩ | ⟨hok, hwritten⟩⟩ :=
    exec_advancing { m₁ with device } hc ht hb hsame.states haccepted htails
  · exact ⟨m', hframe₁.trans hframe₂, .inl ⟨e, herror, hrefusal⟩⟩
  refine ⟨m', hframe₁.trans hframe₂,
    .inr ⟨_, _, hok, haccepted, fun i row₀ seq₀ hrow₀ hseq₀ => ?_⟩⟩
  have hi : i < batch.rows.length := (List.getElem?_eq_some_iff.mp hrow₀).1
  obtain ⟨row, seq, state, hrow⟩ := exists_rowOf ht hb hi
  have hid := hrow.requestId_eq hrow₀
  obtain rfl : seq₀ = seq := Option.some.inj (hseq₀.symm.trans (hid ▸ hrow.sequence))
  have hi' : i < v.batch.rows.length := hi.trans_eq hlen.symm
  have hget : (v.specified target (contextOf live batch)).acceptedTokenIds[i]? =
      some (v.acceptedOf target (contextOf live batch) i) := by
    simp only [Verification.specified, List.getElem?_map, List.getElem?_range hi', Option.map_some]
  have hlength := Verification.length_acceptedOf hv hi'
  have hmatched := hv.matched_le hi'
  have hdepth : v.numDrafts = draftDepth c m batch := by
    rw [hv_def]
    rfl
  obtain ⟨token, hidden, position, hlookup⟩ := hwritten i row seq₀ state _ hrow hget
  have hholds : v.Holds (contextOf live batch) m'.device.state i
      (v.matched target (contextOf live batch) i + 1) := by
    intro q hq
    subst hv_def
    show c.kernel.holds m'.device.state _ q = _
    rw [hkept]
    exact hheld i hi q hq
  exact ⟨_, _, hget, by omega, by omega, hid ▸ hrow.advance hv_def hv hlookup hholds⟩

end PyptoServing.Runner
