import PyptoServing.Runner.DecodePlacement
import PyptoServing.Runner.MtpAccept

/-!
# What a wave stages

What one wave of requests stages for the kernel, row by row.
-/
namespace PyptoServing.Runner

open Lib Lib.Raising Memory Sched

section Rows
variable {α β : Type} {rows : List α} {indices : List Nat} {width k : Nat} {row : List α}

theorem rowsAt_map (f : α → β) (rows : List α) (indices : List Nat) :
    rowsAt (rows.map f) indices = (rowsAt rows indices).map f := by
  unfold rowsAt
  rw [List.map_filterMap]
  exact List.filterMap_congr fun i _ => List.getElem?_map

theorem rowsAt_eq (d : α) (h : ∀ i ∈ indices, i < rows.length) :
    rowsAt rows indices = indices.map fun i => rows.getD i d := by
  unfold rowsAt
  rw [← List.filterMap_eq_map]
  refine List.filterMap_congr fun i hi => ?_
  rw [Function.comp_apply, List.getD_eq_getElem?_getD, List.getElem?_eq_getElem (h i hi)]
  rfl

theorem padChunk_take (hk : k < row.length) : (padChunk width row)[k]? = row[k]? :=
  List.getElem?_append_left hk

theorem length_padChunk (hne : row ≠ []) (hle : row.length ≤ width) :
    (padChunk width row).length = width := by
  unfold padChunk
  rw [List.getLast?_eq_some_getLast hne]
  simp only [Option.map_some, Option.getD_some, List.length_append, List.length_replicate]
  omega

theorem mem_of_mem_padChunk {x : α} (h : x ∈ padChunk width row) : x ∈ row := by
  unfold padChunk at h
  rcases List.mem_append.mp h with h | h
  · exact h
  · cases hlast : row.getLast? with
    | none =>
      rw [hlast] at h
      cases h
    | some y =>
      rw [hlast] at h
      obtain rfl := List.eq_of_mem_replicate h
      exact List.mem_of_getLast? hlast

end Rows

namespace DecodeInputs

/-- A packed row that the kernel computes: its request, its position and its token. -/
structure Active (inputs : DecodeInputs) (width : Nat) (r : RequestId) (position : Nat) (token : Int)
    (rank row : Nat) : Prop where
  live : row < inputs.numTokensPerOwner.getD rank 0
  owner : (inputs.owners.getD rank [])[row / width]? = some r
  token : (inputs.inputIds rank (row / width))[row % width]? = some token
  position : (inputs.positionIds rank (row / width))[row % width]? = some position

/-- Inputs that say one token for each position, inside the length of the request. -/
structure Consistent (inputs : DecodeInputs) (width : Nat) : Prop where
  token : ∀ {r position token token' rank row rank' row'},
    inputs.Active width r position token rank row →
    inputs.Active width r position token' rank' row' → token = token'
  length : ∀ {r position token rank row}, inputs.Active width r position token rank row →
    position < inputs.kvSeqLens rank (row / width)

end DecodeInputs

variable {σ H L : Type}

/-- A kernel that decodes with a target. A dispatch that returns stores the tokens of the active rows
at their positions, leaves the other positions alone, and predicts behind what a request holds up to
a row; one that fails leaves alone the requests that it has no active row of. -/
structure DecodeKernel.Computes (kernel : DecodeKernel σ H L) (target : Target H L) (width : Nat) :
    Prop where
  written : ∀ {s s' inputs output r position token rank row},
    kernel.run s inputs = (s', .ok output) → inputs.Consistent width →
    inputs.Active width r position token rank row → kernel.holds s' r position = some token
  kept : ∀ {s s' inputs output r position}, kernel.run s inputs = (s', .ok output) →
    inputs.Consistent width → (∀ token rank row, ¬ inputs.Active width r position token rank row) →
    kernel.holds s' r position = kernel.holds s r position
  predicts : ∀ {s s' inputs output r position token rank row context},
    kernel.run s inputs = (s', .ok output) → inputs.Consistent width →
    inputs.Active width r position token rank row → context.length = position + 1 →
    (∀ q ≤ position, kernel.holds s' r q = context[q]?) →
    output.sampledIds rank row = target.next context ∧
      output.preHcHidden rank row = target.hidden context ∧
      output.logits rank row = target.logits context
  spared : ∀ {s s' inputs e r}, kernel.run s inputs = (s', .error e) → inputs.Consistent width →
    (∀ position token rank row, ¬ inputs.Active width r position token rank row) →
    ∀ position, kernel.holds s' r position = kernel.holds s r position

/-- A kernel whose dispatches all return. -/
def DecodeKernel.Answers (kernel : DecodeKernel σ H L) : Prop :=
  ∀ s inputs, ∃ s' output, kernel.run s inputs = (s', .ok output)

namespace Verification
variable (v : Verification σ H L)

def row (i : Nat) : DecodeRow := v.batch.rows.getD i default

def draftsOf (i : Nat) : List Int := v.drafts.getD i []

/-- The current token of a request and its drafts. -/
def inputs (i : Nat) : List Int := (v.row i).tokenId :: v.draftsOf i

def rank (i : Nat) : Nat := ((v.row i).cachePartition).getD 0

def tokenRow (inputOffset realWidth i : Nat) : List Int :=
  padChunk v.layout.decodeSeq (((v.inputs i).drop inputOffset).take realWidth)

def positionRow (inputOffset realWidth i : Nat) : List Nat :=
  padChunk v.layout.decodeSeq
    ((List.range realWidth).map fun offset => (v.row i).seqLen - 1 + inputOffset + offset)

/-- A batch whose requests stand for contexts. -/
structure Verifiable (target : Target H L) (context : Nat → List Int) : Prop where
  computes : v.kernel.Computes target v.layout.decodeSeq
  width : 0 < v.layout.decodeSeq
  tokens : v.layout.decodeTokens = v.layout.decodeBatch * v.layout.decodeSeq
  ids : (v.batch.rows.map (·.requestId)).Nodup
  assigned : ∃ a, decodeAssignment v.layout (v.batch.rows.map (·.requestId))
    (v.batch.rows.map (·.cachePartition)) = .ok a
  drafts : v.drafts.length = v.batch.rows.length
  depth : ∀ drafts ∈ v.drafts, drafts.length = v.numDrafts
  seqLen : ∀ i < v.batch.rows.length, (v.row i).seqLen = (context i).length + 1
  params : v.batch.samplingParams = [] ∨ v.batch.samplingParams.length = v.batch.rows.length

variable {v} {target : Target H L} {context : Nat → List Int} {i o width : Nat} {active : List Nat}

theorem Verifiable.length_draftsOf (h : v.Verifiable target context)
    (hi : i < v.batch.rows.length) : (v.draftsOf i).length = v.numDrafts := by
  refine h.depth _ ?_
  rw [draftsOf, List.getD_eq_getElem?_getD, List.getElem?_eq_getElem (by rw [h.drafts]; exact hi)]
  exact List.getElem_mem _

theorem Verifiable.length_inputs (h : v.Verifiable target context)
    (hi : i < v.batch.rows.length) : (v.inputs i).length = v.numDrafts + 1 := by
  rw [inputs, List.length_cons, h.length_draftsOf hi]

theorem Verifiable.fits (h : v.Verifiable target context) :
    Fits v.layout (v.batch.rows.map (·.cachePartition)) := by
  obtain ⟨a, ha⟩ := h.assigned
  exact (fits_of_assignment ha).2.2

theorem map_row {α : Type} (f : DecodeRow → α) :
    (List.range v.batch.rows.length).map (fun i => f (v.row i)) = v.batch.rows.map f := by
  refine List.ext_getElem (by simp) fun i hi hi' => ?_
  rw [List.length_map, List.length_range] at hi
  simp [row, hi]

theorem row_mem (hi : i < v.batch.rows.length) : v.row i ∈ v.batch.rows := by
  rw [row, List.getD_eq_getElem?_getD, List.getElem?_eq_getElem hi]
  exact List.getElem_mem _

theorem Verifiable.cachePartition (h : v.Verifiable target context)
    (hi : i < v.batch.rows.length) :
    (v.row i).cachePartition = some (v.rank i) ∧ v.rank i < v.layout.ranks := by
  obtain ⟨rank, hlt, hrank⟩ := h.fits.ranked _ (List.mem_map_of_mem (row_mem hi))
  rw [Verification.rank, hrank]
  exact ⟨rfl, hlt⟩

/-- The requests of a batch are told apart by their ids. -/
theorem Verifiable.ids_inj (h : v.Verifiable target context) {j : Nat}
    (hi : i < v.batch.rows.length) (hj : j < v.batch.rows.length)
    (heq : (v.row i).requestId = (v.row j).requestId) : i = j := by
  have hget : ∀ k, k < v.batch.rows.length →
      (v.batch.rows.map (·.requestId))[k]? = some (v.row k).requestId := by
    intro k hk
    rw [List.getElem?_map, row, List.getD_eq_getElem?_getD, List.getElem?_eq_getElem hk]
    rfl
  refine (List.getElem?_inj ?_ h.ids).mp ?_
  · rw [List.length_map]
    exact hi
  · rw [hget i hi, hget j hj, heq]

theorem select_rows (hactive : ∀ i ∈ active, i < v.batch.rows.length) :
    (selectDecodeBatchRows v.batch active).rows = active.map v.row :=
  rowsAt_eq default hactive

theorem Verifiable.activeRows_eq (h : v.Verifiable target context)
    (hactive : ∀ i ∈ active, i < v.batch.rows.length) (o width : Nat) :
    v.activeRows active o width = active.map (v.tokenRow o width) := by
  have hlen : v.inputSequences.length = v.batch.rows.length := by
    rw [inputSequences, List.length_zipWith, h.drafts, Nat.min_self]
  rw [activeRows, rowsAt_map, rowsAt_eq [] (by rw [hlen]; exact hactive), List.map_map]
  refine List.map_congr_left fun i hi => ?_
  have hlt := hactive i hi
  have hget : v.inputSequences.getD i [] = v.inputs i := by
    rw [inputSequences, List.getD_eq_getElem?_getD, List.getElem?_zipWith, inputs, row, draftsOf,
      List.getD_eq_getElem?_getD, List.getD_eq_getElem?_getD, List.getElem?_eq_getElem hlt,
      List.getElem?_eq_getElem (by rw [h.drafts]; exact hlt)]
    rfl
  rw [Function.comp_apply, hget, tokenRow]

theorem positionRows_eq (hactive : ∀ i ∈ active, i < v.batch.rows.length) (o width : Nat) :
    v.positionRows active o width = active.map (v.positionRow o width) := by
  rw [positionRows, rowsAt_map, rowsAt_eq default hactive, List.map_map]
  rfl

variable (v) in
/-- The batch of one wave. -/
def waveBatch (wave : List Nat) (o width : Nat) : DecodeBatch :=
  { v.batch with
    rows := wave.map fun i => { v.row i with seqLen := (v.row i).seqLen + o + width - 1 } }

variable (v) in
/-- What one wave stages. -/
def staged (a : DecodeAssignment) (wave : List Nat) (o width : Nat) : DecodeInputs :=
  stageDecode (v.waveBatch wave o width) a width (wave.map (v.positionRow o width))
    (wave.map (v.tokenRow o width))

variable (v) in
/-- A wave of distinct requests, one a rank unless it has the compiled width. -/
structure IsWave (wave : List Nat) (o width : Nat) : Prop where
  ne : wave ≠ []
  bound : ∀ i ∈ wave, i < v.batch.rows.length
  nodup : wave.Nodup
  pos : 0 < width
  le : width ≤ v.layout.decodeSeq
  depth : o + width ≤ v.numDrafts + 1
  spread : width = v.layout.decodeSeq ∨ (wave.map v.rank).Nodup

variable {wave : List Nat} {a : DecodeAssignment} {j k rank localRow : Nat}

theorem Verifiable.tokenRow_get (h : v.Verifiable target context) (hw : v.IsWave wave o width)
    (hi : i ∈ wave) (hk : k < width) : (v.tokenRow o width i)[k]? = (v.inputs i)[o + k]? := by
  have hlen := h.length_inputs (hw.bound i hi)
  have hdepth := hw.depth
  rw [tokenRow, padChunk_take (by rw [List.length_take, List.length_drop]; omega),
    List.getElem?_take_of_lt hk, List.getElem?_drop]

theorem positionRow_get (hk : k < width) :
    (v.positionRow o width i)[k]? = some ((v.row i).seqLen - 1 + o + k) := by
  rw [positionRow, padChunk_take (by simpa using hk), List.getElem?_map, List.getElem?_range hk]
  rfl

theorem Verifiable.length_tokenRow (h : v.Verifiable target context) (hw : v.IsWave wave o width)
    (hi : i ∈ wave) : (v.tokenRow o width i).length = v.layout.decodeSeq := by
  have hlen := h.length_inputs (hw.bound i hi)
  have hdepth := hw.depth
  have hpos := hw.pos
  have hle := hw.le
  refine length_padChunk (List.ne_nil_of_length_pos ?_) ?_
  · rw [List.length_take, List.length_drop]
    omega
  · rw [List.length_take]
    omega

theorem length_positionRow (hw : v.IsWave wave o width) :
    (v.positionRow o width i).length = v.layout.decodeSeq := by
  have hpos := hw.pos
  have hle := hw.le
  refine length_padChunk (List.ne_nil_of_length_pos ?_) ?_
  · rwa [List.length_map, List.length_range]
  · rwa [List.length_map, List.length_range]

/-- The largest staged position of a request. -/
theorem positionRow_le (hw : v.IsWave wave o width) {p : Nat} (hp : p ∈ v.positionRow o width i) :
    p ≤ (v.row i).seqLen - 1 + o + (width - 1) := by
  obtain ⟨k, hk, rfl⟩ := List.mem_map.mp (mem_of_mem_padChunk hp)
  have hlt := List.mem_range.mp hk
  have hpos := hw.pos
  omega

theorem positionRow_mem (hw : v.IsWave wave o width) :
    (v.row i).seqLen - 1 + o + (width - 1) ∈ v.positionRow o width i := by
  have hpos := hw.pos
  exact List.mem_of_getElem? (positionRow_get (by omega))

variable (v) in
/-- A packed row of a wave: the input `k` of a chunk of request `i`. -/
structure StagedRow (wave : List Nat) (width rank row i k : Nat) : Prop where
  mem : i ∈ wave
  rank_eq : v.rank i = rank
  offset : k < width
  localRow : ∃ j localRow, wave[j]? = some i ∧
    (rowsOf (wave.map v.rank) wave.length rank)[localRow]? = some j ∧
    row = localRow * v.layout.decodeSeq + k

section Rows
variable (ha : Assigned v.layout (wave.map v.rank) a)
include ha

theorem indices_getD (hrank : rank < v.layout.ranks) :
    a.indicesByRank.getD rank [] = rowsOf (wave.map v.rank) wave.length rank := by
  rw [ha.rows, List.getD_eq_getElem?_getD, List.getElem?_map, List.getElem?_range hrank,
    List.length_map]
  rfl

/-- A rank decodes at most one request of a wave that is not full. -/
theorem IsWave.count_le (hw : v.IsWave wave o width) (hrank : rank < v.layout.ranks)
    (hnarrow : width ≠ v.layout.decodeSeq) : (a.indicesByRank.getD rank []).length ≤ 1 := by
  rw [indices_getD ha hrank, length_rowsOf _ _ _ (by rw [List.length_map]),
    List.take_of_length_le (by rw [List.length_map])]
  exact List.nodup_iff_count_le_one.mp (hw.spread.resolve_left hnarrow) _

theorem counts_getD (hrank : rank < v.layout.ranks) :
    (staged v a wave o width).numTokensPerOwner.getD rank 0 =
      (a.indicesByRank.getD rank []).length * width := by
  have hlt : rank < a.indicesByRank.length := by
    rw [ha.rows, List.length_map, List.length_range]
    exact hrank
  show (a.perRankCounts.map (· * width)).getD rank 0 = _
  rw [ha.counts, List.getD_eq_getElem?_getD, List.getD_eq_getElem?_getD, List.getElem?_map,
    List.getElem?_map, List.getElem?_eq_getElem hlt]
  rfl

theorem owners_getD (hrank : rank < v.layout.ranks) :
    (staged v a wave o width).owners.getD rank [] =
      (rowsOf (wave.map v.rank) wave.length rank).map
        fun j => (v.row (wave.getD j 0)).requestId := by
  have hlt : rank < a.indicesByRank.length := by
    rw [ha.rows, List.length_map, List.length_range]
    exact hrank
  have hbound : ∀ j ∈ rowsOf (wave.map v.rank) wave.length rank, j < wave.length :=
    fun j hj => (mem_rowsOf.mp hj).1
  have hget := indices_getD ha hrank
  rw [List.getD_eq_getElem?_getD, List.getElem?_eq_getElem hlt, Option.getD_some] at hget
  show (a.indicesByRank.map fun indices =>
    (rowsAt (v.waveBatch wave o width).rows indices).map (·.requestId)).getD rank [] = _
  rw [List.getD_eq_getElem?_getD, List.getElem?_map, List.getElem?_eq_getElem hlt, hget,
    Option.map_some, Option.getD_some, waveBatch, rowsAt_map, rowsAt_eq 0 hbound, List.map_map,
    List.map_map]
  rfl

theorem stagedIndex_eq (hrank : rank < v.layout.ranks)
    (hrow : (rowsOf (wave.map v.rank) wave.length rank)[localRow]? = some j) :
    stagedIndex a rank localRow = j := by
  unfold stagedIndex
  dsimp only
  rw [indices_getD ha hrank, hrow]
  rfl

theorem active_of_staged (h : v.Verifiable target context) (hw : v.IsWave wave o width)
    {row : Nat} (hs : v.StagedRow wave width rank row i k) :
    ∃ token, (v.inputs i)[o + k]? = some token ∧
      (staged v a wave o width).Active v.layout.decodeSeq (v.row i).requestId
        ((context i).length + o + k) token rank row := by
  obtain ⟨j, localRow, hj, hrow, rfl⟩ := hs.localRow
  have hi := hw.bound i hs.mem
  have hrank : rank < v.layout.ranks := hs.rank_eq ▸ (h.cachePartition hi).2
  have hk := hs.offset
  have hpos := hw.pos
  have hle := hw.le
  have hdepth := hw.depth
  have hlen := h.length_inputs hi
  have hlocal : localRow < (a.indicesByRank.getD rank []).length := by
    rw [indices_getD ha hrank]
    exact (List.getElem?_eq_some_iff.mp hrow).1
  have hdiv : (localRow * v.layout.decodeSeq + k) / v.layout.decodeSeq = localRow := by
    rw [Nat.mul_comm, Nat.mul_add_div h.width, Nat.div_eq_of_lt (by omega), Nat.add_zero]
  have hmod : (localRow * v.layout.decodeSeq + k) % v.layout.decodeSeq = k := by
    rw [Nat.mul_comm, Nat.mul_add_mod, Nat.mod_eq_of_lt (by omega)]
  have hwave : wave.getD j 0 = i := by
    rw [List.getD_eq_getElem?_getD, hj]
    rfl
  refine ⟨(v.inputs i)[o + k], List.getElem?_eq_getElem (by omega), ?_, ?_, ?_, ?_⟩
  · rw [counts_getD ha hrank]
    by_cases hfull : width = v.layout.decodeSeq
    · have hmul : (localRow + 1) * width ≤ (a.indicesByRank.getD rank []).length * width :=
        Nat.mul_le_mul_right _ hlocal
      rw [Nat.add_mul, Nat.one_mul, hfull] at hmul
      rw [hfull]
      omega
    · have hone := hw.count_le ha hrank hfull
      obtain rfl : localRow = 0 := by omega
      have hmul : 1 * width ≤ (a.indicesByRank.getD rank []).length * width :=
        Nat.mul_le_mul_right _ (by omega)
      omega
  · rw [owners_getD ha hrank, hdiv, List.getElem?_map, hrow, Option.map_some, hwave]
  · show ((wave.map (v.tokenRow o width)).getD (stagedIndex a rank _) [])[_]? = _
    rw [hdiv, hmod, stagedIndex_eq ha hrank hrow, List.getD_eq_getElem?_getD, List.getElem?_map, hj,
      Option.map_some, Option.getD_some, h.tokenRow_get hw hs.mem hk, List.getElem?_eq_getElem]
  · show ((wave.map (v.positionRow o width)).getD (stagedIndex a rank _) [])[_]? = _
    rw [hdiv, hmod, stagedIndex_eq ha hrank hrow, List.getD_eq_getElem?_getD, List.getElem?_map, hj,
      Option.map_some, Option.getD_some, positionRow_get hk, h.seqLen i hi, Nat.add_sub_cancel]

theorem staged_of_active (h : v.Verifiable target context) (hw : v.IsWave wave o width)
    {r : RequestId} {position : Nat} {token : Int} {row : Nat}
    (hactive : (staged v a wave o width).Active v.layout.decodeSeq r position token rank row) :
    ∃ i k, v.StagedRow wave width rank row i k ∧ r = (v.row i).requestId ∧
      position = (context i).length + o + k ∧ (v.inputs i)[o + k]? = some token := by
  obtain ⟨hlive, howner, htoken, hposition⟩ := hactive
  have hrank : rank < v.layout.ranks := by
    by_contra hge
    have hnone : (staged v a wave o width).owners.getD rank [] = [] := by
      have hlen : (staged v a wave o width).owners.length = v.layout.ranks := by
        show (a.indicesByRank.map _).length = _
        rw [List.length_map, ha.rows, List.length_map, List.length_range]
      rw [List.getD_eq_getElem?_getD, List.getElem?_eq_none (by omega)]
      rfl
    rw [hnone] at howner
    cases howner
  rw [owners_getD ha hrank, List.getElem?_map] at howner
  obtain ⟨j, hrow, rfl⟩ := Option.map_eq_some_iff.mp howner
  obtain ⟨hj, hrankj⟩ := mem_rowsOf.mp (List.mem_of_getElem? hrow)
  have hget : wave[j]? = some (wave.getD j 0) := by
    rw [List.getD_eq_getElem?_getD, List.getElem?_eq_getElem hj]
    rfl
  generalize wave.getD j 0 = i at hget ⊢
  have hmem := List.mem_of_getElem? hget
  rw [List.getElem?_map, hget] at hrankj
  rw [counts_getD ha hrank] at hlive
  have hlocal : row / v.layout.decodeSeq < (a.indicesByRank.getD rank []).length := by
    rw [indices_getD ha hrank]
    exact (List.getElem?_eq_some_iff.mp hrow).1
  have hoffset : row % v.layout.decodeSeq < width := by
    by_cases hfull : width = v.layout.decodeSeq
    · rw [hfull]
      exact Nat.mod_lt _ h.width
    · have hone := hw.count_le ha hrank hfull
      have hle := hw.le
      have hmul : (a.indicesByRank.getD rank []).length * width ≤ 1 * width :=
        Nat.mul_le_mul_right _ hone
      rw [Nat.mod_eq_of_lt (by omega)]
      omega
  have hs : v.StagedRow wave width rank row i (row % v.layout.decodeSeq) :=
    ⟨hmem, Option.some.inj hrankj, hoffset, j, row / v.layout.decodeSeq, hget, hrow,
      (Nat.div_add_mod' _ _).symm⟩
  obtain ⟨token', htoken', hactive'⟩ := active_of_staged ha h hw hs
  refine ⟨i, _, hs, rfl, ?_, ?_⟩
  · exact Option.some.inj (hposition.symm.trans hactive'.position)
  · rw [htoken', ← hactive'.token, htoken]

end Rows

end Verification
end PyptoServing.Runner
