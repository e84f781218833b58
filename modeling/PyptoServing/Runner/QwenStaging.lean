import PyptoServing.Lib.Fallible
import PyptoServing.Lib.Machine
import PyptoServing.Lib.Raising
import PyptoServing.Lib.RowCache
import PyptoServing.Memory.Blocks

/-!
# Staging of the Qwen kernels

The inputs of a dispatch are written into persistent buffers. The rows of the decode block
table are rewritten only when their page ids change; every batch finds the buffers that a
fresh runner would have staged.
-/
namespace PyptoServing.Runner

open Lib Memory
open Lib.Fallible (bind_eq_ok)

/-- `runtime` and the compiled layout. -/
structure QwenRuntime where
  maxBatchSize : Nat
  maxSeqLen : Nat
  pageSize : Nat
  maxNumBatchedTokens : Nat := 4096
  pageSize_pos : 0 < pageSize

/-- `PrefillBatch`, as far as it is staged. -/
structure QwenPrefillBatch where
  requestIds : List RequestId
  tokenIds : List Int
  seqLens : List Nat
  chunkLens : List Nat
  chunkOffsets : List Nat
  chunkStarts : List Nat
  kvAllocations : List (Option (List BlockId)) := []
  blockIds : List (List BlockId) := []

/-- `DecodeBatch`, as far as it is staged. -/
structure QwenDecodeBatch where
  tokenIds : List Int
  seqLens : List Int
  kvAllocations : List (Option (List BlockId)) := []
  blockIds : List (List BlockId) := []

/-- The prefill buffers. -/
structure QwenPrefillBuffers where
  inputIds : List Int
  seqLens : List Int
  chunkLens : List Int
  chunkOffsets : List Int
  blockTable : List Int
  slotMapping : List Int

/-- The decode buffers: the first column of the token rows, and the block table, whose keys are
`_decode_block_table_row_pages`. -/
structure QwenDecodeBuffers where
  tokenIds : List Int
  seqLens : List Int
  slotMapping : List Int
  blockTable : CachedRows (List BlockId) (List Int)

structure QwenStaging where
  prefill : QwenPrefillBuffers
  decode : QwenDecodeBuffers

abbrev QwenM (α : Type) := Raising String QwenStaging α

namespace QwenRuntime
variable (cfg : QwenRuntime)

/-- `_max_blocks_per_seq`. -/
def maxBlocksPerSeq : Nat := (cfg.maxSeqLen + cfg.pageSize - 1) / cfg.pageSize

/-- `_validate_batch_size`. -/
def validateBatchSize (actualBatch : Nat) : Except String Nat :=
  if actualBatch = 0 then .error "batch must contain at least one request"
  else if cfg.maxBatchSize < actualBatch then
    .error (s!"batch has {actualBatch} requests, but runtime max_batch_size is " ++
      s!"{cfg.maxBatchSize}")
  else .ok actualBatch

/-- A block-table row: the page ids, then padding. -/
def renderRow (pageIds : List BlockId) : List Int :=
  pageIds.map Int.ofNat ++ List.replicate (cfg.maxBlocksPerSeq - pageIds.length) (-1)

end QwenRuntime

/-- `target[start : start + len(values)] = values`; one value is broadcast to any slice. -/
def assignSlice (target : List Int) (start : Nat) (values : List Int) :
    Except String (List Int) :=
  if start + values.length ≤ target.length then
    .ok (target.take start ++ values ++ target.drop (start + values.length))
  else if values.length = 1 then .ok target
  else .error "could not broadcast input array"

/-- `target[:n] = values`. -/
def assignFront (target : List Int) (n : Nat) (values : List Nat) : Except String (List Int) :=
  if values.length = n then .ok (values.map Int.ofNat ++ target.drop n)
  else match values with
    | [value] => .ok (List.replicate n (Int.ofNat value) ++ target.drop n)
    | _ => .error "could not broadcast input array"

namespace QwenRuntime
variable (cfg : QwenRuntime)

/-- The page-span loop of `_write_slot_mapping`. -/
def writeSpans (pageIds : List BlockId) (endPos pos targetOffset : Nat) (target : List Int) :
    Except String (List Int) :=
  if pos < endPos then
    let pageIdx := pos / cfg.pageSize
    let pageOffset := pos % cfg.pageSize
    let span := min (endPos - pos) (cfg.pageSize - pageOffset)
    match pageIds[pageIdx]? with
    | none => .error "list index out of range"
    | some page =>
      let physicalStart := page * cfg.pageSize + pageOffset
      match assignSlice target targetOffset
          ((List.range' physicalStart span).map Int.ofNat) with
      | .error e => .error e
      | .ok target => writeSpans pageIds endPos (pos + span) (targetOffset + span) target
  else .ok target
termination_by endPos - pos
decreasing_by
  have := Nat.mod_lt pos cfg.pageSize_pos
  omega

/-- `_write_slot_mapping`. -/
def writeSlotMapping (target : List Int) (pageIds : List BlockId) (numTokens startPos : Nat) :
    Except String (List Int) :=
  let maxPos := startPos + numTokens - 1
  let maxPageIdx := maxPos / cfg.pageSize
  if 0 < numTokens ∧ pageIds.length ≤ maxPageIdx then
    .error (s!"page_ids list length {pageIds.length} is too small for position {maxPos}; " ++
      s!"need at least {maxPageIdx + 1} pages")
  else cfg.writeSpans pageIds (startPos + numTokens) startPos 0 target

/-- The slot of a position. -/
def slot (pageIds : List BlockId) (p : Nat) : Int :=
  pageIds.getD (p / cfg.pageSize) 0 * cfg.pageSize + (p % cfg.pageSize : Nat)

end QwenRuntime

/-- The page ids of a row. -/
def rowPageIds (kvAllocations : List (Option (List BlockId))) (blockIds : List (List BlockId))
    (batchIdx : Nat) : List BlockId :=
  match (kvAllocations[batchIdx]?).join with
  | some pageIds => pageIds
  | none => blockIds.getD batchIdx []

namespace QwenStaging
variable (cfg : QwenRuntime)

def modifyPrefill (f : QwenPrefillBuffers → QwenPrefillBuffers) : QwenM Unit :=
  modify fun st => { st with prefill := f st.prefill }

def modifyDecode (f : QwenDecodeBuffers → QwenDecodeBuffers) : QwenM Unit :=
  modify fun st => { st with decode := f st.decode }

def getIndex (values : List Nat) (i : Nat) : Except String Nat :=
  match values[i]? with
  | none => .error "list index out of range"
  | some value => .ok value

/-- `_write_block_table_row`. -/
def writeBlockTableRow (batchIdx : Nat) (pageIds : List BlockId) : QwenM Unit := do
  let blockTable ← MonadExcept.ofExcept (assignSlice (← get).prefill.blockTable
    (batchIdx * cfg.maxBlocksPerSeq) (pageIds.map Int.ofNat))
  modifyPrefill fun b => { b with blockTable }

/-- One row of `_prepare_prefill_inputs`. -/
def stagePrefillRow (batch : QwenPrefillBatch) (batchIdx : Nat) : QwenM Unit := do
  let chunkLen ← MonadExcept.ofExcept (getIndex batch.chunkLens batchIdx)
  let chunkStart ← MonadExcept.ofExcept (getIndex batch.chunkStarts batchIdx)
  let chunkOffset ← MonadExcept.ofExcept (getIndex batch.chunkOffsets batchIdx)
  let pageIds := rowPageIds batch.kvAllocations batch.blockIds batchIdx
  writeBlockTableRow cfg batchIdx pageIds
  let slotMapping := (← get).prefill.slotMapping
  let view := (slotMapping.take (chunkOffset + chunkLen)).drop chunkOffset
  let written ← MonadExcept.ofExcept (cfg.writeSlotMapping view pageIds chunkLen chunkStart)
  modifyPrefill fun b => { b with
    slotMapping := slotMapping.take chunkOffset ++ written ++
      slotMapping.drop (chunkOffset + written.length) }

def checkCapacity (batch : QwenPrefillBatch) : Except String Unit :=
  match batch.seqLens.find? (cfg.maxSeqLen < ·) with
  | some seqLen => .error s!"prefill seq_len {seqLen} exceeds max_seq_len {cfg.maxSeqLen}"
  | none =>
    let totalTokens := batch.tokenIds.length
    let maxTokens := cfg.maxBatchSize * cfg.maxSeqLen
    if maxTokens < totalTokens then
      .error s!"prefill total tokens {totalTokens} exceeds kernel capacity {maxTokens}"
    else .ok ()

/-- `_prepare_prefill_inputs`. -/
def preparePrefillInputs (batch : QwenPrefillBatch) : QwenM Nat := do
  let actualBatch ← MonadExcept.ofExcept (cfg.validateBatchSize batch.requestIds.length)
  MonadExcept.ofExcept (checkCapacity cfg batch)
  modifyPrefill fun b => { b with
    seqLens := b.seqLens.map fun _ => 0
    chunkLens := b.chunkLens.map fun _ => 0
    chunkOffsets := b.chunkOffsets.map fun _ => 0
    blockTable := b.blockTable.map fun _ => -1
    inputIds := batch.tokenIds ++ b.inputIds.drop batch.tokenIds.length }
  let seqLens ← MonadExcept.ofExcept
    (assignFront (← get).prefill.seqLens actualBatch batch.seqLens)
  modifyPrefill fun b => { b with seqLens }
  let chunkLens ← MonadExcept.ofExcept
    (assignFront (← get).prefill.chunkLens actualBatch batch.chunkLens)
  modifyPrefill fun b => { b with chunkLens }
  let chunkOffsets ← MonadExcept.ofExcept
    (assignFront (← get).prefill.chunkOffsets actualBatch batch.chunkOffsets)
  modifyPrefill fun b => { b with chunkOffsets }
  (List.range actualBatch).forM (stagePrefillRow cfg batch)
  return actualBatch

/-- `_write_cached_decode_block_table_row`. -/
def writeCachedDecodeBlockTableRow (batchIdx : Nat) (pageIds : List BlockId) : QwenM Unit := do
  let blockTable := (← get).decode.blockTable
  if blockTable.keys[batchIdx]? ≠ some (some pageIds) ∧ cfg.maxBlocksPerSeq < pageIds.length then
    throw (s!"page_ids list length {pageIds.length} exceeds block-table width " ++
      s!"{cfg.maxBlocksPerSeq}")
  else
    modifyDecode fun b => { b with
      blockTable := b.blockTable.write cfg.renderRow batchIdx pageIds }

/-- The checks of an active row, and its slot. -/
def decodeSlot (seqLen : Int) (pageIds : List BlockId) : Except String Int :=
  let tokensUsed := (seqLen - 1).toNat
  let pageIdx := tokensUsed / cfg.pageSize
  if pageIds.length ≤ pageIdx then
    .error (s!"page_ids list length {pageIds.length} is too small for decode position " ++
      s!"{tokensUsed}; need at least {pageIdx + 1} pages")
  else .ok (cfg.slot pageIds tokensUsed)

def checkSeqLen (seqLen : Int) : Except String Unit :=
  if seqLen ≤ 0 then .error "decode seq_lens must be positive"
  else if cfg.maxSeqLen < seqLen then
    .error s!"decode seq_len {seqLen} exceeds max_seq_len {cfg.maxSeqLen}"
  else .ok ()

/-- One active row of `_prepare_decode_inputs`. -/
def stageDecodeRow (batch : QwenDecodeBatch) (batchIdx : Nat) : QwenM Unit := do
  let seqLen := batch.seqLens.getD batchIdx 0
  MonadExcept.ofExcept (checkSeqLen cfg seqLen)
  let pageIds := rowPageIds batch.kvAllocations batch.blockIds batchIdx
  writeCachedDecodeBlockTableRow cfg batchIdx pageIds
  let slot ← MonadExcept.ofExcept (decodeSlot cfg seqLen pageIds)
  modifyDecode fun b => { b with slotMapping := b.slotMapping.set batchIdx slot }

/-- The inactive rows replicate row 0. -/
def replicateRow {α : Type} (n : Nat) (rows : List α) : List α :=
  rows.take n ++ (rows.drop n).map fun row => rows.headD row

def batchCount (batch : QwenDecodeBatch) : Nat :=
  if batch.kvAllocations = [] then batch.seqLens.length else batch.kvAllocations.length

def checkTokenRows (batch : QwenDecodeBatch) (actualBatch : Nat) : Except String Unit :=
  if batch.tokenIds.length % actualBatch ≠ 0 then
    .error s!"shape '[{actualBatch}, -1]' is invalid for input of size {batch.tokenIds.length}"
  else if batch.tokenIds.length / actualBatch ≠ 1 then
    .error "decode token_ids must contain exactly one token per row"
  else .ok ()

def checkSeqLenRows (batch : QwenDecodeBatch) (actualBatch : Nat) : Except String Unit :=
  if batch.seqLens.length < actualBatch then
    .error s!"decode seq_lens has {batch.seqLens.length} rows, expected {actualBatch}"
  else .ok ()

/-- The padding of `_prepare_decode_inputs`. -/
def padInactiveRows (batch : QwenDecodeBatch) (actualBatch : Nat) : QwenM Unit :=
  if actualBatch < cfg.maxBatchSize then do
    modifyDecode fun b => { b with
      tokenIds := replicateRow actualBatch b.tokenIds
      seqLens := replicateRow actualBatch b.seqLens
      slotMapping := replicateRow actualBatch b.slotMapping }
    (List.range' actualBatch (cfg.maxBatchSize - actualBatch)).forM fun batchIdx =>
      writeCachedDecodeBlockTableRow cfg batchIdx
        (rowPageIds batch.kvAllocations batch.blockIds 0)
  else pure ()

/-- `_prepare_decode_inputs`. -/
def prepareDecodeInputs (batch : QwenDecodeBatch) : QwenM Nat := do
  let actualBatch ← MonadExcept.ofExcept (cfg.validateBatchSize (batchCount batch))
  MonadExcept.ofExcept (checkTokenRows batch actualBatch)
  modifyDecode fun b => { b with tokenIds := batch.tokenIds ++ b.tokenIds.drop actualBatch }
  MonadExcept.ofExcept (checkSeqLenRows batch actualBatch)
  modifyDecode fun b => { b with
    seqLens := batch.seqLens.take actualBatch ++ b.seqLens.drop actualBatch }
  modifyDecode fun b =>
    if b.blockTable.keys.length ≠ cfg.maxBatchSize then
      { b with blockTable := b.blockTable.forget (List.replicate cfg.maxBatchSize none) }
    else b
  (List.range actualBatch).forM (stageDecodeRow cfg batch)
  padInactiveRows cfg batch actualBatch
  return actualBatch

/-- The prefill part of `_warmup_dispatch`. -/
def warmupPrefill (b : QwenPrefillBuffers) : QwenPrefillBuffers :=
  let stepTokens := min cfg.maxNumBatchedTokens (cfg.maxBatchSize * cfg.maxSeqLen)
  let perReq := max (stepTokens / cfg.maxBatchSize) 1
  { inputIds := List.replicate (perReq * cfg.maxBatchSize) 0 ++
      b.inputIds.drop (perReq * cfg.maxBatchSize)
    seqLens := List.replicate cfg.maxBatchSize (perReq : Int)
    chunkLens := List.replicate cfg.maxBatchSize (perReq : Int)
    chunkOffsets := (List.range cfg.maxBatchSize).map fun i => ((i * perReq : Nat) : Int)
    blockTable := b.blockTable.map fun _ => 0
    slotMapping := b.slotMapping.map fun _ => -1 }

/-- The decode part of `_warmup_dispatch`: no row is known any more. -/
def warmupDecode (b : QwenDecodeBuffers) : QwenDecodeBuffers :=
  let stepTokens := min cfg.maxNumBatchedTokens (cfg.maxBatchSize * cfg.maxSeqLen)
  let perReq := max (stepTokens / cfg.maxBatchSize) 1
  { tokenIds := b.tokenIds.map fun _ => 0
    seqLens := List.replicate cfg.maxBatchSize ((min (perReq + 1) cfg.maxSeqLen : Nat) : Int)
    slotMapping := b.slotMapping.map fun _ => -1
    blockTable := {
      rows := b.blockTable.rows.map fun row => row.map fun _ => 0
      keys := [] } }

end QwenStaging

inductive QwenOp
  | prefill (batch : QwenPrefillBatch)
  | decode (batch : QwenDecodeBatch)
  /-- A warm-up, whose prefill dispatch may raise. -/
  | warmup (dispatched : Bool)

namespace QwenStaging
variable (cfg : QwenRuntime)

/-- The buffers after a call, which may have raised midway. -/
def apply (st : QwenStaging) : QwenOp → QwenStaging
  | .prefill batch => ((preparePrefillInputs cfg batch).exec st).2
  | .decode batch => ((prepareDecodeInputs cfg batch).exec st).2
  | .warmup dispatched =>
    { prefill := warmupPrefill cfg st.prefill
      decode := if dispatched then warmupDecode cfg st.decode else st.decode }

/-- Buffers as they are allocated, with any contents; no row is known. -/
structure Allocated (st : QwenStaging) : Prop where
  tokenIds : st.decode.tokenIds.length = cfg.maxBatchSize
  seqLens : st.decode.seqLens.length = cfg.maxBatchSize
  slotMapping : st.decode.slotMapping.length = cfg.maxBatchSize
  blockTable : st.decode.blockTable.rows.length = cfg.maxBatchSize
  unknown : st.decode.blockTable.keys = []

def machine : Machine QwenStaging QwenOp where
  init st := Allocated cfg st
  step st op st' := st' = st.apply cfg op

variable {cfg}

/-- The positions of one span lie in one page. -/
theorem slot_span (pageIds : List BlockId) {pos span : Nat}
    (hspan : span ≤ cfg.pageSize - pos % cfg.pageSize) :
    (List.range' (pageIds.getD (pos / cfg.pageSize) 0 * cfg.pageSize + pos % cfg.pageSize)
      span).map Int.ofNat = (List.range' pos span).map (cfg.slot pageIds) := by
  apply List.ext_getElem
  · simp
  · intro i hi _
    have hlt : i < span := by simpa using hi
    have hpage := Nat.mod_add_div pos cfg.pageSize
    have hpos : pos % cfg.pageSize + i + cfg.pageSize * (pos / cfg.pageSize) = pos + i := by omega
    obtain ⟨hdiv, hmod⟩ := (Nat.div_mod_unique cfg.pageSize_pos).mpr ⟨hpos, by omega⟩
    simp only [List.getElem_map, List.getElem_range', Nat.one_mul, QwenRuntime.slot, hdiv, hmod,
      Int.ofNat_eq_natCast]
    push_cast
    omega

theorem assignSlice_ok {target values : List Int} {start : Nat}
    (h : start + values.length ≤ target.length) : assignSlice target start values =
      .ok (target.take start ++ values ++ target.drop (start + values.length)) := if_pos h

/-- The spans write the slot of every position. -/
theorem writeSpans_ok (pageIds : List BlockId) (endPos pos targetOffset : Nat) (target : List Int)
    (hle : pos ≤ endPos) (hroom : targetOffset + (endPos - pos) ≤ target.length)
    (hpages : ∀ p, pos ≤ p → p < endPos → p / cfg.pageSize < pageIds.length) :
    cfg.writeSpans pageIds endPos pos targetOffset target =
      .ok (target.take targetOffset ++
        (List.range' pos (endPos - pos)).map (cfg.slot pageIds) ++
          target.drop (targetOffset + (endPos - pos))) := by
  induction hn : endPos - pos using Nat.strongRecOn generalizing pos targetOffset target with
  | ind n ih =>
    rw [QwenRuntime.writeSpans]
    split
    next hlt =>
      have hpage := hpages pos (Nat.le_refl _) hlt
      have hmod := Nat.mod_lt pos cfg.pageSize_pos
      have hslots := slot_span pageIds (Nat.min_le_right (endPos - pos)
        (cfg.pageSize - pos % cfg.pageSize))
      rw [List.getD_eq_getElem?_getD, List.getElem?_eq_getElem hpage, Option.getD_some] at hslots
      simp only [List.getElem?_eq_getElem hpage, hslots]
      generalize hspan : min (endPos - pos) (cfg.pageSize - pos % cfg.pageSize) = span
      have hpos : 0 < span ∧ span ≤ n := by omega
      rw [assignSlice_ok (by simp; omega)]
      dsimp only
      rw [ih (n - span) (by omega) (pos + span) (targetOffset + span) _ (by omega) _
        (fun p hp => hpages p (by omega)) (by omega)]
      · have hlen : (target.take targetOffset ++ (List.range' pos span).map
            (cfg.slot pageIds)).length = targetOffset + span := by
          simp
          omega
        have hrest : targetOffset + span + (n - span) = targetOffset + n := by omega
        have hrange : List.range' pos n = List.range' pos span ++
            List.range' (pos + span) (n - span) := by
          rw [List.range'_append_1, Nat.add_sub_cancel' hpos.2]
        rw [List.take_left' hlen, hrest, hrange, List.map_append, List.drop_append, hlen,
          List.drop_eq_nil_of_le (by omega), List.nil_append, List.drop_drop]
        simp only [List.append_assoc, List.length_map, List.length_range']
        rw [show targetOffset + span + (targetOffset + n - (targetOffset + span)) =
          targetOffset + n by omega]
      · simp
        omega
    next hge =>
      have hzero : n = 0 := by omega
      subst hzero
      simp

theorem writeSlotMapping_ok {target : List Int} {pageIds : List BlockId} {numTokens startPos : Nat}
    (hroom : numTokens ≤ target.length)
    (hpages : 0 < numTokens → (startPos + numTokens - 1) / cfg.pageSize < pageIds.length) :
    cfg.writeSlotMapping target pageIds numTokens startPos =
      .ok ((List.range' startPos numTokens).map (cfg.slot pageIds) ++ target.drop numTokens) := by
  unfold QwenRuntime.writeSlotMapping
  dsimp only
  rw [if_neg (by intro h; have := hpages h.1; omega)]
  rw [writeSpans_ok pageIds _ _ _ _ (by omega) (by omega), Nat.add_sub_cancel_left, Nat.zero_add,
    List.take_zero, List.nil_append]
  intro p hp hlt
  have hlast := hpages (by omega)
  have hle : p / cfg.pageSize ≤ (startPos + numTokens - 1) / cfg.pageSize :=
    Nat.div_le_div_right (by omega)
  omega

/-- What the kernel reads. -/
structure DecodeRows where
  tokenIds : List Int
  seqLens : List Int
  slotMapping : List Int
  blockTable : List (List Int)
  deriving DecidableEq

def rows (st : QwenStaging) : DecodeRows :=
  { tokenIds := st.decode.tokenIds, seqLens := st.decode.seqLens,
    slotMapping := st.decode.slotMapping, blockTable := st.decode.blockTable.rows }

/-- The buffers have their shapes, and the block-table rows that are known hold their pages. -/
structure Staged (cfg : QwenRuntime) (st : QwenStaging) : Prop where
  tokenIds : st.decode.tokenIds.length = cfg.maxBatchSize
  seqLens : st.decode.seqLens.length = cfg.maxBatchSize
  slotMapping : st.decode.slotMapping.length = cfg.maxBatchSize
  blockTable : st.decode.blockTable.rows.length = cfg.maxBatchSize
  coherent : st.decode.blockTable.Coherent cfg.renderRow
  fits : ∀ pageIds, some pageIds ∈ st.decode.blockTable.keys →
    pageIds.length ≤ cfg.maxBlocksPerSeq

variable (cfg)

def checkWidth (pageIds : List BlockId) : Except String Unit :=
  if cfg.maxBlocksPerSeq < pageIds.length then
    .error (s!"page_ids list length {pageIds.length} exceeds block-table width " ++
      s!"{cfg.maxBlocksPerSeq}")
  else .ok ()

variable {cfg}

theorem mem_keys_write {c : CachedRows (List BlockId) (List Int)} {i : Nat}
    {pageIds pageIds' : List BlockId}
    (h : some pageIds' ∈ (c.write cfg.renderRow i pageIds).keys) :
    some pageIds' ∈ c.keys ∨ pageIds' = pageIds := by
  unfold CachedRows.write at h
  split at h
  · exact .inl h
  · rcases List.mem_or_eq_of_mem_set h with h | h
    · exact .inl h
    · exact .inr (Option.some.inj h)

/-- A cached row is written as if there were no cache. -/
theorem writeCached_simulates {i : Nat} (hi : i < cfg.maxBatchSize) (pageIds : List BlockId) :
    Raising.Simulates (Staged cfg) rows (writeCachedDecodeBlockTableRow cfg i pageIds)
      (checkWidth cfg pageIds)
      fun r => { r with blockTable := r.blockTable.set i (cfg.renderRow pageIds) } := by
  intro st h
  unfold writeCachedDecodeBlockTableRow checkWidth
  rw [Raising.exec_bind_ok (Raising.exec_get st)]
  dsimp only
  by_cases hwidth : cfg.maxBlocksPerSeq < pageIds.length
  · have hkey : st.decode.blockTable.keys[i]? ≠ some (some pageIds) := by
      intro hkey
      have hfits := h.fits pageIds (List.mem_of_getElem? hkey)
      omega
    rw [if_pos ⟨hkey, hwidth⟩, if_pos hwidth]
    exact ⟨h, rfl, fun _ hok => by cases hok⟩
  · rw [if_neg (fun hand => hwidth hand.2), if_neg hwidth]
    refine ⟨?_, rfl, fun _ _ => ?_⟩
    · exact {
        tokenIds := h.tokenIds
        seqLens := h.seqLens
        slotMapping := h.slotMapping
        blockTable := CachedRows.length_write.2.trans h.blockTable
        coherent := h.coherent.write (by rw [h.blockTable]; exact hi)
        fits := by
          intro pageIds' hkey
          rcases mem_keys_write hkey with hkey | rfl
          · exact h.fits pageIds' hkey
          · omega }
    · have hrows := h.coherent.write_rows (i := i) (k := pageIds)
      exact congrArg (DecodeRows.mk st.decode.tokenIds st.decode.seqLens st.decode.slotMapping)
        hrows

theorem modifyDecode_simulates {f : QwenDecodeBuffers → QwenDecodeBuffers}
    {g : DecodeRows → DecodeRows}
    (h : ∀ st, Staged cfg st →
      Staged cfg { st with decode := f st.decode } ∧
        rows { st with decode := f st.decode } = g (rows st)) :
    Raising.Simulates (Staged cfg) rows (modifyDecode f) (.ok ()) g :=
  .modify (fun st hst => (h st hst).1) fun st hst => (h st hst).2

variable (cfg)

/-- The checks of an active row. -/
def checkRow (batch : QwenDecodeBatch) (i : Nat) : Except String Unit := do
  checkSeqLen cfg (batch.seqLens.getD i 0)
  checkWidth cfg (rowPageIds batch.kvAllocations batch.blockIds i)
  let _ ← decodeSlot cfg (batch.seqLens.getD i 0)
    (rowPageIds batch.kvAllocations batch.blockIds i)
  return ()

/-- The slot of the position that an active row decodes. -/
def rowSlot (batch : QwenDecodeBatch) (i : Nat) : Int :=
  cfg.slot (rowPageIds batch.kvAllocations batch.blockIds i)
    (batch.seqLens.getD i 0 - 1).toNat

/-- The block-table row of an active row. -/
def rowBlocks (batch : QwenDecodeBatch) (i : Nat) : List Int :=
  cfg.renderRow (rowPageIds batch.kvAllocations batch.blockIds i)

variable {cfg}

theorem stageDecodeRow_simulates (batch : QwenDecodeBatch) {i : Nat} (hi : i < cfg.maxBatchSize) :
    Raising.Simulates (Staged cfg) rows (stageDecodeRow cfg batch i) (checkRow cfg batch i)
      fun r => { r with
        blockTable := r.blockTable.set i (rowBlocks cfg batch i)
        slotMapping := r.slotMapping.set i (rowSlot cfg batch i) } := by
  refine Raising.Simulates.check fun _ _ => ?_
  refine (writeCached_simulates hi _).bind (g := fun r => { r with
    slotMapping := r.slotMapping.set i (rowSlot cfg batch i) }) fun _ _ => ?_
  refine Raising.Simulates.check fun slot hslot => ?_
  have hvalue : slot = rowSlot cfg batch i := by
    unfold decodeSlot at hslot
    dsimp only at hslot
    split at hslot
    · cases hslot
    · cases hslot
      rfl
  subst hvalue
  refine modifyDecode_simulates fun st h => ⟨?_, rfl⟩
  exact { h with slotMapping := List.length_set.trans h.slotMapping }

variable (cfg)

def checkPadding (batch : QwenDecodeBatch) (n : Nat) : Except String Unit :=
  if n < cfg.maxBatchSize then
    (List.range' n (cfg.maxBatchSize - n)).forM fun _ =>
      checkWidth cfg (rowPageIds batch.kvAllocations batch.blockIds 0)
  else pure ()

/-- The checks of a batch. -/
def checkDecode (batch : QwenDecodeBatch) : Except String Nat := do
  let actualBatch ← cfg.validateBatchSize (batchCount batch)
  checkTokenRows batch actualBatch
  checkSeqLenRows batch actualBatch
  (List.range actualBatch).forM (checkRow cfg batch)
  checkPadding cfg batch actualBatch
  return actualBatch

/-- The plain writes of the active rows. -/
def writeActive (batch : QwenDecodeBatch) (n : Nat) (r : DecodeRows) : DecodeRows :=
  (List.range n).foldl (fun r i => { r with
    blockTable := r.blockTable.set i (rowBlocks cfg batch i)
    slotMapping := r.slotMapping.set i (rowSlot cfg batch i) }) {
      r with
      tokenIds := batch.tokenIds ++ r.tokenIds.drop n
      seqLens := batch.seqLens.take n ++ r.seqLens.drop n }

/-- The plain writes of the padding. -/
def writePadding (batch : QwenDecodeBatch) (n : Nat) (r : DecodeRows) : DecodeRows :=
  if n < cfg.maxBatchSize then
    (List.range' n (cfg.maxBatchSize - n)).foldl (fun r i => { r with
      blockTable := r.blockTable.set i (rowBlocks cfg batch 0) }) { r with
        tokenIds := replicateRow n r.tokenIds
        seqLens := replicateRow n r.seqLens
        slotMapping := replicateRow n r.slotMapping }
  else r

variable {cfg}

theorem length_replicateRow {α : Type} (n : Nat) (l : List α) :
    (replicateRow n l).length = l.length := by
  unfold replicateRow
  rw [List.length_append, List.length_map, ← List.length_append, List.take_append_drop]

theorem padInactiveRows_simulates (batch : QwenDecodeBatch) (n : Nat) :
    Raising.Simulates (Staged cfg) rows (padInactiveRows cfg batch n) (checkPadding cfg batch n)
      (writePadding cfg batch n) := by
  unfold padInactiveRows checkPadding writePadding
  split
  next hn =>
    have hrows : Raising.Simulates (Staged cfg) rows
        (modifyDecode fun b => { b with
          tokenIds := replicateRow n b.tokenIds
          seqLens := replicateRow n b.seqLens
          slotMapping := replicateRow n b.slotMapping }) (.ok ()) fun r => { r with
        tokenIds := replicateRow n r.tokenIds
        seqLens := replicateRow n r.seqLens
        slotMapping := replicateRow n r.slotMapping } :=
      modifyDecode_simulates fun st h => ⟨{ h with
        tokenIds := (length_replicateRow _ _).trans h.tokenIds
        seqLens := (length_replicateRow _ _).trans h.seqLens
        slotMapping := (length_replicateRow _ _).trans h.slotMapping }, rfl⟩
    have hloop := Raising.Simulates.forM (l := List.range' n (cfg.maxBatchSize - n))
      fun i hi => writeCached_simulates (show i < cfg.maxBatchSize by
        have hrange := List.mem_range'_1.mp hi
        omega) (rowPageIds batch.kvAllocations batch.blockIds 0)
    exact hrows.bind fun _ _ => hloop
  next => exact .pure ()

theorem validateBatchSize_ok {n m : Nat} (h : cfg.validateBatchSize n = .ok m) :
    m = n ∧ 0 < n ∧ n ≤ cfg.maxBatchSize := by
  unfold QwenRuntime.validateBatchSize at h
  split at h
  · cases h
  · split at h
    · cases h
    · cases h
      exact ⟨rfl, by omega, by omega⟩

theorem checkTokenRows_ok {batch : QwenDecodeBatch} {n : Nat}
    (h : checkTokenRows batch n = .ok ()) : batch.tokenIds.length = n := by
  unfold checkTokenRows at h
  split at h
  · cases h
  next hmod =>
    split at h
    · cases h
    next hdiv =>
      have hdm := Nat.div_add_mod batch.tokenIds.length n
      rw [not_not.mp hdiv, not_not.mp hmod] at hdm
      omega

theorem checkSeqLenRows_ok {batch : QwenDecodeBatch} {n : Nat}
    (h : checkSeqLenRows batch n = .ok ()) : n ≤ batch.seqLens.length := by
  unfold checkSeqLenRows at h
  split at h
  · cases h
  · omega

theorem prepareDecodeInputs_simulates (batch : QwenDecodeBatch) :
    Raising.Simulates (Staged cfg) rows (prepareDecodeInputs cfg batch) (checkDecode cfg batch)
      (writePadding cfg batch (batchCount batch) ∘ writeActive cfg batch (batchCount batch)) := by
  refine Raising.Simulates.check fun n hn => ?_
  obtain ⟨rfl, hpos, hmax⟩ := validateBatchSize_ok hn
  refine Raising.Simulates.check fun _ htokens => ?_
  have hlen := checkTokenRows_ok htokens
  have htoks : Raising.Simulates (Staged cfg) rows
      (modifyDecode fun b => { b with
        tokenIds := batch.tokenIds ++ b.tokenIds.drop (batchCount batch) }) (.ok ()) fun r => { r with
          tokenIds := batch.tokenIds ++ r.tokenIds.drop (batchCount batch) } := by
    refine modifyDecode_simulates fun st h => ⟨{ h with tokenIds := ?_ }, rfl⟩
    have hsize := h.tokenIds
    rw [List.length_append, List.length_drop]
    omega
  have hseqs (hfit : batchCount batch ≤ batch.seqLens.length) :
      Raising.Simulates (Staged cfg) rows
      (modifyDecode fun b => { b with
        seqLens := batch.seqLens.take (batchCount batch) ++ b.seqLens.drop (batchCount batch) })
      (.ok ()) fun r => { r with
        seqLens := batch.seqLens.take (batchCount batch) ++
          r.seqLens.drop (batchCount batch) } := by
    refine modifyDecode_simulates fun st h => ⟨{ h with seqLens := ?_ }, rfl⟩
    have hsize := h.seqLens
    rw [List.length_append, List.length_drop, List.length_take]
    omega
  have hkeys : Raising.Simulates (Staged cfg) rows
      (modifyDecode fun b =>
        if b.blockTable.keys.length ≠ cfg.maxBatchSize then
          { b with blockTable := b.blockTable.forget (List.replicate cfg.maxBatchSize none) }
        else b) (.ok ()) id := by
    refine modifyDecode_simulates fun st h => ?_
    split
    · refine ⟨{ h with
        coherent := .of_unknown fun key hkey => List.eq_of_mem_replicate hkey
        fits := ?_ }, rfl⟩
      intro pageIds hkey
      cases List.eq_of_mem_replicate hkey
    · exact ⟨h, rfl⟩
  have hloop := Raising.Simulates.forM (l := List.range (batchCount batch)) fun i hi =>
    stageDecodeRow_simulates batch (show i < cfg.maxBatchSize by
      have hrange := List.mem_range.mp hi
      omega)
  have htail := hkeys.bind fun _ _ => hloop.bind fun _ _ =>
    (padInactiveRows_simulates batch (batchCount batch)).bind fun _ _ =>
      Raising.Simulates.pure (batchCount batch)
  exact htoks.bind fun _ _ => .check fun _ hfit =>
    (hseqs (checkSeqLenRows_ok hfit)).bind fun _ _ => htail

/-- The batch row that a kernel row computes. -/
def sourceRow (n i : Nat) : Nat := if i < n then i else 0

/-- The buffers computed from the batch alone. -/
def rebuild (cfg : QwenRuntime) (batch : QwenDecodeBatch) (n : Nat) : DecodeRows where
  tokenIds := (List.range cfg.maxBatchSize).map fun i => batch.tokenIds.getD (sourceRow n i) 0
  seqLens := (List.range cfg.maxBatchSize).map fun i => batch.seqLens.getD (sourceRow n i) 0
  slotMapping := (List.range cfg.maxBatchSize).map fun i => rowSlot cfg batch (sourceRow n i)
  blockTable := (List.range cfg.maxBatchSize).map fun i => rowBlocks cfg batch (sourceRow n i)

section Closed
variable {α : Type}

theorem foldl_set_range' (f : Nat → α) {s n : Nat} {l : List α} (h : s + n ≤ l.length) :
    (List.range' s n).foldl (fun l i => l.set i (f i)) l =
      l.take s ++ (List.range' s n).map f ++ l.drop (s + n) := by
  induction n with
  | zero => simp
  | succ n ih =>
    have hlen : (l.take s ++ (List.range' s n).map f).length = s + n := by
      simp
      omega
    rw [List.range'_concat, List.foldl_append, ih (by omega), List.foldl_cons, List.foldl_nil,
      Nat.one_mul, List.set_append_right _ _ (by omega), hlen, Nat.sub_self,
      List.drop_eq_getElem_cons (by omega), List.set_cons_zero, List.map_append, ← List.append_assoc,
      List.append_assoc _ _ (l.drop (s + (n + 1)))]
    rfl

theorem foldl_set_range (f : Nat → α) {n : Nat} {l : List α} (h : n ≤ l.length) :
    (List.range n).foldl (fun l i => l.set i (f i)) l = (List.range n).map f ++ l.drop n := by
  rw [List.range_eq_range', foldl_set_range' f (by omega), List.take_zero, List.nil_append,
    Nat.zero_add]

theorem take_eq_map (l : List α) (d : α) {n : Nat} (h : n ≤ l.length) :
    l.take n = (List.range n).map fun i => l.getD i d := by
  apply List.ext_getElem
  · simp
    omega
  · intro i hi _
    have hlt : i < l.length := by
      simp at hi
      omega
    rw [List.getElem_take, List.getElem_map, List.getElem_range, List.getD_eq_getElem?_getD,
      List.getElem?_eq_getElem hlt, Option.getD_some]

theorem map_sourceRow (f : Nat → α) {n k : Nat} (hnk : n ≤ k) :
    (List.range k).map (fun i => f (sourceRow n i)) =
      (List.range n).map f ++ List.replicate (k - n) (f 0) := by
  obtain ⟨m, rfl⟩ := Nat.exists_eq_add_of_le hnk
  rw [List.range_add, List.map_append, Nat.add_sub_cancel_left, List.map_map]
  congr 1
  · refine List.map_congr_left fun i hi => ?_
    rw [sourceRow, if_pos (List.mem_range.mp hi)]
  · rw [← List.length_range (n := m), ← List.map_const', List.length_range]
    refine List.map_congr_left fun i _ => ?_
    show f (sourceRow n (n + i)) = f 0
    rw [sourceRow, if_neg (by omega)]

theorem map_sourceRow_self (f : Nat → α) (n : Nat) :
    (List.range n).map (fun i => f (sourceRow n i)) = (List.range n).map f := by
  rw [map_sourceRow f (Nat.le_refl n), Nat.sub_self, List.replicate_zero, List.append_nil]

theorem replicateRow_range (f : Nat → α) {n k : Nat} {rest : List α} (hn : 0 < n)
    (hk : n + rest.length = k) : replicateRow n ((List.range n).map f ++ rest) =
      (List.range k).map fun i => f (sourceRow n i) := by
  have hlen : ((List.range n).map f).length = n := by simp
  have hhead (row : α) : ((List.range n).map f ++ rest).headD row = f 0 := by
    obtain ⟨m, rfl⟩ := Nat.exists_eq_succ_of_ne_zero (Nat.ne_of_gt hn)
    rw [List.range_succ_eq_map]
    rfl
  have hrest : k - n = rest.length := by omega
  unfold replicateRow
  rw [List.take_left' hlen, List.drop_left' hlen, map_sourceRow f (by omega), hrest]
  simp only [hhead, List.map_const']

end Closed

theorem writeActive_eq {batch : QwenDecodeBatch} {n : Nat} {r : DecodeRows}
    (htokens : batch.tokenIds.length = n) (hseqs : n ≤ batch.seqLens.length)
    (hslot : n ≤ r.slotMapping.length) (htable : n ≤ r.blockTable.length) :
    writeActive cfg batch n r = {
      tokenIds := (List.range n).map (fun i => batch.tokenIds.getD i 0) ++ r.tokenIds.drop n
      seqLens := (List.range n).map (fun i => batch.seqLens.getD i 0) ++ r.seqLens.drop n
      slotMapping := (List.range n).map (rowSlot cfg batch) ++ r.slotMapping.drop n
      blockTable := (List.range n).map (rowBlocks cfg batch) ++ r.blockTable.drop n } := by
  have hfold (l : List Nat) (r : DecodeRows) :
      l.foldl (fun r i => { r with
        blockTable := r.blockTable.set i (rowBlocks cfg batch i)
        slotMapping := r.slotMapping.set i (rowSlot cfg batch i) }) r = { r with
          blockTable := l.foldl (fun l i => l.set i (rowBlocks cfg batch i)) r.blockTable
          slotMapping := l.foldl (fun l i => l.set i (rowSlot cfg batch i)) r.slotMapping } := by
    induction l generalizing r with
    | nil => rfl
    | cons i l ih => rw [List.foldl_cons, ih, List.foldl_cons, List.foldl_cons]
  have htake : batch.tokenIds = (List.range n).map fun i => batch.tokenIds.getD i 0 := by
    rw [← take_eq_map batch.tokenIds 0 (by omega), List.take_of_length_le (by omega)]
  unfold writeActive
  rw [hfold]
  dsimp only
  rw [foldl_set_range _ hslot, foldl_set_range _ htable, take_eq_map batch.seqLens 0 hseqs,
    ← htake]

theorem writePadding_fold {batch : QwenDecodeBatch} (l : List Nat) (r : DecodeRows) :
    l.foldl (fun r i => { r with
      blockTable := r.blockTable.set i (rowBlocks cfg batch 0) }) r = { r with
        blockTable := l.foldl (fun l i => l.set i (rowBlocks cfg batch 0)) r.blockTable } := by
  induction l generalizing r with
  | nil => rfl
  | cons i l ih => rw [List.foldl_cons, ih, List.foldl_cons]

/-- The plain writes leave what the batch alone determines. -/
theorem writes_rebuild {batch : QwenDecodeBatch} {n : Nat} {r : DecodeRows} (hn : 0 < n)
    (hmax : n ≤ cfg.maxBatchSize) (htokens : batch.tokenIds.length = n)
    (hseqs : n ≤ batch.seqLens.length) (htok : r.tokenIds.length = cfg.maxBatchSize)
    (hseq : r.seqLens.length = cfg.maxBatchSize) (hslot : r.slotMapping.length = cfg.maxBatchSize)
    (htable : r.blockTable.length = cfg.maxBatchSize) :
    writePadding cfg batch n (writeActive cfg batch n r) = rebuild cfg batch n := by
  rw [writeActive_eq htokens hseqs (by omega) (by omega)]
  unfold writePadding rebuild
  split
  next hlt =>
    rw [writePadding_fold]
    dsimp only
    rw [replicateRow_range (k := cfg.maxBatchSize) _ hn (by rw [List.length_drop]; omega),
      replicateRow_range (k := cfg.maxBatchSize) _ hn (by rw [List.length_drop]; omega),
      replicateRow_range (k := cfg.maxBatchSize) _ hn (by rw [List.length_drop]; omega),
      foldl_set_range' _ (by simp; omega), map_sourceRow (rowBlocks cfg batch) hmax,
      List.take_left' (by simp), List.drop_of_length_le (by simp; omega), List.append_nil,
      List.map_const', List.length_range']
  next hge =>
    obtain rfl : n = cfg.maxBatchSize := by omega
    rw [List.drop_of_length_le (Nat.le_of_eq htok), List.drop_of_length_le (Nat.le_of_eq hseq),
      List.drop_of_length_le (Nat.le_of_eq hslot), List.drop_of_length_le (Nat.le_of_eq htable)]
    simp only [List.append_nil]
    rw [map_sourceRow_self (rowSlot cfg batch), map_sourceRow_self (rowBlocks cfg batch),
      map_sourceRow_self (batch.tokenIds.getD · 0), map_sourceRow_self (batch.seqLens.getD · 0)]

theorem Allocated.staged {st : QwenStaging} (h : Allocated cfg st) : Staged cfg st where
  tokenIds := h.tokenIds
  seqLens := h.seqLens
  slotMapping := h.slotMapping
  blockTable := h.blockTable
  coherent := .of_unknown (by simp [h.unknown])
  fits := by simp [h.unknown]

/-- A prefill leaves the decode buffers alone. -/
theorem preparePrefillInputs_decode (batch : QwenPrefillBatch) (st : QwenStaging) :
    ((preparePrefillInputs cfg batch).exec st).2.decode = st.decode := by
  have hmodify (f : QwenPrefillBuffers → QwenPrefillBuffers) :
      Raising.Keeps (fun s => s.decode = st.decode) (modifyPrefill f) fun _ => True :=
    .modify fun _ hs => hs
  have hcheck {α : Type} (x : Except String α) : Raising.Keeps (fun s => s.decode = st.decode)
      (MonadExcept.ofExcept x : QwenM α) fun _ => True := .ofExcept fun _ _ => trivial
  have hget : Raising.Keeps (fun s => s.decode = st.decode) (get : QwenM QwenStaging)
      fun _ => True := Raising.Keeps.get.weaken fun _ _ => trivial
  have hrow (i : Nat) : Raising.Keeps (fun s => s.decode = st.decode)
      (stagePrefillRow cfg batch i) fun _ => True := by
    refine (hcheck _).bind fun _ _ => (hcheck _).bind fun _ _ => (hcheck _).bind fun _ _ => ?_
    have hblocks (i : Nat) (pageIds : List BlockId) : Raising.Keeps
        (fun s => s.decode = st.decode) (writeBlockTableRow cfg i pageIds) fun _ => True :=
      hget.bind fun _ _ => (hcheck _).bind fun _ _ => hmodify _
    exact (hblocks _ _).bind fun _ _ => hget.bind fun _ _ => (hcheck _).bind fun _ _ => hmodify _
  have hall : Raising.Keeps (fun s => s.decode = st.decode) (preparePrefillInputs cfg batch)
      fun _ => True := by
    refine (hcheck _).bind fun _ _ => (hcheck _).bind fun _ _ => (hmodify _).bind fun _ _ => ?_
    refine hget.bind fun _ _ => (hcheck _).bind fun _ _ => (hmodify _).bind fun _ _ => ?_
    refine hget.bind fun _ _ => (hcheck _).bind fun _ _ => (hmodify _).bind fun _ _ => ?_
    refine hget.bind fun _ _ => (hcheck _).bind fun _ _ => (hmodify _).bind fun _ _ => ?_
    exact (Raising.Keeps.forM fun i _ => hrow i).bind fun _ _ => .pure trivial
  exact (hall st rfl).1

theorem Staged.of_decode {st st' : QwenStaging} (h : Staged cfg st)
    (hsame : st'.decode = st.decode) : Staged cfg st' := by
  constructor <;> rw [hsame]
  · exact h.tokenIds
  · exact h.seqLens
  · exact h.slotMapping
  · exact h.blockTable
  · exact h.coherent
  · exact h.fits

theorem staged_of_reachable {st : QwenStaging} (h : (machine cfg).Reachable st) :
    Staged cfg st := by
  refine h.invariant (fun st hst => Allocated.staged (show Allocated cfg st from hst)) ?_
  intro st op st' _ hst hstep
  subst hstep
  cases op with
  | prefill batch => exact hst.of_decode (preparePrefillInputs_decode batch st)
  | decode batch => exact (prepareDecodeInputs_simulates batch st hst).1
  | warmup dispatched =>
    cases dispatched with
    | false => exact hst.of_decode rfl
    | true =>
      exact {
        tokenIds := (List.length_map _).trans hst.tokenIds
        seqLens := List.length_replicate
        slotMapping := (List.length_map _).trans hst.slotMapping
        blockTable := (List.length_map _).trans hst.blockTable
        coherent := .of_unknown (by simp [apply, warmupDecode])
        fits := by simp [apply, warmupDecode] }

/-- The page of the position that an active row decodes. -/
theorem checkRow_ok {batch : QwenDecodeBatch} {i : Nat} (h : checkRow cfg batch i = .ok ()) :
    0 < batch.seqLens.getD i 0 ∧ (batch.seqLens.getD i 0 - 1).toNat / cfg.pageSize <
      (rowPageIds batch.kvAllocations batch.blockIds i).length := by
  obtain ⟨_, hseq, h⟩ := bind_eq_ok.mp h
  obtain ⟨_, _, h⟩ := bind_eq_ok.mp h
  obtain ⟨slot, hslot, _⟩ := bind_eq_ok.mp h
  constructor
  · unfold checkSeqLen at hseq
    split at hseq
    · cases hseq
    · omega
  · unfold decodeSlot at hslot
    dsimp only at hslot
    split at hslot
    · cases hslot
    · omega

theorem checkDecode_ok {batch : QwenDecodeBatch} {n : Nat} (h : checkDecode cfg batch = .ok n) :
    n = batchCount batch ∧ 0 < n ∧ n ≤ cfg.maxBatchSize ∧ batch.tokenIds.length = n ∧
      n ≤ batch.seqLens.length ∧ ∀ i < n, checkRow cfg batch i = .ok () := by
  obtain ⟨m, hcount, h⟩ := bind_eq_ok.mp h
  obtain ⟨_, htokens, h⟩ := bind_eq_ok.mp h
  obtain ⟨_, hseqs, h⟩ := bind_eq_ok.mp h
  obtain ⟨_, hloop, h⟩ := bind_eq_ok.mp h
  obtain ⟨_, _, h⟩ := bind_eq_ok.mp h
  cases h
  obtain ⟨rfl, hpos, hmax⟩ := validateBatchSize_ok hcount
  exact ⟨rfl, hpos, hmax, checkTokenRows_ok htokens, checkSeqLenRows_ok hseqs,
    fun i hi => Fallible.forM_ok hloop i (List.mem_range.mpr hi)⟩

/-- After any batches, a decode batch is staged as on a fresh runner: it raises alike, or it
leaves the rows that the batch alone determines. The slot mapping of a prefill holds the slot
of every position. -/
theorem decode_staging_fresh {st st₀ : QwenStaging} (h : (machine cfg).Reachable st)
    (h₀ : Allocated cfg st₀) :
    (∀ batch : QwenDecodeBatch,
      ((prepareDecodeInputs cfg batch).exec st).1 = ((prepareDecodeInputs cfg batch).exec st₀).1 ∧
      ∀ n, ((prepareDecodeInputs cfg batch).exec st).1 = .ok n →
        rows ((prepareDecodeInputs cfg batch).exec st).2 =
            rows ((prepareDecodeInputs cfg batch).exec st₀).2 ∧
          rows ((prepareDecodeInputs cfg batch).exec st).2 = rebuild cfg batch n ∧
          ∀ i < n, 0 < batch.seqLens.getD i 0 ∧
            (batch.seqLens.getD i 0 - 1).toNat / cfg.pageSize <
              (rowPageIds batch.kvAllocations batch.blockIds i).length) ∧
    ∀ (target : List Int) (pageIds : List BlockId) (numTokens startPos : Nat),
      numTokens ≤ target.length →
      (0 < numTokens → (startPos + numTokens - 1) / cfg.pageSize < pageIds.length) →
      cfg.writeSlotMapping target pageIds numTokens startPos =
        .ok ((List.range' startPos numTokens).map (cfg.slot pageIds) ++ target.drop numTokens) := by
  refine ⟨fun batch => ?_, fun _ _ _ _ => writeSlotMapping_ok⟩
  have hst := staged_of_reachable h
  have hst₀ := Allocated.staged h₀
  obtain ⟨-, hresult, hrows⟩ := prepareDecodeInputs_simulates batch st hst
  obtain ⟨-, hresult₀, hrows₀⟩ := prepareDecodeInputs_simulates batch st₀ hst₀
  refine ⟨hresult.trans hresult₀.symm, fun n hn => ?_⟩
  have hcheck := hresult.symm.trans hn
  obtain ⟨rfl, hpos, hmax, htokens, hseqs, hchecks⟩ := checkDecode_ok hcheck
  have hrebuild {st : QwenStaging} (hst : Staged cfg st) :=
    writes_rebuild (r := rows st) hpos hmax htokens hseqs hst.tokenIds hst.seqLens
      hst.slotMapping hst.blockTable
  have hcached := (hrows _ hcheck).trans (hrebuild hst)
  have hfresh := (hrows₀ _ hcheck).trans (hrebuild hst₀)
  exact ⟨hcached.trans hfresh.symm, hcached, fun i hi => checkRow_ok (hchecks i hi)⟩

/-- A request leaves, and another moves to its row and grows by a page. -/
theorem decode_staging_moved : ∃ (cfg : QwenRuntime) (st st' : QwenStaging),
    (machine cfg).Reachable st ∧
    rows ((prepareDecodeInputs cfg { tokenIds := [7], seqLens := [3], blockIds := [[4, 5]] }).exec
      st).2 = rows st' ∧
    rows st' = ⟨[7, 7], [3, 3], [10, 10], [[4, 5], [4, 5]]⟩ := by
  let cfg : QwenRuntime := ⟨2, 4, 2, 4096, by decide⟩
  let st₀ : QwenStaging := {
    prefill := ⟨[], [], [], [], [], []⟩
    decode := ⟨[0, 0], [0, 0], [0, 0], ⟨[[0, 0], [0, 0]], []⟩⟩ }
  let st₁ := st₀.apply cfg
    (.decode { tokenIds := [1, 2], seqLens := [1, 2], blockIds := [[3], [4]] })
  have h₀ : Allocated cfg st₀ := ⟨rfl, rfl, rfl, rfl, rfl⟩
  have h₁ : (machine cfg).Reachable st₁ := (Machine.Reachable.start h₀).next rfl
  obtain ⟨-, hstaged⟩ := (decode_staging_fresh h₁ h₀).1
    { tokenIds := [7], seqLens := [3], blockIds := [[4, 5]] }
  obtain ⟨hfresh, -, -⟩ := hstaged 1 (by decide +kernel)
  exact ⟨cfg, st₁, _, h₁, hfresh, by decide +kernel⟩

end QwenStaging
end PyptoServing.Runner
