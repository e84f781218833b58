import PyptoServing.Lib.Fallible
import Mathlib.Data.List.Range
import Mathlib.Tactic.Ring

/-!
# Cache metadata from block ids

The runner gets a table of physical block ids for every request of a batch and addresses it
modulo its length. Rows of a batch are padded to one width.
-/
namespace PyptoServing.Runner

open Lib.Fallible

/-- A matrix of block ids, positions or slots. -/
abbrev IndexRows := List (List Int)

/-- `ids[logical_block % len(ids)]`. -/
def ringBlock (ids : List Int) (logicalBlock : Int) : Int :=
  ids.getD (logicalBlock % ids.length).toNat 0

/-- A row of `torch.full((rows, width), -1)` with its first columns assigned. -/
def padRow (width : Nat) (l : List Int) : List Int := l ++ List.replicate (width - l.length) (-1)

/-- `max((len(row) for row in positions), default=0)`. -/
def rowWidth (positions : IndexRows) : Nat := (positions.map List.length).foldr max 0

/-- One row of `ring_block_table_from_ids`. -/
def ringBlockTableRow (maxBlocks row : Nat) (ids : List Int) : Except String (List Int) :=
  if ids = [] then .error s!"ring block-table row {row} has no allocated blocks"
  else if ids.any (· < 0) then .error "block IDs must not be negative"
  else
    let repeated := (List.replicate ((maxBlocks + ids.length - 1) / ids.length) ids).flatten
    .ok (repeated.take maxBlocks)

/-- `ring_block_table_from_ids`. -/
def ringBlockTableFromIds (perRequestBlockIds : IndexRows) (maxBlocks : Nat) :
    Except String IndexRows :=
  if maxBlocks = 0 then .error "max_blocks must be positive"
  else perRequestBlockIds.zipIdx.mapM fun (ids, row) => ringBlockTableRow maxBlocks row ids

/-- One column of `slot_mapping_from_ids`. -/
def slotMappingCell (blockSize compressRatio : Int) (row : Nat) (blockIds : List Int)
    (position : Int) : Except String Int :=
  let sourceBlock := position / blockSize
  let sourceOffset := position % blockSize
  let offset := sourceOffset / compressRatio
  if blockIds = [] then .error s!"slot-mapping row {row} has no allocated blocks"
  else
    let storageBlockSize := blockSize / compressRatio
    .ok (ringBlock blockIds sourceBlock * storageBlockSize + offset)

/-- `slot_mapping_from_ids`. -/
def slotMappingFromIds (perRequestBlockIds positions : IndexRows) (blockSize : Int)
    (compressRatio : Int := 1) : Except String IndexRows :=
  if blockSize ≤ 0 ∨ compressRatio ≤ 0 then
    .error "block_size and compress_ratio must be positive"
  else if perRequestBlockIds.length ≠ positions.length then
    .error "block IDs and positions must have the same row count"
  else
    (perRequestBlockIds.zip positions).zipIdx.mapM fun ((blockIds, rowPositions), row) => do
      let slots ← rowPositions.mapM (slotMappingCell blockSize compressRatio row blockIds)
      return padRow (rowWidth positions) slots

/-- `DeepSeekV4CacheMetadataBuilder`, with what it reads of its layout. -/
structure DeepSeekV4CacheMetadataBuilder where
  blockSize : Nat := 128
  slidingWindow : Nat := 128

namespace DeepSeekV4CacheMetadataBuilder
variable (builder : DeepSeekV4CacheMetadataBuilder)

/-- `logical_block, offset = divmod(position, block_size)`, and the row of the ring there. -/
def ringSlot (ids : List Int) (position : Int) : Int :=
  let logicalBlock := position / builder.blockSize
  let offset := position % builder.blockSize
  ringBlock ids logicalBlock * builder.blockSize + offset

/-- `paged_decode_slot_mapping_from_ids`. -/
def pagedDecodeSlotMappingFromIds (perRequestBlockIds positions : IndexRows) :
    Except String IndexRows :=
  if perRequestBlockIds.length ≠ positions.length then
    .error "block IDs and positions must have the same row count"
  else
    (perRequestBlockIds.zip positions).zipIdx.mapM fun ((ids, rowPositions), row) =>
      if ids = [] then .error s!"ori ring row {row} has no allocated blocks"
      else .ok (padRow (rowWidth positions) (rowPositions.map (builder.ringSlot ids)))

/-- The indices and the length of one position. -/
def swaWindow (ids : List Int) (position : Int) : Except String (List Int × Int) :=
  if position < 0 then .error "decode positions must not be negative"
  else
    let start := max 0 (position - builder.slidingWindow + 1)
    let visible := (List.range (position + 1 - start).toNat).map fun offset : Nat => start + (offset : Int)
    .ok (padRow builder.slidingWindow (visible.map (builder.ringSlot ids)), position - start + 1)

/-- The tokens of one row of `swa_window_indices_and_lens_from_ids`. -/
def swaRow (width row : Nat) (ids rowPositions : List Int) :
    Except String (List (List Int × Int)) :=
  if ids = [] then .error s!"SWA row {row} has no allocated blocks"
  else if ids.any (· < 0) then .error "block IDs must not be negative"
  else do
    let tokens ← rowPositions.mapM (builder.swaWindow ids)
    return tokens ++ List.replicate (width - tokens.length) (padRow builder.slidingWindow [], 0)

/-- `swa_window_indices_and_lens_from_ids`; token `row * width + column` is a row of both
results. -/
def swaWindowIndicesAndLensFromIds (perRequestBlockIds positions : IndexRows) :
    Except String (IndexRows × List Int) :=
  if perRequestBlockIds.length ≠ positions.length then
    .error "block IDs and positions must have the same row count"
  else do
    let rows ← (perRequestBlockIds.zip positions).zipIdx.mapM fun ((ids, rowPositions), row) =>
      builder.swaRow (rowWidth positions) row ids rowPositions
    return (rows.flatten.map Prod.fst, rows.flatten.map Prod.snd)

end DeepSeekV4CacheMetadataBuilder

/-- One table of block ids and one row of positions for each request. -/
structure RingBatch (tables positions : IndexRows) : Prop where
  rows : tables.length = positions.length
  filled : ∀ ids ∈ tables, ids ≠ []
  ids : ∀ ids ∈ tables, ∀ id ∈ ids, 0 ≤ id
  positions : ∀ row ∈ positions, ∀ position ∈ row, 0 ≤ position

/-- A cell of a matrix. -/
def cell (rows : IndexRows) (k c : Nat) : Option Int := rows[k]?.bind (·[c]?)

variable {tables positions : IndexRows} {k c : Nat} {ids row : List Int} {x : Int}

theorem cell_eq : cell positions k c = some x ↔ ∃ row, positions[k]? = some row ∧ row[c]? = some x :=
  Option.bind_eq_some_iff

theorem padRow_get {width : Nat} (h : ids[c]? = some x) : (padRow width ids)[c]? = some x := by
  obtain ⟨hc, -⟩ := List.getElem?_eq_some_iff.mp h
  rw [padRow, List.getElem?_append_left hc, h]

theorem length_le_rowWidth (h : row ∈ positions) : row.length ≤ rowWidth positions := by
  induction positions with
  | nil => cases h
  | cons first rest ih =>
    show row.length ≤ max first.length (rowWidth rest)
    rcases List.mem_cons.mp h with rfl | h
    · exact Nat.le_max_left _ _
    · exact (ih h).trans (Nat.le_max_right _ _)

/-- A row of a batch with its number. -/
theorem zip_get (hk : tables[k]? = some ids) (hp : positions[k]? = some row) :
    (tables.zip positions).zipIdx[k]? = some ((ids, row), k) := by
  have hpair : (tables.zip positions)[k]? = some (ids, row) :=
    List.getElem?_zip_eq_some.mpr ⟨hk, hp⟩
  rw [List.getElem?_zipIdx, hpair]
  simp

theorem mem_zip_rows {a : (List Int × List Int) × Nat} (h : a ∈ (tables.zip positions).zipIdx) :
    a.1.1 ∈ tables ∧ a.1.2 ∈ positions := by
  have hmem : a.1 ∈ tables.zip positions := List.fst_mem_of_mem_zipIdx h
  exact List.of_mem_zip hmem

/-- The slot of a position in the storage blocks of a table. -/
def storageSlot (blockSize compressRatio : Int) (ids : List Int) (position : Int) : Int :=
  ringBlock ids (position / blockSize) * (blockSize / compressRatio) +
    position % blockSize / compressRatio

theorem slotMappingFromIds_ok {blockSize compressRatio : Int} (hb : RingBatch tables positions)
    (hblock : 0 < blockSize) (hratio : 0 < compressRatio) (hk : tables[k]? = some ids) :
    ∃ mapping, slotMappingFromIds tables positions blockSize compressRatio = .ok mapping ∧
      ∀ c x, cell positions k c = some x →
        cell mapping k c = some (storageSlot blockSize compressRatio ids x) := by
  obtain ⟨mapping, hok⟩ : ∃ mapping,
      slotMappingFromIds tables positions blockSize compressRatio = .ok mapping := by
    unfold slotMappingFromIds
    rw [if_neg (by omega), if_neg (by simpa using hb.rows)]
    let slotsOf (a : (List Int × List Int) × Nat) : List Int :=
      padRow (rowWidth positions) (a.1.2.map (storageSlot blockSize compressRatio a.1.1))
    refine ⟨(tables.zip positions).zipIdx.map slotsOf, mapM_pure fun a ha => ?_⟩
    obtain ⟨hids, -⟩ := mem_zip_rows ha
    have hrow : a.1.2.mapM (slotMappingCell blockSize compressRatio a.2 a.1.1) =
        .ok (a.1.2.map (storageSlot blockSize compressRatio a.1.1)) :=
      mapM_pure fun x _ => if_neg (hb.filled _ hids)
    exact bind_eq_ok.mpr ⟨_, hrow, rfl⟩
  refine ⟨mapping, hok, fun c x hx => ?_⟩
  obtain ⟨row, hrow, hc⟩ := cell_eq.mp hx
  unfold slotMappingFromIds at hok
  rw [if_neg (by omega), if_neg (by simpa using hb.rows)] at hok
  obtain ⟨out, hout, hf⟩ := mapM_get hok (zip_get hk hrow)
  obtain ⟨slots, hslots, hf⟩ := bind_eq_ok.mp hf
  cases hf
  obtain ⟨slot, hslot, hcell⟩ := mapM_get hslots hc
  refine cell_eq.mpr ⟨_, hout, padRow_get ?_⟩
  rw [hslot]
  unfold slotMappingCell at hcell
  dsimp only at hcell
  rw [if_neg (hb.filled _ (List.mem_of_getElem? hk))] at hcell
  rw [← Except.ok.inj hcell]
  rfl

variable {builder : DeepSeekV4CacheMetadataBuilder}

theorem pagedDecodeSlotMappingFromIds_ok (builder : DeepSeekV4CacheMetadataBuilder)
    (hb : RingBatch tables positions) (hk : tables[k]? = some ids) :
    ∃ mapping, builder.pagedDecodeSlotMappingFromIds tables positions = .ok mapping ∧
      ∀ c x, cell positions k c = some x → cell mapping k c = some (builder.ringSlot ids x) := by
  let slotsOf (a : (List Int × List Int) × Nat) : List Int :=
    padRow (rowWidth positions) (a.1.2.map (builder.ringSlot a.1.1))
  have hok : builder.pagedDecodeSlotMappingFromIds tables positions =
      .ok ((tables.zip positions).zipIdx.map slotsOf) := by
    unfold DeepSeekV4CacheMetadataBuilder.pagedDecodeSlotMappingFromIds
    rw [if_neg (by simpa using hb.rows)]
    exact mapM_pure fun a ha => if_neg (hb.filled _ (mem_zip_rows ha).1)
  refine ⟨_, hok, fun c x hx => ?_⟩
  obtain ⟨row, hrow, hc⟩ := cell_eq.mp hx
  refine cell_eq.mpr ⟨slotsOf ((ids, row), k), ?_, padRow_get ?_⟩
  · rw [List.getElem?_map, zip_get hk hrow]
    rfl
  · rw [List.getElem?_map, hc]
    rfl

theorem flatten_replicate_get {α : Type*} {l : List α} (hl : l ≠ []) {n i : Nat}
    (hi : i < n * l.length) : (List.replicate n l).flatten[i]? = l[i % l.length]? := by
  have hpos := List.length_pos_iff.mpr hl
  induction n generalizing i with
  | zero => omega
  | succ n ih =>
    rw [List.replicate_succ, List.flatten_cons]
    by_cases hlt : i < l.length
    · rw [List.getElem?_append_left hlt, Nat.mod_eq_of_lt hlt]
    · rw [Nat.succ_mul] at hi
      rw [List.getElem?_append_right (by omega), ih (by omega), Nat.mod_eq_sub_mod (a := i) (by omega)]

theorem ringBlock_get {i : Nat} (hids : ids ≠ []) : ids[i % ids.length]? = some (ringBlock ids i) := by
  have hlt : i % ids.length < ids.length := Nat.mod_lt _ (List.length_pos_iff.mpr hids)
  have hnat : ((i : Int) % (ids.length : Int)).toNat = i % ids.length := by
    rw [← Int.natCast_mod, Int.toNat_natCast]
  rw [ringBlock, hnat, List.getD_eq_getElem?_getD, List.getElem?_eq_getElem hlt]
  rfl

theorem ringBlockTableFromIds_ok {maxBlocks : Nat} (hfilled : ∀ ids ∈ tables, ids ≠ [])
    (hnonneg : ∀ ids ∈ tables, ∀ id ∈ ids, 0 ≤ id) (hmax : 0 < maxBlocks)
    (hk : tables[k]? = some ids) :
    ∃ table, ringBlockTableFromIds tables maxBlocks = .ok table ∧
      ∀ i < maxBlocks, cell table k i = some (ringBlock ids i) := by
  let expand (ids : List Int) : List Int :=
    (List.replicate ((maxBlocks + ids.length - 1) / ids.length) ids).flatten.take maxBlocks
  have hok : ringBlockTableFromIds tables maxBlocks =
      .ok (tables.zipIdx.map fun a => expand a.1) := by
    rw [ringBlockTableFromIds, if_neg (by omega)]
    refine mapM_pure fun a ha => ?_
    have hmem : a.1 ∈ tables := List.fst_mem_of_mem_zipIdx ha
    have hany : ¬ a.1.any (· < 0) = true := by
      rw [List.any_eq_true]
      rintro ⟨id, hid, hneg⟩
      have := hnonneg _ hmem id hid
      rw [decide_eq_true_eq] at hneg
      omega
    show ringBlockTableRow maxBlocks a.2 a.1 = _
    rw [ringBlockTableRow, if_neg (hfilled _ hmem), if_neg hany]
  refine ⟨_, hok, fun i hi => cell_eq.mpr ⟨expand ids, ?_, ?_⟩⟩
  · rw [List.getElem?_map, List.getElem?_zipIdx, hk]
    rfl
  · have hids := hfilled ids (List.mem_of_getElem? hk)
    have hpos := List.length_pos_iff.mpr hids
    have hcover : i < (maxBlocks + ids.length - 1) / ids.length * ids.length := by
      have hdiv := Nat.div_add_mod (maxBlocks + ids.length - 1) ids.length
      have hmod := Nat.mod_lt (maxBlocks + ids.length - 1) hpos
      rw [Nat.mul_comm] at hdiv
      omega
    rw [List.getElem?_take_of_lt hi, flatten_replicate_get hids hcover, ringBlock_get hids]

/-- The last `min(window, position + 1)` positions. -/
def lastPositions (window position : Nat) : List Nat :=
  List.range' (position + 1 - min window (position + 1)) (min window (position + 1))

/-- Their slots, in order. -/
def DeepSeekV4CacheMetadataBuilder.windowSlots (builder : DeepSeekV4CacheMetadataBuilder)
    (ids : List Int) (position : Nat) : List Int :=
  (lastPositions builder.slidingWindow position).map fun y : Nat => builder.ringSlot ids (y : Int)

theorem swaWindow_ok (builder : DeepSeekV4CacheMetadataBuilder) (ids : List Int) (x : Nat) :
    builder.swaWindow ids x = .ok
      (padRow builder.slidingWindow (builder.windowSlots ids x),
        (min builder.slidingWindow (x + 1) : Nat)) := by
  have hstart : max 0 ((x : Int) - builder.slidingWindow + 1) =
      ((x + 1 - min builder.slidingWindow (x + 1) : Nat) : Int) := by omega
  rw [DeepSeekV4CacheMetadataBuilder.swaWindow, if_neg (by omega)]
  dsimp only
  rw [hstart]
  have hlen : ((x : Int) + 1 - ((x + 1 - min builder.slidingWindow (x + 1) : Nat) : Int)).toNat =
      min builder.slidingWindow (x + 1) := by omega
  have hcount : (x : Int) - ((x + 1 - min builder.slidingWindow (x + 1) : Nat) : Int) + 1 =
      (min builder.slidingWindow (x + 1) : Nat) := by omega
  rw [hlen, hcount, DeepSeekV4CacheMetadataBuilder.windowSlots, lastPositions,
    List.range'_eq_map_range, List.map_map, List.map_map]
  rfl

/-- Rows of one width, one behind the other. -/
theorem flatten_get {α : Type*} {rows : List (List α)} {width : Nat}
    (hwidth : ∀ row ∈ rows, row.length = width) {row : List α} (hk : rows[k]? = some row)
    (hc : c < width) : rows.flatten[k * width + c]? = row[c]? := by
  induction rows generalizing k with
  | nil => cases hk
  | cons first rest ih =>
    have hfirst := hwidth first (by simp)
    cases k with
    | zero =>
      cases hk
      rw [List.flatten_cons, Nat.zero_mul, Nat.zero_add, List.getElem?_append_left (by omega)]
    | succ k =>
      rw [List.flatten_cons, List.getElem?_append_right (by rw [hfirst, Nat.succ_mul]; omega),
        ← ih (fun row hrow => hwidth row (by simp [hrow])) hk]
      congr 1
      rw [hfirst, Nat.succ_mul]
      omega

theorem swaWindowIndicesAndLensFromIds_ok (builder : DeepSeekV4CacheMetadataBuilder)
    (hb : RingBatch tables positions) (hk : tables[k]? = some ids) :
    ∃ indices lens, builder.swaWindowIndicesAndLensFromIds tables positions = .ok (indices, lens) ∧
      ∀ c (x : Nat), cell positions k c = some (x : Int) →
        indices[k * rowWidth positions + c]? =
          some (padRow builder.slidingWindow (builder.windowSlots ids x)) ∧
        lens[k * rowWidth positions + c]? = some ((min builder.slidingWindow (x + 1) : Nat) : Int) := by
  let windowOf (ids : List Int) (x : Int) : List Int × Int :=
    (padRow builder.slidingWindow (builder.windowSlots ids x.toNat),
      (min builder.slidingWindow (x.toNat + 1) : Nat))
  let rowOf (a : (List Int × List Int) × Nat) : List (List Int × Int) :=
    a.1.2.map (windowOf a.1.1) ++
      List.replicate (rowWidth positions - a.1.2.length) (padRow builder.slidingWindow [], 0)
  have hrows : (tables.zip positions).zipIdx.mapM (fun a : (List Int × List Int) × Nat =>
      builder.swaRow (rowWidth positions) a.2 a.1.1 a.1.2) =
      .ok ((tables.zip positions).zipIdx.map rowOf) := by
    refine mapM_pure fun a ha => ?_
    obtain ⟨hids, hrow⟩ := mem_zip_rows ha
    have hany : ¬ a.1.1.any (· < 0) = true := by
      rw [List.any_eq_true]
      rintro ⟨id, hid, hneg⟩
      have := hb.ids _ hids id hid
      rw [decide_eq_true_eq] at hneg
      omega
    have htokens : a.1.2.mapM (builder.swaWindow a.1.1) = .ok (a.1.2.map (windowOf a.1.1)) := by
      refine mapM_pure fun x hx => ?_
      obtain ⟨n, rfl⟩ := Int.eq_ofNat_of_zero_le (hb.positions _ hrow x hx)
      exact swaWindow_ok builder a.1.1 n
    rw [DeepSeekV4CacheMetadataBuilder.swaRow, if_neg (hb.filled _ hids), if_neg hany]
    refine bind_eq_ok.mpr ⟨_, htokens, ?_⟩
    rw [List.length_map]
    rfl
  have hok : builder.swaWindowIndicesAndLensFromIds tables positions =
      .ok (((tables.zip positions).zipIdx.map rowOf).flatten.map Prod.fst,
        ((tables.zip positions).zipIdx.map rowOf).flatten.map Prod.snd) := by
    rw [DeepSeekV4CacheMetadataBuilder.swaWindowIndicesAndLensFromIds,
      if_neg (by simpa using hb.rows)]
    exact bind_eq_ok.mpr ⟨_, hrows, rfl⟩
  refine ⟨_, _, hok, fun c x hx => ?_⟩
  obtain ⟨row, hrow, hc⟩ := cell_eq.mp hx
  have hlen : ∀ r ∈ (tables.zip positions).zipIdx.map rowOf, r.length = rowWidth positions := by
    intro r hr
    obtain ⟨a, ha, rfl⟩ := List.mem_map.mp hr
    have hle := length_le_rowWidth (mem_zip_rows ha).2
    rw [List.length_append, List.length_map, List.length_replicate]
    omega
  have hkrow : ((tables.zip positions).zipIdx.map rowOf)[k]? = some (rowOf ((ids, row), k)) := by
    rw [List.getElem?_map, zip_get hk hrow]
    rfl
  obtain ⟨hcrow, -⟩ := List.getElem?_eq_some_iff.mp hc
  have hwidth : c < rowWidth positions :=
    hcrow.trans_le (length_le_rowWidth (List.mem_of_getElem? hrow))
  have hget : ((tables.zip positions).zipIdx.map rowOf).flatten[k * rowWidth positions + c]? =
      some (windowOf ids x) := by
    rw [flatten_get hlen hkrow hwidth]
    show (row.map (windowOf ids) ++ _)[c]? = _
    rw [List.getElem?_append_left (by rw [List.length_map]; exact hcrow), List.getElem?_map, hc]
    rfl
  rw [List.getElem?_map, List.getElem?_map, hget]
  exact ⟨rfl, rfl⟩

end PyptoServing.Runner
