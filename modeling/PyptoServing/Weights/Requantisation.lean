import PyptoServing.Weights.HybridWeight

/-!
# What requantisation keeps

Every element of a dequantised weight is its own source value times the scale of its group or
block, also where the last one is only partly filled; and the INT8 element is off by half of
its row's scale at most.
-/
namespace PyptoServing.Weights

open Lib

/-- The value of an MXFP4 element: the low nibble of a byte comes first. -/
def mxfp4Element (weight : SourceWeight) (i j : Nat) : Rat :=
  let packed := weight.get [i, j / 2]
  mxfp4Values.getD (if j % 2 = 0 then lowNibble packed else highNibble packed) 0

/-- The source value of an element. -/
def sourceValue (weight : SourceWeight) (i j : Nat) : Option Rat :=
  match weight.dtype with
  | .int8 => some (mxfp4Element weight i j)
  | _ => e4m3Value (weight.get [i, j])

/-- The width of the dequantised weight. -/
def outputCols (weight : SourceWeight) : Nat :=
  match weight.dtype with
  | .int8 => weight.width 1 * 2
  | _ => weight.width 1

/-- The group or the block of an element. -/
def scaleIndex (weight : SourceWeight) (i j : Nat) : List Nat :=
  match weight.dtype with
  | .int8 => [i, j / mxfp4GroupSize]
  | _ => [i / fp8BlockSize, j / fp8BlockSize]

/-- The scale shape that is accepted. -/
def acceptedScaleShape (weight : SourceWeight) : List Nat :=
  match weight.dtype with
  | .int8 => [weight.width 0, numGroups (outputCols weight) mxfp4GroupSize]
  | _ => [numGroups (weight.width 0) fp8BlockSize, numGroups (weight.width 1) fp8BlockSize]

variable {weight : SourceWeight} {scale : Tensor Unit Rat} {rows cols i j : Nat}

theorem div_lt_numGroups {size group n : Nat} (hg : 0 < group) (h : n < size) :
    n / group < numGroups size group := by
  unfold numGroups
  rw [Nat.div_lt_iff_lt_mul hg]
  have := Nat.lt_div_mul_add hg (a := size + group - 1)
  omega

theorem unpackMxfp4_ok (hd : weight.dtype = .int8) (hs : weight.shape = [rows, cols]) :
    ∃ t, unpackMxfp4 weight = .ok t ∧ t.shape = [rows, cols * 2] ∧
      ∀ i, ∀ j < cols * 2, t.get [i, j] = some (mxfp4Element weight i j) := by
  unfold unpackMxfp4
  rw [hd, hs]
  refine ⟨_, rfl, rfl, fun i j hj => ?_⟩
  rw [Tensor.reshape_pairs (by simp [Tensor.mapAs, Tensor.stackLast, hs]) hj]
  unfold mxfp4Element
  have hbit : j % 2 = 0 ∨ j % 2 = 1 := by omega
  obtain h | h := hbit <;> simp [Tensor.mapAs, Tensor.stackLast, h]

/-- MXFP4: a scale for each group of a row. -/
theorem dequantize_mxfp4 (hd : weight.dtype = .int8) (hw : weight.shape = [rows, cols])
    (hs : scale.shape = [rows, numGroups (cols * 2) mxfp4GroupSize]) :
    ∃ w, dequantizeHybridWeight weight scale = .ok w ∧ w.shape = [rows, cols * 2] ∧
      ∀ i, ∀ j < cols * 2, w.get [i, j] =
        some (mxfp4Element weight i j * scale.get [i, j / mxfp4GroupSize]) := by
  obtain ⟨t, ht, hshape, hget⟩ := unpackMxfp4_ok hd hw
  unfold dequantizeHybridWeight
  rw [if_neg (by simp [hw, hs]), hd]
  dsimp only
  rw [ht]
  have hw0 : t.width 0 = rows := by simp [Tensor.width, hshape]
  have hw1 : t.width 1 = cols * 2 := by simp [Tensor.width, hshape]
  refine ⟨_, (if_neg ?_).trans (if_pos ?_), hshape, fun i j hj => ?_⟩
  · rw [hs, hw0, hw1, not_not]
  · simp [Tensor.narrow, Tensor.repeatInterleave, hshape, hs, hw1]
  · dsimp only
    rw [hget i j hj]
    simp [Tensor.narrow, Tensor.repeatInterleave]

/-- FP8: a scale for each block. -/
theorem dequantize_fp8 (hd : weight.dtype = .float8E4m3fn) (hw : weight.shape = [rows, cols])
    (hs : scale.shape = [numGroups rows fp8BlockSize, numGroups cols fp8BlockSize]) :
    ∃ w, dequantizeHybridWeight weight scale = .ok w ∧ w.shape = [rows, cols] ∧
      ∀ i j, w.get [i, j] = (e4m3Value (weight.get [i, j])).map
        (· * scale.get [i / fp8BlockSize, j / fp8BlockSize]) := by
  unfold dequantizeHybridWeight
  rw [if_neg (by simp [hw, hs]), hd]
  dsimp only
  refine ⟨_, (if_neg ?_).trans (if_pos ?_), hw, fun i j => ?_⟩
  · simp [hw, hs]
  · simp [Tensor.mapAs, Tensor.narrow, Tensor.repeatInterleave, hw, hs]
  · simp [Tensor.mapAs, Tensor.narrow, Tensor.repeatInterleave]

section Quantisation
variable {row : List (Option Rat)} {w : Values} {q : Tensor Unit (Option Int)} {s : Values}

/-- The largest magnitude of a row of numbers. -/
theorem amax_ok (hne : row ≠ []) (hrow : ∀ x ∈ row, x.isSome = true) :
    ∃ largest, amax row = some largest ∧ ∀ x, some x ∈ row → |x| ≤ largest := by
  have hnone : none ∉ row := fun h => by simpa using hrow none h
  unfold amax
  rw [if_neg hnone]
  obtain ⟨x₀, hx₀⟩ := List.exists_mem_of_ne_nil row hne
  obtain ⟨v, rfl⟩ := Option.isSome_iff_exists.mp (hrow x₀ hx₀)
  have hmem : ∀ x, some x ∈ row → |x| ∈ row.reduceOption.map (|·|) := fun x hx =>
    List.mem_map_of_mem (List.reduceOption_mem_iff.mpr hx)
  cases hmax : (row.reduceOption.map (|·|)).max? with
  | none =>
    have hv := hmem v hx₀
    rw [List.max?_eq_none_iff.mp hmax] at hv
    cases hv
  | some largest => exact ⟨largest, rfl, fun x hx => (List.max?_eq_some_iff.mp hmax).2 _ (hmem x hx)⟩

theorem outputScale_ok (hne : row ≠ []) (hrow : ∀ x ∈ row, x.isSome = true) :
    ∃ σ, outputScale row = some σ ∧ 0 < σ ∧ ∀ x, some x ∈ row → |x| ≤ int8Max * σ := by
  obtain ⟨largest, hmax, hle⟩ := amax_ok hne hrow
  refine ⟨max largest int8AmaxEps / int8Max, ?_, ?_, fun x hx => ?_⟩
  · rw [outputScale, hmax]
    rfl
  · have heps : 0 < max largest int8AmaxEps := lt_max_of_lt_right (by norm_num [int8AmaxEps])
    exact div_pos heps (by norm_num [int8Max])
  · rw [mul_div_cancel₀ _ (by norm_num [int8Max])]
    exact (hle x hx).trans (le_max_left ..)

/-- The clamp does nothing to a value within the row's maximum. -/
theorem quantizeValue_spec {x σ : Rat} (hσ : 0 < σ) (hx : |x| ≤ int8Max * σ) :
    -127 ≤ quantizeValue x σ ∧ quantizeValue x σ ≤ 127 ∧ |x - quantizeValue x σ * σ| ≤ σ / 2 := by
  obtain ⟨hlo, hhi⟩ := roundHalfEven_div_bounds hσ hx
  have heq : quantizeValue x σ = roundHalfEven (x / σ) := by
    rw [quantizeValue, min_eq_left hhi, max_eq_right hlo]
  rw [heq]
  exact ⟨hlo, hhi, abs_sub_roundHalfEven_mul_le hσ x⟩

theorem quantize_ok (hw : w.shape = [rows, cols]) :
    (∃ out, quantizeWeightPerOutput w = .ok out) ↔ cols ≠ 0 := by
  have hwidth : w.width 1 = cols := by simp [Tensor.width, hw]
  unfold quantizeWeightPerOutput
  rw [hwidth]
  split
  · next h => simp [h]
  · next h => simp [h]

/-- A row of numbers: its scale, and the error of every element. -/
theorem quantize_row (hw : w.shape = [rows, cols]) (h : quantizeWeightPerOutput w = .ok (q, s))
    (hrow : ∀ j < cols, (w.get [i, j]).isSome = true) :
    ∃ σ, s.get [i] = some σ ∧ 0 < σ ∧ ∀ j < cols, ∀ x, w.get [i, j] = some x →
      ∃ n, q.get [i, j] = some n ∧ -127 ≤ n ∧ n ≤ 127 ∧ |x - n * σ| ≤ σ / 2 := by
  have hwidth : w.width 1 = cols := by simp [Tensor.width, hw]
  unfold quantizeWeightPerOutput at h
  rw [hwidth] at h
  split at h
  · cases h
  · next hpos =>
    cases h
    have hmem : ∀ j < cols, w.get [i, j] ∈ rowOf w i := fun j hj =>
      List.mem_map.mpr ⟨j, List.mem_range.mpr (hwidth ▸ hj), rfl⟩
    obtain ⟨σ, hσ, hspos, hle⟩ := @outputScale_ok (rowOf w i)
      (List.ne_nil_of_mem (hmem 0 (Nat.pos_of_ne_zero hpos))) fun x hx => by
        obtain ⟨j, hj, rfl⟩ := List.mem_map.mp hx
        exact hrow j (hwidth ▸ List.mem_range.mp hj)
    refine ⟨σ, hσ, hspos, fun j hj x hx => ?_⟩
    obtain ⟨hlo, hhi, herr⟩ := quantizeValue_spec hspos (hle x (hx ▸ hmem j hj))
    refine ⟨quantizeValue x σ, ?_, hlo, hhi, herr⟩
    dsimp only
    rw [hx, Option.bind_some, List.headD_cons, List.headD_cons, hσ]
    rfl

end Quantisation

/-- A loaded scale is a power of two everywhere. -/
theorem loadE8m0Scale_ok {path name : String} {file : SafetensorsFile}
    (h : loadE8m0Scale path file name = .ok scale) :
    ∃ metadata, file.header.lookup name = some metadata ∧ scale.shape = metadata.shape ∧
      ∀ idx, Tensor.ravel scale.shape idx < scale.shape.prod →
        ∃ byte, (payload file metadata)[Tensor.ravel scale.shape idx]? = some byte ∧
          byte ≠ 0xFF#8 ∧ scale.get idx = e8m0Value byte := by
  unfold loadE8m0Scale at h
  cases hlook : file.header.lookup name with
  | none =>
    rw [hlook] at h
    cases h
  | some metadata =>
    rw [hlook] at h
    dsimp only at h
    split at h
    · cases h
    split at h
    · cases h
    split at h
    · cases h
    next hlen =>
    split at h
    · cases h
    split at h
    · cases h
    next hnan =>
    cases h
    refine ⟨metadata, rfl, rfl, fun idx hidx => ?_⟩
    rw [not_not] at hlen
    have hlt : Tensor.ravel metadata.shape idx < (payload file metadata).length := by
      rw [hlen]
      exact hidx
    refine ⟨_, List.getElem?_eq_getElem hlt, fun h => hnan (h ▸ List.getElem_mem hlt), ?_⟩
    dsimp only
    rw [List.getD_eq_getElem?_getD, List.getElem?_eq_getElem hlt, Option.getD_some]

/-- A source weight and a scale of its groups or blocks. -/
structure Accepted (weight : SourceWeight) (scale : Tensor Unit Rat) : Prop where
  rank : weight.shape.length = 2
  dtype : weight.dtype = .int8 ∨ weight.dtype = .float8E4m3fn
  shape : scale.shape = acceptedScaleShape weight

/-- Either kind of weight: the source value times the scale of the element. -/
theorem Accepted.dequantize (h : Accepted weight scale) :
    ∃ w, dequantizeHybridWeight weight scale = .ok w ∧
      w.shape = [weight.width 0, outputCols weight] ∧
      ∀ i, ∀ j < outputCols weight, w.get [i, j] =
        (sourceValue weight i j).map (· * scale.get (scaleIndex weight i j)) := by
  obtain ⟨rows, cols, hw⟩ := List.length_eq_two.mp h.rank
  have hrows : weight.width 0 = rows := by simp [Tensor.width, hw]
  have hcols : weight.width 1 = cols := by simp [Tensor.width, hw]
  have hs := h.shape
  unfold acceptedScaleShape at hs
  unfold sourceValue scaleIndex
  rcases h.dtype with hd | hd
  · have hout : outputCols weight = cols * 2 := by rw [outputCols, hd, hcols]
    rw [hd] at hs
    dsimp only at hs
    rw [hrows, hout] at hs
    rw [hrows, hout, hd]
    exact dequantize_mxfp4 hd hw hs
  · have hout : outputCols weight = cols := by rw [outputCols, hd, hcols]
    rw [hd] at hs
    dsimp only at hs
    rw [hrows, hcols] at hs
    rw [hrows, hout, hd]
    obtain ⟨w, hok, hshape, hget⟩ := dequantize_fp8 hd hw hs
    exact ⟨w, hok, hshape, fun i j _ => hget i j⟩

/-- Nothing else is dequantised. -/
theorem dequantize_accepts :
    (∃ w, dequantizeHybridWeight weight scale = .ok w) ↔ Accepted weight scale := by
  constructor
  · rintro ⟨w, h⟩
    unfold dequantizeHybridWeight at h
    split at h
    · cases h
    next hrank =>
    rw [not_or, not_not, not_not] at hrank
    obtain ⟨rows, cols, hw⟩ := List.length_eq_two.mp hrank.1
    have hrows : weight.width 0 = rows := by simp [Tensor.width, hw]
    have hcols : weight.width 1 = cols := by simp [Tensor.width, hw]
    dsimp only at h
    cases hd : weight.dtype with
    | int8 =>
      rw [hd] at h
      obtain ⟨t, ht, hshape, -⟩ := unpackMxfp4_ok hd hw
      dsimp only at h
      rw [ht] at h
      refine ⟨hrank.1, .inl hd, ?_⟩
      by_contra hne
      have hbad : scale.shape ≠ [t.width 0, numGroups (t.width 1) mxfp4GroupSize] := by
        rw [acceptedScaleShape, hd, outputCols, hd, hrows, hcols] at hne
        simpa [Tensor.width, hshape] using hne
      have herr := (if_pos hbad).symm.trans h
      cases herr
    | float8E4m3fn =>
      rw [hd] at h
      dsimp only at h
      refine ⟨hrank.1, .inr hd, ?_⟩
      rw [acceptedScaleShape, hd, hrows, hcols]
      by_contra hne
      rw [if_pos (by simpa [hw] using hne)] at h
      cases h
    | other name =>
      rw [hd] at h
      cases h
  · intro h
    obtain ⟨w, hok, -⟩ := h.dequantize
    exact ⟨w, hok⟩

theorem Accepted.scaleIndex_lt (h : Accepted weight scale) (hi : i < weight.width 0)
    (hj : j < outputCols weight) :
    Tensor.ravel scale.shape (scaleIndex weight i j) < scale.shape.prod := by
  rw [h.shape]
  unfold acceptedScaleShape scaleIndex
  rcases h.dtype with hd | hd
  · rw [hd]
    dsimp only
    rw [Tensor.ravel_matrix, List.prod_pair]
    exact Tensor.ravel_matrix_lt hi (div_lt_numGroups (by decide) hj)
  · rw [outputCols, hd] at hj
    rw [hd]
    dsimp only
    rw [Tensor.ravel_matrix, List.prod_pair]
    exact Tensor.ravel_matrix_lt (div_lt_numGroups (by decide) hi) (div_lt_numGroups (by decide) hj)

/-- The dequantised weight, and its error once it is quantised. -/
structure Requantised (weight : SourceWeight) (scale : Tensor Unit Rat) (encoded : List (BitVec 8))
    (w : Values) : Prop where
  shape : w.shape = [weight.width 0, outputCols weight]
  element : ∀ i < weight.width 0, ∀ j < outputCols weight, ∃ byte,
    encoded[Tensor.ravel scale.shape (scaleIndex weight i j)]? = some byte ∧ byte ≠ 0xFF#8 ∧
      w.get [i, j] = (sourceValue weight i j).map (· * e8m0Value byte)
  returns : (∃ out, quantizeWeightPerOutput w = .ok out) ↔ outputCols weight ≠ 0
  bound : ∀ q s, quantizeWeightPerOutput w = .ok (q, s) → ∀ i < weight.width 0,
    (∀ j < outputCols weight, (sourceValue weight i j).isSome = true) →
      ∃ σ, s.get [i] = some σ ∧ 0 < σ ∧ ∀ j < outputCols weight, ∃ x n,
        w.get [i, j] = some x ∧ q.get [i, j] = some n ∧ -127 ≤ n ∧ n ≤ 127 ∧ |x - n * σ| ≤ σ / 2

/-- Requantisation keeps every element within half of its row's scale. -/
theorem requantisation_error_bound {path name : String} {file : SafetensorsFile}
    (hload : loadE8m0Scale path file name = .ok scale) :
    ((∃ w, dequantizeHybridWeight weight scale = .ok w) ↔ Accepted weight scale) ∧
      ∃ metadata, file.header.lookup name = some metadata ∧
        ∀ w, dequantizeHybridWeight weight scale = .ok w →
          Requantised weight scale (payload file metadata) w := by
  obtain ⟨metadata, hlook, -, hget⟩ := loadE8m0Scale_ok hload
  refine ⟨dequantize_accepts, metadata, hlook, fun w hok => ?_⟩
  have h := dequantize_accepts.mp ⟨w, hok⟩
  obtain ⟨w', hok', hshape, hvalue⟩ := h.dequantize
  rw [hok] at hok'
  cases hok'
  have helement : ∀ i < weight.width 0, ∀ j < outputCols weight, ∃ byte,
      (payload file metadata)[Tensor.ravel scale.shape (scaleIndex weight i j)]? = some byte ∧
        byte ≠ 0xFF#8 ∧ w.get [i, j] = (sourceValue weight i j).map (· * e8m0Value byte) := by
    intro i hi j hj
    obtain ⟨byte, hbyte, hnan, hscale⟩ := hget _ (h.scaleIndex_lt hi hj)
    refine ⟨byte, hbyte, hnan, ?_⟩
    rw [← hscale]
    exact hvalue i j hj
  refine ⟨hshape, helement, quantize_ok hshape, fun q s hq i hi hrow => ?_⟩
  obtain ⟨σ, hσ, hpos, hbound⟩ := quantize_row hshape hq fun j hj => by
    rw [hvalue i j hj, Option.isSome_map]
    exact hrow j hj
  refine ⟨σ, hσ, hpos, fun j hj => ?_⟩
  obtain ⟨v, hv⟩ := Option.isSome_iff_exists.mp (hrow j hj)
  have hx := hvalue i j hj
  rw [hv, Option.map_some] at hx
  obtain ⟨n, hn, hlo, hhi, herr⟩ := hbound j hj _ hx
  exact ⟨_, n, hx, hn, hlo, hhi, herr⟩

/-- Seventeen bytes hold thirty-four elements: the second group has two. -/
def raggedWeight : SourceWeight := ⟨[1, 17], .int8, fun idx => if idx = [0, 16] then 0x9A#8 else 0x21#8⟩

def raggedFile : SafetensorsFile where
  header := Dict.ofList [("layers.0.w.scale", ⟨"F8_E8M0", [1, 2], (0, 2)⟩)]
  data := [127, 130]

theorem raggedFile_loads : ∃ scale, loadE8m0Scale "shard" raggedFile "layers.0.w.scale" = .ok scale ∧
    scale.shape = [1, 2] := ⟨_, rfl, rfl⟩

theorem requantisation_error_bound_ragged : ∃ scale w,
    loadE8m0Scale "shard" raggedFile "layers.0.w.scale" = .ok scale ∧
      dequantizeHybridWeight raggedWeight scale = .ok w ∧
      Requantised raggedWeight scale [127, 130] w ∧ w.get [0, 33] = some (-1 / 2 * 2 ^ (3 : Int)) := by
  obtain ⟨scale, hload, hshape⟩ := raggedFile_loads
  obtain ⟨haccepts, metadata, hlook, hall⟩ := requantisation_error_bound hload
  have hacc : Accepted raggedWeight scale := ⟨rfl, .inl rfl, hshape⟩
  obtain ⟨w, hw⟩ := haccepts.mpr hacc
  cases hlook
  have hreq := hall w hw
  obtain ⟨byte, hbyte, -, hget⟩ := hreq.element 0 (by decide) 33 (by decide)
  rw [hshape] at hbyte
  have h130 : byte = 130 := (Option.some.inj hbyte).symm
  refine ⟨scale, w, hload, hw, hreq, ?_⟩
  rw [hget, h130]
  rfl

end PyptoServing.Weights
