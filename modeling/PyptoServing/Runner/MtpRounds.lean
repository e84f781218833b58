import PyptoServing.Runner.MtpWaves

/-!
# The waves of a chunk

The waves of a chunk take every request once. A partial chunk has a wave for the first request of
each rank, one for the second, and so on.
-/
namespace PyptoServing.Runner

open Lib Lib.Raising Lib.Worklist Memory Sched

section PartialWaves
variable {layout : DeepSeekV4CacheLayout} {ranks : List Nat} {a : DecodeAssignment} {j w : Nat}

/-- The requests that the ranks decode in round `w`. -/
def waveAt (layout : DeepSeekV4CacheLayout) (ranks : List Nat) (w : Nat) : List Nat :=
  (List.range layout.ranks).filterMap fun rank => (rowsOf ranks ranks.length rank)[w]?

theorem partialWaves_eq (ha : Assigned layout ranks a) :
    partialWaves a = (List.range (a.perRankCounts.foldr max 0)).map (waveAt layout ranks) := by
  unfold partialWaves waveAt
  rw [ha.rows]
  refine List.map_congr_left fun w _ => ?_
  rw [List.filterMap_map]
  rfl

theorem mem_waveAt : j ∈ waveAt layout ranks w ↔
    ∃ rank < layout.ranks, (rowsOf ranks ranks.length rank)[w]? = some j := by
  simp [waveAt]

/-- A round has one request a rank. -/
theorem ranks_waveAt : (waveAt layout ranks w).map (fun j => ranks.getD j 0) =
    (List.range layout.ranks).filter fun rank => w < (rowsOf ranks ranks.length rank).length := by
  unfold waveAt
  rw [List.map_filterMap, ← List.filterMap_eq_filter]
  refine List.filterMap_congr fun rank _ => ?_
  by_cases hw : w < (rowsOf ranks ranks.length rank).length
  · have hrank := (mem_rowsOf.mp (List.getElem_mem hw)).2
    rw [List.getElem?_eq_getElem hw, Option.map_some, List.getD_eq_getElem?_getD, hrank]
    simp [Option.guard, hw]
  · rw [List.getElem?_eq_none (by omega)]
    simp [Option.guard, hw]

theorem nodup_ranks_waveAt : ((waveAt layout ranks w).map fun j => ranks.getD j 0).Nodup := by
  rw [ranks_waveAt]
  exact List.nodup_range.filter _

theorem length_le_counts (ha : Assigned layout ranks a) {rank : Nat} (hrank : rank < layout.ranks) :
    (rowsOf ranks ranks.length rank).length ≤ a.perRankCounts.foldr max 0 := by
  refine List.le_max_of_le' 0 (a := (rowsOf ranks ranks.length rank).length) ?_ le_rfl
  rw [ha.counts, ha.rows, List.map_map]
  exact List.mem_map.mpr ⟨rank, List.mem_range.mpr hrank, rfl⟩

theorem waveAt_ne_nil (ha : Assigned layout ranks a) (hw : w < a.perRankCounts.foldr max 0) :
    waveAt layout ranks w ≠ [] := by
  intro hnil
  have hle : a.perRankCounts.foldr max 0 ≤ w := by
    refine List.max_le_of_forall_le _ _ fun count hcount => ?_
    rw [ha.counts, ha.rows, List.map_map] at hcount
    obtain ⟨rank, hrank, rfl⟩ := List.mem_map.mp hcount
    by_contra hlt
    have hlt' : w < (rowsOf ranks ranks.length rank).length := not_le.mp hlt
    have hmem : (rowsOf ranks ranks.length rank)[w] ∈ waveAt layout ranks w :=
      mem_waveAt.mpr ⟨rank, List.mem_range.mp hrank, List.getElem?_eq_getElem hlt'⟩
    rw [hnil] at hmem
    cases hmem
  omega

theorem lt_of_mem_waveAt (h : j ∈ waveAt layout ranks w) : j < ranks.length := by
  obtain ⟨rank, -, hget⟩ := mem_waveAt.mp h
  exact (mem_rowsOf.mp (List.mem_of_getElem? hget)).1

theorem mem_partialWaves (ha : Assigned layout ranks a) (hranks : ∀ rank ∈ ranks, rank < layout.ranks) :
    j ∈ (partialWaves a).flatten ↔ j < ranks.length := by
  rw [partialWaves_eq ha, List.mem_flatten]
  constructor
  · rintro ⟨wave, hwave, hj⟩
    obtain ⟨w, -, rfl⟩ := List.mem_map.mp hwave
    exact lt_of_mem_waveAt hj
  · intro hj
    have hrank := hranks _ (List.getElem_mem hj)
    have hmem : j ∈ rowsOf ranks ranks.length ranks[j] :=
      mem_rowsOf.mpr ⟨hj, List.getElem?_eq_getElem hj⟩
    obtain ⟨w, hw, hget⟩ := List.mem_iff_getElem.mp hmem
    refine ⟨_, List.mem_map_of_mem (List.mem_range.mpr (hw.trans_le (length_le_counts ha hrank))),
      mem_waveAt.mpr ⟨_, hrank, ?_⟩⟩
    rw [List.getElem?_eq_getElem hw, hget]

theorem nodup_partialWaves (ha : Assigned layout ranks a) : (partialWaves a).flatten.Nodup := by
  rw [partialWaves_eq ha, List.nodup_flatten]
  refine ⟨fun wave hwave => ?_, ?_⟩
  · obtain ⟨w, -, rfl⟩ := List.mem_map.mp hwave
    exact nodup_ranks_waveAt.of_map _
  · rw [List.pairwise_map]
    refine List.nodup_range.imp fun {w w'} hne => ?_
    intro j hj hj'
    obtain ⟨rank, -, hget⟩ := mem_waveAt.mp hj
    obtain ⟨rank', -, hget'⟩ := mem_waveAt.mp hj'
    have hrank := (mem_rowsOf.mp (List.mem_of_getElem? hget)).2
    have hrank' := (mem_rowsOf.mp (List.mem_of_getElem? hget')).2
    obtain rfl : rank = rank' := Option.some.inj (hrank.symm.trans hrank')
    refine hne ((List.getElem?_inj (List.getElem?_eq_some_iff.mp hget).1 (nodup_rowsOf _ _ _)).mp ?_)
    rw [hget, hget']

/-- Requests on different ranks are decoded in one round. -/
theorem length_of_mem_partialWaves (ha : Assigned layout ranks a)
    (hranks : ∀ rank ∈ ranks, rank < layout.ranks) (hnodup : ranks.Nodup) {wave : List Nat}
    (hwave : wave ∈ partialWaves a) : wave.length = ranks.length := by
  have hperm : (partialWaves a).flatten.Perm (List.range ranks.length) :=
    (List.perm_ext_iff_of_nodup (nodup_partialWaves ha) List.nodup_range).mpr fun j => by
      rw [mem_partialWaves ha hranks, List.mem_range]
  have hcount : a.perRankCounts.foldr max 0 ≤ 1 := by
    refine List.max_le_of_forall_le _ _ fun count hcount => ?_
    rw [ha.counts, ha.rows, List.map_map] at hcount
    obtain ⟨rank, -, rfl⟩ := List.mem_map.mp hcount
    rw [Function.comp_apply, length_rowsOf _ _ _ le_rfl]
    exact (List.take_sublist _ _).count_le _ |>.trans (List.nodup_iff_count_le_one.mp hnodup rank)
  have hlen : (partialWaves a).length ≤ 1 := by
    rw [partialWaves_eq ha, List.length_map, List.length_range]
    exact hcount
  obtain ⟨single, hsingle⟩ := List.length_eq_one_iff.mp
    (le_antisymm hlen (List.length_pos_of_mem hwave))
  rw [hsingle] at hwave hperm
  obtain rfl := List.mem_singleton.mp hwave
  simpa using hperm.length_eq

end PartialWaves

namespace Verification
variable {σ H L : Type} {v : Verification σ H L} {target : Target H L} {context : Nat → List Int}
  {active : List Nat} {o width : Nat}

variable (v) in
/-- Waves that take every active request once. -/
structure ChunkWaves (active : List Nat) (o width : Nat) (waves : List (List Nat)) : Prop where
  isWave : ∀ indices ∈ waves, v.IsWave (rowsAt active indices) o width
  nodup : (waves.flatMap (rowsAt active)).Nodup
  mem : ∀ i, i ∈ waves.flatMap (rowsAt active) ↔ i ∈ active
  whole : width = v.layout.decodeSeq ∨ (active.map v.rank).Nodup →
    ∀ indices ∈ waves, (rowsAt active indices).length = active.length

theorem rowsAt_range {α : Type} (rows : List α) : rowsAt rows (List.range rows.length) = rows := by
  cases rows with
  | nil => rfl
  | cons row rows =>
    rw [rowsAt_eq row fun i hi => List.mem_range.mp hi]
    refine List.ext_getElem (by simp) fun i hi hi' => ?_
    rw [List.getElem_map, List.getElem_range, List.getD_eq_getElem _ _ hi']

/-- A chunk of the compiled width is one wave. -/
theorem chunkWaves_full (hbound : ∀ i ∈ active, i < v.batch.rows.length) (hnodup : active.Nodup)
    (hne : active ≠ []) (hpos : 0 < width) (hfull : width = v.layout.decodeSeq)
    (hdepth : o + width ≤ v.numDrafts + 1) :
    v.ChunkWaves active o width [List.range active.length] := by
  have hall := rowsAt_range active
  refine ⟨?_, ?_, ?_, ?_⟩
  · intro indices hindices
    obtain rfl := List.mem_singleton.mp hindices
    rw [hall]
    exact ⟨hne, hbound, hnodup, hpos, hfull.le, hdepth, .inl hfull⟩
  · simpa [hall] using hnodup
  · simp [hall]
  · intro _ indices hindices
    obtain rfl := List.mem_singleton.mp hindices
    rw [hall]

/-- A partial chunk has a wave for each round of the ranks. -/
theorem Verifiable.chunkWaves_narrow (h : v.Verifiable target context)
    (hbound : ∀ i ∈ active, i < v.batch.rows.length) (hnodup : active.Nodup)
    (hpos : 0 < width) (hlt : width < v.layout.decodeSeq) (hdepth : o + width ≤ v.numDrafts + 1)
    {a : DecodeAssignment} (ha : Assigned v.layout (active.map v.rank) a) :
    v.ChunkWaves active o width (partialWaves a) := by
  have hranks : ∀ rank ∈ active.map v.rank, rank < v.layout.ranks := by
    intro rank hrank
    obtain ⟨i, hi, rfl⟩ := List.mem_map.mp hrank
    exact (h.cachePartition (hbound i hi)).2
  have hflat : (partialWaves a).flatMap (rowsAt active) =
      (partialWaves a).flatten.map fun j => active.getD j 0 := by
    rw [← rowsAt_eq 0 fun j hj => ?_]
    · unfold rowsAt
      rw [List.filterMap_flatten]
      rfl
    · simpa using (mem_partialWaves ha hranks).mp hj
  refine ⟨fun indices hindices => ?_, ?_, fun i => ?_, fun hwhole indices hindices => ?_⟩
  · rw [partialWaves_eq ha] at hindices
    obtain ⟨w, hw, rfl⟩ := List.mem_map.mp hindices
    have hlen : ∀ j ∈ waveAt v.layout (active.map v.rank) w, j < active.length :=
      fun j hj => by simpa using lt_of_mem_waveAt hj
    have hrank : (rowsAt active (waveAt v.layout (active.map v.rank) w)).map v.rank =
        (waveAt v.layout (active.map v.rank) w).map fun j => (active.map v.rank).getD j 0 := by
      rw [rowsAt_eq 0 hlen, List.map_map]
      refine List.map_congr_left fun j hj => ?_
      have hj' := hlen j hj
      simp [hj']
    have hdistinct : ((rowsAt active (waveAt v.layout (active.map v.rank) w)).map v.rank).Nodup := by
      rw [hrank]
      exact nodup_ranks_waveAt
    refine ⟨?_, ?_, hdistinct.of_map _, hpos, hlt.le, hdepth, .inr hdistinct⟩
    · rw [rowsAt_eq 0 hlen, ne_eq, List.map_eq_nil_iff]
      exact waveAt_ne_nil ha (List.mem_range.mp hw)
    · intro i hi
      rw [rowsAt, List.mem_filterMap] at hi
      obtain ⟨j, -, hj⟩ := hi
      exact hbound i (List.mem_of_getElem? hj)
  · rw [hflat]
    refine (nodup_partialWaves ha).map_on fun j hj j' hj' heq => ?_
    have hlt := (mem_partialWaves ha hranks).mp hj
    have hlt' := (mem_partialWaves ha hranks).mp hj'
    rw [List.length_map] at hlt hlt'
    refine (List.getElem?_inj hlt hnodup).mp ?_
    rw [List.getD_eq_getElem _ _ hlt, List.getD_eq_getElem _ _ hlt'] at heq
    rw [List.getElem?_eq_getElem hlt, List.getElem?_eq_getElem hlt', heq]
  · rw [hflat, List.mem_map]
    constructor
    · rintro ⟨j, hj, rfl⟩
      have hlt := (mem_partialWaves ha hranks).mp hj
      rw [List.length_map] at hlt
      rw [List.getD_eq_getElem _ _ hlt]
      exact List.getElem_mem hlt
    · intro hi
      obtain ⟨j, hj, rfl⟩ := List.mem_iff_getElem.mp hi
      exact ⟨j, (mem_partialWaves ha hranks).mpr (by simpa using hj), List.getD_eq_getElem _ _ hj⟩
  · have hsame := length_of_mem_partialWaves ha hranks (hwhole.resolve_left hlt.ne) hindices
    rw [List.length_map] at hsame
    rw [rowsAt_eq 0 fun j hj => ?_, List.length_map, hsame]
    simpa using (mem_partialWaves ha hranks).mp (List.mem_flatten.mpr ⟨indices, hindices, hj⟩)

theorem Verifiable.exists_waves (h : v.Verifiable target context)
    (hbound : ∀ i ∈ active, i < v.batch.rows.length) (hnodup : active.Nodup) (hne : active ≠ [])
    (hpos : 0 < width) (hle : width ≤ v.layout.decodeSeq) (hdepth : o + width ≤ v.numDrafts + 1) :
    ∃ waves, v.waves active width = .ok waves ∧ v.ChunkWaves active o width waves := by
  by_cases hfull : width = v.layout.decodeSeq
  · exact ⟨_, if_pos hfull, chunkWaves_full hbound hnodup hne hpos hfull hdepth⟩
  · have hrows := select_rows hbound
    have hlen : (selectDecodeBatchRows v.batch active).rows.length = active.length := by
      rw [hrows, List.length_map]
    obtain ⟨a, hok, ha⟩ := h.part_assigned hbound hnodup hne hlen (by rw [hrows, List.map_map]; rfl)
    refine ⟨partialWaves a, ?_, h.chunkWaves_narrow hbound hnodup hpos (by omega) hdepth ha⟩
    unfold waves
    rw [if_neg hfull, hok]
    rfl

end Verification
end PyptoServing.Runner
