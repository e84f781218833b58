import PyptoServing.Runner.DecodeBatch

/-!
# Where requests are decoded

The rows that `_decode_assignment` gives: the requests of a rank in the order of the batch.
-/
namespace PyptoServing.Runner

open Lib Lib.Fallible Memory Sched

variable {layout : DeepSeekV4CacheLayout} {ranks : List Nat} {partitions : List (Option Nat)}
  {requestIds : List RequestId} {rank n : Nat}

/-- The requests of a rank among the first `n`. -/
def rowsOf (ranks : List Nat) (n rank : Nat) : List Nat :=
  (List.range n).filter fun j => ranks[j]? = some rank

theorem mem_rowsOf {j : Nat} : j ∈ rowsOf ranks n rank ↔ j < n ∧ ranks[j]? = some rank := by
  simp [rowsOf]

theorem rowsOf_succ (ranks : List Nat) (n rank : Nat) : rowsOf ranks (n + 1) rank =
    rowsOf ranks n rank ++ if ranks[n]? = some rank then [n] else [] := by
  rw [rowsOf, List.range_succ, List.filter_append]
  by_cases h : ranks[n]? = some rank <;> simp [h, rowsOf]

theorem length_rowsOf (ranks : List Nat) (rank : Nat) :
    ∀ n ≤ ranks.length, (rowsOf ranks n rank).length = (ranks.take n).count rank := by
  intro n hn
  induction n with
  | zero => rfl
  | succ n ih =>
    have hlt : n < ranks.length := hn
    rw [rowsOf_succ, List.length_append, ih hlt.le, List.take_succ_eq_append_getElem hlt,
      List.count_append, List.getElem?_eq_getElem hlt]
    by_cases h : ranks[n] = rank
    · simp [h]
    · simp [h]

theorem nodup_rowsOf (ranks : List Nat) (n rank : Nat) : (rowsOf ranks n rank).Nodup :=
  List.nodup_range.filter _

/-- A batch that fits: every request has a rank, and no rank has too many. -/
structure Fits (layout : DeepSeekV4CacheLayout) (partitions : List (Option Nat)) : Prop where
  ranked : ∀ p ∈ partitions, ∃ rank < layout.ranks, p = some rank
  room : ∀ rank, partitions.count (some rank) ≤ layout.decodeBatch

/-- A part of a batch that fits does too. -/
theorem Fits.of_subperm {partitions' : List (Option Nat)} (h : Fits layout partitions)
    (hsub : partitions'.Subperm partitions) : Fits layout partitions' :=
  ⟨fun p hp => h.ranked p (hsub.subset hp), fun rank => (hsub.count_le _).trans (h.room rank)⟩

/-- The rows after the first `n` requests. -/
structure PlacedRows (layout : DeepSeekV4CacheLayout) (ranks : List Nat) (n : Nat)
    (acc : List (List Nat) × List Nat) : Prop where
  rows : acc.1 = (List.range layout.ranks).map (rowsOf ranks n)
  length : acc.2.length = n
  localRow : ∀ j < n, ∀ rank, ranks[j]? = some rank →
    ∃ localRow, acc.2[j]? = some localRow ∧ (rowsOf ranks n rank)[localRow]? = some j

theorem PlacedRows.getD {acc : List (List Nat) × List Nat} (h : PlacedRows layout ranks n acc)
    (hrank : rank < layout.ranks) : acc.1.getD rank [] = rowsOf ranks n rank := by
  rw [h.rows, List.getD_eq_getElem?_getD, List.getElem?_map, List.getElem?_range hrank]
  rfl

/-- One request more. -/
theorem placeRow_placed {acc : List (List Nat) × List Nat} (h : PlacedRows layout ranks n acc)
    (hn : ranks[n]? = some rank) (hrank : rank < layout.ranks)
    (hroom : (rowsOf ranks n rank).length < layout.decodeBatch) :
    ∃ acc', placeRow layout acc (rank, n) = .ok acc' ∧ PlacedRows layout ranks (n + 1) acc' := by
  have hget := h.getD hrank
  refine ⟨(acc.1.modify rank (· ++ [n]), acc.2 ++ [(rowsOf ranks n rank).length]), ?_, ?_, ?_, ?_⟩
  · unfold placeRow
    dsimp only
    rw [hget, if_neg (by omega)]
  · apply List.ext_getElem?
    intro r
    rw [List.getElem?_modify, h.rows, List.getElem?_map, List.getElem?_map]
    by_cases hr : r < layout.ranks
    · rw [List.getElem?_range hr]
      simp only [Option.map_some, rowsOf_succ, hn, Option.some.injEq]
      by_cases heq : rank = r
      · simp [heq]
      · simp [heq]
    · rw [List.getElem?_eq_none (by simpa using hr)]
      rfl
  · rw [List.length_append, h.length]
    rfl
  · intro j hj r hr
    rw [rowsOf_succ]
    rcases Nat.lt_succ_iff_lt_or_eq.mp hj with hlt | rfl
    · obtain ⟨localRow, hlocal, hrow⟩ := h.localRow j hlt r hr
      refine ⟨localRow, ?_, ?_⟩
      · rw [List.getElem?_append_left (by rw [h.length]; exact hlt), hlocal]
      · rw [List.getElem?_append_left (List.getElem?_eq_some_iff.mp hrow).1, hrow]
    · obtain rfl : rank = r := Option.some.inj (hn.symm.trans hr)
      refine ⟨(rowsOf ranks j rank).length, ?_, ?_⟩
      · have hlast := List.getElem?_concat_length (l := acc.2) (a := (rowsOf ranks j rank).length)
        rwa [h.length] at hlast
      · rw [if_pos hn, List.getElem?_concat_length]

theorem placeRows_placed (hranked : ∀ rank ∈ ranks, rank < layout.ranks)
    (hroom : ∀ rank, ranks.count rank ≤ layout.decodeBatch) {rest : List Nat} {n : Nat}
    {acc : List (List Nat) × List Nat} (hsplit : ranks = ranks.take n ++ rest) (hn : n ≤ ranks.length)
    (h : PlacedRows layout ranks n acc) : ∃ acc',
      (rest.zipIdx n).foldlM (placeRow layout) acc = .ok acc' ∧
        PlacedRows layout ranks ranks.length acc' := by
  have hlen := congrArg List.length hsplit
  rw [List.length_append, List.length_take_of_le hn] at hlen
  induction rest generalizing n acc with
  | nil =>
    rw [List.length_nil, Nat.add_zero] at hlen
    exact ⟨acc, rfl, hlen ▸ h⟩
  | cons rank rest ih =>
    rw [List.length_cons] at hlen
    have hget : ranks[n]? = some rank := by
      rw [hsplit, List.getElem?_append_right (by simp), List.length_take_of_le hn, Nat.sub_self]
      rfl
    have htake : ranks.take (n + 1) = ranks.take n ++ [rank] := by
      rw [List.take_add_one, hget]
      rfl
    have hcount : (rowsOf ranks n rank).length < layout.decodeBatch := by
      have hle : (ranks.take (n + 1)).count rank ≤ ranks.count rank :=
        (List.take_sublist _ _).count_le _
      rw [htake, List.count_append, List.count_singleton_self] at hle
      rw [length_rowsOf ranks rank n hn]
      have := hroom rank
      omega
    obtain ⟨acc', hplace, h'⟩ :=
      placeRow_placed h hget (hranked rank (List.mem_of_getElem? hget)) hcount
    obtain ⟨acc'', hrest, h''⟩ := ih (by rw [htake, List.append_assoc]; exact hsplit) (by omega) h'
      (by omega)
    refine ⟨acc'', ?_, h''⟩
    rw [List.zipIdx_cons, List.foldlM_cons, hplace]
    exact hrest

/-- Rows that were all placed leave no rank with too many. -/
theorem placeRows_room {rows : List (Nat × Nat)} {acc acc' : List (List Nat) × List Nat}
    (h : rows.foldlM (placeRow layout) acc = .ok acc') (hbound : ∀ row ∈ rows, row.1 < acc.1.length)
    (rank : Nat) (hacc : (acc.1.getD rank []).length ≤ layout.decodeBatch) :
    (acc.1.getD rank []).length + (rows.map (·.1)).count rank ≤ layout.decodeBatch := by
  induction rows generalizing acc with
  | nil => exact hacc
  | cons row rows ih =>
    rw [List.foldlM_cons] at h
    obtain ⟨acc₁, hplace, hrest⟩ := bind_eq_ok.mp h
    unfold placeRow at hplace
    dsimp only at hplace
    split at hplace
    · cases hplace
    next hlt =>
    cases hplace
    have hlen : ((acc.1.modify row.1 (· ++ [row.2])).getD rank []).length =
        (acc.1.getD rank []).length + if row.1 = rank then 1 else 0 := by
      have hrow := hbound row (by simp)
      rw [List.getD_eq_getElem?_getD, List.getD_eq_getElem?_getD, List.getElem?_modify]
      by_cases hr : row.1 = rank
      · subst hr
        rw [List.getElem?_eq_getElem hrow]
        simp
      · simp [hr]
    have hstep := ih hrest (fun r hr => by
      rw [List.length_modify]
      exact hbound r (List.mem_cons_of_mem _ hr))
    dsimp only at hstep
    rw [hlen] at hstep
    rw [List.map_cons, List.count_cons]
    by_cases hr : row.1 = rank
    · rw [if_pos hr] at hstep
      rw [hr] at hlt ⊢
      have := hstep (by omega)
      simp only [beq_self_eq_true, if_true]
      omega
    · rw [if_neg hr] at hstep
      have := hstep (by omega)
      simp only [beq_iff_eq, hr, if_false]
      omega

theorem partitionRanks_map (ranks : List Nat) : partitionRanks (ranks.map some) = .ok ranks := by
  induction ranks with
  | nil => rfl
  | cons rank ranks ih =>
    unfold partitionRanks at ih ⊢
    rw [List.map_cons, List.mapM_cons, ih]
    rfl

/-- What an assignment says about a batch with these ranks. -/
structure Assigned (layout : DeepSeekV4CacheLayout) (ranks : List Nat) (a : DecodeAssignment) :
    Prop where
  ranks_eq : a.ranks = ranks
  rows : a.indicesByRank = (List.range layout.ranks).map (rowsOf ranks ranks.length)
  counts : a.perRankCounts = a.indicesByRank.map List.length
  localRow : ∀ j rank : Nat, ranks[j]? = some rank →
    ∃ localRow, a.localRows[j]? = some localRow ∧
      (rowsOf ranks ranks.length rank)[localRow]? = some j

theorem Fits.exists_ranks (h : Fits layout partitions) : ∃ ranks : List Nat, partitions = ranks.map some ∧
    (∀ rank ∈ ranks, rank < layout.ranks) ∧ ∀ rank, ranks.count rank ≤ layout.decodeBatch := by
  have hranked := h.ranked
  obtain ⟨ranks, rfl⟩ : ∃ ranks : List Nat, partitions = ranks.map some := by
    clear h
    induction partitions with
    | nil => exact ⟨[], rfl⟩
    | cons p partitions ih =>
      obtain ⟨rank, -, rfl⟩ := hranked p (by simp)
      obtain ⟨ranks, rfl⟩ := ih fun q hq => hranked q (List.mem_cons_of_mem _ hq)
      exact ⟨rank :: ranks, rfl⟩
  refine ⟨ranks, rfl, fun rank hrank => ?_, fun rank => ?_⟩
  · obtain ⟨rank', hlt, heq⟩ := hranked (some rank) (List.mem_map_of_mem hrank)
    cases heq
    exact hlt
  · have hroom := h.room rank
    rwa [List.count_map_of_injective _ _ (Option.some_injective _)] at hroom

/-- A batch that fits is assigned. -/
theorem Fits.assigned (h : Fits layout (ranks.map some)) (hne : requestIds ≠ [])
    (hlen : ranks.length = requestIds.length) :
    ∃ a, decodeAssignment layout requestIds (ranks.map some) = .ok a ∧ Assigned layout ranks a := by
  obtain ⟨ranks', heq, hranked, hroom⟩ := h.exists_ranks
  obtain rfl := List.map_injective_iff.mpr (Option.some_injective _) heq
  have hempty : PlacedRows layout ranks 0 (List.replicate layout.ranks [], []) := by
    refine ⟨?_, rfl, fun j hj => absurd hj (Nat.not_lt_zero _)⟩
    have hnone : rowsOf ranks 0 = fun _ => [] := rfl
    rw [hnone, List.map_const', List.length_range]
  have hsplit : ranks = ranks.take 0 ++ ranks := rfl
  obtain ⟨acc, hplace, hacc⟩ := placeRows_placed hranked hroom hsplit (Nat.zero_le _) hempty
  refine ⟨⟨ranks, acc.2, acc.1.map List.length, acc.1⟩, ?_, rfl, hacc.rows, rfl, ?_⟩
  · unfold decodeAssignment
    rw [if_neg hne, if_neg (by rw [List.length_map, hlen]; exact not_not.mpr rfl), partitionRanks_map]
    have hrange : ¬ (ranks.any fun rank => decide (layout.ranks ≤ rank)) = true := by
      simp only [List.any_eq_true, decide_eq_true_eq, not_exists, not_and, not_le]
      exact hranked
    show (if (ranks.any fun rank => decide (layout.ranks ≤ rank)) = true then _ else _) = _
    rw [if_neg hrange, hplace]
    rfl
  · intro j rank hj
    exact hacc.localRow j (List.getElem?_eq_some_iff.mp hj).1 rank hj

/-- A batch that is assigned fits. -/
theorem fits_of_assignment {a : DecodeAssignment}
    (h : decodeAssignment layout requestIds partitions = .ok a) :
    requestIds ≠ [] ∧ partitions.length = requestIds.length ∧ Fits layout partitions := by
  unfold decodeAssignment at h
  split at h
  · cases h
  next hne =>
  split at h
  · cases h
  next hlen =>
  obtain ⟨ranks, hranks, hrest⟩ := bind_eq_ok.mp h
  obtain rfl := partitionRanks_eq hranks
  split at hrest
  · cases hrest
  next hrange =>
  obtain ⟨acc, hplace, -⟩ := bind_eq_ok.mp hrest
  simp only [List.any_eq_true, decide_eq_true_eq, not_exists, not_and, not_le] at hrange
  refine ⟨hne, not_not.mp hlen, fun p hp => ?_, fun rank => ?_⟩
  · obtain ⟨rank, hrank, rfl⟩ := List.mem_map.mp hp
    exact ⟨rank, hrange rank hrank, rfl⟩
  · have hempty : ((List.replicate layout.ranks ([] : List Nat)).getD rank []).length = 0 := by
      rw [List.getD_eq_getElem?_getD, List.getElem?_replicate]
      split <;> rfl
    have hcount := placeRows_room hplace (fun row hrow => ?_) rank (by rw [hempty]; exact Nat.zero_le _)
    · rw [hempty, Nat.zero_add, List.zipIdx_map_fst] at hcount
      rwa [List.count_map_of_injective _ _ (Option.some_injective _)]
    · have hmem : row.1 ∈ ranks := by
        have := List.mem_map_of_mem (f := Prod.fst) hrow
        rwa [List.zipIdx_map_fst] at this
      rw [List.length_replicate]
      exact hrange row.1 hmem

end PyptoServing.Runner
