import PyptoServing.Server.HostSampling

/-!
# Prefill chunks

One pass over the pending requests fills a chunk with at most one request of each cache
partition. What a pass defers could not be added then and cannot be added later in the same
pass, so a deferred request never falls behind a later one of its partition.
-/
namespace PyptoServing.Server.HostWorker

variable {maxBatch : Nat} {c : Chunking} {seen : List PrefillRequest} {item : PrefillRequest}

/-- `can_add`. -/
def Chunking.CanAdd (maxBatch : Nat) (c : Chunking) (item : PrefillRequest) : Prop :=
  c.chunk.length < maxBatch ∧ item.cachePartition.all (· ∉ c.usedPartitions)

/-- The requests of one cache partition, or those without one. -/
def inPartition (partition : Option Nat) (requests : List PrefillRequest) : List PrefillRequest :=
  requests.filter fun pr => pr.cachePartition = partition

/-- The cache partitions that a chunk occupies. -/
def partitionsOf (chunk : List PrefillRequest) : List Nat := chunk.filterMap (·.cachePartition)

/-- A pass over the pending requests that has seen some of them. -/
structure Chunking.Packed (maxBatch : Nat) (seen : List PrefillRequest) (c : Chunking) : Prop where
  used : c.usedPartitions = partitionsOf c.chunk
  small : c.chunk.length ≤ maxBatch
  unique : (partitionsOf c.chunk).Nodup
  order : ∀ partition, inPartition partition (c.chunk ++ c.deferred) = inPartition partition seen
  rejected : ∀ pr ∈ c.deferred, ¬ c.CanAdd maxBatch pr

theorem inPartition_append (partition : Option Nat) (a b : List PrefillRequest) :
    inPartition partition (a ++ b) = inPartition partition a ++ inPartition partition b :=
  List.filter_append ..

/-- Requests of one partition are added or rejected together. -/
theorem Chunking.canAdd_congr {other : PrefillRequest}
    (h : other.cachePartition = item.cachePartition) :
    c.CanAdd maxBatch other ↔ c.CanAdd maxBatch item := by
  unfold CanAdd
  rw [h]

/-- A chunk that grows takes no request that it has rejected. -/
theorem Chunking.CanAdd.of_grown {c' : Chunking} (h : c'.CanAdd maxBatch item)
    (hlen : c.chunk.length ≤ c'.chunk.length) (hused : c.usedPartitions ⊆ c'.usedPartitions) :
    c.CanAdd maxBatch item := by
  obtain ⟨hroom, hfree⟩ := h
  refine ⟨hlen.trans_lt hroom, ?_⟩
  rw [Option.all_eq_true] at hfree ⊢
  intro partition hp
  have hnot := of_decide_eq_true (hfree partition hp)
  exact decide_eq_true fun hmem => hnot (hused hmem)

theorem Chunking.Packed.start : Packed maxBatch [] {} :=
  ⟨rfl, Nat.zero_le _, List.nodup_nil, fun _ => rfl, by simp⟩

theorem Chunking.Packed.defer (h : c.Packed maxBatch seen) (hfull : ¬ c.CanAdd maxBatch item) :
    Packed maxBatch (seen ++ [item]) { c with deferred := c.deferred ++ [item] } := by
  refine ⟨h.used, h.small, h.unique, fun partition => ?_, fun pr hpr => ?_⟩
  · have horder := h.order partition
    rw [← List.append_assoc, inPartition_append, horder, inPartition_append]
  · rcases List.mem_append.mp hpr with hpr | hpr
    · exact h.rejected pr hpr
    · rw [List.mem_singleton.mp hpr]
      exact hfull

theorem Chunking.Packed.take (h : c.Packed maxBatch seen) (hroom : c.CanAdd maxBatch item) :
    Packed maxBatch (seen ++ [item])
      { c with
        chunk := c.chunk ++ [item]
        usedPartitions := c.usedPartitions ++ item.cachePartition.toList } := by
  obtain ⟨hlt, hfree⟩ := hroom
  have hparts : partitionsOf (c.chunk ++ [item]) =
      partitionsOf c.chunk ++ item.cachePartition.toList := by
    unfold partitionsOf
    rw [List.filterMap_append]
    cases hp : item.cachePartition <;> simp [hp]
  refine ⟨?_, ?_, ?_, fun partition => ?_, fun pr hpr hadd => ?_⟩
  · show c.usedPartitions ++ item.cachePartition.toList = partitionsOf (c.chunk ++ [item])
    rw [h.used, hparts]
  · show (c.chunk ++ [item]).length ≤ maxBatch
    rw [List.length_append, List.length_singleton]
    exact hlt
  · show (partitionsOf (c.chunk ++ [item])).Nodup
    rw [hparts]
    cases hp : item.cachePartition with
    | none => simpa using h.unique
    | some partition =>
      rw [hp, h.used] at hfree
      have hnot : partition ∉ partitionsOf c.chunk := of_decide_eq_true hfree
      exact List.nodup_append.mpr ⟨h.unique, List.nodup_singleton _, fun a ha b hb hab => by
        rw [List.mem_singleton.mp hb] at hab
        exact hnot (hab ▸ ha)⟩
  · have horder := h.order partition
    rw [inPartition_append] at horder
    show inPartition partition (c.chunk ++ [item] ++ c.deferred) = _
    rw [inPartition_append, inPartition_append, inPartition_append, ← horder]
    by_cases hp : item.cachePartition = partition
    · -- nothing of this partition was deferred: it would have been added like the item
      have hnone : inPartition partition c.deferred = [] := by
        refine List.filter_eq_nil_iff.mpr fun pr hpr hmem => h.rejected pr hpr ?_
        have hsame : pr.cachePartition = item.cachePartition := by
          rw [of_decide_eq_true hmem, hp]
        exact (canAdd_congr hsame).mpr ⟨hlt, hfree⟩
      rw [hnone, List.append_nil, List.append_nil]
    · have hnone : inPartition partition [item] = [] := by
        refine List.filter_eq_nil_iff.mpr fun pr hpr hmem => hp ?_
        rw [← List.mem_singleton.mp hpr]
        exact of_decide_eq_true hmem
      rw [hnone, List.append_nil, List.append_nil]
  · refine h.rejected pr hpr (hadd.of_grown ?_ ?_)
    · show c.chunk.length ≤ (c.chunk ++ [item]).length
      rw [List.length_append]
      exact Nat.le_add_right _ _
    · exact List.subset_append_left _ _

theorem Chunking.Packed.add (h : c.Packed maxBatch seen) (item : PrefillRequest) :
    (c.add maxBatch item).Packed maxBatch (seen ++ [item]) := by
  unfold Chunking.add
  split
  · next hroom => exact h.take hroom
  · next hfull => exact h.defer hfull

/-- What one pass over the pending requests leaves. -/
theorem takeChunk_packed (maxBatch : Nat) (pending : List PrefillRequest) :
    (takeChunk maxBatch pending).Packed maxBatch pending := by
  have hfold : ∀ (rest seen : List PrefillRequest) (c : Chunking), c.Packed maxBatch seen →
      (rest.foldl (Chunking.add maxBatch) c).Packed maxBatch (seen ++ rest) := by
    intro rest
    induction rest with
    | nil =>
      intro seen c hc
      rwa [List.append_nil]
    | cons item rest ih =>
      intro seen c hc
      have hrest := ih (seen ++ [item]) (c.add maxBatch item) (hc.add item)
      rwa [List.append_assoc] at hrest
  exact hfold pending [] {} Chunking.Packed.start

/-- A chunk that can be dispatched. -/
structure IsDispatch (maxBatch : Nat) (chunk : List PrefillRequest) : Prop where
  ne_nil : chunk ≠ []
  small : chunk.length ≤ maxBatch
  unique : (partitionsOf chunk).Nodup

/-- The chunks that the loop returns, whatever it was given. -/
theorem partitionedPrefillChunks_spec {n : Nat} {pending : List PrefillRequest}
    {chunks : List (List PrefillRequest)}
    (h : partitionedPrefillChunks maxBatch n pending = .ok chunks) :
    (∀ chunk ∈ chunks, IsDispatch maxBatch chunk) ∧
      ∀ partition, inPartition partition chunks.flatten = inPartition partition pending := by
  induction n generalizing pending chunks with
  | zero =>
    cases pending with
    | nil =>
      cases h
      exact ⟨by simp, fun _ => rfl⟩
    | cons item rest => cases h
  | succ n ih =>
    cases pending with
    | nil =>
      cases h
      exact ⟨by simp, fun _ => rfl⟩
    | cons item rest =>
      have hpacked := takeChunk_packed maxBatch (item :: rest)
      simp only [partitionedPrefillChunks] at h
      generalize takeChunk maxBatch (item :: rest) = c at h hpacked
      split at h
      · cases h
      · next hne =>
        obtain ⟨later, hlater, h⟩ := Lib.Fallible.bind_eq_ok.mp h
        cases h
        obtain ⟨hall, horder⟩ := ih hlater
        refine ⟨List.forall_mem_cons.mpr ⟨⟨hne, hpacked.small, hpacked.unique⟩, hall⟩,
          fun partition => ?_⟩
        rw [List.flatten_cons, inPartition_append, horder, ← inPartition_append]
        exact hpacked.order partition

/-- A prefill is cut without an error into chunks that can be dispatched; no request is lost or
repeated, and the requests of a partition keep their order. -/
theorem partitioned_prefill_chunks (maxBatch : Nat) (hpos : 1 ≤ maxBatch)
    (scheduled : List PrefillRequest) :
    ∃ chunks, partitionedPrefillChunks maxBatch scheduled.length scheduled = .ok chunks ∧
      chunks.flatten.Perm scheduled ∧
      (∀ chunk ∈ chunks, IsDispatch maxBatch chunk) ∧
      ∀ partition, inPartition partition chunks.flatten = inPartition partition scheduled := by
  obtain ⟨chunks, hok, hperm⟩ := partitionedPrefillChunks_ok hpos scheduled.length scheduled le_rfl
  obtain ⟨hall, horder⟩ := partitionedPrefillChunks_spec hok
  exact ⟨chunks, hok, hperm, hall, horder⟩

/-- Three requests, two of them of one partition. -/
def threePrefills : List PrefillRequest :=
  [("a", 0), ("b", 0), ("c", 1)].map fun (r, partition) =>
    { requestId := r
      chunkTokens := [1]
      numComputedTokens := 0
      blockIds := []
      cachePartition := some partition }

theorem partitioned_prefill_chunks_three :
    ∃ chunks, partitionedPrefillChunks 2 threePrefills.length threePrefills = .ok chunks ∧
      chunks.flatten.Perm threePrefills ∧
      (∀ chunk ∈ chunks, IsDispatch 2 chunk) ∧
      ∀ partition, inPartition partition chunks.flatten = inPartition partition threePrefills :=
  partitioned_prefill_chunks 2 (by decide) threePrefills

end PyptoServing.Server.HostWorker
