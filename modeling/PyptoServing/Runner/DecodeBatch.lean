import PyptoServing.Sched.Capacity

/-!
# The rank-local decode tile

Every rank decodes a fixed number of rows. The command line bounds the running requests by
the rows of all ranks together, and `_decode_assignment` refuses a step with too many rows
for one rank.
-/
namespace PyptoServing.Runner

open Lib Lib.Fallible Memory Sched

/-- The dimensions of `DeepSeekV4CacheLayout` that bound a decode step. -/
structure DeepSeekV4CacheLayout where
  ranks : Nat := 8
  decodeBatch : Nat := 4
  decodeSeq : Nat := 2
  decodeTokens : Nat := 8
  prefillCsaStateMaxBlocks : Nat := 4096
  c4StateBlockSize : Nat := 4
  deriving DecidableEq, Repr

/-- `deepseek_v4_decode_layout`. -/
def deepseekV4DecodeLayout (numSpeculativeTokens : Nat) : DeepSeekV4CacheLayout :=
  let decodeTokens := if numSpeculativeTokens = 0 then 8 else 16
  let decodeSeq :=
    if numSpeculativeTokens = 0 then 1
    else if numSpeculativeTokens = 1 then 2
    else if numSpeculativeTokens ≤ 3 then 4
    else 8
  { decodeBatch := decodeTokens / decodeSeq, decodeSeq, decodeTokens }

/-- The arguments that the topology check reads. -/
structure ServeArgs where
  modelFamily : String := "deepseek_v4"
  quantMethod : Option String := some "compressed-tensors"
  placementMode : String := "overlapped"
  dataParallelSize : Nat := 8
  expertParallelSize : Nat := 8
  tensorParallelSize : Nat := 1
  devices : List Nat := List.range 8
  blockSize : Nat := 128
  numSpeculativeTokens : Nat := 0
  maxNumSeqs : Nat
  maxModelLen : Nat

/-- `_validate_model_topology`. -/
def validateModelTopology (args : ServeArgs) : Except String Unit :=
  if args.modelFamily ≠ "deepseek_v4" then .ok ()
  else if args.quantMethod ≠ some "compressed-tensors" then
    .error ("DeepSeekV4 serving requires the quantized W8A8 compressed-tensors checkpoint " ++
      "such as /data/models/dsv4-flash-w8a8; the original checkpoint is too large for 8 NPUs.")
  else if args.placementMode ≠ "overlapped" ∨ args.dataParallelSize ≠ 8 ∨
      args.expertParallelSize ≠ 8 ∨ args.tensorParallelSize ≠ 1 then
    .error "DeepSeekV4 serving requires --dp 8 --ep 8 with --tp 1 (the default)"
  else if args.devices.length ≠ 8 then
    .error "DeepSeekV4 serving requires exactly 8 NPU device ids"
  else if args.blockSize ≠ 128 then .error "DeepSeekV4 kernels require --block-size 128"
  else
    let layout := deepseekV4DecodeLayout args.numSpeculativeTokens
    let maxGlobalBatch := layout.ranks * layout.decodeBatch
    let maxModelLen := layout.prefillCsaStateMaxBlocks * layout.c4StateBlockSize
    if maxGlobalBatch < args.maxNumSeqs then
      .error ("DeepSeekV4 decode kernels support at most " ++
        s!"--max-num-seqs {maxGlobalBatch} ({layout.decodeBatch} per rank)")
    else if maxModelLen < args.maxModelLen then
      .error ("DeepSeekV4 pypto-lib decode CSA state tables currently support at most " ++
        s!"--max-model-len {maxModelLen}. Increase the decode CSA state table depth " ++
        "in pypto-lib before serving longer contexts.")
    else .ok ()

/-- The errors of `_decode_assignment`. -/
inductive AssignmentError
  | empty
  | partitionCount
  | noPartition
  | outOfRange (top : Nat)
  | capacity (rank decodeBatch : Nat)
  deriving DecidableEq, Repr

def AssignmentError.message : AssignmentError → String
  | empty => "DeepSeekV4 decode batch must not be empty"
  | partitionCount => "DeepSeekV4 decode requires one cache partition per request"
  | noPartition =>
    "int() argument must be a string, a bytes-like object or a real number, not 'NoneType'"
  | outOfRange top => s!"DeepSeekV4 decode cache partitions must be in [0, {top}]"
  | capacity rank decodeBatch =>
    s!"DeepSeekV4 rank {rank} decode batch exceeds local capacity {decodeBatch}"

/-- The rows of the ranks: `indicesByRank` lists the requests of each rank in row order. -/
structure DecodeAssignment where
  ranks : List Nat
  localRows : List Nat
  perRankCounts : List Nat
  indicesByRank : List (List Nat)
  deriving DecidableEq, Repr

/-- One request's row: the next free one of its rank. -/
def placeRow (layout : DeepSeekV4CacheLayout) (acc : List (List Nat) × List Nat)
    (row : Nat × Nat) : Except AssignmentError (List (List Nat) × List Nat) :=
  let (rank, requestIndex) := row
  let localRow := (acc.1.getD rank []).length
  if layout.decodeBatch ≤ localRow then .error (.capacity rank layout.decodeBatch)
  else .ok (acc.1.modify rank (· ++ [requestIndex]), acc.2 ++ [localRow])

/-- The ranks as integers. -/
def partitionRanks (cachePartitions : List (Option Nat)) : Except AssignmentError (List Nat) :=
  cachePartitions.mapM fun
    | some rank => .ok rank
    | none => .error .noPartition

/-- `_decode_assignment`. -/
def decodeAssignment (layout : DeepSeekV4CacheLayout) (requestIds : List RequestId)
    (cachePartitions : List (Option Nat)) : Except AssignmentError DecodeAssignment :=
  if requestIds = [] then .error .empty
  else if cachePartitions.length ≠ requestIds.length then .error .partitionCount
  else do
    let ranks ← partitionRanks cachePartitions
    if ranks.any fun rank => decide (layout.ranks ≤ rank) then
      .error (.outOfRange (layout.ranks - 1))
    else
      let (indicesByRank, localRows) ←
        ranks.zipIdx.foldlM (placeRow layout) (List.replicate layout.ranks [], [])
      return { ranks, localRows, perRankCounts := indicesByRank.map List.length, indicesByRank }

/-- The decode batch of a step: the rows of its decode records. -/
def decodeStep (layout : DeepSeekV4CacheLayout) (output : SchedulerOutput) :
    Except AssignmentError DecodeAssignment :=
  let rows := output.scheduledRequests.filter fun sr => !sr.isPrefill
  decodeAssignment layout (rows.map (·.requestId)) (rows.map (·.cachePartition))

section
variable {layout : DeepSeekV4CacheLayout}

/-- The rows of a rank that are taken when a row of it is refused. -/
theorem placeRows_capacity {rank batch : Nat} (rows : List (Nat × Nat))
    (acc : List (List Nat) × List Nat) (hbound : ∀ row ∈ rows, row.1 < acc.1.length)
    (h : rows.foldlM (placeRow layout) acc = .error (.capacity rank batch)) :
    layout.decodeBatch < (acc.1.getD rank []).length + rows.countP fun row => decide (row.1 = rank) := by
  induction rows generalizing acc with
  | nil => cases h
  | cons row rows ih =>
    rw [List.foldlM_cons] at h
    rw [List.countP_cons]
    unfold placeRow at h
    dsimp only at h
    split at h
    · next hfull =>
      have hrank : row.1 = rank := by cases h; rfl
      rw [hrank] at hfull
      simp only [hrank, decide_true, if_true]
      omega
    · have hrest := ih _ (fun x hx => by
        rw [List.length_modify]
        exact hbound x (List.mem_cons_of_mem _ hx)) h
      have hlen : ((acc.1.modify row.1 (· ++ [row.2])).getD rank []).length =
          (acc.1.getD rank []).length + if decide (row.1 = rank) = true then 1 else 0 := by
        have hrow := hbound row (by simp)
        rw [List.getD_eq_getElem?_getD, List.getD_eq_getElem?_getD, List.getElem?_modify]
        by_cases hr : row.1 = rank
        · subst hr
          rw [List.getElem?_eq_getElem hrow]
          simp
        · simp [hr]
      dsimp only at hrest
      rw [hlen] at hrest
      omega

theorem partitionRanks_eq {partitions : List (Option Nat)} {ranks : List Nat}
    (h : partitionRanks partitions = .ok ranks) : partitions = ranks.map some := by
  induction partitions generalizing ranks with
  | nil =>
    cases h
    rfl
  | cons p partitions ih =>
    have hrel := mapM_eq_ok.mp h
    cases hrel with
    | @cons _ rank _ ranks hp hrest =>
      rw [List.map_cons, ← ih (mapM_eq_ok.mpr hrest)]
      cases p with
      | none => cases hp
      | some k =>
        cases hp
        rfl

/-- A refused step has more rows in the named partition than a rank decodes. -/
theorem decodeAssignment_capacity {requestIds : List RequestId} {partitions : List (Option Nat)}
    {rank batch : Nat}
    (h : decodeAssignment layout requestIds partitions = .error (.capacity rank batch)) :
    layout.decodeBatch < partitions.countP fun p => decide (p = some rank) := by
  unfold decodeAssignment at h
  split at h
  · cases h
  · split at h
    · cases h
    · rcases bind_eq_error.mp h with h | ⟨ranks, hranks, h⟩
      · obtain ⟨p, -, hp⟩ := mapM_eq_error h
        cases p <;> cases hp
      · split at h
        · cases h
        · next hrange =>
          rcases bind_eq_error.mp h with h | ⟨res, -, h⟩
          · have hcount := placeRows_capacity _ _ (fun row hrow => ?_) h
            · have hrows : (ranks.zipIdx.countP fun row => decide (row.1 = rank)) =
                  ranks.countP fun k => decide (k = rank) := by
                have := List.countP_map (p := fun k => decide (k = rank)) (f := Prod.fst)
                  (l := ranks.zipIdx)
                rw [List.zipIdx_map_fst] at this
                exact this.symm
              have hempty : ((List.replicate layout.ranks ([] : List Nat)).getD rank []).length = 0 := by
                rw [List.getD_eq_getElem?_getD, List.getElem?_replicate]
                split <;> rfl
              rw [hrows, hempty, Nat.zero_add] at hcount
              rw [partitionRanks_eq hranks, List.countP_map]
              refine lt_of_lt_of_eq hcount (List.countP_congr fun k _ => ?_)
              simp
            · have hmem : row.1 ∈ ranks := by
                have := List.mem_map_of_mem (f := Prod.fst) hrow
                rwa [List.zipIdx_map_fst] at this
              rw [List.length_replicate]
              simp only [List.any_eq_true, decide_eq_true_eq, not_exists, not_and, not_le] at hrange
              exact hrange row.1 hmem
          · cases h

end

/-- No partition runs more requests than its rank decodes, and no step in flight has too many
decode rows for a rank. -/
structure FitsDecode (layout : DeepSeekV4CacheLayout) (p : Pipeline) : Prop where
  running : ∀ partition, p.sched.slotsUsed partition ≤ layout.decodeBatch
  decode : ∀ output ∈ p.inFlight, ∀ rank batch,
    decodeStep layout output ≠ .error (.capacity rank batch)

/-- Runs whose admissions find free slots never overfill a rank. -/
theorem decode_fits_ranks (layout : DeepSeekV4CacheLayout) {p : Pipeline}
    (h : (pipelineMachine.restrict (Pipeline.AdmissionsFit layout.decodeBatch)).Reachable p) :
    FitsDecode layout p := by
  have hslots := Pipeline.inSlots_of_reachable h
  refine ⟨hslots.housed.room, fun output hout rank batch herr => ?_⟩
  have hover := decodeAssignment_capacity herr
  have hrows := hslots.rows output hout rank
  rw [List.countP_map] at hover
  have hle : ((output.scheduledRequests.filter fun sr => !sr.isPrefill).countP
      ((fun p => decide (p = some rank)) ∘ (·.cachePartition))) ≤
      Pipeline.rowsIn output rank := List.filter_sublist.countP_le
  exact absurd hover (not_lt.mpr (hle.trans hrows))

/-- One EAGLE group over the eight ranks. -/
def eagleGroup : Config.KVCacheGroupSpec where
  name := "ori"
  layerIndices := [0]
  spec := .uncompressed 2 64 Nat.two_pos (by decide)
  maxBlocksPerSeq := 8
  numBlocks := none
  numPartitions := 8
  slidingWindow := none
  isEagleGroup := true
  name_ne := by decide
  maxBlocksPerSeq_pos := by decide
  numBlocks_pos := Config.KVCacheGroupSpec.unset_pos
  numPartitions_pos := by decide
  window_pos := Config.KVCacheGroupSpec.unset_pos
  window_dvd := by decide
  window_fits := by decide

/-- Two rows a rank, sixteen running requests. -/
def mtpArgs : ServeArgs where
  numSpeculativeTokens := 4
  maxNumSeqs := 16
  maxModelLen := 1024

def mtpConfig : SchedulerConfig :=
  { SchedulerConfig.defaults with
    maxNumRunningReqs := 16
    maxNumScheduledTokens := 64
    numSpeculativeTokens := 4
    requiresHomogeneousPrefillDecode := true
    decode_fits := by decide }

/-- A request leaves its prompt in the prefix cache; the requests of the same prompt follow
it to its partition. -/
def samePromptOps (followers : List RequestId) : List PipelineOp :=
  [.add (plainRequest "a" [1, 2, 3, 4] 1 0), .dispatch, .complete (Dict.ofList [("a", [9])])] ++
    followers.map (fun r => .add (plainRequest r [1, 2, 3, 4] 2 0)) ++
    [.dispatch, .complete (Dict.ofList (followers.map fun r => (r, [9]))), .dispatch]

theorem samePromptOps_fresh {followers : List RequestId} {q : Request}
    (h : PipelineOp.add q ∈ samePromptOps followers) : q.Fresh := by
  simp only [samePromptOps, List.mem_append, List.mem_cons, List.mem_map, PipelineOp.add.injEq,
    List.not_mem_nil, reduceCtorEq, or_false] at h
  rcases h with rfl | ⟨r, -, rfl⟩
  · exact plainRequest_fresh (by decide)
  · exact plainRequest_fresh (by decide)

instance (slots : Nat) (p p' : Pipeline) : ∀ op, Decidable (p.AdmissionsFit slots op p')
  | .dispatch => inferInstanceAs (Decidable (p.sched.admissionsFit slots = true))
  | .add _ | .complete _ | .finish _ | .abort _ | .discard => .isTrue trivial

theorem decode_fits_ranks_two : ∃ p,
    (pipelineMachine.restrict (Pipeline.AdmissionsFit 2)).Reachable p ∧
      p.sched.slotsUsed 0 = 2 ∧ FitsDecode (deepseekV4DecodeLayout 4) p := by
  have hrun : ((Pipeline.bootAllowed (fun p op => decide (p.AdmissionsFit 2 op p))
      KvCacheManager.encodingHash [eagleGroup] 16 128 16 mtpConfig
      (samePromptOps ["b", "c"])).map fun p => decide (p.sched.slotsUsed 0 = 2)) = some true := by
    decide +kernel
  obtain ⟨p, hboot, h⟩ := Option.map_eq_some_iff.mp hrun
  have hp : (pipelineMachine.restrict (Pipeline.AdmissionsFit 2)).Reachable p := by
    refine Pipeline.bootAllowed_reachable ?_ (by decide) (fun q => samePromptOps_fresh) hboot
    intro p op p' hop
    cases op <;> exact of_decide_eq_true hop
  exact ⟨p, hp, of_decide_eq_true h, decode_fits_ranks (deepseekV4DecodeLayout 4) hp⟩

/-- Three requests with one prompt land in one partition, whose rank decodes two rows. -/
theorem decode_batch_overflows : ¬ ∀ (args : ServeArgs) (p : Pipeline),
    validateModelTopology args = .ok () → pipelineMachine.Reachable p →
    p.sched.config.maxNumRunningReqs = args.maxNumSeqs →
    p.sched.config.numSpeculativeTokens = args.numSpeculativeTokens →
    p.sched.kvCacheManager.groupPartitionCount =
      (deepseekV4DecodeLayout args.numSpeculativeTokens).ranks →
    FitsDecode (deepseekV4DecodeLayout args.numSpeculativeTokens) p := by
  intro hall
  have hrun : ((Pipeline.bootAll KvCacheManager.encodingHash [eagleGroup] 16 128 16 mtpConfig
      (samePromptOps ["b", "c", "d"])).map fun p =>
        decide (p.sched.config.maxNumRunningReqs = 16 ∧ p.sched.config.numSpeculativeTokens = 4 ∧
          p.sched.kvCacheManager.groupPartitionCount = 8 ∧
          p.inFlight.map (decodeStep (deepseekV4DecodeLayout 4)) =
            [.error (.capacity 0 2)])) = some true := by
    decide +kernel
  obtain ⟨p, hboot, h⟩ := Option.map_eq_some_iff.mp hrun
  obtain ⟨hreqs, hspec, hparts, herr⟩ := of_decide_eq_true h
  have hp : pipelineMachine.Reachable p :=
    Pipeline.bootAll_reachable (by decide) (fun q => samePromptOps_fresh) hboot
  obtain ⟨output, hout, hcap⟩ := List.mem_map.mp
    (herr ▸ List.mem_singleton_self (Except.error (AssignmentError.capacity 0 2)) :
      Except.error (AssignmentError.capacity 0 2) ∈
        p.inFlight.map (decodeStep (deepseekV4DecodeLayout 4)))
  exact (hall mtpArgs p rfl hp hreqs hspec hparts).decode output hout 0 2 hcap

end PyptoServing.Runner
