import PyptoServing.Memory.GroupPool

/-!
# The KV cache manager

`KvCacheManager`: the generic block pool with its prefix index, and the ordered
cache-group pools with their atomic growth, prefix acquisition, publication and
snapshot pins. A function that can raise after it has published pages returns the
manager in every case; the others return `Except` and change nothing on an error.
-/
namespace PyptoServing.Memory

open Config Lib

/-- Block ids by cache group name. -/
abbrev GroupTables := Dict String (List Nat)

/-- Block hashes by cache group name. -/
abbrev GroupHashes := Dict String (List Int)

structure KvCacheManager where
  pyHash : PyHash
  blockSize : Nat
  enablePrefixCache : Bool
  blocks : BlockHeap := fun _ => {}
  numBlocks : Nat := 0
  freeQueue : FreeKVCacheBlockQueue := {}
  hashToBlock : Int → Option BlockId := fun _ => none
  groupPools : List GroupBlockPool := []
  groupRequestPartitions : Dict RequestId Nat := ∅
  nextGroupPartition : Nat := 0

namespace KvCacheManager

/-- `_init_blocks`: an initialised pool accepts only its own dimensions. -/
def initBlocks (m : KvCacheManager) (numBlocks blockSize : Nat) :
    Except KvError KvCacheManager :=
  if m.numBlocks ≠ 0 then
    if m.numBlocks ≠ numBlocks ∨ m.blockSize ≠ blockSize then
      .error (.value "KV block pool is already initialized with different dimensions")
    else .ok m
  else
    let s := m.freeQueue.appendN (fun _ => {}) (List.range numBlocks)
    .ok { m with blockSize, numBlocks, freeQueue := s.1, blocks := s.2 }

/-- `requested_sizes`: the per-partition size of each group, from the device-reported
capacity of the first group when there is one. -/
def requestedSizes (specs : List KVCacheGroupSpec) (maxBatchSize : Nat)
    (primaryNumBlocks : Option Nat) : Except KvError (List (KVCacheGroupSpec × Nat)) :=
  match primaryNumBlocks, specs.head? with
  | some primary, some first =>
    if primary = 0 ∨ primary % first.maxBlocksPerSeq ≠ 0 then
      .error (.value ("primary_num_blocks must be a positive multiple of the first " ++
        "KV cache group's max_blocks_per_seq"))
    else
      let slots := primary / first.maxBlocksPerSeq
      let conflicting := specs.filterMap fun g =>
        g.numBlocks.bind fun n =>
          if n ≠ slots * g.maxBlocksPerSeq then
            some s!"{g.name} configured={n}, device={slots * g.maxBlocksPerSeq}"
          else none
      if conflicting ≠ [] then
        .error (.value ("KV cache group num_blocks conflicts with device-reported capacity: " ++
          ", ".intercalate conflicting))
      else .ok (specs.map fun g => (g, slots * g.maxBlocksPerSeq))
  | _, _ => .ok (specs.map fun g => (g, g.numBlocks.getD (maxBatchSize * g.maxBlocksPerSeq)))

/-- The requested sizes, each of which must hold one maximum-length sequence. -/
def groupSizes (specs : List KVCacheGroupSpec) (maxBatchSize : Nat)
    (primaryNumBlocks : Option Nat) : Except KvError (List (KVCacheGroupSpec × Nat)) := do
  let sized ← requestedSizes specs maxBatchSize primaryNumBlocks
  let undersized := (sized.filter fun e => decide (e.2 < e.1.maxBlocksPerSeq)).map (·.1.name)
  if undersized ≠ [] then
    .error (.value ("KV cache groups cannot hold one maximum-length sequence: " ++
      ", ".intercalate undersized))
  else .ok sized

/-- `init_groups`: independent physical pools for model-specific caches. -/
def initGroups (m : KvCacheManager) (specs : List KVCacheGroupSpec) (maxBatchSize : Nat)
    (primaryNumBlocks : Option Nat := none) : Except KvError KvCacheManager := do
  if maxBatchSize = 0 then .error (.value "max_batch_size must be positive")
  else if specs = [] then .ok m
  else if ¬ (specs.map (·.name)).Nodup then
    .error (.value "KV cache group names must be unique")
  else if (specs.map (·.numPartitions)).dedup.length ≠ 1 then
    .error (.value "KV cache groups must use the same num_partitions")
  else
    let sized ← groupSizes specs maxBatchSize primaryNumBlocks
    if m.groupPools ≠ [] then
      if m.groupPools.map (fun p => (p.spec, p.blocksPerPartition)) ≠ sized then
        .error (.value "KV cache groups are already initialized with different specifications")
      else .ok m
    else .ok { m with groupPools := sized.map fun e => GroupBlockPool.new e.1 e.2 }

def numFreeBlocks (m : KvCacheManager) : Nat := m.freeQueue.count

/-- `release`: give back one reference; the last one frees the block. -/
def release (m : KvCacheManager) (b : BlockId) : KvCacheManager :=
  if (m.blocks b).refCnt = 0 then m
  else
    let heap := m.blocks.modify b fun block => { block with refCnt := block.refCnt - 1 }
    if (heap b).refCnt = 0 then
      let s := m.freeQueue.append heap b
      { m with blocks := s.2, freeQueue := s.1 }
    else { m with blocks := heap }

/-- The body of the allocation loop after `popleft` returned `b`. -/
def takeBlock (m : KvCacheManager) (b : BlockId) : KvCacheManager :=
  let s := m.freeQueue.remove m.blocks b
  let m := { m with freeQueue := s.1, blocks := s.2 }
  let m := match (m.blocks b).blockHash with
    | none => m
    | some h => { m with hashToBlock := Function.update m.hashToBlock h none }
  { m with blocks := m.blocks.modify b fun block => { block with blockHash := none, refCnt := 1 } }

/-- The allocation loop; on an unexpectedly empty queue it gives everything back. -/
def allocateLoop (m : KvCacheManager) (taken : List BlockId) :
    Nat → Option (List BlockId) × KvCacheManager
  | 0 => (some taken, m)
  | n + 1 =>
    match m.freeQueue.head with
    | none => (none, taken.foldl release m)
    | some b => allocateLoop (m.takeBlock b) (taken ++ [b]) n

/-- `allocate_block_ids`: take blocks, evicting stale prefix hashes as needed. -/
def allocateBlockIds (m : KvCacheManager) (numBlocks : Nat) :
    Option (List BlockId) × KvCacheManager :=
  if numBlocks = 0 then (some [], m)
  else if m.numFreeBlocks < numBlocks then (none, m)
  else m.allocateLoop [] numBlocks

def releaseBlocksByIds (m : KvCacheManager) (blockIds : List BlockId) : KvCacheManager :=
  blockIds.foldl release m

/-- `get_cached_block`: reference a cached block for one hash. -/
def getCachedBlock (m : KvCacheManager) (blockHash : Int) : Option BlockId × KvCacheManager :=
  if ¬ m.enablePrefixCache then (none, m)
  else
    match m.hashToBlock blockHash with
    | none => (none, m)
    | some b =>
      let m :=
        if (m.blocks b).refCnt = 0 then
          let s := m.freeQueue.remove m.blocks b
          { m with freeQueue := s.1, blocks := s.2 }
        else m
      (some b,
        { m with blocks := m.blocks.modify b fun block => { block with refCnt := block.refCnt + 1 } })

/-- `cache_block`: publish a full block to the prefix cache. -/
def cacheBlock (m : KvCacheManager) (b : BlockId) (blockHash : Int) : KvCacheManager :=
  if ¬ m.enablePrefixCache then m
  else
    let index := match (m.blocks b).blockHash with
      | some h => Function.update m.hashToBlock h none
      | none => m.hashToBlock
    { m with
      blocks := m.blocks.modify b fun block => { block with blockHash := some blockHash }
      hashToBlock := Function.update index blockHash (some b) }

/-- `cache_block_ids`: publish a range of full blocks, up to the shorter list. -/
def cacheBlockIds (m : KvCacheManager) (blockIds : List BlockId) (blockHashes : List Int)
    (first last : Nat) : KvCacheManager :=
  if ¬ m.enablePrefixCache then m
  else
    let pairs := (blockIds.zip blockHashes).take last
    (pairs.drop first).foldl (fun m e => m.cacheBlock e.1 e.2) m

/-- The lookup loop of `get_computed_blocks`. -/
def hitLoop (m : KvCacheManager) : Nat → List Int → List BlockId × KvCacheManager
  | 0, _ => ([], m)
  | _ + 1, [] => ([], m)
  | n + 1, h :: hashes =>
    match m.getCachedBlock h with
    | (none, m) => ([], m)
    | (some b, m) =>
      let r := hitLoop m n hashes
      (b :: r.1, r.2)

/-- `compute_block_hashes`. -/
def computeBlockHashes (m : KvCacheManager) (tokenIds : List Int) : List Int :=
  m.pyHash.iterTokenBlockHashes tokenIds m.blockSize

/-- `get_computed_blocks`: the longest cached prefix that leaves one token uncached. -/
def getComputedBlocks (m : KvCacheManager) (tokenIds : List Int) :
    List BlockId × KvCacheManager :=
  if ¬ m.enablePrefixCache then ([], m)
  else m.hitLoop ((tokenIds.length - 1) / m.blockSize) (m.computeBlockHashes tokenIds)

def hasGroups (m : KvCacheManager) : Bool := !m.groupPools.isEmpty

def groupNames (m : KvCacheManager) : List String := m.groupPools.map (·.spec.name)

def hasEagleGroups (m : KvCacheManager) : Bool := m.groupPools.any (·.spec.isEagleGroup)

/-- `set(d) == set(self._group_pools)`. -/
def namesMatch {α : Type} (m : KvCacheManager) (d : Dict String α) : Bool :=
  decide (d.keys ⊆ m.groupNames ∧ m.groupNames ⊆ d.keys)

def groupPartitionCount (m : KvCacheManager) : Nat :=
  match m.groupPools with
  | [] => 1
  | pool :: _ => pool.spec.numPartitions

def groupRequestPartition (m : KvCacheManager) (requestId : RequestId) : Option Nat :=
  m.groupRequestPartitions.lookup requestId

/-- `group_prefix_cache_alignment`: the boundary shared by every group. -/
def groupPrefixCacheAlignment (m : KvCacheManager) : Nat :=
  m.groupPools.foldl (fun alignment pool => Nat.lcm alignment pool.capacity) 1

/-- `published_group_block_counts`: full pages eligible for publication. -/
def publishedGroupBlockCounts (m : KvCacheManager) (tokenCount : Nat) : Dict String Nat :=
  Dict.ofList (m.groupPools.map fun pool =>
    (pool.spec.name, pool.safeTokens tokenCount / pool.capacity))

/-- `compute_group_block_hashes`. -/
def computeGroupBlockHashes (m : KvCacheManager) (tokenIds : List Int) : GroupHashes :=
  Dict.ofList (m.groupPools.map fun pool =>
    (pool.spec.name,
      if pool.spec.isEagleGroup then
        m.pyHash.iterEagleTokenBlockHashes tokenIds pool.capacity
      else m.pyHash.iterTokenBlockHashes tokenIds pool.capacity))

/-- One group's entry of a table or hash dictionary. -/
def groupEntry {α : Type} (d : Dict String (List α)) (pool : GroupBlockPool) : List α :=
  (d.lookup pool.spec.name).getD []

/-- The backward search for a boundary at which every group can resume, over the
multiples of the alignment. -/
def searchCandidate (m : KvCacheManager) (partition : Nat) (hashes : GroupHashes)
    (alignment : Nat) : Nat → Nat × List (List (Option BlockId))
  | 0 => (0, [])
  | k + 1 =>
    match m.groupPools.mapM fun pool =>
        pool.selectPrefix partition (groupEntry hashes pool) ((k + 1) * alignment) with
    | some tables => ((k + 1) * alignment, tables)
    | none => searchCandidate m partition hashes alignment k

/-- The longest hit of one partition. -/
def partitionHit (m : KvCacheManager) (hashes : GroupHashes) (maxCandidate partition : Nat) :
    Nat × List (List (Option BlockId)) :=
  let alignment := m.groupPrefixCacheAlignment
  let candidate := m.groupPools.foldl (fun candidate pool =>
    pool.fullHistoryHit partition (groupEntry hashes pool) candidate) maxCandidate
  m.searchCandidate partition hashes alignment (candidate / alignment)

/-- The partition with the longest hit; an earlier one wins a tie. -/
def bestHit (m : KvCacheManager) (hashes : GroupHashes) (maxCandidate : Nat) :
    Option (Nat × Nat × List (List (Option BlockId))) :=
  (List.range m.groupPartitionCount).foldl (fun best partition =>
    let hit := m.partitionHit hashes maxCandidate partition
    if (best.map (·.2.1)).getD 0 < hit.1 then some (partition, hit) else best) none

/-- `acquire_group_prefix_blocks`: attach the longest strict grouped prefix to a request. -/
def acquireGroupPrefixBlocks (m : KvCacheManager) (requestId : RequestId)
    (blockHashes : GroupHashes) (maxCacheHitTokens : Nat) :
    Except KvError ((GroupTables × Nat × Option Nat) × KvCacheManager) :=
  if ¬ m.enablePrefixCache ∨ m.groupPools = [] then .ok ((∅, 0, none), m)
  else if (m.groupRequestPartition requestId).isSome then
    .error (.value s!"Request {pyRepr requestId} already owns grouped KV cache blocks")
  else if ¬ m.namesMatch blockHashes then
    let missing := (m.groupNames.filter (· ∉ blockHashes.keys)).mergeSort (· ≤ ·)
    let extra := (blockHashes.keys.filter (· ∉ m.groupNames)).mergeSort (· ≤ ·)
    let details :=
      (if missing = [] then [] else ["missing=" ++ ",".intercalate missing]) ++
      (if extra = [] then [] else ["extra=" ++ ",".intercalate extra])
    .error (.value ("Grouped prefix hashes do not match cache groups (" ++
      "; ".intercalate details ++ ")"))
  else
    let alignment := m.groupPrefixCacheAlignment
    let maxCandidate := maxCacheHitTokens - maxCacheHitTokens % alignment
    if maxCandidate = 0 then .ok ((∅, 0, none), m)
    else
      match m.bestHit blockHashes maxCandidate with
      | none => .ok ((∅, 0, none), m)
      | some (partition, hitTokens, tables) =>
        let owned := m.groupPools.zip tables
        let m' := { m with
          groupRequestPartitions := m.groupRequestPartitions.insert requestId partition
          groupPools := owned.map fun e => e.1.attachPrefix requestId partition e.2 hitTokens }
        .ok ((Dict.ofList (owned.map fun e =>
            (e.1.spec.name, e.2.reduceOption.map e.1.localBlockId)), hitTokens, some partition), m')

/-- Run one publication step on each pool in order; an error stops at its pool. -/
def publishGroups (step : GroupBlockPool → GroupBlockPool × Option KvError) :
    List GroupBlockPool → List GroupBlockPool × Option KvError
  | [] => ([], none)
  | pool :: pools =>
    match step pool with
    | (pool, some e) => (pool :: pools, some e)
    | (pool, none) =>
      let r := publishGroups step pools
      (pool :: r.1, r.2)

/-- `cached_counts` after every group: the completed page counts. -/
def cachedCounts (m : KvCacheManager) (blockHashes : GroupHashes) (numComputed : Nat)
    (alreadyCached : Dict String Nat) : Dict String Nat :=
  m.groupPools.foldl (fun counts pool =>
    counts.insert pool.spec.name
      (pool.completedPages (groupEntry blockHashes pool) numComputed)) alreadyCached

/-- `cache_group_blocks`: publish newly completed grouped pages of the live table. -/
def cacheGroupBlocks (m : KvCacheManager) (requestId : RequestId) (blockHashes : GroupHashes)
    (numComputed : Nat) (alreadyCached : Dict String Nat) :
    Except KvError (Dict String Nat) × KvCacheManager :=
  if ¬ m.enablePrefixCache then (.ok alreadyCached, m)
  else
    match m.groupRequestPartition requestId with
    | none => (.ok alreadyCached, m)
    | some partition =>
      let r := publishGroups (fun pool => pool.cacheLive requestId partition
        (groupEntry blockHashes pool) numComputed ((alreadyCached.lookup pool.spec.name).getD 0))
        m.groupPools
      (match r.2 with
        | some e => .error e
        | none => .ok (m.cachedCounts blockHashes numComputed alreadyCached),
        { m with groupPools := r.1 })

/-- `cache_group_blocks_from_snapshot`: publish through the exact table of one step. -/
def cacheGroupBlocksFromSnapshot (m : KvCacheManager) (blockHashes : GroupHashes)
    (numComputed : Nat) (alreadyCached : Dict String Nat) (blockIdsByGroup : GroupTables)
    (partition : Nat) : Except KvError (Dict String Nat) × KvCacheManager :=
  if ¬ m.enablePrefixCache then (.ok alreadyCached, m)
  else if ¬ m.namesMatch blockHashes then
    (.error (.value "Grouped prefix hashes do not match configured cache groups"), m)
  else if ¬ m.namesMatch blockIdsByGroup then
    (.error (.value "Grouped block snapshot does not match configured cache groups"), m)
  else
    let r := publishGroups (fun pool => pool.cacheSnapshot partition
      (groupEntry blockIdsByGroup pool) (groupEntry blockHashes pool) numComputed
      ((alreadyCached.lookup pool.spec.name).getD 0)) m.groupPools
    (match r.2 with
      | some e => .error e
      | none => .ok (m.cachedCounts blockHashes numComputed alreadyCached),
      { m with groupPools := r.1 })

/-- `retain_group_block_snapshot`: pin one scheduled table until its step settles.
Every block is resolved before the first one is pinned. -/
def retainGroupBlockSnapshot (m : KvCacheManager) (blockIdsByGroup : GroupTables)
    (partition : Nat) : Except KvError KvCacheManager := do
  if blockIdsByGroup.entries = [] then .ok m
  else if ¬ m.namesMatch blockIdsByGroup then
    .error (.value "Grouped block snapshot does not match configured cache groups")
  else
    -- Each entry resolves and pins blocks of its own group's pool only.
    let resolved ← m.groupPools.mapM fun pool =>
      pool.pinnable partition (groupEntry blockIdsByGroup pool)
    .ok { m with groupPools := (m.groupPools.zip resolved).map fun e => e.1.pinBlocks e.2 }

/-- `release_group_block_snapshot`: release the pins of one snapshot. -/
def releaseGroupBlockSnapshot (m : KvCacheManager) (blockIdsByGroup : GroupTables)
    (partition : Nat) : Except KvError KvCacheManager := do
  let pools ← m.groupPools.mapM fun pool => pool.unpin partition (groupEntry blockIdsByGroup pool)
  .ok { m with groupPools := pools }

/-- `_candidate_group_partitions`: the partitions in which every group can grow. -/
def candidateGroupPartitions (m : KvCacheManager) (requestId : RequestId) (tokenCount : Nat) :
    List Nat :=
  let candidates := match m.groupRequestPartition requestId with
    | some assigned => [assigned]
    | none => List.range m.groupPartitionCount
  candidates.filter fun partition => m.groupPools.all fun pool =>
    decide (pool.additionalGroupBlocks requestId tokenCount ≤ pool.numFreeBlocksIn partition)

/-- How many requests the first pool holds in a partition. -/
def ownedCount (m : KvCacheManager) (partition : Nat) : Nat :=
  match m.groupPools with
  | [] => 0
  | pool :: _ => pool.requestPartitions.entries.countP fun e => decide (e.2 = partition)

/-- `_select_group_partition`: the least loaded candidate, round robin. The second
component is the advanced round-robin position. -/
def selectGroupPartition (m : KvCacheManager) (requestId : RequestId) (tokenCount : Nat) :
    Except KvError (Option Nat × Nat) :=
  let candidates := m.candidateGroupPartitions requestId tokenCount
  if candidates = [] then .ok (none, m.nextGroupPartition)
  else
    match m.groupRequestPartition requestId with
    | some assigned => .ok (some assigned, m.nextGroupPartition)
    | none =>
      let minimum := (candidates.map m.ownedCount).min?.getD 0
      let leastLoaded := candidates.filter fun p => decide (m.ownedCount p = minimum)
      let order := (List.range m.groupPartitionCount).map fun offset =>
        (m.nextGroupPartition + offset) % m.groupPartitionCount
      match order.find? (· ∈ leastLoaded) with
      | some partition => .ok (some partition, (partition + 1) % m.groupPartitionCount)
      | none => .error (.runtime "group partition selection became inconsistent")

/-- `can_ensure_group_blocks` with an explicit partition. -/
def canEnsureGroupBlocks (m : KvCacheManager) (requestId : RequestId) (tokenCount partition : Nat) :
    Bool :=
  match m.groupRequestPartition requestId with
  | some assigned =>
    decide (assigned = partition) && decide (partition < m.groupPartitionCount) &&
      decide (partition ∈ m.candidateGroupPartitions requestId tokenCount)
  | none =>
    decide (partition < m.groupPartitionCount) &&
      decide (partition ∈ m.candidateGroupPartitions requestId tokenCount)

/-- The groups whose full-history table cannot address `tokenCount` tokens. -/
def oversizedGroups (m : KvCacheManager) (tokenCount : Nat) : List String :=
  (m.groupPools.filter fun pool =>
    !pool.rolling && decide (pool.ringSize < pool.logicalGroupBlocks tokenCount)).map (·.spec.name)

/-- The shortage report of a refused growth. -/
def shortageMessage (m : KvCacheManager) (requestId : RequestId) (tokenCount : Nat)
    (selected : Option Nat) : String :=
  let shortages := m.groupPools.filterMap fun pool =>
    let needed := pool.additionalGroupBlocks requestId tokenCount
    let anyFree := ((List.range m.groupPartitionCount).map pool.numFreeBlocksIn).max?.getD 0
    let free := match selected with
      | some p => if p < m.groupPartitionCount then pool.numFreeBlocksIn p else anyFree
      | none => anyFree
    if free < needed then some s!"{pool.spec.name}: need {needed}, free {free}" else none
  let shortages :=
    if shortages = [] then ["no cache partition can satisfy all groups atomically"] else shortages
  "Insufficient grouped KV cache blocks (" ++ "; ".intercalate shortages ++ ")"

/-- The block ids of every group's table. -/
def groupTables (m : KvCacheManager) (requestId : RequestId) : Except KvError GroupTables := do
  let ids ← m.groupPools.mapM fun pool => do
    let ids ← pool.tableIds requestId
    return (pool.spec.name, ids)
  return Dict.ofList ids

/-- The growth of every pool once a partition with room is selected. The tables are read
after the growth, so an unreadable one leaves the grown manager. -/
def growGroups (m : KvCacheManager) (requestId : RequestId) (selected tokenCount : Nat) :
    Except KvError GroupTables × KvCacheManager :=
  match m.groupPools.mapM fun pool => pool.ensureTable requestId selected tokenCount with
  | .error e => (.error e, m)
  | .ok pools =>
    let m' := { m with
      groupPools := pools
      groupRequestPartitions := m.groupRequestPartitions.setDefault requestId selected }
    (m'.groupTables requestId, m')

/-- The partition `ensure_group_blocks` grows in, and the advanced round-robin position. -/
def growthPartition (m : KvCacheManager) (requestId : RequestId) (tokenCount : Nat)
    (partition : Option Nat) : Except KvError (Option Nat × Nat) :=
  match partition with
  | some p => .ok (some p, m.nextGroupPartition)
  | none => m.selectGroupPartition requestId tokenCount

/-- `ensure_group_blocks`: atomically grow all cache groups for a request. -/
def ensureGroupBlocks (m : KvCacheManager) (requestId : RequestId) (tokenCount : Nat)
    (partition : Option Nat) : Except KvError GroupTables × KvCacheManager :=
  if m.groupPools = [] then (.ok ∅, m)
  else if m.oversizedGroups tokenCount ≠ [] then
    (.error (.capacity ("Full-history KV cache table capacity exceeded (" ++
      ", ".intercalate (m.oversizedGroups tokenCount) ++ ")")), m)
  else
    match partition.bind fun p => (m.groupRequestPartition requestId).filter (· ≠ p) with
    | some assigned =>
      (.error (.value (s!"Request {pyRepr requestId} is assigned to cache partition " ++
        s!"{assigned}, got {partition.getD 0}")), m)
    | none =>
      match m.growthPartition requestId tokenCount partition with
      | .error e => (.error e, m)
      | .ok (none, _) => (.error (.capacity (m.shortageMessage requestId tokenCount none)), m)
      | .ok (some selected, next) =>
        if m.canEnsureGroupBlocks requestId tokenCount selected then
          growGroups { m with nextGroupPartition := next } requestId selected tokenCount
        else (.error (.capacity (m.shortageMessage requestId tokenCount (some selected))), m)

/-- `release_all_group_requests`: release every grouped block owned by a request. -/
def releaseAllGroupRequests (m : KvCacheManager) (requestId : RequestId) :
    Except KvError KvCacheManager := do
  let pools ← m.groupPools.mapM fun pool => pool.releaseRequest requestId
  return { m with
    groupPools := pools
    groupRequestPartitions := m.groupRequestPartitions.erase requestId }

/-- `KvCacheManager.initialize`: scheduler-visible pools from the runtime cache topology. -/
def initializePools (m : KvCacheManager) (groups : List KVCacheGroupSpec) (maxBatchSize pageSize : Nat)
    (numBlocks : Nat) : Except KvError KvCacheManager :=
  if numBlocks = 0 then
    .error (.runtime s!"Worker reported invalid KV cache block count: {numBlocks}")
  else if groups ≠ [] then m.initGroups groups maxBatchSize (some numBlocks)
  else m.initBlocks numBlocks pageSize

end KvCacheManager
end PyptoServing.Memory
