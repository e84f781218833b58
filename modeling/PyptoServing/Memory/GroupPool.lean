import PyptoServing.Config.Types
import PyptoServing.Lib.Dict
import PyptoServing.Memory.Blocks

/-!
# One cache family's block pool

`_GroupBlockPool` with the part of each `KvCacheManager` operation that works on a
single pool. Block ids are global in the pool; partition `p` owns the ids from
`p * blocksPerPartition` up. The loops of `ensure_group_blocks`,
`release_all_group_requests` and the publication functions are folds of the
single-slot operations below.
-/
namespace PyptoServing.Memory

open Config Lib

/-- `repr` of a string without quotes or escapes. -/
def pyRepr (s : String) : String := "'" ++ s ++ "'"

/-- `math.ceil(tokens / capacity)`. -/
def ceilDiv (tokens capacity : Nat) : Nat := (tokens + capacity - 1) / capacity

/-- Rank-partitioned physical block namespaces for one cache family. -/
structure GroupBlockPool where
  spec : KVCacheGroupSpec
  blocks : BlockHeap
  blocksPerPartition : Nat
  freeQueues : Nat → FreeKVCacheBlockQueue
  requestBlocks : Dict RequestId (List (Option BlockId)) := ∅
  requestPartitions : Dict RequestId Nat := ∅
  requestLogicalBlocks : Dict RequestId Nat := ∅
  hashToBlock : Nat × Int → Option BlockId := fun _ => none

namespace GroupBlockPool

def capacity (pool : GroupBlockPool) : Nat := pool.spec.spec.tokenCapacity

def ringSize (pool : GroupBlockPool) : Nat := pool.spec.maxBlocksPerSeq

def rolling (pool : GroupBlockPool) : Bool := pool.spec.slidingWindow.isSome

/-- A request's table; a request without one owns nothing. -/
def table (pool : GroupBlockPool) (requestId : RequestId) : List (Option BlockId) :=
  (pool.requestBlocks.lookup requestId).getD []

/-- `request_logical_blocks.get(request_id, 0)`. -/
def logicalBlocks (pool : GroupBlockPool) (requestId : RequestId) : Nat :=
  (pool.requestLogicalBlocks.lookup requestId).getD 0

def numFreeBlocksIn (pool : GroupBlockPool) (partition : Nat) : Nat :=
  (pool.freeQueues partition).count

def localBlockId (pool : GroupBlockPool) (b : BlockId) : Nat := b % pool.blocksPerPartition

def blockFromLocalId (pool : GroupBlockPool) (partition blockId : Nat) : Except KvError BlockId :=
  if ¬ partition < pool.spec.numPartitions then
    .error (.value s!"Invalid cache partition {partition}")
  else if ¬ blockId < pool.blocksPerPartition then
    .error (.value
      s!"Invalid local block ID {blockId} for cache group {pyRepr pool.spec.name}")
  else .ok (partition * pool.blocksPerPartition + blockId)

/-- Write one block object of the pool. -/
def modifyBlock (pool : GroupBlockPool) (b : BlockId) (f : KVCacheBlock → KVCacheBlock) :
    GroupBlockPool :=
  { pool with blocks := pool.blocks.modify b f }

def pushFree (pool : GroupBlockPool) (partition : Nat) (b : BlockId) : GroupBlockPool :=
  let s := (pool.freeQueues partition).append pool.blocks b
  { pool with blocks := s.2, freeQueues := Function.update pool.freeQueues partition s.1 }

def removeFree (pool : GroupBlockPool) (partition : Nat) (b : BlockId) : GroupBlockPool :=
  let s := (pool.freeQueues partition).remove pool.blocks b
  { pool with blocks := s.2, freeQueues := Function.update pool.freeQueues partition s.1 }

/-- `hash_to_block[key] = block`, or its deletion. -/
def setHash (pool : GroupBlockPool) (key : Nat × Int) (b : Option BlockId) : GroupBlockPool :=
  { pool with hashToBlock := Function.update pool.hashToBlock key b }

/-- Remove a block's own entry from its partition's hash index. -/
def dropHash (pool : GroupBlockPool) (partition : Nat) (b : BlockId) : GroupBlockPool :=
  match (pool.blocks b).blockHash with
  | none => pool
  | some h =>
    if pool.hashToBlock (partition, h) = some b then pool.setHash (partition, h) none else pool

/-- `_invalidate_group_block`: remove one block's old contents from the index. -/
def invalidateGroupBlock (pool : GroupBlockPool) (partition : Nat) (b : BlockId) :
    GroupBlockPool :=
  if (pool.blocks b).blockHash = none then pool
  else (pool.dropHash partition b).modifyBlock b fun block => { block with blockHash := none }

/-- `_cache_group_block`: publish one full page without replacing a live duplicate. -/
def cacheGroupBlock (pool : GroupBlockPool) (partition : Nat) (b : BlockId) (blockHash : Int) :
    GroupBlockPool :=
  match pool.hashToBlock (partition, blockHash) with
  | some existing =>
    if existing = b then pool
    else pool.invalidateGroupBlock partition b
  | none =>
    let pool := (pool.dropHash partition b).modifyBlock b fun block =>
      { block with blockHash := some blockHash }
    pool.setHash (partition, blockHash) (some b)

/-- `_take_group_block`: take and initialise one evictable block of a partition. -/
def takeGroupBlock (pool : GroupBlockPool) (partition : Nat) :
    Except KvError (BlockId × GroupBlockPool) :=
  match (pool.freeQueues partition).head with
  | none =>
    .error (.runtime
      s!"KV cache group {pyRepr pool.spec.name} free queue became inconsistent")
  | some b =>
    let pool := pool.removeFree partition b
    if (pool.blocks b).refCnt ≠ 0 then
      .error (.runtime s!"Free grouped KV block {b} has ref_cnt={(pool.blocks b).refCnt}")
    else
      let pool := pool.invalidateGroupBlock partition b
      .ok (b, pool.modifyBlock b fun block => { block with refCnt := 1 })

/-- Take one more reference to a block found in the index. -/
def reference (pool : GroupBlockPool) (partition : Nat) (b : BlockId) : GroupBlockPool :=
  let pool := if (pool.blocks b).refCnt = 0 then pool.removeFree partition b else pool
  pool.modifyBlock b fun block => { block with refCnt := block.refCnt + 1 }

/-- Give one reference back; the last one returns the block to the free queue. -/
def dropReference (pool : GroupBlockPool) (partition : Nat) (b : BlockId) : GroupBlockPool :=
  let pool := pool.modifyBlock b fun block => { block with refCnt := block.refCnt - 1 }
  if (pool.blocks b).refCnt = 0 then pool.pushFree partition b else pool

def logicalGroupBlocks (pool : GroupBlockPool) (tokenCount : Nat) : Nat :=
  ceilDiv tokenCount pool.capacity

/-- The number of table slots that `target` logical blocks use. -/
def tableSize (pool : GroupBlockPool) (target : Nat) : Nat :=
  if pool.rolling then min target pool.ringSize else target

/-- The ring slot of a logical block. -/
def ringSlot (pool : GroupBlockPool) (logicalBlock : Nat) : Nat :=
  if logicalBlock < pool.ringSize then logicalBlock else logicalBlock % pool.ringSize

/-- Whether a slot holds a block that somebody else references too. -/
def sharedSlot (pool : GroupBlockPool) (requestId : RequestId) (slot : Nat) : Bool :=
  match (pool.table requestId)[slot]? with
  | some (some b) => decide (1 < (pool.blocks b).refCnt)
  | _ => false

/-- `_additional_group_blocks`: new pages needed, including detach-on-write
destinations of a rolling table. -/
def additionalGroupBlocks (pool : GroupBlockPool) (requestId : RequestId) (tokenCount : Nat) :
    Nat :=
  let target := pool.logicalGroupBlocks tokenCount
  let owned := pool.table requestId
  if ¬ pool.rolling then
    if pool.ringSize < target then pool.blocksPerPartition + 1
    else target - owned.length
  else
    let size := min target pool.ringSize
    let missing := (size - owned.length) + (owned.take size).countP (·.isNone)
    let previous := pool.logicalBlocks requestId
    let slots := (List.range' previous (target - previous)).map pool.ringSlot
    missing + (slots.filter (pool.sharedSlot requestId)).dedup.length

/-- Bind one table slot to a block. -/
def setSlot (pool : GroupBlockPool) (requestId : RequestId) (slot : Nat) (b : BlockId) :
    GroupBlockPool :=
  { pool with
    requestBlocks := pool.requestBlocks.insert requestId
      ((pool.table requestId).set slot (some b)) }

/-- Register the request and pad its table to `size` slots. -/
def openTable (pool : GroupBlockPool) (requestId : RequestId) (selected size : Nat) :
    GroupBlockPool :=
  let owned := pool.table requestId
  { pool with
    requestBlocks := pool.requestBlocks.insert requestId
      (owned ++ List.replicate (size - owned.length) none)
    requestPartitions := pool.requestPartitions.setDefault requestId selected }

/-- Materialise one empty slot. -/
def fillSlot (requestId : RequestId) (selected : Nat) (pool : GroupBlockPool) (slot : Nat) :
    Except KvError GroupBlockPool :=
  match (pool.table requestId)[slot]? with
  | none => .error (.index "list index out of range")
  | some (some _) => .ok pool
  | some none => do
    let (b, pool) ← pool.takeGroupBlock selected
    return pool.setSlot requestId slot b

/-- Move the ring on to one logical block: the page it overwrites is detached when it
is shared, and rotated through the eviction queue when it is not. -/
def rotateSlot (requestId : RequestId) (selected : Nat) (pool : GroupBlockPool)
    (logicalBlock : Nat) : Except KvError GroupBlockPool :=
  if logicalBlock < pool.ringSize then .ok pool
  else
    let slot := logicalBlock % pool.ringSize
    match (pool.table requestId)[slot]? with
    | none => .error (.index "list index out of range")
    | some none =>
      .error (.runtime
        s!"KV cache group {pyRepr pool.spec.name} has an unallocated ring slot")
    | some (some b) => do
      let pool :=
        if 1 < (pool.blocks b).refCnt then
          pool.modifyBlock b fun block => { block with refCnt := block.refCnt - 1 }
        else
          (pool.modifyBlock b fun block => { block with refCnt := 0 }).pushFree selected b
      let (fresh, pool) ← pool.takeGroupBlock selected
      return pool.setSlot requestId slot fresh

/-- `request_logical_blocks[request_id] = max(previous, target)`. -/
def setLogical (pool : GroupBlockPool) (requestId : RequestId) (n : Nat) : GroupBlockPool :=
  { pool with requestLogicalBlocks := pool.requestLogicalBlocks.insert requestId n }

/-- One pool's share of `ensure_group_blocks`. -/
def ensureTable (pool : GroupBlockPool) (requestId : RequestId) (selected tokenCount : Nat) :
    Except KvError GroupBlockPool := do
  let target := pool.logicalGroupBlocks tokenCount
  let size := pool.tableSize target
  let pool := pool.openTable requestId selected size
  let pool ← (List.range size).foldlM (fillSlot requestId selected) pool
  let previous := pool.logicalBlocks requestId
  let pool ←
    if pool.rolling then
      (List.range' previous (target - previous)).foldlM (rotateSlot requestId selected) pool
    else pure pool
  return pool.setLogical requestId (max previous target)

/-- The local ids of a full table. -/
def tableIds (pool : GroupBlockPool) (requestId : RequestId) : Except KvError (List Nat) :=
  (pool.table requestId).mapM fun
    | some b => .ok (pool.localBlockId b)
    | none => .error (.runtime
        s!"KV cache group {pyRepr pool.spec.name} has an unallocated table slot")

/-- One pool's share of `release_all_group_requests`. -/
def releaseRequest (pool : GroupBlockPool) (requestId : RequestId) :
    Except KvError GroupBlockPool :=
  let owned := pool.table requestId
  let cleared := { pool with
    requestPartitions := pool.requestPartitions.erase requestId
    requestLogicalBlocks := pool.requestLogicalBlocks.erase requestId
    requestBlocks := pool.requestBlocks.erase requestId }
  match pool.requestPartitions.lookup requestId with
  | none =>
    if owned.any (·.isSome) then
      .error (.runtime s!"Grouped request {pyRepr requestId} has blocks without a partition")
    else .ok cleared
  | some partition =>
    (owned.reduceOption).foldlM (fun pool b =>
      if (pool.blocks b).refCnt = 0 then
        .error (.runtime
          s!"Grouped KV block {b} has invalid ref_cnt={(pool.blocks b).refCnt}")
      else .ok (pool.dropReference partition b)) cleared

/-- The block of one full page in the index. -/
def cachedPage (pool : GroupBlockPool) (partition : Nat) (hashes : List Int) (i : Nat) :
    Option BlockId :=
  hashes[i]?.bind fun h => pool.hashToBlock (partition, h)

/-- How far a full-history pool's unbroken hits from the start reach. -/
def fullHistoryHit (pool : GroupBlockPool) (partition : Nat) (hashes : List Int)
    (candidate : Nat) : Nat :=
  if pool.rolling then candidate
  else
    let maxBlocks := min (min (candidate / pool.capacity) pool.ringSize) hashes.length
    let hits := (hashes.take maxBlocks).takeWhile fun h =>
      (pool.hashToBlock (partition, h)).isSome
    min candidate (hits.length * pool.capacity)

/-- The table that resumes at `candidate` tokens, when every page it needs is cached. -/
def selectPrefix (pool : GroupBlockPool) (partition : Nat) (hashes : List Int)
    (candidate : Nat) : Option (List (Option BlockId)) :=
  let endBlock := candidate / pool.capacity
  if hashes.length < endBlock then none
  else
    match pool.spec.slidingWindow with
    | none =>
      if pool.ringSize < endBlock then none
      else
        (List.range endBlock).foldlM (fun selected i =>
          (pool.cachedPage partition hashes i).map fun b => selected ++ [some b]) []
    | some window =>
      let size := min endBlock pool.ringSize
      let tail := min endBlock (window / pool.capacity)
      (List.range' (endBlock - tail) tail).foldlM (fun selected i =>
        (pool.cachedPage partition hashes i).map fun b =>
          selected.set (i % selected.length) (some b)) (List.replicate size none)

/-- Attach a prefix hit to a request. -/
def attachPrefix (pool : GroupBlockPool) (requestId : RequestId) (partition : Nat)
    (owned : List (Option BlockId)) (hitTokens : Nat) : GroupBlockPool :=
  let pool := { pool with
    requestBlocks := pool.requestBlocks.insert requestId owned
    requestPartitions := pool.requestPartitions.insert requestId partition
    requestLogicalBlocks :=
      pool.requestLogicalBlocks.insert requestId (hitTokens / pool.capacity) }
  owned.reduceOption.foldl (reference · partition) pool

/-- The tokens whose rows are final: an EAGLE group's newest row still waits for the
next token. -/
def safeTokens (pool : GroupBlockPool) (tokenCount : Nat) : Nat :=
  if pool.spec.isEagleGroup then tokenCount - 1 else tokenCount

/-- The publication loop: page `i` of `pages` is resolved to a block and published
under `hashes[i]`; an unresolvable page ends the loop with its error. -/
def publishPages (partition : Nat) (hashes : List Int) (resolve : Nat → Except KvError BlockId)
    (pool : GroupBlockPool) : List Nat → GroupBlockPool × Option KvError
  | [] => (pool, none)
  | i :: pages =>
    match resolve i with
    | .error e => (pool, some e)
    | .ok b => publishPages partition hashes resolve
        (pool.cacheGroupBlock partition b (hashes.getD i 0)) pages

/-- `min(safe_computed_tokens // token_capacity, len(hashes))`. -/
def completedPages (pool : GroupBlockPool) (hashes : List Int) (numComputed : Nat) : Nat :=
  min (pool.safeTokens numComputed / pool.capacity) hashes.length

/-- The pages `cache_group_blocks` publishes from the live table. -/
def livePages (pool : GroupBlockPool) (requestId : RequestId) (hashes : List Int)
    (numComputed alreadyCached : Nat) : List Nat :=
  let completed := pool.completedPages hashes numComputed
  let start := min alreadyCached completed
  let start :=
    if pool.rolling then
      max start (pool.logicalBlocks requestId - (pool.table requestId).length)
    else start
  List.range' start (completed - start)

/-- The block of page `index` in the live table. -/
def liveBlock (pool : GroupBlockPool) (requestId : RequestId) (index : Nat) :
    Except KvError BlockId :=
  let owned := pool.table requestId
  if pool.rolling ∧ owned = [] then .error (.runtime "integer modulo by zero")
  else
    let slot := if pool.rolling then index % owned.length else index
    match owned[slot]? with
    | none => .error (.index "list index out of range")
    | some none => .error (.runtime
        s!"KV cache group {pyRepr pool.spec.name} has an unallocated table slot")
    | some (some b) => .ok b

/-- One pool's share of `cache_group_blocks`. -/
def cacheLive (pool : GroupBlockPool) (requestId : RequestId) (partition : Nat)
    (hashes : List Int) (numComputed alreadyCached : Nat) : GroupBlockPool × Option KvError :=
  publishPages partition hashes (pool.liveBlock requestId) pool
    (pool.livePages requestId hashes numComputed alreadyCached)

/-- The pages `cache_group_blocks_from_snapshot` publishes from a scheduled table. -/
def snapshotPages (pool : GroupBlockPool) (blockIds : List Nat) (hashes : List Int)
    (numComputed alreadyCached : Nat) : List Nat :=
  let completed := pool.completedPages hashes numComputed
  let start := min alreadyCached completed
  let start := if pool.rolling then max start (completed - blockIds.length) else start
  List.range' start (completed - start)

/-- The block of page `index` in a scheduled table. -/
def snapshotBlock (pool : GroupBlockPool) (partition : Nat) (blockIds : List Nat) (index : Nat) :
    Except KvError BlockId :=
  let slot := if pool.rolling then index % blockIds.length else index
  match blockIds[slot]? with
  | none => .error (.runtime (s!"Cache group {pyRepr pool.spec.name} scheduled table cannot " ++
      s!"address logical block {index}"))
  | some id => pool.blockFromLocalId partition id

/-- One pool's share of `cache_group_blocks_from_snapshot`. -/
def cacheSnapshot (pool : GroupBlockPool) (partition : Nat) (blockIds : List Nat)
    (hashes : List Int) (numComputed alreadyCached : Nat) : GroupBlockPool × Option KvError :=
  if pool.rolling ∧ 0 < pool.completedPages hashes numComputed ∧ blockIds = [] then
    (pool, some (.runtime
      s!"Cache group {pyRepr pool.spec.name} has an empty scheduled table"))
  else
    publishPages partition hashes (pool.snapshotBlock partition blockIds) pool
      (pool.snapshotPages blockIds hashes numComputed alreadyCached)

/-- Resolve a scheduled table to its blocks, refusing one that is not owned. -/
def pinnable (pool : GroupBlockPool) (partition : Nat) (blockIds : List Nat) :
    Except KvError (List BlockId) :=
  if ¬ blockIds.Nodup then
    .error (.value s!"Cache group {pyRepr pool.spec.name} snapshot contains duplicate block IDs")
  else
    blockIds.mapM fun id => do
      let b ← pool.blockFromLocalId partition id
      if (pool.blocks b).refCnt = 0 then
        .error (.runtime
          s!"Cannot retain unowned grouped KV block {pool.spec.name}:{id}")
      else .ok b

/-- Pin every block of a snapshot. -/
def pinBlocks (pool : GroupBlockPool) (bs : List BlockId) : GroupBlockPool :=
  bs.foldl (fun pool b => pool.modifyBlock b fun block => { block with refCnt := block.refCnt + 1 })
    pool

/-- One pool's share of `release_group_block_snapshot`. -/
def unpin (pool : GroupBlockPool) (partition : Nat) (blockIds : List Nat) :
    Except KvError GroupBlockPool :=
  blockIds.foldlM (fun pool id => do
    let b ← pool.blockFromLocalId partition id
    if (pool.blocks b).refCnt = 0 then
      .error (.runtime (s!"Grouped KV snapshot block {pool.spec.name}:{id} has " ++
        s!"invalid ref_cnt={(pool.blocks b).refCnt}"))
    else .ok (pool.dropReference partition b)) pool

/-- A fresh pool: every block of a partition is in that partition's free queue. -/
def new (spec : KVCacheGroupSpec) (blocksPerPartition : Nat) : GroupBlockPool :=
  let s := (List.range spec.numPartitions).foldl
    (fun (s : BlockHeap × (Nat → FreeKVCacheBlockQueue)) partition =>
      let r := FreeKVCacheBlockQueue.appendN {} s.1
        (List.range' (partition * blocksPerPartition) blocksPerPartition)
      (r.2, Function.update s.2 partition r.1))
    (fun _ => {}, fun _ => {})
  { spec, blocks := s.1, blocksPerPartition, freeQueues := s.2 }

end GroupBlockPool
end PyptoServing.Memory
