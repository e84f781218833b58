import PyptoServing.Lib.Machine
import PyptoServing.Lib.Raising
import PyptoServing.Lib.Translation
import PyptoServing.Memory.GenericPool

/-!
# The host paged store

The generic pool with the pages of every registered model on the host. Requests hold their
`KvAllocation` objects, which the calls update in place; a call that raises keeps what it did
before. `written` is a history of the rows of the live requests that no call reads.
-/
namespace PyptoServing.Memory

open Lib

abbrev ModelId := String

/-- The exceptions of the host store, with their messages. -/
inductive HostError
  | key (message : String)
  | index (message : String)
  | value (message : String)
  | runtime (message : String)
  | zeroDivision (message : String)
  | pool (error : KvError)

/-- Paged KV-cache allocation assigned to one request. -/
structure KvAllocation where
  requestId : RequestId
  modelId : ModelId
  pageIds : List BlockId
  tokensCapacity : Nat
  tokensUsed : Nat := 0

/-- `key_pages` and `value_pages`, which are allocated together: a row of heads for each layer,
page and offset. -/
structure HostPages (Row : Type) where
  keyPages : Nat → BlockId → Nat → Row
  valuePages : Nat → BlockId → Nat → Row

/-- What `register_model` reads of a model and its runtime. A row has the shape
`[num_key_value_heads, head_dim]`, and an assignment converts it to `kv_dtype`. -/
structure ModelCache (Row : Type) where
  pageSize : Nat
  maxSeqLen : Nat
  maxBatchSize : Nat
  totalKvPages : Option Nat := none
  numHiddenLayers : Nat
  toKvDtype : Row → Row
  zeros : Row

/-- `_CachePool`. -/
structure CachePool (Row : Type) where
  pageSize : Nat
  numLayers : Nat
  numPages : Nat
  toKvDtype : Row → Row
  zeros : Row
  hostPages : Option (HostPages Row) := none

/-- The manager with its host pools, and the allocations that live requests hold. -/
structure HostStore (Row : Type) where
  manager : KvCacheManager
  pools : Dict ModelId (CachePool Row) := ∅
  requestBlocks : Dict RequestId (List BlockId) := ∅
  allocations : Dict RequestId KvAllocation := ∅
  /-- The last key and value row by request, layer and position. -/
  written : RequestId → Nat × Nat → Option (Row × Row) := fun _ _ => none

abbrev HostM (Row α : Type) := Raising HostError (HostStore Row) α

variable {Row : Type}

/-- A row of both tensors. -/
def HostPages.write (pages : HostPages Row) (layer : Nat) (page : BlockId) (offset : Nat)
    (row : Row × Row) : HostPages Row where
  keyPages := Function.update pages.keyPages layer
    (Function.update (pages.keyPages layer) page
      (Function.update (pages.keyPages layer page) offset row.1))
  valuePages := Function.update pages.valuePages layer
    (Function.update (pages.valuePages layer) page
      (Function.update (pages.valuePages layer page) offset row.2))

namespace HostStore

/-- `KvCacheManager(...)`, before any model is registered. -/
def new (pyHash : PyHash) (blockSize : Nat) (enablePrefixCache : Bool) (numBlocks : Option Nat) :
    HostStore Row :=
  let manager : KvCacheManager := { pyHash, blockSize, enablePrefixCache }
  match numBlocks with
  | none => { manager }
  | some n => { manager := (manager.initBlocks n blockSize).toOption.getD manager }

/-- The registered cache pool of a model. -/
def pool (modelId : ModelId) : HostM Row (CachePool Row) := do
  match (← get).pools.lookup modelId with
  | some pool => pure pool
  | none =>
    throw (.key s!"Model {modelId} is not registered with the KV cache manager.")

/-- The allocation object of a live request. -/
def allocation (r : RequestId) : HostM Row KvAllocation := do
  match (← get).allocations.lookup r with
  | some alloc => pure alloc
  | none => throw (.key s!"{r}")

/-- The page count of a model, unless the caller knows the device's. -/
def pageCount (model : ModelCache Row) (numPages : Option Nat) : Nat :=
  let maxBlocksPerSeq := (model.maxSeqLen + model.pageSize - 1) / model.pageSize
  (numPages.or model.totalKvPages).getD (model.maxBatchSize * maxBlocksPerSeq)

/-- The pool that `register_model` stores. -/
def newPool (model : ModelCache Row) (numPages : Nat) : CachePool Row where
  pageSize := model.pageSize
  numLayers := model.numHiddenLayers
  numPages
  toKvDtype := model.toKvDtype
  zeros := model.zeros

/-- `register_model`. -/
def registerModel (modelId : ModelId) (model : ModelCache Row) (numPages : Option Nat) :
    HostM Row Unit :=
  let numPages := pageCount model numPages
  if model.pageSize = 0 then throw (.zeroDivision "division by zero")
  else if numPages = 0 then
    throw (.value s!"KV cache page count must be positive, got {numPages}")
  else do
    match (← get).pools.lookup modelId with
    | some pool =>
      if pool.numPages ≠ numPages then
        throw (.value (s!"Model {modelId} is already registered with " ++
          s!"{pool.numPages} KV pages, not {numPages}"))
      else pure ()
    | none =>
      match (← get).manager.initBlocks numPages model.pageSize with
      | .error error => throw (.pool error)
      | .ok manager =>
        modify fun st => { st with manager, pools := st.pools.insert modelId (newPool model numPages) }

/-- `allocate_blocks`. -/
def allocateBlocks (numBlocks : Nat) : HostM Row (Option (List BlockId)) := do
  let (blocks, manager) := (← get).manager.allocateBlockIds numBlocks
  modify fun st => { st with manager }
  return blocks

/-- `allocate_for_prompt`, whose allocation the request keeps. -/
def allocateForPrompt (modelId : ModelId) (r : RequestId) (promptLen : Nat) :
    HostM Row Unit := do
  let pool ← pool modelId
  let numPages := max 1 ((promptLen + pool.pageSize - 1) / pool.pageSize)
  match ← allocateBlocks numPages with
  | none => throw (.runtime "Insufficient KV cache blocks.")
  | some blocks =>
    modify fun st => { st with
      requestBlocks := st.requestBlocks.insert r blocks
      allocations := st.allocations.insert r
        { requestId := r
          modelId
          pageIds := blocks
          tokensCapacity := blocks.length * pool.pageSize } }

/-- `alloc.page_ids[page_idx]` and the offset of a token. -/
def pageOf (alloc : KvAllocation) (pageSize tokenIndex : Nat) : Except HostError (BlockId × Nat) :=
  match alloc.pageIds[tokenIndex / pageSize]? with
  | some page => .ok (page, tokenIndex % pageSize)
  | none => .error (.index "list index out of range")

/-- `slot_mapping_for_request`. -/
def slotMappingForRequest (r : RequestId) (tokenIndex : Option Nat) : HostM Row Nat := do
  let alloc ← allocation r
  let pool ← pool alloc.modelId
  let (page, offset) ← MonadExcept.ofExcept
    (pageOf alloc pool.pageSize (tokenIndex.getD alloc.tokensUsed))
  return page * pool.pageSize + offset

/-- `ensure_one_more_slot`. -/
def ensureOneMoreSlot (r : RequestId) : HostM Row Nat := do
  let alloc ← allocation r
  let pool ← pool alloc.modelId
  if alloc.tokensUsed < alloc.tokensCapacity then slotMappingForRequest r (some alloc.tokensUsed)
  else
    match ← allocateBlocks 1 with
    | none => throw (.runtime "Insufficient KV cache blocks.")
    | some blocks =>
      let pageIds := alloc.pageIds ++ blocks
      modify fun st => { st with
        requestBlocks := st.requestBlocks.insert alloc.requestId
          ((st.requestBlocks.lookup alloc.requestId).getD [] ++ blocks)
        allocations := st.allocations.insert r
          { alloc with pageIds, tokensCapacity := pageIds.length * pool.pageSize } }
      slotMappingForRequest r (some alloc.tokensUsed)

/-- `_ensure_host_pool`: the pages start with zeros. -/
def ensureHostPool (modelId : ModelId) : HostM Row (CachePool Row) := do
  let pool ← pool modelId
  if pool.hostPages.isSome then return pool
  else
    let pool := { pool with hostPages := some ⟨fun _ _ _ => pool.zeros, fun _ _ _ => pool.zeros⟩ }
    modify fun st => { st with pools := st.pools.insert modelId pool }
    return pool

/-- `key_pages[layer, page, :, offset, :] = row[0]`, and the same for the values. -/
def assignRow (modelId : ModelId) (layer : Nat) (page : BlockId) (offset : Nat) (row : Row × Row)
    (st : HostStore Row) : HostStore Row :=
  match st.pools.lookup modelId with
  | some pool =>
    { st with
      pools := st.pools.insert modelId
        { pool with hostPages := pool.hostPages.map (·.write layer page offset row) } }
  | none => st

/-- One row of `write_tokens`. -/
def writeRow (pool : CachePool Row) (layer : Nat) (alloc : KvAllocation)
    (entry : (Row × Row) × Nat) : HostM Row Unit := do
  let ((key, value), tokenIndex) := entry
  let (page, offset) ← MonadExcept.ofExcept (pageOf alloc pool.pageSize tokenIndex)
  if layer < pool.numLayers ∧ page < pool.numPages then
    let row := (pool.toKvDtype key, pool.toKvDtype value)
    modify (assignRow alloc.modelId layer page offset row)
    modify fun st => { st with
      written := Translation.remember st.written alloc.requestId (layer, tokenIndex) row }
  else throw (.index "index is out of bounds for dimension")

/-- `write_tokens`. -/
def writeTokens (layer : Nat) (r : RequestId) (startTokenIndex : Nat) (keys values : List Row) :
    HostM Row Unit := do
  let alloc ← allocation r
  let pool ← ensureHostPool alloc.modelId
  if keys.length ≠ values.length then
    throw (.value "keys and values must have the same shape")
  else do
    ((keys.zip values).zipIdx startTokenIndex).forM (writeRow pool layer alloc)
    modify fun st => { st with
      allocations := st.allocations.insert r
        { alloc with tokensUsed := max alloc.tokensUsed (startTokenIndex + keys.length) } }

/-- One row of `read_context`. -/
def readRow (pool : CachePool Row) (layer : Nat) (alloc : KvAllocation) (tokenIndex : Nat) :
    Except HostError (Row × Row) := do
  let (page, offset) ← pageOf alloc pool.pageSize tokenIndex
  if layer < pool.numLayers ∧ page < pool.numPages then
    return (pool.hostPages.elim pool.zeros (·.keyPages layer page offset),
      pool.hostPages.elim pool.zeros (·.valuePages layer page offset))
  else .error (.index "index is out of bounds for dimension")

/-- `read_context`: the key rows and the value rows. -/
def readContext (layer : Nat) (r : RequestId) (uptoTokens : Option Nat) :
    HostM Row (List Row × List Row) := do
  let alloc ← allocation r
  let pool ← ensureHostPool alloc.modelId
  let tokenCount := uptoTokens.getD alloc.tokensUsed
  let rows ← MonadExcept.ofExcept ((List.range tokenCount).mapM (readRow pool layer alloc))
  return rows.unzip

/-- `release_request`. -/
def releaseRequest (r : RequestId) : HostM Row Unit :=
  modify fun st => { st with
    manager := st.manager.releaseBlocksByIds ((st.requestBlocks.lookup r).getD [])
    requestBlocks := st.requestBlocks.erase r }

/-- `free`: the request is no longer live, and its cleared allocation is dropped. -/
def free (r : RequestId) : HostM Row Unit := do
  let alloc ← allocation r
  releaseRequest alloc.requestId
  modify fun st => { st with
    allocations := st.allocations.erase r
    written := Translation.forget st.written r }

end HostStore

/-- A call of one request, or the registration of a model. -/
inductive HostCall (Row : Type)
  | registerModel (modelId : ModelId) (model : ModelCache Row) (numPages : Option Nat)
  | allocateForPrompt (modelId : ModelId) (r : RequestId) (promptLen : Nat)
  | ensureOneMoreSlot (r : RequestId)
  | writeTokens (layer : Nat) (r : RequestId) (startTokenIndex : Nat) (keys values : List Row)
  | readContext (layer : Nat) (r : RequestId) (uptoTokens : Option Nat)
  | free (r : RequestId)

namespace HostCall

/-- The request that makes a call. -/
def request : HostCall Row → Option RequestId
  | registerModel .. => none
  | allocateForPrompt _ r _ => some r
  | ensureOneMoreSlot r => some r
  | writeTokens _ r .. => some r
  | readContext _ r _ => some r
  | free r => some r

/-- A new request has an id of its own, and the others are live. -/
def Permitted (call : HostCall Row) (st : HostStore Row) : Prop :=
  match call with
  | registerModel .. => True
  | allocateForPrompt _ r _ => st.allocations.lookup r = none
  | ensureOneMoreSlot r | writeTokens _ r .. | readContext _ r _ | free r =>
    (st.allocations.lookup r).isSome

/-- What a call returns, or raises, is left to its theorems. -/
def perform : HostCall Row → HostM Row Unit
  | registerModel modelId model numPages => HostStore.registerModel modelId model numPages
  | allocateForPrompt modelId r promptLen => HostStore.allocateForPrompt modelId r promptLen
  | ensureOneMoreSlot r => do let _ ← HostStore.ensureOneMoreSlot r
  | writeTokens layer r start keys values => HostStore.writeTokens layer r start keys values
  | readContext layer r upto => do let _ ← HostStore.readContext layer r upto
  | free r => HostStore.free r

end HostCall

/-- Every interleaving of the calls. -/
def hostMachine (Row : Type) : Machine (HostStore Row) (HostCall Row) where
  init st := ∃ pyHash blockSize enablePrefixCache numBlocks,
    st = .new pyHash blockSize enablePrefixCache numBlocks
  step st call st' := call.Permitted st ∧ st' = (call.perform.exec st).2

end PyptoServing.Memory
