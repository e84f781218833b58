import PyptoServing.Memory.HostStore

/-!
# The host store reads back what was written

The page lists of the live requests are separate, and each is what the pool counts as held.
So the rows of a request have cells of their own, which only its own writes change, and the
pages that come back with `free` belong to nobody until they are handed out again.
-/
namespace PyptoServing.Memory

open Lib KvCacheManager

variable {Row : Type}

namespace HostStore

/-- The page list of a live request. -/
def tables (st : HostStore Row) (r : RequestId) : List BlockId :=
  ((st.allocations.lookup r).map (·.pageIds)).getD []

/-- In how many page lists a block is. -/
def holders (st : HostStore Row) (b : BlockId) : Nat :=
  Dict.weight (fun alloc => alloc.pageIds.count b) st.allocations

/-- The key and the value row of a model, layer, page and offset. -/
def cells (st : HostStore Row) : ModelId × Nat × BlockId × Nat → Option (Row × Row)
  | (modelId, layer, page, offset) =>
    ((st.pools.lookup modelId).bind (·.hostPages)).map fun pages =>
      (pages.keyPages layer page offset, pages.valuePages layer page offset)

/-- The cell of a request's layer and position. -/
def address (st : HostStore Row) :
    Translation RequestId (Nat × Nat) (ModelId × Nat × BlockId × Nat)
  | r, (layer, p) => do
    let alloc ← st.allocations.lookup r
    let pool ← st.pools.lookup alloc.modelId
    if layer < pool.numLayers then
      (Translation.locate st.manager.blockSize st.tables r p).map fun (page, offset) =>
        (alloc.modelId, layer, page, offset)
    else none

/-- An allocation of a registered model. -/
structure Granted (st : HostStore Row) (r : RequestId) (alloc : KvAllocation) : Prop where
  requestId : alloc.requestId = r
  capacity : alloc.tokensCapacity = alloc.pageIds.length * st.manager.blockSize
  registered : (st.pools.lookup alloc.modelId).isSome

/-- A registered pool has the dimensions of the generic pool. -/
structure Sized (st : HostStore Row) (pool : CachePool Row) : Prop where
  pageSize : pool.pageSize = st.manager.blockSize
  numPages : pool.numPages = st.manager.numBlocks
  pageSize_pos : 0 < pool.pageSize
  numPages_pos : 0 < pool.numPages

structure Sound (st : HostStore Row) : Prop where
  balanced : ∃ free, GenericBalanced st.manager free st.holders
  separate : Separate st.tables
  inRange : ∀ r, ∀ b ∈ st.tables r, b < st.manager.numBlocks
  blocks : ∀ r, st.requestBlocks.lookup r = (st.allocations.lookup r).map (·.pageIds)
  granted : ∀ r alloc, st.allocations.lookup r = some alloc → st.Granted r alloc
  sized : ∀ m pool, st.pools.lookup m = some pool → st.Sized pool
  unready : st.manager.numBlocks = 0 →
    st.manager.freeQueue = {} ∧ st.manager.hashToBlock = fun _ => none
  holds : Translation.Holds st.address st.cells st.written

variable {st st' : HostStore Row} {r : RequestId} {alloc : KvAllocation} {pool : CachePool Row}
  {layer p : Nat} {page : BlockId} {offset : Nat}

theorem tables_of_live (h : st.allocations.lookup r = some alloc) : st.tables r = alloc.pageIds := by
  rw [tables, h]
  rfl

theorem tables_of_dead (h : st.allocations.lookup r = none) : st.tables r = [] := by
  rw [tables, h]
  rfl

theorem pageOf_eq_ok {pageSize : Nat} : pageOf alloc pageSize p = .ok (page, offset) ↔
    alloc.pageIds[p / pageSize]? = some page ∧ p % pageSize = offset := by
  unfold pageOf
  cases alloc.pageIds[p / pageSize]? <;> simp

/-- A position below the capacity has a page. -/
theorem pageOf_of_lt {pageSize : Nat} (h : p < alloc.pageIds.length * pageSize) :
    ∃ page, alloc.pageIds[p / pageSize]? = some page ∧
      pageOf alloc pageSize p = .ok (page, p % pageSize) := by
  have hpos : 0 < pageSize := Nat.pos_of_ne_zero fun h0 => by simp [h0] at h
  have hlt : p / pageSize < alloc.pageIds.length := (Nat.div_lt_iff_lt_mul hpos).mpr h
  refine ⟨_, List.getElem?_eq_getElem hlt, ?_⟩
  unfold pageOf
  rw [List.getElem?_eq_getElem hlt]

theorem address_eq_some {c : ModelId × Nat × BlockId × Nat} :
    st.address r (layer, p) = some c ↔
      ∃ alloc pool, st.allocations.lookup r = some alloc ∧
        st.pools.lookup alloc.modelId = some pool ∧ layer < pool.numLayers ∧
        ∃ page, alloc.pageIds[p / st.manager.blockSize]? = some page ∧
          c = (alloc.modelId, layer, page, p % st.manager.blockSize) := by
  unfold address
  constructor
  · intro h
    obtain ⟨alloc, halloc, h⟩ := Option.bind_eq_some_iff.mp h
    obtain ⟨pool, hpool, h⟩ := Option.bind_eq_some_iff.mp h
    split at h
    · next hlayer =>
      obtain ⟨⟨page, offset⟩, hloc, rfl⟩ := Option.map_eq_some_iff.mp h
      obtain ⟨page', hpage, heq⟩ := Option.map_eq_some_iff.mp hloc
      cases heq
      rw [tables_of_live halloc] at hpage
      exact ⟨alloc, pool, halloc, hpool, hlayer, _, hpage, rfl⟩
    · cases h
  · rintro ⟨alloc, pool, halloc, hpool, hlayer, page, hpage, rfl⟩
    refine Option.bind_eq_some_iff.mpr ⟨alloc, halloc,
      Option.bind_eq_some_iff.mpr ⟨pool, hpool, ?_⟩⟩
    rw [if_pos hlayer, Translation.locate, tables_of_live halloc, hpage]
    rfl

theorem exclusive_address (h : Separate st.tables) : Translation.Exclusive st.address := by
  rintro r r' ⟨layer, p⟩ ⟨layer', p'⟩ c hc hc'
  obtain ⟨alloc, pool, halloc, hpool, -, page, hpage, rfl⟩ := address_eq_some.mp hc
  obtain ⟨alloc', pool', halloc', hpool', -, page', hpage', heq⟩ := address_eq_some.mp hc'
  obtain ⟨-, rfl, rfl, hoff⟩ : _ ∧ layer = layer' ∧ page = page' ∧ _ := by simpa using heq
  rw [← tables_of_live halloc] at hpage
  rw [← tables_of_live halloc'] at hpage'
  have hloc : Translation.locate st.manager.blockSize st.tables r p =
      some (page, p % st.manager.blockSize) := by
    rw [Translation.locate, hpage]
    rfl
  have hloc' : Translation.locate st.manager.blockSize st.tables r' p' =
      some (page, p % st.manager.blockSize) := by
    rw [Translation.locate, hpage', hoff]
    rfl
  obtain ⟨rfl, rfl⟩ := Translation.exclusive_locate h r r' p p' _ hloc hloc'
  exact ⟨rfl, rfl⟩

/-- Nothing is remembered for a request that is not live. -/
theorem Sound.written_live (h : Sound st) {k : Nat × Nat} {row : Row × Row}
    (hw : st.written r k = some row) : ∃ alloc, st.allocations.lookup r = some alloc := by
  obtain ⟨c, hc, -⟩ := h.holds r k row hw
  obtain ⟨alloc, -, halloc, -⟩ := address_eq_some.mp hc
  exact ⟨alloc, halloc⟩

/-- The allocation of a request is replaced. -/
theorem tables_insert (hlook : st'.allocations = st.allocations.insert r alloc) :
    st'.tables = Function.update st.tables r alloc.pageIds := by
  funext r'
  rw [Function.update_apply, tables, hlook]
  split
  · next hr =>
    rw [hr, AList.lookup_insert]
    rfl
  · next hr =>
    rw [AList.lookup_insert_ne hr]
    rfl

theorem holders_insert (hlook : st'.allocations = st.allocations.insert r alloc)
    {ids : List BlockId} (hpages : alloc.pageIds = st.tables r ++ ids) (b : BlockId) :
    st'.holders b = st.holders b + ids.count b := by
  have hweight := Dict.weight_insert (fun a : KvAllocation => a.pageIds.count b) st.allocations r alloc
  have hold : ((st.allocations.lookup r).map fun a : KvAllocation => a.pageIds.count b).getD 0 =
      (st.tables r).count b := by
    unfold tables
    cases st.allocations.lookup r <;> rfl
  rw [hold, hpages, List.count_append] at hweight
  unfold holders
  rw [hlook]
  omega

/-- A block in a page list is held. -/
theorem count_le_holders (st : HostStore Row) (r : RequestId) (b : BlockId) : (st.tables r).count b ≤ st.holders b := by
  unfold tables
  cases h : st.allocations.lookup r with
  | none => simp
  | some alloc => exact Dict.le_weight (fun a : KvAllocation => a.pageIds.count b) h

theorem notMem_of_holders {b : BlockId} (h : st.holders b = 0) (r : RequestId) :
    b ∉ st.tables r := by
  intro hb
  have := List.count_pos_iff.mpr hb
  have := count_le_holders st r b
  omega

theorem Granted.congr (h : st.Granted r alloc)
    (hsize : st'.manager.blockSize = st.manager.blockSize)
    (hpools : (st.pools.lookup alloc.modelId).isSome → (st'.pools.lookup alloc.modelId).isSome) :
    st'.Granted r alloc :=
  ⟨h.requestId, by rw [hsize, h.capacity], hpools h.registered⟩

theorem Sized.congr (h : st.Sized pool) (hsize : st'.manager.blockSize = st.manager.blockSize)
    (hnum : st'.manager.numBlocks = st.manager.numBlocks) : st'.Sized pool :=
  ⟨by rw [hsize, h.pageSize], by rw [hnum, h.numPages], h.pageSize_pos, h.numPages_pos⟩

/-- Where a model is registered there are blocks. -/
theorem Sound.numBlocks_pos (h : Sound st) (hgranted : st.Granted r alloc) :
    0 < st.manager.numBlocks := by
  obtain ⟨pool, hpool⟩ := Option.isSome_iff_exists.mp hgranted.registered
  have hsized := h.sized _ pool hpool
  have := hsized.numPages_pos
  rwa [hsized.numPages] at this

theorem cells_congr (hpools : st'.pools = st.pools) : st'.cells = st.cells := by
  unfold cells
  rw [hpools]

/-- A request's list grows by free blocks. -/
theorem Sound.grow {ids : List BlockId} (h : Sound st) (hdims : SameDims st.manager st'.manager)
    (hbal : ∃ free, GenericBalanced st'.manager free fun b => st.holders b + ids.count b)
    (hids : ids.Nodup) (hfree : ∀ b ∈ ids, b < st.manager.numBlocks ∧ st.holders b = 0)
    (hpools : st'.pools = st.pools) (hwritten : st'.written = st.written)
    (halloc : st'.allocations = st.allocations.insert r alloc)
    (hblocks : ∀ r', st'.requestBlocks.lookup r' = (st'.allocations.lookup r').map (·.pageIds))
    (hpages : alloc.pageIds = st.tables r ++ ids) (hgranted : st.Granted r alloc)
    (hmodel : ∀ old, st.allocations.lookup r = some old → old.modelId = alloc.modelId) :
    Sound st' := by
  have htables := tables_insert halloc
  rw [hpages] at htables
  refine ⟨?_, ?_, ?_, hblocks, ?_, ?_, fun hz => ?_, ?_⟩
  · obtain ⟨free, hf⟩ := hbal
    exact ⟨free, hf.recount fun b => holders_insert halloc hpages b⟩
  · rw [htables]
    exact h.separate.append r hids fun o b hb hmem => notMem_of_holders (hfree b hmem).2 o hb
  · intro r' b hb
    rw [hdims.numBlocks]
    rw [htables, Function.update_apply] at hb
    split at hb
    · rcases List.mem_append.mp hb with hb | hb
      · exact h.inRange r b hb
      · exact (hfree b hb).1
    · exact h.inRange r' b hb
  · intro r' alloc' hlook
    rw [halloc] at hlook
    by_cases hr : r' = r
    · subst hr
      rw [AList.lookup_insert] at hlook
      cases hlook
      exact hgranted.congr hdims.blockSize (by rw [hpools]; exact id)
    · rw [AList.lookup_insert_ne hr] at hlook
      exact (h.granted r' alloc' hlook).congr hdims.blockSize (by rw [hpools]; exact id)
  · intro m pool hpool
    rw [hpools] at hpool
    exact (h.sized m pool hpool).congr hdims.blockSize hdims.numBlocks
  · rw [hdims.numBlocks] at hz
    exact absurd hz (h.numBlocks_pos hgranted).ne'
  · rw [hwritten, cells_congr hpools]
    refine h.holds.extend ?_ fun _ _ hc => hc
    rintro o ⟨layer, p⟩ c hc
    obtain ⟨old, pool, hold, hpool, hlayer, page, hpage, rfl⟩ := address_eq_some.mp hc
    rw [address_eq_some, halloc, hpools, hdims.blockSize]
    by_cases ho : o = r
    · subst ho
      have hm := hmodel old hold
      refine ⟨alloc, pool, AList.lookup_insert _, hm ▸ hpool, hlayer, page, ?_, by rw [hm]⟩
      rw [hpages, tables_of_live hold,
        List.getElem?_append_left (List.getElem?_eq_some_iff.mp hpage).1, hpage]
    · exact ⟨old, pool, by rwa [AList.lookup_insert_ne ho], hpool, hlayer, page, hpage, rfl⟩

/-- A pool whose pages change keeps its dimensions. -/
theorem address_repool {m : ModelId} {pool' : CachePool Row} {written}
    (hpool : st.pools.lookup m = some pool) (hlayers : pool'.numLayers = pool.numLayers) :
    HostStore.address { st with pools := st.pools.insert m pool', written } = st.address := by
  funext r k
  obtain ⟨layer, p⟩ := k
  unfold address
  dsimp only
  cases hr : st.allocations.lookup r with
  | none => rfl
  | some alloc =>
    by_cases hm : alloc.modelId = m
    · subst hm
      rw [Option.bind_eq_bind, Option.bind_some, Option.bind_some, AList.lookup_insert, hpool]
      dsimp only [Option.bind_eq_bind, Option.bind_some]
      rw [hlayers]
      rfl
    · rw [Option.bind_eq_bind, Option.bind_some, Option.bind_some, AList.lookup_insert_ne hm]
      rfl

theorem Sound.repool {m : ModelId} {pool' : CachePool Row} {written} (h : Sound st)
    (hpool : st.pools.lookup m = some pool)
    (hdims : pool' = { pool with hostPages := pool'.hostPages })
    (hholds : Translation.Holds st.address
      (HostStore.cells { st with pools := st.pools.insert m pool', written }) written) :
    Sound { st with pools := st.pools.insert m pool', written } := by
  refine ⟨h.balanced, h.separate, h.inRange, h.blocks, ?_, ?_, h.unready, ?_⟩
  · intro r alloc hlook
    refine (h.granted r alloc hlook).congr rfl fun hreg => ?_
    dsimp only
    by_cases hm : alloc.modelId = m
    · rw [hm, AList.lookup_insert]
      rfl
    · rwa [AList.lookup_insert_ne hm]
  · intro m' other hother
    dsimp only at hother
    by_cases hm : m' = m
    · subst hm
      rw [AList.lookup_insert] at hother
      cases hother
      have hsized := h.sized m' pool hpool
      rw [hdims]
      exact ⟨hsized.pageSize, hsized.numPages, hsized.pageSize_pos, hsized.numPages_pos⟩
    · rw [AList.lookup_insert_ne hm] at hother
      exact (h.sized m' other hother).congr rfl rfl
  · rw [address_repool hpool (by rw [hdims])]
    exact hholds

section Rows
variable {m : ModelId} {row : Row × Row} {pages : HostPages Row} {entry : (Row × Row) × Nat}

theorem cells_of_pages (hpool : st.pools.lookup m = some pool) (hpages : pool.hostPages = some pages) :
    st.cells (m, layer, page, offset) =
      some (pages.keyPages layer page offset, pages.valuePages layer page offset) := by
  dsimp only [cells]
  rw [hpool, Option.bind_some, hpages]
  rfl

/-- A row changes one cell. -/
theorem cells_assignRow (layer : Nat) (page : BlockId) (offset : Nat) (row : Row × Row)
    (hpool : st.pools.lookup m = some pool) (hpages : pool.hostPages = some pages) :
    (assignRow m layer page offset row st).cells =
      Function.update st.cells (m, layer, page, offset) (some row) := by
  funext c
  obtain ⟨m', layer', page', offset'⟩ := c
  unfold assignRow
  rw [hpool]
  dsimp only
  by_cases hm : m' = m
  · subst hm
    rw [Function.update_apply, cells_of_pages hpool hpages,
      cells_of_pages (AList.lookup_insert _) (by rw [hpages]; rfl)]
    by_cases hl : layer' = layer <;> by_cases hp : page' = page <;>
      by_cases ho : offset' = offset <;> simp [HostPages.write, hl, hp, ho]
  · rw [Function.update_of_ne fun h => hm (congrArg Prod.fst h)]
    unfold cells
    dsimp only
    rw [AList.lookup_insert_ne hm]

/-- The converted rows of an entry. -/
def stored (pool : CachePool Row) (entry : (Row × Row) × Nat) : Row × Row :=
  (pool.toKvDtype entry.1.1, pool.toKvDtype entry.1.2)

/-- The state after one row. -/
def afterRow (pool : CachePool Row) (layer : Nat) (alloc : KvAllocation)
    (entry : (Row × Row) × Nat) (page : BlockId) (st : HostStore Row) : HostStore Row :=
  { assignRow alloc.modelId layer page (entry.2 % pool.pageSize) (stored pool entry) st with
    written := Translation.remember st.written alloc.requestId (layer, entry.2) (stored pool entry) }

theorem exec_writeRow (pool : CachePool Row) (layer : Nat) (alloc : KvAllocation)
    (entry : (Row × Row) × Nat) (st : HostStore Row) :
    (∃ e, (writeRow pool layer alloc entry).exec st = (.error e, st)) ∨
    ∃ page, alloc.pageIds[entry.2 / pool.pageSize]? = some page ∧ layer < pool.numLayers ∧
      page < pool.numPages ∧
      (writeRow pool layer alloc entry).exec st = (.ok (), afterRow pool layer alloc entry page st) := by
  obtain ⟨⟨key, value⟩, t⟩ := entry
  unfold writeRow
  dsimp only
  rw [Raising.exec_bind, Raising.exec_ofExcept]
  unfold pageOf
  cases hpage : alloc.pageIds[t / pool.pageSize]? with
  | none => exact .inl ⟨_, rfl⟩
  | some page =>
    dsimp only
    split
    · next hin =>
      refine .inr ⟨page, rfl, hin.1, hin.2, ?_⟩
      rw [Raising.exec_bind, Raising.exec_modify]
      dsimp only
      rw [Raising.exec_modify, afterRow]
      unfold assignRow
      split <;> rfl
    · exact .inl ⟨_, rfl⟩

/-- A request's rows are being written: its pool has its pages. -/
structure Writing (pool : CachePool Row) (r : RequestId) (alloc : KvAllocation)
    (st : HostStore Row) : Prop where
  sound : Sound st
  live : st.allocations.lookup r = some alloc
  ready : ∃ pages, st.pools.lookup alloc.modelId = some { pool with hostPages := some pages }

theorem Writing.next (h : Writing pool r alloc st) (hpage : alloc.pageIds[entry.2 / pool.pageSize]? = some page)
    (hlayer : layer < pool.numLayers) :
    Writing pool r alloc (afterRow pool layer alloc entry page st) := by
  obtain ⟨pages, hpool⟩ := h.ready
  have hsized := h.sound.sized _ _ hpool
  have hcells := cells_assignRow layer page (entry.2 % pool.pageSize) (stored pool entry) hpool rfl
  have haddr : st.address r (layer, entry.2) =
      some (alloc.modelId, layer, page, entry.2 % pool.pageSize) := by
    rw [address_eq_some]
    refine ⟨alloc, _, h.live, hpool, hlayer, page, ?_, ?_⟩
    · rw [← hsized.pageSize]
      exact hpage
    · rw [← hsized.pageSize]
  have hid := (h.sound.granted r alloc h.live).requestId
  have hholds := h.sound.holds.write (exclusive_address h.sound.separate) haddr (stored pool entry)
  rw [← hcells] at hholds
  have hafter : afterRow pool layer alloc entry page st = { st with
      pools := st.pools.insert alloc.modelId { pool with
        hostPages := some (pages.write layer page (entry.2 % pool.pageSize) (stored pool entry)) }
      written := Translation.remember st.written r (layer, entry.2) (stored pool entry) } := by
    unfold afterRow assignRow
    rw [hpool, hid]
    rfl
  have hassign : assignRow alloc.modelId layer page (entry.2 % pool.pageSize) (stored pool entry) st =
      { st with pools := st.pools.insert alloc.modelId { pool with
        hostPages := some (pages.write layer page (entry.2 % pool.pageSize) (stored pool entry)) } } := by
    unfold assignRow
    rw [hpool]
    rfl
  rw [hassign] at hholds
  rw [hafter]
  exact ⟨h.sound.repool hpool rfl hholds, h.live, _, AList.lookup_insert _⟩

end Rows

end HostStore
end PyptoServing.Memory
