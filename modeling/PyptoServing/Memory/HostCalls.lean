import PyptoServing.Lib.Fallible
import PyptoServing.Memory.HostReadback

/-!
# The calls of the host store

What each call leaves of the state, whether it returns or raises: the pages it takes or gives
back, the rows it writes, and the slots and rows it returns. Each of them keeps the invariant.
-/
namespace PyptoServing.Memory

open Lib KvCacheManager

variable {Row : Type}

namespace HostStore
variable {st st' : HostStore Row} {r : RequestId} {alloc : KvAllocation} {pool : CachePool Row}
  {m : ModelId}

theorem Sound.empty {manager : KvCacheManager}
    (hbal : ∃ free, GenericBalanced manager free fun _ => 0)
    (hunready : manager.numBlocks = 0 →
      manager.freeQueue = {} ∧ manager.hashToBlock = fun _ => none) :
    Sound ({ manager } : HostStore Row) := by
  refine ⟨?_, .empty, ?_, fun _ => rfl, ?_, ?_, hunready, ?_⟩
  · obtain ⟨free, hf⟩ := hbal
    exact ⟨free, hf.recount fun _ => rfl⟩
  · intro r b hb
    cases hb
  · intro r alloc hlook
    cases hlook
  · intro m pool hpool
    cases hpool
  · intro r k row hw
    cases hw

theorem sound_new (pyHash : PyHash) (blockSize : Nat) (enablePrefixCache : Bool)
    (numBlocks : Option Nat) :
    Sound (HostStore.new pyHash blockSize enablePrefixCache numBlocks : HostStore Row) := by
  have hinit := fun n => @GenericBalanced.initBlocks { pyHash, blockSize, enablePrefixCache } _
    n blockSize rfl rfl rfl rfl
  unfold HostStore.new
  cases numBlocks with
  | none => exact .empty ⟨_, (hinit 0).1⟩ fun _ => ⟨rfl, rfl⟩
  | some n =>
    refine .empty ⟨_, (hinit n).1⟩ fun hz => ?_
    cases n with
    | zero => exact ⟨rfl, rfl⟩
    | succ n => cases hz

theorem Sound.register {manager : KvCacheManager} (h : Sound st) (hnew : st.pools.lookup m = none)
    (hbal : ∃ free, GenericBalanced manager free st.holders)
    (hdims : 0 < st.manager.numBlocks → manager.blockSize = st.manager.blockSize ∧
      manager.numBlocks = st.manager.numBlocks)
    (hsized : Sized ({ st with manager } : HostStore Row) pool) :
    Sound { st with manager, pools := st.pools.insert m pool } := by
  refine ⟨hbal, h.separate, ?_, h.blocks, ?_, ?_, fun hz => ?_, ?_⟩
  · intro r b hb
    have hlt := h.inRange r b hb
    exact hlt.trans_eq (hdims (Nat.zero_lt_of_lt hlt)).2.symm
  · intro r alloc hlook
    have hgranted := h.granted r alloc hlook
    refine hgranted.congr (hdims (h.numBlocks_pos hgranted)).1 fun hreg => ?_
    dsimp only
    rwa [AList.lookup_insert_ne fun hm => by rw [hm, hnew] at hreg; cases hreg]
  · intro m' other hother
    dsimp only at hother
    by_cases hm : m' = m
    · subst hm
      rw [AList.lookup_insert] at hother
      cases hother
      exact hsized.congr rfl rfl
    · rw [AList.lookup_insert_ne hm] at hother
      have hother := h.sized m' other hother
      have hpos := hother.numPages_pos
      rw [hother.numPages] at hpos
      exact hother.congr (hdims hpos).1 (hdims hpos).2
  · have := hsized.numPages_pos
    rw [hsized.numPages] at this
    exact absurd hz this.ne'
  · refine h.holds.extend ?_ ?_
    · rintro r ⟨layer, p⟩ c hc
      obtain ⟨alloc, other, halloc, hother, hlayer, page, hpage, rfl⟩ := address_eq_some.mp hc
      have hsize := (hdims (h.numBlocks_pos (h.granted r alloc halloc))).1
      rw [address_eq_some]
      dsimp only
      rw [hsize]
      refine ⟨alloc, other, halloc, ?_, hlayer, page, hpage, rfl⟩
      rwa [AList.lookup_insert_ne fun hm => by rw [hm, hnew] at hother; cases hother]
    · rintro ⟨m', layer, page, offset⟩ row hc
      dsimp only [cells] at hc ⊢
      by_cases hm : m' = m
      · subst hm
        rw [hnew] at hc
        cases hc
      · rwa [AList.lookup_insert_ne hm]

/-- Nothing is allocated before the first model is registered. -/
theorem Sound.holders_unready (h : Sound st) (hz : st.manager.numBlocks = 0) :
    st.holders = fun _ => 0 := by
  funext b
  unfold holders
  refine Dict.weight_eq_zero fun r alloc hlook => ?_
  exact absurd hz (h.numBlocks_pos (h.granted r alloc hlook)).ne'

/-- A model that is registered anew gets a pool of the manager's dimensions. -/
theorem exec_registerModel (m : ModelId) (model : ModelCache Row) (numPages : Option Nat)
    (st : HostStore Row) :
    ((registerModel m model numPages).exec st).2 = st ∨
    ∃ manager, st.pools.lookup m = none ∧ 0 < model.pageSize ∧ 0 < pageCount model numPages ∧
      st.manager.initBlocks (pageCount model numPages) model.pageSize = .ok manager ∧
      ((registerModel m model numPages).exec st).2 = { st with
        manager
        pools := st.pools.insert m (newPool model (pageCount model numPages)) } := by
  unfold registerModel
  dsimp only
  split
  · exact .inl rfl
  next hsize =>
  split
  · exact .inl rfl
  next hnum =>
  rw [Raising.exec_bind, Raising.exec_get]
  dsimp only
  cases hpool : st.pools.lookup m with
  | some pool =>
    dsimp only
    split <;> exact .inl rfl
  | none =>
    dsimp only
    rw [Raising.exec_bind, Raising.exec_get]
    dsimp only
    cases hinit : st.manager.initBlocks (pageCount model numPages) model.pageSize with
    | error error => exact .inl rfl
    | ok manager =>
      exact .inr ⟨manager, rfl, Nat.pos_of_ne_zero hsize, Nat.pos_of_ne_zero hnum, rfl, rfl⟩

theorem Sound.registerModel {model : ModelCache Row} {numPages : Option Nat} (h : Sound st) :
    Sound ((HostStore.registerModel m model numPages).exec st).2 := by
  obtain heq | ⟨manager, hnew, hsize, hnum, hinit, heq⟩ := exec_registerModel m model numPages st
  · rwa [heq]
  rw [heq]
  by_cases hz : st.manager.numBlocks = 0
  · obtain ⟨hqueue, hindex⟩ := h.unready hz
    obtain ⟨hbal, hblocks, -⟩ := GenericBalanced.initBlocks hz hqueue hindex hinit
    refine h.register hnew ⟨_, hbal.recount fun b => ?_⟩ (fun hlt => absurd hz hlt.ne')
      ⟨?_, hblocks.symm, hsize, hnum⟩
    · rw [h.holders_unready hz]
    · unfold KvCacheManager.initBlocks at hinit
      rw [if_neg (by simp [hz])] at hinit
      cases hinit
      rfl
  · unfold KvCacheManager.initBlocks at hinit
    rw [if_pos hz] at hinit
    split at hinit
    · cases hinit
    · next hsame =>
      cases hinit
      rw [not_or, not_not, not_not] at hsame
      exact h.register hnew h.balanced (fun _ => ⟨rfl, rfl⟩)
        ⟨hsame.2.symm, hsame.1.symm, hsize, hnum⟩

theorem exec_pool (h : st.pools.lookup m = some pool) :
    (HostStore.pool m).exec st = (.ok pool, st) := by
  unfold HostStore.pool
  rw [Raising.exec_bind, Raising.exec_get]
  dsimp only
  rw [h]
  rfl

theorem exec_pool_unregistered (h : st.pools.lookup m = none) :
    ∃ e, (HostStore.pool m : HostM Row _).exec st = (.error e, st) := by
  unfold HostStore.pool
  rw [Raising.exec_bind, Raising.exec_get]
  dsimp only
  rw [h]
  exact ⟨_, rfl⟩

theorem exec_allocation (h : st.allocations.lookup r = some alloc) :
    (allocation r).exec st = (.ok alloc, st) := by
  unfold allocation
  rw [Raising.exec_bind, Raising.exec_get]
  dsimp only
  rw [h]
  rfl

/-- The free blocks that an allocation takes. -/
structure Taken (st : HostStore Row) (ids : List BlockId) (manager : KvCacheManager) : Prop where
  nodup : ids.Nodup
  free : ∀ b ∈ ids, b < st.manager.numBlocks ∧ st.holders b = 0
  dims : SameDims st.manager manager
  balanced : ∃ free, GenericBalanced manager free fun b => st.holders b + ids.count b

/-- Blocks are handed out, or the state stays. -/
theorem exec_allocateBlocks {n : Nat} (h : Sound st) :
    (allocateBlocks n).exec st = (.ok none, st) ∨
    ∃ ids manager, (allocateBlocks n).exec st = (.ok (some ids), { st with manager }) ∧
      Taken st ids manager := by
  have hexec : (allocateBlocks n).exec st = (.ok (st.manager.allocateBlockIds n).1,
    { st with manager := (st.manager.allocateBlockIds n).2 }) := rfl
  rw [hexec]
  obtain ⟨free, hbal⟩ := h.balanced
  rcases hr : st.manager.allocateBlockIds n with ⟨res, manager⟩
  obtain ⟨hdims, ⟨rfl, rfl⟩ | ⟨ids, rfl, -, hnd, hfree, hbal'⟩⟩ := hbal.allocateBlockIds hr
  · exact .inl rfl
  · exact .inr ⟨ids, manager, rfl, hnd, hfree, hdims, _, hbal'⟩

/-- A live request's model is registered. -/
theorem Sound.pool_of_live (h : Sound st) (hlive : st.allocations.lookup r = some alloc) :
    ∃ pool, st.pools.lookup alloc.modelId = some pool ∧ pool.pageSize = st.manager.blockSize ∧
      pool.numPages = st.manager.numBlocks ∧ 0 < pool.pageSize := by
  obtain ⟨pool, hpool⟩ := Option.isSome_iff_exists.mp (h.granted r alloc hlive).registered
  have hsized := h.sized _ pool hpool
  exact ⟨pool, hpool, hsized.pageSize, hsized.numPages, hsized.pageSize_pos⟩

theorem exec_slotMapping {idx : Option Nat} (hlive : st.allocations.lookup r = some alloc)
    (hpool : st.pools.lookup alloc.modelId = some pool) :
    (slotMappingForRequest r idx).exec st =
      ((pageOf alloc pool.pageSize (idx.getD alloc.tokensUsed)).map fun found =>
        found.1 * pool.pageSize + found.2, st) := by
  unfold slotMappingForRequest
  rw [Raising.exec_bind_ok (exec_allocation hlive), Raising.exec_bind_ok (exec_pool hpool),
    Raising.exec_bind, Raising.exec_ofExcept]
  cases pageOf alloc pool.pageSize (idx.getD alloc.tokensUsed) <;> rfl

/-- Computing a slot changes nothing. -/
theorem exec_slotMapping_snd (r : RequestId) (idx : Option Nat) (st : HostStore Row) :
    ((slotMappingForRequest r idx).exec st).2 = st := by
  cases hlive : st.allocations.lookup r with
  | none =>
    unfold slotMappingForRequest allocation
    rw [Raising.exec_bind, Raising.exec_bind, Raising.exec_get]
    dsimp only
    rw [hlive]
    rfl
  | some alloc =>
    cases hpool : st.pools.lookup alloc.modelId with
    | none =>
      obtain ⟨e, he⟩ := exec_pool_unregistered hpool
      unfold slotMappingForRequest
      rw [Raising.exec_bind_ok (exec_allocation hlive), Raising.exec_bind_error he]
    | some pool => rw [exec_slotMapping hlive hpool]

theorem Sound.blocks_insert {ids : List BlockId} (h : Sound st) (r' : RequestId)
    (hids : alloc.pageIds = ids) : (st.requestBlocks.insert r ids).lookup r' =
      ((st.allocations.insert r alloc).lookup r').map (·.pageIds) := by
  by_cases hr : r' = r
  · rw [hr, AList.lookup_insert, AList.lookup_insert, ← hids]
    rfl
  · rw [AList.lookup_insert_ne hr, AList.lookup_insert_ne hr]
    exact h.blocks r'

theorem exec_allocateForPrompt (m : ModelId) (r : RequestId) (promptLen : Nat) (h : Sound st) :
    ((allocateForPrompt m r promptLen).exec st).2 = st ∨
    ∃ pool ids manager, st.pools.lookup m = some pool ∧ Taken st ids manager ∧
      ((allocateForPrompt m r promptLen).exec st).2 = { st with
        manager
        requestBlocks := st.requestBlocks.insert r ids
        allocations := st.allocations.insert r
          { requestId := r
            modelId := m
            pageIds := ids
            tokensCapacity := ids.length * pool.pageSize } } := by
  unfold allocateForPrompt
  cases hpool : st.pools.lookup m with
  | none =>
    obtain ⟨e, he⟩ := exec_pool_unregistered hpool
    rw [Raising.exec_bind_error he]
    exact .inl rfl
  | some pool =>
    rw [Raising.exec_bind_ok (exec_pool hpool)]
    dsimp only
    obtain hnone | ⟨ids, manager, hok, htaken⟩ := exec_allocateBlocks h
    · rw [Raising.exec_bind_ok hnone]
      exact .inl rfl
    · rw [Raising.exec_bind_ok hok]
      exact .inr ⟨pool, ids, manager, rfl, htaken, rfl⟩

theorem exec_ensureOneMoreSlot (h : Sound st) (hlive : st.allocations.lookup r = some alloc) :
    ((ensureOneMoreSlot r).exec st).2 = st ∨
    ∃ ids manager, Taken st ids manager ∧
      ((ensureOneMoreSlot r).exec st).2 = { st with
        manager
        requestBlocks := st.requestBlocks.insert r (alloc.pageIds ++ ids)
        allocations := st.allocations.insert r { alloc with
          pageIds := alloc.pageIds ++ ids
          tokensCapacity := (alloc.pageIds ++ ids).length * st.manager.blockSize } } := by
  obtain ⟨pool, hpool, hsize, -, -⟩ := h.pool_of_live hlive
  unfold ensureOneMoreSlot
  rw [Raising.exec_bind_ok (exec_allocation hlive), Raising.exec_bind_ok (exec_pool hpool)]
  split
  · exact .inl (exec_slotMapping_snd ..)
  · obtain hnone | ⟨ids, manager, hok, htaken⟩ := exec_allocateBlocks h
    · rw [Raising.exec_bind_ok hnone]
      exact .inl rfl
    · rw [Raising.exec_bind_ok hok]
      dsimp only
      rw [Raising.exec_bind, Raising.exec_modify]
      dsimp only
      have hold : (st.requestBlocks.lookup alloc.requestId).getD [] = alloc.pageIds := by
        rw [(h.granted r alloc hlive).requestId, h.blocks r, hlive]
        rfl
      rw [exec_slotMapping_snd, hold, (h.granted r alloc hlive).requestId, hsize]
      exact .inr ⟨ids, manager, htaken, rfl⟩

theorem Sound.allocateForPrompt {promptLen : Nat} (h : Sound st)
    (hnew : st.allocations.lookup r = none) :
    Sound ((HostStore.allocateForPrompt m r promptLen).exec st).2 := by
  obtain heq | ⟨pool, ids, manager, hpool, htaken, heq⟩ :=
    exec_allocateForPrompt m r promptLen h
  · rwa [heq]
  rw [heq]
  have hsized := h.sized m pool hpool
  refine h.grow htaken.dims htaken.balanced htaken.nodup htaken.free rfl rfl rfl ?_ ?_
    ⟨rfl, ?_, ?_⟩ ?_
  · exact fun r' => h.blocks_insert r' rfl
  · rw [tables_of_dead hnew, List.nil_append]
  · dsimp only
    rw [hsized.pageSize]
  · dsimp only
    rw [hpool]
    rfl
  · intro old hold
    rw [hnew] at hold
    cases hold

theorem Sound.ensureOneMoreSlot (h : Sound st) (hlive : st.allocations.lookup r = some alloc) :
    Sound ((HostStore.ensureOneMoreSlot r).exec st).2 := by
  have hgranted := h.granted r alloc hlive
  obtain heq | ⟨ids, manager, htaken, heq⟩ := exec_ensureOneMoreSlot h hlive
  · rwa [heq]
  rw [heq]
  refine h.grow htaken.dims htaken.balanced htaken.nodup htaken.free rfl rfl rfl ?_ ?_
    ⟨hgranted.requestId, rfl, hgranted.registered⟩ ?_
  · exact fun r' => h.blocks_insert r' rfl
  · rw [tables_of_live hlive]
  · intro old hold
    rw [hlive] at hold
    cases hold
    rfl

theorem tables_erase (halloc : st'.allocations = st.allocations.erase r) :
    st'.tables = Function.update st.tables r [] := by
  funext r'
  rw [Function.update_apply, tables, halloc]
  split
  · next hr =>
    rw [hr, AList.lookup_erase]
    rfl
  · next hr =>
    rw [AList.lookup_erase_ne hr]
    rfl

theorem exec_free (h : Sound st) (hlive : st.allocations.lookup r = some alloc) :
    ((free r).exec st).2 = { st with
      manager := st.manager.releaseBlocksByIds (st.tables r)
      requestBlocks := st.requestBlocks.erase r
      allocations := st.allocations.erase r
      written := Translation.forget st.written r } := by
  have hblocks : (st.requestBlocks.lookup r).getD [] = st.tables r := by
    rw [h.blocks r]
    rfl
  unfold free
  rw [Raising.exec_bind_ok (exec_allocation hlive), (h.granted r alloc hlive).requestId, ← hblocks]
  rfl

theorem Sound.free (h : Sound st) (hlive : st.allocations.lookup r = some alloc) :
    Sound ((HostStore.free r).exec st).2 := by
  obtain ⟨free, hbal⟩ := h.balanced
  obtain ⟨free', hbal', hdims⟩ := hbal.releaseBlocksByIds (h.inRange r) (count_le_holders st r)
  rw [exec_free h hlive]
  have htables : HostStore.tables { st with
      manager := st.manager.releaseBlocksByIds (st.tables r)
      requestBlocks := st.requestBlocks.erase r
      allocations := st.allocations.erase r
      written := Translation.forget st.written r } = Function.update st.tables r [] :=
    tables_erase rfl
  have hold : ∀ r' alloc', (st.allocations.erase r).lookup r' = some alloc' →
      r' ≠ r ∧ st.allocations.lookup r' = some alloc' := by
    intro r' alloc' hlook
    by_cases hr : r' = r
    · rw [hr, AList.lookup_erase] at hlook
      cases hlook
    · rw [AList.lookup_erase_ne hr] at hlook
      exact ⟨hr, hlook⟩
  refine ⟨⟨free', hbal'.recount fun b => ?_⟩, ?_, fun r' b hb => ?_, fun r' => ?_,
    fun r' alloc' hlook => ?_, fun m' pool hpool => ?_, fun hz => ?_, ?_⟩
  · have hweight := Dict.weight_erase (fun a : KvAllocation => a.pageIds.count b) st.allocations r
    rw [hlive, Option.map_some, Option.getD_some] at hweight
    unfold holders
    dsimp only
    rw [tables_of_live hlive]
    omega
  · rw [htables]
    exact h.separate.drop r
  · rw [htables, Function.update_apply] at hb
    dsimp only
    rw [hdims.numBlocks]
    split at hb
    · cases hb
    · exact h.inRange r' b hb
  · dsimp only
    by_cases hr : r' = r
    · rw [hr, AList.lookup_erase, AList.lookup_erase]
      rfl
    · rw [AList.lookup_erase_ne hr, AList.lookup_erase_ne hr]
      exact h.blocks r'
  · exact (h.granted r' alloc' (hold r' alloc' hlook).2).congr hdims.blockSize id
  · exact (h.sized m' pool hpool).congr hdims.blockSize hdims.numBlocks
  · dsimp only at hz
    rw [hdims.numBlocks] at hz
    exact absurd hz (h.numBlocks_pos (h.granted r alloc hlive)).ne'
  · refine h.holds.forget fun r' k hr => ?_
    obtain ⟨layer, p⟩ := k
    unfold address
    dsimp only
    rw [AList.lookup_erase_ne hr, hdims.blockSize, htables]
    unfold Translation.locate
    rw [Function.update_of_ne hr]

/-- The pages of a model are there after their first access. -/
theorem exec_ensureHostPool (h : Sound st) (hpool : st.pools.lookup m = some pool) :
    ∃ pages st', (ensureHostPool m).exec st = (.ok { pool with hostPages := some pages }, st') ∧
      Sound st' ∧ st'.pools.lookup m = some { pool with hostPages := some pages } ∧
      st'.allocations = st.allocations ∧ st'.written = st.written := by
  unfold ensureHostPool
  rw [Raising.exec_bind_ok (exec_pool hpool)]
  cases hpages : pool.hostPages with
  | some pages =>
    have hsame : pool = { pool with hostPages := some pages } := by rw [← hpages]
    exact ⟨pages, st, by rw [← hsame]; rfl, h, by rw [← hsame, hpool], rfl, rfl⟩
  | none =>
    refine ⟨_, _, rfl, h.repool hpool rfl ?_, AList.lookup_insert _, rfl, rfl⟩
    refine h.holds.extend (fun _ _ _ hc => hc) ?_
    rintro ⟨m', layer, page, offset⟩ row hc
    dsimp only [cells] at hc ⊢
    by_cases hm : m' = m
    · rw [hm, hpool, Option.bind_some, hpages] at hc
      cases hc
    · rwa [AList.lookup_insert_ne hm]

theorem Writing.rows (h : Writing pool r alloc st) (layer : Nat)
    (entries : List ((Row × Row) × Nat)) :
    Writing pool r alloc ((entries.forM (writeRow pool layer alloc)).exec st).2 := by
  refine (Raising.Keeps.forM (I := Writing pool r alloc) (fun entry _ => ?_) st h).1
  intro st hst
  obtain ⟨e, he⟩ | ⟨page, hpage, hlayer, -, hok⟩ := exec_writeRow pool layer alloc entry st
  · change Writing pool r alloc (Raising.exec _ st).2 ∧ ∀ a, (Raising.exec _ st).1 = .ok a → True
    rw [he]
    exact ⟨hst, fun _ _ => trivial⟩
  · change Writing pool r alloc (Raising.exec _ st).2 ∧ ∀ a, (Raising.exec _ st).1 = .ok a → True
    rw [hok]
    exact ⟨hst.next hpage hlayer, fun _ _ => trivial⟩

/-- Counting the tokens does not touch the pages. -/
theorem Sound.setUsed (h : Sound st) (hlive : st.allocations.lookup r = some alloc) (used : Nat) :
    Sound { st with allocations := st.allocations.insert r { alloc with tokensUsed := used } } := by
  have hgranted := h.granted r alloc hlive
  obtain ⟨free, hbal⟩ := h.balanced
  have hnil : ([] : List BlockId).Nodup := List.nodup_nil
  refine h.grow (.refl _) ⟨free, hbal.recount fun b => by simp⟩ hnil (by simp) rfl rfl rfl (fun r' => ?_) ?_ ⟨hgranted.requestId, hgranted.capacity,
    hgranted.registered⟩ ?_
  · dsimp only
    by_cases hr : r' = r
    · rw [hr, AList.lookup_insert, h.blocks r, hlive]
      rfl
    · rw [AList.lookup_insert_ne hr]
      exact h.blocks r'
  · rw [tables_of_live hlive, List.append_nil]
  · intro old hold
    rw [hlive] at hold
    cases hold
    rfl

/-- What the rows of a call leave of each position. -/
def entryRows (pool : CachePool Row) (layer : Nat) (entries : List ((Row × Row) × Nat)) :
    List ((Nat × Nat) × (Row × Row)) :=
  entries.map fun entry => ((layer, entry.2), stored pool entry)

/-- The loop writes the rows up to one without a page, and all of them when it returns. -/
theorem exec_rows (pool : CachePool Row) (alloc : KvAllocation) (layer : Nat)
    (entries : List ((Row × Row) × Nat)) (st : HostStore Row) :
    ∃ done, done <+: entries ∧
      ((entries.forM (writeRow pool layer alloc)).exec st).2.allocations = st.allocations ∧
      ((entries.forM (writeRow pool layer alloc)).exec st).2.written =
        Translation.rememberAll st.written alloc.requestId (entryRows pool layer done) ∧
      (∀ entry ∈ done, entry.2 / pool.pageSize < alloc.pageIds.length) ∧
      (((entries.forM (writeRow pool layer alloc)).exec st).1 = .ok () → done = entries) := by
  induction entries generalizing st with
  | nil => exact ⟨[], List.prefix_rfl, rfl, rfl, by simp, fun _ => rfl⟩
  | cons entry entries ih =>
    obtain ⟨e, he⟩ | ⟨page, hpage, -, -, hok⟩ := exec_writeRow pool layer alloc entry st
    · refine ⟨[], List.nil_prefix, ?_⟩
      rw [Raising.forM_cons, Raising.exec_bind_error he]
      exact ⟨rfl, rfl, by simp, fun h => by cases h⟩
    · obtain ⟨done, hpre, halloc, hwritten, hbound, hdone⟩ := ih (afterRow pool layer alloc entry page st)
      refine ⟨entry :: done, (List.prefix_cons_inj entry).mpr hpre, ?_⟩
      rw [Raising.forM_cons, Raising.exec_bind_ok hok]
      refine ⟨halloc.trans ?_, hwritten, fun other hother => ?_, fun h => by rw [hdone h]⟩
      · unfold afterRow assignRow
        dsimp only
        split <;> rfl
      · rcases List.mem_cons.mp hother with rfl | hother
        · exact (List.getElem?_eq_some_iff.mp hpage).1
        · exact hbound other hother

/-- A call that writes: from some pages of its pool on the rows are written, and the tokens
are counted if that returns. -/
theorem writeTokens_eq (layer start : Nat) (keys values : List Row) (h : Sound st)
    (hlive : st.allocations.lookup r = some alloc) :
    ∃ pool st₁, Writing pool r alloc st₁ ∧ st₁.allocations = st.allocations ∧
      st₁.written = st.written ∧ pool.pageSize = st.manager.blockSize ∧
      (st.pools.lookup alloc.modelId).map (·.toKvDtype) = some pool.toKvDtype ∧
      (writeTokens layer r start keys values).exec st =
        if keys.length ≠ values.length then
          (.error (.value "keys and values must have the same shape"), st₁)
        else (do
          ((keys.zip values).zipIdx start).forM (writeRow pool layer alloc)
          modify fun st => { st with
            allocations := st.allocations.insert r
              { alloc with tokensUsed := max alloc.tokensUsed (start + keys.length) } } :
            HostM Row Unit).exec st₁ := by
  obtain ⟨pool, hpool, hsize, -⟩ := h.pool_of_live hlive
  obtain ⟨pages, st₁, hexec, hsound, hpages, halloc, hwritten⟩ := exec_ensureHostPool h hpool
  refine ⟨{ pool with hostPages := some pages }, st₁, ⟨hsound, ?_, pages, hpages⟩, halloc, hwritten,
    hsize, by rw [hpool]; rfl, ?_⟩
  · rw [halloc, hlive]
  · unfold writeTokens
    rw [Raising.exec_bind_ok (exec_allocation hlive), Raising.exec_bind_ok hexec]
    split <;> rfl

theorem Sound.writeTokens {layer start : Nat} {keys values : List Row} (h : Sound st)
    (hlive : st.allocations.lookup r = some alloc) :
    Sound ((HostStore.writeTokens layer r start keys values).exec st).2 := by
  obtain ⟨pool, st₁, hw, -, -, -, -, heq⟩ := writeTokens_eq layer start keys values h hlive
  rw [heq]
  split
  · exact hw.sound
  · have hrows := hw.rows layer ((keys.zip values).zipIdx start)
    rcases hrun : (((keys.zip values).zipIdx start).forM (writeRow pool layer alloc)).exec st₁ with
      ⟨e | _, st₂⟩
    · rw [Raising.exec_bind_error hrun]
      rw [hrun] at hrows
      exact hrows.sound
    · rw [Raising.exec_bind_ok hrun]
      rw [hrun] at hrows
      exact hrows.sound.setUsed hrows.live _

/-- Reading: the rows behind the positions, from the pages of the pool. -/
theorem readContext_eq (layer : Nat) (upto : Option Nat) (h : Sound st)
    (hlive : st.allocations.lookup r = some alloc) :
    ∃ pool pages st₁, Sound st₁ ∧ st₁.pools.lookup alloc.modelId = some pool ∧
      pool.hostPages = some pages ∧ st₁.allocations = st.allocations ∧ st₁.written = st.written ∧
      (st.pools.lookup alloc.modelId).map (·.numLayers) = some pool.numLayers ∧
      (readContext layer r upto).exec st =
        (((List.range (upto.getD alloc.tokensUsed)).mapM (readRow pool layer alloc)).map List.unzip,
          st₁) := by
  obtain ⟨pool, hpool, -⟩ := h.pool_of_live hlive
  obtain ⟨pages, st₁, hexec, hsound, hpages, halloc, hwritten⟩ := exec_ensureHostPool h hpool
  refine ⟨{ pool with hostPages := some pages }, pages, st₁, hsound, hpages, rfl, halloc, hwritten,
    by rw [hpool]; rfl, ?_⟩
  unfold readContext
  rw [Raising.exec_bind_ok (exec_allocation hlive), Raising.exec_bind_ok hexec]
  dsimp only
  rw [Raising.exec_bind, Raising.exec_ofExcept]
  cases (List.range (upto.getD alloc.tokensUsed)).mapM
    (readRow { pool with hostPages := some pages } layer alloc) <;> rfl

/-- What a writing call leaves: the rows before the first one without a page, and the count of
the tokens when it returns. -/
theorem exec_writeTokens (layer start : Nat) (keys values : List Row) (h : Sound st)
    (hlive : st.allocations.lookup r = some alloc) :
    ∃ pool done, (st.pools.lookup alloc.modelId).map (·.toKvDtype) = some pool.toKvDtype ∧
      pool.pageSize = st.manager.blockSize ∧ done <+: (keys.zip values).zipIdx start ∧
      (∀ entry ∈ done, entry.2 / pool.pageSize < alloc.pageIds.length) ∧
      ((writeTokens layer r start keys values).exec st).2.written =
        Translation.rememberAll st.written r (entryRows pool layer done) ∧
      ((((writeTokens layer r start keys values).exec st).1 ≠ .ok () ∧
        ((writeTokens layer r start keys values).exec st).2.allocations = st.allocations) ∨
      (((writeTokens layer r start keys values).exec st).1 = .ok () ∧
        done = (keys.zip values).zipIdx start ∧ keys.length = values.length ∧
        ((writeTokens layer r start keys values).exec st).2.allocations =
          st.allocations.insert r
            { alloc with tokensUsed := max alloc.tokensUsed (start + keys.length) })) := by
  obtain ⟨pool, st₁, hw, halloc, hwritten, hsize, hconv, heq⟩ :=
    writeTokens_eq layer start keys values h hlive
  have hid := (h.granted r alloc hlive).requestId
  rw [heq]
  split
  · exact ⟨pool, [], hconv, hsize, List.nil_prefix, by simp, hwritten,
      .inl ⟨fun h => (by cases h), halloc⟩⟩
  · next hlen =>
    obtain ⟨done, hpre, hal, hwr, hbound, hdone⟩ :=
      exec_rows pool alloc layer ((keys.zip values).zipIdx start) st₁
    refine ⟨pool, done, hconv, hsize, hpre, hbound, ?_⟩
    rcases hrun : (((keys.zip values).zipIdx start).forM (writeRow pool layer alloc)).exec st₁ with
      ⟨e | _, st₂⟩
    · rw [Raising.exec_bind_error hrun]
      rw [hrun, hid, hwritten] at hwr
      rw [hrun, halloc] at hal
      exact ⟨hwr, .inl ⟨fun h => (by cases h), hal⟩⟩
    · rw [Raising.exec_bind_ok hrun]
      rw [hrun, hid, hwritten] at hwr
      rw [hrun, halloc] at hal
      dsimp only at hal
      rw [hrun] at hdone
      refine ⟨hwr, .inr ⟨rfl, hdone rfl, not_not.mp hlen, ?_⟩⟩
      rw [Raising.exec_modify]
      dsimp only
      rw [hal]

section Reading
variable {layer p : Nat} {pages : HostPages Row} {row : Row × Row}

/-- A position below the capacity is read. -/
theorem readRow_total (h : Sound st) (hlive : st.allocations.lookup r = some alloc)
    (hpool : st.pools.lookup alloc.modelId = some pool) (hlayer : layer < pool.numLayers)
    (hp : p < alloc.tokensCapacity) : ∃ row, readRow pool layer alloc p = .ok row := by
  have hsized := h.sized _ pool hpool
  rw [(h.granted r alloc hlive).capacity, ← hsized.pageSize] at hp
  obtain ⟨page, hpage, hof⟩ := pageOf_of_lt hp
  have hlt : page < pool.numPages := by
    rw [hsized.numPages]
    refine h.inRange r page ?_
    rw [tables_of_live hlive]
    exact List.mem_of_getElem? hpage
  unfold readRow
  rw [hof]
  exact ⟨_, if_pos ⟨hlayer, hlt⟩⟩

/-- A written position has a page. -/
theorem Sound.written_within (h : Sound st) (hlive : st.allocations.lookup r = some alloc)
    (hpool : st.pools.lookup alloc.modelId = some pool) (hw : st.written r (layer, p) = some row) :
    layer < pool.numLayers ∧ p < alloc.tokensCapacity := by
  obtain ⟨c, hc, -⟩ := h.holds r (layer, p) row hw
  obtain ⟨alloc', pool', hlive', hpool', hlayer, page, hpage, -⟩ := address_eq_some.mp hc
  rw [hlive] at hlive'
  cases hlive'
  rw [hpool] at hpool'
  cases hpool'
  have hsized := h.sized _ pool hpool
  refine ⟨hlayer, ?_⟩
  rw [← hsized.pageSize] at hpage
  rw [(h.granted r alloc hlive).capacity, ← hsized.pageSize,
    ← Nat.div_lt_iff_lt_mul hsized.pageSize_pos]
  exact (List.getElem?_eq_some_iff.mp hpage).1

/-- The cell of a written position has the last row. -/
theorem readRow_written (h : Sound st) (hlive : st.allocations.lookup r = some alloc)
    (hpool : st.pools.lookup alloc.modelId = some pool) (hpages : pool.hostPages = some pages)
    (hw : st.written r (layer, p) = some row) : readRow pool layer alloc p = .ok row := by
  obtain ⟨c, hc, hcell⟩ := h.holds r (layer, p) row hw
  obtain ⟨alloc', pool', hlive', hpool', hlayer, page, hpage, rfl⟩ := address_eq_some.mp hc
  rw [hlive] at hlive'
  cases hlive'
  rw [hpool] at hpool'
  cases hpool'
  have hsized := h.sized _ pool hpool
  rw [cells_of_pages hpool hpages] at hcell
  rw [← hsized.pageSize] at hpage hcell
  have hlt : page < pool.numPages := by
    rw [hsized.numPages]
    refine h.inRange r page ?_
    rw [tables_of_live hlive]
    exact List.mem_of_getElem? hpage
  unfold readRow
  rw [pageOf_eq_ok.mpr ⟨hpage, rfl⟩]
  refine (if_pos ⟨hlayer, hlt⟩).trans ?_
  rw [hpages]
  exact congrArg Except.ok (Option.some.inj hcell)

/-- A read returns the last rows that were written. -/
theorem readContext_written {upto : Option Nat} {keys values : List Row} (h : Sound st)
    (hlive : st.allocations.lookup r = some alloc)
    (hread : ((readContext layer r upto).exec st).1 = .ok (keys, values)) :
    keys.length = upto.getD alloc.tokensUsed ∧ values.length = upto.getD alloc.tokensUsed ∧
      ∀ p < upto.getD alloc.tokensUsed, ∀ row, st.written r (layer, p) = some row →
        keys[p]? = some row.1 ∧ values[p]? = some row.2 := by
  obtain ⟨pool, pages, st₁, hsound, hpool, hpages, halloc, hwritten, -, heq⟩ :=
    readContext_eq layer upto h hlive
  rw [heq] at hread
  cases hrows : (List.range (upto.getD alloc.tokensUsed)).mapM (readRow pool layer alloc) with
  | error e =>
    rw [hrows] at hread
    cases hread
  | ok rows =>
    rw [hrows] at hread
    have hunzip : rows.unzip = (keys, values) := Except.ok.inj hread
    rw [List.unzip_eq_map] at hunzip
    obtain ⟨rfl, rfl⟩ := Prod.mk.inj hunzip
    have hlen := (Fallible.mapM_eq_ok.mp hrows).length_eq
    rw [List.length_range] at hlen
    refine ⟨?_, ?_, fun p hp row hrow => ?_⟩
    · rw [hlen, List.length_map]
    · rw [hlen, List.length_map]
    · obtain ⟨row', hget, hread'⟩ := Fallible.mapM_get hrows (List.getElem?_range hp)
      rw [← hwritten] at hrow
      rw [← halloc] at hlive
      rw [readRow_written hsound hlive hpool hpages hrow] at hread'
      cases hread'
      rw [List.getElem?_map, List.getElem?_map, hget]
      exact ⟨rfl, rfl⟩

theorem readContext_total {upto : Option Nat} (h : Sound st)
    (hlive : st.allocations.lookup r = some alloc) (hpool : st.pools.lookup alloc.modelId = some pool)
    (hlayer : layer < pool.numLayers) (hupto : upto.getD alloc.tokensUsed ≤ alloc.tokensCapacity) :
    ∃ keys values, ((readContext layer r upto).exec st).1 = .ok (keys, values) := by
  obtain ⟨pool', pages, st₁, hsound, hpool', hpages, halloc, hwritten, hlayers, heq⟩ :=
    readContext_eq layer upto h hlive
  rw [heq]
  rw [hpool, Option.map_some, Option.some.injEq] at hlayers
  obtain ⟨rows, hrows, -⟩ := Fallible.mapM_total (R := fun _ _ => True)
    (l := List.range (upto.getD alloc.tokensUsed)) (f := readRow pool' layer alloc) fun p hp => by
      obtain ⟨row, hrow⟩ := readRow_total hsound (halloc ▸ hlive) hpool' (hlayers ▸ hlayer)
        ((List.mem_range.mp hp).trans_le hupto)
      exact ⟨row, hrow, trivial⟩
  rw [hrows]
  exact ⟨_, _, rfl⟩

end Reading

section Remembered
variable {layer start p : Nat} {keys values : List Row} {row : Row × Row}

theorem entryRows_nodup (pool : CachePool Row) (layer start : Nat) (rows : List (Row × Row)) :
    ((entryRows pool layer (rows.zipIdx start)).map (·.1)).Nodup := by
  have hsnd : (entryRows pool layer (rows.zipIdx start)).map (·.1) =
      ((rows.zipIdx start).map (·.2)).map fun p => (layer, p) := by
    unfold entryRows
    rw [List.map_map, List.map_map]
    rfl
  rw [hsnd, List.zipIdx_map_snd]
  exact List.Nodup.map (fun p p' h => congrArg Prod.snd h) List.nodup_range'

/-- The positions of a write. -/
theorem mem_entryRows {pool : CachePool Row} {l : Nat} (h : ((l, p), row) ∈
    entryRows pool layer ((keys.zip values).zipIdx start)) :
    l = layer ∧ start ≤ p ∧ p < start + keys.length := by
  obtain ⟨⟨kv, t⟩, hmem, heq⟩ := List.mem_map.mp h
  obtain ⟨hstart, hlt, -⟩ := List.mem_zipIdx hmem
  rw [List.length_zip] at hlt
  cases heq
  refine ⟨rfl, hstart, ?_⟩
  dsimp only at hlt ⊢
  omega

theorem exists_last_entry (start : Nat) (hlen : keys.length = values.length) (hrows : keys ≠ []) :
    ∃ entry ∈ (keys.zip values).zipIdx start, entry.2 + 1 = start + keys.length := by
  have hpos := List.length_pos_of_ne_nil hrows
  have hlt : keys.length - 1 < ((keys.zip values).zipIdx start).length := by
    rw [List.length_zipIdx, List.length_zip]
    omega
  refine ⟨_, List.getElem_mem hlt, ?_⟩
  rw [List.getElem_zipIdx]
  dsimp only
  omega

/-- A write that returns is remembered, each row converted, and nothing else changes. -/
theorem writeTokens_written (h : Sound st) (hlive : st.allocations.lookup r = some alloc)
    (hpool : st.pools.lookup alloc.modelId = some pool)
    (hok : ((writeTokens layer r start keys values).exec st).1 = .ok ()) :
    keys.length = values.length ∧
    (∀ i key value, keys[i]? = some key → values[i]? = some value →
      ((writeTokens layer r start keys values).exec st).2.written r (layer, start + i) =
        some (pool.toKvDtype key, pool.toKvDtype value)) ∧
    ∀ l p, ¬ (l = layer ∧ start ≤ p ∧ p < start + keys.length) →
      ((writeTokens layer r start keys values).exec st).2.written r (l, p) = st.written r (l, p) := by
  obtain ⟨pool', done, hconv, -, -, -, hwritten, ⟨hne, -⟩ | ⟨-, rfl, hlen, -⟩⟩ :=
    exec_writeTokens layer start keys values h hlive
  · exact absurd hok hne
  rw [hpool, Option.map_some, Option.some.injEq] at hconv
  rw [hwritten]
  refine ⟨hlen, fun i key value hkey hvalue => ?_, fun l p hout => ?_⟩
  · refine Translation.rememberAll_mem (entryRows_nodup ..) ?_
    refine List.mem_map.mpr ⟨((key, value), start + i), ?_, ?_⟩
    · rw [List.mk_mem_zipIdx_iff_le_and_getElem?_sub]
      refine ⟨Nat.le_add_right .., ?_⟩
      rw [Nat.add_sub_cancel_left, List.getElem?_zip_eq_some]
      exact ⟨hkey, hvalue⟩
    · rw [stored, hconv]
  · refine Translation.rememberAll_not_mem fun hmem => hout ?_
    obtain ⟨⟨⟨l', p'⟩, row⟩, hrow, heq⟩ := List.mem_map.mp hmem
    cases heq
    exact mem_entryRows hrow

end Remembered

/-- A slot belongs to one position of one request. -/
theorem slot_owner {r' : RequestId} {alloc' : KvAllocation} {idx idx' : Option Nat} {slot : Nat}
    (h : Sound st) (hlive : st.allocations.lookup r = some alloc)
    (hlive' : st.allocations.lookup r' = some alloc')
    (hslot : ((slotMappingForRequest r idx).exec st).1 = .ok slot)
    (hslot' : ((slotMappingForRequest r' idx').exec st).1 = .ok slot) :
    r = r' ∧ idx.getD alloc.tokensUsed = idx'.getD alloc'.tokensUsed := by
  obtain ⟨pool, hpool, hsize, -, hpos⟩ := h.pool_of_live hlive
  obtain ⟨pool', hpool', hsize', -, -⟩ := h.pool_of_live hlive'
  rw [exec_slotMapping hlive hpool, hsize] at hslot
  rw [exec_slotMapping hlive' hpool', hsize'] at hslot'
  rw [hsize] at hpos
  generalize idx.getD alloc.tokensUsed = p at *
  generalize idx'.getD alloc'.tokensUsed = p' at *
  cases hof : pageOf alloc st.manager.blockSize p with
  | error e =>
    rw [hof] at hslot
    cases hslot
  | ok found =>
    cases hof' : pageOf alloc' st.manager.blockSize p' with
    | error e =>
      rw [hof'] at hslot'
      cases hslot'
    | ok found' =>
      obtain ⟨page, offset⟩ := found
      obtain ⟨page', offset'⟩ := found'
      obtain ⟨hpage, rfl⟩ := pageOf_eq_ok.mp hof
      obtain ⟨hpage', rfl⟩ := pageOf_eq_ok.mp hof'
      rw [hof] at hslot
      rw [hof'] at hslot'
      have heq : page * st.manager.blockSize + p % st.manager.blockSize =
          page' * st.manager.blockSize + p' % st.manager.blockSize :=
        (Except.ok.inj hslot).trans (Except.ok.inj hslot').symm
      have hlt := Nat.mod_lt p hpos
      have hlt' := Nat.mod_lt p' hpos
      have hdiv := congrArg (· / st.manager.blockSize) heq
      have hmod := congrArg (· % st.manager.blockSize) heq
      simp only [Nat.mul_comm _ st.manager.blockSize, Nat.mul_add_div hpos, Nat.div_eq_of_lt hlt,
        Nat.div_eq_of_lt hlt', Nat.mul_add_mod, Nat.mod_mod, Nat.add_zero] at hdiv hmod
      subst hdiv
      rw [← tables_of_live hlive] at hpage
      rw [← tables_of_live hlive'] at hpage'
      obtain ⟨rfl, hidx⟩ := h.separate.index hpage hpage'
      refine ⟨rfl, ?_⟩
      rw [← Nat.div_add_mod p st.manager.blockSize, ← Nat.div_add_mod p' st.manager.blockSize,
        hidx, hmod]

theorem slot_total {p : Nat} (h : Sound st) (hlive : st.allocations.lookup r = some alloc)
    (hp : p < alloc.tokensCapacity) :
    ∃ slot, ((slotMappingForRequest r (some p)).exec st).1 = .ok slot := by
  obtain ⟨pool, hpool, hsize, -, -⟩ := h.pool_of_live hlive
  rw [(h.granted r alloc hlive).capacity, ← hsize] at hp
  obtain ⟨page, -, hof⟩ := pageOf_of_lt hp
  rw [exec_slotMapping hlive hpool, Option.getD_some, hof]
  exact ⟨_, rfl⟩

end HostStore
end PyptoServing.Memory
