import PyptoServing.Lib.TagIndex
import PyptoServing.Memory.Growth

/-!
# The grouped hash index

`hash_to_block` of a group and the hashes stored on its blocks say the same: an entry under a
partition and a hash names the one block of the partition that carries the hash. A block
leaves a free queue without a hash, and only publication gives it one.
-/
namespace PyptoServing.Memory

open BlockHeap Lib Lib.Fallible

/-- The head after an append is the old one or the block itself. -/
theorem FreeKVCacheBlockQueue.append_head (q : FreeKVCacheBlockQueue) (heap : BlockHeap)
    (b : BlockId) : (q.append heap b).1.head = q.head ∨ (q.append heap b).1.head = some b := by
  unfold append
  split
  · exact .inl rfl
  · exact .inr rfl

namespace GroupBlockPool
variable {pool pool' pool₀ : GroupBlockPool} {free : Nat → List BlockId}
  {holders pins : BlockId → Nat} {r : RequestId} {p : Nat} {b : BlockId}

/-- The key a block is published under. -/
def key (pool : GroupBlockPool) (b : BlockId) : Option (Nat × Int) :=
  if b < pool.totalBlocks then (pool.blocks b).blockHash.map (pool.home b, ·) else none

/-- The index maps a partition and a hash to the block of the partition with that hash. -/
def IndexExact (pool : GroupBlockPool) : Prop :=
  ∀ p h b, pool.hashToBlock (p, h) = some b ↔
    pool.InPartition p b ∧ (pool.blocks b).blockHash = some h

theorem key_eq_some {h : Int} :
    pool.key b = some (p, h) ↔ pool.InPartition p b ∧ (pool.blocks b).blockHash = some h := by
  unfold key
  split
  · next hlt =>
    rw [Option.map_eq_some_iff]
    constructor
    · rintro ⟨x, hx, he⟩
      cases he
      exact ⟨⟨hlt, rfl⟩, hx⟩
    · rintro ⟨⟨-, rfl⟩, hx⟩
      exact ⟨h, hx, rfl⟩
  · next hlt =>
    constructor
    · intro he
      cases he
    · exact fun he => absurd he.1.1 hlt

theorem indexExact_iff : pool.IndexExact ↔ TagIndex.Exact pool.key pool.hashToBlock :=
  ⟨fun h k b => (h k.1 k.2 b).trans key_eq_some.symm, fun h p x b => (h (p, x) b).trans key_eq_some⟩

theorem InPartition.key_eq (h : pool.InPartition p b) :
    pool.key b = (pool.blocks b).blockHash.map (p, ·) := by
  rw [key, if_pos h.1, h.home_eq]

/-- Rewriting one block's hash rewrites its key. -/
theorem key_modify (hspec : pool'.spec = pool.spec)
    (hper : pool'.blocksPerPartition = pool.blocksPerPartition) (hb : pool.InPartition p b)
    {x : Option Int} (hhash : ∀ c, (pool'.blocks c).blockHash =
      if c = b then x else (pool.blocks c).blockHash) :
    pool'.key = Function.update pool.key b (x.map (p, ·)) := by
  have htotal : pool'.totalBlocks = pool.totalBlocks := by
    rw [totalBlocks, totalBlocks, hspec, hper]
  funext c
  rw [key, hhash, htotal, Function.update_apply]
  split
  · next hc =>
    split
    · next hcb => rw [hcb, home, hper, ← hb.home_eq, home]
    · rw [key, if_pos hc, home, hper, home]
  · next hc =>
    rw [if_neg, key, if_neg hc]
    rintro rfl
    exact hc hb.1

/-- Hashes are taken off blocks, and the index stays exact. -/
structure Sheds (pool pool' : GroupBlockPool) : Prop where
  spec : pool'.spec = pool.spec
  perPartition : pool'.blocksPerPartition = pool.blocksPerPartition
  hash : ∀ b, (pool'.blocks b).blockHash = (pool.blocks b).blockHash ∨
    (pool'.blocks b).blockHash = none
  exact : pool.IndexExact → pool'.IndexExact

theorem Sheds.refl (pool : GroupBlockPool) : Sheds pool pool :=
  ⟨rfl, rfl, fun _ => .inl rfl, id⟩

theorem Sheds.trans {pool'' : GroupBlockPool} (h : Sheds pool pool') (h' : Sheds pool' pool'') :
    Sheds pool pool'' := by
  refine ⟨h'.spec.trans h.spec, h'.perPartition.trans h.perPartition, fun b => ?_,
    fun he => h'.exact (h.exact he)⟩
  rcases h'.hash b with hb | hb
  · rw [hb]
    exact h.hash b
  · exact .inr hb

/-- Nothing happens to the hashes. -/
theorem Sheds.of_same (hspec : pool'.spec = pool.spec)
    (hper : pool'.blocksPerPartition = pool.blocksPerPartition)
    (hhash : ∀ c, (pool'.blocks c).blockHash = (pool.blocks c).blockHash)
    (hindex : pool'.hashToBlock = pool.hashToBlock) : Sheds pool pool' := by
  refine ⟨hspec, hper, fun c => .inl (hhash c), fun he p x c => ?_⟩
  rw [hindex, he p x c, hhash, InPartition, InPartition, totalBlocks, totalBlocks, home, home,
    hspec, hper]

theorem sheds_modifyBlock (pool : GroupBlockPool) (b : BlockId) {f : KVCacheBlock → KVCacheBlock}
    (hf : ∀ x, (f x).blockHash = x.blockHash) : Sheds pool (pool.modifyBlock b f) := by
  refine .of_same rfl rfl (fun c => ?_) rfl
  rw [modifyBlock_blocks, modify_apply]
  split
  · next hc => rw [hf, hc]
  · rfl

theorem sheds_pushFree (pool : GroupBlockPool) (p : Nat) (b : BlockId) :
    Sheds pool (pool.pushFree p b) :=
  .of_same rfl rfl (fun c => (FreeKVCacheBlockQueue.append_sameData _ _ b c).2) rfl

theorem sheds_removeFree (pool : GroupBlockPool) (p : Nat) (b : BlockId) :
    Sheds pool (pool.removeFree p b) :=
  .of_same rfl rfl (fun c => (FreeKVCacheBlockQueue.remove_sameData _ _ b c).2) rfl

/-- Taking a hash off a block takes its entry out. -/
theorem sheds_invalidate (hb : pool.InPartition p b) :
    Sheds pool (pool.invalidateGroupBlock p b) := by
  have ht := sameTables_invalidate pool p b
  have hhash : ∀ c, ((pool.invalidateGroupBlock p b).blocks c).blockHash =
      if c = b then none else (pool.blocks c).blockHash := by
    intro c
    rw [invalidate_blocks, modify_apply]
    split <;> rfl
  refine ⟨ht.spec, ht.perPartition, fun c => ?_, fun he => ?_⟩
  · rw [hhash]
    split
    · exact .inr rfl
    · exact .inl rfl
  · rw [indexExact_iff] at he ⊢
    cases hx : (pool.blocks b).blockHash with
    | none =>
      rw [invalidateGroupBlock, if_pos hx]
      exact he
    | some x =>
      have hkey : pool.key b = some (p, x) := by rw [hb.key_eq, hx]; rfl
      have hindex : (pool.invalidateGroupBlock p b).hashToBlock =
          Function.update pool.hashToBlock (p, x) none := by
        rw [invalidateGroupBlock, if_neg (by simp [hx]), dropHash, hx]
        dsimp only
        rw [if_pos ((he (p, x) b).mpr hkey)]
        rfl
      rw [hindex, key_modify ht.spec ht.perPartition hb hhash]
      exact he.clear hkey

/-- Publication under a hash without an entry. -/
theorem indexExact_published (h : pool.IndexExact) (hb : pool.InPartition p b) {x : Int}
    (hx : pool.hashToBlock (p, x) = none) : (pool.published p b x).IndexExact := by
  have ht := sameTables_published pool p b x
  have hcleared := (sheds_invalidate hb).exact h
  have hti := sameTables_invalidate pool p b
  have hkey : (pool.invalidateGroupBlock p b).key b = none := by
    rw [(hti.inPartition.mpr hb).key_eq, invalidate_blocks, modify_self]
    rfl
  have hindex : (pool.published p b x).hashToBlock =
      Function.update (pool.invalidateGroupBlock p b).hashToBlock (p, x) (some b) := by
    rw [GroupBlockPool.published, setHash]
    unfold invalidateGroupBlock
    split
    · next hnone => rw [modifyBlock, dropHash, hnone]
    · rfl
  have hfree : (pool.invalidateGroupBlock p b).hashToBlock (p, x) = none := by
    cases hc : (pool.invalidateGroupBlock p b).hashToBlock (p, x) with
    | none => rfl
    | some c =>
      have := ((hcleared p x c).mp hc)
      rw [invalidate_blocks, modify_apply] at this
      split at this
      · cases this.2
      · have := (h p x c).mpr ⟨hti.inPartition.mp this.1, this.2⟩
        rw [hx] at this
        cases this
  have hhash : ∀ c, ((pool.published p b x).blocks c).blockHash =
      if c = b then some x else ((pool.invalidateGroupBlock p b).blocks c).blockHash := by
    intro c
    rw [published_blocks, invalidate_blocks, modify_apply, modify_apply]
    split <;> rfl
  have hpublished := key_modify (ht.spec.trans hti.spec.symm)
    (ht.perPartition.trans hti.perPartition.symm) (hti.inPartition.mpr hb) hhash
  rw [indexExact_iff] at hcleared ⊢
  rw [hindex, hpublished]
  exact hcleared.put hkey hfree

/-- Publication keeps the index exact, also when the hash is taken. -/
theorem indexExact_cacheGroupBlock (h : pool.IndexExact) (hb : pool.InPartition p b) (x : Int) :
    (pool.cacheGroupBlock p b x).IndexExact := by
  unfold cacheGroupBlock
  split
  · split
    · exact h
    · exact (sheds_invalidate hb).exact h
  · next hx => exact indexExact_published h hb hx

/-- Publication gives a hash to no block but the published one, and no other hash. -/
theorem cacheGroupBlock_hash (pool : GroupBlockPool) (p : Nat) (b c : BlockId) (x : Int) :
    ((pool.cacheGroupBlock p b x).blocks c).blockHash = (pool.blocks c).blockHash ∨
      ((pool.cacheGroupBlock p b x).blocks c).blockHash = none ∨
      c = b ∧ ((pool.cacheGroupBlock p b x).blocks c).blockHash = some x := by
  unfold cacheGroupBlock
  split
  · split
    · exact .inl rfl
    · rw [invalidate_blocks, modify_apply]
      split
      · exact .inr (.inl rfl)
      · exact .inl rfl
  · change ((pool.published p b x).blocks c).blockHash = _ ∨
      ((pool.published p b x).blocks c).blockHash = none ∨
      c = b ∧ ((pool.published p b x).blocks c).blockHash = some x
    rw [published_blocks, modify_apply]
    split
    · next hc => exact .inr (.inr ⟨hc, rfl⟩)
    · exact .inl rfl

/-- The free queue of a partition starts with a block of the partition. -/
def HeadHome (pool : GroupBlockPool) (p : Nat) : Prop :=
  ∀ b, (pool.freeQueues p).head = some b → pool.InPartition p b

theorem Conserved.headHome (h : Conserved pool free holders) (hp : p < pool.spec.numPartitions) :
    pool.HeadHome p := by
  intro b hb
  rw [(h.spells p hp).isQueue.head_eq] at hb
  exact h.inPartition p hp b (List.mem_of_head? hb)

theorem takeGroupBlock_sheds (hhead : pool.HeadHome p)
    (h : pool.takeGroupBlock p = .ok (b, pool')) : Sheds pool pool' := by
  unfold takeGroupBlock at h
  split at h
  · cases h
  · next hc =>
    dsimp only at h
    split at h
    · cases h
    · cases h
      have hin : (pool.removeFree p b).InPartition p b :=
        (sameTables_removeFree pool p b).inPartition.mpr (hhead b hc)
      have hevict := (sheds_removeFree pool p b).trans (sheds_invalidate hin)
      exact hevict.trans (sheds_modifyBlock _ b fun _ => rfl)

theorem fillSlot_sheds {slot : Nat} (hhead : pool.HeadHome p)
    (h : fillSlot r p pool slot = .ok pool') : Sheds pool pool' := by
  unfold fillSlot at h
  split at h
  · cases h
  · cases h
    exact .refl _
  · obtain ⟨⟨c, taken⟩, htake, h⟩ := bind_eq_ok.mp h
    cases h
    exact (takeGroupBlock_sheds hhead htake).trans (.of_same rfl rfl (fun _ => rfl) rfl)

theorem pushFree_queue (pool : GroupBlockPool) (p : Nat) (b : BlockId) :
    (pool.pushFree p b).freeQueues p = ((pool.freeQueues p).append pool.blocks b).1 :=
  Function.update_self ..

theorem rotateSlot_sheds {i : Nat} (hhead : pool.HeadHome p)
    (hentries : ∀ c, some c ∈ pool.table r → pool.InPartition p c)
    (h : rotateSlot r p pool i = .ok pool') : Sheds pool pool' := by
  unfold rotateSlot at h
  split at h
  · cases h
    exact .refl _
  · dsimp only at h
    split at h
    · cases h
    · cases h
    · next c hc =>
      have htaken : ∀ mid : GroupBlockPool, Sheds pool mid → mid.HeadHome p →
          (mid.takeGroupBlock p >>= fun x =>
            (.ok (x.2.setSlot r (i % pool.ringSize) x.1) : Except KvError _)) = .ok pool' →
          Sheds pool pool' := by
        intro mid hsheds hhome hok
        obtain ⟨⟨b, taken⟩, htake, hok⟩ := bind_eq_ok.mp hok
        cases hok
        exact (hsheds.trans (takeGroupBlock_sheds hhome htake)).trans
          (.of_same rfl rfl (fun _ => rfl) rfl)
      split at h
      · exact htaken _ (sheds_modifyBlock pool c (by intro x; rfl)) hhead h
      · refine htaken _ ((sheds_modifyBlock pool c ?_).trans (sheds_pushFree _ p c)) ?_ h
        · exact fun _ => rfl
        · -- The queue starts with its old head, or with the block itself if it was empty.
          intro b hb
          rw [pushFree_queue] at hb
          rcases FreeKVCacheBlockQueue.append_head (pool.freeQueues p) _ c with hold | hnew
          · exact hhead b (hold.symm.trans hb)
          · cases hnew.symm.trans hb
            exact hentries c (List.mem_of_getElem? hc)

theorem Growing.headHome {n : Nat} (h : Growing pool₀ pins r p pool n) : pool.HeadHome p := by
  obtain ⟨free, hc, -⟩ := h.balanced
  exact hc.headHome (h.tables.partition_lt r p h.assigned)

theorem Growing.home {n : Nat} (h : Growing pool₀ pins r p pool n) {c : BlockId}
    (hc : some c ∈ pool.table r) : pool.InPartition p c := by
  obtain ⟨q, hq, hin⟩ := h.tables.entries r c hc
  rw [h.assigned] at hq
  cases hq
  exact hin

/-- A queue with a head has a block to spare. -/
theorem Growing.room {n : Nat} (h : Growing pool₀ pins r p pool n)
    (hhead : (pool.freeQueues p).head.isSome) : Growing pool₀ pins r p pool 1 := by
  obtain ⟨⟨free, hc, -⟩, ht, ha, he, hf⟩ := h
  refine ⟨⟨free, hc, ?_⟩, ht, ha, he, hf⟩
  rw [(hc.spells p (ht.partition_lt r p ha)).isQueue.head_eq] at hhead
  exact List.length_pos_of_ne_nil fun hnil => by simp [hnil] at hhead

theorem takeGroupBlock_head (h : pool.takeGroupBlock p = .ok (b, pool')) :
    (pool.freeQueues p).head.isSome := by
  unfold takeGroupBlock at h
  split at h
  · cases h
  · next hc => rw [hc]; rfl

/-- A round of the filling loop that succeeds keeps the table growing. -/
theorem Growing.fillSlot {slot : Nat} (h : Growing pool₀ pins r p pool 0)
    (hlt : slot < (pool.table r).length)
    (hok : GroupBlockPool.fillSlot r p pool slot = .ok pool') :
    Growing pool₀ pins r p pool' 0 ∧ (pool'.table r).length = (pool.table r).length := by
  have hroom : Growing pool₀ pins r p pool (emptySlots pool r [slot] + 0) := by
    cases hget : (pool.table r)[slot]? with
    | none => exact h.mono (by simp [emptySlots, hget])
    | some e =>
      cases e with
      | some c => exact h.mono (by simp [emptySlots, hget])
      | none =>
        have hfill := hok
        rw [GroupBlockPool.fillSlot, hget] at hfill
        obtain ⟨⟨c, taken⟩, htake, -⟩ := bind_eq_ok.mp hfill
        exact (h.room (takeGroupBlock_head htake)).mono (by simp [emptySlots, hget])
  obtain ⟨pool₁, hok₁, hg, hfr, -⟩ := fillSlot_spec hroom hlt
  rw [hok] at hok₁
  cases hok₁
  exact ⟨hg, hfr.length⟩

/-- A round of the rotation loop that succeeds keeps the table growing. -/
theorem Growing.rotateSlot {i : Nat} (h : Growing pool₀ pins r p pool 0)
    (hok : GroupBlockPool.rotateSlot r p pool i = .ok pool') :
    Growing pool₀ pins r p pool' 0 := by
  by_cases hi : i < pool.ringSize
  · rw [GroupBlockPool.rotateSlot, if_pos hi] at hok
    cases hok
    exact h
  · have hrot := hok
    rw [GroupBlockPool.rotateSlot, if_neg hi] at hrot
    dsimp only at hrot
    split at hrot
    · cases hrot
    · cases hrot
    · next c hc =>
      have hroom : Growing pool₀ pins r p pool
          ((if pool.sharedSlot r (i % pool.ringSize) then 1 else 0) + 0) := by
        rw [sharedSlot, hc]
        dsimp only
        by_cases hmany : 1 < (pool.blocks c).refCnt
        · rw [if_pos hmany] at hrot
          obtain ⟨⟨b, taken⟩, htake, -⟩ := bind_eq_ok.mp hrot
          have hhead := takeGroupBlock_head htake
          exact (h.room hhead).mono (by simp [hmany])
        · exact h.mono (by simp [hmany])
      obtain ⟨pool₁, b, hok₁, hg, -⟩ := rotateSlot_spec (not_lt.mp hi) hroom ⟨c, hc⟩
      rw [hok] at hok₁
      cases hok₁
      exact hg

/-- The slots of a grown table that were written hold blocks without a hash. -/
def Written (pool pool' : GroupBlockPool) (r : RequestId) (kept : Nat → Prop) : Prop :=
  ∀ s c, (pool'.table r)[s]? = some (some c) →
    kept s ∧ (pool.table r)[s]? = some (some c) ∨ (pool'.blocks c).blockHash = none

/-- The filling loop. -/
theorem fillLoop_sheds (l : List Nat) (h : Growing pool₀ pins r p pool 0)
    (hlt : ∀ s ∈ l, s < (pool.table r).length) (hok : l.foldlM (fillSlot r p) pool = .ok pool') :
    Growing pool₀ pins r p pool' 0 ∧ Sheds pool pool' ∧
      pool'.requestLogicalBlocks = pool.requestLogicalBlocks ∧
      Written pool pool' r fun _ => True := by
  induction l generalizing pool with
  | nil =>
    cases hok
    exact ⟨h, .refl _, rfl, fun s c hc => .inl ⟨trivial, hc⟩⟩
  | cons slot l ih =>
    rw [List.foldlM_cons] at hok
    obtain ⟨pool₁, hone, hok⟩ := bind_eq_ok.mp hok
    obtain ⟨hg, hlen⟩ := h.fillSlot (hlt slot (by simp)) hone
    obtain ⟨hg', hsheds, hlogical, hwritten⟩ := ih hg (fun s hs => by
      rw [hlen]
      exact hlt s (by simp [hs])) hok
    have hlogical₁ : pool₁.requestLogicalBlocks = pool.requestLogicalBlocks := by
      rcases fillSlot_cases hone with rfl | ⟨b, hb⟩
      · rfl
      · exact hb.requestLogicalBlocks
    refine ⟨hg', (fillSlot_sheds h.headHome hone).trans hsheds, hlogical.trans hlogical₁,
      fun s c hc => ?_⟩
    rcases hwritten s c hc with ⟨-, hold⟩ | hnone
    · rcases fillSlot_cases hone with rfl | ⟨b, hb⟩
      · exact .inl ⟨trivial, hold⟩
      · by_cases hs : s = slot
        · -- The slot holds the block just taken, and no later round gives it a hash.
          subst hs
          have hcb : c = b := by
            rw [hb.table, List.getElem?_set_self (hlt s (by simp))] at hold
            exact (Option.some.inj (Option.some.inj hold)).symm
          rcases hsheds.hash c with hsame | hnone
          · exact .inr (by rw [hsame, hcb, hb.hash])
          · exact .inr hnone
        · exact .inl ⟨trivial, (hb.other hs).symm.trans hold⟩
    · exact .inr hnone

/-- The rotation loop. -/
theorem rotateLoop_sheds (l : List Nat) (h : Growing pool₀ pins r p pool 0)
    (hok : l.foldlM (rotateSlot r p) pool = .ok pool') :
    Sheds pool pool' ∧ Written pool pool' r fun s =>
      ∀ i ∈ l, pool.ringSize ≤ i → i % pool.ringSize ≠ s := by
  induction l generalizing pool with
  | nil =>
    cases hok
    exact ⟨.refl _, fun s c hc => .inl ⟨by simp, hc⟩⟩
  | cons i l ih =>
    rw [List.foldlM_cons] at hok
    obtain ⟨pool₁, hone, hok⟩ := bind_eq_ok.mp hok
    obtain ⟨hsheds, hwritten⟩ := ih (h.rotateSlot hone) hok
    have hfirst := rotateSlot_sheds h.headHome (fun c => h.home) hone
    refine ⟨hfirst.trans hsheds, fun s c hc => ?_⟩
    rcases hwritten s c hc with ⟨hkept, hold⟩ | hnone
    · rw [ringSize, hfirst.spec, ← ringSize] at hkept
      rcases rotateSlot_cases hone with ⟨rfl, hi⟩ | ⟨hi, b, hb⟩
      · refine .inl ⟨fun j hj hring => ?_, hold⟩
        rcases List.mem_cons.mp hj with rfl | hj
        · omega
        · exact hkept j hj hring
      · by_cases hs : s = i % pool.ringSize
        · have hcb : c = b := by
            have hlt := (List.getElem?_eq_some_iff.mp hold).1
            rw [hb.table, List.length_set] at hlt
            rw [hb.table, ← hs, List.getElem?_set_self hlt] at hold
            exact (Option.some.inj (Option.some.inj hold)).symm
          rcases hsheds.hash c with hsame | hnone
          · exact .inr (by rw [hsame, hcb, hb.hash])
          · exact .inr hnone
        · refine .inl ⟨fun j hj hring => ?_, (hb.other hs).symm.trans hold⟩
          rcases List.mem_cons.mp hj with rfl | hj
          · exact Ne.symm hs
          · exact hkept j hj hring
    · exact .inr hnone

/-- The slots that a growth to `t` tokens rotates no page into. -/
def Unrotated (pool : GroupBlockPool) (r : RequestId) (t s : Nat) : Prop :=
  pool.rolling = true → ∀ i, pool.logicalBlocks r ≤ i → i < pool.logicalGroupBlocks t →
    pool.ringSize ≤ i → i % pool.ringSize ≠ s

/-- A growth takes hashes off only, and binds blocks without hashes. -/
theorem ensureTable_sheds {t : Nat} (h : PoolInv pool pins) (hp : p < pool.spec.numPartitions)
    (ha : ∀ q, pool.requestPartitions.lookup r = some q → q = p)
    (hok : pool.ensureTable r p t = .ok pool') :
    Sheds pool pool' ∧ Written pool pool' r (pool.Unrotated r t) := by
  unfold ensureTable at hok
  obtain ⟨filled, hfill, hok⟩ := bind_eq_ok.mp hok
  have hopen := openTable_spec (n := 0) h hp ha (Nat.zero_le _)
    (pool.tableSize (pool.logicalGroupBlocks t))
  have hsame : Sheds pool (pool.openTable r p (pool.tableSize (pool.logicalGroupBlocks t))) :=
    .of_same rfl rfl (fun _ => rfl) rfl
  obtain ⟨hg, hsheds, hlogical, hwritten⟩ := fillLoop_sheds _ hopen (fun s hs => by
    rw [openTable_table_self, List.length_append, List.length_replicate]
    have := List.mem_range.mp hs
    omega) hfill
  have hfilled : Written pool filled r fun _ => True := by
    intro s c hc
    rcases hwritten s c hc with ⟨-, hold⟩ | hnone
    · rw [openTable_table_self] at hold
      by_cases hs : s < (pool.table r).length
      · rw [List.getElem?_append_left hs] at hold
        exact .inl ⟨trivial, hold⟩
      · rw [List.getElem?_append_right (not_lt.mp hs), List.getElem?_replicate] at hold
        split at hold <;> cases hold
    · exact .inr hnone
  have hprev : filled.logicalBlocks r = pool.logicalBlocks r := by
    rw [logicalBlocks, hlogical]
    rfl
  have hring : filled.ringSize = pool.ringSize := by
    rw [ringSize, hsheds.spec]
    rfl
  have hrolling : filled.rolling = pool.rolling := by
    rw [rolling, hsheds.spec]
    rfl
  dsimp only at hok
  split at hok
  · obtain ⟨rotated, hrotate, hok⟩ := bind_eq_ok.mp hok
    cases hok
    obtain ⟨hturned, hwritten'⟩ := rotateLoop_sheds _ hg hrotate
    refine ⟨((hsame.trans hsheds).trans hturned).trans (.of_same rfl rfl (fun _ => rfl) rfl),
      fun s c hc => ?_⟩
    rcases hwritten' s c hc with ⟨hkept, hold⟩ | hnone
    · rcases hfilled s c hold with ⟨-, hold⟩ | hnone
      · refine .inl ⟨fun _ i hlo hhi hge => ?_, hold⟩
        rw [hring, hprev] at hkept
        exact hkept i (List.mem_range'_1.mpr ⟨hlo, by omega⟩) hge
      · rcases hturned.hash c with hsame | hcleared
        · exact .inr (hsame.trans hnone)
        · exact .inr hcleared
    · exact .inr hnone
  · next hroll =>
    cases hok
    refine ⟨(hsame.trans hsheds).trans (.of_same rfl rfl (fun _ => rfl) rfl), fun s c hc => ?_⟩
    rcases hfilled s c hc with ⟨-, hold⟩ | hnone
    · refine .inl ⟨fun hr => absurd (hrolling.trans hr) hroll, hold⟩
    · exact .inr hnone

theorem sheds_reference (pool : GroupBlockPool) (p : Nat) (b : BlockId) :
    Sheds pool (pool.reference p b) := by
  unfold reference
  dsimp only
  split
  · exact (sheds_removeFree pool p b).trans (sheds_modifyBlock _ b fun _ => rfl)
  · exact sheds_modifyBlock pool b fun _ => rfl

theorem sheds_dropReference (pool : GroupBlockPool) (p : Nat) (b : BlockId) :
    Sheds pool (pool.dropReference p b) := by
  unfold dropReference
  dsimp only
  split
  · refine (sheds_modifyBlock pool b ?_).trans (sheds_pushFree _ p b)
    exact fun _ => rfl
  · exact sheds_modifyBlock pool b fun _ => rfl

theorem sheds_attachPrefix (pool : GroupBlockPool) (r : RequestId) (p : Nat)
    (owned : List (Option BlockId)) (n : Nat) : Sheds pool (pool.attachPrefix r p owned n) := by
  have hloop : ∀ (bs : List BlockId) (cur : GroupBlockPool),
      Sheds cur (bs.foldl (reference · p) cur) := by
    intro bs
    induction bs with
    | nil => exact .refl
    | cons b bs ih => exact fun cur => (sheds_reference cur p b).trans (ih _)
  unfold attachPrefix
  refine Sheds.trans ?_ (hloop owned.reduceOption _)
  exact .of_same rfl rfl (fun _ => rfl) rfl

theorem releaseRequest_sheds (h : pool.releaseRequest r = .ok pool') : Sheds pool pool' := by
  have hclear : ∀ cleared : GroupBlockPool, cleared.spec = pool.spec →
      cleared.blocksPerPartition = pool.blocksPerPartition → cleared.blocks = pool.blocks →
      cleared.hashToBlock = pool.hashToBlock → Sheds pool cleared :=
    fun cleared hs hp hb hi => .of_same hs hp (fun c => by rw [hb]) hi
  unfold releaseRequest at h
  dsimp only at h
  split at h
  · split at h
    · cases h
    · cases h
      exact hclear _ rfl rfl rfl rfl
  · next q hq =>
    refine foldlM_keeps (I := Sheds pool) (fun b cur cur' hone hcur => ?_) _ _ _ h
      (hclear _ rfl rfl rfl rfl)
    split at hone
    · cases hone
    · cases hone
      exact hcur.trans (sheds_dropReference cur q b)

theorem sheds_pinBlocks (bs : List BlockId) (pool : GroupBlockPool) :
    Sheds pool (pool.pinBlocks bs) := by
  induction bs generalizing pool with
  | nil => exact .refl pool
  | cons b bs ih =>
    refine (sheds_modifyBlock pool b ?_).trans (ih _)
    exact fun _ => rfl

theorem unpin_sheds {ids : List Nat} (h : pool.unpin p ids = .ok pool') : Sheds pool pool' := by
  refine foldlM_keeps (I := Sheds pool) (fun id cur cur' hone hcur => ?_) _ _ _ h (.refl pool)
  obtain ⟨b, -, hone⟩ := bind_eq_ok.mp hone
  split at hone
  · cases hone
  · cases hone
    exact hcur.trans (sheds_dropReference cur p b)

/-- A block gets a hash only from a page of `pages`, and the index stays exact. -/
structure Rehashes (pool pool' : GroupBlockPool) (pages : List PublishedPage) : Prop where
  spec : pool'.spec = pool.spec
  perPartition : pool'.blocksPerPartition = pool.blocksPerPartition
  hash : ∀ b, (pool'.blocks b).blockHash = (pool.blocks b).blockHash ∨
    (pool'.blocks b).blockHash = none ∨
    ∃ e ∈ pages, e.block = b ∧ (pool'.blocks b).blockHash = some e.hash
  exact : pool.IndexExact → pool'.IndexExact

theorem Sheds.rehashes (h : Sheds pool pool') (pages : List PublishedPage) :
    Rehashes pool pool' pages := by
  refine ⟨h.spec, h.perPartition, fun b => ?_, h.exact⟩
  rcases h.hash b with hb | hb
  · exact .inl hb
  · exact .inr (.inl hb)

/-- The publication loop hashes the blocks of its pages. -/
theorem publishPages_rehashes {hashes : List Int} {resolve : Nat → Except KvError BlockId}
    (pages : List Nat) (hin : ∀ i b, resolve i = .ok b → pool.InPartition p b) :
    Rehashes pool (publishPages p hashes resolve pool pages).1
      (publishedPages hashes resolve pages) := by
  induction pages generalizing pool with
  | nil => exact (Sheds.refl pool).rehashes _
  | cons i pages ih =>
    rw [publishPages, publishedPages]
    cases hi : resolve i with
    | error e => exact (Sheds.refl pool).rehashes _
    | ok b =>
      have ht := sameTables_cacheGroupBlock pool p b (hashes.getD i 0)
      have hin' : ∀ j c, resolve j = .ok c →
          (pool.cacheGroupBlock p b (hashes.getD i 0)).InPartition p c :=
        fun j c hj => ht.inPartition.mpr (hin j c hj)
      have hrest := ih hin'
      refine ⟨hrest.spec.trans ht.spec, hrest.perPartition.trans ht.perPartition, fun c => ?_,
        fun he => hrest.exact (indexExact_cacheGroupBlock he (hin i b hi) _)⟩
      dsimp only
      rcases hrest.hash c with hsame | hnone | ⟨e, he, hb, hhash⟩
      · rw [hsame]
        rcases cacheGroupBlock_hash pool p b c (hashes.getD i 0) with h | h | ⟨rfl, h⟩
        · exact .inl h
        · exact .inr (.inl h)
        · exact .inr (.inr ⟨_, List.mem_cons_self, rfl, h⟩)
      · exact .inr (.inl hnone)
      · exact .inr (.inr ⟨e, List.mem_cons_of_mem _ he, hb, hhash⟩)

/-- The pages of `cache_group_blocks`. -/
def livePublished (pool : GroupBlockPool) (requestId : RequestId) (hashes : List Int)
    (numComputed alreadyCached : Nat) : List PublishedPage :=
  publishedPages hashes (pool.liveBlock requestId)
    (pool.livePages requestId hashes numComputed alreadyCached)

theorem cacheLive_rehashes (h : PoolInv pool pins)
    (hp : pool.requestPartitions.lookup r = some p) (hashes : List Int) (n already : Nat) :
    Rehashes pool (pool.cacheLive r p hashes n already).1
      (pool.livePublished r hashes n already) :=
  publishPages_rehashes _ fun _ _ hok => liveBlock_inPartition h hp hok

theorem cacheSnapshot_rehashes (pool : GroupBlockPool) (p : Nat) (ids : List Nat)
    (hashes : List Int) (n already : Nat) :
    Rehashes pool (pool.cacheSnapshot p ids hashes n already).1
      (pool.snapshotPublished p ids hashes n already) := by
  unfold cacheSnapshot snapshotPublished
  split
  · exact (Sheds.refl pool).rehashes _
  · exact publishPages_rehashes _ fun _ _ hok => snapshotBlock_inPartition hok

end GroupBlockPool

namespace KvCacheManager

open GroupBlockPool

variable {m m' : KvCacheManager} {snaps : List Snapshot}

/-- The pages of a group that an operation hands to `_cache_group_block`. -/
def GroupOp.published (op : GroupOp) (pool : GroupBlockPool) : List PublishedPage :=
  match op with
  | .cache r hashes n already =>
    pool.livePublished r (groupEntry hashes pool) n ((already.lookup pool.spec.name).getD 0)
  | .cacheFromSnapshot hashes n already tables p =>
    pool.snapshotPublished p (groupEntry tables pool) (groupEntry hashes pool) n
      ((already.lookup pool.spec.name).getD 0)
  | _ => []

theorem ensureGroupBlocks_sheds (h : Balanced m snaps) (r : RequestId) (t : Nat)
    (partition : Option Nat) :
    List.Forall₂ (fun pool pool' => Sheds pool pool' ∧
      (pool' = pool ∨ Written pool pool' r (pool.Unrotated r t)))
      m.groupPools (m.ensureGroupBlocks r t partition).2.groupPools := by
  rcases ensureGroupBlocks_cases h partition (r := r) (t := t) with he | ⟨p, next, hg, -⟩
  · rw [he]
    exact List.forall₂_same.mpr fun pool _ => ⟨.refl pool, .inl rfl⟩
  · refine forall₂_imp_mem hg.pools fun pool hpool pool' hgrown => ?_
    obtain ⟨hsheds, hwritten⟩ := ensureTable_sheds (h.pools pool hpool)
      (by rw [h.partitions pool hpool]; exact hg.lt_count)
      (fun q hq => hg.assigned q (by rw [← hq, h.assigned pool hpool]; rfl)) hgrown.1
    exact ⟨hsheds, .inr hwritten⟩

theorem acquire_sheds {r : RequestId} {hashes : GroupHashes} {limit : Nat}
    {res : GroupTables × Nat × Option Nat}
    (h : m.acquireGroupPrefixBlocks r hashes limit = .ok (res, m')) :
    List.Forall₂ Sheds m.groupPools m'.groupPools := by
  have hsame : List.Forall₂ Sheds m.groupPools m.groupPools :=
    List.forall₂_same.mpr fun pool _ => .refl pool
  unfold acquireGroupPrefixBlocks at h
  split at h
  · cases h
    exact hsame
  · split at h
    · cases h
    · split at h
      · cases h
      · dsimp only at h
        split at h
        · cases h
          exact hsame
        · split at h
          · cases h
            exact hsame
          · next partition hitTokens owned hbest =>
            cases h
            refine forall₂_zip_map (mapM_eq_some.mp (bestHit_spec hbest).2.2.2)
              fun pool _ table _ => ?_
            exact sheds_attachPrefix pool r partition table hitTokens

/-- No operation but publication gives a block a hash, and every one keeps the index exact. -/
theorem runOp_rehashes (h : Balanced m snaps) {op : GroupOp} {snaps' : List Snapshot}
    (hs : SnapshotStep m snaps op snaps') :
    List.Forall₂ (fun pool pool' => Rehashes pool pool' (op.published pool))
      m.groupPools (m.runOp op).groupPools := by
  have hsheds : ∀ pools, List.Forall₂ Sheds m.groupPools pools →
      List.Forall₂ (fun pool pool' => Rehashes pool pool' (op.published pool))
        m.groupPools pools :=
    fun pools hpools => hpools.imp fun pool pool' hp => hp.rehashes _
  have hsame : List.Forall₂ Sheds m.groupPools m.groupPools :=
    List.forall₂_same.mpr fun pool _ => .refl pool
  cases op with
  | acquire r ts limit =>
    apply hsheds
    simp only [runOp]
    split
    · next hok => exact acquire_sheds hok
    · exact hsame
  | ensure r t partition =>
    exact hsheds _ ((ensureGroupBlocks_sheds h r t partition).imp fun _ _ hp => hp.1)
  | retain tables p =>
    apply hsheds
    simp only [runOp]
    cases hok : m.retainGroupBlockSnapshot tables p with
    | error e => exact hsame
    | ok m' =>
      unfold retainGroupBlockSnapshot at hok
      split at hok
      · cases hok
        exact hsame
      · split at hok
        · cases hok
        · obtain ⟨resolved, hresolved, hok⟩ := bind_eq_ok.mp hok
          cases hok
          exact forall₂_zip_map (mapM_eq_ok.mp hresolved) fun pool _ bs _ =>
            sheds_pinBlocks bs pool
  | releaseSnapshot tables p =>
    apply hsheds
    simp only [runOp]
    cases hok : m.releaseGroupBlockSnapshot tables p with
    | error e => exact hsame
    | ok m' =>
      obtain ⟨pools, hpools, hok⟩ := bind_eq_ok.mp hok
      cases hok
      exact (mapM_eq_ok.mp hpools).imp fun pool pool' hunpin => unpin_sheds hunpin
  | releaseAll r =>
    apply hsheds
    simp only [runOp]
    cases hok : m.releaseAllGroupRequests r with
    | error e => exact hsame
    | ok m' =>
      obtain ⟨pools, hpools, hok⟩ := bind_eq_ok.mp hok
      cases hok
      exact (mapM_eq_ok.mp hpools).imp fun pool pool' hrel => releaseRequest_sheds hrel
  | cache r hashes n already =>
    simp only [runOp]
    unfold cacheGroupBlocks
    split
    · exact hsheds _ hsame
    · split
      · exact hsheds _ hsame
      · next p hp =>
        refine publishGroups_spec (fun pool hpool => ?_) fun pool _ => (Sheds.refl pool).rehashes _
        refine cacheLive_rehashes (h.pools pool hpool) ?_ _ _ _
        rw [h.assigned pool hpool, hp]
  | cacheFromSnapshot hashes n already tables p =>
    simp only [runOp]
    unfold cacheGroupBlocksFromSnapshot
    split
    · exact hsheds _ hsame
    · split
      · exact hsheds _ hsame
      · split
        · exact hsheds _ hsame
        · exact publishGroups_spec (fun pool _ => cacheSnapshot_rehashes pool p _ _ _ _)
            fun pool _ => (Sheds.refl pool).rehashes _

theorem new_indexExact (spec : Config.KVCacheGroupSpec) (perPartition : Nat) :
    (GroupBlockPool.new spec perPartition).IndexExact := by
  intro p h b
  have hhash : ((GroupBlockPool.new spec perPartition).blocks b).blockHash = none :=
    ((newState_spec perPartition spec.numPartitions).2 b).2
  constructor
  · intro he
    cases he
  · rintro ⟨-, he⟩
    rw [hhash] at he
    cases he

theorem indexExact_of_reachable {H : PyHash} {s : KvCacheManager × List Snapshot}
    (hs : (separatedMachine H).Reachable s) :
    ∀ pool ∈ s.1.groupPools, pool.IndexExact := by
  refine hs.invariant (I := fun s => ∀ pool ∈ s.1.groupPools, pool.IndexExact) ?_ ?_
  · rintro ⟨m, snaps⟩ ⟨rfl, m₀, specs, batch, primary, rfl, hnew, hfree, hok⟩ pool hpool
    obtain ⟨-, -, -, hpools, -⟩ := initGroups_spec hnew hfree hok
    obtain ⟨n, hn⟩ := hpools pool hpool
    rw [hn]
    exact new_indexExact _ n
  · rintro ⟨m, snaps⟩ op ⟨m', snaps'⟩ hr hI ⟨⟨rfl, hstep⟩, -⟩ pool' hpool'
    have hb := (groupInv_of_reachable hr).balanced
    obtain ⟨pool, hpool, hre⟩ := forall₂_mem_right (runOp_rehashes hb hstep) hpool'
    exact hre.exact (hI pool hpool)

/-- Block `b` of group `name` carries no hash. -/
def Bare (name : String) (b : BlockId) (m : KvCacheManager) : Prop :=
  ∀ pool ∈ m.groupPools, pool.spec.name = name → (pool.blocks b).blockHash = none

/-- The operation publishes no page in block `b` of group `name`. -/
def LeavesBare (name : String) (b : BlockId) (s : KvCacheManager × List Snapshot) (op : GroupOp) :
    Prop :=
  ∀ pool ∈ s.1.groupPools, pool.spec.name = name → ∀ e ∈ op.published pool, e.block ≠ b

/-- A block without a hash stays so until it is published. -/
theorem bare_of_run {H : PyHash} {name : String} {b : BlockId}
    {s t : KvCacheManager × List Snapshot} {ops : List GroupOp}
    (hs : (separatedMachine H).Reachable s)
    (hrun : ((separatedMachine H).restrict fun s op _ => LeavesBare name b s op).Run s ops t)
    (hbare : Bare name b s.1) : (separatedMachine H).Reachable t ∧ Bare name b t.1 := by
  induction hrun with
  | nil => exact ⟨hs, hbare⟩
  | @snoc t u ops op _ hstep ih =>
    obtain ⟨ht, hbare⟩ := ih
    obtain ⟨⟨⟨hm, hsnaps⟩, hsep⟩, hleaves⟩ := hstep
    refine ⟨ht.next (a := op) ⟨⟨hm, hsnaps⟩, hsep⟩, fun pool' hpool' hname => ?_⟩
    rw [hm] at hpool'
    have hb := (groupInv_of_reachable ht).balanced
    obtain ⟨pool, hpool, hre⟩ := forall₂_mem_right (runOp_rehashes hb hsnaps) hpool'
    rw [hre.spec] at hname
    rcases hre.hash b with hsame | hnone | ⟨e, he, heb, -⟩
    · rw [hsame]
      exact hbare pool hpool hname
    · exact hnone
    · exact absurd heb (hleaves pool hpool hname e he)

/-- Index and hashes of a state: they say the same; growth binds only blocks without a hash;
and such a block stays without one until it is published. -/
structure HashesIndexed (H : PyHash) (s : KvCacheManager × List Snapshot) : Prop where
  exact : ∀ pool ∈ s.1.groupPools, ∀ p h b, pool.hashToBlock (p, h) = some b ↔
    pool.InPartition p b ∧ (pool.blocks b).blockHash = some h
  taken : ∀ pool ∈ s.1.groupPools, ∀ p b pool', pool.takeGroupBlock p = .ok (b, pool') →
    (pool'.blocks b).blockHash = none
  bound : ∀ r t partition, List.Forall₂ (fun pool pool' =>
    pool' = pool ∨ Written pool pool' r (pool.Unrotated r t))
    s.1.groupPools (s.1.ensureGroupBlocks r t partition).2.groupPools
  bare : ∀ name b ops t,
    ((separatedMachine H).restrict fun s op _ => LeavesBare name b s op).Run s ops t →
      Bare name b s.1 → Bare name b t.1

/-- In every reachable state the hash index and the stored hashes are in step. -/
theorem grouped_index_bijective {H : PyHash} {s : KvCacheManager × List Snapshot}
    (hs : (separatedMachine H).Reachable s) : HashesIndexed H s := by
  have hb := (groupInv_of_reachable hs).balanced
  refine ⟨indexExact_of_reachable hs, fun _ _ _ _ _ => takeGroupBlock_hash,
    fun r t partition => ?_, fun name b ops t hrun hbare => (bare_of_run hs hrun hbare).2⟩
  exact (ensureGroupBlocks_sheds hb r t partition).imp fun _ _ hp => hp.2

theorem grouped_index_bijective_resumed : HashesIndexed encodingHash (resumedManager, []) :=
  grouped_index_bijective resumedManager_reachable

end KvCacheManager
end PyptoServing.Memory
