import PyptoServing.Memory.GroupPool
import PyptoServing.Memory.FreeQueue

/-!
# Reference counts, free queues and the hash index of one pool

`Conserved pool free holders` says that each partition's queue spells `free`, that
`holders` is what the reference counts count, that exactly the unreferenced blocks
are queued, each in its own partition, and that the index names blocks by their own
hash. Each block operation moves `free` and `holders` in the stated way and leaves
the request tables alone.
-/
namespace PyptoServing.Memory

open BlockHeap Lib

namespace GroupBlockPool

def totalBlocks (pool : GroupBlockPool) : Nat :=
  pool.spec.numPartitions * pool.blocksPerPartition

/-- The partition a block belongs to. -/
def home (pool : GroupBlockPool) (b : BlockId) : Nat := b / pool.blocksPerPartition

/-- `b` is a block of partition `p`. -/
abbrev InPartition (pool : GroupBlockPool) (p : Nat) (b : BlockId) : Prop :=
  b < pool.totalBlocks ∧ pool.home b = p

/-- The parts of a pool that block operations leave alone. -/
structure SameTables (pool pool' : GroupBlockPool) : Prop where
  spec : pool'.spec = pool.spec
  perPartition : pool'.blocksPerPartition = pool.blocksPerPartition
  requestBlocks : pool'.requestBlocks = pool.requestBlocks
  requestPartitions : pool'.requestPartitions = pool.requestPartitions
  requestLogicalBlocks : pool'.requestLogicalBlocks = pool.requestLogicalBlocks

/-- Every index entry names a block of its partition by the block's own hash. -/
def Indexed (pool : GroupBlockPool) : Prop :=
  ∀ p h b, pool.hashToBlock (p, h) = some b →
    pool.InPartition p b ∧ (pool.blocks b).blockHash = some h

structure Conserved (pool : GroupBlockPool) (free : Nat → List BlockId)
    (holders : BlockId → Nat) : Prop where
  spells : ∀ p < pool.spec.numPartitions, (pool.freeQueues p).Spells pool.blocks (free p)
  inPartition : ∀ p < pool.spec.numPartitions, ∀ b ∈ free p, pool.InPartition p b
  refCnt : ∀ b, (pool.blocks b).refCnt = holders b
  free_iff : ∀ b < pool.totalBlocks, holders b = 0 ↔ b ∈ free (pool.home b)
  indexed : pool.Indexed

variable {pool pool' : GroupBlockPool} {free : Nat → List BlockId} {holders : BlockId → Nat}
  {p : Nat} {b : BlockId}

theorem InPartition.lt_total (h : pool.InPartition p b) : b < pool.totalBlocks := h.1

theorem InPartition.home_eq (h : pool.InPartition p b) : pool.home b = p := h.2

theorem SameTables.refl (pool : GroupBlockPool) : SameTables pool pool :=
  ⟨rfl, rfl, rfl, rfl, rfl⟩

theorem SameTables.trans {p₁ p₂ p₃ : GroupBlockPool} (h : SameTables p₁ p₂)
    (h' : SameTables p₂ p₃) : SameTables p₁ p₃ :=
  ⟨h'.spec.trans h.spec, h'.perPartition.trans h.perPartition,
    h'.requestBlocks.trans h.requestBlocks, h'.requestPartitions.trans h.requestPartitions,
    h'.requestLogicalBlocks.trans h.requestLogicalBlocks⟩

theorem SameTables.table (h : SameTables pool pool') (r : RequestId) :
    pool'.table r = pool.table r := by
  rw [GroupBlockPool.table, GroupBlockPool.table, h.requestBlocks]

theorem SameTables.logicalBlocks (h : SameTables pool pool') (r : RequestId) :
    pool'.logicalBlocks r = pool.logicalBlocks r := by
  rw [GroupBlockPool.logicalBlocks, GroupBlockPool.logicalBlocks, h.requestLogicalBlocks]

theorem SameTables.totalBlocks (h : SameTables pool pool') :
    pool'.totalBlocks = pool.totalBlocks := by
  rw [GroupBlockPool.totalBlocks, GroupBlockPool.totalBlocks, h.spec, h.perPartition]

theorem SameTables.home (h : SameTables pool pool') (b : BlockId) : pool'.home b = pool.home b := by
  rw [GroupBlockPool.home, GroupBlockPool.home, h.perPartition]

theorem SameTables.inPartition (h : SameTables pool pool') :
    pool'.InPartition p b ↔ pool.InPartition p b := by
  constructor
  · exact fun hb => ⟨h.totalBlocks ▸ hb.lt_total, by rw [← h.home]; exact hb.home_eq⟩
  · exact fun hb => ⟨h.totalBlocks ▸ hb.lt_total, by rw [h.home]; exact hb.home_eq⟩

theorem InPartition.lt_numPartitions (h : pool.InPartition p b) : p < pool.spec.numPartitions := by
  obtain ⟨hb, rfl⟩ := h
  exact Nat.div_lt_of_lt_mul (by rwa [totalBlocks, Nat.mul_comm] at hb)

/-- A local id of a partition names a block of that partition. -/
theorem blockFromLocalId_eq_ok {id : Nat} :
    pool.blockFromLocalId p id = .ok b ↔
      p < pool.spec.numPartitions ∧ id < pool.blocksPerPartition ∧
        b = p * pool.blocksPerPartition + id := by
  unfold blockFromLocalId
  by_cases h1 : p < pool.spec.numPartitions
  · by_cases h2 : id < pool.blocksPerPartition
    · simp [h1, h2, eq_comm]
    · simp [h1, h2]
  · simp [h1]

theorem inPartition_of_local {id : Nat} (hp : p < pool.spec.numPartitions)
    (hid : id < pool.blocksPerPartition) :
    pool.InPartition p (p * pool.blocksPerPartition + id) := by
  constructor
  · have : (p + 1) * pool.blocksPerPartition ≤ pool.totalBlocks := Nat.mul_le_mul_right _ hp
    rw [Nat.add_mul, Nat.one_mul] at this
    exact lt_of_lt_of_le (Nat.add_lt_add_left hid _) this
  · rw [home, Nat.add_comm, Nat.add_mul_div_right _ _ (by omega), Nat.div_eq_of_lt hid, Nat.zero_add]

theorem InPartition.local_eq (h : pool.InPartition p b) :
    p * pool.blocksPerPartition + pool.localBlockId b = b := by
  obtain ⟨_, rfl⟩ := h
  rw [home, localBlockId, Nat.mul_comm]
  exact Nat.div_add_mod b pool.blocksPerPartition

theorem InPartition.local_lt (h : pool.InPartition p b) :
    pool.localBlockId b < pool.blocksPerPartition := by
  have hpos : 0 < pool.blocksPerPartition := by
    rcases Nat.eq_zero_or_pos pool.blocksPerPartition with h0 | h0
    · have := h.lt_total
      simp [totalBlocks, h0] at this
    · exact h0
  exact Nat.mod_lt _ hpos

namespace Conserved

theorem length_eq (h : Conserved pool free holders) (hp : p < pool.spec.numPartitions) :
    pool.numFreeBlocksIn p = (free p).length :=
  (h.spells p hp).count_eq

/-- A queued block belongs to the partition of its queue only. -/
theorem not_mem_of_ne (h : Conserved pool free holders) {q : Nat} (hq : q < pool.spec.numPartitions)
    (hb : pool.InPartition p b) (hne : q ≠ p) : b ∉ free q := fun hmem =>
  hne ((h.inPartition q hq b hmem).home_eq.symm.trans hb.home_eq)

theorem mem_free_iff (h : Conserved pool free holders) (hb : pool.InPartition p b) :
    b ∈ free p ↔ holders b = 0 := by
  rw [h.free_iff b hb.lt_total, hb.home_eq]

/-- Writing data of blocks and the index, with all pointers and queues kept. -/
theorem rewrite (h : Conserved pool free holders) {holders' : BlockId → Nat}
    (ht : SameTables pool pool') (hq : pool'.freeQueues = pool.freeQueues)
    (hptr : ∀ c, (pool'.blocks c).prevFree = (pool.blocks c).prevFree ∧
      (pool'.blocks c).nextFree = (pool.blocks c).nextFree)
    (href : ∀ c, (pool'.blocks c).refCnt = holders' c)
    (hzero : ∀ c < pool.totalBlocks, holders' c = 0 ↔ holders c = 0)
    (hidx : pool'.Indexed) :
    Conserved pool' free holders' := by
  constructor
  · intro q hq'
    rw [hq]
    rw [ht.spec] at hq'
    exact (h.spells q hq').congr (fun c _ => (hptr c).1) (fun c _ => (hptr c).2)
  · intro q hq' c hc
    rw [ht.spec] at hq'
    exact ht.inPartition.mpr (h.inPartition q hq' c hc)
  · exact href
  · intro c hc
    rw [ht.totalBlocks] at hc
    rw [hzero c hc, h.free_iff c hc, ht.home]
  · exact hidx

end Conserved

@[simp] theorem modifyBlock_blocks (pool : GroupBlockPool) (b : BlockId)
    (f : KVCacheBlock → KVCacheBlock) : (pool.modifyBlock b f).blocks = pool.blocks.modify b f := rfl

theorem sameTables_modifyBlock (pool : GroupBlockPool) (b : BlockId)
    (f : KVCacheBlock → KVCacheBlock) : SameTables pool (pool.modifyBlock b f) :=
  ⟨rfl, rfl, rfl, rfl, rfl⟩

theorem sameTables_dropHash (pool : GroupBlockPool) (p : Nat) (b : BlockId) :
    SameTables pool (pool.dropHash p b) := by
  unfold dropHash
  split
  · exact .refl pool
  · split
    · exact ⟨rfl, rfl, rfl, rfl, rfl⟩
    · exact .refl pool

theorem dropHash_blocks (pool : GroupBlockPool) (p : Nat) (b : BlockId) :
    (pool.dropHash p b).blocks = pool.blocks := by
  unfold dropHash
  split
  · rfl
  · split <;> rfl

theorem dropHash_freeQueues (pool : GroupBlockPool) (p : Nat) (b : BlockId) :
    (pool.dropHash p b).freeQueues = pool.freeQueues := by
  unfold dropHash
  split
  · rfl
  · split <;> rfl

/-- After `dropHash` the index is the old one without entries for the block. -/
theorem Indexed.dropHash (h : pool.Indexed) (hb : pool.InPartition p b)
    {q : Nat} {x : Int} {c : BlockId} (hc : (pool.dropHash p b).hashToBlock (q, x) = some c) :
    c ≠ b ∧ pool.hashToBlock (q, x) = some c := by
  unfold GroupBlockPool.dropHash at hc
  split at hc
  · next hnone =>
    refine ⟨?_, hc⟩
    rintro rfl
    have := (h q x c hc).2
    rw [hnone] at this
    cases this
  · next hx hsome =>
    split at hc
    · next hidx =>
      simp only [setHash, Function.update_apply] at hc
      split at hc
      · cases hc
      · next hne =>
        refine ⟨?_, hc⟩
        rintro rfl
        obtain ⟨hin, hhash⟩ := h q x c hc
        have hq : q = p := by rw [← hin.home_eq, hb.home_eq]
        rw [hsome] at hhash
        cases hhash
        exact hne (by rw [hq])
    · next hidx =>
      refine ⟨?_, hc⟩
      rintro rfl
      obtain ⟨hin, hhash⟩ := h q x c hc
      have hq : q = p := by rw [← hin.home_eq, hb.home_eq]
      rw [hsome] at hhash
      cases hhash
      exact hidx (by rw [← hq]; exact hc)

theorem sameTables_invalidate (pool : GroupBlockPool) (p : Nat) (b : BlockId) :
    SameTables pool (pool.invalidateGroupBlock p b) := by
  unfold invalidateGroupBlock
  split
  · exact .refl pool
  · exact (sameTables_dropHash pool p b).trans (sameTables_modifyBlock _ _ _)

theorem invalidate_freeQueues (pool : GroupBlockPool) (p : Nat) (b : BlockId) :
    (pool.invalidateGroupBlock p b).freeQueues = pool.freeQueues := by
  unfold invalidateGroupBlock
  split
  · rfl
  · exact dropHash_freeQueues pool p b

/-- Invalidation clears one block's hash and nothing else of any block. -/
theorem invalidate_blocks (pool : GroupBlockPool) (p : Nat) (b : BlockId) :
    (pool.invalidateGroupBlock p b).blocks =
      pool.blocks.modify b fun block => { block with blockHash := none } := by
  unfold invalidateGroupBlock
  split
  · next h =>
    funext c
    rw [modify_apply]
    split
    · next hc =>
      subst hc
      rw [← h]
    · rfl
  · rw [modifyBlock_blocks, dropHash_blocks]

/-- After invalidation no index entry names the block, and every entry was there before. -/
theorem Indexed.invalidate (h : pool.Indexed) (hb : pool.InPartition p b)
    {q : Nat} {x : Int} {c : BlockId}
    (hc : (pool.invalidateGroupBlock p b).hashToBlock (q, x) = some c) :
    c ≠ b ∧ pool.hashToBlock (q, x) = some c := by
  unfold GroupBlockPool.invalidateGroupBlock at hc
  split at hc
  · next hnone =>
    refine ⟨?_, hc⟩
    rintro rfl
    have := (h q x c hc).2
    rw [hnone] at this
    cases this
  · exact h.dropHash hb hc

theorem Conserved.invalidate (h : Conserved pool free holders) (hb : pool.InPartition p b) :
    Conserved (pool.invalidateGroupBlock p b) free holders := by
  have ht := sameTables_invalidate pool p b
  refine h.rewrite ht (invalidate_freeQueues pool p b) ?_ ?_ (fun _ _ => Iff.rfl) ?_
  · intro c
    rw [invalidate_blocks, modify_apply]
    split
    · next hc => subst hc; exact ⟨rfl, rfl⟩
    · exact ⟨rfl, rfl⟩
  · intro c
    rw [invalidate_blocks, modify_apply]
    split
    · next hc => subst hc; exact h.refCnt c
    · exact h.refCnt c
  · intro q x c hc
    obtain ⟨hne, hc⟩ := h.indexed.invalidate hb hc
    obtain ⟨hin, hhash⟩ := h.indexed q x c hc
    refine ⟨ht.inPartition.mpr hin, ?_⟩
    rw [invalidate_blocks, modify_ne _ hne, hhash]

/-- The pool after `b` is published under a hash that no block carries in `p`. -/
def published (pool : GroupBlockPool) (p : Nat) (b : BlockId) (x : Int) : GroupBlockPool :=
  ((pool.dropHash p b).modifyBlock b fun block => { block with blockHash := some x }).setHash
    (p, x) (some b)

theorem sameTables_published (pool : GroupBlockPool) (p : Nat) (b : BlockId) (x : Int) :
    SameTables pool (pool.published p b x) :=
  (sameTables_dropHash pool p b).trans ⟨rfl, rfl, rfl, rfl, rfl⟩

theorem published_blocks (pool : GroupBlockPool) (p : Nat) (b : BlockId) (x : Int) :
    (pool.published p b x).blocks =
      pool.blocks.modify b fun block => { block with blockHash := some x } := by
  rw [published, setHash, modifyBlock_blocks, dropHash_blocks]

theorem sameTables_cacheGroupBlock (pool : GroupBlockPool) (p : Nat) (b : BlockId) (x : Int) :
    SameTables pool (pool.cacheGroupBlock p b x) := by
  unfold cacheGroupBlock
  split
  · split
    · exact .refl pool
    · exact sameTables_invalidate pool p b
  · exact sameTables_published pool p b x

theorem Conserved.published (h : Conserved pool free holders) (hb : pool.InPartition p b)
    (x : Int) : Conserved (pool.published p b x) free holders := by
  have ht := sameTables_published pool p b x
  refine h.rewrite ht (dropHash_freeQueues pool p b) ?_ ?_ (fun _ _ => Iff.rfl) ?_
  · intro c
    rw [published_blocks, modify_apply]
    split
    · next hc => subst hc; exact ⟨rfl, rfl⟩
    · exact ⟨rfl, rfl⟩
  · intro c
    rw [published_blocks, modify_apply]
    split
    · next hc => subst hc; exact h.refCnt c
    · exact h.refCnt c
  · intro q y c hc
    rw [published_blocks]
    simp only [GroupBlockPool.published, setHash, Function.update_apply] at hc
    split at hc
    · next hkey =>
      cases hc
      cases hkey
      exact ⟨ht.inPartition.mpr hb, by simp⟩
    · obtain ⟨hne, hc⟩ := h.indexed.dropHash hb hc
      obtain ⟨hin, hhash⟩ := h.indexed q y c hc
      exact ⟨ht.inPartition.mpr hin, by rw [modify_ne _ hne, hhash]⟩

/-- Publication moves no reference and no queue. -/
theorem Conserved.cacheGroupBlock (h : Conserved pool free holders) (hb : pool.InPartition p b)
    (x : Int) : Conserved (pool.cacheGroupBlock p b x) free holders := by
  unfold GroupBlockPool.cacheGroupBlock
  split
  · split
    · exact h
    · exact h.invalidate hb
  · exact h.published hb x

theorem sameTables_removeFree (pool : GroupBlockPool) (p : Nat) (b : BlockId) :
    SameTables pool (pool.removeFree p b) := ⟨rfl, rfl, rfl, rfl, rfl⟩

theorem sameTables_pushFree (pool : GroupBlockPool) (p : Nat) (b : BlockId) :
    SameTables pool (pool.pushFree p b) := ⟨rfl, rfl, rfl, rfl, rfl⟩

/-- What holds of a pool whose block `b` has left its queue but has no holder yet, or
has lost its last holder but is not queued yet: everything but `b`'s own balance. -/
structure Loose (pool : GroupBlockPool) (free : Nat → List BlockId) (holders : BlockId → Nat)
    (p : Nat) (b : BlockId) : Prop where
  spells : ∀ q < pool.spec.numPartitions, (pool.freeQueues q).Spells pool.blocks (free q)
  inPartition : ∀ q < pool.spec.numPartitions, ∀ c ∈ free q, pool.InPartition q c
  refCnt : ∀ c, (pool.blocks c).refCnt = holders c
  free_iff : ∀ c < pool.totalBlocks, c ≠ b → (holders c = 0 ↔ c ∈ free (pool.home c))
  indexed : pool.Indexed
  home : pool.InPartition p b
  not_mem : b ∉ free p
  unreferenced : holders b = 0

/-- Unlinking a queued block leaves it loose. -/
theorem Conserved.removeFree (h : Conserved pool free holders) (hb : pool.InPartition p b)
    {l₁ l₂ : List BlockId} (hf : free p = l₁ ++ b :: l₂) :
    Loose (pool.removeFree p b) (Function.update free p (l₁ ++ l₂)) holders p b := by
  have hp := hb.lt_numPartitions
  have hs := h.spells p hp
  rw [hf] at hs
  have hdata := FreeKVCacheBlockQueue.remove_sameData (pool.freeQueues p) pool.blocks b
  have hsub : ∀ c, c ∈ l₁ ++ l₂ → c ∈ free p := by
    intro c hc
    rw [hf]
    rcases List.mem_append.mp hc with hc | hc <;> simp [hc]
  have hnot : b ∉ l₁ ++ l₂ := by
    have := hs.isQueue.nodup
    rw [List.nodup_middle] at this
    exact (List.nodup_cons.mp this).1
  constructor
  · intro q hq
    by_cases hqp : q = p
    · subst hqp
      simpa [GroupBlockPool.removeFree] using hs.remove
    · have hptr := hs.remove_samePointers
      have hout : ∀ c ∈ free q, c ∉ l₁ ++ b :: l₂ := by
        intro c hc hc'
        rw [← hf] at hc'
        exact h.not_mem_of_ne hq (h.inPartition p hp c hc') hqp hc
      simpa [GroupBlockPool.removeFree, hqp] using (h.spells q hq).congr
        (fun c hc => (hptr c (hout c hc)).1) (fun c hc => (hptr c (hout c hc)).2)
  · intro q hq c hc
    by_cases hqp : q = p
    · subst hqp
      rw [Function.update_self] at hc
      exact h.inPartition q hq c (hsub c hc)
    · rw [Function.update_of_ne hqp] at hc
      exact h.inPartition q hq c hc
  · intro c
    exact ((hdata c).1).trans (h.refCnt c)
  · intro c hc hne
    rw [h.free_iff c hc]
    show c ∈ free (pool.home c) ↔ c ∈ Function.update free p (l₁ ++ l₂) (pool.home c)
    by_cases hcp : pool.home c = p
    · rw [hcp, Function.update_self, hf]
      simp [hne]
    · rw [Function.update_of_ne hcp]
  · intro q x c hc
    obtain ⟨hin, hhash⟩ := h.indexed q x c hc
    exact ⟨hin, ((hdata c).2).trans hhash⟩
  · exact hb
  · rw [Function.update_self]
    exact hnot
  · exact (h.mem_free_iff hb).mp (by rw [hf]; simp)

/-- Linking a loose block restores the balance. -/
theorem Loose.pushFree (h : Loose pool free holders p b) :
    Conserved (pool.pushFree p b) (Function.update free p (free p ++ [b])) holders := by
  have hp := h.home.lt_numPartitions
  have hs := h.spells p hp
  have hdata := FreeKVCacheBlockQueue.append_sameData (pool.freeQueues p) pool.blocks b
  constructor
  · intro q hq
    by_cases hqp : q = p
    · subst hqp
      simpa [GroupBlockPool.pushFree] using hs.append h.not_mem
    · have hptr := hs.append_samePointers b
      have hout : ∀ c ∈ free q, c ∉ free p ++ [b] := by
        intro c hc hc'
        have hin := h.inPartition q hq c hc
        rcases List.mem_append.mp hc' with hc' | hc'
        · exact hqp (hin.home_eq.symm.trans (h.inPartition p hp c hc').home_eq)
        · rw [List.mem_singleton] at hc'
          subst hc'
          exact hqp (hin.home_eq.symm.trans h.home.home_eq)
      simpa [GroupBlockPool.pushFree, hqp] using (h.spells q hq).congr
        (fun c hc => (hptr c (hout c hc)).1) (fun c hc => (hptr c (hout c hc)).2)
  · intro q hq c hc
    by_cases hqp : q = p
    · subst hqp
      rw [Function.update_self] at hc
      rcases List.mem_append.mp hc with hc | hc
      · exact h.inPartition q hq c hc
      · rw [List.mem_singleton] at hc
        subst hc
        exact h.home
    · rw [Function.update_of_ne hqp] at hc
      exact h.inPartition q hq c hc
  · intro c
    exact ((hdata c).1).trans (h.refCnt c)
  · intro c hc
    show holders c = 0 ↔ c ∈ Function.update free p (free p ++ [b]) (pool.home c)
    by_cases hcb : c = b
    · subst hcb
      rw [h.home.home_eq, Function.update_self]
      simp [h.unreferenced]
    · rw [h.free_iff c hc hcb]
      by_cases hcp : pool.home c = p
      · rw [hcp, Function.update_self]
        simp [hcb]
      · rw [Function.update_of_ne hcp]
  · intro q x c hc
    obtain ⟨hin, hhash⟩ := h.indexed q x c hc
    exact ⟨hin, ((hdata c).2).trans hhash⟩

/-- Giving a loose block its holders restores the balance. -/
theorem Loose.hold (h : Loose pool free holders p b) {n : Nat} (hn : n ≠ 0)
    {f : KVCacheBlock → KVCacheBlock} (hf : ∀ x, x.refCnt = 0 → (f x).refCnt = n)
    (hk : ∀ x, (f x).prevFree = x.prevFree ∧ (f x).nextFree = x.nextFree ∧
      (f x).blockHash = x.blockHash) :
    Conserved (pool.modifyBlock b f) free (Function.update holders b n) := by
  have hkeep : ∀ c, ((pool.modifyBlock b f).blocks c).prevFree = (pool.blocks c).prevFree ∧
      ((pool.modifyBlock b f).blocks c).nextFree = (pool.blocks c).nextFree ∧
      ((pool.modifyBlock b f).blocks c).blockHash = (pool.blocks c).blockHash := by
    intro c
    rw [modifyBlock_blocks, modify_apply]
    split
    · next hc => subst hc; exact hk _
    · exact ⟨rfl, rfl, rfl⟩
  constructor
  · exact fun q hq => (h.spells q hq).congr (fun c _ => (hkeep c).1) (fun c _ => (hkeep c).2.1)
  · exact h.inPartition
  · intro c
    rw [modifyBlock_blocks, modify_apply, Function.update_apply]
    split
    · next hc => subst hc; exact hf _ ((h.refCnt c).trans h.unreferenced)
    · exact h.refCnt c
  · intro c hc
    by_cases hcb : c = b
    · subst hcb
      rw [Function.update_self]
      show n = 0 ↔ c ∈ free (pool.home c)
      rw [h.home.home_eq]
      exact iff_of_false hn h.not_mem
    · rw [Function.update_of_ne hcb]
      exact h.free_iff c hc hcb
  · intro q x c hc
    obtain ⟨hin, hhash⟩ := h.indexed q x c hc
    exact ⟨hin, ((hkeep c).2.2).trans hhash⟩

/-- A held block gains or loses holders as long as one is left. -/
theorem Conserved.recount (h : Conserved pool free holders) (hb : holders b ≠ 0) {n : Nat}
    (hn : n ≠ 0) {f : KVCacheBlock → KVCacheBlock}
    (hf : ∀ x, x.refCnt = holders b → (f x).refCnt = n)
    (hk : ∀ x, (f x).prevFree = x.prevFree ∧ (f x).nextFree = x.nextFree ∧
      (f x).blockHash = x.blockHash) :
    Conserved (pool.modifyBlock b f) free (Function.update holders b n) := by
  refine h.rewrite (sameTables_modifyBlock pool b f) rfl ?_ ?_ ?_ ?_
  · intro c
    rw [modifyBlock_blocks, modify_apply]
    split
    · next hc => subst hc; exact ⟨(hk _).1, (hk _).2.1⟩
    · exact ⟨rfl, rfl⟩
  · intro c
    rw [modifyBlock_blocks, modify_apply, Function.update_apply]
    split
    · next hc => subst hc; exact hf _ (h.refCnt c)
    · exact h.refCnt c
  · intro c _
    rw [Function.update_apply]
    split
    · next hc => subst hc; exact iff_of_false hn hb
    · exact Iff.rfl
  · intro q x c hc
    obtain ⟨hin, hhash⟩ := h.indexed q x c hc
    refine ⟨hin, ?_⟩
    rw [modifyBlock_blocks, modify_apply]
    split
    · next hc => subst hc; exact (hk _).2.2.trans hhash
    · exact hhash

/-- Losing the last holder leaves the block loose. -/
theorem Conserved.loosen (h : Conserved pool free holders) (hb : pool.InPartition p b)
    (hheld : holders b ≠ 0) {f : KVCacheBlock → KVCacheBlock}
    (hf : ∀ x, x.refCnt = holders b → (f x).refCnt = 0)
    (hk : ∀ x, (f x).prevFree = x.prevFree ∧ (f x).nextFree = x.nextFree ∧
      (f x).blockHash = x.blockHash) :
    Loose (pool.modifyBlock b f) free (Function.update holders b 0) p b := by
  have hkeep : ∀ c, ((pool.modifyBlock b f).blocks c).prevFree = (pool.blocks c).prevFree ∧
      ((pool.modifyBlock b f).blocks c).nextFree = (pool.blocks c).nextFree ∧
      ((pool.modifyBlock b f).blocks c).blockHash = (pool.blocks c).blockHash := by
    intro c
    rw [modifyBlock_blocks, modify_apply]
    split
    · next hc => subst hc; exact hk _
    · exact ⟨rfl, rfl, rfl⟩
  constructor
  · exact fun q hq => (h.spells q hq).congr (fun c _ => (hkeep c).1) (fun c _ => (hkeep c).2.1)
  · exact h.inPartition
  · intro c
    rw [modifyBlock_blocks, modify_apply, Function.update_apply]
    split
    · next hc => subst hc; exact hf _ (h.refCnt c)
    · exact h.refCnt c
  · intro c hc hcb
    rw [Function.update_of_ne hcb]
    exact h.free_iff c hc
  · intro q x c hc
    obtain ⟨hin, hhash⟩ := h.indexed q x c hc
    exact ⟨hin, ((hkeep c).2.2).trans hhash⟩
  · exact hb
  · exact fun hmem => hheld ((h.mem_free_iff hb).mp hmem)
  · exact Function.update_self ..

theorem sameTables_reference (pool : GroupBlockPool) (p : Nat) (b : BlockId) :
    SameTables pool (pool.reference p b) := by
  unfold reference
  dsimp only
  split
  · exact (sameTables_removeFree pool p b).trans (sameTables_modifyBlock _ _ _)
  · exact sameTables_modifyBlock _ _ _

/-- One more reference to any block of a partition, queued or not. -/
theorem Conserved.reference (h : Conserved pool free holders) (hb : pool.InPartition p b) :
    ∃ free', Conserved (pool.reference p b) free' (Function.update holders b (holders b + 1)) := by
  unfold GroupBlockPool.reference
  rw [h.refCnt]
  by_cases h0 : holders b = 0
  · obtain ⟨l₁, l₂, hf⟩ := List.append_of_mem ((h.mem_free_iff hb).mpr h0)
    have hl := h.removeFree hb hf
    refine ⟨Function.update free p (l₁ ++ l₂), ?_⟩
    rw [if_pos h0]
    exact hl.hold (by omega) (fun x hx => by simp [hx, h0]) (fun x => ⟨rfl, rfl, rfl⟩)
  · refine ⟨free, ?_⟩
    rw [if_neg h0]
    exact h.recount h0 (by omega) (fun x hx => by simp [hx]) (fun x => ⟨rfl, rfl, rfl⟩)

theorem sameTables_dropReference (pool : GroupBlockPool) (p : Nat) (b : BlockId) :
    SameTables pool (pool.dropReference p b) := by
  unfold dropReference
  dsimp only
  split
  · exact (sameTables_modifyBlock pool b _).trans (sameTables_pushFree _ p b)
  · exact sameTables_modifyBlock _ _ _

/-- One reference less to a held block; the last one queues it. -/
theorem Conserved.dropReference (h : Conserved pool free holders) (hb : pool.InPartition p b)
    (hheld : holders b ≠ 0) :
    Conserved (pool.dropReference p b)
      (if holders b = 1 then Function.update free p (free p ++ [b]) else free)
      (Function.update holders b (holders b - 1)) := by
  unfold GroupBlockPool.dropReference
  simp only [modifyBlock_blocks, modify_self, h.refCnt]
  by_cases h1 : holders b = 1
  · rw [if_pos (by omega), if_pos h1]
    have hl := h.loosen hb hheld (f := fun block => { block with refCnt := block.refCnt - 1 })
      (fun x hx => by simp [hx, h1]) (fun x => ⟨rfl, rfl, rfl⟩)
    rw [show holders b - 1 = 0 by omega]
    exact hl.pushFree
  · rw [if_neg (by omega), if_neg h1]
    exact h.recount hheld (by omega) (fun x hx => by simp [hx]) (fun x => ⟨rfl, rfl, rfl⟩)

/-- Evicting the old contents of a loose block. -/
theorem Loose.invalidate (h : Loose pool free holders p b) :
    Loose (pool.invalidateGroupBlock p b) free holders p b := by
  have ht := sameTables_invalidate pool p b
  have hblocks := invalidate_blocks pool p b
  have hkeep : ∀ c, ((pool.invalidateGroupBlock p b).blocks c).prevFree =
        (pool.blocks c).prevFree ∧
      ((pool.invalidateGroupBlock p b).blocks c).nextFree = (pool.blocks c).nextFree ∧
      ((pool.invalidateGroupBlock p b).blocks c).refCnt = (pool.blocks c).refCnt := by
    intro c
    rw [hblocks, modify_apply]
    split
    · next hc => subst hc; exact ⟨rfl, rfl, rfl⟩
    · exact ⟨rfl, rfl, rfl⟩
  constructor
  · intro q hq
    rw [invalidate_freeQueues]
    rw [ht.spec] at hq
    exact (h.spells q hq).congr (fun c _ => (hkeep c).1) (fun c _ => (hkeep c).2.1)
  · intro q hq c hc
    rw [ht.spec] at hq
    exact ht.inPartition.mpr (h.inPartition q hq c hc)
  · exact fun c => (hkeep c).2.2.trans (h.refCnt c)
  · intro c hc hne
    rw [ht.totalBlocks] at hc
    rw [ht.home]
    exact h.free_iff c hc hne
  · intro q x c hc
    obtain ⟨hne, hc⟩ := h.indexed.invalidate h.home hc
    obtain ⟨hin, hhash⟩ := h.indexed q x c hc
    exact ⟨ht.inPartition.mpr hin, by rw [hblocks, modify_ne _ hne, hhash]⟩
  · exact ht.inPartition.mpr h.home
  · exact h.not_mem
  · exact h.unreferenced

/-- Taking a block hands out the head of the queue, which nobody references, without a
hash and with one holder. -/
theorem Conserved.takeGroupBlock (h : Conserved pool free holders)
    (hp : p < pool.spec.numPartitions) {rest : List BlockId} (hf : free p = b :: rest) :
    ∃ pool', pool.takeGroupBlock p = .ok (b, pool') ∧ SameTables pool pool' ∧
      pool.InPartition p b ∧ holders b = 0 ∧
      Conserved pool' (Function.update free p rest) (Function.update holders b 1) ∧
      (∀ c, c ≠ b → (pool'.blocks c).refCnt = (pool.blocks c).refCnt) := by
  have hb := h.inPartition p hp b (by rw [hf]; simp)
  have hl := h.removeFree hb (show free p = [] ++ b :: rest from hf)
  rw [List.nil_append] at hl
  have hhead : (pool.freeQueues p).head = some b := by
    rw [(h.spells p hp).isQueue.head_eq, hf]
    rfl
  have h0 : ((pool.removeFree p b).blocks b).refCnt = 0 := (hl.refCnt b).trans hl.unreferenced
  have hinv := hl.invalidate
  refine ⟨((pool.removeFree p b).invalidateGroupBlock p b).modifyBlock b
    fun block => { block with refCnt := 1 }, ?_, ?_, hb, hl.unreferenced, ?_, ?_⟩
  · unfold GroupBlockPool.takeGroupBlock
    rw [hhead]
    simp [h0]
  · exact ((sameTables_removeFree pool p b).trans (sameTables_invalidate _ p b)).trans
      (sameTables_modifyBlock _ _ _)
  · exact hinv.hold (by omega) (fun _ _ => rfl) (fun x => ⟨rfl, rfl, rfl⟩)
  · intro c hc
    rw [modifyBlock_blocks, modify_ne _ hc, hinv.refCnt c, h.refCnt c]

end GroupBlockPool
end PyptoServing.Memory
