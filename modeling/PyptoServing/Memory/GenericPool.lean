import PyptoServing.Memory.FreeQueue
import PyptoServing.Memory.KvCacheManager

/-!
# Conservation of the generic pool

`GenericBalanced m free holders`: the free queue spells `free`, a block's reference count is the
number of its holders, the free blocks are those without holders, and the prefix index
points at blocks that carry the hash. Each operation says what it does to the holders.
-/
namespace PyptoServing.Memory.KvCacheManager

open FreeKVCacheBlockQueue BlockHeap

/-- The generic pool with its free list and the number of holders of each block. -/
structure GenericBalanced (m : KvCacheManager) (free : List BlockId) (holders : BlockId → Nat) : Prop where
  spells : m.freeQueue.Spells m.blocks free
  free_lt : ∀ b ∈ free, b < m.numBlocks
  refCnt : ∀ b < m.numBlocks, (m.blocks b).refCnt = holders b
  mem_free : ∀ b < m.numBlocks, b ∈ free ↔ holders b = 0
  index : ∀ h b, m.hashToBlock h = some b → b < m.numBlocks ∧ (m.blocks b).blockHash = some h

/-- Two managers with the same generic dimensions. -/
structure SameDims (m m' : KvCacheManager) : Prop where
  numBlocks : m'.numBlocks = m.numBlocks
  blockSize : m'.blockSize = m.blockSize
  enablePrefixCache : m'.enablePrefixCache = m.enablePrefixCache
  pyHash : m'.pyHash = m.pyHash
  groupPools : m'.groupPools = m.groupPools

/-- The grouped operations leave the generic pool alone. -/
structure SameGeneric (m m' : KvCacheManager) : Prop where
  blocks : m'.blocks = m.blocks
  numBlocks : m'.numBlocks = m.numBlocks
  freeQueue : m'.freeQueue = m.freeQueue
  hashToBlock : m'.hashToBlock = m.hashToBlock
  blockSize : m'.blockSize = m.blockSize
  enablePrefixCache : m'.enablePrefixCache = m.enablePrefixCache
  pyHash : m'.pyHash = m.pyHash

variable {m m' m'' : KvCacheManager} {free : List BlockId} {holders : BlockId → Nat} {b : BlockId}

theorem SameDims.refl (m : KvCacheManager) : SameDims m m := ⟨rfl, rfl, rfl, rfl, rfl⟩

theorem SameDims.trans (h : SameDims m m') (h' : SameDims m' m'') : SameDims m m'' :=
  ⟨h'.numBlocks.trans h.numBlocks, h'.blockSize.trans h.blockSize,
    h'.enablePrefixCache.trans h.enablePrefixCache, h'.pyHash.trans h.pyHash,
    h'.groupPools.trans h.groupPools⟩

theorem SameGeneric.refl (m : KvCacheManager) : SameGeneric m m := ⟨rfl, rfl, rfl, rfl, rfl, rfl, rfl⟩

theorem SameGeneric.trans (h : SameGeneric m m') (h' : SameGeneric m' m'') : SameGeneric m m'' :=
  ⟨h'.blocks.trans h.blocks, h'.numBlocks.trans h.numBlocks, h'.freeQueue.trans h.freeQueue,
    h'.hashToBlock.trans h.hashToBlock, h'.blockSize.trans h.blockSize,
    h'.enablePrefixCache.trans h.enablePrefixCache, h'.pyHash.trans h.pyHash⟩

/-- Writing a block outside the queue does not move the queue. -/
theorem spells_modify {q : FreeKVCacheBlockQueue} {heap : BlockHeap} {l : List BlockId}
    (h : q.Spells heap l) (hb : b ∉ l) (f : KVCacheBlock → KVCacheBlock) :
    q.Spells (heap.modify b f) l := by
  have hne : ∀ c ∈ l, c ≠ b := fun c hc he => hb (he ▸ hc)
  refine h.congr (fun c hc => ?_) fun c hc => ?_
  · rw [prev_apply, prev_apply, modify_ne _ (hne c hc)]
  · rw [next_apply, next_apply, modify_ne _ (hne c hc)]

/-- A count written to one block is the only one that changes. -/
theorem modify_refCnt {heap heap' : BlockHeap} {f : KVCacheBlock → KVCacheBlock} {n : Nat}
    (hdata : SameData heap heap') (hf : (f (heap' b)).refCnt = n) (c : BlockId) :
    (heap'.modify b f c).refCnt = if c = b then n else (heap c).refCnt := by
  rw [modify_apply]
  split
  · exact hf
  · exact (hdata c).1

/-- Rewriting other fields of a block keeps every hash. -/
theorem modify_blockHash (heap : BlockHeap) (b : BlockId) {f : KVCacheBlock → KVCacheBlock}
    (hf : ∀ x, (f x).blockHash = x.blockHash) (c : BlockId) :
    (heap.modify b f c).blockHash = (heap c).blockHash := by
  rw [modify_apply]
  split
  · next hc => rw [hf, hc]
  · rfl

namespace GenericBalanced

theorem congr (h : GenericBalanced m free holders) (hs : SameGeneric m m') : GenericBalanced m' free holders := by
  constructor
  · rw [hs.freeQueue, hs.blocks]
    exact h.spells
  · rw [hs.numBlocks]
    exact h.free_lt
  · rw [hs.numBlocks, hs.blocks]
    exact h.refCnt
  · rw [hs.numBlocks]
    exact h.mem_free
  · rw [hs.hashToBlock, hs.numBlocks, hs.blocks]
    exact h.index

theorem recount {holders' : BlockId → Nat} (h : GenericBalanced m free holders)
    (heq : ∀ b, holders' b = holders b) : GenericBalanced m free holders' := by
  rwa [funext heq]

/-- The free blocks are counted. -/
theorem numFreeBlocks (h : GenericBalanced m free holders) : m.numFreeBlocks = free.length :=
  h.spells.count_eq

theorem free_nodup (h : GenericBalanced m free holders) : free.Nodup := h.spells.isQueue.nodup

/-- One block gets a new count: it is free exactly when that is zero. -/
theorem recountBlock {q : FreeKVCacheBlockQueue} {blocks : BlockHeap} {free' : List BlockId}
    {n : Nat} (h : GenericBalanced m free holders) (hb : b < m.numBlocks)
    (hspells : q.Spells blocks free')
    (hcnt : ∀ c, (blocks c).refCnt = if c = b then n else (m.blocks c).refCnt)
    (hhash : ∀ c, (blocks c).blockHash = (m.blocks c).blockHash)
    (hmem : ∀ c, c ∈ free' ↔ c ≠ b ∧ c ∈ free ∨ c = b ∧ n = 0) :
    GenericBalanced { m with freeQueue := q, blocks := blocks } free'
      (Function.update holders b n) := by
  refine ⟨hspells, fun c hc => ?_, fun c hc => ?_, fun c hc => ?_, fun x c hx => ?_⟩
  · rcases (hmem c).mp hc with ⟨-, hc⟩ | ⟨rfl, -⟩
    · exact h.free_lt c hc
    · exact hb
  · dsimp only at hc ⊢
    rw [hcnt, Function.update_apply, h.refCnt c hc]
  · rw [hmem, Function.update_apply]
    split
    · next hcb => simp [hcb]
    · next hcb =>
      rw [← h.mem_free c hc]
      simp [hcb]
  · obtain ⟨hlt, hold⟩ := h.index x c hx
    exact ⟨hlt, (hhash c).trans hold⟩

/-- Giving back one reference. -/
theorem release (h : GenericBalanced m free holders) (hb : b < m.numBlocks) (hh : holders b ≠ 0) :
    ∃ free', GenericBalanced (m.release b) free' (Function.update holders b (holders b - 1)) ∧
      SameDims m (m.release b) := by
  have href := h.refCnt b hb
  have hnot : b ∉ free := fun hf => hh ((h.mem_free b hb).mp hf)
  have hspells : m.freeQueue.Spells
      (m.blocks.modify b fun block => { block with refCnt := block.refCnt - 1 }) free :=
    spells_modify h.spells hnot _
  have hcnt := modify_refCnt (.refl m.blocks) (b := b) (n := holders b - 1)
    (f := fun block => { block with refCnt := block.refCnt - 1 }) (by rw [href])
  have hhash := modify_blockHash m.blocks b
    (f := fun block => { block with refCnt := block.refCnt - 1 }) fun _ => rfl
  unfold KvCacheManager.release
  rw [if_neg (by rw [href]; exact hh)]
  dsimp only
  rw [modify_self]
  dsimp only
  rw [href]
  split
  · next hlast =>
    refine ⟨free ++ [b], h.recountBlock hb (hspells.append hnot) (fun c => ?_) (fun c => ?_)
      fun c => ?_, ⟨rfl, rfl, rfl, rfl, rfl⟩⟩
    · rw [(append_sameData _ _ b c).1, hcnt]
    · rw [(append_sameData _ _ b c).2, hhash]
    · by_cases hcb : c = b <;> simp [hcb, hlast]
  · next hmore =>
    refine ⟨free, h.recountBlock hb hspells hcnt hhash fun c => ?_, ⟨rfl, rfl, rfl, rfl, rfl⟩⟩
    by_cases hcb : c = b
    · simp [hcb, hmore, hnot]
    · simp [hcb]

/-- Giving back one reference for each block of a list. -/
theorem releaseBlocksByIds {ids : List BlockId} (h : GenericBalanced m free holders)
    (hlt : ∀ b ∈ ids, b < m.numBlocks) (hcount : ∀ b, ids.count b ≤ holders b) :
    ∃ free', GenericBalanced (m.releaseBlocksByIds ids) free' (fun b => holders b - ids.count b) ∧
      SameDims m (m.releaseBlocksByIds ids) := by
  induction ids generalizing m free holders with
  | nil => exact ⟨free, h.recount (by simp), .refl m⟩
  | cons b ids ih =>
    have hb := hcount b
    rw [List.count_cons_self] at hb
    obtain ⟨f₁, h₁, hd₁⟩ := h.release (hlt b (by simp)) (by omega)
    have hle : ∀ c, ids.count c ≤ Function.update holders b (holders b - 1) c := by
      intro c
      have hc := hcount c
      rw [Function.update_apply]
      split
      · next hcb =>
        subst hcb
        omega
      · next hcb => rwa [List.count_cons_of_ne (Ne.symm hcb)] at hc
    obtain ⟨f₂, h₂, hd₂⟩ := ih h₁ (fun c hc => by
      rw [hd₁.numBlocks]
      exact hlt c (by simp [hc])) hle
    refine ⟨f₂, h₂.recount fun c => ?_, hd₁.trans hd₂⟩
    rw [Function.update_apply]
    split
    · next hcb =>
      subst hcb
      rw [List.count_cons_self]
      omega
    · next hcb => rw [List.count_cons_of_ne (Ne.symm hcb)]

/-- Taking a block drops the entry of its hash, if it has one, and no other. -/
theorem takeBlock_eq (m : KvCacheManager) (b : BlockId) :
    ∃ index, m.takeBlock b =
      { m with
        freeQueue := (m.freeQueue.remove m.blocks b).1
        blocks := (m.freeQueue.remove m.blocks b).2.modify b fun block =>
          { block with blockHash := none, refCnt := 1 }
        hashToBlock := index } ∧
      ∀ x c, index x = some c → m.hashToBlock x = some c ∧ (m.blocks b).blockHash ≠ some x := by
  unfold KvCacheManager.takeBlock
  dsimp only
  rw [(remove_sameData m.freeQueue m.blocks b b).2]
  cases (m.blocks b).blockHash with
  | none => exact ⟨_, rfl, fun x c hc => ⟨hc, by simp⟩⟩
  | some y =>
    refine ⟨_, rfl, fun x c hc => ?_⟩
    replace hc : Function.update m.hashToBlock y none x = some c := hc
    rw [Function.update_apply] at hc
    split at hc
    · cases hc
    · next hxy => exact ⟨hc, fun he => hxy (Option.some.inj he).symm⟩

/-- The first free block is taken: it is evicted from the index and has one holder. -/
theorem takeBlock (h : GenericBalanced m (b :: free) holders) :
    GenericBalanced (m.takeBlock b) free (Function.update holders b 1) ∧
      SameDims m (m.takeBlock b) := by
  have hspells : Spells m.freeQueue m.blocks ([] ++ b :: free) := h.spells
  have hq := hspells.remove
  rw [List.nil_append] at hq
  have hdata := remove_sameData m.freeQueue m.blocks b
  have hnd := h.free_nodup
  rw [List.nodup_cons] at hnd
  obtain ⟨index, htake, hindex⟩ := takeBlock_eq m b
  rw [htake]
  refine ⟨⟨?_, fun c hc => h.free_lt c (by simp [hc]), ?_, ?_, ?_⟩, ⟨rfl, rfl, rfl, rfl, rfl⟩⟩
  · exact spells_modify hq hnd.1 fun block => { block with blockHash := none, refCnt := 1 }
  · intro c hc
    dsimp only at hc ⊢
    rw [modify_refCnt hdata rfl, Function.update_apply, h.refCnt c hc]
  · intro c hc
    rw [Function.update_apply]
    split
    · next hcb =>
      subst hcb
      simp [hnd.1]
    · next hcb =>
      rw [← h.mem_free c hc]
      simp [hcb]
  · intro x c hx
    obtain ⟨hold, hstale⟩ := hindex x c hx
    obtain ⟨hlt, hhash⟩ := h.index x c hold
    have hcb : c ≠ b := fun he => hstale (by rw [← he, hhash])
    refine ⟨hlt, ?_⟩
    dsimp only
    rw [modify_ne _ hcb, (hdata c).2, hhash]

/-- The loop takes the first blocks of the free list. -/
theorem allocateLoop {n : Nat} (h : GenericBalanced m free holders) (taken : List BlockId)
    (hn : n ≤ free.length) :
    ∃ m', m.allocateLoop taken n = (some (taken ++ free.take n), m') ∧
      GenericBalanced m' (free.drop n) (fun b => if b ∈ free.take n then 1 else holders b) ∧
      SameDims m m' := by
  induction n generalizing m free holders taken with
  | zero => exact ⟨m, by simp [KvCacheManager.allocateLoop], h.recount (by simp), .refl m⟩
  | succ n ih =>
    cases free with
    | nil => simp at hn
    | cons b free =>
      obtain ⟨h₁, hd₁⟩ := h.takeBlock
      obtain ⟨m', hm', h₂, hd₂⟩ := ih h₁ (taken ++ [b]) (by simpa using hn)
      have hnd := h.free_nodup
      rw [List.nodup_cons] at hnd
      refine ⟨m', ?_, h₂.recount fun c => ?_, hd₁.trans hd₂⟩
      · have hhead : m.freeQueue.head = some b := h.spells.isQueue.head_eq
        rw [KvCacheManager.allocateLoop, hhead]
        dsimp only
        rw [hm', List.append_assoc]
        rfl
      · simp only [List.take_succ_cons, List.mem_cons, Function.update_apply]
        by_cases hcb : c = b
        · simp [hcb]
        · simp [hcb]

/-- Allocating: the new blocks were free and get one holder each. -/
theorem allocateBlockIds {n : Nat} {res : Option (List BlockId)}
    (h : GenericBalanced m free holders) (hr : m.allocateBlockIds n = (res, m')) :
    SameDims m m' ∧
      ((res = none ∧ m' = m) ∨ ∃ ids, res = some ids ∧ ids.length = n ∧ ids.Nodup ∧
        (∀ b ∈ ids, b < m.numBlocks ∧ holders b = 0) ∧
        GenericBalanced m' (free.drop n) fun b => holders b + ids.count b) := by
  unfold KvCacheManager.allocateBlockIds at hr
  split at hr
  · next hz =>
    cases hr
    subst hz
    exact ⟨.refl m, .inr ⟨[], rfl, rfl, List.nodup_nil, by simp, h.recount (by simp)⟩⟩
  · split at hr
    · cases hr
      exact ⟨.refl m, .inl ⟨rfl, rfl⟩⟩
    · next hroom =>
      rw [h.numFreeBlocks, not_lt] at hroom
      obtain ⟨m₁, hm₁, h₁, hd⟩ := h.allocateLoop [] hroom
      rw [hm₁, List.nil_append] at hr
      cases hr
      have hfree : ∀ b ∈ free.take n, b < m.numBlocks ∧ holders b = 0 := fun b hb =>
        have hmem := List.mem_of_mem_take hb
        ⟨h.free_lt b hmem, (h.mem_free b (h.free_lt b hmem)).mp hmem⟩
      have hnd := h.free_nodup.sublist (List.take_sublist n free)
      refine ⟨hd, .inr ⟨_, rfl, by rw [List.length_take, min_eq_left hroom], hnd, hfree, h₁.recount fun b => ?_⟩⟩
      split
      · next hb => rw [(hfree b hb).2, List.count_eq_one_of_mem hnd hb]
      · next hb => rw [List.count_eq_zero_of_not_mem hb, Nat.add_zero]

/-- A block of the pool gets one more holder: it is off the queue, or leaves it. -/
theorem addHolder {q : FreeKVCacheBlockQueue} {blocks : BlockHeap} {free' : List BlockId}
    (h : GenericBalanced m free holders) (hb : b < m.numBlocks) (hspells : q.Spells blocks free')
    (hdata : SameData m.blocks blocks) (hmem : ∀ c, c ∈ free' ↔ c ≠ b ∧ c ∈ free) :
    GenericBalanced
      { m with
        freeQueue := q
        blocks := blocks.modify b fun block => { block with refCnt := block.refCnt + 1 } } free'
      (Function.update holders b (holders b + 1)) := by
  have hout : b ∉ free' := fun hf => ((hmem b).mp hf).1 rfl
  refine h.recountBlock hb (spells_modify hspells hout _) (modify_refCnt hdata ?_)
    (fun c => (modify_blockHash blocks b ?_ c).trans (hdata c).2) fun c => ?_
  · dsimp only
    rw [(hdata b).1, h.refCnt b hb]
  · exact fun _ => rfl
  · simp [hmem]

/-- Looking a hash up takes one more reference to the block that carries it. -/
theorem getCachedBlock {x : Int} (h : GenericBalanced m free holders)
    (hr : m.getCachedBlock x = (some b, m')) :
    b < m.numBlocks ∧ (m.blocks b).blockHash = some x ∧ SameDims m m' ∧
      (∀ c, (m'.blocks c).blockHash = (m.blocks c).blockHash) ∧
      ∃ free', GenericBalanced m' free' (Function.update holders b (holders b + 1)) := by
  unfold KvCacheManager.getCachedBlock at hr
  split at hr
  · cases hr
  · split at hr
    · cases hr
    · next b' hx =>
      obtain ⟨hlt, hhash⟩ := h.index x b' hx
      have href := h.refCnt b' hlt
      by_cases hzero : (m.blocks b').refCnt = 0
      · -- no request holds the block, so it leaves the free queue first
        have hfree : b' ∈ free := (h.mem_free b' hlt).mpr (by rw [← href, hzero])
        obtain ⟨l₁, l₂, rfl⟩ := List.append_of_mem hfree
        have hnd := h.free_nodup
        rw [List.nodup_middle, List.nodup_cons] at hnd
        have hdata := remove_sameData m.freeQueue m.blocks b'
        simp only [if_pos hzero] at hr
        cases hr
        refine ⟨hlt, hhash, ⟨rfl, rfl, rfl, rfl, rfl⟩, fun c => ?_, l₁ ++ l₂,
          h.addHolder hlt h.spells.remove hdata fun c => ?_⟩
        · refine (modify_blockHash _ b ?_ c).trans (hdata c).2
          exact fun _ => rfl
        constructor
        · intro hc
          refine ⟨fun he => hnd.1 (he ▸ hc), ?_⟩
          rcases List.mem_append.mp hc with hc | hc <;> simp [hc]
        · rintro ⟨hne, hc⟩
          simpa [hne] using hc
      · simp only [if_neg hzero] at hr
        cases hr
        have hout : b ∉ free := fun hf => hzero (by rw [href, (h.mem_free b hlt).mp hf])
        refine ⟨hlt, hhash, ⟨rfl, rfl, rfl, rfl, rfl⟩,
          modify_blockHash m.blocks _ fun _ => rfl, free,
          h.addHolder hlt h.spells (.refl m.blocks) fun c => ?_⟩
        exact ⟨fun hc => ⟨fun he => hout (he ▸ hc), hc⟩, fun hc => hc.2⟩

theorem getCachedBlock_none {x : Int} (hr : m.getCachedBlock x = (none, m')) : m' = m := by
  unfold KvCacheManager.getCachedBlock at hr
  split at hr
  · cases hr
    rfl
  · split at hr <;> cases hr
    rfl

/-- The blocks of a hit carry the looked up hashes in order and get one more holder each. -/
theorem hitLoop {n : Nat} {hashes : List Int} {ids : List BlockId}
    (h : GenericBalanced m free holders) (hr : m.hitLoop n hashes = (ids, m')) :
    (∀ b ∈ ids, b < m.numBlocks) ∧ SameDims m m' ∧
      ids.map (fun b => (m.blocks b).blockHash) = (hashes.take ids.length).map some ∧
      ∃ free', GenericBalanced m' free' fun b => holders b + ids.count b := by
  induction n generalizing m free holders hashes ids with
  | zero =>
    cases hr
    exact ⟨by simp, .refl _, by simp, free, h.recount (by simp)⟩
  | succ n ih =>
    cases hashes with
    | nil =>
      cases hr
      exact ⟨by simp, .refl _, by simp, free, h.recount (by simp)⟩
    | cons x hashes =>
      rw [KvCacheManager.hitLoop] at hr
      split at hr
      · next m₁ hget =>
        cases hr
        rw [getCachedBlock_none hget]
        exact ⟨by simp, .refl _, by simp, free, h.recount (by simp)⟩
      · next b m₁ hget =>
        obtain ⟨hlt, hhash, hd₁, hkeep, f₁, h₁⟩ := h.getCachedBlock hget
        cases hloop : m₁.hitLoop n hashes with
        | mk rest m₂ =>
          rw [hloop] at hr
          cases hr
          obtain ⟨hlt₂, hd₂, hmap, f₂, h₂⟩ := ih h₁ hloop
          refine ⟨?_, hd₁.trans hd₂, ?_, f₂, h₂.recount fun c => ?_⟩
          · intro c hc
            rcases List.mem_cons.mp hc with rfl | hc
            · exact hlt
            · rw [← hd₁.numBlocks]
              exact hlt₂ c hc
          · simp only [hkeep] at hmap
            simp [hhash, hmap]
          · dsimp only
            rw [Function.update_apply]
            split
            · next hcb =>
              subst hcb
              rw [List.count_cons_self]
              omega
            · next hcb => rw [List.count_cons_of_ne (Ne.symm hcb)]

/-- The blocks of a prefix hit are different when the hashes are. -/
theorem getComputedBlocks {tokenIds : List Int} {ids : List BlockId}
    (h : GenericBalanced m free holders)
    (hsep : (m.pyHash.iterTokenBlockHashes tokenIds m.blockSize).Nodup)
    (hr : m.getComputedBlocks tokenIds = (ids, m')) :
    ids.Nodup ∧ (∀ b ∈ ids, b < m.numBlocks) ∧ SameDims m m' ∧
      ∃ free', GenericBalanced m' free' fun b => holders b + ids.count b := by
  unfold KvCacheManager.getComputedBlocks at hr
  split at hr
  · cases hr
    exact ⟨List.nodup_nil, by simp, .refl m, free, h.recount (by simp)⟩
  · obtain ⟨hlt, hd, hmap, hfree⟩ := h.hitLoop hr
    refine ⟨?_, hlt, hd, hfree⟩
    apply List.Nodup.of_map (fun b => (m.blocks b).blockHash)
    rw [hmap]
    exact List.Nodup.map (fun _ _ => Option.some.inj) (hsep.sublist (List.take_sublist _ _))

/-- Publishing a block changes the index only. -/
theorem cacheBlock (h : GenericBalanced m free holders) (hb : b < m.numBlocks) (x : Int) :
    GenericBalanced (m.cacheBlock b x) free holders ∧ SameDims m (m.cacheBlock b x) := by
  unfold KvCacheManager.cacheBlock
  split
  · exact ⟨h, .refl m⟩
  · refine ⟨⟨?_, h.free_lt, ?_, h.mem_free, ?_⟩, ⟨rfl, rfl, rfl, rfl, rfl⟩⟩
    · refine h.spells.congr (fun c _ => ?_) fun c _ => ?_ <;>
      · simp only [prev_apply, next_apply, modify_apply]
        split
        · next hc => rw [hc]
        · rfl
    · intro c hc
      dsimp only at hc ⊢
      rw [modify_apply]
      split
      · next hcb =>
        subst hcb
        exact h.refCnt c hc
      · exact h.refCnt c hc
    · intro y c hy
      dsimp only at hy ⊢
      rw [Function.update_apply] at hy
      rw [modify_apply]
      split at hy
      · next hyx =>
        cases hy
        subst hyx
        exact ⟨hb, by rw [if_pos rfl]⟩
      · next hyx =>
        have hold : m.hashToBlock y = some c ∧ (m.blocks b).blockHash ≠ some y := by
          cases hx : (m.blocks b).blockHash with
          | none =>
            rw [hx] at hy
            exact ⟨hy, by simp⟩
          | some z =>
            rw [hx] at hy
            dsimp only at hy
            rw [Function.update_apply] at hy
            split at hy
            · cases hy
            · next hyz => exact ⟨hy, fun he => hyz (Option.some.inj he).symm⟩
        obtain ⟨hlt, hhash⟩ := h.index y c hold.1
        have hcb : c ≠ b := fun he => hold.2 (by rw [← he, hhash])
        rw [if_neg hcb]
        exact ⟨hlt, hhash⟩

/-- Publishing a range of blocks. -/
theorem cacheBlockIds {ids : List BlockId} (h : GenericBalanced m free holders)
    (hlt : ∀ b ∈ ids, b < m.numBlocks) (hashes : List Int) (first last : Nat) :
    GenericBalanced (m.cacheBlockIds ids hashes first last) free holders ∧
      SameDims m (m.cacheBlockIds ids hashes first last) := by
  have hfold : ∀ (l : List (BlockId × Int)) (m : KvCacheManager), GenericBalanced m free holders →
      (∀ e ∈ l, e.1 < m.numBlocks) →
      GenericBalanced (l.foldl (fun m e => m.cacheBlock e.1 e.2) m) free holders ∧
        SameDims m (l.foldl (fun m e => m.cacheBlock e.1 e.2) m) := by
    intro l
    induction l with
    | nil => exact fun m h _ => ⟨h, .refl m⟩
    | cons e l ih =>
      intro m h hl
      obtain ⟨h₁, hd₁⟩ := h.cacheBlock (hl e (by simp)) e.2
      obtain ⟨h₂, hd₂⟩ := ih _ h₁ fun e' he' => by
        rw [hd₁.numBlocks]
        exact hl e' (by simp [he'])
      exact ⟨h₂, hd₁.trans hd₂⟩
  unfold KvCacheManager.cacheBlockIds
  split
  · exact ⟨h, .refl m⟩
  · refine hfold _ m h fun e he => hlt e.1 ?_
    have hzip := List.mem_of_mem_take (List.mem_of_mem_drop he)
    exact (List.of_mem_zip hzip).1

/-- A fresh pool: every block is free. -/
theorem initBlocks {numBlocks blockSize : Nat} (hm : m.numBlocks = 0)
    (hqueue : m.freeQueue = {}) (hindex : m.hashToBlock = fun _ => none)
    (hr : m.initBlocks numBlocks blockSize = .ok m') :
    GenericBalanced m' (List.range numBlocks) (fun _ => 0) ∧ m'.numBlocks = numBlocks ∧
      m'.pyHash = m.pyHash := by
  unfold KvCacheManager.initBlocks at hr
  rw [if_neg (by simp [hm]), hqueue] at hr
  cases hr
  have hnodup : ([] ++ List.range numBlocks : List BlockId).Nodup := by
    simpa using List.nodup_range
  have hq := (spells_empty (fun _ => {})).appendN hnodup
  have hdata := appendN_sameData {} (fun _ => {}) (List.range numBlocks)
  refine ⟨⟨by simpa using hq, fun b hb => List.mem_range.mp hb, fun b _ => (hdata b).1,
    fun b hb => ?_, fun x b hx => ?_⟩, rfl, rfl⟩
  · simpa using hb
  · dsimp only at hx
    rw [hindex] at hx
    cases hx

end GenericBalanced

end PyptoServing.Memory.KvCacheManager
