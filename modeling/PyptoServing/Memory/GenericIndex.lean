import Mathlib.Data.List.Nodup
import Mathlib.Data.List.Perm.Subperm
import PyptoServing.Lib.Machine
import PyptoServing.Lib.TagIndex
import PyptoServing.Memory.GenericPool

/-!
# The generic hash index

`hash_to_block` of the generic pool, under any sequence of allocations, publications, lookups
and releases. An entry always names a block with its hash. Two blocks may carry one hash;
when one of them is evicted or republished, the entry goes and the other is not found.
-/
namespace PyptoServing.Memory.KvCacheManager

open BlockHeap Lib

variable {m m' : KvCacheManager} {free : List BlockId} {holders : BlockId → Nat} {b : BlockId}

/-- The hash a block was published under. -/
def hashOf (m : KvCacheManager) (b : BlockId) : Option Int := (m.blocks b).blockHash

/-- The blocks of the pool. -/
def blockSet (m : KvCacheManager) : Set BlockId := {b | b < m.numBlocks}

/-- Hashes and index are left alone. -/
structure SameHashes (m m' : KvCacheManager) : Prop where
  hashOf : m'.hashOf = m.hashOf
  hashToBlock : m'.hashToBlock = m.hashToBlock

/-- Rewriting the hash of one block. -/
theorem modify_setHash (heap : BlockHeap) (b : BlockId) {f : KVCacheBlock → KVCacheBlock}
    {x : Option Int} (hf : ∀ block, (f block).blockHash = x) (c : BlockId) :
    (heap.modify b f c).blockHash = if c = b then x else (heap c).blockHash := by
  rw [modify_apply]
  split
  · exact hf _
  · rfl

theorem release_sameHashes (m : KvCacheManager) (b : BlockId) : SameHashes m (m.release b) := by
  have hheap := modify_blockHash m.blocks b
    (f := fun block => { block with refCnt := block.refCnt - 1 }) fun _ => rfl
  unfold release
  split
  · exact ⟨rfl, rfl⟩
  · dsimp only
    split
    · refine ⟨funext fun c => ?_, rfl⟩
      exact ((FreeKVCacheBlockQueue.append_sameData _ _ b c).2).trans (hheap c)
    · exact ⟨funext hheap, rfl⟩

theorem getCachedBlock_sameHashes (m : KvCacheManager) (x : Int) :
    SameHashes m (m.getCachedBlock x).2 := by
  unfold getCachedBlock
  split
  · exact ⟨rfl, rfl⟩
  · split
    · exact ⟨rfl, rfl⟩
    · next b hx =>
      have hheap : ∀ heap : BlockHeap, ∀ c, (heap.modify b
          (fun block => { block with refCnt := block.refCnt + 1 }) c).blockHash =
            (heap c).blockHash :=
        fun heap => modify_blockHash heap b fun _ => rfl
      dsimp only
      split
      · refine ⟨funext fun c => ?_, rfl⟩
        exact (hheap _ c).trans (FreeKVCacheBlockQueue.remove_sameData _ _ b c).2
      · exact ⟨funext fun c => hheap _ c, rfl⟩

/-- Evicting a block: its hash and the entry under the hash go. -/
theorem takeBlock_hashes (m : KvCacheManager) (b : BlockId) :
    (m.takeBlock b).hashOf = Function.update m.hashOf b none ∧
      (m.takeBlock b).hashToBlock =
        match m.hashOf b with
        | none => m.hashToBlock
        | some x => Function.update m.hashToBlock x none := by
  have hdata := FreeKVCacheBlockQueue.remove_sameData m.freeQueue m.blocks b
  have hx : ((m.freeQueue.remove m.blocks b).2 b).blockHash = m.hashOf b := (hdata b).2
  unfold takeBlock
  dsimp only
  rw [hx]
  constructor
  · have hheap := modify_setHash (m.freeQueue.remove m.blocks b).2 b
      (f := fun block => { block with blockHash := none, refCnt := 1 }) (x := none) fun _ => rfl
    funext c
    have hc : m.hashOf c = ((m.freeQueue.remove m.blocks b).2 c).blockHash := ((hdata c).2).symm
    rw [Function.update_apply, hc]
    cases m.hashOf b <;> exact hheap c
  · cases m.hashOf b <;> rfl

/-- Publishing a block: the entry under its old hash goes, and it takes the new one. -/
theorem cacheBlock_hashes (hon : m.enablePrefixCache = true) (b : BlockId) (x : Int) :
    (m.cacheBlock b x).hashOf = Function.update m.hashOf b (some x) ∧
      (m.cacheBlock b x).hashToBlock = Function.update
        (match m.hashOf b with
          | some y => Function.update m.hashToBlock y none
          | none => m.hashToBlock) x (some b) := by
  unfold cacheBlock
  rw [if_neg (by simp [hon])]
  refine ⟨funext fun c => ?_, rfl⟩
  rw [Function.update_apply]
  exact modify_setHash m.blocks b (fun _ => rfl) c

theorem cacheBlock_off (hoff : m.enablePrefixCache = false) (b : BlockId) (x : Int) :
    m.cacheBlock b x = m := by
  rw [cacheBlock, if_pos (by simp [hoff])]

/-- Every hash on a block of `S` is found in the index. -/
def Found (m : KvCacheManager) (S : Set BlockId) : Prop :=
  TagIndex.CompleteOn S m.hashOf m.hashToBlock

theorem Found.of_same {S : Set BlockId} (h : Found m S) (hs : SameHashes m m') : Found m' S := by
  rw [Found, hs.hashOf, hs.hashToBlock]
  exact h

/-- No other block of `S` carries the hash of `b`. -/
def Alone (m : KvCacheManager) (S : Set BlockId) (b : BlockId) : Prop :=
  ∀ c ∈ S, c ≠ b → m.hashOf b ≠ none → m.hashOf c ≠ m.hashOf b

theorem Found.takeBlock {S : Set BlockId} (h : Found m S) (ha : Alone m S b) :
    Found (m.takeBlock b) S := by
  obtain ⟨htag, hindex⟩ := takeBlock_hashes m b
  rw [Found, htag, hindex]
  cases hx : m.hashOf b with
  | none =>
    rw [Function.update_eq_self_iff.mpr hx.symm]
    exact h
  | some x =>
    refine TagIndex.CompleteOn.clear h hx fun c hc hne htag => ?_
    exact ha c hc hne (by simp [hx]) (by rw [htag, hx])

/-- Evicting the blocks of `l`: the hashes on the others stay found. -/
theorem Found.takeBlocks {S : Set BlockId} (l : List BlockId) (hout : ∀ b ∈ l, b ∉ S)
    (h : Found m S) (ha : ∀ b ∈ l, Alone m S b) :
    Found (l.foldl KvCacheManager.takeBlock m) S ∧
      (l.foldl KvCacheManager.takeBlock m).hashOf = fun c => if c ∈ l then none else m.hashOf c := by
  induction l generalizing m with
  | nil => exact ⟨h, by simp⟩
  | cons b l ih =>
    have htag := (takeBlock_hashes m b).1
    have hother : ∀ c ∈ S, (m.takeBlock b).hashOf c = m.hashOf c := by
      intro c hc
      have hne : c ≠ b := fun he => hout b (by simp) (he ▸ hc)
      rw [htag, Function.update_of_ne hne]
    obtain ⟨hfound, hafter⟩ := ih (m := m.takeBlock b) (fun c hc => hout c (by simp [hc]))
      (h.takeBlock (ha b (by simp))) fun c hc d hd hdc hsome => by
        rw [hother d hd]
        rw [htag, Function.update_apply] at hsome ⊢
        split
        · next hcb =>
          rw [if_pos hcb] at hsome
          exact absurd rfl hsome
        · next hcb =>
          rw [if_neg hcb] at hsome
          exact ha c (by simp [hc]) d hd hdc hsome
    refine ⟨hfound, ?_⟩
    rw [List.foldl_cons, hafter, htag]
    funext c
    rw [Function.update_apply]
    by_cases hcl : c ∈ l
    · simp [hcl]
    · by_cases hcb : c = b <;> simp [hcl, hcb]

/-- Publishing a block under a new hash takes the entry of its old one along. -/
theorem Found.cacheBlock {S : Set BlockId} (h : Found m S) (x : Int)
    (ha : m.hashOf b = some x ∨ Alone m S b) : Found (m.cacheBlock b x) S := by
  cases hon : m.enablePrefixCache with
  | false =>
    rw [cacheBlock_off hon]
    exact h
  | true =>
    obtain ⟨htag, hindex⟩ := cacheBlock_hashes hon b x
    rw [Found, htag, hindex]
    cases hy : m.hashOf b with
    | none => exact TagIndex.CompleteOn.put h b x fun c hc => .inl hc
    | some y =>
      dsimp only
      -- Without the old entry the other carriers of the old hash are the only ones not found.
      have hcleared : TagIndex.CompleteOn {c | c ∈ S ∧ m.hashOf c ≠ some y}
          (Function.update m.hashOf b none) (Function.update m.hashToBlock y none) :=
        (h.mono fun c hc => .inl hc.1).clear hy fun c hc _ => hc.2
      have hput := hcleared.put (T := S) b x fun c hc => by
        by_cases hcb : c = b
        · exact .inr (.inl hcb)
        · by_cases hsame : m.hashOf c = some y
          · refine .inr (.inr ?_)
            rw [Function.update_of_ne hcb, hsame]
            rcases ha with hx | ha
            · exact hy.symm.trans hx
            · exact absurd (hsame.trans hy.symm) (ha c hc hcb (by simp [hy]))
          · exact .inl ⟨hc, hsame⟩
      rwa [Function.update_idem] at hput

/-- One operation on the generic pool. -/
inductive GenericOp
  | allocate (numBlocks : Nat)
  | release (block : BlockId)
  | getCached (blockHash : Int)
  | cacheBlock (block : BlockId) (blockHash : Int)
  | cacheBlockIds (blockIds : List BlockId) (blockHashes : List Int) (first last : Nat)

def runGeneric (m : KvCacheManager) : GenericOp → KvCacheManager
  | .allocate n => (m.allocateBlockIds n).2
  | .release b => m.release b
  | .getCached x => (m.getCachedBlock x).2
  | .cacheBlock b x => m.cacheBlock b x
  | .cacheBlockIds ids hashes first last => m.cacheBlockIds ids hashes first last

/-- The block objects that an operation is given exist. -/
def GenericOp.Exists (m : KvCacheManager) : GenericOp → Prop
  | .release b | .cacheBlock b _ => b < m.numBlocks
  | .cacheBlockIds ids _ _ _ => ∀ b ∈ ids, b < m.numBlocks
  | .allocate _ | .getCached _ => True

/-- Any sequence of operations of any requests, from the blocks that `_init_blocks` builds. -/
def genericMachine : Machine KvCacheManager GenericOp where
  init m := ∃ (m₀ : KvCacheManager) (numBlocks blockSize : Nat), m₀.numBlocks = 0 ∧
    m₀.freeQueue = {} ∧ m₀.hashToBlock = (fun _ => none) ∧
    m₀.initBlocks numBlocks blockSize = .ok m
  step m op m' := op.Exists m ∧ m' = m.runGeneric op

/-- The blocks that the next allocation takes from the free queue. -/
def victims (m : KvCacheManager) (n : Nat) : List BlockId :=
  if m.numFreeBlocks < n then []
  else (LinkedQueue.walk m.blocks.next m.numBlocks m.freeQueue.head).take n

/-- A publication loop that leaves no other block with a hash it takes the entry of. -/
def PublishesAlone (m : KvCacheManager) : List (BlockId × Int) → Prop
  | [] => True
  | (b, x) :: pairs => (m.hashOf b = some x ∨ ∀ c < m.numBlocks, c ≠ b → m.hashOf b ≠ none →
      m.hashOf c ≠ m.hashOf b) ∧ PublishesAlone (m.cacheBlock b x) pairs

/-- The blocks that lose their hash share it with no block that keeps it. -/
def SparesTwins (m : KvCacheManager) : GenericOp → Prop
  | .allocate n => ∀ v ∈ m.victims n, ∀ c < m.numBlocks, c ∉ m.victims n → m.hashOf v ≠ none →
      m.hashOf c ≠ m.hashOf v
  | .cacheBlock b x => m.PublishesAlone [(b, x)]
  | .cacheBlockIds ids hashes first last =>
      m.PublishesAlone (((ids.zip hashes).take last).drop first)
  | .release _ | .getCached _ => True

/-- The pool is balanced, with its reference counts as the numbers of holders. -/
def Pooled (m : KvCacheManager) : Prop :=
  ∃ free, GenericBalanced m free fun b => (m.blocks b).refCnt

theorem Pooled.of_balanced {m : KvCacheManager} (h : GenericBalanced m free holders) : Pooled m :=
  ⟨free, h.spells, h.free_lt, fun _ _ => rfl, fun b hb => by rw [h.mem_free b hb, h.refCnt b hb],
    h.index⟩

theorem victims_eq (h : GenericBalanced m free holders) {n : Nat} (hn : n ≤ free.length) :
    m.victims n = free.take n := by
  have hle : free.length ≤ m.numBlocks := by
    have hsub : free ⊆ List.range m.numBlocks := fun b hb => List.mem_range.mpr (h.free_lt b hb)
    have hnd : free.Nodup := h.free_nodup
    have := (hnd.subperm hsub).length_le
    rwa [List.length_range] at this
  rw [victims, if_neg (by rw [h.numFreeBlocks]; omega), h.spells.isQueue.walk_eq hle]

/-- A successful allocation evicts its victims in order. -/
theorem allocateLoop_eq (h : GenericBalanced m free holders) {n : Nat} (taken : List BlockId)
    (hn : n ≤ free.length) :
    (m.allocateLoop taken n).2 = (free.take n).foldl KvCacheManager.takeBlock m := by
  induction n generalizing m free holders taken with
  | zero => rfl
  | succ n ih =>
    cases free with
    | nil => simp at hn
    | cons b free =>
      have hhead : m.freeQueue.head = some b := h.spells.isQueue.head_eq
      rw [KvCacheManager.allocateLoop, hhead]
      exact ih h.takeBlock.1 (taken ++ [b]) (by simpa using hn)

theorem runGeneric_pooled (h : Pooled m) {op : GenericOp} (hop : op.Exists m) :
    Pooled (m.runGeneric op) ∧ SameDims m (m.runGeneric op) := by
  obtain ⟨free, h⟩ := h
  cases op with
  | allocate n =>
    cases hres : m.allocateBlockIds n with
    | mk res m' =>
      simp only [runGeneric, hres]
      obtain ⟨hd, ⟨-, rfl⟩ | ⟨ids, -, -, -, -, hbal⟩⟩ := h.allocateBlockIds hres
      · exact ⟨⟨free, h⟩, hd⟩
      · exact ⟨.of_balanced hbal, hd⟩
  | release b =>
    by_cases href : (m.blocks b).refCnt = 0
    · have hsame : m.release b = m := by rw [KvCacheManager.release, if_pos href]
      rw [runGeneric, hsame]
      exact ⟨⟨free, h⟩, .refl m⟩
    · obtain ⟨free', hbal, hd⟩ := h.release hop href
      exact ⟨.of_balanced hbal, hd⟩
  | getCached x =>
    cases hget : m.getCachedBlock x with
    | mk found m' =>
      simp only [runGeneric, hget]
      cases found with
      | none =>
        rw [GenericBalanced.getCachedBlock_none hget]
        exact ⟨⟨free, h⟩, .refl m⟩
      | some b =>
        obtain ⟨-, -, hd, -, free', hbal⟩ := h.getCachedBlock hget
        exact ⟨.of_balanced hbal, hd⟩
  | cacheBlock b x =>
    obtain ⟨hbal, hd⟩ := h.cacheBlock hop x
    exact ⟨.of_balanced hbal, hd⟩
  | cacheBlockIds ids hashes first last =>
    obtain ⟨hbal, hd⟩ := h.cacheBlockIds hop hashes first last
    exact ⟨.of_balanced hbal, hd⟩

theorem Found.publishes (h : Found m m.blockSet) (pairs : List (BlockId × Int))
    (hbal : GenericBalanced m free holders) (hlt : ∀ e ∈ pairs, e.1 < m.numBlocks)
    (ha : m.PublishesAlone pairs) :
    Found (pairs.foldl (fun m e => m.cacheBlock e.1 e.2) m) m.blockSet := by
  induction pairs generalizing m with
  | nil => exact h
  | cons e pairs ih =>
    obtain ⟨b, x⟩ := e
    obtain ⟨halone, hrest⟩ := ha
    obtain ⟨hbal', hd⟩ := hbal.cacheBlock (hlt (b, x) (by simp)) x
    have hset : (m.cacheBlock b x).blockSet = m.blockSet := by
      rw [blockSet, blockSet, hd.numBlocks]
    have hfound := h.cacheBlock x halone
    rw [← hset] at hfound ⊢
    refine ih hfound hbal' (fun e he => ?_) hrest
    rw [hd.numBlocks]
    exact hlt e (by simp [he])

/-- An operation that spares twins keeps every hash found. -/
theorem runGeneric_found (h : Pooled m) (hf : Found m m.blockSet) {op : GenericOp}
    (hop : op.Exists m) (hs : m.SparesTwins op) : Found (m.runGeneric op) m.blockSet := by
  obtain ⟨free, h⟩ := h
  cases op with
  | allocate n =>
    rw [runGeneric, allocateBlockIds]
    split
    · exact hf
    · split
      · exact hf
      · next hroom =>
        rw [h.numFreeBlocks, not_lt] at hroom
        rw [SparesTwins, victims_eq h hroom] at hs
        rw [allocateLoop_eq h [] hroom]
        obtain ⟨hfound, hafter⟩ := Found.takeBlocks (m := m)
          (S := {c | c < m.numBlocks ∧ c ∉ free.take n}) (free.take n) (fun b hb hc => hc.2 hb)
          (hf.mono fun c hc => .inl hc.1) fun b hb c hc _ hsome => hs b hb c hc.1 hc.2 hsome
        refine hfound.mono fun c hc => ?_
        by_cases hmem : c ∈ free.take n
        · refine .inr ?_
          rw [hafter]
          exact if_pos hmem
        · exact .inl ⟨hc, hmem⟩
  | release b => exact hf.of_same (release_sameHashes m b)
  | getCached x => exact hf.of_same (getCachedBlock_sameHashes m x)
  | cacheBlock b x => exact hf.cacheBlock x hs.1
  | cacheBlockIds ids hashes first last =>
    rw [runGeneric, cacheBlockIds]
    split
    · exact hf
    · refine hf.publishes _ h (fun e he => hop e.1 ?_) hs
      exact (List.of_mem_zip (List.mem_of_mem_take (List.mem_of_mem_drop he))).1

/-- Entries name blocks with their hash, and every hash on a block has an entry. -/
structure IndexKept (m : KvCacheManager) : Prop where
  sound : ∀ x b, m.hashToBlock x = some b → b < m.numBlocks ∧ m.hashOf b = some x
  found : ∀ b < m.numBlocks, ∀ x, m.hashOf b = some x → ∃ c, m.hashToBlock x = some c

/-- In a run whose operations spare twins no published block becomes unreachable. -/
theorem generic_index_kept (h : (genericMachine.restrict fun m op _ => m.SparesTwins op).Reachable m) :
    IndexKept m := by
  have hinv : Pooled m ∧ Found m m.blockSet := by
    refine h.invariant (I := fun m => Pooled m ∧ Found m m.blockSet) ?_ ?_
    · rintro m ⟨m₀, n, size, hm, hqueue, hindex, hinit⟩
      obtain ⟨hbal, -, -⟩ := GenericBalanced.initBlocks hm hqueue hindex hinit
      refine ⟨.of_balanced hbal, fun b _ x hx => ?_⟩
      unfold KvCacheManager.initBlocks at hinit
      rw [if_neg (by simp [hm])] at hinit
      cases hinit
      have hdata := FreeKVCacheBlockQueue.appendN_sameData m₀.freeQueue (fun _ => {}) (List.range n)
      cases ((hdata b).2).symm.trans hx
    · rintro m op m' - ⟨hp, hf⟩ ⟨⟨hop, rfl⟩, hs⟩
      obtain ⟨hp', hd⟩ := runGeneric_pooled hp hop
      refine ⟨hp', ?_⟩
      have hset : (m.runGeneric op).blockSet = m.blockSet := by
        rw [blockSet, blockSet, hd.numBlocks]
      rw [hset]
      exact runGeneric_found hp hf hop hs
  obtain ⟨⟨free, hbal⟩, hfound⟩ := hinv
  exact ⟨hbal.index, fun b hb x hx => Option.isSome_iff_exists.mp (hfound b hb x hx)⟩

instance decidablePublishesAlone (m : KvCacheManager) :
    ∀ pairs, Decidable (m.PublishesAlone pairs)
  | [] => .isTrue trivial
  | (b, x) :: pairs =>
    have := decidablePublishesAlone (m.cacheBlock b x) pairs
    inferInstanceAs (Decidable ((m.hashOf b = some x ∨ ∀ c < m.numBlocks, c ≠ b →
      m.hashOf b ≠ none → m.hashOf c ≠ m.hashOf b) ∧ (m.cacheBlock b x).PublishesAlone pairs))

instance (m : KvCacheManager) : ∀ op, Decidable (m.SparesTwins op)
  | .allocate n => inferInstanceAs (Decidable (∀ v ∈ m.victims n, ∀ c < m.numBlocks,
      c ∉ m.victims n → m.hashOf v ≠ none → m.hashOf c ≠ m.hashOf v))
  | .cacheBlock b x => inferInstanceAs (Decidable (m.PublishesAlone [(b, x)]))
  | .cacheBlockIds ids hashes first last =>
    inferInstanceAs (Decidable (m.PublishesAlone (((ids.zip hashes).take last).drop first)))
  | .release _ | .getCached _ => .isTrue trivial

instance (m : KvCacheManager) : ∀ op : GenericOp, Decidable (op.Exists m)
  | .release b | .cacheBlock b _ => inferInstanceAs (Decidable (b < m.numBlocks))
  | .cacheBlockIds ids _ _ _ => inferInstanceAs (Decidable (∀ b ∈ ids, b < m.numBlocks))
  | .allocate _ | .getCached _ => .isTrue trivial

/-- The operations exist and are allowed where they run. -/
def Permitted (C : KvCacheManager → GenericOp → Prop) : KvCacheManager → List GenericOp → Prop
  | _, [] => True
  | m, op :: ops => (op.Exists m ∧ C m op) ∧ Permitted C (m.runGeneric op) ops

instance decidablePermitted (C : KvCacheManager → GenericOp → Prop)
    [∀ m op, Decidable (C m op)] (m : KvCacheManager) : ∀ ops, Decidable (Permitted C m ops)
  | [] => .isTrue trivial
  | op :: ops =>
    have := decidablePermitted C (m.runGeneric op) ops
    inferInstanceAs (Decidable ((op.Exists m ∧ C m op) ∧ Permitted C (m.runGeneric op) ops))

theorem permitted_reachable {C : KvCacheManager → GenericOp → Prop} {ops : List GenericOp}
    (hm : (genericMachine.restrict fun m op _ => C m op).Reachable m) (h : Permitted C m ops) :
    (genericMachine.restrict fun m op _ => C m op).Reachable (ops.foldl runGeneric m) := by
  induction ops generalizing m with
  | nil => exact hm
  | cons op ops ih => exact ih (hm.next (a := op) ⟨⟨h.1.1, rfl⟩, h.1.2⟩) h.2

/-- Three free blocks. -/
def threeBlocks : KvCacheManager :=
  let s := FreeKVCacheBlockQueue.appendN {} (fun _ => {}) (List.range 3)
  { pyHash := ⟨-1, fun parent _ => parent + 1⟩, blockSize := 1, enablePrefixCache := true
    freeQueue := s.1, blocks := s.2, numBlocks := 3 }

theorem threeBlocks_reachable {C : KvCacheManager → GenericOp → Prop} :
    (genericMachine.restrict fun m op _ => C m op).Reachable threeBlocks :=
  .start ⟨{ pyHash := ⟨-1, fun parent _ => parent + 1⟩, blockSize := 1, enablePrefixCache := true },
    3, 1, rfl, rfl, rfl, rfl⟩

/-- Blocks 0 and 1 are published, block 0 is found again; both are released, and block 0 is
evicted. -/
def evictingOps : List GenericOp :=
  [.allocate 1, .cacheBlock 0 7, .release 0, .getCached 7, .allocate 1, .cacheBlock 1 8, .release 0,
    .release 1, .allocate 2]

theorem generic_index_kept_evicted :
    (evictingOps.foldl runGeneric threeBlocks).hashToBlock 7 = none ∧
    (evictingOps.foldl runGeneric threeBlocks).hashToBlock 8 = some 1 ∧
    IndexKept (evictingOps.foldl runGeneric threeBlocks) :=
  ⟨by decide +kernel, by decide +kernel,
    generic_index_kept (permitted_reachable threeBlocks_reachable (by decide +kernel))⟩

/-- Blocks 0 and 1 are published under one hash; when block 0 is evicted, block 1 is no
longer found. -/
theorem twin_lost : ¬ ∀ m, genericMachine.Reachable m → IndexKept m := by
  intro hall
  have h := hall ([.allocate 1, .allocate 1, .cacheBlock 0 7, .cacheBlock 1 7, .release 0,
      .allocate 2].foldl runGeneric threeBlocks)
    (Machine.restrict_reachable (permitted_reachable (C := fun _ _ => True) threeBlocks_reachable
      (by decide +kernel)))
  obtain ⟨c, hc⟩ := h.found 1 (by decide +kernel) 7 (by decide +kernel)
  have hnone : ([.allocate 1, .allocate 1, .cacheBlock 0 7, .cacheBlock 1 7, .release 0,
      .allocate 2].foldl runGeneric threeBlocks).hashToBlock 7 = none := by
    decide +kernel
  rw [hnone] at hc
  cases hc

end PyptoServing.Memory.KvCacheManager
