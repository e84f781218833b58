import PyptoServing.Memory.GenericPool
import PyptoServing.Sched.Effects

/-!
# Who holds the generic blocks

`BlockLedger s ids`: the reference count of each generic block is the number of requests
among `ids` that list it. Each scheduler operation keeps the ledger, and changes the blocks
of the one request it is about.
-/
namespace PyptoServing.Sched

open Lib Lib.Fallible Memory Scheduler
open KvCacheManager (GenericBalanced SameGeneric)

/-- The cached and allocated blocks of a request. -/
def Request.heldBlocks (request : Request) : List BlockId :=
  request.cachedBlockIds ++ request.allocatedBlockIds

/-- The blocks of a request and its prompt. -/
def Request.holding (request : Request) : List BlockId × List Int :=
  (request.heldBlocks, request.promptTokenIds)

/-- Whether the block hashes of a request's prompt are pairwise different. -/
def Scheduler.Separates (s : Scheduler) (request : Request) : Prop :=
  (s.kvCacheManager.pyHash.iterTokenBlockHashes request.promptTokenIds
    s.kvCacheManager.blockSize).Nodup

/-- The number of requests that list a block. -/
def Scheduler.holders (s : Scheduler) (ids : List RequestId) (b : BlockId) : Nat :=
  ids.countP fun r => decide (b ∈ (s.object r).heldBlocks)

/-- The generic pool agrees with the block lists of the requests. -/
structure BlockLedger (s : Scheduler) (ids : List RequestId) : Prop where
  ids_nodup : ids.Nodup
  hash : ∀ r ∈ ids, s.Separates (s.object r)
  pool : ∃ free, GenericBalanced s.kvCacheManager free (s.holders ids)
  nodup : ∀ r ∈ ids, (s.object r).heldBlocks.Nodup
  bound : ∀ r ∈ ids, ∀ b ∈ (s.object r).heldBlocks, b < s.kvCacheManager.numBlocks

/-- Only requests of `s.running` list blocks. -/
def HeldByRunning (s : Scheduler) (ids : List RequestId) : Prop :=
  ∀ r ∈ ids, r ∉ s.running → (s.object r).heldBlocks = []

/-- Request `r` lists the blocks `l`, the others list what they listed. -/
structure Rebooks (s : Scheduler) (r : RequestId) (l : List BlockId) (s' : Scheduler) : Prop where
  self : (s'.object r).heldBlocks = l
  other : ∀ r', r' ≠ r → (s'.object r').heldBlocks = (s.object r').heldBlocks

/-- Nothing changes that the ledger reads. -/
structure SameBlocks (s s' : Scheduler) : Prop where
  holding : ∀ r, (s'.object r).holding = (s.object r).holding
  kv : SameGeneric s.kvCacheManager s'.kvCacheManager

variable {s s' s'' : Scheduler} {ids : List RequestId} {r : RequestId} {l : List BlockId}

theorem SameBlocks.held (h : SameBlocks s s') (r : RequestId) :
    (s'.object r).heldBlocks = (s.object r).heldBlocks :=
  congrArg Prod.fst (h.holding r)

theorem SameBlocks.prompt (h : SameBlocks s s') (r : RequestId) :
    (s'.object r).promptTokenIds = (s.object r).promptTokenIds :=
  congrArg Prod.snd (h.holding r)

theorem SameBlocks.refl (s : Scheduler) : SameBlocks s s := ⟨fun _ => rfl, .refl _⟩

theorem SameBlocks.trans (h : SameBlocks s s') (h' : SameBlocks s' s'') : SameBlocks s s'' :=
  ⟨fun r => (h'.holding r).trans (h.holding r), h.kv.trans h'.kv⟩

/-- A change of one request that leaves its block lists and its prompt alone. -/
theorem SameBlocks.of_modify (s : Scheduler) (kv : KvCacheManager)
    (hkv : SameGeneric s.kvCacheManager kv) (r : RequestId) {f : Request → Request}
    (hf : ∀ q, (f q).holding = q.holding) :
    SameBlocks s ({ s with kvCacheManager := kv }.modify r f) := by
  refine ⟨fun r' => ?_, hkv⟩
  rw [modify_object]
  split
  · next hr =>
    subst hr
    exact hf _
  · rfl

theorem holders_congr (h : ∀ r, (s'.object r).heldBlocks = (s.object r).heldBlocks)
    (b : BlockId) : s'.holders ids b = s.holders ids b := by
  unfold Scheduler.holders
  simp only [h]

theorem BlockLedger.congr (h : BlockLedger s ids) (hs : SameBlocks s s') : BlockLedger s' ids := by
  obtain ⟨free, hfree⟩ := h.pool
  refine ⟨h.ids_nodup, ?_, ⟨free, (hfree.congr hs.kv).recount (holders_congr hs.held)⟩, ?_, ?_⟩
  · intro r hr
    rw [Separates, hs.kv.pyHash, hs.kv.blockSize, hs.prompt]
    exact h.hash r hr
  · intro r hr
    rw [hs.held]
    exact h.nodup r hr
  · intro r hr
    rw [hs.held, hs.kv.numBlocks]
    exact h.bound r hr

theorem modify_promptTokenIds (s : Scheduler) (r : RequestId) {f : Request → Request}
    (hf : ∀ q, (f q).promptTokenIds = q.promptTokenIds) (x : RequestId) :
    ((s.modify r f).object x).promptTokenIds = (s.object x).promptTokenIds := by
  rw [modify_object]
  split
  · next hx =>
    subst hx
    exact hf _
  · rfl

/-- Rewriting the blocks of one request moves the count of each block by that request. -/
theorem Rebooks.holders (h : Rebooks s r l s') (hnd : ids.Nodup) (hr : r ∈ ids) (b : BlockId) :
    s'.holders ids b + (if b ∈ (s.object r).heldBlocks then 1 else 0) =
      s.holders ids b + if b ∈ l then 1 else 0 := by
  obtain ⟨l₁, l₂, rfl⟩ := List.append_of_mem hr
  rw [List.nodup_middle, List.nodup_cons] at hnd
  have hother : ∀ l₀ : List RequestId, (∀ x ∈ l₀, x ∈ l₁ ++ l₂) →
      l₀.countP (fun r => decide (b ∈ (s'.object r).heldBlocks)) =
        l₀.countP fun r => decide (b ∈ (s.object r).heldBlocks) := by
    intro l₀ hsub
    refine List.countP_congr fun x hx => ?_
    rw [h.other x fun he => hnd.1 (he ▸ hsub x hx)]
  unfold Scheduler.holders
  rw [List.countP_append, List.countP_append, List.countP_cons, List.countP_cons,
    hother l₁ (fun x hx => by simp [hx]), hother l₂ (fun x hx => by simp [hx]), h.self]
  simp only [decide_eq_true_eq]
  omega

/-- A ledger after one request's blocks were rewritten and the pool with them. -/
theorem BlockLedger.rebook (h : BlockLedger s ids) (hs : Rebooks s r l s')
    (hnum : s'.kvCacheManager.numBlocks = s.kvCacheManager.numBlocks)
    (hsize : s'.kvCacheManager.blockSize = s.kvCacheManager.blockSize)
    (hhash : s'.kvCacheManager.pyHash = s.kvCacheManager.pyHash)
    (hprompt : ∀ x, (s'.object x).promptTokenIds = (s.object x).promptTokenIds) (hnd : l.Nodup)
    (hlt : ∀ b ∈ l, b < s.kvCacheManager.numBlocks)
    (hpool : ∃ free, GenericBalanced s'.kvCacheManager free (s'.holders ids)) :
    BlockLedger s' ids := by
  refine ⟨h.ids_nodup, fun x hx => ?_, hpool, fun x hx => ?_, fun x hx => ?_⟩
  · rw [Separates, hhash, hsize, hprompt]
    exact h.hash x hx
  · by_cases hxr : x = r
    · rw [hxr, hs.self]
      exact hnd
    · rw [hs.other x hxr]
      exact h.nodup x hx
  · rw [hnum]
    by_cases hxr : x = r
    · rw [hxr, hs.self]
      exact hlt
    · rw [hs.other x hxr]
      exact h.bound x hx

section Grouped
variable {m m' : KvCacheManager} {x : RequestId} {partition : Nat}

theorem initGroups_sameGeneric {specs : List Config.KVCacheGroupSpec} {n : Nat} {p : Option Nat}
    (h : m.initGroups specs n p = .ok m') : SameGeneric m m' := by
  unfold KvCacheManager.initGroups at h
  split at h
  · cases h
  · split at h
    · cases h
      exact .refl _
    · split at h
      · cases h
      · split at h
        · cases h
        · split at h
          · obtain ⟨sized, -, h⟩ := bind_eq_ok.mp h
            split at h <;> cases h
            exact .refl _
          · obtain ⟨sized, -, h⟩ := bind_eq_ok.mp h
            cases h
            exact ⟨rfl, rfl, rfl, rfl, rfl, rfl, rfl⟩

theorem releaseAllGroupRequests_sameGeneric (h : m.releaseAllGroupRequests x = .ok m') :
    SameGeneric m m' := by
  unfold KvCacheManager.releaseAllGroupRequests at h
  obtain ⟨pools, -, h⟩ := bind_eq_ok.mp h
  cases h
  exact ⟨rfl, rfl, rfl, rfl, rfl, rfl, rfl⟩

theorem retainGroupBlockSnapshot_sameGeneric {tables : GroupTables}
    (h : m.retainGroupBlockSnapshot tables partition = .ok m') : SameGeneric m m' := by
  unfold KvCacheManager.retainGroupBlockSnapshot at h
  split at h
  · cases h
    exact .refl _
  · split at h
    · cases h
    · obtain ⟨resolved, -, h⟩ := bind_eq_ok.mp h
      cases h
      exact ⟨rfl, rfl, rfl, rfl, rfl, rfl, rfl⟩

theorem releaseGroupBlockSnapshot_sameGeneric {tables : GroupTables}
    (h : m.releaseGroupBlockSnapshot tables partition = .ok m') : SameGeneric m m' := by
  unfold KvCacheManager.releaseGroupBlockSnapshot at h
  obtain ⟨pools, -, h⟩ := bind_eq_ok.mp h
  cases h
  exact ⟨rfl, rfl, rfl, rfl, rfl, rfl, rfl⟩

theorem acquireGroupPrefixBlocks_sameGeneric {hashes : GroupHashes} {limit : Nat}
    {res : GroupTables × Nat × Option Nat}
    (h : m.acquireGroupPrefixBlocks x hashes limit = .ok (res, m')) : SameGeneric m m' := by
  unfold KvCacheManager.acquireGroupPrefixBlocks at h
  split at h
  · cases h
    exact .refl _
  · split at h
    · cases h
    · split at h
      · cases h
      · dsimp only at h
        split at h
        · cases h
          exact .refl _
        · split at h <;> cases h
          · exact .refl _
          · exact ⟨rfl, rfl, rfl, rfl, rfl, rfl, rfl⟩

theorem ensureGroupBlocks_sameGeneric (m : KvCacheManager) (x : RequestId) (n : Nat)
    (p : Option Nat) : SameGeneric m (m.ensureGroupBlocks x n p).2 := by
  unfold KvCacheManager.ensureGroupBlocks
  split
  · exact .refl m
  · split
    · exact .refl m
    · split
      · exact .refl m
      · split
        · exact .refl m
        · exact .refl m
        · split
          · unfold KvCacheManager.growGroups
            split <;> exact ⟨rfl, rfl, rfl, rfl, rfl, rfl, rfl⟩
          · exact .refl m

theorem cacheGroupBlocks_sameGeneric (m : KvCacheManager) (x : RequestId) (hashes : GroupHashes)
    (n : Nat) (counts : Dict String Nat) :
    SameGeneric m (m.cacheGroupBlocks x hashes n counts).2 := by
  unfold KvCacheManager.cacheGroupBlocks
  split
  · exact .refl m
  · split
    · exact .refl m
    · exact ⟨rfl, rfl, rfl, rfl, rfl, rfl, rfl⟩

theorem cacheGroupBlocksFromSnapshot_sameGeneric (m : KvCacheManager) (hashes : GroupHashes)
    (n : Nat) (counts : Dict String Nat) (tables : GroupTables) (p : Nat) :
    SameGeneric m (m.cacheGroupBlocksFromSnapshot hashes n counts tables p).2 := by
  unfold KvCacheManager.cacheGroupBlocksFromSnapshot
  split
  · exact .refl m
  · split
    · exact .refl m
    · split
      · exact .refl m
      · exact ⟨rfl, rfl, rfl, rfl, rfl, rfl, rfl⟩

end Grouped

theorem releaseBlocksByIds_append (m : KvCacheManager) (l₁ l₂ : List BlockId) :
    (m.releaseBlocksByIds l₁).releaseBlocksByIds l₂ = m.releaseBlocksByIds (l₁ ++ l₂) :=
  List.foldl_append.symm

/-- A request holds a block once or not at all. -/
theorem BlockLedger.count_held (h : BlockLedger s ids) (hr : r ∈ ids) (b : BlockId) :
    (s.object r).heldBlocks.count b = if b ∈ (s.object r).heldBlocks then 1 else 0 := by
  split
  · next hb => exact List.count_eq_one_of_mem (h.nodup r hr) hb
  · next hb => exact List.count_eq_zero_of_not_mem hb

theorem BlockLedger.free (h : BlockLedger s ids) (hr : r ∈ ids)
    (hf : s.freeRequestBlocks r = .ok s') : BlockLedger s' ids ∧ Rebooks s r [] s' := by
  unfold freeRequestBlocks at hf
  obtain ⟨kv, hkv, hf⟩ := bind_eq_ok.mp hf
  cases hf
  obtain ⟨free, hfree⟩ := h.pool
  have hcount := h.count_held hr
  have hpos : ∀ b, (s.object r).heldBlocks.count b ≤ s.holders ids b := by
    intro b
    rw [hcount]
    split
    · next hb =>
      unfold Scheduler.holders
      rw [Nat.succ_le_iff, List.countP_pos_iff]
      exact ⟨r, hr, by simpa using hb⟩
    · exact Nat.zero_le _
  obtain ⟨free', hrel, hdims⟩ := hfree.releaseBlocksByIds (h.bound r hr) hpos
  have hsame : SameGeneric (s.kvCacheManager.releaseBlocksByIds (s.object r).heldBlocks) kv := by
    unfold freedCache at hkv
    dsimp only at hkv
    rw [releaseBlocksByIds_append] at hkv
    split at hkv
    · exact releaseAllGroupRequests_sameGeneric hkv
    · cases hkv
      exact .refl _
  have hbook : Rebooks s r [] ({ s with kvCacheManager := kv }.modify r fun request =>
      { request with
        cachedBlockIds := []
        allocatedBlockIds := []
        allocatedGroupBlockIds := ∅
        cachePartition := none
        numGroupBlocksCached := ∅ }) := by
    constructor
    · rw [modify_object_self]
      rfl
    · intro r' hne
      rw [modify_object_ne _ _ hne]
  refine ⟨h.rebook hbook (hsame.numBlocks.trans hdims.numBlocks)
    (hsame.blockSize.trans hdims.blockSize) (hsame.pyHash.trans hdims.pyHash)
    (modify_promptTokenIds _ r fun _ => rfl) List.nodup_nil (by simp) ⟨free', ?_⟩, hbook⟩
  refine (hrel.congr hsame).recount fun b => ?_
  have hb := hbook.holders h.ids_nodup hr b
  rw [hcount]
  simp only [List.not_mem_nil, if_false] at hb
  omega

theorem BlockLedger.allocateBlocks (h : BlockLedger s ids) (hr : r ∈ ids) (n : Nat) :
    BlockLedger (s.tryAllocateBlocks r n).2 ids ∧
      ∃ l, Rebooks s r l (s.tryAllocateBlocks r n).2 := by
  have hkeep : BlockLedger s ids ∧ ∃ l, Rebooks s r l s := ⟨h, _, rfl, fun _ _ => rfl⟩
  obtain ⟨free, hfree⟩ := h.pool
  unfold tryAllocateBlocks
  split
  · exact hkeep
  · split
    · exact hkeep
    · split
      · next kv halloc =>
        obtain ⟨-, ⟨-, rfl⟩ | ⟨ids', hsome, -⟩⟩ := hfree.allocateBlockIds halloc
        · exact hkeep
        · cases hsome
      · next blockIds kv halloc =>
        obtain ⟨hdims, ⟨hnone, -⟩ | ⟨new, hsome, -, hnd, hnew, hpool⟩⟩ :=
          hfree.allocateBlockIds halloc
        · cases hnone
        · cases hsome
          have hbook : Rebooks s r ((s.object r).heldBlocks ++ blockIds)
              ({ s with kvCacheManager := kv }.modify r fun request =>
                { request with
                  allocatedBlockIds := request.allocatedBlockIds ++ blockIds }) := by
            constructor
            · rw [modify_object_self]
              exact (List.append_assoc _ _ _).symm
            · intro r' hne
              rw [modify_object_ne _ _ hne]
          -- A new block had no holder, so the request did not list it.
          have hout : ∀ b ∈ blockIds, b ∉ (s.object r).heldBlocks := by
            intro b hb hheld
            have hz := (hnew b hb).2
            unfold Scheduler.holders at hz
            rw [List.countP_eq_zero] at hz
            exact hz r hr (by simpa using hheld)
          have hprompt : ∀ x, (({ s with kvCacheManager := kv }.modify r fun request =>
              { request with
                allocatedBlockIds := request.allocatedBlockIds ++ blockIds }).object x).promptTokenIds =
              (s.object x).promptTokenIds :=
            modify_promptTokenIds _ r fun _ => rfl
          refine ⟨h.rebook hbook hdims.numBlocks hdims.blockSize hdims.pyHash hprompt ?_ ?_
            ⟨_, hpool.recount fun b => ?_⟩, _, hbook⟩
          · exact (h.nodup r hr).append hnd fun b hb hb' => hout b hb' hb
          · intro b hb
            rcases List.mem_append.mp hb with hb | hb
            · exact h.bound r hr b hb
            · exact (hnew b hb).1
          · have hb := hbook.holders h.ids_nodup hr b
            dsimp only
            by_cases hmem : b ∈ blockIds
            · rw [List.count_eq_one_of_mem hnd hmem]
              simp only [hout b hmem, if_false, List.mem_append, hmem, or_true, if_true] at hb
              omega
            · rw [List.count_eq_zero_of_not_mem hmem]
              simp only [List.mem_append, hmem, or_false] at hb
              omega

theorem BlockLedger.allocate {n : Nat} {b : Bool} (h : BlockLedger s ids) (hr : r ∈ ids)
    (ha : s.tryAllocateRequestBlocks r n = .ok (b, s')) :
    BlockLedger s' ids ∧ ∃ l, Rebooks s r l s' := by
  have hsame : SameBlocks s s' → BlockLedger s' ids ∧ ∃ l, Rebooks s r l s' := fun hs =>
    ⟨h.congr hs, _, rfl, fun r' _ => hs.held r'⟩
  unfold tryAllocateRequestBlocks at ha
  dsimp only at ha
  have hgen := ensureGroupBlocks_sameGeneric s.kvCacheManager r
    ((s.object r).numComputedTokens + n) (s.object r).cachePartition
  split at ha
  · split at ha
    · next tables kv hens =>
      cases ha
      rw [hens] at hgen
      apply hsame
      exact .of_modify s kv hgen r fun _ => rfl
    · next msg kv hens =>
      cases ha
      rw [hens] at hgen
      exact hsame ⟨fun _ => rfl, hgen⟩
    · cases ha
  · have := h.allocateBlocks hr (s.blocksNeeded (s.object r) n)
    rwa [Except.ok.inj ha] at this

section PassSteps
variable {pass pass' : Pass} {n : Nat} {b : Bool}

/-- A request that lists nothing takes over the pages of a hit. -/
theorem BlockLedger.hit {hits free' : List BlockId} {kv : KvCacheManager}
    (h : BlockLedger s ids) (hr : r ∈ ids) (hnil : (s.object r).heldBlocks = [])
    (hnd : hits.Nodup) (hlt : ∀ b ∈ hits, b < s.kvCacheManager.numBlocks)
    (hdims : KvCacheManager.SameDims s.kvCacheManager kv)
    (hpool : GenericBalanced kv free' fun b => s.holders ids b + hits.count b)
    (hs : s' = { s with kvCacheManager := kv }.modify r fun request =>
      { request with
        cachedBlockIds := hits
        numComputedTokens := hits.length * kv.blockSize
        numBlocksCached := hits.length }) :
    BlockLedger s' ids ∧ Rebooks s r hits s' := by
  subst hs
  have hbook : Rebooks s r hits ({ s with kvCacheManager := kv }.modify r fun request =>
      { request with
        cachedBlockIds := hits
        numComputedTokens := hits.length * kv.blockSize
        numBlocksCached := hits.length }) := by
    constructor
    · rw [modify_object_self]
      have hempty := List.append_eq_nil_iff.mp hnil
      exact (congrArg (hits ++ ·) hempty.2).trans (List.append_nil _)
    · intro r' hne
      rw [modify_object_ne _ _ hne]
  refine ⟨h.rebook hbook hdims.numBlocks hdims.blockSize hdims.pyHash
    (modify_promptTokenIds _ r fun _ => rfl) hnd hlt ⟨free', hpool.recount fun b => ?_⟩, hbook⟩
  have hb := hbook.holders h.ids_nodup hr b
  rw [hnil] at hb
  simp only [List.not_mem_nil, if_false] at hb
  split at hb
  · next hmem =>
    rw [List.count_eq_one_of_mem hnd hmem]
    exact hb
  · next hmem =>
    rw [List.count_eq_zero_of_not_mem hmem]
    exact hb

/-- The lookup of a request that lists nothing. -/
theorem BlockLedger.lookup (h : BlockLedger pass.sched ids) (hr : r ∈ ids)
    (hnil : (pass.sched.object r).heldBlocks = []) (hl : pass.lookupPrefix r = .ok pass') :
    BlockLedger pass'.sched ids ∧ ∃ l, Rebooks pass.sched r l pass'.sched := by
  have hsame : SameBlocks pass.sched pass'.sched →
      BlockLedger pass'.sched ids ∧ ∃ l, Rebooks pass.sched r l pass'.sched := fun hs =>
    ⟨h.congr hs, _, rfl, fun r' _ => hs.held r'⟩
  unfold Pass.lookupPrefix at hl
  dsimp only at hl
  split at hl
  · cases hl
    exact hsame (.refl _)
  · split at hl
    · obtain ⟨⟨⟨tables, hitTokens, partition⟩, kv⟩, hacq, hl⟩ := bind_eq_ok.mp hl
      cases hl
      apply hsame
      exact SameBlocks.of_modify pass.sched kv (acquireGroupPrefixBlocks_sameGeneric hacq) r
        (f := fun request => { request with
          allocatedGroupBlockIds := tables
          numComputedTokens := hitTokens
          cachePartition := partition
          numGroupBlocksCached :=
            if hitTokens ≠ 0 then kv.publishedGroupBlockCounts hitTokens else ∅ }) fun _ => rfl
    · obtain ⟨free, hfree⟩ := h.pool
      cases hcomp : pass.sched.kvCacheManager.getComputedBlocks
        (pass.sched.object r).promptTokenIds with
      | mk hits kv =>
        rw [hcomp] at hl
        obtain ⟨hnd, hlt, hdims, free', hpool⟩ := hfree.getComputedBlocks (h.hash r hr) hcomp
        dsimp only at hl
        split at hl
        · next hz =>
          cases hl
          subst hz
          refine ⟨⟨h.ids_nodup, ?_, ⟨free', hpool.recount fun _ => rfl⟩, h.nodup, ?_⟩,
            _, rfl, fun _ _ => rfl⟩
          · intro x hx
            rw [Separates, hdims.pyHash, hdims.blockSize]
            exact h.hash x hx
          · dsimp only
            rw [hdims.numBlocks]
            exact h.bound
        · cases hl
          obtain ⟨hledger, hbook⟩ := h.hit hr hnil hnd hlt hdims hpool rfl
          exact ⟨hledger, hits, hbook⟩

theorem BlockLedger.passAllocate (h : BlockLedger pass.sched ids) (hr : r ∈ ids)
    (ha : pass.allocate r n = .ok (b, pass')) :
    BlockLedger pass'.sched ids ∧ ∃ l, Rebooks pass.sched r l pass'.sched := by
  obtain ⟨sched, halloc, rfl, -⟩ := Pass.allocate_spec ha
  exact h.allocate hr halloc

theorem BlockLedger.releaseWaiting (h : BlockLedger pass.sched ids) (hr : r ∈ ids)
    (hl : pass.releaseWaiting r = .ok pass') :
    BlockLedger pass'.sched ids ∧ Rebooks pass.sched r [] pass'.sched := by
  unfold Pass.releaseWaiting at hl
  obtain ⟨s₁, hrel, hl⟩ := bind_eq_ok.mp hl
  cases hl
  unfold releaseWaitingPrefixBlocks at hrel
  obtain ⟨s₂, hfree, hrel⟩ := bind_eq_ok.mp hrel
  cases hrel
  obtain ⟨h₂, hbook⟩ := h.free hr hfree
  have hsame : SameBlocks s₂ (s₂.modify r fun request =>
      { request with numComputedTokens := 0, numBlocksCached := 0, numGroupBlocksCached := ∅ }) :=
    .of_modify s₂ s₂.kvCacheManager (.refl _) r fun _ => rfl
  exact ⟨h₂.congr hsame, (hsame.held r).trans hbook.self,
    fun r' hne => (hsame.held r').trans (hbook.other r' hne)⟩

/-- Preempting a victim takes its blocks away. -/
theorem BlockLedger.preempts {v : RequestId} (h : BlockLedger pass.sched ids) (hv : v ∈ ids)
    (hp : Pass.Preempts pass r v pass') :
    BlockLedger pass'.sched ids ∧ Rebooks pass.sched v [] pass'.sched := by
  obtain ⟨s₁, hfree, hsched⟩ := hp.sched
  obtain ⟨h₁, hbook⟩ := h.free hv hfree
  rw [hsched]
  have hself : ((s₁.modify v resetVictim).object v).heldBlocks = [] := by
    rw [modify_object_self]
    rfl
  have hprompt : ((s₁.modify v resetVictim).object v).promptTokenIds = (s₁.object v).promptTokenIds := by
    rw [modify_object_self]
    rfl
  have hsame : SameBlocks s₁ { s₁.modify v resetVictim with
      running := pass.sched.running.filter (· ≠ v), waiting := v :: pass.sched.waiting } := by
    refine ⟨fun x => ?_, .refl _⟩
    by_cases hx : x = v
    · rw [hx, Request.holding, Request.holding, hbook.self]
      exact Prod.ext hself hprompt
    · exact congrArg Request.holding (modify_object_ne s₁ resetVictim hx)
  exact ⟨h₁.congr hsame, (hsame.held v).trans hbook.self,
    fun x hne => (hsame.held x).trans (hbook.other x hne)⟩

theorem lookupPrefix_running (hl : pass.lookupPrefix r = .ok pass') :
    pass'.sched.running = pass.sched.running := by
  unfold Pass.lookupPrefix at hl
  dsimp only at hl
  split at hl
  · cases hl
    rfl
  · split at hl
    · obtain ⟨res, -, hl⟩ := bind_eq_ok.mp hl
      cases hl
      rfl
    · split at hl <;> cases hl <;> rfl

/-- Part of the turn of `r` in the waiting phase. -/
structure LedgerTurn (ids : List RequestId) (r : RequestId) (pass pass' : Pass) : Prop where
  ledger : BlockLedger pass'.sched ids
  books : ∃ l, Rebooks pass.sched r l pass'.sched
  running : pass'.sched.running = pass.sched.running

namespace LedgerTurn
variable {p₁ p₂ : Pass}

theorem trans (h : LedgerTurn ids r pass p₁) (h' : LedgerTurn ids r p₁ p₂) :
    LedgerTurn ids r pass p₂ := by
  obtain ⟨l, hl⟩ := h.books
  obtain ⟨l', hl'⟩ := h'.books
  exact ⟨h'.ledger, ⟨l', hl'.self, fun x hx => (hl'.other x hx).trans (hl.other x hx)⟩,
    h'.running.trans h.running⟩

theorem allocate (h : LedgerTurn ids r pass p₁) (hr : r ∈ ids)
    (ha : p₁.allocate r n = .ok (b, p₂)) : LedgerTurn ids r pass p₂ :=
  have ⟨hledger, hbooks⟩ := h.ledger.passAllocate hr ha
  h.trans ⟨hledger, hbooks, (Pass.allocate_allocated ha).core.running⟩

theorem release (h : LedgerTurn ids r pass p₁) (hr : r ∈ ids)
    (hl : p₁.releaseWaiting r = .ok p₂) :
    LedgerTurn ids r pass p₂ ∧ (p₂.sched.object r).heldBlocks = [] := by
  obtain ⟨hledger, hbook⟩ := h.ledger.releaseWaiting hr hl
  have hrun := (WaitingStep.of_release (s := p₁.sched) hl).core.running
  exact ⟨h.trans ⟨hledger, ⟨[], hbook⟩, hrun⟩, hbook.self⟩

theorem offer {numNew : Nat} (h : LedgerTurn ids r pass p₁)
    (ho : Pass.WaitingOffer p₁ r p₂ numNew) : LedgerTurn ids r pass p₂ := by
  cases ho with
  | share => exact h
  | lastToken =>
    have hsame : SameBlocks p₁.sched (p₁.sched.modify r fun request =>
        { request with numComputedTokens := request.numPromptTokens - 1 }) :=
      .of_modify p₁.sched p₁.sched.kvCacheManager (.refl _) r fun _ => rfl
    exact h.trans ⟨h.ledger.congr hsame, ⟨_, rfl, fun x _ => hsame.held x⟩, rfl⟩

theorem waitingAllocation {numNew n' : Nat} {hit : Bool} (h : LedgerTurn ids r pass p₁)
    (hr : r ∈ ids) (ha : Pass.WaitingAllocation p₁ r numNew hit b n' p₂) :
    LedgerTurn ids r pass p₂ := by
  cases ha with
  | direct ha => exact h.allocate hr ha
  | noShare _ ha hrel => exact ((h.allocate hr ha).release hr hrel).1
  | cold _ ha hrel _ ha' => exact ((h.allocate hr ha).release hr hrel).1.allocate hr ha'

end LedgerTurn

/-- A waiting request that is not admitted gives everything back. -/
theorem BlockLedger.waitingTurn {outcome : Pass.WaitingOutcome} (h : BlockLedger pass.sched ids)
    (hr : r ∈ ids) (hnil : (pass.sched.object r).heldBlocks = [])
    (ht : Pass.WaitingTurn pass r outcome pass') :
    BlockLedger pass'.sched ids ∧
      (∀ x, x ≠ r → (pass'.sched.object x).heldBlocks = (pass.sched.object x).heldBlocks) ∧
      ((pass'.sched.running = pass.sched.running ∧ (pass'.sched.object r).heldBlocks = []) ∨
        pass'.sched.running = pass.sched.running ++ [r]) := by
  have lookup : ∀ {p₁}, pass.lookupPrefix r = .ok p₁ → LedgerTurn ids r pass p₁ := fun hl =>
    have ⟨hledger, hbooks⟩ := h.lookup hr hnil hl
    ⟨hledger, hbooks, lookupPrefix_running hl⟩
  -- Changing a status or a queue moves no block.
  have settle : ∀ {p₁ : Pass} {f : Request → Request}, LedgerTurn ids r pass p₁ →
      (∀ q, (f q).holding = q.holding) → SameBlocks p₁.sched (p₁.sched.modify r f) :=
    fun {p₁ f} _ hf => SameBlocks.of_modify p₁.sched p₁.sched.kvCacheManager (.refl _) r hf
  cases ht with
  | @reject p₁ p₂ reason hl _ hrel =>
    obtain ⟨ht, hempty⟩ := (lookup hl).release hr hrel
    obtain ⟨l, hbook⟩ := ht.books
    have hs := settle ht (f := fun request => { request with status := .finishedAborted })
      fun _ => rfl
    refine ⟨ht.ledger.congr ⟨hs.holding, hs.kv⟩, fun x hx => ?_, .inl ⟨ht.running, ?_⟩⟩
    · exact (hs.held x).trans (hbook.other x hx)
    · exact (hs.held r).trans hempty
  | defer hl _ _ _ hrel =>
    obtain ⟨ht, hempty⟩ := (lookup hl).release hr hrel
    obtain ⟨l, hbook⟩ := ht.books
    exact ⟨ht.ledger, hbook.other, .inl ⟨ht.running, hempty⟩⟩
  | @launch p₁ p₂ p₃ numNew n' hl _ hoff halloc =>
    have ht := ((lookup hl).offer hoff).waitingAllocation hr halloc
    obtain ⟨l, hbook⟩ := ht.books
    have hs := settle ht (f := fun request => { request with status := .running }) fun _ => rfl
    refine ⟨ht.ledger.congr ⟨hs.holding, hs.kv⟩, fun x hx => ?_, .inr ?_⟩
    · exact (hs.held x).trans (hbook.other x hx)
    · exact congrArg (· ++ [r]) ht.running
  | block hl _ hoff halloc hrel =>
    obtain ⟨ht, hempty⟩ := (((lookup hl).offer hoff).waitingAllocation hr halloc).release hr hrel
    obtain ⟨l, hbook⟩ := ht.books
    exact ⟨ht.ledger, hbook.other, .inl ⟨ht.running, hempty⟩⟩

end PassSteps

/-- Blocks move on one running request. -/
theorem HeldByRunning.rebook (h : HeldByRunning s ids) (hs : Rebooks s r l s')
    (hrun : s'.running = s.running) (hr : r ∈ s.running) : HeldByRunning s' ids := by
  intro x hx hnot
  rw [hrun] at hnot
  rw [hs.other x fun he => hnot (he ▸ hr)]
  exact h x hx hnot

/-- A pass on its way: the ledger is kept, and only running requests list blocks. -/
structure Booked (ids : List RequestId) (s : Scheduler) : Prop where
  ledger : BlockLedger s ids
  held : HeldByRunning s ids

namespace Booked
variable {pass pass' : Pass} {v : RequestId}

theorem allocate {n : Nat} {b : Bool} (h : Booked ids pass.sched) (hr : r ∈ pass.sched.running)
    (hri : r ∈ ids) (ha : pass.allocate r n = .ok (b, pass')) : Booked ids pass'.sched := by
  obtain ⟨hledger, l, hbook⟩ := h.ledger.passAllocate hri ha
  exact ⟨hledger, h.held.rebook hbook (Pass.allocate_allocated ha).core.running hr⟩

/-- The victim gives its blocks back when it leaves the running queue. -/
theorem preempts (h : Booked ids pass.sched) (hv : v ∈ ids) (hp : Pass.Preempts pass r v pass') :
    Booked ids pass'.sched := by
  obtain ⟨hledger, hbook⟩ := h.ledger.preempts hv hp
  refine ⟨hledger, fun x hx hnot => ?_⟩
  by_cases hxv : x = v
  · rw [hxv]
    exact hbook.self
  · rw [hbook.other x hxv]
    refine h.held x hx fun hxr => hnot ?_
    rw [hp.running, List.mem_filter]
    exact ⟨hxr, by simpa using hxv⟩

theorem runningTurn {done rest : List RequestId} {phase : Option Phase}
    (h : Booked ids pass.sched) (hI : RunningPhase s done (r :: rest) pass)
    (hids : ∀ x ∈ s.running, x ∈ ids) (ht : Pass.RunningTurn phase pass r pass') :
    Booked ids pass'.sched := by
  have hri := hids r (by rw [← hI.split]; simp)
  cases ht with
  | skip => exact h
  | keep => exact h
  | grant hs ha =>
    have hlast := h.allocate (hI.running_of_share hs) hri ha
    exact hlast
  | short hs ha _ =>
    have hlast := h.allocate (hI.running_of_share hs) hri ha
    exact hlast
  | @preempt numNew spec q₁ q₂ q₃ b hs ha hp ha' =>
    have hr := hI.running_of_share hs
    have hrun₁ := (Pass.allocate_allocated ha).core.running
    obtain ⟨v, hp⟩ := Pass.preemptLowestPriority_spec hp
    have hvs : v ∈ s.running := by
      have hv := hp.victim_running.1
      rw [hrun₁, hI.running] at hv
      exact (List.mem_filter.mp hv).1
    have h₂ := (h.allocate hr hri ha).preempts (hids v hvs) hp
    have hlast := h₂.allocate (hp.requester_running (by rwa [hrun₁])) hri ha'
    cases b <;> exact hlast

theorem waitingTurn {admitted rejected remaining queue : List RequestId}
    {outcome : Pass.WaitingOutcome} (h : Booked ids pass.sched) (hq : Queues s)
    (hw : WaitingPhase s admitted rejected remaining (r :: queue) pass)
    (hnew : r ∉ pass.output.preemptedRequests) (hids : ∀ x ∈ s.waiting, x ∈ ids)
    (ht : Pass.WaitingTurn pass r outcome pass') : Booked ids pass'.sched := by
  obtain ⟨hwaits, -, -⟩ := hw.waits hq hnew
  have hri := hids r hwaits.waiting
  obtain ⟨hledger, hother, hcase⟩ :=
    h.ledger.waitingTurn hri (h.held r hri (hw.not_running hq hnew)) ht
  refine ⟨hledger, fun x hx hxn => ?_⟩
  by_cases hxr : x = r
  · rcases hcase with ⟨-, hempty⟩ | hrun
    · rw [hxr, hempty]
    · rw [hrun, hxr] at hxn
      simp at hxn
  · rw [hother x hxr]
    refine h.held x hx fun hmem => hxn ?_
    rcases hcase with ⟨hrun, -⟩ | hrun <;> rw [hrun]
    · exact hmem
    · exact List.mem_append_left _ hmem

end Booked

/-- A pass keeps the ledger, and only running requests list blocks after it. -/
theorem BlockLedger.schedule {pass : Pass} (h : BlockLedger s ids) (hheld : HeldByRunning s ids)
    (hq : Queues s) (hids : ∀ r, r ∈ s.running ∨ r ∈ s.waiting → r ∈ ids)
    (hsched : s.schedule = .ok pass) :
    BlockLedger pass.sched ids ∧ HeldByRunning pass.sched ids := by
  have hbooked : Booked ids pass.sched := by
    refine schedule_rule (P := fun pass => Booked ids pass.sched) hq ?_ ?_ ?_ ?_ ?_ hsched
    · obtain ⟨ph, hph⟩ := s.groupedCachePhase_snd
      rw [startPass, hph]
      exact ⟨h.congr ⟨fun _ => rfl, .refl _⟩, hheld⟩
    · intro done r rest pass pass' hI hb ht
      exact hb.runningTurn hI (fun x hx => hids x (.inl hx)) ht
    · intro pass hI hb
      refine ⟨hb.ledger.congr ⟨fun _ => rfl, .refl _⟩, fun x hx hnot => hb.held x hx ?_⟩
      rw [hI.closed hq, ← hI.running] at hnot
      exact hnot
    · intro admitted rejected remaining r queue pass outcome pass' hw hnew _ hb ht
      exact hb.waitingTurn hq hw hnew (fun x hx => hids x (.inr hx)) ht
    · exact fun pass waiting hb => ⟨hb.ledger.congr ⟨fun _ => rfl, .refl _⟩, hb.held⟩
  exact ⟨hbooked.ledger, hbooked.held⟩

end PyptoServing.Sched
