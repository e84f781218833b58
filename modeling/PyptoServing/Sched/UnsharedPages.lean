import PyptoServing.Sched.BlockConservation

/-!
# Pages that nobody shares

A cache without groups and without a prefix index: each page is listed by one request at most.
A running request only gains pages, and the table of a record covers the positions of its share
and of its drafts.
-/
namespace PyptoServing.Sched

open Lib Lib.Fallible Memory Scheduler
open KvCacheManager (GenericBalanced SameGeneric SameDims)

/-- The pages of a cache without groups and without a prefix index. -/
structure Unshared (s : Scheduler) (ids : List RequestId) : Prop where
  ids_nodup : ids.Nodup
  groups : s.kvCacheManager.groupPools = []
  prefixCache : s.config.enablePrefixCache = false
  pageSize : 0 < s.kvCacheManager.blockSize
  pool : ∃ free, GenericBalanced s.kvCacheManager free (s.holders ids)
  nodup : ∀ r ∈ ids, (s.object r).heldBlocks.Nodup
  bound : ∀ r ∈ ids, ∀ b ∈ (s.object r).heldBlocks, b < s.kvCacheManager.numBlocks
  single : ∀ b, s.holders ids b ≤ 1

/-- Nothing changes that `Unshared` reads. -/
structure SamePages (s s' : Scheduler) : Prop where
  blocks : SameBlocks s s'
  groups : s.kvCacheManager.groupPools = [] → s'.kvCacheManager.groupPools = []
  config : s'.config = s.config

/-- Request `r` lists the pages `l`, the others list what they listed. -/
structure Repages (s : Scheduler) (r : RequestId) (l : List BlockId) (s' : Scheduler) : Prop where
  books : Rebooks s r l s'
  dims : SameDims s.kvCacheManager s'.kvCacheManager
  config : s'.config = s.config

theorem Repages.trans {s s' s'' : Scheduler} {r : RequestId} {l l' : List BlockId}
    (h : Repages s r l s') (h' : Repages s' r l' s'') : Repages s r l' s'' :=
  ⟨⟨h'.books.self, fun x hx => (h'.books.other x hx).trans (h.books.other x hx)⟩,
    h.dims.trans h'.dims, h'.config.trans h.config⟩

variable {s s' s'' : Scheduler} {ids : List RequestId} {r : RequestId} {l : List BlockId}

theorem SamePages.refl (s : Scheduler) : SamePages s s := ⟨.refl s, id, rfl⟩

theorem SamePages.trans (h : SamePages s s') (h' : SamePages s' s'') : SamePages s s'' :=
  ⟨h.blocks.trans h'.blocks, h'.groups ∘ h.groups, h'.config.trans h.config⟩

theorem SamePages.of_modify (s : Scheduler) (r : RequestId) {f : Request → Request}
    (hf : ∀ q, (f q).holding = q.holding) : SamePages s (s.modify r f) :=
  ⟨sameBlocks_modify s r hf, id, rfl⟩

theorem Repages.of_same (h : SamePages s s') (r : RequestId) (hdims : SameDims s.kvCacheManager s'.kvCacheManager) :
    Repages s r (s.object r).heldBlocks s' :=
  ⟨⟨h.blocks.held r, fun x _ => h.blocks.held x⟩, hdims, h.config⟩

theorem Unshared.congr (h : Unshared s ids) (hs : SamePages s s') : Unshared s' ids := by
  obtain ⟨free, hfree⟩ := h.pool
  have hcount : ∀ b, s'.holders ids b = s.holders ids b := holders_congr hs.blocks.held
  refine ⟨h.ids_nodup, hs.groups h.groups, ?_, ?_, ⟨free, (hfree.congr hs.blocks.kv).recount hcount⟩, ?_, ?_, ?_⟩
  · rw [hs.config]
    exact h.prefixCache
  · rw [hs.blocks.kv.blockSize]
    exact h.pageSize
  · intro x hx
    rw [hs.blocks.held]
    exact h.nodup x hx
  · intro x hx
    rw [hs.blocks.held, hs.blocks.kv.numBlocks]
    exact h.bound x hx
  · intro b
    rw [hcount]
    exact h.single b

/-- The pages of one request were rewritten and the pool with them. -/
theorem Unshared.repage (h : Unshared s ids) (hs : Repages s r l s') (hnd : l.Nodup)
    (hlt : ∀ b ∈ l, b < s.kvCacheManager.numBlocks)
    (hpool : ∃ free, GenericBalanced s'.kvCacheManager free (s'.holders ids))
    (hsingle : ∀ b, s'.holders ids b ≤ 1) : Unshared s' ids := by
  refine ⟨h.ids_nodup, hs.dims.groupPools.trans h.groups, ?_, ?_, hpool, fun x hx => ?_, fun x hx => ?_, hsingle⟩
  · rw [hs.config]
    exact h.prefixCache
  · rw [hs.dims.blockSize]
    exact h.pageSize
  · by_cases hxr : x = r
    · rw [hxr, hs.books.self]
      exact hnd
    · rw [hs.books.other x hxr]
      exact h.nodup x hx
  · rw [hs.dims.numBlocks]
    by_cases hxr : x = r
    · rw [hxr, hs.books.self]
      exact hlt
    · rw [hs.books.other x hxr]
      exact h.bound x hx

/-- No page is listed by two requests. -/
theorem Unshared.disjoint (h : Unshared s ids) {r r' : RequestId} (hr : r ∈ ids) (hr' : r' ∈ ids)
    (hne : r ≠ r') : (s.object r).heldBlocks.Disjoint (s.object r').heldBlocks := by
  intro b hb hb'
  have hsub : List.Subperm [r, r'] (ids.filter fun x => decide (b ∈ (s.object x).heldBlocks)) := by
    refine List.subperm_of_subset (by simp [hne]) fun x hx => ?_
    rcases List.mem_pair.mp hx with rfl | rfl
    · exact List.mem_filter.mpr ⟨hr, decide_eq_true hb⟩
    · exact List.mem_filter.mpr ⟨hr', decide_eq_true hb'⟩
  have hlen := hsub.length_le
  rw [← List.countP_eq_length_filter] at hlen
  have hone := h.single b
  unfold Scheduler.holders at hone
  simp only [List.length_cons, List.length_nil] at hlen
  omega

theorem releaseAllGroupRequests_dims {m m' : KvCacheManager} (hm : m.groupPools = [])
    (h : m.releaseAllGroupRequests r = .ok m') : SameDims m m' := by
  unfold KvCacheManager.releaseAllGroupRequests at h
  rw [hm] at h
  cases h
  exact ⟨rfl, rfl, rfl, rfl, hm.symm⟩

theorem Unshared.free (h : Unshared s ids) (hr : r ∈ ids) (hf : s.freeRequestBlocks r = .ok s') :
    Unshared s' ids ∧ Repages s r [] s' := by
  unfold freeRequestBlocks at hf
  obtain ⟨kv, hkv, hf⟩ := bind_eq_ok.mp hf
  cases hf
  obtain ⟨free, hfree⟩ := h.pool
  have hcount : ∀ b, (s.object r).heldBlocks.count b = if b ∈ (s.object r).heldBlocks then 1 else 0 := by
    intro b
    split
    · next hb => exact List.count_eq_one_of_mem (h.nodup r hr) hb
    · next hb => exact List.count_eq_zero_of_not_mem hb
  have hpos : ∀ b, (s.object r).heldBlocks.count b ≤ s.holders ids b := by
    intro b
    rw [hcount]
    split
    · next hb =>
      unfold Scheduler.holders
      rw [Nat.succ_le_iff, List.countP_pos_iff]
      exact ⟨r, hr, decide_eq_true hb⟩
    · exact Nat.zero_le _
  obtain ⟨free', hrel, hdims⟩ := hfree.releaseBlocksByIds (h.bound r hr) hpos
  have hsame : SameGeneric (s.kvCacheManager.releaseBlocksByIds (s.object r).heldBlocks) kv ∧
      SameDims s.kvCacheManager kv := by
    unfold freedCache at hkv
    dsimp only at hkv
    rw [releaseBlocksByIds_append] at hkv
    split at hkv
    · exact ⟨releaseAllGroupRequests_sameGeneric hkv,
        hdims.trans (releaseAllGroupRequests_dims (hdims.groupPools.trans h.groups) hkv)⟩
    · cases hkv
      exact ⟨.refl _, hdims⟩
  have hbook : Repages s r [] ({ s with kvCacheManager := kv }.modify r fun request =>
      { request with
        cachedBlockIds := []
        allocatedBlockIds := []
        allocatedGroupBlockIds := ∅
        cachePartition := none
        numGroupBlocksCached := ∅ }) := by
    refine ⟨⟨?_, fun x hx => ?_⟩, hsame.2, rfl⟩
    · rw [modify_object_self]
      rfl
    · rw [modify_object_ne _ _ hx]
  have hb := fun b => hbook.books.holders h.ids_nodup hr b
  simp only [List.not_mem_nil, if_false] at hb
  refine ⟨h.repage hbook List.nodup_nil (by simp) ⟨free', ?_⟩ fun b => ?_, hbook⟩
  · refine (hrel.congr hsame.1).recount fun b => ?_
    have := hb b
    rw [hcount]
    omega
  · have hone := h.single b
    have := hb b
    omega

theorem le_ceilDiv_mul (n : Nat) {page : Nat} (hpage : 0 < page) : n ≤ ceilDiv n page * page := by
  unfold ceilDiv
  have hdiv := Nat.div_add_mod (n + page - 1) page
  have hmod := Nat.mod_lt (n + page - 1) hpage
  rw [Nat.mul_comm] at hdiv
  omega

/-- A request gains pages that nobody lists. -/
theorem Unshared.addPages {blockIds free' : List BlockId} {kv : KvCacheManager}
    (h : Unshared s ids) (hr : r ∈ ids) (hdims : SameDims s.kvCacheManager kv)
    (hnd : blockIds.Nodup)
    (hnew : ∀ b ∈ blockIds, b < s.kvCacheManager.numBlocks ∧ s.holders ids b = 0)
    (hpool : GenericBalanced kv free' fun b => s.holders ids b + blockIds.count b)
    (hs : s' = { s with kvCacheManager := kv }.modify r fun request =>
      { request with allocatedBlockIds := request.allocatedBlockIds ++ blockIds }) :
    Unshared s' ids ∧ Repages s r ((s.object r).heldBlocks ++ blockIds) s' := by
  have hbook : Repages s r ((s.object r).heldBlocks ++ blockIds) s' := by
    subst hs
    refine ⟨⟨?_, fun x hx => ?_⟩, hdims, rfl⟩
    · rw [modify_object_self]
      exact (List.append_assoc _ _ _).symm
    · rw [modify_object_ne _ _ hx]
  -- A new page had no holder, so the request did not list it.
  have hout : ∀ b ∈ blockIds, b ∉ (s.object r).heldBlocks := by
    intro b hb hheld
    have hz := (hnew b hb).2
    unfold Scheduler.holders at hz
    rw [List.countP_eq_zero] at hz
    exact hz r hr (decide_eq_true hheld)
  have hcount : ∀ b, s'.holders ids b = s.holders ids b + blockIds.count b := by
    intro b
    have hb := hbook.books.holders h.ids_nodup hr b
    by_cases hmem : b ∈ blockIds
    · rw [List.count_eq_one_of_mem hnd hmem]
      simp only [hout b hmem, if_false, List.mem_append, hmem, or_true, if_true] at hb
      omega
    · rw [List.count_eq_zero_of_not_mem hmem]
      simp only [List.mem_append, hmem, or_false] at hb
      omega
  have hkv : s'.kvCacheManager = kv := by rw [hs]; rfl
  refine ⟨h.repage hbook ?_ ?_ ⟨free', ?_⟩ fun b => ?_, hbook⟩
  · exact (h.nodup r hr).append hnd fun b hb hb' => hout b hb' hb
  · intro b hb
    rcases List.mem_append.mp hb with hb | hb
    · exact h.bound r hr b hb
    · exact (hnew b hb).1
  · rw [hkv]
    exact hpool.recount hcount
  · rw [hcount]
    by_cases hmem : b ∈ blockIds
    · rw [(hnew b hmem).2, List.count_eq_one_of_mem hnd hmem]
    · rw [List.count_eq_zero_of_not_mem hmem]
      exact h.single b

/-- A request gains pages that nobody listed; when it succeeds they cover what was asked for. -/
theorem Unshared.allocate {n : Nat} {b : Bool} (h : Unshared s ids) (hr : r ∈ ids)
    (ha : s.tryAllocateRequestBlocks r n = .ok (b, s')) :
    Unshared s' ids ∧ ∃ new, Repages s r ((s.object r).heldBlocks ++ new) s' ∧
      (b = true → (s.object r).numComputedTokens + n ≤
        ((s.object r).heldBlocks ++ new).length * s.kvCacheManager.blockSize) := by
  have hplain : s.kvCacheManager.hasGroups = false := by
    rw [KvCacheManager.hasGroups, h.groups]
    rfl
  have hkeep : ∀ (b : Bool), (b = true → (s.object r).numComputedTokens + n ≤
      (s.object r).heldBlocks.length * s.kvCacheManager.blockSize) →
      Unshared s ids ∧ ∃ new, Repages s r ((s.object r).heldBlocks ++ new) s ∧
        (b = true → (s.object r).numComputedTokens + n ≤
          ((s.object r).heldBlocks ++ new).length * s.kvCacheManager.blockSize) := by
    intro b hcover
    refine ⟨h, [], ?_, ?_⟩
    · rw [List.append_nil]
      exact .of_same (.refl s) r (.refl _)
    · rw [List.append_nil]
      exact hcover
  have hneed : ∀ k, s.blocksNeeded (s.object r) n ≤ k → (s.object r).numComputedTokens + n ≤
      ((s.object r).heldBlocks.length + k) * s.kvCacheManager.blockSize := by
    intro k hk
    refine (le_ceilDiv_mul _ h.pageSize).trans (Nat.mul_le_mul_right _ ?_)
    unfold blocksNeeded at hk
    rw [Request.heldBlocks, List.length_append]
    dsimp only at hk
    omega
  obtain ⟨free, hfree⟩ := h.pool
  unfold tryAllocateRequestBlocks at ha
  dsimp only at ha
  rw [hplain, if_neg Bool.false_ne_true] at ha
  unfold tryAllocateBlocks at ha
  split at ha
  · next hzero =>
    cases ha
    exact hkeep true fun _ => hneed 0 hzero.le
  · split at ha
    · cases ha
      exact hkeep false fun hb => by cases hb
    · split at ha
      · next kv halloc =>
        cases ha
        obtain ⟨-, ⟨-, rfl⟩ | ⟨new, hsome, -⟩⟩ := hfree.allocateBlockIds halloc
        · exact hkeep false fun hb => by cases hb
        · cases hsome
      · next blockIds kv halloc =>
        cases ha
        obtain ⟨hdims, ⟨hnone, -⟩ | ⟨new, hsome, hlen, hnd, hnew, hpool⟩⟩ := hfree.allocateBlockIds halloc
        · cases hnone
        cases hsome
        obtain ⟨hout, hbook⟩ := h.addPages hr hdims hnd hnew hpool rfl
        refine ⟨hout, blockIds, hbook, fun _ => ?_⟩
        rw [List.length_append, hlen]
        exact hneed _ le_rfl

section Cold
variable {s : Scheduler} {pass p : Pass} {r : RequestId} {numNew n' : Nat} {b : Bool}

theorem Waits.computed_zero (hw : Waits s pass r) :
    (pass.sched.object r).numComputedTokens = 0 :=
  hw.same.numComputedTokens.trans hw.idle.numComputedTokens

/-- A cold request has tokens to compute. -/
theorem Waits.offer_cold (hw : Waits s pass r) (h : Pass.WaitingOffer pass r p numNew) :
    p = pass := by
  cases h with
  | share => rfl
  | lastToken _ hfull =>
    rw [hw.same.numPromptTokens, hw.computed_zero] at hfull
    exact absurd hw.prompt_pos (Nat.not_lt.mpr hfull)

/-- A cold request has no grouped hit to give back. -/
theorem Waits.allocation_cold (hw : Waits s pass r)
    (h : Pass.WaitingAllocation pass r numNew (pass.groupedHit r) b n' p) :
    pass.allocate r n' = .ok (b, p) := by
  have hcold : pass.groupedHit r = false := by
    rw [Pass.groupedHit, hw.computed_zero]
    exact Bool.and_false _
  cases h with
  | direct ha => exact ha
  | noShare hhit =>
    rw [hcold] at hhit
    cases hhit
  | cold hhit =>
    rw [hcold] at hhit
    cases hhit

end Cold

/-- The drafts of a record for a request in the phase that the record names. -/
theorem speculativeTokensFor_eq {s : Scheduler} {sr : ScheduledRequest}
    (h : sr.isPrefill = (s.object sr.requestId).isPrefill) :
    s.speculativeTokensFor sr = s.speculativeTokens (s.object sr.requestId) := by
  unfold speculativeTokensFor speculativeTokens
  rw [h]
  by_cases hprefill : (s.object sr.requestId).isPrefill = true
  · rw [if_pos (.inl hprefill), if_neg fun hn => hn.1 hprefill]
  · by_cases htemp : 0 < (s.object sr.requestId).temperature
    · rw [if_pos (.inr htemp), if_neg fun hn => absurd htemp (not_lt.mpr hn.2)]
    · rw [if_neg (not_or.mpr ⟨hprefill, htemp⟩), if_pos ⟨hprefill, not_lt.mp htemp⟩]

/-- The pages in the middle of a pass from `s`: each record carries the present table of its
request, which covers its share and its drafts, and the tables of running requests only grew. -/
structure PagedPass (s : Scheduler) (ids : List RequestId) (pass : Pass) : Prop where
  pages : Unshared pass.sched ids
  held : HeldByRunning pass.sched ids
  size : pass.sched.kvCacheManager.blockSize = s.kvCacheManager.blockSize
  records : ∀ sr ∈ pass.output.scheduledRequests, sr.requestId ∈ pass.sched.running ∧
    sr.blockIds = (pass.sched.object sr.requestId).heldBlocks ∧
    sr.numComputedTokens + (sr.numNewTokens + s.speculativeTokensFor sr) ≤
      sr.blockIds.length * s.kvCacheManager.blockSize
  grown : ∀ r ∈ s.running, r ∈ pass.sched.running →
    (s.object r).heldBlocks <+: (pass.sched.object r).heldBlocks

namespace PagedPass
variable {pass pass' p₁ : Pass} {n : Nat} {b : Bool} {v : RequestId}

/-- The queues and the log change, not the pages. -/
theorem congr (h : PagedPass s ids pass) (hs : SamePages pass.sched pass'.sched)
    (hrun : pass'.sched.running = pass.sched.running)
    (hout : pass'.output.scheduledRequests = pass.output.scheduledRequests) :
    PagedPass s ids pass' := by
  refine ⟨h.pages.congr hs, fun x hx hnot => ?_, hs.blocks.kv.blockSize.trans h.size,
    fun sr hsr => ?_, fun x hx hrunning => ?_⟩
  · rw [hs.blocks.held]
    rw [hrun] at hnot
    exact h.held x hx hnot
  · rw [hout] at hsr
    rw [hrun, hs.blocks.held]
    exact h.records sr hsr
  · rw [hs.blocks.held]
    rw [hrun] at hrunning
    exact h.grown x hx hrunning

/-- A running request without a record grows its table. -/
theorem allocate (h : PagedPass s ids pass) (hr : r ∈ pass.sched.running) (hri : r ∈ ids)
    (hnone : ∀ sr ∈ pass.output.scheduledRequests, sr.requestId ≠ r)
    (ha : pass.allocate r n = .ok (b, pass')) : PagedPass s ids pass' ∧
      (b = true → (pass'.sched.object r).numComputedTokens + n ≤
        (pass'.sched.object r).heldBlocks.length * s.kvCacheManager.blockSize) := by
  obtain ⟨sched, halloc, rfl, hall, -⟩ := Pass.allocate_spec ha
  obtain ⟨hpages, new, hbook, hcover⟩ := h.pages.allocate hri halloc
  refine ⟨⟨hpages, ?_, hbook.dims.blockSize.trans h.size, fun sr hsr => ?_, fun x hx hrun => ?_⟩, ?_⟩
  · exact h.held.rebook hbook.books hall.core.running hr
  · rw [hall.output] at hsr
    rw [hall.core.running, hbook.books.other _ (hnone sr hsr)]
    exact h.records sr hsr
  · rw [hall.core.running] at hrun
    by_cases hxr : x = r
    · rw [hxr, hbook.books.self]
      exact ((hxr ▸ h.grown x hx hrun :)).trans (List.prefix_append _ _)
    · rw [hbook.books.other x hxr]
      exact h.grown x hx hrun
  · intro hb
    rw [hbook.books.self, (hall.core.object r).numComputedTokens, ← h.size]
    exact hcover hb

/-- A record with the table that was just grown. -/
theorem grantRunning {numNew scheduledTokens budget : Nat} {isPrefill : Bool}
    (h : PagedPass s ids pass) (hr : r ∈ pass.sched.running)
    (hle : numNew + s.speculativeTokensFor (pass.scheduledRequest r numNew isPrefill) ≤
      scheduledTokens)
    (hcover : (pass.sched.object r).numComputedTokens + scheduledTokens ≤
      (pass.sched.object r).heldBlocks.length * s.kvCacheManager.blockSize) :
    PagedPass s ids (pass.grantRunning r numNew scheduledTokens isPrefill budget) := by
  refine ⟨h.pages, h.held, h.size, fun sr hsr => ?_, h.grown⟩
  rcases List.mem_append.mp hsr with hsr | hsr
  · exact h.records sr hsr
  · rw [List.mem_singleton.mp hsr]
    exact ⟨hr, rfl, (Nat.add_le_add_left hle _).trans hcover⟩

/-- A victim loses its pages and its record. -/
theorem preempts (h : PagedPass s ids pass) (hv : v ∈ ids)
    (hids : ∀ x, x ∈ pass.scheduledReqIds ↔ x ∈ pass.output.scheduledRequests.map (·.requestId))
    (hp : Pass.Preempts pass r v pass') : PagedPass s ids pass' := by
  obtain ⟨s₁, hfree, hsched⟩ := hp.sched
  obtain ⟨h₁, hbook⟩ := h.pages.free hv hfree
  have hcore := freeRequestBlocks_sameCore hfree
  have hrun : pass'.sched.running = pass.sched.running.filter (· ≠ v) := by rw [hsched]
  have hsame : SamePages s₁ pass'.sched := by
    rw [hsched]
    refine ⟨⟨fun x => ?_, .refl _⟩, id, rfl⟩
    dsimp only
    rw [modify_object]
    split
    · next hx =>
      rw [hx]
      exact Prod.ext hbook.books.self.symm rfl
    · rfl
  have hself : (pass'.sched.object v).heldBlocks = [] :=
    (hsame.blocks.held v).trans hbook.books.self
  have hother : ∀ x, x ≠ v →
      (pass'.sched.object x).heldBlocks = (pass.sched.object x).heldBlocks :=
    fun x hx => (hsame.blocks.held x).trans (hbook.books.other x hx)
  have hstays : ∀ x ∈ pass'.sched.running, x ∈ pass.sched.running ∧ x ≠ v := by
    intro x hx
    rw [hrun, List.mem_filter] at hx
    exact ⟨hx.1, of_decide_eq_true hx.2⟩
  refine ⟨h₁.congr hsame, fun x hx hnot => ?_, ?_, fun sr hsr => ?_, fun x hx hrunning => ?_⟩
  · by_cases hxv : x = v
    · rw [hxv]
      exact hself
    · rw [hother x hxv]
      refine h.held x hx fun hmem => hnot ?_
      rw [hrun, List.mem_filter]
      exact ⟨hmem, decide_eq_true hxv⟩
  · exact (hsame.blocks.kv.blockSize.trans hbook.dims.blockSize).trans h.size
  · have hkept : sr ∈ pass.output.scheduledRequests ∧ sr.requestId ≠ v := by
      rw [hp.scheduled] at hsr
      split at hsr
      · exact ⟨List.mem_of_mem_filter hsr, of_decide_eq_true (List.mem_filter.mp hsr).2⟩
      · next hout =>
        refine ⟨hsr, fun he => hout ((hids v).mpr ?_)⟩
        rw [← he]
        exact List.mem_map_of_mem hsr
    obtain ⟨hrunning, htable, hcover⟩ := h.records sr hkept.1
    refine ⟨?_, htable.trans (hother _ hkept.2).symm, hcover⟩
    rw [hrun, List.mem_filter]
    exact ⟨hrunning, decide_eq_true hkept.2⟩
  · obtain ⟨hrunning, hxv⟩ := hstays x hrunning
    rw [hother x hxv]
    exact h.grown x hx hrunning

end PagedPass

/-- Without a prefix index a request starts cold. -/
theorem Unshared.lookup {pass pass' : Pass} (h : Unshared pass.sched ids)
    (hl : pass.lookupPrefix r = .ok pass') : pass' = pass := by
  unfold Pass.lookupPrefix at hl
  dsimp only at hl
  rw [h.prefixCache, if_pos Bool.false_ne_true] at hl
  exact (Except.ok.inj hl).symm

theorem Unshared.releaseWaiting {pass pass' : Pass} (h : Unshared pass.sched ids) (hr : r ∈ ids)
    (hl : pass.releaseWaiting r = .ok pass') :
    Unshared pass'.sched ids ∧ Repages pass.sched r [] pass'.sched := by
  unfold Pass.releaseWaiting at hl
  obtain ⟨s₁, hrel, hl⟩ := bind_eq_ok.mp hl
  cases hl
  unfold releaseWaitingPrefixBlocks at hrel
  obtain ⟨s₂, hfree, hrel⟩ := bind_eq_ok.mp hrel
  cases hrel
  obtain ⟨h₂, hbook⟩ := h.free hr hfree
  have hsame : SamePages s₂ (s₂.modify r fun request =>
      { request with numComputedTokens := 0, numBlocksCached := 0, numGroupBlocksCached := ∅ }) :=
    .of_modify s₂ r fun _ => rfl
  refine ⟨h₂.congr hsame, ⟨(hsame.blocks.held r).trans hbook.books.self, fun x hx =>
    (hsame.blocks.held x).trans (hbook.books.other x hx)⟩, hbook.dims, hbook.config⟩

namespace PagedPass
variable {pass pass' p₁ p₂ : Pass} {n : Nat} {b : Bool}

/-- A request that is not running gave back what it had. -/
theorem dismissed (h : PagedPass s ids pass) (hr : r ∉ pass.sched.running)
    (hpages : Unshared pass'.sched ids) (hbook : Repages pass.sched r [] pass'.sched)
    (hrun : pass'.sched.running = pass.sched.running)
    (hout : pass'.output.scheduledRequests = pass.output.scheduledRequests) :
    PagedPass s ids pass' := by
  have hother : ∀ x ∈ pass.sched.running,
      (pass'.sched.object x).heldBlocks = (pass.sched.object x).heldBlocks :=
    fun x hx => hbook.books.other x fun he => hr (he ▸ hx)
  refine ⟨hpages, fun x hx hnot => ?_, hbook.dims.blockSize.trans h.size, fun sr hsr => ?_,
    fun x hx hrunning => ?_⟩
  · by_cases hxr : x = r
    · rw [hxr]
      exact hbook.books.self
    · rw [hbook.books.other x hxr]
      rw [hrun] at hnot
      exact h.held x hx hnot
  · rw [hout] at hsr
    obtain ⟨hrunning, htable, hcover⟩ := h.records sr hsr
    rw [hrun]
    exact ⟨hrunning, htable.trans (hother _ hrunning).symm, hcover⟩
  · rw [hrun] at hrunning
    rw [hother x hrunning]
    exact h.grown x hx hrunning

/-- A waiting request is admitted with a fresh table. -/
theorem admitted (h : PagedPass s ids pass) (hw : Waits s pass r) (hri : r ∈ ids)
    (hr : r ∉ pass.sched.running) (ha : pass.allocate r n = .ok (true, p₁)) :
    PagedPass s ids (p₁.launch r n) := by
  obtain ⟨sched, halloc, rfl, hall, -⟩ := Pass.allocate_spec ha
  obtain ⟨hpages, new, hbook, hcover⟩ := h.pages.allocate hri halloc
  have hstatus : SamePages p₁.sched (p₁.launch r n).sched := by
    have hs : SamePages p₁.sched (p₁.sched.modify r fun request =>
      { request with status := .running }) := .of_modify p₁.sched r fun _ => rfl
    exact ⟨⟨hs.blocks.holding, hs.blocks.kv⟩, hs.groups, hs.config⟩
  have hself : ((p₁.launch r n).sched.object r).heldBlocks = (pass.sched.object r).heldBlocks ++ new :=
    (hstatus.blocks.held r).trans hbook.books.self
  have hother : ∀ x, x ≠ r →
      ((p₁.launch r n).sched.object x).heldBlocks = (pass.sched.object x).heldBlocks :=
    fun x hx => (hstatus.blocks.held x).trans (hbook.books.other x hx)
  have hrun : (p₁.launch r n).sched.running = pass.sched.running ++ [r] := by
    rw [Pass.launch_running, hall.core.running]
  refine ⟨hpages.congr hstatus, fun x hx hnot => ?_, ?_, fun sr hsr => ?_, fun x hx hrunning => ?_⟩
  · rw [hrun, List.mem_append, List.mem_singleton, not_or] at hnot
    rw [hother x hnot.2]
    exact h.held x hx hnot.1
  · exact hbook.dims.blockSize.trans h.size
  · rw [Pass.launch_scheduledRequests, hall.output] at hsr
    rw [hrun]
    rcases List.mem_append.mp hsr with hsr | hsr
    · obtain ⟨hrunning, htable, hcov⟩ := h.records sr hsr
      refine ⟨List.mem_append_left _ hrunning, htable.trans (hother _ ?_).symm, hcov⟩
      rintro rfl
      exact hr hrunning
    · rw [List.mem_singleton.mp hsr]
      refine ⟨List.mem_append_right _ List.mem_cons_self, rfl, ?_⟩
      have hcomp : ((p₁.launch r n).sched.object r).numComputedTokens =
          (pass.sched.object r).numComputedTokens := by
        rw [Pass.launch_object_self]
        exact (hall.core.object r).numComputedTokens
      show ((p₁.launch r n).sched.object r).numComputedTokens +
          (n + s.speculativeTokensFor _) ≤
        ((p₁.launch r n).sched.object r).heldBlocks.length * s.kvCacheManager.blockSize
      rw [speculativeTokensFor, if_pos (.inl rfl), hcomp, hself, ← h.size]
      exact hcover rfl
  · rw [hrun] at hrunning
    have hxr : x ≠ r := fun he => hw.notRunning (he ▸ hx)
    rw [hother x hxr]
    refine h.grown x hx ((List.mem_append.mp hrunning).resolve_right ?_)
    rwa [List.mem_singleton]

/-- A turn of the waiting phase. -/
theorem waitingTurn {outcome : Pass.WaitingOutcome} (h : PagedPass s ids pass)
    (hw : Waits s pass r) (hri : r ∈ ids) (hr : r ∉ pass.sched.running)
    (ht : Pass.WaitingTurn pass r outcome pass') : PagedPass s ids pass' := by
  have hrelease : ∀ {p p' : Pass}, Unshared p.sched ids →
      (∃ l, Repages pass.sched r l p.sched) → p.sched.running = pass.sched.running →
      p.output.scheduledRequests = pass.output.scheduledRequests →
      p.releaseWaiting r = .ok p' → PagedPass s ids p' := by
    rintro p p' hpages ⟨l, hbook⟩ hrun hout hrel
    obtain ⟨hpages', hbook'⟩ := hpages.releaseWaiting hri hrel
    have hstep := WaitingStep.of_release (s := p.sched) hrel
    exact h.dismissed hr hpages' (hbook.trans hbook') (hstep.core.running.trans hrun)
      ((congrArg _ hstep.output).trans hout)
  have hstart : Unshared pass.sched ids ∧ ∃ l, Repages pass.sched r l pass.sched :=
    ⟨h.pages, _, .of_same (.refl _) r (.refl _)⟩
  cases ht with
  | @reject p₁ p₂ reason hl _ hrel =>
    cases h.pages.lookup hl
    have hp := hrelease hstart.1 hstart.2 rfl rfl hrel
    have hs : SamePages p₂.sched (p₂.sched.modify r fun request =>
      { request with status := .finishedAborted }) := .of_modify p₂.sched r fun _ => rfl
    exact hp.congr ⟨⟨hs.blocks.holding, hs.blocks.kv⟩, hs.groups, hs.config⟩ rfl rfl
  | defer hl _ _ _ hrel =>
    cases h.pages.lookup hl
    exact hrelease hstart.1 hstart.2 rfl rfl hrel
  | launch hl _ hoff halloc =>
    cases h.pages.lookup hl
    cases hw.offer_cold hoff
    exact h.admitted hw hri hr (hw.allocation_cold halloc)
  | block hl _ hoff halloc hrel =>
    cases h.pages.lookup hl
    cases hw.offer_cold hoff
    obtain ⟨sched, hone, rfl, hall, -⟩ := Pass.allocate_spec (hw.allocation_cold halloc)
    obtain ⟨hpages, new, hbook, -⟩ := h.pages.allocate hri hone
    exact hrelease hpages ⟨_, hbook⟩ hall.core.running (congrArg _ hall.output) hrel

end PagedPass

/-- The start of a pass. -/
theorem PagedPass.start (h : Unshared s ids) (hheld : HeldByRunning s ids) :
    PagedPass s ids s.startPass := by
  obtain ⟨ph, hph⟩ := s.groupedCachePhase_snd
  rw [startPass, hph]
  exact ⟨h.congr ⟨⟨fun _ => rfl, .refl _⟩, id, rfl⟩, hheld, rfl, fun _ hsr => absurd hsr List.not_mem_nil,
    fun _ _ _ => List.prefix_rfl⟩

/-- A turn of the running phase. -/
theorem PagedPass.runningTurn {done rest : List RequestId} {pass pass' : Pass}
    (h : PagedPass s ids pass) (hq : Queues s) (hI : RunningPhase s done (r :: rest) pass)
    (hids : ∀ x ∈ s.running, x ∈ ids)
    (ht : Pass.RunningTurn s.groupedCachePhase.1 pass r pass') : PagedPass s ids pass' := by
  have hri := hids r (by rw [← hI.split]; simp)
  have hnone : ∀ sr ∈ pass.output.scheduledRequests, sr.requestId ≠ r := by
    intro sr hsr he
    have hnd : (done ++ r :: rest).Nodup := by
      rw [hI.split]
      exact hq.running_nodup
    rw [List.nodup_append] at hnd
    exact hnd.2.2 _ (hI.records sr hsr).1 r (by simp) he
  have drafts : ∀ {numNew spec : Nat} (p : Pass),
      Pass.RunningShare s.groupedCachePhase.1 pass r numNew spec pass.tokenBudget →
      numNew + s.speculativeTokensFor
        (p.scheduledRequest r numNew (pass.sched.object r).isPrefill) = numNew + spec := by
    intro numNew spec p hs
    obtain ⟨-, -, hsame, -⟩ := hI.share hs
    rw [speculativeTokensFor_eq hsame.isPrefill, hs.spec_eq,
      speculativeTokens_congr hI.config hsame]
    rfl
  cases ht with
  | skip => exact h
  | keep => exact h.congr (.refl _) rfl rfl
  | @grant numNew spec p₁ hs ha =>
    have hr := hI.running_of_share hs
    obtain ⟨h₁, hcover⟩ := h.allocate hr hri hnone ha
    refine h₁.grantRunning ?_ (drafts p₁ hs).le (hcover rfl)
    rw [(Pass.allocate_allocated ha).core.running]
    exact hr
  | short hs ha _ =>
    exact (h.allocate (hI.running_of_share hs) hri hnone ha).1.congr (.refl _) rfl rfl
  | @preempt numNew spec p₁ p₂ p₃ b hs ha hp ha' =>
    have hr := hI.running_of_share hs
    obtain ⟨h₁, -⟩ := h.allocate hr hri hnone ha
    have hall := Pass.allocate_allocated ha
    obtain ⟨v, hp⟩ := Pass.preemptLowestPriority_spec hp
    have hvs : v ∈ s.running := by
      have hv := hp.victim_running.1
      rw [hall.core.running, hI.running] at hv
      exact (List.mem_filter.mp hv).1
    have hids₁ : ∀ x, x ∈ p₁.scheduledReqIds ↔
        x ∈ p₁.output.scheduledRequests.map (·.requestId) := by
      rw [hall.scheduledReqIds, hall.output]
      exact hI.ids
    have h₂ := h₁.preempts (hids v hvs) hids₁ hp
    have hr₂ := hp.requester_running (by rwa [hall.core.running])
    have hnone₂ : ∀ sr ∈ p₂.output.scheduledRequests, sr.requestId ≠ r := by
      intro sr hsr
      rw [hp.scheduled, hall.output] at hsr
      split at hsr
      · exact hnone sr (List.mem_of_mem_filter hsr)
      · exact hnone sr hsr
    obtain ⟨h₃, hcover⟩ := h₂.allocate hr₂ hri hnone₂ ha'
    cases b with
    | false => exact h₃.congr (.refl _) rfl rfl
    | true =>
      refine h₃.grantRunning ?_ (drafts p₃ hs).le (hcover rfl)
      rw [(Pass.allocate_allocated ha').core.running]
      exact hr₂

/-- After a pass the tables are where they were, and each record carries the table of its
request. -/
theorem PagedPass.schedule {pass : Pass} (h : Unshared s ids) (hheld : HeldByRunning s ids)
    (hq : Queues s) (hids : ∀ r, r ∈ s.running ∨ r ∈ s.waiting → r ∈ ids)
    (hsched : s.schedule = .ok pass) : PagedPass s ids pass := by
  refine schedule_rule (P := PagedPass s ids) hq (.start h hheld) ?_ ?_ ?_ ?_ hsched
  · intro done r rest pass pass' hI hp ht
    exact hp.runningTurn hq hI (fun x hx => hids x (.inl hx)) ht
  · intro pass hI hp
    refine hp.congr ⟨⟨fun _ => rfl, .refl _⟩, id, rfl⟩ ?_ rfl
    rw [hI.closed hq, hI.running]
  · intro admitted rejected remaining r queue pass outcome pass' hw hnew _ hp ht
    obtain ⟨hwaits, -, -⟩ := hw.waits hq hnew
    exact hp.waitingTurn hwaits (hids r (.inr hwaits.waiting)) (hw.not_running hq hnew) ht
  · exact fun pass waiting hp => hp.congr ⟨⟨fun _ => rfl, .refl _⟩, id, rfl⟩ rfl rfl

end PyptoServing.Sched
