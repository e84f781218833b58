import PyptoServing.Memory.Partitions
import PyptoServing.Sched.WellFormed

/-!
# Running requests per cache partition

`Seated`: the partition that a request object names is the one its blocks live in. Each
scheduler operation moves at most the request it is about. A new request enters a partition
in the waiting phase only; `Scheduler.admissionsFit` asks that each admission there finds a
partition with a free slot.
-/
namespace PyptoServing.Sched

open Lib Lib.Fallible Memory Scheduler
open KvCacheManager (SameSeats Reseats)

/-- What a request object says about its grouped blocks. -/
def Request.seat (request : Request) : GroupTables × Option Nat :=
  (request.allocatedGroupBlockIds, request.cachePartition)

/-- The cache partition of a request's blocks. -/
def Scheduler.partitionOf (s : Scheduler) (r : RequestId) : Option Nat :=
  s.kvCacheManager.groupRequestPartition r

/-- The number of running requests whose blocks live in a partition. -/
def Scheduler.slotsUsed (s : Scheduler) (partition : Nat) : Nat :=
  s.running.countP fun r => decide (s.partitionOf r = some partition)

/-- The cache and the request objects agree on the partitions. -/
structure Seated (s : Scheduler) : Prop where
  agreed : s.kvCacheManager.Agreed
  bare : s.kvCacheManager.hasGroups = false → ∀ r, s.partitionOf r = none
  seat : ∀ r ∈ s.requests, (s.object r).cachePartition = s.partitionOf r
  tables : ∀ r, (s.partitionOf r).isSome → (s.object r).allocatedGroupBlockIds.entries ≠ []

/-- Nothing changes that `Seated` reads. -/
structure SameSeating (s s' : Scheduler) : Prop where
  kv : SameSeats s.kvCacheManager s'.kvCacheManager
  seat : ∀ r, (s'.object r).seat = (s.object r).seat
  requests : s'.requests ⊆ s.requests

/-- Request `r` moves to partition `p`, nobody else moves. -/
structure Moves (s : Scheduler) (r : RequestId) (p : Option Nat) (s' : Scheduler) : Prop where
  kv : Reseats s.kvCacheManager r p s'.kvCacheManager
  seat : (s'.object r).cachePartition = p
  tables : p.isSome → (s'.object r).allocatedGroupBlockIds.entries ≠ []
  other : ∀ x, x ≠ r → (s'.object x).seat = (s.object x).seat
  bare : s.kvCacheManager.hasGroups = false → p = none
  requests : s'.requests ⊆ s.requests

theorem Request.seat_tables {q q' : Request} (h : q'.seat = q.seat) :
    q'.allocatedGroupBlockIds = q.allocatedGroupBlockIds := congrArg Prod.fst h

theorem Request.seat_partition {q q' : Request} (h : q'.seat = q.seat) :
    q'.cachePartition = q.cachePartition := congrArg Prod.snd h

variable {s s' s'' : Scheduler} {r : RequestId} {p q : Option Nat} {sr : ScheduledRequest}
  {output output' : SchedulerOutput}

theorem SameSeating.refl (s : Scheduler) : SameSeating s s :=
  ⟨.refl _, fun _ => rfl, List.Subset.refl _⟩

theorem SameSeating.trans (h : SameSeating s s') (h' : SameSeating s' s'') : SameSeating s s'' :=
  ⟨h.kv.trans h'.kv, fun r => (h'.seat r).trans (h.seat r), List.Subset.trans h'.requests h.requests⟩

/-- A change of one request that leaves its grouped blocks alone. -/
theorem SameSeating.of_modify (s : Scheduler) (kv : KvCacheManager)
    (hkv : SameSeats s.kvCacheManager kv) (r : RequestId) {f : Request → Request}
    (hf : ∀ q, (f q).seat = q.seat) :
    SameSeating s ({ s with kvCacheManager := kv }.modify r f) := by
  refine ⟨hkv, fun r' => ?_, List.Subset.refl _⟩
  rw [modify_object]
  split
  · next hr =>
    subst hr
    exact hf _
  · rfl

theorem SameSeating.cachePartition (h : SameSeating s s') (r : RequestId) :
    (s'.object r).cachePartition = (s.object r).cachePartition := Request.seat_partition (h.seat r)

theorem SameSeating.partitionOf (h : SameSeating s s') (r : RequestId) :
    s'.partitionOf r = s.partitionOf r := h.kv.partition r

theorem Seated.congr (h : Seated s) (hs : SameSeating s s') : Seated s' := by
  refine ⟨hs.kv.agreed h.agreed, fun hg r => ?_, fun r hr => ?_, fun r hr => ?_⟩
  · rw [hs.partitionOf]
    exact h.bare (hs.kv.hasGroups ▸ hg) r
  · rw [hs.cachePartition, hs.partitionOf]
    exact h.seat r (hs.requests hr)
  · rw [hs.partitionOf] at hr
    rw [Request.seat_tables (hs.seat r)]
    exact h.tables r hr

theorem Seated.moves (h : Seated s) (hm : Moves s r p s') : Seated s' := by
  refine ⟨hm.kv.agreed h.agreed, fun hg x => ?_, fun x hx => ?_, fun x hx => ?_⟩
  · have hg' : s.kvCacheManager.hasGroups = false := by rw [← hm.kv.hasGroups, hg]
    by_cases hxr : x = r
    · subst hxr
      exact hm.kv.self.trans (hm.bare hg')
    · exact (hm.kv.other x hxr).trans (h.bare hg' x)
  · by_cases hxr : x = r
    · subst hxr
      exact hm.seat.trans hm.kv.self.symm
    · exact ((Request.seat_partition (hm.other x hxr)).trans
        (h.seat x (hm.requests hx))).trans
        (hm.kv.other x hxr).symm
  · by_cases hxr : x = r
    · subst hxr
      refine hm.tables ?_
      rwa [← hm.kv.self]
    · rw [partitionOf, hm.kv.other x hxr] at hx
      rw [Request.seat_tables (hm.other x hxr)]
      exact h.tables x hx

theorem Moves.trans (h : Moves s r p s') (h' : Moves s' r q s'') : Moves s r q s'' :=
  ⟨⟨h'.kv.self, fun x hx => (h'.kv.other x hx).trans (h.kv.other x hx),
      fun ha => h'.kv.agreed (h.kv.agreed ha), h'.kv.hasGroups.trans h.kv.hasGroups⟩,
    h'.seat, h'.tables, fun x hx => (h'.other x hx).trans (h.other x hx),
    fun hg => h'.bare (h.kv.hasGroups.trans hg), List.Subset.trans h'.requests h.requests⟩

theorem Moves.same (h : Moves s r p s') (h' : SameSeating s' s'') : Moves s r p s'' := by
  refine ⟨⟨(h'.partitionOf r).trans h.kv.self,
      fun x hx => (h'.partitionOf x).trans (h.kv.other x hx),
      fun ha => h'.kv.agreed (h.kv.agreed ha), h'.kv.hasGroups.trans h.kv.hasGroups⟩,
    (h'.cachePartition r).trans h.seat, fun hp => ?_,
    fun x hx => (h'.seat x).trans (h.other x hx), h.bare, List.Subset.trans h'.requests h.requests⟩
  rw [Request.seat_tables (h'.seat r)]
  exact h.tables hp

/-- The cache moves `r` and its object is rewritten with it. -/
theorem Moves.of_modify (s : Scheduler) (kv : KvCacheManager) (r : RequestId)
    (f : Request → Request) (hkv : Reseats s.kvCacheManager r p kv)
    (hseat : (f (s.object r)).cachePartition = p)
    (htables : p.isSome → (f (s.object r)).allocatedGroupBlockIds.entries ≠ [])
    (hbare : s.kvCacheManager.hasGroups = false → p = none) :
    Moves s r p ({ s with kvCacheManager := kv }.modify r f) := by
  refine ⟨hkv, ?_, fun hp => ?_, fun x hx => ?_, hbare, List.Subset.refl _⟩
  · rw [modify_object_self]
    exact hseat
  · rw [modify_object_self]
    exact htables hp
  · rw [modify_object_ne _ _ hx]

/-- Staying is a move to the present partition. -/
theorem SameSeating.moves (h : SameSeating s s') (hs : Seated s) (hr : r ∈ s.requests) :
    Moves s r (s.partitionOf r) s' :=
  ⟨h.kv.reseats r, (h.cachePartition r).trans (hs.seat r hr),
    fun hr => by
      rw [Request.seat_tables (h.seat r)]
      exact hs.tables r hr,
    fun x _ => h.seat x, fun hg => hs.bare hg r, h.requests⟩

theorem releaseBlocksByIds_sameSeats (l : List BlockId) (m : KvCacheManager) :
    SameSeats m (m.releaseBlocksByIds l) := by
  induction l generalizing m with
  | nil => exact .refl m
  | cons b l ih =>
    refine SameSeats.trans ?_ (ih (m.release b))
    unfold KvCacheManager.release
    split
    · exact .refl m
    · dsimp only
      split <;> exact ⟨fun _ => rfl, id, rfl⟩

theorem Seated.free (h : Seated s) (hf : s.freeRequestBlocks r = .ok s') : Moves s r none s' := by
  unfold freeRequestBlocks at hf
  obtain ⟨kv, hkv, hf⟩ := bind_eq_ok.mp hf
  cases hf
  have hgeneric := (releaseBlocksByIds_sameSeats (s.object r).cachedBlockIds s.kvCacheManager).trans
    (releaseBlocksByIds_sameSeats (s.object r).allocatedBlockIds _)
  have hreseat : Reseats s.kvCacheManager r none kv := by
    unfold freedCache at hkv
    dsimp only at hkv
    split at hkv
    · have hrel := KvCacheManager.releaseAll_reseats hkv
      exact ⟨hrel.self, fun x hx => (hrel.other x hx).trans (hgeneric.partition x),
        fun ha => hrel.agreed (hgeneric.agreed ha), hrel.hasGroups.trans hgeneric.hasGroups⟩
    · next hnil =>
      cases hkv
      have hnone : s.partitionOf r = none := by
        by_contra hsome
        exact h.tables r (Option.isSome_iff_ne_none.mpr hsome) (not_not.mp hnil)
      have := hgeneric.reseats r
      rwa [show s.kvCacheManager.groupRequestPartition r = none from hnone] at this
  exact .of_modify s kv r _ hreseat rfl (by simp) fun _ => rfl

theorem tryAllocateBlocks_sameSeating (s : Scheduler) (r : RequestId) (n : Nat) :
    SameSeating s (s.tryAllocateBlocks r n).2 := by
  have hloop : ∀ (k : Nat) (m : KvCacheManager) (taken : List BlockId),
      SameSeats m (m.allocateLoop taken k).2 := by
    intro k
    induction k with
    | zero => exact fun m _ => .refl m
    | succ k ih =>
      intro m taken
      rw [KvCacheManager.allocateLoop]
      split
      · exact releaseBlocksByIds_sameSeats taken m
      · next b _ =>
        refine SameSeats.trans ?_ (ih (m.takeBlock b) _)
        unfold KvCacheManager.takeBlock
        dsimp only
        split <;> exact ⟨fun _ => rfl, id, rfl⟩
  have halloc : SameSeats s.kvCacheManager (s.kvCacheManager.allocateBlockIds n).2 := by
    unfold KvCacheManager.allocateBlockIds
    split
    · exact .refl _
    · split
      · exact .refl _
      · exact hloop n _ []
  unfold tryAllocateBlocks
  split
  · exact .refl s
  · split
    · exact .refl s
    · split
      · next kv hkv =>
        rw [hkv] at halloc
        exact ⟨halloc, fun _ => rfl, List.Subset.refl _⟩
      · next ids kv hkv =>
        rw [hkv] at halloc
        dsimp only
        apply SameSeating.of_modify s kv halloc
        exact fun _ => rfl

/-- An allocation for `r` seats it when it succeeds in a grouped cache; otherwise nobody moves. -/
theorem allocate_seats {n : Nat} {b : Bool}
    (ha : s.tryAllocateRequestBlocks r n = .ok (b, s')) :
    ((b = false ∨ s.kvCacheManager.hasGroups = false) ∧ SameSeating s s') ∨
    (b = true ∧ s.kvCacheManager.hasGroups = true ∧
      ∃ p, KvCacheManager.Seats s.kvCacheManager r ((s.object r).numComputedTokens + n)
        (s.object r).cachePartition p ∧ Moves s r (some p) s') := by
  unfold tryAllocateRequestBlocks at ha
  dsimp only at ha
  split at ha
  · next hg =>
    split at ha
    · next tables kv hens =>
      obtain ⟨hok, -⟩ := KvCacheManager.ensureGroupBlocks_seats hg hens
      obtain ⟨hne, p, hseats, hmove⟩ := hok tables rfl
      cases ha
      refine .inr ⟨rfl, hg, p, hseats, .of_modify s kv r _ hmove hmove.self (fun _ => hne) ?_⟩
      rw [hg]
      exact fun hno => by cases hno
    · next message kv hens =>
      obtain ⟨-, hfail⟩ := KvCacheManager.ensureGroupBlocks_seats hg hens
      cases ha
      exact .inl ⟨.inl rfl, hfail message rfl, fun _ => rfl, List.Subset.refl _⟩
    · cases ha
  · next hg =>
    have hs := tryAllocateBlocks_sameSeating s r (s.blocksNeeded (s.object r) n)
    rw [Except.ok.inj ha] at hs
    exact .inl ⟨.inr (by simpa using hg), hs⟩

/-- An allocation for a request with a partition moves nobody. -/
theorem Seated.allocate_stays {n k : Nat} {b : Bool} (h : Seated s) (hr : r ∈ s.requests)
    (hk : s.partitionOf r = some k) (ha : s.tryAllocateRequestBlocks r n = .ok (b, s')) :
    Moves s r (some k) s' := by
  rcases allocate_seats ha with ⟨-, hsame⟩ | ⟨-, -, p, hseats, hmove⟩
  · have := hsame.moves h hr
    rwa [hk] at this
  · rwa [hseats.stays k hk] at hmove

theorem getComputedBlocks_sameSeats (m : KvCacheManager) (ts : List Int) :
    SameSeats m (m.getComputedBlocks ts).2 := by
  have hcached : ∀ (m : KvCacheManager) (x : Int), SameSeats m (m.getCachedBlock x).2 := by
    intro m x
    unfold KvCacheManager.getCachedBlock
    split
    · exact .refl m
    · split
      · exact .refl m
      · dsimp only
        split <;> exact ⟨fun _ => rfl, id, rfl⟩
  have hloop : ∀ (hashes : List Int) (n : Nat) (m : KvCacheManager),
      SameSeats m (m.hitLoop n hashes).2 := by
    intro hashes
    induction hashes with
    | nil =>
      intro n m
      cases n <;> exact .refl m
    | cons x hashes ih =>
      intro n m
      cases n with
      | zero => exact .refl m
      | succ n =>
        have hx := hcached m x
        rw [KvCacheManager.hitLoop]
        split
        · next m' hm =>
          rwa [hm] at hx
        · next b m' hm =>
          rw [hm] at hx
          exact hx.trans (ih n m')
  unfold KvCacheManager.getComputedBlocks
  split
  · exact .refl m
  · exact hloop _ _ m

section PassSteps
variable {pass pass' p₁ p₂ : Pass} {n : Nat} {b : Bool}

/-- The lookup seats a request without a partition at its hit, or nowhere. -/
theorem Seated.lookup (h : Seated pass.sched) (hreq : r ∈ pass.sched.requests)
    (hr : pass.sched.partitionOf r = none)
    (hl : pass.lookupPrefix r = .ok pass') : ∃ q, Moves pass.sched r q pass'.sched := by
  have hsame : SameSeating pass.sched pass'.sched → ∃ q, Moves pass.sched r q pass'.sched :=
    fun hs => ⟨_, hs.moves h hreq⟩
  unfold Pass.lookupPrefix at hl
  dsimp only at hl
  split at hl
  · cases hl
    exact hsame (.refl _)
  · split at hl
    · next hg =>
      obtain ⟨⟨⟨tables, hitTokens, partition⟩, kv⟩, hacq, hl⟩ := bind_eq_ok.mp hl
      obtain ⟨hmove, hne⟩ := KvCacheManager.acquire_reseats hacq hr
      cases hl
      refine ⟨partition, ?_⟩
      dsimp only [Pass.log]
      apply Moves.of_modify pass.sched kv r _ hmove rfl hne
      rw [hg]
      exact fun hno => by cases hno
    · have hcomp := getComputedBlocks_sameSeats pass.sched.kvCacheManager
        (pass.sched.object r).promptTokenIds
      split at hl
      · cases hl
        exact hsame ⟨hcomp, fun _ => rfl, List.Subset.refl _⟩
      · cases hl
        apply hsame
        dsimp only
        apply SameSeating.of_modify pass.sched _ hcomp
        exact fun _ => rfl

theorem Seated.releaseWaiting (h : Seated pass.sched) (hl : pass.releaseWaiting r = .ok pass') :
    Moves pass.sched r none pass'.sched := by
  unfold Pass.releaseWaiting at hl
  obtain ⟨s₁, hrel, hl⟩ := bind_eq_ok.mp hl
  cases hl
  unfold releaseWaitingPrefixBlocks at hrel
  obtain ⟨s₂, hfree, hrel⟩ := bind_eq_ok.mp hrel
  cases hrel
  refine (h.free hfree).same ?_
  dsimp only [Pass.log]
  apply SameSeating.of_modify s₂ s₂.kvCacheManager (.refl _)
  exact fun _ => rfl

theorem Seated.preempts {v : RequestId} (h : Seated pass.sched)
    (hp : Pass.Preempts pass r v pass') : Moves pass.sched v none pass'.sched := by
  obtain ⟨s₁, hfree, hsched⟩ := hp.sched
  have hm := h.free hfree
  rw [hsched]
  refine ⟨hm.kv, ?_, by simp, fun x hx => ?_, fun _ => rfl, hm.requests⟩
  · exact congrArg Request.cachePartition (modify_object_self s₁ v resetVictim)
  · exact (congrArg Request.seat (modify_object_ne s₁ resetVictim hx)).trans (hm.other x hx)

end PassSteps

theorem sameSeating_modify (s : Scheduler) (r : RequestId) {f : Request → Request}
    (hf : ∀ q, (f q).seat = q.seat) : SameSeating s (s.modify r f) :=
  .of_modify s s.kvCacheManager (.refl _) r hf

theorem retainScheduled_seating {res : Scheduler × ScheduledRequest}
    (h : s.retainScheduled sr = .ok res) :
    SameSeating s res.1 ∧ res.2.cachePartition = sr.cachePartition := by
  unfold retainScheduled at h
  split at h
  · cases h
    exact ⟨.refl _, rfl⟩
  · split at h
    · cases h
    · obtain ⟨kv, hkv, h⟩ := bind_eq_ok.mp h
      cases h
      exact ⟨⟨KvCacheManager.retain_sameSeats hkv, fun _ => rfl, List.Subset.refl _⟩, rfl⟩

/-- The optimistic advance moves nobody and keeps the partitions of the records. -/
theorem advanceAfterSchedule_seating (h : s.advanceAfterSchedule output = .ok (s', output')) :
    SameSeating s s' ∧ output'.scheduledRequests.map (·.cachePartition) =
      output.scheduledRequests.map (·.cachePartition) := by
  obtain ⟨-, rfl, rfl⟩ | ⟨-, records, hfold, rfl⟩ := advanceAfterSchedule_cases h
  · exact ⟨.refl _, rfl⟩
  · have hinv : ∀ (l : List ScheduledRequest) (t : Scheduler) (acc : List ScheduledRequest)
        (res : Scheduler × List ScheduledRequest),
        advanceRecords l (t, acc) = .ok res →
        SameSeating t res.1 ∧ res.2.map (·.cachePartition) =
          acc.map (·.cachePartition) ++ l.map (·.cachePartition) := by
      intro l
      induction l with
      | nil =>
        intro t acc res h
        cases h
        exact ⟨.refl t, by simp⟩
      | cons sr l ih =>
        intro t acc res h
        obtain ⟨t₁, sr', hret, h⟩ := advanceRecords_cons h
        obtain ⟨hsame, hpart⟩ := retainScheduled_seating hret
        dsimp only at hsame hpart
        obtain ⟨hrest, hmap⟩ := ih _ _ _ h
        have hadv : SameSeating t₁ (t₁.advanceRequest sr') := by
          dsimp only [advanceRequest]
          apply sameSeating_modify
          exact fun _ => rfl
        refine ⟨(hsame.trans hadv).trans hrest, ?_⟩
        rw [hmap]
        simp [hpart]
    have := hinv _ _ _ _ hfold
    simpa using this

theorem releaseScheduledGroupBlocks_seating (h : s.releaseScheduledGroupBlocks sr = .ok s') :
    SameSeating s s' := by
  unfold releaseScheduledGroupBlocks at h
  split at h
  · cases h
    exact .refl _
  · split at h
    · cases h
    · obtain ⟨kv, hkv, h⟩ := bind_eq_ok.mp h
      cases h
      exact ⟨KvCacheManager.releaseSnapshot_sameSeats hkv, fun _ => rfl, List.Subset.refl _⟩

theorem cacheGenericBlocks_seating (s : Scheduler) (r : RequestId) (n : Nat) :
    SameSeating s (s.cacheGenericBlocks r n) := by
  have hpairs : ∀ (l : List (BlockId × Int)) (m : KvCacheManager),
      SameSeats m (l.foldl (fun m e => m.cacheBlock e.1 e.2) m) := by
    intro l
    induction l with
    | nil => exact fun m => .refl m
    | cons e l ih =>
      intro m
      have hone : SameSeats m (m.cacheBlock e.1 e.2) := by
        unfold KvCacheManager.cacheBlock
        split
        · exact .refl m
        · exact ⟨fun _ => rfl, id, rfl⟩
      exact hone.trans (ih _)
  unfold cacheGenericBlocks
  dsimp only
  split
  · exact .refl s
  · apply SameSeating.of_modify
    · unfold KvCacheManager.cacheBlockIds
      split
      · exact .refl _
      · exact hpairs _ _
    · exact fun _ => rfl

theorem cacheCompletedBlocks_seating {n : Nat} (h : s.cacheCompletedBlocks r n = .ok s') :
    SameSeating s s' := by
  unfold cacheCompletedBlocks at h
  split at h
  · cases h
    exact .refl _
  · split at h
    · have hkv := KvCacheManager.cacheGroupBlocks_sameSeats s.kvCacheManager r
        (s.object r).groupBlockHashes n (s.object r).numGroupBlocksCached
      dsimp only at h
      split at h
      · next counts kv heq =>
        cases h
        rw [heq] at hkv
        apply SameSeating.of_modify s kv hkv
        exact fun _ => rfl
      · cases h
    · cases h
      exact cacheGenericBlocks_seating s r n

theorem publishScheduled_seating (h : s.publishScheduled sr = .ok s') : SameSeating s s' := by
  unfold publishScheduled at h
  dsimp only at h
  split at h
  · split at h
    · cases h
    · next partition _ =>
      have hkv := KvCacheManager.cacheFromSnapshot_sameSeats s.kvCacheManager
        (s.object sr.requestId).groupBlockHashes (sr.numComputedTokens + sr.numNewTokens)
        (s.object sr.requestId).numGroupBlocksCached sr.blockIdsByGroup partition
      split at h
      · next counts kv heq =>
        cases h
        rw [heq] at hkv
        apply SameSeating.of_modify s kv hkv
        exact fun _ => rfl
      · cases h
  · exact cacheCompletedBlocks_seating h

theorem applyOutput_seating {tokens : List Int} {res : Scheduler × List RequestOutput}
    (h : s.applyOutput sr tokens = .ok res) : SameSeating s res.1 := by
  have append : ∀ t : Scheduler, SameSeating t (t.applyTokens sr.requestId tokens).1 := by
    intro t
    dsimp only [applyTokens]
    apply sameSeating_modify
    intro q
    rw [appendTokens_fst]
    rfl
  unfold Scheduler.applyOutput at h
  split at h
  · unfold reconcileAsyncOutput at h
    obtain ⟨s₁, hpub, h⟩ := bind_eq_ok.mp h
    obtain ⟨s₂, hrel, h⟩ := bind_eq_ok.mp h
    cases h
    refine (((publishScheduled_seating hpub).trans
      (releaseScheduledGroupBlocks_seating hrel)).trans (append s₂)).trans ?_
    dsimp only
    apply sameSeating_modify
    intro q
    unfold settle
    split <;> rfl
  · unfold applySyncOutput at h
    dsimp only at h
    split at h
    · obtain ⟨s₁, hpub, h⟩ := bind_eq_ok.mp h
      have h₀ : SameSeating s (s.modify sr.requestId fun request =>
          { request with numComputedTokens := request.numComputedTokens + sr.numNewTokens }) :=
        sameSeating_modify s sr.requestId fun _ => rfl
      have h₁ := h₀.trans (cacheCompletedBlocks_seating hpub)
      split at h
      · cases h
        exact h₁
      · cases h
        exact h₁.trans (append s₁)
    · obtain ⟨s₁, hpub, h⟩ := bind_eq_ok.mp h
      cases h
      have h₀ : SameSeating (s.applyTokens sr.requestId tokens).1
          ((s.applyTokens sr.requestId tokens).1.modify sr.requestId fun request =>
            { request with numComputedTokens := request.numComputedTokens +
              (s.applyTokens sr.requestId tokens).2.2 }) :=
        sameSeating_modify _ sr.requestId fun _ => rfl
      exact ((append s).trans h₀).trans (cacheCompletedBlocks_seating hpub)

theorem applyScheduled_seating {tokens : StepTokens} {outs : List RequestOutput}
    {res : Scheduler × List RequestOutput} (h : applyScheduled tokens (s, outs) sr = .ok res) :
    SameSeating s res.1 := by
  unfold Scheduler.applyScheduled at h
  dsimp only at h
  split at h
  · obtain ⟨s₁, hrel, h⟩ := bind_eq_ok.mp h
    cases h
    exact releaseScheduledGroupBlocks_seating hrel
  · obtain ⟨⟨s₁, new⟩, happ, h⟩ := bind_eq_ok.mp h
    cases h
    have hclear : SameSeating s (s.clearTerminalPrefill sr) := by
      unfold clearTerminalPrefill
      dsimp only
      split
      · apply sameSeating_modify
        exact fun _ => rfl
      · exact .refl s
    have hdone := hclear.trans (applyOutput_seating happ)
    exact hdone

/-- Marking finished requests moves nobody. -/
theorem finishRunning_seating (l : List RequestId)
    (acc : Scheduler × List RequestOutput × List RequestId) :
    SameSeating acc.1 (l.foldl finishRunning acc).1 := by
  induction l generalizing acc with
  | nil => exact .refl _
  | cons r l ih =>
    refine SameSeating.trans ?_ (ih (finishRunning acc r))
    unfold finishRunning
    dsimp only
    split
    · exact .refl _
    · split
      · exact .refl _
      · dsimp only
        apply sameSeating_modify
        exact fun _ => rfl

end PyptoServing.Sched
