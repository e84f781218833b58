import PyptoServing.Lib.Ring
import PyptoServing.Lib.Search
import PyptoServing.Memory.PrefixHit

/-!
# The grouped prefix lookup is optimal

A group can resume at a boundary of its pages when every page it then reads is in the
index: all pages from the start for a full-history group, the tail window for a rolling
group. The search over partitions, boundaries and groups finds the longest boundary at
which every group can resume, in the lowest partition that has it.
-/
namespace PyptoServing.Memory

open Lib Config Lib.Fallible Lib.Search

namespace GroupBlockPool
variable {pool : GroupBlockPool} {p n : Nat} {hashes : List Int}

/-- The first page of the tail window at `n` tokens. -/
def tailStart (pool : GroupBlockPool) (window n : Nat) : Nat :=
  n / pool.capacity - min (n / pool.capacity) (window / pool.capacity)

/-- Every page the group reads to resume at `n` tokens is in the partition's index, and
a full-history table can address it. -/
def Resumes (pool : GroupBlockPool) (p : Nat) (hashes : List Int) (n : Nat) : Prop :=
  match pool.spec.slidingWindow with
  | none => n / pool.capacity ≤ pool.ringSize ∧
      ∀ i < n / pool.capacity, (pool.cachedPage p hashes i).isSome
  | some window => ∀ i, pool.tailStart window n ≤ i → i < n / pool.capacity →
      (pool.cachedPage p hashes i).isSome

/-- The table that resumes at `n` tokens: all pages in order for a full-history group,
the pages of the tail window at their ring slots and nothing else for a rolling group. -/
def HoldsPrefix (pool : GroupBlockPool) (p : Nat) (hashes : List Int) (n : Nat)
    (owned : List (Option BlockId)) : Prop :=
  match pool.spec.slidingWindow with
  | none => owned = (List.range (n / pool.capacity)).map (pool.cachedPage p hashes)
  | some window => owned.length = min (n / pool.capacity) pool.ringSize ∧
      (∀ i, pool.tailStart window n ≤ i → i < n / pool.capacity →
        owned[i % owned.length]? = some (pool.cachedPage p hashes i)) ∧
      ∀ s b, owned[s]? = some (some b) → ∃ i, pool.tailStart window n ≤ i ∧
        i < n / pool.capacity ∧ s = i % owned.length ∧ pool.cachedPage p hashes i = some b

theorem capacity_pos (pool : GroupBlockPool) : 0 < pool.capacity :=
  pool.spec.spec.tokenCapacity_pos

theorem cachedPage_lt {i : Nat} (h : (pool.cachedPage p hashes i).isSome) : i < hashes.length := by
  obtain ⟨b, hb⟩ := Option.isSome_iff_exists.mp h
  obtain ⟨x, hx, -⟩ := Option.bind_eq_some_iff.mp hb
  exact (List.getElem?_eq_some_iff.mp hx).1

theorem window_blocks_pos {window : Nat} (hwin : pool.spec.slidingWindow = some window) :
    0 < window / pool.capacity := by
  have hpos := pool.spec.window_pos window hwin
  have hdvd := Nat.dvd_of_mod_eq_zero (pool.spec.window_dvd window hwin)
  exact Nat.div_pos (Nat.le_of_dvd hpos hdvd) pool.capacity_pos

theorem window_blocks_le {window : Nat} (hwin : pool.spec.slidingWindow = some window) :
    window / pool.capacity ≤ pool.ringSize :=
  pool.spec.window_fits window hwin

/-- `takeWhile` takes every initial segment whose elements pass. -/
theorem le_length_takeWhile {α : Type} {q : α → Bool} {l : List α} {k : Nat} (hk : k ≤ l.length)
    (h : ∀ i < k, ∀ x, l[i]? = some x → q x) : k ≤ (l.takeWhile q).length := by
  induction l generalizing k with
  | nil => simpa using hk
  | cons a l ih =>
    cases k with
    | zero => exact Nat.zero_le _
    | succ k =>
      rw [List.takeWhile_cons_of_pos (h 0 (Nat.succ_pos k) a rfl), List.length_cons]
      have := ih (k := k) (by simpa using hk)
        fun i hi x hx => h (i + 1) (by omega) x (by simpa using hx)
      omega

/-- A loop that stops at a missing page completes when no page is missing. -/
theorem foldlM_map_isSome {α β : Type} {f : Nat → Option α} {g : β → Nat → α → β} (l : List Nat)
    (b : β) : (l.foldlM (fun b i => (f i).map (g b i)) b).isSome ↔ ∀ i ∈ l, (f i).isSome := by
  induction l generalizing b with
  | nil => simp
  | cons i l ih =>
    rw [List.foldlM_cons, List.forall_mem_cons]
    cases hi : f i with
    | none => simp
    | some a => simpa using ih (g b i a)

/-- The last page before a resumable boundary is always needed. -/
theorem Resumes.last (h : pool.Resumes p hashes n) (hn : 0 < n / pool.capacity) :
    (pool.cachedPage p hashes (n / pool.capacity - 1)).isSome := by
  unfold Resumes at h
  split at h
  · exact h.2 _ (by omega)
  · next window hwin =>
    have := window_blocks_pos hwin
    exact h _ (by rw [tailStart]; omega) (by omega)

/-- A resumable boundary lies within the hash list. -/
theorem Resumes.length_le (h : pool.Resumes p hashes n) : n / pool.capacity ≤ hashes.length := by
  by_contra hlt
  have := cachedPage_lt (h.last (by omega))
  omega

/-- The selection succeeds at exactly the resumable boundaries. -/
theorem selectPrefix_isSome (pool : GroupBlockPool) (p : Nat) (hashes : List Int) (n : Nat) :
    (pool.selectPrefix p hashes n).isSome ↔ pool.Resumes p hashes n := by
  by_cases hlen : hashes.length < n / pool.capacity
  · have hnot : ¬ pool.Resumes p hashes n := fun h => absurd h.length_le (by omega)
    simp [selectPrefix, hlen, hnot]
  · unfold selectPrefix Resumes
    rw [if_neg hlen]
    cases hwin : pool.spec.slidingWindow with
    | none =>
      dsimp only
      by_cases hsize : pool.ringSize < n / pool.capacity
      · rw [if_pos hsize]
        simp [hsize]
      · rw [if_neg hsize, foldlM_map_isSome]
        simp [not_lt.mp hsize]
    | some window =>
      dsimp only
      rw [foldlM_map_isSome]
      refine ⟨fun h i h1 h2 => h i (List.mem_range'_1.mpr ?_), fun h i hi => ?_⟩
      · rw [tailStart] at h1
        omega
      · have := List.mem_range'_1.mp hi
        exact h i (by rw [tailStart]; omega) (by omega)

/-- The full-history loop appends the pages in order. -/
theorem appendPages (m : Nat) {owned : List (Option BlockId)}
    (h : (List.range m).foldlM (fun selected i =>
      (pool.cachedPage p hashes i).map fun b => selected ++ [some b]) [] = some owned) :
    owned = (List.range m).map (pool.cachedPage p hashes) := by
  induction m generalizing owned with
  | zero =>
    cases h
    rfl
  | succ m ih =>
    rw [List.range_succ, List.foldlM_append] at h
    obtain ⟨before, hbefore, h⟩ := Option.bind_eq_some_iff.mp h
    rw [List.foldlM_cons] at h
    obtain ⟨after, hafter, h⟩ := Option.bind_eq_some_iff.mp h
    cases h
    obtain ⟨b, hb, rfl⟩ := Option.map_eq_some_iff.mp hafter
    rw [ih hbefore, List.range_succ, List.map_append, List.map_singleton, hb]

/-- The rolling loop puts each page at its ring slot. The pages are no more than the
slots, so no page overwrites another. -/
theorem placePages {start size : Nat} (t : Nat) (ht : t ≤ size) {owned : List (Option BlockId)}
    (h : (List.range' start t).foldlM (fun selected i =>
      (pool.cachedPage p hashes i).map fun b => selected.set (i % selected.length) (some b))
      (List.replicate size none) = some owned) :
    owned.length = size ∧
      (∀ i, start ≤ i → i < start + t →
        owned[i % size]? = some (pool.cachedPage p hashes i)) ∧
      ∀ s b, owned[s]? = some (some b) → ∃ i, start ≤ i ∧ i < start + t ∧ s = i % size ∧
        pool.cachedPage p hashes i = some b := by
  induction t generalizing owned with
  | zero =>
    cases h
    refine ⟨List.length_replicate, fun i h1 h2 => absurd h2 (by omega), fun s b hs => ?_⟩
    rw [List.getElem?_replicate] at hs
    split at hs <;> cases hs
  | succ t ih =>
    rw [List.range'_concat, List.foldlM_append] at h
    obtain ⟨before, hbefore, h⟩ := Option.bind_eq_some_iff.mp h
    obtain ⟨hlen, hplaced, honly⟩ := ih (by omega) hbefore
    rw [List.foldlM_cons] at h
    obtain ⟨after, hafter, h⟩ := Option.bind_eq_some_iff.mp h
    cases h
    obtain ⟨b, hb, rfl⟩ := Option.map_eq_some_iff.mp hafter
    rw [one_mul, hlen]
    rw [one_mul] at hb
    have hslot : (start + t) % size < before.length := by
      rw [hlen]
      exact Nat.mod_lt _ (by omega)
    refine ⟨by rw [List.length_set, hlen], fun i h1 h2 => ?_, fun s c hs => ?_⟩
    · by_cases hi : i = start + t
      · subst hi
        rw [List.getElem?_set_self hslot, hb]
      · have hne : (start + t) % size ≠ i % size := fun he => hi
          (Lib.Ring.eq_of_mod_eq (n := start + t + 1) (by omega) h2 (by omega) (by omega) he.symm)
        rw [List.getElem?_set_ne hne]
        exact hplaced i h1 (by omega)
    · by_cases hsi : s = (start + t) % size
      · subst hsi
        rw [List.getElem?_set_self hslot] at hs
        cases hs
        exact ⟨start + t, by omega, by omega, rfl, hb⟩
      · rw [List.getElem?_set_ne (Ne.symm hsi)] at hs
        obtain ⟨i, h1, h2, h3, h4⟩ := honly s c hs
        exact ⟨i, h1, by omega, h3, h4⟩

/-- The selected table holds the prefix. -/
theorem selectPrefix_holds {owned : List (Option BlockId)}
    (h : pool.selectPrefix p hashes n = some owned) : pool.HoldsPrefix p hashes n owned := by
  unfold selectPrefix at h
  unfold HoldsPrefix
  by_cases hshort : hashes.length < n / pool.capacity
  · rw [if_pos hshort] at h
    cases h
  · rw [if_neg hshort] at h
    cases hwin : pool.spec.slidingWindow with
    | none =>
      simp only [hwin] at h
      split at h
      · cases h
      · exact appendPages _ h
    | some window =>
      simp only [hwin] at h
      have hfits := window_blocks_le hwin
      have hend : pool.tailStart window n + min (n / pool.capacity) (window / pool.capacity) =
          n / pool.capacity := by
        rw [tailStart]
        omega
      obtain ⟨hlen, hplaced, honly⟩ := placePages _ (by omega) h
      rw [← tailStart, hend] at hplaced honly
      dsimp only
      rw [hlen]
      exact ⟨rfl, hplaced, honly⟩

/-- No resumable boundary below the candidate is cut off by the full-history bound. -/
theorem Resumes.le_fullHistoryHit {candidate : Nat} (h : pool.Resumes p hashes n)
    (hn : pool.capacity ∣ n) (hle : n ≤ candidate) :
    n ≤ pool.fullHistoryHit p hashes candidate := by
  unfold fullHistoryHit
  by_cases hroll : pool.rolling
  · rw [if_pos hroll]
    exact hle
  · rw [if_neg hroll]
    have hlen := h.length_le
    have hwin : pool.spec.slidingWindow = none := by simpa [rolling] using hroll
    simp only [Resumes, hwin] at h
    obtain ⟨hsize, hpages⟩ := h
    have hdiv : n / pool.capacity ≤ candidate / pool.capacity := Nat.div_le_div_right hle
    refine le_min hle ?_
    have hstart : n / pool.capacity ≤
        ((hashes.take (min (min (candidate / pool.capacity) pool.ringSize) hashes.length)).takeWhile
          fun x => (pool.hashToBlock (p, x)).isSome).length := by
      refine le_length_takeWhile (by simp; omega) fun i hi x hx => ?_
      rw [List.getElem?_take_of_lt (by omega)] at hx
      simpa [cachedPage, hx] using hpages i hi
    calc n = n / pool.capacity * pool.capacity := (Nat.div_mul_cancel hn).symm
      _ ≤ _ := Nat.mul_le_mul_right _ hstart

/-- No page is in the index. -/
def Unindexed (pool : GroupBlockPool) : Prop := ∀ key, pool.hashToBlock key = none

theorem Unindexed.cachedPage (h : pool.Unindexed) (p : Nat) (hashes : List Int) (i : Nat) :
    pool.cachedPage p hashes i = none := by
  rw [GroupBlockPool.cachedPage, Option.bind_eq_none_iff]
  exact fun x _ => h (p, x)

theorem Unindexed.invalidate (h : pool.Unindexed) (b : BlockId) :
    (pool.invalidateGroupBlock p b).Unindexed := by
  have hdrop : (pool.dropHash p b).Unindexed := by
    unfold dropHash
    split
    · exact h
    · split
      · intro key
        simp only [setHash, Function.update_apply]
        split
        · rfl
        · exact h key
      · exact h
  unfold invalidateGroupBlock
  split
  · exact h
  · exact hdrop

theorem Unindexed.take {pool' : GroupBlockPool} {b : BlockId} (h : pool.Unindexed)
    (hok : pool.takeGroupBlock p = .ok (b, pool')) : pool'.Unindexed := by
  unfold takeGroupBlock at hok
  split at hok
  · cases hok
  · dsimp only at hok
    split at hok
    · cases hok
    · cases hok
      have hremoved : (pool.removeFree p b).Unindexed := h
      exact hremoved.invalidate b

theorem Unindexed.fillSlot {pool' : GroupBlockPool} {r : RequestId} {slot : Nat}
    (h : pool.Unindexed) (hok : fillSlot r p pool slot = .ok pool') : pool'.Unindexed := by
  unfold GroupBlockPool.fillSlot at hok
  split at hok
  · cases hok
  · cases hok
    exact h
  · obtain ⟨⟨b, taken⟩, htake, hok⟩ := bind_eq_ok.mp hok
    have htaken := h.take htake
    cases hok
    exact htaken

theorem Unindexed.rotateSlot {pool' : GroupBlockPool} {r : RequestId} {i : Nat}
    (h : pool.Unindexed) (hok : rotateSlot r p pool i = .ok pool') : pool'.Unindexed := by
  have htaken : ∀ mid : GroupBlockPool, mid.Unindexed →
      (mid.takeGroupBlock p >>= fun x =>
        (.ok (x.2.setSlot r (i % pool.ringSize) x.1) : Except KvError _)) = .ok pool' →
      pool'.Unindexed := by
    intro mid hmid hok
    obtain ⟨⟨b, taken⟩, htake, hok⟩ := bind_eq_ok.mp hok
    have htaken := hmid.take htake
    cases hok
    exact htaken
  unfold GroupBlockPool.rotateSlot at hok
  split at hok
  · cases hok
    exact h
  · dsimp only at hok
    split at hok
    · cases hok
    · cases hok
    · split at hok
      · refine htaken _ ?_ hok
        exact h
      · refine htaken _ ?_ hok
        exact h

theorem Unindexed.ensureTable {pool' : GroupBlockPool} {r : RequestId} {t : Nat}
    (h : pool.Unindexed) (hok : pool.ensureTable r p t = .ok pool') : pool'.Unindexed := by
  unfold GroupBlockPool.ensureTable at hok
  obtain ⟨filled, hfill, hok⟩ := bind_eq_ok.mp hok
  have hfilled := foldlM_keeps (I := Unindexed) (fun _ _ _ hone hq => hq.fillSlot hone)
    _ _ _ hfill h
  dsimp only at hok
  split at hok
  · obtain ⟨rotated, hrotate, hok⟩ := bind_eq_ok.mp hok
    have hrotated := foldlM_keeps (I := Unindexed) (fun _ _ _ hone hq => hq.rotateSlot hone)
      _ _ _ hrotate hfilled
    cases hok
    exact hrotated
  · cases hok
    exact hfilled

theorem Unindexed.dropReference (h : pool.Unindexed) (b : BlockId) :
    (pool.dropReference p b).Unindexed := by
  unfold GroupBlockPool.dropReference
  dsimp only
  split
  · exact h
  · exact h

theorem Unindexed.releaseRequest {pool' : GroupBlockPool} {r : RequestId} (h : pool.Unindexed)
    (hok : pool.releaseRequest r = .ok pool') : pool'.Unindexed := by
  unfold GroupBlockPool.releaseRequest at hok
  dsimp only at hok
  split at hok
  · split at hok <;> cases hok
    exact h
  · refine foldlM_keeps (I := Unindexed) (fun b q q' hone hq => ?_) _ _ _ hok h
    split at hone <;> cases hone
    exact hq.dropReference b

theorem Unindexed.pinBlocks (h : pool.Unindexed) (bs : List BlockId) :
    (pool.pinBlocks bs).Unindexed := by
  induction bs generalizing pool with
  | nil => exact h
  | cons b bs ih =>
    apply ih
    exact h

theorem Unindexed.unpin {pool' : GroupBlockPool} {ids : List Nat} (h : pool.Unindexed)
    (hok : pool.unpin p ids = .ok pool') : pool'.Unindexed := by
  refine foldlM_keeps (I := Unindexed) (fun id q q' hone hq => ?_) _ _ _ hok h
  obtain ⟨b, -, hone⟩ := bind_eq_ok.mp hone
  split at hone <;> cases hone
  exact hq.dropReference b

theorem attachPrefix_table (pool : GroupBlockPool) (r : RequestId) (p : Nat)
    (owned : List (Option BlockId)) (hit : Nat) :
    (pool.attachPrefix r p owned hit).table r = owned := by
  have hfold : ∀ (l : List BlockId) (q : GroupBlockPool),
      (l.foldl (reference · p) q).requestBlocks = q.requestBlocks := by
    intro l
    induction l with
    | nil => exact fun _ => rfl
    | cons b l ih =>
      intro q
      exact (ih _).trans (sameTables_reference q p b).requestBlocks
  rw [table, attachPrefix, hfold]
  dsimp only
  rw [AList.lookup_insert]
  rfl

end GroupBlockPool

namespace KvCacheManager
variable {m m' : KvCacheManager} {p n : Nat} {hashes : GroupHashes}

/-- `acquire_group_prefix_blocks` with Python's integer limit: `max(0, int(limit))`. -/
def acquirePrefix (m : KvCacheManager) (requestId : RequestId) (blockHashes : GroupHashes)
    (maxCacheHitTokens : Int) :
    Except KvError ((GroupTables × Nat × Option Nat) × KvCacheManager) :=
  m.acquireGroupPrefixBlocks requestId blockHashes maxCacheHitTokens.toNat

/-- A boundary within the limit at which every group can resume in partition `p`. -/
structure Resumable (m : KvCacheManager) (hashes : GroupHashes) (limit : Int) (p n : Nat) :
    Prop where
  grouped : m.groupPools ≠ []
  partition : p < m.groupPartitionCount
  pos : 0 < n
  within : (n : Int) ≤ limit
  aligned : ∀ pool ∈ m.groupPools, pool.capacity ∣ n
  resumes : ∀ pool ∈ m.groupPools, pool.Resumes p (groupEntry hashes pool) n

/-- What a lookup must return: the longest resumable boundary of any partition, the
lowest partition that has it, and the tables that resume there; or nothing at all. -/
structure OptimalHit (m : KvCacheManager) (r : RequestId) (hashes : GroupHashes) (limit : Int)
    (res : GroupTables × Nat × Option Nat) (m' : KvCacheManager) : Prop where
  maximal : ∀ p n, m.Resumable hashes limit p n → n ≤ res.2.1
  hit : 0 < res.2.1 → ∃ p, res.2.2 = some p ∧ m.Resumable hashes limit p res.2.1 ∧
    (∀ q < p, ¬ m.Resumable hashes limit q res.2.1) ∧ m'.groupRequestPartition r = some p ∧
    List.Forall₂ (fun pool pool' : GroupBlockPool =>
      pool.HoldsPrefix p (groupEntry hashes pool) res.2.1 (pool'.table r))
      m.groupPools m'.groupPools
  miss : res.2.1 = 0 → res = (∅, 0, none) ∧ m' = m

/-- The alignment divides every boundary that all pages share. -/
theorem alignment_dvd (h : ∀ pool ∈ m.groupPools, pool.capacity ∣ n) :
    m.groupPrefixCacheAlignment ∣ n := by
  have hfold : ∀ (l : List GroupBlockPool) (k : Nat), k ∣ n →
      (∀ pool ∈ l, pool.capacity ∣ n) →
      l.foldl (fun alignment pool => Nat.lcm alignment pool.capacity) k ∣ n := by
    intro l
    induction l with
    | nil => exact fun k hk _ => hk
    | cons q l ih =>
      intro k hk hl
      rw [List.forall_mem_cons] at hl
      exact ih _ (Nat.lcm_dvd hk hl.1) hl.2
  exact hfold _ 1 (one_dvd n) h

theorem mapM_isSome {α β : Type} {f : α → Option β} (l : List α) :
    (l.mapM f).isSome ↔ ∀ a ∈ l, (f a).isSome := by
  induction l with
  | nil => simp
  | cons a l ih =>
    rw [List.mapM_cons, List.forall_mem_cons, ← ih]
    cases f a with
    | none => simp
    | some b => cases l.mapM f <;> simp

/-- The backward search stops at the first boundary that works. -/
theorem le_searchCandidate {alignment j k : Nat} (hj : j ≤ k)
    (h : ∀ pool ∈ m.groupPools, pool.Resumes p (groupEntry hashes pool) (j * alignment)) :
    j * alignment ≤ (m.searchCandidate p hashes alignment k).1 := by
  induction k with
  | zero => simp [Nat.le_zero.mp hj]
  | succ k ih =>
    rw [searchCandidate]
    split
    · exact Nat.mul_le_mul_right _ hj
    · next hnone =>
      have hne : j ≠ k + 1 := by
        rintro rfl
        have hsome := (mapM_isSome _).mpr fun pool hpool =>
          (GroupBlockPool.selectPrefix_isSome pool p _ _).mpr (h pool hpool)
        rw [hnone] at hsome
        cases hsome
      exact ih (by omega)

/-- No partition hides a longer boundary. -/
theorem le_partitionHit {limit : Nat} (hpos : 0 < n) (hle : n ≤ limit)
    (haligned : ∀ pool ∈ m.groupPools, pool.capacity ∣ n)
    (h : ∀ pool ∈ m.groupPools, pool.Resumes p (groupEntry hashes pool) n) :
    n ≤ (m.partitionHit hashes limit p).1 := by
  have hfold : ∀ (l : List GroupBlockPool) (c : Nat), (∀ pool ∈ l, pool ∈ m.groupPools) → n ≤ c →
      n ≤ l.foldl (fun candidate pool =>
        pool.fullHistoryHit p (groupEntry hashes pool) candidate) c := by
    intro l
    induction l with
    | nil => exact fun c _ hc => hc
    | cons pool l ih =>
      intro c hl hc
      rw [List.forall_mem_cons] at hl
      exact ih _ hl.2 ((h pool hl.1).le_fullHistoryHit (haligned pool hl.1) hc)
  obtain ⟨j, hj⟩ := alignment_dvd haligned
  have hbound := hfold m.groupPools limit (fun _ hpool => hpool) hle
  have halign : 0 < m.groupPrefixCacheAlignment := by
    apply Nat.pos_of_ne_zero
    intro h0
    rw [h0, Nat.zero_mul] at hj
    omega
  rw [mul_comm] at hj
  subst hj
  exact le_searchCandidate ((Nat.le_div_iff_mul_le halign).mpr hbound) h

/-- A positive hit of a partition selects a table for every group. -/
theorem partitionHit_selects {limit : Nat} (h : 0 < (m.partitionHit hashes limit p).1) :
    (m.groupPools.mapM fun pool => pool.selectPrefix p (groupEntry hashes pool)
      (m.partitionHit hashes limit p).1) = some (m.partitionHit hashes limit p).2 :=
  searchCandidate_spec h

/-- The partitions are scanned for the first best hit. -/
theorem bestHit_chosen (m : KvCacheManager) (hashes : GroupHashes) (limit : Nat) :
    Chosen Prod.fst (m.partitionHit hashes limit) (List.range m.groupPartitionCount)
      (m.bestHit hashes limit) :=
  chosen_foldl Prod.fst (m.partitionHit hashes limit) _

/-- The search starts at no less than any aligned length within the limit. -/
theorem le_maxCandidate {a limit : Nat} (ha : a ∣ n) (hle : n ≤ limit) :
    n ≤ limit - limit % a := by
  obtain ⟨j, rfl⟩ := ha
  rcases Nat.eq_zero_or_pos a with rfl | hpos
  · simp
  · have hj : j ≤ limit / a := (Nat.le_div_iff_mul_le hpos).mpr (by rwa [mul_comm])
    have hmod := Nat.div_add_mod limit a
    have := Nat.mul_le_mul_left a hj
    omega

/-- A resumable boundary shows some page in the index. -/
theorem Resumable.indexed {limit : Int} (h : m.Resumable hashes limit p n) :
    ∃ pool ∈ m.groupPools, ¬ pool.Unindexed := by
  obtain ⟨pool, hpool⟩ := List.exists_mem_of_ne_nil _ h.grouped
  refine ⟨pool, hpool, fun hempty => ?_⟩
  have hlast := (h.resumes pool hpool).last
    (Nat.div_pos (Nat.le_of_dvd h.pos (h.aligned pool hpool)) pool.capacity_pos)
  rw [hempty.cachedPage] at hlast
  cases hlast

theorem Resumable.le_partitionHit {limit : Int} (h : m.Resumable hashes limit p n) :
    n ≤ (m.partitionHit hashes
      (limit.toNat - limit.toNat % m.groupPrefixCacheAlignment) p).1 := by
  have hlimit := h.within
  exact KvCacheManager.le_partitionHit h.pos
    (le_maxCandidate (alignment_dvd h.aligned) (by omega)) h.aligned h.resumes

/-- A positive hit of a partition is a resumable boundary. -/
theorem resumable_partitionHit {limit : Int} {k : Nat} (hgroups : m.groupPools ≠ [])
    (hp : p < m.groupPartitionCount) (hk : k ≤ limit.toNat)
    (hpos : 0 < (m.partitionHit hashes k p).1) :
    m.Resumable hashes limit p (m.partitionHit hashes k p).1 := by
  have hle := partitionHit_le m hashes k p
  refine ⟨hgroups, hp, hpos, by omega,
    fun pool hpool => (capacity_dvd_alignment hpool).trans (searchCandidate_aligned _ _ _),
    fun pool hpool => ?_⟩
  apply (GroupBlockPool.selectPrefix_isSome pool p _ _).mp
  refine (mapM_isSome (f := fun pool : GroupBlockPool => pool.selectPrefix p
    (groupEntry hashes pool) (m.partitionHit hashes k p).1) m.groupPools).mp ?_ pool hpool
  rw [partitionHit_selects hpos]
  rfl

/-- Nothing is attached when there is no resumable boundary. -/
theorem OptimalHit.of_none {r : RequestId} {limit : Int}
    (h : ∀ p n, ¬ m.Resumable hashes limit p n) : OptimalHit m r hashes limit (∅, 0, none) m where
  maximal p n hn := absurd hn (h p n)
  hit hpos := absurd hpos (lt_irrefl 0)
  miss _ := ⟨rfl, rfl⟩

/-- The lookup of a new request returns the longest resumable boundary. -/
theorem acquirePrefix_optimal {r : RequestId} {limit : Int}
    (hoff : m.enablePrefixCache = false → ∀ pool ∈ m.groupPools, pool.Unindexed)
    (hnew : m.groupRequestPartition r = none) (hnames : m.namesMatch hashes) :
    ∃ res m', m.acquirePrefix r hashes limit = .ok (res, m') ∧
      OptimalHit m r hashes limit res m' := by
  unfold acquirePrefix acquireGroupPrefixBlocks
  by_cases hskip : ¬ m.enablePrefixCache ∨ m.groupPools = []
  · rw [if_pos hskip]
    refine ⟨_, m, rfl, .of_none fun p n h => ?_⟩
    rcases hskip with hskip | hskip
    · obtain ⟨pool, hpool, hindexed⟩ := h.indexed
      exact hindexed (hoff (by simpa using hskip) pool hpool)
    · exact h.grouped hskip
  · rw [if_neg hskip, if_neg (by simp [hnew]), if_neg (by simp [hnames])]
    dsimp only
    by_cases hzero : limit.toNat - limit.toNat % m.groupPrefixCacheAlignment = 0
    · rw [if_pos hzero]
      refine ⟨_, m, rfl, .of_none fun p n h => ?_⟩
      have hle := h.le_partitionHit.trans (partitionHit_le m hashes _ p)
      have hpos := h.pos
      omega
    · rw [if_neg hzero]
      have hbest := bestHit_chosen m hashes
        (limit.toNat - limit.toNat % m.groupPrefixCacheAlignment)
      cases hfound : m.bestHit hashes
          (limit.toNat - limit.toNat % m.groupPrefixCacheAlignment) with
      | none =>
        rw [hfound] at hbest
        refine ⟨_, m, rfl, .of_none fun p n h => ?_⟩
        have hle := h.le_partitionHit
        rw [hbest p (List.mem_range.mpr h.partition)] at hle
        exact absurd h.pos (by omega)
      | some found =>
        obtain ⟨p, found⟩ := found
        rw [hfound] at hbest
        obtain ⟨hval, hmax⟩ := hbest
        subst hval
        refine ⟨_, _, rfl, fun q n h => ?_, fun hpos => ⟨p, rfl, ?_, fun q hq h => ?_, ?_, ?_⟩,
          fun h0 => absurd hmax.pos (by rw [Function.comp_apply]; exact h0.not_gt)⟩
        · exact h.le_partitionHit.trans (hmax.le (List.mem_range.mpr h.partition))
        · exact resumable_partitionHit (fun hnil => hskip (.inr hnil))
            (List.mem_range.mp hmax.mem) (Nat.sub_le _ _) hpos
        · have hlt := hmax.lt List.pairwise_lt_range
            (List.mem_range.mpr h.partition) hq
          exact absurd h.le_partitionHit (not_le.mpr hlt)
        · exact AList.lookup_insert _
        · have hsel := mapM_eq_some.mp (partitionHit_selects hpos)
          refine forall₂_zip_map hsel fun pool _ owned hown => ?_
          rw [GroupBlockPool.attachPrefix_table]
          exact GroupBlockPool.selectPrefix_holds hown

/-- A cache without prefix caching has nothing in its index. -/
def OffUnindexed (m : KvCacheManager) : Prop :=
  m.enablePrefixCache = false → ∀ pool ∈ m.groupPools, pool.Unindexed

/-- Pools that were each rewritten without publishing anything. -/
theorem OffUnindexed.map (h : m.OffUnindexed) (hon : m'.enablePrefixCache = m.enablePrefixCache)
    {f : GroupBlockPool → Except KvError GroupBlockPool}
    (hf : ∀ pool pool', pool.Unindexed → f pool = .ok pool' → pool'.Unindexed)
    (hok : m.groupPools.mapM f = .ok m'.groupPools) : m'.OffUnindexed := by
  intro hoff pool' hpool'
  obtain ⟨pool, hpool, hone⟩ := forall₂_mem_right (mapM_eq_ok.mp hok) hpool'
  exact hf pool pool' (h (hon.symm.trans hoff) pool hpool) hone

theorem OffUnindexed.ensure (h : m.OffUnindexed) (r : RequestId) (t : Nat) (part : Option Nat) :
    (m.ensureGroupBlocks r t part).2.OffUnindexed := by
  unfold ensureGroupBlocks
  split
  · exact h
  · split
    · exact h
    · split
      · exact h
      · split
        · exact h
        · exact h
        · next selected next _ =>
          split
          · unfold growGroups
            split
            · exact h
            · next pools hpools =>
              exact h.map rfl (fun _ _ hempty hone => hempty.ensureTable hone) hpools
          · exact h

theorem OffUnindexed.retain (h : m.OffUnindexed) {d : GroupTables}
    (hok : m.retainGroupBlockSnapshot d p = .ok m') : m'.OffUnindexed := by
  unfold retainGroupBlockSnapshot at hok
  split at hok
  · cases hok
    exact h
  · split at hok
    · cases hok
    · obtain ⟨resolved, hres, hok⟩ := bind_eq_ok.mp hok
      cases hok
      intro hoff pool' hpool'
      obtain ⟨e, he, rfl⟩ := List.mem_map.mp hpool'
      exact (h hoff e.1 (List.of_mem_zip he).1).pinBlocks e.2

/-- An operation that does nothing when prefix caching is off. -/
theorem OffUnindexed.of_skip (h : m.OffUnindexed) (hoff : m.enablePrefixCache = false → m' = m)
    (hon : m'.enablePrefixCache = m.enablePrefixCache) : m'.OffUnindexed := by
  intro hoff'
  rw [hoff (hon.symm.trans hoff')]
  exact h (hon.symm.trans hoff')

theorem OffUnindexed.acquire (h : m.OffUnindexed) {r : RequestId} {limit : Nat}
    {res : GroupTables × Nat × Option Nat}
    (hok : m.acquireGroupPrefixBlocks r hashes limit = .ok (res, m')) : m'.OffUnindexed := by
  unfold acquireGroupPrefixBlocks at hok
  split at hok
  · cases hok
    exact h
  · next hon =>
    have hne : m.enablePrefixCache ≠ false := fun hoff => hon (.inl (by simp [hoff]))
    split at hok
    · cases hok
    · split at hok
      · cases hok
      · dsimp only at hok
        split at hok
        · cases hok
          exact h
        · split at hok
          · cases hok
            exact h
          · cases hok
            exact fun hoff => absurd hoff hne

theorem OffUnindexed.cacheGroupBlocks (h : m.OffUnindexed) (r : RequestId)
    (hashes : GroupHashes) (n : Nat) (already : Dict String Nat) :
    (m.cacheGroupBlocks r hashes n already).2.OffUnindexed := by
  refine h.of_skip (fun hoff => ?_) ?_
  · rw [KvCacheManager.cacheGroupBlocks, if_pos (by simp [hoff])]
  · unfold KvCacheManager.cacheGroupBlocks
    split
    · rfl
    · split <;> rfl

theorem OffUnindexed.cacheFromSnapshot (h : m.OffUnindexed) (hashes : GroupHashes) (n : Nat)
    (already : Dict String Nat) (d : GroupTables) (p : Nat) :
    (m.cacheGroupBlocksFromSnapshot hashes n already d p).2.OffUnindexed := by
  refine h.of_skip (fun hoff => ?_) ?_
  · rw [cacheGroupBlocksFromSnapshot, if_pos (by simp [hoff])]
  · unfold cacheGroupBlocksFromSnapshot
    split
    · rfl
    · split
      · rfl
      · split <;> rfl

theorem OffUnindexed.runOp (h : m.OffUnindexed) (op : GroupOp) : (m.runOp op).OffUnindexed := by
  cases op with
  | acquire r ts limit =>
    rw [KvCacheManager.runOp]
    split
    · next hok => exact h.acquire hok
    · exact h
  | ensure r t part => exact h.ensure r t part
  | retain d p =>
    rw [KvCacheManager.runOp]
    cases hok : m.retainGroupBlockSnapshot d p with
    | error e => exact h
    | ok m' => exact h.retain hok
  | releaseSnapshot d p =>
    rw [KvCacheManager.runOp]
    cases hok : m.releaseGroupBlockSnapshot d p with
    | error e => exact h
    | ok m' =>
      obtain ⟨pools, hpools, hok⟩ := bind_eq_ok.mp hok
      cases hok
      exact h.map rfl (fun _ _ hempty hone => hempty.unpin hone) hpools
  | cache r hashes n already => exact h.cacheGroupBlocks r hashes n already
  | cacheFromSnapshot hashes n already d p => exact h.cacheFromSnapshot hashes n already d p
  | releaseAll r =>
    rw [KvCacheManager.runOp]
    cases hok : m.releaseAllGroupRequests r with
    | error e => exact h
    | ok m' =>
      obtain ⟨pools, hpools, hok⟩ := bind_eq_ok.mp hok
      cases hok
      exact h.map rfl (fun _ _ hempty hone => hempty.releaseRequest hone) hpools

theorem offUnindexed_of_reachable {H : PyHash} {s : KvCacheManager × List Snapshot}
    (hs : (groupMachine H).Reachable s) : s.1.OffUnindexed := by
  refine hs.invariant (I := fun s => s.1.OffUnindexed) ?_ ?_
  · rintro ⟨m, snaps⟩ ⟨rfl, m₀, specs, batch, primary, -, hnew, hfree, hok⟩ - pool hpool
    obtain ⟨-, -, -, hpools, -⟩ := initGroups_spec hnew hfree hok
    obtain ⟨n, hn⟩ := hpools pool hpool
    rw [hn]
    exact fun _ => rfl
  · rintro ⟨m, snaps⟩ op ⟨m', snaps'⟩ - hI ⟨rfl, -⟩
    exact hI.runOp op

/-- In every reachable cache, the lookup of a request without grouped blocks finds the
longest boundary that any partition can resume at. -/
theorem group_prefix_lookup_optimal {H : PyHash} {s : KvCacheManager × List Snapshot}
    (hs : (groupMachine H).Reachable s) {r : RequestId} {hashes : GroupHashes} (limit : Int)
    (hnew : s.1.groupRequestPartition r = none) (hnames : s.1.namesMatch hashes) :
    ∃ res m', s.1.acquirePrefix r hashes limit = .ok (res, m') ∧
      OptimalHit s.1 r hashes limit res m' :=
  acquirePrefix_optimal (offUnindexed_of_reachable hs) hnew hnames

/-- A full-history group whose tables address one two-token page. -/
def onePageSpec : KVCacheGroupSpec where
  name := "full"
  layerIndices := [0]
  spec := .uncompressed 2 1 Nat.two_pos Nat.one_pos
  maxBlocksPerSeq := 1
  numBlocks := none
  numPartitions := 1
  slidingWindow := none
  isEagleGroup := false
  name_ne := by decide
  maxBlocksPerSeq_pos := Nat.one_pos
  numBlocks_pos := KVCacheGroupSpec.unset_pos
  numPartitions_pos := Nat.one_pos
  window_pos := KVCacheGroupSpec.unset_pos
  window_dvd := by decide
  window_fits := by decide

def onePageManager : KvCacheManager where
  pyHash := encodingHash
  blockSize := 2
  enablePrefixCache := true
  groupPools := [GroupBlockPool.new onePageSpec 2]

/-- Two requests have each published one page. -/
def twoPagesManager : KvCacheManager :=
  (((onePageManager.runOp (.ensure "a" 2 none)).runOp
    (.cache "a" (Dict.ofList [("full", [5])]) 2 ∅)).runOp (.ensure "b" 2 none)).runOp
    (.cache "b" (Dict.ofList [("full", [6])]) 2 ∅)

theorem twoPagesManager_reachable :
    (groupMachine encodingHash).Reachable (twoPagesManager, []) := by
  have h0 : (groupMachine encodingHash).Reachable (onePageManager, []) :=
    .start ⟨rfl, { pyHash := encodingHash, blockSize := 2, enablePrefixCache := true },
      [onePageSpec], 2, none, rfl, rfl, rfl, rfl⟩
  have hnext : ∀ (m : KvCacheManager) (op : GroupOp), SnapshotStep m [] op [] →
      (groupMachine encodingHash).Reachable (m, []) →
      (groupMachine encodingHash).Reachable (m.runOp op, []) :=
    fun m op hsnap h => h.next (a := op) ⟨rfl, hsnap⟩
  apply hnext _ (.cache "b" (Dict.ofList [("full", [6])]) 2 ∅) rfl
  apply hnext _ (.ensure "b" 2 none) rfl
  apply hnext _ (.cache "a" (Dict.ofList [("full", [5])]) 2 ∅) rfl
  exact hnext _ (.ensure "a" 2 none) rfl h0

theorem group_prefix_lookup_optimal_two_pages :
    ∃ res m', twoPagesManager.acquirePrefix "c" (Dict.ofList [("full", [5])]) 3 = .ok (res, m') ∧
      OptimalHit twoPagesManager "c" (Dict.ofList [("full", [5])]) 3 res m' :=
  group_prefix_lookup_optimal twoPagesManager_reachable 3 (by decide +kernel) (by decide +kernel)

/-- The two pages of the list are indexed, but the hit stops at the one page that a
table can address. -/
theorem group_prefix_lookup_capped :
    (groupMachine encodingHash).Reachable (twoPagesManager, []) ∧
      (∀ pool ∈ twoPagesManager.groupPools, pool.rolling = false ∧ pool.capacity ∣ 4 ∧
        ∀ i < 4 / pool.capacity,
          (pool.cachedPage 0 (groupEntry (Dict.ofList [("full", [5, 6])]) pool) i).isSome) ∧
      (twoPagesManager.acquirePrefix "c" (Dict.ofList [("full", [5, 6])]) 4).toOption.map
        (·.1.2.1) = some 2 := by
  refine ⟨twoPagesManager_reachable, ?_, by decide +kernel⟩
  decide +kernel

end KvCacheManager
end PyptoServing.Memory
