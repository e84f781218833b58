import Mathlib.Logic.Equiv.List
import PyptoServing.Lib.Machine
import PyptoServing.Memory.KvCacheManager
import PyptoServing.Memory.PoolOperations

/-!
# Conservation of the grouped pools

The grouped cache operations as a machine over a manager and the snapshots retained
so far. Its invariant is `PoolInv` for every pool, with the pins counted from the
retained snapshots, and agreement of every pool with the manager on the request
partitions.
-/
namespace PyptoServing.Memory

open Config Lib Lib.Fallible GroupBlockPool

/-- A retained snapshot: a scheduled table and its partition. -/
abbrev Snapshot := GroupTables × Nat

namespace KvCacheManager

/-- The pins that retained snapshots put on a pool's block. -/
def pins (snaps : List Snapshot) (pool : GroupBlockPool) (b : BlockId) : Nat :=
  (snaps.map fun s => (pool.snapshotBlocks s.2 (groupEntry s.1 pool)).count b).sum

/-- The manager and its retained snapshots are balanced. -/
structure Balanced (m : KvCacheManager) (snaps : List Snapshot) : Prop where
  pools : ∀ pool ∈ m.groupPools, PoolInv pool (pins snaps pool)
  partitions : ∀ pool ∈ m.groupPools, pool.spec.numPartitions = m.groupPartitionCount
  assigned : ∀ pool ∈ m.groupPools, ∀ r,
    pool.requestPartitions.lookup r = m.groupRequestPartition r
  /-- A retained snapshot addresses existing blocks. -/
  addressed : ∀ s ∈ snaps, ∀ pool ∈ m.groupPools, ∀ id ∈ groupEntry s.1 pool,
    s.2 < pool.spec.numPartitions ∧ id < pool.blocksPerPartition

variable {m m' : KvCacheManager} {snaps : List Snapshot} {r : RequestId} {p t : Nat}

theorem groupEntry_congr {α : Type} {pool pool' : GroupBlockPool} (hspec : pool'.spec = pool.spec)
    (d : Dict String (List α)) : groupEntry d pool' = groupEntry d pool := by
  rw [groupEntry, groupEntry, hspec]

theorem pins_congr {pool pool' : GroupBlockPool} (hspec : pool'.spec = pool.spec)
    (hper : pool'.blocksPerPartition = pool.blocksPerPartition) :
    pins snaps pool' = pins snaps pool := by
  funext b
  simp only [pins, snapshotBlocks, groupEntry_congr hspec, hper]

/-- The partition count is the first pool's, which a pointwise change keeps. -/
theorem groupPartitionCount_congr
    (h : List.Forall₂ (fun pool pool' : GroupBlockPool => pool'.spec = pool.spec)
      m.groupPools m'.groupPools) : m'.groupPartitionCount = m.groupPartitionCount := by
  unfold groupPartitionCount
  generalize m.groupPools = l, m'.groupPools = l' at h
  cases h with
  | nil => rfl
  | cons hr _ => exact congrArg KVCacheGroupSpec.numPartitions hr

/-- What no grouped operation changes: the layout of every pool, and the configuration. -/
structure Keeps (m m' : KvCacheManager) : Prop where
  layout : List.Forall₂ (fun pool pool' : GroupBlockPool =>
    pool'.spec = pool.spec ∧ pool'.blocksPerPartition = pool.blocksPerPartition)
    m.groupPools m'.groupPools
  pyHash : m'.pyHash = m.pyHash
  enablePrefixCache : m'.enablePrefixCache = m.enablePrefixCache

theorem Keeps.refl (m : KvCacheManager) : Keeps m m :=
  ⟨List.forall₂_same.mpr fun _ _ => ⟨rfl, rfl⟩, rfl, rfl⟩

/-- What publication and pins change: blocks and the hash index, but no table. -/
structure SameGroupTables (m m' : KvCacheManager) : Prop where
  pools : List.Forall₂ (fun pool pool' => SameTables pool pool') m.groupPools m'.groupPools
  pyHash : m'.pyHash = m.pyHash
  enablePrefixCache : m'.enablePrefixCache = m.enablePrefixCache

theorem SameGroupTables.refl (m : KvCacheManager) : SameGroupTables m m :=
  ⟨List.forall₂_same.mpr fun _ _ => .refl _, rfl, rfl⟩

theorem SameGroupTables.keeps (h : SameGroupTables m m') : Keeps m m' :=
  ⟨h.pools.imp fun _ _ hs => ⟨hs.spec, hs.perPartition⟩, h.pyHash, h.enablePrefixCache⟩

theorem Keeps.groupNames (h : Keeps m m') : m'.groupNames = m.groupNames :=
  forall₂_map_eq h.layout fun _ _ hs => by rw [hs.1]

/-- A pointwise change of the pools that keeps their specs and sizes, and moves the
assignments as the manager moves them. -/
theorem Balanced.step (h : Balanced m snaps) {snaps' : List Snapshot}
    (hpools : List.Forall₂ (fun pool pool' => PoolInv pool' (pins snaps' pool) ∧
      pool'.spec = pool.spec ∧ pool'.blocksPerPartition = pool.blocksPerPartition ∧
      ∀ r, pool'.requestPartitions.lookup r = m'.groupRequestPartition r)
      m.groupPools m'.groupPools)
    (hsnaps : ∀ s ∈ snaps', s ∉ snaps → ∀ pool ∈ m.groupPools, ∀ id ∈ groupEntry s.1 pool,
      s.2 < pool.spec.numPartitions ∧ id < pool.blocksPerPartition) :
    Balanced m' snaps' := by
  have hcount : m'.groupPartitionCount = m.groupPartitionCount :=
    groupPartitionCount_congr (hpools.imp fun _ _ h => h.2.1)
  refine ⟨?_, ?_, ?_, ?_⟩
  · intro pool' hmem
    obtain ⟨pool, _, hinv, hspec, hper, _⟩ := forall₂_mem_right hpools hmem
    rw [pins_congr hspec hper]
    exact hinv
  · intro pool' hmem
    obtain ⟨pool, hpool, _, hspec, _⟩ := forall₂_mem_right hpools hmem
    rw [hspec, hcount]
    exact h.partitions pool hpool
  · intro pool' hmem
    obtain ⟨pool, _, _, _, _, ha⟩ := forall₂_mem_right hpools hmem
    exact ha
  · intro s hs pool' hmem id hid
    obtain ⟨pool, hpool, _, hspec, hper, _⟩ := forall₂_mem_right hpools hmem
    rw [groupEntry_congr hspec] at hid
    rw [hspec, hper]
    by_cases hold : s ∈ snaps
    · exact h.addressed s hold pool hpool id hid
    · exact hsnaps s hs hold pool hpool id hid

/-- What a successful growth does: every pool grows in the same partition. -/
structure GrownIn (m : KvCacheManager) (snaps : List Snapshot) (r : RequestId) (p t : Nat)
    (m' : KvCacheManager) : Prop where
  pools : List.Forall₂ (fun pool pool' => pool.ensureTable r p t = .ok pool' ∧
    Grown pool (pins snaps pool) r p t pool') m.groupPools m'.groupPools
  partitions : m'.groupRequestPartitions = m.groupRequestPartitions.setDefault r p
  assigned : ∀ q, m.groupRequestPartition r = some q → q = p
  lt_count : p < m.groupPartitionCount
  config : m'.pyHash = m.pyHash ∧ m'.enablePrefixCache = m.enablePrefixCache

theorem candidate_room {q : Nat} (h : q ∈ m.candidateGroupPartitions r t) :
    ∀ pool ∈ m.groupPools, pool.additionalGroupBlocks r t ≤ pool.numFreeBlocksIn q := by
  intro pool hpool
  have := (List.mem_filter.mp h).2
  simp only [List.all_eq_true, decide_eq_true_eq] at this
  exact this pool hpool

theorem canEnsure_spec (h : m.canEnsureGroupBlocks r t p) :
    (∀ q, m.groupRequestPartition r = some q → q = p) ∧ p < m.groupPartitionCount ∧
      p ∈ m.candidateGroupPartitions r t := by
  unfold canEnsureGroupBlocks at h
  split at h
  · next q hq =>
    simp only [Bool.and_eq_true, decide_eq_true_eq] at h
    obtain ⟨⟨rfl, hlt⟩, hmem⟩ := h
    exact ⟨fun q' hq' => Option.some.inj (hq'.symm.trans hq), hlt, hmem⟩
  · next hq =>
    simp only [Bool.and_eq_true, decide_eq_true_eq] at h
    exact ⟨fun q' hq' => by simp [hq] at hq', h.1, h.2⟩

theorem oversized_spec (h : m.oversizedGroups t = []) :
    ∀ pool ∈ m.groupPools, pool.rolling = false → pool.logicalGroupBlocks t ≤ pool.ringSize := by
  intro pool hpool hroll
  rw [oversizedGroups, List.map_eq_nil_iff, List.filter_eq_nil_iff] at h
  have := h pool hpool
  simpa [hroll] using this

theorem growGroups_spec (h : Balanced m snaps) (hsize : m.oversizedGroups t = [])
    (hcan : m.canEnsureGroupBlocks r t p) :
    ∃ m', GrownIn m snaps r p t m' ∧ m.growGroups r p t = (m'.groupTables r, m') := by
  obtain ⟨ha, hp, hcand⟩ := canEnsure_spec hcan
  obtain ⟨pools, hpools, hgrown⟩ := mapM_total
    (f := fun pool : GroupBlockPool => pool.ensureTable r p t)
    (R := fun pool pool' => pool.ensureTable r p t = .ok pool' ∧
      Grown pool (pins snaps pool) r p t pool') fun pool hpool => by
      obtain ⟨pool', hok, hgrown⟩ := ensureTable_spec (h.pools pool hpool)
        (by rw [h.partitions pool hpool]; exact hp)
        (fun q hq => ha q (by rw [← h.assigned pool hpool]; exact hq))
        (oversized_spec hsize pool hpool) (candidate_room hcand pool hpool)
      exact ⟨pool', hok, hok, hgrown⟩
  refine ⟨{ m with
    groupPools := pools
    groupRequestPartitions := m.groupRequestPartitions.setDefault r p },
    ⟨hgrown, rfl, ha, hp, rfl, rfl⟩, ?_⟩
  rw [growGroups, hpools]

/-- `ensure_group_blocks` either leaves every table, queue and assignment alone or grows
every pool in one partition. -/
theorem ensureGroupBlocks_cases (h : Balanced m snaps) (partition : Option Nat) :
    (m.ensureGroupBlocks r t partition).2 = m ∨
      ∃ p next, GrownIn { m with nextGroupPartition := next } snaps r p t
        (m.ensureGroupBlocks r t partition).2 ∧
      (m.ensureGroupBlocks r t partition).1 =
        (m.ensureGroupBlocks r t partition).2.groupTables r := by
  unfold ensureGroupBlocks
  split
  · exact .inl rfl
  · split
    · exact .inl rfl
    · next hover =>
      split
      · exact .inl rfl
      · split
        · exact .inl rfl
        · exact .inl rfl
        · next selected next hsel =>
          split
          · next hcan =>
            right
            have hb : Balanced { m with nextGroupPartition := next } snaps :=
              ⟨h.pools, h.partitions, h.assigned, h.addressed⟩
            obtain ⟨m', hg, hgrow⟩ := growGroups_spec (r := r) (t := t) (p := selected) hb
              (not_not.mp hover) hcan
            rw [hgrow]
            exact ⟨selected, next, hg, rfl⟩
          · exact .inl rfl

theorem GrownIn.keeps (hg : GrownIn m snaps r p t m') : Keeps m m' :=
  ⟨hg.pools.imp fun _ _ hp => ⟨hp.2.spec, hp.2.perPartition⟩, hg.config.1, hg.config.2⟩

theorem Balanced.grown (h : Balanced m snaps) (hg : GrownIn m snaps r p t m') :
    Balanced m' snaps := by
  refine h.step (forall₂_imp_mem hg.pools fun pool hpool pool' hgrown => ?_)
    (fun s hs hn => absurd hs hn)
  have hgi := hgrown.2
  refine ⟨hgi.inv, hgi.spec, hgi.perPartition, fun r' => ?_⟩
  have ha := h.assigned pool hpool
  rw [hgi.requestPartitions, groupRequestPartition, hg.partitions]
  by_cases hr : r' = r
  · subst hr
    rw [Dict.lookup_setDefault_self, Dict.lookup_setDefault_self, ha]
    rfl
  · rw [Dict.lookup_setDefault_ne _ hr, Dict.lookup_setDefault_ne _ hr, ha]
    rfl

theorem releaseAll_spec (h : Balanced m snaps) (r : RequestId) :
    ∃ m', m.releaseAllGroupRequests r = .ok m' ∧ Balanced m' snaps ∧
      List.Forall₂ (fun pool pool' => Released pool (pins snaps pool) r pool')
        m.groupPools m'.groupPools ∧
      m'.groupRequestPartitions = m.groupRequestPartitions.erase r ∧ Keeps m m' := by
  obtain ⟨pools, hpools, hrel⟩ := mapM_total
    (f := fun pool : GroupBlockPool => pool.releaseRequest r)
    (R := fun pool pool' => Released pool (pins snaps pool) r pool') fun pool hpool =>
      releaseRequest_spec (h.pools pool hpool) r
  refine ⟨_, bind_eq_ok.mpr ⟨pools, hpools, rfl⟩, ?_, hrel, rfl,
    hrel.imp fun _ _ hr => ⟨hr.spec, hr.perPartition⟩, rfl, rfl⟩
  refine h.step (forall₂_imp_mem hrel fun pool hpool pool' hr => ?_)
    (fun s hs hn => absurd hs hn)
  refine ⟨hr.inv, hr.spec, hr.perPartition, fun r' => ?_⟩
  have ha := h.assigned pool hpool
  rw [hr.requestPartitions, groupRequestPartition]
  show _ = (m.groupRequestPartitions.erase r).lookup r'
  by_cases hrr : r' = r
  · subst hrr
    rw [AList.lookup_erase, AList.lookup_erase]
  · rw [AList.lookup_erase_ne hrr, AList.lookup_erase_ne hrr, ha]
    rfl

/-- A hit found by the backward search is one at which every group can resume. -/
theorem searchCandidate_spec {hashes : GroupHashes} {alignment k : Nat}
    (h : 0 < (m.searchCandidate p hashes alignment k).1) :
    (m.groupPools.mapM fun pool => pool.selectPrefix p (groupEntry hashes pool)
      (m.searchCandidate p hashes alignment k).1) =
      some (m.searchCandidate p hashes alignment k).2 := by
  induction k with
  | zero => simp [searchCandidate] at h
  | succ k ih =>
    rw [searchCandidate] at h ⊢
    cases hk : m.groupPools.mapM fun pool =>
        pool.selectPrefix p (groupEntry hashes pool) ((k + 1) * alignment) with
    | none =>
      simp only [hk] at h ⊢
      exact ih h
    | some tables =>
      simp only [hk] at h ⊢

theorem searchCandidate_aligned (hashes : GroupHashes) (alignment k : Nat) :
    alignment ∣ (m.searchCandidate p hashes alignment k).1 := by
  induction k with
  | zero => exact Nat.dvd_zero _
  | succ k ih =>
    rw [searchCandidate]
    split
    · exact Nat.dvd_mul_left _ _
    · exact ih

/-- The common boundary is a page boundary of every group. -/
theorem capacity_dvd_alignment {pool : GroupBlockPool} (hpool : pool ∈ m.groupPools) :
    pool.capacity ∣ m.groupPrefixCacheAlignment := by
  have hfold : ∀ (l : List GroupBlockPool) (n : Nat),
      n ∣ l.foldl (fun alignment pool => Nat.lcm alignment pool.capacity) n ∧
        ∀ pool ∈ l, pool.capacity ∣
          l.foldl (fun alignment pool => Nat.lcm alignment pool.capacity) n := by
    intro l
    induction l with
    | nil => exact fun n => ⟨dvd_rfl, by simp⟩
    | cons q l ih =>
      intro n
      obtain ⟨h1, h2⟩ := ih (Nat.lcm n q.capacity)
      refine ⟨(Nat.dvd_lcm_left _ _).trans h1, fun pool hpool => ?_⟩
      rcases List.mem_cons.mp hpool with rfl | hpool
      · exact (Nat.dvd_lcm_right _ _).trans h1
      · exact h2 pool hpool
  exact (hfold _ 1).2 pool hpool

theorem bestHit_spec {hashes : GroupHashes} {limit hit : Nat}
    {tables : List (List (Option BlockId))} (h : m.bestHit hashes limit = some (p, hit, tables)) :
    p < m.groupPartitionCount ∧ 0 < hit ∧ m.groupPrefixCacheAlignment ∣ hit ∧
      (m.groupPools.mapM fun pool => pool.selectPrefix p (groupEntry hashes pool) hit) =
        some tables := by
  have hinv : ∀ (l : List Nat) (best : Option (Nat × Nat × List (List (Option BlockId)))),
      (∀ q ∈ l, q < m.groupPartitionCount) →
      (∀ e ∈ best, e.1 < m.groupPartitionCount ∧ 0 < e.2.1 ∧
        m.groupPrefixCacheAlignment ∣ e.2.1 ∧
        (m.groupPools.mapM fun pool => pool.selectPrefix e.1 (groupEntry hashes pool) e.2.1) =
          some e.2.2) →
      ∀ e ∈ l.foldl (fun best partition =>
        let hit := m.partitionHit hashes limit partition
        if (best.map (·.2.1)).getD 0 < hit.1 then some (partition, hit) else best) best,
        e.1 < m.groupPartitionCount ∧ 0 < e.2.1 ∧ m.groupPrefixCacheAlignment ∣ e.2.1 ∧
        (m.groupPools.mapM fun pool => pool.selectPrefix e.1 (groupEntry hashes pool) e.2.1) =
          some e.2.2 := by
    intro l
    induction l with
    | nil => exact fun best _ hb => hb
    | cons q l ih =>
      intro best hl hb
      refine ih _ (fun q' hq' => hl q' (by simp [hq'])) ?_
      dsimp only
      split
      · next hlt =>
        intro e he
        cases he
        have hpos : 0 < (m.partitionHit hashes limit q).1 := by omega
        exact ⟨hl q (by simp), hpos, searchCandidate_aligned _ _ _, searchCandidate_spec hpos⟩
      · exact hb
  exact hinv _ none (fun q hq => List.mem_range.mp hq) (by simp) (p, hit, tables) h

/-- What a successful acquisition does: nothing, or one attachment to every pool. -/
theorem acquire_cases (h : Balanced m snaps) {hashes : GroupHashes} {limit : Nat}
    {res : GroupTables × Nat × Option Nat}
    (hnd : ∀ pool ∈ m.groupPools, (groupEntry hashes pool).Nodup)
    (hok : m.acquireGroupPrefixBlocks r hashes limit = .ok (res, m')) :
    (m' = m ∧ res = (∅, 0, none)) ∨
      ∃ p hit, res.2 = (hit, some p) ∧ m.groupPrefixCacheAlignment ∣ hit ∧
        m.groupRequestPartition r = none ∧
        m'.groupRequestPartitions = m.groupRequestPartitions.insert r p ∧
        Keeps m m' ∧
        List.Forall₂ (fun pool pool' => ∃ owned,
          pool.selectPrefix p (groupEntry hashes pool) hit = some owned ∧
          Attached pool (pins snaps pool) r p owned (hit / pool.capacity) pool')
          m.groupPools m'.groupPools := by
  unfold acquireGroupPrefixBlocks at hok
  split at hok
  · cases hok
    exact .inl ⟨rfl, rfl⟩
  · split at hok
    · cases hok
    · next hnew =>
      split at hok
      · cases hok
      · dsimp only at hok
        split at hok
        · cases hok
          exact .inl ⟨rfl, rfl⟩
        · split at hok
          · cases hok
            exact .inl ⟨rfl, rfl⟩
          · next p hit tables hbest =>
            obtain ⟨hp, hpos, halign, hsel⟩ := bestHit_spec hbest
            have hnone : m.groupRequestPartition r = none := by simpa using hnew
            cases hok
            right
            have hrel := mapM_eq_some.mp hsel
            have hatt : List.Forall₂ (fun pool pool' => ∃ owned,
                pool.selectPrefix p (groupEntry hashes pool) hit = some owned ∧
                Attached pool (pins snaps pool) r p owned (hit / pool.capacity) pool') m.groupPools
                ((m.groupPools.zip tables).map fun e => e.1.attachPrefix r p e.2 hit) := by
              refine forall₂_zip_map hrel fun pool hpool owned hown => ?_
              obtain ⟨hin, hdistinct, hfull⟩ :=
                selectPrefix_spec (h.pools pool hpool) (hnd pool hpool) hown
              exact ⟨owned, hown, attachPrefix_spec (h.pools pool hpool)
                (by rw [h.partitions pool hpool]; exact hp)
                (by rw [h.assigned pool hpool]; exact hnone) hin hdistinct hfull hit⟩
            exact ⟨p, hit, rfl, halign, hnone, rfl,
              ⟨hatt.imp fun _ _ ⟨_, _, ha⟩ => ⟨ha.spec, ha.perPartition⟩, rfl, rfl⟩, hatt⟩

theorem Balanced.acquire (h : Balanced m snaps) {hashes : GroupHashes} {limit : Nat}
    {res : GroupTables × Nat × Option Nat}
    (hnd : ∀ pool ∈ m.groupPools, (groupEntry hashes pool).Nodup)
    (hok : m.acquireGroupPrefixBlocks r hashes limit = .ok (res, m')) :
    Balanced m' snaps ∧ Keeps m m' := by
  obtain ⟨rfl, -⟩ | ⟨p, hit, -, -, -, hpart, hkeep, hrel⟩ :=
    acquire_cases h hnd hok
  · exact ⟨h, .refl m'⟩
  · refine ⟨?_, hkeep⟩
    refine h.step (forall₂_imp_mem hrel fun pool hpool pool' hatt => ?_)
      (fun s hs hn => absurd hs hn)
    obtain ⟨owned, -, hatt⟩ := hatt
    refine ⟨hatt.inv, hatt.spec, hatt.perPartition, fun r' => ?_⟩
    have ha := h.assigned pool hpool
    rw [hatt.requestPartitions, groupRequestPartition, hpart]
    by_cases hr : r' = r
    · subst hr
      rw [AList.lookup_insert, AList.lookup_insert]
    · rw [AList.lookup_insert_ne hr, AList.lookup_insert_ne hr, ha]
      rfl

theorem pins_cons (s : Snapshot) (snaps : List Snapshot) (pool : GroupBlockPool) (b : BlockId) :
    pins (s :: snaps) pool b =
      (pool.snapshotBlocks s.2 (groupEntry s.1 pool)).count b + pins snaps pool b := rfl

theorem groupEntry_of_entries_nil {α : Type} {d : Dict String (List α)} (h : d.entries = [])
    (pool : GroupBlockPool) : groupEntry d pool = [] := by
  rw [groupEntry, AList.lookup, h]
  rfl

/-- A retained snapshot pins each of its blocks once. -/
theorem Balanced.retain (h : Balanced m snaps) {d : GroupTables}
    (hok : m.retainGroupBlockSnapshot d p = .ok m') :
    Balanced m' ((d, p) :: snaps) ∧ SameGroupTables m m' := by
  unfold retainGroupBlockSnapshot at hok
  split at hok
  · next hnil =>
    cases hok
    refine ⟨⟨fun pool hpool => ?_, h.partitions, h.assigned, ?_⟩, .refl m⟩
    · have : pins ((d, p) :: snaps) pool = pins snaps pool := by
        funext b
        rw [pins_cons, groupEntry_of_entries_nil hnil]
        simp [snapshotBlocks]
      rw [this]
      exact h.pools pool hpool
    · intro s hs pool hpool id hid
      rcases List.mem_cons.mp hs with rfl | hs
      · rw [groupEntry_of_entries_nil hnil] at hid
        cases hid
      · exact h.addressed s hs pool hpool id hid
  · split at hok
    · cases hok
    · obtain ⟨resolved, hres, hok⟩ := bind_eq_ok.mp hok
      cases hok
      have hrel := mapM_eq_ok.mp hres
      have haddr : ∀ pool ∈ m.groupPools, ∀ id ∈ groupEntry d pool,
          p < pool.spec.numPartitions ∧ id < pool.blocksPerPartition := by
        have := forall₂_imp_mem hrel (S := fun pool _ => ∀ id ∈ groupEntry d pool,
            p < pool.spec.numPartitions ∧ id < pool.blocksPerPartition) fun pool hpool bs hbs => by
          obtain ⟨free, hc⟩ := (h.pools pool hpool).conserved
          exact (pinnable_spec hc hbs).2.2.1
        intro pool hpool
        obtain ⟨_, _, hr⟩ := forall₂_mem_right this.flip hpool
        exact hr
      have hpin : List.Forall₂ (fun pool pool' => PoolInv pool' (pins ((d, p) :: snaps) pool) ∧
          SameTables pool pool') m.groupPools
          ((m.groupPools.zip resolved).map fun e => e.1.pinBlocks e.2) := by
        refine forall₂_zip_map hrel fun pool hpool bs hbs => ?_
        obtain ⟨free, hc⟩ := (h.pools pool hpool).conserved
        obtain ⟨hbs', -, -, hheld⟩ := pinnable_spec hc hbs
        obtain ⟨ht, hc'⟩ := pinBlocks_spec bs pool _ hc hheld
        refine ⟨(h.pools pool hpool).of_sameTables ht
          (hc'.congr rfl rfl rfl rfl rfl fun b => ?_), ht⟩
        rw [pins_cons, hbs']
        dsimp only
        omega
      refine ⟨?_, hpin.imp fun _ _ hp => hp.2, rfl, rfl⟩
      refine h.step (forall₂_imp_mem hpin fun pool hpool pool' hr => ?_) ?_
      · refine ⟨hr.1, hr.2.spec, hr.2.perPartition, fun r => ?_⟩
        rw [hr.2.requestPartitions]
        exact h.assigned pool hpool r
      · intro s hs hn pool hpool id hid
        rcases List.mem_cons.mp hs with rfl | hs
        · exact haddr pool hpool id hid
        · exact absurd hs hn

/-- Releasing a retained snapshot never meets a block without a reference. -/
theorem Balanced.releaseSnapshot (h : Balanced m snaps) {d : GroupTables} {rest : List Snapshot}
    (hperm : snaps.Perm ((d, p) :: rest)) :
    ∃ m', m.releaseGroupBlockSnapshot d p = .ok m' ∧ Balanced m' rest ∧ SameGroupTables m m' := by
  have hpins : ∀ pool b, pins snaps pool b =
      pins rest pool b + (pool.snapshotBlocks p (groupEntry d pool)).count b := by
    intro pool b
    have := (hperm.map fun s : Snapshot =>
      (pool.snapshotBlocks s.2 (groupEntry s.1 pool)).count b).sum_nat
    rw [pins, this, Nat.add_comm]
    rfl
  obtain ⟨pools, hpools, hrel⟩ := mapM_total
    (f := fun pool : GroupBlockPool => pool.unpin p (groupEntry d pool))
    (R := fun pool pool' => PoolInv pool' (pins rest pool) ∧ SameTables pool pool')
    fun pool hpool => by
      obtain ⟨free, hc⟩ := (h.pools pool hpool).conserved
      have hcount : Conserved pool free fun b => (pool.tableHolds b + pins rest pool b) +
          (pool.snapshotBlocks p (groupEntry d pool)).count b :=
        hc.congr rfl rfl rfl rfl rfl fun b => by rw [hpins]; omega
      obtain ⟨pool', free', hok, ht, hc'⟩ := unpin_spec hcount
        (fun id hid => h.addressed (d, p) (hperm.mem_iff.mpr (by simp)) pool hpool id hid)
      exact ⟨pool', hok, (h.pools pool hpool).of_sameTables ht hc', ht⟩
  refine ⟨_, bind_eq_ok.mpr ⟨pools, hpools, rfl⟩, ?_, hrel.imp fun _ _ hr => hr.2, rfl, rfl⟩
  refine h.step (forall₂_imp_mem hrel fun pool hpool pool' hr => ?_) ?_
  · refine ⟨hr.1, hr.2.spec, hr.2.perPartition, fun r => ?_⟩
    rw [hr.2.requestPartitions]
    exact h.assigned pool hpool r
  · exact fun s hs hn => absurd (hperm.mem_iff.mpr (by simp [hs])) hn

theorem publishGroups_spec {step : GroupBlockPool → GroupBlockPool × Option KvError}
    {R : GroupBlockPool → GroupBlockPool → Prop} {l : List GroupBlockPool}
    (hstep : ∀ pool ∈ l, R pool (step pool).1) (hrefl : ∀ pool ∈ l, R pool pool) :
    List.Forall₂ R l (publishGroups step l).1 := by
  induction l with
  | nil => exact .nil
  | cons pool l ih =>
    have hhead := hstep pool (by simp)
    unfold publishGroups
    cases hs : step pool with
    | mk pool' e =>
      rw [hs] at hhead
      cases e with
      | some e =>
        refine .cons hhead ?_
        exact List.forall₂_same.mpr fun pool hpool => hrefl pool (by simp [hpool])
      | none =>
        exact .cons hhead (ih (fun pool hpool => hstep pool (by simp [hpool]))
          fun pool hpool => hrefl pool (by simp [hpool]))

/-- Publication through any table of a balanced manager keeps the balance. -/
theorem Balanced.publish (h : Balanced m snaps)
    {step : GroupBlockPool → GroupBlockPool × Option KvError}
    (hstep : ∀ pool ∈ m.groupPools, PoolInv (step pool).1 (pins snaps pool) ∧
      SameTables pool (step pool).1) :
    Balanced { m with groupPools := (publishGroups step m.groupPools).1 } snaps ∧
      SameGroupTables m { m with groupPools := (publishGroups step m.groupPools).1 } := by
  have hrel := publishGroups_spec
    (R := fun pool pool' => PoolInv pool' (pins snaps pool) ∧ SameTables pool pool')
    hstep fun pool hpool => ⟨h.pools pool hpool, .refl pool⟩
  refine ⟨?_, hrel.imp fun _ _ hr => hr.2, rfl, rfl⟩
  refine h.step (forall₂_imp_mem hrel fun pool hpool pool' hr => ?_) fun s hs hn => absurd hs hn
  refine ⟨hr.1, hr.2.spec, hr.2.perPartition, fun r => ?_⟩
  rw [hr.2.requestPartitions]
  exact h.assigned pool hpool r

theorem Balanced.cacheGroupBlocks (h : Balanced m snaps) (r : RequestId) (hashes : GroupHashes)
    (n : Nat) (already : Dict String Nat) :
    Balanced (m.cacheGroupBlocks r hashes n already).2 snaps ∧
      SameGroupTables m (m.cacheGroupBlocks r hashes n already).2 := by
  unfold KvCacheManager.cacheGroupBlocks
  split
  · exact ⟨h, .refl m⟩
  · split
    · exact ⟨h, .refl m⟩
    · next p hp =>
      exact h.publish fun pool hpool => cacheLive_spec (h.pools pool hpool)
        (by rw [h.assigned pool hpool]; exact hp) _ _ _

theorem Balanced.cacheFromSnapshot (h : Balanced m snaps) (hashes : GroupHashes) (n : Nat)
    (already : Dict String Nat) (d : GroupTables) (p : Nat) :
    Balanced (m.cacheGroupBlocksFromSnapshot hashes n already d p).2 snaps ∧
      SameGroupTables m (m.cacheGroupBlocksFromSnapshot hashes n already d p).2 := by
  unfold cacheGroupBlocksFromSnapshot
  split
  · exact ⟨h, .refl m⟩
  · split
    · exact ⟨h, .refl m⟩
    · split
      · exact ⟨h, .refl m⟩
      · exact h.publish fun pool hpool => cacheSnapshot_spec (h.pools pool hpool) p _ _ _ _

end KvCacheManager

namespace GroupBlockPool

/-- The heap and queues after the first `n` partitions have been queued. -/
theorem newState_spec (perPartition : Nat) : ∀ n : Nat,
    let s := (List.range n).foldl
      (fun (s : BlockHeap × (Nat → FreeKVCacheBlockQueue)) partition =>
        let r := FreeKVCacheBlockQueue.appendN {} s.1
          (List.range' (partition * perPartition) perPartition)
        (r.2, Function.update s.2 partition r.1))
      (fun _ => {}, fun _ => {})
    (∀ q < n, (s.2 q).Spells s.1 (List.range' (q * perPartition) perPartition)) ∧
      ∀ c, (s.1 c).refCnt = 0 ∧ (s.1 c).blockHash = none := by
  intro n
  induction n with
  | zero => exact ⟨fun q hq => absurd hq (by omega), fun c => ⟨rfl, rfl⟩⟩
  | succ n ih =>
    rw [List.range_succ, List.foldl_append]
    obtain ⟨hspells, hdata⟩ := ih
    generalize (List.range n).foldl _ _ = s at hspells hdata ⊢
    have hempty := FreeKVCacheBlockQueue.spells_empty s.1
    have hnd : ([] ++ List.range' (n * perPartition) perPartition).Nodup := by
      simpa using List.nodup_range' 1
    have hsame := FreeKVCacheBlockQueue.appendN_sameData {} s.1
      (List.range' (n * perPartition) perPartition)
    have hptr := hempty.appendN_samePointers hnd
    refine ⟨fun q hq => ?_, fun c => ?_⟩
    · by_cases hqn : q = n
      · subst hqn
        simpa using hempty.appendN hnd
      · have hout : ∀ c ∈ List.range' (q * perPartition) perPartition,
            c ∉ [] ++ List.range' (n * perPartition) perPartition := by
          intro c hc hc'
          rw [List.nil_append] at hc'
          have h1 := List.mem_range'_1.mp hc
          have h2 := List.mem_range'_1.mp hc'
          have h3 : (q + 1) * perPartition ≤ n * perPartition :=
            Nat.mul_le_mul_right _ (by omega)
          rw [Nat.add_mul, Nat.one_mul] at h3
          omega
        simpa [hqn] using (hspells q (by omega)).congr
          (fun c hc => (hptr c (hout c hc)).1) (fun c hc => (hptr c (hout c hc)).2)
    · exact ⟨(hsame c).1.trans (hdata c).1, (hsame c).2.trans (hdata c).2⟩

/-- A fresh pool is balanced: nothing is held and everything is queued. -/
theorem new_inv (spec : KVCacheGroupSpec) (perPartition : Nat) :
    PoolInv (new spec perPartition) fun _ => 0 := by
  obtain ⟨hspells, hdata⟩ := newState_spec perPartition spec.numPartitions
  have hhome : ∀ q < spec.numPartitions, ∀ b,
      b ∈ List.range' (q * perPartition) perPartition ↔
        (new spec perPartition).InPartition q b := by
    intro q hq b
    rw [List.mem_range'_1]
    show _ ↔ b < spec.numPartitions * perPartition ∧ b / perPartition = q
    constructor
    · rintro ⟨h1, h2⟩
      have h3 : (q + 1) * perPartition ≤ spec.numPartitions * perPartition :=
        Nat.mul_le_mul_right _ hq
      rw [Nat.add_mul, Nat.one_mul] at h3
      refine ⟨by omega, ?_⟩
      rw [Nat.div_eq_iff (by omega)]
      omega
    · rintro ⟨h1, rfl⟩
      have hpos : 0 < perPartition := by
        rcases Nat.eq_zero_or_pos perPartition with h0 | h0
        · simp [h0] at h1
        · exact h0
      have h2 := Nat.div_add_mod b perPartition
      have h3 := Nat.mod_lt b hpos
      rw [Nat.mul_comm] at h2
      omega
  refine ⟨⟨fun q => List.range' (q * perPartition) perPartition, ?_⟩, ?_, ?_⟩
  · refine ⟨hspells, ?_, fun c => (hdata c).1, ?_, ?_⟩
    · exact fun q hq b hb => (hhome q hq b).mp hb
    · intro b hb
      have hq : (new spec perPartition).home b < spec.numPartitions :=
        InPartition.lt_numPartitions (show InPartition (new spec perPartition) _ b from ⟨hb, rfl⟩)
      exact iff_of_true rfl ((hhome _ hq b).mpr ⟨hb, rfl⟩)
    · intro p h b hb
      cases hb
  · refine ⟨?_, ?_, ?_⟩
    · intro r p h
      cases h
    · intro r b h
      cases h
    · intro r b
      exact Nat.zero_le 1
  · intro _ r h
    cases h

end GroupBlockPool

namespace KvCacheManager

variable {m m' : KvCacheManager} {snaps : List Snapshot} {r : RequestId} {p t : Nat}

theorem groupSizes_spec {specs : List KVCacheGroupSpec} {batch : Nat} {primary : Option Nat}
    {sized : List (KVCacheGroupSpec × Nat)} (h : groupSizes specs batch primary = .ok sized) :
    sized.map (·.1) = specs := by
  obtain ⟨sized', hsized, h⟩ := bind_eq_ok.mp h
  have hmap : ∀ f : KVCacheGroupSpec → Nat, (specs.map fun g => (g, f g)).map (·.1) = specs := by
    intro f
    rw [List.map_map]
    exact List.map_id' specs
  have hspecs : sized'.map (·.1) = specs := by
    unfold requestedSizes at hsized
    split at hsized
    · split at hsized
      · cases hsized
      · dsimp only at hsized
        split at hsized
        · cases hsized
        · cases hsized
          exact hmap _
    · cases hsized
      exact hmap _
  dsimp only at h
  split at h
  · cases h
  · cases h
    exact hspecs

/-- One element is left of the partition counts, so they are all the same. -/
theorem numPartitions_eq {specs : List KVCacheGroupSpec}
    (hparts : (specs.map (·.numPartitions)).dedup.length = 1) :
    ∀ g ∈ specs, ∀ g' ∈ specs, g.numPartitions = g'.numPartitions := by
  obtain ⟨n, hn⟩ := List.length_eq_one_iff.mp hparts
  have hmem : ∀ g ∈ specs, g.numPartitions = n := by
    intro g hg
    have : g.numPartitions ∈ (specs.map (·.numPartitions)).dedup :=
      List.mem_dedup.mpr (List.mem_map.mpr ⟨g, hg, rfl⟩)
    rw [hn] at this
    exact List.mem_singleton.mp this
  intro g hg g' hg'
  rw [hmem g hg, hmem g' hg']

/-- `init_groups` on a manager without groups gives balanced pools over the specs. -/
theorem initGroups_spec {specs : List KVCacheGroupSpec} {batch : Nat} {primary : Option Nat}
    (hnew : m.groupPools = []) (hfree : m.groupRequestPartitions = ∅)
    (h : m.initGroups specs batch primary = .ok m') :
    Balanced m' [] ∧ m'.pyHash = m.pyHash ∧ m'.groupRequestPartitions = ∅ ∧
      (∀ pool ∈ m'.groupPools, ∃ n, pool = GroupBlockPool.new pool.spec n) ∧
      m'.groupPools.map (·.spec) = specs ∧ m'.groupNames.Nodup := by
  unfold initGroups at h
  split at h
  · cases h
  · split at h
    · next hnil =>
      cases h
      subst hnil
      refine ⟨⟨?_, ?_, ?_, by simp⟩, rfl, hfree, ?_, ?_, ?_⟩ <;> simp [groupNames, hnew]
    · split at h
      · cases h
      · next hnames =>
        split at h
        · cases h
        · next hparts =>
          obtain ⟨sized, hsized, h⟩ := bind_eq_ok.mp h
          rw [if_neg (by simp [hnew])] at h
          cases h
          have hspecs := groupSizes_spec hsized
          have hmap : (sized.map fun e => GroupBlockPool.new e.1 e.2).map (·.spec) = specs := by
            rw [List.map_map, ← hspecs]
            rfl
          have hsame := numPartitions_eq (not_not.mp hparts)
          have hspecmem : ∀ pool ∈ sized.map (fun e => GroupBlockPool.new e.1 e.2),
              pool.spec ∈ specs := by
            intro pool hpool
            rw [← hmap]
            exact List.mem_map.mpr ⟨pool, hpool, rfl⟩
          have hnewpool : ∀ pool ∈ sized.map (fun e => GroupBlockPool.new e.1 e.2),
              ∃ n, pool = GroupBlockPool.new pool.spec n := by
            intro pool hpool
            obtain ⟨e, _, rfl⟩ := List.mem_map.mp hpool
            exact ⟨e.2, rfl⟩
          refine ⟨⟨?_, ?_, ?_, by simp⟩, rfl, hfree, hnewpool, hmap, ?_⟩
          · intro pool hpool
            obtain ⟨n, hn⟩ := hnewpool pool hpool
            rw [hn]
            exact GroupBlockPool.new_inv _ n
          · intro pool hpool
            have hcount : ∀ l : List GroupBlockPool, (∀ q ∈ l, q.spec ∈ specs) → pool ∈ l →
                pool.spec.numPartitions =
                  groupPartitionCount { m with groupPools := l } := by
              intro l hl hpl
              cases l with
              | nil => cases hpl
              | cons q l => exact hsame _ (hl pool hpl) _ (hl q (by simp))
            exact hcount _ hspecmem hpool
          · intro pool hpool r
            obtain ⟨n, hn⟩ := hnewpool pool hpool
            rw [hn, groupRequestPartition]
            show _ = m.groupRequestPartitions.lookup r
            rw [hfree]
            rfl
          · have hmapn := congrArg (List.map KVCacheGroupSpec.name) hmap
            rw [List.map_map] at hmapn
            show ((sized.map fun e => GroupBlockPool.new e.1 e.2).map (·.spec.name)).Nodup
            rw [show (fun pool : GroupBlockPool => pool.spec.name) =
              KVCacheGroupSpec.name ∘ (·.spec) from rfl, hmapn]
            exact not_not.mp hnames

/-- One grouped cache operation. -/
inductive GroupOp
  | acquire (requestId : RequestId) (tokenIds : List Int) (maxCacheHitTokens : Nat)
  | ensure (requestId : RequestId) (tokenCount : Nat) (partition : Option Nat)
  | retain (tables : GroupTables) (partition : Nat)
  | releaseSnapshot (tables : GroupTables) (partition : Nat)
  | cache (requestId : RequestId) (hashes : GroupHashes) (numComputed : Nat)
      (already : Dict String Nat)
  | cacheFromSnapshot (hashes : GroupHashes) (numComputed : Nat) (already : Dict String Nat)
      (tables : GroupTables) (partition : Nat)
  | releaseAll (requestId : RequestId)

/-- The manager after one operation; a refused operation changes nothing. -/
def runOp (m : KvCacheManager) : GroupOp → KvCacheManager
  | .acquire r tokenIds limit =>
    match m.acquireGroupPrefixBlocks r (m.computeGroupBlockHashes tokenIds) limit with
    | .ok (_, m') => m'
    | .error _ => m
  | .ensure r t partition => (m.ensureGroupBlocks r t partition).2
  | .retain tables p => (m.retainGroupBlockSnapshot tables p).toOption.getD m
  | .releaseSnapshot tables p => (m.releaseGroupBlockSnapshot tables p).toOption.getD m
  | .cache r hashes n already => (m.cacheGroupBlocks r hashes n already).2
  | .cacheFromSnapshot hashes n already tables p =>
    (m.cacheGroupBlocksFromSnapshot hashes n already tables p).2
  | .releaseAll r => (m.releaseAllGroupRequests r).toOption.getD m

/-- How one operation moves the retained snapshots: a successful retain adds one, and
a snapshot is released once per retain. -/
def SnapshotStep (m : KvCacheManager) (snaps : List Snapshot) : GroupOp → List Snapshot → Prop
  | .retain tables p, snaps' =>
    snaps' = if (m.retainGroupBlockSnapshot tables p).isOk then (tables, p) :: snaps else snaps
  | .releaseSnapshot tables p, snaps' => snaps.Perm ((tables, p) :: snaps')
  | _, snaps' => snaps' = snaps

/-- Any sequence of grouped operations of any requests, from the pools that
`init_groups` builds. -/
def groupMachine (H : PyHash) : Machine (KvCacheManager × List Snapshot) GroupOp where
  init s := s.2 = [] ∧ ∃ m₀ specs batch primary, m₀.pyHash = H ∧ m₀.groupPools = [] ∧
    m₀.groupRequestPartitions = ∅ ∧ initGroups m₀ specs batch primary = .ok s.1
  step s op s' := s'.1 = s.1.runOp op ∧ SnapshotStep s.1 s.2 op s'.2

/-- Whether the block hashes of the tokens that an operation acquires are pairwise different. -/
def Separates (m : KvCacheManager) : GroupOp → Prop
  | .acquire _ ts _ =>
    ∀ pool ∈ m.groupPools, (groupEntry (m.computeGroupBlockHashes ts) pool).Nodup
  | _ => True

/-- The runs in which no two blocks of one acquired token sequence have the same hash. -/
def separatedMachine (H : PyHash) : Machine (KvCacheManager × List Snapshot) GroupOp :=
  (groupMachine H).restrict fun s op _ => s.1.Separates op

theorem computeGroupBlockHashes_entry {pool : GroupBlockPool} (hnames : m.groupNames.Nodup)
    (hpool : pool ∈ m.groupPools) (ts : List Int) :
    groupEntry (m.computeGroupBlockHashes ts) pool =
      if pool.spec.isEagleGroup then m.pyHash.iterEagleTokenBlockHashes ts pool.capacity
      else m.pyHash.iterTokenBlockHashes ts pool.capacity := by
  rw [groupEntry, computeGroupBlockHashes,
    Dict.lookup_ofList_map (fun pool : GroupBlockPool => pool.spec.name) hnames _ hpool]
  rfl

/-- What every reachable manager keeps: the balance, the hash function and the names. -/
structure GroupInv (H : PyHash) (s : KvCacheManager × List Snapshot) : Prop where
  balanced : Balanced s.1 s.2
  pyHash : s.1.pyHash = H
  names : s.1.groupNames.Nodup

/-- A hash without collisions separates the blocks of every token sequence. -/
theorem separates_of_collisionFree (hH : m.pyHash.CollisionFree) (hnames : m.groupNames.Nodup)
    (op : GroupOp) : m.Separates op := by
  cases op with
  | acquire r ts limit =>
    intro pool hpool
    rw [computeGroupBlockHashes_entry hnames hpool]
    split
    · exact hH.nodup_iterEagleTokenBlockHashes ts _
    · exact hH.nodup_iterTokenBlockHashes ts _
  | _ => trivial

/-- Every operation keeps the balance. -/
theorem runOp_spec (hb : Balanced m snaps) {op : GroupOp} (hsep : m.Separates op)
    {snaps' : List Snapshot} (hs : SnapshotStep m snaps op snaps') :
    Balanced (m.runOp op) snaps' ∧ Keeps m (m.runOp op) := by
  cases op with
  | acquire r ts limit =>
    cases hs
    simp only [runOp]
    split
    · next hok => exact hb.acquire hsep hok
    · exact ⟨hb, .refl m⟩
  | ensure r t partition =>
    cases hs
    rcases ensureGroupBlocks_cases hb partition (r := r) (t := t) with h | ⟨p, next, hg, -⟩
    · rw [runOp, h]
      exact ⟨hb, .refl m⟩
    · have hb' : Balanced { m with nextGroupPartition := next } snaps :=
        ⟨hb.pools, hb.partitions, hb.assigned, hb.addressed⟩
      exact ⟨hb'.grown hg, hg.keeps.layout, hg.keeps.pyHash, hg.keeps.enablePrefixCache⟩
  | retain tables p =>
    simp only [SnapshotStep] at hs
    simp only [runOp]
    cases hok : m.retainGroupBlockSnapshot tables p with
    | error e =>
      rw [hok] at hs
      rw [hs]
      exact ⟨hb, .refl m⟩
    | ok m' =>
      rw [hok] at hs
      rw [hs]
      obtain ⟨hb', ht⟩ := hb.retain hok
      exact ⟨hb', ht.keeps⟩
  | releaseSnapshot tables p =>
    obtain ⟨m', hok, hb', ht⟩ := hb.releaseSnapshot hs
    rw [runOp, hok]
    exact ⟨hb', ht.keeps⟩
  | cache r hashes n already =>
    cases hs
    obtain ⟨hb', ht⟩ := hb.cacheGroupBlocks r hashes n already
    exact ⟨hb', ht.keeps⟩
  | cacheFromSnapshot hashes n already tables p =>
    cases hs
    obtain ⟨hb', ht⟩ := hb.cacheFromSnapshot hashes n already tables p
    exact ⟨hb', ht.keeps⟩
  | releaseAll r =>
    cases hs
    obtain ⟨m', hok, hb', -, -, hk⟩ := releaseAll_spec hb r
    rw [runOp, hok]
    exact ⟨hb', hk⟩

theorem groupInv_of_reachable {H : PyHash} {s : KvCacheManager × List Snapshot}
    (hs : (separatedMachine H).Reachable s) : GroupInv H s := by
  refine hs.invariant ?_ ?_
  · rintro ⟨m, snaps⟩ ⟨rfl, m₀, specs, batch, primary, rfl, hnew, hfree, hok⟩
    obtain ⟨hb, hh, -, -, -, hn⟩ := initGroups_spec hnew hfree hok
    exact ⟨hb, hh, hn⟩
  · rintro ⟨m, snaps⟩ op ⟨m', snaps'⟩ - ⟨hb, rfl, hn⟩ ⟨⟨rfl, hstep⟩, hsep⟩
    obtain ⟨hb', hk⟩ := runOp_spec hb hsep hstep
    exact ⟨hb', hk.pyHash, by rw [hk.groupNames]; exact hn⟩

/-- With such a hash every run is separated. -/
theorem separated_of_reachable {H : PyHash} (hH : H.CollisionFree)
    {s : KvCacheManager × List Snapshot} (hs : (groupMachine H).Reachable s) :
    (separatedMachine H).Reachable s := by
  induction hs with
  | start h => exact .start h
  | @next s t op hr hstep ih =>
    obtain ⟨-, hpy, hnames⟩ := groupInv_of_reachable ih
    exact ih.next (a := op) ⟨hstep, separates_of_collisionFree (by rw [hpy]; exact hH) hnames op⟩

/-- The blocks that the free queue of a partition links, from its head. -/
def linked (pool : GroupBlockPool) (partition : Nat) : List BlockId :=
  LinkedQueue.walk pool.blocks.next pool.totalBlocks (pool.freeQueues partition).head

/-- Conservation of one pool: references are counted, exactly the unreferenced blocks are
linked, once and at home, and tables hold different blocks of their partition. -/
structure PoolConserved (m : KvCacheManager) (snaps : List Snapshot) (pool : GroupBlockPool) :
    Prop where
  refCnt : ∀ b < pool.totalBlocks,
    (pool.blocks b).refCnt = pool.tableHolds b + pins snaps pool b
  free_iff : ∀ b < pool.totalBlocks,
    (pool.blocks b).refCnt = 0 ↔ (linked pool (pool.home b)).count b = 1
  linked_home : ∀ p < pool.spec.numPartitions, ∀ b ∈ linked pool p,
    pool.InPartition p b ∧ (pool.blocks b).refCnt = 0
  linked_nodup : ∀ p < pool.spec.numPartitions, (linked pool p).Nodup
  /-- Following the pointers further visits nothing else. -/
  linked_all : ∀ p < pool.spec.numPartitions, ∀ fuel ≥ pool.totalBlocks,
    LinkedQueue.walk pool.blocks.next fuel (pool.freeQueues p).head = linked pool p
  count_eq : ∀ p < pool.spec.numPartitions,
    pool.numFreeBlocksIn p = (linked pool p).length
  distinct : ∀ r, (pool.table r).reduceOption.Nodup
  at_home : ∀ r b, some b ∈ pool.table r →
    ∃ p, m.groupRequestPartition r = some p ∧ pool.InPartition p b

theorem length_free_le {pool : GroupBlockPool} {free : Nat → List BlockId}
    {holders : BlockId → Nat} (hc : Conserved pool free holders)
    (hp : p < pool.spec.numPartitions) : (free p).length ≤ pool.totalBlocks := by
  have hsub : free p ⊆ List.range pool.totalBlocks := fun b hb =>
    List.mem_range.mpr (hc.inPartition p hp b hb).lt_total
  have := ((hc.spells p hp).isQueue.nodup.subperm hsub).length_le
  rwa [List.length_range] at this

theorem Balanced.poolConserved (h : Balanced m snaps) {pool : GroupBlockPool}
    (hpool : pool ∈ m.groupPools) : PoolConserved m snaps pool := by
  have hinv := h.pools pool hpool
  obtain ⟨free, hc⟩ := hinv.conserved
  have hwalk : ∀ p < pool.spec.numPartitions, ∀ fuel ≥ pool.totalBlocks,
      LinkedQueue.walk pool.blocks.next fuel (pool.freeQueues p).head = free p :=
    fun p hp fuel hf => (hc.spells p hp).isQueue.walk_eq ((length_free_le hc hp).trans hf)
  have hlinked : ∀ p < pool.spec.numPartitions, linked pool p = free p :=
    fun p hp => hwalk p hp _ le_rfl
  have hhome : ∀ b < pool.totalBlocks, pool.home b < pool.spec.numPartitions :=
    fun b hb => InPartition.lt_numPartitions ⟨hb, rfl⟩
  refine ⟨fun b _ => hc.refCnt b, ?_, ?_, ?_, ?_, ?_, ?_, ?_⟩
  · intro b hb
    rw [hlinked _ (hhome b hb), hc.refCnt, hc.free_iff b hb]
    constructor
    · exact fun hmem => List.count_eq_one_of_mem (hc.spells _ (hhome b hb)).isQueue.nodup hmem
    · exact fun hone => List.count_pos_iff.mp (by omega)
  · intro p hp b hb
    rw [hlinked p hp] at hb
    have hin := hc.inPartition p hp b hb
    exact ⟨hin, by rw [hc.refCnt]; exact (hc.mem_free_iff hin).mp hb⟩
  · intro p hp
    rw [hlinked p hp]
    exact (hc.spells p hp).isQueue.nodup
  · intro p hp fuel hf
    rw [hwalk p hp fuel hf, hlinked p hp]
  · intro p hp
    rw [hlinked p hp]
    exact hc.length_eq hp
  · intro r
    rw [List.nodup_iff_count_le_one]
    intro b
    rw [count_reduceOption]
    exact hinv.tables.distinct r b
  · intro r b hb
    obtain ⟨p, hp, hin⟩ := hinv.tables.entries r b hb
    exact ⟨p, by rw [← h.assigned pool hpool]; exact hp, hin⟩

/-- A growth hands out no referenced block: whatever is new in a table had no reference. -/
theorem Balanced.ensure_fresh (h : Balanced m snaps) (r : RequestId) (t : Nat)
    (partition : Option Nat) :
    List.Forall₂ (fun pool pool' : GroupBlockPool => ∀ r' b, some b ∈ pool'.table r' →
      some b ∈ pool.table r' ∨ (pool.blocks b).refCnt = 0)
      m.groupPools (m.ensureGroupBlocks r t partition).2.groupPools := by
  rcases ensureGroupBlocks_cases h partition (r := r) (t := t) with he | ⟨p, next, hg, -⟩
  · rw [he]
    exact List.forall₂_same.mpr fun _ _ _ _ hb => .inl hb
  · refine hg.pools.imp fun pool pool' hgrown r' b hb => ?_
    have hp := hgrown.2
    by_cases hr : r' = r
    · subst hr
      exact hp.fresh b hb
    · rw [hp.tables r' hr] at hb
      exact .inl hb

/-- In every state that grouped operations reach, every pool is conserved, and no growth
from there hands out a block that is still referenced. -/
theorem grouped_pool_conservation (H : PyHash) {s : KvCacheManager × List Snapshot}
    (hs : (separatedMachine H).Reachable s) :
    (∀ pool ∈ s.1.groupPools, PoolConserved s.1 s.2 pool) ∧
      ∀ r t partition, List.Forall₂ (fun pool pool' : GroupBlockPool =>
        ∀ r' b, some b ∈ pool'.table r' →
          some b ∈ pool.table r' ∨ (pool.blocks b).refCnt = 0)
        s.1.groupPools (s.1.ensureGroupBlocks r t partition).2.groupPools := by
  have hinv := groupInv_of_reachable hs
  exact ⟨fun pool hpool => hinv.balanced.poolConserved hpool,
    fun r t partition => hinv.balanced.ensure_fresh r t partition⟩

/-- A block hash without collisions: the code of the pair. -/
def encodingHash : PyHash where
  noneHash := -1
  hash parent tokens := (Encodable.encode (parent, tokens) : Nat)

theorem encodingHash_collisionFree : encodingHash.CollisionFree where
  hash_inj h := by
    have := Encodable.encode_injective (Int.ofNat.inj h)
    exact ⟨congrArg Prod.fst this, congrArg Prod.snd this⟩
  hash_ne_none p ts := by
    show ((Encodable.encode (p, ts) : Nat) : Int) ≠ -1
    omega

/-- A rolling group of two slots with two-token pages. -/
def rollingSpec : KVCacheGroupSpec where
  name := "swa"
  layerIndices := [0]
  spec := .uncompressed 2 1 Nat.two_pos Nat.one_pos
  maxBlocksPerSeq := 2
  numBlocks := none
  numPartitions := 1
  slidingWindow := some 2
  isEagleGroup := false
  name_ne := by decide
  maxBlocksPerSeq_pos := by decide
  numBlocks_pos := by simp
  numPartitions_pos := by decide
  window_pos := by simp
  window_dvd := by decide
  window_fits := by decide

def rollingManager : KvCacheManager where
  pyHash := encodingHash
  blockSize := 2
  enablePrefixCache := true
  groupPools := [GroupBlockPool.new rollingSpec 4]

/-- Two growths of one request, the second of which moves the ring on. -/
def rotatedManager : KvCacheManager :=
  (rollingManager.runOp (.ensure "a" 4 none)).runOp (.ensure "a" 6 none)

theorem rotatedManager_reachable :
    (separatedMachine encodingHash).Reachable (rotatedManager, []) := by
  have h0 : (separatedMachine encodingHash).Reachable (rollingManager, []) :=
    .start ⟨rfl, { pyHash := encodingHash, blockSize := 2, enablePrefixCache := true },
      [rollingSpec], 2, none, rfl, rfl, rfl, rfl⟩
  have h1 : (separatedMachine encodingHash).Reachable
      (rollingManager.runOp (.ensure "a" 4 none), []) :=
    Machine.Reachable.next (a := .ensure "a" 4 none) h0 ⟨⟨rfl, rfl⟩, trivial⟩
  exact Machine.Reachable.next (a := .ensure "a" 6 none) h1 ⟨⟨rfl, rfl⟩, trivial⟩

theorem grouped_pool_conservation_rotated :
    ∃ pool ∈ rotatedManager.groupPools, PoolConserved rotatedManager [] pool := by
  have hpool : rotatedManager.groupPools.get ⟨0, by decide⟩ ∈ rotatedManager.groupPools :=
    List.get_mem _ _
  exact ⟨_, hpool,
    (grouped_pool_conservation encodingHash rotatedManager_reachable).1 _ hpool⟩

end KvCacheManager
end PyptoServing.Memory
