import PyptoServing.Memory.Partitions
import PyptoServing.Memory.Publication

/-!
# Growth is all or nothing

`can_ensure_group_blocks` counts what every group needs; `ensure_group_blocks` grows every
group or refuses. The count is exact. Only a table with empty slots past the requested
length cannot be read back after the growth.
-/
namespace PyptoServing.Memory

open Lib Lib.Fallible Config

namespace GroupBlockPool
variable {pool pool' : GroupBlockPool} {pins : BlockId → Nat} {r : RequestId} {p : Nat}

/-- A block just taken carries no hash. -/
theorem takeGroupBlock_hash {b : BlockId} (h : pool.takeGroupBlock p = .ok (b, pool')) :
    (pool'.blocks b).blockHash = none := by
  unfold takeGroupBlock at h
  split at h
  · cases h
  · dsimp only at h
    split at h
    · cases h
    · cases h
      rw [modifyBlock_blocks, BlockHeap.modify_self, invalidate_blocks, BlockHeap.modify_self]

/-- A fresh block without a hash is bound to one slot of the table. -/
structure Rebinds (pool pool' : GroupBlockPool) (r : RequestId) (slot : Nat) (b : BlockId) :
    Prop where
  spec : pool'.spec = pool.spec
  requestLogicalBlocks : pool'.requestLogicalBlocks = pool.requestLogicalBlocks
  table : pool'.table r = (pool.table r).set slot (some b)
  hash : (pool'.blocks b).blockHash = none

theorem Rebinds.other {slot s : Nat} {b : BlockId} (h : Rebinds pool pool' r slot b)
    (hs : s ≠ slot) : (pool'.table r)[s]? = (pool.table r)[s]? := by
  rw [h.table, List.getElem?_set_ne (Ne.symm hs)]

/-- Binding a block taken from a pool with the same tables. -/
theorem rebinds_of_take {mid : GroupBlockPool} {slot : Nat} (hsame : SameTables pool mid)
    (h : (mid.takeGroupBlock p >>= fun x => (.ok (x.2.setSlot r slot x.1) : Except KvError _)) =
      .ok pool') : ∃ b, Rebinds pool pool' r slot b := by
  obtain ⟨⟨b, taken⟩, htake, h⟩ := bind_eq_ok.mp h
  cases h
  have ht := hsame.trans (sameTables_takeGroupBlock htake)
  have hhash : (taken.blocks b).blockHash = none := takeGroupBlock_hash htake
  exact ⟨b, ht.spec, ht.requestLogicalBlocks, by rw [setSlot_table_self, ht.table], hhash⟩

theorem fillSlot_cases {slot : Nat} (h : fillSlot r p pool slot = .ok pool') :
    pool' = pool ∨ ∃ b, Rebinds pool pool' r slot b := by
  unfold fillSlot at h
  split at h
  · cases h
  · cases h
    exact .inl rfl
  · exact .inr (rebinds_of_take (.refl pool) h)

theorem rotateSlot_cases {i : Nat} (h : rotateSlot r p pool i = .ok pool') :
    pool' = pool ∧ i < pool.ringSize ∨
      pool.ringSize ≤ i ∧ ∃ b, Rebinds pool pool' r (i % pool.ringSize) b := by
  unfold rotateSlot at h
  split at h
  · next hi =>
    cases h
    exact .inl ⟨rfl, hi⟩
  · next hi =>
    refine .inr ⟨not_lt.mp hi, ?_⟩
    dsimp only at h
    split at h
    · cases h
    · cases h
    · next c hc =>
      split at h
      · exact rebinds_of_take (sameTables_modifyBlock pool c _) h
      · exact rebinds_of_take ((sameTables_modifyBlock pool c _).trans (sameTables_pushFree _ p c)) h

/-- A growth leaves the slots past the requested length alone. -/
theorem ensureTable_far {t s : Nat} (h : pool.ensureTable r p t = .ok pool')
    (hs : pool.tableSize (pool.logicalGroupBlocks t) ≤ s) (hlt : s < (pool.table r).length) :
    (pool'.table r)[s]? = (pool.table r)[s]? := by
  set size := pool.tableSize (pool.logicalGroupBlocks t) with hsize
  unfold ensureTable at h
  obtain ⟨pool₁, hfill, h⟩ := bind_eq_ok.mp h
  have hopen : ((pool.openTable r p size).table r)[s]? = (pool.table r)[s]? := by
    rw [openTable_table_self, List.getElem?_append_left hlt]
  have h₁ : pool₁.spec = pool.spec ∧ (pool₁.table r)[s]? = (pool.table r)[s]? := by
    refine foldlM_keeps_mem (I := fun q : GroupBlockPool => q.spec = pool.spec ∧
      (q.table r)[s]? = (pool.table r)[s]?) _ ?_ _ _ hfill ⟨rfl, hopen⟩
    rintro slot hslot q q' hok ⟨hspec, hget⟩
    have := List.mem_range.mp hslot
    rcases fillSlot_cases hok with rfl | ⟨b, hb⟩
    · exact ⟨hspec, hget⟩
    · exact ⟨hb.spec.trans hspec, (hb.other (by omega)).trans hget⟩
  dsimp only at h
  split at h
  · next hroll =>
    obtain ⟨pool₂, hrotate, h⟩ := bind_eq_ok.mp h
    cases h
    have h₂ : pool₂.spec = pool.spec ∧ (pool₂.table r)[s]? = (pool.table r)[s]? := by
      refine foldlM_keeps_mem (I := fun q : GroupBlockPool => q.spec = pool.spec ∧
        (q.table r)[s]? = (pool.table r)[s]?) _ ?_ _ _ hrotate h₁
      rintro i hi q q' hok ⟨hspec, hget⟩
      rcases rotateSlot_cases hok with ⟨rfl, -⟩ | ⟨hring, b, hb⟩
      · exact ⟨hspec, hget⟩
      · refine ⟨hb.spec.trans hspec, ?_⟩
        have hr : q.ringSize = pool.ringSize := by rw [ringSize, ringSize, hspec]
        rw [hr] at hring hb
        have hmod : i % pool.ringSize < pool.ringSize :=
          Nat.mod_lt i pool.spec.maxBlocksPerSeq_pos
        have hbound := List.mem_range'_1.mp hi
        have hfull : size = min (pool.logicalGroupBlocks t) pool.ringSize := by
          rw [hsize, tableSize, if_pos]
          rw [← hroll, rolling, rolling, h₁.1]
        exact (hb.other (by omega)).trans hget
    exact h₂.2
  · cases h
    exact h₁.2

/-- The empty slots after a growth are the ones past the requested length. -/
theorem Grown.gap {t : Nat} (h : Grown pool pins r p t pool') (hok : pool.ensureTable r p t = .ok pool') :
    none ∈ pool'.table r ↔
      none ∈ (pool.table r).drop (pool.tableSize (pool.logicalGroupBlocks t)) := by
  constructor
  · intro hmem
    obtain ⟨s, hs⟩ := List.getElem?_of_mem hmem
    have hlt := (List.getElem?_eq_some_iff.mp hs).1
    rw [h.length] at hlt
    have hge : pool.tableSize (pool.logicalGroupBlocks t) ≤ s := by
      by_contra hlt'
      obtain ⟨c, hc⟩ := h.filled s (not_le.mp hlt')
      rw [hc] at hs
      cases hs
    rw [ensureTable_far hok hge (by omega)] at hs
    refine List.mem_iff_getElem?.mpr
      ⟨s - pool.tableSize (pool.logicalGroupBlocks t), ?_⟩
    rw [List.getElem?_drop, Nat.add_sub_cancel' hge, hs]
  · intro hmem
    obtain ⟨k, hk⟩ := List.getElem?_of_mem hmem
    rw [List.getElem?_drop] at hk
    refine List.mem_of_getElem? (i := pool.tableSize (pool.logicalGroupBlocks t) + k) ?_
    rw [ensureTable_far hok (by omega) (List.getElem?_eq_some_iff.mp hk).1, hk]

/-- No partition has more free blocks than blocks. -/
theorem numFreeBlocksIn_le (h : PoolInv pool pins) (hp : p < pool.spec.numPartitions) :
    pool.numFreeBlocksIn p ≤ pool.blocksPerPartition := by
  obtain ⟨free, hc⟩ := h.conserved
  have hsub : free p ⊆ List.range' (p * pool.blocksPerPartition) pool.blocksPerPartition := by
    intro b hb
    obtain ⟨hlt, hhome⟩ := hc.inPartition p hp b hb
    have hpos : 0 < pool.blocksPerPartition := by
      rw [totalBlocks] at hlt
      exact Nat.pos_of_mul_pos_left (Nat.zero_lt_of_lt hlt)
    have hdiv : b / pool.blocksPerPartition = p := hhome
    have hmod := Nat.div_add_mod b pool.blocksPerPartition
    have hmlt := Nat.mod_lt b hpos
    rw [hdiv, Nat.mul_comm] at hmod
    exact List.mem_range'_1.mpr ⟨by omega, by omega⟩
  have hle := ((hc.spells p hp).isQueue.nodup.subperm hsub).length_le
  rwa [List.length_range', ← hc.length_eq hp] at hle

/-- The ids of a table without empty slots. -/
theorem tableIds_full {bs : List BlockId} (h : pool.table r = bs.map some) :
    pool.tableIds r = .ok (bs.map pool.localBlockId) := by
  rw [tableIds, h, mapM_eq_ok, List.forall₂_map_left_iff, List.forall₂_map_right_iff]
  exact List.forall₂_same.mpr fun _ _ => rfl

/-- A table with an empty slot is not read back. -/
theorem tableIds_gap {ids : List Nat} (h : pool.tableIds r = .ok ids) : none ∉ pool.table r := by
  intro hmem
  obtain ⟨id, -, hid⟩ := forall₂_mem_right (mapM_eq_ok.mp h).flip hmem
  cases hid

end GroupBlockPool

namespace KvCacheManager

open GroupBlockPool

variable {m m' : KvCacheManager} {snaps : List Snapshot} {r : RequestId} {p t : Nat}

/-- `can_ensure_group_blocks`. -/
def canEnsure (m : KvCacheManager) (requestId : RequestId) (tokenCount : Int)
    (partition : Option Nat) : Except KvError Bool :=
  if tokenCount < 0 then .error (.value "token_count must not be negative")
  else
    match partition with
    | some p => .ok (m.canEnsureGroupBlocks requestId tokenCount.toNat p)
    | none => .ok (!(m.candidateGroupPartitions requestId tokenCount.toNat).isEmpty)

/-- `ensure_group_blocks` with its check of the token count. -/
def ensure (m : KvCacheManager) (requestId : RequestId) (tokenCount : Int)
    (partition : Option Nat) : Except KvError GroupTables × KvCacheManager :=
  if m.groupPools = [] then (.ok ∅, m)
  else if tokenCount < 0 then (.error (.value "token_count must not be negative"), m)
  else m.ensureGroupBlocks requestId tokenCount.toNat partition

/-- Partition `p` is open to the request and has the blocks that every group needs. -/
structure HasRoom (m : KvCacheManager) (r : RequestId) (t p : Nat) : Prop where
  lt_count : p < m.groupPartitionCount
  assigned : ∀ q, m.groupRequestPartition r = some q → q = p
  room : ∀ pool ∈ m.groupPools, pool.additionalGroupBlocks r t ≤ pool.numFreeBlocksIn p

theorem canEnsureGroupBlocks_iff : m.canEnsureGroupBlocks r t p = true ↔ HasRoom m r t p := by
  constructor
  · intro h
    obtain ⟨ha, hlt, hcand⟩ := canEnsure_spec h
    exact ⟨hlt, ha, candidate_room hcand⟩
  · rintro ⟨hlt, ha, hroom⟩
    have hall : (m.groupPools.all fun pool =>
        decide (pool.additionalGroupBlocks r t ≤ pool.numFreeBlocksIn p)) = true := by
      rw [List.all_eq_true]
      exact fun pool hpool => decide_eq_true (hroom pool hpool)
    unfold canEnsureGroupBlocks candidateGroupPartitions
    split
    · next q hq =>
      cases ha q hq
      simp only [Bool.and_eq_true, decide_eq_true_eq]
      exact ⟨⟨trivial, hlt⟩, List.mem_filter.mpr ⟨by simp, hall⟩⟩
    · next hq =>
      simp only [Bool.and_eq_true, decide_eq_true_eq]
      exact ⟨hlt, List.mem_filter.mpr ⟨List.mem_range.mpr hlt, hall⟩⟩

/-- The partition of a request with one is a partition of the pools. -/
theorem Balanced.assigned_lt (h : Balanced m snaps) (hg : m.groupPools ≠ [])
    (hp : m.groupRequestPartition r = some p) : p < m.groupPartitionCount := by
  obtain ⟨pool, hpool⟩ := List.exists_mem_of_ne_nil _ hg
  rw [← h.partitions pool hpool]
  exact (h.pools pool hpool).tables.partition_lt r p (by rw [h.assigned pool hpool]; exact hp)

theorem mem_candidates_iff (h : Balanced m snaps) (hg : m.groupPools ≠ []) :
    p ∈ m.candidateGroupPartitions r t ↔ HasRoom m r t p := by
  constructor
  · intro hmem
    have hroom := candidate_room hmem
    have hin := (List.mem_filter.mp hmem).1
    split at hin
    · next q hq =>
      cases List.mem_singleton.mp hin
      exact ⟨h.assigned_lt hg hq, fun q hq' => Option.some.inj (hq'.symm.trans hq), hroom⟩
    · next hq => exact ⟨List.mem_range.mp hin, fun q hq' => by simp [hq] at hq', hroom⟩
  · exact fun hroom => (canEnsure_spec (canEnsureGroupBlocks_iff.mpr hroom)).2.2

/-- A full-history group that cannot address the tokens asks for more than a partition has. -/
theorem HasRoom.fits (h : HasRoom m r t p) (hb : Balanced m snaps) : m.oversizedGroups t = [] := by
  rw [oversizedGroups, List.map_eq_nil_iff, List.filter_eq_nil_iff]
  intro pool hpool hover
  simp only [Bool.and_eq_true, Bool.not_eq_true', decide_eq_true_eq] at hover
  have hroom := h.room pool hpool
  have hle := numFreeBlocksIn_le (hb.pools pool hpool) (p := p)
    (by rw [hb.partitions pool hpool]; exact h.lt_count)
  simp only [additionalGroupBlocks, hover.1] at hroom
  rw [if_pos (by simp), if_pos hover.2] at hroom
  omega

/-- The round robin visits every partition. -/
theorem exists_offset {next count : Nat} (hp : p < count) :
    p ∈ (List.range count).map fun offset => (next + offset) % count := by
  have hnext := Nat.mod_lt next (by omega : 0 < count)
  refine List.mem_map.mpr ⟨(p + count - next % count) % count, List.mem_range.mpr
    (Nat.mod_lt _ (by omega)), ?_⟩
  calc (next + (p + count - next % count) % count) % count
      = (next % count + (p + count - next % count)) % count := by
        rw [Nat.add_mod_mod, Nat.mod_add_mod]
    _ = (p + count) % count := by rw [Nat.add_sub_cancel' (by omega)]
    _ = p := by rw [Nat.add_mod_right, Nat.mod_eq_of_lt hp]

/-- The selection finds a partition exactly when there is one with room. -/
theorem selectGroupPartition_spec (h : Balanced m snaps) (hg : m.groupPools ≠ []) (r : RequestId)
    (t : Nat) :
    (∃ p next, m.selectGroupPartition r t = .ok (some p, next) ∧ HasRoom m r t p) ∨
      m.selectGroupPartition r t = .ok (none, m.nextGroupPartition) ∧
        ∀ p, ¬ HasRoom m r t p := by
  unfold selectGroupPartition
  dsimp only
  split
  · next hnil =>
    refine .inr ⟨rfl, fun p hp => ?_⟩
    have := (mem_candidates_iff h hg).mpr hp
    rw [hnil] at this
    cases this
  · next hne =>
    left
    obtain ⟨c, hc⟩ := List.exists_mem_of_ne_nil _ hne
    split
    · next q hq =>
      have hroom := (mem_candidates_iff h hg).mp hc
      have hcq := hroom.assigned q hq
      exact ⟨q, _, rfl, hcq ▸ hroom⟩
    · next hq =>
      split
      · next p hfound =>
        have hleast := List.find?_some hfound
        rw [decide_eq_true_eq] at hleast
        exact ⟨p, _, rfl, (mem_candidates_iff h hg).mp (List.mem_filter.mp hleast).1⟩
      · next hnone =>
        obtain ⟨least, hmin⟩ : ∃ n,
            ((m.candidateGroupPartitions r t).map m.ownedCount).min? = some n :=
          Option.isSome_iff_exists.mp (by
            rw [List.isSome_min?_iff]
            exact List.ne_nil_of_mem (List.mem_map_of_mem hc))
        obtain ⟨q, hq, hload⟩ := List.mem_map.mp (List.min?_eq_some_iff.mp hmin).1
        rw [List.find?_eq_none] at hnone
        have hroom := (mem_candidates_iff h hg).mp hq
        refine absurd ?_ (hnone q (exists_offset hroom.lt_count))
        rw [decide_eq_true_eq, hmin]
        exact List.mem_filter.mpr ⟨hq, decide_eq_true hload⟩

/-- The partitions that a call may use. -/
def Allows (partition : Option Nat) (p : Nat) : Prop := ∀ q, partition = some q → q = p

theorem canEnsure_iff (h : Balanced m snaps) (hg : m.groupPools ≠ []) {t : Int}
    {partition : Option Nat} :
    m.canEnsure r t partition = .ok true ↔
      0 ≤ t ∧ ∃ p, Allows partition p ∧ HasRoom m r t.toNat p := by
  unfold canEnsure
  split
  · next hneg =>
    constructor
    · intro hc
      cases hc
    · rintro ⟨hpos, -⟩
      omega
  · next hpos =>
    split
    · next q =>
      rw [Except.ok.injEq, canEnsureGroupBlocks_iff]
      constructor
      · exact fun hroom => ⟨by omega, q, fun _ he => (Option.some.inj he).symm, hroom⟩
      · rintro ⟨-, p, hp, hroom⟩
        exact hp q rfl ▸ hroom
    · rw [Except.ok.injEq, Bool.not_eq_true', List.isEmpty_eq_false_iff_exists_mem]
      constructor
      · rintro ⟨p, hp⟩
        exact ⟨by omega, p, fun _ he => (by cases he), (mem_candidates_iff h hg).mp hp⟩
      · rintro ⟨-, p, -, hroom⟩
        exact ⟨p, (mem_candidates_iff h hg).mpr hroom⟩

/-- With room in an allowed partition every pool grows. -/
theorem ensureGroupBlocks_grows (h : Balanced m snaps) (hg : m.groupPools ≠ [])
    {partition : Option Nat} (hp : Allows partition p) (hroom : HasRoom m r t p) :
    ∃ q next m', Allows partition q ∧ GrownIn { m with nextGroupPartition := next } snaps r q t m' ∧
      m.ensureGroupBlocks r t partition = (m'.groupTables r, m') := by
  have hfits := hroom.fits h
  have hgrow : ∀ q next, HasRoom m r t q →
      ∃ m', GrownIn { m with nextGroupPartition := next } snaps r q t m' ∧
        growGroups { m with nextGroupPartition := next } r q t = (m'.groupTables r, m') := by
    intro q next hq
    have hb : Balanced { m with nextGroupPartition := next } snaps :=
      ⟨h.pools, h.partitions, h.assigned, h.addressed⟩
    exact growGroups_spec hb hfits (canEnsureGroupBlocks_iff.mpr ⟨hq.lt_count, hq.assigned, hq.room⟩)
  have hstay : (partition.bind fun q => (m.groupRequestPartition r).filter (· ≠ q)) = none := by
    cases partition with
    | none => rfl
    | some q =>
      cases ha : m.groupRequestPartition r with
      | none => simp
      | some a => simp [hroom.assigned a ha, hp q rfl]
  cases partition with
  | some q =>
    have hq : HasRoom m r t q := hp q rfl ▸ hroom
    obtain ⟨m', hin, hres⟩ := hgrow q m.nextGroupPartition hq
    refine ⟨q, m.nextGroupPartition, m', fun _ he => (Option.some.inj he).symm, hin, ?_⟩
    unfold ensureGroupBlocks growthPartition
    rw [if_neg hg, if_neg (not_not.mpr hfits), hstay]
    dsimp only
    rw [if_pos (canEnsureGroupBlocks_iff.mpr hq)]
    exact hres
  | none =>
    rcases selectGroupPartition_spec h hg r t with ⟨q, next, hsel, hq⟩ | ⟨-, hnone⟩
    · obtain ⟨m', hin, hres⟩ := hgrow q next hq
      refine ⟨q, next, m', fun _ he => (by cases he), hin, ?_⟩
      unfold ensureGroupBlocks growthPartition
      rw [if_neg hg, if_neg (not_not.mpr hfits), hstay]
      dsimp only
      rw [hsel]
      dsimp only
      rw [if_pos (canEnsureGroupBlocks_iff.mpr hq)]
      exact hres
    · exact absurd hroom (hnone p)

/-- The errors that callers of the cache manager handle. -/
def Refusal (e : KvError) : Prop := ∃ message, e = .capacity message ∨ e = .value message

/-- Without room the call is refused and changes nothing. -/
theorem ensureGroupBlocks_refused (h : Balanced m snaps) (hg : m.groupPools ≠ [])
    {partition : Option Nat} (hno : ∀ p, Allows partition p → ¬ HasRoom m r t p) :
    ∃ e, Refusal e ∧ m.ensureGroupBlocks r t partition = (.error e, m) := by
  unfold ensureGroupBlocks
  rw [if_neg hg]
  split
  · exact ⟨_, ⟨_, .inl rfl⟩, rfl⟩
  · split
    · exact ⟨_, ⟨_, .inr rfl⟩, rfl⟩
    · cases partition with
      | some q =>
        have hcan : ¬ m.canEnsureGroupBlocks r t q = true := fun hc =>
          hno q (fun _ he => (Option.some.inj he).symm) (canEnsureGroupBlocks_iff.mp hc)
        rw [growthPartition]
        dsimp only
        rw [if_neg hcan]
        exact ⟨_, ⟨_, .inl rfl⟩, rfl⟩
      | none =>
        rcases selectGroupPartition_spec h hg r t with ⟨q, next, -, hq⟩ | ⟨hsel, -⟩
        · exact absurd hq (hno q fun _ he => (by cases he))
        · rw [growthPartition, hsel]
          exact ⟨_, ⟨_, .inl rfl⟩, rfl⟩

/-- No empty slot lies past the slots that `t` tokens use. -/
def FilledPast (m : KvCacheManager) (r : RequestId) (t : Nat) : Prop :=
  ∀ pool ∈ m.groupPools, none ∉ (pool.table r).drop (pool.tableSize (pool.logicalGroupBlocks t))

/-- A full table of different blocks of one partition, as long as before or as needed. -/
structure FullTable (r : RequestId) (t p : Nat) (tables : GroupTables)
    (pool pool' : GroupBlockPool) (bs : List BlockId) : Prop where
  table : pool'.table r = bs.map some
  length : bs.length = max (pool.table r).length (pool.tableSize (pool.logicalGroupBlocks t))
  nodup : bs.Nodup
  inPartition : ∀ b ∈ bs, pool'.InPartition p b
  returned : groupEntry tables pool' = bs.map pool'.localBlockId

theorem exists_map_some {α : Type} {l : List (Option α)} (h : none ∉ l) :
    ∃ bs : List α, l = bs.map some := by
  induction l with
  | nil => exact ⟨[], rfl⟩
  | cons x l ih =>
    simp only [List.mem_cons, not_or] at h
    obtain ⟨bs, rfl⟩ := ih h.2
    cases x with
    | none => exact absurd rfl h.1
    | some b => exact ⟨b :: bs, rfl⟩

/-- The tables are read back when no slot is empty. -/
theorem groupTables_isOk : (m.groupTables r).isOk = true ↔
    ∀ pool ∈ m.groupPools, none ∉ pool.table r := by
  cases htables : m.groupTables r with
  | ok tables =>
    refine ⟨fun _ pool hpool => ?_, fun _ => rfl⟩
    obtain ⟨pairs, hpairs, -⟩ := bind_eq_ok.mp htables
    obtain ⟨e, -, he⟩ := forall₂_mem_right (mapM_eq_ok.mp hpairs).flip hpool
    obtain ⟨ids, hids, -⟩ := bind_eq_ok.mp he
    exact tableIds_gap hids
  | error e =>
    obtain ⟨pool, hpool, hmem, -⟩ := groupTables_error htables
    exact ⟨fun h => (by cases h), fun h => absurd hmem (h pool hpool)⟩

theorem GrownIn.filled_iff (hg : GrownIn m snaps r p t m') :
    (m'.groupTables r).isOk = true ↔ FilledPast m r t := by
  rw [groupTables_isOk]
  constructor
  · intro h pool hpool hmem
    obtain ⟨pool', hpool', hok, hgrown⟩ := forall₂_mem_right hg.pools.flip hpool
    exact h pool' hpool' ((hgrown.gap hok).mpr hmem)
  · intro h pool' hpool' hmem
    obtain ⟨pool, hpool, hok, hgrown⟩ := forall₂_mem_right hg.pools hpool'
    exact h pool hpool ((hgrown.gap hok).mp hmem)

/-- What a growth that is read back returns. -/
theorem GrownIn.full (hg : GrownIn m snaps r p t m') (hb : Balanced m' snaps)
    (hnames : m'.groupNames.Nodup) {tables : GroupTables} (ht : m'.groupTables r = .ok tables) :
    List.Forall₂ (fun pool pool' => ∃ bs, FullTable r t p tables pool pool' bs)
      m.groupPools m'.groupPools := by
  have hfull := groupTables_isOk.mp (by rw [ht]; rfl : (m'.groupTables r).isOk = true)
  have hids := (groupTables_spec ht hnames).2
  have hmem : ∀ pool' ∈ m'.groupPools, ∀ bs : List BlockId, pool'.table r = bs.map some →
      bs.Nodup ∧ groupEntry tables pool' = bs.map pool'.localBlockId ∧
        ∀ b ∈ bs, pool'.InPartition p b := by
    intro pool' hpool' bs hbs
    have hinv := hb.pools pool' hpool'
    refine ⟨?_, ?_, fun b hmem => ?_⟩
    · rw [List.nodup_iff_count_le_one]
      intro b
      have := hinv.tables.distinct r b
      rwa [hbs, List.count_map_of_injective _ _ (Option.some_injective _)] at this
    · have := hids pool' hpool'
      rw [tableIds_full hbs] at this
      exact (Except.ok.inj this).symm
    · obtain ⟨q, hq, hin⟩ := hinv.tables.entries r b (by rw [hbs]; exact List.mem_map_of_mem hmem)
      rw [hb.assigned pool' hpool', groupRequestPartition, hg.partitions,
        Dict.lookup_setDefault_self] at hq
      cases ha : m.groupRequestPartitions.lookup r with
      | none =>
        rw [ha] at hq
        cases hq
        exact hin
      | some q' =>
        rw [ha] at hq
        cases hq
        exact hg.assigned _ ha ▸ hin
  refine (forall₂_imp_mem hg.pools.flip fun pool' hpool' pool hgrown => ?_).flip
  obtain ⟨bs, hbs⟩ := exists_map_some (hfull pool' hpool')
  obtain ⟨hnodup, hentry, hin⟩ := hmem pool' hpool' bs hbs
  refine ⟨bs, hbs, ?_, hnodup, hin, hentry⟩
  rw [← hgrown.2.length, hbs, List.length_map]

/-- What callers rely on: a refusal changes nothing, a success fills every table, and
`can_ensure_group_blocks` tells which of the two happens. -/
structure AllOrNothing (m : KvCacheManager) (r : RequestId) (t : Int) (partition : Option Nat) :
    Prop where
  refused : ∀ e m', m.ensure r t partition = (.error e, m') →
    Refusal e ∧ m'.groupPools = m.groupPools ∧
      m'.groupRequestPartitions = m.groupRequestPartitions
  grown : ∀ tables m', m.ensure r t partition = (.ok tables, m') →
    ∃ p, Allows partition p ∧ m'.groupRequestPartition r = some p ∧
      List.Forall₂ (fun pool pool' => ∃ bs, FullTable r t.toNat p tables pool pool' bs)
        m.groupPools m'.groupPools
  succeeds_iff : (m.ensure r t partition).1.isOk = true ↔ m.canEnsure r t partition = .ok true
  room_iff : m.canEnsure r t partition = .ok true ↔
    0 ≤ t ∧ ∃ p, Allows partition p ∧ HasRoom m r t.toNat p

theorem ensure_of_nonneg (hg : m.groupPools ≠ []) {t : Int} (ht : 0 ≤ t) (partition : Option Nat) :
    m.ensure r t partition = m.ensureGroupBlocks r t.toNat partition := by
  rw [ensure, if_neg hg, if_neg (by omega)]

/-- A refused growth is all or nothing. -/
theorem AllOrNothing.of_refused (h : Balanced m snaps) (hg : m.groupPools ≠ []) {t : Int}
    {partition : Option Nat} (hcan : m.canEnsure r t partition ≠ .ok true) :
    AllOrNothing m r t partition := by
  have hres : ∃ e, Refusal e ∧ m.ensure r t partition = (.error e, m) := by
    by_cases ht : t < 0
    · refine ⟨.value "token_count must not be negative", ⟨_, .inr rfl⟩, ?_⟩
      rw [ensure, if_neg hg, if_pos ht]
    · rw [ensure_of_nonneg hg (by omega)]
      refine ensureGroupBlocks_refused h hg fun p hp hroom => hcan ?_
      exact (canEnsure_iff h hg).mpr ⟨by omega, p, hp, hroom⟩
  obtain ⟨e, he, hres⟩ := hres
  refine ⟨fun e' m' h' => ?_, fun tables m' h' => ?_, ?_, canEnsure_iff h hg⟩
  · rw [hres] at h'
    cases h'
    exact ⟨he, rfl, rfl⟩
  · rw [hres] at h'
    cases h'
  · rw [hres]
    exact ⟨fun hok => (by cases hok), fun hok => absurd hok hcan⟩

/-- A growth whose tables are read back is all or nothing. -/
theorem AllOrNothing.of_grown (h : Balanced m snaps) (hg : m.groupPools ≠ [])
    (hnames : m.groupNames.Nodup) {t : Int} {partition : Option Nat}
    (hcan : m.canEnsure r t partition = .ok true) (hfill : FilledPast m r t.toNat) :
    AllOrNothing m r t partition := by
  obtain ⟨hpos, p, hp, hroom⟩ := (canEnsure_iff h hg).mp hcan
  obtain ⟨q, next, m₁, hq, hin, hres⟩ := ensureGroupBlocks_grows h hg hp hroom
  rw [← ensure_of_nonneg hg hpos] at hres
  have hok : (m₁.groupTables r).isOk = true := hin.filled_iff.mpr hfill
  refine ⟨fun e m' h' => ?_, fun tables m' h' => ?_, ?_, canEnsure_iff h hg⟩
  · rw [hres] at h'
    injection h' with herr
    rw [herr] at hok
    cases hok
  · rw [hres] at h'
    injection h' with htables hm
    subst hm
    have hb : Balanced { m with nextGroupPartition := next } snaps :=
      ⟨h.pools, h.partitions, h.assigned, h.addressed⟩
    have hassigned : m₁.groupRequestPartition r = some q := by
      rw [groupRequestPartition, hin.partitions, Dict.lookup_setDefault_self]
      cases ha : m.groupRequestPartition r with
      | none =>
        rw [groupRequestPartition] at ha
        rw [ha]
        rfl
      | some a =>
        have := hin.assigned a ha
        rw [groupRequestPartition] at ha
        rw [ha, ← this]
        rfl
    refine ⟨q, hq, hassigned, hin.full (hb.grown hin) ?_ htables⟩
    rw [hin.keeps.groupNames]
    exact hnames
  · rw [hres]
    exact ⟨fun _ => hcan, fun _ => hok⟩

/-- A growth is all or nothing unless it goes through and the table keeps an empty slot past
the requested length. -/
theorem ensure_all_or_nothing_iff {H : PyHash} {s : KvCacheManager × List Snapshot}
    (hs : (separatedMachine H).Reachable s) (hg : s.1.groupPools ≠ []) (r : RequestId) (t : Int) (partition : Option Nat) :
    AllOrNothing s.1 r t partition ↔
      (s.1.canEnsure r t partition = .ok true → FilledPast s.1 r t.toNat) := by
  obtain ⟨hb, -, hnames⟩ := groupInv_of_reachable hs
  by_cases hcan : s.1.canEnsure r t partition = .ok true
  · refine ⟨fun hall _ => ?_, fun hfill => .of_grown hb hg hnames hcan (hfill hcan)⟩
    obtain ⟨hpos, p, hp, hroom⟩ := (canEnsure_iff hb hg).mp hcan
    obtain ⟨q, next, m', -, hin, hres⟩ := ensureGroupBlocks_grows hb hg hp hroom
    have hok := hall.succeeds_iff.mpr hcan
    rw [ensure_of_nonneg hg hpos, hres] at hok
    exact hin.filled_iff.mp hok
  · exact ⟨fun _ h => absurd h hcan, fun _ => .of_refused hb hg hcan⟩

/-- A rolling group of three slots with two-token pages and a window of one page. -/
def wideRingSpec : KVCacheGroupSpec :=
  { rollingSpec with
    maxBlocksPerSeq := 3
    maxBlocksPerSeq_pos := by decide
    window_fits := by decide }

def wideRingManager : KvCacheManager where
  pyHash := encodingHash
  blockSize := 2
  enablePrefixCache := true
  groupPools := [GroupBlockPool.new wideRingSpec 6]

/-- A request publishes three pages and another one resumes at them: of its table only the
page in the window is bound. -/
def resumedOps : List GroupOp :=
  [.ensure "a" 6 none,
    .cache "a" (wideRingManager.computeGroupBlockHashes [1, 2, 3, 4, 5, 6]) 6 ∅,
    .acquire "b" [1, 2, 3, 4, 5, 6] 6]

def resumedManager : KvCacheManager := resumedOps.foldl runOp wideRingManager

theorem resumedManager_reachable :
    (separatedMachine encodingHash).Reachable (resumedManager, []) := by
  have h0 : (groupMachine encodingHash).Reachable (wideRingManager, []) :=
    .start ⟨rfl, { pyHash := encodingHash, blockSize := 2, enablePrefixCache := true },
      [wideRingSpec], 2, none, rfl, rfl, rfl, rfl⟩
  have hrun : ∀ ops : List GroupOp, (∀ op ∈ ops, ∀ m, SnapshotStep m [] op []) → ∀ m,
      (groupMachine encodingHash).Reachable (m, []) →
      (groupMachine encodingHash).Reachable (ops.foldl runOp m, []) := by
    intro ops
    induction ops with
    | nil => exact fun _ _ h => h
    | cons op ops ih =>
      intro hops m hm
      exact ih (fun o ho => hops o (by simp [ho])) _
        (Machine.Reachable.next (a := op) hm ⟨rfl, hops op (by simp) m⟩)
  refine separated_of_reachable encodingHash_collisionFree
    (hrun resumedOps (fun op hop m => ?_) _ h0)
  simp only [resumedOps, List.mem_cons, List.not_mem_nil, or_false] at hop
  rcases hop with rfl | rfl | rfl <;> rfl

/-- The error of a call. -/
def errorOf (r : Except KvError GroupTables) : Option KvError :=
  match r with
  | .error e => some e
  | .ok _ => none

theorem ensure_all_or_nothing_resumed : AllOrNothing resumedManager "b" 8 none :=
  (ensure_all_or_nothing_iff resumedManager_reachable (by decide) "b" 8 none).mpr fun _ => by
      unfold FilledPast
      decide +kernel

/-- The resumed request asks for its first page only: slot 1 stays empty, and the call fails
after it took a block. -/
theorem ensure_short_of_hit : ¬ ∀ s : KvCacheManager × List Snapshot,
    (separatedMachine encodingHash).Reachable s → s.1.groupPools ≠ [] →
      ∀ r t partition, AllOrNothing s.1 r t partition := by
  intro hall
  have h := hall (resumedManager, []) resumedManager_reachable (by decide) "b" 2 none
  have herr : errorOf (resumedManager.ensure "b" 2 none).1 =
      some (.runtime "KV cache group 'swa' has an unallocated table slot") := by
    decide +kernel
  cases hres : resumedManager.ensure "b" 2 none with
  | mk res m' =>
    rw [hres] at herr
    cases res with
    | ok tables => cases herr
    | error e =>
      obtain ⟨⟨message, hcap | hval⟩, -⟩ := h.refused e m' hres
      · rw [hcap] at herr
        cases herr
      · rw [hval] at herr
        cases herr

end KvCacheManager
end PyptoServing.Memory
