import PyptoServing.Memory.Publication
import PyptoServing.Runner.CacheMetadata

/-!
# The ring on both sides

The manager gives blocks to logical blocks in a table that rolls over once it is full; the
runner gets the table alone and addresses it modulo its length. As long as a logical block is
retained both mean the same block.
-/
namespace PyptoServing.Runner

open Memory Memory.GroupBlockPool Memory.KvCacheManager

/-- The slot is one of the rows of the block. -/
def Lies (rows id : Nat) (slot : Int) : Prop := (id : Int) * rows ≤ slot ∧ slot < (id + 1) * rows

variable {ids : List Int} {blockSize ratio x y : Nat}

theorem storageSlot_nat (blockSize ratio : Nat) (ids : List Int) (x : Nat) :
    storageSlot blockSize ratio ids x =
      ringBlock ids (x / blockSize : Nat) * (blockSize / ratio : Nat) +
        (x % blockSize / ratio : Nat) := by
  rw [storageSlot]
  push_cast
  rfl

theorem ringSlot_eq (builder : DeepSeekV4CacheMetadataBuilder) (ids : List Int) (x : Int) :
    builder.ringSlot ids x = storageSlot builder.blockSize (1 : Nat) ids x := by
  rw [DeepSeekV4CacheMetadataBuilder.ringSlot, storageSlot, Nat.cast_one, Int.ediv_one, Int.ediv_one]

theorem storageSlot_lies (hblock : 0 < blockSize) (hdvd : ratio ∣ blockSize) {id : Nat}
    (hid : ringBlock ids (x / blockSize : Nat) = id) :
    Lies (blockSize / ratio) id (storageSlot blockSize ratio ids x) := by
  have hoffset : x % blockSize / ratio < blockSize / ratio :=
    Nat.div_lt_div_of_lt_of_dvd hdvd (Nat.mod_lt _ hblock)
  rw [storageSlot_nat, hid, Lies, add_mul, one_mul]
  generalize x % blockSize / ratio = offset at hoffset ⊢
  generalize blockSize / ratio = rows at hoffset ⊢
  omega

/-- Over as many logical blocks as the table is long, no slot comes twice. -/
theorem storageSlot_injective (lo : Nat) (hnodup : ids.Nodup) (hblock : 0 < blockSize)
    (hx : lo ≤ x / blockSize ∧ x / blockSize < lo + ids.length)
    (hy : lo ≤ y / blockSize ∧ y / blockSize < lo + ids.length)
    (h : storageSlot blockSize (1 : Nat) ids x = storageSlot blockSize (1 : Nat) ids y) : x = y := by
  have hids : ids ≠ [] := List.ne_nil_of_length_pos (by omega)
  rw [storageSlot_nat, storageSlot_nat, Nat.div_one, Nat.div_one, Nat.div_one] at h
  have hxm := Nat.mod_lt x hblock
  have hym := Nat.mod_lt y hblock
  have hpos : (0 : Int) < blockSize := by omega
  have hdiv := congrArg (fun slot : Int => slot / blockSize) h
  rw [Int.add_comm, Int.add_mul_ediv_right _ _ hpos.ne', Int.ediv_eq_zero_of_lt (by omega) (by omega),
    Int.add_comm (ringBlock ids (y / blockSize : Nat) * _), Int.add_mul_ediv_right _ _ hpos.ne',
    Int.ediv_eq_zero_of_lt (by omega) (by omega), zero_add, zero_add] at hdiv
  rw [hdiv] at h
  have hoffset : x % blockSize = y % blockSize := by omega
  have hslot : x / blockSize % ids.length = y / blockSize % ids.length := by
    have hxg := ringBlock_get (i := x / blockSize) hids
    have hyg := ringBlock_get (i := y / blockSize) hids
    rw [hdiv, ← hyg] at hxg
    exact (List.getElem?_inj (Nat.mod_lt _ (List.length_pos_iff.mpr hids)) hnodup).mp hxg
  have hblocks : x / blockSize = y / blockSize :=
    Lib.Ring.eq_of_mod_eq (R := ids.length) (n := lo + ids.length) (by omega) hx.2 (by omega) hy.2
      hslot
  rw [← Nat.div_add_mod x blockSize, ← Nat.div_add_mod y blockSize, hblocks, hoffset]

/-- A window over no more blocks than the table is long sees no slot twice. -/
theorem windowSlots_nodup (builder : DeepSeekV4CacheMetadataBuilder) (hnodup : ids.Nodup)
    (hblock : 0 < builder.blockSize)
    (hspan : x / builder.blockSize -
      (x + 1 - min builder.slidingWindow (x + 1)) / builder.blockSize < ids.length) :
    (builder.windowSlots ids x).Nodup := by
  refine List.Nodup.map_on (fun y hy z hz h => ?_) List.nodup_range'
  rw [ringSlot_eq, ringSlot_eq] at h
  rw [lastPositions, List.mem_range'_1] at hy hz
  have hle : ∀ w, x + 1 - min builder.slidingWindow (x + 1) ≤ w → w ≤ x →
      (x + 1 - min builder.slidingWindow (x + 1)) / builder.blockSize ≤ w / builder.blockSize ∧
        w / builder.blockSize ≤ x / builder.blockSize := fun w h1 h2 =>
    ⟨Nat.div_le_div_right h1, Nat.div_le_div_right h2⟩
  have hyb := hle y hy.1 (by omega)
  have hzb := hle z hz.1 (by omega)
  exact storageSlot_injective ((x + 1 - min builder.slidingWindow (x + 1)) / builder.blockSize)
    hnodup hblock (by omega) (by omega) h

section Scheduled
variable {pool : GroupBlockPool} {r : RequestId} {p A i : Nat} {led : Ledger} {sent : List Nat}
  (h : ScheduledTable pool r p A led sent)

include h

/-- No block stands in a table twice. -/
theorem scheduled_nodup : sent.Nodup := by
  rw [List.nodup_iff_injective_get]
  rintro ⟨s, hs⟩ ⟨s', hs'⟩ heq
  rw [h.length] at hs hs'
  obtain ⟨b, hget, hid, -, hblock⟩ := h.slot hs
  obtain ⟨b', hget', hid', -, hblock'⟩ := h.slot hs'
  have hlocal : pool.localBlockId b = pool.localBlockId b' := by
    rw [List.get_eq_getElem, List.get_eq_getElem] at heq
    rw [List.getElem?_eq_getElem (by rw [h.length]; exact hs)] at hid
    rw [List.getElem?_eq_getElem (by rw [h.length]; exact hs')] at hid'
    rw [← Option.some.inj hid, ← Option.some.inj hid', heq]
  rw [hlocal, hblock'] at hblock
  cases hblock
  exact Fin.ext (h.distinct hget hget')

/-- Modulo its length a table addresses the block of every logical block that it retains. -/
theorem scheduled_ringBlock (hi : i < A) (hheld : A - sent.length ≤ i) :
    ∃ b, led i = some b ∧
      ringBlock (sent.map fun id : Nat => (id : Int)) i = pool.localBlockId b := by
  obtain ⟨hslot, hlt⟩ := snapshotSlot h.length hi
  have hlen := h.length
  have hmod : i % sent.length = pool.logicalSlot i := by
    cases hroll : pool.rolling with
    | true =>
      rw [hroll, if_pos rfl] at hslot
      exact hslot
    | false =>
      rw [tableSize, hroll, if_neg Bool.false_ne_true] at hlen
      rw [logicalSlot, hroll, if_neg Bool.false_ne_true, hlen, Nat.mod_eq_of_lt hi]
  obtain ⟨b, -, hid, hled, -⟩ := h.slot hlt
  rw [hlen] at hheld
  rw [(slotLogical_logicalSlot hi hheld).1] at hled
  refine ⟨b, hled, ?_⟩
  have hne : sent.map (fun id : Nat => (id : Int)) ≠ [] := by
    rw [Ne, List.map_eq_nil_iff]
    rintro rfl
    cases hid
  have hget := ringBlock_get (i := i) hne
  rw [List.length_map, hmod, List.getElem?_map, hid] at hget
  exact (Option.some.inj hget).symm

end Scheduled

/-- The table of a group still has the logical block of the position. -/
def Retained (pool : GroupBlockPool) (A size x : Nat) : Prop :=
  A - size ≤ x / pool.capacity ∧ x / pool.capacity < A

/-- Row `k` of a slot mapping with `ratio` positions to a storage row. -/
structure SlotsAgree (pool : GroupBlockPool) (A : Nat) (led : Ledger) (size ratio : Nat)
    (positions mapping : IndexRows) (k : Nat) : Prop where
  lies : ∀ c (x : Nat), cell positions k c = some (x : Int) → Retained pool A size x →
    ∃ b slot, led (x / pool.capacity) = some b ∧ cell mapping k c = some slot ∧
      Lies (pool.capacity / ratio) (pool.localBlockId b) slot
  distinct : ratio = 1 → ∀ c c' (x y : Nat), cell positions k c = some (x : Int) →
    cell positions k c' = some (y : Int) → Retained pool A size x → Retained pool A size y →
    cell mapping k c = cell mapping k c' → x = y

/-- What the runner gets from the window of a position. -/
structure WindowAgrees (pool : GroupBlockPool) (A : Nat) (led : Ledger)
    (builder : DeepSeekV4CacheMetadataBuilder) (ids : List Int) (x : Nat)
    (indices : Option (List Int)) (len : Option Int) : Prop where
  indices : indices = some (padRow builder.slidingWindow (builder.windowSlots ids x))
  len : len = some ((min builder.slidingWindow (x + 1) : Nat) : Int)
  nodup : (builder.windowSlots ids x).Nodup
  lies : ∀ y ∈ lastPositions builder.slidingWindow x, Retained pool A ids.length y →
    ∃ b, led (y / pool.capacity) = some b ∧
      Lies pool.capacity (pool.localBlockId b) (builder.ringSlot ids y)

/-- Whatever batch a table is sent with, the runner addresses the blocks that the manager gave. -/
structure RunnerAgrees (pool : GroupBlockPool) (A : Nat) (led : Ledger) (ids : List Int) : Prop where
  slots : ∀ (tables positions : IndexRows) (k : Nat), RingBatch tables positions →
    tables[k]? = some ids → ∃ mapping,
      slotMappingFromIds tables positions pool.capacity pool.spec.spec.compressRatio = .ok mapping ∧
      SlotsAgree pool A led ids.length pool.spec.spec.compressRatio positions mapping k
  paged : ∀ (window : Nat) (tables positions : IndexRows) (k : Nat), RingBatch tables positions →
    tables[k]? = some ids → ∃ mapping,
      (DeepSeekV4CacheMetadataBuilder.mk pool.capacity window).pagedDecodeSlotMappingFromIds
        tables positions = .ok mapping ∧
      SlotsAgree pool A led ids.length 1 positions mapping k
  table : ∀ (tables : IndexRows) (maxBlocks k : Nat), (∀ ids ∈ tables, ids ≠ []) →
    (∀ ids ∈ tables, ∀ id ∈ ids, 0 ≤ id) → 0 < maxBlocks → tables[k]? = some ids →
    ∃ expanded, ringBlockTableFromIds tables maxBlocks = .ok expanded ∧
      ∀ i < maxBlocks, A - ids.length ≤ i → i < A →
        ∃ b, led i = some b ∧ cell expanded k i = some (pool.localBlockId b : Int)
  window : ∀ (window : Nat) (tables positions : IndexRows) (k : Nat), RingBatch tables positions →
    tables[k]? = some ids → ∃ indices lens,
      (DeepSeekV4CacheMetadataBuilder.mk pool.capacity window).swaWindowIndicesAndLensFromIds
        tables positions = .ok (indices, lens) ∧
      ∀ c (x : Nat), cell positions k c = some (x : Int) →
        x / pool.capacity - (x + 1 - min window (x + 1)) / pool.capacity < ids.length →
        WindowAgrees pool A led ⟨pool.capacity, window⟩ ids x
          indices[k * rowWidth positions + c]? lens[k * rowWidth positions + c]?

section Agreement
variable {pool : GroupBlockPool} {r : RequestId} {p A : Nat} {led : Ledger} {sent : List Nat}

/-- A mapping that reads the slots of the table off row by row. -/
theorem slotsAgree_of_cells (h : ScheduledTable pool r p A led sent) {ratio : Nat}
    (hdvd : ratio ∣ pool.capacity) {positions mapping : IndexRows} {k : Nat}
    (hcell : ∀ c (x : Nat), cell positions k c = some (x : Int) → cell mapping k c =
      some (storageSlot pool.capacity ratio (sent.map fun id : Nat => (id : Int)) x)) :
    SlotsAgree pool A led sent.length ratio positions mapping k where
  lies := by
    rintro c x hx ⟨hheld, hlt⟩
    obtain ⟨b, hled, hring⟩ := scheduled_ringBlock h hlt hheld
    exact ⟨b, _, hled, hcell c x hx,
      storageSlot_lies pool.spec.spec.tokenCapacity_pos hdvd hring⟩
  distinct := by
    rintro rfl c c' x y hx hy ⟨hxheld, hxlt⟩ ⟨hyheld, hylt⟩ heq
    rw [hcell c x hx, hcell c' y hy] at heq
    have hnodup : (sent.map fun id : Nat => (id : Int)).Nodup :=
      (scheduled_nodup h).map Nat.cast_injective
    have hlen : (sent.map fun id : Nat => (id : Int)).length = sent.length := List.length_map _
    have hcap : 0 < pool.capacity := pool.spec.spec.tokenCapacity_pos
    exact storageSlot_injective (A - sent.length) hnodup hcap
      ⟨hxheld, by rw [hlen]; omega⟩ ⟨hyheld, by rw [hlen]; omega⟩ (Option.some.inj heq)

theorem runnerAgrees_of_scheduled (h : ScheduledTable pool r p A led sent) :
    RunnerAgrees pool A led (sent.map fun id : Nat => (id : Int)) where
  slots := by
    intro tables positions k hb hk
    have hratio := pool.spec.spec.compressRatio_pos
    obtain ⟨mapping, hok, hcell⟩ := slotMappingFromIds_ok hb
      (Int.natCast_pos.mpr pool.spec.spec.tokenCapacity_pos) (Int.natCast_pos.mpr hratio) hk
    rw [List.length_map]
    exact ⟨mapping, hok, slotsAgree_of_cells h
      (Nat.dvd_of_mod_eq_zero pool.spec.spec.compress_dvd) fun c x hx => hcell c x hx⟩
  paged := by
    intro window tables positions k hb hk
    obtain ⟨mapping, hok, hcell⟩ := pagedDecodeSlotMappingFromIds_ok ⟨pool.capacity, window⟩ hb hk
    rw [List.length_map]
    refine ⟨mapping, hok, slotsAgree_of_cells h (one_dvd _) fun c x hx => ?_⟩
    rw [hcell c x hx, ringSlot_eq]
  table := by
    intro tables maxBlocks k hfilled hnonneg hmax hk
    obtain ⟨expanded, hok, hcell⟩ := ringBlockTableFromIds_ok hfilled hnonneg hmax hk
    refine ⟨expanded, hok, fun i hi hheld hlt => ?_⟩
    rw [List.length_map] at hheld
    obtain ⟨b, hled, hring⟩ := scheduled_ringBlock h hlt hheld
    exact ⟨b, hled, by rw [hcell i hi, hring]⟩
  window := by
    intro window tables positions k hb hk
    obtain ⟨indices, lens, hok, hcell⟩ :=
      swaWindowIndicesAndLensFromIds_ok ⟨pool.capacity, window⟩ hb hk
    refine ⟨indices, lens, hok, fun c x hx hspan => ?_⟩
    obtain ⟨hindices, hlen⟩ := hcell c x hx
    have hnodup : (sent.map fun id : Nat => (id : Int)).Nodup :=
      (scheduled_nodup h).map Nat.cast_injective
    refine ⟨hindices, hlen, windowSlots_nodup _ hnodup pool.spec.spec.tokenCapacity_pos hspan, ?_⟩
    rintro y - ⟨hheld, hlt⟩
    rw [List.length_map] at hheld
    obtain ⟨b, hled, hring⟩ := scheduled_ringBlock h hlt hheld
    refine ⟨b, hled, ?_⟩
    have hcap : 0 < pool.capacity := pool.spec.spec.tokenCapacity_pos
    have hlies := storageSlot_lies hcap (one_dvd _) hring
    rw [Nat.div_one] at hlies
    rw [ringSlot_eq]
    exact hlies

end Agreement

/-- In every state of the manager the tables of a request mean the same to the runner: its
slots lie in the blocks that growth and prefix hits gave to the logical blocks. -/
theorem runner_addresses_ring {H : PyHash} {s : (KvCacheManager × List Snapshot) × GrowthHistory}
    (hs : (separatedHistory H).Reachable s)
    {r : RequestId} {tables : GroupTables} (ht : s.1.1.groupTables r = .ok tables)
    {pool : GroupBlockPool} (hpool : pool ∈ s.1.1.groupPools) :
    RunnerAgrees pool (pool.logicalBlocks r) (s.2.given pool.spec.name r)
      ((groupEntry tables pool).map fun id : Nat => (id : Int)) := by
  obtain ⟨⟨hb, -, hnames⟩, hrec⟩ := recorded_of_reachable hs
  obtain ⟨htracks, -⟩ := hrec pool hpool r
  have hinv := hb.pools pool hpool
  have hids := (groupTables_spec ht hnames).2 pool hpool
  cases hp : s.1.1.groupRequestPartition r with
  | none =>
    refine runnerAgrees_of_scheduled (p := 0)
      ⟨htracks, hids, hinv.tables.slot_unique, fun b hmem => ?_⟩
    obtain ⟨q, hq, -⟩ := hinv.tables.entries r b hmem
    rw [hb.assigned pool hpool, hp] at hq
    cases hq
  | some p =>
    refine runnerAgrees_of_scheduled (p := p)
      ⟨htracks, hids, hinv.tables.slot_unique, fun b hmem => ?_⟩
    obtain ⟨q, hq, hin⟩ := hinv.tables.entries r b hmem
    rw [hb.assigned pool hpool, hp] at hq
    cases hq
    exact hin

/-- A ring of two blocks that has rolled over. -/
theorem runner_addresses_ring_rolled : ∃ pool ∈ (grownRun 7).1.1.groupPools,
    RunnerAgrees pool (pool.logicalBlocks "a") ((grownRun 7).2.given pool.spec.name "a")
      ((groupEntry (ringTable [2, 3]) pool).map fun id : Nat => (id : Int)) := by
  have hpool : (grownRun 7).1.1.groupPools.get ⟨0, by decide⟩ ∈ (grownRun 7).1.1.groupPools :=
    List.get_mem _ _
  exact ⟨_, hpool,
    runner_addresses_ring (grownRun_reachable 7) (r := "a") rfl hpool⟩

end PyptoServing.Runner
