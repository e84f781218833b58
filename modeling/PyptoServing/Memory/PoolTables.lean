import Mathlib.Data.Finset.Card
import Mathlib.Data.List.NodupEquivFin
import PyptoServing.Lib.Fallible
import PyptoServing.Memory.PoolCore

/-!
# Request tables of one pool

The holders of a block are the table entries that name it and the pins of retained
snapshots. `PoolInv` is the balance of `Conserved` for these holders together with
well-formed tables. Growing a table keeps it, and cannot run out of blocks once the
shortage count of `additionalGroupBlocks` fits in the partition's free queue.
-/
namespace PyptoServing.Memory.GroupBlockPool

open Lib Lib.Fallible

/-- The number of table entries that name `b`. -/
def tableHolds (pool : GroupBlockPool) (b : BlockId) : Nat :=
  pool.requestBlocks.weight fun owned => owned.count (some b)

structure TablesWellFormed (pool : GroupBlockPool) : Prop where
  partition_lt : ∀ r p, pool.requestPartitions.lookup r = some p → p < pool.spec.numPartitions
  entries : ∀ r b, some b ∈ pool.table r →
    ∃ p, pool.requestPartitions.lookup r = some p ∧ pool.InPartition p b
  distinct : ∀ r b, (pool.table r).count (some b) ≤ 1

/-- One pool is balanced: every reference is a table entry or a pin. -/
structure PoolInv (pool : GroupBlockPool) (pins : BlockId → Nat) : Prop where
  conserved : ∃ free, Conserved pool free fun b => pool.tableHolds b + pins b
  tables : TablesWellFormed pool
  /-- A full-history table has no empty slot. -/
  full : pool.rolling = false → ∀ r, none ∉ pool.table r

variable {pool pool' pool₀ : GroupBlockPool} {free : Nat → List BlockId}
  {holders others pins : BlockId → Nat} {r : RequestId} {p slot : Nat} {b : BlockId}

/-- A request without a partition has no block. -/
theorem TablesWellFormed.unassigned (h : TablesWellFormed pool)
    (hnone : pool.requestPartitions.lookup r = none) (c : BlockId) : some c ∉ pool.table r := by
  intro hmem
  obtain ⟨q, hq, -⟩ := h.entries r c hmem
  rw [hnone] at hq
  cases hq

/-- Different slots of a table hold different blocks. -/
theorem TablesWellFormed.slot_unique (h : TablesWellFormed pool) {s s' : Nat}
    (hs : (pool.table r)[s]? = some (some b)) (hs' : (pool.table r)[s']? = some (some b)) :
    s = s' := by
  by_contra hne
  obtain ⟨h1, h2⟩ := List.getElem?_eq_some_iff.mp hs
  obtain ⟨h3, h4⟩ := List.getElem?_eq_some_iff.mp hs'
  have hdup : List.Duplicate (some b) (pool.table r) := by
    rw [List.duplicate_iff_exists_distinct_get]
    rcases Nat.lt_or_gt_of_ne hne with hlt | hlt
    · exact ⟨⟨s, h1⟩, ⟨s', h3⟩, hlt, h2.symm, h4.symm⟩
    · exact ⟨⟨s', h3⟩, ⟨s, h1⟩, hlt, h4.symm, h2.symm⟩
  have htwo : 2 ≤ (pool.table r).count (some b) :=
    List.replicate_sublist_iff.mp (List.duplicate_iff_sublist.mp hdup)
  have := h.distinct r b
  omega

/-- `Conserved` reads no table. -/
theorem Conserved.congr (h : Conserved pool free holders) {holders' : BlockId → Nat}
    (hspec : pool'.spec = pool.spec) (hper : pool'.blocksPerPartition = pool.blocksPerPartition)
    (hblocks : pool'.blocks = pool.blocks) (hqueues : pool'.freeQueues = pool.freeQueues)
    (hindex : pool'.hashToBlock = pool.hashToBlock) (hh : ∀ c, holders' c = holders c) :
    Conserved pool' free holders' := by
  obtain rfl : holders' = holders := funext hh
  obtain ⟨h1, h2, h3, h4, h5⟩ := h
  have ht : pool'.totalBlocks = pool.totalBlocks := by simp [totalBlocks, hspec, hper]
  have hm : ∀ c, pool'.home c = pool.home c := fun c => by simp [home, hper]
  refine ⟨?_, ?_, ?_, ?_, ?_⟩
  · rw [hspec, hblocks, hqueues]; exact h1
  · rw [hspec]; simpa only [InPartition, ht, hm] using h2
  · rw [hblocks]; exact h3
  · simpa only [ht, hm] using h4
  · intro q x c hc
    rw [hindex] at hc
    simpa only [InPartition, ht, hm, hblocks] using h5 q x c hc

/-- Binding one table moves the entry counts by the difference of the two tables. -/
theorem tableHolds_insert {owned : List (Option BlockId)}
    (h : pool'.requestBlocks = pool.requestBlocks.insert r owned) (c : BlockId) :
    pool'.tableHolds c + (pool.table r).count (some c) =
      pool.tableHolds c + owned.count (some c) := by
  have hw := Dict.weight_insert (fun t : List (Option BlockId) => t.count (some c))
    pool.requestBlocks r owned
  rw [tableHolds, h, ← tableHolds.eq_def pool] at *
  rw [table]
  cases hl : pool.requestBlocks.lookup r <;> simpa [hl] using hw

theorem tableHolds_erase (h : pool'.requestBlocks = pool.requestBlocks.erase r) (c : BlockId) :
    pool'.tableHolds c + (pool.table r).count (some c) = pool.tableHolds c := by
  have hw := Dict.weight_erase (fun t : List (Option BlockId) => t.count (some c))
    pool.requestBlocks r
  rw [tableHolds, h, ← tableHolds.eq_def pool] at *
  rw [table]
  cases hl : pool.requestBlocks.lookup r <;> simpa [hl] using hw

theorem count_le_tableHolds (pool : GroupBlockPool) (r : RequestId) (c : BlockId) :
    (pool.table r).count (some c) ≤ pool.tableHolds c := by
  rw [table]
  cases hl : pool.requestBlocks.lookup r with
  | none => simp
  | some owned => exact Dict.le_weight (fun t : List (Option BlockId) => t.count (some c)) hl

theorem table_insert_self {owned : List (Option BlockId)}
    (h : pool'.requestBlocks = pool.requestBlocks.insert r owned) : pool'.table r = owned := by
  rw [table, h, AList.lookup_insert, Option.getD_some]

theorem table_insert_ne {r' : RequestId} {owned : List (Option BlockId)}
    (h : pool'.requestBlocks = pool.requestBlocks.insert r owned) (hr : r' ≠ r) :
    pool'.table r' = pool.table r' := by
  rw [table, h, AList.lookup_insert_ne hr, table]

@[simp] theorem setSlot_table_self (pool : GroupBlockPool) (r : RequestId) (slot : Nat)
    (b : BlockId) : (pool.setSlot r slot b).table r = (pool.table r).set slot (some b) :=
  table_insert_self rfl

theorem setSlot_table_ne (pool : GroupBlockPool) {r r' : RequestId} (hr : r' ≠ r) (slot : Nat)
    (b : BlockId) : (pool.setSlot r slot b).table r' = pool.table r' :=
  table_insert_ne rfl hr

/-- What growing a table leaves alone. -/
structure GrowFrame (pool pool' : GroupBlockPool) (r : RequestId) : Prop where
  spec : pool'.spec = pool.spec
  perPartition : pool'.blocksPerPartition = pool.blocksPerPartition
  requestPartitions : pool'.requestPartitions = pool.requestPartitions
  requestLogicalBlocks : pool'.requestLogicalBlocks = pool.requestLogicalBlocks
  tables : ∀ r', r' ≠ r → pool'.table r' = pool.table r'
  length : (pool'.table r).length = (pool.table r).length

theorem GrowFrame.refl (pool : GroupBlockPool) (r : RequestId) : GrowFrame pool pool r :=
  ⟨rfl, rfl, rfl, rfl, fun _ _ => rfl, rfl⟩

theorem GrowFrame.trans {p₁ p₂ p₃ : GroupBlockPool} (h : GrowFrame p₁ p₂ r)
    (h' : GrowFrame p₂ p₃ r) : GrowFrame p₁ p₃ r :=
  ⟨h'.spec.trans h.spec, h'.perPartition.trans h.perPartition,
    h'.requestPartitions.trans h.requestPartitions,
    h'.requestLogicalBlocks.trans h.requestLogicalBlocks,
    fun r' hr => (h'.tables r' hr).trans (h.tables r' hr), h'.length.trans h.length⟩

/-- A table being grown in partition `p`, with `room` queued blocks to spare. `pool₀` is
the pool before the growth: every entry of the table was in it or was unreferenced
then, and every block unreferenced now was in it or was unreferenced then. -/
structure Growing (pool₀ : GroupBlockPool) (pins : BlockId → Nat) (r : RequestId) (p : Nat)
    (pool : GroupBlockPool) (room : Nat) : Prop where
  balanced : ∃ free, Conserved pool free (fun b => pool.tableHolds b + pins b) ∧
    room ≤ (free p).length
  tables : TablesWellFormed pool
  assigned : pool.requestPartitions.lookup r = some p
  entry_fresh : ∀ b, some b ∈ pool.table r → some b ∈ pool₀.table r ∨ (pool₀.blocks b).refCnt = 0
  free_fresh : ∀ b, (pool.blocks b).refCnt = 0 → some b ∈ pool₀.table r ∨ (pool₀.blocks b).refCnt = 0

theorem Growing.mono {n m : Nat} (h : Growing pool₀ pins r p pool n) (hm : m ≤ n) :
    Growing pool₀ pins r p pool m := by
  obtain ⟨⟨free, hc, hroom⟩, h2, h3, h4, h5⟩ := h
  exact ⟨⟨free, hc, hm.trans hroom⟩, h2, h3, h4, h5⟩

theorem TablesWellFormed.congr (h : TablesWellFormed pool) (ht : SameTables pool pool') :
    TablesWellFormed pool' := by
  constructor
  · intro r q hq
    exact ht.spec ▸ h.partition_lt r q (ht.requestPartitions ▸ hq)
  · intro r c hmem
    rw [ht.table] at hmem
    obtain ⟨q, hq, hin⟩ := h.entries r c hmem
    exact ⟨q, ht.requestPartitions.symm ▸ hq, ht.inPartition.mpr hin⟩
  · intro r c
    rw [ht.table]
    exact h.distinct r c

/-- Writing a slot exchanges its old block for the new one. -/
theorem count_set_slot {l : List (Option BlockId)} {old : Option BlockId}
    (hslot : l[slot]? = some old) (b c : BlockId) :
    (l.set slot (some b)).count (some c) + (if old = some c then 1 else 0) =
      l.count (some c) + (if b = c then 1 else 0) := by
  obtain ⟨hlt, hold⟩ := List.getElem?_eq_some_iff.mp hslot
  rw [List.count_set hlt, hold]
  have : (if old = some c then 1 else 0) ≤ l.count (some c) := by
    split
    · next he =>
      rw [List.one_le_count_iff, ← he, ← hold]
      exact List.getElem_mem hlt
    · omega
  simp only [beq_iff_eq, Option.some.injEq]
  omega

theorem tableHolds_setSlot {old : Option BlockId} (hslot : (pool.table r)[slot]? = some old)
    (b c : BlockId) :
    (pool.setSlot r slot b).tableHolds c + (if old = some c then 1 else 0) =
      pool.tableHolds c + (if b = c then 1 else 0) := by
  have hset : (pool.setSlot r slot b).requestBlocks =
      pool.requestBlocks.insert r ((pool.table r).set slot (some b)) := rfl
  have h1 := tableHolds_insert hset c
  have h2 := count_set_slot hslot b c
  omega

/-- Only what `r` has changes: the other requests keep their partitions and tables. -/
theorem TablesWellFormed.rebind (h : TablesWellFormed pool) (hspec : pool'.spec = pool.spec)
    (hhome : ∀ q c, pool.InPartition q c → pool'.InPartition q c)
    (hpart : ∀ r', r' ≠ r → pool'.requestPartitions.lookup r' = pool.requestPartitions.lookup r')
    (htable : ∀ r', r' ≠ r → pool'.table r' = pool.table r')
    (hlt : ∀ q, pool'.requestPartitions.lookup r = some q → q < pool.spec.numPartitions)
    (hentries : ∀ c, some c ∈ pool'.table r →
      ∃ q, pool'.requestPartitions.lookup r = some q ∧ pool.InPartition q c)
    (hdistinct : ∀ c, (pool'.table r).count (some c) ≤ 1) : TablesWellFormed pool' := by
  constructor
  · intro r' q hq
    rw [hspec]
    by_cases hr : r' = r
    · subst hr
      exact hlt q hq
    · exact h.partition_lt r' q ((hpart r' hr).symm.trans hq)
  · intro r' c hmem
    by_cases hr : r' = r
    · subst hr
      obtain ⟨q, hq, hin⟩ := hentries c hmem
      exact ⟨q, hq, hhome q c hin⟩
    · rw [htable r' hr] at hmem
      obtain ⟨q, hq, hin⟩ := h.entries r' c hmem
      exact ⟨q, (hpart r' hr).trans hq, hhome q c hin⟩
  · intro r' c
    by_cases hr : r' = r
    · subst hr
      exact hdistinct c
    · rw [htable r' hr]
      exact h.distinct r' c

/-- A block of the partition that no other slot has may take a slot. -/
theorem TablesWellFormed.setSlot (h : TablesWellFormed pool) {old : Option BlockId}
    (ha : pool.requestPartitions.lookup r = some p) (hb : pool.InPartition p b)
    (hslot : (pool.table r)[slot]? = some old)
    (hfresh : (pool.table r).count (some b) ≤ if old = some b then 1 else 0) :
    TablesWellFormed (pool.setSlot r slot b) := by
  refine h.rebind (r := r) rfl (fun _ _ hin => hin) (fun _ _ => rfl)
    (fun r' hr => setSlot_table_ne _ hr _ _) (h.partition_lt r) (fun c hmem => ?_) fun c => ?_
  · rw [setSlot_table_self] at hmem
    rcases List.mem_or_eq_of_mem_set hmem with hmem | heq
    · exact h.entries r c hmem
    · cases heq
      exact ⟨p, ha, hb⟩
  · rw [setSlot_table_self]
    have h1 := count_set_slot hslot b c
    have h2 := h.distinct r c
    by_cases hcb : b = c
    · subst hcb
      simp only [if_true] at h1
      omega
    · rw [if_neg hcb] at h1
      omega

/-- Taking a fresh block into a slot whose old content holds nothing any more. -/
theorem place_spec {old : Option BlockId} {rest : List BlockId}
    (h : Conserved pool free others) (hw : TablesWellFormed pool)
    (ha : pool.requestPartitions.lookup r = some p)
    (hslot : (pool.table r)[slot]? = some old)
    (hothers : ∀ c, others c + (if old = some c then 1 else 0) = pool.tableHolds c + pins c)
    (hf : free p = b :: rest) :
    ∃ pool₁, pool.takeGroupBlock p = .ok (b, pool₁) ∧ others b = 0 ∧
      Conserved (pool₁.setSlot r slot b) (Function.update free p rest)
        (fun c => (pool₁.setSlot r slot b).tableHolds c + pins c) ∧
      TablesWellFormed (pool₁.setSlot r slot b) ∧ GrowFrame pool (pool₁.setSlot r slot b) r ∧
      (pool₁.setSlot r slot b).table r = (pool.table r).set slot (some b) ∧
      ∀ c, ((pool₁.setSlot r slot b).blocks c).refCnt = if c = b then 1 else (pool.blocks c).refCnt := by
  obtain ⟨pool₁, htake, ht, hb, hb0, hc, hrefs⟩ := h.takeGroupBlock (hw.partition_lt r p ha) hf
  have htable : (pool₁.setSlot r slot b).table r = (pool.table r).set slot (some b) := by
    rw [setSlot_table_self, ht.table]
  have hslot₁ : (pool₁.table r)[slot]? = some old := by rw [ht.table, hslot]
  have hholds₁ : ∀ c, pool₁.tableHolds c = pool.tableHolds c := fun c => by
    rw [tableHolds, tableHolds, ht.requestBlocks]
  refine ⟨pool₁, htake, hb0, ?_, ?_, ?_, htable, ?_⟩
  · refine hc.congr rfl rfl rfl rfl rfl fun c => ?_
    have h1 := tableHolds_setSlot hslot₁ b c
    have h2 := hothers c
    rw [hholds₁] at h1
    by_cases hcb : c = b
    · subst hcb
      rw [Function.update_self]
      simp only [if_true] at h1
      omega
    · rw [Function.update_of_ne hcb]
      rw [if_neg (Ne.symm hcb)] at h1
      omega
  · refine (hw.congr ht).setSlot (ht.requestPartitions.symm ▸ ha) (ht.inPartition.mpr hb) hslot₁ ?_
    have h1 := hothers b
    have h2 := count_le_tableHolds pool r b
    rw [ht.table]
    omega
  · exact ⟨ht.spec, ht.perPartition, ht.requestPartitions, ht.requestLogicalBlocks,
      fun r' hr => by rw [setSlot_table_ne _ hr, ht.table], by rw [htable, List.length_set]⟩
  · intro c
    show (pool₁.blocks c).refCnt = _
    split
    · next hcb =>
      subst hcb
      rw [hc.refCnt, Function.update_self]
    · next hcb => exact hrefs c hcb

/-- Replacing an entry by a fresh block makes its slot unshared and leaves every other
slot as it was. -/
theorem sharedSlot_place {pool₁ : GroupBlockPool} (hw : TablesWellFormed pool)
    (hw₁ : TablesWellFormed pool₁) {old : Option BlockId}
    (hslot : (pool.table r)[slot]? = some old)
    (htable : pool₁.table r = (pool.table r).set slot (some b))
    (hrefs : ∀ c, c ≠ b → old ≠ some c → (pool₁.blocks c).refCnt = (pool.blocks c).refCnt)
    (hb : (pool₁.blocks b).refCnt = 1) (s : Nat) :
    pool₁.sharedSlot r s = (decide (s ≠ slot) && pool.sharedSlot r s) := by
  have hlt : slot < (pool.table r).length := (List.getElem?_eq_some_iff.mp hslot).1
  have hset : (pool₁.table r)[slot]? = some (some b) := by simp [htable, hlt]
  by_cases hs : s = slot
  · subst hs
    simp [sharedSlot, hset, hb]
  · have hget₁ : (pool₁.table r)[s]? = (pool.table r)[s]? := by
      rw [htable, List.getElem?_set_ne (Ne.symm hs)]
    simp only [sharedSlot, hget₁, ne_eq, hs, not_false_eq_true, decide_true, Bool.true_and]
    cases hget : (pool.table r)[s]? with
    | none => rfl
    | some e =>
      cases e with
      | none => rfl
      | some c =>
        have hcb : c ≠ b := by
          rintro rfl
          exact hs (hw₁.slot_unique (hget₁.trans hget) hset)
        have hold : old ≠ some c := by
          rintro rfl
          exact hs (hw.slot_unique hget hslot)
        simp only [hrefs c hcb hold]

/-- One slot of a growing table changes hands: `mid` is the pool after the old content,
if any, has been detached. -/
theorem Growing.place {mid : GroupBlockPool} {n : Nat} {old : Option BlockId}
    {rest : List BlockId} (h : Growing pool₀ pins r p pool n) (ht : SameTables pool mid)
    (hc : Conserved mid free others) (hslot : (pool.table r)[slot]? = some old)
    (hothers : ∀ c, others c + (if old = some c then 1 else 0) = pool.tableHolds c + pins c)
    (hmid : ∀ c, old ≠ some c → (mid.blocks c).refCnt = (pool.blocks c).refCnt)
    (hf : free p = b :: rest) :
    ∃ pool', (mid.takeGroupBlock p >>= fun x => .ok (x.2.setSlot r slot x.1)) = .ok pool' ∧
      Growing pool₀ pins r p pool' rest.length ∧ GrowFrame pool pool' r ∧
      pool'.table r = (pool.table r).set slot (some b) ∧
      ∀ s, pool'.sharedSlot r s = (decide (s ≠ slot) && pool.sharedSlot r s) := by
  have hw := h.tables.congr ht
  have hholds : ∀ c, mid.tableHolds c = pool.tableHolds c := fun c => by
    rw [tableHolds, tableHolds, ht.requestBlocks]
  obtain ⟨pool₁, htake, hb0, hc', hw', hfr, htable, hrefs⟩ := place_spec hc hw
    (by rw [ht.requestPartitions]; exact h.assigned) (by rw [ht.table]; exact hslot)
    (fun c => by rw [hholds]; exact hothers c) hf
  rw [ht.table] at htable
  have hunref : ∀ c, (mid.blocks c).refCnt = 0 →
      some c ∈ pool₀.table r ∨ (pool₀.blocks c).refCnt = 0 := by
    intro c h0
    by_cases hold : old = some c
    · subst hold
      exact h.entry_fresh c (List.mem_of_getElem? hslot)
    · exact h.free_fresh c (by rw [← hmid c hold]; exact h0)
  refine ⟨pool₁.setSlot r slot b, bind_eq_ok.mpr ⟨_, htake, rfl⟩, ?_, ?_, htable, ?_⟩
  · refine ⟨⟨_, hc', by simp⟩, hw', ?_, ?_, ?_⟩
    · rw [hfr.requestPartitions, ht.requestPartitions]
      exact h.assigned
    · intro c hmem
      rw [htable] at hmem
      rcases List.mem_or_eq_of_mem_set hmem with hmem | heq
      · exact h.entry_fresh c hmem
      · cases heq
        exact hunref b (by rw [hc.refCnt, hb0])
    · intro c h0
      rw [hrefs] at h0
      split at h0
      · cases h0
      · exact hunref c h0
  · exact ⟨hfr.spec.trans ht.spec, hfr.perPartition.trans ht.perPartition,
      hfr.requestPartitions.trans ht.requestPartitions,
      hfr.requestLogicalBlocks.trans ht.requestLogicalBlocks,
      fun r' hr => (hfr.tables r' hr).trans (ht.table r'), by rw [htable, List.length_set]⟩
  · refine sharedSlot_place h.tables hw' hslot htable ?_ ?_
    · intro c hcb hold
      rw [hrefs, if_neg hcb, hmid c hold]
    · rw [hrefs, if_pos rfl]

/-- How many of these slots are still empty. -/
def emptySlots (pool : GroupBlockPool) (r : RequestId) (slots : List Nat) : Nat :=
  slots.countP fun s => decide ((pool.table r)[s]? = some none)

/-- How many shared slots these logical blocks will overwrite. -/
def sharedSlots (pool : GroupBlockPool) (r : RequestId) (logical : List Nat) : Nat :=
  ((logical.map pool.ringSlot).filter (pool.sharedSlot r)).dedup.length

/-- Slot `s` of the table holds a block. -/
def Filled (pool : GroupBlockPool) (r : RequestId) (s : Nat) : Prop :=
  ∃ b, (pool.table r)[s]? = some (some b)

theorem fillSlot_spec {n : Nat} (h : Growing pool₀ pins r p pool (emptySlots pool r [slot] + n))
    (hlt : slot < (pool.table r).length) :
    ∃ pool', fillSlot r p pool slot = .ok pool' ∧ Growing pool₀ pins r p pool' n ∧
      GrowFrame pool pool' r ∧ Filled pool' r slot ∧
      (∀ s, s ≠ slot → (pool'.table r)[s]? = (pool.table r)[s]?) ∧
      (∀ c, (pool.table r)[slot]? = some (some c) → pool' = pool) ∧
      ∀ s, pool'.sharedSlot r s = pool.sharedSlot r s := by
  unfold fillSlot
  cases hget : (pool.table r)[slot]? with
  | none =>
    rw [List.getElem?_eq_none_iff] at hget
    omega
  | some e =>
    cases e with
    | some c =>
      exact ⟨pool, rfl, h.mono (by omega), .refl pool r, ⟨c, hget⟩, fun _ _ => rfl,
        fun _ _ => rfl, fun _ => rfl⟩
    | none =>
      obtain ⟨free, hc, hroom⟩ := h.balanced
      have hempty : emptySlots pool r [slot] = 1 := by simp [emptySlots, hget]
      obtain ⟨b, rest, hf⟩ := List.exists_cons_of_ne_nil
        (l := free p) (List.ne_nil_of_length_pos (by omega))
      obtain ⟨pool', hok, hg, hfr, htable, hsh⟩ := h.place (.refl pool) hc hget
        (fun c => by simp) (fun _ _ => rfl) hf
      refine ⟨pool', hok, hg.mono ?_, hfr, ⟨b, by simp [htable, hlt]⟩, ?_, ?_, ?_⟩
      · rw [hf, List.length_cons] at hroom
        omega
      · intro s hs
        rw [htable, List.getElem?_set_ne (Ne.symm hs)]
      · simp
      · intro s
        rw [hsh]
        by_cases hs : s = slot
        · subst hs
          simp [sharedSlot, hget]
        · simp [hs]

theorem emptySlots_cons (pool : GroupBlockPool) (r : RequestId) (s : Nat) (l : List Nat) :
    emptySlots pool r (s :: l) = emptySlots pool r [s] + emptySlots pool r l := by
  rw [emptySlots, emptySlots, emptySlots, ← List.countP_append, List.singleton_append]

theorem emptySlots_congr {l : List Nat}
    (h : ∀ s ∈ l, (pool'.table r)[s]? = (pool.table r)[s]?) :
    emptySlots pool' r l = emptySlots pool r l := by
  apply List.countP_congr
  intro s hs
  rw [h s hs]

/-- Materialising the slots of `l`: it takes one block for each empty one. -/
theorem fillLoop_spec {n : Nat} (l : List Nat) (hl : l.Nodup)
    (h : Growing pool₀ pins r p pool (emptySlots pool r l + n))
    (hlt : ∀ s ∈ l, s < (pool.table r).length) :
    ∃ pool', l.foldlM (fillSlot r p) pool = .ok pool' ∧ Growing pool₀ pins r p pool' n ∧
      GrowFrame pool pool' r ∧ (∀ s ∈ l, Filled pool' r s) ∧
      (∀ (s : Nat) (c : BlockId), (pool.table r)[s]? = some (some c) →
        (pool'.table r)[s]? = some (some c)) ∧
      (∀ s, s ∉ l → (pool'.table r)[s]? = (pool.table r)[s]?) ∧
      ∀ s, pool'.sharedSlot r s = pool.sharedSlot r s := by
  induction l generalizing pool with
  | nil =>
    exact ⟨pool, rfl, h.mono (by omega), .refl pool r, by simp, fun _ _ hc => hc,
      fun _ _ => rfl, fun _ => rfl⟩
  | cons slot l ih =>
    obtain ⟨hnot, hl⟩ := List.nodup_cons.mp hl
    rw [emptySlots_cons, Nat.add_assoc] at h
    obtain ⟨pool₁, hok₁, hg₁, hfr₁, hfill₁, hne₁, hsame₁, hsh₁⟩ :=
      fillSlot_spec h (hlt slot (by simp))
    have hrest : emptySlots pool₁ r l = emptySlots pool r l :=
      emptySlots_congr fun s hs => hne₁ s (fun he => hnot (he ▸ hs))
    rw [← hrest] at hg₁
    obtain ⟨pool₂, hok₂, hg₂, hfr₂, hfill₂, hkeep₂, hne₂, hsh₂⟩ := ih hl hg₁
      (fun s hs => by rw [hfr₁.length]; exact hlt s (by simp [hs]))
    refine ⟨pool₂, ?_, hg₂, hfr₁.trans hfr₂, ?_, ?_, ?_, fun s => (hsh₂ s).trans (hsh₁ s)⟩
    · rw [List.foldlM_cons, bind_eq_ok]
      exact ⟨pool₁, hok₁, hok₂⟩
    · intro s hs
      rcases List.mem_cons.mp hs with rfl | hs
      · obtain ⟨c, hc⟩ := hfill₁
        exact ⟨c, hkeep₂ s c hc⟩
      · exact hfill₂ s hs
    · intro s c hc
      apply hkeep₂
      by_cases hs : s = slot
      · subst hs
        rw [hsame₁ c hc]
        exact hc
      · rw [hne₁ s hs]
        exact hc
    · intro s hs
      simp only [List.mem_cons, not_or] at hs
      rw [hne₂ s hs.2, hne₁ s hs.1]

/-- Moving one logical block on replaces its slot's block; it costs a queued block only
when the old one is shared. -/
theorem rotateSlot_spec {i n : Nat} (hi : pool.ringSize ≤ i)
    (h : Growing pool₀ pins r p pool ((if pool.sharedSlot r (i % pool.ringSize) then 1 else 0) + n))
    (hfill : Filled pool r (i % pool.ringSize)) :
    ∃ pool' b, rotateSlot r p pool i = .ok pool' ∧ Growing pool₀ pins r p pool' n ∧
      GrowFrame pool pool' r ∧
      pool'.table r = (pool.table r).set (i % pool.ringSize) (some b) ∧
      ∀ s, pool'.sharedSlot r s =
        (decide (s ≠ i % pool.ringSize) && pool.sharedSlot r s) := by
  obtain ⟨c, hget⟩ := hfill
  obtain ⟨free, hc, hroom⟩ := h.balanced
  have hheld : pool.tableHolds c + pins c ≠ 0 := by
    have h1 := count_le_tableHolds pool r c
    have h2 := List.one_le_count_iff.mpr (List.mem_of_getElem? hget)
    omega
  obtain ⟨q, hq, hin⟩ := h.tables.entries r c (List.mem_of_getElem? hget)
  rw [h.assigned] at hq
  cases hq
  unfold rotateSlot
  rw [if_neg (by omega)]
  simp only [hget]
  have hshared : pool.sharedSlot r (i % pool.ringSize) =
      decide (1 < pool.tableHolds c + pins c) := by
    rw [sharedSlot, hget, ← hc.refCnt c]
  have hothers : ∀ x n, n + 1 = pool.tableHolds c + pins c →
      Function.update (fun b => pool.tableHolds b + pins b) c n x +
        (if some c = some x then 1 else 0) = pool.tableHolds x + pins x := by
    intro x n hn
    by_cases hx : x = c
    · subst hx
      simp [hn]
    · simp [hx, Ne.symm hx]
  by_cases hmany : 1 < pool.tableHolds c + pins c
  · rw [if_pos (by rw [hc.refCnt]; exact hmany)]
    rw [hshared, if_pos (by simpa using hmany)] at hroom
    have hmid := hc.recount (b := c) hheld (n := pool.tableHolds c + pins c - 1) (by omega)
      (f := fun block => { block with refCnt := block.refCnt - 1 })
      (fun x hx => by simp [hx]) (fun x => ⟨rfl, rfl, rfl⟩)
    obtain ⟨b, rest, hf⟩ := List.exists_cons_of_ne_nil
      (l := free p) (List.ne_nil_of_length_pos (by omega))
    obtain ⟨pool', hok, hg, hfr, htable, hsh⟩ := h.place (sameTables_modifyBlock pool c _) hmid hget
      (fun x => hothers x _ (by omega))
      (fun x hx => by
        rw [modifyBlock_blocks, BlockHeap.modify_ne _ (fun he => hx (by rw [he]))]) hf
    refine ⟨pool', b, hok, hg.mono ?_, hfr, htable, hsh⟩
    rw [hf, List.length_cons] at hroom
    omega
  · rw [if_neg (by rw [hc.refCnt]; exact hmany)]
    have hloose := hc.loosen (b := c) hin hheld (f := fun block => { block with refCnt := 0 })
      (fun x hx => rfl) (fun x => ⟨rfl, rfl, rfl⟩)
    have hmid := hloose.pushFree
    obtain ⟨b, rest, hf⟩ := List.exists_cons_of_ne_nil
      (l := Function.update free p (free p ++ [c]) p) (by simp)
    obtain ⟨pool', hok, hg, hfr, htable, hsh⟩ := h.place
      ((sameTables_modifyBlock pool c _).trans (sameTables_pushFree _ p c)) hmid hget
      (fun x => hothers x 0 (by omega))
      (fun x hx => by
        have hxc : x ≠ c := fun he => hx (by rw [he])
        rw [pushFree, (FreeKVCacheBlockQueue.append_sameData _ _ c x).1, modifyBlock_blocks,
          BlockHeap.modify_ne _ hxc]) hf
    refine ⟨pool', b, hok, hg.mono ?_, hfr, htable, hsh⟩
    rw [Function.update_self] at hf
    have := congrArg List.length hf
    simp only [List.length_append, List.length_cons, List.length_nil] at this
    omega

theorem GrowFrame.ringSlot (h : GrowFrame pool pool' r) (i : Nat) :
    pool'.ringSlot i = pool.ringSlot i := by
  rw [GroupBlockPool.ringSlot, GroupBlockPool.ringSlot, ringSize, ringSize, h.spec]

/-- One rotation uses up its own slot's share of the shared slots. -/
theorem sharedSlots_rotate {i : Nat} {l : List Nat} (hfr : GrowFrame pool pool' r)
    (hsh : ∀ s, pool'.sharedSlot r s = (decide (s ≠ pool.ringSlot i) && pool.sharedSlot r s)) :
    (if pool.sharedSlot r (pool.ringSlot i) then 1 else 0) + sharedSlots pool' r l ≤
      sharedSlots pool r (i :: l) := by
  simp only [sharedSlots, ← List.card_toFinset]
  have hsub : ((l.map pool'.ringSlot).filter (pool'.sharedSlot r)).toFinset ⊆
      (((i :: l).map pool.ringSlot).filter (pool.sharedSlot r)).toFinset.erase
        (pool.ringSlot i) := by
    intro s hs
    simp only [List.mem_toFinset, List.mem_filter, List.mem_map, hsh, Bool.and_eq_true,
      decide_eq_true_eq, Finset.mem_erase, List.map_cons, List.mem_cons] at hs ⊢
    obtain ⟨⟨j, hj, rfl⟩, hne, hshared⟩ := hs
    rw [hfr.ringSlot] at hne hshared ⊢
    exact ⟨hne, .inr ⟨j, hj, rfl⟩, hshared⟩
  have hcard := Finset.card_le_card hsub
  split
  · next hshared =>
    rw [Finset.card_erase_of_mem (by simp [hshared])] at hcard
    have hpos : 0 < (((i :: l).map pool.ringSlot).filter (pool.sharedSlot r)).toFinset.card :=
      Finset.card_pos.mpr ⟨pool.ringSlot i, by simp [hshared]⟩
    omega
  · exact (Nat.zero_add _).trans_le (hcard.trans (Finset.card_erase_le))

theorem sharedSlots_tail (pool : GroupBlockPool) (r : RequestId) (i : Nat) (l : List Nat) :
    sharedSlots pool r l ≤ sharedSlots pool r (i :: l) := by
  simp only [sharedSlots, ← List.card_toFinset]
  apply Finset.card_le_card
  intro s hs
  simp only [List.mem_toFinset, List.mem_filter, List.map_cons, List.mem_cons] at hs ⊢
  exact ⟨.inr hs.1, hs.2⟩

/-- Moving the ring on over `l`: only the shared slots cost queued blocks. Slots that no
logical block of `l` maps to keep their content. -/
theorem rotateLoop_spec (l : List Nat)
    (h : Growing pool₀ pins r p pool (sharedSlots pool r l))
    (hfill : ∀ i ∈ l, pool.ringSize ≤ i → Filled pool r (i % pool.ringSize)) :
    ∃ pool', l.foldlM (rotateSlot r p) pool = .ok pool' ∧ Growing pool₀ pins r p pool' 0 ∧
      GrowFrame pool pool' r ∧ (∀ s, Filled pool r s → Filled pool' r s) ∧
      ∀ s, (∀ i ∈ l, pool.ringSize ≤ i → i % pool.ringSize ≠ s) →
        (pool'.table r)[s]? = (pool.table r)[s]? := by
  induction l generalizing pool with
  | nil =>
    exact ⟨pool, rfl, h.mono (by simp), .refl pool r, fun _ hs => hs, fun _ _ => rfl⟩
  | cons i l ih =>
    by_cases hi : i < pool.ringSize
    · obtain ⟨pool', hok, hrest⟩ := ih (h.mono (sharedSlots_tail pool r i l))
        (fun j hj => hfill j (by simp [hj]))
      refine ⟨pool', ?_, hrest.1, hrest.2.1, hrest.2.2.1, ?_⟩
      · rw [List.foldlM_cons, bind_eq_ok]
        exact ⟨pool, by rw [rotateSlot, if_pos hi], hok⟩
      · exact fun s hs => hrest.2.2.2 s (fun j hj => hs j (by simp [hj]))
    · have hslot : pool.ringSlot i = i % pool.ringSize := by rw [ringSlot, if_neg hi]
      have hle : (if pool.sharedSlot r (i % pool.ringSize) then 1 else 0) +
          (sharedSlots pool r (i :: l) -
            if pool.sharedSlot r (i % pool.ringSize) then 1 else 0) ≤
          sharedSlots pool r (i :: l) := by
        have hself : (if pool.sharedSlot r (i % pool.ringSize) then 1 else 0) ≤
            sharedSlots pool r (i :: l) := by
          split
          · next hshared =>
            simp only [sharedSlots, ← List.card_toFinset]
            exact Finset.card_pos.mpr ⟨pool.ringSlot i, by simp [hslot, hshared]⟩
          · omega
        omega
      obtain ⟨pool₁, b, hok₁, hg₁, hfr₁, htable₁, hsh₁⟩ := rotateSlot_spec (by omega)
        (h.mono hle) (hfill i (by simp) (by omega))
      have hring : pool₁.ringSize = pool.ringSize := by rw [ringSize, ringSize, hfr₁.spec]
      have hroom : sharedSlots pool₁ r l ≤ sharedSlots pool r (i :: l) -
          if pool.sharedSlot r (i % pool.ringSize) then 1 else 0 := by
        have := sharedSlots_rotate (l := l) hfr₁ (i := i) (by rw [hslot]; exact hsh₁)
        rw [hslot] at this
        omega
      have hfilled : ∀ s, Filled pool r s → Filled pool₁ r s := by
        rintro s ⟨c, hc⟩
        by_cases hs : s = i % pool.ringSize
        · subst hs
          exact ⟨b, by simp [htable₁, (List.getElem?_eq_some_iff.mp hc).1]⟩
        · exact ⟨c, by rw [htable₁, List.getElem?_set_ne (Ne.symm hs), hc]⟩
      obtain ⟨pool₂, hok₂, hg₂, hfr₂, hfill₂, hkeep₂⟩ := ih (hg₁.mono hroom) (by
        intro j hj hjr
        rw [hring] at hjr ⊢
        exact hfilled _ (hfill j (by simp [hj]) hjr))
      refine ⟨pool₂, ?_, hg₂, hfr₁.trans hfr₂, fun s hs => hfill₂ s (hfilled s hs), ?_⟩
      · rw [List.foldlM_cons, bind_eq_ok]
        exact ⟨pool₁, hok₁, hok₂⟩
      · intro s hs
        rw [hkeep₂ s (fun j hj hjr => by
          rw [hring] at hjr ⊢
          exact hs j (by simp [hj]) hjr), htable₁,
          List.getElem?_set_ne (hs i (by simp) (by omega))]

theorem openTable_table_self (pool : GroupBlockPool) (r : RequestId) (p size : Nat) :
    (pool.openTable r p size).table r =
      pool.table r ++ List.replicate (size - (pool.table r).length) none :=
  table_insert_self rfl

/-- Padding a table changes no holder, and opens it in the partition it is assigned to. -/
theorem openTable_spec (h : PoolInv pool pins) (hp : p < pool.spec.numPartitions)
    (ha : ∀ q, pool.requestPartitions.lookup r = some q → q = p) {n : Nat}
    (hroom : n ≤ pool.numFreeBlocksIn p) (size : Nat) :
    Growing pool pins r p (pool.openTable r p size) n := by
  obtain ⟨free, hc⟩ := h.conserved
  have hlookup : (pool.openTable r p size).requestPartitions.lookup r = some p := by
    rw [openTable, Dict.lookup_setDefault_self]
    cases hq : pool.requestPartitions.lookup r with
    | none => rfl
    | some q => rw [ha q hq]; rfl
  have hmem : ∀ c, some c ∈ (pool.openTable r p size).table r → some c ∈ pool.table r := by
    intro c hc
    rw [openTable_table_self] at hc
    rcases List.mem_append.mp hc with hc | hc
    · exact hc
    · cases List.eq_of_mem_replicate hc
  have hcount : ∀ c, ((pool.openTable r p size).table r).count (some c) =
      (pool.table r).count (some c) := by
    intro c
    rw [openTable_table_self, List.count_append, List.count_replicate]
    simp
  have hne : ∀ r', r' ≠ r → (pool.openTable r p size).table r' = pool.table r' :=
    fun r' hr => table_insert_ne rfl hr
  refine ⟨⟨free, ?_, ?_⟩, ⟨?_, ?_, ?_⟩, hlookup, fun c hc => .inl (hmem c hc), fun c hc => .inr hc⟩
  · refine hc.congr rfl rfl rfl rfl rfl fun c => ?_
    have hopen : (pool.openTable r p size).requestBlocks = pool.requestBlocks.insert r
        (pool.table r ++ List.replicate (size - (pool.table r).length) none) := rfl
    have := tableHolds_insert hopen c
    rw [← openTable_table_self pool r p size, hcount] at this
    omega
  · rw [← hc.length_eq hp]
    exact hroom
  · intro r' q hq
    by_cases hr : r' = r
    · subst hr
      rw [hlookup] at hq
      cases hq
      exact hp
    · rw [openTable, Dict.lookup_setDefault_ne _ hr] at hq
      exact h.tables.partition_lt r' q hq
  · intro r' c hc
    by_cases hr : r' = r
    · subst hr
      obtain ⟨q, hq, hin⟩ := h.tables.entries r' c (hmem c hc)
      exact ⟨p, hlookup, ha q hq ▸ hin⟩
    · rw [hne r' hr] at hc
      obtain ⟨q, hq, hin⟩ := h.tables.entries r' c hc
      exact ⟨q, by rw [openTable, Dict.lookup_setDefault_ne _ hr, hq], hin⟩
  · intro r' c
    by_cases hr : r' = r
    · subst hr
      rw [hcount]
      exact h.tables.distinct r' c
    · rw [hne r' hr]
      exact h.tables.distinct r' c

theorem openTable_sharedSlot (pool : GroupBlockPool) (r : RequestId) (p size s : Nat) :
    (pool.openTable r p size).sharedSlot r s = pool.sharedSlot r s := by
  unfold sharedSlot
  rw [openTable_table_self]
  by_cases hs : s < (pool.table r).length
  · rw [List.getElem?_append_left hs]
    rfl
  · rw [List.getElem?_append_right (by omega), List.getElem?_replicate,
      List.getElem?_eq_none_iff.mpr (show (pool.table r).length ≤ s by omega)]
    by_cases hs' : s - (pool.table r).length < size - (pool.table r).length <;> simp [hs']

/-- Counting empty slots by index or by entry. -/
theorem countP_range_eq (t : List (Option BlockId)) (n : Nat) :
    (List.range n).countP (fun s => decide (t[s]? = some none)) =
      (t.take n).countP (·.isNone) := by
  induction n with
  | zero => rfl
  | succ n ih =>
    rw [List.range_succ, List.countP_append, ih, List.take_add_one, List.countP_append]
    congr 1
    cases hget : t[n]? with
    | none => simp [hget]
    | some e => cases e <;> simp [hget]

/-- The padded table has as many empty slots as the shortage count says. -/
theorem openTable_emptySlots (pool : GroupBlockPool) (r : RequestId) (p size : Nat) :
    emptySlots (pool.openTable r p size) r (List.range size) =
      size - (pool.table r).length + ((pool.table r).take size).countP (·.isNone) := by
  rw [emptySlots, countP_range_eq, openTable_table_self, List.take_append, List.countP_append,
    List.take_replicate, Nat.min_self, List.countP_replicate]
  simp [Nat.add_comm]

/-- What one pool's growth to `tokenCount` tokens does. -/
structure Grown (pool : GroupBlockPool) (pins : BlockId → Nat) (r : RequestId) (p tokenCount : Nat)
    (pool' : GroupBlockPool) : Prop where
  inv : PoolInv pool' pins
  spec : pool'.spec = pool.spec
  perPartition : pool'.blocksPerPartition = pool.blocksPerPartition
  requestPartitions : pool'.requestPartitions = pool.requestPartitions.setDefault r p
  tables : ∀ r', r' ≠ r → pool'.table r' = pool.table r'
  length : (pool'.table r).length =
    max (pool.table r).length (pool.tableSize (pool.logicalGroupBlocks tokenCount))
  logical : pool'.logicalBlocks r =
    max (pool.logicalBlocks r) (pool.logicalGroupBlocks tokenCount)
  logical_ne : ∀ r', r' ≠ r → pool'.logicalBlocks r' = pool.logicalBlocks r'
  filled : ∀ s < pool.tableSize (pool.logicalGroupBlocks tokenCount), Filled pool' r s
  /-- A block new to the table had no reference before. -/
  fresh : ∀ b, some b ∈ pool'.table r → some b ∈ pool.table r ∨ (pool.blocks b).refCnt = 0
  /-- A slot no new logical block is rotated into keeps its block. -/
  kept : ∀ s c, (pool.table r)[s]? = some (some c) →
    (∀ i, pool.logicalBlocks r ≤ i → i < pool.logicalGroupBlocks tokenCount →
      pool.ringSize ≤ i → i % pool.ringSize ≠ s) →
    (pool'.table r)[s]? = some (some c)

theorem Growing.finish {n k : Nat} (h : Growing pool₀ pins r p pool n)
    (hfull : pool.rolling = false → ∀ r', none ∉ pool.table r') :
    PoolInv (pool.setLogical r k) pins := by
  obtain ⟨⟨free, hc, -⟩, hw, -⟩ := h
  exact ⟨⟨free, hc.congr rfl rfl rfl rfl rfl fun _ => rfl⟩,
    ⟨hw.partition_lt, hw.entries, hw.distinct⟩, hfull⟩

/-- A full-history table lacks the slots that it does not have yet. -/
theorem emptySlots_le_additional {t size : Nat} (h : PoolInv pool pins)
    (hroll : pool.rolling = false) (hfits : pool.logicalGroupBlocks t ≤ pool.ringSize)
    (hsize : size = pool.tableSize (pool.logicalGroupBlocks t)) :
    emptySlots (pool.openTable r p size) r (List.range size) ≤ pool.additionalGroupBlocks r t := by
  have hnone : ((pool.table r).take size).countP (·.isNone) = 0 := by
    rw [List.countP_eq_zero]
    intro e he hn
    rw [Option.isNone_iff_eq_none] at hn
    subst hn
    exact h.full hroll r (List.mem_of_mem_take he)
  have htarget : size = pool.logicalGroupBlocks t := by simp [hsize, tableSize, hroll]
  rw [openTable_emptySlots, hnone, htarget]
  simp only [additionalGroupBlocks, hroll]
  simp
  rw [if_neg (by omega)]
  omega

/-- A ring lacks its empty slots and the shared slots that it writes again. -/
theorem emptySlots_add_sharedSlots {t size : Nat} (hroll : pool.rolling = true)
    (hsize : size = pool.tableSize (pool.logicalGroupBlocks t)) :
    emptySlots (pool.openTable r p size) r (List.range size) +
      sharedSlots (pool.openTable r p size) r (List.range' (pool.logicalBlocks r)
        (pool.logicalGroupBlocks t - pool.logicalBlocks r)) = pool.additionalGroupBlocks r t := by
  have hmin : size = min (pool.logicalGroupBlocks t) pool.ringSize := by
    simp [hsize, tableSize, hroll]
  have hshared : (pool.openTable r p size).sharedSlot r = pool.sharedSlot r :=
    funext (openTable_sharedSlot pool r p size)
  have hslot : (pool.openTable r p size).ringSlot = pool.ringSlot := rfl
  rw [openTable_emptySlots, sharedSlots, hshared, hslot]
  simp only [additionalGroupBlocks, hroll, ← hmin]
  simp

/-- A table whose first `size` slots the growth has filled. -/
structure TableFilled (pool : GroupBlockPool) (r : RequestId) (p size : Nat)
    (pool' : GroupBlockPool) : Prop where
  frame : GrowFrame (pool.openTable r p size) pool' r
  filled : ∀ s < size, Filled pool' r s
  kept : ∀ (s : Nat) (c : BlockId), (pool.table r)[s]? = some (some c) →
    (pool'.table r)[s]? = some (some c)
  shared : pool'.sharedSlot r = pool.sharedSlot r

theorem fillTable_spec {size n : Nat} (h : Growing pool₀ pins r p (pool.openTable r p size)
      (emptySlots (pool.openTable r p size) r (List.range size) + n)) :
    ∃ pool', (List.range size).foldlM (fillSlot r p) (pool.openTable r p size) = .ok pool' ∧
      Growing pool₀ pins r p pool' n ∧ TableFilled pool r p size pool' := by
  have hlt : ∀ s ∈ List.range size, s < ((pool.openTable r p size).table r).length := by
    intro s hs
    have := List.mem_range.mp hs
    rw [openTable_table_self, List.length_append, List.length_replicate]
    omega
  obtain ⟨pool', hok, hg, hfr, hfill, hkeep, -, hsh⟩ :=
    fillLoop_spec (List.range size) List.nodup_range h hlt
  refine ⟨pool', hok, hg, hfr, fun s hs => hfill s (List.mem_range.mpr hs), fun s c hc => ?_, ?_⟩
  · apply hkeep
    rw [openTable_table_self, List.getElem?_append_left (List.getElem?_eq_some_iff.mp hc).1, hc]
  · funext s
    rw [hsh, openTable_sharedSlot]

namespace TableFilled
variable {size : Nat}

theorem length (h : TableFilled pool r p size pool') :
    (pool'.table r).length = max (pool.table r).length size := by
  rw [h.frame.length, openTable_table_self, List.length_append, List.length_replicate]
  omega

theorem tables (h : TableFilled pool r p size pool') {r' : RequestId} (hr : r' ≠ r) :
    pool'.table r' = pool.table r' :=
  (h.frame.tables r' hr).trans (table_insert_ne rfl hr)

/-- A full-history table stays without empty slots. -/
theorem full (h : TableFilled pool r p size pool') (hpool : PoolInv pool pins)
    (hroll : pool.rolling = false) : ∀ r', none ∉ pool'.table r' := by
  intro r' hn
  by_cases hr : r' = r
  · subst hr
    obtain ⟨s, hs⟩ := List.getElem?_of_mem hn
    by_cases hlt : s < size
    · obtain ⟨c, hc⟩ := h.filled s hlt
      rw [hc] at hs
      cases hs
    · have hs' := (List.getElem?_eq_some_iff.mp hs).1
      rw [h.length] at hs'
      have hin : s < (pool.table r').length := by omega
      cases he : (pool.table r')[s] with
      | none => exact hpool.full hroll r' (he ▸ List.getElem_mem hin)
      | some c =>
        have := h.kept s c (by rw [List.getElem?_eq_getElem hin, he])
        rw [this] at hs
        cases hs
  · rw [h.tables hr] at hn
    exact hpool.full hroll r' hn

end TableFilled

/-- Recording the logical length ends the growth. -/
theorem GrowFrame.grown {t size : Nat} (hfr : GrowFrame (pool.openTable r p size) pool' r)
    (hsize : size = pool.tableSize (pool.logicalGroupBlocks t))
    (hinv : PoolInv (pool'.setLogical r (max (pool.logicalBlocks r) (pool.logicalGroupBlocks t)))
      pins)
    (hfilled : ∀ s < size, Filled pool' r s)
    (hfresh : ∀ b, some b ∈ pool'.table r → some b ∈ pool.table r ∨ (pool.blocks b).refCnt = 0)
    (hkept : ∀ (s : Nat) (c : BlockId), (pool.table r)[s]? = some (some c) →
      (∀ i, pool.logicalBlocks r ≤ i → i < pool.logicalGroupBlocks t →
        pool.ringSize ≤ i → i % pool.ringSize ≠ s) → (pool'.table r)[s]? = some (some c)) :
    Grown pool pins r p t
      (pool'.setLogical r (max (pool.logicalBlocks r) (pool.logicalGroupBlocks t))) where
  inv := hinv
  spec := hfr.spec
  perPartition := hfr.perPartition
  requestPartitions := hfr.requestPartitions
  tables := fun r' hr => (hfr.tables r' hr).trans (table_insert_ne rfl hr)
  length := by
    show (pool'.table r).length = _
    rw [hfr.length, openTable_table_self, List.length_append, List.length_replicate, ← hsize]
    omega
  logical := by rw [setLogical, logicalBlocks, AList.lookup_insert]; rfl
  logical_ne := fun r' hr => by
    rw [setLogical, logicalBlocks, AList.lookup_insert_ne hr, hfr.requestLogicalBlocks]
    rfl
  filled := by
    rw [← hsize]
    exact hfilled
  fresh := hfresh
  kept := hkept

/-- Growing a table succeeds when the shortage count fits in the free queue: exactly the
counted blocks are taken, and everything else is left alone. -/
theorem ensureTable_spec {t : Nat} (h : PoolInv pool pins) (hp : p < pool.spec.numPartitions)
    (ha : ∀ q, pool.requestPartitions.lookup r = some q → q = p)
    (hsize : pool.rolling = false → pool.logicalGroupBlocks t ≤ pool.ringSize)
    (hroom : pool.additionalGroupBlocks r t ≤ pool.numFreeBlocksIn p) :
    ∃ pool', pool.ensureTable r p t = .ok pool' ∧ Grown pool pins r p t pool' := by
  set target := pool.logicalGroupBlocks t with htarget
  set size := pool.tableSize target with hsz
  have hopen := fun {n} (hn : n ≤ pool.additionalGroupBlocks r t) =>
    openTable_spec h hp ha (hn.trans hroom) size
  cases hroll : pool.rolling with
  | false =>
    have hneed := emptySlots_le_additional (r := r) (p := p) h hroll (hsize hroll) hsz
    obtain ⟨pool₁, hok₁, hg₁, hf₁⟩ := fillTable_spec (n := 0) (hopen hneed)
    have hroll₁ : pool₁.rolling = false := by
      rw [rolling, hf₁.frame.spec]
      exact hroll
    have hlog₁ : pool₁.logicalBlocks r = pool.logicalBlocks r := by
      rw [logicalBlocks, hf₁.frame.requestLogicalBlocks]
      rfl
    refine ⟨pool₁.setLogical r (max (pool.logicalBlocks r) target), ?_, ?_⟩
    · refine bind_eq_ok.mpr ⟨pool₁, hok₁, ?_⟩
      dsimp only
      rw [if_neg (by simp [hroll₁]), hlog₁]
      rfl
    · exact hf₁.frame.grown hsz (hg₁.finish fun _ => hf₁.full h hroll) hf₁.filled hg₁.entry_fresh
        fun s c hc _ => hf₁.kept s c hc
  | true =>
    have hneed := emptySlots_add_sharedSlots (p := p) (r := r) hroll hsz
    obtain ⟨pool₁, hok₁, hg₁, hf₁⟩ := fillTable_spec (hopen hneed.le)
    have hring₁ : pool₁.ringSize = pool.ringSize := by rw [ringSize, ringSize, hf₁.frame.spec]; rfl
    have hroll₁ : pool₁.rolling = true := by
      rw [rolling, hf₁.frame.spec]
      exact hroll
    have hlog₁ : pool₁.logicalBlocks r = pool.logicalBlocks r := by
      rw [logicalBlocks, hf₁.frame.requestLogicalBlocks]
      rfl
    -- The fill left the shared slots as the shortage count found them.
    have hshared : sharedSlots pool₁ r (List.range' (pool.logicalBlocks r)
        (target - pool.logicalBlocks r)) = sharedSlots (pool.openTable r p size) r
          (List.range' (pool.logicalBlocks r) (target - pool.logicalBlocks r)) := by
      rw [sharedSlots, sharedSlots, funext hf₁.frame.ringSlot, hf₁.shared,
        funext (openTable_sharedSlot pool r p size)]
    rw [← hshared] at hg₁
    have hpos : 0 < pool.ringSize := pool.spec.maxBlocksPerSeq_pos
    obtain ⟨pool₂, hok₂, hg₂, hfr₂, hfill₂, hkeep₂⟩ := rotateLoop_spec _ hg₁ (by
      intro i hi hge
      rw [hring₁] at hge ⊢
      apply hf₁.filled
      have := Nat.mod_lt i hpos
      have hi' := List.mem_range'_1.mp hi
      rw [hsz, tableSize, hroll, if_pos rfl]
      omega)
    have hroll₂ : pool₂.rolling = true := by
      rw [rolling, hfr₂.spec]
      exact hroll₁
    refine ⟨pool₂.setLogical r (max (pool.logicalBlocks r) target), ?_, ?_⟩
    · refine bind_eq_ok.mpr ⟨pool₁, hok₁, ?_⟩
      dsimp only
      rw [if_pos hroll₁, hlog₁, bind_eq_ok]
      exact ⟨pool₂, hok₂, rfl⟩
    · refine (hf₁.frame.trans hfr₂).grown hsz
        (hg₂.finish fun hf => absurd (hf.symm.trans hroll₂) (by decide))
        (fun s hs => hfill₂ s (hf₁.filled s hs)) hg₂.entry_fresh fun s c hc hs => ?_
      refine (hkeep₂ s ?_).trans (hf₁.kept s c hc)
      intro i hi hge
      rw [hring₁] at hge ⊢
      have hi' := List.mem_range'_1.mp hi
      exact hs i hi'.1 (by omega) hge

end PyptoServing.Memory.GroupBlockPool
