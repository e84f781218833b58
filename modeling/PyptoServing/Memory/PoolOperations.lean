import Mathlib.Data.List.ReduceOption
import PyptoServing.Memory.PoolTables

/-!
# Releases, prefix hits, pins and publication on one pool

The remaining operations of a pool keep `PoolInv`: each loop hands its blocks over
one by one, so its invariant counts the blocks still to come.
-/
namespace PyptoServing.Memory.GroupBlockPool

open Lib Lib.Fallible

variable {pool pool' cur : GroupBlockPool} {free : Nat → List BlockId}
  {holders pins : BlockId → Nat} {r : RequestId} {p : Nat} {b : BlockId}

/-- Block operations that balance keep the invariant. -/
theorem PoolInv.of_sameTables (h : PoolInv pool pins) (ht : SameTables pool pool')
    {pins' : BlockId → Nat}
    (hc : Conserved pool' free fun b => pool.tableHolds b + pins' b) : PoolInv pool' pins' := by
  refine ⟨⟨free, ?_⟩, h.tables.congr ht, ?_⟩
  · have : ∀ c, pool'.tableHolds c = pool.tableHolds c := fun c => by
      rw [tableHolds, tableHolds, ht.requestBlocks]
    simpa only [this] using hc
  · intro hf r
    rw [rolling, ht.spec] at hf
    rw [ht.table]
    exact h.full hf r

theorem count_reduceOption (l : List (Option BlockId)) (c : BlockId) :
    l.reduceOption.count c = l.count (some c) := by
  induction l with
  | nil => rfl
  | cons e l ih =>
    cases e with
    | none => simp [List.reduceOption_cons_of_none, ih]
    | some d => simp [List.reduceOption_cons_of_some, List.count_cons, ih]

theorem mem_reduceOption {l : List (Option BlockId)} : b ∈ l.reduceOption ↔ some b ∈ l := by
  rw [← List.count_pos_iff, count_reduceOption, List.count_pos_iff]

/-- Giving back one reference to each block of `l`. -/
theorem dropLoop_spec {f : GroupBlockPool → BlockId → Except KvError GroupBlockPool}
    (hf : ∀ pool b, (pool.blocks b).refCnt ≠ 0 → f pool b = .ok (pool.dropReference p b)) :
    ∀ (l : List BlockId) (cur : GroupBlockPool) (free : Nat → List BlockId) (rest : BlockId → Nat),
      Conserved cur free (fun c => rest c + l.count c) → (∀ b ∈ l, cur.InPartition p b) →
      ∃ pool' free', l.foldlM f cur = .ok pool' ∧ SameTables cur pool' ∧
        Conserved pool' free' rest := by
  intro l
  induction l with
  | nil =>
    intro cur free rest hc _
    exact ⟨cur, free, rfl, .refl cur, by simpa using hc⟩
  | cons b l ih =>
    intro cur free rest hc hin
    have hheld : rest b + (b :: l).count b ≠ 0 := by simp
    have hdrop := hc.dropReference (hin b (by simp)) hheld
    have hht : Function.update (fun c => rest c + (b :: l).count c) b
        (rest b + (b :: l).count b - 1) = fun c => rest c + l.count c := by
      funext c
      by_cases hcb : c = b
      · subst hcb; simp
      · simp [hcb, Ne.symm hcb]
    rw [hht] at hdrop
    have ht := sameTables_dropReference cur p b
    obtain ⟨pool', free', hok, ht', hc'⟩ := ih _ _ rest hdrop
      (fun c hcl => ht.inPartition.mpr (hin c (by simp [hcl])))
    refine ⟨pool', free', ?_, ht.trans ht', hc'⟩
    rw [List.foldlM_cons, bind_eq_ok]
    exact ⟨_, hf cur b (by rw [hc.refCnt]; exact hheld), hok⟩

/-- What releasing a request does to one pool. -/
structure Released (pool : GroupBlockPool) (pins : BlockId → Nat) (r : RequestId)
    (pool' : GroupBlockPool) : Prop where
  inv : PoolInv pool' pins
  spec : pool'.spec = pool.spec
  perPartition : pool'.blocksPerPartition = pool.blocksPerPartition
  requestPartitions : pool'.requestPartitions = pool.requestPartitions.erase r
  requestBlocks : pool'.requestBlocks = pool.requestBlocks.erase r
  requestLogicalBlocks : pool'.requestLogicalBlocks = pool.requestLogicalBlocks.erase r

/-- A release never meets a block without a reference. -/
theorem releaseRequest_spec (h : PoolInv pool pins) (r : RequestId) :
    ∃ pool', pool.releaseRequest r = .ok pool' ∧ Released pool pins r pool' := by
  obtain ⟨free, hc⟩ := h.conserved
  set cleared : GroupBlockPool := { pool with
    requestPartitions := pool.requestPartitions.erase r
    requestLogicalBlocks := pool.requestLogicalBlocks.erase r
    requestBlocks := pool.requestBlocks.erase r } with hcl
  have hholds : ∀ c, cleared.tableHolds c + (pool.table r).count (some c) = pool.tableHolds c :=
    tableHolds_erase rfl
  have htable : ∀ r', r' ≠ r → cleared.table r' = pool.table r' := fun r' hr => by
    rw [table, hcl, AList.lookup_erase_ne hr, table]
  have hself : cleared.table r = [] := by
    rw [table, hcl, AList.lookup_erase, Option.getD_none]
  have htables : TablesWellFormed cleared := by
    refine h.tables.rebind (r := r) rfl (fun _ _ hin => hin)
      (fun r' hr => AList.lookup_erase_ne hr) htable (fun q hq => ?_) (fun c hmem => ?_)
      fun c => ?_
    · rw [hcl, AList.lookup_erase] at hq
      cases hq
    · rw [hself] at hmem
      cases hmem
    · simp [hself]
  have hfull : cleared.rolling = false → ∀ r', none ∉ cleared.table r' := by
    intro hf r'
    by_cases hr : r' = r
    · subst hr
      simp [hself]
    · rw [htable r' hr]
      exact h.full hf r'
  have hcleared : Conserved cleared free
      (fun c => cleared.tableHolds c + pins c + (pool.table r).reduceOption.count c) := by
    refine hc.congr rfl rfl rfl rfl rfl fun c => ?_
    have := hholds c
    rw [count_reduceOption]
    omega
  unfold releaseRequest
  cases hq : pool.requestPartitions.lookup r with
  | none =>
    have hnone := h.tables.unassigned hq
    have hany : (pool.table r).any (·.isSome) = false := by
      rw [List.any_eq_false]
      intro e he hs
      obtain ⟨c, rfl⟩ := Option.isSome_iff_exists.mp hs
      exact hnone c he
    refine ⟨cleared, by simp [hany, hcl], ⟨⟨free, ?_⟩, htables, hfull⟩, rfl, rfl, rfl, rfl, rfl⟩
    refine hcleared.congr rfl rfl rfl rfl rfl fun c => ?_
    rw [count_reduceOption, List.count_eq_zero.mpr (hnone c)]
    rfl
  | some p =>
    have hin : ∀ c ∈ (pool.table r).reduceOption, cleared.InPartition p c := by
      intro c hmem
      obtain ⟨q, hq', hin⟩ := h.tables.entries r c (mem_reduceOption.mp hmem)
      rw [hq] at hq'
      cases hq'
      exact hin
    obtain ⟨pool', free', hok, ht, hc'⟩ := dropLoop_spec (p := p)
      (f := fun pool b =>
        if (pool.blocks b).refCnt = 0 then
          .error (.runtime s!"Grouped KV block {b} has invalid ref_cnt={(pool.blocks b).refCnt}")
        else .ok (pool.dropReference p b))
      (fun pool b hb => if_neg hb) _ cleared free _ hcleared hin
    have hinv : PoolInv cleared (fun c => pins c + (pool.table r).reduceOption.count c) :=
      ⟨⟨free, by simpa only [Nat.add_assoc] using hcleared⟩, htables, hfull⟩
    exact ⟨pool', hok, hinv.of_sameTables ht hc', ht.spec, ht.perPartition, ht.requestPartitions,
      ht.requestBlocks, ht.requestLogicalBlocks⟩

/-- Taking one more reference to each block of `l`. -/
theorem referenceLoop_spec :
    ∀ (l : List BlockId) (cur : GroupBlockPool) (free : Nat → List BlockId) (held : BlockId → Nat),
      Conserved cur free held → (∀ b ∈ l, cur.InPartition p b) →
      ∃ free', SameTables cur (l.foldl (reference · p) cur) ∧
        Conserved (l.foldl (reference · p) cur) free' (fun c => held c + l.count c) := by
  intro l
  induction l with
  | nil =>
    intro cur free held hc _
    exact ⟨free, .refl cur, by simpa using hc⟩
  | cons b l ih =>
    intro cur free held hc hin
    obtain ⟨free₁, hc₁⟩ := hc.reference (hin b (by simp))
    have ht := sameTables_reference cur p b
    obtain ⟨free₂, ht₂, hc₂⟩ := ih _ free₁ _ hc₁
      (fun c hcl => ht.inPartition.mpr (hin c (by simp [hcl])))
    refine ⟨free₂, ht.trans ht₂, hc₂.congr rfl rfl rfl rfl rfl fun c => ?_⟩
    by_cases hcb : c = b
    · subst hcb; simp; omega
    · simp [hcb, Ne.symm hcb]

/-- What attaching a prefix hit does to one pool. -/
structure Attached (pool : GroupBlockPool) (pins : BlockId → Nat) (r : RequestId) (p : Nat)
    (owned : List (Option BlockId)) (logical : Nat) (pool' : GroupBlockPool) : Prop where
  inv : PoolInv pool' pins
  spec : pool'.spec = pool.spec
  perPartition : pool'.blocksPerPartition = pool.blocksPerPartition
  requestPartitions : pool'.requestPartitions = pool.requestPartitions.insert r p
  requestBlocks : pool'.requestBlocks = pool.requestBlocks.insert r owned
  requestLogicalBlocks :
    pool'.requestLogicalBlocks = pool.requestLogicalBlocks.insert r logical

theorem attachPrefix_spec {owned : List (Option BlockId)} (h : PoolInv pool pins)
    (hp : p < pool.spec.numPartitions) (hnew : pool.requestPartitions.lookup r = none)
    (hin : ∀ b, some b ∈ owned → pool.InPartition p b)
    (hdistinct : ∀ b, owned.count (some b) ≤ 1)
    (hfull : pool.rolling = false → none ∉ owned) (hitTokens : Nat) :
    Attached pool pins r p owned (hitTokens / pool.capacity)
      (pool.attachPrefix r p owned hitTokens) := by
  obtain ⟨free, hc⟩ := h.conserved
  set bound : GroupBlockPool := { pool with
    requestBlocks := pool.requestBlocks.insert r owned
    requestPartitions := pool.requestPartitions.insert r p
    requestLogicalBlocks := pool.requestLogicalBlocks.insert r (hitTokens / pool.capacity) }
    with hbound
  have hholds : ∀ c, bound.tableHolds c = pool.tableHolds c + owned.count (some c) := by
    intro c
    have hbind : bound.requestBlocks = pool.requestBlocks.insert r owned := rfl
    have := tableHolds_insert hbind c
    rw [List.count_eq_zero.mpr (h.tables.unassigned hnew c)] at this
    exact this
  have hself : bound.table r = owned := table_insert_self rfl
  have hne : ∀ r', r' ≠ r → bound.table r' = pool.table r' := fun r' hr => table_insert_ne rfl hr
  have hassigned : bound.requestPartitions.lookup r = some p := AList.lookup_insert _
  have htables : TablesWellFormed bound := by
    refine h.tables.rebind (r := r) rfl (fun _ _ hin => hin)
      (fun r' hr => AList.lookup_insert_ne hr) hne (fun q hq => ?_) (fun c hmem => ?_)
      fun c => ?_
    · rw [hassigned] at hq
      cases hq
      exact hp
    · rw [hself] at hmem
      exact ⟨p, hassigned, hin c hmem⟩
    · rw [hself]
      exact hdistinct c
  obtain ⟨free', ht, hc'⟩ := referenceLoop_spec (p := p) owned.reduceOption bound free
    (fun c => pool.tableHolds c + pins c) (hc.congr rfl rfl rfl rfl rfl fun _ => rfl)
    (fun c hmem => hin c (mem_reduceOption.mp hmem))
  have hinv : PoolInv (pool.attachPrefix r p owned hitTokens) pins := by
    refine ⟨⟨free', ?_⟩, htables.congr ht, ?_⟩
    · refine hc'.congr rfl rfl rfl rfl rfl fun c => ?_
      have hsame : (pool.attachPrefix r p owned hitTokens).tableHolds c = bound.tableHolds c := by
        rw [tableHolds, tableHolds]
        exact congrArg (Dict.weight fun owned => owned.count (some c)) ht.requestBlocks
      rw [hsame, hholds, count_reduceOption]
      omega
    · intro hf r'
      have hf' : pool.rolling = false := by
        have hs : (pool.attachPrefix r p owned hitTokens).spec = pool.spec := ht.spec
        rw [rolling, hs] at hf
        exact hf
      have htab : (pool.attachPrefix r p owned hitTokens).table r' = bound.table r' := ht.table r'
      rw [htab]
      by_cases hr : r' = r
      · subst hr
        rw [hself]
        exact hfull hf'
      · rw [hne r' hr]
        exact h.full hf' r'
  exact ⟨hinv, ht.spec, ht.perPartition, ht.requestPartitions, ht.requestBlocks,
    ht.requestLogicalBlocks⟩

/-- An element that stands at one index only counts once. -/
theorem count_le_one_of_unique {α : Type} [BEq α] [LawfulBEq α] {l : List α} {x : α}
    (h : ∀ s s' : Nat, l[s]? = some x → l[s']? = some x → s = s') : l.count x ≤ 1 := by
  by_contra hlt
  have hdup : List.Duplicate x l := by
    rw [List.duplicate_iff_sublist]
    exact List.replicate_sublist_iff.mpr (by omega : 2 ≤ l.count x)
  obtain ⟨i, j, hij, hi, hj⟩ := List.duplicate_iff_exists_distinct_get.mp hdup
  have := h i j (by rw [List.getElem?_eq_getElem i.2]; exact congrArg some hi.symm)
    (by rw [List.getElem?_eq_getElem j.2]; exact congrArg some hj.symm)
  exact absurd (Fin.ext this) (ne_of_lt hij)

/-- The loop over a full history lists the cached pages in order. -/
theorem cachedPages_entry {hashes : List Int} (n : Nat) {owned : List (Option BlockId)}
    (h : (List.range n).foldlM (fun selected i =>
      (pool.cachedPage p hashes i).map fun b => selected ++ [some b]) [] = some owned) :
    owned.length = n ∧
      ∀ s < n, ∃ b, pool.cachedPage p hashes s = some b ∧ owned[s]? = some (some b) := by
  induction n generalizing owned with
  | zero =>
    cases h
    exact ⟨rfl, fun s hs => absurd hs (by omega)⟩
  | succ n ih =>
    rw [List.range_succ, List.foldlM_append] at h
    obtain ⟨before, hbefore, h⟩ := Option.bind_eq_some_iff.mp h
    obtain ⟨hlen, hpages⟩ := ih hbefore
    rw [List.foldlM_cons] at h
    obtain ⟨after, hafter, h⟩ := Option.bind_eq_some_iff.mp h
    cases h
    obtain ⟨c, hc, rfl⟩ := Option.map_eq_some_iff.mp hafter
    refine ⟨by simp [hlen], fun s hs => ?_⟩
    by_cases hlt : s < n
    · rw [List.getElem?_append_left (by omega)]
      exact hpages s hlt
    · obtain rfl : s = n := by omega
      refine ⟨c, hc, ?_⟩
      rw [List.getElem?_append_right (by omega), hlen]
      simp

/-- The loop over a ring writes each page to the slot of its index. -/
theorem ringPages_slot {hashes : List Int} (l : List Nat) {selected owned : List (Option BlockId)}
    (h : ∀ (s : Nat) (b : BlockId), selected[s]? = some (some b) →
      ∃ i, pool.cachedPage p hashes i = some b ∧ s = i % selected.length)
    (hok : l.foldlM (fun selected i => (pool.cachedPage p hashes i).map fun b =>
      selected.set (i % selected.length) (some b)) selected = some owned) :
    ∀ (s : Nat) (b : BlockId), owned[s]? = some (some b) →
      ∃ i, pool.cachedPage p hashes i = some b ∧ s = i % owned.length := by
  induction l generalizing selected with
  | nil =>
    cases hok
    exact h
  | cons i l ih =>
    rw [List.foldlM_cons] at hok
    obtain ⟨next, hnext, hok⟩ := Option.bind_eq_some_iff.mp hok
    obtain ⟨c, hc, rfl⟩ := Option.map_eq_some_iff.mp hnext
    refine ih (fun s b hs => ?_) hok
    rw [List.length_set]
    by_cases hsi : s = i % selected.length
    · have hlt := (List.getElem?_eq_some_iff.mp hs).1
      rw [List.length_set] at hlt
      subst hsi
      rw [List.getElem?_set_self hlt] at hs
      cases hs
      exact ⟨i, hc, rfl⟩
    · rw [List.getElem?_set_ne (Ne.symm hsi)] at hs
      exact h s b hs

/-- Every filled slot of a selected prefix is the cached page of an index that maps to it. -/
theorem selectPrefix_slot {hashes : List Int} {candidate : Nat} {owned : List (Option BlockId)}
    (hok : pool.selectPrefix p hashes candidate = some owned) {s : Nat}
    (hs : owned[s]? = some (some b)) :
    ∃ i, pool.cachedPage p hashes i = some b ∧
      s = if pool.rolling then i % owned.length else i := by
  unfold selectPrefix at hok
  dsimp only at hok
  split at hok
  · cases hok
  · split at hok
    · next hwin =>
      have hroll : pool.rolling = false := by simp [rolling, hwin]
      split at hok
      · cases hok
      · obtain ⟨hlen, hpages⟩ := cachedPages_entry _ hok
        obtain ⟨c, hc, hown⟩ := hpages s (hlen ▸ (List.getElem?_eq_some_iff.mp hs).1)
        rw [hs] at hown
        cases hown
        exact ⟨s, hc, by simp [hroll]⟩
    · next window hwin =>
      have hroll : pool.rolling = true := by simp [rolling, hwin]
      obtain ⟨i, hi, hs'⟩ := ringPages_slot _ (by
        intro s b hs
        rw [List.getElem?_replicate] at hs
        split at hs <;> cases hs) hok s b hs
      exact ⟨i, hi, by rw [hroll, if_pos rfl]; exact hs'⟩

/-- A selected full-history prefix has no empty slot. -/
theorem selectPrefix_full {hashes : List Int} {candidate : Nat} {owned : List (Option BlockId)}
    (hok : pool.selectPrefix p hashes candidate = some owned) (hroll : pool.rolling = false) :
    none ∉ owned := by
  unfold selectPrefix at hok
  dsimp only at hok
  split at hok
  · cases hok
  · split at hok
    · split at hok
      · cases hok
      · obtain ⟨hlen, hpages⟩ := cachedPages_entry _ hok
        intro hnone
        obtain ⟨s, hs⟩ := List.getElem?_of_mem hnone
        obtain ⟨c, -, hown⟩ := hpages s (hlen ▸ (List.getElem?_eq_some_iff.mp hs).1)
        rw [hs] at hown
        cases hown
    · next window hwin => simp [rolling, hwin] at hroll

/-- The pages of a hit under pairwise different hashes are different blocks of the
partition. -/
theorem selectPrefix_spec {hashes : List Int} {candidate : Nat} {owned : List (Option BlockId)}
    (h : PoolInv pool pins) (hnd : hashes.Nodup)
    (hok : pool.selectPrefix p hashes candidate = some owned) :
    (∀ b, some b ∈ owned → pool.InPartition p b) ∧ (∀ b, owned.count (some b) ≤ 1) ∧
      (pool.rolling = false → none ∉ owned) := by
  obtain ⟨free, hc⟩ := h.conserved
  have hpage : ∀ {i b}, pool.cachedPage p hashes i = some b →
      pool.InPartition p b ∧ ∃ x, hashes[i]? = some x ∧ (pool.blocks b).blockHash = some x := by
    intro i b hi
    obtain ⟨x, hx, hidx⟩ := Option.bind_eq_some_iff.mp hi
    obtain ⟨hin, hhash⟩ := hc.indexed p x b hidx
    exact ⟨hin, x, hx, hhash⟩
  refine ⟨?_, ?_, selectPrefix_full hok⟩
  · intro b hb
    obtain ⟨s, hs⟩ := List.getElem?_of_mem hb
    obtain ⟨i, hi, -⟩ := selectPrefix_slot hok hs
    exact (hpage hi).1
  · intro b
    apply count_le_one_of_unique
    intro s s' hs hs'
    obtain ⟨i, hi, rfl⟩ := selectPrefix_slot hok hs
    obtain ⟨j, hj, rfl⟩ := selectPrefix_slot hok hs'
    obtain ⟨-, x, hx, hbx⟩ := hpage hi
    obtain ⟨-, y, hy, hby⟩ := hpage hj
    rw [hbx] at hby
    cases hby
    obtain ⟨h1, h2⟩ := List.getElem?_eq_some_iff.mp hx
    obtain ⟨h3, h4⟩ := List.getElem?_eq_some_iff.mp hy
    rw [(List.Nodup.getElem_inj_iff hnd).mp (h2.trans h4.symm)]

/-- Pinning the blocks of `bs`, none of which is free. -/
theorem pinBlocks_spec :
    ∀ (bs : List BlockId) (cur : GroupBlockPool) (held : BlockId → Nat),
      Conserved cur free held → (∀ b ∈ bs, held b ≠ 0) →
      SameTables cur (cur.pinBlocks bs) ∧
        Conserved (cur.pinBlocks bs) free (fun c => held c + bs.count c) := by
  intro bs
  induction bs with
  | nil => exact fun cur held hc _ => ⟨.refl cur, by simpa [pinBlocks] using hc⟩
  | cons b bs ih =>
    intro cur held hc hheld
    have hb := hheld b (by simp)
    have hc₁ := hc.recount hb (n := held b + 1) (by omega)
      (f := fun block => { block with refCnt := block.refCnt + 1 })
      (fun x hx => by simp [hx]) (fun x => ⟨rfl, rfl, rfl⟩)
    obtain ⟨ht, hc₂⟩ := ih _ _ hc₁ (by
      intro c hcb
      rw [Function.update_apply]
      split
      · omega
      · exact hheld c (by simp [hcb]))
    refine ⟨(sameTables_modifyBlock cur b _).trans ht, hc₂.congr rfl rfl rfl rfl rfl fun c => ?_⟩
    by_cases hcb : c = b
    · subst hcb; simp; omega
    · simp [hcb, Ne.symm hcb]

/-- The blocks that the local ids of a snapshot name. -/
def snapshotBlocks (pool : GroupBlockPool) (p : Nat) (ids : List Nat) : List BlockId :=
  ids.map fun id => p * pool.blocksPerPartition + id

/-- A snapshot that can be pinned names held blocks of its partition. -/
theorem pinnable_spec (hc : Conserved pool free holders) {ids : List Nat} {bs : List BlockId}
    (hok : pool.pinnable p ids = .ok bs) :
    bs = pool.snapshotBlocks p ids ∧ ids.Nodup ∧
      (∀ id ∈ ids, p < pool.spec.numPartitions ∧ id < pool.blocksPerPartition) ∧
      ∀ b ∈ bs, holders b ≠ 0 := by
  unfold pinnable at hok
  split at hok
  · cases hok
  · next hnd =>
    rw [mapM_eq_ok] at hok
    have hall : List.Forall₂ (fun id b => (p < pool.spec.numPartitions ∧
        id < pool.blocksPerPartition) ∧ b = p * pool.blocksPerPartition + id ∧ holders b ≠ 0)
        ids bs := by
      refine hok.imp fun id b hb => ?_
      obtain ⟨c, hlocal, hrest⟩ := bind_eq_ok.mp hb
      obtain ⟨h1, h2, rfl⟩ := blockFromLocalId_eq_ok.mp hlocal
      split at hrest
      · cases hrest
      · next hne =>
        cases hrest
        rw [hc.refCnt] at hne
        exact ⟨⟨h1, h2⟩, rfl, hne⟩
    refine ⟨?_, not_not.mp hnd, ?_, ?_⟩
    · clear hok hnd
      induction hall with
      | nil => rfl
      | cons hr _ ih =>
        rw [snapshotBlocks, List.map_cons, hr.2.1]
        exact congrArg _ ih
    · intro id hid
      obtain ⟨b, _, hb⟩ := forall₂_mem_right hall.flip hid
      exact hb.1
    · intro b hb
      obtain ⟨id, _, hid⟩ := forall₂_mem_right hall hb
      exact hid.2.2

/-- Unpinning a pinned snapshot never meets a block without a reference. -/
theorem unpin_spec {ids : List Nat} {rest : BlockId → Nat}
    (hc : Conserved pool free fun c => rest c + (pool.snapshotBlocks p ids).count c)
    (hids : ∀ id ∈ ids, p < pool.spec.numPartitions ∧ id < pool.blocksPerPartition) :
    ∃ pool' free', pool.unpin p ids = .ok pool' ∧ SameTables pool pool' ∧
      Conserved pool' free' rest := by
  unfold unpin
  induction ids generalizing pool free with
  | nil => exact ⟨pool, free, rfl, .refl pool, by simpa [snapshotBlocks] using hc⟩
  | cons id ids ih =>
    obtain ⟨hp, hid⟩ := hids id (by simp)
    set b := p * pool.blocksPerPartition + id with hb
    have hcons : pool.snapshotBlocks p (id :: ids) = b :: pool.snapshotBlocks p ids := rfl
    rw [hcons] at hc
    have hin : pool.InPartition p b := inPartition_of_local hp hid
    have hheld : rest b + (b :: pool.snapshotBlocks p ids).count b ≠ 0 := by simp
    have hdrop := hc.dropReference hin hheld
    have ht := sameTables_dropReference pool p b
    have hsnap : (pool.dropReference p b).snapshotBlocks p ids = pool.snapshotBlocks p ids := by
      rw [snapshotBlocks, snapshotBlocks, ht.perPartition]
    have hc₁ : Conserved (pool.dropReference p b) _ fun c => rest c +
        ((pool.dropReference p b).snapshotBlocks p ids).count c :=
      hdrop.congr rfl rfl rfl rfl rfl fun c => by
        rw [hsnap]
        by_cases hcb : c = b
        · subst hcb; simp
        · simp [hcb, Ne.symm hcb]
    obtain ⟨pool', free', hok, ht', hc'⟩ := ih hc₁
      (fun id' hid' => by
        rw [ht.spec, ht.perPartition]
        exact hids id' (by simp [hid']))
    refine ⟨pool', free', ?_, ht.trans ht', hc'⟩
    rw [List.foldlM_cons, bind_eq_ok]
    refine ⟨pool.dropReference p b, bind_eq_ok.mpr ⟨b, blockFromLocalId_eq_ok.mpr
      ⟨hp, hid, hb⟩, ?_⟩, hok⟩
    rw [if_neg]
    rw [hc.refCnt]
    exact hheld

/-- Publishing blocks of one partition moves no reference and no table. -/
theorem publishPages_spec (hashes : List Int) {resolve : Nat → Except KvError BlockId} :
    ∀ (pages : List Nat) (cur : GroupBlockPool), Conserved cur free holders →
      (∀ i b, resolve i = .ok b → cur.InPartition p b) →
      SameTables cur (publishPages p hashes resolve cur pages).1 ∧
        Conserved (publishPages p hashes resolve cur pages).1 free holders := by
  intro pages
  induction pages with
  | nil => exact fun cur hc _ => ⟨.refl cur, hc⟩
  | cons i pages ih =>
    intro cur hc hin
    unfold publishPages
    cases hres : resolve i with
    | error e => exact ⟨.refl cur, hc⟩
    | ok b =>
      have ht := sameTables_cacheGroupBlock cur p b (hashes.getD i 0)
      obtain ⟨ht', hc'⟩ := ih _ (hc.cacheGroupBlock (hin i b hres) _)
        (fun j c hj => ht.inPartition.mpr (hin j c hj))
      exact ⟨ht.trans ht', hc'⟩

theorem liveBlock_inPartition (h : PoolInv pool pins)
    (hp : pool.requestPartitions.lookup r = some p) {i : Nat}
    (hok : pool.liveBlock r i = .ok b) : pool.InPartition p b := by
  unfold liveBlock at hok
  dsimp only at hok
  split at hok
  · cases hok
  · split at hok
    · cases hok
    · cases hok
    · next hget =>
      cases hok
      obtain ⟨q, hq, hin⟩ := h.tables.entries r b (List.mem_of_getElem? hget)
      rw [hp] at hq
      cases hq
      exact hin

theorem cacheLive_spec (h : PoolInv pool pins) (hp : pool.requestPartitions.lookup r = some p)
    (hashes : List Int) (n already : Nat) :
    PoolInv (pool.cacheLive r p hashes n already).1 pins ∧
      SameTables pool (pool.cacheLive r p hashes n already).1 := by
  obtain ⟨free, hc⟩ := h.conserved
  obtain ⟨ht, hc'⟩ := publishPages_spec hashes (pool.livePages r hashes n already) pool
    hc (fun i b hok => liveBlock_inPartition h hp hok)
  exact ⟨h.of_sameTables ht hc', ht⟩

theorem snapshotBlock_inPartition {ids : List Nat} {i : Nat}
    (hok : pool.snapshotBlock p ids i = .ok b) : pool.InPartition p b := by
  unfold snapshotBlock at hok
  dsimp only at hok
  split at hok
  · cases hok
  · obtain ⟨h1, h2, rfl⟩ := blockFromLocalId_eq_ok.mp hok
    exact inPartition_of_local h1 h2

theorem cacheSnapshot_spec (h : PoolInv pool pins) (p : Nat) (ids : List Nat) (hashes : List Int)
    (n already : Nat) :
    PoolInv (pool.cacheSnapshot p ids hashes n already).1 pins ∧
      SameTables pool (pool.cacheSnapshot p ids hashes n already).1 := by
  obtain ⟨free, hc⟩ := h.conserved
  unfold cacheSnapshot
  split
  · exact ⟨h, .refl pool⟩
  · obtain ⟨ht, hc'⟩ := publishPages_spec hashes
      (pool.snapshotPages ids hashes n already) pool hc
      (fun i b hok => snapshotBlock_inPartition hok)
    exact ⟨h.of_sameTables ht hc', ht⟩

end PyptoServing.Memory.GroupBlockPool
