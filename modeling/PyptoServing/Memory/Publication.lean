import PyptoServing.Memory.Conservation
import PyptoServing.Memory.RingLedger

/-!
# Publication through a scheduled table

Pages are published from the live table or from the table that was sent with a step.
Both address a rolling table modulo its length. The live path knows how many logical
blocks are allocated and skips those the ring has overwritten; the snapshot path skips
by the number of confirmed pages only. The history of a run records the tokens each
request was grown to and the ledger of each of its tables.
-/
namespace PyptoServing.Memory

open Config Lib Lib.Fallible

namespace GroupBlockPool

/-- A page handed to `_cache_group_block`. -/
structure PublishedPage where
  page : Nat
  hash : Int
  block : BlockId

/-- The pages the publication loop hands over before it ends. -/
def publishedPages (hashes : List Int) (resolve : Nat → Except KvError BlockId) :
    List Nat → List PublishedPage
  | [] => []
  | i :: pages =>
    match resolve i with
    | .error _ => []
    | .ok b => ⟨i, hashes.getD i 0, b⟩ :: publishedPages hashes resolve pages

/-- The pages of `cache_group_blocks_from_snapshot`. -/
def snapshotPublished (pool : GroupBlockPool) (partition : Nat) (blockIds : List Nat)
    (hashes : List Int) (numComputed alreadyCached : Nat) : List PublishedPage :=
  if pool.rolling ∧ 0 < pool.completedPages hashes numComputed ∧ blockIds = [] then []
  else publishedPages hashes (pool.snapshotBlock partition blockIds)
    (pool.snapshotPages blockIds hashes numComputed alreadyCached)

variable {pool pool' : GroupBlockPool} {r : RequestId} {p A n already i : Nat} {led : Ledger}
  {hashes : List Int} {ids : List Nat} {b : BlockId}

theorem mem_publishedPages {resolve : Nat → Except KvError BlockId} {pages : List Nat}
    {e : PublishedPage} (he : e ∈ publishedPages hashes resolve pages) :
    e.page ∈ pages ∧ resolve e.page = .ok e.block ∧ e.hash = hashes.getD e.page 0 := by
  induction pages with
  | nil => cases he
  | cons i pages ih =>
    rw [publishedPages] at he
    cases hi : resolve i with
    | error _ => simp [hi] at he
    | ok b =>
      rw [hi] at he
      rcases List.mem_cons.mp he with rfl | he
      · exact ⟨by simp, hi, rfl⟩
      · obtain ⟨h1, h2⟩ := ih he
        exact ⟨by simp [h1], h2⟩

/-- The ring assigned the page's block to the page's logical block, and no other logical
block that the table still addresses has it. -/
structure AssignedTo (pool : GroupBlockPool) (A : Nat) (led : Ledger) (e : PublishedPage) :
    Prop where
  given : led e.page = some e.block
  only : ∀ j, A - pool.tableSize A ≤ j → j < A → led j = some e.block → j = e.page

/-- The local ids of a table with the ledger `led`. -/
structure ScheduledTable (pool : GroupBlockPool) (r : RequestId) (p A : Nat) (led : Ledger)
    (ids : List Nat) : Prop where
  tracks : Tracks pool r A led
  ids : pool.tableIds r = .ok ids
  distinct : ∀ {s s' : Nat} {b : BlockId}, (pool.table r)[s]? = some (some b) →
    (pool.table r)[s']? = some (some b) → s = s'
  home : ∀ b, some b ∈ pool.table r → pool.InPartition p b

variable (h : ScheduledTable pool r p A led ids)

include h

theorem ScheduledTable.forall₂ :
    List.Forall₂ (fun o id => ∃ b, o = some b ∧ id = pool.localBlockId b) (pool.table r) ids := by
  refine (mapM_eq_ok.mp h.ids).imp fun o id ho => ?_
  cases o with
  | none => cases ho
  | some b =>
    cases ho
    exact ⟨b, rfl, rfl⟩

theorem ScheduledTable.length : ids.length = pool.tableSize A := by
  rw [← h.forall₂.length_eq, h.tracks.length]

/-- A slot of the snapshot resolves to the block the table has there. -/
theorem ScheduledTable.slot {s : Nat} (hs : s < pool.tableSize A) :
    ∃ b, (pool.table r)[s]? = some (some b) ∧ ids[s]? = some (pool.localBlockId b) ∧
      led (pool.slotLogical A s) = some b ∧
      pool.blockFromLocalId p (pool.localBlockId b) = .ok b := by
  have hlen := h.tracks.length
  have hentry := h.tracks.entry s (by omega)
  obtain ⟨b, hb, hid⟩ := h.forall₂.get (i := s) (by omega) (by rw [h.length]; exact hs)
  rw [List.get_eq_getElem] at hb hid
  have hget : (pool.table r)[s]? = some (some b) := by
    rw [List.getElem?_eq_getElem (by omega), hb]
  refine ⟨b, hget, ?_, ?_, ?_⟩
  · rw [List.getElem?_eq_getElem (by rw [h.length]; exact hs), hid]
  · exact Option.some.inj (hentry.symm.trans hget)
  · have hin := h.home b (List.mem_of_getElem? hget)
    exact blockFromLocalId_eq_ok.mpr ⟨hin.lt_numPartitions, hin.local_lt, hin.local_eq.symm⟩

omit h in
/-- The slot a snapshot of length `tableSize A` addresses for page `i`. -/
theorem snapshotSlot (hlen : ids.length = pool.tableSize A) (hi : i < A) :
    (if pool.rolling then i % ids.length else i) = pool.logicalSlot i ∧
      pool.logicalSlot i < pool.tableSize A := by
  unfold logicalSlot
  unfold tableSize at hlen ⊢
  split
  · next hr =>
    rw [if_pos hr] at hlen
    have hR := pool.ringSize_pos
    rw [hlen]
    by_cases hA : A ≤ pool.ringSize
    · rw [Nat.min_eq_left hA, Nat.mod_eq_of_lt hi, Nat.mod_eq_of_lt (by omega)]
      exact ⟨rfl, hi⟩
    · rw [Nat.min_eq_right (by omega)]
      exact ⟨rfl, Nat.mod_lt _ hR⟩
  · exact ⟨rfl, hi⟩

/-- Page `i` resolves to the block given to the logical block in its slot. -/
theorem ScheduledTable.resolve (hi : i < A) :
    ∃ b, pool.snapshotBlock p ids i = .ok b ∧
      led (pool.slotLogical A (pool.logicalSlot i)) = some b ∧
      (pool.table r)[pool.logicalSlot i]? = some (some b) := by
  obtain ⟨hslot, hlt⟩ := snapshotSlot h.length hi
  obtain ⟨b, hget, hid, hled, hlocal⟩ := h.slot hlt
  refine ⟨b, ?_, hled, hget⟩
  rw [snapshotBlock, hslot, hid]
  exact hlocal

/-- A page the table still addresses is published under its own block. -/
theorem ScheduledTable.assigned (hi : i < A) (hheld : A - pool.tableSize A ≤ i)
    (hb : pool.snapshotBlock p ids i = .ok b) (x : Int) : AssignedTo pool A led ⟨i, x, b⟩ := by
  obtain ⟨c, hc, hled, hget⟩ := h.resolve hi
  cases hb.symm.trans hc
  rw [(slotLogical_logicalSlot hi hheld).1] at hled
  refine ⟨hled, fun j hj hjA hjb => ?_⟩
  obtain ⟨hslot, hlt⟩ := slotLogical_logicalSlot hjA hj
  have hgetj := h.tracks.entry (pool.logicalSlot j) (by rw [h.tracks.length]; exact hlt)
  rw [hslot, hjb] at hgetj
  rw [← hslot, h.distinct hgetj hget, (slotLogical_logicalSlot hi hheld).1]

/-- A page the ring has overwritten is published under the block of another page. -/
theorem ScheduledTable.misassigned (hi : i < A) (hlost : i < A - pool.tableSize A)
    (hb : pool.snapshotBlock p ids i = .ok b) (x : Int) : ¬ AssignedTo pool A led ⟨i, x, b⟩ := by
  intro ha
  obtain ⟨c, hc, hled, -⟩ := h.resolve hi
  cases hb.symm.trans hc
  obtain ⟨-, hlt⟩ := snapshotSlot h.length hi
  have hwin : A - pool.tableSize A ≤ pool.slotLogical A (pool.logicalSlot i) := slotLogical_window
  have := ha.only _ hwin (slotLogical_lt hlt) hled
  dsimp only at this
  omega

/-- The `confirmed` pages from `already` on exclude those the ring has overwritten: there
is nothing new to publish, or nothing past `already` is lost, or every allocated block
is confirmed. -/
def SkipsOverwritten (pool : GroupBlockPool) (A confirmed already : Nat) : Prop :=
  confirmed ≤ already ∨ A - pool.ringSize ≤ already ∨ A ≤ confirmed

omit h in
instance (pool : GroupBlockPool) (A confirmed already : Nat) :
    Decidable (pool.SkipsOverwritten A confirmed already) :=
  inferInstanceAs (Decidable (_ ∨ _ ∨ _))

omit h in
/-- The pages of the snapshot path are confirmed, and addressed by the table when
`SkipsOverwritten` holds. -/
theorem mem_snapshotPages (hlen : ids.length = pool.tableSize A)
    (hskip : pool.rolling → pool.SkipsOverwritten A (pool.completedPages hashes n) already)
    (hi : i ∈ pool.snapshotPages ids hashes n already) :
    i < pool.completedPages hashes n ∧ A - pool.tableSize A ≤ i := by
  unfold snapshotPages at hi
  unfold SkipsOverwritten at hskip
  unfold tableSize at hlen ⊢
  obtain ⟨h1, h2⟩ := List.mem_range'_1.mp hi
  split at h1
  · next hr =>
    rw [if_pos hr] at h2
    rw [if_pos hr] at hlen ⊢
    have := hskip hr
    omega
  · next hr =>
    rw [if_neg hr] at h2
    rw [if_neg hr]
    omega

/-- Exactly under `SkipsOverwritten` is every page published under its own block. -/
theorem ScheduledTable.published_iff (hle : pool.completedPages hashes n ≤ A) :
    (∀ e ∈ pool.snapshotPublished p ids hashes n already, AssignedTo pool A led e) ↔
      (pool.rolling → pool.SkipsOverwritten A (pool.completedPages hashes n) already) := by
  constructor
  · intro hall hr
    by_contra hskip
    have hlen := h.length
    simp only [SkipsOverwritten, not_or, not_le] at hskip
    obtain ⟨h1, h2, h3⟩ := hskip
    have hR := pool.ringSize_pos
    have hsize : pool.tableSize A = pool.ringSize := by
      rw [tableSize, if_pos hr]
      omega
    -- The first page the loop visits is already overwritten.
    set completed := pool.completedPages hashes n with hcompleted
    set start := max already (completed - pool.ringSize) with hstart
    have hpages : pool.snapshotPages ids hashes n already =
        start :: List.range' (start + 1) (completed - start - 1) := by
      simp only [snapshotPages, ← hcompleted, if_pos hr, hlen, hsize]
      rw [Nat.min_eq_left (by omega), ← hstart, show completed - start = completed - start - 1 + 1
        by omega, List.range'_succ]
      rfl
    obtain ⟨b, hb, -, -⟩ := h.resolve (i := start) (by omega)
    refine h.misassigned (by omega) (by omega) hb (hashes.getD start 0) (hall _ ?_)
    rw [snapshotPublished, if_neg, hpages, publishedPages, hb]
    · simp
    · rintro ⟨-, -, rfl⟩
      simp at hlen
      omega
  · intro hskip e he
    unfold snapshotPublished at he
    split at he
    · cases he
    · obtain ⟨hmem, hres, -⟩ := mem_publishedPages he
      obtain ⟨h1, h2⟩ := mem_snapshotPages h.length hskip hmem
      exact h.assigned (by omega) h2 hres e.hash

omit h in
theorem publishPages_congr {resolve resolve' : Nat → Except KvError BlockId} {pages : List Nat}
    (hr : ∀ i ∈ pages, resolve i = resolve' i) (pool : GroupBlockPool) :
    publishPages p hashes resolve pool pages = publishPages p hashes resolve' pool pages := by
  induction pages generalizing pool with
  | nil => rfl
  | cons i pages ih =>
    rw [publishPages, publishPages, hr i (by simp)]
    cases resolve' i with
    | error e => rfl
    | ok b => exact ih (fun j hj => hr j (by simp [hj])) _

/-- While the request owns the table, both paths publish the same pages. -/
theorem ScheduledTable.cacheSnapshot_eq (hlog : pool.logicalBlocks r = A)
    (hle : pool.completedPages hashes n ≤ A)
    (hskip : pool.rolling → pool.SkipsOverwritten A (pool.completedPages hashes n) already) :
    pool.cacheSnapshot p ids hashes n already = pool.cacheLive r p hashes n already := by
  have hlen := h.length
  have htable := h.tracks.length
  have hpages : pool.snapshotPages ids hashes n already =
      pool.livePages r hashes n already := by
    unfold snapshotPages livePages
    cases hr : pool.rolling with
    | false => rfl
    | true =>
      have hcond := hskip hr
      unfold SkipsOverwritten at hcond
      have hsize : pool.tableSize A = min A pool.ringSize := by rw [tableSize, if_pos hr]
      simp only [if_true, hlog, htable, hlen, hsize]
      generalize pool.completedPages hashes n = completed at *
      by_cases hdone : completed ≤ already
      · rw [show completed - max (min already completed) (completed - min A pool.ringSize) = 0
          by omega, show completed - max (min already completed) (A - min A pool.ringSize) = 0
          by omega]
        rfl
      · rw [show max (min already completed) (completed - min A pool.ringSize) =
          max (min already completed) (A - min A pool.ringSize) by omega]
  have hempty : ¬ (pool.rolling ∧ 0 < pool.completedPages hashes n ∧ ids = []) := by
    rintro ⟨hr, hpos, rfl⟩
    have hR := pool.ringSize_pos
    rw [tableSize, if_pos hr] at hlen
    simp at hlen
    omega
  rw [cacheSnapshot, if_neg hempty, cacheLive, ← hpages]
  refine publishPages_congr (fun i hi => ?_) pool
  obtain ⟨h1, -⟩ := mem_snapshotPages hlen hskip hi
  have hiA : i < A := by omega
  obtain ⟨b, hb, -, hget⟩ := h.resolve hiA
  have hslot := snapshotSlot hlen hiA
  rw [hb, liveBlock]
  have hne : ¬ (pool.rolling ∧ pool.table r = []) := by
    rintro ⟨-, hnil⟩
    rw [hnil] at hget
    cases hget
  rw [if_neg hne, htable, ← hlen]
  simp only [hslot.1, hget]

end GroupBlockPool

namespace KvCacheManager

open GroupBlockPool

/-- The partition a growth uses and the round-robin position after it; `none` when
`ensure_group_blocks` refuses. -/
def grownPartition (m : KvCacheManager) (requestId : RequestId) (tokenCount : Nat)
    (partition : Option Nat) : Option (Nat × Nat) :=
  if m.groupPools = [] ∨ m.oversizedGroups tokenCount ≠ [] ∨
      (partition.bind fun p => (m.groupRequestPartition requestId).filter (· ≠ p)).isSome then none
  else
    match m.growthPartition requestId tokenCount partition with
    | .ok (some selected, next) =>
      if m.canEnsureGroupBlocks requestId tokenCount selected then some (selected, next) else none
    | _ => none

variable {m m' : KvCacheManager} {snaps : List Snapshot} {r : RequestId} {p t : Nat}

theorem ensureGroupBlocks_eq (partition : Option Nat) :
    (m.ensureGroupBlocks r t partition).2 = (match m.grownPartition r t partition with
      | some (selected, next) => (growGroups { m with nextGroupPartition := next } r selected t).2
      | none => m) := by
  unfold ensureGroupBlocks grownPartition
  by_cases h1 : m.groupPools = []
  · simp [h1]
  · by_cases h2 : m.oversizedGroups t = []
    · cases h3 : partition.bind fun p => (m.groupRequestPartition r).filter (· ≠ p) with
      | some q => simp [h1, h2]
      | none =>
        simp only [h1, h2]
        rcases m.growthPartition r t partition with e | ⟨_ | selected, next⟩
        · rfl
        · rfl
        · dsimp only
          cases m.canEnsureGroupBlocks r t selected <;> rfl
    · simp [h1, h2]

theorem grownPartition_spec {partition : Option Nat} {next : Nat}
    (h : m.grownPartition r t partition = some (p, next)) :
    m.oversizedGroups t = [] ∧ m.canEnsureGroupBlocks r t p := by
  unfold grownPartition at h
  split at h
  · cases h
  · next hno =>
    simp only [not_or, not_not] at hno
    split at h
    · split at h
      · next hcan =>
        cases h
        exact ⟨hno.2.1, hcan⟩
      · cases h
    · cases h

/-- The tokens each request was grown to, and the ledger of each of its tables. -/
structure GrowthHistory where
  scheduled : RequestId → Nat := fun _ => 0
  given : String → RequestId → Ledger := fun _ _ _ => none

/-- The pool of one group. -/
def groupNamed (m : KvCacheManager) (name : String) : Option GroupBlockPool :=
  m.groupPools.find? fun pool => pool.spec.name = name

/-- Replace one request's part of the history. -/
def GrowthHistory.enter (hist : GrowthHistory) (requestId : RequestId) (tokenCount : Nat)
    (ledger : String → Ledger) : GrowthHistory where
  scheduled := Function.update hist.scheduled requestId tokenCount
  given name := Function.update (hist.given name) requestId (ledger name)

/-- The history after one operation. -/
def GrowthHistory.record (hist : GrowthHistory) (m : KvCacheManager) : GroupOp → GrowthHistory
  | .ensure r t partition =>
    match m.grownPartition r t partition with
    | some (selected, _) => hist.enter r (max (hist.scheduled r) t) fun name =>
        (m.groupNamed name).elim (hist.given name r) fun pool =>
          pool.ensureLedger (hist.given name r) r selected t
    | none => hist
  | .acquire r tokenIds limit =>
    match m.acquireGroupPrefixBlocks r (m.computeGroupBlockHashes tokenIds) limit with
    | .ok ((_, hit, some partition), _) => hist.enter r hit fun name =>
        (m.groupNamed name).elim (hist.given name r) fun pool =>
          pool.hitLedger partition (groupEntry (m.computeGroupBlockHashes tokenIds) pool) hit
    | _ => hist
  | .releaseAll r => hist.enter r 0 fun _ _ => none
  | _ => hist

/-- The grouped operations with the history of growth. -/
def historyMachine (H : PyHash) : Machine ((KvCacheManager × List Snapshot) × GrowthHistory) GroupOp :=
  (groupMachine H).track {} fun hist s op _ => hist.record s.1 op

/-- The separated runs with the history of growth. -/
def separatedHistory (H : PyHash) : Machine ((KvCacheManager × List Snapshot) × GrowthHistory) GroupOp :=
  (historyMachine H).restrict fun s op _ => s.1.1.Separates op

/-- Every table is what the history says. -/
def Recorded (m : KvCacheManager) (hist : GrowthHistory) : Prop :=
  ∀ pool ∈ m.groupPools, ∀ r,
    Tracks pool r (pool.logicalBlocks r) (hist.given pool.spec.name r) ∧
      pool.logicalBlocks r = pool.logicalGroupBlocks (hist.scheduled r)

variable {hist : GrowthHistory}

theorem groupNamed_eq {pool : GroupBlockPool} (hnames : m.groupNames.Nodup)
    (hpool : pool ∈ m.groupPools) : m.groupNamed pool.spec.name = some pool := by
  rw [groupNamed, List.find?_eq_some_iff_getElem]
  obtain ⟨i, hi, rfl⟩ := List.getElem_of_mem hpool
  refine ⟨by simp, i, hi, rfl, fun j hj => ?_⟩
  have hi' : i < m.groupNames.length := by simpa [groupNames] using hi
  have hj' : j < m.groupNames.length := hj.trans hi'
  have hne : m.groupNames[j] ≠ m.groupNames[i] := by
    rw [Ne, List.Nodup.getElem_inj_iff hnames]
    omega
  simpa [groupNames] using hne

theorem Recorded.same (h : Recorded m hist) (hs : SameGroupTables m m') : Recorded m' hist := by
  intro pool' hpool' r
  obtain ⟨pool, hpool, ht⟩ := forall₂_mem_right hs.pools hpool'
  obtain ⟨htr, hlog⟩ := h pool hpool r
  rw [ht.logicalBlocks, ht.spec]
  refine ⟨htr.congr ht.spec (ht.table r), ?_⟩
  rw [hlog, logicalGroupBlocks, logicalGroupBlocks, capacity, capacity, ht.spec]

/-- An operation on one request leaves the other requests' part of the record alone. -/
theorem Recorded.enter (h : Recorded m hist) {n : Nat} {ledger : String → Ledger}
    (hpools : List.Forall₂ (fun pool pool' : GroupBlockPool => pool'.spec = pool.spec ∧
      (∀ r', r' ≠ r → pool'.table r' = pool.table r' ∧
        pool'.logicalBlocks r' = pool.logicalBlocks r') ∧
      Tracks pool' r (pool'.logicalBlocks r) (ledger pool.spec.name) ∧
      pool'.logicalBlocks r = pool.logicalGroupBlocks n) m.groupPools m'.groupPools) :
    Recorded m' (hist.enter r n ledger) := by
  intro pool' hpool' r'
  obtain ⟨pool, hpool, hspec, hother, htr, hlog⟩ := forall₂_mem_right hpools hpool'
  have hcap : ∀ k, pool'.logicalGroupBlocks k = pool.logicalGroupBlocks k := fun k => by
    rw [logicalGroupBlocks, logicalGroupBlocks, capacity, capacity, hspec]
  rw [hspec, hcap]
  by_cases hr : r' = r
  · subst hr
    simp only [GrowthHistory.enter, Function.update_self]
    exact ⟨htr, hlog⟩
  · obtain ⟨h1, h2⟩ := h pool hpool r'
    simp only [GrowthHistory.enter, Function.update_of_ne hr]
    rw [(hother r' hr).2]
    exact ⟨h1.congr hspec (hother r' hr).1, h2⟩

theorem ceilDiv_mono {a b c : Nat} (h : a ≤ b) : ceilDiv a c ≤ ceilDiv b c :=
  Nat.div_le_div_right (by omega)

theorem logicalGroupBlocks_max (pool : GroupBlockPool) (a b : Nat) :
    pool.logicalGroupBlocks (max a b) =
      max (pool.logicalGroupBlocks a) (pool.logicalGroupBlocks b) :=
  (show Monotone pool.logicalGroupBlocks from fun _ _ h => ceilDiv_mono h).map_max

/-- A growth enters its fresh blocks. -/
theorem Recorded.ensure (h : Recorded m hist) (hb : Balanced m snaps) (hnames : m.groupNames.Nodup)
    (partition : Option Nat) :
    Recorded (m.ensureGroupBlocks r t partition).2 (hist.record m (.ensure r t partition)) := by
  rw [ensureGroupBlocks_eq, GrowthHistory.record]
  cases hg : m.grownPartition r t partition with
  | none => exact h
  | some sel =>
    obtain ⟨selected, next⟩ := sel
    dsimp only
    obtain ⟨hsize, hcan⟩ := grownPartition_spec hg
    have hb' : Balanced { m with nextGroupPartition := next } snaps :=
      ⟨hb.pools, hb.partitions, hb.assigned, hb.addressed⟩
    obtain ⟨m', hgrown, hgrow⟩ := growGroups_spec (r := r) (t := t) (p := selected) hb' hsize hcan
    rw [hgrow]
    refine h.enter (forall₂_imp_mem hgrown.pools ?_)
    rintro pool hpool pool' ⟨hok, hg'⟩
    obtain ⟨htr, hlog⟩ := h pool hpool r
    obtain ⟨-, htr', hlog', -⟩ := htr.ensure hok
    refine ⟨hg'.spec, fun r' hr => ⟨hg'.tables r' hr, hg'.logical_ne r' hr⟩, ?_, ?_⟩
    · rw [groupNamed_eq hnames hpool]
      exact htr'
    · rw [hlog', hlog, logicalGroupBlocks_max]

/-- An attached hit enters the pages it found. -/
theorem Recorded.acquire (h : Recorded m hist) (hb : Balanced m snaps) (hnames : m.groupNames.Nodup)
    {ts : List Int} {limit : Nat} (hsep : m.Separates (.acquire r ts limit)) :
    Recorded (m.runOp (.acquire r ts limit)) (hist.record m (.acquire r ts limit)) := by
  rw [runOp, GrowthHistory.record]
  cases hok : m.acquireGroupPrefixBlocks r (m.computeGroupBlockHashes ts) limit with
  | error e => exact h
  | ok res =>
    obtain ⟨⟨tables, hit, part⟩, m'⟩ := res
    obtain ⟨rfl, hres⟩ | ⟨p, hit', hres, halign, -, -, -, hatt⟩ :=
      acquire_cases hb hsep hok
    · cases hres
      exact h
    · cases hres
      dsimp only
      refine h.enter (forall₂_imp_mem hatt ?_)
      rintro pool hpool pool' ⟨owned, hsel, hatt⟩
      obtain ⟨htr, hlog⟩ := Tracks.attach hsel hatt
      refine ⟨hatt.spec, fun r' hr => ⟨table_insert_ne hatt.requestBlocks hr, ?_⟩, ?_, ?_⟩
      · rw [logicalBlocks, logicalBlocks, hatt.requestLogicalBlocks, AList.lookup_insert_ne hr]
      · rw [groupNamed_eq hnames hpool, hlog]
        exact htr
      · obtain ⟨k, rfl⟩ := (capacity_dvd_alignment hpool).trans halign
        have hcap : 0 < pool.capacity := pool.spec.spec.tokenCapacity_pos
        rw [hlog, logicalGroupBlocks, ceilDiv, Nat.mul_div_cancel_left k hcap, Nat.add_sub_assoc hcap,
          Nat.mul_add_div hcap, Nat.div_eq_of_lt (by omega), Nat.add_zero]

/-- A release clears the request's part of the record. -/
theorem Recorded.releaseAll (h : Recorded m hist) (hb : Balanced m snaps) :
    Recorded (m.runOp (.releaseAll r)) (hist.record m (.releaseAll r)) := by
  obtain ⟨m', hok, -, hrel, -, -⟩ := releaseAll_spec hb r
  rw [runOp, hok, GrowthHistory.record]
  refine h.enter (hrel.imp fun pool pool' hr => ?_)
  have htable : pool'.table r = [] := by
    rw [table, hr.requestBlocks, AList.lookup_erase]
    rfl
  have hlog : pool'.logicalBlocks r = 0 := by
    rw [logicalBlocks, hr.requestLogicalBlocks, AList.lookup_erase]
    rfl
  refine ⟨hr.spec, fun r' hne => ⟨?_, ?_⟩, ?_, ?_⟩
  · rw [table, table, hr.requestBlocks, AList.lookup_erase_ne hne]
  · rw [logicalBlocks, logicalBlocks, hr.requestLogicalBlocks, AList.lookup_erase_ne hne]
  · rw [hlog]
    exact tracks_nil htable
  · have hcap : 0 < pool.capacity := pool.spec.spec.tokenCapacity_pos
    rw [hlog, logicalGroupBlocks, ceilDiv, Nat.div_eq_of_lt (by omega)]

/-- Every operation keeps the record. -/
theorem Recorded.runOp (h : Recorded m hist) (hb : Balanced m snaps) (hnames : m.groupNames.Nodup)
    {op : GroupOp} (hsep : m.Separates op) {snaps' : List Snapshot}
    (hs : SnapshotStep m snaps op snaps') : Recorded (m.runOp op) (hist.record m op) := by
  cases op with
  | acquire r ts limit => exact h.acquire hb hnames hsep
  | ensure r t partition => exact h.ensure hb hnames partition
  | retain tables p =>
    rw [KvCacheManager.runOp]
    cases hok : m.retainGroupBlockSnapshot tables p with
    | error e => exact h
    | ok m' => exact h.same (hb.retain hok).2
  | releaseSnapshot tables p =>
    obtain ⟨m', hok, -, ht⟩ := hb.releaseSnapshot hs
    rw [KvCacheManager.runOp, hok]
    exact h.same ht
  | cache r hashes n already => exact h.same (hb.cacheGroupBlocks r hashes n already).2
  | cacheFromSnapshot hashes n already tables p =>
    exact h.same (hb.cacheFromSnapshot hashes n already tables p).2
  | releaseAll r => exact h.releaseAll hb

theorem recorded_of_reachable {H : PyHash} {s : (KvCacheManager × List Snapshot) × GrowthHistory}
    (hs : (separatedHistory H).Reachable s) : GroupInv H s.1 ∧ Recorded s.1.1 s.2 := by
  refine ⟨groupInv_of_reachable (Machine.restrict_track_reachable_fst hs), ?_⟩
  refine hs.invariant (I := fun s => Recorded s.1.1 s.2) ?_ ?_
  · rintro ⟨⟨m, snaps⟩, hist⟩ ⟨⟨rfl, m₀, specs, batch, primary, -, hnew, hfree, hok⟩, rfl⟩ pool hpool r
    obtain ⟨-, -, -, hnewpool, -, -⟩ := initGroups_spec hnew hfree hok
    obtain ⟨n, hn⟩ := hnewpool pool hpool
    have hlog : pool.logicalBlocks r = 0 := by rw [hn]; rfl
    have hcap : 0 < pool.capacity := pool.spec.spec.tokenCapacity_pos
    refine ⟨?_, ?_⟩
    · rw [hlog]
      exact tracks_nil (by rw [hn]; rfl)
    · rw [hlog, logicalGroupBlocks, ceilDiv, Nat.div_eq_of_lt (show 0 + pool.capacity - 1 < _ by omega)]
  · rintro ⟨⟨m, snaps⟩, hist⟩ op ⟨⟨m', snaps'⟩, hist'⟩ hreach hrec ⟨⟨⟨hm, hstep⟩, hh⟩, hsep⟩
    dsimp only at hm hh
    subst hm hh
    obtain ⟨hb, -, hn⟩ := groupInv_of_reachable (Machine.restrict_track_reachable_fst hreach)
    exact hrec.runOp hb hn hsep hstep

/-- Publication of the pages of the confirmed `tokens` through the scheduled `tables` of
`r`. Pages may be published at any later time, so into any manager of the same layout. -/
structure SnapshotSound (m : KvCacheManager) (hist : GrowthHistory) (r : RequestId)
    (tables : GroupTables) (p : Nat) (tokens : List Int) (already : Dict String Nat) : Prop where
  /-- A hash is only attached to the block the ring assigned to its logical block. -/
  assigned : m.enablePrefixCache → ∀ m', Keeps m m' → ∀ pool ∈ m'.groupPools,
    ∀ e ∈ pool.snapshotPublished p (groupEntry tables pool)
      (groupEntry (m.computeGroupBlockHashes tokens) pool) tokens.length
      ((already.lookup pool.spec.name).getD 0),
    AssignedTo pool (pool.logicalGroupBlocks (hist.scheduled r)) (hist.given pool.spec.name r) e
  /-- With every scheduled token confirmed, it is the publication of the live table. -/
  live : tokens.length = hist.scheduled r →
    m.cacheGroupBlocksFromSnapshot (m.computeGroupBlockHashes tokens) tokens.length already tables p =
      m.cacheGroupBlocks r (m.computeGroupBlockHashes tokens) tokens.length already

theorem publishGroups_congr {step step' : GroupBlockPool → GroupBlockPool × Option KvError}
    {l : List GroupBlockPool} (hstep : ∀ pool ∈ l, step pool = step' pool) :
    publishGroups step l = publishGroups step' l := by
  induction l with
  | nil => rfl
  | cons pool l ih =>
    rw [publishGroups, publishGroups, hstep pool (by simp), ih fun q hq => hstep q (by simp [hq])]

/-- A comprehension over the pools has exactly the group names. -/
theorem namesMatch_ofList {α : Type} (f : GroupBlockPool → α) :
    m.namesMatch (Dict.ofList (m.groupPools.map fun pool => (pool.spec.name, f pool))) := by
  have hkeys : ∀ k, k ∈ (Dict.ofList (m.groupPools.map fun pool => (pool.spec.name, f pool))).keys ↔
      k ∈ m.groupNames := fun k => by
    rw [Dict.mem_keys_ofList, groupNames]
    simp
  rw [namesMatch, decide_eq_true_eq]
  exact ⟨fun k hk => (hkeys k).mp hk, fun k hk => (hkeys k).mpr hk⟩

theorem groupTables_spec {tables : GroupTables} (h : m.groupTables r = .ok tables)
    (hnames : m.groupNames.Nodup) :
    m.namesMatch tables ∧
      ∀ pool ∈ m.groupPools, pool.tableIds r = .ok (groupEntry tables pool) := by
  obtain ⟨pairs, hpairs, hret⟩ := bind_eq_ok.mp h
  cases hret
  have hrel := mapM_eq_ok.mp hpairs
  have hentry : ∀ pool ∈ m.groupPools,
      pool.tableIds r = .ok ((pool.tableIds r).toOption.getD []) := by
    intro pool hpool
    obtain ⟨e, -, he⟩ := forall₂_mem_right hrel.flip hpool
    obtain ⟨ids, hids, -⟩ := bind_eq_ok.mp he
    rw [hids]
    rfl
  obtain rfl : pairs = m.groupPools.map fun pool =>
      (pool.spec.name, (pool.tableIds r).toOption.getD []) := by
    have := forall₂_map_eq (f := fun pool : GroupBlockPool =>
      (pool.spec.name, (pool.tableIds r).toOption.getD [])) (g := id) hrel fun pool e he => by
        obtain ⟨ids, hids, hret⟩ := bind_eq_ok.mp he
        cases hret
        rw [hids]
        rfl
    rw [← this, List.map_id]
  refine ⟨namesMatch_ofList _, fun pool hpool => ?_⟩
  rw [hentry pool hpool, groupEntry,
    Dict.lookup_ofList_map (fun pool : GroupBlockPool => pool.spec.name) hnames _ hpool]
  rfl

theorem completedPages_computed {pool : GroupBlockPool} (hnames : m.groupNames.Nodup)
    (hpool : pool ∈ m.groupPools) (ts : List Int) :
    pool.completedPages (groupEntry (m.computeGroupBlockHashes ts) pool) ts.length =
      pool.safeTokens ts.length / pool.capacity := by
  rw [completedPages, computeGroupBlockHashes_entry hnames hpool, safeTokens]
  split <;> simp [PyHash.iterTokenBlockHashes, PyHash.iterEagleTokenBlockHashes]

theorem safePages_le (pool : GroupBlockPool) {n t : Nat} (h : n ≤ t) :
    pool.safeTokens n / pool.capacity ≤ pool.logicalGroupBlocks t := by
  have hcap : 0 < pool.capacity := pool.spec.spec.tokenCapacity_pos
  have hle : pool.safeTokens n ≤ t := by
    rw [safeTokens]
    split <;> omega
  exact Nat.div_le_div_right (by omega)

/-- The pages a snapshot publishes depend on the pool's layout only. -/
theorem assigned_congr {pool pool' : GroupBlockPool} {ids : List Nat} {hashes : List Int}
    {n already k : Nat} {led : Ledger} (hspec : pool'.spec = pool.spec)
    (hper : pool'.blocksPerPartition = pool.blocksPerPartition) :
    (∀ e ∈ pool'.snapshotPublished p ids hashes n already,
      AssignedTo pool' (pool'.logicalGroupBlocks k) led e) ↔
    ∀ e ∈ pool.snapshotPublished p ids hashes n already,
      AssignedTo pool (pool.logicalGroupBlocks k) led e := by
  obtain ⟨spec, blocks, per, queues, tables, parts, logical, index⟩ := pool
  obtain ⟨spec', blocks', per', queues', tables', parts', logical', index'⟩ := pool'
  dsimp only at hspec hper
  subst hspec hper
  exact ⟨fun h e he => ⟨(h e he).given, (h e he).only⟩,
    fun h e he => ⟨(h e he).given, (h e he).only⟩⟩

/-- A request's own tables are scheduled tables of its groups. -/
theorem scheduledTable_of_tables {tables : GroupTables} (hb : Balanced m snaps)
    (hrec : Recorded m hist) (hnames : m.groupNames.Nodup)
    (hp : m.groupRequestPartition r = some p) (ht : m.groupTables r = .ok tables)
    {pool : GroupBlockPool} (hpool : pool ∈ m.groupPools) :
    ScheduledTable pool r p (pool.logicalGroupBlocks (hist.scheduled r))
      (hist.given pool.spec.name r) (groupEntry tables pool) := by
  have hinv := hb.pools pool hpool
  obtain ⟨htr, hlog⟩ := hrec pool hpool r
  rw [hlog] at htr
  refine ⟨htr, (groupTables_spec ht hnames).2 pool hpool, hinv.tables.slot_unique, fun b hmem => ?_⟩
  obtain ⟨q, hq, hin⟩ := hinv.tables.entries r b hmem
  rw [hb.assigned pool hpool, hp] at hq
  cases hq
  exact hin

/-- Publication through the tables sent with a step is sound exactly when, in every
rolling group, the confirmed pages from the first unpublished one on exclude those the
ring has overwritten. -/
theorem snapshot_sound_iff {H : PyHash} {s : (KvCacheManager × List Snapshot) × GrowthHistory}
    (hs : (separatedHistory H).Reachable s)
    {r : RequestId} {p : Nat} {tables : GroupTables}
    (hp : s.1.1.groupRequestPartition r = some p) (ht : s.1.1.groupTables r = .ok tables)
    {tokens : List Int} (hC : tokens.length ≤ s.2.scheduled r) (already : Dict String Nat) :
    SnapshotSound s.1.1 s.2 r tables p tokens already ↔
      (s.1.1.enablePrefixCache → ∀ pool ∈ s.1.1.groupPools, pool.rolling →
        pool.SkipsOverwritten (pool.logicalGroupBlocks (s.2.scheduled r))
          (pool.safeTokens tokens.length / pool.capacity)
          ((already.lookup pool.spec.name).getD 0)) := by
  obtain ⟨⟨m, snaps⟩, hist⟩ := s
  obtain ⟨⟨hb, -, hnames⟩, hrec⟩ := recorded_of_reachable hs
  dsimp only at *
  have htab : ∀ pool ∈ m.groupPools, _ := fun pool hpool =>
    scheduledTable_of_tables hb hrec hnames hp ht hpool
  have hpages : ∀ pool ∈ m.groupPools, _ := fun pool hpool =>
    completedPages_computed hnames hpool tokens
  have hle : ∀ pool ∈ m.groupPools,
      pool.completedPages (groupEntry (m.computeGroupBlockHashes tokens) pool) tokens.length ≤
        pool.logicalGroupBlocks (hist.scheduled r) := fun pool hpool => by
    rw [hpages pool hpool]
    exact safePages_le pool hC
  constructor
  · intro hsound hon pool hpool
    rw [← hpages pool hpool]
    exact ((htab pool hpool).published_iff (hle pool hpool)).mp
      (hsound.assigned hon m (.refl m) pool hpool)
  · intro hskip
    refine ⟨fun hon m' hkeep pool' hpool' => ?_, fun _ => ?_⟩
    · obtain ⟨pool, hpool, hspec, hper⟩ := forall₂_mem_right hkeep.layout hpool'
      rw [assigned_congr hspec hper, groupEntry_congr hspec, groupEntry_congr hspec, hspec]
      refine ((htab pool hpool).published_iff (hle pool hpool)).mpr ?_
      rw [hpages pool hpool]
      exact hskip hon pool hpool
    · unfold cacheGroupBlocksFromSnapshot cacheGroupBlocks
      cases hon : m.enablePrefixCache with
      | false => rfl
      | true =>
        have hgroups : publishGroups (fun pool => pool.cacheSnapshot p (groupEntry tables pool)
              (groupEntry (m.computeGroupBlockHashes tokens) pool) tokens.length
              ((already.lookup pool.spec.name).getD 0)) m.groupPools =
            publishGroups (fun pool => pool.cacheLive r p
              (groupEntry (m.computeGroupBlockHashes tokens) pool) tokens.length
              ((already.lookup pool.spec.name).getD 0)) m.groupPools :=
          publishGroups_congr fun pool hpool =>
            (htab pool hpool).cacheSnapshot_eq (hrec pool hpool r).2 (hle pool hpool) (by
              rw [hpages pool hpool]
              exact hskip hon pool hpool)
        have hhashes : m.namesMatch (m.computeGroupBlockHashes tokens) := namesMatch_ofList _
        simp only [hhashes, (groupTables_spec ht hnames).1, hp, hgroups]
        rfl

/-- One request grown to `t` tokens over a ring of two two-token pages. -/
def grownRun (t : Nat) : (KvCacheManager × List Snapshot) × GrowthHistory :=
  ((rollingManager.runOp (.ensure "a" t none), []),
    GrowthHistory.record {} rollingManager (.ensure "a" t none))

theorem grownRun_reachable (t : Nat) : (separatedHistory encodingHash).Reachable (grownRun t) := by
  have h0 : (separatedHistory encodingHash).Reachable ((rollingManager, []), {}) :=
    .start ⟨⟨rfl, { pyHash := encodingHash, blockSize := 2, enablePrefixCache := true },
      [rollingSpec], 2, none, rfl, rfl, rfl, rfl⟩, rfl⟩
  exact .next (a := .ensure "a" t none) h0 ⟨⟨⟨rfl, rfl⟩, rfl⟩, trivial⟩

/-- The table of one group. -/
def ringTable (ids : List Nat) : GroupTables := Dict.ofList [("swa", ids)]

theorem snapshot_sound_grown :
    SnapshotSound (grownRun 4).1.1 (grownRun 4).2 "a" (ringTable [0, 1]) 0 [1, 2, 3, 4] ∅ :=
  (snapshot_sound_iff (grownRun_reachable 4) (p := 0) (by decide) (by rfl) (by decide) ∅).mpr
    (by decide)

/-- Seven tokens in one growth overwrite pages 0 and 1, and three pages are confirmed:
the hash of page 1 is attached to the block of page 3. -/
theorem snapshot_publication_misassigned :
    (separatedHistory encodingHash).Reachable (grownRun 7) ∧
      (grownRun 7).1.1.groupRequestPartition "a" = some 0 ∧
      (grownRun 7).1.1.groupTables "a" = .ok (ringTable [2, 3]) ∧
      (grownRun 7).2.scheduled "a" = 7 ∧
      (grownRun 7).2.given "swa" "a" 1 = some 1 ∧ (grownRun 7).2.given "swa" "a" 3 = some 3 ∧
      ¬ SnapshotSound (grownRun 7).1.1 (grownRun 7).2 "a" (ringTable [2, 3]) 0
        [1, 2, 3, 4, 5, 6, 7] ∅ := by
  have hp : (grownRun 7).1.1.groupRequestPartition "a" = some 0 := by decide
  have ht : (grownRun 7).1.1.groupTables "a" = .ok (ringTable [2, 3]) := by rfl
  refine ⟨grownRun_reachable 7, hp, ht, by decide, by decide, by decide, fun hsound => ?_⟩
  obtain ⟨⟨hb, -, hnames⟩, hrec⟩ := recorded_of_reachable (grownRun_reachable 7)
  have hpool : (grownRun 7).1.1.groupPools.get ⟨0, by decide⟩ ∈ (grownRun 7).1.1.groupPools :=
    List.get_mem _ _
  have htab := scheduledTable_of_tables hb hrec hnames hp ht hpool
  have hpages := completedPages_computed hnames hpool [1, 2, 3, 4, 5, 6, 7]
  have hskip := (htab.published_iff (by rw [hpages]; decide)).mp
    (hsound.assigned rfl _ (.refl _) _ hpool) (by decide)
  rw [hpages] at hskip
  exact absurd hskip (by decide)

end KvCacheManager
end PyptoServing.Memory
