import PyptoServing.Memory.Conservation

/-!
# The cache partition of a request

A grouped request gets its partition from a prefix hit or from its first growth and keeps it
until its blocks are released. Every pool records the same assignments as the manager. A
first growth goes to the candidate with the fewest requests.
-/
namespace PyptoServing.Memory

open Config Lib Lib.Fallible GroupBlockPool

namespace GroupBlockPool
variable {pool pool' : GroupBlockPool} {r : RequestId} {p t : Nat}

theorem sameTables_takeGroupBlock {b : BlockId} (h : pool.takeGroupBlock p = .ok (b, pool')) :
    SameTables pool pool' := by
  unfold takeGroupBlock at h
  split at h
  · cases h
  · dsimp only at h
    split at h <;> cases h
    exact ((sameTables_removeFree pool p _).trans (sameTables_invalidate _ p _)).trans
      (sameTables_modifyBlock _ _ _)

theorem fillSlot_requestPartitions {slot : Nat} (h : fillSlot r p pool slot = .ok pool') :
    pool'.requestPartitions = pool.requestPartitions := by
  unfold fillSlot at h
  split at h
  · cases h
  · cases h
    rfl
  · obtain ⟨⟨b, q⟩, htake, h⟩ := bind_eq_ok.mp h
    cases h
    exact (sameTables_takeGroupBlock htake).requestPartitions

theorem rotateSlot_requestPartitions {i : Nat} (h : rotateSlot r p pool i = .ok pool') :
    pool'.requestPartitions = pool.requestPartitions := by
  unfold rotateSlot at h
  split at h
  · cases h
    rfl
  · dsimp only at h
    split at h
    · cases h
    · cases h
    · obtain ⟨⟨b, q⟩, htake, h⟩ := bind_eq_ok.mp h
      cases h
      refine (sameTables_takeGroupBlock htake).requestPartitions.trans ?_
      split <;> rfl

/-- Growth binds the request to the partition it grows in, unless it has one. -/
theorem ensureTable_requestPartitions (h : pool.ensureTable r p t = .ok pool') :
    pool'.requestPartitions = pool.requestPartitions.setDefault r p := by
  unfold ensureTable at h
  obtain ⟨filled, hfill, h⟩ := bind_eq_ok.mp h
  have hfilled : filled.requestPartitions = pool.requestPartitions.setDefault r p :=
    foldlM_keeps (I := fun q : GroupBlockPool =>
      q.requestPartitions = pool.requestPartitions.setDefault r p)
      (fun slot q q' hone hq => (fillSlot_requestPartitions hone).trans hq) _ _ _ hfill rfl
  dsimp only at h
  split at h
  · obtain ⟨rotated, hrotate, h⟩ := bind_eq_ok.mp h
    cases h
    have hrotated : rotated.requestPartitions = pool.requestPartitions.setDefault r p :=
      foldlM_keeps (I := fun q : GroupBlockPool =>
        q.requestPartitions = pool.requestPartitions.setDefault r p)
        (fun i q q' hone hq => (rotateSlot_requestPartitions hone).trans hq) _ _ _ hrotate hfilled
    exact hrotated
  · cases h
    exact hfilled

theorem releaseRequest_requestPartitions (h : pool.releaseRequest r = .ok pool') :
    pool'.requestPartitions = pool.requestPartitions.erase r := by
  unfold releaseRequest at h
  dsimp only at h
  split at h
  · split at h <;> cases h
    rfl
  · refine foldlM_keeps (I := fun q : GroupBlockPool =>
      q.requestPartitions = pool.requestPartitions.erase r) ?_ _ _ _ h rfl
    intro b q q' hone hq
    split at hone <;> cases hone
    exact (sameTables_dropReference q _ b).requestPartitions.trans hq

theorem attachPrefix_requestPartitions (pool : GroupBlockPool) (r : RequestId) (p : Nat)
    (owned : List (Option BlockId)) (hit : Nat) :
    (pool.attachPrefix r p owned hit).requestPartitions = pool.requestPartitions.insert r p := by
  have hfold : ∀ (l : List BlockId) (q : GroupBlockPool),
      (l.foldl (reference · p) q).requestPartitions = q.requestPartitions := by
    intro l
    induction l with
    | nil => exact fun _ => rfl
    | cons b l ih =>
      intro q
      exact (ih _).trans (sameTables_reference q p b).requestPartitions
  exact hfold _ _

theorem sameTables_pinBlocks (bs : List BlockId) (pool : GroupBlockPool) :
    SameTables pool (pool.pinBlocks bs) := by
  induction bs generalizing pool with
  | nil => exact .refl pool
  | cons b bs ih => exact (sameTables_modifyBlock pool b _).trans (ih _)

theorem sameTables_unpin {ids : List Nat} (h : pool.unpin p ids = .ok pool') :
    SameTables pool pool' := by
  refine foldlM_keeps (I := fun q : GroupBlockPool => SameTables pool q) ?_ _ _ _ h (.refl pool)
  intro id q q' hone hq
  obtain ⟨b, -, hone⟩ := bind_eq_ok.mp hone
  split at hone <;> cases hone
  exact hq.trans (sameTables_dropReference q p b)

theorem sameTables_publishPages (hashes : List Int) (resolve : Nat → Except KvError BlockId)
    (pages : List Nat) (pool : GroupBlockPool) :
    SameTables pool (publishPages p hashes resolve pool pages).1 := by
  induction pages generalizing pool with
  | nil => exact .refl pool
  | cons i pages ih =>
    rw [publishPages]
    split
    · exact .refl pool
    · exact (sameTables_cacheGroupBlock pool p _ _).trans (ih _)

end GroupBlockPool

namespace KvCacheManager

/-- Every pool records the manager's assignments. -/
def Agreed (m : KvCacheManager) : Prop :=
  ∀ pool ∈ m.groupPools, ∀ r, pool.requestPartitions.lookup r = m.groupRequestPartition r

/-- Nobody changes partition. -/
structure SameSeats (m m' : KvCacheManager) : Prop where
  partition : ∀ r, m'.groupRequestPartition r = m.groupRequestPartition r
  agreed : m.Agreed → m'.Agreed
  hasGroups : m'.hasGroups = m.hasGroups

/-- Request `r` changes to `p`, nobody else changes. -/
structure Reseats (m : KvCacheManager) (r : RequestId) (p : Option Nat) (m' : KvCacheManager) :
    Prop where
  self : m'.groupRequestPartition r = p
  other : ∀ x, x ≠ r → m'.groupRequestPartition x = m.groupRequestPartition x
  agreed : m.Agreed → m'.Agreed
  hasGroups : m'.hasGroups = m.hasGroups

variable {m m' m'' : KvCacheManager} {r : RequestId} {p t : Nat}

theorem SameSeats.refl (m : KvCacheManager) : SameSeats m m := ⟨fun _ => rfl, id, rfl⟩

theorem SameSeats.trans (h : SameSeats m m') (h' : SameSeats m' m'') : SameSeats m m'' :=
  ⟨fun r => (h'.partition r).trans (h.partition r), fun ha => h'.agreed (h.agreed ha),
    h'.hasGroups.trans h.hasGroups⟩

theorem SameSeats.reseats (h : SameSeats m m') (r : RequestId) :
    Reseats m r (m.groupRequestPartition r) m' :=
  ⟨h.partition r, fun x _ => h.partition x, h.agreed, h.hasGroups⟩

theorem hasGroups_congr {R : GroupBlockPool → GroupBlockPool → Prop}
    (h : List.Forall₂ R m.groupPools m'.groupPools) : m'.hasGroups = m.hasGroups := by
  unfold hasGroups
  generalize m.groupPools = l, m'.groupPools = l' at h
  cases h <;> rfl

/-- The assignments stay, and each pool keeps its own. -/
theorem SameSeats.of_pools (hpart : m'.groupRequestPartitions = m.groupRequestPartitions)
    (h : List.Forall₂ (fun pool pool' : GroupBlockPool =>
      pool'.requestPartitions = pool.requestPartitions) m.groupPools m'.groupPools) :
    SameSeats m m' := by
  have hlookup : ∀ r, m'.groupRequestPartition r = m.groupRequestPartition r := fun r =>
    congrArg (AList.lookup r) hpart
  refine ⟨hlookup, fun ha pool' hmem r => ?_, hasGroups_congr h⟩
  obtain ⟨pool, hpool, heq⟩ := forall₂_mem_right h hmem
  rw [heq, hlookup, ha pool hpool]

/-- One request's assignment is rewritten in the manager and in each pool alike. -/
theorem Reseats.of_pools {q : Option Nat}
    (hself : m'.groupRequestPartition r = q)
    (hother : ∀ x, x ≠ r → m'.groupRequestPartition x = m.groupRequestPartition x)
    (h : List.Forall₂ (fun pool pool' : GroupBlockPool => m.Agreed →
      pool'.requestPartitions.lookup r = q ∧
      ∀ x, x ≠ r → pool'.requestPartitions.lookup x = pool.requestPartitions.lookup x)
      m.groupPools m'.groupPools) : Reseats m r q m' := by
  refine ⟨hself, hother, fun ha pool' hmem x => ?_, hasGroups_congr h⟩
  obtain ⟨pool, hpool, hpools⟩ := forall₂_mem_right h hmem
  by_cases hx : x = r
  · subst hx
    rw [(hpools ha).1, hself]
  · rw [(hpools ha).2 x hx, hother x hx, ha pool hpool]

theorem releaseAll_reseats (h : m.releaseAllGroupRequests r = .ok m') : Reseats m r none m' := by
  obtain ⟨pools, hpools, h⟩ := bind_eq_ok.mp h
  cases h
  refine .of_pools (AList.lookup_erase _ _) (fun x hx => AList.lookup_erase_ne hx) ?_
  refine (mapM_eq_ok.mp hpools).imp fun pool pool' hrel _ => ?_
  rw [releaseRequest_requestPartitions hrel]
  exact ⟨AList.lookup_erase _ _, fun x hx => AList.lookup_erase_ne hx⟩

theorem retain_sameSeats {tables : GroupTables}
    (h : m.retainGroupBlockSnapshot tables p = .ok m') : SameSeats m m' := by
  unfold retainGroupBlockSnapshot at h
  split at h
  · cases h
    exact .refl m
  · split at h
    · cases h
    · obtain ⟨resolved, hresolved, h⟩ := bind_eq_ok.mp h
      cases h
      refine .of_pools rfl (forall₂_zip_map (mapM_eq_ok.mp hresolved) fun pool _ bs _ => ?_)
      exact (sameTables_pinBlocks bs pool).requestPartitions

theorem releaseSnapshot_sameSeats {tables : GroupTables}
    (h : m.releaseGroupBlockSnapshot tables p = .ok m') : SameSeats m m' := by
  obtain ⟨pools, hpools, h⟩ := bind_eq_ok.mp h
  cases h
  refine .of_pools rfl ((mapM_eq_ok.mp hpools).imp fun pool pool' hunpin => ?_)
  exact (sameTables_unpin hunpin).requestPartitions

theorem publishGroups_requestPartitions {step : GroupBlockPool → GroupBlockPool × Option KvError}
    (hstep : ∀ pool, (step pool).1.requestPartitions = pool.requestPartitions)
    (pools : List GroupBlockPool) :
    List.Forall₂ (fun pool pool' : GroupBlockPool =>
      pool'.requestPartitions = pool.requestPartitions) pools (publishGroups step pools).1 := by
  induction pools with
  | nil => exact .nil
  | cons pool pools ih =>
    have hfirst := hstep pool
    rw [publishGroups]
    split
    · next q e hq =>
      rw [hq] at hfirst
      exact .cons hfirst (List.forall₂_same.mpr fun _ _ => rfl)
    · next q hq =>
      rw [hq] at hfirst
      exact .cons hfirst ih

theorem cacheGroupBlocks_sameSeats (m : KvCacheManager) (r : RequestId) (hashes : GroupHashes)
    (n : Nat) (counts : Dict String Nat) :
    SameSeats m (m.cacheGroupBlocks r hashes n counts).2 := by
  unfold cacheGroupBlocks
  split
  · exact .refl m
  · split
    · exact .refl m
    · refine .of_pools ?_ ?_
      · rfl
      exact publishGroups_requestPartitions (fun pool =>
        (sameTables_publishPages _ _ _ pool).requestPartitions) _

theorem cacheFromSnapshot_sameSeats (m : KvCacheManager) (hashes : GroupHashes) (n : Nat)
    (counts : Dict String Nat) (tables : GroupTables) (p : Nat) :
    SameSeats m (m.cacheGroupBlocksFromSnapshot hashes n counts tables p).2 := by
  unfold cacheGroupBlocksFromSnapshot
  split
  · exact .refl m
  · split
    · exact .refl m
    · split
      · exact .refl m
      · refine .of_pools ?_ ?_
        · rfl
        refine publishGroups_requestPartitions (fun pool => ?_) _
        unfold cacheSnapshot
        split
        · rfl
        · exact (sameTables_publishPages _ _ _ pool).requestPartitions

/-- An acquisition leaves the request unassigned, or it moves to the partition of the hit. -/
theorem acquire_reseats {hashes : GroupHashes} {limit : Nat} {tables : GroupTables} {hit : Nat}
    {q : Option Nat} (h : m.acquireGroupPrefixBlocks r hashes limit = .ok ((tables, hit, q), m'))
    (hnew : m.groupRequestPartition r = none) :
    Reseats m r q m' ∧ (q.isSome → tables.entries ≠ []) := by
  have hkeep : Reseats m r none m := by
    have := (SameSeats.refl m).reseats r
    rwa [hnew] at this
  unfold acquireGroupPrefixBlocks at h
  split at h
  · cases h
    exact ⟨hkeep, by simp⟩
  · next hon =>
    split at h
    · cases h
    · split at h
      · cases h
      · dsimp only at h
        split at h
        · cases h
          exact ⟨hkeep, by simp⟩
        · split at h
          · cases h
            exact ⟨hkeep, by simp⟩
          · next partition hitTokens owned hbest =>
            have hsel := mapM_eq_some.mp (bestHit_spec hbest).2.2.2
            cases h
            refine ⟨.of_pools (AList.lookup_insert _) (fun x hx => AList.lookup_insert_ne hx) ?_,
              fun _ => ?_⟩
            · refine forall₂_zip_map hsel fun pool _ table _ _ => ?_
              rw [attachPrefix_requestPartitions]
              exact ⟨AList.lookup_insert _, fun x hx => AList.lookup_insert_ne hx⟩
            · have hne : m.groupPools ≠ [] := fun hnil => hon (.inr hnil)
              obtain ⟨pool, pools, hpools⟩ := List.exists_cons_of_ne_nil hne
              rw [hpools] at hsel ⊢
              cases hsel
              exact Dict.entries_ofList_ne (by simp)

/-- The selected partition of a new request is a least loaded candidate. -/
theorem selectGroupPartition_least {next : Nat} (hnew : m.groupRequestPartition r = none)
    (h : m.selectGroupPartition r t = .ok (some p, next)) :
    ∀ q ∈ m.candidateGroupPartitions r t, m.ownedCount p ≤ m.ownedCount q := by
  unfold selectGroupPartition at h
  dsimp only at h
  rw [hnew] at h
  split at h
  · cases h
  · dsimp only at h
    split at h
    · next found hfound =>
      cases h
      have hleast := List.find?_some hfound
      rw [decide_eq_true_eq, List.mem_filter, decide_eq_true_eq] at hleast
      intro q hq
      obtain ⟨least, hmin⟩ : ∃ n, ((m.candidateGroupPartitions r t).map m.ownedCount).min? = some n :=
        Option.isSome_iff_exists.mp (by
          rw [List.isSome_min?_iff]
          exact List.ne_nil_of_mem (List.mem_map_of_mem hq))
      rw [hleast.2, hmin]
      exact (List.min?_eq_some_iff.mp hmin).2 _ (List.mem_map_of_mem hq)
    · cases h

theorem groupTables_entries {tables : GroupTables} (hg : m.hasGroups)
    (h : m.groupTables r = .ok tables) : tables.entries ≠ [] := by
  unfold groupTables at h
  obtain ⟨ids, hids, h⟩ := bind_eq_ok.mp h
  cases h
  apply Dict.entries_ofList_ne
  rintro rfl
  have hlen := (mapM_eq_ok.mp hids).length_eq
  rw [List.length_nil, List.length_eq_zero_iff] at hlen
  simp [hasGroups, hlen] at hg

/-- The only error of reading the tables is an empty slot. -/
theorem groupTables_error {e : KvError} (h : m.groupTables r = .error e) :
    ∃ pool ∈ m.groupPools, none ∈ pool.table r ∧ ∃ message, e = .runtime message := by
  unfold groupTables at h
  rcases bind_eq_error.mp h with h | ⟨ids, -, h⟩
  · obtain ⟨pool, hpool, h⟩ := mapM_eq_error h
    rcases bind_eq_error.mp h with h | ⟨ids, -, h⟩
    · obtain ⟨slot, hmem, hslot⟩ := mapM_eq_error h
      cases slot with
      | none =>
        cases hslot
        exact ⟨pool, hpool, hmem, _, rfl⟩
      | some b => cases hslot
    · cases h
  · cases h

/-- Reading the tables never reports a shortage. -/
theorem groupTables_ne_capacity {message : String} :
    m.groupTables r ≠ .error (.capacity message) := by
  intro h
  obtain ⟨-, -, -, _, he⟩ := groupTables_error h
  cases he

/-- Growing every pool in one partition. -/
theorem grow_reseats {pools : List GroupBlockPool}
    (h : (m.groupPools.mapM fun pool => pool.ensureTable r p t) = .ok pools) :
    Reseats m r (some ((m.groupRequestPartition r).getD p))
      { m with
        groupPools := pools
        groupRequestPartitions := m.groupRequestPartitions.setDefault r p } := by
  refine .of_pools (Dict.lookup_setDefault_self _ _ _)
    (fun x hx => Dict.lookup_setDefault_ne _ hx _) ?_
  refine forall₂_imp_mem (mapM_eq_ok.mp h) fun pool hpool pool' hgrown ha => ?_
  rw [ensureTable_requestPartitions hgrown, Dict.lookup_setDefault_self, ha pool hpool]
  exact ⟨rfl, fun x hx => Dict.lookup_setDefault_ne _ hx _⟩

/-- Where a growth puts a request: a request with a partition stays, a new one goes to the
partition asked for or else to a least loaded candidate. -/
structure Seats (m : KvCacheManager) (r : RequestId) (t : Nat) (asked : Option Nat) (p : Nat) :
    Prop where
  stays : ∀ q, m.groupRequestPartition r = some q → p = q
  candidate : p ∈ m.candidateGroupPartitions r t
  least : m.groupRequestPartition r = none → asked = none →
    ∀ q ∈ m.candidateGroupPartitions r t, m.ownedCount p ≤ m.ownedCount q

/-- A growth that succeeds seats the request; one that finds no room seats nobody. -/
theorem ensureGroupBlocks_seats (hg : m.hasGroups) {asked : Option Nat}
    {res : Except KvError GroupTables} (h : m.ensureGroupBlocks r t asked = (res, m')) :
    (∀ tables, res = .ok tables → tables.entries ≠ [] ∧
      ∃ p, Seats m r t asked p ∧ Reseats m r (some p) m') ∧
    (∀ message, res = .error (.capacity message) → SameSeats m m') := by
  have hfail : ∀ e, res = .error e → m' = m →
      (∀ tables, res = .ok tables → tables.entries ≠ [] ∧
        ∃ p, Seats m r t asked p ∧ Reseats m r (some p) m') ∧
      (∀ message, res = .error (.capacity message) → SameSeats m m') := by
    rintro e rfl rfl
    exact ⟨fun _ hok => (by cases hok), fun _ _ => .refl _⟩
  unfold ensureGroupBlocks at h
  split at h
  · next hnil => simp [hasGroups, hnil] at hg
  · split at h
    · cases h
      exact hfail _ rfl rfl
    · split at h
      · cases h
        exact hfail _ rfl rfl
      · split at h
        · cases h
          exact hfail _ rfl rfl
        · cases h
          exact hfail _ rfl rfl
        · next p next hsel =>
          split at h
          · next hcan =>
            obtain ⟨hstays, -, hcand⟩ := canEnsure_spec hcan
            have hnext : SameSeats m { m with nextGroupPartition := next } :=
              ⟨fun _ => rfl, id, rfl⟩
            unfold growGroups at h
            split at h
            · cases h
              exact ⟨fun _ hok => (by cases hok), fun _ _ => hnext⟩
            · next pools hpools =>
              have hgrow := grow_reseats hpools
              cases h
              refine ⟨fun tables hok => ⟨groupTables_entries ?_ hok, p, ?_, ?_⟩,
                fun message herr => absurd herr groupTables_ne_capacity⟩
              · rw [hgrow.hasGroups]
                exact hg
              · refine ⟨fun q hq => (hstays q hq).symm, hcand, ?_⟩
                rintro hnew rfl
                exact selectGroupPartition_least hnew hsel
              · have hp : (m.groupRequestPartition r).getD p = p := by
                  cases hq : m.groupRequestPartition r with
                  | none => rfl
                  | some q => exact hstays q hq
                exact ⟨hgrow.self.trans (congrArg some hp), hgrow.other, hgrow.agreed,
                  hgrow.hasGroups⟩
          · cases h
            exact hfail _ rfl rfl

/-- The first pool counts the requests that are assigned to a partition. -/
theorem ownedCount_eq (hg : m.hasGroups) (ha : m.Agreed) {l : List RequestId} (hl : l.Nodup)
    (hassigned : ∀ r, (m.groupRequestPartition r).isSome → r ∈ l) (p : Nat) :
    m.ownedCount p = l.countP fun r => decide (m.groupRequestPartition r = some p) := by
  unfold ownedCount
  split
  · next hnil => simp [hasGroups, hnil] at hg
  · next pool pools hpools =>
    have hpool := ha pool (by simp [hpools])
    rw [Dict.countP_values (fun q => decide (q = p)) pool.requestPartitions hl fun r hr =>
      hassigned r (by rwa [← hpool])]
    refine List.countP_congr fun r _ => ?_
    rw [hpool]
    cases m.groupRequestPartition r <;> simp

end KvCacheManager
end PyptoServing.Memory
