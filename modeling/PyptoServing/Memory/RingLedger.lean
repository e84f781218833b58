import PyptoServing.Lib.Ring
import PyptoServing.Memory.PoolOperations

/-!
# Which block each logical block was given

A ledger records, for every logical block of one request's table, the physical block
the growth loops gave it. The traced loops compute the ledger alongside the pool;
`Tracks` says that every slot of the table holds the ledger's block of the logical
block the ring has in that slot.
-/
namespace PyptoServing.Memory.GroupBlockPool

open Lib Lib.Fallible

/-- The block given to each logical block of one table. -/
abbrev Ledger := Nat → Option BlockId

/-- The logical block that a slot holds when `n` have been allocated. -/
def slotLogical (pool : GroupBlockPool) (n slot : Nat) : Nat :=
  if pool.rolling then Ring.held pool.ringSize n slot else slot

/-- The slot of a logical block. -/
def logicalSlot (pool : GroupBlockPool) (i : Nat) : Nat :=
  if pool.rolling then i % pool.ringSize else i

/-- `fillSlot`, entering a fresh block under the logical block of its slot. -/
def fillTraced (r : RequestId) (p n : Nat) (s : GroupBlockPool × Ledger) (slot : Nat) :
    Except KvError (GroupBlockPool × Ledger) := do
  let pool ← fillSlot r p s.1 slot
  return (pool,
    if (s.1.table r)[slot]? = some none then
      Function.update s.2 (s.1.slotLogical n slot) ((pool.table r)[slot]?.join)
    else s.2)

/-- `rotateSlot`, entering the fresh block under the new logical block. -/
def rotateTraced (r : RequestId) (p : Nat) (s : GroupBlockPool × Ledger) (i : Nat) :
    Except KvError (GroupBlockPool × Ledger) := do
  let pool ← rotateSlot r p s.1 i
  return (pool,
    if i < s.1.ringSize then s.2
    else Function.update s.2 i ((pool.table r)[i % s.1.ringSize]?.join))

/-- `ensureTable` with its ledger. -/
def ensureTraced (pool : GroupBlockPool) (led : Ledger) (r : RequestId) (p t : Nat) :
    Except KvError (GroupBlockPool × Ledger) := do
  let target := pool.logicalGroupBlocks t
  let size := pool.tableSize target
  let previous := pool.logicalBlocks r
  let s ← (List.range size).foldlM (fillTraced r p previous) (pool.openTable r p size, led)
  let s ← if pool.rolling then
      (List.range' previous (target - previous)).foldlM (rotateTraced r p) s
    else pure s
  return (s.1.setLogical r (max previous target), s.2)

/-- The ledger after one growth. -/
def ensureLedger (pool : GroupBlockPool) (led : Ledger) (r : RequestId) (p t : Nat) : Ledger :=
  match pool.ensureTraced led r p t with
  | .ok s => s.2
  | .error _ => led

/-- The table of `r`, with `n` logical blocks allocated, holds what the ledger says. -/
structure Tracks (pool : GroupBlockPool) (r : RequestId) (n : Nat) (led : Ledger) : Prop where
  length : (pool.table r).length = pool.tableSize n
  entry : ∀ slot < (pool.table r).length,
    (pool.table r)[slot]? = some (led (pool.slotLogical n slot))
  beyond : ∀ i, n ≤ i → led i = none

variable {pool pool' : GroupBlockPool} {r : RequestId} {p n t : Nat} {led led' : Ledger}

theorem ringSize_pos (pool : GroupBlockPool) : 0 < pool.ringSize := pool.spec.maxBlocksPerSeq_pos

theorem slotLogical_congr (h : pool'.spec = pool.spec) (n s : Nat) :
    pool'.slotLogical n s = pool.slotLogical n s := by
  rw [slotLogical, slotLogical, rolling, rolling, ringSize, ringSize, h]

theorem tableSize_congr (h : pool'.spec = pool.spec) (n : Nat) :
    pool'.tableSize n = pool.tableSize n := by
  rw [tableSize, tableSize, rolling, rolling, ringSize, ringSize, h]

/-- Different slots hold different logical blocks. -/
theorem slotLogical_injective {s s' : Nat} (hs : pool.rolling → s < pool.ringSize)
    (hs' : pool.rolling → s' < pool.ringSize) (h : pool.slotLogical n s = pool.slotLogical n s') :
    s = s' := by
  unfold slotLogical at h
  split at h
  · next hr => rw [← Ring.held_mod (n := n) (hs hr), h, Ring.held_mod (hs' hr)]
  · exact h

theorem slotLogical_lt {s : Nat} (hs : s < pool.tableSize n) : pool.slotLogical n s < n := by
  unfold slotLogical
  unfold tableSize at hs
  split
  · next hr =>
    rw [if_pos hr] at hs
    exact Ring.held_lt hs
  · next hr =>
    rwa [if_neg hr] at hs

/-- A logical block that is still in the table stands in its slot. -/
theorem slotLogical_logicalSlot {i : Nat} (hi : i < n) (hheld : n - pool.tableSize n ≤ i) :
    pool.slotLogical n (pool.logicalSlot i) = i ∧ pool.logicalSlot i < pool.tableSize n := by
  unfold slotLogical logicalSlot
  unfold tableSize at hheld ⊢
  split
  · next hr =>
    rw [if_pos hr] at hheld
    have hwin : n - pool.ringSize ≤ i := by omega
    refine ⟨Ring.held_slot pool.ringSize_pos hwin hi, ?_⟩
    have := Nat.mod_lt i pool.ringSize_pos
    have := Nat.mod_le i pool.ringSize
    omega
  · exact ⟨rfl, hi⟩

theorem slotLogical_window {s : Nat} : n - pool.tableSize n ≤ pool.slotLogical n s := by
  unfold slotLogical tableSize
  split
  · have := Ring.le_held (n := n) (s := s) pool.ringSize_pos
    omega
  · omega

theorem Tracks.held (h : Tracks pool r n led) {i : Nat} (hi : i < n)
    (hheld : n - (pool.table r).length ≤ i) :
    (pool.table r)[pool.logicalSlot i]? = some (led i) := by
  rw [h.length] at hheld
  obtain ⟨hslot, hlt⟩ := slotLogical_logicalSlot hi hheld
  rw [h.entry _ (by rw [h.length]; exact hlt), hslot]

theorem Tracks.congr (h : Tracks pool r n led) (hspec : pool'.spec = pool.spec)
    (htable : pool'.table r = pool.table r) : Tracks pool' r n led := by
  refine ⟨?_, ?_, h.beyond⟩
  · rw [htable, tableSize_congr hspec, h.length]
  · rw [htable]
    intro s hs
    rw [slotLogical_congr hspec]
    exact h.entry s hs

/-- A request without a table is tracked by the empty ledger. -/
theorem tracks_nil (h : pool.table r = []) : Tracks pool r 0 fun _ => none := by
  refine ⟨?_, ?_, fun _ _ => rfl⟩
  · rw [h, tableSize]
    simp
  · rw [h]
    intro s hs
    cases hs

theorem takeGroupBlock_sameTables {b : BlockId} (h : pool.takeGroupBlock p = .ok (b, pool')) :
    SameTables pool pool' := by
  unfold takeGroupBlock at h
  split at h
  · cases h
  · dsimp only at h
    split at h
    · cases h
    · cases h
      exact ((sameTables_removeFree pool p _).trans (sameTables_invalidate _ p _)).trans
        (sameTables_modifyBlock _ _ _)

/-- What a successful growth step may change of one request's table. -/
structure SlotStep (pool : GroupBlockPool) (r : RequestId) (slot : Nat) (pool' : GroupBlockPool) :
    Prop where
  spec : pool'.spec = pool.spec
  logical : pool'.requestLogicalBlocks = pool.requestLogicalBlocks
  table : ∃ b, pool'.table r = (pool.table r).set slot (some b)

theorem fillSlot_ok {slot : Nat} (h : fillSlot r p pool slot = .ok pool') :
    (∃ c, (pool.table r)[slot]? = some (some c) ∧ pool' = pool) ∨
      (pool.table r)[slot]? = some none ∧ SlotStep pool r slot pool' := by
  unfold fillSlot at h
  split at h
  · cases h
  · next c hc =>
    cases h
    exact .inl ⟨c, hc, rfl⟩
  · next hnone =>
    obtain ⟨⟨b, pool₁⟩, htake, h⟩ := bind_eq_ok.mp h
    cases h
    have ht := takeGroupBlock_sameTables htake
    exact .inr ⟨hnone, ht.spec, ht.requestLogicalBlocks, b, by
      rw [setSlot_table_self, ht.table]⟩

theorem rotateSlot_ok {i : Nat} (h : rotateSlot r p pool i = .ok pool') :
    (i < pool.ringSize ∧ pool' = pool) ∨
      pool.ringSize ≤ i ∧ SlotStep pool r (i % pool.ringSize) pool' := by
  unfold rotateSlot at h
  split at h
  · next hlt =>
    cases h
    exact .inl ⟨hlt, rfl⟩
  · next hge =>
    dsimp only at h
    split at h
    · cases h
    · cases h
    · next c _ =>
      obtain ⟨⟨b, pool₁⟩, htake, h⟩ := bind_eq_ok.mp h
      cases h
      have hmid : SameTables pool (if 1 < (pool.blocks c).refCnt then
          pool.modifyBlock c fun block => { block with refCnt := block.refCnt - 1 }
          else (pool.modifyBlock c fun block => { block with refCnt := 0 }).pushFree p c) := by
        split
        · exact sameTables_modifyBlock _ _ _
        · exact (sameTables_modifyBlock _ _ _).trans (sameTables_pushFree _ _ _)
      have ht := hmid.trans (takeGroupBlock_sameTables htake)
      exact .inr ⟨by omega, ht.spec, ht.requestLogicalBlocks, b, by
        rw [setSlot_table_self, ht.table]⟩

theorem fillTraced_fst (s : GroupBlockPool × Ledger) (slot : Nat) :
    (fillTraced r p n s slot).map Prod.fst = fillSlot r p s.1 slot := by
  unfold fillTraced
  cases fillSlot r p s.1 slot <;> rfl

theorem rotateTraced_fst (s : GroupBlockPool × Ledger) (i : Nat) :
    (rotateTraced r p s i).map Prod.fst = rotateSlot r p s.1 i := by
  unfold rotateTraced
  cases rotateSlot r p s.1 i <;> rfl

/-- Tracing changes nothing: the pool is the one `ensureTable` returns. -/
theorem ensureTraced_fst (pool : GroupBlockPool) (led : Ledger) (r : RequestId) (p t : Nat) :
    (pool.ensureTraced led r p t).map Prod.fst = pool.ensureTable r p t := by
  have hfill := foldlM_fst (f := fillSlot r p) (g := fillTraced r p (pool.logicalBlocks r))
    (fun s a => fillTraced_fst s a)
    (List.range (pool.tableSize (pool.logicalGroupBlocks t)))
    (pool.openTable r p (pool.tableSize (pool.logicalGroupBlocks t)), led)
  unfold ensureTraced ensureTable
  dsimp only
  rw [← hfill]
  cases hs : (List.range (pool.tableSize (pool.logicalGroupBlocks t))).foldlM
      (fillTraced r p (pool.logicalBlocks r))
      (pool.openTable r p (pool.tableSize (pool.logicalGroupBlocks t)), led) with
  | error e => rfl
  | ok s =>
    have hkeep : s.1.spec = pool.spec ∧ s.1.requestLogicalBlocks = pool.requestLogicalBlocks := by
      rw [hs] at hfill
      refine foldlM_keeps (f := fillSlot r p) (I := fun q : GroupBlockPool => q.spec = pool.spec ∧
        q.requestLogicalBlocks = pool.requestLogicalBlocks) ?_ _ _ _ hfill.symm ⟨rfl, rfl⟩
      intro a q q' hok hq
      rcases fillSlot_ok hok with ⟨_, _, rfl⟩ | ⟨_, hstep⟩
      · exact hq
      · exact ⟨hstep.spec.trans hq.1, hstep.logical.trans hq.2⟩
    have hroll : s.1.rolling = pool.rolling := by rw [rolling, rolling, hkeep.1]
    have hlog : s.1.logicalBlocks r = pool.logicalBlocks r := by
      rw [logicalBlocks, logicalBlocks, hkeep.2]
    simp only [Except.map, bind, Except.bind, hroll, hlog]
    cases pool.rolling with
    | false => rfl
    | true =>
      have hrot := foldlM_fst (f := rotateSlot r p) (g := rotateTraced r p)
        (fun s a => rotateTraced_fst s a)
        (List.range' (pool.logicalBlocks r)
          (pool.logicalGroupBlocks t - pool.logicalBlocks r)) s
      simp only [if_true]
      rw [← hrot]
      cases (List.range' (pool.logicalBlocks r)
        (pool.logicalGroupBlocks t - pool.logicalBlocks r)).foldlM (rotateTraced r p) s <;> rfl

/-- A table whose slots show the ledger, without a claim about its length. -/
structure Shows (pool : GroupBlockPool) (r : RequestId) (n : Nat) (led : Ledger) : Prop where
  ring : pool.rolling → (pool.table r).length ≤ pool.ringSize
  entry : ∀ slot < (pool.table r).length,
    (pool.table r)[slot]? = some (led (pool.slotLogical n slot))

/-- Later entries never replace an earlier one. -/
def Extends (led led' : Ledger) : Prop := ∀ i b, led i = some b → led' i = some b

theorem Extends.refl (led : Ledger) : Extends led led := fun _ _ h => h

theorem Extends.trans {l₁ l₂ l₃ : Ledger} (h : Extends l₁ l₂) (h' : Extends l₂ l₃) :
    Extends l₁ l₃ := fun i b hb => h' i b (h i b hb)

theorem Shows.fill {s s' : GroupBlockPool × Ledger} {slot : Nat} (h : Shows s.1 r n s.2)
    (hok : fillTraced r p n s slot = .ok s') :
    Shows s'.1 r n s'.2 ∧ s'.1.spec = s.1.spec ∧
      s'.1.requestLogicalBlocks = s.1.requestLogicalBlocks ∧
      (s'.1.table r).length = (s.1.table r).length ∧ Extends s.2 s'.2 ∧
      ∀ i, (∀ slot < (s.1.table r).length, s.1.slotLogical n slot ≠ i) → s'.2 i = s.2 i := by
  obtain ⟨pool, hfill, hret⟩ := bind_eq_ok.mp hok
  cases hret
  rcases fillSlot_ok hfill with ⟨c, hc, rfl⟩ | ⟨hnone, hstep⟩
  · dsimp only
    rw [if_neg (by rw [hc]; simp)]
    exact ⟨h, rfl, rfl, rfl, .refl _, fun _ _ => rfl⟩
  · obtain ⟨b, htable⟩ := hstep.table
    have hlt := (List.getElem?_eq_some_iff.mp hnone).1
    have hold : s.2 (s.1.slotLogical n slot) = none := by
      have := h.entry slot hlt
      rw [hnone] at this
      exact (Option.some.inj this).symm
    have hget : (pool.table r)[slot]? = some (some b) := by simp [htable, hlt]
    have hlen : (pool.table r).length = (s.1.table r).length := by rw [htable, List.length_set]
    have hroll : pool.rolling = s.1.rolling := by rw [rolling, rolling, hstep.spec]
    have hring : pool.ringSize = s.1.ringSize := by rw [ringSize, ringSize, hstep.spec]
    dsimp only
    rw [if_pos hnone, hget]
    refine ⟨⟨?_, ?_⟩, hstep.spec, hstep.logical, hlen, ?_, ?_⟩
    · rw [hroll, hlen, hring]
      exact h.ring
    · intro s₁ hs₁
      rw [hlen] at hs₁
      rw [slotLogical_congr hstep.spec]
      by_cases hs : s₁ = slot
      · subst hs
        rw [Function.update_self, hget]
        rfl
      · have hne : s.1.slotLogical n s₁ ≠ s.1.slotLogical n slot := fun he => hs
          (slotLogical_injective (fun hr => (hs₁.trans_le (h.ring hr)))
            (fun hr => (hlt.trans_le (h.ring hr))) he)
        rw [Function.update_of_ne hne, htable, List.getElem?_set_ne (Ne.symm hs)]
        exact h.entry s₁ hs₁
    · intro i c hc
      rw [Function.update_apply]
      split
      · next he =>
        rw [he, hold] at hc
        cases hc
      · exact hc
    · intro i hi
      rw [Function.update_of_ne (Ne.symm (hi slot hlt))]

theorem Shows.fillLoop (l : List Nat) {s s' : GroupBlockPool × Ledger} (h : Shows s.1 r n s.2)
    (hok : l.foldlM (fillTraced r p n) s = .ok s') :
    Shows s'.1 r n s'.2 ∧ s'.1.spec = s.1.spec ∧
      s'.1.requestLogicalBlocks = s.1.requestLogicalBlocks ∧
      (s'.1.table r).length = (s.1.table r).length ∧ Extends s.2 s'.2 ∧
      ∀ i, (∀ slot < (s.1.table r).length, s.1.slotLogical n slot ≠ i) → s'.2 i = s.2 i := by
  induction l generalizing s with
  | nil =>
    cases hok
    exact ⟨h, rfl, rfl, rfl, .refl _, fun _ _ => rfl⟩
  | cons slot l ih =>
    rw [List.foldlM_cons] at hok
    obtain ⟨s₁, hok₁, hok⟩ := bind_eq_ok.mp hok
    obtain ⟨h₁, hspec₁, hlog₁, hlen₁, hext₁, hout₁⟩ := h.fill hok₁
    obtain ⟨h₂, hspec₂, hlog₂, hlen₂, hext₂, hout₂⟩ := ih h₁ hok
    refine ⟨h₂, hspec₂.trans hspec₁, hlog₂.trans hlog₁, hlen₂.trans hlen₁, hext₁.trans hext₂, ?_⟩
    intro i hi
    rw [hout₂ i (fun s hs => by
      rw [slotLogical_congr hspec₁]
      exact hi s (by rwa [hlen₁] at hs)), hout₁ i hi]

/-- Rotating in logical block `i` when the ring is full and `i` is the next one. -/
theorem Tracks.rotate {s s' : GroupBlockPool × Ledger} {i : Nat} (h : Tracks s.1 r i s.2)
    (hr : s.1.rolling) (hi : s.1.ringSize ≤ i) (hok : rotateTraced r p s i = .ok s') :
    Tracks s'.1 r (i + 1) s'.2 ∧ s'.1.spec = s.1.spec ∧ Extends s.2 s'.2 := by
  obtain ⟨pool, hrot, hret⟩ := bind_eq_ok.mp hok
  cases hret
  rcases rotateSlot_ok hrot with ⟨hlt, _⟩ | ⟨_, hstep⟩
  · omega
  · obtain ⟨b, htable⟩ := hstep.table
    have hlen : (s.1.table r).length = s.1.ringSize := by
      rw [h.length, tableSize, if_pos hr]
      omega
    have hslot := Nat.mod_lt i s.1.ringSize_pos
    have hget : (pool.table r)[i % s.1.ringSize]? = some (some b) := by simp [htable, hlen, hslot]
    have hroll : pool.rolling = s.1.rolling := by rw [rolling, rolling, hstep.spec]
    have hring : pool.ringSize = s.1.ringSize := by rw [ringSize, ringSize, hstep.spec]
    dsimp only
    rw [if_neg (by omega), hget]
    refine ⟨⟨?_, ?_, ?_⟩, hstep.spec, ?_⟩
    · rw [htable, List.length_set, hlen, tableSize, hroll, if_pos hr, hring]
      omega
    · intro s₁ hs₁
      rw [htable, List.length_set, hlen] at hs₁
      by_cases hs : s₁ = i % s.1.ringSize
      · subst hs
        have : pool.slotLogical (i + 1) (i % s.1.ringSize) = i := by
          rw [slotLogical, hroll, if_pos hr, hring]
          exact Ring.held_succ_self hi s.1.ringSize_pos
        rw [this, Function.update_self, hget]
        rfl
      · have hsame : pool.slotLogical (i + 1) s₁ = s.1.slotLogical i s₁ := by
          rw [slotLogical, slotLogical, hroll, if_pos hr, if_pos hr, hring]
          exact Ring.held_succ_ne hi hs₁ hs
        have hlt : s.1.slotLogical i s₁ < i := slotLogical_lt (by rw [← h.length, hlen]; exact hs₁)
        rw [hsame, Function.update_of_ne (by omega), htable, List.getElem?_set_ne (Ne.symm hs)]
        exact h.entry s₁ (by rw [hlen]; exact hs₁)
    · intro j hj
      rw [Function.update_of_ne (by omega)]
      exact h.beyond j (by omega)
    · intro j c hc
      rw [Function.update_apply]
      split
      · next he =>
        rw [he, h.beyond i le_rfl] at hc
        cases hc
      · exact hc

/-- Rotating in the logical blocks `first, first + 1, …`; those the table already shows
are skipped, and the ring is full when the first new one comes. -/
theorem Tracks.rotateLoop (k : Nat) : ∀ {s s' : GroupBlockPool × Ledger} {first n : Nat},
    Tracks s.1 r n s.2 → s.1.rolling → first ≤ n →
    (∀ i, first ≤ i → i < n → i < s.1.ringSize) → (n < first + k → s.1.ringSize ≤ n) →
    (List.range' first k).foldlM (rotateTraced r p) s = .ok s' →
    Tracks s'.1 r (max n (first + k)) s'.2 ∧ s'.1.spec = s.1.spec ∧ Extends s.2 s'.2 := by
  induction k with
  | zero =>
    intro s s' first n h _ hle _ _ hok
    cases hok
    rw [Nat.add_zero, Nat.max_eq_left hle]
    exact ⟨h, rfl, .refl _⟩
  | succ k ih =>
    intro s s' first n h hr hle hskip hfull hok
    rw [List.range'_succ, List.foldlM_cons] at hok
    obtain ⟨s₁, hok₁, hrest⟩ := bind_eq_ok.mp hok
    rcases Nat.lt_or_eq_of_le hle with hlt | rfl
    · have hs₁ : s₁ = s := by
        obtain ⟨pool, hrot, hret⟩ := bind_eq_ok.mp hok₁
        have hi := hskip first le_rfl hlt
        cases hret
        rcases rotateSlot_ok hrot with ⟨_, rfl⟩ | ⟨hge, _⟩
        · rw [if_pos hi]
        · omega
      rw [hs₁] at hrest
      have := ih h hr (by omega) (fun i hi => hskip i (by omega)) (fun hn => hfull (by omega)) hrest
      rwa [show max n (first + (k + 1)) = max n (first + 1 + k) by omega]
    · obtain ⟨h₁, hspec₁, hext₁⟩ := h.rotate hr (hfull (by omega)) hok₁
      have hring : s₁.1.ringSize = s.1.ringSize := by rw [ringSize, ringSize, hspec₁]
      have hroll : s₁.1.rolling = s.1.rolling := by rw [rolling, rolling, hspec₁]
      have hge := hfull (by omega)
      obtain ⟨h₂, hspec₂, hext₂⟩ := ih h₁ (by rw [hroll]; exact hr) le_rfl
        (fun i h1 h2 => by omega) (fun _ => by rw [hring]; omega) hrest
      refine ⟨?_, hspec₂.trans hspec₁, hext₁.trans hext₂⟩
      rwa [show max first (first + (k + 1)) = max (first + 1) (first + 1 + k) by omega]

theorem tableSize_le_ringSize (hroll : pool.rolling) : pool.tableSize n ≤ pool.ringSize := by
  rw [tableSize, if_pos hroll]
  exact Nat.min_le_right _ _

/-- Padding to the slots of `m` logical blocks gives the slots of the longer table. -/
theorem max_tableSize (pool : GroupBlockPool) (n m : Nat) :
    max (pool.tableSize n) (pool.tableSize m) = pool.tableSize (max n (pool.tableSize m)) := by
  simp only [tableSize]
  split <;> omega

/-- Padding moves no logical block to another slot. -/
theorem slotLogical_padded (pool : GroupBlockPool) (n m slot : Nat) :
    pool.slotLogical (max n (pool.tableSize m)) slot = pool.slotLogical n slot := by
  simp only [tableSize, slotLogical]
  cases hroll : pool.rolling with
  | false => simp
  | true =>
    simp only [if_true]
    by_cases hn : n ≤ pool.ringSize
    · rw [Ring.held_of_le hn, Ring.held_of_le (by omega)]
    · rw [show max n (min m pool.ringSize) = n by omega]

/-- The slots that padding adds are of logical blocks not yet given. -/
theorem slotLogical_new {m slot : Nat} (hle : pool.tableSize n ≤ slot)
    (hlt : slot < pool.tableSize m) : n ≤ slot ∧ pool.slotLogical n slot = slot := by
  simp only [tableSize, slotLogical] at hle hlt ⊢
  cases hroll : pool.rolling with
  | false =>
    simp only [hroll] at hle
    simpa using hle
  | true =>
    simp only [hroll, if_true] at hle hlt ⊢
    exact ⟨by omega, Ring.held_of_le (by omega)⟩

theorem openTable_length (pool : GroupBlockPool) (r : RequestId) (p size : Nat) :
    ((pool.openTable r p size).table r).length = max (pool.table r).length size := by
  rw [openTable_table_self, List.length_append, List.length_replicate]
  omega

/-- The padded table shows the ledger of the shorter one. -/
theorem Tracks.openTable (h : Tracks pool r n led) (p m : Nat) :
    Shows (pool.openTable r p (pool.tableSize m)) r n led := by
  refine ⟨fun hroll => ?_, fun slot hs => ?_⟩
  · rw [openTable_length, h.length]
    exact Nat.max_le.mpr ⟨tableSize_le_ringSize hroll, tableSize_le_ringSize hroll⟩
  · rw [openTable_length] at hs
    rw [openTable_table_self]
    change _ = some (led (pool.slotLogical n slot))
    by_cases hlt : slot < (pool.table r).length
    · rw [List.getElem?_append_left hlt]
      exact h.entry slot hlt
    · obtain ⟨hge, heq⟩ : n ≤ slot ∧ pool.slotLogical n slot = slot :=
        slotLogical_new (m := m) (by rw [← h.length]; omega) (by omega)
      rw [List.getElem?_append_right (by omega), List.getElem?_replicate, if_pos (by omega), heq,
        h.beyond slot hge]

/-- The filled table tracks the ledger of the fill loop. -/
theorem Tracks.fillLoop {m : Nat} (h : Tracks pool r n led) (l : List Nat)
    {s : GroupBlockPool × Ledger}
    (hok : l.foldlM (fillTraced r p n) (pool.openTable r p (pool.tableSize m), led) = .ok s) :
    Tracks s.1 r (max n (pool.tableSize m)) s.2 ∧ s.1.spec = pool.spec ∧ Extends led s.2 := by
  have hlen₀ := openTable_length pool r p (pool.tableSize m)
  rw [h.length] at hlen₀
  obtain ⟨hshow, hspec, -, hlen, hext, hout⟩ := (h.openTable p m).fillLoop l hok
  have hspec : s.1.spec = pool.spec := hspec
  refine ⟨⟨?_, ?_, ?_⟩, hspec, hext⟩
  · rw [hlen, hlen₀, tableSize_congr hspec, max_tableSize]
  · intro slot hs
    rw [slotLogical_congr hspec, slotLogical_padded, ← slotLogical_congr hspec]
    exact hshow.entry slot hs
  · intro i hi
    refine (hout i fun slot hs => ?_).trans (h.beyond i (by omega))
    rw [hlen₀] at hs
    change pool.slotLogical n slot ≠ i
    rw [max_tableSize] at hs
    have hlt := slotLogical_lt hs
    rw [slotLogical_padded] at hlt
    omega

theorem logicalBlocks_setLogical (pool : GroupBlockPool) (r : RequestId) (n : Nat) :
    (pool.setLogical r n).logicalBlocks r = n := by
  rw [setLogical, logicalBlocks, AList.lookup_insert]
  rfl

/-- The traced growth tracks its own ledger. -/
theorem Tracks.ensureTraced (h : Tracks pool r (pool.logicalBlocks r) led)
    (hok : pool.ensureTraced led r p t = .ok (pool', led')) :
    Tracks pool' r (pool'.logicalBlocks r) led' ∧
      pool'.logicalBlocks r = max (pool.logicalBlocks r) (pool.logicalGroupBlocks t) ∧
      Extends led led' := by
  set A := pool.logicalBlocks r with hA
  set target := pool.logicalGroupBlocks t with htarget
  unfold GroupBlockPool.ensureTraced at hok
  obtain ⟨s₁, hfill, hok⟩ := bind_eq_ok.mp hok
  obtain ⟨htrack₁, hspec₁, hext₁⟩ := h.fillLoop (m := target) _ hfill
  dsimp only at hok
  cases hroll : pool.rolling with
  | false =>
    rw [if_neg (by rw [hroll]; simp)] at hok
    cases hok
    have hsize : pool.tableSize target = target := by rw [tableSize, hroll]; simp
    rw [logicalBlocks_setLogical]
    rw [hsize] at htrack₁
    exact ⟨htrack₁.congr rfl rfl, rfl, hext₁⟩
  | true =>
    rw [if_pos hroll] at hok
    obtain ⟨s₂, hrot, hok⟩ := bind_eq_ok.mp hok
    cases hok
    have hsize : pool.tableSize target = min target pool.ringSize := by
      rw [tableSize, hroll, if_pos rfl]
    have hring₁ : s₁.1.ringSize = pool.ringSize := by rw [ringSize, ringSize, hspec₁]
    have hroll₁ : s₁.1.rolling = true := by
      rw [rolling, hspec₁]
      exact hroll
    obtain ⟨htrack₂, -, hext₂⟩ := htrack₁.rotateLoop _ hroll₁ (Nat.le_max_left _ _)
      (fun i h1 h2 => by rw [hring₁]; omega) (fun hn => by rw [hring₁]; omega) hrot
    rw [logicalBlocks_setLogical]
    rw [show max (max A (pool.tableSize target)) (A + (target - A)) = max A target by omega]
      at htrack₂
    exact ⟨htrack₂.congr rfl rfl, rfl, hext₁.trans hext₂⟩

/-- Growth keeps the table and its ledger in step. -/
theorem Tracks.ensure (h : Tracks pool r (pool.logicalBlocks r) led)
    (hok : pool.ensureTable r p t = .ok pool') :
    pool.ensureTraced led r p t = .ok (pool', pool.ensureLedger led r p t) ∧
      Tracks pool' r (pool'.logicalBlocks r) (pool.ensureLedger led r p t) ∧
      pool'.logicalBlocks r = max (pool.logicalBlocks r) (pool.logicalGroupBlocks t) ∧
      Extends led (pool.ensureLedger led r p t) := by
  have hfst := ensureTraced_fst pool led r p t
  rw [hok] at hfst
  cases htr : pool.ensureTraced led r p t with
  | error e =>
    rw [htr] at hfst
    cases hfst
  | ok s' =>
    rw [htr] at hfst
    obtain ⟨pool₂, led₂⟩ := s'
    cases hfst
    rw [ensureLedger, htr]
    exact ⟨rfl, h.ensureTraced htr⟩

/-- The ledger of an attached prefix hit: the cached pages that the lookup asked for. -/
def hitLedger (pool : GroupBlockPool) (p : Nat) (hashes : List Int) (hitTokens : Nat) : Ledger :=
  fun i =>
    let endBlock := hitTokens / pool.capacity
    let tail := match pool.spec.slidingWindow with
      | none => endBlock
      | some window => min endBlock (window / pool.capacity)
    if endBlock - tail ≤ i ∧ i < endBlock then pool.cachedPage p hashes i else none

/-- The ring slot of a page is a slot of the table. -/
theorem mod_tableSize (pool : GroupBlockPool) {endBlock i : Nat} (hlt : i < endBlock) :
    i % min endBlock pool.ringSize = i % pool.ringSize ∧
      i % pool.ringSize < min endBlock pool.ringSize := by
  have hmod := Nat.mod_lt i pool.ringSize_pos
  by_cases hle : endBlock ≤ pool.ringSize
  · rw [Nat.min_eq_left hle, Nat.mod_eq_of_lt hlt, Nat.mod_eq_of_lt (by omega)]
    exact ⟨rfl, hlt⟩
  · rw [Nat.min_eq_right (by omega)]
    exact ⟨rfl, hmod⟩

/-- After `k` rounds exactly the first `k` pages of the tail are in place. -/
theorem ringPages_entry {hashes : List Int} {endBlock tail k : Nat} (htail : tail ≤ endBlock)
    (hfits : tail ≤ pool.ringSize) (hk : k ≤ tail) {owned : List (Option BlockId)}
    (h : (List.range' (endBlock - tail) k).foldlM (fun selected i =>
      (pool.cachedPage p hashes i).map fun b => selected.set (i % selected.length) (some b))
      (List.replicate (min endBlock pool.ringSize) none) = some owned) :
    owned.length = min endBlock pool.ringSize ∧
      ∀ s < min endBlock pool.ringSize, owned[s]? = some
        (if endBlock - tail ≤ Ring.held pool.ringSize endBlock s ∧
            Ring.held pool.ringSize endBlock s < endBlock - tail + k then
          pool.cachedPage p hashes (Ring.held pool.ringSize endBlock s) else none) := by
  induction k generalizing owned with
  | zero =>
    cases h
    refine ⟨by simp, fun s hs => ?_⟩
    rw [if_neg (by omega), List.getElem?_replicate, if_pos hs]
  | succ k ih =>
    rw [List.range'_concat, List.foldlM_append] at h
    obtain ⟨before, hbefore, h⟩ := Option.bind_eq_some_iff.mp h
    obtain ⟨hlen, hpages⟩ := ih (by omega) hbefore
    rw [List.foldlM_cons] at h
    obtain ⟨after, hafter, h⟩ := Option.bind_eq_some_iff.mp h
    cases h
    obtain ⟨c, hc, rfl⟩ := Option.map_eq_some_iff.mp hafter
    rw [Nat.one_mul] at hc ⊢
    set i := endBlock - tail + k with hi
    have hpage : endBlock - pool.ringSize ≤ i ∧ i < endBlock := by omega
    have hheld := Ring.held_slot (n := endBlock) pool.ringSize_pos hpage.1 hpage.2
    obtain ⟨hslot, hlt⟩ := mod_tableSize pool hpage.2
    rw [hlen, hslot]
    refine ⟨by rw [List.length_set, hlen], fun s hs => ?_⟩
    have hsR : s < pool.ringSize := by omega
    by_cases hsi : s = i % pool.ringSize
    · subst hsi
      rw [List.getElem?_set_self (by omega), hheld, if_pos (by omega), hc]
    · rw [List.getElem?_set_ne (Ne.symm hsi), hpages s hs]
      have hne : Ring.held pool.ringSize endBlock s ≠ i := fun he => hsi (by
        rw [← he, Ring.held_mod hsR])
      congr 1
      split_ifs <;> first | rfl | omega

/-- A selected prefix shows its hit ledger. -/
theorem selectPrefix_shows {hashes : List Int} {hit : Nat} {owned : List (Option BlockId)}
    (hok : pool.selectPrefix p hashes hit = some owned) :
    owned.length = pool.tableSize (hit / pool.capacity) ∧
      ∀ s < owned.length, owned[s]? = some (pool.hitLedger p hashes hit
        (pool.slotLogical (hit / pool.capacity) s)) := by
  unfold selectPrefix at hok
  dsimp only at hok
  split at hok
  · cases hok
  · split at hok
    · next hwin =>
      have hroll : pool.rolling = false := by simp [rolling, hwin]
      split at hok
      · cases hok
      · obtain ⟨hlen, hpages⟩ := cachedPages_entry _ hok
        refine ⟨by simp [hlen, tableSize, hroll], fun s hs => ?_⟩
        obtain ⟨b, hb, hown⟩ := hpages s (by omega)
        rw [hown, ← hb]
        simp only [hitLedger, slotLogical, hroll, hwin]
        simp
        omega
    · next window hwin =>
      have hroll : pool.rolling = true := by simp [rolling, hwin]
      set endBlock := hit / pool.capacity with hend
      set tail := min endBlock (window / pool.capacity) with htail
      have hfits : tail ≤ pool.ringSize := by
        have := pool.spec.window_fits window hwin
        show min _ _ ≤ pool.spec.maxBlocksPerSeq
        exact (Nat.min_le_right _ _).trans this
      have htle : tail ≤ endBlock := Nat.min_le_left _ _
      obtain ⟨hlen, hpages⟩ := ringPages_entry htle hfits le_rfl hok
      refine ⟨by rw [hlen, tableSize, hroll, if_pos rfl], fun s hs => ?_⟩
      rw [hpages s (by omega)]
      simp only [hitLedger, slotLogical, hroll, hwin, if_true]
      rw [← hend, ← htail]
      congr 1
      split_ifs <;> first | rfl | omega

theorem Tracks.attach {hashes : List Int} {hit : Nat} {owned : List (Option BlockId)}
    {pins : BlockId → Nat} (hok : pool.selectPrefix p hashes hit = some owned)
    (hatt : Attached pool pins r p owned (hit / pool.capacity) pool') :
    Tracks pool' r (hit / pool.capacity) (pool.hitLedger p hashes hit) ∧
      pool'.logicalBlocks r = hit / pool.capacity := by
  obtain ⟨hlen, hentry⟩ := selectPrefix_shows hok
  have htable : pool'.table r = owned := table_insert_self hatt.requestBlocks
  refine ⟨⟨?_, ?_, ?_⟩, ?_⟩
  · rw [htable, hlen, tableSize_congr hatt.spec]
  · rw [htable]
    intro s hs
    rw [slotLogical_congr hatt.spec]
    exact hentry s hs
  · intro i hi
    rw [hitLedger]
    exact if_neg (by omega)
  · rw [logicalBlocks, hatt.requestLogicalBlocks, AList.lookup_insert]
    rfl

end PyptoServing.Memory.GroupBlockPool
