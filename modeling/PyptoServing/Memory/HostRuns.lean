import PyptoServing.Memory.HostCalls

/-!
# Interleavings of the host store

Every call keeps the invariant, and a call of one request leaves the rows of the others. So a
read finds the last rows that the request wrote, whatever the others did in between.
-/
namespace PyptoServing.Memory

open Lib KvCacheManager

variable {Row : Type}

namespace HostStore
variable {st st' : HostStore Row} {r : RequestId} {alloc : KvAllocation}

section Steps
variable {call : HostCall Row}

theorem exec_discard {α : Type} (x : HostM Row α) (st : HostStore Row) :
    ((do let _ ← x : HostM Row Unit).exec st).2 = (x.exec st).2 := by
  rw [Raising.exec_bind]
  rcases x.exec st with ⟨_ | _, _⟩ <;> rfl

theorem Sound.perform (h : Sound st) (hperm : call.Permitted st) :
    Sound (call.perform.exec st).2 := by
  cases call with
  | registerModel m model numPages => exact h.registerModel
  | allocateForPrompt m r promptLen => exact h.allocateForPrompt hperm
  | ensureOneMoreSlot r =>
    obtain ⟨alloc, hlive⟩ := Option.isSome_iff_exists.mp hperm
    rw [HostCall.perform, exec_discard]
    exact h.ensureOneMoreSlot hlive
  | writeTokens layer r start keys values =>
    obtain ⟨alloc, hlive⟩ := Option.isSome_iff_exists.mp hperm
    exact h.writeTokens hlive
  | readContext layer r upto =>
    obtain ⟨alloc, hlive⟩ := Option.isSome_iff_exists.mp hperm
    obtain ⟨pool, pages, st₁, hsound, -, -, -, -, -, heq⟩ := readContext_eq layer upto h hlive
    rw [HostCall.perform, exec_discard, heq]
    exact hsound
  | free r =>
    obtain ⟨alloc, hlive⟩ := Option.isSome_iff_exists.mp hperm
    exact h.free hlive

theorem sound_of_reachable (h : (hostMachine Row).Reachable st) : Sound st := by
  refine h.invariant ?_ ?_
  · rintro st ⟨pyHash, blockSize, enablePrefixCache, numBlocks, rfl⟩
    exact sound_new pyHash blockSize enablePrefixCache numBlocks
  · rintro st call st' - hsound ⟨hperm, rfl⟩
    exact hsound.perform hperm

/-- A call of another request leaves a request's allocation and its rows. -/
theorem Sound.frame (h : Sound st) (hperm : call.Permitted st) (hother : call.request ≠ some r) :
    (call.perform.exec st).2.allocations.lookup r = st.allocations.lookup r ∧
      (call.perform.exec st).2.written r = st.written r := by
  cases call with
  | registerModel m model numPages =>
    obtain heq | ⟨manager, -, -, -, -, heq⟩ := exec_registerModel m model numPages st <;>
      rw [HostCall.perform, heq] <;> exact ⟨rfl, rfl⟩
  | allocateForPrompt m r' promptLen =>
    have hr : r ≠ r' := fun h => hother (congrArg some h.symm)
    obtain heq | ⟨pool, ids, manager, -, -, heq⟩ := exec_allocateForPrompt m r' promptLen h <;>
      rw [HostCall.perform, heq]
    · exact ⟨rfl, rfl⟩
    · exact ⟨AList.lookup_insert_ne hr, rfl⟩
  | ensureOneMoreSlot r' =>
    have hr : r ≠ r' := fun h => hother (congrArg some h.symm)
    obtain ⟨alloc, hlive⟩ := Option.isSome_iff_exists.mp hperm
    rw [HostCall.perform, exec_discard]
    obtain heq | ⟨ids, manager, -, heq⟩ := exec_ensureOneMoreSlot h hlive <;> rw [heq]
    · exact ⟨rfl, rfl⟩
    · exact ⟨AList.lookup_insert_ne hr, rfl⟩
  | writeTokens layer r' start keys values =>
    have hr : r ≠ r' := fun h => hother (congrArg some h.symm)
    obtain ⟨alloc, hlive⟩ := Option.isSome_iff_exists.mp hperm
    obtain ⟨pool, done, -, -, -, -, hwritten, halloc⟩ :=
      exec_writeTokens layer start keys values h hlive
    rw [HostCall.perform, hwritten, Translation.rememberAll_owner hr]
    obtain ⟨-, halloc⟩ | ⟨-, -, -, halloc⟩ := halloc <;> rw [halloc]
    · exact ⟨rfl, rfl⟩
    · exact ⟨AList.lookup_insert_ne hr, rfl⟩
  | readContext layer r' upto =>
    obtain ⟨alloc, hlive⟩ := Option.isSome_iff_exists.mp hperm
    obtain ⟨pool, pages, st₁, -, -, -, halloc, hwritten, -, heq⟩ := readContext_eq layer upto h hlive
    rw [HostCall.perform, exec_discard, heq, halloc, hwritten]
    exact ⟨rfl, rfl⟩
  | free r' =>
    have hr : r ≠ r' := fun h => hother (congrArg some h.symm)
    obtain ⟨alloc, hlive⟩ := Option.isSome_iff_exists.mp hperm
    rw [HostCall.perform, exec_free h hlive]
    exact ⟨AList.lookup_erase_ne hr, Function.update_of_ne hr ..⟩

end Steps

/-- A write that returns, and that had a row. -/
def Completed (st : HostStore Row) (call : HostCall Row) (_ : HostStore Row) : Prop :=
  match call with
  | .writeTokens layer r start keys values =>
    keys ≠ [] ∧ ((writeTokens layer r start keys values).exec st).1 = .ok ()
  | _ => True

/-- The tokens that a request counts are within its pages, and it counts what it wrote. -/
structure Counted (st : HostStore Row) (r : RequestId) (alloc : KvAllocation) : Prop where
  used : alloc.tokensUsed ≤ alloc.tokensCapacity
  written : ∀ layer p row, st.written r (layer, p) = some row → p < alloc.tokensUsed

/-- A prompt is allocated without rows. -/
theorem Counted.afterAllocate {modelId : ModelId} {promptLen : Nat} (h : Sound st)
    (hnew : st.allocations.lookup r = none)
    (hlive' : ((allocateForPrompt modelId r promptLen).exec st).2.allocations.lookup r =
      some alloc) : Counted ((allocateForPrompt modelId r promptLen).exec st).2 r alloc := by
  have hempty : ∀ layer p, st.written r (layer, p) = none := by
    intro layer p
    by_contra hw
    obtain ⟨row, hrow⟩ := Option.ne_none_iff_exists'.mp hw
    obtain ⟨old, hold⟩ := h.written_live hrow
    rw [hnew] at hold
    cases hold
  obtain heq | ⟨pool, ids, manager, -, -, heq⟩ := exec_allocateForPrompt modelId r promptLen h <;>
    rw [heq] at hlive' ⊢
  · rw [hnew] at hlive'
    cases hlive'
  · dsimp only at hlive'
    rw [AList.lookup_insert] at hlive'
    cases hlive'
    refine ⟨Nat.zero_le _, fun layer p row hrow => ?_⟩
    dsimp only at hrow
    rw [hempty] at hrow
    cases hrow

/-- A write that returns counts the rows that it wrote. -/
theorem Counted.afterWrite {layer start : Nat} {keys values : List Row} {old : KvAllocation}
    (h : Sound st) (hlive : st.allocations.lookup r = some old) (hold : Counted st r old)
    (hrows : keys ≠ []) (hok : ((writeTokens layer r start keys values).exec st).1 = .ok ())
    (hlive' : ((writeTokens layer r start keys values).exec st).2.allocations.lookup r =
      some alloc) : Counted ((writeTokens layer r start keys values).exec st).2 r alloc := by
  obtain ⟨hused, hwritten⟩ := hold
  obtain ⟨pool, done, -, hsize, -, hbound, hrem, ⟨hne, -⟩ | ⟨-, rfl, hlen, halloc⟩⟩ :=
    exec_writeTokens layer start keys values h hlive
  · exact absurd hok hne
  rw [halloc, AList.lookup_insert] at hlive'
  cases hlive'
  refine ⟨max_le hused ?_, fun l p row hrow => ?_⟩
  · obtain ⟨entry, hmem, hlast⟩ := exists_last_entry start hlen hrows
    obtain ⟨pool', -, hsize', -, hps⟩ := h.pool_of_live hlive
    have hpage := hbound entry hmem
    rw [hsize, Nat.div_lt_iff_lt_mul (hsize' ▸ hps), ← (h.granted r old hlive).capacity] at hpage
    dsimp only
    omega
  · by_cases hmem : (l, p) ∈ (entryRows pool layer ((keys.zip values).zipIdx start)).map (·.1)
    · obtain ⟨⟨⟨l', p'⟩, row'⟩, hrow', heq⟩ := List.mem_map.mp hmem
      cases heq
      exact lt_max_of_lt_right (mem_entryRows hrow').2.2
    · rw [hrem, Translation.rememberAll_not_mem hmem] at hrow
      exact lt_max_of_lt_left (hwritten l p row hrow)

/-- A call of the request itself. -/
theorem Counted.own {call : HostCall Row} (h : Sound st)
    (hcount : ∀ alloc, st.allocations.lookup r = some alloc → Counted st r alloc)
    (hperm : call.Permitted st) (hown : call.request = some r) (hdone : Completed st call st')
    (hlive' : (call.perform.exec st).2.allocations.lookup r = some alloc) :
    Counted (call.perform.exec st).2 r alloc := by
  cases call with
  | registerModel => cases hown
  | allocateForPrompt m r' promptLen =>
    cases hown
    exact Counted.afterAllocate h hperm hlive'
  | ensureOneMoreSlot r' =>
    cases hown
    obtain ⟨old, hlive⟩ := Option.isSome_iff_exists.mp hperm
    obtain ⟨hused, hwritten⟩ := hcount old hlive
    rw [HostCall.perform, exec_discard] at hlive' ⊢
    obtain heq | ⟨ids, manager, -, heq⟩ := exec_ensureOneMoreSlot h hlive <;>
      rw [heq] at hlive' ⊢
    · exact hcount alloc hlive'
    · dsimp only at hlive'
      rw [AList.lookup_insert] at hlive'
      cases hlive'
      refine ⟨hused.trans ?_, hwritten⟩
      rw [(h.granted r old hlive).capacity, List.length_append]
      exact Nat.mul_le_mul_right _ (Nat.le_add_right ..)
  | writeTokens layer r' start keys values =>
    cases hown
    obtain ⟨old, hlive⟩ := Option.isSome_iff_exists.mp hperm
    exact Counted.afterWrite h hlive (hcount old hlive) hdone.1 hdone.2 hlive'
  | readContext layer r' upto =>
    cases hown
    obtain ⟨old, hlive⟩ := Option.isSome_iff_exists.mp hperm
    obtain ⟨pool, pages, st₁, -, -, -, halloc, hsame, -, heq⟩ := readContext_eq layer upto h hlive
    rw [HostCall.perform, exec_discard, heq] at hlive' ⊢
    rw [halloc] at hlive'
    obtain ⟨hused, hwritten⟩ := hcount alloc hlive'
    exact ⟨hused, fun l p row hrow => hwritten l p row (by rwa [hsame] at hrow)⟩
  | free r' =>
    cases hown
    obtain ⟨old, hlive⟩ := Option.isSome_iff_exists.mp hperm
    rw [HostCall.perform, exec_free h hlive] at hlive'
    dsimp only at hlive'
    rw [AList.lookup_erase] at hlive'
    cases hlive'

theorem counted_of_reachable
    (hst : ((hostMachine Row).restrict Completed).Reachable st) :
    ∀ r alloc, st.allocations.lookup r = some alloc → Counted st r alloc := by
  refine hst.invariant (I := fun st => ∀ r alloc, st.allocations.lookup r = some alloc →
    Counted st r alloc) ?_ ?_
  · rintro st ⟨pyHash, blockSize, enablePrefixCache, numBlocks, rfl⟩ r alloc hlive
    unfold HostStore.new at hlive
    cases numBlocks <;> cases hlive
  · rintro st call st' hst hcount ⟨⟨hperm, rfl⟩, hdone⟩ r alloc' hlive'
    have h := sound_of_reachable (Machine.restrict_reachable hst)
    by_cases hother : call.request = some r
    swap
    · obtain ⟨hsame, hrows⟩ := h.frame hperm hother
      rw [hsame] at hlive'
      obtain ⟨hused, hwritten⟩ := hcount r alloc' hlive'
      exact ⟨hused, fun layer p row hrow => hwritten layer p row (by rwa [hrows] at hrow)⟩
    exact Counted.own h (hcount r) hperm hother hdone hlive'

/-- What the store promises a live request. -/
structure ReadsBack (st : HostStore Row) (r : RequestId) (alloc : KvAllocation) : Prop where
  /-- A read that returns has the last row of every position that was written. -/
  reads : ∀ layer upto keys values,
    ((readContext layer r upto).exec st).1 = .ok (keys, values) →
      keys.length = upto.getD alloc.tokensUsed ∧ values.length = upto.getD alloc.tokensUsed ∧
        ∀ p < upto.getD alloc.tokensUsed, ∀ row, st.written r (layer, p) = some row →
          keys[p]? = some row.1 ∧ values[p]? = some row.2
  /-- Reads within the capacity return, and every written position is within it. -/
  returns : ∃ pool, st.pools.lookup alloc.modelId = some pool ∧
    (∀ layer < pool.numLayers, ∀ upto : Option Nat,
      upto.getD alloc.tokensUsed ≤ alloc.tokensCapacity →
        ∃ keys values, ((readContext layer r upto).exec st).1 = .ok (keys, values)) ∧
    ∀ layer p row, st.written r (layer, p) = some row →
      layer < pool.numLayers ∧ p < alloc.tokensCapacity
  /-- A write that returns leaves its rows as the last ones, and no others. -/
  remembers : ∀ layer start keys values,
    ((writeTokens layer r start keys values).exec st).1 = .ok () →
      (∃ pool, st.pools.lookup alloc.modelId = some pool ∧
        ∀ i key value, keys[i]? = some key → values[i]? = some value →
          ((writeTokens layer r start keys values).exec st).2.written r (layer, start + i) =
            some (pool.toKvDtype key, pool.toKvDtype value)) ∧
      ∀ l p, ¬ (l = layer ∧ start ≤ p ∧ p < start + keys.length) →
        ((writeTokens layer r start keys values).exec st).2.written r (l, p) = st.written r (l, p)
  /-- No call of another request, and no registration, changes them. -/
  isolated : ∀ call st', (hostMachine Row).step st call st' → call.request ≠ some r →
    st'.allocations.lookup r = some alloc ∧ st'.written r = st.written r
  /-- Every position within the capacity has a slot. -/
  slotted : ∀ p < alloc.tokensCapacity,
    ∃ slot, ((slotMappingForRequest r (some p)).exec st).1 = .ok slot
  /-- No slot is given to another request or for another position. -/
  slots : ∀ r' alloc' idx idx' slot, st.allocations.lookup r' = some alloc' →
    ((slotMappingForRequest r idx).exec st).1 = .ok slot →
    ((slotMappingForRequest r' idx').exec st).1 = .ok slot →
      r = r' ∧ idx.getD alloc.tokensUsed = idx'.getD alloc'.tokensUsed
  /-- Where every write had a row and returned, the read without a bound reads them all. -/
  counted : ((hostMachine Row).restrict Completed).Reachable st → Counted st r alloc

/-- The host store reads back what was written, in every interleaving. -/
theorem host_store_reads_back (hst : (hostMachine Row).Reachable st)
    (hlive : st.allocations.lookup r = some alloc) : ReadsBack st r alloc := by
  have h := sound_of_reachable hst
  obtain ⟨pool, hpool, -⟩ := h.pool_of_live hlive
  refine ⟨?_, ⟨pool, hpool, ?_, ?_⟩, ?_, ?_, ?_, ?_, ?_⟩
  · exact fun layer upto keys values hread => readContext_written h hlive hread
  · exact fun layer hlayer upto hupto => readContext_total h hlive hpool hlayer hupto
  · exact fun layer p row hw => h.written_within hlive hpool hw
  · intro layer start keys values hok
    obtain ⟨-, hrows, hrest⟩ := writeTokens_written h hlive hpool hok
    exact ⟨⟨pool, hpool, hrows⟩, hrest⟩
  · rintro call st' ⟨hperm, rfl⟩ hother
    obtain ⟨hsame, hrows⟩ := h.frame hperm hother
    exact ⟨hsame.trans hlive, hrows⟩
  · exact fun p hp => slot_total h hlive hp
  · exact fun r' alloc' idx idx' slot hlive' hslot hslot' =>
      slot_owner h hlive hlive' hslot hslot'
  · exact fun hruns => counted_of_reachable hruns r alloc hlive

instance (st : HostStore Row) : ∀ call : HostCall Row, Decidable (call.Permitted st)
  | .registerModel .. => .isTrue trivial
  | .allocateForPrompt _ r _ => inferInstanceAs (Decidable (st.allocations.lookup r = none))
  | .ensureOneMoreSlot r | .writeTokens _ r .. | .readContext _ r _ | .free r =>
    inferInstanceAs (Decidable ((st.allocations.lookup r).isSome = true))

/-- A list of calls, as long as they are permitted. -/
def runCalls : List (HostCall Row) → HostStore Row → Option (HostStore Row)
  | [], st => some st
  | call :: calls, st =>
    if call.Permitted st then runCalls calls (call.perform.exec st).2 else none

theorem runCalls_reachable {calls : List (HostCall Row)} (hst : (hostMachine Row).Reachable st)
    (h : runCalls calls st = some st') : (hostMachine Row).Reachable st' := by
  induction calls generalizing st with
  | nil =>
    cases h
    exact hst
  | cons call calls ih =>
    rw [runCalls] at h
    split at h
    · next hperm => exact ih (hst.next (a := call) ⟨hperm, rfl⟩) h
    · cases h

/-- Three pages of two tokens. The pages of `b` come back, and `c` and the third token of `a`
get them. -/
def recycledRun : Option (HostStore Nat) :=
  runCalls [
    .registerModel "m" ⟨2, 4, 1, some 3, 1, id, 0⟩ none,
    .allocateForPrompt "m" "a" 2, .allocateForPrompt "m" "b" 4,
    .writeTokens 0 "a" 0 [10, 11] [20, 21], .writeTokens 0 "b" 0 [30, 31, 32] [40, 41, 42],
    .free "b", .ensureOneMoreSlot "a", .writeTokens 0 "a" 1 [13, 12] [23, 22],
    .allocateForPrompt "m" "c" 1, .writeTokens 0 "c" 0 [50] [60]]
    (.new ⟨-1, fun parent _ => parent + 1⟩ 2 true none)

theorem recycledRun_reads : (recycledRun.bind fun st => (st.allocations.lookup "a").map fun alloc =>
    (alloc.pageIds, ((readContext 0 "a" none).exec st).1.toOption)) =
      some ([0, 1], some ([10, 13, 12], [20, 23, 22])) := by
  decide +kernel

theorem host_store_reads_back_recycled : ∃ st alloc, (hostMachine Nat).Reachable st ∧
    st.allocations.lookup "a" = some alloc ∧ alloc.pageIds = [0, 1] ∧
    ((readContext 0 "a" none).exec st).1.toOption = some ([10, 13, 12], [20, 23, 22]) ∧
    ReadsBack st "a" alloc := by
  obtain ⟨st, hrun, h⟩ := Option.bind_eq_some_iff.mp recycledRun_reads
  obtain ⟨alloc, hlive, h⟩ := Option.map_eq_some_iff.mp h
  obtain ⟨hpages, hread⟩ := Prod.mk.inj h
  have hst : (hostMachine Nat).Reachable st :=
    runCalls_reachable (.start ⟨_, _, _, _, rfl⟩) hrun
  exact ⟨st, alloc, hst, hlive, hpages, hread, host_store_reads_back hst hlive⟩

end HostStore
end PyptoServing.Memory
