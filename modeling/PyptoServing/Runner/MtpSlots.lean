import PyptoServing.Lib.Machine
import PyptoServing.Runner.MtpState

/-!
# The owners of the tail slots

Slots are reserved before a terminal prefill completes and come back when their request is
released. In every run the free lists and the owned slots share out each rank's slots, and
the generations tell the registrations of a slot apart until their counter wraps.
-/
namespace PyptoServing.Runner

open Lib Lib.Generation Memory Sched

variable {H : Type}

namespace MtpRunner

/-- The slots of a rank that requests own. -/
def ownedSlots (m : MtpRunner H) (rank : Nat) : List Nat :=
  m.requestStates.gather fun state => (state.tail.filter (·.rank = rank)).map (·.slotId)

end MtpRunner

/-- The calls that touch the slots. -/
inductive SlotOp
  | reserveRequestState (r : RequestId) (rank : Nat)
  | reserveStateSlot (r : RequestId) (rank : Nat) (requestId : String)
  | release (requestIds : List RequestId)

namespace SlotOp

/-- What a call leaves behind, whether it raises or not. -/
def run (m : MtpRunner H) : SlotOp → MtpRunner H
  | reserveRequestState r rank => ((MtpRunner.reserveMtpRequestState r rank).exec m).2
  | reserveStateSlot r rank requestId =>
    ((MtpRunner.reserveMtpStateSlot r rank requestId).exec m).2
  | release requestIds => m.releaseFinishedRequests requestIds

/-- The request that a call reserves for. -/
def reserves : SlotOp → Option RequestId
  | reserveRequestState r _ | reserveStateSlot r _ _ => some r
  | release _ => none

end SlotOp

/-- A slot handed out to a request. -/
abbrev SlotRegistration := Registration (Nat × Nat) RequestId

def TailSlot.registration (t : TailSlot) (r : RequestId) : SlotRegistration :=
  ⟨r, (t.rank, t.slotId), t.generation⟩

/-- The slot that a request has now and had not before. -/
def handedOut (m : MtpRunner H) (r : RequestId) (m' : MtpRunner H) : List SlotRegistration :=
  if m.tail r = none then ((m'.tail r).map (·.registration r)).toList else []

/-- The slot that a call handed out. -/
def registered (m : MtpRunner H) (op : SlotOp) (m' : MtpRunner H) : List SlotRegistration :=
  match op.reserves with
  | some r => handedOut m r m'
  | none => []

def slotMachine (layout : DeepSeekV4CacheLayout) : Machine (MtpRunner H) SlotOp where
  init m := m = .new layout
  step m op m' := m' = op.run m

/-- The runs with the registrations so far. -/
def slotHistory (layout : DeepSeekV4CacheLayout) :
    Machine (MtpRunner H × List SlotRegistration) SlotOp :=
  (slotMachine layout).track [] fun log m op m' => log ++ registered m op m'

/-- The free lists and the requests share out the slots, and the owner of a slot is its last
registration. -/
structure SlotsOwned (layout : DeepSeekV4CacheLayout) (m : MtpRunner H)
    (log : List SlotRegistration) : Prop where
  ranks : m.freeTailSlots.length = layout.ranks
  partition : ∀ rank < layout.ranks,
    (m.freeSlots rank ++ m.ownedSlots rank).Perm (List.range layout.decodeBatch)
  homed : ∀ r t, m.tail r = some t → t.rank < layout.ranks
  owner : ∀ r t, m.tail r = some t →
    (of (t.rank, t.slotId) log).getLast? = some (t.registration r)
  numbered : Numbered MtpRunner.generationLimit log

/-- Two registrations of a slot have one generation only when its counter wrapped in between. -/
def FreshGenerations (log : List SlotRegistration) : Prop :=
  ∀ before reg between reg' after, log = before ++ reg :: between ++ reg' :: after →
    reg.key = reg'.key → reg.tag = reg'.tag →
    MtpRunner.generationLimit ≤ (of reg'.key (before ++ reg :: between)).length + 1

/-- The counters have the shape of the slots and count their registrations. -/
structure SlotsCounted (layout : DeepSeekV4CacheLayout) (m : MtpRunner H)
    (log : List SlotRegistration) : Prop where
  ranks : m.slotGenerations.length = layout.ranks
  slots : ∀ gens ∈ m.slotGenerations, gens.length = layout.decodeBatch
  counted : ∀ rank < layout.ranks, ∀ slot < layout.decodeBatch,
    m.generation rank slot = tagOf MtpRunner.generationLimit (of (rank, slot) log).length

namespace MtpRunner
variable {m : MtpRunner H} {r r' : RequestId} {rank slot : Nat} {state : MtpRequestState H}

theorem tail_setDefault : ({ m with requestStates := m.requestStates.setDefault r {} } :
    MtpRunner H).tail r' = m.tail r' := by
  unfold tail
  by_cases hr : r' = r
  · subst hr
    rw [Dict.lookup_setDefault_self]
    cases m.requestStates.lookup r' <;> rfl
  · rw [Dict.lookup_setDefault_ne _ hr]

theorem tail_assign_self : (m.assign r state rank slot).tail r =
    some ⟨rank, slot, Generation.next generationLimit (m.generation rank slot)⟩ := by
  unfold tail assign
  rw [AList.lookup_insert]
  rfl

theorem tail_assign_ne (hr : r' ≠ r) : (m.assign r state rank slot).tail r' = m.tail r' := by
  unfold tail assign
  rw [AList.lookup_insert_ne hr]

/-- A reservation for a registered request changes nothing or pops a slot of the rank. -/
theorem reserveMtpStateSlot_cases (m : MtpRunner H) (r : RequestId) (rank : Nat)
    (requestId : String) :
    ((reserveMtpStateSlot r rank requestId).exec m).2 = m ∨
    ∃ state freeSlots slot, m.requestStates.lookup r = some state ∧ state.tail = none ∧
      m.freeTailSlots[rank]? = some freeSlots ∧ freeSlots.getLast? = some slot ∧
      ((reserveMtpStateSlot r rank requestId).exec m).2 = m.assign r state rank slot := by
  unfold reserveMtpStateSlot
  cases hstate : m.requestStates.lookup r with
  | none =>
    have hreq : (requireMtpRequestState r).exec m =
        (.error s!"DeepSeekV4 MTP state is missing for request '{r}'", m) := by
      simp [requireMtpRequestState, Raising.exec_bind, hstate]
    exact .inl (by rw [Raising.exec_bind_error hreq])
  | some state =>
    have hreq : (requireMtpRequestState r).exec m = (.ok state, m) := by
      simp [requireMtpRequestState, Raising.exec_bind, hstate]
    rw [Raising.exec_bind_ok hreq]
    cases htail : state.tail with
    | some tail =>
      left
      dsimp only
      split <;> rfl
    | none =>
      rw [Raising.exec_bind_ok (Raising.exec_get m)]
      cases hfree : m.freeTailSlots[rank]? with
      | none => exact .inl rfl
      | some freeSlots =>
        cases hslot : freeSlots.getLast? with
        | none => exact .inl (by simp only [hslot]; rfl)
        | some slot =>
          refine .inr ⟨state, freeSlots, slot, rfl, htail, rfl, hslot, ?_⟩
          simp only [hslot]
          rfl

theorem tail_eq_some {t : TailSlot} : m.tail r = some t ↔
    ∃ state, m.requestStates.lookup r = some state ∧ state.tail = some t := by
  unfold tail
  rw [Option.bind_eq_some_iff]

theorem mem_ownedSlots : slot ∈ m.ownedSlots rank ↔
    ∃ r t, m.tail r = some t ∧ t.rank = rank ∧ t.slotId = slot := by
  unfold ownedSlots
  rw [Dict.mem_gather]
  constructor
  · rintro ⟨r, state, hstate, hslot⟩
    obtain ⟨t, ht, rfl⟩ := Option.map_eq_some_iff.mp hslot
    obtain ⟨htail, hrank⟩ := Option.filter_eq_some_iff.mp ht
    exact ⟨r, t, tail_eq_some.mpr ⟨state, hstate, htail⟩, of_decide_eq_true hrank, rfl⟩
  · rintro ⟨r, t, ht, rfl, rfl⟩
    obtain ⟨state, hstate, htail⟩ := tail_eq_some.mp ht
    exact ⟨r, state, hstate, by rw [htail]; simp⟩

theorem freeSlots_modify_self {f : List Nat → List Nat} {free : List Nat}
    (h : m.freeTailSlots[rank]? = some free) :
    (m.freeTailSlots.modify rank f).getD rank [] = f free := by
  rw [List.getD_eq_getElem?_getD, List.getElem?_modify_eq, h]
  rfl

theorem freeSlots_modify_ne {f : List Nat → List Nat} {rank' : Nat} (h : rank ≠ rank') :
    (m.freeTailSlots.modify rank f).getD rank' [] = m.freeSlots rank' := by
  unfold freeSlots
  rw [List.getD_eq_getElem?_getD, List.getD_eq_getElem?_getD, List.getElem?_modify_ne _ _ h]

theorem generation_assign_self (hgens : rank < m.slotGenerations.length)
    (hslots : ∀ gens ∈ m.slotGenerations, slot < gens.length) :
    (m.assign r state rank slot).generation rank slot =
      next generationLimit (m.generation rank slot) := by
  have hlen := hslots _ (List.getElem_mem hgens)
  unfold assign
  show ((m.slotGenerations.modify rank _).getD rank []).getD slot 0 = _
  rw [List.getD_eq_getElem?_getD, List.getD_eq_getElem?_getD, List.getElem?_modify_eq,
    List.getElem?_eq_getElem hgens]
  show ((m.slotGenerations[rank].set slot _)[slot]?).getD 0 = _
  rw [List.getElem?_set_self hlen]
  rfl

theorem generation_assign_ne {rank' slot' : Nat} (h : (rank, slot) ≠ (rank', slot')) :
    (m.assign r state rank slot).generation rank' slot' = m.generation rank' slot' := by
  unfold assign generation
  simp only [List.getD_eq_getElem?_getD]
  by_cases hrank : rank = rank'
  · subst hrank
    have hslot : slot ≠ slot' := fun heq => h (by rw [heq])
    rw [List.getElem?_modify_eq]
    cases m.slotGenerations[rank]? with
    | none => rfl
    | some gens => exact congrArg (·.getD 0) (List.getElem?_set_ne hslot)
  · rw [List.getElem?_modify_ne _ _ hrank]

/-- The owned slots after a reservation. -/
theorem ownedSlots_assign (hstate : m.requestStates.lookup r = some state)
    (htail : state.tail = none) (rank' : Nat) :
    ((m.assign r state rank slot).ownedSlots rank').Perm
      ((if rank = rank' then [slot] else []) ++ m.ownedSlots rank') := by
  have herase := Dict.gather_erase (fun state : MtpRequestState H =>
    (state.tail.filter (·.rank = rank')).map (·.slotId)) m.requestStates r
  rw [hstate, Option.bind_some, htail] at herase
  unfold ownedSlots assign
  dsimp only
  rw [Dict.gather_insert]
  apply List.Perm.append _ herase.symm
  by_cases hrank : rank = rank' <;> simp [hrank]

/-- The owned slots after a release. -/
theorem ownedSlots_release (rank' : Nat) : (m.ownedSlots rank').Perm
    ((((m.tail r).filter (·.rank = rank')).map (·.slotId)).toList ++
      (m.releaseRequest r).ownedSlots rank') := by
  have herase := Dict.gather_erase (fun state : MtpRequestState H =>
    (state.tail.filter (·.rank = rank')).map (·.slotId)) m.requestStates r
  have htail : ((m.requestStates.lookup r).bind fun state =>
      (state.tail.filter (·.rank = rank')).map (·.slotId)) =
      ((m.tail r).filter (·.rank = rank')).map (·.slotId) := by
    unfold tail
    cases m.requestStates.lookup r <;> rfl
  rw [htail] at herase
  exact herase

theorem tail_release_self : (m.releaseRequest r).tail r = none := by
  unfold tail releaseRequest
  rw [AList.lookup_erase]
  rfl

theorem tail_release_ne (hr : r' ≠ r) : (m.releaseRequest r).tail r' = m.tail r' := by
  unfold tail releaseRequest
  rw [AList.lookup_erase_ne hr]

end MtpRunner

section
variable {layout : DeepSeekV4CacheLayout} {m : MtpRunner H} {log : List SlotRegistration}
  {r : RequestId} {rank slot : Nat} {state : MtpRequestState H}

open MtpRunner

theorem SlotsOwned.setDefault (h : SlotsOwned layout m log) :
    SlotsOwned layout { m with requestStates := m.requestStates.setDefault r {} } log where
  ranks := h.ranks
  partition := by
    intro rank hrank
    have howned := Dict.gather_setDefault (f := fun state : MtpRequestState H =>
      (state.tail.filter (·.rank = rank)).map (·.slotId)) (v := {}) rfl m.requestStates r
    exact (howned.append_left _).trans (h.partition rank hrank)
  homed := by
    intro r' t ht
    rw [tail_setDefault] at ht
    exact h.homed r' t ht
  owner := by
    intro r' t ht
    rw [tail_setDefault] at ht
    exact h.owner r' t ht
  numbered := h.numbered

theorem SlotsOwned.free (h : SlotsOwned layout m log) {free : List Nat}
    (hfree : m.freeTailSlots[rank]? = some free) (hslot : free.getLast? = some slot) :
    rank < layout.ranks ∧ slot < layout.decodeBatch ∧ free.dropLast ++ [slot] = free ∧
      ∀ r t, m.tail r = some t → (t.rank, t.slotId) ≠ (rank, slot) := by
  have hrank : rank < layout.ranks := by
    rw [← h.ranks]
    exact (List.getElem?_eq_some_iff.mp hfree).1
  have hsplit : free.dropLast ++ [slot] = free := List.dropLast_append_getLast? slot hslot
  have hpart := h.partition rank hrank
  have hfree' : m.freeSlots rank = free := by
    unfold freeSlots
    rw [List.getD_eq_getElem?_getD, hfree]
    rfl
  have hmem : slot ∈ m.freeSlots rank := by
    rw [hfree', ← hsplit]
    simp
  have hlt : slot < layout.decodeBatch :=
    List.mem_range.mp (hpart.subset (List.mem_append_left _ hmem))
  refine ⟨hrank, hlt, hsplit, fun r t ht heq => ?_⟩
  obtain ⟨hrank', hslot'⟩ := Prod.mk.inj heq
  have howned : slot ∈ m.ownedSlots rank := mem_ownedSlots.mpr ⟨r, t, ht, hrank', hslot'⟩
  have hnodup := hpart.nodup_iff.mpr List.nodup_range
  exact (List.nodup_append.mp hnodup).2.2 slot hmem slot howned rfl

/-- A reservation counts one more registration of its slot. -/
theorem SlotsCounted.assign (h : SlotsCounted layout m log) (state : MtpRequestState H)
    (hrank : rank < layout.ranks) (hlt : slot < layout.decodeBatch) :
    SlotsCounted layout (m.assign r state rank slot)
      (log ++ [⟨r, (rank, slot), next generationLimit (m.generation rank slot)⟩]) := by
  have hgens : rank < m.slotGenerations.length := by rwa [h.ranks]
  have hslots : ∀ gens ∈ m.slotGenerations, slot < gens.length := by
    intro gens hmem
    rwa [h.slots gens hmem]
  refine ⟨?_, ?_, ?_⟩
  · show (m.slotGenerations.modify rank _).length = _
    rw [List.length_modify, h.ranks]
  · intro gens hmem
    have hmem' : gens ∈ m.slotGenerations.modify rank
        (·.set slot (next generationLimit (m.generation rank slot))) := hmem
    obtain ⟨i, hi, rfl⟩ := List.getElem_of_mem hmem'
    rw [List.getElem_modify]
    rw [List.length_modify] at hi
    split
    · rw [List.length_set]
      exact h.slots _ (List.getElem_mem hi)
    · exact h.slots _ (List.getElem_mem hi)
  · intro rank' hrank' slot' hslot'
    have hold := h.counted rank' hrank' slot' hslot'
    by_cases heq : (rank, slot) = (rank', slot')
    · obtain ⟨rfl, rfl⟩ := Prod.mk.inj heq
      have hsingle := of_single (⟨r, (rank, slot),
        next generationLimit (m.generation rank slot)⟩ : SlotRegistration)
      rw [generation_assign_self hgens hslots, of_append, hsingle, List.length_append, hold]
      rfl
    · rw [generation_assign_ne heq, of_append, of_single_ne heq, List.append_nil]
      exact hold

/-- A reservation pops a free slot with its next generation. -/
theorem SlotsOwned.assign (h : SlotsOwned layout m log) (hcount : SlotsCounted layout m log)
    {free : List Nat} (hstate : m.requestStates.lookup r = some state)
    (htail : state.tail = none) (hfree : m.freeTailSlots[rank]? = some free)
    (hslot : free.getLast? = some slot) :
    let m' := m.assign r state rank slot
    let log' := log ++ [⟨r, (rank, slot), next generationLimit (m.generation rank slot)⟩]
    SlotsOwned layout m' log' ∧ SlotsCounted layout m' log' := by
  obtain ⟨hrank, hlt, hsplit, hunowned⟩ := h.free hfree hslot
  have hfree' : m.freeSlots rank = free := by
    unfold freeSlots
    rw [List.getD_eq_getElem?_getD, hfree]
    rfl
  refine ⟨⟨?_, ?_, ?_, ?_, ?_⟩, hcount.assign state hrank hlt⟩
  · show (m.freeTailSlots.modify rank List.dropLast).length = _
    rw [List.length_modify, h.ranks]
  · intro rank' hrank'
    have hpart := h.partition rank' hrank'
    refine ((ownedSlots_assign hstate htail rank').append_left _).trans ?_
    show ((m.freeTailSlots.modify rank List.dropLast).getD rank' [] ++ _).Perm _
    by_cases heq : rank = rank'
    · subst heq
      rw [if_pos rfl, freeSlots_modify_self hfree, ← List.append_assoc, hsplit]
      rwa [hfree'] at hpart
    · rw [if_neg heq, freeSlots_modify_ne heq]
      exact hpart
  · intro r' t ht
    by_cases hr : r' = r
    · subst hr
      rw [tail_assign_self] at ht
      cases ht
      exact hrank
    · rw [tail_assign_ne hr] at ht
      exact h.homed r' t ht
  · intro r' t ht
    by_cases hr : r' = r
    · subst hr
      rw [tail_assign_self] at ht
      cases ht
      rw [of_append]
      have hsingle := of_single (⟨r', (rank, slot),
        next generationLimit (m.generation rank slot)⟩ : SlotRegistration)
      rw [hsingle, List.getLast?_concat]
      rfl
    · rw [tail_assign_ne hr] at ht
      have hne := hunowned r' t ht
      rw [of_append, of_single_ne hne.symm, List.append_nil]
      exact h.owner r' t ht
  · apply h.numbered.snoc
    show next generationLimit (m.generation rank slot) = _
    rw [hcount.counted rank hrank slot hlt]
    rfl

/-- A release gives the slot back. -/
theorem SlotsOwned.release (h : SlotsOwned layout m log) (r : RequestId) :
    SlotsOwned layout (m.releaseRequest r) log where
  ranks := by
    unfold releaseRequest
    cases m.tail r <;> simp [h.ranks]
  partition := by
    intro rank hrank
    have hpart := h.partition rank hrank
    have howned := ownedSlots_release (m := m) (r := r) rank
    cases ht : m.tail r with
    | none =>
      rw [ht] at howned
      have hfree : (m.releaseRequest r).freeSlots rank = m.freeSlots rank := by
        unfold freeSlots releaseRequest
        rw [ht]
      rw [hfree]
      exact (howned.symm.append_left _).trans hpart
    | some t =>
      have hlen : t.rank < m.freeTailSlots.length := by
        rw [h.ranks]
        exact h.homed r t ht
      have hfree : (m.releaseRequest r).freeSlots rank =
          (m.freeTailSlots.modify t.rank (· ++ [t.slotId])).getD rank [] := by
        unfold releaseRequest freeSlots
        rw [ht]
      rw [ht] at howned
      rw [hfree]
      by_cases heq : t.rank = rank
      · subst heq
        rw [freeSlots_modify_self (List.getElem?_eq_getElem hlen), List.append_assoc]
        have hself : ((some t).filter (·.rank = t.rank)).map (·.slotId) = some t.slotId := by simp
        rw [hself] at howned
        have hget : m.freeSlots t.rank = m.freeTailSlots[t.rank] := by
          unfold freeSlots
          rw [List.getD_eq_getElem?_getD, List.getElem?_eq_getElem hlen]
          rfl
        rw [hget] at hpart
        exact (howned.symm.append_left _).trans hpart
      · have hnone : ((some t).filter (·.rank = rank)).map (·.slotId) = none := by simp [heq]
        rw [hnone] at howned
        rw [freeSlots_modify_ne heq]
        exact (howned.symm.append_left _).trans hpart
  homed := by
    intro r' t ht
    by_cases hr : r' = r
    · rw [hr, tail_release_self] at ht
      cases ht
    · rw [tail_release_ne hr] at ht
      exact h.homed r' t ht
  owner := by
    intro r' t ht
    by_cases hr : r' = r
    · rw [hr, tail_release_self] at ht
      cases ht
    · rw [tail_release_ne hr] at ht
      exact h.owner r' t ht
  numbered := h.numbered

theorem SlotsOwned.releaseFinished (h : SlotsOwned layout m log) (requestIds : List RequestId) :
    SlotsOwned layout (m.releaseFinishedRequests requestIds) log := by
  unfold releaseFinishedRequests
  induction requestIds generalizing m with
  | nil => exact h
  | cons r requestIds ih => exact ih (h.release r)

theorem slotGenerations_releaseFinished (requestIds : List RequestId) :
    (m.releaseFinishedRequests requestIds).slotGenerations = m.slotGenerations := by
  unfold releaseFinishedRequests
  induction requestIds generalizing m with
  | nil => rfl
  | cons r requestIds ih => exact ih

theorem SlotsCounted.congr {m' : MtpRunner H} (h : SlotsCounted layout m log)
    (hgens : m'.slotGenerations = m.slotGenerations) : SlotsCounted layout m' log := by
  refine ⟨by rw [hgens, h.ranks], by rw [hgens]; exact h.slots, fun rank hrank slot hslot => ?_⟩
  rw [← h.counted rank hrank slot hslot, generation, generation, hgens]

/-- A reservation keeps the invariants. -/
theorem reserve_keeps (h : SlotsOwned layout m log) (hcount : SlotsCounted layout m log)
    (requestId : String) :
    let m' := ((reserveMtpStateSlot r rank requestId).exec m).2
    SlotsOwned layout m' (log ++ handedOut m r m') ∧
      SlotsCounted layout m' (log ++ handedOut m r m') := by
  dsimp only
  rcases reserveMtpStateSlot_cases m r rank requestId with
    hsame | ⟨state, free, slot, hstate, htail, hfree, hslot, hassign⟩
  · have hnone : handedOut m r m = [] := by
      unfold handedOut
      cases m.tail r <;> rfl
    rw [hsame, hnone, List.append_nil]
    exact ⟨h, hcount⟩
  · have hout : handedOut m r (m.assign r state rank slot) =
        [⟨r, (rank, slot), next generationLimit (m.generation rank slot)⟩] := by
      have hnone : m.tail r = none := by
        rw [tail, hstate]
        exact htail
      rw [handedOut, if_pos hnone, tail_assign_self]
      rfl
    rw [hassign, hout]
    exact h.assign hcount hstate htail hfree hslot

theorem slots_start : SlotsOwned layout (.new layout : MtpRunner H) [] ∧
    SlotsCounted layout (.new layout : MtpRunner H) [] := by
  have hfree : ∀ rank < layout.ranks, (MtpRunner.new layout : MtpRunner H).freeSlots rank =
      (List.range layout.decodeBatch).reverse := by
    intro rank hrank
    unfold freeSlots MtpRunner.new
    rw [List.getD_eq_getElem?_getD, List.getElem?_replicate_of_lt hrank]
    rfl
  refine ⟨⟨List.length_replicate, fun rank hrank => ?_, nofun, nofun, numbered_nil⟩,
    ⟨List.length_replicate, fun gens hgens => ?_, fun rank hrank slot hslot => ?_⟩⟩
  · rw [hfree rank hrank]
    show ((List.range layout.decodeBatch).reverse ++ []).Perm _
    rw [List.append_nil]
    exact List.reverse_perm _
  · rw [List.eq_of_mem_replicate hgens, List.length_replicate]
  · unfold generation MtpRunner.new
    simp only [List.getD_eq_getElem?_getD]
    rw [List.getElem?_replicate_of_lt hrank, Option.getD_some,
      List.getElem?_replicate_of_lt hslot]
    rfl

/-- Every call keeps the invariants. -/
theorem slots_step (h : SlotsOwned layout m log) (hcount : SlotsCounted layout m log)
    (op : SlotOp) : SlotsOwned layout (op.run m) (log ++ registered m op (op.run m)) ∧
      SlotsCounted layout (op.run m) (log ++ registered m op (op.run m)) := by
  cases op with
  | reserveRequestState r rank =>
    have hrun : (SlotOp.reserveRequestState r rank).run m =
        ((reserveMtpStateSlot r rank r).exec
          { m with requestStates := m.requestStates.setDefault r {} }).2 := by
      show ((reserveMtpRequestState r rank).exec m).2 = _
      unfold reserveMtpRequestState
      rw [Raising.exec_bind_ok (Raising.exec_modify _ m)]
    have hsame : ∀ m' : MtpRunner H,
        handedOut { m with requestStates := m.requestStates.setDefault r {} } r m' =
          handedOut m r m' := by
      intro m'
      rw [handedOut, handedOut, tail_setDefault]
    have hset : SlotsOwned layout
        { m with requestStates := m.requestStates.setDefault r {} } log := h.setDefault
    have hsetCount : SlotsCounted layout
        { m with requestStates := m.requestStates.setDefault r {} } log := hcount.congr rfl
    have hkeeps := @reserve_keeps _ layout _ log r rank hset hsetCount r
    dsimp only at hkeeps
    rw [hsame] at hkeeps
    rw [hrun]
    exact hkeeps
  | reserveStateSlot r rank requestId => exact reserve_keeps h hcount requestId
  | release requestIds =>
    show SlotsOwned layout (m.releaseFinishedRequests requestIds) (log ++ []) ∧
      SlotsCounted layout (m.releaseFinishedRequests requestIds) (log ++ [])
    rw [List.append_nil]
    exact ⟨h.releaseFinished requestIds, hcount.congr (slotGenerations_releaseFinished requestIds)⟩

theorem slots_of_reachable (h : (slotHistory layout).Reachable (m, log)) :
    SlotsOwned layout m log ∧ SlotsCounted layout m log := by
  refine Machine.Reachable.invariant (I := fun p => SlotsOwned layout p.1 p.2 ∧
    SlotsCounted layout p.1 p.2) ?_ ?_ h
  · rintro ⟨m, log⟩ ⟨hm, hlog⟩
    obtain rfl : m = .new layout := hm
    obtain rfl : log = [] := hlog
    exact slots_start
  · rintro ⟨m, log⟩ op ⟨m', log'⟩ - ⟨hm, hcount⟩ ⟨hstep, hlog⟩
    obtain rfl : m' = op.run m := hstep
    obtain rfl : log' = log ++ registered m op (op.run m) := hlog
    exact slots_step hm hcount op

theorem run_extends {p q : MtpRunner H × List SlotRegistration} {ops : List SlotOp}
    (h : (slotHistory layout).Run p ops q) : ∃ ext, q.2 = p.2 ++ ext := by
  induction h with
  | nil => exact ⟨[], by simp⟩
  | @snoc t u _ op _ hstep ih =>
    obtain ⟨ext, hext⟩ := ih
    have hlog : u.2 = t.2 ++ registered t.1 op u.1 := hstep.2
    exact ⟨ext ++ registered t.1 op u.1, by rw [hlog, hext, List.append_assoc]⟩

/-- Descriptors are the slots of the requests on their ranks. -/
theorem descriptors_tail {requireReady : Bool} {rows : List (RequestId × Nat)}
    {slots : List TailSlot}
    (h : m.prepareMtpDeviceStateDescriptors requireReady rows = .ok (some slots)) :
    List.Forall₂ (fun row t => m.tail row.1 = some t ∧ t.rank = row.2) rows slots := by
  induction rows generalizing slots with
  | nil =>
    cases h
    exact .nil
  | cons row rows ih =>
    obtain ⟨r, rank⟩ := row
    rw [prepareMtpDeviceStateDescriptors] at h
    cases hstate : m.requestStates.lookup r with
    | none =>
      rw [hstate] at h
      dsimp only at h
      split at h <;> cases h
    | some state =>
      rw [hstate] at h
      dsimp only at h
      cases htail : state.tail with
      | none =>
        rw [htail] at h
        dsimp only at h
        split at h <;> cases h
      | some t =>
        rw [htail] at h
        dsimp only at h
        split at h
        · cases h
        · next hrank =>
          obtain ⟨rest, hrest, hmap⟩ := Lib.Fallible.bind_eq_ok.mp h
          obtain ⟨slots', rfl, rfl⟩ := Option.map_eq_some_iff.mp (Except.ok.inj hmap)
          exact .cons ⟨tail_eq_some.mpr ⟨state, hstate, htail⟩, not_not.mp hrank⟩ (ih hrest)

/-- In every run the slots are shared out, generations are fresh until they wrap, and a device
descriptor matches no later registration of its slot. -/
theorem tail_slots_owned (h : (slotHistory layout).Reachable (m, log)) :
    SlotsOwned layout m log ∧ FreshGenerations log ∧
    ∀ requireReady rows slots,
      m.prepareMtpDeviceStateDescriptors requireReady rows = .ok (some slots) →
      ∀ ops m' log', (slotHistory layout).Run (m, log) ops (m', log') →
      ∀ row t r', (row, t) ∈ rows.zip slots → m'.tail r' = some t →
        (of (t.rank, t.slotId) log').length < generationLimit →
        r' = row.1 ∧ of (t.rank, t.slotId) log' = of (t.rank, t.slotId) log := by
  have hslots := slots_of_reachable h
  refine ⟨hslots.1, ?_, ?_⟩
  · intro before reg between reg' after hlog hkey htag
    exact hslots.1.numbered.fresh hlog hkey htag
  · intro requireReady rows slots hprep ops m' log' hrun row t r' hmem ht' hlt
    have ht := (List.forall₂_zip (descriptors_tail hprep) hmem).1
    have hslots' := slots_of_reachable (h.run hrun)
    obtain ⟨ext, rfl⟩ := run_extends hrun
    have howner := hslots.1.owner row.1 t ht
    have howner' := hslots'.1.owner r' t ht'
    have hnone := hslots'.1.numbered.none_since howner howner' rfl hlt
    rw [of_append, hnone, List.append_nil] at howner' ⊢
    have hreg := Option.some.inj (howner.symm.trans howner')
    exact ⟨(congrArg Registration.owner hreg).symm, rfl⟩

/-- A call extends a run. -/
theorem slotHistory_next (h : (slotHistory layout).Reachable (m, log)) (op : SlotOp) :
    (slotHistory layout).Reachable (op.run m, log ++ registered m op (op.run m)) :=
  h.next (a := op) ⟨rfl, rfl⟩

/-- Two requests share a rank; a third one takes the slot of the first over. -/
theorem tail_slots_owned_reused : ∃ m log,
    (slotHistory (H := Unit) { ranks := 1, decodeBatch := 2 }).Reachable (m, log) ∧
      m.tail "b" = some ⟨0, 1, 1⟩ ∧ m.tail "c" = some ⟨0, 0, 2⟩ ∧
      of (0, 0) log = [⟨"a", (0, 0), 1⟩, ⟨"c", (0, 0), 2⟩] ∧
      SlotsOwned { ranks := 1, decodeBatch := 2 } m log := by
  let layout : DeepSeekV4CacheLayout := { ranks := 1, decodeBatch := 2 }
  have h₀ : (slotHistory layout).Reachable ((.new layout : MtpRunner Unit), []) :=
    .start ⟨rfl, rfl⟩
  have h₁ := slotHistory_next h₀ (.reserveRequestState "a" 0)
  have h₂ := slotHistory_next h₁ (.reserveRequestState "b" 0)
  have h₃ := slotHistory_next h₂ (.release ["a"])
  have h₄ := slotHistory_next h₃ (.reserveRequestState "c" 0)
  exact ⟨_, _, h₄, by decide, by decide, by decide, (tail_slots_owned h₄).1⟩

end
end PyptoServing.Runner
