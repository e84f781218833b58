import PyptoServing.Runner.MtpStaging

/-!
# A kernel that decodes with a target

The rows of a request are a map from positions to tokens. A dispatch writes the tokens of its active
rows and predicts behind what the map then holds.
-/
namespace PyptoServing.Runner

open Lib Memory Sched

/-- The tokens that the blocks of the requests hold. -/
abbrev TokenMemory := RequestId → Nat → Option Int

namespace DecodeInputs
variable (inputs : DecodeInputs) (width : Nat)

/-- What a packed row writes: its request, its position and its token. -/
def writeAt (rank row : Nat) : Option (RequestId × Nat × Int) :=
  if row < inputs.numTokensPerOwner.getD rank 0 then do
    let r ← (inputs.owners.getD rank [])[row / width]?
    let token ← (inputs.inputIds rank (row / width))[row % width]?
    let position ← (inputs.positionIds rank (row / width))[row % width]?
    return (r, position, token)
  else none

/-- All writes of a dispatch. -/
def writes : List (RequestId × Nat × Int) :=
  (List.range inputs.numTokensPerOwner.length).flatMap fun rank =>
    (List.range (inputs.numTokensPerOwner.getD rank 0)).filterMap (inputs.writeAt width rank)

variable {inputs width} {r : RequestId} {position rank row : Nat} {token : Int}

theorem writeAt_eq_some : inputs.writeAt width rank row = some (r, position, token) ↔
    inputs.Active width r position token rank row := by
  unfold writeAt
  constructor
  · intro h
    split at h
    next hlive =>
      obtain ⟨r', hr, h⟩ := Option.bind_eq_some_iff.mp h
      obtain ⟨token', htoken, h⟩ := Option.bind_eq_some_iff.mp h
      obtain ⟨position', hposition, h⟩ := Option.bind_eq_some_iff.mp h
      cases h
      exact ⟨hlive, hr, htoken, hposition⟩
    next => cases h
  · rintro ⟨hlive, hr, htoken, hposition⟩
    rw [if_pos hlive, hr, htoken, hposition]
    rfl

theorem mem_writes : (r, position, token) ∈ inputs.writes width ↔
    ∃ rank row, inputs.Active width r position token rank row := by
  unfold writes
  simp only [List.mem_flatMap, List.mem_filterMap, List.mem_range, writeAt_eq_some]
  constructor
  · rintro ⟨rank, -, row, -, hactive⟩
    exact ⟨rank, row, hactive⟩
  · rintro ⟨rank, row, hactive⟩
    have hlive := hactive.live
    have hrank : rank < inputs.numTokensPerOwner.length := by
      by_contra hge
      rw [List.getD_eq_getElem?_getD, List.getElem?_eq_none (by omega)] at hlive
      exact Nat.not_lt_zero _ hlive
    exact ⟨rank, hrank, row, hlive, hactive⟩

end DecodeInputs

/-- The memory after a dispatch. -/
def TokenMemory.store (memory : TokenMemory) (writes : List (RequestId × Nat × Int)) : TokenMemory :=
  fun r position =>
    match writes.find? fun write => write.1 = r ∧ write.2.1 = position with
    | some write => some write.2.2
    | none => memory r position

/-- The tokens of a request up to a position. -/
def TokenMemory.contextAt (memory : TokenMemory) (r : RequestId) (position : Nat) : List Int :=
  (List.range (position + 1)).filterMap (memory r)

variable {H L : Type}

/-- The kernel of a target. -/
def referenceKernel (target : Target H L) (width : Nat) : DecodeKernel TokenMemory H L where
  run memory inputs :=
    let memory' := memory.store (inputs.writes width)
    let context := fun rank row =>
      ((inputs.writeAt width rank row).map fun write => memory'.contextAt write.1 write.2.1).getD []
    (memory', .ok {
      sampledIds := fun rank row => target.next (context rank row)
      preHcHidden := fun rank row => target.hidden (context rank row)
      logits := fun rank row => target.logits (context rank row) })
  holds memory := memory

theorem referenceKernel_answers (target : Target H L) (width : Nat) :
    (referenceKernel target width).Answers :=
  fun _ _ => ⟨_, _, rfl⟩

theorem contextAt_eq {memory : TokenMemory} {r : RequestId} {position : Nat} {context : List Int}
    (hlen : context.length = position + 1) (hholds : ∀ q ≤ position, memory r q = context[q]?) :
    memory.contextAt r position = context := by
  unfold TokenMemory.contextAt
  have hget : ∀ q ∈ List.range (position + 1), memory r q = some (context.getD q 0) := by
    intro q hq
    have hlt := List.mem_range.mp hq
    rw [hholds q (by omega), List.getD_eq_getElem _ _ (by omega), List.getElem?_eq_getElem (by omega)]
  rw [List.filterMap_congr hget]
  refine List.ext_getElem (by simp [hlen]) fun q hq hq' => ?_
  simp [hq']

/-- It decodes with its target. -/
theorem referenceKernel_computes (target : Target H L) (width : Nat) :
    (referenceKernel target width).Computes target width := by
  refine ⟨?_, ?_, ?_, ?_⟩
  · intro memory memory' inputs output r position token rank row hrun hcons hactive
    cases hrun
    show memory.store (inputs.writes width) r position = _
    unfold TokenMemory.store
    cases hfind : (inputs.writes width).find? fun write => write.1 = r ∧ write.2.1 = position with
    | none =>
      have hnot := List.find?_eq_none.mp hfind _ (DecodeInputs.mem_writes.mpr ⟨rank, row, hactive⟩)
      simp at hnot
    | some write =>
      obtain ⟨r', position', token'⟩ := write
      have hmem := List.mem_of_find?_eq_some hfind
      have hkey := List.find?_some hfind
      simp only [decide_eq_true_eq] at hkey
      obtain ⟨rfl, rfl⟩ := hkey
      obtain ⟨rank', row', hactive'⟩ := DecodeInputs.mem_writes.mp hmem
      exact congrArg some (hcons.token hactive' hactive)
  · intro memory memory' inputs output r position hrun _ hnone
    cases hrun
    show memory.store (inputs.writes width) r position = memory r position
    unfold TokenMemory.store
    rw [List.find?_eq_none.mpr]
    rintro ⟨r', position', token'⟩ hmem hkey
    simp only [decide_eq_true_eq] at hkey
    obtain ⟨rfl, rfl⟩ := hkey
    obtain ⟨rank, row, hactive⟩ := DecodeInputs.mem_writes.mp hmem
    exact hnone token' rank row hactive
  · intro memory memory' inputs output r position token rank row context hrun _ hactive hlen hholds
    cases hrun
    have hcontext : ((inputs.writeAt width rank row).map fun write =>
        (memory.store (inputs.writes width)).contextAt write.1 write.2.1).getD [] = context := by
      rw [DecodeInputs.writeAt_eq_some.mpr hactive]
      exact contextAt_eq hlen hholds
    exact ⟨congrArg target.next hcontext, congrArg target.hidden hcontext,
      congrArg target.logits hcontext⟩
  · intro memory memory' inputs e r hrun
    cases hrun

end PyptoServing.Runner
