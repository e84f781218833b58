import PyptoServing.Runner.MtpVerify

/-!
# Drafts of one request

What a request holds at the start of a chunk, and when it is done, in terms of the predictions of
the target.
-/
namespace PyptoServing.Runner

open Lib Memory Sched

/-- A target: what it predicts behind a context, and the rows that belong to the prediction. -/
structure Target (H L : Type) where
  next : List Int → Int
  hidden : List Int → H
  logits : List Int → L

variable {H L : Type}

namespace Target
variable (target : Target H L) (context : List Int)

/-- The predictions behind each of the inputs. -/
def main (inputs : List Int) : List Int := Speculation.predictions target.next context inputs

/-- The prediction behind the inputs up to `k`, with its hidden row and its position. -/
def tail (inputs : List Int) (k : Nat) : Tail H where
  token := target.next (context ++ inputs.take (k + 1))
  hidden := target.hidden (context ++ inputs.take (k + 1))
  position := context.length + k + 1

/-- How many drafts the target predicts. -/
def matched (current : Int) (drafts : List Int) : Nat :=
  Speculation.matched drafts (target.main context (current :: drafts))

/-- A request whose first `o` drafts are accepted, at the start of a chunk. -/
def advanced (inputs : List Int) (o : Nat) : Progress H L where
  accepted := (target.main context inputs).take o
  firstLogits := if o = 0 then none else some (target.logits (context ++ inputs.take 1))

/-- A request that waits for the draft at `o`. -/
def waiting (inputs : List Int) (o : Nat) : Progress H L where
  accepted := (target.main context inputs).take (o - 1)
  firstLogits := some (target.logits (context ++ inputs.take 1))
  pending := some (target.tail context inputs (o - 1))

/-- A request that is done after `k` drafts. -/
def finished (inputs : List Int) (k : Nat) : Progress H L where
  accepted := (target.main context inputs).take (k + 1)
  firstLogits := some (target.logits (context ++ inputs.take 1))
  tail := some (target.tail context inputs k)

variable {target context} {inputs drafts : List Int} {current : Int} {k o : Nat}

theorem main_get (h : k < inputs.length) :
    (target.main context inputs)[k]? = some (target.tail context inputs k).token :=
  Speculation.getElem?_predictions context h

theorem main_take (h : k < inputs.length) : (target.main context inputs).take (k + 1) =
    (target.main context inputs).take k ++ [(target.tail context inputs k).token] := by
  rw [List.take_add_one, main_get h]
  rfl

theorem matched_le : target.matched context current drafts ≤ drafts.length :=
  Speculation.matched_le_drafts _ _

/-- A draft behind accepted ones is accepted if it is predicted. -/
theorem draft_iff (hk : k ≤ target.matched context current drafts) (hlt : k < drafts.length) :
    drafts[k]? = some (target.tail context (current :: drafts) k).token ↔
      k < target.matched context current drafts := by
  have hmain : (target.main context (current :: drafts))[k]? =
      some (target.tail context (current :: drafts) k).token :=
    main_get (by rw [List.length_cons]; omega)
  constructor
  · intro heq
    by_contra hge
    have hkm : Speculation.matched drafts (target.main context (current :: drafts)) = k :=
      le_antisymm (not_lt.mp hge) hk
    have hpredictions : Speculation.matched drafts (target.main context (current :: drafts)) <
        (target.main context (current :: drafts)).length := by
      rw [hkm, main, Speculation.length_predictions, List.length_cons]
      omega
    refine Speculation.getElem?_matched_ne (by rw [hkm]; exact hlt) hpredictions ?_
    rw [hkm, heq, hmain]
  · intro hlt
    obtain ⟨token, hdraft, hpred⟩ := Speculation.getElem?_of_lt_matched hlt
    rw [hmain] at hpred
    rw [hdraft, hpred]

/-- The predictions of a chunk as the host reads them. -/
structure Reads (target : Target H L) (context inputs : List Int) (o width : Nat)
    (predicted : Nat → Int) (hidden : Nat → H) (logits : Nat → L) (positions : List Nat) : Prop where
  predicted : ∀ k < width, predicted k = (target.tail context inputs (o + k)).token
  hidden : ∀ k < width, hidden k = (target.tail context inputs (o + k)).hidden
  positions : ∀ k < width, positions.getD k 0 + 1 = (target.tail context inputs (o + k)).position
  first : o = 0 → logits 0 = target.logits (context ++ inputs.take 1)

variable {predicted : Nat → Int} {hidden : Nat → H} {logits : Nat → L} {positions : List Nat}
  {width : Nat}

theorem Reads.tail_eq (h : Reads target context inputs o width predicted hidden logits positions)
    (hk : k < width) : (⟨predicted k, hidden k, positions.getD k 0 + 1⟩ : Tail H) =
      target.tail context inputs (o + k) := by
  rw [h.predicted k hk, h.hidden k hk, h.positions k hk]

theorem acceptOffsets_eq {n : Nat} {progress : Progress H L}
    (h : Reads target context (current :: drafts) o width predicted hidden logits positions)
    (hk : o + k ≤ target.matched context current drafts) (hwidth : k + n ≤ width)
    (hlen : o + k + n ≤ drafts.length)
    (hacc : progress.accepted = (target.main context (current :: drafts)).take (o + k)) :
    acceptOffsets predicted hidden positions drafts o (List.range' k n) progress =
      if target.matched context current drafts < o + k + n then
        ({ progress with
          accepted := (target.main context (current :: drafts)).take
            (target.matched context current drafts + 1)
          tail := some (target.tail context (current :: drafts)
            (target.matched context current drafts)) }, true)
      else ({ progress with
        accepted := (target.main context (current :: drafts)).take (o + k + n) }, false) := by
  induction n generalizing k progress with
  | zero =>
    rw [if_neg (by omega)]
    simp only [List.range'_zero, acceptOffsets, Nat.add_zero, ← hacc]
  | succ n ih =>
    have hget : (target.main context (current :: drafts)).take (o + k + 1) =
        progress.accepted ++ [predicted k] := by
      rw [main_take (by rw [List.length_cons]; omega), hacc, h.predicted k (by omega)]
    rw [List.range'_succ, acceptOffsets]
    by_cases hm : o + k < target.matched context current drafts
    · rw [if_neg (not_not.mpr ?_), ih (by omega) (by omega) (by omega) ?_]
      · simp only [show o + (k + 1) + n = o + k + (n + 1) by omega]
      · exact hget.symm
      · rw [h.predicted k (by omega)]
        exact (draft_iff hk (by omega)).mpr hm
    · have heq : target.matched context current drafts = o + k := by omega
      rw [if_pos ?_, if_pos (by omega), heq, hget]
      · rw [h.tail_eq (by omega)]
      · rw [h.predicted k (by omega)]
        exact fun hdraft => hm ((draft_iff hk (by omega)).mp hdraft)

/-- One chunk of a request: it is done, or waits for the next chunk. -/
theorem acceptRows_eq (hpos : 0 < width)
    (h : Reads target context (current :: drafts) o width predicted hidden logits positions)
    (hm : o ≤ target.matched context current drafts) (hlen : o + width ≤ drafts.length + 1) :
    acceptRows predicted hidden logits positions drafts drafts.length o width
        (target.advanced context (current :: drafts) o) =
      if target.matched context current drafts + 1 < o + width ∨ o + width = drafts.length + 1 then
        (target.finished context (current :: drafts) (target.matched context current drafts), false)
      else (target.waiting context (current :: drafts) (o + width), true) := by
  have hfirst : ((target.advanced context (current :: drafts) o).firstLogits.orElse
      fun _ => logits 0) = some (target.logits (context ++ (current :: drafts).take 1)) := by
    by_cases ho : o = 0
    · simp only [advanced, if_pos ho, h.first ho]
      rfl
    · simp only [advanced, if_neg ho]
      rfl
  have hbound : target.matched context current drafts ≤ drafts.length := matched_le
  unfold acceptRows
  dsimp only
  rw [hfirst, List.range_eq_range', acceptOffsets_eq h (by omega) (by omega) (by omega) rfl]
  by_cases hrej : target.matched context current drafts < o + 0 + (width - 1)
  · rw [if_pos hrej]
    dsimp only
    rw [if_pos rfl, if_pos (.inl (by omega))]
    rfl
  · rw [if_neg hrej]
    dsimp only
    rw [if_neg (by simp), h.tail_eq (by omega), h.predicted (width - 1) (by omega)]
    by_cases hlast : o + (width - 1) = drafts.length
    · have heq : target.matched context current drafts = drafts.length := by omega
      rw [if_pos hlast, if_pos (.inr (by omega))]
      unfold finished
      rw [main_take (by rw [List.length_cons]; omega), heq, ← hlast]
      rfl
    · rw [if_neg hlast, if_neg (by omega)]
      unfold waiting
      simp only [show o + width - 1 = o + (width - 1) by omega, Nat.add_zero]
      rfl

/-- A request that waited is done, or goes on with the next chunk. -/
theorem resolvePending_eq {allDrafts : List (List Int)} {acc : (Nat → Progress H L) × List Nat}
    {i : Nat} (hdrafts : allDrafts.getD i [] = drafts) (hpos : 0 < o) (hlen : o ≤ drafts.length)
    (hm : o ≤ target.matched context current drafts + 1)
    (hwait : acc.1 i = target.waiting context (current :: drafts) o) :
    resolvePending allDrafts o acc i = .ok
      (if o ≤ target.matched context current drafts then
        (Function.update acc.1 i (target.advanced context (current :: drafts) o), acc.2 ++ [i])
      else (Function.update acc.1 i
        (target.finished context (current :: drafts) (target.matched context current drafts)),
          acc.2)) := by
  obtain ⟨k, rfl⟩ : ∃ k, o = k + 1 := ⟨o - 1, by omega⟩
  have htake : (target.main context (current :: drafts)).take k ++
      [(target.tail context (current :: drafts) k).token] =
      (target.main context (current :: drafts)).take (k + 1) :=
    (main_take (by rw [List.length_cons]; omega)).symm
  unfold resolvePending
  rw [hwait, hdrafts]
  simp only [waiting, Nat.add_sub_cancel, htake]
  by_cases hlt : k < target.matched context current drafts
  · rw [if_pos ((draft_iff (by omega) (by omega)).mpr hlt), if_pos (Nat.succ_le_of_lt hlt)]
    simp only [advanced, if_neg (Nat.succ_ne_zero k)]
  · have heq : target.matched context current drafts = k := by omega
    rw [if_neg fun h => hlt ((draft_iff (by omega) (by omega)).mp h), if_neg (by omega), heq]
    rfl

end Target
end PyptoServing.Runner
