import Mathlib

/-!
# Choosing the first best value

A scan that replaces its choice only by a strictly better one ends with the first index
of the greatest score, and with nothing when no score is positive.
-/
namespace PyptoServing.Lib.Search

variable {ι β : Type*} {score : β → Nat} {value : ι → β}

/-- Replace the choice by `i` when the value of `i` is strictly better. -/
def keepBetter (score : β → Nat) (value : ι → β) (best : Option (ι × β)) (i : ι) :
    Option (ι × β) :=
  if (best.map (score ·.2)).getD 0 < score (value i) then some (i, value i) else best

/-- `i` is the first index of the greatest score, and that score is positive. -/
structure FirstMax (f : ι → Nat) (l : List ι) (i : ι) : Prop where
  pos : 0 < f i
  split : ∃ before after, l = before ++ i :: after ∧ (∀ j ∈ before, f j < f i) ∧
    ∀ j ∈ after, f j ≤ f i

theorem FirstMax.mem {f : ι → Nat} {l : List ι} {i : ι} (h : FirstMax f l i) : i ∈ l := by
  obtain ⟨before, after, rfl, -⟩ := h.split
  simp

theorem FirstMax.le {f : ι → Nat} {l : List ι} {i j : ι} (h : FirstMax f l i) (hj : j ∈ l) :
    f j ≤ f i := by
  obtain ⟨before, after, rfl, hb, ha⟩ := h.split
  rcases List.mem_append.mp hj with hj | hj
  · exact (hb j hj).le
  · rcases List.mem_cons.mp hj with rfl | hj
    · exact le_rfl
    · exact ha j hj

/-- In an increasing list, every smaller index scores less. -/
theorem FirstMax.lt [LinearOrder ι] {f : ι → Nat} {l : List ι} {i j : ι} (h : FirstMax f l i)
    (hl : l.Pairwise (· < ·)) (hj : j ∈ l) (hji : j < i) : f j < f i := by
  obtain ⟨before, after, rfl, hb, -⟩ := h.split
  rcases List.mem_append.mp hj with hj | hj
  · exact hb j hj
  · have hafter := (List.pairwise_cons.mp (List.pairwise_append.mp hl).2.1).1
    rcases List.mem_cons.mp hj with rfl | hj
    · exact absurd hji (lt_irrefl _)
    · exact absurd (hafter j hj) (lt_asymm hji)

/-- What the choice means for the indices seen so far. -/
def Chosen (score : β → Nat) (value : ι → β) (seen : List ι) : Option (ι × β) → Prop
  | none => ∀ i ∈ seen, score (value i) = 0
  | some (i, b) => b = value i ∧ FirstMax (score ∘ value) seen i

theorem Chosen.step {seen : List ι} {best : Option (ι × β)} (h : Chosen score value seen best)
    (j : ι) : Chosen score value (seen ++ [j]) (keepBetter score value best j) := by
  unfold keepBetter
  by_cases hlt : (best.map (score ·.2)).getD 0 < score (value j)
  · rw [if_pos hlt]
    refine ⟨rfl, lt_of_le_of_lt (Nat.zero_le _) hlt, seen, [], rfl, fun i hi => ?_, by simp⟩
    cases best with
    | none => exact lt_of_eq_of_lt (h i hi) hlt
    | some e =>
      obtain ⟨hval, hmax⟩ := h
      refine lt_of_le_of_lt (hmax.le hi) ?_
      simpa [hval] using hlt
  · rw [if_neg hlt]
    cases best with
    | none =>
      intro i hi
      rcases List.mem_append.mp hi with hi | hi
      · exact h i hi
      · rw [List.mem_singleton.mp hi]
        simpa using hlt
    | some e =>
      obtain ⟨hval, hpos, before, after, rfl, hb, ha⟩ := h
      refine ⟨hval, hpos, before, after ++ [j], by simp, hb, fun i hi => ?_⟩
      rcases List.mem_append.mp hi with hi | hi
      · exact ha i hi
      · rw [List.mem_singleton.mp hi]
        simpa [hval] using hlt

/-- The scan's result. -/
theorem chosen_foldl (score : β → Nat) (value : ι → β) (l : List ι) :
    Chosen score value l (l.foldl (keepBetter score value) none) := by
  have hinv : ∀ (l seen : List ι) (best : Option (ι × β)), Chosen score value seen best →
      Chosen score value (seen ++ l) (l.foldl (keepBetter score value) best) := by
    intro l
    induction l with
    | nil =>
      intro seen best h
      simpa using h
    | cons j l ih =>
      intro seen best h
      rw [List.append_cons]
      exact ih _ _ (h.step j)
  exact hinv l [] none (by simp [Chosen])

end PyptoServing.Lib.Search
