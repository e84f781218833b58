import Mathlib

/-!
# Speculative decoding

A target predicts the token behind each token of a context. Drafts are accepted as far as they
agree with the predictions, and the first prediction behind them is kept too: the accepted tokens
are those that the target generates one by one.
-/
namespace PyptoServing.Lib.Speculation

variable {α : Type*} {next : List α → α} {k : Nat}

/-- The predictions behind each of the inputs, from the context on. -/
def predictions (next : List α → α) (context : List α) : List α → List α
  | [] => []
  | token :: inputs => next (context ++ [token]) :: predictions next (context ++ [token]) inputs

/-- The tokens that a target generates one by one. -/
def generate (next : List α → α) : List α → Nat → List α
  | _, 0 => []
  | context, n + 1 => next context :: generate next (context ++ [next context]) n

@[simp]
theorem length_predictions (context inputs : List α) :
    (predictions next context inputs).length = inputs.length := by
  induction inputs generalizing context with
  | nil => rfl
  | cons token inputs ih => simp [predictions, ih]

theorem getElem?_predictions (context : List α) {inputs : List α} (h : k < inputs.length) :
    (predictions next context inputs)[k]? = some (next (context ++ inputs.take (k + 1))) := by
  induction inputs generalizing context k with
  | nil => simp at h
  | cons token inputs ih =>
    cases k with
    | zero => simp [predictions]
    | succ k =>
      have hk := ih (context ++ [token]) (Nat.lt_of_succ_lt_succ h)
      simpa [predictions] using hk

/-- Generation goes on where it stopped. -/
theorem generate_add (context : List α) (m n : Nat) :
    generate next context (m + n) =
      generate next context m ++ generate next (context ++ generate next context m) n := by
  induction m generalizing context with
  | zero => simp [generate]
  | succ m ih =>
    rw [Nat.succ_add, generate, generate, ih]
    simp [List.append_assoc]

@[simp]
theorem length_generate (context : List α) (n : Nat) :
    (generate next context n).length = n := by
  induction n generalizing context with
  | zero => rfl
  | succ n ih => simp [generate, ih]

section Matching
variable [DecidableEq α] {drafts : List α}

/-- How many drafts agree with the predictions, up to the first that does not. -/
def matched : List α → List α → Nat
  | draft :: drafts, predicted :: predictions =>
    if draft = predicted then matched drafts predictions + 1 else 0
  | _, _ => 0

/-- The longest matching prefix and the prediction behind it. -/
def accepted (drafts predictions : List α) : List α :=
  predictions.take (matched drafts predictions + 1)

theorem matched_le_drafts (drafts predictions : List α) : matched drafts predictions ≤ drafts.length := by
  induction drafts generalizing predictions with
  | nil => simp [matched]
  | cons draft drafts ih =>
    cases predictions with
    | nil => simp [matched]
    | cons predicted predictions =>
      have h := ih predictions
      simp only [matched, List.length_cons]
      split <;> omega

/-- The drafts up to the first that does not match are the predictions. -/
theorem getElem?_of_lt_matched {predictions : List α} (h : k < matched drafts predictions) :
    ∃ token, drafts[k]? = some token ∧ predictions[k]? = some token := by
  induction drafts generalizing predictions k with
  | nil => simp [matched] at h
  | cons draft drafts ih =>
    cases predictions with
    | nil => simp [matched] at h
    | cons predicted predictions =>
      simp only [matched] at h
      split at h
      · next heq =>
        cases k with
        | zero => exact ⟨draft, rfl, by rw [heq]; rfl⟩
        | succ k => exact ih (Nat.lt_of_succ_lt_succ h)
      · omega

/-- The first draft that does not match is not predicted. -/
theorem getElem?_matched_ne {predictions : List α} (hd : matched drafts predictions < drafts.length)
    (hp : matched drafts predictions < predictions.length) :
    drafts[matched drafts predictions]? ≠ predictions[matched drafts predictions]? := by
  induction drafts generalizing predictions with
  | nil => simp at hd
  | cons draft drafts ih =>
    cases predictions with
    | nil => simp at hp
    | cons predicted predictions =>
      simp only [matched, List.length_cons] at hd hp ⊢
      split at hd
      · next heq =>
        rw [if_pos heq] at hp ⊢
        simp only [List.getElem?_cons_succ]
        exact ih (by omega) (by omega)
      · next hne =>
        rw [if_neg hne]
        simpa using hne

/-- The accepted tokens are generated one by one. -/
theorem accepted_eq_generate (context : List α) (current : α) (drafts : List α) :
    accepted drafts (predictions next context (current :: drafts)) =
      generate next (context ++ [current])
        (matched drafts (predictions next context (current :: drafts)) + 1) := by
  induction drafts generalizing context current with
  | nil => simp [accepted, matched, predictions, generate]
  | cons draft drafts ih =>
    have hrest := ih (context ++ [current]) draft
    have hcons : predictions next context (current :: draft :: drafts) =
        next (context ++ [current]) :: predictions next (context ++ [current]) (draft :: drafts) := rfl
    by_cases h : draft = next (context ++ [current])
    · have hgen : ∀ n, generate next (context ++ [current]) (n + 1) =
          draft :: generate next (context ++ [current] ++ [draft]) n := by
        intro n
        rw [h]
        rfl
      unfold accepted at hrest ⊢
      rw [hcons, matched, if_pos h, List.take_succ_cons, hrest, hgen, ← h]
    · unfold accepted
      rw [hcons, matched, if_neg h]
      rfl

end Matching

end PyptoServing.Lib.Speculation
