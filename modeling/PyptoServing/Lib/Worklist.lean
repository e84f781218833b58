import Mathlib

/-!
# Worklists

A round takes every item of a list once, writes the item's entry, and keeps some of the items for
the next round.
-/
namespace PyptoServing.Lib.Worklist

universe u

variable {ι β : Type u} {ε : Type u} [DecidableEq ι] {result progress : ι → β} {items rest : List ι} {i : ι}

/-- The entries after the items were settled. -/
def settle (result : ι → β) (items : List ι) (progress : ι → β) : ι → β :=
  fun i => if i ∈ items then result i else progress i

@[simp]
theorem settle_nil : settle result [] progress = progress := by
  funext i
  simp [settle]

theorem settle_of_mem (h : i ∈ items) : settle result items progress i = result i := if_pos h

theorem settle_of_notMem (h : i ∉ items) : settle result items progress i = progress i := if_neg h

theorem settle_append : settle result (items ++ rest) progress =
    settle result rest (settle result items progress) := by
  funext i
  unfold settle
  by_cases hrest : i ∈ rest <;> simp [hrest]

theorem settle_cons : settle result (i :: items) progress =
    settle result items (Function.update progress i (result i)) := by
  funext j
  unfold settle
  by_cases hj : j ∈ items
  · simp [hj]
  · by_cases hij : j = i
    · simp [hij]
    · simp [hj, hij]

/-- A round over entries that each carry a different item. -/
theorem foldlM_round {m : Type u → Type*} [Monad m] [LawfulMonad m]
    {f : (ι → β) × List ι → ε → m ((ι → β) × List ι)} {key : ε → ι} {start : ι → β} {goes : ι → Bool}
    {entries : List ε}
    (step : ∀ e ∈ entries, ∀ acc : (ι → β) × List ι, acc.1 (key e) = start (key e) →
      f acc e = pure (Function.update acc.1 (key e) (result (key e)),
        if goes (key e) then acc.2 ++ [key e] else acc.2))
    (hnodup : (entries.map key).Nodup) (hstart : ∀ e ∈ entries, progress (key e) = start (key e))
    (kept : List ι) :
    entries.foldlM f (progress, kept) =
      pure (settle result (entries.map key) progress, kept ++ (entries.map key).filter goes) := by
  induction entries generalizing progress kept with
  | nil => simp
  | cons e entries ih =>
    rw [List.map_cons, List.nodup_cons] at hnodup
    rw [List.foldlM_cons, step e (by simp) _ (hstart e (by simp)), pure_bind]
    have hstart' : ∀ e' ∈ entries,
        Function.update progress (key e) (result (key e)) (key e') = start (key e') := by
      intro e' he'
      rw [Function.update_of_ne, hstart e' (by simp [he'])]
      intro heq
      exact hnodup.1 (heq ▸ List.mem_map_of_mem he')
    rw [ih (fun e' he' => step e' (by simp [he'])) hnodup.2 hstart', List.map_cons, settle_cons,
      List.filter_cons]
    by_cases hgoes : goes (key e)
    · simp [hgoes]
    · simp [hgoes]

/-- A round that cannot fail. -/
theorem foldl_round {f : (ι → β) × List ι → ε → (ι → β) × List ι} {key : ε → ι} {start : ι → β}
    {goes : ι → Bool} {entries : List ε}
    (step : ∀ e ∈ entries, ∀ acc : (ι → β) × List ι, acc.1 (key e) = start (key e) →
      f acc e = (Function.update acc.1 (key e) (result (key e)),
        if goes (key e) then acc.2 ++ [key e] else acc.2))
    (hnodup : (entries.map key).Nodup) (hstart : ∀ e ∈ entries, progress (key e) = start (key e))
    (kept : List ι) :
    entries.foldl f (progress, kept) =
      (settle result (entries.map key) progress, kept ++ (entries.map key).filter goes) := by
  rw [List.foldl_eq_foldlM]
  exact congrArg Id.run (foldlM_round (m := Id)
    (fun e he acc hacc => congrArg pure (step e he acc hacc)) hnodup hstart kept)

end PyptoServing.Lib.Worklist
