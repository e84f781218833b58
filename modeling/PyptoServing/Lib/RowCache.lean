import Mathlib

/-!
# Rows rewritten only when their key changes

A buffer of rows keeps the key from which each row was rendered. A row whose key is the
wanted one is left alone; a coherent buffer then holds what plain writes would have left.
-/
namespace PyptoServing.Lib

/-- The rows, and the key that each was rendered from, if it is known. -/
structure CachedRows (κ ρ : Type*) where
  rows : List ρ
  keys : List (Option κ)
  deriving DecidableEq

namespace CachedRows
variable {κ ρ : Type*} [DecidableEq κ] {render : κ → ρ} {c : CachedRows κ ρ} {i n : Nat} {k : κ}

/-- Render the key into the row, unless the row has it already. -/
def write (render : κ → ρ) (c : CachedRows κ ρ) (i : Nat) (k : κ) : CachedRows κ ρ :=
  if c.keys[i]? = some (some k) then c
  else { rows := c.rows.set i (render k), keys := c.keys.set i (some k) }

/-- No key is known any more. -/
def forget (c : CachedRows κ ρ) (keys : List (Option κ)) : CachedRows κ ρ := { c with keys }

/-- A row with a known key was rendered from it. -/
def Coherent (render : κ → ρ) (c : CachedRows κ ρ) : Prop :=
  ∀ (i : Nat) (k : κ), c.keys[i]? = some (some k) → c.rows[i]? = some (render k)

omit [DecidableEq κ] in
theorem Coherent.of_unknown (h : ∀ key ∈ c.keys, key = none) : Coherent render c := by
  intro i k hk
  cases h _ (List.mem_of_getElem? hk)

/-- A cached write leaves the rows that a plain one would. -/
theorem Coherent.write_rows (h : Coherent render c) :
    (c.write render i k).rows = c.rows.set i (render k) := by
  unfold write
  split
  next hk =>
    have hrow := h i k hk
    obtain ⟨hi, hrow⟩ := List.getElem?_eq_some_iff.mp hrow
    rw [← hrow, List.set_getElem_self]
  next => rfl

theorem Coherent.write (h : Coherent render c) (hi : i < c.rows.length) :
    Coherent render (c.write render i k) := by
  intro j k' hk'
  rw [h.write_rows]
  unfold CachedRows.write at hk'
  split at hk'
  next hk =>
    rw [List.getElem?_set]
    split
    next hij =>
      subst hij
      rw [hk] at hk'
      cases hk'
      rfl
    next => exact h j k' hk'
  next =>
    rw [List.getElem?_set] at hk' ⊢
    split at hk'
    next hij =>
      subst hij
      rw [if_pos rfl, if_pos hi]
      split at hk'
      · cases hk'
        rfl
      · cases hk'
    next hij =>
      rw [if_neg hij]
      exact h j k' hk'

theorem length_write : (c.write render i k).keys.length = c.keys.length ∧
    (c.write render i k).rows.length = c.rows.length := by
  unfold write
  split
  · exact ⟨rfl, rfl⟩
  · exact ⟨List.length_set, List.length_set⟩

end CachedRows
end PyptoServing.Lib
