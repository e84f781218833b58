import Mathlib

/-!
# Ring buffers of a growing sequence

A ring of `R` slots receives the elements `0, 1, 2, …` in order, element `i` in slot
`i % R`. After `n` elements slot `s` holds element `held R n s`, and the elements still
held are the last `R` ones.
-/
namespace PyptoServing.Lib.Ring

/-- The element that slot `s` holds after `n` elements; before the ring is full, the
slot's own number. -/
def held (R n s : Nat) : Nat := if n ≤ R then s else n - 1 - (n - 1 - s) % R

variable {R n i s : Nat}

theorem held_of_le (h : n ≤ R) : held R n s = s := if_pos h

theorem held_of_lt (h : R < n) : held R n s = n - 1 - (n - 1 - s) % R := if_neg (by omega)

/-- A held element is one of the last `R`. -/
theorem le_held (hR : 0 < R) : n - R ≤ held R n s := by
  by_cases h : n ≤ R
  · rw [held_of_le h]
    omega
  · rw [held_of_lt (by omega)]
    have := Nat.mod_lt (n - 1 - s) hR
    omega

theorem held_lt (hs : s < min n R) : held R n s < n := by
  by_cases h : n ≤ R
  · rw [held_of_le h]
    omega
  · rw [held_of_lt (by omega)]
    omega

/-- An element is held in its own slot. -/
theorem held_mod (hs : s < R) : held R n s % R = s := by
  by_cases h : n ≤ R
  · rw [held_of_le h, Nat.mod_eq_of_lt hs]
  · rw [held_of_lt (by omega)]
    have hdm := Nat.div_add_mod (n - 1 - s) R
    have heq : n - 1 - (n - 1 - s) % R = s + R * ((n - 1 - s) / R) := by
      have := Nat.mod_le (n - 1 - s) R
      omega
    rw [heq, Nat.add_mul_mod_self_left, Nat.mod_eq_of_lt hs]

/-- Two of the last `R` elements in one slot are the same. -/
theorem eq_of_mod_eq {j : Nat} (hi : n - R ≤ i) (hin : i < n) (hj : n - R ≤ j) (hjn : j < n)
    (h : i % R = j % R) : i = j := by
  wlog hij : i ≤ j generalizing i j
  · exact (this hj hjn hi hin h.symm (by omega)).symm
  have hdvd : R ∣ j - i := (Nat.modEq_iff_dvd' hij).mp h
  rcases Nat.eq_zero_or_pos (j - i) with h0 | hpos
  · omega
  · have := Nat.le_of_dvd hpos hdvd
    omega

/-- The slot of one of the last `R` elements holds that element. -/
theorem held_slot (hR : 0 < R) (hi : n - R ≤ i) (hin : i < n) : held R n (i % R) = i := by
  have hslot := Nat.mod_lt i hR
  by_cases h : n ≤ R
  · rw [held_of_le h, Nat.mod_eq_of_lt (by omega)]
  · exact eq_of_mod_eq (le_held hR) (held_lt (by omega)) hi hin (held_mod hslot)

/-- The next element takes over its own slot. -/
theorem held_succ_self (h : R ≤ n) (hR : 0 < R) : held R (n + 1) (n % R) = n :=
  held_slot hR (by omega) (by omega)

/-- The next element leaves every other slot alone. -/
theorem held_succ_ne (h : R ≤ n) (hs : s < R) (hne : s ≠ n % R) :
    held R (n + 1) s = held R n s := by
  have hR : 0 < R := by omega
  have h1 := le_held (n := n + 1) (s := s) hR
  have h2 := held_lt (n := n + 1) (s := s) (R := R) (by omega)
  have h3 := held_mod (n := n + 1) hs
  have hn : held R (n + 1) s ≠ n := fun he => hne (by rw [← h3, he])
  have hslot := held_slot (n := n) hR (i := held R (n + 1) s) (by omega) (by omega)
  rw [h3] at hslot
  exact hslot.symm

end PyptoServing.Lib.Ring
