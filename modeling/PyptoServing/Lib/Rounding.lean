import Mathlib

/-!
# Rounding to integer multiples of a scale

Half to even, over any ordered field with a floor. A value within `n` scales of zero is rounded
to a multiple within `n`, and no further away than half a scale.
-/
namespace PyptoServing.Lib

variable {K : Type*} [Field K] [LinearOrder K] [IsStrictOrderedRing K] [FloorRing K]

/-- The nearest integer, and the even one of two. -/
def roundHalfEven (x : K) : ℤ :=
  if x - ⌊x⌋ < 1 / 2 then ⌊x⌋
  else if 1 / 2 < x - ⌊x⌋ then ⌊x⌋ + 1
  else if ⌊x⌋ % 2 = 0 then ⌊x⌋ else ⌊x⌋ + 1

variable {x s w : K} {n : ℤ}

omit [IsStrictOrderedRing K] in
theorem roundHalfEven_cases (x : K) :
    (roundHalfEven x = ⌊x⌋ ∧ x - ⌊x⌋ ≤ 1 / 2) ∨ (roundHalfEven x = ⌊x⌋ + 1 ∧ 1 / 2 ≤ x - ⌊x⌋) := by
  unfold roundHalfEven
  split
  · next h => exact .inl ⟨rfl, h.le⟩
  · next h =>
    rw [not_lt] at h
    split
    · exact .inr ⟨rfl, h⟩
    · next h' =>
      split
      · exact .inl ⟨rfl, not_lt.mp h'⟩
      · exact .inr ⟨rfl, h⟩

theorem abs_sub_roundHalfEven_le (x : K) : |x - roundHalfEven x| ≤ 1 / 2 := by
  have hfloor := Int.floor_le x
  have hlt := Int.lt_floor_add_one x
  obtain ⟨h, hle⟩ | ⟨h, hle⟩ := roundHalfEven_cases x
  · rw [h, abs_le]
    constructor <;> linarith
  · rw [h, abs_le]
    push_cast
    constructor <;> linarith

/-- Rounding does not cross an integer. -/
theorem roundHalfEven_le (h : x ≤ n) : roundHalfEven x ≤ n := by
  obtain ⟨hr, -⟩ | ⟨hr, hle⟩ := roundHalfEven_cases x
  · rw [hr]
    exact_mod_cast (Int.floor_le x).trans h
  · rw [hr, Int.add_one_le_iff, Int.floor_lt]
    refine h.lt_of_ne fun heq => ?_
    rw [heq, Int.floor_intCast, sub_self] at hle
    linarith

omit [IsStrictOrderedRing K] in
theorem le_roundHalfEven (h : (n : K) ≤ x) : n ≤ roundHalfEven x := by
  have hfloor : n ≤ ⌊x⌋ := Int.le_floor.mpr h
  obtain ⟨hr, -⟩ | ⟨hr, -⟩ := roundHalfEven_cases x <;> rw [hr]
  · exact hfloor
  · omega

/-- A value within `n` scales of zero. -/
theorem roundHalfEven_div_bounds (hs : 0 < s) (h : |w| ≤ n * s) :
    -n ≤ roundHalfEven (w / s) ∧ roundHalfEven (w / s) ≤ n := by
  obtain ⟨hlo, hhi⟩ := abs_le.mp h
  constructor
  · refine le_roundHalfEven ?_
    rw [le_div_iff₀ hs]
    push_cast
    linarith
  · exact roundHalfEven_le ((div_le_iff₀ hs).mpr hhi)

/-- Scaling back is off by half a scale at most. -/
theorem abs_sub_roundHalfEven_mul_le (hs : 0 < s) (w : K) :
    |w - roundHalfEven (w / s) * s| ≤ s / 2 := by
  have hround := abs_sub_roundHalfEven_le (w / s)
  have heq : w - roundHalfEven (w / s) * s = (w / s - roundHalfEven (w / s)) * s := by
    rw [sub_mul, div_mul_cancel₀ w hs.ne']
  rw [heq, abs_mul, abs_of_pos hs]
  calc |w / s - roundHalfEven (w / s)| * s ≤ 1 / 2 * s := by gcongr
    _ = s / 2 := by ring

end PyptoServing.Lib
