import Mathlib

/-!
# The nucleus of a distribution

The smallest set of most probable indices that reaches a mass, and the cut that keeps an
index as long as the mass up to it stays within the bound. The cut is the nucleus exactly
when some set of most probable indices meets the mass, or the most probable index alone
reaches it.
-/
namespace PyptoServing.Lib.Nucleus

variable {ι κ K : Type*} [Field K] [LinearOrder K]

/-- Every index of the set is more probable than those it leaves out. -/
structure IsTop (p : ι → K) (left s : Finset ι) : Prop where
  subset : s ⊆ left
  dominates : ∀ i ∈ s, ∀ j ∈ left, j ∉ s → p j < p i

/-- The smallest set of most probable indices that reaches the mass. -/
structure IsNucleus (p : ι → K) (left : Finset ι) (mass : K) (s : Finset ι) : Prop
    extends IsTop p left s where
  reaches : mass ≤ ∑ i ∈ s, p i
  least : ∀ t, IsTop p left t → mass ≤ ∑ i ∈ t, p i → s ⊆ t

theorem IsNucleus.unique {p : ι → K} {left s t : Finset ι} {mass : K}
    (hs : IsNucleus p left mass s) (ht : IsNucleus p left mass t) : s = t :=
  (hs.least t ht.toIsTop ht.reaches).antisymm (ht.least s hs.toIsTop hs.reaches)

/-- The more probable indices. -/
def above (p : ι → K) (left : Finset ι) (i : ι) : Finset ι := left.filter fun j => p i < p j

/-- The indices that the more probable ones leave short of the mass. -/
def nucleus (p : ι → K) (left : Finset ι) (mass : K) : Finset ι :=
  left.filter fun i => ∑ j ∈ above p left i, p j < mass

/-- The indices up to which the mass is not exceeded, and the most probable one. -/
def cutoff (p : ι → K) (left : Finset ι) (mass : K) : Finset ι :=
  left.filter fun i => (above p left i).card = 0 ∨ ∑ j ∈ above p left i, p j + p i ≤ mass

/-- A set of most probable indices has exactly the mass, or one index alone reaches it. -/
def Meets (p : ι → K) (left : Finset ι) (mass : K) : Prop :=
  ∃ s, IsTop p left s ∧ (∑ i ∈ s, p i = mass ∨ s.card = 1 ∧ mass ≤ ∑ i ∈ s, p i)

/-- The probability of an index after the others are dropped. -/
def renormalised [DecidableEq ι] (p : ι → K) (s : Finset ι) (i : ι) : K :=
  if i ∈ s then p i / ∑ j ∈ s, p j else 0

omit [LinearOrder K] in
theorem ite_div_sum [DecidableEq ι] (p : ι → K) (s : Finset ι) (i : ι) :
    (if i ∈ s then p i else 0) / ∑ j ∈ s, p j = renormalised p s i := by
  unfold renormalised
  split
  · rfl
  · exact zero_div _

omit [LinearOrder K] in
theorem renormalised_of_notMem [DecidableEq ι] {p : ι → K} {s : Finset ι} {i : ι} (h : i ∉ s) :
    renormalised p s i = 0 := if_neg h

omit [LinearOrder K] in
theorem renormalised_congr [DecidableEq ι] {p q : ι → K} {s : Finset ι} (h : ∀ i ∈ s, p i = q i) :
    renormalised p s = renormalised q s := by
  funext i
  unfold renormalised
  rw [Finset.sum_congr rfl h]
  by_cases hi : i ∈ s
  · rw [if_pos hi, if_pos hi, h i hi]
  · rw [if_neg hi, if_neg hi]

omit [LinearOrder K] in
theorem sum_renormalised [DecidableEq ι] {p : ι → K} {s : Finset ι} (h : ∑ j ∈ s, p j ≠ 0) :
    ∑ i ∈ s, renormalised p s i = 1 := by
  have hval : ∀ i ∈ s, renormalised p s i = p i / ∑ j ∈ s, p j := fun i hi => if_pos hi
  rw [Finset.sum_congr rfl hval, ← Finset.sum_div, div_self h]

theorem renormalised_nonneg [IsStrictOrderedRing K] [DecidableEq ι] {p : ι → K} {s : Finset ι}
    (h : ∀ i ∈ s, 0 ≤ p i) (i : ι) : 0 ≤ renormalised p s i := by
  unfold renormalised
  split
  · next hi => exact div_nonneg (h i hi) (Finset.sum_nonneg h)
  · exact le_rfl

section
variable {p : ι → K} {left s t : Finset ι} {mass : K} {i j : ι}

omit [Field K] in
@[simp]
theorem mem_above : j ∈ above p left i ↔ j ∈ left ∧ p i < p j := Finset.mem_filter

@[simp]
theorem mem_nucleus : i ∈ nucleus p left mass ↔
    i ∈ left ∧ ∑ j ∈ above p left i, p j < mass := Finset.mem_filter

@[simp]
theorem mem_cutoff : i ∈ cutoff p left mass ↔ i ∈ left ∧
    (above p left i = ∅ ∨ ∑ j ∈ above p left i, p j + p i ≤ mass) := by
  rw [cutoff, Finset.mem_filter, Finset.card_eq_zero]

variable [IsStrictOrderedRing K]

theorem sum_above_le (hp : ∀ k ∈ left, 0 ≤ p k) (h : p i ≤ p j) :
    ∑ k ∈ above p left j, p k ≤ ∑ k ∈ above p left i, p k := by
  apply Finset.sum_le_sum_of_subset_of_nonneg
  · intro k hk
    obtain ⟨hmem, hlt⟩ := mem_above.mp hk
    exact mem_above.mpr ⟨hmem, h.trans_lt hlt⟩
  · intro k hk _
    exact hp k (mem_above.mp hk).1

theorem nucleus_top (hp : ∀ k ∈ left, 0 ≤ p k) : IsTop p left (nucleus p left mass) where
  subset := Finset.filter_subset _ _
  dominates := by
    intro i hi j hj hout
    by_contra hle
    exact hout (mem_nucleus.mpr
      ⟨hj, (sum_above_le hp (not_lt.mp hle)).trans_lt (mem_nucleus.mp hi).2⟩)

theorem above_subset_nucleus (hp : ∀ k ∈ left, 0 ≤ p k) (hi : i ∈ nucleus p left mass) :
    above p left i ⊆ nucleus p left mass := by
  intro k hk
  obtain ⟨hmem, hlt⟩ := mem_above.mp hk
  exact mem_nucleus.mpr ⟨hmem, (sum_above_le hp hlt.le).trans_lt (mem_nucleus.mp hi).2⟩

/-- The nucleus exists when all indices together reach the mass. -/
theorem nucleus_isNucleus (hp : ∀ k ∈ left, 0 ≤ p k) (hmass : mass ≤ ∑ i ∈ left, p i) :
    IsNucleus p left mass (nucleus p left mass) where
  toIsTop := nucleus_top hp
  reaches := by
    classical
    by_cases hall : left ⊆ nucleus p left mass
    · rwa [(nucleus_top hp).subset.antisymm hall]
    · obtain ⟨j₀, hj₀, hout₀⟩ := Finset.not_subset.mp hall
      -- the most probable index outside has only indices of the nucleus above it
      obtain ⟨j, hj, hmax⟩ := Finset.exists_max_image (left \ nucleus p left mass) p
        ⟨j₀, Finset.mem_sdiff.mpr ⟨hj₀, hout₀⟩⟩
      obtain ⟨hleft, hout⟩ := Finset.mem_sdiff.mp hj
      have hsub : above p left j ⊆ nucleus p left mass := by
        intro k hk
        obtain ⟨hmem, hlt⟩ := mem_above.mp hk
        by_contra hk'
        exact absurd (hmax k (Finset.mem_sdiff.mpr ⟨hmem, hk'⟩)) (not_le.mpr hlt)
      have hfull : mass ≤ ∑ k ∈ above p left j, p k := by
        by_contra hlt
        exact hout (mem_nucleus.mpr ⟨hleft, not_le.mp hlt⟩)
      exact hfull.trans (Finset.sum_le_sum_of_subset_of_nonneg hsub fun k hk _ =>
        hp k (mem_nucleus.mp hk).1)
  least := by
    intro t ht hreach i hi
    by_contra hout
    have hsub : t ⊆ above p left i := fun k hk => mem_above.mpr
      ⟨ht.subset hk, ht.dominates k hk i (mem_nucleus.mp hi).1 hout⟩
    have hle := Finset.sum_le_sum_of_subset_of_nonneg hsub fun k hk _ =>
      hp k (mem_above.mp hk).1
    exact absurd (hreach.trans hle) (not_le.mpr (mem_nucleus.mp hi).2)

/-- A set of most probable indices that has exactly the mass is the nucleus. -/
theorem IsTop.isNucleus (hs : IsTop p left s) (hp : ∀ k ∈ left, 0 < p k)
    (hmass : ∑ i ∈ s, p i = mass) : IsNucleus p left mass s where
  toIsTop := hs
  reaches := hmass.ge
  least := by
    intro t ht hreach i hi
    by_contra hout
    have hsub : t ⊆ s := by
      intro j hj
      by_contra hj'
      exact lt_asymm (hs.dominates i hi j (ht.subset hj) hj')
        (ht.dominates j hj i (hs.subset hi) hout)
    have hlt : ∑ j ∈ t, p j < ∑ j ∈ s, p j :=
      Finset.sum_lt_sum_of_subset hsub hi hout (hp i (hs.subset hi))
        fun j hj _ => (hp j (hs.subset hj)).le
    rw [hmass] at hlt
    exact absurd hreach (not_le.mpr hlt)

/-- The cut never keeps more than the nucleus. -/
theorem cutoff_subset (hp : ∀ k ∈ left, 0 < p k) (hmass : 0 < mass) :
    cutoff p left mass ⊆ nucleus p left mass := by
  intro i hi
  obtain ⟨hmem, hnone | hle⟩ := mem_cutoff.mp hi
  · exact mem_nucleus.mpr ⟨hmem, by rwa [hnone, Finset.sum_empty]⟩
  · exact mem_nucleus.mpr ⟨hmem, (lt_add_of_pos_right _ (hp i hmem)).trans_le hle⟩

omit [Field K] [IsStrictOrderedRing K] in
/-- The least probable index of a top set has the others above it. -/
theorem IsTop.insert_above [DecidableEq ι] (hs : IsTop p left s)
    (hinj : Set.InjOn p left) (hi : i ∈ s) (hmin : ∀ k ∈ s, p i ≤ p k) :
    insert i (above p left i) = s := by
  ext k
  rw [Finset.mem_insert, mem_above]
  constructor
  · rintro (rfl | ⟨hk, hlt⟩)
    · exact hi
    · by_contra hout
      exact absurd (hs.dominates i hi k hk hout) hlt.not_gt
  · intro hk
    by_cases hki : k = i
    · exact .inl hki
    · refine .inr ⟨hs.subset hk, lt_of_le_of_ne (hmin k hk) fun heq => hki ?_⟩
      exact (hinj (hs.subset hi) (hs.subset hk) heq).symm

/-- The cut is the nucleus exactly when the mass is met. -/
theorem cutoff_eq_nucleus_iff (hp : ∀ k ∈ left, 0 < p k) (hinj : Set.InjOn p left)
    (hmass : 0 < mass) (hreach : mass ≤ ∑ i ∈ left, p i) :
    cutoff p left mass = nucleus p left mass ↔ Meets p left mass := by
  classical
  have hnn : ∀ k ∈ left, 0 ≤ p k := fun k hk => (hp k hk).le
  have hN := nucleus_isNucleus hnn hreach
  constructor
  · intro heq
    have hne : (nucleus p left mass).Nonempty := by
      by_contra hempty
      have hsum := hN.reaches
      rw [Finset.not_nonempty_iff_eq_empty.mp hempty, Finset.sum_empty] at hsum
      exact absurd hsum (not_le.mpr hmass)
    obtain ⟨i, hi, hmin⟩ := Finset.exists_min_image _ p hne
    have hins := hN.insert_above hinj hi hmin
    refine ⟨nucleus p left mass, hN.toIsTop, ?_⟩
    have hcut : i ∈ cutoff p left mass := heq ▸ hi
    obtain ⟨-, hnone | hle⟩ := mem_cutoff.mp hcut
    · rw [hnone] at hins
      exact .inr ⟨by rw [← hins]; rfl, hN.reaches⟩
    · refine .inl (le_antisymm ?_ hN.reaches)
      have hnot : i ∉ above p left i := fun h => lt_irrefl _ (mem_above.mp h).2
      rw [← hins, Finset.sum_insert hnot, add_comm]
      exact hle
  · rintro ⟨s, hs, hcase⟩
    apply (cutoff_subset hp hmass).antisymm
    intro i hi
    have hleft := (mem_nucleus.mp hi).1
    have habove := above_subset_nucleus hnn hi
    have hnot : i ∉ above p left i := fun h => lt_irrefl _ (mem_above.mp h).2
    rcases hcase with hsum | ⟨hone, hreach'⟩
    · have hsub := hN.least s hs hsum.ge
      have hins : insert i (above p left i) ⊆ s :=
        Finset.insert_subset (hsub hi) (habove.trans hsub)
      have hle := Finset.sum_le_sum_of_subset_of_nonneg hins fun k hk _ => hnn k (hs.subset hk)
      rw [Finset.sum_insert hnot, add_comm, hsum] at hle
      exact mem_cutoff.mpr ⟨hleft, .inr hle⟩
    · obtain ⟨a, rfl⟩ := Finset.card_eq_one.mp hone
      have hsub := hN.least {a} hs hreach'
      refine mem_cutoff.mpr ⟨hleft, .inl (Finset.eq_empty_iff_forall_notMem.mpr fun k hk => ?_)⟩
      have hka := Finset.mem_singleton.mp (hsub (habove hk))
      have hia := Finset.mem_singleton.mp (hsub hi)
      rw [hka, ← hia] at hk
      exact hnot hk

omit [IsStrictOrderedRing K] in
theorem cutoff_nonempty (hne : left.Nonempty) : (cutoff p left mass).Nonempty := by
  obtain ⟨i, hi, hmax⟩ := Finset.exists_max_image left p hne
  refine ⟨i, mem_cutoff.mpr ⟨hi, .inl (Finset.eq_empty_iff_forall_notMem.mpr fun k hk => ?_)⟩⟩
  obtain ⟨hmem, hlt⟩ := mem_above.mp hk
  exact absurd (hmax k hmem) (not_le.mpr hlt)

variable [DecidableEq ι]

/-- Renormalising over a set of positive indices determines the set. -/
theorem renormalised_inj (hp : ∀ k ∈ left, 0 < p k) (hs : s ⊆ left) (ht : t ⊆ left)
    (h : ∀ i, renormalised p s i = renormalised p t i) : s = t := by
  have hmem : ∀ {u : Finset ι}, u ⊆ left → ∀ i, i ∈ u ↔ renormalised p u i ≠ 0 := by
    intro u hu i
    unfold renormalised
    by_cases hi : i ∈ u
    · have hpos : 0 < ∑ j ∈ u, p j := Finset.sum_pos (fun k hk => hp k (hu hk)) ⟨i, hi⟩
      rw [if_pos hi]
      exact ⟨fun _ => (div_pos (hp i (hu hi)) hpos).ne', fun _ => hi⟩
    · rw [if_neg hi]
      exact ⟨fun h => absurd h hi, fun h => absurd rfl h⟩
  ext i
  rw [hmem hs, hmem ht, h]

end

section
variable [DecidableEq κ] {p : κ → K} {f : ι → κ} {s t : Finset ι} {mass : K} {i : ι}

omit [Field K] in
theorem image_above (i : ι) : (above (p ∘ f) s i).image f = above p (s.image f) (f i) := by
  ext k
  simp only [Finset.mem_image, mem_above, Function.comp_apply]
  constructor
  · rintro ⟨j, ⟨hj, hlt⟩, rfl⟩
    exact ⟨⟨j, hj, rfl⟩, hlt⟩
  · rintro ⟨⟨j, hj, rfl⟩, hlt⟩
    exact ⟨j, ⟨hj, hlt⟩, rfl⟩

theorem sum_image_above (hf : Set.InjOn f s) (i : ι) :
    ∑ k ∈ above p (s.image f) (f i), p k = ∑ j ∈ above (p ∘ f) s i, p (f j) := by
  rw [← image_above, Finset.sum_image]
  intro j hj k hk
  exact hf (mem_above.mp hj).1 (mem_above.mp hk).1

theorem image_cutoff (hf : Set.InjOn f s) :
    (cutoff (p ∘ f) s mass).image f = cutoff p (s.image f) mass := by
  have hiff : ∀ j, above (p ∘ f) s j = ∅ ↔ above p (s.image f) (f j) = ∅ := by
    intro j
    rw [← image_above, Finset.image_eq_empty]
  ext k
  rw [Finset.mem_image, mem_cutoff]
  constructor
  · rintro ⟨j, hj, rfl⟩
    obtain ⟨hmem, hcut⟩ := mem_cutoff.mp hj
    rw [sum_image_above hf, ← hiff]
    exact ⟨Finset.mem_image_of_mem f hmem, hcut⟩
  · rintro ⟨hk, hcut⟩
    obtain ⟨j, hj, rfl⟩ := Finset.mem_image.mp hk
    rw [sum_image_above hf, ← hiff] at hcut
    exact ⟨j, mem_cutoff.mpr ⟨hj, hcut⟩, rfl⟩

omit [LinearOrder K] in
theorem renormalised_image [DecidableEq ι] (hf : Set.InjOn f t) (hs : s ⊆ t) (hi : i ∈ t) :
    renormalised p (s.image f) (f i) = renormalised (p ∘ f) s i := by
  have hsum : ∑ k ∈ s.image f, p k = ∑ j ∈ s, (p ∘ f) j :=
    Finset.sum_image fun j hj k hk => hf (hs hj) (hs hk)
  have hmem : f i ∈ s.image f ↔ i ∈ s := by
    constructor
    · intro h
      obtain ⟨j, hj, heq⟩ := Finset.mem_image.mp h
      exact hf (hs hj) hi heq ▸ hj
    · exact Finset.mem_image_of_mem f
  unfold renormalised
  rw [hsum]
  by_cases hmem' : i ∈ s
  · rw [if_pos hmem', if_pos (hmem.mpr hmem')]
    rfl
  · rw [if_neg hmem', if_neg fun h => hmem' (hmem.mp h)]

omit [DecidableEq κ] in
theorem cutoff_congr {q : κ → K} {left : Finset κ} (h : ∀ k ∈ left, p k = q k) :
    cutoff p left mass = cutoff q left mass := by
  have habove : ∀ k ∈ left, above p left k = above q left k := by
    intro k hk
    apply Finset.filter_congr
    intro j hj
    rw [h k hk, h j hj]
  ext k
  rw [mem_cutoff, mem_cutoff]
  refine and_congr_right fun hk => ?_
  rw [habove k hk, h k hk, Finset.sum_congr rfl fun j hj => h j (mem_above.mp hj).1]

end
end PyptoServing.Lib.Nucleus
