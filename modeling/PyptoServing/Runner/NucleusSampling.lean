import Mathlib.Analysis.Complex.ExponentialBounds
import PyptoServing.Runner.ExactSampling

/-!
# Top-p sampling and the nucleus

What `sample` and `sample_from_candidates` draw from a finite row in exact arithmetic. The
cut drops the index that crosses the mass, so it is the nucleus only when the mass is met.
-/
namespace PyptoServing.Runner

open Lib Lib.Nucleus Sched

variable {K : Type*} [Field K] [LinearOrder K]

/-- The width that `sample_from_candidates` reads of a row. -/
def candidateWidth (params : SamplingParams) (width : Nat) : Nat :=
  match params.topK with
  | some k => if 0 < k then min width k.toNat else width
  | none => width

/-- A finite row of pairwise distinct logits and the indices that top-k leaves of it: of a
candidate row the first ones, in the order of the executor. -/
inductive Source.Finite (params : SamplingParams) :
    Source (WithBot K) → List K → Finset Nat → Prop
  | logits (device : String) {values : List K} (hne : values ≠ []) (hdistinct : values.Nodup) :
    Finite params (.logits ⟨device, values.map (↑)⟩) values (leftByTopk params values)
  | candidates {c : SamplingCandidates (WithBot K)} {rowIdx : Nat} {values : List K}
    {tokenIds : List Int} (hrows : c.values.length = c.tokenIds.length)
    (hvalues : c.values[rowIdx]? = some (values.map (↑)))
    (hids : c.tokenIds[rowIdx]? = some tokenIds) (hlen : values.length = tokenIds.length)
    (hne : values ≠ []) (hdistinct : values.Nodup) :
    Finite params (.candidates c rowIdx) values
      (Finset.range (candidateWidth params values.length))

/-- The sampler draws from the nucleus, with renormalised probabilities. -/
def Source.DrawsNucleus (ops : TensorOps (WithBot K)) (weight : K → K) (params : SamplingParams)
    (source : Source (WithBot K)) (values : List K) (left : Finset Nat) : Prop :=
  ∃ s device probs, IsNucleus (probability weight params values left) left params.topP s ∧
    source.draw ops params = some (device, probs) ∧
    ∀ i, probs.getD i 0 = (renormalised (probability weight params values left) s i : K)

section
variable {params : SamplingParams} {values : List K} {left : Finset Nat} {i j : Nat}

omit [LinearOrder K] in
theorem getD_injective (hdistinct : values.Nodup) (hi : i < values.length)
    (hj : j < values.length) (h : values.getD i 0 = values.getD j 0) : i = j := by
  rw [List.getD_eq_getElem _ _ hi, List.getD_eq_getElem _ _ hj] at h
  exact (hdistinct.getElem_inj_iff).mp h

theorem mem_leftByTopk : i ∈ leftByTopk params values ↔ i < values.length ∧
    ∀ k, params.topK = some k → 0 < k → ((Finset.range values.length).filter fun j =>
      values.getD i 0 < values.getD j 0).card < k.toNat := by
  unfold leftByTopk
  cases params.topK with
  | none => simp
  | some k =>
    by_cases hk : 0 < k
    · simp [hk]
    · simp [hk]

theorem leftByTopk_lt (hi : i ∈ leftByTopk params values) : i < values.length :=
  (mem_leftByTopk.mp hi).1

theorem leftByTopk_nonempty (hne : values ≠ []) : (leftByTopk params values).Nonempty := by
  have hpos := List.length_pos_iff.mpr hne
  obtain ⟨i, hi, hmax⟩ := Finset.exists_max_image (Finset.range values.length)
    (fun i => values.getD i 0) ⟨0, Finset.mem_range.mpr hpos⟩
  refine ⟨i, mem_leftByTopk.mpr ⟨Finset.mem_range.mp hi, fun k _ hk => ?_⟩⟩
  have hnone : ((Finset.range values.length).filter fun j =>
      values.getD i 0 < values.getD j 0) = ∅ := by
    apply Finset.filter_eq_empty_iff.mpr
    exact fun j hj => not_lt.mpr (hmax j hj)
  rw [hnone, Finset.card_empty]
  omega

theorem candidateWidth_le (width : Nat) : candidateWidth params width ≤ width := by
  unfold candidateWidth
  split
  · split
    · exact Nat.min_le_left ..
    · exact le_rfl
  · exact le_rfl

theorem candidateWidth_pos {width : Nat} (h : 0 < width) : 0 < candidateWidth params width := by
  unfold candidateWidth
  split
  · split
    · omega
    · exact h
  · exact h

theorem Source.Finite.spec {source : Source (WithBot K)} (h : source.Finite params values left) :
    (∀ i ∈ left, i < values.length) ∧ left.Nonempty ∧
      Set.InjOn (fun i => values.getD i 0) left := by
  have hinj : values.Nodup → (∀ i ∈ left, i < values.length) →
      Set.InjOn (fun i => values.getD i 0) left := fun hdistinct hlt i hi j hj heq =>
    getD_injective hdistinct (hlt i hi) (hlt j hj) heq
  cases h with
  | logits device hne hdistinct =>
    have hlt : ∀ i ∈ leftByTopk params values, i < values.length := fun i => leftByTopk_lt
    exact ⟨hlt, leftByTopk_nonempty hne, hinj hdistinct hlt⟩
  | candidates hrows hvalues hids hlen hne hdistinct =>
    have hlt : ∀ i ∈ Finset.range (candidateWidth params values.length), i < values.length :=
      fun i hi => (Finset.mem_range.mp hi).trans_le (candidateWidth_le _)
    have hpos : 0 < candidateWidth params values.length := candidateWidth_pos (List.length_pos_iff.mpr hne)
    exact ⟨hlt, ⟨0, Finset.mem_range.mpr hpos⟩, hinj hdistinct hlt⟩

theorem sanitize_finite : Exact.sanitizeLogits (values.map ((↑) : K → WithBot K)) =
    values.map (↑) := by
  unfold Exact.sanitizeLogits
  apply if_pos
  rw [List.all_eq_true]
  intro x hx
  obtain ⟨y, -, rfl⟩ := List.mem_map.mp hx
  simp

omit [LinearOrder K] in
theorem map_eq_range (f : K → WithBot K) :
    values.map f = (List.range values.length).map fun i => f (values.getD i 0) := by
  apply List.ext_getElem
  · rw [List.length_map, List.length_map, List.length_range]
  · intro i hi _
    have hlt : i < values.length := by rwa [List.length_map] at hi
    rw [List.getElem_map, List.getElem_map, List.getElem_range, List.getD_eq_getElem _ _ hlt]

variable {weight : K → K} {draw : Generator (WithBot K) → List (WithBot K) → Nat}

theorem scale_eq (values : List K) : (exactOps weight draw).scale (values.map (↑)) params.temperature =
    (List.range values.length).map fun i =>
      ((values.getD i 0 / Exact.temperature params.temperature : K) : WithBot K) := by
  show (values.map ((↑) : K → WithBot K)).map _ = _
  rw [List.map_map]
  exact map_eq_range _

omit [Field K] in
/-- The kept logits are those that few logits exceed. -/
theorem keepTopk_eq {g : Nat → K} {n : Nat} (k : Nat)
    (hinj : ∀ i < n, ∀ j < n, g j = g i → j = i) :
    Exact.keepTopk ((List.range n).map fun i => (g i : WithBot K)) k =
      (List.range n).map fun i =>
        if ((Finset.range n).filter fun j => g i < g j).card < k then (g i : WithBot K) else ⊥ := by
  have hget : ∀ i < n, ((List.range n).map fun i => (g i : WithBot K)).getD i ⊥ = g i := by
    intro i hi
    rw [List.getD_eq_getElem?_getD, List.getElem?_map, List.getElem?_range hi]
    rfl
  unfold Exact.keepTopk
  dsimp only
  rw [List.length_map, List.length_range]
  apply List.map_congr_left
  intro i hi
  have hi' := List.mem_range.mp hi
  have hne : ∀ j < n, j ≠ i → ((List.range n).map fun i => (g i : WithBot K)).getD j ⊥ ≠
      ((List.range n).map fun i => (g i : WithBot K)).getD i ⊥ := by
    intro j hj hji heq
    rw [hget i hi', hget j hj, WithBot.coe_inj] at heq
    exact hji (hinj i hi' j hj heq)
  have hmem := mem_take_descending k hi' hne
  have hcard : ((Finset.range n).filter fun j =>
      ((List.range n).map fun i => (g i : WithBot K)).getD i ⊥ <
      ((List.range n).map fun i => (g i : WithBot K)).getD j ⊥) =
      (Finset.range n).filter fun j => g i < g j := by
    apply Finset.filter_congr
    intro j hj
    rw [hget i hi', hget j (Finset.mem_range.mp hj), WithBot.coe_lt_coe]
  rw [hcard] at hmem
  rw [hget i hi', Int.toNat_natCast]
  by_cases hkeep : ((Finset.range n).filter fun j => g i < g j).card < k
  · rw [if_pos hkeep, if_pos (hmem.mpr hkeep)]
  · rw [if_neg hkeep, if_neg fun h => hkeep (hmem.mp h)]

variable [IsStrictOrderedRing K]

theorem scaledLogits_eq (hdistinct : values.Nodup) :
    (exactOps weight draw).scaledLogits params (values.map (↑)) =
      (List.range values.length).map fun i => if i ∈ leftByTopk params values then
        ((values.getD i 0 / Exact.temperature params.temperature : K) : WithBot K) else ⊥ := by
  have hT := temperature_pos (K := K) params.temperature
  have hall : (∀ i < values.length, i ∈ leftByTopk params values) →
      (exactOps weight draw).scale (values.map (↑)) params.temperature =
      (List.range values.length).map fun i => if i ∈ leftByTopk params values then
        ((values.getD i 0 / Exact.temperature params.temperature : K) : WithBot K) else ⊥ := by
    intro hleft
    rw [scale_eq]
    apply List.map_congr_left
    intro i hi
    rw [if_pos (hleft i (List.mem_range.mp hi))]
  have hlen : ((exactOps weight draw).scale (values.map (↑)) params.temperature).length =
      values.length := by rw [scale_eq, List.length_map, List.length_range]
  unfold TensorOps.scaledLogits
  cases htopK : params.topK with
  | none => exact hall fun i hi => mem_leftByTopk.mpr ⟨hi, fun k hk => nomatch htopK ▸ hk⟩
  | some k =>
    dsimp only
    rw [hlen]
    by_cases hcut : 0 < k ∧ k < values.length
    · rw [if_pos hcut, scale_eq]
      obtain ⟨m, rfl⟩ := Int.eq_ofNat_of_zero_le hcut.1.le
      have hinj : ∀ i < values.length, ∀ j < values.length,
          values.getD j 0 / (Exact.temperature params.temperature : K) =
            values.getD i 0 / Exact.temperature params.temperature → j = i :=
        fun i hi j hj heq => getD_injective hdistinct hj hi ((div_left_inj' hT.ne').mp heq)
      refine (keepTopk_eq m hinj).trans ?_
      apply List.map_congr_left
      intro i hi
      have hdiv : ((Finset.range values.length).filter fun j =>
          values.getD i 0 / (Exact.temperature params.temperature : K) <
            values.getD j 0 / Exact.temperature params.temperature) =
          (Finset.range values.length).filter fun j => values.getD i 0 < values.getD j 0 :=
        Finset.filter_congr fun j _ => div_lt_div_iff_of_pos_right hT
      rw [hdiv]
      have hiff : i ∈ leftByTopk params values ↔ ((Finset.range values.length).filter fun j =>
          values.getD i 0 < values.getD j 0).card < m := by
        rw [mem_leftByTopk]
        constructor
        · exact fun h => by simpa using h.2 m htopK hcut.1
        · intro h
          refine ⟨List.mem_range.mp hi, fun k hk _ => ?_⟩
          obtain rfl := Option.some.inj (htopK.symm.trans hk)
          simpa using h
      by_cases hkeep : ((Finset.range values.length).filter fun j =>
          values.getD i 0 < values.getD j 0).card < m
      · rw [if_pos hkeep, if_pos (hiff.mpr hkeep)]
      · rw [if_neg hkeep, if_neg fun h => hkeep (hiff.mp h)]
    · rw [if_neg hcut]
      apply hall
      intro i hi
      refine mem_leftByTopk.mpr ⟨hi, fun k' hk' hpos => ?_⟩
      obtain rfl := Option.some.inj (htopK.symm.trans hk')
      have hsub : ((Finset.range values.length).filter fun j =>
          values.getD i 0 < values.getD j 0) ⊂ Finset.range values.length :=
        Finset.filter_ssubset.mpr ⟨i, Finset.mem_range.mpr hi, lt_irrefl _⟩
      have hcard := Finset.card_lt_card hsub
      rw [Finset.card_range] at hcard
      omega

omit [IsStrictOrderedRing K] in
theorem cutProbability_congr {values' : List K}
    (h : ∀ i ∈ left, values.getD i 0 = values'.getD i 0) :
    cutProbability weight params values left = cutProbability weight params values' left := by
  have hp : probability weight params values left = probability weight params values' left := by
    apply renormalised_congr
    intro i hi
    rw [h i hi]
  unfold cutProbability
  rw [hp]

omit [IsStrictOrderedRing K] in
/-- The candidates that are read of a finite row. -/
theorem row_eq {c : SamplingCandidates (WithBot K)} {rowIdx : Nat} {tokenIds : List Int}
    (hrows : c.values.length = c.tokenIds.length)
    (hvalues : c.values[rowIdx]? = some (values.map (↑)))
    (hids : c.tokenIds[rowIdx]? = some tokenIds) (hlen : values.length = tokenIds.length)
    (hne : values ≠ []) : c.row (exactOps weight draw) rowIdx params =
      .ok ((values.take (candidateWidth params values.length)).map (↑),
        tokenIds.take (candidateWidth params values.length)) := by
  have hne' : tokenIds ≠ [] := by
    rintro rfl
    exact hne (List.length_eq_zero_iff.mp hlen)
  unfold SamplingCandidates.row
  simp only [hrows, ne_eq, not_true_eq_false, if_false, hvalues, hids]
  rw [if_neg (by simp [hne, hne']), if_neg (by simp [hlen]), List.length_map]
  have hsan : (exactOps weight draw).sanitize
      ((values.take (candidateWidth params values.length)).map (↑)) =
      (values.take (candidateWidth params values.length)).map (↑) := sanitize_finite
  rw [← hsan, List.map_take]
  rfl

/-- What a finite row is drawn from. -/
theorem Source.Finite.draw_eq {source : Source (WithBot K)} (hpos : ∀ x, 0 < weight x)
    (hmono : StrictMono weight) (htemp : 0 < params.temperature)
    (h : source.Finite params values left) :
    ∃ device n, (∀ i ∈ left, i < n) ∧ source.draw (exactOps weight draw) params =
      some (device, ((List.range n).map (cutProbability weight params values left)).map (↑)) := by
  obtain ⟨hlt, hnonempty, hinj⟩ := h.spec
  cases h with
  | logits device hne hdistinct =>
    refine ⟨device, values.length, hlt, ?_⟩
    have hsan : (exactOps weight draw).sanitize (values.map (↑)) = values.map (↑) := sanitize_finite
    unfold Source.draw
    dsimp only
    rw [if_neg (not_le.mpr htemp), hsan, scaledLogits_eq hdistinct,
      distribution_eq hpos hmono hlt hnonempty hinj]
    rfl
  | @candidates c rowIdx _ tokenIds hrows hvalues hids hlen hne hdistinct =>
    have hwidth : candidateWidth params values.length ≤ values.length := candidateWidth_le _
    have htake : (values.take (candidateWidth params values.length)).length =
        candidateWidth params values.length := by
      rw [List.length_take]
      exact Nat.min_eq_left hwidth
    have hget : ∀ i ∈ Finset.range (candidateWidth params values.length),
        (values.take (candidateWidth params values.length)).getD i 0 = values.getD i 0 := by
      intro i hi
      rw [List.getD_eq_getElem?_getD, List.getD_eq_getElem?_getD,
        List.getElem?_take_of_lt (Finset.mem_range.mp hi)]
    have hrow : c.row (exactOps weight draw) rowIdx params =
        .ok ((values.take (candidateWidth params values.length)).map (↑),
          tokenIds.take (candidateWidth params values.length)) :=
      row_eq hrows hvalues hids hlen hne
    have hscale : (exactOps weight draw).scale
        ((values.take (candidateWidth params values.length)).map (↑)) params.temperature =
        (List.range (candidateWidth params values.length)).map fun i =>
          if i ∈ Finset.range (candidateWidth params values.length) then
            (((values.take (candidateWidth params values.length)).getD i 0 /
              Exact.temperature params.temperature : K) : WithBot K) else ⊥ := by
      rw [scale_eq, htake]
      apply List.map_congr_left
      intro i hi
      rw [if_pos (Finset.mem_range.mpr (List.mem_range.mp hi))]
    have hinj' : Set.InjOn
        (fun i => (values.take (candidateWidth params values.length)).getD i 0)
        (Finset.range (candidateWidth params values.length)) := by
      intro i hi j hj heq
      dsimp only at heq
      rw [hget i hi, hget j hj] at heq
      exact hinj hi hj heq
    refine ⟨c.device, candidateWidth params values.length, fun i => Finset.mem_range.mp, ?_⟩
    unfold Source.draw
    dsimp only
    rw [hrow]
    dsimp only
    rw [if_neg (not_le.mpr htemp), hscale, distribution_eq hpos hmono
      (fun i => Finset.mem_range.mp) hnonempty hinj', cutProbability_congr hget]
    rfl

omit [LinearOrder K] [IsStrictOrderedRing K] in
theorem getD_map_range {q : Nat → K} {n : Nat} (hq : ∀ i, n ≤ i → q i = 0) (i : Nat) :
    (((List.range n).map q).map ((↑) : K → WithBot K)).getD i 0 = q i := by
  have hrow := congrFun (getD_range_map hq) i
  rw [← hrow, List.getD_eq_getElem?_getD, List.getD_eq_getElem?_getD, List.getElem?_map]
  cases ((List.range n).map q)[i]? <;> rfl

/-- The sampler draws from the nucleus when its cut is the nucleus. -/
theorem drawsNucleus_iff_cutoff {source : Source (WithBot K)} (hpos : ∀ x, 0 < weight x)
    (hmono : StrictMono weight) (htemp : 0 < params.temperature) (htop : 0 < params.topP)
    (htop1 : params.topP < 1) (h : source.Finite params values left) :
    source.DrawsNucleus (exactOps weight draw) weight params values left ↔
      cutoff (probability weight params values left) left (params.topP : K) =
        nucleus (probability weight params values left) left (params.topP : K) := by
  obtain ⟨hlt, hnonempty, hinj⟩ := h.spec
  obtain ⟨hspread, hone⟩ := probability_spread hpos hmono hlt hnonempty hinj
  obtain ⟨device, n, hn, hdraw⟩ := h.draw_eq hpos hmono htemp
  have hcut : cutoff (probability weight params values left) left (params.topP : K) ⊆ left :=
    Finset.filter_subset _ _
  have hprob : cutProbability weight params values left =
      renormalised (probability weight params values left)
        (cutoff (probability weight params values left) left params.topP) :=
    if_pos ⟨htop, htop1⟩
  have hrow := getD_map_range (q := cutProbability weight params values left) (n := n)
    fun i hi => by
      rw [hprob]
      exact renormalised_of_notMem fun hmem => absurd (hn i (hcut hmem)) (not_lt.mpr hi)
  have hreach : (params.topP : K) ≤ ∑ i ∈ left, probability weight params values left i := by
    rw [hone]
    exact_mod_cast htop1.le
  have hN := nucleus_isNucleus (fun i hi => (hspread.pos i hi).le) hreach
  constructor
  · rintro ⟨s, device', probs, hs, hdraw', hprobs⟩
    obtain rfl := (Prod.mk.inj (Option.some.inj (hdraw.symm.trans hdraw'))).2
    rw [← hs.unique hN]
    refine renormalised_inj hspread.pos hcut hs.subset fun i => ?_
    have hi := (hrow i).symm.trans (hprobs i)
    rw [hprob] at hi
    exact WithBot.coe_inj.mp hi
  · intro heq
    refine ⟨_, device, _, hN, hdraw, fun i => ?_⟩
    rw [hrow i, hprob, heq]

/-- Top-p sampling draws from the nucleus exactly when some set of most probable tokens has
the mass exactly, or the most probable token alone reaches it. -/
theorem draws_nucleus_iff {source : Source (WithBot K)} (hpos : ∀ x, 0 < weight x)
    (hmono : StrictMono weight) (htemp : 0 < params.temperature) (htop : 0 < params.topP)
    (htop1 : params.topP < 1) (h : source.Finite params values left) :
    source.DrawsNucleus (exactOps weight draw) weight params values left ↔
      Meets (probability weight params values left) left (params.topP : K) := by
  obtain ⟨hlt, hnonempty, hinj⟩ := h.spec
  obtain ⟨hspread, hone⟩ := probability_spread hpos hmono hlt hnonempty hinj
  have hreach : (params.topP : K) ≤ ∑ i ∈ left, probability weight params values left i := by
    rw [hone]
    exact_mod_cast htop1.le
  have htop' : (0 : K) < params.topP := Rat.cast_pos.mpr htop
  exact (drawsNucleus_iff_cutoff hpos hmono htemp htop htop1 h).trans
    (cutoff_eq_nucleus_iff hspread.pos hspread.inj htop' hreach)

end

/-- Two logits of which the first has the probability `e / (e + 1)`. -/
def pairParams (topP : Rat) : SamplingParams where
  temperature := 1
  topP := topP

theorem pair_finite (topP : Rat) : Source.Finite (pairParams topP)
    (.logits ⟨"cpu", [1, 0].map ((↑) : ℝ → WithBot ℝ)⟩) [1, 0] (Finset.range 2) :=
  .logits "cpu" (by simp) (by simp)

theorem pair_probability (topP : Rat) :
    probability Real.exp (pairParams topP) [1, 0] (Finset.range 2) 0 =
      Real.exp 1 / (Real.exp 1 + 1) ∧
    probability Real.exp (pairParams topP) [1, 0] (Finset.range 2) 1 = 1 / (Real.exp 1 + 1) := by
  have htemp : (Exact.temperature (pairParams topP).temperature : ℝ) = 1 := by
    norm_num [Exact.temperature, pairParams]
  constructor <;> simp [probability, renormalised, htemp, Finset.sum_range_succ]

theorem pair_above (topP : Rat) :
    above (probability Real.exp (pairParams topP) [1, 0] (Finset.range 2)) (Finset.range 2) 1 =
      {0} := by
  obtain ⟨h0, h1⟩ := pair_probability topP
  have hexp : (1 : ℝ) < Real.exp 1 := Real.one_lt_exp_iff.mpr one_pos
  have hlt : (1 : ℝ) / (Real.exp 1 + 1) < Real.exp 1 / (Real.exp 1 + 1) := by gcongr
  ext i
  rw [mem_above, Finset.mem_range, Finset.mem_singleton]
  constructor
  · rintro ⟨hi, hlt'⟩
    by_contra hne
    obtain rfl : i = 1 := by omega
    exact absurd hlt' (lt_irrefl _)
  · rintro rfl
    exact ⟨by decide, by rw [h0, h1]; exact hlt⟩

/-- Three logits whose probabilities are a half, a third and a sixth. -/
noncomputable def gradedValues : List ℝ := [3, 2, 1].map fun n : Nat => Real.log n

theorem graded_finite (topP : Rat) : Source.Finite (pairParams topP)
    (.logits ⟨"cpu", gradedValues.map ((↑) : ℝ → WithBot ℝ)⟩) gradedValues (Finset.range 3) := by
  have hlt : Real.log 2 < Real.log 3 := Real.log_lt_log (by norm_num) (by norm_num)
  have hpos : 0 < Real.log 2 := Real.log_pos (by norm_num)
  refine .logits "cpu" (List.cons_ne_nil _ _) ?_
  simp [gradedValues, hlt.ne', hpos.ne', (hpos.trans hlt).ne']

theorem graded_probability (topP : Rat) :
    probability Real.exp (pairParams topP) gradedValues (Finset.range 3) 0 = 1 / 2 ∧
    probability Real.exp (pairParams topP) gradedValues (Finset.range 3) 1 = 1 / 3 ∧
    probability Real.exp (pairParams topP) gradedValues (Finset.range 3) 2 = 1 / 6 := by
  have htemp : (Exact.temperature (pairParams topP).temperature : ℝ) = 1 := by
    norm_num [Exact.temperature, pairParams]
  have h3 : Real.exp (Real.log 3) = 3 := Real.exp_log (by norm_num)
  have h2 : Real.exp (Real.log 2) = 2 := Real.exp_log (by norm_num)
  refine ⟨?_, ?_, ?_⟩ <;>
    norm_num [probability, renormalised, htemp, Finset.sum_range_succ, gradedValues, h3, h2]

/-- With a mass of five sixths the nucleus has the first two tokens, and both are drawn. -/
theorem draws_nucleus_iff_graded :
    IsNucleus (probability Real.exp (pairParams (5 / 6)) gradedValues (Finset.range 3))
      (Finset.range 3) (5 / 6) {0, 1} ∧
    Source.DrawsNucleus (exactOps Real.exp fun _ _ => 0) Real.exp (pairParams (5 / 6))
      (.logits ⟨"cpu", gradedValues.map ((↑) : ℝ → WithBot ℝ)⟩) gradedValues (Finset.range 3) := by
  obtain ⟨h0, h1, h2⟩ := graded_probability (5 / 6)
  generalize hp : probability Real.exp (pairParams (5 / 6)) gradedValues (Finset.range 3) = p at *
  have htop : IsTop p (Finset.range 3) {0, 1} := by
    refine ⟨by decide, fun i hi j hj hout => ?_⟩
    obtain rfl : j = 2 := by
      rw [Finset.mem_range] at hj
      rw [Finset.mem_insert, Finset.mem_singleton, not_or] at hout
      omega
    rcases Finset.mem_insert.mp hi with rfl | hi
    · rw [h0, h2]
      norm_num
    · rw [Finset.mem_singleton.mp hi, h1, h2]
      norm_num
  have hmass : ∑ i ∈ {0, 1}, p i = 5 / 6 := by
    rw [Finset.sum_pair (by decide), h0, h1]
    norm_num
  refine ⟨htop.isNucleus (fun i hi => ?_) hmass, ?_⟩
  · have hlt : i < 3 := Finset.mem_range.mp hi
    interval_cases i
    · rw [h0]
      norm_num
    · rw [h1]
      norm_num
    · rw [h2]
      norm_num
  · subst hp
    refine (draws_nucleus_iff Real.exp_pos Real.exp_strictMono (by decide) (by norm_num [pairParams])
      (by norm_num [pairParams]) (graded_finite _)).mpr ⟨{0, 1}, htop, .inl ?_⟩
    rw [hmass]
    norm_num [pairParams]

/-- With a mass of four fifths the nucleus has both tokens, and only the first is drawn. -/
theorem top_p_narrower : ¬ ∀ (params : SamplingParams) (source : Source (WithBot ℝ))
    (values : List ℝ) (left : Finset Nat), 0 < params.temperature → 0 < params.topP →
    params.topP < 1 → source.Finite params values left →
    source.DrawsNucleus (exactOps Real.exp fun _ _ => 0) Real.exp params values left := by
  intro hall
  have hdraw := hall (pairParams (4 / 5)) _ _ _ (by decide) (by norm_num [pairParams])
    (by norm_num [pairParams]) (pair_finite _)
  have heq := (drawsNucleus_iff_cutoff Real.exp_pos Real.exp_strictMono (by decide)
    (by norm_num [pairParams]) (by norm_num [pairParams]) (pair_finite _)).mp hdraw
  obtain ⟨h0, h1⟩ := pair_probability (4 / 5)
  have hexp : Real.exp 1 < 4 := Real.exp_one_lt_d9.trans (by norm_num)
  have hpos := Real.exp_pos 1
  have hnucleus : 1 ∈ nucleus (probability Real.exp (pairParams (4 / 5)) [1, 0] (Finset.range 2))
      (Finset.range 2) ((pairParams (4 / 5)).topP : ℝ) := by
    rw [mem_nucleus, pair_above, Finset.sum_singleton, h0]
    refine ⟨by decide, ?_⟩
    rw [div_lt_iff₀ (by linarith)]
    norm_num [pairParams]
    linarith
  rw [← heq, mem_cutoff, pair_above, Finset.sum_singleton, h0, h1] at hnucleus
  obtain ⟨-, hnone | hle⟩ := hnucleus
  · exact absurd hnone (Finset.singleton_ne_empty 0)
  · rw [← add_div, div_self (by linarith)] at hle
    norm_num [pairParams] at hle

end PyptoServing.Runner
