import Mathlib.Algebra.Order.Field.Rat
import Mathlib.Data.List.GetD
import Mathlib.Data.Rat.Cast.Order
import PyptoServing.Lib.Nucleus
import PyptoServing.Runner.Sampling

/-!
# Sampling in exact arithmetic

The tensor operations of the sampler over an ordered field, with any positive increasing
softmax weight; a filtered logit is minus infinity. A row of distinct logits is drawn from
the renormalised cut of its top-k probabilities.
-/
namespace PyptoServing.Runner

open Lib Lib.Nucleus Sched

variable {K : Type*} [Field K] [LinearOrder K]

/-- `torch.sort(values, descending=True)`: the indices. -/
def descending {α : Type*} [LinearOrder α] (values : Nat → α) (n : Nat) : List Nat :=
  (List.range n).mergeSort fun i j => decide (values j ≤ values i)

/-- `torch.cumsum`, after a given sum. -/
def cumsum (acc : K) : List K → List K
  | [] => []
  | x :: xs => (acc + x) :: cumsum (acc + x) xs

namespace Exact

/-- `max(temperature, 1e-5)`. -/
def temperature (t : Rat) : K := ((max t (1 / 100000) : Rat) : K)

/-- `_sanitize_logits`; no logit is infinite or a NaN otherwise. -/
def sanitizeLogits (row : List (WithBot K)) : List (WithBot K) :=
  if row.all (· ≠ ⊥) then row
  else
    match (row.filter (· ≠ ⊥)).min? with
    | none => row.map fun _ => 0
    | some least => row.map fun x => if x = ⊥ then least.map (· - 10000) else x

/-- `filtered[topk_indices] = topk_values`, where the row was minus infinity. -/
def keepTopk (row : List (WithBot K)) (k : Int) : List (WithBot K) :=
  let topk := (descending (row.getD · ⊥) row.length).take k.toNat
  (List.range row.length).map fun i => if i ∈ topk then row.getD i ⊥ else ⊥

/-- `torch.softmax`. -/
def softmax (weight : K → K) (row : List (WithBot K)) : List K :=
  let weights := row.map fun x => (x.map weight).unbotD 0
  weights.map (· / weights.sum)

/-- `keep = cumulative <= top_p; keep[0] = True`. -/
def keepMask (topP : K) (sortedProbs : List K) : List Bool :=
  ((cumsum 0 sortedProbs).map fun c => decide (c ≤ topP)).set 0 true

/-- `sorted_indices[keep]`. -/
def keptIndices (probs : Nat → K) (topP : K) (sortedIndices : List Nat) : List Nat :=
  ((sortedIndices.zip (keepMask topP (sortedIndices.map probs))).filter (·.2)).map (·.1)

/-- The filtered probabilities over their total. -/
def topPProbs (probs : List K) (topP : K) : Option (List K) :=
  let kept := keptIndices (probs.getD · 0) topP (descending (probs.getD · 0) probs.length)
  let filtered := (List.range probs.length).map fun i => if i ∈ kept then probs.getD i 0 else 0
  if filtered.sum ≤ 0 then none else some (filtered.map (· / filtered.sum))

/-- `_is_valid_distribution`. -/
def isValidDistribution (probs : List (WithBot K)) : Bool :=
  probs.all (fun x => decide (0 ≤ x)) && decide (0 < (probs.map (·.unbotD 0)).sum)

end Exact

/-- The sampler's operations in exact arithmetic; the draw is a parameter. -/
def exactOps (weight : K → K) (draw : Generator (WithBot K) → List (WithBot K) → Nat) :
    TensorOps (WithBot K) where
  sanitize := Exact.sanitizeLogits
  scale row t := row.map fun x => x.map (· / Exact.temperature t)
  keepTopk := Exact.keepTopk
  softmax row := (Exact.softmax weight row).map (↑)
  isValidDistribution := Exact.isValidDistribution
  nucleus probs topP := (Exact.topPProbs (probs.map (·.unbotD 0)) (topP : K)).map (·.map (↑))
  argmax row := (descending (row.getD · ⊥) row.length).headD 0
  multinomial := draw

section
variable {α : Type*} [LinearOrder α] {f : Nat → α} {n i : Nat} {l₁ l₂ : List Nat}

theorem descending_perm (f : Nat → α) (n : Nat) : (descending f n).Perm (List.range n) :=
  List.mergeSort_perm _ _

theorem mem_descending : i ∈ descending f n ↔ i < n := by
  rw [(descending_perm f n).mem_iff, List.mem_range]

theorem nodup_descending : (descending f n).Nodup :=
  (descending_perm f n).nodup_iff.mpr List.nodup_range

theorem pairwise_descending : (descending f n).Pairwise fun i j => f j ≤ f i := by
  have hsorted := @List.pairwise_mergeSort _ (fun i j => decide (f j ≤ f i))
    (fun a b c hab hbc => decide_eq_true ((of_decide_eq_true hbc).trans (of_decide_eq_true hab)))
    (fun a b => by simpa using le_total (f b) (f a)) (List.range n)
  exact hsorted.imp fun h => of_decide_eq_true h

/-- What stands before an index of its own value is what is larger. -/
theorem mem_before (h : descending f n = l₁ ++ i :: l₂) (hne : ∀ j < n, j ≠ i → f j ≠ f i)
    (j : Nat) : j ∈ l₁ ↔ j < n ∧ f i < f j := by
  have hsorted : (l₁ ++ i :: l₂).Pairwise fun i j => f j ≤ f i := h ▸ pairwise_descending
  have hnodup : (l₁ ++ i :: l₂).Nodup := h ▸ nodup_descending
  obtain ⟨-, hrest, hcross⟩ := List.pairwise_append.mp hsorted
  have hmem : j < n ↔ j ∈ l₁ ++ i :: l₂ := by rw [← h, mem_descending]
  constructor
  · intro hj
    have hlt : j < n := hmem.mpr (List.mem_append_left _ hj)
    have hji : j ≠ i := by
      rintro rfl
      exact (List.nodup_append.mp hnodup).2.2 j hj j (List.mem_cons_self ..) rfl
    exact ⟨hlt, lt_of_le_of_ne (hcross j hj i (List.mem_cons_self ..)) (hne j hlt hji).symm⟩
  · rintro ⟨hlt, hval⟩
    rcases List.mem_append.mp (hmem.mp hlt) with hj | hj
    · exact hj
    · rcases List.mem_cons.mp hj with rfl | hj
      · exact absurd hval (lt_irrefl _)
      · exact absurd ((List.pairwise_cons.mp hrest).1 j hj) (not_le.mpr hval)

/-- An index is among the first when few values are larger. -/
theorem mem_take_descending (k : Nat) (hi : i < n) (hne : ∀ j < n, j ≠ i → f j ≠ f i) :
    i ∈ (descending f n).take k ↔ ((Finset.range n).filter fun j => f i < f j).card < k := by
  obtain ⟨l₁, l₂, h⟩ := List.append_of_mem (mem_descending (f := f).mpr hi)
  have hnodup : (l₁ ++ i :: l₂).Nodup := h ▸ nodup_descending
  have hset : l₁.toFinset = (Finset.range n).filter fun j => f i < f j := by
    ext j
    rw [List.mem_toFinset, mem_before h hne, Finset.mem_filter, Finset.mem_range]
  have hcard : l₁.length = ((Finset.range n).filter fun j => f i < f j).card := by
    rw [← hset, List.toFinset_card_of_nodup (List.nodup_append.mp hnodup).1]
  have hnot : i ∉ l₁ := fun hmem => lt_irrefl _ ((mem_before h hne i).mp hmem).2
  rw [h, ← hcard, List.take_append, List.mem_append]
  constructor
  · rintro (hmem | hmem)
    · exact absurd (List.mem_of_mem_take hmem) hnot
    · by_contra hle
      rw [Nat.sub_eq_zero_of_le (not_lt.mp hle), List.take_zero] at hmem
      cases hmem
  · intro hlt
    obtain ⟨m, hm⟩ := Nat.exists_eq_succ_of_ne_zero (Nat.sub_ne_zero_of_lt hlt)
    rw [hm, List.take_succ_cons]
    exact .inr (List.mem_cons_self ..)

end

section
variable {M : Type*} [AddCommMonoid M] {p : Nat → M} {n : Nat} {left : Finset Nat}

theorem sum_range_left (hleft : ∀ i ∈ left, i < n) (hzero : ∀ i, i ∉ left → p i = 0) :
    ((List.range n).map p).sum = ∑ i ∈ left, p i := by
  have hset : (List.range n).toFinset = Finset.range n := by
    ext i
    rw [List.mem_toFinset, List.mem_range, Finset.mem_range]
  rw [← List.sum_toFinset p List.nodup_range, hset]
  symm
  apply Finset.sum_subset
  · exact fun i hi => Finset.mem_range.mpr (hleft i hi)
  · exact fun i _ hout => hzero i hout

theorem getD_range_map (hzero : ∀ i, n ≤ i → p i = 0) :
    (fun i => ((List.range n).map p).getD i 0) = p := by
  funext i
  by_cases hi : i < n
  · rw [List.getD_eq_getElem?_getD, List.getElem?_map, List.getElem?_range hi]
    rfl
  · have hlen : ((List.range n).map p).length ≤ i := by
      rw [List.length_map, List.length_range]
      exact not_lt.mp hi
    rw [List.getD_eq_default _ _ hlen, hzero i (not_lt.mp hi)]

end

section
variable {f : Nat → K} {i : Nat} {topP : K}

theorem mem_kept_from (acc : K) (l : List Nat) :
    i ∈ ((l.zip ((cumsum acc (l.map f)).map fun c => decide (c ≤ topP))).filter (·.2)).map (·.1) ↔
      ∃ l₁ l₂, l = l₁ ++ i :: l₂ ∧ acc + (l₁.map f).sum + f i ≤ topP := by
  induction l generalizing acc with
  | nil => simp [cumsum]
  | cons x l ih =>
    have hrest := ih (acc + f x)
    simp only [List.map_cons, cumsum, List.zip_cons_cons, List.filter_cons]
    constructor
    · intro hi
      split at hi
      · next hx =>
        rcases List.mem_cons.mp hi with rfl | hi
        · exact ⟨[], l, rfl, by simpa using hx⟩
        · obtain ⟨l₁, l₂, rfl, hle⟩ := hrest.mp hi
          exact ⟨x :: l₁, l₂, rfl, by simpa [add_assoc] using hle⟩
      · obtain ⟨l₁, l₂, rfl, hle⟩ := hrest.mp hi
        exact ⟨x :: l₁, l₂, rfl, by simpa [add_assoc] using hle⟩
    · rintro ⟨l₁, l₂, heq, hle⟩
      cases l₁ with
      | nil =>
        obtain ⟨rfl, rfl⟩ := List.cons.inj heq
        have hx : acc + f x ≤ topP := by simpa using hle
        rw [if_pos (by simpa using hx)]
        exact List.mem_cons_self ..
      | cons y l₁ =>
        obtain ⟨rfl, rfl⟩ := List.cons.inj heq
        have hi := hrest.mpr ⟨l₁, l₂, rfl, by simpa [add_assoc] using hle⟩
        split
        · exact List.mem_cons_of_mem _ hi
        · exact hi

/-- The kept indices: the first one, and those up to which the sum is within the bound. -/
theorem mem_keptIndices (l : List Nat) : i ∈ Exact.keptIndices f topP l ↔
    ∃ l₁ l₂, l = l₁ ++ i :: l₂ ∧ (l₁ = [] ∨ (l₁.map f).sum + f i ≤ topP) := by
  cases l with
  | nil => simp [Exact.keptIndices]
  | cons x l =>
    have hkept : Exact.keptIndices f topP (x :: l) = x :: ((l.zip ((cumsum (0 + f x)
        (l.map f)).map fun c => decide (c ≤ topP))).filter (·.2)).map (·.1) := rfl
    rw [hkept, List.mem_cons, mem_kept_from]
    constructor
    · rintro (rfl | ⟨l₁, l₂, rfl, hle⟩)
      · exact ⟨[], l, rfl, .inl rfl⟩
      · exact ⟨x :: l₁, l₂, rfl, .inr (by simpa using hle)⟩
    · rintro ⟨l₁, l₂, heq, hle⟩
      cases l₁ with
      | nil => exact .inl (List.cons.inj heq).1.symm
      | cons y l₁ =>
        obtain ⟨rfl, rfl⟩ := List.cons.inj heq
        exact .inr ⟨l₁, l₂, rfl, by simpa using hle⟩

variable [IsStrictOrderedRing K]

/-- Probabilities that vanish outside a set of indices and differ inside it. -/
structure Spread (p : Nat → K) (n : Nat) (left : Finset Nat) : Prop where
  lt : ∀ i ∈ left, i < n
  pos : ∀ i ∈ left, 0 < p i
  zero : ∀ i, i ∉ left → p i = 0
  inj : Set.InjOn p left

variable {p : Nat → K} {n : Nat} {left : Finset Nat}

omit [IsStrictOrderedRing K] in
theorem Spread.ne (h : Spread p n left) (hi : i ∈ left) :
    ∀ j < n, j ≠ i → p j ≠ p i := by
  intro j _ hji heq
  by_cases hleft : j ∈ left
  · exact hji (h.inj hleft hi heq)
  · exact (h.pos i hi).ne' (heq ▸ h.zero j hleft)

omit [IsStrictOrderedRing K] in
/-- The sum before an index is the sum of the more probable ones. -/
theorem Spread.sum_before (h : Spread p n left) (hi : i ∈ left) {l₁ l₂ : List Nat}
    (hsplit : descending p n = l₁ ++ i :: l₂) :
    l₁.toFinset = above p left i ∧ (l₁.map p).sum = ∑ j ∈ above p left i, p j := by
  have hset : l₁.toFinset = above p left i := by
    ext j
    rw [List.mem_toFinset, mem_before hsplit (h.ne hi), mem_above]
    constructor
    · rintro ⟨-, hlt⟩
      refine ⟨?_, hlt⟩
      by_contra hout
      rw [h.zero j hout] at hlt
      exact absurd (h.pos i hi) hlt.not_gt
    · exact fun ⟨hj, hlt⟩ => ⟨h.lt j hj, hlt⟩
  have hnodup : (l₁ ++ i :: l₂).Nodup := hsplit ▸ nodup_descending
  exact ⟨hset, by rw [← hset, List.sum_toFinset p (List.nodup_append.mp hnodup).1]⟩

/-- The code's kept indices are the cut of the distribution. -/
theorem Spread.mem_kept (h : Spread p n left) (hsum : topP < ∑ j ∈ left, p j) (htop : 0 < topP)
    (i : Nat) : i ∈ Exact.keptIndices p topP (descending p n) ↔ i ∈ cutoff p left topP := by
  rw [mem_keptIndices, mem_cutoff]
  constructor
  · rintro ⟨l₁, l₂, hsplit, hkeep⟩
    by_cases hi : i ∈ left
    · obtain ⟨hset, hbefore⟩ := h.sum_before hi hsplit
      refine ⟨hi, hkeep.imp (fun hnil => ?_) fun hle => ?_⟩
      · rw [← hset, hnil, List.toFinset_nil]
      · rwa [← hbefore]
    · -- every index with a probability stands before one that has none
      have hzero := h.zero i hi
      have hsub : ∀ j ∈ left, j ∈ l₁ := by
        intro j hj
        have hmem : j ∈ l₁ ++ i :: l₂ := hsplit ▸ mem_descending.mpr (h.lt j hj)
        have hsorted : (l₁ ++ i :: l₂).Pairwise fun i j => p j ≤ p i :=
          hsplit ▸ pairwise_descending
        have hpos := h.pos j hj
        rcases List.mem_append.mp hmem with hmem | hmem
        · exact hmem
        · rcases List.mem_cons.mp hmem with rfl | hmem
          · exact absurd hj hi
          · have hle := (List.pairwise_cons.mp (List.pairwise_append.mp hsorted).2.1).1 j hmem
            rw [hzero] at hle
            exact absurd hpos (not_lt.mpr hle)
      have hnodup : (l₁ ++ i :: l₂).Nodup := hsplit ▸ nodup_descending
      have hbefore : ∑ j ∈ left, p j ≤ (l₁.map p).sum := by
        rw [← List.sum_toFinset p (List.nodup_append.mp hnodup).1]
        apply Finset.sum_le_sum_of_subset_of_nonneg
        · exact fun j hj => List.mem_toFinset.mpr (hsub j hj)
        · exact fun j _ hout => (h.zero j hout).ge
      rcases hkeep with rfl | hle
      · have hneg : topP < 0 := hsum.trans_le (by simpa using hbefore)
        exact absurd htop hneg.not_gt
      · rw [hzero, add_zero] at hle
        exact absurd (hsum.trans_le (hbefore.trans hle)) (lt_irrefl _)
  · rintro ⟨hi, hcut⟩
    obtain ⟨l₁, l₂, hsplit⟩ := List.append_of_mem (mem_descending (f := p).mpr (h.lt i hi))
    obtain ⟨hset, hbefore⟩ := h.sum_before hi hsplit
    refine ⟨l₁, l₂, hsplit, hcut.imp (fun hnone => ?_) fun hle => ?_⟩
    · exact (List.toFinset_eq_empty_iff l₁).mp (hset.trans hnone)
    · rwa [hbefore]

/-- Top-p sampling draws from the renormalised cut. -/
theorem topPProbs_eq (h : Spread p n left) (hsum : topP < ∑ j ∈ left, p j) (htop : 0 < topP) :
    Exact.topPProbs ((List.range n).map p) topP =
      some ((List.range n).map (renormalised p (cutoff p left topP))) := by
  have hout : ∀ i, n ≤ i → p i = 0 := fun i hi =>
    h.zero i fun hmem => absurd (h.lt i hmem) (not_lt.mpr hi)
  have hget := getD_range_map hout
  have hcut : cutoff p left topP ⊆ left := Finset.filter_subset _ _
  have hfiltered : ((List.range n).map fun i =>
      if i ∈ Exact.keptIndices p topP (descending p n) then p i else 0) =
      (List.range n).map fun i => if i ∈ cutoff p left topP then p i else 0 := by
    apply List.map_congr_left
    intro i _
    simp only [h.mem_kept hsum htop i]
  have htotal : ((List.range n).map fun i => if i ∈ cutoff p left topP then p i else 0).sum =
      ∑ i ∈ cutoff p left topP, p i := by
    rw [sum_range_left (fun i hi => h.lt i (hcut hi)) fun i hi => if_neg hi]
    exact Finset.sum_congr rfl fun i hi => if_pos hi
  have hne : left.Nonempty := by
    by_contra hempty
    rw [Finset.not_nonempty_iff_eq_empty.mp hempty, Finset.sum_empty] at hsum
    exact absurd htop hsum.not_gt
  have hpos : 0 < ∑ i ∈ cutoff p left topP, p i :=
    Finset.sum_pos (fun i hi => h.pos i (hcut hi)) (cutoff_nonempty hne)
  unfold Exact.topPProbs
  simp only [List.length_map, List.length_range, congrFun hget]
  rw [hfiltered, htotal, if_neg (not_le.mpr hpos), List.map_map]
  congr 1
  apply List.map_congr_left
  exact fun i _ => ite_div_sum p (cutoff p left topP) i

end

section
variable {n : Nat} {left : Finset Nat} {weight : K → K} {scaled : Nat → K}

omit [LinearOrder K] in
/-- A filtered logit has no weight. -/
theorem softmax_map (hleft : ∀ i ∈ left, i < n) :
    Exact.softmax weight ((List.range n).map fun i => if i ∈ left then (scaled i : WithBot K) else ⊥) =
      (List.range n).map (renormalised (fun i => weight (scaled i)) left) := by
  have hweights : ((List.range n).map fun i => if i ∈ left then (scaled i : WithBot K) else ⊥).map
      (fun x => (x.map weight).unbotD 0) =
      (List.range n).map fun i => if i ∈ left then weight (scaled i) else 0 := by
    rw [List.map_map]
    apply List.map_congr_left
    intro i _
    by_cases hi : i ∈ left <;> simp [hi]
  have hsum : ((List.range n).map fun i => if i ∈ left then weight (scaled i) else 0).sum =
      ∑ i ∈ left, weight (scaled i) := by
    rw [sum_range_left hleft fun i hi => if_neg hi]
    exact Finset.sum_congr rfl fun i hi => if_pos hi
  unfold Exact.softmax
  simp only [hweights, hsum, List.map_map]
  apply List.map_congr_left
  exact fun i _ => ite_div_sum (fun i => weight (scaled i)) left i

variable [IsStrictOrderedRing K]

/-- A softmax with positive increasing weights spreads over the indices that are left. -/
theorem softmax_spread (hleft : ∀ i ∈ left, i < n) (hne : left.Nonempty)
    (hpos : ∀ x, 0 < weight x) (hmono : StrictMono weight) (hinj : Set.InjOn scaled left) :
    Spread (renormalised (fun i => weight (scaled i)) left) n left ∧
      ∑ i ∈ left, renormalised (fun i => weight (scaled i)) left i = 1 := by
  have htotal : 0 < ∑ j ∈ left, weight (scaled j) := Finset.sum_pos (fun _ _ => hpos _) hne
  have hval : ∀ i ∈ left, renormalised (fun i => weight (scaled i)) left i =
      weight (scaled i) / ∑ j ∈ left, weight (scaled j) := fun i hi => if_pos hi
  refine ⟨⟨hleft, fun i hi => ?_, fun i hi => renormalised_of_notMem hi, fun i hi j hj heq => ?_⟩,
    sum_renormalised htotal.ne'⟩
  · rw [hval i hi]
    exact div_pos (hpos _) htotal
  · rw [hval i hi, hval j hj, div_left_inj' htotal.ne'] at heq
    exact hinj hi hj (hmono.injective heq)

end

/-- The indices that top-k leaves: those that fewer than `top_k` logits exceed. -/
def leftByTopk (params : SamplingParams) (values : List K) : Finset Nat :=
  match params.topK with
  | some k =>
    if 0 < k then (Finset.range values.length).filter fun i =>
      ((Finset.range values.length).filter fun j => values.getD i 0 < values.getD j 0).card < k.toNat
    else Finset.range values.length
  | none => Finset.range values.length

/-- The softmax of the logits over the indices that are left. -/
def probability (weight : K → K) (params : SamplingParams) (values : List K)
    (left : Finset Nat) : Nat → K :=
  renormalised (fun i => weight (values.getD i 0 / Exact.temperature params.temperature)) left

/-- The probabilities after the cut. -/
def cutProbability (weight : K → K) (params : SamplingParams) (values : List K)
    (left : Finset Nat) : Nat → K :=
  let p := probability weight params values left
  if 0 < params.topP ∧ params.topP < 1 then renormalised p (cutoff p left params.topP) else p

section
variable [IsStrictOrderedRing K] {weight : K → K} {draw : Generator (WithBot K) → List (WithBot K) → Nat}
  {params : SamplingParams} {values : List K} {left : Finset Nat} {n : Nat}

theorem temperature_pos (t : Rat) : 0 < (Exact.temperature t : K) := by
  have hpos : (0 : Rat) < max t (1 / 100000) := lt_max_of_lt_right (by norm_num)
  exact Rat.cast_pos.mpr hpos

omit [IsStrictOrderedRing K] in
theorem isValidDistribution_map {q : Nat → K} (hq : ∀ i, 0 ≤ q i)
    (hsum : 0 < ((List.range n).map q).sum) :
    Exact.isValidDistribution (((List.range n).map q).map ((↑) : K → WithBot K)) = true := by
  have hunbot : (((List.range n).map q).map ((↑) : K → WithBot K)).map (·.unbotD 0) =
      (List.range n).map q := by
    rw [List.map_map]
    exact List.map_id _
  unfold Exact.isValidDistribution
  rw [hunbot, Bool.and_eq_true, decide_eq_true_eq, List.all_eq_true]
  refine ⟨fun x hx => ?_, hsum⟩
  obtain ⟨y, hy, rfl⟩ := List.mem_map.mp hx
  obtain ⟨i, -, rfl⟩ := List.mem_map.mp hy
  exact decide_eq_true (WithBot.coe_le_coe.mpr (hq i))

theorem probability_spread (hpos : ∀ x, 0 < weight x) (hmono : StrictMono weight)
    (hleft : ∀ i ∈ left, i < n) (hne : left.Nonempty)
    (hinj : Set.InjOn (fun i => values.getD i 0) left) :
    Spread (probability weight params values left) n left ∧
      ∑ i ∈ left, probability weight params values left i = 1 := by
  apply softmax_spread hleft hne hpos hmono
  intro i hi j hj heq
  exact hinj hi hj ((div_left_inj' (temperature_pos params.temperature).ne').mp heq)

theorem renormalised_valid {p : Nat → K} (hleft : ∀ i ∈ left, i < n) (hne : left.Nonempty)
    (hp : ∀ i ∈ left, 0 < p i) : Exact.isValidDistribution
      (((List.range n).map (renormalised p left)).map ((↑) : K → WithBot K)) = true := by
  apply isValidDistribution_map
  · exact renormalised_nonneg fun i hi => (hp i hi).le
  · rw [sum_range_left hleft fun i hi => renormalised_of_notMem hi,
      sum_renormalised (Finset.sum_pos hp hne).ne']
    exact one_pos

/-- A row is drawn from its cut probabilities. -/
theorem distribution_eq (hpos : ∀ x, 0 < weight x) (hmono : StrictMono weight)
    (hleft : ∀ i ∈ left, i < n) (hne : left.Nonempty)
    (hinj : Set.InjOn (fun i => values.getD i 0) left) :
    (exactOps weight draw).distribution params ((List.range n).map fun i =>
      if i ∈ left then ((values.getD i 0 / Exact.temperature params.temperature : K) : WithBot K)
      else ⊥) =
      some (((List.range n).map (cutProbability weight params values left)).map (↑)) := by
  obtain ⟨hspread, hone⟩ := probability_spread hpos hmono hleft hne hinj
  have hsoft : Exact.softmax weight ((List.range n).map fun i =>
      if i ∈ left then ((values.getD i 0 / Exact.temperature params.temperature : K) : WithBot K)
      else ⊥) = (List.range n).map (probability weight params values left) := softmax_map hleft
  have hvalid : Exact.isValidDistribution
      (((List.range n).map (probability weight params values left)).map
        ((↑) : K → WithBot K)) = true :=
    renormalised_valid hleft hne fun i _ => hpos _
  unfold TensorOps.distribution exactOps
  simp only [hsoft, hvalid, not_true_eq_false, if_false]
  unfold cutProbability
  by_cases htop : 0 < params.topP ∧ params.topP < 1
  · obtain ⟨hlow, hhigh⟩ := htop
    have hlow' : (0 : K) < params.topP := Rat.cast_pos.mpr hlow
    have hhigh' : (params.topP : K) < ∑ i ∈ left, probability weight params values left i := by
      rw [hone]
      exact_mod_cast hhigh
    have hunbot : (((List.range n).map (probability weight params values left)).map
        ((↑) : K → WithBot K)).map (·.unbotD 0) =
        (List.range n).map (probability weight params values left) := by
      rw [List.map_map]
      exact List.map_id _
    have hcut : cutoff (probability weight params values left) left (params.topP : K) ⊆ left :=
      Finset.filter_subset _ _
    have hvalid' := renormalised_valid (fun i hi => hleft i (hcut hi)) (cutoff_nonempty hne)
      fun i hi => hspread.pos i (hcut hi)
    rw [hunbot, topPProbs_eq hspread hhigh' hlow', if_pos ⟨hlow, hhigh⟩]
    simp only [hlow, hhigh, and_self, if_true, Option.map_some, Option.filter_some, hvalid']
  · rw [if_neg htop, if_neg htop]

end
end PyptoServing.Runner
