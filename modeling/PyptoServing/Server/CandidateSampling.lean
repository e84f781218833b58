import PyptoServing.Runner.NucleusSampling
import PyptoServing.Server.HostSampling

/-!
# Candidates instead of the whole row

The worker samples from device-selected candidates when every request of the batch asks for
no more of them than the device selects. The tokens then have the probabilities that the
whole row gives them.
-/
namespace PyptoServing.Server

open Lib Lib.Nucleus Sched Runner

variable {K : Type*} [Field K] [LinearOrder K]

/-- The probability that a token is returned: the draw selects a position with its
probability. -/
def law (ops : TensorOps (WithBot K)) (params : SamplingParams) (source : Source (WithBot K))
    (token : Int) : K :=
  match source.draw ops params with
  | some (_, probs) => ((List.range probs.length).map fun i =>
      if (source.token ops params (some i)).toOption = some token then (probs.getD i 0).unbotD 0
      else 0).sum
  | none => if (source.token ops params none).toOption = some token then 1 else 0

/-- The `width` largest logits in descending order, by their token ids. -/
structure TopCandidates (values : List K) (width : Nat) (ids : List Nat) : Prop where
  length : ids.length = width
  lt : ∀ i ∈ ids, i < values.length
  descending : ids.Pairwise fun i j => values.getD j 0 < values.getD i 0
  rest : ∀ i ∈ ids, ∀ j < values.length, j ∉ ids → values.getD j 0 < values.getD i 0

namespace TopCandidates
variable {values : List K} {width k : Nat} {ids : List Nat} {params : SamplingParams}

theorem nodup (h : TopCandidates values width ids) : ids.Nodup :=
  h.descending.imp fun {i j} hlt heq => by
    subst heq
    exact lt_irrefl _ hlt

theorem injOn (h : TopCandidates values width ids) (hk : k ≤ width) :
    Set.InjOn (fun m => ids.getD m 0) (Finset.range k) := by
  intro m hm m' hm' heq
  have hm1 : m < ids.length := (Finset.mem_range.mp hm).trans_le (h.length ▸ hk)
  have hm2 : m' < ids.length := (Finset.mem_range.mp hm').trans_le (h.length ▸ hk)
  dsimp only at heq
  rw [List.getD_eq_getElem _ _ hm1, List.getD_eq_getElem _ _ hm2] at heq
  exact h.nodup.getElem_inj_iff.mp heq

/-- What is larger than a candidate stands before it. -/
theorem larger (h : TopCandidates values width ids) {m : Nat} (hm : m < width) :
    ((Finset.range values.length).filter fun j =>
      values.getD (ids.getD m 0) 0 < values.getD j 0) = (ids.take m).toFinset := by
  have hlen : m < ids.length := h.length ▸ hm
  have hget : ids.getD m 0 = ids[m] := List.getD_eq_getElem _ _ hlen
  have hsplit : ids = ids.take m ++ ids[m] :: ids.drop (m + 1) := by
    rw [List.getElem_cons_drop, List.take_append_drop]
  have hsorted := h.descending
  rw [hsplit] at hsorted
  obtain ⟨-, hrest, hcross⟩ := List.pairwise_append.mp hsorted
  ext j
  rw [Finset.mem_filter, Finset.mem_range, List.mem_toFinset, hget]
  constructor
  · rintro ⟨hj, hlt⟩
    have hmem : j ∈ ids := by
      by_contra hout
      exact absurd hlt (h.rest _ (List.getElem_mem hlen) j hj hout).not_gt
    rw [hsplit] at hmem
    rcases List.mem_append.mp hmem with hmem | hmem
    · exact hmem
    · rcases List.mem_cons.mp hmem with rfl | hmem
      · exact absurd hlt (lt_irrefl _)
      · exact absurd hlt ((List.pairwise_cons.mp hrest).1 j hmem).not_gt
  · intro hj
    exact ⟨h.lt j (List.mem_of_mem_take hj), hcross j hj _ (List.mem_cons_self ..)⟩

/-- The first candidates are what top-k leaves of the row. -/
theorem leftByTopk_eq (h : TopCandidates values width ids) (hpos : 0 < k) (hk : k ≤ width)
    (hparams : params.topK = some (k : Int)) :
    leftByTopk params values = (Finset.range k).image fun m => ids.getD m 0 := by
  have hcard : ∀ m < width, ((Finset.range values.length).filter fun j =>
      values.getD (ids.getD m 0) 0 < values.getD j 0).card = m := by
    intro m hm
    have hnodup : (ids.take m).Nodup := h.nodup.sublist (List.take_sublist m ids)
    rw [h.larger hm, List.toFinset_card_of_nodup hnodup, List.length_take, h.length]
    exact Nat.min_eq_left hm.le
  ext i
  rw [mem_leftByTopk, Finset.mem_image]
  constructor
  · rintro ⟨hi, hfew⟩
    have hlt := hfew k hparams (by exact_mod_cast hpos)
    rw [Int.toNat_natCast] at hlt
    by_cases hmem : i ∈ ids
    · obtain ⟨m, hm, rfl⟩ := List.getElem_of_mem hmem
      have hget : ids.getD m 0 = ids[m] := List.getD_eq_getElem _ _ hm
      refine ⟨m, Finset.mem_range.mpr ?_, hget⟩
      rwa [← hget, hcard m (h.length ▸ hm)] at hlt
    · -- all candidates are larger than a token that is none of them
      have hsub : ids.toFinset ⊆ (Finset.range values.length).filter fun j =>
          values.getD i 0 < values.getD j 0 := by
        intro j hj
        have hj' := List.mem_toFinset.mp hj
        exact Finset.mem_filter.mpr ⟨Finset.mem_range.mpr (h.lt j hj'), h.rest j hj' i hi hmem⟩
      have hle := Finset.card_le_card hsub
      rw [List.toFinset_card_of_nodup h.nodup, h.length] at hle
      omega
  · rintro ⟨m, hm, rfl⟩
    have hm' := Finset.mem_range.mp hm
    have hlen : m < ids.length := by
      rw [h.length]
      omega
    have hmem : ids.getD m 0 ∈ ids := by
      rw [List.getD_eq_getElem _ _ hlen]
      exact List.getElem_mem hlen
    refine ⟨h.lt _ hmem, fun k' hk' _ => ?_⟩
    obtain rfl := Option.some.inj (hparams.symm.trans hk')
    rw [hcard m (h.length ▸ hlen), Int.toNat_natCast]
    exact hm'

end TopCandidates

section
variable [IsStrictOrderedRing K] {weight : K → K}
  {draw : Generator (WithBot K) → List (WithBot K) → Nat} {params : SamplingParams}
  {values : List K} {ids : List Nat} {width k : Nat}

omit [IsStrictOrderedRing K] in
/-- A candidate has the probability of its token. -/
theorem cutProbability_candidates (h : TopCandidates values width ids) (hpos : 0 < k)
    (hk : k ≤ width) (hparams : params.topK = some (k : Int)) {m : Nat} (hm : m < k) :
    cutProbability weight params (ids.map fun i => values.getD i 0) (Finset.range k) m =
      cutProbability weight params values (leftByTopk params values) (ids.getD m 0) := by
  have hinj := h.injOn hk
  have hleft := h.leftByTopk_eq hpos hk hparams
  have hval : ∀ m ∈ Finset.range k,
      (ids.map fun i => values.getD i 0).getD m 0 = values.getD (ids.getD m 0) 0 := by
    intro m hm
    have hlen : m < ids.length := (Finset.mem_range.mp hm).trans_le (h.length ▸ hk)
    rw [List.getD_eq_getElem?_getD, List.getElem?_map, List.getElem?_eq_getElem hlen,
      List.getD_eq_getElem _ _ hlen]
    rfl
  have hprob : ∀ m ∈ Finset.range k, probability weight params (ids.map fun i => values.getD i 0)
      (Finset.range k) m = (probability weight params values (leftByTopk params values) ∘
        fun m => ids.getD m 0) m := by
    intro m hm
    have himage := renormalised_image
      (p := fun i => weight (values.getD i 0 / Exact.temperature params.temperature))
      hinj (Finset.Subset.refl _) hm
    rw [Function.comp_apply, probability, probability, hleft, himage]
    apply congrFun
    apply renormalised_congr
    intro m hm
    rw [hval m hm]
    rfl
  have hmk := Finset.mem_range.mpr hm
  unfold cutProbability
  by_cases htop : 0 < params.topP ∧ params.topP < 1
  · rw [if_pos htop, if_pos htop, cutoff_congr hprob]
    have hcut : cutoff (probability weight params values (leftByTopk params values) ∘
        fun m => ids.getD m 0) (Finset.range k) (params.topP : K) ⊆ Finset.range k :=
      Finset.filter_subset _ _
    have himage := renormalised_image (p := probability weight params values
      (leftByTopk params values)) hinj hcut hmk
    rw [image_cutoff hinj, ← hleft] at himage
    rw [himage]
    exact congrFun (renormalised_congr fun i hi => hprob i (hcut hi)) m
  · rw [if_neg htop, if_neg htop]
    exact hprob m hmk

omit [IsStrictOrderedRing K] in
theorem cutProbability_zero {left : Finset Nat} {i : Nat} (hi : i ∉ left) :
    cutProbability weight params values left i = 0 := by
  unfold cutProbability
  split
  · exact renormalised_of_notMem fun h => hi ((Finset.filter_subset _ _) h)
  · exact renormalised_of_notMem hi

/-- The law of a finite row, over the indices that top-k leaves. -/
theorem law_eq {source : Source (WithBot K)} {left : Finset Nat} (hpos : ∀ x, 0 < weight x)
    (hmono : StrictMono weight) (htemp : 0 < params.temperature)
    (h : source.Finite params values left) (token : Int) :
    law (exactOps weight draw) params source token =
      ∑ i ∈ left, if (source.token (exactOps weight draw) params (some i)).toOption = some token
        then cutProbability weight params values left i else 0 := by
  obtain ⟨device, n, hn, hdraw⟩ := h.draw_eq hpos hmono htemp
  unfold law
  rw [hdraw]
  dsimp only
  have hget := getD_map_range (q := cutProbability weight params values left) (n := n)
    fun i hi => cutProbability_zero fun hmem => absurd (hn i hmem) (not_lt.mpr hi)
  simp only [List.length_map, List.length_range, hget, WithBot.unbotD_coe]
  refine sum_range_left hn fun i hi => ?_
  rw [cutProbability_zero hi, ite_self]

/-- The gate admits a request that samples among at most `width` candidates. -/
theorem allowDeviceTopkSampling_topK {support : SamplingSupport} {requests : List NewRequestData}
    {request : NewRequestData} (hgate : HostWorker.allowDeviceTopkSampling support requests = true)
    (hrequest : request ∈ requests) (hwidth : support.deviceTopkSamplingK ≤ width) :
    0 < request.temperature ∧ ∃ k : Nat, k ≤ width ∧
      (HostWorker.samplingParams request).topK = some (k : Int) ∧ 0 < k := by
  unfold HostWorker.allowDeviceTopkSampling at hgate
  rw [Bool.and_eq_true, List.all_eq_true] at hgate
  have hreq := hgate.2 request hrequest
  rw [Bool.and_eq_true, decide_eq_true_eq, Option.any_eq_true] at hreq
  obtain ⟨htemp, k, hk, hbound⟩ := hreq
  rw [Bool.and_eq_true, decide_eq_true_eq, decide_eq_true_eq] at hbound
  obtain ⟨m, rfl⟩ := Int.eq_ofNat_of_zero_le hbound.1.le
  exact ⟨htemp, m, by exact_mod_cast hbound.2.trans hwidth, hk, by exact_mod_cast hbound.1⟩

omit [IsStrictOrderedRing K] in
/-- A drawn rank stands for the token id of its candidate. -/
theorem token_candidates {c : SamplingCandidates (WithBot K)} {rowIdx : Nat}
    (hrows : c.values.length = c.tokenIds.length)
    (hvalues : c.values[rowIdx]? = some ((ids.map fun i => values.getD i 0).map (↑)))
    (hids : c.tokenIds[rowIdx]? = some (ids.map (↑))) (hne : ids ≠ [])
    (hw : candidateWidth params (ids.map fun i => values.getD i 0).length = k)
    (hk : k ≤ ids.length) {m : Nat} (hm : m < k) :
    ((Source.candidates c rowIdx).token (exactOps weight draw) params (some m)).toOption =
      some ((ids.getD m 0 : Nat) : Int) := by
  have hcrow : c.row (exactOps weight draw) rowIdx params = _ :=
    row_eq hrows hvalues hids (by simp) (by simpa using hne)
  rw [hw] at hcrow
  have hlt : m < ids.length := hm.trans_le hk
  have hat : ((ids.map ((↑) : Nat → Int)).take k)[m]? = some ((ids.getD m 0 : Nat) : Int) := by
    rw [List.getElem?_take_of_lt hm, List.getElem?_map, List.getElem?_eq_getElem hlt,
      List.getD_eq_getElem _ _ hlt]
    rfl
  unfold Source.token
  dsimp only
  rw [hcrow]
  dsimp only
  rw [Option.getD_some, Sampler.tokenAt, hat]
  rfl

/-- Candidates accepted by the gate of the worker give every token the probability that the
whole row gives it. -/
theorem candidates_law_eq (hpos : ∀ x, 0 < weight x) (hmono : StrictMono weight)
    {support : SamplingSupport} {requests : List NewRequestData} {request : NewRequestData}
    (hgate : HostWorker.allowDeviceTopkSampling support requests = true)
    (hrequest : request ∈ requests) (hwidth : support.deviceTopkSamplingK ≤ width)
    (hdistinct : values.Nodup) (htop : TopCandidates values width ids)
    {c : SamplingCandidates (WithBot K)} {rowIdx : Nat} {device : String}
    (hrows : c.values.length = c.tokenIds.length)
    (hvalues : c.values[rowIdx]? = some ((ids.map fun i => values.getD i 0).map (↑)))
    (hids : c.tokenIds[rowIdx]? = some (ids.map (↑))) (token : Int) :
    law (exactOps weight draw) (HostWorker.samplingParams request) (.candidates c rowIdx) token =
      law (exactOps weight draw) (HostWorker.samplingParams request)
        (.logits ⟨device, values.map (↑)⟩) token := by
  obtain ⟨htemp, k, hk, hparams, hkpos⟩ := allowDeviceTopkSampling_topK hgate hrequest hwidth
  have hlen : (ids.map fun i => values.getD i 0).length = width := by
    rw [List.length_map, htop.length]
  have hne : ids ≠ [] := by
    rintro rfl
    have := htop.length
    simp only [List.length_nil] at this
    omega
  have hvals : values ≠ [] := by
    rintro rfl
    obtain ⟨i, hi⟩ := List.exists_mem_of_ne_nil ids hne
    exact absurd (htop.lt i hi) (Nat.not_lt_zero i)
  have hcand : Source.Finite (HostWorker.samplingParams request)
      (.candidates c rowIdx : Source (WithBot K)) (ids.map fun i => values.getD i 0)
      (Finset.range (candidateWidth (HostWorker.samplingParams request)
        (ids.map fun i => values.getD i 0).length)) := by
    refine .candidates hrows hvalues hids (by simp) (by simpa using hne) ?_
    exact List.pairwise_map.mpr (htop.descending.imp fun hlt => hlt.ne')
  have hw : candidateWidth (HostWorker.samplingParams request)
      (ids.map fun i => values.getD i 0).length = k := by
    unfold candidateWidth
    rw [hlen, hparams]
    dsimp only
    rw [if_pos (by exact_mod_cast hkpos), Int.toNat_natCast]
    exact Nat.min_eq_right hk
  rw [hw] at hcand
  have hrow : Source.Finite (HostWorker.samplingParams request)
      (.logits ⟨device, values.map (↑)⟩ : Source (WithBot K)) values
      (leftByTopk (HostWorker.samplingParams request) values) := .logits device hvals hdistinct
  have hrowToken : ∀ i, ((Source.logits ⟨device, values.map (↑)⟩).token (exactOps weight draw)
      (HostWorker.samplingParams request) (some i)).toOption = some (i : Int) := fun i => rfl
  rw [law_eq hpos hmono htemp hcand, law_eq hpos hmono htemp hrow,
    htop.leftByTopk_eq hkpos hk hparams, Finset.sum_image (htop.injOn hk),
    ← htop.leftByTopk_eq hkpos hk hparams]
  apply Finset.sum_congr rfl
  intro m hm
  have hmk := Finset.mem_range.mp hm
  rw [token_candidates hrows hvalues hids hne hw (hk.trans_eq htop.length.symm) hmk, hrowToken,
    cutProbability_candidates htop hkpos hk hparams hmk]

end

def twoOfThree : NewRequestData where
  requestId := "a"
  promptTokenIds := [1]
  temperature := 1
  topP := 9 / 10
  topK := some 2

theorem candidates_law_eq_two : law (exactOps Real.exp fun _ _ => 0)
    (HostWorker.samplingParams twoOfThree)
    (.candidates ⟨"cpu", [([0, 2].map fun i => ([2, 0, 1] : List ℝ).getD i 0).map (↑)],
      [[0, 2].map ((↑) : Nat → Int)]⟩ 0) 2 =
    law (exactOps Real.exp fun _ _ => 0) (HostWorker.samplingParams twoOfThree)
      (.logits ⟨"cpu", ([2, 0, 1] : List ℝ).map (↑)⟩) 2 := by
  have htop : TopCandidates ([2, 0, 1] : List ℝ) 2 [0, 2] := by
    refine ⟨rfl, by decide, by norm_num, fun i hi j hj hout => ?_⟩
    have hj1 : j = 1 := by
      simp only [List.length_cons, List.length_nil, List.mem_cons, List.not_mem_nil, or_false,
        not_or] at hj hout
      omega
    subst hj1
    simp only [List.mem_cons, List.not_mem_nil, or_false] at hi
    rcases hi with rfl | rfl <;> norm_num
  have hgate : HostWorker.allowDeviceTopkSampling { deviceTopkSamplingK := 2 } [twoOfThree] =
      true := by decide
  exact candidates_law_eq Real.exp_pos Real.exp_strictMono hgate (by simp) (by decide)
    (by norm_num) htop rfl rfl rfl 2

end PyptoServing.Server
