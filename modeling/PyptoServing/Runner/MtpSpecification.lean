import PyptoServing.Runner.MtpVerification
import PyptoServing.Runner.ReferenceKernel

/-!
# What verification returns

`_verify_mtp_drafts` returns what `accept_mtp_tokens` accepts of the drafts and the predictions of
the target, unless the host refuses one of its waves or the kernel fails.
-/
namespace PyptoServing.Runner.Verification

open Lib Lib.Raising Memory Sched

variable {σ H L : Type} {v : Verification σ H L} {target : Target H L} {context : Nat → List Int}
  {i o : Nat}

section
variable (v target context)

/-- The accepted tokens of a request. -/
def acceptedOf (i : Nat) : List Int :=
  acceptRow (v.draftsOf i) (target.main (context i) (v.inputs i))

/-- The last accepted prediction of a request, and what belongs to it. -/
def tailOf (i : Nat) : Tail H where
  token := (v.acceptedOf target context i).getLastD 0
  hidden := target.hidden (context i ++ (v.inputs i).take (v.acceptedOf target context i).length)
  position := (context i).length + (v.acceptedOf target context i).length

/-- What a verification has to return. -/
def specified : MtpVerification H L where
  acceptedTokenIds := (List.range v.batch.rows.length).map (v.acceptedOf target context)
  tails := (List.range v.batch.rows.length).map (v.tailOf target context)
  firstLogits := (List.range v.batch.rows.length).map fun i =>
    target.logits (context i ++ [(v.row i).tokenId])

/-- Whether the drafts of a request are predicted up to input `o`. -/
def Reaches (o i : Nat) : Prop :=
  ∀ k < o, (v.draftsOf i)[k]? = (target.main (context i) (v.inputs i))[k]?

/-- Every chunk ends inside the context of the requests that reach it. -/
def HasRoom : Prop :=
  ∀ o ≤ v.numDrafts, v.layout.decodeSeq ∣ o → ∀ i < v.batch.rows.length,
    v.Reaches target context o i → (context i).length + o + v.realWidth o ≤ v.maxSeqLen

/-- Where sampling parameters are staged, all requests reach the same chunks, and are on different
ranks if the last of these is partial. -/
def SamplingFits : Prop :=
  v.numSpeculativeTokens ≠ 1 → v.batch.samplingParams ≠ [] →
    ∀ o ≤ v.numDrafts, v.layout.decodeSeq ∣ o →
      (∃ i < v.batch.rows.length, v.Reaches target context o i) →
        (∀ i < v.batch.rows.length, v.Reaches target context o i) ∧
          (v.realWidth o < v.layout.decodeSeq →
            ((List.range v.batch.rows.length).map v.rank).Nodup)

/-- A verification that returns what it has to, with every position inside the context. -/
def Verifies (device : Device σ) : Prop :=
  ∃ device', exec (verifyMtpDrafts v) device = (.ok (v.specified target context), device') ∧
    v.Below device'

end

theorem reaches_iff (h : v.Verifiable target context) (hi : i < v.batch.rows.length)
    (ho : o ≤ v.numDrafts) : v.Reaches target context o i ↔ o ≤ v.matched target context i := by
  have hlen := h.length_draftsOf hi
  have hmain : (target.main (context i) (v.inputs i)).length = v.numDrafts + 1 := by
    rw [Target.main, Speculation.length_predictions, h.length_inputs hi]
  have hmatched := h.matched_le hi
  constructor
  · intro hreach
    by_contra hlt
    refine Speculation.getElem?_matched_ne ?_ ?_ (hreach _ (not_le.mp hlt))
    · show v.matched target context i < _
      omega
    · show v.matched target context i < _
      omega
  · intro hle k hk
    obtain ⟨token, hdraft, hpredicted⟩ :=
      Speculation.getElem?_of_lt_matched (show k < v.matched target context i by omega)
    rw [hdraft]
    exact hpredicted.symm

theorem admittedFrom_iff (h : v.Verifiable target context) :
    v.AdmittedFrom target context 0 ↔ v.HasRoom target context ∧ v.SamplingFits target context := by
  have hreach : ∀ o ≤ v.numDrafts, ∀ i < v.batch.rows.length,
      (v.Reaches target context o i ↔ o ≤ v.matched target context i) :=
    fun o ho i hi => reaches_iff h hi ho
  constructor
  · intro hall
    refine ⟨fun o ho hdvd i hi hr => ?_, fun hspec hparams o ho hdvd hsome => ?_⟩
    · exact (hall o ho (Nat.zero_le _) hdvd).1 i hi ((hreach o ho i hi).mp hr)
    · obtain ⟨i, hi, hr⟩ := hsome
      obtain ⟨hevery, hspread⟩ := (hall o ho (Nat.zero_le _) hdvd).2 hspec hparams
        ⟨i, hi, (hreach o ho i hi).mp hr⟩
      exact ⟨fun j hj => (hreach o ho j hj).mpr (hevery j hj), hspread⟩
  · rintro ⟨hroom, hfits⟩ o ho - hdvd
    refine ⟨fun i hi hm => ?_, fun hspec hparams hsome => ?_⟩
    · exact hroom o ho hdvd i hi ((hreach o ho i hi).mpr hm)
    · obtain ⟨i, hi, hm⟩ := hsome
      obtain ⟨hevery, hspread⟩ := hfits hspec hparams o ho hdvd ⟨i, hi, (hreach o ho i hi).mpr hm⟩
      exact ⟨fun j hj => (hreach o ho j hj).mp (hevery j hj), hspread⟩

theorem length_acceptedOf (h : v.Verifiable target context) (hi : i < v.batch.rows.length) :
    (v.acceptedOf target context i).length = v.matched target context i + 1 := by
  have hmatched := h.matched_le hi
  show ((target.main (context i) (v.inputs i)).take (v.matched target context i + 1)).length = _
  rw [List.length_take, Target.main, Speculation.length_predictions, h.length_inputs hi]
  omega

/-- The entry of a request that is done holds what it has to return. -/
theorem done_eq (h : v.Verifiable target context) (hi : i < v.batch.rows.length) :
    v.done target context i = {
      accepted := v.acceptedOf target context i
      firstLogits := some (target.logits (context i ++ [(v.row i).tokenId]))
      tail := some (v.tailOf target context i) } := by
  have hmatched := h.matched_le hi
  have hlen := h.length_inputs hi
  have htoken : (v.acceptedOf target context i).getLastD 0 =
      (target.tail (context i) (v.inputs i) (v.matched target context i)).token := by
    show ((target.main (context i) (v.inputs i)).take (v.matched target context i + 1)).getLastD 0 = _
    rw [Target.main_take (by omega), List.getLastD_concat]
  unfold done tailOf Target.finished
  rw [htoken, length_acceptedOf h hi]
  rfl

theorem mapM_some {α β : Type} {f : α → Option β} {g : α → β} {l : List α}
    (h : ∀ a ∈ l, f a = some (g a)) : l.mapM f = some (l.map g) :=
  Fallible.mapM_eq_some.mpr (List.forall₂_map_right_iff.mpr (List.forall₂_same.mpr h))

theorem exec_verifyMtpDrafts (h : v.Verifiable target context) {device : Device σ}
    (hholds : ∀ i < v.batch.rows.length, v.Holds context device.state i 0) :
    (v.AdmittedFrom target context 0 ∧ ∃ device',
      exec (verifyMtpDrafts v) device = (.ok (v.specified target context), device') ∧
        (∀ i < v.batch.rows.length,
          v.Holds context device'.state i (v.matched target context i + 1)) ∧
        v.Keeps device device') ∨
    (¬ (v.AdmittedFrom target context 0 ∧ v.kernel.Answers) ∧ ∃ e device',
      exec (verifyMtpDrafts v) device = (.error e, device') ∧ v.Keeps device device') := by
  have hdrafts : ¬ v.drafts.length ≠ v.batch.rows.length := not_not.mpr h.drafts
  unfold verifyMtpDrafts
  rw [if_neg hdrafts]
  rcases exec_loop h hholds with ⟨hall, progress, device', hexec, hfinishes⟩ |
    ⟨hnot, e, device', hexec, hkeeps⟩
  · refine .inl ⟨hall, device', ?_, hfinishes.holds, hfinishes.keeps⟩
    have hentry : ∀ i ∈ List.range v.batch.rows.length, progress i = {
        accepted := v.acceptedOf target context i
        firstLogits := some (target.logits (context i ++ [(v.row i).tokenId]))
        tail := some (v.tailOf target context i) } := by
      intro i hi
      rw [hfinishes.done i (List.mem_range.mp hi), done_eq h (List.mem_range.mp hi)]
    have htails : (List.range v.batch.rows.length).mapM (fun i => (progress i).tail) =
        some ((List.range v.batch.rows.length).map (v.tailOf target context)) :=
      mapM_some fun i hi => by rw [hentry i hi]
    have hlogits : (List.range v.batch.rows.length).mapM (fun i => (progress i).firstLogits) =
        some ((List.range v.batch.rows.length).map fun i =>
          target.logits (context i ++ [(v.row i).tokenId])) :=
      mapM_some fun i hi => by rw [hentry i hi]
    have haccepted : (List.range v.batch.rows.length).map (fun i => (progress i).accepted) =
        (List.range v.batch.rows.length).map (v.acceptedOf target context) :=
      List.map_congr_left fun i hi => by rw [hentry i hi]
    refine (exec_bind_ok hexec).trans ?_
    rw [htails, hlogits, haccepted]
    rfl
  · exact .inr ⟨hnot, e, device', exec_bind_error hexec, hkeeps⟩

theorem foldl_min_le {l : List Int} {x : Int} (hx : x ∈ l) (init : Int) : l.foldl min init ≤ x := by
  have hinit : ∀ (l : List Int) (init : Int), l.foldl min init ≤ init := by
    intro l
    induction l with
    | nil => exact fun _ => le_rfl
    | cons y l ih => exact fun init => (ih _).trans (min_le_left _ _)
  induction l generalizing init with
  | nil => cases hx
  | cons y l ih =>
    rcases List.mem_cons.mp hx with rfl | hx
    · exact (hinit l _).trans (min_le_right _ _)
    · exact ih hx _

/-- The drafts leave room for every request that is inside the context. -/
theorem add_mtpDraftCount_le (numSpeculativeTokens : Nat) {maxSeqLen seqLen : Nat} {seqLens : List Nat}
    (hmem : seqLen ∈ seqLens) (hle : seqLen ≤ maxSeqLen) :
    seqLen + mtpDraftCount numSpeculativeTokens maxSeqLen seqLens ≤ maxSeqLen := by
  have hremaining := foldl_min_le (List.mem_map_of_mem
    (f := fun (seqLen : Nat) => (maxSeqLen : Int) - (seqLen : Int)) hmem)
    ((seqLens.map fun (seqLen : Nat) => (maxSeqLen : Int) - (seqLen : Int)).headD 0)
  unfold mtpDraftCount
  dsimp only
  omega

/-- The number of drafts that the runner chooses leaves room for all of them. -/
theorem hasRoom_of_mtpDraftCount (h : v.Verifiable target context)
    (hcount : v.numDrafts =
      mtpDraftCount v.numSpeculativeTokens v.maxSeqLen (v.batch.rows.map (·.seqLen)))
    (hlen : ∀ row ∈ v.batch.rows, row.seqLen ≤ v.maxSeqLen) : v.HasRoom target context := by
  intro o ho _ i hi _
  have hend := add_realWidth_le ho
  have hseq := h.seqLen i hi
  have hroom := add_mtpDraftCount_le v.numSpeculativeTokens
    (List.mem_map_of_mem (f := (·.seqLen)) (row_mem hi)) (hlen _ (row_mem hi))
  omega

/-- Verification returns the drafts that the target predicts and its next token, for every target
whose kernel answers, if every chunk has room and the sampling parameters fit its waves. The drafts are as many as leave
room; the sampling parameters of a wave are those of the whole batch. -/
theorem verifies_iff (h : v.Verifiable target context) (hanswers : v.kernel.Answers) (state : σ)
    (hholds : ∀ i < v.batch.rows.length, v.Holds context state i 0) :
    (v.Verifies target context { state } ↔ v.HasRoom target context ∧ v.SamplingFits target context) ∧
    (v.numDrafts ≠ 0 → acceptMtpTokens (v.numDrafts + 1) v.numDrafts
      ((List.range v.batch.rows.length).map fun i => target.main (context i) (v.inputs i)) v.drafts =
        .ok (v.specified target context).acceptedTokenIds) ∧
    (v.numDrafts = mtpDraftCount v.numSpeculativeTokens v.maxSeqLen (v.batch.rows.map (·.seqLen)) →
      (∀ row ∈ v.batch.rows, row.seqLen ≤ v.maxSeqLen) → v.HasRoom target context) := by
  refine ⟨?_, fun hdepth => ?_, hasRoom_of_mtpDraftCount h⟩
  · have hstart : ∀ i < v.batch.rows.length,
        v.Holds context ({ state } : Device σ).state i 0 := hholds
    have hnew : v.Below ({ state } : Device σ) := by
      intro inputs hmem
      cases hmem
    rw [← admittedFrom_iff h]
    constructor
    · rintro ⟨device', hexec, -⟩
      rcases exec_verifyMtpDrafts h hstart with ⟨hall, -⟩ | ⟨-, e, device'', herror, -⟩
      · exact hall
      · rw [hexec] at herror
        cases herror
    · intro hall
      rcases exec_verifyMtpDrafts h hstart with ⟨-, device', hexec, -, hkeeps⟩ | ⟨hnot, -⟩
      · exact ⟨device', hexec, hkeeps.below hnew⟩
      · exact absurd ⟨hall, hanswers⟩ hnot
  · unfold acceptMtpTokens
    rw [if_neg (by omega), if_neg]
    · refine congrArg Except.ok (List.ext_getElem ?_ fun i hi hi' => ?_)
      · simp [specified, h.drafts]
      · simp only [List.length_zipWith, List.length_map, List.length_range, h.drafts,
          Nat.min_self] at hi
        simp [specified, acceptedOf, draftsOf, h.drafts, hi]
    · simp [h.drafts]

/-- A target that counts the tokens. -/
def countingTarget : Target Unit Unit where
  next context := context.length
  hidden _ := ()
  logits _ := ()

/-- Two requests with two drafts each, on the given ranks. -/
def pair (rank₀ rank₁ : Nat) : Verification TokenMemory Unit Unit where
  kernel := referenceKernel countingTarget 4
  layout := deepseekV4DecodeLayout 2
  numSpeculativeTokens := 2
  maxSeqLen := 16
  batch := {
    rows := [⟨"a", 2, 3, some rank₀⟩, ⟨"b", 1, 2, some rank₁⟩]
    samplingParams := [defaultSampling, defaultSampling] }
  numDrafts := 2
  drafts := [[3, 9], [2, 3]]

def pairContext : Nat → List Int
  | 0 => [7, 8]
  | _ => [5]

def pairMemory : TokenMemory := fun r position =>
  if r = "a" then [(7 : Int), 8][position]? else [(5 : Int)][position]?

theorem pair_verifiable {rank₀ rank₁ : Nat} (h₀ : rank₀ < 8) (h₁ : rank₁ < 8) :
    (pair rank₀ rank₁).Verifiable countingTarget pairContext where
  computes := referenceKernel_computes _ _
  width := Nat.zero_lt_succ 3
  tokens := rfl
  ids := by simp [pair]
  assigned := by
    have hfits : Fits (deepseekV4DecodeLayout 2) ([rank₀, rank₁].map some) := by
      refine ⟨fun p hp => ?_, fun rank => List.count_le_length.trans (show 2 ≤ 4 by decide)⟩
      rcases List.mem_pair.mp hp with rfl | rfl
      · exact ⟨rank₀, h₀, rfl⟩
      · exact ⟨rank₁, h₁, rfl⟩
    obtain ⟨a, ha, -⟩ := hfits.assigned (List.cons_ne_nil "a" ["b"]) rfl
    exact ⟨a, ha⟩
  drafts := rfl
  depth := by simp [pair]
  seqLen i hi := by
    rcases i with _ | _ | i
    · rfl
    · rfl
    · exact absurd hi (by simp [pair])
  params := .inr rfl

theorem pair_holds (rank₀ rank₁ : Nat) : ∀ i < (pair rank₀ rank₁).batch.rows.length,
    (pair rank₀ rank₁).Holds pairContext pairMemory i 0 := by
  intro i hi q hq
  rcases i with _ | _ | i
  · have hlt : q < 2 := hq
    interval_cases q <;> rfl
  · have hlt : q < 1 := hq
    interval_cases q
    rfl
  · exact absurd hi (by simp [pair])

/-- Two requests on different ranks are verified. -/
theorem pair_verifies : (pair 0 1).Verifies countingTarget pairContext { state := pairMemory } := by
  refine ((verifies_iff (pair_verifiable (by decide) (by decide)) (referenceKernel_answers _ _)
    pairMemory (pair_holds 0 1)).1).mpr ⟨?_, ?_⟩
  · intro o ho hdvd i hi _
    have hlen : (pairContext i).length ≤ 2 := by
      unfold pairContext
      split <;> simp
    have hend : o + (pair 0 1).realWidth o ≤ 3 := add_realWidth_le ho
    show (pairContext i).length + o + (pair 0 1).realWidth o ≤ 16
    omega
  · intro _ _ o ho hdvd _
    have ho' : o ≤ 2 := ho
    have hzero : o = 0 := Nat.eq_zero_of_dvd_of_lt hdvd (by
      show o < 4
      omega)
    subst hzero
    refine ⟨fun i _ k hk => absurd hk (Nat.not_lt_zero k), fun _ => ?_⟩
    show [0, 1].Nodup
    decide

/-- Two requests on one rank are refused: each of the two waves has one request, and the sampling
parameters of both. -/
theorem pair_refused : (pair 0 0).Verifiable countingTarget pairContext ∧
    (pair 0 0).kernel.Answers ∧
    (∀ i < (pair 0 0).batch.rows.length, (pair 0 0).Holds pairContext pairMemory i 0) ∧
    (pair 0 0).numDrafts = mtpDraftCount 2 16 ((pair 0 0).batch.rows.map (·.seqLen)) ∧
    (exec (verifyMtpDrafts (pair 0 0)) { state := pairMemory }).1 =
      .error "decode sampling params must align with request IDs" ∧
    ¬ (pair 0 0).Verifies countingTarget pairContext { state := pairMemory } := by
  have herror : (exec (verifyMtpDrafts (pair 0 0)) { state := pairMemory }).1 =
      .error "decode sampling params must align with request IDs" := rfl
  refine ⟨pair_verifiable (by decide) (by decide), referenceKernel_answers _ _, pair_holds 0 0, rfl,
    herror, ?_⟩
  rintro ⟨device', hexec, -⟩
  rw [hexec] at herror
  cases herror

end PyptoServing.Runner.Verification
