import PyptoServing.Lib.Worklist
import PyptoServing.Runner.MtpStaging

/-!
# One wave

A wave writes the tokens of its requests behind their contexts, and its requests read their
predictions back.
-/
namespace PyptoServing.Runner.Verification

open Lib Lib.Raising Lib.Worklist Memory Sched

variable {σ H L : Type} {v : Verification σ H L} {target : Target H L} {context : Nat → List Int}
  {wave : List Nat} {a : DecodeAssignment} {i j k o width rank row : Nat}

theorem consistent_staged (h : v.Verifiable target context) (hw : v.IsWave wave o width)
    (ha : Assigned v.layout (wave.map v.rank) a) :
    (staged v a wave o width).Consistent v.layout.decodeSeq := by
  refine ⟨?_, ?_⟩
  · intro r position token token' rank row rank' row' hactive hactive'
    obtain ⟨i, k, hs, rfl, rfl, htoken⟩ := staged_of_active ha h hw hactive
    obtain ⟨i', k', hs', hid, hposition, htoken'⟩ := staged_of_active ha h hw hactive'
    obtain rfl := h.ids_inj (hw.bound i hs.mem) (hw.bound i' hs'.mem) hid
    obtain rfl : k = k' := by omega
    exact Option.some.inj (htoken.symm.trans htoken')
  · intro r position token rank row hactive
    obtain ⟨i, k, hs, -, rfl, -⟩ := staged_of_active ha h hw hactive
    obtain ⟨j, localRow, hj, hrow, rfl⟩ := hs.localRow
    have hk := hs.offset
    have hle := hw.le
    have hi := hw.bound i hs.mem
    have hdiv : (localRow * v.layout.decodeSeq + k) / v.layout.decodeSeq = localRow := by
      rw [Nat.mul_comm, Nat.mul_add_div h.width, Nat.div_eq_of_lt (by omega), Nat.add_zero]
    have hlen : (staged v a wave o width).kvSeqLens rank localRow =
        (v.row i).seqLen + o + width - 1 := by
      show (((v.waveBatch wave o width).rows[stagedIndex a rank localRow]?).map
        (·.seqLen)).getD 0 = _
      rw [stagedIndex_eq ha (hs.rank_eq ▸ (h.cachePartition hi).2) hrow, waveBatch, List.getElem?_map,
        hj]
      rfl
    rw [hdiv, hlen, h.seqLen i hi]
    omega

variable (v) in
/-- Whether the sampling inputs of a wave can be staged. -/
def Aligned (wave : List Nat) : Prop :=
  v.numSpeculativeTokens ≠ 1 → v.batch.samplingParams ≠ [] →
    v.batch.samplingParams.length = wave.length

variable (v context) in
/-- Whether the host dispatches a wave: it ends inside the context, and its sampling parameters
fit. -/
def Admitted (wave : List Nat) (o width : Nat) : Prop :=
  (∀ i ∈ wave, (context i).length + o + width ≤ v.maxSeqLen) ∧ v.Aligned wave

/-- A part of the batch fits the ranks as the batch does. -/
theorem Verifiable.part_fits (h : v.Verifiable target context)
    (hbound : ∀ i ∈ wave, i < v.batch.rows.length) (hnodup : wave.Nodup) :
    Fits v.layout ((wave.map v.rank).map some) := by
  have hrange : wave.Subperm (List.range v.batch.rows.length) :=
    hnodup.subperm fun i hi => List.mem_range.mpr (hbound i hi)
  have hpartitions : (wave.map v.rank).map some = wave.map fun i => (v.row i).cachePartition := by
    rw [List.map_map]
    exact List.map_congr_left fun i hi => (h.cachePartition (hbound i hi)).1.symm
  refine h.fits.of_subperm ?_
  obtain ⟨part, hperm, hsub⟩ := hrange
  rw [hpartitions, ← map_row fun row => row.cachePartition]
  exact ⟨part.map _, hperm.map _, hsub.map _⟩

/-- A part of the batch is assigned, whatever the lengths of its requests. -/
theorem Verifiable.part_assigned (h : v.Verifiable target context)
    (hbound : ∀ i ∈ wave, i < v.batch.rows.length) (hnodup : wave.Nodup) (hne : wave ≠ [])
    {batch : DecodeBatch} (hids : batch.rows.length = wave.length)
    (hpartitions : batch.rows.map (·.cachePartition) = wave.map fun i => (v.row i).cachePartition) :
    ∃ a, batch.assignment v.layout = .ok a ∧ Assigned v.layout (wave.map v.rank) a := by
  have hranks : batch.rows.map (·.cachePartition) = (wave.map v.rank).map some := by
    rw [hpartitions, List.map_map]
    exact List.map_congr_left fun i hi => (h.cachePartition (hbound i hi)).1
  have hrows : batch.rows.map (·.requestId) ≠ [] := by
    rw [ne_eq, List.map_eq_nil_iff, ← List.length_eq_zero_iff, hids, List.length_eq_zero_iff]
    exact hne
  obtain ⟨a, hok, ha⟩ := (h.part_fits hbound hnodup).assigned hrows (by simp [hids])
  refine ⟨a, ?_, ha⟩
  unfold DecodeBatch.assignment
  rw [hranks, hok]
  rfl

theorem count_le_of_assigned {layout : DeepSeekV4CacheLayout} {ranks : List Nat}
    (ha : Assigned layout ranks a) (hfits : Fits layout (ranks.map some)) :
    ∀ count ∈ a.perRankCounts, count ≤ layout.decodeBatch := by
  intro count hcount
  rw [ha.counts, ha.rows, List.map_map] at hcount
  obtain ⟨rank, -, rfl⟩ := List.mem_map.mp hcount
  have hroom := hfits.room rank
  rw [List.count_map_of_injective _ _ (Option.some_injective _)] at hroom
  rw [Function.comp_apply, length_rowsOf _ _ _ le_rfl, List.take_length]
  exact hroom

/-- A partial chunk has no rank with two requests. -/
theorem IsWave.not_crowded (hw : v.IsWave wave o width)
    (ha : Assigned v.layout (wave.map v.rank) a) :
    ¬ (width < v.layout.decodeSeq ∧ a.perRankCounts.any fun count => 1 < count) := by
  rintro ⟨hlt, hany⟩
  obtain ⟨count, hcount, hmany⟩ := List.any_eq_true.mp hany
  rw [ha.counts] at hcount
  obtain ⟨indices, hindices, rfl⟩ := List.mem_map.mp hcount
  obtain ⟨rank, hrank, rfl⟩ := List.mem_iff_getElem.mp hindices
  have hrank' : rank < v.layout.ranks := by simpa [ha.rows] using hrank
  have hone := hw.count_le ha hrank' hlt.ne
  rw [List.getD_eq_getElem?_getD, List.getElem?_eq_getElem hrank, Option.getD_some] at hone
  simp only [decide_eq_true_eq] at hmany
  omega

/-- The host compares the largest position of a wave. -/
theorem Verifiable.positions_lt_iff (h : v.Verifiable target context) (hw : v.IsWave wave o width) :
    (wave.map (v.positionRow o width)).flatten.foldr max 0 < v.maxSeqLen ↔
      ∀ i ∈ wave, (context i).length + o + width ≤ v.maxSeqLen := by
  have hpos := hw.pos
  constructor
  · intro hlt i hi
    have hle : (v.row i).seqLen - 1 + o + (width - 1) ≤
        (wave.map (v.positionRow o width)).flatten.foldr max 0 :=
      List.le_max_of_le' 0
        (List.mem_flatten.mpr ⟨_, List.mem_map_of_mem hi, positionRow_mem hw⟩) le_rfl
    have hlen := h.seqLen i (hw.bound i hi)
    omega
  · intro hroom
    have hseq : 0 < v.maxSeqLen := by
      obtain ⟨i, hi⟩ := List.exists_mem_of_ne_nil _ hw.ne
      have hend := hroom i hi
      omega
    have hle : (wave.map (v.positionRow o width)).flatten.foldr max 0 ≤ v.maxSeqLen - 1 := by
      refine List.max_le_of_forall_le _ _ fun p hp => ?_
      obtain ⟨row, hrow, hp⟩ := List.mem_flatten.mp hp
      obtain ⟨i, hi, rfl⟩ := List.mem_map.mp hrow
      have hend := hroom i hi
      have hlast := positionRow_le hw hp
      have hlen := h.seqLen i (hw.bound i hi)
      omega
    omega

/-- A wave is staged if it is admitted; otherwise it is refused. -/
theorem Verifiable.prepare_wave (h : v.Verifiable target context) (hw : v.IsWave wave o width) :
    ∃ a, Assigned v.layout (wave.map v.rank) a ∧
      (v.Admitted context wave o width →
        prepareMtpTargetInputs v.layout v.numSpeculativeTokens v.maxSeqLen (v.waveBatch wave o width)
          (wave.map (v.tokenRow o width)) (wave.map (v.positionRow o width)) width =
        .ok (staged v a wave o width)) ∧
      (¬ v.Admitted context wave o width → ∃ e,
        prepareMtpTargetInputs v.layout v.numSpeculativeTokens v.maxSeqLen (v.waveBatch wave o width)
          (wave.map (v.tokenRow o width)) (wave.map (v.positionRow o width)) width = .error e) := by
  have hrows : (v.waveBatch wave o width).rows.length = wave.length := by simp [waveBatch]
  obtain ⟨a, hok, ha⟩ := h.part_assigned hw.bound hw.nodup hw.ne hrows (by simp [waveBatch])
  have hle := hw.le
  have hpos := hw.pos
  have htokens : ¬ ((wave.map (v.tokenRow o width)).length ≠ (v.waveBatch wave o width).rows.length ∨
      (wave.map (v.tokenRow o width)).any fun row => row.length ≠ v.layout.decodeSeq) := by
    simp only [hrows, List.length_map, ne_eq, not_true_eq_false, false_or, List.any_map,
      List.any_eq_true, Function.comp_apply, decide_eq_true_eq, not_exists, not_and, not_not]
    exact fun i hi => h.length_tokenRow hw hi
  have hpositions : ¬ ((wave.map (v.positionRow o width)).length ≠
      (v.waveBatch wave o width).rows.length ∨
      (wave.map (v.positionRow o width)).any fun row => row.length ≠ v.layout.decodeSeq) := by
    simp only [hrows, List.length_map, ne_eq, not_true_eq_false, false_or, List.any_map,
      List.any_eq_true, Function.comp_apply, decide_eq_true_eq, not_exists, not_and, not_not]
    exact fun i _ => length_positionRow hw
  have hroom : (a.perRankCounts.zipIdx.find? fun e => v.layout.decodeTokens < e.1 * width) = none := by
    rw [List.find?_eq_none]
    rintro ⟨count, rank⟩ hmem
    have hcount := count_le_of_assigned ha (h.part_fits hw.bound hw.nodup) count
      (List.fst_mem_of_mem_zipIdx hmem)
    have hmul : count * width ≤ v.layout.decodeBatch * v.layout.decodeSeq := Nat.mul_le_mul hcount hle
    simp only [decide_eq_true_eq, not_lt, h.tokens]
    exact hmul
  have hprepare : prepareMtpTargetInputs v.layout v.numSpeculativeTokens v.maxSeqLen
      (v.waveBatch wave o width) (wave.map (v.tokenRow o width)) (wave.map (v.positionRow o width))
      width = prepareDecodeInputs v.layout v.numSpeculativeTokens v.maxSeqLen
        (v.waveBatch wave o width) a width (wave.map (v.positionRow o width))
        (wave.map (v.tokenRow o width)) := by
    unfold prepareMtpTargetInputs
    dsimp only
    rw [if_neg htokens, if_neg (by omega), if_neg hpositions, hok]
    show (if width < v.layout.decodeSeq ∧ a.perRankCounts.any (fun count => 1 < count) then _
      else _) = _
    rw [if_neg (hw.not_crowded ha)]
  refine ⟨a, ha, fun hadmitted => ?_, fun hrefused => ?_⟩
  · have hmax := (h.positions_lt_iff hw).mpr hadmitted.1
    rw [hprepare, prepareDecodeInputs]
    rw [if_neg (by omega), if_neg ?_, hroom]
    · rfl
    · rintro ⟨hspec, hparams, hlen⟩
      exact hlen ((hadmitted.2 hspec hparams).trans hrows.symm)
  · rw [hprepare, prepareDecodeInputs]
    by_cases hmax : (wave.map (v.positionRow o width)).flatten.foldr max 0 < v.maxSeqLen
    · rw [if_neg (by omega), if_pos ?_]
      · exact ⟨_, rfl⟩
      · by_contra haligned
        refine hrefused ⟨(h.positions_lt_iff hw).mp hmax, fun hspec hparams => ?_⟩
        by_contra hlen
        exact haligned ⟨hspec, hparams, fun heq => hlen (heq.trans hrows)⟩
    · rw [if_pos (by omega)]
      exact ⟨_, rfl⟩

variable (v context) in
/-- The blocks of a request hold its context and its first `m` inputs. -/
def Holds (s : σ) (i m : Nat) : Prop :=
  ∀ q < (context i).length + m,
    v.kernel.holds s (v.row i).requestId q = (context i ++ v.inputs i)[q]?

theorem Holds.mono {s : σ} {m m' : Nat} (h : v.Holds context s i m) (hle : m' ≤ m) :
    v.Holds context s i m' :=
  fun q hq => h q (by omega)

/-- What the device holds behind the context of a request. -/
theorem getElem?_context (hk : (context i).length + o + k = j) :
    (context i ++ v.inputs i)[j]? = (v.inputs i)[o + k]? := by
  rw [List.getElem?_append_right (by omega), show j - (context i).length = o + k by omega]

theorem stagedRow_get (ha : Assigned v.layout (wave.map v.rank) a) (hj : wave[j]? = some i) (hk : k < width) :
    v.StagedRow wave width (v.rank i) (a.localRows.getD j 0 * v.layout.decodeSeq + k) i k := by
  have hrank : (wave.map v.rank)[j]? = some (v.rank i) := by
    rw [List.getElem?_map, hj]
    rfl
  obtain ⟨localRow, hlocal, hrow⟩ := ha.localRow j (v.rank i) hrank
  rw [List.length_map] at hrow
  refine ⟨List.mem_of_getElem? hj, rfl, hk, j, localRow, hj, hrow, ?_⟩
  rw [List.getD_eq_getElem?_getD, hlocal]
  rfl

section Dispatch
variable (h : v.Verifiable target context) (hw : v.IsWave wave o width)
  (ha : Assigned v.layout (wave.map v.rank) a) {s s' : σ} {output : MainDecodeOutput H L}
  (hrun : v.kernel.run s (staged v a wave o width) = (s', .ok output))
include h hw ha hrun

omit h hw hrun in
theorem exists_stagedRow (hi : i ∈ wave) (hk : k < width) :
    ∃ row, v.StagedRow wave width (v.rank i) row i k := by
  obtain ⟨j, hj⟩ := List.mem_iff_getElem?.mp hi
  exact ⟨_, stagedRow_get ha hj hk⟩

theorem holds_wave (hi : i ∈ wave) (hs : v.Holds context s i o) :
    v.Holds context s' i (o + width) := by
  intro q hq
  have hcons := consistent_staged h hw ha
  by_cases hlt : q < (context i).length + o
  · rw [h.computes.kept hrun hcons, hs q hlt]
    intro token rank row hactive
    obtain ⟨i', k, hs', hid, rfl, -⟩ := staged_of_active ha h hw hactive
    obtain rfl := h.ids_inj (hw.bound i hi) (hw.bound i' hs'.mem) hid
    omega
  · obtain ⟨k, rfl⟩ : ∃ k, q = (context i).length + o + k := ⟨_, (Nat.add_sub_cancel' (by omega)).symm⟩
    obtain ⟨row, hrow⟩ : ∃ row, v.StagedRow wave width (v.rank i) row i k :=
      exists_stagedRow ha hi (by omega)
    obtain ⟨token, htoken, hactive⟩ := active_of_staged ha h hw hrow
    rw [h.computes.written hrun hcons hactive, getElem?_context rfl, htoken]

theorem holds_other {m : Nat} (hi : i < v.batch.rows.length) (hnot : i ∉ wave)
    (hs : v.Holds context s i m) : v.Holds context s' i m := by
  intro q hq
  rw [h.computes.kept hrun (consistent_staged h hw ha), hs q hq]
  intro token rank row hactive
  obtain ⟨i', k, hs', hid, -, -⟩ := staged_of_active ha h hw hactive
  obtain rfl := h.ids_inj hi (hw.bound i' hs'.mem) hid
  exact hnot hs'.mem

/-- The predictions that the kernel returns for the rows of a request. -/
theorem predicts_wave (hrow : v.StagedRow wave width rank row i k) (hs : v.Holds context s i o) :
    output.sampledIds rank row = target.next (context i ++ (v.inputs i).take (o + k + 1)) ∧
      output.preHcHidden rank row = target.hidden (context i ++ (v.inputs i).take (o + k + 1)) ∧
      output.logits rank row = target.logits (context i ++ (v.inputs i).take (o + k + 1)) := by
  have hlen := h.length_inputs (hw.bound i hrow.mem)
  have hk := hrow.offset
  have hdepth := hw.depth
  obtain ⟨token, htoken, hactive⟩ := active_of_staged ha h hw hrow
  refine h.computes.predicts hrun (consistent_staged h hw ha) hactive ?_ ?_
  · rw [List.length_append, List.length_take]
    omega
  · intro q hq
    rw [holds_wave h hw ha hrun hrow.mem hs q (by omega)]
    by_cases hlt : q < (context i).length
    · rw [List.getElem?_append_left hlt, List.getElem?_append_left hlt]
    · rw [List.getElem?_append_right (by omega), List.getElem?_append_right (by omega),
        List.getElem?_take_of_lt (by omega)]

/-- What a request of a wave reads. -/
theorem reads_wave (hj : wave[j]? = some i) (hs : v.Holds context s i o) :
    let rowStart := a.localRows.getD j 0 * v.layout.decodeSeq
    target.Reads (context i) (v.inputs i) o width
      (fun k => output.sampledIds (v.rank i) (rowStart + k))
      (fun k => output.preHcHidden (v.rank i) (rowStart + k))
      (fun k => output.logits (v.rank i) (rowStart + k)) (v.positionRow o width i) := by
  have hread : ∀ k < width, _ := fun k hk =>
    predicts_wave h hw ha hrun (stagedRow_get ha hj hk) hs
  have hi := hw.bound i (List.mem_of_getElem? hj)
  refine ⟨fun k hk => (hread k hk).1, fun k hk => (hread k hk).2.1, fun k hk => ?_, fun ho => ?_⟩
  · rw [List.getD_eq_getElem?_getD, positionRow_get hk, h.seqLen i hi]
    show (context i).length + 1 - 1 + o + k + 1 = (context i).length + (o + k) + 1
    omega
  · have hfirst := (hread 0 hw.pos).2.2
    subst ho
    exact hfirst

end Dispatch

variable (v target context) in
/-- How many drafts of a request the target predicts. -/
def matched (i : Nat) : Nat := target.matched (context i) (v.row i).tokenId (v.draftsOf i)

variable (v target context) in
/-- Whether a request goes on behind its first `m` inputs. -/
def goesOn (m i : Nat) : Bool := m ≤ v.matched target context i + 1 ∧ m ≠ v.numDrafts + 1

variable (v target context) in
/-- A request behind its first `m` inputs. -/
def outcome (m i : Nat) : Progress H L :=
  if v.goesOn target context m i then target.waiting (context i) (v.inputs i) m
  else target.finished (context i) (v.inputs i) (v.matched target context i)

variable (v target context) in
/-- A request whose drafts before `o` are accepted. -/
def start (o i : Nat) : Progress H L := target.advanced (context i) (v.inputs i) o

/-- One request of a wave. -/
theorem acceptRequest_eq (h : v.Verifiable target context) (hw : v.IsWave wave o width)
    (ha : Assigned v.layout (wave.map v.rank) a) {s s' : σ} {output : MainDecodeOutput H L}
    (hrun : v.kernel.run s (staged v a wave o width) = (s', .ok output))
    {acc : (Nat → Progress H L) × List Nat} (hj : wave[j]? = some i) (hs : v.Holds context s i o) (hm : o ≤ v.matched target context i)
    (hacc : acc.1 i = v.start target context o i) :
    acceptRequest v.layout (staged v a wave o width) output (wave.map (v.positionRow o width))
        v.drafts v.numDrafts o width acc (i, j) =
      (Function.update acc.1 i (v.outcome target context (o + width) i),
        if v.goesOn target context (o + width) i then acc.2 ++ [i] else acc.2) := by
  have hi := hw.bound i (List.mem_of_getElem? hj)
  have hlen := h.length_draftsOf hi
  have hdepth := hw.depth
  have hrank : (staged v a wave o width).ranks.getD j 0 = v.rank i := by
    show a.ranks.getD j 0 = _
    rw [ha.ranks_eq, List.getD_eq_getElem?_getD, List.getElem?_map, hj]
    rfl
  have hposition : (wave.map (v.positionRow o width)).getD j [] = v.positionRow o width i := by
    rw [List.getD_eq_getElem?_getD, List.getElem?_map, hj]
    rfl
  have hlocal : (staged v a wave o width).localRows.getD j 0 = a.localRows.getD j 0 := rfl
  have houtcome : (if v.matched target context i + 1 < o + width ∨ o + width = v.numDrafts + 1 then
        (target.finished (context i) (v.inputs i) (v.matched target context i), false)
      else (target.waiting (context i) (v.inputs i) (o + width), true)) =
      (v.outcome target context (o + width) i, v.goesOn target context (o + width) i) := by
    unfold outcome goesOn
    split
    next hdone => simp [show ¬ (o + width ≤ v.matched target context i + 1 ∧
      o + width ≠ v.numDrafts + 1) by omega]
    next hgoes => simp [show o + width ≤ v.matched target context i + 1 ∧
      o + width ≠ v.numDrafts + 1 by omega]
  have hrows := Target.acceptRows_eq hw.pos (reads_wave h hw ha hrun hj hs) hm (by rw [hlen]; exact hdepth)
  rw [hlen] at hrows
  have hrows' := hrows.trans houtcome
  unfold acceptRequest
  dsimp only
  rw [hrank, hposition, hacc, hlocal]
  erw [hrows']

variable (v) in
/-- Every position that was dispatched leaves room for the token behind it. -/
def Below (device : Device σ) : Prop :=
  ∀ inputs ∈ device.dispatched, ∀ rank row, ∀ p ∈ inputs.positionIds rank row, p < v.maxSeqLen

variable (v) in
/-- What a dispatch leaves of the device: its positions have room, and the rows of requests that are
not in the batch stay as they are. -/
structure Keeps (device device' : Device σ) : Prop where
  below : v.Below device → v.Below device'
  others : ∀ r, (∀ i < v.batch.rows.length, (v.row i).requestId ≠ r) → ∀ q,
    v.kernel.holds device'.state r q = v.kernel.holds device.state r q

theorem Keeps.refl (device : Device σ) : v.Keeps device device := ⟨id, fun _ _ _ => rfl⟩

theorem Keeps.trans {device device' device'' : Device σ} (h : v.Keeps device device')
    (h' : v.Keeps device' device'') : v.Keeps device device'' :=
  ⟨fun hb => h'.below (h.below hb), fun r hr q => (h'.others r hr q).trans (h.others r hr q)⟩

theorem positionIds_lt (h : v.Verifiable target context) (hw : v.IsWave wave o width)
    (hroom : ∀ i ∈ wave, (context i).length + o + width ≤ v.maxSeqLen) {p : Nat}
    (hp : p ∈ (staged v a wave o width).positionIds rank row) : p < v.maxSeqLen := by
  have hp' : p ∈ (wave.map (v.positionRow o width)).getD (stagedIndex a rank row) [] := hp
  rw [List.getD_eq_getElem?_getD, List.getElem?_map] at hp'
  cases hget : wave[stagedIndex a rank row]? with
  | none =>
    rw [hget] at hp'
    cases hp'
  | some i =>
    rw [hget] at hp'
    have hi := List.mem_of_getElem? hget
    have hpos := hw.pos
    have hend := hroom i hi
    have hlast := positionRow_le hw hp'
    have hlen := h.seqLen i (hw.bound i hi)
    omega

variable {active waveIndices kept : List Nat} {device : Device σ} {progress : Nat → Progress H L}

/-- The requests of a wave, with what the loop hands to the wave. -/
theorem verifyWave_inputs (h : v.Verifiable target context)
    (hactive : ∀ i ∈ active, i < v.batch.rows.length) (hwave : rowsAt active waveIndices = wave) :
    v.verifyWave active o width (progress, kept) waveIndices = (do
      let inputs ← MonadExcept.ofExcept (prepareMtpTargetInputs v.layout v.numSpeculativeTokens
        v.maxSeqLen (v.waveBatch wave o width) (wave.map (v.tokenRow o width))
        (wave.map (v.positionRow o width)) width)
      let output ← executeMainDecode v.kernel inputs
      return wave.zipIdx.foldl (acceptRequest v.layout inputs output
        (wave.map (v.positionRow o width)) v.drafts v.numDrafts o width) (progress, kept) :
          Raising String (Device σ) ((Nat → Progress H L) × List Nat)) := by
  have hbound : ∀ i ∈ wave, i < v.batch.rows.length := by
    intro i hi
    rw [← hwave, rowsAt, List.mem_filterMap] at hi
    obtain ⟨j, -, hj⟩ := hi
    exact hactive i (List.mem_of_getElem? hj)
  have hbatch : { selectDecodeBatchRows v.batch wave with
      rows := (selectDecodeBatchRows v.batch wave).rows.map fun row =>
        { row with seqLen := row.seqLen + o + width - 1 } } = v.waveBatch wave o width := by
    rw [select_rows hbound, waveBatch, List.map_map]
    rfl
  unfold verifyWave
  dsimp only
  rw [hwave, positionRows_eq hactive, h.activeRows_eq hactive, rowsAt_map, rowsAt_map, hwave, hbatch]

variable (kept progress) in
/-- A wave that is staged is dispatched: it goes on with what the kernel returns, or raises. -/
theorem exec_dispatchWave (h : v.Verifiable target context)
    (hactive : ∀ i ∈ active, i < v.batch.rows.length) (hwave : rowsAt active waveIndices = wave)
    {inputs : DecodeInputs} (hprepare : prepareMtpTargetInputs v.layout v.numSpeculativeTokens
      v.maxSeqLen (v.waveBatch wave o width) (wave.map (v.tokenRow o width))
      (wave.map (v.positionRow o width)) width = .ok inputs) {s' : σ}
    {result : Except DispatchError (MainDecodeOutput H L)}
    (hrun : v.kernel.run device.state inputs = (s', result)) :
    exec (v.verifyWave active o width (progress, kept) waveIndices) device =
      (result.map (fun output => wave.zipIdx.foldl (acceptRequest v.layout inputs output
          (wave.map (v.positionRow o width)) v.drafts v.numDrafts o width) (progress, kept))
        |>.mapError (DispatchError.message inputs),
        ⟨s', device.dispatched ++ [inputs]⟩) := by
  have hmain : exec (executeMainDecode v.kernel inputs) device =
      (result.mapError (DispatchError.message inputs), ⟨s', device.dispatched ++ [inputs]⟩) := by
    unfold executeMainDecode
    rw [exec_bind_ok (exec_get device), hrun]
    exact (exec_bind_ok (exec_set _ device)).trans (exec_ofExcept _ _)
  rw [verifyWave_inputs h hactive hwave, exec_ofExcept_ok hprepare]
  cases result with
  | error e => exact exec_bind_error hmain
  | ok output => exact exec_bind_ok hmain

/-- Whatever a dispatch does, its positions have room, and it leaves the other requests alone. -/
theorem keeps_dispatch (h : v.Verifiable target context) (hw : v.IsWave wave o width)
    (ha : Assigned v.layout (wave.map v.rank) a)
    (hroom : ∀ i ∈ wave, (context i).length + o + width ≤ v.maxSeqLen) {s' : σ}
    {result : Except DispatchError (MainDecodeOutput H L)}
    (hrun : v.kernel.run device.state (staged v a wave o width) = (s', result)) :
    v.Keeps device ⟨s', device.dispatched ++ [staged v a wave o width]⟩ := by
  refine ⟨fun hbelow inputs hmem => ?_, fun r hr q => ?_⟩
  · rcases List.mem_append.mp hmem with hmem | hmem
    · exact hbelow inputs hmem
    · obtain rfl := List.mem_singleton.mp hmem
      exact fun rank row p hp => positionIds_lt h hw hroom hp
  · have hnone : ∀ position token rank row,
        ¬ (staged v a wave o width).Active v.layout.decodeSeq r position token rank row := by
      intro position token rank row hactive
      obtain ⟨i, k, hs, hid, -, -⟩ := staged_of_active ha h hw hactive
      exact hr i (hw.bound i hs.mem) hid.symm
    cases result with
    | error e => exact h.computes.spared hrun (consistent_staged h hw ha) hnone q
    | ok output => exact h.computes.kept hrun (consistent_staged h hw ha) (hnone q)

variable (kept) in
/-- A wave that is admitted settles its requests, unless the kernel fails. -/
theorem exec_verifyWave (h : v.Verifiable target context)
    (hactive : ∀ i ∈ active, i < v.batch.rows.length) (hwave : rowsAt active waveIndices = wave)
    (hw : v.IsWave wave o width) (hadmitted : v.Admitted context wave o width)
    (hm : ∀ i ∈ wave, o ≤ v.matched target context i)
    (hprogress : ∀ i ∈ wave, progress i = v.start target context o i)
    (hholds : ∀ i ∈ wave, v.Holds context device.state i o) :
    ∃ device', v.Keeps device device' ∧
      ((exec (v.verifyWave active o width (progress, kept) waveIndices) device =
          (.ok (settle (v.outcome target context (o + width)) wave progress,
            kept ++ wave.filter (v.goesOn target context (o + width))), device') ∧
        (∀ i ∈ wave, v.Holds context device'.state i (o + width)) ∧
        (∀ i < v.batch.rows.length, i ∉ wave → ∀ m, v.Holds context device.state i m →
          v.Holds context device'.state i m)) ∨
      (¬ v.kernel.Answers ∧ ∃ e,
        exec (v.verifyWave active o width (progress, kept) waveIndices) device =
          (.error e, device'))) := by
  obtain ⟨a, ha, hprepare, -⟩ := h.prepare_wave hw
  obtain ⟨s', result, hrun⟩ :
      ∃ s' result, v.kernel.run device.state (staged v a wave o width) = (s', result) := ⟨_, _, rfl⟩
  have hexec := exec_dispatchWave kept progress h hactive hwave
    (hprepare hadmitted) hrun
  refine ⟨_, keeps_dispatch h hw ha hadmitted.1 hrun, ?_⟩
  cases result with
  | error e =>
    refine .inr ⟨fun hanswers => ?_, _, hexec⟩
    obtain ⟨_, _, hok⟩ := hanswers device.state (staged v a wave o width)
    rw [hrun] at hok
    cases hok
  | ok output =>
    refine .inl ⟨hexec.trans ?_, fun i hi => holds_wave h hw ha hrun hi (hholds i hi),
      fun i hi hnot m hs => holds_other h hw ha hrun hi hnot hs⟩
    have hkeys : (wave.zipIdx.map fun e => e.1) = wave := List.zipIdx_map_fst 0 wave
    have hstep : ∀ e ∈ wave.zipIdx, ∀ acc : (Nat → Progress H L) × List Nat,
        acc.1 e.1 = v.start target context o e.1 → acceptRequest v.layout (staged v a wave o width)
          output (wave.map (v.positionRow o width)) v.drafts v.numDrafts o width acc e =
        (Function.update acc.1 e.1 (v.outcome target context (o + width) e.1),
          if v.goesOn target context (o + width) e.1 then acc.2 ++ [e.1] else acc.2) :=
      fun e he acc hacc => acceptRequest_eq h hw ha hrun (List.mem_zipIdx_iff_getElem?.mp he)
        (hholds e.1 (List.fst_mem_of_mem_zipIdx he)) (hm e.1 (List.fst_mem_of_mem_zipIdx he)) hacc
    have hround := foldl_round hstep (by rw [hkeys]; exact hw.nodup)
      (fun e he => hprogress e.1 (List.fst_mem_of_mem_zipIdx he)) kept
    rw [hkeys] at hround
    rw [← hround]
    rfl

variable (progress kept device) in
/-- A wave that is not admitted is refused. -/
theorem exec_verifyWave_error (h : v.Verifiable target context)
    (hactive : ∀ i ∈ active, i < v.batch.rows.length) (hwave : rowsAt active waveIndices = wave)
    (hw : v.IsWave wave o width) (hrefused : ¬ v.Admitted context wave o width) :
    ∃ e, exec (v.verifyWave active o width (progress, kept) waveIndices) device = (.error e, device) := by
  obtain ⟨a, -, -, hprepare⟩ := h.prepare_wave hw
  obtain ⟨e, he⟩ := hprepare hrefused
  rw [verifyWave_inputs h hactive hwave, he]
  exact ⟨e, exec_bind_error (exec_ofExcept _ _)⟩

end PyptoServing.Runner.Verification
