import PyptoServing.Runner.MtpRounds

/-!
# The verification loop

Every chunk settles the requests that it rejects and hands the others on, until all of them are
done; it fails at the first wave that the host refuses or that the kernel does not answer.
-/
namespace PyptoServing.Runner.Verification

open Lib Lib.Raising Lib.Worklist Memory Sched

variable {σ H L : Type} {v : Verification σ H L} {target : Target H L} {context : Nat → List Int}
  {active kept : List Nat} {o width : Nat} {progress : Nat → Progress H L} {device : Device σ}

variable (kept) in
/-- The waves of a chunk, one after the other. -/
theorem exec_waves (h : v.Verifiable target context) (hactive : ∀ i ∈ active, i < v.batch.rows.length)
    {waves : List (List Nat)} (hwaves : ∀ indices ∈ waves, v.IsWave (rowsAt active indices) o width)
    (hnodup : (waves.flatMap (rowsAt active)).Nodup)
    (hm : ∀ i ∈ waves.flatMap (rowsAt active), o ≤ v.matched target context i)
    (hprogress : ∀ i ∈ waves.flatMap (rowsAt active), progress i = v.start target context o i)
    (hholds : ∀ i ∈ waves.flatMap (rowsAt active), v.Holds context device.state i o) :
    ((∀ indices ∈ waves, v.Admitted context (rowsAt active indices) o width) ∧
      ∃ device', exec (waves.foldlM (v.verifyWave active o width) (progress, kept)) device =
          (.ok (settle (v.outcome target context (o + width)) (waves.flatMap (rowsAt active)) progress,
            kept ++ (waves.flatMap (rowsAt active)).filter (v.goesOn target context (o + width))),
            device') ∧
        (∀ i ∈ waves.flatMap (rowsAt active), v.Holds context device'.state i (o + width)) ∧
        (∀ i < v.batch.rows.length, i ∉ waves.flatMap (rowsAt active) → ∀ m,
          v.Holds context device.state i m → v.Holds context device'.state i m) ∧
        v.Keeps device device') ∨
    (¬ ((∀ indices ∈ waves, v.Admitted context (rowsAt active indices) o width) ∧
        v.kernel.Answers) ∧
      ∃ e device', exec (waves.foldlM (v.verifyWave active o width) (progress, kept)) device =
        (.error e, device') ∧ v.Keeps device device') := by
  induction waves generalizing progress kept device with
  | nil => exact .inl ⟨by simp, device, by simp, by simp, fun _ _ _ _ => id, .refl _⟩
  | cons indices waves ih =>
    rw [List.flatMap_cons] at hnodup hm hprogress hholds ⊢
    obtain ⟨-, hnodup', hdisjoint⟩ := List.nodup_append'.mp hnodup
    have hwave := hwaves indices (by simp)
    rw [List.foldlM_cons]
    by_cases hadmitted : v.Admitted context (rowsAt active indices) o width
    · obtain ⟨device₁, hkeeps, ⟨hexec, hnew, hother⟩ | ⟨hfails, e, herror⟩⟩ :=
        exec_verifyWave kept h hactive rfl hwave hadmitted
          (fun i hi => hm i (List.mem_append_left _ hi))
          (fun i hi => hprogress i (List.mem_append_left _ hi))
          (fun i hi => hholds i (List.mem_append_left _ hi))
      swap
      · exact .inr ⟨fun hall => hfails hall.2, e, device₁, exec_bind_error herror, hkeeps⟩
      rw [exec_bind_ok hexec, settle_append, List.filter_append, ← List.append_assoc]
      have hmem : ∀ i ∈ waves.flatMap (rowsAt active), i < v.batch.rows.length := by
        intro i hi
        obtain ⟨indices', hindices', hi⟩ := List.mem_flatMap.mp hi
        exact (hwaves indices' (by simp [hindices'])).bound i hi
      have hnew' : ∀ i ∈ waves.flatMap (rowsAt active), i ∉ rowsAt active indices :=
        fun i hi hi' => hdisjoint hi' hi
      rcases ih _ (fun indices' hindices' => hwaves indices' (by simp [hindices'])) hnodup'
        (fun i hi => hm i (List.mem_append_right _ hi))
        (fun i hi => (settle_of_notMem (hnew' i hi)).trans (hprogress i (List.mem_append_right _ hi)))
        (fun i hi => hother i (hmem i hi) (hnew' i hi) o (hholds i (List.mem_append_right _ hi)))
        with ⟨hall, device', hrest, hheld, hother', hkeeps'⟩ | ⟨hsome, e, device', hrest, hkeeps'⟩
      · refine .inl ⟨List.forall_mem_cons.mpr ⟨hadmitted, hall⟩, device', hrest, fun i hi => ?_,
          fun i hi hnot m hs => ?_, hkeeps.trans hkeeps'⟩
        · rcases List.mem_append.mp hi with hi | hi
          · exact hother' i (hwave.bound i hi) (hdisjoint hi) _ (hnew i hi)
          · exact hheld i hi
        · rw [List.mem_append, not_or] at hnot
          exact hother' i hi hnot.2 m (hother i hi hnot.1 m hs)
      · exact .inr ⟨fun hall => hsome ⟨(List.forall_mem_cons.mp hall.1).2, hall.2⟩, e, device', hrest,
          hkeeps.trans hkeeps'⟩
    · obtain ⟨e, herror⟩ := exec_verifyWave_error kept device progress h hactive rfl hwave hadmitted
      exact .inr ⟨fun hall => hadmitted (hall.1 indices (by simp)), e, device, exec_bind_error herror,
        .refl _⟩

variable (v) in
/-- The width of the chunk that starts at input `o`. -/
def realWidth (o : Nat) : Nat := min v.layout.decodeSeq (v.numDrafts + 1 - o)

variable (v target context) in
/-- A request that is done. -/
def done (i : Nat) : Progress H L :=
  target.finished (context i) (v.inputs i) (v.matched target context i)

variable (v target context) in
/-- Whether the host dispatches the chunk that starts at input `o`: it ends inside the context of
each request that reaches it, and where sampling parameters are staged all requests reach it, on
different ranks if it is partial. -/
def ChunkAdmitted (o : Nat) : Prop :=
  (∀ i < v.batch.rows.length, o ≤ v.matched target context i →
    (context i).length + o + v.realWidth o ≤ v.maxSeqLen) ∧
  (v.numSpeculativeTokens ≠ 1 → v.batch.samplingParams ≠ [] →
    (∃ i < v.batch.rows.length, o ≤ v.matched target context i) →
    (∀ i < v.batch.rows.length, o ≤ v.matched target context i) ∧
      (v.realWidth o < v.layout.decodeSeq →
        ((List.range v.batch.rows.length).map v.rank).Nodup))

variable (v target context) in
/-- The loop at the start of a chunk, with the requests that reach it. -/
structure Ready (o : Nat) (progress : Nat → Progress H L) (active : List Nat) (device : Device σ) :
    Prop where
  nodup : active.Nodup
  mem : ∀ i, i ∈ active ↔ i < v.batch.rows.length ∧ o ≤ v.matched target context i
  entry : ∀ i ∈ active, progress i = v.start target context o i
  holds : ∀ i ∈ active, v.Holds context device.state i o
  done : ∀ i < v.batch.rows.length, i ∉ active → progress i = v.done target context i
  kept : ∀ i < v.batch.rows.length, i ∉ active →
    v.Holds context device.state i (v.matched target context i + 1)

variable (v target context) in
/-- The loop behind a chunk, with the requests that wait for the draft at `o`. -/
structure Waiting (o : Nat) (progress : Nat → Progress H L) (active : List Nat)
    (device : Device σ) : Prop where
  nodup : active.Nodup
  mem : ∀ i, i ∈ active ↔
    i < v.batch.rows.length ∧ o ≤ v.matched target context i + 1 ∧ o ≠ v.numDrafts + 1
  entry : ∀ i ∈ active, progress i = target.waiting (context i) (v.inputs i) o
  holds : ∀ i ∈ active, v.Holds context device.state i o
  done : ∀ i < v.batch.rows.length, i ∉ active → progress i = v.done target context i
  kept : ∀ i < v.batch.rows.length, i ∉ active →
    v.Holds context device.state i (v.matched target context i + 1)

theorem Verifiable.matched_le (h : v.Verifiable target context) {i : Nat}
    (hi : i < v.batch.rows.length) : v.matched target context i ≤ v.numDrafts :=
  Target.matched_le.trans_eq (h.length_draftsOf hi)

theorem realWidth_pos (h : v.Verifiable target context) (ho : o ≤ v.numDrafts) :
    0 < v.realWidth o := by
  have hwidth := h.width
  unfold realWidth
  omega

theorem realWidth_le : v.realWidth o ≤ v.layout.decodeSeq := Nat.min_le_left _ _

theorem add_realWidth_le (ho : o ≤ v.numDrafts) : o + v.realWidth o ≤ v.numDrafts + 1 := by
  unfold realWidth
  omega

/-- The waiting requests either go on or are done. -/
theorem resolve_waiting (h : v.Verifiable target context)
    (hwait : v.Waiting target context o progress active device) (hpos : 0 < o)
    (ho : o ≤ v.numDrafts) : ∃ progress' active',
      active.foldlM (resolvePending v.drafts o) (progress, []) =
          (.ok (progress', active') : Except String _) ∧
        v.Ready target context o progress' active' device := by
  have hbound : ∀ i ∈ active, i < v.batch.rows.length := fun i hi => ((hwait.mem i).mp hi).1
  have hstep : ∀ i ∈ active, ∀ acc : (Nat → Progress H L) × List Nat,
      acc.1 i = target.waiting (context i) (v.inputs i) o →
      resolvePending v.drafts o acc i = pure (Function.update acc.1 i
        (if o ≤ v.matched target context i then v.start target context o i
          else v.done target context i),
        if decide (o ≤ v.matched target context i) then acc.2 ++ [i] else acc.2) := by
    intro i hi acc hacc
    have hlen := h.length_draftsOf (hbound i hi)
    have hdrafts : v.drafts.getD i [] = v.draftsOf i := rfl
    refine (Target.resolvePending_eq hdrafts hpos (by omega) ((hwait.mem i).mp hi).2.1 hacc).trans ?_
    have hm : target.matched (context i) (v.row i).tokenId (v.draftsOf i) =
        v.matched target context i := rfl
    rw [hm]
    by_cases hle : o ≤ v.matched target context i
    · rw [if_pos hle, if_pos hle, if_pos (decide_eq_true hle)]
      rfl
    · rw [if_neg hle, if_neg hle, if_neg (by simpa using hle)]
      rfl
  have hround := foldlM_round hstep (by rw [List.map_id']; exact hwait.nodup) hwait.entry []
  rw [List.map_id', List.nil_append] at hround
  refine ⟨_, _, hround, ?_, ?_, ?_, ?_, ?_, ?_⟩
  · exact hwait.nodup.filter _
  · intro i
    rw [List.mem_filter, hwait.mem]
    simp only [decide_eq_true_eq]
    omega
  · intro i hi
    obtain ⟨hi, hm⟩ := List.mem_filter.mp hi
    rw [settle_of_mem hi, if_pos (of_decide_eq_true hm)]
  · exact fun i hi => hwait.holds i (List.mem_of_mem_filter hi)
  · intro i hi hnot
    by_cases hmem : i ∈ active
    · rw [settle_of_mem hmem, if_neg]
      intro hm
      exact hnot (List.mem_filter.mpr ⟨hmem, decide_eq_true hm⟩)
    · rw [settle_of_notMem hmem, hwait.done i hi hmem]
  · intro i hi hnot
    by_cases hmem : i ∈ active
    · have hm : ¬ o ≤ v.matched target context i := fun hm =>
        hnot (List.mem_filter.mpr ⟨hmem, decide_eq_true hm⟩)
      have heq : v.matched target context i + 1 = o := by
        have hle := ((hwait.mem i).mp hmem).2.1
        omega
      rw [heq]
      exact hwait.holds i hmem
    · exact hwait.kept i hi hmem

/-- A chunk is admitted if all of its waves are. -/
theorem chunkAdmitted_iff (h : v.Verifiable target context)
    (hready : v.Ready target context o progress active device) (hne : active ≠ [])
    {waves : List (List Nat)} (hwaves : v.ChunkWaves active o (v.realWidth o) waves) :
    (∀ indices ∈ waves, v.Admitted context (rowsAt active indices) o (v.realWidth o)) ↔
      v.ChunkAdmitted target context o := by
  have hsub : ∀ indices ∈ waves, ∀ i ∈ rowsAt active indices, i ∈ active := fun indices hindices i hi =>
    (hwaves.mem i).mp (List.mem_flatMap.mpr ⟨indices, hindices, hi⟩)
  constructor
  · intro hall
    refine ⟨fun i hi hm => ?_, fun hspec hparams _ => ?_⟩
    · obtain ⟨indices, hindices, hmem⟩ :=
        List.mem_flatMap.mp ((hwaves.mem i).mpr ((hready.mem i).mpr ⟨hi, hm⟩))
      exact (hall indices hindices).1 i hmem
    · obtain ⟨i, hi⟩ := List.exists_mem_of_ne_nil _ hne
      obtain ⟨indices, hindices, -⟩ := List.mem_flatMap.mp ((hwaves.mem i).mpr hi)
      have hwave := hwaves.isWave indices hindices
      have hlen := ((hall indices hindices).2 hspec hparams).symm.trans
        (h.params.resolve_left hparams)
      have hperm : (rowsAt active indices).Perm (List.range v.batch.rows.length) := by
        refine (List.Nodup.subperm hwave.nodup fun i hi => ?_).perm_of_length_le ?_
        · exact List.mem_range.mpr (hwave.bound i hi)
        · rw [List.length_range, hlen]
      refine ⟨fun i hi => ?_, fun hnarrow => ?_⟩
      · exact ((hready.mem i).mp (hsub indices hindices i
          (hperm.mem_iff.mpr (List.mem_range.mpr hi)))).2
      · exact (hperm.map v.rank).nodup_iff.mp (hwave.spread.resolve_left hnarrow.ne)
  · rintro ⟨hroom, hparams⟩ indices hindices
    refine ⟨fun i hi => ?_, fun hspec hne' => ?_⟩
    · obtain ⟨hlt, hm⟩ := (hready.mem i).mp (hsub indices hindices i hi)
      exact hroom i hlt hm
    · obtain ⟨i, hi⟩ := List.exists_mem_of_ne_nil _ hne
      obtain ⟨hall, hspread⟩ := hparams hspec hne' ⟨i, (hready.mem i).mp hi⟩
      have hperm : active.Perm (List.range v.batch.rows.length) :=
        (List.perm_ext_iff_of_nodup hready.nodup List.nodup_range).mpr fun i => by
          rw [hready.mem, List.mem_range]
          exact ⟨fun hi => hi.1, fun hi => ⟨hi, hall i hi⟩⟩
      have hwhole := hwaves.whole ?_ indices hindices
      · rw [hwhole, hperm.length_eq, List.length_range]
        exact h.params.resolve_left hne'
      · by_cases hfull : v.realWidth o = v.layout.decodeSeq
        · exact .inl hfull
        · refine .inr ((hperm.map v.rank).nodup_iff.mpr (hspread ?_))
          have hle : v.realWidth o ≤ v.layout.decodeSeq := realWidth_le
          omega

/-- A chunk that is admitted and answered leaves the requests waiting for the next one; the others
fail. -/
theorem exec_chunk (h : v.Verifiable target context)
    (hready : v.Ready target context o progress active device) (hne : active ≠ [])
    (ho : o ≤ v.numDrafts) :
    (v.ChunkAdmitted target context o ∧ ∃ progress' active' device',
      exec (v.verifyChunk progress active o) device = (.ok (progress', active'), device') ∧
        v.Waiting target context (o + v.realWidth o) progress' active' device' ∧
        v.Keeps device device') ∨
    (¬ (v.ChunkAdmitted target context o ∧ v.kernel.Answers) ∧ ∃ e device',
      exec (v.verifyChunk progress active o) device = (.error e, device') ∧
        v.Keeps device device') := by
  have hpos := realWidth_pos h ho
  have hactive : ∀ i ∈ active, i < v.batch.rows.length := fun i hi => ((hready.mem i).mp hi).1
  obtain ⟨waves, hok, hwaves⟩ := h.exists_waves hactive hready.nodup hne hpos realWidth_le
    (add_realWidth_le ho)
  have hchunk : exec (v.verifyChunk progress active o) device =
      exec (waves.foldlM (v.verifyWave active o (v.realWidth o)) (progress, [])) device :=
    exec_ofExcept_ok hok
  have hm : ∀ i ∈ waves.flatMap (rowsAt active), i ∈ active := fun i hi => (hwaves.mem i).mp hi
  rw [hchunk, ← chunkAdmitted_iff h hready hne hwaves]
  rcases exec_waves [] h hactive hwaves.isWave hwaves.nodup
    (fun i hi => ((hready.mem i).mp (hm i hi)).2) (fun i hi => hready.entry i (hm i hi))
    (fun i hi => hready.holds i (hm i hi)) with ⟨hall, device', hexec, hheld, hother, hkeeps⟩ | hrefused
  · refine .inl ⟨hall, _, _, device', hexec, ⟨?_, ?_, ?_, ?_, ?_, ?_⟩, hkeeps⟩
    · exact hwaves.nodup.filter _
    · intro i
      rw [List.nil_append, List.mem_filter, hwaves.mem, hready.mem]
      simp only [goesOn, ne_eq, Bool.decide_and, Bool.and_eq_true, decide_eq_true_eq]
      have hmatched := fun hi => h.matched_le (i := i) hi
      omega
    · intro i hi
      obtain ⟨hi, hgoes⟩ := List.mem_filter.mp hi
      rw [settle_of_mem hi, outcome, if_pos hgoes]
    · exact fun i hi => hheld i (List.mem_of_mem_filter hi)
    · intro i hi hnot
      by_cases hmem : i ∈ waves.flatMap (rowsAt active)
      · rw [settle_of_mem hmem, outcome, if_neg]
        · rfl
        · exact fun hgoes => hnot (List.mem_filter.mpr ⟨hmem, hgoes⟩)
      · rw [settle_of_notMem hmem]
        exact hready.done i hi fun hi => hmem ((hwaves.mem i).mpr hi)
    · intro i hi hnot
      by_cases hmem : i ∈ waves.flatMap (rowsAt active)
      · have hgoes : ¬ v.goesOn target context (o + v.realWidth o) i = true :=
          fun hgoes => hnot (List.mem_filter.mpr ⟨hmem, hgoes⟩)
        have hmatched := h.matched_le hi
        simp only [goesOn, ne_eq, Bool.decide_and, Bool.and_eq_true, decide_eq_true_eq] at hgoes
        exact (hheld i hmem).mono (by omega)
      · exact hother i hi hmem _ (hready.kept i hi fun hi => hmem ((hwaves.mem i).mpr hi))
  · exact .inr hrefused

variable (v target context) in
/-- The loop is over: every request is done, and the device holds what it accepted. -/
structure Finishes (device : Device σ) (progress' : Nat → Progress H L) (device' : Device σ) :
    Prop where
  done : ∀ i < v.batch.rows.length, progress' i = v.done target context i
  holds : ∀ i < v.batch.rows.length,
    v.Holds context device'.state i (v.matched target context i + 1)
  keeps : v.Keeps device device'

theorem Finishes.after {device' device'' : Device σ} {progress' : Nat → Progress H L}
    (hkeeps : v.Keeps device device')
    (h : v.Finishes target context device' progress' device'') :
    v.Finishes target context device progress' device'' :=
  ⟨h.done, h.holds, hkeeps.trans h.keeps⟩

variable (v target context) in
/-- Whether the host dispatches every chunk from input `o` on. -/
def AdmittedFrom (o : Nat) : Prop :=
  ∀ o' ≤ v.numDrafts, o ≤ o' → v.layout.decodeSeq ∣ o' → v.ChunkAdmitted target context o'

/-- A chunk that no request reaches is not dispatched. -/
theorem admittedFrom_of_unreached (hnone : ∀ i < v.batch.rows.length, v.matched target context i < o) :
    v.AdmittedFrom target context o := by
  intro o' _ hle _
  refine ⟨fun i hi hm => ?_, fun _ _ hreach => ?_⟩
  · have := hnone i hi
    omega
  · obtain ⟨i, hi, hm⟩ := hreach
    have := hnone i hi
    omega

theorem admittedFrom_step (ho : o ≤ v.numDrafts) (hdvd : v.layout.decodeSeq ∣ o) :
    v.AdmittedFrom target context o ↔ v.ChunkAdmitted target context o ∧
      v.AdmittedFrom target context (o + v.realWidth o) := by
  constructor
  · exact fun hall => ⟨hall o ho le_rfl hdvd, fun o' ho' hle => hall o' ho' (by omega)⟩
  · rintro ⟨hhead, hrest⟩ o' ho' hle hdvd'
    by_cases heq : o' = o
    · exact heq ▸ hhead
    · have hnext : o + v.layout.decodeSeq ≤ o' := by
        obtain ⟨c, rfl⟩ := hdvd
        obtain ⟨c', rfl⟩ := hdvd'
        have hlt : c < c' := by
          by_contra hge
          have hmul := Nat.mul_le_mul_left v.layout.decodeSeq (not_lt.mp hge)
          omega
        have hmul := Nat.mul_le_mul_left v.layout.decodeSeq hlt
        rwa [Nat.mul_succ] at hmul
      refine hrest o' ho' ?_ hdvd'
      have hwidth : v.realWidth o ≤ v.layout.decodeSeq := realWidth_le
      omega

/-- The loop, from requests that are ready. -/
theorem loop_ready (h : v.Verifiable target context) (ho : o ≤ v.numDrafts)
    (hready : v.Ready target context o progress active device)
    {rest : (Nat → Progress H L) → List Nat → Raising String (Device σ) (Nat → Progress H L)}
    (hdvd : v.layout.decodeSeq ∣ o)
    (hrest : ∀ progress' active' device',
      v.Waiting target context (o + v.realWidth o) progress' active' device' →
      (v.AdmittedFrom target context (o + v.realWidth o) ∧ ∃ progress'' device'',
        exec (rest progress' active') device' = (.ok progress'', device'') ∧
          v.Finishes target context device' progress'' device'') ∨
      (¬ (v.AdmittedFrom target context (o + v.realWidth o) ∧ v.kernel.Answers) ∧ ∃ e device'',
        exec (rest progress' active') device' = (.error e, device'') ∧ v.Keeps device' device'')) :
    (v.AdmittedFrom target context o ∧ ∃ progress' device',
      exec (if active = [] then pure progress else do
          let (progress, continuing) ← v.verifyChunk progress active o
          rest progress continuing) device = (.ok progress', device') ∧
        v.Finishes target context device progress' device') ∨
    (¬ (v.AdmittedFrom target context o ∧ v.kernel.Answers) ∧ ∃ e device',
      exec (if active = [] then pure progress else do
          let (progress, continuing) ← v.verifyChunk progress active o
          rest progress continuing) device = (.error e, device') ∧ v.Keeps device device') := by
  by_cases hnil : active = []
  · rw [if_pos hnil]
    subst hnil
    refine .inl ⟨admittedFrom_of_unreached fun i hi => ?_, progress, device, rfl,
      fun i hi => hready.done i hi (by simp), fun i hi => hready.kept i hi (by simp), .refl _⟩
    by_contra hm
    simpa using (hready.mem i).mpr ⟨hi, not_lt.mp hm⟩
  · rw [if_neg hnil, admittedFrom_step ho hdvd]
    rcases exec_chunk h hready hnil ho with
      ⟨hadmitted, progress', active', device', hexec, hwait, hkeeps⟩ |
      ⟨hrefused, e, device', hexec, hkeeps⟩
    · rw [exec_bind_ok hexec]
      rcases hrest _ _ _ hwait with ⟨hfrom, progress'', device'', hexec', hfinishes⟩ |
        ⟨hfrom, e, device'', hexec', hkeeps'⟩
      · exact .inl ⟨⟨hadmitted, hfrom⟩, progress'', device'', hexec', hfinishes.after hkeeps⟩
      · exact .inr ⟨fun hall => hfrom ⟨hall.1.2, hall.2⟩, e, device'', hexec', hkeeps.trans hkeeps'⟩
    · exact .inr ⟨fun hall => hrefused ⟨hall.1.1, hall.2⟩, e, device', exec_bind_error hexec, hkeeps⟩

/-- The chunks are at most as many as the inputs, so the loop does not run out of fuel. -/
theorem loop_waiting (h : v.Verifiable target context) {fuel : Nat}
    (hfuel : v.numDrafts + 2 ≤ fuel + o) (hle : o ≤ v.numDrafts + 1) (hpos : 0 < o)
    (hdvd : o ≤ v.numDrafts → v.layout.decodeSeq ∣ o)
    (hwait : v.Waiting target context o progress active device) :
    (v.AdmittedFrom target context o ∧ ∃ progress' device',
      exec (v.verifyLoop fuel progress active o) device = (.ok progress', device') ∧
        v.Finishes target context device progress' device') ∨
    (¬ (v.AdmittedFrom target context o ∧ v.kernel.Answers) ∧ ∃ e device',
      exec (v.verifyLoop fuel progress active o) device = (.error e, device') ∧
        v.Keeps device device') := by
  induction fuel generalizing o progress active device with
  | zero => omega
  | succ fuel ih =>
    unfold verifyLoop
    by_cases hnil : active = []
    · rw [if_pos hnil]
      subst hnil
      refine .inl ⟨admittedFrom_of_unreached fun i hi => ?_, progress, device, rfl,
        fun i hi => hwait.done i hi (by simp), fun i hi => hwait.kept i hi (by simp), .refl _⟩
      have hmatched := h.matched_le hi
      by_contra hm
      have hmem := (hwait.mem i).not.mp (by simp)
      omega
    · obtain ⟨i, hi⟩ := List.exists_mem_of_ne_nil _ hnil
      have ho : o ≤ v.numDrafts := by
        have hlast := ((hwait.mem i).mp hi).2.2
        omega
      obtain ⟨progress', active', hresolve, hready⟩ := resolve_waiting h hwait hpos ho
      have hwidth := realWidth_pos h ho
      have hend := add_realWidth_le (v := v) ho
      rw [if_neg hnil, if_neg hpos.ne', exec_ofExcept_ok hresolve]
      refine loop_ready h ho hready (hdvd ho) fun progress'' active'' device'' hwait' =>
        ih (by omega) hend (by omega) (fun hlt => ?_) hwait'
      have hfull : v.realWidth o = v.layout.decodeSeq := by
        unfold realWidth at hlt ⊢
        omega
      rw [hfull]
      exact Nat.dvd_add (hdvd ho) dvd_rfl

/-- The loop from the start. -/
theorem exec_loop (h : v.Verifiable target context)
    (hholds : ∀ i < v.batch.rows.length, v.Holds context device.state i 0) :
    (v.AdmittedFrom target context 0 ∧ ∃ progress' device',
      exec (v.verifyLoop (v.numDrafts + 2) (fun _ => {}) (List.range v.batch.rows.length) 0) device =
          (.ok progress', device') ∧
        v.Finishes target context device progress' device') ∨
    (¬ (v.AdmittedFrom target context 0 ∧ v.kernel.Answers) ∧ ∃ e device',
      exec (v.verifyLoop (v.numDrafts + 2) (fun _ => {}) (List.range v.batch.rows.length) 0) device =
        (.error e, device') ∧ v.Keeps device device') := by
  have hready : v.Ready target context 0 (fun _ => {}) (List.range v.batch.rows.length) device := by
    refine ⟨List.nodup_range, fun i => ?_, fun i _ => rfl, fun i hi => ?_, fun i hi hnot => ?_,
      fun i hi hnot => ?_⟩
    · rw [List.mem_range]
      omega
    · exact hholds i (List.mem_range.mp hi)
    · exact absurd (List.mem_range.mpr hi) hnot
    · exact absurd (List.mem_range.mpr hi) hnot
  have hne : List.range v.batch.rows.length ≠ [] := by
    obtain ⟨a, ha⟩ := h.assigned
    have hids := (fits_of_assignment ha).1
    rw [ne_eq, List.map_eq_nil_iff, ← List.length_eq_zero_iff] at hids
    rwa [ne_eq, List.range_eq_nil]
  have hwidth := realWidth_pos h (Nat.zero_le v.numDrafts)
  unfold verifyLoop
  rw [if_neg hne, if_pos rfl]
  refine loop_ready h (Nat.zero_le _) hready (Nat.dvd_zero _) fun progress' active' device' hwait =>
    loop_waiting h ?_ (add_realWidth_le (Nat.zero_le _)) (by omega) (fun hlt => ?_) hwait
  · omega
  · have hfull : v.realWidth 0 = v.layout.decodeSeq := by
      unfold realWidth at hlt ⊢
      omega
    rw [hfull, Nat.zero_add]

end PyptoServing.Runner.Verification
