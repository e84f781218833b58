import PyptoServing.Sched.WellFormed

/-!
# The outputs of a step

`update_from_output` returns outputs of running requests only, and an output is marked
finished exactly for the requests that leave the running queue.
-/
namespace PyptoServing.Sched

open Lib Lib.Fallible Memory Scheduler

/-- How the outputs of a result relate to the running queues around it. -/
structure Emits (before after : Scheduler) (outputs : List RequestOutput) : Prop where
  running : ∀ out ∈ outputs, out.requestId ∈ before.running
  final : ∀ out ∈ outputs, out.finished = true → out.requestId ∉ after.running
  finished : ∀ r ∈ before.running, r ∉ after.running →
    ∃ out ∈ outputs, out.requestId = r ∧ out.finished = true

section Mark
variable {r : RequestId} {reason : String} {outs : List RequestOutput}

theorem mem_markFinished {out : RequestOutput} (h : out ∈ markFinished r reason outs) :
    out ∈ outs ∨ (out.requestId = r ∧ out.finished = true) := by
  induction outs with
  | nil =>
    rw [markFinished, List.mem_singleton] at h
    subst h
    exact .inr ⟨rfl, rfl⟩
  | cons a outs ih =>
    rw [markFinished] at h
    split at h
    · rcases List.mem_cons.mp h with rfl | h
      · exact .inl (by simp)
      · exact (ih h).imp_left fun h => by simp [h]
    · split at h
      · next hid =>
        rcases List.mem_cons.mp h with rfl | h
        · exact .inr ⟨hid, rfl⟩
        · exact .inl (by simp [h])
      · rcases List.mem_cons.mp h with rfl | h
        · exact .inl (by simp)
        · exact (ih h).imp_left fun h => by simp [h]

theorem markFinished_final (r : RequestId) (reason : String) (outs : List RequestOutput) :
    ∃ out ∈ markFinished r reason outs, out.requestId = r ∧ out.finished = true := by
  induction outs with
  | nil => exact ⟨_, List.mem_singleton_self _, rfl, rfl⟩
  | cons a outs ih =>
    obtain ⟨out, hout, h⟩ := ih
    rw [markFinished]
    split
    · exact ⟨out, List.mem_cons_of_mem _ hout, h⟩
    · split
      · next hid => exact ⟨_, List.mem_cons_self, hid, rfl⟩
      · exact ⟨out, List.mem_cons_of_mem _ hout, h⟩

theorem markFinished_other {out : RequestOutput} (h : out ∈ outs) (hid : out.requestId ≠ r) :
    out ∈ markFinished r reason outs := by
  induction outs with
  | nil => cases h
  | cons a outs ih =>
    rw [markFinished]
    rcases List.mem_cons.mp h with rfl | h
    · rw [if_neg hid]
      split <;> exact List.mem_cons_self
    · split
      · exact List.mem_cons_of_mem _ (ih h)
      · split
        · exact List.mem_cons_of_mem _ h
        · exact List.mem_cons_of_mem _ (ih h)

end Mark

/-- The outputs after the finish checks of the requests in `l`. -/
theorem finishRunning_outputs (l : List RequestId) (hnd : l.Nodup)
    (acc : Scheduler × List RequestOutput × List RequestId)
    (hstatus : ∀ r ∈ l, (acc.1.object r).status.isFinished = false) :
    (∀ out ∈ (l.foldl finishRunning acc).2.1, out ∈ acc.2.1 ∨ (out.finished = true ∧
      out.requestId ∈ l ∧ (checkFinish (acc.1.object out.requestId)).isSome = true)) ∧
    (∀ r ∈ l, (checkFinish (acc.1.object r)).isSome = true →
      ∃ out ∈ (l.foldl finishRunning acc).2.1, out.requestId = r ∧ out.finished = true) ∧
    ∀ out ∈ acc.2.1, out.requestId ∉ l → out ∈ (l.foldl finishRunning acc).2.1 := by
  induction l generalizing acc with
  | nil => exact ⟨fun out hout => .inl hout, by simp, fun out hout _ => hout⟩
  | cons r l ih =>
    obtain ⟨hr, hnd⟩ := List.nodup_cons.mp hnd
    have hrun : (acc.1.object r).status.isFinished = false := hstatus r (by simp)
    have hne : ∀ x ∈ l, x ≠ r := by
      rintro x hx rfl
      exact hr hx
    rw [List.foldl_cons]
    cases hc : checkFinish (acc.1.object r) with
    | none =>
      have hone : finishRunning acc r = acc := by
        unfold finishRunning
        simp [hrun, hc]
      rw [hone]
      obtain ⟨h1, h2, h3⟩ := ih hnd acc fun x hx => hstatus x (by simp [hx])
      refine ⟨fun out hout => ?_, fun x hx hx' => ?_, fun out hout hid => ?_⟩
      · exact (h1 out hout).imp_right fun ⟨hf, hmem, hs⟩ => ⟨hf, by simp [hmem], hs⟩
      · rcases List.mem_cons.mp hx with rfl | hx
        · rw [hc] at hx'
          cases hx'
        · exact h2 x hx hx'
      · exact h3 out hout fun hmem => hid (by simp [hmem])
    | some status =>
      have hone : finishRunning acc r = (acc.1.modify r fun request => { request with status },
          markFinished r status.name acc.2.1, acc.2.2 ++ [r]) := by
        unfold finishRunning
        simp [hrun, hc]
      have hobj : ∀ x ∈ l, (acc.1.modify r fun request => { request with status }).object x =
          acc.1.object x := fun x hx => modify_object_ne _ _ (hne x hx)
      rw [hone]
      obtain ⟨h1, h2, h3⟩ := ih hnd
        (acc.1.modify r fun request => { request with status },
          markFinished r status.name acc.2.1, acc.2.2 ++ [r]) fun x hx => by
        rw [hobj x hx]
        exact hstatus x (by simp [hx])
      refine ⟨fun out hout => ?_, fun x hx hx' => ?_, fun out hout hid => ?_⟩
      · rcases h1 out hout with hout | ⟨hf, hmem, hs⟩
        · refine (mem_markFinished hout).imp_right ?_
          rintro ⟨hid, hf⟩
          exact ⟨hf, by simp [hid], by rw [hid, hc]; rfl⟩
        · rw [hobj _ hmem] at hs
          exact .inr ⟨hf, by simp [hmem], hs⟩
      · rcases List.mem_cons.mp hx with rfl | hx
        · obtain ⟨out, hout, hid, hf⟩ := markFinished_final x status.name acc.2.1
          exact ⟨out, h3 out hout (by rwa [hid]), hid, hf⟩
        · exact h2 x hx (by rwa [hobj x hx])
      · rw [List.mem_cons, not_or] at hid
        exact h3 out (markFinished_other hout hid.1) hid.2

/-- The outputs of one request. -/
def outputsOf (r : RequestId) (outs : List RequestOutput) : List RequestOutput :=
  outs.filter (·.requestId = r)

section OutputsOf
variable {r r' : RequestId} {reason : String} {outs : List RequestOutput}

theorem outputsOf_cons_self {out : RequestOutput} (h : out.requestId = r) :
    outputsOf r (out :: outs) = out :: outputsOf r outs :=
  List.filter_cons_of_pos (decide_eq_true h)

theorem outputsOf_cons_other {out : RequestOutput} (h : out.requestId ≠ r) :
    outputsOf r (out :: outs) = outputsOf r outs :=
  List.filter_cons_of_neg fun hr => h (of_decide_eq_true hr)

theorem outputsOf_append {outs' : List RequestOutput} :
    outputsOf r (outs ++ outs') = outputsOf r outs ++ outputsOf r outs' :=
  List.filter_append _ _

theorem any_outputsOf :
    (outputsOf r outs).any (fun out => out.requestId = r) = outs.any fun out => out.requestId = r := by
  unfold outputsOf
  rw [List.any_filter]
  simp only [Bool.and_self]

theorem outputsOf_markFinished :
    outputsOf r (markFinished r reason outs) = markFinished r reason (outputsOf r outs) := by
  induction outs with
  | nil => exact outputsOf_cons_self rfl
  | cons out outs ih =>
    rw [markFinished]
    by_cases hid : out.requestId = r
    · rw [outputsOf_cons_self hid, markFinished, any_outputsOf]
      by_cases hany : (outs.any fun out => out.requestId = r) = true
      · rw [if_pos hany, if_pos hany, outputsOf_cons_self hid, ih]
      · rw [if_neg hany, if_neg hany, if_pos hid, if_pos hid]
        exact outputsOf_cons_self hid
    · rw [outputsOf_cons_other hid, if_neg hid, ite_self, outputsOf_cons_other hid, ih]

theorem outputsOf_markFinished_other (h : r' ≠ r) :
    outputsOf r (markFinished r' reason outs) = outputsOf r outs := by
  induction outs with
  | nil => exact outputsOf_cons_other h
  | cons out outs ih =>
    rw [markFinished]
    by_cases hid : out.requestId = r'
    · rw [outputsOf_cons_other (r := r) (hid ▸ h), if_pos hid]
      split
      · rw [outputsOf_cons_other (hid ▸ h), ih]
      · exact outputsOf_cons_other (hid ▸ h)
    · rw [if_neg hid, ite_self]
      by_cases hr : out.requestId = r
      · rw [outputsOf_cons_self hr, outputsOf_cons_self hr, ih]
      · rw [outputsOf_cons_other hr, outputsOf_cons_other hr, ih]

/-- The outputs of a request are marked by its own finish check. -/
theorem outputsOf_finishRunning (l : List RequestId) (hnd : l.Nodup)
    (acc : Scheduler × List RequestOutput × List RequestId)
    (hstatus : ∀ x ∈ l, (acc.1.object x).status.isFinished = false) :
    outputsOf r (l.foldl finishRunning acc).2.1 =
      match if r ∈ l then checkFinish (acc.1.object r) else none with
      | some status => markFinished r status.name (outputsOf r acc.2.1)
      | none => outputsOf r acc.2.1 := by
  induction l generalizing acc with
  | nil => rfl
  | cons x l ih =>
    obtain ⟨hx, hnd⟩ := List.nodup_cons.mp hnd
    have hrun : (acc.1.object x).status.isFinished = false := hstatus x List.mem_cons_self
    have hne : ∀ y ∈ l, y ≠ x := by
      rintro y hy rfl
      exact hx hy
    rw [List.foldl_cons]
    cases hc : checkFinish (acc.1.object x) with
    | none =>
      have hone : finishRunning acc x = acc := by
        unfold finishRunning
        simp [hrun, hc]
      rw [hone, ih hnd acc fun y hy => hstatus y (List.mem_cons_of_mem _ hy)]
      by_cases hr : r = x
      · rw [hr, if_neg hx, if_pos List.mem_cons_self, hc]
      · simp only [List.mem_cons, hr, false_or]
    | some status =>
      have hone : finishRunning acc x = (acc.1.modify x fun request => { request with status },
          markFinished x status.name acc.2.1, acc.2.2 ++ [x]) := by
        unfold finishRunning
        simp [hrun, hc]
      rw [hone, ih hnd _ fun y hy => by
        rw [modify_object_ne _ _ (hne y hy)]
        exact hstatus y (List.mem_cons_of_mem _ hy)]
      by_cases hr : r = x
      · rw [hr, if_neg hx, if_pos List.mem_cons_self, hc]
        exact outputsOf_markFinished
      · dsimp only
        rw [modify_object_ne _ _ hr, outputsOf_markFinished_other (Ne.symm hr)]
        simp only [List.mem_cons, hr, false_or]

variable {s : Scheduler} {newTokenIds : StepTokens} {sr : ScheduledRequest}

theorem recordOutputs_requestId {out : RequestOutput} (h : out ∈ recordOutputs s newTokenIds sr) :
    out.requestId = sr.requestId := by
  unfold recordOutputs at h
  split at h
  · cases h
  · obtain ⟨token, -, rfl⟩ := List.mem_map.mp h
    rfl

/-- The outputs of a request come from its record. -/
theorem outputsOf_records {l : List ScheduledRequest} (hnd : (l.map (·.requestId)).Nodup)
    (hsr : sr ∈ l) : outputsOf sr.requestId (l.flatMap (recordOutputs s newTokenIds)) =
      recordOutputs s newTokenIds sr := by
  have hself : outputsOf sr.requestId (recordOutputs s newTokenIds sr) =
      recordOutputs s newTokenIds sr :=
    List.filter_eq_self.mpr fun out hout => decide_eq_true (recordOutputs_requestId hout)
  have hother : ∀ sr', sr'.requestId ≠ sr.requestId →
      outputsOf sr.requestId (recordOutputs s newTokenIds sr') = [] := by
    intro sr' hne
    refine List.filter_eq_nil_iff.mpr fun out hout hid => hne ?_
    rw [← recordOutputs_requestId hout]
    exact of_decide_eq_true hid
  induction l with
  | nil => cases hsr
  | cons a l ih =>
    obtain ⟨ha, hnd⟩ := List.nodup_cons.mp hnd
    rw [List.flatMap_cons, outputsOf_append]
    rcases List.mem_cons.mp hsr with rfl | hsr
    · have hrest : outputsOf sr.requestId (l.flatMap (recordOutputs s newTokenIds)) = [] := by
        refine List.filter_eq_nil_iff.mpr fun out hout hid => ha ?_
        obtain ⟨sr', hsr', hout⟩ := List.mem_flatMap.mp hout
        exact List.mem_map.mpr
          ⟨sr', hsr', (recordOutputs_requestId hout).symm.trans (of_decide_eq_true hid)⟩
      rw [hself, hrest, List.append_nil]
    · have hne : a.requestId ≠ sr.requestId := fun he =>
        ha (List.mem_map.mpr ⟨sr, hsr, he.symm⟩)
      rw [hother a hne, ih hnd hsr, List.nil_append]

end OutputsOf

/-- The outputs of the oldest step. -/
theorem Pipeline.WellFormed.emits {p : Pipeline} {output : SchedulerOutput} {rest : List SchedulerOutput}
    {tokens : StepTokens} {s : Scheduler} {outputs : List RequestOutput} (h : p.WellFormed)
    (hfl : p.inFlight = output :: rest)
    (hupd : p.sched.updateFromOutput output tokens = .ok (s, outputs)) :
    Emits p.sched s outputs := by
  obtain ⟨mid, hu, rfl⟩ := h.update hfl hupd
  have hmid : ∀ r ∈ p.sched.running, (mid.object r).status.isFinished = false := by
    intro r hr
    rw [hu.applies.running_status (h.queues.running_status r hr)]
    rfl
  obtain ⟨hmem, hfin, -⟩ := finishRunning_outputs p.sched.running h.queues.running_nodup
    (mid, output.scheduledRequests.flatMap (recordOutputs p.sched tokens), []) hmid
  have hplain : ∀ out ∈ output.scheduledRequests.flatMap (recordOutputs p.sched tokens),
      out.requestId ∈ p.sched.running ∧ out.finished = false := by
    intro out hout
    obtain ⟨sr, hsr, hout⟩ := List.mem_flatMap.mp hout
    unfold recordOutputs at hout
    split at hout
    · cases hout
    · next hd =>
      obtain ⟨token, -, rfl⟩ := List.mem_map.mp hout
      refine ⟨?_, rfl⟩
      by_contra hnr
      exact hd ((h.dropped_iff (by simp [hfl]) (List.mem_map_of_mem hsr)).mpr hnr)
  have hgone : ∀ r, r ∉ s.running ↔ r ∉ p.sched.running ∨
      (checkFinish (mid.object r)).isSome = true := by
    intro r
    rw [hu.running, List.mem_filter, ← Option.not_isNone]
    cases (checkFinish (mid.object r)).isNone <;> simp
  refine ⟨fun out hout => ?_, fun out hout hf => ?_, fun r hr hnr => ?_⟩
  · rcases hmem out hout with hout | ⟨-, hrun, -⟩
    · exact (hplain out hout).1
    · exact hrun
  · rcases hmem out hout with hout | ⟨-, -, hs⟩
    · rw [(hplain out hout).2] at hf
      cases hf
    · exact (hgone _).mpr (.inr hs)
  · refine hfin r hr ?_
    rcases (hgone r).mp hnr with hnr | hs
    · exact absurd hr hnr
    · exact hs

end PyptoServing.Sched
