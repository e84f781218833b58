import PyptoServing.Server.LaneProtocol

/-!
# What the worker keeps of a released request

A release is applied on the device lane, while the prepare loop publishes later
registrations and the reclaim lane records the tokens of earlier steps. It is complete when
no earlier output of the request waits for reclaim and the registered entry is still the one
that the command intends to release.
-/
namespace PyptoServing.Server

open Lib Memory Sched

def Registers (sent : List Message) (i : Nat) (r : RequestId) : Prop :=
  ∃ cmd, sent[i]? = some (.step cmd) ∧ r ∈ cmd.newIds

def Schedules (sent : List Message) (i : Nat) (r : RequestId) : Prop :=
  ∃ cmd, sent[i]? = some (.step cmd) ∧ r ∈ cmd.scheduledIds

def Releases (sent : List Message) (i : Nat) (r : RequestId) : Prop :=
  ∃ cmd, sent[i]? = some (.step cmd) ∧ r ∈ cmd.finishedRequestIds

/-- The engine's known ids after a message: those released are forgotten first. -/
def knownAfter (known : List RequestId) : Message → List RequestId
  | .step cmd => known.filter (· ∉ cmd.finishedRequestIds) ++ cmd.newIds
  | _ => known

def knownIds (sent : List Message) : List RequestId := sent.foldl knownAfter []

/-- The engine registers every request that it schedules, once for each registration. -/
structure EngineBuilt (sent : List Message) : Prop where
  registered : ∀ i r, Schedules sent i r → r ∈ knownIds (sent.take (i + 1))
  fresh : ∀ i cmd, sent[i]? = some (.step cmd) → ∀ r ∈ cmd.newIds,
    r ∈ knownIds (sent.take i) → r ∈ cmd.finishedRequestIds

theorem knownIds_take_succ {sent : List Message} {i : Nat} {m : Message} (h : sent[i]? = some m) :
    knownIds (sent.take (i + 1)) = knownAfter (knownIds (sent.take i)) m := by
  rw [List.take_add_one, h, knownIds, List.foldl_append]
  rfl

/-- What the engine knows after a release was registered since. -/
theorem registered_since {sent : List Message} {k i : Nat} {r : RequestId} (hki : k ≤ i)
    (hi : i < sent.length) (hk : Releases sent k r) (hr : r ∈ knownIds (sent.take (i + 1))) :
    ∃ j, k ≤ j ∧ j ≤ i ∧ Registers sent j r := by
  induction i, hki using Nat.le_induction with
  | base =>
    obtain ⟨cmd, hcmd, hfin⟩ := hk
    rw [knownIds_take_succ hcmd] at hr
    rcases List.mem_append.mp hr with hr | hr
    · exact absurd hfin (of_decide_eq_true (List.mem_filter.mp hr).2)
    · exact ⟨k, le_rfl, le_rfl, cmd, hcmd, hr⟩
  | succ i hki ih =>
    have hget := List.getElem?_eq_getElem hi
    rw [knownIds_take_succ hget] at hr
    have old : r ∈ knownIds (sent.take (i + 1)) → ∃ j, k ≤ j ∧ j ≤ i + 1 ∧ Registers sent j r := by
      intro hr
      obtain ⟨j, hkj, hji, hreg⟩ := ih (by omega) hr
      exact ⟨j, hkj, by omega, hreg⟩
    revert hget hr
    cases sent[i + 1] with
    | step cmd =>
      intro hr hget
      rcases List.mem_append.mp hr with hr | hr
      · exact old (List.mem_filter.mp hr).1
      · exact ⟨i + 1, by omega, le_rfl, cmd, hget, hr⟩
    | profile active => exact fun hr _ => old hr
    | shutdown => exact fun hr _ => old hr
    | undecodable error => exact fun hr _ => old hr
    | closed => exact fun hr _ => old hr

theorem engineBuilt_nil : EngineBuilt [] := by
  constructor
  · rintro i r ⟨cmd, hcmd, -⟩
    cases hcmd
  · rintro i cmd hcmd
    cases hcmd

/-- One more command of the engine. -/
theorem EngineBuilt.snoc {sent : List Message} (h : EngineBuilt sent) (cmd : StepCommand)
    (hreg : ∀ r ∈ cmd.scheduledIds, r ∈ knownAfter (knownIds sent) (.step cmd))
    (hfresh : ∀ r ∈ cmd.newIds, r ∈ knownIds sent → r ∈ cmd.finishedRequestIds) :
    EngineBuilt (sent ++ [.step cmd]) := by
  have hlast : (sent ++ [Message.step cmd])[sent.length]? = some (.step cmd) := by simp
  constructor
  · rintro i r ⟨cmd', hcmd, hr⟩
    by_cases hi : i < sent.length
    · rw [List.getElem?_append_left hi] at hcmd
      rw [List.take_append_of_le_length hi]
      exact h.registered i r ⟨cmd', hcmd, hr⟩
    · obtain ⟨hlt, -⟩ := List.getElem?_eq_some_iff.mp hcmd
      rw [List.length_append, List.length_singleton] at hlt
      obtain rfl : i = sent.length := by omega
      rw [hlast, Option.some.injEq, Message.step.injEq] at hcmd
      subst hcmd
      rw [knownIds_take_succ hlast, List.take_left]
      exact hreg r hr
  · intro i cmd' hcmd r hr hknown
    by_cases hi : i < sent.length
    · rw [List.getElem?_append_left hi] at hcmd
      rw [List.take_append_of_le_length hi.le] at hknown
      exact h.fresh i cmd' hcmd r hr hknown
    · obtain ⟨hlt, -⟩ := List.getElem?_eq_some_iff.mp hcmd
      rw [List.length_append, List.length_singleton] at hlt
      obtain rfl : i = sent.length := by omega
      rw [hlast, Option.some.injEq, Message.step.injEq] at hcmd
      subst hcmd
      rw [List.take_left] at hknown
      exact hfresh r hr hknown

/-- The tokens kept for a request. -/
def LastTokens.of (lastTokens : LastTokens) (r : RequestId) : List Sampled :=
  (lastTokens.lookup r).getD []

theorem LastTokens.mem_record {lastTokens : LastTokens} {command : Nat} {r r' : RequestId}
    {tokens : List Int} {t : Sampled} (h : t ∈ (lastTokens.record command r' tokens).of r) :
    t ∈ lastTokens.of r ∨ (r = r' ∧ t.command = command) := by
  unfold LastTokens.record LastTokens.of at *
  dsimp only at h
  by_cases hr : r = r'
  · subst hr
    rw [AList.lookup_insert, Option.getD_some, Option.mem_toList] at h
    have hmem := List.mem_of_getLast? h
    rcases List.mem_append.mp hmem with hold | hnew
    · exact .inl hold
    · obtain ⟨token, -, rfl⟩ := List.mem_map.mp hnew
      exact .inr ⟨rfl, rfl⟩
  · rw [AList.lookup_insert_ne hr] at h
    exact .inl h

theorem LastTokens.mem_erase {lastTokens : LastTokens} {r r' : RequestId} {t : Sampled}
    (h : t ∈ LastTokens.of (lastTokens.erase r') r) : t ∈ lastTokens.of r ∧ r ≠ r' := by
  unfold LastTokens.of at *
  by_cases hr : r = r'
  · subst hr
    rw [AList.lookup_erase] at h
    cases h
  · rw [AList.lookup_erase_ne hr] at h
    exact ⟨h, hr⟩

theorem lookup_insert_some {cache : ReqCache} {r r' : RequestId} {e e' : Registered}
    (h : (cache.insert r' e').lookup r = some e) :
    cache.lookup r = some e ∨ (r = r' ∧ e = e') := by
  by_cases hr : r = r'
  · subst hr
    rw [AList.lookup_insert, Option.some.injEq] at h
    exact .inr ⟨rfl, h.symm⟩
  · rw [AList.lookup_insert_ne hr] at h
    exact .inl h

theorem lookup_erase_some {cache : ReqCache} {r r' : RequestId} {e : Registered}
    (h : (cache.erase r').lookup r = some e) : cache.lookup r = some e ∧ r ≠ r' := by
  by_cases hr : r = r'
  · subst hr
    rw [AList.lookup_erase] at h
    cases h
  · rw [AList.lookup_erase_ne hr] at h
    exact ⟨h, hr⟩

/-- The releases of the device lane's command that are not applied yet. -/
def DeviceLane.releasesLeft : DeviceLane → Option (StepWork × List RequestId)
  | .comparing work remaining => some (work, remaining)
  | .poppingEntry work r remaining | .poppingTokens work r remaining => some (work, r :: remaining)
  | _ => none

namespace Lanes
variable {config : LaneConfig} {s s' : Lanes} {op : LaneOp} {r : RequestId}

theorem mem_recordTokens {lastTokens : LastTokens} {serial : Nat} {entry : RequestId × List Int}
    {t : Sampled} (h : t ∈ (recordTokens lastTokens serial entry).of r) :
    t ∈ lastTokens.of r ∨ (r = entry.1 ∧ t.command = serial) := by
  unfold recordTokens at h
  split at h
  · exact .inl h
  · exact LastTokens.mem_record h

theorem items_keys {newTokens : Dict RequestId (List Int)} {entry : RequestId × List Int}
    (h : entry ∈ items newTokens) : entry.1 ∈ newTokens.keys := by
  obtain ⟨e, he, rfl⟩ := List.mem_map.mp h
  exact List.mem_map.mpr ⟨e, he, rfl⟩

/-- The decode entries of a command. -/
def decodeIds (work : StepWork) : List RequestId := work.cmd.decodeRequests.map (·.requestId)

/-- An output of a request that is dispatched and whose token is not recorded yet. -/
inductive Unrecorded (s : Lanes) (r : RequestId) (i : Nat) : Prop
  | queued {work : StepWork} {slot : Slot} : OutputItem.pending work slot ∈ s.outputQueue →
      r ∈ decodeIds work → work.serial = i → Unrecorded s r i
  | reclaiming {work : StepWork} {slot : Slot} : s.reclaim = .reclaiming work slot →
      r ∈ decodeIds work → work.serial = i → Unrecorded s r i
  | recording {work : StepWork} {slot : Slot} {newTokens : Dict RequestId (List Int)}
      {remaining : List (RequestId × List Int)} : s.reclaim = .recording work slot newTokens remaining →
      r ∈ remaining.map (·.1) → work.serial = i → Unrecorded s r i

/-- The messages that the device lane has not finished, oldest first. -/
def ahead (s : Lanes) : List Nat :=
  s.device.serials ++ s.workQueue.map (·.serial) ++ s.prepare.serials

/-- Nothing of a request before one command is left, and nothing will come back. -/
structure Settled (s : Lanes) (k : Nat) (r : RequestId) : Prop where
  ahead : ∀ i ∈ s.ahead, k ≤ i
  read : k < s.numRead
  entry : ∀ e, s.reqCache.lookup r = some e → k ≤ e.command
  tokens : ∀ t ∈ s.lastTokens.of r, k ≤ t.command
  unrecorded : ∀ i, Unrecorded s r i → k ≤ i

theorem Step.ahead (h : Step config s op s') : ∀ i ∈ s'.ahead, i ∈ s.ahead ∨ i = s.numRead := by
  intro i hi
  cases h with
  | readStep hp hm =>
    simp only [Lanes.ahead, PrepareLane.serials, List.mem_append, List.mem_singleton] at hi ⊢
    tauto
  | @readOther m item hp hm hitem =>
    have hser : item.serial = s.numRead := by
      cases m <;> cases hitem <;> rfl
    simp only [Lanes.ahead, PrepareLane.serials, List.mem_append, List.mem_singleton, hser] at hi ⊢
    tauto
  | @published work hp =>
    have hser : (Lanes.published config work).serials = [work.serial] := by
      unfold Lanes.published
      split <;> rfl
    unfold Lanes.ahead at hi ⊢
    dsimp only at hi
    rw [hser] at hi
    rw [hp]
    exact .inl hi
  | @takeWork item queue hd hq =>
    refine .inl ?_
    cases item with
    | step work =>
      have hser : (taken (.step work)).1.serials = [work.serial] := by
        dsimp only [taken]
        split <;> rfl
      unfold Lanes.ahead at hi ⊢
      dsimp only at hi
      rw [hser] at hi
      rw [hd, hq]
      exact hi
    | _ =>
      simp only [Lanes.ahead, hd, hq, taken, DeviceLane.serials, List.map_cons, List.nil_append,
        List.mem_append, List.mem_cons] at hi ⊢
      tauto
  | _ =>
    refine .inl ?_
    simp only [Lanes.ahead, *] at hi ⊢
    simp_all [PrepareLane.serials, DeviceLane.serials, WorkItem.serial]

/-- A step of the reclaim lane only moves an output on; a dispatch adds one. -/
theorem Step.unrecorded (h : Step config s op s') {i : Nat} (hi : Unrecorded s' r i) :
    Unrecorded s r i ∨ i ∈ s.device.serials := by
  cases h with
  | @takeWork item queue hd hq =>
    refine .inl ?_
    cases hi with
    | @queued work slot hmem hr hser =>
      rcases List.mem_append.mp hmem with hmem | hmem
      · exact .queued hmem hr hser
      · cases item <;> simp [taken] at hmem
    | reclaiming hrec hr hser => exact .reclaiming hrec hr hser
    | recording hrec hr hser => exact .recording hrec hr hser
  | @dispatchDecode work slot table hd hslot htrack =>
    cases hi with
    | @queued work' slot' hmem hr hser =>
      rcases List.mem_append.mp hmem with hmem | hmem
      · exact .inl (.queued hmem hr hser)
      · rw [List.mem_singleton, OutputItem.pending.injEq] at hmem
        refine .inr ?_
        rw [hd, ← hser, hmem.1]
        exact List.mem_singleton.mpr rfl
    | reclaiming hrec hr hser => exact .inl (.reclaiming hrec hr hser)
    | recording hrec hr hser => exact .inl (.recording hrec hr hser)
  | @takeOutput item queue hrec hq hne =>
    refine .inl ?_
    cases hi with
    | queued hmem hr hser => exact .queued (by rw [hq]; exact List.mem_cons_of_mem _ hmem) hr hser
    | @reclaiming work slot hcol hr hser =>
      cases item with
      | pending work' slot' =>
        cases hcol
        exact .queued (by rw [hq]; exact List.mem_cons_self) hr hser
      | _ => cases hcol
    | recording hcol hr hser => cases item <;> cases hcol
  | @takeShutdown serial queue hrec hq =>
    refine .inl ?_
    cases hi with
    | queued hmem hr hser => exact .queued (by rw [hq]; exact List.mem_cons_of_mem _ hmem) hr hser
    | reclaiming hcol => cases hcol
    | recording hcol => cases hcol
  | @reclaimDecode work slot newTokens hrec htok =>
    refine .inl ?_
    cases hi with
    | queued hmem hr hser => exact .queued hmem hr hser
    | reclaiming hcol => cases hcol
    | recording hcol hr hser =>
      cases hcol
      obtain ⟨entry, hentry, rfl⟩ := List.mem_map.mp hr
      exact .reclaiming hrec (htok _ (items_keys hentry)) hser
  | @recordReclaimed work slot newTokens entry remaining hrec =>
    refine .inl ?_
    cases hi with
    | queued hmem hr hser => exact .queued hmem hr hser
    | reclaiming hcol => cases hcol
    | recording hcol hr hser =>
      cases hcol
      exact .recording hrec (List.mem_cons_of_mem _ hr) hser
  | _ =>
    refine .inl ?_
    cases hi with
    | @queued work slot hmem hr hser => exact .queued (by simpa [StepWork.failed] using hmem) hr hser
    | reclaiming hrec hr hser => first | exact .reclaiming hrec hr hser | cases hrec
    | recording hrec hr hser => first | exact .recording hrec hr hser | cases hrec

/-- What a step writes into the request cache. -/
theorem Step.entry (h : Step config s op s') {e : Registered}
    (he : s'.reqCache.lookup r = some e) :
    s.reqCache.lookup r = some e ∨ e.command ∈ s.ahead := by
  cases h with
  | publish hp =>
    rcases lookup_insert_some he with he | ⟨-, rfl⟩
    · exact .inl he
    · exact .inr (by simp [Lanes.ahead, hp, PrepareLane.serials])
  | register hd =>
    rcases lookup_insert_some he with he | ⟨-, rfl⟩
    · exact .inl he
    · exact .inr (by simp [Lanes.ahead, hd, DeviceLane.serials])
  | popEntry hd => exact .inl (lookup_erase_some he).1
  | _ => exact .inl he

/-- What a step records as a last token. -/
theorem Step.token (h : Step config s op s') {t : Sampled} (ht : t ∈ s'.lastTokens.of r) :
    t ∈ s.lastTokens.of r ∨ t.command ∈ s.ahead ∨ Unrecorded s r t.command := by
  cases h with
  | recordComputed hd =>
    rcases mem_recordTokens ht with ht | ⟨-, hc⟩
    · exact .inl ht
    · exact .inr (.inl (by simp [Lanes.ahead, hd, DeviceLane.serials, hc]))
  | recordReclaimed hrec =>
    rcases mem_recordTokens ht with ht | ⟨rfl, hc⟩
    · exact .inl ht
    · exact .inr (.inr (.recording hrec (by simp) hc.symm))
  | popTokens hd => exact .inl (LastTokens.mem_erase ht).1
  | _ => exact .inl ht

theorem Step.read_le (h : Step config s op s') : s.numRead ≤ s'.numRead := by
  cases h <;> first | exact le_rfl | exact Nat.le_succ _

theorem mem_ahead_of_device {i : Nat} (h : i ∈ s.device.serials) : i ∈ s.ahead :=
  List.mem_append_left _ (List.mem_append_left _ h)

theorem Settled.step {k : Nat} (h : Settled s k r) (hstep : Step config s op s') :
    Settled s' k r := by
  have hread := hstep.read_le
  refine ⟨fun i hi => ?_, h.read.trans_le hread, fun e he => ?_, fun t ht => ?_, fun i hi => ?_⟩
  · rcases hstep.ahead i hi with hi | rfl
    · exact h.ahead i hi
    · exact h.read.le
  · rcases hstep.entry he with he | he
    · exact h.entry e he
    · exact h.ahead _ he
  · rcases hstep.token ht with ht | ht | ht
    · exact h.tokens t ht
    · exact h.ahead _ ht
    · exact h.unrecorded _ ht
  · rcases hstep.unrecorded hi with hi | hi
    · exact h.unrecorded i hi
    · exact h.ahead i (mem_ahead_of_device hi)

/-- When the device lane applies a release, no earlier output of the request waits for
reclaim, and the registered entry is the one to release or nothing of an earlier command is
left. -/
def ReleaseSettled (s : Lanes) : LaneOp → Lanes → Prop
  | .compare, _ => ∀ work r remaining, s.device = .comparing work (r :: remaining) →
      (∀ i, ¬ Unrecorded s r i) ∧
      (s.reqCache.lookup r = (work.releaseCacheEntries.lookup r).join ∨
        (s.lastTokens.of r = [] ∧ ∀ e, s.reqCache.lookup r = some e → work.serial ≤ e.command))
  | _, _ => True

/-- The releases that are applied, and the one that is being applied. -/
structure Clean (s : Lanes) : Prop where
  freed : ∀ k r, (k, r) ∈ s.freed → Settled s k r
  poppingEntry : ∀ work r remaining, s.device = .poppingEntry work r remaining →
    ∀ i, Unrecorded s r i → work.serial ≤ i
  poppingTokens : ∀ work r remaining, s.device = .poppingTokens work r remaining →
    (∀ i, Unrecorded s r i → work.serial ≤ i) ∧
      ∀ e, s.reqCache.lookup r = some e → work.serial ≤ e.command

/-- The device lane's message is the oldest one ahead. -/
theorem Ordered.device_first (h : Ordered s) {work : StepWork}
    (hd : s.device.serials = [work.serial]) :
    (∀ i ∈ s.ahead, work.serial ≤ i) ∧ work.serial < s.numRead := by
  have hpair := h.pairwise
  refine ⟨fun i hi => ?_, (h.mem_carried (i := work.serial) (by simp [Lanes.carried, hd])).2⟩
  simp only [Lanes.carried, hd, List.pairwise_append] at hpair
  simp only [Lanes.ahead, hd, List.mem_append, List.mem_singleton] at hi
  rcases hi with (rfl | hi) | hi
  · exact le_rfl
  · exact (hpair.1.2.2 work.serial (by simp) i hi).le
  · exact (hpair.2.2 work.serial (by simp) i hi).le

/-- Another lane's step during a release. -/
theorem Clean.keep (ho : Ordered s) (h : Clean s) (hstep : Step config s op s')
    (hdev : s'.device = s.device) (hfreed : s'.freed = s.freed) : Clean s' := by
  refine ⟨fun k r hk => ?_, fun work r remaining hd i hi => ?_, fun work r remaining hd =>
    ⟨fun i hi => ?_, fun e he => ?_⟩⟩
  · rw [hfreed] at hk
    exact (h.freed k r hk).step hstep
  · rw [hdev] at hd
    rcases hstep.unrecorded hi with hi | hi
    · exact h.poppingEntry work r remaining hd i hi
    · rw [hd, DeviceLane.serials, List.mem_singleton] at hi
      exact hi.ge
  · rw [hdev] at hd
    rcases hstep.unrecorded hi with hi | hi
    · exact (h.poppingTokens work r remaining hd).1 i hi
    · rw [hd, DeviceLane.serials, List.mem_singleton] at hi
      exact hi.ge
  · rw [hdev] at hd
    rcases hstep.entry he with he | he
    · exact (h.poppingTokens work r remaining hd).2 e he
    · exact (ho.device_first (by rw [hd]; rfl)).1 _ he

/-- The device lane is dropping what it keeps of a request. -/
def releasing : DeviceLane → Bool
  | .poppingEntry .. | .poppingTokens .. => true
  | _ => false

/-- Between the pops only the releases that are applied count. -/
theorem Clean.of_freed (hfreed : ∀ k r, (k, r) ∈ s.freed → Settled s k r)
    (hout : releasing s.device = false) : Clean s := by
  refine ⟨hfreed, fun work r remaining hd => ?_, fun work r remaining hd => ?_⟩
  all_goals
    rw [hd] at hout
    cases hout

/-- A step of the device lane outside of a release. -/
theorem Clean.leave (h : Clean s) (hstep : Step config s op s') (hfreed : s'.freed = s.freed)
    (hout : releasing s'.device = false) : Clean s' := by
  refine .of_freed (fun k r hk => ?_) hout
  rw [hfreed] at hk
  exact (h.freed k r hk).step hstep

theorem Clean.step (ho : Ordered s) (h : Clean s) (hstep : Step config s op s')
    (hC : ReleaseSettled s op s') : Clean s' := by
  have hstep' := hstep
  cases hstep with
  | @takeWork item queue hd hq =>
    refine h.leave hstep' rfl ?_
    cases item with
    | step work =>
      dsimp only [taken]
      split <;> rfl
    | _ => rfl
  | profiled => exact h.leave hstep' rfl rfl
  | releaseFinished => exact h.leave hstep' rfl rfl
  | releaseFailed => exact h.leave hstep' rfl rfl
  | @compareSame work r remaining hd heq =>
    obtain ⟨hun, -⟩ := hC work r remaining hd
    refine ⟨fun k r' hk => (h.freed k r' hk).step hstep', fun work' r' remaining' hd' i hi => ?_,
      fun work' r' remaining' hd' => by cases hd'⟩
    cases hd'
    rcases hstep'.unrecorded hi with hi | hi
    · exact absurd hi (hun i)
    · rw [hd, DeviceLane.serials, List.mem_singleton] at hi
      exact hi.ge
  | @compareOther work r remaining hd hne =>
    obtain ⟨hun, hleft⟩ := hC work r remaining hd
    obtain ⟨htok, hent⟩ := hleft.resolve_left hne
    have hserials : s.device.serials = [work.serial] := by
      rw [hd]
      rfl
    have hfirst := ho.device_first hserials
    refine .of_freed (fun k r' hk => ?_) rfl
    rcases List.mem_append.mp hk with hk | hk
    · exact (h.freed k r' hk).step hstep'
    · cases List.mem_singleton.mp hk
      refine Settled.step ⟨hfirst.1, hfirst.2, hent, fun t ht => ?_, fun i hi => absurd hi (hun i)⟩ hstep'
      rw [htok] at ht
      cases ht
  | compared => exact h.leave hstep' rfl rfl
  | @popEntry work r remaining hd =>
    refine ⟨fun k r' hk => (h.freed k r' hk).step hstep',
      fun work' r' remaining' hd' => absurd hd' (by simp), fun work' r' remaining' hd' =>
      ⟨fun i hi => ?_, fun e he => absurd (lookup_erase_some he).2 ?_⟩⟩
    · cases hd'
      rcases hstep'.unrecorded hi with hi | hi
      · exact h.poppingEntry _ _ _ hd i hi
      · rw [hd, DeviceLane.serials, List.mem_singleton] at hi
        exact hi.ge
    · cases hd'
      simp
  | @popTokens work r remaining hd =>
    obtain ⟨hun, hent⟩ := h.poppingTokens work r remaining hd
    have hserials : s.device.serials = [work.serial] := by
      rw [hd]
      rfl
    have hfirst := ho.device_first hserials
    refine .of_freed (fun k r' hk => ?_) rfl
    rcases List.mem_append.mp hk with hk | hk
    · exact (h.freed k r' hk).step hstep'
    · cases List.mem_singleton.mp hk
      refine ⟨fun i hi => ?_, hfirst.2, hent, fun t ht => absurd rfl (LastTokens.mem_erase ht).2,
        fun i hi => ?_⟩
      · rcases hstep'.ahead i hi with hi | rfl
        · exact hfirst.1 i hi
        · exact hfirst.2.le
      · rcases hstep'.unrecorded hi with hi | hi
        · exact hun i hi
        · exact hfirst.1 i (mem_ahead_of_device hi)
  | register => exact h.leave hstep' rfl rfl
  | registered => exact h.leave hstep' rfl rfl
  | dispatchDecode => exact h.leave hstep' rfl rfl
  | dispatchReused => exact h.leave hstep' rfl rfl
  | dispatchFailed => exact h.leave hstep' rfl rfl
  | start => exact h.leave hstep' rfl rfl
  | startFailed => exact h.leave hstep' rfl rfl
  | failStep => exact h.leave hstep' rfl rfl
  | compute => exact h.leave hstep' rfl rfl
  | computeFailed => exact h.leave hstep' rfl rfl
  | recordComputed => exact h.leave hstep' rfl rfl
  | recordedComputed => exact h.leave hstep' rfl rfl
  | _ => exact h.keep ho hstep' rfl rfl

/-- Every entry was registered by its command, every token sampled for a request that its
command schedules. -/
structure Sourced (s : Lanes) : Prop where
  entry : ∀ r e, s.reqCache.lookup r = some e → Registers s.sent e.command r
  token : ∀ r, ∀ t ∈ s.lastTokens.of r, Schedules s.sent t.command r
  publishing : ∀ work remaining, s.prepare = .publishing work remaining →
    ∀ data ∈ remaining, data ∈ work.cmd.newRequests
  registering : ∀ work remaining, s.device = .registering work remaining →
    ∀ data ∈ remaining, data ∈ work.cmd.newRequests
  computed : ∀ work newTokens remaining, s.device = .recording work newTokens remaining →
    ∀ entry ∈ remaining, entry.1 ∈ work.cmd.scheduledIds
  reclaimed : ∀ work slot newTokens remaining, s.reclaim = .recording work slot newTokens remaining →
    ∀ entry ∈ remaining, entry.1 ∈ work.cmd.scheduledIds

section Writes
variable {work : StepWork}

/-- Publishing and registering write entries of the command at hand. -/
theorem Sourced.insert (h : Sourced s) {data : NewRequestData}
    (hcmd : s.sent[work.serial]? = some (.step work.cmd)) (hdata : data ∈ work.cmd.newRequests) :
    ∀ r e, (s.reqCache.insert data.requestId ⟨data, work.serial⟩).lookup r = some e →
      Registers s.sent e.command r := by
  intro r e he
  rcases lookup_insert_some he with he | ⟨rfl, rfl⟩
  · exact h.entry r e he
  · exact ⟨work.cmd, hcmd, List.mem_map_of_mem hdata⟩

/-- Recording writes tokens of the command at hand. -/
theorem Sourced.record (h : Sourced s) {entry : RequestId × List Int}
    (hcmd : s.sent[work.serial]? = some (.step work.cmd))
    (hentry : entry.1 ∈ work.cmd.scheduledIds) :
    ∀ r, ∀ t ∈ (recordTokens s.lastTokens work.serial entry).of r,
      Schedules s.sent t.command r := by
  intro r t ht
  rcases mem_recordTokens ht with ht | ⟨rfl, hc⟩
  · exact h.token r t ht
  · rw [hc]
    exact ⟨work.cmd, hcmd, hentry⟩

/-- A device lane that has just taken an item registers the requests of its command. -/
theorem taken_registering {item : WorkItem} {remaining : List NewRequestData}
    (h : (taken item).1 = .registering work remaining) : remaining = work.cmd.newRequests := by
  cases item with
  | step work' =>
    dsimp only [taken] at h
    split at h
    · cases h
      rfl
    · cases h
  | _ => cases h

theorem taken_recording {item : WorkItem} {newTokens : Dict RequestId (List Int)}
    {remaining : List (RequestId × List Int)} :
    (taken item).1 ≠ .recording work newTokens remaining := by
  intro h
  cases item with
  | step work' =>
    dsimp only [taken] at h
    split at h <;> cases h
  | _ => cases h

end Writes

theorem Sourced.step (hf : Fitting config s) (h : Sourced s) (hstep : Step config s op s') :
    Sourced s' := by
  have hs := h
  obtain ⟨hent, htok, hpub, hreg, hcomp, hrec⟩ := h
  cases hstep with
  | readStep => exact ⟨hent, htok, nofun, hreg, hcomp, hrec⟩
  | readOther => exact ⟨hent, htok, nofun, hreg, hcomp, hrec⟩
  | snapshot => exact ⟨hent, htok, nofun, hreg, hcomp, hrec⟩
  | snapshotted hp =>
    refine ⟨hent, htok, fun work remaining hp' => ?_, hreg, hcomp, hrec⟩
    cases hp'
    exact fun _ => id
  | @publish work data remaining hp =>
    have hfit := hf.prepare
    rw [hp] at hfit
    refine ⟨hs.insert hfit.1 (hpub work _ hp data (by simp)), htok, fun work' remaining' hp' => ?_,
      hreg, hcomp, hrec⟩
    cases hp'
    exact fun d hd => hpub work _ hp d (List.mem_cons_of_mem _ hd)
  | published hp =>
    refine ⟨hent, htok, fun work' remaining' hp' => ?_, hreg, hcomp, hrec⟩
    dsimp only [Lanes.published] at hp'
    split at hp' <;> cases hp'
  | acquire => exact ⟨hent, htok, nofun, hreg, hcomp, hrec⟩
  | prepareDecode => exact ⟨hent, htok, nofun, hreg, hcomp, hrec⟩
  | putWork => exact ⟨hent, htok, nofun, hreg, hcomp, hrec⟩
  | putShutdown => exact ⟨hent, htok, nofun, hreg, hcomp, hrec⟩
  | @takeWork item queue hd hq =>
    refine ⟨hent, htok, hpub, fun work' remaining' hd' => ?_,
      fun work' newTokens' remaining' hd' => absurd hd' taken_recording, hrec⟩
    rw [taken_registering hd']
    exact fun _ => id
  | compared hd =>
    refine ⟨hent, htok, hpub, fun work' remaining' hd' => ?_, nofun, hrec⟩
    cases hd'
    exact fun _ => id
  | popEntry hd =>
    exact ⟨fun r e he => hent r e (lookup_erase_some he).1, htok, hpub, nofun, nofun, hrec⟩
  | popTokens hd =>
    exact ⟨hent, fun r t ht => htok r t (LastTokens.mem_erase ht).1, hpub, nofun, nofun, hrec⟩
  | @register work data remaining hd =>
    have hfit := hf.device
    rw [hd] at hfit
    refine ⟨hs.insert (StepWork.Fits.cmd hfit) (hreg work _ hd data (by simp)), htok, hpub,
      fun work' remaining' hd' => ?_, nofun, hrec⟩
    cases hd'
    exact fun d hmem => hreg work _ hd d (List.mem_cons_of_mem _ hmem)
  | @compute work newTokens hd htokens =>
    refine ⟨hent, htok, hpub, nofun, fun work' newTokens' remaining' hd' => ?_, hrec⟩
    cases hd'
    exact fun entry hentry => htokens _ (items_keys hentry)
  | @recordComputed work newTokens entry remaining hd =>
    have hfit := hf.device
    rw [hd] at hfit
    refine ⟨hent, hs.record (StepWork.Fits.cmd hfit) (hcomp work newTokens _ hd entry (by simp)),
      hpub, nofun, fun work' newTokens' remaining' hd' => ?_, hrec⟩
    cases hd'
    exact fun e he => hcomp work newTokens _ hd e (List.mem_cons_of_mem _ he)
  | @takeOutput item queue hrl hq hne =>
    refine ⟨hent, htok, hpub, hreg, hcomp, fun work' slot' newTokens' remaining' hr' => ?_⟩
    cases item <;> cases hr'
  | @reclaimDecode work slot newTokens hrl htokens =>
    refine ⟨hent, htok, hpub, hreg, hcomp, fun work' slot' newTokens' remaining' hr' => ?_⟩
    cases hr'
    exact fun entry hentry => List.mem_append_right _ (htokens _ (items_keys hentry))
  | @recordReclaimed work slot newTokens entry remaining hrl =>
    have hfit := hf.reclaim
    rw [hrl] at hfit
    refine ⟨hent, hs.record hfit.1.cmd (hrec work slot newTokens _ hrl entry (by simp)), hpub,
      hreg, hcomp, fun work' slot' newTokens' remaining' hr' => ?_⟩
    cases hr'
    exact fun e he => hrec work slot newTokens _ hrl e (List.mem_cons_of_mem _ he)
  | takeShutdown => exact ⟨hent, htok, hpub, hreg, hcomp, nofun⟩
  | profile => exact ⟨hent, htok, hpub, hreg, hcomp, nofun⟩
  | reclaimFailed => exact ⟨hent, htok, hpub, hreg, hcomp, nofun⟩
  | recordedReclaimed => exact ⟨hent, htok, hpub, hreg, hcomp, nofun⟩
  | releaseSlot => exact ⟨hent, htok, hpub, hreg, hcomp, nofun⟩
  | keepSlot => exact ⟨hent, htok, hpub, hreg, hcomp, nofun⟩
  | putResult => exact ⟨hent, htok, hpub, hreg, hcomp, nofun⟩
  | _ => exact ⟨hent, htok, hpub, nofun, nofun, hrec⟩

/-- At most two commands are outstanding when one more is read. -/
def AtMostTwo (s : Lanes) : LaneOp → Lanes → Prop
  | .read, _ => s.numRead < s.numHandled + 2
  | _, _ => True

/-- After a release is applied and the earlier outputs are reclaimed, nothing of the old
registration is left. -/
def NoResidue (s : Lanes) : Prop :=
  ∀ k r, (k, r) ∈ s.freed → k ≤ s.numHandled →
    ((∀ j, k ≤ j → ¬ Registers s.sent j r) →
      s.reqCache.lookup r = none ∧ s.lastTokens.of r = []) ∧
    ∀ t ∈ s.lastTokens.of r, ∃ j, k ≤ j ∧ j ≤ t.command ∧ Registers s.sent j r

/-- The releases applied or to be applied are those of their command. -/
structure Releasing (s : Lanes) : Prop where
  freed : ∀ k r, (k, r) ∈ s.freed → Releases s.sent k r
  left : ∀ work remaining, s.device.releasesLeft = some (work, remaining) →
    ∀ r ∈ remaining, r ∈ work.cmd.finishedRequestIds

theorem Releasing.step (hf : Fitting config s) (h : Releasing s) (hstep : Step config s op s') :
    Releasing s' := by
  obtain ⟨hfreed, hleft⟩ := h
  have hfit := hf.device
  cases hstep with
  | @takeWork item queue hd hq =>
    refine ⟨hfreed, fun work remaining hl => ?_⟩
    cases item with
    | step work =>
      dsimp only [taken] at hl
      split at hl <;> cases hl
    | _ => cases hl
  | @releaseFinished work hd =>
    refine ⟨hfreed, fun work remaining hl => ?_⟩
    cases hl
    exact fun _ => id
  | @compareSame work r remaining hd heq =>
    rw [hd] at hleft
    exact ⟨hfreed, hleft⟩
  | @compareOther work r remaining hd hne =>
    rw [hd] at hleft hfit
    have hall := hleft work (r :: remaining) rfl
    refine ⟨fun k r' hk => ?_, fun work' remaining' hl => ?_⟩
    · rcases List.mem_append.mp hk with hk | hk
      · exact hfreed k r' hk
      · cases List.mem_singleton.mp hk
        exact ⟨work.cmd, StepWork.Fits.cmd hfit, hall r (by simp)⟩
    · cases hl
      exact fun x hx => hall x (List.mem_cons_of_mem _ hx)
  | @popEntry work r remaining hd =>
    rw [hd] at hleft
    exact ⟨hfreed, hleft⟩
  | @popTokens work r remaining hd =>
    rw [hd] at hleft hfit
    have hall := hleft work (r :: remaining) rfl
    refine ⟨fun k r' hk => ?_, fun work' remaining' hl => ?_⟩
    · rcases List.mem_append.mp hk with hk | hk
      · exact hfreed k r' hk
      · cases List.mem_singleton.mp hk
        exact ⟨work.cmd, StepWork.Fits.cmd hfit, hall r (by simp)⟩
    · cases hl
      exact fun x hx => hall x (List.mem_cons_of_mem _ hx)
  | readStep => exact ⟨hfreed, hleft⟩
  | readOther => exact ⟨hfreed, hleft⟩
  | snapshot => exact ⟨hfreed, hleft⟩
  | snapshotted => exact ⟨hfreed, hleft⟩
  | publish => exact ⟨hfreed, hleft⟩
  | published => exact ⟨hfreed, hleft⟩
  | acquire => exact ⟨hfreed, hleft⟩
  | prepareDecode => exact ⟨hfreed, hleft⟩
  | putWork => exact ⟨hfreed, hleft⟩
  | putShutdown => exact ⟨hfreed, hleft⟩
  | takeOutput => exact ⟨hfreed, hleft⟩
  | takeShutdown => exact ⟨hfreed, hleft⟩
  | profile => exact ⟨hfreed, hleft⟩
  | reclaimDecode => exact ⟨hfreed, hleft⟩
  | reclaimFailed => exact ⟨hfreed, hleft⟩
  | recordReclaimed => exact ⟨hfreed, hleft⟩
  | recordedReclaimed => exact ⟨hfreed, hleft⟩
  | releaseSlot => exact ⟨hfreed, hleft⟩
  | keepSlot => exact ⟨hfreed, hleft⟩
  | putResult => exact ⟨hfreed, hleft⟩
  | _ => exact ⟨hfreed, nofun⟩

theorem clean_of_reachable (h : ((laneMachine config).restrict ReleaseSettled).Reachable s) :
    Protocol config s ∧ Clean s ∧ Sourced s ∧ Releasing s := by
  have hprot := protocol_of_reachable (Machine.restrict_reachable h)
  refine ⟨hprot, ?_⟩
  refine (Machine.Reachable.invariant (I := fun s => Clean s ∧ Sourced s ∧ Releasing s) ?_ ?_ h)
  · rintro s ⟨messages, -, rfl⟩
    exact ⟨⟨nofun, nofun, nofun⟩, ⟨nofun, nofun, nofun, nofun, nofun, nofun⟩, ⟨nofun, nofun⟩⟩
  · rintro s op s' hs ⟨hclean, hsrc, hrel⟩ ⟨hstep, hC⟩
    have hp := protocol_of_reachable (Machine.restrict_reachable hs)
    exact ⟨hclean.step hp.ordered hstep hC, hsrc.step hp.fitting hstep,
      hrel.step hp.fitting hstep⟩

/-- Every run of the lanes whose releases are applied in time leaves no residue. -/
theorem released_leave_no_residue
    (h : ((laneMachine config).restrict ReleaseSettled).Reachable s) (hsent : EngineBuilt s.sent) :
    NoResidue s := by
  obtain ⟨hprot, hclean, hsrc, hrel⟩ := clean_of_reachable h
  intro k r hk _
  have hset := hclean.freed k r hk
  have hsince : ∀ t ∈ s.lastTokens.of r, ∃ j, k ≤ j ∧ j ≤ t.command ∧ Registers s.sent j r := by
    intro t ht
    obtain ⟨cmd, hcmd, hmem⟩ := hsrc.token r t ht
    obtain ⟨hlt, -⟩ := List.getElem?_eq_some_iff.mp hcmd
    exact registered_since (hset.tokens t ht) hlt (hrel.freed k r hk)
      (hsent.registered _ _ ⟨cmd, hcmd, hmem⟩)
  refine ⟨fun hnone => ⟨?_, ?_⟩, hsince⟩
  · cases he : s.reqCache.lookup r with
    | none => rfl
    | some e => exact absurd (hsrc.entry r e he) (hnone _ (hset.entry e he))
  · rw [List.eq_nil_iff_forall_not_mem]
    intro t ht
    obtain ⟨j, hkj, -, hreg⟩ := hsince t ht
    exact hnone j hkj hreg

/-- The prefill of a whole prompt, for a request that the worker does not know. -/
def prefillCommand (stepId : Nat) (r : RequestId) (finished : List RequestId) : StepCommand where
  newRequests := [{ requestId := r, promptTokenIds := [5], temperature := 0, topP := 1, topK := none }]
  prefillRequests := [{ requestId := r, chunkTokens := [5], numComputedTokens := 0, blockIds := [0] }]
  decodeRequests := []
  finishedRequestIds := finished
  stepId := stepId

/-- A command without work. -/
def cleanupCommand (stepId : Nat) (finished : List RequestId) : StepCommand where
  newRequests := []
  prefillRequests := []
  decodeRequests := []
  finishedRequestIds := finished
  stepId := stepId

/-- Restricted runs step by step. -/
theorem next_restricted {C : Lanes → LaneOp → Lanes → Prop}
    (hs : ((laneMachine config).restrict C).Reachable s) (hstep : Step config s op s')
    (hC : C s op s') : ((laneMachine config).restrict C).Reachable s' :=
  hs.next ⟨hstep, hC⟩

/-- The first command is a prefill that samples a token; its result is out. -/
theorem prefill_then (rest : List Message) (hrest : ∀ m ∈ rest, Homogeneous m)
    {C : Lanes → LaneOp → Lanes → Prop} (hfree : ∀ s op s', op ≠ .read → op ≠ .compare → C s op s')
    (hread : ∀ s s', s.numRead < s.numHandled + 2 → C s .read s') :
    ((laneMachine fusedConfig).restrict C).Reachable
      { sent := .step (prefillCommand 1 "a" []) :: rest
        numRead := 1
        numHandled := 1
        reqCache := (∅ : ReqCache).insert "a" ⟨⟨"a", [5], 0, 1, none, none⟩, 0⟩
        lastTokens := (∅ : LastTokens).insert "a" [⟨7, 0⟩]
        results := [(0, { newTokens := (∅ : Dict RequestId (List Int)).insert "a" [7], stepId := 1 })] } := by
  have h0 : ((laneMachine fusedConfig).restrict C).Reachable
      { sent := .step (prefillCommand 1 "a" []) :: rest } := by
    refine .start ⟨_, fun m hm => ?_, rfl⟩
    rcases List.mem_cons.mp hm with rfl | hm
    · exact .inr rfl
    · exact hrest m hm
  have h1 := next_restricted h0 (.readStep rfl rfl) (hread _ _ Nat.two_pos)
  have h2 := next_restricted h1 (.snapshotted rfl) (hfree _ _ _ nofun nofun)
  have h3 := next_restricted h2 (.publish rfl) (hfree _ _ _ nofun nofun)
  have h4 := next_restricted h3 (.published rfl) (hfree _ _ _ nofun nofun)
  have h5 := next_restricted h4 (.putWork rfl Nat.two_pos nofun) (hfree _ _ _ nofun nofun)
  have h6 := next_restricted h5 (.takeWork rfl rfl) (hfree _ _ _ nofun nofun)
  have h7 := next_restricted h6 (.register rfl) (hfree _ _ _ nofun nofun)
  have h8 := next_restricted h7 (.registered rfl) (hfree _ _ _ nofun nofun)
  have h9 := next_restricted h8 (.start rfl rfl rfl) (hfree _ _ _ nofun nofun)
  have htok : TokensFor (prefillCommand 1 "a" []).scheduledIds
      ((∅ : Dict RequestId (List Int)).insert "a" [7]) := by decide
  have h10 := next_restricted h9 (.compute rfl htok) (hfree _ _ _ nofun nofun)
  have h11 := next_restricted h10 (.recordComputed rfl) (hfree _ _ _ nofun nofun)
  have h12 := next_restricted h11 (.recordedComputed rfl) (hfree _ _ _ nofun nofun)
  have h13 := next_restricted h12 (.takeOutput rfl rfl nofun) (hfree _ _ _ nofun nofun)
  have h14 := next_restricted h13 (.keepSlot rfl) (hfree _ _ _ nofun nofun)
  have h15 := next_restricted h14 (.putResult rfl) (hfree _ _ _ nofun nofun)
  exact h15

theorem released_leave_no_residue_cleanup : ∃ s,
    ((laneMachine fusedConfig).restrict ReleaseSettled).Reachable s ∧ s.freed = [(1, "a")] ∧
      s.lastTokens.of "a" = [] ∧ NoResidue s := by
  have h0 := prefill_then [.step (cleanupCommand 2 ["a"])] (C := ReleaseSettled)
    (fun m hm => by cases List.mem_singleton.mp hm; exact .inl rfl)
    (fun s op s' _ hne => by cases op <;> trivial) (fun _ _ _ => trivial)
  have h1 := next_restricted h0 (.readStep rfl rfl) trivial
  have h2 := next_restricted h1 (.snapshot rfl) trivial
  have h3 := next_restricted h2 (.snapshotted rfl) trivial
  have h4 := next_restricted h3 (.published rfl) trivial
  have h5 := next_restricted h4 (.putWork rfl Nat.two_pos nofun) trivial
  have h6 := next_restricted h5 (.takeWork rfl rfl) trivial
  have h7 := next_restricted h6 (.releaseFinished rfl) trivial
  have h8 := next_restricted h7 (.compareSame rfl rfl) (by
    intro work r remaining hd
    cases hd
    refine ⟨fun i hi => ?_, .inl rfl⟩
    cases hi with
    | queued hmem => cases hmem
    | reclaiming hrec => cases hrec
    | recording hrec => cases hrec)
  have h9 := next_restricted h8 (.popEntry rfl) trivial
  have h10 := next_restricted h9 (.popTokens rfl) trivial
  have hbuilt := (engineBuilt_nil.snoc (prefillCommand 1 "a" []) (by decide)
    (by decide)).snoc (cleanupCommand 2 ["a"]) (by decide) (by decide)
  exact ⟨_, h10, rfl, rfl, released_leave_no_residue h10 hbuilt⟩

/-- A preempted request is released by the second command and registered again by the third.
The prepare loop publishes the new entry before the device lane applies the release, which
then leaves the token of the old registration. -/
theorem stale_token_after_release : ¬ ∀ config s,
    ((laneMachine config).restrict AtMostTwo).Reachable s → EngineBuilt s.sent → NoResidue s := by
  intro hall
  have h0 := prefill_then [.step (prefillCommand 2 "b" ["a"]), .step (prefillCommand 3 "a" [])]
    (C := AtMostTwo) (fun m hm => by
      rcases List.mem_cons.mp hm with rfl | hm
      · exact .inr rfl
      · cases List.mem_singleton.mp hm
        exact .inr rfl)
    (fun s op s' hne _ => by cases op <;> trivial) (fun _ _ h => h)
  -- The prepare loop runs ahead: both commands are read and their registrations published.
  have h1 := next_restricted h0 (.readStep rfl rfl) (Nat.lt_add_of_pos_right Nat.two_pos)
  have h2 := next_restricted h1 (.snapshot rfl) trivial
  have h3 := next_restricted h2 (.snapshotted rfl) trivial
  have h4 := next_restricted h3 (.publish rfl) trivial
  have h5 := next_restricted h4 (.published rfl) trivial
  have h6 := next_restricted h5 (.putWork rfl Nat.two_pos nofun) trivial
  have h7 := next_restricted h6 (.readStep rfl rfl) (Nat.lt_succ_self 2)
  have h8 := next_restricted h7 (.snapshotted rfl) trivial
  have h9 := next_restricted h8 (.publish rfl) trivial
  have h10 := next_restricted h9 (.takeWork rfl rfl) trivial
  have h11 := next_restricted h10 (.releaseFinished rfl) trivial
  have h12 := next_restricted h11 (.compareOther rfl (by decide)) trivial
  have hbuilt := ((engineBuilt_nil.snoc (prefillCommand 1 "a" []) (by decide)
    (by decide)).snoc (prefillCommand 2 "b" ["a"]) (by decide) (by decide)).snoc
      (prefillCommand 3 "a" []) (by decide) (by decide)
  obtain ⟨-, hsince⟩ := hall _ _ h12 hbuilt 1 "a" (List.mem_singleton.mpr rfl) le_rfl
  obtain ⟨j, hlow, hhigh, -⟩ := hsince ⟨7, 0⟩ (List.mem_singleton.mpr rfl)
  have : j ≤ 0 := hhigh
  omega

end Lanes
end PyptoServing.Server
