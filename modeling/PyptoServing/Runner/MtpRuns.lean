import PyptoServing.Lib.Machine
import PyptoServing.Runner.MtpSteps

/-!
# Runs of decoding with drafts

Requests are prefilled, finalized, decoded in batches of any composition and released. A step of
decoding may raise, in the drafting layer or at a dispatch of the main kernel, and its requests end;
prefilling is taken to leave the requests that are decoded alone. In every run the output of a request is what the target generates one
token after the other, and the runner's counters say how long it is.
-/
namespace PyptoServing.Runner

open Lib Lib.Raising Memory Sched

variable {σ H L : Type}

/-- The runner, and the requests that are decoded. -/
structure DraftSession (σ H : Type) where
  runner : DraftRunner σ H
  live : RequestId → Option Sequence

inductive DraftOp
  | prefill
  | finalize (requestId : RequestId) (prompt : List Int) (first : Int)
  | decode (batch : DecodeBatch)
  | release (requestIds : List RequestId)

/-- `release_finished_requests`. -/
def DraftRunner.releaseFinishedRequests (m : DraftRunner σ H) (requestIds : List RequestId) :
    DraftRunner σ H :=
  { m with requestStates := requestIds.foldl (fun states r => states.erase r) m.requestStates }

namespace DraftSession

/-- The requests that are not among the given ones. -/
def without (live : RequestId → Option Sequence) (requestIds : List RequestId) :
    RequestId → Option Sequence :=
  fun r => if r ∈ requestIds then none else live r

/-- The requests of a batch with what they were given. -/
def extended (live : RequestId → Option Sequence) (requestIds : List RequestId)
    (accepted : List (List Int)) : RequestId → Option Sequence :=
  fun r =>
    if r ∈ requestIds then (live r).map (·.append (accepted.getD (requestIds.idxOf r) []))
    else live r

end DraftSession

open DraftSession

namespace ChunkedDecode

/-- A request whose prompt is prefilled: its rows are on the device, a tail slot is reserved for it,
and it has no draft yet. -/
structure Prefilled (c : ChunkedDecode σ H L) (m : DraftRunner σ H) (r : RequestId)
    (prompt : List Int) (context : MtpPrefillContext H) : Prop where
  state : ∃ tail, m.requestStates.lookup r = some { prefillContext := some context, tail }
  promptLen : context.promptLen = prompt.length
  holds : ∀ q < prompt.length, c.kernel.holds m.device.state r q = prompt[q]?

inductive Step (c : ChunkedDecode σ H L) (s : DraftSession σ H) : DraftOp → DraftSession σ H → Prop
  /-- Prefills, and finalizations that raise, do anything that leaves the states and the rows of the
  live requests alone. -/
  | prefill {m' : DraftRunner σ H} :
      (∀ r seq, s.live r = some seq → m'.requestStates.lookup r = s.runner.requestStates.lookup r ∧
        ∀ q, c.kernel.holds m'.device.state r q = c.kernel.holds s.runner.device.state r q) →
      Step c s .prefill { s with runner := m' }
  | finalize {r : RequestId} {prompt : List Int} {first : Int} {context : MtpPrefillContext H}
      {m' : DraftRunner σ H} : s.live r = none → c.Prefilled s.runner r prompt context →
      exec (c.finalizePrefill [(r, first)]) s.runner = (.ok ⟨⟩, m') →
      Step c s (.finalize r prompt first)
        ⟨m', Function.update s.live r (some ⟨prompt, [first]⟩)⟩
  | decode {batch : DecodeBatch} {accepted : List (List Int)} {logits : List L}
      {m' : DraftRunner σ H} : c.Batched s.runner s.live batch →
      exec (c.runChunkedMtpDecode batch) s.runner = (.ok (accepted, logits), m') →
      Step c s (.decode batch) ⟨m', extended s.live (batch.rows.map (·.requestId)) accepted⟩
  | decodeFails {batch : DecodeBatch} {e : String} {m' : DraftRunner σ H} :
      c.Batched s.runner s.live batch →
      exec (c.runChunkedMtpDecode batch) s.runner = (.error e, m') →
      Step c s (.decode batch) ⟨m', without s.live (batch.rows.map (·.requestId))⟩
  | release {requestIds : List RequestId} :
      Step c s (.release requestIds)
        ⟨s.runner.releaseFinishedRequests requestIds, without s.live requestIds⟩

/-- Every run, from a runner without requests. -/
def machine (c : ChunkedDecode σ H L) : Machine (DraftSession σ H) DraftOp where
  init s := s.runner.requestStates = ∅ ∧ s.live = fun _ => none
  step := c.Step

end ChunkedDecode

open ChunkedDecode

variable {c : ChunkedDecode σ H L} {target : Target H L} {s s' : DraftSession σ H}
  {m m' : DraftRunner σ H} {r : RequestId} {live : RequestId → Option Sequence}

theorem lookup_releaseFinishedRequests {requestIds : List RequestId} (hr : r ∉ requestIds) :
    (m.releaseFinishedRequests requestIds).requestStates.lookup r = m.requestStates.lookup r := by
  unfold DraftRunner.releaseFinishedRequests
  dsimp only
  induction requestIds generalizing m with
  | nil => rfl
  | cons r' requestIds ih =>
    rw [List.mem_cons, not_or] at hr
    rw [List.foldl_cons]
    exact (ih (m := { m with requestStates := m.requestStates.erase r' }) hr.2).trans
      (AList.lookup_erase_ne hr.1)

theorem without_eq_some {requestIds : List RequestId} {seq : Sequence} :
    without live requestIds r = some seq ↔ r ∉ requestIds ∧ live r = some seq := by
  unfold without
  split
  · next h => simp [h]
  · next h => simp [h]

/-- The first draft of a request publishes its prompt. -/
theorem follows_finalized (target : Target H L) (hquiet : c.drafter.Quiet c.kernel) {prompt : List Int}
    {first : Int} {context : MtpPrefillContext H} (hp : c.Prefilled m r prompt context)
    (hexec : exec (c.finalizePrefill [(r, first)]) m = (.ok ⟨⟩, m')) :
    (∃ state, c.Follows target m' r ⟨prompt, [first]⟩ state) ∧
      (∀ r' ≠ r, m'.requestStates.lookup r' = m.requestStates.lookup r') ∧
      c.kernel.holds m'.device.state = c.kernel.holds m.device.state := by
  obtain ⟨_, m₁, hbody, hnil⟩ := exec_bind_inv (show exec (_ >>= fun _ => _) m = _ from hexec)
  cases hnil
  obtain ⟨tail, hreserved⟩ := hp.state
  rw [exec_bind_ok (exec_requireDraftState hreserved)] at hbody
  obtain ⟨⟨token, hidden⟩, m₂, hdraft, hwrite⟩ := exec_bind_inv
    (show exec (onDrafter (fun s => c.drafter.promptStep s context first) >>= fun drafted =>
      updateDraftState r fun state => { state.withDraft drafted.1 drafted.2 (context.positionId + 1) with
        promptLen := context.promptLen, prefillContext := none }) m = _ from hbody)
  obtain ⟨hsame, -⟩ := (keeps_onDrafter fun s => hquiet.promptStep s _ _).result (.refl m) hdraft
  rw [← hsame.states] at hreserved
  rw [exec_updateDraftState hreserved] at hwrite
  cases hwrite
  refine ⟨⟨_, AList.lookup_insert _, ⟨rfl, rfl, rfl⟩, hp.promptLen, ⟨first, rfl⟩, le_rfl, fun q hq => ?_⟩,
    fun r' hr' => (AList.lookup_insert_ne hr').trans (by rw [hsame.states]), hsame.holds⟩
  have hlt : q < prompt.length := by
    simpa [Sequence.tokens] using hq
  show c.kernel.holds m₂.device.state r q = _
  rw [hsame.holds, hp.holds q hlt]
  exact (List.getElem?_append_left hlt).symm

/-- One step keeps track of every live request. -/
theorem tracks_step (hc : c.Decodes target) {op : DraftOp} (ht : c.Tracks target s.runner s.live)
    (hstep : c.Step s op s') : c.Tracks target s'.runner s'.live := by
  cases hstep with
  | prefill hkept =>
    intro r seq hseq
    obtain ⟨state, hfollows⟩ := ht r seq hseq
    obtain ⟨hstate, hholds⟩ := hkept r seq hseq
    exact ⟨state, hfollows.congr hstate hholds⟩
  | @finalize r₀ prompt first context m' hnew hp hexec =>
    obtain ⟨hfinal, hother, hholds⟩ := follows_finalized target hc.quiet hp hexec
    intro r seq hseq
    dsimp only at hseq
    by_cases hr : r = r₀
    · subst hr
      rw [Function.update_self] at hseq
      cases hseq
      exact hfinal
    · rw [Function.update_of_ne hr] at hseq
      obtain ⟨state, hfollows⟩ := ht r seq hseq
      exact ⟨state, hfollows.congr (hother r hr) fun q => by rw [hholds]⟩
  | @decode batch accepted logits m' hb hexec =>
    obtain ⟨m'', hframe, ⟨e, herror, -⟩ | ⟨accepted', logits', hok, hlen, hfollowed⟩⟩ :=
      exec_runChunkedMtpDecode hc ht hb
    · rw [hexec] at herror
      cases herror
    rw [hexec] at hok
    cases hok
    intro r seq hseq
    dsimp only [extended] at hseq
    split at hseq
    · next hr =>
      obtain ⟨seq₀, hseq₀, rfl⟩ := Option.map_eq_some_iff.mp hseq
      have hi := List.idxOf_lt_length_of_mem hr
      rw [List.length_map] at hi
      have hget := List.getElem?_eq_getElem hi
      have hid : (batch.rows[(batch.rows.map (·.requestId)).idxOf r]).requestId = r := by
        have hidx := List.getElem_idxOf (List.idxOf_lt_length_of_mem hr)
        rwa [List.getElem_map] at hidx
      obtain ⟨tokens, state, htokens, -, -, hfollows⟩ := hfollowed _ _ seq₀ hget (by rw [hid]; exact hseq₀)
      rw [hid] at hfollows
      rw [List.getD_eq_getElem?_getD, htokens]
      exact ⟨state, hfollows⟩
    · next hr =>
      obtain ⟨state, hfollows⟩ := ht r seq hseq
      exact ⟨state, hfollows.congr (hframe.states r hr) (hframe.holds r hr)⟩
  | @decodeFails batch e m' hb hexec =>
    obtain ⟨m'', hframe, ⟨e', herror, -⟩ | ⟨accepted', logits', hok, -⟩⟩ :=
      exec_runChunkedMtpDecode hc ht hb
    · rw [hexec] at herror
      cases herror
      intro r seq hseq
      obtain ⟨hr, hlive⟩ := without_eq_some.mp hseq
      obtain ⟨state, hfollows⟩ := ht r seq hlive
      exact ⟨state, hfollows.congr (hframe.states r hr) (hframe.holds r hr)⟩
    · rw [hexec] at hok
      cases hok
  | release =>
    intro r seq hseq
    obtain ⟨hr, hlive⟩ := without_eq_some.mp hseq
    obtain ⟨state, hfollows⟩ := ht r seq hlive
    exact ⟨state, hfollows.congr (lookup_releaseFinishedRequests hr) fun _ => rfl⟩

theorem tracks_reachable (hc : c.Decodes target) (hs : c.machine.Reachable s) :
    c.Tracks target s.runner s.live := by
  refine hs.invariant (I := fun s => c.Tracks target s.runner s.live) (fun s h r seq hseq => ?_)
    fun s op s' _ ht hstep => tracks_step hc ht hstep
  rw [h.2] at hseq
  cases hseq

/-- In every run the output of every live request is what the target generates one token after the
other behind its first token, whatever was drafted and whoever was in its batches; the runner's
counters give its length once drafts were proposed for it, whatever length the scheduler sends. -/
theorem decode_generates (hc : c.Decodes target) (hs : c.machine.Reachable s) :
    ∀ r seq, s.live r = some seq → ∃ state, c.Follows target s.runner r seq state ∧
      (0 < state.proposedTokens → ∀ row : DecodeRow, row.requestId = r →
        correctMtpSeqLen s.runner.requestStates row = seq.tokens.length) := by
  intro r seq hseq
  obtain ⟨state, hfollows⟩ := tracks_reachable hc hs r seq hseq
  refine ⟨state, hfollows, fun hpos row hrow => ?_⟩
  subst hrow
  exact correctMtpSeqLen_eq hfollows fun hzero => absurd hzero hpos.ne'

/-- A drafting layer whose first draft is right and whose second one is wrong. -/
def halfDrafter : Drafter TokenMemory Unit where
  tokenStep s batch _ _ _ := (s, .ok (batch.rows.map fun _ => 9, batch.rows.map fun _ => ()))
  promptStep s context _ := (s, .ok ((context.positionId : Int) + 2, ()))

def countingDecode : ChunkedDecode TokenMemory Unit Unit where
  kernel := referenceKernel Verification.countingTarget 4
  drafter := halfDrafter
  layout := deepseekV4DecodeLayout 2
  numSpeculativeTokens := 2
  maxSeqLen := 16

theorem countingDecode_decodes : countingDecode.Decodes Verification.countingTarget where
  computes := referenceKernel_computes _ _
  width := Nat.zero_lt_succ 3
  tokens := rfl
  quiet := by
    refine ⟨fun _ _ _ _ _ => rfl, fun s batch tokenIds hidden positions tokens rows h => ?_,
      fun _ _ _ => rfl⟩
    cases h
    exact ⟨List.length_map _, List.length_map _⟩

/-- One prefilled request. -/
def countedRunner : DraftRunner TokenMemory Unit where
  device := { state := fun r q => if r = "a" then [(7 : Int), 8][q]? else none }
  requestStates := AList.singleton "a" {
    prefillContext := some {
      rank := 0, prevHiddenState := (), positionId := 1, blockTable := [], slotMapping := 0
      promptLen := 2 }
    tail := some ⟨0, 3, 1⟩ }

def finalizedRunner : DraftRunner TokenMemory Unit :=
  (exec (countingDecode.finalizePrefill [("a", 2)]) countedRunner).2

def countedBatch : DecodeBatch where
  rows := [⟨"a", 2, 3, some 0⟩]
  allowDeviceGreedySampling := true
  samplingParams := [defaultSampling]

def countedLive : RequestId → Option Sequence :=
  Function.update (fun _ => none) "a" (some ⟨[7, 8], [2]⟩)

theorem finalizedRunner_reachable : countingDecode.machine.Reachable ⟨finalizedRunner, countedLive⟩ := by
  have hstart : countingDecode.machine.Reachable ⟨⟨⟨fun _ _ => none, []⟩, ∅, 0, 0⟩, fun _ => none⟩ :=
    .start ⟨rfl, rfl⟩
  have hprefill : countingDecode.machine.Reachable ⟨countedRunner, fun _ => none⟩ := by
    refine hstart.next (a := .prefill) (Step.prefill fun r seq hseq => ?_)
    cases hseq
  have hprefilled : countingDecode.Prefilled countedRunner "a" [7, 8] ⟨0, (), 1, [], 0, 2⟩ := by
    refine ⟨⟨_, rfl⟩, rfl, fun q hq => ?_⟩
    have hlt : q < 2 := hq
    interval_cases q <;> rfl
  exact hprefill.next (a := .finalize "a" [7, 8] 2) (Step.finalize rfl hprefilled rfl)

theorem countedBatch_batched : countingDecode.Batched finalizedRunner countedLive countedBatch := by
  refine ⟨List.nodup_singleton _, ?_, .inr rfl, fun row hrow => ?_⟩
  · have hfits : Fits (deepseekV4DecodeLayout 2) ([0].map some) := by
      refine ⟨fun p hp => ?_, fun rank => List.count_le_length.trans (show 1 ≤ 4 by decide)⟩
      obtain rfl := List.mem_singleton.mp hp
      exact ⟨0, by decide, rfl⟩
    obtain ⟨a, ha, -⟩ := hfits.assigned (List.cons_ne_nil "a" []) rfl
    exact ⟨a, ha⟩
  · obtain rfl := List.mem_singleton.mp hrow
    exact ⟨_, rfl, rfl, fun _ _ _ => rfl⟩

def decodedRunner : DraftRunner TokenMemory Unit :=
  (exec (countingDecode.runChunkedMtpDecode countedBatch) finalizedRunner).2

theorem counted_decodes : exec (countingDecode.runChunkedMtpDecode countedBatch) finalizedRunner =
    (.ok ([[3, 4]], [()]), decodedRunner) := by
  have hresult : (exec (countingDecode.runChunkedMtpDecode countedBatch) finalizedRunner).1 =
      .ok ([[3, 4]], [()]) := by
    decide +kernel
  refine Prod.ext hresult ?_
  dsimp only [decodedRunner]

def decodedSession : DraftSession TokenMemory Unit where
  runner := decodedRunner
  live := extended countedLive ["a"] [[3, 4]]

theorem decodedSession_reachable : countingDecode.machine.Reachable decodedSession :=
  finalizedRunner_reachable.next (a := .decode countedBatch)
    (Step.decode countedBatch_batched counted_decodes)

/-- The request with a wrong draft has the tokens that the target counts. -/
theorem decode_generates_counted : decodedSession.live "a" = some ⟨[7, 8], [2, 3, 4]⟩ ∧
    ∃ state, countingDecode.Follows Verification.countingTarget decodedSession.runner "a"
        ⟨[7, 8], [2, 3, 4]⟩ state ∧
      (0 < state.proposedTokens → ∀ row : DecodeRow, row.requestId = "a" →
        correctMtpSeqLen decodedSession.runner.requestStates row = 5) := by
  have hlive : decodedSession.live "a" = some ⟨[7, 8], [2, 3, 4]⟩ := rfl
  exact ⟨hlive, decode_generates countingDecode_decodes decodedSession_reachable "a" _ hlive⟩

end PyptoServing.Runner
