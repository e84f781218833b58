import PyptoServing.Engine.Replica
import PyptoServing.Sched.Effects

/-!
# The outputs of one request

`_process_step_output` seen from one request: its object, its context and what was put on
its queue. The text of a request is decoded in short windows; where a window renders like
the whole, the running text is the text of the tokens covered so far.
-/
namespace PyptoServing.Engine

open Lib Memory Sched

/-- One request on its own, with its context and the outputs for its client. -/
structure Delivery where
  request : Request
  ctx : Context
  emitted : List TokenOutput := []

namespace Delivery

/-- The loop body of `_process_step_output` for an output of the request. -/
def deliver (decode : List Int → String) (d : Delivery) (out : RequestOutput) : Delivery :=
  let ctx := d.ctx.detokenizeIncrementally decode d.request.outputTokenIds
  let checked := Replica.stopOutput d.request ctx out
  let request :=
    if checked.finished ∧ ¬ out.finished then { d.request with status := .finishedStop }
    else d.request
  let ctx :=
    if checked.finished then ctx.finalizeDetokenization decode request.outputTokenIds else ctx
  { request, ctx
    emitted :=
      if !ctx.stream && !checked.finished then d.emitted
      else d.emitted ++ [Replica.tokenOutput request ctx checked] }

/-- The outputs of the request in one result, and the request after the finish check. -/
def update (request : Request) (tokens : List Int) : Request × List RequestOutput :=
  let appended := Scheduler.appendTokens request tokens
  let outs := (tokens.take appended.2).map (Scheduler.tokenOutput request.requestId)
  match Scheduler.checkFinish appended.1 with
  | none => (appended.1, outs)
  | some status =>
    ({ appended.1 with status }, Scheduler.markFinished request.requestId status.name outs)

/-- The tokens of one result: `update_from_output` and `_process_step_output`. The result
of a request that has finished is dropped. -/
def receive (decode : List Int → String) (d : Delivery) (tokens : List Int) : Delivery :=
  if d.request.status.isFinished then d
  else
    let updated := update d.request tokens
    updated.2.foldl (deliver decode) { d with request := updated.1 }

/-- A request whose first tokens are still to come. -/
def start (request : Request) (stream : Bool) : Delivery where
  request := { request with outputTokenIds := [], status := .running }
  ctx := { stream }

/-- The number of final outputs. -/
def finals (d : Delivery) : Nat := d.emitted.countP (·.finished)

end Delivery

/-- A text that does not end inside a character. -/
def Complete (text : String) : Prop := text.toList.getLast? ≠ some Context.replacementChar

instance (text : String) : Decidable (Complete text) := inferInstanceAs (Decidable (_ ≠ _))

/-- What the short windows of `_detokenize_incrementally` rely on: three tokens of context
render the tokens behind them as a full decode does. -/
structure Renders (decode : List Int → String) : Prop where
  nil : decode [] = ""
  window : ∀ (ids : List Int) (n : Nat), n ≤ ids.length → Complete (decode (ids.take n)) →
    (decode ids).toList = (decode (ids.take n)).toList ++
      (decode (ids.drop (n - 3))).toList.drop
        (decode ((ids.take n).drop (n - 3))).length

/-- The running text is the text of the tokens that it covers. -/
structure Context.Covers (ctx : Context) (decode : List Int → String) (ids : List Int) : Prop where
  read : ctx.detokReadOffset ≤ ids.length
  prefixOffset : ctx.detokPrefixOffset = ctx.detokReadOffset - 3
  text : ctx.detokText = decode (ids.take ctx.detokReadOffset)
  complete : Complete ctx.detokText

namespace Context
variable {ctx : Context} {decode : List Int → String} {ids : List Int}

theorem Covers.append (h : ctx.Covers decode ids) (more : List Int) :
    ctx.Covers decode (ids ++ more) where
  read := h.read.trans (by simp)
  prefixOffset := h.prefixOffset
  text := by rw [List.take_append_of_le_length h.read, h.text]
  complete := h.complete

/-- Where the window shows nothing new, the text of all tokens is the running text. -/
theorem Covers.full (h : ctx.Covers decode ids) (hd : Renders decode) :
    (decode ids).toList = ctx.detokText.toList ++
      (decode (ids.drop ctx.detokPrefixOffset)).toList.drop
        (decode ((ids.take ctx.detokReadOffset).drop ctx.detokPrefixOffset)).length := by
  have hc := h.complete
  rw [h.text] at hc
  rw [hd.window ids _ h.read hc, h.text, h.prefixOffset]

/-- A text that grows by a nonempty tail ends as the tail does. -/
theorem complete_append {l tail : List Char} {text other : String} (htext : text.toList = l ++ tail)
    (hother : tail <:+ other.toList) (hne : tail ≠ []) : Complete text ↔ Complete other := by
  obtain ⟨front, hfront⟩ := hother
  rw [Complete, Complete, htext, ← hfront, List.getLast?_append_of_ne_nil _ hne,
    List.getLast?_append_of_ne_nil _ hne]

/-- The running text after a call: the text of all tokens, unless that ends inside a
character. -/
theorem Covers.detokenize (h : ctx.Covers decode ids) (hd : Renders decode) :
    (ctx.detokenizeIncrementally decode ids).Covers decode ids ∧
      (Complete (decode ids) →
        (ctx.detokenizeIncrementally decode ids).detokText = decode ids) ∧
      (¬ Complete (decode ids) → ctx.detokenizeIncrementally decode ids = ctx) := by
  have hfull := h.full hd
  unfold detokenizeIncrementally
  by_cases hids : ids = []
  · rw [if_pos hids]
    subst hids
    have htext : ctx.detokText = decode [] := by rw [h.text, List.take_nil]
    exact ⟨h, fun _ => htext, fun _ => rfl⟩
  · rw [if_neg hids]
    have hstart : (if (ids.take ctx.detokReadOffset).drop ctx.detokPrefixOffset = [] then ""
        else decode ((ids.take ctx.detokReadOffset).drop ctx.detokPrefixOffset)) =
        decode ((ids.take ctx.detokReadOffset).drop ctx.detokPrefixOffset) := by
      split
      · next hnil => rw [hnil, hd.nil]
      · rfl
    dsimp only
    rw [hstart]
    generalize htail : (decode (ids.drop ctx.detokPrefixOffset)).toList.drop
      (decode ((ids.take ctx.detokReadOffset).drop ctx.detokPrefixOffset)).length = tail at hfull
    have hsuffix : tail <:+ (decode (ids.drop ctx.detokPrefixOffset)).toList := by
      rw [← htail]
      exact List.drop_suffix _ _
    by_cases hshort : (decode (ids.drop ctx.detokPrefixOffset)).length ≤
        (decode ((ids.take ctx.detokReadOffset).drop ctx.detokPrefixOffset)).length
    · rw [if_pos (.inl hshort)]
      have hnil : tail = [] := by
        rw [← htail, List.drop_eq_nil_iff, String.length_toList]
        exact hshort
      rw [hnil, List.append_nil] at hfull
      have htext : ctx.detokText = decode ids := String.toList_inj.mp hfull.symm
      exact ⟨h, fun _ => htext, fun _ => rfl⟩
    · have hne : tail ≠ [] := by
        rw [← htail, Ne, List.drop_eq_nil_iff, String.length_toList]
        exact hshort
      have hends := complete_append hfull hsuffix hne
      by_cases hpart : (decode (ids.drop ctx.detokPrefixOffset)).toList.getLast? =
          some replacementChar
      · rw [if_pos (.inr hpart)]
        exact ⟨h, fun hc => absurd (hends.mp hc) (not_not.mpr hpart), fun _ => rfl⟩
      · rw [if_neg (not_or.mpr ⟨hshort, hpart⟩)]
        have htext : ctx.detokText ++ String.ofList tail = decode ids := by
          apply String.toList_inj.mp
          rw [hfull, String.toList_append, String.toList_ofList]
        refine ⟨⟨le_rfl, rfl, ?_, ?_⟩, fun _ => htext, fun hc => absurd (hends.mpr hpart) hc⟩
        · rw [List.take_length]
          exact htext
        · dsimp only
          rw [htext]
          exact hends.mpr hpart

/-- A context that has read every token has nothing left to decode. -/
theorem detokenize_read (hread : ctx.detokReadOffset = ids.length)
    (hstart : ctx.detokPrefixOffset = ids.length - 3) :
    ctx.detokenizeIncrementally decode ids = ctx := by
  unfold detokenizeIncrementally
  split
  · rfl
  · next hids =>
    have hne : ids.drop (ids.length - 3) ≠ [] := by
      rw [Ne, List.drop_eq_nil_iff]
      have := List.length_pos_iff.mpr hids
      omega
    dsimp only
    rw [hread, hstart, List.take_length, if_neg hne, if_pos (.inl le_rfl)]

/-- A call leaves the context alone or reads every token. -/
theorem detokenize_cases (ctx : Context) (decode : List Int → String) (ids : List Int) :
    ctx.detokenizeIncrementally decode ids = ctx ∨
      ((ctx.detokenizeIncrementally decode ids).detokReadOffset = ids.length ∧
        (ctx.detokenizeIncrementally decode ids).detokPrefixOffset = ids.length - 3) := by
  unfold detokenizeIncrementally
  by_cases hids : ids = []
  · exact .inl (if_pos hids)
  · rw [if_neg hids]
    dsimp only
    generalize (if (ids.take ctx.detokReadOffset).drop ctx.detokPrefixOffset = [] then ""
      else decode ((ids.take ctx.detokReadOffset).drop ctx.detokPrefixOffset)) = prefixText
    split
    · exact .inl rfl
    · exact .inr ⟨rfl, rfl⟩

/-- Decoding the same tokens again changes nothing. -/
theorem detokenize_again (ctx : Context) (decode : List Int → String) (ids : List Int) :
    (ctx.detokenizeIncrementally decode ids).detokenizeIncrementally decode ids =
      ctx.detokenizeIncrementally decode ids := by
  rcases detokenize_cases ctx decode ids with hsame | ⟨hread, hstart⟩
  · rw [hsame, hsame]
  · exact detokenize_read hread hstart

theorem detokenize_stream (ctx : Context) (decode : List Int → String) (ids : List Int) :
    (ctx.detokenizeIncrementally decode ids).stream = ctx.stream := by
  unfold detokenizeIncrementally
  split
  · rfl
  · dsimp only
    generalize (if (ids.take ctx.detokReadOffset).drop ctx.detokPrefixOffset = [] then ""
      else decode ((ids.take ctx.detokReadOffset).drop ctx.detokPrefixOffset)) = prefixText
    split <;> rfl

theorem finalize_text (ctx : Context) (decode : List Int → String) (hids : ids ≠ []) :
    (ctx.finalizeDetokenization decode ids).detokText = decode ids := by
  rw [finalizeDetokenization, if_neg hids]

theorem finalize_again (ctx : Context) (decode : List Int → String) (hids : ids ≠ []) :
    (ctx.finalizeDetokenization decode ids).detokenizeIncrementally decode ids =
      ctx.finalizeDetokenization decode ids := by
  apply detokenize_read <;> rw [finalizeDetokenization, if_neg hids]

end Context

/-- The text ends in a stop string. -/
def EndsInStop (stops : List String) (text : String) : Prop :=
  ∃ stop ∈ stops, stop ≠ "" ∧ stop.toList <:+ text.toList

instance (stops : List String) (text : String) : Decidable (EndsInStop stops text) :=
  inferInstanceAs (Decidable (∃ stop ∈ stops, _))

/-- The text ends in a stop string, and not inside a character. -/
def Detected (stops : List String) (text : String) : Prop := EndsInStop stops text ∧ Complete text

instance (stops : List String) (text : String) : Decidable (Detected stops text) :=
  inferInstanceAs (Decidable (_ ∧ _))

theorem any_endsWith (stops : List String) (ctx : Context) :
    stops.any ctx.endsWith = true ↔ EndsInStop stops ctx.detokText := by
  simp [EndsInStop, Context.endsWith, List.any_eq_true]

namespace Delivery
variable {decode : List Int → String} {d : Delivery} {out : RequestOutput} {ids : List Int}

/-- An output that the scheduler marked. -/
theorem deliver_final (hf : out.finished = true) : d.deliver decode out =
    { request := d.request
      ctx := (d.ctx.detokenizeIncrementally decode d.request.outputTokenIds).finalizeDetokenization
        decode d.request.outputTokenIds
      emitted := d.emitted ++ [Replica.tokenOutput d.request
        ((d.ctx.detokenizeIncrementally decode d.request.outputTokenIds).finalizeDetokenization
          decode d.request.outputTokenIds) out] } := by
  simp [deliver, Replica.stopOutput, hf]

/-- An output behind which the text ends in a stop string. -/
theorem deliver_stop (hf : out.finished = false) (hstop : EndsInStop d.request.stopStrings
      (d.ctx.detokenizeIncrementally decode d.request.outputTokenIds).detokText) :
    d.deliver decode out =
    { request := { d.request with status := .finishedStop }
      ctx := (d.ctx.detokenizeIncrementally decode d.request.outputTokenIds).finalizeDetokenization
        decode d.request.outputTokenIds
      emitted := d.emitted ++ [Replica.tokenOutput { d.request with status := .finishedStop }
        ((d.ctx.detokenizeIncrementally decode d.request.outputTokenIds).finalizeDetokenization
          decode d.request.outputTokenIds)
        { out with finished := true, finishReason := RequestStatus.finishedStop.name }] } := by
  simp [deliver, Replica.stopOutput, hf, (any_endsWith _ _).mpr hstop]

/-- Any other output. -/
theorem deliver_plain (hf : out.finished = false) (hstop : ¬ EndsInStop d.request.stopStrings
      (d.ctx.detokenizeIncrementally decode d.request.outputTokenIds).detokText) :
    d.deliver decode out =
    { request := d.request
      ctx := d.ctx.detokenizeIncrementally decode d.request.outputTokenIds
      emitted :=
        if (d.ctx.detokenizeIncrementally decode d.request.outputTokenIds).stream then
          d.emitted ++ [Replica.tokenOutput d.request
            (d.ctx.detokenizeIncrementally decode d.request.outputTokenIds) out]
        else d.emitted } := by
  have hany : d.request.stopStrings.any
      (d.ctx.detokenizeIncrementally decode d.request.outputTokenIds).endsWith = false := by
    rw [Bool.eq_false_iff]
    exact fun h => hstop ((any_endsWith _ _).mp h)
  simp only [deliver, Replica.stopOutput, hf, hany]
  cases hstream : (d.ctx.detokenizeIncrementally decode d.request.outputTokenIds).stream <;>
    simp [hf, hstream]

/-- What delivering some outputs of the request leaves behind. -/
structure Delivered (d : Delivery) (outs : List RequestOutput) (d' : Delivery) : Prop where
  request : d'.request = { d.request with status := d'.request.status }
  tokens : (d'.emitted.filterMap (·.tokenId)).Sublist
    (d.emitted.filterMap (·.tokenId) ++ outs.filterMap (·.newTokenId))
  finals : d.finals ≤ d'.finals

theorem Delivered.nil (d : Delivery) : Delivered d [] d := ⟨rfl, by simp, le_rfl⟩

theorem Delivered.cons {d₁ d₂ : Delivery} {outs : List RequestOutput}
    (h : Delivered d [out] d₁) (h' : Delivered d₁ outs d₂) : Delivered d (out :: outs) d₂ where
  request := by
    rw [h'.request, h.request]
  tokens := by
    refine h'.tokens.trans ?_
    have := h.tokens.append_right (outs.filterMap (·.newTokenId))
    rw [List.append_assoc, ← List.filterMap_append] at this
    exact this
  finals := h.finals.trans h'.finals

theorem delivered_one (d : Delivery) (decode : List Int → String) (out : RequestOutput) :
    Delivered d [out] (d.deliver decode out) := by
  have happend : ∀ (q : Request) (ctx : Context) (o : RequestOutput),
      o.newTokenId = out.newTokenId →
      ((d.emitted ++ [Replica.tokenOutput q ctx o]).filterMap (·.tokenId)).Sublist
        (d.emitted.filterMap (·.tokenId) ++ [out].filterMap (·.newTokenId)) := by
    intro q ctx o ho
    have hone : [Replica.tokenOutput q ctx o].filterMap (·.tokenId) =
        [out].filterMap (·.newTokenId) := by
      simp [List.filterMap_cons, Replica.tokenOutput, ho]
    rw [List.filterMap_append, hone]
  have hgrow : ∀ (l : List TokenOutput), d.finals ≤ (d.emitted ++ l).countP (·.finished) := by
    intro l
    rw [List.countP_append, finals]
    omega
  cases hf : out.finished with
  | true =>
    rw [deliver_final hf]
    exact ⟨rfl, happend _ _ _ rfl, hgrow _⟩
  | false =>
    by_cases hstop : EndsInStop d.request.stopStrings
        (d.ctx.detokenizeIncrementally decode d.request.outputTokenIds).detokText
    · rw [deliver_stop hf hstop]
      exact ⟨rfl, happend _ _ _ rfl, hgrow _⟩
    · rw [deliver_plain hf hstop]
      refine ⟨rfl, ?_, ?_⟩
      · dsimp only
        split
        · exact happend _ _ _ rfl
        · exact List.sublist_append_left _ _
      · rw [finals, finals]
        dsimp only
        split
        · exact hgrow _
        · exact le_rfl

theorem delivered_all (decode : List Int → String) (outs : List RequestOutput) (d : Delivery) :
    Delivered d outs (outs.foldl (deliver decode) d) := by
  induction outs generalizing d with
  | nil => exact .nil d
  | cons out outs ih => exact (delivered_one d decode out).cons (ih _)

/-- The text behind the tokens ends in a stop string, as far as the running text shows. -/
def Hot (decode : List Int → String) (d : Delivery) : Prop :=
  EndsInStop d.request.stopStrings
    (d.ctx.detokenizeIncrementally decode d.request.outputTokenIds).detokText

/-- What an output leaves behind where the text ends in a stop string. -/
structure Stops (decode : List Int → String) (d : Delivery) (out : RequestOutput) (d' : Delivery) :
    Prop where
  hot : d'.Hot decode
  text : (d'.ctx.detokenizeIncrementally decode d'.request.outputTokenIds).detokText =
    decode d'.request.outputTokenIds
  finals : d'.finals = d.finals + 1
  status : d'.request.status = if out.finished then d.request.status else .finishedStop

theorem deliver_stops (hids : d.request.outputTokenIds ≠ []) (hhot : d.Hot decode)
    (htext : (d.ctx.detokenizeIncrementally decode d.request.outputTokenIds).detokText =
      decode d.request.outputTokenIds) : Stops decode d out (d.deliver decode out) := by
  have hagain := Context.finalize_again
    (d.ctx.detokenizeIncrementally decode d.request.outputTokenIds) decode hids
  have hfinal := Context.finalize_text
    (d.ctx.detokenizeIncrementally decode d.request.outputTokenIds) decode hids
  have hends : EndsInStop d.request.stopStrings (decode d.request.outputTokenIds) := by
    rw [← htext]
    exact hhot
  cases hf : out.finished with
  | true =>
    rw [deliver_final hf]
    refine ⟨?_, ?_, ?_, ?_⟩
    · rw [Hot, hagain, hfinal]
      exact hends
    · rw [hagain, hfinal]
    · simp [finals, Replica.tokenOutput, hf]
    · rw [hf]
      rfl
  | false =>
    rw [deliver_stop hf hhot]
    refine ⟨?_, ?_, ?_, ?_⟩
    · rw [Hot, hagain, hfinal]
      exact hends
    · rw [hagain, hfinal]
    · simp [finals, Replica.tokenOutput]
    · rw [hf]
      rfl

/-- Behind a stop string every output is final. -/
theorem deliver_hot (decode : List Int → String) (outs : List RequestOutput) {d : Delivery}
    (hids : d.request.outputTokenIds ≠ []) (hhot : d.Hot decode)
    (htext : (d.ctx.detokenizeIncrementally decode d.request.outputTokenIds).detokText =
      decode d.request.outputTokenIds) :
    (outs.foldl (deliver decode) d).finals = d.finals + outs.length ∧
      (outs.foldl (deliver decode) d).request.status =
        if outs.all (·.finished) then d.request.status else .finishedStop := by
  induction outs generalizing d with
  | nil => exact ⟨rfl, rfl⟩
  | cons out outs ih =>
    have hstop : Stops decode d out (d.deliver decode out) := deliver_stops hids hhot htext
    have hids' : (d.deliver decode out).request.outputTokenIds ≠ [] := by
      rw [(delivered_one d decode out).request]
      exact hids
    obtain ⟨hfinals, hstatus⟩ := ih hids' hstop.hot hstop.text
    rw [List.foldl_cons, List.all_cons, hfinals, hstop.finals, hstatus, hstop.status]
    refine ⟨by simp; omega, ?_⟩
    cases out.finished <;> simp

/-- Without a stop string an output that is not final leaves the request alone. -/
theorem deliver_cold (decode : List Int → String) (outs : List RequestOutput) {d : Delivery}
    (hcold : ¬ d.Hot decode) (hplain : ∀ out ∈ outs, out.finished = false) :
    (outs.foldl (deliver decode) d).finals = d.finals ∧
      (outs.foldl (deliver decode) d).request = d.request ∧
      (outs.foldl (deliver decode) d).ctx.detokenizeIncrementally decode d.request.outputTokenIds =
        d.ctx.detokenizeIncrementally decode d.request.outputTokenIds ∧
      (outs ≠ [] → (outs.foldl (deliver decode) d).ctx =
        d.ctx.detokenizeIncrementally decode d.request.outputTokenIds) := by
  induction outs generalizing d with
  | nil => exact ⟨rfl, rfl, rfl, fun h => absurd rfl h⟩
  | cons out outs ih =>
    have hf := hplain out (by simp)
    rw [List.foldl_cons, deliver_plain hf hcold]
    have hagain := Context.detokenize_again d.ctx decode d.request.outputTokenIds
    have hcold' : ¬ Hot decode
        { request := d.request
          ctx := d.ctx.detokenizeIncrementally decode d.request.outputTokenIds
          emitted :=
            if (d.ctx.detokenizeIncrementally decode d.request.outputTokenIds).stream then
              d.emitted ++ [Replica.tokenOutput d.request
                (d.ctx.detokenizeIncrementally decode d.request.outputTokenIds) out]
            else d.emitted } := by
      rw [Hot]
      dsimp only
      rw [hagain]
      exact hcold
    obtain ⟨hfinals, hrequest, hctx, hlast⟩ := ih hcold' fun o ho => hplain o (by simp [ho])
    dsimp only at hrequest hctx hlast
    rw [hagain] at hctx hlast
    refine ⟨hfinals.trans ?_, hrequest, hctx, fun _ => ?_⟩
    · unfold finals
      dsimp only
      split
      · simp [Replica.tokenOutput, hf]
      · rfl
    · by_cases hnil : outs = []
      · subst hnil
        rfl
      · exact hlast hnil

/-- The finish check of a request that has these tokens. -/
def endOf (request : Request) (ids : List Int) : Option RequestStatus :=
  Scheduler.checkFinish { request with outputTokenIds := ids }

/-- What the append loop keeps of some tokens. -/
structure Keeps (request : Request) (tokens : List Int) (kept : Nat) : Prop where
  pos : tokens ≠ [] → 0 < kept
  le : kept ≤ tokens.length
  early : ∀ j, 0 < j → j < kept → endOf request (request.outputTokenIds ++ tokens.take j) = none
  ended : kept < tokens.length →
    (endOf request (request.outputTokenIds ++ tokens.take kept)).isSome = true

theorem appendTokens_keeps (request : Request) (tokens : List Int) :
    (Scheduler.appendTokens request tokens).1 = { request with
      outputTokenIds :=
        request.outputTokenIds ++ tokens.take (Scheduler.appendTokens request tokens).2 } ∧
    Keeps request tokens (Scheduler.appendTokens request tokens).2 := by
  induction tokens generalizing request with
  | nil => exact ⟨by simp [Scheduler.appendTokens], by simp, by simp [Scheduler.appendTokens],
      by simp [Scheduler.appendTokens], by simp⟩
  | cons token tokens ih =>
    rw [Scheduler.appendTokens]
    dsimp only
    by_cases hend : (Scheduler.checkFinish
        { request with outputTokenIds := request.outputTokenIds ++ [token] }).isSome = true
    · rw [if_pos hend]
      exact ⟨rfl, fun _ => Nat.one_pos, by simp, by omega, fun _ => hend⟩
    · rw [if_neg hend]
      obtain ⟨happ, h⟩ := ih { request with outputTokenIds := request.outputTokenIds ++ [token] }
      have hcons : ∀ j, request.outputTokenIds ++ (token :: tokens).take (j + 1) =
          request.outputTokenIds ++ [token] ++ tokens.take j := fun j => by simp
      refine ⟨?_, fun _ => Nat.succ_pos _, by simpa using h.le, fun j hj hlt => ?_, fun hlt => ?_⟩
      · rw [hcons]
        exact happ
      · obtain ⟨i, rfl⟩ := Nat.exists_eq_add_of_lt hj
        rw [Nat.zero_add, hcons]
        rcases Nat.eq_zero_or_pos i with rfl | hi
        · simpa [endOf] using hend
        · exact h.early i hi (by omega)
      · rw [hcons]
        exact h.ended (by simpa using hlt)

/-- The last of the outputs of one request is marked. -/
theorem markFinished_last {r : RequestId} (reason : String) {outs : List RequestOutput}
    (hid : ∀ out ∈ outs, out.requestId = r) (hne : outs ≠ []) :
    ∃ front last, outs = front ++ [last] ∧ Scheduler.markFinished r reason outs =
      front ++ [{ last with finished := true, finishReason := reason }] := by
  induction outs with
  | nil => exact absurd rfl hne
  | cons out outs ih =>
    rw [Scheduler.markFinished]
    cases outs with
    | nil =>
      rw [if_neg (by simp), if_pos (hid out (by simp))]
      exact ⟨[], out, rfl, rfl⟩
    | cons next outs =>
      obtain ⟨front, last, houts, hmark⟩ := ih (fun o ho => hid o (by simp [ho])) (by simp)
      rw [if_pos (by simp [hid next (by simp)]), hmark, houts]
      exact ⟨out :: front, last, rfl, rfl⟩

/-- The request behind one result and its outputs. -/
structure Updated (request : Request) (ids : List Int) (kept : Nat)
    (res : Request × List RequestOutput) : Prop where
  after : res.1 = { request with
    outputTokenIds := ids
    status := (endOf request ids).getD request.status }
  length : res.2.length = kept
  plain : endOf request ids = none → ∀ out ∈ res.2, out.finished = false
  marked : (endOf request ids).isSome = true →
    ∃ front last, res.2 = front ++ [last] ∧ (∀ out ∈ front, out.finished = false) ∧
      last.finished = true

theorem update_spec (request : Request) {tokens : List Int} (hne : tokens ≠ []) :
    ∃ kept, Keeps request tokens kept ∧
      (update request tokens).2.filterMap (·.newTokenId) = tokens.take kept ∧
      Updated request (request.outputTokenIds ++ tokens.take kept) kept (update request tokens) := by
  obtain ⟨happ, hk⟩ := appendTokens_keeps request tokens
  refine ⟨_, hk, ?_⟩
  unfold update
  dsimp only
  rw [happ]
  generalize (Scheduler.appendTokens request tokens).2 = kept at hk
  generalize houts : (tokens.take kept).map (Scheduler.tokenOutput request.requestId) = outs
  have hlen : outs.length = kept := by
    rw [← houts, List.length_map, List.length_take]
    exact Nat.min_eq_left hk.le
  have hnew : outs.filterMap (·.newTokenId) = tokens.take kept := by
    rw [← houts, List.filterMap_map]
    exact List.filterMap_some
  have hplain : ∀ out ∈ outs, out.finished = false ∧ out.requestId = request.requestId := by
    rw [← houts]
    intro out hout
    obtain ⟨token, -, rfl⟩ := List.mem_map.mp hout
    exact ⟨rfl, rfl⟩
  cases hfin : endOf request (request.outputTokenIds ++ tokens.take kept) with
  | none =>
    have hfin' : Scheduler.checkFinish { request with
        outputTokenIds := request.outputTokenIds ++ tokens.take kept } = none := hfin
    rw [hfin']
    refine ⟨hnew, by rw [hfin]; rfl, hlen, fun _ out hout => (hplain out hout).1, fun h => ?_⟩
    rw [hfin] at h
    cases h
  | some status =>
    have hfin' : Scheduler.checkFinish { request with
        outputTokenIds := request.outputTokenIds ++ tokens.take kept } = some status := hfin
    have hnil : outs ≠ [] := by
      rw [← List.length_pos_iff, hlen]
      exact hk.pos hne
    obtain ⟨front, last, hsplit, hmark⟩ := markFinished_last status.name
      (fun out hout => (hplain out hout).2) hnil
    rw [hfin']
    dsimp only
    rw [hmark]
    refine ⟨?_, by rw [hfin]; rfl, ?_, fun h => ?_, fun _ => ⟨front, _, rfl, fun out hout => ?_, rfl⟩⟩
    · rw [← hnew, hsplit]
      simp only [List.filterMap_append, List.filterMap_cons, List.filterMap_nil]
    · rw [← hlen, hsplit]
      simp
    · rw [hfin] at h
      cases h
    · exact (hplain out (by rw [hsplit]; simp [hout])).1

/-- A running request whose running text does not end in a stop string. -/
structure Tidy (decode : List Int → String) (d : Delivery) : Prop where
  running : d.request.status = .running
  covers : d.ctx.Covers decode d.request.outputTokenIds
  text : ¬ EndsInStop d.request.stopStrings d.ctx.detokText

/-- With more tokens the check sees the text of all tokens, or nothing new. -/
theorem Tidy.hot_iff (h : d.Tidy decode) (hd : Renders decode) (more : List Int) :
    EndsInStop d.request.stopStrings (d.ctx.detokenizeIncrementally decode
        (d.request.outputTokenIds ++ more)).detokText ↔
      Detected d.request.stopStrings (decode (d.request.outputTokenIds ++ more)) := by
  obtain ⟨-, hfull, hsame⟩ := (h.covers.append more).detokenize hd
  by_cases hc : Complete (decode (d.request.outputTokenIds ++ more))
  · rw [hfull hc, Detected, and_iff_left hc]
  · rw [hsame hc]
    exact ⟨fun he => absurd he h.text, fun he => absurd he.2 hc⟩

/-- What one result does to a running request. -/
structure Received (decode : List Int → String) (d : Delivery) (ids : List Int) (kept : Nat)
    (d' : Delivery) : Prop where
  request : d'.request = { d.request with outputTokenIds := ids, status := d'.request.status }
  tokens : (d'.emitted.filterMap (·.tokenId)).Sublist
    (d.emitted.filterMap (·.tokenId) ++ ids.drop d.request.outputTokenIds.length)
  /-- Behind a stop string every output is final. -/
  hot : Detected d.request.stopStrings (decode ids) → d'.finals = d.finals + kept ∧
    d'.request.status = if kept = 1 then (endOf d.request ids).getD .finishedStop else .finishedStop
  quiet : ¬ Detected d.request.stopStrings (decode ids) → endOf d.request ids = none →
    d'.finals = d.finals ∧ d'.Tidy decode
  ended : ∀ status, ¬ Detected d.request.stopStrings (decode ids) →
    endOf d.request ids = some status →
    d'.finals = d.finals + 1 ∧ d'.request.status = status

theorem receive_spec (h : d.Tidy decode) (hd : Renders decode) {tokens : List Int}
    (hne : tokens ≠ []) :
    ∃ kept, Keeps d.request tokens kept ∧ Received decode d
      (d.request.outputTokenIds ++ tokens.take kept) kept (d.receive decode tokens) := by
  obtain ⟨kept, hk, hnew, hu⟩ := update_spec d.request hne
  refine ⟨kept, hk, ?_⟩
  have hrun : d.request.status.isFinished = false := by rw [h.running]; rfl
  have hreceive : d.receive decode tokens = (update d.request tokens).2.foldl (deliver decode)
      { d with request := (update d.request tokens).1 } := by
    rw [receive, if_neg (by simp [hrun])]
  have hids : d.request.outputTokenIds ++ tokens.take kept ≠ [] := by
    rw [Ne, List.append_eq_nil_iff, ← List.length_eq_zero_iff (l := tokens.take kept),
      List.length_take, Nat.min_eq_left hk.le]
    have := hk.pos hne
    omega
  have hdel := delivered_all decode (update d.request tokens).2
    { d with request := (update d.request tokens).1 }
  have hhot : Hot decode { d with request := (update d.request tokens).1 } ↔
      Detected d.request.stopStrings (decode (d.request.outputTokenIds ++ tokens.take kept)) := by
    rw [Hot, hu.after]
    exact h.hot_iff hd _
  rw [hreceive]
  refine ⟨?_, ?_, fun hdet => ?_, fun hdet hend => ?_, fun status hdet hend => ?_⟩
  · rw [hdel.request, hu.after]
  · refine hdel.tokens.trans ?_
    rw [hnew, List.drop_left]
  · obtain ⟨-, hfull, -⟩ := (h.covers.append (tokens.take kept)).detokenize hd
    obtain ⟨hfinals, hstatus⟩ := deliver_hot decode (update d.request tokens).2
      (d := { d with request := (update d.request tokens).1 }) (by rwa [hu.after]) (hhot.mpr hdet)
      (by rw [hu.after]; exact hfull hdet.2)
    refine ⟨by rw [hfinals, hu.length]; rfl, ?_⟩
    rw [hstatus]
    dsimp only
    rw [hu.after]
    dsimp only
    cases hend : endOf d.request (d.request.outputTokenIds ++ tokens.take kept) with
    | none =>
      have hall : (update d.request tokens).2.all (·.finished) = false := by
        obtain ⟨out, hout⟩ := List.exists_mem_of_length_pos (hu.length ▸ hk.pos hne)
        rw [List.all_eq_false]
        exact ⟨out, hout, by simp [hu.plain hend out hout]⟩
      rw [hall]
      simp
    | some status =>
      obtain ⟨front, last, houts, hfront, hlast⟩ := hu.marked (by rw [hend]; rfl)
      have hlen := hu.length
      rw [houts] at hlen ⊢
      cases front with
      | nil =>
        rw [if_pos (by simp [hlast]), if_pos (by simpa using hlen.symm)]
        rfl
      | cons out front =>
        rw [if_neg (by simp [hfront out (by simp)]), if_neg (by simp at hlen; omega)]
  · obtain ⟨hfinals, hrequest, -, hctx⟩ := deliver_cold decode (update d.request tokens).2
      (d := { d with request := (update d.request tokens).1 }) (by rwa [hhot]) (hu.plain hend)
    have hctx := hctx (List.ne_nil_of_length_pos (hu.length ▸ hk.pos hne))
    rw [hu.after, hend] at hrequest hctx
    refine ⟨hfinals, ?_, ?_, ?_⟩
    · rw [hu.after, hend, hrequest]
      exact h.running
    · rw [hu.after, hend, hctx, hrequest]
      exact ((h.covers.append (tokens.take kept)).detokenize hd).1
    · rw [hu.after, hend, hctx, hrequest]
      exact fun he => hdet ((h.hot_iff hd _).mp he)
  · obtain ⟨front, last, houts, hfront, hlast⟩ := hu.marked (by rw [hend]; rfl)
    obtain ⟨hfinals, hrequest, -⟩ := deliver_cold decode front
      (d := { d with request := (update d.request tokens).1 }) (by rwa [hhot]) hfront
    rw [houts, List.foldl_append, List.foldl_cons, List.foldl_nil, deliver_final hlast]
    dsimp only
    rw [hrequest]
    refine ⟨?_, by rw [hu.after, hend]; rfl⟩
    rw [finals, List.countP_append]
    exact congrArg₂ (· + ·) hfinals (by simp [Replica.tokenOutput, hlast])

end Delivery
end PyptoServing.Engine
