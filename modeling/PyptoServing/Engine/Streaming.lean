import PyptoServing.Engine.Delivery
import PyptoServing.Lib.Utf8

/-!
# Streaming

The text of a request as its client sees it: the running text behind every step, and the
deltas that `_stream_completion` sends. For a byte-level tokenizer the window of
`_detokenize_incrementally` may open inside a character, and what it adds is still what the
whole text adds.
-/
namespace PyptoServing.Engine

open Lib Memory Sched

/-- `decode` of a byte-level tokenizer: a special token has no bytes. -/
def byteDecode (bytes : Int → List UInt8) (ids : List Int) : String :=
  Utf8.decodeLossy (ids.flatMap bytes)

theorem byteDecode_renders (bytes : Int → List UInt8) : Renders (byteDecode bytes) where
  nil := rfl
  window := by
    intro ids n hn hc
    have hsplit : ids.take n = ids.take (n - 3) ++ (ids.take n).drop (n - 3) := by
      have htake : (ids.take n).take (n - 3) = ids.take (n - 3) := by
        rw [List.take_take, Nat.min_eq_left (Nat.sub_le n 3)]
      rw [← htake, List.take_append_drop]
    have hrest : ids.drop (n - 3) = (ids.take n).drop (n - 3) ++ ids.drop n := by
      have hlen : n - 3 ≤ (ids.take n).length := by
        rw [List.length_take]
        omega
      rw [← List.drop_append_of_le_length hlen, List.take_append_drop]
    have hall : ids = ids.take (n - 3) ++ ((ids.take n).drop (n - 3) ++ ids.drop n) := by
      rw [← hrest, List.take_append_drop]
    rw [Complete, byteDecode, Utf8.toList_decodeLossy] at hc
    have hstart := Utf8.after_of_complete hc
    rw [hsplit, List.flatMap_append] at hstart
    have hwindow := Utf8.decoder_resets.run_window hstart ((ids.drop n).flatMap bytes)
    rw [← List.flatMap_append, ← List.flatMap_append, ← List.flatMap_append, ← hrest, ← hsplit,
      List.take_append_drop] at hwindow
    simp only [byteDecode, Utf8.decodeLossy, String.toList_ofList, String.length_ofList]
    exact hwindow

/-- Where the tokens spell a text, it is what they decode to. -/
theorem byteDecode_encoded {bytes : Int → List UInt8} {ids : List Int} {text : String}
    (h : ids.flatMap bytes = text.toList.flatMap String.utf8EncodeChar) :
    byteDecode bytes ids = text := by
  rw [byteDecode, h, Utf8.decodeLossy_encoded]

namespace Context
variable {ctx : Context} {decode : List Int → String} {ids : List Int}

/-- `_detokenize_incrementally` behind each of some steps of a request that has `ids`. -/
def detokenizeSteps (decode : List Int → String) (ctx : Context) (ids : List Int) :
    List (List Int) → Context
  | [] => ctx
  | step :: steps =>
    detokenizeSteps decode (ctx.detokenizeIncrementally decode (ids ++ step)) (ids ++ step) steps

theorem detokenizeSteps_append (decode : List Int → String) (ctx : Context) (ids : List Int)
    (before after : List (List Int)) :
    detokenizeSteps decode ctx ids (before ++ after) =
      detokenizeSteps decode (detokenizeSteps decode ctx ids before) (ids ++ before.flatten)
        after := by
  induction before generalizing ctx ids with
  | nil => rw [List.flatten_nil, List.append_nil]; rfl
  | cons step before ih =>
    rw [List.cons_append, detokenizeSteps, detokenizeSteps, ih, List.flatten_cons,
      List.append_assoc]

theorem Covers.empty (hd : Renders decode) (stream : Bool) :
    ({ stream } : Context).Covers decode [] where
  read := le_rfl
  prefixOffset := rfl
  text := hd.nil.symm
  complete := by simp [Complete]

/-- The running text never runs ahead of the tokens. -/
theorem Covers.text_prefix (h : ctx.Covers decode ids) (hd : Renders decode) :
    ctx.detokText.toList <+: (decode ids).toList := by
  rw [h.full hd]
  exact List.prefix_append _ _

/-- A call only adds to the running text. -/
theorem Covers.detokenize_prefix (h : ctx.Covers decode ids) (hd : Renders decode) :
    ctx.detokText.toList <+: (ctx.detokenizeIncrementally decode ids).detokText.toList := by
  obtain ⟨-, hfull, hsame⟩ := h.detokenize hd
  by_cases hc : Complete (decode ids)
  · rw [hfull hc]
    exact h.text_prefix hd
  · rw [hsame hc]

/-- Over some steps the running text stays the text of the tokens it covers, and only grows. -/
theorem Covers.detokenizeSteps (h : ctx.Covers decode ids) (hd : Renders decode)
    (steps : List (List Int)) :
    (ctx.detokenizeSteps decode ids steps).Covers decode (ids ++ steps.flatten) ∧
      ctx.detokText.toList <+: (ctx.detokenizeSteps decode ids steps).detokText.toList := by
  induction steps generalizing ctx ids with
  | nil =>
    rw [List.flatten_nil, List.append_nil]
    exact ⟨h, List.prefix_rfl⟩
  | cons step steps ih =>
    have hmore := h.append step
    obtain ⟨hcovers, hgrow⟩ := ih (hmore.detokenize hd).1
    rw [List.flatten_cons, ← List.append_assoc]
    exact ⟨hcovers, (hmore.detokenize_prefix hd).trans hgrow⟩

/-- The final text is the text of all tokens. -/
theorem Covers.finalize (h : ctx.Covers decode ids) :
    (ctx.finalizeDetokenization decode ids).detokText = decode ids := by
  by_cases hids : ids = []
  · subst hids
    rw [finalizeDetokenization, if_pos rfl, h.text, List.take_nil]
  · exact finalize_text ctx decode hids

end Context

/-- What the generator yields. -/
inductive SseEvent
  | chunk (text : String) (finishReason : Option String)
  | usage (promptTokens completionTokens totalTokens : Nat)
  | done
  deriving DecidableEq

/-- The text that an event adds at the client. -/
def SseEvent.delta : SseEvent → String
  | .chunk text _ => text
  | _ => ""

/-- `_map_finish_reason`. -/
def mapFinishReason (reason : String) : String :=
  ([("FINISHED_EOS", "eos"), ("FINISHED_LENGTH", "length"), ("FINISHED_STOP", "stop"),
    ("FINISHED_ABORTED", "aborted")].lookup reason).getD "stop"

/-- The generator of `_stream_completion`, and whether it has left its loop. That of
`_stream_chat_completion` differs in the class of its chunks only. -/
structure CompletionStream where
  prevText : String := ""
  finished : Bool := false
  events : List SseEvent := []

namespace CompletionStream
variable {s : CompletionStream} {output : TokenOutput}

/-- The loop body. -/
def onOutput (s : CompletionStream) (output : TokenOutput) : CompletionStream :=
  if s.finished then s
  else
    let delta :=
      if output.text ≠ "" then String.ofList (output.text.toList.drop s.prevText.length) else ""
    let finishReason :=
      if output.finished then some (mapFinishReason output.finishReason) else none
    let last :=
      if output.finished then
        [.usage output.promptTokens output.completionTokens
          (output.promptTokens + output.completionTokens), .done]
      else []
    { prevText := if output.text ≠ "" then output.text else s.prevText
      finished := output.finished
      events := s.events ++ .chunk delta finishReason :: last }

/-- The stream of a request with these outputs. -/
def streamCompletion (outputs : List TokenOutput) : CompletionStream := outputs.foldl onOutput {}

/-- The deltas sent so far, one behind the other. -/
def sentText (s : CompletionStream) : String :=
  String.ofList (s.events.flatMap fun event => event.delta.toList)

theorem streamCompletion_append (outputs more : List TokenOutput) :
    streamCompletion (outputs ++ more) = more.foldl onOutput (streamCompletion outputs) :=
  List.foldl_append

theorem onOutput_finished (h : s.finished = true) : s.onOutput output = s := by
  rw [onOutput, if_pos h]

/-- An output that goes on with the text so far brings the client to its own text. -/
theorem onOutput_open (output : TokenOutput) (h : s.finished = false) (hsent : s.sentText = s.prevText)
    (hgrow : s.prevText.toList <+: output.text.toList) :
    (s.onOutput output).finished = output.finished ∧
      (s.onOutput output).prevText = output.text ∧
      (s.onOutput output).sentText = output.text := by
  obtain ⟨tail, htail⟩ := hgrow
  have hfin : ¬ s.finished = true := by simp [h]
  rw [onOutput, if_neg hfin]
  refine ⟨rfl, ?_, ?_⟩
  · dsimp only
    split
    · rfl
    · next hempty =>
      rw [not_not] at hempty
      rw [hempty] at htail ⊢
      exact String.toList_inj.mp (List.append_eq_nil_iff.mp htail).1
  · have hdelta : (if output.text ≠ "" then
        String.ofList (output.text.toList.drop s.prevText.length) else "").toList = tail := by
      split
      · rw [String.toList_ofList, ← htail, ← String.length_toList, List.drop_left]
      · next hempty =>
        rw [not_not] at hempty
        rw [hempty] at htail
        exact (List.append_eq_nil_iff.mp htail).2.symm
    have hlast : ∀ last : List SseEvent, (∀ event ∈ last, event.delta = "") →
        last.flatMap (fun event => event.delta.toList) = [] := by
      intro last hl
      rw [List.flatMap_eq_nil_iff]
      intro event hevent
      rw [hl event hevent]
      rfl
    have hsent' := congrArg String.toList hsent
    rw [sentText, String.toList_ofList] at hsent'
    apply String.toList_inj.mp
    rw [sentText, String.toList_ofList]
    dsimp only
    rw [List.flatMap_append, List.flatMap_cons, hsent', SseEvent.delta, hdelta, hlast,
      List.append_nil, htail]
    intro event hevent
    split at hevent
    · simp only [List.mem_cons, List.not_mem_nil, or_false] at hevent
      rcases hevent with rfl | rfl <;> rfl
    · cases hevent

end CompletionStream

namespace Delivery
variable {decode : List Int → String} {d : Delivery} {out : RequestOutput}

/-- What the client was sent. Behind the first final output the stream is over. -/
structure Streamed (decode : List Int → String) (d : Delivery) : Prop where
  stream : d.ctx.stream = true
  empty : d.request.outputTokenIds = [] → d.ctx.detokText = ""
  finals : ∀ output ∈ d.emitted, output.finished = true →
    (CompletionStream.streamCompletion d.emitted).finished = true ∧
      output.text = decode d.request.outputTokenIds
  opened : (CompletionStream.streamCompletion d.emitted).finished = false →
    d.ctx.Covers decode d.request.outputTokenIds ∧
      (CompletionStream.streamCompletion d.emitted).sentText =
        (CompletionStream.streamCompletion d.emitted).prevText ∧
      (CompletionStream.streamCompletion d.emitted).prevText.toList <+: d.ctx.detokText.toList
  closed : (CompletionStream.streamCompletion d.emitted).finished = true →
    d.request.status.isFinished = true ∧
      (CompletionStream.streamCompletion d.emitted).sentText = decode d.request.outputTokenIds

theorem finalize_stream (ctx : Context) (ids : List Int) :
    (ctx.finalizeDetokenization decode ids).stream = ctx.stream := by
  unfold Context.finalizeDetokenization
  split <;> rfl

/-- The text that a final output carries. -/
theorem Streamed.finalText (h : Streamed decode d) (hd : Renders decode) :
    ((d.ctx.detokenizeIncrementally decode d.request.outputTokenIds).finalizeDetokenization decode
      d.request.outputTokenIds).detokText = decode d.request.outputTokenIds := by
  by_cases hids : d.request.outputTokenIds = []
  · rw [hids, Context.finalizeDetokenization, if_pos rfl, Context.detokenizeIncrementally,
      if_pos rfl, h.empty hids, hd.nil]
  · exact Context.finalize_text _ decode hids

/-- A final output. -/
theorem Streamed.final (h : Streamed decode d) (hd : Renders decode) {request : Request}
    {ctx : Context} (hids : request.outputTokenIds = d.request.outputTokenIds)
    (hstatus : request.status.isFinished = true)
    (hctx : ctx.stream = true) (htext : ctx.detokText = decode d.request.outputTokenIds)
    (hf : out.finished = true) : Streamed decode
      { request, ctx, emitted := d.emitted ++ [Replica.tokenOutput request ctx out] } := by
  have happend := CompletionStream.streamCompletion_append d.emitted
    [Replica.tokenOutput request ctx out]
  rw [List.foldl_cons, List.foldl_nil] at happend
  have hfinal : (Replica.tokenOutput request ctx out).finished = true := hf
  have hout : (Replica.tokenOutput request ctx out).text = decode d.request.outputTokenIds := htext
  have hover : (CompletionStream.streamCompletion
      (d.emitted ++ [Replica.tokenOutput request ctx out])).finished = true ∧
      (CompletionStream.streamCompletion
        (d.emitted ++ [Replica.tokenOutput request ctx out])).sentText =
        decode d.request.outputTokenIds := by
    rw [happend]
    cases hs : (CompletionStream.streamCompletion d.emitted).finished with
    | true =>
      rw [CompletionStream.onOutput_finished hs]
      exact ⟨hs, (h.closed hs).2⟩
    | false =>
      obtain ⟨hcovers, hsent, hgrow⟩ := h.opened hs
      obtain ⟨hfin, -, hall⟩ := CompletionStream.onOutput_open
        (Replica.tokenOutput request ctx out) hs hsent
        (by rw [hout]; exact hgrow.trans (hcovers.text_prefix hd))
      exact ⟨hfin.trans hfinal, hall.trans hout⟩
  refine ⟨hctx, fun hnil => ?_, ?_, fun hopen => ?_, fun _ => ⟨hstatus, hids ▸ hover.2⟩⟩
  · rw [htext, ← hids, hnil, hd.nil]
  · intro output houtput hfin
    refine ⟨hover.1, ?_⟩
    rw [hids]
    rw [List.mem_append, List.mem_singleton] at houtput
    rcases houtput with hbefore | rfl
    · exact (h.finals output hbefore hfin).2
    · exact hout
  · rw [hover.1] at hopen
    cases hopen

/-- An output that is not final. -/
theorem Streamed.plain (h : Streamed decode d) (hd : Renders decode) {ctx : Context}
    (hctx : ctx = d.ctx.detokenizeIncrementally decode d.request.outputTokenIds)
    (hf : out.finished = false) : Streamed decode
      { request := d.request, ctx
        emitted := d.emitted ++ [Replica.tokenOutput d.request ctx out] } := by
  have happend := CompletionStream.streamCompletion_append d.emitted
    [Replica.tokenOutput d.request ctx out]
  rw [List.foldl_cons, List.foldl_nil] at happend
  have hstream : ctx.stream = true := by
    rw [hctx, Context.detokenize_stream]
    exact h.stream
  have hempty : d.request.outputTokenIds = [] → ctx.detokText = "" := by
    intro hids
    rw [hctx, Context.detokenizeIncrementally, if_pos hids]
    exact h.empty hids
  cases hs : (CompletionStream.streamCompletion d.emitted).finished with
  | true =>
    rw [CompletionStream.onOutput_finished hs] at happend
    refine ⟨hstream, hempty, ?_, fun hopen => ?_, fun _ => ?_⟩
    · intro output houtput hfin
      rw [happend]
      rw [List.mem_append, List.mem_singleton] at houtput
      rcases houtput with hbefore | rfl
      · exact h.finals output hbefore hfin
      · rw [Replica.tokenOutput, hf] at hfin
        cases hfin
    · rw [happend, hs] at hopen
      cases hopen
    · rw [happend]
      exact h.closed hs
  | false =>
    obtain ⟨hcovers, hsent, hgrow⟩ := h.opened hs
    have hmore := hcovers.detokenize_prefix hd
    rw [← hctx] at hmore
    obtain ⟨hfin, hprev, hall⟩ := CompletionStream.onOutput_open
      (Replica.tokenOutput d.request ctx out) hs hsent (hgrow.trans hmore)
    rw [← happend] at hfin hprev hall
    have hopen : (CompletionStream.streamCompletion
        (d.emitted ++ [Replica.tokenOutput d.request ctx out])).finished = false := hfin.trans hf
    refine ⟨hstream, hempty, ?_, fun _ => ⟨?_, hall.trans hprev.symm, ?_⟩, fun hclosed => ?_⟩
    · intro output houtput hfinal
      rw [List.mem_append, List.mem_singleton] at houtput
      rcases houtput with hbefore | rfl
      · have hover := (h.finals output hbefore hfinal).1
        rw [hs] at hover
        cases hover
      · rw [Replica.tokenOutput, hf] at hfinal
        cases hfinal
    · rw [hctx]
      exact (hcovers.detokenize hd).1
    · rw [hprev]
      exact List.prefix_rfl
    · rw [hopen] at hclosed
      cases hclosed

theorem Streamed.deliver (h : Streamed decode d) (hd : Renders decode)
    (hmark : out.finished = true → d.request.status.isFinished = true) :
    Streamed decode (d.deliver decode out) := by
  have hstream : ((d.ctx.detokenizeIncrementally decode
      d.request.outputTokenIds).finalizeDetokenization decode
        d.request.outputTokenIds).stream = true := by
    rw [finalize_stream, Context.detokenize_stream]
    exact h.stream
  have htext := h.finalText hd
  cases hf : out.finished with
  | true =>
    rw [deliver_final hf]
    exact h.final hd rfl (hmark hf) hstream htext hf
  | false =>
    by_cases hstop : EndsInStop d.request.stopStrings
        (d.ctx.detokenizeIncrementally decode d.request.outputTokenIds).detokText
    · rw [deliver_stop hf hstop]
      exact h.final hd rfl rfl hstream htext rfl
    · rw [deliver_plain hf hstop, Context.detokenize_stream, if_pos h.stream]
      exact h.plain hd rfl hf

theorem Streamed.deliverAll (hd : Renders decode) (outs : List RequestOutput) {d : Delivery}
    (h : Streamed decode d)
    (hmark : ∀ out ∈ outs, out.finished = true → d.request.status.isFinished = true) :
    Streamed decode (outs.foldl (Delivery.deliver decode) d) := by
  induction outs generalizing d with
  | nil => exact h
  | cons out outs ih =>
    refine ih (h.deliver hd (hmark out (by simp))) fun o ho hf => ?_
    have hstatus := hmark o (by simp [ho]) hf
    unfold Delivery.deliver
    dsimp only
    split
    · rfl
    · exact hstatus

/-- A result only adds tokens, and where it marks an output the request has finished. -/
theorem update_outputs (request : Request) (tokens : List Int) :
    (∃ more, (update request tokens).1.outputTokenIds = request.outputTokenIds ++ more) ∧
      ∀ out ∈ (update request tokens).2, out.finished = true →
        (update request tokens).1.status.isFinished = true := by
  obtain ⟨happ, -⟩ := appendTokens_keeps request tokens
  unfold update
  dsimp only
  cases hend : Scheduler.checkFinish (Scheduler.appendTokens request tokens).1 with
  | none =>
    refine ⟨⟨_, by rw [happ]⟩, fun out hout hf => ?_⟩
    obtain ⟨token, -, rfl⟩ := List.mem_map.mp hout
    cases hf
  | some status => exact ⟨⟨_, by rw [happ]⟩, fun _ _ _ => Scheduler.checkFinish_finished hend⟩

theorem Streamed.receive (h : Streamed decode d) (hd : Renders decode) (tokens : List Int) :
    Streamed decode (d.receive decode tokens) := by
  unfold Delivery.receive
  by_cases hfin : d.request.status.isFinished = true
  · rw [if_pos hfin]
    exact h
  · rw [if_neg hfin]
    have hs : (CompletionStream.streamCompletion d.emitted).finished = false := by
      cases hs : (CompletionStream.streamCompletion d.emitted).finished with
      | true => exact absurd (h.closed hs).1 hfin
      | false => rfl
    obtain ⟨⟨more, hmore⟩, hmark⟩ := update_outputs d.request tokens
    refine Streamed.deliverAll hd (update d.request tokens).2 ?_ hmark
    refine ⟨h.stream, fun hnil => ?_, fun output houtput hfinal => ?_, fun _ => ?_, fun hclosed => ?_⟩
    · dsimp only at hnil
      rw [hmore] at hnil
      exact h.empty (List.append_eq_nil_iff.mp hnil).1
    · have hover := (h.finals output houtput hfinal).1
      rw [hs] at hover
      cases hover
    · obtain ⟨hcovers, hsent⟩ := h.opened hs
      refine ⟨?_, hsent⟩
      dsimp only
      rw [hmore]
      exact hcovers.append more
    · dsimp only at hclosed
      rw [hs] at hclosed
      cases hclosed

theorem Streamed.start (hd : Renders decode) (request : Request) :
    Streamed decode (Delivery.start request true) where
  stream := rfl
  empty := fun _ => rfl
  finals := fun output houtput => by cases houtput
  opened := fun _ => ⟨Context.Covers.empty hd true, rfl, List.prefix_rfl⟩
  closed := fun h => by cases h

/-- A request that streams, behind any results. -/
theorem Streamed.run (hd : Renders decode) (request : Request) (steps : List (List Int)) :
    Streamed decode (steps.foldl (Delivery.receive decode) (Delivery.start request true)) := by
  suffices h : ∀ (d : Delivery), Streamed decode d →
      Streamed decode (steps.foldl (Delivery.receive decode) d) from h _ (Streamed.start hd request)
  induction steps with
  | nil => exact fun d h => h
  | cons step steps ih => exact fun d h => ih _ (h.receive hd step)

/-- Everything sent so far begins the text of all tokens. -/
theorem Streamed.sent_prefix (h : Streamed decode d) (hd : Renders decode) :
    (CompletionStream.streamCompletion d.emitted).sentText.toList <+:
      (decode d.request.outputTokenIds).toList := by
  cases hs : (CompletionStream.streamCompletion d.emitted).finished with
  | true => rw [(h.closed hs).2]
  | false =>
    obtain ⟨hcovers, hsent, hgrow⟩ := h.opened hs
    rw [hsent]
    exact hgrow.trans (hcovers.text_prefix hd)

/-- For a byte-level tokenizer the running text only grows, up to the final text, which is the
text of all tokens; and the deltas of a stream add up to the text so far, and to the final
text once a final output is out. -/
theorem streamed_text_complete (bytes : Int → List UInt8) :
    (∀ before after : List (List Int),
      let decode := byteDecode bytes
      let early := Context.detokenizeSteps decode {} [] before
      let late := Context.detokenizeSteps decode {} [] (before ++ after)
      let final := late.finalizeDetokenization decode (before ++ after).flatten
      early.detokText.toList <+: late.detokText.toList ∧
        early.detokText.toList <+: final.detokText.toList ∧
        final.detokText = decode (before ++ after).flatten) ∧
    ∀ (request : Request) (steps : List (List Int)),
      let d := steps.foldl (Delivery.receive (byteDecode bytes)) (Delivery.start request true)
      let sent := (CompletionStream.streamCompletion d.emitted).sentText
      sent.toList <+: (byteDecode bytes d.request.outputTokenIds).toList ∧
        ∀ output ∈ d.emitted, output.finished = true →
          output.text = byteDecode bytes d.request.outputTokenIds ∧ sent = output.text := by
  have hd := byteDecode_renders bytes
  refine ⟨fun before after => ?_, fun request steps => ?_⟩
  · have hempty := Context.Covers.empty hd true
    obtain ⟨hearly, -⟩ := hempty.detokenizeSteps hd before
    obtain ⟨hlate, -⟩ := hempty.detokenizeSteps hd (before ++ after)
    obtain ⟨-, hgrow⟩ := hearly.detokenizeSteps hd after
    rw [← Context.detokenizeSteps_append] at hgrow
    rw [List.nil_append] at hlate
    refine ⟨hgrow, ?_, hlate.finalize⟩
    rw [hlate.finalize]
    exact hgrow.trans (hlate.text_prefix hd)
  · have h := Streamed.run hd request steps
    refine ⟨h.sent_prefix hd, fun output houtput hf => ?_⟩
    obtain ⟨hover, htext⟩ := h.finals output houtput hf
    exact ⟨htext, (h.closed hover).2.trans htext.symm⟩

/-- Tokens 6 and 7 share the bytes of a star. -/
def starBytes (id : Int) : List UInt8 :=
  if id = 6 then [0xE2] else if id = 7 then [0x98, 0x85] else [UInt8.ofNat id.toNat]

def starRequest : Request where
  requestId := "r0"
  promptTokenIds := [1]
  maxNewTokens := 4
  arrivalTime := 0

/-- A star over two steps, and the first byte of another at the end. -/
theorem streamed_text_complete_star :
    (CompletionStream.streamCompletion ([[72], [6], [7, 6]].foldl
      (Delivery.receive (byteDecode starBytes)) (Delivery.start starRequest true)).emitted).sentText =
      "H★\uFFFD" := by
  obtain ⟨-, h⟩ := streamed_text_complete starBytes
  obtain ⟨-, hall⟩ := h starRequest [[72], [6], [7, 6]]
  have hlast : ([[72], [6], [7, 6]].foldl (Delivery.receive (byteDecode starBytes))
      (Delivery.start starRequest true)).emitted[3]?.map (fun o => (o.text, o.finished)) =
      some ("H★\uFFFD", true) := by decide +kernel
  obtain ⟨output, hget, hout⟩ := Option.map_eq_some_iff.mp hlast
  obtain ⟨htext, hfin⟩ := Prod.mk.inj hout
  rw [(hall output (List.mem_of_getElem? hget) hfin).2, htext]

end Delivery
end PyptoServing.Engine
