import Mathlib.Tactic.Common
import PyptoServing.Lib.Machine
import PyptoServing.Lib.Spsc

/-!
# An edge between two modules

A message travels on two channels: its bytes on one, its metadata on the other. The producer
pushes both under a lock, once neither channel is full; the consumer reads and pops both,
once neither is empty. One step is one operation on one of the channels, so the two sides
interleave between any two of them.
-/
namespace PyptoServing.Platform

open Lib

structure Metadata where
  type : UInt16 := 0
  groupId : UInt16 := 0
  sequenceId : UInt64 := 0
  deriving DecidableEq

structure Message where
  data : List UInt8
  metadata : Metadata
  deriving DecidableEq

namespace Message

def getSize (message : Message) : Nat := message.data.length

end Message

/-- The two channels of an edge, with the consumer's buffers. -/
structure Edge (σ τ : Type*) where
  dataChannel : Spsc σ (List UInt8) (Nat × Nat)
  metadataChannel : Spsc τ Metadata Nat
  payloadBuffer : σ → Nat → UInt8
  tokenBuffer : τ → Nat → Metadata

/-- A `Message` made by `getMessage`: a pointer into the payload buffer, a size and a copy of
the metadata. -/
structure Received where
  position : Nat
  size : Nat
  metadata : Metadata
  deriving DecidableEq

/-- Where the producer is: in `isFull` (of `pushMessageLocking`, or of `pushMessage`), asleep
after a full channel, or between its two pushes. -/
inductive Producer
  | idle
  | probing (message : Message) (pushing : Bool)
  | probedMetadata (message : Message) (pushing : Bool)
  | sleeping (message : Message)
  | pushing (message : Message)
  | pushedData (message : Message)
  | thrown (error : String)
  deriving DecidableEq

inductive Call
  | hasMessage
  | getMessage
  | popMessage
  deriving DecidableEq

/-- Where the consumer is: in `hasMessage`, between its two reads or between its two pops. -/
inductive Consumer
  | idle
  | probing (call : Call)
  | probedMetadata (call : Call)
  | peeking
  | peekedData (token : Nat × Nat)
  | popping
  | poppedData
  deriving DecidableEq

/-- What a call of the consumer came to. -/
inductive Reply
  | hasMessage (available : Bool)
  | message (received : Received)
  | popped
  | threw (error : String)
  deriving DecidableEq

structure Link (σ τ : Type*) where
  data : σ
  metadata : τ
  producer : Producer := .idle
  consumer : Consumer := .idle
  reply : Option Reply := none
  /-- The message of the last `getMessage`, until its bytes are popped. -/
  held : Option Received := none
  /-- The messages of the completed pushes. -/
  sent : List Message := []
  /-- The number of completed pops. -/
  popped : Nat := 0

inductive Op
  | push (message : Message)
  | produce
  | call (call : Call)
  | consume

namespace Link
variable {σ τ : Type*}

/-- A full channel: `pushMessageLocking` waits, `pushMessage` throws. -/
def reportFull (message : Message) (pushing : Bool) : Producer :=
  if pushing then
    .thrown "Trying to push a message when channel is full. This is a bug in serving."
  else .sleeping message

/-- The reply of a call that finds no message. -/
def noMessage : Call → Reply
  | .hasMessage => .hasMessage false
  | .getMessage =>
    .threw "Trying to get message when there is none available. This is a bug in serving."
  | .popMessage =>
    .threw "Trying to pop message when there is none available. This is a bug in serving."

inductive Step (E : Edge σ τ) (l : Link σ τ) : Op → Link σ τ → Prop
  | push {m : Message} : l.producer = .idle →
      Step E l (.push m) { l with producer := .probing m false }
  | probeMetadata {m : Message} {pushing : Bool} {t : τ} : l.producer = .probing m pushing →
      E.metadataChannel.updateProducer l.metadata t →
      Step E l .produce { l with
        metadata := t
        producer :=
          if E.metadataChannel.isFull t 1 then reportFull m pushing
          else .probedMetadata m pushing }
  | probeData {m : Message} {pushing : Bool} {s : σ} : l.producer = .probedMetadata m pushing →
      E.dataChannel.updateProducer l.data s →
      Step E l .produce { l with
        data := s
        producer :=
          if E.dataChannel.isFull s m.getSize then reportFull m pushing
          else if pushing then .pushing m
          else .probing m true }
  | retry {m : Message} : l.producer = .sleeping m →
      Step E l .produce { l with producer := .probing m false }
  | pushData {m : Message} : l.producer = .pushing m →
      Step E l .produce { l with
        data := E.dataChannel.push l.data m.data
        producer := .pushedData m }
  | pushMetadata {m : Message} : l.producer = .pushedData m →
      Step E l .produce { l with
        metadata := E.metadataChannel.push l.metadata m.metadata
        producer := .idle
        sent := l.sent ++ [m] }
  | call {c : Call} : l.consumer = .idle → Step E l (.call c) { l with consumer := .probing c }
  | pollMetadata {c : Call} {t : τ} : l.consumer = .probing c →
      E.metadataChannel.updateConsumer l.metadata t →
      Step E l .consume { l with
        metadata := t
        consumer := if E.metadataChannel.isEmpty t then .idle else .probedMetadata c
        reply := if E.metadataChannel.isEmpty t then some (noMessage c) else l.reply }
  | pollData {c : Call} {s : σ} : l.consumer = .probedMetadata c →
      E.dataChannel.updateConsumer l.data s →
      Step E l .consume { l with
        data := s
        consumer :=
          if E.dataChannel.isEmpty s then .idle
          else match c with
            | .hasMessage => .idle
            | .getMessage => .peeking
            | .popMessage => .popping
        reply :=
          if E.dataChannel.isEmpty s then some (noMessage c)
          else match c with
            | .hasMessage => some (.hasMessage true)
            | .getMessage => l.reply
            | .popMessage => l.reply }
  | peekData : l.consumer = .peeking →
      Step E l .consume { l with consumer := .peekedData (E.dataChannel.peek l.data) }
  | peekMetadata {token : Nat × Nat} {received : Received} : l.consumer = .peekedData token →
      received = ⟨token.1, token.2, E.tokenBuffer l.metadata (E.metadataChannel.peek l.metadata)⟩ →
      Step E l .consume { l with
        consumer := .idle
        reply := some (.message received)
        held := some received }
  | popData : l.consumer = .popping →
      Step E l .consume { l with
        data := E.dataChannel.pop l.data
        consumer := .poppedData
        held := none }
  | popMetadata : l.consumer = .poppedData →
      Step E l .consume { l with
        metadata := E.metadataChannel.pop l.metadata
        consumer := .idle
        reply := some .popped
        popped := l.popped + 1 }

/-- An edge with empty channels and no call under way. -/
structure Started (E : Edge σ τ) (l : Link σ τ) : Prop where
  data : E.dataChannel.queue l.data = []
  metadata : E.metadataChannel.queue l.metadata = []
  rest : l = { data := l.data, metadata := l.metadata }

end Link

/-- Every run of the two sides of an edge. -/
def linkMachine {σ τ : Type*} (E : Edge σ τ) : Machine (Link σ τ) Op where
  init := Link.Started E
  step := Link.Step E

namespace Edge
variable {σ τ : Type*}

/-- The bytes behind the pointer of a message. -/
def bytes (E : Edge σ τ) (s : σ) (position size : Nat) : List UInt8 :=
  (List.range size).map fun i => E.payloadBuffer s (position + i)

/-- Both channels are first in, first out, and a peeked token lies in the consumer's buffer
from where `peek` points, in one piece. -/
structure Lawful (E : Edge σ τ) : Prop where
  data : E.dataChannel.Lawful
  metadata : E.metadataChannel.Lawful
  size_data : ∀ token, E.dataChannel.size token = token.length
  size_metadata : ∀ token, E.metadataChannel.size token = 1
  read_data : ∀ s token, E.dataChannel.read s token = E.bytes s token.1 token.2
  read_metadata : ∀ t token, E.metadataChannel.read t token = E.tokenBuffer t token

end Edge

namespace Link
variable {σ τ : Type*} {E : Edge σ τ} {l l' : Link σ τ}

/-- The messages whose bytes have been pushed. -/
def pushedData (l : Link σ τ) : List Message :=
  match l.producer with
  | .pushedData m => l.sent ++ [m]
  | _ => l.sent

/-- The number of messages whose bytes have been popped. -/
def poppedData (l : Link σ τ) : Nat :=
  if l.consumer = .poppedData then l.popped + 1 else l.popped

/-- Both channels have room for a message. -/
structure Room (E : Edge σ τ) (l : Link σ τ) (m : Message) : Prop where
  metadata : E.metadataChannel.isFull l.metadata 1 = false
  data : E.dataChannel.isFull l.data m.getSize = false

/-- What the producer has seen. -/
def ProducerSees (E : Edge σ τ) (l : Link σ τ) : Producer → Prop
  | .idle | .sleeping _ | .probing _ false => True
  | .probing m true | .probedMetadata m true | .pushing m => Room E l m
  | .probedMetadata _ false | .pushedData _ => E.metadataChannel.isFull l.metadata 1 = false
  | .thrown _ => False

/-- Both channels hold a message for the consumer. -/
structure Available (E : Edge σ τ) (l : Link σ τ) : Prop where
  metadata : E.metadataChannel.isEmpty l.metadata = false
  data : E.dataChannel.isEmpty l.data = false

/-- What the consumer has seen. -/
def ConsumerSees (E : Edge σ τ) (l : Link σ τ) : Consumer → Prop
  | .idle | .probing _ => True
  | .probedMetadata _ | .poppedData => E.metadataChannel.isEmpty l.metadata = false
  | .peeking | .popping => Available E l
  | .peekedData token => Available E l ∧ token = E.dataChannel.peek l.data

/-- The channels hold the messages pushed and not popped, each half on its own. -/
structure Paired (E : Edge σ τ) (l : Link σ τ) : Prop where
  data : E.dataChannel.queue l.data = (l.pushedData.drop l.poppedData).map (·.data)
  metadata : E.metadataChannel.queue l.metadata = (l.sent.drop l.popped).map (·.metadata)
  le : l.popped ≤ l.sent.length
  producer : ProducerSees E l l.producer
  consumer : ConsumerSees E l l.consumer
  held : ∀ received, l.held = some received → l.consumer ≠ .poppedData ∧ Available E l ∧
    (received.position, received.size) = E.dataChannel.peek l.data ∧
    l.sent[l.popped]?.map (·.metadata) = some received.metadata

/-- What a side has seen of the channels survives. -/
structure Keeps (E : Edge σ τ) (l l' : Link σ τ) : Prop where
  roomMetadata : ∀ n, E.metadataChannel.isFull l.metadata n = false →
    E.metadataChannel.isFull l'.metadata n = false
  roomData : ∀ n, E.dataChannel.isFull l.data n = false → E.dataChannel.isFull l'.data n = false

structure KeepsTokens (E : Edge σ τ) (l l' : Link σ τ) : Prop where
  tokenMetadata : E.metadataChannel.isEmpty l.metadata = false →
    E.metadataChannel.isEmpty l'.metadata = false
  tokenData : E.dataChannel.isEmpty l.data = false → E.dataChannel.isEmpty l'.data = false
  peekData : E.dataChannel.isEmpty l.data = false →
    E.dataChannel.peek l'.data = E.dataChannel.peek l.data

theorem Keeps.room {m : Message} (h : Keeps E l l') (hr : Room E l m) : Room E l' m :=
  ⟨h.roomMetadata _ hr.metadata, h.roomData _ hr.data⟩

theorem Keeps.producer (h : Keeps E l l') {p : Producer} (hp : ProducerSees E l p) :
    ProducerSees E l' p := by
  cases p with
  | idle | sleeping _ => trivial
  | probing m pushing =>
    cases pushing with
    | false => trivial
    | true => exact h.room hp
  | probedMetadata m pushing =>
    cases pushing with
    | false => exact h.roomMetadata _ hp
    | true => exact h.room hp
  | pushing m => exact h.room hp
  | pushedData m => exact h.roomMetadata _ hp
  | thrown error => exact hp

theorem KeepsTokens.available (h : KeepsTokens E l l') (ha : Available E l) : Available E l' :=
  ⟨h.tokenMetadata ha.metadata, h.tokenData ha.data⟩

theorem KeepsTokens.consumer (h : KeepsTokens E l l') {c : Consumer} (hc : ConsumerSees E l c) :
    ConsumerSees E l' c := by
  cases c with
  | idle | probing _ => trivial
  | probedMetadata _ | poppedData => exact h.tokenMetadata hc
  | peeking | popping => exact h.available hc
  | peekedData token => exact ⟨h.available hc.1, hc.2.trans (h.peekData hc.1.data).symm⟩

/-- A step that moves no token. -/
structure Quiet (E : Edge σ τ) (l l' : Link σ τ) : Prop where
  keeps : Keeps E l l'
  tokens : KeepsTokens E l l'
  data : E.dataChannel.queue l'.data = E.dataChannel.queue l.data
  metadata : E.metadataChannel.queue l'.metadata = E.metadataChannel.queue l.metadata
  sent : l'.sent = l.sent
  popped : l'.popped = l.popped

/-- An update of both channels, or of none. -/
theorem Quiet.of_update (hE : E.Lawful) (hs : l'.data = l.data ∨ E.dataChannel.Update l.data l'.data)
    (ht : l'.metadata = l.metadata ∨ E.metadataChannel.Update l.metadata l'.metadata)
    (hsent : l'.sent = l.sent) (hpopped : l'.popped = l.popped) : Quiet E l l' := by
  refine ⟨⟨fun n h => ?_, fun n h => ?_⟩, ⟨fun h => ?_, fun h => ?_, fun h => ?_⟩, ?_, ?_, hsent,
    hpopped⟩
  · exact ht.elim (fun e => e ▸ h) fun u => hE.metadata.room_update u h
  · exact hs.elim (fun e => e ▸ h) fun u => hE.data.room_update u h
  · exact ht.elim (fun e => e ▸ h) fun u => hE.metadata.token_update u h
  · exact hs.elim (fun e => e ▸ h) fun u => hE.data.token_update u h
  · exact hs.elim (fun e => by rw [e]) fun u => hE.data.peek_update u h
  · exact hs.elim (fun e => by rw [e]) fun u => hE.data.queue_update u
  · exact ht.elim (fun e => by rw [e]) fun u => hE.metadata.queue_update u

/-- A quiet step needs only what the sides see afterwards. -/
theorem Paired.quiet (h : Paired E l) (hq : Quiet E l l') (hpushed : l'.pushedData = l.pushedData)
    (hpopped : l'.poppedData = l.poppedData)
    (hproducer : ProducerSees E l' l'.producer) (hconsumer : ConsumerSees E l' l'.consumer)
    (hheld : ∀ received, l'.held = some received → l'.consumer ≠ .poppedData ∧ Available E l' ∧
      (received.position, received.size) = E.dataChannel.peek l'.data ∧
      l.sent[l.popped]?.map (·.metadata) = some received.metadata) : Paired E l' where
  data := by rw [hq.data, h.data, hpushed, hpopped]
  metadata := by rw [hq.metadata, h.metadata, hq.sent, hq.popped]
  le := by
    rw [hq.popped, hq.sent]
    exact h.le
  producer := hproducer
  consumer := hconsumer
  held := by
    rw [hq.sent, hq.popped]
    exact hheld

/-- The message at the front of the channels. -/
theorem Paired.front (h : Paired E l) (hE : E.Lawful) (ha : E.metadataChannel.isEmpty l.metadata = false) :
    ∃ m, l.sent[l.popped]? = some m ∧
      E.tokenBuffer l.metadata (E.metadataChannel.peek l.metadata) = m.metadata := by
  have hhead := hE.metadata.head ha
  rw [h.metadata, hE.read_metadata, List.head?_map, List.head?_drop] at hhead
  obtain ⟨m, hm, hmeta⟩ := Option.map_eq_some_iff.mp hhead
  exact ⟨m, hm, hmeta.symm⟩

/-- The bytes at the front of the payload channel. -/
theorem Paired.front_data (h : Paired E l) (hE : E.Lawful) (hc : l.consumer ≠ .poppedData)
    (ha : Available E l) : ∃ m, l.sent[l.popped]? = some m ∧
      E.bytes l.data (E.dataChannel.peek l.data).1 (E.dataChannel.peek l.data).2 = m.data := by
  obtain ⟨m, hm, -⟩ := h.front hE ha.metadata
  have hhead := hE.data.head ha.data
  have hpushed : l.pushedData[l.popped]? = some m := by
    unfold pushedData
    split
    · rw [List.getElem?_append_left (List.getElem?_eq_some_iff.mp hm).1, hm]
    · exact hm
  rw [h.data, poppedData, if_neg hc, hE.read_data, List.head?_map, List.head?_drop, hpushed] at hhead
  exact ⟨m, hm, (Option.some.inj hhead).symm⟩

/-- Quiet steps of the producer leave the consumer alone. -/
theorem Paired.produce_quiet (h : Paired E l) (hq : Quiet E l l')
    (hpushed : l'.pushedData = l.pushedData) (hconsumer : l'.consumer = l.consumer)
    (hheld : l'.held = l.held) (hproducer : ProducerSees E l' l'.producer) : Paired E l' := by
  refine h.quiet hq hpushed ?_ hproducer ?_ fun received hr => ?_
  · rw [poppedData, poppedData, hconsumer, hq.popped]
  · rw [hconsumer]
    exact hq.tokens.consumer h.consumer
  · rw [hheld] at hr
    obtain ⟨hc, ha, hpeek, hmeta⟩ := h.held received hr
    exact ⟨by rwa [hconsumer], hq.tokens.available ha,
      hpeek.trans (hq.tokens.peekData ha.data).symm, hmeta⟩

/-- Quiet steps of the consumer leave the producer alone. -/
theorem Paired.consume_quiet (h : Paired E l) (hq : Quiet E l l') (hproducer : l'.producer = l.producer)
    (hpopped : l'.consumer ≠ .poppedData) (hold : l.consumer ≠ .poppedData)
    (hconsumer : ConsumerSees E l' l'.consumer)
    (hheld : l'.held = l.held ∨ ∀ received, l'.held = some received → Available E l' ∧
      (received.position, received.size) = E.dataChannel.peek l'.data ∧
      l.sent[l.popped]?.map (·.metadata) = some received.metadata) : Paired E l' := by
  refine h.quiet hq ?_ ?_ ?_ hconsumer fun received hr => ⟨hpopped, ?_⟩
  · rw [pushedData, pushedData, hproducer, hq.sent]
  · rw [poppedData, poppedData, if_neg hpopped, if_neg hold, hq.popped]
  · rw [hproducer]
    exact hq.keeps.producer h.producer
  · rcases hheld with hsame | hnew
    · rw [hsame] at hr
      obtain ⟨-, ha, hpeek, hmeta⟩ := h.held received hr
      exact ⟨hq.tokens.available ha, hpeek.trans (hq.tokens.peekData ha.data).symm, hmeta⟩
    · exact hnew received hr

theorem pushedData_eq (h : ∀ m, l.producer ≠ .pushedData m) : l.pushedData = l.sent := by
  unfold pushedData
  split
  · next m hm => exact absurd hm (h m)
  · rfl

theorem reportFull_ne (m m' : Message) (pushing : Bool) :
    reportFull m pushing ≠ .pushedData m' := by
  cases pushing <;> simp [reportFull]

/-- A channel that has seen room for the message does not report full in `pushMessage`. -/
theorem producerSees_probe {m : Message} {pushing full : Bool} {next : Producer}
    (hroom : pushing = true → full = false) (hnext : full = false → ProducerSees E l next) :
    ProducerSees E l (if full then reportFull m pushing else next) := by
  cases full with
  | false => exact hnext rfl
  | true =>
    cases pushing with
    | false => trivial
    | true => cases hroom rfl

theorem Paired.pushData (hE : E.Lawful) (h : Paired E l) {m : Message}
    (hpushing : l.producer = .pushing m) :
    Paired E { l with data := E.dataChannel.push l.data m.data, producer := .pushedData m } := by
  have hp := h.producer
  rw [hpushing] at hp
  have hsize : E.dataChannel.isFull l.data (E.dataChannel.size m.data) = false := by
    rw [hE.size_data]
    exact hp.data
  have hold : l.pushedData = l.sent := pushedData_eq (by simp [hpushing])
  have hpop : l.poppedData ≤ l.sent.length := by
    unfold poppedData
    split
    · next hc =>
      have hsees := h.consumer
      rw [hc] at hsees
      obtain ⟨m', hm', -⟩ := h.front hE hsees
      exact (List.getElem?_eq_some_iff.mp hm').1
    · exact h.le
  have hkeeps : KeepsTokens E l { l with
      data := E.dataChannel.push l.data m.data, producer := .pushedData m } :=
    ⟨id, fun ha => hE.data.token_push ha, fun ha => hE.data.peek_push ha⟩
  refine ⟨?_, h.metadata, h.le, hp.metadata, hkeeps.consumer h.consumer, fun received hr => ?_⟩
  · show E.dataChannel.queue (E.dataChannel.push l.data m.data) =
      ((l.sent ++ [m]).drop l.poppedData).map (·.data)
    rw [hE.data.queue_push hsize, h.data, hold, List.drop_append_of_le_length hpop, List.map_append]
    rfl
  · obtain ⟨hc, ha, hpeek, hmeta⟩ := h.held received hr
    exact ⟨hc, hkeeps.available ha, hpeek.trans (hkeeps.peekData ha.data).symm, hmeta⟩

theorem Paired.pushMetadata (hE : E.Lawful) (h : Paired E l) {m : Message}
    (hpushed : l.producer = .pushedData m) :
    Paired E { l with
      metadata := E.metadataChannel.push l.metadata m.metadata
      producer := .idle
      sent := l.sent ++ [m] } := by
  have hp := h.producer
  rw [hpushed] at hp
  have hsize : E.metadataChannel.isFull l.metadata (E.metadataChannel.size m.metadata) = false := by
    rw [hE.size_metadata]
    exact hp
  have hdata : l.pushedData = l.sent ++ [m] := by
    unfold pushedData
    rw [hpushed]
  have hkeeps : KeepsTokens E l { l with
      metadata := E.metadataChannel.push l.metadata m.metadata
      producer := .idle
      sent := l.sent ++ [m] } :=
    ⟨fun ha => hE.metadata.token_push ha, id, fun _ => rfl⟩
  refine ⟨?_, ?_, ?_, trivial, hkeeps.consumer h.consumer, fun received hr => ?_⟩
  · rw [pushedData_eq (by simp)]
    show E.dataChannel.queue l.data = ((l.sent ++ [m]).drop l.poppedData).map (·.data)
    rw [← hdata]
    exact h.data
  · show E.metadataChannel.queue (E.metadataChannel.push l.metadata m.metadata) =
      ((l.sent ++ [m]).drop l.popped).map (·.metadata)
    rw [hE.metadata.queue_push hsize, h.metadata, List.drop_append_of_le_length h.le,
      List.map_append]
    rfl
  · exact Nat.le_trans h.le (by simp)
  · obtain ⟨hc, ha, hpeek, hmeta⟩ := h.held received hr
    refine ⟨hc, hkeeps.available ha, hpeek, ?_⟩
    dsimp only
    obtain ⟨m', hm', -⟩ := h.front hE ha.metadata
    rw [List.getElem?_append_left (List.getElem?_eq_some_iff.mp hm').1]
    exact hmeta

theorem Paired.produce (hE : E.Lawful) (h : Paired E l) (hstep : Step E l .produce l') :
    Paired E l' := by
  have hp := h.producer
  cases hstep with
  | @probeMetadata m pushing t hprobing hupd =>
    rw [hprobing] at hp
    refine h.produce_quiet (.of_update hE (.inl rfl) (.inr (.inl hupd)) rfl rfl) ?_ rfl rfl ?_
    · rw [pushedData_eq (l := l) (by simp [hprobing]), pushedData_eq]
      intro m'
      dsimp only
      split
      · exact reportFull_ne m m' pushing
      · simp
    · refine producerSees_probe (fun hpushing => ?_) fun hfull => ?_
      · subst hpushing
        exact hE.metadata.room_update (.inl hupd) hp.metadata
      · cases pushing with
        | false => exact hfull
        | true => exact ⟨hfull, hp.data⟩
  | @probeData m pushing s hprobing hupd =>
    rw [hprobing] at hp
    refine h.produce_quiet (.of_update hE (.inr (.inl hupd)) (.inl rfl) rfl rfl) ?_ rfl rfl ?_
    · rw [pushedData_eq (l := l) (by simp [hprobing]), pushedData_eq]
      intro m'
      dsimp only
      split
      · exact reportFull_ne m m' pushing
      · split <;> simp
    · refine producerSees_probe (fun hpushing => ?_) fun hfull => ?_
      · subst hpushing
        exact hE.data.room_update (.inl hupd) hp.data
      · cases pushing with
        | false => exact ⟨hp, hfull⟩
        | true => exact ⟨hp.metadata, hfull⟩
  | retry hsleep =>
    refine h.produce_quiet (.of_update hE (.inl rfl) (.inl rfl) rfl rfl) ?_ rfl rfl trivial
    rw [pushedData_eq (l := l) (by simp [hsleep]), pushedData_eq (by simp)]
  | pushData hpushing => exact h.pushData hE hpushing
  | pushMetadata hpushed => exact h.pushMetadata hE hpushed

theorem Paired.popData (hE : E.Lawful) (h : Paired E l) (hpopping : l.consumer = .popping) :
    Paired E { l with
      data := E.dataChannel.pop l.data, consumer := .poppedData, held := none } := by
  have hc := h.consumer
  rw [hpopping] at hc
  have hold : l.poppedData = l.popped := by rw [poppedData, if_neg (by simp [hpopping])]
  have hkeeps : Keeps E l { l with
      data := E.dataChannel.pop l.data, consumer := .poppedData, held := none } :=
    ⟨fun _ => id, fun _ hr => hE.data.room_pop hr⟩
  refine ⟨?_, h.metadata, h.le, hkeeps.producer h.producer, hc.metadata, by simp⟩
  show E.dataChannel.queue (E.dataChannel.pop l.data) =
    (l.pushedData.drop (l.popped + 1)).map (·.data)
  rw [hE.data.queue_pop hc.data, h.data, hold, ← List.map_tail, List.tail_drop]

theorem Paired.popMetadata (hE : E.Lawful) (h : Paired E l) (hpopped : l.consumer = .poppedData) :
    Paired E { l with
      metadata := E.metadataChannel.pop l.metadata
      consumer := .idle
      reply := some .popped
      popped := l.popped + 1 } := by
  have hc := h.consumer
  rw [hpopped] at hc
  have hold : l.poppedData = l.popped + 1 := by rw [poppedData, if_pos hpopped]
  obtain ⟨m, hm, -⟩ := h.front hE hc
  have hkeeps : Keeps E l { l with
      metadata := E.metadataChannel.pop l.metadata
      consumer := .idle
      reply := some .popped
      popped := l.popped + 1 } :=
    ⟨fun _ hr => hE.metadata.room_pop hr, fun _ => id⟩
  refine ⟨?_, ?_, (List.getElem?_eq_some_iff.mp hm).1, hkeeps.producer h.producer, trivial,
    fun received hr => ?_⟩
  · show E.dataChannel.queue l.data = (l.pushedData.drop (l.popped + 1)).map (·.data)
    rw [← hold]
    exact h.data
  · show E.metadataChannel.queue (E.metadataChannel.pop l.metadata) =
      (l.sent.drop (l.popped + 1)).map (·.metadata)
    rw [hE.metadata.queue_pop hc, h.metadata, ← List.map_tail, List.tail_drop]
  · exact absurd hpopped (h.held received hr).1

theorem Paired.consume (hE : E.Lawful) (h : Paired E l) (hstep : Step E l .consume l') :
    Paired E l' := by
  have hc := h.consumer
  cases hstep with
  | @pollMetadata c t hprobing hupd =>
    refine h.consume_quiet (.of_update hE (.inl rfl) (.inr (.inr hupd)) rfl rfl) rfl ?_
      (by simp [hprobing]) ?_ (.inl rfl)
    · dsimp only
      split <;> simp
    · dsimp only
      split
      · trivial
      · next hempty => exact Bool.eq_false_iff.mpr hempty
  | @pollData c s hprobing hupd =>
    rw [hprobing] at hc
    refine h.consume_quiet (.of_update hE (.inr (.inr hupd)) (.inl rfl) rfl rfl) rfl ?_
      (by simp [hprobing]) ?_ (.inl rfl)
    · dsimp only
      split
      · simp
      · cases c <;> simp
    · dsimp only
      split
      · trivial
      · next hempty =>
        have ha : E.dataChannel.isEmpty s = false := Bool.eq_false_iff.mpr hempty
        cases c with
        | hasMessage => trivial
        | getMessage => exact ⟨hc, ha⟩
        | popMessage => exact ⟨hc, ha⟩
  | peekData hpeeking =>
    rw [hpeeking] at hc
    exact h.consume_quiet (.of_update hE (.inl rfl) (.inl rfl) rfl rfl) rfl (by simp)
      (by simp [hpeeking]) ⟨⟨hc.metadata, hc.data⟩, rfl⟩ (.inl rfl)
  | @peekMetadata token received hpeeked hreceived =>
    rw [hpeeked] at hc
    obtain ⟨ha, htoken⟩ := hc
    refine h.consume_quiet (.of_update hE (.inl rfl) (.inl rfl) rfl rfl) rfl (by simp)
      (by simp [hpeeked]) trivial (.inr fun received' hr => ?_)
    cases hr
    obtain ⟨m, hm, hmeta⟩ := h.front hE ha.metadata
    refine ⟨⟨ha.metadata, ha.data⟩, ?_, ?_⟩
    · rw [hreceived]
      exact htoken
    · rw [hm, hreceived, Option.map_some, hmeta]
  | popData hpopping => exact h.popData hE hpopping
  | popMetadata hpopped => exact h.popMetadata hE hpopped

theorem Paired.step (hE : E.Lawful) {op : Op} (h : Paired E l) (hstep : Step E l op l') :
    Paired E l' := by
  cases op with
  | produce => exact h.produce hE hstep
  | consume => exact h.consume hE hstep
  | push m =>
    cases hstep with
    | push hidle =>
      refine h.produce_quiet (.of_update hE (.inl rfl) (.inl rfl) rfl rfl) ?_ rfl rfl trivial
      rw [pushedData_eq (l := l) (by simp [hidle]), pushedData_eq (by simp)]
  | call c =>
    cases hstep with
    | call hidle =>
      exact h.consume_quiet (.of_update hE (.inl rfl) (.inl rfl) rfl rfl) rfl (by simp)
        (by simp [hidle]) trivial (.inl rfl)

theorem Started.paired (h : Started E l) : Paired E l := by
  obtain ⟨hd, hm, hrest⟩ := h
  rw [hrest]
  exact ⟨by simpa [pushedData] using hd, by simpa using hm, Nat.le_refl _, trivial, trivial, by simp⟩

/-- The invariant of an edge. -/
theorem reachable_paired (hE : E.Lawful) (h : (linkMachine E).Reachable l) : Paired E l :=
  Machine.Reachable.invariant (I := Paired E) (fun _ h => Started.paired h)
    (fun _ _ _ _ h hstep => Paired.step hE h hstep) h

/-- A full channel: nothing was pushed. -/
theorem step_sleeping {op : Op} {m : Message} (hE : E.Lawful) (hstep : Step E l op l')
    (hsleep : l'.producer = .sleeping m) (hold : l.producer ≠ .sleeping m) :
    E.dataChannel.queue l'.data = E.dataChannel.queue l.data ∧
      E.metadataChannel.queue l'.metadata = E.metadataChannel.queue l.metadata ∧
      l'.sent = l.sent := by
  cases hstep with
  | probeMetadata _ hupd => exact ⟨rfl, hE.metadata.queue_update (.inl hupd), rfl⟩
  | probeData _ hupd => exact ⟨hE.data.queue_update (.inl hupd), rfl, rfl⟩
  | push | retry | pushData | pushMetadata => cases hsleep
  | call | pollMetadata | pollData | peekData | peekMetadata | popData | popMetadata =>
    exact absurd hsleep hold

/-- Every message that the consumer holds is the push with the number of its pops so far, with
its own bytes and its own metadata; the channels hold the rest, and a full channel is never
pushed to. -/
theorem messages_paired (hE : E.Lawful) (h : (linkMachine E).Reachable l) :
    (∀ received, l.held = some received → ∃ m, l.sent[l.popped]? = some m ∧
      E.bytes l.data received.position received.size = m.data ∧ received.metadata = m.metadata) ∧
    l.popped ≤ l.sent.length ∧
    (l.producer = .idle → l.consumer = .idle →
      E.dataChannel.queue l.data = (l.sent.drop l.popped).map (·.data) ∧
      E.metadataChannel.queue l.metadata = (l.sent.drop l.popped).map (·.metadata)) ∧
    (∀ error, l.producer ≠ .thrown error) ∧
    ∀ op l' m, Step E l op l' → l'.producer = .sleeping m → l.producer ≠ .sleeping m →
      E.dataChannel.queue l'.data = E.dataChannel.queue l.data ∧
        E.metadataChannel.queue l'.metadata = E.metadataChannel.queue l.metadata ∧
        l'.sent = l.sent := by
  have hinv := reachable_paired hE h
  refine ⟨fun received hr => ?_, hinv.le, fun hp hc => ⟨?_, hinv.metadata⟩, fun error herror => ?_,
    fun op l' m hstep => step_sleeping hE hstep⟩
  · obtain ⟨hc, ha, hpeek, hmeta⟩ := hinv.held received hr
    obtain ⟨m, hm, hbytes⟩ := hinv.front_data hE hc ha
    rw [← hpeek] at hbytes
    rw [hm] at hmeta
    exact ⟨m, hm, hbytes, (Option.some.inj hmeta).symm⟩
  · have hdata := hinv.data
    rw [pushedData_eq (by simp [hp]), poppedData, if_neg (by simp [hc])] at hdata
    exact hdata
  · have hsees := hinv.producer
    rw [herror] at hsees
    exact hsees

/-- Channels of two messages and eight bytes. -/
def smallEdge : Edge (List (List UInt8)) (List Metadata) where
  dataChannel := .bounded 2 8 List.length (fun s => (0, (s.headD []).length))
    fun s token => (List.range token.2).map fun i => s.flatten.getD (token.1 + i) 0
  metadataChannel := .bounded 2 2 (fun _ => 1) (fun _ => 0) fun s token => s.getD token {}
  payloadBuffer s i := s.flatten.getD i 0
  tokenBuffer s token := s.getD token {}

theorem smallEdge_lawful : smallEdge.Lawful where
  data := by
    refine Spsc.bounded_lawful (fun a s => ?_) fun a s b => by simp
    apply List.ext_getElem
    · simp
    · intro i hi hi'
      simp [List.getElem?_append_left hi', List.getElem?_eq_getElem hi']
  metadata := Spsc.bounded_lawful (fun a s => rfl) fun a s b => rfl
  size_data _ := rfl
  size_metadata _ := rfl
  read_data _ _ := rfl
  read_metadata _ _ := rfl

def hello : Message := ⟨[104, 105], { type := 1, groupId := 2, sequenceId := 3 }⟩

def world : Message := ⟨[119, 111, 114], { type := 1, groupId := 2, sequenceId := 4 }⟩

/-- The bytes of `world` are pushed between the two pops of `hello`. -/
theorem messages_paired_second : ∃ l, (linkMachine smallEdge).Reachable l ∧
    l.sent = [hello, world] ∧ l.popped = 1 ∧ l.held = some ⟨0, 3, world.metadata⟩ ∧
    ∃ m, l.sent[l.popped]? = some m ∧
      smallEdge.bytes l.data 0 3 = m.data ∧ world.metadata = m.metadata := by
  have h₀ : (linkMachine smallEdge).Reachable { data := [], metadata := [] } :=
    .start ⟨rfl, rfl, rfl⟩
  have next : ∀ {l l' op}, (linkMachine smallEdge).Reachable l → Step smallEdge l op l' →
      (linkMachine smallEdge).Reachable l' := fun h hstep => h.next hstep
  have h₁ := next h₀ (.push (m := hello) rfl)
  have h₂ := next h₁ (.probeMetadata rfl rfl)
  have h₃ := next h₂ (.probeData rfl rfl)
  have h₄ := next h₃ (.probeMetadata rfl rfl)
  have h₅ := next h₄ (.probeData rfl rfl)
  have h₆ := next h₅ (.pushData rfl)
  have h₇ := next h₆ (.pushMetadata rfl)
  have h₈ := next h₇ (.call (c := .popMessage) rfl)
  have h₉ := next h₈ (.pollMetadata rfl rfl)
  have h₁₀ := next h₉ (.pollData rfl rfl)
  have h₁₁ := next h₁₀ (.push (m := world) rfl)
  have h₁₂ := next h₁₁ (.probeMetadata rfl rfl)
  have h₁₃ := next h₁₂ (.probeData rfl rfl)
  have h₁₄ := next h₁₃ (.probeMetadata rfl rfl)
  have h₁₅ := next h₁₄ (.probeData rfl rfl)
  have h₁₆ := next h₁₅ (.popData rfl)
  have h₁₇ := next h₁₆ (.pushData rfl)
  have h₁₈ := next h₁₇ (.popMetadata rfl)
  have h₁₉ := next h₁₈ (.pushMetadata rfl)
  have h₂₀ := next h₁₉ (.call (c := .getMessage) rfl)
  have h₂₁ := next h₂₀ (.pollMetadata rfl rfl)
  have h₂₂ := next h₂₁ (.pollData rfl rfl)
  have h₂₃ := next h₂₂ (.peekData rfl)
  have h₂₄ := next h₂₃ (.peekMetadata rfl rfl)
  exact ⟨_, h₂₄, rfl, rfl, rfl, (messages_paired smallEdge_lawful h₂₄).1 _ rfl⟩

end Link
end PyptoServing.Platform
