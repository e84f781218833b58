import PyptoServing.Runner.MtpSlots

/-!
# The draft layer over a chunked prompt

The draft layer pairs the hidden state of a position with the next token, so each chunk of a
prefill holds its last row back until the next chunk supplies that token. Over all chunks and
the final sampled token it runs on a window of rows at the end of the prompt, each once.
-/
namespace PyptoServing.Runner

open Lib Memory Sched

variable {E H : Type}

/-- A row of the draft layer: the embedding of the next token, the hidden state of the
position, the next token, the position and its cache slot. -/
structure MtpRow (E H : Type) where
  hiddenState : E
  prevHiddenState : H
  inputId : Int
  positionId : Nat
  slotMapping : Int
  deriving DecidableEq

/-- A dispatch of the draft layer. -/
structure MtpDispatch (E H : Type) where
  rank : Nat
  blockTable : List BlockId
  rows : List (MtpRow E H)
  produceDraft : Bool

/-- The runner with the dispatches it has made. -/
structure MtpHost (E H : Type) where
  runner : MtpRunner H
  dispatches : List (MtpDispatch E H) := []

abbrev MtpHostM (E H α : Type) := Raising String (MtpHost E H) α

/-- The rows of one request in a prefill batch: `pre_hc_hidden` holds the hidden states of the
last rows. -/
structure PrefillRow (E H : Type) where
  requestId : RequestId
  rank : Nat
  embeddings : List E
  inputIds : List Int
  positionIds : List Nat
  slotMapping : List Int
  blockTable : List BlockId
  preHcHidden : List H

/-- `values[start:stop]`. -/
def slice {α : Type*} (values : List α) (start stop : Nat) : List α := (values.take stop).drop start

namespace MtpHost

def ofRunner {α : Type} (m : MtpM H α) : MtpHostM E H α :=
  ExceptT.mk fun host =>
    let (result, runner) := m.exec host.runner
    (result, { host with runner })

/-- `_run_mtp_prefill_rows`; `draft` is the token with the highest logit. -/
def runMtpPrefillRows (prefillSeq rank : Nat) (hiddenStates : List E) (prevHiddenStates : List H)
    (inputIds : List Int) (positionIds : List Nat) (blockTable : List BlockId)
    (slotMapping : List Int) (produceDraft : Bool) (draft : Int) :
    MtpHostM E H (Option Int) := do
  let n := inputIds.length
  if n = 0 ∨ prefillSeq < n then
    throw s!"DeepSeekV4 MTP prefill rows must be in [1, {prefillSeq}], got {n}"
  if hiddenStates.length ≠ n ∨ prevHiddenStates.length ≠ n ∨ positionIds.length ≠ n ∨
      slotMapping.length ≠ n then
    throw "DeepSeekV4 MTP prefill row tensors are not aligned"
  let rows := (hiddenStates.zip (prevHiddenStates.zip (inputIds.zip
    (positionIds.zip slotMapping)))).map fun (hiddenState, prevHiddenState, inputId, positionId,
      slot) => { hiddenState, prevHiddenState, inputId, positionId, slotMapping := slot }
  modify fun host => { host with
    dispatches := host.dispatches ++ [{ rank, blockTable, rows, produceDraft }] }
  return if produceDraft then some draft else none

/-- The fields of a request's state are assigned in place. -/
def setState (r : RequestId) (state : MtpRequestState H) : MtpHostM E H Unit :=
  modify fun host => { host with
    runner.requestStates := host.runner.requestStates.insert r state }

/-- The checks of a row against the pending one. -/
def checkPending (row : PrefillRow E H) :
    Option (MtpPrefillContext H) → Except String Unit
  | none => .ok ()
  | some pending =>
    if pending.rank ≠ row.rank then
      .error (s!"DeepSeekV4 MTP request '{row.requestId}' moved cache partitions " ++
        s!"from {pending.rank} to {row.rank} during prefill")
    else if row.positionIds.head? ≠ some (pending.positionId + 1) then
      .error (s!"DeepSeekV4 MTP prefill for '{row.requestId}' is not contiguous: " ++
        s!"pending={pending.positionId}, next={row.positionIds.headD 0}")
    else .ok ()

/-- The segments of the rows that a chunk runs. -/
structure MtpRowParts (E H : Type) where
  hiddenParts : List (List E)
  prevHiddenParts : List (List H)
  idParts : List (List Int)
  positionParts : List (List Nat)
  slotParts : List (List Int)

/-- The held-back row goes first, unless the chunk fills the window; then the rows of the
window but the last. -/
def rowParts (prefillSeq : Nat) (row : PrefillRow E H) (currentPreHc : List H)
    (pending : Option (MtpPrefillContext H)) : MtpRowParts E H :=
  let n := row.inputIds.length
  let tailTokens := min n prefillSeq
  let tailStart := n - tailTokens
  let held := (pending.filter fun _ => n < prefillSeq).toList
  let tail := if 1 < tailTokens then [()] else []
  { hiddenParts := (held.map fun _ => row.embeddings.take 1) ++
      tail.map fun _ => slice row.embeddings (tailStart + 1) n
    prevHiddenParts := (held.map fun pending => [pending.prevHiddenState]) ++
      tail.map fun _ => currentPreHc.take (tailTokens - 1)
    idParts := (held.map fun _ => row.inputIds.take 1) ++
      tail.map fun _ => slice row.inputIds (tailStart + 1) n
    positionParts := (held.map fun pending => [pending.positionId]) ++
      tail.map fun _ => slice row.positionIds tailStart (n - 1)
    slotParts := (held.map fun pending => [pending.slotMapping]) ++
      tail.map fun _ => slice row.slotMapping tailStart (n - 1) }

def runParts (prefillSeq : Nat) (row : PrefillRow E H) (parts : MtpRowParts E H) :
    MtpHostM E H Unit :=
  if parts.hiddenParts = [] then pure ()
  else do
    let _ ← runMtpPrefillRows prefillSeq row.rank parts.hiddenParts.flatten
      parts.prevHiddenParts.flatten parts.idParts.flatten parts.positionParts.flatten
      row.blockTable parts.slotParts.flatten false 0

/-- The last row of a chunk as the pending one. -/
def lastContext (row : PrefillRow E H) (currentPreHc : List H) :
    Except String (MtpPrefillContext H) :=
  match row.positionIds.getLast?, row.slotMapping.getLast?, currentPreHc.getLast? with
  | some lastPosition, some slot, some hidden =>
    .ok {
      rank := row.rank
      prevHiddenState := hidden
      positionId := lastPosition
      blockTable := row.blockTable
      slotMapping := slot
      promptLen := lastPosition + 1 }
  | _, _, _ => .error "index out of range"

/-- The hidden states of the window. -/
def currentPreHc (prefillSeq : Nat) (row : PrefillRow E H) : Except String (List H) :=
  let tailTokens := min row.inputIds.length prefillSeq
  let hidden := row.preHcHidden.take tailTokens
  if hidden.length ≠ tailTokens then
    .error (s!"DeepSeekV4 main prefill returned {hidden.length} pre-HC rows " ++
      s!"for a {tailTokens}-row MTP tail")
  else .ok hidden

/-- One row of `_capture_mtp_prefill_context`. -/
def capturePrefillRow (prefillSeq : Nat) (row : PrefillRow E H) : MtpHostM E H Unit :=
  if row.inputIds = [] then throw "DeepSeekV4 MTP prefill chunks must not be empty"
  else do
    ofRunner (MtpRunner.reserveMtpRequestState row.requestId row.rank)
    let state ← ofRunner (MtpRunner.requireMtpRequestState row.requestId)
    let hidden ← MonadExcept.ofExcept (currentPreHc prefillSeq row)
    MonadExcept.ofExcept (checkPending row state.prefillContext)
    runParts prefillSeq row (rowParts prefillSeq row hidden state.prefillContext)
    let context ← MonadExcept.ofExcept (lastContext row hidden)
    setState row.requestId { state with prefillContext := some context }

/-- `_initialize_mtp_draft`, with the embedding of the first token. -/
def initializeMtpDraft (prefillSeq : Nat) (r : RequestId) (firstTokenId : Int) (firstHidden : E)
    (draft : Int) : MtpHostM E H Unit := do
  let state ← ofRunner (MtpRunner.requireMtpRequestState r)
  match state.prefillContext with
  | none => throw s!"DeepSeekV4 MTP prefill context is missing for '{r}'"
  | some context =>
    let draftTokenId ← runMtpPrefillRows prefillSeq context.rank [firstHidden]
      [context.prevHiddenState] [firstTokenId] [context.positionId] context.blockTable
      [context.slotMapping] true draft
    match draftTokenId with
    | none => throw "DeepSeekV4 MTP draft prefill did not produce a token"
    | some token =>
      setState r { state with draftTokenId := some token }
      ofRunner (MtpRunner.reserveMtpStateSlot r context.rank "<prefill>")
      let state ← ofRunner (MtpRunner.requireMtpRequestState r)
      setState r { state with prefillContext := none, promptLen := context.promptLen }

/-- One request in `finalize_prefill`. -/
def finalizePrefillRow (prefillSeq : Nat) (r : RequestId) (firstTokenId : Int) (firstHidden : E)
    (draft : Int) : MtpHostM E H Unit := do
  let state ← ofRunner (MtpRunner.requireMtpRequestState r)
  if state.draftTokenId = none then
    initializeMtpDraft prefillSeq r firstTokenId firstHidden draft

end MtpHost

/-- A prompt on its rank: its tokens and the sampled one, what the main model returns for
every position, and the cache slot of every position. -/
structure MtpPrompt (E H : Type) where
  requestId : RequestId
  rank : Nat
  promptTokenIds : List Int
  firstTokenId : Int
  embed : Int → E
  hidden : Nat → H
  slot : Nat → Int

namespace MtpPrompt
variable (x : MtpPrompt E H)

def token (p : Nat) : Int := (x.promptTokenIds ++ [x.firstTokenId]).getD p 0

/-- The row of a position: its hidden state with the token that follows. -/
def row (p : Nat) : MtpRow E H where
  hiddenState := x.embed (x.token (p + 1))
  prevHiddenState := x.hidden p
  inputId := x.token (p + 1)
  positionId := p
  slotMapping := x.slot p

/-- A chunk: its length, its block table and what else the hidden buffer holds. -/
structure Chunk (H : Type) where
  length : Nat
  blockTable : List BlockId
  rest : List H := []

/-- The chunk in the prefill batch, from a position on. -/
def prefillRow (prefillSeq start : Nat) (c : Chunk H) : PrefillRow E H where
  requestId := x.requestId
  rank := x.rank
  embeddings := (slice x.promptTokenIds start (start + c.length)).map x.embed
  inputIds := slice x.promptTokenIds start (start + c.length)
  positionIds := List.range' start c.length
  slotMapping := (List.range' start c.length).map x.slot
  blockTable := c.blockTable
  preHcHidden :=
    (List.range' (start + c.length - min c.length prefillSeq) (min c.length prefillSeq)).map
      x.hidden ++ c.rest

/-- The positions that a chunk runs: the held-back one, unless the chunk fills the window, and
those of the window that have their next token. -/
def positions (prefillSeq start : Nat) (held : Bool) (n : Nat) : List Nat :=
  (if held ∧ n < prefillSeq then [start - 1] else []) ++
    List.range' (start + n - min n prefillSeq) (min n prefillSeq - 1)

/-- The last row of a chunk, which waits for the next token. -/
def context (stop : Nat) (blockTable : List BlockId) : MtpPrefillContext H where
  rank := x.rank
  prevHiddenState := x.hidden (stop - 1)
  positionId := stop - 1
  blockTable := blockTable
  slotMapping := x.slot (stop - 1)
  promptLen := stop - 1 + 1

end MtpPrompt

theorem slice_map {α β : Type*} (f : α → β) (l : List α) (start stop : Nat) :
    slice (l.map f) start stop = (slice l start stop).map f := by
  unfold slice
  rw [← List.map_take, List.map_drop]

theorem slice_range' (s n start stop : Nat) :
    slice (List.range' s n) start stop = List.range' (s + start) (min stop n - start) := by
  unfold slice
  rcases Nat.le_total stop n with h | h
  · rw [List.take_range'_of_length_ge h, List.drop_range', Nat.mul_one, Nat.min_eq_left h]
  · rw [List.take_range'_of_length_le h, List.drop_range', Nat.mul_one, Nat.min_eq_right h]

theorem getLast?_range' {s n : Nat} (hn : 0 < n) :
    (List.range' s n).getLast? = some (s + n - 1) := by
  obtain ⟨m, rfl⟩ := Nat.exists_eq_succ_of_ne_zero hn.ne'
  rw [List.range'_concat, List.getLast?_concat]
  simp

namespace MtpPrompt
variable (x : MtpPrompt E H)

/-- The tokens of a chunk of the prompt. -/
theorem slice_prompt {start n : Nat} (h : start + n ≤ x.promptTokenIds.length) :
    slice x.promptTokenIds start (start + n) = (List.range' start n).map x.token := by
  unfold slice token
  apply List.ext_getElem
  · simp
    omega
  · intro i hi _
    have hlt : start + i < x.promptTokenIds.length := by
      simp at hi
      omega
    rw [List.getElem_drop, List.getElem_take, List.getElem_map, List.getElem_range', Nat.one_mul,
      List.getD_eq_getElem?_getD, List.getElem?_append_left hlt, List.getElem?_eq_getElem hlt]
    rfl

/-- The positions of a chunk fit the window. -/
theorem positions_length {W s n : Nat} {b : Bool} (hn : 0 < n) :
    (positions W s b n).length ≤ W := by
  unfold positions
  rw [List.length_append, List.length_range']
  split
  · rw [List.length_singleton]
    omega
  · rw [List.length_nil]
    omega

end MtpPrompt

namespace MtpHost
variable (x : MtpPrompt E H) {prefillSeq : Nat} {host : MtpHost E H}

/-- Aligned rows that fit the window are dispatched. -/
theorem runMtpPrefillRows_exec {ps : List Nat} (hne : ps ≠ []) (hfit : ps.length ≤ prefillSeq)
    (blockTable : List BlockId) (produceDraft : Bool) (draft : Int) :
    (runMtpPrefillRows prefillSeq x.rank (ps.map fun p => x.embed (x.token (p + 1)))
      (ps.map x.hidden) (ps.map fun p => x.token (p + 1)) ps blockTable (ps.map x.slot)
      produceDraft draft).exec host =
      (.ok (if produceDraft then some draft else none), { host with
        dispatches := host.dispatches ++ [⟨x.rank, blockTable, ps.map x.row, produceDraft⟩] }) := by
  have hlen := List.length_pos_iff.mpr hne
  have hrows : ((ps.map fun p => x.embed (x.token (p + 1))).zip ((ps.map x.hidden).zip
      ((ps.map fun p => x.token (p + 1)).zip (ps.zip (ps.map x.slot))))).map
      (fun (hiddenState, prevHiddenState, inputId, positionId, slot) =>
        ({ hiddenState, prevHiddenState, inputId, positionId, slotMapping := slot } :
          MtpRow E H)) = ps.map x.row := by
    have hself : ps.zip (ps.map x.slot) = ps.map fun p => (p, x.slot p) := by
      rw [← List.map_id ps, List.map_map, List.zip_map']
      simp
    rw [hself, List.zip_map', List.zip_map', List.zip_map', List.map_map]
    rfl
  unfold runMtpPrefillRows
  simp only [List.length_map]
  rw [if_neg (by omega), if_neg (by simp)]
  rw [hrows]
  rfl

@[simp]
theorem ofRunner_exec {α : Type} (m : MtpM H α) (host : MtpHost E H) :
    (ofRunner m : MtpHostM E H α).exec host =
      ((m.exec host.runner).1, { host with runner := (m.exec host.runner).2 }) := rfl

theorem requireMtpRequestState_exec {m : MtpRunner H} {r : RequestId} {state : MtpRequestState H}
    (h : m.requestStates.lookup r = some state) :
    (MtpRunner.requireMtpRequestState r).exec m = (.ok state, m) := by
  simp [MtpRunner.requireMtpRequestState, Raising.exec_bind, h]

/-- The pending row of a request between two chunks. -/
def Pending (held : Bool) (start : Nat) (state : MtpRequestState H) : Prop :=
  if held then 0 < start ∧ ∃ blockTable, state.prefillContext = some (x.context start blockTable)
  else state.prefillContext = none

section Chunk
variable {start : Nat} {held : Bool} {c : MtpPrompt.Chunk H} {state : MtpRequestState H}

theorem prefillRow_inputIds (hfit : start + c.length ≤ x.promptTokenIds.length) :
    (x.prefillRow prefillSeq start c).inputIds = (List.range' start c.length).map x.token :=
  x.slice_prompt hfit

theorem prefillRow_embeddings (hfit : start + c.length ≤ x.promptTokenIds.length) :
    (x.prefillRow prefillSeq start c).embeddings =
      (List.range' start c.length).map fun p => x.embed (x.token p) := by
  show (slice x.promptTokenIds start (start + c.length)).map x.embed = _
  rw [x.slice_prompt hfit, List.map_map]
  rfl

theorem prefillRow_length (hfit : start + c.length ≤ x.promptTokenIds.length) :
    (x.prefillRow prefillSeq start c).inputIds.length = c.length := by
  rw [prefillRow_inputIds x hfit, List.length_map, List.length_range']

/-- The main model returned the hidden states of the window. -/
theorem currentPreHc_prefillRow (hfit : start + c.length ≤ x.promptTokenIds.length) :
    currentPreHc prefillSeq (x.prefillRow prefillSeq start c) = .ok
      ((List.range' (start + c.length - min c.length prefillSeq) (min c.length prefillSeq)).map
        x.hidden) := by
  unfold currentPreHc
  rw [prefillRow_length x hfit]
  have htake : (x.prefillRow prefillSeq start c).preHcHidden.take (min c.length prefillSeq) =
      (List.range' (start + c.length - min c.length prefillSeq) (min c.length prefillSeq)).map
        x.hidden := by
    show List.take _ (List.map _ _ ++ c.rest) = _
    rw [List.take_append_of_le_length (by simp), List.take_of_length_le (by simp)]
  simp only [htake, List.length_map, List.length_range', ne_eq, not_true_eq_false, if_false]

/-- The next chunk starts after the pending row, on the same rank. -/
theorem checkPending_prefillRow (hpos : 0 < c.length) (hpending : Pending x held start state) :
    checkPending (x.prefillRow prefillSeq start c) state.prefillContext = .ok () := by
  unfold Pending at hpending
  split at hpending
  · obtain ⟨hstart, blockTable, hcontext⟩ := hpending
    have hhead : (x.prefillRow prefillSeq start c).positionIds.head? = some start := by
      show (List.range' start c.length).head? = _
      rw [List.head?_range', if_neg hpos.ne']
    have hnext : start - 1 + 1 = start := by omega
    have hrank : (x.prefillRow prefillSeq start c).rank = x.rank := rfl
    simp only [hcontext, checkPending, MtpPrompt.context, hhead, hnext, hrank, ne_eq,
      not_true_eq_false, if_false]
  · rw [hpending]
    rfl

/-- The last row of the chunk waits for the next token. -/
theorem lastContext_prefillRow (hseq : 0 < prefillSeq) (hpos : 0 < c.length) :
    lastContext (x.prefillRow prefillSeq start c)
      ((List.range' (start + c.length - min c.length prefillSeq) (min c.length prefillSeq)).map
        x.hidden) = .ok (x.context (start + c.length) c.blockTable) := by
  have hposition : (x.prefillRow prefillSeq start c).positionIds.getLast? =
      some (start + c.length - 1) := getLast?_range' hpos
  have hslot : (x.prefillRow prefillSeq start c).slotMapping.getLast? =
      some (x.slot (start + c.length - 1)) := by
    show ((List.range' start c.length).map x.slot).getLast? = _
    rw [List.getLast?_map, getLast?_range' hpos, Option.map_some]
  have hhidden : ((List.range' (start + c.length - min c.length prefillSeq)
      (min c.length prefillSeq)).map x.hidden).getLast? =
      some (x.hidden (start + c.length - 1)) := by
    rw [List.getLast?_map, getLast?_range' (by omega), Option.map_some]
    congr 2
    omega
  unfold lastContext
  rw [hposition, hslot, hhidden]
  rfl

/-- The window of a chunk without its last row. -/
theorem slice_window {α : Type} (f : Nat → α) (start n : Nat) :
    slice ((List.range' start n).map f) (n - min n prefillSeq) (n - 1) =
      (List.range' (start + n - min n prefillSeq) (min n prefillSeq - 1)).map f := by
  rw [slice_map, slice_range']
  congr 2 <;> omega

/-- The window of a chunk without its first row: what follows each row but the last. -/
theorem slice_window_next {α : Type} (f : Nat → α) (start n : Nat) :
    slice ((List.range' start n).map f) (n - min n prefillSeq + 1) n =
      (List.range' (start + n - min n prefillSeq) (min n prefillSeq - 1)).map
        fun p => f (p + 1) := by
  rw [slice_map, slice_range', show (fun p => f (p + 1)) = f ∘ (· + 1) from rfl, ← List.map_map]
  have hsucc : (fun p : Nat => p + 1) = (1 + ·) := funext fun p => Nat.add_comm p 1
  rw [hsucc, List.map_add_range']
  congr 2 <;> omega

/-- The row that goes first, if the chunk leaves room for it. -/
theorem held_filter (prefillSeq n : Nat) (hpending : Pending x held start state) :
    (∃ blockTable, (held ∧ n < prefillSeq) ∧ 0 < start ∧
      state.prefillContext.filter (fun _ => n < prefillSeq) = some (x.context start blockTable)) ∨
    ¬ (held ∧ n < prefillSeq) ∧ state.prefillContext.filter (fun _ => n < prefillSeq) = none := by
  unfold Pending at hpending
  split at hpending
  next hheld =>
    obtain ⟨hstart, blockTable, hcontext⟩ := hpending
    by_cases hn : n < prefillSeq
    · left
      exact ⟨blockTable, ⟨hheld, hn⟩, hstart, by rw [hcontext, Option.filter_some_pos (by simpa)]⟩
    · right
      exact ⟨by simp [hn], by rw [hcontext, Option.filter_some_neg (by simpa using hn)]⟩
  next hheld =>
    right
    exact ⟨by simp [hheld], by rw [hpending, Option.filter_none]⟩

/-- The segments that a chunk runs are the rows of its positions. -/
theorem rowParts_prefillRow (hfit : start + c.length ≤ x.promptTokenIds.length)
    (hpos : 0 < c.length) (hpending : Pending x held start state)
    {parts : MtpRowParts E H} (hparts : parts = rowParts prefillSeq
      (x.prefillRow prefillSeq start c)
      ((List.range' (start + c.length - min c.length prefillSeq)
        (min c.length prefillSeq)).map x.hidden) state.prefillContext)
    {ps : List Nat} (hps : ps = MtpPrompt.positions prefillSeq start held c.length) :
    (parts.hiddenParts = [] ↔ ps = []) ∧
      parts.hiddenParts.flatten = ps.map (fun p => x.embed (x.token (p + 1))) ∧
      parts.prevHiddenParts.flatten = ps.map x.hidden ∧
      parts.idParts.flatten = ps.map (fun p => x.token (p + 1)) ∧
      parts.positionParts.flatten = ps ∧ parts.slotParts.flatten = ps.map x.slot := by
  have hpositions : (x.prefillRow prefillSeq start c).positionIds =
    (List.range' start c.length).map id := (List.map_id _).symm
  have hslots : (x.prefillRow prefillSeq start c).slotMapping =
    (List.range' start c.length).map x.slot := rfl
  have htake : ((List.range' (start + c.length - min c.length prefillSeq)
      (min c.length prefillSeq)).map x.hidden).take (min c.length prefillSeq - 1) =
      (List.range' (start + c.length - min c.length prefillSeq)
        (min c.length prefillSeq - 1)).map x.hidden := by
    rw [← List.map_take, List.take_range'_of_length_ge (by omega)]
  subst hparts hps
  unfold rowParts MtpPrompt.positions
  simp only [prefillRow_inputIds x hfit, prefillRow_embeddings x hfit, hpositions, hslots,
    List.length_map, List.length_range', htake, slice_window, slice_window_next]
  have hfirst : List.range' start c.length = start :: List.range' (start + 1) (c.length - 1) := by
    rw [← List.range'_succ, Nat.sub_add_cancel hpos]
  have htail : 1 < min c.length prefillSeq ↔
      List.range' (start + c.length - min c.length prefillSeq) (min c.length prefillSeq - 1) ≠ [] := by
    rw [ne_eq, List.range'_eq_nil_iff]
    omega
  generalize List.range' (start + c.length - min c.length prefillSeq)
    (min c.length prefillSeq - 1) = window at htail ⊢
  rcases held_filter x prefillSeq c.length hpending with
    ⟨blockTable, hheld, hstart, hfilter⟩ | ⟨hheld, hfilter⟩
  · have hnext : start - 1 + 1 = start := by omega
    by_cases hw : 1 < min c.length prefillSeq
    · simp [hfilter, if_pos hheld, hw, hfirst, hnext, MtpPrompt.context]
    · have hnil : window = [] := by simpa [hw] using htail
      simp [hfilter, if_pos hheld, hw, hfirst, hnext, hnil, MtpPrompt.context]
  · by_cases hw : 1 < min c.length prefillSeq
    · simp [hfilter, if_neg hheld, hw, htail.mp hw]
    · have hnil : window = [] := by simpa [hw] using htail
      simp [hfilter, if_neg hheld, hw, hnil]

theorem runParts_prefillRow (hfit : start + c.length ≤ x.promptTokenIds.length)
    (hpos : 0 < c.length) (hpending : Pending x held start state) :
    (runParts prefillSeq (x.prefillRow prefillSeq start c)
      (rowParts prefillSeq (x.prefillRow prefillSeq start c)
        ((List.range' (start + c.length - min c.length prefillSeq)
          (min c.length prefillSeq)).map x.hidden) state.prefillContext)).exec host =
      (.ok (), { host with dispatches := host.dispatches ++
        if MtpPrompt.positions prefillSeq start held c.length = [] then []
        else [⟨x.rank, c.blockTable,
          (MtpPrompt.positions prefillSeq start held c.length).map x.row, false⟩] }) := by
  obtain ⟨hnil, hhidden, hprev, hid, hposition, hslot⟩ :=
    rowParts_prefillRow x hfit hpos hpending rfl rfl
  unfold runParts
  by_cases hps : MtpPrompt.positions prefillSeq start held c.length = []
  · rw [if_pos (hnil.mpr hps), if_pos hps, List.append_nil]
    rfl
  · have hlen : (MtpPrompt.positions prefillSeq start held c.length).length ≤ prefillSeq :=
      MtpPrompt.positions_length hpos
    rw [if_neg (hnil.not.mpr hps), if_neg hps, hhidden, hprev, hid, hposition, hslot]
    exact Raising.exec_bind_ok (runMtpPrefillRows_exec x hps hlen c.blockTable false 0)

/-- A chunk runs its positions and leaves its last row pending. -/
theorem capturePrefillRow_exec {runner : MtpRunner H} (hseq : 0 < prefillSeq)
    (hpos : 0 < c.length) (hfit : start + c.length ≤ x.promptTokenIds.length)
    (hreserve : (MtpRunner.reserveMtpRequestState x.requestId x.rank).exec host.runner =
      (.ok (), runner))
    (hstate : runner.requestStates.lookup x.requestId = some state)
    (hpending : Pending x held start state) :
    (capturePrefillRow prefillSeq (x.prefillRow prefillSeq start c)).exec host = (.ok (), {
      runner := { runner with
        requestStates := runner.requestStates.insert x.requestId { state with
          prefillContext := some (x.context (start + c.length) c.blockTable) } }
      dispatches := host.dispatches ++
        if MtpPrompt.positions prefillSeq start held c.length = [] then []
        else [⟨x.rank, c.blockTable,
          (MtpPrompt.positions prefillSeq start held c.length).map x.row, false⟩] }) := by
  have hne : (x.prefillRow prefillSeq start c).inputIds ≠ [] := by
    rw [← List.length_pos_iff, prefillRow_length x hfit]
    exact hpos
  unfold capturePrefillRow
  rw [if_neg hne]
  have h₁ : (ofRunner (MtpRunner.reserveMtpRequestState x.requestId x.rank) :
      MtpHostM E H Unit).exec host = (.ok (), { host with runner }) := by
    rw [ofRunner_exec, hreserve]
  have h₂ : (ofRunner (MtpRunner.requireMtpRequestState x.requestId) :
      MtpHostM E H _).exec { host with runner } = (.ok state, { host with runner }) := by
    rw [ofRunner_exec, requireMtpRequestState_exec hstate]
  refine (Raising.exec_bind_ok h₁).trans ?_
  refine (Raising.exec_bind_ok h₂).trans ?_
  refine (Raising.exec_bind_ok (Raising.exec_ofExcept _ _ |>.trans
    (congrArg (·, _) (currentPreHc_prefillRow x hfit)))).trans ?_
  refine (Raising.exec_bind_ok (Raising.exec_ofExcept _ _ |>.trans
    (congrArg (·, _) (checkPending_prefillRow x hpos hpending)))).trans ?_
  refine (Raising.exec_bind_ok (runParts_prefillRow x hfit hpos hpending)).trans ?_
  exact Raising.exec_bind_ok (Raising.exec_ofExcept _ _ |>.trans
    (congrArg (·, _) (lastContext_prefillRow x hseq hpos)))

end Chunk

/-- A reservation that succeeds keeps what waits in the state of its request, whose slot is
then on the rank. -/
theorem reserveMtpRequestState_ok {m m' : MtpRunner H} {r : RequestId} {rank : Nat}
    (h : (MtpRunner.reserveMtpRequestState r rank).exec m = (.ok (), m')) :
    ∃ state tail, m'.requestStates.lookup r = some state ∧
      state.prefillContext = ((m.requestStates.lookup r).getD {}).prefillContext ∧
      state.draftTokenId = ((m.requestStates.lookup r).getD {}).draftTokenId ∧
      state.tail = some tail ∧ tail.rank = rank := by
  have hlookup := Dict.lookup_setDefault_self m.requestStates r {}
  unfold MtpRunner.reserveMtpRequestState at h
  rw [Raising.exec_bind_ok (Raising.exec_modify _ _)] at h
  generalize (m.requestStates.lookup r).getD {} = state at hlookup
  unfold MtpRunner.reserveMtpStateSlot at h
  rw [Raising.exec_bind_ok (requireMtpRequestState_exec hlookup)] at h
  cases htail : state.tail with
  | some tail =>
    rw [htail] at h
    dsimp only at h
    split at h
    · cases h
    · next hrank =>
      cases h
      exact ⟨state, tail, hlookup, rfl, rfl, htail, not_not.mp hrank⟩
  | none =>
    rw [htail] at h
    dsimp only at h
    rw [Raising.exec_bind_ok (Raising.exec_get _)] at h
    cases hfree : m.freeTailSlots[rank]? with
    | none =>
      rw [hfree] at h
      cases h
    | some freeSlots =>
      rw [hfree] at h
      dsimp only at h
      cases hslot : freeSlots.getLast? with
      | none =>
        rw [hslot] at h
        cases h
      | some slot =>
        rw [hslot] at h
        cases h
        exact ⟨_, _, AList.lookup_insert _, rfl, rfl, rfl, rfl⟩

/-- A request keeps its slot. -/
theorem reserveMtpStateSlot_kept {m : MtpRunner H} {r : RequestId} {state : MtpRequestState H}
    {tail : TailSlot} (hstate : m.requestStates.lookup r = some state)
    (htail : state.tail = some tail) (requestId : String) :
    (MtpRunner.reserveMtpStateSlot r tail.rank requestId).exec m = (.ok (), m) := by
  unfold MtpRunner.reserveMtpStateSlot
  rw [Raising.exec_bind_ok (requireMtpRequestState_exec hstate), htail]
  dsimp only
  rw [if_neg (by simp)]
  rfl

theorem reserveMtpRequestState_kept {m : MtpRunner H} {r : RequestId} {state : MtpRequestState H}
    {tail : TailSlot} (hstate : m.requestStates.lookup r = some state)
    (htail : state.tail = some tail) :
    (MtpRunner.reserveMtpRequestState r tail.rank).exec m = (.ok (), m) := by
  have hsame : ({ m with requestStates := m.requestStates.setDefault r {} } : MtpRunner H) = m := by
    have hdict : Dict.setDefault m.requestStates r {} = m.requestStates := by
      rw [Dict.setDefault, hstate, Option.isSome_some, if_pos rfl]
    rw [hdict]
  unfold MtpRunner.reserveMtpRequestState
  rw [Raising.exec_bind_ok (Raising.exec_modify _ _), hsame]
  exact reserveMtpStateSlot_kept hstate htail r

/-- A prompt prefilled up to a position: the host, and the dispatches made for the prompt.
Between two chunks other requests may change all but the state of this one. -/
inductive Prefilled (x : MtpPrompt E H) (prefillSeq start : Nat) :
    Nat → MtpHost E H → List (MtpDispatch E H) → Prop
  | start {host : MtpHost E H}
      (hnew : ∀ state, host.runner.requestStates.lookup x.requestId = some state →
        state.prefillContext = none ∧ state.draftTokenId = none) :
      Prefilled x prefillSeq start start host []
  | other {stop : Nat} {host host' : MtpHost E H} {dispatches : List (MtpDispatch E H)}
      (hrun : Prefilled x prefillSeq start stop host dispatches)
      (hsame : host'.runner.requestStates.lookup x.requestId =
        host.runner.requestStates.lookup x.requestId) :
      Prefilled x prefillSeq start stop host' dispatches
  | chunk {stop : Nat} {host host' : MtpHost E H} {dispatches new : List (MtpDispatch E H)}
      (hrun : Prefilled x prefillSeq start stop host dispatches) (c : MtpPrompt.Chunk H)
      (hpos : 0 < c.length) (hfit : stop + c.length ≤ x.promptTokenIds.length)
      (hcapture : (capturePrefillRow prefillSeq (x.prefillRow prefillSeq stop c)).exec host =
        (.ok (), host'))
      (hnew : host'.dispatches = host.dispatches ++ new) :
      Prefilled x prefillSeq start (stop + c.length) host' (dispatches ++ new)

/-- What the state of the request holds between two chunks. -/
structure Waits (x : MtpPrompt E H) (start stop : Nat) (host : MtpHost E H) : Prop where
  fresh : start = stop → ∀ state, host.runner.requestStates.lookup x.requestId = some state →
    state.prefillContext = none ∧ state.draftTokenId = none
  held : start < stop → ∃ state tail blockTable,
    host.runner.requestStates.lookup x.requestId = some state ∧
      state.prefillContext = some (x.context stop blockTable) ∧ state.draftTokenId = none ∧
      state.tail = some tail ∧ tail.rank = x.rank

/-- The positions that were run: none twice, and all of the window but the last. -/
structure Covers (prefillSeq start stop : Nat) (ps : List Nat) : Prop where
  nodup : ps.Nodup
  before : ∀ p ∈ ps, start ≤ p ∧ p + 1 < stop
  window : ∀ p, start ≤ p → stop - prefillSeq ≤ p → p + 1 < stop → p ∈ ps

theorem mem_positions {W s n p : Nat} {b : Bool} : p ∈ MtpPrompt.positions W s b n ↔
    (b ∧ n < W ∧ p = s - 1) ∨ (s + n - min n W ≤ p ∧ p < s + n - min n W + (min n W - 1)) := by
  unfold MtpPrompt.positions
  rw [List.mem_append, List.mem_range'_1]
  split <;> simp <;> grind

theorem nodup_positions {W s n : Nat} {b : Bool} (hs : b → 0 < s) :
    (MtpPrompt.positions W s b n).Nodup := by
  unfold MtpPrompt.positions
  split
  next h =>
    rw [List.singleton_append, List.nodup_cons, List.mem_range'_1]
    have hpos := hs h.1
    exact ⟨by omega, List.nodup_range'⟩
  next => exact List.nodup_range'

theorem Covers.nil {start : Nat} : Covers prefillSeq start start [] where
  nodup := List.nodup_nil
  before := by simp
  window := by omega

/-- A chunk moves the window on: the rows it drops are behind it, and the one it holds back is
its last. -/
theorem Covers.chunk {start stop n : Nat} {ps : List Nat} (h : Covers prefillSeq start stop ps)
    (hle : start ≤ stop) (hn : 0 < n) :
    Covers prefillSeq start (stop + n)
      (ps ++ MtpPrompt.positions prefillSeq stop (start < stop) n) where
  nodup := by
    refine List.nodup_append'.mpr ⟨h.nodup, nodup_positions (by simp; omega), fun p hp hq => ?_⟩
    have hbefore := h.before p hp
    rcases mem_positions.mp hq with ⟨hheld, -, rfl⟩ | hq
    · have : start < stop := of_decide_eq_true hheld
      omega
    · omega
  before := by
    intro p hp
    rcases List.mem_append.mp hp with hp | hp
    · have hbefore := h.before p hp
      omega
    · rcases mem_positions.mp hp with ⟨hheld, -, rfl⟩ | hp
      · have : start < stop := of_decide_eq_true hheld
        omega
      · omega
  window := by
    intro p hstart hwindow hlt
    rw [List.mem_append, mem_positions]
    by_cases hnew : stop ≤ p + 1
    · right
      by_cases hheld : p + 1 = stop
      · exact .inl ⟨by simp; omega, by omega, by omega⟩
      · exact .inr ⟨by omega, by omega⟩
    · exact .inl (h.window p hstart (by omega) (by omega))

/-- A chunk whose reservation went through runs its positions. -/
theorem capture_reserved {start stop : Nat} {c : MtpPrompt.Chunk H} {runner : MtpRunner H}
    {state : MtpRequestState H} {tail : TailSlot} (hseq : 0 < prefillSeq) (hpos : 0 < c.length)
    (hfit : stop + c.length ≤ x.promptTokenIds.length)
    (hreserve : (MtpRunner.reserveMtpRequestState x.requestId x.rank).exec host.runner =
      (.ok (), runner))
    (hstate : runner.requestStates.lookup x.requestId = some state)
    (hpending : Pending x (start < stop) stop state) (hdraft : state.draftTokenId = none)
    (htail : state.tail = some tail) (hrank : tail.rank = x.rank) (hle : start ≤ stop) :
    ∃ host', (capturePrefillRow prefillSeq (x.prefillRow prefillSeq stop c)).exec host =
        (.ok (), host') ∧ Waits x start (stop + c.length) host' ∧
      host'.dispatches = host.dispatches ++
        if MtpPrompt.positions prefillSeq stop (start < stop) c.length = [] then []
        else [⟨x.rank, c.blockTable,
          (MtpPrompt.positions prefillSeq stop (start < stop) c.length).map x.row, false⟩] := by
  refine ⟨_, capturePrefillRow_exec x hseq hpos hfit hreserve hstate hpending, ?_, rfl⟩
  constructor
  · intro heq
    omega
  · intro _
    exact ⟨_, tail, c.blockTable, AList.lookup_insert _, rfl, hdraft, htail, hrank⟩

/-- A chunk of the prompt runs its positions, or its first reservation raises. -/
theorem Waits.capture {start stop : Nat} {c : MtpPrompt.Chunk H} (h : Waits x start stop host)
    (hseq : 0 < prefillSeq) (hle : start ≤ stop) (hpos : 0 < c.length)
    (hfit : stop + c.length ≤ x.promptTokenIds.length) :
    (∃ host', (capturePrefillRow prefillSeq (x.prefillRow prefillSeq stop c)).exec host =
        (.ok (), host') ∧ Waits x start (stop + c.length) host' ∧
      host'.dispatches = host.dispatches ++
        if MtpPrompt.positions prefillSeq stop (start < stop) c.length = [] then []
        else [⟨x.rank, c.blockTable,
          (MtpPrompt.positions prefillSeq stop (start < stop) c.length).map x.row, false⟩]) ∨
    start = stop ∧ ∃ e,
      ((MtpRunner.reserveMtpRequestState x.requestId x.rank).exec host.runner).1 = .error e ∧
      ((capturePrefillRow prefillSeq (x.prefillRow prefillSeq stop c)).exec host).1 =
        .error e := by
  rcases Nat.lt_or_ge start stop with hlt | hge
  · left
    obtain ⟨state, tail, blockTable, hstate, hcontext, hdraft, htail, hrank⟩ := h.held hlt
    have hreserve := reserveMtpRequestState_kept hstate htail
    rw [hrank] at hreserve
    have hpending : Pending x (start < stop) stop state := by
      unfold Pending
      rw [if_pos (decide_eq_true hlt)]
      exact ⟨by omega, blockTable, hcontext⟩
    exact capture_reserved x hseq hpos hfit hreserve hstate hpending hdraft htail hrank hle
  · have heq : start = stop := by omega
    rcases hreserve : (MtpRunner.reserveMtpRequestState x.requestId x.rank).exec host.runner with
      ⟨e | ⟨⟩, runner⟩
    · right
      have hne : (x.prefillRow prefillSeq stop c).inputIds ≠ [] := by
        rw [← List.length_pos_iff, prefillRow_length x hfit]
        exact hpos
      have hraise : (ofRunner (MtpRunner.reserveMtpRequestState x.requestId x.rank) :
          MtpHostM E H Unit).exec host = (.error e, { host with runner }) := by
        rw [ofRunner_exec, hreserve]
      refine ⟨heq, e, rfl, ?_⟩
      unfold capturePrefillRow
      rw [if_neg hne]
      exact congrArg Prod.fst (Raising.exec_bind_error hraise)
    · left
      obtain ⟨state, tail, hstate, hcontext, hdraft, htail, hrank⟩ :=
        reserveMtpRequestState_ok hreserve
      have hnew : ((host.runner.requestStates.lookup x.requestId).getD {}).prefillContext = none ∧
          ((host.runner.requestStates.lookup x.requestId).getD {}).draftTokenId = none := by
        cases hold : host.runner.requestStates.lookup x.requestId with
        | none => exact ⟨rfl, rfl⟩
        | some old => exact h.fresh heq old hold
      have hpending : Pending x (start < stop) stop state := by
        unfold Pending
        rw [if_neg (by simp; omega), hcontext]
        exact hnew.1
      exact capture_reserved x hseq hpos hfit hreserve hstate hpending (hdraft.trans hnew.2)
        htail hrank hle

/-- The dispatches of a prompt: the rows of its positions, in windows on its rank. -/
structure Ran (x : MtpPrompt E H) (prefillSeq : Nat) (dispatches : List (MtpDispatch E H))
    (ps : List Nat) : Prop where
  rows : dispatches.flatMap (·.rows) = ps.map x.row
  sized : ∀ d ∈ dispatches, 0 < d.rows.length ∧ d.rows.length ≤ prefillSeq ∧ d.rank = x.rank

theorem Ran.append {dispatches dispatches' : List (MtpDispatch E H)} {ps ps' : List Nat}
    (h : Ran x prefillSeq dispatches ps) (h' : Ran x prefillSeq dispatches' ps') :
    Ran x prefillSeq (dispatches ++ dispatches') (ps ++ ps') where
  rows := by rw [List.flatMap_append, h.rows, h'.rows, List.map_append]
  sized := by
    intro d hd
    exact (List.mem_append.mp hd).elim (h.sized d) (h'.sized d)

theorem Ran.single {ps : List Nat} {blockTable : List BlockId} {produceDraft : Bool}
    (hne : ps ≠ []) (hfit : ps.length ≤ prefillSeq) :
    Ran x prefillSeq [⟨x.rank, blockTable, ps.map x.row, produceDraft⟩] ps where
  rows := List.append_nil _
  sized := by
    intro d hd
    rw [List.mem_singleton.mp hd, List.length_map]
    exact ⟨List.length_pos_iff.mpr hne, hfit, rfl⟩

/-- Every run of chunks leaves the request waiting, with the window covered. -/
theorem prefilled_inv {start stop : Nat} {dispatches : List (MtpDispatch E H)}
    (hseq : 0 < prefillSeq) (h : Prefilled x prefillSeq start stop host dispatches) :
    start ≤ stop ∧ Waits x start stop host ∧
      ∃ ps, Covers prefillSeq start stop ps ∧ Ran x prefillSeq dispatches ps := by
  induction h with
  | start hnew =>
    exact ⟨le_rfl, ⟨fun _ => hnew, fun hlt => absurd hlt (lt_irrefl _)⟩, [], .nil,
      ⟨rfl, by simp⟩⟩
  | other _ hsame ih =>
    obtain ⟨hle, hwaits, hcovers⟩ := ih
    refine ⟨hle, ⟨fun heq => ?_, fun hlt => ?_⟩, hcovers⟩
    · rw [hsame]
      exact hwaits.fresh heq
    · rw [hsame]
      exact hwaits.held hlt
  | chunk _ c hpos hfit hcapture hnew ih =>
    obtain ⟨hle, hwaits, ps, hcovers, hran⟩ := ih
    rcases hwaits.capture x hseq hle hpos hfit with ⟨host', hok, hwaits', hdispatches⟩ |
      ⟨-, e, -, herror⟩
    · rw [hcapture] at hok
      cases hok
      have hsame := List.append_cancel_left (hnew.symm.trans hdispatches)
      refine ⟨by omega, hwaits', _, hcovers.chunk hle hpos, hran.append x ?_⟩
      rw [hsame]
      split
      next hnil =>
        rw [hnil]
        exact ⟨rfl, by simp⟩
      next hne => exact .single x hne (MtpPrompt.positions_length hpos)
    · rw [hcapture] at herror
      cases herror

theorem token_last : x.token x.promptTokenIds.length = x.firstTokenId := by
  simp [MtpPrompt.token]

/-- The last row runs with the sampled token, and nothing waits then. -/
theorem Waits.finalize {start : Nat} (hseq : 0 < prefillSeq)
    (h : Waits x start x.promptTokenIds.length host) (hlt : start < x.promptTokenIds.length)
    (draft : Int) :
    ∃ host' blockTable, (finalizePrefillRow prefillSeq x.requestId x.firstTokenId
        (x.embed x.firstTokenId) draft).exec host = (.ok (), host') ∧
      host'.dispatches = host.dispatches ++
        [⟨x.rank, blockTable, [x.promptTokenIds.length - 1].map x.row, true⟩] := by
  obtain ⟨state, tail, blockTable, hstate, hcontext, hdraft, htail, hrank⟩ := h.held hlt
  have hlast : x.promptTokenIds.length - 1 + 1 = x.promptTokenIds.length := by omega
  have hrows := @runMtpPrefillRows_exec _ _ x _ host _ (List.cons_ne_nil _ [])
    (show [x.promptTokenIds.length - 1].length ≤ prefillSeq from hseq) blockTable true draft
  simp only [List.map_cons, List.map_nil, hlast, token_last] at hrows
  have hrequire : (ofRunner (MtpRunner.requireMtpRequestState x.requestId) :
      MtpHostM E H _).exec host = (.ok state, host) := by
    rw [ofRunner_exec, requireMtpRequestState_exec hstate]
  have hslot (m : MtpHost E H) (state' : MtpRequestState H) (hm : m.runner.requestStates.lookup
      x.requestId = some state') (htail' : state'.tail = some tail) :
      (ofRunner (MtpRunner.reserveMtpStateSlot x.requestId x.rank "<prefill>") :
        MtpHostM E H Unit).exec m = (.ok (), m) := by
    rw [ofRunner_exec, ← hrank, reserveMtpStateSlot_kept hm htail' "<prefill>"]
  have hrequire' (m : MtpHost E H) (state' : MtpRequestState H) (hm : m.runner.requestStates.lookup
      x.requestId = some state') : (ofRunner (MtpRunner.requireMtpRequestState x.requestId) :
      MtpHostM E H _).exec m = (.ok state', m) := by
    rw [ofRunner_exec, requireMtpRequestState_exec hm]
  unfold finalizePrefillRow
  rw [Raising.exec_bind_ok hrequire, if_pos hdraft]
  unfold initializeMtpDraft
  rw [Raising.exec_bind_ok hrequire, hcontext]
  dsimp only [MtpPrompt.context]
  rw [Raising.exec_bind_ok hrows, if_pos trivial]
  dsimp only
  unfold setState
  rw [Raising.exec_bind_ok (Raising.exec_modify _ _)]
  let drafted : MtpRequestState H := { state with
    prefillContext := some (x.context x.promptTokenIds.length blockTable)
    draftTokenId := some draft }
  rw [Raising.exec_bind_ok (hslot _ drafted ?_ htail),
    Raising.exec_bind_ok (hrequire' _ drafted ?_)]
  · exact ⟨_, blockTable, Raising.exec_modify _ _, rfl⟩
  · exact AList.lookup_insert _
  · exact AList.lookup_insert _

/-- Over any chunks of a prompt the draft layer never raises once the slot is reserved, and runs
in windows on the rows of the prompt, none twice, among them all of the last window. -/
theorem mtp_prompt_rows {start stop : Nat} {dispatches : List (MtpDispatch E H)}
    (hseq : 0 < prefillSeq) (hstart : start < x.promptTokenIds.length)
    (h : Prefilled x prefillSeq start stop host dispatches) :
    (∀ c : MtpPrompt.Chunk H, 0 < c.length → stop + c.length ≤ x.promptTokenIds.length →
      (∃ host', (capturePrefillRow prefillSeq (x.prefillRow prefillSeq stop c)).exec host =
        (.ok (), host')) ∨
      start = stop ∧ ∃ e,
        ((MtpRunner.reserveMtpRequestState x.requestId x.rank).exec host.runner).1 = .error e ∧
        ((capturePrefillRow prefillSeq (x.prefillRow prefillSeq stop c)).exec host).1 =
          .error e) ∧
    (stop = x.promptTokenIds.length → ∀ draft, ∃ host' new, ∃ ps : List Nat,
      (finalizePrefillRow prefillSeq x.requestId x.firstTokenId (x.embed x.firstTokenId)
        draft).exec host = (.ok (), host') ∧
      host'.dispatches = host.dispatches ++ new ∧
      (dispatches ++ new).flatMap (·.rows) = ps.map x.row ∧ ps.Nodup ∧
      (∀ p ∈ ps, start ≤ p ∧ p < x.promptTokenIds.length) ∧
      (∀ p, x.promptTokenIds.length - min (x.promptTokenIds.length - start) prefillSeq ≤ p →
        p < x.promptTokenIds.length → p ∈ ps) ∧
      ∀ d ∈ dispatches ++ new, 0 < d.rows.length ∧ d.rows.length ≤ prefillSeq ∧
        d.rank = x.rank) := by
  obtain ⟨hle, hwaits, ps, hcovers, hran⟩ := prefilled_inv x hseq h
  constructor
  · intro c hpos hfit
    exact (hwaits.capture x hseq hle hpos hfit).imp_left fun ⟨host', hok, _⟩ => ⟨host', hok⟩
  · rintro rfl draft
    obtain ⟨host', blockTable, hok, hnew⟩ := hwaits.finalize x hseq hstart draft
    have hlastRow := @Ran.single _ _ x _ _ blockTable true
      (List.cons_ne_nil (x.promptTokenIds.length - 1) [])
      (show [x.promptTokenIds.length - 1].length ≤ prefillSeq from hseq)
    have hall := hran.append x hlastRow
    refine ⟨host', _, _, hok, hnew, hall.rows, ?_, ?_, ?_, hall.sized⟩
    · refine List.nodup_append'.mpr ⟨hcovers.nodup, List.nodup_singleton _, fun p hp hq => ?_⟩
      have hbefore := hcovers.before p hp
      rw [List.mem_singleton] at hq
      omega
    · intro p hp
      rcases List.mem_append.mp hp with hp | hp
      · have hbefore := hcovers.before p hp
        omega
      · rw [List.mem_singleton] at hp
        omega
    · intro p hwindow hlt
      rw [List.mem_append, List.mem_singleton]
      by_cases hlast : p + 1 = x.promptTokenIds.length
      · exact .inr (by omega)
      · exact .inl (hcovers.window p (by omega) (by omega) (by omega))

/-- Three tokens in chunks of one and two, in a window of two. -/
theorem mtp_prompt_rows_three : ∃ (host host' : MtpHost Int Nat) (dispatches new : List _)
    (ps : List Nat), Prefilled ⟨"r", 0, [5, 6, 7], 8, id, id, Int.ofNat⟩ 2 0 3 host dispatches ∧
      (finalizePrefillRow 2 "r" 8 8 9).exec host = (.ok (), host') ∧
      host'.dispatches = host.dispatches ++ new ∧ ps.Nodup ∧ (1 ∈ ps ∧ 2 ∈ ps) ∧
      ∀ d ∈ dispatches ++ new, d.rows.length ≤ 2 := by
  let x : MtpPrompt Int Nat := ⟨"r", 0, [5, 6, 7], 8, id, id, Int.ofNat⟩
  let host₀ : MtpHost Int Nat := { runner := { freeTailSlots := [[0]], slotGenerations := [[0]] } }
  let host₁ := ((capturePrefillRow 2 (x.prefillRow 2 0 ⟨1, [], []⟩)).exec host₀).2
  let host₂ := ((capturePrefillRow 2 (x.prefillRow 2 1 ⟨2, [], []⟩)).exec host₁).2
  have h₀ : Prefilled x 2 0 0 host₀ [] := .start (by simp [host₀])
  have h₁ : Prefilled x 2 0 1 host₁ [] :=
    .chunk h₀ ⟨1, [], []⟩ (by decide) (by decide) (Prod.ext (by decide +kernel) rfl)
      (by rw [List.append_nil]; rfl)
  have h₂ : Prefilled x 2 0 3 host₂ [⟨0, [], [x.row 1], false⟩] :=
    .chunk h₁ ⟨2, [], []⟩ (by decide) (by decide) (Prod.ext (by decide +kernel) rfl) rfl
  obtain ⟨-, hlast⟩ := mtp_prompt_rows x (by decide) (by decide) h₂
  obtain ⟨host', new, ps, hok, hnew, -, hnodup, -, hwindow, hsized⟩ := hlast rfl 9
  exact ⟨host₂, host', _, new, ps, h₂, hok, hnew, hnodup,
    ⟨hwindow 1 (by decide) (by decide), hwindow 2 (by decide) (by decide)⟩,
    fun d hd => (hsized d hd).2.1⟩

end MtpHost
end PyptoServing.Runner
