import PyptoServing.Engine.Delivery

/-!
# Stop strings

Where the tokens of a request should end it, and what happens there. The finish check counts
one token at a time, the stop check sees the text behind a whole step and looks at its end
only.
-/
namespace PyptoServing.Engine

open Lib Memory Sched

/-- The text contains a stop string. The empty string is none. -/
def HasStop (stops : List String) (text : String) : Prop :=
  ∃ stop ∈ stops, stop ≠ "" ∧ stop.toList <:+: text.toList

instance (stops : List String) (text : String) : Decidable (HasStop stops text) :=
  inferInstanceAs (Decidable (∃ stop ∈ stops, _))

theorem Detected.hasStop {stops : List String} {text : String} (h : Detected stops text) :
    HasStop stops text := by
  obtain ⟨⟨stop, hmem, hne, hsuffix⟩, -⟩ := h
  exact ⟨stop, hmem, hne, hsuffix.isInfix⟩

namespace Delivery
variable {decode : List Int → String} {request : Request} {d : Delivery}

/-- The tokens should end the request. -/
def Due (decode : List Int → String) (request : Request) (ids : List Int) : Prop :=
  HasStop request.stopStrings (decode ids) ∨ (endOf request ids).isSome = true

/-- The first `k` tokens should end the request, and no fewer. -/
structure IsCut (decode : List Int → String) (request : Request) (tokens : List Int) (k : Nat) :
    Prop where
  pos : 0 < k
  le : k ≤ tokens.length
  due : Due decode request (tokens.take k)
  first : ∀ j, 0 < j → j < k → ¬ Due decode request (tokens.take j)

instance (decode : List Int → String) (request : Request) (ids : List Int) :
    Decidable (Due decode request ids) :=
  inferInstanceAs (Decidable (_ ∨ _))

instance (decode : List Int → String) (request : Request) (tokens : List Int) (k : Nat) :
    Decidable (IsCut decode request tokens k) :=
  decidable_of_iff (0 < k ∧ k ≤ tokens.length ∧ Due decode request (tokens.take k) ∧
      ∀ j < k, 0 < j → ¬ Due decode request (tokens.take j))
    ⟨fun ⟨hpos, hle, hdue, hfirst⟩ => ⟨hpos, hle, hdue, fun j hj hlt => hfirst j hlt hj⟩,
      fun h => ⟨h.pos, h.le, h.due, fun j hlt hj => h.first j hj hlt⟩⟩

/-- The request has ended with these tokens. Where EOS or the length limit falls on the
token that completes a stop string, either may be the reason. -/
structure EndsAt (decode : List Int → String) (request : Request) (ids : List Int)
    (d : Delivery) : Prop where
  kept : d.request.outputTokenIds = ids
  emitted : (d.emitted.filterMap (·.tokenId)).Sublist ids
  finals : d.finals = 1
  status : endOf request ids = some d.request.status ∨
    (HasStop request.stopStrings (decode ids) ∧ d.request.status = .finishedStop)

/-- A request that has all of the tokens and is still running. -/
structure Runs (tokens : List Int) (d : Delivery) : Prop where
  kept : d.request.outputTokenIds = tokens
  emitted : (d.emitted.filterMap (·.tokenId)).Sublist tokens
  finals : d.finals = 0
  status : d.request.status = .running

/-- The request ends where it should, with one final output. -/
structure Honoured (decode : List Int → String) (request : Request) (tokens : List Int)
    (d : Delivery) : Prop where
  ends : ∀ k, IsCut decode request tokens k → EndsAt decode request (tokens.take k) d
  runs : (∀ k, ¬ IsCut decode request tokens k) → Runs tokens d

/-- The step with the `k`-th token, and the place of the token in it. -/
def stepAt : List (List Int) → Nat → List Int × Nat
  | [], k => ([], k)
  | step :: steps, k => if k ≤ step.length then (step, k) else stepAt steps (k - step.length)

/-- A step in which the request should end with its `i`-th token does so. Where a stop string
ends it, the token is the only one of its step and the text ends in the stop string and not
inside a character; where EOS or the length limit ends it, the check for stop strings sees
nothing unless the token is the first of its step. -/
def Meets (decode : List Int → String) (request : Request) (ids : List Int) (step : List Int × Nat) :
    Prop :=
  if endOf request ids = none then
    step.1.length = 1 ∧ Detected request.stopStrings (decode ids)
  else Detected request.stopStrings (decode ids) → step.2 = 1

instance (decode : List Int → String) (request : Request) (ids : List Int)
    (step : List Int × Nat) : Decidable (Meets decode request ids step) := by
  unfold Meets
  infer_instance

/-- The tokens that should end the request arrive in a step that does. -/
def StopsAlone (decode : List Int → String) (request : Request) (steps : List (List Int)) : Prop :=
  ∀ k, IsCut decode request steps.flatten k →
    Meets decode request (steps.flatten.take k) (stepAt steps k)

/-- A request that is still to end: it has every token so far. -/
structure Open (decode : List Int → String) (request : Request) (tokens : List Int)
    (d : Delivery) : Prop where
  base : d.request = { request with outputTokenIds := tokens, status := .running }
  tidy : d.Tidy decode
  finals : d.finals = 0
  emitted : (d.emitted.filterMap (·.tokenId)).Sublist tokens
  due : ∀ j, 0 < j → j ≤ tokens.length → ¬ Due decode request (tokens.take j)

/-- A request that went past its `k`-th token, or published it twice. -/
structure Spoiled (k : Nat) (d : Delivery) : Prop where
  le : k ≤ d.request.outputTokenIds.length
  past : d.request.status.isFinished = false ∨ k < d.request.outputTokenIds.length ∨ 2 ≤ d.finals

theorem receive_finished {tokens : List Int} (h : d.request.status.isFinished = true) :
    d.receive decode tokens = d := by
  rw [receive, if_pos h]

/-- Nothing repairs a request that went too far. -/
theorem Spoiled.receive {k : Nat} {tokens : List Int} (h : Spoiled k d) (hne : tokens ≠ []) :
    Spoiled k (d.receive decode tokens) := by
  cases hfin : d.request.status.isFinished with
  | true => rwa [receive_finished hfin]
  | false =>
    obtain ⟨kept, hk, -, hu⟩ := update_spec d.request hne
    have hdel := delivered_all decode (update d.request tokens).2
      { d with request := (update d.request tokens).1 }
    have hlen : (d.receive decode tokens).request.outputTokenIds.length =
        d.request.outputTokenIds.length + kept := by
      rw [Delivery.receive, if_neg (by simp [hfin]), hdel.request, hu.after]
      simp [hk.le]
    have hpos := hk.pos hne
    have hle := h.le
    exact ⟨by omega, .inr (.inl (by omega))⟩

theorem EndsAt.finished {ids : List Int} (h : EndsAt decode request ids d) :
    d.request.status.isFinished = true := by
  rcases h.status with hs | ⟨-, hs⟩
  · exact Scheduler.checkFinish_finished hs
  · rw [hs]
    rfl

theorem Spoiled.not_endsAt {ids : List Int} (h : Spoiled ids.length d) :
    ¬ EndsAt decode request ids d := by
  intro he
  have hlen := congrArg List.length he.kept
  have hone := he.finals
  rcases h.past with hp | hp | hp
  · rw [he.finished] at hp
    cases hp
  · omega
  · omega

/-- What one result does to an open request. -/
theorem Open.receive {tokens step : List Int} (h : Open decode request tokens d)
    (hd : Renders decode) (hne : step ≠ []) :
    ∃ kept, Keeps d.request step kept ∧
      Received decode d (tokens ++ step.take kept) kept (d.receive decode step) := by
  have hout : d.request.outputTokenIds = tokens := by rw [h.base]
  obtain ⟨kept, hk, hr⟩ := receive_spec h.tidy hd hne
  rw [hout] at hr
  exact ⟨kept, hk, hr⟩

theorem Open.endOf {tokens : List Int} (h : Open decode request tokens d) (ids : List Int) :
    endOf d.request ids = endOf request ids := by
  rw [h.base]
  rfl

theorem Open.emitted_receive {tokens step : List Int} {kept : Nat} {d' : Delivery}
    (h : Open decode request tokens d) (hr : Received decode d (tokens ++ step.take kept) kept d') :
    (d'.emitted.filterMap (·.tokenId)).Sublist (tokens ++ step.take kept) := by
  have hout : d.request.outputTokenIds = tokens := by rw [h.base]
  have ht := hr.tokens
  rw [hout, List.drop_left] at ht
  exact ht.trans (h.emitted.append_right _)

/-- A step behind which nothing is due leaves the request open. -/
theorem Open.quiet {tokens step : List Int} (h : Open decode request tokens d)
    (hd : Renders decode) (hne : step ≠ [])
    (hdue : ∀ j, 0 < j → j ≤ step.length → ¬ Due decode request (tokens ++ step.take j)) :
    Open decode request (tokens ++ step) (d.receive decode step) := by
  have hout : d.request.outputTokenIds = tokens := by rw [h.base]
  have hstop : d.request.stopStrings = request.stopStrings := by rw [h.base]
  obtain ⟨kept, hk, hr⟩ := h.receive hd hne
  have hpos := hk.pos hne
  have hnone : ∀ j, 0 < j → j ≤ step.length → Delivery.endOf d.request (tokens ++ step.take j) = none := by
    intro j hj hle
    rw [h.endOf]
    exact Option.not_isSome_iff_eq_none.mp fun hs => hdue j hj hle (.inr hs)
  have hall : kept = step.length := by
    rcases Nat.lt_or_ge kept step.length with hlt | hge
    · have hs := hk.ended hlt
      rw [hout, hnone kept hpos hlt.le] at hs
      cases hs
    · exact Nat.le_antisymm hk.le hge
  have hquiet : ¬ Detected d.request.stopStrings (decode (tokens ++ step.take kept)) := by
    intro hdet
    rw [hstop] at hdet
    exact hdue kept hpos hk.le (.inl hdet.hasStop)
  obtain ⟨hfinals, htidy⟩ := hr.quiet hquiet (hnone kept hpos hk.le)
  have hem := h.emitted_receive hr
  have hreq := hr.request
  rw [hall, List.take_length] at hem hreq
  refine ⟨?_, htidy, hfinals.trans h.finals, hem, fun j hj hle => ?_⟩
  · rw [hreq, htidy.running, h.base]
  · rcases Nat.lt_or_ge tokens.length j with hlt | hge
    · obtain ⟨i, rfl⟩ := Nat.exists_eq_add_of_lt hlt
      rw [List.length_append] at hle
      rw [Nat.add_assoc, List.take_length_add_append]
      exact hdue (i + 1) (by omega) (by omega)
    · rw [List.take_append_of_le_length hge]
      exact h.due j hj hge

/-- The step in which the request should end. -/
theorem Open.cut {tokens step : List Int} {i : Nat} (h : Open decode request tokens d)
    (hd : Renders decode) (hi : 0 < i) (hile : i ≤ step.length)
    (hdue : Due decode request (tokens ++ step.take i))
    (hfirst : ∀ j, 0 < j → j < i → ¬ Due decode request (tokens ++ step.take j)) :
    (Meets decode request (tokens ++ step.take i) (step, i) ∧
      EndsAt decode request (tokens ++ step.take i) (d.receive decode step)) ∨
    (¬ Meets decode request (tokens ++ step.take i) (step, i) ∧
      Spoiled (tokens.length + i) (d.receive decode step)) := by
  have hout : d.request.outputTokenIds = tokens := by rw [h.base]
  have hstop : d.request.stopStrings = request.stopStrings := by rw [h.base]
  have hne : step ≠ [] := List.ne_nil_of_length_pos (by omega)
  obtain ⟨kept, hk, hr⟩ := h.receive hd hne
  have hpos := hk.pos hne
  have hem := h.emitted_receive hr
  have hle : i ≤ kept := by
    by_contra hlt
    have hs := hk.ended (by omega)
    rw [hout, h.endOf] at hs
    exact hfirst kept hpos (by omega) (.inr hs)
  have hlen : (d.receive decode step).request.outputTokenIds.length = tokens.length + kept := by
    rw [hr.request]
    simp [hk.le]
  unfold Meets
  cases hend : Delivery.endOf request (tokens ++ step.take i) with
  | none =>
    rw [if_pos rfl]
    have hhas : HasStop request.stopStrings (decode (tokens ++ step.take i)) := by
      rcases hdue with hs | hs
      · exact hs
      · rw [hend] at hs
        cases hs
    rcases Nat.lt_or_ge i kept with hlt | hge
    · right
      refine ⟨fun hm => ?_, ⟨by omega, .inr (.inl (by omega))⟩⟩
      have := hk.le
      have := hm.1
      dsimp only at this
      omega
    · obtain rfl : i = kept := Nat.le_antisymm hle hge
      have hlast : i = step.length := by
        by_contra hlt
        have hs := hk.ended (by omega)
        rw [hout, h.endOf, hend] at hs
        cases hs
      by_cases hdet : Detected request.stopStrings (decode (tokens ++ step.take i))
      · obtain ⟨hfinals, hstatus⟩ := hr.hot (by rwa [hstop])
        rw [h.finals] at hfinals
        rw [h.endOf, hend, Option.getD_none, ite_self] at hstatus
        by_cases hone : i = 1
        · left
          exact ⟨⟨by dsimp only; omega, hdet⟩, by rw [hr.request], hem, by omega,
            .inr ⟨hhas, hstatus⟩⟩
        · right
          exact ⟨fun hm => hone (hlast.trans hm.1), by omega, .inr (.inr (by omega))⟩
      · right
        obtain ⟨-, htidy⟩ := hr.quiet (by rwa [hstop]) (by rwa [h.endOf])
        refine ⟨fun hm => hdet hm.2, by omega, .inl ?_⟩
        rw [htidy.running]
        rfl
  | some status =>
    rw [if_neg (by simp)]
    have hkept : i = kept := by
      by_contra hlt
      have hs := hk.early i hi (by omega)
      rw [hout, h.endOf, hend] at hs
      cases hs
    subst hkept
    by_cases hdet : Detected request.stopStrings (decode (tokens ++ step.take i))
    · obtain ⟨hfinals, hstatus⟩ := hr.hot (by rwa [hstop])
      rw [h.finals] at hfinals
      rw [h.endOf, hend, Option.getD_some] at hstatus
      by_cases hone : i = 1
      · left
        rw [if_pos hone] at hstatus
        exact ⟨fun _ => hone, by rw [hr.request], hem, by omega, .inl (by rw [hend, hstatus])⟩
      · right
        exact ⟨fun hm => hone (hm hdet), by omega, .inr (.inr (by omega))⟩
    · left
      obtain ⟨hfinals, hstatus⟩ := hr.ended status (by rwa [hstop]) (by rw [h.endOf, hend])
      rw [h.finals] at hfinals
      exact ⟨fun hm => absurd hm hdet, by rw [hr.request], hem, by omega,
        .inl (by rw [hend, hstatus])⟩

theorem IsCut.unique {tokens : List Int} {j k : Nat} (h : IsCut decode request tokens j)
    (h' : IsCut decode request tokens k) : j = k := by
  rcases Nat.lt_trichotomy j k with hlt | heq | hlt
  · exact absurd h.due (h'.first j h.pos hlt)
  · exact heq
  · exact absurd h'.due (h.first k h'.pos hlt)

/-- Nothing is due within the tokens of an open request. -/
theorem Open.lt_cut {tokens more : List Int} {k : Nat} (h : Open decode request tokens d)
    (hk : IsCut decode request (tokens ++ more) k) : tokens.length < k := by
  by_contra hle
  have hdue := hk.due
  rw [List.take_append_of_le_length (by omega)] at hdue
  exact h.due k hk.pos (by omega) hdue

/-- The first due token of a step is the cut of the whole generation. -/
theorem Open.isCut {tokens step : List Int} {i : Nat} (h : Open decode request tokens d)
    (more : List Int) (hi : 0 < i) (hile : i ≤ step.length) (hdue : Due decode request (tokens ++ step.take i))
    (hfirst : ∀ j, 0 < j → j < i → ¬ Due decode request (tokens ++ step.take j)) :
    IsCut decode request (tokens ++ (step ++ more)) (tokens.length + i) ∧
      (tokens ++ (step ++ more)).take (tokens.length + i) = tokens ++ step.take i := by
  have htake : ∀ j, j ≤ step.length →
      (tokens ++ (step ++ more)).take (tokens.length + j) = tokens ++ step.take j := by
    intro j hj
    rw [List.take_length_add_append, List.take_append_of_le_length hj]
  refine ⟨⟨by omega, by simp; omega, by rwa [htake i hile], fun j hj hlt => ?_⟩, htake i hile⟩
  rcases Nat.lt_or_ge tokens.length j with hgt | hge
  · obtain ⟨n, rfl⟩ := Nat.exists_eq_add_of_lt hgt
    rw [Nat.add_assoc, htake (n + 1) (by omega)]
    exact hfirst (n + 1) (by omega) (by omega)
  · rw [List.take_append_of_le_length hge]
    exact h.due j hj hge

theorem foldl_receive_finished (steps : List (List Int)) (h : d.request.status.isFinished = true) :
    steps.foldl (receive decode) d = d := by
  induction steps with
  | nil => rfl
  | cons step steps ih => rw [List.foldl_cons, receive_finished h, ih]

theorem Spoiled.foldl {k : Nat} {steps : List (List Int)} (h : Spoiled k d)
    (hne : ∀ step ∈ steps, step ≠ []) : Spoiled k (steps.foldl (Delivery.receive decode) d) := by
  induction steps generalizing d with
  | nil => exact h
  | cons step steps ih =>
    exact ih (h.receive (hne step (by simp))) fun x hx => hne x (by simp [hx])

/-- The rest of a generation of an open request. -/
theorem Open.honoured_iff (hd : Renders decode) {tokens : List Int} {steps : List (List Int)}
    (h : Open decode request tokens d) (hne : ∀ step ∈ steps, step ≠ []) :
    Honoured decode request (tokens ++ steps.flatten) (steps.foldl (Delivery.receive decode) d) ↔
      ∀ k, IsCut decode request (tokens ++ steps.flatten) k →
        Meets decode request ((tokens ++ steps.flatten).take k)
          (stepAt steps (k - tokens.length)) := by
  induction steps generalizing tokens d with
  | nil =>
    have hnone : ∀ k, ¬ IsCut decode request (tokens ++ [].flatten) k := by
      intro k hk
      have := h.lt_cut hk
      have := hk.le
      simp at this
      omega
    refine ⟨fun _ k hk => absurd hk (hnone k), fun _ => ⟨fun k hk => absurd hk (hnone k), fun _ => ?_⟩⟩
    rw [List.flatten_nil, List.append_nil]
    exact ⟨by rw [List.foldl_nil, h.base], h.emitted, h.finals, h.tidy.running⟩
  | cons step steps ih =>
    have hstep : step ≠ [] := hne step (by simp)
    have hrest : ∀ x ∈ steps, x ≠ [] := fun x hx => hne x (by simp [hx])
    rw [List.flatten_cons, List.foldl_cons]
    by_cases hex : ∃ i, 0 < i ∧ i ≤ step.length ∧ Due decode request (tokens ++ step.take i)
    · -- the first token of the step that is due decides
      classical
      obtain ⟨hi, hile, hdue⟩ := Nat.find_spec hex
      have hfirst : ∀ j, 0 < j → j < Nat.find hex → ¬ Due decode request (tokens ++ step.take j) :=
        fun j hj hlt hd' => Nat.find_min hex hlt ⟨hj, by omega, hd'⟩
      generalize Nat.find hex = i at hi hile hdue hfirst
      obtain ⟨hcut, htake⟩ := h.isCut steps.flatten hi hile hdue hfirst
      have hat : stepAt (step :: steps) (tokens.length + i - tokens.length) = (step, i) := by
        rw [Nat.add_sub_cancel_left, stepAt, if_pos hile]
      rcases h.cut hd hi hile hdue hfirst with ⟨hm, he⟩ | ⟨hm, hs⟩
      · rw [foldl_receive_finished _ he.finished]
        refine ⟨fun _ k hk => ?_, fun _ => ⟨fun k hk => ?_, fun hno => absurd hcut (hno _)⟩⟩
        · rw [hk.unique hcut, htake, hat]
          exact hm
        · rw [hk.unique hcut, htake]
          exact he
      · refine ⟨fun hh => ?_, fun hall => ?_⟩
        · have he := hh.ends _ hcut
          rw [htake] at he
          refine absurd he (Spoiled.not_endsAt ?_)
          rw [List.length_append, List.length_take, Nat.min_eq_left hile]
          exact hs.foldl hrest
        · have := hall _ hcut
          rw [htake, hat] at this
          exact absurd this hm
    · have hquiet := h.quiet hd hstep fun j hj hle hdue => hex ⟨j, hj, hle, hdue⟩
      have hih := ih hquiet hrest
      rw [List.append_assoc] at hih
      rw [hih]
      refine forall_congr' fun k => imp_congr_right fun hk => ?_
      have hlt := hquiet.lt_cut (List.append_assoc .. ▸ hk)
      rw [List.length_append] at hlt
      rw [stepAt, if_neg (by omega), List.length_append, Nat.sub_add_eq]

/-- The first tokens are still to come. -/
theorem start_open (hd : Renders decode) (request : Request) (stream : Bool) :
    Open decode request [] (start request stream) := by
  refine ⟨rfl, ⟨rfl, ⟨Nat.zero_le _, rfl, ?_, ?_⟩, ?_⟩, rfl, List.Sublist.refl _, fun j hj hle => ?_⟩
  · exact hd.nil.symm
  · simp [Complete, start]
  · rintro ⟨stop, -, hne, hsuffix⟩
    exact hne (String.toList_inj.mp (List.suffix_nil.mp hsuffix))
  · simp at hle
    omega

/-- Stop strings are honoured exactly where the token that completes one is alone in its step
and ends the text. -/
theorem stop_strings_honoured_iff (hd : Renders decode) (request : Request) (stream : Bool)
    {steps : List (List Int)} (hne : ∀ step ∈ steps, step ≠ []) :
    Honoured decode request steps.flatten
        (steps.foldl (Delivery.receive decode) (start request stream)) ↔
      StopsAlone decode request steps :=
  (start_open hd request stream).honoured_iff hd hne

/-- A tokenizer with one character for each token. -/
def charDecode (ids : List Int) : String := String.ofList (ids.map fun id => Char.ofNat id.toNat)

theorem charDecode_renders : Renders charDecode where
  nil := rfl
  window := by
    intro ids n hn _
    simp only [charDecode, String.toList_ofList, String.length_ofList, List.length_map,
      List.length_drop, List.length_take, Nat.min_eq_left hn, ← List.map_drop, ← List.map_append,
      List.drop_drop]
    rw [Nat.add_sub_cancel' (Nat.sub_le n 3), List.take_append_drop]

/-- A greedy request with the stop string `ab`. -/
def stopRequest : Request where
  requestId := "r0"
  promptTokenIds := [1]
  maxNewTokens := 8
  arrivalTime := 0
  stopStrings := ["ab"]

theorem stop_strings_honoured_iff_single : Honoured charDecode stopRequest [97, 98]
    ([[97], [98]].foldl (Delivery.receive charDecode) (start stopRequest true)) := by
  have hne : ∀ step ∈ [[97], [98]], step ≠ ([] : List Int) := by decide
  refine (stop_strings_honoured_iff charDecode_renders stopRequest true hne).mpr ?_
  intro k hk
  have hpos := hk.pos
  have hle : k ≤ 2 := hk.le
  obtain rfl | rfl : k = 1 ∨ k = 2 := by omega
  · exact absurd hk (by decide +kernel)
  · decide +kernel

/-- Three tokens in one step run past the stop string; two are both published as final. -/
theorem stop_strings_missed :
    ¬ Honoured charDecode stopRequest [97, 98, 99]
        ([[97, 98, 99]].foldl (Delivery.receive charDecode) (start stopRequest true)) ∧
      ¬ Honoured charDecode stopRequest [97, 98]
        ([[97, 98]].foldl (Delivery.receive charDecode) (start stopRequest true)) := by
  constructor
  · intro h
    have he := h.ends 2 (by decide +kernel)
    exact absurd he.kept (by decide +kernel)
  · intro h
    have he := h.ends 2 (by decide +kernel)
    exact absurd he.finals (by decide +kernel)

end Delivery
end PyptoServing.Engine
