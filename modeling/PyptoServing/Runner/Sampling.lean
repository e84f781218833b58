import PyptoServing.Lib.Dict
import PyptoServing.Runner.Sampler

/-!
# The draws of one request

The calls that reach the sampler, in order. Seen from one request, its generator is a
session: a draw uses it, a release drops it.
-/
namespace PyptoServing.Runner

open Lib Memory Sched

variable {F : Type*}

/-- What a token is sampled from. -/
inductive Source (F : Type*)
  | logits (row : Row F)
  | candidates (candidates : SamplingCandidates F) (rowIdx : Nat)
  deriving DecidableEq

namespace Source
variable (ops : TensorOps F) (params : SamplingParams)

/-- The probabilities that a token is drawn from, with their device. -/
def draw : Source F → Option (String × List F)
  | logits row =>
    if params.temperature ≤ 0 then none
    else
      (ops.distribution params (ops.scaledLogits params (ops.sanitize row.values))).map fun probs =>
        (row.device, probs)
  | candidates c rowIdx =>
    match c.row ops rowIdx params with
    | .error _ => none
    | .ok (values, _) =>
      if params.temperature ≤ 0 then none
      else
        (ops.distribution params (ops.scale values params.temperature)).map fun probs =>
          (c.device, probs)

/-- The token at the drawn position, or the most likely one. -/
def token (position : Option Nat) : Source F → Except String Int
  | logits row => .ok (position.getD (ops.argmax (ops.sanitize row.values)) : Nat)
  | candidates c rowIdx =>
    match c.row ops rowIdx params with
    | .error error => .error error
    | .ok (values, tokenIds) => Sampler.tokenAt tokenIds (position.getD (ops.argmax values))

end Source

/-- A call of the worker. -/
inductive Call (F : Type*)
  | sample (r : RequestId) (params : SamplingParams) (source : Source F)
  | release (requestIds : List RequestId)
  deriving DecidableEq

namespace Sampler
variable (ops : TensorOps F)

/-- `sample` or `sample_from_candidates`. -/
def sampleFrom (s : Sampler F) (source : Source F) (params : SamplingParams) (r : RequestId) :
    Except String Int × Sampler F :=
  match source with
  | .logits row => (.ok (s.sample ops row params (some r)).1, (s.sample ops row params (some r)).2)
  | .candidates c rowIdx => s.sampleFromCandidates ops c rowIdx params (some r)

def perform (s : Sampler F) : Call F → Sampler F
  | .sample r params source => (s.sampleFrom ops source params r).2
  | .release requestIds => s.releaseRequests requestIds

def run (s : Sampler F) (calls : List (Call F)) : Sampler F := calls.foldl (perform ops) s

/-- The token that a call returns for a request. -/
def returned (s : Sampler F) (r : RequestId) : Call F → List Int
  | .sample r' params source =>
    if r' = r then (s.sampleFrom ops source params r).1.toOption.toList else []
  | .release _ => []

/-- The tokens sampled for a request. -/
def tokens (s : Sampler F) (r : RequestId) : List (Call F) → List Int
  | [] => []
  | call :: calls => s.returned ops r call ++ (s.perform ops call).tokens r calls

/-- A draw goes to the request's generator; otherwise the sampler is left alone. -/
theorem sampleFrom_eq (s : Sampler F) (source : Source F) (params : SamplingParams)
    (r : RequestId) : s.sampleFrom ops source params r =
      match source.draw ops params with
      | none => (source.token ops params none, s)
      | some (device, probs) =>
        (source.token ops params (some (s.multinomial ops device probs params (some r)).1),
          (s.multinomial ops device probs params (some r)).2) := by
  cases source with
  | logits row =>
    unfold sampleFrom sample Source.draw
    by_cases htemp : params.temperature ≤ 0
    · simp [htemp, Source.token]
    · cases hd : ops.distribution params
          (ops.scaledLogits params (ops.sanitize row.values)) <;> simp [htemp, hd, Source.token]
  | candidates c rowIdx =>
    unfold sampleFrom sampleFromCandidates Source.draw Source.token
    dsimp only
    cases c.row ops rowIdx params with
    | error error => rfl
    | ok row =>
      by_cases htemp : params.temperature ≤ 0
      · simp [htemp]
      · cases hd : ops.distribution params (ops.scale row.1 params.temperature) <;>
          simp [htemp, hd]

end Sampler

namespace Call
variable (ops : TensorOps F) (r : RequestId)

/-- What a call does to the generator of a request. -/
def op : Call F → Option (Session.Op String (List F))
  | sample r' params source =>
    if r' = r then (source.draw ops params).map fun drawn => .use drawn.1 drawn.2 else none
  | release requestIds => if r ∈ requestIds then some .drop else none

end Call

/-- The uses and drops of a request's generator. -/
def session (ops : TensorOps F) (r : RequestId) (calls : List (Call F)) :
    List (Session.Op String (List F)) :=
  calls.filterMap (Call.op ops r)

/-- Every call for a request samples with the same parameters. -/
def SamplesWith (r : RequestId) (params : SamplingParams) (calls : List (Call F)) : Prop :=
  ∀ p source, .sample r p source ∈ calls → p = params

/-- Every draw for the request is made with a generator of its seed that has made exactly the
earlier draws of the request. -/
def InOrder (ops : TensorOps F) (s : Sampler F) (r : RequestId) (seed : Int)
    (calls : List (Call F)) : Prop :=
  ∀ before params source after device probs, calls = before ++ .sample r params source :: after →
    source.draw ops params = some (device, probs) →
    (s.run ops before).generatorFor device seed r =
      { device, seed := Sampler.maskSeed seed, drawn := Session.items (session ops r before) }

/-- No release falls between two draws for the request, and all of them are on one device. -/
def Undisturbed (ops : TensorOps F) (r : RequestId) (calls : List (Call F)) : Prop :=
  Session.Undisturbed (session ops r calls)

section Draws
variable {ops : TensorOps F} {s : Sampler F} {r : RequestId} {params : SamplingParams} {seed : Int}

/-- The generator of a request as a session. -/
structure Holds (s : Sampler F) (r : RequestId) (seed : Int)
    (state : Session.State String (List F)) : Prop where
  state : (s.generators.lookup r).map (fun g => (g.device, g.drawn)) = state
  seed : ∀ g, s.generators.lookup r = some g → g.seed = Sampler.maskSeed seed

theorem Holds.generatorFor {state : Session.State String (List F)} (h : Holds s r seed state)
    (device : String) : s.generatorFor device seed r =
      { device, seed := Sampler.maskSeed seed, drawn := Session.past state device } := by
  rw [← h.state, Sampler.generatorFor]
  cases hg : s.generators.lookup r with
  | none => rfl
  | some g =>
    have hs := h.seed g hg
    obtain ⟨device', seed', drawn⟩ := g
    dsimp only at hs
    subst hs
    by_cases hd : device' = device
    · subst hd
      simp [Session.past]
    · simp [Session.past, hd]

theorem lookup_release (ids : List RequestId) (d : Dict RequestId (Generator F)) :
    (ids.foldl (fun d r => d.erase r) d).lookup r = if r ∈ ids then none else d.lookup r := by
  induction ids generalizing d with
  | nil => simp
  | cons a ids ih =>
    rw [List.foldl_cons, ih]
    by_cases hr : r = a
    · subst hr
      simp
    · rw [AList.lookup_erase_ne hr]
      simp [hr]

/-- A call does to the generator of a request what its session shows. -/
theorem Holds.perform {state : Session.State String (List F)} (h : Holds s r seed state)
    (hseed : params.seed = some seed) (call : Call F)
    (hcall : ∀ p source, call = .sample r p source → p = params) :
    Holds (s.perform ops call) r seed
      ((Call.op ops r call).elim state (Session.step state)) := by
  cases call with
  | release ids =>
    have hlook : (s.releaseRequests ids).generators.lookup r =
        if r ∈ ids then none else s.generators.lookup r := lookup_release ids s.generators
    unfold Sampler.perform Call.op
    dsimp only
    by_cases hr : r ∈ ids
    · rw [if_pos hr] at hlook ⊢
      exact ⟨by rw [hlook]; rfl, by simp [hlook]⟩
    · rw [if_neg hr] at hlook ⊢
      exact ⟨by rw [hlook]; exact h.state, by rw [hlook]; exact h.seed⟩
  | sample r' p source =>
    unfold Sampler.perform Call.op
    dsimp only
    rw [Sampler.sampleFrom_eq]
    by_cases hr : r' = r
    · subst hr
      obtain rfl := hcall p source rfl
      rw [if_pos rfl]
      cases hd : source.draw ops p with
      | none => exact h
      | some drawn =>
        obtain ⟨device, probs⟩ := drawn
        have hlook : (s.multinomial ops device probs p (some r')).2.generators.lookup r' =
            some { device, seed := Sampler.maskSeed seed
                   drawn := Session.past state device ++ [probs] } := by
          unfold Sampler.multinomial
          rw [hseed]
          dsimp only
          rw [AList.lookup_insert, h.generatorFor]
        refine ⟨?_, ?_⟩
        · dsimp only
          rw [hlook]
          rfl
        · intro g hg
          dsimp only at hg
          rw [hlook] at hg
          cases hg
          rfl
    · rw [if_neg hr]
      cases hd : source.draw ops p with
      | none => exact h
      | some drawn =>
        have hlook : (s.multinomial ops drawn.1 drawn.2 p (some r')).2.generators.lookup r =
            s.generators.lookup r := by
          unfold Sampler.multinomial
          cases p.seed with
          | none => rfl
          | some seed' => exact AList.lookup_insert_ne fun h => hr h.symm
        exact ⟨by dsimp only; rw [hlook]; exact h.state, by dsimp only; rw [hlook]; exact h.seed⟩

theorem session_snoc (calls : List (Call F)) (call : Call F) :
    session ops r (calls ++ [call]) = session ops r calls ++ (Call.op ops r call).toList := by
  rw [session, List.filterMap_append, session]
  cases h : Call.op ops r call <;> simp [h]

/-- The generator of a request after some calls. -/
theorem holds_run (hs : s.generators = ∅) (hseed : params.seed = some seed)
    {calls : List (Call F)} (hwith : SamplesWith r params calls) :
    Holds (s.run ops calls) r seed (Session.run (session ops r calls)) := by
  induction calls using List.reverseRecOn with
  | nil => exact ⟨by rw [Sampler.run, List.foldl_nil, hs]; rfl, by simp [Sampler.run, hs]⟩
  | append_singleton calls call ih =>
    have h := ih fun p source hmem => hwith p source (by simp [hmem])
    have hnext : Holds ((s.run ops calls).perform ops call) r seed
        ((Call.op ops r call).elim (Session.run (session ops r calls))
          (Session.step (Session.run (session ops r calls)))) :=
      h.perform hseed call fun p source hcall => hwith p source (by simp [hcall])
    rw [Sampler.run, List.foldl_append]
    rw [session_snoc, Session.run, List.foldl_append]
    cases hop : Call.op ops r call with
    | none =>
      rw [hop] at hnext
      exact hnext
    | some op =>
      rw [hop] at hnext
      exact hnext

/-- The draws are in order exactly when nothing disturbs the generator between them. -/
theorem inOrder_iff_undisturbed (hs : s.generators = ∅) (hseed : params.seed = some seed)
    {calls : List (Call F)} (hwith : SamplesWith r params calls) :
    InOrder ops s r seed calls ↔ Undisturbed ops r calls := by
  rw [Undisturbed, ← Session.whole_iff_undisturbed]
  have hbefore : ∀ before rest, calls = before ++ rest → SamplesWith r params before := by
    rintro before rest rfl p source hmem
    exact hwith p source (by simp [hmem])
  constructor
  · intro h before tag item after hops
    obtain ⟨l, rest, hcalls, rfl, hrest⟩ := List.filterMap_eq_append_iff.mp hops
    obtain ⟨l', call, rest', rfl, hnone, hop, -⟩ := List.filterMap_eq_cons_iff.mp hrest
    have hskip : session ops r (l ++ l') = session ops r l := by
      rw [session, List.filterMap_append, List.filterMap_eq_nil_iff.mpr hnone, List.append_nil]
      rfl
    cases call with
    | release ids =>
      rw [Call.op] at hop
      split at hop <;> cases hop
    | sample r' p source =>
      rw [Call.op] at hop
      split at hop
      · next hr =>
        subst hr
        obtain ⟨drawn, hdraw, huse⟩ := Option.map_eq_some_iff.mp hop
        cases huse
        have hsplit : calls = (l ++ l') ++ .sample r' p source :: rest' := by
          rw [hcalls, List.append_assoc]
        have hg := h _ p source rest' _ _ hsplit hdraw
        rw [(holds_run hs hseed (hbefore _ _ hsplit)).generatorFor, hskip] at hg
        exact congrArg Generator.drawn hg
      · cases hop
  · intro h before p source after device probs hcalls hdraw
    rw [(holds_run hs hseed (hbefore _ _ hcalls)).generatorFor]
    congr 1
    refine h _ device probs (session ops r after) ?_
    rw [hcalls, session, List.filterMap_append, List.filterMap_cons]
    simp [Call.op, hdraw, session]

/-- Every token of the request is sampled from a row that depends on its earlier tokens only. -/
def RowsBy (ops : TensorOps F) (s : Sampler F) (r : RequestId) (rows : List Int → Source F)
    (calls : List (Call F)) : Prop :=
  ∀ before p source after, calls = before ++ .sample r p source :: after →
    source = rows (s.tokens ops r before)

/-- The tokens and the draws after `n` calls with one generator. -/
def follow (ops : TensorOps F) (params : SamplingParams) (seed : Int) (rows : List Int → Source F) :
    Nat → List Int × List (List F)
  | 0 => ([], [])
  | n + 1 =>
    let (tokens, drawn) := follow ops params seed rows n
    match (rows tokens).draw ops params with
    | none => (tokens ++ ((rows tokens).token ops params none).toOption.toList, drawn)
    | some (device, probs) =>
      let position := ops.multinomial { device, seed := Sampler.maskSeed seed, drawn } probs
      (tokens ++ ((rows tokens).token ops params (some position)).toOption.toList,
        drawn ++ [probs])

theorem tokens_snoc (s : Sampler F) (calls : List (Call F)) (call : Call F) :
    s.tokens ops r (calls ++ [call]) =
      s.tokens ops r calls ++ (s.run ops calls).returned ops r call := by
  induction calls generalizing s with
  | nil => simp [Sampler.tokens, Sampler.run]
  | cons first calls ih =>
    rw [List.cons_append, Sampler.tokens, ih, Sampler.tokens, List.append_assoc]
    rfl

/-- Draws in order give the tokens of one generator. -/
theorem InOrder.follows (hseed : params.seed = some seed) {rows : List Int → Source F}
    {calls : List (Call F)} (hwith : SamplesWith r params calls) (h : InOrder ops s r seed calls)
    (hrows : RowsBy ops s r rows calls) :
    ∃ n, follow ops params seed rows n =
      (s.tokens ops r calls, Session.items (session ops r calls)) := by
  induction calls using List.reverseRecOn with
  | nil => exact ⟨0, rfl⟩
  | append_singleton calls call ih =>
    obtain ⟨n, hn⟩ := ih (fun p source hmem => hwith p source (by simp [hmem]))
      (fun before p source after device probs hcalls =>
        h before p source (after ++ [call]) device probs (by rw [hcalls]; simp))
      fun before p source after hcalls =>
        hrows before p source (after ++ [call]) (by rw [hcalls]; simp)
    rw [tokens_snoc, session_snoc]
    have hskip : Call.op ops r call = none → (s.run ops calls).returned ops r call = [] →
        ∃ n, follow ops params seed rows n =
          (s.tokens ops r calls ++ (s.run ops calls).returned ops r call,
            Session.items (session ops r calls ++ (Call.op ops r call).toList)) := by
      intro hop hret
      rw [hop, hret]
      exact ⟨n, by simpa using hn⟩
    cases call with
    | release ids =>
      have hitems : Session.items (session ops r calls ++ (Call.op ops r (.release ids)).toList) =
          Session.items (session ops r calls) := by
        rw [Call.op]
        split <;> simp [Session.items]
      rw [hitems, Sampler.returned, List.append_nil]
      exact ⟨n, hn⟩
    | sample r' p source =>
      by_cases hr : r' = r
      · subst hr
        obtain rfl := hwith p source (by simp)
        have hsource := hrows calls p source [] rfl
        refine ⟨n + 1, ?_⟩
        rw [follow, hn]
        dsimp only
        rw [← hsource, Sampler.returned, if_pos rfl, Sampler.sampleFrom_eq, Call.op, if_pos rfl]
        cases hd : source.draw ops p with
        | none => simp
        | some drawn =>
          obtain ⟨device, probs⟩ := drawn
          have hg := h calls p source [] device probs rfl hd
          have hpos : ((s.run ops calls).multinomial ops device probs p (some r')).1 =
              ops.multinomial { device, seed := Sampler.maskSeed seed
                                drawn := Session.items (session ops r' calls) } probs := by
            unfold Sampler.multinomial
            rw [hseed]
            dsimp only
            rw [hg]
          dsimp only
          rw [hpos]
          simp [Session.items]
      · exact hskip (by rw [Call.op, if_neg hr]) (by rw [Sampler.returned, if_neg hr])

theorem follow_mono {rows : List Int → Source F} {m n : Nat} (h : m ≤ n) :
    (follow ops params seed rows m).1 <+: (follow ops params seed rows n).1 := by
  induction n, h using Nat.le_induction with
  | base => exact List.prefix_refl _
  | succ n _ ih =>
    refine ih.trans ?_
    rw [follow]
    dsimp only
    split <;> exact List.prefix_append _ _

/-- Two runs whose draws are in order give a request the same tokens. -/
theorem tokens_agree (hseed : params.seed = some seed) {rows : List Int → Source F}
    {calls calls' : List (Call F)} {s' : Sampler F} (hwith : SamplesWith r params calls)
    (hwith' : SamplesWith r params calls') (h : InOrder ops s r seed calls)
    (h' : InOrder ops s' r seed calls') (hrows : RowsBy ops s r rows calls)
    (hrows' : RowsBy ops s' r rows calls') :
    s.tokens ops r calls <+: s'.tokens ops r calls' ∨
      s'.tokens ops r calls' <+: s.tokens ops r calls := by
  obtain ⟨m, hm⟩ := h.follows hseed hwith hrows
  obtain ⟨n, hn⟩ := h'.follows hseed hwith' hrows'
  have hm := congrArg Prod.fst hm
  have hn := congrArg Prod.fst hn
  dsimp only at hm hn
  rw [← hm, ← hn]
  rcases Nat.le_total m n with hle | hle
  · exact .inl (follow_mono hle)
  · exact .inr (follow_mono hle)

end Draws
end PyptoServing.Runner
