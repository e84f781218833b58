import Mathlib.Data.List.ReduceOption
import PyptoServing.Lib.Fallible
import PyptoServing.Server.Ipc

/-!
# The serial worker

One command at a time: release, register, compute, remember the last tokens. What the
executor returns or raises is not decided here; `Execution` holds it for one command. How a
prefill batch is cut into dispatches does not change what is sampled for a request, so the
cut is left out.
-/
namespace PyptoServing.Server

open Lib Memory Sched

/-- What the executor does with one command. -/
structure Execution where
  /-- The token sampled when the prompt of a request is complete. -/
  prefillToken : RequestId → Int
  /-- The tokens that a decode accepts. -/
  decodeTokens : RequestId → List Int
  releaseError : Option String := none
  error : Option String := none

/-- Sampled ids are vocabulary indices, and a decode accepts a token for each request. -/
structure Execution.Samples (x : Execution) : Prop where
  prefill : ∀ r, 0 ≤ x.prefillToken r
  decode : ∀ r, ∀ token ∈ x.decodeTokens r, 0 ≤ token
  decode_ne : ∀ r, x.decodeTokens r ≠ []

structure Worker where
  reqCache : ReqCache := ∅
  lastTokens : LastTokens := ∅

namespace Worker

/-- `_release_finished_request_state`, once the executor has released its own. -/
def releaseFinished (w : Worker) (requestIds : List RequestId) : Worker where
  reqCache := requestIds.foldl (fun cache r => cache.erase r) w.reqCache
  lastTokens := requestIds.foldl (fun tokens r => tokens.erase r) w.lastTokens

/-- `_apply_command_lifecycle` of the command with number `i`. -/
def applyLifecycle (w : Worker) (i : Nat) (cmd : StepCommand) : Worker :=
  let w := w.releaseFinished cmd.finishedRequestIds
  { w with
    reqCache := cmd.newRequests.foldl
      (fun cache data => cache.insert data.requestId ⟨data, i⟩) w.reqCache }

/-- `_resolve_decode_token`. -/
def resolveDecodeToken (w : Worker) (dr : DecodeRequest) : Except String Int :=
  if dr.lastToken ≠ placeholderToken then .ok dr.lastToken
  else
    match ((w.lastTokens.lookup dr.requestId).getD []).getLast? with
    | none => .error s!"No cached token to resolve placeholder decode input for '{dr.requestId}'"
    | some recent => .ok recent.token

/-- `self._req_cache[request_id]`. -/
def registered (w : Worker) (r : RequestId) : Except String Registered :=
  match w.reqCache.lookup r with
  | none => .error s!"'{r}'"
  | some entry => .ok entry

/-- One row of `_batch_prefill`: a token is sampled when the chunk completes the prompt. -/
def prefillRow (w : Worker) (x : Execution) (pr : PrefillRequest) :
    Except String (Option (RequestId × List Int)) := do
  let cached ← w.registered pr.requestId
  return if cached.data.promptTokenIds.length ≤ pr.numComputedTokens + pr.chunkTokens.length then
      some (pr.requestId, [x.prefillToken pr.requestId])
    else none

/-- One row of `_batch_decode`. -/
def decodeRow (w : Worker) (x : Execution) (dr : DecodeRequest) :
    Except String (RequestId × List Int) := do
  let _ ← w.resolveDecodeToken dr
  let _ ← w.registered dr.requestId
  return (dr.requestId, x.decodeTokens dr.requestId)

/-- `_record_last_tokens` for every request that sampled. -/
def recordTokens (w : Worker) (i : Nat) (newTokens : List (RequestId × List Int)) : Worker :=
  { w with
    lastTokens := newTokens.foldl
      (fun tokens new => if new.2 = [] then tokens else tokens.record i new.1 new.2) w.lastTokens }

/-- `_execute_step`. -/
def executeStep (w : Worker) (i : Nat) (cmd : StepCommand) (x : Execution) :
    Except String (Worker × StepResult) := do
  let prefill ← cmd.prefillRequests.mapM (w.prefillRow x)
  let decode ← cmd.decodeRequests.mapM (w.decodeRow x)
  match x.error with
  | some error => .error error
  | none =>
    let newTokens := prefill.reduceOption ++ decode
    return (w.recordTokens i newTokens,
      { newTokens := Dict.ofList newTokens, stepId := cmd.stepId })

/-- `_run_step_command`: every exception becomes an error result. -/
def runStepCommand (w : Worker) (i : Nat) (cmd : StepCommand) (x : Execution) :
    Worker × StepResult :=
  match if cmd.finishedRequestIds = [] then none else x.releaseError with
  | some error => (w, { error := some error, stepId := cmd.stepId })
  | none =>
    let w := w.applyLifecycle i cmd
    match w.executeStep i cmd x with
    | .ok done => done
    | .error error => (w, { error := some error, stepId := cmd.stepId })

section Lifecycle
variable {w : Worker} {i : Nat} {cmd : StepCommand} {x : Execution} {r : RequestId}

theorem lookup_foldl_erase {α : Type*} (ids : List RequestId) (d : Dict RequestId α) :
    (ids.foldl (fun d r => d.erase r) d).lookup r = if r ∈ ids then none else d.lookup r := by
  induction ids generalizing d with
  | nil => simp
  | cons a ids ih =>
    rw [List.foldl_cons, ih]
    by_cases hr : r = a
    · subst hr
      simp
    · rw [AList.lookup_erase_ne hr]
      simp [hr]

theorem lastTokens_applyLifecycle (hr : r ∉ cmd.finishedRequestIds) :
    (w.applyLifecycle i cmd).lastTokens.lookup r = w.lastTokens.lookup r := by
  refine (lookup_foldl_erase cmd.finishedRequestIds w.lastTokens).trans ?_
  rw [if_neg hr]

/-- An entry after the lifecycle of a command is new or was kept. -/
theorem lookup_applyLifecycle {entry : Registered}
    (h : (w.applyLifecycle i cmd).reqCache.lookup r = some entry) :
    (entry.data ∈ cmd.newRequests ∧ entry.data.requestId = r) ∨
      (w.reqCache.lookup r = some entry ∧ r ∉ cmd.finishedRequestIds) := by
  have hfold : ∀ (l : List NewRequestData) (d : ReqCache),
      (l.foldl (fun cache data => cache.insert data.requestId ⟨data, i⟩) d).lookup r = some entry →
      (entry.data ∈ l ∧ entry.data.requestId = r) ∨ d.lookup r = some entry := by
    intro l
    induction l with
    | nil => exact fun d h => .inr h
    | cons data l ih =>
      intro d h
      rcases ih _ h with ⟨hmem, hid⟩ | h
      · exact .inl ⟨by simp [hmem], hid⟩
      · by_cases hr : r = data.requestId
        · rw [hr, AList.lookup_insert, Option.some.injEq] at h
          subst h
          exact .inl ⟨by simp, hr.symm⟩
        · rw [AList.lookup_insert_ne hr] at h
          exact .inr h
  refine (hfold _ _ h).imp_right fun h => ?_
  have hkept := (lookup_foldl_erase cmd.finishedRequestIds w.reqCache).symm.trans h
  split at hkept
  · cases hkept
  · next hr => exact ⟨hkept, hr⟩

/-- The registered ids after the lifecycle of a command. -/
theorem mem_applyLifecycle : r ∈ (w.applyLifecycle i cmd).reqCache ↔
    (r ∈ w.reqCache ∧ r ∉ cmd.finishedRequestIds) ∨ r ∈ cmd.newIds := by
  have hfold : ∀ (l : List NewRequestData) (d : ReqCache),
      r ∈ l.foldl (fun cache data => cache.insert data.requestId ⟨data, i⟩) d ↔
        r ∈ d ∨ r ∈ l.map (·.requestId) := by
    intro l
    induction l with
    | nil => simp
    | cons data l ih =>
      intro d
      rw [List.foldl_cons, ih, AList.mem_insert, List.map_cons, List.mem_cons]
      tauto
  refine (hfold _ _).trans (or_congr ?_ .rfl)
  show r ∈ cmd.finishedRequestIds.foldl (fun cache r => cache.erase r) w.reqCache ↔ _
  rw [← AList.lookup_isSome, lookup_foldl_erase, ← AList.lookup_isSome]
  by_cases hr : r ∈ cmd.finishedRequestIds <;> simp [hr]

/-- The tokens of a successful step. -/
structure Samples (w : Worker) (cmd : StepCommand) (x : Execution)
    (newTokens : List (RequestId × List Int)) : Prop where
  decode : ∀ dr ∈ cmd.decodeRequests, (dr.requestId, x.decodeTokens dr.requestId) ∈ newTokens
  prefill : ∀ pr ∈ cmd.prefillRequests, ∀ entry, w.reqCache.lookup pr.requestId = some entry →
    entry.data.promptTokenIds.length ≤ pr.numComputedTokens + pr.chunkTokens.length →
    (pr.requestId, [x.prefillToken pr.requestId]) ∈ newTokens
  ids : (newTokens.map (·.1)).Sublist cmd.scheduledIds
  tokens : ∀ new ∈ newTokens, new.2 = [x.prefillToken new.1] ∨ new.2 = x.decodeTokens new.1

theorem registered_ok (hr : r ∈ w.reqCache) : ∃ entry, w.registered r = .ok entry ∧
    w.reqCache.lookup r = some entry := by
  rw [← AList.lookup_isSome] at hr
  obtain ⟨entry, hentry⟩ := Option.isSome_iff_exists.mp hr
  refine ⟨entry, ?_, hentry⟩
  rw [registered, hentry]

/-- The rows of a prefill batch that sampled. -/
theorem reduceOption_rows {prs : List PrefillRequest} {rows : List (Option (RequestId × List Int))}
    (h : List.Forall₂ (fun pr row => ∃ entry, w.reqCache.lookup pr.requestId = some entry ∧
      row = if entry.data.promptTokenIds.length ≤ pr.numComputedTokens + pr.chunkTokens.length
        then some (pr.requestId, [x.prefillToken pr.requestId]) else none) prs rows) :
    (∀ pr ∈ prs, ∀ entry, w.reqCache.lookup pr.requestId = some entry →
      entry.data.promptTokenIds.length ≤ pr.numComputedTokens + pr.chunkTokens.length →
      (pr.requestId, [x.prefillToken pr.requestId]) ∈ rows.reduceOption) ∧
    (rows.reduceOption.map (·.1)).Sublist (prs.map (·.requestId)) ∧
    ∀ new ∈ rows.reduceOption, new.2 = [x.prefillToken new.1] := by
  induction h with
  | nil => simp
  | @cons pr row prs rows hrow _ ih =>
    obtain ⟨hmem, hids, htok⟩ := ih
    obtain ⟨entry, hlook, rfl⟩ := hrow
    split
    · rw [List.reduceOption_cons_of_some]
      refine ⟨fun pr' hpr' entry' hlook' hle => ?_, hids.cons_cons _, fun new hnew => ?_⟩
      · rcases List.mem_cons.mp hpr' with rfl | hpr'
        · exact List.mem_cons_self
        · exact List.mem_cons_of_mem _ (hmem pr' hpr' entry' hlook' hle)
      · rcases List.mem_cons.mp hnew with rfl | hnew
        · rfl
        · exact htok new hnew
    · next hshort =>
      rw [List.reduceOption_cons_of_none]
      refine ⟨fun pr' hpr' entry' hlook' hle => ?_, hids.cons _, htok⟩
      rcases List.mem_cons.mp hpr' with rfl | hpr'
      · rw [hlook] at hlook'
        cases hlook'
        exact absurd hle hshort
      · exact hmem pr' hpr' entry' hlook' hle

/-- A step succeeds when its requests are registered and its inputs resolve. -/
theorem executeStep_ok (hreg : ∀ r ∈ cmd.scheduledIds, r ∈ w.reqCache)
    (hres : ∀ dr ∈ cmd.decodeRequests, ∃ token, w.resolveDecodeToken dr = .ok token)
    (hx : x.error = none) : ∃ newTokens, Samples w cmd x newTokens ∧
      w.executeStep i cmd x = .ok (w.recordTokens i newTokens,
        { newTokens := Dict.ofList newTokens, stepId := cmd.stepId }) := by
  have hprefill : ∃ rows, cmd.prefillRequests.mapM (w.prefillRow x) = .ok rows ∧
      List.Forall₂ (fun pr row => ∃ entry, w.reqCache.lookup pr.requestId = some entry ∧
        row = if entry.data.promptTokenIds.length ≤ pr.numComputedTokens + pr.chunkTokens.length
          then some (pr.requestId, [x.prefillToken pr.requestId]) else none)
        cmd.prefillRequests rows := by
    refine Fallible.mapM_total fun pr hpr => ?_
    obtain ⟨entry, hok, hlook⟩ := registered_ok (hreg pr.requestId (by
      rw [StepCommand.scheduledIds, List.mem_append]
      exact .inl (List.mem_map_of_mem hpr)))
    refine ⟨_, ?_, entry, hlook, rfl⟩
    rw [prefillRow, hok]
    rfl
  have hdecode : ∃ rows, cmd.decodeRequests.mapM (w.decodeRow x) = .ok rows ∧
      List.Forall₂ (fun dr row => row = (dr.requestId, x.decodeTokens dr.requestId))
        cmd.decodeRequests rows := by
    refine Fallible.mapM_total fun dr hdr => ?_
    obtain ⟨entry, hok, -⟩ := registered_ok (hreg dr.requestId (by
      rw [StepCommand.scheduledIds, List.mem_append]
      exact .inr (List.mem_map_of_mem hdr)))
    obtain ⟨token, htoken⟩ := hres dr hdr
    refine ⟨_, ?_, rfl⟩
    rw [decodeRow, htoken, hok]
    rfl
  obtain ⟨prefill, hp, hpf⟩ := hprefill
  obtain ⟨decode, hd, hdf⟩ := hdecode
  have hrows : decode = cmd.decodeRequests.map fun dr =>
      (dr.requestId, x.decodeTokens dr.requestId) := by
    rw [← List.map_id decode]
    exact Fallible.forall₂_map_eq hdf fun _ _ h => h
  obtain ⟨hrow, hids, htok⟩ := reduceOption_rows hpf
  refine ⟨prefill.reduceOption ++ decode, ?_, ?_⟩
  · rw [hrows]
    constructor
    · exact fun dr hdr => List.mem_append_right _ (List.mem_map_of_mem hdr)
    · exact fun pr hpr entry hlook hdone => List.mem_append_left _ (hrow pr hpr entry hlook hdone)
    · rw [List.map_append, List.map_map]
      exact hids.append (List.Sublist.refl _)
    · intro new hnew
      rcases List.mem_append.mp hnew with hnew | hnew
      · exact .inl (htok new hnew)
      · obtain ⟨dr, -, rfl⟩ := List.mem_map.mp hnew
        exact .inr rfl
  · rw [executeStep, hp, hd, hx]
    rfl

/-- The last token of a request after a step that sampled for it. -/
theorem lookup_recordTokens {newTokens : List (RequestId × List Int)} {tokens : List Int}
    {token : Int} (hnd : (newTokens.map (·.1)).Nodup) (hmem : (r, tokens) ∈ newTokens)
    (hlast : tokens.getLast? = some token) :
    (w.recordTokens i newTokens).lastTokens.lookup r = some [⟨token, i⟩] := by
  have hfold : ∀ (l : List (RequestId × List Int)) (d : LastTokens), r ∉ l.map (·.1) →
      (l.foldl (fun tokens new =>
        if new.2 = [] then tokens else tokens.record i new.1 new.2) d).lookup r = d.lookup r := by
    intro l
    induction l with
    | nil => exact fun d _ => rfl
    | cons new l ih =>
      intro d hr
      rw [List.map_cons, List.mem_cons, not_or] at hr
      rw [List.foldl_cons, ih _ hr.2]
      split
      · rfl
      · exact AList.lookup_insert_ne hr.1
  show (newTokens.foldl _ w.lastTokens).lookup r = _
  generalize w.lastTokens = d
  induction newTokens generalizing d with
  | nil => cases hmem
  | cons new l ih =>
    obtain ⟨hnew, hnd⟩ := List.nodup_cons.mp hnd
    rw [List.foldl_cons]
    rcases List.mem_cons.mp hmem with rfl | hmem
    · have hne : tokens ≠ [] := by
        rintro rfl
        cases hlast
      rw [hfold l _ hnew, if_neg hne, LastTokens.record]
      dsimp only
      rw [AList.lookup_insert, List.getLast?_append, List.getLast?_map, hlast]
      rfl
    · exact ih hnd hmem _

/-- The result of a step holds the tokens of each request that sampled. -/
theorem lookup_newTokens {newTokens : List (RequestId × List Int)} {tokens : List Int}
    (hnd : (newTokens.map (·.1)).Nodup) (hmem : (r, tokens) ∈ newTokens) :
    (Dict.ofList newTokens).lookup r = some tokens := by
  rw [Dict.lookup_ofList]
  induction newTokens with
  | nil => cases hmem
  | cons new l ih =>
    obtain ⟨hnew, hnd⟩ := List.nodup_cons.mp hnd
    rcases List.mem_cons.mp hmem with rfl | hmem
    · simp
    · have hne : new.1 ≠ r := by
        rintro rfl
        exact hnew (List.mem_map.mpr ⟨_, hmem, rfl⟩)
      rw [List.find?_cons_of_neg (by simpa using hne)]
      exact ih hnd hmem

/-- Every token of a result was sampled by the executor. -/
theorem mem_runStepCommand {token : Int}
    (h : token ∈ ((w.runStepCommand i cmd x).2.newTokens.lookup r).getD []) :
    token = x.prefillToken r ∨ token ∈ x.decodeTokens r := by
  have hempty : ∀ error : String, token ∉
      ((({ error := some error, stepId := cmd.stepId } : StepResult)).newTokens.lookup r).getD [] :=
    fun _ => List.not_mem_nil
  unfold runStepCommand at h
  split at h
  · exact absurd h (hempty _)
  · dsimp only at h
    split at h
    · next done hdone =>
      unfold executeStep at hdone
      obtain ⟨prefill, hp, hdone⟩ := Fallible.bind_eq_ok.mp hdone
      obtain ⟨decode, hd, hdone⟩ := Fallible.bind_eq_ok.mp hdone
      split at hdone
      · cases hdone
      · cases hdone
        have hall : ∀ new ∈ prefill.reduceOption ++ decode,
            new.2 = [x.prefillToken new.1] ∨ new.2 = x.decodeTokens new.1 := by
          intro new hnew
          rcases List.mem_append.mp hnew with hnew | hnew
          · obtain ⟨pr, -, hrow⟩ := Fallible.forall₂_mem_right (Fallible.mapM_eq_ok.mp hp)
              (List.reduceOption_mem_iff.mp hnew)
            unfold prefillRow at hrow
            obtain ⟨cached, -, hrow⟩ := Fallible.bind_eq_ok.mp hrow
            have hrow := Except.ok.inj hrow
            split at hrow
            · cases hrow
              exact .inl rfl
            · cases hrow
          · obtain ⟨dr, -, hrow⟩ := Fallible.forall₂_mem_right (Fallible.mapM_eq_ok.mp hd) hnew
            unfold decodeRow at hrow
            obtain ⟨_, -, hrow⟩ := Fallible.bind_eq_ok.mp hrow
            obtain ⟨_, -, hrow⟩ := Fallible.bind_eq_ok.mp hrow
            cases hrow
            exact .inr rfl
        dsimp only at h
        rw [Dict.lookup_ofList] at h
        cases hfind : (prefill.reduceOption ++ decode).find? fun e => e.1 = r with
        | none =>
          rw [hfind] at h
          cases h
        | some new =>
          rw [hfind] at h
          have hid : new.1 = r := by simpa using List.find?_some hfind
          have htok := hall new (List.mem_of_find?_eq_some hfind)
          rw [hid] at htok
          replace h : token ∈ new.2 := h
          rcases htok with htok | htok
          · rw [htok, List.mem_singleton] at h
            exact .inl h
          · rw [htok] at h
            exact .inr h
    · exact absurd h (hempty _)

end Lifecycle
end Worker
end PyptoServing.Server
