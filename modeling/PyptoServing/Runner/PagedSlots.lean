import PyptoServing.Runner.QwenStaging
import PyptoServing.Sched.PageOwnership

/-!
# The slots of the steps in flight

A kernel writes the row of a position to the slot that the runner computes from the table sent
with the step. Over a cache without groups and without a prefix index no two positions that are
in flight for running requests share a slot, and a request that keeps running keeps the slots of
its positions.
-/
namespace PyptoServing.Runner

open Lib Memory Sched

section Slots
variable {cfg : QwenRuntime} {table table' : List BlockId} {i j : Nat}

/-- The table covers a position. -/
def QwenRuntime.Covers (cfg : QwenRuntime) (table : List BlockId) (i : Nat) : Prop :=
  i < table.length * cfg.pageSize

theorem QwenRuntime.Covers.page (h : cfg.Covers table i) : i / cfg.pageSize < table.length :=
  Nat.div_lt_of_lt_mul (by rw [Nat.mul_comm]; exact h)

/-- The page that holds a position. -/
def QwenRuntime.pageOf (cfg : QwenRuntime) (table : List BlockId) (i : Nat) : BlockId :=
  table.getD (i / cfg.pageSize) 0

theorem pageOf_mem (h : cfg.Covers table i) : cfg.pageOf table i ∈ table := by
  rw [QwenRuntime.pageOf, List.getD_eq_getElem _ _ h.page]
  exact List.getElem_mem h.page

theorem slot_eq (table : List BlockId) (i : Nat) :
    cfg.slot table i = (cfg.pageOf table i * cfg.pageSize + i % cfg.pageSize : Nat) := by
  rw [QwenRuntime.slot, QwenRuntime.pageOf]
  push_cast
  rfl

/-- The slot of a position in a table that grew. -/
theorem slot_prefix (hpre : table <+: table') (h : cfg.Covers table i) :
    cfg.slot table i = cfg.slot table' i := by
  obtain ⟨new, rfl⟩ := hpre
  rw [QwenRuntime.slot, QwenRuntime.slot, List.getD_append _ _ _ _ h.page]

/-- Equal slots are the same cell of the same page. -/
theorem slot_cell (heq : cfg.slot table i = cfg.slot table' j) :
    cfg.pageOf table i = cfg.pageOf table' j ∧ i % cfg.pageSize = j % cfg.pageSize := by
  rw [slot_eq, slot_eq, Int.natCast_inj] at heq
  have hi := Nat.mod_lt i cfg.pageSize_pos
  have hj := Nat.mod_lt j cfg.pageSize_pos
  have hmod := congrArg (· % cfg.pageSize) heq
  have hdiv := congrArg (· / cfg.pageSize) heq
  rw [Nat.mul_add_mod_self_right, Nat.mul_add_mod_self_right, Nat.mod_mod, Nat.mod_mod] at hmod
  refine ⟨?_, hmod⟩
  rwa [Nat.mul_comm, Nat.mul_add_div cfg.pageSize_pos, Nat.div_eq_of_lt hi, Nat.add_zero,
    Nat.mul_comm, Nat.mul_add_div cfg.pageSize_pos, Nat.div_eq_of_lt hj, Nat.add_zero] at hdiv

/-- Within one table each position has a slot of its own. -/
theorem slot_inj (hnd : table.Nodup) (h : cfg.Covers table i) (h' : cfg.Covers table j)
    (heq : cfg.slot table i = cfg.slot table j) : i = j := by
  obtain ⟨hpage, hoffset⟩ := slot_cell heq
  rw [QwenRuntime.pageOf, QwenRuntime.pageOf, List.getD_eq_getElem _ _ h.page,
    List.getD_eq_getElem _ _ h'.page] at hpage
  have hdiv := (hnd.getElem_inj_iff).mp hpage
  rw [← Nat.div_add_mod i cfg.pageSize, ← Nat.div_add_mod j cfg.pageSize, hdiv, hoffset]

/-- The slot of a position lies in the pool. -/
theorem slot_bound {n : Nat} (hbound : ∀ b ∈ table, b < n) (h : cfg.Covers table i) :
    0 ≤ cfg.slot table i ∧ cfg.slot table i < n * cfg.pageSize := by
  have hi := Nat.mod_lt i cfg.pageSize_pos
  have hpage := hbound _ (pageOf_mem h)
  have hlt : cfg.pageOf table i * cfg.pageSize + i % cfg.pageSize < n * cfg.pageSize := by
    calc cfg.pageOf table i * cfg.pageSize + i % cfg.pageSize
        < (cfg.pageOf table i + 1) * cfg.pageSize := by
          rw [Nat.add_mul, Nat.one_mul]
          exact Nat.add_lt_add_left hi _
      _ ≤ n * cfg.pageSize := Nat.mul_le_mul_right _ hpage
  rw [slot_eq]
  exact ⟨Int.natCast_nonneg _, by exact_mod_cast hlt⟩

end Slots

/-- A position that a step in flight computes for a request that still runs, for one of its
tokens or for a draft. -/
structure LivePosition (p : Pipeline) (sr : ScheduledRequest) (i : Nat) : Prop where
  inFlight : ∃ out ∈ p.inFlight, sr ∈ out.scheduledRequests
  running : sr.requestId ∈ p.sched.running
  computed : i < sr.numComputedTokens + (sr.numNewTokens + p.sched.speculativeTokensFor sr)

/-- The slots that the steps in flight read and write for running requests. -/
structure PositionsOwned (cfg : QwenRuntime) (p : Pipeline) : Prop where
  /-- A slot holds one position of one request. -/
  separate : ∀ sr i sr' j, LivePosition p sr i → LivePosition p sr' j →
    cfg.slot sr.blockIds i = cfg.slot sr'.blockIds j → sr.requestId = sr'.requestId ∧ i = j
  /-- The table that was sent places a position where the present table does. -/
  present : ∀ sr i, LivePosition p sr i →
    cfg.slot sr.blockIds i = cfg.slot (p.sched.object sr.requestId).heldBlocks i
  bound : ∀ sr i, LivePosition p sr i → 0 ≤ cfg.slot sr.blockIds i ∧
    cfg.slot sr.blockIds i < p.sched.kvCacheManager.numBlocks * cfg.pageSize

/-- A request that keeps running keeps the slots of its positions. -/
def PositionsKept (cfg : QwenRuntime) (p p' : Pipeline) : Prop :=
  ∀ r ∈ p.sched.running, r ∈ p'.sched.running →
    ∀ i, cfg.Covers (p.sched.object r).heldBlocks i →
      cfg.slot (p.sched.object r).heldBlocks i = cfg.slot (p'.sched.object r).heldBlocks i

section Runs
variable {cfg : QwenRuntime} {p p₀ : Pipeline} {sr : ScheduledRequest} {i : Nat}

/-- What a live position needs to know about its table. -/
theorem LivePosition.sent (h : LivePosition p sr i) (hp : p.Paged)
    (hpage : cfg.pageSize = p.sched.kvCacheManager.blockSize) :
    sr.blockIds <+: (p.sched.object sr.requestId).heldBlocks ∧ cfg.Covers sr.blockIds i := by
  obtain ⟨out, hout, hsr⟩ := h.inFlight
  have hsent := hp.sent out hout sr hsr h.running
  refine ⟨hsent.table, h.computed.trans_le ?_⟩
  rw [hpage]
  exact hsent.covered

theorem Covers.mono {table table' : List BlockId} (hpre : table <+: table')
    (h : cfg.Covers table i) : cfg.Covers table' i :=
  lt_of_lt_of_le h (Nat.mul_le_mul_right _ hpre.length_le)

theorem positionsOwned_of_paged (hp : p.Paged) (hwf : p.WellFormed)
    (hpage : cfg.pageSize = p.sched.kvCacheManager.blockSize) : PositionsOwned cfg p := by
  have hissued : ∀ r ∈ p.sched.running, r ∈ p.issued := fun r hr =>
    hwf.issued r (hwf.tracked r (.inl hr))
  have present : ∀ sr i, LivePosition p sr i →
      cfg.slot sr.blockIds i = cfg.slot (p.sched.object sr.requestId).heldBlocks i := by
    intro sr i h
    obtain ⟨hpre, hcovers⟩ := h.sent hp hpage
    exact slot_prefix hpre hcovers
  refine ⟨fun sr i sr' j h h' heq => ?_, present, fun sr i h => ?_⟩
  · rw [present sr i h, present sr' j h'] at heq
    obtain ⟨hpre, hcovers⟩ := h.sent hp hpage
    obtain ⟨hpre', hcovers'⟩ := h'.sent hp hpage
    replace hcovers := Covers.mono hpre hcovers
    replace hcovers' := Covers.mono hpre' hcovers'
    have hr := hissued _ h.running
    have hr' := hissued _ h'.running
    have hid : sr.requestId = sr'.requestId := by
      by_contra hne
      obtain ⟨hshared, -⟩ := slot_cell heq
      refine hp.owned.pages.disjoint hr hr' hne (pageOf_mem hcovers) ?_
      rw [hshared]
      exact pageOf_mem hcovers'
    refine ⟨hid, ?_⟩
    rw [← hid] at heq hcovers'
    exact slot_inj (hp.owned.pages.nodup _ hr) hcovers hcovers' heq
  · obtain ⟨hpre, hcovers⟩ := h.sent hp hpage
    exact slot_bound (fun b hb => hp.owned.pages.bound _ (hissued _ h.running) b (hpre.subset hb))
      hcovers

/-- In every run no slot is shared, and no step moves the positions of a request that keeps
running. -/
theorem live_slots_owned {ops : List PipelineOp} (hstart : p₀.Started)
    (hgroups : p₀.sched.kvCacheManager.groupPools = [])
    (hcache : p₀.sched.config.enablePrefixCache = false)
    (hrun : pipelineMachine.Run p₀ ops p)
    (hpage : cfg.pageSize = p.sched.kvCacheManager.blockSize) :
    PositionsOwned cfg p ∧ ∀ op p', p.Step op p' → PositionsKept cfg p p' := by
  obtain ⟨hp, hwf⟩ := Pipeline.paged_of_run hstart hgroups hcache hrun
  refine ⟨positionsOwned_of_paged hp hwf hpage, fun op p' hstep r hr hr' i hi => ?_⟩
  exact slot_prefix ((hp.step hwf hstep).2 r hr hr') hi

end Runs

/-- One draft behind each decoded token. -/
def draftingConfig : SchedulerConfig :=
  { SchedulerConfig.defaults with
    enablePrefixCache := false
    numSpeculativeTokens := 1
    asyncScheduling := true
    decode_fits := by decide }

def pairRuntime : QwenRuntime where
  maxBatchSize := 2
  maxSeqLen := 8
  pageSize := 2
  pageSize_pos := Nat.zero_lt_two

/-- The prefills of two requests, and two decodes behind their first tokens. -/
def pairOps : List PipelineOp :=
  [.add (plainRequest "a" [1, 2, 3] 4 0), .add (plainRequest "b" [4, 5] 4 1), .dispatch,
    .complete (Dict.ofList [("a", [6]), ("b", [7])]), .dispatch, .dispatch]

theorem live_slots_owned_pair : ∃ p, p.inFlight.length = 2 ∧
    (p.inFlight.flatMap fun out => out.scheduledRequests.map (·.blockIds)) =
      [[0, 1, 3], [2, 4], [0, 1, 3, 5], [2, 4, 6]] ∧ PositionsOwned pairRuntime p := by
  have hrun : ((Pipeline.boot KvCacheManager.encodingHash [] 2 2 8 draftingConfig).bind fun p₀ =>
      (p₀.execAll pairOps).map fun p => decide (p₀.sched.kvCacheManager.groupPools.length = 0 ∧
        p₀.sched.config.enablePrefixCache = false ∧ p.inFlight.length = 2 ∧
        (p.inFlight.flatMap fun out => out.scheduledRequests.map (·.blockIds)) =
          [[0, 1, 3], [2, 4], [0, 1, 3, 5], [2, 4, 6]] ∧
        2 = p.sched.kvCacheManager.blockSize)) = some true := by
    decide +kernel
  obtain ⟨p₀, hboot, hrun⟩ := Option.bind_eq_some_iff.mp hrun
  obtain ⟨p, hexec, hrun⟩ := Option.map_eq_some_iff.mp hrun
  obtain ⟨hgroups, hcache, hdepth, htables, hpage⟩ := of_decide_eq_true hrun
  have hfresh : ∀ q, PipelineOp.add q ∈ pairOps → q.Fresh := by
    intro q hq
    simp only [pairOps, List.mem_cons, PipelineOp.add.injEq, reduceCtorEq, List.not_mem_nil,
      or_false] at hq
    rcases hq with rfl | rfl
    · exact plainRequest_fresh (by decide)
    · exact plainRequest_fresh (by decide)
  exact ⟨p, hdepth, htables, (live_slots_owned (Pipeline.boot_started (by decide) hboot)
    (List.length_eq_zero_iff.mp hgroups) hcache (Pipeline.execAll_run hfresh hexec) hpage).1⟩

end PyptoServing.Runner
