import PyptoServing.Lib.Fallible
import PyptoServing.Lib.Tensor

/-!
# Rank policies

How a packed tensor is distributed over the ranks: replicated, kept as it is, or, for experts,
each on its own rank. With a destination a policy writes into a slice of a slab.
-/
namespace PyptoServing.Weights

open Lib

inductive DType
  | float32
  | bfloat16
  | int8
  | int32
  deriving DecidableEq, Repr

def DType.name : DType → String
  | .float32 => "torch.float32"
  | .bfloat16 => "torch.bfloat16"
  | .int8 => "torch.int8"
  | .int32 => "torch.int32"

/-- The conversions of the elements; one to the same type changes nothing. -/
structure Casts (α : Type) where
  convert : DType → DType → α → α
  convert_self : ∀ d a, convert d d a = a

abbrev Weight (α : Type) := Tensor DType α

/-- `f"{shape}/{dtype}"`. -/
def describe (shape : List Nat) (dtype : DType) : String :=
  "(" ++ ", ".intercalate (shape.map toString) ++ (if shape.length = 1 then ",)/" else ")/") ++
    dtype.name

/-- `mismatch_error`, given the name, what was expected and what was got. -/
abbrev MismatchError := String → String → String → String

def defaultMismatchError : MismatchError := fun name expected got =>
  s!"packed destination {name} shape/dtype mismatch: expected={expected}, got={got}"

/-- The check of a destination. -/
def checkDestination {α : Type} (mismatchError : MismatchError) (name : String)
    (expectedShape : List Nat) (dtype : DType) (destination : Weight α) : Except String Unit :=
  if destination.shape ≠ expectedShape ∨ destination.dtype ≠ dtype then
    .error (mismatchError name (describe expectedShape dtype)
      (describe destination.shape destination.dtype))
  else .ok ()

structure Replicate where
  ranks : Nat
  mismatchError : MismatchError := defaultMismatchError

structure NoShard where
  mismatchError : MismatchError := defaultMismatchError

/-- `local_ids` gives the experts of a rank. -/
structure ExpertParallel where
  ranks : Nat
  nExperts : Nat
  localIds : (rank ranks nRoutedExperts : Nat) → Except String (List Nat)
  mismatchError : MismatchError := defaultMismatchError

/-- `policy: Replicate | NoShard`. -/
inductive RankPolicy
  | replicate (policy : Replicate)
  | noShard (policy : NoShard)

variable {α : Type} (casts : Casts α)

/-- `source.to(dtype=dtype)`, unless no dtype is asked for. -/
def toDtype (source : Weight α) : Option DType → Weight α
  | none => source
  | some dtype => source.cast casts.convert dtype

def Replicate.apply (policy : Replicate) (name : String) (source : Weight α)
    (dtype : Option DType) : Option (Weight α) → Except String (Weight α)
  | some destination => do
    checkDestination policy.mismatchError name (policy.ranks :: source.shape)
      (dtype.getD source.dtype) destination
    destination.copyFrom casts.convert (source.expand 1)
  | none => .ok ((toDtype casts source dtype).expand policy.ranks)

def NoShard.apply (policy : NoShard) (name : String) (source : Weight α)
    (dtype : Option DType) : Option (Weight α) → Except String (Weight α)
  | some destination => do
    checkDestination policy.mismatchError name source.shape (dtype.getD source.dtype) destination
    destination.copyFrom casts.convert source
  | none => .ok (toDtype casts source dtype)

namespace RankPolicy

def apply (policy : RankPolicy) (name : String) (source : Weight α) (dtype : Option DType)
    (destination : Option (Weight α)) : Except String (Weight α) :=
  match policy with
  | .replicate policy => policy.apply casts name source dtype destination
  | .noShard policy => policy.apply casts name source dtype destination

/-- `policy.ranks`, which a policy without ranks does not have. -/
def ranks : RankPolicy → Except String Nat
  | .replicate policy => .ok policy.ranks
  | .noShard _ => .error "'NoShard' object has no attribute 'ranks'"

def mismatchError : RankPolicy → MismatchError
  | .replicate policy => policy.mismatchError
  | .noShard policy => policy.mismatchError

end RankPolicy

namespace ExpertParallel
variable (policy : ExpertParallel)

def idsFor (rank : Nat) : Except String (List Nat) :=
  policy.localIds rank policy.ranks policy.nExperts

/-- `destination[rank, local_index].copy_(expert)`. -/
def writeExpert (rank localIndex : Nat) (destination expert : Weight α) :
    Except String (Weight α) :=
  match destination.shape with
  | ranks :: locals :: rest =>
    if rank < ranks ∧ localIndex < locals then do
      let row ← Tensor.copyFrom casts.convert ⟨rest, destination.dtype, fun idx =>
        destination.get (rank :: localIndex :: idx)⟩ expert
      return { destination with
        get := fun
          | r :: l :: idx =>
            if r = rank ∧ l = localIndex then row.get idx else destination.get (r :: l :: idx)
          | idx => destination.get idx }
    else .error "index is out of bounds"
  | _ => .error "too many indices"

def apply (name : String) (lookup : Nat → Except String (Weight α)) (dtype : DType) :
    Option (Weight α) → Except String (Weight α)
  | some destination =>
    if policy.ranks = 0 then .error "integer division or modulo by zero"
    else do
      let localExperts := policy.nExperts / policy.ranks
      let first ← lookup 0
      checkDestination policy.mismatchError name (policy.ranks :: localExperts :: first.shape)
        dtype destination
      (List.range policy.ranks).foldlM (fun destination rank => do
        let ids ← policy.idsFor rank
        ids.zipIdx.foldlM (fun destination (expertId, localIndex) => do
          writeExpert casts rank localIndex destination (← lookup expertId)) destination)
        destination
  | none => do
    let perRank ← (List.range policy.ranks).mapM fun rank => do
      let ids ← policy.idsFor rank
      Tensor.stack (← ids.mapM fun expertId =>
        return (← lookup expertId).cast casts.convert dtype)
    Tensor.stack perRank

end ExpertParallel

/-- `deepseek_v4_local_expert_ids`. -/
def deepseekV4LocalExpertIds (rank ranks nRoutedExperts : Nat) : Except String (List Nat) :=
  if ranks = 0 then .error "ranks must be positive"
  else if ranks ≤ rank then .error s!"rank must be in [0, {ranks - 1}], got {rank}"
  else if nRoutedExperts = 0 then .error "n_routed_experts must be positive"
  else if nRoutedExperts % ranks ≠ 0 then
    .error s!"n_routed_experts={nRoutedExperts} must divide evenly across ranks={ranks}"
  else
    let localCount := nRoutedExperts / ranks
    .ok (List.range' (rank * localCount) localCount)

theorem checkDestination_ok {mismatchError : MismatchError} {name : String} {shape : List Nat}
    {dtype : DType} {destination : Weight α} (hshape : destination.shape = shape)
    (hdtype : destination.dtype = dtype) :
    checkDestination mismatchError name shape dtype destination = .ok () :=
  if_neg (by simp [hshape, hdtype])

variable {casts}

theorem toDtype_same (source : Weight α) (dtype : Option DType) :
    (source.cast casts.convert (dtype.getD source.dtype)).Same (toDtype casts source dtype) := by
  cases dtype with
  | none => exact ⟨rfl, rfl, fun idx _ => casts.convert_self _ _⟩
  | some dtype => exact .refl _

theorem shape_toDtype (source : Weight α) (dtype : Option DType) :
    (toDtype casts source dtype).shape = source.shape ∧
      (toDtype casts source dtype).dtype = dtype.getD source.dtype := by
  cases dtype <;> exact ⟨rfl, rfl⟩

theorem Replicate.apply_into (policy : Replicate) {name : String} {source t destination : Weight α}
    {dtype : Option DType} (h : policy.apply casts name source dtype none = .ok t)
    (hshape : destination.shape = t.shape) (hdtype : destination.dtype = t.dtype) :
    ∃ t', policy.apply casts name source dtype (some destination) = .ok t' ∧ t'.Same t := by
  cases h
  obtain ⟨hs, hd⟩ : (toDtype casts source dtype).shape = source.shape ∧
      (toDtype casts source dtype).dtype = dtype.getD source.dtype := shape_toDtype source dtype
  have hshape' : destination.shape = policy.ranks :: source.shape :=
    hshape.trans (congrArg (policy.ranks :: ·) hs)
  have hdtype' : destination.dtype = dtype.getD source.dtype := hdtype.trans hd
  obtain ⟨out, hout, hsame⟩ := Tensor.copyFrom_expand casts.convert hshape'
  refine ⟨out, ?_, hsame.trans ?_⟩
  · exact Fallible.bind_eq_ok.mpr ⟨(), checkDestination_ok hshape' hdtype', hout⟩
  · rw [hdtype']
    exact (toDtype_same source dtype).expand policy.ranks

theorem NoShard.apply_into (policy : NoShard) {name : String} {source t destination : Weight α}
    {dtype : Option DType} (h : policy.apply casts name source dtype none = .ok t)
    (hshape : destination.shape = t.shape) (hdtype : destination.dtype = t.dtype) :
    ∃ t', policy.apply casts name source dtype (some destination) = .ok t' ∧ t'.Same t := by
  cases h
  obtain ⟨hs, hd⟩ : (toDtype casts source dtype).shape = source.shape ∧
      (toDtype casts source dtype).dtype = dtype.getD source.dtype := shape_toDtype source dtype
  obtain ⟨out, hout, hsame⟩ := Tensor.copyFrom_same casts.convert (hshape.trans hs)
  refine ⟨out, ?_, hsame.trans ?_⟩
  · exact Fallible.bind_eq_ok.mpr
      ⟨(), checkDestination_ok (hshape.trans hs) (hdtype.trans hd), hout⟩
  · rw [hdtype.trans hd]
    exact toDtype_same source dtype

/-- A destination of the packed shape receives what is packed without it. -/
theorem RankPolicy.apply_into (policy : RankPolicy) {name : String}
    {source t destination : Weight α} {dtype : Option DType}
    (h : policy.apply casts name source dtype none = .ok t)
    (hshape : destination.shape = t.shape) (hdtype : destination.dtype = t.dtype) :
    ∃ t', policy.apply casts name source dtype (some destination) = .ok t' ∧ t'.Same t := by
  cases policy with
  | replicate policy => exact policy.apply_into h hshape hdtype
  | noShard policy => exact policy.apply_into h hshape hdtype

namespace ExpertParallel
variable {policy : ExpertParallel} {lookup : Nat → Except String (Weight α)} {dtype : DType}

/-- A packed tensor of experts: the rows of every rank are its experts, converted. -/
structure Rows (casts : Casts α) (policy : ExpertParallel)
    (lookup : Nat → Except String (Weight α)) (dtype : DType) (shape : List Nat)
    (t : Weight α) : Prop where
  shape_eq : t.shape = policy.ranks :: (policy.nExperts / policy.ranks) :: shape
  dtype_eq : t.dtype = dtype
  row : ∀ rank < policy.ranks, ∀ ids, policy.idsFor rank = .ok ids →
    ∀ l e, ids[l]? = some e → ∃ u, lookup e = .ok u ∧ u.shape = shape ∧
      ∀ idx, t.get (rank :: l :: idx) = casts.convert u.dtype dtype (u.get idx)

/-- What is packed without a destination. -/
theorem rows_of_apply {name : String} {t : Weight α} (hranks : 0 < policy.ranks)
    (hids : ∀ rank < policy.ranks, ∃ ids, policy.idsFor rank = .ok ids ∧
      ids.length = policy.nExperts / policy.ranks)
    (h : policy.apply casts name lookup dtype none = .ok t) :
    ∃ shape, Rows casts policy lookup dtype shape t := by
  obtain ⟨perRank, hmap, hstack⟩ := Fallible.bind_eq_ok.mp h
  obtain ⟨shape, htshape, hall, hdtype, hget⟩ := Tensor.stack_ok hstack
  have hforall := Fallible.mapM_eq_ok.mp hmap
  have hlen : perRank.length = policy.ranks := by
    rw [← hforall.length_eq, List.length_range]
  have hrank (rank : Nat) (hlt : rank < policy.ranks) : ∃ part, perRank[rank]? = some part ∧
      ∀ ids, policy.idsFor rank = .ok ids → ∃ ws, List.Forall₂ (fun e w => ∃ u,
        lookup e = .ok u ∧ w = u.cast casts.convert dtype) ids ws ∧ Tensor.stack ws = .ok part := by
    have hi : rank < perRank.length := by omega
    refine ⟨perRank[rank], List.getElem?_eq_getElem hi, fun ids hids => ?_⟩
    have hbody := hforall.get (by rw [List.length_range]; exact hlt) hi
    simp only [List.get_eq_getElem, List.getElem_range] at hbody
    obtain ⟨ids', hids', hbody⟩ := Fallible.bind_eq_ok.mp hbody
    cases hids.symm.trans hids'
    obtain ⟨ws, hws, hbody⟩ := Fallible.bind_eq_ok.mp hbody
    refine ⟨ws, (Fallible.mapM_eq_ok.mp hws).imp fun e w hw => ?_, hbody⟩
    obtain ⟨u, hu, hw⟩ := Fallible.bind_eq_ok.mp hw
    cases hw
    exact ⟨u, hu, rfl⟩
  have hpart (rank : Nat) (hlt : rank < policy.ranks) : ∃ part, perRank[rank]? = some part ∧
      ∃ inner, shape = (policy.nExperts / policy.ranks) :: inner ∧ part.dtype = dtype ∧
      ∀ ids, policy.idsFor rank = .ok ids → ∀ l e, ids[l]? = some e → ∃ u, lookup e = .ok u ∧
        u.shape = inner ∧ ∀ idx, part.get (l :: idx) = casts.convert u.dtype dtype (u.get idx) := by
    obtain ⟨part, hpart, hws⟩ := hrank rank hlt
    obtain ⟨ids, hids, hidslen⟩ := hids rank hlt
    obtain ⟨ws, hforall, hstack⟩ := hws ids hids
    obtain ⟨inner, hshape, hinner, hpdtype, hrow⟩ := Tensor.stack_ok hstack
    have hmem := hall part (List.mem_of_getElem? hpart)
    refine ⟨part, hpart, inner, ?_, hpdtype dtype ?_, ?_⟩
    · rw [← hmem, hshape, ← hforall.length_eq, hidslen]
    · intro w hw
      obtain ⟨e, -, u, -, rfl⟩ := Fallible.forall₂_mem_right hforall hw
      rfl
    · intro ids' hids' l e hl
      cases hids.symm.trans hids'
      obtain ⟨hll, rfl⟩ := List.getElem?_eq_some_iff.mp hl
      have hlw : l < ws.length := by rw [← hforall.length_eq]; exact hll
      obtain ⟨u, hu, hw⟩ := hforall.get hll hlw
      simp only [List.get_eq_getElem] at hu hw
      have hmem' := hinner ws[l] (List.getElem_mem hlw)
      refine ⟨u, hu, ?_, fun idx => ?_⟩
      · rw [← hmem', hw]
        rfl
      · rw [hrow l ws[l] (List.getElem?_eq_getElem hlw), hw]
        rfl
  obtain ⟨part₀, -, inner, hinner, -⟩ := hpart 0 hranks
  refine ⟨inner, ?_, hdtype dtype ?_, ?_⟩
  · rw [htshape, hlen, hinner]
  · intro part hmem
    obtain ⟨rank, hlt, rfl⟩ := List.getElem_of_mem hmem
    obtain ⟨part', hpart', -, -, hd, -⟩ := hpart rank (by omega)
    rw [List.getElem?_eq_getElem hlt] at hpart'
    cases hpart'
    exact hd
  · intro rank hlt ids hids' l e hl
    obtain ⟨part, hpart', inner', hinner', -, hrow⟩ := hpart rank hlt
    rw [hinner] at hinner'
    cases hinner'
    obtain ⟨u, hu, hushape, huget⟩ := hrow ids hids' l e hl
    refine ⟨u, hu, hushape, fun idx => ?_⟩
    rw [hget rank part hpart', huget]

/-- A write of one expert fills its row. -/
theorem writeExpert_ok {destination u : Weight α} {rank l ranks locals : Nat} {shape : List Nat}
    (hshape : destination.shape = ranks :: locals :: shape) (hrank : rank < ranks)
    (hl : l < locals) (hu : u.shape = shape) :
    ∃ out, writeExpert casts rank l destination u = .ok out ∧ out.shape = destination.shape ∧
      out.dtype = destination.dtype ∧
      (∀ idx, Tensor.InRange shape idx →
        out.get (rank :: l :: idx) = casts.convert u.dtype destination.dtype (u.get idx)) ∧
      ∀ r k idx, ¬ (r = rank ∧ k = l) → out.get (r :: k :: idx) = destination.get (r :: k :: idx) := by
  let old : Weight α := ⟨shape, destination.dtype, fun idx => destination.get (rank :: l :: idx)⟩
  obtain ⟨row, hrow, hsame⟩ :=
    Tensor.copyFrom_same casts.convert (show old.shape = u.shape from hu.symm)
  unfold writeExpert
  rw [hshape]
  dsimp only
  rw [if_pos ⟨hrank, hl⟩, hrow]
  refine ⟨_, rfl, rfl, rfl, fun idx hidx => ?_, fun r k idx hne => if_neg hne⟩
  exact (if_pos ⟨rfl, rfl⟩).trans (hsame.get idx (by rw [hsame.shape]; exact hu ▸ hidx))

/-- The experts of one rank, written one by one. -/
theorem writeRank_ok {rank : Nat} {ids : List Nat} {shape : List Nat} {t destination : Weight α}
    (h : Rows casts policy lookup dtype shape t) (hrank : rank < policy.ranks)
    (hids : policy.idsFor rank = .ok ids) (hlen : ids.length = policy.nExperts / policy.ranks)
    (hshape : destination.shape = t.shape) (hdtype : destination.dtype = dtype) :
    ∃ out, ids.zipIdx.foldlM (fun destination (e, l) => do
        writeExpert casts rank l destination (← lookup e)) destination = .ok out ∧
      out.shape = t.shape ∧ out.dtype = dtype ∧
      (∀ l < ids.length, ∀ idx, Tensor.InRange shape idx →
        out.get (rank :: l :: idx) = t.get (rank :: l :: idx)) ∧
      ∀ r k idx, r ≠ rank → out.get (r :: k :: idx) = destination.get (r :: k :: idx) := by
  obtain ⟨out, hout, -, hs, hd, hdone, hframe⟩ := Fallible.foldlM_total
    (I := fun rest out => (∀ p ∈ rest, p ∈ ids.zipIdx) ∧ out.shape = t.shape ∧ out.dtype = dtype ∧
      (∀ l < ids.length, (∀ p ∈ rest, p.2 ≠ l) → ∀ idx, Tensor.InRange shape idx →
        out.get (rank :: l :: idx) = t.get (rank :: l :: idx)) ∧
      ∀ r k idx, r ≠ rank → out.get (r :: k :: idx) = destination.get (r :: k :: idx))
    (f := fun destination (e, l) => do writeExpert casts rank l destination (← lookup e))
    (by
      rintro ⟨e, l⟩ rest out ⟨hmem, hs, hd, hdone, hframe⟩
      have hl : ids[l]? = some e := List.mk_mem_zipIdx_iff_getElem?.mp (hmem (e, l) (by simp))
      obtain ⟨u, hu, hushape, huget⟩ := h.row rank hrank ids hids l e hl
      obtain ⟨hlt, -⟩ := List.getElem?_eq_some_iff.mp hl
      obtain ⟨out', hout', hs', hd', hwrite, hkeep⟩ := @writeExpert_ok _ casts _ _ _ _ _ _ _
        (hs.trans h.shape_eq) hrank (hlen ▸ hlt) hushape
      refine ⟨out', Fallible.bind_eq_ok.mpr ⟨u, hu, hout'⟩, fun p hp => hmem p (by simp [hp]),
        hs'.trans hs, hd'.trans hd, ?_, ?_⟩
      · intro l' hl' hrest idx hidx
        by_cases heq : l' = l
        · subst heq
          rw [hwrite idx hidx, hd, huget]
        · rw [hkeep rank l' idx (by simp [heq])]
          refine hdone l' hl' (fun p hp => ?_) idx hidx
          rcases List.mem_cons.mp hp with rfl | hp
          · exact fun hpl => heq hpl.symm
          · exact hrest p hp
      · intro r k idx hr
        rw [hkeep r k idx (by simp [hr]), hframe r k idx hr])
    ids.zipIdx destination
    ⟨fun p hp => hp, hshape, hdtype, fun l hl hnot => absurd rfl (hnot (ids[l], l)
      (List.mk_mem_zipIdx_iff_getElem?.mpr (List.getElem?_eq_getElem hl))), fun _ _ _ _ => rfl⟩
  exact ⟨out, hout, hs, hd, fun l hl => hdone l hl (by simp), hframe⟩

/-- A destination of the packed shape receives what is packed without it. -/
theorem apply_into {name : String} {t destination : Weight α} (hranks : 0 < policy.ranks)
    (hids : ∀ rank < policy.ranks, ∃ ids, policy.idsFor rank = .ok ids ∧
      ids.length = policy.nExperts / policy.ranks)
    (hfirst : ∃ rank < policy.ranks, ∃ ids, policy.idsFor rank = .ok ids ∧ 0 ∈ ids)
    (h : policy.apply casts name lookup dtype none = .ok t)
    (hshape : destination.shape = t.shape) (hdtype : destination.dtype = t.dtype) :
    ∃ t', policy.apply casts name lookup dtype (some destination) = .ok t' ∧ t'.Same t := by
  obtain ⟨shape, hrows⟩ := rows_of_apply hranks hids h
  obtain ⟨rank₀, hrank₀, ids₀, hids₀, hzero⟩ := hfirst
  obtain ⟨l₀, hl₀⟩ := List.mem_iff_getElem?.mp hzero
  obtain ⟨first, hlookup, hfshape, -⟩ := hrows.row rank₀ hrank₀ ids₀ hids₀ l₀ 0 hl₀
  have hcheck : checkDestination policy.mismatchError name
      (policy.ranks :: (policy.nExperts / policy.ranks) :: first.shape) dtype destination =
        .ok () :=
    checkDestination_ok (hshape.trans (hfshape ▸ hrows.shape_eq)) (hdtype.trans hrows.dtype_eq)
  obtain ⟨out, hout, -, hos, hod, hrank⟩ := Fallible.foldlM_total
    (I := fun rest out => (∀ r ∈ rest, r < policy.ranks) ∧ out.shape = t.shape ∧
      out.dtype = dtype ∧ ∀ r < policy.ranks, r ∉ rest →
        ∀ l < policy.nExperts / policy.ranks, ∀ idx, Tensor.InRange shape idx →
          out.get (r :: l :: idx) = t.get (r :: l :: idx))
    (f := fun destination rank => do
      let ids ← policy.idsFor rank
      ids.zipIdx.foldlM (fun destination (expertId, localIndex) => do
        writeExpert casts rank localIndex destination (← lookup expertId)) destination)
    (by
      rintro rank rest out ⟨hmem, hs, hd, hdone⟩
      have hrank := hmem rank (by simp)
      obtain ⟨ids, hids, hlen⟩ := hids rank hrank
      obtain ⟨out', hout', hs', hd', hwrite, hkeep⟩ := writeRank_ok hrows hrank hids hlen hs hd
      refine ⟨out', Fallible.bind_eq_ok.mpr ⟨ids, hids, hout'⟩, fun r hr => hmem r (by simp [hr]),
        hs', hd', fun r hr hrest l hl idx hidx => ?_⟩
      by_cases heq : r = rank
      · subst heq
        exact hwrite l (by omega) idx hidx
      · rw [hkeep r l idx heq]
        exact hdone r hr (by simp [heq, hrest]) l hl idx hidx)
    (List.range policy.ranks) destination
    ⟨fun r hr => List.mem_range.mp hr, hshape, hdtype.trans hrows.dtype_eq,
      fun r hr hnot => absurd (List.mem_range.mpr hr) hnot⟩
  refine ⟨out, ?_, hos, hod.trans hrows.dtype_eq.symm, ?_⟩
  · show (if policy.ranks = 0 then _ else _) = _
    rw [if_neg (by omega)]
    exact Fallible.bind_eq_ok.mpr ⟨first, hlookup, Fallible.bind_eq_ok.mpr ⟨(), hcheck, hout⟩⟩
  · intro idx hidx
    rw [hos, hrows.shape_eq] at hidx
    cases hidx with
    | cons hr hrest =>
      cases hrest with
      | cons hl hrest => exact hrank _ hr (by simp) _ hl _ hrest

end ExpertParallel

/-- `deepseek_v4_expert_parallel`. -/
def deepseekV4ExpertParallel (ranks nRoutedExperts : Nat) (mismatchError : MismatchError) :
    ExpertParallel :=
  { ranks, nExperts := nRoutedExperts, localIds := deepseekV4LocalExpertIds, mismatchError }

section Placement
variable {ranks n : Nat} {mismatchError : MismatchError}

theorem idsFor_ok (hn : 0 < n) (hdvd : ranks ∣ n) {rank : Nat} (hrank : rank < ranks) :
    (deepseekV4ExpertParallel ranks n mismatchError).idsFor rank =
      .ok (List.range' (rank * (n / ranks)) (n / ranks)) := by
  show deepseekV4LocalExpertIds rank ranks n = _
  unfold deepseekV4LocalExpertIds
  rw [if_neg (by omega), if_neg (by omega), if_neg (by omega),
    if_neg (not_not.mpr (Nat.mod_eq_zero_of_dvd hdvd))]

/-- Every expert is placed once, on one rank. -/
theorem expert_placed_once (hn : 0 < n) (hdvd : ranks ∣ n) {e : Nat} (he : e < n) :
    ∃! p : Nat × Nat, p.1 < ranks ∧ ∃ ids,
      (deepseekV4ExpertParallel ranks n mismatchError).idsFor p.1 = .ok ids ∧
        ids[p.2]? = some e := by
  obtain ⟨k, rfl⟩ := hdvd
  have hranks : 0 < ranks := Nat.pos_of_mul_pos_right hn
  have hk : 0 < k := Nat.pos_of_mul_pos_left hn
  have hdiv : ranks * k / ranks = k := Nat.mul_div_cancel_left k hranks
  have hrow (rank l : Nat) : (List.range' (rank * k) k)[l]? = some e ↔
      l < k ∧ rank * k + l = e := by
    by_cases hl : l < k
    · rw [List.getElem?_range' hl, Nat.one_mul]
      simp [hl]
    · rw [List.getElem?_eq_none (by simpa using hl)]
      simp [hl]
  have hdm := Nat.div_add_mod e k
  have hmod := Nat.mod_lt e hk
  refine ⟨(e / k, e % k), ⟨Nat.div_lt_of_lt_mul (by rwa [Nat.mul_comm]), _,
    idsFor_ok hn ⟨k, rfl⟩ (Nat.div_lt_of_lt_mul (by rwa [Nat.mul_comm])), ?_⟩, ?_⟩
  · rw [hdiv, hrow]
    exact ⟨hmod, by rw [Nat.mul_comm, hdm]⟩
  · rintro ⟨rank, l⟩ ⟨hrank, ids, hids, hl⟩
    rw [idsFor_ok hn ⟨k, rfl⟩ hrank] at hids
    cases hids
    rw [hdiv, hrow] at hl
    obtain ⟨hlk, rfl⟩ := hl
    rw [Nat.add_comm, Nat.add_mul_div_right _ _ hk, Nat.div_eq_of_lt hlk, Nat.add_mul_mod_self_right,
      Nat.mod_eq_of_lt hlk, Nat.zero_add]

end Placement

end PyptoServing.Weights
