import Mathlib

/-!
# Tensors read at multi-indices

Slices along an axis, writes into a slice, and concatenation. Two tensors are the same when
they agree at the indices of their shape; a tensor whose slices are the same as some parts is
the same as their concatenation.
-/
namespace PyptoServing.Lib

/-- An array with a shape and an element type. -/
structure Tensor (δ α : Type) where
  shape : List Nat
  dtype : δ
  get : List Nat → α

namespace Tensor
variable {δ α : Type} {t u v : Tensor δ α} {axis start w : Nat} {idx : List Nat}

def InRange (shape idx : List Nat) : Prop := List.Forall₂ (· < ·) idx shape

/-- Equal at every index of the shape. -/
structure Same (t u : Tensor δ α) : Prop where
  shape : t.shape = u.shape
  dtype : t.dtype = u.dtype
  get : ∀ idx, InRange t.shape idx → t.get idx = u.get idx

/-- The width of a tensor along an axis. -/
def width (t : Tensor δ α) (axis : Nat) : Nat := t.shape.getD axis 0

/-- `t.narrow(axis, start, width)`. -/
def narrow (t : Tensor δ α) (axis start w : Nat) : Tensor δ α where
  shape := t.shape.set axis w
  dtype := t.dtype
  get idx := t.get (idx.modify axis (start + ·))

/-- The tensor after its slice from `start` on was overwritten. -/
def assign (t : Tensor δ α) (axis start : Nat) (part : Tensor δ α) : Tensor δ α where
  shape := t.shape
  dtype := t.dtype
  get idx :=
    if start ≤ idx.getD axis 0 ∧ idx.getD axis 0 < start + part.width axis then
      part.get (idx.modify axis (· - start))
    else t.get idx

def catGet (axis : Nat) : Tensor δ α → List (Tensor δ α) → List Nat → α
  | t, [], idx => t.get idx
  | t, u :: rest, idx =>
    if idx.getD axis 0 < t.width axis then t.get idx
    else catGet axis u rest (idx.modify axis (· - t.width axis))

/-- The concatenation of a nonempty list along an axis. -/
def cat (axis : Nat) (t : Tensor δ α) (rest : List (Tensor δ α)) : Tensor δ α where
  shape := t.shape.set axis ((t :: rest).map (·.width axis)).sum
  dtype := t.dtype
  get := catGet axis t rest

def full (shape : List Nat) (dtype : δ) (a : α) : Tensor δ α := ⟨shape, dtype, fun _ => a⟩

/-- `t.to(dtype)`, given the conversions. -/
def cast (convert : δ → δ → α → α) (t : Tensor δ α) (dtype : δ) : Tensor δ α :=
  ⟨t.shape, dtype, fun idx => convert t.dtype dtype (t.get idx)⟩

/-- `t.transpose(0, 1)`. -/
def transpose (t : Tensor δ α) : Except String (Tensor δ α) :=
  match t.shape with
  | a :: b :: rest => .ok ⟨b :: a :: rest, t.dtype, fun
    | i :: j :: idx => t.get (j :: i :: idx)
    | idx => t.get idx⟩
  | _ => .error "Dimension out of range"

/-- The place of an index in the flattened tensor. -/
def ravel (shape idx : List Nat) : Nat := (shape.zip idx).foldl (fun n (s, i) => n * s + i) 0

def unravel : List Nat → Nat → List Nat
  | [], _ => []
  | _ :: rest, n => n / rest.prod :: unravel rest (n % rest.prod)

def reshape (t : Tensor δ α) (shape : List Nat) : Tensor δ α :=
  ⟨shape, t.dtype, fun idx => t.get (unravel t.shape (ravel shape idx))⟩

/-- `t.unsqueeze(0).expand(n, *t.shape)`. -/
def expand (t : Tensor δ α) (n : Nat) : Tensor δ α :=
  ⟨n :: t.shape, t.dtype, fun idx => t.get idx.tail⟩

/-- `torch.stack(parts, dim=0)`. -/
def stack : List (Tensor δ α) → Except String (Tensor δ α)
  | [] => .error "stack expects a non-empty TensorList"
  | t :: rest =>
    if rest.all fun u => u.shape = t.shape then
      .ok ⟨(rest.length + 1) :: t.shape, t.dtype, fun idx =>
        ((t :: rest).getD (idx.headD 0) t).get idx.tail⟩
    else .error "stack expects each tensor to be equal size"

def broadcastable (src dst : List Nat) : Bool :=
  src.length ≤ dst.length &&
    (src.zip (dst.drop (dst.length - src.length))).all fun (s, d) => s = d || s = 1

def broadcastIndex (src idx : List Nat) : List Nat :=
  List.zipWith (fun s i => if s = 1 then 0 else i) src (idx.drop (idx.length - src.length))

/-- `dst.copy_(src)`. -/
def copyFrom (convert : δ → δ → α → α) (dst src : Tensor δ α) : Except String (Tensor δ α) :=
  if broadcastable src.shape dst.shape then
    .ok ⟨dst.shape, dst.dtype, fun idx =>
      convert src.dtype dst.dtype (src.get (broadcastIndex src.shape idx))⟩
  else .error "The size of tensor must match the size of tensor"

theorem inRange_iff {shape : List Nat} : InRange shape idx ↔
    idx.length = shape.length ∧ ∀ i < shape.length, idx.getD i 0 < shape.getD i 0 := by
  unfold InRange
  rw [List.forall₂_iff_get]
  refine and_congr_right fun hlen => ?_
  constructor
  · intro h i hi
    have hget := h i (by omega) hi
    simpa [List.getD_eq_getElem?_getD, List.getElem?_eq_getElem, hi, hlen] using hget
  · intro h i hi hi'
    have hget := h i hi'
    simpa [List.getD_eq_getElem?_getD, List.getElem?_eq_getElem, hi', hi] using hget

theorem getD_modify_self {f : Nat → Nat} (h : axis < idx.length) :
    (idx.modify axis f).getD axis 0 = f (idx.getD axis 0) := by
  simp [List.getD_eq_getElem?_getD, List.getElem?_eq_getElem h]

theorem getD_modify_ne {f : Nat → Nat} {i : Nat} (h : axis ≠ i) :
    (idx.modify axis f).getD i 0 = idx.getD i 0 := by
  simp [List.getD_eq_getElem?_getD, h]

theorem getD_set_self {shape : List Nat} (h : axis < shape.length) :
    (shape.set axis w).getD axis 0 = w := by
  rw [List.getD_eq_getElem?_getD, List.getElem?_set_self h]
  rfl

theorem getD_set_ne {shape : List Nat} {i : Nat} (h : axis ≠ i) :
    (shape.set axis w).getD i 0 = shape.getD i 0 := by
  rw [List.getD_eq_getElem?_getD, List.getElem?_set_ne h, List.getD_eq_getElem?_getD]

/-- Shifting an index along an axis. -/
theorem InRange.modify {shape : List Nat} {f : Nat → Nat} {w : Nat} (h : InRange shape idx)
    (hf : axis < shape.length → f (idx.getD axis 0) < w) :
    InRange (shape.set axis w) (idx.modify axis f) := by
  rw [inRange_iff] at h ⊢
  obtain ⟨hlen, hlt⟩ := h
  rw [List.length_modify, List.length_set]
  refine ⟨hlen, fun i hi => ?_⟩
  by_cases hia : axis = i
  · subst hia
    rw [getD_modify_self (by omega), getD_set_self hi]
    exact hf hi
  · rw [getD_modify_ne hia, getD_set_ne hia]
    exact hlt i hi

theorem InRange.slice {shape : List Nat} (h : InRange (shape.set axis w) idx)
    (haxis : axis < shape.length) : idx.length = shape.length ∧ idx.getD axis 0 < w := by
  obtain ⟨hlen, hlt⟩ := inRange_iff.mp h
  rw [List.length_set] at hlen hlt
  have hi := hlt axis haxis
  rw [getD_set_self haxis] at hi
  exact ⟨hlen, hi⟩

/-- The same index in a slice of another width. -/
theorem InRange.resize {shape : List Nat} {w' : Nat} (h : InRange (shape.set axis w) idx)
    (hi : idx.getD axis 0 < w') : InRange (shape.set axis w') idx := by
  have hsame : InRange ((shape.set axis w).set axis w') (idx.modify axis id) :=
    h.modify fun _ => hi
  rwa [List.modify_id, List.set_set] at hsame

theorem modify_congr {f g : Nat → Nat} (h : f (idx.getD axis 0) = g (idx.getD axis 0)) :
    idx.modify axis f = idx.modify axis g := by
  apply List.ext_getElem
  · simp
  · intro i hi _
    have hlt : i < idx.length := by simpa using hi
    rw [List.getElem_modify, List.getElem_modify]
    split
    next heq =>
      subst heq
      simpa [List.getD_eq_getElem?_getD, List.getElem?_eq_getElem hlt] using h
    next => rfl

/-- Shifting there and back. -/
theorem modify_add_sub : (idx.modify axis (start + ·)).modify axis (· - start) = idx := by
  rw [List.modify_modify_eq]
  refine (modify_congr (g := id) ?_).trans (List.modify_id axis idx)
  show start + idx.getD axis 0 - start = idx.getD axis 0
  omega

theorem Same.refl (t : Tensor δ α) : t.Same t := ⟨rfl, rfl, fun _ _ => rfl⟩

theorem Same.trans (h : t.Same u) (h' : u.Same v) : t.Same v :=
  ⟨h.shape.trans h'.shape, h.dtype.trans h'.dtype,
    fun idx hidx => (h.get idx hidx).trans (h'.get idx (h.shape ▸ hidx))⟩

theorem Same.width (h : t.Same u) : t.width axis = u.width axis := by
  unfold Tensor.width
  rw [h.shape]

/-- A slice holds what was written into it. -/
theorem narrow_assign {part : Tensor δ α} (haxis : axis < t.shape.length)
    (hshape : part.shape = t.shape.set axis (part.width axis)) (hdtype : part.dtype = t.dtype) :
    ((t.assign axis start part).narrow axis start (part.width axis)).Same part where
  shape := hshape.symm
  dtype := hdtype.symm
  get idx hidx := by
    obtain ⟨hlen, hi⟩ := InRange.slice (show InRange (t.shape.set axis _) idx from hidx) haxis
    have hshift : (idx.modify axis (start + ·)).getD axis 0 = start + idx.getD axis 0 :=
      getD_modify_self (by omega)
    show ite _ _ _ = _
    rw [if_pos (by rw [hshift]; omega), modify_add_sub]

/-- A write leaves the slices beside it alone. -/
theorem narrow_assign_beside {part : Tensor δ α} {start' w' : Nat} (haxis : axis < t.shape.length)
    (h : start' + w' ≤ start ∨ start + part.width axis ≤ start') :
    ((t.assign axis start part).narrow axis start' w').Same (t.narrow axis start' w') where
  shape := rfl
  dtype := rfl
  get idx hidx := by
    obtain ⟨hlen, hi⟩ := InRange.slice (show InRange (t.shape.set axis _) idx from hidx) haxis
    have hshift : (idx.modify axis (start' + ·)).getD axis 0 = start' + idx.getD axis 0 :=
      getD_modify_self (by omega)
    show ite _ _ _ = _
    rw [if_neg (by rw [hshift]; omega)]
    rfl

theorem get_eq_catGet (haxis : axis < t.shape.length) {rest : List (Tensor δ α)} :
    ∀ {part : Tensor δ α} {s : Nat} {idx : List Nat}, (∀ p ∈ part :: rest, p.width axis = w) →
      InRange (t.shape.set axis ((rest.length + 1) * w)) idx →
      (∀ (j : Nat) (hj : j < (part :: rest).length),
        (t.narrow axis (s + j * w) w).Same (part :: rest)[j]) →
      t.get (idx.modify axis (s + ·)) = catGet axis part rest idx := by
  induction rest with
  | nil =>
    intro part s idx hw hidx h
    have hsame := h 0 (by simp)
    rw [Nat.zero_mul, Nat.add_zero] at hsame
    rw [List.length_nil, Nat.zero_add, Nat.one_mul] at hidx
    exact hsame.get idx hidx
  | cons u rest ih =>
    intro part s idx hw hidx h
    obtain ⟨hlen, hi⟩ := hidx.slice haxis
    have hpart := hw part (by simp)
    rw [catGet, hpart]
    split
    next hfirst =>
      have hsame := h 0 (by simp)
      rw [Nat.zero_mul, Nat.add_zero] at hsame
      exact hsame.get idx (hidx.resize hfirst)
    next hlater =>
      have hrest : (rest.length + 1 + 1) * w = (rest.length + 1) * w + w := Nat.succ_mul _ _
      have hnext : t.get ((idx.modify axis (· - w)).modify axis (s + w + ·)) =
          catGet axis u rest (idx.modify axis (· - w)) :=
        ih (fun p hp => hw p (List.mem_cons_of_mem _ hp)) ?_ ?_
      · rw [← hnext, List.modify_modify_eq]
        refine congrArg t.get (modify_congr ?_)
        show s + idx.getD axis 0 = s + w + (idx.getD axis 0 - w)
        omega
      · have hshift : InRange ((t.shape.set axis (((u :: rest).length + 1) * w)).set axis
            ((rest.length + 1) * w)) (idx.modify axis (· - w)) :=
          hidx.modify fun _ => by
            rw [List.length_cons] at hi
            omega
        rwa [List.set_set] at hshift
      · intro j hj
        have hslice := h (j + 1) (by simpa using hj)
        rw [Nat.succ_mul, Nat.add_comm (j * w) w, ← Nat.add_assoc] at hslice
        exact hslice

theorem sum_widths {l : List (Tensor δ α)} (hw : ∀ p ∈ l, p.width axis = w) :
    (l.map (·.width axis)).sum = l.length * w := by
  rw [List.map_congr_left hw, List.map_const', List.sum_replicate_nat]

/-- Slices that are the same as some parts make up their concatenation. -/
theorem same_cat {part : Tensor δ α} {rest : List (Tensor δ α)} (haxis : axis < t.shape.length)
    (hw : ∀ p ∈ part :: rest, p.width axis = w) (hfull : t.width axis = (rest.length + 1) * w)
    (h : ∀ (j : Nat) (hj : j < (part :: rest).length),
      (t.narrow axis (j * w) w).Same (part :: rest)[j]) : t.Same (cat axis part rest) := by
  have hwidth : t.shape = t.shape.set axis ((rest.length + 1) * w) := by
    rw [← hfull, Tensor.width, List.getD_eq_getElem?_getD, List.getElem?_eq_getElem haxis,
      Option.getD_some, List.set_getElem_self]
  constructor
  · have hfirst := (h 0 (by simp)).shape
    have hsum := sum_widths hw
    show t.shape = List.set _ _ (List.sum _)
    rw [hsum]
    have hpart : part.shape = t.shape.set axis w := hfirst.symm
    rw [hpart, List.set_set]
    exact hwidth
  · exact (h 0 (by simp)).dtype
  · intro idx hidx
    rw [hwidth] at hidx
    have hget := get_eq_catGet haxis (s := 0) hw hidx fun j hj => by
      rw [Nat.zero_add]
      exact h j hj
    rw [show idx.modify axis (0 + ·) = idx from
      (modify_congr (g := id) (Nat.zero_add _)).trans (List.modify_id axis idx)] at hget
    exact hget

theorem broadcastIndex_self {shape : List Nat} (h : InRange shape idx) :
    broadcastIndex shape idx = idx := by
  have hlen := h.length_eq
  unfold broadcastIndex
  rw [hlen, Nat.sub_self, List.drop_zero]
  induction h with
  | nil => rfl
  | cons hi _ ih =>
    rw [List.zipWith_cons_cons, ih (by simpa using hlen)]
    congr 1
    split <;> omega

theorem eq_of_mem_zip_self {l : List Nat} {a b : Nat} (h : (a, b) ∈ l.zip l) : a = b := by
  induction l with
  | nil => simp at h
  | cons x l ih =>
    rw [List.zip_cons_cons, List.mem_cons] at h
    rcases h with h | h
    · cases h
      rfl
    · exact ih h

theorem broadcastable_self (shape : List Nat) : broadcastable shape shape = true := by
  unfold broadcastable
  rw [Nat.sub_self, List.drop_zero]
  simp only [Nat.le_refl, decide_true, Bool.true_and, List.all_eq_true]
  rintro ⟨a, b⟩ hab
  simp [eq_of_mem_zip_self hab]

/-- A copy between equal shapes converts every element. -/
theorem copyFrom_same (convert : δ → δ → α → α) {dst src : Tensor δ α}
    (h : dst.shape = src.shape) : ∃ out, dst.copyFrom convert src = .ok out ∧
      out.Same (src.cast convert dst.dtype) := by
  refine ⟨_, if_pos (by rw [h]; exact broadcastable_self _), h, rfl, fun idx hidx => ?_⟩
  show convert _ _ (src.get (broadcastIndex src.shape idx)) = convert _ _ (src.get idx)
  rw [broadcastIndex_self (show InRange src.shape idx from h ▸ hidx)]

/-- A copy of one row into every row. -/
theorem copyFrom_expand (convert : δ → δ → α → α) {dst src : Tensor δ α} {n : Nat}
    (h : dst.shape = n :: src.shape) : ∃ out, dst.copyFrom convert (src.expand 1) = .ok out ∧
      out.Same ((src.cast convert dst.dtype).expand n) := by
  have hfits : broadcastable (src.expand 1).shape dst.shape = true := by
    have hself := broadcastable_self src.shape
    rw [h]
    unfold broadcastable at hself ⊢
    simpa [expand] using hself
  refine ⟨_, if_pos hfits, h, rfl, fun idx hidx => ?_⟩
  rw [show (Tensor.mk dst.shape _ _ : Tensor δ α).shape = n :: src.shape from h] at hidx
  cases hidx with
  | cons hi hrest =>
    show convert _ _ (src.get (broadcastIndex (1 :: src.shape) (_ :: _)).tail) = _
    have hrow := broadcastIndex_self hrest
    unfold broadcastIndex at hrow ⊢
    rw [hrest.length_eq, Nat.sub_self, List.drop_zero] at hrow
    rw [List.length_cons, List.length_cons, hrest.length_eq, Nat.sub_self, List.drop_zero,
      List.zipWith_cons_cons, List.tail_cons, hrow]
    rfl

theorem Same.expand (h : t.Same u) (n : Nat) : (t.expand n).Same (u.expand n) where
  shape := congrArg (n :: ·) h.shape
  dtype := h.dtype
  get idx hidx := by
    cases hidx with
    | cons _ hrest => exact h.get _ hrest

/-- What a stack of tensors is. -/
theorem stack_ok {parts : List (Tensor δ α)} (h : stack parts = .ok t) :
    ∃ shape, t.shape = parts.length :: shape ∧ (∀ p ∈ parts, p.shape = shape) ∧
      (∀ d, (∀ p ∈ parts, p.dtype = d) → t.dtype = d) ∧
      ∀ (i : Nat) (p : Tensor δ α), parts[i]? = some p → ∀ idx, t.get (i :: idx) = p.get idx := by
  cases parts with
  | nil => cases h
  | cons p rest =>
    rw [stack] at h
    split at h
    next hall =>
      cases h
      refine ⟨p.shape, rfl, ?_, fun d hd => hd p (by simp), ?_⟩
      · intro q hq
        rcases List.mem_cons.mp hq with rfl | hq
        · rfl
        · exact of_decide_eq_true (List.all_eq_true.mp hall q hq)
      · intro i q hq idx
        show ((p :: rest).getD i p).get idx = q.get idx
        rw [List.getD_eq_getElem?_getD, hq, Option.getD_some]
    next => cases h

end Tensor
end PyptoServing.Lib
