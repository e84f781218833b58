import PyptoServing.Lib.Tensor

/-!
# Elementwise tensor operations

Maps, products, stacking along a new last axis and repeated entries, and what they read at the
indices of a matrix.
-/
namespace PyptoServing.Lib.Tensor

variable {δ δ' α β γ : Type}

/-- A function of every element, as elements of another type. -/
def mapAs (t : Tensor δ α) (dtype : δ') (f : α → β) : Tensor δ' β :=
  ⟨t.shape, dtype, fun idx => f (t.get idx)⟩

/-- A function of the elements of two tensors of one shape. -/
def zipWith (f : α → β → γ) (t : Tensor δ α) (u : Tensor δ β) : Except String (Tensor δ γ) :=
  if t.shape = u.shape then .ok ⟨t.shape, t.dtype, fun idx => f (t.get idx) (u.get idx)⟩
  else .error "The size of tensor a must match the size of tensor b"

/-- `torch.stack((t, *rest), dim=-1)` of tensors of one shape. -/
def stackLast (t : Tensor δ α) (rest : List (Tensor δ α)) : Tensor δ α :=
  ⟨t.shape ++ [rest.length + 1], t.dtype, fun idx =>
    ((t :: rest).getD (idx.getLastD 0) t).get idx.dropLast⟩

/-- `t.repeat_interleave(n, dim=axis)`. -/
def repeatInterleave (t : Tensor δ α) (n axis : Nat) : Tensor δ α :=
  ⟨t.shape.modify axis (· * n), t.dtype, fun idx => t.get (idx.modify axis (· / n))⟩

theorem ravel_matrix (rows cols i j : Nat) : ravel [rows, cols] [i, j] = i * cols + j := by
  simp [ravel]

theorem ravel_matrix_lt {rows cols i j : Nat} (hi : i < rows) (hj : j < cols) :
    i * cols + j < rows * cols := by
  calc i * cols + j < i * cols + cols := by omega
    _ = (i + 1) * cols := by ring
    _ ≤ rows * cols := Nat.mul_le_mul_right cols hi

/-- Pairs along a last axis of two, flattened into the rows. -/
theorem reshape_pairs {t : Tensor δ α} {rows cols i j : Nat} (ht : t.shape = [rows, cols, 2])
    (hj : j < cols * 2) : (t.reshape [rows, cols * 2]).get [i, j] = t.get [i, j / 2, j % 2] := by
  unfold reshape
  dsimp only
  rw [ht, ravel_matrix]
  have hpos : 0 < cols * 2 := Nat.zero_lt_of_lt hj
  have hdiv : (i * (cols * 2) + j) / (cols * 2) = i := by
    rw [Nat.mul_comm, Nat.mul_add_div hpos, Nat.div_eq_of_lt hj, Nat.add_zero]
  have hmod : (i * (cols * 2) + j) % (cols * 2) = j := by
    rw [Nat.mul_comm, Nat.mul_add_mod, Nat.mod_eq_of_lt hj]
  simp [unravel, hdiv, hmod]

end PyptoServing.Lib.Tensor
