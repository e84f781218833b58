import Mathlib

/-!
# Sessions

A session is made by its first use, remembers what it was used for, and ends when it is
dropped or used under another tag. Every use finds all earlier ones exactly when nothing
drops the session between two uses and all uses have one tag.
-/
namespace PyptoServing.Lib.Session

variable {τ α : Type*}

inductive Op (τ α : Type*)
  | use (tag : τ) (item : α)
  | drop
  deriving DecidableEq

/-- The tag of the session and what it was used for, oldest first. -/
abbrev State (τ α : Type*) := Option (τ × List α)

/-- What a use under a tag finds. -/
def past [DecidableEq τ] (s : State τ α) (tag : τ) : List α :=
  match s with
  | none => []
  | some (t, l) => if t = tag then l else []

def step [DecidableEq τ] (s : State τ α) : Op τ α → State τ α
  | .use tag item => some (tag, past s tag ++ [item])
  | .drop => none

def run [DecidableEq τ] (ops : List (Op τ α)) : State τ α := ops.foldl step none

/-- What all uses were for. -/
def items (ops : List (Op τ α)) : List α :=
  ops.filterMap fun
    | .use _ item => some item
    | .drop => none

/-- Every use finds all earlier ones. -/
def Whole [DecidableEq τ] (ops : List (Op τ α)) : Prop :=
  ∀ before tag item after, ops = before ++ .use tag item :: after →
    past (run before) tag = items before

/-- Nothing drops the session between two uses, and all uses have one tag. -/
def Undisturbed (ops : List (Op τ α)) : Prop :=
  ∀ before t x mid u y after, ops = before ++ .use t x :: (mid ++ .use u y :: after) →
    Op.drop ∉ mid ∧ t = u

section Append
variable {ops : List (Op τ α)} {op : Op τ α}

/-- A split of a longer list is a split of the list, or its new element. -/
theorem snoc_split {β : Type*} {l before after : List β} {a b : β}
    (h : l ++ [a] = before ++ b :: after) :
    (after = [] ∧ b = a ∧ before = l) ∨ ∃ rest, after = rest ++ [a] ∧ l = before ++ b :: rest := by
  rcases List.eq_nil_or_concat after with rfl | ⟨rest, c, rfl⟩
  · obtain ⟨rfl, hb⟩ := List.append_inj' h rfl
    exact .inl ⟨rfl, (List.cons.inj hb).1.symm, rfl⟩
  · rw [List.concat_eq_append, ← List.cons_append, ← List.append_assoc] at h
    obtain ⟨rfl, hc⟩ := List.append_inj' h rfl
    exact .inr ⟨rest, by rw [List.concat_eq_append, (List.cons.inj hc).1], rfl⟩

theorem whole_snoc [DecidableEq τ] : Whole (ops ++ [op]) ↔
    Whole ops ∧ ∀ tag item, op = .use tag item → past (run ops) tag = items ops := by
  constructor
  · refine fun h => ⟨fun before tag item after hops => ?_, fun tag item hop => ?_⟩
    · exact h before tag item (after ++ [op]) (by rw [hops]; simp)
    · exact h ops tag item [] (by rw [hop])
  · rintro ⟨h, hlast⟩ before tag item after hops
    rcases snoc_split hops with ⟨-, hop, rfl⟩ | ⟨rest, -, rfl⟩
    · exact hlast tag item hop.symm
    · exact h before tag item rest rfl

theorem undisturbed_snoc : Undisturbed (ops ++ [op]) ↔
    Undisturbed ops ∧ ∀ u y, op = .use u y → ∀ before t x mid, ops = before ++ .use t x :: mid →
      Op.drop ∉ mid ∧ t = u := by
  constructor
  · refine fun h => ⟨fun before t x mid u y after hops => ?_, fun u y hop before t x mid hops => ?_⟩
    · exact h before t x mid u y (after ++ [op]) (by rw [hops]; simp)
    · exact h before t x mid u y [] (by rw [hops, hop]; simp)
  · rintro ⟨h, hlast⟩ before t x mid u y after hops
    have hops' : ops ++ [op] = (before ++ .use t x :: mid) ++ .use u y :: after := by
      rw [hops]
      simp
    rcases snoc_split hops' with ⟨-, hop, hsplit⟩ | ⟨rest, -, rfl⟩
    · exact hlast u y hop.symm before t x mid hsplit.symm
    · exact h before t x mid u y rest (by simp)

theorem items_ne_nil {before mid : List (Op τ α)} {t : τ} {x : α} :
    items (before ++ .use t x :: mid) ≠ [] := by
  simp [items]

theorem exists_use (h : items ops ≠ []) : ∃ before t x mid, ops = before ++ .use t x :: mid := by
  obtain ⟨item, hitem⟩ := List.exists_mem_of_ne_nil _ h
  obtain ⟨op, hop, hval⟩ := List.mem_filterMap.mp hitem
  cases op with
  | use t x =>
    obtain ⟨before, mid, hops⟩ := List.append_of_mem hop
    exact ⟨before, t, x, mid, hops⟩
  | drop => cases hval

/-- A session that is never dropped and has one tag. -/
theorem undisturbed_of_tag (tag : τ) (hdrop : Op.drop ∉ ops)
    (htag : ∀ t x, .use t x ∈ ops → t = tag) : Undisturbed ops := by
  rintro before t x mid u y after rfl
  refine ⟨fun hmem => hdrop (by simp [hmem]), ?_⟩
  rw [htag t x (by simp), htag u y (by simp)]

end Append

variable [DecidableEq τ] {ops : List (Op τ α)}

/-- The state behind uses that all found the whole past. -/
def Describes (ops : List (Op τ α)) : State τ α → Prop
  | none => ∀ before t x mid, ops = before ++ .use t x :: mid → Op.drop ∈ mid
  | some (t, l) => l = items ops ∧ ∃ before x mid, ops = before ++ .use t x :: mid ∧ Op.drop ∉ mid

theorem Whole.describes (h : Whole ops) : Describes ops (run ops) := by
  induction ops using List.reverseRecOn with
  | nil =>
    intro before t x mid hops
    simp at hops
  | append_singleton ops op ih =>
    obtain ⟨h, hlast⟩ := whole_snoc.mp h
    rw [run, List.foldl_append, List.foldl_cons, List.foldl_nil]
    cases op with
    | use tag item =>
      refine ⟨?_, ops, item, [], rfl, by simp⟩
      rw [items, List.filterMap_append]
      exact congrArg (· ++ [item]) (hlast tag item rfl)
    | drop =>
      intro before t x mid hops
      rcases snoc_split hops with ⟨-, hop, -⟩ | ⟨rest, rfl, -⟩
      · cases hop
      · simp

/-- What the next use finds. -/
theorem past_eq_items_iff (h : Whole ops) (hu : Undisturbed ops) (tag : τ) :
    past (run ops) tag = items ops ↔
      ∀ before t x mid, ops = before ++ .use t x :: mid → Op.drop ∉ mid ∧ t = tag := by
  have hd := h.describes
  cases hrun : run ops with
  | none =>
    rw [hrun] at hd
    constructor
    · intro hpast before t x mid hops
      subst hops
      exact absurd hpast.symm items_ne_nil
    · intro hall
      by_contra hne
      obtain ⟨before, t, x, mid, hops⟩ := exists_use fun hnil : items ops = [] => hne hnil.symm
      exact (hall before t x mid hops).1 (hd before t x mid hops)
  | some entry =>
    obtain ⟨t₀, l⟩ := entry
    rw [hrun] at hd
    obtain ⟨rfl, before₀, x₀, mid₀, hops₀, hdrop₀⟩ := hd
    have hne : items ops ≠ [] := by
      rw [hops₀]
      exact items_ne_nil
    constructor
    · intro hpast before t x mid hops
      have htag : t₀ = tag := by
        by_contra ht
        rw [past, if_neg ht] at hpast
        exact hne hpast.symm
      subst htag
      rw [hops] at hops₀
      rcases List.append_eq_append_iff.mp hops₀ with ⟨between, rfl, hmid⟩ | ⟨between, rfl, hmid⟩
      · cases between with
        | nil =>
          cases hmid
          exact ⟨hdrop₀, rfl⟩
        | cons op between =>
          obtain ⟨rfl, rfl⟩ := List.cons.inj hmid
          have hb := hu before t x between t₀ x₀ mid₀ hops
          exact ⟨by simp [hb.1, hdrop₀], hb.2⟩
      · cases between with
        | nil =>
          cases hmid
          exact ⟨hdrop₀, rfl⟩
        | cons op between =>
          obtain ⟨rfl, rfl⟩ := List.cons.inj hmid
          have hb := hu before₀ t₀ x₀ between t x mid (by rw [hops]; simp)
          refine ⟨fun hmem => hdrop₀ ?_, hb.2.symm⟩
          simp [hmem]
    · intro hall
      rw [past, if_pos (hall before₀ t₀ x₀ mid₀ hops₀).2]

/-- Every use finds the whole past exactly when nothing disturbs the session. -/
theorem whole_iff_undisturbed : Whole ops ↔ Undisturbed ops := by
  induction ops using List.reverseRecOn with
  | nil => simp [Whole, Undisturbed]
  | append_singleton ops op ih =>
    rw [whole_snoc, undisturbed_snoc, ← ih]
    refine and_congr_right fun h => forall_congr' fun tag => forall_congr' fun item =>
      imp_congr_right fun _ => past_eq_items_iff h (ih.mp h) tag

end PyptoServing.Lib.Session
