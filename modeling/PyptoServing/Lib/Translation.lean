import Mathlib

/-!
# Memory behind page tables

Each owner has a table of pages. `locate` translates a position to a page and an offset;
separate tables make it injective over all owners. `Holds` says that what is remembered for
the keys of an owner stands in the cells behind a translation.
-/
namespace PyptoServing.Lib

variable {ρ κ β γ α : Type*}

/-- A translation of each owner's keys to cells. -/
abbrev Translation (ρ κ γ : Type*) := ρ → κ → Option γ

/-- No page is in two tables, or twice in one. -/
structure Separate (tables : ρ → List β) : Prop where
  nodup : ∀ o, (tables o).Nodup
  disjoint : ∀ o o', o ≠ o' → ∀ b ∈ tables o, b ∉ tables o'

namespace Separate
variable {tables : ρ → List β} {o o' : ρ} {b : β}

theorem empty : Separate (fun _ : ρ => ([] : List β)) :=
  ⟨fun _ => List.nodup_nil, fun _ _ _ b hb => by cases hb⟩

theorem owner (h : Separate tables) (hb : b ∈ tables o) (hb' : b ∈ tables o') : o = o' := by
  by_contra hne
  exact h.disjoint o o' hne b hb hb'

/-- A page stands at one index of one table. -/
theorem index {i i' : Nat} (h : Separate tables) (hb : (tables o)[i]? = some b)
    (hb' : (tables o')[i']? = some b) : o = o' ∧ i = i' := by
  have howner := h.owner (List.mem_of_getElem? hb) (List.mem_of_getElem? hb')
  subst howner
  obtain ⟨hi, -⟩ := List.getElem?_eq_some_iff.mp hb
  exact ⟨rfl, (List.getElem?_inj hi (h.nodup o)).mp (hb.trans hb'.symm)⟩

variable [DecidableEq ρ]

/-- A table grows by pages that nobody has. -/
theorem append {ids : List β} (h : Separate tables) (o : ρ) (hids : ids.Nodup)
    (hnew : ∀ o', ∀ b ∈ tables o', b ∉ ids) :
    Separate (Function.update tables o (tables o ++ ids)) := by
  constructor
  · intro o'
    by_cases ho : o' = o
    · subst ho
      rw [Function.update_self]
      exact List.nodup_append.mpr ⟨h.nodup _, hids, fun a ha b hb hab =>
        hnew _ a ha (hab ▸ hb)⟩
    · rw [Function.update_of_ne ho]
      exact h.nodup o'
  · intro o₁ o₂ hne b hb hb'
    rw [Function.update_apply] at hb hb'
    split at hb <;> split at hb'
    · next h₁ h₂ => exact hne (h₁.trans h₂.symm)
    · next h₁ _ =>
      rcases List.mem_append.mp hb with hb | hb
      · exact h.disjoint o o₂ (h₁ ▸ hne) b hb hb'
      · exact hnew o₂ b hb' hb
    · next h₂ =>
      rcases List.mem_append.mp hb' with hb' | hb'
      · exact h.disjoint o₁ o (h₂ ▸ hne) b hb hb'
      · exact hnew o₁ b hb hb'
    · exact h.disjoint o₁ o₂ hne b hb hb'

/-- An owner leaves. -/
theorem drop (h : Separate tables) (o : ρ) : Separate (Function.update tables o []) := by
  constructor
  · intro o'
    rw [Function.update_apply]
    split
    · exact List.nodup_nil
    · exact h.nodup o'
  · intro o₁ o₂ hne b hb hb'
    rw [Function.update_apply] at hb hb'
    split at hb
    · cases hb
    · split at hb'
      · cases hb'
      · exact h.disjoint o₁ o₂ hne b hb hb'

end Separate

namespace Translation

/-- No cell is behind two keys, of one owner or of two. -/
def Exclusive (addr : Translation ρ κ γ) : Prop :=
  ∀ o o' k k' c, addr o k = some c → addr o' k' = some c → o = o' ∧ k = k'

/-- The page and the offset of a position. -/
def locate (pageSize : Nat) (tables : ρ → List β) : Translation ρ Nat (β × Nat) :=
  fun o p => (tables o)[p / pageSize]?.map fun b => (b, p % pageSize)

theorem exclusive_locate {pageSize : Nat} {tables : ρ → List β} (h : Separate tables) :
    Exclusive (locate pageSize tables) := by
  intro o o' p p' c hc hc'
  obtain ⟨b, hb, rfl⟩ := Option.map_eq_some_iff.mp hc
  obtain ⟨b', hb', heq⟩ := Option.map_eq_some_iff.mp hc'
  obtain ⟨rfl, hoff⟩ := Prod.mk.inj heq
  obtain ⟨rfl, hpage⟩ := h.index hb hb'
  have hp := Nat.div_add_mod p pageSize
  rw [hpage, ← hoff, Nat.div_add_mod] at hp
  exact ⟨rfl, hp.symm⟩

/-- What is remembered for a key stands in the cell behind it. -/
def Holds (addr : Translation ρ κ γ) (cells : γ → Option α) (memory : ρ → κ → Option α) : Prop :=
  ∀ o k a, memory o k = some a → ∃ c, addr o k = some c ∧ cells c = some a

section Memory
variable {addr addr' : Translation ρ κ γ} {cells cells' : γ → Option α}
  {memory : ρ → κ → Option α}

/-- Keys keep their cells, and what is in a cell stays. -/
theorem Holds.extend (h : Holds addr cells memory)
    (haddr : ∀ o k c, addr o k = some c → addr' o k = some c)
    (hcells : ∀ c a, cells c = some a → cells' c = some a) : Holds addr' cells' memory := by
  intro o k a hk
  obtain ⟨c, hc, ha⟩ := h o k a hk
  exact ⟨c, haddr o k c hc, hcells c a ha⟩

variable [DecidableEq ρ] [DecidableEq κ] [DecidableEq γ]

def remember (memory : ρ → κ → Option α) (o : ρ) (k : κ) (a : α) : ρ → κ → Option α :=
  Function.update memory o (Function.update (memory o) k (some a))

def forget (memory : ρ → κ → Option α) (o : ρ) : ρ → κ → Option α :=
  Function.update memory o fun _ => none

/-- Several writes, the last one last. -/
def rememberAll (memory : ρ → κ → Option α) (o : ρ) (rows : List (κ × α)) : ρ → κ → Option α :=
  rows.foldl (fun memory row => remember memory o row.1 row.2) memory

section RememberAll
variable {o : ρ} {k : κ} {a : α} {rows : List (κ × α)}

omit [DecidableEq γ] in
theorem rememberAll_owner {o' : ρ} (ho : o' ≠ o) : rememberAll memory o rows o' = memory o' := by
  induction rows generalizing memory with
  | nil => rfl
  | cons row rows ih =>
    rw [rememberAll, List.foldl_cons]
    exact ih.trans (Function.update_of_ne ho ..)

omit [DecidableEq γ] in
theorem rememberAll_not_mem (hk : k ∉ rows.map (·.1)) : rememberAll memory o rows o k = memory o k := by
  induction rows generalizing memory with
  | nil => rfl
  | cons row rows ih =>
    rw [List.map_cons, List.mem_cons, not_or] at hk
    rw [rememberAll, List.foldl_cons]
    refine (ih hk.2).trans ?_
    rw [remember, Function.update_self, Function.update_of_ne hk.1]

omit [DecidableEq γ] in
theorem rememberAll_mem (hnd : (rows.map (·.1)).Nodup) (h : (k, a) ∈ rows) :
    rememberAll memory o rows o k = some a := by
  induction rows generalizing memory with
  | nil => cases h
  | cons row rows ih =>
    rw [List.map_cons, List.nodup_cons] at hnd
    rw [rememberAll, List.foldl_cons]
    rcases List.mem_cons.mp h with rfl | h
    · refine (rememberAll_not_mem hnd.1).trans ?_
      rw [remember, Function.update_self, Function.update_self]
    · exact ih hnd.2 h

end RememberAll

/-- A write changes what is remembered for its key and nothing else. -/
theorem Holds.write {o : ρ} {k : κ} {c : γ} (h : Holds addr cells memory) (hx : Exclusive addr)
    (hc : addr o k = some c) (a : α) :
    Holds addr (Function.update cells c (some a)) (remember memory o k a) := by
  intro o' k' a' hk'
  by_cases hkey : o' = o ∧ k' = k
  · obtain ⟨rfl, rfl⟩ := hkey
    rw [remember, Function.update_self, Function.update_self] at hk'
    cases hk'
    exact ⟨c, hc, Function.update_self ..⟩
  · have hold : memory o' k' = some a' := by
      rw [remember, Function.update_apply] at hk'
      split at hk'
      · next ho =>
        subst ho
        rwa [Function.update_of_ne fun hk => hkey ⟨rfl, hk⟩] at hk'
      · exact hk'
    obtain ⟨c', hc', ha'⟩ := h o' k' a' hold
    have hne : c' ≠ c := by
      rintro rfl
      exact hkey (hx o' o k' k c' hc' hc)
    exact ⟨c', hc', by rw [Function.update_of_ne hne, ha']⟩

omit [DecidableEq κ] [DecidableEq γ] in
/-- An owner is forgotten. -/
theorem Holds.forget {o : ρ} (h : Holds addr cells memory)
    (haddr : ∀ o' k, o' ≠ o → addr' o' k = addr o' k) :
    Holds addr' cells (forget memory o) := by
  intro o' k a hk
  rw [Translation.forget, Function.update_apply] at hk
  split at hk
  · cases hk
  · next ho =>
    rw [haddr o' k ho]
    exact h o' k a hk

end Memory
end Translation
end PyptoServing.Lib
