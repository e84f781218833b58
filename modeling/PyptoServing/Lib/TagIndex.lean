import Mathlib

/-!
# An index over tagged items

Items may carry a tag, and an index maps a tag to one item that carries it. The index is
exact when it has an entry for precisely the tagged items; it is complete on a set when
every tag that an item of the set carries has some entry.
-/
namespace PyptoServing.Lib.TagIndex

variable {κ β : Type*} {tag : β → Option κ} {index : κ → Option β} {b : β} {k : κ} {S : Set β}

/-- An entry names an item that carries its tag. -/
def Sound (tag : β → Option κ) (index : κ → Option β) : Prop :=
  ∀ k b, index k = some b → tag b = some k

/-- The tags on the items of `S` have entries. -/
def CompleteOn (S : Set β) (tag : β → Option κ) (index : κ → Option β) : Prop :=
  ∀ b ∈ S, ∀ k, tag b = some k → (index k).isSome

/-- Entries and tags say the same. -/
def Exact (tag : β → Option κ) (index : κ → Option β) : Prop :=
  ∀ k b, index k = some b ↔ tag b = some k

/-- Items without a tag do not matter. -/
theorem CompleteOn.mono {T : Set β} (h : CompleteOn S tag index)
    (hT : ∀ b ∈ T, b ∈ S ∨ tag b = none) : CompleteOn T tag index := by
  intro b hb k htag
  rcases hT b hb with hS | hnone
  · exact h b hS k htag
  · rw [hnone] at htag
    cases htag

theorem Exact.sound (h : Exact tag index) : Sound tag index := fun k b => (h k b).mp

/-- No two items carry one tag. -/
theorem Exact.tag_inj (h : Exact tag index) {c : β} (hb : tag b = some k) (hc : tag c = some k) :
    b = c :=
  Option.some.inj (((h k b).mpr hb).symm.trans ((h k c).mpr hc))

variable [DecidableEq κ] [DecidableEq β]

/-- A tag is taken off together with the entry for it, whichever item the entry names. -/
theorem Sound.clear (h : Sound tag index) (hb : tag b = some k) :
    Sound (Function.update tag b none) (Function.update index k none) := by
  intro k' c hc
  rw [Function.update_apply] at hc
  split at hc
  · cases hc
  · next hk =>
    have htag := h k' c hc
    have hne : c ≠ b := by
      rintro rfl
      exact hk (Option.some.inj (htag.symm.trans hb))
    rw [Function.update_of_ne hne, htag]

/-- An untagged item gets a tag and takes over its entry. -/
theorem Sound.put (h : Sound tag index) (hb : tag b = none) (k : κ) :
    Sound (Function.update tag b (some k)) (Function.update index k (some b)) := by
  intro k' c hc
  rw [Function.update_apply] at hc
  split at hc
  · next hk =>
    cases hc
    rw [Function.update_self, hk]
  · have htag := h k' c hc
    have hne : c ≠ b := by
      rintro rfl
      rw [hb] at htag
      cases htag
    rw [Function.update_of_ne hne, htag]

/-- Taking a tag off with its entry is harmless when no other item of the set carries it. -/
theorem CompleteOn.clear (h : CompleteOn S tag index) (hb : tag b = some k)
    (hother : ∀ c ∈ S, c ≠ b → tag c ≠ some k) :
    CompleteOn S (Function.update tag b none) (Function.update index k none) := by
  intro c hc k' htag
  rw [Function.update_apply] at htag
  split at htag
  · cases htag
  · next hne =>
    have hk : k' ≠ k := by
      rintro rfl
      exact hother c hc hne htag
    rw [Function.update_of_ne hk]
    exact h c hc k' htag

/-- Giving an item a tag and its entry serves every item with that tag. -/
theorem CompleteOn.put {T : Set β} (h : CompleteOn S tag index) (b : β) (k : κ)
    (hT : ∀ c ∈ T, c ∈ S ∨ c = b ∨ tag c = some k) :
    CompleteOn T (Function.update tag b (some k)) (Function.update index k (some b)) := by
  intro c hc k' htag
  rw [Function.update_apply]
  split
  · rfl
  · next hk =>
    rw [Function.update_apply] at htag
    split at htag
    · exact absurd (Option.some.inj htag).symm hk
    · next hne =>
      rcases hT c hc with hS | hb | hsame
      · exact h c hS k' htag
      · exact absurd hb hne
      · exact absurd (Option.some.inj (htag.symm.trans hsame)) hk

theorem Exact.clear (h : Exact tag index) (hb : tag b = some k) :
    Exact (Function.update tag b none) (Function.update index k none) := by
  intro k' c
  refine ⟨h.sound.clear hb k' c, fun htag => ?_⟩
  rw [Function.update_apply] at htag
  split at htag
  · cases htag
  · next hne =>
    have hk : k' ≠ k := by
      rintro rfl
      exact hne (h.tag_inj htag hb)
    rw [Function.update_of_ne hk]
    exact (h k' c).mpr htag

/-- A tag without an entry goes to an untagged item. -/
theorem Exact.put (h : Exact tag index) (hb : tag b = none) (hk : index k = none) :
    Exact (Function.update tag b (some k)) (Function.update index k (some b)) := by
  intro k' c
  refine ⟨h.sound.put hb k k' c, fun htag => ?_⟩
  rw [Function.update_apply] at htag
  split at htag
  · next hc =>
    cases htag
    rw [Function.update_self, hc]
  · have hentry := (h k' c).mpr htag
    have hne : k' ≠ k := by
      rintro rfl
      rw [hk] at hentry
      cases hentry
    rw [Function.update_of_ne hne, hentry]

end PyptoServing.Lib.TagIndex
