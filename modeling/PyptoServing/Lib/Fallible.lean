import Mathlib

/-!
# Loops that may fail

Rules for folds and maps in `Except`: a total-correctness rule whose invariant may
mention the elements still to come, a partial one, and the reading of a successful
`mapM` as a pointwise relation.
-/
namespace PyptoServing.Lib.Fallible

universe u

variable {ε : Type*} {α β γ : Type u}

/-- The two halves of a successful sequence. -/
theorem bind_eq_ok {x : Except ε α} {f : α → Except ε β} {b : β} :
    x >>= f = .ok b ↔ ∃ a, x = .ok a ∧ f a = .ok b := by
  cases x with
  | error e => simp [bind, Except.bind]
  | ok a => simp [bind, Except.bind]

theorem bind_eq_error {x : Except ε α} {f : α → Except ε β} {e : ε} :
    x >>= f = .error e ↔ x = .error e ∨ ∃ a, x = .ok a ∧ f a = .error e := by
  cases x with
  | error e' => simp [bind, Except.bind]
  | ok a => simp [bind, Except.bind]

/-- Total correctness of a loop: every round succeeds and passes the invariant on to
the elements still to come. -/
theorem foldlM_total {f : β → α → Except ε β} {I : List α → β → Prop}
    (step : ∀ a l b, I (a :: l) b → ∃ b', f b a = .ok b' ∧ I l b') :
    ∀ (l : List α) (b : β), I l b → ∃ b', l.foldlM f b = .ok b' ∧ I [] b' := by
  intro l
  induction l with
  | nil => exact fun b h => ⟨b, rfl, h⟩
  | cons a l ih =>
    intro b h
    obtain ⟨b₁, h₁, hI⟩ := step a l b h
    obtain ⟨b₂, h₂, hI'⟩ := ih b₁ hI
    refine ⟨b₂, ?_, hI'⟩
    rw [List.foldlM_cons, bind_eq_ok]
    exact ⟨b₁, h₁, h₂⟩

/-- Partial correctness of a loop: a successful run keeps what every successful round
keeps. -/
theorem foldlM_keeps {f : β → α → Except ε β} {I : β → Prop}
    (step : ∀ a b b', f b a = .ok b' → I b → I b') :
    ∀ (l : List α) (b b' : β), l.foldlM f b = .ok b' → I b → I b' := by
  intro l
  induction l with
  | nil =>
    intro b b' h hI
    cases h
    exact hI
  | cons a l ih =>
    intro b b' h hI
    rw [List.foldlM_cons, bind_eq_ok] at h
    obtain ⟨b₁, h₁, h₂⟩ := h
    exact ih b₁ b' h₂ (step a b b₁ h₁ hI)

/-- The same, when each round only needs to keep it for elements of the list. -/
theorem foldlM_keeps_mem {f : β → α → Except ε β} {I : β → Prop} :
    ∀ (l : List α), (∀ a ∈ l, ∀ b b', f b a = .ok b' → I b → I b') →
      ∀ b b', l.foldlM f b = .ok b' → I b → I b' := by
  intro l
  induction l with
  | nil =>
    intro _ b b' h hI
    cases h
    exact hI
  | cons a l ih =>
    intro step b b' h hI
    rw [List.foldlM_cons, bind_eq_ok] at h
    obtain ⟨b₁, h₁, h₂⟩ := h
    exact ih (fun x hx => step x (by simp [hx])) b₁ b' h₂ (step a (by simp) b b₁ h₁ hI)

/-- A loop over a state with an extra component that no round reads. -/
theorem foldlM_fst {δ : Type u} {f : β → α → Except ε β} {g : β × δ → α → Except ε (β × δ)}
    (h : ∀ s a, (g s a).map Prod.fst = f s.1 a) (l : List α) (s : β × δ) :
    (l.foldlM g s).map Prod.fst = l.foldlM f s.1 := by
  induction l generalizing s with
  | nil => rfl
  | cons a l ih =>
    rw [List.foldlM_cons, List.foldlM_cons, ← h s a]
    cases hg : g s a with
    | error e => rfl
    | ok s' => exact ih s'

/-- A successful `mapM` relates its input and output pointwise. -/
theorem mapM_eq_ok {f : α → Except ε β} {l : List α} {l' : List β} :
    l.mapM f = .ok l' ↔ List.Forall₂ (fun a b => f a = .ok b) l l' := by
  induction l generalizing l' with
  | nil =>
    rw [List.mapM_nil]
    constructor
    · intro h
      cases h
      exact .nil
    · intro h
      cases h
      rfl
  | cons a l ih =>
    rw [List.mapM_cons, bind_eq_ok]
    constructor
    · rintro ⟨b, hb, h⟩
      obtain ⟨bs, hbs, h⟩ := bind_eq_ok.mp h
      cases h
      exact .cons hb (ih.mp hbs)
    · intro h
      cases h with
      | cons hb h => exact ⟨_, hb, bind_eq_ok.mpr ⟨_, ih.mpr h, rfl⟩⟩

/-- The output of a successful traversal at one place. -/
theorem mapM_get {f : α → Except ε β} {l : List α} {l' : List β} (h : l.mapM f = .ok l') {i : Nat}
    {a : α} (ha : l[i]? = some a) : ∃ b, l'[i]? = some b ∧ f a = .ok b := by
  have hrel := mapM_eq_ok.mp h
  obtain ⟨hi, rfl⟩ := List.getElem?_eq_some_iff.mp ha
  have hi' : i < l'.length := hrel.length_eq ▸ hi
  exact ⟨l'[i], List.getElem?_eq_getElem hi', hrel.get hi hi'⟩

/-- What a successful traversal returned. -/
theorem mem_mapM {f : α → Except ε β} {l : List α} {l' : List β} (h : l.mapM f = .ok l') {b : β} :
    b ∈ l' ↔ ∃ a ∈ l, f a = .ok b := by
  have hrel := mapM_eq_ok.mp h
  constructor
  · intro hb
    obtain ⟨i, hi⟩ := List.mem_iff_getElem?.mp hb
    obtain ⟨hi', rfl⟩ := List.getElem?_eq_some_iff.mp hi
    have hlt : i < l.length := hrel.length_eq ▸ hi'
    exact ⟨l[i], List.getElem_mem hlt, hrel.get hlt hi'⟩
  · rintro ⟨a, ha, hab⟩
    obtain ⟨i, hi⟩ := List.mem_iff_getElem?.mp ha
    obtain ⟨b', hb', hab'⟩ := mapM_get h hi
    rw [hab] at hab'
    cases hab'
    exact List.mem_iff_getElem?.mpr ⟨i, hb'⟩

/-- A traversal that computes a function wherever it is asked to. -/
theorem mapM_pure {f : α → Except ε β} {g : α → β} {l : List α} (h : ∀ a ∈ l, f a = .ok (g a)) :
    l.mapM f = .ok (l.map g) := by
  rw [mapM_eq_ok]
  induction l with
  | nil => exact .nil
  | cons a l ih => exact .cons (h a (by simp)) (ih fun b hb => h b (by simp [hb]))

/-- The error of a traversal is the error of one element. -/
theorem mapM_eq_error {f : α → Except ε β} {l : List α} {e : ε} (h : l.mapM f = .error e) :
    ∃ a ∈ l, f a = .error e := by
  induction l with
  | nil => cases h
  | cons a l ih =>
    rw [List.mapM_cons] at h
    cases ha : f a with
    | error e' =>
      rw [ha] at h
      cases h
      exact ⟨a, by simp, ha⟩
    | ok b =>
      rw [ha] at h
      cases hl : l.mapM f with
      | error e' =>
        rw [hl] at h
        cases h
        obtain ⟨c, hc, hce⟩ := ih hl
        exact ⟨c, by simp [hc], hce⟩
      | ok bs =>
        rw [hl] at h
        cases h

/-- The same reading for a map that may return nothing. -/
theorem mapM_eq_some {f : α → Option β} {l : List α} {l' : List β} :
    l.mapM f = some l' ↔ List.Forall₂ (fun a b => f a = some b) l l' := by
  induction l generalizing l' with
  | nil =>
    rw [List.mapM_nil]
    constructor
    · intro h
      cases h
      exact .nil
    · intro h
      cases h
      rfl
  | cons a l ih =>
    rw [List.mapM_cons]
    constructor
    · intro h
      obtain ⟨b, hb, h⟩ := Option.bind_eq_some_iff.mp h
      obtain ⟨bs, hbs, h⟩ := Option.bind_eq_some_iff.mp h
      cases h
      exact .cons hb (ih.mp hbs)
    · intro h
      cases h with
      | cons hb h =>
        exact Option.bind_eq_some_iff.mpr ⟨_, hb, Option.bind_eq_some_iff.mpr ⟨_, ih.mpr h, rfl⟩⟩

/-- A map all of whose calls succeed with `R` succeeds with `R` pointwise. -/
theorem mapM_total {f : α → Except ε β} {R : α → β → Prop} {l : List α}
    (h : ∀ a ∈ l, ∃ b, f a = .ok b ∧ R a b) : ∃ l', l.mapM f = .ok l' ∧ List.Forall₂ R l l' := by
  induction l with
  | nil => exact ⟨[], rfl, .nil⟩
  | cons a l ih =>
    obtain ⟨b, hb, hr⟩ := h a (by simp)
    obtain ⟨bs, hbs, hrs⟩ := ih fun x hx => h x (by simp [hx])
    refine ⟨b :: bs, ?_, .cons hr hrs⟩
    rw [mapM_eq_ok] at hbs ⊢
    exact .cons hb hbs

/-- A list related to another element by element. -/
theorem exists_forall₂ {R : α → β → Prop} {l : List α} (h : ∀ a ∈ l, ∃ b, R a b) :
    ∃ l', List.Forall₂ R l l' := by
  induction l with
  | nil => exact ⟨[], .nil⟩
  | cons a l ih =>
    obtain ⟨b, hb⟩ := h a (by simp)
    obtain ⟨l', hl'⟩ := ih fun x hx => h x (by simp [hx])
    exact ⟨b :: l', .cons hb hl'⟩

/-- Both elements of a pointwise related pair, found from the second. -/
theorem forall₂_mem_right {R : α → β → Prop} {l : List α} {l' : List β}
    (h : List.Forall₂ R l l') {b : β} (hb : b ∈ l') : ∃ a ∈ l, R a b := by
  induction h with
  | nil => simp at hb
  | cons hr _ ih =>
    rcases List.mem_cons.mp hb with rfl | hb
    · exact ⟨_, by simp, hr⟩
    · obtain ⟨a, ha, hr'⟩ := ih hb
      exact ⟨a, by simp [ha], hr'⟩

/-- Weakening a pointwise relation on the elements of the first list. -/
theorem forall₂_imp_mem {R S : α → β → Prop} {l : List α} {l' : List β}
    (h : List.Forall₂ R l l') (himp : ∀ a ∈ l, ∀ b, R a b → S a b) : List.Forall₂ S l l' := by
  induction h with
  | nil => exact .nil
  | cons hr _ ih =>
    exact .cons (himp _ (by simp) _ hr) (ih fun a ha b => himp a (by simp [ha]) b)

/-- Zipping with a related list and mapping. -/
theorem forall₂_zip_map {δ : Type u} {R : α → β → Prop} {S : α → δ → Prop} {g : α × β → δ}
    {l : List α} {l' : List β} (h : List.Forall₂ R l l')
    (hg : ∀ a ∈ l, ∀ b, R a b → S a (g (a, b))) : List.Forall₂ S l ((l.zip l').map g) := by
  induction h with
  | nil => exact .nil
  | cons hr _ ih =>
    exact .cons (hg _ (by simp) _ hr) (ih fun a ha b => hg a (by simp [ha]) b)

/-- Two related lists agree on what the relation preserves. -/
theorem forall₂_map_eq {R : α → β → Prop} {f : α → γ} {g : β → γ} {l : List α} {l' : List β}
    (h : List.Forall₂ R l l') (hfg : ∀ a b, R a b → g b = f a) : l'.map g = l.map f := by
  induction h with
  | nil => rfl
  | cons hr _ ih => rw [List.map_cons, List.map_cons, hfg _ _ hr, ih]

/-- A loop all of whose rounds succeed. -/
theorem forM_total {f : α → Except ε PUnit} {l : List α} (h : ∀ a ∈ l, f a = .ok ⟨⟩) :
    l.forM f = .ok ⟨⟩ := by
  induction l with
  | nil => rfl
  | cons a l ih => exact bind_eq_ok.mpr ⟨⟨⟩, h a (by simp), ih fun b hb => h b (by simp [hb])⟩

/-- Every round of a successful loop succeeds. -/
theorem forM_ok {f : α → Except ε PUnit} {l : List α} (h : l.forM f = .ok ⟨⟩) :
    ∀ a ∈ l, f a = .ok ⟨⟩ := by
  induction l with
  | nil => simp
  | cons a l ih =>
    obtain ⟨_, ha, hl⟩ := bind_eq_ok.mp h
    exact List.forall_mem_cons.mpr ⟨ha, ih hl⟩

end PyptoServing.Lib.Fallible
