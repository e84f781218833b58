import Mathlib

/-!
# Programs that may raise

A program with a state; what it did before it raised stays done. `Keeps` says that a program
keeps an invariant of the state, whether it raises or not, and what it returns otherwise.
-/
namespace PyptoServing.Lib

abbrev Raising (ε σ α : Type) := ExceptT ε (StateM σ) α

namespace Raising
variable {ε σ α β γ : Type} {I : σ → Prop} {P : α → Prop} {Q : β → Prop}

/-- The result of a run, and the state that it leaves. -/
def exec (m : Raising ε σ α) (s : σ) : Except ε α × σ := m.run.run s

@[simp]
theorem exec_pure (a : α) (s : σ) : exec (pure a : Raising ε σ α) s = (.ok a, s) := rfl

@[simp]
theorem exec_throw (e : ε) (s : σ) : exec (throw e : Raising ε σ α) s = (.error e, s) := rfl

@[simp]
theorem exec_get (s : σ) : exec (get : Raising ε σ σ) s = (.ok s, s) := rfl

@[simp]
theorem exec_set (t s : σ) : exec (set t : Raising ε σ PUnit) s = (.ok ⟨⟩, t) := rfl

@[simp]
theorem exec_modify (f : σ → σ) (s : σ) :
    exec (modify f : Raising ε σ PUnit) s = (.ok ⟨⟩, f s) := rfl

@[simp]
theorem exec_ofExcept (x : Except ε α) (s : σ) :
    exec (MonadExcept.ofExcept x : Raising ε σ α) s = (x, s) := by
  cases x <;> rfl

theorem exec_bind (m : Raising ε σ α) (f : α → Raising ε σ β) (s : σ) :
    exec (m >>= f) s =
      match exec m s with
      | (.ok a, t) => exec (f a) t
      | (.error e, t) => (.error e, t) := by
  show (ExceptT.bindCont f (m.run.run s).1).run (m.run.run s).2 = _
  unfold exec
  rcases m.run.run s with ⟨_ | _, t⟩ <;> rfl

/-- A program goes on from where its first part returned. -/
theorem exec_bind_ok {m : Raising ε σ α} {f : α → Raising ε σ β} {s t : σ} {a : α}
    (h : exec m s = (.ok a, t)) : exec (m >>= f) s = exec (f a) t := by
  rw [exec_bind, h]

/-- A program ends where its first part raised. -/
theorem exec_bind_error {m : Raising ε σ α} {f : α → Raising ε σ β} {s t : σ} {e : ε}
    (h : exec m s = (.error e, t)) : exec (m >>= f) s = (.error e, t) := by
  rw [exec_bind, h]

theorem exec_ofExcept_ok {x : Except ε α} {f : α → Raising ε σ β} {s : σ} {a : α} (h : x = .ok a) :
    exec (MonadExcept.ofExcept x >>= f) s = exec (f a) s := by
  subst h
  exact exec_bind_ok (exec_ofExcept _ s)

/-- Both halves of a program that returned. -/
theorem exec_bind_inv {m : Raising ε σ α} {f : α → Raising ε σ β} {s u : σ} {b : β}
    (h : exec (m >>= f) s = (.ok b, u)) :
    ∃ a t, exec m s = (.ok a, t) ∧ exec (f a) t = (.ok b, u) := by
  rw [exec_bind] at h
  rcases hm : exec m s with ⟨e | a, t⟩
  · rw [hm] at h
    cases h
  · rw [hm] at h
    exact ⟨a, t, rfl, h⟩

theorem forM_cons (body : β → Raising ε σ PUnit) (b : β) (l : List β) :
    (b :: l).forM body = body b >>= fun _ => l.forM body := rfl

def Keeps (I : σ → Prop) (m : Raising ε σ α) (P : α → Prop) : Prop :=
  ∀ s, I s → I (m.run.run s).2 ∧ ∀ a, (m.run.run s).1 = .ok a → P a

/-- What a run left and returned. -/
theorem Keeps.result {m : Raising ε σ α} {s t : σ} {outcome : Except ε α} (h : Keeps I m P) (hs : I s)
    (hexec : exec m s = (outcome, t)) : I t ∧ ∀ a, outcome = .ok a → P a := by
  have hkept := h s hs
  rwa [show m.run.run s = _ from hexec] at hkept

theorem Keeps.pure {a : α} (h : P a) : Keeps I (pure a : Raising ε σ α) P := by
  refine fun s hs => ⟨hs, fun b hb => ?_⟩
  cases hb
  exact h

theorem Keeps.throw (e : ε) : Keeps I (throw e : Raising ε σ α) P := by
  refine fun s hs => ⟨hs, fun b hb => ?_⟩
  cases hb

theorem Keeps.bind {m : Raising ε σ α} {f : α → Raising ε σ β} (hm : Keeps I m P)
    (hf : ∀ a, P a → Keeps I (f a) Q) : Keeps I (m >>= f) Q := by
  intro s hs
  obtain ⟨hI, hP⟩ := hm s hs
  have hexec : (m >>= f).run.run s =
      match m.run.run s with
      | (.ok a, t) => (f a).run.run t
      | (.error e, t) => (.error e, t) := exec_bind m f s
  rw [hexec]
  rcases hrun : m.run.run s with ⟨e | a, t⟩
  · rw [hrun] at hI
    exact ⟨hI, fun b hb => by cases hb⟩
  · rw [hrun] at hI hP
    exact hf a (hP a rfl) t hI

/-- The state can be read; what is known of it is known of what was read. -/
theorem Keeps.get : Keeps I (get : Raising ε σ σ) I := by
  refine fun s hs => ⟨hs, fun b hb => ?_⟩
  cases hb
  exact hs

theorem Keeps.modify {f : σ → σ} (h : ∀ s, I s → I (f s)) :
    Keeps I (modify f : Raising ε σ PUnit) fun _ => True :=
  fun s hs => ⟨h s hs, fun _ _ => trivial⟩

theorem Keeps.weaken {m : Raising ε σ α} {P' : α → Prop} (h : Keeps I m P) (hP : ∀ a, P a → P' a) :
    Keeps I m P' :=
  fun s hs => ⟨(h s hs).1, fun a ha => hP a ((h s hs).2 a ha)⟩

theorem Keeps.ofExcept {x : Except ε α} (h : ∀ a, x = .ok a → P a) :
    Keeps I (MonadExcept.ofExcept x : Raising ε σ α) P := by
  cases x with
  | error e => exact .throw e
  | ok a => exact .pure (h a rfl)

theorem Keeps.foldlM {f : α → β → Raising ε σ α} {l : List β}
    (h : ∀ b ∈ l, ∀ a, P a → Keeps I (f a b) P) :
    ∀ {a : α}, P a → Keeps I (l.foldlM f a) P := by
  induction l with
  | nil => exact fun ha => .pure ha
  | cons b l ih =>
    intro a ha
    rw [List.foldlM_cons]
    exact (h b (by simp) a ha).bind fun a' ha' => ih (fun c hc => h c (by simp [hc])) ha'

theorem Keeps.forM {body : β → Raising ε σ PUnit} {l : List β}
    (h : ∀ b ∈ l, Keeps I (body b) fun _ => True) : Keeps I (l.forM body) fun _ => True := by
  induction l with
  | nil => exact .pure trivial
  | cons b l ih => exact (h b (by simp)).bind fun _ _ => ih fun c hc => h c (by simp [hc])

theorem Keeps.mapM {f : β → Raising ε σ α} {l : List β}
    (h : ∀ b ∈ l, Keeps I (f b) fun _ => True) : Keeps I (l.mapM f) fun _ => True := by
  induction l with
  | nil => exact .pure trivial
  | cons b l ih =>
    rw [List.mapM_cons]
    exact (h b (by simp)).bind fun _ _ =>
      (ih fun c hc => h c (by simp [hc])).bind fun _ _ => .pure trivial

/-- A loop that returned ran each of its rounds, from a state with the invariant. -/
theorem Keeps.forM_inv {body : β → Raising ε σ PUnit} {l : List β}
    (h : ∀ b ∈ l, Keeps I (body b) fun _ => True) {s t : σ} (hs : I s)
    (hexec : exec (l.forM body) s = (.ok ⟨⟩, t)) :
    I t ∧ ∀ b ∈ l, ∃ s' t', I s' ∧ exec (body b) s' = (.ok ⟨⟩, t') := by
  induction l generalizing s with
  | nil =>
    cases hexec
    exact ⟨hs, by simp⟩
  | cons b l ih =>
    rw [forM_cons] at hexec
    obtain ⟨_, u, hb, hl⟩ := exec_bind_inv hexec
    have hu : I u := by
      have hkeep := (h b (by simp) s hs).1
      rwa [show (body b).run.run s = _ from hb] at hkeep
    obtain ⟨ht, hrounds⟩ := ih (fun c hc => h c (by simp [hc])) hu hl
    exact ⟨ht, List.forall_mem_cons.mpr ⟨⟨s, u, hs, hb⟩, hrounds⟩⟩

/-- A loop whose rounds leave a state as it is. -/
theorem exec_forM_id {body : β → Raising ε σ PUnit} {l : List β} {s : σ}
    (h : ∀ b ∈ l, exec (body b) s = (.ok ⟨⟩, s)) : exec (l.forM body) s = (.ok ⟨⟩, s) := by
  induction l with
  | nil => rfl
  | cons b l ih =>
    rw [forM_cons, exec_bind_ok (h b (by simp))]
    exact ih fun c hc => h c (by simp [hc])

/-- A loop whose rounds leave a state as it is, but for one that raises. -/
theorem exec_forM_error {body : β → Raising ε σ PUnit} {l : List β} {s : σ} {E : ε → Prop}
    (h : ∀ b ∈ l, exec (body b) s = (.ok ⟨⟩, s) ∨ ∃ e, E e ∧ exec (body b) s = (.error e, s)) {b : β}
    (hb : b ∈ l) {e : ε} (herror : exec (body b) s = (.error e, s)) :
    ∃ e, E e ∧ exec (l.forM body) s = (.error e, s) := by
  induction l with
  | nil => cases hb
  | cons c l ih =>
    rw [forM_cons]
    rcases h c (by simp) with hc | ⟨e', he', hc⟩
    · rw [exec_bind_ok hc]
      rcases List.mem_cons.mp hb with rfl | hb
      · rw [hc] at herror
        cases herror
      · exact ih (fun d hd => h d (by simp [hd])) hb
    · exact ⟨e', he', exec_bind_error hc⟩

/-- A loop that returned, around one of its rounds. -/
theorem forM_split {body : β → Raising ε σ PUnit} {l₁ l₂ : List β} {b : β} {s t : σ}
    (h : exec ((l₁ ++ b :: l₂).forM body) s = (.ok ⟨⟩, t)) :
    ∃ u v, exec (l₁.forM body) s = (.ok ⟨⟩, u) ∧ exec (body b) u = (.ok ⟨⟩, v) ∧
      exec (l₂.forM body) v = (.ok ⟨⟩, t) := by
  induction l₁ generalizing s with
  | nil =>
    obtain ⟨_, v, hb, hl⟩ := exec_bind_inv h
    exact ⟨s, v, rfl, hb, hl⟩
  | cons c l₁ ih =>
    rw [List.cons_append, forM_cons] at h
    obtain ⟨_, w, hc, hrest⟩ := exec_bind_inv h
    obtain ⟨u, v, hl₁, hb, hl₂⟩ := ih hrest
    exact ⟨u, v, by rw [forM_cons, exec_bind_ok hc, hl₁], hb, hl₂⟩

/-- A program that does not raise from a state with the invariant. -/
def Returns (I : σ → Prop) (m : Raising ε σ α) (P : α → Prop) : Prop :=
  ∀ s, I s → ∃ a t, exec m s = (.ok a, t) ∧ I t ∧ P a

theorem Returns.pure {a : α} (h : P a) : Returns I (pure a : Raising ε σ α) P :=
  fun s hs => ⟨a, s, rfl, hs, h⟩

theorem Returns.bind {m : Raising ε σ α} {f : α → Raising ε σ β} (hm : Returns I m P)
    (hf : ∀ a, P a → Returns I (f a) Q) : Returns I (m >>= f) Q := by
  intro s hs
  obtain ⟨a, t, hexec, ht, ha⟩ := hm s hs
  obtain ⟨b, u, hexec', hu, hb⟩ := hf a ha t ht
  exact ⟨b, u, (exec_bind_ok hexec).trans hexec', hu, hb⟩

theorem Returns.forM {body : β → Raising ε σ PUnit} {l : List β}
    (h : ∀ b ∈ l, Returns I (body b) fun _ => True) : Returns I (l.forM body) fun _ => True := by
  induction l with
  | nil => exact .pure trivial
  | cons b l ih => exact (h b (by simp)).bind fun _ _ => ih fun c hc => h c (by simp [hc])

theorem Returns.mapM {f : β → Raising ε σ α} {l : List β}
    (h : ∀ b ∈ l, Returns I (f b) fun _ => True) : Returns I (l.mapM f) fun _ => True := by
  induction l with
  | nil => exact .pure trivial
  | cons b l ih =>
    rw [List.mapM_cons]
    exact (h b (by simp)).bind fun _ _ =>
      (ih fun c hc => h c (by simp [hc])).bind fun _ _ => .pure trivial

/-- From any state of the invariant, a program keeps it and returns or raises the same; if it
returns, what can be seen of the state has changed by `f`. -/
def Simulates {τ : Type} (I : σ → Prop) (view : σ → τ) (m : Raising ε σ α) (x : Except ε α)
    (f : τ → τ) : Prop :=
  ∀ s, I s → I (exec m s).2 ∧ (exec m s).1 = x ∧ ∀ a, x = .ok a → view (exec m s).2 = f (view s)

section Simulates
variable {τ : Type} {view : σ → τ} {x : Except ε α} {y : Except ε β} {f g : τ → τ}

theorem Simulates.pure (a : α) :
    Simulates I view (Pure.pure a : Raising ε σ α) (.ok a) id :=
  fun _ hs => ⟨hs, rfl, fun _ _ => rfl⟩

theorem Simulates.ofExcept (x : Except ε α) :
    Simulates I view (MonadExcept.ofExcept x : Raising ε σ α) x id := by
  intro s hs
  rw [exec_ofExcept]
  exact ⟨hs, rfl, fun _ _ => rfl⟩

theorem Simulates.modify {upd : σ → σ} (hI : ∀ s, I s → I (upd s))
    (hview : ∀ s, I s → view (upd s) = f (view s)) :
    Simulates I view (modify upd : Raising ε σ PUnit) (.ok ⟨⟩) f :=
  fun s hs => ⟨hI s hs, rfl, fun _ _ => hview s hs⟩

theorem Simulates.bind {m : Raising ε σ α} {k : α → Raising ε σ β} {y : α → Except ε β}
    (hm : Simulates I view m x f) (hk : ∀ a, x = .ok a → Simulates I view (k a) (y a) g) :
    Simulates I view (m >>= k) (x >>= y) (g ∘ f) := by
  intro s hs
  obtain ⟨hI, hx, hview⟩ := hm s hs
  rcases hrun : exec m s with ⟨e | a, t⟩
  · rw [hrun] at hI hx
    subst hx
    rw [exec_bind_error hrun]
    exact ⟨hI, rfl, fun b hb => by cases hb⟩
  · rw [hrun] at hI hx hview
    subst hx
    rw [exec_bind_ok hrun]
    obtain ⟨hI', hy, hview'⟩ := hk a rfl t hI
    refine ⟨hI', hy, fun b hb => ?_⟩
    rw [hview' b hb, hview a rfl]
    rfl

/-- A check changes nothing. -/
theorem Simulates.check {k : α → Raising ε σ β} {y : α → Except ε β}
    (hk : ∀ a, x = .ok a → Simulates I view (k a) (y a) f) :
    Simulates I view (MonadExcept.ofExcept x >>= k) (x >>= y) f :=
  (Simulates.ofExcept x).bind hk

theorem Simulates.forM {body : β → Raising ε σ PUnit} {check : β → Except ε PUnit}
    {upd : β → τ → τ} {l : List β}
    (h : ∀ b ∈ l, Simulates I view (body b) (check b) (upd b)) :
    Simulates I view (l.forM body) (l.forM check) fun t => l.foldl (fun t b => upd b t) t := by
  induction l with
  | nil => exact .pure _
  | cons b l ih =>
    exact (h b (by simp)).bind fun _ _ => ih fun c hc => h c (by simp [hc])

end Simulates

end Raising
end PyptoServing.Lib
