import PyptoServing.Lib.Raising

/-!
# Programs that may be cut off

A program changes a durable state in small steps. The states that it goes through are kept:
wherever it is cut off, it leaves one of them. `Completes` is total correctness together with
what holds of every state on the way.
-/
namespace PyptoServing.Lib

/-- A durable state, and the states that a program went through. -/
structure Traced (σ : Type) where
  current : σ
  passed : List σ := []

namespace Traced

open Raising

variable {ε σ α β : Type} {J J' P P' : σ → Prop} {Q Q' : α → σ → Prop}

/-- One change that is never seen halfway. -/
def change (f : σ → σ) : Raising ε (Traced σ) Unit :=
  modify fun s => ⟨f s.current, s.passed ++ [f s.current]⟩

def read : Raising ε (Traced σ) σ := do return (← get).current

theorem exec_change (f : σ → σ) (s : Traced σ) :
    exec (change f : Raising ε (Traced σ) Unit) s =
      (.ok (), ⟨f s.current, s.passed ++ [f s.current]⟩) := rfl

@[simp]
theorem exec_read (s : Traced σ) : exec (read : Raising ε (Traced σ) σ) s = (.ok s.current, s) := rfl

/-- From a state with `P` the program returns with `Q`, and every state on the way has `J`. -/
def Completes (J P : σ → Prop) (m : Raising ε (Traced σ) α) (Q : α → σ → Prop) : Prop :=
  ∀ s : Traced σ, P s.current → ∃ a t, exec m s = (.ok a, t) ∧ Q a t.current ∧
    ∃ more, t.passed = s.passed ++ more ∧ ∀ d ∈ more, J d

theorem Completes.weaken {m : Raising ε (Traced σ) α} (h : Completes J P m Q)
    (hP : ∀ d, P' d → P d) (hQ : ∀ a d, Q a d → Q' a d) (hJ : ∀ d, J d → J' d) :
    Completes J' P' m Q' := by
  intro s hs
  obtain ⟨a, t, hexec, hq, more, hpassed, hmore⟩ := h s (hP _ hs)
  exact ⟨a, t, hexec, hQ _ _ hq, more, hpassed, fun d hd => hJ d (hmore d hd)⟩

/-- A program that changes nothing. -/
theorem Completes.of_exec {m : Raising ε (Traced σ) α} {a : α}
    (h : ∀ s : Traced σ, P s.current → exec m s = (.ok a, s)) :
    Completes J P m fun b d => b = a ∧ P d :=
  fun s hs => ⟨a, s, h s hs, ⟨rfl, hs⟩, [], (List.append_nil _).symm, fun _ hd => by cases hd⟩

theorem Completes.bind {m : Raising ε (Traced σ) α} {k : α → Raising ε (Traced σ) β}
    {S : β → σ → Prop} (hm : Completes J P m Q) (hk : ∀ a, Completes J (Q a) (k a) S) :
    Completes J P (m >>= k) S := by
  intro s hs
  obtain ⟨a, t, hexec, hq, more, hpassed, hmore⟩ := hm s hs
  obtain ⟨b, u, hexec', hq', more', hpassed', hmore'⟩ := hk a t hq
  refine ⟨b, u, ?_, hq', more ++ more', ?_, fun d hd => ?_⟩
  · rw [exec_bind_ok hexec, hexec']
  · rw [hpassed', hpassed, List.append_assoc]
  · rcases List.mem_append.mp hd with hd | hd
    · exact hmore d hd
    · exact hmore' d hd

/-- A program that goes on with the value that its first part is known to return. -/
theorem Completes.bind_exec {m : Raising ε (Traced σ) α} {k : α → Raising ε (Traced σ) β} {a : α}
    {S : β → σ → Prop} (hm : ∀ s : Traced σ, P s.current → exec m s = (.ok a, s))
    (hk : Completes J P (k a) S) : Completes J P (m >>= k) S := by
  intro s hs
  rw [exec_bind_ok (hm s hs)]
  exact hk s hs

theorem Completes.read :
    Completes J P (read : Raising ε (Traced σ) σ) fun a d => a = d ∧ P d :=
  fun s hs => ⟨s.current, s, exec_read s, ⟨rfl, hs⟩, [], (List.append_nil _).symm,
    fun _ hd => by cases hd⟩

theorem Completes.change {f : σ → σ} (hJ : ∀ d, P d → J (f d)) :
    Completes J P (change f : Raising ε (Traced σ) Unit) fun _ d => ∃ d', P d' ∧ d = f d' := by
  intro s hs
  refine ⟨(), _, exec_change f s, ⟨s.current, hs, rfl⟩, [f s.current], rfl, fun d hd => ?_⟩
  rw [List.mem_singleton] at hd
  subst hd
  exact hJ _ hs

end Traced
end PyptoServing.Lib
