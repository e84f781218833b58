import Mathlib

/-!
# Labelled machines

A machine is a set of initial states with a labelled step relation. Reachable
states come with the induction rule for invariants. `track` adds a history
variable that no step reads, and `restrict` keeps the steps that meet a
condition, so that "every run whose steps meet the condition" is reachability in
the restricted machine.
-/
namespace PyptoServing.Lib

/-- Initial states and labelled steps. -/
structure Machine (σ α : Type*) where
  init : σ → Prop
  step : σ → α → σ → Prop

namespace Machine
variable {σ α η : Type*} {M : Machine σ α}

/-- States reached from an initial state by finitely many steps. -/
inductive Reachable (M : Machine σ α) : σ → Prop
  | start {s : σ} : M.init s → Reachable M s
  | next {s t : σ} {a : α} : Reachable M s → M.step s a t → Reachable M t

/-- The labels of a finite run, oldest first. -/
inductive Run (M : Machine σ α) : σ → List α → σ → Prop
  | nil (s : σ) : Run M s [] s
  | snoc {s t u : σ} {as : List α} {a : α} : Run M s as t → M.step t a u → Run M s (as ++ [a]) u

/-- A property that holds initially and that every step keeps, the step being
taken from a reachable state, holds of every reachable state. -/
theorem Reachable.invariant {I : σ → Prop} (h0 : ∀ s, M.init s → I s)
    (hs : ∀ s a t, M.Reachable s → I s → M.step s a t → I t) {s : σ} (h : M.Reachable s) : I s := by
  induction h with
  | start h => exact h0 _ h
  | next hr hstep ih => exact hs _ _ _ hr ih hstep

theorem Reachable.run {s t : σ} {as : List α} (hs : M.Reachable s) (h : M.Run s as t) :
    M.Reachable t := by
  induction h with
  | nil => exact hs
  | snoc _ hstep ih => exact ih.next hstep

theorem Run.append {s t u : σ} {as bs : List α} (h : M.Run s as t) (h' : M.Run t bs u) :
    M.Run s (as ++ bs) u := by
  induction h' with
  | nil => rwa [List.append_nil]
  | snoc _ hstep ih =>
    rw [← List.append_assoc]
    exact .snoc ih hstep

theorem Run.single {s t : σ} {a : α} (h : M.step s a t) : M.Run s [a] t := .snoc (.nil s) h

/-- A history variable: it starts at `h₀` and each step updates it from the states
and the label; no step depends on it. -/
def track (M : Machine σ α) (h₀ : η) (upd : η → σ → α → σ → η) : Machine (σ × η) α where
  init p := M.init p.1 ∧ p.2 = h₀
  step p a q := M.step p.1 a q.1 ∧ q.2 = upd p.2 p.1 a q.1

theorem track_reachable_fst {h₀ : η} {upd : η → σ → α → σ → η} {p : σ × η}
    (h : (M.track h₀ upd).Reachable p) : M.Reachable p.1 := by
  induction h with
  | start h => exact .start h.1
  | next _ hstep ih => exact ih.next hstep.1

/-- Keep only the steps that meet `C`. -/
def restrict (M : Machine σ α) (C : σ → α → σ → Prop) : Machine σ α where
  init := M.init
  step s a t := M.step s a t ∧ C s a t

theorem restrict_reachable {C : σ → α → σ → Prop} {s : σ} (h : (M.restrict C).Reachable s) :
    M.Reachable s := by
  induction h with
  | start h => exact .start h
  | next _ hstep ih => exact ih.next hstep.1

/-- A restricted run with a history is a run of the restricted machine. -/
theorem restrict_track_reachable_fst {h₀ : η} {upd : η → σ → α → σ → η} {C : σ → α → σ → Prop}
    {p : σ × η} (h : ((M.track h₀ upd).restrict fun p a q => C p.1 a q.1).Reachable p) :
    (M.restrict C).Reachable p.1 := by
  induction h with
  | start h => exact .start h.1
  | next _ hstep ih => exact ih.next ⟨hstep.1.1, hstep.2⟩

/-- A condition that always holds restricts no run. -/
theorem Reachable.unrestricted {s : σ} (h : M.Reachable s) :
    (M.restrict fun _ _ _ => True).Reachable s := by
  induction h with
  | start h => exact .start h
  | next _ hstep ih => exact ih.next ⟨hstep, trivial⟩

end Machine
end PyptoServing.Lib
