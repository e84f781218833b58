import Mathlib.Data.List.Basic

/-!
# Transducers

A machine that writes some letters for each letter it reads, and some more at the end. Where
every letter either forgets the state or keeps the start, a word that ends at the start may be
cut anywhere: its tail alone ends there as well.
-/
namespace PyptoServing.Lib

structure Transducer (σ α β : Type*) where
  start : σ
  step : σ → α → σ
  output : σ → α → List β
  /-- What is written behind the last letter. -/
  flush : σ → List β

namespace Transducer
variable {σ α β : Type*} (t : Transducer σ α β)

def after (s : σ) (w : List α) : σ := w.foldl t.step s

def emitted : σ → List α → List β
  | _, [] => []
  | s, a :: w => t.output s a ++ emitted (t.step s a) w

def run (w : List α) : List β := t.emitted t.start w ++ t.flush (t.after t.start w)

@[simp] theorem after_nil (s : σ) : t.after s [] = s := rfl

@[simp] theorem after_cons (s : σ) (a : α) (w : List α) :
    t.after s (a :: w) = t.after (t.step s a) w := rfl

theorem after_append (s : σ) (u v : List α) : t.after s (u ++ v) = t.after (t.after s u) v :=
  List.foldl_append

theorem emitted_append (s : σ) (u v : List α) :
    t.emitted s (u ++ v) = t.emitted s u ++ t.emitted (t.after s u) v := by
  induction u generalizing s with
  | nil => rfl
  | cons a u ih => rw [List.cons_append, emitted, emitted, ih, after_cons, List.append_assoc]

/-- Every letter leads to one state from everywhere, or keeps the start; at the start nothing
is held back. -/
structure Resets : Prop where
  letter : ∀ a, (∀ s s', t.step s a = t.step s' a) ∨ t.step t.start a = t.start
  flush : t.flush t.start = []

variable {t}

/-- Reading a word from the start leads where it leads from elsewhere, or to the start. -/
theorem Resets.after_or (h : t.Resets) (w : List α) (s : σ) :
    t.after t.start w = t.after s w ∨ t.after t.start w = t.start := by
  induction w generalizing s with
  | nil => exact .inr rfl
  | cons a w ih =>
    rw [after_cons, after_cons]
    rcases h.letter a with hforget | hkeep
    · exact .inl (by rw [hforget t.start s])
    · rw [hkeep]
      exact ih _

theorem Resets.after_start (h : t.Resets) {s : σ} {w : List α} (hw : t.after s w = t.start) :
    t.after t.start w = t.start := by
  rcases h.after_or w s with heq | hstart
  · rw [heq, hw]
  · exact hstart

/-- Behind a word that ends at the start the rest is read on its own. -/
theorem Resets.run_append (h : t.Resets) {u : List α} (hu : t.after t.start u = t.start)
    (v : List α) : t.run (u ++ v) = t.run u ++ t.run v := by
  rw [run, run, run, emitted_append, after_append, hu, h.flush, List.append_nil, List.append_assoc]

/-- Some letters in front of the rest show what the rest adds to the whole. -/
theorem Resets.run_window (h : t.Resets) {u v : List α} (huv : t.after t.start (u ++ v) = t.start)
    (w : List α) :
    t.run (u ++ (v ++ w)) = t.run (u ++ v) ++ (t.run (v ++ w)).drop (t.run v).length := by
  have hv : t.after t.start v = t.start := by
    rw [after_append] at huv
    exact h.after_start huv
  rw [← List.append_assoc, h.run_append huv, h.run_append hv, List.drop_left]

end Transducer
end PyptoServing.Lib
