import Mathlib

/-!
# Channels with one producer and one consumer

The operations of a bounded first-in first-out channel on an abstract state. Each side knows
the other only as of its last update, so what a side has seen (room, a token) stays true
until it acts itself.
-/
namespace PyptoServing.Lib

/-- A channel: its producer pushes tokens, its consumer reads the oldest in place and pops it. -/
structure Spsc (σ α ρ : Type*) where
  /-- The tokens pushed and not popped, oldest first. -/
  queue : σ → List α
  size : α → Nat
  updateProducer : σ → σ → Prop
  isFull : σ → Nat → Bool
  push : σ → α → σ
  updateConsumer : σ → σ → Prop
  isEmpty : σ → Bool
  /-- Where the oldest token lies. -/
  peek : σ → ρ
  /-- What lies somewhere. -/
  read : σ → ρ → α
  pop : σ → σ

namespace Spsc
variable {σ α ρ : Type*} {C : Spsc σ α ρ} {s t : σ}

/-- Either side learns what the other did. -/
def Update (C : Spsc σ α ρ) (s t : σ) : Prop := C.updateProducer s t ∨ C.updateConsumer s t

/-- First in, first out, within its capacity, every token readable where `peek` points. -/
structure Lawful (C : Spsc σ α ρ) : Prop where
  queue_update : ∀ {s t}, C.Update s t → C.queue t = C.queue s
  queue_push : ∀ {s a}, C.isFull s (C.size a) = false → C.queue (C.push s a) = C.queue s ++ [a]
  queue_pop : ∀ {s}, C.isEmpty s = false → C.queue (C.pop s) = (C.queue s).tail
  head : ∀ {s}, C.isEmpty s = false → (C.queue s).head? = some (C.read s (C.peek s))
  room_update : ∀ {s t n}, C.Update s t → C.isFull s n = false → C.isFull t n = false
  room_pop : ∀ {s n}, C.isFull s n = false → C.isFull (C.pop s) n = false
  token_update : ∀ {s t}, C.Update s t → C.isEmpty s = false → C.isEmpty t = false
  token_push : ∀ {s a}, C.isEmpty s = false → C.isEmpty (C.push s a) = false
  peek_update : ∀ {s t}, C.Update s t → C.isEmpty s = false → C.peek t = C.peek s
  peek_push : ∀ {s a}, C.isEmpty s = false → C.peek (C.push s a) = C.peek s

/-- A queue that holds at most `capacity` tokens of at most `bytes` together; both sides know
everything at once. A reference is a place in `buffer`. -/
def bounded (capacity bytes : Nat) (size : α → Nat) (peek : List α → ρ) (read : List α → ρ → α) :
    Spsc (List α) α ρ where
  queue s := s
  size := size
  updateProducer s t := t = s
  isFull s n := decide (capacity ≤ s.length ∨ bytes < (s.map size).sum + n)
  push s a := s ++ [a]
  updateConsumer s t := t = s
  isEmpty s := s.isEmpty
  peek := peek
  read := read
  pop s := s.tail

theorem bounded_lawful {capacity bytes : Nat} {size : α → Nat} {peek : List α → ρ}
    {read : List α → ρ → α} (hread : ∀ a s, read (a :: s) (peek (a :: s)) = a)
    (hpeek : ∀ a s b, peek (a :: s ++ [b]) = peek (a :: s)) :
    (bounded capacity bytes size peek read).Lawful := by
  have hupdate : ∀ {s t}, (bounded capacity bytes size peek read).Update s t → t = s :=
    fun h => h.elim id id
  refine ⟨fun h => ?_, fun _ => rfl, fun _ => rfl, fun {s} hs => ?_, fun h hroom => ?_,
    fun {s n} hroom => ?_, fun h hs => ?_, fun {s a} hs => ?_, fun h _ => ?_, fun {s a} hs => ?_⟩
  · rw [hupdate h]
  · cases s with
    | nil => cases hs
    | cons a s => exact congrArg some (hread a s).symm
  · rwa [hupdate h]
  · cases s with
    | nil => exact hroom
    | cons a s =>
      simp [bounded] at hroom ⊢
      omega
  · rwa [hupdate h]
  · cases s with
    | nil => cases hs
    | cons b s => rfl
  · rw [hupdate h]
  · cases s with
    | nil => cases hs
    | cons b s => exact hpeek b s a

end Spsc
end PyptoServing.Lib
