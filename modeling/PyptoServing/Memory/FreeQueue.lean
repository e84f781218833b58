import PyptoServing.Memory.Blocks

/-!
# The free queue spells a list

What `append` and `remove` do to the list that the pointers spell, and what they
leave alone: reference counts, hashes, and the pointers of every block
outside the queue.
-/
namespace PyptoServing.Memory

open Lib.LinkedQueue

namespace BlockHeap

def prev (heap : BlockHeap) (b : BlockId) : Option BlockId := (heap b).prevFree
def next (heap : BlockHeap) (b : BlockId) : Option BlockId := (heap b).nextFree

@[simp] theorem prev_apply (heap : BlockHeap) (b : BlockId) : heap.prev b = (heap b).prevFree := rfl
@[simp] theorem next_apply (heap : BlockHeap) (b : BlockId) : heap.next b = (heap b).nextFree := rfl

/-- Reference counts and hashes agree. -/
def SameData (heap heap' : BlockHeap) : Prop :=
  ∀ c, (heap' c).refCnt = (heap c).refCnt ∧ (heap' c).blockHash = (heap c).blockHash

/-- The pointers of every block outside `l` agree. -/
def SamePointers (l : List BlockId) (heap heap' : BlockHeap) : Prop :=
  ∀ c, c ∉ l → (heap' c).prevFree = (heap c).prevFree ∧ (heap' c).nextFree = (heap c).nextFree

theorem SameData.refl (heap : BlockHeap) : SameData heap heap := fun _ => ⟨rfl, rfl⟩

theorem SameData.trans {h₁ h₂ h₃ : BlockHeap} (h : SameData h₁ h₂) (h' : SameData h₂ h₃) :
    SameData h₁ h₃ :=
  fun c => ⟨(h' c).1.trans (h c).1, (h' c).2.trans (h c).2⟩

end BlockHeap

open BlockHeap

namespace FreeKVCacheBlockQueue
variable {q : FreeKVCacheBlockQueue} {heap heap' : BlockHeap} {l l₁ l₂ : List BlockId} {b : BlockId}

/-- The pointers spell `l` from head to tail, and the counter counts it. -/
structure Spells (q : FreeKVCacheBlockQueue) (heap : BlockHeap) (l : List BlockId) : Prop where
  isQueue : IsQueue heap.prev heap.next q.head q.tail l
  count_eq : q.count = l.length

theorem spells_empty (heap : BlockHeap) : Spells {} heap [] := ⟨isQueue_nil, rfl⟩

/-- Changes outside the queue do not move it. -/
theorem Spells.congr (h : Spells q heap l) (hp : ∀ c ∈ l, heap'.prev c = heap.prev c)
    (hn : ∀ c ∈ l, heap'.next c = heap.next c) : Spells q heap' l :=
  ⟨h.isQueue.congr hp hn, h.count_eq⟩

theorem append_sameData (q : FreeKVCacheBlockQueue) (heap : BlockHeap) (b : BlockId) :
    SameData heap (q.append heap b).2 := by
  intro c
  simp only [append, modify?_apply, modify_apply]
  split_ifs <;> simp_all

/-- Appending a block that is not queued puts it at the end. -/
theorem Spells.append (h : Spells q heap l) (hb : b ∉ l) :
    Spells (q.append heap b).1 (q.append heap b).2 (l ++ [b]) := by
  have hq := h.isQueue
  have hne : ∀ x ∈ l, x ≠ b := fun x hx he => hb (he ▸ hx)
  have htail : ∀ t, q.tail = some t → t ∈ l := fun t ht =>
    List.mem_of_getLast? (by rw [← hq.tail_eq, ht])
  have hbt : q.tail ≠ some b := fun ht => hb (htail b ht)
  have hqueue := hq.append (q.append heap b).2.prev (q.append heap b).2.next
    hb (by simp [FreeKVCacheBlockQueue.append, modify?_apply, hbt])
    (by simp [FreeKVCacheBlockQueue.append, modify?_apply, hbt])
    (fun x hx => by
      by_cases hxt : q.tail = some x <;>
        simp [FreeKVCacheBlockQueue.append, modify?_apply, hxt, hne x hx])
    (fun t ht => by simp [FreeKVCacheBlockQueue.append, modify?_apply, ht])
    (fun x hx hxt => by simp [FreeKVCacheBlockQueue.append, modify?_apply, hxt, hne x hx])
  refine ⟨?_, by simp [FreeKVCacheBlockQueue.append, h.count_eq]⟩
  have hhead : (q.append heap b).1.head = q.head.or (some b) := by
    rw [hq.head_eq]
    cases l with
    | nil => simp [FreeKVCacheBlockQueue.append, hq.tail_eq]
    | cons c l => simp [FreeKVCacheBlockQueue.append, hq.tail_eq, hq.head_eq]
  rw [hhead]
  exact hqueue

/-- Appending touches the pointers of the old tail and of the block only. -/
theorem Spells.append_samePointers (h : Spells q heap l) (b : BlockId) :
    SamePointers (l ++ [b]) heap (q.append heap b).2 := by
  intro c hc
  simp only [List.mem_append, List.mem_singleton, not_or] at hc
  obtain ⟨hcl, hcb⟩ := hc
  have hct : q.tail ≠ some c := fun he =>
    hcl (List.mem_of_getLast? (by rw [← h.isQueue.tail_eq, he]))
  simp [FreeKVCacheBlockQueue.append, modify?_apply, hcb, hct]

theorem remove_sameData (q : FreeKVCacheBlockQueue) (heap : BlockHeap) (b : BlockId) :
    SameData heap (q.remove heap b).2 := by
  intro c
  unfold remove
  dsimp only
  split
  · exact ⟨rfl, rfl⟩
  · simp only [modify?_apply, modify_apply]
    split_ifs <;> simp_all

/-- The queue and heap after unlinking `b` from between `p` and `n`. -/
def unlinked (q : FreeKVCacheBlockQueue) (heap : BlockHeap) (b : BlockId) (p n : Option BlockId) :
    FreeKVCacheBlockQueue × BlockHeap :=
  ({ head := if p.isSome then q.head else n
     tail := if n.isSome then q.tail else p
     count := q.count - 1 },
    fun c =>
      { heap c with
        prevFree := if c = b then none else if n = some c then p else (heap c).prevFree
        nextFree := if c = b then none else if p = some c then n else (heap c).nextFree })

/-- On a queued block `remove` takes the unlinking branch, with both neighbours read
from the block itself. -/
theorem Spells.remove_eq (h : Spells q heap (l₁ ++ b :: l₂)) :
    q.remove heap b = unlinked q heap b l₁.getLast? l₂.head? := by
  have hq := h.isQueue
  obtain ⟨hp, hn⟩ := hq.pointers
  rw [prev_apply] at hp
  rw [next_apply] at hn
  have hlinked : ¬ (q.head ≠ some b ∧ q.tail ≠ some b ∧ l₁.getLast? = none ∧ l₂.head? = none) := by
    rintro ⟨hh, -, hp', -⟩
    rw [List.getLast?_eq_none_iff] at hp'
    subst hp'
    exact hh hq.head_eq
  unfold FreeKVCacheBlockQueue.remove unlinked
  simp only [hp, hn]
  rw [if_neg hlinked]
  refine Prod.ext rfl (funext fun c => ?_)
  simp only [modify?_apply, modify_apply]
  by_cases hc : c = b
  · subst hc
    by_cases h1 : l₂.head? = some c <;> by_cases h2 : l₁.getLast? = some c <;> simp [h1, h2]
  · by_cases h1 : l₂.head? = some c <;> by_cases h2 : l₁.getLast? = some c <;> simp [hc, h1, h2]

/-- Removing a queued block takes it out of the list, wherever it stands. -/
theorem Spells.remove (h : Spells q heap (l₁ ++ b :: l₂)) :
    Spells (q.remove heap b).1 (q.remove heap b).2 (l₁ ++ l₂) := by
  rw [h.remove_eq]
  have hq := h.isQueue
  have hnd := hq.nodup
  have hne : ∀ x ∈ l₁ ++ l₂, x ≠ b := by
    rintro x hx rfl
    simp [List.nodup_append] at hnd
    rcases List.mem_append.mp hx with hx | hx
    · exact (hnd.2.2 x hx).1 rfl
    · exact hnd.2.1.1 hx
  have hqueue := hq.remove
    (unlinked q heap b l₁.getLast? l₂.head?).2.prev
    (unlinked q heap b l₁.getLast? l₂.head?).2.next
    (fun t ht => by simp [unlinked, ht, hne t (by simp [List.mem_of_getLast? ht])])
    (fun t ht => by simp [unlinked, ht, hne t (by simp [List.mem_of_head? ht])])
    (fun x hx hx' => by simp [unlinked, hx', hne x hx])
    (fun x hx hx' => by simp [unlinked, hx', hne x hx])
  refine ⟨?_, ?_⟩
  · have h1 : (if l₁ = [] then l₂.head? else q.head) =
        if l₁.getLast?.isSome then q.head else l₂.head? := by
      by_cases he : l₁ = [] <;> simp [he, List.getLast?_isSome]
    have h2 : (if l₂ = [] then l₁.getLast? else q.tail) =
        if l₂.head?.isSome then q.tail else l₁.getLast? := by
      cases l₂ <;> simp
    rw [h1, h2] at hqueue
    exact hqueue
  · have := h.count_eq
    simp only [List.length_append, List.length_cons] at this
    simp only [unlinked, List.length_append]
    omega

theorem Spells.remove_samePointers (h : Spells q heap (l₁ ++ b :: l₂)) :
    SamePointers (l₁ ++ b :: l₂) heap (q.remove heap b).2 := by
  intro c hc
  rw [h.remove_eq]
  simp only [List.mem_append, List.mem_cons, not_or] at hc
  obtain ⟨hc1, hcb, hc2⟩ := hc
  have hp : l₁.getLast? ≠ some c := fun he => hc1 (List.mem_of_getLast? he)
  have hn : l₂.head? ≠ some c := fun he => hc2 (List.mem_of_head? he)
  simp [unlinked, hcb, hp, hn]

/-- Appending several fresh blocks, in order. -/
theorem Spells.appendN (h : Spells q heap l) {bs : List BlockId} (hbs : (l ++ bs).Nodup) :
    Spells (q.appendN heap bs).1 (q.appendN heap bs).2 (l ++ bs) := by
  induction bs generalizing q heap l with
  | nil => simpa [FreeKVCacheBlockQueue.appendN] using h
  | cons b bs ih =>
    have hb : b ∉ l := by
      intro hb
      simp [List.nodup_append] at hbs
      exact (hbs.2.2 b hb).1 rfl
    have := ih (h.append hb) (by simpa using hbs)
    simpa [FreeKVCacheBlockQueue.appendN] using this

theorem appendN_sameData (q : FreeKVCacheBlockQueue) (heap : BlockHeap) (bs : List BlockId) :
    SameData heap (q.appendN heap bs).2 := by
  induction bs generalizing q heap with
  | nil => exact .refl heap
  | cons b bs ih => exact (append_sameData q heap b).trans (ih _ _)

theorem Spells.appendN_samePointers (h : Spells q heap l) {bs : List BlockId}
    (hbs : (l ++ bs).Nodup) : SamePointers (l ++ bs) heap (q.appendN heap bs).2 := by
  induction bs generalizing q heap l with
  | nil => exact fun c _ => ⟨rfl, rfl⟩
  | cons b bs ih =>
    have hb : b ∉ l := by
      intro hb
      simp [List.nodup_append] at hbs
      exact (hbs.2.2 b hb).1 rfl
    intro c hc
    have h1 := h.append_samePointers b c (by simp at hc ⊢; tauto)
    have h2 := ih (h.append hb) (by simpa using hbs) c (by simpa using hc)
    exact ⟨h2.1.trans h1.1, h2.2.trans h1.2⟩

end FreeKVCacheBlockQueue
end PyptoServing.Memory
