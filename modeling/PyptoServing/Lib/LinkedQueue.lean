import Mathlib

/-!
# Intrusive doubly linked queues

Nodes of type `K` carry `prev` and `next` pointers, given here as two functions
of the whole heap. `IsQueue prev next head tail l` says that the pointers,
together with the queue's `head` and `tail`, spell exactly the list `l`. The
three operations are stated by what they do to the pointers, so a program may
store the pointers in any kind of node.
-/
namespace PyptoServing.Lib.LinkedQueue

variable {K : Type*}

/-- The nodes of `l` are linked in order, after `p` and before `q`. -/
def Linked (prev next : K → Option K) : Option K → List K → Option K → Prop
  | _, [], _ => True
  | p, b :: l, q => prev b = p ∧ next b = l.head?.or q ∧ Linked prev next (some b) l q

/-- Head, tail and pointers spell the duplicate-free list `l`. -/
structure IsQueue (prev next : K → Option K) (head tail : Option K) (l : List K) : Prop where
  head_eq : head = l.head?
  tail_eq : tail = l.getLast?
  linked : Linked prev next none l none
  nodup : l.Nodup

variable {prev next prev' next' : K → Option K} {head tail p q : Option K} {l l₁ l₂ : List K} {b : K}

theorem Linked.congr (h : Linked prev next p l q)
    (hp : ∀ x ∈ l, prev' x = prev x) (hn : ∀ x ∈ l, next' x = next x) :
    Linked prev' next' p l q := by
  induction l generalizing p with
  | nil => trivial
  | cons b l ih =>
    obtain ⟨h1, h2, h3⟩ := h
    refine ⟨(hp b (by simp)).trans h1, (hn b (by simp)).trans h2, ih h3 ?_ ?_⟩
    · exact fun x hx => hp x (by simp [hx])
    · exact fun x hx => hn x (by simp [hx])

/-- Two consecutive segments: each one's outer neighbour is the other's end. -/
theorem linked_append :
    Linked prev next p (l₁ ++ l₂) q ↔
      Linked prev next p l₁ (l₂.head?.or q) ∧ Linked prev next (l₁.getLast?.or p) l₂ q := by
  induction l₁ generalizing p with
  | nil => simp [Linked]
  | cons b l₁ ih =>
    have hlast : (b :: l₁).getLast?.or p = l₁.getLast?.or (some b) := by
      cases l₁ with
      | nil => simp
      | cons c l₁ => simp [List.getLast?_cons]
    rw [List.cons_append, Linked, Linked, ih, hlast]
    cases l₁ with
    | nil => simp [Linked, and_assoc]
    | cons c l₁ => simp only [List.cons_append, List.head?_cons, Option.or_some]; tauto

/-- Only the successor pointer of the last node depends on what follows. -/
theorem Linked.change_next {q' : Option K} (h : Linked prev next p l q) (hnd : l.Nodup)
    (hp : ∀ x ∈ l, prev' x = prev x)
    (hlast : ∀ t, l.getLast? = some t → next' t = q')
    (hn : ∀ x ∈ l, l.getLast? ≠ some x → next' x = next x) :
    Linked prev' next' p l q' := by
  induction l generalizing p with
  | nil => trivial
  | cons b l ih =>
    obtain ⟨h1, h2, h3⟩ := h
    obtain ⟨hb, hl⟩ := List.nodup_cons.mp hnd
    refine ⟨(hp b (by simp)).trans h1, ?_, ih h3 hl (fun x hx => hp x (by simp [hx])) ?_ ?_⟩
    · cases l with
      | nil => simpa using hlast b (by simp)
      | cons c l =>
        have hne : (b :: c :: l).getLast? ≠ some b := by
          intro he
          rw [List.getLast?_cons_cons] at he
          exact hb (List.mem_of_getLast? he)
        rw [hn b (by simp) hne, h2]
        simp
    · intro t ht
      apply hlast
      cases l with
      | nil => simp at ht
      | cons c l => rwa [List.getLast?_cons_cons]
    · intro x hx hne
      apply hn x (by simp [hx])
      cases l with
      | nil => simp at hx
      | cons c l => rwa [List.getLast?_cons_cons]

/-- Only the predecessor pointer of the first node depends on what precedes. -/
theorem Linked.change_prev {p' : Option K} (h : Linked prev next p l q) (hnd : l.Nodup)
    (hn : ∀ x ∈ l, next' x = next x)
    (hhead : ∀ t, l.head? = some t → prev' t = p')
    (hp : ∀ x ∈ l, l.head? ≠ some x → prev' x = prev x) :
    Linked prev' next' p' l q := by
  cases l with
  | nil => trivial
  | cons b l =>
    obtain ⟨h1, h2, h3⟩ := h
    obtain ⟨hb, _⟩ := List.nodup_cons.mp hnd
    refine ⟨hhead b (by simp), (hn b (by simp)).trans h2, h3.congr ?_ ?_⟩
    · intro x hx
      apply hp x (by simp [hx])
      simp only [List.head?_cons, ne_eq, Option.some.injEq]
      rintro rfl
      exact hb hx
    · exact fun x hx => hn x (by simp [hx])

theorem isQueue_nil : IsQueue prev next none none [] :=
  ⟨rfl, rfl, trivial, List.nodup_nil⟩

/-- Pointers outside the queue do not matter. -/
theorem IsQueue.congr (h : IsQueue prev next head tail l)
    (hp : ∀ x ∈ l, prev' x = prev x) (hn : ∀ x ∈ l, next' x = next x) :
    IsQueue prev' next' head tail l :=
  ⟨h.head_eq, h.tail_eq, h.linked.congr hp hn, h.nodup⟩

/-- Linking a new node behind the tail appends it to the list. -/
theorem IsQueue.append (h : IsQueue prev next head tail l) (prev' next' : K → Option K) (hb : b ∉ l)
    (hpb : prev' b = tail) (hnb : next' b = none)
    (hp : ∀ x ∈ l, prev' x = prev x)
    (htail : ∀ t, tail = some t → next' t = some b)
    (hn : ∀ x ∈ l, tail ≠ some x → next' x = next x) :
    IsQueue prev' next' (head.or (some b)) (some b) (l ++ [b]) := by
  refine ⟨?_, by simp, ?_, ?_⟩
  · rw [h.head_eq]
    cases l <;> simp
  · rw [linked_append]
    constructor
    · rw [h.tail_eq] at htail hn
      have := h.linked.change_next h.nodup hp (fun t ht => htail t ht) hn
      simpa using this
    · simp [Linked, hpb, hnb, h.tail_eq]
  · simpa [List.nodup_append] using ⟨h.nodup, fun x hx he => hb (he ▸ hx)⟩

/-- The neighbours of a linked node, read from its own pointers. -/
theorem IsQueue.pointers (h : IsQueue prev next head tail (l₁ ++ b :: l₂)) :
    prev b = l₁.getLast? ∧ next b = l₂.head? := by
  obtain ⟨_, h2⟩ := linked_append.mp h.linked
  obtain ⟨hp, hn, _⟩ := h2
  exact ⟨by simpa using hp, by simpa using hn⟩

/-- Relinking the neighbours of a node takes it out of the list, wherever it stood. -/
theorem IsQueue.remove (h : IsQueue prev next head tail (l₁ ++ b :: l₂))
    (prev' next' : K → Option K)
    (hpn : ∀ t, l₁.getLast? = some t → next' t = l₂.head?)
    (hnp : ∀ t, l₂.head? = some t → prev' t = l₁.getLast?)
    (hp : ∀ x ∈ l₁ ++ l₂, l₂.head? ≠ some x → prev' x = prev x)
    (hn : ∀ x ∈ l₁ ++ l₂, l₁.getLast? ≠ some x → next' x = next x) :
    IsQueue prev' next' (if l₁ = [] then l₂.head? else head) (if l₂ = [] then l₁.getLast? else tail)
      (l₁ ++ l₂) := by
  have hnd := h.nodup
  rw [List.nodup_append] at hnd
  obtain ⟨hnd1, hnd2, hdisj⟩ := hnd
  obtain ⟨_, hnd2⟩ := List.nodup_cons.mp hnd2
  obtain ⟨h1, h2⟩ := linked_append.mp h.linked
  obtain ⟨_, _, h3⟩ := h2
  have hout : ∀ x ∈ l₁, x ∉ l₂ := fun x hx hx' => hdisj x hx x (by simp [hx']) rfl
  refine ⟨?_, ?_, ?_, ?_⟩
  · rw [h.head_eq]
    cases l₁ <;> simp
  · rw [h.tail_eq]
    by_cases he : l₂ = []
    · simp [he]
    · rw [if_neg he, List.getLast?_append, List.getLast?_append]
      obtain ⟨t, ht⟩ := Option.isSome_iff_exists.mp (List.getLast?_isSome.mpr he)
      obtain ⟨c, l₂, rfl⟩ := List.exists_cons_of_ne_nil he
      rw [List.getLast?_cons_cons, ht]
  · rw [linked_append]
    constructor
    · refine h1.change_next hnd1 ?_ ?_ ?_
      · intro x hx
        exact hp x (by simp [hx]) (fun he => hout x hx (List.mem_of_head? he))
      · intro t ht
        rw [hpn t ht]
        simp
      · exact fun x hx hne => hn x (by simp [hx]) hne
    · refine h3.change_prev hnd2 ?_ ?_ ?_
      · intro x hx
        exact hn x (by simp [hx]) (fun he => hout x (List.mem_of_getLast? he) hx)
      · intro t ht
        rw [hnp t ht]
        simp
      · exact fun x hx hne => hp x (by simp [hx]) hne
  · rw [List.nodup_append]
    exact ⟨hnd1, hnd2, fun x hx y hy he => hdisj x hx y (by simp [hy]) he⟩

/-- Follow the successor pointers for at most `fuel` nodes. -/
def walk (next : K → Option K) : Nat → Option K → List K
  | 0, _ => []
  | _ + 1, none => []
  | fuel + 1, some b => b :: walk next fuel (next b)

theorem Linked.walk_eq (h : Linked prev next p l none) {fuel : Nat} (hf : l.length ≤ fuel) :
    walk next fuel l.head? = l := by
  induction l generalizing p fuel with
  | nil => cases fuel <;> rfl
  | cons b l ih =>
    obtain ⟨_, h2, h3⟩ := h
    cases fuel with
    | zero => simp at hf
    | succ fuel =>
      rw [List.head?_cons, walk, h2, Option.or_none, ih h3 (by simpa using hf)]

/-- Walking from the head visits exactly the nodes of the list. -/
theorem IsQueue.walk_eq (h : IsQueue prev next head tail l) {fuel : Nat} (hf : l.length ≤ fuel) :
    walk next fuel head = l := by
  rw [h.head_eq]
  exact h.linked.walk_eq hf

end PyptoServing.Lib.LinkedQueue
