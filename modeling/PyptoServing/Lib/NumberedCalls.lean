import Mathlib

/-!
# Numbered calls

A caller numbers its calls and a server answers them in order. The caller abandons the calls that
it no longer waits for, and drops their replies when they come.
-/
namespace PyptoServing.Lib.NumberedCalls

variable {sent received id : Nat} {abandoned awaited rest : List Nat}

/-- The calls without a reply: the abandoned ones, then those that the caller waits for. -/
structure Window (sent received : Nat) (abandoned awaited : List Nat) : Prop where
  le : received ≤ sent
  ids : abandoned ++ awaited = List.range' (received + 1) (sent - received)

namespace Window

theorem start : Window 0 0 [] [] := ⟨le_rfl, rfl⟩

theorem send (h : Window sent received abandoned awaited) :
    Window (sent + 1) received abandoned (awaited ++ [sent + 1]) := by
  have hle := h.le
  refine ⟨by omega, ?_⟩
  rw [← List.append_assoc, h.ids, show sent + 1 - received = sent - received + 1 by omega,
    List.range'_1_concat]
  simp only [List.append_cancel_left_eq, List.cons.injEq, and_true]
  omega

/-- Giving up on the calls that were awaited longest. -/
theorem abandon (h : Window sent received abandoned (awaited ++ rest)) :
    Window sent received (abandoned ++ awaited) rest :=
  ⟨h.le, by rw [List.append_assoc, h.ids]⟩

theorem mem_iff (h : Window sent received abandoned awaited) :
    id ∈ abandoned ∨ id ∈ awaited ↔ received < id ∧ id ≤ sent := by
  have hle := h.le
  rw [← List.mem_append, h.ids, List.mem_range'_1]
  omega

/-- The abandoned calls are those without a reply that are not awaited. -/
theorem mem_abandoned (h : Window sent received abandoned awaited) :
    id ∈ abandoned ↔ (received < id ∧ id ≤ sent) ∧ id ∉ awaited := by
  have hnodup : (abandoned ++ awaited).Nodup := h.ids ▸ List.nodup_range'
  have hdisjoint := (List.nodup_append'.mp hnodup).2.2
  rw [← h.mem_iff]
  constructor
  · exact fun hid => ⟨.inl hid, fun hid' => hdisjoint hid hid'⟩
  · rintro ⟨hid | hid, hnot⟩
    · exact hid
    · exact absurd hid hnot

/-- The next reply is for an abandoned call if there is one. -/
theorem next_abandoned (h : Window sent received (id :: rest) awaited) : id = received + 1 := by
  have hids := h.ids
  cases hn : sent - received with
  | zero =>
    rw [hn] at hids
    cases hids
  | succ n =>
    rw [hn, List.cons_append, List.range'_succ] at hids
    exact (List.cons.inj hids).1

/-- A reply that is not for an abandoned call is for the first one awaited. -/
theorem reply (h : Window sent received abandoned (id :: awaited)) (hnot : received + 1 ∉ abandoned) :
    abandoned = [] ∧ id = received + 1 ∧ Window sent (received + 1) [] awaited := by
  cases abandoned with
  | cons first abandoned => exact absurd (by simp [h.next_abandoned]) hnot
  | nil =>
    have hids := h.ids
    cases hn : sent - received with
    | zero =>
      rw [hn] at hids
      cases hids
    | succ n =>
      rw [hn, List.nil_append, List.range'_succ] at hids
      obtain ⟨hid, hrest⟩ := List.cons.inj hids
      refine ⟨rfl, hid, by omega, ?_⟩
      rw [List.nil_append, hrest, show sent - (received + 1) = n by omega]

/-- A reply for an abandoned call is dropped. -/
theorem drop (h : Window sent received abandoned awaited) (hmem : received + 1 ∈ abandoned) :
    Window sent (received + 1) (abandoned.filter (· ≠ received + 1)) awaited := by
  cases abandoned with
  | nil => cases hmem
  | cons first abandoned =>
    obtain rfl := h.next_abandoned
    have hids := h.ids
    cases hn : sent - received with
    | zero =>
      rw [hn] at hids
      cases hids
    | succ n =>
      rw [hn, List.cons_append, List.range'_succ] at hids
      have hrest := (List.cons.inj hids).2
      have hkeep : abandoned.filter (· ≠ received + 1) = abandoned := by
        rw [List.filter_eq_self]
        intro x hx
        have hmem : x ∈ List.range' (received + 1 + 1) n := by
          rw [← hrest]
          exact List.mem_append_left _ hx
        have hlt := (List.mem_range'_1.mp hmem).1
        exact decide_eq_true (by omega)
      rw [List.filter_cons_of_neg (by simp), hkeep]
      refine ⟨by omega, ?_⟩
      rw [hrest, show sent - (received + 1) = n by omega]

end Window
end PyptoServing.Lib.NumberedCalls
