import Mathlib

/-!
# Generation tags

A resource is tagged anew each time it is handed out. The counter of a resource wraps at a
limit; up to then a tag names one registration of the resource.
-/
namespace PyptoServing.Lib.Generation

variable {κ ω : Type*} [DecidableEq κ] {limit : Nat}

/-- A resource handed out to an owner with a tag. -/
structure Registration (κ ω : Type*) where
  owner : ω
  key : κ
  tag : Nat
  deriving DecidableEq

/-- The next tag; at the limit the tags start again. -/
def next (limit tag : Nat) : Nat := if limit ≤ tag + 1 then 1 else tag + 1

/-- The tag after a number of registrations. -/
def tagOf (limit : Nat) : Nat → Nat
  | 0 => 0
  | n + 1 => next limit (tagOf limit n)

/-- The registrations of a resource. -/
def of (key : κ) (log : List (Registration κ ω)) : List (Registration κ ω) :=
  log.filter (·.key = key)

/-- Every registration of a log is tagged with the number of registrations of its resource. -/
def Numbered (limit : Nat) (log : List (Registration κ ω)) : Prop :=
  ∀ before reg after, log = before ++ reg :: after →
    reg.tag = tagOf limit ((of reg.key before).length + 1)

theorem tagOf_of_lt {n : Nat} (h : n < limit) : tagOf limit n = n := by
  induction n with
  | zero => rfl
  | succ n ih => rw [tagOf, ih (by omega), next, if_neg (by omega)]

theorem numbered_nil : Numbered limit ([] : List (Registration κ ω)) := by
  intro before reg after h
  cases before <;> cases h

theorem of_append (key : κ) (log log' : List (Registration κ ω)) :
    of key (log ++ log') = of key log ++ of key log' := List.filter_append ..

theorem of_single (reg : Registration κ ω) : of reg.key [reg] = [reg] := by
  rw [of, List.filter_cons_of_pos (by simp), List.filter_nil]

theorem of_single_ne {reg : Registration κ ω} {key : κ} (h : reg.key ≠ key) :
    of key [reg] = [] := by
  rw [of, List.filter_cons_of_neg (by simpa using h), List.filter_nil]

/-- A registration with the next tag keeps the numbering. -/
theorem Numbered.snoc {log : List (Registration κ ω)} (h : Numbered limit log)
    {reg : Registration κ ω} (hreg : reg.tag = tagOf limit ((of reg.key log).length + 1)) :
    Numbered limit (log ++ [reg]) := by
  intro before reg' after hsplit
  rcases List.append_eq_append_iff.mp hsplit with ⟨l, hlog, hrest⟩ | ⟨l, hlog, hrest⟩
  · cases l with
    | nil =>
      rw [List.nil_append] at hrest
      obtain ⟨rfl, -⟩ := List.cons.inj hrest
      rwa [hlog, List.append_nil]
    | cons x l =>
      have hlen := congrArg List.length hrest
      simp at hlen
  · cases l with
    | nil =>
      rw [List.nil_append] at hrest
      obtain ⟨rfl, -⟩ := List.cons.inj hrest
      rw [List.append_nil] at hlog
      rwa [← hlog]
    | cons x l =>
      obtain ⟨rfl, -⟩ := List.cons.inj hrest
      exact h before reg' l hlog

/-- Two registrations of a resource have the same tag only after the counter wrapped. -/
theorem Numbered.fresh {log before between after : List (Registration κ ω)}
    {reg reg' : Registration κ ω} (h : Numbered limit log)
    (hlog : log = before ++ reg :: between ++ reg' :: after) (hkey : reg.key = reg'.key)
    (htag : reg.tag = reg'.tag) :
    limit ≤ (of reg'.key (before ++ reg :: between)).length + 1 := by
  by_contra hlt
  have hfirst := h before reg (between ++ reg' :: after) (by rw [hlog, List.append_assoc]; rfl)
  have hsecond := h (before ++ reg :: between) reg' after hlog
  have hcount : (of reg'.key (before ++ reg :: between)).length =
      (of reg.key before).length + 1 + (of reg.key between).length := by
    have hcons : reg :: between = [reg] ++ between := rfl
    rw [← hkey, hcons, of_append, of_append, of_single, List.length_append, List.length_append,
      List.length_singleton]
    omega
  rw [tagOf_of_lt (by omega)] at hfirst hsecond
  omega

/-- The last registration of a resource keeps its tag to itself until the counter wraps. -/
theorem Numbered.none_since {log ext : List (Registration κ ω)} {key : κ}
    {reg reg' : Registration κ ω} (h : Numbered limit (log ++ ext))
    (hlast : (of key log).getLast? = some reg)
    (hlast' : (of key (log ++ ext)).getLast? = some reg') (htag : reg.tag = reg'.tag)
    (hlt : (of key (log ++ ext)).length < limit) : of key ext = [] := by
  by_contra hne
  have hext : (of key ext).getLast? = some reg' := by
    rwa [of_append, List.getLast?_append_of_ne_nil _ hne] at hlast'
  have hmem := List.mem_of_getLast? hlast
  have hmem' := List.mem_of_getLast? hext
  obtain ⟨hin, hkey⟩ := List.mem_filter.mp hmem
  obtain ⟨hin', hkey'⟩ := List.mem_filter.mp hmem'
  obtain ⟨before, rest, rfl⟩ := List.append_of_mem hin
  obtain ⟨before', after, rfl⟩ := List.append_of_mem hin'
  have hk : reg.key = key := of_decide_eq_true hkey
  have hk' : reg'.key = key := of_decide_eq_true hkey'
  have hsplit : before ++ reg :: rest ++ (before' ++ reg' :: after) =
      before ++ reg :: (rest ++ before') ++ reg' :: after := by simp
  have hwrap := h.fresh hsplit (hk.trans hk'.symm) htag
  rw [hsplit, of_append, List.length_append] at hlt
  have hone : 1 ≤ (of key (reg' :: after)).length := by
    apply List.length_pos_iff_exists_mem.mpr
    exact ⟨reg', List.mem_filter.mpr ⟨List.mem_cons_self .., hkey'⟩⟩
  rw [hk'] at hwrap
  omega

end PyptoServing.Lib.Generation
