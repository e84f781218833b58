import Mathlib

/-!
# Dictionaries with a weight

Association lists without duplicate keys, as a program's dictionaries. `weight`
sums a natural number over all entries; the two update rules say how an
insertion and an erasure move that sum.
-/
namespace PyptoServing.Lib

/-- A dictionary: one value per key, in insertion order. -/
abbrev Dict (κ : Type*) (α : Type*) := AList (fun _ : κ => α)

namespace Dict
variable {κ α : Type*} [DecidableEq κ]

/-- A dictionary from the pairs of a comprehension; the first pair of a key counts. -/
def ofList (l : List (κ × α)) : Dict κ α :=
  (l.map fun e => (⟨e.1, e.2⟩ : Sigma fun _ : κ => α)).toAList

/-- `d.setdefault(k, v)` without its result. -/
def setDefault (d : Dict κ α) (k : κ) (v : α) : Dict κ α :=
  if (d.lookup k).isSome then d else d.insert k v

/-- The sum of `f` over all values. -/
def weight (f : α → Nat) (d : Dict κ α) : Nat := (d.entries.map fun e => f e.2).sum

/-- A dictionary with the same keys. -/
def mapValues {β : Type*} (f : α → β) (d : Dict κ α) : Dict κ β :=
  ⟨d.entries.map fun e => ⟨e.1, f e.2⟩, by
    rw [List.NodupKeys, List.keys, List.map_map]
    exact d.nodupKeys⟩

/-- `d == e`. -/
def same [DecidableEq α] (d e : Dict κ α) : Bool :=
  (d.keys ++ e.keys).all fun k => d.lookup k = e.lookup k

theorem lookup_ofList (l : List (κ × α)) (k : κ) :
    (ofList l).lookup k = (l.find? fun e => e.1 = k).map (·.2) := by
  rw [ofList, AList.lookup_to_alist]
  induction l with
  | nil => rfl
  | cons e l ih =>
    by_cases hk : e.1 = k
    · subst hk
      simp
    · rw [List.map_cons, List.dlookup_cons_ne _ _ (fun h => hk h.symm), ih, List.find?_cons]
      simp [hk]

theorem mem_keys_ofList (l : List (κ × α)) (k : κ) :
    k ∈ (ofList l).keys ↔ k ∈ l.map (·.1) := by
  rw [AList.mem_keys.symm, ← AList.lookup_isSome, lookup_ofList, Option.isSome_map,
    List.find?_isSome, List.mem_map]
  simp

theorem entries_ofList_ne {l : List (κ × α)} (h : l ≠ []) : (ofList l).entries ≠ [] := by
  obtain ⟨e, l, rfl⟩ := List.exists_cons_of_ne_nil h
  intro hempty
  have hmem : e.1 ∈ (ofList (e :: l)).keys := (mem_keys_ofList _ _).mpr (by simp)
  rw [AList.keys, hempty] at hmem
  cases hmem

theorem lookup_mapValues {β : Type*} (f : α → β) (d : Dict κ α) (k : κ) :
    (mapValues f d).lookup k = (d.lookup k).map f := by
  obtain ⟨l, hl⟩ := d
  show List.dlookup k (l.map fun e => (⟨e.1, f e.2⟩ : Sigma fun _ : κ => β)) =
    (List.dlookup k l).map f
  induction l with
  | nil => rfl
  | cons e l ih =>
    by_cases hk : k = e.1
    · subst hk
      simp [List.dlookup]
    · have hne := List.dlookup_cons_ne (l.map fun e => (⟨e.1, f e.2⟩ : Sigma fun _ : κ => β))
        ⟨e.1, f e.2⟩ hk
      rw [List.map_cons, hne, List.dlookup_cons_ne _ _ hk, ih (List.nodupKeys_cons.mp hl).2]

/-- Equal dictionaries bind the same keys to the same values. -/
theorem same_iff [DecidableEq α] {d e : Dict κ α} :
    same d e = true ↔ ∀ k, d.lookup k = e.lookup k := by
  unfold same
  rw [List.all_eq_true]
  refine ⟨fun h k => ?_, fun h k _ => by simpa using h k⟩
  by_cases hk : k ∈ d.keys ++ e.keys
  · simpa using h k hk
  · rw [List.mem_append, not_or] at hk
    rw [AList.lookup_eq_none.mpr hk.1, AList.lookup_eq_none.mpr hk.2]

/-- A comprehension over objects with distinct keys gives each object its own value. -/
theorem lookup_ofList_map {ι : Type*} {l : List ι} (key : ι → κ) (hl : (l.map key).Nodup)
    (f : ι → α) {i : ι} (hi : i ∈ l) :
    (ofList (l.map fun i => (key i, f i))).lookup (key i) = some (f i) := by
  rw [lookup_ofList]
  induction l with
  | nil => simp at hi
  | cons j l ih =>
    obtain ⟨hj, hl⟩ := List.nodup_cons.mp hl
    by_cases hk : key j = key i
    · rcases List.mem_cons.mp hi with rfl | hi
      · simp
      · exact absurd (List.mem_map.mpr ⟨i, hi, hk.symm⟩) hj
    · have hi' : i ∈ l := by
        rcases List.mem_cons.mp hi with rfl | hi
        · exact absurd rfl hk
        · exact hi
      simpa [List.map_cons, List.find?_cons, hk] using ih hl hi'

/-- Taking a key out lowers the weight by its value's. -/
theorem weight_erase (f : α → Nat) (d : Dict κ α) (k : κ) :
    weight f (d.erase k) + ((d.lookup k).map f).getD 0 = weight f d := by
  obtain ⟨l, hl⟩ := d
  show ((List.kerase k l).map fun e => f e.2).sum + ((List.dlookup k l).map f).getD 0 =
    (l.map fun e => f e.2).sum
  induction l with
  | nil => rfl
  | cons e l ih =>
    obtain ⟨_, hl'⟩ := List.nodupKeys_cons.mp hl
    by_cases hk : k = e.1
    · obtain ⟨k', v⟩ := e
      subst hk
      simp [Nat.add_comm]
    · have := ih hl'
      rw [List.kerase_cons_ne hk, List.dlookup_cons_ne _ _ hk, List.map_cons, List.sum_cons,
        List.map_cons, List.sum_cons]
      omega

/-- Binding a key replaces its value's share of the weight. -/
theorem weight_insert (f : α → Nat) (d : Dict κ α) (k : κ) (v : α) :
    weight f (d.insert k v) + ((d.lookup k).map f).getD 0 = weight f d + f v := by
  have he : weight f (d.insert k v) = f v + weight f (d.erase k) := by
    show ((List.kinsert k v d.entries).map fun e => f e.2).sum = _
    simp [List.kinsert, weight, AList.erase]
  have := weight_erase f d k
  omega

theorem weight_eq_zero {f : α → Nat} {d : Dict κ α} (h : ∀ k v, d.lookup k = some v → f v = 0) :
    weight f d = 0 := by
  refine List.sum_eq_zero fun n hn => ?_
  obtain ⟨e, he, rfl⟩ := List.mem_map.mp hn
  exact h e.1 e.2 (AList.mem_lookup_iff.mpr he)

/-- A value's share is part of the weight. -/
theorem le_weight (f : α → Nat) {d : Dict κ α} {k : κ} {v : α} (h : d.lookup k = some v) :
    f v ≤ weight f d := by
  have := weight_erase f d k
  rw [h] at this
  simp at this
  omega

theorem lookup_setDefault_self (d : Dict κ α) (k : κ) (v : α) :
    (setDefault d k v).lookup k = some ((d.lookup k).getD v) := by
  unfold setDefault
  cases h : d.lookup k <;> simp [h]

theorem lookup_setDefault_ne (d : Dict κ α) {k k' : κ} (hk : k' ≠ k) (v : α) :
    (setDefault d k v).lookup k' = d.lookup k' := by
  unfold setDefault
  split
  · rfl
  · exact AList.lookup_insert_ne hk

section InsertAll
variable {ι : Type*} (key : ι → κ) (val : ι → Option α)

def insertSome (d : Dict κ α) (k : κ) : Option α → Dict κ α
  | none => d
  | some v => d.insert k v

/-- A loop that inserts values. -/
def insertAll (l : List ι) (d : Dict κ α) : Dict κ α :=
  l.foldl (fun d i => insertSome d (key i) (val i)) d

variable {key val} {l : List ι} {d : Dict κ α} {k : κ} {v : α}

theorem insertAll_cons (i : ι) : insertAll key val (i :: l) d =
    insertAll key val l (insertSome d (key i) (val i)) := rfl

theorem lookup_insertSome_ne {k' : κ} {o : Option α} (h : k ≠ k') :
    (insertSome d k' o).lookup k = d.lookup k := by
  cases o with
  | none => rfl
  | some v => exact AList.lookup_insert_ne h

theorem insertAll_keeps (h : (d.lookup k).isSome) : ((insertAll key val l d).lookup k).isSome := by
  induction l generalizing d with
  | nil => exact h
  | cons i l ih =>
    rw [insertAll_cons]
    refine ih ?_
    by_cases hki : k = key i
    · subst hki
      cases val i with
      | none => exact h
      | some w => simp [insertSome]
    · rwa [lookup_insertSome_ne hki]

/-- A key with a value to insert is found. -/
theorem insertAll_some {i : ι} (hi : i ∈ l) (hkey : key i = k) (hval : (val i).isSome) :
    ((insertAll key val l d).lookup k).isSome := by
  induction l generalizing d with
  | nil => simp at hi
  | cons j l ih =>
    rw [insertAll_cons]
    rcases List.mem_cons.mp hi with rfl | hi
    · refine insertAll_keeps ?_
      obtain ⟨w, hw⟩ := Option.isSome_iff_exists.mp hval
      simp [hw, hkey, insertSome]
    · exact ih hi

/-- What a key is found with was inserted for it, or is its old value. -/
theorem insertAll_from (h : (insertAll key val l d).lookup k = some v) :
    (∃ i ∈ l, key i = k ∧ val i = some v) ∨
      (∀ i ∈ l, key i = k → val i = none) ∧ d.lookup k = some v := by
  induction l generalizing d with
  | nil => exact .inr ⟨by simp, h⟩
  | cons i l ih =>
    rw [insertAll_cons] at h
    rcases ih h with ⟨j, hj, hkey, hvj⟩ | ⟨hnone, hd⟩
    · exact .inl ⟨j, by simp [hj], hkey, hvj⟩
    · by_cases hki : k = key i
      · subst hki
        cases hval : val i with
        | none =>
          rw [hval] at hd
          exact .inr ⟨List.forall_mem_cons.mpr ⟨fun _ => hval, hnone⟩, hd⟩
        | some w =>
          rw [hval, insertSome, AList.lookup_insert] at hd
          cases hd
          exact .inl ⟨i, by simp, rfl, hval⟩
      · rw [lookup_insertSome_ne hki] at hd
        exact .inr ⟨List.forall_mem_cons.mpr ⟨fun h => absurd h.symm hki, hnone⟩, hd⟩

/-- A key for which all inserted values are the same. -/
theorem lookup_insertAll {i : ι} (hi : i ∈ l) (hkey : key i = k) (hval : val i = some v)
    (hunique : ∀ j ∈ l, key j = k → ∀ w, val j = some w → w = v) :
    (insertAll key val l d).lookup k = some v := by
  obtain ⟨w, hw⟩ := Option.isSome_iff_exists.mp
    (insertAll_some (d := d) hi hkey (Option.isSome_of_eq_some hval))
  rcases insertAll_from hw with ⟨j, hj, hkeyj, hvj⟩ | ⟨hnone, -⟩
  · rw [hw, hunique j hj hkeyj w hvj]
  · have := hnone i hi hkey
    rw [hval] at this
    cases this

theorem lookup_insertAll_of_none (h : ∀ i ∈ l, key i = k → val i = none) :
    (insertAll key val l d).lookup k = d.lookup k := by
  induction l generalizing d with
  | nil => rfl
  | cons i l ih =>
    rw [insertAll_cons, ih fun j hj => h j (by simp [hj])]
    by_cases hki : k = key i
    · rw [h i (by simp) hki.symm]
      rfl
    · exact lookup_insertSome_ne hki

/-- Inserting for every entry of another dictionary. -/
theorem lookup_insertAll_entries {β : Type*} {f : (Σ _ : κ, β) → Option α} {e : Dict κ β} {b : β}
    (hb : e.lookup k = some b) (hf : f ⟨k, b⟩ = some v) :
    (insertAll (·.1) f e.entries d).lookup k = some v := by
  have hmem : (⟨k, b⟩ : Σ _ : κ, β) ∈ e.entries := (List.mem_dlookup_iff e.nodupKeys).mp hb
  refine lookup_insertAll hmem rfl hf ?_
  rintro ⟨k', b'⟩ hmem' hk w hw
  cases hk
  have heq := (List.mem_dlookup_iff e.nodupKeys).mpr hmem'
  rw [show List.dlookup k' e.entries = some b from hb] at heq
  cases heq
  rw [hf] at hw
  cases hw
  rfl

theorem lookup_insertAll_entries_none {β : Type*} {f : (Σ _ : κ, β) → Option α} {e : Dict κ β}
    (he : e.lookup k = none) : (insertAll (·.1) f e.entries d).lookup k = d.lookup k := by
  refine lookup_insertAll_of_none ?_
  rintro ⟨k', b'⟩ hmem hk
  cases hk
  have heq := (List.mem_dlookup_iff e.nodupKeys).mpr hmem
  rw [show List.dlookup k' e.entries = none from he] at heq
  cases heq

end InsertAll

/-- `d[k] = v` for the pairs of a list, one after the other. -/
def assign (d : Dict κ α) (l : List (κ × α)) : Dict κ α :=
  insertAll Prod.fst (fun e => some e.2) l d

theorem mem_of_lookup_assign {l : List (κ × α)} {k : κ} {v : α}
    (h : (assign ∅ l).lookup k = some v) : (k, v) ∈ l := by
  rcases insertAll_from h with ⟨⟨k', v'⟩, hmem, rfl, hv⟩ | ⟨-, h⟩
  · cases hv
    exact hmem
  · cases h

theorem lookup_assign_isSome {l : List (κ × α)} {d : Dict κ α} {k : κ} (h : k ∈ l.map (·.1)) :
    ((assign d l).lookup k).isSome := by
  obtain ⟨e, he, hk⟩ := List.mem_map.mp h
  exact insertAll_some he hk rfl

/-- A list that binds no key twice is the dictionary that it is assigned to. -/
theorem lookup_assign {l : List (κ × α)} (hl : ∀ k v v', (k, v) ∈ l → (k, v') ∈ l → v = v')
    {k : κ} {v : α} : (assign ∅ l).lookup k = some v ↔ (k, v) ∈ l := by
  refine ⟨mem_of_lookup_assign, fun h => ?_⟩
  obtain ⟨w, hw⟩ := Option.isSome_iff_exists.mp
    (lookup_assign_isSome (d := ∅) (List.mem_map_of_mem (f := Prod.fst) h))
  rw [hw, hl k w v (mem_of_lookup_assign hw) h]

/-- Counting the values of a dictionary is counting the keys that have such a value. -/
theorem countP_values (f : α → Bool) (d : Dict κ α) {l : List κ} (hl : l.Nodup)
    (hkeys : ∀ k, (d.lookup k).isSome → k ∈ l) :
    (d.entries.countP fun e => f e.2) = l.countP fun k => (d.lookup k).any f := by
  have hvalue : ∀ e ∈ d.entries, d.lookup e.1 = some e.2 := fun e he =>
    AList.mem_lookup_iff.mpr he
  have hcount : (d.entries.countP fun e => f e.2) =
      d.keys.countP fun k => (d.lookup k).any f := by
    rw [AList.keys, List.keys, List.countP_map]
    refine List.countP_congr fun e he => ?_
    rw [Function.comp_apply, hvalue e he, Option.any_some]
  rw [hcount, List.countP_eq_length_filter, List.countP_eq_length_filter]
  apply List.Perm.length_eq
  rw [List.perm_ext_iff_of_nodup (d.keys_nodup.filter _) (hl.filter _)]
  intro k
  simp only [List.mem_filter]
  refine and_congr_left fun hk => ⟨fun hmem => hkeys k ?_, fun _ => ?_⟩
  · rwa [AList.lookup_isSome, AList.mem_keys]
  · rw [← AList.mem_keys, ← AList.lookup_isSome]
    cases hv : d.lookup k with
    | none => simp [hv] at hk
    | some v => rfl

/-- What the values of a dictionary hold. -/
def gather {β : Type*} (f : α → Option β) (d : Dict κ α) : List β :=
  d.entries.filterMap fun e => f e.2

theorem gather_insert {β : Type*} (f : α → Option β) (d : Dict κ α) (k : κ) (v : α) :
    gather f (d.insert k v) = (f v).toList ++ gather f (d.erase k) := by
  unfold gather
  rw [AList.entries_insert, List.filterMap_cons]
  cases f v <;> rfl

/-- Taking a key out takes what its value holds. -/
theorem gather_erase {β : Type*} (f : α → Option β) (d : Dict κ α) (k : κ) :
    (gather f d).Perm (((d.lookup k).bind f).toList ++ gather f (d.erase k)) := by
  obtain ⟨l, hl⟩ := d
  show (l.filterMap fun e => f e.2).Perm
    (((List.dlookup k l).bind f).toList ++ (List.kerase k l).filterMap fun e => f e.2)
  induction l with
  | nil => exact .rfl
  | cons e l ih =>
    obtain ⟨_, hl'⟩ := List.nodupKeys_cons.mp hl
    by_cases hk : k = e.1
    · obtain ⟨k', v⟩ := e
      subst hk
      have herase : List.kerase k (⟨k, v⟩ :: l) = l := List.kerase_cons_eq rfl
      rw [List.dlookup_cons_eq, herase, List.filterMap_cons, Option.bind_some]
      cases f v <;> exact .rfl
    · rw [List.dlookup_cons_ne _ _ hk, List.kerase_cons_ne hk, List.filterMap_cons,
        List.filterMap_cons]
      cases f e.2 with
      | none => exact ih hl'
      | some x => exact ((ih hl').cons x).trans List.perm_middle.symm

/-- A new key without a value to hold changes nothing. -/
theorem gather_setDefault {β : Type*} {f : α → Option β} {v : α} (hv : f v = none) (d : Dict κ α)
    (k : κ) : (gather f (setDefault d k v)).Perm (gather f d) := by
  unfold setDefault
  split
  · exact .rfl
  · next hk =>
    rw [gather_insert, hv, Option.toList_none, List.nil_append]
    have herase := gather_erase f d k
    rw [Option.not_isSome_iff_eq_none.mp hk] at herase
    exact herase.symm

theorem mem_gather {β : Type*} {f : α → Option β} {d : Dict κ α} {x : β} :
    x ∈ gather f d ↔ ∃ k v, d.lookup k = some v ∧ f v = some x := by
  unfold gather
  rw [List.mem_filterMap]
  constructor
  · rintro ⟨e, he, hx⟩
    exact ⟨e.1, e.2, AList.mem_lookup_iff.mpr he, hx⟩
  · rintro ⟨k, v, hv, hx⟩
    exact ⟨⟨k, v⟩, AList.mem_lookup_iff.mp hv, hx⟩

end Dict
end PyptoServing.Lib
