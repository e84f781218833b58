import PyptoServing.Lib.Interruption

/-!
# Files that are put in place one by one

A file is written under a temporary name and moved to its own; a file that is there already is
left alone. Cut off anywhere and run again, the puts end in the same files, as long as no put
touches an earlier one.
-/
namespace PyptoServing.Lib

/-- What stands under each name. -/
abbrev Files (ν γ : Type) := ν → Option γ

structure Put (ν γ : Type) where
  target : ν
  temp : ν
  content : γ

namespace Files

open Raising Traced

variable {ε ν γ β : Type} [DecidableEq ν]

/-- Writing under a name; cut off, it leaves a torn file. -/
def write (torn : γ) (x : ν) (content : γ) : Raising ε (Traced (Files ν γ)) Unit := do
  change fun d => Function.update d x (some torn)
  change fun d => Function.update d x (some content)

/-- `os.replace(source, target)`. -/
def replace (source target : ν) : Raising ε (Traced (Files ν γ)) Unit :=
  change fun d => Function.update (Function.update d target (d source)) source none

def put (torn : γ) (p : Put ν γ) : Raising ε (Traced (Files ν γ)) Unit := do
  write torn p.temp p.content
  replace p.temp p.target

theorem exec_write (torn : γ) (x : ν) (content : γ) (s : Traced (Files ν γ)) :
    ∃ t, exec (write torn x content : Raising ε (Traced (Files ν γ)) Unit) s = (.ok (), t) ∧
      ∀ y, t.current y = if y = x then some content else s.current y := by
  have hexec : exec (write torn x content : Raising ε (Traced (Files ν γ)) Unit) s = (.ok (),
      ⟨Function.update (Function.update s.current x (some torn)) x (some content), _⟩) := rfl
  refine ⟨_, hexec, fun y => ?_⟩
  dsimp only
  by_cases hy : y = x
  · rw [if_pos hy, hy, Function.update_self]
  · rw [if_neg hy, Function.update_of_ne hy, Function.update_of_ne hy]

/-- A put returns; the file is in place, and its temporary file is gone. -/
theorem exec_put (torn : γ) (p : Put ν γ) (s : Traced (Files ν γ)) :
    ∃ t, exec (put torn p : Raising ε (Traced (Files ν γ)) Unit) s = (.ok (), t) ∧
      t.current ∈ t.passed ∧ ∀ x, t.current x =
        if x = p.temp then none else if x = p.target then some p.content else s.current x := by
  let d : Files ν γ := Function.update (Function.update s.current p.temp (some torn)) p.temp
    (some p.content)
  have hexec : exec (put torn p : Raising ε (Traced (Files ν γ)) Unit) s =
      (.ok (), ⟨Function.update (Function.update d p.target (d p.temp)) p.temp none, _⟩) := rfl
  refine ⟨_, hexec, List.mem_append_right _ List.mem_cons_self, fun x => ?_⟩
  dsimp only
  by_cases htemp : x = p.temp
  · rw [if_pos htemp, htemp, Function.update_self]
  · rw [if_neg htemp, Function.update_of_ne htemp]
    by_cases htarget : x = p.target
    · rw [if_pos htarget, htarget, Function.update_self]
      exact Function.update_self ..
    · rw [if_neg htarget, Function.update_of_ne htarget]
      exact (Function.update_of_ne htemp ..).trans (Function.update_of_ne htemp ..)

/-- No put touches the target of an earlier one. -/
structure Orderly (puts : List (Put ν γ)) : Prop where
  pairwise : puts.Pairwise fun p q => p.target ≠ q.target ∧ p.target ≠ q.temp
  temp_ne : ∀ p ∈ puts, p.target ≠ p.temp

/-- Some puts are done; what is there of the others may only be the temporary file of the next. -/
structure Underway (done todo : List (Put ν γ)) (d : Files ν γ) : Prop where
  done : ∀ p ∈ done, d p.target = some p.content
  next : ∀ p ∈ todo.head?, d p.target = none
  rest : ∀ p ∈ todo.head?, ∀ q ∈ todo, d q.target = none ∨ q.target = p.temp

/-- The states between the puts, behind at least the puts of `seen`: exactly these, for a
program that has just done them. -/
def Reached (frame : Files ν γ → Prop) (puts seen : List (Put ν γ)) (exact : Bool)
    (d : Files ν γ) : Prop :=
  ∃ done todo, puts = done ++ todo ∧ seen <+: done ∧ (exact = true → done = seen) ∧
    Underway done todo d ∧ frame d

/-- A state that a put of the list does not take the frame away from. -/
structure Framed (frame : Files ν γ → Prop) (puts : List (Put ν γ)) : Prop where
  target : ∀ p ∈ puts, ∀ d v, frame d → frame (Function.update d p.target v)
  temp : ∀ p ∈ puts, ∀ d v, frame d → frame (Function.update d p.temp v)

variable {puts done todo seen : List (Put ν γ)} {p : Put ν γ} {torn : γ} {frame : Files ν γ → Prop}
  {exact : Bool}

/-- What does not depend on a file holds while the file is written. -/
theorem write_completes {J P : Files ν γ → Prop} {x : ν} {content : γ} (hJ : ∀ d, P d → J d)
    (hP : ∀ d v, P d → P (Function.update d x v)) :
    Completes (ε := ε) J P (write torn x content) fun _ d => P d ∧ d x = some content := by
  refine (Completes.change fun d hd => hJ _ (hP d _ hd)).bind fun _ => ?_
  refine (Completes.change ?_).weaken (fun _ h => h) ?_ fun _ h => h
  · rintro d ⟨d', hd', rfl⟩
    exact hJ _ (hP _ _ (hP _ _ hd'))
  · rintro - d ⟨d', ⟨d'', hd'', rfl⟩, rfl⟩
    exact ⟨hP _ _ (hP _ _ hd''), Function.update_self ..⟩

/-- Whatever is under the temporary name of the next put. -/
theorem Underway.temp (ho : Orderly (done ++ p :: todo)) {d : Files ν γ}
    (h : Underway done (p :: todo) d) (v : Option γ) :
    Underway done (p :: todo) (Function.update d p.temp v) := by
  have hpw := List.pairwise_append.mp ho.pairwise
  refine ⟨fun q hq => ?_, fun q hq => ?_, fun q hq r hr => ?_⟩
  · rw [Function.update_of_ne (hpw.2.2 q hq p (by simp)).2]
    exact h.done q hq
  · cases hq
    rw [Function.update_of_ne (ho.temp_ne p (by simp))]
    exact h.next p rfl
  · cases hq
    by_cases hr' : r.target = p.temp
    · exact .inr hr'
    · rw [Function.update_of_ne hr']
      exact h.rest p rfl r hr

/-- A finished put. -/
theorem Underway.moved (ho : Orderly (done ++ p :: todo)) {d : Files ν γ}
    (h : Underway done (p :: todo) d) :
    Underway (done ++ [p]) todo
      (Function.update (Function.update d p.target (some p.content)) p.temp none) := by
  have hpw := List.pairwise_append.mp ho.pairwise
  have hlater : ∀ q ∈ todo, p.target ≠ q.target ∧ p.target ≠ q.temp := fun q hq =>
    List.rel_of_pairwise_cons hpw.2.1 hq
  have hnone : ∀ q ∈ todo,
      Function.update (Function.update d p.target (some p.content)) p.temp none q.target = none := by
    intro q hq
    by_cases htemp : q.target = p.temp
    · rw [htemp, Function.update_self]
    · rw [Function.update_of_ne htemp, Function.update_of_ne (hlater q hq).1.symm]
      exact (h.rest p rfl q (by simp [hq])).resolve_right htemp
  refine ⟨fun q hq => ?_, fun q hq => hnone q (List.mem_of_mem_head? hq), fun q _ r hr =>
    .inl (hnone r hr)⟩
  rcases List.mem_append.mp hq with hq | hq
  · obtain ⟨htarget, htemp⟩ := hpw.2.2 q hq p (by simp)
    rw [Function.update_of_ne htemp, Function.update_of_ne htarget]
    exact h.done q hq
  · rw [List.mem_singleton] at hq
    subst hq
    rw [Function.update_of_ne (ho.temp_ne q (by simp)), Function.update_self]

/-- A put goes from one state between the puts to the next, and can be cut off anywhere. -/
theorem put_completes (ho : Orderly (done ++ p :: todo)) (hf : Framed frame (done ++ p :: todo)) :
    Completes (ε := ε) (Reached frame (done ++ p :: todo) [] false)
      (fun d => Underway done (p :: todo) d ∧ frame d) (put torn p)
      fun _ d => Underway (done ++ [p]) todo d ∧ frame d := by
  have hp : p ∈ done ++ p :: todo := by simp
  have hwritten : Completes (ε := ε) (Reached frame (done ++ p :: todo) [] false)
      (fun d => Underway done (p :: todo) d ∧ frame d) (write torn p.temp p.content)
      fun _ d => (Underway done (p :: todo) d ∧ frame d) ∧ d p.temp = some p.content :=
    write_completes
      (fun d hd => ⟨done, p :: todo, rfl, List.nil_prefix, fun h => (by cases h), hd.1, hd.2⟩)
      fun d v hd => ⟨hd.1.temp ho v, hf.temp p hp d v hd.2⟩
  have hmove : ∀ d, (Underway done (p :: todo) d ∧ frame d) ∧ d p.temp = some p.content →
      Underway (done ++ [p]) todo
          (Function.update (Function.update d p.target (d p.temp)) p.temp none) ∧
        frame (Function.update (Function.update d p.target (d p.temp)) p.temp none) := by
    rintro d ⟨⟨hd, hframe⟩, htemp⟩
    rw [htemp]
    exact ⟨hd.moved ho, hf.temp p hp _ _ (hf.target p hp _ _ hframe)⟩
  refine hwritten.bind fun _ => ?_
  refine (Completes.change fun d hd => ?_).weaken (fun _ h => h) ?_ fun _ h => h
  · obtain ⟨hunder, hframe⟩ := hmove d hd
    exact ⟨done ++ [p], todo, by simp, List.nil_prefix, fun h => (by cases h), hunder, hframe⟩
  · rintro - d ⟨d', hd', rfl⟩
    exact hmove d' hd'

variable (torn) in
/-- A loop that puts every file in place that is not there yet. Elements without a put change
nothing. -/
theorem puts_complete {body : β → Raising ε (Traced (Files ν γ)) Unit} {put? : β → Option (Put ν γ)}
    (ho : Orderly puts) (hf : Framed frame puts) {l : List β} {rest : List (Put ν γ)}
    (hputs : puts = seen ++ l.filterMap put? ++ rest)
    (hskip : ∀ b ∈ l, put? b = none → ∀ s : Traced (Files ν γ), frame s.current →
      exec (body b) s = (.ok (), s))
    (hdone : ∀ b ∈ l, ∀ p, put? b = some p → exact = false → ∀ s : Traced (Files ν γ),
      frame s.current → s.current p.target = some p.content → exec (body b) s = (.ok (), s))
    (hput : ∀ b ∈ l, ∀ p, put? b = some p → ∀ s : Traced (Files ν γ), frame s.current →
      s.current p.target = none → exec (body b) s = exec (put torn p) s) :
    Completes (Reached frame puts [] false) (Reached frame puts seen exact) (l.forM body)
      fun _ => Reached frame puts (seen ++ l.filterMap put?) exact := by
  induction l generalizing seen with
  | nil =>
    rw [List.filterMap_nil, List.append_nil]
    intro s hs
    exact ⟨(), s, rfl, hs, [], (List.append_nil _).symm, fun _ hd => by cases hd⟩
  | cons b l ih =>
    rw [forM_cons]
    cases hb : put? b with
    | none =>
      rw [List.filterMap_cons_none hb] at hputs ⊢
      refine Completes.bind_exec (a := ()) (fun s hs => ?_) ?_
      · obtain ⟨done, todo, -, -, -, -, hframe⟩ := hs
        exact hskip b (by simp) hb s hframe
      · exact ih hputs (fun c hc => hskip c (by simp [hc])) (fun c hc => hdone c (by simp [hc]))
          fun c hc => hput c (by simp [hc])
    | some p =>
      rw [List.filterMap_cons_some hb] at hputs ⊢
      have hone : Completes (Reached frame puts [] false) (Reached frame puts seen exact) (body b)
          fun _ => Reached frame puts (seen ++ [p]) exact := by
        rintro s ⟨done, todo, hsplit, hpre, hexact, hunder, hframe⟩
        by_cases hlen : done = seen
        · -- The put is the next one.
          subst hlen
          have htodo : todo = p :: (l.filterMap put? ++ rest) := by
            rw [hputs, List.append_assoc] at hsplit
            exact (List.append_cancel_left hsplit).symm
          subst htodo
          rw [hput b (by simp) p hb s hframe (hunder.next p rfl)]
          have hone : Completes (ε := ε) (Reached frame (done ++ p :: (l.filterMap put? ++ rest)) [] false)
              _ (put torn p) _ := put_completes (hsplit ▸ ho) (hsplit ▸ hf)
          obtain ⟨a, t, hexec, ⟨hunder', hframe'⟩, more, hpassed, hmore⟩ :=
            hone s ⟨hunder, hframe⟩
          refine ⟨a, t, hexec, ?_, more, hpassed, fun d hd => hsplit ▸ hmore d hd⟩
          exact ⟨_, _, by rw [hsplit]; simp, List.prefix_rfl, fun _ => rfl, hunder', hframe'⟩
        · -- An earlier run has done it.
          have hfalse : exact = false := by
            cases exact with
            | false => rfl
            | true => exact absurd (hexact rfl) hlen
          obtain ⟨more, rfl⟩ := hpre
          have hmore : more ++ todo = p :: (l.filterMap put? ++ rest) := by
            rw [hputs, List.append_assoc, List.append_assoc] at hsplit
            exact (List.append_cancel_left hsplit).symm
          cases more with
          | nil => exact absurd (List.append_nil _) hlen
          | cons q more =>
            obtain ⟨rfl, -⟩ := List.cons.inj hmore
            refine ⟨(), s, ?_, ?_, [], (List.append_nil _).symm, fun _ hd => by cases hd⟩
            · exact hdone b (by simp) q hb hfalse s hframe (hunder.done q (by simp))
            · refine ⟨_, _, hsplit, ⟨more, by simp⟩, fun h => ?_, hunder, hframe⟩
              rw [hfalse] at h
              cases h
      refine hone.bind fun _ => ?_
      have hputs' : puts = (seen ++ [p]) ++ l.filterMap put? ++ rest := by
        rw [hputs]
        simp
      have hrest := ih hputs' (fun c hc => hskip c (by simp [hc])) (fun c hc => hdone c (by simp [hc]))
        fun c hc => hput c (by simp [hc])
      rw [List.append_assoc, List.singleton_append] at hrest
      exact hrest

end Files
end PyptoServing.Lib
