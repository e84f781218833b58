import PyptoServing.Weights.ShardConversion

/-!
# The files of a conversion

A run puts the auxiliary files and then the shards in place. Here it is which files these are, and
that a round of the run puts its file, or finds it done.
-/
namespace PyptoServing.Weights

open Lib Raising Traced Files

theorem toList_tempName (name : String) :
    (tempName name).toList = '.' :: name.toList ++ ['.', 't', 'm', 'p'] := by
  show (("." ++ name) ++ ".tmp").toList = _
  rw [String.toList_append, String.toList_append]
  rfl

theorem tempName_ne (name : String) : tempName name ≠ name := by
  intro h
  have hlength := congrArg (fun s : String => s.toList.length) h
  simp only [toList_tempName, List.length_append, List.length_cons, List.length_nil] at hlength
  omega

theorem pathSuffix_tempName (name : String) : pathSuffix (tempName name) = ".tmp" := by
  unfold pathSuffix
  rw [toList_tempName, List.cons_append, List.reverse_cons, List.reverse_append]
  simp [List.takeWhile, List.drop]

/-- No auxiliary file has the name of a temporary file. -/
theorem not_auxiliary_tempName (name : String) : pathSuffix (tempName name) ∉ auxiliarySuffixes := by
  rw [pathSuffix_tempName]
  decide

theorem mem_sortedNames {names : List String} {name : String} :
    name ∈ sortedNames names ↔ name ∈ names := by
  rw [sortedNames, List.mem_insertionSort, List.mem_dedup]

theorem sortedNames_pairwise (names : List String) : (sortedNames names).Pairwise (· < ·) := by
  have hsorted := List.pairwise_insertionSort (· ≤ ·) names.dedup
  have hnodup : (sortedNames names).Nodup :=
    (List.perm_insertionSort (· ≤ ·) names.dedup).nodup_iff.mpr names.nodup_dedup
  exact (hsorted.and hnodup).imp fun h => lt_of_le_of_ne h.1 h.2

section Puts
variable (lib : Libraries) (inputDir : String) (source : InputDirectory) (plan : ConversionPlan)

/-- The converted shard. -/
def shardContent (filename : String) : FileContent :=
  match convertTensors lib inputDir source plan filename with
  | .error _ => .torn
  | .ok converted => .safetensors (lib.saveFile converted)

def shardPut (filename : String) : Put OutputPath FileContent :=
  putOf filename (shardContent lib inputDir source plan filename)

/-- An auxiliary file; one with the marker's name is found in place. -/
def auxiliaryPut (e : Σ _ : String, FileContent) : Option (Put OutputPath FileContent) :=
  if isAuxiliary e.1 e.2 ∧ e.1 ≠ markerName then some (putOf e.1 e.2) else none

/-- What a run puts in place, in this order. -/
def conversionPuts : List (Put OutputPath FileContent) :=
  source.entries.filterMap auxiliaryPut ++ plan.shardNames.map (shardPut lib inputDir source plan)

/-- Names of shards that collide with no other file of the output directory. -/
structure ShardNames : Prop where
  suffix : ∀ f ∈ plan.shardNames, pathSuffix f ∉ auxiliarySuffixes
  markerTemp : markerTempName ∉ plan.shardNames
  temp : ∀ f ∈ plan.shardNames, ∀ g ∈ plan.shardNames, f < g → f ≠ tempName g

end Puts

variable {lib : Libraries} {inputDir outputDir : String} {source : InputDirectory}
  {plan : ConversionPlan} {sourceSpecs : Dict String TensorSpec}
  {shapes : Dict String (List Nat)}

theorem auxiliaryPut_some {e : Σ _ : String, FileContent} {p : Put OutputPath FileContent}
    (h : auxiliaryPut e = some p) : p = putOf e.1 e.2 ∧ isAuxiliary e.1 e.2 = true ∧
      e.1 ∉ ["config.json", "model.safetensors.index.json"] ∧ pathSuffix e.1 ∈ auxiliarySuffixes ∧
      e.1 ≠ markerName := by
  unfold auxiliaryPut at h
  split at h
  next haux =>
    cases h
    have hparts := haux.1
    simp only [isAuxiliary, Bool.and_eq_true, decide_eq_true_eq] at hparts
    exact ⟨rfl, haux.1, hparts.1.2, hparts.2, haux.2⟩
  next => cases h

theorem mem_shardNames (hplan : PlanOf lib source plan sourceSpecs shapes) {f : String} :
    f ∈ plan.shardNames ↔ ∃ name, plan.sourceMap.lookup name = some f := by
  rw [hplan.shardNames, mem_sortedNames, ← List.mem_dedup, mem_filenames]

/-- What is put in place is none of the files that the run writes itself. -/
theorem mem_conversionPuts (hlib : lib.Documented) (hnames : ShardNames plan)
    (hplan : PlanOf lib source plan sourceSpecs shapes) {p : Put OutputPath FileContent}
    (h : p ∈ conversionPuts lib inputDir source plan) :
    ∃ name content, p = putOf name content ∧
      name ∉ ["config.json", "model.safetensors.index.json", markerName, markerTempName] := by
  have hmarker : pathSuffix markerName ∈ auxiliarySuffixes := by decide
  have htemp : pathSuffix markerTempName ∉ auxiliarySuffixes := by decide
  rcases List.mem_append.mp h with h | h
  · obtain ⟨e, -, he⟩ := List.mem_filterMap.mp h
    obtain ⟨rfl, -, hmeta, hsuffix, hne⟩ := auxiliaryPut_some he
    refine ⟨e.1, e.2, rfl, fun hmem => ?_⟩
    simp only [List.mem_cons, List.not_mem_nil, or_false, not_or] at hmem hmeta
    rcases hmem with hmem | hmem | hmem | hmem
    · exact hmeta.1 hmem
    · exact hmeta.2 hmem
    · exact hne hmem
    · rw [hmem] at hsuffix
      exact htemp hsuffix
  · obtain ⟨f, hf, rfl⟩ := List.mem_map.mp h
    refine ⟨f, _, rfl, fun hmem => ?_⟩
    have hmeta : f ∉ ["config.json", "model.safetensors.index.json"] := by
      intro hmeta
      obtain ⟨name, hname⟩ := (mem_shardNames hplan).mp hf
      obtain ⟨file, hfile⟩ := hplan.read.shard name f hname
      obtain ⟨content, hlook, hother⟩ := hplan.metadata f hmeta
      rw [(hfile.lookup hlib).1] at hlook
      exact hother file (Option.some.inj hlook).symm
    simp only [List.mem_cons, List.not_mem_nil, or_false, not_or] at hmem hmeta
    rcases hmem with hmem | hmem | hmem | hmem
    · exact hmeta.1 hmem
    · exact hmeta.2 hmem
    · exact hnames.suffix f hf (hmem ▸ hmarker)
    · exact hnames.markerTemp (hmem ▸ hf)

theorem orderly (hnames : ShardNames plan) (hplan : PlanOf lib source plan sourceSpecs shapes) :
    Orderly (conversionPuts lib inputDir source plan) := by
  have hsorted : plan.shardNames.Pairwise (· < ·) := by
    rw [hplan.shardNames]
    exact sortedNames_pairwise _
  have htemp : ∀ name content, (putOf name content).target ≠ (putOf name content).temp :=
    fun name _ h => tempName_ne name (OutputPath.file.inj h).symm
  refine ⟨List.pairwise_append.mpr ⟨?_, ?_, fun p hp q hq => ?_⟩, fun p hp => ?_⟩
  · -- Auxiliary files have names of their own, which are no temporary names.
    rw [List.pairwise_filterMap]
    refine source.nodupKeys.pairwise_ne.imp fun {e e'} hne p hp q hq => ?_
    obtain ⟨rfl, -, -, hsuffix, -⟩ := auxiliaryPut_some hp
    obtain ⟨rfl, -⟩ := auxiliaryPut_some hq
    refine ⟨fun h => hne (OutputPath.file.inj h), fun h => ?_⟩
    rw [OutputPath.file.inj h] at hsuffix
    exact not_auxiliary_tempName _ hsuffix
  · rw [List.pairwise_map]
    refine hsorted.imp_of_mem fun {f g} hf hg hlt => ⟨fun h => ?_, fun h => ?_⟩
    · exact absurd (OutputPath.file.inj h) (ne_of_lt hlt)
    · exact hnames.temp f hf g hg hlt (OutputPath.file.inj h)
  · obtain ⟨e, -, he⟩ := List.mem_filterMap.mp hp
    obtain ⟨rfl, -, -, hsuffix, -⟩ := auxiliaryPut_some he
    obtain ⟨f, hf, rfl⟩ := List.mem_map.mp hq
    refine ⟨fun h => ?_, fun h => ?_⟩
    · rw [OutputPath.file.inj h] at hsuffix
      exact hnames.suffix f hf hsuffix
    · rw [OutputPath.file.inj h] at hsuffix
      exact not_auxiliary_tempName f hsuffix
  · rcases List.mem_append.mp hp with h | h
    · obtain ⟨e, -, he⟩ := List.mem_filterMap.mp h
      obtain ⟨rfl, -⟩ := auxiliaryPut_some he
      exact htemp _ _
    · obtain ⟨f, -, rfl⟩ := List.mem_map.mp h
      exact htemp _ _

/-- A conversion has been started: the directory is there, with a marker of these sources. -/
structure Started (marker : ConversionMarker) (d : Directory) : Prop where
  dir : d .dir = some .directory
  marker : ∃ complete, d (.file markerName) = some (.marker { marker with complete := complete })

/-- A file that is neither the directory nor the marker. -/
theorem Started.update {marker : ConversionMarker} {d : Directory} (h : Started marker d)
    {name : String} (hname : name ≠ markerName) (v : Option FileContent) :
    Started marker (Function.update d (.file name) v) := by
  obtain ⟨complete, hmarker⟩ := h.marker
  refine ⟨?_, complete, ?_⟩
  · rw [Function.update_of_ne (by simp)]
    exact h.dir
  · rw [Function.update_of_ne fun h => hname (OutputPath.file.inj h).symm]
    exact hmarker

theorem tempName_ne_marker (name : String) : tempName name ≠ markerName := by
  intro h
  have hsuffix := pathSuffix_tempName name
  rw [h] at hsuffix
  exact absurd hsuffix (by decide)

theorem framed (hlib : lib.Documented) (hnames : ShardNames plan)
    (hplan : PlanOf lib source plan sourceSpecs shapes) (marker : ConversionMarker) :
    Framed (Started marker) (conversionPuts lib inputDir source plan) := by
  refine ⟨fun p hp d v hd => ?_, fun p hp d v hd => ?_⟩
  · obtain ⟨name, content, rfl, hname⟩ := mem_conversionPuts hlib hnames hplan hp
    refine hd.update (fun h => hname ?_) v
    simp [h]
  · obtain ⟨name, content, rfl, -⟩ := mem_conversionPuts hlib hnames hplan hp
    exact hd.update (tempName_ne_marker name) v

/-- The saved shard: it opens, with the specs that are planned. -/
structure SavedShard (lib : Libraries) (inputDir : String) (source : InputDirectory)
    (plan : ConversionPlan) (filename : String) (file : SafetensorsFile) : Prop where
  content : shardContent lib inputDir source plan filename = .safetensors file
  opens : lib.safeOpen (.safetensors file) = .ok file
  specs : ∀ x spec, (tensorSpecs file).lookup x = some spec ↔
    (plan.expectedByShard.lookup filename).bind (·.lookup x) = some spec

variable (inputDir) in
theorem shard_saved (hlib : lib.Documented) (hplan : PlanOf lib source plan sourceSpecs shapes)
    (hreadable : Readable lib source plan.sourceMap) {f : String} (hf : f ∈ plan.shardNames) :
    ∃ converted, convertTensors lib inputDir source plan f = .ok converted ∧
      SavedShard lib inputDir source plan f (lib.saveFile converted) := by
  obtain ⟨converted, hok, hsized, hspecs⟩ :=
    convertTensors_total inputDir hlib hplan hreadable ((mem_shardNames hplan).mp hf)
  obtain ⟨hopens, hsaved⟩ := hlib.saved converted hsized
  refine ⟨converted, hok, ?_, hopens, fun x spec => ?_⟩
  · rw [shardContent, hok]
  · rw [tensorSpecs, Dict.lookup_mapValues, hsaved, hspecs]

theorem safeShardPath_of_mem (hplan : PlanOf lib source plan sourceSpecs shapes) {f : String}
    (hf : f ∈ plan.shardNames) : safeShardPath f = .ok f := by
  obtain ⟨name, hname⟩ := (mem_shardNames hplan).mp hf
  obtain ⟨file, hfile⟩ := hplan.read.shard name f hname
  exact hfile.path

variable {s : Traced Directory} {marker : ConversionMarker} {f : String}

/-- A file that is there is left alone, and so is one that is not auxiliary. -/
theorem copyAuxiliaryFile_skip {e : Σ _ : String, FileContent}
    (h : isAuxiliary e.1 e.2 = true → (s.current (.file e.1)).isSome = true) :
    exec (copyAuxiliaryFile e) s = (.ok (), s) := by
  unfold copyAuxiliaryFile
  split
  next haux =>
    rw [exec_bind_ok (exec_read s), if_pos (h haux)]
    rfl
  next => rfl

theorem copyAuxiliaryFile_put {e : Σ _ : String, FileContent} (haux : isAuxiliary e.1 e.2 = true)
    (h : s.current (.file e.1) = none) :
    exec (copyAuxiliaryFile e) s = exec (put .torn (putOf e.1 e.2)) s := by
  unfold copyAuxiliaryFile
  rw [if_pos haux, exec_bind_ok (exec_read s), h]
  rfl

theorem auxiliaryPut_none {e : Σ _ : String, FileContent} (h : auxiliaryPut e = none)
    (haux : isAuxiliary e.1 e.2 = true) : e.1 = markerName := by
  unfold auxiliaryPut at h
  split at h
  · cases h
  · next hboth =>
    by_contra hne
    exact hboth ⟨haux, hne⟩

/-- A converted shard passes the check of a resumed run. -/
theorem convertOrResume_done (hplan : PlanOf lib source plan sourceSpecs shapes)
    (hf : f ∈ plan.shardNames) {file : SafetensorsFile}
    (hsaved : SavedShard lib inputDir source plan f file)
    (hlisted : (plan.expectedByShard.lookup f).isSome = true)
    (h : s.current (.file f) = some (shardContent lib inputDir source plan f)) :
    exec (convertOrResume lib inputDir outputDir source plan true f) s = (.ok (), s) := by
  obtain ⟨expected, hexpected⟩ := Option.isSome_iff_exists.mp hlisted
  have hsame : Dict.same (tensorSpecs file) expected = true := by
    rw [Dict.same_iff]
    intro x
    refine Option.ext fun spec => ?_
    have hspecs := hsaved.specs x spec
    rwa [hexpected, Option.bind_some] at hspecs
  have hvalid : ∀ path, validateResumableShard lib path
      (some (shardContent lib inputDir source plan f)) expected = .ok () := by
    intro path
    simp only [validateResumableShard, readTensorSpecs, hsaved.content, hsaved.opens, hsame, if_true]
  unfold convertOrResume
  dsimp only
  rw [exec_ofExcept_ok (safeShardPath_of_mem hplan hf), exec_bind_ok (exec_read s), h,
    if_pos Option.isSome_some, if_pos rfl, exec_ofExcept_ok (getItem_ok.mpr hexpected), hvalid,
    exec_ofExcept]

theorem convertOrResume_put (hplan : PlanOf lib source plan sourceSpecs shapes)
    (hf : f ∈ plan.shardNames) {converted : Dict String SavedTensor} {resume : Bool}
    (hok : convertTensors lib inputDir source plan f = .ok converted)
    (h : s.current (.file f) = none) :
    exec (convertOrResume lib inputDir outputDir source plan resume f) s =
      exec (put .torn (shardPut lib inputDir source plan f)) s := by
  unfold convertOrResume
  dsimp only
  rw [exec_ofExcept_ok (safeShardPath_of_mem hplan hf), exec_bind_ok (exec_read s), h,
    if_neg (by simp), convertShard, exec_ofExcept_ok hok, shardPut, shardContent, hok]

/-- A shard without a plan, found on a resumed run. -/
theorem convertOrResume_unlisted (hplan : PlanOf lib source plan sourceSpecs shapes)
    (hf : f ∈ plan.shardNames) (hunlisted : plan.expectedByShard.lookup f = none)
    (h : (s.current (.file f)).isSome = true) :
    exec (convertOrResume lib inputDir outputDir source plan true f) s = (.error (.key f), s) := by
  obtain ⟨content, hcontent⟩ := Option.isSome_iff_exists.mp h
  have herror : getItem plan.expectedByShard f = .error (.key f) := by rw [getItem, hunlisted]
  unfold convertOrResume
  dsimp only
  rw [exec_ofExcept_ok (safeShardPath_of_mem hplan hf), exec_bind_ok (exec_read s), hcontent,
    if_pos Option.isSome_some, if_pos rfl, herror]
  rfl

end PyptoServing.Weights
