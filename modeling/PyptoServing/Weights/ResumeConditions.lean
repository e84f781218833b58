import PyptoServing.Weights.Resume
import PyptoServing.Weights.PackedFiles

/-!
# When conversions resume

The conditions of a resumable conversion are necessary: an unreadable tensor and a colliding name
stop the first run or cost it a shard, and a shard without a plan stops the resumed run.
-/
namespace PyptoServing.Weights

open Lib Raising Traced Files

variable {lib : Libraries} {inputDir outputDir : String} {source : InputDirectory}
  {plan : ConversionPlan} {sourceSpecs : Dict String TensorSpec} {noSpecCompatible : Bool}
  {shapes : Dict String (List Nat)} {marker : ConversionMarker} {f name : String}

theorem loadE8m0Scale_usable {path : String} {file : SafetensorsFile} {metadata : TensorMetadata}
    {scale : Tensor Unit Rat} (h : loadE8m0Scale path file name = .ok scale)
    (hmeta : file.header.lookup name = some metadata) :
    payload file metadata ≠ [] ∧ 0xFF#8 ∉ payload file metadata := by
  unfold loadE8m0Scale at h
  rw [hmeta] at h
  dsimp only at h
  split at h
  · cases h
  split at h
  · cases h
  split at h
  · cases h
  split at h
  · cases h
  next hne =>
  split at h
  · cases h
  next hnan => exact ⟨hne, hnan⟩

theorem loadScale_usable {scale : Tensor Unit Rat} {sourceMap : Dict String String}
    (h : loadScale inputDir source sourceMap name = .ok scale) :
    UsableScale source sourceMap name := by
  intro filename file metadata hname hlook hmeta
  unfold loadScale at h
  rw [hname] at h
  obtain ⟨path, hpath, h⟩ := Fallible.bind_eq_ok.mp h
  obtain rfl := safeShardPath_ok hpath
  rw [hlook] at h
  dsimp only at h
  cases hload : loadE8m0Scale s!"{inputDir}/{path}" file name with
  | error e =>
    rw [hload] at h
    cases h
  | ok scale => exact loadE8m0Scale_usable hload hmeta

theorem loadShardTensors_inv {file : SafetensorsFile} {sourceMap : Dict String String}
    {tensors : List (String × LoadedTensor)}
    (hopen : lib.safeOpen (.safetensors file) = .ok file)
    (h : loadShardTensors lib (some (.safetensors file)) sourceMap = .ok tensors)
    {metadata : TensorMetadata} (hmeta : file.header.lookup name = some metadata)
    (hplain : ¬ IsPartnered sourceMap name) :
    ∃ tensor, getTensor lib file metadata = .ok tensor ∧ (name, tensor) ∈ tensors := by
  unfold loadShardTensors at h
  rw [Option.map_some, hopen] at h
  dsimp only at h
  have hmem : (⟨name, metadata⟩ : Σ _ : String, TensorMetadata) ∈
      file.header.entries.filter fun e => ¬ IsPartnered sourceMap e.1 :=
    List.mem_filter.mpr ⟨AList.mem_lookup_iff.mp hmeta, decide_eq_true hplain⟩
  obtain ⟨i, hi⟩ := List.mem_iff_getElem?.mp hmem
  obtain ⟨b, hb, hok⟩ := Fallible.mapM_get h hi
  obtain ⟨tensor, htensor, hok⟩ := Fallible.bind_eq_ok.mp hok
  cases hok
  exact ⟨tensor, htensor, List.mem_of_getElem? hb⟩

/-- What a converted shard was read from. -/
theorem convertTensors_inv (hlib : lib.Documented) (hplan : PlanOf lib source plan sourceSpecs shapes)
    (hf : f ∈ plan.shardNames) {converted : Dict String SavedTensor}
    (h : convertTensors lib inputDir source plan f = .ok converted) :
    ∃ file, ShardFile lib source plan.sourceMap f file ∧ ∀ name metadata,
      file.header.lookup name = some metadata → ¬ IsPartnered plan.sourceMap name →
        ∃ tensor outputs, getTensor lib file metadata = .ok tensor ∧
          convertTensor inputDir source plan.sourceMap plan.compressRatios plan.mtpLayerCount name
            tensor = .ok outputs := by
  obtain ⟨name, hname⟩ := (mem_shardNames hplan).mp hf
  obtain ⟨file, hfile⟩ := hplan.read.shard name f hname
  obtain ⟨hlook, hopen⟩ := hfile.lookup hlib
  obtain ⟨path, hpath, hrest⟩ := Fallible.bind_eq_ok.mp h
  rw [safeShardPath_ok hpath] at hrest
  obtain ⟨tensors, hload, hrest⟩ := Fallible.bind_eq_ok.mp hrest
  obtain ⟨outputs, hconvert, -⟩ := Fallible.bind_eq_ok.mp hrest
  rw [hlook] at hload
  refine ⟨file, hfile, fun name metadata hmeta hplain => ?_⟩
  obtain ⟨tensor, hget, hmem⟩ := loadShardTensors_inv hopen hload hmeta hplain
  obtain ⟨i, hi⟩ := List.mem_iff_getElem?.mp hmem
  obtain ⟨b, -, hb⟩ := Fallible.mapM_get hconvert hi
  exact ⟨tensor, b, hget, hb⟩

theorem readable_of_converted (hlib : lib.Documented)
    (hplan : PlanOf lib source plan sourceSpecs shapes)
    (h : ∀ f ∈ plan.shardNames, ∃ converted,
      convertTensors lib inputDir source plan f = .ok converted) :
    Readable lib source plan.sourceMap := by
  have hround : ∀ name filename, plan.sourceMap.lookup name = some filename →
      ¬ IsPartnered plan.sourceMap name → ∃ file metadata tensor outputs,
        ShardFile lib source plan.sourceMap filename file ∧
        file.header.lookup name = some metadata ∧ getTensor lib file metadata = .ok tensor ∧
          convertTensor inputDir source plan.sourceMap plan.compressRatios plan.mtpLayerCount name
            tensor = .ok outputs := by
    intro name filename hname hplain
    obtain ⟨converted, hok⟩ := h filename ((mem_shardNames hplan).mpr ⟨name, hname⟩)
    obtain ⟨file, hfile, hall⟩ :=
      convertTensors_inv hlib hplan ((mem_shardNames hplan).mpr ⟨name, hname⟩) hok
    obtain ⟨metadata, hmeta⟩ := Option.isSome_iff_exists.mp
      (AList.lookup_isSome.mpr ((hfile.names name).mpr hname))
    obtain ⟨tensor, outputs, hget, hconvert⟩ := hall name metadata hmeta hplain
    exact ⟨file, metadata, tensor, outputs, hfile, hmeta, hget, hconvert⟩
  refine ⟨fun name hmem hpartner => ?_, fun name filename file metadata hname hplain hlook hmeta => ?_⟩
  · -- The scale was loaded with its weight.
    obtain ⟨hscale, hweightMem⟩ := hpartner
    obtain ⟨stem, rfl⟩ := endsWith_iff.mp hscale
    rw [sourceWeightName_append] at hweightMem
    have hweight : endsWith (stem ++ ".weight") ".weight" = true := endsWith_iff.mpr ⟨stem, rfl⟩
    have hplain : ¬ IsPartnered plan.sourceMap (stem ++ ".weight") :=
      fun hp => weight_not_scale stem hp.1
    have hname : scaleNameOf (stem ++ ".weight") = stem ++ ".scale" := by
      rw [scaleNameOf, if_pos hweight, sourceScaleName_append]
    obtain ⟨filename, hlook⟩ := Option.isSome_iff_exists.mp (AList.lookup_isSome.mpr hweightMem)
    obtain ⟨file, metadata, tensor, outputs, -, -, -, hconvert⟩ := hround _ filename hlook hplain
    unfold convertTensor at hconvert
    rw [if_neg (by rw [hname]; exact not_not.mpr hmem), hname] at hconvert
    obtain ⟨scale, hload, -⟩ := Fallible.bind_eq_ok.mp hconvert
    exact loadScale_usable hload
  · obtain ⟨file', metadata', tensor, outputs, hfile, hmeta', hget, -⟩ := hround name filename hname hplain
    rw [(hfile.lookup hlib).1] at hlook
    cases hlook
    rw [hmeta'] at hmeta
    cases hmeta
    unfold getTensor at hget
    split at hget
    · cases hget
    · next htorch => rw [htorch, Option.isSome_some]

section Rounds
variable {s t : Traced Directory} {content : FileContent}

theorem exec_putOf (s : Traced Directory) (name : String) (content : FileContent) :
    ∃ t, exec (ε := ConversionError) (put .torn (putOf name content)) s = (.ok (), t) ∧
      ∀ f, t.current (.file f) =
        if f = tempName name then none else if f = name then some content
        else s.current (.file f) := by
  obtain ⟨t, hexec, -, hcurrent⟩ := exec_put (ε := ConversionError) .torn (putOf name content) s
  refine ⟨t, hexec, fun f => ?_⟩
  rw [hcurrent]
  simp only [putOf, OutputPath.file.injEq]

/-- A put takes no file away but the one with its temporary name. -/
theorem put_keeps_file (hne : f ≠ tempName name) :
    Keeps (ε := ConversionError) (fun s : Traced Directory => (s.current (.file f)).isSome = true)
      (put .torn (putOf name content)) fun _ => True := by
  intro s hs
  obtain ⟨t, hexec, hcurrent⟩ := exec_putOf s name content
  refine ⟨?_, fun _ _ => trivial⟩
  rw [show (put .torn (putOf name content)).run.run s = _ from hexec]
  dsimp only
  rw [hcurrent, if_neg hne]
  split
  · rfl
  · exact hs

/-- A put adds no file but its own. -/
theorem put_keeps_missing (hne : f ≠ name) :
    Keeps (ε := ConversionError) (fun s : Traced Directory => s.current (.file f) = none)
      (put .torn (putOf name content)) fun _ => True := by
  intro s hs
  obtain ⟨t, hexec, hcurrent⟩ := exec_putOf s name content
  refine ⟨?_, fun _ _ => trivial⟩
  rw [show (put .torn (putOf name content)).run.run s = _ from hexec]
  dsimp only
  rw [hcurrent, if_neg hne, hs, ite_self]

variable (outputDir) in
/-- A round over a shard in a run that is not resumed: it raises, or puts the shard. -/
theorem convertOrResume_cases (hplan : PlanOf lib source plan sourceSpecs shapes)
    (hf : f ∈ plan.shardNames) (s : Traced Directory) :
    (∃ e, exec (convertOrResume lib inputDir outputDir source plan false f) s = (.error e, s)) ∨
      s.current (.file f) = none ∧
      (∃ converted, convertTensors lib inputDir source plan f = .ok converted) ∧
      exec (convertOrResume lib inputDir outputDir source plan false f) s =
        exec (put .torn (shardPut lib inputDir source plan f)) s := by
  cases hcurrent : s.current (.file f) with
  | some content =>
    refine .inl ⟨.value s!"refusing to overwrite existing output shard: {outputDir}/{f}", ?_⟩
    unfold convertOrResume
    dsimp only
    rw [exec_ofExcept_ok (safeShardPath_of_mem hplan hf), exec_bind_ok (exec_read s), hcurrent,
      if_pos Option.isSome_some]
    rfl
  | none =>
    cases hok : convertTensors lib inputDir source plan f with
    | error e =>
      refine .inl ⟨e, ?_⟩
      unfold convertOrResume
      dsimp only
      rw [exec_ofExcept_ok (safeShardPath_of_mem hplan hf), exec_bind_ok (exec_read s), hcurrent,
        if_neg (by simp), convertShard, hok]
      rfl
    | ok converted => exact .inr ⟨rfl, ⟨converted, rfl⟩, convertOrResume_put hplan hf hok hcurrent⟩

theorem copyAuxiliaryFile_cases (e : Σ _ : String, FileContent) (s : Traced Directory) :
    exec (copyAuxiliaryFile e) s = (.ok (), s) ∧
        (isAuxiliary e.1 e.2 = true → (s.current (.file e.1)).isSome = true) ∨
      exec (copyAuxiliaryFile e) s = exec (put .torn (putOf e.1 e.2)) s := by
  cases hcurrent : s.current (.file e.1) with
  | some content =>
    refine .inl ⟨copyAuxiliaryFile_skip fun _ => ?_, fun _ => rfl⟩
    rw [hcurrent]
    rfl
  | none =>
    by_cases haux : isAuxiliary e.1 e.2 = true
    · exact .inr (copyAuxiliaryFile_put haux hcurrent)
    · exact .inl ⟨copyAuxiliaryFile_skip fun h => absurd h haux, fun h => absurd h haux⟩

theorem copyAuxiliaryFile_keeps (e : Σ _ : String, FileContent)
    (hsuffix : pathSuffix f ∈ auxiliarySuffixes) :
    Keeps (fun s : Traced Directory => (s.current (.file f)).isSome = true) (copyAuxiliaryFile e)
      fun _ => True := by
  intro s hs
  refine ⟨?_, fun _ _ => trivial⟩
  rcases copyAuxiliaryFile_cases e s with ⟨hexec, -⟩ | hexec
  · rw [show (copyAuxiliaryFile e).run.run s = _ from hexec]
    exact hs
  · rw [show (copyAuxiliaryFile e).run.run s = _ from hexec]
    refine (put_keeps_file ?_ s hs).1
    rintro rfl
    exact not_auxiliary_tempName _ hsuffix

theorem convertOrResume_keeps {I : Traced Directory → Prop}
    (hplan : PlanOf lib source plan sourceSpecs shapes) {g : String} (hg : g ∈ plan.shardNames)
    (hput : Keeps (ε := ConversionError) I (put .torn (shardPut lib inputDir source plan g))
      fun _ => True) :
    Keeps I (convertOrResume lib inputDir outputDir source plan false g) fun _ => True := by
  intro s hs
  refine ⟨?_, fun _ _ => trivial⟩
  rcases convertOrResume_cases outputDir hplan hg s with ⟨e, hexec⟩ | ⟨-, -, hexec⟩
  · rw [show (convertOrResume lib inputDir outputDir source plan false g).run.run s = _ from hexec]
    exact hs
  · rw [show (convertOrResume lib inputDir outputDir source plan false g).run.run s = _ from hexec]
    exact (hput s hs).1

/-- A round of a run that is not resumed only returns if it has put its shard. -/
theorem convertOrResume_ok (hplan : PlanOf lib source plan sourceSpecs shapes)
    (hf : f ∈ plan.shardNames)
    (h : exec (convertOrResume lib inputDir outputDir source plan false f) s = (.ok (), t)) :
    s.current (.file f) = none ∧
      (∃ converted, convertTensors lib inputDir source plan f = .ok converted) ∧
      exec (put .torn (shardPut lib inputDir source plan f)) s =
        ((.ok (), t) : Except ConversionError Unit × Traced Directory) := by
  rcases convertOrResume_cases outputDir hplan hf s with ⟨e, hexec⟩ | ⟨hnone, hok, hexec⟩
  · rw [hexec] at h
    cases h
  · rw [hexec] at h
    exact ⟨hnone, hok, h⟩

end Rounds

section FirstRun
variable {s t u : Traced Directory}

theorem converted_of_loop (hplan : PlanOf lib source plan sourceSpecs shapes)
    (h : exec (plan.shardNames.forM (convertOrResume lib inputDir outputDir source plan false)) s =
      (.ok (), t)) : ∀ f ∈ plan.shardNames, ∃ converted,
        convertTensors lib inputDir source plan f = .ok converted := by
  intro f hf
  have hrounds := Keeps.forM_inv (I := fun _ => True)
    (fun g _ _ _ => ⟨trivial, fun _ _ => trivial⟩) trivial h
  obtain ⟨s', t', -, hround⟩ := hrounds.2 f hf
  exact (convertOrResume_ok hplan hf hround).2.1

/-- A shard with the suffix of an auxiliary file is there before it is converted. -/
theorem suffix_of_loops (hlib : lib.Documented) (hplan : PlanOf lib source plan sourceSpecs shapes)
    (haux : exec (copyAuxiliaryFiles source) s = (.ok (), u))
    (hshards : exec (plan.shardNames.forM
      (convertOrResume lib inputDir outputDir source plan false)) u = (.ok (), t)) :
    ∀ f ∈ plan.shardNames, pathSuffix f ∉ auxiliarySuffixes := by
  intro f hf hsuffix
  obtain ⟨name, hname⟩ := (mem_shardNames hplan).mp hf
  obtain ⟨file, hfile⟩ := hplan.read.shard name f hname
  obtain ⟨hlook, -⟩ := hfile.lookup hlib
  have hmeta : f ∉ ["config.json", "model.safetensors.index.json"] := by
    intro hmem
    obtain ⟨content, hcontent, hother⟩ := hplan.metadata f hmem
    rw [hlook] at hcontent
    exact hother file (Option.some.inj hcontent).symm
  have hisAux : isAuxiliary f (.safetensors file) = true := by
    simp only [isAuxiliary, Bool.true_and, Bool.and_eq_true, decide_eq_true_eq]
    exact ⟨hmeta, hsuffix⟩
  obtain ⟨l₁, l₂, hsplit⟩ := List.append_of_mem (AList.mem_lookup_iff.mp hlook)
  unfold copyAuxiliaryFiles at haux
  rw [hsplit] at haux
  obtain ⟨v, w, -, hround, hrest⟩ := forM_split haux
  have hw : (w.current (.file f)).isSome = true := by
    rcases copyAuxiliaryFile_cases ⟨f, .safetensors file⟩ v with ⟨hexec, hthere⟩ | hexec
    · rw [hexec] at hround
      cases hround
      exact hthere hisAux
    · obtain ⟨w', hexec', hcurrent⟩ := exec_putOf v f (.safetensors file)
      rw [hexec] at hround
      cases hexec'.symm.trans hround
      rw [hcurrent, if_neg (tempName_ne f).symm, if_pos rfl]
      rfl
  have hu := (Keeps.forM_inv (fun e _ => copyAuxiliaryFile_keeps e hsuffix) hw hrest).1
  have hkeeps : ∀ g ∈ plan.shardNames,
      Keeps (fun s : Traced Directory => (s.current (.file f)).isSome = true)
        (convertOrResume lib inputDir outputDir source plan false g) fun _ => True := by
    intro g hg
    refine convertOrResume_keeps hplan hg (put_keeps_file ?_)
    rintro rfl
    exact not_auxiliary_tempName _ hsuffix
  obtain ⟨s', t', hthere, hround'⟩ := (Keeps.forM_inv hkeeps hu hshards).2 f hf
  rw [(convertOrResume_ok hplan hf hround').1] at hthere
  cases hthere

/-- A shard that has the name of a later one's temporary file is lost. -/
theorem missing_of_loop (hplan : PlanOf lib source plan sourceSpecs shapes)
    (h : exec (plan.shardNames.forM (convertOrResume lib inputDir outputDir source plan false)) s =
      (.ok (), t)) {g : String} (hg : g ∈ plan.shardNames) (hlt : f < g) (hfg : f = tempName g) :
    t.current (.file f) = none := by
  have hsorted : plan.shardNames.Pairwise (· < ·) := by
    rw [hplan.shardNames]
    exact sortedNames_pairwise _
  obtain ⟨l₁, l₂, hsplit⟩ := List.append_of_mem hg
  rw [hsplit] at h hsorted
  have hmem : ∀ k ∈ g :: l₂, k ∈ plan.shardNames := fun k hk =>
    hsplit ▸ List.mem_append_right l₁ hk
  obtain ⟨v, w, -, hround, hrest⟩ := forM_split h
  obtain ⟨-, -, hput⟩ := convertOrResume_ok hplan hg hround
  obtain ⟨w', hexec', hcurrent⟩ :=
    exec_putOf v g (shardContent lib inputDir source plan g)
  cases hexec'.symm.trans hput
  have hw : w.current (.file f) = none := by rw [hcurrent, if_pos hfg]
  refine (Keeps.forM_inv (I := fun s : Traced Directory => s.current (.file f) = none)
    (fun k hk => ?_) hw hrest).1
  refine convertOrResume_keeps hplan (hmem k (by simp [hk])) (put_keeps_missing ?_)
  have hgk := List.rel_of_pairwise_cons (List.pairwise_append.mp hsorted).2.1 hk
  exact ne_of_lt (hlt.trans hgk)

/-- The last put leaves no temporary file of the marker, and the other files alone. -/
theorem finish_inv {m : ConversionMarker}
    (h : exec (finishConversion outputDir plan m) s = (.ok (), t)) :
    t.current ∈ t.passed ∧ t.current (.file markerTempName) = none ∧
      ∀ f, f ∉ ["config.json", "model.safetensors.index.json", markerName, markerTempName] →
        t.current (.file f) = s.current (.file f) := by
  obtain ⟨_, s₁, hconfig, hrest⟩ := exec_bind_inv h
  obtain ⟨d, s₂, hread, hrest⟩ := exec_bind_inv hrest
  obtain ⟨sizes, s₃, hsizes, hrest⟩ := exec_bind_inv hrest
  obtain ⟨_, s₄, hindex, hmarker⟩ := exec_bind_inv hrest
  rw [exec_read] at hread
  cases hread
  rw [exec_ofExcept] at hsizes
  obtain rfl : s₁ = s₃ := congrArg Prod.snd hsizes
  obtain ⟨s₁', hconfig', hcurrent₁⟩ := exec_write (ε := ConversionError) .torn
    (OutputPath.file "config.json") (.config plan.outputConfig) s
  cases hconfig'.symm.trans hconfig
  obtain ⟨s₄', hindex', hcurrent₄⟩ := exec_write (ε := ConversionError) .torn
    (OutputPath.file "model.safetensors.index.json") (.index ⟨sizes.sum, some plan.outputMap⟩) s₁
  cases hindex'.symm.trans hindex
  obtain ⟨t', ht, hpassed, hcurrent⟩ := exec_put (ε := ConversionError) FileContent.torn
    ⟨OutputPath.file markerName, .file markerTempName, .marker { m with complete := true }⟩ s₄
  cases ht.symm.trans hmarker
  refine ⟨hpassed, ?_, fun f hf => ?_⟩
  · rw [hcurrent, if_pos rfl]
  · simp only [List.mem_cons, List.not_mem_nil, or_false, not_or] at hf
    rw [hcurrent, if_neg fun h => hf.2.2.2 (OutputPath.file.inj h),
      if_neg fun h => hf.2.2.1 (OutputPath.file.inj h), hcurrent₄,
      if_neg fun h => hf.2.1 (OutputPath.file.inj h), hcurrent₁,
      if_neg fun h => hf.1 (OutputPath.file.inj h)]

/-- The stages of a run that returned. -/
theorem runFrom_inv (hdirs : inputDir ≠ outputDir)
    (hok : planConversion lib inputDir source noSpecCompatible = .ok plan) {resume : Bool}
    {d : Directory}
    (h : runFrom lib inputDir outputDir source noSpecCompatible resume d = (.ok (), t)) :
    ∃ m s₁ s₂ s₃, exec (copyAuxiliaryFiles source) s₁ = (.ok (), s₂) ∧
      exec (plan.shardNames.forM (convertOrResume lib inputDir outputDir source plan resume)) s₂ =
        (.ok (), s₃) ∧ exec (finishConversion outputDir plan m) s₃ = (.ok (), t) := by
  unfold runFrom convertCheckpoint at h
  rw [if_neg hdirs, exec_ofExcept_ok hok] at h
  obtain ⟨m, s₁, -, h⟩ := exec_bind_inv h
  obtain ⟨_, s₂, haux, h⟩ := exec_bind_inv h
  obtain ⟨_, s₃, hshards, h⟩ := exec_bind_inv h
  exact ⟨m, s₁, s₂, s₃, haux, hshards, h⟩

end FirstRun

/-- A resumed run finds a shard in place that has no plan. -/
theorem resumed_unlisted (hlib : lib.Documented) (hdirs : inputDir ≠ outputDir)
    (hok : planConversion lib inputDir source noSpecCompatible = .ok plan)
    (hplan : PlanOf lib source plan sourceSpecs shapes)
    (hreadable : Readable lib source plan.sourceMap)
    (hmarker : ∀ complete, conversionMarker lib inputDir source plan.shardNames complete =
      .ok { marker with complete := complete }) {d : Directory}
    (hd : Settled lib inputDir source plan marker d) (hf : f ∈ plan.shardNames)
    (hunlisted : plan.expectedByShard.lookup f = none) :
    ∃ g ∈ plan.shardNames, plan.expectedByShard.lookup g = none ∧
      runFrom lib inputDir outputDir source noSpecCompatible true d = (.error (.key g), ⟨d, []⟩) := by
  obtain ⟨complete, hstart⟩ := exec_start_resumed (s := ⟨d, []⟩) outputDir hmarker hd.started
  have haux : exec (copyAuxiliaryFiles source) ⟨d, []⟩ = (.ok (), ⟨d, []⟩) := by
    refine exec_forM_id fun e he => copyAuxiliaryFile_skip fun haux => ?_
    by_cases hname : e.1 = markerName
    · obtain ⟨complete, hfile⟩ := hd.started.marker
      rw [hname]
      exact Option.isSome_of_eq_some hfile
    · have hput : putOf e.1 e.2 ∈ conversionPuts lib inputDir source plan :=
        List.mem_append_left _ (List.mem_filterMap.mpr ⟨e, he, if_pos ⟨haux, hname⟩⟩)
      exact Option.isSome_of_eq_some (hd.puts _ hput)
  have hthere : ∀ g ∈ plan.shardNames,
      d (.file g) = some (shardContent lib inputDir source plan g) := fun g hg =>
    hd.puts (shardPut lib inputDir source plan g)
      (List.mem_append_right _ (List.mem_map_of_mem hg))
  have hround : ∀ g ∈ plan.shardNames,
      exec (convertOrResume lib inputDir outputDir source plan true g) ⟨d, []⟩ =
          (.ok (), ⟨d, []⟩) ∨
        ∃ e, (∃ g ∈ plan.shardNames, plan.expectedByShard.lookup g = none ∧ e = .key g) ∧
          exec (convertOrResume lib inputDir outputDir source plan true g) ⟨d, []⟩ =
            (.error e, ⟨d, []⟩) := by
    intro g hg
    cases hlisted : plan.expectedByShard.lookup g with
    | some expected =>
      obtain ⟨converted, -, hsaved⟩ := shard_saved inputDir hlib hplan hreadable hg
      exact .inl (convertOrResume_done hplan hg hsaved (Option.isSome_of_eq_some hlisted)
        (hthere g hg))
    | none =>
      exact .inr ⟨_, ⟨g, hg, hlisted, rfl⟩, convertOrResume_unlisted hplan hg hlisted
        (Option.isSome_of_eq_some (hthere g hg))⟩
  obtain ⟨e, ⟨g, hg, hnone, rfl⟩, hshards⟩ := exec_forM_error hround hf
    (convertOrResume_unlisted hplan hf hunlisted (Option.isSome_of_eq_some (hthere f hf)))
  refine ⟨g, hg, hnone, ?_⟩
  unfold runFrom convertCheckpoint
  rw [if_neg hdirs, exec_ofExcept_ok hok, if_neg (by simp), exec_bind_ok hstart,
    exec_bind_ok haux, exec_bind_error hshards]

/-- The conditions are necessary. -/
theorem Resumes.resumable (hlib : lib.Documented) (hdirs : inputDir ≠ outputDir)
    (hok : planConversion lib inputDir source noSpecCompatible = .ok plan) {final : Directory}
    (h : Resumes lib inputDir outputDir source noSpecCompatible plan final) :
    Resumable lib source plan := by
  obtain ⟨sourceSpecs, shapes, hplan⟩ := planConversion_ok hok
  obtain ⟨marker, hmarker⟩ := conversionMarker_total inputDir hlib hplan
  obtain ⟨t, hexec, rfl⟩ := h.fresh
  obtain ⟨m, s₁, s₂, s₃, haux, hshards, hfinish⟩ := runFrom_inv hdirs hok hexec
  obtain ⟨hpassed, hmarkerTemp, hkept⟩ := finish_inv hfinish
  have hthere : ∀ f ∈ plan.shardNames, t.current (.file f) ≠ none := by
    intro f hf hnone
    obtain ⟨actual, hread, -⟩ := h.converted.specs f hf
    rw [hnone] at hread
    cases hread
  have hreadable := readable_of_converted hlib hplan (converted_of_loop hplan hshards)
  have hnames : ShardNames plan := by
    refine ⟨suffix_of_loops hlib hplan haux hshards, fun hmem => hthere _ hmem hmarkerTemp,
      fun f hf g hg hlt hfg => hthere f hf ?_⟩
    have hmissing := missing_of_loop hplan hshards hg hlt hfg
    by_cases hown : f ∈ ["config.json", "model.safetensors.index.json", markerName, markerTempName]
    · simp only [List.mem_cons, List.not_mem_nil, or_false] at hown
      have hsuffix : pathSuffix f = ".tmp" := hfg ▸ pathSuffix_tempName g
      rcases hown with rfl | rfl | rfl | rfl
      · exact absurd hsuffix (by decide)
      · exact absurd hsuffix (by decide)
      · exact absurd hsuffix (by decide)
      · exact hmarkerTemp
    · rw [hkept f hown, hmissing]
  refine ⟨fun f hf => (outputMap_isSome_iff hplan).mp ?_, hreadable, hnames⟩
  by_contra hunlisted
  obtain ⟨t', hexec', hfinal, -⟩ := fresh_run hlib hdirs hok hplan hreadable hnames hmarker false
  rw [hexec] at hexec'
  cases hexec'
  obtain ⟨u, hresumed, -⟩ := h.resumed t.current
    (.fresh false _ (by rw [hexec]; exact hpassed) (Option.isSome_of_eq_some hfinal.marker))
  obtain ⟨g, -, -, herror⟩ := resumed_unlisted hlib hdirs hok hplan hreadable hmarker hfinal.settled hf
    (Option.not_isSome_iff_eq_none.mp hunlisted)
  rw [herror] at hresumed
  cases hresumed

/-- A checkpoint of one layer. -/
def checkpointOf (weightMap : List (String × String)) (shards : List (String × SafetensorsFile)) :
    InputDirectory :=
  Dict.ofList ([
    ("config.json", .config {
      modelType := "deepseek_v4"
      quantization := ⟨.ok "'fp8'", []⟩
      numHiddenLayers := .ok 1
      compressRatios := some [.ok 0, .ok 0]
      nRoutedExperts := .ok 1 }),
    ("model.safetensors.index.json", .index ⟨0, some (Dict.ofList weightMap)⟩),
    ("tokenizer.json", .other "tokens")] ++
    shards.map fun shard => (shard.1, .safetensors shard.2))

def weightFile : SafetensorsFile :=
  ⟨Dict.ofList [("layers.0.attn.wq_b.weight", ⟨"F8_E4M3", [1, 1], (0, 1)⟩)], [0x38]⟩

/-- The second shard has the scale of the weight in the first, and a norm. -/
def splitShards : InputDirectory := checkpointOf
  [("layers.0.attn.wq_b.weight", "a.safetensors"), ("layers.0.attn.wq_b.scale", "b.safetensors"),
    ("norm.weight", "b.safetensors")]
  [("a.safetensors", weightFile), ("b.safetensors",
    ⟨Dict.ofList [("layers.0.attn.wq_b.scale", ⟨"F8_E8M0", [1, 1], (0, 1)⟩),
      ("norm.weight", ⟨"F32", [1], (1, 5)⟩)], [127, 0, 0, 0, 0]⟩)]

/-- The second shard has the scale alone. -/
def scaleShard : InputDirectory := checkpointOf
  [("layers.0.attn.wq_b.weight", "a.safetensors"), ("layers.0.attn.wq_b.scale", "b.safetensors")]
  [("a.safetensors", weightFile), ("b.safetensors",
    ⟨Dict.ofList [("layers.0.attn.wq_b.scale", ⟨"F8_E8M0", [1, 1], (0, 1)⟩)], [127]⟩)]

/-- A conversion can be resumed wherever it is cut off, with the same outcome, if and only if its
tensors are readable, no name collides, and every shard has a tensor that is planned. -/
theorem resumes_iff (hlib : lib.Documented) (hdirs : inputDir ≠ outputDir)
    (hok : planConversion lib inputDir source noSpecCompatible = .ok plan) :
    (∃ final, Resumes lib inputDir outputDir source noSpecCompatible plan final) ↔
      Resumable lib source plan := by
  constructor
  · rintro ⟨final, h⟩
    exact h.resumable hlib hdirs hok
  · intro h
    exact h.resumes hlib hdirs hok

theorem splitShards_resumes : ∃ plan,
    planConversion packedLibraries "source" splitShards false = .ok plan ∧
      ∃ final, Resumes packedLibraries "source" "target" splitShards false plan final := by
  obtain ⟨plan, hok, hshards, hmap⟩ : ∃ plan,
      planConversion packedLibraries "source" splitShards false = .ok plan ∧
        plan.shardNames = ["a.safetensors", "b.safetensors"] ∧
        plan.sourceMap = Dict.ofList [("layers.0.attn.wq_b.weight", "a.safetensors"),
          ("layers.0.attn.wq_b.scale", "b.safetensors"), ("norm.weight", "b.safetensors")] :=
    ⟨_, rfl, rfl, rfl⟩
  refine ⟨plan, hok, (resumes_iff packedLibraries_documented (by decide) hok).mpr ⟨?_, ?_, ?_⟩⟩
  · rw [hshards, hmap]
    intro f hf
    simp only [List.mem_cons, List.not_mem_nil, or_false] at hf
    rcases hf with rfl | rfl
    · exact ⟨"layers.0.attn.wq_b.weight", by decide, by decide⟩
    · exact ⟨"norm.weight", by decide, by decide⟩
  · have hentries : ∀ name filename, plan.sourceMap.lookup name = some filename →
        name = "layers.0.attn.wq_b.weight" ∧ filename = "a.safetensors" ∨
        name = "layers.0.attn.wq_b.scale" ∧ filename = "b.safetensors" ∨
        name = "norm.weight" ∧ filename = "b.safetensors" := by
      intro name filename hname
      rw [hmap, Dict.lookup_ofList] at hname
      obtain ⟨e, hfind, rfl⟩ := Option.map_eq_some_iff.mp hname
      obtain rfl : e.1 = name := by simpa using List.find?_some hfind
      simpa [Prod.ext_iff] using List.mem_of_find?_eq_some hfind
    refine ⟨fun name hmem hpartner filename file metadata hname hlook hmeta => ?_, ?_⟩
    · rcases hentries name filename hname with ⟨rfl, rfl⟩ | ⟨rfl, rfl⟩ | ⟨rfl, rfl⟩
      · exact absurd hpartner.1 (by decide)
      · cases hlook
        cases hmeta
        decide
      · exact absurd hpartner.1 (by decide)
    · intro name filename file metadata hname hplain hlook hmeta
      rcases hentries name filename hname with ⟨rfl, rfl⟩ | ⟨rfl, rfl⟩ | ⟨rfl, rfl⟩
      · cases hlook
        cases hmeta
        rfl
      · exact absurd (by rw [hmap]; decide) hplain
      · cases hlook
        cases hmeta
        rfl
  · have htemp : ∀ f ∈ plan.shardNames, ∀ g ∈ plan.shardNames, f ≠ tempName g := by
      rw [hshards]
      decide
    refine ⟨?_, ?_, fun f hf g hg _ => htemp f hf g hg⟩
    · rw [hshards]
      decide
    · rw [hshards]
      decide

/-- A shard with nothing but a scale is written empty, and stops the resumed run. -/
theorem scaleShard_raises :
    (∃ plan, planConversion packedLibraries "source" scaleShard false = .ok plan) ∧
      ∃ d, Interrupted packedLibraries "source" "target" scaleShard false d ∧
        (runFrom packedLibraries "source" "target" scaleShard false true d).1 =
          .error (.key "b.safetensors") := by
  obtain ⟨plan, hok⟩ : ∃ plan, planConversion packedLibraries "source" scaleShard false = .ok plan :=
    ⟨_, rfl⟩
  have hfresh : runFrom packedLibraries "source" "target" scaleShard false false noDirectory =
      (.ok (), (runFrom packedLibraries "source" "target" scaleShard false false noDirectory).2) :=
    Prod.ext rfl rfl
  obtain ⟨m, s₁, s₂, s₃, -, -, hfinish⟩ := runFrom_inv (by decide) hok hfresh
  obtain ⟨hpassed, -, -⟩ := finish_inv hfinish
  exact ⟨⟨plan, hok⟩, _, .fresh false _ hpassed rfl, rfl⟩

end PyptoServing.Weights
