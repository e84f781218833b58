import PyptoServing.Weights.Conversion

/-!
# Plan, index and conversion

The index, the planned specs and the converted tensors are computed apart. Each output tensor is
made of one source tensor, its origin, and stands in the origin's shard; this decides all three.
-/
namespace PyptoServing.Weights

open Lib

variable {sourceMap : Dict String String} {compressRatios : List Int} {mtpLayerCount : Nat}
  {name other filename : String}

theorem endsWith_iff {name suffix : String} :
    endsWith name suffix = true ↔ ∃ stem : String, name = stem ++ suffix := by
  unfold endsWith
  rw [List.isSuffixOf_iff_suffix]
  constructor
  · rintro ⟨stem, h⟩
    refine ⟨String.ofList stem, String.ext ?_⟩
    rw [String.toList_append, String.toList_ofList, h]
  · rintro ⟨stem, rfl⟩
    exact ⟨stem.toList, (String.toList_append ..).symm⟩

theorem sourceScaleName_append (stem : String) :
    sourceScaleName (stem ++ ".weight") = stem ++ ".scale" := by
  have h : (stem.toList ++ ".weight".toList).length - 7 = stem.toList.length := by
    rw [List.length_append]
    exact Nat.add_sub_cancel ..
  rw [sourceScaleName, String.toList_append, h, List.take_left, String.ofList_toList]

theorem sourceWeightName_append (stem : String) :
    sourceWeightName (stem ++ ".scale") = stem ++ ".weight" := by
  have h : (stem.toList ++ ".scale".toList).length - 6 = stem.toList.length := by
    rw [List.length_append]
    exact Nat.add_sub_cancel ..
  rw [sourceWeightName, String.toList_append, h, List.take_left, String.ofList_toList]

theorem weight_not_scale (stem : String) : ¬ endsWith (stem ++ ".weight") ".scale" = true := by
  intro h
  obtain ⟨stem', h⟩ := endsWith_iff.mp h
  have hlast := congrArg (fun s : String => s.toList.getLast?) h
  simp only [String.toList_append, List.getLast?_append] at hlast
  cases hlast

/-- The output tensors that a source tensor is the origin of. -/
def outputNames (sourceMap : Dict String String) (compressRatios : List Int) (mtpLayerCount : Nat)
    (name : String) : List String :=
  if IsPartnered sourceMap name then []
  else if endsWith name ".weight" ∧ sourceScaleName name ∈ sourceMap ∧
      isServingQuantizedWeight name compressRatios mtpLayerCount then
    [name, sourceScaleName name]
  else [name]

theorem mem_outputNames {x : String} :
    x ∈ outputNames sourceMap compressRatios mtpLayerCount name ↔
      ¬ IsPartnered sourceMap name ∧ (x = name ∨ x = sourceScaleName name ∧
        endsWith name ".weight" = true ∧ sourceScaleName name ∈ sourceMap ∧
          isServingQuantizedWeight name compressRatios mtpLayerCount = true) := by
  unfold outputNames
  split
  · next h => simp [h]
  · next h =>
    split
    · next hs => simp [h, hs]
    · next hs =>
      rw [List.mem_singleton]
      refine ⟨fun hx => ⟨h, .inl hx⟩, ?_⟩
      rintro ⟨-, hx | ⟨-, hx⟩⟩
      · exact hx
      · exact absurd hx hs

/-- A scale of a listed weight is none of the plain outputs. -/
theorem scale_isPartnered (hw : endsWith name ".weight" = true) (hmem : name ∈ sourceMap) :
    IsPartnered sourceMap (sourceScaleName name) := by
  obtain ⟨stem, rfl⟩ := endsWith_iff.mp hw
  rw [sourceScaleName_append]
  refine ⟨endsWith_iff.mpr ⟨stem, rfl⟩, ?_⟩
  rw [sourceWeightName_append]
  exact hmem

theorem origin_unique {x : String} (hname : name ∈ sourceMap) (hother : other ∈ sourceMap)
    (h : x ∈ outputNames sourceMap compressRatios mtpLayerCount name)
    (h' : x ∈ outputNames sourceMap compressRatios mtpLayerCount other) : name = other := by
  obtain ⟨hplain, hx⟩ := mem_outputNames.mp h
  obtain ⟨hplain', hx'⟩ := mem_outputNames.mp h'
  rcases hx with rfl | ⟨rfl, hw, -⟩
  · rcases hx' with hx' | ⟨rfl, hw', -⟩
    · exact hx'
    · exact absurd (scale_isPartnered hw' hother) hplain
  · rcases hx' with rfl | ⟨hx', hw', -⟩
    · exact absurd (scale_isPartnered hw hname) hplain'
    · obtain ⟨stem, rfl⟩ := endsWith_iff.mp hw
      obtain ⟨stem', rfl⟩ := endsWith_iff.mp hw'
      rw [sourceScaleName_append, sourceScaleName_append, String.append_left_inj] at hx'
      rw [hx']

theorem buildOutputWeightMap_eq : buildOutputWeightMap sourceMap compressRatios mtpLayerCount =
    Dict.assign ∅ (sourceMap.entries.flatMap fun e =>
      (outputNames sourceMap compressRatios mtpLayerCount e.1).map fun x => (x, e.2)) := by
  unfold buildOutputWeightMap
  dsimp only
  congr 1
  refine List.flatMap_congr fun e _ => ?_
  unfold outputNames
  split_ifs <;> rfl

/-- An output tensor is listed in the shard of its origin. -/
theorem lookup_outputMap {x : String} :
    (buildOutputWeightMap sourceMap compressRatios mtpLayerCount).lookup x = some filename ↔
      ∃ name, sourceMap.lookup name = some filename ∧
        x ∈ outputNames sourceMap compressRatios mtpLayerCount name := by
  have hmem : ∀ x f, (x, f) ∈ (sourceMap.entries.flatMap fun e =>
      (outputNames sourceMap compressRatios mtpLayerCount e.1).map fun x => (x, e.2)) ↔
      ∃ name, sourceMap.lookup name = some f ∧
        x ∈ outputNames sourceMap compressRatios mtpLayerCount name := by
    intro x f
    rw [List.mem_flatMap]
    constructor
    · rintro ⟨e, he, hx⟩
      obtain ⟨x', hx', heq⟩ := List.mem_map.mp hx
      cases heq
      exact ⟨e.1, AList.mem_lookup_iff.mpr he, hx'⟩
    · rintro ⟨name, hname, hx⟩
      exact ⟨⟨name, f⟩, AList.mem_lookup_iff.mp hname, List.mem_map.mpr ⟨x, hx, rfl⟩⟩
  rw [buildOutputWeightMap_eq, Dict.lookup_assign, hmem]
  intro x f f' hf hf'
  obtain ⟨name, hname, hx⟩ := (hmem x f).mp hf
  obtain ⟨other, hother, hx'⟩ := (hmem x f').mp hf'
  have heq := origin_unique (AList.lookup_isSome.mp (by rw [hname]; rfl))
    (AList.lookup_isSome.mp (by rw [hother]; rfl)) hx hx'
  rw [heq, hother] at hname
  exact (Option.some.inj hname).symm

section Source
variable {lib : Libraries} {inputDir : String} {source : InputDirectory} {file : SafetensorsFile}
  {sourceSpecs : Dict String TensorSpec}

/-- A source shard has the tensors that the index lists for it. -/
structure ShardFile (lib : Libraries) (source : InputDirectory) (sourceMap : Dict String String)
    (filename : String) (file : SafetensorsFile) : Prop where
  path : safeShardPath filename = .ok filename
  content : ∃ content, source.lookup filename = some content ∧ lib.safeOpen content = .ok file
  names : ∀ name, name ∈ file.header ↔ sourceMap.lookup name = some filename

theorem ShardFile.unique {file' : SafetensorsFile} (h : ShardFile lib source sourceMap filename file)
    (h' : ShardFile lib source sourceMap filename file') : file = file' := by
  obtain ⟨content, hlook, hopen⟩ := h.content
  obtain ⟨content', hlook', hopen'⟩ := h'.content
  rw [hlook] at hlook'
  cases hlook'
  rw [hopen] at hopen'
  exact Except.ok.inj hopen'

theorem safeShardPath_ok {path : String} (h : safeShardPath filename = .ok path) :
    path = filename := by
  unfold safeShardPath at h
  split at h
  · cases h
  · cases h
    rfl

theorem readTensorSpecs_ok {path : String} {content : Option FileContent}
    {specs : Dict String TensorSpec} (h : readTensorSpecs lib path content = .ok specs) :
    ∃ c, content = some c ∧ ∃ file, lib.safeOpen c = .ok file ∧ specs = tensorSpecs file := by
  unfold readTensorSpecs at h
  cases content with
  | none => cases h
  | some c =>
    refine ⟨c, rfl, ?_⟩
    dsimp only at h
    cases hopen : lib.safeOpen c with
    | error exc =>
      rw [hopen] at h
      cases h
    | ok file =>
      rw [hopen] at h
      cases h
      exact ⟨file, rfl, rfl⟩

theorem mem_tensorSpecs : name ∈ (tensorSpecs file).keys ↔ name ∈ file.header := by
  rw [AList.mem_keys.symm, ← AList.lookup_isSome, ← AList.lookup_isSome, tensorSpecs,
    Dict.lookup_mapValues, Option.isSome_map]

theorem addShardSpecs_ok {specs : Dict String TensorSpec}
    (h : addShardSpecs lib inputDir source sourceMap specs filename = .ok sourceSpecs) :
    ∃ file, ShardFile lib source sourceMap filename file ∧ ∀ name, sourceSpecs.lookup name =
      if sourceMap.lookup name = some filename then (file.header.lookup name).map TensorMetadata.spec
      else specs.lookup name := by
  unfold addShardSpecs at h
  obtain ⟨path, hpath, h⟩ := Fallible.bind_eq_ok.mp h
  obtain rfl := safeShardPath_ok hpath
  obtain ⟨shardSpecs, hread, h⟩ := Fallible.bind_eq_ok.mp h
  dsimp only at h
  split at h
  next hnames =>
    obtain ⟨content, hlook, file, hopen, rfl⟩ := readTensorSpecs_ok hread
    cases h
    have hkeys : ∀ name, name ∈ file.header ↔ sourceMap.lookup name = some path := by
      intro name
      rw [← mem_tensorSpecs]
      refine ⟨fun hname => ?_, fun hname => hnames.2 ?_⟩
      · simpa using (List.mem_filter.mp (hnames.1 hname)).2
      · refine List.mem_filter.mpr ⟨?_, by simpa using hname⟩
        rw [← AList.mem_keys, ← AList.lookup_isSome, hname]
        rfl
    refine ⟨file, ⟨hpath, ⟨content, hlook, hopen⟩, hkeys⟩, fun name => ?_⟩
    split
    · next hname =>
      obtain ⟨metadata, hmeta⟩ := Option.isSome_iff_exists.mp
        (AList.lookup_isSome.mpr ((hkeys name).mpr hname))
      rw [hmeta]
      refine Dict.lookup_insertAll_entries (b := metadata.spec) ?_ rfl
      rw [tensorSpecs, Dict.lookup_mapValues, hmeta]
      rfl
    · next hname =>
      refine Dict.lookup_insertAll_entries_none ?_
      rw [AList.lookup_eq_none, AList.mem_keys, mem_tensorSpecs, hkeys]
      exact hname
  · cases h

/-- The specs are those of the shards' headers. -/
theorem addShardSpecs_loop {filenames : List String} {specs : Dict String TensorSpec}
    (h : filenames.foldlM (addShardSpecs lib inputDir source sourceMap) specs = .ok sourceSpecs) :
    (∀ f ∈ filenames, ∃ file, ShardFile lib source sourceMap f file ∧
      ∀ name, sourceMap.lookup name = some f →
        sourceSpecs.lookup name = (file.header.lookup name).map TensorMetadata.spec) ∧
    ∀ name, (∀ f ∈ filenames, sourceMap.lookup name ≠ some f) →
      sourceSpecs.lookup name = specs.lookup name := by
  induction filenames generalizing specs with
  | nil =>
    cases h
    exact ⟨fun _ hf => (by cases hf), fun _ _ => rfl⟩
  | cons filename filenames ih =>
    rw [List.foldlM_cons, Fallible.bind_eq_ok] at h
    obtain ⟨specs', hstep, h⟩ := h
    obtain ⟨file, hfile, hspecs⟩ := addShardSpecs_ok hstep
    obtain ⟨hread, hkept⟩ := ih h
    refine ⟨List.forall_mem_cons.mpr ⟨⟨file, hfile, fun name hname => ?_⟩, hread⟩,
      fun name hname => ?_⟩
    · by_cases hagain : filename ∈ filenames
      · obtain ⟨file', hfile', hspecs'⟩ := hread filename hagain
        rw [hspecs' name hname, hfile.unique hfile']
      · rw [hkept name, hspecs, if_pos hname]
        intro other hother heq
        rw [hname] at heq
        cases heq
        exact hagain hother
    · rw [hkept name fun other hother => hname other (by simp [hother]), hspecs,
        if_neg (hname filename (by simp))]

theorem mem_filenames : filename ∈ (sourceMap.entries.map (·.2)).dedup ↔
    ∃ name, sourceMap.lookup name = some filename := by
  rw [List.mem_dedup, List.mem_map]
  constructor
  · rintro ⟨e, he, rfl⟩
    exact ⟨e.1, AList.mem_lookup_iff.mpr he⟩
  · rintro ⟨name, hname⟩
    exact ⟨⟨name, filename⟩, AList.mem_lookup_iff.mp hname, rfl⟩

/-- The shards that were read, and the specs of their tensors. -/
structure SourceRead (lib : Libraries) (source : InputDirectory) (sourceMap : Dict String String)
    (sourceSpecs : Dict String TensorSpec) : Prop where
  shard : ∀ name filename, sourceMap.lookup name = some filename →
    ∃ file, ShardFile lib source sourceMap filename file
  spec : ∀ name filename file, sourceMap.lookup name = some filename →
    ShardFile lib source sourceMap filename file →
      sourceSpecs.lookup name = (file.header.lookup name).map TensorMetadata.spec

theorem readSourceSpecs_ok (h : readSourceSpecs lib inputDir source sourceMap = .ok sourceSpecs) :
    SourceRead lib source sourceMap sourceSpecs := by
  obtain ⟨hread, -⟩ := addShardSpecs_loop h
  refine ⟨fun name filename hname => ?_, fun name filename file hname hfile => ?_⟩
  · obtain ⟨file, hfile, -⟩ := hread filename (mem_filenames.mpr ⟨name, hname⟩)
    exact ⟨file, hfile⟩
  · obtain ⟨file', hfile', hspecs⟩ := hread filename (mem_filenames.mpr ⟨name, hname⟩)
    rw [hspecs name hname, hfile.unique hfile']

/-- A tensor of the index has a place in its shard. -/
theorem SourceRead.metadata (h : SourceRead lib source sourceMap sourceSpecs)
    (hname : sourceMap.lookup name = some filename) : ∃ file metadata,
      ShardFile lib source sourceMap filename file ∧ file.header.lookup name = some metadata ∧
        sourceSpecs.lookup name = some metadata.spec := by
  obtain ⟨file, hfile⟩ := h.shard name filename hname
  obtain ⟨metadata, hmeta⟩ := Option.isSome_iff_exists.mp
    (AList.lookup_isSome.mpr ((hfile.names name).mpr hname))
  refine ⟨file, metadata, hfile, hmeta, ?_⟩
  rw [h.spec name filename file hname hfile, hmeta]
  rfl

variable {rows cols : Nat}

/-- A weight and its scale agree, and this is the shape of their product. -/
structure ScaledWeight (sourceSpecs : Dict String TensorSpec) (name : String) (rows cols : Nat)
    (shape : List Nat) : Prop where
  spec : (sourceSpecs.lookup name = some ("I8", [rows, cols]) ∧ shape = [rows, cols * 2] ∧
      sourceSpecs.lookup (scaleNameOf name) =
        some ("F8_E8M0", [rows, numGroups (cols * 2) mxfp4GroupSize])) ∨
    sourceSpecs.lookup name = some ("F8_E4M3", [rows, cols]) ∧ shape = [rows, cols] ∧
      sourceSpecs.lookup (scaleNameOf name) =
        some ("F8_E8M0", [numGroups rows fp8BlockSize, numGroups cols fp8BlockSize])

theorem getItem_ok {α : Type} {d : Dict String α} {key : String} {a : α} :
    getItem d key = .ok a ↔ d.lookup key = some a := by
  unfold getItem
  cases d.lookup key <;> simp

theorem checkScaleContract_ok {scale : TensorSpec} {outputShape expected shape : List Nat}
    (h : checkScaleContract name scale outputShape expected = .ok shape) :
    scale = ("F8_E8M0", expected) ∧ shape = outputShape := by
  unfold checkScaleContract at h
  split at h
  · cases h
  · next hcontract =>
    rw [not_or, not_not, not_not] at hcontract
    cases h
    exact ⟨Prod.ext hcontract.1 hcontract.2, rfl⟩

theorem dequantizedShape_ok {shape : List Nat} (h : dequantizedShape sourceSpecs name = .ok shape) :
    ∃ rows cols, ScaledWeight sourceSpecs name rows cols shape := by
  unfold dequantizedShape at h
  obtain ⟨⟨weightDtype, weightShape⟩, hweight, h⟩ := Fallible.bind_eq_ok.mp h
  obtain ⟨scale, hscale, h⟩ := Fallible.bind_eq_ok.mp h
  rw [getItem_ok] at hweight hscale
  split at h
  next rows cols _ _ hshape _ =>
    dsimp only at h hshape
    subst hshape
    refine ⟨rows, cols, ⟨?_⟩⟩
    rw [hweight, hscale]
    split at h
    next hi8 =>
      obtain ⟨rfl, rfl⟩ := checkScaleContract_ok h
      subst hi8
      exact .inl ⟨rfl, rfl, rfl⟩
    next =>
      split at h
      next hfp8 =>
        obtain ⟨rfl, rfl⟩ := checkScaleContract_ok h
        subst hfp8
        exact .inr ⟨rfl, rfl, rfl⟩
      next => cases h
  next => cases h

theorem dequantizedShapes_ok {shapes : Dict String (List Nat)}
    (h : dequantizedShapes sourceMap sourceSpecs = .ok shapes) :
    (∀ name ∈ sourceMap, scaleNameOf name ∈ sourceMap →
      ∃ shape, dequantizedShape sourceSpecs name = .ok shape) ∧
    ∀ name shape, shapes.lookup name = some shape ↔
      name ∈ sourceMap ∧ scaleNameOf name ∈ sourceMap ∧
        dequantizedShape sourceSpecs name = .ok shape := by
  unfold dequantizedShapes at h
  obtain ⟨l, hl, h⟩ := Fallible.bind_eq_ok.mp h
  cases h
  have hmem : ∀ name shape, (name, shape) ∈ l ↔
      name ∈ sourceMap ∧ scaleNameOf name ∈ sourceMap ∧
        dequantizedShape sourceSpecs name = .ok shape := by
    intro name shape
    rw [Fallible.mem_mapM hl]
    constructor
    · rintro ⟨w, hw, hok⟩
      obtain ⟨shape', hshape, hok⟩ := Fallible.bind_eq_ok.mp hok
      cases hok
      obtain ⟨hkey, hscale⟩ := List.mem_filter.mp hw
      exact ⟨AList.mem_keys.mpr hkey, by simpa using hscale, hshape⟩
    · rintro ⟨hname, hscale, hshape⟩
      refine ⟨name, List.mem_filter.mpr ⟨AList.mem_keys.mp hname, by simpa using hscale⟩, ?_⟩
      rw [hshape]
      rfl
  constructor
  · intro name hname hscale
    have hfilter : name ∈ sourceMap.keys.filter fun name => scaleNameOf name ∈ sourceMap :=
      List.mem_filter.mpr ⟨AList.mem_keys.mp hname, by simpa using hscale⟩
    obtain ⟨i, hi⟩ := List.mem_iff_getElem?.mp hfilter
    obtain ⟨b, -, hb⟩ := Fallible.mapM_get hl hi
    obtain ⟨shape, hshape, -⟩ := Fallible.bind_eq_ok.mp hb
    exact ⟨shape, hshape⟩
  · intro name shape
    rw [Dict.lookup_assign, hmem]
    intro name shape shape' hshape hshape'
    have heq := ((hmem _ _).mp hshape).2.2
    rw [((hmem _ _).mp hshape').2.2] at heq
    exact (Except.ok.inj heq).symm

/-- A tensor with the empty name would have to be its own scale. -/
theorem empty_not_mem {shapes : Dict String (List Nat)}
    (h : dequantizedShapes sourceMap sourceSpecs = .ok shapes) : "" ∉ sourceMap := by
  intro hmem
  have hname : scaleNameOf "" = "" := by decide
  obtain ⟨shape, hshape⟩ := (dequantizedShapes_ok h).1 "" hmem (hname ▸ hmem)
  obtain ⟨rows, cols, ⟨hspec⟩⟩ := dequantizedShape_ok hshape
  rw [hname] at hspec
  have hdtype : ∀ dtype dims scaleDims, sourceSpecs.lookup "" = some (dtype, dims) →
      sourceSpecs.lookup "" = some ("F8_E8M0", scaleDims) → dtype = "F8_E8M0" := by
    intro dtype dims scaleDims hweight hscale
    rw [hweight] at hscale
    exact congrArg Prod.fst (Option.some.inj hscale)
  rcases hspec with ⟨hweight, -, hscale⟩ | ⟨hweight, -, hscale⟩
  · exact absurd (hdtype _ _ _ hweight hscale) (by decide)
  · exact absurd (hdtype _ _ _ hweight hscale) (by decide)

section Planned
variable {shapes : Dict String (List Nat)} {shape : List Nat}

/-- Only a weight has a scale name that is listed. -/
theorem scaleNameOf_mem (hempty : "" ∉ sourceMap) : scaleNameOf name ∈ sourceMap ↔
    endsWith name ".weight" = true ∧ sourceScaleName name ∈ sourceMap := by
  unfold scaleNameOf
  split
  · next h => simp [h]
  · next h => simp [h, hempty]

/-- No output but a partnered scale is planned by its weight. -/
theorem scale_shapes_none (hshapes : dequantizedShapes sourceMap sourceSpecs = .ok shapes)
    (hplain : ¬ IsPartnered sourceMap name) :
    (if endsWith name ".scale" then shapes.lookup (sourceWeightName name) else none) = none := by
  split
  · next hscale =>
    rw [Option.eq_none_iff_forall_ne_some]
    intro shape hshape
    exact hplain ⟨hscale, (((dequantizedShapes_ok hshapes).2 _ _).mp hshape).1⟩
  · rfl

theorem plannedSpec_plain (hshapes : dequantizedShapes sourceMap sourceSpecs = .ok shapes)
    (hplain : ¬ IsPartnered sourceMap name) (hscale : scaleNameOf name ∉ sourceMap) :
    plannedSpec sourceSpecs shapes compressRatios mtpLayerCount name =
      getItem sourceSpecs name := by
  have hnone : shapes.lookup name = none := by
    rw [Option.eq_none_iff_forall_ne_some]
    intro shape hshape
    exact hscale (((dequantizedShapes_ok hshapes).2 _ _).mp hshape).2.1
  rw [plannedSpec, scale_shapes_none hshapes hplain, hnone]

theorem plannedSpec_weight (hshapes : dequantizedShapes sourceMap sourceSpecs = .ok shapes)
    (hplain : ¬ IsPartnered sourceMap name) (hshape : shapes.lookup name = some shape) :
    plannedSpec sourceSpecs shapes compressRatios mtpLayerCount name =
      .ok (if isServingQuantizedWeight name compressRatios mtpLayerCount then "I8" else "BF16",
        shape) := by
  rw [plannedSpec, scale_shapes_none hshapes hplain, hshape]

theorem plannedSpec_scale (hweight : endsWith name ".weight" = true)
    (hshape : shapes.lookup name = some shape) :
    plannedSpec sourceSpecs shapes compressRatios mtpLayerCount (sourceScaleName name) =
      .ok ("F32", [shape.headD 0]) := by
  obtain ⟨stem, rfl⟩ := endsWith_iff.mp hweight
  have hscale : endsWith (stem ++ ".scale") ".scale" = true := endsWith_iff.mpr ⟨stem, rfl⟩
  rw [plannedSpec, sourceScaleName_append, if_pos hscale, sourceWeightName_append, hshape]

/-- The specs of a shard are collected under its name. -/
theorem lookup_addSpec {l : List (String × String × TensorSpec)}
    (hl : ∀ f f' n s s', (f, n, s) ∈ l → (f', n, s') ∈ l → s = s') :
    (∀ f, ((l.foldl addSpec ∅).lookup f).isSome = true ↔ ∃ n s, (f, n, s) ∈ l) ∧
      ∀ f n s, ((l.foldl addSpec ∅).lookup f).bind (·.lookup n) = some s ↔ (f, n, s) ∈ l := by
  induction l using List.reverseRecOn with
  | nil => simp
  | append_singleton l e ih =>
    obtain ⟨g, m, t⟩ := e
    obtain ⟨hsome, hspec⟩ := ih fun f f' n s s' h h' =>
      hl f f' n s s' (List.mem_append_left _ h) (List.mem_append_left _ h')
    rw [List.foldl_append]
    refine ⟨fun f => ?_, fun f n s => ?_⟩
    · by_cases hf : f = g
      · subst hf
        simp only [List.foldl_cons, List.foldl_nil, addSpec, AList.lookup_insert, Option.isSome_some,
          true_iff]
        exact ⟨m, t, by simp⟩
      · simp only [List.foldl_cons, List.foldl_nil, addSpec, AList.lookup_insert_ne hf, hsome]
        simp [hf]
    · by_cases hf : f = g
      · subst hf
        simp only [List.foldl_cons, List.foldl_nil, addSpec, AList.lookup_insert, Option.bind_some]
        by_cases hn : n = m
        · subst hn
          rw [AList.lookup_insert]
          constructor
          · intro h
            cases h
            simp
          · intro h
            rw [hl f f n s t h (by simp)]
        · rw [AList.lookup_insert_ne hn]
          have hbind := hspec f n s
          cases hlook : (l.foldl addSpec ∅).lookup f with
          | none =>
            rw [hlook] at hbind
            simpa [hn] using hbind
          | some d =>
            rw [hlook] at hbind
            simpa [hn] using hbind
      · simp only [List.foldl_cons, List.foldl_nil, addSpec, AList.lookup_insert_ne hf, hspec]
        simp [hf]

theorem expectedOutputSpecs_ok {outputMap : Dict String String}
    {expected : Dict String (Dict String TensorSpec)}
    (h : expectedOutputSpecs lib inputDir source sourceMap outputMap compressRatios mtpLayerCount =
      .ok expected) : ∃ sourceSpecs shapes,
    SourceRead lib source sourceMap sourceSpecs ∧
    dequantizedShapes sourceMap sourceSpecs = .ok shapes ∧
    (∀ f, (expected.lookup f).isSome = true ↔ ∃ x, outputMap.lookup x = some f) ∧
    (∀ x ∈ outputMap, ∃ s,
      plannedSpec sourceSpecs shapes compressRatios mtpLayerCount x = .ok s) ∧
    ∀ f x s, (expected.lookup f).bind (·.lookup x) = some s ↔ outputMap.lookup x = some f ∧
      plannedSpec sourceSpecs shapes compressRatios mtpLayerCount x = .ok s := by
  unfold expectedOutputSpecs at h
  obtain ⟨sourceSpecs, hread, h⟩ := Fallible.bind_eq_ok.mp h
  obtain ⟨shapes, hshapes, h⟩ := Fallible.bind_eq_ok.mp h
  obtain ⟨planned, hplanned, h⟩ := Fallible.bind_eq_ok.mp h
  cases h
  have hmem : ∀ f x s, (f, x, s) ∈ planned ↔ outputMap.lookup x = some f ∧
      plannedSpec sourceSpecs shapes compressRatios mtpLayerCount x = .ok s := by
    intro f x s
    rw [Fallible.mem_mapM hplanned]
    constructor
    · rintro ⟨⟨x', f'⟩, he, hok⟩
      obtain ⟨s', hs, hok⟩ := Fallible.bind_eq_ok.mp hok
      cases hok
      exact ⟨AList.mem_lookup_iff.mpr he, hs⟩
    · rintro ⟨hx, hs⟩
      refine ⟨⟨x, f⟩, AList.mem_lookup_iff.mp hx, ?_⟩
      dsimp only
      rw [hs]
      rfl
  have hfunctional : ∀ f f' x s s', (f, x, s) ∈ planned → (f', x, s') ∈ planned → s = s' := by
    intro f f' x s s' hs hs'
    have heq := ((hmem _ _ _).mp hs).2
    rw [((hmem _ _ _).mp hs').2] at heq
    exact (Except.ok.inj heq).symm
  obtain ⟨hsome, hspec⟩ := lookup_addSpec hfunctional
  have hall : ∀ x f, outputMap.lookup x = some f →
      ∃ s, plannedSpec sourceSpecs shapes compressRatios mtpLayerCount x = .ok s := by
    intro x f hx
    obtain ⟨i, hi⟩ := List.mem_iff_getElem?.mp (AList.mem_lookup_iff.mp hx)
    obtain ⟨b, -, hb⟩ := Fallible.mapM_get hplanned hi
    obtain ⟨s, hs, -⟩ := Fallible.bind_eq_ok.mp hb
    exact ⟨s, hs⟩
  refine ⟨sourceSpecs, shapes, readSourceSpecs_ok hread, hshapes, fun f => ?_, fun x hx => ?_,
    fun f x s => ?_⟩
  · rw [hsome]
    constructor
    · rintro ⟨x, s, hx⟩
      exact ⟨x, ((hmem _ _ _).mp hx).1⟩
    · rintro ⟨x, hx⟩
      obtain ⟨s, hs⟩ := hall x f hx
      exact ⟨x, s, (hmem _ _ _).mpr ⟨hx, hs⟩⟩
  · obtain ⟨f, hf⟩ := Option.isSome_iff_exists.mp (AList.lookup_isSome.mpr hx)
    exact hall x f hf
  · rw [hspec, hmem]

/-- What is known of a plan that was made. -/
structure PlanOf (lib : Libraries) (source : InputDirectory) (plan : ConversionPlan)
    (sourceSpecs : Dict String TensorSpec) (shapes : Dict String (List Nat)) : Prop where
  read : SourceRead lib source plan.sourceMap sourceSpecs
  dequantized : dequantizedShapes plan.sourceMap sourceSpecs = .ok shapes
  outputMap : plan.outputMap =
    buildOutputWeightMap plan.sourceMap plan.compressRatios plan.mtpLayerCount
  shardNames : plan.shardNames = sortedNames (plan.sourceMap.entries.map (·.2))
  listed : ∀ f, (plan.expectedByShard.lookup f).isSome = true ↔ ∃ x, plan.outputMap.lookup x = some f
  planned : ∀ x ∈ plan.outputMap, ∃ s,
    plannedSpec sourceSpecs shapes plan.compressRatios plan.mtpLayerCount x = .ok s
  expected : ∀ f x s, (plan.expectedByShard.lookup f).bind (·.lookup x) = some s ↔
    plan.outputMap.lookup x = some f ∧
      plannedSpec sourceSpecs shapes plan.compressRatios plan.mtpLayerCount x = .ok s
  /-- The metadata of the source are files of their own. -/
  metadata : ∀ name ∈ ["config.json", "model.safetensors.index.json"],
    ∃ content, source.lookup name = some content ∧ ∀ file, content ≠ .safetensors file

theorem readConfig_ok {path : String} {content : Option FileContent} {config : ModelConfig}
    (h : readConfig path content = .ok config) :
    ∃ c, content = some c ∧ ∀ file, c ≠ .safetensors file := by
  cases content with
  | none => cases h
  | some c =>
    refine ⟨c, rfl, fun file hfile => ?_⟩
    subst hfile
    cases h

theorem readIndex_ok {path : String} {content : Option FileContent} {index : WeightIndex}
    (h : readIndex path content = .ok index) :
    ∃ c, content = some c ∧ ∀ file, c ≠ .safetensors file := by
  cases content with
  | none => cases h
  | some c =>
    refine ⟨c, rfl, fun file hfile => ?_⟩
    subst hfile
    cases h

theorem planConversion_ok {noSpecCompatible : Bool} {plan : ConversionPlan}
    (h : planConversion lib inputDir source noSpecCompatible = .ok plan) :
    ∃ sourceSpecs shapes, PlanOf lib source plan sourceSpecs shapes := by
  unfold planConversion at h
  obtain ⟨⟨config, weightMap⟩, hvalid, h⟩ := Fallible.bind_eq_ok.mp h
  obtain ⟨numLayers, -, h⟩ := Fallible.bind_eq_ok.mp h
  obtain ⟨ratios, -, h⟩ := Fallible.bind_eq_ok.mp h
  obtain ⟨count, -, h⟩ := Fallible.bind_eq_ok.mp h
  obtain ⟨expected, hexpected, h⟩ := Fallible.bind_eq_ok.mp h
  cases h
  obtain ⟨sourceSpecs, shapes, hread, hshapes, hlisted, hplanned, hspec⟩ :=
    expectedOutputSpecs_ok hexpected
  refine ⟨sourceSpecs, shapes, hread, hshapes, rfl, rfl, hlisted, hplanned, hspec, ?_⟩
  unfold validateSource at hvalid
  obtain ⟨config', hconfig, hvalid⟩ := Fallible.bind_eq_ok.mp hvalid
  obtain ⟨facts, -, hvalid⟩ := Fallible.bind_eq_ok.mp hvalid
  obtain ⟨index, hindex, -⟩ := Fallible.bind_eq_ok.mp hvalid
  intro name hname
  rcases List.mem_pair.mp hname with rfl | rfl
  · exact readConfig_ok hconfig
  · exact readIndex_ok hindex

end Planned

end Source

end PyptoServing.Weights
