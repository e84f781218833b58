import PyptoServing.Weights.ConversionStages

/-!
# Runs that are resumed

Wherever a conversion is cut off once its marker is written, a resumed run ends in the files of an
uninterrupted one, as long as every shard has a tensor that is planned.
-/
namespace PyptoServing.Weights

open Lib Raising Traced Files

/-- The sources whose conversion can be resumed. -/
structure Resumable (lib : Libraries) (source : InputDirectory) (plan : ConversionPlan) : Prop where
  /-- Each shard has a tensor that is not the scale of a listed weight. -/
  listed : ∀ f ∈ plan.shardNames, ∃ name, plan.sourceMap.lookup name = some f ∧
    ¬ IsPartnered plan.sourceMap name
  readable : Readable lib source plan.sourceMap
  names : ShardNames plan

/-- A run from a directory, which may be cut off in any of the states that it passes. -/
def runFrom (lib : Libraries) (inputDir outputDir : String) (source : InputDirectory)
    (noSpecCompatible resume : Bool) (d : Directory) : Except ConversionError Unit × Traced Directory :=
  exec (convertCheckpoint lib inputDir outputDir source resume false noSpecCompatible) ⟨d, []⟩

/-- No output directory. -/
def noDirectory : Directory := fun _ => none

/-- The directories that cut off runs leave, once the marker is written; a run that is resumed
may be cut off as well. -/
inductive Interrupted (lib : Libraries) (inputDir outputDir : String) (source : InputDirectory)
    (noSpecCompatible : Bool) : Directory → Prop
  | fresh (resume : Bool) (d : Directory)
      (h : d ∈ (runFrom lib inputDir outputDir source noSpecCompatible resume noDirectory).2.passed)
      (hmarker : (d (.file markerName)).isSome = true) :
      Interrupted lib inputDir outputDir source noSpecCompatible d
  | resumed (d d' : Directory) (h : Interrupted lib inputDir outputDir source noSpecCompatible d)
      (h' : d' ∈ (runFrom lib inputDir outputDir source noSpecCompatible true d).2.passed) :
      Interrupted lib inputDir outputDir source noSpecCompatible d'

/-- The directory of a completed conversion: every shard has the names, dtypes and shapes that are
planned for it (none, for one that the plan leaves out), all shards together have the names of the
index, each where it says. -/
structure Converted (lib : Libraries) (plan : ConversionPlan) (d : Directory) : Prop where
  specs : ∀ f ∈ plan.shardNames, ∃ actual, readTensorSpecs lib f (d (.file f)) = .ok actual ∧
    ∀ x, actual.lookup x = (plan.expectedByShard.lookup f).bind (·.lookup x)
  names : ∀ x f, plan.outputMap.lookup x = some f ↔ f ∈ plan.shardNames ∧
    ∃ actual, readTensorSpecs lib f (d (.file f)) = .ok actual ∧ x ∈ actual
  config : d (.file "config.json") = some (.config plan.outputConfig)
  index : ∃ totalSize, d (.file "model.safetensors.index.json") =
    some (.index ⟨totalSize, some plan.outputMap⟩)
  marker : ∃ marker, d (.file markerName) = some (.marker marker) ∧ marker.complete = true

/-- Equal shards, configuration, index and marker. -/
structure SameOutput (plan : ConversionPlan) (d d' : Directory) : Prop where
  shards : ∀ f ∈ plan.shardNames, d' (.file f) = d (.file f)
  rest : ∀ name ∈ ["config.json", "model.safetensors.index.json", markerName],
    d' (.file name) = d (.file name)

/-- A conversion into a new directory returns with a converted checkpoint, and wherever one was cut
off, a resumed run returns with the same. -/
structure Resumes (lib : Libraries) (inputDir outputDir : String) (source : InputDirectory)
    (noSpecCompatible : Bool) (plan : ConversionPlan) (final : Directory) : Prop where
  fresh : ∃ t, runFrom lib inputDir outputDir source noSpecCompatible false noDirectory =
    (.ok (), t) ∧ t.current = final
  converted : Converted lib plan final
  resumed : ∀ d, Interrupted lib inputDir outputDir source noSpecCompatible d →
    ∃ t, runFrom lib inputDir outputDir source noSpecCompatible true d = (.ok (), t) ∧
      SameOutput plan final t.current

section Run
variable {lib : Libraries} {inputDir outputDir : String} {source : InputDirectory}
  {plan : ConversionPlan} {sourceSpecs : Dict String TensorSpec} {noSpecCompatible : Bool}
  {shapes : Dict String (List Nat)} {marker : ConversionMarker} {exact resume : Bool}

/-- A run is its start, its loops and its end. -/
theorem run_completes (hlib : lib.Documented) (hdirs : inputDir ≠ outputDir)
    (hok : planConversion lib inputDir source noSpecCompatible = .ok plan)
    (hplan : PlanOf lib source plan sourceSpecs shapes)
    (hreadable : Readable lib source plan.sourceMap) (hnames : ShardNames plan)
    (hresume : exact = false → resume = true ∧
      ∀ f ∈ plan.shardNames, (plan.expectedByShard.lookup f).isSome = true)
    {J P : Directory → Prop} (hJ : ∀ d, Halfway lib inputDir source plan marker false d → J d)
    (hstart : Completes J P (startConversion lib inputDir outputDir source plan resume)
      fun m d => (∃ complete, m = { marker with complete := complete }) ∧
        Halfway lib inputDir source plan marker exact d) :
    Completes J P
      (convertCheckpoint lib inputDir outputDir source resume false noSpecCompatible)
      fun _ => Final lib inputDir source plan marker := by
  unfold convertCheckpoint
  rw [if_neg hdirs]
  refine Completes.bind_exec (a := plan) (fun s _ => by rw [hok, exec_ofExcept]) ?_
  refine hstart.bind fun m => ?_
  rintro s ⟨⟨complete, rfl⟩, hs⟩
  have hrest := ((loops_complete outputDir hlib hplan hreadable hnames hresume).bind
    fun _ => finish_completes outputDir hlib hplan hreadable hnames complete).weaken
      (fun _ h => h) (fun _ _ h => h) hJ
  rw [bind_assoc] at hrest
  exact hrest s hs

theorem outputMap_isSome_iff (hplan : PlanOf lib source plan sourceSpecs shapes) {f : String} :
    (plan.expectedByShard.lookup f).isSome = true ↔ ∃ name, plan.sourceMap.lookup name = some f ∧
      ¬ IsPartnered plan.sourceMap name := by
  rw [hplan.listed, hplan.outputMap]
  constructor
  · rintro ⟨x, hx⟩
    obtain ⟨name, hname, hmem⟩ := lookup_outputMap.mp hx
    exact ⟨name, hname, (mem_outputNames.mp hmem).1⟩
  · rintro ⟨name, hname, hplain⟩
    exact ⟨name, lookup_outputMap.mpr ⟨name, hname, mem_outputNames.mpr ⟨hplain, .inl rfl⟩⟩⟩

theorem Final.shard {d : Directory} (h : Final lib inputDir source plan marker d) {f : String}
    (hf : f ∈ plan.shardNames) :
    d (.file f) = some (shardContent lib inputDir source plan f) :=
  h.settled.puts (shardPut lib inputDir source plan f)
    (List.mem_append_right _ (List.mem_map_of_mem hf))

theorem Final.converted (hlib : lib.Documented) (hplan : PlanOf lib source plan sourceSpecs shapes)
    (hreadable : Readable lib source plan.sourceMap) {d : Directory}
    (hd : Final lib inputDir source plan marker d) : Converted lib plan d := by
  have hread : ∀ f ∈ plan.shardNames, ∃ file, SavedShard lib inputDir source plan f file ∧
      readTensorSpecs lib f (d (.file f)) = .ok (tensorSpecs file) := by
    intro f hf
    obtain ⟨converted, -, hsaved⟩ := shard_saved inputDir hlib hplan hreadable hf
    refine ⟨_, hsaved, ?_⟩
    simp only [hd.shard hf, hsaved.content, readTensorSpecs, hsaved.opens]
  refine ⟨fun f hf => ?_, fun x f => ?_, hd.config, ⟨_, hd.index⟩, ⟨_, hd.marker, rfl⟩⟩
  · obtain ⟨file, hsaved, hok⟩ := hread f hf
    exact ⟨_, hok, fun x => Option.ext (hsaved.specs x)⟩
  · constructor
    · intro hx
      obtain ⟨name, hname, -⟩ := lookup_outputMap.mp (hplan.outputMap ▸ hx)
      have hf := (mem_shardNames hplan).mpr ⟨name, hname⟩
      obtain ⟨file, hsaved, hok⟩ := hread f hf
      obtain ⟨spec, hspec⟩ := hplan.planned x (AList.lookup_isSome.mp (by rw [hx]; rfl))
      have hlook := (hsaved.specs x spec).mpr ((hplan.expected f x spec).mpr ⟨hx, hspec⟩)
      exact ⟨hf, _, hok, AList.lookup_isSome.mp (by rw [hlook]; rfl)⟩
    · rintro ⟨hf, actual, hactual, hx⟩
      obtain ⟨file, hsaved, hok⟩ := hread f hf
      rw [hok] at hactual
      cases hactual
      obtain ⟨spec, hspec⟩ := Option.isSome_iff_exists.mp (AList.lookup_isSome.mpr hx)
      exact ((hplan.expected f x spec).mp ((hsaved.specs x spec).mp hspec)).1

theorem Final.same {d d' : Directory} (h : Final lib inputDir source plan marker d)
    (h' : Final lib inputDir source plan marker d') : SameOutput plan d d' := by
  refine ⟨fun f hf => by rw [h.shard hf, h'.shard hf], fun name hname => ?_⟩
  simp only [List.mem_cons, List.not_mem_nil, or_false] at hname
  rcases hname with rfl | rfl | rfl
  · rw [h.config, h'.config]
  · rw [h.index, h'.index]
  · rw [h.marker, h'.marker]

/-- A conversion into a new directory. -/
theorem fresh_run (hlib : lib.Documented) (hdirs : inputDir ≠ outputDir)
    (hok : planConversion lib inputDir source noSpecCompatible = .ok plan)
    (hplan : PlanOf lib source plan sourceSpecs shapes)
    (hreadable : Readable lib source plan.sourceMap) (hnames : ShardNames plan)
    (hmarker : ∀ complete, conversionMarker lib inputDir source plan.shardNames complete =
      .ok { marker with complete := complete }) (resume : Bool) :
    ∃ t, runFrom lib inputDir outputDir source noSpecCompatible resume noDirectory = (.ok (), t) ∧
      Final lib inputDir source plan marker t.current ∧
      ∀ d ∈ t.passed, MarkedHalfway lib inputDir source plan marker d := by
  have hstart : Completes (MarkedHalfway lib inputDir source plan marker) (fun d => d = noDirectory)
      (startConversion lib inputDir outputDir source plan resume)
      fun m d => (∃ complete, m = { marker with complete := complete }) ∧
        Halfway lib inputDir source plan marker true d := start_fresh hlib hplan hnames (hmarker false)
  have hresume : true = false → resume = true ∧
      ∀ f ∈ plan.shardNames, (plan.expectedByShard.lookup f).isSome = true := fun h => (by cases h)
  have hJ : ∀ d, Halfway lib inputDir source plan marker false d →
      MarkedHalfway lib inputDir source plan marker d := fun d hd _ => hd
  obtain ⟨a, t, hexec, hfinal, more, hpassed, hmore⟩ := run_completes hlib hdirs hok hplan hreadable
    hnames hresume hJ hstart ⟨noDirectory, []⟩ rfl
  rw [List.nil_append] at hpassed
  exact ⟨t, hexec, hfinal, fun d hd => hmore d (hpassed ▸ hd)⟩

/-- A resumed run, from wherever the conversion was cut off. -/
theorem resumed_run (hlib : lib.Documented) (hdirs : inputDir ≠ outputDir)
    (hok : planConversion lib inputDir source noSpecCompatible = .ok plan)
    (hplan : PlanOf lib source plan sourceSpecs shapes) (h : Resumable lib source plan)
    (hmarker : ∀ complete, conversionMarker lib inputDir source plan.shardNames complete =
      .ok { marker with complete := complete }) {d : Directory}
    (hd : Halfway lib inputDir source plan marker false d) :
    ∃ t, runFrom lib inputDir outputDir source noSpecCompatible true d = (.ok (), t) ∧
      Final lib inputDir source plan marker t.current ∧
      ∀ d ∈ t.passed, Halfway lib inputDir source plan marker false d := by
  have hlisted : ∀ f ∈ plan.shardNames, (plan.expectedByShard.lookup f).isSome = true :=
    fun f hf => (outputMap_isSome_iff hplan).mpr (h.listed f hf)
  obtain ⟨a, t, hexec, hfinal, more, hpassed, hmore⟩ := run_completes hlib hdirs hok hplan h.readable
    h.names (fun _ => ⟨rfl, hlisted⟩) (fun d hd => hd) (start_resumed hmarker) ⟨d, []⟩ hd
  rw [List.nil_append] at hpassed
  exact ⟨t, hexec, hfinal, fun d hd => hmore d (hpassed ▸ hd)⟩

/-- A conversion that can be resumed is, wherever it is cut off, and however often. -/
theorem Resumable.resumes (hlib : lib.Documented) (hdirs : inputDir ≠ outputDir)
    (hok : planConversion lib inputDir source noSpecCompatible = .ok plan)
    (h : Resumable lib source plan) :
    ∃ final, Resumes lib inputDir outputDir source noSpecCompatible plan final := by
  obtain ⟨sourceSpecs, shapes, hplan⟩ := planConversion_ok hok
  obtain ⟨marker, hmarker⟩ := conversionMarker_total inputDir hlib hplan
  obtain ⟨t, hexec, hfinal, -⟩ := fresh_run hlib hdirs hok hplan h.readable h.names hmarker false
  have hhalfway : ∀ d, Interrupted lib inputDir outputDir source noSpecCompatible d →
      Halfway lib inputDir source plan marker false d := by
    intro d hd
    induction hd with
    | fresh resume d hd hsome =>
      obtain ⟨t, hexec, -, hpassed⟩ :=
        fresh_run hlib hdirs hok hplan h.readable h.names hmarker resume
      rw [hexec] at hd
      exact hpassed d hd hsome
    | resumed d d' _ hd' ih =>
      obtain ⟨t, hexec, -, hpassed⟩ := resumed_run hlib hdirs hok hplan h hmarker ih
      rw [hexec] at hd'
      exact hpassed d' hd'
  refine ⟨t.current, ⟨t, hexec, rfl⟩, hfinal.converted hlib hplan h.readable, fun d hd => ?_⟩
  obtain ⟨t', hexec', hfinal', -⟩ := resumed_run hlib hdirs hok hplan h hmarker (hhalfway d hd)
  exact ⟨t', hexec', hfinal.same hfinal'⟩

end Run

end PyptoServing.Weights
