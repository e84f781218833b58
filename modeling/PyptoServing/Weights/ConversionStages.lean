import PyptoServing.Weights.ConversionRun

/-!
# The stages of a conversion

The start of a run, its two loops, and its end: from a directory in which a conversion was cut off,
each returns, and every state on the way is one in which it can be cut off again.
-/
namespace PyptoServing.Weights

open Lib Raising Traced Files

/-- The size of the tensors of a shard. -/
def shardSize : FileContent → Nat
  | .safetensors file =>
    (file.header.entries.map fun e => e.2.dataOffsets.2 - e.2.dataOffsets.1).sum
  | _ => 0

def shardSizes (lib : Libraries) (inputDir : String) (source : InputDirectory)
    (plan : ConversionPlan) : List Nat :=
  plan.shardNames.map fun f => shardSize (shardContent lib inputDir source plan f)

/-- The index of the converted checkpoint. -/
def outputIndex (lib : Libraries) (inputDir : String) (source : InputDirectory)
    (plan : ConversionPlan) : WeightIndex where
  totalSize := (shardSizes lib inputDir source plan).sum
  weightMap := some plan.outputMap

/-- A directory with all files in place, but for those that a run ends with. -/
structure Settled (lib : Libraries) (inputDir : String) (source : InputDirectory)
    (plan : ConversionPlan) (marker : ConversionMarker) (d : Directory) : Prop where
  started : Started marker d
  puts : ∀ p ∈ conversionPuts lib inputDir source plan, d p.target = some p.content

/-- The directory of a conversion that has ended. -/
structure Final (lib : Libraries) (inputDir : String) (source : InputDirectory)
    (plan : ConversionPlan) (marker : ConversionMarker) (d : Directory) : Prop where
  settled : Settled lib inputDir source plan marker d
  config : d (.file "config.json") = some (.config plan.outputConfig)
  index : d (.file "model.safetensors.index.json") =
    some (.index (outputIndex lib inputDir source plan))
  marker : d (.file markerName) = some (.marker { marker with complete := true })

section Run
variable {lib : Libraries} {inputDir outputDir : String} {source : InputDirectory}
  {plan : ConversionPlan} {sourceSpecs : Dict String TensorSpec} {noSpecCompatible : Bool}
  {shapes : Dict String (List Nat)} {marker : ConversionMarker} {exact resume : Bool}

/-- A directory between two puts. -/
abbrev Halfway (lib : Libraries) (inputDir : String) (source : InputDirectory)
    (plan : ConversionPlan) (marker : ConversionMarker) (exact : Bool) : Directory → Prop :=
  Reached (Started marker) (conversionPuts lib inputDir source plan) [] exact

theorem Settled.halfway {d : Directory} (h : Settled lib inputDir source plan marker d) :
    Halfway lib inputDir source plan marker false d := by
  refine ⟨_, [], (List.append_nil _).symm, List.nil_prefix, fun h => (by cases h), ?_, h.started⟩
  exact ⟨h.puts, fun _ hq => (by cases hq), fun _ hq => (by cases hq)⟩

theorem Halfway.of_exact {d : Directory} (h : Halfway lib inputDir source plan marker true d) :
    Halfway lib inputDir source plan marker false d := by
  obtain ⟨done, todo, hsplit, hpre, -, hunder, hstarted⟩ := h
  exact ⟨done, todo, hsplit, hpre, fun h => (by cases h), hunder, hstarted⟩

theorem Settled.of_reached {d : Directory}
    (h : Reached (Started marker) (conversionPuts lib inputDir source plan)
      (conversionPuts lib inputDir source plan) exact d) :
    Settled lib inputDir source plan marker d := by
  obtain ⟨done, todo, hsplit, hpre, -, hunder, hstarted⟩ := h
  have hdone : conversionPuts lib inputDir source plan = done :=
    hpre.eq_of_length_le (by rw [hsplit, List.length_append]; omega)
  exact ⟨hstarted, fun p hp => hunder.done p (hdone ▸ hp)⟩

variable (outputDir) in
/-- The loops over the auxiliary files and over the shards. -/
theorem loops_complete (hlib : lib.Documented) (hplan : PlanOf lib source plan sourceSpecs shapes)
    (hreadable : Readable lib source plan.sourceMap) (hnames : ShardNames plan)
    (hresume : exact = false → resume = true ∧
      ∀ f ∈ plan.shardNames, (plan.expectedByShard.lookup f).isSome = true) :
    Completes (Halfway lib inputDir source plan marker false)
      (Halfway lib inputDir source plan marker exact)
      (copyAuxiliaryFiles source >>= fun _ =>
        plan.shardNames.forM (convertOrResume lib inputDir outputDir source plan resume))
      fun _ => Settled lib inputDir source plan marker := by
  have ho : Orderly (conversionPuts lib inputDir source plan) := orderly hnames hplan
  have hf : Framed (Started marker) (conversionPuts lib inputDir source plan) :=
    framed hlib hnames hplan marker
  have haux : Completes (Halfway lib inputDir source plan marker false)
      (Halfway lib inputDir source plan marker exact) (copyAuxiliaryFiles source)
      fun _ => Reached (Started marker) (conversionPuts lib inputDir source plan)
        (source.entries.filterMap auxiliaryPut) exact := by
    refine puts_complete .torn ho hf rfl (fun e _ hnone s hstarted => ?_) (fun e _ p hp _ s _ hthere => ?_)
      fun e _ p hp s _ hnone => ?_
    · refine copyAuxiliaryFile_skip fun haux => ?_
      obtain ⟨complete, hmarker⟩ := hstarted.marker
      rw [auxiliaryPut_none hnone haux, hmarker]
      rfl
    · obtain ⟨rfl, -⟩ := auxiliaryPut_some hp
      refine copyAuxiliaryFile_skip fun _ => ?_
      rw [show s.current (.file e.1) = _ from hthere]
      rfl
    · obtain ⟨rfl, haux, -⟩ := auxiliaryPut_some hp
      exact copyAuxiliaryFile_put haux hnone
  have hputs : conversionPuts lib inputDir source plan = source.entries.filterMap auxiliaryPut ++
      plan.shardNames.filterMap (some ∘ shardPut lib inputDir source plan) ++ [] := by
    rw [List.append_nil, List.filterMap_eq_map]
    rfl
  have hshards : Completes (Halfway lib inputDir source plan marker false)
      (Reached (Started marker) (conversionPuts lib inputDir source plan)
        (source.entries.filterMap auxiliaryPut) exact)
      (plan.shardNames.forM (convertOrResume lib inputDir outputDir source plan resume))
      fun _ => Reached (Started marker) (conversionPuts lib inputDir source plan)
        (source.entries.filterMap auxiliaryPut ++
          plan.shardNames.filterMap (some ∘ shardPut lib inputDir source plan)) exact := by
    refine puts_complete .torn ho hf hputs (fun f _ hnone => (by cases hnone))
      (fun f hmem p hp hexact s _ hthere => ?_) fun f hmem p hp s _ hnone => ?_
    · cases hp
      obtain ⟨rfl, hlisted⟩ := hresume hexact
      obtain ⟨converted, -, hsaved⟩ := shard_saved inputDir hlib hplan hreadable hmem
      exact convertOrResume_done hplan hmem hsaved (hlisted f hmem) hthere
    · cases hp
      obtain ⟨converted, hok, -⟩ := shard_saved inputDir hlib hplan hreadable hmem
      exact convertOrResume_put hplan hmem hok hnone
  refine haux.bind fun _ => hshards.weaken (fun _ h => h) (fun _ d hd => ?_) fun _ h => h
  rw [List.filterMap_eq_map] at hd
  exact .of_reached hd

/-- The files that a run writes itself are none of those that it puts in place. -/
theorem target_ne (hlib : lib.Documented) (hnames : ShardNames plan)
    (hplan : PlanOf lib source plan sourceSpecs shapes) {p : Put OutputPath FileContent}
    (hp : p ∈ conversionPuts lib inputDir source plan) {name : String}
    (hname : name ∈ ["config.json", "model.safetensors.index.json", markerName, markerTempName]) :
    p.target ≠ .file name := by
  obtain ⟨other, content, rfl, hother⟩ := mem_conversionPuts hlib hnames hplan hp
  intro heq
  obtain rfl : other = name := OutputPath.file.inj heq
  exact hother hname

theorem Settled.update (hlib : lib.Documented) (hnames : ShardNames plan)
    (hplan : PlanOf lib source plan sourceSpecs shapes) {d : Directory}
    (h : Settled lib inputDir source plan marker d) {name : String}
    (hname : name ∈ ["config.json", "model.safetensors.index.json", markerTempName])
    (v : Option FileContent) :
    Settled lib inputDir source plan marker (Function.update d (.file name) v) := by
  have hmarker : name ≠ markerName := by
    rintro rfl
    exact absurd hname (by decide)
  refine ⟨h.started.update hmarker v, fun p hp => ?_⟩
  rw [Function.update_of_ne (target_ne hlib hnames hplan hp (by simp_all))]
  exact h.puts _ hp

theorem Settled.complete (hlib : lib.Documented) (hnames : ShardNames plan)
    (hplan : PlanOf lib source plan sourceSpecs shapes) {d : Directory}
    (h : Settled lib inputDir source plan marker d) :
    Settled lib inputDir source plan marker (Function.update d (.file markerName)
      (some (.marker { marker with complete := true }))) := by
  refine ⟨⟨?_, true, Function.update_self ..⟩, fun p hp => ?_⟩
  · rw [Function.update_of_ne (by simp)]
    exact h.started.dir
  · rw [Function.update_of_ne (target_ne hlib hnames hplan hp (by simp))]
    exact h.puts _ hp

theorem safetensorsTotalSize_ok {path : String} {file : SafetensorsFile}
    (h : ∀ e ∈ file.header.entries, e.2.dataOffsets.1 ≤ e.2.dataOffsets.2) :
    safetensorsTotalSize path (some (.safetensors file)) = .ok (shardSize (.safetensors file)) := by
  have hloop : ∀ (l : List (Σ _ : String, TensorMetadata)) (n : Nat),
      (∀ e ∈ l, e.2.dataOffsets.1 ≤ e.2.dataOffsets.2) →
      l.foldlM (fun total e =>
        if e.2.dataOffsets.2 < e.2.dataOffsets.1 then
          .error (.value s!"invalid data offsets for '{e.1}' in {path}")
        else .ok (total + (e.2.dataOffsets.2 - e.2.dataOffsets.1))) n =
      (.ok (n + (l.map fun e => e.2.dataOffsets.2 - e.2.dataOffsets.1).sum) :
        Except ConversionError Nat) := by
    intro l
    induction l with
    | nil => exact fun n _ => rfl
    | cons e l ih =>
      intro n hl
      rw [List.foldlM_cons, if_neg (Nat.not_lt.mpr (hl e (by simp))), List.map_cons, List.sum_cons,
        ← Nat.add_assoc]
      exact ih _ fun e' he' => hl e' (by simp [he'])
  have hsum := hloop file.header.entries 0 h
  rw [Nat.zero_add] at hsum
  exact hsum

/-- The sizes of the shards that are in place. -/
theorem sizes_ok (hlib : lib.Documented) (hplan : PlanOf lib source plan sourceSpecs shapes)
    (hreadable : Readable lib source plan.sourceMap) {d : Directory}
    (h : Settled lib inputDir source plan marker d) :
    (plan.shardNames.mapM fun filename => do
      safetensorsTotalSize s!"{outputDir}/{filename}" (d (.file (← safeShardPath filename)))) =
    .ok (shardSizes lib inputDir source plan) := by
  refine Fallible.mapM_pure fun f hf => ?_
  obtain ⟨converted, -, hsaved⟩ := shard_saved inputDir hlib hplan hreadable hf
  have hput := h.puts (shardPut lib inputDir source plan f)
    (List.mem_append_right _ (List.mem_map_of_mem hf))
  refine Fallible.bind_eq_ok.mpr ⟨f, safeShardPath_of_mem hplan hf, ?_⟩
  rw [show d (.file f) = _ from hput, shardPut, putOf, hsaved.content]
  refine safetensorsTotalSize_ok fun e he => ?_
  exact (hlib.offsets _ hsaved.opens e.1 e.2 (AList.mem_lookup_iff.mpr he)).1

variable (outputDir) in
/-- The configuration, the index and the marker. -/
theorem finish_completes (hlib : lib.Documented) (hplan : PlanOf lib source plan sourceSpecs shapes)
    (hreadable : Readable lib source plan.sourceMap) (hnames : ShardNames plan) (complete : Bool) :
    Completes (Halfway lib inputDir source plan marker false)
      (Settled lib inputDir source plan marker)
      (finishConversion outputDir plan { marker with complete := complete })
      fun _ => Final lib inputDir source plan marker := by
  have hupdate : ∀ {d name}, Settled lib inputDir source plan marker d →
      name ∈ ["config.json", "model.safetensors.index.json", markerTempName] → ∀ v,
        Settled lib inputDir source plan marker (Function.update d (.file name) v) :=
    fun h hname v => h.update hlib hnames hplan hname v
  have hfinal : ∀ d : Directory, ((Settled lib inputDir source plan marker d ∧
      d (.file "config.json") = some (.config plan.outputConfig)) ∧
      d (.file "model.safetensors.index.json") =
        some (.index (outputIndex lib inputDir source plan))) ∧
      d (.file markerTempName) = some (.marker { marker with complete := true }) →
      Final lib inputDir source plan marker (Function.update
        (Function.update d (.file markerName) (d (.file markerTempName)))
        (.file markerTempName) none) := by
    rintro d ⟨⟨⟨hplaced, hconfig⟩, hindex⟩, htemp⟩
    rw [htemp]
    refine ⟨hupdate (hplaced.complete hlib hnames hplan) (by simp) none, ?_, ?_, ?_⟩
    · rw [Function.update_of_ne (by decide), Function.update_of_ne (by decide), hconfig]
    · rw [Function.update_of_ne (by decide), Function.update_of_ne (by decide), hindex]
    · rw [Function.update_of_ne (by decide), Function.update_self]
  refine (write_completes (fun d hd => hd.halfway) fun d v hd => hupdate hd (by simp) v).bind
    fun _ => ?_
  refine Completes.read.bind fun directory => ?_
  refine Completes.bind_exec (a := shardSizes lib inputDir source plan) (fun s hs => ?_) ?_
  · obtain ⟨rfl, hplaced, -⟩ := hs
    rw [sizes_ok hlib hplan hreadable hplaced, exec_ofExcept]
  refine Completes.weaken ?_ (fun _ h => h.2) (fun _ _ h => h) fun _ h => h
  refine (write_completes (fun d hd => hd.1.halfway) fun d v hd =>
    ⟨hupdate hd.1 (by simp) v, (Function.update_of_ne (by decide) ..).trans hd.2⟩).bind fun _ => ?_
  have hconfig : OutputPath.file "config.json" ≠ .file markerTempName := by decide
  have hindex : OutputPath.file "model.safetensors.index.json" ≠ .file markerTempName := by decide
  refine (write_completes (fun d hd => hd.1.1.halfway) fun d v hd =>
    ⟨⟨hupdate hd.1.1 (by simp) v, (Function.update_of_ne hconfig ..).trans hd.1.2⟩,
      (Function.update_of_ne hindex ..).trans hd.2⟩).bind fun _ => ?_
  refine (Completes.change fun d hd => (hfinal d hd).settled.halfway).weaken (fun _ h => h) ?_
    fun _ h => h
  rintro - d ⟨d', hd', rfl⟩
  exact hfinal d' hd'

variable (inputDir) in
theorem conversionMarker_total (hlib : lib.Documented)
    (hplan : PlanOf lib source plan sourceSpecs shapes) :
    ∃ marker : ConversionMarker, ∀ complete,
      conversionMarker lib inputDir source plan.shardNames complete =
        .ok { marker with complete := complete } := by
  have hdigest : ∀ name content, source.lookup name = some content →
      fileDigest lib inputDir source name = .ok (lib.fileDigest content) := by
    intro name content h
    rw [fileDigest, h]
  obtain ⟨config, hconfig, -⟩ := hplan.metadata "config.json" (by simp)
  obtain ⟨index, hindex, -⟩ := hplan.metadata "model.safetensors.index.json" (by simp)
  obtain ⟨shards, hshards, -⟩ := Fallible.mapM_total (l := sortedNames plan.shardNames)
    (f := fun filename => do
      return (filename, ← fileDigest lib inputDir source (← safeShardPath filename)))
    (R := fun _ _ => True) fun f hf => by
    rw [mem_sortedNames] at hf
    obtain ⟨name, hname⟩ := (mem_shardNames hplan).mp hf
    obtain ⟨file, hfile⟩ := hplan.read.shard name f hname
    refine ⟨(f, lib.fileDigest (.safetensors file)), ?_, trivial⟩
    refine Fallible.bind_eq_ok.mpr ⟨f, hfile.path, ?_⟩
    exact Fallible.bind_eq_ok.mpr ⟨_, hdigest f _ (hfile.lookup hlib).1, rfl⟩
  refine ⟨⟨conversionFormat, inputDir, lib.fileDigest config, lib.fileDigest index,
    lib.shardsDigest shards, false⟩, fun complete => ?_⟩
  refine Fallible.bind_eq_ok.mpr ⟨_, hdigest _ _ hconfig, ?_⟩
  refine Fallible.bind_eq_ok.mpr ⟨_, hdigest _ _ hindex, ?_⟩
  exact Fallible.bind_eq_ok.mpr ⟨shards, hshards, rfl⟩

/-- A new directory that has no marker yet, nor any of the files to put in place. -/
structure Unmarked (lib : Libraries) (inputDir : String) (source : InputDirectory)
    (plan : ConversionPlan) (d : Directory) : Prop where
  dir : d .dir = some .directory
  marker : d (.file markerName) = none
  puts : ∀ p ∈ conversionPuts lib inputDir source plan, d p.target = none

theorem Unmarked.temp (hlib : lib.Documented) (hnames : ShardNames plan)
    (hplan : PlanOf lib source plan sourceSpecs shapes) {d : Directory}
    (h : Unmarked lib inputDir source plan d) (v : Option FileContent) :
    Unmarked lib inputDir source plan (Function.update d (.file markerTempName) v) := by
  refine ⟨?_, ?_, fun p hp => ?_⟩
  · rw [Function.update_of_ne (by simp)]
    exact h.dir
  · rw [Function.update_of_ne (by decide)]
    exact h.marker
  · rw [Function.update_of_ne (target_ne hlib hnames hplan hp (by simp))]
    exact h.puts p hp

/-- Once the marker is in place, the conversion can be resumed. -/
theorem Unmarked.marked (hlib : lib.Documented) (hnames : ShardNames plan)
    (hplan : PlanOf lib source plan sourceSpecs shapes) {d : Directory}
    (h : Unmarked lib inputDir source plan d) :
    Halfway lib inputDir source plan marker true (Function.update
      (Function.update d (.file markerName) (some (.marker { marker with complete := false })))
      (.file markerTempName) none) := by
  have hnone : ∀ p ∈ conversionPuts lib inputDir source plan, Function.update
      (Function.update d (.file markerName) (some (.marker { marker with complete := false })))
      (.file markerTempName) none p.target = none := by
    intro p hp
    rw [Function.update_of_ne (target_ne hlib hnames hplan hp (by simp)),
      Function.update_of_ne (target_ne hlib hnames hplan hp (by simp))]
    exact h.puts p hp
  refine ⟨[], _, rfl, List.nil_prefix, fun _ => rfl, ⟨fun _ hq => (by cases hq), ?_, ?_⟩, ?_, ?_⟩
  · exact fun p hp => hnone p (List.mem_of_mem_head? hp)
  · exact fun _ _ q hq => .inl (hnone q hq)
  · rw [Function.update_of_ne (by simp), Function.update_of_ne (by simp)]
    exact h.dir
  · refine ⟨false, ?_⟩
    rw [Function.update_of_ne (by decide), Function.update_self]

/-- The states of a run on a new directory from which it can be resumed: those with a marker. -/
def MarkedHalfway (lib : Libraries) (inputDir : String) (source : InputDirectory)
    (plan : ConversionPlan) (marker : ConversionMarker) (d : Directory) : Prop :=
  (d (.file markerName)).isSome = true → Halfway lib inputDir source plan marker false d

theorem Unmarked.markedHalfway {d : Directory} (h : Unmarked lib inputDir source plan d) :
    MarkedHalfway lib inputDir source plan marker d := by
  intro hsome
  rw [h.marker] at hsome
  cases hsome

/-- A new directory gets its marker before anything else. -/
theorem start_fresh (hlib : lib.Documented) (hplan : PlanOf lib source plan sourceSpecs shapes)
    (hnames : ShardNames plan)
    (hmarker : conversionMarker lib inputDir source plan.shardNames false =
      .ok { marker with complete := false }) :
    Completes (MarkedHalfway lib inputDir source plan marker) (fun d => d = fun _ => none)
      (startConversion lib inputDir outputDir source plan resume)
      fun m d => (∃ complete, m = { marker with complete := complete }) ∧
        Halfway lib inputDir source plan marker true d := by
  have hmkdir : Unmarked lib inputDir source plan
      (Function.update (fun _ => none) .dir (some .directory)) := by
    refine ⟨Function.update_self .., rfl, fun p hp => ?_⟩
    obtain ⟨name, content, rfl, -⟩ := mem_conversionPuts hlib hnames hplan hp
    rfl
  have hmade : Completes (ε := ConversionError) (MarkedHalfway lib inputDir source plan marker)
      (fun d => d = fun _ => none) (change fun d => Function.update d .dir (some .directory))
      fun _ => Unmarked lib inputDir source plan := by
    refine (Completes.change ?_).weaken (fun _ h => h) ?_ fun _ h => h
    · rintro d rfl
      exact hmkdir.markedHalfway
    · rintro - d ⟨d', rfl, rfl⟩
      exact hmkdir
  have hput : Completes (ε := ConversionError) (MarkedHalfway lib inputDir source plan marker)
      (Unmarked lib inputDir source plan)
      (writeConversionMarker { marker with complete := false })
      fun _ => Halfway lib inputDir source plan marker true := by
    refine (write_completes (fun d hd => hd.markedHalfway) fun d v hd =>
      hd.temp hlib hnames hplan v).bind fun _ => ?_
    have hmarked : ∀ d : Directory, Unmarked lib inputDir source plan d ∧
        d (.file markerTempName) = some (.marker { marker with complete := false }) →
        Halfway lib inputDir source plan marker true (Function.update
          (Function.update d (.file markerName) (d (.file markerTempName)))
          (.file markerTempName) none) := by
      rintro d ⟨hd, hcontent⟩
      rw [hcontent]
      exact hd.marked hlib hnames hplan
    refine (Completes.change fun d hd _ => (hmarked d hd).of_exact).weaken (fun _ h => h) ?_
      fun _ h => h
    rintro - d ⟨d', hd', rfl⟩
    exact hmarked d' hd'
  have hrest : Completes (ε := ConversionError) (MarkedHalfway lib inputDir source plan marker)
      (fun d => d = fun _ => none)
      (do
        change fun d => Function.update d .dir (some .directory)
        let marker ← MonadExcept.ofExcept
          (conversionMarker lib inputDir source plan.shardNames false)
        writeConversionMarker marker
        return marker)
      fun m d => (∃ complete, m = { marker with complete := complete }) ∧
        Halfway lib inputDir source plan marker true d := by
    refine hmade.bind fun _ => Completes.bind_exec (a := { marker with complete := false })
      (fun s _ => ?_) ?_
    · rw [hmarker, exec_ofExcept]
    · refine hput.bind fun _ => (Completes.of_exec fun s _ => rfl).weaken (fun _ h => h) ?_
        fun _ h => h
      rintro m d ⟨rfl, hd⟩
      exact ⟨⟨false, rfl⟩, hd⟩
  intro s hs
  unfold startConversion
  rw [exec_bind_ok (exec_read s), hs, if_neg (by simp)]
  exact hrest s hs

variable (outputDir) in
/-- A directory with a marker of the same sources is taken as it is. -/
theorem exec_start_resumed
    (hmarker : ∀ complete, conversionMarker lib inputDir source plan.shardNames complete =
      .ok { marker with complete := complete }) {s : Traced Directory}
    (hstarted : Started marker s.current) :
    ∃ complete, exec (startConversion lib inputDir outputDir source plan true) s =
      (.ok { marker with complete := complete }, s) := by
  obtain ⟨complete, hfile⟩ := hstarted.marker
  have hvalid : validateConversionMarker lib inputDir outputDir source plan.shardNames
      (s.current (.file markerName)) = .ok { marker with complete := complete } := by
    rw [hfile]
    refine Fallible.bind_eq_ok.mpr ⟨_, rfl, ?_⟩
    refine Fallible.bind_eq_ok.mpr ⟨_, hmarker complete, ?_⟩
    simp [markerMismatch]
    rfl
  refine ⟨complete, ?_⟩
  unfold startConversion
  rw [exec_bind_ok (exec_read s), hstarted.dir, if_pos Option.isSome_some, if_pos rfl, hvalid,
    exec_ofExcept]

theorem start_resumed
    (hmarker : ∀ complete, conversionMarker lib inputDir source plan.shardNames complete =
      .ok { marker with complete := complete }) :
    Completes (Halfway lib inputDir source plan marker false)
      (Halfway lib inputDir source plan marker false)
      (startConversion lib inputDir outputDir source plan true)
      fun m d => (∃ complete, m = { marker with complete := complete }) ∧
        Halfway lib inputDir source plan marker false d := by
  intro s hs
  have hstarted : Started marker s.current := by
    obtain ⟨done, todo, -, -, -, -, hstarted⟩ := hs
    exact hstarted
  obtain ⟨complete, hexec⟩ := exec_start_resumed outputDir hmarker hstarted
  exact ⟨_, s, hexec, ⟨⟨complete, rfl⟩, hs⟩, [], (List.append_nil _).symm, fun _ hd => (by cases hd)⟩

end Run

end PyptoServing.Weights
