import DsaSolver.CoreRelaxation
import DsaSolver.MiniMallocCsv
import DsaSolver.StandardPlacements
import Mathlib.Order.Bounds.Defs

/-! # The instances of a benchmark run

`LoadInstances` of `dsa_suite.cpp` with the loaders of one file and `MakeStandardProjection`.  What
a reader returns for a discovered file is an argument.  A standard projection whose shape was seen
before is dropped; the run keeps a problem with the same optimum (`standardShape_dedup`). -/

namespace Dsa

/-- The options that `LoadInstances` reads. -/
structure SuiteOptions where
  standardCapacity : Option UInt64 := none
  buildCoreRelaxations : Bool := true
  standardOnly : Bool := false
  dsaRpVariantsOnly : Bool := false

structure Instance where
  document : StructuredProblemDocument
  source : String

/-- A discovered file: its path, its name, `DisplayPath` of it, and what the reader of its
extension returns. -/
structure BenchmarkFile (α : Type) where
  path : String
  filename : String
  source : String
  content : Except Exception α

/-- The content of a file under a standard root: `.json`, or a MiniMalloc table. -/
inductive StandardContent where
  | json (document : StructuredProblemDocument)
  | csv (document : MiniMallocDocument)

def metadataValue (document : StructuredProblemDocument) (key : String) : String :=
  document.metadata.getD key ""

/-- The document of a standard file before its validation. -/
def standardDocument (capacityOverride : Option UInt64) (file : BenchmarkFile StandardContent) :
    StandardContent → Except Exception StructuredProblemDocument
  | .json document =>
      if document.profile != .standardDsa && document.profile != .pyptoCoreRelaxation then
        .error (.runtimeError ("--standard JSON does not use a standard profile: " ++ file.path))
      else .ok document
  | .csv csv =>
      let document : StructuredProblemDocument :=
        { profile := .standardDsa
          instanceName := file.filename
          metadata := (∅ : Metadata).insert "source_format" "minimalloc_csv"
          problem := csv.problem }
      match capacityOverride with
      | none => .ok document
      | some capacity =>
          match csv.problem.pools with
          | [pool] => .ok { document with
              problem := { csv.problem with pools := [{ pool with capacity := some capacity }] } }
          | _ => .error (.runtimeError "standard capacity override requires exactly one pool")

/-- The document when it is valid. -/
def requireValid (kind path : String) (document : StructuredProblemDocument) :
    Except Exception StructuredProblemDocument :=
  match validateStructuredProblemDocument document with
  | [] => .ok document
  | error :: _ => .error (.runtimeError ("invalid " ++ kind ++ " benchmark '" ++ path ++ "': " ++ error))

/-- `LoadStandardInstance`. -/
def loadStandardInstance (capacityOverride : Option UInt64) (file : BenchmarkFile StandardContent) :
    Except Exception Instance := do
  let document ← standardDocument capacityOverride file (← file.content)
  return ⟨← requireValid "standard" file.path document, file.source⟩

/-- `LoadPyptoInstance`. -/
def loadPyptoInstance (file : BenchmarkFile StructuredProblemDocument) :
    Except Exception Instance := do
  let document ← file.content
  if !isPyptoProfile document.profile then
    .error (.runtimeError ("--pypto JSON does not use a PyPTO profile: " ++ file.path))
  else return ⟨← requireValid "PyPTO" file.path document, file.source⟩

/-- `LoadDsaRpInstance`. -/
def loadDsaRpInstance (file : BenchmarkFile StructuredProblemDocument) :
    Except Exception Instance := do
  let document ← file.content
  if document.profile != .dsaRpV1 then
    .error (.runtimeError ("--dsa-rp JSON does not use dsa_rp_v1: " ++ file.path))
  else return ⟨← requireValid "DSA-RP" file.path document, file.source⟩

/-- `pool.capacity.reset()` for every pool. -/
def withoutCapacities (problem : DsaProblem) : DsaProblem :=
  { problem with pools := problem.pools.map fun pool => { pool with capacity := none } }

/-- `HasNontrivialStandardChoice`. -/
def hasNontrivialStandardChoice (problem : DsaProblem) : Bool :=
  let pairs := (List.range problem.buffers.length).flatMap fun first =>
    (List.range' (first + 1) (problem.buffers.length - (first + 1))).map fun second => (first, second)
  let overlap := fun pair : ℕ × ℕ =>
    lifetimesOverlap (problem.bufferAt pair.1) (problem.bufferAt pair.2)
  pairs.any overlap && pairs.any fun pair => !overlap pair

/-- The projection before its validation. -/
def standardProjection (relaxation : StructuredProblemDocument) : StructuredProblemDocument :=
  let sourceInstance := relaxation.relaxedFrom.getD relaxation.instanceName
  let poolName := metadataValue relaxation "source_pool_name"
  { relaxation with
    profile := .standardDsa
    instanceName := sourceInstance ++ "::" ++ if poolName == "" then "pool" else poolName
    metadata := ((relaxation.metadata.insert "standard_origin" "pypto_projection").insert
      "projected_from" sourceInstance).insert "projection_relaxed_features"
        (",".intercalate relaxation.relaxedFeatures)
    relaxedFrom := none
    relaxedFeatures := []
    problem := withoutCapacities relaxation.problem }

/-- `MakeStandardProjection`. -/
def makeStandardProjection (relaxation : StructuredProblemDocument) :
    Except Exception StructuredProblemDocument :=
  match validateStructuredProblemDocument (standardProjection relaxation) with
  | [] => .ok (standardProjection relaxation)
  | error :: _ => .error (.logicError ("generated an invalid standard projection: " ++ error))

/-- The variables of `LoadInstances`.  The counter `duplicate_standard_projections` is the list of
the projections it counts. -/
structure LoadState where
  instances : List Instance := []
  standardShapes : List String := []
  compilerProblemFingerprints : List String := []
  duplicateCompilerProblems : ℕ := 0
  duplicateStandardProjections : List StructuredProblemDocument := []
  trivialStandardProjections : ℕ := 0

/-- A file under a standard root. -/
def loadStandard (options : SuiteOptions) (state : LoadState)
    (file : BenchmarkFile StandardContent) : Except Exception LoadState := do
  let standard ← loadStandardInstance options.standardCapacity file
  if options.standardOnly then
    let document := { standard.document with
      metadata := standard.document.metadata.insert "standard_origin" "public_standard"
      problem := withoutCapacities standard.document.problem }
    let shape ← canonicalStandardShape document.problem
    return { state with
      instances := state.instances ++ [{ standard with document }]
      standardShapes := shape :: state.standardShapes }
  else return { state with instances := state.instances ++ [standard] }

/-- A file under a DSA-RP root. -/
def loadDsaRp (state : LoadState) (file : BenchmarkFile StructuredProblemDocument) :
    Except Exception LoadState := do
  return { state with instances := state.instances ++ [← loadDsaRpInstance file] }

/-- The loop over the relaxations of a document.  An exception ends it; the handler keeps what was
loaded so far. -/
def loadRelaxations (options : SuiteOptions) (source : String) :
    LoadState → List StructuredProblemDocument → LoadState
  | state, [] => state
  | state, relaxation :: rest =>
      if !options.standardOnly then
        loadRelaxations options source
          { state with instances := state.instances ++ [⟨relaxation, source⟩] } rest
      else
        match makeStandardProjection relaxation with
        | .error _ => state
        | .ok projection =>
            if !hasNontrivialStandardChoice projection.problem then
              loadRelaxations options source
                { state with
                  trivialStandardProjections := state.trivialStandardProjections + 1 } rest
            else
              match canonicalStandardShape projection.problem with
              | .error _ => state
              | .ok shape =>
                  if state.standardShapes.contains shape then
                    loadRelaxations options source
                      { state with
                        duplicateStandardProjections :=
                          state.duplicateStandardProjections ++ [projection] } rest
                  else
                    loadRelaxations options source
                      { state with
                        instances := state.instances ++ [⟨projection, source⟩]
                        standardShapes := shape :: state.standardShapes } rest

/-- The part of a PyPTO file after its fingerprint was looked up. -/
def loadStructured (options : SuiteOptions) (state : LoadState) (structured : Instance) :
    LoadState :=
  let state := if options.standardOnly then state
    else { state with instances := state.instances ++ [structured] }
  if !options.buildCoreRelaxations then state
  else
    match buildCoreRelaxations structured.document with
    | .error _ => state
    | .ok relaxations => loadRelaxations options structured.source state relaxations

/-- A file under a PyPTO root. -/
def loadPypto (options : SuiteOptions) (state : LoadState)
    (file : BenchmarkFile StructuredProblemDocument) : Except Exception LoadState := do
  let structured ← loadPyptoInstance file
  let fingerprint := metadataValue structured.document "corpus_problem_fingerprint_fnv1a64"
  if options.dsaRpVariantsOnly && metadataValue structured.document "dsa_rp_edge_policy" == "" then
    return state
  else if fingerprint == "" then
    return loadStructured options state structured
  else if state.compilerProblemFingerprints.contains fingerprint then
    return { state with duplicateCompilerProblems := state.duplicateCompilerProblems + 1 }
  else
    return loadStructured options
      { state with
        compilerProblemFingerprints := fingerprint :: state.compilerProblemFingerprints } structured

/-- The position of a profile in its enumeration. -/
def profileIndex : BenchmarkProfile → ℕ
  | .standardDsa => 0
  | .dsaRpV1 => 1
  | .pyptoStructured => 2
  | .pyptoHardV1 => 3
  | .pyptoResearchV1 => 4
  | .pyptoCoreRelaxation => 5

/-- The order of the instances. -/
def instanceBefore (first second : Instance) : Prop :=
  profileIndex first.document.profile < profileIndex second.document.profile ∨
    profileIndex first.document.profile = profileIndex second.document.profile ∧
      first.document.instanceName ≤ second.document.instanceName

instance instanceBefore.instDecidable (first second : Instance) :
    Decidable (instanceBefore first second) := inferInstanceAs (Decidable (_ ∨ _))

/-- The loop over neighbouring instances. -/
def requireDistinct : List Instance → Except Exception Unit
  | first :: second :: rest =>
      if first.document.profile == second.document.profile &&
          first.document.instanceName == second.document.instanceName then
        .error (.runtimeError ("duplicate benchmark identity '" ++ second.document.instanceName ++
          "' in profile " ++ second.document.profile.toString))
      else requireDistinct (second :: rest)
  | _ => .ok ()

/-- `LoadInstances`. -/
def loadInstances (options : SuiteOptions) (standard : List (BenchmarkFile StandardContent))
    (dsaRp pypto : List (BenchmarkFile StructuredProblemDocument)) :
    Except Exception LoadState := do
  let state ← standard.foldlM (loadStandard options) {}
  let state ← dsaRp.foldlM loadDsaRp state
  let state ← pypto.foldlM (loadPypto options) state
  let instances := state.instances.insertionSort instanceBefore
  requireDistinct instances
  return { state with instances }

/-! ### Validity of what is loaded -/

theorem requireValid_ok {kind path : String} {document result : StructuredProblemDocument}
    (h : requireValid kind path document = .ok result) :
    result = document ∧ validateStructuredProblemDocument document = [] := by
  unfold requireValid at h
  split at h
  · rename_i hvalid
    exact ⟨(Except.ok.inj h).symm, hvalid⟩
  · cases h

/-- A valid document of a standard profile has a standard problem. -/
theorem standard_of_validate {document : StructuredProblemDocument}
    (h : validateStructuredProblemDocument document = [])
    (hprofile : document.profile = .standardDsa ∨ document.profile = .pyptoCoreRelaxation) :
    validateStandardProblem document.problem = [] := by
  unfold validateStructuredProblemDocument at h
  rw [List.append_eq_nil_iff] at h
  rcases hprofile with hprofile | hprofile <;> simpa [hprofile] using h.2

theorem profile_of_standardDocument {capacityOverride : Option UInt64}
    {file : BenchmarkFile StandardContent} {content : StandardContent}
    {document : StructuredProblemDocument}
    (h : standardDocument capacityOverride file content = .ok document) :
    document.profile = .standardDsa ∨ document.profile = .pyptoCoreRelaxation := by
  cases content with
  | json read =>
      unfold standardDocument at h
      dsimp only at h
      split_ifs at h with hprofile
      obtain rfl := Except.ok.inj h
      simp only [Bool.and_eq_true, bne_iff_ne, ne_eq, not_and, not_not] at hprofile
      by_cases hstandard : read.profile = .standardDsa
      · exact .inl hstandard
      · exact .inr (hprofile hstandard)
  | csv csv =>
      unfold standardDocument at h
      dsimp only at h
      split at h
      · obtain rfl := Except.ok.inj h
        exact .inl rfl
      · split at h
        · obtain rfl := Except.ok.inj h
          exact .inl rfl
        · cases h

/-- A loaded standard instance has a valid standard problem. -/
theorem loadStandardInstance_ok {capacityOverride : Option UInt64}
    {file : BenchmarkFile StandardContent} {loaded : Instance}
    (h : loadStandardInstance capacityOverride file = .ok loaded) :
    validateProblem loaded.document.problem = [] ∧
      validateStandardProblem loaded.document.problem = [] := by
  unfold loadStandardInstance at h
  obtain ⟨content, -, h⟩ := Theory.bind_eq_ok.mp h
  obtain ⟨document, hdocument, h⟩ := Theory.bind_eq_ok.mp h
  obtain ⟨valid, hvalid, h⟩ := Theory.bind_eq_ok.mp h
  obtain rfl := Except.ok.inj h
  obtain ⟨rfl, hok⟩ := requireValid_ok hvalid
  exact ⟨validateProblem_of_document hok,
    standard_of_validate hok (profile_of_standardDocument hdocument)⟩

/-- The validation of a standard problem does not look at its capacity. -/
theorem standardFree_withoutCapacities {problem : DsaProblem} (hvalid : validateProblem problem = [])
    (hstandard : validateStandardProblem problem = []) :
    StandardFree (withoutCapacities problem) := by
  obtain ⟨pool, h⟩ := standardPool_of_validate hstandard
  have hids : (withoutCapacities problem).pools.map Pool.id = problem.pools.map Pool.id := by
    simp [withoutCapacities]
  refine ⟨?_, ?_, ?_⟩
  · rw [validateProblem_eq_nil_iff] at hvalid ⊢
    obtain ⟨-, -, hbuffers, -, -, -, -, -, -, hterms, hobjective⟩ := hvalid
    rw [hids]
    refine ⟨?_, ?_, hbuffers, ?_, ?_, ?_, ?_, ?_, ?_, hterms, hobjective⟩
    · simp [withoutCapacities, h.pools, poolErrors, h.reserved, h.bank, errorIf]
    · simp [withoutCapacities, h.pools]
    · simp [withoutCapacities, h.colocations]
    · simp [withoutCapacities, h.separations]
    · simp [withoutCapacities, h.temporalExclusions]
    · simp [withoutCapacities, h.pinned, pinnedErrors]
    · simp [withoutCapacities, DsaProblem.reusePenalties, h.costModel]
    · simp [withoutCapacities, pyptoErrors, h.pypto]
  · unfold validateStandardProblem at hstandard ⊢
    simp only [h.pools] at hstandard
    simpa [withoutCapacities, h.pools, standardBufferErrors] using hstandard
  · simp [withoutCapacities, h.pools]

theorem makeStandardProjection_ok {relaxation projection : StructuredProblemDocument}
    (h : makeStandardProjection relaxation = .ok projection) : StandardFree projection.problem := by
  unfold makeStandardProjection at h
  split at h
  · rename_i hvalid
    obtain rfl := Except.ok.inj h
    refine ⟨validateProblem_of_document hvalid, standard_of_validate hvalid (.inl rfl), ?_⟩
    intro pool hpool
    obtain ⟨original, -, rfl⟩ := List.mem_map.mp hpool
    rfl
  · cases h

/-! ### Shapes seen and instances kept -/

/-- The instance has the shape, and its problem is standard and without capacity. -/
def HasShape (shape : String) (kept : Instance) : Prop :=
  StandardFree kept.document.problem ∧ canonicalStandardShape kept.document.problem = .ok shape

/-- Every shape seen is the shape of an instance kept, and every projection dropped has one. -/
structure LoadOk (state : LoadState) : Prop where
  kept : ∀ shape ∈ state.standardShapes, ∃ kept ∈ state.instances, HasShape shape kept
  dropped : ∀ projection ∈ state.duplicateStandardProjections, StandardFree projection.problem ∧
    ∃ shape ∈ state.standardShapes, canonicalStandardShape projection.problem = .ok shape

theorem LoadOk.push {state : LoadState} (h : LoadOk state) (added : Instance) :
    LoadOk { state with instances := state.instances ++ [added] } where
  kept shape hshape := by
    obtain ⟨kept, hkept, hhas⟩ := h.kept shape hshape
    exact ⟨kept, List.mem_append_left _ hkept, hhas⟩
  dropped := h.dropped

theorem LoadOk.pushShape {state : LoadState} (h : LoadOk state) {added : Instance} {shape : String}
    (hadded : HasShape shape added) :
    LoadOk { state with
      instances := state.instances ++ [added]
      standardShapes := shape :: state.standardShapes } where
  kept other hother := by
    rcases List.mem_cons.mp hother with rfl | hother
    · exact ⟨added, List.mem_append_right _ List.mem_cons_self, hadded⟩
    · exact (h.push added).kept other hother
  dropped projection hprojection := by
    obtain ⟨hfree, other, hother, hshape⟩ := h.dropped projection hprojection
    exact ⟨hfree, other, List.mem_cons_of_mem _ hother, hshape⟩

theorem LoadOk.drop {state : LoadState} (h : LoadOk state) {projection : StructuredProblemDocument}
    {shape : String} (hfree : StandardFree projection.problem)
    (hshape : canonicalStandardShape projection.problem = .ok shape)
    (hseen : shape ∈ state.standardShapes) :
    LoadOk { state with
      duplicateStandardProjections := state.duplicateStandardProjections ++ [projection] } where
  kept := h.kept
  dropped other hother := by
    rcases List.mem_append.mp hother with hother | hother
    · exact h.dropped other hother
    · rw [List.mem_singleton.mp hother]
      exact ⟨hfree, shape, hseen, hshape⟩

theorem LoadOk.loadStandard {options : SuiteOptions} {state next : LoadState}
    {file : BenchmarkFile StandardContent} (h : LoadOk state)
    (hnext : loadStandard options state file = .ok next) : LoadOk next := by
  unfold Dsa.loadStandard at hnext
  obtain ⟨standard, hstandard, hnext⟩ := Theory.bind_eq_ok.mp hnext
  obtain ⟨hvalid, hprofile⟩ := loadStandardInstance_ok hstandard
  split_ifs at hnext with honly
  · obtain ⟨shape, hshape, hnext⟩ := Theory.bind_eq_ok.mp hnext
    obtain rfl := Except.ok.inj hnext
    exact h.pushShape ⟨standardFree_withoutCapacities hvalid hprofile, hshape⟩
  · obtain rfl := Except.ok.inj hnext
    exact h.push standard

theorem LoadOk.loadRelaxations {options : SuiteOptions} {source : String}
    {relaxations : List StructuredProblemDocument} {state : LoadState} (h : LoadOk state) :
    LoadOk (loadRelaxations options source state relaxations) := by
  induction relaxations generalizing state with
  | nil => exact h
  | cons relaxation rest ih =>
      unfold Dsa.loadRelaxations
      split_ifs with honly
      · exact ih (h.push _)
      · split
        · exact h
        · rename_i projection hprojection
          have hfree := makeStandardProjection_ok hprojection
          split_ifs with htrivial
          · exact ih ⟨h.kept, h.dropped⟩
          · split
            · exact h
            · rename_i shape hshape
              split_ifs with hseen
              · exact ih (h.drop hfree hshape (List.contains_iff_mem.mp hseen))
              · exact ih (h.pushShape ⟨hfree, hshape⟩)

theorem LoadOk.loadStructured {options : SuiteOptions} {state : LoadState} (h : LoadOk state)
    (structured : Instance) : LoadOk (loadStructured options state structured) := by
  unfold Dsa.loadStructured
  have hpushed : LoadOk (if options.standardOnly then state
      else { state with instances := state.instances ++ [structured] }) := by
    split_ifs
    · exact h
    · exact h.push structured
  dsimp only
  split
  · exact hpushed
  · split
    · exact hpushed
    · exact hpushed.loadRelaxations

theorem LoadOk.loadPypto {options : SuiteOptions} {state next : LoadState}
    {file : BenchmarkFile StructuredProblemDocument} (h : LoadOk state)
    (hnext : loadPypto options state file = .ok next) : LoadOk next := by
  unfold Dsa.loadPypto at hnext
  obtain ⟨structured, -, hnext⟩ := Theory.bind_eq_ok.mp hnext
  dsimp only at hnext
  split_ifs at hnext with hvariants hempty hseen
  · obtain rfl := Except.ok.inj hnext
    exact h
  · obtain rfl := Except.ok.inj hnext
    exact h.loadStructured structured
  · obtain rfl := Except.ok.inj hnext
    exact ⟨h.kept, h.dropped⟩
  · obtain rfl := Except.ok.inj hnext
    have hseen : LoadOk { state with
        compilerProblemFingerprints :=
          metadataValue structured.document "corpus_problem_fingerprint_fnv1a64" ::
            state.compilerProblemFingerprints } := ⟨h.kept, h.dropped⟩
    exact hseen.loadStructured structured

theorem loadOk_loadInstances {options : SuiteOptions}
    {standard : List (BenchmarkFile StandardContent)}
    {dsaRp pypto : List (BenchmarkFile StructuredProblemDocument)} {result : LoadState}
    (h : loadInstances options standard dsaRp pypto = .ok result) : LoadOk result := by
  unfold loadInstances at h
  obtain ⟨afterStandard, hstandard, h⟩ := Theory.bind_eq_ok.mp h
  obtain ⟨afterDsaRp, hdsaRp, h⟩ := Theory.bind_eq_ok.mp h
  obtain ⟨afterPypto, hpypto, h⟩ := Theory.bind_eq_ok.mp h
  obtain ⟨-, -, h⟩ := Theory.bind_eq_ok.mp h
  obtain rfl := Except.ok.inj h
  have h1 := Theory.foldlM_induction (fun _ => LoadOk) ⟨by simp, by simp⟩
    (fun _ _ _ _ _ _ hok hstep => hok.loadStandard hstep) hstandard
  have h2 := Theory.foldlM_induction (fun _ => LoadOk) h1
    (fun _ _ _ state next _ hok hstep => by
      unfold loadDsaRp at hstep
      obtain ⟨added, -, hstep⟩ := Theory.bind_eq_ok.mp hstep
      obtain rfl := Except.ok.inj hstep
      exact hok.push added) hdsaRp
  have h3 := Theory.foldlM_induction (fun _ => LoadOk) h2
    (fun _ _ _ _ _ _ hok hstep => hok.loadPypto hstep) hpypto
  refine ⟨fun shape hshape => ?_, h3.dropped⟩
  obtain ⟨kept, hkept, hhas⟩ := h3.kept shape hshape
  exact ⟨kept, (List.perm_insertionSort _ _).mem_iff.mpr hkept, hhas⟩

/-- **The shape of a standard problem loses nothing.**  Two problems have one shape exactly when
they are isomorphic; then their temporal conflicts agree up to renaming and they reach the same
values of every metric; a projection that a run drops reaches the values, and has the optimum, of
an instance that it keeps. -/
theorem standardShape_dedup :
    (∀ first second, OneInterval first → OneInterval second →
      (canonicalStandardShape first = canonicalStandardShape second ↔ Isomorphic first second)) ∧
    (∀ first second, StandardFree first → StandardFree second →
      canonicalStandardShape first = canonicalStandardShape second →
        (∃ buffers : Fin first.buffers.length ≃ Fin second.buffers.length, ∀ i j,
          haveTemporalConflict second (second.buffers.get (buffers i))
              (second.buffers.get (buffers j)) =
            haveTemporalConflict first (first.buffers.get i) (first.buffers.get j)) ∧
        ∀ metric, achievableValues first metric = achievableValues second metric) ∧
    ∀ options standard dsaRp pypto result,
      loadInstances options standard dsaRp pypto = .ok result →
        ∀ projection ∈ result.duplicateStandardProjections, ∃ kept ∈ result.instances,
          StandardFree kept.document.problem ∧ ∀ metric,
            achievableValues projection.problem metric =
                achievableValues kept.document.problem metric ∧
              ∀ best, IsLeast (achievableValues projection.problem metric) best ↔
                IsLeast (achievableValues kept.document.problem metric) best := by
  refine ⟨fun first second => shape_eq_iff_isomorphic, fun first second hfirst hsecond h => ?_,
    fun options standard dsaRp pypto result hresult projection hprojection => ?_⟩
  · have hiso := (shape_eq_iff_isomorphic hfirst.oneInterval hsecond.oneInterval).mp h
    refine ⟨?_, achievableValues_of_isomorphic hfirst hsecond hiso⟩
    obtain ⟨buffers, times, hshape⟩ := hiso
    obtain ⟨pool, hpool⟩ := standardPool_of_validate hfirst.standard
    obtain ⟨pool', hpool'⟩ := standardPool_of_validate hsecond.standard
    refine ⟨buffers, fun i j => ?_⟩
    rw [hpool.haveTemporalConflict_eq, hpool'.haveTemporalConflict_eq,
      hshape.lifetimesOverlap_eq hfirst.oneInterval hsecond.oneInterval]
  · have hok := loadOk_loadInstances hresult
    obtain ⟨hfree, shape, hseen, hshape⟩ := hok.dropped projection hprojection
    obtain ⟨kept, hkept, hkeptFree, hkeptShape⟩ := hok.kept shape hseen
    have hiso := (shape_eq_iff_isomorphic hfree.oneInterval hkeptFree.oneInterval).mp
      (hshape.trans hkeptShape.symm)
    refine ⟨kept, hkept, hkeptFree, fun metric => ?_⟩
    have hvalues := achievableValues_of_isomorphic hfree hkeptFree hiso metric
    exact ⟨hvalues, fun best => by rw [hvalues]⟩

/-- Two overlapping buffers and one after them. -/
def overlapThenOne : DsaProblem where
  buffers :=
    [{ id := 0, size := 8, liveIntervals := [⟨0, 2⟩] },
      { id := 1, size := 16, liveIntervals := [⟨1, 3⟩] },
      { id := 2, size := 8, liveIntervals := [⟨4, 6⟩] }]
  pools := [{}]

/-- The same at other times, listed in another order under other names. -/
def overlapThenOneLater : DsaProblem where
  buffers :=
    [{ id := 7, size := 8, liveIntervals := [⟨40, 90⟩] },
      { id := 3, size := 16, liveIntervals := [⟨11, 20⟩] },
      { id := 5, size := 8, liveIntervals := [⟨10, 15⟩] }]
  pools := [{}]

/-- A buffer of two intervals and one that bridges them, from a given time on. -/
def bridgedDocument (instanceName : String) (start : Int64) : StructuredProblemDocument where
  profile := .pyptoResearchV1
  instanceName := instanceName
  metadata := ((∅ : Metadata).insert "lifetime_ordering" "pypto_read_before_write").insert
    "solver_input" "pre_memory_reuse"
  problem :=
    { buffers :=
        [{ id := 3, size := 8, alignment := 4,
           liveIntervals := [⟨start, start + 2⟩, ⟨start + 4, start + 6⟩] },
          { id := 5, size := 16, liveIntervals := [⟨start + 1, start + 5⟩] }]
      pools := [{ capacity := some 64 }] }

def bridgedFile (name : String) (start : Int64) : BenchmarkFile StructuredProblemDocument where
  path := name ++ ".json"
  filename := name ++ ".json"
  source := name
  content := .ok (bridgedDocument name start)

/-- The two problems are isomorphic, and of two files that differ in their times a run keeps one
projection. -/
theorem standardShape_dedup_bridged :
    Isomorphic overlapThenOne overlapThenOneLater ∧
      (∀ metric, achievableValues overlapThenOne metric =
        achievableValues overlapThenOneLater metric) ∧
      ∃ result, loadInstances { standardOnly := true } [] []
          [bridgedFile "early" 0, bridgedFile "late" 10] = .ok result ∧
        result.duplicateStandardProjections.length = 1 ∧
          ∀ projection ∈ result.duplicateStandardProjections, ∃ kept ∈ result.instances,
            ∀ metric, achievableValues projection.problem metric =
              achievableValues kept.document.problem metric := by
  obtain ⟨hiff, hvalues, hdropped⟩ := standardShape_dedup
  have hfirst : StandardFree overlapThenOne :=
    ⟨by decide +kernel, by decide +kernel, by decide +kernel⟩
  have hsecond : StandardFree overlapThenOneLater :=
    ⟨by decide +kernel, by decide +kernel, by decide +kernel⟩
  have hshape : canonicalStandardShape overlapThenOne =
      canonicalStandardShape overlapThenOneLater := by decide +kernel
  have hcount : ((loadInstances { standardOnly := true } [] []
      [bridgedFile "early" 0, bridgedFile "late" 10]).toOption.map fun result =>
        result.duplicateStandardProjections.length) = some 1 := by decide +kernel
  refine ⟨(hiff _ _ hfirst.oneInterval hsecond.oneInterval).mp hshape,
    (hvalues _ _ hfirst hsecond hshape).2, ?_⟩
  cases hload : loadInstances { standardOnly := true } [] []
      [bridgedFile "early" 0, bridgedFile "late" 10] with
  | error error =>
      rw [hload] at hcount
      cases hcount
  | ok result =>
      rw [hload] at hcount
      refine ⟨result, rfl, Option.some.inj hcount, fun projection hprojection => ?_⟩
      obtain ⟨kept, hkept, -, hmetric⟩ := hdropped _ _ _ _ result hload projection hprojection
      exact ⟨kept, hkept, fun metric => (hmetric metric).1⟩

end Dsa
