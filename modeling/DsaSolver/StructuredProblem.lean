import DsaSolver.Theory.Loops
import DsaSolver.ValidatorFacts
import Std.Data.ExtTreeMap.Lemmas

/-! # Structured problem documents

`structured_problem.h` and the profile validation of `structured_problem.cpp`: the envelope of
a problem, the contract of each benchmark profile, and `ValidateStructuredProblemDocument`.  A
`std::map<std::string, std::string>` is an extensional tree map.  A function that may throw
returns `Except Exception`. -/

namespace Dsa

/-- The exceptions thrown, with the text of `what()`. -/
inductive Exception where
  | invalidArgument (what : String)
  | overflowError (what : String)
  | logicError (what : String)
  | runtimeError (what : String)
deriving DecidableEq, Repr

abbrev Metadata := Std.ExtTreeMap String String

def kStructuredProblemSchemaVersion : UInt32 := 1

inductive BenchmarkProfile where
  | standardDsa
  | dsaRpV1
  | pyptoStructured
  | pyptoHardV1
  | pyptoResearchV1
  | pyptoCoreRelaxation
deriving DecidableEq, Repr

structure StructuredProblemDocument where
  schemaVersion : UInt32 := kStructuredProblemSchemaVersion
  profile : BenchmarkProfile := .pyptoHardV1
  instanceName : String := ""
  relaxedFrom : Option String := none
  relaxedFeatures : List String := []
  metadata : Metadata := ∅
  problem : DsaProblem := {}

def BenchmarkProfile.toString : BenchmarkProfile → String
  | .standardDsa => "standard_dsa"
  | .dsaRpV1 => "dsa_rp_v1"
  | .pyptoStructured => "pypto_structured"
  | .pyptoHardV1 => "pypto_hard_v1"
  | .pyptoResearchV1 => "pypto_research_v1"
  | .pyptoCoreRelaxation => "pypto_core_relaxation"

def isPyptoProfile (profile : BenchmarkProfile) : Bool :=
  profile == .pyptoStructured || profile == .pyptoHardV1 || profile == .pyptoResearchV1

def minimizePeakObjective : ObjectiveSpec := ⟨.lexicographic, [.totalPeak, .maxPeak]⟩

/-! ### Profiles -/

def usesOnlyStandardObjectiveMetrics (objective : ObjectiveSpec) : Bool :=
  objective.terms.all fun metric =>
    metric == .capacityOverflow || metric == .totalPeak || metric == .maxPeak

def standardBufferErrors (pool : Pool) (buffer : Buffer) : List String :=
  errorIf (buffer.liveIntervals.length != 1)
      ("standard DSA buffer " ++ toString buffer.id ++ " must have exactly one live interval") ++
    errorIf (buffer.alignment != 1)
      ("standard DSA buffer " ++ toString buffer.id ++ " must have alignment 1") ++
    errorIf (buffer.allowedPools != [pool.id])
      ("standard DSA buffer " ++ toString buffer.id ++ " must use the document's fixed pool")

/-- `ValidateStandardProblem`. -/
def validateStandardProblem (problem : DsaProblem) : List String :=
  match problem.pools with
  | [pool] =>
      errorIf (!pool.reservedRanges.isEmpty)
          "standard DSA profile cannot encode reserved ranges" ++
        errorIf pool.bankGeometry.isSome "standard DSA profile cannot encode bank geometry" ++
        problem.buffers.flatMap (standardBufferErrors pool) ++
        errorIf (!problem.colocations.isEmpty)
          "standard DSA profile cannot encode colocations" ++
        errorIf (!problem.separations.isEmpty)
          "standard DSA profile cannot encode separations" ++
        errorIf (!problem.temporalExclusions.isEmpty)
          "standard DSA profile cannot encode temporal exclusions" ++
        errorIf (!problem.pinnedAllocations.isEmpty)
          "standard DSA profile cannot encode pinned allocations" ++
        errorIf problem.costModel.isSome "standard DSA profile cannot encode a cost model" ++
        errorIf problem.pyptoStructure.isSome
          "standard DSA profile cannot encode PyPTO structure" ++
        errorIf (!usesOnlyStandardObjectiveMetrics problem.objective)
          "standard DSA profile uses a structured objective metric"
  | _ => ["standard DSA profile requires exactly one pool"]

def objectiveIsMinimizePeak (objective : ObjectiveSpec) : Bool :=
  objective == minimizePeakObjective

def objectiveIsFitThenMinimizeReuseCost (objective : ObjectiveSpec) : Bool :=
  objective == fitThenMinimizeReuseCostObjective

/-- `ValidateDsaRpV1`. -/
def validateDsaRpV1 (problem : DsaProblem) : List String :=
  validateStandardProblem
      { problem with costModel := none, objective := minimizePeakObjective } ++
    errorIf (match problem.pools with
        | [pool] => pool.capacity.isNone
        | _ => false)
      "dsa_rp_v1 requires a fixed capacity" ++
    errorIf problem.costModel.isNone "dsa_rp_v1 requires an explicit reuse-cost model" ++
    errorIf (!objectiveIsFitThenMinimizeReuseCost problem.objective)
      "dsa_rp_v1 requires the fit-then-minimize-reuse-cost objective"

def requireMetadataValue (document : StructuredProblemDocument) (key expected : String) :
    List String :=
  errorIf (document.metadata[key]? != some expected)
    (document.profile.toString ++ " requires metadata '" ++ key ++ "' = '" ++ expected ++ "'")

def hardBufferErrors (buffer : Buffer) : List String :=
  errorIf (buffer.liveIntervals.length != 1)
      ("pypto_hard_v1 buffer " ++ toString buffer.id ++
        " must have one conservative live interval") ++
    errorIf (buffer.allowedPools.length != 1)
      ("pypto_hard_v1 buffer " ++ toString buffer.id ++ " must have one fixed pool")

/-- `ValidatePyptoV1`. -/
def validatePyptoV1 (document : StructuredProblemDocument) (rejectExperimental : Bool) :
    List String :=
  let problem := document.problem
  requireMetadataValue document "lifetime_ordering" "pypto_read_before_write" ++
    requireMetadataValue document "solver_input" "pre_memory_reuse" ++
    if !rejectExperimental then []
    else
      problem.buffers.flatMap hardBufferErrors ++
        errorIf (problem.pools.any fun pool => pool.bankGeometry.isSome)
          "pypto_hard_v1 cannot encode experimental bank geometry" ++
        errorIf (!problem.colocations.isEmpty)
          "pypto_hard_v1 cannot encode experimental colocations" ++
        errorIf (!problem.temporalExclusions.isEmpty)
          "pypto_hard_v1 cannot encode experimental temporal exclusions" ++
        errorIf (!problem.pinnedAllocations.isEmpty)
          "pypto_hard_v1 cannot encode experimental pinned allocations" ++
        errorIf problem.costModel.isSome
          "pypto_hard_v1 cannot encode an experimental cost model" ++
        errorIf (!objectiveIsMinimizePeak problem.objective)
          "pypto_hard_v1 requires the peak-minimization objective"

/-- A profile that records no relaxation; `name` is how its messages call the document. -/
def notRelaxedErrors (document : StructuredProblemDocument) (name : String) : List String :=
  errorIf document.relaxedFrom.isSome (name ++ " document cannot declare relaxed_from") ++
    errorIf (!document.relaxedFeatures.isEmpty)
      (name ++ " document cannot declare relaxed_features")

def profileErrors (document : StructuredProblemDocument) : List String :=
  match document.profile with
  | .standardDsa => notRelaxedErrors document "standard DSA"
  | .dsaRpV1 => notRelaxedErrors document "dsa_rp_v1" ++ validateDsaRpV1 document.problem
  | .pyptoStructured => notRelaxedErrors document "legacy structured PyPTO"
  | .pyptoHardV1 => notRelaxedErrors document "pypto_hard_v1" ++ validatePyptoV1 document true
  | .pyptoResearchV1 =>
      notRelaxedErrors document "pypto_research_v1" ++ validatePyptoV1 document false
  | .pyptoCoreRelaxation =>
      errorIf (document.relaxedFrom.getD "" == "") "core relaxation must identify relaxed_from"

/-- `ValidateStructuredProblemDocument`. -/
def validateStructuredProblemDocument (document : StructuredProblemDocument) : List String :=
  errorIf (document.schemaVersion != kStructuredProblemSchemaVersion)
      ("unsupported structured problem schema version " ++ toString document.schemaVersion) ++
    errorIf (document.instanceName == "") "structured problem has an empty instance name" ++
    validateProblem document.problem ++
    profileErrors document ++
    if document.profile == .standardDsa || document.profile == .pyptoCoreRelaxation then
      validateStandardProblem document.problem
    else []

/-! ### Facts about the envelope -/

section envelope

variable {document : StructuredProblemDocument}

theorem validateProblem_of_document (h : validateStructuredProblemDocument document = []) :
    validateProblem document.problem = [] := by
  unfold validateStructuredProblemDocument at h
  simp only [List.append_eq_nil_iff] at h
  exact h.1.1.2

/-- The two metadata entries that the research and the hard profile require. -/
def HasPyptoMetadata (metadata : Metadata) : Prop :=
  metadata["lifetime_ordering"]? = some "pypto_read_before_write" ∧
    metadata["solver_input"]? = some "pre_memory_reuse"

theorem validatePyptoV1_research_eq_nil_iff :
    validatePyptoV1 document false = [] ↔ HasPyptoMetadata document.metadata := by
  simp [validatePyptoV1, requireMetadataValue, HasPyptoMetadata, errorIf_eq_nil]

/-- The sections of the validation of a research document. -/
theorem validate_research_eq_nil_iff (hprofile : document.profile = .pyptoResearchV1) :
    validateStructuredProblemDocument document = [] ↔
      document.schemaVersion = kStructuredProblemSchemaVersion ∧ document.instanceName ≠ "" ∧
        validateProblem document.problem = [] ∧ document.relaxedFrom = none ∧
        document.relaxedFeatures = [] ∧ HasPyptoMetadata document.metadata := by
  unfold validateStructuredProblemDocument profileErrors notRelaxedErrors
  rw [hprofile]
  simp [errorIf_eq_nil, validatePyptoV1_research_eq_nil_iff]

/-- What a valid document of a PyPTO profile says about its envelope. -/
theorem envelope_of_pypto (h : validateStructuredProblemDocument document = [])
    (hprofile : isPyptoProfile document.profile = true) :
    document.schemaVersion = kStructuredProblemSchemaVersion ∧ document.instanceName ≠ "" ∧
      document.relaxedFrom = none ∧ document.relaxedFeatures = [] := by
  unfold validateStructuredProblemDocument profileErrors notRelaxedErrors at h
  simp only [List.append_eq_nil_iff, errorIf_eq_nil] at h
  obtain ⟨⟨⟨⟨hversion, hinstance⟩, -⟩, hrelaxed⟩, -⟩ := h
  refine ⟨by simpa using hversion, by simpa using hinstance, ?_⟩
  cases hp : document.profile <;> rw [hp] at hrelaxed hprofile <;>
    simp_all [isPyptoProfile, errorIf_eq_nil]

end envelope

end Dsa
