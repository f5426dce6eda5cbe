import DsaSolver.StructuredProblem
import DsaSolver.Theory.Json

/-! # Structured JSON

The readers and the writers of `structured_json.cpp`.  A reader takes a JSON value and the path
of the value, which its error names.  `RequireArray` followed by the loop over the items is
`readField (readArray read)`.  The text of a value is left to `JsonText`, the printer and the
parser of the JSON library. -/

namespace Dsa

open Theory

/-! ### Readers -/

section readers

variable {α : Type}

def throwRuntime (what : String) : Except Exception α := .error (.runtimeError what)

/-- `if (!condition) throw std::runtime_error(what)`. -/
def ensure (condition : Bool) (what : String) : Except Exception Unit :=
  if condition then .ok () else throwRuntime what

/-- `CheckFields`. -/
def checkFields (object : Json) (allowed : List String) (path : String) : Except Exception Unit :=
  match object with
  | .object members =>
      match members.find? fun member => !allowed.contains member.1 with
      | some member => throwRuntime (path ++ " has unknown field '" ++ member.1 ++ "'")
      | none => .ok ()
  | _ => throwRuntime (path ++ " must be an object")

/-- `ReadUnsigned`, with the largest value of the integer type. -/
def readUnsigned (max : UInt64) (value : Json) (path : String) : Except Exception UInt64 := do
  let parsed ←
    if value.isNumberUnsigned then .ok value.getUInt64
    else if value.isNumberInteger then
      if value.getInt64 < 0 then throwRuntime (path ++ " must be non-negative")
      else .ok value.getInt64.toUInt64
    else throwRuntime (path ++ " must be an unsigned integer")
  if parsed > max then throwRuntime (path ++ " exceeds its integer range") else .ok parsed

def readUInt64 (value : Json) (path : String) : Except Exception UInt64 :=
  readUnsigned maxU64 value path

def readUInt32 (value : Json) (path : String) : Except Exception UInt32 := do
  let parsed ← readUnsigned 4294967295 value path
  .ok parsed.toUInt32

/-- `ReadSigned`.  An unsigned number is an integer too, so the first test takes it. -/
def readSigned (value : Json) (path : String) : Except Exception Int64 :=
  if value.isNumberInteger then .ok value.getInt64
  else if value.isNumberUnsigned then
    if value.getUInt64 > 9223372036854775807 then throwRuntime (path ++ " exceeds int64 range")
    else .ok value.getUInt64.toInt64
  else throwRuntime (path ++ " must be an integer")

def readInt32 (value : Json) (path : String) : Except Exception Int32 := do
  let parsed ← readSigned value path
  if parsed < -2147483648 || parsed > 2147483647 then throwRuntime (path ++ " exceeds int32 range")
  else .ok parsed.toInt32

/-- `RequireField`. -/
def requireField (object : Json) (field path : String) : Except Exception Json :=
  match object with
  | .object members =>
      match members.lookup field with
      | some value => .ok value
      | none => throwRuntime (path ++ " is missing '" ++ field ++ "'")
  | _ => throwRuntime (path ++ " must be an object")

/-- A required member, read under its own path. -/
def readField (read : Json → String → Except Exception α) (object : Json) (field path : String) :
    Except Exception α := do
  let value ← requireField object field path
  read value (path ++ "." ++ field)

/-- A member that may be absent. -/
def readOptional (read : Json → String → Except Exception α) (absent : α) (object : Json)
    (field path : String) : Except Exception α :=
  match object.find field with
  | none => .ok absent
  | some value => read value (path ++ "." ++ field)

/-- The loop over the items of an array, from index `i` on. -/
def readItems (read : Json → String → Except Exception α) (path : String) :
    ℕ → List Json → Except Exception (List α)
  | _, [] => .ok []
  | i, item :: rest => do
      let first ← read item (path ++ "[" ++ toString i ++ "]")
      let others ← readItems read path (i + 1) rest
      .ok (first :: others)

def readArray (read : Json → String → Except Exception α) (value : Json) (path : String) :
    Except Exception (List α) :=
  match value with
  | .array items => readItems read path 0 items
  | _ => throwRuntime (path ++ " must be an array")

/-- An optional record, which cannot be `null`. -/
def readPresent (read : Json → String → Except Exception α) (value : Json) (path : String) :
    Except Exception (Option α) := do
  ensure (!value.isNull) (path ++ " cannot be null")
  let record ← read value path
  .ok (some record)

/-- A number or `null`. -/
def readNullable (read : Json → String → Except Exception α) (value : Json) (path : String) :
    Except Exception (Option α) :=
  if value.isNull then .ok none
  else do
    let number ← read value path
    .ok (some number)

def readString (value : Json) (path : String) : Except Exception String :=
  match value with
  | .string text => .ok text
  | _ => throwRuntime (path ++ " must be a string")

def readBool (value : Json) (path : String) : Except Exception Bool :=
  match value with
  | .boolean flag => .ok flag
  | _ => throwRuntime (path ++ " must be a boolean")

/-- A spelling of an enumeration, `kind` in its error. -/
def readName (names : List (String × α)) (kind : String) (value : Json) (path : String) :
    Except Exception α := do
  let name ← readString value path
  match names.lookup name with
  | some constant => .ok constant
  | none => throwRuntime (path ++ " has unknown " ++ kind ++ " '" ++ name ++ "'")

end readers

/-! ### Enumerations -/

def readProfile : Json → String → Except Exception BenchmarkProfile :=
  readName [("standard_dsa", .standardDsa), ("dsa_rp_v1", .dsaRpV1),
    ("pypto_structured", .pyptoStructured), ("pypto_hard_v1", .pyptoHardV1),
    ("pypto_research_v1", .pyptoResearchV1), ("pypto_core_relaxation", .pyptoCoreRelaxation)]
    "profile"

def readAggregation : Json → String → Except Exception ObjectiveAggregation :=
  readName [("lexicographic", .lexicographic)] "aggregation"

def readObjectiveMetric : Json → String → Except Exception ObjectiveMetric :=
  readName [("capacity_overflow", .capacityOverflow), ("total_peak", .totalPeak),
    ("max_peak", .maxPeak), ("reuse_cost", .reuseCost), ("bank_cost", .bankCost)]
    "objective metric"

def readPenaltyReason : Json → String → Except Exception ReusePenaltyReason :=
  readName [("generic", .generic), ("pipeline_serialization", .pipelineSerialization),
    ("load_motion_serialization", .loadMotionSerialization), ("cross_pipe", .crossPipe),
    ("cross_core", .crossCore), ("event_budget", .eventBudget)]
    "reuse-penalty reason"

def readSeparationReason : Json → String → Except Exception SeparationReason :=
  readName [("generic", .generic), ("pipeline_stage", .pipelineStage),
    ("target_hazard", .targetHazard), ("semantic_no_alias", .semanticNoAlias),
    ("cross_pipe", .crossPipe)]
    "separation reason"

def penaltyReasonName : ReusePenaltyReason → String
  | .generic => "generic"
  | .pipelineSerialization => "pipeline_serialization"
  | .loadMotionSerialization => "load_motion_serialization"
  | .crossPipe => "cross_pipe"
  | .crossCore => "cross_core"
  | .eventBudget => "event_budget"

def ObjectiveAggregation.toString : ObjectiveAggregation → String
  | .lexicographic => "lexicographic"

/-! ### Reading the records -/

def readAddressRange (value : Json) (path : String) : Except Exception AddressRange := do
  checkFields value ["begin", "end"] path
  let first ← readField readUInt64 value "begin" path
  let last ← readField readUInt64 value "end" path
  .ok ⟨first, last⟩

def readBankGeometry (value : Json) (path : String) : Except Exception BankGeometry := do
  checkFields value ["bank_size", "num_banks"] path
  let bankSize ← readField readUInt64 value "bank_size" path
  let numBanks ← readField readUInt32 value "num_banks" path
  .ok ⟨bankSize, numBanks⟩

def readPool (value : Json) (path : String) : Except Exception Pool := do
  checkFields value ["id", "name", "capacity", "reserved_ranges", "bank_geometry"] path
  let id ← readField readUInt32 value "id" path
  let name ← readField readString value "name" path
  let capacity ← readField (readNullable readUInt64) value "capacity" path
  let reservedRanges ← readField (readArray readAddressRange) value "reserved_ranges" path
  let bankGeometry ← readOptional (readPresent readBankGeometry) none value "bank_geometry" path
  .ok ⟨id, name, capacity, reservedRanges, bankGeometry⟩

def readInterval (value : Json) (path : String) : Except Exception Interval := do
  checkFields value ["lower", "upper"] path
  let lower ← readField readSigned value "lower" path
  let upper ← readField readSigned value "upper" path
  .ok ⟨lower, upper⟩

def readBuffer (value : Json) (path : String) : Except Exception Buffer := do
  checkFields value ["id", "name", "size", "alignment", "live_intervals", "allowed_pools"] path
  let id ← readField readUInt32 value "id" path
  let name ← readField readString value "name" path
  let size ← readField readUInt64 value "size" path
  let alignment ← readField readUInt64 value "alignment" path
  let liveIntervals ← readField (readArray readInterval) value "live_intervals" path
  let allowedPools ← readField (readArray readUInt32) value "allowed_pools" path
  .ok ⟨id, name, size, alignment, liveIntervals, allowedPools⟩

def readColocation (item : Json) (path : String) : Except Exception Colocation := do
  checkFields item ["first", "second"] path
  let first ← readField readUInt32 item "first" path
  let second ← readField readUInt32 item "second" path
  .ok ⟨first, second⟩

def readTemporalExclusion (item : Json) (path : String) : Except Exception TemporalExclusion := do
  checkFields item ["first", "second"] path
  let first ← readField readUInt32 item "first" path
  let second ← readField readUInt32 item "second" path
  .ok ⟨first, second⟩

def readSeparation (item : Json) (path : String) : Except Exception Separation := do
  checkFields item ["first", "second", "reasons"] path
  let first ← readField readUInt32 item "first" path
  let second ← readField readUInt32 item "second" path
  let reasons ← readOptional (readArray readSeparationReason) [] item "reasons" path
  .ok ⟨first, second, reasons⟩

def readPinnedAllocation (value : Json) (path : String) : Except Exception PinnedAllocation := do
  checkFields value ["buffer", "pool", "offset", "exclusive_for_all_time"] path
  let buffer ← readField readUInt32 value "buffer" path
  let pool ← readField readUInt32 value "pool" path
  let offset ← readField readUInt64 value "offset" path
  let exclusiveForAllTime ← readField readBool value "exclusive_for_all_time" path
  .ok ⟨buffer, pool, offset, exclusiveForAllTime⟩

def readAliasClass (value : Json) (path : String) : Except Exception PyptoAliasClass := do
  checkFields value ["buffer", "members"] path
  let buffer ← readField readUInt32 value "buffer" path
  let members ← readField (readArray readString) value "members" path
  .ok ⟨buffer, members⟩

def readPipelineMember (member : Json) (path : String) : Except Exception PyptoPipelineMember := do
  checkFields member ["buffer", "stage", "residue"] path
  let buffer ← readField readUInt32 member "buffer" path
  let stage ← readField readInt32 member "stage" path
  let residue ← readField readUInt32 member "residue" path
  .ok ⟨buffer, stage, residue⟩

def readPipelineGroup (value : Json) (path : String) : Except Exception PyptoPipelineGroup := do
  checkFields value ["group", "pool", "slot_size", "depth", "effective_depth", "members"] path
  let group ← readField readInt32 value "group" path
  let pool ← readField readUInt32 value "pool" path
  let slotSize ← readField readUInt64 value "slot_size" path
  let depth ← readField readUInt32 value "depth" path
  let effectiveDepth ← readField readUInt32 value "effective_depth" path
  let members ← readField (readArray readPipelineMember) value "members" path
  .ok ⟨group, pool, slotSize, depth, effectiveDepth, members⟩

def readPyptoStructure (value : Json) (path : String) : Except Exception PyptoStructure := do
  checkFields value ["alias_classes", "pipeline_groups"] path
  let aliasClasses ← readField (readArray readAliasClass) value "alias_classes" path
  let pipelineGroups ← readField (readArray readPipelineGroup) value "pipeline_groups" path
  .ok ⟨aliasClasses, pipelineGroups⟩

def readReusePenalty (value : Json) (path : String) : Except Exception ReusePenalty := do
  checkFields value ["first", "second", "cost", "reason"] path
  let first ← readField readUInt32 value "first" path
  let second ← readField readUInt32 value "second" path
  let cost ← readField readUInt64 value "cost" path
  let reason ← readField readPenaltyReason value "reason" path
  .ok ⟨first, second, cost, reason⟩

def readCostModel (value : Json) (path : String) : Except Exception CostModel := do
  checkFields value ["reuse_penalties"] path
  let reusePenalties ← readField (readArray readReusePenalty) value "reuse_penalties" path
  .ok ⟨reusePenalties⟩

def readObjective (value : Json) (path : String) : Except Exception ObjectiveSpec := do
  checkFields value ["aggregation", "terms"] path
  let aggregation ← readField readAggregation value "aggregation" path
  let terms ← readField (readArray readObjectiveMetric) value "terms" path
  .ok ⟨aggregation, terms⟩

/-- The four lists of constraints. -/
def readConstraints (constraints : Json) (path : String) :
    Except Exception (List Colocation × List Separation × List TemporalExclusion ×
      List PinnedAllocation) := do
  checkFields constraints
    ["colocations", "separations", "temporal_exclusions", "pinned_allocations"] path
  let colocations ← readField (readArray readColocation) constraints "colocations" path
  let separations ← readField (readArray readSeparation) constraints "separations" path
  let temporalExclusions ←
    readField (readArray readTemporalExclusion) constraints "temporal_exclusions" path
  let pinnedAllocations ←
    readField (readArray readPinnedAllocation) constraints "pinned_allocations" path
  .ok (colocations, separations, temporalExclusions, pinnedAllocations)

def readProblem (problem : Json) (path : String) : Except Exception DsaProblem := do
  checkFields problem
    ["pools", "buffers", "constraints", "cost_model", "pypto_structure", "objective"] path
  let pools ← readField (readArray readPool) problem "pools" path
  let buffers ← readField (readArray readBuffer) problem "buffers" path
  let (colocations, separations, temporalExclusions, pinnedAllocations) ←
    readField readConstraints problem "constraints" path
  let pyptoStructure ←
    readOptional (readPresent readPyptoStructure) none problem "pypto_structure" path
  let costModel ← readOptional (readPresent readCostModel) none problem "cost_model" path
  let objective ← readField readObjective problem "objective" path
  .ok ⟨buffers, pools, colocations, separations, temporalExclusions, pinnedAllocations, costModel,
    pyptoStructure, objective⟩

/-- `document.metadata.emplace` for every member. -/
def readMetadata (value : Json) (path : String) : Except Exception Metadata :=
  match value with
  | .object members =>
      members.foldlM (fun metadata member => do
        let text ← readString member.2 (path ++ "." ++ member.1)
        .ok (metadata.insertIfNew member.1 text)) ∅
  | _ => throwRuntime (path ++ " must be an object")

/-- `ParseDocument`. -/
def parseDocument (root : Json) : Except Exception StructuredProblemDocument := do
  checkFields root ["schema_version", "profile", "instance", "relaxed_from", "relaxed_features",
    "metadata", "problem"] "root"
  let schemaVersion ← readField readUInt32 root "schema_version" "root"
  ensure (schemaVersion == kStructuredProblemSchemaVersion)
    ("unsupported structured problem schema version " ++ toString schemaVersion)
  let profile ← readField readProfile root "profile" "root"
  let instanceName ← readField readString root "instance" "root"
  let relaxedFrom ←
    readOptional (fun value path => (readString value path).map some) none root "relaxed_from"
      "root"
  let relaxedFeatures ← readOptional (readArray readString) [] root "relaxed_features" "root"
  let metadata ← readOptional readMetadata ∅ root "metadata" "root"
  ensure (profile == .pyptoCoreRelaxation || (root.find "relaxed_features").isNone)
    "root.relaxed_features is only valid for a core relaxation"
  let problem ← readField readProblem root "problem" "root"
  let document : StructuredProblemDocument :=
    ⟨schemaVersion, profile, instanceName, relaxedFrom, relaxedFeatures, metadata, problem⟩
  match validateStructuredProblemDocument document with
  | [] => .ok document
  | error :: _ => throwRuntime ("invalid structured problem: " ++ error)

/-! ### Solution documents -/

structure StructuredSolutionDocument where
  schemaVersion : UInt32 := kStructuredProblemSchemaVersion
  profile : BenchmarkProfile := .pyptoHardV1
  instanceName : String := ""
  problemFingerprint : String := ""
  metadata : Metadata := ∅
  solution : DsaSolution := {}

def readPlacement (placement : Json) (path : String) : Except Exception (BufferId × Placement) := do
  checkFields placement ["buffer", "pool", "offset"] path
  let buffer ← readField readUInt32 placement "buffer" path
  let pool ← readField readUInt32 placement "pool" path
  let offset ← readField readUInt64 placement "offset" path
  .ok (buffer, ⟨pool, offset⟩)

/-- The loop over the placements; `emplace` fails on a buffer that is already placed. -/
def readPlacements (path : String) :
    ℕ → List Json → DsaSolution → Except Exception DsaSolution
  | _, [], solution => .ok solution
  | i, item :: rest, solution => do
      let itemPath := path ++ "[" ++ toString i ++ "]"
      let (buffer, placement) ← readPlacement item itemPath
      ensure (!solution.placements.contains buffer)
        (itemPath ++ " repeats buffer " ++ toString buffer)
      readPlacements path (i + 1) rest ⟨solution.placements.insert buffer placement⟩

def readSolution (value : Json) (path : String) : Except Exception DsaSolution :=
  match value with
  | .array items => readPlacements path 0 items {}
  | _ => throwRuntime (path ++ " must be an array")

/-- `ParseSolutionDocument`. -/
def parseSolutionDocument (root : Json) : Except Exception StructuredSolutionDocument := do
  checkFields root ["schema_version", "profile", "instance", "problem_fingerprint", "metadata",
    "placements"] "root"
  let schemaVersion ← readField readUInt32 root "schema_version" "root"
  let profile ← readField readProfile root "profile" "root"
  let instanceName ← readField readString root "instance" "root"
  let problemFingerprint ← readField readString root "problem_fingerprint" "root"
  let metadata ← readField readMetadata root "metadata" "root"
  let solution ← readField readSolution root "placements" "root"
  .ok ⟨schemaVersion, profile, instanceName, problemFingerprint, metadata, solution⟩

/-! ### Writing -/

def writeProfile (profile : BenchmarkProfile) : Json := .string profile.toString

def writeAggregation (aggregation : ObjectiveAggregation) : Json := .string aggregation.toString

def writeObjectiveMetric (metric : ObjectiveMetric) : Json := .string metric.toString

def writePenaltyReason (reason : ReusePenaltyReason) : Json := .string (penaltyReasonName reason)

def writeSeparationReason (reason : SeparationReason) : Json := .string reason.toString

def writeUInt32 (value : UInt32) : Json := .unsigned value.toUInt64

def writeInt32 (value : Int32) : Json := .signed value.toInt64

def writeAddressRange (range : AddressRange) : Json :=
  .ofMembers [("begin", .unsigned range.first), ("end", .unsigned range.last)]

def writeBankGeometry (geometry : BankGeometry) : Json :=
  .ofMembers [("bank_size", .unsigned geometry.bankSize),
    ("num_banks", writeUInt32 geometry.numBanks)]

/-- `pool.capacity ? Json(*pool.capacity) : Json(nullptr)`. -/
def writeCapacity : Option UInt64 → Json
  | some capacity => .unsigned capacity
  | none => .null

def writePool (pool : Pool) : Json :=
  let value := Json.ofMembers [("id", writeUInt32 pool.id), ("name", .string pool.name),
    ("capacity", writeCapacity pool.capacity),
    ("reserved_ranges", .array (pool.reservedRanges.map writeAddressRange))]
  match pool.bankGeometry with
  | some geometry => value.set "bank_geometry" (writeBankGeometry geometry)
  | none => value

def writeInterval (interval : Interval) : Json :=
  .ofMembers [("lower", .signed interval.lower), ("upper", .signed interval.upper)]

def writeBuffer (buffer : Buffer) : Json :=
  .ofMembers [("id", writeUInt32 buffer.id), ("name", .string buffer.name),
    ("size", .unsigned buffer.size), ("alignment", .unsigned buffer.alignment),
    ("live_intervals", .array (buffer.liveIntervals.map writeInterval)),
    ("allowed_pools", .array (buffer.allowedPools.map writeUInt32))]

/-- `WritePairs`. -/
def writePair (first second : BufferId) : Json :=
  .ofMembers [("first", writeUInt32 first), ("second", writeUInt32 second)]

def writeColocation (pair : Colocation) : Json := writePair pair.first pair.second

def writeTemporalExclusion (pair : TemporalExclusion) : Json := writePair pair.first pair.second

def writeSeparation (pair : Separation) : Json :=
  let value := writePair pair.first pair.second
  if pair.reasons.isEmpty then value
  else value.set "reasons" (.array (pair.reasons.map writeSeparationReason))

def writePinnedAllocation (pinned : PinnedAllocation) : Json :=
  .ofMembers [("buffer", writeUInt32 pinned.buffer), ("pool", writeUInt32 pinned.pool),
    ("offset", .unsigned pinned.offset),
    ("exclusive_for_all_time", .boolean pinned.exclusiveForAllTime)]

def writeAliasClass (aliasClass : PyptoAliasClass) : Json :=
  .ofMembers [("buffer", writeUInt32 aliasClass.buffer),
    ("members", .array (aliasClass.members.map .string))]

def writePipelineMember (member : PyptoPipelineMember) : Json :=
  .ofMembers [("buffer", writeUInt32 member.buffer), ("stage", writeInt32 member.stage),
    ("residue", writeUInt32 member.residue)]

def writePipelineGroup (group : PyptoPipelineGroup) : Json :=
  .ofMembers [("group", writeInt32 group.group), ("pool", writeUInt32 group.pool),
    ("slot_size", .unsigned group.slotSize), ("depth", writeUInt32 group.depth),
    ("effective_depth", writeUInt32 group.effectiveDepth),
    ("members", .array (group.members.map writePipelineMember))]

def writePyptoStructure (pypto : PyptoStructure) : Json :=
  .ofMembers [("alias_classes", .array (pypto.aliasClasses.map writeAliasClass)),
    ("pipeline_groups", .array (pypto.pipelineGroups.map writePipelineGroup))]

def writeReusePenalty (penalty : ReusePenalty) : Json :=
  .ofMembers [("first", writeUInt32 penalty.first), ("second", writeUInt32 penalty.second),
    ("cost", .unsigned penalty.cost), ("reason", writePenaltyReason penalty.reason)]

def writeCostModel (costs : CostModel) : Json :=
  .ofMembers [("reuse_penalties", .array (costs.reusePenalties.map writeReusePenalty))]

def writeObjective (objective : ObjectiveSpec) : Json :=
  .ofMembers [("aggregation", writeAggregation objective.aggregation),
    ("terms", .array (objective.terms.map writeObjectiveMetric))]

def writeConstraints (problem : DsaProblem) : Json :=
  .ofMembers [
    ("colocations", .array (problem.colocations.map writeColocation)),
    ("separations", .array (problem.separations.map writeSeparation)),
    ("temporal_exclusions", .array (problem.temporalExclusions.map writeTemporalExclusion)),
    ("pinned_allocations", .array (problem.pinnedAllocations.map writePinnedAllocation))]

/-- A member that is written only when it is there. -/
def optionalMember {α : Type} (key : String) (write : α → Json) : Option α → List (String × Json)
  | some value => [(key, write value)]
  | none => []

def writeProblem (problem : DsaProblem) : Json :=
  .ofMembers ([("pools", .array (problem.pools.map writePool)),
    ("buffers", .array (problem.buffers.map writeBuffer)),
    ("constraints", writeConstraints problem)] ++
    optionalMember "pypto_structure" writePyptoStructure problem.pyptoStructure ++
    optionalMember "cost_model" writeCostModel problem.costModel ++
    [("objective", writeObjective problem.objective)])

def writeMetadata (metadata : Metadata) : Json :=
  .object (metadata.toList.map fun entry => (entry.1, .string entry.2))

/-- `SerializeDocument`. -/
def serializeDocument (document : StructuredProblemDocument) : Except Exception Json :=
  match validateStructuredProblemDocument document with
  | error :: _ => .error (.invalidArgument ("cannot serialize invalid structured problem: " ++ error))
  | [] =>
      .ok (.ofMembers ([("schema_version", writeUInt32 document.schemaVersion),
        ("profile", writeProfile document.profile),
        ("instance", .string document.instanceName),
        ("metadata", writeMetadata document.metadata)] ++
        optionalMember "relaxed_from" .string document.relaxedFrom ++
        (if document.relaxedFeatures.isEmpty then []
          else [("relaxed_features", .array (document.relaxedFeatures.map .string))]) ++
        [("problem", writeProblem document.problem)]))

def writePlacement (entry : BufferId × Placement) : Json :=
  .ofMembers [("buffer", writeUInt32 entry.1), ("pool", writeUInt32 entry.2.pool),
    ("offset", .unsigned entry.2.offset)]

/-- `SerializeSolutionDocument`. -/
def serializeSolutionDocument (document : StructuredSolutionDocument) : Json :=
  .ofMembers [("schema_version", writeUInt32 document.schemaVersion),
    ("profile", writeProfile document.profile),
    ("instance", .string document.instanceName),
    ("problem_fingerprint", .string document.problemFingerprint),
    ("metadata", writeMetadata document.metadata),
    ("placements", .array (document.solution.placements.toList.map writePlacement))]

/-! ### Text -/

/-- The JSON library: `dump` with an indentation of two, and `parse`, which gives the text of
its exception when the input is not JSON. -/
structure JsonText where
  dump : Json → String
  parse : String → Except String Json

section text

variable (lib : JsonText)

/-- Writing a value with a newline after it and parsing the text gives the value back. -/
def JsonText.RoundTrips (value : Json) : Prop :=
  lib.parse (lib.dump value ++ "\n") = .ok value.reread

/-- `ReadStructuredProblemJson`. -/
def readStructuredProblemJson (input : String) : Except Exception StructuredProblemDocument :=
  match lib.parse input with
  | .ok root => parseDocument root
  | .error what => throwRuntime ("invalid structured problem JSON: " ++ what)

/-- `WriteStructuredProblemJson`, the text it writes. -/
def writeStructuredProblemJson (document : StructuredProblemDocument) : Except Exception String := do
  let root ← serializeDocument document
  .ok (lib.dump root ++ "\n")

/-- `ReadStructuredSolutionJson`. -/
def readStructuredSolutionJson (input : String) : Except Exception StructuredSolutionDocument :=
  match lib.parse input with
  | .ok root => parseSolutionDocument root
  | .error what => throwRuntime ("invalid structured solution JSON: " ++ what)

/-- `WriteStructuredSolutionJson`, the text it writes. -/
def writeStructuredSolutionJson (document : StructuredSolutionDocument) : String :=
  lib.dump (serializeSolutionDocument document) ++ "\n"

end text

/-! ### Fingerprints -/

/-- `std::hex << std::setw(16) << std::setfill('0')`. -/
def hex16 (value : UInt64) : String :=
  String.ofList (List.leftpad 16 '0' (Nat.toDigits 16 value.toNat))

def fnv1a64Step (hash : UInt64) (byte : UInt8) : UInt64 :=
  (hash ^^^ byte.toUInt64) * 1099511628211

/-- `Fnv1a64`, over the bytes of the text. -/
def fnv1a64 (value : String) : String :=
  hex16 (value.toUTF8.toList.foldl fnv1a64Step 14695981039346656037)

/-- `FingerprintStructuredProblem`. -/
def fingerprintStructuredProblem (lib : JsonText) (document : StructuredProblemDocument) :
    Except Exception String :=
  match validateStructuredProblemDocument document with
  | error :: _ =>
      .error (.invalidArgument ("cannot fingerprint invalid structured problem: " ++ error))
  | [] => do
      let output ← writeStructuredProblemJson lib document
      .ok (fnv1a64 output)

/-- `BuildStructuredSolutionDocument`. -/
def buildStructuredSolutionDocument (lib : JsonText) (problem : StructuredProblemDocument)
    (solution : DsaSolution) (metadata : Metadata) :
    Except Exception StructuredSolutionDocument :=
  match validateSolution problem.problem solution with
  | error :: _ =>
      .error (.invalidArgument ("cannot serialize invalid structured solution: " ++ error))
  | [] => do
      let fingerprint ← fingerprintStructuredProblem lib problem
      .ok ⟨problem.schemaVersion, problem.profile, problem.instanceName, fingerprint, metadata,
        solution⟩

/-- `ValidateAndExtractStructuredSolution`. -/
def validateAndExtractStructuredSolution (lib : JsonText) (problem : StructuredProblemDocument)
    (document : StructuredSolutionDocument) : Except Exception DsaSolution :=
  if document.schemaVersion ≠ problem.schemaVersion then
    .error (.invalidArgument "solution schema version does not match the structured problem")
  else if document.profile ≠ problem.profile then
    .error (.invalidArgument "solution profile does not match the structured problem")
  else if document.instanceName ≠ problem.instanceName then
    .error (.invalidArgument ("solution instance '" ++ document.instanceName ++
      "' does not match structured problem '" ++ problem.instanceName ++ "'"))
  else do
    let expected ← fingerprintStructuredProblem lib problem
    if document.problemFingerprint ≠ expected then
      .error (.invalidArgument ("solution problem fingerprint '" ++ document.problemFingerprint ++
        "' does not match expected fingerprint '" ++ expected ++ "'"))
    else
      match validateSolution problem.problem document.solution with
      | error :: _ =>
          .error (.invalidArgument ("replayed structured solution is invalid: " ++ error))
      | [] => .ok document.solution

end Dsa
