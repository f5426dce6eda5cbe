import DsaSolver.PlacementEngine
import DsaSolver.StructuredJson
import Mathlib.Data.List.Sort

/-! # Architectures

`architecture.cpp`: the architecture specification, its validation, the unbound programs, their
fingerprints, and `BindArchitecture`.  `std::sort` is an insertion sort; the lists sorted by name
have distinct names when the sort is reached. -/

namespace Dsa

open Theory

def kArchitectureSpecSchemaVersion : UInt32 := 1

structure ArchitectureMemorySpace where
  /-- Matches the name of a pool. -/
  logicalSpace : String := ""
  usableCapacity : UInt64 := 0
  physicalCapacity : Option UInt64 := none
  minimumAlignment : UInt64 := 1
  reservedRanges : List AddressRange := []
  bankGeometry : Option BankGeometry := none
deriving DecidableEq, Repr

structure ArchitectureSpec where
  schemaVersion : UInt32 := kArchitectureSpecSchemaVersion
  architectureId : String := ""
  supportedLoweringAbis : List String := []
  metadata : Metadata := ∅
  memorySpaces : List ArchitectureMemorySpace := []

def ArchitectureSpec.findMemorySpace (architecture : ArchitectureSpec) (logicalSpace : String) :
    Option ArchitectureMemorySpace :=
  architecture.memorySpaces.find? fun space => space.logicalSpace == logicalSpace

/-! ### Validation -/

def abiErrors : List String → List String → List String
  | _, [] => []
  | abis, abi :: rest =>
      errorIf (abi == "") "architecture has an empty lowering ABI" ++
        errorIf (abis.contains abi) ("architecture repeats lowering ABI '" ++ abi ++ "'") ++
        abiErrors (abi :: abis) rest

def spaceRangeErrors (space : ArchitectureMemorySpace) (range : AddressRange) : List String :=
  errorIf (range.first ≥ range.last || range.last > space.usableCapacity)
    ("memory space '" ++ space.logicalSpace ++ "' has an invalid reserved range")

def memorySpaceErrors : List String → List ArchitectureMemorySpace → List String
  | _, [] => []
  | spaces, space :: rest =>
      errorIf (space.logicalSpace == "") "architecture has an unnamed memory space" ++
        errorIf (spaces.contains space.logicalSpace)
          ("architecture repeats memory space '" ++ space.logicalSpace ++ "'") ++
        errorIf (space.usableCapacity == 0)
          ("memory space '" ++ space.logicalSpace ++ "' has zero usable capacity") ++
        errorIf (match space.physicalCapacity with
            | some physical => decide (physical < space.usableCapacity)
            | none => false)
          ("memory space '" ++ space.logicalSpace ++
            "' has physical capacity below usable capacity") ++
        errorIf (space.minimumAlignment == 0)
          ("memory space '" ++ space.logicalSpace ++ "' has zero alignment") ++
        space.reservedRanges.flatMap (spaceRangeErrors space) ++
        errorIf (match space.bankGeometry with
            | some geometry => geometry.bankSize == 0 || geometry.numBanks == 0
            | none => false)
          ("memory space '" ++ space.logicalSpace ++ "' has invalid bank geometry") ++
        memorySpaceErrors (space.logicalSpace :: spaces) rest

/-- `ValidateArchitectureSpec`. -/
def validateArchitectureSpec (architecture : ArchitectureSpec) : List String :=
  errorIf (architecture.schemaVersion != kArchitectureSpecSchemaVersion)
      ("unsupported architecture schema version " ++ toString architecture.schemaVersion) ++
    errorIf (architecture.architectureId == "") "architecture_id is empty" ++
    errorIf architecture.supportedLoweringAbis.isEmpty
      "architecture has no supported lowering ABI" ++
    abiErrors [] architecture.supportedLoweringAbis ++
    errorIf architecture.memorySpaces.isEmpty "architecture has no memory spaces" ++
    memorySpaceErrors [] architecture.memorySpaces

def unboundPoolErrors : List String → List Pool → List String
  | _, [] => []
  | poolNames, pool :: rest =>
      errorIf (pool.name == "") "unbound program has an unnamed pool" ++
        errorIf (poolNames.contains pool.name)
          ("unbound program repeats pool name '" ++ pool.name ++ "'") ++
        errorIf pool.capacity.isSome
          ("unbound program pool '" ++ pool.name ++ "' already has a capacity") ++
        errorIf pool.bankGeometry.isSome
          ("unbound program pool '" ++ pool.name ++ "' already has architecture bank geometry") ++
        unboundPoolErrors (pool.name :: poolNames) rest

/-- `ValidateUnboundProgram`. -/
def validateUnboundProgram (program : StructuredProblemDocument) : List String :=
  validateStructuredProblemDocument program ++
    errorIf (!isPyptoProfile program.profile)
      "architecture binding requires a PyPTO program profile" ++
    errorIf (program.metadata.getD "lowering_abi" "" == "")
      "unbound program requires non-empty metadata.lowering_abi" ++
    (["target", "architecture_id", "architecture_fingerprint_fnv1a64",
        "program_fingerprint_fnv1a64"].flatMap fun key =>
      errorIf (program.metadata.contains key)
        ("unbound program cannot contain metadata." ++ key)) ++
    unboundPoolErrors [] program.problem.pools

/-! ### Alignments and ranges -/

/-- The `LeastCommonMultiple` of this file, which throws where that of the placement engine
returns nothing. -/
def leastCommonMultipleOrThrow (first second : UInt64) : Except Exception UInt64 :=
  match leastCommonMultiple first second with
  | some multiple => .ok multiple
  | none => .error (.overflowError "combined program/architecture alignment overflows uint64")

/-- `std::tie(first.begin, first.end) ≤ std::tie(second.begin, second.end)`. -/
def rangeBefore (first second : AddressRange) : Prop :=
  first.first < second.first ∨ first.first = second.first ∧ first.last ≤ second.last

instance (first second : AddressRange) : Decidable (rangeBefore first second) :=
  inferInstanceAs (Decidable (_ ∨ _ ∧ _))

/-- One step of the loop of `MergeRanges`; the result is kept with its back in front. -/
def mergeStep (result : List AddressRange) (range : AddressRange) : List AddressRange :=
  match result with
  | [] => [range]
  | back :: rest =>
      if back.last < range.first then range :: back :: rest
      else ⟨back.first, max back.last range.last⟩ :: rest

/-- `MergeRanges`. -/
def mergeRanges (ranges : List AddressRange) : List AddressRange :=
  ((ranges.insertionSort rangeBefore).foldl mergeStep []).reverse

/-! ### Fingerprints -/

def writeMemorySpace (space : ArchitectureMemorySpace) : Json :=
  .ofMembers ([("logical_space", .string space.logicalSpace),
    ("usable_capacity", .unsigned space.usableCapacity),
    ("physical_capacity", writeCapacity space.physicalCapacity),
    ("minimum_alignment", .unsigned space.minimumAlignment),
    ("reserved_ranges", .array (space.reservedRanges.map writeAddressRange))] ++
    optionalMember "bank_geometry" writeBankGeometry space.bankGeometry)

/-- `SerializeArchitecture`. -/
def serializeArchitecture (architecture : ArchitectureSpec) : Except Exception Json :=
  match validateArchitectureSpec architecture with
  | error :: _ =>
      .error (.invalidArgument ("cannot serialize invalid architecture specification: " ++ error))
  | [] =>
      .ok (.ofMembers [("schema_version", writeUInt32 architecture.schemaVersion),
        ("architecture_id", .string architecture.architectureId),
        ("supported_lowering_abis",
          .array (architecture.supportedLoweringAbis.map .string)),
        ("metadata", writeMetadata architecture.metadata),
        ("memory_spaces", .array (architecture.memorySpaces.map writeMemorySpace))])

/-- The metadata that `CanonicalProgram` keeps. -/
def canonicalMetadata (metadata : Metadata) : Metadata :=
  ["lifetime_ordering", "solver_input", "lowering_abi"].foldl
    (fun canonical key =>
      match metadata[key]? with
      | some value => canonical.insertIfNew key value
      | none => canonical) ∅

/-- The pools without their resources, sorted by name. -/
def canonicalPools (pools : List Pool) : List Pool :=
  (pools.map fun pool => { pool with capacity := none, bankGeometry := none }).insertionSort
    fun first second => first.name ≤ second.name

/-- `remap_pool`, the index of the pool among the sorted pools. -/
def remapPool (pools : List Pool) (pool : PoolId) : Except Exception PoolId :=
  match pools.findIdx? fun candidate => candidate.id == pool with
  | some index => .ok (UInt32.ofNat index)
  | none => .error (.logicError "validated program references an unknown pool")

/-- `CanonicalProgram`. -/
def canonicalProgram (program : StructuredProblemDocument) :
    Except Exception StructuredProblemDocument := do
  let pools := canonicalPools program.problem.pools
  let buffers ← program.problem.buffers.mapM fun buffer => do
    let allowedPools ← buffer.allowedPools.mapM (remapPool pools)
    .ok { buffer with allowedPools := allowedPools.insertionSort (· ≤ ·) }
  let pins ← program.problem.pinnedAllocations.mapM fun pin => do
    let pool ← remapPool pools pin.pool
    .ok { pin with pool }
  let pypto ← match program.problem.pyptoStructure with
    | none => .ok none
    | some pypto => do
        let groups ← pypto.pipelineGroups.mapM fun group => do
          let pool ← remapPool pools group.pool
          .ok { group with pool }
        .ok (some { pypto with pipelineGroups := groups })
  .ok { program with
    instanceName := "program"
    metadata := canonicalMetadata program.metadata
    problem := { program.problem with
      pools := pools.mapIdx fun index pool => { pool with id := UInt32.ofNat index }
      buffers := buffers
      pinnedAllocations := pins
      pyptoStructure := pypto } }

/-- `CanonicalArchitecture`. -/
def canonicalArchitecture (architecture : ArchitectureSpec) : ArchitectureSpec :=
  { architecture with
    supportedLoweringAbis := architecture.supportedLoweringAbis.insertionSort (· ≤ ·)
    memorySpaces :=
      (architecture.memorySpaces.insertionSort fun first second =>
        first.logicalSpace ≤ second.logicalSpace).map fun space =>
          { space with reservedRanges := mergeRanges space.reservedRanges } }

section bind

variable (lib : JsonText)

/-- `FingerprintUnboundProgram`. -/
def fingerprintUnboundProgram (program : StructuredProblemDocument) : Except Exception String :=
  match validateUnboundProgram program with
  | error :: _ =>
      .error (.invalidArgument ("cannot fingerprint invalid unbound program: " ++ error))
  | [] => do
      let canonical ← canonicalProgram program
      let output ← writeStructuredProblemJson lib canonical
      .ok (fnv1a64 output)

/-- `FingerprintArchitectureSpec`. -/
def fingerprintArchitectureSpec (architecture : ArchitectureSpec) : Except Exception String := do
  let root ← serializeArchitecture (canonicalArchitecture architecture)
  .ok (fnv1a64 (lib.dump root ++ "\n"))

/-! ### Binding -/

def alignBuffer (pool : PoolId) (alignment : UInt64) (buffer : Buffer) : Except Exception Buffer :=
  if poolAllowed buffer pool then do
    let multiple ← leastCommonMultipleOrThrow buffer.alignment alignment
    .ok { buffer with alignment := multiple }
  else .ok buffer

/-- The loop over the buffers for one pool and its memory space. -/
def alignBuffers (pool : PoolId) (alignment : UInt64) : List Buffer → Except Exception (List Buffer)
  | [] => .ok []
  | buffer :: rest => do
      let aligned ← alignBuffer pool alignment buffer
      let others ← alignBuffers pool alignment rest
      .ok (aligned :: others)

/-- A pool with the resources of its memory space. -/
def bindPool (pool : Pool) (space : ArchitectureMemorySpace) : Pool :=
  { pool with
    capacity := some space.usableCapacity
    reservedRanges := mergeRanges (pool.reservedRanges ++ space.reservedRanges)
    bankGeometry := space.bankGeometry }

/-- The loop over the pools. -/
def bindPools (architecture : ArchitectureSpec) :
    List Pool → List Buffer → Except Exception (List Pool × List Buffer)
  | [], buffers => .ok ([], buffers)
  | pool :: rest, buffers =>
      match architecture.findMemorySpace pool.name with
      | none =>
          .error (.invalidArgument ("architecture '" ++ architecture.architectureId ++
            "' does not define logical space '" ++ pool.name ++ "'"))
      | some space => do
          let aligned ← alignBuffers pool.id space.minimumAlignment buffers
          let (pools, bound) ← bindPools architecture rest aligned
          .ok (bindPool pool space :: pools, bound)

/-- `BindArchitecture`. -/
def bindArchitecture (program : StructuredProblemDocument) (architecture : ArchitectureSpec) :
    Except Exception StructuredProblemDocument :=
  match validateUnboundProgram program, validateArchitectureSpec architecture with
  | error :: _, _ =>
      .error (.invalidArgument ("cannot bind invalid unbound program: " ++ error))
  | [], error :: _ =>
      .error (.invalidArgument ("cannot bind invalid architecture: " ++ error))
  | [], [] =>
      let loweringAbi := program.metadata.getD "lowering_abi" ""
      if !architecture.supportedLoweringAbis.contains loweringAbi then
        .error (.invalidArgument ("architecture '" ++ architecture.architectureId ++
          "' does not support lowering ABI '" ++ loweringAbi ++ "'"))
      else do
        let (pools, buffers) ←
          bindPools architecture program.problem.pools program.problem.buffers
        let programFingerprint ← fingerprintUnboundProgram lib program
        let architectureFingerprint ← fingerprintArchitectureSpec lib architecture
        let bound : StructuredProblemDocument :=
          { program with
            instanceName := program.instanceName ++ "@" ++ architecture.architectureId
            metadata := (((program.metadata.insert "architecture_id"
              architecture.architectureId).insert "architecture_fingerprint_fnv1a64"
              architectureFingerprint).insert "program_fingerprint_fnv1a64"
              programFingerprint).insert "target" architecture.architectureId
            problem := { program.problem with pools := pools, buffers := buffers } }
        match validateStructuredProblemDocument bound with
        | [] => .ok bound
        | error :: _ =>
            .error (.invalidArgument ("architecture binding produced an invalid problem: " ++
              error))

end bind

end Dsa
