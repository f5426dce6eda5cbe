import DsaSolver.JsonRoundTrip
import DsaSolver.SuiteInstances
import DsaSolver.Theory.Lines

/-! # Raw results

`RecordJson`, `WriteRawResults`, `ReadRawResults`, `Summarize` and `RewriteReport` of
`dsa_suite.cpp`.  A run is written as one JSON object a line and read back line by line.  An
`ordered_json` keeps its members in the order they are set. -/

namespace Dsa

open Theory

/-! ### Records -/

structure RunRecord where
  instanceName : String := ""
  profile : String := ""
  source : String := ""
  method : String := ""
  comparisonScope : String := ""
  status : String := ""
  relaxedFrom : Option String := none
  seed : Option UInt64 := none
  capacity : Option UInt64 := none
  peak : Option UInt64 := none
  totalPeak : Option UInt64 := none
  capacityOverflow : Option UInt64 := none
  reuseCost : Option UInt64 := none
  bankCost : Option UInt64 := none
  backtracks : Option UInt64 := none
  runtimeUs : UInt64 := 0
  buffers : UInt64 := 0
  placementValid : Bool := false
  solutionValid : Bool := false
  structurallyCompatible : Bool := true
  objectiveCompatible : Bool := true
  certifiedOptimal : Bool := false
  target : String := ""
  features : List String := []
  relaxedFeatures : List String := []
  diagnostics : List String := []
  solverMetrics : Std.ExtTreeMap String UInt64 := ∅
  objectiveScore : List UInt64 := []
  metadata : Metadata := ∅

/-- The value of an optional field, `null` when it is absent. -/
def putOptional {α : Type} (write : α → Json) : Option α → Json
  | some value => write value
  | none => .null

def writeStrings (values : List String) : Json := .array (values.map .string)

def writeNumbers (values : List UInt64) : Json := .array (values.map .unsigned)

/-- `RecordJson`. -/
def recordJson (runLabel : String) (record : RunRecord) : Json :=
  .object [("run_label", .string runLabel),
    ("instance", .string record.instanceName),
    ("schema_version", writeUInt32 kStructuredProblemSchemaVersion),
    ("profile", .string record.profile),
    ("source", .string record.source),
    ("method", .string record.method),
    ("comparison_scope", .string record.comparisonScope),
    ("status", .string record.status),
    ("buffers", .unsigned record.buffers),
    ("capacity", putOptional .unsigned record.capacity),
    ("peak", putOptional .unsigned record.peak),
    ("total_peak", putOptional .unsigned record.totalPeak),
    ("capacity_overflow", putOptional .unsigned record.capacityOverflow),
    ("reuse_cost", putOptional .unsigned record.reuseCost),
    ("bank_cost", putOptional .unsigned record.bankCost),
    ("backtracks", putOptional .unsigned record.backtracks),
    ("seed", putOptional .unsigned record.seed),
    ("runtime_us", .unsigned record.runtimeUs),
    ("placement_valid", .boolean record.placementValid),
    ("solution_valid", .boolean record.solutionValid),
    ("structurally_compatible", .boolean record.structurallyCompatible),
    ("objective_compatible", .boolean record.objectiveCompatible),
    ("certified_optimal", .boolean record.certifiedOptimal),
    ("target", if record.target = "" then .null else .string record.target),
    ("features", writeStrings record.features),
    ("relaxed_features", writeStrings record.relaxedFeatures),
    ("diagnostics", writeStrings record.diagnostics),
    ("solver_metrics", .object (record.solverMetrics.toList.map fun e => (e.1, .unsigned e.2))),
    ("objective_score", writeNumbers record.objectiveScore),
    ("metadata", writeMetadata record.metadata),
    ("relaxed_from", putOptional .string record.relaxedFrom)]

/-! ### Reading -/

/-- The JSON library with the texts of what its accessors throw. -/
structure JsonLibrary extends JsonText where
  atWhat : Json → String → String
  getWhat : Json → String → String

section reading

variable (lib : JsonLibrary) {α : Type}

/-- `json.at(key)`. -/
def jsonAt (json : Json) (key : String) : Except String Json :=
  match json.find key with
  | some value => .ok value
  | none => .error (lib.atWhat json key)

/-- `get<std::string>()`. -/
def getString (value : Json) : Except String String :=
  match value with
  | .string text => .ok text
  | _ => .error (lib.getWhat value "string")

/-- `get<bool>()`. -/
def getBool (value : Json) : Except String Bool :=
  match value with
  | .boolean flag => .ok flag
  | _ => .error (lib.getWhat value "boolean")

/-- `get<std::uint64_t>()`, a `static_cast` of any number. -/
def getNumber (value : Json) : Except String UInt64 :=
  match value with
  | .unsigned number => .ok number
  | .signed number => .ok number.toUInt64
  | .float number => .ok number.toUInt64
  | _ => .error (lib.getWhat value "number")

/-- `get<std::vector<T>>()`. -/
def getVector (get : Json → Except String α) (value : Json) : Except String (List α) :=
  match value with
  | .array items => items.mapM get
  | _ => .error (lib.getWhat value "array")

/-- `get<std::map<std::string, T>>()`. -/
def getMap (get : Json → Except String α) (value : Json) :
    Except String (Std.ExtTreeMap String α) :=
  match value with
  | .object members => members.foldlM
      (fun map member => do return map.insertIfNew member.1 (← get member.2)) ∅
  | _ => .error (lib.getWhat value "object")

/-- `json.at(key).get<T>()`. -/
def getAt (get : Json → Except String α) (json : Json) (key : String) : Except String α := do
  get (← jsonAt lib json key)

/-- `OptionalJsonValue`. -/
def optionalJsonValue (get : Json → Except String α) (json : Json) (key : String) :
    Except String (Option α) :=
  match json.find key with
  | none => .ok none
  | some value => if value.isNull then .ok none else return some (← get value)

/-- `RunRecordFromJson`. -/
def runRecordFromJson (json : Json) : Except String RunRecord := do
  let instanceName ← getAt lib (getString lib) json "instance"
  let profile ← getAt lib (getString lib) json "profile"
  let source ← getAt lib (getString lib) json "source"
  let method ← getAt lib (getString lib) json "method"
  let comparisonScope ← getAt lib (getString lib) json "comparison_scope"
  let status ← getAt lib (getString lib) json "status"
  let relaxedFrom ← optionalJsonValue (getString lib) json "relaxed_from"
  let seed ← optionalJsonValue (getNumber lib) json "seed"
  let capacity ← optionalJsonValue (getNumber lib) json "capacity"
  let peak ← optionalJsonValue (getNumber lib) json "peak"
  let totalPeak ← optionalJsonValue (getNumber lib) json "total_peak"
  let capacityOverflow ← optionalJsonValue (getNumber lib) json "capacity_overflow"
  let reuseCost ← optionalJsonValue (getNumber lib) json "reuse_cost"
  let bankCost ← optionalJsonValue (getNumber lib) json "bank_cost"
  let backtracks ← optionalJsonValue (getNumber lib) json "backtracks"
  let runtimeUs ← getAt lib (getNumber lib) json "runtime_us"
  let buffers ← getAt lib (getNumber lib) json "buffers"
  let placementValid ← getAt lib (getBool lib) json "placement_valid"
  let solutionValid ← getAt lib (getBool lib) json "solution_valid"
  let structurallyCompatible ← getAt lib (getBool lib) json "structurally_compatible"
  let objectiveCompatible ← getAt lib (getBool lib) json "objective_compatible"
  let certifiedOptimal ← getAt lib (getBool lib) json "certified_optimal"
  let target := (← optionalJsonValue (getString lib) json "target").getD ""
  let features ← getAt lib (getVector lib (getString lib)) json "features"
  let relaxedFeatures ← getAt lib (getVector lib (getString lib)) json "relaxed_features"
  let diagnostics ← getAt lib (getVector lib (getString lib)) json "diagnostics"
  let solverMetrics ← match json.find "solver_metrics" with
    | some value => getMap lib (getNumber lib) value
    | none => .ok ∅
  let objectiveScore ← getAt lib (getVector lib (getNumber lib)) json "objective_score"
  let metadata ← getAt lib (getMap lib (getString lib)) json "metadata"
  return ⟨instanceName, profile, source, method, comparisonScope, status, relaxedFrom, seed,
    capacity, peak, totalPeak, capacityOverflow, reuseCost, bankCost, backtracks, runtimeUs,
    buffers, placementValid, solutionValid, structurallyCompatible, objectiveCompatible,
    certifiedOptimal, target, features, relaxedFeatures, diagnostics, solverMetrics,
    objectiveScore, metadata⟩

/-- A line with its number: an empty one is skipped. -/
def readLine (path : String) (records : List RunRecord) (line : List Char × ℕ) :
    Except Exception (List RunRecord) :=
  if line.1 = [] then .ok records
  else
    match (do runRecordFromJson lib (← lib.parse (String.ofList line.1)) : Except String RunRecord)
      with
    | .ok record => .ok (records ++ [record])
    | .error what => throwRuntime
        ("invalid raw result at " ++ path ++ ":" ++ toString line.2 ++ ": " ++ what)

/-- `ReadRawResults`, of the text of the file. -/
def readRawResults (path text : String) : Except Exception (List RunRecord) := do
  let records ← ((linesOf '\n' text.toList).zipIdx 1).foldlM (readLine lib path) []
  if records.isEmpty then throwRuntime ("raw results are empty: " ++ path) else return records

/-- `WriteRawResults`, the text of the file. -/
def writeRawResults (runLabel : String) (records : List RunRecord) : String :=
  records.foldl (fun output record => output ++ lib.dump (recordJson runLabel record) ++ "\n") ""

end reading

/-! ### Summaries -/

structure Summary where
  instanceName : String := ""
  profile : String := ""
  source : String := ""
  corpusFamily : String := ""
  corpusSourcePath : String := ""
  method : String := ""
  comparisonScope : String := ""
  status : String := ""
  relaxedFrom : Option String := none
  capacity : Option UInt64 := none
  best : Option RunRecord := none
  runs : ℕ := 0
  feasibleRuns : ℕ := 0
  placementValidRuns : ℕ := 0
  validRuns : ℕ := 0
  medianRuntimeUs : UInt64 := 0
  certifiedOptimal : Bool := false
  target : String := ""
  features : List String := []

/-- `HasUsableSolution`. -/
def hasUsableSolution (record : RunRecord) : Bool := record.placementValid && record.peak.isSome

/-- `IsFeasible`. -/
def isFeasible (record : RunRecord) : Bool :=
  record.solutionValid && (record.status == "feasible" || record.status == "optimal")

/-- `std::lexicographical_compare`. -/
def lexicographicalCompare : List UInt64 → List UInt64 → Bool
  | _, [] => false
  | [], _ :: _ => true
  | a :: first, b :: second =>
      if a < b then true else if b < a then false else lexicographicalCompare first second

/-- `BetterRecord`. -/
def betterRecord (first second : RunRecord) : Bool :=
  if isFeasible first != isFeasible second then isFeasible first
  else if hasUsableSolution first != hasUsableSolution second then hasUsableSolution first
  else if first.objectiveScore != second.objectiveScore then
    lexicographicalCompare first.objectiveScore second.objectiveScore
  else decide (first.runtimeUs < second.runtimeUs)

/-- `SummaryKey`. -/
def summaryKey (record : RunRecord) : List String :=
  [record.instanceName, record.profile, record.method, record.comparisonScope]

/-- The body of the loop over the records of a group. -/
def summarizeRecord (summary : Summary) (record : RunRecord) : Summary :=
  { summary with
    feasibleRuns := summary.feasibleRuns + if isFeasible record then 1 else 0
    placementValidRuns := summary.placementValidRuns + if record.placementValid then 1 else 0
    validRuns := summary.validRuns + if record.solutionValid then 1 else 0
    best :=
      match summary.best with
      | none => some record
      | some best => if betterRecord record best then some record else some best
    certifiedOptimal := summary.certifiedOptimal || record.certifiedOptimal }

/-- The summary of a group, `front` its first record. -/
def summarizeGroup (front : RunRecord) (group : List RunRecord) : Summary :=
  let summary := group.foldl summarizeRecord
    { instanceName := front.instanceName
      profile := front.profile
      method := front.method
      comparisonScope := front.comparisonScope
      source := front.source
      corpusFamily := front.metadata.getD "corpus_family" ""
      corpusSourcePath := front.metadata.getD "corpus_source_path" ""
      relaxedFrom := front.relaxedFrom
      capacity := front.capacity
      target := front.target
      features := front.features
      runs := group.length }
  let runtimes := ((group.filter fun record =>
    record.status != "not_run" && record.status != "unavailable").map
      RunRecord.runtimeUs).insertionSort (· ≤ ·)
  { summary with
    medianRuntimeUs := runtimes.getD (runtimes.length / 2) 0
    status := (summary.best.map RunRecord.status).getD "missing" }

/-- `Summarize`: the groups in the order of their keys. -/
def summarizeRecords (records : List RunRecord) : List Summary :=
  let groups := records.foldl
    (fun groups record =>
      groups.insert (summaryKey record) (groups.getD (summaryKey record) [] ++ [record]))
    (∅ : Std.TreeMap (List String) (List RunRecord))
  groups.toList.map fun entry => summarizeGroup (entry.2.headD {}) entry.2

/-- The checks of `RewriteReport`: the records are those of the instances. -/
def requireSameRun (standardOnly : Bool) (instances : List Instance) (records : List RunRecord) :
    Except Exception Unit := do
  records.forM fun record =>
    if standardOnly && record.capacity.isSome then
      throwRuntime ("--report-only found a capacity-bearing result for " ++ record.instanceName)
    else .ok ()
  let expected := instances.map fun loaded =>
    (loaded.document.instanceName, loaded.document.profile.toString)
  let actual := records.map fun record => (record.instanceName, record.profile)
  if actual.all expected.contains && expected.all actual.contains then .ok ()
  else throwRuntime "--report-only inputs do not match the instance set in results.jsonl"

/-- `RewriteReport` up to the summaries that it writes. -/
def rewriteReport (lib : JsonLibrary) (standardOnly : Bool) (instances : List Instance)
    (path text : String) : Except Exception (List Summary) := do
  let records ← readRawResults lib path text
  requireSameRun standardOnly instances records
  return summarizeRecords records

/-! ### The round trip -/

/-- The text of a value is one line that is not empty and parses to the value. -/
structure JsonText.OneLine (lib : JsonText) (value : Json) : Prop where
  parses : lib.parse (lib.dump value) = .ok value.reread
  notEmpty : lib.dump value ≠ ""
  noNewline : '\n' ∉ (lib.dump value).toList

section roundTrip

variable (lib : JsonLibrary)

/-- No number of a record is signed. -/
theorem reread_recordJson (runLabel : String) (record : RunRecord) :
    (recordJson runLabel record).reread = recordJson runLabel record := by
  have hstring : ∀ value : Option String, (putOptional Json.string value).reread =
      putOptional Json.string value := by
    rintro (_ | value) <;> rfl
  have hnumber : ∀ value : Option UInt64, (putOptional Json.unsigned value).reread =
      putOptional Json.unsigned value := by
    rintro (_ | value) <;> rfl
  have htarget : (if record.target = "" then Json.null else .string record.target).reread =
      if record.target = "" then Json.null else .string record.target := by
    split_ifs <;> rfl
  simp [recordJson, Json.reread, Json.rereadMembers, hstring, hnumber, htarget, writeStrings,
    writeNumbers, writeMetadata, writeUInt32, Json.rereadItems_eq_map, Json.rereadMembers_eq_map,
    List.map_map, Function.comp_def]

theorem mapM_get {α : Type} {get : Json → Except String α} {write : α → Json}
    (h : ∀ value, get (write value) = .ok value) (values : List α) :
    (values.map write).mapM get = .ok values := by
  induction values with
  | nil => rfl
  | cons value rest ih =>
      rw [List.map_cons, List.mapM_cons, h, ok_bind, ih]
      rfl

theorem foldlM_getMap {α : Type} {get : Json → Except String α} {write : α → Json}
    (h : ∀ value, get (write value) = .ok value) (entries : List (String × α))
    (map : Std.ExtTreeMap String α) :
    (entries.map fun e => (e.1, write e.2)).foldlM
        (fun (map : Std.ExtTreeMap String α) member => do
          return map.insertIfNew member.1 (← get member.2)) map =
      (.ok (entries.foldl (fun map e => map.insertIfNew e.1 e.2) map) : Except String _) := by
  induction entries generalizing map with
  | nil => rfl
  | cons entry rest ih =>
      rw [List.map_cons, List.foldlM_cons, h]
      exact ih _

theorem getMap_write {α : Type} {get : Json → Except String α} {write : α → Json}
    (h : ∀ value, get (write value) = .ok value) (map : Std.ExtTreeMap String α) :
    getMap lib get (.object (map.toList.map fun e => (e.1, write e.2))) = .ok map := by
  rw [getMap, foldlM_getMap h, foldl_insertIfNew_toList]

variable {lib} {α : Type}

theorem getAt_of_find {get : Json → Except String α} {write : α → Json} {json : Json} {key : String}
    {value : α} (hget : get (write value) = .ok value) (h : json.find key = some (write value)) :
    getAt lib get json key = .ok value := by
  rw [getAt, jsonAt, h, ok_bind, hget]

theorem optionalJsonValue_of_find {get : Json → Except String α} {write : α → Json} {json : Json}
    {key : String} {value : Option α} (hget : ∀ value, get (write value) = .ok value)
    (hnull : ∀ value, (write value).isNull = false)
    (h : json.find key = some (putOptional write value)) :
    optionalJsonValue get json key = .ok value := by
  unfold optionalJsonValue
  rw [h]
  cases value with
  | none => rfl
  | some value => simp [putOptional, hnull, hget]

/-- An empty target is written as `null`. -/
theorem optionalTarget_of_find {json : Json} {target : String}
    (h : json.find "target" = some (if target = "" then .null else .string target)) :
    ∃ value, optionalJsonValue (getString lib) json "target" = .ok value ∧
      value.getD "" = target := by
  unfold optionalJsonValue
  rw [h]
  split_ifs with hempty
  · exact ⟨none, rfl, hempty.symm⟩
  · exact ⟨some target, rfl, rfl⟩

theorem getMetadata_write (metadata : Metadata) :
    getMap lib (getString lib) (writeMetadata metadata) = .ok metadata := by
  have hget : ∀ value, getString lib (.string value) = .ok value := fun _ => rfl
  exact getMap_write lib hget metadata

theorem getMetrics_write (metrics : Std.ExtTreeMap String UInt64) :
    getMap lib (getNumber lib) (.object (metrics.toList.map fun e => (e.1, .unsigned e.2))) =
      .ok metrics := by
  have hget : ∀ value, getNumber lib (.unsigned value) = .ok value := fun _ => rfl
  exact getMap_write lib hget metrics

theorem getStrings_write (values : List String) :
    getVector lib (getString lib) (writeStrings values) = .ok values := by
  have hget : ∀ value, getString lib (.string value) = .ok value := fun _ => rfl
  exact mapM_get hget values

theorem getNumbers_write (values : List UInt64) :
    getVector lib (getNumber lib) (writeNumbers values) = .ok values := by
  have hget : ∀ value, getNumber lib (.unsigned value) = .ok value := fun _ => rfl
  exact mapM_get hget values

/-- Every field of a record is read as it was written. -/
theorem runRecordFromJson_recordJson (runLabel : String) (record : RunRecord) :
    runRecordFromJson lib (recordJson runLabel record) = .ok record := by
  have hstring : ∀ key value, (recordJson runLabel record).find key = some (.string value) →
      getAt lib (getString lib) (recordJson runLabel record) key = .ok value :=
    fun _ _ => getAt_of_find rfl
  have hnumber : ∀ key value, (recordJson runLabel record).find key = some (.unsigned value) →
      getAt lib (getNumber lib) (recordJson runLabel record) key = .ok value :=
    fun _ _ => getAt_of_find rfl
  have hbool : ∀ key value, (recordJson runLabel record).find key = some (.boolean value) →
      getAt lib (getBool lib) (recordJson runLabel record) key = .ok value :=
    fun _ _ => getAt_of_find rfl
  have hstrings : ∀ key value,
      (recordJson runLabel record).find key = some (writeStrings value) →
        getAt lib (getVector lib (getString lib)) (recordJson runLabel record) key = .ok value :=
    fun _ _ => getAt_of_find (getStrings_write _)
  have hoptional : ∀ key value,
      (recordJson runLabel record).find key = some (putOptional .unsigned value) →
        optionalJsonValue (getNumber lib) (recordJson runLabel record) key = .ok value :=
    fun _ _ => optionalJsonValue_of_find (fun _ => rfl) fun _ => rfl
  have hrelaxed : optionalJsonValue (getString lib) (recordJson runLabel record) "relaxed_from" =
      .ok record.relaxedFrom := optionalJsonValue_of_find (fun _ => rfl) (fun _ => rfl) rfl
  obtain ⟨target, htarget, htargetD⟩ :
      ∃ value, optionalJsonValue (getString lib) (recordJson runLabel record) "target" = .ok value ∧
        value.getD "" = record.target := optionalTarget_of_find rfl
  have hscore : getAt lib (getVector lib (getNumber lib)) (recordJson runLabel record)
      "objective_score" = .ok record.objectiveScore := getAt_of_find (getNumbers_write _) rfl
  have hmetadata : getAt lib (getMap lib (getString lib)) (recordJson runLabel record)
      "metadata" = .ok record.metadata := getAt_of_find (getMetadata_write _) rfl
  have hmetrics : (recordJson runLabel record).find "solver_metrics" =
      some (.object (record.solverMetrics.toList.map fun e => (e.1, .unsigned e.2))) := rfl
  unfold runRecordFromJson
  rw [hstring "instance" record.instanceName rfl, ok_bind,
    hstring "profile" record.profile rfl, ok_bind,
    hstring "source" record.source rfl, ok_bind,
    hstring "method" record.method rfl, ok_bind,
    hstring "comparison_scope" record.comparisonScope rfl, ok_bind,
    hstring "status" record.status rfl, ok_bind, hrelaxed, ok_bind,
    hoptional "seed" record.seed rfl, ok_bind,
    hoptional "capacity" record.capacity rfl, ok_bind,
    hoptional "peak" record.peak rfl, ok_bind,
    hoptional "total_peak" record.totalPeak rfl, ok_bind,
    hoptional "capacity_overflow" record.capacityOverflow rfl, ok_bind,
    hoptional "reuse_cost" record.reuseCost rfl, ok_bind,
    hoptional "bank_cost" record.bankCost rfl, ok_bind,
    hoptional "backtracks" record.backtracks rfl, ok_bind,
    hnumber "runtime_us" record.runtimeUs rfl, ok_bind,
    hnumber "buffers" record.buffers rfl, ok_bind,
    hbool "placement_valid" record.placementValid rfl, ok_bind,
    hbool "solution_valid" record.solutionValid rfl, ok_bind,
    hbool "structurally_compatible" record.structurallyCompatible rfl, ok_bind,
    hbool "objective_compatible" record.objectiveCompatible rfl, ok_bind,
    hbool "certified_optimal" record.certifiedOptimal rfl, ok_bind, htarget, ok_bind,
    hstrings "features" record.features rfl, ok_bind,
    hstrings "relaxed_features" record.relaxedFeatures rfl, ok_bind,
    hstrings "diagnostics" record.diagnostics rfl, ok_bind, hmetrics]
  dsimp only
  rw [getMetrics_write, ok_bind, hscore, ok_bind, hmetadata, ok_bind, htargetD]
  rfl

/-- The characters written: the text of each record and a newline. -/
theorem toList_writeRawResults (runLabel : String) (records : List RunRecord) :
    (writeRawResults lib runLabel records).toList =
      (records.map fun record => (lib.dump (recordJson runLabel record)).toList).flatMap
        (· ++ ['\n']) := by
  have key : ∀ (records : List RunRecord) (output : String),
      (records.foldl (fun output record =>
        output ++ lib.dump (recordJson runLabel record) ++ "\n") output).toList =
        output.toList ++
          (records.map fun record => (lib.dump (recordJson runLabel record)).toList).flatMap
            (· ++ ['\n']) := by
    intro records
    induction records with
    | nil => simp
    | cons record rest ih =>
        intro output
        rw [List.foldl_cons, ih]
        simp [String.toList_append]
  have h := key records ""
  rwa [String.toList_empty, List.nil_append] at h

/-- A line that was written gives its record, at any number. -/
theorem readLine_written {runLabel : String} {record : RunRecord}
    (h : lib.OneLine (recordJson runLabel record)) (path : String) (number : ℕ)
    (records : List RunRecord) :
    readLine lib path records ((lib.dump (recordJson runLabel record)).toList, number) =
      .ok (records ++ [record]) := by
  unfold readLine
  have hne : (lib.dump (recordJson runLabel record)).toList ≠ [] :=
    fun hnil => h.notEmpty (String.toList_eq_nil_iff.mp hnil)
  have hparse : lib.parse (String.ofList (lib.dump (recordJson runLabel record)).toList) =
      .ok (recordJson runLabel record) := by
    rw [String.ofList_toList, h.parses, reread_recordJson]
  rw [if_neg hne]
  dsimp only
  rw [hparse, ok_bind, runRecordFromJson_recordJson]

theorem foldlM_readLine_written {runLabel : String} {records : List RunRecord}
    (h : ∀ record ∈ records, lib.OneLine (recordJson runLabel record)) (path : String) (number : ℕ)
    (done : List RunRecord) :
    ((records.map fun record => (lib.dump (recordJson runLabel record)).toList).zipIdx
        number).foldlM (readLine lib path) done = .ok (done ++ records) := by
  induction records generalizing number done with
  | nil => simp [pure, Except.pure]
  | cons record rest ih =>
      rw [List.forall_mem_cons] at h
      rw [List.map_cons, List.zipIdx_cons, List.foldlM_cons, readLine_written h.1, ok_bind,
        ih h.2, List.append_assoc, List.singleton_append]

theorem readRawResults_written {runLabel : String} {records : List RunRecord} (hne : records ≠ [])
    (h : ∀ record ∈ records, lib.OneLine (recordJson runLabel record)) (path : String) :
    readRawResults lib path (writeRawResults lib runLabel records) = .ok records := by
  have hlines : ∀ line ∈ records.map fun record =>
      (lib.dump (recordJson runLabel record)).toList, '\n' ∉ line := by
    intro line hline
    obtain ⟨record, hrecord, rfl⟩ := List.mem_map.mp hline
    exact (h record hrecord).noNewline
  unfold readRawResults
  rw [toList_writeRawResults, linesOf_flatMap hlines, foldlM_readLine_written h, ok_bind,
    List.nil_append, if_neg (by simpa using hne)]
  rfl

end roundTrip

/-- **Raw results survive the round trip.**  What is read back is the records written, in their
order, and a rebuilt report is that of the run. -/
theorem rawResults_roundTrip (lib : JsonLibrary) (runLabel : String) (records : List RunRecord)
    (hne : records ≠ []) (hlib : ∀ record ∈ records, lib.OneLine (recordJson runLabel record)) :
    ∀ path, readRawResults lib path (writeRawResults lib runLabel records) = .ok records ∧
      ∀ standardOnly instances,
        rewriteReport lib standardOnly instances path (writeRawResults lib runLabel records) = do
          requireSameRun standardOnly instances records
          return summarizeRecords records := by
  intro path
  have hread := readRawResults_written hne hlib path
  refine ⟨hread, fun standardOnly instances => ?_⟩
  rw [rewriteReport, hread, ok_bind]

/-! ### Two records -/

mutual

/-- `dump()`, the characters of the line. -/
def dumpLine : Json → List Char
  | .array items => ['['] ++ [','].intercalate (dumpLineItems items) ++ [']']
  | .object members => ['\x7b'] ++ [','].intercalate (dumpLineMembers members) ++ ['\x7d']
  | value => (value.dump 0).toList

def dumpLineItems : List Json → List (List Char)
  | [] => []
  | item :: rest => dumpLine item :: dumpLineItems rest

def dumpLineMembers : List (String × Json) → List (List Char)
  | [] => []
  | (key, value) :: rest =>
      ((Json.quote key).toList ++ [':'] ++ dumpLine value) :: dumpLineMembers rest

end

/-- A library that parses the lines of the given values. -/
def lineLibrary (known : List Json) : JsonLibrary where
  dump value := String.ofList (dumpLine value)
  parse input :=
    match known.find? fun value => input.toList == dumpLine value with
    | some value => .ok value.reread
    | none => .error "parse error"
  atWhat _ key := "[json.exception.out_of_range.403] key '" ++ key ++ "' not found"
  getWhat _ expected := "[json.exception.type_error.302] type must be " ++ expected

theorem lineLibrary_oneLine {known : List Json} {value : Json}
    (hfind : known.find? (fun other => dumpLine value == dumpLine other) = some value)
    (hne : dumpLine value ≠ []) (hnewline : '\n' ∉ dumpLine value) :
    (lineLibrary known).OneLine value := by
  refine ⟨?_, ?_, ?_⟩
  · simp [lineLibrary, hfind]
  · simpa [lineLibrary] using hne
  · simpa [lineLibrary] using hnewline

/-- A record with fields absent, a newline, an empty string and the largest number. -/
def feasibleRecord : RunRecord :=
  { instanceName := "second", profile := "standard_dsa", status := "feasible", seed := some 0
    relaxedFrom := some "", peak := some maxU64, diagnostics := ["a\nb"]
    solverMetrics := .ofList [("nodes", maxU64)], objectiveScore := [0, maxU64]
    metadata := .ofList [("corpus_family", "")] }

/-- A record of another instance, which comes after the first one in the file. -/
def timeoutRecord : RunRecord :=
  { instanceName := "first", profile := "standard_dsa", status := "timeout", runtimeUs := 7
    diagnostics := ["\"limit\"", ""] }

/-- The instances of the two records. -/
def twoInstances : List Instance :=
  [⟨{ profile := .standardDsa, instanceName := "first" }, "first.csv"⟩,
    ⟨{ profile := .standardDsa, instanceName := "second" }, "second.csv"⟩]

/-- Two records come back in their order, and their report is rebuilt. -/
theorem rawResults_roundTrip_twoRecords :
    let lib := lineLibrary [recordJson "local" feasibleRecord, recordJson "local" timeoutRecord]
    readRawResults lib "results.jsonl"
        (writeRawResults lib "local" [feasibleRecord, timeoutRecord]) =
        .ok [feasibleRecord, timeoutRecord] ∧
      rewriteReport lib true twoInstances "results.jsonl"
          (writeRawResults lib "local" [feasibleRecord, timeoutRecord]) =
        .ok (summarizeRecords [feasibleRecord, timeoutRecord]) := by
  intro lib
  have hdiffer : (dumpLine (recordJson "local" timeoutRecord) ==
      dumpLine (recordJson "local" feasibleRecord)) = false := by decide +kernel
  have hfeasible : lib.OneLine (recordJson "local" feasibleRecord) := by
    refine lineLibrary_oneLine ?_ (by decide +kernel) (by decide +kernel)
    rw [List.find?_cons, beq_self_eq_true]
  have htimeout : lib.OneLine (recordJson "local" timeoutRecord) := by
    refine lineLibrary_oneLine ?_ (by decide +kernel) (by decide +kernel)
    rw [List.find?_cons, hdiffer, List.find?_cons, beq_self_eq_true]
  have hlines : ∀ record ∈ [feasibleRecord, timeoutRecord],
      lib.OneLine (recordJson "local" record) :=
    List.forall_mem_cons.mpr ⟨hfeasible, List.forall_mem_cons.mpr
      ⟨htimeout, fun _ hnone => absurd hnone List.not_mem_nil⟩⟩
  obtain ⟨hread, hreport⟩ := rawResults_roundTrip lib "local" [feasibleRecord, timeoutRecord]
    (List.cons_ne_nil _ _) hlines "results.jsonl"
  have hsame : requireSameRun true twoInstances [feasibleRecord, timeoutRecord] = .ok () := by
    decide +kernel
  refine ⟨hread, ?_⟩
  rw [hreport, hsame]
  rfl

end Dsa
