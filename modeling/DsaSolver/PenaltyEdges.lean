import DsaSolver.StructuredProblem
import DsaSolver.Theory.Topological
import Mathlib.Data.List.Sort

/-! # Penalty edge derivation

`penalty_edge_derivation.cpp`: the index of a scheduled program with its vector clocks, the
first write and the maximal accesses of a buffer, and the edges derived from them.  The map
`operation_index` is the search for the first operation of an id, `accesses_by_buffer` the
indices of the accesses of a buffer; the edges added by `add_edge` are kept as one list. -/

namespace Dsa

open Theory

abbrev OperationId := UInt32
abbrev StreamId := UInt32

inductive AccessKind where
  | read
  | write
deriving DecidableEq, Repr

structure ScheduledOperation where
  id : OperationId := 0
  stream : StreamId := 0
  issueIndex : UInt64 := 0
  scheduleTime : Int64 := 0
deriving DecidableEq, Repr

structure ScheduledDependency where
  before : OperationId := 0
  after : OperationId := 0
deriving DecidableEq, Repr

structure ScheduledBufferAccess where
  buffer : BufferId := 0
  operation : OperationId := 0
  kind : AccessKind := .read
deriving DecidableEq, Repr

structure ScheduledProgram where
  streamCount : UInt32 := 0
  operations : List ScheduledOperation := []
  crossDependencies : List ScheduledDependency := []
  accesses : List ScheduledBufferAccess := []
deriving DecidableEq, Repr

structure DerivedSyncAnchor where
  lastAccess : OperationId := 0
  firstWrite : OperationId := 0
deriving DecidableEq, Repr

structure DerivedPenaltyEdge where
  first : BufferId := 0
  second : BufferId := 0
  cost : UInt64 := 0
  neededSyncs : List DerivedSyncAnchor := []
deriving DecidableEq, Repr

structure PenaltyEdgeDerivation where
  edges : List DerivedPenaltyEdge := []
  lifetimeCompatiblePairs : ℕ := 0
  orderedPairs : ℕ := 0
deriving DecidableEq, Repr

def throwInvalid {α : Type} (what : String) : Except Exception α := .error (.invalidArgument what)

/-- `if (condition) throw std::invalid_argument(what)`. -/
def rejectIf (condition : Bool) (what : String) : Except Exception Unit :=
  if condition then throwInvalid what else .ok ()

/-! ### Lifetimes -/

/-- `LifetimeHull` of a buffer. -/
def bufferLifetimeHull (buffer : Buffer) : Int64 × Int64 :=
  buffer.liveIntervals.foldl
    (fun hull interval => (min hull.1 interval.lower, max hull.2 interval.upper))
    (9223372036854775807, -9223372036854775808)

/-- `EarlierLifetime`. -/
def earlierLifetime (first second : Buffer) : Bool :=
  decide ((bufferLifetimeHull first).2 ≤ (bufferLifetimeHull second).1)

/-! ### `BuildIndex` -/

section index

variable (program : ScheduledProgram)

def ScheduledProgram.operationAt (index : ℕ) : ScheduledOperation :=
  program.operations.getD index {}

def ScheduledProgram.accessAt (index : ℕ) : ScheduledBufferAccess := program.accesses.getD index {}

def operationIndex (id : OperationId) : Option ℕ :=
  program.operations.findIdx? fun operation => operation.id == id

def accessesByBuffer (buffer : BufferId) : List ℕ :=
  (List.range program.accesses.length).filter fun index => (program.accessAt index).buffer == buffer

def checkOperations : List OperationId → List ScheduledOperation → Except Exception Unit
  | _, [] => .ok ()
  | ids, operation :: rest => do
      rejectIf (decide (operation.stream ≥ program.streamCount))
        ("operation " ++ toString operation.id ++ " references an unknown stream")
      rejectIf (ids.contains operation.id)
        ("duplicate operation id " ++ toString operation.id)
      checkOperations (operation.id :: ids) rest

/-- `add_edge`, the edge when it is accepted. -/
def addEdge (before after : ℕ) : Except Exception (ℕ × ℕ) := do
  rejectIf (before == after) "scheduled dependency is a self edge"
  rejectIf (decide ((program.operationAt before).scheduleTime >
      (program.operationAt after).scheduleTime))
    "scheduled dependency violates temporal consistency"
  .ok (before, after)

/-- `std::tie(issue_index, id)` of the first operation is at most that of the second. -/
def issuedBefore (first second : ℕ) : Prop :=
  (program.operationAt first).issueIndex < (program.operationAt second).issueIndex ∨
    (program.operationAt first).issueIndex = (program.operationAt second).issueIndex ∧
      (program.operationAt first).id ≤ (program.operationAt second).id

instance (first second : ℕ) : Decidable (issuedBefore program first second) :=
  inferInstanceAs (Decidable (_ ∨ _ ∧ _))

/-- `operations_by_stream[stream]`, sorted. -/
def streamOperations (stream : ℕ) : List ℕ :=
  ((List.range program.operations.length).filter fun index =>
    (program.operationAt index).stream.toNat == stream).insertionSort (issuedBefore program)

/-- The edges between consecutive operations of a stream. -/
def streamEdges : List ℕ → Except Exception (List (ℕ × ℕ))
  | previous :: current :: rest => do
      rejectIf ((program.operationAt previous).issueIndex ==
          (program.operationAt current).issueIndex)
        ("stream repeats issue index " ++ toString (program.operationAt current).issueIndex)
      let edge ← addEdge program previous current
      let others ← streamEdges (current :: rest)
      .ok (edge :: others)
  | _ => .ok []

def allStreamEdges : List ℕ → Except Exception (List (ℕ × ℕ))
  | [] => .ok []
  | stream :: rest => do
      let edges ← streamEdges program (streamOperations program stream)
      let others ← allStreamEdges rest
      .ok (edges ++ others)

def dependencyEdges : List ScheduledDependency → Except Exception (List (ℕ × ℕ))
  | [] => .ok []
  | dependency :: rest =>
      match operationIndex program dependency.before, operationIndex program dependency.after with
      | some before, some after => do
          let edge ← addEdge program before after
          let others ← dependencyEdges rest
          .ok (edge :: others)
      | _, _ => throwInvalid "scheduled dependency references an unknown operation"

/-- The sources of the edges into an operation, in the order of `predecessors`. -/
def predecessors (edges : List (ℕ × ℕ)) (operation : ℕ) : List ℕ :=
  (List.range program.operations.length).flatMap fun before =>
    ((successors edges before).filter (· == operation)).map fun _ => before

/-- `clock[stream]` of an operation. -/
def clockAt (clocks : List (List UInt64)) (operation stream : ℕ) : UInt64 :=
  (clocks.getD operation []).getD stream 0

/-- The clock of an operation from those of its predecessors. -/
def nextClock (edges : List (ℕ × ℕ)) (clocks : List (List UInt64)) (operation : ℕ) : List UInt64 :=
  let merged := (predecessors program edges operation).foldl
    (fun clock predecessor => clock.mapIdx fun stream value =>
      max value (clockAt clocks predecessor stream))
    (List.replicate program.streamCount.toNat 0)
  let stream := (program.operationAt operation).stream.toNat
  merged.set stream (max (merged.getD stream 0) ((program.operationAt operation).issueIndex + 1))

/-- The loop over the topological order. -/
def vectorClocks (edges : List (ℕ × ℕ)) :
    List ℕ → List (List UInt64) → Except Exception (List (List UInt64))
  | [], clocks => .ok clocks
  | operation :: rest, clocks => do
      rejectIf ((program.operationAt operation).issueIndex == maxU64)
        "operation issue index cannot be UINT64_MAX"
      vectorClocks edges rest (clocks.set operation (nextClock program edges clocks operation))

def checkAccesses (problem : DsaProblem) : List ScheduledBufferAccess → Except Exception Unit
  | [] => .ok ()
  | access :: rest => do
      rejectIf (problem.findBuffer access.buffer).isNone
        ("access references unknown buffer " ++ toString access.buffer)
      rejectIf (operationIndex program access.operation).isNone
        ("access references unknown operation " ++ toString access.operation)
      checkAccesses problem rest

def checkAccessed : List Buffer → Except Exception Unit
  | [] => .ok ()
  | buffer :: rest => do
      rejectIf (accessesByBuffer program buffer.id).isEmpty
        ("buffer " ++ toString buffer.id ++ " has no scheduled accesses")
      checkAccessed rest

structure IndexedProgram where
  edges : List (ℕ × ℕ) := []
  vectorClocks : List (List UInt64) := []
deriving DecidableEq, Repr

/-- `BuildIndex`. -/
def buildIndex (problem : DsaProblem) : Except Exception IndexedProgram := do
  rejectIf (program.streamCount == 0) "scheduled program has no streams"
  rejectIf program.operations.isEmpty "scheduled program has no operations"
  checkOperations program [] program.operations
  let streams ← allStreamEdges program (List.range program.streamCount.toNat)
  let dependencies ← dependencyEdges program program.crossDependencies
  let edges := streams ++ dependencies
  let order := topologicalOrder program.operations.length edges
  rejectIf (order.length != program.operations.length)
    "scheduled program dependency graph is cyclic"
  let clocks ← vectorClocks program edges order
    (List.replicate program.operations.length (List.replicate program.streamCount.toNat 0))
  checkAccesses program problem program.accesses
  checkAccessed program problem.buffers
  .ok ⟨edges, clocks⟩

/-! ### Accesses -/

variable (indexed : IndexedProgram)

/-- `Ordered`. -/
def ordered (before after : ℕ) : Bool :=
  before == after ||
    decide (clockAt indexed.vectorClocks after (program.operationAt before).stream.toNat >
      (program.operationAt before).issueIndex)

/-- The operation of an access. -/
def accessOperation (access : ℕ) : ℕ :=
  (operationIndex program (program.accessAt access).operation).getD 0

/-- The loop of `FirstWrite` over the candidates. -/
def firstWriteAmong (buffer : BufferId) (accesses : List ℕ) :
    List ℕ → Option ℕ → Except Exception (Option ℕ)
  | [], firstWrite => .ok firstWrite
  | candidate :: rest, firstWrite =>
      if (program.accessAt candidate).kind != .write then
        firstWriteAmong buffer accesses rest firstWrite
      else if !accesses.all fun access =>
          ordered program indexed (accessOperation program candidate)
            (accessOperation program access) then
        firstWriteAmong buffer accesses rest firstWrite
      else
        match firstWrite with
        | none => firstWriteAmong buffer accesses rest (some candidate)
        | some first =>
            if (program.accessAt first).operation != (program.accessAt candidate).operation then
              throwInvalid ("buffer " ++ toString buffer ++ " has multiple first-write operations")
            else firstWriteAmong buffer accesses rest firstWrite

/-- `FirstWrite`. -/
def firstWrite (buffer : BufferId) : Except Exception ℕ := do
  let accesses := accessesByBuffer program buffer
  match ← firstWriteAmong program indexed buffer accesses accesses none with
  | some first => .ok first
  | none =>
      throwInvalid ("buffer " ++ toString buffer ++
        " has no first write that happens-before every access")

/-- One step of the loop that fills `last_by_stream`. -/
def recordLast (lastByStream : Std.TreeMap StreamId ℕ) (access : ℕ) : Std.TreeMap StreamId ℕ :=
  let operation := accessOperation program access
  let stream := (program.operationAt operation).stream
  match lastByStream[stream]? with
  | none => lastByStream.insert stream access
  | some current =>
      if issuedBefore program operation (accessOperation program current) then lastByStream
      else lastByStream.insert stream access

/-- The last access of the buffer on each stream, in the order of the streams. -/
def lastAccesses (buffer : BufferId) : List ℕ :=
  ((accessesByBuffer program buffer).foldl (recordLast program) ∅).toList.map Prod.snd

/-- `MaximalAccesses`. -/
def maximalAccesses (buffer : BufferId) : List ℕ :=
  let candidates := lastAccesses program buffer
  candidates.filter fun candidate => !candidates.any fun other =>
    candidate != other && ordered program indexed (accessOperation program candidate)
      (accessOperation program other)

/-! ### `DerivePenaltyEdges` -/

/-- The accesses of a buffer that the derivation looks at. -/
structure AccessSummary where
  buffer : Buffer
  firstWrite : ℕ
  maximal : List ℕ

def summarize : List Buffer → Except Exception (List AccessSummary)
  | [] => .ok []
  | buffer :: rest => do
      let first ← firstWrite program indexed buffer.id
      let others ← summarize rest
      .ok (⟨buffer, first, maximalAccesses program indexed buffer.id⟩ :: others)

variable (syncCost : List (List UInt64))

/-- `sync_cost` from the stream of an operation to that of another. -/
def syncCostOf (before after : ℕ) : UInt64 :=
  (syncCost.getD (program.operationAt before).stream.toNat []).getD
    (program.operationAt after).stream.toNat 0

/-- One step of the loop over the maximal accesses. -/
def addSync (firstWriteOp : ℕ) (edge : DerivedPenaltyEdge) (maximalAccess : ℕ) :
    DerivedPenaltyEdge :=
  let maximalOp := accessOperation program maximalAccess
  if ordered program indexed maximalOp firstWriteOp then edge
  else
    let cost := syncCostOf program syncCost maximalOp firstWriteOp
    if cost == 0 then edge
    else
      { edge with
        cost := satAdd edge.cost cost
        neededSyncs := edge.neededSyncs ++
          [⟨(program.operationAt maximalOp).id, (program.operationAt firstWriteOp).id⟩] }

def deriveEdge (earlier later : AccessSummary) : DerivedPenaltyEdge :=
  earlier.maximal.foldl (addSync program indexed syncCost (accessOperation program later.firstWrite))
    { first := min earlier.buffer.id later.buffer.id
      second := max earlier.buffer.id later.buffer.id }

/-- The pairs `first_index < second_index`. -/
def indexPairs {α : Type} : List α → List (α × α)
  | [] => []
  | first :: rest => rest.map (fun second => (first, second)) ++ indexPairs rest

/-- The pair with its earlier buffer first, when the lifetimes are compatible. -/
def orientPair (pair : AccessSummary × AccessSummary) : Option (AccessSummary × AccessSummary) :=
  if earlierLifetime pair.2.buffer pair.1.buffer then some (pair.2, pair.1)
  else if earlierLifetime pair.1.buffer pair.2.buffer then some pair
  else none

/-- `std::tie(first, second)` of the first edge is at most that of the second. -/
def edgeBefore (first second : DerivedPenaltyEdge) : Prop :=
  first.first < second.first ∨ first.first = second.first ∧ first.second ≤ second.second

instance (first second : DerivedPenaltyEdge) : Decidable (edgeBefore first second) :=
  inferInstanceAs (Decidable (_ ∨ _ ∧ _))

end index

/-- `DerivePenaltyEdges`. -/
def derivePenaltyEdges (problem : DsaProblem) (program : ScheduledProgram)
    (syncCost : List (List UInt64)) : Except Exception PenaltyEdgeDerivation :=
  match validateProblem problem with
  | error :: _ =>
      throwInvalid ("cannot derive penalties for an invalid DSA problem: " ++ error)
  | [] => do
      rejectIf (syncCost.length != program.streamCount.toNat ||
          syncCost.any fun row => row.length != program.streamCount.toNat)
        "synchronization-cost matrix does not match stream count"
      let indexed ← buildIndex program problem
      let summaries ← summarize program indexed problem.buffers
      let pairs := (indexPairs summaries).filterMap orientPair
      let derived := pairs.map fun pair => deriveEdge program indexed syncCost pair.1 pair.2
      .ok
        { edges := (derived.filter fun edge => !edge.neededSyncs.isEmpty).insertionSort edgeBefore
          lifetimeCompatiblePairs := pairs.length
          orderedPairs := (derived.filter fun edge => edge.neededSyncs.isEmpty).length }

end Dsa
