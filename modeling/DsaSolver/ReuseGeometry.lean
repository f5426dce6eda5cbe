import DsaSolver.PlacementEngine

/-! # Reuse geometry

`reuse_geometry.cpp`: the colocation classes of a placement as nodes, the pairs of nodes that
share addresses although nothing forbids it, and the descent that moves one node at a time to
share less.  The classes are those of `DisjointSet`; a `std::vector` indexed by node is a list
read with `getD`. -/

namespace Dsa

namespace ReuseGeometry

/-- What the analysis throws, with the text of the exception. -/
inductive Exception where
  | invalidArgument (what : String)
  | runtimeError (what : String)
  | outOfRange
deriving DecidableEq, Repr

structure AllocationNode where
  members : List ℕ := []
  pool : PoolId := kDefaultPool
  offset : UInt64 := 0
  size : UInt64 := 0
  alignment : UInt64 := 1
  movable : Bool := true
  pinnedOffset : Option UInt64 := none
deriving DecidableEq, Repr

structure Score where
  pairs : UInt64 := 0
  bytes : UInt64 := 0
deriving DecidableEq, Repr

/-- `Score::operator<`. -/
def Score.less (first second : Score) : Bool :=
  decide (first.pairs < second.pairs) ||
    (first.pairs == second.pairs && decide (first.bytes < second.bytes))

/-- `score.pairs += pair.pairs; score.bytes += pair.bytes`. -/
def Score.add (score pair : Score) : Score :=
  ⟨score.pairs + pair.pairs, score.bytes + pair.bytes⟩

/-- `AlignUp`, saturating. -/
def alignUp (value alignment : UInt64) : UInt64 :=
  let remainder := value % alignment
  if remainder == 0 then value
  else
    let increment := alignment - remainder
    if addOverflows value increment then maxU64 else value + increment

/-- `AlignDown`. -/
def alignDown (value alignment : UInt64) : UInt64 := value - value % alignment

/-- `OverlapBytes`. -/
def overlapBytes (firstOffset firstSize secondOffset secondSize : UInt64) : UInt64 :=
  if !addressRangesOverlap firstOffset firstSize secondOffset secondSize then 0
  else
    min (firstOffset + firstSize) (secondOffset + secondSize) - max firstOffset secondOffset

/-! ### `BuildNodes` -/

/-- The unions over the colocations; `indices.at` throws on an unknown buffer. -/
def colocationIndices (problem : DsaProblem) : Except Exception (List (ℕ × ℕ)) :=
  problem.colocations.mapM fun constraint =>
    match bufferIndices problem constraint.first, bufferIndices problem constraint.second with
    | some first, some second => .ok (first, second)
    | _, _ => .error .outOfRange

/-- The keys of `members_by_root`, in order. -/
def classRoots (sets : DisjointSet) (size : ℕ) : List ℕ :=
  (List.range size).filter fun root => (List.range size).any fun index => sets.root index == root

/-- The value of `members_by_root` at a key. -/
def classMembers (sets : DisjointSet) (size root : ℕ) : List ℕ :=
  (List.range size).filter fun index => sets.root index == root

/-- The node before the loop over its members. -/
def firstNode (problem : DsaProblem) (solution : DsaSolution) (members : List ℕ) :
    Except Exception AllocationNode :=
  match solution.find (problem.bufferAt (members.headD 0)).id with
  | none => .error (.invalidArgument "initial placement is incomplete")
  | some placement => .ok { members, pool := placement.pool, offset := placement.offset }

/-- What the pin of a member does to its node; `emplace` keeps the first pin of a buffer. -/
def pinMember (problem : DsaProblem) (id : BufferId) (node : AllocationNode) :
    Except Exception AllocationNode :=
  match problem.pinnedAllocations.find? fun pinned => pinned.buffer == id with
  | none => .ok node
  | some pinned =>
      if node.pinnedOffset.any (· != pinned.offset) then
        .error (.invalidArgument "colocation class has incompatible pinned offsets")
      else .ok { node with movable := false, pinnedOffset := some pinned.offset }

def addMember (problem : DsaProblem) (solution : DsaSolution) (node : AllocationNode)
    (member : ℕ) : Except Exception AllocationNode :=
  let buffer := problem.bufferAt member
  if solution.find buffer.id != some ⟨node.pool, node.offset⟩ then
    .error (.invalidArgument "colocation class does not share one placement")
  else
    match leastCommonMultiple node.alignment buffer.alignment with
    | none =>
        .error (.invalidArgument "colocation alignment least common multiple overflows")
    | some alignment =>
        pinMember problem buffer.id
          { node with size := max node.size buffer.size, alignment := alignment }

def buildNode (problem : DsaProblem) (solution : DsaSolution) (members : List ℕ) :
    Except Exception AllocationNode := do
  let node ← firstNode problem solution members
  members.foldlM (addMember problem solution) node

def buildNodes (problem : DsaProblem) (solution : DsaSolution) :
    Except Exception (List AllocationNode) := do
  let pairs ← colocationIndices problem
  let colocations := (DisjointSet.ofSize problem.buffers.length).unionAll pairs
  (classRoots colocations problem.buffers.length).mapM fun root =>
    buildNode problem solution (classMembers colocations problem.buffers.length root)

/-! ### Nodes that must remain disjoint -/

def nodeAt (nodes : List AllocationNode) (index : ℕ) : AllocationNode := nodes.getD index {}

def inNode (problem : DsaProblem) (node : AllocationNode) (id : BufferId) : Bool :=
  node.members.any fun member => (problem.bufferAt member).id == id

def hasSeparation (problem : DsaProblem) (first second : AllocationNode) : Bool :=
  problem.separations.any fun separation =>
    (inNode problem first separation.first && inNode problem second separation.second) ||
      (inNode problem first separation.second && inNode problem second separation.first)

def hasExclusivePin (problem : DsaProblem) (node : AllocationNode) : Bool :=
  problem.pinnedAllocations.any fun pinned =>
    pinned.exclusiveForAllTime && inNode problem node pinned.buffer

/-- `HaveTemporalConflict` of two nodes. -/
def nodesHaveTemporalConflict (problem : DsaProblem) (first second : AllocationNode) : Bool :=
  first.members.any fun firstMember => second.members.any fun secondMember =>
    haveTemporalConflict problem (problem.bufferAt firstMember) (problem.bufferAt secondMember)

def mustRemainDisjoint (problem : DsaProblem) (first second : AllocationNode) : Bool :=
  hasExclusivePin problem first || hasExclusivePin problem second ||
    hasSeparation problem first second || nodesHaveTemporalConflict problem first second

/-- `BuildMustRemainDisjoint`: one call for each pair `first < second`, stored both ways. -/
def buildMustRemainDisjoint (problem : DsaProblem) (nodes : List AllocationNode) :
    List (List Bool) :=
  (List.range nodes.length).map fun row => (List.range nodes.length).map fun column =>
    row != column &&
      mustRemainDisjoint problem (nodeAt nodes (min row column)) (nodeAt nodes (max row column))

/-- `must_remain_disjoint[first][second]`. -/
def disjointAt (mustBeDisjoint : List (List Bool)) (first second : ℕ) : Bool :=
  (mustBeDisjoint.getD first []).getD second false

/-! ### Scores -/

def pairScore (first : AllocationNode) (firstOffset : UInt64) (second : AllocationNode)
    (secondOffset : UInt64) (mustBeDisjoint : Bool) : Score :=
  if first.pool != second.pool || mustBeDisjoint then {}
  else
    let bytes := overlapBytes firstOffset first.size secondOffset second.size
    ⟨if bytes == 0 then 0 else 1, bytes⟩

/-- The pair of two indexed nodes at their offsets. -/
def indexedScore (nodes : List AllocationNode) (mustBeDisjoint : List (List Bool))
    (first second : ℕ) : Score :=
  pairScore (nodeAt nodes first) (nodeAt nodes first).offset (nodeAt nodes second)
    (nodeAt nodes second).offset (disjointAt mustBeDisjoint first second)

def totalScore (nodes : List AllocationNode) (mustBeDisjoint : List (List Bool)) : Score :=
  (List.range nodes.length).foldl
    (fun score first => (List.range' (first + 1) (nodes.length - (first + 1))).foldl
      (fun score second => score.add (indexedScore nodes mustBeDisjoint first second)) score)
    {}

def nodeScore (nodes : List AllocationNode) (mustBeDisjoint : List (List Bool)) (nodeIndex : ℕ)
    (offset : UInt64) : Score :=
  (List.range nodes.length).foldl
    (fun score other =>
      if other == nodeIndex then score
      else score.add (pairScore (nodeAt nodes nodeIndex) offset (nodeAt nodes other)
        (nodeAt nodes other).offset (disjointAt mustBeDisjoint nodeIndex other)))
    {}

/-! ### Moves -/

def fitsAt (problem : DsaProblem) (nodes : List AllocationNode)
    (mustBeDisjoint : List (List Bool)) (nodeIndex : ℕ) (offset : UInt64) : Bool :=
  let node := nodeAt nodes nodeIndex
  if offset % node.alignment != 0 || addOverflows offset node.size then false
  else
    match problem.findPool node.pool with
    | none => false
    | some pool =>
        match pool.capacity with
        | none => false
        | some capacity =>
            if offset + node.size > capacity then false
            else
              pool.reservedRanges.all (fun reserved =>
                !addressRangesOverlap offset node.size reserved.first
                  (reserved.last - reserved.first)) &&
              (List.range nodes.length).all fun other =>
                other == nodeIndex || (nodeAt nodes other).pool != node.pool ||
                  !(disjointAt mustBeDisjoint nodeIndex other &&
                    addressRangesOverlap offset node.size (nodeAt nodes other).offset
                      (nodeAt nodes other).size)

/-- The offsets next to another node of the pool. -/
def insertBeside (node placed : AllocationNode) (candidates : Std.TreeSet UInt64) :
    Std.TreeSet UInt64 :=
  let candidates :=
    if addOverflows placed.offset placed.size then candidates
    else candidates.insert (alignUp (placed.offset + placed.size) node.alignment)
  if placed.offset ≥ node.size then
    candidates.insert (alignDown (placed.offset - node.size) node.alignment)
  else candidates

/-- The offsets next to a reserved range. -/
def insertBesideReserved (node : AllocationNode) (candidates : Std.TreeSet UInt64)
    (reserved : AddressRange) : Std.TreeSet UInt64 :=
  let candidates := candidates.insert (alignUp reserved.last node.alignment)
  if reserved.first ≥ node.size then
    candidates.insert (alignDown (reserved.first - node.size) node.alignment)
  else candidates

def candidateOffsets (problem : DsaProblem) (nodes : List AllocationNode) (nodeIndex : ℕ) :
    Std.TreeSet UInt64 :=
  let node := nodeAt nodes nodeIndex
  let candidates : Std.TreeSet UInt64 := (∅ : Std.TreeSet UInt64).insert node.offset |>.insert 0
  match problem.findPool node.pool with
  | none => candidates
  | some pool =>
      match pool.capacity with
      | none => candidates
      | some capacity =>
          if node.size > capacity then candidates
          else
            let candidates := candidates.insert (alignDown (capacity - node.size) node.alignment)
            let candidates := (List.range nodes.length).foldl
              (fun candidates other =>
                if other == nodeIndex || (nodeAt nodes other).pool != node.pool then candidates
                else insertBeside node (nodeAt nodes other) candidates)
              candidates
            pool.reservedRanges.foldl (insertBesideReserved node) candidates

def nodesToSolution (problem : DsaProblem) (nodes : List AllocationNode) : DsaSolution :=
  ⟨nodes.foldl
    (fun placements node => node.members.foldl
      (fun placements member =>
        placements.insertIfNew (problem.bufferAt member).id ⟨node.pool, node.offset⟩)
      placements)
    ∅⟩

/-! ### `EvaluateReuseGeometry` and `BuildSparseReferencePlacement` -/

structure ReuseGeometryStats where
  pairCount : UInt64 := 0
  overlapBytes : UInt64 := 0
deriving DecidableEq, Repr

def statsOf (score : Score) : ReuseGeometryStats := ⟨score.pairs, score.bytes⟩

def evaluateReuseGeometry (problem : DsaProblem) (solution : DsaSolution) :
    Except Exception ReuseGeometryStats :=
  match validateSolution problem solution with
  | error :: _ => .error (.invalidArgument ("invalid placement: " ++ error))
  | [] => do
      let nodes ← buildNodes problem solution
      return statsOf (totalScore nodes (buildMustRemainDisjoint problem nodes))

/-- The variables of the descent. -/
structure Descent where
  nodes : List AllocationNode
  acceptedMoves : ℕ := 0
  passes : ℕ := 0
  changed : Bool := false

/-- The comparator of a pass: the nodes that share most come first. -/
def sharesMore (nodes : List AllocationNode) (mustBeDisjoint : List (List Bool))
    (first second : ℕ) : Bool :=
  let firstScore := nodeScore nodes mustBeDisjoint first (nodeAt nodes first).offset
  let secondScore := nodeScore nodes mustBeDisjoint second (nodeAt nodes second).offset
  if firstScore.pairs != secondScore.pairs then decide (firstScore.pairs > secondScore.pairs)
  else if firstScore.bytes != secondScore.bytes then decide (firstScore.bytes > secondScore.bytes)
  else decide ((nodeAt nodes first).size > (nodeAt nodes second).size)

def passOrder (nodes : List AllocationNode) (mustBeDisjoint : List (List Bool)) : List ℕ :=
  (List.range nodes.length).insertionSort fun first second =>
    (!sharesMore nodes mustBeDisjoint second first) = true

/-- One candidate of a node against the best so far. -/
def improve (problem : DsaProblem) (nodes : List AllocationNode)
    (mustBeDisjoint : List (List Bool)) (nodeIndex : ℕ) (best : Score × UInt64)
    (candidate : UInt64) : Score × UInt64 :=
  if !fitsAt problem nodes mustBeDisjoint nodeIndex candidate then best
  else
    let score := nodeScore nodes mustBeDisjoint nodeIndex candidate
    if score.less best.1 ||
        (!best.1.less score && !score.less best.1 && decide (candidate < best.2)) then
      (score, candidate)
    else best

def bestMove (problem : DsaProblem) (nodes : List AllocationNode)
    (mustBeDisjoint : List (List Bool)) (nodeIndex : ℕ) : Score × UInt64 :=
  let offset := (nodeAt nodes nodeIndex).offset
  (candidateOffsets problem nodes nodeIndex).toList.foldl
    (improve problem nodes mustBeDisjoint nodeIndex)
    (nodeScore nodes mustBeDisjoint nodeIndex offset, offset)

/-- `node.offset = offset`. -/
def setOffset (nodes : List AllocationNode) (nodeIndex : ℕ) (offset : UInt64) :
    List AllocationNode :=
  nodes.set nodeIndex { nodeAt nodes nodeIndex with offset }

/-- The body of the loop over the nodes. -/
def moveNode (problem : DsaProblem) (mustBeDisjoint : List (List Bool)) (state : Descent)
    (nodeIndex : ℕ) : Descent :=
  let node := nodeAt state.nodes nodeIndex
  if !node.movable then state
  else
    let current := nodeScore state.nodes mustBeDisjoint nodeIndex node.offset
    let best := bestMove problem state.nodes mustBeDisjoint nodeIndex
    if best.1.less current && best.2 != node.offset then
      { state with
        nodes := setOffset state.nodes nodeIndex best.2
        acceptedMoves := state.acceptedMoves + 1
        changed := true }
    else state

/-- A pass starts. -/
def Descent.nextPass (state : Descent) : Descent :=
  { state with passes := state.passes + 1, changed := false }

def runPass (problem : DsaProblem) (mustBeDisjoint : List (List Bool)) (state : Descent) :
    Descent :=
  (passOrder state.nodes mustBeDisjoint).foldl (moveNode problem mustBeDisjoint) state.nextPass

/-- At most the given number of passes; a pass that changes nothing is the last. -/
def runPasses (problem : DsaProblem) (mustBeDisjoint : List (List Bool)) : ℕ → Descent → Descent
  | 0, state => state
  | passes + 1, state =>
      let next := runPass problem mustBeDisjoint state
      if next.changed then runPasses problem mustBeDisjoint passes next else next

structure SparseReferenceResult where
  solution : DsaSolution
  initial : ReuseGeometryStats
  final : ReuseGeometryStats
  acceptedMoves : ℕ
  passes : ℕ

def buildSparseReferencePlacement (problem : DsaProblem) (initial : DsaSolution)
    (maxPasses : ℕ) : Except Exception SparseReferenceResult :=
  match validateSolution problem initial with
  | error :: _ => .error (.invalidArgument ("invalid initial placement: " ++ error))
  | [] => do
      let nodes ← buildNodes problem initial
      let mustBeDisjoint := buildMustRemainDisjoint problem nodes
      let descent := runPasses problem mustBeDisjoint maxPasses { nodes }
      let solution := nodesToSolution problem descent.nodes
      match validateSolution problem solution with
      | error :: _ =>
          .error (.runtimeError ("sparse reference produced an invalid placement: " ++ error))
      | [] => return {
          solution
          initial := statsOf (totalScore nodes mustBeDisjoint)
          final := statsOf (totalScore descent.nodes mustBeDisjoint)
          acceptedMoves := descent.acceptedMoves
          passes := descent.passes }

end ReuseGeometry

end Dsa
