import DsaSolver.Validator
import Mathlib.Data.List.Sort

/-! # The placement engine

`placement_engine.cpp`: colocation classes ("super buffers") with merged size, alignment and
pools, the first-fit and best-fit address searches, and the constructive placement that all
order-based solvers share.  `std::sort` is `List.insertionSort` by the negated swapped
comparator, a hash map is its lookup function, and the fields `placed_pool` and `offset`,
written when a class is placed, live in the list of placed classes. -/

namespace Dsa

structure SuperBuffer where
  root : ℕ := 0
  representative : BufferId := 0
  members : List ℕ := []
  size : UInt64 := 0
  alignment : UInt64 := 1
  liveIntervals : List Interval := []
  allowedPools : List PoolId := []
  pinned : Option PinnedAllocation := none
  pinnedExclusive : Bool := false
deriving DecidableEq, Repr

structure PreparedProblem where
  supers : List SuperBuffer := []
  idToSuper : BufferId → Option ℕ := fun _ => none
  /-- Pairs of class indices, the smaller first. -/
  separations : List (ℕ × ℕ) := []
  errors : List String := []
  flexiblePools : Bool := false

def PreparedProblem.superAt (prepared : PreparedProblem) (index : ℕ) : SuperBuffer :=
  prepared.supers.getD index {}

structure FitRequest where
  size : UInt64 := 0
  alignment : UInt64 := 1

/-- `LeastCommonMultiple`. -/
def leastCommonMultiple (first second : UInt64) : Option UInt64 :=
  let divisor := UInt64.ofNat (Nat.gcd first.toNat second.toNat)
  let reduced := first / divisor
  if reduced > maxU64 / second then none else some (reduced * second)

/-- `AlignUp`. -/
def alignUp (value alignment : UInt64) : Option UInt64 :=
  if alignment ≤ 1 then some value
  else
    let remainder := value % alignment
    if remainder == 0 then some value
    else
      let delta := alignment - remainder
      if addOverflows value delta then none else some (value + delta)

def superBuffersConflict (problem : DsaProblem) (first second : SuperBuffer) : Bool :=
  first.members.any fun firstMember => second.members.any fun secondMember =>
    haveTemporalConflict problem (problem.bufferAt firstMember) (problem.bufferAt secondMember)

/-- `std::set_intersection` of two sorted ranges. -/
def setIntersection : List PoolId → List PoolId → List PoolId
  | [], _ => []
  | a :: rest, second =>
      match second.dropWhile (fun b => b < a) with
      | [] => []
      | b :: secondRest =>
          if a < b then setIntersection rest (b :: secondRest)
          else a :: setIntersection rest secondRest

def intersectPools (first second : List PoolId) : List PoolId :=
  setIntersection (first.insertionSort (· ≤ ·)) (second.insertionSort (· ≤ ·))

/-! ### `Prepare` -/

/-- The class a new root starts with. -/
def newSuper (problem : DsaProblem) (root i : ℕ) : SuperBuffer :=
  { root := root
    representative := (problem.bufferAt i).id
    allowedPools := (problem.bufferAt i).allowedPools }

/-- Add buffer `i` to its class. -/
def mergeMember (problem : DsaProblem) (inserted : Bool) (i : ℕ) (super : SuperBuffer) :
    SuperBuffer :=
  let buffer := problem.bufferAt i
  { super with
    members := super.members ++ [i]
    representative := min super.representative buffer.id
    size := max super.size buffer.size
    alignment := (leastCommonMultiple super.alignment buffer.alignment).getD super.alignment
    liveIntervals := super.liveIntervals ++ buffer.liveIntervals
    allowedPools :=
      if inserted then super.allowedPools else intersectPools super.allowedPools buffer.allowedPools }

def mergeErrors (problem : DsaProblem) (i : ℕ) (super : SuperBuffer) : List String :=
  errorIf (leastCommonMultiple super.alignment (problem.bufferAt i).alignment).isNone
    "colocation class alignment overflows uint64"

/-- One iteration of the loop over the buffers.  The map `root_to_super` is the search for the
root among the classes built so far. -/
def gatherBuffer (problem : DsaProblem) (state : List SuperBuffer × List String) (i : ℕ) :
    List SuperBuffer × List String :=
  let root := (colocationSets problem).root i
  match state.1.findIdx? (fun super => super.root == root) with
  | none =>
      let super := newSuper problem root i
      (state.1 ++ [mergeMember problem true i super], state.2 ++ mergeErrors problem i super)
  | some index =>
      (state.1.modify index (mergeMember problem false i),
        state.2 ++ mergeErrors problem i (state.1.getD index {}))

def gatherBuffers (problem : DsaProblem) (count : ℕ) : List SuperBuffer × List String :=
  (List.range count).foldl (gatherBuffer problem) ([], [])

/-- `id_to_super`: buffer ids are unique in a valid problem, so no entry is overwritten. -/
def idToSuper (problem : DsaProblem) (supers : List SuperBuffer) (id : BufferId) : Option ℕ :=
  supers.findIdx? fun super => super.members.any fun member => (problem.bufferAt member).id == id

def superPoolErrors (super : SuperBuffer) : List String :=
  errorIf super.allowedPools.isEmpty "colocation class has no common allowed pool"

/-- The pin is incompatible with an earlier pin of the class. -/
def pinClashes (super : SuperBuffer) (pinned : PinnedAllocation) : Bool :=
  match super.pinned with
  | none => false
  | some earlier => earlier.pool != pinned.pool || earlier.offset != pinned.offset

def pinSuper (pinned : PinnedAllocation) (super : SuperBuffer) : SuperBuffer :=
  { super with
    pinned := some pinned
    pinnedExclusive := super.pinnedExclusive || pinned.exclusiveForAllTime }

/-- One iteration of the loop over the pins. -/
def applyPin (lookup : BufferId → Option ℕ) (state : List SuperBuffer × List String)
    (pinned : PinnedAllocation) : List SuperBuffer × List String :=
  match lookup pinned.buffer with
  | none => state
  | some index =>
      if pinClashes (state.1.getD index {}) pinned then
        (state.1, state.2 ++ ["colocated buffers have incompatible pinned placements"])
      else (state.1.modify index (pinSuper pinned), state.2)

/-- One iteration of the loop over the separations. -/
def applySeparation (lookup : BufferId → Option ℕ) (state : List (ℕ × ℕ) × List String)
    (separation : Separation) : List (ℕ × ℕ) × List String :=
  match lookup separation.first, lookup separation.second with
  | some first, some second =>
      if first == second then
        (state.1, state.2 ++ ["separation lies within a colocation class"])
      else ((min first second, max first second) :: state.1, state.2)
  | _, _ => state

/-- `Prepare`. -/
@[irreducible] def prepare (problem : DsaProblem) : PreparedProblem :=
  if validateProblem problem ≠ [] then { errors := validateProblem problem }
  else
    let gathered := gatherBuffers problem problem.buffers.length
    let lookup := idToSuper problem gathered.1
    let pins := problem.pinnedAllocations.foldl (applyPin lookup) (gathered.1, [])
    let separations := problem.separations.foldl (applySeparation lookup) ([], [])
    { supers := pins.1
      idToSuper := lookup
      separations := separations.1
      errors := gathered.2 ++ gathered.1.flatMap superPoolErrors ++ pins.2 ++ separations.2
      flexiblePools := gathered.1.any fun super => decide (super.allowedPools.length > 1) }

def separated (prepared : PreparedProblem) (first second : ℕ) : Bool :=
  prepared.separations.contains (min first second, max first second)

/-! ### Address search -/

/-- `std::tie(begin, end)` order of address ranges. -/
def rangeLe (first second : AddressRange) : Bool :=
  decide (first.first < second.first) ||
    (first.first == second.first && decide (first.last ≤ second.last))

def sortRanges (ranges : List AddressRange) : List AddressRange :=
  ranges.insertionSort fun first second => rangeLe first second = true

/-- The last test of `FindFirstFit`. -/
def finishFit (request : FitRequest) (candidate : UInt64) : Option UInt64 :=
  if addOverflows candidate request.size then none else some candidate

/-- The loop of `FindFirstFit` over the sorted ranges. -/
def firstFitFrom (request : FitRequest) (candidate : UInt64) : List AddressRange → Option UInt64
  | [] => finishFit request candidate
  | blocked :: rest =>
      if addOverflows candidate request.size then none
      else if blocked.first ≥ candidate + request.size then finishFit request candidate
      else if blocked.last > candidate then
        match alignUp blocked.last request.alignment with
        | none => none
        | some next => firstFitFrom request next rest
      else firstFitFrom request candidate rest

def findFirstFit (request : FitRequest) (blockedRanges : List AddressRange) : Option UInt64 :=
  match alignUp 0 request.alignment with
  | none => none
  | some candidate => firstFitFrom request candidate (sortRanges blockedRanges)

/-- The best chunk so far and its size. -/
structure BestChunk where
  offset : Option UInt64 := none
  size : UInt64 := maxU64

/-- `best_offset` after a chunk `[candidate, candidate + chunkSize)` that fits. -/
def BestChunk.improve (best : BestChunk) (candidate chunkSize : UInt64) : BestChunk :=
  match best.offset with
  | none => ⟨some candidate, chunkSize⟩
  | some bestOffset =>
      if chunkSize < best.size || (chunkSize == best.size && decide (candidate < bestOffset)) then
        ⟨some candidate, chunkSize⟩
      else best

/-- The loop of `FindBestFit` over the sorted ranges. -/
def bestFitFrom (request : FitRequest) (best : BestChunk) (freeBegin : UInt64) :
    List AddressRange → Option UInt64
  | [] =>
      match best.offset with
      | some offset => some offset
      | none =>
          match alignUp freeBegin request.alignment with
          | none => none
          | some candidate => finishFit request candidate
  | blocked :: rest =>
      if blocked.last ≤ freeBegin then bestFitFrom request best freeBegin rest
      else if blocked.first > freeBegin then
        match alignUp freeBegin request.alignment with
        | none => none
        | some candidate =>
            if candidate ≤ blocked.first && decide (request.size ≤ blocked.first - candidate) then
              bestFitFrom request (best.improve candidate (blocked.first - candidate))
                (max freeBegin blocked.last) rest
            else bestFitFrom request best (max freeBegin blocked.last) rest
      else bestFitFrom request best (max freeBegin blocked.last) rest

def findBestFit (request : FitRequest) (blockedRanges : List AddressRange) : Option UInt64 :=
  bestFitFrom request {} 0 (sortRanges blockedRanges)

inductive PlacementStrategy where
  | firstFit
  | xlaSpatialBestFit
deriving DecidableEq, Repr

/-! ### The order of the classes -/

def lifetimeHull (super : SuperBuffer) : Int64 × Int64 :=
  super.liveIntervals.foldl
    (fun hull interval =>
      (if interval.lower < hull.1 then interval.lower else hull.1,
        if hull.2 < interval.upper then interval.upper else hull.2))
    (Int64.maxValue, Int64.minValue)

def lifetimeDuration (super : SuperBuffer) : UInt64 :=
  (lifetimeHull super).2.toUInt64 - (lifetimeHull super).1.toUInt64

/-- The smallest `lower` (`std::min_element`); a class has at least one interval. -/
def firstLower (super : SuperBuffer) : Int64 :=
  match super.liveIntervals with
  | [] => 0
  | interval :: rest =>
      rest.foldl (fun lower other => if other.lower < lower then other.lower else lower)
        interval.lower

/-- The order of two classes without a priority rank. -/
def defaultBefore (strategy : PlacementStrategy) (first second : SuperBuffer) : Bool :=
  if first.size != second.size then decide (first.size > second.size)
  else if strategy == .xlaSpatialBestFit then
    if lifetimeDuration first != lifetimeDuration second then
      decide (lifetimeDuration first > lifetimeDuration second)
    else decide (first.representative < second.representative)
  else if firstLower first != firstLower second then decide (firstLower first < firstLower second)
  else decide (first.representative < second.representative)

/-- The comparator of `SortedSuperOrder`. -/
def superBefore (prepared : PreparedProblem) (priority : List BufferId)
    (strategy : PlacementStrategy) (first second : ℕ) : Bool :=
  let rank := fun index => priority.findIdx? fun id => prepared.idToSuper id == some index
  match rank first, rank second with
  | none, none => defaultBefore strategy (prepared.superAt first) (prepared.superAt second)
  | none, some _ => false
  | some _, none => true
  | some firstRank, some secondRank =>
      if firstRank != secondRank then decide (firstRank < secondRank)
      else defaultBefore strategy (prepared.superAt first) (prepared.superAt second)

def sortedSuperOrder (prepared : PreparedProblem) (priority : List BufferId)
    (strategy : PlacementStrategy) : List ℕ :=
  (List.range prepared.supers.length).insertionSort fun first second =>
    (!superBefore prepared priority strategy second first) = true

def defaultPlacementOrder (problem : DsaProblem) : List BufferId :=
  let prepared := prepare problem
  if prepared.errors ≠ [] ∨ prepared.flexiblePools then []
  else (sortedSuperOrder prepared [] .firstFit).map fun index => (prepared.superAt index).representative

/-! ### `BuildPlacementSearchSpace` -/

structure PlacementSearchNode where
  representative : BufferId := 0
  name : String := ""
  members : List BufferId := []
  size : UInt64 := 0
  alignment : UInt64 := 1
  pool : PoolId := kDefaultPool
  pinned : Bool := false
  conflicts : List BufferId := []
deriving DecidableEq, Repr

structure PlacementSearchSpace where
  nodes : List PlacementSearchNode := []
  errors : List String := []
  flexiblePools : Bool := false

/-- The pool of a class: that of its pin, else its only allowed pool. -/
def superPool (super : SuperBuffer) : PoolId :=
  match super.pinned with
  | some pinned => pinned.pool
  | none => super.allowedPools.headD kDefaultPool

/-- The two classes may not share an address. -/
def supersBlock (problem : DsaProblem) (prepared : PreparedProblem) (first second : ℕ) : Bool :=
  superBuffersConflict problem (prepared.superAt first) (prepared.superAt second) ||
    separated prepared first second || (prepared.superAt first).pinnedExclusive ||
    (prepared.superAt second).pinnedExclusive

/-- The representatives of the classes that conflict with class `index`.  The source appends
them pair by pair, the pairs `(first, second)` in increasing order, which lists the partners
of a class in increasing order. -/
def nodeConflicts (problem : DsaProblem) (prepared : PreparedProblem) (index : ℕ) : List BufferId :=
  ((List.range prepared.supers.length).filter fun other =>
      other != index &&
        superPool (prepared.superAt (min index other)) ==
          superPool (prepared.superAt (max index other)) &&
        supersBlock problem prepared (min index other) (max index other)).map
    fun other => (prepared.superAt other).representative

def searchNode (problem : DsaProblem) (prepared : PreparedProblem) (index : ℕ) :
    PlacementSearchNode :=
  let super := prepared.superAt index
  { representative := super.representative
    name := match problem.findBuffer super.representative with
      | none => ""
      | some representative => representative.name
    members := super.members.map fun member => (problem.bufferAt member).id
    size := super.size
    alignment := super.alignment
    pool := superPool super
    pinned := super.pinned.isSome
    conflicts := nodeConflicts problem prepared index }

def buildPlacementSearchSpace (problem : DsaProblem) : PlacementSearchSpace :=
  let prepared := prepare problem
  if prepared.errors ≠ [] ∨ prepared.flexiblePools then
    { errors := prepared.errors, flexiblePools := prepared.flexiblePools }
  else
    { nodes := (List.range prepared.supers.length).map (searchNode problem prepared) }

/-! ### `PlaceWithOrder` -/

/-- A placed class: its index, `placed_pool` and `offset`. -/
structure PlacedSuper where
  index : ℕ
  pool : PoolId
  offset : UInt64
deriving DecidableEq, Repr

structure PlacementState where
  placed : List PlacedSuper := []
  solution : DsaSolution := {}

/-- The ranges the class must avoid: reserved ranges and the conflicting classes placed in its
pool. -/
def blockedRanges (problem : DsaProblem) (prepared : PreparedProblem) (pool : Pool)
    (placed : List PlacedSuper) (index : ℕ) : List AddressRange :=
  pool.reservedRanges ++
    (placed.filter fun other =>
        other.pool == superPool (prepared.superAt index) &&
          supersBlock problem prepared index other.index).map
      fun other => ⟨other.offset, other.offset + (prepared.superAt other.index).size⟩

/-- The loop body computes the offset of a class or ends the run. -/
def chooseOffset (problem : DsaProblem) (prepared : PreparedProblem) (strategy : PlacementStrategy)
    (placed : List PlacedSuper) (index : ℕ) : Except (SolveStatus × String) UInt64 :=
  let current := prepared.superAt index
  match problem.findPool (superPool current) with
  | none => .error (.invalidProblem, "placement references an unknown pool")
  | some pool =>
      match current.pinned with
      | some pinned =>
          if addOverflows pinned.offset current.size then
            .error (.invalidProblem, "pinned colocation class address range overflows uint64")
          else .ok pinned.offset
      | none =>
          let blocked := blockedRanges problem prepared pool placed index
          let offset := if strategy == .xlaSpatialBestFit
            then findBestFit ⟨current.size, current.alignment⟩ blocked
            else findFirstFit ⟨current.size, current.alignment⟩ blocked
          match offset with
          | none =>
              .error (.bestEffortNoFit, "address arithmetic overflow while placing buffer class")
          | some offset => .ok offset

/-- Record the placement of every member of a class. -/
def placeMembers (problem : DsaProblem) (super : SuperBuffer) (placement : Placement)
    (solution : DsaSolution) : DsaSolution :=
  ⟨super.members.foldl
    (fun placements member => placements.insert (problem.bufferAt member).id placement)
    solution.placements⟩

/-- The loop over the order. -/
def placeAll (problem : DsaProblem) (prepared : PreparedProblem) (strategy : PlacementStrategy) :
    List ℕ → PlacementState → Except (SolveStatus × String) PlacementState
  | [], state => .ok state
  | index :: rest, state =>
      match chooseOffset problem prepared strategy state.placed index with
      | .error e => .error e
      | .ok offset =>
          let current := prepared.superAt index
          placeAll problem prepared strategy rest
            { placed := state.placed ++ [⟨index, superPool current, offset⟩]
              solution := placeMembers problem current ⟨superPool current, offset⟩ state.solution }

def withoutCaps (problem : DsaProblem) : DsaProblem :=
  { problem with pools := problem.pools.map fun pool => { pool with capacity := none } }

/-- The pool's recomputed peak exceeds its capacity. -/
def overCapacityMessages (objective : ObjectiveValue) (pool : Pool) : List String :=
  match pool.capacity, objective.peakByPool[pool.id]? with
  | some capacity, some peak =>
      errorIf (peak > capacity)
        ("pool " ++ toString pool.id ++ " peak " ++ toString peak ++ " exceeds capacity " ++
          toString capacity)
  | _, _ => []

/-- `PlaceWithOrder` after the loop. -/
def finishPlacement (problem : DsaProblem) (solution : DsaSolution) : DsaResult :=
  let structuralErrors := validateSolution (withoutCaps problem) solution
  let objective := evaluateObjective problem solution
  if structuralErrors ≠ [] then
    { status := .infeasibleProven, solution := some solution, objective := objective
      diagnostics := structuralErrors }
  else
    let messages := problem.pools.flatMap (overCapacityMessages objective)
    { status := if messages ≠ [] then .bestEffortNoFit else .feasible
      solution := some solution, objective := objective, diagnostics := messages }

/-- The order of the loop: pinned classes first (`std::stable_partition`). -/
def placementOrder (prepared : PreparedProblem) (priority : List BufferId)
    (strategy : PlacementStrategy) : List ℕ :=
  let order := sortedSuperOrder prepared priority strategy
  order.filter (fun index => (prepared.superAt index).pinned.isSome) ++
    order.filter (fun index => (prepared.superAt index).pinned.isNone)

/-- `PlaceWithOrder`. -/
def placeWithOrder (problem : DsaProblem) (priority : List BufferId)
    (strategy : PlacementStrategy) : DsaResult :=
  let prepared := prepare problem
  if prepared.errors ≠ [] then { status := .invalidProblem, diagnostics := prepared.errors }
  else if prepared.flexiblePools then
    { status := .unsupported
      diagnostics := ["first-fit does not support flexible pool assignment"] }
  else
    match placeAll problem prepared strategy (placementOrder prepared priority strategy) {} with
    | .error (status, message) => { status := status, diagnostics := [message] }
    | .ok state => finishPlacement problem state.solution

end Dsa
