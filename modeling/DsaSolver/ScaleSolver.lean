import DsaSolver.Compatibility
import DsaSolver.ReuseSearch
import DsaSolver.Theory.Loops

/-! # The scale-separated grid solver

`reuse_penalty_scale_solver.cpp`: the large buffers of each pool are placed on a grid of offsets
by a sweep over their births that remembers a window of offsets, the small ones on tracks
above them.  A failed pool is an `Except.error` with its status and diagnostic; the map
`rank_by_node` is the search for the node among the timed nodes, `state_index` the search for
the key among the entries, and the two loops over the entries and the colours are one list of
transitions. -/

namespace Dsa

namespace ScaleGrid

def kNoIndex : ℕ := 18446744073709551615

structure Options where
  maxLargeFractionDenominator : UInt64 := 8
  epsilonDenominator : UInt64 := 2
  maxSoftSpan : ℕ := 4
  maxDpStates : UInt64 := 2000000
  maxDpTransitions : UInt64 := 20000000
  maxGridOffsets : ℕ := 256
deriving DecidableEq, Repr

structure TimedNode where
  node : ℕ := 0
  birth : Int64 := 0
  death : Int64 := 0
  roundedSize : UInt64 := 0
deriving DecidableEq, Repr

structure DpEntry where
  key : List UInt32 := []
  cost : UInt64 := 0
  predecessor : ℕ := kNoIndex
  assignedOffset : UInt32 := 0
deriving DecidableEq, Repr

/-- The status and the diagnostic of a pool that is not placed. -/
structure Failure where
  status : SolveStatus := .unsupported
  diagnostic : String
deriving DecidableEq, Repr

def failIf (condition : Bool) (failure : Failure) : Except Failure Unit :=
  if condition then .error failure else .ok ()

def scaleCapabilities : SolverCapabilities :=
  { multiInterval := true
    reuseCost := true
    colocations := true
    separations := true
    temporalExclusions := true
    multiPool := true
    lexicographicObjective := true
    capacityObjective := true
    peakObjective := false }

def objectiveLimitation (problem : DsaProblem) : Option String :=
  let terms := problem.objective.terms
  match terms.findIdx? (· == .reuseCost),
      terms.findIdx? (fun metric => metric == .totalPeak || metric == .maxPeak) with
  | none, _ => some "scale_separated_grid_dp requires reuse_cost in the objective"
  | some _, none => none
  | some reuseIndex, some peakIndex =>
      if peakIndex < reuseIndex then
        some "scale_separated_grid_dp requires reuse_cost before peak metrics"
      else none

/-- `LeastCommonMultiple`. -/
def commonMultiple (first second : UInt64) : Option UInt64 :=
  let divisor := UInt64.ofNat (Nat.gcd first.toNat second.toNat)
  let reduced := first / divisor
  if second != 0 && decide (reduced > maxU64 / second) then none else some (reduced * second)

def ceilDivide (numerator denominator : UInt64) : UInt64 :=
  numerator / denominator + if numerator % denominator != 0 then 1 else 0

/-! ### Lifetimes and the small band -/

section nodes

variable (problem : DsaProblem) (search : ReusePenaltySearchSpace)

/-- The loop of `LifetimeHull` over the members. -/
def membersHull : List BufferId → Int64 × Int64 → Option (Int64 × Int64)
  | [], hull => some hull
  | member :: rest, hull =>
      match problem.findBuffer member with
      | none => none
      | some buffer =>
          membersHull rest (buffer.liveIntervals.foldl
            (fun hull interval => (min hull.1 interval.lower, max hull.2 interval.upper)) hull)

/-- `LifetimeHull`. -/
def nodeHull (node : PlacementSearchNode) : Option (Int64 × Int64) :=
  match membersHull problem node.members (Int64.maxValue, Int64.minValue) with
  | none => none
  | some hull => if hull.1 ≥ hull.2 then none else some hull

def nodesInPool (pool : PoolId) : List ℕ :=
  (List.range search.count).filter fun node => (search.nodeAt node).pool == pool

/-- One step of the loop over the soft weights. -/
def minimumStep (pool : PoolId) (minimum : Option UInt64) (entry : (ℕ × ℕ) × UInt64) :
    Option UInt64 :=
  if (search.nodeAt entry.1.1).pool != pool then minimum
  else
    let pairMinimum := min (search.nodeAt entry.1.1).size (search.nodeAt entry.1.2).size
    match minimum with
    | none => some pairMinimum
    | some value => some (min value pairMinimum)

def minimumSoftEndpointSize (pool : PoolId) : Option UInt64 :=
  search.softWeights.toList.foldl (minimumStep search pool) none

/-- The tests of a node of the small band. -/
def isIntervalNode (smallNodes : List ℕ) (node : ℕ) : Bool :=
  (search.nodeAt node).members.length == 1 &&
    match problem.findBuffer ((search.nodeAt node).members.headD 0) with
    | none => false
    | some buffer =>
        buffer.liveIntervals.length == 1 &&
          (search.hardNeighborsOf node).all fun neighbor =>
            decide (node ≥ neighbor) || !smallNodes.contains neighbor ||
              match problem.findBuffer ((search.nodeAt neighbor).members.headD 0) with
              | none => false
              | some other => haveTemporalConflict problem buffer other

def isIntervalSmallBand (smallNodes : List ℕ) : Bool :=
  smallNodes.all (isIntervalNode problem search smallNodes) &&
    problem.temporalExclusions.all fun exclusion =>
      match search.nodeByBuffer exclusion.first, search.nodeByBuffer exclusion.second with
      | some first, some second => !(smallNodes.contains first && smallNodes.contains second)
      | _, _ => true

end nodes

/-! ### The sweep over the large nodes -/

section grid

variable (search : ReusePenaltySearchSpace) (nodes : List TimedNode) (options : Options)

def timedAt (rank : ℕ) : TimedNode := nodes.getD rank {}

/-- `rank_by_node`. -/
def rankOf (node : ℕ) : Option ℕ := nodes.findIdx? fun timed => timed.node == node

def softSpan (first second : ℕ) : ℕ :=
  let low := min first second
  let high := max first second
  if (timedAt nodes low).death > (timedAt nodes high).birth then 0
  else
    let firstAfterDeath := nodes.findIdx fun node => decide ((timedAt nodes low).death < node.birth)
    let lastAtBirth := nodes.findIdx fun node => decide ((timedAt nodes high).birth < node.birth)
    lastAtBirth - firstAfterDeath

/-- `last_partner[rank]` after the loop over the hard neighbours. -/
def hardPartner (rank : ℕ) : ℕ :=
  (search.hardNeighborsOf (timedAt nodes rank).node).foldl
    (fun last neighbor =>
      match rankOf nodes neighbor with
      | none => last
      | some other => if rank < other then max last other else last)
    rank

/-- The loop over the soft neighbours: `last_partner[rank]` and `max_soft_span`. -/
def softPartners (rank : ℕ) : List (ℕ × UInt64) → ℕ × ℕ → Except Failure (ℕ × ℕ)
  | [], found => .ok found
  | neighbor :: rest, found =>
      match rankOf nodes neighbor.1 with
      | none => softPartners rank rest found
      | some other =>
          if rank < other then
            let span := softSpan nodes rank other
            if span > options.maxSoftSpan then
              .error ⟨.unsupported, "scale_separated_grid_dp soft-edge span exceeds max_soft_span"⟩
            else softPartners rank rest (max found.1 other, max found.2 span)
          else softPartners rank rest found

def lastPartners : List ℕ → ℕ → Except Failure (List ℕ × ℕ)
  | [], maxSpan => .ok ([], maxSpan)
  | rank :: rest, maxSpan => do
      let found ← softPartners nodes options rank
        (search.softNeighborsOf (timedAt nodes rank).node) (hardPartner search nodes rank, maxSpan)
      let others ← lastPartners rest found.2
      .ok (found.1 :: others.1, others.2)

/-- `BuildWindows`. -/
def buildWindows (lastPartner : List ℕ) : List (List ℕ) :=
  (List.range nodes.length).map fun index =>
    if index + 1 < nodes.length then
      (List.range (index + 1)).filter fun prior =>
        decide ((timedAt nodes prior).death > (timedAt nodes (index + 1)).birth) ||
          decide (lastPartner.getD prior 0 ≥ index + 1)
    else []

/-- `OffsetFromState`: the colour of a rank of the window. -/
def offsetFromState (window : List ℕ) (entry : DpEntry) (rank : ℕ) : Option UInt32 :=
  let position := window.findIdx fun kept => decide (kept ≥ rank)
  if position == window.length || window.getD position 0 != rank then none
  else some (entry.key.getD position 0)

variable (previousWindow : List ℕ) (previous : DpEntry) (currentRank : ℕ) (color : UInt32)
  (quantum : UInt64)

/-- The rounded range of the current node overlaps that of an earlier one. -/
def roundedOverlap (neighborRank : ℕ) (neighborColor : UInt32) : Bool :=
  addressRangesOverlap (color.toUInt64 * quantum) (timedAt nodes currentRank).roundedSize
    (neighborColor.toUInt64 * quantum) (timedAt nodes neighborRank).roundedSize

def transitionFits : Bool :=
  (search.hardNeighborsOf (timedAt nodes currentRank).node).all fun neighbor =>
    match rankOf nodes neighbor with
    | none => true
    | some neighborRank =>
        if neighborRank ≥ currentRank then true
        else
          match offsetFromState previousWindow previous neighborRank with
          | none => false
          | some neighborColor =>
              !roundedOverlap nodes currentRank color quantum neighborRank neighborColor

/-- One step of the loop of `TransitionCost`. -/
def addSoftCost (cost : UInt64) (neighbor : ℕ × UInt64) : Option UInt64 :=
  match rankOf nodes neighbor.1 with
  | none => some cost
  | some neighborRank =>
      if neighborRank ≥ currentRank then some cost
      else
        match offsetFromState previousWindow previous neighborRank with
        | none => none
        | some neighborColor =>
            if roundedOverlap nodes currentRank color quantum neighborRank neighborColor then
              some (saturatingAdd cost neighbor.2)
            else some cost

def transitionCost : Option UInt64 :=
  (search.softNeighborsOf (timedAt nodes currentRank).node).foldlM
    (addSoftCost nodes previousWindow previous currentRank color quantum) 0

/-- The key of a candidate. -/
def candidateKey (nextWindow : List ℕ) : Option (List UInt32) :=
  nextWindow.mapM fun kept =>
    if kept == currentRank then some color else offsetFromState previousWindow previous kept

end grid

/-- The entries of a layer and the counters of the run. -/
structure GridState where
  entries : List DpEntry := []
  dpStates : UInt64 := 0
  dpTransitions : UInt64 := 0
deriving DecidableEq, Repr

section run

variable (search : ReusePenaltySearchSpace) (nodes : List TimedNode) (options : Options)
  (quantum : UInt64)

def insertCandidate (state : GridState) (candidate : DpEntry) : Except Failure GridState :=
  match state.entries.findIdx? fun entry => entry.key = candidate.key with
  | none =>
      if options.maxDpStates != 0 && decide (state.dpStates ≥ options.maxDpStates) then
        .error ⟨.timeout, "scale_separated_grid_dp exhausted max_dp_states"⟩
      else
        .ok { state with
          entries := state.entries ++ [candidate]
          dpStates := state.dpStates + 1 }
  | some found =>
      if candidate.cost < (state.entries.getD found candidate).cost then
        .ok { state with entries := state.entries.set found candidate }
      else .ok state

/-- An entry, its index and a colour. -/
abbrev Transition := (DpEntry × ℕ) × UInt32

/-- The body of the loop over the entries and the colours. -/
def transition (previousWindow nextWindow : List ℕ) (rank : ℕ) (state : GridState)
    (step : Transition) : Except Failure GridState :=
  let previous := step.1.1
  let color := step.2
  if options.maxDpTransitions != 0 &&
      decide (state.dpTransitions ≥ options.maxDpTransitions) then
    .error ⟨.timeout, "scale_separated_grid_dp exhausted max_dp_transitions"⟩
  else
    let counted := { state with dpTransitions := state.dpTransitions + 1 }
    if !transitionFits search nodes previousWindow previous rank color quantum then .ok counted
    else
      match transitionCost search nodes previousWindow previous rank color quantum with
      | none =>
          .error ⟨.invalidProblem, "scale_separated_grid_dp lost a pending soft-edge endpoint"⟩
      | some addedCost =>
          match candidateKey previousWindow previous rank color nextWindow with
          | none => .error ⟨.invalidProblem, "scale_separated_grid_dp lost a live endpoint"⟩
          | some key =>
              insertCandidate options counted
                { key := key
                  cost := saturatingAdd previous.cost addedCost
                  predecessor := step.1.2
                  assignedOffset := color }

/-- The pairs of an entry and a colour, in the order of the loops. -/
def transitions (entries : List DpEntry) (colorCount : UInt64) : List Transition :=
  entries.zipIdx.flatMap fun entry =>
    (List.range colorCount.toNat).map fun color => (entry, UInt32.ofNat color)

/-- The number of colours of a node. -/
def colorCount (largeLimit : UInt64) (rank : ℕ) : UInt64 :=
  (largeLimit - (timedAt nodes rank).roundedSize) / quantum + 1

/-- `windows[rank - 1]`, empty for the first node. -/
def windowBefore (windows : List (List ℕ)) (rank : ℕ) : List ℕ :=
  if rank == 0 then [] else windows.getD (rank - 1) []

/-- One iteration of the loop over the ranks. -/
def gridLayer (largeLimit : UInt64) (windows : List (List ℕ)) (previous : List DpEntry)
    (dpStates dpTransitions : UInt64) (rank : ℕ) : Except Failure GridState := do
  failIf (decide ((timedAt nodes rank).roundedSize > largeLimit))
    ⟨.unsupported, "scale_separated_grid_dp rounded buffer exceeds augmented band"⟩
  let count := colorCount nodes quantum largeLimit rank
  failIf (decide (count.toNat > options.maxGridOffsets) || decide (count.toNat > 4294967295))
    ⟨.unsupported, "scale_separated_grid_dp grid-offset count exceeds guard"⟩
  let layer ← (transitions previous count).foldlM
    (transition search nodes options quantum (windowBefore windows rank) (windows.getD rank [])
      rank) ⟨[], dpStates, dpTransitions⟩
  failIf layer.entries.isEmpty
    ⟨.infeasibleProven, "scale_separated_grid_dp found no large-buffer grid placement"⟩
  .ok layer

/-- The loop over the ranks: the layers, and the counters with the largest number of colours. -/
def gridLayers (largeLimit : UInt64) (windows : List (List ℕ)) :
    List ℕ → List DpEntry → UInt64 × UInt64 × UInt64 →
      Except Failure (List (List DpEntry) × UInt64 × UInt64 × UInt64)
  | [], _, counters => .ok ([], counters)
  | rank :: rest, previous, counters => do
      let layer ← gridLayer search nodes options quantum largeLimit windows previous counters.1
        counters.2.1 rank
      let others ← gridLayers largeLimit windows rest layer.entries
        (layer.dpStates, layer.dpTransitions,
          max counters.2.2 (colorCount nodes quantum largeLimit rank))
      .ok (layer.entries :: others.1, others.2)

/-- `std::min_element` by cost. -/
def minElement (entries : List DpEntry) : ℕ :=
  entries.findIdx fun entry => entries.all fun other => decide (entry.cost ≤ other.cost)

/-- The colours found by following the predecessors from a state of the last layer back. -/
def followBack (layers : List (List DpEntry)) : ℕ → ℕ → List UInt32
  | 0, _ => []
  | layer + 1, state =>
      let entry := (layers.getD layer []).getD state {}
      followBack layers layer entry.predecessor ++ [entry.assignedOffset]

structure GridResult where
  colors : List UInt32 := []
  roundedCost : UInt64 := 0
  dpStates : UInt64 := 0
  dpTransitions : UInt64 := 0
  maxWindow : ℕ := 0
  maxSoftSpan : ℕ := 0
  maxGridOffsets : UInt64 := 0
deriving DecidableEq, Repr

/-- `RunGridDp`. -/
def runGridDp (largeLimit : UInt64) : Except Failure GridResult := do
  let partners ← lastPartners search nodes options (List.range nodes.length) 0
  let windows := buildWindows nodes partners.1
  let run ← gridLayers search nodes options quantum largeLimit windows (List.range nodes.length)
    [{}] (0, 0, 0)
  let last := run.1.getD (nodes.length - 1) []
  let state := minElement last
  .ok
    { colors := followBack run.1 nodes.length state
      roundedCost := (last.getD state {}).cost
      dpStates := run.2.1
      dpTransitions := run.2.2.1
      maxWindow := windows.foldl (fun widest window => max widest window.length) 0
      maxSoftSpan := partners.2
      maxGridOffsets := run.2.2.2 }

end run

/-! ### The tracks of the small nodes -/

/-- The loop of `HarmonicUpper`; it halves at most 64 times. -/
def halveUnits (sizeUnits : UInt64) : ℕ → UInt64 → UInt64
  | 0, upper => upper
  | fuel + 1, upper =>
      if upper ≤ 1 then upper
      else
        let next := (upper + 1) / 2
        if next < sizeUnits || next == upper then upper else halveUnits sizeUnits fuel next

def harmonicUpper (size threshold addressQuantum : UInt64) : UInt64 :=
  halveUnits (size / addressQuantum) 64 (ceilDivide threshold addressQuantum) * addressQuantum

section tracks

variable (problem : DsaProblem) (search : ReusePenaltySearchSpace)

/-- The classes of the small nodes by their upper sizes, the largest first. -/
def harmonicClasses (smallNodes : List ℕ) (threshold addressQuantum : UInt64) :
    List (UInt64 × List ℕ) :=
  let upper := fun node => harmonicUpper (search.nodeAt node).size threshold addressQuantum
  ((smallNodes.map upper).dedup.insertionSort (· ≥ ·)).map fun value =>
    (value, smallNodes.filter fun node => upper node == value)

/-- The comparator of the nodes of a class. -/
def smallBefore (first second : ℕ) : Bool :=
  match nodeHull problem (search.nodeAt first), nodeHull problem (search.nodeAt second) with
  | some firstHull, some secondHull =>
      decide (firstHull.1 < secondHull.1) ||
        (firstHull.1 == secondHull.1 &&
          decide ((search.nodeAt first).representative < (search.nodeAt second).representative))
  | _, _ => decide (first < second)

/-- The least colour that is not blocked. -/
def leastFree (blocked : List ℕ) : ℕ :=
  ((List.range (blocked.length + 1)).find? fun color => !blocked.contains color).getD 0

/-- The colours of a class so far.  A colour is less than the number of buffers, so it fits the
32 bits of the source. -/
structure TrackState where
  colorByNode : List (ℕ × ℕ) := []
  colorCount : ℕ := 0
  offsets : List UInt64 := []
deriving DecidableEq, Repr

def addressFailure : Failure :=
  ⟨.invalidProblem, "scale_separated_grid_dp small-band address overflows"⟩

/-- The body of the loop over the nodes of a class. -/
def placeOnTrack (trackSize base : UInt64) (state : TrackState) (node : ℕ) :
    Except Failure TrackState := do
  let blocked := (search.hardNeighborsOf node).filterMap fun neighbor =>
    state.colorByNode.lookup neighbor
  let color := leastFree blocked
  failIf (color != 0 && decide (trackSize.toNat > 18446744073709551615 / color)) addressFailure
  let displacement := UInt64.ofNat color * trackSize
  failIf (addOverflows base displacement) addressFailure
  .ok
    { colorByNode := (node, color) :: state.colorByNode
      colorCount := max state.colorCount (color + 1)
      offsets := state.offsets.set node (base + displacement) }

structure SmallBand where
  offsets : List UInt64 := []
  top : UInt64 := 0
  smallTracks : UInt64 := 0
deriving DecidableEq, Repr

/-- The body of the loop over the classes. -/
def placeClass (addressQuantum : UInt64) (band : SmallBand) (trackClass : UInt64 × List ℕ) :
    Except Failure SmallBand :=
  match alignUp trackClass.1 addressQuantum, alignUp band.top addressQuantum with
  | some trackSize, some base => do
      let sorted := trackClass.2.insertionSort fun first second =>
        (!smallBefore problem search second first) = true
      let state ← sorted.foldlM (placeOnTrack search trackSize base) ⟨[], 0, band.offsets⟩
      failIf (state.colorCount != 0 &&
          decide (trackSize.toNat > (18446744073709551615 - base.toNat) / state.colorCount))
        ⟨.invalidProblem, "scale_separated_grid_dp small-band height overflows"⟩
      .ok
        { offsets := state.offsets
          top := base + UInt64.ofNat state.colorCount * trackSize
          smallTracks := saturatingAdd band.smallTracks (UInt64.ofNat state.colorCount) }
  | _, _ => .error addressFailure

/-- `PlaceSmallBand`. -/
def placeSmallBand (smallNodes : List ℕ) (threshold addressQuantum start : UInt64)
    (offsets : List UInt64) : Except Failure SmallBand :=
  (harmonicClasses search smallNodes threshold addressQuantum).foldlM
    (placeClass problem search addressQuantum) ⟨offsets, start, 0⟩

end tracks

/-! ### One pool -/

structure PoolScaleResult where
  offsets : List UInt64 := []
  roundedCost : UInt64 := 0
  gridQuantum : UInt64 := 0
  largeBandLimit : UInt64 := 0
  smallBandHeight : UInt64 := 0
  dpStates : UInt64 := 0
  dpTransitions : UInt64 := 0
  smallTracks : UInt64 := 0
  maxWindow : ℕ := 0
  maxSoftSpan : ℕ := 0
  maxGridOffsets : UInt64 := 0
  largeNodes : ℕ := 0
  smallNodes : ℕ := 0
deriving DecidableEq, Repr

section pool

variable (problem : DsaProblem) (search : ReusePenaltySearchSpace) (options : Options)

/-- The loop that merges the alignments of nodes. -/
def mergeAlignments (failure : Failure) (start : UInt64) (nodes : List ℕ) : Except Failure UInt64 :=
  nodes.foldlM
    (fun merged node =>
      match commonMultiple merged (search.nodeAt node).alignment with
      | none => .error failure
      | some multiple => .ok multiple)
    start

/-- The large node with its hull and its rounded size. -/
def timeNode (quantum : UInt64) (node : ℕ) : Except Failure TimedNode :=
  match nodeHull problem (search.nodeAt node), alignUp (search.nodeAt node).size quantum with
  | some hull, some rounded => .ok ⟨node, hull.1, hull.2, rounded⟩
  | _, _ => .error ⟨.invalidProblem, "scale_separated_grid_dp cannot normalize a large buffer"⟩

/-- `std::tie(birth, death, representative)` of the first node is less. -/
def timedBefore (first second : TimedNode) : Bool :=
  decide (first.birth < second.birth) || (first.birth == second.birth &&
    (decide (first.death < second.death) || (first.death == second.death &&
      decide ((search.nodeAt first.node).representative <
        (search.nodeAt second.node).representative))))

/-- A pool without soft penalties. -/
def solveSoftFree (poolNodes : List ℕ) (capacity poolAlignment : UInt64) (offsets : List UInt64) :
    Except Failure PoolScaleResult := do
  failIf (!isIntervalSmallBand problem search poolNodes)
    ⟨.unsupported, "scale_separated_grid_dp soft-free pool requires the interval small-band profile"⟩
  let band ← placeSmallBand problem search poolNodes capacity poolAlignment 0 offsets
  .ok
    { offsets := band.offsets
      smallBandHeight := band.top
      smallTracks := band.smallTracks
      smallNodes := poolNodes.length }

/-- The offsets of the large nodes and the largest end among them. -/
def placeLarge (quantum : UInt64) (timed : List TimedNode) (colors : List UInt32)
    (offsets : List UInt64) : List UInt64 × UInt64 :=
  timed.zipIdx.foldl
    (fun state entry =>
      let offset := (colors.getD entry.2 0).toUInt64 * quantum
      (state.1.set entry.1.node offset,
        max state.2 (offset + (search.nodeAt entry.1.node).size)))
    (offsets, 0)

/-- A pool with soft penalties, whose smallest soft endpoint has the given size. -/
def solveSoft (poolNodes : List ℕ) (capacity poolAlignment minimumLargeSize : UInt64)
    (offsets : List UInt64) : Except Failure PoolScaleResult := do
  failIf (decide (minimumLargeSize < ceilDivide capacity options.maxLargeFractionDenominator))
    ⟨.unsupported,
      "scale_separated_grid_dp soft endpoints violate the configured scale separation"⟩
  let largeNodes := poolNodes.filter fun node => decide ((search.nodeAt node).size ≥ minimumLargeSize)
  let smallNodes := poolNodes.filter fun node => !decide ((search.nodeAt node).size ≥ minimumLargeSize)
  failIf (!isIntervalSmallBand problem search smallNodes)
    ⟨.unsupported, "scale_separated_grid_dp harmonic band requires singleton, single-interval " ++
      "small buffers with only temporal hard conflicts"⟩
  let gridAlignment ← mergeAlignments search
    ⟨.unsupported, "scale_separated_grid_dp grid alignment overflows"⟩ poolAlignment largeNodes
  let quantum := minimumLargeSize / options.epsilonDenominator / gridAlignment * gridAlignment
  failIf (quantum == 0)
    ⟨.unsupported,
      "scale_separated_grid_dp cannot form an alignment-compatible grid quantum"⟩
  let augmentation := ceilDivide capacity options.epsilonDenominator
  failIf (addOverflows capacity augmentation)
    ⟨.invalidProblem, "scale_separated_grid_dp augmented capacity overflows"⟩
  let largeLimit := capacity + augmentation
  let unsorted ← largeNodes.mapM (timeNode problem search quantum)
  let timed := unsorted.insertionSort fun first second => (!timedBefore search second first) = true
  let grid ← runGridDp search timed options quantum largeLimit
  let large := placeLarge search quantum timed grid.colors offsets
  let band ← placeSmallBand problem search smallNodes minimumLargeSize poolAlignment large.2 large.1
  .ok
    { offsets := band.offsets
      roundedCost := grid.roundedCost
      gridQuantum := quantum
      largeBandLimit := largeLimit
      smallBandHeight := band.top - large.2
      dpStates := grid.dpStates
      dpTransitions := grid.dpTransitions
      smallTracks := band.smallTracks
      maxWindow := grid.maxWindow
      maxSoftSpan := grid.maxSoftSpan
      maxGridOffsets := grid.maxGridOffsets
      largeNodes := largeNodes.length
      smallNodes := smallNodes.length }

/-- `SolvePool`. -/
def solvePool (pool : Pool) : Except Failure PoolScaleResult :=
  let offsets := List.replicate search.count 0
  match pool.capacity with
  | none => .error ⟨.unsupported, "scale_separated_grid_dp requires fixed pool capacities"⟩
  | some capacity => do
      failIf (!pool.reservedRanges.isEmpty)
        ⟨.unsupported, "scale_separated_grid_dp does not support reserved ranges"⟩
      let poolNodes := nodesInPool search pool.id
      if poolNodes.isEmpty then .ok { offsets := offsets }
      else
        let poolAlignment ← mergeAlignments search
          ⟨.unsupported, "scale_separated_grid_dp pool alignment overflows"⟩ 1 poolNodes
        failIf (poolNodes.any fun node => (search.nodeAt node).size % poolAlignment != 0)
          ⟨.unsupported, "scale_separated_grid_dp requires sizes on the common alignment grid"⟩
        match minimumSoftEndpointSize search pool.id with
        | none => solveSoftFree problem search poolNodes capacity poolAlignment offsets
        | some minimumLargeSize =>
            solveSoft problem search options poolNodes capacity poolAlignment minimumLargeSize offsets

end pool

/-! ### `Solve` -/

/-- The results of the pools solved so far. -/
structure Totals where
  offsets : List UInt64 := []
  roundedCost : UInt64 := 0
  gridQuantum : UInt64 := 0
  largeBandLimit : UInt64 := 0
  smallBandHeight : UInt64 := 0
  dpStates : UInt64 := 0
  dpTransitions : UInt64 := 0
  smallTracks : UInt64 := 0
  largeNodes : UInt64 := 0
  smallNodes : UInt64 := 0
  maxWindow : UInt64 := 0
  maxSoftSpan : UInt64 := 0
  maxGridOffsets : UInt64 := 0
  optimizedPools : UInt64 := 0

/-- The offsets with those of the nodes of a pool replaced. -/
def mergeOffsets (search : ReusePenaltySearchSpace) (pool : PoolId) (offsets own : List UInt64) :
    List UInt64 :=
  (List.range search.count).map fun node =>
    if (search.nodeAt node).pool == pool then own.getD node 0 else offsets.getD node 0

def addPool (search : ReusePenaltySearchSpace) (totals : Totals) (pool : PoolId)
    (result : PoolScaleResult) : Totals :=
  { offsets := mergeOffsets search pool totals.offsets result.offsets
    roundedCost := saturatingAdd totals.roundedCost result.roundedCost
    gridQuantum := max totals.gridQuantum result.gridQuantum
    largeBandLimit := max totals.largeBandLimit result.largeBandLimit
    smallBandHeight := saturatingAdd totals.smallBandHeight result.smallBandHeight
    dpStates := saturatingAdd totals.dpStates result.dpStates
    dpTransitions := saturatingAdd totals.dpTransitions result.dpTransitions
    smallTracks := saturatingAdd totals.smallTracks result.smallTracks
    largeNodes := saturatingAdd totals.largeNodes (UInt64.ofNat result.largeNodes)
    smallNodes := saturatingAdd totals.smallNodes (UInt64.ofNat result.smallNodes)
    maxWindow := max totals.maxWindow (UInt64.ofNat result.maxWindow)
    maxSoftSpan := max totals.maxSoftSpan (UInt64.ofNat result.maxSoftSpan)
    maxGridOffsets := max totals.maxGridOffsets result.maxGridOffsets
    optimizedPools := totals.optimizedPools + 1 }

/-- The loop over the pools. -/
def solvePools (problem : DsaProblem) (search : ReusePenaltySearchSpace) (options : Options) :
    Except Failure Totals :=
  problem.pools.foldlM
    (fun totals pool => do
      let result ← solvePool problem search options pool
      .ok (addPool search totals pool.id result))
    { offsets := List.replicate search.count 0 }

def buildBicriteriaResult (problem : DsaProblem) (search : ReusePenaltySearchSpace)
    (offsets : List UInt64) : DsaResult :=
  let solution := expandReuseNodeSolution search offsets
  let errors := validateSolution (withoutCaps problem) solution
  if errors ≠ [] then
    { status := .invalidProblem
      diagnostics :=
        "scale_separated_grid_dp produced a structurally invalid placement" :: errors }
  else
    let objective := evaluateObjective problem solution
    { status :=
        if evaluateObjectiveMetric problem objective .capacityOverflow == 0 then .feasible
        else .bestEffortNoFit
      objective := objective
      solution := some solution }

def metricsOf (options : Options) (totals : Totals) : Std.TreeMap String UInt64 :=
  Std.TreeMap.ofList
    [("optimized_pools", totals.optimizedPools), ("large_nodes", totals.largeNodes),
      ("small_nodes", totals.smallNodes), ("grid_quantum_max", totals.gridQuantum),
      ("large_band_limit_max", totals.largeBandLimit),
      ("small_band_bytes_total", totals.smallBandHeight), ("dp_states", totals.dpStates),
      ("dp_transitions", totals.dpTransitions), ("max_window_nodes", totals.maxWindow),
      ("max_soft_span", totals.maxSoftSpan), ("max_grid_offsets", totals.maxGridOffsets),
      ("rounded_dp_cost", totals.roundedCost),
      ("epsilon_denominator", options.epsilonDenominator),
      ("scale_denominator_bound", options.maxLargeFractionDenominator),
      ("small_tracks", totals.smallTracks), ("bicriteria_height_augmentation", 1)]

/-- `Solve` once the pools are placed. -/
def finishSolve (problem : DsaProblem) (search : ReusePenaltySearchSpace) (options : Options)
    (totals : Totals) : DsaResult :=
  let result := buildBicriteriaResult problem search totals.offsets
  if result.solution.isSome && decide (result.objective.reuseCost > totals.roundedCost) then
    { result with
      status := .invalidProblem
      solution := none
      diagnostics := result.diagnostics ++
        ["scale_separated_grid_dp true cost exceeds its rounded DP cost"] }
  else
    { result with
      solverMetrics := metricsOf options totals
      diagnostics := result.diagnostics ++
        ["scale_separated_grid_dp minimizes rounded large-buffer reuse cost and stacks a " ++
          "soft-edge-free harmonic small-buffer band; BestEffortNoFit denotes resource " ++
          "augmentation, not structural invalidity"] }

/-- `ScaleSeparatedGridDpSolver::Solve`. -/
def solve (options : Options) (problem : DsaProblem) : DsaResult :=
  let errors := validateProblem problem
  if errors ≠ [] then { status := .invalidProblem, diagnostics := errors }
  else if options.maxLargeFractionDenominator == 0 || options.epsilonDenominator == 0 ||
      options.maxGridOffsets == 0 then
    { status := .invalidProblem
      diagnostics :=
        ["scale_separated_grid_dp option denominators and grid guard must be nonzero"] }
  else
    let compatibility := checkSolverCompatibility problem scaleCapabilities
    if !compatibility.compatible then
      { status := .unsupported
        diagnostics :=
          (compatibility.unsupportedFeatures.map fun feature =>
            "scale_separated_grid_dp does not support feature '" ++ feature ++ "'") ++
          compatibility.unsupportedObjectives.map fun objective =>
            "scale_separated_grid_dp does not support objective '" ++ objective ++ "'" }
    else
      match objectiveLimitation problem with
      | some limitation => { status := .unsupported, diagnostics := [limitation] }
      | none =>
          let search := buildReusePenaltySearchSpace problem
          if search.placement.errors ≠ [] then
            { status := .invalidProblem, diagnostics := search.placement.errors }
          else if search.placement.flexiblePools then
            { status := .unsupported
              diagnostics :=
                ["scale_separated_grid_dp does not support flexible pool assignment"] }
          else if search.softWeights.isEmpty then
            { status := .unsupported
              diagnostics := ["scale_separated_grid_dp requires at least one soft reuse edge"] }
          else
            match solvePools problem search options with
            | .error failure => { status := failure.status, diagnostics := [failure.diagnostic] }
            | .ok totals => finishSolve problem search options totals

end ScaleGrid

end Dsa
