import DsaSolver.CapacityTwoSolver
import DsaSolver.CardinalityMatching
import DsaSolver.FirstFitSolver

/-! # The span-one solver

`SpanOneMinCostFlowSolver` of `reuse_penalty_portfolio_solvers.cpp`: the hard components of a
pool of unit buffers are cliques, its phases, and soft edges connect consecutive phases.  The
phases are coloured one after the other; a minimum matching says which colours of a phase the
next one takes over. -/

namespace Dsa

namespace SpanOneMinCostFlowSolver

structure Options where
  maxPhaseBuffers : ℕ := 512

/-- `NodeBirth`. -/
def nodeBirth (problem : DsaProblem) (node : PlacementSearchNode) : Int64 :=
  earliestBirth problem node

/-- A node of no phase holds the largest index in the source. -/
structure SpanPool where
  unit : UInt64 := 0
  colors : UInt64 := 0
  phases : List (List ℕ) := []
  phaseByNode : List (Option ℕ)
deriving DecidableEq, Repr

/-! ### `BuildSpanPool` -/

section shape

variable (search : ReusePenaltySearchSpace) (pool : PoolId)

/-- One iteration of the loop over the nodes; none where the sizes or the alignments differ. -/
def collectNode (state : List ℕ × UInt64) (node : ℕ) : Option (List ℕ × UInt64) :=
  if (search.nodeAt node).pool != pool then some state
  else
    let unit := if state.2 == 0 then (search.nodeAt node).size else state.2
    if (search.nodeAt node).size != unit || unit % (search.nodeAt node).alignment != 0 then none
    else some (state.1 ++ [node], unit)

/-- One iteration of the loop over the hard neighbours. -/
def visitNeighbor (state : List Bool × List ℕ) (neighbor : ℕ) : List Bool × List ℕ :=
  if (search.nodeAt neighbor).pool == pool && !(state.1.getD neighbor false) then
    (state.1.set neighbor true, state.2 ++ [neighbor])
  else state

/-- The loop over the queue; every node enters it once. -/
def drain : ℕ → List Bool → List ℕ → List ℕ → List Bool × List ℕ
  | _, visited, [], component => (visited, component)
  | 0, visited, _ :: _, component => (visited, component)
  | fuel + 1, visited, current :: queue, component =>
      let (visited, queue) :=
        (search.hardNeighborsOf current).foldl (visitNeighbor search pool) (visited, queue)
      drain fuel visited queue (component ++ [current])

/-- The loops over the pairs of a component. -/
def isClique : List ℕ → Bool
  | [] => true
  | first :: rest =>
      (rest.all fun second => (search.hardNeighbors.getD first ∅).contains second) && isClique rest

def sortPhase (component : List ℕ) : List ℕ :=
  component.insertionSort fun first second =>
    (search.nodeAt first).representative ≤ (search.nodeAt second).representative

/-- One iteration of the loop over the starts. -/
def growPhase (colors : UInt64) (maxPhaseBuffers : ℕ) (state : List Bool × List (List ℕ))
    (start : ℕ) : Except (SolveStatus × String) (List Bool × List (List ℕ)) :=
  if state.1.getD start false then .ok state
  else
    let (visited, component) := drain search pool search.count (state.1.set start true) [start] []
    if !isClique search component then
      .error (.unsupported, "span_one_min_cost_flow requires every hard component to be a clique")
    else if colors.toNat < component.length then
      .error (.infeasibleProven, "a span-one phase contains more live buffers than capacity")
    else if maxPhaseBuffers < component.length then
      .error (.unsupported, "span_one_min_cost_flow phase exceeds max_phase_buffers")
    else .ok (visited, state.2 ++ [sortPhase search component])

/-- The comparison of the second `std::sort`. -/
def phaseBefore (problem : DsaProblem) (first second : List ℕ) : Bool :=
  let firstNode := search.nodeAt (first.headD 0)
  let secondNode := search.nodeAt (second.headD 0)
  let firstBirth := nodeBirth problem firstNode
  let secondBirth := nodeBirth problem secondNode
  if firstBirth != secondBirth then decide (firstBirth < secondBirth)
  else decide (firstNode.representative < secondNode.representative)

def sortPhases (problem : DsaProblem) (phases : List (List ℕ)) : List (List ℕ) :=
  phases.insertionSort fun first second => (!phaseBefore search problem second first) = true

def assignPhases (phases : List (List ℕ)) : List (Option ℕ) :=
  phases.zipIdx.foldl
    (fun phaseByNode entry =>
      entry.1.foldl (fun phaseByNode node => phaseByNode.set node (some entry.2)) phaseByNode)
    (List.replicate search.count none)

/-- The check of one soft weight. -/
def isAdjacent (phaseByNode : List (Option ℕ)) (pair : ℕ × ℕ) : Bool :=
  let firstPhase := (phaseByNode.getD pair.1 none).getD 0
  let secondPhase := (phaseByNode.getD pair.2 none).getD 0
  (if secondPhase < firstPhase then firstPhase - secondPhase else secondPhase - firstPhase) == 1

end shape

def buildSpanPool (problem : DsaProblem) (search : ReusePenaltySearchSpace) (poolId : PoolId)
    (maxPhaseBuffers : ℕ) : Except (SolveStatus × String) SpanPool :=
  match (problem.findPool poolId).bind fun pool => pool.capacity.map (pool, ·) with
  | none => .error (.unsupported, "span_one_min_cost_flow requires fixed capacities")
  | some (pool, capacity) =>
      if pool.reservedRanges ≠ [] then
        .error (.unsupported, "span_one_min_cost_flow does not support reserved ranges")
      else
        match (List.range search.count).foldlM (collectNode search poolId) ([], 0) with
        | none =>
            .error (.unsupported, "span_one_min_cost_flow requires uniform unit sizes and " ++
              "compatible alignment")
        | some (nodes, unit) =>
            if nodes = [] then .ok { unit, phaseByNode := List.replicate search.count none }
            else do
              let colors := capacity / unit
              let (_, phases) ← nodes.foldlM (growPhase search poolId colors maxPhaseBuffers)
                (List.replicate search.count false, [])
              let phases := sortPhases search problem phases
              let phaseByNode := assignPhases search phases
              if search.softWeights.toList.all fun entry =>
                  (search.nodeAt entry.1.1).pool != poolId || isAdjacent phaseByNode entry.1 then
                .ok { unit, colors, phases, phaseByNode }
              else
                .error (.unsupported, "span_one_min_cost_flow requires soft edges between " ++
                  "adjacent phases")

/-! ### `SolveSpanPool` -/

/-- Colours are naturals; they stay below the number of colours of the pool. -/
abbrev Colors := List ℕ

/-- The matrix `costs` of two consecutive phases. -/
def boundaryCosts (search : ReusePenaltySearchSpace) (left right : List ℕ) : List (List UInt64) :=
  left.map fun first => right.map fun second =>
    search.softWeights.getD (canonicalNodePair first second) 0

/-- The loop over the matching; the flags are `right_assigned`. -/
def takeOver (left right : List ℕ) (state : Colors × List Bool) (pair : ℕ × ℕ) :
    Colors × List Bool :=
  (state.1.set (right.getD pair.2 0) (state.1.getD (left.getD pair.1 0) 0),
    state.2.set pair.2 true)

/-- The loop over `next_free`; it passes every used colour once at most. -/
def skipUsed (used : List ℕ) : ℕ → ℕ → ℕ
  | 0, nextFree => nextFree
  | fuel + 1, nextFree =>
      if used.contains nextFree then skipUsed used fuel (nextFree + 1) else nextFree

/-- One iteration of the loop over the second phase; none where the colours run out. -/
def colorFree (used right : List ℕ) (colors : ℕ) (assigned : List Bool) (state : Colors × ℕ)
    (second : ℕ) : Option (Colors × ℕ) :=
  if assigned.getD second false then some state
  else
    let nextFree := skipUsed used used.length state.2
    if colors ≤ nextFree then none
    else some (state.1.set (right.getD second 0) nextFree, nextFree + 1)

/-- One iteration of the loop over the boundaries. -/
def joinPhase (search : ReusePenaltySearchSpace) (colors : ℕ) (left right : List ℕ)
    (state : Colors) : Except Fault (Option Colors) := do
  let required := left.length + right.length - colors
  match ← minimumCardinalityMatching (boundaryCosts search left right) required with
  | none => .ok none
  | some matching =>
      let used := left.map fun node => state.getD node 0
      let (state, assigned) := matching.foldl (takeOver left right)
        (state, List.replicate right.length false)
      .ok (((List.range right.length).foldlM (colorFree used right colors assigned)
        (state, 0)).map Prod.fst)

/-- The loop over the boundaries. -/
def joinPhases (search : ReusePenaltySearchSpace) (colors : ℕ) :
    List (List ℕ) → Colors → Except Fault (Option Colors)
  | left :: right :: rest, state => do
      match ← joinPhase search colors left right state with
      | none => .ok none
      | some state => joinPhases search colors (right :: rest) state
  | _, state => .ok (some state)

/-- The colours of the first phase. -/
def firstColors (search : ReusePenaltySearchSpace) (phases : List (List ℕ)) : Colors :=
  (phases.headD []).zipIdx.foldl (fun colors entry => colors.set entry.1 entry.2)
    (List.replicate search.count 0)

/-- The colours of a pool; a pool without phases has its offsets at once in the source. -/
def solveSpanPool (search : ReusePenaltySearchSpace) (span : SpanPool) :
    Except Fault (Option (List UInt64)) := do
  match ← joinPhases search span.colors.toNat span.phases (firstColors search span.phases) with
  | none => .ok none
  | some colors =>
      .ok (some (colors.zipIdx.map fun entry =>
        if (span.phaseByNode.getD entry.2 none).isSome then UInt64.ofNat entry.1 * span.unit
        else 0))

/-! ### `Solve` -/

/-- `ReuseBeforePeakLimitation`. -/
def reuseBeforePeakLimitation (problem : DsaProblem) (name : String) : Option String :=
  match (objectiveIndices problem).reuse, (objectiveIndices problem).firstPeak with
  | none, _ => some (name ++ " requires reuse_cost in the objective")
  | some reuse, some peak =>
      if peak < reuse then some (name ++ " requires reuse_cost before peak metrics") else none
  | some _, none => none

/-- What the loop over the pools has gathered. -/
structure SolveState where
  offsets : List UInt64
  phases : UInt64 := 0
  boundaries : UInt64 := 0

/-- One iteration of the loop over the pools; a pool without an answer ends it. -/
def joinPool (problem : DsaProblem) (search : ReusePenaltySearchSpace) (options : Options)
    (state : SolveState) (pool : Pool) : Except Fault (Except DsaResult SolveState) :=
  match buildSpanPool problem search pool.id options.maxPhaseBuffers with
  | .error (status, diagnostic) =>
      .ok (.error { status := status, diagnostics := [diagnostic] })
  | .ok span => do
      match ← solveSpanPool search span with
      | none =>
          .ok (.error
            { status := .unsupported
              diagnostics := ["span_one_min_cost_flow could not represent matching costs safely"] })
      | some poolOffsets =>
          .ok (.ok
            { offsets := mergePoolOffsets search pool.id state.offsets poolOffsets
              phases := saturatingAdd state.phases (UInt64.ofNat span.phases.length)
              boundaries :=
                if span.phases.isEmpty then state.boundaries
                else saturatingAdd state.boundaries (UInt64.ofNat (span.phases.length - 1)) })

/-- The loop over the pools. -/
def joinPools (problem : DsaProblem) (search : ReusePenaltySearchSpace) (options : Options) :
    List Pool → SolveState → Except Fault (Except DsaResult SolveState)
  | [], state => .ok (.ok state)
  | pool :: rest, state => do
      match ← joinPool problem search options state pool with
      | .error result => .ok (.error result)
      | .ok state => joinPools problem search options rest state

/-- The solver after its loop over the pools. -/
def finishSolve (problem : DsaProblem) (search : ReusePenaltySearchSpace) (state : SolveState) :
    DsaResult :=
  let result := buildValidatedReuseResult problem search state.offsets .feasible
  { result with
    solverMetrics := Std.TreeMap.ofList
      [("phases", state.phases), ("phase_boundaries", state.boundaries),
        ("optimal_reuse_cost_proven", 1)]
    diagnostics := result.diagnostics ++
      ["span_one_min_cost_flow proved minimum reuse cost by independent " ++
        "adjacent-phase cardinality matchings; peak tie-breaking is not optimized"] }

/-- The solver after its checks. -/
def solvePrepared (options : Options) (problem : DsaProblem) (search : ReusePenaltySearchSpace) :
    Except Fault DsaResult := do
  match ← joinPools problem search options problem.pools
      { offsets := List.replicate search.count 0 } with
  | .error result => .ok result
  | .ok state => .ok (finishSolve problem search state)

/-- `SpanOneMinCostFlowSolver::Solve`. -/
def solve (options : Options) (problem : DsaProblem) : Except Fault DsaResult :=
  if !(checkSolverCompatibility problem capacityTwoCapabilities).compatible then
    .ok (rejectUnsupported problem "span_one_min_cost_flow" capacityTwoCapabilities)
  else
    match reuseBeforePeakLimitation problem "span_one_min_cost_flow" with
    | some limitation => .ok { status := .unsupported, diagnostics := [limitation] }
    | none =>
        let search := buildReusePenaltySearchSpace problem
        if search.placement.errors ≠ [] then
          .ok { status := .invalidProblem, diagnostics := search.placement.errors }
        else solvePrepared options problem search

end SpanOneMinCostFlowSolver

end Dsa
