import DsaSolver.Theory.Word

/-! # Minimum-cost matchings of a given size

`MinimumCardinalityMatching` of `reuse_penalty_portfolio_solvers.cpp`: successive shortest
augmenting paths, found by Bellman-Ford passes that relax in place.  Costs and distances are
`Int64`; capacities are integers and indices naturals.  The walk from the sink has fuel, one unit
a vertex; `Fault` tells running out of it and an overflow of `int` from the results of the
source.  The member `to` of `FlowArc` is `target`. -/

namespace Dsa

/-- What the source leaves undefined or would not return from. -/
inductive Fault where
  /-- The number of vertices does not fit `int`. -/
  | intOverflow
  /-- The walk along the predecessors takes more steps than there are vertices. -/
  | outOfFuel
deriving DecidableEq, Repr

/-- `std::numeric_limits<int>::max()`. -/
def maxInt : ℕ := 2147483647

/-- `std::numeric_limits<std::int64_t>::max() / 4`. -/
def kInfinity : Int64 := 2305843009213693951

structure FlowArc where
  target : ℕ := 0
  reverse : ℕ := 0
  capacity : ℤ := 0
  cost : Int64 := 0
  matchingArc : Bool := false
  right : ℕ := 0
deriving DecidableEq, Repr

abbrev FlowGraph := List (List FlowArc)

/-- `AddFlowArc`. -/
def addFlowArc (graph : FlowGraph) (start target : ℕ) (capacity : ℤ) (cost : Int64)
    (matchingArc : Bool) (right : ℕ) : FlowGraph :=
  let forwardReverse := (graph.getD target []).length
  let reverseReverse := (graph.getD start []).length
  let graph := graph.modify start
    (· ++ [{ target, reverse := forwardReverse, capacity, cost, matchingArc, right }])
  graph.modify target (· ++ [{ target := start, reverse := reverseReverse, capacity := 0, cost := -cost }])

/-- The entry `costs[left][right]`. -/
def costAt (costs : List (List UInt64)) (left right : ℕ) : UInt64 := (costs.getD left []).getD right 0

/-- The network: the source is vertex 0, then the rows, the columns and the sink. -/
def matchingNetwork (costs : List (List UInt64)) (leftCount rightCount : ℕ) : FlowGraph :=
  let leftBegin := 1
  let rightBegin := leftBegin + leftCount
  let sink := rightBegin + rightCount
  let graph : FlowGraph := List.replicate (sink + 1) []
  let graph := (List.range leftCount).foldl (fun graph left =>
    let graph := addFlowArc graph 0 (leftBegin + left) 1 0 false 0
    (List.range rightCount).foldl (fun graph right =>
      addFlowArc graph (leftBegin + left) (rightBegin + right) 1 (costAt costs left right).toInt64
        true right) graph) graph
  (List.range rightCount).foldl (fun graph right =>
    addFlowArc graph (rightBegin + right) sink 1 0 false 0) graph

/-! ### Shortest paths -/

/-- The vectors `distance`, and `previous_vertex` with `previous_arc`. -/
structure PathLabels where
  distance : List Int64
  previous : List (Option (ℕ × ℕ))

/-- One arc of the innermost loop; the flag is `changed`. -/
def relaxArc (start : ℕ) (state : PathLabels × Bool) (entry : FlowArc × ℕ) : PathLabels × Bool :=
  let (arc, arcIndex) := entry
  if arc.capacity = 0 then state
  else
    let candidate := state.1.distance.getD start kInfinity + arc.cost
    if candidate < state.1.distance.getD arc.target kInfinity then
      ({ distance := state.1.distance.set arc.target candidate
         previous := state.1.previous.set arc.target (some (start, arcIndex)) }, true)
    else state

def relaxVertex (graph : FlowGraph) (state : PathLabels × Bool) (start : ℕ) : PathLabels × Bool :=
  if state.1.distance.getD start kInfinity = kInfinity then state
  else (graph.getD start []).zipIdx.foldl (relaxArc start) state

/-- One iteration of the passes. -/
def relaxPass (graph : FlowGraph) (labels : PathLabels) : PathLabels × Bool :=
  (List.range graph.length).foldl (relaxVertex graph) (labels, false)

/-- The passes; they stop early when one changes nothing. -/
def shortestPaths (graph : FlowGraph) : ℕ → PathLabels → PathLabels
  | 0, labels => labels
  | iterations + 1, labels =>
      let (labels, changed) := relaxPass graph labels
      if changed then shortestPaths graph iterations labels else labels

def initialPathLabels (size : ℕ) : PathLabels where
  distance := (List.replicate size kInfinity).set 0 0
  previous := List.replicate size none

/-! ### Augmentation -/

/-- One unit along the arc number `arcIndex` of `start`, which leads to `vertex`. -/
def pushArc (graph : FlowGraph) (start arcIndex vertex : ℕ) : FlowGraph :=
  let arc := (graph.getD start []).getD arcIndex {}
  let graph := graph.modify start
    (·.modify arcIndex fun arc => { arc with capacity := arc.capacity - 1 })
  graph.modify vertex
    (·.modify arc.reverse fun arc => { arc with capacity := arc.capacity + 1 })

/-- The walk from a vertex back to the source. -/
def augment (previous : List (Option (ℕ × ℕ))) :
    ℕ → FlowGraph → ℕ → Except Fault (Option FlowGraph)
  | fuel, graph, vertex =>
      if vertex = 0 then .ok (some graph)
      else
        match fuel with
        | 0 => .error .outOfFuel
        | fuel + 1 =>
            match previous.getD vertex none with
            | none => .ok none
            | some (start, arcIndex) =>
                augment previous fuel (pushArc graph start arcIndex vertex) start

/-- One unit of flow along a shortest path, if the sink can be reached. -/
def augmentOnce (sink : ℕ) (graph : FlowGraph) : Except Fault (Option FlowGraph) :=
  let labels := shortestPaths graph (graph.length - 1) (initialPathLabels graph.length)
  if labels.distance.getD sink kInfinity = kInfinity then .ok none
  else augment labels.previous graph.length graph sink

/-- The loop over `flow`. -/
def augmentAll (sink : ℕ) : ℕ → FlowGraph → Except Fault (Option FlowGraph)
  | 0, graph => .ok (some graph)
  | flow + 1, graph => do
      match ← augmentOnce sink graph with
      | none => .ok none
      | some graph => augmentAll sink flow graph

/-- The saturated arcs of the rows. -/
def extractMatching (graph : FlowGraph) (leftCount : ℕ) : List (ℕ × ℕ) :=
  (List.range leftCount).flatMap fun left =>
    ((graph.getD (1 + left) []).filter fun arc => arc.matchingArc && arc.capacity == 0).map
      fun arc => (left, arc.right)

/-- The loop that checks the rows and adds the costs up. -/
def totalWeight (costs : List (List UInt64)) (rightCount : ℕ) : Option UInt64 :=
  costs.foldlM (fun total row =>
    if row.length ≠ rightCount then none
    else row.foldlM (fun total cost =>
      if cost > kInfinity.toUInt64 then none else some (Theory.satAdd total cost)) total) 0

def minimumCardinalityMatching (costs : List (List UInt64)) (cardinality : ℕ) :
    Except Fault (Option (List (ℕ × ℕ))) :=
  let leftCount := costs.length
  let rightCount := (costs.headD []).length
  if cardinality = 0 then .ok (some [])
  else if leftCount > maxInt ∨ rightCount > maxInt ∨ cardinality > min leftCount rightCount then
    .ok none
  else
    match totalWeight costs rightCount with
    | none => .ok none
    | some total =>
        if total > kInfinity.toUInt64 then .ok none
        -- `sink + 1` is computed in `int`
        else if leftCount + rightCount + 2 > maxInt then .error .intOverflow
        else do
          let sink := 1 + leftCount + rightCount
          match ← augmentAll sink cardinality (matchingNetwork costs leftCount rightCount) with
          | none => .ok none
          | some graph =>
              let matching := extractMatching graph leftCount
              if matching.length ≠ cardinality then .ok none else .ok (some matching)

example : minimumCardinalityMatching [[4, 1], [2, 0]] 2 = .ok (some [(0, 1), (1, 0)]) := by
  decide +kernel

end Dsa
