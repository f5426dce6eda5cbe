import DsaSolver.PlacementEngine
import Std.Data.TreeSet.Lemmas

/-! # The search view of a reuse-penalty problem

`reuse_penalty_search.cpp`: the nodes of the search are the colocation classes, with their
hard neighbours and with the soft records between two classes aggregated into one weight. -/

namespace Dsa

/-- The order of `std::map` keys that are pairs. -/
abbrev pairCompare : ℕ × ℕ → ℕ × ℕ → Ordering :=
  compareLex (compareOn Prod.fst) (compareOn Prod.snd)

def canonicalNodePair (first second : ℕ) : ℕ × ℕ :=
  if first < second then (first, second) else (second, first)

structure ReusePenaltySearchSpace where
  placement : PlacementSearchSpace := {}
  nodeByBuffer : BufferId → Option ℕ := fun _ => none
  hardNeighbors : List (Std.TreeSet ℕ) := []
  softWeights : Std.TreeMap (ℕ × ℕ) UInt64 pairCompare := ∅
  softNeighbors : List (List (ℕ × UInt64)) := []

namespace ReusePenaltySearchSpace

variable (search : ReusePenaltySearchSpace)

/-- `search.placement.nodes.size()`. -/
def count : ℕ := search.placement.nodes.length

def nodeAt (index : ℕ) : PlacementSearchNode := search.placement.nodes.getD index {}

def hardNeighborsOf (index : ℕ) : List ℕ := (search.hardNeighbors.getD index ∅).toList

def softNeighborsOf (index : ℕ) : List (ℕ × UInt64) := search.softNeighbors.getD index []

end ReusePenaltySearchSpace

/-! ### `BuildReusePenaltySearchSpace` -/

/-- `node_by_representative`. -/
def nodeByRepresentative (nodes : List PlacementSearchNode) (id : BufferId) : Option ℕ :=
  nodes.findIdx? fun node => node.representative == id

/-- `node_by_buffer`. -/
def nodeByMember (nodes : List PlacementSearchNode) (id : BufferId) : Option ℕ :=
  nodes.findIdx? fun node => node.members.contains id

/-- Insert the node of a representative. -/
def insertNeighbor (nodes : List PlacementSearchNode) (neighbors : Std.TreeSet ℕ)
    (representative : BufferId) : Std.TreeSet ℕ :=
  match nodeByRepresentative nodes representative with
  | none => neighbors
  | some neighbor => neighbors.insert neighbor

/-- The nodes whose representatives the node lists as conflicts. -/
def hardNeighborSet (nodes : List PlacementSearchNode) (node : PlacementSearchNode) :
    Std.TreeSet ℕ := node.conflicts.foldl (insertNeighbor nodes) ∅

/-- One iteration of the loop over the reuse penalties. -/
def addReusePenalty (nodes : List PlacementSearchNode) (hardNeighbors : List (Std.TreeSet ℕ))
    (weights : Std.TreeMap (ℕ × ℕ) UInt64 pairCompare) (penalty : ReusePenalty) :
    Std.TreeMap (ℕ × ℕ) UInt64 pairCompare :=
  match nodeByMember nodes penalty.first, nodeByMember nodes penalty.second with
  | some first, some second =>
      if first == second then weights
      else if (nodes.getD first {}).pool != (nodes.getD second {}).pool ||
          (hardNeighbors.getD first ∅).contains second then weights
      else
        let pair := canonicalNodePair first second
        weights.insert pair (saturatingAdd (weights.getD pair 0) penalty.cost)
  | _, _ => weights

/-- The records appended to `soft_neighbors[index]`, in the order of the map. -/
def softNeighborList (weights : Std.TreeMap (ℕ × ℕ) UInt64 pairCompare) (index : ℕ) :
    List (ℕ × UInt64) :=
  weights.toList.filterMap fun entry =>
    if entry.1.1 == index then some (entry.1.2, entry.2)
    else if entry.1.2 == index then some (entry.1.1, entry.2)
    else none

def buildReusePenaltySearchSpace (problem : DsaProblem) : ReusePenaltySearchSpace :=
  let placement := buildPlacementSearchSpace problem
  if placement.errors ≠ [] ∨ placement.flexiblePools then { placement := placement }
  else
    let hardNeighbors := placement.nodes.map (hardNeighborSet placement.nodes)
    let weights :=
      problem.reusePenalties.foldl (addReusePenalty placement.nodes hardNeighbors) ∅
    { placement := placement
      nodeByBuffer := nodeByMember placement.nodes
      hardNeighbors := hardNeighbors
      softWeights := weights
      softNeighbors := (List.range placement.nodes.length).map (softNeighborList weights) }

def defaultReuseNodeOrder (problem : DsaProblem) (search : ReusePenaltySearchSpace) : List ℕ :=
  (defaultPlacementOrder problem).filterMap (nodeByRepresentative search.placement.nodes)

/-! ### Placing one node -/

/-- The pool has room for `[offset, offset + size)` outside its reserved ranges. -/
def fitsPool (pool : Pool) (offset size : UInt64) : Bool :=
  !exceedsCapacity pool.capacity (offset + size) &&
  pool.reservedRanges.all fun reserved =>
    !addressRangesOverlap offset size reserved.first (reserved.last - reserved.first)

/-- The node, at `offset`, overlaps the placed node `other`. -/
def overlapsNode (search : ReusePenaltySearchSpace) (offsets : List UInt64) (current : ℕ)
    (offset : UInt64) (other : ℕ) : Bool :=
  addressRangesOverlap offset (search.nodeAt current).size (offsets.getD other 0)
    (search.nodeAt other).size

def fitsReuseNodeAt (problem : DsaProblem) (search : ReusePenaltySearchSpace) (placed : List Bool)
    (offsets : List UInt64) (current : ℕ) (offset : UInt64) : Bool :=
  let node := search.nodeAt current
  if addOverflows offset node.size then false
  else
    match problem.findPool node.pool with
    | none => false
    | some pool =>
        fitsPool pool offset node.size &&
          (search.hardNeighborsOf current).all fun other =>
            !(placed.getD other false && (search.nodeAt other).pool == node.pool &&
              overlapsNode search offsets current offset other)

def incrementalReuseCost (search : ReusePenaltySearchSpace) (placed : List Bool)
    (offsets : List UInt64) (current : ℕ) (offset : UInt64) : UInt64 :=
  (search.softNeighborsOf current).foldl
    (fun cost neighbor =>
      if placed.getD neighbor.1 false && overlapsNode search offsets current offset neighbor.1 then
        saturatingAdd cost neighbor.2
      else cost)
    0

/-- Insert the top of a placed neighbour into the candidates. -/
def insertTop (search : ReusePenaltySearchSpace) (placed : List Bool) (offsets : List UInt64)
    (candidates : Std.TreeSet UInt64) (other : ℕ) : Std.TreeSet UInt64 :=
  if placed.getD other false && !addOverflows (offsets.getD other 0) (search.nodeAt other).size then
    candidates.insert (offsets.getD other 0 + (search.nodeAt other).size)
  else candidates

/-- The supports before alignment. -/
def supportCandidates (problem : DsaProblem) (search : ReusePenaltySearchSpace) (placed : List Bool)
    (offsets : List UInt64) (current : ℕ) (includeSoftSupports : Bool) : Std.TreeSet UInt64 :=
  let reserved := match problem.findPool (search.nodeAt current).pool with
    | none => Std.TreeSet.empty.insert 0
    | some pool =>
        pool.reservedRanges.foldl (fun candidates range => candidates.insert range.last)
          (Std.TreeSet.empty.insert 0)
  let hard := (search.hardNeighborsOf current).foldl (insertTop search placed offsets) reserved
  if includeSoftSupports then
    ((search.softNeighborsOf current).map Prod.fst).foldl (insertTop search placed offsets) hard
  else hard

def canonicalOffsetsForNode (problem : DsaProblem) (search : ReusePenaltySearchSpace)
    (placed : List Bool) (offsets : List UInt64) (current : ℕ) (includeSoftSupports : Bool) :
    Std.TreeSet UInt64 :=
  (supportCandidates problem search placed offsets current includeSoftSupports).toList.foldl
    (fun aligned candidate =>
      match alignUp candidate (search.nodeAt current).alignment with
      | none => aligned
      | some offset => aligned.insert offset)
    ∅

/-! ### Whole placements -/

def expandReuseNodeSolution (search : ReusePenaltySearchSpace) (offsets : List UInt64) :
    DsaSolution :=
  ⟨(List.range search.count).foldl
    (fun placements index =>
      (search.nodeAt index).members.foldl
        (fun placements member =>
          placements.insertIfNew member ⟨(search.nodeAt index).pool, offsets.getD index 0⟩)
        placements)
    ∅⟩

def buildValidatedReuseResult (problem : DsaProblem) (search : ReusePenaltySearchSpace)
    (offsets : List UInt64) (status : SolveStatus) : DsaResult :=
  let solution := expandReuseNodeSolution search offsets
  let errors := validateSolution problem solution
  if errors ≠ [] then
    { status := .invalidProblem
      diagnostics := "DSA-RP algorithm produced an invalid placement" :: errors }
  else
    { status := status, solution := some solution, objective := evaluateObjective problem solution }

/-- The promoted pairs in the order of the set. -/
def withPromotedReuseEdges (problem : DsaProblem) (search : ReusePenaltySearchSpace)
    (promoted : List (ℕ × ℕ)) : DsaProblem :=
  { problem with
    separations := problem.separations ++ promoted.map fun pair =>
      { first := (search.nodeAt pair.1).representative
        second := (search.nodeAt pair.2).representative
        reasons := [.generic] } }

end Dsa
