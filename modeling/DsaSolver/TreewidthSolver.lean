import DsaSolver.Compatibility
import DsaSolver.ReuseSearch
import Std.Data.TreeMap.Lemmas

/-! # The treewidth solver

`reuse_penalty_treewidth_solver.cpp`: the pair potentials of a pool, its min-fill elimination
order, the tables over canonical partitions, and the elimination of one variable after another
with the reconstruction of the colours. -/

namespace Dsa

namespace TreewidthPartitionDpSolver

structure Options where
  maxTreewidth : UInt64 := 14
  maxTableEntries : UInt64 := 4000000

structure TableValue where
  cost : UInt64 := 0
  feasible : Bool := true
deriving DecidableEq, Repr

structure Factor where
  scope : List ℕ := []
  values : Std.TreeMap (List UInt32) TableValue := ∅

/-- The field `variable` of the source is `node` here. -/
structure Trace where
  node : ℕ := 0
  remainingScope : List ℕ := []
  bestClass : Std.TreeMap (List UInt32) UInt32 := ∅

structure PairPotential where
  hard : Bool := false
  softWeight : UInt64 := 0
deriving DecidableEq, Repr

/-- The field `variables` of the source is `nodes` here. -/
structure EliminationOrder where
  nodes : List ℕ := []
  width : ℕ := 0
deriving DecidableEq, Repr

structure PoolDpResult where
  status : SolveStatus := .unsupported
  diagnostic : String := ""
  offsets : List UInt64 := []
  width : ℕ := 0
  states : UInt64 := 0
  transitions : UInt64 := 0
  reuseCost : UInt64 := 0

abbrev Potentials := Std.TreeMap (ℕ × ℕ) PairPotential pairCompare

def poolNodes (search : ReusePenaltySearchSpace) (pool : PoolId) : List ℕ :=
  (List.range search.count).filter fun node => (search.nodeAt node).pool == pool

/-! ### `BuildPotentials` -/

/-- The loop over the hard neighbours of one node. -/
def addHardPairs (search : ReusePenaltySearchSpace) (nodes : List ℕ) (potentials : Potentials)
    (node : ℕ) : Potentials :=
  (search.hardNeighborsOf node).foldl
    (fun potentials neighbor =>
      if node < neighbor && nodes.contains neighbor then
        potentials.insert (node, neighbor)
          { potentials.getD (node, neighbor) {} with hard := true }
      else potentials)
    potentials

/-- One iteration of the loop over the soft weights. -/
def addSoftPair (nodes : List ℕ) (potentials : Potentials) (entry : (ℕ × ℕ) × UInt64) :
    Potentials :=
  if nodes.contains entry.1.1 && nodes.contains entry.1.2 then
    potentials.insert entry.1 { potentials.getD entry.1 {} with softWeight := entry.2 }
  else potentials

def buildPotentials (search : ReusePenaltySearchSpace) (nodes : List ℕ) : Potentials :=
  search.softWeights.toList.foldl (addSoftPair nodes) (nodes.foldl (addHardPairs search nodes) ∅)

/-! ### `MinFillOrder` -/

abbrev Adjacency := List (Std.TreeSet ℕ)

/-- `adjacency[first].insert(second); adjacency[second].insert(first)`. -/
def connect (adjacency : Adjacency) (first second : ℕ) : Adjacency :=
  (adjacency.modify first fun neighbors => neighbors.insert second).modify second
    fun neighbors => neighbors.insert first

def initialAdjacency (search : ReusePenaltySearchSpace) (potentials : Potentials) : Adjacency :=
  potentials.toList.foldl (fun adjacency entry => connect adjacency entry.1.1 entry.1.2)
    (List.replicate search.count ∅)

/-- What `MinFillOrder` works on; the ordered set `active` is the list of its members. -/
structure FillState where
  adjacency : Adjacency
  active : List ℕ
  result : EliminationOrder := {}

def neighborsOf (adjacency : Adjacency) (node : ℕ) : List ℕ := (adjacency.getD node ∅).toList

def activeNeighbors (adjacency : Adjacency) (active : List ℕ) (node : ℕ) : List ℕ :=
  (neighborsOf adjacency node).filter fun neighbor => active.contains neighbor

/-- The number of pairs of neighbours that are not adjacent. -/
def fillOf (adjacency : Adjacency) : List ℕ → UInt64
  | [] => 0
  | first :: rest =>
      UInt64.ofNat (rest.filter fun second =>
        !(adjacency.getD first ∅).contains second).length + fillOf adjacency rest

structure FillKey where
  fill : UInt64
  degree : ℕ
  representative : BufferId
  node : ℕ

def fillKey (search : ReusePenaltySearchSpace) (adjacency : Adjacency) (active : List ℕ)
    (node : ℕ) : FillKey :=
  let neighbors := activeNeighbors adjacency active node
  ⟨fillOf adjacency neighbors, neighbors.length, (search.nodeAt node).representative, node⟩

/-- The order of the tuples. -/
def FillKey.before (first second : FillKey) : Bool :=
  decide (first.fill < second.fill) || (first.fill == second.fill &&
    (decide (first.degree < second.degree) || (first.degree == second.degree &&
      (decide (first.representative < second.representative) ||
        (first.representative == second.representative &&
          decide (first.node < second.node))))))

/-- The loop over the active nodes. -/
def selectVariable (search : ReusePenaltySearchSpace) (adjacency : Adjacency) (active : List ℕ) :
    Option FillKey :=
  active.foldl
    (fun best node =>
      let key := fillKey search adjacency active node
      match best with
      | none => some key
      | some other => if key.before other then some key else best)
    none

/-- Connect the neighbours of the selected node with each other and remove it from them. -/
def fillNeighbors (selected : ℕ) : List ℕ → Adjacency → Adjacency
  | [], adjacency => adjacency
  | first :: rest, adjacency =>
      fillNeighbors selected rest
        ((rest.foldl (fun adjacency second => connect adjacency first second) adjacency).modify first
          fun neighbors => neighbors.erase selected)

/-- The body of the loop after the selection. -/
def eliminateNode (state : FillState) (selected : ℕ) : FillState :=
  let neighbors := activeNeighbors state.adjacency state.active selected
  { adjacency := fillNeighbors selected neighbors state.adjacency
    active := state.active.erase selected
    result :=
      { nodes := state.result.nodes ++ [selected]
        width := max state.result.width neighbors.length } }

/-- The loop; every iteration eliminates an active node. -/
def minFillLoop (search : ReusePenaltySearchSpace) : ℕ → FillState → FillState
  | 0, state => state
  | count + 1, state =>
      match selectVariable search state.adjacency state.active with
      | none => state
      | some best => minFillLoop search count (eliminateNode state best.node)

/-- The state `MinFillOrder` ends in. -/
def minFillState (search : ReusePenaltySearchSpace) (nodes : List ℕ) (potentials : Potentials) :
    FillState :=
  minFillLoop search nodes.length
    { adjacency := initialAdjacency search potentials, active := nodes }

def minFillOrder (search : ReusePenaltySearchSpace) (nodes : List ℕ) (potentials : Potentials) :
    EliminationOrder := (minFillState search nodes potentials).result

/-! ### Partitions -/

/-- One iteration of the loop of `CanonicalPartition`. -/
def canonicalLabel (state : Std.TreeMap UInt32 UInt32 × List UInt32) (label : UInt32) :
    Std.TreeMap UInt32 UInt32 × List UInt32 :=
  let canonical := state.1.insertIfNew label (UInt32.ofNat state.1.size)
  (canonical, state.2 ++ [canonical.getD label 0])

def canonicalPartition (labels : List UInt32) : List UInt32 :=
  (labels.foldl canonicalLabel (∅, [])).2

/-- `visit`, with `remaining` labels to choose; returns what it appends to the output. -/
def visitPartitions (maxClasses : UInt64) : ℕ → List UInt32 → UInt32 → List (List UInt32)
  | 0, current, _ => [current]
  | remaining + 1, current, classCount =>
      let choices := (min (classCount.toUInt64 + 1) maxClasses).toUInt32
      (List.range choices.toNat).flatMap fun value =>
        visitPartitions maxClasses remaining (current ++ [UInt32.ofNat value])
          (max classCount (UInt32.ofNat value + 1))

def enumeratePartitions (size : ℕ) (maxClasses : UInt64) : List (List UInt32) :=
  if size = 0 then [[]] else visitPartitions maxClasses (size - 1) [0] 1

/-! ### Tables -/

def restrictedPartition (scope : List ℕ) (labelsByNode : List UInt32) : List UInt32 :=
  canonicalPartition (scope.map fun node => labelsByNode.getD node 0)

/-- The loop of `SumBucket`. -/
def sumFrom (labelsByNode : List UInt32) : List Factor → TableValue → TableValue
  | [], result => result
  | factor :: rest, result =>
      match factor.values[restrictedPartition factor.scope labelsByNode]? with
      | none => ⟨0, false⟩
      | some value =>
          if !value.feasible then ⟨0, false⟩
          else sumFrom labelsByNode rest { result with cost := saturatingAdd result.cost value.cost }

def sumBucket (bucket : List Factor) (labelsByNode : List UInt32) : TableValue :=
  sumFrom labelsByNode bucket {}

def pairFactor (first second : ℕ) (potential : PairPotential) : Factor where
  scope := [first, second]
  values := (Std.TreeMap.empty.insert [0, 0] ⟨potential.softWeight, !potential.hard⟩).insert [0, 1]
    ⟨0, true⟩

/-! ### Elimination -/

/-- What the elimination works on. -/
structure DpState where
  factors : List Factor
  traces : List Trace := []
  workingLabels : List UInt32
  states : UInt64 := 0
  transitions : UInt64 := 0

/-- The members of the scopes of the bucket other than the variable, in ascending order. -/
def remainingVariables (bucket : List Factor) (node : ℕ) : List ℕ :=
  ((bucket.flatMap Factor.scope).foldl
    (fun members member => if member != node then members.insert member else members)
    (∅ : Std.TreeSet ℕ)).toList

/-- `best`, `best_class` and the labels after some classes. -/
structure ClassChoice where
  best : TableValue := ⟨0, false⟩
  bestClass : UInt32 := 0
  workingLabels : List UInt32

/-- One iteration of the loop over the classes. -/
def tryClass (bucket : List Factor) (node : ℕ) (choice : ClassChoice) (classId : UInt32) :
    ClassChoice :=
  let labels := choice.workingLabels.set node classId
  let candidate := sumBucket bucket labels
  if candidate.feasible && (!choice.best.feasible || decide (candidate.cost < choice.best.cost)) then
    ⟨candidate, classId, labels⟩
  else { choice with workingLabels := labels }

/-- The tables of one elimination and the counters. -/
structure TableState where
  values : Std.TreeMap (List UInt32) TableValue := ∅
  bestClass : Std.TreeMap (List UInt32) UInt32 := ∅
  workingLabels : List UInt32
  states : UInt64
  transitions : UInt64

/-- One iteration of the loop over the assignments. -/
def fillEntry (colors : UInt64) (bucket : List Factor) (node : ℕ) (scope : List ℕ)
    (state : TableState) (assignment : List UInt32) : TableState :=
  let labels := (scope.zip assignment).foldl (fun labels entry => labels.set entry.1 entry.2)
    state.workingLabels
  let classes := assignment.foldl (fun classes value => max classes (value + 1)) (0 : UInt32)
  let choices := (min (classes.toUInt64 + 1) colors).toUInt32
  let choice := ((List.range choices.toNat).map UInt32.ofNat).foldl (tryClass bucket node)
    { workingLabels := labels }
  { values := state.values.insert assignment choice.best
    bestClass := state.bestClass.insert assignment choice.bestClass
    workingLabels := choice.workingLabels
    states := state.states + 1
    transitions := state.transitions + UInt64.ofNat choices.toNat }

/-- One iteration of the elimination loop. -/
def eliminateVariable (colors : UInt64) (options : Options) (state : DpState) (node : ℕ) :
    Except String DpState :=
  let bucket := state.factors.filter fun factor => factor.scope.contains node
  let remaining := state.factors.filter fun factor => !factor.scope.contains node
  let scope := remainingVariables bucket node
  let assignments := enumeratePartitions scope.length colors
  if options.maxTableEntries != 0 && decide (options.maxTableEntries.toNat < assignments.length) then
    .error "treewidth_partition_dp elimination table exceeds max_table_entries"
  else
    let table := assignments.foldl (fillEntry colors bucket node scope)
      { workingLabels := state.workingLabels, states := state.states
        transitions := state.transitions }
    .ok
      { factors := remaining ++ [⟨scope, table.values⟩]
        traces := state.traces ++ [⟨node, scope, table.bestClass⟩]
        workingLabels := table.workingLabels
        states := table.states
        transitions := table.transitions }

/-- The elimination loop: the state it ends in and its diagnostic, when it stops early. -/
def eliminateVariables (colors : UInt64) (options : Options) :
    List ℕ → DpState → DpState × Option String
  | [], state => (state, none)
  | node :: rest, state =>
      match eliminateVariable colors options state node with
      | .error diagnostic => (state, some diagnostic)
      | .ok next => eliminateVariables colors options rest next

/-- The factors of the pairs. -/
def pairFactors (potentials : Potentials) : List Factor :=
  potentials.toList.map fun entry => pairFactor entry.1.1 entry.1.2 entry.2

/-- The elimination of a pool along its min-fill order. -/
def runElimination (search : ReusePenaltySearchSpace) (nodes : List ℕ) (colors : UInt64)
    (options : Options) : DpState × Option String :=
  let potentials := buildPotentials search nodes
  eliminateVariables colors options (minFillOrder search nodes potentials).nodes
    { factors := pairFactors potentials
      workingLabels := List.replicate search.count 0 }

/-! ### Reconstruction -/

/-- The loop over the terminal factors: the optimum, or the result the pool ends with. -/
def terminalCost : List Factor → UInt64 → Except (SolveStatus × String) UInt64
  | [], cost => .ok cost
  | factor :: rest, cost =>
      match factor.values.toList with
      | [entry] =>
          if factor.scope ≠ [] then
            .error (.unsupported, "treewidth_partition_dp left a nonconstant terminal factor")
          else if !entry.2.feasible then .error (.infeasibleProven, "")
          else terminalCost rest (saturatingAdd cost entry.2.cost)
      | _ => .error (.unsupported, "treewidth_partition_dp left a nonconstant terminal factor")

/-- The least colour that is not in use. -/
def unusedColor (used : List UInt32) : UInt32 :=
  UInt32.ofNat (((List.range (used.length + 1)).find? fun color =>
    !used.contains (UInt32.ofNat color)).getD 0)

/-- One iteration of the loop over the traces, from the last. -/
def reconstruct (colors : UInt64) (colorsByNode : List UInt32) (trace : Trace) :
    Except String (List UInt32) :=
  let labels := trace.remainingScope.map fun member => colorsByNode.getD member 0
  let assignment := canonicalPartition labels
  match trace.bestClass[assignment]? with
  | none => .error "treewidth_partition_dp lost a reconstruction state"
  | some classId =>
      match assignment.findIdx? fun label => label == classId with
      | some index =>
          .ok (colorsByNode.set trace.node
            (colorsByNode.getD (trace.remainingScope.getD index 0) 0))
      | none =>
          let color := unusedColor labels
          if colors ≤ color.toUInt64 then
            .error "treewidth_partition_dp reconstruction exceeded the color capacity"
          else .ok (colorsByNode.set trace.node color)

/-! ### `SolvePool` -/

/-- The shape checks and the early results, else the unit size and the number of colours. -/
def poolShape (search : ReusePenaltySearchSpace) (pool : Pool) :
    Except (SolveStatus × String) (UInt64 × UInt64) :=
  match pool.capacity with
  | none => .error (.unsupported, "treewidth_partition_dp requires fixed pool capacities")
  | some capacity =>
      if pool.reservedRanges ≠ [] then
        .error (.unsupported, "treewidth_partition_dp does not support reserved ranges")
      else
        match poolNodes search pool.id with
        | [] => .error (.feasible, "")
        | front :: rest =>
            let unit := (search.nodeAt front).size
            if (front :: rest).any fun node => (search.nodeAt node).size != unit ||
                unit % (search.nodeAt node).alignment != 0 then
              .error (.unsupported, "treewidth_partition_dp requires uniform unit sizes and " ++
                "compatible alignment")
            else if unit == 0 || capacity % unit != 0 then
              .error (.unsupported, "treewidth_partition_dp requires capacity to be a multiple " ++
                "of the unit size")
            else
              let colors := min (capacity / unit) (UInt64.ofNat (front :: rest).length)
              if colors == 0 || decide (colors > 4294967295) then
                .error (.infeasibleProven,
                  "treewidth_partition_dp has no representable address colors")
              else .ok (unit, colors)

/-- `SolvePool` once its elimination has ended. -/
def finishPool (search : ReusePenaltySearchSpace) (nodes : List ℕ) (unit colors : UInt64)
    (width : ℕ) (state : DpState) : PoolDpResult :=
  let zeros := List.replicate search.count (0 : UInt64)
  let counted : PoolDpResult :=
    { offsets := zeros, width := width, states := state.states, transitions := state.transitions }
  match terminalCost state.factors 0 with
  | .error (status, diagnostic) => { counted with status := status, diagnostic := diagnostic }
  | .ok cost =>
      match state.traces.reverse.foldlM (reconstruct colors) (List.replicate search.count 0) with
      | .error diagnostic => { counted with diagnostic := diagnostic }
      | .ok colorsByNode =>
          { counted with
            offsets := nodes.foldl
              (fun offsets node =>
                offsets.set node ((colorsByNode.getD node 0).toUInt64 * unit)) zeros
            reuseCost := cost
            status := .feasible }

def solvePool (search : ReusePenaltySearchSpace) (pool : Pool) (options : Options) :
    PoolDpResult :=
  let zeros := List.replicate search.count (0 : UInt64)
  match poolShape search pool with
  | .error (status, diagnostic) =>
      { status := status, diagnostic := diagnostic, offsets := zeros }
  | .ok (unit, colors) =>
      let nodes := poolNodes search pool.id
      let potentials := buildPotentials search nodes
      let order := minFillOrder search nodes potentials
      if options.maxTreewidth.toNat < order.width then
        { diagnostic := "treewidth_partition_dp min-fill width exceeds max_treewidth"
          offsets := zeros, width := order.width }
      else if !potentials.isEmpty && options.maxTableEntries != 0 &&
          decide (options.maxTableEntries < 2) then
        { diagnostic := "treewidth_partition_dp pair table exceeds max_table_entries"
          offsets := zeros, width := order.width }
      else
        match runElimination search nodes colors options with
        | (state, some diagnostic) =>
            { diagnostic := diagnostic, offsets := zeros, width := order.width
              states := state.states, transitions := state.transitions }
        | (state, none) => finishPool search nodes unit colors order.width state

end TreewidthPartitionDpSolver

end Dsa
