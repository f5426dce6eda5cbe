import DsaSolver.OrderSearch
import DsaSolver.PromoteRepair
import Mathlib.Data.Rat.Defs

/-! # The reuse-penalty local search

`reuse_penalty_local_search_solver.cpp`: a search over pairs of a placement order and a set of
promoted soft edges.  A candidate is decoded by packing the problem with its soft edges promoted
to separations; an iteration tries to toggle single soft edges and to move classes near an
activated edge or an overflow, goes to the best candidate it finds and sometimes to a worse one. -/

namespace Dsa

/-- What else the search draws: a shuffle (`std::shuffle`, which permutes), an index by weights that
are `double`s (`std::discrete_distribution`), and a sample of `std::uniform_real_distribution`
compared with the decaying probability of `AcceptNonImproving`, from the initial probability, the
evaluations made and the evaluations allowed. -/
structure SearchEngine extends RandomEngine where
  shuffle : List BufferId → Engine → List BufferId × Engine
  shuffle_perm : ∀ order engine, (shuffle order engine).1.Perm order
  weighted : List UInt64 → Engine → ℕ × Engine
  sampleBelow : ℚ → ℕ → ℕ → Engine → Bool × Engine

/-- `ReusePenaltyLocalSearchOptions`; the initial probability is a `double`, a rational. -/
structure ReusePenaltyLocalSearchOptions where
  seed : UInt64 := 0
  maxEvaluations : ℕ := 20000
  restarts : ℕ := 8
  stagnationLimit : ℕ := 250
  softMovesPerIteration : ℕ := 64
  orderMovesPerIteration : ℕ := 16
  initialWorseAcceptanceProbability : ℚ := 1 / 20

namespace ReusePenaltyLocalSearchSolver

abbrev EdgeSet := Std.TreeSet (ℕ × ℕ) pairCompare

structure Candidate where
  order : List BufferId
  promoted : EdgeSet
  result : DsaResult
  score : List UInt64

def capabilities : SolverCapabilities where
  multiInterval := true
  reuseCost := true
  colocations := true
  separations := true
  temporalExclusions := true
  pinnedAllocations := true
  reservedRanges := true
  multiPool := true
  lexicographicObjective := true
  capacityObjective := true
  peakObjective := true

def resultScore (problem : DsaProblem) (result : DsaResult) : List UInt64 :=
  if result.solution.isNone ||
      (result.status != .feasible && result.status != .bestEffortNoFit) then
    List.replicate (problem.objective.terms.length + 2) maxU64
  else
    (if result.status == .feasible then 0 else 1) ::
      evaluateObjectiveMetric problem result.objective .capacityOverflow ::
        problem.objective.terms.map (evaluateObjectiveMetric problem result.objective)

/-- `result` with the objective of the problem itself. -/
def reevaluated (problem : DsaProblem) (result : DsaResult) : DsaResult :=
  match result.solution with
  | none => result
  | some solution => { result with objective := evaluateObjective problem solution }

section candidates

variable (problem : DsaProblem) (search : ReusePenaltySearchSpace)

def evaluate (order : List BufferId) (promoted : EdgeSet) : Candidate :=
  let result := reevaluated problem
    (placeWithOrder (withPromotedReuseEdges problem search promoted.toList) order .firstFit)
  { order := order, promoted := promoted, result := result, score := resultScore problem result }

/-- The keys of `soft_weights`. -/
def softPairs : List (ℕ × ℕ) := search.softWeights.toList.map Prod.fst

def everySoftPair : EdgeSet := (softPairs search).foldl (fun pairs pair => pairs.insert pair) ∅

def nodeOrder : List BufferId :=
  (defaultReuseNodeOrder problem search).map fun node => (search.nodeAt node).representative

/-- The nodes of a soft edge share an address of one pool. -/
def isActivated (solution : DsaSolution) (pair : ℕ × ℕ) : Bool :=
  match solution.find (search.nodeAt pair.1).representative,
      solution.find (search.nodeAt pair.2).representative with
  | some first, some second =>
      first.pool == second.pool &&
        addressRangesOverlap first.offset (search.nodeAt pair.1).size second.offset
          (search.nodeAt pair.2).size
  | _, _ => false

/-- `ActivatedPairs`, in the order of the set. -/
def activatedPairs (solution : DsaSolution) : List (ℕ × ℕ) :=
  (softPairs search).filter (isActivated search solution)

/-! ### Soft moves -/

/-- An active edge not promoted comes first, then the promoted ones, then the others. -/
def moveClass (promoted : EdgeSet) (activated : List (ℕ × ℕ)) (pair : ℕ × ℕ) : ℕ :=
  if !promoted.contains pair && activated.contains pair then 0
  else if promoted.contains pair then 1
  else 2

/-- The comparator of `OrderedSoftMoves`. -/
def softMoveBefore (promoted : EdgeSet) (activated : List (ℕ × ℕ)) (first second : ℕ × ℕ) : Bool :=
  let firstClass := moveClass promoted activated first
  let secondClass := moveClass promoted activated second
  let firstWeight := search.softWeights.getD first 0
  let secondWeight := search.softWeights.getD second 0
  if firstClass != secondClass then decide (firstClass < secondClass)
  else if firstClass == 1 && firstWeight != secondWeight then decide (firstWeight < secondWeight)
  else if firstClass != 1 && firstWeight != secondWeight then decide (firstWeight > secondWeight)
  else pairCompare first second == .lt

def orderedSoftMoves (current : Candidate) : List (ℕ × ℕ) :=
  let activated := match current.result.solution with
    | none => []
    | some solution => activatedPairs search solution
  (softPairs search).insertionSort fun first second =>
    (!softMoveBefore search current.promoted activated second first) = true

def toggle (promoted : EdgeSet) (pair : ℕ × ℕ) : EdgeSet :=
  if promoted.contains pair then promoted.erase pair else promoted.insert pair

end candidates

/-! ### Order moves -/

section orderMoves

variable (random : SearchEngine)

/-- Swap two entries or take the first out and put it at the place of the second. -/
def swapOrShift (order : List BufferId) (first second : ℕ) (engine : random.Engine) :
    List BufferId × random.Engine :=
  let coin := random.next engine
  (if coin.1 &&& 1 == 0 then Theory.exchange order first second
    else Theory.relocate order first (if first < second then second - 1 else second), coin.2)

theorem lastPosition_pos {order : List BufferId} (h : ¬order.length < 2) : 0 < order.length - 1 := by
  omega

def applyOrderMove (order : List BufferId) (engine : random.Engine) :
    List BufferId × random.Engine :=
  if h : order.length < 2 then (order, engine)
  else
    let drawn := random.drawPair (order.length - 1) (lastPosition_pos h) engine
    swapOrShift random order drawn.1.1 drawn.1.2 drawn.2

variable (problem : DsaProblem) (search : ReusePenaltySearchSpace)

/-- The hard and soft neighbours of a node. -/
def combinedNeighbors (node : ℕ) : Std.TreeSet ℕ :=
  search.softWeights.toList.foldl
    (fun neighbors entry =>
      if entry.1.1 == node then neighbors.insert entry.1.2
      else if entry.1.2 == node then neighbors.insert entry.1.1
      else neighbors)
    (search.hardNeighbors.getD node ∅)

/-- `candidate > highest` of tuples. -/
def overflowsMore (candidate highest : OverflowNode) : Bool :=
  decide (candidate.overflow > highest.overflow) || (candidate.overflow == highest.overflow &&
    (decide (candidate.top > highest.top) || (candidate.top == highest.top &&
      decide (candidate.index > highest.index))))

/-- The node that exceeds its capacity by most. -/
def highestOverflow (solution : DsaSolution) : Option OverflowNode :=
  (List.range search.count).foldl
    (fun highest node =>
      match overflowAt problem search.placement.nodes solution node with
      | none => highest
      | some candidate =>
          match highest with
          | none => some candidate
          | some best => if overflowsMore candidate best then some candidate else highest)
    none

/-- A node of an activated edge, drawn by weight, or any node. -/
def drawTarget (activated : List (ℕ × ℕ)) (engine : random.Engine) : Option ℕ × random.Engine :=
  if activated.isEmpty then
    if search.count = 0 then (none, engine)
    else
      let draw := random.next engine
      (some (draw.1.toNat % search.count), draw.2)
  else
    let pick := random.weighted (activated.map fun pair => search.softWeights.getD pair 0) engine
    let coin := random.next pick.2
    let pair := activated.getD pick.1 (0, 0)
    (some (if coin.1 &&& 1 == 0 then pair.1 else pair.2), coin.2)

def targetNode (current : Candidate) (engine : random.Engine) : Option ℕ × random.Engine :=
  match current.result.solution with
  | none => drawTarget random search [] engine
  | some solution =>
      let highest :=
        if evaluateObjectiveMetric problem current.result.objective .capacityOverflow != 0 then
          highestOverflow problem search solution
        else none
      match highest with
      | some node => (some node.index, engine)
      | none => drawTarget random search (activatedPairs search solution) engine

/-- The nodes within two steps of the target, without it. -/
def neighborhood (target : ℕ) : List ℕ :=
  ((combinedNeighbors search target).toList.foldl
    (fun nodes neighbor => (combinedNeighbors search neighbor).toList.foldl
      (fun nodes node => nodes.insert node) nodes)
    (combinedNeighbors search target)).erase target |>.toList

/-- `ApplyTargetedOrderMove`: the new order, if the move applies. -/
def applyTargetedOrderMove (current : Candidate) (order : List BufferId) (engine : random.Engine) :
    Option (List BufferId) × random.Engine :=
  let target := targetNode random problem search current engine
  match target.1 with
  | none => (none, target.2)
  | some node =>
      let nodes := neighborhood search node
      if nodes.isEmpty then (none, target.2)
      else
        let rank := random.next target.2
        let neighbor := nodes.getD (rank.1.toNat % nodes.length) 0
        match order.findIdx? (· == (search.nodeAt node).representative),
            order.findIdx? (· == (search.nodeAt neighbor).representative) with
        | some first, some second =>
            let moved := swapOrShift random order first second rank.2
            (some moved.1, moved.2)
        | _, _ => (none, rank.2)

end orderMoves

/-! ### Comparing candidates -/

def better (first second : Candidate) : Bool :=
  if first.score != second.score then decide (first.score < second.score)
  else if first.promoted.size != second.promoted.size then
    decide (first.promoted.size > second.promoted.size)
  else decide (first.order < second.order)

def acceptNonImproving (random : SearchEngine) (options : ReusePenaltyLocalSearchOptions)
    (evaluations : ℕ) (engine : random.Engine) : Bool × random.Engine :=
  if options.initialWorseAcceptanceProbability ≤ 0 ∨ options.maxEvaluations = 0 then (false, engine)
  else random.sampleBelow options.initialWorseAcceptanceProbability evaluations
    options.maxEvaluations engine

section search

variable (random : SearchEngine) (problem : DsaProblem) (search : ReusePenaltySearchSpace)
  (options : ReusePenaltyLocalSearchOptions)

/-- The incumbent, or a candidate that is better. -/
def keepBetter (best candidate : Candidate) : Candidate :=
  if better candidate best then candidate else best

/-! ### One iteration -/

/-- A running search.  The candidates evaluated so far are `seen`, the latest first. -/
structure State (Engine : Type) where
  current : Candidate
  best : Candidate
  seen : List Candidate
  stagnation : ℕ := 0
  acceptedMoves : UInt64 := 0
  acceptedNonImprovingMoves : UInt64 := 0
  softMoves : UInt64 := 0
  orderMoves : UInt64 := 0
  targetedOrderMoves : UInt64 := 0
  engine : Engine

/-- An iteration on its way. -/
structure Trial (Engine : Type) where
  state : State Engine
  next : Candidate
  improved : Bool := false
  acceptedEscape : Option Candidate := none

/-- The search goes on from another candidate. -/
def State.visit {Engine : Type} (state : State Engine) (candidate : Candidate) : State Engine :=
  { state with
    current := candidate
    best := keepBetter state.best candidate
    seen := candidate :: state.seen }

/-- A candidate of the iteration: the next one, or one to escape to, or neither. -/
def Trial.consider (trial : Trial random.Engine) (candidate : Candidate) : Trial random.Engine :=
  let state := { trial.state with seen := candidate :: trial.state.seen }
  if better candidate trial.next then
    { trial with state := state, next := candidate, improved := true }
  else if better candidate state.current then { trial with state := state }
  else
    let accept := acceptNonImproving random options state.seen.length state.engine
    let state := { state with engine := accept.2 }
    if accept.1 && trial.acceptedEscape.all (better candidate) then
      { trial with state := state, acceptedEscape := some candidate }
    else { trial with state := state }

def Trial.trySoft (trial : Trial random.Engine) (pair : ℕ × ℕ) : Trial random.Engine :=
  let current := trial.state.current
  let counted := { trial.state with softMoves := trial.state.softMoves + 1 }
  Trial.consider random options { trial with state := counted }
    (evaluate problem search current.order (toggle current.promoted pair))

def Trial.tryOrder (trial : Trial random.Engine) : Trial random.Engine :=
  let current := trial.state.current
  let targeted :=
    applyTargetedOrderMove random problem search current current.order trial.state.engine
  let counted := { trial.state with orderMoves := trial.state.orderMoves + 1 }
  match targeted.1 with
  | some order =>
      let counted :=
        { counted with
          targetedOrderMoves := trial.state.targetedOrderMoves + 1
          engine := targeted.2 }
      Trial.consider random options { trial with state := counted }
        (evaluate problem search order current.promoted)
  | none =>
      let moved := applyOrderMove random current.order targeted.2
      Trial.consider random options { trial with state := { counted with engine := moved.2 } }
        (evaluate problem search moved.1 current.promoted)

def softTrials : List (ℕ × ℕ) → Trial random.Engine → Trial random.Engine
  | [], trial => trial
  | pair :: pairs, trial =>
      if trial.state.seen.length < options.maxEvaluations then
        softTrials pairs (trial.trySoft random problem search options pair)
      else trial

def orderTrials : ℕ → Trial random.Engine → Trial random.Engine
  | 0, trial => trial
  | moves + 1, trial =>
      if trial.state.seen.length < options.maxEvaluations then
        orderTrials moves (trial.tryOrder random problem search options)
      else trial

/-- The candidates of one iteration. -/
def trials (state : State random.Engine) : Trial random.Engine :=
  orderTrials random problem search options options.orderMovesPerIteration
    (softTrials random problem search options
      ((orderedSoftMoves search state.current).take options.softMovesPerIteration)
      { state := state, next := state.current })

/-- The kick of a search halfway to its stagnation limit. -/
def kick (softCandidates : List (ℕ × ℕ)) (state : State random.Engine) : State random.Engine :=
  let moved := applyOrderMove random state.current.order state.engine
  if softCandidates.isEmpty then
    { state with engine := moved.2 }.visit (evaluate problem search moved.1 state.current.promoted)
  else
    let pick := random.next moved.2
    let pair := softCandidates.getD (pick.1.toNat % softCandidates.length) (0, 0)
    { state with engine := pick.2 }.visit
      (evaluate problem search moved.1 (toggle state.current.promoted pair))

def iterate (state : State random.Engine) : State random.Engine :=
  let trial := trials random problem search options state
  if trial.improved && better trial.next state.current then
    { trial.state with
      current := trial.next
      best := keepBetter trial.state.best trial.next
      stagnation := 0
      acceptedMoves := trial.state.acceptedMoves + 1 }
  else
    let stagnant := { trial.state with stagnation := trial.state.stagnation + 1 }
    match trial.acceptedEscape with
    | some escape =>
        { stagnant with
          current := escape
          acceptedMoves := trial.state.acceptedMoves + 1
          acceptedNonImprovingMoves := trial.state.acceptedNonImprovingMoves + 1 }
    | none =>
        if stagnant.stagnation = options.stagnationLimit / 2 ∧
            stagnant.seen.length < options.maxEvaluations then
          kick random problem search (orderedSoftMoves search state.current) stagnant
        else stagnant

end search

/-! ### What an iteration does -/

theorem score_le_of_better {first second : Candidate} (h : better first second = true) :
    first.score ≤ second.score := by
  unfold better at h
  split_ifs at h with hscore
  · exact le_of_lt (of_decide_eq_true h)
  · exact le_of_eq (by simpa using hscore)
  · exact le_of_eq (by simpa using hscore)

theorem score_le_of_not_better {first second : Candidate} (h : ¬better first second = true) :
    second.score ≤ first.score := by
  unfold better at h
  split_ifs at h with hscore
  · exact not_lt.mp fun hless => h (decide_eq_true hless)
  · exact le_of_eq (by simpa using Eq.symm (by simpa using hscore))
  · exact le_of_eq (by simpa using Eq.symm (by simpa using hscore))

/-- A candidate of the search: an evaluated permutation of the order of the nodes. -/
structure Evaluated (problem : DsaProblem) (search : ReusePenaltySearchSpace) (c : Candidate) :
    Prop where
  eq : c = evaluate problem search c.order c.promoted
  perm : c.order.Perm (nodeOrder problem search)

section iteration

variable {random : SearchEngine} {problem : DsaProblem} {search : ReusePenaltySearchSpace}
  {options : ReusePenaltyLocalSearchOptions}

theorem evaluated_evaluate {order : List BufferId} (h : order.Perm (nodeOrder problem search))
    (promoted : EdgeSet) : Evaluated problem search (evaluate problem search order promoted) :=
  ⟨rfl, h⟩

theorem swapOrShift_perm {order : List BufferId} {first second : ℕ} (h : second < order.length)
    (engine : random.Engine) : (swapOrShift random order first second engine).1.Perm order := by
  unfold swapOrShift
  dsimp only
  split_ifs
  · exact Theory.exchange_perm
  · apply Theory.relocate_perm
    omega
  · exact Theory.relocate_perm h

theorem applyOrderMove_perm (order : List BufferId) (engine : random.Engine) :
    (applyOrderMove random order engine).1.Perm order := by
  unfold applyOrderMove
  split_ifs with hshort
  · exact .refl order
  · apply swapOrShift_perm
    have hsecond := random.drawOther_le (order.length - 1)
      (random.uniform (order.length - 1) engine).1 (lastPosition_pos hshort)
      (random.uniform (order.length - 1) engine).2
    unfold RandomEngine.drawPair
    dsimp only
    omega

theorem applyTargetedOrderMove_perm {current : Candidate} {order moved : List BufferId}
    {engine : random.Engine}
    (h : (applyTargetedOrderMove random problem search current order engine).1 = some moved) :
    moved.Perm order := by
  unfold applyTargetedOrderMove at h
  dsimp only at h
  cases htarget : (targetNode random problem search current engine).1 with
  | none =>
      rw [htarget] at h
      cases h
  | some node =>
      rw [htarget] at h
      dsimp only at h
      by_cases hempty : (neighborhood search node).isEmpty = true
      · rw [if_pos hempty] at h
        cases h
      rw [if_neg hempty] at h
      split at h
      · next first second hfirst hsecond =>
          obtain rfl := Option.some.inj h
          obtain ⟨hlt, -⟩ := List.findIdx?_eq_some_iff_getElem.mp hsecond
          exact swapOrShift_perm hlt _
      · cases h

/-- What the candidates of an iteration leave: the search still stands where it began, and the
next candidate is no worse than any candidate of the iteration. -/
structure TrialOk (problem : DsaProblem) (search : ReusePenaltySearchSpace) (maxEvaluations : ℕ)
    {Engine : Type} (start : State Engine) (trial : Trial Engine) : Prop where
  current : trial.state.current = start.current
  best : trial.state.best = start.best
  stagnation : trial.state.stagnation = start.stagnation
  seen : start.seen ⊆ trial.state.seen
  length : start.seen.length ≤ trial.state.seen.length
  budget : trial.state.seen.length ≤ max start.seen.length maxEvaluations
  improved : trial.improved = true → start.seen.length < trial.state.seen.length
  unimproved : trial.improved = false → trial.next = start.current
  next : trial.next = start.current ∨ trial.next ∈ trial.state.seen
  escape : ∀ c ∈ trial.acceptedEscape, c ∈ trial.state.seen
  covered : ∀ c ∈ trial.state.seen, c ∈ start.seen ∨ trial.next.score ≤ c.score
  evaluated : start.current.order.Perm (nodeOrder problem search) →
    ∀ c ∈ trial.state.seen, c ∈ start.seen ∨ Evaluated problem search c

variable {start : State random.Engine} {trial : Trial random.Engine}

theorem trialOk_start (start : State random.Engine) :
    TrialOk problem search options.maxEvaluations start { state := start, next := start.current } where
  current := rfl
  best := rfl
  stagnation := rfl
  seen := List.Subset.refl _
  length := le_rfl
  budget := le_max_left _ _
  improved h := by cases h
  unimproved _ := rfl
  next := .inl rfl
  escape c h := by cases h
  covered c hc := .inl hc
  evaluated _ c hc := .inl hc

/-- The step lemma of the trials. -/
theorem TrialOk.consider (h : TrialOk problem search options.maxEvaluations start trial)
    (hbudget : trial.state.seen.length < options.maxEvaluations) {candidate : Candidate}
    (hcandidate : start.current.order.Perm (nodeOrder problem search) →
      Evaluated problem search candidate) :
    TrialOk problem search options.maxEvaluations start
      (trial.consider random options candidate) := by
  have hseen : start.seen ⊆ candidate :: trial.state.seen := List.subset_cons_of_subset _ h.seen
  have hlength : start.seen.length < (candidate :: trial.state.seen).length :=
    Nat.lt_succ_of_le h.length
  have hspent : (candidate :: trial.state.seen).length ≤
      max start.seen.length options.maxEvaluations := (Nat.succ_le_of_lt hbudget).trans
        (le_max_right _ _)
  have hevaluated : start.current.order.Perm (nodeOrder problem search) →
      ∀ c ∈ candidate :: trial.state.seen, c ∈ start.seen ∨ Evaluated problem search c := by
    intro hperm c hc
    rcases List.mem_cons.mp hc with rfl | hc
    · exact .inr (hcandidate hperm)
    · exact h.evaluated hperm c hc
  have hnext : trial.next = start.current ∨ trial.next ∈ candidate :: trial.state.seen :=
    h.next.imp_right fun hmem => List.mem_cons_of_mem _ hmem
  have hescape : ∀ c ∈ trial.acceptedEscape, c ∈ candidate :: trial.state.seen :=
    fun c hc => List.mem_cons_of_mem _ (h.escape c hc)
  unfold Trial.consider
  dsimp only
  by_cases hbetter : better candidate trial.next = true
  · rw [if_pos hbetter]
    refine ⟨h.current, h.best, h.stagnation, hseen, hlength.le, hspent, fun _ => hlength,
      (fun hfalse => by cases hfalse), .inr List.mem_cons_self, hescape, fun c hc => ?_, hevaluated⟩
    rcases List.mem_cons.mp hc with rfl | hc
    · exact .inr le_rfl
    · exact (h.covered c hc).imp_right fun hle => (score_le_of_better hbetter).trans hle
  rw [if_neg hbetter]
  have hcovered : ∀ c ∈ candidate :: trial.state.seen,
      c ∈ start.seen ∨ trial.next.score ≤ c.score := by
    intro c hc
    rcases List.mem_cons.mp hc with rfl | hc
    · exact .inr (score_le_of_not_better hbetter)
    · exact h.covered c hc
  split_ifs
  · exact ⟨h.current, h.best, h.stagnation, hseen, hlength.le, hspent, fun _ => hlength,
      h.unimproved, hnext, hescape, hcovered, hevaluated⟩
  · refine ⟨h.current, h.best, h.stagnation, hseen, hlength.le, hspent, fun _ => hlength,
      h.unimproved, hnext, fun c hc => ?_, hcovered, hevaluated⟩
    obtain rfl := Option.some.inj hc
    exact List.mem_cons_self
  · exact ⟨h.current, h.best, h.stagnation, hseen, hlength.le, hspent, fun _ => hlength,
      h.unimproved, hnext, hescape, hcovered, hevaluated⟩

/-- The counters and the engine do not matter. -/
theorem TrialOk.congr (h : TrialOk problem search options.maxEvaluations start trial)
    (state : State random.Engine) (hcurrent : state.current = trial.state.current)
    (hbest : state.best = trial.state.best) (hstagnation : state.stagnation = trial.state.stagnation)
    (hseen : state.seen = trial.state.seen) :
    TrialOk problem search options.maxEvaluations start { trial with state := state } := by
  constructor
  case current => exact hcurrent.trans h.current
  case best => exact hbest.trans h.best
  case stagnation => exact hstagnation.trans h.stagnation
  case unimproved => exact h.unimproved
  all_goals
    dsimp only
    rw [hseen]
  · exact h.seen
  · exact h.length
  · exact h.budget
  · exact h.improved
  · exact h.next
  · exact h.escape
  · exact h.covered
  · exact h.evaluated

theorem TrialOk.trySoft (h : TrialOk problem search options.maxEvaluations start trial)
    (hbudget : trial.state.seen.length < options.maxEvaluations) (pair : ℕ × ℕ) :
    TrialOk problem search options.maxEvaluations start
      (trial.trySoft random problem search options pair) := by
  apply TrialOk.consider
  · exact h.congr _ rfl rfl rfl rfl
  · exact hbudget
  · intro hperm
    rw [← h.current] at hperm
    exact evaluated_evaluate hperm _

theorem TrialOk.tryOrder (h : TrialOk problem search options.maxEvaluations start trial)
    (hbudget : trial.state.seen.length < options.maxEvaluations) :
    TrialOk problem search options.maxEvaluations start
      (trial.tryOrder random problem search options) := by
  unfold Trial.tryOrder
  dsimp only
  cases htargeted : (applyTargetedOrderMove random problem search trial.state.current
      trial.state.current.order trial.state.engine).1 with
  | some order =>
      apply TrialOk.consider
      · exact h.congr _ rfl rfl rfl rfl
      · exact hbudget
      · intro hperm
        rw [← h.current] at hperm
        exact evaluated_evaluate ((applyTargetedOrderMove_perm htargeted).trans hperm) _
  | none =>
      apply TrialOk.consider
      · exact h.congr _ rfl rfl rfl rfl
      · exact hbudget
      · intro hperm
        rw [← h.current] at hperm
        exact evaluated_evaluate ((applyOrderMove_perm _ _).trans hperm) _

theorem TrialOk.softTrials (h : TrialOk problem search options.maxEvaluations start trial)
    (pairs : List (ℕ × ℕ)) : TrialOk problem search options.maxEvaluations start
      (softTrials random problem search options pairs trial) := by
  induction pairs generalizing trial with
  | nil => exact h
  | cons pair pairs ih =>
      unfold ReusePenaltyLocalSearchSolver.softTrials
      split_ifs with hbudget
      · exact ih (h.trySoft hbudget pair)
      · exact h

theorem TrialOk.orderTrials (h : TrialOk problem search options.maxEvaluations start trial)
    (moves : ℕ) : TrialOk problem search options.maxEvaluations start
      (orderTrials random problem search options moves trial) := by
  induction moves generalizing trial with
  | zero => exact h
  | succ moves ih =>
      unfold ReusePenaltyLocalSearchSolver.orderTrials
      split_ifs with hbudget
      · exact ih (h.tryOrder hbudget)
      · exact h

theorem trials_ok (start : State random.Engine) : TrialOk problem search options.maxEvaluations
    start (trials random problem search options start) :=
  ((trialOk_start start).softTrials _).orderTrials _

theorem kick_progress (softCandidates : List (ℕ × ℕ)) (state : State random.Engine) :
    (kick random problem search softCandidates state).seen.length = state.seen.length + 1 ∧
      (kick random problem search softCandidates state).stagnation = state.stagnation := by
  unfold kick
  dsimp only
  by_cases hempty : softCandidates.isEmpty = true
  · rw [if_pos hempty]
    exact ⟨rfl, rfl⟩
  · rw [if_neg hempty]
    exact ⟨rfl, rfl⟩

/-- How an iteration ends: an improvement costs evaluations, anything else is stagnation. -/
theorem iterate_progress (state : State random.Engine) :
    state.seen.length < (iterate random problem search options state).seen.length ∨
      state.seen.length ≤ (iterate random problem search options state).seen.length ∧
        (iterate random problem search options state).stagnation = state.stagnation + 1 := by
  have hok : TrialOk problem search options.maxEvaluations state
    (trials random problem search options state) := trials_ok state
  unfold iterate
  dsimp only
  generalize trials random problem search options state = trial at hok ⊢
  by_cases himproved : (trial.improved && better trial.next state.current) = true
  · rw [if_pos himproved]
    rw [Bool.and_eq_true] at himproved
    exact .inl (hok.improved himproved.1)
  rw [if_neg himproved]
  have hstagnant := congrArg (· + 1) hok.stagnation
  right
  cases trial.acceptedEscape with
  | some escape => exact ⟨hok.length, hstagnant⟩
  | none =>
      dsimp only
      split_ifs
      · obtain ⟨hlength, hstagnation⟩ := @kick_progress random problem search
          (orderedSoftMoves search state.current)
          { trial.state with stagnation := trial.state.stagnation + 1 }
        rw [hlength, hstagnation]
        exact ⟨hok.length.trans (Nat.le_succ _), hstagnant⟩
      · exact ⟨hok.length, hstagnant⟩

end iteration

/-! ### The loops and the seeds -/

section search

variable (random : SearchEngine) (problem : DsaProblem) (search : ReusePenaltySearchSpace)
  (options : ReusePenaltyLocalSearchOptions)

/-- Iterate until the budget is spent or the search stagnates. -/
def climb (state : State random.Engine) : State random.Engine :=
  if state.seen.length < options.maxEvaluations ∧ state.stagnation < options.stagnationLimit then
    climb (iterate random problem search options state)
  else state
termination_by
  (options.maxEvaluations - state.seen.length, options.stagnationLimit - state.stagnation)
decreasing_by
  obtain hless | ⟨hle, hstagnant⟩ := @iterate_progress random problem search options state
  · exact Prod.Lex.left _ _ (by omega)
  · rcases hle.lt_or_eq with hless | heq
    · exact Prod.Lex.left _ _ (by omega)
    · rw [← heq, hstagnant]
      exact Prod.Lex.right _ (by omega)

/-- One soft edge is toggled or not. -/
def coinToggle (drawn : EdgeSet × random.Engine) (pair : ℕ × ℕ) : EdgeSet × random.Engine :=
  let coin := random.next drawn.2
  (if coin.1 &&& 1 != 0 then toggle drawn.1 pair else drawn.1, coin.2)

/-- Begin a restart at the incumbent; all but the first shuffle it. -/
def begin (isFirst : Bool) (state : State random.Engine) : State random.Engine :=
  let start := { state with current := state.best, stagnation := 0 }
  if isFirst then start
  else
    let shuffled := random.shuffle state.best.order state.engine
    let toggled :=
      (softPairs search).foldl (coinToggle random) (state.best.promoted, shuffled.2)
    { start with engine := toggled.2 }.visit (evaluate problem search shuffled.1 toggled.1)

/-- The restarts left. -/
def restartLoop : ℕ → State random.Engine → State random.Engine
  | 0, state => state
  | remaining + 1, state =>
      if state.seen.length < options.maxEvaluations then
        restartLoop remaining (climb random problem search options
          (begin random problem search (remaining + 1 == options.restarts) state))
      else state

/-- The candidates before the search. -/
structure Seeds where
  best : Candidate
  seen : List Candidate
  constructiveIncumbent : Option DsaResult := none
  constructiveSeeds : UInt64 := 0

def Seeds.consider (seeds : Seeds) (candidate : Candidate) : Seeds :=
  { seeds with best := keepBetter seeds.best candidate, seen := candidate :: seeds.seen }

/-- `retain_constructive_incumbent`. -/
def retainIncumbent (kept : Option DsaResult) (result : DsaResult) : Option DsaResult :=
  if result.status != .feasible || result.solution.isNone then kept
  else
    match kept with
    | none => some result
    | some incumbent =>
        if resultScore problem result < resultScore problem incumbent then some result
        else some incumbent

/-- Compare by pool, offset and representative. -/
def rankedBefore (first second : Placement × BufferId) : Bool :=
  decide (first.1.pool < second.1.pool) || (first.1.pool == second.1.pool &&
    (decide (first.1.offset < second.1.offset) || (first.1.offset == second.1.offset &&
      decide (first.2 < second.2))))

/-- The placed representatives, if all are placed. -/
def rankedNodes (solution : DsaSolution) : Option (List (Placement × BufferId)) :=
  search.placement.nodes.mapM fun node =>
    (solution.find node.representative).map fun placement => (placement, node.representative)

/-- `ConstructiveSeed`: the order of the placement of another solver. -/
def constructiveSeed (result : DsaResult) (promoteSeparatedPairs : Bool) : Option Candidate :=
  if result.status != .feasible then none
  else
    match result.solution with
    | none => none
    | some solution =>
        (rankedNodes search solution).map fun ranked =>
          let order := (ranked.insertionSort fun first second =>
            (!rankedBefore second first) = true).map Prod.snd
          let activated := activatedPairs search solution
          let promoted : EdgeSet :=
            if promoteSeparatedPairs then
              ((softPairs search).filter fun pair => !activated.contains pair).foldl
                (fun pairs pair => pairs.insert pair) ∅
            else ∅
          evaluate problem search order promoted

/-- The result of another solver, and the candidate made of it. -/
def Seeds.construct (seeds : Seeds) (result : DsaResult) (promoteSeparatedPairs : Bool) : Seeds :=
  let retained :=
    { seeds with constructiveIncumbent := retainIncumbent problem seeds.constructiveIncumbent result }
  match constructiveSeed problem search result promoteSeparatedPairs with
  | none => retained
  | some candidate =>
      { retained.consider candidate with constructiveSeeds := seeds.constructiveSeeds + 1 }

/-- The problem given to the constructive solvers. -/
def seedProblem (problem : DsaProblem) : DsaProblem :=
  { problem with objective := fitThenMinimizeReuseCostObjective }

/-- The seeds before the constructive ones. -/
def orderSeeds : Seeds :=
  let order := nodeOrder problem search
  let first := evaluate problem search order ∅
  let seeds : Seeds := { best := first, seen := [first] }
  if seeds.seen.length < options.maxEvaluations then
    seeds.consider (evaluate problem search order (everySoftPair search))
  else seeds

/-- The seeds with that of the canonical greedy. -/
def greedySeeds (shuffler : Shuffler) : Seeds :=
  let seeds := orderSeeds problem search options
  if seeds.seen.length < options.maxEvaluations then
    seeds.construct problem search
      (CanonicalGreedySolver.solve shuffler {} (seedProblem problem)) false
  else seeds

/-- All the seeds. -/
def seeds (shuffler : Shuffler) : Seeds :=
  let seeds := greedySeeds problem search options shuffler
  if seeds.seen.length < options.maxEvaluations then
    seeds.construct problem search (PromoteRepairSolver.solve shuffler (seedProblem problem)) true
  else seeds

/-! ### The solver -/

/-- `output_from_constructive`, with the incumbent. -/
def constructiveOutput (kept : Option DsaResult) (best : Candidate) : Option DsaResult :=
  kept.filter fun incumbent => decide (resultScore problem incumbent < best.score)

/-- The output, whose metrics are set. -/
def output (seeds : Seeds) (best : Candidate) (metrics : List (String × UInt64)) : DsaResult :=
  let constructive := constructiveOutput problem seeds.constructiveIncumbent best
  { constructive.getD best.result with
    solverMetrics := Std.TreeMap.ofList (metrics ++
      [("promoted_edges", UInt64.ofNat best.promoted.size),
        ("constructive_seeds", seeds.constructiveSeeds),
        ("output_from_constructive", if constructive.isSome then 1 else 0)]) }

/-- The search is not run. -/
def onlySeeds (seeds : Seeds) : Prop :=
  options.maxEvaluations ≤ seeds.seen.length ∨ options.restarts = 0 ∨
    ((nodeOrder problem search).length < 2 ∧ search.softWeights.isEmpty = true)

instance (seeds : Seeds) : Decidable (onlySeeds problem search options seeds) :=
  inferInstanceAs (Decidable (_ ∨ _ ∨ _))

/-- The end of the search from the seeds. -/
def run (shuffler : Shuffler) : State random.Engine :=
  let seeds := seeds problem search options shuffler
  restartLoop random problem search options options.restarts
    { current := seeds.best, best := seeds.best, seen := seeds.seen
      engine := random.seeded options.seed }

/-- The candidates `Solve` evaluates, the latest first. -/
def evaluatedCandidates (shuffler : Shuffler) : List Candidate :=
  let seeds := seeds problem search options shuffler
  if onlySeeds problem search options seeds then seeds.seen
  else (run random problem search options shuffler).seen

def searchNote : String :=
  "reuse_penalty_local_search searched both the placement order and " ++
    "the promoted soft-edge set using targeted two-level neighborhoods, " ++
    "decaying non-improving acceptance, and full deterministic re-decodes"

/-- `Solve` after its checks. -/
def solveAccepted (shuffler : Shuffler) : DsaResult :=
  let seeds := seeds problem search options shuffler
  if onlySeeds problem search options seeds then
    output problem seeds seeds.best
      [("evaluations", UInt64.ofNat seeds.seen.length), ("accepted_moves", 0)]
  else
    let state := run random problem search options shuffler
    OrderSearch.noted (output problem seeds state.best
      [("evaluations", UInt64.ofNat state.seen.length), ("accepted_moves", state.acceptedMoves),
        ("accepted_non_improving_moves", state.acceptedNonImprovingMoves),
        ("soft_moves", state.softMoves), ("order_moves", state.orderMoves),
        ("targeted_order_moves", state.targetedOrderMoves),
        ("soft_edges", UInt64.ofNat search.softWeights.size)]) searchNote

end search

/-- `ReusePenaltyLocalSearchSolver::Solve`.  The problem is known to be valid when
`rejectUnsupported` is reached. -/
def solve (random : SearchEngine) (shuffler : Shuffler) (options : ReusePenaltyLocalSearchOptions)
    (problem : DsaProblem) : DsaResult :=
  if validateProblem problem ≠ [] then
    { status := .invalidProblem, diagnostics := validateProblem problem }
  else if !(checkSolverCompatibility problem capabilities).compatible then
    rejectUnsupported problem "reuse_penalty_local_search" capabilities
  else if problem.pools.any fun pool => pool.capacity.isNone then
    { status := .unsupported
      diagnostics := ["reuse_penalty_local_search requires fixed pool capacities"] }
  else
    let search := buildReusePenaltySearchSpace problem
    if search.placement.errors ≠ [] then
      { status := .invalidProblem, diagnostics := search.placement.errors }
    else if search.placement.flexiblePools then
      { status := .unsupported
        diagnostics := ["reuse_penalty_local_search does not support flexible pools"] }
    else solveAccepted random problem search options shuffler

end ReusePenaltyLocalSearchSolver

end Dsa
