import DsaSolver.LocalSearchSolver

/-! # The hill-climbing solver

`tvm_hill_climb_solver.cpp`: a search over placement orders that looks at a class at the top of
its pool and swaps two classes placed before it, one of them in conflict with it, and that may
accept a higher peak. -/

namespace Dsa

namespace TvmHillClimbSolver

/-! ### The conflict graph -/

section graph

variable (searchSpace : PlacementSearchSpace)

/-- The comparator of `InitialOrder`. -/
def initialBefore (first second : PlacementSearchNode) : Bool :=
  if first.pinned != second.pinned then first.pinned
  else if first.size != second.size then decide (first.size > second.size)
  else if first.conflicts.length != second.conflicts.length then
    decide (first.conflicts.length > second.conflicts.length)
  else if first.name != second.name then decide (first.name > second.name)
  else decide (first.representative > second.representative)

def initialOrder : List BufferId :=
  (searchSpace.nodes.insertionSort fun first second => (!initialBefore second first) = true).map
    PlacementSearchNode.representative

/-- `nodes.find(id)` after `IndexNodes`. -/
def findNode (id : BufferId) : Option PlacementSearchNode :=
  searchSpace.nodes.find? fun node => node.representative == id

/-- `positions.find(id)` after `IndexPositions`. -/
def findPosition (order : List BufferId) (id : BufferId) : Option ℕ :=
  order.findIdx? (· == id)

def isMovable (id : BufferId) : Bool :=
  match findNode searchSpace id with
  | none => false
  | some node => !node.pinned

/-- `node` ends at the peak of the pool it is placed in. -/
def touchesPeak (objective : ObjectiveValue) (solution : DsaSolution) (node : PlacementSearchNode)
    (id : BufferId) : Bool :=
  match solution.find id with
  | none => false
  | some placement =>
      match objective.peakByPool[placement.pool]? with
      | none => false
      | some peak =>
          decide (placement.offset ≤ maxU64 - node.size) && placement.offset + node.size == peak

def highWaterNodes (objective : ObjectiveValue) (solution : DsaSolution) (order : List BufferId) :
    List BufferId :=
  order.filter fun id =>
    match findNode searchSpace id with
    | none => false
    | some node => !node.pinned && touchesPeak objective solution node id

/-- The movable classes in conflict with `id` that stand before it. -/
def earlierNeighbors (order : List BufferId) (id : BufferId) : List BufferId :=
  match findNode searchSpace id, findPosition order id with
  | some node, some last =>
      node.conflicts.filter fun neighbor =>
        match findPosition order neighbor with
        | none => false
        | some position => decide (position < last) && isMovable searchSpace neighbor
  | _, _ => []

/-- `SortByPosition`. -/
def sortByPosition (order : List BufferId) (ids : List BufferId) : List BufferId :=
  ids.insertionSort fun first second =>
    (findPosition order first).getD 0 ≤ (findPosition order second).getD 0

end graph

/-! ### Proposals -/

section proposals

variable (random : RandomEngine)

/-- `RandomIndex` into a list that is not empty. -/
def randomChoice (ids : List BufferId) (engine : random.Engine) : BufferId × random.Engine :=
  let draw := random.next engine
  (ids.getD (draw.1.toNat % ids.length) 0, draw.2)

/-- The random attempts of `ChooseDistinctSecond`. -/
def drawSecond (first : BufferId) (firstLevel secondLevel : List BufferId) :
    ℕ → random.Engine → Option BufferId × random.Engine
  | 0, engine => (none, engine)
  | attempts + 1, engine =>
      let coin := if secondLevel.isEmpty then (false, engine)
        else
          let draw := random.next engine
          (decide (draw.1 % 100 > 25), draw.2)
      let choices := if coin.1 then secondLevel else firstLevel
      if choices.isEmpty then drawSecond first firstLevel secondLevel attempts coin.2
      else
        let choice := randomChoice random choices coin.2
        if choice.1 != first then (some choice.1, choice.2)
        else drawSecond first firstLevel secondLevel attempts choice.2

def chooseDistinctSecond (first : BufferId) (firstLevel secondLevel : List BufferId)
    (engine : random.Engine) : Option BufferId × random.Engine :=
  let drawn := drawSecond random first firstLevel secondLevel
    (2 * (firstLevel.length + secondLevel.length)) engine
  match drawn.1 with
  | some second => (some second, drawn.2)
  | none => ((secondLevel ++ firstLevel).find? (· != first), drawn.2)

/-- `ProposeGraphGuidedSwap`. -/
def proposeGraphGuidedSwap (searchSpace : PlacementSearchSpace) (current : DsaResult)
    (order : List BufferId) (engine : random.Engine) : Option (List BufferId) × random.Engine :=
  match current.solution with
  | none => (none, engine)
  | some solution =>
      let highWater := highWaterNodes searchSpace current.objective solution order
      if highWater.isEmpty then (none, engine)
      else
        let boundary := randomChoice random highWater engine
        let firstLevel := earlierNeighbors searchSpace order boundary.1
        if firstLevel.isEmpty then (none, boundary.2)
        else
          let secondLevel := sortByPosition order
            (firstLevel.flatMap (earlierNeighbors searchSpace order))
          let sortedFirst := sortByPosition order firstLevel
          let first := randomChoice random sortedFirst boundary.2
          let second := chooseDistinctSecond random first.1 sortedFirst secondLevel first.2
          (second.1.map fun second => Theory.exchange order ((findPosition order first.1).getD 0)
            ((findPosition order second).getD 0), second.2)

end proposals

/-! ### The loop -/

end TvmHillClimbSolver

structure TvmHillClimbOptions where
  seed : UInt64 := 0
  maxAttempts : ℕ := 500
  worseMoveScalePercent : UInt32 := 50
  targetTotalPeak : Option UInt64 := none

namespace TvmHillClimbSolver

/-- The comparison `draw < scale * (candidate - current) / candidate / (attempt + 1)` of
`long double`s, a draw below 100 against a percentage. -/
abbrev WorseMoveTest := (draw : ℕ) → (scale : UInt32) → (candidate current : UInt64) →
  (attempt : ℕ) → Bool

structure State (Engine : Type) where
  current : OrderCandidate
  best : OrderCandidate
  /-- The candidates evaluated, the latest first. -/
  seen : List OrderCandidate
  engine : Engine
  proposed : ℕ := 0
  acceptedBetter : ℕ := 0
  acceptedWorse : ℕ := 0
  stalled : ℕ := 0

section loop

variable (random : RandomEngine) (belowPercent : WorseMoveTest) (options : TvmHillClimbOptions)
  (problem : DsaProblem) (searchSpace : PlacementSearchSpace)

def acceptWorsePeakMove (current candidate : DsaResult) (attempt : ℕ) (engine : random.Engine) :
    Bool × random.Engine :=
  if options.worseMoveScalePercent = 0 ∨
      candidate.objective.totalPeak ≤ current.objective.totalPeak then (false, engine)
  else
    let draw := random.next engine
    (belowPercent (draw.1 % 100).toNat (min 100 options.worseMoveScalePercent)
      candidate.objective.totalPeak current.objective.totalPeak attempt, draw.2)

/-- Go on from an accepted candidate. -/
def State.accept {Engine : Type} (state : State Engine) (candidate : OrderCandidate) :
    State Engine :=
  { state with
    current := candidate
    best := Theory.keepBest OrderCandidate.score state.best candidate }

/-- The loop body after the test of the target. -/
def State.tryMove (state : State random.Engine) (attempt : ℕ) : State random.Engine :=
  let proposal := proposeGraphGuidedSwap random searchSpace state.current.result
    state.current.order state.engine
  match proposal.1 with
  | none => { state with stalled := state.stalled + 1, engine := proposal.2 }
  | some order =>
      let candidate := OrderSearch.evaluate problem order
      let next := { state with
        seen := candidate :: state.seen, proposed := state.proposed + 1, engine := proposal.2 }
      if candidate.score < state.current.score then
        { next.accept candidate with acceptedBetter := state.acceptedBetter + 1 }
      else
        let worse := acceptWorsePeakMove random belowPercent options state.current.result
          candidate.result attempt proposal.2
        if worse.1 then
          { next.accept candidate with
            acceptedWorse := state.acceptedWorse + 1, engine := worse.2 }
        else { next with engine := worse.2 }

/-- The test of the target before each attempt. -/
def reachesTarget (best : DsaResult) : Bool :=
  match options.targetTotalPeak with
  | none => false
  | some target => best.status == .feasible && decide (best.objective.totalPeak ≤ target)

/-- The attempts left, the next one with number `attempt`. -/
def attemptLoop : (remaining attempt : ℕ) → State random.Engine → State random.Engine
  | 0, _, state => state
  | remaining + 1, attempt, state =>
      if reachesTarget options state.best.result then state
      else attemptLoop remaining (attempt + 1)
        (state.tryMove random belowPercent options problem searchSpace attempt)

end loop

def capabilities : SolverCapabilities where
  multiInterval := true
  reuseCost := true
  colocations := true
  separations := true
  temporalExclusions := true
  pinnedAllocations := true
  reservedRanges := true
  multiPool := true
  lexicographicObjective := true
  capacityObjective := true
  peakObjective := true

def searchNote {Engine : Type} (options : TvmHillClimbOptions) (state : State Engine) : String :=
  "TVM-style hill climb evaluated " ++ toString state.seen.length ++
    " placement orders with seed " ++ toString options.seed ++ "; proposed " ++
    toString state.proposed ++ ", accepted " ++ toString state.acceptedBetter ++ " improving/" ++
    toString state.acceptedWorse ++ " worse, stalled " ++ toString state.stalled

/-- The state before the loop. -/
def State.start {Engine : Type} (first : OrderCandidate) (engine : Engine) : State Engine :=
  { current := first, best := first, seen := [first], engine := engine }

/-- The loop from the initial order. -/
def run (random : RandomEngine) (belowPercent : WorseMoveTest) (options : TvmHillClimbOptions)
    (problem : DsaProblem) : State random.Engine :=
  let searchSpace := buildPlacementSearchSpace problem
  attemptLoop random belowPercent options problem searchSpace options.maxAttempts 0
    (.start (OrderSearch.evaluate problem (initialOrder searchSpace)) (random.seeded options.seed))

/-- `TvmHillClimbSolver::Solve`. -/
def solve (random : RandomEngine) (belowPercent : WorseMoveTest) (options : TvmHillClimbOptions)
    (problem : DsaProblem) : DsaResult :=
  if !(checkSolverCompatibility problem capabilities).compatible then
    rejectUnsupported problem "tvm_hill_climb" capabilities
  else
    let searchSpace := buildPlacementSearchSpace problem
    if searchSpace.errors ≠ [] then
      { status := .invalidProblem, diagnostics := searchSpace.errors }
    else if searchSpace.flexiblePools then
      { status := .unsupported
        diagnostics := ["tvm_hill_climb does not support flexible pool assignment"] }
    else
      let first := OrderSearch.evaluate problem (initialOrder searchSpace)
      if first.result.solution.isNone ∨ (initialOrder searchSpace).length < 2 ∨
          options.maxAttempts = 0 then first.result
      else
        let state := run random belowPercent options problem
        OrderSearch.noted state.best.result (searchNote options state)

/-- The orders `Solve` evaluates, the latest first. -/
def evaluatedOrders (random : RandomEngine) (belowPercent : WorseMoveTest)
    (options : TvmHillClimbOptions) (problem : DsaProblem) : List (List BufferId) :=
  let order := initialOrder (buildPlacementSearchSpace problem)
  if (OrderSearch.evaluate problem order).result.solution.isNone ∨ order.length < 2 ∨
      options.maxAttempts = 0 then [order]
  else (run random belowPercent options problem).seen.map OrderCandidate.order

/-! ### Proposals swap two movable classes -/

section swaps

variable {random : RandomEngine} {searchSpace : PlacementSearchSpace} {order : List BufferId}

/-- `id` stands in the order and may be moved. -/
def Swappable (searchSpace : PlacementSearchSpace) (order : List BufferId) (id : BufferId) : Prop :=
  isMovable searchSpace id = true ∧
    ∃ position, findPosition order id = some position ∧ order[position]? = some id

theorem swappable_of_mem_earlierNeighbors {id neighbor : BufferId}
    (h : neighbor ∈ earlierNeighbors searchSpace order id) :
    Swappable searchSpace order neighbor := by
  unfold earlierNeighbors at h
  cases hnode : findNode searchSpace id with
  | none =>
      rw [hnode] at h
      cases h
  | some node =>
      cases hlast : findPosition order id with
      | none =>
          rw [hnode, hlast] at h
          cases h
      | some last =>
          rw [hnode, hlast] at h
          obtain ⟨-, htest⟩ := List.mem_filter.mp h
          cases hposition : findPosition order neighbor with
          | none =>
              rw [hposition] at htest
              cases htest
          | some position =>
              rw [hposition, Bool.and_eq_true] at htest
              obtain ⟨hlt, hfound, -⟩ := List.findIdx?_eq_some_iff_getElem.mp hposition
              refine ⟨htest.2, position, hposition, ?_⟩
              rw [List.getElem?_eq_getElem hlt, eq_of_beq hfound]

theorem randomChoice_mem {ids : List BufferId} (hids : ids ≠ []) (engine : random.Engine) :
    (randomChoice random ids engine).1 ∈ ids := by
  have hlt := Nat.mod_lt (random.next engine).1.toNat (List.length_pos_iff.mpr hids)
  unfold randomChoice
  dsimp only
  rw [List.getD_eq_getElem _ _ hlt]
  exact List.getElem_mem hlt

theorem drawSecond_mem {first second : BufferId} {firstLevel secondLevel : List BufferId}
    {attempts : ℕ} {engine : random.Engine}
    (h : (drawSecond random first firstLevel secondLevel attempts engine).1 = some second) :
    second ∈ secondLevel ++ firstLevel := by
  induction attempts generalizing engine with
  | zero => cases h
  | succ attempts ih =>
      unfold drawSecond at h
      dsimp only at h
      generalize (if secondLevel.isEmpty = true then (false, engine)
        else (decide ((random.next engine).1 % 100 > 25), (random.next engine).2)) = coin at h
      have hsubset : (if coin.1 = true then secondLevel else firstLevel) ⊆
          secondLevel ++ firstLevel := by
        split_ifs
        · exact List.subset_append_left _ _
        · exact List.subset_append_right _ _
      generalize (if coin.1 = true then secondLevel else firstLevel) = choices at h hsubset
      split_ifs at h with hempty hsame
      · exact ih h
      · obtain rfl := Option.some.inj h
        exact hsubset (randomChoice_mem (by simpa using hempty) _)
      · exact ih h

theorem chooseDistinctSecond_mem {first second : BufferId} {firstLevel secondLevel : List BufferId}
    {engine : random.Engine}
    (h : (chooseDistinctSecond random first firstLevel secondLevel engine).1 = some second) :
    second ∈ secondLevel ++ firstLevel := by
  unfold chooseDistinctSecond at h
  dsimp only at h
  cases hdrawn : (drawSecond random first firstLevel secondLevel
      (2 * (firstLevel.length + secondLevel.length)) engine).1 with
  | some drawn =>
      rw [hdrawn] at h
      obtain rfl := Option.some.inj h
      exact drawSecond_mem hdrawn
  | none =>
      rw [hdrawn] at h
      exact List.mem_of_find?_eq_some h

theorem mem_sortByPosition {ids : List BufferId} {id : BufferId} :
    id ∈ sortByPosition order ids ↔ id ∈ ids :=
  (List.perm_insertionSort _ ids).mem_iff

/-- A proposal exchanges two movable classes. -/
theorem proposeGraphGuidedSwap_eq {current : DsaResult} {engine : random.Engine}
    {candidate : List BufferId}
    (h : (proposeGraphGuidedSwap random searchSpace current order engine).1 = some candidate) :
    ∃ i j first second, candidate = Theory.exchange order i j ∧ order[i]? = some first ∧
      order[j]? = some second ∧ isMovable searchSpace first = true ∧
        isMovable searchSpace second = true := by
  unfold proposeGraphGuidedSwap at h
  dsimp only at h
  cases hsolution : current.solution with
  | none =>
      rw [hsolution] at h
      cases h
  | some solution =>
      rw [hsolution] at h
      dsimp only at h
      split_ifs at h with hhigh hfirst
      generalize randomChoice random (highWaterNodes searchSpace current.objective solution order)
        engine = boundary at h hfirst
      have hlevel : ∀ id ∈ sortByPosition order (earlierNeighbors searchSpace order boundary.1),
          Swappable searchSpace order id := fun id hid =>
        swappable_of_mem_earlierNeighbors (mem_sortByPosition.mp hid)
      have hsecond : ∀ id ∈ sortByPosition order
          ((earlierNeighbors searchSpace order boundary.1).flatMap
            (earlierNeighbors searchSpace order)), Swappable searchSpace order id := by
        intro id hid
        obtain ⟨neighbor, -, hmem⟩ := List.mem_flatMap.mp (mem_sortByPosition.mp hid)
        exact swappable_of_mem_earlierNeighbors hmem
      have hne : sortByPosition order (earlierNeighbors searchSpace order boundary.1) ≠ [] := by
        intro hnil
        have hlength := (List.perm_insertionSort (fun first second =>
          (findPosition order first).getD 0 ≤ (findPosition order second).getD 0)
          (earlierNeighbors searchSpace order boundary.1)).length_eq
        rw [show List.insertionSort _ _ = [] from hnil] at hlength
        exact hfirst (List.isEmpty_iff_length_eq_zero.mpr hlength.symm)
      obtain ⟨second, hdrawn, rfl⟩ := Option.map_eq_some_iff.mp h
      obtain ⟨hmovable, i, hi, hgeti⟩ := hlevel _ (randomChoice_mem hne boundary.2)
      obtain ⟨hmovable', j, hj, hgetj⟩ : Swappable searchSpace order second := by
        rcases List.mem_append.mp (chooseDistinctSecond_mem hdrawn) with hmem | hmem
        · exact hsecond _ hmem
        · exact hlevel _ hmem
      refine ⟨i, j, _, second, ?_, hgeti, hgetj, hmovable, hmovable'⟩
      rw [hi, hj, Option.getD_some, Option.getD_some]

end swaps

/-! ### What every attempt keeps -/

section runs

variable {random : RandomEngine} {belowPercent : WorseMoveTest} {options : TvmHillClimbOptions}
  {problem : DsaProblem} {searchSpace : PlacementSearchSpace}

/-- The classes that may not be moved stand where they stood. -/
def KeepsPinned (searchSpace : PlacementSearchSpace) (seedOrder order : List BufferId) : Prop :=
  ∀ (i : ℕ) (id : BufferId), seedOrder[i]? = some id → isMovable searchSpace id = false → order[i]? = some id

theorem KeepsPinned.exchange {seedOrder order : List BufferId}
    (h : KeepsPinned searchSpace seedOrder order) {i j : ℕ} {first second : BufferId}
    (hi : order[i]? = some first) (hj : order[j]? = some second)
    (hfirst : isMovable searchSpace first = true) (hsecond : isMovable searchSpace second = true) :
    KeepsPinned searchSpace seedOrder (Theory.exchange order i j) := by
  intro k id hk hpinned
  have hkeep := h k id hk hpinned
  rw [Theory.getElem?_exchange, hkeep]
  · rintro rfl
    rw [hkeep] at hi
    obtain rfl := Option.some.inj hi
    rw [hpinned] at hfirst
    cases hfirst
  · rintro rfl
    rw [hkeep] at hj
    obtain rfl := Option.some.inj hj
    rw [hpinned] at hsecond
    cases hsecond

/-- A candidate of the climb. -/
structure Candidate (problem : DsaProblem) (searchSpace : PlacementSearchSpace)
    (c : OrderCandidate) : Prop where
  evaluated : OrderSearch.Evaluated problem (initialOrder searchSpace) c
  pinned : KeepsPinned searchSpace (initialOrder searchSpace) c.order

/-- The state after a number of attempts. -/
structure State.Ok {Engine : Type} (problem : DsaProblem) (searchSpace : PlacementSearchSpace)
    (attempts : ℕ) (state : State Engine) : Prop where
  best : Theory.BestSeen OrderCandidate.score state.seen state.best
  current : state.current ∈ state.seen
  first : OrderSearch.evaluate problem (initialOrder searchSpace) ∈ state.seen
  all : ∀ c ∈ state.seen, Candidate problem searchSpace c
  evaluated : state.seen.length = state.proposed + 1
  attempted : state.proposed + state.stalled = attempts
  accepted : state.acceptedBetter + state.acceptedWorse ≤ state.proposed

theorem State.Ok.candidate {attempts : ℕ} {state : State random.Engine}
    (h : state.Ok problem searchSpace attempts) {order : List BufferId}
    (hproposal : (proposeGraphGuidedSwap random searchSpace state.current.result
      state.current.order state.engine).1 = some order) :
    Candidate problem searchSpace (OrderSearch.evaluate problem order) := by
  obtain ⟨i, j, first, second, rfl, hi, hj, hfirst, hsecond⟩ := proposeGraphGuidedSwap_eq hproposal
  have hcurrent := h.all _ h.current
  exact ⟨OrderSearch.evaluated_evaluate (Theory.exchange_perm.trans hcurrent.evaluated.perm),
    hcurrent.pinned.exchange hi hj hfirst hsecond⟩

variable (belowPercent options) in
theorem State.Ok.tryMove {attempts : ℕ} {state : State random.Engine}
    (h : state.Ok problem searchSpace attempts) :
    (state.tryMove random belowPercent options problem searchSpace attempts).Ok problem searchSpace
      (attempts + 1) := by
  have hcounts := h.evaluated
  have hattempts := h.attempted
  have haccepted := h.accepted
  unfold State.tryMove
  dsimp only
  cases hproposal : (proposeGraphGuidedSwap random searchSpace state.current.result
      state.current.order state.engine).1 with
  | none =>
      exact ⟨h.best, h.current, h.first, h.all, hcounts, by dsimp only; omega, haccepted⟩
  | some order =>
      have hcandidate := h.candidate hproposal
      have hall : ∀ c ∈ OrderSearch.evaluate problem order :: state.seen,
          Candidate problem searchSpace c := by
        intro c hc
        rcases List.mem_cons.mp hc with rfl | hc
        · exact hcandidate
        · exact h.all c hc
      have hfirst := List.mem_cons_of_mem (OrderSearch.evaluate problem order) h.first
      have hkeep := h.best.keep (OrderSearch.evaluate problem order)
      dsimp only
      split_ifs with hbetter hworse
      · exact ⟨hkeep, List.mem_cons_self, hfirst, hall, by simp [State.accept]; omega,
          by simp only [State.accept]; omega, by simp only [State.accept]; omega⟩
      · exact ⟨hkeep, List.mem_cons_self, hfirst, hall, by simp [State.accept]; omega,
          by simp only [State.accept]; omega, by simp only [State.accept]; omega⟩
      · exact ⟨h.best.skip h.current (not_lt.mp hbetter), List.mem_cons_of_mem _ h.current, hfirst,
          hall, by simp; omega, by dsimp only; omega, by dsimp only; omega⟩

variable (belowPercent options) in
/-- The loop ends after all attempts or at the target. -/
theorem State.Ok.attemptLoop (remaining : ℕ) {attempts : ℕ} {state : State random.Engine}
    (h : state.Ok problem searchSpace attempts) :
    ∃ made ≤ attempts + remaining,
      (attemptLoop random belowPercent options problem searchSpace remaining attempts state).Ok
        problem searchSpace made ∧
      (made = attempts + remaining ∨ reachesTarget options (attemptLoop random belowPercent options
        problem searchSpace remaining attempts state).best.result = true) := by
  induction remaining generalizing attempts state with
  | zero => exact ⟨attempts, le_rfl, h, .inl rfl⟩
  | succ remaining ih =>
      unfold TvmHillClimbSolver.attemptLoop
      split_ifs with htarget
      · exact ⟨attempts, by omega, h, .inr htarget⟩
      · obtain ⟨made, hle, hok, hend⟩ := ih (h.tryMove belowPercent options)
        exact ⟨made, by omega, hok, hend.imp_left fun heq => by omega⟩

end runs

/-! ### The result -/

/-- **Hill climbing returns the best order it evaluates**, although it may accept worse ones: the
orders of the run are at most one for each attempt and the initial one, all permutations of the
initial order that leave the pinned classes where they stood. -/
theorem hillClimb_bestOrder (random : RandomEngine) (belowPercent : WorseMoveTest)
    (options : TvmHillClimbOptions) (problem : DsaProblem)
    (hcompatible : (checkSolverCompatibility problem capabilities).compatible = true)
    (herrors : (buildPlacementSearchSpace problem).errors = [])
    (hfixed : (buildPlacementSearchSpace problem).flexiblePools = false) :
    OrderSearch.BestOrder problem (initialOrder (buildPlacementSearchSpace problem))
        (evaluatedOrders random belowPercent options problem)
        (solve random belowPercent options problem) ∧
      (evaluatedOrders random belowPercent options problem).length ≤ options.maxAttempts + 1 ∧
      (∀ order ∈ evaluatedOrders random belowPercent options problem,
        KeepsPinned (buildPlacementSearchSpace problem)
          (initialOrder (buildPlacementSearchSpace problem)) order) ∧
      ((solve random belowPercent options problem).status = .feasible →
        ∃ solution, (solve random belowPercent options problem).solution = some solution ∧
          validateSolution problem solution = [] ∧
            (solve random belowPercent options problem).objective =
              evaluateObjective problem solution) ∧
      ((solve random belowPercent options problem).status = .infeasibleProven →
        ∀ solution, validateSolution (withoutCaps problem) solution ≠ []) ∧
      ∀ rest, problem.objective.terms = .capacityOverflow :: rest →
        ((solve random belowPercent options problem).status = .feasible ↔
          ∃ order ∈ evaluatedOrders random belowPercent options problem,
            (placeWithOrder problem order .firstFit).status = .feasible) := by
  set searchSpace := buildPlacementSearchSpace problem with hspace
  set first := OrderSearch.evaluate problem (initialOrder searchSpace) with hfirst
  have hcandidate : Candidate problem searchSpace first :=
    ⟨OrderSearch.evaluated_evaluate (.refl _), fun _ _ hget _ => hget⟩
  have hall : ∀ c ∈ [first], Candidate problem searchSpace c := by
    intro c hc
    rw [List.mem_singleton.mp hc]
    exact hcandidate
  suffices hsuffices : ∃ seen : List OrderCandidate, ∃ best : OrderCandidate,
      evaluatedOrders random belowPercent options problem = seen.map OrderCandidate.order ∧
        Theory.BestSeen OrderCandidate.score seen best ∧ first ∈ seen ∧
        (∀ c ∈ seen, Candidate problem searchSpace c) ∧ seen.length ≤ options.maxAttempts + 1 ∧
          FirstFitSolver.SamePlacement (solve random belowPercent options problem) best.result by
    obtain ⟨seen, best, horders, hbest, hmem, hseen, hlength, hsame⟩ := hsuffices
    have hresult := OrderSearch.bestOrder_of_bestSeen (fun c hc => (hseen c hc).evaluated) hmem hbest
      hsame
    rw [horders]
    refine ⟨hresult, by rwa [List.length_map], fun order horder => ?_, hresult.feasible,
      hresult.infeasible, fun _ hterms => hresult.feasible_iff hterms⟩
    obtain ⟨c, hc, rfl⟩ := List.mem_map.mp horder
    exact (hseen c hc).pinned
  have hsolve : solve random belowPercent options problem =
      if first.result.solution.isNone ∨ (initialOrder searchSpace).length < 2 ∨
          options.maxAttempts = 0 then first.result
      else OrderSearch.noted (run random belowPercent options problem).best.result
        (searchNote options (run random belowPercent options problem)) := by
    unfold solve
    dsimp only
    rw [← hspace, if_neg (by simp [hcompatible]), if_neg (not_not.mpr herrors),
      if_neg (by simp [hfixed])]
  rw [hsolve]
  unfold evaluatedOrders
  dsimp only
  rw [← hspace, ← hfirst]
  split_ifs with hbaseline
  · exact ⟨[first], first, rfl, Theory.bestSeen_singleton first, List.mem_cons_self, hall, by simp,
      ⟨rfl, rfl, rfl⟩⟩
  · have hstart : (State.start first (random.seeded options.seed)).Ok problem searchSpace 0 :=
      ⟨Theory.bestSeen_singleton first, List.mem_cons_self, List.mem_cons_self, hall, rfl, rfl,
        le_rfl⟩
    obtain ⟨made, hle, hok, -⟩ := hstart.attemptLoop belowPercent options options.maxAttempts
    change (run random belowPercent options problem).Ok problem searchSpace made at hok
    have hevaluated := hok.evaluated
    have hattempted := hok.attempted
    exact ⟨_, _, rfl, hok.best, hok.first, hok.all, by omega, OrderSearch.noted_same _ _⟩

theorem hillClimb_bestOrder_pairProblem :
    OrderSearch.BestOrder pairProblem (initialOrder (buildPlacementSearchSpace pairProblem))
        (evaluatedOrders countingEngine (fun _ _ _ _ _ => false) {} pairProblem)
        (solve countingEngine (fun _ _ _ _ _ => false) {} pairProblem) ∧
      (evaluatedOrders countingEngine (fun _ _ _ _ _ => false) {} pairProblem).length ≤ 501 := by
  obtain ⟨hbest, hlength, -⟩ := hillClimb_bestOrder countingEngine
    (fun _ _ _ _ _ => false) {} pairProblem (by decide +kernel) (by decide +kernel)
    (by decide +kernel)
  exact ⟨hbest, hlength⟩

end TvmHillClimbSolver

end Dsa
