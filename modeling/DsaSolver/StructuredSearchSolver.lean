import DsaSolver.LocalSearchSolver

/-! # The structured search solver

`pypto_structured_search_solver.cpp`: the search of the local search solver with moves that know
the PyPTO structure: the members of a pipeline group are gathered, an endpoint of a reuse penalty
is sent to an end of the order, a buffer with several aliases is moved anywhere. -/

namespace Dsa

namespace PyptoStructuredSearchSolver

/-! ### Moves -/

/-- `MoveTo`: the new order, and whether anything moved. -/
def moveTo (order : List BufferId) (buffer : BufferId) (destination : ℕ) : List BufferId × Bool :=
  match order.findIdx? (· == buffer) with
  | none => (order, false)
  | some source =>
      let rest := order.eraseIdx source
      let target := min (if source < destination then destination - 1 else destination) rest.length
      (rest.insertIdx target buffer, source != target)

/-- The comparator of `PipelineBlocks`. -/
def memberBefore (first second : PyptoPipelineMember) : Bool :=
  decide (first.stage < second.stage) || (first.stage == second.stage &&
    (decide (first.residue < second.residue) || (first.residue == second.residue &&
      decide (first.buffer < second.buffer))))

/-- The buffers of each pipeline group by stage and residue, groups of one buffer left out. -/
def pipelineBlocks (problem : DsaProblem) : List (List BufferId) :=
  match problem.pyptoStructure with
  | none => []
  | some pypto =>
      (pypto.pipelineGroups.map fun group =>
        keepFirst ((group.members.insertionSort fun first second =>
          (!memberBefore second first) = true).map PyptoPipelineMember.buffer)).filter
        fun block => decide (block.length > 1)

section moves

variable (random : RandomEngine)

def applyGenericMove : List BufferId → random.Engine → List BufferId × random.Engine :=
  OrderSearch.randomMove random fun order first second => (moveTo order (order.getD second 0) first).1

def applyPipelineMove (blocks : List (List BufferId)) (order : List BufferId)
    (engine : random.Engine) : List BufferId × random.Engine :=
  if blocks.isEmpty then applyGenericMove random order engine
  else
    let pick := random.next engine
    let block := (blocks.getD (pick.1.toNat % blocks.length) []).filter order.contains
    if block.length < 2 then applyGenericMove random order pick.2
    else
      let rest := order.filter fun buffer => !block.contains buffer
      let position := random.uniform rest.length pick.2
      (rest.take position.1 ++ block ++ rest.drop position.1, position.2)

def applyPenaltyMove (problem : DsaProblem) (order : List BufferId) (engine : random.Engine) :
    List BufferId × random.Engine :=
  if problem.reusePenalties.isEmpty then applyGenericMove random order engine
  else
    let pick := random.next engine
    let penalty :=
      problem.reusePenalties.getD (pick.1.toNat % problem.reusePenalties.length) {}
    let side := random.next pick.2
    let endpoint := if side.1 &&& 1 == 0 then penalty.first else penalty.second
    let edge := random.next side.2
    let moved := moveTo order endpoint (if edge.1 &&& 1 == 0 then 0 else order.length)
    if moved.2 then (moved.1, edge.2) else applyGenericMove random moved.1 edge.2

def aliasBuffers (problem : DsaProblem) : List BufferId :=
  match problem.pyptoStructure with
  | none => []
  | some pypto =>
      (pypto.aliasClasses.filter fun aliasClass => decide (aliasClass.members.length > 1)).map
        PyptoAliasClass.buffer

def applyAliasMove (aliases : List BufferId) (order : List BufferId) (engine : random.Engine) :
    List BufferId × random.Engine :=
  if aliases.isEmpty then applyGenericMove random order engine
  else
    let pick := random.next engine
    let position := random.uniform order.length pick.2
    let moved := moveTo order (aliases.getD (pick.1.toNat % aliases.length) 0) position.1
    if moved.2 then (moved.1, position.2) else applyGenericMove random moved.1 position.2

def applyStructuredMove (problem : DsaProblem) (order : List BufferId) (engine : random.Engine) :
    List BufferId × random.Engine :=
  let kind := random.next engine
  if kind.1 % 6 < 3 then applyGenericMove random order kind.2
  else if kind.1 % 6 == 3 then applyPipelineMove random (pipelineBlocks problem) order kind.2
  else if kind.1 % 6 == 4 then applyPenaltyMove random problem order kind.2
  else applyAliasMove random (aliasBuffers problem) order kind.2

end moves

def capabilities : SolverCapabilities where
  multiInterval := true
  reuseCost := true
  colocations := true
  separations := true
  temporalExclusions := true
  pinnedAllocations := true
  reservedRanges := true
  multiPool := true
  lexicographicObjective := true
  capacityObjective := true
  peakObjective := true

def searchNote (problem : DsaProblem) (options : OrderSearchOptions) (evaluated : ℕ) : String :=
  "PyPTO structured search evaluated " ++ toString evaluated ++ " placement orders with " ++
    toString (pipelineBlocks problem).length ++ " pipeline block(s) and " ++
    toString (aliasBuffers problem).length ++
    " multi-member alias identity/identities, seed " ++ toString options.seed

/-- `PyptoStructuredSearchSolver::Solve`.  The problem is known to be valid when
`rejectUnsupported` is reached. -/
def solve (random : RandomEngine) (options : OrderSearchOptions) (problem : DsaProblem) :
    DsaResult :=
  if validateProblem problem ≠ [] then
    { status := .invalidProblem, diagnostics := validateProblem problem }
  else if problem.pyptoStructure.isNone then
    { status := .unsupported
      diagnostics := ["pypto_structured_search requires PyPTO structure"] }
  else if !(checkSolverCompatibility problem capabilities).compatible then
    rejectUnsupported problem "pypto_structured_search" capabilities
  else
    OrderSearch.searchOrders random problem (applyStructuredMove random problem) options
      "PyPTO structured search evaluated 1 placement order" (searchNote problem options)

/-! ### The moves permute the order -/

theorem moveTo_perm (order : List BufferId) (buffer : BufferId) (destination : ℕ) :
    (moveTo order buffer destination).1.Perm order := by
  unfold moveTo
  cases hsource : order.findIdx? (· == buffer) with
  | none => exact .refl order
  | some source =>
      obtain ⟨hlt, hfound, -⟩ := List.findIdx?_eq_some_iff_getElem.mp hsource
      obtain rfl : order[source] = buffer := by simpa using hfound
      exact (List.perm_insertIdx _ _ (min_le_right _ _)).trans (List.getElem_cons_eraseIdx_perm hlt)

theorem nodup_keepFirst {α : Type*} [BEq α] [LawfulBEq α] (l : List α) : (keepFirst l).Nodup := by
  unfold keepFirst
  refine List.foldlRecOn (motive := List.Nodup) _ _ List.nodup_nil fun unique hunique x _ => ?_
  split_ifs with hmem
  · exact hunique
  · refine List.nodup_append.mpr ⟨hunique, List.nodup_singleton x, fun y hy z hz => ?_⟩
    rintro rfl
    rw [List.mem_singleton.mp hz] at hy
    exact hmem (List.contains_iff_mem.mpr hy)

theorem nodup_of_mem_pipelineBlocks {problem : DsaProblem} {block : List BufferId}
    (hblock : block ∈ pipelineBlocks problem) : block.Nodup := by
  unfold pipelineBlocks at hblock
  cases hpypto : problem.pyptoStructure with
  | none =>
      rw [hpypto] at hblock
      cases hblock
  | some pypto =>
      rw [hpypto] at hblock
      obtain ⟨group, -, rfl⟩ := List.mem_map.mp (List.mem_filter.mp hblock).1
      exact nodup_keepFirst _

/-- Distinct entries gathered at one position are the same entries in another order. -/
theorem gather_perm {order block : List BufferId} (horder : order.Nodup) (hblock : block.Nodup)
    (hsubset : block ⊆ order) (position : ℕ) :
    ((order.filter fun buffer => !block.contains buffer).take position ++ block ++
      (order.filter fun buffer => !block.contains buffer).drop position).Perm order := by
  have hinside : block.Perm (order.filter fun buffer => block.contains buffer) := by
    refine (List.perm_ext_iff_of_nodup hblock (horder.filter _)).mpr fun buffer => ?_
    rw [List.mem_filter, List.contains_iff_mem]
    exact ⟨fun hmem => ⟨hsubset hmem, hmem⟩, fun hmem => hmem.2⟩
  rw [List.append_assoc]
  refine (List.perm_append_comm_assoc _ block _).trans ?_
  rw [List.take_append_drop]
  exact (hinside.append_right _).trans
    (List.filter_append_perm (fun buffer => block.contains buffer) order)

variable {random : RandomEngine} {problem : DsaProblem} {order : List BufferId}

theorem applyGenericMove_perm (order : List BufferId) (engine : random.Engine) :
    (applyGenericMove random order engine).1.Perm order :=
  OrderSearch.randomMove_perm (fun _ _ _ _ _ => moveTo_perm _ _ _) order engine

theorem applyPipelineMove_perm (horder : order.Nodup) (engine : random.Engine) :
    (applyPipelineMove random (pipelineBlocks problem) order engine).1.Perm order := by
  unfold applyPipelineMove
  dsimp only
  split_ifs with hempty hshort
  · exact applyGenericMove_perm order _
  · exact applyGenericMove_perm order _
  · set block := (pipelineBlocks problem).getD
      ((random.next engine).1.toNat % (pipelineBlocks problem).length) []
    have hmem : block ∈ pipelineBlocks problem := by
      have hne : 0 < (pipelineBlocks problem).length :=
        List.length_pos_iff.mpr (by simpa using hempty)
      have hlt := Nat.mod_lt (random.next engine).1.toNat hne
      simp only [block, List.getD_eq_getElem _ _ hlt]
      exact List.getElem_mem hlt
    refine gather_perm horder ((nodup_of_mem_pipelineBlocks hmem).filter _) ?_ _
    intro buffer hbuffer
    exact List.contains_iff_mem.mp (List.mem_filter.mp hbuffer).2

theorem applyPenaltyMove_perm (engine : random.Engine) :
    (applyPenaltyMove random problem order engine).1.Perm order := by
  unfold applyPenaltyMove
  dsimp only
  split_ifs
  · exact applyGenericMove_perm order _
  all_goals
    first
    | exact moveTo_perm _ _ _
    | exact (applyGenericMove_perm _ _).trans (moveTo_perm _ _ _)

theorem applyAliasMove_perm (aliases : List BufferId) (engine : random.Engine) :
    (applyAliasMove random aliases order engine).1.Perm order := by
  unfold applyAliasMove
  dsimp only
  split_ifs
  · exact applyGenericMove_perm order _
  · exact moveTo_perm _ _ _
  · exact (applyGenericMove_perm _ _).trans (moveTo_perm _ _ _)

theorem applyStructuredMove_perm (horder : order.Nodup) (engine : random.Engine) :
    (applyStructuredMove random problem order engine).1.Perm order := by
  unfold applyStructuredMove
  dsimp only
  split_ifs
  · exact applyGenericMove_perm order _
  · exact applyPipelineMove_perm horder _
  · exact applyPenaltyMove_perm _
  · exact applyAliasMove_perm _ _

/-- The orders of the run, the latest first. -/
def evaluatedOrders (random : RandomEngine) (options : OrderSearchOptions) (problem : DsaProblem) :
    List (List BufferId) :=
  OrderSearch.evaluatedOrders random problem (applyStructuredMove random problem) options

/-- **Structured search returns the best order it evaluates**, like local search: every one of its
moves permutes the order. -/
theorem structuredSearch_bestOrder (random : RandomEngine) (options : OrderSearchOptions)
    (problem : DsaProblem) (hvalid : validateProblem problem = [])
    (hpypto : problem.pyptoStructure.isSome = true)
    (hcompatible : (checkSolverCompatibility problem capabilities).compatible = true) :
    OrderSearch.BestOrder problem (defaultPlacementOrder problem)
        (evaluatedOrders random options problem) (solve random options problem) ∧
      ((evaluatedOrders random options problem).length =
        if OrderSearch.searches problem options then options.maxIterations else 1) ∧
      ((solve random options problem).status = .feasible →
        ∃ solution, (solve random options problem).solution = some solution ∧
          validateSolution problem solution = [] ∧
            (solve random options problem).objective = evaluateObjective problem solution) ∧
      ((solve random options problem).status = .infeasibleProven →
        ∀ solution, validateSolution (withoutCaps problem) solution ≠ []) ∧
      ∀ rest, problem.objective.terms = .capacityOverflow :: rest →
        ((solve random options problem).status = .feasible ↔
          ∃ order ∈ evaluatedOrders random options problem,
            (placeWithOrder problem order .firstFit).status = .feasible) := by
  have hsolve : solve random options problem =
      OrderSearch.searchOrders random problem (applyStructuredMove random problem) options
        "PyPTO structured search evaluated 1 placement order" (searchNote problem options) := by
    unfold solve
    rw [if_neg (not_not.mpr hvalid), if_neg (by simp [Option.isSome_iff_ne_none.mp hpypto]),
      if_neg (by simp [hcompatible])]
  rw [hsolve]
  obtain ⟨hbest, hlength⟩ := @OrderSearch.searchOrders_bestOrder problem random options
    (applyStructuredMove random problem)
    (fun order engine horder => (applyStructuredMove_perm
      (horder.nodup_iff.mpr (OrderSearch.nodup_defaultPlacementOrder problem)) engine).trans horder)
    "PyPTO structured search evaluated 1 placement order" (searchNote problem options)
  exact ⟨hbest, hlength, hbest.feasible, hbest.infeasible, fun _ hterms => hbest.feasible_iff hterms⟩

/-- The pair as two stages of a pipeline. -/
def stagedPair : DsaProblem where
  buffers := pairProblem.buffers
  pools := pairProblem.pools
  costModel := pairProblem.costModel
  objective := pairProblem.objective
  pyptoStructure := some
    { aliasClasses := [⟨0, ["a", "b"]⟩]
      pipelineGroups :=
        [{ group := 0, slotSize := 4, depth := 2, effectiveDepth := 2
           members := [⟨0, 0, 0⟩, ⟨1, 1, 1⟩] }] }

theorem structuredSearch_bestOrder_stagedPair :
    OrderSearch.BestOrder stagedPair (defaultPlacementOrder stagedPair)
        (evaluatedOrders countingEngine {} stagedPair) (solve countingEngine {} stagedPair) ∧
      (evaluatedOrders countingEngine {} stagedPair).length = 20000 := by
  obtain ⟨hbest, hlength, -⟩ := structuredSearch_bestOrder countingEngine {} stagedPair
    (by decide +kernel) (by decide) (by decide +kernel)
  rw [if_pos (by decide +kernel)] at hlength
  exact ⟨hbest, hlength⟩

end PyptoStructuredSearchSolver

end Dsa
