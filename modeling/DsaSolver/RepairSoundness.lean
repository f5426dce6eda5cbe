import DsaSolver.PromoteRepair
import DsaSolver.GreedyDominance
import DsaSolver.PromotedEdges

/-! # Soundness of promote-and-repair

A demoted edge is an active one (`cheapestEdge_mem`), so every iteration of the repair loop takes
an edge or an order away and the loop ends (`loop_spec`).  What it returns is a valid placement of
the promoted problem, hence of the problem, in which the active edges cost nothing
(`Repaired`). -/

namespace Dsa

open Theory (Sat)

/-! ### The demoted edge -/

section chain

variable {nodes : List PlacementSearchNode} {solution : DsaSolution}
  {search : ReusePenaltySearchSpace} {active : ActiveEdges}

theorem mem_activePairs {pair : ℕ × ℕ} : pair ∈ activePairs active ↔ pair ∈ active := by
  unfold activePairs
  rw [List.mem_map, Std.TreeMap.mem_iff_isSome_getElem?, Option.isSome_iff_exists]
  constructor
  · rintro ⟨entry, hentry, rfl⟩
    exact ⟨entry.2, Std.TreeMap.mem_toList_iff_getElem?_eq_some.mp hentry⟩
  · rintro ⟨weight, hget⟩
    exact ⟨(pair, weight), Std.TreeMap.mem_toList_iff_getElem?_eq_some.mpr hget, rfl⟩

theorem softOnChain_active {fuel : ℕ} {visited : List ℕ} {current : ℕ} :
    ∀ pair ∈ softOnChain nodes solution search active fuel visited current, pair ∈ active := by
  induction fuel generalizing visited current with
  | zero => exact fun pair h => by cases h
  | succ fuel ih =>
      intro pair hpair
      unfold softOnChain at hpair
      split_ifs at hpair with hvisited
      · cases hpair
      · split at hpair
        · cases hpair
        · split at hpair
          · dsimp only at hpair
            split_ifs at hpair with hactive
            · rcases List.mem_cons.mp hpair with rfl | hrest
              · exact hactive
              · exact ih pair hrest
            · exact ih pair hpair
          · cases hpair

theorem cheapestEdge_mem {edges : List (ℕ × ℕ)} {edge : ℕ × ℕ}
    (h : cheapestEdge active edges = some edge) : edge ∈ edges := by
  cases edges with
  | nil => cases h
  | cons first rest =>
      obtain rfl := Option.some.inj h
      have hfold : ∀ (others : List (ℕ × ℕ)) (best : ℕ × ℕ),
          others.foldl (fun best other => if cheaperEdge active other best then other else best)
            best ∈ best :: others := by
        intro others
        induction others with
        | nil => exact fun best => List.mem_cons_self
        | cons other others ih =>
            intro best
            rw [List.foldl_cons]
            have hmem := ih (if cheaperEdge active other best then other else best)
            split_ifs at hmem ⊢
            · exact List.mem_cons_of_mem _ hmem
            · rcases List.mem_cons.mp hmem with heq | hmem
              · rw [heq]
                exact List.mem_cons_self
              · exact List.mem_cons_of_mem _ (List.mem_cons_of_mem _ hmem)
      exact hfold rest first

/-- The demoted edge is active. -/
theorem cheapestSoftEdgeOnOverflowChain_mem {promoted : DsaProblem} {edge : ℕ × ℕ}
    (h : cheapestSoftEdgeOnOverflowChain promoted search solution active = some edge) :
    edge ∈ active := by
  unfold cheapestSoftEdgeOnOverflowChain at h
  dsimp only at h
  split_ifs at h with herrors
  split at h
  · cases h
  · exact softOnChain_active edge (cheapestEdge_mem h)

end chain

section walk

variable {nodes : List PlacementSearchNode} {solution : DsaSolution}

theorem selectSupport_lt {node : PlacementSearchNode} {placement : Placement}
    {support : Option (ℕ × UInt64)} (h : ∀ best, support = some best → best.1 < nodes.length)
    (neighborId : BufferId) :
    ∀ best, selectSupport nodes solution node placement support neighborId = some best →
      best.1 < nodes.length := by
  intro best hbest
  unfold selectSupport at hbest
  cases hneighbor : nodeByRepresentative nodes neighborId with
  | none =>
      rw [hneighbor] at hbest
      exact h best hbest
  | some neighbor =>
      have hlt : neighbor < nodes.length := (List.findIdx?_eq_some_iff_getElem.mp hneighbor).1
      rw [hneighbor] at hbest
      dsimp only at hbest
      split at hbest
      · exact h best hbest
      · split_ifs at hbest with hpool htop
        · exact h best hbest
        · exact h best hbest
        · split at hbest
          · obtain rfl := Option.some.inj hbest
            exact hlt
          · split_ifs at hbest
            · obtain rfl := Option.some.inj hbest
              exact hlt
            · exact h best hbest

theorem supportOf_lt {current support : ℕ} (h : supportOf nodes solution current = some support) :
    support < nodes.length := by
  unfold supportOf at h
  dsimp only at h
  split at h
  · cases h
  · split_ifs at h with hzero
    obtain ⟨best, hbest, rfl⟩ := Option.map_eq_some_iff.mp h
    apply List.foldlRecOn (motive := fun support => ∀ best, support = some best →
      best.1 < nodes.length) _ _ nofun (fun support ih neighborId _ => ?_) best hbest
    exact selectSupport_lt ih neighborId

/-- The walk ends by itself: it visits every node at most once. -/
theorem softOnChain_fuel (search : ReusePenaltySearchSpace) (active : ActiveEdges) {fuel : ℕ}
    {visited : List ℕ} {current : ℕ} (hvisited : visited.Nodup)
    (hlt : ∀ node ∈ visited, node < nodes.length) (hcurrent : current < nodes.length)
    (hfuel : nodes.length < fuel + visited.length) (extra : ℕ) :
    softOnChain nodes solution search active (fuel + extra) visited current =
      softOnChain nodes solution search active fuel visited current := by
  induction fuel generalizing visited current with
  | zero =>
      have hle := (List.subperm_of_subset hvisited fun node hnode =>
        List.mem_range.mpr (hlt node hnode)).length_le
      rw [List.length_range] at hle
      omega
  | succ fuel ih =>
      rw [Nat.add_right_comm]
      unfold softOnChain
      by_cases hmem : visited.contains current = true
      · rw [if_pos hmem, if_pos hmem]
      · rw [if_neg hmem, if_neg hmem]
        rw [List.contains_iff_mem] at hmem
        cases hsupport : supportOf nodes solution current with
        | none => rfl
        | some support =>
            have hnext := ih (List.nodup_cons.mpr ⟨hmem, hvisited⟩)
              (List.forall_mem_cons.mpr ⟨hcurrent, hlt⟩) (supportOf_lt hsupport)
              (by rw [List.length_cons]; omega)
            dsimp only
            rw [hnext]

end walk

/-! ### Packings without pins -/

/-- Without pins the engine neither proves infeasibility nor finds the problem invalid. -/
theorem placeWithOrder_status {problem : DsaProblem} (h : SearchOk problem)
    (priority : List BufferId) (strategy : PlacementStrategy) :
    (placeWithOrder problem priority strategy).status ≠ .infeasibleProven ∧
      (placeWithOrder problem priority strategy).status ≠ .invalidProblem := by
  have herrors := h.prepare_clean.1
  obtain ⟨diagnostics, hwrong, -⟩ | ⟨diagnostics, -, heq⟩ | ⟨index, hindex, placed, e, -, hfail, heq⟩ |
      ⟨a, state, -, hplaced, heq⟩ := placeWithOrder_cases problem priority strategy
  · exact absurd herrors hwrong
  · rw [heq]
    exact ⟨nofun, nofun⟩
  · rw [heq]
    have hcount : index < problem.search.count := by rwa [h.count_eq]
    obtain he | ⟨-, hunknown⟩ := chooseOffset_error hfail
    · rw [he]
      exact ⟨nofun, nofun⟩
    · obtain ⟨pool, hpool⟩ := h.exists_pool hcount
      rw [h.pool_eq hcount, hunknown (h.unpinned hcount)] at hpool
      cases hpool
  · rw [heq]
    -- the structural checks hold for want of pins
    have hpins : PinsOk (withoutCaps problem) a := by
      have hfree : ∀ k < (prepare (withoutCaps problem)).supers.length,
          ((prepare (withoutCaps problem)).superAt k).pinned.isSome = true → False := by
        intro k hk hsome
        have hk' : k < (withoutCaps problem).search.count := by rwa [h.withoutCaps.count_eq]
        rw [h.withoutCaps.unpinned hk'] at hsome
        cases hsome
      constructor
      · exact fun k hk hsome => (hfree k hk hsome).elim
      · exact fun k hk hsome => (hfree k hk hsome).elim
      · exact fun k hk hsome => (hfree k hk hsome).elim
      · exact fun k hk l hl hne hsome => (hfree k hk hsome).elim
    have hvalid : validateSolution (withoutCaps problem) state.solution = [] := by
      have hok := prepare_withoutCaps_ok herrors
      have hplaces := hplaced.places herrors fun k => mem_placementOrder.mpr
      refine (validateSolution_eq_nil_iff _ _).mpr ⟨hok.valid, ?_⟩
      rw [solutionOk_iff hok hplaces]
      exact hplaced.classPlacementOk herrors (fun k => mem_placementOrder.mpr) hpins
    obtain ⟨-, -, ⟨-, hinvalid⟩ | ⟨hstatus, -⟩ | ⟨hstatus, -⟩⟩ :=
      finishPlacement_cases problem state.solution
    · exact absurd hvalid hinvalid
    · rw [hstatus]
      exact ⟨nofun, nofun⟩
    · rw [hstatus]
      exact ⟨nofun, nofun⟩

namespace PromoteRepairSolver

/-! ### The loop -/

section loop

variable {problem : DsaProblem} {orders : List (List ℕ)}

/-- The active edges are soft edges of the problem. -/
def ActiveOk (problem : DsaProblem) (active : ActiveEdges) : Prop :=
  ∀ pair ∈ active, pair ∈ problem.search.softWeights

theorem ActiveOk.nodePairs (h : SearchOk problem) {active : ActiveEdges}
    (hactive : ActiveOk problem active) : NodePairs problem (activePairs active) := by
  intro pair hpair
  have hmem := hactive pair (mem_activePairs.mp hpair)
  rw [Std.TreeMap.mem_iff_isSome_getElem?, Option.isSome_iff_exists] at hmem
  obtain ⟨weight, hget⟩ := hmem
  obtain ⟨hlt, hcount, hpool, -⟩ :=
    softWeights_pair h (Std.TreeMap.mem_toList_iff_getElem?_eq_some.mpr hget)
  exact ⟨hlt, hcount, hpool⟩

/-- The weights of the soft edges that are no longer active, added with saturation. -/
def demotedWeight (search : ReusePenaltySearchSpace) (active : ActiveEdges) : UInt64 :=
  search.softWeights.toList.foldl
    (fun sum entry => if !active.contains entry.1 then saturatingAdd sum entry.2 else sum) 0

theorem demotedWeight_eq (active : ActiveEdges) : demotedWeight problem.search active =
    (weightOf problem fun pair => (!active.contains pair) = true).val := by
  unfold demotedWeight weightOf Theory.total
  rw [show (fun sum entry => if !active.contains entry.1 then saturatingAdd sum entry.2 else sum) =
    fun (sum : UInt64) (entry : (ℕ × ℕ) × UInt64) =>
      if !active.contains entry.1 then Theory.satAdd sum entry.2 else sum from rfl,
    Theory.foldl_satAdd (fun entry : (ℕ × ℕ) × UInt64 => !active.contains entry.1) Prod.snd]
  exact congrArg Sat.val (zero_add _)

/-- The placement keeps all addresses of the two nodes apart. -/
def KeepsApart (problem : DsaProblem) (solution : DsaSolution) (pair : ℕ × ℕ) : Prop :=
  ∀ first ∈ (problem.search.nodeAt pair.1).members,
    ∀ second ∈ (problem.search.nodeAt pair.2).members, ∀ placement placement',
      solution.find first = some placement → solution.find second = some placement' →
        addressRangesOverlap placement.offset (problem.search.nodeAt pair.1).size
          placement'.offset (problem.search.nodeAt pair.2).size = false

/-- What the loop returns. -/
structure Repaired (problem : DsaProblem) (state : State) : Prop where
  feasible : state.last.status = .feasible
  sound : ∃ solution, state.last.solution = some solution ∧ validateSolution problem solution = [] ∧
    state.last.objective = evaluateObjective problem solution ∧
      ∀ pair ∈ state.active, KeepsApart problem solution pair
  active : ActiveOk problem state.active
  cost : state.last.objective.reuseCost ≤ demotedWeight problem.search state.active

theorem keepsApart_expand (h : SearchOk problem) {offsets : List UInt64} {pair : ℕ × ℕ}
    (hv : (nodePacking h).Valid (positions offsets)) (hlt : pair.1 < problem.search.count)
    (hlt' : pair.2 < problem.search.count)
    (hapart : NodesApart problem (positions offsets) pair.1 pair.2) :
    KeepsApart problem (expandReuseNodeSolution problem.search offsets) pair := by
  intro first hfirst second hsecond placement placement' hfind hfind'
  obtain ⟨i, hi, hclass, rfl⟩ := (h.mem_members_iff hlt first).mp hfirst
  obtain ⟨j, hj, hclass', rfl⟩ := (h.mem_members_iff hlt' second).mp hsecond
  rw [find_expand_of_member h offsets hi, hclass] at hfind
  rw [find_expand_of_member h offsets hj, hclass'] at hfind'
  obtain rfl := Option.some.inj hfind
  obtain rfl := Option.some.inj hfind'
  apply (addressRangesOverlap_eq_false_iff (h.size_ne hlt) (h.size_ne hlt')
    (fitsAt_lt h hlt (hv.fits _ (Finset.mem_range.mpr hlt)))
    (fitsAt_lt h hlt' (hv.fits _ (Finset.mem_range.mpr hlt')))).mpr
  exact hapart

/-- A valid placement of the promoted problem costs no more than the demoted edges. -/
theorem sound_of_promoted (h : SearchOk problem) {active : ActiveEdges}
    (hactive : ActiveOk problem active) {solution : DsaSolution}
    (hs : validateSolution (promote problem (activePairs active)) solution = []) :
    validateSolution problem solution = [] ∧ (∀ pair ∈ active, KeepsApart problem solution pair) ∧
      (evaluateObjective problem solution).reuseCost ≤ demotedWeight problem.search active := by
  have hpairs := hactive.nodePairs h
  obtain ⟨offsets, -, hfind, hv, hapart⟩ := validateSolution_promote h hpairs hs
  refine ⟨?_, fun pair hpair => ?_, ?_⟩
  · rw [validateSolution_congr hfind, validateSolution_expand_iff h]
    exact hv
  · have hmem := mem_activePairs.mpr hpair
    obtain ⟨hlt, hcount, -⟩ := hpairs pair hmem
    have hkeeps := keepsApart_expand h hv (hlt.trans hcount) hcount (hapart pair hmem)
    unfold KeepsApart at hkeeps ⊢
    rw [hfind]
    exact hkeeps
  · rw [evaluateObjective_congr hfind, reuseCost_expand h hv, demotedWeight_eq]
    apply weightOf_mono h
    intro pair _ _ _ hover
    rw [Bool.not_eq_true', ← Bool.not_eq_true]
    exact fun hin => hover (hapart pair (mem_activePairs.mpr hin))

/-- The end of an iteration after a packing that did not fit. -/
inductive RepairEnd (problem : DsaProblem) (orders : List (List ℕ)) (state : State) : Step → Prop
  | failed {last : State} (same : last.last = state.last) :
      RepairEnd problem orders state (.failed last)
  | demoted {next : State} (edge : ℕ × ℕ) (mem : edge ∈ state.active)
      (active : next.active = state.active.erase edge) (order : next.orderIndex = state.orderIndex) :
      RepairEnd problem orders state (.next next)
  | reordered {next : State} (active : next.active = state.active)
      (order : next.orderIndex = state.orderIndex + 1) (lt : next.orderIndex < orders.length) :
      RepairEnd problem orders state (.next next)

theorem repair_end (search : ReusePenaltySearchSpace) (state : State) :
    RepairEnd problem orders state (repair problem search orders state) := by
  unfold repair
  cases state.last.solution with
  | none => exact .failed rfl
  | some solution =>
      dsimp only
      by_cases hempty : state.active.isEmpty = true
      · rw [if_pos hempty]
        exact .failed rfl
      · rw [if_neg hempty]
        cases hchain : cheapestSoftEdgeOnOverflowChain
            (withPromotedReuseEdges problem search (activePairs state.active)) search solution
            state.active with
        | some edge =>
            exact .demoted edge (cheapestSoftEdgeOnOverflowChain_mem hchain) rfl rfl
        | none =>
            dsimp only
            split_ifs with hlt
            · exact .reordered rfl rfl hlt
            · exact .failed rfl

/-- An iteration that does not return demotes an edge or goes to the next order. -/
inductive StepEnd (problem : DsaProblem) (orders : List (List ℕ)) (state : State) : Step → Prop
  | repaired {last : State} (ok : Repaired problem last) : StepEnd problem orders state (.repaired last)
  | failed {last : State} (infeasible : last.last.status ≠ .infeasibleProven)
      (invalid : last.last.status ≠ .invalidProblem) : StepEnd problem orders state (.failed last)
  | next {next : State} (active : ActiveOk problem next.active)
      (order : next.orderIndex < orders.length)
      (measure : next.active.size + (orders.length - next.orderIndex) <
        state.active.size + (orders.length - state.orderIndex)) :
      StepEnd problem orders state (.next next)

theorem size_erase_lt {active : ActiveEdges} {edge : ℕ × ℕ} (h : edge ∈ active) :
    (active.erase edge).size < active.size := by
  have hpos : 0 < active.size := by
    rw [Nat.pos_iff_ne_zero]
    intro hzero
    have hnil : active.toList = [] := List.length_eq_zero_iff.mp (Std.TreeMap.length_toList ▸ hzero)
    have hmem := mem_activePairs.mpr h
    unfold activePairs at hmem
    rw [hnil] at hmem
    cases hmem
  rw [Std.TreeMap.size_erase, if_pos (Std.TreeMap.mem_iff_contains.mp h)]
  omega

/-- The step lemma. -/
theorem step_end (h : SearchOk problem) {state : State} (hactive : ActiveOk problem state.active)
    (horder : state.orderIndex < orders.length) :
    StepEnd problem orders state (step problem problem.search orders state) := by
  have hstatus := placeWithOrder_status (h.promote (hactive.nodePairs h))
    ((orders.getD state.orderIndex []).map fun node => (problem.search.nodeAt node).representative)
    .firstFit
  have hrepair : ∀ packed : State, packed.active = state.active →
      packed.orderIndex = state.orderIndex →
      packed.last = pack problem problem.search orders state →
      StepEnd problem orders state (repair problem problem.search orders packed) := by
    intro packed hsame hindex hlast
    have hend := @repair_end problem orders problem.search packed
    generalize repair problem problem.search orders packed = ended at hend
    cases hend with
    | failed same =>
        rw [hlast] at same
        refine .failed ?_ ?_
        · rw [same]
          exact hstatus.1
        · rw [same]
          exact hstatus.2
    | demoted edge mem active order =>
        rw [hsame] at mem active
        refine .next ?_ ?_ ?_
        · rw [active]
          exact fun pair hpair => hactive pair (Std.TreeMap.mem_of_mem_erase hpair)
        · rwa [order, hindex]
        · have hlt := size_erase_lt mem
          rw [active, order, hindex]
          omega
    | reordered active order lt =>
        rw [hsame] at active
        refine .next ?_ lt ?_
        · rw [active]
          exact hactive
        · rw [active, order, hindex]
          omega
  unfold step
  dsimp only
  split
  · next solution hsolution =>
      split_ifs with hfeasible
      · rw [beq_iff_eq] at hfeasible
        obtain ⟨other, hother, hvalid, -⟩ := placeWithOrder_feasible hfeasible
        obtain rfl : other = solution := Option.some.inj (hother.symm.trans hsolution)
        obtain ⟨hsound, hapart, hcost⟩ := sound_of_promoted h hactive hvalid
        exact .repaired ⟨hfeasible, ⟨other, hsolution, hsound, rfl, hapart⟩, hactive, hcost⟩
      · exact hrepair _ rfl rfl rfl
  · exact hrepair _ rfl rfl rfl

/-- The run lemma: the edges and the orders bound the packings. -/
theorem loop_spec (h : SearchOk problem) {packings : ℕ} {state : State}
    (hactive : ActiveOk problem state.active) (horder : state.orderIndex < orders.length)
    (hmeasure : state.active.size + (orders.length - state.orderIndex) ≤ packings) :
    ∃ returned last, loop problem problem.search orders packings state = some (returned, last) ∧
      (returned = true → Repaired problem last) ∧
      (returned = false → last.last.status ≠ .infeasibleProven ∧
        last.last.status ≠ .invalidProblem) := by
  induction packings generalizing state with
  | zero => omega
  | succ packings ih =>
      have hend := step_end h hactive horder
      unfold loop
      generalize step problem problem.search orders state = ended at hend
      cases hend with
      | repaired ok => exact ⟨true, _, rfl, fun _ => ok, nofun⟩
      | failed infeasible invalid =>
          exact ⟨false, _, rfl, nofun, fun _ => ⟨infeasible, invalid⟩⟩
      | next active order measure => exact ih active order (by omega)

theorem loop_add (search : ReusePenaltySearchSpace) {packings : ℕ} {state : State}
    {result : Bool × State} (h : loop problem search orders packings state = some result)
    (more : ℕ) : loop problem search orders (packings + more) state = some result := by
  induction packings generalizing state with
  | zero => cases h
  | succ packings ih =>
      rw [Nat.add_right_comm]
      unfold loop at h ⊢
      cases hstep : step problem search orders state with
      | repaired last =>
          rw [hstep] at h
          exact h
      | failed last =>
          rw [hstep] at h
          exact h
      | next next =>
          rw [hstep] at h
          exact ih h

end loop

/-! ### The solver -/

section solver

variable {problem : DsaProblem} (random : Shuffler)

theorem nodeOrders_pos (search : ReusePenaltySearchSpace) :
    0 < (nodeOrders random problem search).length := by
  unfold nodeOrders canonicalGreedyOrders
  have hfirst : keepFirst [defaultReuseNodeOrder problem search] <+: keepFirst
      ([defaultReuseNodeOrder problem search, birthOrder problem search,
        softWeightOrder problem search] ++ restartOrders random (0 : UInt64).toNat
          (softWeightOrder problem search) (random.seeded 0)) := keepFirst_prefix _ _
  have hone : 0 < (keepFirst [defaultReuseNodeOrder problem search]).length := Nat.zero_lt_one
  exact Nat.lt_of_lt_of_le hone hfirst.length_le

/-- The loop of the solver ends within its packings. -/
theorem run_spec (h : SearchOk problem) : ∃ returned last,
    run random problem problem.search = some (returned, last) ∧
      (∀ more, loop problem problem.search (nodeOrders random problem problem.search)
        (problem.search.softWeights.size + (nodeOrders random problem problem.search).length + more)
          { active := problem.search.softWeights } = some (returned, last)) ∧
      (returned = true → Repaired problem last) ∧
      (returned = false → last.last.status ≠ .infeasibleProven ∧
        last.last.status ≠ .invalidProblem) := by
  have hinitial : ActiveOk problem problem.search.softWeights := fun _ h => h
  have hpos := @nodeOrders_pos problem random problem.search
  let start : State := { active := problem.search.softWeights }
  obtain ⟨returned, last, hloop, hspec⟩ := @loop_spec problem _ h _ start hinitial hpos le_rfl
  exact ⟨returned, last, hloop, loop_add _ hloop, hspec⟩

theorem searchOk_of_accepted (h : CanonicalGreedySolver.Accepted problem) : SearchOk problem := by
  constructor
  · rw [← buildSearch_eq]
    exact h.errors
  · rw [← buildSearch_eq]
    exact h.fixedPools
  · exact noPins_of_compatible h.compatible rfl

/-- The solver returns what the loop returned, or falls back. -/
theorem solve_eq (h : CanonicalGreedySolver.Accepted problem) {returned : Bool} {last : State}
    (hrun : run random problem problem.search = some (returned, last)) :
    solve random problem = if returned then last.last
      else fallBack random problem problem.search last := by
  have hcapacities : ¬(problem.pools.any fun pool => pool.capacity.isNone) = true := by
    rw [List.any_eq_true]
    rintro ⟨pool, hpool, hnone⟩
    exact h.capacities pool hpool (Option.isNone_iff_eq_none.mp hnone)
  rw [← buildSearch_eq] at hrun ⊢
  unfold solve
  dsimp only
  rw [h.compatible, if_neg (by simp), if_neg hcapacities, h.errors, if_neg (by simp),
    h.fixedPools, if_neg (by simp), hrun]
  cases returned with
  | true => rfl
  | false => rfl

theorem fallBack_status {last : State} (search : ReusePenaltySearchSpace)
    (hlast : last.last.status ≠ .infeasibleProven ∧ last.last.status ≠ .invalidProblem) :
    (fallBack random problem search last).status ≠ .infeasibleProven ∧
      (fallBack random problem search last).status ≠ .invalidProblem := by
  unfold fallBack
  dsimp only
  split_ifs with hfeasible
  · rw [beq_iff_eq] at hfeasible
    dsimp only
    rw [hfeasible]
    exact ⟨nofun, nofun⟩
  · exact hlast

end solver

/-- **Promote-and-repair ends soundly.**  The loop ends within as many packings as there are soft
edges and orders; what it returns is feasible for the problem, keeps the active edges apart and
costs no more than the demoted ones; and the solver claims neither infeasibility nor an invalid
problem. -/
theorem promoteRepair_sound (random : Shuffler) (problem : DsaProblem)
    (hcompatible : (checkSolverCompatibility problem baselineCapabilities).compatible = true)
    (hcapacities : ∀ pool ∈ problem.pools, pool.capacity ≠ none)
    (herrors : (buildReusePenaltySearchSpace problem).placement.errors = []) :
    ((buildReusePenaltySearchSpace problem).placement.flexiblePools = false →
      ∃ returned last,
        (∀ more, loop problem problem.search (nodeOrders random problem problem.search)
          (problem.search.softWeights.size +
            (nodeOrders random problem problem.search).length + more)
          { active := problem.search.softWeights } = some (returned, last)) ∧
        (returned = true → solve random problem = last.last ∧ Repaired problem last)) ∧
      (solve random problem).status ≠ .infeasibleProven ∧
        (solve random problem).status ≠ .invalidProblem := by
  by_cases hflexible : (buildReusePenaltySearchSpace problem).placement.flexiblePools = true
  · refine ⟨fun hfixed => absurd (hfixed.symm.trans hflexible) Bool.false_ne_true, ?_⟩
    have hpools : ¬(problem.pools.any fun pool => pool.capacity.isNone) = true := by
      rw [List.any_eq_true]
      rintro ⟨pool, hpool, hnone⟩
      exact hcapacities pool hpool (Option.isNone_iff_eq_none.mp hnone)
    have hsolve : (solve random problem).status = .unsupported := by
      unfold solve
      dsimp only
      rw [hcompatible, if_neg (by simp), if_neg hpools, herrors, if_neg (by simp),
        if_pos hflexible]
    rw [hsolve]
    exact ⟨nofun, nofun⟩
  · rw [Bool.not_eq_true] at hflexible
    have haccepted : CanonicalGreedySolver.Accepted problem :=
      ⟨hcompatible, hcapacities, herrors, hflexible⟩
    obtain ⟨returned, last, hrun, hmore, hreturned, hfailed⟩ :=
      run_spec random (searchOk_of_accepted haccepted)
    have hsolve := solve_eq random haccepted hrun
    refine ⟨fun _ => ⟨returned, last, hmore, fun htrue => ?_⟩, ?_⟩
    · rw [hsolve, htrue]
      exact ⟨rfl, hreturned htrue⟩
    · rw [hsolve]
      cases returned with
      | true =>
          rw [if_pos rfl, (hreturned rfl).feasible]
          exact ⟨nofun, nofun⟩
      | false => exact fallBack_status random problem.search (hfailed rfl)

/-- Two buffers of disjoint lifetimes in a pool with room for one, and a penalty between them. -/
def sharedSlot : DsaProblem where
  pools := [{ id := 0, capacity := some 8 }]
  buffers := [{ id := 1, name := "a", size := 8, liveIntervals := [⟨0, 2⟩], allowedPools := [0] },
    { id := 2, name := "b", size := 8, liveIntervals := [⟨2, 4⟩], allowedPools := [0] }]
  costModel := some { reusePenalties := [{ first := 1, second := 2, cost := 5 }] }
  objective := { terms := [.capacityOverflow, .reuseCost] }

theorem promoteRepair_sound_sharedSlot :
    (∃ last, solve CanonicalGreedySolver.keepOrder sharedSlot = last.last ∧
      Repaired sharedSlot last) ∧
      (solve CanonicalGreedySolver.keepOrder sharedSlot).status ≠ .infeasibleProven ∧
      (solve CanonicalGreedySolver.keepOrder sharedSlot).status ≠ .invalidProblem := by
  obtain ⟨hloop, hstatus⟩ := promoteRepair_sound CanonicalGreedySolver.keepOrder sharedSlot
    (by decide +kernel) (by decide +kernel) (by decide +kernel)
  obtain ⟨returned, last, hends, hrepaired⟩ := hloop (by decide +kernel)
  have hreturns : ((loop sharedSlot sharedSlot.search
      (nodeOrders CanonicalGreedySolver.keepOrder sharedSlot sharedSlot.search)
      (sharedSlot.search.softWeights.size +
        (nodeOrders CanonicalGreedySolver.keepOrder sharedSlot sharedSlot.search).length + 0)
      { active := sharedSlot.search.softWeights }).map Prod.fst) = some true := by decide +kernel
  rw [hends 0] at hreturns
  exact ⟨⟨last, hrepaired (Option.some.inj hreturns)⟩, hstatus⟩

end PromoteRepairSolver

end Dsa
