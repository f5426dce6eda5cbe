import DsaSolver.SyncDerivation
import DsaSolver.Pairs

/-! # Applying derived penalties

`ApplyPenaltyEdgeDerivation` adds the derived edges to the reuse penalties of a problem.  The
problem stays valid and keeps its valid placements and their peaks; what a placement costs more is
what the derived edges ask for whose buffers it makes share memory (`derivedPenalties_cost`). -/

namespace Dsa

/-- The reuse penalty of a derived edge. -/
def DerivedPenaltyEdge.penalty (edge : DerivedPenaltyEdge) : ReusePenalty where
  first := edge.first
  second := edge.second
  cost := edge.cost
  reason := .generic

/-- `ApplyPenaltyEdgeDerivation` on a problem that is there. -/
def applyPenaltyEdgeDerivation (problem : DsaProblem) (derivation : PenaltyEdgeDerivation) :
    DsaProblem :=
  let costModel := problem.costModel.getD {}
  { problem with
    costModel := some
      { costModel with
        reusePenalties :=
          costModel.reusePenalties ++ derivation.edges.map DerivedPenaltyEdge.penalty }
    objective := fitThenMinimizeReuseCostObjective }

/-! ### Sums of costs -/

/-- A saturating sum of selected costs. -/
theorem toNat_foldl_saturatingAdd {α : Type*} (p : α → Bool) (f : α → UInt64) (l : List α)
    (a : UInt64) :
    (l.foldl (fun cost x => if p x then saturatingAdd cost (f x) else cost) a).toNat =
      min (2 ^ 64 - 1) (a.toNat + ((l.filter p).map fun x => (f x).toNat).sum) := by
  induction l generalizing a with
  | nil =>
      have := a.toNat_lt
      simp only [List.foldl_nil, List.filter_nil, List.map_nil, List.sum_nil]
      omega
  | cons x l ih =>
      rw [List.foldl_cons, ih]
      by_cases hp : p x = true
      · rw [if_pos hp, List.filter_cons_of_pos hp, List.map_cons, List.sum_cons,
          Theory.toNat_satAdd]
        omega
      · rw [if_neg hp, List.filter_cons_of_neg hp]

section derivation

variable {problem : DsaProblem} {program : ScheduledProgram} {syncCost : List (List UInt64)}
  {derivation : PenaltyEdgeDerivation}

/-! ### The edges -/

/-- What an accepted derivation is made of. -/
theorem derivePenaltyEdges_eq (h : derivePenaltyEdges problem program syncCost = .ok derivation) :
    validateProblem problem = [] ∧ ∃ indexed summaries,
      summarize program indexed problem.buffers = .ok summaries ∧
        derivation.edges = ((((indexPairs summaries).filterMap orientPair).map fun pair =>
          deriveEdge program indexed syncCost pair.1 pair.2).filter fun edge =>
            !edge.neededSyncs.isEmpty).insertionSort edgeBefore := by
  unfold derivePenaltyEdges at h
  cases hvalid : validateProblem problem with
  | cons error rest => simp [hvalid, throwInvalid] at h
  | nil =>
      simp only [hvalid, Theory.bind_eq_ok] at h
      obtain ⟨-, -, indexed, -, summaries, hsummaries, h⟩ := h
      obtain rfl := Except.ok.inj h
      exact ⟨rfl, indexed, summaries, hsummaries, rfl⟩

/-- An edge that asks for a synchronisation costs something. -/
theorem deriveEdge_spec (indexed : IndexedProgram) (earlier later : AccessSummary) :
    (deriveEdge program indexed syncCost earlier later).Joins earlier.buffer later.buffer ∧
      ((deriveEdge program indexed syncCost earlier later).neededSyncs ≠ [] →
        0 < (deriveEdge program indexed syncCost earlier later).cost) := by
  obtain ⟨hfirst, hsecond, hsyncs, hcost⟩ := @foldl_addSync program indexed syncCost
    (accessOperation program later.firstWrite) earlier.maximal
    { first := min earlier.buffer.id later.buffer.id
      second := max earlier.buffer.id later.buffer.id }
  refine ⟨⟨hfirst, hsecond⟩, fun hneeded => ?_⟩
  rw [UInt64.lt_iff_toNat_lt]
  unfold deriveEdge at hneeded ⊢
  rw [hcost]
  rw [hsyncs] at hneeded
  dsimp only at hneeded ⊢
  rw [List.nil_append, ne_eq, List.map_eq_nil_iff] at hneeded
  obtain ⟨access, hmem⟩ := List.exists_mem_of_ne_nil _ hneeded
  have hneeds := (List.mem_filter.mp hmem).2
  unfold needsSync at hneeds
  rw [Bool.and_eq_true, bne_iff_ne] at hneeds
  have hpos : 0 < (syncCostOf program syncCost (accessOperation program access)
      (accessOperation program later.firstWrite)).toNat :=
    Nat.pos_of_ne_zero fun hzero => hneeds.2 (UInt64.toNat_inj.mp hzero)
  have hle := List.single_le_sum (fun _ _ => Nat.zero_le _) _ (List.mem_map_of_mem
    (f := fun access => (syncCostOf program syncCost (accessOperation program access)
      (accessOperation program later.firstWrite)).toNat) hmem)
  rw [UInt64.toNat_zero]
  omega

/-- A derived edge joins a buffer to a later one and costs something. -/
theorem edge_spec (h : derivePenaltyEdges problem program syncCost = .ok derivation)
    {edge : DerivedPenaltyEdge} (hedge : edge ∈ derivation.edges) :
    ∃ earlier ∈ problem.buffers, ∃ later ∈ problem.buffers,
      earlierLifetime earlier later = true ∧ edge.Joins earlier later ∧ 0 < edge.cost := by
  obtain ⟨hvalid, indexed, summaries, hsummaries, hedges⟩ := derivePenaltyEdges_eq h
  have hbuffers : ∀ s ∈ summaries, s.buffer ∈ problem.buffers := fun s hs =>
    ((summarize_spec hsummaries).1 s hs).1
  rw [hedges, List.mem_insertionSort, List.mem_filter, List.mem_map] at hedge
  obtain ⟨⟨⟨earlier, later⟩, hpair, rfl⟩, hsyncs⟩ := hedge
  obtain ⟨hearlier, hlater, hlifetime⟩ := (mem_orientedPairs hvalid hbuffers).mp hpair
  obtain ⟨hjoins, hcost⟩ := @deriveEdge_spec program syncCost indexed earlier later
  exact ⟨_, hbuffers _ hearlier, _, hbuffers _ hlater, hlifetime, hjoins,
    hcost (by simpa using hsyncs)⟩

/-! ### Every pair once -/

theorem map_buffer_summarize {indexed : IndexedProgram} {buffers : List Buffer}
    {summaries : List AccessSummary} (h : summarize program indexed buffers = .ok summaries) :
    summaries.map AccessSummary.buffer = buffers := by
  induction buffers generalizing summaries with
  | nil =>
      obtain rfl := Except.ok.inj h
      rfl
  | cons buffer rest ih =>
      simp only [summarize, Theory.bind_eq_ok] at h
      obtain ⟨first, -, others, hothers, h⟩ := h
      obtain rfl := Except.ok.inj h
      rw [List.map_cons, ih hothers]

/-- The buffers of a pair, the smaller id first. -/
def pairKey (pair : AccessSummary × AccessSummary) : BufferId × BufferId :=
  (min pair.1.buffer.id pair.2.buffer.id, max pair.1.buffer.id pair.2.buffer.id)

theorem pairKey_eq {first second third fourth : AccessSummary}
    (h : pairKey (first, second) = pairKey (third, fourth)) :
    first.buffer.id = third.buffer.id ∧ second.buffer.id = fourth.buffer.id ∨
      first.buffer.id = fourth.buffer.id ∧ second.buffer.id = third.buffer.id := by
  obtain ⟨hmin, hmax⟩ := Prod.mk.inj h
  exact eq_or_swap_of_min_max hmin hmax

theorem nodup_pairKeys {summaries : List AccessSummary}
    (h : (summaries.map fun summary => summary.buffer.id).Nodup) :
    ((indexPairs summaries).map pairKey).Nodup := by
  induction summaries with
  | nil => exact List.nodup_nil
  | cons first rest ih =>
      obtain ⟨hfirst, hrest⟩ := List.nodup_cons.mp h
      have hnotMem : ∀ other ∈ rest, first.buffer.id ≠ other.buffer.id := by
        intro other hother heq
        exact hfirst (List.mem_map.mpr ⟨other, hother, heq.symm⟩)
      unfold indexPairs
      rw [List.map_append, List.map_map]
      refine List.nodup_append.mpr ⟨?_, ih hrest, ?_⟩
      · refine List.Nodup.map_on ?_ (List.Nodup.of_map _ hrest)
        intro x hx y hy heq
        apply List.inj_on_of_nodup_map hrest hx hy
        rcases pairKey_eq heq with ⟨-, hsame⟩ | ⟨hcross, -⟩
        · exact hsame
        · exact absurd hcross (hnotMem y hy)
      · rintro x hx y hy rfl
        obtain ⟨other, hother, rfl⟩ := List.mem_map.mp hx
        obtain ⟨⟨third, fourth⟩, hpair, heq⟩ := List.mem_map.mp hy
        obtain ⟨hthird, hfourth⟩ := mem_indexPairs hpair
        rcases pairKey_eq heq with ⟨hsame, -⟩ | ⟨-, hsame⟩
        · exact hnotMem third hthird hsame.symm
        · exact hnotMem fourth hfourth hsame.symm

theorem pairKey_orientPair {pair oriented : AccessSummary × AccessSummary}
    (h : orientPair pair = some oriented) : pairKey oriented = pairKey pair := by
  obtain ⟨first, second⟩ := pair
  unfold orientPair at h
  split_ifs at h
  · obtain rfl := Option.some.inj h
    unfold pairKey
    rw [min_comm, max_comm]
  · obtain rfl := Option.some.inj h
    rfl

/-- The keys of the pairs kept are some of the keys of all pairs. -/
theorem pairKeys_sublist (pairs : List (AccessSummary × AccessSummary)) :
    ((pairs.filterMap orientPair).map pairKey).Sublist (pairs.map pairKey) := by
  induction pairs with
  | nil => exact .slnil
  | cons pair pairs ih =>
      cases horient : orientPair pair with
      | none =>
          rw [List.filterMap_cons_none horient]
          exact ih.cons _
      | some oriented =>
          rw [List.filterMap_cons_some horient, List.map_cons, List.map_cons,
            pairKey_orientPair horient]
          exact ih.cons_cons _

/-- No two edges join the same buffers. -/
theorem nodup_edges (h : derivePenaltyEdges problem program syncCost = .ok derivation) :
    (derivation.edges.map fun edge => (edge.first, edge.second)).Nodup := by
  obtain ⟨hvalid, indexed, summaries, hsummaries, hedges⟩ := derivePenaltyEdges_eq h
  have hids : (summaries.map fun summary => summary.buffer.id).Nodup := by
    have hnodup := (WellFormed.of_validateProblem hvalid).bufferIds
    rw [← map_buffer_summarize hsummaries, List.map_map] at hnodup
    exact hnodup
  have hkeys : ∀ pairs : List (AccessSummary × AccessSummary),
      ((pairs.map fun pair => deriveEdge program indexed syncCost pair.1 pair.2).map
        fun edge => (edge.first, edge.second)) = pairs.map pairKey := by
    intro pairs
    rw [List.map_map]
    apply List.map_congr_left
    intro pair _
    obtain ⟨hmin, hmax⟩ := (@deriveEdge_spec program syncCost indexed pair.1 pair.2).1
    exact Prod.ext hmin hmax
  rw [hedges]
  refine ((List.perm_insertionSort _ _).map _).nodup_iff.mpr ?_
  refine List.Nodup.sublist (List.filter_sublist.map _) ?_
  rw [hkeys]
  exact (nodup_pairKeys hids).sublist (pairKeys_sublist _)

/-! ### The problem with the edges -/

theorem apply_eq_withSoft (problem : DsaProblem) (derivation : PenaltyEdgeDerivation) :
    applyPenaltyEdgeDerivation problem derivation = problem.withSoft problem.separations
      (applyPenaltyEdgeDerivation problem derivation).costModel
      fitThenMinimizeReuseCostObjective := rfl

theorem reusePenalties_apply : (applyPenaltyEdgeDerivation problem derivation).reusePenalties =
    problem.reusePenalties ++ derivation.edges.map DerivedPenaltyEdge.penalty := by
  unfold applyPenaltyEdgeDerivation DsaProblem.reusePenalties
  cases problem.costModel with
  | none => rfl
  | some costs => rfl

theorem knownBuffer_of_mem {buffer : Buffer} (h : buffer ∈ problem.buffers) :
    knownBuffer problem buffer.id = true := by
  obtain ⟨i, hi, rfl⟩ := List.getElem_of_mem h
  exact knownBuffer_iff.mpr ⟨i, hi, by rw [DsaProblem.bufferAt, List.getD_eq_getElem _ _ hi]⟩

theorem reusePenaltyErrors_penalty {edge : DerivedPenaltyEdge} {first second : Buffer}
    (hfirst : first ∈ problem.buffers) (hsecond : second ∈ problem.buffers)
    (hjoins : edge.Joins first second) : reusePenaltyErrors problem edge.penalty = [] := by
  have hknown : ∀ id, id = first.id ∨ id = second.id → knownBuffer problem id = true := by
    rintro id (rfl | rfl)
    · exact knownBuffer_of_mem hfirst
    · exact knownBuffer_of_mem hsecond
  obtain ⟨hmin, hmax⟩ := hjoins
  have h1 : knownBuffer problem edge.first = true := by
    apply hknown
    rw [hmin]
    change (if first.id ≤ second.id then first.id else second.id) = _ ∨
      (if first.id ≤ second.id then first.id else second.id) = _
    split_ifs <;> simp
  have h2 : knownBuffer problem edge.second = true := by
    apply hknown
    rw [hmax]
    change (if first.id ≤ second.id then second.id else first.id) = _ ∨
      (if first.id ≤ second.id then second.id else first.id) = _
    split_ifs <;> simp
  unfold reusePenaltyErrors DerivedPenaltyEdge.penalty
  rw [errorIf_eq_nil]
  dsimp only
  rw [h1, h2]
  rfl

theorem validateProblem_apply (h : derivePenaltyEdges problem program syncCost = .ok derivation)
    (hvalid : validateProblem problem = []) :
    validateProblem (applyPenaltyEdgeDerivation problem derivation) = [] := by
  obtain ⟨-, -, -, -, hseparations, -, -, hpenalties, -, -, -⟩ :=
    (validateProblem_eq_nil_iff problem).mp hvalid
  rw [apply_eq_withSoft, validateProblem_withSoft_iff hvalid, ← apply_eq_withSoft,
    reusePenalties_apply]
  refine ⟨hseparations, fun penalty hmem => ?_, by decide, by decide⟩
  rcases List.mem_append.mp hmem with hmem | hmem
  · exact hpenalties penalty hmem
  · obtain ⟨edge, hedge, rfl⟩ := List.mem_map.mp hmem
    obtain ⟨earlier, hearlier, later, hlater, -, hjoins, -⟩ := edge_spec h hedge
    exact reusePenaltyErrors_penalty hearlier hlater hjoins

theorem validateSolution_apply_iff
    (h : derivePenaltyEdges problem program syncCost = .ok derivation)
    (hvalid : validateProblem problem = []) (solution : DsaSolution) :
    validateSolution (applyPenaltyEdgeDerivation problem derivation) solution = [] ↔
      validateSolution problem solution = [] := by
  rw [validateSolution_eq_nil_iff, validateSolution_eq_nil_iff, validateProblem_apply h hvalid,
    hvalid, apply_eq_withSoft, solutionOk_withSoft_iff, ← solutionOk_iff_hardOk]

/-- The edges whose buffers share memory are paid on top. -/
theorem reuseCost_apply (solution : DsaSolution) :
    (evaluateObjective (applyPenaltyEdgeDerivation problem derivation) solution).reuseCost.toNat =
      min (2 ^ 64 - 1) ((evaluateObjective problem solution).reuseCost.toNat +
        ((derivation.edges.filter fun edge => penaltyPaid problem solution edge.penalty).map
          fun edge => edge.cost.toNat).sum) := by
  have hpaid : ∀ penalty, penaltyPaid (applyPenaltyEdgeDerivation problem derivation) solution
      penalty = penaltyPaid problem solution penalty := fun _ => rfl
  unfold evaluateObjective
  dsimp only
  rw [reusePenalties_apply, List.foldl_append, List.foldl_map]
  simp only [hpaid]
  exact toNat_foldl_saturatingAdd (fun edge => penaltyPaid problem solution edge.penalty)
    DerivedPenaltyEdge.cost derivation.edges _

/-- **Derived penalties price what a placement costs.**  Applied to the problem it was derived
from, a derivation leaves a valid problem with the same valid placements and peaks; each of its
edges joins a buffer to a later one at a positive cost, no two edges the same ones, and a placement
costs what it did before and the costs of the edges whose buffers it makes share memory, up to
saturation. -/
theorem derivedPenalties_cost (problem : DsaProblem) (program : ScheduledProgram)
    (syncCost : List (List UInt64)) (derivation : PenaltyEdgeDerivation)
    (h : derivePenaltyEdges problem program syncCost = .ok derivation) :
    validateProblem (applyPenaltyEdgeDerivation problem derivation) = [] ∧
      (∀ edge ∈ derivation.edges, ∃ earlier ∈ problem.buffers, ∃ later ∈ problem.buffers,
        earlierLifetime earlier later = true ∧ edge.Joins earlier later ∧ 0 < edge.cost) ∧
      (derivation.edges.map fun edge => (edge.first, edge.second)).Nodup ∧
      ∀ solution,
        (validateSolution (applyPenaltyEdgeDerivation problem derivation) solution = [] ↔
          validateSolution problem solution = []) ∧
        (evaluateObjective (applyPenaltyEdgeDerivation problem derivation) solution).peakByPool =
          (evaluateObjective problem solution).peakByPool ∧
        (evaluateObjective (applyPenaltyEdgeDerivation problem derivation)
            solution).reuseCost.toNat =
          min (2 ^ 64 - 1) ((evaluateObjective problem solution).reuseCost.toNat +
            ((derivation.edges.filter fun edge => !sameClass problem edge.first edge.second &&
                !pairConflicts problem edge.first edge.second &&
                pairOverlaps problem solution edge.first edge.second).map
              fun edge => edge.cost.toNat).sum) := by
  have hvalid := (derivePenaltyEdges_eq h).1
  refine ⟨validateProblem_apply h hvalid, fun edge hedge => edge_spec h hedge, nodup_edges h,
    fun solution => ⟨validateSolution_apply_iff h hvalid solution, rfl, ?_⟩⟩
  rw [reuseCost_apply]
  simp only [penaltyPaid_eq]
  rfl

end derivation

/-- The one edge of the two streams leaves the valid placements as they are. -/
theorem derivedPenalties_cost_twoStream :
    ∃ derivation, derivePenaltyEdges twoStreamProblem twoStreamProgram [[1, 5], [5, 1]] =
        .ok derivation ∧ derivation.edges = [⟨0, 1, 5, [⟨11, 12⟩]⟩] ∧
      validateProblem (applyPenaltyEdgeDerivation twoStreamProblem derivation) = [] ∧
      ∀ solution,
        validateSolution (applyPenaltyEdgeDerivation twoStreamProblem derivation) solution = [] ↔
          validateSolution twoStreamProblem solution = [] := by
  have hvalue : (derivePenaltyEdges twoStreamProblem twoStreamProgram [[1, 5], [5, 1]]).toOption =
      some ⟨[⟨0, 1, 5, [⟨11, 12⟩]⟩], 1, 0⟩ := by decide +kernel
  cases hresult : derivePenaltyEdges twoStreamProblem twoStreamProgram [[1, 5], [5, 1]] with
  | error what =>
      rw [hresult] at hvalue
      cases hvalue
  | ok derivation =>
      obtain ⟨hvalid, -, -, hsolutions⟩ := derivedPenalties_cost _ _ _ _ hresult
      obtain rfl := eq_of_toOption hvalue hresult
      exact ⟨_, rfl, rfl, hvalid, fun solution => (hsolutions solution).1⟩

end Dsa
