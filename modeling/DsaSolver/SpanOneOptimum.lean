import DsaSolver.SpanOneCost

/-! # The answers of the span-one solver

The colours of the phases are a cheapest placement of a pool (`solveSpanPool_end`), so the answer
of the solver proves the least reuse cost; the solver gives up only where the matching would
overflow (`spanOne_leastCost`). -/

namespace Dsa

namespace SpanOneMinCostFlowSolver

open Theory (Sat total meets)
open PoolTwoSearch (nodes mem_nodes lt_of_mem_nodes)
open PoolCanonicalSearch (Placed poolNodes)

variable {problem : DsaProblem} {options : Options}

/-! ### The colours of the first phase -/

theorem foldl_setColors {left : List ℕ} (hnodup : left.Nodup) (start : ℕ) (colors : Colors)
    (hcount : ∀ n ∈ left, n < colors.length) :
    ((left.zipIdx start).foldl (fun colors entry => colors.set entry.1 entry.2) colors).length =
        colors.length ∧
      (∀ n ∉ left, colorAt ((left.zipIdx start).foldl (fun colors entry =>
        colors.set entry.1 entry.2) colors) n = colorAt colors n) ∧
      ∀ i < left.length, colorAt ((left.zipIdx start).foldl (fun colors entry =>
        colors.set entry.1 entry.2) colors) (left.getD i 0) = start + i := by
  induction left generalizing start colors with
  | nil => exact ⟨rfl, fun _ _ => rfl, fun i hi => absurd hi (Nat.not_lt_zero i)⟩
  | cons node rest ih =>
      obtain ⟨hnode, hrest⟩ := List.forall_mem_cons.mp hcount
      rw [List.nodup_cons] at hnodup
      rw [List.zipIdx_cons, List.foldl_cons]
      obtain ⟨hlength, hout, hin⟩ := ih hnodup.2 (start + 1) (colors.set node start)
        fun n hn => by rw [List.length_set]; exact hrest n hn
      refine ⟨hlength.trans List.length_set, fun n hn => ?_, fun i hi => ?_⟩
      · rw [List.mem_cons, not_or] at hn
        rw [hout n hn.2, colorAt_set hnode, if_neg hn.1]
      · cases i with
        | zero =>
            rw [List.getD_cons_zero, hout node hnodup.1, colorAt_set hnode, if_pos rfl]
            rfl
        | succ i =>
            rw [List.getD_cons_succ, hin i (Nat.lt_of_succ_lt_succ hi)]
            omega

theorem colored_firstColors {left : List ℕ} {rest : List (List ℕ)} {colors : ℕ}
    (hnodup : left.Nodup) (hcount : ∀ n ∈ left, n < problem.search.count)
    (hfits : left.length ≤ colors) :
    (firstColors problem.search (left :: rest)).length = problem.search.count ∧
      Colored colors (colorAt (firstColors problem.search (left :: rest))) left := by
  obtain ⟨hlength, -, hin⟩ := foldl_setColors hnodup 0 (List.replicate problem.search.count 0)
    fun n hn => by rw [List.length_replicate]; exact hcount n hn
  unfold firstColors
  rw [List.headD_cons]
  refine ⟨hlength.trans List.length_replicate,
    (List.nodup_map_iff_inj_on hnodup).mpr fun n hn m hm heq => ?_, fun n hn => ?_⟩
  · obtain ⟨i, hi, rfl⟩ := List.mem_iff_getElem.mp hn
    obtain ⟨j, hj, rfl⟩ := List.mem_iff_getElem.mp hm
    rw [← List.getD_eq_getElem _ 0 hi, ← List.getD_eq_getElem _ 0 hj, hin i hi, hin j hj] at heq
    obtain rfl : i = j := by omega
    rfl
  · obtain ⟨i, hi, rfl⟩ := List.mem_iff_getElem.mp hn
    rw [← List.getD_eq_getElem _ 0 hi, hin i hi]
    omega

/-! ### The weights -/

/-- The sum of the weights of the soft edges. -/
def softTotal (problem : DsaProblem) : ℕ :=
  total problem.search.softWeights fun _ weight => weight.toNat

theorem sum_product (l l' : List ℕ) (F : ℕ × ℕ → ℕ) :
    ((l ×ˢ l').map F).sum = (l.map fun a => (l'.map fun b => F (a, b)).sum).sum := by
  induction l with
  | nil => rfl
  | cons a l ih =>
      rw [List.product_cons, List.map_append, List.sum_append, List.map_map, ih, List.map_cons,
        List.sum_cons]
      rfl

theorem map_range_getD {α : Type} (l : List α) (d : α) (F : α → ℕ) :
    ((List.range l.length).map fun i => F (l.getD i d)) = l.map F := by
  refine List.ext_getElem (by simp) fun i hi hi' => ?_
  rw [List.length_map] at hi'
  rw [List.getElem_map, List.getElem_map, List.getElem_range, List.getD_eq_getElem _ _ hi']

/-- The costs of a boundary are weights of different edges. -/
theorem matrixSum_le {left right : List ℕ} (hleft : left.Nodup) (hright : right.Nodup)
    (hdisjoint : ∀ n ∈ left, n ∉ right) :
    matrixSum (boundaryCosts problem.search left right) ≤ softTotal problem := by
  have hsum := @sum_boundaryPairs left right problem.search hleft hright hdisjoint (fun _ => True)
    inferInstance
  have hmatrix : matrixSum (boundaryCosts problem.search left right) =
      ((List.range left.length ×ˢ List.range right.length).map fun p =>
        (costAt (boundaryCosts problem.search left right) p.1 p.2).toNat).sum := by
    rw [sum_product]
    unfold matrixSum
    rw [← map_range_getD _ [], length_boundaryCosts]
    refine congrArg List.sum (List.map_congr_left fun l hl => ?_)
    have hrow : ((boundaryCosts problem.search left right).getD l []).length = right.length := by
      rw [List.mem_range, ← @length_boundaryCosts problem.search left right] at hl
      rw [List.getD_eq_getElem _ _ hl]
      exact boundaryCosts_rows _ (List.getElem_mem hl)
    rw [← map_range_getD _ 0, hrow]
    rfl
  simp only [and_true, if_true] at hsum
  rw [hmatrix, ← hsum]
  refine Theory.total_le fun entry _ => ?_
  split_ifs
  · exact le_rfl
  · exact Nat.zero_le _

/-! ### A pool -/

/-- Two phases have more vertices between them than an `int` counts. -/
def LargeBoundary (phases : List (List ℕ)) : Prop :=
  ∃ first ∈ phases, ∃ second ∈ phases, maxInt < first.length + second.length + 2

/-- The outcomes of `SolveSpanPool`. -/
inductive SpanPoolEnd (problem : DsaProblem) (pool : PoolId) (span : SpanPool) :
    Except Fault (Option (List UInt64)) → Prop
  | cheapest (offsets : List UInt64) (cheapest : CheapestPlaced problem pool (positions offsets)) :
      SpanPoolEnd problem pool span (.ok (some offsets))
  | heavy (heavy : kInfinity.toInt ≤ softTotal problem ∨ LargeBoundary span.phases) :
      SpanPoolEnd problem pool span (.ok none)
  | overflow (large : LargeBoundary span.phases) :
      SpanPoolEnd problem pool span (.error .intOverflow)

/-- The colours of the phases, as offsets. -/
theorem cheapestPlaced_of_colors {pool : Pool} {maxPhaseBuffers : ℕ} {capacity : UInt64}
    {span : SpanPool} (h : SearchOk problem)
    (hspan : SpanOk problem pool maxPhaseBuffers capacity span) {last : Colors}
    (hlength : last.length = problem.search.count)
    (hcolored : ∀ phase ∈ span.phases, Colored span.colors.toNat (colorAt last) phase)
    (hleast : span.phases.IsChain (LeastBetween problem.search span.colors.toNat (colorAt last))) :
    CheapestPlaced problem pool.id (positions (last.zipIdx.map fun entry =>
      if (span.phaseByNode.getD entry.2 none).isSome then UInt64.ofNat entry.1 * span.unit
      else 0)) := by
  have hcoloring := coloring_of_colored hspan.phases hspan.found hcolored
  rw [hspan.colors_eq] at hcoloring
  refine (hspan.units.cheapest_of_coloring h hcoloring (fun n hn => ?_) fun g hg => ?_).1
  · have hcount : n < last.length := by
      rw [hlength]
      exact PoolCanonicalSearch.lt_of_mem_poolNodes hn
    have hlt := hcoloring.lt n hn
    have hcolor : colorAt last n = last[n] := List.getD_eq_getElem _ _ hcount
    have hmul : colorAt last n * span.unit.toNat ≤ capacity.toNat :=
      (Nat.mul_le_mul_right _ hlt.le).trans (Nat.div_mul_le_self _ _)
    have hcapacity := capacity.toNat_lt
    have hunit := hspan.units.unit_pos
    have hsmall : colorAt last n < 2 ^ 64 := by
      have := Nat.div_le_self capacity.toNat span.unit.toNat
      omega
    unfold positions
    rw [List.getD_eq_getElem _ _ (by rwa [List.length_map, List.length_zipIdx]), List.getElem_map,
      List.getElem_zipIdx, Nat.zero_add, ← hcolor, if_pos (hspan.phaseByNode n (mem_nodes.mpr hn)),
      UInt64.toNat_mul, UInt64.toNat_ofNat_of_lt' hsmall]
    exact Nat.mod_eq_of_lt (by omega)
  · refine colorCost_le_of_exact (exactCost_le h hspan.phases hspan.bridges hleast
      (colored_of_coloring hspan.phases ?_))
    rw [hspan.colors_eq]
    exact hg.mono (min_le_left _ _)

theorem solveSpanPool_end (h : SearchOk problem) {pool : Pool} {maxPhaseBuffers : ℕ}
    {span : SpanPool}
    (hspan : (∃ capacity, SpanOk problem pool maxPhaseBuffers capacity span) ∨
      poolNodes problem.search pool.id = [] ∧ span.phases = []) :
    SpanPoolEnd problem pool.id span (solveSpanPool problem.search span) := by
  unfold solveSpanPool
  cases hphases : span.phases with
  | nil =>
      -- no phases: the pool has no nodes
      refine .cheapest _ (cheapestPlaced_of_empty ?_ _)
      rcases hspan with ⟨capacity, hspan⟩ | ⟨hempty, -⟩
      · refine List.eq_nil_iff_forall_not_mem.mpr fun n hn => ?_
        have := hspan.found n (mem_nodes.mpr hn)
        rw [hphases] at this
        exact List.not_mem_nil this
      · exact hempty
  | cons left rest =>
      rcases hspan with ⟨capacity, hspan⟩ | ⟨-, hnil⟩
      · have hok := hspan.phases
        rw [hphases] at hok
        have hcount : ∀ phase ∈ left :: rest, ∀ n ∈ phase, n < problem.search.count :=
          fun phase hphase n hn => lt_of_mem_nodes (hok.inPool phase hphase n hn)
        obtain ⟨hlength, hcolored⟩ := @colored_firstColors problem left rest span.colors.toNat
          ((List.nodup_flatten.mp hok.nodup).1 left List.mem_cons_self)
          (hcount left List.mem_cons_self) (hok.fits left List.mem_cons_self)
        have hend := @joinPhases_end problem.search span.colors.toNat left rest
          (firstColors problem.search (left :: rest)) hok.nodup (fun n hn => by
            obtain ⟨phase, hphase, hmem⟩ := List.mem_flatten.mp hn
            rw [hlength]
            exact hcount phase (List.mem_cons_of_mem _ hphase) n hmem)
          (fun phase hphase => hok.fits phase (List.mem_cons_of_mem _ hphase)) hcolored
        generalize joinPhases problem.search span.colors.toNat (left :: rest)
          (firstColors problem.search (left :: rest)) = result at hend
        cases hend with
        | joined last hlast _ hall hleast =>
            refine .cheapest _ (cheapestPlaced_of_colors h hspan (hlast.trans hlength) ?_ ?_)
            · rwa [hphases]
            · rwa [hphases]
        | heavy first second hmem hdisjoint hheavy =>
            have hnodup := (List.nodup_flatten.mp hok.nodup).1
            have hsum := @matrixSum_le problem first second (hnodup first hmem.1)
              (hnodup second hmem.2) hdisjoint
            refine .heavy (hheavy.imp (fun hlarge => ?_) fun hlarge => ?_)
            · exact hlarge.trans (by exact_mod_cast hsum)
            · rw [hphases]
              exact ⟨first, hmem.1, second, hmem.2, hlarge⟩
        | overflow first second hmem hlarge =>
            refine .overflow ?_
            rw [hphases]
            exact ⟨first, hmem.1, second, hmem.2, hlarge⟩
      · rw [hphases] at hnil
        cases hnil

/-! ### The loop over the pools -/

/-- The pools done hold cheapest placements. -/
def Joined (problem : DsaProblem) (done : List Pool) (state : SolveState) : Prop :=
  ∀ pool ∈ done, CheapestPlaced problem pool.id (positions state.offsets)

/-- A pool has two phases that are too large. -/
def PhasesLarge (problem : DsaProblem) (options : Options) : Prop :=
  ∃ pool ∈ problem.pools, ∃ span,
    buildSpanPool problem problem.search pool.id options.maxPhaseBuffers = .ok span ∧
      LargeBoundary span.phases

/-- A pool has another shape, the costs are too large, or there are too many buffers in the phases
of a pool. -/
def Limited (problem : DsaProblem) (options : Options) : Prop :=
  (∃ pool ∈ problem.pools, ∀ span,
      buildSpanPool problem problem.search pool.id options.maxPhaseBuffers ≠ .ok span) ∨
    kInfinity.toInt ≤ softTotal problem ∨ PhasesLarge problem options

/-- The ends of a part of the loop. -/
inductive PoolsEnd (problem : DsaProblem) (options : Options) (done : List Pool) :
    Except Fault (Except DsaResult SolveState) → Prop
  | joined (next : SolveState) (joined : Joined problem done next) :
      PoolsEnd problem options done (.ok (.ok next))
  | infeasible (result : DsaResult) (pool : Pool) (mem : pool ∈ problem.pools)
      (status : result.status = .infeasibleProven) (none : ∀ q, ¬ Placed problem pool.id q)
      (limited : Limited problem options) : PoolsEnd problem options done (.ok (.error result))
  | refused (result : DsaResult) (status : result.status = .unsupported)
      (limited : Limited problem options) : PoolsEnd problem options done (.ok (.error result))
  | overflow (large : PhasesLarge problem options) :
      PoolsEnd problem options done (.error .intOverflow)

theorem spanOk_or_empty (h : SearchOk problem) {pool : Pool} (hpool : pool ∈ problem.pools)
    {maxPhaseBuffers : ℕ} {span : SpanPool}
    (hbuild : buildSpanPool problem problem.search pool.id maxPhaseBuffers = .ok span) :
    (∃ capacity, SpanOk problem pool maxPhaseBuffers capacity span) ∨
      poolNodes problem.search pool.id = [] ∧ span.phases = [] := by
  have hshape := buildSpanPool_end h hpool maxPhaseBuffers
  rw [hbuild] at hshape
  cases hshape with
  | shaped _ capacity hok => exact .inl ⟨capacity, hok⟩
  | empty _ hempty hphases => exact .inr ⟨hempty, hphases⟩

/-- Two phases are too large only when the limit on the phases is. -/
theorem PhasesLarge.lt (h : SearchOk problem) (hlarge : PhasesLarge problem options) :
    maxInt < 2 * options.maxPhaseBuffers + 2 := by
  obtain ⟨pool, hpool, span, hbuild, first, hfirst, second, hsecond, hsum⟩ := hlarge
  rcases spanOk_or_empty h hpool hbuild with ⟨capacity, hspan⟩ | ⟨-, hnil⟩
  · have hfirst := hspan.phases.small first hfirst
    have hsecond := hspan.phases.small second hsecond
    omega
  · rw [hnil] at hfirst
    cases hfirst

theorem joinPool_end (h : SearchOk problem) {done : List Pool} {pool : Pool}
    (hpool : pool ∈ problem.pools) (hnew : ∀ other ∈ done, other.id ≠ pool.id) {state : SolveState}
    (hjoined : Joined problem done state) : PoolsEnd problem options (done ++ [pool])
      (joinPool problem problem.search options state pool) := by
  have hshape := buildSpanPool_end h hpool options.maxPhaseBuffers
  unfold joinPool
  cases hbuild : buildSpanPool problem problem.search pool.id options.maxPhaseBuffers with
  | error what =>
      have hlimited : Limited problem options := .inl ⟨pool, hpool, fun span heq => by
        rw [hbuild] at heq
        cases heq⟩
      rw [hbuild] at hshape
      cases hshape with
      | full diagnostic hnone => exact .infeasible _ pool hpool rfl hnone hlimited
      | refused diagnostic => exact .refused _ rfl hlimited
  | ok span =>
      have hend := solveSpanPool_end h (spanOk_or_empty h hpool hbuild)
      dsimp only
      generalize solveSpanPool problem.search span = result at hend
      cases hend with
      | overflow hlarge => exact .overflow ⟨pool, hpool, span, hbuild, hlarge⟩
      | heavy hheavy =>
          exact .refused _ rfl (.inr (hheavy.imp_right fun hlarge =>
            ⟨pool, hpool, span, hbuild, hlarge⟩))
      | cheapest offsets hcheapest =>
          refine .joined _ fun other hother => ?_
          rcases List.mem_append.mp hother with hold | hlast
          · refine (hjoined other hold).congr fun n hn => ?_
            rw [positions_merge hn, if_neg (hnew other hold)]
          · rw [List.mem_singleton.mp hlast]
            exact hcheapest.congr fun n hn => by rw [positions_merge hn, if_pos rfl]

/-- The loop over the rest of the pools. -/
theorem joinPools_end (h : SearchOk problem) {rest done : List Pool}
    (hpools : problem.pools = done ++ rest) {state : SolveState}
    (hjoined : Joined problem done state) : PoolsEnd problem options problem.pools
      (joinPools problem problem.search options rest state) := by
  induction rest generalizing done state with
  | nil =>
      refine .joined state ?_
      rwa [hpools, List.append_nil]
  | cons pool rest ih =>
      have hpool : pool ∈ problem.pools := by
        rw [hpools]
        exact List.mem_append_right _ List.mem_cons_self
      have hnew : ∀ other ∈ done, other.id ≠ pool.id := by
        have hnodup := h.prepared.wellFormed.poolIds
        rw [hpools, List.map_append, List.nodup_append] at hnodup
        intro other hother
        exact hnodup.2.2 _ (List.mem_map_of_mem hother) _ (List.mem_map_of_mem List.mem_cons_self)
      have hend := @joinPool_end problem options h done pool hpool hnew state hjoined
      unfold joinPools
      generalize joinPool problem problem.search options state pool = result at hend
      cases hend with
      | joined next hnext =>
          refine ih ?_ hnext
          rw [hpools, List.append_assoc, List.singleton_append]
      | infeasible result other hmem hstatus hnone hlimited =>
          exact .infeasible result other hmem hstatus hnone hlimited
      | refused result hstatus hlimited => exact .refused result hstatus hlimited
      | overflow hlarge => exact .overflow hlarge

/-! ### The solver -/

/-- The ends of the solver after its checks. -/
theorem solvePrepared_end (h : SearchOk problem) :
    (∃ result, solvePrepared options problem problem.search = .ok result ∧
      ProvesLeastCost problem result ∧ result.status ≠ .timeout ∧
        (result.status ≠ .invalidProblem ∧ result.status ≠ .bestEffortNoFit) ∧
        (result.status = .feasible ∨ Limited problem options)) ∨
    (solvePrepared options problem problem.search = .error .intOverflow ∧
      PhasesLarge problem options) := by
  have hend := @joinPools_end problem options h problem.pools [] rfl
    { offsets := List.replicate problem.search.count 0 } fun _ hmem => (List.not_mem_nil hmem).elim
  unfold solvePrepared
  generalize joinPools problem problem.search options problem.pools
    { offsets := List.replicate problem.search.count 0 } = result at hend
  cases hend with
  | overflow hlarge => exact .inr ⟨rfl, hlarge⟩
  | joined state hjoined =>
      refine .inl ⟨_, rfl, ?_⟩
      have hbuilt := buildValidated_of_cheapest h hjoined .feasible
      unfold finishSolve
      rw [hbuilt]
      refine ⟨.of_cheapest h hjoined ?_ rfl rfl, ?_, ?_, .inl rfl⟩
      · dsimp only
        decide
      · dsimp only
        decide
      · dsimp only
        decide
  | infeasible result pool hmem hstatus hnone hlimited =>
      refine .inl ⟨result, rfl, ⟨fun heq => absurd (hstatus.symm.trans heq) (by decide), fun _ =>
        no_valid_of_pool h hmem fun q hplaced => absurd hplaced (hnone q)⟩, ?_, ?_, .inr hlimited⟩
      · rw [hstatus]
        decide
      · rw [hstatus]
        decide
  | refused result hstatus hlimited =>
      refine .inl ⟨result, rfl, .of_unsupported hstatus, ?_, ?_, .inr hlimited⟩
      · rw [hstatus]
        decide
      · rw [hstatus]
        decide

/-- The checks of the solver. -/
theorem solve_cases (problem : DsaProblem) (options : Options) :
    ((checkSolverCompatibility problem capacityTwoCapabilities).compatible = true ∧
        reuseBeforePeakLimitation problem "span_one_min_cost_flow" = none ∧
          problem.search.placement.errors = []) ∧
      solve options problem = solvePrepared options problem problem.search ∨
    ¬((checkSolverCompatibility problem capacityTwoCapabilities).compatible = true ∧
        reuseBeforePeakLimitation problem "span_one_min_cost_flow" = none ∧
          problem.search.placement.errors = []) ∧
      ∃ result, solve options problem = .ok result ∧ Refused problem result := by
  unfold solve
  cases hcompatible : (checkSolverCompatibility problem capacityTwoCapabilities).compatible with
  | false =>
      exact .inr ⟨fun hall => absurd hall.1 (by decide), _, rfl, refused_rejectUnsupported ..⟩
  | true =>
      rw [Bool.not_true, if_neg Bool.false_ne_true]
      cases hlimitation : reuseBeforePeakLimitation problem "span_one_min_cost_flow" with
      | some limitation =>
          exact .inr ⟨fun hall => absurd hall.2.1 (by simp), _, rfl, .unsupported rfl rfl⟩
      | none =>
          dsimp only
          rw [buildSearch_eq]
          by_cases herrors : problem.search.placement.errors = []
          · rw [if_neg (not_not.mpr herrors)]
            exact .inl ⟨⟨rfl, rfl, herrors⟩, rfl⟩
          · rw [if_pos herrors]
            exact .inr ⟨fun hall => herrors hall.2.2, _, rfl, .invalid rfl rfl (.inr herrors)⟩

/-- A pool without an answer carries no placement. -/
theorem joinPools_empty {search : ReusePenaltySearchSpace} {rest : List Pool} {state : SolveState}
    {result : DsaResult}
    (herror : joinPools problem search options rest state = .ok (.error result)) :
    result.solution = none := by
  induction rest generalizing state with
  | nil =>
      unfold joinPools at herror
      cases herror
  | cons pool rest ih =>
      unfold joinPools at herror
      rw [Theory.bind_eq_ok] at herror
      obtain ⟨ended, hended, hrest⟩ := herror
      cases ended with
      | ok next => exact ih hrest
      | error other =>
          obtain rfl := Except.error.inj (Except.ok.inj hrest)
          unfold joinPool at hended
          cases hbuild : buildSpanPool problem search pool.id options.maxPhaseBuffers with
          | error what =>
              rw [hbuild] at hended
              obtain rfl := Except.error.inj (Except.ok.inj hended)
              rfl
          | ok span =>
              rw [hbuild] at hended
              dsimp only at hended
              rw [Theory.bind_eq_ok] at hended
              obtain ⟨offsets, -, hended⟩ := hended
              cases offsets with
              | none =>
                  obtain rfl := Except.error.inj (Except.ok.inj hended)
                  rfl
              | some offsets => cases Except.ok.inj hended

theorem solvePrepared_carries {search : ReusePenaltySearchSpace} {result : DsaResult}
    (hresult : solvePrepared options problem search = .ok result) :
    CarriesValid problem result := by
  unfold solvePrepared at hresult
  rw [Theory.bind_eq_ok] at hresult
  obtain ⟨ended, hended, hresult⟩ := hresult
  cases ended with
  | error other =>
      obtain rfl := Except.ok.inj hresult
      exact .of_none (joinPools_empty hended)
  | ok state =>
      obtain rfl := Except.ok.inj hresult
      exact (carriesValid_buildValidated search state.offsets .feasible).congr rfl rfl

/-- **The span-one solver is exact**: its answers have the least reuse cost, it never stops early,
no `int` overflows within a limit on the phases, and it answers where the pools have its shape and
the costs are in range. -/
theorem spanOne_leastCost (problem : DsaProblem) (options : Options) :
    (∀ result, solve options problem = .ok result → ProvesLeastCost problem result ∧
      result.status ≠ .timeout ∧ (result.status = .invalidProblem →
        validateProblem problem ≠ [] ∨ problem.search.placement.errors ≠ [])) ∧
    (2 * options.maxPhaseBuffers + 2 ≤ maxInt → ∃ result, solve options problem = .ok result) ∧
    ((checkSolverCompatibility problem capacityTwoCapabilities).compatible = true →
      reuseBeforePeakLimitation problem "span_one_min_cost_flow" = none →
      problem.search.placement.errors = [] → ¬ Limited problem options →
        ∃ result, solve options problem = .ok result ∧ result.status = .feasible) := by
  rcases solve_cases problem options with
    ⟨⟨hcompatible, hlimitation, herrors⟩, heq⟩ | ⟨hnot, result, hresult, hrefused⟩
  · have h := searchOk_of_compatible hcompatible rfl rfl herrors
    rw [heq]
    rcases @solvePrepared_end problem options h with
      ⟨result, hresult, hproves, htimeout, hinvalid, hanswers⟩ | ⟨hresult, hlarge⟩
    · rw [hresult]
      refine ⟨fun other hother => ?_, fun _ => ⟨result, rfl⟩, fun _ _ _ hfree =>
        ⟨result, rfl, hanswers.resolve_right hfree⟩⟩
      obtain rfl := Except.ok.inj hother
      exact ⟨hproves, htimeout, fun hstatus => absurd hstatus hinvalid.1⟩
    · rw [hresult]
      refine ⟨fun other hother => ?_, fun hle => absurd (hlarge.lt h) (not_lt.mpr hle),
        fun _ _ _ hfree => absurd (.inr (.inr hlarge)) hfree⟩
      cases hother
  · rw [hresult]
    refine ⟨fun other hother => ?_, fun _ => ⟨result, rfl⟩, fun hcompatible hlimitation herrors =>
      absurd ⟨hcompatible, hlimitation, herrors⟩ hnot⟩
    obtain rfl := Except.ok.inj hother
    exact ⟨hrefused.proves, hrefused.status_ne.1, hrefused.reason⟩

/-- Two phases of two buffers in a pool of three slots, so one buffer of the second phase takes a
slot of the first.  The cheapest pair costs 2. -/
def twoPhases : DsaProblem where
  buffers :=
    [{ id := 0, size := 4, alignment := 4, liveIntervals := [⟨0, 1⟩] },
      { id := 1, size := 4, alignment := 4, liveIntervals := [⟨0, 1⟩] },
      { id := 2, size := 4, alignment := 4, liveIntervals := [⟨1, 2⟩] },
      { id := 3, size := 4, alignment := 4, liveIntervals := [⟨1, 2⟩] }]
  pools := [{ capacity := some 12 }]
  costModel := some ⟨[{ first := 0, second := 2, cost := 5 }, { first := 0, second := 3, cost := 4 },
    { first := 1, second := 2, cost := 2 }, { first := 1, second := 3, cost := 7 }]⟩
  objective := fitThenMinimizeReuseCostObjective

theorem not_limited_twoPhases : ¬ Limited twoPhases {} := by
  have hbuild : (match buildSpanPool twoPhases twoPhases.search 0 512 with
      | .ok span => decide (span.phases.all fun phase => phase.length == 2)
      | .error _ => false) = true := by decide +kernel
  have hpool : ∀ pool ∈ twoPhases.pools, pool.id = 0 := by decide
  cases hspan : buildSpanPool twoPhases twoPhases.search 0 512 with
  | error what =>
      rw [hspan] at hbuild
      cases hbuild
  | ok span =>
      rw [hspan] at hbuild
      have hlength : ∀ phase ∈ span.phases, phase.length = 2 := by simpa using hbuild
      rintro (⟨pool, hmem, hnone⟩ | hheavy | ⟨pool, hmem, other, hother, hlarge⟩)
      · rw [hpool pool hmem] at hnone
        exact hnone span hspan
      · revert hheavy
        decide +kernel
      · rw [hpool pool hmem] at hother
        obtain rfl := Except.ok.inj (hspan.symm.trans hother)
        obtain ⟨first, hfirst, second, hsecond, hsum⟩ := hlarge
        rw [hlength first hfirst, hlength second hsecond] at hsum
        exact absurd hsum (by decide)

theorem spanOne_leastCost_twoPhases : ∃ result, solve {} twoPhases = .ok result ∧
    result.status = .feasible ∧ ProvesLeastCost twoPhases result ∧
      result.objective.reuseCost = 2 := by
  obtain ⟨hsound, -, hanswers⟩ := spanOne_leastCost twoPhases {}
  obtain ⟨result, hresult, hfeasible⟩ := hanswers (by decide +kernel) (by decide +kernel)
    (by decide +kernel) not_limited_twoPhases
  have hcost : (solve {} twoPhases).map (fun result => result.objective.reuseCost) = .ok 2 := by
    decide +kernel
  rw [hresult] at hcost
  exact ⟨result, hresult, hfeasible, (hsound result hresult).1, Except.ok.inj hcost⟩

end SpanOneMinCostFlowSolver

end Dsa
