import DsaSolver.MatchingReach
import DsaSolver.Theory.MatchingDuality
import Mathlib.Data.List.Nodup

/-! # `MinimumCardinalityMatching` is exact

The pairs that carry a unit are a matching with as many pairs as there is flow
(`Balanced.isMatching`).  Every round augments while rows and columns are free
(`augmentAll_spec`), and the labels of the last round certify that no matching of the size costs
less.  The one failure is the number of vertices, which is computed in `int`
(`exact_iff_vertices`). -/

namespace Dsa

open Theory

/-! ### The matching of a flow -/

section extraction

/-- Of 0 and 1 that add up to at most 1 one is not 0 at most. -/
theorem eq_of_sum_le_one {n : ℕ} {f : ℕ → ℤ} (hf : ∀ i < n, f i = 0 ∨ f i = 1)
    (hsum : ∑ i ∈ Finset.range n, f i ≤ 1) {i j : ℕ} (hi : i < n) (hj : j < n) (hfi : f i ≠ 0)
    (hfj : f j ≠ 0) : i = j := by
  by_contra hne
  have hsub : ({i, j} : Finset ℕ) ⊆ Finset.range n := by
    intro k hk
    rw [Finset.mem_insert, Finset.mem_singleton] at hk
    rw [Finset.mem_range]
    omega
  have hle := Finset.sum_le_sum_of_subset_of_nonneg hsub fun k hk _ => by
    have hzeroOne := hf k (Finset.mem_range.mp hk)
    show 0 ≤ f k
    omega
  rw [Finset.sum_pair hne] at hle
  have hzeroOne := hf i hi
  have hzeroOne' := hf j hj
  omega

theorem length_filter_range {n : ℕ} {f : ℕ → ℤ} (hf : ∀ i < n, f i = 0 ∨ f i = 1) :
    (((List.range n).filter fun i => f i ≠ 0).length : ℤ) = ∑ i ∈ Finset.range n, f i := by
  induction n with
  | zero => rfl
  | succ n ih =>
      rw [List.range_succ, List.filter_append, List.length_append, Finset.sum_range_succ, Nat.cast_add,
        ih fun i hi => hf i (by omega)]
      rcases hf n (by omega) with hzero | hone
      · simp [hzero]
      · simp [hone]

/-- The pairs that carry a unit. -/
def carriedPairs (leftCount rightCount : ℕ) (capacity : ℕ → ℕ → ℤ) : List (ℕ × ℕ) :=
  (List.range leftCount).flatMap fun l =>
    ((List.range rightCount).filter fun r => carried leftCount capacity l r ≠ 0).map (Prod.mk l)

theorem mem_carriedPairs {leftCount rightCount : ℕ} {capacity : ℕ → ℕ → ℤ} {pair : ℕ × ℕ} :
    pair ∈ carriedPairs leftCount rightCount capacity ↔
      pair.1 < leftCount ∧ pair.2 < rightCount ∧ carried leftCount capacity pair.1 pair.2 ≠ 0 := by
  simp only [carriedPairs, List.mem_flatMap, List.mem_range, List.mem_map, List.mem_filter,
    decide_eq_true_eq]
  constructor
  · rintro ⟨l, hl, r, ⟨hr, hcarried⟩, rfl⟩
    exact ⟨hl, hr, hcarried⟩
  · rintro ⟨hl, hr, hcarried⟩
    exact ⟨pair.1, hl, pair.2, ⟨hr, hcarried⟩, rfl⟩

variable {costs : List (List UInt64)} {leftCount rightCount flow : ℕ} {capacity : ℕ → ℕ → ℤ}

theorem extractMatching_eq (hflow : UnitFlow (fullNetwork costs leftCount rightCount) capacity) :
    extractMatching (withCapacity (fullNetwork costs leftCount rightCount) capacity) leftCount =
      carriedPairs leftCount rightCount capacity := by
  unfold extractMatching carriedPairs
  apply List.flatMap_congr
  intro l hl
  rw [List.mem_range] at hl
  have hrow : (withCapacity (fullNetwork costs leftCount rightCount) capacity).getD (1 + l) [] =
      { sourceReverse l with capacity := capacity (1 + l) 0 } ::
        (List.range rightCount).map fun r =>
          { pairArc costs leftCount l r with capacity := capacity (1 + l) (1 + r) } := by
    rw [getD_withCapacity, row_left hl, List.mapIdx_cons]
    congr 1
    apply List.ext_getElem (by simp)
    intro r hr _
    simp [Nat.add_comm]
  rw [hrow, List.filter_cons_of_neg (by simp [sourceReverse]), List.filter_map, List.map_map]
  have hfilter : (List.range rightCount).filter ((fun arc : FlowArc =>
      arc.matchingArc && arc.capacity == 0) ∘ fun r =>
        { pairArc costs leftCount l r with capacity := capacity (1 + l) (1 + r) }) =
      (List.range rightCount).filter fun r => carried leftCount capacity l r ≠ 0 := by
    apply List.filter_congr
    intro r hr
    have hsum := hflow.pairSum hl (List.mem_range.mp hr)
    have hzeroOne := hflow.carried_zeroOne hl (List.mem_range.mp hr)
    rw [Bool.eq_iff_iff, decide_eq_true_iff]
    simp [pairArc]
    omega
  rw [hfilter]
  apply List.map_congr_left
  intro r _
  rfl

variable (h : Balanced costs leftCount rightCount flow capacity)

include h

theorem Balanced.isMatching :
    IsMatching leftCount rightCount (carriedPairs leftCount rightCount capacity) := by
  have hnodup : (carriedPairs leftCount rightCount capacity).Nodup := by
    unfold carriedPairs
    rw [List.nodup_flatMap]
    refine ⟨fun l _ => (List.nodup_range.filter _).map (Prod.mk_right_injective l), ?_⟩
    apply List.nodup_range.imp
    intro l l' hne
    rw [Function.onFun, List.disjoint_left]
    intro pair hpair hpair'
    obtain ⟨r, -, rfl⟩ := List.mem_map.mp hpair
    obtain ⟨r', -, heq⟩ := List.mem_map.mp hpair'
    exact hne (congrArg Prod.fst heq).symm
  refine ⟨fun pair hpair => ?_, ?_, ?_⟩
  · obtain ⟨hl, hr, -⟩ := mem_carriedPairs.mp hpair
    exact ⟨hl, hr⟩
  · refine hnodup.map_on fun pair hpair other hother heq => ?_
    obtain ⟨hl, hr, hcarried⟩ := mem_carriedPairs.mp hpair
    obtain ⟨-, hr', hcarried'⟩ := mem_carriedPairs.mp hother
    rw [← heq] at hcarried'
    have hsum := h.sum_row hl
    have hzeroOne := h.unit.zeroOne 0 pair.1 (Place.source hl).lt_degree
    exact Prod.ext heq (eq_of_sum_le_one (fun r hr => h.unit.carried_zeroOne hl hr) (by omega) hr hr'
      hcarried hcarried')
  · refine hnodup.map_on fun pair hpair other hother heq => ?_
    obtain ⟨hl, hr, hcarried⟩ := mem_carriedPairs.mp hpair
    obtain ⟨hl', -, hcarried'⟩ := mem_carriedPairs.mp hother
    rw [← heq] at hcarried'
    have hsum := h.sum_column hr
    have hzeroOne := h.unit.zeroOne _ _ (Place.sink hr).lt_degree
    exact Prod.ext (eq_of_sum_le_one (f := fun l => carried leftCount capacity l pair.2)
      (fun l hl => h.unit.carried_zeroOne hl hr) (by omega) hl hl' hcarried hcarried') heq

theorem Balanced.length_carriedPairs :
    (carriedPairs leftCount rightCount capacity).length = flow := by
  have hlength : ((carriedPairs leftCount rightCount capacity).length : ℤ) =
      ∑ l ∈ Finset.range leftCount, ∑ r ∈ Finset.range rightCount,
        carried leftCount capacity l r := by
    have hprefix : ∀ n ≤ leftCount, (((List.range n).flatMap fun l =>
        ((List.range rightCount).filter fun r => carried leftCount capacity l r ≠ 0).map
          (Prod.mk l)).length : ℤ) =
        ∑ l ∈ Finset.range n, ∑ r ∈ Finset.range rightCount, carried leftCount capacity l r := by
      intro n hn
      induction n with
      | zero => rfl
      | succ n ih =>
          rw [List.range_succ, List.flatMap_append, List.length_append, Nat.cast_add, ih (by omega),
            Finset.sum_range_succ, List.flatMap_singleton, List.length_map,
            length_filter_range fun r hr => h.unit.carried_zeroOne hn hr]
    exact hprefix leftCount le_rfl
  rw [Finset.sum_congr rfl fun l hl => h.sum_row (Finset.mem_range.mp hl), Finset.sum_sub_distrib,
    h.sum_source] at hlength
  simp only [Finset.sum_const, Finset.card_range, nsmul_eq_mul, mul_one] at hlength
  omega

end extraction

/-! ### The rounds -/

section rounds

variable {costs : List (List UInt64)} {leftCount rightCount flow : ℕ} {capacity : ℕ → ℕ → ℤ}

theorem withCapacity_self (graph : FlowGraph) :
    withCapacity graph (fun v i => (arcAt graph v i).capacity) = graph := by
  unfold withCapacity
  apply List.ext_getElem (by simp)
  intro v hv _
  rw [List.length_mapIdx] at hv
  rw [List.getElem_mapIdx]
  apply List.ext_getElem (by simp)
  intro i hi _
  rw [List.length_mapIdx] at hi
  rw [List.getElem_mapIdx]
  simp [arcAt, hv, hi]

/-- Every arc costs at least nothing at first. -/
theorem feasible_initial (hbounded : Bounded costs leftCount rightCount) :
    Feasible (residualArcs (fullNetwork costs leftCount rightCount) fun v i =>
      (arcAt (fullNetwork costs leftCount rightCount) v i).capacity) fun _ => 0 := by
  intro arc harc
  obtain ⟨v, i, hi, hfree, rfl⟩ := mem_residualArcs.mp harc
  simp only [toArc, zero_add]
  cases place hi with
  | source hl => simp [arcAt_source hl, sourceArc]
  | sourceReverse hl => simp [arcAt_sourceReverse hl, sourceReverse]
  | pair hl hr =>
      simp [arcAt_pair hl hr, pairArc, toInt_toInt64 (hbounded _ hl _ hr)]
  | pairReverse hl hr => simp [arcAt_pairReverse hl hr, pairReverse] at hfree
  | sink hr => simp [arcAt_sink hr, sinkArc]
  | sinkReverse hr => simp [arcAt_sinkReverse hr, sinkReverse]

/-- The rounds that are left find their units, unless the matrix costs as much as `kInfinity`. -/
theorem augmentAll_spec (hbounded : Bounded costs leftCount rightCount)
    (htotal : matrixCost costs leftCount rightCount ≤ kInfinity.toInt)
    (h : Balanced costs leftCount rightCount flow capacity) {potential : ℕ → ℤ}
    (hfeasible : Feasible (residualArcs (fullNetwork costs leftCount rightCount) capacity) potential)
    {remaining : ℕ} (hle : flow + remaining ≤ min leftCount rightCount) :
    (∃ capacity' potential', augmentAll (1 + leftCount + rightCount) remaining
          (withCapacity (fullNetwork costs leftCount rightCount) capacity) =
          .ok (some (withCapacity (fullNetwork costs leftCount rightCount) capacity')) ∧
        Balanced costs leftCount rightCount (flow + remaining) capacity' ∧
        Feasible (residualArcs (fullNetwork costs leftCount rightCount) capacity') potential') ∨
      (augmentAll (1 + leftCount + rightCount) remaining
          (withCapacity (fullNetwork costs leftCount rightCount) capacity) = .ok none ∧
        kInfinity.toInt ≤ matrixCost costs leftCount rightCount) := by
  induction remaining generalizing flow capacity potential with
  | zero => exact .inl ⟨capacity, potential, rfl, h, hfeasible⟩
  | succ remaining ih =>
      have hlt : flow < leftCount := by omega
      have hlt' : flow < rightCount := by omega
      have hpaired := paired_fullNetwork hbounded
      have hcost := h.totalCost_eq hbounded
      have hround := augmentOnce_spec hpaired h.unit hfeasible (by rwa [hcost]) (by simp)
        (fun arc harc => by
          obtain ⟨v, i, hi, -, rfl⟩ := mem_residualArcs.mp harc
          have hv := lt_length_of_lt_degree hi
          rw [length_fullNetwork] at hv
          exact h.reach hlt hlt' hbounded hv) (1 + leftCount + rightCount)
      rcases hround with ⟨hnone, hfar⟩ | ⟨capacity', potential', hsome, hunit, hfeasible', hout⟩
      · right
        refine ⟨?_, ?_⟩
        · rw [augmentAll, hnone]
          rfl
        · obtain ⟨path, hwalk, hsimple, -⟩ := h.walk_sink hbounded hlt hlt'
          have hpath := hfar path hwalk hsimple
          have habs := (abs_le.mp (abs_pathCost_le path)).2
          have hsub := totalCost_le hsimple.nodup hwalk.subset
          omega
      · have hnext := h.augment hunit hout
        rw [augmentAll, hsome]
        rw [show flow + (remaining + 1) = flow + 1 + remaining by omega]
        exact ih hnext hfeasible' (by omega)

/-- Labels that are a potential at the end certify the matching. -/
theorem Balanced.certificate (hbounded : Bounded costs leftCount rightCount)
    (h : Balanced costs leftCount rightCount flow capacity) {potential : ℕ → ℤ}
    (hfeasible : Feasible (residualArcs (fullNetwork costs leftCount rightCount) capacity) potential) :
    IsMatching.Certificate leftCount rightCount (fun l r => (costAt costs l r).toNat)
      (carriedPairs leftCount rightCount capacity) (fun l => potential (1 + l))
      (fun r => potential (1 + leftCount + r)) (potential 0)
      (potential (1 + leftCount + rightCount)) := by
  have hfree : ∀ {v i}, Place leftCount rightCount v i → capacity v i ≠ 0 →
      potential (arcAt (fullNetwork costs leftCount rightCount) v i).target ≤ potential v +
        (arcAt (fullNetwork costs leftCount rightCount) v i).cost.toInt :=
    fun hplace hne => hfeasible _ (toArc_mem hplace.lt_degree hne)
  constructor
  · intro l hl r hr hout
    have hzero : carried leftCount capacity l r = 0 := by
      by_contra hne
      exact hout (mem_carriedPairs.mpr ⟨hl, hr, hne⟩)
    have hsum := h.unit.pairSum hl hr
    have hle := hfree (Place.pair hl hr) (by omega)
    rw [arcAt_pair hl hr, pairArc, toInt_toInt64 (hbounded l hl r hr)] at hle
    exact hle
  · intro pair hpair
    obtain ⟨hl, hr, hcarried⟩ := mem_carriedPairs.mp hpair
    have hle := hfree (Place.pairReverse hl hr) hcarried
    simp only [arcAt_pairReverse hl hr, pairReverse, toInt_neg_toInt64 (hbounded _ hl _ hr)] at hle
    omega
  · intro pair hpair
    obtain ⟨hl, hr, hcarried⟩ := mem_carriedPairs.mp hpair
    have hused : capacity 0 pair.1 ≠ 1 := fun hfreeRow =>
      hcarried (h.carried_free_row hl hr hfreeRow)
    have hsum := h.unit.sourceSum hl
    have hle := hfree (Place.sourceReverse hl) (by omega)
    simpa [arcAt_sourceReverse hl, sourceReverse] using hle
  · intro l hl hout
    have hused : capacity 0 l ≠ 0 := by
      intro hzero
      obtain ⟨r, hr, hne⟩ := Finset.exists_ne_zero_of_sum_ne_zero
        (show ∑ r ∈ Finset.range rightCount, carried leftCount capacity l r ≠ 0 by
          rw [h.sum_row hl, hzero]
          omega)
      exact hout (List.mem_map.mpr
        ⟨(l, r), mem_carriedPairs.mpr ⟨hl, Finset.mem_range.mp hr, hne⟩, rfl⟩)
    have hle := hfree (Place.source hl) hused
    simpa [arcAt_source hl, sourceArc] using hle
  · intro pair hpair
    obtain ⟨hl, hr, hcarried⟩ := mem_carriedPairs.mp hpair
    have hused : capacity (1 + leftCount + pair.2) leftCount ≠ 1 := by
      intro hfreeColumn
      have hsum := h.sum_column hr
      rw [hfreeColumn, sub_self, Finset.sum_eq_zero_iff_of_nonneg fun l hl => by
        have hzeroOne := h.unit.carried_zeroOne (Finset.mem_range.mp hl) hr
        omega] at hsum
      exact hcarried (hsum pair.1 (Finset.mem_range.mpr hl))
    have hsum := h.unit.sinkSum hr
    have hzeroOne := h.unit.zeroOne _ _ (Place.sink hr).lt_degree
    have hle := hfree (Place.sinkReverse hr) (by omega)
    simpa [arcAt_sinkReverse hr, sinkReverse] using hle
  · intro r hr hout
    have hused : capacity (1 + leftCount + r) leftCount ≠ 0 := by
      intro hzero
      obtain ⟨l, hl, hne⟩ := Finset.exists_ne_zero_of_sum_ne_zero
        (show ∑ l ∈ Finset.range leftCount, carried leftCount capacity l r ≠ 0 by
          rw [h.sum_column hr, hzero]
          omega)
      exact hout (List.mem_map.mpr
        ⟨(l, r), mem_carriedPairs.mpr ⟨Finset.mem_range.mp hl, hr, hne⟩, rfl⟩)
    have hle := hfree (Place.sink hr) hused
    simpa [arcAt_sink hr, sinkArc] using hle

end rounds

/-! ### Costs and guards -/

/-- All costs together. -/
def matrixSum (costs : List (List UInt64)) : ℕ := (costs.map fun row => (row.map UInt64.toNat).sum).sum

section weights

variable {costs : List (List UInt64)} {rightCount : ℕ}

/-- A row of the loop that adds up, `totalWeight`. -/
theorem foldlM_costs {row : List UInt64} {start total : UInt64} :
    row.foldlM (fun total cost =>
        if cost > kInfinity.toUInt64 then none else some (satAdd total cost)) start = some total ↔
      (∀ cost ∈ row, cost ≤ kInfinity.toUInt64) ∧
        total.toNat = min (2 ^ 64 - 1) (start.toNat + (row.map UInt64.toNat).sum) := by
  induction row generalizing start with
  | nil =>
      have hstart := start.toNat_lt
      rw [List.foldlM_nil, List.map_nil, List.sum_nil]
      constructor
      · intro h
        obtain rfl := Option.some.inj h
        refine ⟨by simp, ?_⟩
        omega
      · rintro ⟨-, h⟩
        exact congrArg some (UInt64.toNat_inj.mp (by omega))
  | cons cost row ih =>
      rw [List.foldlM_cons, List.forall_mem_cons, List.map_cons, List.sum_cons]
      by_cases hcost : cost > kInfinity.toUInt64
      · rw [if_pos hcost]
        constructor
        · intro h
          cases h
        · rintro ⟨⟨hle, -⟩, -⟩
          exact absurd hle (not_le.mpr hcost)
      · rw [if_neg hcost]
        refine Iff.trans ih ?_
        rw [toNat_satAdd, and_assoc]
        have hsum : min (2 ^ 64 - 1) (min (2 ^ 64 - 1) (start.toNat + cost.toNat) +
            (row.map UInt64.toNat).sum) =
            min (2 ^ 64 - 1) (start.toNat + (cost.toNat + (row.map UInt64.toNat).sum)) := by
          omega
        rw [hsum]
        exact (and_iff_right (not_lt.mp hcost)).symm

theorem foldlM_rows {start total : UInt64} :
    costs.foldlM (fun total row =>
        if row.length ≠ rightCount then none
        else row.foldlM (fun total cost =>
          if cost > kInfinity.toUInt64 then none else some (satAdd total cost)) total) start =
        some total ↔
      (∀ row ∈ costs, row.length = rightCount ∧ ∀ cost ∈ row, cost ≤ kInfinity.toUInt64) ∧
        total.toNat = min (2 ^ 64 - 1) (start.toNat + matrixSum costs) := by
  induction costs generalizing start with
  | nil =>
      have hstart := start.toNat_lt
      rw [List.foldlM_nil, matrixSum, List.map_nil, List.sum_nil]
      constructor
      · intro h
        obtain rfl := Option.some.inj h
        refine ⟨by simp, ?_⟩
        omega
      · rintro ⟨-, h⟩
        exact congrArg some (UInt64.toNat_inj.mp (by omega))
  | cons row costs ih =>
      rw [List.foldlM_cons, List.forall_mem_cons, matrixSum, List.map_cons, List.sum_cons, ← matrixSum]
      by_cases hlength : row.length = rightCount
      · rw [if_neg (not_not.mpr hlength), Option.bind_eq_bind, Option.bind_eq_some_iff]
        constructor
        · rintro ⟨next, hrow, hrest⟩
          rw [foldlM_costs] at hrow
          rw [ih] at hrest
          refine ⟨⟨⟨hlength, hrow.1⟩, hrest.1⟩, ?_⟩
          omega
        · rintro ⟨⟨hrow, hrest⟩, htotal⟩
          refine ⟨UInt64.ofNat (min (2 ^ 64 - 1) (start.toNat + (row.map UInt64.toNat).sum)), ?_, ?_⟩
          · refine foldlM_costs.mpr ⟨hrow.2, ?_⟩
            rw [UInt64.toNat_ofNat_of_lt' (show _ < 2 ^ 64 by omega)]
          · refine ih.mpr ⟨hrest, ?_⟩
            rw [UInt64.toNat_ofNat_of_lt' (show _ < 2 ^ 64 by omega)]
            omega
      · rw [if_pos hlength]
        constructor
        · intro h
          cases h
        · rintro ⟨⟨hrow, -⟩, -⟩
          exact absurd hrow.1 hlength

theorem totalWeight_eq_some_iff {total : UInt64} :
    totalWeight costs rightCount = some total ↔
      (∀ row ∈ costs, row.length = rightCount ∧ ∀ cost ∈ row, cost ≤ kInfinity.toUInt64) ∧
        total.toNat = min (2 ^ 64 - 1) (matrixSum costs) := by
  refine foldlM_rows.trans ?_
  rw [UInt64.toNat_zero, Nat.zero_add]

theorem bounded_of_rows (h : ∀ row ∈ costs, row.length = rightCount ∧
    ∀ cost ∈ row, cost ≤ kInfinity.toUInt64) : Bounded costs costs.length rightCount := by
  intro l hl r hr
  obtain ⟨hlength, hle⟩ := h costs[l] (List.getElem_mem hl)
  rw [costAt, List.getD_eq_getElem _ _ hl, List.getD_eq_getElem _ _ (by rwa [hlength])]
  exact hle _ (List.getElem_mem _)

theorem sum_range_getD {α : Type} (l : List α) (d : α) (f : α → ℤ) :
    ∑ i ∈ Finset.range l.length, f (l.getD i d) = (l.map f).sum := by
  induction l with
  | nil => rfl
  | cons a l ih =>
      rw [List.length_cons, Finset.sum_range_succ', List.map_cons, List.sum_cons, ← ih, add_comm]
      rfl

theorem matrixCost_eq (hrect : ∀ row ∈ costs, row.length = rightCount) :
    matrixCost costs costs.length rightCount = matrixSum costs := by
  have hrow : ∀ row ∈ costs, ∑ r ∈ Finset.range rightCount, ((row.getD r 0).toNat : ℤ) =
      ((row.map UInt64.toNat).sum : ℕ) := by
    intro row hrow
    rw [← hrect row hrow, sum_range_getD row 0 fun cost => (cost.toNat : ℤ), Nat.cast_list_sum,
      List.map_map]
    rfl
  unfold matrixCost costAt
  rw [sum_range_getD costs [] fun row => ∑ r ∈ Finset.range rightCount, ((row.getD r 0).toNat : ℤ),
    List.map_congr_left hrow, matrixSum, Nat.cast_list_sum, List.map_map]
  rfl

end weights

/-! ### The result -/

def pairsCost (costs : List (List UInt64)) (pairs : List (ℕ × ℕ)) : ℕ :=
  (pairs.map fun pair => (costAt costs pair.1 pair.2).toNat).sum

/-- A matching of as many pairs as asked, at the least cost. -/
structure IsMinimum (costs : List (List UInt64)) (columns cardinality : ℕ) (pairs : List (ℕ × ℕ)) :
    Prop where
  matching : IsMatching costs.length columns pairs
  length : pairs.length = cardinality
  least : ∀ other, IsMatching costs.length columns other → other.length = cardinality →
    pairsCost costs pairs ≤ pairsCost costs other

/-- What an exact search returns: minimum matchings only, one whenever there is one and the costs
are in range; the walk back to the source ends. -/
structure IsExact (costs : List (List UInt64)) (columns cardinality : ℕ)
    (result : Except Fault (Option (List (ℕ × ℕ)))) : Prop where
  minimum : ∀ pairs, result = .ok (some pairs) → IsMinimum costs columns cardinality pairs
  found : cardinality ≤ min costs.length columns → costs.length ≤ maxInt → columns ≤ maxInt →
    (matrixSum costs : ℤ) < kInfinity.toInt → ∃ pairs, result = .ok (some pairs)
  terminates : result ≠ .error .outOfFuel

section result

variable {costs : List (List UInt64)} {columns cardinality : ℕ}

theorem isMinimum_nil : IsMinimum costs columns 0 [] where
  matching := ⟨by simp, List.nodup_nil, List.nodup_nil⟩
  length := rfl
  least _ _ _ := Nat.zero_le _

/-- The rounds on the network of the matrix. -/
theorem augmentAll_matchingNetwork
    (hrows : ∀ row ∈ costs, row.length = columns ∧ ∀ cost ∈ row, cost ≤ kInfinity.toUInt64)
    (hsum : (matrixSum costs : ℤ) ≤ kInfinity.toInt) (hle : cardinality ≤ min costs.length columns) :
    (∃ graph, augmentAll (1 + costs.length + columns) cardinality
          (matchingNetwork costs costs.length columns) = .ok (some graph) ∧
        (extractMatching graph costs.length).length = cardinality ∧
        IsMinimum costs columns cardinality (extractMatching graph costs.length)) ∨
      (augmentAll (1 + costs.length + columns) cardinality
          (matchingNetwork costs costs.length columns) = .ok none ∧
        kInfinity.toInt ≤ matrixSum costs) := by
  have hbounded := bounded_of_rows hrows
  have hcost := matrixCost_eq fun row hrow => (hrows row hrow).1
  have hrun := augmentAll_spec hbounded (by rwa [hcost])
    (Balanced.initial costs costs.length columns) (feasible_initial hbounded)
    (show 0 + cardinality ≤ _ by omega)
  rw [withCapacity_self, hcost, Nat.zero_add] at hrun
  rw [matchingNetwork_eq]
  rcases hrun with ⟨capacity, potential, hgraph, hbalanced, hfeasible⟩ | hnone
  · left
    refine ⟨_, hgraph, ?_⟩
    rw [extractMatching_eq hbalanced.unit]
    refine ⟨hbalanced.length_carriedPairs, hbalanced.isMatching, hbalanced.length_carriedPairs,
      fun other hother hlength => ?_⟩
    have hleast := hbalanced.isMatching.sum_le hother
      (hlength.trans hbalanced.length_carriedPairs.symm) (hbalanced.certificate hbounded hfeasible)
    have hcast : ∀ pairs : List (ℕ × ℕ), (pairsCost costs pairs : ℤ) =
        (pairs.map fun pair => ((costAt costs pair.1 pair.2).toNat : ℤ)).sum := by
      intro pairs
      rw [pairsCost, Nat.cast_list_sum, List.map_map]
      rfl
    rw [← hcast, ← hcast] at hleast
    exact_mod_cast hleast
  · exact .inr hnone

theorem headD_length (hrect : ∀ row ∈ costs, row.length = columns) (hne : costs ≠ []) :
    (costs.headD []).length = columns := by
  cases costs with
  | nil => exact absurd rfl hne
  | cons row costs => exact hrect row List.mem_cons_self

theorem cost_le_matrixSum {row : List UInt64} {cost : UInt64} (hrow : row ∈ costs)
    (hcost : cost ∈ row) : cost.toNat ≤ matrixSum costs :=
  (List.single_le_sum (fun _ _ => Nat.zero_le _) _ (List.mem_map_of_mem hcost)).trans
    (List.single_le_sum (fun _ _ => Nat.zero_le _) _
      (List.mem_map_of_mem (f := fun row : List UInt64 => (row.map UInt64.toNat).sum) hrow))

/-- Costs that do not reach `kInfinity` pass the loop that checks them. -/
theorem totalWeight_of_lt (hrect : ∀ row ∈ costs, row.length = columns)
    (hlt : (matrixSum costs : ℤ) < kInfinity.toInt) :
    ∃ total, totalWeight costs columns = some total ∧ total.toNat = matrixSum costs := by
  have hbound : kInfinity.toInt = 2305843009213693951 := by decide
  have hnat : kInfinity.toUInt64.toNat = 2305843009213693951 := by decide
  have hvalue : (UInt64.ofNat (matrixSum costs)).toNat = matrixSum costs :=
    UInt64.toNat_ofNat_of_lt' (show _ < 2 ^ 64 by omega)
  refine ⟨UInt64.ofNat (matrixSum costs), totalWeight_eq_some_iff.mpr ⟨fun row hrow =>
    ⟨hrect row hrow, fun cost hcost => UInt64.le_iff_toNat_le.mpr ?_⟩, ?_⟩, hvalue⟩
  · have hle := cost_le_matrixSum hrow hcost
    omega
  · omega

/-- Past the first guards: no result for want of room in the costs, an overflow of `int`, or a
minimum matching. -/
theorem minimumCardinalityMatching_cases (hrect : ∀ row ∈ costs, row.length = columns)
    (hcard : cardinality ≠ 0) (hrows : costs.length ≤ maxInt) (hcolumns : columns ≤ maxInt)
    (hle : cardinality ≤ min costs.length columns) :
    (minimumCardinalityMatching costs cardinality = .ok none ∧
        kInfinity.toInt ≤ matrixSum costs) ∨
      (minimumCardinalityMatching costs cardinality = .error .intOverflow ∧
        maxInt < costs.length + columns + 2) ∨
      (∃ pairs, minimumCardinalityMatching costs cardinality = .ok (some pairs) ∧
        IsMinimum costs columns cardinality pairs ∧ costs.length + columns + 2 ≤ maxInt) := by
  have hne : costs ≠ [] := by
    rintro rfl
    simp at hle
    omega
  have hbound : kInfinity.toInt = 2305843009213693951 := by decide
  have hnat : kInfinity.toUInt64.toNat = 2305843009213693951 := by decide
  have hguard : ¬(costs.length > maxInt ∨ columns > maxInt ∨
      cardinality > min costs.length columns) := by
    omega
  unfold minimumCardinalityMatching
  dsimp only
  rw [headD_length hrect hne, if_neg hcard, if_neg hguard]
  cases hweight : totalWeight costs columns with
  | none =>
      refine .inl ⟨rfl, not_lt.mp fun hlt => ?_⟩
      obtain ⟨total, htotal, -⟩ := totalWeight_of_lt hrect hlt
      rw [hweight] at htotal
      cases htotal
  | some total =>
      obtain ⟨hrowsOk, htotal⟩ := totalWeight_eq_some_iff.mp hweight
      dsimp only
      by_cases hover : total > kInfinity.toUInt64
      · rw [if_pos hover]
        have hlt := UInt64.lt_iff_toNat_lt.mp hover
        exact .inl ⟨rfl, by omega⟩
      · rw [if_neg hover]
        have hsum : (matrixSum costs : ℤ) ≤ kInfinity.toInt := by
          have hle := UInt64.le_iff_toNat_le.mp (not_lt.mp hover)
          omega
        by_cases hvertices : costs.length + columns + 2 > maxInt
        · rw [if_pos hvertices]
          exact .inr (.inl ⟨rfl, hvertices⟩)
        · rw [if_neg hvertices]
          rcases augmentAll_matchingNetwork hrowsOk hsum hle with
            ⟨graph, hgraph, hlength, hminimum⟩ | ⟨hnone, hfar⟩
          · right; right
            refine ⟨extractMatching graph costs.length, ?_, hminimum, not_lt.mp hvertices⟩
            rw [hgraph]
            exact if_neg (not_not.mpr hlength)
          · left
            rw [hnone]
            exact ⟨rfl, hfar⟩

/-- The guards before the costs are read. -/
theorem minimumCardinalityMatching_guarded (hrect : ∀ row ∈ costs, row.length = columns)
    (hcard : cardinality ≠ 0) (hguard : ¬(costs.length ≤ maxInt ∧ columns ≤ maxInt ∧
      cardinality ≤ min costs.length columns)) :
    minimumCardinalityMatching costs cardinality = .ok none := by
  unfold minimumCardinalityMatching
  dsimp only
  rw [if_neg hcard]
  by_cases hne : costs = []
  · subst hne
    exact if_pos (.inr (.inr (by simpa using Nat.pos_of_ne_zero hcard)))
  · rw [headD_length hrect hne]
    exact if_pos (by omega)

/-- The search is exact but for the number of vertices, which has to fit `int` where a matching
is due. -/
theorem exact_iff_vertices (costs : List (List UInt64)) (columns cardinality : ℕ)
    (hrect : ∀ row ∈ costs, row.length = columns) :
    IsExact costs columns cardinality (minimumCardinalityMatching costs cardinality) ↔
      (cardinality ≤ min costs.length columns → costs.length ≤ maxInt → columns ≤ maxInt →
        (matrixSum costs : ℤ) < kInfinity.toInt →
        cardinality = 0 ∨ costs.length + columns + 2 ≤ maxInt) := by
  by_cases hcard : cardinality = 0
  · subst hcard
    refine ⟨fun _ _ _ _ _ => .inl rfl, fun _ => ⟨fun pairs hpairs => ?_, fun _ _ _ _ => ⟨[], rfl⟩, ?_⟩⟩
    · cases hpairs
      exact isMinimum_nil
    · intro h
      cases h
  by_cases hguard : costs.length ≤ maxInt ∧ columns ≤ maxInt ∧
      cardinality ≤ min costs.length columns
  · obtain ⟨hrows, hcolumns, hle⟩ := hguard
    rcases minimumCardinalityMatching_cases hrect hcard hrows hcolumns hle with
      ⟨hnone, hfar⟩ | ⟨hoverflow, hvertices⟩ | ⟨pairs, hpairs, hminimum, hvertices⟩
    · rw [hnone]
      refine ⟨fun _ _ _ _ hlt => absurd hlt (not_lt.mpr hfar), fun _ => ⟨?_, ?_, ?_⟩⟩
      · intro pairs hpairs
        cases hpairs
      · exact fun _ _ _ hlt => absurd hlt (not_lt.mpr hfar)
      · intro h
        cases h
    · rw [hoverflow]
      constructor
      · intro hexact hle' hrows' hcolumns' hlt
        obtain ⟨pairs, hpairs⟩ := hexact.found hle' hrows' hcolumns' hlt
        cases hpairs
      · intro hfits
        refine ⟨?_, fun hle' hrows' hcolumns' hlt => ?_, ?_⟩
        · intro pairs hpairs
          cases hpairs
        · rcases hfits hle' hrows' hcolumns' hlt with hzero | hfits
          · exact absurd hzero hcard
          · exact absurd hvertices (not_lt.mpr hfits)
        · intro h
          cases h
    · rw [hpairs]
      refine ⟨fun _ _ _ _ _ => .inr hvertices, fun _ => ⟨?_, fun _ _ _ _ => ⟨pairs, rfl⟩, ?_⟩⟩
      · intro other hother
        cases hother
        exact hminimum
      · intro h
        cases h
  · rw [minimumCardinalityMatching_guarded hrect hcard hguard]
    refine ⟨fun _ hle hrows hcolumns _ => absurd ⟨hrows, hcolumns, hle⟩ hguard, fun _ => ⟨?_, ?_, ?_⟩⟩
    · intro pairs hpairs
      cases hpairs
    · exact fun hle hrows hcolumns _ => absurd ⟨hrows, hcolumns, hle⟩ hguard
    · intro h
      cases h

end result

/-- **The search is exact** where its vertices, the rows, the columns, the source and the sink, fit
`int`: what it returns is a minimum matching, it returns one whenever one is due, and the walk back
to the source ends. -/
theorem minimumCardinalityMatching_exact (costs : List (List UInt64)) (columns cardinality : ℕ)
    (hrect : ∀ row ∈ costs, row.length = columns)
    (hvertices : costs.length + columns + 2 ≤ maxInt) :
    IsExact costs columns cardinality (minimumCardinalityMatching costs cardinality) :=
  (exact_iff_vertices costs columns cardinality hrect).mpr fun _ _ _ _ => .inr hvertices

/-- Two pairs of three rows and three columns, with free arcs among the costs. -/
theorem minimumCardinalityMatching_exact_square :
    IsExact [[4, 1, 0], [2, 0, 5], [3, 7, 0]] 3 2
        (minimumCardinalityMatching [[4, 1, 0], [2, 0, 5], [3, 7, 0]] 2) ∧
      ∃ pairs, minimumCardinalityMatching [[4, 1, 0], [2, 0, 5], [3, 7, 0]] 2 = .ok (some pairs) := by
  have hexact := minimumCardinalityMatching_exact [[4, 1, 0], [2, 0, 5], [3, 7, 0]] 3 2 (by decide)
    (by decide)
  exact ⟨hexact, hexact.found (by decide) (by decide) (by decide) (by decide)⟩

end Dsa
