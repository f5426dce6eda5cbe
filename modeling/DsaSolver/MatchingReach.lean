import DsaSolver.MatchingFlow

/-! # Reaching the sink of a matching network

While rows and columns are free every vertex can be reached (`Balanced.reach`), the sink at the
cost of one pair (`Balanced.walk_sink`).  The residual arcs cost as much as the matrix
(`Balanced.totalCost_eq`). -/

namespace Dsa

open Theory

/-! ### Reaching every vertex -/

section reach

variable {costs : List (List UInt64)} {leftCount rightCount flow : ℕ} {capacity : ℕ → ℕ → ℤ}

theorem simple_of_nodup {path : List (Arc ℕ)} (h : (0 :: path.map Arc.head).Nodup) : Simple 0 path := by
  rw [List.nodup_cons] at h
  exact ⟨h.2, h.1⟩

/-- A walk goes on over a place that is free. -/
theorem Place.walk {v i : ℕ} (hplace : Place leftCount rightCount v i) (hfree : capacity v i ≠ 0)
    {path : List (Arc ℕ)}
    (hwalk : Walk (residualArcs (fullNetwork costs leftCount rightCount) capacity) 0 v path) :
    Walk (residualArcs (fullNetwork costs leftCount rightCount) capacity) 0
      (toArc (fullNetwork costs leftCount rightCount) v i).head
      (toArc (fullNetwork costs leftCount rightCount) v i :: path) :=
  Walk.cons (toArc_mem hplace.lt_degree hfree) hwalk

theorem head_source {l : ℕ} (hl : l < leftCount) :
    (toArc (fullNetwork costs leftCount rightCount) 0 l).head = 1 + l := by
  simp [toArc, arcAt_source hl, sourceArc]

theorem head_pair {l r : ℕ} (hl : l < leftCount) (hr : r < rightCount) :
    (toArc (fullNetwork costs leftCount rightCount) (1 + l) (1 + r)).head = 1 + leftCount + r := by
  simp [toArc, arcAt_pair hl hr, pairArc]

theorem head_pairReverse {l r : ℕ} (hl : l < leftCount) (hr : r < rightCount) :
    (toArc (fullNetwork costs leftCount rightCount) (1 + leftCount + r) l).head = 1 + l := by
  simp [toArc, arcAt_pairReverse hl hr, pairReverse]

theorem head_sink {r : ℕ} (hr : r < rightCount) :
    (toArc (fullNetwork costs leftCount rightCount) (1 + leftCount + r) leftCount).head =
      1 + leftCount + rightCount := by
  simp [toArc, arcAt_sink hr, sinkArc]

/-- The walk to a row that is free. -/
theorem walk_row (costs : List (List UInt64)) {l : ℕ} (hl : l < leftCount) (hfree : capacity 0 l = 1) :
    Walk (residualArcs (fullNetwork costs leftCount rightCount) capacity) 0 (1 + l)
      [toArc (fullNetwork costs leftCount rightCount) 0 l] := by
  have hne : capacity 0 l ≠ 0 := by omega
  have hnil : Walk (residualArcs (fullNetwork costs leftCount rightCount) capacity) 0 0 [] := Walk.nil
  have hwalk := (Place.source hl).walk hne hnil
  rwa [head_source hl] at hwalk

variable (h : Balanced costs leftCount rightCount flow capacity)

include h

/-- The walk to a column through a free row. -/
theorem Balanced.walk_column {l r : ℕ} (hl : l < leftCount) (hr : r < rightCount)
    (hfree : capacity 0 l = 1) :
    Walk (residualArcs (fullNetwork costs leftCount rightCount) capacity) 0 (1 + leftCount + r)
      [toArc (fullNetwork costs leftCount rightCount) (1 + l) (1 + r),
        toArc (fullNetwork costs leftCount rightCount) 0 l] := by
  have hpair : capacity (1 + l) (1 + r) ≠ 0 := by
    have hsum := h.unit.pairSum hl hr
    have hcarried := h.carried_free_row hl hr hfree
    omega
  have hwalk := (Place.pair hl hr).walk hpair (walk_row costs hl hfree)
  rwa [head_pair hl hr] at hwalk

/-- The walk to the sink through a free row and a free column; it costs what their pair costs. -/
theorem Balanced.walk_sink (hbounded : Bounded costs leftCount rightCount) (hlt : flow < leftCount)
    (hlt' : flow < rightCount) :
    ∃ path, Walk (residualArcs (fullNetwork costs leftCount rightCount) capacity) 0
        (1 + leftCount + rightCount) path ∧ Simple 0 path ∧
      ∃ l < leftCount, ∃ r < rightCount, pathCost path = (costAt costs l r).toNat := by
  obtain ⟨l, hl, hrow⟩ := h.exists_free_row hlt
  obtain ⟨r, hr, hcolumn⟩ := h.exists_free_column hlt'
  have hne : capacity (1 + leftCount + r) leftCount ≠ 0 := by omega
  have hwalk := (Place.sink hr).walk hne (h.walk_column hl hr hrow)
  rw [head_sink hr] at hwalk
  refine ⟨_, hwalk, simple_of_nodup ?_, l, hl, r, hr, ?_⟩
  · simp only [List.map_cons, List.map_nil, head_sink hr, head_pair hl hr, head_source hl]
    simp only [List.nodup_cons, List.mem_cons, List.not_mem_nil, not_or, or_false, not_false_eq_true,
      List.nodup_nil, and_true]
    omega
  · simp only [pathCost_cons, pathCost_nil, toArc, arcAt_sink hr, arcAt_pair hl hr, arcAt_source hl,
      sinkArc, sourceArc, pairArc, toInt_toInt64 (hbounded l hl r hr)]
    simp

/-- Every vertex can be reached while a row is free. -/
theorem Balanced.reach (hlt : flow < leftCount) (hlt' : flow < rightCount)
    (hbounded : Bounded costs leftCount rightCount) {v : ℕ} (hv : v < leftCount + rightCount + 2) :
    ∃ path, Walk (residualArcs (fullNetwork costs leftCount rightCount) capacity) 0 v path ∧
      Simple 0 path := by
  obtain ⟨l', hl', hfree⟩ := h.exists_free_row hlt
  obtain rfl | ⟨l, hl, rfl⟩ | ⟨r, hr, rfl⟩ | rfl := vertex_cases hv
  · exact ⟨[], Walk.nil, List.nodup_nil, List.not_mem_nil⟩
  · rcases h.unit.zeroOne 0 l (Place.source hl).lt_degree with hused | hrow
    · -- the row is used: back over the pair that it uses
      obtain ⟨r, hr, hcarried⟩ := Finset.exists_ne_zero_of_sum_ne_zero
        (show ∑ r ∈ Finset.range rightCount, carried leftCount capacity l r ≠ 0 by
          rw [h.sum_row hl, hused]
          omega)
      rw [Finset.mem_range] at hr
      have hne : l ≠ l' := by
        rintro rfl
        omega
      have hwalk := (Place.pairReverse hl hr).walk hcarried (h.walk_column hl' hr hfree)
      rw [head_pairReverse hl hr] at hwalk
      refine ⟨_, hwalk, simple_of_nodup ?_⟩
      simp only [List.map_cons, List.map_nil, head_pairReverse hl hr, head_pair hl' hr,
        head_source hl']
      simp only [List.nodup_cons, List.mem_cons, List.not_mem_nil, not_or, or_false,
        not_false_eq_true, List.nodup_nil, and_true]
      omega
    · refine ⟨_, walk_row costs hl hrow, simple_of_nodup ?_⟩
      rw [List.map_singleton, head_source hl, List.nodup_cons]
      simp
      omega
  · refine ⟨_, h.walk_column hl' hr hfree, simple_of_nodup ?_⟩
    simp only [List.map_cons, List.map_nil, head_pair hl' hr, head_source hl']
    simp only [List.nodup_cons, List.mem_cons, List.not_mem_nil, not_or, or_false, not_false_eq_true,
      List.nodup_nil, and_true]
    omega
  · obtain ⟨path, hwalk, hsimple, -⟩ := h.walk_sink hbounded hlt hlt'
    exact ⟨path, hwalk, hsimple⟩

end reach

/-! ### The cost of the residual arcs -/

theorem totalCost_append {V : Type} (first second : List (Arc V)) :
    totalCost (first ++ second) = totalCost first + totalCost second := by
  simp [totalCost]

theorem totalCost_flatMap_range {V : Type} (f : ℕ → List (Arc V)) (n : ℕ) :
    totalCost ((List.range n).flatMap f) = ∑ v ∈ Finset.range n, totalCost (f v) := by
  induction n with
  | zero => rfl
  | succ n ih =>
      rw [List.range_succ, List.flatMap_append, totalCost_append, ih, Finset.sum_range_succ]
      simp

section total

variable {graph : FlowGraph} {capacity : ℕ → ℕ → ℤ}

theorem totalCost_freeArcs (hflow : UnitFlow graph capacity) (v : ℕ) :
    totalCost (freeArcs graph capacity v) =
      ∑ i ∈ Finset.range (degree graph v), capacity v i * |(arcAt graph v i).cost.toInt| := by
  have hprefix : ∀ n ≤ degree graph v,
      totalCost (((List.range n).filter fun i => capacity v i ≠ 0).map (toArc graph v)) =
        ∑ i ∈ Finset.range n, capacity v i * |(arcAt graph v i).cost.toInt| := by
    intro n hn
    induction n with
    | zero => rfl
    | succ n ih =>
        rw [List.range_succ, List.filter_append, List.map_append, totalCost_append, ih (by omega),
          Finset.sum_range_succ]
        rcases hflow.zeroOne v n hn with hzero | hone
        · simp [hzero]
        · simp [hone, toArc]
  exact hprefix (degree graph v) le_rfl

/-- The cost of the matrix. -/
def matrixCost (costs : List (List UInt64)) (leftCount rightCount : ℕ) : ℤ :=
  ∑ l ∈ Finset.range leftCount, ∑ r ∈ Finset.range rightCount, ((costAt costs l r).toNat : ℤ)

/-- Of a pair and its reverse one is free, at the same cost up to the sign. -/
theorem Balanced.totalCost_eq {costs : List (List UInt64)} {leftCount rightCount flow : ℕ}
    (h : Balanced costs leftCount rightCount flow capacity)
    (hbounded : Bounded costs leftCount rightCount) :
    totalCost (residualArcs (fullNetwork costs leftCount rightCount) capacity) =
      matrixCost costs leftCount rightCount := by
  have hsource : totalCost (freeArcs (fullNetwork costs leftCount rightCount) capacity 0) = 0 := by
    rw [totalCost_freeArcs h.unit, degree_source]
    apply Finset.sum_eq_zero
    intro l hl
    simp [arcAt_source (Finset.mem_range.mp hl), sourceArc]
  have hsink : totalCost (freeArcs (fullNetwork costs leftCount rightCount) capacity
      (1 + leftCount + rightCount)) = 0 := by
    rw [totalCost_freeArcs h.unit, degree_sink]
    apply Finset.sum_eq_zero
    intro r hr
    simp [arcAt_sinkReverse (Finset.mem_range.mp hr), sinkReverse]
  have hrow : ∀ l ∈ Finset.range leftCount,
      totalCost (freeArcs (fullNetwork costs leftCount rightCount) capacity (1 + l)) =
        ∑ r ∈ Finset.range rightCount, capacity (1 + l) (1 + r) * (costAt costs l r).toNat := by
    intro l hl
    rw [Finset.mem_range] at hl
    rw [totalCost_freeArcs h.unit, degree_left hl, Finset.sum_range_succ', arcAt_sourceReverse hl]
    simp only [sourceReverse, Int64.toInt_zero, abs_zero, mul_zero, add_zero, Nat.add_comm _ 1]
    apply Finset.sum_congr rfl
    intro r hr
    rw [Finset.mem_range] at hr
    simp [arcAt_pair hl hr, pairArc, toInt_toInt64 (hbounded l hl r hr)]
  have hcolumn : ∀ r ∈ Finset.range rightCount,
      totalCost (freeArcs (fullNetwork costs leftCount rightCount) capacity (1 + leftCount + r)) =
        ∑ l ∈ Finset.range leftCount, carried leftCount capacity l r * (costAt costs l r).toNat := by
    intro r hr
    rw [Finset.mem_range] at hr
    rw [totalCost_freeArcs h.unit, degree_right hr, Finset.sum_range_succ, arcAt_sink hr]
    simp only [sinkArc, Int64.toInt_zero, abs_zero, mul_zero, add_zero]
    apply Finset.sum_congr rfl
    intro l hl
    rw [Finset.mem_range] at hl
    simp [arcAt_pairReverse hl hr, pairReverse, toInt_neg_toInt64 (hbounded l hl r hr), carried]
  rw [residualArcs, totalCost_flatMap_range, length_fullNetwork,
    show leftCount + rightCount + 2 = 1 + leftCount + rightCount + 1 by omega, Finset.sum_range_succ,
    Finset.sum_range_add, Finset.sum_range_add, Finset.sum_range_one, hsource, hsink,
    Finset.sum_congr rfl hrow, Finset.sum_congr rfl hcolumn, Finset.sum_comm (s := Finset.range rightCount),
    zero_add, add_zero, ← Finset.sum_add_distrib, matrixCost]
  apply Finset.sum_congr rfl
  intro l hl
  rw [← Finset.sum_add_distrib]
  apply Finset.sum_congr rfl
  intro r hr
  rw [← add_mul, h.unit.pairSum (Finset.mem_range.mp hl) (Finset.mem_range.mp hr), one_mul]

end total

end Dsa
