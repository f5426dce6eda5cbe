import DsaSolver.Augmentation
import DsaSolver.FlowNetwork
import Mathlib.Algebra.BigOperators.Intervals
import Mathlib.Data.List.GetD

/-! # Flows in the network of a cost matrix

The finished network has its arcs in pairs (`paired_fullNetwork`).  A unit flow is given by the
rows and columns that are used and the pairs that are matched: `Matched` adds up the capacities
at every vertex, and says what follows for rows and columns. -/

namespace Dsa

open Theory

/-- No cost is above `kInfinity`. -/
def Bounded (costs : List (List UInt64)) (leftCount rightCount : ℕ) : Prop :=
  ∀ l < leftCount, ∀ r < rightCount, costAt costs l r ≤ kInfinity.toUInt64

section arcs

variable {costs : List (List UInt64)} {leftCount rightCount : ℕ}

@[simp] theorem length_fullNetwork :
    (fullNetwork costs leftCount rightCount).length = leftCount + rightCount + 2 := by
  simp [fullNetwork, networkOf]

theorem getD_fullNetwork {v : ℕ} (hv : v < leftCount + rightCount + 2) :
    (fullNetwork costs leftCount rightCount).getD v [] =
      networkRow costs leftCount rightCount leftCount (fun _ => rightCount) (fun _ => leftCount)
        rightCount v :=
  getD_map_range _ hv

theorem row_source : (fullNetwork costs leftCount rightCount).getD 0 [] =
    (List.range leftCount).map sourceArc := by
  rw [getD_fullNetwork (by omega), networkRow_zero]

theorem row_left {l : ℕ} (hl : l < leftCount) :
    (fullNetwork costs leftCount rightCount).getD (1 + l) [] =
      sourceReverse l :: (List.range rightCount).map (pairArc costs leftCount l) := by
  rw [getD_fullNetwork (by omega), networkRow_left hl, if_pos hl]
  rfl

theorem row_right {r : ℕ} (hr : r < rightCount) :
    (fullNetwork costs leftCount rightCount).getD (1 + leftCount + r) [] =
      (List.range leftCount).map (pairReverse costs r) ++ [sinkArc leftCount rightCount r] := by
  rw [getD_fullNetwork (by omega), networkRow_right hr, if_pos hr]

theorem row_sink : (fullNetwork costs leftCount rightCount).getD (1 + leftCount + rightCount) [] =
    (List.range rightCount).map (sinkReverse leftCount) := by
  rw [getD_fullNetwork (by omega), networkRow_sink]

@[simp] theorem degree_source : degree (fullNetwork costs leftCount rightCount) 0 = leftCount := by
  rw [degree, row_source, List.length_map, List.length_range]

theorem degree_left {l : ℕ} (hl : l < leftCount) :
    degree (fullNetwork costs leftCount rightCount) (1 + l) = rightCount + 1 := by
  rw [degree, row_left hl, List.length_cons, List.length_map, List.length_range]

theorem degree_right {r : ℕ} (hr : r < rightCount) :
    degree (fullNetwork costs leftCount rightCount) (1 + leftCount + r) = leftCount + 1 := by
  rw [degree, row_right hr, List.length_append, List.length_map, List.length_range,
    List.length_singleton]

@[simp] theorem degree_sink : degree (fullNetwork costs leftCount rightCount)
    (1 + leftCount + rightCount) = rightCount := by
  rw [degree, row_sink, List.length_map, List.length_range]

theorem getD_map_range_arc {n i : ℕ} (f : ℕ → FlowArc) (hi : i < n) :
    ((List.range n).map f).getD i {} = f i := by
  simp [List.getD_eq_getElem?_getD, hi]

theorem arcAt_source {l : ℕ} (hl : l < leftCount) :
    arcAt (fullNetwork costs leftCount rightCount) 0 l = sourceArc l := by
  rw [arcAt, row_source, getD_map_range_arc _ hl]

theorem arcAt_sourceReverse {l : ℕ} (hl : l < leftCount) :
    arcAt (fullNetwork costs leftCount rightCount) (1 + l) 0 = sourceReverse l := by
  rw [arcAt, row_left hl]
  rfl

theorem arcAt_pair {l r : ℕ} (hl : l < leftCount) (hr : r < rightCount) :
    arcAt (fullNetwork costs leftCount rightCount) (1 + l) (1 + r) =
      pairArc costs leftCount l r := by
  rw [arcAt, row_left hl, Nat.add_comm 1 r, List.getD_cons_succ, getD_map_range_arc _ hr]

theorem arcAt_pairReverse {l r : ℕ} (hl : l < leftCount) (hr : r < rightCount) :
    arcAt (fullNetwork costs leftCount rightCount) (1 + leftCount + r) l = pairReverse costs r l := by
  rw [arcAt, row_right hr, List.getD_append _ _ _ _ (by simpa using hl), getD_map_range_arc _ hl]

theorem arcAt_sink {r : ℕ} (hr : r < rightCount) :
    arcAt (fullNetwork costs leftCount rightCount) (1 + leftCount + r) leftCount =
      sinkArc leftCount rightCount r := by
  rw [arcAt, row_right hr, List.getD_append_right _ _ _ _ (by simp)]
  simp

theorem arcAt_sinkReverse {r : ℕ} (hr : r < rightCount) :
    arcAt (fullNetwork costs leftCount rightCount) (1 + leftCount + rightCount) r =
      sinkReverse leftCount r := by
  rw [arcAt, row_sink, getD_map_range_arc _ hr]

/-- The six kinds of arcs: vertex and number. -/
inductive Place (leftCount rightCount : ℕ) : ℕ → ℕ → Prop
  | source {l : ℕ} : l < leftCount → Place leftCount rightCount 0 l
  | sourceReverse {l : ℕ} : l < leftCount → Place leftCount rightCount (1 + l) 0
  | pair {l r : ℕ} : l < leftCount → r < rightCount → Place leftCount rightCount (1 + l) (1 + r)
  | pairReverse {l r : ℕ} : l < leftCount → r < rightCount →
      Place leftCount rightCount (1 + leftCount + r) l
  | sink {r : ℕ} : r < rightCount → Place leftCount rightCount (1 + leftCount + r) leftCount
  | sinkReverse {r : ℕ} : r < rightCount → Place leftCount rightCount (1 + leftCount + rightCount) r

theorem place {v i : ℕ} (hi : i < degree (fullNetwork costs leftCount rightCount) v) :
    Place leftCount rightCount v i := by
  have hv := lt_length_of_lt_degree hi
  rw [length_fullNetwork] at hv
  obtain rfl | ⟨l, hl, rfl⟩ | ⟨r, hr, rfl⟩ | rfl := vertex_cases hv
  · rw [degree_source] at hi
    exact Place.source hi
  · rw [degree_left hl] at hi
    cases i with
    | zero => exact Place.sourceReverse hl
    | succ r =>
        rw [Nat.add_comm r 1]
        exact Place.pair hl (by omega)
  · rw [degree_right hr] at hi
    rcases Nat.lt_or_eq_of_le (Nat.le_of_lt_succ hi) with hl | rfl
    · exact Place.pairReverse hl hr
    · exact Place.sink hr
  · rw [degree_sink] at hi
    exact Place.sinkReverse hi

/-- A cost within the bound is not wrapped. -/
theorem toInt_toInt64 {cost : UInt64} (h : cost ≤ kInfinity.toUInt64) :
    cost.toInt64.toInt = cost.toNat := by
  have hle : cost.toNat ≤ 2305843009213693951 := UInt64.le_iff_toNat_le.mp h
  rw [← Int64.toInt_toBitVec, UInt64.toBitVec_toInt64, BitVec.toInt_eq_toNat_of_lt]
  · rfl
  · rw [UInt64.toNat_toBitVec]
    omega

theorem toInt_neg_toInt64 {cost : UInt64} (h : cost ≤ kInfinity.toUInt64) :
    (-cost.toInt64).toInt = -(cost.toNat : ℤ) := by
  have hle : cost.toNat ≤ 2305843009213693951 := UInt64.le_iff_toNat_le.mp h
  rw [Int64.toInt_neg, toInt_toInt64 h]
  apply Int.bmod_eq_of_le <;> omega

theorem target_fullNetwork {v i : ℕ} (hi : i < degree (fullNetwork costs leftCount rightCount) v) :
    (arcAt (fullNetwork costs leftCount rightCount) v i).target < leftCount + rightCount + 2 ∧
      (arcAt (fullNetwork costs leftCount rightCount) v i).target ≠ v := by
  cases place hi with
  | source hl => simp only [arcAt_source hl, sourceArc]; omega
  | sourceReverse hl => simp only [arcAt_sourceReverse hl, sourceReverse]; omega
  | pair hl hr => simp only [arcAt_pair hl hr, pairArc]; omega
  | pairReverse hl hr => simp only [arcAt_pairReverse hl hr, pairReverse]; omega
  | sink hr => simp only [arcAt_sink hr, sinkArc]; omega
  | sinkReverse hr => simp only [arcAt_sinkReverse hr, sinkReverse]; omega

theorem paired_fullNetwork (hbounded : Bounded costs leftCount rightCount) :
    Paired (fullNetwork costs leftCount rightCount) := by
  constructor
  · intro v i hi
    rw [length_fullNetwork]
    exact (target_fullNetwork hi).1
  · exact fun v i hi => (target_fullNetwork hi).2
  · intro v i hi
    cases place hi with
    | source hl => simp only [arcAt_source hl, sourceArc, degree_left hl]; omega
    | sourceReverse hl => simpa only [arcAt_sourceReverse hl, sourceReverse, degree_source] using hl
    | pair hl hr => simp only [arcAt_pair hl hr, pairArc, degree_right hr]; omega
    | pairReverse hl hr => simp only [arcAt_pairReverse hl hr, pairReverse, degree_left hl]; omega
    | sink hr => simpa only [arcAt_sink hr, sinkArc, degree_sink] using hr
    | sinkReverse hr => simp only [arcAt_sinkReverse hr, sinkReverse, degree_right hr]; omega
  · intro v i hi
    cases place hi with
    | source hl =>
        rw [arcAt_source hl, sourceArc, arcAt_sourceReverse hl]
        exact ⟨rfl, rfl, rfl⟩
    | sourceReverse hl =>
        rw [arcAt_sourceReverse hl, sourceReverse, arcAt_source hl]
        exact ⟨rfl, rfl, rfl⟩
    | pair hl hr =>
        rw [arcAt_pair hl hr, pairArc, arcAt_pairReverse hl hr]
        refine ⟨rfl, rfl, ?_⟩
        simp only [pairReverse]
        rw [toInt_neg_toInt64 (hbounded _ hl _ hr), toInt_toInt64 (hbounded _ hl _ hr)]
    | pairReverse hl hr =>
        rw [arcAt_pairReverse hl hr, pairReverse, arcAt_pair hl hr]
        refine ⟨rfl, rfl, ?_⟩
        simp only [pairArc]
        rw [toInt_neg_toInt64 (hbounded _ hl _ hr), toInt_toInt64 (hbounded _ hl _ hr), neg_neg]
    | sink hr =>
        rw [arcAt_sink hr, sinkArc, arcAt_sinkReverse hr]
        exact ⟨rfl, rfl, rfl⟩
    | sinkReverse hr =>
        rw [arcAt_sinkReverse hr, sinkReverse, arcAt_sink hr]
        exact ⟨rfl, rfl, rfl⟩

theorem Place.lt_degree {v i : ℕ} (h : Place leftCount rightCount v i) :
    i < degree (fullNetwork costs leftCount rightCount) v := by
  cases h with
  | source hl => simpa using hl
  | sourceReverse hl => simp [degree_left hl]
  | pair hl hr => rw [degree_left hl]; omega
  | pairReverse hl hr => rw [degree_right hr]; omega
  | sink hr => simp [degree_right hr]
  | sinkReverse hr => simpa using hr

end arcs

/-! ### Balanced capacities -/

/-- A unit flow of a given amount: what leaves every vertex in the residual network. -/
structure Balanced (costs : List (List UInt64)) (leftCount rightCount flow : ℕ)
    (capacity : ℕ → ℕ → ℤ) : Prop where
  unit : UnitFlow (fullNetwork costs leftCount rightCount) capacity
  source : outCapacity (fullNetwork costs leftCount rightCount) capacity 0 = leftCount - flow
  row : ∀ l < leftCount,
    outCapacity (fullNetwork costs leftCount rightCount) capacity (1 + l) = rightCount
  column : ∀ r < rightCount,
    outCapacity (fullNetwork costs leftCount rightCount) capacity (1 + leftCount + r) = 1
  sink : outCapacity (fullNetwork costs leftCount rightCount) capacity (1 + leftCount + rightCount) =
    flow

/-- The unit that a pair carries: what its reverse arc can give back. -/
def carried (leftCount : ℕ) (capacity : ℕ → ℕ → ℤ) (l r : ℕ) : ℤ := capacity (1 + leftCount + r) l

section flows

variable {costs : List (List UInt64)} {leftCount rightCount flow : ℕ} {capacity : ℕ → ℕ → ℤ}

theorem outCapacity_left {l : ℕ} (hl : l < leftCount) :
    outCapacity (fullNetwork costs leftCount rightCount) capacity (1 + l) =
      ∑ r ∈ Finset.range rightCount, capacity (1 + l) (1 + r) + capacity (1 + l) 0 := by
  rw [outCapacity, degree_left hl, Finset.sum_range_succ']
  simp only [Nat.add_comm 1]

theorem outCapacity_right {r : ℕ} (hr : r < rightCount) :
    outCapacity (fullNetwork costs leftCount rightCount) capacity (1 + leftCount + r) =
      ∑ l ∈ Finset.range leftCount, carried leftCount capacity l r +
        capacity (1 + leftCount + r) leftCount := by
  rw [outCapacity, degree_right hr, Finset.sum_range_succ]
  rfl

section partners

variable (hflow : UnitFlow (fullNetwork costs leftCount rightCount) capacity)

include hflow

theorem UnitFlow.sourceSum {l : ℕ} (hl : l < leftCount) : capacity 0 l + capacity (1 + l) 0 = 1 := by
  have hsum := hflow.partner 0 l (Place.source hl).lt_degree
  rwa [arcAt_source hl] at hsum

theorem UnitFlow.pairSum {l r : ℕ} (hl : l < leftCount) (hr : r < rightCount) :
    capacity (1 + l) (1 + r) + carried leftCount capacity l r = 1 := by
  have hsum := hflow.partner (1 + l) (1 + r) (Place.pair hl hr).lt_degree
  rwa [arcAt_pair hl hr] at hsum

theorem UnitFlow.sinkSum {r : ℕ} (hr : r < rightCount) :
    capacity (1 + leftCount + r) leftCount + capacity (1 + leftCount + rightCount) r = 1 := by
  have hsum := hflow.partner (1 + leftCount + r) leftCount (Place.sink hr).lt_degree
  rwa [arcAt_sink hr] at hsum

theorem UnitFlow.carried_zeroOne {l r : ℕ} (hl : l < leftCount) (hr : r < rightCount) :
    carried leftCount capacity l r = 0 ∨ carried leftCount capacity l r = 1 :=
  hflow.zeroOne _ _ (Place.pairReverse hl hr).lt_degree

end partners

namespace Balanced

/-- The network as it is built carries nothing. -/
theorem initial (costs : List (List UInt64)) (leftCount rightCount : ℕ) :
    Balanced costs leftCount rightCount 0
      fun v i => (arcAt (fullNetwork costs leftCount rightCount) v i).capacity := by
  constructor
  · constructor
    · intro v i hi
      cases place hi with
      | source hl => simp [arcAt_source hl, sourceArc]
      | sourceReverse hl => simp [arcAt_sourceReverse hl, sourceReverse]
      | pair hl hr => simp [arcAt_pair hl hr, pairArc]
      | pairReverse hl hr => simp [arcAt_pairReverse hl hr, pairReverse]
      | sink hr => simp [arcAt_sink hr, sinkArc]
      | sinkReverse hr => simp [arcAt_sinkReverse hr, sinkReverse]
    · intro v i hi
      cases place hi with
      | source hl => simp [arcAt_source hl, sourceArc, arcAt_sourceReverse hl, sourceReverse]
      | sourceReverse hl => simp [arcAt_source hl, sourceArc, arcAt_sourceReverse hl, sourceReverse]
      | pair hl hr => simp [arcAt_pair hl hr, pairArc, arcAt_pairReverse hl hr, pairReverse]
      | pairReverse hl hr => simp [arcAt_pair hl hr, pairArc, arcAt_pairReverse hl hr, pairReverse]
      | sink hr => simp [arcAt_sink hr, sinkArc, arcAt_sinkReverse hr, sinkReverse]
      | sinkReverse hr => simp [arcAt_sink hr, sinkArc, arcAt_sinkReverse hr, sinkReverse]
  · rw [outCapacity, degree_source, Finset.sum_congr rfl fun l hl => by
      rw [arcAt_source (Finset.mem_range.mp hl), sourceArc]]
    simp
  · intro l hl
    rw [outCapacity_left hl, arcAt_sourceReverse hl, Finset.sum_congr rfl fun r hr => by
      rw [arcAt_pair hl (Finset.mem_range.mp hr), pairArc]]
    simp [sourceReverse]
  · intro r hr
    rw [outCapacity_right hr, arcAt_sink hr, Finset.sum_congr rfl fun l hl => by
      rw [carried, arcAt_pairReverse (Finset.mem_range.mp hl) hr, pairReverse]]
    simp [sinkArc]
  · rw [outCapacity, degree_sink, Finset.sum_congr rfl fun r hr => by
      rw [arcAt_sinkReverse (Finset.mem_range.mp hr), sinkReverse]]
    simp

/-- A unit from the source to the sink. -/
theorem augment (h : Balanced costs leftCount rightCount flow capacity) {capacity' : ℕ → ℕ → ℤ}
    (hunit : UnitFlow (fullNetwork costs leftCount rightCount) capacity')
    (hout : ∀ w, outCapacity (fullNetwork costs leftCount rightCount) capacity' w =
      outCapacity (fullNetwork costs leftCount rightCount) capacity w +
        (if w = 1 + leftCount + rightCount then 1 else 0) - if w = 0 then 1 else 0) :
    Balanced costs leftCount rightCount (flow + 1) capacity' := by
  refine ⟨hunit, ?_, fun l hl => ?_, fun r hr => ?_, ?_⟩
  · rw [hout, h.source, if_neg (by omega), if_pos rfl]
    omega
  · rw [hout, h.row l hl, if_neg (by omega), if_neg (by omega)]
    omega
  · rw [hout, h.column r hr, if_neg (by omega), if_neg (by omega)]
    omega
  · rw [hout, h.sink, if_pos rfl, if_neg (by omega)]
    omega

variable (h : Balanced costs leftCount rightCount flow capacity)

include h

/-- A row that is used carries one unit, over one of its pairs. -/
theorem sum_row {l : ℕ} (hl : l < leftCount) :
    ∑ r ∈ Finset.range rightCount, carried leftCount capacity l r = 1 - capacity 0 l := by
  have hout := h.row l hl
  have hsource := h.unit.sourceSum hl
  rw [outCapacity_left hl, Finset.sum_congr rfl fun r hr =>
    eq_sub_of_add_eq (h.unit.pairSum hl (Finset.mem_range.mp hr)), Finset.sum_sub_distrib] at hout
  simp only [Finset.sum_const, Finset.card_range, nsmul_eq_mul, mul_one] at hout
  omega

/-- A column that is used gets one unit, over one of its pairs. -/
theorem sum_column {r : ℕ} (hr : r < rightCount) :
    ∑ l ∈ Finset.range leftCount, carried leftCount capacity l r =
      1 - capacity (1 + leftCount + r) leftCount := by
  have hout := h.column r hr
  rw [outCapacity_right hr] at hout
  omega

theorem sum_source : ∑ l ∈ Finset.range leftCount, capacity 0 l = leftCount - flow := by
  have hout := h.source
  rwa [outCapacity, degree_source] at hout

theorem sum_sink :
    ∑ r ∈ Finset.range rightCount, capacity (1 + leftCount + rightCount) r = flow := by
  have hout := h.sink
  rwa [outCapacity, degree_sink] at hout

theorem exists_free_row (hlt : flow < leftCount) : ∃ l < leftCount, capacity 0 l = 1 := by
  obtain ⟨l, hl, hne⟩ := Finset.exists_ne_zero_of_sum_ne_zero
    (show ∑ l ∈ Finset.range leftCount, capacity 0 l ≠ 0 by rw [h.sum_source]; omega)
  rw [Finset.mem_range] at hl
  exact ⟨l, hl, (h.unit.zeroOne 0 l (Place.source hl).lt_degree).resolve_left hne⟩

theorem exists_free_column (hlt : flow < rightCount) :
    ∃ r < rightCount, capacity (1 + leftCount + r) leftCount = 1 := by
  by_contra hnone
  have hfull : ∀ r ∈ Finset.range rightCount, capacity (1 + leftCount + rightCount) r = 1 := by
    intro r hr
    rw [Finset.mem_range] at hr
    have hsum := h.unit.sinkSum hr
    have hzeroOne := h.unit.zeroOne _ _ (Place.sink hr).lt_degree
    have hne : capacity (1 + leftCount + r) leftCount ≠ 1 := fun hfree => hnone ⟨r, hr, hfree⟩
    omega
  have hsum := h.sum_sink
  rw [Finset.sum_congr rfl hfull] at hsum
  simp at hsum
  omega

/-- The pairs of a free row carry nothing. -/
theorem carried_free_row {l r : ℕ} (hl : l < leftCount) (hr : r < rightCount)
    (hfree : capacity 0 l = 1) : carried leftCount capacity l r = 0 := by
  have hsum := h.sum_row hl
  rw [hfree, sub_self] at hsum
  refine (Finset.sum_eq_zero_iff_of_nonneg fun r hr => ?_).mp hsum r (Finset.mem_range.mpr hr)
  have hzeroOne := h.unit.carried_zeroOne hl (Finset.mem_range.mp hr)
  omega

end Balanced

end flows

end Dsa
