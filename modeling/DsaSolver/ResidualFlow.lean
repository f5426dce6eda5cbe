import DsaSolver.CardinalityMatching
import DsaSolver.Theory.BellmanFord
import Mathlib.Algebra.BigOperators.Group.Finset.Basic

/-! # Residual networks

A graph of flow arcs in which every arc has its reverse (`Paired`), under capacities that change
while everything else stays (`withCapacity`).  The passes of `shortestPaths` are the relaxation
of the residual arcs (`shortestPaths_spec`); their 64-bit sums do not wrap.  A walk along the
predecessors pushes one unit along a simple path of tight arcs (`push_path`): arcs keep capacity
0 or 1, only the ends change their capacity out, and the distances stay a potential. -/

namespace Dsa

open Theory

/-! ### Graphs and capacities -/

def arcAt (graph : FlowGraph) (v i : ℕ) : FlowArc := (graph.getD v []).getD i {}

def degree (graph : FlowGraph) (v : ℕ) : ℕ := (graph.getD v []).length

/-- Every arc leads to another vertex, where it has its reverse. -/
structure Paired (graph : FlowGraph) : Prop where
  target_lt : ∀ v i, i < degree graph v → (arcAt graph v i).target < graph.length
  target_ne : ∀ v i, i < degree graph v → (arcAt graph v i).target ≠ v
  reverse_lt : ∀ v i, i < degree graph v →
    (arcAt graph v i).reverse < degree graph (arcAt graph v i).target
  reverse : ∀ v i, i < degree graph v →
    (arcAt graph (arcAt graph v i).target (arcAt graph v i).reverse).target = v ∧
      (arcAt graph (arcAt graph v i).target (arcAt graph v i).reverse).reverse = i ∧
      (arcAt graph (arcAt graph v i).target (arcAt graph v i).reverse).cost.toInt =
        -(arcAt graph v i).cost.toInt

/-- The graph with other capacities. -/
def withCapacity (graph : FlowGraph) (capacity : ℕ → ℕ → ℤ) : FlowGraph :=
  graph.mapIdx fun v arcs => arcs.mapIdx fun i arc => { arc with capacity := capacity v i }

@[simp] theorem length_withCapacity (graph : FlowGraph) (capacity : ℕ → ℕ → ℤ) :
    (withCapacity graph capacity).length = graph.length := List.length_mapIdx

theorem getD_withCapacity (graph : FlowGraph) (capacity : ℕ → ℕ → ℤ) (v : ℕ) :
    (withCapacity graph capacity).getD v [] =
      (graph.getD v []).mapIdx fun i arc => { arc with capacity := capacity v i } := by
  rw [withCapacity, List.getD_eq_getElem?_getD, List.getD_eq_getElem?_getD, List.getElem?_mapIdx]
  cases graph[v]? <;> rfl

@[simp] theorem degree_withCapacity (graph : FlowGraph) (capacity : ℕ → ℕ → ℤ) (v : ℕ) :
    degree (withCapacity graph capacity) v = degree graph v := by
  rw [degree, getD_withCapacity, List.length_mapIdx, degree]

theorem lt_length_of_lt_degree {graph : FlowGraph} {v i : ℕ} (h : i < degree graph v) :
    v < graph.length := by
  by_contra hv
  rw [degree, List.getD_eq_getElem?_getD, List.getElem?_eq_none (not_lt.mp hv)] at h
  exact absurd h (Nat.not_lt_zero i)

theorem arcAt_eq {graph : FlowGraph} {v i : ℕ} (hi : i < (graph.getD v []).length) :
    arcAt graph v i = (graph.getD v [])[i] := by
  rw [arcAt, List.getD_eq_getElem?_getD, List.getElem?_eq_getElem hi]
  rfl

theorem zipIdx_withCapacity (graph : FlowGraph) (capacity : ℕ → ℕ → ℤ) (v : ℕ) :
    ((withCapacity graph capacity).getD v []).zipIdx =
      (List.range (degree graph v)).map fun i =>
        ({ arcAt graph v i with capacity := capacity v i }, i) := by
  rw [getD_withCapacity]
  apply List.ext_getElem (by simp [degree])
  intro i hi _
  rw [List.length_zipIdx, List.length_mapIdx] at hi
  rw [List.getElem_map, List.getElem_range, List.getElem_zipIdx, List.getElem_mapIdx, arcAt_eq hi,
    Nat.zero_add]

/-! ### One unit along an arc -/

/-- The capacities after one unit is sent along the arc number `i` of `v`. -/
def pushCapacity (graph : FlowGraph) (capacity : ℕ → ℕ → ℤ) (v i : ℕ) : ℕ → ℕ → ℤ := fun w j =>
  if w = v ∧ j = i then capacity w j - 1
  else if w = (arcAt graph v i).target ∧ j = (arcAt graph v i).reverse then capacity w j + 1
  else capacity w j

theorem modify_mapIdx {α β : Type} (l : List α) (f : ℕ → α → β) (v : ℕ) (g : β → β) :
    (l.mapIdx f).modify v g = l.mapIdx fun w a => if w = v then g (f w a) else f w a := by
  apply List.ext_getElem (by simp)
  intro i hi _
  simp [List.getElem_modify, eq_comm]

theorem pushArc_withCapacity {graph : FlowGraph} (hpaired : Paired graph)
    (capacity : ℕ → ℕ → ℤ) {v i : ℕ} (hi : i < degree graph v) :
    pushArc (withCapacity graph capacity) v i (arcAt graph v i).target =
      withCapacity graph (pushCapacity graph capacity v i) := by
  have hne := hpaired.target_ne v i hi
  have hreverse : (((withCapacity graph capacity).getD v []).getD i {}).reverse =
      (arcAt graph v i).reverse := by
    rw [getD_withCapacity, arcAt_eq hi]
    unfold degree at hi
    generalize graph.getD v [] = arcs at hi ⊢
    simp [hi]
  rw [pushArc, hreverse]
  unfold withCapacity
  rw [modify_mapIdx, modify_mapIdx]
  apply List.mapIdx_eq_mapIdx_iff.mpr
  intro w hw
  by_cases hv : w = v
  · subst hv
    rw [if_neg (Ne.symm hne), if_pos rfl, modify_mapIdx]
    apply List.mapIdx_eq_mapIdx_iff.mpr
    intro j hj
    by_cases hj' : j = i
    · simp [pushCapacity, hj']
    · simp [pushCapacity, hj', Ne.symm hne]
  · by_cases htarget : w = (arcAt graph v i).target
    · rw [if_pos htarget, if_neg hv, modify_mapIdx]
      apply List.mapIdx_eq_mapIdx_iff.mpr
      intro j hj
      by_cases hj' : j = (arcAt graph v i).reverse
      · simp [pushCapacity, hj', htarget, hne]
      · simp [pushCapacity, hv, hj']
    · rw [if_neg htarget, if_neg hv]
      apply List.mapIdx_eq_mapIdx_iff.mpr
      intro j hj
      simp [pushCapacity, hv, htarget]

/-- Capacities of a flow of units: an arc or its reverse is free, not both. -/
structure UnitFlow (graph : FlowGraph) (capacity : ℕ → ℕ → ℤ) : Prop where
  zeroOne : ∀ v i, i < degree graph v → capacity v i = 0 ∨ capacity v i = 1
  partner : ∀ v i, i < degree graph v →
    capacity v i + capacity (arcAt graph v i).target (arcAt graph v i).reverse = 1

/-- The capacity of the arcs that leave a vertex. -/
def outCapacity (graph : FlowGraph) (capacity : ℕ → ℕ → ℤ) (v : ℕ) : ℤ :=
  ∑ i ∈ Finset.range (degree graph v), capacity v i

section push

variable {graph : FlowGraph} {capacity : ℕ → ℕ → ℤ} (hpaired : Paired graph) {v i : ℕ}
  (hi : i < degree graph v)

include hpaired hi

theorem pushCapacity_target :
    pushCapacity graph capacity v i (arcAt graph v i).target (arcAt graph v i).reverse =
      capacity (arcAt graph v i).target (arcAt graph v i).reverse + 1 := by
  rw [pushCapacity, if_neg fun h => hpaired.target_ne v i hi h.1, if_pos ⟨rfl, rfl⟩]

theorem outCapacity_push (w : ℕ) :
    outCapacity graph (pushCapacity graph capacity v i) w =
      outCapacity graph capacity w - (if w = v then 1 else 0) +
        if w = (arcAt graph v i).target then 1 else 0 := by
  have hne := hpaired.target_ne v i hi
  have hterm : ∀ j ∈ Finset.range (degree graph w), pushCapacity graph capacity v i w j =
      capacity w j - (if j = i then if w = v then 1 else 0 else 0) +
        if j = (arcAt graph v i).reverse then if w = (arcAt graph v i).target then 1 else 0 else 0 := by
    intro j _
    unfold pushCapacity
    by_cases hv : w = v
    · subst hv
      by_cases hj : j = i <;> simp [hj, Ne.symm hne]
    · by_cases htarget : w = (arcAt graph v i).target
      · by_cases hj : j = (arcAt graph v i).reverse <;> simp [hj, htarget, hne]
      · simp [hv, htarget]
  rw [outCapacity, Finset.sum_congr rfl hterm, Finset.sum_add_distrib, Finset.sum_sub_distrib,
    Finset.sum_ite_eq', Finset.sum_ite_eq', ← outCapacity]
  have hreverse := hpaired.reverse_lt v i hi
  by_cases hv : w = v
  · subst hv
    simp [hi, Ne.symm hne]
  · by_cases htarget : w = (arcAt graph v i).target
    · subst htarget
      simp [hreverse, hne]
    · simp [hv, htarget]

/-- Sending a unit along a free arc exchanges it with its reverse. -/
theorem UnitFlow.push (hflow : UnitFlow graph capacity) (hfree : capacity v i ≠ 0) :
    UnitFlow graph (pushCapacity graph capacity v i) := by
  have hone : capacity v i = 1 := (hflow.zeroOne v i hi).resolve_left hfree
  have hzero : capacity (arcAt graph v i).target (arcAt graph v i).reverse = 0 := by
    have hsum := hflow.partner v i hi
    omega
  have hne := hpaired.target_ne v i hi
  obtain ⟨htarget, hreverse, -⟩ := hpaired.reverse v i hi
  constructor
  · intro w j hj
    unfold pushCapacity
    split_ifs with h h'
    · rw [h.1, h.2, hone]
      exact .inl rfl
    · rw [h'.1, h'.2, hzero]
      exact .inr rfl
    · exact hflow.zeroOne w j hj
  · intro w j hj
    have hsum := hflow.partner w j hj
    have hback := hpaired.reverse w j hj
    by_cases hfirst : w = v ∧ j = i
    · obtain ⟨rfl, rfl⟩ := hfirst
      rw [pushCapacity_target hpaired hj, pushCapacity, if_pos ⟨rfl, rfl⟩]
      omega
    · by_cases hsecond : w = (arcAt graph v i).target ∧ j = (arcAt graph v i).reverse
      · obtain ⟨rfl, rfl⟩ := hsecond
        rw [pushCapacity_target hpaired hi, htarget, hreverse, pushCapacity, if_pos ⟨rfl, rfl⟩]
        omega
      · -- another arc, and so another reverse
        have hthird : ¬((arcAt graph w j).target = v ∧ (arcAt graph w j).reverse = i) := by
          rintro ⟨h1, h2⟩
          rw [h1, h2] at hback
          exact hsecond ⟨hback.1.symm, hback.2.1.symm⟩
        have hfourth : ¬((arcAt graph w j).target = (arcAt graph v i).target ∧
            (arcAt graph w j).reverse = (arcAt graph v i).reverse) := by
          rintro ⟨h1, h2⟩
          rw [h1, h2, htarget, hreverse] at hback
          exact hfirst ⟨hback.1.symm, hback.2.1.symm⟩
        unfold pushCapacity
        rw [if_neg hfirst, if_neg hsecond, if_neg hthird, if_neg hfourth]
        exact hsum

end push

/-! ### Residual arcs -/

/-- The arc number `i` of `v`, for the relaxation. -/
def toArc (graph : FlowGraph) (v i : ℕ) : Arc ℕ where
  tail := v
  index := i
  head := (arcAt graph v i).target
  cost := (arcAt graph v i).cost.toInt

def freeArcs (graph : FlowGraph) (capacity : ℕ → ℕ → ℤ) (v : ℕ) : List (Arc ℕ) :=
  ((List.range (degree graph v)).filter fun i => capacity v i ≠ 0).map (toArc graph v)

def residualArcs (graph : FlowGraph) (capacity : ℕ → ℕ → ℤ) : List (Arc ℕ) :=
  (List.range graph.length).flatMap (freeArcs graph capacity)

theorem mem_residualArcs {graph : FlowGraph} {capacity : ℕ → ℕ → ℤ} {arc : Arc ℕ} :
    arc ∈ residualArcs graph capacity ↔
      ∃ v i, i < degree graph v ∧ capacity v i ≠ 0 ∧ toArc graph v i = arc := by
  simp only [residualArcs, freeArcs, List.mem_flatMap, List.mem_range, List.mem_map,
    List.mem_filter, decide_eq_true_eq]
  constructor
  · rintro ⟨v, -, i, ⟨hi, hfree⟩, rfl⟩
    exact ⟨v, i, hi, hfree, rfl⟩
  · rintro ⟨v, i, hi, hfree, rfl⟩
    exact ⟨v, lt_length_of_lt_degree hi, i, ⟨hi, hfree⟩, rfl⟩

theorem toArc_mem {graph : FlowGraph} {capacity : ℕ → ℕ → ℤ} {v i : ℕ} (hi : i < degree graph v)
    (hfree : capacity v i ≠ 0) : toArc graph v i ∈ residualArcs graph capacity :=
  mem_residualArcs.mpr ⟨v, i, hi, hfree, rfl⟩

/-- After a unit is sent along a tight free arc the distances are a potential again. -/
theorem feasible_push {graph : FlowGraph} {capacity : ℕ → ℕ → ℤ} (hpaired : Paired graph)
    {v i : ℕ} (hi : i < degree graph v) (hfree : capacity v i ≠ 0) {potential : ℕ → ℤ}
    (hfeasible : Feasible (residualArcs graph capacity) potential)
    (htight : potential (arcAt graph v i).target = potential v + (arcAt graph v i).cost.toInt) :
    Feasible (residualArcs graph (pushCapacity graph capacity v i)) potential := by
  intro arc harc
  obtain ⟨w, j, hj, hfree', rfl⟩ := mem_residualArcs.mp harc
  by_cases hreverse : w = (arcAt graph v i).target ∧ j = (arcAt graph v i).reverse
  · obtain ⟨rfl, rfl⟩ := hreverse
    obtain ⟨htarget, -, hcost⟩ := hpaired.reverse v i hi
    have hle : potential
        (arcAt graph (arcAt graph v i).target (arcAt graph v i).reverse).target ≤
        potential (arcAt graph v i).target +
          (arcAt graph (arcAt graph v i).target (arcAt graph v i).reverse).cost.toInt := by
      rw [htarget, hcost]
      omega
    exact hle
  · apply hfeasible
    apply toArc_mem hj
    by_cases hsame : w = v ∧ j = i
    · rw [hsame.1, hsame.2]
      exact hfree
    · unfold pushCapacity at hfree'
      rwa [if_neg hsame, if_neg hreverse] at hfree'

end Dsa
