import DsaSolver.ResidualFlow

/-! # The passes of `shortestPaths`

On the labels as integers (`view`) a pass is `relaxAll` over the residual arcs, as long as the
costs add up to at most `kInfinity`: the 64-bit sums of a label and a cost do not wrap then.  A
pass that changes nothing is a fixed point, so stopping early does not matter
(`shortestPaths_spec`). -/

namespace Dsa

open Theory

/-- The labels as the relaxation of residual arcs has them. -/
def PathLabels.view (graph : FlowGraph) (labels : PathLabels) : Labels ℕ where
  distance v := (labels.distance.getD v kInfinity).toInt
  previous v := (labels.previous.getD v none).map fun entry => toArc graph entry.1 entry.2

/-- Both vectors have an entry for every vertex. -/
structure PathLabels.Sized (size : ℕ) (labels : PathLabels) : Prop where
  distance : labels.distance.length = size
  previous : labels.previous.length = size

theorem view_distance_eq_iff {graph : FlowGraph} {labels : PathLabels} {v : ℕ} :
    (labels.view graph).distance v = kInfinity.toInt ↔ labels.distance.getD v kInfinity = kInfinity :=
  Int64.toInt_inj

/-- Half of the range of the words is left for a sum. -/
theorem toInt_add_of_le {a b : Int64} (ha : -kInfinity.toInt ≤ a.toInt) (ha' : a.toInt ≤ kInfinity.toInt)
    (hb : |b.toInt| ≤ kInfinity.toInt) : (a + b).toInt = a.toInt + b.toInt := by
  have hbound : kInfinity.toInt = 2305843009213693951 := by decide
  rw [hbound] at ha ha' hb
  obtain ⟨hb1, hb2⟩ := abs_le.mp hb
  rw [Int64.toInt_add]
  apply Int.bmod_eq_of_le <;> omega

theorem view_set {graph : FlowGraph} {labels : PathLabels} (hsized : labels.Sized graph.length)
    {v i : ℕ} (htarget : (arcAt graph v i).target < graph.length) (value : Int64) :
    PathLabels.view graph
        { distance := labels.distance.set (arcAt graph v i).target value
          previous := labels.previous.set (arcAt graph v i).target (some (v, i)) } =
      (labels.view graph).set (toArc graph v i) value.toInt := by
  have hdistance := hsized.distance
  have hprevious := hsized.previous
  unfold PathLabels.view Labels.set
  congr 1
  · funext w
    dsimp only
    by_cases hw : w = (arcAt graph v i).target
    · subst hw
      rw [show (arcAt graph v i).target = (toArc graph v i).head from rfl, Function.update_self]
      simp [toArc, hdistance, htarget]
    · rw [Function.update_of_ne (show w ≠ (toArc graph v i).head from hw)]
      simp [List.getElem?_set_ne (Ne.symm hw)]
  · funext w
    dsimp only
    by_cases hw : w = (arcAt graph v i).target
    · subst hw
      rw [show (arcAt graph v i).target = (toArc graph v i).head from rfl, Function.update_self]
      simp [toArc, hprevious, htarget]
    · rw [Function.update_of_ne (show w ≠ (toArc graph v i).head from hw)]
      simp [List.getElem?_set_ne (Ne.symm hw)]

section passes

variable {graph : FlowGraph} {capacity : ℕ → ℕ → ℤ} {potential : ℕ → ℤ}

/-- The entry of an arc in the loop over the arcs of a vertex. -/
def entryAt (graph : FlowGraph) (capacity : ℕ → ℕ → ℤ) (v i : ℕ) : FlowArc × ℕ :=
  ({ arcAt graph v i with capacity := capacity v i }, i)

/-- One arc of the innermost loop. -/
theorem relaxArc_view (hpaired : Paired graph)
    (htotal : totalCost (residualArcs graph capacity) ≤ kInfinity.toInt)
    {labels : PathLabels} (hsized : labels.Sized graph.length)
    (hsound : Sound kInfinity.toInt (residualArcs graph capacity) 0 (labels.view graph)) {v i : ℕ}
    (hi : i < degree graph v) (hfree : capacity v i ≠ 0)
    (hreached : (labels.view graph).distance v ≠ kInfinity.toInt) (flag : Bool) :
    (relaxArc v (labels, flag) (entryAt graph capacity v i)).1.view graph =
        relax kInfinity.toInt (labels.view graph) (toArc graph v i) ∧
      (relaxArc v (labels, flag) (entryAt graph capacity v i)).1.Sized graph.length := by
  have hsum : (labels.distance.getD v kInfinity + (arcAt graph v i).cost).toInt =
      (labels.view graph).distance v + (toArc graph v i).cost :=
    toInt_add_of_le (hsound.neg_bound_le htotal v) (hsound.distance_le v)
      ((abs_cost_le (toArc_mem hi hfree)).trans htotal)
  have hlower : labels.distance.getD v kInfinity + (arcAt graph v i).cost <
      labels.distance.getD (arcAt graph v i).target kInfinity ↔
      (labels.view graph).distance v + (toArc graph v i).cost <
        (labels.view graph).distance (toArc graph v i).head := by
    rw [← hsum]
    exact Int64.lt_iff_toInt_lt
  unfold relaxArc entryAt relax
  dsimp only
  rw [if_neg hfree]
  by_cases h : labels.distance.getD v kInfinity + (arcAt graph v i).cost <
      labels.distance.getD (arcAt graph v i).target kInfinity
  · rw [if_pos h, if_pos ⟨hreached, hlower.mp h⟩]
    constructor
    · rw [view_set hsized (hpaired.target_lt v i hi), hsum]
      rfl
    · exact ⟨by simpa using hsized.distance, by simpa using hsized.previous⟩
  · rw [if_neg h, if_neg fun hboth => h (hlower.mpr hboth.2)]
    exact ⟨rfl, hsized⟩

/-- The loop over the arcs of a reached vertex. -/
theorem foldl_relaxArc_view (hpaired : Paired graph)
    (hfeasible : Feasible (residualArcs graph capacity) potential)
    (htotal : totalCost (residualArcs graph capacity) ≤ kInfinity.toInt) {v : ℕ} {indices : List ℕ}
    (hindices : ∀ i ∈ indices, i < degree graph v) {labels : PathLabels}
    (hsized : labels.Sized graph.length)
    (hsound : Sound kInfinity.toInt (residualArcs graph capacity) 0 (labels.view graph))
    (hreached : (labels.view graph).distance v ≠ kInfinity.toInt) (flag : Bool) :
    ((indices.map (entryAt graph capacity v)).foldl (relaxArc v) (labels, flag)).1.view graph =
        relaxAll kInfinity.toInt ((indices.filter fun i => capacity v i ≠ 0).map (toArc graph v))
          (labels.view graph) ∧
      ((indices.map (entryAt graph capacity v)).foldl (relaxArc v) (labels, flag)).1.Sized
        graph.length := by
  induction indices generalizing labels flag with
  | nil => exact ⟨rfl, hsized⟩
  | cons i indices ih =>
      rw [List.forall_mem_cons] at hindices
      obtain ⟨hi, hindices⟩ := hindices
      rw [List.map_cons, List.foldl_cons]
      by_cases hfree : capacity v i = 0
      · have hskip : relaxArc v (labels, flag) (entryAt graph capacity v i) = (labels, flag) :=
          if_pos hfree
        rw [hskip, List.filter_cons_of_neg (by simpa using hfree)]
        exact ih hindices hsized hsound hreached flag
      · obtain ⟨hview, hnext⟩ :=
          relaxArc_view hpaired htotal hsized hsound hi hfree hreached flag
        rw [List.filter_cons_of_pos (by simpa using hfree), List.map_cons, relaxAll, List.foldl_cons,
          ← hview]
        refine ih hindices hnext ?_ ?_ _
        · rw [hview]
          exact hsound.relax hfeasible (toArc_mem hi hfree)
        · -- the arc leads to another vertex
          have hne : v ≠ (toArc graph v i).head := Ne.symm (hpaired.target_ne v i hi)
          rw [hview]
          unfold relax
          split
          · rwa [Labels.distance_set_of_ne hne]
          · exact hreached

theorem relaxVertex_view (hpaired : Paired graph)
    (hfeasible : Feasible (residualArcs graph capacity) potential)
    (htotal : totalCost (residualArcs graph capacity) ≤ kInfinity.toInt) (v : ℕ)
    {labels : PathLabels} (hsized : labels.Sized graph.length)
    (hsound : Sound kInfinity.toInt (residualArcs graph capacity) 0 (labels.view graph))
    (flag : Bool) :
    (relaxVertex (withCapacity graph capacity) (labels, flag) v).1.view graph =
        relaxAll kInfinity.toInt (freeArcs graph capacity v) (labels.view graph) ∧
      (relaxVertex (withCapacity graph capacity) (labels, flag) v).1.Sized graph.length := by
  unfold relaxVertex
  dsimp only
  split
  · rename_i hunreached
    have hskip : Relaxed kInfinity.toInt (freeArcs graph capacity v) (labels.view graph) := by
      intro arc harc hreached
      obtain ⟨i, -, rfl⟩ := List.mem_map.mp harc
      exact absurd (view_distance_eq_iff.mpr hunreached) hreached
    rw [hskip.relaxAll_eq]
    exact ⟨rfl, hsized⟩
  · rename_i hreached
    rw [zipIdx_withCapacity]
    exact foldl_relaxArc_view hpaired hfeasible htotal (fun i hi => List.mem_range.mp hi) hsized hsound
      (fun h => hreached (view_distance_eq_iff.mp h)) flag

theorem freeArcs_subset {v : ℕ} : freeArcs graph capacity v ⊆ residualArcs graph capacity := by
  intro arc harc
  obtain ⟨i, hi, rfl⟩ := List.mem_map.mp harc
  rw [List.mem_filter, List.mem_range, decide_eq_true_eq] at hi
  exact toArc_mem hi.1 hi.2

theorem foldl_relaxVertex_view (hpaired : Paired graph)
    (hfeasible : Feasible (residualArcs graph capacity) potential)
    (htotal : totalCost (residualArcs graph capacity) ≤ kInfinity.toInt) (vertices : List ℕ)
    {labels : PathLabels} (hsized : labels.Sized graph.length)
    (hsound : Sound kInfinity.toInt (residualArcs graph capacity) 0 (labels.view graph))
    (flag : Bool) :
    (vertices.foldl (relaxVertex (withCapacity graph capacity)) (labels, flag)).1.view graph =
        relaxAll kInfinity.toInt (vertices.flatMap (freeArcs graph capacity)) (labels.view graph) ∧
      (vertices.foldl (relaxVertex (withCapacity graph capacity)) (labels, flag)).1.Sized
        graph.length := by
  induction vertices generalizing labels flag with
  | nil => exact ⟨rfl, hsized⟩
  | cons v vertices ih =>
      obtain ⟨hview, hnext⟩ := relaxVertex_view hpaired hfeasible htotal v hsized hsound flag
      rw [List.foldl_cons, List.flatMap_cons, relaxAll, List.foldl_append]
      have hsound' := hsound.relaxAll hfeasible (freeArcs_subset (v := v))
      rw [← hview] at hsound'
      have hrest := ih hnext hsound' (relaxVertex (withCapacity graph capacity) (labels, flag) v).2
      rw [hview] at hrest
      exact hrest

theorem relaxPass_view (hpaired : Paired graph)
    (hfeasible : Feasible (residualArcs graph capacity) potential)
    (htotal : totalCost (residualArcs graph capacity) ≤ kInfinity.toInt)
    {labels : PathLabels} (hsized : labels.Sized graph.length)
    (hsound : Sound kInfinity.toInt (residualArcs graph capacity) 0 (labels.view graph)) :
    (relaxPass (withCapacity graph capacity) labels).1.view graph =
        relaxAll kInfinity.toInt (residualArcs graph capacity) (labels.view graph) ∧
      (relaxPass (withCapacity graph capacity) labels).1.Sized graph.length := by
  unfold relaxPass
  rw [length_withCapacity]
  exact foldl_relaxVertex_view hpaired hfeasible htotal _ hsized hsound false

/-- Steps that change the state set the flag. -/
theorem foldl_eq_of_flag {σ α : Type} {f : σ × Bool → α → σ × Bool}
    (hf : ∀ s a, f s a = s ∨ (f s a).2 = true) (l : List α) (s : σ × Bool) : l.foldl f s = s ∨ (l.foldl f s).2 = true := by
  induction l generalizing s with
  | nil => exact .inl rfl
  | cons a l ih =>
      rw [List.foldl_cons]
      rcases hf s a with h | h
      · rw [h]
        exact ih s
      · rcases ih (f s a) with h' | h'
        · rw [h']
          exact .inr h
        · exact .inr h'

theorem relaxArc_flag (start : ℕ) (state : PathLabels × Bool) (entry : FlowArc × ℕ) :
    relaxArc start state entry = state ∨ (relaxArc start state entry).2 = true := by
  unfold relaxArc
  dsimp only
  split_ifs <;> simp

theorem relaxVertex_flag (graph : FlowGraph) (state : PathLabels × Bool) (start : ℕ) :
    relaxVertex graph state start = state ∨ (relaxVertex graph state start).2 = true := by
  unfold relaxVertex
  split
  · exact .inl rfl
  · exact foldl_eq_of_flag (relaxArc_flag start) _ state

/-- A pass that reports no change has made none. -/
theorem relaxPass_eq_of_unchanged {graph : FlowGraph} {labels : PathLabels}
    (h : (relaxPass graph labels).2 = false) : (relaxPass graph labels).1 = labels := by
  rcases foldl_eq_of_flag (relaxVertex_flag graph) (List.range graph.length) (labels, false) with
    heq | hflag
  · exact congrArg Prod.fst heq
  · rw [relaxPass, hflag] at h
    cases h

/-- The passes with their early end are the iterated relaxation. -/
theorem shortestPaths_spec (hpaired : Paired graph)
    (hfeasible : Feasible (residualArcs graph capacity) potential)
    (htotal : totalCost (residualArcs graph capacity) ≤ kInfinity.toInt) (iterations : ℕ)
    {labels : PathLabels} (hsized : labels.Sized graph.length)
    (hsound : Sound kInfinity.toInt (residualArcs graph capacity) 0 (labels.view graph)) :
    (shortestPaths (withCapacity graph capacity) iterations labels).view graph =
      (relaxAll kInfinity.toInt (residualArcs graph capacity))^[iterations] (labels.view graph) := by
  induction iterations generalizing labels with
  | zero => rfl
  | succ iterations ih =>
      obtain ⟨hview, hnext⟩ := relaxPass_view hpaired hfeasible htotal hsized hsound
      unfold shortestPaths
      dsimp only
      split
      · rw [Function.iterate_succ_apply, ← hview]
        apply ih hnext
        rw [hview]
        exact hsound.relaxAll hfeasible (List.Subset.refl _)
      · rename_i hunchanged
        rw [relaxPass_eq_of_unchanged (Bool.eq_false_iff.mpr hunchanged)] at hview ⊢
        exact (Function.iterate_fixed hview.symm _).symm

theorem sized_initialPathLabels (size : ℕ) : (initialPathLabels size).Sized size := by
  constructor <;> simp [initialPathLabels]

theorem view_initialPathLabels (graph : FlowGraph) {size : ℕ} (hsize : 0 < size) :
    (initialPathLabels size).view graph = initialLabels kInfinity.toInt 0 := by
  unfold PathLabels.view initialLabels initialPathLabels
  congr 1
  · funext v
    dsimp only
    by_cases hv : v = 0
    · subst hv
      simp [hsize]
    · rw [if_neg hv, List.getD_eq_getElem?_getD, List.getElem?_set_ne (Ne.symm hv),
        List.getElem?_replicate]
      split <;> rfl
  · funext v
    dsimp only
    rw [List.getD_eq_getElem?_getD, List.getElem?_replicate]
    split <;> rfl

end passes

end Dsa
