import DsaSolver.ShortestPaths

/-! # Augmentations

One round of `augmentOnce` on a graph with unit flow.  The walk along the predecessors ends
within its fuel at the source, since they form a tree (`augment_trace`), and sends one unit along
a simple path of tight arcs (`push_path`); the labels are a potential of the new residual arcs. -/

namespace Dsa

open Theory

/-- One unit along every arc of a path. -/
def pushPath (graph : FlowGraph) (capacity : ℕ → ℕ → ℤ) (path : List (Arc ℕ)) : ℕ → ℕ → ℤ :=
  path.foldl (fun capacity arc => pushCapacity graph capacity arc.tail arc.index) capacity

section round

variable {graph : FlowGraph} {capacity : ℕ → ℕ → ℤ} {potential : ℕ → ℤ} (hpaired : Paired graph)

include hpaired

/-- The walk back to the source follows the trace. -/
theorem augment_trace {labels : PathLabels}
    (hsound : Sound kInfinity.toInt (residualArcs graph capacity) 0 (labels.view graph)) {v : ℕ}
    {path : List (Arc ℕ)} (htrace : Trace (labels.view graph) 0 v path) {fuel : ℕ}
    (hfuel : path.length ≤ fuel) (current : ℕ → ℕ → ℤ) :
    augment labels.previous fuel (withCapacity graph current) v =
      .ok (some (withCapacity graph (pushPath graph current path))) := by
  induction htrace generalizing fuel current with
  | nil =>
      unfold augment
      rw [if_pos rfl]
      rfl
  | @cons v arc path hprevious _ ih =>
      have hv : v ≠ 0 := by
        rintro rfl
        rw [hsound.previous_source] at hprevious
        cases hprevious
      obtain ⟨harc, hhead, -⟩ := hsound.previous_some v arc hprevious
      obtain ⟨⟨start, index⟩, hentry, rfl⟩ := Option.map_eq_some_iff.mp hprevious
      obtain ⟨w, i, hi, -, heq⟩ := mem_residualArcs.mp harc
      obtain ⟨rfl, rfl⟩ : w = start ∧ i = index := ⟨congrArg Arc.tail heq, congrArg Arc.index heq⟩
      cases fuel with
      | zero => simp at hfuel
      | succ fuel =>
          rw [List.length_cons, Nat.add_le_add_iff_right] at hfuel
          have hpush := pushArc_withCapacity hpaired current hi
          rw [show (arcAt graph w i).target = v from hhead] at hpush
          unfold augment
          rw [if_neg hv]
          simp only [hentry]
          rw [hpush]
          exact ih hfuel (pushCapacity graph current w i)

/-- A unit along a simple path of tight arcs moves capacity from its end to the source. -/
theorem push_path {v : ℕ} {path : List (Arc ℕ)}
    (hwalk : Walk (residualArcs graph capacity) 0 v path) (hsimple : Simple 0 path)
    (hflow : UnitFlow graph capacity) (hfeasible : Feasible (residualArcs graph capacity) potential)
    (htight : ∀ arc ∈ path, potential arc.head = potential arc.tail + arc.cost) :
    UnitFlow graph (pushPath graph capacity path) ∧
      Feasible (residualArcs graph (pushPath graph capacity path)) potential ∧
      ∀ w, outCapacity graph (pushPath graph capacity path) w =
        outCapacity graph capacity w + (if w = v then 1 else 0) - if w = 0 then 1 else 0 := by
  induction path generalizing capacity v with
  | nil =>
      cases hwalk
      refine ⟨hflow, hfeasible, fun w => ?_⟩
      rw [add_sub_cancel_right]
      rfl
  | cons arc path ih =>
      cases hwalk with
      | cons harc hrest =>
          obtain ⟨w, i, hi, hfree, rfl⟩ := mem_residualArcs.mp harc
          rw [List.forall_mem_cons] at htight
          -- the other arcs of the path keep their capacity, or gain
          have hstay : path ⊆ residualArcs graph (pushCapacity graph capacity w i) := by
            intro b hb
            obtain ⟨x, j, hj, hfree', rfl⟩ := mem_residualArcs.mp (hrest.subset hb)
            apply toArc_mem hj
            have hother : ¬(x = w ∧ j = i) := by
              rintro ⟨rfl, rfl⟩
              have hheads := hsimple.heads
              rw [List.map_cons, List.nodup_cons] at hheads
              exact hheads.1 (List.mem_map_of_mem hb)
            unfold pushCapacity
            rw [if_neg hother]
            split
            · have hzeroOne := hflow.zeroOne x j hj
              omega
            · exact hfree'
          obtain ⟨hflow', hfeasible', hout⟩ := ih (hrest.mono hstay) hsimple.tail
            (hflow.push hpaired hi hfree) (feasible_push hpaired hi hfree hfeasible htight.1) htight.2
          refine ⟨hflow', hfeasible', fun x => ?_⟩
          have hstep : outCapacity graph (pushCapacity graph capacity w i) x = _ :=
            outCapacity_push hpaired hi x
          have hrestOut := hout x
          rw [hstep] at hrestOut
          rw [show pushPath graph capacity (toArc graph w i :: path) =
            pushPath graph (pushCapacity graph capacity w i) path from rfl, hrestOut]
          simp only [toArc]
          omega

/-- One round: either the sink is as far as `kInfinity`, or one more unit flows. -/
theorem augmentOnce_spec (hflow : UnitFlow graph capacity)
    (hfeasible : Feasible (residualArcs graph capacity) potential)
    (htotal : totalCost (residualArcs graph capacity) ≤ kInfinity.toInt) (hlength : 0 < graph.length)
    (hreach : ∀ arc ∈ residualArcs graph capacity,
      ∃ path, Walk (residualArcs graph capacity) 0 arc.tail path ∧ Simple 0 path) (sink : ℕ) :
    (augmentOnce sink (withCapacity graph capacity) = .ok none ∧
        ∀ path, Walk (residualArcs graph capacity) 0 sink path → Simple 0 path →
          kInfinity.toInt ≤ pathCost path) ∨
      ∃ capacity' potential', augmentOnce sink (withCapacity graph capacity) =
          .ok (some (withCapacity graph capacity')) ∧ UnitFlow graph capacity' ∧
        Feasible (residualArcs graph capacity') potential' ∧
        ∀ w, outCapacity graph capacity' w =
          outCapacity graph capacity w + (if w = sink then 1 else 0) - if w = 0 then 1 else 0 := by
  have hbound : 0 ≤ kInfinity.toInt := by decide
  have hheads : ∀ arc ∈ residualArcs graph capacity, arc.head < graph.length := by
    intro arc harc
    obtain ⟨v, i, hi, -, rfl⟩ := mem_residualArcs.mp harc
    exact hpaired.target_lt v i hi
  obtain ⟨hsound, hbestOf⟩ := @relaxAll_iterate_spec ℕ _ kInfinity.toInt
    (residualArcs graph capacity) 0 potential hfeasible hbound htotal (graph.length - 1)
  have hinitial := view_initialPathLabels graph hlength
  have hview := shortestPaths_spec hpaired hfeasible htotal (graph.length - 1)
    (sized_initialPathLabels graph.length) (by
      rw [hinitial]
      exact sound_initialLabels hbound)
  rw [hinitial] at hview
  rw [← hview] at hsound hbestOf
  unfold augmentOnce
  rw [length_withCapacity]
  generalize shortestPaths (withCapacity graph capacity) (graph.length - 1)
    (initialPathLabels graph.length) = labels at hsound hbestOf ⊢
  have hbest : Best (residualArcs graph capacity) 0 (labels.view graph) := by
    intro v path hwalk hsimple
    have hshort := hsimple.length_lt hwalk.subset hlength hheads
    exact hbestOf v path hwalk hsimple (by omega)
  dsimp only
  by_cases hsink : labels.distance.getD sink kInfinity = kInfinity
  · left
    rw [if_pos hsink]
    refine ⟨rfl, fun path hwalk hsimple => ?_⟩
    have hle := hbest sink path hwalk hsimple
    rwa [view_distance_eq_iff.mpr hsink] at hle
  · right
    rw [if_neg hsink]
    obtain ⟨path, htrace⟩ := hsound.trace sink fun h => hsink (view_distance_eq_iff.mp h)
    have hdistances := hbest.feasible hsound hfeasible htotal hreach
    have hwalk := htrace.walk hsound
    have hsimple := htrace.simple hsound
    obtain ⟨hflow', hfeasible', hout⟩ := push_path hpaired hwalk hsimple hflow hdistances
      (htrace.tight hsound hdistances)
    have hshort := hsimple.length_lt hwalk.subset hlength hheads
    exact ⟨_, _, augment_trace hpaired hsound htrace hshort.le capacity, hflow', hfeasible', hout⟩

end round

end Dsa
