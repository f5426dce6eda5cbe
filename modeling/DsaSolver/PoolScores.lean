import DsaSolver.Peaks
import DsaSolver.WholeSearch

/-! # The objective of joined placements

The canonical search scores every pool on its own.  The objective of a whole placement is made of
these scores: its reuse cost and its total peak are the saturating sums over the pools
(`reuseCost_eq_sum`, `totalPeak_eq_sum`), its largest peak is their maximum (`maxPeak_le_iff`), and
a valid placement exceeds no capacity (`capacityOverflow_expand`). -/

namespace Dsa

open Theory (Sat)
open PoolCanonicalSearch (peakOf poolNodes poolCost)

variable {problem : DsaProblem} {offsets : List UInt64}

/-! ### The peak of a pool -/

theorem reservedPeaks_eq_foldl (problem : DsaProblem) : reservedPeaks problem =
    (problem.pools.flatMap fun pool => pool.reservedRanges.map fun range =>
      (pool.id, range.last)).foldl
        (fun peaks e => (some e).elim peaks fun e => raisePeak peaks e.1 e.2) ∅ := by
  unfold reservedPeaks
  rw [List.foldl_flatMap]
  simp only [List.foldl_map, Option.elim_some]

theorem getD_reservedPeaks_le_iff {target : PoolId} {bound : UInt64} :
    (reservedPeaks problem).getD target 0 ≤ bound ↔ ∀ pool ∈ problem.pools, pool.id = target →
      ∀ range ∈ pool.reservedRanges, range.last ≤ bound := by
  rw [reservedPeaks_eq_foldl, getD_foldl_raisePeak_le_iff some]
  constructor
  · rintro ⟨-, hall⟩ pool hpool rfl range hrange
    exact hall _ (List.mem_flatMap.mpr ⟨pool, hpool, List.mem_map_of_mem hrange⟩) _ rfl
  · intro hall
    refine ⟨UInt64.le_iff_toNat_le.mpr (Nat.zero_le _), fun e he value heq => ?_⟩
    obtain ⟨pool, hpool, hmem⟩ := List.mem_flatMap.mp he
    obtain ⟨range, hrange, rfl⟩ := List.mem_map.mp hmem
    obtain ⟨hid, rfl⟩ := Prod.mk.inj (Option.some.inj heq)
    exact hall pool hpool hid range hrange

theorem reservedPeak_le_iff {target : PoolId} {pool : Pool}
    (hpool : problem.findPool target = some pool) {bound : UInt64} :
    reservedPeak problem target ≤ bound ↔ ∀ range ∈ pool.reservedRanges, range.last ≤ bound := by
  unfold reservedPeak
  rw [hpool]
  dsimp only
  rw [Theory.foldl_max_le_iff]
  exact and_iff_right (UInt64.le_iff_toNat_le.mpr (Nat.zero_le _))

/-- The end that a buffer of a valid placement raises the peak of its pool to. -/
theorem placedEnd_expand (h : SearchOk problem) (hv : (nodePacking h).Valid (positions offsets))
    {i : ℕ} (hi : i < problem.buffers.length) :
    placedEnd (expandReuseNodeSolution problem.search offsets) (problem.bufferAt i) =
        some ((problem.search.nodeAt (classOf problem i)).pool,
          offsets.getD (classOf problem i) 0 + (problem.bufferAt i).size) ∧
      (problem.bufferAt i).size ≤ (problem.search.nodeAt (classOf problem i)).size ∧
        (offsets.getD (classOf problem i) 0).toNat +
          (problem.search.nodeAt (classOf problem i)).size.toNat < 2 ^ 64 := by
  have hk := h.classOf_lt hi
  have hlt := fitsAt_lt h hk (hv.fits _ (Finset.mem_range.mpr hk))
  have hle : (problem.bufferAt i).size ≤ (problem.search.nodeAt (classOf problem i)).size := by
    rw [h.size_eq hk]
    exact (h.prepared.covers _ (h.lt_supers hk)).sizeGe i
      ((h.prepared.members _ (h.lt_supers hk) i).mpr ⟨hi, rfl⟩)
  refine ⟨?_, hle, hlt⟩
  unfold placedEnd
  rw [find_expand_of_member h offsets hi]
  have hover : Theory.addOverflows (offsets.getD (classOf problem i) 0)
      (problem.bufferAt i).size = false := by
    rw [Theory.addOverflows_eq_false_iff]
    exact lt_of_le_of_lt (Nat.add_le_add_left (UInt64.le_iff_toNat_le.mp hle) _) hlt
  rw [nodePlacement]
  dsimp only
  rw [if_neg]
  rw [Bool.not_eq_true]
  exact hover

/-- **The peak of a pool** is the one the canonical search computes. -/
theorem peak_expand (h : SearchOk problem) (hv : (nodePacking h).Valid (positions offsets))
    {pool : Pool} (hpool : pool ∈ problem.pools) :
    (evaluateObjective problem (expandReuseNodeSolution problem.search offsets)).peak pool.id =
      peakOf problem problem.search pool.id offsets := by
  have hfind := findPool_eq_of_mem h.prepared.wellFormed.poolIds hpool
  refine eq_of_forall_ge_iff fun bound => ?_
  show (peakByPool problem _).getD pool.id 0 ≤ bound ↔ _
  rw [peakByPool_eq_foldl, getD_foldl_raisePeak_le_iff, getD_reservedPeaks_le_iff,
    PoolCanonicalSearch.peakOf_le_iff, reservedPeak_le_iff hfind]
  refine and_congr ⟨fun hall => hall pool hpool rfl, fun hall other hother hid => ?_⟩
    ⟨fun hall n hn => ?_, fun hall buffer hbuffer value hvalue => ?_⟩
  · have hsame := findPool_eq_of_mem h.prepared.wellFormed.poolIds hother
    rw [hid, hfind] at hsame
    obtain rfl := Option.some.inj hsame
    exact hall
  · -- a member of the node has its size
    obtain ⟨hcount, hnode⟩ := PoolCanonicalSearch.mem_poolNodes.mp hn
    obtain ⟨i, hmember, hsize⟩ := (h.prepared.covers n (h.lt_supers hcount)).sizeMem
    obtain ⟨hi, hclass⟩ := (h.prepared.members n (h.lt_supers hcount) i).mp hmember
    obtain ⟨hend, -, -⟩ := placedEnd_expand h hv hi
    rw [hclass, hnode] at hend
    have := hall _ (bufferAt_mem hi) _ hend
    rwa [← hsize, ← h.size_eq hcount] at this
  · obtain ⟨i, hi, rfl⟩ := exists_bufferAt hbuffer
    obtain ⟨hend, hle, hlt⟩ := placedEnd_expand h hv hi
    rw [hend] at hvalue
    obtain ⟨hnode, rfl⟩ := Prod.mk.inj (Option.some.inj hvalue)
    refine le_trans ?_ (hall _ (PoolCanonicalSearch.mem_poolNodes.mpr ⟨h.classOf_lt hi, hnode⟩))
    rw [UInt64.le_iff_toNat_le] at hle ⊢
    rw [Theory.toNat_add_of_lt hlt, Theory.toNat_add_of_lt (by omega)]
    omega

/-- A pool of a valid placement holds its peak. -/
theorem peakOf_le_capacity (h : SearchOk problem) (hv : (nodePacking h).Valid (positions offsets))
    {pool : Pool} (hpool : pool ∈ problem.pools) {capacity : UInt64}
    (hcapacity : pool.capacity = some capacity) :
    peakOf problem problem.search pool.id offsets ≤ capacity := by
  have hfind := findPool_eq_of_mem h.prepared.wellFormed.poolIds hpool
  refine PoolCanonicalSearch.peakOf_le_iff.mpr ⟨(reservedPeak_le_iff hfind).mpr fun range hrange =>
    h.prepared.wellFormed.reservedWithin pool hpool range hrange capacity hcapacity,
      fun n hn => ?_⟩
  obtain ⟨hcount, hnode⟩ := PoolCanonicalSearch.mem_poolNodes.mp hn
  rw [← hnode] at hfind
  have hfits := hv.fits n (Finset.mem_range.mpr hcount)
  have hlt := fitsAt_lt h hcount hfits
  have hwithin := ((fitsAt_iff h hfind).mp hfits).2.within
  rw [hcapacity, Option.getD_some] at hwithin
  rw [UInt64.le_iff_toNat_le, Theory.toNat_add_of_lt hlt]
  exact hwithin

/-! ### The terms of the objective -/

/-- A valid placement exceeds no capacity. -/
theorem capacityOverflow_expand (h : SearchOk problem)
    (hv : (nodePacking h).Valid (positions offsets)) :
    capacityOverflow problem
      (evaluateObjective problem (expandReuseNodeSolution problem.search offsets)) = 0 := by
  unfold capacityOverflow
  refine List.foldlRecOn (motive := fun overflow => overflow = 0) _ _ rfl
    fun overflow hzero pool hpool => ?_
  cases hcapacity : pool.capacity with
  | none => exact hzero
  | some capacity =>
      have hle := peakOf_le_capacity h hv hpool hcapacity
      rw [← peak_expand h hv hpool] at hle
      exact (if_pos hle).trans hzero

/-- Only pools of the problem have a peak. -/
theorem mem_poolIds_of_peak (h : SearchOk problem)
    (hv : (nodePacking h).Valid (positions offsets)) {target : PoolId}
    (hmem : target ∈ peakByPool problem (expandReuseNodeSolution problem.search offsets)) :
    target ∈ problem.pools.map Pool.id := by
  rw [peakByPool_eq_foldl] at hmem
  rcases mem_foldl_raisePeak _ _ hmem with hmem | ⟨buffer, hbuffer, value, hend⟩
  · rw [reservedPeaks_eq_foldl] at hmem
    rcases mem_foldl_raisePeak _ _ hmem with hmem | ⟨e, he, value, heq⟩
    · exact absurd hmem Std.TreeMap.not_mem_emptyc
    · obtain ⟨pool, hpool, hrange⟩ := List.mem_flatMap.mp he
      obtain ⟨range, -, rfl⟩ := List.mem_map.mp hrange
      obtain ⟨rfl, -⟩ := Prod.mk.inj (Option.some.inj heq)
      exact List.mem_map_of_mem hpool
  · obtain ⟨i, hi, rfl⟩ := exists_bufferAt hbuffer
    rw [(placedEnd_expand h hv hi).1] at hend
    obtain ⟨rfl, -⟩ := Prod.mk.inj (Option.some.inj hend)
    obtain ⟨pool, hpool⟩ := h.exists_pool (h.classOf_lt hi)
    rw [← findPool_id hpool]
    exact List.mem_map_of_mem (findPool_mem hpool)

/-- The total peak is the sum of the peaks of the pools. -/
theorem totalPeak_eq_sum (h : SearchOk problem) (hv : (nodePacking h).Valid (positions offsets)) :
    (⟨(evaluateObjective problem (expandReuseNodeSolution problem.search offsets)).totalPeak⟩ :
        Sat) = (problem.pools.map fun pool =>
          (⟨peakOf problem problem.search pool.id offsets⟩ : Sat)).sum := by
  have hsum := Theory.foldl_satAdd_all Prod.snd 0
    (peakByPool problem (expandReuseNodeSolution problem.search offsets)).toList
  have h0 : (⟨0⟩ : Sat) = 0 := rfl
  rw [h0, zero_add] at hsum
  have htotal := @Theory.total_eq_sum _ _ _ Sat _ _ _ (peakByPool problem
    (expandReuseNodeSolution problem.search offsets)) (fun value => ⟨value⟩) 0 h0 _
    h.prepared.wellFormed.poolIds fun target hmem => mem_poolIds_of_peak h hv hmem
  unfold Theory.total at htotal
  rw [List.map_map] at htotal
  calc (⟨(evaluateObjective problem
        (expandReuseNodeSolution problem.search offsets)).totalPeak⟩ : Sat)
      = ((peakByPool problem (expandReuseNodeSolution problem.search offsets)).toList.map
          fun e => (⟨e.2⟩ : Sat)).sum := Theory.Sat.ext hsum
    _ = _ := htotal
    _ = _ := congrArg List.sum (List.map_congr_left fun pool hpool =>
        congrArg Theory.Sat.mk (peak_expand h hv hpool))

/-- The largest peak is the maximum of the peaks of the pools. -/
theorem maxPeak_le_iff (h : SearchOk problem) (hv : (nodePacking h).Valid (positions offsets))
    {bound : UInt64} :
    (evaluateObjective problem (expandReuseNodeSolution problem.search offsets)).maxPeak ≤ bound ↔
      ∀ pool ∈ problem.pools, peakOf problem problem.search pool.id offsets ≤ bound := by
  show (peakByPool problem _).toList.foldl (fun peak e => max peak e.2) 0 ≤ bound ↔ _
  rw [Theory.foldl_max_le_iff]
  constructor
  · rintro ⟨-, hall⟩ pool hpool
    rw [← peak_expand h hv hpool]
    unfold ObjectiveValue.peak
    rw [Std.TreeMap.getD_eq_getD_getElem?]
    show ((peakByPool problem _)[pool.id]?).getD 0 ≤ bound
    cases hget : (peakByPool problem
        (expandReuseNodeSolution problem.search offsets))[pool.id]? with
    | none => exact UInt64.le_iff_toNat_le.mpr (Nat.zero_le _)
    | some value => exact hall _ (Std.TreeMap.mem_toList_iff_getElem?_eq_some.mpr hget)
  · intro hall
    refine ⟨UInt64.le_iff_toNat_le.mpr (Nat.zero_le _), fun e he => ?_⟩
    have hget := Std.TreeMap.mem_toList_iff_getElem?_eq_some.mp he
    obtain ⟨pool, hpool, hid⟩ := List.mem_map.mp (mem_poolIds_of_peak h hv
      (Std.TreeMap.mem_iff_isSome_getElem?.mpr (Option.isSome_of_eq_some hget)))
    have hle := hall pool hpool
    rw [← peak_expand h hv hpool, hid] at hle
    unfold ObjectiveValue.peak at hle
    rw [Std.TreeMap.getD_eq_getD_getElem?] at hle
    change ((peakByPool problem _)[e.1]?).getD 0 ≤ bound at hle
    rwa [hget] at hle

/-- The reuse cost is the sum of the costs of the pools. -/
theorem reuseCost_eq_sum (h : SearchOk problem) (hv : (nodePacking h).Valid (positions offsets)) :
    (⟨(evaluateObjective problem (expandReuseNodeSolution problem.search offsets)).reuseCost⟩ :
        Sat) = (problem.pools.map fun pool =>
          (⟨poolReuseCost problem.search pool.id offsets⟩ : Sat)).sum := by
  have hcost : (⟨(evaluateObjective problem
      (expandReuseNodeSolution problem.search offsets)).reuseCost⟩ : Sat) =
        nodeCost problem (positions offsets) := Theory.Sat.ext (reuseCost_expand h hv)
  rw [hcost, nodeCost, weightOf_pools h]
  refine congrArg List.sum (List.map_congr_left fun pool hpool => ?_)
  rw [PoolCanonicalSearch.poolReuseCost_eq h ((valid_iff_pools h).mp hv pool hpool).1]
  unfold poolCost partialCost
  refine weightOf_congr h fun pair hlt hcount hsame => ?_
  rw [decide_eq_true_iff, decide_eq_true_iff, PoolCanonicalSearch.mem_poolNodes,
    PoolCanonicalSearch.mem_poolNodes, ← hsame, ← and_assoc]
  refine and_congr_left fun _ => ?_
  exact ⟨fun hpool => ⟨⟨hlt.trans hcount, hpool⟩, hcount, hpool⟩, fun hboth => hboth.1.2⟩

end Dsa
