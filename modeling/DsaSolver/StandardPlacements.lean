import DsaSolver.StandardShape

/-! # Placements of standard problems

A standard problem without capacity asks for offsets only: no address range overflows, and buffers
alive together lie apart.  So isomorphic problems have the same placements up to renaming and
reach the same values of every metric (`achievableValues_of_isomorphic`). -/

namespace Dsa

open Theory

/-! ### Standard problems -/

/-- What `validateStandardProblem problem = []` says, `pool` the only pool. -/
structure StandardPool (problem : DsaProblem) (pool : Pool) : Prop where
  pools : problem.pools = [pool]
  reserved : pool.reservedRanges = []
  bank : pool.bankGeometry = none
  oneInterval : OneInterval problem
  alignment : ∀ buffer ∈ problem.buffers, buffer.alignment = 1
  allowed : ∀ buffer ∈ problem.buffers, buffer.allowedPools = [pool.id]
  colocations : problem.colocations = []
  separations : problem.separations = []
  temporalExclusions : problem.temporalExclusions = []
  pinned : problem.pinnedAllocations = []
  costModel : problem.costModel = none
  pypto : problem.pyptoStructure = none

theorem standardPool_of_validate {problem : DsaProblem} (h : validateStandardProblem problem = []) :
    ∃ pool, StandardPool problem pool := by
  unfold validateStandardProblem at h
  split at h
  · rename_i pool hpools
    simp only [List.append_eq_nil_iff, errorIf_eq_nil, List.flatMap_eq_nil_iff,
      standardBufferErrors, Bool.not_eq_false', List.isEmpty_iff, Option.isSome_eq_false_iff,
      Option.isNone_iff_eq_none, bne_eq_false_iff_eq] at h
    obtain ⟨⟨⟨⟨⟨⟨⟨⟨⟨hreserved, hbank⟩, hbuffers⟩, hcoloc⟩, hsep⟩, hexcl⟩, hpins⟩, hcost⟩, hpypto⟩,
      -⟩ := h
    exact ⟨pool, hpools, hreserved, hbank, fun b hb => (hbuffers b hb).1.1,
      fun b hb => (hbuffers b hb).1.2, fun b hb => (hbuffers b hb).2, hcoloc, hsep, hexcl, hpins,
      hcost, hpypto⟩
  · cases h

/-- A valid standard problem without capacity. -/
structure StandardFree (problem : DsaProblem) : Prop where
  valid : validateProblem problem = []
  standard : validateStandardProblem problem = []
  free : ∀ pool ∈ problem.pools, pool.capacity = none

theorem StandardFree.oneInterval {problem : DsaProblem} (h : StandardFree problem) :
    OneInterval problem := by
  obtain ⟨pool, hpool⟩ := standardPool_of_validate h.standard
  exact hpool.oneInterval

section offsets

variable {problem : DsaProblem} {pool : Pool}

theorem StandardPool.findPool (h : StandardPool problem pool) :
    problem.findPool pool.id = some pool := by
  simp [DsaProblem.findPool, h.pools]

theorem StandardPool.haveTemporalConflict_eq (h : StandardPool problem pool)
    (first second : Buffer) :
    haveTemporalConflict problem first second = lifetimesOverlap first second := by
  simp [haveTemporalConflict, h.temporalExclusions]

theorem StandardPool.exclusivelyPinned_eq (h : StandardPool problem pool) (id : BufferId) :
    exclusivelyPinned problem id = false := by
  simp [exclusivelyPinned, h.pinned]

/-- The offsets place every buffer within the addresses, buffers alive together apart. -/
structure OffsetsOk (problem : DsaProblem) (offset : ℕ → UInt64) : Prop where
  noOverflow : ∀ i < problem.buffers.length,
    addOverflows (offset i) (problem.bufferAt i).size = false
  apart : ∀ i j, i < problem.buffers.length → j < problem.buffers.length → i ≠ j →
    lifetimesOverlap (problem.bufferAt i) (problem.bufferAt j) = true →
      addressRangesOverlap (offset i) (problem.bufferAt i).size (offset j)
        (problem.bufferAt j).size = false

/-- The offset of a buffer in a solution. -/
def offsetAt (problem : DsaProblem) (solution : DsaSolution) (i : ℕ) : UInt64 :=
  (solution.find (problem.bufferAt i).id).elim 0 Placement.offset

/-- The solution with the given offsets in the only pool. -/
def placeAt (problem : DsaProblem) (offset : ℕ → UInt64) : DsaSolution :=
  ⟨Std.TreeMap.ofList (problem.buffers.mapIdx fun i buffer =>
    (buffer.id, Placement.mk (problem.pools.headD {}).id (offset i)))⟩

theorem find_placeAt (hw : WellFormed problem) (h : StandardPool problem pool) (offset : ℕ → UInt64)
    {i : ℕ} (hi : i < problem.buffers.length) :
    (placeAt problem offset).find (problem.bufferAt i).id = some ⟨pool.id, offset i⟩ := by
  refine Std.TreeMap.getElem?_ofList_of_mem Std.ReflCmp.compare_self ?_ ?_
  · rw [List.pairwise_iff_getElem]
    intro k l hk hl hkl
    rw [List.length_mapIdx] at hk hl
    rw [List.getElem_mapIdx, List.getElem_mapIdx, Std.LawfulEqCmp.compare_eq_iff_eq]
    intro e
    rw [← bufferAt_eq hk, ← bufferAt_eq hl] at e
    exact hkl.ne (bufferAt_id_injective hw.bufferIds hk hl e)
  · rw [List.mem_mapIdx]
    refine ⟨i, hi, ?_⟩
    rw [bufferAt_eq hi, h.pools]
    rfl

theorem exists_of_find_placeAt {offset : ℕ → UInt64} {id : BufferId} {placement : Placement}
    (h : (placeAt problem offset).find id = some placement) :
    ∃ i < problem.buffers.length, (problem.bufferAt i).id = id := by
  have hmem : id ∈ (placeAt problem offset).placements :=
    Std.TreeMap.mem_iff_isSome_getElem?.mpr (Option.isSome_of_eq_some h)
  rw [placeAt, Std.TreeMap.mem_ofList, List.contains_iff_mem, List.mem_map] at hmem
  obtain ⟨entry, hentry, rfl⟩ := hmem
  obtain ⟨i, hi, rfl⟩ := List.mem_mapIdx.mp hentry
  exact ⟨i, hi, by rw [bufferAt_eq hi]⟩

/-- Every buffer of a valid solution is in the pool at its offset. -/
theorem SolutionOk.find_standard (h : StandardPool problem pool) {solution : DsaSolution}
    (hs : SolutionOk problem solution) {i : ℕ} (hi : i < problem.buffers.length) :
    solution.find (problem.bufferAt i).id = some ⟨pool.id, offsetAt problem solution i⟩ ∧
      addOverflows (offsetAt problem solution i) (problem.bufferAt i).size = false := by
  obtain ⟨placement, hfind, hok⟩ := hs.placed _ (bufferAt_mem hi)
  have hallowed := hok.allowed
  rw [h.allowed _ (bufferAt_mem hi), List.mem_singleton] at hallowed
  unfold offsetAt
  rw [hfind, Option.elim_some, ← hallowed]
  exact ⟨rfl, hok.noOverflow⟩

theorem offsetsOk_of_valid (hw : WellFormed problem) (h : StandardPool problem pool)
    {solution : DsaSolution} (hs : SolutionOk problem solution) :
    OffsetsOk problem (offsetAt problem solution) := by
  have hextent := fun i hi => allocationExtent_of_no_colocations hw h.colocations (i := i) hi
  have key : ∀ i j, i < j → j < problem.buffers.length →
      lifetimesOverlap (problem.bufferAt i) (problem.bufferAt j) = true →
        addressRangesOverlap (offsetAt problem solution i) (problem.bufferAt i).size
          (offsetAt problem solution j) (problem.bufferAt j).size = false := by
    intro i j hij hj hlive
    have hi := hij.trans hj
    have hpair := hs.lifetimes i j hij hj
    rw [lifetimePairErrors_eq_nil_iff (hs.find_standard h hi).1 (hs.find_standard h hj).1,
      root_of_no_colocations h.colocations, root_of_no_colocations h.colocations, hextent i hi,
      hextent j hj, h.haveTemporalConflict_eq, hlive] at hpair
    simpa [placementsOverlap] using hpair hij.ne
  refine ⟨fun i hi => (hs.find_standard h hi).2, fun i j hi hj hne hlive => ?_⟩
  rcases Nat.lt_or_gt_of_ne hne with hij | hij
  · exact key i j hij hj hlive
  · rw [addressRangesOverlap_comm]
    exact key j i hij hi (by rwa [lifetimesOverlap_comm])

theorem validateSolution_placeAt (hfree : StandardFree problem) (h : StandardPool problem pool)
    {offset : ℕ → UInt64} (hoffset : OffsetsOk problem offset) :
    validateSolution problem (placeAt problem offset) = [] := by
  have hw := WellFormed.of_validateProblem hfree.valid
  have hextent := fun i hi => allocationExtent_of_no_colocations hw h.colocations (i := i) hi
  rw [validateSolution_eq_nil_iff]
  refine ⟨hfree.valid, ?_, ?_, ?_, ?_, ?_, ?_⟩
  · intro id placement hfind
    obtain ⟨i, hi, rfl⟩ := exists_of_find_placeAt hfind
    rw [find_placeAt hw h offset hi] at hfind
    obtain rfl := Option.some.inj hfind
    exact ⟨findBuffer_isSome_iff.mpr ⟨i, hi, rfl⟩, Option.isSome_of_eq_some h.findPool⟩
  · intro buffer hbuffer
    obtain ⟨i, hi, rfl⟩ := exists_bufferAt hbuffer
    refine ⟨_, find_placeAt hw h offset hi, ?_, ?_, hoffset.noOverflow i hi, ?_⟩
    · rw [h.allowed _ hbuffer]
      exact List.mem_singleton.mpr rfl
    · rw [h.alignment _ hbuffer]
      exact UInt64.mod_one
    · intro found hfound
      rw [h.findPool] at hfound
      obtain rfl := Option.some.inj hfound
      have hcapacity := hfree.free pool (by rw [h.pools]; exact List.mem_singleton.mpr rfl)
      simp [poolAddressErrors, h.reserved, hcapacity, exceedsCapacity, errorIf]
  · rw [h.colocations]
    exact fun _ hc => absurd hc List.not_mem_nil
  · intro i j hij hj
    have hi := hij.trans hj
    rw [lifetimePairErrors_eq_nil_iff (find_placeAt hw h offset hi) (find_placeAt hw h offset hj),
      hextent i hi, hextent j hj, h.haveTemporalConflict_eq, h.exclusivelyPinned_eq,
      h.exclusivelyPinned_eq, Bool.or_false, Bool.or_false]
    intro _ hlive
    simpa [placementsOverlap] using hoffset.apart i j hi hj hij.ne hlive
  · rw [h.separations]
    exact fun _ hc => absurd hc List.not_mem_nil
  · rw [h.pinned]
    exact fun _ hc => absurd hc List.not_mem_nil

theorem offsetAt_placeAt (hw : WellFormed problem) (h : StandardPool problem pool)
    {offset : ℕ → UInt64} {i : ℕ} (hi : i < problem.buffers.length) :
    offsetAt problem (placeAt problem offset) i = offset i := by
  rw [offsetAt, find_placeAt hw h offset hi]
  rfl

/-! ### Metrics -/

/-- The metrics of a standard solution, `peak` the peak of its pool. -/
def standardMetric (peak : UInt64) : ObjectiveMetric → UInt64
  | .capacityOverflow => 0
  | .totalPeak => peak
  | .maxPeak => peak
  | .reuseCost => 0
  | .bankCost => 0

theorem metric_eq_standardMetric (hfree : StandardFree problem) (h : StandardPool problem pool)
    {solution : DsaSolution} (hs : SolutionOk problem solution) (metric : ObjectiveMetric) :
    evaluateObjectiveMetric problem (evaluateObjective problem solution) metric =
      standardMetric ((evaluateObjective problem solution).peak pool.id) metric := by
  have hsingle : ∀ found ∈ peakByPool problem solution, found = pool.id := by
    intro found hfound
    rw [peakByPool_eq_foldl] at hfound
    rcases mem_foldl_raisePeak _ _ hfound with hmem | ⟨buffer, hbuffer, value, hplaced⟩
    · simp [reservedPeaks, h.pools, h.reserved] at hmem
    · obtain ⟨i, hi, rfl⟩ := exists_bufferAt hbuffer
      obtain ⟨hfind, hover⟩ := hs.find_standard h hi
      simp only [placedEnd, hfind, hover, Bool.false_eq_true, if_false, Option.some.injEq,
        Prod.mk.injEq] at hplaced
      exact hplaced.1.symm
  obtain ⟨htotal, hmax⟩ := peaks_of_single hsingle
  have hcapacity := hfree.free pool (by rw [h.pools]; exact List.mem_singleton.mpr rfl)
  cases metric with
  | capacityOverflow =>
      simp [evaluateObjectiveMetric, capacityOverflow, h.pools, hcapacity, standardMetric]
  | totalPeak => exact htotal
  | maxPeak => exact hmax
  | reuseCost =>
      simp [evaluateObjectiveMetric, evaluateObjective, DsaProblem.reusePenalties, h.costModel,
        standardMetric]
  | bankCost => rfl

end offsets

/-! ### Isomorphic problems -/

/-- The values of a metric in the valid placements of a problem. -/
def achievableValues (problem : DsaProblem) (metric : ObjectiveMetric) : Set UInt64 :=
  {value | ∃ solution, validateSolution problem solution = [] ∧
    evaluateObjectiveMetric problem (evaluateObjective problem solution) metric = value}

theorem lifetimesOverlap_oneInterval {first second : Buffer}
    (hfirst : first.liveIntervals.length = 1) (hsecond : second.liveIntervals.length = 1) :
    lifetimesOverlap first second = (frontInterval first).overlaps (frontInterval second) := by
  obtain ⟨a, ha⟩ := List.length_eq_one_iff.mp hfirst
  obtain ⟨b, hb⟩ := List.length_eq_one_iff.mp hsecond
  simp [lifetimesOverlap, frontInterval, ha, hb]

section transfer

variable {first second : DsaProblem} {buffers : Fin first.buffers.length ≃ Fin second.buffers.length}
  {times : Int64 → Int64}

theorem ShapeIso.lt_iff (h : ShapeIso first second buffers times) {s t : Int64}
    (hs : LifetimeEnd first s) (ht : LifetimeEnd first t) : times s < times t ↔ s < t := by
  refine ⟨fun hlt => ?_, h.increasing s t hs ht⟩
  by_contra hnot
  by_cases heq : s = t
  · rw [heq] at hlt
    exact int64_lt_asymm _ _ hlt hlt
  · have hgt := (int64_lt_or_lt s t heq).resolve_left hnot
    exact int64_lt_asymm _ _ hlt (h.increasing t s ht hs hgt)

theorem ShapeIso.overlaps_eq (h : ShapeIso first second buffers times)
    (i j : Fin first.buffers.length) :
    (frontInterval (second.buffers.get (buffers i))).overlaps
        (frontInterval (second.buffers.get (buffers j))) =
      (frontInterval (first.buffers.get i)).overlaps (frontInterval (first.buffers.get j)) := by
  unfold Interval.overlaps
  rw [h.lower, h.lower, h.upper, h.upper,
    decide_eq_decide.mpr (h.lt_iff (lifetimeEnd_lower i) (lifetimeEnd_upper j)),
    decide_eq_decide.mpr (h.lt_iff (lifetimeEnd_lower j) (lifetimeEnd_upper i))]

/-- The bijection keeps the temporal conflicts. -/
theorem ShapeIso.lifetimesOverlap_eq (h : ShapeIso first second buffers times)
    (hfirst : OneInterval first) (hsecond : OneInterval second) (i j : Fin first.buffers.length) :
    lifetimesOverlap (second.buffers.get (buffers i)) (second.buffers.get (buffers j)) =
      lifetimesOverlap (first.buffers.get i) (first.buffers.get j) := by
  rw [lifetimesOverlap_oneInterval (hsecond _ (List.get_mem _ _)) (hsecond _ (List.get_mem _ _)),
    lifetimesOverlap_oneInterval (hfirst _ (List.get_mem _ _)) (hfirst _ (List.get_mem _ _)),
    h.overlaps_eq]

theorem ShapeIso.symm (h : ShapeIso first second buffers times) :
    Isomorphic second first := by
  apply isomorphic_of_perm
  exact h.perm.symm

theorem bufferAt_val {problem : DsaProblem} (i : Fin problem.buffers.length) :
    problem.bufferAt i = problem.buffers.get i := bufferAt_eq i.isLt

/-- The offsets of the first problem, carried to the second. -/
def carriedOffset (buffers : Fin first.buffers.length ≃ Fin second.buffers.length)
    (offset : ℕ → UInt64) (j : ℕ) : UInt64 :=
  if hj : j < second.buffers.length then offset (buffers.symm ⟨j, hj⟩) else 0

theorem carriedOffset_apply (offset : ℕ → UInt64) (i : Fin first.buffers.length) :
    carriedOffset buffers offset (buffers i) = offset i := by
  rw [carriedOffset, dif_pos (buffers i).isLt, Fin.eta, Equiv.symm_apply_apply]

theorem exists_of_lt (buffers : Fin first.buffers.length ≃ Fin second.buffers.length) {j : ℕ}
    (hj : j < second.buffers.length) : ∃ i, (buffers i : ℕ) = j :=
  ⟨buffers.symm ⟨j, hj⟩, by rw [Equiv.apply_symm_apply]⟩

theorem ShapeIso.offsetsOk (h : ShapeIso first second buffers times) (hfirst : OneInterval first)
    (hsecond : OneInterval second) {offset : ℕ → UInt64} (hoffset : OffsetsOk first offset) :
    OffsetsOk second (carriedOffset buffers offset) := by
  constructor
  · intro j hj
    obtain ⟨i, rfl⟩ := exists_of_lt buffers hj
    have hok := hoffset.noOverflow i i.isLt
    rw [bufferAt_val, ← h.size] at hok
    rwa [carriedOffset_apply, bufferAt_val]
  · intro j k hj hk hne hlive
    obtain ⟨i, rfl⟩ := exists_of_lt buffers hj
    obtain ⟨l, rfl⟩ := exists_of_lt buffers hk
    rw [bufferAt_val, bufferAt_val, h.lifetimesOverlap_eq hfirst hsecond] at hlive
    have hok := hoffset.apart i l i.isLt l.isLt (fun heq => hne (by rw [Fin.ext heq]))
      (by rwa [bufferAt_val, bufferAt_val])
    rw [bufferAt_val, bufferAt_val, ← h.size, ← h.size] at hok
    rwa [carriedOffset_apply, carriedOffset_apply, bufferAt_val, bufferAt_val]

/-- The peak of the first placement is at most the peak of one with the same offsets. -/
theorem peak_le_of_matched {pool pool' : Pool} (hpool : StandardPool first pool)
    (hpool' : StandardPool second pool') {solution solution' : DsaSolution}
    (hs : SolutionOk first solution) (hs' : SolutionOk second solution')
    (hmatched : ∀ i < first.buffers.length, ∃ j < second.buffers.length,
      offsetAt second solution' j = offsetAt first solution i ∧
        (second.bufferAt j).size = (first.bufferAt i).size) :
    (evaluateObjective first solution).peak pool.id ≤
      (evaluateObjective second solution').peak pool'.id := by
  refine peak_le_of_ends (fun p hp => ?_) fun buffer hbuffer value hplaced => ?_
  · rw [hpool.pools, List.mem_singleton] at hp
    rw [hp, hpool.reserved]
  · obtain ⟨i, hi, rfl⟩ := exists_bufferAt hbuffer
    obtain ⟨hfind, hover⟩ := hs.find_standard hpool hi
    simp only [placedEnd, hfind, hover, Bool.false_eq_true, if_false, Option.some.injEq,
      Prod.mk.injEq] at hplaced
    obtain ⟨j, hj, hoffset, hsize⟩ := hmatched i hi
    obtain ⟨hfind', hover'⟩ := hs'.find_standard hpool' hj
    have hend := end_le_peak (bufferAt_mem hj) hfind' hover'
    dsimp only at hend
    rw [hoffset, hsize, hplaced.2] at hend
    exact hend

end transfer

theorem achievableValues_subset {first second : DsaProblem} (hfirst : StandardFree first)
    (hsecond : StandardFree second) (h : Isomorphic first second) (metric : ObjectiveMetric) :
    achievableValues first metric ⊆ achievableValues second metric := by
  rintro value ⟨solution, hvalid, rfl⟩
  obtain ⟨buffers, times, hiso⟩ := h
  obtain ⟨pool, hpool⟩ := standardPool_of_validate hfirst.standard
  obtain ⟨pool', hpool'⟩ := standardPool_of_validate hsecond.standard
  have hw := WellFormed.of_validateProblem hfirst.valid
  have hw' := WellFormed.of_validateProblem hsecond.valid
  have hs := ((validateSolution_eq_nil_iff _ _).mp hvalid).2
  have hoffset := hiso.offsetsOk hfirst.oneInterval hsecond.oneInterval
    (offsetsOk_of_valid hw hpool hs)
  have hvalid' := validateSolution_placeAt hsecond hpool' hoffset
  have hs' := ((validateSolution_eq_nil_iff _ _).mp hvalid').2
  refine ⟨_, hvalid', ?_⟩
  rw [metric_eq_standardMetric hsecond hpool' hs', metric_eq_standardMetric hfirst hpool hs]
  congr 1
  apply UInt64.le_antisymm
  · refine peak_le_of_matched hpool' hpool hs' hs fun j hj => ?_
    obtain ⟨i, rfl⟩ := exists_of_lt buffers hj
    refine ⟨i, i.isLt, ?_, ?_⟩
    · rw [offsetAt_placeAt hw' hpool' hj, carriedOffset_apply]
    · rw [bufferAt_val, bufferAt_val, hiso.size]
  · refine peak_le_of_matched hpool hpool' hs hs' fun i hi => ?_
    refine ⟨buffers ⟨i, hi⟩, (buffers ⟨i, hi⟩).isLt, ?_, ?_⟩
    · rw [offsetAt_placeAt hw' hpool' (buffers ⟨i, hi⟩).isLt, carriedOffset_apply]
    · rw [bufferAt_val, hiso.size, ← bufferAt_val]

/-- Isomorphic problems reach the same values. -/
theorem achievableValues_of_isomorphic {first second : DsaProblem} (hfirst : StandardFree first)
    (hsecond : StandardFree second) (h : Isomorphic first second) (metric : ObjectiveMetric) :
    achievableValues first metric = achievableValues second metric := by
  have hsymm : Isomorphic second first := by
    obtain ⟨buffers, times, hiso⟩ := h
    exact hiso.symm
  exact (achievableValues_subset hfirst hsecond h metric).antisymm
    (achievableValues_subset hsecond hfirst hsymm metric)

end Dsa
