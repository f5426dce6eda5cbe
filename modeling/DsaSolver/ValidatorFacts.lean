import DsaSolver.Validator
import Mathlib.Data.List.GetD

/-! # What an empty error list says

`WellFormed` collects what the later modules use of a problem that passes `validateProblem`,
and `validateSolution_eq_nil_iff` turns an empty `validateSolution` into the record
`SolutionOk` of the hard constraints, in terms of the placements found. -/

namespace Dsa

@[simp] theorem errorIf_eq_nil {condition : Bool} {message : String} :
    errorIf condition message = [] ↔ condition = false := by
  cases condition <;> simp [errorIf]

/-! ### Lookups -/

section lookups

variable {problem : DsaProblem}

theorem bufferAt_eq {i : ℕ} (hi : i < problem.buffers.length) :
    problem.bufferAt i = problem.buffers[i] := List.getD_eq_getElem _ _ hi

theorem bufferAt_mem {i : ℕ} (hi : i < problem.buffers.length) :
    problem.bufferAt i ∈ problem.buffers := by
  rw [bufferAt_eq hi]
  exact List.getElem_mem hi

theorem exists_bufferAt {buffer : Buffer} (h : buffer ∈ problem.buffers) :
    ∃ i < problem.buffers.length, problem.bufferAt i = buffer := by
  obtain ⟨i, hi, e⟩ := List.mem_iff_getElem.mp h
  exact ⟨i, hi, by rw [bufferAt_eq hi, e]⟩

theorem bufferIndices_lt {id : BufferId} {i : ℕ} (h : bufferIndices problem id = some i) :
    i < problem.buffers.length ∧ (problem.bufferAt i).id = id := by
  obtain ⟨hi, e, -⟩ := List.findIdx?_eq_some_iff_getElem.mp h
  rw [bufferAt_eq hi]
  exact ⟨hi, by simpa using e⟩

theorem bufferAt_id_injective (hnd : (problem.buffers.map Buffer.id).Nodup) {i j : ℕ}
    (hi : i < problem.buffers.length) (hj : j < problem.buffers.length)
    (h : (problem.bufferAt i).id = (problem.bufferAt j).id) : i = j := by
  rw [bufferAt_eq hi, bufferAt_eq hj] at h
  have hi' : i < (problem.buffers.map Buffer.id).length := by simpa using hi
  have hj' : j < (problem.buffers.map Buffer.id).length := by simpa using hj
  have e : (problem.buffers.map Buffer.id)[i] = (problem.buffers.map Buffer.id)[j] := by
    simpa using h
  exact hnd.getElem_inj_iff.mp e

theorem bufferIndices_bufferAt (hnd : (problem.buffers.map Buffer.id).Nodup) {i : ℕ}
    (hi : i < problem.buffers.length) : bufferIndices problem (problem.bufferAt i).id = some i := by
  cases h : bufferIndices problem (problem.bufferAt i).id with
  | none =>
      have := List.findIdx?_eq_none_iff.mp h (problem.bufferAt i) (bufferAt_mem hi)
      simp at this
  | some j =>
      obtain ⟨hj, e⟩ := bufferIndices_lt h
      rw [bufferAt_id_injective hnd hj hi e]

theorem findBuffer_bufferAt (hnd : (problem.buffers.map Buffer.id).Nodup) {i : ℕ}
    (hi : i < problem.buffers.length) :
    problem.findBuffer (problem.bufferAt i).id = some (problem.bufferAt i) := by
  cases h : problem.findBuffer (problem.bufferAt i).id with
  | none =>
      have := List.find?_eq_none.mp h (problem.bufferAt i) (bufferAt_mem hi)
      simp at this
  | some buffer =>
      obtain ⟨j, hj, rfl⟩ := exists_bufferAt (List.mem_of_find?_eq_some h)
      have e : (problem.bufferAt j).id = (problem.bufferAt i).id := by
        simpa using List.find?_some h
      rw [bufferAt_id_injective hnd hj hi e]

theorem findBuffer_isSome_iff {id : BufferId} :
    (problem.findBuffer id).isSome ↔ ∃ i < problem.buffers.length, (problem.bufferAt i).id = id := by
  rw [DsaProblem.findBuffer, List.find?_isSome]
  constructor
  · rintro ⟨buffer, hmem, e⟩
    obtain ⟨i, hi, rfl⟩ := exists_bufferAt hmem
    exact ⟨i, hi, by simpa using e⟩
  · rintro ⟨i, hi, rfl⟩
    exact ⟨_, bufferAt_mem hi, by simp⟩

theorem knownBuffer_iff {id : BufferId} :
    knownBuffer problem id = true ↔ ∃ i < problem.buffers.length, (problem.bufferAt i).id = id := by
  rw [knownBuffer, List.contains_iff_mem, List.mem_map]
  constructor
  · rintro ⟨buffer, hmem, rfl⟩
    obtain ⟨i, hi, rfl⟩ := exists_bufferAt hmem
    exact ⟨i, hi, rfl⟩
  · rintro ⟨i, hi, rfl⟩
    exact ⟨_, bufferAt_mem hi, rfl⟩

theorem findPool_id {id : PoolId} {pool : Pool} (h : problem.findPool id = some pool) :
    pool.id = id := by
  simpa using List.find?_some h

theorem findPool_mem {id : PoolId} {pool : Pool} (h : problem.findPool id = some pool) :
    pool ∈ problem.pools := List.mem_of_find?_eq_some h

theorem exists_findPool {id : PoolId} (h : id ∈ problem.pools.map Pool.id) :
    ∃ pool, problem.findPool id = some pool := by
  obtain ⟨pool, hmem, rfl⟩ := List.mem_map.mp h
  rw [← Option.isSome_iff_exists, DsaProblem.findPool, List.find?_isSome]
  exact ⟨pool, hmem, by simp⟩

theorem findPool_eq_of_mem (hnd : (problem.pools.map Pool.id).Nodup) {pool : Pool}
    (h : pool ∈ problem.pools) : problem.findPool pool.id = some pool := by
  obtain ⟨found, hf⟩ := exists_findPool (List.mem_map_of_mem (f := Pool.id) h)
  rw [hf, List.inj_on_of_nodup_map hnd (findPool_mem hf) h (findPool_id hf)]

end lookups

/-! ### A valid problem -/

/-- What the later modules use of `validateProblem problem = []`. -/
structure WellFormed (problem : DsaProblem) : Prop where
  poolIds : (problem.pools.map Pool.id).Nodup
  reserved : ∀ pool ∈ problem.pools, ∀ range ∈ pool.reservedRanges, range.first < range.last
  reservedWithin : ∀ pool ∈ problem.pools, ∀ range ∈ pool.reservedRanges, ∀ capacity,
    pool.capacity = some capacity → range.last ≤ capacity
  bufferIds : (problem.buffers.map Buffer.id).Nodup
  sizePos : ∀ buffer ∈ problem.buffers, buffer.size ≠ 0
  alignmentPos : ∀ buffer ∈ problem.buffers, buffer.alignment ≠ 0
  lifetimes : ∀ buffer ∈ problem.buffers, buffer.liveIntervals ≠ []
  allowedPools : ∀ buffer ∈ problem.buffers, ∀ id ∈ buffer.allowedPools,
    id ∈ problem.pools.map Pool.id
  colocations : ∀ constraint ∈ problem.colocations,
    knownBuffer problem constraint.first = true ∧ knownBuffer problem constraint.second = true
  separations : ∀ constraint ∈ problem.separations,
    knownBuffer problem constraint.first = true ∧ knownBuffer problem constraint.second = true
  pinned : ∀ pinned ∈ problem.pinnedAllocations, ∃ buffer,
    problem.findBuffer pinned.buffer = some buffer ∧ poolAllowed buffer pinned.pool = true ∧
      pinned.offset % buffer.alignment = 0 ∧ pinnedAddressErrors problem pinned buffer = []
  pinnedIds : (problem.pinnedAllocations.map PinnedAllocation.buffer).Nodup
  penalties : ∀ penalty ∈ problem.reusePenalties,
    knownBuffer problem penalty.first = true ∧ knownBuffer problem penalty.second = true
  objectiveTerms : problem.objective.terms ≠ []

theorem poolErrors_eq_nil {poolIds : List PoolId} {pools : List Pool}
    (h : poolErrors poolIds pools = []) :
    (∀ pool ∈ pools, pool.id ∉ poolIds) ∧ (pools.map Pool.id).Nodup ∧
      ∀ pool ∈ pools, ∀ range ∈ pool.reservedRanges, reservedRangeErrors pool range = [] := by
  induction pools generalizing poolIds with
  | nil => simp
  | cons pool rest ih =>
      simp only [poolErrors, List.append_eq_nil_iff, errorIf_eq_nil, List.flatMap_eq_nil_iff] at h
      obtain ⟨⟨⟨hnew, hreserved⟩, -⟩, hrest⟩ := h
      obtain ⟨hfresh, hnodup, hranges⟩ := ih hrest
      simp only [List.mem_cons, not_or] at hfresh
      refine ⟨?_, ?_, ?_⟩
      · rintro p hp
        rcases List.mem_cons.mp hp with rfl | hp
        · simpa using hnew
        · exact (hfresh p hp).2
      · rw [List.map_cons, List.nodup_cons]
        refine ⟨fun hmem => ?_, hnodup⟩
        obtain ⟨p, hp, e⟩ := List.mem_map.mp hmem
        exact (hfresh p hp).1 e
      · rintro p hp
        rcases List.mem_cons.mp hp with rfl | hp
        · exact hreserved
        · exact hranges p hp

theorem allowedPoolErrors_eq_nil {poolIds : List PoolId} {buffer : Buffer}
    {allowed pools : List PoolId} (h : allowedPoolErrors poolIds buffer allowed pools = []) :
    ∀ id ∈ pools, id ∈ poolIds := by
  induction pools generalizing allowed with
  | nil => simp
  | cons pool rest ih =>
      simp only [allowedPoolErrors, List.append_eq_nil_iff, errorIf_eq_nil] at h
      rintro id hid
      rcases List.mem_cons.mp hid with rfl | hid
      · simpa using h.1.2
      · exact ih h.2 id hid

/-- The checks of one buffer that look at nothing but the buffer and the pools. -/
structure BufferOk (poolIds : List PoolId) (buffer : Buffer) : Prop where
  sizePos : buffer.size ≠ 0
  alignmentPos : buffer.alignment ≠ 0
  lifetimes : buffer.liveIntervals ≠ []
  allowedPools : ∀ id ∈ buffer.allowedPools, id ∈ poolIds

theorem bufferErrors_eq_nil {poolIds : List PoolId} {bufferIds : List BufferId}
    {names : List String} {buffers : List Buffer}
    (h : bufferErrors poolIds bufferIds names buffers = []) :
    (∀ buffer ∈ buffers, buffer.id ∉ bufferIds) ∧ (buffers.map Buffer.id).Nodup ∧
      ∀ buffer ∈ buffers, BufferOk poolIds buffer := by
  induction buffers generalizing bufferIds names with
  | nil => simp
  | cons buffer rest ih =>
      simp only [bufferErrors, List.append_eq_nil_iff, errorIf_eq_nil] at h
      obtain ⟨⟨⟨⟨⟨⟨⟨⟨hnew, -⟩, hsize⟩, halign⟩, hlive⟩, -⟩, -⟩, hallowed⟩, hrest⟩ := h
      obtain ⟨hfresh, hnodup, hok⟩ := ih hrest
      simp only [List.mem_cons, not_or] at hfresh
      refine ⟨?_, ?_, ?_⟩
      · rintro b hb
        rcases List.mem_cons.mp hb with rfl | hb
        · simpa using hnew
        · exact (hfresh b hb).2
      · rw [List.map_cons, List.nodup_cons]
        refine ⟨fun hmem => ?_, hnodup⟩
        obtain ⟨b, hb, e⟩ := List.mem_map.mp hmem
        exact (hfresh b hb).1 e
      · rintro b hb
        rcases List.mem_cons.mp hb with rfl | hb
        · exact ⟨by simpa using hsize, by simpa using halign, by simpa using hlive,
            allowedPoolErrors_eq_nil hallowed⟩
        · exact hok b hb

theorem pinnedErrors_eq_nil {problem : DsaProblem} {ids : List BufferId}
    {pins : List PinnedAllocation} (h : pinnedErrors problem ids pins = []) :
    (∀ pinned ∈ pins, pinned.buffer ∉ ids) ∧ (pins.map PinnedAllocation.buffer).Nodup ∧
      ∀ pinned ∈ pins, ∃ buffer,
        problem.findBuffer pinned.buffer = some buffer ∧ poolAllowed buffer pinned.pool = true ∧
          pinned.offset % buffer.alignment = 0 ∧ pinnedAddressErrors problem pinned buffer = [] := by
  induction pins generalizing ids with
  | nil => simp
  | cons pinned rest ih =>
      unfold pinnedErrors at h
      cases hb : problem.findBuffer pinned.buffer with
      | none =>
          rw [hb] at h
          exact absurd h (List.cons_ne_nil _ _)
      | some buffer =>
          rw [hb] at h
          simp only [List.append_eq_nil_iff, errorIf_eq_nil, Bool.or_eq_false_iff] at h
          obtain ⟨⟨⟨⟨hnew, -, hpool⟩, halign⟩, haddress⟩, hrest⟩ := h
          obtain ⟨hfresh, hnodup, hok⟩ := ih hrest
          simp only [List.mem_cons, not_or] at hfresh
          refine ⟨?_, ?_, ?_⟩
          · rintro p hp
            rcases List.mem_cons.mp hp with rfl | hp
            · simpa using hnew
            · exact (hfresh p hp).2
          · rw [List.map_cons, List.nodup_cons]
            refine ⟨fun hmem => ?_, hnodup⟩
            obtain ⟨p, hp, e⟩ := List.mem_map.mp hmem
            exact (hfresh p hp).1 e
          · rintro p hp
            rcases List.mem_cons.mp hp with rfl | hp
            · exact ⟨buffer, hb, by simpa using hpool, by simpa using halign, haddress⟩
            · exact hok p hp

/-- The sections of `validateProblem`. -/
theorem validateProblem_eq_nil_iff (problem : DsaProblem) :
    validateProblem problem = [] ↔
      poolErrors [] problem.pools = [] ∧ problem.pools ≠ [] ∧
        bufferErrors (problem.pools.map Pool.id) [] [] problem.buffers = [] ∧
        (∀ constraint ∈ problem.colocations, colocationErrors problem constraint = []) ∧
        (∀ constraint ∈ problem.separations, separationErrors problem constraint = []) ∧
        (∀ exclusion ∈ problem.temporalExclusions, temporalExclusionErrors problem exclusion = []) ∧
        pinnedErrors problem [] problem.pinnedAllocations = [] ∧
        (∀ penalty ∈ problem.reusePenalties, reusePenaltyErrors problem penalty = []) ∧
        pyptoErrors problem = [] ∧ problem.objective.terms ≠ [] ∧
        objectiveTermErrors [] problem.objective.terms = [] := by
  simp only [validateProblem, List.append_eq_nil_iff, List.flatMap_eq_nil_iff, errorIf_eq_nil,
    and_assoc, List.isEmpty_eq_false_iff]

theorem known_of_separationErrors {problem : DsaProblem} {constraint : Separation}
    (h : separationErrors problem constraint = []) :
    knownBuffer problem constraint.first = true ∧ knownBuffer problem constraint.second = true := by
  unfold separationErrors at h
  split_ifs at h with hc
  simpa using hc

theorem WellFormed.of_validateProblem {problem : DsaProblem} (h : validateProblem problem = []) :
    WellFormed problem := by
  obtain ⟨hpools, -, hbuffers, hcoloc, hsep, -, hpins, hpenalties, -, hterms, -⟩ :=
    (validateProblem_eq_nil_iff problem).mp h
  obtain ⟨-, hpoolIds, hranges⟩ := poolErrors_eq_nil hpools
  obtain ⟨-, hbufferIds, hbufferOk⟩ := bufferErrors_eq_nil hbuffers
  obtain ⟨-, hpinnedIds, hpinned⟩ := pinnedErrors_eq_nil hpins
  simp only [reservedRangeErrors, List.append_eq_nil_iff, errorIf_eq_nil] at hranges
  exact {
    poolIds := hpoolIds
    reserved := fun pool hp range hr => by
      have := (hranges pool hp range hr).1
      simpa using this
    reservedWithin := fun pool hp range hr capacity hcap => by
      have := (hranges pool hp range hr).2
      rw [hcap] at this
      simpa [exceedsCapacity] using this
    bufferIds := hbufferIds
    sizePos := fun b hb => (hbufferOk b hb).sizePos
    alignmentPos := fun b hb => (hbufferOk b hb).alignmentPos
    lifetimes := fun b hb => (hbufferOk b hb).lifetimes
    allowedPools := fun b hb => (hbufferOk b hb).allowedPools
    colocations := fun c hc => by simpa [colocationErrors] using hcoloc c hc
    separations := fun c hc => known_of_separationErrors (hsep c hc)
    pinned := hpinned
    pinnedIds := hpinnedIds
    penalties := fun p hp => by simpa [reusePenaltyErrors] using hpenalties p hp
    objectiveTerms := hterms }

/-- The intervals of a valid problem are not empty. -/
theorem interval_lt {problem : DsaProblem} (hvalid : validateProblem problem = []) {buffer : Buffer}
    (hb : buffer ∈ problem.buffers) {interval : Interval} (hi : interval ∈ buffer.liveIntervals) :
    interval.lower < interval.upper := by
  obtain ⟨-, -, hbuffers, -⟩ := (validateProblem_eq_nil_iff _).mp hvalid
  have key : ∀ (ids : List BufferId) (names : List String) (buffers : List Buffer),
      bufferErrors (problem.pools.map Pool.id) ids names buffers = [] →
      ∀ b ∈ buffers, ∀ i ∈ b.liveIntervals, i.lower < i.upper := by
    intro ids names buffers
    induction buffers generalizing ids names with
    | nil => simp
    | cons first rest ih =>
        intro h b hb i hi
        simp only [bufferErrors, List.append_eq_nil_iff, List.flatMap_eq_nil_iff, intervalErrors,
          errorIf_eq_nil] at h
        rcases List.mem_cons.mp hb with rfl | hb
        · simpa using h.1.1.1.2 i hi
        · exact ih _ _ h.2 b hb i hi
  exact key _ _ _ hbuffers buffer hb interval hi

/-! ### A valid solution -/

/-- The checks of a placed buffer against its own pool. -/
structure PlacedOk (problem : DsaProblem) (buffer : Buffer) (placement : Placement) : Prop where
  allowed : placement.pool ∈ buffer.allowedPools
  aligned : placement.offset % buffer.alignment = 0
  noOverflow : addOverflows placement.offset buffer.size = false
  address : ∀ pool, problem.findPool placement.pool = some pool →
    poolAddressErrors buffer placement pool = []

/-- Every constraint of `validateSolution` on the placements found. -/
structure SolutionOk (problem : DsaProblem) (solution : DsaSolution) : Prop where
  known : ∀ id placement, solution.find id = some placement →
    (problem.findBuffer id).isSome ∧ (problem.findPool placement.pool).isSome
  placed : ∀ buffer ∈ problem.buffers, ∃ placement, solution.find buffer.id = some placement ∧
    PlacedOk problem buffer placement
  colocated : ∀ constraint ∈ problem.colocations, ∀ first second,
    solution.find constraint.first = some first → solution.find constraint.second = some second →
      first = second
  lifetimes : ∀ i j, i < j → j < problem.buffers.length → lifetimePairErrors problem solution i j = []
  separated : ∀ constraint ∈ problem.separations,
    separatedPlacementErrors problem solution constraint = []
  pinned : ∀ pinned ∈ problem.pinnedAllocations, ∀ placement,
    solution.find pinned.buffer = some placement → placement = ⟨pinned.pool, pinned.offset⟩

theorem find_eq_some_iff {solution : DsaSolution} {id : BufferId} {placement : Placement} :
    solution.find id = some placement ↔ (id, placement) ∈ solution.placements.toList := by
  rw [DsaSolution.find, Std.TreeMap.mem_toList_iff_getElem?_eq_some]

theorem bufferPlacementErrors_eq_nil_iff {problem : DsaProblem} {solution : DsaSolution}
    {buffer : Buffer} : bufferPlacementErrors problem solution buffer = [] ↔
      ∃ placement, solution.find buffer.id = some placement ∧ PlacedOk problem buffer placement := by
  unfold bufferPlacementErrors
  cases hfind : solution.find buffer.id with
  | none => simp
  | some placement =>
      simp only [Option.some.injEq, exists_eq_left', List.append_eq_nil_iff, errorIf_eq_nil]
      constructor
      · rintro ⟨⟨hallowed, haligned⟩, haddress⟩
        split_ifs at haddress with hover
        refine ⟨by simpa [poolAllowed] using hallowed, by simpa using haligned, by simpa using hover,
          fun pool hpool => ?_⟩
        rw [hpool] at haddress
        exact haddress
      · rintro ⟨hallowed, haligned, hover, haddress⟩
        refine ⟨⟨by simpa [poolAllowed] using hallowed, by simpa using haligned⟩, ?_⟩
        rw [if_neg (by simpa using hover)]
        cases hpool : problem.findPool placement.pool with
        | none => rfl
        | some pool => exact haddress pool hpool

theorem placement_ext {first second : Placement} :
    (first.pool != second.pool || first.offset != second.offset) = false ↔ first = second := by
  cases first
  cases second
  simp

theorem colocatedPlacementErrors_eq_nil_iff {solution : DsaSolution} {constraint : Colocation} :
    colocatedPlacementErrors solution constraint = [] ↔ ∀ first second,
      solution.find constraint.first = some first → solution.find constraint.second = some second →
        first = second := by
  unfold colocatedPlacementErrors
  cases hf : solution.find constraint.first with
  | none => simp
  | some first =>
      cases hs : solution.find constraint.second with
      | none => simp
      | some second =>
          rw [errorIf_eq_nil, placement_ext]
          constructor
          · rintro rfl _ _ ⟨⟩ ⟨⟩
            rfl
          · exact fun h => h first second rfl rfl

theorem pinnedPlacementErrors_eq_nil_iff {solution : DsaSolution} {pinned : PinnedAllocation} :
    pinnedPlacementErrors solution pinned = [] ↔ ∀ placement,
      solution.find pinned.buffer = some placement → placement = ⟨pinned.pool, pinned.offset⟩ := by
  unfold pinnedPlacementErrors
  cases hf : solution.find pinned.buffer with
  | none => simp
  | some placement =>
      simp only [Option.some.injEq, forall_eq', errorIf_eq_nil]
      exact @placement_ext placement ⟨pinned.pool, pinned.offset⟩

theorem placementReferenceErrors_eq_nil_iff {problem : DsaProblem} {entry : BufferId × Placement} :
    placementReferenceErrors problem entry = [] ↔
      (problem.findBuffer entry.1).isSome ∧ (problem.findPool entry.2.pool).isSome := by
  simp [placementReferenceErrors]

/-- The double loop `i`, `j = i + 1` runs over the pairs `i < j`. -/
theorem forall_pairs_iff {n : ℕ} {P : ℕ → ℕ → Prop} :
    (∀ i ∈ List.range n, ∀ j ∈ List.range' (i + 1) (n - (i + 1)), P i j) ↔
      ∀ i j, i < j → j < n → P i j := by
  simp only [List.mem_range, List.mem_range'_1]
  constructor
  · exact fun h i j hij hj => h i (by omega) j ⟨by omega, by omega⟩
  · exact fun h i hi j hj => h i j (by omega) (by omega)

/-- An empty `validateSolution` is a valid problem with a placement that meets every
constraint. -/
theorem validateSolution_eq_nil_iff (problem : DsaProblem) (solution : DsaSolution) :
    validateSolution problem solution = [] ↔
      validateProblem problem = [] ∧ SolutionOk problem solution := by
  unfold validateSolution
  split_ifs with hp
  · simp [hp]
  · rw [ne_eq, not_not] at hp
    simp only [hp, List.append_eq_nil_iff, List.flatMap_eq_nil_iff, true_and,
      bufferPlacementErrors_eq_nil_iff, colocatedPlacementErrors_eq_nil_iff,
      pinnedPlacementErrors_eq_nil_iff, placementReferenceErrors_eq_nil_iff, forall_pairs_iff]
    constructor
    · rintro ⟨⟨⟨⟨⟨hknown, hplaced⟩, hcoloc⟩, hlife⟩, hsep⟩, hpin⟩
      exact ⟨fun id placement h => hknown (id, placement) (find_eq_some_iff.mp h), hplaced, hcoloc,
        hlife, hsep, hpin⟩
    · intro h
      exact ⟨⟨⟨⟨⟨fun entry he => h.known entry.1 entry.2 (find_eq_some_iff.mpr he), h.placed⟩,
        h.colocated⟩, h.lifetimes⟩, h.separated⟩, h.pinned⟩

theorem SolutionOk.congr {problem : DsaProblem} {solution other : DsaSolution}
    (h : SolutionOk problem solution) (hfind : ∀ id, other.find id = solution.find id) :
    SolutionOk problem other where
  known id placement hplaced := h.known id placement (by rw [← hfind, hplaced])
  placed buffer hbuffer := by
    rw [hfind]
    exact h.placed buffer hbuffer
  colocated constraint hc first second hfirst hsecond :=
    h.colocated constraint hc first second (by rw [← hfind, hfirst]) (by rw [← hfind, hsecond])
  lifetimes i j hij hj := by
    have := h.lifetimes i j hij hj
    unfold lifetimePairErrors at this ⊢
    simpa only [hfind] using this
  separated constraint hc := by
    have := h.separated constraint hc
    unfold separatedPlacementErrors at this ⊢
    simpa only [hfind] using this
  pinned pinned hp placement hplaced := h.pinned pinned hp placement (by rw [← hfind, hplaced])

/-- Validity of a solution depends on the placements found only. -/
theorem validateSolution_congr {problem : DsaProblem} {first second : DsaSolution}
    (hf : first.find = second.find) :
    validateSolution problem first = [] ↔ validateSolution problem second = [] := by
  rw [validateSolution_eq_nil_iff, validateSolution_eq_nil_iff]
  refine and_congr_right fun _ => ⟨fun h => h.congr fun id => ?_, fun h => h.congr fun id => ?_⟩
  · rw [hf]
  · rw [hf]

end Dsa
