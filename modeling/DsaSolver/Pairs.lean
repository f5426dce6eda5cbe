import DsaSolver.ClassView
import DsaSolver.StructuredProblem

/-! # Constraints and costs on pairs

A separation and a reuse penalty look at the same thing, whether the classes of two buffers
overlap in address (`pairOverlaps`).  Problems that differ only in their separations, costs and
objective (`withSoft`) have the same valid placements up to the separations, and the same pairs
overlap: the transformations that trade one kind of record for the other rest on this. -/

namespace Dsa

open Theory (Apart)

/-- `std::minmax`. -/
def minmax (first second : BufferId) : BufferId × BufferId := (min first second, max first second)

/-- A fact about an unordered pair may be checked on the ordered one. -/
theorem minmax_iff {P : BufferId → BufferId → Prop} (hcomm : ∀ a b, P a b ↔ P b a)
    (a b : BufferId) : P (minmax a b).1 (minmax a b).2 ↔ P a b := by
  unfold minmax
  rcases le_total a b with hab | hab
  · simp only [min_eq_left hab, max_eq_right hab]
  · simp only [min_eq_right hab, max_eq_left hab]
    exact hcomm b a

theorem minmax_congr {P : BufferId → BufferId → Prop} (hcomm : ∀ a b, P a b ↔ P b a)
    {a b c d : BufferId} (h : minmax a b = minmax c d) : P a b ↔ P c d := by
  rw [← minmax_iff hcomm a b, h, minmax_iff hcomm c d]

/-! ### Overlap of a pair -/

/-- The placements of the classes of two known, placed buffers overlap. -/
def pairOverlaps (problem : DsaProblem) (solution : DsaSolution) (first second : BufferId) : Bool :=
  match solution.find first, solution.find second, bufferIndices problem first,
      bufferIndices problem second with
  | some firstPlacement, some secondPlacement, some firstIndex, some secondIndex =>
      placementsOverlap firstPlacement (allocationExtent problem firstIndex) secondPlacement
        (allocationExtent problem secondIndex)
  | _, _, _, _ => false

/-- The two buffers are in one colocation class. -/
def sameClass (problem : DsaProblem) (first second : BufferId) : Bool :=
  match bufferIndices problem first, bufferIndices problem second with
  | some firstIndex, some secondIndex =>
      (colocationSets problem).root firstIndex == (colocationSets problem).root secondIndex
  | _, _ => false

/-- The two buffers are alive together. -/
def pairConflicts (problem : DsaProblem) (first second : BufferId) : Bool :=
  match problem.findBuffer first, problem.findBuffer second with
  | some firstBuffer, some secondBuffer => haveTemporalConflict problem firstBuffer secondBuffer
  | _, _ => false

section pairs

variable {problem : DsaProblem} {solution : DsaSolution}

theorem pairOverlaps_comm (first second : BufferId) :
    pairOverlaps problem solution first second = pairOverlaps problem solution second first := by
  unfold pairOverlaps
  cases solution.find first <;> cases solution.find second <;>
    cases bufferIndices problem first <;> cases bufferIndices problem second <;>
    first
      | rfl
      | exact placementsOverlap_comm _ _ _ _

theorem sameClass_comm (first second : BufferId) :
    sameClass problem first second = sameClass problem second first := by
  unfold sameClass
  cases bufferIndices problem first <;> cases bufferIndices problem second <;>
    first
      | rfl
      | exact BEq.comm

theorem pairConflicts_comm (first second : BufferId) :
    pairConflicts problem first second = pairConflicts problem second first := by
  unfold pairConflicts
  cases problem.findBuffer first <;> cases problem.findBuffer second <;>
    first
      | rfl
      | exact haveTemporalConflict_comm problem _ _

theorem pairConflicts_of_find {first second : BufferId} {firstBuffer secondBuffer : Buffer}
    (h1 : problem.findBuffer first = some firstBuffer)
    (h2 : problem.findBuffer second = some secondBuffer) :
    pairConflicts problem first second = haveTemporalConflict problem firstBuffer secondBuffer := by
  simp [pairConflicts, h1, h2]

theorem knownBuffer_eq_isSome (id : BufferId) :
    knownBuffer problem id = (problem.findBuffer id).isSome := by
  rw [Bool.eq_iff_iff, knownBuffer_iff, findBuffer_isSome_iff]

theorem isSome_bufferIndices (id : BufferId) :
    (bufferIndices problem id).isSome = (problem.findBuffer id).isSome := by
  rw [bufferIndices, DsaProblem.findBuffer, List.findIdx?_isSome, Bool.eq_iff_iff, List.any_eq_true,
    List.find?_isSome]

/-- A known buffer has an index, and is the buffer at that index. -/
theorem exists_index_of_known (hnd : (problem.buffers.map Buffer.id).Nodup) {id : BufferId}
    (h : knownBuffer problem id = true) :
    ∃ i < problem.buffers.length, (problem.bufferAt i).id = id ∧ bufferIndices problem id = some i ∧
      problem.findBuffer id = some (problem.bufferAt i) := by
  obtain ⟨i, hi, rfl⟩ := knownBuffer_iff.mp h
  exact ⟨i, hi, rfl, bufferIndices_bufferAt hnd hi, findBuffer_bufferAt hnd hi⟩

/-- A separation is violated when the two classes overlap. -/
theorem separatedPlacementErrors_eq_nil_iff {constraint : Separation} :
    separatedPlacementErrors problem solution constraint = [] ↔
      pairOverlaps problem solution constraint.first constraint.second = false := by
  have h1 := @isSome_bufferIndices problem constraint.first
  have h2 := @isSome_bufferIndices problem constraint.second
  unfold separatedPlacementErrors pairOverlaps
  cases hb1 : problem.findBuffer constraint.first with
  | none =>
      rw [hb1, Option.isSome_none, Option.isSome_eq_false_iff, Option.isNone_iff_eq_none] at h1
      rw [h1]
      cases solution.find constraint.first <;> cases solution.find constraint.second <;> simp
  | some firstBuffer =>
      cases hb2 : problem.findBuffer constraint.second with
      | none =>
          rw [hb2, Option.isSome_none, Option.isSome_eq_false_iff, Option.isNone_iff_eq_none] at h2
          rw [h2]
          cases solution.find constraint.first <;> cases solution.find constraint.second <;>
            cases bufferIndices problem constraint.first <;> simp
      | some secondBuffer =>
          cases solution.find constraint.first <;> cases solution.find constraint.second <;>
            cases bufferIndices problem constraint.first <;>
            cases bufferIndices problem constraint.second <;> simp [errorIf_eq_nil]

/-- A penalty is paid when the classes of a pair that need not be apart overlap. -/
theorem penaltyPaid_eq (problem : DsaProblem) (solution : DsaSolution) (penalty : ReusePenalty) :
    penaltyPaid problem solution penalty =
      (!sameClass problem penalty.first penalty.second &&
        !pairConflicts problem penalty.first penalty.second &&
        pairOverlaps problem solution penalty.first penalty.second) := by
  have h1 := @isSome_bufferIndices problem penalty.first
  have h2 := @isSome_bufferIndices problem penalty.second
  unfold penaltyPaid pairOverlaps sameClass pairConflicts
  cases hb1 : problem.findBuffer penalty.first with
  | none =>
      rw [hb1, Option.isSome_none, Option.isSome_eq_false_iff, Option.isNone_iff_eq_none] at h1
      rw [h1]
      cases solution.find penalty.first <;> cases solution.find penalty.second <;> simp
  | some firstBuffer =>
      cases hb2 : problem.findBuffer penalty.second with
      | none =>
          rw [hb2, Option.isSome_none, Option.isSome_eq_false_iff, Option.isNone_iff_eq_none] at h2
          rw [h2]
          cases solution.find penalty.first <;> cases solution.find penalty.second <;>
            cases bufferIndices problem penalty.first <;> simp
      | some secondBuffer =>
          cases solution.find penalty.first <;> cases solution.find penalty.second <;>
            cases bufferIndices problem penalty.first <;>
            cases bufferIndices problem penalty.second <;> simp

/-! ### Pairs of a valid solution -/

theorem allocationExtent_eq_getD {i : ℕ} (hi : i < problem.buffers.length) :
    allocationExtent problem i =
      (extentsUpTo problem problem.buffers.length).getD ((colocationSets problem).root i) 0 := by
  unfold allocationExtent allocationClassExtents
  rw [List.getD_eq_getElem _ _ (by simpa using hi)]
  simp only [List.getElem_map, List.getElem_range]
  rfl

/-- The extent of a class is at least the size of each of its members. -/
theorem size_le_allocationExtent {i : ℕ} (hi : i < problem.buffers.length) :
    (problem.bufferAt i).size ≤ allocationExtent problem i := by
  rw [allocationExtent_eq_getD hi]
  exact (extentsUpTo_spec ((colocationSets problem).root i) problem.buffers.length le_rfl).1 i hi rfl

theorem addressRangesOverlap_self {a s t : UInt64} (hs : s ≠ 0) (ht : t ≠ 0) :
    addressRangesOverlap a s a t = true := by
  by_cases ha : a.toNat + s.toNat < 2 ^ 64 ∧ a.toNat + t.toNat < 2 ^ 64
  · rw [← Bool.not_eq_false, addressRangesOverlap_eq_false_iff hs ht ha.1 ha.2, Apart]
    have := toNat_ne_zero hs
    have := toNat_ne_zero ht
    omega
  · unfold addressRangesOverlap
    rw [if_neg (by simp [hs, ht]), if_pos]
    by_contra hover
    rw [Bool.not_eq_true, Bool.or_eq_false_iff] at hover
    exact ha ⟨(Theory.addOverflows_eq_false_iff a s).mp hover.1,
      (Theory.addOverflows_eq_false_iff a t).mp hover.2⟩

theorem allocationExtent_ne (hw : WellFormed problem) {i : ℕ} (hi : i < problem.buffers.length) :
    allocationExtent problem i ≠ 0 := by
  intro h0
  have hle := size_le_allocationExtent hi
  rw [h0] at hle
  exact hw.sizePos _ (bufferAt_mem hi) (le_antisymm hle (UInt64.le_iff_toNat_le.mpr (Nat.zero_le _)))

/-- The check of two placed buffers. -/
theorem lifetimePairErrors_eq_nil_iff {i j : ℕ} {first second : Placement}
    (hi : solution.find (problem.bufferAt i).id = some first)
    (hj : solution.find (problem.bufferAt j).id = some second) :
    lifetimePairErrors problem solution i j = [] ↔
      ((colocationSets problem).root i ≠ (colocationSets problem).root j →
        (haveTemporalConflict problem (problem.bufferAt i) (problem.bufferAt j) ||
          exclusivelyPinned problem (problem.bufferAt i).id ||
          exclusivelyPinned problem (problem.bufferAt j).id) = true →
        placementsOverlap first (allocationExtent problem i) second
          (allocationExtent problem j) = false) := by
  unfold lifetimePairErrors
  by_cases hroot : (colocationSets problem).root i = (colocationSets problem).root j
  · simp [hroot]
  · rw [if_neg (by simpa using hroot)]
    dsimp only
    split_ifs with hmust
    · rw [Bool.not_eq_true'] at hmust
      simp [hmust]
    · rw [hi, hj]
      simp only [Bool.not_eq_true', Bool.not_eq_false] at hmust
      simp [errorIf_eq_nil, hmust, hroot]

/-- Without colocations every buffer is its own class. -/
theorem root_of_no_colocations (h : problem.colocations = []) (i : ℕ) :
    (colocationSets problem).root i = i := by
  rw [colocationSets, colocationPairs, h]
  exact DisjointSet.root_ofSize _ i

theorem allocationExtent_of_no_colocations (hw : WellFormed problem) (h : problem.colocations = [])
    {i : ℕ} (hi : i < problem.buffers.length) :
    allocationExtent problem i = (problem.bufferAt i).size := by
  have hne := allocationExtent_ne hw hi
  obtain ⟨-, hmem⟩ := extentsUpTo_spec ((colocationSets problem).root i) problem.buffers.length le_rfl
  rw [← allocationExtent_eq_getD hi] at hmem
  rcases hmem with h0 | ⟨j, -, hroot, e⟩
  · exact absurd h0 hne
  · rw [root_of_no_colocations h, root_of_no_colocations h] at hroot
    rw [e, hroot]

/-- The two buffers of a class overlap in every valid solution. -/
theorem SolutionOk.pairOverlaps_of_sameClass (hw : WellFormed problem)
    (hs : SolutionOk problem solution) {first second : BufferId}
    (h : sameClass problem first second = true) :
    pairOverlaps problem solution first second = true := by
  unfold sameClass at h
  cases hi : bufferIndices problem first with
  | none => simp [hi] at h
  | some i =>
      cases hj : bufferIndices problem second with
      | none => simp [hi, hj] at h
      | some j =>
          simp only [hi, hj, beq_iff_eq] at h
          obtain ⟨hilt, rfl⟩ := bufferIndices_lt hi
          obtain ⟨hjlt, rfl⟩ := bufferIndices_lt hj
          obtain ⟨placement, hfind, -⟩ := hs.placed _ (bufferAt_mem hilt)
          have hfind' := hfind
          rw [hs.find_eq_of_root h] at hfind'
          unfold pairOverlaps
          simp only [hi, hj, hfind, hfind', placementsOverlap, beq_self_eq_true, Bool.true_and]
          exact addressRangesOverlap_self (allocationExtent_ne hw hilt) (allocationExtent_ne hw hjlt)

/-- Buffers that are alive together do not overlap in a valid solution, unless colocated. -/
theorem SolutionOk.not_pairOverlaps_of_conflict (hw : WellFormed problem)
    (hs : SolutionOk problem solution) {first second : BufferId}
    (hclass : sameClass problem first second = false)
    (hconflict : pairConflicts problem first second = true) :
    pairOverlaps problem solution first second = false := by
  have key : ∀ i j, i < j → j < problem.buffers.length →
      sameClass problem (problem.bufferAt i).id (problem.bufferAt j).id = false →
      pairConflicts problem (problem.bufferAt i).id (problem.bufferAt j).id = true →
      pairOverlaps problem solution (problem.bufferAt i).id (problem.bufferAt j).id = false := by
    intro i j hij hj hclass hconflict
    have hi : i < problem.buffers.length := hij.trans hj
    have h := hs.lifetimes i j hij hj
    unfold sameClass at hclass
    unfold pairConflicts at hconflict
    simp only [bufferIndices_bufferAt hw.bufferIds hi, bufferIndices_bufferAt hw.bufferIds hj]
      at hclass
    simp only [findBuffer_bufferAt hw.bufferIds hi, findBuffer_bufferAt hw.bufferIds hj]
      at hconflict
    obtain ⟨pi, hpi, -⟩ := hs.placed _ (bufferAt_mem hi)
    obtain ⟨pj, hpj, -⟩ := hs.placed _ (bufferAt_mem hj)
    unfold lifetimePairErrors at h
    rw [if_neg (by simpa using hclass)] at h
    simp only [hconflict, Bool.true_or, Bool.not_true, Bool.false_eq_true, if_false, hpi, hpj,
      errorIf_eq_nil] at h
    unfold pairOverlaps
    simp only [hpi, hpj, bufferIndices_bufferAt hw.bufferIds hi,
      bufferIndices_bufferAt hw.bufferIds hj, h]
  unfold pairConflicts at hconflict
  cases hb1 : problem.findBuffer first with
  | none => simp [hb1] at hconflict
  | some b1 =>
      cases hb2 : problem.findBuffer second with
      | none => simp [hb1, hb2] at hconflict
      | some b2 =>
          obtain ⟨i, hi, rfl⟩ := findBuffer_isSome_iff.mp (Option.isSome_of_eq_some hb1)
          obtain ⟨j, hj, rfl⟩ := findBuffer_isSome_iff.mp (Option.isSome_of_eq_some hb2)
          have hconflict' : pairConflicts problem (problem.bufferAt i).id (problem.bufferAt j).id
              = true := by
            unfold pairConflicts
            simpa [hb1, hb2] using hconflict
          rcases Nat.lt_trichotomy i j with hij | rfl | hij
          · exact key i j hij hj hclass hconflict'
          · simp [sameClass, bufferIndices_bufferAt hw.bufferIds hi] at hclass
          · rw [pairOverlaps_comm]
            exact key j i hij hi (by rwa [sameClass_comm]) (by rwa [pairConflicts_comm])

end pairs

/-! ### The checks of a separation -/

/-- The endpoints are one buffer or a colocation record joins them. -/
def joined (problem : DsaProblem) (first second : BufferId) : Bool :=
  first == second || (colocatedKeys problem).contains (minmax first second)

theorem separationReasonErrors_eq_nil_iff {constraint : Separation}
    {seen reasons : List SeparationReason} :
    separationReasonErrors constraint seen reasons = [] ↔
      (∀ reason ∈ reasons, reason ∉ seen) ∧ reasons.Nodup := by
  induction reasons generalizing seen with
  | nil => simp [separationReasonErrors]
  | cons reason rest ih =>
      unfold separationReasonErrors
      rw [List.append_eq_nil_iff, errorIf_eq_nil, ih, List.nodup_cons]
      simp only [List.mem_cons, not_or, List.contains_eq_mem, decide_eq_false_iff_not,
        forall_eq_or_imp]
      grind

theorem separationErrors_eq_nil_iff {problem : DsaProblem} {constraint : Separation} :
    separationErrors problem constraint = [] ↔
      (knownBuffer problem constraint.first = true ∧ knownBuffer problem constraint.second = true ∧
        joined problem constraint.first constraint.second = false) ∧ constraint.reasons.Nodup := by
  unfold separationErrors joined minmax
  split_ifs with hknown
  · simp only [false_iff]
    rintro ⟨⟨h1, h2, -⟩, -⟩
    simp [h1, h2] at hknown
  · rw [List.append_eq_nil_iff, errorIf_eq_nil, separationReasonErrors_eq_nil_iff]
    simp only [Bool.or_eq_true, Bool.not_eq_true', not_or, Bool.not_eq_false] at hknown
    simp [hknown.1, hknown.2]

theorem joined_comm (problem : DsaProblem) (first second : BufferId) :
    joined problem first second = joined problem second first := by
  unfold joined minmax
  rw [min_comm first, max_comm first, BEq.comm]

/-! ### Problems with the same hard structure -/

/-- The problem with other separations, costs and objective. -/
def DsaProblem.withSoft (problem : DsaProblem) (separations : List Separation)
    (costModel : Option CostModel) (objective : ObjectiveSpec) : DsaProblem :=
  { problem with separations := separations, costModel := costModel, objective := objective }

/-- Every constraint but the separations. -/
def HardOk (problem : DsaProblem) (solution : DsaSolution) : Prop :=
  SolutionOk (problem.withSoft [] none problem.objective) solution

section withSoft

variable {problem : DsaProblem} {separations : List Separation} {costModel : Option CostModel}
  {objective : ObjectiveSpec} {solution : DsaSolution}

theorem pinnedErrors_withSoft (ids : List BufferId) (pins : List PinnedAllocation) :
    pinnedErrors (problem.withSoft separations costModel objective) ids pins =
      pinnedErrors problem ids pins := by
  induction pins generalizing ids with
  | nil => rfl
  | cons pinned rest ih =>
      unfold pinnedErrors
      simp only [ih]
      rfl

theorem pyptoErrors_withSoft :
    pyptoErrors (problem.withSoft separations costModel objective) = pyptoErrors problem := by
  have haliases : ∀ seen classes,
      aliasClassErrors (problem.withSoft separations costModel objective) seen classes =
        aliasClassErrors problem seen classes := by
    intro seen classes
    induction classes generalizing seen with
    | nil => rfl
    | cons aliasClass rest ih =>
        unfold aliasClassErrors
        rw [ih]
        rfl
  have hmembers : ∀ group seen residues members,
      pipelineMemberErrors (problem.withSoft separations costModel objective) group seen residues
          members = pipelineMemberErrors problem group seen residues members := by
    intro group seen residues members
    induction members generalizing seen residues with
    | nil => rfl
    | cons member rest ih =>
        unfold pipelineMemberErrors
        simp only [ih]
        rfl
  have hgroups : ∀ seen groups,
      pipelineGroupErrors (problem.withSoft separations costModel objective) seen groups =
        pipelineGroupErrors problem seen groups := by
    intro seen groups
    induction groups generalizing seen with
    | nil => rfl
    | cons group rest ih =>
        unfold pipelineGroupErrors
        rw [ih, hmembers]
        rfl
  unfold pyptoErrors
  simp only [haliases, hgroups]
  rfl

/-- The hard structure of a valid problem stays valid. -/
theorem validateProblem_withSoft_iff (h : validateProblem problem = []) :
    validateProblem (problem.withSoft separations costModel objective) = [] ↔
      (∀ constraint ∈ separations, separationErrors problem constraint = []) ∧
        (∀ penalty ∈ (problem.withSoft separations costModel objective).reusePenalties,
          reusePenaltyErrors problem penalty = []) ∧
        objective.terms ≠ [] ∧ objectiveTermErrors [] objective.terms = [] := by
  obtain ⟨hpools, hne, hbuffers, hcoloc, -, htemporal, hpins, -, hpypto, -, -⟩ :=
    (validateProblem_eq_nil_iff problem).mp h
  rw [validateProblem_eq_nil_iff, pinnedErrors_withSoft, pyptoErrors_withSoft]
  constructor
  · exact fun ⟨_, _, _, _, hsep, _, _, hpen, _, hterms, hterm⟩ => ⟨hsep, hpen, hterms, hterm⟩
  · exact fun ⟨hsep, hpen, hterms, hterm⟩ =>
      ⟨hpools, hne, hbuffers, hcoloc, hsep, htemporal, hpins, hpen, hpypto, hterms, hterm⟩

/-- The buffers of the two problems are placed in the same pools. -/
theorem exists_placed_withSoft {separations' : List Separation} {costModel' : Option CostModel}
    {objective' : ObjectiveSpec} {buffer : Buffer}
    (h : ∃ placement, solution.find buffer.id = some placement ∧
      PlacedOk (problem.withSoft separations costModel objective) buffer placement) :
    ∃ placement, solution.find buffer.id = some placement ∧
      PlacedOk (problem.withSoft separations' costModel' objective') buffer placement := by
  obtain ⟨placement, hfind, hok⟩ := h
  exact ⟨placement, hfind, hok.allowed, hok.aligned, hok.noOverflow, hok.address⟩

/-- A placement of the problem with other separations. -/
theorem solutionOk_withSoft_iff :
    SolutionOk (problem.withSoft separations costModel objective) solution ↔
      HardOk problem solution ∧
        ∀ constraint ∈ separations,
          pairOverlaps problem solution constraint.first constraint.second = false := by
  constructor
  · intro h
    exact ⟨⟨h.known, fun b hb => exists_placed_withSoft (h.placed b hb), h.colocated, h.lifetimes,
      fun _ hc => absurd hc List.not_mem_nil,
      h.pinned⟩, fun c hc => separatedPlacementErrors_eq_nil_iff.mp (h.separated c hc)⟩
  · rintro ⟨h, hsep⟩
    exact ⟨h.known, fun b hb => exists_placed_withSoft (h.placed b hb), h.colocated, h.lifetimes,
      fun c hc => separatedPlacementErrors_eq_nil_iff.mpr (hsep c hc), h.pinned⟩

theorem solutionOk_iff_hardOk :
    SolutionOk problem solution ↔ HardOk problem solution ∧
      ∀ constraint ∈ problem.separations,
        pairOverlaps problem solution constraint.first constraint.second = false :=
  @solutionOk_withSoft_iff problem problem.separations problem.costModel problem.objective solution

theorem WellFormed.hard (hw : WellFormed problem) :
    WellFormed (problem.withSoft [] none problem.objective) :=
  { hw with
    separations := fun _ h => absurd h List.not_mem_nil
    penalties := fun _ h => absurd h List.not_mem_nil }

theorem HardOk.pairOverlaps_of_sameClass (hw : WellFormed problem) (hs : HardOk problem solution)
    {first second : BufferId} (h : sameClass problem first second = true) :
    pairOverlaps problem solution first second = true :=
  SolutionOk.pairOverlaps_of_sameClass hw.hard hs h

theorem HardOk.not_pairOverlaps_of_conflict (hw : WellFormed problem) (hs : HardOk problem solution)
    {first second : BufferId} (hclass : sameClass problem first second = false)
    (hconflict : pairConflicts problem first second = true) :
    pairOverlaps problem solution first second = false :=
  SolutionOk.not_pairOverlaps_of_conflict hw.hard hs hclass hconflict

/-- In a placement an unpaid pair of two classes is apart. -/
theorem HardOk.penaltyPaid_eq (hw : WellFormed problem) (hs : HardOk problem solution)
    {penalty : ReusePenalty} (hclass : sameClass problem penalty.first penalty.second = false) :
    penaltyPaid problem solution penalty =
      pairOverlaps problem solution penalty.first penalty.second := by
  rw [Dsa.penaltyPaid_eq, hclass]
  cases hconflict : pairConflicts problem penalty.first penalty.second with
  | false => simp
  | true => simp [hs.not_pairOverlaps_of_conflict hw hclass hconflict]

end withSoft

end Dsa
