import DsaSolver.ColocationClasses
import DsaSolver.Pairs
import DsaSolver.ReuseGeometry

/-! # The classes of a placement

A valid solution gives the buffers of a colocation class one placement, so it is a placement of
the class roots (`PlacedBy`), and `validateSolution` accepts it exactly when that placement of
the roots meets `ClassesOk` (`validateSolution_iff_classesOk`).  `BuildNodes` makes one node of
each class (`buildNodes_eq`) and `NodesToSolution` puts the nodes back (`placedBy_nodesOf`). -/

namespace Dsa

namespace ReuseGeometry

open Theory (addOverflows)

variable {problem : DsaProblem}

/-! ### Roots and members -/

/-- The root of the class of a buffer. -/
def rootOf (problem : DsaProblem) (i : ℕ) : ℕ := (colocationSets problem).root i

/-- The roots of the problem. -/
def roots (problem : DsaProblem) : List ℕ :=
  classRoots (colocationSets problem) problem.buffers.length

/-- The buffers of a class. -/
def membersOf (problem : DsaProblem) (root : ℕ) : List ℕ :=
  classMembers (colocationSets problem) problem.buffers.length root

theorem mem_membersOf {root i : ℕ} :
    i ∈ membersOf problem root ↔ i < problem.buffers.length ∧ rootOf problem i = root := by
  simp [membersOf, classMembers, rootOf]

theorem rootOf_lt {i : ℕ} (hi : i < problem.buffers.length) :
    rootOf problem i < problem.buffers.length := root_colocationSets_lt hi

theorem rootOf_rootOf (i : ℕ) : rootOf problem (rootOf problem i) = rootOf problem i :=
  DisjointSet.root_eq_of_rootOf (.root ((colocationSets problem).root_fixed i))

theorem rootOf_mem_roots {i : ℕ} (hi : i < problem.buffers.length) :
    rootOf problem i ∈ roots problem := by
  unfold roots classRoots
  rw [List.mem_filter, List.mem_range, List.any_eq_true]
  exact ⟨rootOf_lt hi, i, List.mem_range.mpr hi, beq_self_eq_true _⟩

theorem of_mem_roots {root : ℕ} (h : root ∈ roots problem) :
    root < problem.buffers.length ∧ rootOf problem root = root := by
  unfold roots classRoots at h
  rw [List.mem_filter, List.mem_range, List.any_eq_true] at h
  obtain ⟨hlt, i, -, hroot⟩ := h
  have hroot : rootOf problem i = root := beq_iff_eq.mp hroot
  exact ⟨hlt, by rw [← hroot, rootOf_rootOf]⟩

theorem mem_membersOf_self {root : ℕ} (h : root ∈ roots problem) :
    root ∈ membersOf problem root := mem_membersOf.mpr (of_mem_roots h)

theorem nodup_roots : (roots problem).Nodup := List.nodup_range.filter _

/-- The classes share their extent. -/
theorem allocationExtent_rootOf {i : ℕ} (hi : i < problem.buffers.length) :
    allocationExtent problem (rootOf problem i) = allocationExtent problem i := by
  rw [allocationExtent_eq_getD hi, allocationExtent_eq_getD (rootOf_lt hi)]
  exact congrArg (List.getD _ · 0) (rootOf_rootOf i)

/-! ### Placements of the roots -/

/-- The solution places every buffer where its root is. -/
def PlacedBy (problem : DsaProblem) (solution : DsaSolution) (place : ℕ → Placement) : Prop :=
  ∀ id, solution.find id = (bufferIndices problem id).map fun i => place (rootOf problem i)

theorem PlacedBy.find {solution : DsaSolution} {place : ℕ → Placement}
    (h : PlacedBy problem solution place) (hwf : WellFormed problem) {i : ℕ}
    (hi : i < problem.buffers.length) :
    solution.find (problem.bufferAt i).id = some (place (rootOf problem i)) := by
  rw [h, bufferIndices_bufferAt hwf.bufferIds hi]
  rfl

/-- A valid solution places the classes. -/
theorem SolutionOk.exists_placedBy {solution : DsaSolution} (hs : SolutionOk problem solution) :
    ∃ place, PlacedBy problem solution place := by
  refine ⟨fun r => (solution.find (problem.bufferAt r).id).getD {}, fun id => ?_⟩
  cases hid : bufferIndices problem id with
  | none =>
      cases hfind : solution.find id with
      | none => rfl
      | some placement =>
          have hknown := (hs.known id placement hfind).1
          rw [← isSome_bufferIndices, hid] at hknown
          cases hknown
  | some i =>
      obtain ⟨hi, rfl⟩ := bufferIndices_lt hid
      obtain ⟨placement, hfind, -⟩ := hs.placed _ (bufferAt_mem hi)
      have hroot := hs.find_eq_of_root (rootOf_rootOf i : (colocationSets problem).root _ = _)
      rw [Option.map_some]
      dsimp only
      rw [hroot, hfind]
      rfl

/-- Two classes that may not share addresses. -/
def MustBeApart (problem : DsaProblem) (r s : ℕ) : Prop :=
  ∃ i ∈ membersOf problem r, ∃ j ∈ membersOf problem s,
    (haveTemporalConflict problem (problem.bufferAt i) (problem.bufferAt j) ||
        exclusivelyPinned problem (problem.bufferAt i).id ||
        exclusivelyPinned problem (problem.bufferAt j).id) = true ∨
      ∃ separation ∈ problem.separations,
        (separation.first = (problem.bufferAt i).id ∧ separation.second = (problem.bufferAt j).id) ∨
          (separation.first = (problem.bufferAt j).id ∧
            separation.second = (problem.bufferAt i).id)

theorem MustBeApart.symm {r s : ℕ} (h : MustBeApart problem r s) : MustBeApart problem s r := by
  obtain ⟨i, hi, j, hj, hwhy⟩ := h
  refine ⟨j, hj, i, hi, ?_⟩
  obtain hmust | ⟨separation, hmem, hends⟩ := hwhy
  · rw [haveTemporalConflict_comm, Bool.or_right_comm]
    exact .inl hmust
  · exact .inr ⟨separation, hmem, hends.symm⟩

/-- The classes overlap in the placement of their roots. -/
def classesOverlap (problem : DsaProblem) (place : ℕ → Placement) (r s : ℕ) : Bool :=
  placementsOverlap (place r) (allocationExtent problem r) (place s) (allocationExtent problem s)

/-- What the validator asks of a placement of the roots. -/
structure ClassesOk (problem : DsaProblem) (place : ℕ → Placement) : Prop where
  placed : ∀ i < problem.buffers.length,
    PlacedOk problem (problem.bufferAt i) (place (rootOf problem i))
  apart : ∀ r ∈ roots problem, ∀ s ∈ roots problem, r ≠ s → MustBeApart problem r s →
    classesOverlap problem place r s = false
  separated : ∀ separation ∈ problem.separations, ∀ i < problem.buffers.length,
    ∀ j < problem.buffers.length, (problem.bufferAt i).id = separation.first →
      (problem.bufferAt j).id = separation.second → rootOf problem i ≠ rootOf problem j
  pinned : ∀ pinned ∈ problem.pinnedAllocations, ∀ i < problem.buffers.length,
    (problem.bufferAt i).id = pinned.buffer →
      place (rootOf problem i) = ⟨pinned.pool, pinned.offset⟩

section validity

variable {solution : DsaSolution} {place : ℕ → Placement}

theorem classesOverlap_rootOf {i j : ℕ} (hi : i < problem.buffers.length)
    (hj : j < problem.buffers.length) :
    classesOverlap problem place (rootOf problem i) (rootOf problem j) =
      placementsOverlap (place (rootOf problem i)) (allocationExtent problem i)
        (place (rootOf problem j)) (allocationExtent problem j) := by
  rw [classesOverlap, allocationExtent_rootOf hi, allocationExtent_rootOf hj]

theorem classesOverlap_comm (r s : ℕ) :
    classesOverlap problem place r s = classesOverlap problem place s r :=
  placementsOverlap_comm _ _ _ _

/-- The overlap of two buffers is that of their classes. -/
theorem PlacedBy.pairOverlaps_eq (h : PlacedBy problem solution place) (hwf : WellFormed problem)
    {i j : ℕ} (hi : i < problem.buffers.length) (hj : j < problem.buffers.length) :
    pairOverlaps problem solution (problem.bufferAt i).id (problem.bufferAt j).id =
      classesOverlap problem place (rootOf problem i) (rootOf problem j) := by
  rw [classesOverlap_rootOf hi hj]
  unfold pairOverlaps
  rw [h.find hwf hi, h.find hwf hj, bufferIndices_bufferAt hwf.bufferIds hi,
    bufferIndices_bufferAt hwf.bufferIds hj]

theorem SolutionOk.apart_of_must (hs : SolutionOk problem solution) (hwf : WellFormed problem)
    (h : PlacedBy problem solution place) {i j : ℕ} (hi : i < problem.buffers.length)
    (hj : j < problem.buffers.length) (hne : rootOf problem i ≠ rootOf problem j)
    (hmust : (haveTemporalConflict problem (problem.bufferAt i) (problem.bufferAt j) ||
      exclusivelyPinned problem (problem.bufferAt i).id ||
      exclusivelyPinned problem (problem.bufferAt j).id) = true) :
    classesOverlap problem place (rootOf problem i) (rootOf problem j) = false := by
  have key : ∀ {i j : ℕ}, i < j → j < problem.buffers.length →
      rootOf problem i ≠ rootOf problem j →
      (haveTemporalConflict problem (problem.bufferAt i) (problem.bufferAt j) ||
        exclusivelyPinned problem (problem.bufferAt i).id ||
        exclusivelyPinned problem (problem.bufferAt j).id) = true →
      classesOverlap problem place (rootOf problem i) (rootOf problem j) = false := by
    intro i j hij hj hne hmust
    have hi : i < problem.buffers.length := by omega
    rw [classesOverlap_rootOf hi hj]
    exact (lifetimePairErrors_eq_nil_iff (h.find hwf hi) (h.find hwf hj)).mp
      (hs.lifetimes i j hij hj) hne hmust
  rcases Nat.lt_trichotomy i j with hlt | rfl | hgt
  · exact key hlt hj hne hmust
  · exact absurd rfl hne
  · rw [classesOverlap_comm]
    rw [haveTemporalConflict_comm, Bool.or_right_comm] at hmust
    exact key hgt hi hne.symm hmust

theorem SolutionOk.classesOk (hs : SolutionOk problem solution) (hwf : WellFormed problem)
    (h : PlacedBy problem solution place) : ClassesOk problem place where
  placed i hi := by
    obtain ⟨placement, hfind, hok⟩ := hs.placed _ (bufferAt_mem hi)
    rw [h.find hwf hi] at hfind
    rwa [Option.some.inj hfind]
  apart r _ s _ hne happart := by
    obtain ⟨i, hi, j, hj, hwhy⟩ := happart
    obtain ⟨hilt, rfl⟩ := mem_membersOf.mp hi
    obtain ⟨hjlt, rfl⟩ := mem_membersOf.mp hj
    obtain hmust | ⟨separation, hmem, ⟨hfirst, hsecond⟩ | ⟨hfirst, hsecond⟩⟩ := hwhy
    · exact SolutionOk.apart_of_must hs hwf h hilt hjlt hne hmust
    · have hnone := separatedPlacementErrors_eq_nil_iff.mp (hs.separated separation hmem)
      rwa [hfirst, hsecond, h.pairOverlaps_eq hwf hilt hjlt] at hnone
    · have hnone := separatedPlacementErrors_eq_nil_iff.mp (hs.separated separation hmem)
      rw [classesOverlap_comm]
      rwa [hfirst, hsecond, h.pairOverlaps_eq hwf hjlt hilt] at hnone
  separated separation hmem i hi j hj hfirst hsecond hroot := by
    have hnone := separatedPlacementErrors_eq_nil_iff.mp (hs.separated separation hmem)
    rw [← hfirst, ← hsecond, h.pairOverlaps_eq hwf hi hj, classesOverlap_rootOf hi hj, ← hroot,
      placementsOverlap, beq_self_eq_true, Bool.true_and,
      addressRangesOverlap_self (allocationExtent_ne hwf hi) (allocationExtent_ne hwf hj)] at hnone
    cases hnone
  pinned pinned hmem i hi hid := by
    apply hs.pinned pinned hmem
    rw [← hid]
    exact h.find hwf hi

theorem ClassesOk.solutionOk (hok : ClassesOk problem place) (hwf : WellFormed problem)
    (h : PlacedBy problem solution place) : SolutionOk problem solution where
  known id placement hfind := by
    rw [h, Option.map_eq_some_iff] at hfind
    obtain ⟨i, hid, rfl⟩ := hfind
    obtain ⟨hi, rfl⟩ := bufferIndices_lt hid
    refine ⟨?_, ?_⟩
    · rw [findBuffer_bufferAt hwf.bufferIds hi]
      rfl
    · have hallowed := (hok.placed i hi).allowed
      obtain ⟨pool, hpool⟩ := exists_findPool (hwf.allowedPools _ (bufferAt_mem hi) _ hallowed)
      rw [hpool]
      rfl
  placed buffer hbuffer := by
    obtain ⟨i, hi, rfl⟩ := exists_bufferAt hbuffer
    exact ⟨_, h.find hwf hi, hok.placed i hi⟩
  colocated constraint hc first second hfirst hsecond := by
    obtain ⟨h1, h2⟩ := hwf.colocations constraint hc
    obtain ⟨i, hi, ei, hxi, -⟩ := exists_index_of_known hwf.bufferIds h1
    obtain ⟨j, hj, ej, hxj, -⟩ := exists_index_of_known hwf.bufferIds h2
    have hpair : (i, j) ∈ colocationPairs problem :=
      mem_colocationPairs.mpr ⟨constraint, hc, hxi, hxj⟩
    have hroot : rootOf problem i = rootOf problem j :=
      (DisjointSet.classOf_unionAll_iff colocationPairs_lt i j).mpr (.rel i j hpair)
    rw [← ei, h.find hwf hi, Option.some.injEq] at hfirst
    rw [← ej, h.find hwf hj, Option.some.injEq] at hsecond
    rw [← hfirst, ← hsecond, hroot]
  lifetimes i j hij hj := by
    have hi : i < problem.buffers.length := by omega
    apply (lifetimePairErrors_eq_nil_iff (h.find hwf hi) (h.find hwf hj)).mpr
    intro hne hmust
    rw [← classesOverlap_rootOf hi hj]
    apply hok.apart _ (rootOf_mem_roots hi) _ (rootOf_mem_roots hj) hne
    exact ⟨i, mem_membersOf.mpr ⟨hi, rfl⟩, j, mem_membersOf.mpr ⟨hj, rfl⟩, .inl hmust⟩
  separated separation hmem := by
    obtain ⟨h1, h2⟩ := hwf.separations separation hmem
    obtain ⟨i, hi, ei, -, -⟩ := exists_index_of_known hwf.bufferIds h1
    obtain ⟨j, hj, ej, -, -⟩ := exists_index_of_known hwf.bufferIds h2
    rw [separatedPlacementErrors_eq_nil_iff, ← ei, ← ej, h.pairOverlaps_eq hwf hi hj]
    apply hok.apart _ (rootOf_mem_roots hi) _ (rootOf_mem_roots hj)
      (hok.separated separation hmem i hi j hj ei ej)
    exact ⟨i, mem_membersOf.mpr ⟨hi, rfl⟩, j, mem_membersOf.mpr ⟨hj, rfl⟩,
      .inr ⟨separation, hmem, .inl ⟨ei.symm, ej.symm⟩⟩⟩
  pinned pinned hmem placement hfind := by
    rw [h, Option.map_eq_some_iff] at hfind
    obtain ⟨i, hid, rfl⟩ := hfind
    obtain ⟨hi, hbuffer⟩ := bufferIndices_lt hid
    exact hok.pinned pinned hmem i hi hbuffer

/-- **The validator on the roots.** -/
theorem validateSolution_iff_classesOk (hvalid : validateProblem problem = [])
    (h : PlacedBy problem solution place) :
    validateSolution problem solution = [] ↔ ClassesOk problem place := by
  have hwf := WellFormed.of_validateProblem hvalid
  rw [validateSolution_eq_nil_iff]
  exact ⟨fun hs => SolutionOk.classesOk hs.2 hwf h, fun hok => ⟨hvalid, hok.solutionOk hwf h⟩⟩

end validity

end ReuseGeometry

end Dsa
