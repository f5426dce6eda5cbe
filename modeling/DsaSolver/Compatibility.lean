import DsaSolver.Validator

/-! # Capabilities of a solver

`solver.h` and `CheckSolverCompatibility`: the features and objective metrics a problem needs
that a solver does not support. -/

namespace Dsa

structure SolverCapabilities where
  multiInterval : Bool := false
  reuseCost : Bool := false
  bankCost : Bool := false
  colocations : Bool := false
  separations : Bool := false
  temporalExclusions : Bool := false
  pinnedAllocations : Bool := false
  reservedRanges : Bool := false
  multiPool : Bool := false
  flexiblePoolAssignment : Bool := false
  lexicographicObjective : Bool := false
  capacityObjective : Bool := false
  peakObjective : Bool := false
deriving DecidableEq, Repr

structure SolverCompatibility where
  requiredFeatures : List String := []
  unsupportedFeatures : List String := []
  unsupportedObjectives : List String := []
deriving DecidableEq, Repr

/-- `SolverCompatibility::Compatible`. -/
def SolverCompatibility.compatible (report : SolverCompatibility) : Bool :=
  report.unsupportedFeatures.isEmpty && report.unsupportedObjectives.isEmpty

def addUnique (values : List String) (value : String) : List String :=
  if values.contains value then values else values ++ [value]

def requireFeature (present supported : Bool) (name : String) (report : SolverCompatibility) :
    SolverCompatibility :=
  if !present then report
  else
    { report with
      requiredFeatures := addUnique report.requiredFeatures name
      unsupportedFeatures :=
        if supported then report.unsupportedFeatures
        else addUnique report.unsupportedFeatures name }

/-- The `switch` over the metrics. -/
def SolverCapabilities.supportsMetric (capabilities : SolverCapabilities) : ObjectiveMetric → Bool
  | .capacityOverflow => capabilities.capacityObjective
  | .totalPeak => capabilities.peakObjective
  | .maxPeak => capabilities.peakObjective
  | .reuseCost => capabilities.reuseCost
  | .bankCost => capabilities.bankCost

def requireMetric (capabilities : SolverCapabilities) (report : SolverCompatibility)
    (metric : ObjectiveMetric) : SolverCompatibility :=
  if capabilities.supportsMetric metric then report
  else
    { report with
      unsupportedObjectives :=
        addUnique report.unsupportedObjectives ("metric:" ++ metric.toString) }

/-- The features of a problem, the flexible pools last. -/
def requireFeatures (problem : DsaProblem) (capabilities : SolverCapabilities) :
    SolverCompatibility :=
  let multiInterval := problem.buffers.any fun buffer => decide (buffer.liveIntervals.length > 1)
  let flexiblePool := problem.buffers.any fun buffer => decide (buffer.allowedPools.length > 1)
  let reserved := problem.pools.any fun pool => !pool.reservedRanges.isEmpty
  requireFeature flexiblePool capabilities.flexiblePoolAssignment "flexible_pool_assignment" <|
  requireFeature (decide (problem.pools.length > 1)) capabilities.multiPool "multi_pool" <|
  requireFeature reserved capabilities.reservedRanges "reserved_ranges" <|
  requireFeature (!problem.pinnedAllocations.isEmpty) capabilities.pinnedAllocations
    "pinned_allocations" <|
  requireFeature (!problem.temporalExclusions.isEmpty) capabilities.temporalExclusions
    "temporal_exclusions" <|
  requireFeature (!problem.separations.isEmpty) capabilities.separations "separations" <|
  requireFeature (!problem.colocations.isEmpty) capabilities.colocations "colocations" <|
  requireFeature multiInterval capabilities.multiInterval "multi_interval" {}

/-- `CheckSolverCompatibility`. -/
def checkSolverCompatibility (problem : DsaProblem) (capabilities : SolverCapabilities) :
    SolverCompatibility :=
  let features := requireFeatures problem capabilities
  let reuse := requireFeature (!problem.reusePenalties.isEmpty) true "reuse_penalties" features
  let banks := requireFeature (problem.pools.any fun pool => pool.bankGeometry.isSome) true
    "bank_geometry" reuse
  let aggregation :=
    if problem.objective.aggregation == .lexicographic && !capabilities.lexicographicObjective then
      { banks with
        unsupportedObjectives := addUnique banks.unsupportedObjectives "aggregation:lexicographic" }
    else banks
  problem.objective.terms.foldl (requireMetric capabilities) aggregation

/-! ### What a compatible problem lacks -/

theorem subset_addUnique (values : List String) (value : String) :
    values ⊆ addUnique values value := by
  unfold addUnique
  split_ifs
  · exact List.Subset.refl _
  · exact List.subset_append_left _ _

theorem mem_addUnique (values : List String) (value : String) : value ∈ addUnique values value := by
  unfold addUnique
  split_ifs with h
  · exact List.contains_iff_mem.mp h
  · exact List.mem_append_right _ List.mem_cons_self

theorem subset_requireFeature (present supported : Bool) (name : String)
    (report : SolverCompatibility) : report.unsupportedFeatures ⊆
      (requireFeature present supported name report).unsupportedFeatures := by
  unfold requireFeature
  split_ifs
  · exact List.Subset.refl _
  · exact List.Subset.refl _
  · exact subset_addUnique _ _

theorem requireFeature_eq_nil {present supported : Bool} {name : String}
    {report : SolverCompatibility}
    (h : (requireFeature present supported name report).unsupportedFeatures = []) :
    report.unsupportedFeatures = [] ∧ (supported = false → present = false) := by
  refine ⟨List.eq_nil_iff_forall_not_mem.mpr fun feature hmem => ?_, fun hsupported => ?_⟩
  · have := subset_requireFeature present supported name report hmem
    rw [h] at this
    cases this
  · by_contra hpresent
    rw [Bool.not_eq_false] at hpresent
    have hmem : name ∈ (requireFeature present supported name report).unsupportedFeatures := by
      simp [requireFeature, hpresent, hsupported, mem_addUnique]
    rw [h] at hmem
    cases hmem

theorem foldl_requireMetric_features (capabilities : SolverCapabilities)
    (terms : List ObjectiveMetric) (report : SolverCompatibility) :
    (terms.foldl (requireMetric capabilities) report).unsupportedFeatures =
      report.unsupportedFeatures := by
  induction terms generalizing report with
  | nil => rfl
  | cons metric rest ih =>
      rw [List.foldl_cons, ih]
      unfold requireMetric
      split_ifs <;> rfl

/-- A compatible problem uses no feature the solver lacks. -/
theorem requireFeatures_of_compatible {problem : DsaProblem} {capabilities : SolverCapabilities}
    (h : (checkSolverCompatibility problem capabilities).compatible = true) :
    (requireFeatures problem capabilities).unsupportedFeatures = [] := by
  unfold SolverCompatibility.compatible at h
  rw [Bool.and_eq_true, List.isEmpty_iff] at h
  obtain ⟨hfeatures, -⟩ := h
  unfold checkSolverCompatibility at hfeatures
  dsimp only at hfeatures
  rw [foldl_requireMetric_features] at hfeatures
  split_ifs at hfeatures
  · exact (requireFeature_eq_nil (requireFeature_eq_nil hfeatures).1).1
  · exact (requireFeature_eq_nil (requireFeature_eq_nil hfeatures).1).1

/-- Without support for pins, a compatible problem has none. -/
theorem noPins_of_compatible {problem : DsaProblem} {capabilities : SolverCapabilities}
    (h : (checkSolverCompatibility problem capabilities).compatible = true)
    (hpins : capabilities.pinnedAllocations = false) : problem.pinnedAllocations = [] := by
  have hnil := requireFeatures_of_compatible h
  unfold requireFeatures at hnil
  dsimp only at hnil
  obtain ⟨hnil, -⟩ := requireFeature_eq_nil hnil
  obtain ⟨hnil, -⟩ := requireFeature_eq_nil hnil
  obtain ⟨hnil, -⟩ := requireFeature_eq_nil hnil
  obtain ⟨-, hpresent⟩ := requireFeature_eq_nil hnil
  simpa using hpresent hpins

end Dsa
