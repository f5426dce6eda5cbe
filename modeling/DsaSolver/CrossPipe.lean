import DsaSolver.Pairs
import DsaSolver.Theory.Accumulate

/-! # Cross-pipe reuse variants

`BuildCrossPipeReuseVariants` of `structured_problem.cpp`: one document keeps its `cross_pipe`
penalties (soft), the other turns each of them into a separation (hard).  The two agree on
every placement when no such penalty joins two buffers of one colocation class
(`variantsAgree_iff`). -/

namespace Dsa

/-! ### The transformation -/

/-- The order of the keys `std::pair<BufferId, BufferId>`. -/
abbrev bufferPairCompare : BufferId × BufferId → BufferId × BufferId → Ordering :=
  compareLex (compareOn Prod.fst) (compareOn Prod.snd)

/-- The position of a reason in the enumeration. -/
def SeparationReason.rank : SeparationReason → ℕ
  | .generic => 0
  | .pipelineStage => 1
  | .targetHazard => 2
  | .semanticNoAlias => 3
  | .crossPipe => 4

/-- `insert` into a `std::set<SeparationReason>`, listed in its order. -/
def insertReason (reasons : List SeparationReason) (reason : SeparationReason) :
    List SeparationReason :=
  if reasons.contains reason then reasons
  else reasons.orderedInsert (fun a b => a.rank ≤ b.rank) reason

abbrev SeparationReasons :=
  Std.TreeMap (BufferId × BufferId) (List SeparationReason) bufferPairCompare

/-- `separation_reasons[pair].insert(reasons.begin(), reasons.end())`. -/
def addReasons (reasonsByPair : SeparationReasons)
    (entry : (BufferId × BufferId) × List SeparationReason) : SeparationReasons :=
  reasonsByPair.insert entry.1 (entry.2.foldl insertReason (reasonsByPair.getD entry.1 []))

def DsaProblem.crossPipePenalties (problem : DsaProblem) : List ReusePenalty :=
  problem.reusePenalties.filter fun penalty => penalty.reason == .crossPipe

def DsaProblem.retainedPenalties (problem : DsaProblem) : List ReusePenalty :=
  problem.reusePenalties.filter fun penalty => penalty.reason != .crossPipe

/-- `separation_reasons` after the loop over the separations and the loop over the penalties. -/
def separationReasons (problem : DsaProblem) : SeparationReasons :=
  (problem.crossPipePenalties.map fun penalty =>
      (minmax penalty.first penalty.second, [SeparationReason.crossPipe])).foldl addReasons
    ((problem.separations.map fun separation =>
      (minmax separation.first separation.second, separation.reasons)).foldl addReasons ∅)

/-- The metadata of a variant; `policy` is its `dsa_rp_edge_policy`. -/
def variantMetadata (source : StructuredProblemDocument) (policy : String) : Metadata :=
  let compact := ((source.metadata.erase "recognized_reuse_candidate_records_v1").erase
    "recognized_reuse_candidate_records_v3").erase "recognized_reuse_edge_records_v1"
  (((compact.insert "dsa_rp_source_instance" source.instanceName).insert
    "dsa_rp_cross_pipe_edges" (toString source.problem.crossPipePenalties.length)).insert
    "experimental_features" "recognized_cross_pipe_reuse").insert "dsa_rp_edge_policy" policy

def softVariant (source : StructuredProblemDocument) : StructuredProblemDocument :=
  { source with
    profile := .pyptoResearchV1
    instanceName := source.instanceName ++ "::cross-pipe-soft"
    metadata := variantMetadata source "soft_v1"
    problem := { source.problem with objective := fitThenMinimizeReuseCostObjective } }

def hardProblem (problem : DsaProblem) : DsaProblem :=
  { problem with
    objective := fitThenMinimizeReuseCostObjective
    separations := (separationReasons problem).toList.map fun entry =>
      { first := entry.1.1, second := entry.1.2, reasons := entry.2 }
    costModel :=
      if problem.retainedPenalties.isEmpty then none else some ⟨problem.retainedPenalties⟩ }

def hardVariant (source : StructuredProblemDocument) : StructuredProblemDocument :=
  { source with
    profile := .pyptoResearchV1
    instanceName := source.instanceName ++ "::cross-pipe-hard"
    metadata := variantMetadata source "hard_v1"
    problem := hardProblem source.problem }

structure CrossPipeReuseVariants where
  hard : StructuredProblemDocument
  soft : StructuredProblemDocument
  edgeCount : ℕ

/-- `BuildCrossPipeReuseVariants`. -/
def buildCrossPipeReuseVariants (source : StructuredProblemDocument) :
    Except Exception CrossPipeReuseVariants :=
  match validateStructuredProblemDocument source with
  | error :: _ => .error (.invalidArgument
      ("cross-pipe reuse variants require a valid source document: " ++ error))
  | [] =>
      if !isPyptoProfile source.profile then
        .error (.invalidArgument "cross-pipe reuse variants require a PyPTO source document")
      else if source.problem.costModel.isNone then
        .error (.invalidArgument "cross-pipe reuse variants require recognized reuse penalties")
      else if source.problem.crossPipePenalties.isEmpty then
        .error (.invalidArgument
          "cross-pipe reuse variants require at least one cross_pipe edge")
      else
        match validateStructuredProblemDocument (softVariant source) ++
            validateStructuredProblemDocument (hardVariant source) with
        | error :: _ => .error (.logicError
            ("generated an invalid cross-pipe reuse variant: " ++ error))
        | [] => .ok
            { hard := hardVariant source
              soft := softVariant source
              edgeCount := source.problem.crossPipePenalties.length }

/-! ### The separations of the hard variant -/

theorem nodup_insertReason {reasons : List SeparationReason} (h : reasons.Nodup)
    (reason : SeparationReason) : (insertReason reasons reason).Nodup := by
  unfold insertReason
  split_ifs with hc
  · exact h
  · rw [(List.perm_orderedInsert _ _ _).nodup_iff, List.nodup_cons]
    exact ⟨fun hmem => hc (List.contains_iff_mem.mpr hmem), h⟩

theorem nodup_foldl_insertReason (new : List SeparationReason) {reasons : List SeparationReason}
    (h : reasons.Nodup) : (new.foldl insertReason reasons).Nodup := by
  induction new generalizing reasons with
  | nil => exact h
  | cons reason rest ih => exact ih (nodup_insertReason h reason)

instance : Std.LawfulEqCmp bufferPairCompare where
  eq_of_compare h := by
    obtain ⟨h1, h2⟩ := compareLex_eq_eq.mp h
    exact Prod.ext (Std.LawfulEqCmp.eq_of_compare h1) (Std.LawfulEqCmp.eq_of_compare h2)

/-- The reasons of every pair are distinct. -/
def DistinctReasons (reasonsByPair : SeparationReasons) : Prop :=
  ∀ (pair : BufferId × BufferId) (reasons : List SeparationReason),
    reasonsByPair[pair]? = some reasons → reasons.Nodup

theorem DistinctReasons.addReasons {reasonsByPair : SeparationReasons}
    (h : DistinctReasons reasonsByPair) (entry : (BufferId × BufferId) × List SeparationReason) :
    DistinctReasons (addReasons reasonsByPair entry) := by
  intro pair reasons hget
  rw [Dsa.addReasons, Std.TreeMap.getElem?_insert] at hget
  split_ifs at hget with hc
  · rw [← Option.some.inj hget]
    apply nodup_foldl_insertReason
    rw [Std.TreeMap.getD_eq_getD_getElem?]
    cases hold : reasonsByPair[entry.1]? with
    | none => exact List.nodup_nil
    | some old => exact h _ _ hold
  · exact h _ _ hget

/-- After the loop, the pairs are those of the map before it and those of the entries. -/
theorem foldl_addReasons (entries : List ((BufferId × BufferId) × List SeparationReason))
    {reasonsByPair : SeparationReasons} (h : DistinctReasons reasonsByPair) :
    DistinctReasons (entries.foldl addReasons reasonsByPair) ∧
      ∀ pair, pair ∈ entries.foldl addReasons reasonsByPair ↔
        pair ∈ reasonsByPair ∨ ∃ entry ∈ entries, entry.1 = pair := by
  induction entries generalizing reasonsByPair with
  | nil => simpa using h
  | cons entry rest ih =>
      obtain ⟨hdistinct, hmem⟩ := ih (h.addReasons entry)
      refine ⟨hdistinct, fun pair => ?_⟩
      rw [List.foldl_cons, hmem, Dsa.addReasons, Std.TreeMap.mem_insert,
        Std.LawfulEqCmp.compare_eq_iff_eq, List.exists_mem_cons_iff]
      tauto

theorem separationReasons_spec (problem : DsaProblem) :
    DistinctReasons (separationReasons problem) ∧
      ∀ pair, pair ∈ separationReasons problem ↔
        (∃ separation ∈ problem.separations, minmax separation.first separation.second = pair) ∨
          ∃ penalty ∈ problem.crossPipePenalties, minmax penalty.first penalty.second = pair := by
  have hempty : DistinctReasons ∅ := fun pair reasons hget => by simp at hget
  obtain ⟨h1, hmem1⟩ := foldl_addReasons (problem.separations.map fun separation =>
    (minmax separation.first separation.second, separation.reasons)) hempty
  obtain ⟨h2, hmem2⟩ := foldl_addReasons (problem.crossPipePenalties.map fun penalty =>
    (minmax penalty.first penalty.second, [SeparationReason.crossPipe])) h1
  refine ⟨h2, fun pair => ?_⟩
  rw [separationReasons, hmem2, hmem1]
  simp

/-- A property of the pairs that ignores their order holds of the separations of the hard
variant when it holds of the separations and of the `cross_pipe` penalties of the source. -/
theorem forall_hard_separations_iff {problem : DsaProblem} {P : BufferId → BufferId → Prop}
    (hcomm : ∀ a b, P a b ↔ P b a) :
    (∀ separation ∈ (hardProblem problem).separations, P separation.first separation.second) ↔
      (∀ separation ∈ problem.separations, P separation.first separation.second) ∧
        ∀ penalty ∈ problem.crossPipePenalties, P penalty.first penalty.second := by
  obtain ⟨-, hmem⟩ := separationReasons_spec problem
  have hminmax := minmax_iff hcomm
  constructor
  · intro h
    have hpair : ∀ pair, pair ∈ separationReasons problem → P pair.1 pair.2 := by
      intro pair hp
      obtain ⟨reasons, hget⟩ := Option.isSome_iff_exists.mp (Std.TreeMap.mem_iff_isSome_getElem?.mp hp)
      refine h { first := pair.1, second := pair.2, reasons := reasons }
        (List.mem_map.mpr ⟨(pair, reasons), ?_, rfl⟩)
      exact Std.TreeMap.mem_toList_iff_getElem?_eq_some.mpr hget
    exact ⟨fun s hs => (hminmax _ _).mp (hpair _ ((hmem _).mpr (.inl ⟨s, hs, rfl⟩))),
      fun p hp => (hminmax _ _).mp (hpair _ ((hmem _).mpr (.inr ⟨p, hp, rfl⟩)))⟩
  · rintro ⟨hsep, hpen⟩ separation hs
    obtain ⟨⟨pair, reasons⟩, he, rfl⟩ := List.mem_map.mp hs
    have hget := Std.TreeMap.mem_toList_iff_getElem?_eq_some.mp he
    have hp : pair ∈ separationReasons problem :=
      Std.TreeMap.mem_iff_isSome_getElem?.mpr (Option.isSome_of_eq_some hget)
    rcases (hmem pair).mp hp with ⟨s, hmems, rfl⟩ | ⟨p, hmemp, rfl⟩
    · exact (hminmax _ _).mpr (hsep s hmems)
    · exact (hminmax _ _).mpr (hpen p hmemp)

/-! ### Validity of the variants -/

section variants

variable {source : StructuredProblemDocument}

theorem reusePenalties_hardProblem (problem : DsaProblem) :
    (hardProblem problem).reusePenalties = problem.retainedPenalties := by
  unfold hardProblem DsaProblem.reusePenalties
  cases h : problem.retainedPenalties <;> simp

theorem hardProblem_eq (problem : DsaProblem) :
    hardProblem problem = problem.withSoft (hardProblem problem).separations
      (hardProblem problem).costModel fitThenMinimizeReuseCostObjective := rfl

theorem hasPyptoMetadata_variantMetadata (source : StructuredProblemDocument) (policy : String) :
    HasPyptoMetadata (variantMetadata source policy) ↔ HasPyptoMetadata source.metadata := by
  unfold HasPyptoMetadata variantMetadata
  simp [Std.ExtTreeMap.getElem?_insert, Std.ExtTreeMap.getElem?_erase]

theorem append_ne_empty (s : String) {t : String} (h : t ≠ "") : s ++ t ≠ "" := by
  intro e
  exact h (String.append_eq_empty_iff.mp e).2

theorem validateProblem_soft (h : validateProblem source.problem = []) :
    validateProblem (softVariant source).problem = [] := by
  obtain ⟨-, -, -, -, hsep, -, -, hpen, -, -, -⟩ := (validateProblem_eq_nil_iff _).mp h
  exact (validateProblem_withSoft_iff h).mpr ⟨hsep, hpen, by decide, by decide⟩

/-- The hard variant is valid when no `cross_pipe` penalty joins colocated endpoints. -/
theorem validateProblem_hard_iff (h : validateProblem source.problem = []) :
    validateProblem (hardVariant source).problem = [] ↔
      ∀ penalty ∈ source.problem.crossPipePenalties,
        joined source.problem penalty.first penalty.second = false := by
  obtain ⟨-, -, -, -, hsep, -, -, hpen, -, -, -⟩ := (validateProblem_eq_nil_iff _).mp h
  have hretained : ∀ penalty ∈ (hardProblem source.problem).reusePenalties,
      reusePenaltyErrors source.problem penalty = [] := by
    intro penalty hp
    rw [reusePenalties_hardProblem] at hp
    exact hpen penalty (List.mem_of_mem_filter hp)
  obtain ⟨hdistinct, -⟩ := separationReasons_spec source.problem
  have hnodup : ∀ separation ∈ (hardProblem source.problem).separations,
      separation.reasons.Nodup := by
    intro separation hs
    obtain ⟨⟨pair, reasons⟩, he, rfl⟩ := List.mem_map.mp hs
    exact hdistinct pair reasons (Std.TreeMap.mem_toList_iff_getElem?_eq_some.mp he)
  have hpairs : ∀ separation, separationErrors source.problem separation = [] ↔
      (knownBuffer source.problem separation.first = true ∧
        knownBuffer source.problem separation.second = true ∧
        joined source.problem separation.first separation.second = false) ∧
      separation.reasons.Nodup := fun _ => separationErrors_eq_nil_iff
  have hcross := @forall_hard_separations_iff source.problem
    (fun first second => knownBuffer source.problem first = true ∧
      knownBuffer source.problem second = true ∧ joined source.problem first second = false)
    (fun a b => by rw [joined_comm]; tauto)
  rw [show (hardVariant source).problem = _ from hardProblem_eq source.problem,
    validateProblem_withSoft_iff h]
  constructor
  · rintro ⟨hall, -⟩ penalty hp
    exact ((hcross.mp fun s hs => ((hpairs s).mp (hall s hs)).1).2 penalty hp).2.2
  · intro hjoined
    refine ⟨fun s hs => (hpairs s).mpr ⟨hcross.mpr ⟨fun s hs => ((hpairs s).mp (hsep s hs)).1,
      fun p hp => ?_⟩ s hs, hnodup s hs⟩, hretained, by decide, by decide⟩
    have hknown := hpen p (List.mem_of_mem_filter hp)
    simp only [reusePenaltyErrors, errorIf_eq_nil, Bool.or_eq_false_iff, Bool.not_eq_false'] at hknown
    exact ⟨hknown.1, hknown.2, hjoined p hp⟩

/-- The builder returns exactly when both variants are valid. -/
theorem buildCrossPipeReuseVariants_eq_ok_iff
    (hvalid : validateStructuredProblemDocument source = [])
    (hprofile : isPyptoProfile source.profile = true)
    (hedge : source.problem.crossPipePenalties ≠ []) {variants : CrossPipeReuseVariants} :
    buildCrossPipeReuseVariants source = .ok variants ↔
      (HasPyptoMetadata source.metadata ∧ ∀ penalty ∈ source.problem.crossPipePenalties,
        joined source.problem penalty.first penalty.second = false) ∧
      variants = ⟨hardVariant source, softVariant source,
        source.problem.crossPipePenalties.length⟩ := by
  obtain ⟨hversion, -, hfrom, hfeatures⟩ := envelope_of_pypto hvalid hprofile
  have hproblem := validateProblem_of_document hvalid
  have hcosts : source.problem.costModel.isNone = false := by
    cases hc : source.problem.costModel with
    | some costs => rfl
    | none => simp [DsaProblem.crossPipePenalties, DsaProblem.reusePenalties, hc] at hedge
  have hsoft : validateStructuredProblemDocument (softVariant source) = [] ↔
      HasPyptoMetadata source.metadata := by
    rw [validate_research_eq_nil_iff rfl]
    refine ⟨fun h => (hasPyptoMetadata_variantMetadata source _).mp h.2.2.2.2.2, fun h =>
      ⟨hversion, append_ne_empty _ (by decide), validateProblem_soft hproblem, hfrom, hfeatures,
        (hasPyptoMetadata_variantMetadata source _).mpr h⟩⟩
  have hhard : validateStructuredProblemDocument (hardVariant source) = [] ↔
      HasPyptoMetadata source.metadata ∧ ∀ penalty ∈ source.problem.crossPipePenalties,
        joined source.problem penalty.first penalty.second = false := by
    rw [validate_research_eq_nil_iff rfl, validateProblem_hard_iff hproblem]
    refine ⟨fun h => ⟨(hasPyptoMetadata_variantMetadata source _).mp h.2.2.2.2.2, h.2.2.1⟩,
      fun h => ⟨hversion, append_ne_empty _ (by decide), h.2, hfrom, hfeatures,
        (hasPyptoMetadata_variantMetadata source _).mpr h.1⟩⟩
  unfold buildCrossPipeReuseVariants
  simp only [hvalid, hprofile, hcosts, Bool.not_true, Bool.false_eq_true, if_false,
    List.isEmpty_iff, hedge]
  cases hboth : validateStructuredProblemDocument (softVariant source) ++
      validateStructuredProblemDocument (hardVariant source) with
  | nil =>
      rw [List.append_eq_nil_iff, hhard] at hboth
      simp only [Except.ok.injEq, hboth.2]
      exact ⟨fun h => ⟨⟨trivial, hboth.2.2⟩, h.symm⟩, fun h => h.2.symm⟩
  | cons error rest =>
      simp only [reduceCtorEq, false_iff]
      rintro ⟨hok, -⟩
      rw [hsoft.mpr hok.1, hhard.mpr hok] at hboth
      cases hboth

/-! ### The variants agree -/

/-- A placement pays no `cross_pipe` penalty. -/
def AvoidsCrossPipe (problem : DsaProblem) (solution : DsaSolution) : Prop :=
  ∀ penalty ∈ problem.crossPipePenalties, penaltyPaid problem solution penalty = false

/-- Both variants are returned; the placements of the hard one are those of the soft one that
pay no `cross_pipe` penalty, at the same reuse cost. -/
def VariantsAgree (source : StructuredProblemDocument) : Prop :=
  ∃ variants, buildCrossPipeReuseVariants source = .ok variants ∧ ∀ solution,
    (validateSolution variants.hard.problem solution = [] ↔
      validateSolution variants.soft.problem solution = [] ∧
        AvoidsCrossPipe variants.soft.problem solution) ∧
    (validateSolution variants.hard.problem solution = [] →
      (evaluateObjective variants.hard.problem solution).reuseCost =
        (evaluateObjective variants.soft.problem solution).reuseCost)

theorem validateSolution_soft_iff (h : validateProblem source.problem = [])
    (solution : DsaSolution) : validateSolution (softVariant source).problem solution = [] ↔
      validateSolution source.problem solution = [] := by
  have hframe := @solutionOk_withSoft_iff source.problem source.problem.separations
    source.problem.costModel fitThenMinimizeReuseCostObjective solution
  rw [validateSolution_eq_nil_iff, validateSolution_eq_nil_iff, validateProblem_soft h, h]
  exact and_congr_right fun _ => hframe.trans solutionOk_iff_hardOk.symm

/-- The hard variant asks in addition that the `cross_pipe` pairs be apart. -/
theorem validateSolution_hard_iff (h : validateProblem source.problem = [])
    (hjoined : ∀ penalty ∈ source.problem.crossPipePenalties,
      joined source.problem penalty.first penalty.second = false) (solution : DsaSolution) :
    validateSolution (hardVariant source).problem solution = [] ↔
      validateSolution source.problem solution = [] ∧
        ∀ penalty ∈ source.problem.crossPipePenalties,
          pairOverlaps source.problem solution penalty.first penalty.second = false := by
  have hpairs := @forall_hard_separations_iff source.problem
    (fun first second => pairOverlaps source.problem solution first second = false)
    (fun a b => by rw [pairOverlaps_comm])
  rw [validateSolution_eq_nil_iff, (validateProblem_hard_iff h).mpr hjoined,
    show (hardVariant source).problem = _ from hardProblem_eq source.problem,
    solutionOk_withSoft_iff, hpairs, validateSolution_eq_nil_iff, h, solutionOk_iff_hardOk]
  simp only [true_and, and_assoc]

/-- Dropping penalties that are not paid leaves the reuse cost as it is. -/
theorem reuseCost_hard (solution : DsaSolution) (h : AvoidsCrossPipe source.problem solution) :
    (evaluateObjective (hardVariant source).problem solution).reuseCost =
      (evaluateObjective (softVariant source).problem solution).reuseCost := by
  show (hardProblem source.problem).reusePenalties.foldl _ _ =
    source.problem.reusePenalties.foldl _ _
  rw [reusePenalties_hardProblem, DsaProblem.retainedPenalties, List.foldl_filter]
  refine List.foldl_ext _ _ _ fun cost penalty hp => ?_
  by_cases hcross : penalty.reason = .crossPipe
  · have hunpaid : penaltyPaid (softVariant source).problem solution penalty = false :=
      h penalty (List.mem_filter.mpr ⟨hp, by simpa using hcross⟩)
    simp [hcross, hunpaid]
  · rw [if_pos (by simpa using hcross)]
    rfl

/-- **The variants agree** exactly when the document has the metadata of the research profile,
no `cross_pipe` penalty joins directly colocated endpoints, and either none joins two buffers
of one class or no valid placement of the source avoids them all. -/
theorem variantsAgree_iff (source : StructuredProblemDocument)
    (hvalid : validateStructuredProblemDocument source = [])
    (hprofile : isPyptoProfile source.profile = true)
    (hedge : source.problem.crossPipePenalties ≠ []) :
    VariantsAgree source ↔
      (HasPyptoMetadata source.metadata ∧ ∀ penalty ∈ source.problem.crossPipePenalties,
        joined source.problem penalty.first penalty.second = false) ∧
      ((∀ penalty ∈ source.problem.crossPipePenalties,
          sameClass source.problem penalty.first penalty.second = false) ∨
        ∀ solution, validateSolution source.problem solution = [] →
          ¬ AvoidsCrossPipe source.problem solution) := by
  have hproblem := validateProblem_of_document hvalid
  have hw := WellFormed.of_validateProblem hproblem
  unfold VariantsAgree
  constructor
  · rintro ⟨variants, hbuilt, hagree⟩
    obtain ⟨hok, rfl⟩ := (buildCrossPipeReuseVariants_eq_ok_iff hvalid hprofile hedge).mp hbuilt
    refine ⟨hok, ?_⟩
    by_contra hno
    rw [not_or, not_forall, not_forall] at hno
    obtain ⟨⟨penalty, hclass⟩, solution, hsolution⟩ := hno
    rw [Classical.not_imp] at hclass hsolution
    rw [not_not] at hsolution
    -- the endpoints share a class, so the hard variant has no valid placement at all
    have hhard := (hagree solution).1.mpr
      ⟨(validateSolution_soft_iff hproblem solution).mpr hsolution.1, hsolution.2⟩
    rw [validateSolution_hard_iff hproblem hok.2] at hhard
    have hover := SolutionOk.pairOverlaps_of_sameClass hw
      ((validateSolution_eq_nil_iff _ _).mp hhard.1).2 (Bool.not_eq_false _ ▸ hclass.2)
    rw [hhard.2 penalty hclass.1] at hover
    cases hover
  · rintro ⟨hok, hclasses⟩
    refine ⟨_, (buildCrossPipeReuseVariants_eq_ok_iff hvalid hprofile hedge).mpr ⟨hok, rfl⟩,
      fun solution => ?_⟩
    -- the hard pairs are apart exactly when their penalties are not paid
    have hapart : validateSolution (hardVariant source).problem solution = [] ↔
        validateSolution source.problem solution = [] ∧ AvoidsCrossPipe source.problem solution := by
      rw [validateSolution_hard_iff hproblem hok.2]
      refine and_congr_right fun hs => ?_
      have hsol := ((validateSolution_eq_nil_iff _ _).mp hs).2
      rcases hclasses with hclasses | hnone
      · exact forall₂_congr fun penalty hp => by
          rw [(solutionOk_iff_hardOk.mp hsol).1.penaltyPaid_eq hw (hclasses penalty hp)]
      · constructor
        · intro hover penalty hp
          rw [penaltyPaid_eq, hover penalty hp, Bool.and_false]
        · exact fun havoid => absurd havoid (hnone solution hs)
    refine ⟨?_, fun hhard => reuseCost_hard solution (hapart.mp hhard).2⟩
    rw [validateSolution_soft_iff hproblem]
    exact hapart

end variants

/-- Two buffers of disjoint lifetimes with a `cross_pipe` penalty. -/
def crossPipeDocument (colocations : List Colocation) : StructuredProblemDocument where
  profile := .pyptoResearchV1
  instanceName := "cross_pipe"
  metadata := ((∅ : Metadata).insert "lifetime_ordering" "pypto_read_before_write").insert
    "solver_input" "pre_memory_reuse"
  problem :=
    { buffers := [{ id := 0, size := 8, liveIntervals := [⟨0, 2⟩] },
        { id := 1, size := 8, liveIntervals := [⟨2, 4⟩] }]
      pools := [{ capacity := some 16 }]
      colocations := colocations
      costModel := some ⟨[{ first := 0, second := 1, cost := 7, reason := .crossPipe }]⟩
      objective := fitThenMinimizeReuseCostObjective }

theorem variantsAgree_crossPipeDocument : VariantsAgree (crossPipeDocument []) :=
  (variantsAgree_iff (crossPipeDocument []) (by decide +kernel) (by decide) (by decide +kernel)).mpr
    ⟨⟨by unfold HasPyptoMetadata; decide +kernel, by decide +kernel⟩, .inl (by decide +kernel)⟩

/-- A penalty on colocated endpoints makes the builder throw its internal error. -/
theorem not_variantsAgree_colocated :
    validateStructuredProblemDocument (crossPipeDocument [⟨0, 1⟩]) = [] ∧
      isPyptoProfile (crossPipeDocument [⟨0, 1⟩]).profile = true ∧
      (crossPipeDocument [⟨0, 1⟩]).problem.crossPipePenalties ≠ [] ∧
      ¬ VariantsAgree (crossPipeDocument [⟨0, 1⟩]) := by
  refine ⟨by decide +kernel, by decide, by decide +kernel, ?_⟩
  rintro ⟨variants, hbuilt, -⟩
  have hthrows : (buildCrossPipeReuseVariants (crossPipeDocument [⟨0, 1⟩])).isOk = false := by
    decide +kernel
  rw [hbuilt] at hthrows
  cases hthrows

end Dsa
