import DsaSolver.Pairs
import DsaSolver.Theory.Accumulate

/-! # Pipeline-intent relaxation

`BuildPipelineIntentRelaxation` of `structured_problem.cpp`: a separation whose only reason is
`pipeline_stage` is dropped, and a pair that is not alive together gets a
`pipeline_serialization` penalty unless it has one.  The placements that pay none of these
penalties are the placements of the source, unless a dropped separation was not replaced by a
positive cost (`tradesOnly_iff`). -/

namespace Dsa

/-! ### The transformation -/

def hasReason (separation : Separation) (reason : SeparationReason) : Bool :=
  separation.reasons.contains reason

def hasPenalty (penalties : List ReusePenalty) (first second : BufferId)
    (reason : ReusePenaltyReason) : Bool :=
  penalties.any fun penalty =>
    minmax penalty.first penalty.second == minmax first second && penalty.reason == reason

structure PipelineIntentRelaxation where
  document : StructuredProblemDocument := {}
  removedPipelineReasonCount : ℕ := 0
  relaxedSeparationCount : ℕ := 0
  addedPenaltyCount : ℕ := 0

/-- The variables of the loop over the separations: `retained`, the records of the cost model,
and the counters. -/
structure IntentState where
  retained : List Separation := []
  penalties : List ReusePenalty := []
  removedPipelineReasonCount : ℕ := 0
  relaxedSeparationCount : ℕ := 0
  addedPenaltyCount : ℕ := 0

/-- The reasons other than `pipeline_stage`. -/
def otherReasons (separation : Separation) : List SeparationReason :=
  separation.reasons.filter fun reason => reason != .pipelineStage

/-- The penalty of a dropped separation. -/
def addIntentPenalty (problem : DsaProblem) (penaltyPerPair : UInt64) (separation : Separation)
    (state : IntentState) : IntentState :=
  match problem.findBuffer separation.first, problem.findBuffer separation.second with
  | some first, some second =>
      if haveTemporalConflict problem first second then state
      else if hasPenalty state.penalties separation.first separation.second
          .pipelineSerialization then state
      else
        { state with
          penalties := state.penalties ++
            [⟨separation.first, separation.second, penaltyPerPair, .pipelineSerialization⟩]
          addedPenaltyCount := state.addedPenaltyCount + 1 }
  | _, _ => state

/-- One iteration of the loop over the separations. -/
def relaxSeparation (problem : DsaProblem) (penaltyPerPair : UInt64) (state : IntentState)
    (separation : Separation) : IntentState :=
  if !hasReason separation .pipelineStage then
    { state with retained := state.retained ++ [separation] }
  else if !(otherReasons separation).isEmpty then
    { state with
      retained := state.retained ++ [{ separation with reasons := otherReasons separation }]
      removedPipelineReasonCount := state.removedPipelineReasonCount + 1 }
  else
    addIntentPenalty problem penaltyPerPair separation
      { state with
        removedPipelineReasonCount := state.removedPipelineReasonCount + 1
        relaxedSeparationCount := state.relaxedSeparationCount + 1 }

def relaxSeparations (problem : DsaProblem) (penaltyPerPair : UInt64) : IntentState :=
  problem.separations.foldl (relaxSeparation problem penaltyPerPair)
    { penalties := problem.reusePenalties }

def relaxationMetadata (metadata : Metadata) (relaxedSeparationCount : ℕ) : Metadata :=
  ((((metadata.insert "experimental_features" "pipeline_intent_fallback").insert
    "pipeline_intent_policy" "soft_after_strict_no_fit").insert
    "pipeline_effective_depth_semantics" "requested_intent_not_placement").insert
    "reuse_cost_model" "pipeline_stage_overlap_pairs_v1").insert
    "relaxed_pipeline_separations" (toString relaxedSeparationCount)

def relaxedProblem (problem : DsaProblem) (penaltyPerPair : UInt64) : DsaProblem :=
  let state := relaxSeparations problem penaltyPerPair
  { problem with
    objective := fitThenMinimizeReuseCostObjective
    costModel := some ⟨state.penalties⟩
    separations := state.retained }

def pipelineIntentRelaxation (source : StructuredProblemDocument) (penaltyPerPair : UInt64) :
    PipelineIntentRelaxation :=
  let state := relaxSeparations source.problem penaltyPerPair
  { document :=
      { source with
        profile := .pyptoResearchV1
        metadata := relaxationMetadata source.metadata state.relaxedSeparationCount
        problem := relaxedProblem source.problem penaltyPerPair }
    removedPipelineReasonCount := state.removedPipelineReasonCount
    relaxedSeparationCount := state.relaxedSeparationCount
    addedPenaltyCount := state.addedPenaltyCount }

/-- `BuildPipelineIntentRelaxation`. -/
def buildPipelineIntentRelaxation (source : StructuredProblemDocument) (penaltyPerPair : UInt64) :
    Except Exception PipelineIntentRelaxation :=
  match validateStructuredProblemDocument source with
  | error :: _ => .error (.invalidArgument
      ("cannot relax an invalid structured problem: " ++ error))
  | [] =>
      if !isPyptoProfile source.profile then
        .error (.invalidArgument "pipeline-intent relaxation requires a PyPTO source document")
      else if penaltyPerPair == 0 then
        .error (.invalidArgument "pipeline-intent reuse penalty must be non-zero")
      else
        match validateStructuredProblemDocument
            (pipelineIntentRelaxation source penaltyPerPair).document with
        | error :: _ => .error (.logicError
            ("generated an invalid pipeline-intent relaxation: " ++ error))
        | [] => .ok (pipelineIntentRelaxation source penaltyPerPair)

/-! ### What the loop does -/

/-- The separation is dropped: `pipeline_stage` is its only reason. -/
def pipelineOnly (separation : Separation) : Bool :=
  hasReason separation .pipelineStage && (otherReasons separation).isEmpty

/-- The separations and the penalties on the pair, whichever is first. -/
def onPair (first second : BufferId) (penalty : ReusePenalty) : Bool :=
  minmax penalty.first penalty.second == minmax first second &&
    penalty.reason == .pipelineSerialization

section loop

variable {problem : DsaProblem} {penaltyPerPair : UInt64}

/-- A new penalty is on a dropped pair that is not alive together and had no penalty. -/
structure AddedFor (problem : DsaProblem) (penaltyPerPair : UInt64) (penalty : ReusePenalty)
    (separation : Separation) : Prop where
  member : separation ∈ problem.separations
  dropped : pipelineOnly separation = true
  eq : penalty = ⟨separation.first, separation.second, penaltyPerPair, .pipelineSerialization⟩
  known : (problem.findBuffer separation.first).isSome ∧ (problem.findBuffer separation.second).isSome
  apart : pairConflicts problem separation.first separation.second = false
  fresh : hasPenalty problem.reusePenalties separation.first separation.second
    .pipelineSerialization = false

/-- The loop after a prefix `seen` of the separations. -/
structure IntentInvariant (problem : DsaProblem) (penaltyPerPair : UInt64) (seen : List Separation)
    (state : IntentState) : Prop where
  retained : state.retained =
    (seen.filter fun separation => !pipelineOnly separation).map fun separation =>
      { separation with reasons := otherReasons separation }
  penalties : ∃ added, state.penalties = problem.reusePenalties ++ added ∧
    ∀ penalty ∈ added, ∃ separation, AddedFor problem penaltyPerPair penalty separation
  covered : ∀ separation ∈ seen, pipelineOnly separation = true →
    (problem.findBuffer separation.first).isSome → (problem.findBuffer separation.second).isSome →
    pairConflicts problem separation.first separation.second = false →
    hasPenalty state.penalties separation.first separation.second .pipelineSerialization = true

theorem hasPenalty_append (penalties added : List ReusePenalty) (first second : BufferId)
    (reason : ReusePenaltyReason) :
    hasPenalty (penalties ++ added) first second reason =
      (hasPenalty penalties first second reason || hasPenalty added first second reason) :=
  List.any_append

theorem otherReasons_eq {separation : Separation}
    (h : hasReason separation .pipelineStage = false) :
    otherReasons separation = separation.reasons := by
  rw [otherReasons, List.filter_eq_self]
  rintro reason hr
  rw [bne_iff_ne]
  rintro rfl
  rw [hasReason, List.contains_iff_mem.mpr hr] at h
  cases h

theorem addIntentPenalty_retained (separation : Separation) (state : IntentState) :
    (addIntentPenalty problem penaltyPerPair separation state).retained = state.retained := by
  unfold addIntentPenalty
  split
  · split_ifs <;> rfl
  · rfl

/-- At most one penalty is added, and the pair has one when it needs one. -/
theorem addIntentPenalty_penalties (separation : Separation) (state : IntentState) :
    (∃ added, (addIntentPenalty problem penaltyPerPair separation state).penalties =
        state.penalties ++ added ∧ ∀ penalty ∈ added,
          penalty =
            ⟨separation.first, separation.second, penaltyPerPair, .pipelineSerialization⟩ ∧
          ((problem.findBuffer separation.first).isSome ∧
            (problem.findBuffer separation.second).isSome) ∧
          pairConflicts problem separation.first separation.second = false ∧
          hasPenalty state.penalties separation.first separation.second
            .pipelineSerialization = false) ∧
      ((problem.findBuffer separation.first).isSome →
        (problem.findBuffer separation.second).isSome →
        pairConflicts problem separation.first separation.second = false →
        hasPenalty (addIntentPenalty problem penaltyPerPair separation state).penalties
          separation.first separation.second .pipelineSerialization = true) := by
  unfold addIntentPenalty
  split
  · rename_i first second h1 h2
    have hconflicts := pairConflicts_of_find h1 h2
    rw [← hconflicts]
    split_ifs with hconflict hpenalty
    · refine ⟨⟨[], by simp⟩, fun _ _ hno => ?_⟩
      rw [hno] at hconflict
      cases hconflict
    · exact ⟨⟨[], by simp⟩, fun _ _ _ => hpenalty⟩
    · refine ⟨⟨_, rfl, fun penalty hp => ?_⟩, fun _ _ _ => ?_⟩
      · exact ⟨List.mem_singleton.mp hp, by simp [h1, h2], by simpa using hconflict,
          by simpa using hpenalty⟩
      · rw [hasPenalty_append]
        simp [hasPenalty]
  · rename_i hnone
    refine ⟨⟨[], by simp⟩, fun h1 h2 => ?_⟩
    obtain ⟨first, h1⟩ := Option.isSome_iff_exists.mp h1
    obtain ⟨second, h2⟩ := Option.isSome_iff_exists.mp h2
    exact absurd h2 (hnone first second h1)

/-- One more separation. -/
theorem IntentInvariant.step {seen : List Separation} {state : IntentState} {separation : Separation}
    (h : IntentInvariant problem penaltyPerPair seen state)
    (hmem : separation ∈ problem.separations) :
    IntentInvariant problem penaltyPerPair (seen ++ [separation])
      (relaxSeparation problem penaltyPerPair state separation) := by
  obtain ⟨hretained, ⟨added, hpenalties, hadded⟩, hcovered⟩ := h
  unfold relaxSeparation
  by_cases hreason : hasReason separation .pipelineStage = true
  · rw [if_neg (by simp [hreason])]
    by_cases hother : (otherReasons separation).isEmpty = true
    · -- the separation is dropped
      have hdropped : pipelineOnly separation = true := by simp [pipelineOnly, hreason, hother]
      rw [if_neg (by simp [hother])]
      obtain ⟨⟨new, hnew, hnewEq⟩, hcover⟩ :=
        @addIntentPenalty_penalties problem penaltyPerPair separation
          { state with
            removedPipelineReasonCount := state.removedPipelineReasonCount + 1
            relaxedSeparationCount := state.relaxedSeparationCount + 1 }
      refine ⟨?_, ⟨added ++ new, ?_, fun penalty hp => ?_⟩, fun c hc hdrop h1 h2 hapart => ?_⟩
      · rw [addIntentPenalty_retained]
        simp [hretained, hdropped]
      · rw [hnew, hpenalties, List.append_assoc]
      · rcases List.mem_append.mp hp with hp | hp
        · exact hadded penalty hp
        · obtain ⟨heq, hknown, hapart, hfresh⟩ := hnewEq penalty hp
          rw [hpenalties, hasPenalty_append, Bool.or_eq_false_iff] at hfresh
          exact ⟨separation, hmem, hdropped, heq, hknown, hapart, hfresh.1⟩
      · rcases List.mem_append.mp hc with hc | hc
        · rw [hnew, hasPenalty_append, hcovered c hc hdrop h1 h2 hapart, Bool.true_or]
        · obtain rfl := List.mem_singleton.mp hc
          exact hcover h1 h2 hapart
    · have hkept : pipelineOnly separation = false := by simp [pipelineOnly, hother]
      rw [if_pos (by simp [hother])]
      refine ⟨by simp [hretained, hkept], ⟨added, hpenalties, hadded⟩, fun c hc hdrop => ?_⟩
      rcases List.mem_append.mp hc with hc | hc
      · exact hcovered c hc hdrop
      · rw [List.mem_singleton.mp hc, hkept] at hdrop
        cases hdrop
  · rw [Bool.not_eq_true] at hreason
    have hkept : pipelineOnly separation = false := by simp [pipelineOnly, hreason]
    rw [if_pos (by simp [hreason])]
    refine ⟨by simp [hretained, hkept, otherReasons_eq hreason], ⟨added, hpenalties, hadded⟩,
      fun c hc hdrop => ?_⟩
    rcases List.mem_append.mp hc with hc | hc
    · exact hcovered c hc hdrop
    · rw [List.mem_singleton.mp hc, hkept] at hdrop
      cases hdrop

/-- The whole loop. -/
theorem intentInvariant_relaxSeparations (problem : DsaProblem) (penaltyPerPair : UInt64) :
    IntentInvariant problem penaltyPerPair problem.separations
      (relaxSeparations problem penaltyPerPair) := by
  have key : ∀ (rest seen : List Separation) (state : IntentState),
      seen ++ rest = problem.separations → IntentInvariant problem penaltyPerPair seen state →
      IntentInvariant problem penaltyPerPair problem.separations
        (rest.foldl (relaxSeparation problem penaltyPerPair) state) := by
    intro rest
    induction rest with
    | nil =>
        intro seen state hall h
        rw [List.append_nil] at hall
        rwa [← hall]
    | cons separation rest ih =>
        intro seen state hall h
        refine ih (seen ++ [separation]) _ (by simpa using hall) (h.step ?_)
        rw [← hall]
        simp
  refine key problem.separations [] _ rfl ⟨rfl, ⟨[], by simp⟩, fun c hc => ?_⟩
  exact absurd hc List.not_mem_nil

end loop

/-! ### The relaxed document -/

section relaxation

variable {source : StructuredProblemDocument} {penaltyPerPair : UInt64} {solution : DsaSolution}

/-- The penalties of the relaxed problem. -/
theorem reusePenalties_relaxedProblem (problem : DsaProblem) (penaltyPerPair : UInt64) :
    (relaxedProblem problem penaltyPerPair).reusePenalties =
      (relaxSeparations problem penaltyPerPair).penalties := rfl

theorem relaxedProblem_eq (problem : DsaProblem) (penaltyPerPair : UInt64) :
    relaxedProblem problem penaltyPerPair =
      problem.withSoft (relaxSeparations problem penaltyPerPair).retained
        (some ⟨(relaxSeparations problem penaltyPerPair).penalties⟩)
        fitThenMinimizeReuseCostObjective := rfl

/-- The pairs kept apart are those of the separations with another reason. -/
theorem forall_retained_iff (problem : DsaProblem) (penaltyPerPair : UInt64)
    {P : BufferId → BufferId → Prop} :
    (∀ separation ∈ (relaxSeparations problem penaltyPerPair).retained,
        P separation.first separation.second) ↔
      ∀ separation ∈ problem.separations, pipelineOnly separation = false →
        P separation.first separation.second := by
  rw [(intentInvariant_relaxSeparations problem penaltyPerPair).retained]
  simp only [List.forall_mem_map, List.mem_filter, Bool.not_eq_true', and_imp]

theorem validateProblem_relaxed (h : validateProblem source.problem = []) :
    validateProblem (relaxedProblem source.problem penaltyPerPair) = [] := by
  obtain ⟨-, -, -, -, hsep, -, -, hpen, -, -, -⟩ := (validateProblem_eq_nil_iff _).mp h
  have hloop := intentInvariant_relaxSeparations source.problem penaltyPerPair
  rw [relaxedProblem_eq, validateProblem_withSoft_iff h]
  refine ⟨?_, fun penalty hp => ?_, by decide, by decide⟩
  · rw [hloop.retained]
    simp only [List.forall_mem_map, List.mem_filter, and_imp]
    intro separation hs _
    have hok := separationErrors_eq_nil_iff.mp (hsep separation hs)
    exact separationErrors_eq_nil_iff.mpr ⟨hok.1, hok.2.filter _⟩
  · obtain ⟨added, hpenalties, hadded⟩ := hloop.penalties
    have hp' : penalty ∈ source.problem.reusePenalties ++ added := hpenalties ▸ hp
    rcases List.mem_append.mp hp' with hp | hp
    · exact hpen penalty hp
    · obtain ⟨separation, hfor⟩ := hadded penalty hp
      obtain ⟨h1, h2⟩ := hfor.known
      rw [hfor.eq]
      simp [reusePenaltyErrors, errorIf_eq_nil, knownBuffer_eq_isSome, h1, h2]

/-- The builder returns exactly when the source has the metadata of the research profile. -/
theorem buildPipelineIntentRelaxation_eq_ok_iff
    (hvalid : validateStructuredProblemDocument source = [])
    (hprofile : isPyptoProfile source.profile = true) (hpenalty : penaltyPerPair ≠ 0)
    {relaxation : PipelineIntentRelaxation} :
    buildPipelineIntentRelaxation source penaltyPerPair = .ok relaxation ↔
      HasPyptoMetadata source.metadata ∧
        relaxation = pipelineIntentRelaxation source penaltyPerPair := by
  obtain ⟨hversion, hinstance, hfrom, hfeatures⟩ := envelope_of_pypto hvalid hprofile
  have hmetadata : ∀ count, HasPyptoMetadata (relaxationMetadata source.metadata count) ↔
      HasPyptoMetadata source.metadata := by
    intro count
    unfold HasPyptoMetadata relaxationMetadata
    simp [Std.ExtTreeMap.getElem?_insert]
  have hdocument : validateStructuredProblemDocument
      (pipelineIntentRelaxation source penaltyPerPair).document = [] ↔
      HasPyptoMetadata source.metadata := by
    rw [validate_research_eq_nil_iff rfl]
    refine ⟨fun h => (hmetadata _).mp h.2.2.2.2.2, fun h => ⟨hversion, hinstance,
      validateProblem_relaxed (validateProblem_of_document hvalid), hfrom, hfeatures,
      (hmetadata _).mpr h⟩⟩
  unfold buildPipelineIntentRelaxation
  simp only [hvalid, hprofile, Bool.not_true, Bool.false_eq_true, if_false, beq_iff_eq, hpenalty]
  cases hrelaxed : validateStructuredProblemDocument
      (pipelineIntentRelaxation source penaltyPerPair).document with
  | nil =>
      simp only [Except.ok.injEq, hdocument.mp hrelaxed, true_and]
      exact eq_comm
  | cons error rest =>
      simp only [reduceCtorEq, false_iff]
      rintro ⟨h, -⟩
      rw [hdocument.mpr h] at hrelaxed
      cases hrelaxed

/-! ### What is traded -/

/-- What the `pipeline_serialization` penalties on the dropped pairs cost. -/
def pipelineCost (problem relaxed : DsaProblem) (solution : DsaSolution) : UInt64 :=
  (relaxed.reusePenalties.filter fun penalty => (problem.separations.filter pipelineOnly).any
      fun separation => onPair separation.first separation.second penalty).foldl
    (fun cost penalty =>
      if penaltyPaid relaxed solution penalty then saturatingAdd cost penalty.cost else cost) 0

/-- The relaxation is returned, and the placements of the source are its placements whose
dropped pairs cost nothing. -/
def TradesOnly (source : StructuredProblemDocument) (penaltyPerPair : UInt64) : Prop :=
  ∃ relaxation, buildPipelineIntentRelaxation source penaltyPerPair = .ok relaxation ∧
    ∀ solution, validateSolution source.problem solution = [] ↔
      validateSolution relaxation.document.problem solution = [] ∧
        pipelineCost source.problem relaxation.document.problem solution = 0

/-- A dropped separation that no positive cost replaces: its endpoints are colocated, or they
are not alive together and have `pipeline_serialization` penalties already, all of cost zero. -/
def lostSeparation (problem : DsaProblem) (separation : Separation) : Bool :=
  pipelineOnly separation &&
    (sameClass problem separation.first separation.second ||
      (!pairConflicts problem separation.first separation.second &&
        hasPenalty problem.reusePenalties separation.first separation.second
          .pipelineSerialization &&
        (problem.reusePenalties.filter (onPair separation.first separation.second)).all
          fun penalty => penalty.cost == 0))

def DsaProblem.withoutLost (problem : DsaProblem) : DsaProblem :=
  { problem with
    separations := problem.separations.filter fun separation => !lostSeparation problem separation }

theorem validateSolution_relaxed_iff (h : validateProblem source.problem = []) :
    validateSolution (relaxedProblem source.problem penaltyPerPair) solution = [] ↔
      HardOk source.problem solution ∧
        ∀ separation ∈ source.problem.separations, pipelineOnly separation = false →
          pairOverlaps source.problem solution separation.first separation.second = false := by
  rw [validateSolution_eq_nil_iff, validateProblem_relaxed h, relaxedProblem_eq,
    solutionOk_withSoft_iff, @forall_retained_iff _ _
      fun first second => pairOverlaps source.problem solution first second = false]
  simp only [true_and]

theorem validateSolution_withoutLost_iff (h : validateProblem source.problem = []) :
    validateSolution source.problem.withoutLost solution = [] ↔
      HardOk source.problem solution ∧
        ∀ separation ∈ source.problem.separations, lostSeparation source.problem separation = false →
          pairOverlaps source.problem solution separation.first separation.second = false := by
  obtain ⟨-, -, -, -, hsep, -, -, hpen, -, hterms, hterm⟩ := (validateProblem_eq_nil_iff _).mp h
  have hvalid : validateProblem source.problem.withoutLost = [] :=
    (validateProblem_withSoft_iff h).mpr
      ⟨fun c hc => hsep c (List.mem_of_mem_filter hc), hpen, hterms, hterm⟩
  have hframe := @solutionOk_withSoft_iff source.problem source.problem.withoutLost.separations
    source.problem.costModel source.problem.objective solution
  rw [validateSolution_eq_nil_iff, hvalid]
  refine (and_iff_right rfl).trans (hframe.trans ?_)
  simp only [DsaProblem.withoutLost, List.mem_filter, Bool.not_eq_true', and_imp]

theorem pipelineCost_eq_zero_iff {problem relaxed : DsaProblem} :
    pipelineCost problem relaxed solution = 0 ↔
      ∀ penalty ∈ relaxed.reusePenalties, ∀ separation ∈ problem.separations,
        pipelineOnly separation = true → onPair separation.first separation.second penalty = true →
        penaltyPaid relaxed solution penalty = true → penalty.cost = 0 := by
  unfold pipelineCost
  rw [Theory.foldl_satAdd_eq_zero_iff]
  simp only [List.mem_filter, List.any_eq_true, and_imp, forall_exists_index, true_and]

/-- The penalties a dropped pair has in the relaxed problem: those of the source, or a new one
when the source has none. -/
theorem mem_relaxed_onPair {problem : DsaProblem} {penalty : ReusePenalty} {first second : BufferId}
    (hp : penalty ∈ (relaxedProblem problem penaltyPerPair).reusePenalties)
    (hon : onPair first second penalty = true) :
    penalty ∈ problem.reusePenalties ∨
      (penalty.cost = penaltyPerPair ∧
        hasPenalty problem.reusePenalties first second .pipelineSerialization = false) := by
  obtain ⟨added, hpenalties, hadded⟩ := (intentInvariant_relaxSeparations problem penaltyPerPair).penalties
  have hp' : penalty ∈ problem.reusePenalties ++ added := hpenalties ▸ hp
  rcases List.mem_append.mp hp' with hp | hp
  · exact .inl hp
  · obtain ⟨separation, hfor⟩ := hadded penalty hp
    refine .inr ⟨by rw [hfor.eq], ?_⟩
    have hpair : minmax separation.first separation.second = minmax first second := by
      rw [onPair, hfor.eq, Bool.and_eq_true, beq_iff_eq] at hon
      exact hon.1
    have hfresh := hfor.fresh
    rwa [hasPenalty, hpair] at hfresh

/-- A dropped pair that is not lost is apart in every placement that pays nothing for it. -/
theorem not_pairOverlaps_of_unpaid (hw : WellFormed source.problem) (hpenalty : penaltyPerPair ≠ 0)
    (hs : HardOk source.problem solution)
    (hcost : pipelineCost source.problem (relaxedProblem source.problem penaltyPerPair) solution = 0)
    {separation : Separation} (hmem : separation ∈ source.problem.separations)
    (hdrop : pipelineOnly separation = true)
    (hkept : lostSeparation source.problem separation = false) :
    pairOverlaps source.problem solution separation.first separation.second = false := by
  unfold lostSeparation at hkept
  rw [hdrop, Bool.true_and, Bool.or_eq_false_iff] at hkept
  obtain ⟨hclass, hkept⟩ := hkept
  cases hconflict : pairConflicts source.problem separation.first separation.second with
  | true => exact hs.not_pairOverlaps_of_conflict hw hclass hconflict
  | false =>
      rw [hconflict, Bool.not_false, Bool.true_and] at hkept
      -- some penalty on the pair has a positive cost
      obtain ⟨penalty, hp, hon, hpos⟩ : ∃ penalty ∈
          (relaxedProblem source.problem penaltyPerPair).reusePenalties,
          onPair separation.first separation.second penalty = true ∧ penalty.cost ≠ 0 := by
        obtain ⟨added, hpenalties, -⟩ :=
          (intentInvariant_relaxSeparations source.problem penaltyPerPair).penalties
        cases hhas : hasPenalty source.problem.reusePenalties separation.first separation.second
            .pipelineSerialization with
        | true =>
            rw [hhas, Bool.true_and, List.all_eq_false] at hkept
            obtain ⟨penalty, hp, hpos⟩ := hkept
            obtain ⟨hp, hon⟩ := List.mem_filter.mp hp
            refine ⟨penalty, ?_, hon, by simpa using hpos⟩
            rw [reusePenalties_relaxedProblem, hpenalties]
            exact List.mem_append_left _ hp
        | false =>
            obtain ⟨h1, h2⟩ := hw.separations separation hmem
            rw [knownBuffer_eq_isSome] at h1 h2
            have hcovered := (intentInvariant_relaxSeparations source.problem penaltyPerPair).covered
              separation hmem hdrop h1 h2 hconflict
            obtain ⟨penalty, hp, hon⟩ := List.any_eq_true.mp hcovered
            refine ⟨penalty, hp, hon, ?_⟩
            rcases mem_relaxed_onPair hp hon with hold | ⟨hnew, -⟩
            · have : hasPenalty source.problem.reusePenalties separation.first separation.second
                  .pipelineSerialization = true := List.any_eq_true.mpr ⟨penalty, hold, hon⟩
              rw [hhas] at this
              cases this
            · rwa [hnew]
      have hunpaid : penaltyPaid source.problem solution penalty = false := by
        rw [← Bool.not_eq_true]
        exact fun hpaid =>
          hpos (pipelineCost_eq_zero_iff.mp hcost penalty hp separation hmem hdrop hon hpaid)
      have hpair : minmax penalty.first penalty.second =
          minmax separation.first separation.second := by
        rw [onPair, Bool.and_eq_true, beq_iff_eq] at hon
        exact hon.1
      have hclass' : sameClass source.problem penalty.first penalty.second = false :=
        (@minmax_congr (fun a b => sameClass source.problem a b = false)
          (fun a b => by rw [sameClass_comm]) _ _ _ _ hpair).mpr hclass
      rw [hs.penaltyPaid_eq hw hclass'] at hunpaid
      exact (@minmax_congr (fun a b => pairOverlaps source.problem solution a b = false)
        (fun a b => by rw [pairOverlaps_comm]) _ _ _ _ hpair).mp hunpaid

/-- The placements of the relaxed problem that pay nothing for the dropped pairs are those of the
source without its lost separations. -/
theorem relaxed_and_unpaid_iff (h : validateProblem source.problem = [])
    (hpenalty : penaltyPerPair ≠ 0) :
    validateSolution (relaxedProblem source.problem penaltyPerPair) solution = [] ∧
        pipelineCost source.problem (relaxedProblem source.problem penaltyPerPair) solution = 0 ↔
      validateSolution source.problem.withoutLost solution = [] := by
  have hw := WellFormed.of_validateProblem h
  rw [validateSolution_relaxed_iff h, validateSolution_withoutLost_iff h]
  constructor
  · rintro ⟨⟨hs, hsep⟩, hcost⟩
    refine ⟨hs, fun separation hmem hkept => ?_⟩
    cases hdrop : pipelineOnly separation with
    | false => exact hsep separation hmem hdrop
    | true => exact not_pairOverlaps_of_unpaid hw hpenalty hs hcost hmem hdrop hkept
  · rintro ⟨hs, hsep⟩
    refine ⟨⟨hs, fun separation hmem hdrop => hsep separation hmem ?_⟩, ?_⟩
    · rw [lostSeparation, hdrop, Bool.false_and]
    · rw [pipelineCost_eq_zero_iff]
      intro penalty hp separation hmem hdrop hon hpaid
      have hpair : minmax penalty.first penalty.second =
          minmax separation.first separation.second := by
        rw [onPair, Bool.and_eq_true, beq_iff_eq] at hon
        exact hon.1
      have hpaid' : penaltyPaid source.problem solution penalty = true := hpaid
      rw [penaltyPaid_eq, Bool.and_eq_true, Bool.and_eq_true, Bool.not_eq_true'] at hpaid'
      have hclass : sameClass source.problem separation.first separation.second = false :=
        (@minmax_congr (fun a b => sameClass source.problem a b = false)
          (fun a b => by rw [sameClass_comm]) _ _ _ _ hpair).mp hpaid'.1.1
      have hover : pairOverlaps source.problem solution separation.first separation.second = true :=
        (@minmax_congr (fun a b => pairOverlaps source.problem solution a b = true)
          (fun a b => by rw [pairOverlaps_comm]) _ _ _ _ hpair).mp hpaid'.2
      -- the pair overlaps, so its separation is a lost one
      cases hlost : lostSeparation source.problem separation with
      | false =>
          rw [hsep separation hmem hlost] at hover
          cases hover
      | true =>
          unfold lostSeparation at hlost
          rw [hdrop, hclass, Bool.true_and, Bool.false_or, Bool.and_eq_true, Bool.and_eq_true]
            at hlost
          rcases mem_relaxed_onPair hp hon with hold | ⟨-, hfresh⟩
          · simpa using List.all_eq_true.mp hlost.2 penalty (List.mem_filter.mpr ⟨hold, hon⟩)
          · rw [hfresh] at hlost
            cases hlost.1.2

/-- **The relaxation only trades separations for penalties** exactly when the document has the
metadata of the research profile and dropping the lost separations alone admits no placement. -/
theorem tradesOnly_iff (source : StructuredProblemDocument) (penaltyPerPair : UInt64)
    (hvalid : validateStructuredProblemDocument source = [])
    (hprofile : isPyptoProfile source.profile = true) (hpenalty : penaltyPerPair ≠ 0) :
    TradesOnly source penaltyPerPair ↔
      HasPyptoMetadata source.metadata ∧ ∀ solution,
        validateSolution source.problem.withoutLost solution = [] →
          validateSolution source.problem solution = [] := by
  have hproblem := validateProblem_of_document hvalid
  have hdrop : ∀ solution, validateSolution source.problem solution = [] →
      validateSolution source.problem.withoutLost solution = [] := by
    intro solution hs
    rw [validateSolution_eq_nil_iff, solutionOk_iff_hardOk] at hs
    exact (validateSolution_withoutLost_iff hproblem).mpr ⟨hs.2.1, fun c hc _ => hs.2.2 c hc⟩
  constructor
  · rintro ⟨relaxation, hbuilt, htrade⟩
    obtain ⟨hmetadata, rfl⟩ :=
      (buildPipelineIntentRelaxation_eq_ok_iff hvalid hprofile hpenalty).mp hbuilt
    exact ⟨hmetadata, fun solution hs =>
      (htrade solution).mpr ((relaxed_and_unpaid_iff hproblem hpenalty).mpr hs)⟩
  · rintro ⟨hmetadata, hkeep⟩
    refine ⟨_, (buildPipelineIntentRelaxation_eq_ok_iff hvalid hprofile hpenalty).mpr
      ⟨hmetadata, rfl⟩, fun solution => ?_⟩
    exact ⟨fun hs => (relaxed_and_unpaid_iff hproblem hpenalty).mpr (hdrop solution hs),
      fun hs => hkeep solution ((relaxed_and_unpaid_iff hproblem hpenalty).mp hs)⟩

end relaxation

/-- A pair kept apart for its pipeline stages, with a penalty of the given cost. -/
def pipelineDocument (cost : UInt64) : StructuredProblemDocument where
  profile := .pyptoResearchV1
  instanceName := "pipeline"
  metadata := ((∅ : Metadata).insert "lifetime_ordering" "pypto_read_before_write").insert
    "solver_input" "pre_memory_reuse"
  problem :=
    { buffers := [{ id := 0, size := 8, liveIntervals := [⟨0, 2⟩] },
        { id := 1, size := 8, liveIntervals := [⟨2, 4⟩] }]
      separations := [{ first := 0, second := 1, reasons := [.pipelineStage] }]
      costModel :=
        some ⟨[{ first := 0, second := 1, cost := cost, reason := .pipelineSerialization }]⟩ }

theorem tradesOnly_pipelineDocument : TradesOnly (pipelineDocument 3) 1 := by
  refine (tradesOnly_iff (pipelineDocument 3) 1 (by decide +kernel) (by decide) (by decide)).mpr
    ⟨by unfold HasPyptoMetadata; decide +kernel, fun solution hs => ?_⟩
  have hsame : (pipelineDocument 3).problem.withoutLost = (pipelineDocument 3).problem := by
    decide +kernel
  rwa [hsame] at hs

/-- A penalty of cost zero stands for the dropped separation, and the pair may overlap free. -/
theorem not_tradesOnly_free :
    validateStructuredProblemDocument (pipelineDocument 0) = [] ∧
      isPyptoProfile (pipelineDocument 0).profile = true ∧ ¬ TradesOnly (pipelineDocument 0) 1 := by
  refine ⟨by decide +kernel, by decide, ?_⟩
  rintro ⟨relaxation, hbuilt, htrade⟩
  obtain ⟨-, rfl⟩ :=
    (buildPipelineIntentRelaxation_eq_ok_iff (by decide +kernel) (by decide) (by decide)).mp hbuilt
  have hvalid := (htrade ⟨((∅ : Std.TreeMap BufferId Placement).insert 0 ⟨0, 0⟩).insert 1 ⟨0, 0⟩⟩).mpr
    ⟨by decide +kernel, by decide +kernel⟩
  revert hvalid
  decide +kernel

end Dsa
