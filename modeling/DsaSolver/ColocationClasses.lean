import DsaSolver.PrepareFacts
import Mathlib.Logic.Relation

/-! # Separations and colocation classes

The classes of a problem are those of the relation its colocation records generate, and
`prepare` finds two buffers in one class exactly when the records connect them
(`root_eq_iff_sameClass`).  `validateProblem` compares a separation with the declared records
only, so a separation across a chain of records passes it and is an error of `prepare`. -/

namespace Dsa

/-- A record that colocates the two buffers. -/
def Colocated (problem : DsaProblem) (first second : BufferId) : Prop :=
  ∃ constraint ∈ problem.colocations, constraint.first = first ∧ constraint.second = second

/-- The buffers are connected by colocation records. -/
def SameClass (problem : DsaProblem) : BufferId → BufferId → Prop :=
  Relation.EqvGen (Colocated problem)

/-- The error of `Prepare` for a separation inside a class. -/
def separationInClass : String := "separation lies within a colocation class"

variable {problem : DsaProblem}

/-! ### Classes of indices and classes of ids -/

theorem mem_colocationPairs {pair : ℕ × ℕ} : pair ∈ colocationPairs problem ↔
    ∃ constraint ∈ problem.colocations, bufferIndices problem constraint.first = some pair.1 ∧
      bufferIndices problem constraint.second = some pair.2 := by
  unfold colocationPairs
  rw [List.mem_filterMap]
  refine exists_congr fun constraint => and_congr_right fun _ => ?_
  cases bufferIndices problem constraint.first with
  | none => simp
  | some first =>
      cases bufferIndices problem constraint.second with
      | none => simp
      | some second => simp [Prod.ext_iff]

theorem colocationPairs_lt : ∀ pair ∈ colocationPairs problem,
    pair.1 < problem.buffers.length ∧ pair.2 < problem.buffers.length := by
  intro pair hpair
  obtain ⟨constraint, -, hfirst, hsecond⟩ := mem_colocationPairs.mp hpair
  exact ⟨(bufferIndices_lt hfirst).1, (bufferIndices_lt hsecond).1⟩

theorem sameClass_of_eqvGen {i j : ℕ}
    (h : Relation.EqvGen (fun a b => (a, b) ∈ colocationPairs problem) i j) :
    SameClass problem (problem.bufferAt i).id (problem.bufferAt j).id := by
  induction h with
  | rel a b hab =>
      obtain ⟨constraint, hmem, hfirst, hsecond⟩ := mem_colocationPairs.mp hab
      apply Relation.EqvGen.rel
      exact ⟨constraint, hmem, (bufferIndices_lt hfirst).2.symm, (bufferIndices_lt hsecond).2.symm⟩
  | refl a => exact .refl _
  | symm a b _ ih => exact .symm _ _ ih
  | trans a b c _ _ ih ih' => exact .trans _ _ _ ih ih'

/-- The index of an id. -/
def indexOf (problem : DsaProblem) (id : BufferId) : ℕ := (bufferIndices problem id).getD 0

theorem indexOf_bufferAt (hwf : WellFormed problem) {i : ℕ} (hi : i < problem.buffers.length) :
    indexOf problem (problem.bufferAt i).id = i := by
  rw [indexOf, bufferIndices_bufferAt hwf.bufferIds hi]
  rfl

theorem root_eq_of_sameClass (hwf : WellFormed problem) {first second : BufferId}
    (h : SameClass problem first second) :
    (colocationSets problem).root (indexOf problem first) =
      (colocationSets problem).root (indexOf problem second) := by
  induction h with
  | rel a b hab =>
      obtain ⟨constraint, hmem, rfl, rfl⟩ := hab
      obtain ⟨hfirst, hsecond⟩ := hwf.colocations constraint hmem
      obtain ⟨i, hi, ei⟩ := knownBuffer_iff.mp hfirst
      obtain ⟨j, hj, ej⟩ := knownBuffer_iff.mp hsecond
      rw [← ei, ← ej, indexOf_bufferAt hwf hi, indexOf_bufferAt hwf hj]
      apply (DisjointSet.classOf_unionAll_iff colocationPairs_lt i j).mpr
      apply Relation.EqvGen.rel
      apply mem_colocationPairs.mpr
      refine ⟨constraint, hmem, ?_, ?_⟩
      · rw [← ei, bufferIndices_bufferAt hwf.bufferIds hi]
      · rw [← ej, bufferIndices_bufferAt hwf.bufferIds hj]
  | refl a => rfl
  | symm a b _ ih => exact ih.symm
  | trans a b c _ _ ih ih' => exact ih.trans ih'

/-- **The classes of the preparation are the classes of the records.** -/
theorem root_eq_iff_sameClass (hwf : WellFormed problem) {i j : ℕ}
    (hi : i < problem.buffers.length) (hj : j < problem.buffers.length) :
    (colocationSets problem).root i = (colocationSets problem).root j ↔
      SameClass problem (problem.bufferAt i).id (problem.bufferAt j).id := by
  constructor
  · intro hroot
    exact sameClass_of_eqvGen ((DisjointSet.classOf_unionAll_iff colocationPairs_lt i j).mp hroot)
  · intro hclass
    have hroot := root_eq_of_sameClass hwf hclass
    rwa [indexOf_bufferAt hwf hi, indexOf_bufferAt hwf hj] at hroot

/-! ### The errors of the preparation -/

theorem gatherBuffers_messages (count : ℕ) : ∀ error ∈ (gatherBuffers problem count).2,
    error = "colocation class alignment overflows uint64" := by
  have hmerge : ∀ i super, ∀ error ∈ mergeErrors problem i super,
      error = "colocation class alignment overflows uint64" := by
    intro i super error herror
    unfold mergeErrors errorIf at herror
    split_ifs at herror
    · exact List.mem_singleton.mp herror
    · cases herror
  induction count with
  | zero =>
      intro error herror
      cases herror
  | succ count ih =>
      intro error herror
      unfold gatherBuffers at herror ih
      rw [List.range_succ, List.foldl_append, List.foldl_cons, List.foldl_nil] at herror
      unfold gatherBuffer at herror
      dsimp only at herror
      split at herror
      · obtain hold | hnew := List.mem_append.mp herror
        · exact ih error hold
        · exact hmerge _ _ error hnew
      · obtain hold | hnew := List.mem_append.mp herror
        · exact ih error hold
        · exact hmerge _ _ error hnew

theorem foldl_applyPin_messages (lookup : BufferId → Option ℕ) (pins : List PinnedAllocation)
    (state : List SuperBuffer × List String)
    (h : ∀ error ∈ state.2, error ≠ separationInClass) :
    ∀ error ∈ (pins.foldl (applyPin lookup) state).2, error ≠ separationInClass := by
  induction pins generalizing state with
  | nil => exact h
  | cons pinned rest ih =>
      apply ih
      unfold applyPin
      split
      · exact h
      · split_ifs
        · intro error herror
          obtain hold | hnew := List.mem_append.mp herror
          · exact h error hold
          · rw [List.mem_singleton.mp hnew]
            decide
        · exact h

theorem mem_applySeparations (lookup : BufferId → Option ℕ) (separations : List Separation)
    (state : List (ℕ × ℕ) × List String) :
    separationInClass ∈ (separations.foldl (applySeparation lookup) state).2 ↔
      separationInClass ∈ state.2 ∨ ∃ separation ∈ separations, ∃ k,
        lookup separation.first = some k ∧ lookup separation.second = some k := by
  induction separations generalizing state with
  | nil => simp
  | cons separation rest ih =>
      rw [List.foldl_cons, ih]
      have hstep : separationInClass ∈ (applySeparation lookup state separation).2 ↔
          separationInClass ∈ state.2 ∨ ∃ k,
            lookup separation.first = some k ∧ lookup separation.second = some k := by
        unfold applySeparation
        cases lookup separation.first with
        | none => simp
        | some first =>
            cases lookup separation.second with
            | none => simp
            | some second =>
                dsimp only
                by_cases heq : first = second
                · subst heq
                  simp [separationInClass]
                · rw [if_neg (by simpa using heq)]
                  simp [Ne.symm heq]
      rw [hstep, or_assoc]
      simp only [List.mem_cons, exists_eq_or_imp]

/-- Two buffers have one class in the lookup exactly when the records connect them. -/
theorem lookup_eq_iff (hwf : WellFormed problem) {first second : BufferId}
    (hfirst : knownBuffer problem first = true) (hsecond : knownBuffer problem second = true) :
    (∃ k, idToSuper problem (gatherBuffers problem problem.buffers.length).1 first = some k ∧
        idToSuper problem (gatherBuffers problem problem.buffers.length).1 second = some k) ↔
      SameClass problem first second := by
  have hgathered := gatherBuffers_gathered hwf problem.buffers.length le_rfl
  obtain ⟨i, hi, rfl⟩ := knownBuffer_iff.mp hfirst
  obtain ⟨j, hj, rfl⟩ := knownBuffer_iff.mp hsecond
  obtain ⟨k, super, hk, hsuper, hmem⟩ := hgathered.lookup hwf hi
  obtain ⟨l, other, hl, hother, hmem'⟩ := hgathered.lookup hwf hj
  have hroot := ((hgathered.mem_members hsuper i).mp hmem).2
  have hroot' := ((hgathered.mem_members hother j).mp hmem').2
  rw [← root_eq_iff_sameClass hwf hi hj, hk, hl, hroot, hroot']
  constructor
  · rintro ⟨m, hkm, hlm⟩
    obtain rfl := Option.some.inj hkm
    obtain rfl := Option.some.inj hlm
    rw [hsuper] at hother
    rw [Option.some.inj hother]
  · intro heq
    exact ⟨k, rfl, by rw [hgathered.distinct k l super other hsuper hother heq]⟩

/-- **The separations `prepare` rejects** are those inside a class. -/
theorem separationInClass_mem_iff (hvalid : validateProblem problem = []) :
    separationInClass ∈ (prepare problem).errors ↔
      ∃ separation ∈ problem.separations, SameClass problem separation.first separation.second := by
  have hwf := WellFormed.of_validateProblem hvalid
  have hgather : separationInClass ∉ (gatherBuffers problem problem.buffers.length).2 := by
    intro hmem
    exact absurd (gatherBuffers_messages _ _ hmem) (by decide)
  have hpools : separationInClass ∉
      (gatherBuffers problem problem.buffers.length).1.flatMap superPoolErrors := by
    intro hmem
    obtain ⟨super, -, herror⟩ := List.mem_flatMap.mp hmem
    unfold superPoolErrors errorIf at herror
    split_ifs at herror
    · exact absurd (List.mem_singleton.mp herror) (by decide)
    · cases herror
  have hpins : separationInClass ∉ (problem.pinnedAllocations.foldl
      (applyPin (idToSuper problem (gatherBuffers problem problem.buffers.length).1))
      ((gatherBuffers problem problem.buffers.length).1, [])).2 := by
    intro hmem
    exact foldl_applyPin_messages _ _ _ (fun error herror => by cases herror) _ hmem rfl
  unfold prepare
  rw [if_neg (not_not.mpr hvalid)]
  dsimp only
  simp only [List.mem_append, hgather, hpools, hpins, false_or, mem_applySeparations,
    List.not_mem_nil]
  refine exists_congr fun separation => and_congr_right fun hmem => ?_
  obtain ⟨hfirst, hsecond⟩ := hwf.separations separation hmem
  exact lookup_eq_iff hwf hfirst hsecond

/-! ### What the validator rejects -/

/-- An accepted problem separates no buffer from itself and no declared pair. -/
theorem separation_not_declared (hvalid : validateProblem problem = []) {separation : Separation}
    (hmem : separation ∈ problem.separations) : separation.first ≠ separation.second ∧
      ¬Colocated problem separation.first separation.second ∧
        ¬Colocated problem separation.second separation.first := by
  obtain ⟨-, -, -, -, hseparations, -⟩ := (validateProblem_eq_nil_iff problem).mp hvalid
  have hwf := WellFormed.of_validateProblem hvalid
  obtain ⟨hfirst, hsecond⟩ := hwf.separations separation hmem
  have hnone := hseparations separation hmem
  unfold separationErrors at hnone
  rw [if_neg (by simp [hfirst, hsecond]), List.append_eq_nil_iff, errorIf_eq_nil, Bool.or_eq_false_iff,
    beq_eq_false_iff_ne] at hnone
  obtain ⟨⟨hne, hkey⟩, -⟩ := hnone
  have hdeclared : ∀ a b, Colocated problem a b →
      min a b = min separation.first separation.second →
      max a b = max separation.first separation.second → False := by
    rintro a b ⟨constraint, hconstraint, rfl, rfl⟩ hmin hmax
    obtain ⟨hknown, hknown'⟩ := hwf.colocations constraint hconstraint
    rw [← Bool.not_eq_true, List.contains_iff_mem] at hkey
    apply hkey
    unfold colocatedKeys
    rw [List.mem_map]
    refine ⟨constraint, List.mem_filter.mpr ⟨hconstraint, by simp [hknown, hknown']⟩, ?_⟩
    rw [hmin, hmax]
  exact ⟨hne, fun h => hdeclared _ _ h rfl rfl, fun h => hdeclared _ _ h (min_comm _ _) (max_comm _ _)⟩

/-- **Separations inside a class.**  An accepted problem keeps its separations out of the classes,
and `prepare` finds none inside one, exactly when no separation joins two buffers which only a
chain of colocation records connects. -/
theorem separations_outside_classes_iff (hvalid : validateProblem problem = []) :
    ((∀ separation ∈ problem.separations,
        ¬SameClass problem separation.first separation.second) ∧
      separationInClass ∉ (prepare problem).errors) ↔
    ∀ separation ∈ problem.separations, SameClass problem separation.first separation.second →
      separation.first = separation.second ∨
        Colocated problem separation.first separation.second ∨
          Colocated problem separation.second separation.first := by
  rw [separationInClass_mem_iff hvalid]
  constructor
  · rintro ⟨houtside, -⟩ separation hmem hclass
    exact absurd hclass (houtside separation hmem)
  · intro hchain
    have houtside : ∀ separation ∈ problem.separations,
        ¬SameClass problem separation.first separation.second := by
      intro separation hmem hclass
      obtain ⟨hne, hfirst, hsecond⟩ := separation_not_declared hvalid hmem
      obtain heq | hdeclared | hdeclared := hchain separation hmem hclass
      · exact hne heq
      · exact hfirst hdeclared
      · exact hsecond hdeclared
    refine ⟨houtside, ?_⟩
    rintro ⟨separation, hmem, hclass⟩
    exact houtside separation hmem hclass

/-- Three buffers in one pool, the outer two separated. -/
def separatedEnds (colocations : List Colocation) : DsaProblem where
  buffers := [{ id := 0, size := 4, liveIntervals := [⟨0, 1⟩] },
    { id := 1, size := 4, liveIntervals := [⟨1, 2⟩] },
    { id := 2, size := 4, liveIntervals := [⟨2, 3⟩] }]
  pools := [{}]
  colocations := colocations
  separations := [{ first := 0, second := 2 }]

/-- One record leaves the separated buffers in different classes. -/
theorem separations_outside_classes_oneRecord :
    (∀ separation ∈ (separatedEnds [⟨0, 1⟩]).separations,
        ¬SameClass (separatedEnds [⟨0, 1⟩]) separation.first separation.second) ∧
      separationInClass ∉ (prepare (separatedEnds [⟨0, 1⟩])).errors := by
  have hvalid : validateProblem (separatedEnds [⟨0, 1⟩]) = [] := by decide +kernel
  have hnone : separationInClass ∉ (prepare (separatedEnds [⟨0, 1⟩])).errors := by decide +kernel
  rw [separationInClass_mem_iff hvalid] at hnone
  apply (separations_outside_classes_iff hvalid).mpr
  intro separation hmem hclass
  exact absurd ⟨separation, hmem, hclass⟩ hnone

/-- Two records connect the separated buffers; the validator accepts the problem. -/
theorem separation_across_chain :
    validateProblem (separatedEnds [⟨0, 1⟩, ⟨1, 2⟩]) = [] ∧
      ¬((∀ separation ∈ (separatedEnds [⟨0, 1⟩, ⟨1, 2⟩]).separations,
          ¬SameClass (separatedEnds [⟨0, 1⟩, ⟨1, 2⟩]) separation.first separation.second) ∧
        separationInClass ∉ (prepare (separatedEnds [⟨0, 1⟩, ⟨1, 2⟩])).errors) := by
  refine ⟨by decide +kernel, ?_⟩
  rintro ⟨houtside, -⟩
  apply houtside _ List.mem_cons_self
  refine .trans 0 1 2 (.rel 0 1 ?_) (.rel 1 2 ?_)
  · exact ⟨⟨0, 1⟩, by decide, rfl, rfl⟩
  · exact ⟨⟨1, 2⟩, by decide, rfl, rfl⟩

end Dsa
