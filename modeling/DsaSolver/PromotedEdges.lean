import DsaSolver.WithoutCaps
import DsaSolver.ColocationClasses

/-! # Promoted reuse edges

`WithPromotedReuseEdges` separates pairs of nodes.  The promoted problem keeps the classes and
the nodes (`prepare_promote`, `nodeAt_promote`), and its valid placements are those of the problem
that keep the pairs apart (`promote_valid_iff`). -/

namespace Dsa

variable {problem : DsaProblem} {pairs : List (ℕ × ℕ)}

/-- Pairs of two nodes of one pool, the smaller first. -/
def NodePairs (problem : DsaProblem) (pairs : List (ℕ × ℕ)) : Prop :=
  ∀ pair ∈ pairs, pair.1 < pair.2 ∧ pair.2 < problem.search.count ∧
    (problem.search.nodeAt pair.1).pool = (problem.search.nodeAt pair.2).pool

/-- The problem with the pairs promoted. -/
def promote (problem : DsaProblem) (pairs : List (ℕ × ℕ)) : DsaProblem :=
  withPromotedReuseEdges problem problem.search pairs

/-- The separation of a promoted pair. -/
def pairSeparation (problem : DsaProblem) (pair : ℕ × ℕ) : Separation where
  first := (problem.search.nodeAt pair.1).representative
  second := (problem.search.nodeAt pair.2).representative
  reasons := [.generic]

theorem promote_separations : (promote problem pairs).separations =
    problem.separations ++ pairs.map (pairSeparation problem) := rfl

/-! ### Validity -/

/-- The class of a representative is its node. -/
theorem SearchOk.lookup_representative (h : SearchOk problem) {k : ℕ}
    (hk : k < problem.search.count) :
    (prepare problem).idToSuper (problem.search.nodeAt k).representative = some k := by
  obtain ⟨i, hi, hclass, hid⟩ := h.representative_mem hk
  rw [hid, h.prepared.lookup i hi, hclass]

theorem SearchOk.not_sameClass (h : SearchOk problem) {k l : ℕ} (hk : k < problem.search.count)
    (hl : l < problem.search.count) (hne : k ≠ l) :
    ¬SameClass problem (problem.search.nodeAt k).representative
      (problem.search.nodeAt l).representative := by
  obtain ⟨i, hi, hclass, hid⟩ := h.representative_mem hk
  obtain ⟨j, hj, hclass', hid'⟩ := h.representative_mem hl
  rw [hid, hid', ← root_eq_iff_sameClass h.prepared.wellFormed hi hj,
    ← h.prepared.classOf_eq_iff i hi j hj, hclass, hclass']
  exact hne

/-- A record between two representatives would put them into one class. -/
theorem SearchOk.colocatedKeys_notMem (h : SearchOk problem) {k l : ℕ}
    (hk : k < problem.search.count) (hl : l < problem.search.count) (hne : k ≠ l) :
    (min (problem.search.nodeAt k).representative (problem.search.nodeAt l).representative,
      max (problem.search.nodeAt k).representative (problem.search.nodeAt l).representative) ∉
        colocatedKeys problem := by
  have hclass := h.not_sameClass hk hl hne
  generalize (problem.search.nodeAt k).representative = first at hclass ⊢
  generalize (problem.search.nodeAt l).representative = second at hclass ⊢
  intro hmem
  obtain ⟨constraint, hconstraint, hkey⟩ := List.mem_map.mp hmem
  obtain ⟨hmin, hmax⟩ := Prod.mk.inj hkey
  have hrel : Colocated problem constraint.first constraint.second :=
    ⟨constraint, (List.mem_filter.mp hconstraint).1, rfl, rfl⟩
  apply hclass
  rcases le_total constraint.first constraint.second with hle | hle
  · rw [min_eq_left hle] at hmin
    rw [max_eq_right hle] at hmax
    rcases le_total first second with hle' | hle'
    · rw [min_eq_left hle'] at hmin
      rw [max_eq_right hle'] at hmax
      exact hmin ▸ hmax ▸ .rel _ _ hrel
    · rw [min_eq_right hle'] at hmin
      rw [max_eq_left hle'] at hmax
      exact hmin ▸ hmax ▸ .symm _ _ (.rel _ _ hrel)
  · rw [min_eq_right hle] at hmin
    rw [max_eq_left hle] at hmax
    rcases le_total first second with hle' | hle'
    · rw [min_eq_left hle'] at hmin
      rw [max_eq_right hle'] at hmax
      exact hmin ▸ hmax ▸ .symm _ _ (.rel _ _ hrel)
    · rw [min_eq_right hle'] at hmin
      rw [max_eq_left hle'] at hmax
      exact hmin ▸ hmax ▸ .rel _ _ hrel

theorem SearchOk.separationErrors_pair (h : SearchOk problem) {pair : ℕ × ℕ}
    (hlt : pair.1 < pair.2) (hcount : pair.2 < problem.search.count) :
    separationErrors problem (pairSeparation problem pair) = [] := by
  have hknown : ∀ k < problem.search.count,
      knownBuffer problem (problem.search.nodeAt k).representative = true := by
    intro k hk
    obtain ⟨i, hi, -, hid⟩ := h.representative_mem hk
    exact knownBuffer_iff.mpr ⟨i, hi, hid.symm⟩
  have hfirst := hlt.trans hcount
  have hne : (problem.search.nodeAt pair.1).representative ≠
      (problem.search.nodeAt pair.2).representative := fun heq =>
    hlt.ne (h.representative_injective hfirst hcount heq)
  unfold separationErrors pairSeparation
  dsimp only
  rw [hknown _ hfirst, hknown _ hcount, if_neg (by simp), List.append_eq_nil_iff, errorIf_eq_nil,
    Bool.or_eq_false_iff, beq_eq_false_iff_ne]
  refine ⟨⟨hne, ?_⟩, rfl⟩
  rw [← Bool.not_eq_true, List.contains_iff_mem]
  exact h.colocatedKeys_notMem hfirst hcount hlt.ne

/-- The separations do not matter to the other checks. -/
theorem pyptoErrors_promote : pyptoErrors (promote problem pairs) = pyptoErrors problem := by
  have halias : ∀ ids classes, aliasClassErrors (promote problem pairs) ids classes =
      aliasClassErrors problem ids classes := by
    intro ids classes
    induction classes generalizing ids with
    | nil => rfl
    | cons first rest ih =>
        unfold aliasClassErrors
        rw [ih]
        rfl
  have hmembers : ∀ group seen residues members,
      pipelineMemberErrors (promote problem pairs) group seen residues members =
        pipelineMemberErrors problem group seen residues members := by
    intro group seen residues members
    induction members generalizing seen residues with
    | nil => rfl
    | cons member rest ih =>
        unfold pipelineMemberErrors
        rw [ih]
        rfl
  have hgroups : ∀ ids groups, pipelineGroupErrors (promote problem pairs) ids groups =
      pipelineGroupErrors problem ids groups := by
    intro ids groups
    induction groups generalizing ids with
    | nil => rfl
    | cons group rest ih =>
        unfold pipelineGroupErrors
        rw [ih, hmembers]
        rfl
  have hstructure : (promote problem pairs).pyptoStructure = problem.pyptoStructure := rfl
  unfold pyptoErrors
  rw [hstructure]
  cases problem.pyptoStructure with
  | none => rfl
  | some pypto =>
      dsimp only
      rw [halias, hgroups]

theorem validateProblem_promote (h : SearchOk problem) (hpairs : NodePairs problem pairs) :
    validateProblem (promote problem pairs) = [] := by
  obtain ⟨hpools, hne, hbuffers, hcolocations, hseparations, hexclusions, hpins, hpenalties, hpypto,
    hterms, hrepeat⟩ := (validateProblem_eq_nil_iff problem).mp h.valid
  have hnoPins : (promote problem pairs).pinnedAllocations = [] := h.noPins
  refine (validateProblem_eq_nil_iff _).mpr ⟨hpools, hne, hbuffers, hcolocations, ?_, hexclusions,
    ?_, hpenalties, ?_, hterms, hrepeat⟩
  · intro constraint hmem
    rw [promote_separations, List.mem_append, List.mem_map] at hmem
    rcases hmem with hmem | ⟨pair, hpair, rfl⟩
    · exact hseparations constraint hmem
    · obtain ⟨hlt, hcount, -⟩ := hpairs pair hpair
      exact h.separationErrors_pair hlt hcount
  · rw [hnoPins]
    rfl
  · rw [pyptoErrors_promote]
    exact hpypto

/-! ### The preparation -/

/-- Pairs of classes are no errors. -/
theorem applySeparation_pairs (h : SearchOk problem) (hpairs : NodePairs problem pairs)
    (state : List (ℕ × ℕ) × List String) :
    ((pairs.map (pairSeparation problem)).foldl (applySeparation (prepare problem).idToSuper)
      state).2 = state.2 := by
  induction pairs generalizing state with
  | nil => rfl
  | cons pair rest ih =>
      obtain ⟨⟨hlt, hcount, -⟩, hrest⟩ := List.forall_mem_cons.mp hpairs
      rw [List.map_cons, List.foldl_cons, ih hrest]
      unfold applySeparation pairSeparation
      dsimp only
      rw [h.lookup_representative (hlt.trans hcount), h.lookup_representative hcount]
      dsimp only
      rw [if_neg (by simpa using hlt.ne)]

/-- The preparation of the promoted problem: only the separations are new. -/
theorem prepare_promote (h : SearchOk problem) (hpairs : NodePairs problem pairs) :
    (prepare (promote problem pairs)).errors = [] ∧
      (prepare (promote problem pairs)).supers = (prepare problem).supers ∧
      (prepare (promote problem pairs)).idToSuper = (prepare problem).idToSuper ∧
      (prepare (promote problem pairs)).flexiblePools = (prepare problem).flexiblePools := by
  have hlookup := applySeparation_pairs h hpairs
  have hclean := h.prepare_clean.1
  unfold prepare at hlookup hclean ⊢
  rw [if_neg (not_not.mpr h.valid)] at hlookup hclean ⊢
  rw [if_neg (not_not.mpr (validateProblem_promote h hpairs))]
  dsimp only at hlookup hclean
  rw [List.append_eq_nil_iff] at hclean
  refine ⟨List.append_eq_nil_iff.mpr ⟨hclean.1, ?_⟩, rfl, rfl, rfl⟩
  show ((problem.separations ++ pairs.map (pairSeparation problem)).foldl
    (applySeparation (idToSuper problem (gatherBuffers problem problem.buffers.length).1))
      ([], [])).2 = []
  rw [List.foldl_append, hlookup]
  exact hclean.2

theorem superAt_promote (h : SearchOk problem) (hpairs : NodePairs problem pairs) :
    (prepare (promote problem pairs)).superAt = (prepare problem).superAt := by
  funext k
  unfold PreparedProblem.superAt
  rw [(prepare_promote h hpairs).2.1]

/-- The promoted problem is one the search algorithms accept. -/
theorem SearchOk.promote (h : SearchOk problem) (hpairs : NodePairs problem pairs) :
    SearchOk (promote problem pairs) := by
  obtain ⟨herrors, -, -, hflexible⟩ := prepare_promote h hpairs
  rw [h.prepare_clean.2] at hflexible
  have hclean : ¬((prepare (Dsa.promote problem pairs)).errors ≠ [] ∨
      (prepare (Dsa.promote problem pairs)).flexiblePools = true) := by
    rw [herrors, hflexible]
    simp
  constructor
  · rw [placement_search]
    unfold buildPlacementSearchSpace
    dsimp only
    rw [if_neg hclean]
  · rw [placement_search]
    unfold buildPlacementSearchSpace
    dsimp only
    rw [if_neg hclean]
  · exact h.noPins

theorem separated_promote (h : SearchOk problem) (hpairs : NodePairs problem pairs) {k l : ℕ} :
    separated (prepare (promote problem pairs)) k l = true ↔
      separated (prepare problem) k l = true ∨ (min k l, max k l) ∈ pairs := by
  have hlookup := (prepare_promote h hpairs).2.2.1
  unfold separated
  rw [List.contains_iff_mem, List.contains_iff_mem, (h.promote hpairs).prepared.separations,
    h.prepared.separations, hlookup, promote_separations]
  have hpair : ∀ pair ∈ pairs, ∀ x y,
      (prepare problem).idToSuper (pairSeparation problem pair).first = some x →
        (prepare problem).idToSuper (pairSeparation problem pair).second = some y →
          x = pair.1 ∧ y = pair.2 := by
    intro pair hmem x y hx hy
    obtain ⟨hlt, hcount, -⟩ := hpairs pair hmem
    have h1 := h.lookup_representative (hlt.trans hcount)
    have h2 := h.lookup_representative hcount
    exact ⟨Option.some.inj (hx.symm.trans h1), Option.some.inj (hy.symm.trans h2)⟩
  constructor
  · rintro ⟨separation, hmem, x, y, hx, hy, hmin, hmax⟩
    rw [List.mem_append, List.mem_map] at hmem
    rcases hmem with hmem | ⟨pair, hmem, rfl⟩
    · exact .inl ⟨separation, hmem, x, y, hx, hy, hmin, hmax⟩
    · obtain ⟨rfl, rfl⟩ := hpair pair hmem x y hx hy
      obtain ⟨hlt, -, -⟩ := hpairs pair hmem
      rw [hmin, hmax, min_eq_left hlt.le, max_eq_right hlt.le]
      exact .inr hmem
  · rintro (⟨separation, hmem, hrest⟩ | hmem)
    · exact ⟨separation, List.mem_append_left _ hmem, hrest⟩
    · obtain ⟨hlt, hcount, -⟩ := hpairs _ hmem
      refine ⟨pairSeparation problem (min k l, max k l),
        List.mem_append_right _ (List.mem_map_of_mem hmem), min k l, max k l,
        h.lookup_representative (hlt.trans hcount), h.lookup_representative hcount, ?_, ?_⟩
      · exact (min_eq_left hlt.le).symm
      · exact (max_eq_right hlt.le).symm

/-! ### Nodes -/

theorem count_promote (h : SearchOk problem) (hpairs : NodePairs problem pairs) :
    (promote problem pairs).search.count = problem.search.count := by
  rw [(h.promote hpairs).count_eq, h.count_eq, (prepare_promote h hpairs).2.1]

theorem nodeConflict_promote (h : SearchOk problem) (hpairs : NodePairs problem pairs) {k l : ℕ}
    (hk : k < problem.search.count) (hl : l < problem.search.count) :
    NodesConflict (promote problem pairs) k l ↔
      NodesConflict problem k l ∨ (min k l, max k l) ∈ pairs := by
  have hsuper := superAt_promote h hpairs
  have hconflict : superBuffersConflict (promote problem pairs) = superBuffersConflict problem := rfl
  constructor
  · rintro ⟨hne, hpool, hblock⟩
    rw [hsuper] at hpool
    rw [hsuper, hconflict, separated_promote h hpairs] at hblock
    rcases hblock with hblock | hblock | hpair
    · exact .inl ⟨hne, hpool, .inl hblock⟩
    · exact .inl ⟨hne, hpool, .inr hblock⟩
    · exact .inr hpair
  · rintro (⟨hne, hpool, hblock⟩ | hpair)
    · refine ⟨hne, ?_, ?_⟩
      · rw [hsuper]
        exact hpool
      · rw [hsuper, hconflict, separated_promote h hpairs]
        rcases hblock with hblock | hblock
        · exact .inl hblock
        · exact .inr (.inl hblock)
    · obtain ⟨hlt, -, hpool⟩ := hpairs _ hpair
      refine ⟨?_, ?_, ?_⟩
      · rintro rfl
        rw [min_self, max_self] at hlt
        exact lt_irrefl _ hlt
      · rw [hsuper, ← h.pool_eq hk, ← h.pool_eq hl]
        rcases le_total k l with hle | hle
        · rwa [min_eq_left hle, max_eq_right hle] at hpool
        · rw [min_eq_right hle, max_eq_left hle] at hpool
          exact hpool.symm
      · exact .inr ((separated_promote h hpairs).mpr (.inr hpair))

/-- The nodes of the promoted problem differ in their conflicts only. -/
theorem nodeAt_promote (h : SearchOk problem) (hpairs : NodePairs problem pairs) {k : ℕ}
    (hk : k < problem.search.count) : (promote problem pairs).search.nodeAt k =
      { problem.search.nodeAt k with
        conflicts := nodeConflicts (promote problem pairs) (prepare (promote problem pairs)) k } := by
  rw [(h.promote hpairs).nodeAt_eq (by rwa [count_promote h hpairs]), h.nodeAt_eq hk]
  unfold searchNode
  dsimp only
  rw [superAt_promote h hpairs]
  rfl

theorem nodeSize_promote (h : SearchOk problem) (hpairs : NodePairs problem pairs) {k : ℕ}
    (hk : k < problem.search.count) : nodeSize (promote problem pairs) k = nodeSize problem k := by
  rw [nodeSize, nodeAt_promote h hpairs hk]
  rfl

/-! ### Valid placements -/

/-- A packing of the promoted nodes is one of the nodes that keeps the pairs apart. -/
theorem promote_valid_iff (h : SearchOk problem) (hpairs : NodePairs problem pairs) (q : ℕ → ℕ) :
    (nodePacking (h.promote hpairs)).Valid q ↔
      (nodePacking h).Valid q ∧ ∀ pair ∈ pairs, NodesApart problem q pair.1 pair.2 := by
  have hcount := count_promote h hpairs
  have hfits : ∀ k < problem.search.count,
      ((nodePacking (h.promote hpairs)).FitsAt k (q k) ↔ (nodePacking h).FitsAt k (q k)) := by
    intro k hk
    obtain ⟨pool, hpool⟩ := h.exists_pool hk
    have hpool' : (promote problem pairs).findPool
        ((promote problem pairs).search.nodeAt k).pool = some pool := by
      rw [nodeAt_promote h hpairs hk]
      exact hpool
    rw [fitsAt_iff _ hpool', fitsAt_iff h hpool, nodeSize_promote h hpairs hk,
      nodeAt_promote h hpairs hk]
  have hapart : ∀ k < problem.search.count, ∀ l < problem.search.count,
      (NodesApart (promote problem pairs) q k l ↔ NodesApart problem q k l) := by
    intro k hk l hl
    rw [NodesApart, NodesApart, nodeSize_promote h hpairs hk, nodeSize_promote h hpairs hl]
  constructor
  · intro hv
    have hall : ∀ k < problem.search.count, ∀ l < problem.search.count,
        NodesConflict (promote problem pairs) k l → NodesApart problem q k l := by
      intro k hk l hl hconflict
      apply (hapart k hk l hl).mp
      exact hv.apart k (Finset.mem_range.mpr (hcount.symm ▸ hk)) l
        (Finset.mem_range.mpr (hcount.symm ▸ hl)) hconflict
    refine ⟨⟨fun k hk => ?_, fun k hk l hl hconflict => ?_⟩, fun pair hpair => ?_⟩
    · have hlt := Finset.mem_range.mp hk
      exact (hfits k hlt).mp (hv.fits k (Finset.mem_range.mpr (hcount.symm ▸ hlt)))
    · exact hall k (Finset.mem_range.mp hk) l (Finset.mem_range.mp hl)
        ((nodeConflict_promote h hpairs (Finset.mem_range.mp hk) (Finset.mem_range.mp hl)).mpr
          (.inl hconflict))
    · obtain ⟨hlt, hlast, -⟩ := hpairs pair hpair
      apply hall pair.1 (hlt.trans hlast) pair.2 hlast
      apply (nodeConflict_promote h hpairs (hlt.trans hlast) hlast).mpr
      rw [min_eq_left hlt.le, max_eq_right hlt.le]
      exact .inr hpair
  · rintro ⟨hv, hpromoted⟩
    refine ⟨fun k hk => ?_, fun k hk l hl hconflict => ?_⟩
    · have hlt : k < problem.search.count := hcount ▸ Finset.mem_range.mp hk
      exact (hfits k hlt).mpr (hv.fits k (Finset.mem_range.mpr hlt))
    · have hk' : k < problem.search.count := hcount ▸ Finset.mem_range.mp hk
      have hl' : l < problem.search.count := hcount ▸ Finset.mem_range.mp hl
      apply (hapart k hk' l hl').mpr
      rcases (nodeConflict_promote h hpairs hk' hl').mp hconflict with hold | hpair
      · exact hv.apart k (Finset.mem_range.mpr hk') l (Finset.mem_range.mpr hl') hold
      · have hkl := hpromoted _ hpair
        rcases le_total k l with hle | hle
        · rwa [min_eq_left hle, max_eq_right hle] at hkl
        · rw [min_eq_right hle, max_eq_left hle] at hkl
          exact nodesApart_comm.mp hkl

/-- Both problems expand offsets to the same placement. -/
theorem expand_promote (h : SearchOk problem) (hpairs : NodePairs problem pairs)
    (offsets : List UInt64) : expandReuseNodeSolution (promote problem pairs).search offsets =
      expandReuseNodeSolution problem.search offsets := by
  unfold expandReuseNodeSolution
  rw [count_promote h hpairs]
  congr 1
  apply List.foldl_ext
  intro placements k hk
  rw [nodeAt_promote h hpairs (List.mem_range.mp hk)]

/-- A valid placement of the promoted problem keeps the pairs apart in a valid placement of the
problem. -/
theorem validateSolution_promote (h : SearchOk problem) (hpairs : NodePairs problem pairs)
    {solution : DsaSolution} (hs : validateSolution (promote problem pairs) solution = []) :
    ∃ offsets : List UInt64, offsets.length = problem.search.count ∧
      solution.find = (expandReuseNodeSolution problem.search offsets).find ∧
      (nodePacking h).Valid (positions offsets) ∧
        ∀ pair ∈ pairs, NodesApart problem (positions offsets) pair.1 pair.2 := by
  obtain ⟨offsets, hlength, hfind⟩ := exists_offsets (h.promote hpairs) hs
  have hv : (nodePacking (h.promote hpairs)).Valid (positions offsets) := by
    rw [← validateSolution_expand_iff, ← validateSolution_congr hfind]
    exact hs
  rw [count_promote h hpairs] at hlength
  rw [expand_promote h hpairs] at hfind
  exact ⟨offsets, hlength, hfind, (promote_valid_iff h hpairs _).mp hv⟩

end Dsa
