import DsaSolver.ClassView
import DsaSolver.ReuseSearch
import DsaSolver.Theory.Accumulate

/-! # The search view of a pin-free problem

For a problem without pins whose search view is built without errors, node `k` is class `k` of
the preparation, in the one pool the class allows; `nodePacking` is the packing of the nodes,
and placements of the problem are exactly its valid position vectors
(`validateSolution_expand_iff`, `exists_offsets`). -/

namespace Dsa

open Theory (Apart Sat)

/-- The search view of the problem. -/
@[irreducible] def DsaProblem.search (problem : DsaProblem) : ReusePenaltySearchSpace :=
  buildReusePenaltySearchSpace problem

theorem buildSearch_eq (problem : DsaProblem) :
    buildReusePenaltySearchSpace problem = problem.search := by
  rw [DsaProblem.search]

/-- A problem the search algorithms accept: no pins, fixed pools, no preparation error. -/
structure SearchOk (problem : DsaProblem) : Prop where
  noErrors : problem.search.placement.errors = []
  fixedPools : problem.search.placement.flexiblePools = false
  noPins : problem.pinnedAllocations = []

/-- Two nodes that may not share an address: classes of one pool with a lifetime conflict or a
separation. -/
structure NodesConflict (problem : DsaProblem) (k l : ℕ) : Prop where
  ne : k ≠ l
  pool : superPool ((prepare problem).superAt k) = superPool ((prepare problem).superAt l)
  conflict : superBuffersConflict problem ((prepare problem).superAt k)
      ((prepare problem).superAt l) = true ∨ separated (prepare problem) k l = true

theorem NodesConflict.symm {problem : DsaProblem} {k l : ℕ} (h : NodesConflict problem k l) :
    NodesConflict problem l k where
  ne := h.ne.symm
  pool := h.pool.symm
  conflict := by
    rw [superBuffersConflict_comm, separated_comm]
    exact h.conflict

namespace SearchOk

variable {problem : DsaProblem}

/-! ### The search view, node by node -/

theorem placement_search (problem : DsaProblem) :
    problem.search.placement = buildPlacementSearchSpace problem := by
  unfold DsaProblem.search buildReusePenaltySearchSpace
  dsimp only
  split_ifs <;> rfl

theorem prepare_clean (h : SearchOk problem) :
    (prepare problem).errors = [] ∧ (prepare problem).flexiblePools = false := by
  have h1 := h.noErrors
  have h2 := h.fixedPools
  rw [placement_search] at h1 h2
  unfold buildPlacementSearchSpace at h1 h2
  dsimp only at h1 h2
  by_cases hc : (prepare problem).errors ≠ [] ∨ (prepare problem).flexiblePools = true
  · rw [if_pos hc] at h1 h2
    exact ⟨h1, h2⟩
  · push Not at hc
    exact ⟨hc.1, by simpa using hc.2⟩

theorem prepared (h : SearchOk problem) : PreparedOk problem := prepare_ok h.prepare_clean.1

theorem nodes_eq (h : SearchOk problem) : problem.search.placement.nodes =
    (List.range (prepare problem).supers.length).map (searchNode problem (prepare problem)) := by
  obtain ⟨h1, h2⟩ := h.prepare_clean
  rw [placement_search]
  unfold buildPlacementSearchSpace
  dsimp only
  rw [if_neg (by simp [h1, h2])]

theorem search_eq (h : SearchOk problem) : problem.search =
    { placement := problem.search.placement
      nodeByBuffer := nodeByMember problem.search.placement.nodes
      hardNeighbors :=
        problem.search.placement.nodes.map (hardNeighborSet problem.search.placement.nodes)
      softWeights := problem.reusePenalties.foldl
        (addReusePenalty problem.search.placement.nodes
          (problem.search.placement.nodes.map (hardNeighborSet problem.search.placement.nodes))) ∅
      softNeighbors := (List.range problem.search.placement.nodes.length).map
        (softNeighborList (problem.reusePenalties.foldl
          (addReusePenalty problem.search.placement.nodes
            (problem.search.placement.nodes.map
              (hardNeighborSet problem.search.placement.nodes))) ∅)) } := by
  have h1 := h.noErrors
  have h2 := h.fixedPools
  rw [placement_search] at h1 h2 ⊢
  conv_lhs => unfold DsaProblem.search buildReusePenaltySearchSpace
  dsimp only
  rw [if_neg (by simp [h1, h2])]

theorem count_eq (h : SearchOk problem) : problem.search.count = (prepare problem).supers.length := by
  rw [ReusePenaltySearchSpace.count, h.nodes_eq, List.length_map, List.length_range]

theorem nodeAt_eq (h : SearchOk problem) {k : ℕ} (hk : k < problem.search.count) :
    problem.search.nodeAt k = searchNode problem (prepare problem) k := by
  rw [h.count_eq] at hk
  unfold ReusePenaltySearchSpace.nodeAt
  rw [h.nodes_eq, List.getD_eq_getElem _ _ (by simpa using hk)]
  simp

theorem lt_supers (h : SearchOk problem) {k : ℕ} (hk : k < problem.search.count) :
    k < (prepare problem).supers.length := by rwa [h.count_eq] at hk

theorem unpinned (h : SearchOk problem) {k : ℕ} (hk : k < problem.search.count) :
    ((prepare problem).superAt k).pinned = none := by
  cases hp : ((prepare problem).superAt k).pinned with
  | none => rfl
  | some pinned =>
      have := (h.prepared.pinMem k (h.lt_supers hk) pinned hp).1
      rw [h.noPins] at this
      cases this

theorem notExclusive (h : SearchOk problem) {k : ℕ} (hk : k < problem.search.count) :
    ((prepare problem).superAt k).pinnedExclusive = false := by
  rw [← Bool.not_eq_true, h.prepared.pinExclusive k (h.lt_supers hk), h.noPins]
  simp

theorem size_eq (h : SearchOk problem) {k : ℕ} (hk : k < problem.search.count) :
    (problem.search.nodeAt k).size = ((prepare problem).superAt k).size := by
  rw [h.nodeAt_eq hk]
  rfl

theorem alignment_eq (h : SearchOk problem) {k : ℕ} (hk : k < problem.search.count) :
    (problem.search.nodeAt k).alignment = ((prepare problem).superAt k).alignment := by
  rw [h.nodeAt_eq hk]
  rfl

theorem pool_eq (h : SearchOk problem) {k : ℕ} (hk : k < problem.search.count) :
    (problem.search.nodeAt k).pool = superPool ((prepare problem).superAt k) := by
  rw [h.nodeAt_eq hk]
  rfl

/-- The node's pool is the only pool its class allows. -/
theorem allowedPools_eq (h : SearchOk problem) {k : ℕ} (hk : k < problem.search.count) :
    ((prepare problem).superAt k).allowedPools = [(problem.search.nodeAt k).pool] := by
  have hne := h.prepared.allowedNe k (h.lt_supers hk)
  have hle := h.prepared.singlePool h.prepare_clean.2 k (h.lt_supers hk)
  rw [h.pool_eq hk, superPool, h.unpinned hk]
  cases hp : ((prepare problem).superAt k).allowedPools with
  | nil => exact absurd hp hne
  | cons pool rest =>
      rw [hp] at hle
      cases rest with
      | nil => rfl
      | cons _ _ => simp at hle

theorem size_ne (h : SearchOk problem) {k : ℕ} (hk : k < problem.search.count) :
    (problem.search.nodeAt k).size ≠ 0 := by
  rw [h.size_eq hk]
  exact h.prepared.superSize_ne (h.lt_supers hk)

theorem size_pos (h : SearchOk problem) {k : ℕ} (hk : k < problem.search.count) :
    0 < (problem.search.nodeAt k).size.toNat :=
  Nat.pos_of_ne_zero (toNat_ne_zero (h.size_ne hk))

theorem alignment_pos (h : SearchOk problem) {k : ℕ} (hk : k < problem.search.count) :
    0 < (problem.search.nodeAt k).alignment.toNat := by
  rw [h.alignment_eq hk]
  exact Nat.pos_of_ne_zero (toNat_ne_zero (h.prepared.aligned k (h.lt_supers hk)).1)

theorem exists_pool (h : SearchOk problem) {k : ℕ} (hk : k < problem.search.count) :
    ∃ pool, problem.findPool (problem.search.nodeAt k).pool = some pool := by
  obtain ⟨i, hi, hc, -⟩ := h.prepared.exists_member (h.lt_supers hk)
  have hmem := (h.prepared.allowed_iff (h.lt_supers hk) (problem.search.nodeAt k).pool).mp
    (by rw [h.allowedPools_eq hk]; exact List.mem_singleton_self _) i hi hc
  exact exists_findPool (h.prepared.wellFormed.allowedPools _ (bufferAt_mem hi) _ hmem)

theorem mem_members_iff (h : SearchOk problem) {k : ℕ} (hk : k < problem.search.count)
    (id : BufferId) : id ∈ (problem.search.nodeAt k).members ↔
      ∃ i < problem.buffers.length, classOf problem i = k ∧ (problem.bufferAt i).id = id := by
  rw [h.nodeAt_eq hk]
  simp only [searchNode, List.mem_map]
  constructor
  · rintro ⟨i, hi, e⟩
    obtain ⟨hlt, hc⟩ := (h.prepared.members k (h.lt_supers hk) i).mp hi
    exact ⟨i, hlt, hc, e⟩
  · rintro ⟨i, hi, hc, e⟩
    exact ⟨i, (h.prepared.members k (h.lt_supers hk) i).mpr ⟨hi, hc⟩, e⟩

theorem classOf_lt (h : SearchOk problem) {i : ℕ} (hi : i < problem.buffers.length) :
    classOf problem i < problem.search.count := by
  rw [h.count_eq]
  exact h.prepared.classOf_lt i hi

/-- A lookup in the node list by a test that only node `k` passes. -/
theorem findIdx_nodes (p : PlacementSearchNode → Bool) {k : ℕ}
    (hk : k < problem.search.count) (hp : p (problem.search.nodeAt k) = true)
    (huniq : ∀ l < problem.search.count, p (problem.search.nodeAt l) = true → l = k) :
    problem.search.placement.nodes.findIdx? p = some k := by
  have hget : ∀ l (hl : l < problem.search.count),
      problem.search.placement.nodes[l] = problem.search.nodeAt l := fun l hl => by
    rw [ReusePenaltySearchSpace.nodeAt, List.getD_eq_getElem _ _ hl]
  rw [List.findIdx?_eq_some_iff_getElem]
  refine ⟨hk, by rw [hget k hk]; exact hp, fun j hj hpj => ?_⟩
  have hjlt : j < problem.search.count := hj.trans hk
  have hpj' : p (problem.search.nodeAt j) = true := by
    rw [← hget j hjlt]
    exact hpj
  exact absurd (huniq j hjlt hpj') hj.ne

theorem nodeByMember_eq (h : SearchOk problem) {i : ℕ} (hi : i < problem.buffers.length) :
    nodeByMember problem.search.placement.nodes (problem.bufferAt i).id =
      some (classOf problem i) := by
  refine findIdx_nodes _ (h.classOf_lt hi) ?_ fun l hl hp => ?_
  · rw [List.contains_iff_mem, h.mem_members_iff (h.classOf_lt hi)]
    exact ⟨i, hi, rfl, rfl⟩
  · rw [List.contains_iff_mem, h.mem_members_iff hl] at hp
    obtain ⟨j, hj, rfl, e⟩ := hp
    rw [bufferAt_id_injective h.prepared.wellFormed.bufferIds hj hi e]

theorem representative_mem (h : SearchOk problem) {k : ℕ} (hk : k < problem.search.count) :
    ∃ i < problem.buffers.length, classOf problem i = k ∧
      (problem.search.nodeAt k).representative = (problem.bufferAt i).id := by
  obtain ⟨i, hi, e⟩ := (h.prepared.covers k (h.lt_supers hk)).representativeMem
  obtain ⟨hlt, hc⟩ := (h.prepared.members k (h.lt_supers hk) i).mp hi
  refine ⟨i, hlt, hc, ?_⟩
  rw [h.nodeAt_eq hk]
  exact e

theorem representative_injective (h : SearchOk problem) {k l : ℕ} (hk : k < problem.search.count)
    (hl : l < problem.search.count)
    (e : (problem.search.nodeAt k).representative = (problem.search.nodeAt l).representative) :
    k = l := by
  obtain ⟨i, hi, rfl, ei⟩ := h.representative_mem hk
  obtain ⟨j, hj, rfl, ej⟩ := h.representative_mem hl
  rw [ei, ej] at e
  rw [bufferAt_id_injective h.prepared.wellFormed.bufferIds hi hj e]

theorem nodeByRepresentative_eq (h : SearchOk problem) {k : ℕ} (hk : k < problem.search.count) :
    nodeByRepresentative problem.search.placement.nodes (problem.search.nodeAt k).representative =
      some k :=
  findIdx_nodes _ hk (by simp) fun l hl hp =>
    h.representative_injective hl hk (by simpa using hp)

/-! ### Hard neighbours -/

theorem mem_hardNeighborSet (nodes : List PlacementSearchNode) (node : PlacementSearchNode) (l : ℕ) :
    l ∈ (hardNeighborSet nodes node).toList ↔
      ∃ representative ∈ node.conflicts, nodeByRepresentative nodes representative = some l := by
  have key : ∀ (conflicts : List BufferId) (start : Std.TreeSet ℕ),
      l ∈ conflicts.foldl (insertNeighbor nodes) start ↔
        l ∈ start ∨ ∃ representative ∈ conflicts,
          nodeByRepresentative nodes representative = some l := by
    intro conflicts
    induction conflicts with
    | nil => simp
    | cons head rest ih =>
        intro start
        rw [List.foldl_cons, ih]
        simp only [List.mem_cons, exists_eq_or_imp, insertNeighbor]
        cases hh : nodeByRepresentative nodes head with
        | none => simp
        | some neighbor =>
            rw [Std.TreeSet.mem_insert, Std.LawfulEqCmp.compare_eq_iff_eq, Option.some.injEq]
            tauto
  rw [Std.TreeSet.mem_toList, hardNeighborSet, key]
  simp

theorem supersBlock_iff_conflict (h : SearchOk problem) {k l : ℕ} (hk : k < problem.search.count)
    (hl : l < problem.search.count) : supersBlock problem (prepare problem) k l = true ↔
      superBuffersConflict problem ((prepare problem).superAt k) ((prepare problem).superAt l) =
        true ∨ separated (prepare problem) k l = true := by
  rw [supersBlock, h.notExclusive hk, h.notExclusive hl, Bool.or_false, Bool.or_false,
    Bool.or_eq_true]

theorem mem_hardNeighborsOf (h : SearchOk problem) {k : ℕ} (hk : k < problem.search.count) (l : ℕ) :
    l ∈ problem.search.hardNeighborsOf k ↔ l < problem.search.count ∧ NodesConflict problem k l := by
  have hget : problem.search.hardNeighbors.getD k ∅ =
      hardNeighborSet problem.search.placement.nodes (problem.search.nodeAt k) := by
    rw [h.search_eq]
    show (problem.search.placement.nodes.map _).getD k ∅ = _
    have hk' : k < problem.search.placement.nodes.length := hk
    rw [List.getD_eq_getElem _ _ (by rwa [List.length_map]), List.getElem_map]
    congr 1
    exact (List.getD_eq_getElem _ _ hk).symm
  rw [ReusePenaltySearchSpace.hardNeighborsOf, hget, mem_hardNeighborSet]
  have hmm : ∀ {o}, o < problem.search.count → (supersBlock problem (prepare problem) (min k o)
      (max k o) = true ↔ superBuffersConflict problem ((prepare problem).superAt k)
        ((prepare problem).superAt o) = true ∨ separated (prepare problem) k o = true) := by
    intro o ho
    rcases le_total k o with hle | hle
    · rw [min_eq_left hle, max_eq_right hle, h.supersBlock_iff_conflict hk ho]
    · rw [min_eq_right hle, max_eq_left hle, supersBlock_comm, h.supersBlock_iff_conflict hk ho]
  have hpool : ∀ o, (superPool ((prepare problem).superAt (min k o)) ==
      superPool ((prepare problem).superAt (max k o))) = true ↔
        superPool ((prepare problem).superAt k) = superPool ((prepare problem).superAt o) := by
    intro o
    rcases le_total k o with hle | hle
    · rw [min_eq_left hle, max_eq_right hle, beq_iff_eq]
    · rw [min_eq_right hle, max_eq_left hle, beq_iff_eq, eq_comm]
  have hconf : ∀ o, o < problem.search.count →
      ((o != k && superPool ((prepare problem).superAt (min k o)) ==
        superPool ((prepare problem).superAt (max k o)) &&
          supersBlock problem (prepare problem) (min k o) (max k o)) = true ↔
        NodesConflict problem k o) := by
    intro o ho
    rw [Bool.and_eq_true, Bool.and_eq_true, hmm ho, hpool o, bne_iff_ne]
    exact ⟨fun ⟨⟨h1, h2⟩, h3⟩ => ⟨h1.symm, h2, h3⟩, fun hc => ⟨⟨hc.ne.symm, hc.pool⟩, hc.conflict⟩⟩
  have hrep : ∀ o, o < problem.search.count → ((prepare problem).superAt o).representative =
      (problem.search.nodeAt o).representative := by
    intro o ho
    rw [h.nodeAt_eq ho]
    rfl
  rw [h.nodeAt_eq hk]
  simp only [searchNode, nodeConflicts, List.mem_map, List.mem_filter, List.mem_range, ← h.count_eq]
  constructor
  · rintro ⟨representative, ⟨o, ⟨ho, hc⟩, rfl⟩, hl⟩
    rw [hrep o ho, h.nodeByRepresentative_eq ho] at hl
    obtain rfl := Option.some.inj hl
    exact ⟨ho, (hconf o ho).mp hc⟩
  · rintro ⟨hl, hc⟩
    refine ⟨_, ⟨l, ⟨hl, (hconf l hl).mpr hc⟩, rfl⟩, ?_⟩
    rw [hrep l hl, h.nodeByRepresentative_eq hl]

end SearchOk

end Dsa
