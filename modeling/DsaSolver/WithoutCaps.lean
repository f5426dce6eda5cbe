import DsaSolver.NodeCost

/-! # Problems without capacities

Without its capacities a valid problem stays valid and keeps its classes and its search view
(`prepare_withoutCaps`, `search_withoutCaps`), so the checks of a placement against it are the
structural ones: `validateSolution_withoutCaps_iff`. -/

namespace Dsa

open Theory (Apart Sat)

variable {problem : DsaProblem}

/-! ### Validity -/

theorem findPool_withoutCaps (id : PoolId) : (withoutCaps problem).findPool id =
    (problem.findPool id).map fun pool => { pool with capacity := none } := by
  unfold DsaProblem.findPool withoutCaps
  dsimp only
  rw [List.find?_map]
  rfl

theorem isNone_findPool_withoutCaps (id : PoolId) :
    ((withoutCaps problem).findPool id).isNone = (problem.findPool id).isNone := by
  rw [findPool_withoutCaps, Option.isNone_map]

theorem poolErrors_withoutCaps {ids : List PoolId} {pools : List Pool}
    (h : poolErrors ids pools = []) :
    poolErrors ids (pools.map fun pool => { pool with capacity := none }) = [] := by
  induction pools generalizing ids with
  | nil => rfl
  | cons pool rest ih =>
      simp only [poolErrors, List.append_eq_nil_iff, List.flatMap_eq_nil_iff] at h
      obtain ⟨⟨⟨hid, hranges⟩, hbanks⟩, hrest⟩ := h
      simp only [List.map_cons, poolErrors, List.append_eq_nil_iff, List.flatMap_eq_nil_iff]
      refine ⟨⟨⟨hid, fun range hrange => ?_⟩, hbanks⟩, ih hrest⟩
      have hempty := hranges range hrange
      unfold reservedRangeErrors at hempty ⊢
      rw [List.append_eq_nil_iff] at hempty ⊢
      exact ⟨hempty.1, rfl⟩

theorem pinnedErrors_withoutCaps {ids : List BufferId} {pins : List PinnedAllocation}
    (h : pinnedErrors problem ids pins = []) : pinnedErrors (withoutCaps problem) ids pins = [] := by
  induction pins generalizing ids with
  | nil => rfl
  | cons pinned rest ih =>
      unfold pinnedErrors at h ⊢
      have hfind : (withoutCaps problem).findBuffer pinned.buffer =
          problem.findBuffer pinned.buffer := rfl
      rw [hfind]
      cases hbuffer : problem.findBuffer pinned.buffer with
      | none =>
          rw [hbuffer] at h
          cases h
      | some buffer =>
          rw [hbuffer] at h
          simp only [List.append_eq_nil_iff] at h ⊢
          obtain ⟨⟨⟨⟨hnew, hpool⟩, haligned⟩, haddress⟩, hrest⟩ := h
          rw [isNone_findPool_withoutCaps]
          refine ⟨⟨⟨⟨hnew, hpool⟩, haligned⟩, ?_⟩, ih hrest⟩
          unfold pinnedAddressErrors at haddress ⊢
          split_ifs at haddress with hoverflow
          rw [if_neg hoverflow, findPool_withoutCaps]
          cases hpool : problem.findPool pinned.pool with
          | none => rfl
          | some pool =>
              rw [hpool] at haddress
              dsimp only [Option.map_some] at haddress ⊢
              rw [List.append_eq_nil_iff] at haddress ⊢
              exact ⟨rfl, haddress.2⟩

theorem pyptoErrors_withoutCaps : pyptoErrors (withoutCaps problem) = pyptoErrors problem := by
  have halias : ∀ ids classes, aliasClassErrors (withoutCaps problem) ids classes =
      aliasClassErrors problem ids classes := by
    intro ids classes
    induction classes generalizing ids with
    | nil => rfl
    | cons first rest ih =>
        unfold aliasClassErrors
        rw [ih]
        rfl
  have hmembers : ∀ group seen residues members,
      pipelineMemberErrors (withoutCaps problem) group seen residues members =
        pipelineMemberErrors problem group seen residues members := by
    intro group seen residues members
    induction members generalizing seen residues with
    | nil => rfl
    | cons member rest ih =>
        unfold pipelineMemberErrors
        rw [ih]
        rfl
  have hgroups : ∀ ids groups, pipelineGroupErrors (withoutCaps problem) ids groups =
      pipelineGroupErrors problem ids groups := by
    intro ids groups
    induction groups generalizing ids with
    | nil => rfl
    | cons group rest ih =>
        unfold pipelineGroupErrors
        rw [ih, isNone_findPool_withoutCaps, hmembers]
  have hstructure : (withoutCaps problem).pyptoStructure = problem.pyptoStructure := rfl
  unfold pyptoErrors
  rw [hstructure]
  cases problem.pyptoStructure with
  | none => rfl
  | some pypto =>
      dsimp only
      rw [halias, hgroups]

theorem validateProblem_withoutCaps (h : validateProblem problem = []) :
    validateProblem (withoutCaps problem) = [] := by
  obtain ⟨hpools, hne, hbuffers, hcolocations, hseparations, hexclusions, hpins, hpenalties, hpypto,
    hterms, hrepeat⟩ := (validateProblem_eq_nil_iff problem).mp h
  have hids : (withoutCaps problem).pools.map Pool.id = problem.pools.map Pool.id := by
    unfold withoutCaps
    rw [List.map_map]
    rfl
  refine (validateProblem_eq_nil_iff _).mpr ⟨poolErrors_withoutCaps hpools, ?_, ?_, hcolocations,
    hseparations, hexclusions, pinnedErrors_withoutCaps hpins, hpenalties, ?_, hterms, hrepeat⟩
  · simpa [withoutCaps] using hne
  · rw [hids]
    exact hbuffers
  · rw [pyptoErrors_withoutCaps]
    exact hpypto

/-! ### Classes and nodes -/

theorem prepare_withoutCaps (h : validateProblem problem = []) :
    prepare (withoutCaps problem) = prepare problem := by
  unfold prepare
  rw [if_neg (not_not.mpr (validateProblem_withoutCaps h)), if_neg (not_not.mpr h)]
  rfl

theorem search_withoutCaps (h : validateProblem problem = []) :
    (withoutCaps problem).search = problem.search := by
  have hnode : searchNode (withoutCaps problem) = searchNode problem := rfl
  have hplacement : buildPlacementSearchSpace (withoutCaps problem) =
      buildPlacementSearchSpace problem := by
    unfold buildPlacementSearchSpace
    rw [prepare_withoutCaps h, hnode]
  have hpenalties : (withoutCaps problem).reusePenalties = problem.reusePenalties := rfl
  unfold DsaProblem.search buildReusePenaltySearchSpace
  rw [hplacement, hpenalties]

theorem SearchOk.valid (h : SearchOk problem) : validateProblem problem = [] := h.prepared.valid

theorem SearchOk.withoutCaps (h : SearchOk problem) : SearchOk (withoutCaps problem) where
  noErrors := by
    rw [search_withoutCaps h.valid]
    exact h.noErrors
  fixedPools := by
    rw [search_withoutCaps h.valid]
    exact h.fixedPools
  noPins := h.noPins

theorem nodesConflict_withoutCaps (h : SearchOk problem) {k l : ℕ} :
    NodesConflict (withoutCaps problem) k l ↔ NodesConflict problem k l := by
  have hconflict : superBuffersConflict (Dsa.withoutCaps problem) = superBuffersConflict problem :=
    rfl
  constructor
  · rintro ⟨hne, hpool, hblock⟩
    rw [prepare_withoutCaps h.valid, hconflict] at hblock
    rw [prepare_withoutCaps h.valid] at hpool
    exact ⟨hne, hpool, hblock⟩
  · rintro ⟨hne, hpool, hblock⟩
    refine ⟨hne, ?_, ?_⟩
    · rw [prepare_withoutCaps h.valid]
      exact hpool
    · rw [prepare_withoutCaps h.valid, hconflict]
      exact hblock

/-- The structural checks of a position vector. -/
structure Structural (problem : DsaProblem) (q : ℕ → ℕ) : Prop where
  aligned : ∀ n < problem.search.count, (problem.search.nodeAt n).alignment.toNat ∣ q n
  inRange : ∀ n < problem.search.count, q n + nodeSize problem n < 2 ^ 64
  clear : ∀ n < problem.search.count, ∀ pool,
    problem.findPool (problem.search.nodeAt n).pool = some pool →
      ∀ range ∈ pool.reservedRanges, q n + nodeSize problem n ≤ range.first.toNat ∨
        range.last.toNat ≤ q n
  apart : ∀ k < problem.search.count, ∀ l < problem.search.count, NodesConflict problem k l →
    NodesApart problem q k l

/-- Without capacities the validator accepts exactly the structurally valid placements. -/
theorem validateSolution_withoutCaps_iff (h : SearchOk problem) (offsets : List UInt64) :
    validateSolution (withoutCaps problem) (expandReuseNodeSolution problem.search offsets) = [] ↔
      Structural problem (positions offsets) := by
  have hsearch := search_withoutCaps h.valid
  have hcount : (withoutCaps problem).search.count = problem.search.count := by rw [hsearch]
  have hsize : nodeSize (withoutCaps problem) = nodeSize problem := by
    funext n
    rw [nodeSize, nodeSize, hsearch]
  have hfits : ∀ n < problem.search.count, ∀ pool,
      problem.findPool (problem.search.nodeAt n).pool = some pool → ∀ a,
        ((nodePacking h.withoutCaps).FitsAt n a ↔
          (problem.search.nodeAt n).alignment.toNat ∣ a ∧ a + nodeSize problem n < 2 ^ 64 ∧
            ∀ range ∈ pool.reservedRanges, a + nodeSize problem n ≤ range.first.toNat ∨
              range.last.toNat ≤ a) := by
    intro n hn pool hpool a
    have hfind : (Dsa.withoutCaps problem).findPool
        ((Dsa.withoutCaps problem).search.nodeAt n).pool =
          some { pool with capacity := none } := by
      rw [hsearch, findPool_withoutCaps, hpool]
      rfl
    rw [fitsAt_iff h.withoutCaps hfind, hsearch, hsize]
    refine and_congr_right fun _ => ⟨fun hfit => ⟨hfit.lt, hfit.clear⟩, fun hfit => ⟨?_, hfit.2⟩⟩
    have := hfit.1
    simp only [Option.getD_none, toNat_maxU64]
    omega
  rw [← hsearch, validateSolution_expand_iff h.withoutCaps]
  constructor
  · intro hvalid
    have hfit : ∀ n < problem.search.count,
        (nodePacking h.withoutCaps).FitsAt n (positions offsets n) := fun n hn =>
      hvalid.fits n (Finset.mem_range.mpr (by rw [hcount]; exact hn))
    refine ⟨fun n hn => ?_, fun n hn => ?_, fun n hn pool hpool => ?_, fun k hk l hl hconflict => ?_⟩
    · obtain ⟨pool, hpool⟩ := h.exists_pool hn
      exact ((hfits n hn pool hpool _).mp (hfit n hn)).1
    · obtain ⟨pool, hpool⟩ := h.exists_pool hn
      exact ((hfits n hn pool hpool _).mp (hfit n hn)).2.1
    · exact ((hfits n hn pool hpool _).mp (hfit n hn)).2.2
    · have := hvalid.apart k (Finset.mem_range.mpr (by rw [hcount]; exact hk)) l
        (Finset.mem_range.mpr (by rw [hcount]; exact hl)) ((nodesConflict_withoutCaps h).mpr hconflict)
      unfold NodesApart
      rw [← hsize]
      exact this
  · intro hstructural
    refine ⟨fun n hn => ?_, fun k hk l hl hconflict => ?_⟩
    · have hn : n < problem.search.count := by
        rw [← hcount]
        exact Finset.mem_range.mp hn
      obtain ⟨pool, hpool⟩ := h.exists_pool hn
      exact (hfits n hn pool hpool _).mpr ⟨hstructural.aligned n hn, hstructural.inRange n hn,
        hstructural.clear n hn pool hpool⟩
    · have hk : k < problem.search.count := by
        rw [← hcount]
        exact Finset.mem_range.mp hk
      have hl : l < problem.search.count := by
        rw [← hcount]
        exact Finset.mem_range.mp hl
      have := hstructural.apart k hk l hl ((nodesConflict_withoutCaps h).mp hconflict)
      unfold NodesApart at this
      rw [← hsize] at this
      exact this

end Dsa
