import DsaSolver.NodePacking

/-! # Reuse cost and peaks of a placement of the nodes

The aggregated weights of the search view carry exactly the penalties of the problem, so the
cost of a position vector (`nodeCost`) is the cost the validator recomputes
(`reuseCost_expand`), and it is also the saturating sum of the increments of the search, in any
order (`costInOrder_eq`). -/

namespace Dsa

open Theory (Apart Sat total)

variable {problem : DsaProblem}

/-- The weight of the chosen pairs. -/
def weightOf (problem : DsaProblem) (chosen : ℕ × ℕ → Prop) [DecidablePred chosen] : Sat :=
  total problem.search.softWeights fun pair weight => if chosen pair then ⟨weight⟩ else 0

/-- The reuse cost of a position vector. -/
def nodeCost (problem : DsaProblem) (q : ℕ → ℕ) : Sat :=
  weightOf problem fun pair => ¬ NodesApart problem q pair.1 pair.2

/-! ### The aggregated weights -/

/-- The pair a penalty is added to, if any. -/
def penaltyPair (nodes : List PlacementSearchNode) (hardNeighbors : List (Std.TreeSet ℕ))
    (penalty : ReusePenalty) : Option (ℕ × ℕ) :=
  match nodeByMember nodes penalty.first, nodeByMember nodes penalty.second with
  | some first, some second =>
      if first == second then none
      else if (nodes.getD first {}).pool != (nodes.getD second {}).pool ||
          (hardNeighbors.getD first ∅).contains second then none
      else some (canonicalNodePair first second)
  | _, _ => none

theorem addReusePenalty_eq (nodes : List PlacementSearchNode) (hardNeighbors : List (Std.TreeSet ℕ))
    (weights : Std.TreeMap (ℕ × ℕ) UInt64 pairCompare) (penalty : ReusePenalty) :
    addReusePenalty nodes hardNeighbors weights penalty =
      match penaltyPair nodes hardNeighbors penalty with
      | none => weights
      | some pair => weights.insert pair (saturatingAdd (weights.getD pair 0) penalty.cost) := by
  unfold addReusePenalty penaltyPair
  cases nodeByMember nodes penalty.first with
  | none => rfl
  | some first =>
      cases nodeByMember nodes penalty.second with
      | none => rfl
      | some second =>
          dsimp only
          split_ifs <;> rfl

instance : Std.LawfulEqCmp pairCompare where
  eq_of_compare {a b} h := by
    obtain ⟨h1, h2⟩ := compareLex_eq_eq.mp h
    exact Prod.ext (Std.LawfulEqCmp.eq_of_compare h1) (Std.LawfulEqCmp.eq_of_compare h2)

theorem total_addReusePenalty (nodes : List PlacementSearchNode)
    (hardNeighbors : List (Std.TreeSet ℕ)) (chosen : ℕ × ℕ → Prop) [DecidablePred chosen]
    (penalties : List ReusePenalty) (weights : Std.TreeMap (ℕ × ℕ) UInt64 pairCompare) :
    total (penalties.foldl (addReusePenalty nodes hardNeighbors) weights)
        (fun pair weight => if chosen pair then (⟨weight⟩ : Sat) else 0) =
      total weights (fun pair weight => if chosen pair then (⟨weight⟩ : Sat) else 0) +
        (penalties.map fun penalty => match penaltyPair nodes hardNeighbors penalty with
          | none => (0 : Sat)
          | some pair => if chosen pair then ⟨penalty.cost⟩ else 0).sum := by
  induction penalties generalizing weights with
  | nil => simp
  | cons penalty rest ih =>
      rw [List.foldl_cons, ih, addReusePenalty_eq, List.map_cons, List.sum_cons, ← add_assoc]
      congr 1
      cases hp : penaltyPair nodes hardNeighbors penalty with
      | none => rw [add_zero]
      | some pair =>
          dsimp only
          apply Theory.total_insert
          · intro old hold
            by_cases hc : chosen pair
            · rw [if_pos hc, if_pos hc, if_pos hc, Std.TreeMap.getD_eq_getD_getElem?, hold]
              rfl
            · rw [if_neg hc, if_neg hc, if_neg hc, add_zero]
          · intro hnone
            by_cases hc : chosen pair
            · rw [if_pos hc, if_pos hc, Std.TreeMap.getD_eq_getD_getElem?, hnone]
              exact zero_add (⟨penalty.cost⟩ : Sat)
            · rw [if_neg hc, if_neg hc]

/-- The search view's hard neighbours and nodes, as `penaltyPair` reads them. -/
def nodePair (problem : DsaProblem) (penalty : ReusePenalty) : Option (ℕ × ℕ) :=
  penaltyPair problem.search.placement.nodes problem.search.hardNeighbors penalty

theorem hardNeighbors_eq (h : SearchOk problem) : problem.search.hardNeighbors =
    problem.search.placement.nodes.map (hardNeighborSet problem.search.placement.nodes) := by
  conv_lhs => rw [h.search_eq]

theorem softWeights_eq (h : SearchOk problem) : problem.search.softWeights =
    problem.reusePenalties.foldl (addReusePenalty problem.search.placement.nodes
      problem.search.hardNeighbors) ∅ := by
  rw [hardNeighbors_eq h]
  conv_lhs => rw [h.search_eq]

theorem weightOf_eq_sum (h : SearchOk problem) (chosen : ℕ × ℕ → Prop) [DecidablePred chosen] :
    weightOf problem chosen = (problem.reusePenalties.map fun penalty =>
      match nodePair problem penalty with
      | none => (0 : Sat)
      | some pair => if chosen pair then ⟨penalty.cost⟩ else 0).sum := by
  rw [weightOf, softWeights_eq h, total_addReusePenalty, Theory.total_empty, zero_add]
  rfl

theorem contains_hardNeighbors_iff (h : SearchOk problem) {k : ℕ} (hk : k < problem.search.count)
    (l : ℕ) : (problem.search.hardNeighbors.getD k ∅).contains l = true ↔
      l < problem.search.count ∧ NodesConflict problem k l := by
  rw [← h.mem_hardNeighborsOf hk, ReusePenaltySearchSpace.hardNeighborsOf, Std.TreeSet.mem_toList]
  rfl

theorem nodePair_eq_some (h : SearchOk problem) {penalty : ReusePenalty} {pair : ℕ × ℕ}
    (hp : nodePair problem penalty = some pair) : pair.1 < pair.2 ∧ pair.2 < problem.search.count ∧
      (problem.search.nodeAt pair.1).pool = (problem.search.nodeAt pair.2).pool ∧
        ¬ NodesConflict problem pair.1 pair.2 := by
  have hlt : ∀ {id k}, nodeByMember problem.search.placement.nodes id = some k →
      k < problem.search.count := fun hk => (List.findIdx?_eq_some_iff_getElem.mp hk).1
  unfold nodePair penaltyPair at hp
  cases h1 : nodeByMember problem.search.placement.nodes penalty.first with
  | none => simp [h1] at hp
  | some first =>
      cases h2 : nodeByMember problem.search.placement.nodes penalty.second with
      | none => simp [h1, h2] at hp
      | some second =>
          simp only [h1, h2] at hp
          split_ifs at hp with hc1 hc2
          rw [beq_iff_eq] at hc1
          rw [Bool.or_eq_true, contains_hardNeighbors_iff h (hlt h1), bne_iff_ne, not_or,
            not_not] at hc2
          obtain ⟨hpool, hconf⟩ := hc2
          have hconf' : ¬ NodesConflict problem first second := fun hc => hconf ⟨hlt h2, hc⟩
          obtain rfl := Option.some.inj hp
          unfold canonicalNodePair
          split_ifs with hlt'
          · exact ⟨hlt', hlt h2, hpool, hconf'⟩
          · exact ⟨by show second < first; omega, hlt h1, hpool.symm, fun hc => hconf' hc.symm⟩

/-- Every aggregated pair comes from a penalty. -/
theorem softWeights_mem (h : SearchOk problem) {entry : (ℕ × ℕ) × UInt64}
    (he : entry ∈ problem.search.softWeights.toList) :
    ∃ penalty ∈ problem.reusePenalties, nodePair problem penalty = some entry.1 := by
  rw [Std.TreeMap.mem_toList_iff_getElem?_eq_some, softWeights_eq h] at he
  have key : ∀ (penalties : List ReusePenalty)
      (weights : Std.TreeMap (ℕ × ℕ) UInt64 pairCompare) (weight : UInt64),
      (penalties.foldl (addReusePenalty problem.search.placement.nodes
        problem.search.hardNeighbors) weights)[entry.1]? = some weight →
      (∃ weight', weights[entry.1]? = some weight') ∨
        ∃ penalty ∈ penalties, nodePair problem penalty = some entry.1 := by
    intro penalties
    induction penalties with
    | nil => exact fun weights weight hw => .inl ⟨weight, hw⟩
    | cons penalty rest ih =>
        intro weights weight hw
        rw [List.foldl_cons] at hw
        rcases ih _ _ hw with ⟨weight', hw'⟩ | ⟨p, hp, e⟩
        · rw [addReusePenalty_eq] at hw'
          cases hn : penaltyPair problem.search.placement.nodes problem.search.hardNeighbors
              penalty with
          | none =>
              rw [hn] at hw'
              exact .inl ⟨weight', hw'⟩
          | some pair =>
              rw [hn] at hw'
              dsimp only at hw'
              rw [Std.TreeMap.getElem?_insert] at hw'
              split_ifs at hw' with hc
              · obtain rfl := Std.LawfulEqCmp.eq_of_compare hc
                exact .inr ⟨penalty, List.mem_cons_self, hn⟩
              · exact .inl ⟨weight', hw'⟩
        · exact .inr ⟨p, List.mem_cons_of_mem _ hp, e⟩
  rcases key _ _ _ he with ⟨weight', hw⟩ | hp
  · simp at hw
  · exact hp

theorem softWeights_pair (h : SearchOk problem) {entry : (ℕ × ℕ) × UInt64}
    (he : entry ∈ problem.search.softWeights.toList) :
    entry.1.1 < entry.1.2 ∧ entry.1.2 < problem.search.count ∧
      (problem.search.nodeAt entry.1.1).pool = (problem.search.nodeAt entry.1.2).pool ∧
        ¬ NodesConflict problem entry.1.1 entry.1.2 := by
  obtain ⟨penalty, -, hp⟩ := softWeights_mem h he
  exact nodePair_eq_some h hp

/-- Only the weighted pairs count. -/
theorem weightOf_congr_mem {chosen chosen' : ℕ × ℕ → Prop} [DecidablePred chosen]
    [DecidablePred chosen'] (hc : ∀ entry ∈ problem.search.softWeights.toList,
      (chosen entry.1 ↔ chosen' entry.1)) : weightOf problem chosen = weightOf problem chosen' :=
  Theory.total_congr fun entry he => if_congr (hc entry he) rfl rfl

theorem weightOf_congr (h : SearchOk problem) {chosen chosen' : ℕ × ℕ → Prop}
    [DecidablePred chosen] [DecidablePred chosen']
    (hc : ∀ pair : ℕ × ℕ, pair.1 < pair.2 → pair.2 < problem.search.count →
      (problem.search.nodeAt pair.1).pool = (problem.search.nodeAt pair.2).pool →
        (chosen pair ↔ chosen' pair)) :
    weightOf problem chosen = weightOf problem chosen' := by
  refine weightOf_congr_mem fun entry he => ?_
  obtain ⟨h1, h2, h3, -⟩ := softWeights_pair h he
  exact hc entry.1 h1 h2 h3

theorem weightOf_mono (h : SearchOk problem) {chosen chosen' : ℕ × ℕ → Prop}
    [DecidablePred chosen] [DecidablePred chosen']
    (hc : ∀ pair : ℕ × ℕ, pair.1 < pair.2 → pair.2 < problem.search.count →
      (problem.search.nodeAt pair.1).pool = (problem.search.nodeAt pair.2).pool →
        chosen pair → chosen' pair) :
    weightOf problem chosen ≤ weightOf problem chosen' := by
  apply Theory.total_le
  intro entry he
  obtain ⟨h1, h2, h3, -⟩ := softWeights_pair h he
  by_cases h4 : chosen entry.1
  · rw [if_pos h4, if_pos (hc entry.1 h1 h2 h3 h4)]
  · rw [if_neg h4]
    exact Theory.Sat.zero_le _

/-- A cost of node pairs is the sum of its shares in the pools. -/
theorem weightOf_pools (h : SearchOk problem) (chosen : ℕ × ℕ → Prop) [DecidablePred chosen] :
    weightOf problem chosen = (problem.pools.map fun pool => weightOf problem fun pair =>
      (problem.search.nodeAt pair.1).pool = pool.id ∧ chosen pair).sum := by
  have key : ∀ pools : List Pool, (pools.map Pool.id).Nodup →
      (weightOf problem fun pair => (problem.search.nodeAt pair.1).pool ∈ pools.map Pool.id ∧
        chosen pair) = (pools.map fun pool => weightOf problem fun pair =>
          (problem.search.nodeAt pair.1).pool = pool.id ∧ chosen pair).sum := by
    intro pools hnd
    induction pools with
    | nil =>
        unfold weightOf Theory.total
        simp
    | cons pool rest ih =>
        rw [List.map_cons, List.nodup_cons] at hnd
        rw [List.map_cons, List.map_cons, List.sum_cons, ← ih hnd.2]
        unfold weightOf
        rw [← Theory.total_add]
        refine Theory.total_congr fun entry _ => ?_
        by_cases hpool : (problem.search.nodeAt entry.1.1).pool = pool.id
        · by_cases hchosen : chosen entry.1
          · simp [hpool, hnd.1, hchosen]
          · simp [hchosen]
        · by_cases hchosen : chosen entry.1
          · simp [hpool, hchosen]
          · simp [hchosen]
  rw [← key problem.pools h.prepared.wellFormed.poolIds]
  refine weightOf_congr h fun pair hlt hcount _ => ?_
  obtain ⟨pool, hpool⟩ := h.exists_pool (hlt.trans hcount)
  have hmem : (problem.search.nodeAt pair.1).pool ∈ problem.pools.map Pool.id := by
    rw [← findPool_id hpool]
    exact List.mem_map_of_mem (findPool_mem hpool)
  exact ⟨fun hchosen => ⟨hmem, hchosen⟩, fun hc => hc.2⟩

/-! ### The recomputed cost -/

/-- In a valid expanded solution the penalty is paid exactly when the nodes of its aggregated
pair overlap. -/
theorem penaltyPaid_expand_iff (h : SearchOk problem) {offsets : List UInt64}
    (hv : (nodePacking h).Valid (positions offsets)) {penalty : ReusePenalty}
    (hp : penalty ∈ problem.reusePenalties) :
    penaltyPaid problem (expandReuseNodeSolution problem.search offsets) penalty = true ↔
      ∃ pair, nodePair problem penalty = some pair ∧
        ¬ NodesApart problem (positions offsets) pair.1 pair.2 := by
  have hok := (classPlacementOk_iff_valid h offsets).mpr hv
  have hnd := h.prepared.wellFormed.bufferIds
  obtain ⟨h1, h2⟩ := h.prepared.wellFormed.penalties penalty hp
  obtain ⟨i, hi, ei⟩ := knownBuffer_iff.mp h1
  obtain ⟨j, hj, ej⟩ := knownBuffer_iff.mp h2
  have hki := h.classOf_lt hi
  have hkj := h.classOf_lt hj
  have hroot : ((colocationSets problem).root i == (colocationSets problem).root j) =
      (classOf problem i == classOf problem j) := by
    rw [Bool.eq_iff_iff, beq_iff_eq, beq_iff_eq]
    exact (h.prepared.classOf_eq_iff i hi j hj).symm
  have hover := hok.overlap_iff h.prepared (h.lt_supers hki) (h.lt_supers hkj)
  have hpools : ∀ {k}, (nodePlacement problem offsets k).pool = (problem.search.nodeAt k).pool :=
    rfl
  rw [← h.size_eq hki, ← h.size_eq hkj, hpools, hpools] at hover
  have hpaid : penaltyPaid problem (expandReuseNodeSolution problem.search offsets) penalty =
      (!(classOf problem i == classOf problem j) &&
        !haveTemporalConflict problem (problem.bufferAt i) (problem.bufferAt j) &&
        placementsOverlap (nodePlacement problem offsets (classOf problem i))
          (problem.search.nodeAt (classOf problem i)).size
          (nodePlacement problem offsets (classOf problem j))
          (problem.search.nodeAt (classOf problem j)).size) := by
    unfold penaltyPaid
    rw [← ei, ← ej, findBuffer_bufferAt hnd hi, findBuffer_bufferAt hnd hj,
      find_expand_of_member h offsets hi, find_expand_of_member h offsets hj,
      bufferIndices_bufferAt hnd hi, bufferIndices_bufferAt hnd hj]
    dsimp only
    rw [h.prepared.allocationExtent_eq hi, h.prepared.allocationExtent_eq hj, ← h.size_eq hki,
      ← h.size_eq hkj, hroot]
  have hpair : ∀ pair, nodePair problem penalty = some pair ↔ classOf problem i ≠ classOf problem j ∧
      (problem.search.nodeAt (classOf problem i)).pool =
        (problem.search.nodeAt (classOf problem j)).pool ∧
      ¬ NodesConflict problem (classOf problem i) (classOf problem j) ∧
      canonicalNodePair (classOf problem i) (classOf problem j) = pair := by
    intro pair
    unfold nodePair penaltyPair
    rw [← ei, ← ej, h.nodeByMember_eq hi, h.nodeByMember_eq hj]
    dsimp only
    split_ifs with hc1 hc2
    · simp only [beq_iff_eq] at hc1
      simp [hc1]
    · rw [Bool.or_eq_true, contains_hardNeighbors_iff h hki, bne_iff_ne] at hc2
      simp only [false_iff]
      rintro ⟨-, h3, h4, -⟩
      rcases hc2 with hc2 | hc2
      · exact hc2 h3
      · exact h4 hc2.2
    · rw [beq_iff_eq] at hc1
      rw [Bool.or_eq_true, contains_hardNeighbors_iff h hki, bne_iff_ne, not_or, not_not] at hc2
      rw [Option.some.injEq]
      exact ⟨fun e => ⟨hc1, hc2.1, fun hc => hc2.2 ⟨hkj, hc⟩, e⟩, fun e => e.2.2.2⟩
  have hcanon : ∀ k l, (NodesApart problem (positions offsets) (canonicalNodePair k l).1
      (canonicalNodePair k l).2 ↔ NodesApart problem (positions offsets) k l) := by
    intro k l
    unfold canonicalNodePair
    split_ifs
    · exact Iff.rfl
    · exact nodesApart_comm
  rw [hpaid, Bool.and_eq_true, Bool.and_eq_true, Bool.not_eq_true', Bool.not_eq_true',
    beq_eq_false_iff_ne, ← Bool.not_eq_false (placementsOverlap _ _ _ _), hover]
  constructor
  · rintro ⟨⟨hne, hnt⟩, hnot⟩
    push Not at hnot
    obtain ⟨hpool, hap⟩ := hnot
    have hap' : ¬ NodesApart problem (positions offsets) (classOf problem i) (classOf problem j) :=
      hap
    have hnc : ¬ NodesConflict problem (classOf problem i) (classOf problem j) := fun hc =>
      hap' (hv.apart _ (Finset.mem_range.mpr hki) _ (Finset.mem_range.mpr hkj) hc)
    refine ⟨canonicalNodePair (classOf problem i) (classOf problem j), ?_, ?_⟩
    · exact (hpair _).mpr ⟨hne, hpool, hnc, rfl⟩
    · rwa [hcanon]
  · rintro ⟨pair, hsome, hap⟩
    obtain ⟨hc1, hpool, hnc, rfl⟩ := (hpair pair).mp hsome
    rw [hcanon] at hap
    refine ⟨⟨hc1, ?_⟩, fun hall => hap (hall hpool)⟩
    -- a lifetime conflict of two members is a conflict of the nodes
    rw [← Bool.not_eq_true]
    intro hconf
    refine hnc ⟨hc1, ?_, .inl ?_⟩
    · rw [← h.pool_eq hki, ← h.pool_eq hkj]
      exact hpool
    · exact superBuffersConflict_iff.mpr
        ⟨i, (h.prepared.members _ (h.lt_supers hki) i).mpr ⟨hi, rfl⟩, j,
          (h.prepared.members _ (h.lt_supers hkj) j).mpr ⟨hj, rfl⟩, hconf⟩

/-- **The cost the validator recomputes is the cost of the positions.** -/
theorem reuseCost_expand (h : SearchOk problem) {offsets : List UInt64}
    (hv : (nodePacking h).Valid (positions offsets)) :
    (evaluateObjective problem (expandReuseNodeSolution problem.search offsets)).reuseCost =
      (nodeCost problem (positions offsets)).val := by
  show problem.reusePenalties.foldl _ 0 = _
  rw [Theory.foldl_satAdd, nodeCost, weightOf_eq_sum h]
  have h0 : (⟨0⟩ : Sat) = 0 := rfl
  rw [h0, zero_add]
  congr 2
  apply List.map_congr_left
  intro penalty hp
  have hiff := penaltyPaid_expand_iff h hv hp
  cases hn : nodePair problem penalty with
  | none =>
      rw [if_neg]
      rw [hiff, hn]
      rintro ⟨pair, hsome, -⟩
      cases hsome
  | some pair =>
      apply if_congr _ rfl rfl
      rw [hiff, hn]
      exact ⟨fun ⟨p, hp, hap⟩ => Option.some.inj hp ▸ hap, fun hap => ⟨pair, rfl, hap⟩⟩

end Dsa
