import DsaSolver.TreewidthTables
import DsaSolver.UnitPools

/-! # The potentials of the treewidth solver

`BuildPotentials` forbids the colour pairs of nodes in conflict and charges the weights of the
others (`potentialAt_build`), so the cost of its factors is the cost of the pairs of one colour
where the colouring is proper, and infinite elsewhere (`totalAt_pairFactors`). -/

namespace Dsa

namespace TreewidthPartitionDpSolver

open Theory (Sat total)

section lookup

variable {search : ReusePenaltySearchSpace} {nodes : List ℕ}

theorem mem_poolNodes_iff {pool : PoolId} {n : ℕ} :
    n ∈ poolNodes search pool ↔ n ∈ PoolCanonicalSearch.poolNodes search pool := by
  rw [PoolCanonicalSearch.mem_poolNodes]
  unfold poolNodes
  rw [List.mem_filter, List.mem_range, beq_iff_eq]

theorem length_poolNodes (search : ReusePenaltySearchSpace) (pool : PoolId) :
    (poolNodes search pool).length = (PoolCanonicalSearch.poolNodes search pool).length := by
  unfold PoolCanonicalSearch.poolNodes poolNodes
  exact (List.length_insertionSort _ _).symm

/-- The potential of a pair; an absent one allows every colour for nothing. -/
def potentialAt (potentials : Potentials) (pair : ℕ × ℕ) : PairPotential :=
  potentials.getD pair {}

theorem potentialAt_insert (potentials : Potentials) (pair other : ℕ × ℕ)
    (potential : PairPotential) : potentialAt (potentials.insert pair potential) other =
      if pair = other then potential else potentialAt potentials other := by
  unfold potentialAt
  rw [Std.TreeMap.getD_insert]
  exact if_congr Std.LawfulEqCmp.compare_eq_iff_eq rfl rfl

/-! ### The hard pairs -/

/-- A pair that the loop over the hard neighbours of `node` forbids. -/
def HardPairOf (search : ReusePenaltySearchSpace) (nodes : List ℕ) (node : ℕ) (pair : ℕ × ℕ) :
    Prop :=
  pair.1 = node ∧ node < pair.2 ∧ pair.2 ∈ nodes ∧ pair.2 ∈ search.hardNeighborsOf node

theorem potentialAt_addHardPairs (potentials : Potentials) (node : ℕ) (pair : ℕ × ℕ) :
    ((potentialAt (addHardPairs search nodes potentials node) pair).hard = true ↔
      (potentialAt potentials pair).hard = true ∨ HardPairOf search nodes node pair) ∧
    (potentialAt (addHardPairs search nodes potentials node) pair).softWeight =
      (potentialAt potentials pair).softWeight := by
  unfold addHardPairs HardPairOf
  generalize search.hardNeighborsOf node = neighbors
  induction neighbors generalizing potentials with
  | nil => simp
  | cons neighbor rest ih =>
      rw [List.foldl_cons]
      obtain ⟨hhard, hsoft⟩ := ih (if node < neighbor && nodes.contains neighbor then
        potentials.insert (node, neighbor)
          { potentials.getD (node, neighbor) {} with hard := true }
        else potentials)
      rw [hhard, hsoft]
      split_ifs with hadded
      · rw [Bool.and_eq_true, decide_eq_true_iff, List.contains_iff_mem] at hadded
        rw [potentialAt_insert]
        split_ifs with hpair
        · subst hpair
          exact ⟨by simp [hadded.1, hadded.2], rfl⟩
        · refine ⟨or_congr_right ?_, rfl⟩
          constructor
          · rintro ⟨hfirst, hlt, hmem, hrest⟩
            exact ⟨hfirst, hlt, hmem, List.mem_cons_of_mem _ hrest⟩
          · rintro ⟨hfirst, hlt, hmem, hin⟩
            refine ⟨hfirst, hlt, hmem, (List.mem_cons.mp hin).resolve_left fun hsecond => ?_⟩
            exact hpair (Prod.ext hfirst.symm hsecond.symm)
      · refine ⟨or_congr_right ?_, rfl⟩
        constructor
        · rintro ⟨hfirst, hlt, hmem, hrest⟩
          exact ⟨hfirst, hlt, hmem, List.mem_cons_of_mem _ hrest⟩
        · rintro ⟨hfirst, hlt, hmem, hin⟩
          refine ⟨hfirst, hlt, hmem, (List.mem_cons.mp hin).resolve_left ?_⟩
          rintro rfl
          exact hadded (by simp [hlt, hmem])

theorem potentialAt_hardPairs (some : List ℕ) (potentials : Potentials) (pair : ℕ × ℕ) :
    ((potentialAt (some.foldl (addHardPairs search nodes) potentials) pair).hard = true ↔
      (potentialAt potentials pair).hard = true ∨
        pair.1 ∈ some ∧ HardPairOf search nodes pair.1 pair) ∧
    (potentialAt (some.foldl (addHardPairs search nodes) potentials) pair).softWeight =
      (potentialAt potentials pair).softWeight := by
  induction some generalizing potentials with
  | nil => simp
  | cons node rest ih =>
      obtain ⟨hhard, hsoft⟩ := ih (addHardPairs search nodes potentials node)
      obtain ⟨hhard', hsoft'⟩ := @potentialAt_addHardPairs search nodes potentials node pair
      rw [List.foldl_cons, hhard, hsoft, hhard', hsoft', or_assoc]
      refine ⟨or_congr_right ?_, rfl⟩
      constructor
      · rintro (hnode | ⟨hmem, hpair⟩)
        · obtain rfl := hnode.1
          exact ⟨List.mem_cons_self, hnode⟩
        · exact ⟨List.mem_cons_of_mem _ hmem, hpair⟩
      · rintro ⟨hmem, hpair⟩
        rcases List.mem_cons.mp hmem with hnode | hmem
        · exact .inl (hnode ▸ hpair)
        · exact .inr ⟨hmem, hpair⟩

/-! ### The soft pairs -/

theorem potentialAt_softPairs {entries : List ((ℕ × ℕ) × UInt64)}
    (hdistinct : (entries.map Prod.fst).Nodup) (potentials : Potentials) (pair : ℕ × ℕ) :
    (potentialAt (entries.foldl (addSoftPair nodes) potentials) pair).hard =
      (potentialAt potentials pair).hard ∧
    (∀ weight, (pair, weight) ∈ entries → pair.1 ∈ nodes → pair.2 ∈ nodes →
      (potentialAt (entries.foldl (addSoftPair nodes) potentials) pair).softWeight = weight) ∧
    (pair ∉ entries.map Prod.fst ∨ pair.1 ∉ nodes ∨ pair.2 ∉ nodes →
      (potentialAt (entries.foldl (addSoftPair nodes) potentials) pair).softWeight =
        (potentialAt potentials pair).softWeight) := by
  induction entries generalizing potentials with
  | nil => simp
  | cons entry rest ih =>
      rw [List.map_cons, List.nodup_cons] at hdistinct
      obtain ⟨hhard, hfound, hkept⟩ := ih hdistinct.2 (addSoftPair nodes potentials entry)
      rw [List.foldl_cons]
      have hstep : potentialAt (addSoftPair nodes potentials entry) pair =
          if (entry.1.1 ∈ nodes ∧ entry.1.2 ∈ nodes) ∧ entry.1 = pair then
            { potentialAt potentials pair with softWeight := entry.2 }
          else potentialAt potentials pair := by
        unfold addSoftPair
        by_cases hin : entry.1.1 ∈ nodes ∧ entry.1.2 ∈ nodes
        · rw [if_pos (by simpa using hin), potentialAt_insert]
          by_cases hpair : entry.1 = pair
          · rw [if_pos hpair, if_pos ⟨hin, hpair⟩, hpair]
            rfl
          · rw [if_neg hpair, if_neg fun h => hpair h.2]
        · rw [if_neg (by simpa using hin), if_neg fun h => hin h.1]
      refine ⟨?_, fun weight hmem hfirst hsecond => ?_, fun hnone => ?_⟩
      · rw [hhard, hstep]
        split_ifs <;> rfl
      · rcases List.mem_cons.mp hmem with rfl | hmem
        · rw [hkept (.inl hdistinct.1), hstep, if_pos ⟨⟨hfirst, hsecond⟩, rfl⟩]
        · exact hfound weight hmem hfirst hsecond
      · rw [hkept (hnone.imp_left fun h hmem => h (List.mem_cons_of_mem _ hmem)), hstep]
        rw [if_neg]
        rintro ⟨⟨hfirst, hsecond⟩, rfl⟩
        rcases hnone with h | h | h
        · exact h List.mem_cons_self
        · exact h hfirst
        · exact h hsecond

/-- What `BuildPotentials` says of a pair. -/
theorem potentialAt_build (pair : ℕ × ℕ) :
    ((potentialAt (buildPotentials search nodes) pair).hard = true ↔
      pair.1 ∈ nodes ∧ HardPairOf search nodes pair.1 pair) ∧
    (potentialAt (buildPotentials search nodes) pair).softWeight =
      if pair.1 ∈ nodes ∧ pair.2 ∈ nodes then search.softWeights.getD pair 0 else 0 := by
  have hempty : potentialAt ∅ pair = {} := rfl
  have hdistinct : (search.softWeights.toList.map Prod.fst).Nodup := by
    rw [Std.TreeMap.map_fst_toList_eq_keys]
    exact Std.TreeMap.nodup_keys
  unfold buildPotentials
  obtain ⟨hhard, hsoft⟩ := @potentialAt_hardPairs search nodes nodes ∅ pair
  obtain ⟨hhard', hfound, hkept⟩ := @potentialAt_softPairs nodes _ hdistinct
    (nodes.foldl (addHardPairs search nodes) ∅) pair
  refine ⟨?_, ?_⟩
  · rw [hhard', hhard, hempty]
    simp
  · rw [hsoft, hempty] at hkept
    split_ifs with hin
    · cases hget : search.softWeights[pair]? with
      | none =>
          rw [hkept (.inl fun hmem => ?_), Std.TreeMap.getD_eq_getD_getElem?, hget]
          · rfl
          · obtain ⟨entry, hentry, rfl⟩ := List.mem_map.mp hmem
            rw [Std.TreeMap.mem_toList_iff_getElem?_eq_some.mp hentry] at hget
            cases hget
      | some weight =>
          rw [hfound weight (Std.TreeMap.mem_toList_iff_getElem?_eq_some.mpr hget) hin.1 hin.2,
            Std.TreeMap.getD_eq_getD_getElem?, hget]
          rfl
    · exact hkept (.inr (by tauto))

end lookup

/-! ### The cost of the factors -/

/-- The cost of a pair under a colouring. -/
def PairPotential.costAt (potential : PairPotential) (same : Prop) [Decidable same] :
    WithTop Sat :=
  if same then (if potential.hard then ⊤ else ((⟨potential.softWeight⟩ : Sat) : WithTop Sat))
  else 0

theorem canonicalPartition_pair (first second : UInt32) :
    canonicalPartition [first, second] = if first = second then [0, 0] else [0, 1] := by
  rw [canonicalPartition_eq_map]
  unfold classAmong Theory.distinct
  by_cases hsame : first = second
  · subst hsame
    simp [Theory.addSeen]
  · have hbeq : (first == second) = false := beq_eq_false_iff_ne.mpr hsame
    simp [Theory.addSeen, hsame, Ne.symm hsame, List.idxOf_cons, hbeq]

theorem costAt_pairFactor (first second : ℕ) (potential : PairPotential) (f : ℕ → UInt32) :
    (pairFactor first second potential).costAt f = potential.costAt (f first = f second) := by
  have hcanonical : canonicalPartition (List.map f [first, second]) = _ :=
    canonicalPartition_pair (f first) (f second)
  unfold Factor.costAt pairFactor PairPotential.costAt
  dsimp only
  rw [hcanonical, Std.TreeMap.getElem?_insert, Std.TreeMap.getElem?_insert]
  by_cases hsame : f first = f second
  · rw [if_pos hsame, if_pos hsame, if_neg (by decide), if_pos (by decide), Option.elim_some]
    unfold TableValue.toTop
    cases potential.hard <;> rfl
  · rw [if_neg hsame, if_neg hsame, if_pos (by decide)]
    rfl

theorem totalAt_pairFactors_eq (potentials : Potentials) (f : ℕ → UInt32) :
    totalAt (pairFactors potentials) f =
      total potentials fun pair potential => potential.costAt (f pair.1 = f pair.2) := by
  unfold totalAt pairFactors total
  rw [List.map_map]
  exact congrArg List.sum (List.map_congr_left fun entry _ => costAt_pairFactor _ _ _ _)

/-- A sum of saturating words in the extended order. -/
theorem coe_total {α β : Type*} {cmp : α → α → Ordering} (m : Std.TreeMap α β cmp)
    (g : α → β → Sat) : ((total m g : Sat) : WithTop Sat) =
      total m fun k v => (g k v : WithTop Sat) := by
  unfold total
  rw [← WithTop.coe_addHom, map_list_sum, List.map_map]
  rfl

section pool

variable {problem : DsaProblem} {pool : PoolId}

/-- The potentials of a pool. -/
theorem potentialAt_pool (h : SearchOk problem) (pair : ℕ × ℕ) :
    ((potentialAt (buildPotentials problem.search (poolNodes problem.search pool)) pair).hard =
        true ↔ (pair.1 ∈ PoolCanonicalSearch.poolNodes problem.search pool ∧
          pair.2 ∈ PoolCanonicalSearch.poolNodes problem.search pool) ∧ pair.1 < pair.2 ∧
            NodesConflict problem pair.1 pair.2) ∧
    (potentialAt (buildPotentials problem.search (poolNodes problem.search pool)) pair).softWeight =
      if pair.1 ∈ PoolCanonicalSearch.poolNodes problem.search pool ∧
          pair.2 ∈ PoolCanonicalSearch.poolNodes problem.search pool then
        problem.search.softWeights.getD pair 0 else 0 := by
  obtain ⟨hhard, hsoft⟩ := @potentialAt_build problem.search (poolNodes problem.search pool) pair
  refine ⟨?_, ?_⟩
  · rw [hhard, mem_poolNodes_iff]
    unfold HardPairOf
    rw [mem_poolNodes_iff]
    constructor
    · rintro ⟨hfirst, -, hlt, hsecond, hin⟩
      have hcount := PoolCanonicalSearch.lt_of_mem_poolNodes hfirst
      exact ⟨⟨hfirst, hsecond⟩, hlt, ((h.mem_hardNeighborsOf hcount _).mp hin).2⟩
    · rintro ⟨⟨hfirst, hsecond⟩, hlt, hconflict⟩
      have hcount := PoolCanonicalSearch.lt_of_mem_poolNodes hfirst
      exact ⟨hfirst, rfl, hlt, hsecond, (h.mem_hardNeighborsOf hcount _).mpr
        ⟨PoolCanonicalSearch.lt_of_mem_poolNodes hsecond, hconflict⟩⟩
  · rw [hsoft]
    exact if_congr (and_congr mem_poolNodes_iff mem_poolNodes_iff) rfl rfl

theorem costAt_default (same : Prop) [Decidable same] :
    ({} : PairPotential).costAt same = 0 := by
  unfold PairPotential.costAt
  by_cases hsame : same
  · rw [if_pos hsame, if_neg Bool.false_ne_true]
    rfl
  · rw [if_neg hsame]

theorem zero_le_cost (cost : WithTop Sat) : 0 ≤ cost := by
  induction cost using WithTop.recTopCoe with
  | top => exact le_top
  | coe cost => exact WithTop.coe_le_coe.mpr (Sat.zero_le cost)

/-- **The cost of the factors of a proper colouring** is that of its pairs of one colour. -/
theorem totalAt_of_proper (h : SearchOk problem) {f : ℕ → UInt32}
    (hproper : ∀ n ∈ PoolCanonicalSearch.poolNodes problem.search pool,
      ∀ m ∈ PoolCanonicalSearch.poolNodes problem.search pool,
        NodesConflict problem n m → f n ≠ f m) :
    totalAt (pairFactors (buildPotentials problem.search (poolNodes problem.search pool))) f =
      ((colorCost problem pool fun n => (f n).toNat : Sat) : WithTop Sat) := by
  rw [totalAt_pairFactors_eq]
  unfold colorCost weightOf
  rw [coe_total]
  refine Theory.total_congr_keys fun pair => ?_
  obtain ⟨hhard, hsoft⟩ := @potentialAt_pool problem pool h pair
  have hpotential : ((buildPotentials problem.search (poolNodes problem.search pool))[pair]?).elim
      0 (fun potential => potential.costAt (f pair.1 = f pair.2)) =
        (potentialAt (buildPotentials problem.search (poolNodes problem.search pool)) pair).costAt
          (f pair.1 = f pair.2) := by
    unfold potentialAt
    rw [Std.TreeMap.getD_eq_getD_getElem?]
    cases (buildPotentials problem.search (poolNodes problem.search pool))[pair]? with
    | none => exact (costAt_default _).symm
    | some potential => rfl
  rw [hpotential]
  generalize potentialAt (buildPotentials problem.search (poolNodes problem.search pool)) pair =
    potential at hhard hsoft
  unfold PairPotential.costAt
  by_cases hsame : f pair.1 = f pair.2
  · have hnot : potential.hard = false := by
      rw [Bool.eq_false_iff]
      intro hyes
      obtain ⟨⟨hfirst, hsecond⟩, -, hconflict⟩ := hhard.mp hyes
      exact hproper _ hfirst _ hsecond hconflict hsame
    rw [if_pos hsame, hnot, if_neg Bool.false_ne_true, hsoft, Std.TreeMap.getD_eq_getD_getElem?]
    cases problem.search.softWeights[pair]? with
    | none => simp; rfl
    | some weight =>
        simp only [Option.getD_some, Option.elim_some, hsame, and_true]
        split_ifs <;> rfl
  · rw [if_neg hsame]
    cases problem.search.softWeights[pair]? with
    | none => rfl
    | some weight =>
        rw [Option.elim_some, if_neg fun hchosen => hsame (UInt32.toNat_inj.mp hchosen.2.2)]
        rfl

/-- A colouring that is not proper is infinitely dear. -/
theorem totalAt_of_improper (h : SearchOk problem) {f : ℕ → UInt32} {n m : ℕ}
    (hn : n ∈ PoolCanonicalSearch.poolNodes problem.search pool)
    (hm : m ∈ PoolCanonicalSearch.poolNodes problem.search pool)
    (hconflict : NodesConflict problem n m) (hsame : f n = f m) :
    totalAt (pairFactors (buildPotentials problem.search (poolNodes problem.search pool))) f = ⊤ := by
  -- the smaller node first
  wlog hlt : n < m generalizing n m
  · exact this hm hn hconflict.symm hsame.symm
      (lt_of_le_of_ne (not_lt.mp hlt) hconflict.ne.symm)
  obtain ⟨hhard, -⟩ := @potentialAt_pool problem pool h (n, m)
  have hyes := hhard.mpr ⟨⟨hn, hm⟩, hlt, hconflict⟩
  rw [totalAt_pairFactors_eq]
  unfold potentialAt at hyes
  rw [Std.TreeMap.getD_eq_getD_getElem?] at hyes
  generalize buildPotentials problem.search (poolNodes problem.search pool) = potentials at hyes ⊢
  cases hget : potentials[((n, m) : ℕ × ℕ)]? with
  | none =>
      rw [hget] at hyes
      cases hyes
  | some potential =>
      rw [hget, Option.getD_some] at hyes
      have hmem := Std.TreeMap.mem_toList_iff_getElem?_eq_some.mpr hget
      refine top_le_iff.mp ?_
      unfold total
      refine le_trans (le_of_eq ?_) (List.single_le_sum (fun cost _ => zero_le_cost cost) _
        (List.mem_map_of_mem hmem))
      unfold PairPotential.costAt
      dsimp only
      rw [if_pos hsame, if_pos hyes]

end pool

end TreewidthPartitionDpSolver

end Dsa
