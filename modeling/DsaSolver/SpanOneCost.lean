import DsaSolver.SpanOneColors

/-! # The cost of a colouring of the phases

Every soft edge of a pool connects consecutive phases, so the exact cost of a colouring is the sum
of the costs between them (`exactCost_eq`).  A colouring that is cheapest between every two
consecutive phases is therefore cheapest (`exactCost_le`). -/

namespace Dsa

namespace SpanOneMinCostFlowSolver

open Theory (Sat total meets)
open PoolTwoSearch (nodes mem_nodes lt_of_mem_nodes HardPair)
open PoolCanonicalSearch (poolNodes)

variable {problem : DsaProblem} {pool : PoolId} {f g : ℕ → ℕ}

theorem sum_map_finsetSum {α ι : Type} (l : List α) (s : Finset ι) (F : α → ι → ℕ) :
    (l.map fun a => ∑ b ∈ s, F a b).sum = ∑ b ∈ s, (l.map fun a => F a b).sum := by
  induction l with
  | nil => simp
  | cons a l ih =>
      simp only [List.map_cons, List.sum_cons]
      rw [Finset.sum_add_distrib, ih]

/-! ### Exact costs -/

/-- The cost of the pairs of one colour, as a natural number. -/
def exactCost (problem : DsaProblem) (pool : PoolId) (f : ℕ → ℕ) : ℕ :=
  total problem.search.softWeights fun pair weight =>
    if pair.1 ∈ poolNodes problem.search pool ∧ pair.2 ∈ poolNodes problem.search pool ∧
      f pair.1 = f pair.2 then weight.toNat else 0

theorem toNat_colorCost (problem : DsaProblem) (pool : PoolId) (f : ℕ → ℕ) :
    (colorCost problem pool f).toNat = min (2 ^ 64 - 1) (exactCost problem pool f) := by
  unfold colorCost weightOf exactCost total
  rw [Sat.toNat_sum, List.map_map]
  refine congrArg (min _) (congrArg List.sum (List.map_congr_left fun entry _ => ?_))
  dsimp only [Function.comp_apply]
  split_ifs <;> rfl

theorem colorCost_le_of_exact (hle : exactCost problem pool f ≤ exactCost problem pool g) :
    colorCost problem pool f ≤ colorCost problem pool g := by
  rw [Sat.le_iff, toNat_colorCost, toNat_colorCost]
  omega

/-! ### The edges between two phases -/

section boundary

variable {left right : List ℕ}

/-- The pairs of nodes of two phases. -/
def boundaryPairs (left right : List ℕ) : List (ℕ × ℕ) :=
  (List.range left.length ×ˢ List.range right.length).map fun pair =>
    canonicalNodePair (left.getD pair.1 0) (right.getD pair.2 0)

theorem canonicalNodePair_eq_iff {a b c d : ℕ} : canonicalNodePair a b = canonicalNodePair c d ↔
    a = c ∧ b = d ∨ a = d ∧ b = c := by
  unfold canonicalNodePair
  split_ifs <;> simp only [Prod.mk.injEq] <;> omega

theorem nodup_boundaryPairs (hleft : left.Nodup) (hright : right.Nodup)
    (hdisjoint : ∀ n ∈ left, n ∉ right) : (boundaryPairs left right).Nodup := by
  refine (List.nodup_range.product List.nodup_range).map_on fun p hp p' hp' heq => ?_
  rw [List.mem_product, List.mem_range, List.mem_range] at hp hp'
  rcases canonicalNodePair_eq_iff.mp heq with ⟨hl, hr⟩ | ⟨hl, -⟩
  · exact Prod.ext (Theory.getD_inj_of_nodup hleft hp.1 hp'.1 hl)
      (Theory.getD_inj_of_nodup hright hp.2 hp'.2 hr)
  · refine absurd ?_ (hdisjoint _ (getD_mem hp.1))
    rw [hl]
    exact getD_mem hp'.2

theorem mem_boundaryPairs {a b : ℕ} (ha : a ∈ left) (hb : b ∈ right) :
    canonicalNodePair a b ∈ boundaryPairs left right := by
  obtain ⟨l, hl, rfl⟩ := List.mem_iff_getElem.mp ha
  obtain ⟨r, hr, rfl⟩ := List.mem_iff_getElem.mp hb
  refine List.mem_map.mpr ⟨(l, r), List.mem_product.mpr
    ⟨List.mem_range.mpr hl, List.mem_range.mpr hr⟩, ?_⟩
  rw [List.getD_eq_getElem _ _ hl, List.getD_eq_getElem _ _ hr]

theorem exists_of_mem_boundaryPairs {pair : ℕ × ℕ} (hpair : pair ∈ boundaryPairs left right) :
    ∃ a ∈ left, ∃ b ∈ right, pair = canonicalNodePair a b := by
  obtain ⟨p, hp, rfl⟩ := List.mem_map.mp hpair
  rw [List.mem_product, List.mem_range, List.mem_range] at hp
  exact ⟨_, getD_mem hp.1, _, getD_mem hp.2, rfl⟩

/-- The entries of the matrix of two phases are the weights of their pairs. -/
theorem sum_boundaryPairs {search : ReusePenaltySearchSpace} (hleft : left.Nodup)
    (hright : right.Nodup) (hdisjoint : ∀ n ∈ left, n ∉ right) (chosen : ℕ × ℕ → Prop)
    [DecidablePred chosen] :
    total search.softWeights (fun pair weight =>
        if pair ∈ boundaryPairs left right ∧ chosen pair then weight.toNat else 0) =
      ((List.range left.length ×ˢ List.range right.length).map fun p =>
        if chosen (canonicalNodePair (left.getD p.1 0) (right.getD p.2 0)) then
          (costAt (boundaryCosts search left right) p.1 p.2).toNat else 0).sum := by
  rw [Theory.total_eq_sum_of_support (nodup_boundaryPairs hleft hright hdisjoint)
    fun entry _ hout => if_neg fun hboth => hout hboth.1]
  unfold boundaryPairs
  rw [List.map_map]
  refine congrArg List.sum (List.map_congr_left fun p hp => ?_)
  have hmem : canonicalNodePair (left.getD p.1 0) (right.getD p.2 0) ∈ boundaryPairs left right :=
    List.mem_map_of_mem hp
  rw [List.mem_product, List.mem_range, List.mem_range] at hp
  have hentry : costAt (boundaryCosts search left right) p.1 p.2 =
      search.softWeights.getD (canonicalNodePair (left.getD p.1 0) (right.getD p.2 0)) 0 := by
    unfold costAt boundaryCosts
    rw [getD_map_of_lt _ hp.1 _ 0, getD_map_of_lt _ hp.2 _ 0]
  rw [hentry, Std.TreeMap.getD_eq_getD_getElem?, Function.comp_apply]
  cases search.softWeights[canonicalNodePair (left.getD p.1 0) (right.getD p.2 0)]? with
  | none => exact (ite_self 0).symm
  | some weight => exact if_congr (and_iff_right hmem) rfl rfl

/-- The cost of the pairs of one colour, from the soft weights. -/
theorem boundaryCost_eq {search : ReusePenaltySearchSpace} (hleft : left.Nodup)
    (hright : right.Nodup) (hdisjoint : ∀ n ∈ left, n ∉ right) (f : ℕ → ℕ) :
    boundaryCost search f left right = total search.softWeights fun pair weight =>
      if pair ∈ boundaryPairs left right ∧ f pair.1 = f pair.2 then weight.toNat else 0 := by
  rw [sum_boundaryPairs hleft hright hdisjoint fun pair => f pair.1 = f pair.2]
  unfold boundaryCost pairsCost
  rw [Theory.sum_meets fun pair => (costAt (boundaryCosts search left right) pair.1 pair.2).toNat,
    List.length_map, List.length_map]
  refine congrArg List.sum (List.map_congr_left fun p hp => ?_)
  rw [List.mem_product, List.mem_range, List.mem_range] at hp
  refine if_congr ?_ rfl rfl
  rw [getD_map_of_lt f hp.1 0 0, getD_map_of_lt f hp.2 0 0]
  unfold canonicalNodePair
  split_ifs
  · rfl
  · exact eq_comm

end boundary

/-! ### All boundaries -/

variable {colors maxPhaseBuffers : ℕ} {phases : List (List ℕ)}

/-- A node is in one phase. -/
theorem index_unique (hnodup : phases.flatten.Nodup) {n b b' : ℕ} (hb : n ∈ phases.getD b [])
    (hb' : n ∈ phases.getD b' []) : b = b' := by
  induction phases generalizing b b' with
  | nil => exact (List.not_mem_nil hb).elim
  | cons phase rest ih =>
      rw [List.flatten_cons, List.nodup_append] at hnodup
      obtain ⟨-, hrest, hdisjoint⟩ := hnodup
      have hlater : ∀ {i}, n ∈ rest.getD i [] → n ∈ rest.flatten := by
        intro i hi
        by_cases hlt : i < rest.length
        · rw [List.getD_eq_getElem _ _ hlt] at hi
          exact List.mem_flatten.mpr ⟨_, List.getElem_mem hlt, hi⟩
        · rw [List.getD_eq_default _ _ (not_lt.mp hlt)] at hi
          exact (List.not_mem_nil hi).elim
      cases b with
      | zero =>
          cases b' with
          | zero => rfl
          | succ b' => exact absurd rfl (hdisjoint n hb n (hlater hb'))
      | succ b =>
          cases b' with
          | zero => exact absurd rfl (hdisjoint n hb' n (hlater hb))
          | succ b' => exact congrArg _ (ih hrest hb hb')

theorem Phases.getD_mem (h : Phases problem pool colors maxPhaseBuffers phases) {n b : ℕ}
    (hn : n ∈ phases.getD b []) : b < phases.length ∧ n ∈ poolNodes problem.search pool := by
  by_cases hlt : b < phases.length
  · rw [List.getD_eq_getElem _ _ hlt] at hn
    exact ⟨hlt, mem_nodes.mp (h.inPool _ (List.getElem_mem hlt) n hn)⟩
  · rw [List.getD_eq_default _ _ (not_lt.mp hlt)] at hn
    exact (List.not_mem_nil hn).elim

theorem nodup_phase (hnodup : phases.flatten.Nodup) (b : ℕ) : (phases.getD b []).Nodup := by
  by_cases hlt : b < phases.length
  · rw [List.getD_eq_getElem _ _ hlt]
    exact (List.nodup_flatten.mp hnodup).1 _ (List.getElem_mem hlt)
  · rw [List.getD_eq_default _ _ (not_lt.mp hlt)]
    exact List.nodup_nil

theorem disjoint_phases (hnodup : phases.flatten.Nodup) (b : ℕ) :
    ∀ n ∈ phases.getD b [], n ∉ phases.getD (b + 1) [] := fun n hn hnext => by
  have := index_unique hnodup hn hnext
  omega

/-- **The cost of a colouring is the sum of the costs between consecutive phases.** -/
theorem exactCost_eq (h : SearchOk problem)
    (hphases : Phases problem pool colors maxPhaseBuffers phases)
    (hbridges : ∀ entry ∈ problem.search.softWeights.toList,
      (problem.search.nodeAt entry.1.1).pool = pool → ∃ b, Bridges phases entry.1 b) (f : ℕ → ℕ) :
    exactCost problem pool f = ∑ b ∈ Finset.range (phases.length - 1),
      boundaryCost problem.search f (phases.getD b []) (phases.getD (b + 1) []) := by
  have hcost : ∀ b, boundaryCost problem.search f (phases.getD b []) (phases.getD (b + 1) []) =
      (problem.search.softWeights.toList.map fun entry =>
        if entry.1 ∈ boundaryPairs (phases.getD b []) (phases.getD (b + 1) []) ∧
          f entry.1.1 = f entry.1.2 then entry.2.toNat else 0).sum := fun b =>
    boundaryCost_eq (nodup_phase hphases.nodup b) (nodup_phase hphases.nodup (b + 1))
      (disjoint_phases hphases.nodup b) f
  rw [Finset.sum_congr rfl fun b _ => hcost b, ← sum_map_finsetSum]
  unfold exactCost total
  refine congrArg List.sum (List.map_congr_left fun entry hentry => ?_)
  obtain ⟨hlt, hcount, hsame, -⟩ := softWeights_pair h hentry
  have hcanonical : canonicalNodePair entry.1.1 entry.1.2 = entry.1 := if_pos hlt
  have hmem : ∀ b, entry.1 ∈ boundaryPairs (phases.getD b []) (phases.getD (b + 1) []) ↔
      Bridges phases entry.1 b := by
    intro b
    constructor
    · intro hpair
      obtain ⟨first, hfirst, second, hsecond, heq⟩ := exists_of_mem_boundaryPairs hpair
      rw [← hcanonical] at heq
      rcases canonicalNodePair_eq_iff.mp heq with ⟨h1, h2⟩ | ⟨h1, h2⟩
      · exact .inl ⟨h1 ▸ hfirst, h2 ▸ hsecond⟩
      · exact .inr ⟨h2 ▸ hfirst, h1 ▸ hsecond⟩
    · rintro (⟨hfirst, hsecond⟩ | ⟨hsecond, hfirst⟩)
      · rw [← hcanonical]
        exact mem_boundaryPairs hfirst hsecond
      · rw [← hcanonical, canonicalNodePair_eq_iff.mpr (.inr ⟨rfl, rfl⟩)]
        exact mem_boundaryPairs hsecond hfirst
  dsimp only
  by_cases hpool : (problem.search.nodeAt entry.1.1).pool = pool
  · -- one boundary holds the edge
    obtain ⟨b, hb⟩ := hbridges entry hentry hpool
    have hfirst : entry.1.1 ∈ poolNodes problem.search pool :=
      PoolCanonicalSearch.mem_poolNodes.mpr ⟨hlt.trans hcount, hpool⟩
    have hsecond : entry.1.2 ∈ poolNodes problem.search pool :=
      PoolCanonicalSearch.mem_poolNodes.mpr ⟨hcount, hsame ▸ hpool⟩
    have hrange : b ∈ Finset.range (phases.length - 1) := by
      rw [Finset.mem_range]
      rcases hb with ⟨-, hlater⟩ | ⟨-, hlater⟩
      · have := (hphases.getD_mem hlater).1
        omega
      · have := (hphases.getD_mem hlater).1
        omega
    have hunique : ∀ b', Bridges phases entry.1 b' → b' = b := by
      intro b' hb'
      rcases hb with ⟨h1, h2⟩ | ⟨h1, h2⟩
      · rcases hb' with ⟨h3, -⟩ | ⟨h3, h4⟩
        · exact index_unique hphases.nodup h3 h1
        · have := index_unique hphases.nodup h3 h2
          have := index_unique hphases.nodup h4 h1
          omega
      · rcases hb' with ⟨h3, h4⟩ | ⟨h3, -⟩
        · have := index_unique hphases.nodup h3 h2
          have := index_unique hphases.nodup h4 h1
          omega
        · exact index_unique hphases.nodup h3 h1
    rw [Finset.sum_eq_single_of_mem b hrange fun b' _ hne =>
      if_neg fun hboth => hne (hunique b' ((hmem b').mp hboth.1))]
    refine if_congr ?_ rfl rfl
    rw [and_iff_right ((hmem b).mpr hb), and_iff_right hfirst, and_iff_right hsecond]
  · rw [if_neg fun hall => hpool (PoolCanonicalSearch.mem_poolNodes.mp hall.1).2]
    refine (Finset.sum_eq_zero fun b _ => if_neg fun hboth => hpool ?_).symm
    rcases (hmem b).mp hboth.1 with ⟨hfirst, -⟩ | ⟨-, hfirst⟩
    · exact (PoolCanonicalSearch.mem_poolNodes.mp (hphases.getD_mem hfirst).2).2
    · exact (PoolCanonicalSearch.mem_poolNodes.mp (hphases.getD_mem hfirst).2).2

/-- What is cheapest between any two consecutive phases is cheapest. -/
theorem exactCost_le (h : SearchOk problem)
    (hphases : Phases problem pool colors maxPhaseBuffers phases)
    (hbridges : ∀ entry ∈ problem.search.softWeights.toList,
      (problem.search.nodeAt entry.1.1).pool = pool → ∃ b, Bridges phases entry.1 b)
    (hleast : phases.IsChain (LeastBetween problem.search colors f))
    (hg : ∀ phase ∈ phases, Colored colors g phase) :
    exactCost problem pool f ≤ exactCost problem pool g := by
  rw [exactCost_eq h hphases hbridges, exactCost_eq h hphases hbridges]
  refine Finset.sum_le_sum fun b hb => ?_
  rw [Finset.mem_range] at hb
  have hfirst : b < phases.length := by omega
  have hsecond : b + 1 < phases.length := by omega
  rw [List.getD_eq_getElem _ _ hfirst, List.getD_eq_getElem _ _ hsecond]
  exact hleast.getElem b hsecond g (hg _ (List.getElem_mem hfirst))
    (hg _ (List.getElem_mem hsecond))

/-- A colouring gives every phase different colours. -/
theorem colored_of_coloring (hphases : Phases problem pool colors maxPhaseBuffers phases)
    (hg : Coloring problem pool colors g) : ∀ phase ∈ phases, Colored colors g phase := by
  intro phase hphase
  have hpool : ∀ n ∈ phase, n ∈ poolNodes problem.search pool := fun n hn =>
    mem_nodes.mp (hphases.inPool phase hphase n hn)
  have hnodup := (List.nodup_flatten.mp hphases.nodup).1 phase hphase
  refine ⟨(List.nodup_map_iff_inj_on hnodup).mpr fun n hn m hm heq => ?_,
    fun n hn => hg.lt n (hpool n hn)⟩
  by_contra hne
  exact hg.proper n (hpool n hn) m (hpool m hm) (hphases.conflict phase hphase n hn m hm hne) heq

/-- Different colours in every phase are a colouring. -/
theorem coloring_of_colored (hphases : Phases problem pool colors maxPhaseBuffers phases)
    (hfound : ∀ n ∈ nodes problem.search pool, n ∈ phases.flatten)
    (hf : ∀ phase ∈ phases, Colored colors f phase) : Coloring problem pool colors f := by
  refine ⟨fun n hn => ?_, fun n hn m hm hconflict heq => ?_⟩
  · obtain ⟨phase, hphase, hmem⟩ := List.mem_flatten.mp (hfound n (mem_nodes.mpr hn))
    exact (hf phase hphase).lt n hmem
  · obtain ⟨phase, hphase, hmem⟩ := List.mem_flatten.mp (hfound n (mem_nodes.mpr hn))
    have hnodup := (List.nodup_flatten.mp hphases.nodup).1 phase hphase
    have hother := hphases.closed phase hphase n hmem m
      ⟨mem_nodes.mpr hn, mem_nodes.mpr hm, hconflict⟩
    exact hconflict.ne ((List.nodup_map_iff_inj_on hnodup).mp (hf phase hphase).nodup n hmem m
      hother heq)

end SpanOneMinCostFlowSolver

end Dsa
