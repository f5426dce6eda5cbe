import DsaSolver.MinFill
import DsaSolver.NodeCost

/-! # Scopes of the elimination

The scopes of the factors link the variables exactly as the graph of `MinFillOrder` does, before
the first elimination (`linked_pairFactors_iff`) and after every one
(`eliminateVariables_scopes`).  So the scope that an elimination leaves is the set of later
neighbours in the fill graph. -/

namespace Dsa

namespace TreewidthPartitionDpSolver

open Theory (eliminate Linked Merges)

/-! ### Potentials -/

section potentials

variable {search : ReusePenaltySearchSpace} {nodes : List ℕ}

/-- A pair of two nodes of the pool. -/
def PairIn (nodes : List ℕ) (pair : ℕ × ℕ) : Prop :=
  pair.1 ∈ nodes ∧ pair.2 ∈ nodes ∧ pair.1 ≠ pair.2

theorem mem_insert_pairIn {potentials : Potentials} {pair : ℕ × ℕ} {potential : PairPotential}
    (hall : ∀ key, key ∈ potentials → PairIn nodes key) (hpair : PairIn nodes pair) {key : ℕ × ℕ}
    (hkey : key ∈ potentials.insert pair potential) : PairIn nodes key := by
  rw [Std.TreeMap.mem_insert, Std.LawfulEqCmp.compare_eq_iff_eq] at hkey
  rcases hkey with rfl | hkey
  · exact hpair
  · exact hall key hkey

theorem addHardPairs_pairIn {potentials : Potentials} {node : ℕ} (hnode : node ∈ nodes)
    (hall : ∀ key, key ∈ potentials → PairIn nodes key) :
    ∀ key, key ∈ addHardPairs search nodes potentials node → PairIn nodes key := by
  unfold addHardPairs
  generalize search.hardNeighborsOf node = neighbors
  induction neighbors generalizing potentials with
  | nil => exact hall
  | cons neighbor rest ih =>
      rw [List.foldl_cons]
      apply ih
      intro key hkey
      split_ifs at hkey with hpair
      · rw [Bool.and_eq_true, decide_eq_true_eq, List.contains_iff_mem] at hpair
        exact mem_insert_pairIn hall ⟨hnode, hpair.2, hpair.1.ne⟩ hkey
      · exact hall key hkey

/-- The potentials are about pairs of nodes of the pool. -/
theorem buildPotentials_pairIn (hsoft : ∀ entry ∈ search.softWeights.toList, entry.1.1 ≠ entry.1.2) :
    ∀ key, key ∈ buildPotentials search nodes → PairIn nodes key := by
  have hhard : ∀ (some : List ℕ), (∀ node ∈ some, node ∈ nodes) → ∀ (potentials : Potentials),
      (∀ key, key ∈ potentials → PairIn nodes key) →
        ∀ key, key ∈ some.foldl (addHardPairs search nodes) potentials → PairIn nodes key := by
    intro some
    induction some with
    | nil => exact fun _ _ hall => hall
    | cons node rest ih =>
        intro hsome potentials hall
        obtain ⟨hnode, hrest⟩ := List.forall_mem_cons.mp hsome
        exact ih hrest _ (addHardPairs_pairIn hnode hall)
  unfold buildPotentials
  have hstart := hhard nodes (fun _ h => h) ∅ (fun key hkey =>
    absurd hkey Std.TreeMap.not_mem_emptyc)
  generalize nodes.foldl (addHardPairs search nodes) ∅ = potentials at hstart ⊢
  generalize search.softWeights.toList = entries at hsoft ⊢
  induction entries generalizing potentials with
  | nil => exact hstart
  | cons entry rest ih =>
      obtain ⟨hentry, hrest⟩ := List.forall_mem_cons.mp hsoft
      rw [List.foldl_cons]
      refine ih _ (fun key hkey => ?_) hrest
      unfold addSoftPair at hkey
      split_ifs at hkey with hpair
      · rw [Bool.and_eq_true, List.contains_iff_mem, List.contains_iff_mem] at hpair
        exact mem_insert_pairIn hstart ⟨hpair.1, hpair.2, hentry⟩ hkey
      · exact hstart key hkey

end potentials

/-! ### The graph of the potentials -/

/-- The nodes of a pool with a potential between them. -/
def PotentialEdge (potentials : Potentials) (a b : ℕ) : Prop :=
  (a, b) ∈ potentials ∨ (b, a) ∈ potentials

section graph

variable {search : ReusePenaltySearchSpace} {nodes : List ℕ} {potentials : Potentials}

theorem mem_potentials_iff {key : ℕ × ℕ} :
    key ∈ potentials ↔ ∃ entry ∈ potentials.toList, entry.1 = key := by
  rw [Std.TreeMap.mem_iff_isSome_getElem?, Option.isSome_iff_exists]
  constructor
  · rintro ⟨potential, hget⟩
    exact ⟨(key, potential), Std.TreeMap.mem_toList_iff_getElem?_eq_some.mpr hget, rfl⟩
  · rintro ⟨entry, hentry, rfl⟩
    exact ⟨entry.2, Std.TreeMap.mem_toList_iff_getElem?_eq_some.mp hentry⟩

/-- Before the first elimination the adjacency is the graph of the potentials. -/
theorem fillInv_initial (hpairs : ∀ key, key ∈ potentials → PairIn nodes key)
    (hnodup : nodes.Nodup) (hlt : ∀ node ∈ nodes, node < search.count) :
    FillInv (PotentialEdge potentials)
      { adjacency := initialAdjacency search potentials, active := nodes } := by
  have hentries : ∀ entry ∈ potentials.toList,
      entry.1.1 < (List.replicate search.count (∅ : Std.TreeSet ℕ)).length ∧
        entry.1.2 < (List.replicate search.count (∅ : Std.TreeSet ℕ)).length := by
    intro entry hentry
    obtain ⟨h1, h2, -⟩ := hpairs entry.1 (mem_potentials_iff.mpr ⟨entry, hentry, rfl⟩)
    rw [List.length_replicate]
    exact ⟨hlt _ h1, hlt _ h2⟩
  constructor
  · exact hnodup
  · intro a ha
    dsimp only at ha ⊢
    unfold initialAdjacency
    rw [(mem_neighborsOf_foldl_entries (a := 0) (b := 0) Prod.fst hentries).1,
      List.length_replicate]
    exact hlt a ha
  · rintro a b (hedge | hedge)
    · exact ⟨(hpairs _ hedge).1, (hpairs _ hedge).2.1⟩
    · exact ⟨(hpairs _ hedge).2.1, (hpairs _ hedge).1⟩
  · exact fun a b => Or.symm
  · rintro a (hedge | hedge)
    · exact (hpairs _ hedge).2.2 rfl
    · exact (hpairs _ hedge).2.2 rfl
  · intro a _ b
    dsimp only
    unfold initialAdjacency PotentialEdge
    rw [(mem_neighborsOf_foldl_entries (a := a) (b := b) Prod.fst hentries).2,
      neighborsOf_replicate, mem_potentials_iff, mem_potentials_iff]
    constructor
    · rintro (hnil | ⟨entry, hentry, hab | hba⟩)
      · cases hnil
      · exact .inl ⟨entry, hentry, hab⟩
      · exact .inr ⟨entry, hentry, hba⟩
    · rintro (⟨entry, hentry, hab⟩ | ⟨entry, hentry, hba⟩)
      · exact .inr ⟨entry, hentry, .inl hab⟩
      · exact .inr ⟨entry, hentry, .inr hba⟩

/-- Before the first elimination the factors link the nodes with a potential. -/
theorem linked_pairFactors_iff (hpairs : ∀ key, key ∈ potentials → PairIn nodes key) (a b : ℕ) :
    Linked ((pairFactors potentials).map Factor.scope) a b ↔ PotentialEdge potentials a b := by
  unfold pairFactors PotentialEdge
  rw [List.map_map, mem_potentials_iff, mem_potentials_iff]
  constructor
  · rintro ⟨hne, s, hs, ha, hb⟩
    obtain ⟨entry, hentry, rfl⟩ := List.mem_map.mp hs
    have ha' : a = entry.1.1 ∨ a = entry.1.2 := by simpa [pairFactor] using ha
    have hb' : b = entry.1.1 ∨ b = entry.1.2 := by simpa [pairFactor] using hb
    rcases ha' with rfl | rfl
    · rcases hb' with rfl | rfl
      · exact absurd rfl hne
      · exact .inl ⟨entry, hentry, rfl⟩
    · rcases hb' with rfl | rfl
      · exact .inr ⟨entry, hentry, rfl⟩
      · exact absurd rfl hne
  · have hlink : ∀ entry ∈ potentials.toList, ∃ s ∈ potentials.toList.map
        (Factor.scope ∘ fun entry => pairFactor entry.1.1 entry.1.2 entry.2),
          entry.1.1 ∈ s ∧ entry.1.2 ∈ s := fun entry hentry =>
      ⟨_, List.mem_map.mpr ⟨entry, hentry, rfl⟩, by simp [pairFactor], by simp [pairFactor]⟩
    rintro (⟨entry, hentry, heq⟩ | ⟨entry, hentry, heq⟩)
    · have hne := (hpairs entry.1 (mem_potentials_iff.mpr ⟨entry, hentry, rfl⟩)).2.2
      obtain ⟨s, hs, h1, h2⟩ := hlink entry hentry
      rw [heq] at hne h1 h2
      exact ⟨hne, s, hs, h1, h2⟩
    · have hne := (hpairs entry.1 (mem_potentials_iff.mpr ⟨entry, hentry, rfl⟩)).2.2
      obtain ⟨s, hs, h1, h2⟩ := hlink entry hentry
      rw [heq] at hne h1 h2
      exact ⟨hne.symm, s, hs, h2, h1⟩

end graph

/-! ### The elimination -/

section elimination

variable {bucket : List Factor} {node a : ℕ} {colors : UInt64} {options : Options}

theorem mem_remainingVariables : a ∈ remainingVariables bucket node ↔
    a ≠ node ∧ ∃ factor ∈ bucket, a ∈ factor.scope := by
  have hfold : ∀ (members : List ℕ) (start : Std.TreeSet ℕ),
      a ∈ members.foldl
        (fun members member => if member != node then members.insert member else members) start ↔
      a ∈ start ∨ a ≠ node ∧ a ∈ members := by
    intro members
    induction members with
    | nil => simp
    | cons member rest ih =>
        intro start
        rw [List.foldl_cons, ih, List.mem_cons]
        split_ifs with hne
        · rw [Std.TreeSet.mem_insert, Std.LawfulEqCmp.compare_eq_iff_eq]
          rw [bne_iff_ne] at hne
          grind
        · rw [bne_iff_ne, not_not] at hne
          grind
  unfold remainingVariables
  rw [Std.TreeSet.mem_toList, hfold, List.mem_flatMap]
  simp

theorem remainingVariables_sorted (bucket : List Factor) (node : ℕ) :
    (remainingVariables bucket node).Pairwise (· < ·) := by
  have := Std.TreeSet.ordered_toList (t := (bucket.flatMap Factor.scope).foldl
    (fun members member => if member != node then members.insert member else members)
    (∅ : Std.TreeSet ℕ))
  exact this.imp fun h => Nat.compare_eq_lt.mp h

/-- What a completed elimination does to the scopes. -/
theorem eliminateVariable_ok {state next : DpState}
    (h : eliminateVariable colors options state node = .ok next) :
    ∃ trace : Trace, next.traces = state.traces ++ [trace] ∧ trace.node = node ∧
      trace.remainingScope.Pairwise (· < ·) ∧
        Merges (state.factors.map Factor.scope) (next.factors.map Factor.scope) node
          trace.remainingScope := by
  unfold eliminateVariable at h
  dsimp only at h
  split_ifs at h with hlimit
  obtain rfl := Except.ok.inj h
  refine ⟨_, rfl, rfl, remainingVariables_sorted _ _, fun b => ?_, fun s => ?_⟩
  · dsimp only
    rw [mem_remainingVariables]
    simp only [List.mem_filter, List.mem_map, List.contains_iff_mem]
    constructor
    · rintro ⟨hne, factor, ⟨hfactor, hnode⟩, hb⟩
      exact ⟨hne, factor.scope, ⟨factor, hfactor, rfl⟩, hnode, hb⟩
    · rintro ⟨hne, s, ⟨factor, hfactor, rfl⟩, hnode, hb⟩
      exact ⟨hne, factor, ⟨hfactor, hnode⟩, hb⟩
  · dsimp only
    rw [List.map_append, List.mem_append, List.map_singleton, List.mem_singleton]
    apply or_congr_left
    simp only [List.mem_map, List.mem_filter, Bool.not_eq_true', List.contains_eq_mem,
      decide_eq_false_iff_not]
    constructor
    · rintro ⟨factor, ⟨hfactor, hnode⟩, rfl⟩
      exact ⟨⟨factor, hfactor, rfl⟩, hnode⟩
    · rintro ⟨⟨factor, hfactor, rfl⟩, hnode⟩
      exact ⟨factor, ⟨hfactor, hnode⟩, rfl⟩

/-- The run lemma: along the order of `MinFillOrder` the elimination leaves the scopes that the
final adjacency lists. -/
theorem eliminateVariables_scopes {adjacency : Adjacency} {width : ℕ} {G : ℕ → ℕ → Prop}
    {order : List ℕ} (hrun : FillRun adjacency width G order) {state : DpState}
    (hlinked : ∀ a b, Linked (state.factors.map Factor.scope) a b ↔ G a b) :
    ∃ traces, (eliminateVariables colors options order state).1.traces = state.traces ++ traces ∧
      traces.map Trace.node <+: order ∧
        ((eliminateVariables colors options order state).2 = none →
          traces.map Trace.node = order) ∧
        ∀ trace ∈ traces, trace.remainingScope = neighborsOf adjacency trace.node := by
  induction hrun generalizing state with
  | nil G => exact ⟨[], (List.append_nil _).symm, List.prefix_refl _, fun _ => rfl, by simp⟩
  | @cons G node rest mem later width_le run ih =>
      unfold eliminateVariables
      cases hstep : eliminateVariable colors options state node with
      | error diagnostic =>
          refine ⟨[], (List.append_nil _).symm, List.nil_prefix, fun hnone => ?_, by simp⟩
          cases hnone
      | ok next =>
          obtain ⟨trace, htraces, hnode, hsorted, hmerges⟩ := eliminateVariable_ok hstep
          have hscope : trace.remainingScope = neighborsOf adjacency trace.node := by
            rw [hnode]
            apply hsorted.eq_of_mem_iff (neighborsOf_sorted _ _)
            intro b
            rw [hmerges.mem_iff, hlinked, mem]
          have hnext : ∀ a b, Linked (next.factors.map Factor.scope) a b ↔ eliminate G node a b := by
            intro a b
            rw [Theory.linked_eliminate_iff hmerges]
            unfold eliminate
            simp only [hlinked]
          obtain ⟨traces, hrest, hinit, hall, hscopes⟩ := ih hnext
          refine ⟨trace :: traces, ?_, ?_, ?_, List.forall_mem_cons.mpr ⟨hscope, hscopes⟩⟩
          · dsimp only
            rw [hrest, htraces]
            simp
          · rw [List.map_cons, hnode]
            exact (List.prefix_cons_inj node).mpr hinit
          · intro hnone
            rw [List.map_cons, hnode, hall hnone]

end elimination

/-! ### The elimination of a pool -/

section pool

variable (problem : DsaProblem)

/-- The soft weights are about pairs of nodes. -/
theorem softWeights_ne (entry : (ℕ × ℕ) × UInt64)
    (hentry : entry ∈ (buildReusePenaltySearchSpace problem).softWeights.toList) :
    entry.1.1 ≠ entry.1.2 := by
  have hfold : ∀ (nodes : List PlacementSearchNode) (hardNeighbors : List (Std.TreeSet ℕ))
      (penalties : List ReusePenalty) (weights : Std.TreeMap (ℕ × ℕ) UInt64 pairCompare),
      (∀ key, key ∈ weights → key.1 ≠ key.2) →
        ∀ key, key ∈ penalties.foldl (addReusePenalty nodes hardNeighbors) weights →
          key.1 ≠ key.2 := by
    intro nodes hardNeighbors penalties
    induction penalties with
    | nil => exact fun _ hall => hall
    | cons penalty rest ih =>
        intro weights hall
        rw [List.foldl_cons]
        apply ih
        intro key hkey
        unfold addReusePenalty at hkey
        split at hkey
        · split_ifs at hkey with hsame hskip
          · exact hall key hkey
          · exact hall key hkey
          · rw [Std.TreeMap.mem_insert, Std.LawfulEqCmp.compare_eq_iff_eq] at hkey
            rcases hkey with rfl | hkey
            · unfold canonicalNodePair
              rw [beq_iff_eq] at hsame
              split_ifs
              · exact hsame
              · exact Ne.symm hsame
            · exact hall key hkey
        · exact hall key hkey
  have hkey : entry.1 ∈ (buildReusePenaltySearchSpace problem).softWeights := by
    rw [Std.TreeMap.mem_iff_isSome_getElem?,
      Std.TreeMap.mem_toList_iff_getElem?_eq_some.mp hentry]
    rfl
  unfold buildReusePenaltySearchSpace at hkey
  dsimp only at hkey
  split_ifs at hkey
  · exact absurd hkey Std.TreeMap.not_mem_emptyc
  · exact hfold _ _ _ ∅ (fun key h => absurd h Std.TreeMap.not_mem_emptyc) entry.1 hkey

theorem poolNodes_nodup (search : ReusePenaltySearchSpace) (pool : PoolId) :
    (poolNodes search pool).Nodup := List.nodup_range.filter _

theorem lt_of_mem_poolNodes {search : ReusePenaltySearchSpace} {pool : PoolId} {node : ℕ}
    (h : node ∈ poolNodes search pool) : node < search.count := by
  unfold poolNodes at h
  exact List.mem_range.mp (List.mem_filter.mp h).1

/-- The state in which `MinFillOrder` ends on a pool. -/
def poolFill (search : ReusePenaltySearchSpace) (pool : PoolId) : FillState :=
  minFillState search (poolNodes search pool) (buildPotentials search (poolNodes search pool))

/-- The traces of the elimination of a pool. -/
def poolTraces (search : ReusePenaltySearchSpace) (pool : PoolId) (colors : UInt64)
    (options : Options) : List Trace :=
  (runElimination search (poolNodes search pool) colors options).1.traces

/-- What `MinFillOrder` leaves of a pool. -/
theorem poolFill_run (pool : PoolId) :
    (poolFill (buildReusePenaltySearchSpace problem) pool).result.nodes.Perm
        (poolNodes (buildReusePenaltySearchSpace problem) pool) ∧
      FillRun (poolFill (buildReusePenaltySearchSpace problem) pool).adjacency
        (poolFill (buildReusePenaltySearchSpace problem) pool).result.width
        (PotentialEdge (buildPotentials (buildReusePenaltySearchSpace problem)
          (poolNodes (buildReusePenaltySearchSpace problem) pool)))
        (poolFill (buildReusePenaltySearchSpace problem) pool).result.nodes := by
  have hsoft := softWeights_ne problem
  unfold poolFill minFillState
  generalize buildReusePenaltySearchSpace problem = search at hsoft ⊢
  have hinv := fillInv_initial (buildPotentials_pairIn hsoft) (poolNodes_nodup search pool)
    (fun node => lt_of_mem_poolNodes)
  obtain ⟨order, hnodes, hperm, -, -, hrun⟩ := @minFillLoop_run search _ _ _ hinv rfl
  rw [List.nil_append] at hnodes
  rw [hnodes]
  exact ⟨hperm, hrun⟩

/-- The elimination of a pool goes along the order and leaves the scopes of its adjacency. -/
theorem poolTraces_spec (pool : PoolId) (colors : UInt64) (options : Options) :
    (poolTraces (buildReusePenaltySearchSpace problem) pool colors options).map Trace.node <+:
        (poolFill (buildReusePenaltySearchSpace problem) pool).result.nodes ∧
      ((runElimination (buildReusePenaltySearchSpace problem)
          (poolNodes (buildReusePenaltySearchSpace problem) pool) colors options).2 = none →
        (poolTraces (buildReusePenaltySearchSpace problem) pool colors options).map Trace.node =
          (poolFill (buildReusePenaltySearchSpace problem) pool).result.nodes) ∧
      ∀ trace ∈ poolTraces (buildReusePenaltySearchSpace problem) pool colors options,
        trace.remainingScope = neighborsOf
          (poolFill (buildReusePenaltySearchSpace problem) pool).adjacency trace.node := by
  have hsoft := softWeights_ne problem
  obtain ⟨-, hrun⟩ := poolFill_run problem pool
  generalize buildReusePenaltySearchSpace problem = search at hsoft hrun ⊢
  have hlinked : ∀ a b, Linked ((DpState.mk (pairFactors (buildPotentials search
      (poolNodes search pool))) [] (List.replicate search.count 0) 0 0).factors.map Factor.scope)
        a b ↔ PotentialEdge (buildPotentials search (poolNodes search pool)) a b :=
    linked_pairFactors_iff (buildPotentials_pairIn hsoft)
  obtain ⟨traces, htraces, hinit, hall, hscopes⟩ :=
    @eliminateVariables_scopes colors options _ _ _ _ hrun _ hlinked
  rw [List.nil_append] at htraces
  have heq : poolTraces search pool colors options = traces := htraces
  rw [heq]
  exact ⟨hinit, hall, hscopes⟩

theorem potentialEdge_fillAdjacent (pool : PoolId) {a b : ℕ}
    (hedge : PotentialEdge (buildPotentials (buildReusePenaltySearchSpace problem)
      (poolNodes (buildReusePenaltySearchSpace problem) pool)) a b) :
    FillAdjacent (poolFill (buildReusePenaltySearchSpace problem) pool).adjacency a b := by
  obtain ⟨hperm, hrun⟩ := poolFill_run problem pool
  have hpairs : ∀ key, key ∈ buildPotentials (buildReusePenaltySearchSpace problem)
      (poolNodes (buildReusePenaltySearchSpace problem) pool) →
        PairIn (poolNodes (buildReusePenaltySearchSpace problem) pool) key :=
    buildPotentials_pairIn (softWeights_ne problem)
  have hinside : ∀ c d, PotentialEdge (buildPotentials (buildReusePenaltySearchSpace problem)
      (poolNodes (buildReusePenaltySearchSpace problem) pool)) c d →
      c ∈ poolNodes (buildReusePenaltySearchSpace problem) pool := by
    rintro c d (h | h)
    · exact (hpairs _ h).1
    · exact (hpairs _ h).2.1
  apply hrun.fillAdjacent (fun a b => Or.symm) _ _ hedge
  · exact hperm.mem_iff.mpr (hinside a b hedge)
  · exact hperm.mem_iff.mpr (hinside b a hedge.symm)

/-- The scope that an elimination leaves. -/
theorem remainingScope_spec (pool : PoolId) (colors : UInt64) (options : Options)
    {done : List Trace} {trace : Trace} {later : List Trace}
    (hsplit : poolTraces (buildReusePenaltySearchSpace problem) pool colors options =
      done ++ trace :: later) :
    trace.remainingScope.Nodup ∧
      (∀ node, node ∈ trace.remainingScope ↔
        node ∈ poolNodes (buildReusePenaltySearchSpace problem) pool ∧
          node ∉ done.map Trace.node ∧ node ≠ trace.node ∧
          FillAdjacent (poolFill (buildReusePenaltySearchSpace problem) pool).adjacency
            trace.node node) ∧
      trace.remainingScope.length ≤
        (poolFill (buildReusePenaltySearchSpace problem) pool).result.width := by
  obtain ⟨hperm, hrun⟩ := poolFill_run problem pool
  obtain ⟨⟨rest, horder⟩, -, hscopes⟩ := poolTraces_spec problem pool colors options
  have hnodup := hperm.nodup_iff.mpr (poolNodes_nodup (buildReusePenaltySearchSpace problem) pool)
  -- the order: the nodes done, this one, and the rest
  rw [hsplit, List.map_append, List.map_cons, List.append_assoc, List.cons_append] at horder
  rw [hscopes trace (by rw [hsplit]; simp)]
  refine ⟨(neighborsOf_sorted _ _).imp fun hlt => hlt.ne, fun node => ?_,
    (hrun.later_of_mem horder.symm).2⟩
  rw [hrun.mem_neighborsOf_iff hnodup horder.symm, ← hperm.mem_iff, ← horder]
  rw [← horder, List.nodup_append] at hnodup
  obtain ⟨-, hright, hdisjoint⟩ := hnodup
  have hfresh := (List.nodup_cons.mp hright).1
  constructor
  · rintro ⟨hrest, hadjacent⟩
    refine ⟨List.mem_append_right _ (List.mem_cons_of_mem _ hrest), ?_, ?_, hadjacent⟩
    · exact fun hdone => hdisjoint _ hdone _ (List.mem_cons_of_mem _ hrest) rfl
    · rintro rfl
      exact hfresh hrest
  · rintro ⟨hmem, hdone, hne, hadjacent⟩
    have hright := (List.mem_append.mp hmem).resolve_left hdone
    exact ⟨(List.mem_cons.mp hright).resolve_left hne, hadjacent⟩

end pool

end TreewidthPartitionDpSolver

end Dsa
