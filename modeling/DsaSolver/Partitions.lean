import DsaSolver.EliminationScopes
import DsaSolver.Theory.RestrictedGrowth

/-! # Partitions and scopes

`EnumeratePartitions` lists the strings of restricted growth, and `CanonicalPartition` numbers
labels by their first occurrence.  With the scopes of the elimination this is what the tables of
`SolvePool` are indexed by (`scopes_and_partitions`). -/

namespace Dsa

namespace TreewidthPartitionDpSolver

open Theory (growthStrings relabelFrom addSeen classCount IsRestrictedGrowth)

/-! ### `CanonicalPartition` -/

section canonical

/-- The map of the classes numbers the labels seen so far. -/
structure NumbersSeen (canonical : Std.TreeMap UInt32 UInt32) (seen : List UInt32) : Prop where
  size : canonical.size = seen.length
  get : ∀ label, canonical[label]? =
    if label ∈ seen then some (UInt32.ofNat (seen.idxOf label)) else none

theorem numbersSeen_empty : NumbersSeen ∅ [] := by
  constructor
  · rfl
  · intro label
    rw [if_neg List.not_mem_nil, Std.TreeMap.getElem?_emptyc]

theorem NumbersSeen.mem_iff {canonical : Std.TreeMap UInt32 UInt32} {seen : List UInt32}
    (h : NumbersSeen canonical seen) (label : UInt32) : label ∈ canonical ↔ label ∈ seen := by
  rw [Std.TreeMap.mem_iff_isSome_getElem?, h.get]
  split_ifs with hmem
  · simp [hmem]
  · simp [hmem]

theorem NumbersSeen.step {canonical : Std.TreeMap UInt32 UInt32} {seen : List UInt32}
    (h : NumbersSeen canonical seen) (label : UInt32) :
    NumbersSeen (canonical.insertIfNew label (UInt32.ofNat canonical.size)) (addSeen seen label) := by
  unfold addSeen
  constructor
  · rw [Std.TreeMap.size_insertIfNew]
    by_cases hmem : label ∈ seen
    · rw [if_pos ((h.mem_iff label).mpr hmem), if_pos hmem, h.size]
    · rw [if_neg ((h.mem_iff label).not.mpr hmem), if_neg hmem, List.length_append, h.size]
      rfl
  · intro other
    rw [Std.TreeMap.getElem?_insertIfNew, h.get, h.size]
    by_cases hmem : label ∈ seen
    · rw [if_neg (fun hand => hand.2 ((h.mem_iff label).mpr hmem)), if_pos hmem]
    · rw [if_neg hmem]
      by_cases heq : label = other
      · subst heq
        rw [if_pos ⟨Std.ReflCmp.compare_self, (h.mem_iff label).not.mpr hmem⟩, if_pos (by simp),
          List.idxOf_append_of_notMem hmem, List.idxOf_cons_self, Nat.add_zero]
      · rw [if_neg (fun hand => heq (Std.LawfulEqCmp.compare_eq_iff_eq.mp hand.1))]
        by_cases hother : other ∈ seen
        · rw [if_pos hother, if_pos (List.mem_append_left _ hother),
            List.idxOf_append_of_mem hother]
        · rw [if_neg hother, if_neg]
          rw [List.mem_append, List.mem_singleton]
          rintro (hin | rfl)
          · exact hother hin
          · exact heq rfl

theorem idxOf_addSeen (seen : List UInt32) (label : UInt32) :
    (addSeen seen label).idxOf label = seen.idxOf label := by
  unfold addSeen
  split_ifs with hmem
  · rfl
  · rw [List.idxOf_append_of_notMem hmem, List.idxOf_cons_self, List.idxOf_of_notMem hmem,
      Nat.add_zero]

/-- `CanonicalPartition` numbers the labels by first occurrence. -/
theorem canonicalPartition_eq (labels : List UInt32) :
    canonicalPartition labels = (relabelFrom [] labels).map UInt32.ofNat := by
  have hfold : ∀ (canonical : Std.TreeMap UInt32 UInt32) (seen result : List UInt32),
      NumbersSeen canonical seen → (labels.foldl canonicalLabel (canonical, result)).2 =
        result ++ (relabelFrom seen labels).map UInt32.ofNat := by
    induction labels with
    | nil => exact fun _ _ result _ => (List.append_nil result).symm
    | cons label rest ih =>
        intro canonical seen result h
        have hstep := h.step label
        have hlabel : (canonical.insertIfNew label (UInt32.ofNat canonical.size)).getD label 0 =
            UInt32.ofNat (seen.idxOf label) := by
          rw [Std.TreeMap.getD_eq_getD_getElem?, hstep.get, if_pos (Theory.mem_addSeen.mpr (.inr rfl)),
            idxOf_addSeen]
          rfl
        rw [List.foldl_cons, canonicalLabel]
        dsimp only
        rw [ih _ _ _ hstep, hlabel, relabelFrom, List.map_cons, List.append_assoc]
        rfl
  exact (hfold ∅ [] [] numbersSeen_empty).trans (List.nil_append _)

end canonical

/-! ### `EnumeratePartitions` -/

section enumerate

variable {maxClasses : UInt64}

/-- `visit` appends the strings that continue the current one. -/
theorem visitPartitions_eq (hmax : maxClasses.toNat ≤ 4294967295) (remaining : ℕ)
    (current : List UInt32) (classes : UInt32) (hclasses : classes.toNat ≤ maxClasses.toNat) :
    visitPartitions maxClasses remaining current classes =
      (growthStrings maxClasses.toNat remaining classes.toNat).map
        fun string => current ++ string.map UInt32.ofNat := by
  induction remaining generalizing current classes with
  | zero => simp [visitPartitions, growthStrings]
  | succ remaining ih =>
      have hchoices : (min (classes.toUInt64 + 1) maxClasses).toUInt32.toNat =
          min (classes.toNat + 1) maxClasses.toNat := by
        have hsucc : (classes.toUInt64 + 1).toNat = classes.toNat + 1 := by
          rw [UInt64.toNat_add, UInt32.toNat_toUInt64, UInt64.toNat_one]
          omega
        rw [UInt64.toNat_toUInt32]
        rcases le_total (classes.toUInt64 + 1) maxClasses with hle | hle
        · rw [min_eq_left hle, hsucc]
          rw [UInt64.le_iff_toNat_le, hsucc] at hle
          omega
        · rw [min_eq_right hle]
          rw [UInt64.le_iff_toNat_le, hsucc] at hle
          omega
      rw [visitPartitions, growthStrings]
      rw [hchoices, List.map_flatMap]
      apply List.flatMap_congr
      intro value hvalue
      rw [List.mem_range] at hvalue
      -- no class number wraps
      have hvalue32 : (UInt32.ofNat value).toNat = value := by
        rw [UInt32.toNat_ofNat']
        omega
      have hnext : (UInt32.ofNat value + 1).toNat = value + 1 := by
        rw [UInt32.toNat_add, hvalue32, UInt32.toNat_one]
        omega
      have hcount : (max classes (UInt32.ofNat value + 1)).toNat = max classes.toNat (value + 1) := by
        rcases le_total classes (UInt32.ofNat value + 1) with hle | hle
        · rw [max_eq_right hle, hnext]
          rw [UInt32.le_iff_toNat_le, hnext] at hle
          omega
        · rw [max_eq_left hle]
          rw [UInt32.le_iff_toNat_le, hnext] at hle
          omega
      rw [ih _ _ (by omega), hcount, List.map_map]
      apply List.map_congr_left
      intro string _
      simp

/-- `EnumeratePartitions` lists the strings of restricted growth. -/
theorem enumeratePartitions_eq (size : ℕ) (hpos : 0 < maxClasses.toNat)
    (hmax : maxClasses.toNat ≤ 4294967295) : enumeratePartitions size maxClasses =
      (growthStrings maxClasses.toNat size 0).map fun string => string.map UInt32.ofNat := by
  unfold enumeratePartitions
  cases size with
  | zero => rfl
  | succ size =>
      have hone : min (0 + 1) maxClasses.toNat = 1 := by omega
      have hfirst : (1 : UInt32).toNat ≤ maxClasses.toNat := hpos
      rw [if_neg (Nat.succ_ne_zero size), visitPartitions_eq hmax _ _ _ hfirst,
        growthStrings, hone]
      simp

theorem map_toNat_map_ofNat {string : List ℕ} (h : ∀ value ∈ string, value < 4294967296) :
    (string.map UInt32.ofNat).map UInt32.toNat = string := by
  rw [List.map_map]
  conv_rhs => rw [← List.map_id string]
  apply List.map_congr_left
  intro value hvalue
  have := h value hvalue
  rw [Function.comp_apply, UInt32.toNat_ofNat', id]
  omega

theorem map_ofNat_map_toNat (labels : List UInt32) :
    (labels.map UInt32.toNat).map UInt32.ofNat = labels := by
  rw [List.map_map]
  conv_rhs => rw [← List.map_id labels]
  apply List.map_congr_left
  intro label _
  exact UInt32.ofNat_toNat

/-- The numbers of a string of few classes fit. -/
theorem lt_of_classCount_le {string : List ℕ} (hmax : maxClasses.toNat ≤ 4294967295)
    (h : classCount string ≤ maxClasses.toNat) : ∀ value ∈ string, value < 4294967296 := by
  intro value hvalue
  have hlt : value < classCount string := Theory.lt_classesFrom hvalue
  omega

theorem mem_enumeratePartitions {size : ℕ} (hpos : 0 < maxClasses.toNat)
    (hmax : maxClasses.toNat ≤ 4294967295) {string : List UInt32} :
    string ∈ enumeratePartitions size maxClasses ↔ string.length = size ∧
      IsRestrictedGrowth (string.map UInt32.toNat) ∧
        classCount (string.map UInt32.toNat) ≤ maxClasses.toNat := by
  rw [enumeratePartitions_eq size hpos hmax, List.mem_map, Theory.isRestrictedGrowth_iff]
  constructor
  · rintro ⟨numbers, hnumbers, rfl⟩
    obtain ⟨hlength, hgrows, hclasses⟩ := (Theory.mem_growthStrings (Nat.zero_le _)).mp hnumbers
    rw [map_toNat_map_ofNat (lt_of_classCount_le hmax hclasses), List.length_map]
    exact ⟨hlength, hgrows, hclasses⟩
  · rintro ⟨hlength, hgrows, hclasses⟩
    refine ⟨string.map UInt32.toNat, ?_, map_ofNat_map_toNat string⟩
    apply (Theory.mem_growthStrings (Nat.zero_le _)).mpr
    exact ⟨(List.length_map _).trans hlength, hgrows, hclasses⟩

theorem nodup_enumeratePartitions (size : ℕ) (hpos : 0 < maxClasses.toNat)
    (hmax : maxClasses.toNat ≤ 4294967295) : (enumeratePartitions size maxClasses).Nodup := by
  rw [enumeratePartitions_eq size hpos hmax]
  apply List.Nodup.map_on _ (Theory.nodup_growthStrings _ _ _)
  intro first hfirst second hsecond heq
  have hsmall : ∀ numbers ∈ growthStrings maxClasses.toNat size 0,
      (numbers.map UInt32.ofNat).map UInt32.toNat = numbers := by
    intro numbers hnumbers
    obtain ⟨-, -, hclasses⟩ := (Theory.mem_growthStrings (Nat.zero_le _)).mp hnumbers
    exact map_toNat_map_ofNat (lt_of_classCount_le hmax hclasses)
  rw [← hsmall first hfirst, ← hsmall second hsecond, heq]

/-- The strings are the values of `CanonicalPartition` on labels with few distinct ones. -/
theorem mem_enumeratePartitions_iff_canonical {size : ℕ} (hpos : 0 < maxClasses.toNat)
    (hmax : maxClasses.toNat ≤ 4294967295) {string : List UInt32} :
    string ∈ enumeratePartitions size maxClasses ↔ ∃ labels : List UInt32,
      labels.length = size ∧ labels.dedup.length ≤ maxClasses.toNat ∧
        canonicalPartition labels = string := by
  rw [mem_enumeratePartitions hpos hmax, Theory.isRestrictedGrowth_iff]
  constructor
  · rintro ⟨hlength, hgrows, hclasses⟩
    have hnumbers : relabelFrom [] string = string.map UInt32.toNat := by
      have hinj : Function.Injective UInt32.toNat := fun _ _ heq => UInt32.toNat_inj.mp heq
      have hmap := Theory.relabelFrom_map hinj [] string
      exact hmap.symm.trans (Theory.relabelFrom_of_growsFrom hgrows)
    refine ⟨string, hlength, ?_, ?_⟩
    · rw [← Theory.classCount_relabel, hnumbers]
      exact hclasses
    · rw [canonicalPartition_eq, hnumbers, map_ofNat_map_toNat]
  · rintro ⟨labels, hlength, hdistinct, rfl⟩
    rw [← Theory.classCount_relabel] at hdistinct
    rw [canonicalPartition_eq, map_toNat_map_ofNat (lt_of_classCount_le hmax hdistinct),
      List.length_map, Theory.length_relabelFrom]
    exact ⟨hlength, Theory.growsFrom_relabelFrom [] labels, hdistinct⟩

end enumerate

/-! ### `SolvePool` -/

section solve

variable {search : ReusePenaltySearchSpace} {pool : Pool} {unit colors : UInt64}

/-- The checks of `SolvePool` bound the number of colours. -/
theorem poolShape_colors (h : poolShape search pool = .ok (unit, colors)) :
    0 < colors ∧ colors ≤ 4294967295 := by
  unfold poolShape at h
  cases hcapacity : pool.capacity with
  | none =>
      rw [hcapacity] at h
      cases h
  | some capacity =>
      rw [hcapacity] at h
      dsimp only at h
      split_ifs at h with hreserved
      cases hnodes : poolNodes search pool.id with
      | nil =>
          rw [hnodes] at h
          cases h
      | cons front rest =>
          rw [hnodes] at h
          dsimp only at h
          split_ifs at h with hunits hunit hcolors
          obtain ⟨-, rfl⟩ := Prod.mk.inj (Except.ok.inj h)
          rw [Bool.or_eq_true, not_or, beq_iff_eq, decide_eq_true_eq] at hcolors
          exact ⟨UInt64.pos_iff_ne_zero.mpr hcolors.1, UInt64.not_lt.mp hcolors.2⟩

theorem finishPool_width (nodes : List ℕ) (width : ℕ) (state : DpState) :
    (finishPool search nodes unit colors width state).width = width := by
  unfold finishPool
  cases terminalCost state.factors 0 with
  | error pair => rfl
  | ok cost =>
      dsimp only
      cases state.traces.reverse.foldlM (reconstruct colors) (List.replicate search.count 0) with
      | error diagnostic => rfl
      | ok colorsByNode => rfl

/-- `SolvePool` reports the width of the order. -/
theorem solvePool_width (h : poolShape search pool = .ok (unit, colors)) (options : Options) :
    (solvePool search pool options).width = (poolFill search pool.id).result.width := by
  unfold solvePool
  rw [h]
  dsimp only
  split_ifs
  · rfl
  · rfl
  · cases hrun : runElimination search (poolNodes search pool.id) colors options with
    | mk state stop =>
        cases stop with
        | some diagnostic => rfl
        | none => exact finishPool_width _ _ _

end solve

/-- The scope that an elimination of `SolvePool` leaves is the set of the neighbours in the fill
graph of `MinFillOrder` that are not yet eliminated, no more than the width; and
`EnumeratePartitions` lists the strings of restricted growth with few classes, each once, which
are the values of `CanonicalPartition` on labels with few distinct ones. -/
theorem scopes_and_partitions :
    (∀ (problem : DsaProblem) (pool : PoolId) (colors : UInt64) (options : Options),
      (poolFill (buildReusePenaltySearchSpace problem) pool).result.nodes.Perm
          (poolNodes (buildReusePenaltySearchSpace problem) pool) ∧
        (poolTraces (buildReusePenaltySearchSpace problem) pool colors options).map Trace.node <+:
          (poolFill (buildReusePenaltySearchSpace problem) pool).result.nodes ∧
        ((runElimination (buildReusePenaltySearchSpace problem)
            (poolNodes (buildReusePenaltySearchSpace problem) pool) colors options).2 = none →
          (poolTraces (buildReusePenaltySearchSpace problem) pool colors options).map Trace.node =
            (poolFill (buildReusePenaltySearchSpace problem) pool).result.nodes) ∧
        (∀ a b, PotentialEdge (buildPotentials (buildReusePenaltySearchSpace problem)
            (poolNodes (buildReusePenaltySearchSpace problem) pool)) a b →
          FillAdjacent (poolFill (buildReusePenaltySearchSpace problem) pool).adjacency a b) ∧
        ∀ done trace later,
          poolTraces (buildReusePenaltySearchSpace problem) pool colors options =
            done ++ trace :: later →
          trace.remainingScope.Nodup ∧
            (∀ node, node ∈ trace.remainingScope ↔
              node ∈ poolNodes (buildReusePenaltySearchSpace problem) pool ∧
                node ∉ done.map Trace.node ∧ node ≠ trace.node ∧
                FillAdjacent (poolFill (buildReusePenaltySearchSpace problem) pool).adjacency
                  trace.node node) ∧
            trace.remainingScope.length ≤
              (poolFill (buildReusePenaltySearchSpace problem) pool).result.width) ∧
      (∀ (search : ReusePenaltySearchSpace) (pool : Pool) (unit colors : UInt64)
        (options : Options), poolShape search pool = .ok (unit, colors) →
          (solvePool search pool options).width = (poolFill search pool.id).result.width ∧
            0 < colors ∧ colors ≤ 4294967295) ∧
      ∀ (size : ℕ) (maxClasses : UInt64), 0 < maxClasses → maxClasses ≤ 4294967295 →
        (enumeratePartitions size maxClasses).Nodup ∧
          ∀ string : List UInt32,
            (string ∈ enumeratePartitions size maxClasses ↔ string.length = size ∧
              IsRestrictedGrowth (string.map UInt32.toNat) ∧
                classCount (string.map UInt32.toNat) ≤ maxClasses.toNat) ∧
            (string ∈ enumeratePartitions size maxClasses ↔ ∃ labels : List UInt32,
              labels.length = size ∧ labels.dedup.length ≤ maxClasses.toNat ∧
                canonicalPartition labels = string) := by
  refine ⟨fun problem pool colors options => ?_, fun search pool unit colors options hshape => ?_,
    fun size maxClasses hpos hmax => ?_⟩
  · obtain ⟨hinit, hall, -⟩ := poolTraces_spec problem pool colors options
    refine ⟨(poolFill_run problem pool).1, hinit, hall, ?_, ?_⟩
    · exact fun a b => potentialEdge_fillAdjacent problem pool
    · exact fun done trace later => remainingScope_spec problem pool colors options
  · exact ⟨solvePool_width hshape options, poolShape_colors hshape⟩
  · have hpos' : 0 < maxClasses.toNat := hpos
    have hmax' : maxClasses.toNat ≤ 4294967295 := hmax
    refine ⟨nodup_enumeratePartitions size hpos' hmax', fun string => ⟨?_, ?_⟩⟩
    · exact mem_enumeratePartitions hpos' hmax'
    · exact mem_enumeratePartitions_iff_canonical hpos' hmax'

/-- Three buffers in a row, each with a penalty for sharing with the next. -/
def penaltyChain : DsaProblem where
  buffers :=
    [{ id := 0, size := 4, alignment := 4, liveIntervals := [⟨0, 1⟩] },
      { id := 1, size := 4, alignment := 4, liveIntervals := [⟨1, 2⟩] },
      { id := 2, size := 4, alignment := 4, liveIntervals := [⟨2, 3⟩] }]
  pools := [{ capacity := some 8 }]
  costModel :=
    some ⟨[{ first := 0, second := 1, cost := 5 }, { first := 1, second := 2, cost := 3 }]⟩
  objective := fitThenMinimizeReuseCostObjective

theorem scopes_and_partitions_penaltyChain :
    (poolTraces (buildReusePenaltySearchSpace penaltyChain) 0 2 {}).map Trace.node =
        (poolFill (buildReusePenaltySearchSpace penaltyChain) 0).result.nodes ∧
      (∀ first later,
        poolTraces (buildReusePenaltySearchSpace penaltyChain) 0 2 {} = first :: later →
        (∀ node, node ∈ first.remainingScope ↔
          node ∈ poolNodes (buildReusePenaltySearchSpace penaltyChain) 0 ∧ node ≠ first.node ∧
            FillAdjacent (poolFill (buildReusePenaltySearchSpace penaltyChain) 0).adjacency
              first.node node) ∧
          first.remainingScope.length ≤ 1) ∧
      (solvePool (buildReusePenaltySearchSpace penaltyChain) { capacity := some 8 } {}).width = 1 ∧
      ∀ string : List UInt32, string ∈ enumeratePartitions 3 2 ↔ ∃ labels : List UInt32,
        labels.length = 3 ∧ labels.dedup.length ≤ 2 ∧ canonicalPartition labels = string := by
  obtain ⟨hscopes, hshape, hpartitions⟩ := scopes_and_partitions
  obtain ⟨-, -, hall, -, hscope⟩ := hscopes penaltyChain 0 2 {}
  have hwidth : (poolFill (buildReusePenaltySearchSpace penaltyChain) 0).result.width = 1 := by
    decide +kernel
  have hchecked : poolShape (buildReusePenaltySearchSpace penaltyChain) { capacity := some 8 } =
      .ok (4, 2) := by decide +kernel
  refine ⟨hall (by decide +kernel), fun first later htraces => ?_, ?_, fun string => ?_⟩
  · obtain ⟨-, hmem, hlength⟩ := hscope [] first later htraces
    rw [hwidth] at hlength
    refine ⟨fun node => (hmem node).trans ?_, hlength⟩
    simp
  · rw [(hshape _ _ 4 2 {} hchecked).1]
    exact hwidth
  · exact ((hpartitions 3 2 (by decide) (by decide)).2 string).2

end TreewidthPartitionDpSolver

end Dsa
