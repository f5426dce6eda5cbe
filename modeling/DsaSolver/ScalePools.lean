import DsaSolver.TrackLayout

/-! # The pools of the grid solver

`solveSoft` places the large nodes of a pool by the sweep and stacks the small ones above them.
Its rounded cost lies between the cost its offsets pay in the pool and the cost any valid
placement pays there, and its offsets are structurally valid (`solveSoft_ok`). -/

namespace Dsa

namespace ScaleGrid

open Theory (Apart Sat)

variable {problem : DsaProblem} {options : Options}

/-! ### Alignments -/

theorem commonMultiple_eq_some {first second result : UInt64} (h1 : first ≠ 0) (h2 : second ≠ 0)
    (h : commonMultiple first second = some result) :
    result.toNat = Nat.lcm first.toNat second.toNat := by
  refine leastCommonMultiple_eq_some h1 h2 ?_
  unfold commonMultiple at h
  dsimp only at h
  rw [bne_iff_ne.mpr h2, Bool.true_and] at h
  simpa [leastCommonMultiple, maxU64] using h

/-- The merged alignment is a common multiple. -/
theorem mergeAlignments_ok (h : SearchOk problem) {failure : Failure} {start merged : UInt64}
    {nodes : List ℕ} (hstart : start ≠ 0) (hnodes : ∀ n ∈ nodes, n < problem.search.count)
    (hmerged : mergeAlignments problem.search failure start nodes = .ok merged) :
    merged ≠ 0 ∧ start.toNat ∣ merged.toNat ∧
      ∀ n ∈ nodes, (problem.search.nodeAt n).alignment.toNat ∣ merged.toNat := by
  refine Theory.foldlM_induction (fun done merged => merged ≠ 0 ∧ start.toNat ∣ merged.toNat ∧
    ∀ n ∈ done, (problem.search.nodeAt n).alignment.toNat ∣ merged.toNat) ?_ ?_ hmerged
  · exact ⟨hstart, dvd_refl _, fun n hn => absurd hn List.not_mem_nil⟩
  · rintro done n rest state next hsplit ⟨hne, hdvd, hall⟩ hnext
    have hn : n < problem.search.count := hnodes n (by
      rw [hsplit]
      exact List.mem_append_right _ List.mem_cons_self)
    have halignment : (problem.search.nodeAt n).alignment ≠ 0 := fun hzero => by
      have := h.alignment_pos hn
      rw [hzero] at this
      exact absurd this (lt_irrefl 0)
    cases hmultiple : commonMultiple state (problem.search.nodeAt n).alignment with
    | none =>
        rw [hmultiple] at hnext
        cases hnext
    | some multiple =>
        rw [hmultiple] at hnext
        obtain rfl := Except.ok.inj hnext
        have hlcm := commonMultiple_eq_some hne halignment hmultiple
        refine ⟨fun hzero => ?_, ?_, fun m hm => ?_⟩
        · rw [hzero] at hlcm
          have := Nat.lcm_pos (Nat.pos_of_ne_zero (toNat_ne_zero hne))
            (Nat.pos_of_ne_zero (toNat_ne_zero halignment))
          rw [← hlcm] at this
          exact absurd this (lt_irrefl 0)
        · rw [hlcm]
          exact hdvd.trans (Nat.dvd_lcm_left _ _)
        · rw [hlcm]
          obtain hdone | hlast := List.mem_append.mp hm
          · exact (hall m hdone).trans (Nat.dvd_lcm_left _ _)
          · rw [List.mem_singleton.mp hlast]
            exact Nat.dvd_lcm_right _ _

theorem mergeAlignments_error {failure failure' : Failure} {start : UInt64} {nodes : List ℕ}
    (hmerged : mergeAlignments problem.search failure start nodes = .error failure') :
    failure' = failure := by
  obtain ⟨done, n, rest, state, -, -, hfail⟩ :=
    Theory.foldlM_error (fun _ _ => True) trivial (fun _ _ _ _ _ _ _ _ => trivial) hmerged
  split at hfail
  · exact (Except.error.inj hfail).symm
  · cases hfail

/-! ### Soft endpoints -/

theorem foldl_minimumStep (pool : PoolId) (l : List ((ℕ × ℕ) × UInt64)) (start : Option UInt64) :
    (l.foldl (minimumStep problem.search pool) start = none → start = none ∧
      ∀ entry ∈ l, (problem.search.nodeAt entry.1.1).pool ≠ pool) ∧
    ∀ minimum, l.foldl (minimumStep problem.search pool) start = some minimum →
      (∀ value, start = some value → minimum ≤ value) ∧
      (∀ entry ∈ l, (problem.search.nodeAt entry.1.1).pool = pool →
        minimum ≤ (problem.search.nodeAt entry.1.1).size ∧
          minimum ≤ (problem.search.nodeAt entry.1.2).size) ∧
      (start = some minimum ∨ ∃ entry ∈ l, (problem.search.nodeAt entry.1.1).pool = pool ∧
        (minimum = (problem.search.nodeAt entry.1.1).size ∨
          minimum = (problem.search.nodeAt entry.1.2).size)) := by
  induction l generalizing start with
  | nil =>
      refine ⟨fun hstart => ⟨hstart, fun entry he => absurd he List.not_mem_nil⟩, fun minimum hmin => ?_⟩
      refine ⟨fun value hvalue => ?_, fun entry he => absurd he List.not_mem_nil, .inl hmin⟩
      rw [Option.some.inj (hmin.symm.trans hvalue)]
  | cons entry rest ih =>
      rw [List.foldl_cons]
      obtain ⟨hnone, hsome⟩ := ih (minimumStep problem.search pool start entry)
      by_cases hpool : (problem.search.nodeAt entry.1.1).pool = pool
      · -- the step keeps the least of the start and the two sizes
        have hstep : ∃ value, minimumStep problem.search pool start entry = some value ∧
            value ≤ (problem.search.nodeAt entry.1.1).size ∧
              value ≤ (problem.search.nodeAt entry.1.2).size ∧
                (∀ first, start = some first → value ≤ first) ∧
                  (start = some value ∨ value = (problem.search.nodeAt entry.1.1).size ∨
                    value = (problem.search.nodeAt entry.1.2).size) := by
          unfold minimumStep
          rw [if_neg (by simpa using hpool)]
          have hsizes : min (problem.search.nodeAt entry.1.1).size
              (problem.search.nodeAt entry.1.2).size = (problem.search.nodeAt entry.1.1).size ∨
              min (problem.search.nodeAt entry.1.1).size
                (problem.search.nodeAt entry.1.2).size = (problem.search.nodeAt entry.1.2).size :=
            min_choice _ _
          cases start with
          | none =>
              exact ⟨_, rfl, min_le_left _ _, min_le_right _ _, (fun _ hc => nomatch hc), .inr hsizes⟩
          | some first =>
              refine ⟨_, rfl, (min_le_right _ _).trans (min_le_left _ _),
                (min_le_right _ _).trans (min_le_right _ _), fun other hother => ?_, ?_⟩
              · rw [← Option.some.inj hother]
                exact min_le_left _ _
              · obtain hmin | hmin := min_choice first (min (problem.search.nodeAt entry.1.1).size
                  (problem.search.nodeAt entry.1.2).size)
                · exact .inl (congrArg some hmin.symm)
                · rw [hmin]
                  exact .inr hsizes
        obtain ⟨value, hvalue, hle1, hle2, hstart, hfrom⟩ := hstep
        rw [hvalue] at hnone hsome ⊢
        refine ⟨fun hc => absurd (hnone hc).1 (Option.some_ne_none _), fun minimum hmin => ?_⟩
        obtain ⟨hleValue, hall, hsource⟩ := hsome minimum hmin
        have hle := hleValue value rfl
        refine ⟨fun first hfirst => hle.trans (hstart first hfirst),
          List.forall_mem_cons.mpr ⟨fun _ => ⟨hle.trans hle1, hle.trans hle2⟩, hall⟩, ?_⟩
        obtain hsame | ⟨other, hother, hrest⟩ := hsource
        · obtain rfl := Option.some.inj hsame
          obtain hfirst | hsize := hfrom
          · exact .inl hfirst
          · exact .inr ⟨entry, List.mem_cons_self, hpool, hsize⟩
        · exact .inr ⟨other, List.mem_cons_of_mem entry hother, hrest⟩
      · have hstep : minimumStep problem.search pool start entry = start := by
          unfold minimumStep
          rw [if_pos (by simpa using hpool)]
        rw [hstep] at hnone hsome ⊢
        refine ⟨fun hc => ⟨(hnone hc).1, List.forall_mem_cons.mpr ⟨hpool, (hnone hc).2⟩⟩,
          fun minimum hmin => ?_⟩
        obtain ⟨hstart, hall, hsource⟩ := hsome minimum hmin
        refine ⟨hstart, List.forall_mem_cons.mpr ⟨fun hc => absurd hc hpool, hall⟩, ?_⟩
        obtain hfirst | ⟨other, hother, hrest⟩ := hsource
        · exact .inl hfirst
        · exact .inr ⟨other, List.mem_cons_of_mem entry hother, hrest⟩

theorem mem_nodesInPool {pool : PoolId} {n : ℕ} : n ∈ nodesInPool problem.search pool ↔
    n < problem.search.count ∧ (problem.search.nodeAt n).pool = pool := by
  unfold nodesInPool
  rw [List.mem_filter, List.mem_range, beq_iff_eq]

/-- A pool without soft endpoints has no weighted pair. -/
theorem minimumSoftEndpointSize_eq_none {pool : PoolId}
    (hmin : minimumSoftEndpointSize problem.search pool = none) :
    ∀ entry ∈ problem.search.softWeights.toList, (problem.search.nodeAt entry.1.1).pool ≠ pool :=
  ((foldl_minimumStep pool _ none).1 hmin).2

/-- The smallest soft endpoint of a pool: no weighted pair has a smaller one, and it is the size
of a node of the pool. -/
theorem minimumSoftEndpointSize_eq_some (h : SearchOk problem) {pool : PoolId} {minimum : UInt64}
    (hmin : minimumSoftEndpointSize problem.search pool = some minimum) :
    (∀ entry ∈ problem.search.softWeights.toList, (problem.search.nodeAt entry.1.1).pool = pool →
      minimum ≤ (problem.search.nodeAt entry.1.1).size ∧
        minimum ≤ (problem.search.nodeAt entry.1.2).size) ∧
      ∃ n ∈ nodesInPool problem.search pool, minimum = (problem.search.nodeAt n).size := by
  obtain ⟨-, hall, hsource⟩ := (foldl_minimumStep pool _ none).2 minimum hmin
  refine ⟨hall, ?_⟩
  obtain hstart | ⟨entry, he, hpool, hsize⟩ := hsource
  · cases hstart
  · obtain ⟨hlt, hcount, hsame, -⟩ := softWeights_pair h he
    obtain hsize | hsize := hsize
    · exact ⟨entry.1.1, mem_nodesInPool.mpr ⟨hlt.trans hcount, hpool⟩, hsize⟩
    · exact ⟨entry.1.2, mem_nodesInPool.mpr ⟨hcount, hsame.symm.trans hpool⟩, hsize⟩

/-! ### The sorted large nodes -/

/-- Sorting by a relation that refines the order of a key sorts the keys. -/
theorem pairwise_insertionSort {α β : Type*} [LinearOrder β] {r : α → α → Prop} [DecidableRel r]
    (key : α → β) (hle : ∀ a b, r a b → key a ≤ key b) (hge : ∀ a b, ¬ r a b → key b ≤ key a)
    (l : List α) : (l.insertionSort r).Pairwise fun a b => key a ≤ key b := by
  induction l with
  | nil => exact List.Pairwise.nil
  | cons a rest ih =>
      rw [List.insertionSort_cons]
      generalize rest.insertionSort r = sorted at ih
      induction sorted with
      | nil => exact List.pairwise_singleton _ _
      | cons b others ihSorted =>
          obtain ⟨hb, hothers⟩ := List.pairwise_cons.mp ih
          by_cases hab : r a b
          · rw [List.orderedInsert_cons_of_le r others hab]
            refine List.pairwise_cons.mpr ⟨fun c hc => ?_, ih⟩
            obtain rfl | hc := List.mem_cons.mp hc
            · exact hle a c hab
            · exact (hle a b hab).trans (hb c hc)
          · rw [List.orderedInsert_cons, if_neg hab]
            refine List.pairwise_cons.mpr ⟨fun c hc => ?_, ihSorted hothers⟩
            obtain rfl | hc := (List.mem_orderedInsert r).mp hc
            · exact hge c b hab
            · exact hb c hc

theorem timeNode_ok {quantum : UInt64} {node : ℕ} {timed : TimedNode}
    (h : timeNode problem problem.search quantum node = .ok timed) : timed.node = node ∧
      timed.roundedSize.toNat = Theory.alignUp (nodeSize problem node) quantum.toNat := by
  unfold timeNode at h
  split at h
  · next hull rounded hhull hrounded =>
      obtain rfl := Except.ok.inj h
      exact ⟨rfl, toNat_alignUp hrounded⟩
  · cases h

theorem timeNode_error {quantum : UInt64} {node : ℕ} {failure : Failure} {none : Prop}
    (h : timeNode problem problem.search quantum node = .error failure) : failure.Sound none := by
  unfold timeNode at h
  split at h
  · cases h
  · obtain rfl := Except.error.inj h
    exact Failure.sound_of_ne (by decide)

theorem isNeighbor_symm (h : SearchOk problem) {k l : ℕ} (hk : k < problem.search.count)
    (hl : l < problem.search.count) (hneighbor : IsNeighbor problem.search k l) :
    IsNeighbor problem.search l k := by
  obtain hhard | hsoft := hneighbor
  · exact .inl ((h.mem_hardNeighborsOf hl k).mpr
      ⟨hk, ((h.mem_hardNeighborsOf hk l).mp hhard).2.symm⟩)
  · obtain ⟨weight, hmem⟩ := (mem_softNeighbors h hk).mp hsoft
    exact .inr ((mem_softNeighbors h hl).mpr ⟨weight, hmem.symm⟩)

theorem map_node_of_timeNode {large : List ℕ} {quantum : UInt64} {unsorted : List TimedNode}
    (htimed : large.mapM (timeNode problem problem.search quantum) = .ok unsorted) :
    unsorted.map TimedNode.node = large ∧ ∀ timed ∈ unsorted,
      timed.roundedSize.toNat = Theory.alignUp (nodeSize problem timed.node) quantum.toNat := by
  have hall := Theory.mapM_eq_ok.mp htimed
  clear htimed
  induction hall with
  | nil => exact ⟨rfl, fun timed hmem => absurd hmem List.not_mem_nil⟩
  | cons hone _ ih =>
      obtain ⟨hnode, hrounded⟩ := timeNode_ok hone
      obtain ⟨hnodes, hrest⟩ := ih
      refine ⟨by rw [List.map_cons, hnode, hnodes], List.forall_mem_cons.mpr ⟨?_, hrest⟩⟩
      rw [hnode]
      exact hrounded

/-- The sorted large nodes are a band. -/
theorem largeBand_of_timeNode (h : SearchOk problem) {large : List ℕ} {quantum : UInt64}
    {unsorted : List TimedNode} (hlarge : large.Nodup)
    (hcount : ∀ n ∈ large, n < problem.search.count)
    (htimed : large.mapM (timeNode problem problem.search quantum) = .ok unsorted) :
    LargeBand problem large quantum (unsorted.insertionSort fun first second =>
      (!timedBefore problem.search second first) = true) := by
  obtain ⟨hnodes, hrounded⟩ := map_node_of_timeNode htimed
  have hperm := List.perm_insertionSort
    (fun first second => (!timedBefore problem.search second first) = true) unsorted
  have hpermNodes : ((unsorted.insertionSort fun first second =>
      (!timedBefore problem.search second first) = true).map TimedNode.node).Perm large := by
    rw [← hnodes]
    exact hperm.map TimedNode.node
  have hsorted := pairwise_insertionSort (fun timed : TimedNode => timed.birth.toInt)
    (r := fun first second => (!timedBefore problem.search second first) = true)
    (fun first second hr => by
      by_contra hlt
      rw [not_le] at hlt
      have : timedBefore problem.search second first = true := by
        unfold timedBefore
        rw [decide_eq_true (Int64.lt_iff_toInt_lt.mpr hlt), Bool.true_or]
      rw [this] at hr
      cases hr)
    (fun first second hr => by
      rw [Bool.not_eq_true', Bool.not_eq_false] at hr
      unfold timedBefore at hr
      rw [Bool.or_eq_true, decide_eq_true_iff, Bool.and_eq_true, beq_iff_eq] at hr
      obtain hlt | ⟨heq, -⟩ := hr
      · exact (Int64.lt_iff_toInt_lt.mp hlt).le
      · rw [heq])
    unsorted
  generalize (unsorted.insertionSort fun first second =>
    (!timedBefore problem.search second first) = true) = timed at hperm hpermNodes hsorted ⊢
  have htimedOk : Timed timed :=
    ⟨hpermNodes.nodup_iff.mpr hlarge, hsorted.imp fun hle => Int64.le_iff_toInt_le.mpr hle⟩
  have hmem : ∀ node, node ∈ large ↔ ∃ r, rankOf timed node = some r := by
    intro node
    rw [← hpermNodes.mem_iff, List.mem_map]
    constructor
    · rintro ⟨entry, hentry, rfl⟩
      obtain ⟨r, hr, rfl⟩ := List.getElem_of_mem hentry
      exact ⟨r, (rankOf_eq_some htimedOk).mpr ⟨hr, by rw [timedAt_eq hr]⟩⟩
    · rintro ⟨r, hr⟩
      obtain ⟨hlt, rfl⟩ := (rankOf_eq_some htimedOk).mp hr
      exact ⟨timedAt timed r, by rw [timedAt_eq hlt]; exact List.getElem_mem hlt, rfl⟩
  have hlt : ∀ r < timed.length, (timedAt timed r).node < problem.search.count := fun r hr =>
    hcount _ ((hmem _).mpr ⟨r, rankOf_timedAt htimedOk hr⟩)
  refine ⟨⟨htimedOk, fun r hr s hs => isNeighbor_symm h (hlt r hr) (hlt s hs)⟩, hmem,
    fun r hr => hrounded _ ?_, hcount⟩
  rw [timedAt_eq hr]
  exact hperm.mem_iff.mp (List.getElem_mem hr)

/-! ### The offsets of the large nodes -/

/-- The first `m` ranks are at the offsets of their colours and end below the top. -/
structure LargePlaced (problem : DsaProblem) (quantum : UInt64) (timed : List TimedNode)
    (colors : List UInt32) (m : ℕ) (state : List UInt64 × UInt64) : Prop where
  length : state.1.length = problem.search.count
  position : ∀ r < m, positions state.1 (timedAt timed r).node =
    ((colors.getD r 0).toUInt64 * quantum).toNat
  top : ∀ r < m, ((colors.getD r 0).toUInt64 * quantum).toNat +
    nodeSize problem (timedAt timed r).node ≤ state.2.toNat

theorem LargePlaced.step {quantum : UInt64} {timed : List TimedNode} {colors : List UInt32} {m : ℕ}
    {state : List UInt64 × UInt64} (hplaced : LargePlaced problem quantum timed colors m state)
    (htimed : Timed timed) (hm : m < timed.length)
    (hcount : (timedAt timed m).node < problem.search.count)
    (hfits : ((colors.getD m 0).toUInt64 * quantum).toNat +
      nodeSize problem (timedAt timed m).node < 2 ^ 64) :
    LargePlaced problem quantum timed colors (m + 1)
      (state.1.set (timedAt timed m).node ((colors.getD m 0).toUInt64 * quantum),
        max state.2 ((colors.getD m 0).toUInt64 * quantum +
          (problem.search.nodeAt (timedAt timed m).node).size)) := by
  have hpositions := @positions_set state.1 (timedAt timed m).node
    (by rw [hplaced.length]; exact hcount) ((colors.getD m 0).toUInt64 * quantum)
  have hend : ((colors.getD m 0).toUInt64 * quantum +
      (problem.search.nodeAt (timedAt timed m).node).size).toNat =
        ((colors.getD m 0).toUInt64 * quantum).toNat + nodeSize problem (timedAt timed m).node :=
    Theory.toNat_add_of_lt hfits
  refine ⟨?_, fun r hr => ?_, fun r hr => ?_⟩
  · rw [List.length_set, hplaced.length]
  · rw [hpositions]
    obtain hlt | rfl := Nat.lt_succ_iff_lt_or_eq.mp hr
    · rw [if_neg, hplaced.position r hlt]
      intro heq
      have hrank := rankOf_timedAt htimed hm
      rw [heq, rankOf_timedAt htimed (by omega)] at hrank
      exact absurd (Option.some.inj hrank) hlt.ne
    · rw [if_pos rfl]
  · rw [Theory.toNat_max, hend]
    obtain hlt | rfl := Nat.lt_succ_iff_lt_or_eq.mp hr
    · exact (hplaced.top r hlt).trans (le_max_left _ _)
    · exact le_max_right _ _

theorem placeLarge_spec {quantum : UInt64} {timed : List TimedNode} {colors : List UInt32}
    {offsets : List UInt64} (htimed : Timed timed) (hlength : offsets.length = problem.search.count)
    (hcount : ∀ r < timed.length, (timedAt timed r).node < problem.search.count)
    (hfits : ∀ r < timed.length, ((colors.getD r 0).toUInt64 * quantum).toNat +
      nodeSize problem (timedAt timed r).node < 2 ^ 64) :
    LargePlaced problem quantum timed colors timed.length
      (placeLarge problem.search quantum timed colors offsets) := by
  have key : ∀ m ≤ timed.length, LargePlaced problem quantum timed colors m
      ((timed.zipIdx.take m).foldl
        (fun (state : List UInt64 × UInt64) entry =>
          let offset := (colors.getD entry.2 0).toUInt64 * quantum
          (state.1.set entry.1.node offset,
            max state.2 (offset + (problem.search.nodeAt entry.1.node).size))) (offsets, 0)) := by
    intro m hm
    induction m with
    | zero =>
        exact ⟨hlength, fun r hr => absurd hr (Nat.not_lt_zero r),
          fun r hr => absurd hr (Nat.not_lt_zero r)⟩
    | succ m ih =>
        have hget : timed.zipIdx.take (m + 1) = timed.zipIdx.take m ++ [(timedAt timed m, m)] := by
          rw [List.take_add_one, List.getElem?_eq_getElem (by simpa using hm), timedAt_eq hm]
          simp
        rw [hget, List.foldl_append, List.foldl_cons, List.foldl_nil]
        exact (ih (by omega)).step htimed hm (hcount m hm) (hfits m hm)
  have hfull := key timed.length le_rfl
  rw [List.take_of_length_le (by simp)] at hfull
  exact hfull

/-! ### A pool with soft penalties -/

/-- The cost a pool pays lies on both sides of the rounded cost. -/
structure PoolCost (h : SearchOk problem) (pool : PoolId) (result : PoolScaleResult) : Prop where
  costLe : (weightOf problem fun pair => (problem.search.nodeAt pair.1).pool = pool ∧
    ¬ NodesApart problem (positions result.offsets) pair.1 pair.2) ≤ ⟨result.roundedCost⟩
  leCost : ∀ p, (nodePacking h).Valid p → (⟨result.roundedCost⟩ : Sat) ≤
    weightOf problem fun pair => (problem.search.nodeAt pair.1).pool = pool ∧
      ¬ NodesApart problem p pair.1 pair.2

/-- The structural checks of the nodes of a pool. -/
structure PoolPlaced (problem : DsaProblem) (pool : PoolId) (offsets : List UInt64) : Prop where
  aligned : ∀ n ∈ nodesInPool problem.search pool,
    (problem.search.nodeAt n).alignment.toNat ∣ positions offsets n
  inRange : ∀ n ∈ nodesInPool problem.search pool,
    positions offsets n + nodeSize problem n < 2 ^ 64
  apart : ∀ k ∈ nodesInPool problem.search pool, ∀ l ∈ nodesInPool problem.search pool,
    NodesConflict problem k l → NodesApart problem (positions offsets) k l

/-- What `SolvePool` has checked before it places the nodes. -/
structure PoolChecked (problem : DsaProblem) (pool : Pool) (capacity poolAlignment : UInt64) :
    Prop where
  mem : pool ∈ problem.pools
  capacity : pool.capacity = some capacity
  alignmentNe : poolAlignment ≠ 0
  alignment : ∀ n ∈ nodesInPool problem.search pool.id,
    (problem.search.nodeAt n).alignment.toNat ∣ poolAlignment.toNat
  sizes : ∀ n ∈ nodesInPool problem.search pool.id, poolAlignment.toNat ∣ nodeSize problem n

def largeOf (problem : DsaProblem) (pool : PoolId) (minimumLargeSize : UInt64) : List ℕ :=
  (nodesInPool problem.search pool).filter fun node =>
    decide ((problem.search.nodeAt node).size ≥ minimumLargeSize)

def smallOf (problem : DsaProblem) (pool : PoolId) (minimumLargeSize : UInt64) : List ℕ :=
  (nodesInPool problem.search pool).filter fun node =>
    !decide ((problem.search.nodeAt node).size ≥ minimumLargeSize)

theorem mem_largeOf {pool : PoolId} {minimumLargeSize : UInt64} {n : ℕ} :
    n ∈ largeOf problem pool minimumLargeSize ↔ n ∈ nodesInPool problem.search pool ∧
      minimumLargeSize.toNat ≤ nodeSize problem n := by
  unfold largeOf
  rw [List.mem_filter, decide_eq_true_iff, ge_iff_le, UInt64.le_iff_toNat_le]
  rfl

theorem mem_smallOf {pool : PoolId} {minimumLargeSize : UInt64} {n : ℕ} :
    n ∈ smallOf problem pool minimumLargeSize ↔ n ∈ nodesInPool problem.search pool ∧
      nodeSize problem n < minimumLargeSize.toNat := by
  unfold smallOf
  rw [List.mem_filter, Bool.not_eq_true', decide_eq_false_iff_not, ge_iff_le,
    UInt64.le_iff_toNat_le, not_le]
  rfl

/-- The grid of a pool with soft penalties. -/
structure SoftGrid (problem : DsaProblem) (options : Options) (pool : PoolId)
    (capacity minimumLargeSize quantum largeLimit : UInt64) (timed : List TimedNode) : Prop where
  quantumNe : quantum ≠ 0
  aligned : ∀ n ∈ largeOf problem pool minimumLargeSize,
    (problem.search.nodeAt n).alignment.toNat ∣ quantum.toNat
  mulLe : options.epsilonDenominator.toNat * quantum.toNat ≤ minimumLargeSize.toNat
  limit : ∃ slack, largeLimit.toNat = capacity.toNat + slack ∧
    capacity.toNat ≤ options.epsilonDenominator.toNat * slack
  band : LargeBand problem (largeOf problem pool minimumLargeSize) quantum timed

/-- `solveSoft` fails by itself, or runs the sweep on a grid and stacks the small band. -/
theorem solveSoft_cases (h : SearchOk problem) {pool : Pool}
    {capacity poolAlignment minimumLargeSize : UInt64} {offsets : List UInt64}
    (hepsilon : options.epsilonDenominator ≠ 0)
    (hchecked : PoolChecked problem pool capacity poolAlignment) :
    (∃ failure, solveSoft problem problem.search options (nodesInPool problem.search pool.id)
        capacity poolAlignment minimumLargeSize offsets = .error failure ∧
          ∀ none, failure.Sound none) ∨
      ∃ quantum largeLimit timed,
        SoftGrid problem options pool.id capacity minimumLargeSize quantum largeLimit timed ∧
          solveSoft problem problem.search options (nodesInPool problem.search pool.id) capacity
              poolAlignment minimumLargeSize offsets = (do
            let grid ← runGridDp problem.search timed options quantum largeLimit
            let large := placeLarge problem.search quantum timed grid.colors offsets
            let band ← placeSmallBand problem problem.search
              (smallOf problem pool.id minimumLargeSize) minimumLargeSize poolAlignment large.2
              large.1
            .ok
              { offsets := band.offsets
                roundedCost := grid.roundedCost
                gridQuantum := quantum
                largeBandLimit := largeLimit
                smallBandHeight := band.top - large.2
                dpStates := grid.dpStates
                dpTransitions := grid.dpTransitions
                smallTracks := band.smallTracks
                maxWindow := grid.maxWindow
                maxSoftSpan := grid.maxSoftSpan
                maxGridOffsets := grid.maxGridOffsets
                largeNodes := (largeOf problem pool.id minimumLargeSize).length
                smallNodes := (smallOf problem pool.id minimumLargeSize).length }) := by
  have hcount : ∀ n ∈ largeOf problem pool.id minimumLargeSize, n < problem.search.count :=
    fun n hn => (mem_nodesInPool.mp (mem_largeOf.mp hn).1).1
  have hnodup : (largeOf problem pool.id minimumLargeSize).Nodup :=
    (List.nodup_range.filter _).filter _
  have hpos : 0 < options.epsilonDenominator.toNat := Nat.pos_of_ne_zero (toNat_ne_zero hepsilon)
  have hlarge : (nodesInPool problem.search pool.id).filter (fun node =>
      decide ((problem.search.nodeAt node).size ≥ minimumLargeSize)) =
        largeOf problem pool.id minimumLargeSize := rfl
  have hsmall : (nodesInPool problem.search pool.id).filter (fun node =>
      !decide ((problem.search.nodeAt node).size ≥ minimumLargeSize)) =
        smallOf problem pool.id minimumLargeSize := rfl
  unfold solveSoft
  dsimp only
  rw [hlarge, hsmall]
  cases hseparation : failIf (decide (minimumLargeSize <
      ceilDivide capacity options.maxLargeFractionDenominator))
      ⟨.unsupported,
        "scale_separated_grid_dp soft endpoints violate the configured scale separation"⟩ with
  | error failure =>
      obtain ⟨-, rfl⟩ := failIf_eq_error.mp hseparation
      refine .inl ⟨_, rfl, fun _ => ?_⟩
      exact Failure.sound_of_ne (by decide)
  | ok _ =>
  rw [Theory.ok_bind]
  cases hinterval : failIf (!isIntervalSmallBand problem problem.search
      (smallOf problem pool.id minimumLargeSize))
      ⟨.unsupported, "scale_separated_grid_dp harmonic band requires singleton, single-interval " ++
        "small buffers with only temporal hard conflicts"⟩ with
  | error failure =>
      obtain ⟨-, rfl⟩ := failIf_eq_error.mp hinterval
      refine .inl ⟨_, rfl, fun _ => ?_⟩
      exact Failure.sound_of_ne (by decide)
  | ok _ =>
  rw [Theory.ok_bind]
  cases hmerged : mergeAlignments problem.search
      ⟨.unsupported, "scale_separated_grid_dp grid alignment overflows"⟩ poolAlignment
      (largeOf problem pool.id minimumLargeSize) with
  | error failure =>
      obtain rfl := mergeAlignments_error hmerged
      refine .inl ⟨_, rfl, fun _ => ?_⟩
      exact Failure.sound_of_ne (by decide)
  | ok gridAlignment =>
  rw [Theory.ok_bind]
  obtain ⟨hgridNe, hpoolDvd, hgridDvd⟩ := mergeAlignments_ok h hchecked.alignmentNe hcount hmerged
  generalize hquantum : minimumLargeSize / options.epsilonDenominator / gridAlignment *
    gridAlignment = quantum
  cases hzero : failIf (quantum == 0)
      ⟨.unsupported,
        "scale_separated_grid_dp cannot form an alignment-compatible grid quantum"⟩ with
  | error failure =>
      obtain ⟨-, rfl⟩ := failIf_eq_error.mp hzero
      refine .inl ⟨_, rfl, fun _ => ?_⟩
      exact Failure.sound_of_ne (by decide)
  | ok _ =>
  rw [Theory.ok_bind]
  cases hover : failIf (addOverflows capacity (ceilDivide capacity options.epsilonDenominator))
      ⟨.invalidProblem, "scale_separated_grid_dp augmented capacity overflows"⟩ with
  | error failure =>
      obtain ⟨-, rfl⟩ := failIf_eq_error.mp hover
      refine .inl ⟨_, rfl, fun _ => ?_⟩
      exact Failure.sound_of_ne (by decide)
  | ok _ =>
  rw [Theory.ok_bind]
  cases htimed : (largeOf problem pool.id minimumLargeSize).mapM
      (timeNode problem problem.search quantum) with
  | error failure =>
      refine .inl ⟨_, rfl, fun _ => ?_⟩
      obtain ⟨node, -, hfail⟩ := Theory.mapM_error htimed
      exact timeNode_error hfail
  | ok unsorted =>
  rw [Theory.ok_bind]
  refine .inr ⟨quantum, _, _, ⟨?_, fun n hn => ?_, ?_, ?_, largeBand_of_timeNode h hnodup hcount
    htimed⟩, rfl⟩
  · rw [failIf_eq_ok, beq_eq_false_iff_ne] at hzero
    exact hzero
  all_goals
    have hquantumNat : quantum.toNat = minimumLargeSize.toNat / options.epsilonDenominator.toNat /
        gridAlignment.toNat * gridAlignment.toNat := by
      have hle := Nat.div_mul_le_self (minimumLargeSize.toNat / options.epsilonDenominator.toNat)
        gridAlignment.toNat
      have hdiv := Nat.div_le_self minimumLargeSize.toNat options.epsilonDenominator.toNat
      have hlt := minimumLargeSize.toNat_lt
      rw [← hquantum, UInt64.toNat_mul, UInt64.toNat_div, UInt64.toNat_div,
        Nat.mod_eq_of_lt (by omega)]
  · rw [hquantumNat]
    exact (hgridDvd n hn).trans (Nat.dvd_mul_left _ _)
  · have hle := Nat.div_mul_le_self (minimumLargeSize.toNat / options.epsilonDenominator.toNat)
      gridAlignment.toNat
    rw [← hquantumNat] at hle
    exact (Nat.mul_le_mul_left _ hle).trans (Nat.mul_div_le _ _)
  · rw [failIf_eq_ok, Theory.addOverflows_eq_false_iff] at hover
    exact ⟨_, Theory.toNat_add_of_lt hover, le_mul_ceilDivide hepsilon⟩

theorem PoolChecked.findPool (h : SearchOk problem) {pool : Pool}
    {capacity poolAlignment : UInt64} (hchecked : PoolChecked problem pool capacity poolAlignment)
    {n : ℕ} (hn : n ∈ nodesInPool problem.search pool.id) :
    problem.findPool (problem.search.nodeAt n).pool = some pool := by
  rw [(mem_nodesInPool.mp hn).2]
  exact findPool_eq_of_mem h.prepared.wellFormed.poolIds hchecked.mem

section soft

variable {pool : Pool} {capacity poolAlignment minimumLargeSize : UInt64} {offsets : List UInt64}

/-- A valid placement can be rounded to the grid. -/
theorem SoftGrid.roundable (h : SearchOk problem) (hepsilon : options.epsilonDenominator ≠ 0)
    (hchecked : PoolChecked problem pool capacity poolAlignment) {quantum largeLimit : UInt64}
    {timed : List TimedNode}
    (hgrid : SoftGrid problem options pool.id capacity minimumLargeSize quantum largeLimit timed)
    {p : ℕ → ℕ} (hv : (nodePacking h).Valid p) :
    Roundable problem (largeOf problem pool.id minimumLargeSize)
      options.epsilonDenominator.toNat quantum largeLimit p where
  epsilonPos := Nat.pos_of_ne_zero (toNat_ne_zero hepsilon)
  quantumNe := hgrid.quantumNe
  sizes _ hn := hgrid.mulLe.trans (mem_largeOf.mp hn).2
  below := by
    obtain ⟨slack, hlimit, hslack⟩ := hgrid.limit
    refine ⟨capacity.toNat, slack, hlimit, hslack, fun n hn => ?_⟩
    have hpool := (mem_largeOf.mp hn).1
    have hfits := hv.fits n (Finset.mem_range.mpr (mem_nodesInPool.mp hpool).1)
    have hwithin := ((fitsAt_iff h (hchecked.findPool h hpool)).mp hfits).2.within
    rw [hchecked.capacity] at hwithin
    exact hwithin
  apart k hk l hl := hv.apart k
    (Finset.mem_range.mpr (mem_nodesInPool.mp (mem_largeOf.mp hk).1).1) l
    (Finset.mem_range.mpr (mem_nodesInPool.mp (mem_largeOf.mp hl).1).1)

/-- A pool with soft penalties claims infeasibility only when there is no valid placement. -/
theorem solveSoft_error (h : SearchOk problem) (hepsilon : options.epsilonDenominator ≠ 0)
    (hchecked : PoolChecked problem pool capacity poolAlignment) {failure : Failure}
    (hfail : solveSoft problem problem.search options (nodesInPool problem.search pool.id) capacity
      poolAlignment minimumLargeSize offsets = .error failure) :
    failure.Sound (∀ p, ¬ (nodePacking h).Valid p) := by
  obtain ⟨failure', heq, hsound⟩ | ⟨quantum, largeLimit, timed, hgrid, heq⟩ :=
    @solveSoft_cases problem options h pool capacity poolAlignment minimumLargeSize offsets hepsilon
      hchecked
  · rw [heq] at hfail
    obtain rfl := Except.error.inj hfail
    exact hsound _
  · rw [heq] at hfail
    obtain hfail | ⟨grid, -, hfail⟩ := Theory.bind_eq_error.mp hfail
    · refine (runGridDp_error hgrid.band.grid hfail).mono fun ⟨s, hs, hguards, hnone⟩ p hv => ?_
      have hround := hgrid.roundable h hepsilon hchecked hv
      refine hnone _ fun k hk => hround.fits hgrid.band h (by omega) fun m hm => hguards m ?_
      omega
    · obtain hfail | ⟨band, -, hfail⟩ := Theory.bind_eq_error.mp hfail
      · exact placeSmallBand_error hfail
      · cases hfail

/-- The weighted pairs of a pool are pairs of large nodes. -/
theorem weightOf_large (h : SearchOk problem)
    (hminimum : minimumSoftEndpointSize problem.search pool.id = some minimumLargeSize)
    (q : ℕ → ℕ) :
    (weightOf problem fun pair => (problem.search.nodeAt pair.1).pool = pool.id ∧
        ¬ NodesApart problem q pair.1 pair.2) =
      weightOf problem fun pair => pair.1 ∈ largeOf problem pool.id minimumLargeSize ∧
        pair.2 ∈ largeOf problem pool.id minimumLargeSize ∧
          ¬ NodesApart problem q pair.1 pair.2 := by
  refine weightOf_congr_mem fun entry he => ?_
  obtain ⟨hlt, hcount, hsame, -⟩ := softWeights_pair h he
  have hsizes := (minimumSoftEndpointSize_eq_some h hminimum).1 entry he
  rw [mem_largeOf, mem_largeOf, mem_nodesInPool, mem_nodesInPool]
  constructor
  · rintro ⟨hpool, hover⟩
    obtain ⟨hfirst, hsecond⟩ := hsizes hpool
    exact ⟨⟨⟨hlt.trans hcount, hpool⟩, UInt64.le_iff_toNat_le.mp hfirst⟩,
      ⟨⟨hcount, hsame.symm.trans hpool⟩, UInt64.le_iff_toNat_le.mp hsecond⟩, hover⟩
  · rintro ⟨⟨⟨-, hpool⟩, -⟩, -, hover⟩
    exact ⟨hpool, hover⟩

/-- **A pool with soft penalties**: the rounded cost is between the cost paid and every valid
placement's, and the stacked bands are structurally valid. -/
theorem solveSoft_ok (h : SearchOk problem) (hepsilon : options.epsilonDenominator ≠ 0)
    (hchecked : PoolChecked problem pool capacity poolAlignment)
    (hlength : offsets.length = problem.search.count)
    (hminimum : minimumSoftEndpointSize problem.search pool.id = some minimumLargeSize)
    {result : PoolScaleResult}
    (hresult : solveSoft problem problem.search options (nodesInPool problem.search pool.id)
      capacity poolAlignment minimumLargeSize offsets = .ok result) :
    PoolCost h pool.id result ∧ PoolPlaced problem pool.id result.offsets := by
  obtain ⟨failure', heq, -⟩ | ⟨quantum, largeLimit, timed, hgrid, heq⟩ :=
    @solveSoft_cases problem options h pool capacity poolAlignment minimumLargeSize offsets hepsilon
      hchecked
  · rw [heq] at hresult
    cases hresult
  rw [heq] at hresult
  obtain ⟨grid, hrun, hresult⟩ := Theory.bind_eq_ok.mp hresult
  obtain ⟨band, hband, hresult⟩ := Theory.bind_eq_ok.mp hresult
  obtain rfl := Except.ok.inj hresult
  have b := hgrid.band
  obtain ⟨hguards, c, hcolors, hfits, hcost, hbest⟩ := runGridDp_ok b.grid hrun
  have hlimit := largeLimit.toNat_lt
  -- the colours as offsets
  have hbelow : ∀ r < timed.length, Below timed quantum largeLimit c r := fun r hr =>
    b.below h hgrid.quantumNe hr (hguards r hr) (hfits r hr)
  have hcolor : ∀ r < timed.length, ((grid.colors.getD r 0).toUInt64 * quantum).toNat =
      (c r).toNat * quantum.toNat := by
    intro r hr
    have hget : grid.colors.getD r 0 = c r := by
      rw [hcolors, List.getD_eq_getElem _ _ (by simpa using hr)]
      simp
    rw [hget]
    exact toNat_colorOffset (hbelow r hr)
  have hend : ∀ r < timed.length, (c r).toNat * quantum.toNat +
      nodeSize problem (timedAt timed r).node ≤ largeLimit.toNat := by
    intro r hr
    have hsize := b.size_le (rankOf_timedAt b.grid.timed hr)
    have := hbelow r hr
    unfold Below at this
    omega
  have hlarge := @placeLarge_spec problem quantum timed grid.colors offsets b.grid.timed hlength
    (fun r hr => b.node_lt hr) (fun r hr => by
      rw [hcolor r hr]
      exact (hend r hr).trans_lt hlimit)
  generalize placeLarge problem.search quantum timed grid.colors offsets = large at hband hlarge
  -- the small nodes
  obtain ⟨source, hsource, hminimumEq⟩ := (minimumSoftEndpointSize_eq_some h hminimum).2
  have hminimumDvd : poolAlignment.toNat ∣ minimumLargeSize.toNat := by
    rw [hminimumEq]
    exact hchecked.sizes source hsource
  have hsmallCount : ∀ n ∈ smallOf problem pool.id minimumLargeSize, n < problem.search.count :=
    fun n hn => (mem_nodesInPool.mp (mem_smallOf.mp hn).1).1
  have hsmallNodup : (smallOf problem pool.id minimumLargeSize).Nodup :=
    (List.nodup_range.filter _).filter _
  have hbanded := placeSmallBand_tracks h hchecked.alignmentNe hlarge.length hsmallNodup
    hsmallCount hband
  have hholds : ∀ n ∈ smallOf problem pool.id minimumLargeSize,
      TrackHolds (problem.search.nodeAt n).size minimumLargeSize poolAlignment :=
    fun n hn => trackHolds_of_lt hchecked.alignmentNe (hchecked.sizes n (mem_smallOf.mp hn).1)
      hminimumDvd (UInt64.le_iff_toNat_le.mpr (mem_smallOf.mp hn).2.le)
  have hatColors : LargeBand.AtColors timed quantum c (positions band.offsets) := by
    intro node r hr
    obtain ⟨hlt, rfl⟩ := (rankOf_eq_some b.grid.timed).mp hr
    rw [hbanded.frame, hlarge.position r hlt, hcolor r hlt]
    intro hsmall
    have hbig := (mem_largeOf.mp ((b.ranked _).mpr ⟨r, hr⟩)).2
    have := (mem_smallOf.mp hsmall).2
    omega
  have hlargeEnd : ∀ n ∈ largeOf problem pool.id minimumLargeSize,
      positions band.offsets n + nodeSize problem n ≤ largeLimit.toNat ∧
        positions band.offsets n + nodeSize problem n ≤ large.2.toNat := by
    intro n hn
    obtain ⟨r, hr⟩ := (b.ranked n).mp hn
    have hpos := hatColors n r hr
    obtain ⟨hlt, rfl⟩ := (rankOf_eq_some b.grid.timed).mp hr
    have htop := hlarge.top r hlt
    rw [hcolor r hlt] at htop
    rw [hpos]
    exact ⟨hend r hlt, htop⟩
  have hsplit : ∀ n ∈ nodesInPool problem.search pool.id,
      n ∈ largeOf problem pool.id minimumLargeSize ∨
        n ∈ smallOf problem pool.id minimumLargeSize := by
    intro n hn
    rw [mem_largeOf, mem_smallOf]
    have := le_or_gt minimumLargeSize.toNat (nodeSize problem n)
    tauto
  refine ⟨⟨?_, fun p hv => ?_⟩, ⟨fun n hn => ?_, fun n hn => ?_, fun k hk l hl hconflict => ?_⟩⟩
  · rw [weightOf_large h hminimum, hcost]
    exact b.cost_le h hgrid.quantumNe hguards hfits hatColors
  · have hround := hgrid.roundable h hepsilon hchecked hv
    rw [weightOf_large h hminimum]
    refine (hbest _ fun k hk => hround.fits b h hk fun m hm => hguards m (by omega)).trans ?_
    exact hround.cost_le b h hguards
  · obtain hbig | hsmall := hsplit n hn
    · obtain ⟨r, hr⟩ := (b.ranked n).mp hbig
      rw [hatColors n r hr]
      exact (hgrid.aligned n hbig).mul_left _
    · exact (hchecked.alignment n hn).trans (hbanded.aligned hchecked.alignmentNe hsmall)
  · obtain hbig | hsmall := hsplit n hn
    · exact (hlargeEnd n hbig).1.trans_lt hlimit
    · exact (hbanded.end_le hsmall (hholds n hsmall)).trans_lt band.top.toNat_lt
  · have hcross : ∀ k l, k ∈ largeOf problem pool.id minimumLargeSize →
        l ∈ smallOf problem pool.id minimumLargeSize →
          NodesApart problem (positions band.offsets) k l := by
      intro k l hk hl
      have := (hlargeEnd k hk).2
      have := hbanded.above hl
      exact .inl (by omega)
    obtain hkl | hks := hsplit k hk
    · obtain hll | hls := hsplit l hl
      · exact b.apart h hgrid.quantumNe hguards hfits hatColors hkl hll hconflict
      · exact hcross k l hkl hls
    · obtain hll | hls := hsplit l hl
      · exact nodesApart_comm.mp (hcross l k hll hks)
      · exact hbanded.apart hks hls hconflict (hholds k hks) (hholds l hls)

end soft

end ScaleGrid

end Dsa
