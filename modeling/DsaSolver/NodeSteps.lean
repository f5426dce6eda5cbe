import DsaSolver.NodeCost

/-! # Placing the nodes one at a time

`fitsReuseNodeAt_iff` reads one step of the search, `partialCost_step` its cost increment.  In
whatever order the nodes are placed, all steps fit exactly when the validator accepts the
expanded solution, and the increments add up to the recomputed reuse cost
(`fitsInOrder_iff_validateSolution`). -/

namespace Dsa

open Theory (Apart Sat total)

variable {problem : DsaProblem}

/-! ### One step -/

/-- The node's pool has room for it at `a`. -/
def NodeRoom (problem : DsaProblem) (n a : ℕ) : Prop :=
  ∃ pool, problem.findPool (problem.search.nodeAt n).pool = some pool ∧
    PoolFits pool a (nodeSize problem n)

theorem fitsAt_iff_room (h : SearchOk problem) {n a : ℕ} (hn : n < problem.search.count) :
    (nodePacking h).FitsAt n a ↔
      (problem.search.nodeAt n).alignment.toNat ∣ a ∧ NodeRoom problem n a := by
  obtain ⟨pool, hp⟩ := h.exists_pool hn
  rw [fitsAt_iff h hp]
  constructor
  · exact fun ⟨h1, h2⟩ => ⟨h1, pool, hp, h2⟩
  · rintro ⟨h1, pool', hp', h2⟩
    rw [hp] at hp'
    exact ⟨h1, Option.some.inj hp' ▸ h2⟩

theorem NodeRoom.lt {n a : ℕ} (h : NodeRoom problem n a) : a + nodeSize problem n < 2 ^ 64 := by
  obtain ⟨pool, -, hf⟩ := h
  exact hf.lt

theorem overlapsNode_iff (h : SearchOk problem) {offsets : List UInt64} {n m : ℕ} {o : UInt64}
    (hn : n < problem.search.count) (hm : m < problem.search.count)
    (ho : o.toNat + nodeSize problem n < 2 ^ 64)
    (hom : positions offsets m + nodeSize problem m < 2 ^ 64) :
    overlapsNode problem.search offsets n o m = true ↔
      ¬ Apart o.toNat (nodeSize problem n) (positions offsets m) (nodeSize problem m) := by
  have := addressRangesOverlap_eq_false_iff (h.size_ne hn) (h.size_ne hm) ho hom
  rw [← Bool.not_eq_false, overlapsNode]
  exact not_congr this

theorem fitsPool_iff {pool : Pool} {o size : UInt64} (hs : size ≠ 0)
    (h : o.toNat + size.toNat < 2 ^ 64)
    (hr : ∀ range ∈ pool.reservedRanges, range.first < range.last) :
    fitsPool pool o size = true ↔ PoolFits pool o.toNat size.toNat := by
  unfold fitsPool
  rw [Bool.and_eq_true, Bool.not_eq_true', within_iff h, List.all_eq_true]
  simp only [Bool.not_eq_true']
  constructor
  · exact fun ⟨h1, h2⟩ => ⟨h1, fun range hmem =>
      (addressRangesOverlap_reserved_iff hs h (hr range hmem)).mp (h2 range hmem)⟩
  · exact fun h1 => ⟨h1.within, fun range hmem =>
      (addressRangesOverlap_reserved_iff hs h (hr range hmem)).mpr (h1.clear range hmem)⟩

/-- One step of the search: room in the pool, and no placed conflicting node in the way. -/
theorem fitsReuseNodeAt_iff (h : SearchOk problem) {placed : List Bool} {offsets : List UInt64}
    {n : ℕ} (hn : n < problem.search.count) (o : UInt64)
    (hrep : ∀ m < problem.search.count, placed.getD m false = true →
      positions offsets m + nodeSize problem m < 2 ^ 64) :
    fitsReuseNodeAt problem problem.search placed offsets n o = true ↔
      NodeRoom problem n o.toNat ∧ ∀ m < problem.search.count, placed.getD m false = true →
        NodesConflict problem n m →
          Apart o.toNat (nodeSize problem n) (positions offsets m) (nodeSize problem m) := by
  obtain ⟨pool, hp⟩ := h.exists_pool hn
  have hr := h.prepared.wellFormed.reserved pool (findPool_mem hp)
  unfold fitsReuseNodeAt
  dsimp only
  by_cases hover : addOverflows o (problem.search.nodeAt n).size = true
  · rw [if_pos hover]
    rw [Theory.addOverflows_iff] at hover
    simp only [Bool.false_eq_true, false_iff]
    rintro ⟨hroom, -⟩
    have := hroom.lt
    unfold nodeSize at this
    omega
  · rw [if_neg hover, hp]
    rw [Bool.not_eq_true, Theory.addOverflows_eq_false_iff] at hover
    have hroom : NodeRoom problem n o.toNat ↔ PoolFits pool o.toNat (nodeSize problem n) := by
      constructor
      · rintro ⟨pool', hp', hf⟩
        rw [hp] at hp'
        exact Option.some.inj hp' ▸ hf
      · exact fun hf => ⟨pool, hp, hf⟩
    dsimp only
    rw [Bool.and_eq_true, fitsPool_iff (h.size_ne hn) hover hr, hroom, List.all_eq_true]
    apply and_congr Iff.rfl
    have hpool : ∀ m, NodesConflict problem n m → m < problem.search.count →
        ((problem.search.nodeAt m).pool == (problem.search.nodeAt n).pool) = true := by
      intro m hc hm
      rw [beq_iff_eq, h.pool_eq hm, h.pool_eq hn]
      exact hc.pool.symm
    constructor
    · intro hall m hm hpl hc
      have := hall m ((h.mem_hardNeighborsOf hn m).mpr ⟨hm, hc⟩)
      rw [hpl, hpool m hc hm, Bool.true_and, Bool.true_and, Bool.not_eq_true'] at this
      by_contra hna
      rw [(overlapsNode_iff h hn hm hover (hrep m hm hpl)).mpr hna] at this
      cases this
    · intro hall m hm
      obtain ⟨hmlt, hc⟩ := (h.mem_hardNeighborsOf hn m).mp hm
      by_cases hpl : placed.getD m false = true
      · have hap := hall m hmlt hpl hc
        rw [Bool.not_eq_true', Bool.and_eq_false_iff]
        refine .inr ?_
        rw [← Bool.not_eq_true, overlapsNode_iff h hn hmlt hover (hrep m hmlt hpl)]
        exact not_not.mpr hap
      · rw [Bool.not_eq_true] at hpl
        rw [hpl, Bool.false_and, Bool.false_and, Bool.not_false]

/-! ### The cost of a step -/

/-- The cost paid between the nodes that satisfy `p`. -/
def partialCost (problem : DsaProblem) (p : ℕ → Bool) (q : ℕ → ℕ) : Sat :=
  weightOf problem fun pair => p pair.1 = true ∧ p pair.2 = true ∧
    ¬ NodesApart problem q pair.1 pair.2

theorem softNeighborsOf_eq (h : SearchOk problem) {n : ℕ} (hn : n < problem.search.count) :
    problem.search.softNeighborsOf n = softNeighborList problem.search.softWeights n := by
  have hs : problem.search.softNeighbors =
      (List.range problem.search.count).map (softNeighborList problem.search.softWeights) := by
    conv_lhs => rw [h.search_eq]
    rw [softWeights_eq h, hardNeighbors_eq h]
    rfl
  rw [ReusePenaltySearchSpace.softNeighborsOf, hs, List.getD_eq_getElem _ _ (by simpa using hn)]
  simp

/-- The weights of the chosen soft neighbours are those of the pairs they form with the node. -/
theorem softNeighbors_sum (h : SearchOk problem) {n : ℕ} (hn : n < problem.search.count)
    (chosen : ℕ → Bool) :
    ((problem.search.softNeighborsOf n).map fun neighbor =>
        if chosen neighbor.1 then (⟨neighbor.2⟩ : Sat) else 0).sum =
      weightOf problem fun pair => (pair.1 = n ∧ chosen pair.2 = true) ∨
        (pair.1 ≠ n ∧ pair.2 = n ∧ chosen pair.1 = true) := by
  rw [softNeighborsOf_eq h hn, softNeighborList, Theory.sum_map_filterMap]
  unfold weightOf total
  refine congrArg List.sum (List.map_congr_left fun entry _ => ?_)
  by_cases h1 : entry.1.1 = n
  · simp [h1]
  · by_cases h2 : entry.1.2 = n
    · simp [h1, h2]
    · simp [h1, h2]

theorem incrementalReuseCost_eq (h : SearchOk problem) {placed : List Bool}
    {offsets : List UInt64} {n : ℕ} (hn : n < problem.search.count) (o : UInt64) :
    (⟨incrementalReuseCost problem.search placed offsets n o⟩ : Sat) =
      weightOf problem fun pair =>
        (pair.1 = n ∧ placed.getD pair.2 false = true ∧
            overlapsNode problem.search offsets n o pair.2 = true) ∨
          (pair.1 ≠ n ∧ pair.2 = n ∧ placed.getD pair.1 false = true ∧
            overlapsNode problem.search offsets n o pair.1 = true) := by
  have h0 : (⟨0⟩ : Sat) = 0 := rfl
  have hsum := softNeighbors_sum h hn fun m =>
    placed.getD m false && overlapsNode problem.search offsets n o m
  simp only [Bool.and_eq_true] at hsum
  rw [← hsum]
  unfold incrementalReuseCost
  rw [Theory.foldl_satAdd, h0, zero_add]
  simp only [Bool.and_eq_true]

/-- Placing node `n` adds its increment to the cost. -/
theorem partialCost_step (h : SearchOk problem) {placed : List Bool} {offsets : List UInt64}
    {n : ℕ} (hn : n < problem.search.count) {o : UInt64} {q : ℕ → ℕ} (hqn : q n = o.toNat)
    (hq : ∀ m < problem.search.count, placed.getD m false = true → q m = positions offsets m)
    (hfree : placed.getD n false = false) (ho : o.toNat + nodeSize problem n < 2 ^ 64)
    (hrep : ∀ m < problem.search.count, placed.getD m false = true →
      positions offsets m + nodeSize problem m < 2 ^ 64) :
    partialCost problem (fun m => m == n || placed.getD m false) q =
      partialCost problem (fun m => placed.getD m false) q +
        ⟨incrementalReuseCost problem.search placed offsets n o⟩ := by
  rw [incrementalReuseCost_eq h hn]
  unfold partialCost weightOf
  rw [← Theory.total_add]
  apply Theory.total_congr
  intro entry he
  obtain ⟨hlt, hcount, -, -⟩ := softWeights_pair h he
  obtain ⟨⟨k, l⟩, weight⟩ := entry
  dsimp only at hlt hcount ⊢
  have hover : ∀ m < problem.search.count, placed.getD m false = true →
      (overlapsNode problem.search offsets n o m = true ↔ ¬ NodesApart problem q n m) := by
    intro m hm hpl
    rw [overlapsNode_iff h hn hm ho (hrep m hm hpl), NodesApart, hqn, hq m hm hpl]
  by_cases hk : k = n
  · subst hk
    have hlk : l ≠ k := hlt.ne'
    by_cases hpl : placed.getD l false = true
    · simp [hfree, hpl, hlk, hover l hcount hpl, -List.getD_eq_getElem?_getD]
    · rw [Bool.not_eq_true] at hpl
      simp [hfree, hpl, hlk, -List.getD_eq_getElem?_getD]
  · by_cases hl : l = n
    · subst hl
      by_cases hpl : placed.getD k false = true
      · simp [hfree, hpl, hk, hover k (hlt.trans hcount) hpl, nodesApart_comm (l := k),
          -List.getD_eq_getElem?_getD]
      · rw [Bool.not_eq_true] at hpl
        simp [hfree, hpl, hk, -List.getD_eq_getElem?_getD]
    · simp [hk, hl]

theorem partialCost_all (h : SearchOk problem) {p : ℕ → Bool} {q : ℕ → ℕ}
    (hp : ∀ n < problem.search.count, p n = true) : partialCost problem p q = nodeCost problem q :=
  weightOf_congr h fun _ h1 h2 _ =>
    ⟨fun hc => hc.2.2, fun hc => ⟨hp _ (h1.trans h2), hp _ h2, hc⟩⟩

theorem partialCost_none {q : ℕ → ℕ} : partialCost problem (fun _ => false) q = 0 := by
  unfold partialCost weightOf total
  simp

theorem partialCost_congr (h : SearchOk problem) {p p' : ℕ → Bool} {q q' : ℕ → ℕ}
    (hp : ∀ n < problem.search.count, p n = p' n)
    (hq : ∀ n < problem.search.count, p n = true → q n = q' n) :
    partialCost problem p q = partialCost problem p' q' := by
  apply weightOf_congr h
  intro pair h1 h2 _
  rw [← hp _ (h1.trans h2), ← hp _ h2]
  apply and_congr_right
  intro hp1
  apply and_congr_right
  intro hp2
  unfold NodesApart
  rw [hq _ (h1.trans h2) hp1, hq _ h2 hp2]

/-! ### Every order -/

/-- Place the nodes of `order` one after the other; every step must fit. -/
def fitsInOrder (problem : DsaProblem) (search : ReusePenaltySearchSpace) (offsets : List UInt64) :
    List Bool → List ℕ → Bool
  | _, [] => true
  | placed, n :: rest =>
      fitsReuseNodeAt problem search placed offsets n (offsets.getD n 0) &&
        fitsInOrder problem search offsets (placed.set n true) rest

/-- The saturating sum of the increments along the order. -/
def costInOrder (search : ReusePenaltySearchSpace) (offsets : List UInt64) :
    List Bool → List ℕ → UInt64 → UInt64
  | _, [], cost => cost
  | placed, n :: rest, cost =>
      costInOrder search offsets (placed.set n true) rest
        (saturatingAdd cost (incrementalReuseCost search placed offsets n (offsets.getD n 0)))

theorem getD_set_true {placed : List Bool} {n : ℕ} (hn : n < placed.length) (m : ℕ) :
    (placed.set n true).getD m false = (m == n || placed.getD m false) := by
  rw [getD_set hn]
  by_cases e : n = m
  · simp [e]
  · rw [if_neg e, beq_eq_false_iff_ne.mpr (Ne.symm e), Bool.false_or]

theorem fitsInOrder_iff (h : SearchOk problem) {offsets : List UInt64} (order : List ℕ) :
    ∀ placed : List Bool, placed.length = problem.search.count →
      (∀ n ∈ order, n < problem.search.count) →
      (∀ m < problem.search.count, placed.getD m false = true →
        positions offsets m + nodeSize problem m < 2 ^ 64) →
      (fitsInOrder problem problem.search offsets placed order = true ↔
        (∀ n ∈ order, NodeRoom problem n (positions offsets n)) ∧
          ∀ n ∈ order, ∀ m < problem.search.count, placed.getD m false = true ∨ m ∈ order →
            NodesConflict problem n m → NodesApart problem (positions offsets) n m) := by
  induction order with
  | nil => simp [fitsInOrder]
  | cons n rest ih =>
      intro placed hlen hlt hrep
      have hn := hlt n List.mem_cons_self
      unfold fitsInOrder
      rw [Bool.and_eq_true, fitsReuseNodeAt_iff h hn _ hrep]
      have hset := @getD_set_true placed n (by rwa [hlen])
      constructor
      · rintro ⟨⟨hroom, hap⟩, hrest⟩
        have hrep' : ∀ m < problem.search.count, (placed.set n true).getD m false = true →
            positions offsets m + nodeSize problem m < 2 ^ 64 := by
          intro m hm hpl
          rw [hset, Bool.or_eq_true, beq_iff_eq] at hpl
          rcases hpl with rfl | hpl
          · exact hroom.lt
          · exact hrep m hm hpl
        obtain ⟨hrooms, haps⟩ := (ih (placed.set n true) (by rw [List.length_set, hlen])
          (fun m hm => hlt m (List.mem_cons_of_mem n hm)) hrep').mp hrest
        refine ⟨List.forall_mem_cons.mpr ⟨hroom, hrooms⟩, fun x hx m hm hpm hc => ?_⟩
        rcases List.mem_cons.mp hx with rfl | hx
        · rcases hpm with hpm | hpm
          · exact hap m hm hpm hc
          · rcases List.mem_cons.mp hpm with rfl | hpm
            · exact absurd rfl hc.ne
            · refine nodesApart_comm.mp (haps m hpm x hn ?_ hc.symm)
              rw [hset]
              simp
        · refine haps x hx m hm ?_ hc
          rw [hset, Bool.or_eq_true, beq_iff_eq]
          rcases hpm with hpm | hpm
          · exact .inl (.inr hpm)
          · rcases List.mem_cons.mp hpm with rfl | hpm
            · exact .inl (.inl rfl)
            · exact .inr hpm
      · rintro ⟨hrooms, haps⟩
        have hroom := hrooms n List.mem_cons_self
        refine ⟨⟨hroom, fun m hm hpl hc => haps n List.mem_cons_self m hm (.inl hpl) hc⟩, ?_⟩
        refine (ih (placed.set n true) (by rw [List.length_set, hlen])
          (fun m hm => hlt m (List.mem_cons_of_mem n hm)) fun m hm hpl => ?_).mpr
          ⟨fun x hx => hrooms x (List.mem_cons_of_mem n hx), fun x hx m hm hpm hc => ?_⟩
        · rw [hset, Bool.or_eq_true, beq_iff_eq] at hpl
          rcases hpl with rfl | hpl
          · exact hroom.lt
          · exact hrep m hm hpl
        · refine haps x (List.mem_cons_of_mem n hx) m hm ?_ hc
          rw [hset, Bool.or_eq_true, beq_iff_eq] at hpm
          rcases hpm with (rfl | hpm) | hpm
          · exact .inr List.mem_cons_self
          · exact .inl hpm
          · exact .inr (List.mem_cons_of_mem n hpm)

theorem costInOrder_eq (h : SearchOk problem) {offsets : List UInt64}
    (hrep : ∀ m < problem.search.count, positions offsets m + nodeSize problem m < 2 ^ 64)
    (order : List ℕ) :
    ∀ (placed : List Bool) (cost : UInt64), placed.length = problem.search.count →
      (∀ n ∈ order, n < problem.search.count ∧ placed.getD n false = false) → order.Nodup →
      (⟨cost⟩ : Sat) = partialCost problem (fun m => placed.getD m false) (positions offsets) →
      (⟨costInOrder problem.search offsets placed order cost⟩ : Sat) =
        partialCost problem (fun m => order.contains m || placed.getD m false)
          (positions offsets) := by
  induction order with
  | nil =>
      intro placed cost _ _ _ hcost
      rw [costInOrder, hcost]
      exact partialCost_congr h (fun _ _ => rfl) fun _ _ _ => rfl
  | cons n rest ih =>
      intro placed cost hlen hfree hnd hcost
      obtain ⟨hn, hfn⟩ := hfree n List.mem_cons_self
      obtain ⟨hnot, hnd'⟩ := List.nodup_cons.mp hnd
      have hset := @getD_set_true placed n (by rwa [hlen])
      unfold costInOrder
      have hfree' : ∀ m ∈ rest, m < problem.search.count ∧ (placed.set n true).getD m false = false := by
        intro m hm
        obtain ⟨hm', hfm⟩ := hfree m (List.mem_cons_of_mem n hm)
        refine ⟨hm', ?_⟩
        rw [hset, hfm, Bool.or_false, beq_eq_false_iff_ne]
        exact fun e => hnot (e ▸ hm)
      have hstep : (⟨saturatingAdd cost (incrementalReuseCost problem.search placed offsets n
          (offsets.getD n 0))⟩ : Sat) =
            partialCost problem (fun m => (placed.set n true).getD m false) (positions offsets) := by
        simp only [hset]
        rw [partialCost_step h hn (o := offsets.getD n 0) rfl (fun _ _ _ => rfl) hfn (hrep n hn)
          (fun m hm _ => hrep m hm), ← hcost]
        rfl
      rw [ih (placed.set n true) _ (by rw [List.length_set, hlen]) hfree' hnd' hstep]
      apply partialCost_congr h
      · intro m _
        rw [hset, List.contains_cons, Bool.or_left_comm, Bool.or_assoc]
      · exact fun _ _ _ => rfl

/-- **The search view and the validator agree.**  For aligned offsets, placing the nodes one at
a time in any order succeeds exactly when the validator accepts the expanded solution, and then
the increments along the order add up to the recomputed reuse cost. -/
theorem fitsInOrder_iff_validateSolution (h : SearchOk problem) (offsets : List UInt64)
    (halign : ∀ n < problem.search.count,
      offsets.getD n 0 % (problem.search.nodeAt n).alignment = 0)
    (order : List ℕ) (horder : order.Perm (List.range problem.search.count)) :
    (fitsInOrder problem problem.search offsets (List.replicate problem.search.count false) order =
        true ↔ validateSolution problem (expandReuseNodeSolution problem.search offsets) = []) ∧
      (validateSolution problem (expandReuseNodeSolution problem.search offsets) = [] →
        (evaluateObjective problem (expandReuseNodeSolution problem.search offsets)).reuseCost =
          costInOrder problem.search offsets (List.replicate problem.search.count false) order
            0) := by
  have hfalse : ∀ m, (List.replicate problem.search.count false).getD m false = false := by
    intro m
    rw [List.getD_eq_getElem?_getD, List.getElem?_replicate]
    split_ifs <;> rfl
  have hmem : ∀ n, n ∈ order ↔ n < problem.search.count := fun n => by
    rw [horder.mem_iff, List.mem_range]
  have hdvd : ∀ n < problem.search.count,
      (problem.search.nodeAt n).alignment.toNat ∣ positions offsets n := by
    intro n hn
    have := congrArg UInt64.toNat (halign n hn)
    rw [UInt64.toNat_mod] at this
    exact Nat.dvd_of_mod_eq_zero this
  refine ⟨?_, fun hv => ?_⟩
  · rw [validateSolution_expand_iff h, fitsInOrder_iff h order _ List.length_replicate
      (fun n hn => (hmem n).mp hn) fun m _ hpl => absurd hpl (by rw [hfalse m]; simp)]
    constructor
    · rintro ⟨hrooms, haps⟩
      refine ⟨fun n hn => ?_, fun n hn m hm hc => ?_⟩
      · have hn := Finset.mem_range.mp hn
        exact (fitsAt_iff_room h hn).mpr ⟨hdvd n hn, hrooms n ((hmem n).mpr hn)⟩
      · have hn := Finset.mem_range.mp hn
        have hm := Finset.mem_range.mp hm
        exact haps n ((hmem n).mpr hn) m hm (.inr ((hmem m).mpr hm)) hc
    · intro hv
      refine ⟨fun n hn => ?_, fun n hn m hm _ hc => ?_⟩
      · have hn := (hmem n).mp hn
        exact ((fitsAt_iff_room h hn).mp (hv.fits n (Finset.mem_range.mpr hn))).2
      · exact hv.apart n (Finset.mem_range.mpr ((hmem n).mp hn)) m (Finset.mem_range.mpr hm) hc
  · rw [validateSolution_expand_iff h] at hv
    rw [reuseCost_expand h hv]
    have hrep : ∀ m < problem.search.count,
        positions offsets m + nodeSize problem m < 2 ^ 64 := fun m hm =>
      fitsAt_lt h hm (hv.fits m (Finset.mem_range.mpr hm))
    have hcost := costInOrder_eq h hrep order (List.replicate problem.search.count false) 0
      List.length_replicate (fun n hn => ⟨(hmem n).mp hn, hfalse n⟩)
      (horder.nodup_iff.mpr List.nodup_range) (by simp only [hfalse]; exact partialCost_none.symm)
    rw [← partialCost_all h (p := fun m => order.contains m ||
      (List.replicate problem.search.count false).getD m false) fun n hn => ?_, ← hcost]
    rw [Bool.or_eq_true, List.contains_iff_mem]
    exact .inl ((hmem n).mpr hn)

/-- Two buffers of one pool that may share addresses at a price. -/
def pairProblem : DsaProblem where
  buffers := [{ id := 0, size := 4, alignment := 4, liveIntervals := [⟨0, 1⟩] },
    { id := 1, size := 4, alignment := 4, liveIntervals := [⟨1, 2⟩] }]
  pools := [{ capacity := some 8 }]
  costModel := some ⟨[{ first := 0, second := 1, cost := 5 }]⟩
  objective := fitThenMinimizeReuseCostObjective

theorem searchOk_pairProblem : SearchOk pairProblem :=
  ⟨by decide +kernel, by decide +kernel, by decide +kernel⟩

theorem fitsInOrder_iff_validateSolution_pairProblem :
    (fitsInOrder pairProblem pairProblem.search [4, 4]
        (List.replicate pairProblem.search.count false) [1, 0] = true ↔
      validateSolution pairProblem (expandReuseNodeSolution pairProblem.search [4, 4]) = []) ∧
    (validateSolution pairProblem (expandReuseNodeSolution pairProblem.search [4, 4]) = [] →
      (evaluateObjective pairProblem
          (expandReuseNodeSolution pairProblem.search [4, 4])).reuseCost =
        costInOrder pairProblem.search [4, 4] (List.replicate pairProblem.search.count false)
          [1, 0] 0) :=
  fitsInOrder_iff_validateSolution searchOk_pairProblem [4, 4] (by decide +kernel) [1, 0]
    (by decide +kernel)

end Dsa
