import DsaSolver.SearchView

/-! # Placements as packings of the nodes

`nodePacking` is the packing problem of the search nodes.  `validateSolution_expand_iff` and
`exists_offsets` identify the valid placements of the problem with its valid position vectors;
`nodeCost` is the reuse cost of a position vector (`reuseCost_expand`). -/

namespace Dsa

open Theory (Apart Sat)

variable {problem : DsaProblem}

/-- The position vector of an offset vector. -/
def positions (offsets : List UInt64) (n : ℕ) : ℕ := (offsets.getD n 0).toNat

def nodeSize (problem : DsaProblem) (n : ℕ) : ℕ := (problem.search.nodeAt n).size.toNat

/-- The top of the node's pool: its capacity, or the largest address. -/
def nodeLimit (problem : DsaProblem) (n : ℕ) : ℕ :=
  match problem.findPool (problem.search.nodeAt n).pool with
  | none => 0
  | some pool => (pool.capacity.getD maxU64).toNat

def nodeBlocked (problem : DsaProblem) (n : ℕ) : List (ℕ × ℕ) :=
  match problem.findPool (problem.search.nodeAt n).pool with
  | none => []
  | some pool => pool.reservedRanges.map fun range => (range.first.toNat, range.last.toNat)

/-- The packing of the search nodes. -/
def nodePacking (h : SearchOk problem) : Theory.Packing ℕ where
  items := Finset.range problem.search.count
  size := nodeSize problem
  alignment n := (problem.search.nodeAt n).alignment.toNat
  limit := nodeLimit problem
  blocked := nodeBlocked problem
  hard := NodesConflict problem
  sizePos _ hn := h.size_pos (Finset.mem_range.mp hn)
  alignmentPos _ hn := h.alignment_pos (Finset.mem_range.mp hn)
  hardSymm _ _ hkl := hkl.symm

/-- The nodes `k` and `l` share no address. -/
def NodesApart (problem : DsaProblem) (q : ℕ → ℕ) (k l : ℕ) : Prop :=
  Apart (q k) (nodeSize problem k) (q l) (nodeSize problem l)

instance (q : ℕ → ℕ) (k l : ℕ) : Decidable (NodesApart problem q k l) :=
  inferInstanceAs (Decidable (Apart _ _ _ _))

theorem nodesApart_comm {q : ℕ → ℕ} {k l : ℕ} :
    NodesApart problem q k l ↔ NodesApart problem q l k := Theory.apart_comm

theorem fitsAt_iff (h : SearchOk problem) {n a : ℕ} {pool : Pool}
    (hp : problem.findPool (problem.search.nodeAt n).pool = some pool) :
    (nodePacking h).FitsAt n a ↔ (problem.search.nodeAt n).alignment.toNat ∣ a ∧
      PoolFits pool a (nodeSize problem n) := by
  have hlimit : (nodePacking h).limit n = (pool.capacity.getD maxU64).toNat := by
    show nodeLimit problem n = _
    rw [nodeLimit, hp]
  have hblocked : (nodePacking h).blocked n =
      pool.reservedRanges.map fun range => (range.first.toNat, range.last.toNat) := by
    show nodeBlocked problem n = _
    rw [nodeBlocked, hp]
  constructor
  · rintro ⟨h1, h2, h3⟩
    rw [hlimit] at h2
    rw [hblocked] at h3
    exact ⟨h1, h2, fun range hr => h3 _ (List.mem_map_of_mem hr)⟩
  · rintro ⟨h1, h2, h3⟩
    refine ⟨h1, ?_, fun r hr => ?_⟩
    · rw [hlimit]
      exact h2
    · rw [hblocked] at hr
      obtain ⟨range, hmem, rfl⟩ := List.mem_map.mp hr
      exact h3 range hmem

theorem fitsAt_lt (h : SearchOk problem) {n a : ℕ} (hn : n < problem.search.count)
    (hf : (nodePacking h).FitsAt n a) : a + nodeSize problem n < 2 ^ 64 := by
  obtain ⟨pool, hp⟩ := h.exists_pool hn
  exact ((fitsAt_iff h hp).mp hf).2.lt

/-! ### Expanded solutions -/

section expand

/-- The placement of every node. -/
def nodePlacement (problem : DsaProblem) (offsets : List UInt64) (n : ℕ) : Placement :=
  ⟨(problem.search.nodeAt n).pool, offsets.getD n 0⟩

theorem getElem?_insertMembers (members : List BufferId) (placement : Placement)
    (placements : Std.TreeMap BufferId Placement) (id : BufferId) :
    (members.foldl (fun placements member => placements.insertIfNew member placement)
      placements)[id]? = placements[id]?.or (if id ∈ members then some placement else none) := by
  induction members generalizing placements with
  | nil => simp
  | cons member rest ih =>
      rw [List.foldl_cons, ih, Std.TreeMap.getElem?_insertIfNew]
      simp only [Std.LawfulEqCmp.compare_eq_iff_eq]
      by_cases hm : member ∈ placements
      · rw [if_neg (fun hc => hc.2 hm)]
        by_cases e : member = id
        · subst e
          obtain ⟨v, hv⟩ := Option.isSome_iff_exists.mp (Std.TreeMap.isSome_getElem?_iff_mem.mpr hm)
          simp [hv]
        · simp [List.mem_cons, Ne.symm e]
      · by_cases e : member = id
        · subst e
          simp [hm]
        · simp [e, Ne.symm e]

theorem find_expand_of_member (h : SearchOk problem) (offsets : List UInt64) {i : ℕ}
    (hi : i < problem.buffers.length) :
    (expandReuseNodeSolution problem.search offsets).find (problem.bufferAt i).id =
      some (nodePlacement problem offsets (classOf problem i)) := by
  have key : ∀ m ≤ problem.search.count,
      ((List.range m).foldl
        (fun placements index =>
          (problem.search.nodeAt index).members.foldl
            (fun placements member => placements.insertIfNew member
              ⟨(problem.search.nodeAt index).pool, offsets.getD index 0⟩) placements)
        (∅ : Std.TreeMap BufferId Placement))[(problem.bufferAt i).id]? =
      if classOf problem i < m then some (nodePlacement problem offsets (classOf problem i))
      else none := by
    intro m hm
    induction m with
    | zero => simp
    | succ m ih =>
        rw [List.range_succ, List.foldl_append, List.foldl_cons, List.foldl_nil,
          getElem?_insertMembers, ih (by omega)]
        have hmem : (problem.bufferAt i).id ∈ (problem.search.nodeAt m).members ↔
            classOf problem i = m := by
          rw [h.mem_members_iff (by omega)]
          constructor
          · rintro ⟨j, hj, hc, e⟩
            rwa [← bufferAt_id_injective h.prepared.wellFormed.bufferIds hj hi e]
          · exact fun hc => ⟨i, hi, hc, rfl⟩
        rw [if_congr hmem rfl rfl]
        rcases lt_trichotomy (classOf problem i) m with hlt | rfl | hgt
        · simp [hlt, Nat.lt_succ_of_lt hlt]
        · simp [nodePlacement]
        · simp [hgt.ne', Nat.not_lt_of_lt hgt, Nat.not_lt.mpr (Nat.succ_le_of_lt hgt)]
  have := key problem.search.count le_rfl
  rw [if_pos (h.classOf_lt hi)] at this
  exact this

theorem known_expand (h : SearchOk problem) (offsets : List UInt64) {id : BufferId}
    {placement : Placement}
    (hf : (expandReuseNodeSolution problem.search offsets).find id = some placement) :
    ∃ i < problem.buffers.length, (problem.bufferAt i).id = id := by
  by_contra hno
  have key : ∀ m ≤ problem.search.count,
      ((List.range m).foldl
        (fun placements index =>
          (problem.search.nodeAt index).members.foldl
            (fun placements member => placements.insertIfNew member
              ⟨(problem.search.nodeAt index).pool, offsets.getD index 0⟩) placements)
        (∅ : Std.TreeMap BufferId Placement))[id]? = none := by
    intro m hm
    induction m with
    | zero => simp
    | succ m ih =>
        rw [List.range_succ, List.foldl_append, List.foldl_cons, List.foldl_nil,
          getElem?_insertMembers, ih (by omega), if_neg]
        · rfl
        · rw [h.mem_members_iff (by omega)]
          exact fun ⟨j, hj, _, e⟩ => hno ⟨j, hj, e⟩
  have := key problem.search.count le_rfl
  rw [show (expandReuseNodeSolution problem.search offsets).find id = none from this] at hf
  cases hf

theorem places_expand (h : SearchOk problem) (offsets : List UInt64) :
    Places problem (nodePlacement problem offsets)
      (expandReuseNodeSolution problem.search offsets) where
  find _ hi := find_expand_of_member h offsets hi
  known _ _ hf := known_expand h offsets hf

theorem classPlacementOk_iff_valid (h : SearchOk problem) (offsets : List UInt64) :
    ClassPlacementOk problem (nodePlacement problem offsets) ↔
      (nodePacking h).Valid (positions offsets) := by
  have hlt : ∀ {k}, k < (prepare problem).supers.length → k < problem.search.count := fun hk => by
    rwa [h.count_eq]
  have hsize : ∀ {k}, k < problem.search.count →
      ((prepare problem).superAt k).size.toNat = nodeSize problem k := fun hk => by
    rw [nodeSize, h.size_eq hk]
  have hblock : ∀ {k l}, k < problem.search.count → l < problem.search.count →
      (NodesConflict problem k l ↔ k ≠ l ∧
        (nodePlacement problem offsets k).pool = (nodePlacement problem offsets l).pool ∧
        supersBlock problem (prepare problem) k l = true) := by
    intro k l hk hl
    rw [h.supersBlock_iff_conflict hk hl]
    show _ ↔ k ≠ l ∧ (problem.search.nodeAt k).pool = (problem.search.nodeAt l).pool ∧ _
    rw [h.pool_eq hk, h.pool_eq hl]
    exact ⟨fun hc => ⟨hc.ne, hc.pool, hc.conflict⟩, fun ⟨h1, h2, h3⟩ => ⟨h1, h2, h3⟩⟩
  constructor
  · intro hok
    refine ⟨fun k hk => ?_, fun k hk l hl hkl => ?_⟩
    · have hk := Finset.mem_range.mp hk
      obtain ⟨pool, hp, hfits⟩ := hok.fits k (h.lt_supers hk)
      refine (fitsAt_iff h hp).mpr ⟨?_, ?_⟩
      · rw [h.alignment_eq hk]
        exact hok.aligned k (h.lt_supers hk)
      · rw [← hsize hk]
        exact hfits
    · have hk := Finset.mem_range.mp hk
      have hl := Finset.mem_range.mp hl
      obtain ⟨h1, h2, h3⟩ := (hblock hk hl).mp hkl
      have := hok.apart k (h.lt_supers hk) l (h.lt_supers hl) h1 h2 h3
      rw [hsize hk, hsize hl] at this
      exact this
  · intro hv
    refine ⟨fun k hk => ?_, fun k hk => ?_, fun k hk => ?_, fun k hk l hl hne hpool hb => ?_,
      fun k hk pinned hpin => ?_⟩
    · rw [h.allowedPools_eq (hlt hk)]
      exact List.mem_singleton_self _
    · have := (hv.fits k (Finset.mem_range.mpr (hlt hk))).aligned
      rw [← h.alignment_eq (hlt hk)]
      exact this
    · obtain ⟨pool, hp⟩ := h.exists_pool (hlt hk)
      refine ⟨pool, hp, ?_⟩
      rw [hsize (hlt hk)]
      exact ((fitsAt_iff h hp).mp (hv.fits k (Finset.mem_range.mpr (hlt hk)))).2
    · have := hv.apart k (Finset.mem_range.mpr (hlt hk)) l (Finset.mem_range.mpr (hlt hl))
        ((hblock (hlt hk) (hlt hl)).mpr ⟨hne, hpool, hb⟩)
      rw [hsize (hlt hk), hsize (hlt hl)]
      exact this
    · rw [h.unpinned (hlt hk)] at hpin
      cases hpin

/-- **The validator accepts an expanded solution exactly when the positions are a valid
packing.** -/
theorem validateSolution_expand_iff (h : SearchOk problem) (offsets : List UInt64) :
    validateSolution problem (expandReuseNodeSolution problem.search offsets) = [] ↔
      (nodePacking h).Valid (positions offsets) := by
  rw [validateSolution_eq_nil_iff, solutionOk_iff h.prepared (places_expand h offsets),
    classPlacementOk_iff_valid h]
  exact ⟨fun hv => hv.2, fun hv => ⟨h.prepared.valid, hv⟩⟩

/-- Every valid solution is the expansion of an offset vector. -/
theorem exists_offsets (h : SearchOk problem) {solution : DsaSolution}
    (hs : validateSolution problem solution = []) :
    ∃ offsets : List UInt64, offsets.length = problem.search.count ∧
      solution.find = (expandReuseNodeSolution problem.search offsets).find := by
  obtain ⟨-, hok⟩ := (validateSolution_eq_nil_iff problem solution).mp hs
  obtain ⟨a, ha⟩ := hok.exists_places h.prepared
  have hcls := hok.classPlacementOk h.prepared ha
  refine ⟨(List.range problem.search.count).map fun k => (a k).offset, by simp, ?_⟩
  funext id
  by_cases hid : ∃ i < problem.buffers.length, (problem.bufferAt i).id = id
  · obtain ⟨i, hi, rfl⟩ := hid
    have hk := h.classOf_lt hi
    rw [ha.find i hi, find_expand_of_member h _ hi, nodePlacement,
      List.getD_eq_getElem _ _ (by simpa using hk)]
    have hpool := hcls.allowed _ (h.lt_supers hk)
    rw [h.allowedPools_eq hk, List.mem_singleton] at hpool
    rw [← hpool]
    simp
  · have h1 : solution.find id = none := by
      by_contra hne
      obtain ⟨placement, hf⟩ := Option.ne_none_iff_exists'.mp hne
      exact hid (ha.known id placement hf)
    have h2 : ∀ offsets, (expandReuseNodeSolution problem.search offsets).find id = none := by
      intro offsets
      by_contra hne
      obtain ⟨placement, hf⟩ := Option.ne_none_iff_exists'.mp hne
      exact hid (known_expand h offsets hf)
    rw [h1, h2]

/-- The objective of a solution depends on the placements found only. -/
theorem evaluateObjective_congr {first second : DsaSolution} (hf : first.find = second.find) :
    evaluateObjective problem first = evaluateObjective problem second := by
  have h1 : peakByPool problem first = peakByPool problem second := by
    unfold peakByPool
    rw [hf]
  have h2 : penaltyPaid problem first = penaltyPaid problem second := by
    funext penalty
    unfold penaltyPaid
    rw [hf]
  unfold evaluateObjective
  rw [h1, h2]

end expand

end Dsa
