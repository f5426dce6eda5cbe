import DsaSolver.ReuseClasses
import DsaSolver.Theory.Accumulate
import DsaSolver.Theory.Loops

/-! # One node for each class

The node `BuildNodes` makes of a class is a function of the class and of the placement of its
root (`classNode`), so a valid solution has the nodes `nodesOf` of its placement of the roots,
and moving one node is moving one root (`setOffset_nodesOf`).  A move that `FitsAt` allows keeps
the placement valid (`ClassesOk.move`). -/

namespace Dsa

namespace ReuseGeometry

variable {problem : DsaProblem}

/-! ### The node of a class -/

def pinOf (problem : DsaProblem) (id : BufferId) : Option PinnedAllocation :=
  problem.pinnedAllocations.find? fun pinned => pinned.buffer == id

/-- One of the buffers is pinned. -/
def anyPinned (problem : DsaProblem) (members : List ℕ) : Bool :=
  members.any fun i => (pinOf problem (problem.bufferAt i).id).isSome

/-- The least common multiple of the alignments. -/
def commonAlignment (problem : DsaProblem) (members : List ℕ) : ℕ :=
  members.foldl (fun common i => Nat.lcm common (problem.bufferAt i).alignment.toNat) 1

def largestSize (problem : DsaProblem) (members : List ℕ) : UInt64 :=
  members.foldl (fun size i => max size (problem.bufferAt i).size) 0

/-- The node of a class after the loop has seen some of its members. -/
def partNode (problem : DsaProblem) (members : List ℕ) (placement : Placement) (seen : List ℕ) :
    AllocationNode where
  members := members
  pool := placement.pool
  offset := placement.offset
  size := largestSize problem seen
  alignment := UInt64.ofNat (commonAlignment problem seen)
  movable := !anyPinned problem seen
  pinnedOffset := if anyPinned problem seen then some placement.offset else none

def classNode (problem : DsaProblem) (place : ℕ → Placement) (root : ℕ) : AllocationNode :=
  partNode problem (membersOf problem root) (place root) (membersOf problem root)

def nodesOf (problem : DsaProblem) (place : ℕ → Placement) : List AllocationNode :=
  (roots problem).map (classNode problem place)

theorem leastCommonMultiple_of_lt {first second : UInt64} (h1 : first ≠ 0) (h2 : second ≠ 0)
    (h : Nat.lcm first.toNat second.toNat < 2 ^ 64) :
    leastCommonMultiple first second = some (UInt64.ofNat (Nat.lcm first.toNat second.toNat)) := by
  have hsome : ∃ result, leastCommonMultiple first second = some result := by
    have p1 : 0 < first.toNat := Nat.pos_of_ne_zero (toNat_ne_zero h1)
    have p2 : 0 < second.toNat := Nat.pos_of_ne_zero (toNat_ne_zero h2)
    have hg : (UInt64.ofNat (Nat.gcd first.toNat second.toNat)).toNat =
        Nat.gcd first.toNat second.toNat := by
      have := Nat.gcd_le_left second.toNat p1
      have := first.toNat_lt
      rw [UInt64.toNat_ofNat']
      exact Nat.mod_eq_of_lt (by omega)
    have hmax : maxU64.toNat = 2 ^ 64 - 1 := rfl
    rw [Nat.lcm_eq_mul_div, ← Nat.div_mul_right_comm (Nat.gcd_dvd_left _ _)] at h
    unfold leastCommonMultiple
    dsimp only
    rw [if_neg]
    · exact ⟨_, rfl⟩
    · rw [gt_iff_lt, UInt64.lt_iff_toNat_lt, not_lt, UInt64.toNat_div, UInt64.toNat_div, hg,
        Nat.le_div_iff_mul_le p2]
      omega
  obtain ⟨result, hresult⟩ := hsome
  rw [hresult, ← leastCommonMultiple_eq_some h1 h2 hresult, UInt64.ofNat_toNat]

theorem commonAlignment_concat (seen : List ℕ) (i : ℕ) :
    commonAlignment problem (seen ++ [i]) =
      Nat.lcm (commonAlignment problem seen) (problem.bufferAt i).alignment.toNat := by
  simp [commonAlignment]

theorem commonAlignment_pos {seen : List ℕ}
    (h : ∀ i ∈ seen, (problem.bufferAt i).alignment ≠ 0) : 0 < commonAlignment problem seen := by
  induction seen using List.reverseRecOn with
  | nil => exact Nat.one_pos
  | append_singleton seen i ih =>
      rw [commonAlignment_concat]
      apply Nat.lcm_pos
      · exact ih fun j hj => h j (List.mem_append_left _ hj)
      · exact Nat.pos_of_ne_zero (toNat_ne_zero (h i (by simp)))

theorem dvd_commonAlignment {seen : List ℕ} {i : ℕ} (h : i ∈ seen) :
    (problem.bufferAt i).alignment.toNat ∣ commonAlignment problem seen := by
  induction seen using List.reverseRecOn with
  | nil => cases h
  | append_singleton seen j ih =>
      rw [commonAlignment_concat]
      obtain hold | hnew := List.mem_append.mp h
      · exact (ih hold).trans (Nat.dvd_lcm_left _ _)
      · rw [List.mem_singleton.mp hnew]
        exact Nat.dvd_lcm_right _ _

/-! ### `BuildNodes` -/

section build

variable {solution : DsaSolution} {placement : Placement}

theorem addMember_partNode {members seen : List ℕ} {i : ℕ}
    (hfind : solution.find (problem.bufferAt i).id = some placement)
    (hpin : ∀ pinned, pinOf problem (problem.bufferAt i).id = some pinned →
      pinned.offset = placement.offset)
    (halign : ∀ j ∈ seen ++ [i], (problem.bufferAt j).alignment ≠ 0)
    (hlt : commonAlignment problem (seen ++ [i]) < 2 ^ 64) :
    addMember problem solution (partNode problem members placement seen) i =
      .ok (partNode problem members placement (seen ++ [i])) := by
  have hpos := commonAlignment_pos fun j hj => halign j (List.mem_append_left _ hj)
  have hi := halign i (by simp)
  have hpos' := commonAlignment_pos halign
  rw [commonAlignment_concat] at hlt hpos'
  have hseen : commonAlignment problem seen < 2 ^ 64 := by
    have := Nat.le_of_dvd hpos' (Nat.dvd_lcm_left (commonAlignment problem seen)
      (problem.bufferAt i).alignment.toNat)
    omega
  have htoNat : (UInt64.ofNat (commonAlignment problem seen)).toNat =
      commonAlignment problem seen := by
    rw [UInt64.toNat_ofNat', Nat.mod_eq_of_lt hseen]
  have hne : UInt64.ofNat (commonAlignment problem seen) ≠ 0 := by
    intro h0
    rw [h0, UInt64.toNat_zero] at htoNat
    omega
  have hlcm := leastCommonMultiple_of_lt hne hi (by rwa [htoNat])
  rw [htoNat, ← commonAlignment_concat] at hlcm
  have hsize : largestSize problem (seen ++ [i]) =
      max (largestSize problem seen) (problem.bufferAt i).size := by
    simp [largestSize]
  have hany : anyPinned problem (seen ++ [i]) =
      (anyPinned problem seen || (pinOf problem (problem.bufferAt i).id).isSome) := by
    simp [anyPinned]
  unfold addMember
  dsimp only
  rw [if_neg (by simp [hfind, partNode]), show (partNode problem members placement seen).alignment =
    UInt64.ofNat (commonAlignment problem seen) from rfl, hlcm]
  dsimp only
  unfold pinMember
  cases hp : pinOf problem (problem.bufferAt i).id with
  | none =>
      rw [hp, Option.isSome_none, Bool.or_false] at hany
      rw [show (problem.pinnedAllocations.find? fun pinned =>
        pinned.buffer == (problem.bufferAt i).id) = none from hp]
      simp only [partNode, hsize, hany]
  | some pinned =>
      rw [hp, Option.isSome_some, Bool.or_true] at hany
      rw [show (problem.pinnedAllocations.find? fun pinned =>
        pinned.buffer == (problem.bufferAt i).id) = some pinned from hp]
      have hoffset := hpin pinned hp
      dsimp only
      rw [if_neg]
      · simp only [partNode, hsize, hany, hoffset, if_true, Bool.not_true]
      · by_cases hs : anyPinned problem seen = true <;> simp [partNode, hoffset, hs]

theorem foldlM_addMember {members seen : List ℕ}
    (hfind : ∀ i ∈ seen, solution.find (problem.bufferAt i).id = some placement)
    (hpin : ∀ i ∈ seen, ∀ pinned, pinOf problem (problem.bufferAt i).id = some pinned →
      pinned.offset = placement.offset)
    (halign : ∀ i ∈ seen, (problem.bufferAt i).alignment ≠ 0)
    (hlt : commonAlignment problem seen < 2 ^ 64) :
    seen.foldlM (addMember problem solution)
        { members, pool := placement.pool, offset := placement.offset } =
      .ok (partNode problem members placement seen) := by
  induction seen using List.reverseRecOn with
  | nil => rfl
  | append_singleton seen i ih =>
      have hprefix : commonAlignment problem seen < 2 ^ 64 := by
        have hpos := commonAlignment_pos halign
        rw [commonAlignment_concat] at hlt hpos
        have := Nat.le_of_dvd hpos (Nat.dvd_lcm_left (commonAlignment problem seen)
          (problem.bufferAt i).alignment.toNat)
        omega
      rw [List.foldlM_append, ih (fun j hj => hfind j (List.mem_append_left _ hj))
        (fun j hj => hpin j (List.mem_append_left _ hj))
        (fun j hj => halign j (List.mem_append_left _ hj)) hprefix, Theory.ok_bind,
        List.foldlM_cons, addMember_partNode (hfind i (by simp)) (hpin i (by simp)) halign hlt,
        Theory.ok_bind]
      rfl

theorem colocationIndices_eq (hwf : WellFormed problem) :
    colocationIndices problem = .ok (colocationPairs problem) := by
  unfold colocationIndices colocationPairs
  generalize hl : problem.colocations = l
  have hknown : ∀ constraint ∈ l, ∃ first second,
      bufferIndices problem constraint.first = some first ∧
        bufferIndices problem constraint.second = some second := by
    intro constraint hmem
    obtain ⟨h1, h2⟩ := hwf.colocations constraint (hl ▸ hmem)
    obtain ⟨i, -, -, hi, -⟩ := exists_index_of_known hwf.bufferIds h1
    obtain ⟨j, -, -, hj, -⟩ := exists_index_of_known hwf.bufferIds h2
    exact ⟨i, j, hi, hj⟩
  clear hl
  induction l with
  | nil => rfl
  | cons constraint rest ih =>
      obtain ⟨first, second, hfirst, hsecond⟩ := hknown constraint List.mem_cons_self
      rw [List.mapM_cons, hfirst, hsecond, Theory.ok_bind,
        ih fun c hc => hknown c (List.mem_cons_of_mem _ hc), List.filterMap_cons]
      simp only [hfirst, hsecond]
      rfl

/-- The alignments of every class have a common multiple that fits a word. -/
def AlignmentsFit (problem : DsaProblem) : Prop :=
  ∀ root ∈ roots problem, commonAlignment problem (membersOf problem root) < 2 ^ 64

theorem buildNode_eq {place : ℕ → Placement} (hwf : WellFormed problem)
    (h : PlacedBy problem solution place) (hok : ClassesOk problem place)
    (hfit : AlignmentsFit problem) {root : ℕ} (hroot : root ∈ roots problem) :
    buildNode problem solution (membersOf problem root) = .ok (classNode problem place root) := by
  have hfind : ∀ i ∈ membersOf problem root,
      solution.find (problem.bufferAt i).id = some (place root) := by
    intro i hi
    obtain ⟨hilt, hiroot⟩ := mem_membersOf.mp hi
    rw [h.find hwf hilt, hiroot]
  have hhead : (membersOf problem root).headD 0 ∈ membersOf problem root := by
    obtain ⟨i, rest, hlist⟩ := List.exists_cons_of_ne_nil (List.ne_nil_of_mem
      (mem_membersOf_self hroot))
    rw [hlist]
    exact List.mem_cons_self
  have hfirst : firstNode problem solution (membersOf problem root) = .ok
      { members := membersOf problem root, pool := (place root).pool,
        offset := (place root).offset } := by
    unfold firstNode
    rw [hfind _ hhead]
  unfold buildNode
  rw [hfirst, Theory.ok_bind]
  apply foldlM_addMember hfind _ _ (hfit root hroot)
  · intro i hi pinned hpin
    obtain ⟨hilt, hiroot⟩ := mem_membersOf.mp hi
    have hid : pinned.buffer = (problem.bufferAt i).id := by simpa using List.find?_some hpin
    rw [← hiroot, hok.pinned pinned (List.mem_of_find?_eq_some hpin) i hilt hid.symm]
  · intro i hi
    exact hwf.alignmentPos _ (bufferAt_mem (mem_membersOf.mp hi).1)

/-- **`BuildNodes` makes the nodes of the classes.** -/
theorem buildNodes_eq {place : ℕ → Placement} (hwf : WellFormed problem)
    (h : PlacedBy problem solution place) (hok : ClassesOk problem place)
    (hfit : AlignmentsFit problem) :
    buildNodes problem solution = .ok (nodesOf problem place) := by
  unfold buildNodes
  rw [colocationIndices_eq hwf, Theory.ok_bind]
  exact Theory.mapM_eq_pure fun root hroot => buildNode_eq hwf h hok hfit hroot

end build

/-! ### Reading the nodes -/

section nodes

variable {place : ℕ → Placement}

theorem length_nodesOf (place : ℕ → Placement) :
    (nodesOf problem place).length = (roots problem).length := List.length_map _

/-- The root of a node. -/
def rootAt (problem : DsaProblem) (index : ℕ) : ℕ := (roots problem).getD index 0

theorem rootAt_mem {index : ℕ} (h : index < (roots problem).length) :
    rootAt problem index ∈ roots problem := by
  rw [rootAt, List.getD_eq_getElem _ _ h]
  exact List.getElem_mem h

theorem rootAt_inj {first second : ℕ} (hf : first < (roots problem).length)
    (hs : second < (roots problem).length) :
    rootAt problem first = rootAt problem second ↔ first = second := by
  rw [rootAt, rootAt, List.getD_eq_getElem _ _ hf, List.getD_eq_getElem _ _ hs]
  exact nodup_roots.getElem_inj_iff

theorem exists_rootAt {root : ℕ} (h : root ∈ roots problem) :
    ∃ index < (roots problem).length, rootAt problem index = root := by
  obtain ⟨index, hlt, rfl⟩ := List.mem_iff_getElem.mp h
  exact ⟨index, hlt, List.getD_eq_getElem _ _ hlt⟩

theorem nodeAt_nodesOf {index : ℕ} (h : index < (roots problem).length) :
    nodeAt (nodesOf problem place) index = classNode problem place (rootAt problem index) := by
  unfold nodeAt nodesOf rootAt
  rw [List.getD_eq_getElem _ _ (by simpa using h), List.getD_eq_getElem _ _ h, List.getElem_map]

/-- The size of a node is the extent the validator uses. -/
theorem largestSize_membersOf {root : ℕ} (hroot : root ∈ roots problem) :
    largestSize problem (membersOf problem root) = allocationExtent problem root := by
  obtain ⟨hlt, hfix⟩ := of_mem_roots hroot
  have hfix : (colocationSets problem).root root = root := hfix
  obtain ⟨hge, hmem⟩ := extentsUpTo_spec root problem.buffers.length le_rfl
  rw [allocationExtent_eq_getD hlt, hfix]
  apply le_antisymm
  · apply (Theory.foldl_max_le_iff _ _ _ _).mpr
    refine ⟨UInt64.le_iff_toNat_le.mpr (Nat.zero_le _), fun i hi => ?_⟩
    obtain ⟨hilt, hiroot⟩ := mem_membersOf.mp hi
    exact hge i hilt hiroot
  · obtain hzero | ⟨i, hi, hiroot, heq⟩ := hmem
    · rw [hzero]
      exact UInt64.le_iff_toNat_le.mpr (Nat.zero_le _)
    · rw [heq]
      have hle := le_refl (largestSize problem (membersOf problem root))
      exact ((Theory.foldl_max_le_iff _ _ _ _).mp hle).2 i (mem_membersOf.mpr ⟨hi, hiroot⟩)

theorem movable_classNode {root : ℕ} (h : (classNode problem place root).movable = true) {i : ℕ}
    (hi : i ∈ membersOf problem root) : pinOf problem (problem.bufferAt i).id = none := by
  have hnone : anyPinned problem (membersOf problem root) = false := by
    simpa [classNode, partNode] using h
  unfold anyPinned at hnone
  rw [List.any_eq_false] at hnone
  simpa using hnone i hi

/-- Moving the node of a class without pins is moving its root. -/
theorem setOffset_nodesOf {index : ℕ} (h : index < (roots problem).length)
    (hmovable : (nodeAt (nodesOf problem place) index).movable = true) (offset : UInt64) :
    setOffset (nodesOf problem place) index offset =
      nodesOf problem (Function.update place (rootAt problem index)
        ⟨(place (rootAt problem index)).pool, offset⟩) := by
  have hnone : anyPinned problem (membersOf problem (rootAt problem index)) = false := by
    rw [nodeAt_nodesOf h] at hmovable
    simpa [classNode, partNode] using hmovable
  unfold setOffset
  rw [nodeAt_nodesOf h]
  apply List.ext_getElem
  · rw [List.length_set, length_nodesOf, length_nodesOf]
  · intro other hother _
    rw [List.length_set, length_nodesOf] at hother
    have hroot : rootAt problem other = (roots problem)[other] := List.getD_eq_getElem _ _ hother
    rw [List.getElem_set]
    simp only [nodesOf, List.getElem_map, ← hroot]
    by_cases heq : index = other
    · subst heq
      rw [if_pos rfl]
      unfold classNode partNode
      rw [Function.update_self, hnone]
      rfl
    · rw [if_neg heq]
      unfold classNode
      rw [Function.update_of_ne]
      rw [Ne, rootAt_inj hother h]
      exact Ne.symm heq

/-! ### `NodesToSolution` -/

/-- What one `emplace` after the other leaves at a key all of whose entries agree. -/
theorem getElem?_foldl_emplace {entries : List (BufferId × Placement)}
    {placements : Std.TreeMap BufferId Placement} {id : BufferId} {value : Placement}
    (hold : ∀ placement, placements[id]? = some placement → placement = value)
    (hall : ∀ entry ∈ entries, entry.1 = id → entry.2 = value) :
    (entries.foldl (fun placements entry => placements.insertIfNew entry.1 entry.2)
        placements)[id]? =
      if placements[id]?.isSome ∨ ∃ entry ∈ entries, entry.1 = id then some value else none := by
  induction entries generalizing placements with
  | nil =>
      cases hid : placements[id]? with
      | none => simp [hid]
      | some placement => simp [hid, hold placement hid]
  | cons entry rest ih =>
      have hstep : (placements.insertIfNew entry.1 entry.2)[id]? =
          if entry.1 = id ∧ ¬entry.1 ∈ placements then some entry.2 else placements[id]? := by
        rw [Std.TreeMap.getElem?_insertIfNew]
        simp only [Std.compare_eq_iff_eq]
      have hrest : ∀ other ∈ rest, other.1 = id → other.2 = value :=
        fun other hmem => hall other (List.mem_cons_of_mem _ hmem)
      rw [List.foldl_cons, ih _ hrest, hstep]
      · refine if_congr ?_ rfl rfl
        by_cases hid : entry.1 = id
        · subst hid
          by_cases hmem : entry.1 ∈ placements
          · have hsome := Std.TreeMap.isSome_getElem?_iff_mem.mpr hmem
            simp [hmem]
          · simp [hmem]
        · simp [hid]
      · intro placement hplaced
        rw [hstep] at hplaced
        split_ifs at hplaced with hnew
        · rw [← Option.some.inj hplaced]
          exact hall entry List.mem_cons_self hnew.1
        · exact hold placement hplaced

/-- The entries of the nodes. -/
def nodeEntries (problem : DsaProblem) (place : ℕ → Placement) : List (BufferId × Placement) :=
  (roots problem).flatMap fun root => (membersOf problem root).map fun i =>
    ((problem.bufferAt i).id, place root)

theorem mem_nodeEntries {entry : BufferId × Placement} :
    entry ∈ nodeEntries problem place ↔ ∃ i < problem.buffers.length,
      entry = ((problem.bufferAt i).id, place (rootOf problem i)) := by
  unfold nodeEntries
  rw [List.mem_flatMap]
  constructor
  · rintro ⟨root, -, hmem⟩
    obtain ⟨i, hi, rfl⟩ := List.mem_map.mp hmem
    obtain ⟨hlt, rfl⟩ := mem_membersOf.mp hi
    exact ⟨i, hlt, rfl⟩
  · rintro ⟨i, hi, rfl⟩
    exact ⟨_, rootOf_mem_roots hi, List.mem_map.mpr ⟨i, mem_membersOf.mpr ⟨hi, rfl⟩, rfl⟩⟩

theorem nodesToSolution_nodesOf (place : ℕ → Placement) :
    (nodesToSolution problem (nodesOf problem place)).placements =
      (nodeEntries problem place).foldl
        (fun placements entry => placements.insertIfNew entry.1 entry.2) ∅ := by
  unfold nodesToSolution nodesOf nodeEntries
  rw [List.foldl_map, List.foldl_flatMap]
  simp only [List.foldl_map]
  rfl

/-- **The nodes put every buffer where its root is.** -/
theorem placedBy_nodesOf (hwf : WellFormed problem) (place : ℕ → Placement) :
    PlacedBy problem (nodesToSolution problem (nodesOf problem place)) place := by
  intro id
  rw [DsaSolution.find, nodesToSolution_nodesOf]
  cases hid : bufferIndices problem id with
  | none =>
      have hunknown : ∀ entry ∈ nodeEntries problem place, entry.1 ≠ id := by
        rintro entry hmem rfl
        obtain ⟨i, hi, rfl⟩ := mem_nodeEntries.mp hmem
        rw [bufferIndices_bufferAt hwf.bufferIds hi] at hid
        cases hid
      rw [@getElem?_foldl_emplace _ _ id {} (by simp) fun entry hmem h =>
        absurd h (hunknown entry hmem), if_neg]
      · rfl
      · rintro (hempty | ⟨entry, hmem, heq⟩)
        · simp at hempty
        · exact hunknown entry hmem heq
  | some i =>
      obtain ⟨hi, rfl⟩ := bufferIndices_lt hid
      rw [@getElem?_foldl_emplace _ _ _ (place (rootOf problem i)) (by simp), if_pos]
      · rfl
      · exact .inr ⟨_, mem_nodeEntries.mpr ⟨i, hi, rfl⟩, rfl⟩
      · intro entry hmem heq
        obtain ⟨j, hj, rfl⟩ := mem_nodeEntries.mp hmem
        rw [bufferAt_id_injective hwf.bufferIds hj hi heq]

/-! ### Nodes that must remain disjoint -/

theorem inNode_classNode {root : ℕ} {id : BufferId} :
    inNode problem (classNode problem place root) id = true ↔
      ∃ i ∈ membersOf problem root, (problem.bufferAt i).id = id := by
  simp [inNode, classNode, partNode]

theorem hasExclusivePin_classNode {root : ℕ} :
    hasExclusivePin problem (classNode problem place root) = true ↔
      ∃ i ∈ membersOf problem root, exclusivelyPinned problem (problem.bufferAt i).id = true := by
  simp only [hasExclusivePin, exclusivelyPinned, List.any_eq_true, Bool.and_eq_true,
    inNode_classNode, beq_iff_eq]
  constructor
  · rintro ⟨pinned, hmem, hexclusive, i, hi, hid⟩
    exact ⟨i, hi, pinned, hmem, hexclusive, hid.symm⟩
  · rintro ⟨i, hi, pinned, hmem, hexclusive, hid⟩
    exact ⟨pinned, hmem, hexclusive, i, hi, hid.symm⟩

theorem mustRemainDisjoint_iff {r s : ℕ} (hr : r ∈ roots problem) (hs : s ∈ roots problem) :
    mustRemainDisjoint problem (classNode problem place r) (classNode problem place s) = true ↔
      MustBeApart problem r s := by
  unfold mustRemainDisjoint
  simp only [Bool.or_eq_true, hasExclusivePin_classNode]
  constructor
  · rintro (((⟨i, hi, hpin⟩ | ⟨j, hj, hpin⟩) | hseparation) | hconflict)
    · exact ⟨i, hi, s, mem_membersOf_self hs, .inl (by simp [hpin])⟩
    · exact ⟨r, mem_membersOf_self hr, j, hj, .inl (by simp [hpin])⟩
    · unfold hasSeparation at hseparation
      rw [List.any_eq_true] at hseparation
      obtain ⟨separation, hmem, hends⟩ := hseparation
      simp only [Bool.or_eq_true, Bool.and_eq_true, inNode_classNode] at hends
      obtain ⟨⟨i, hi, ei⟩, j, hj, ej⟩ | ⟨⟨i, hi, ei⟩, j, hj, ej⟩ := hends
      · exact ⟨i, hi, j, hj, .inr ⟨separation, hmem, .inl ⟨ei.symm, ej.symm⟩⟩⟩
      · exact ⟨i, hi, j, hj, .inr ⟨separation, hmem, .inr ⟨ej.symm, ei.symm⟩⟩⟩
    · unfold nodesHaveTemporalConflict at hconflict
      simp only [List.any_eq_true] at hconflict
      obtain ⟨i, hi, j, hj, hconflict⟩ := hconflict
      exact ⟨i, hi, j, hj, .inl (by simp [hconflict])⟩
  · rintro ⟨i, hi, j, hj, hmust | ⟨separation, hmem, hends⟩⟩
    · simp only [Bool.or_eq_true] at hmust
      obtain (hconflict | hpin) | hpin := hmust
      · refine .inr ?_
        unfold nodesHaveTemporalConflict
        simp only [List.any_eq_true]
        exact ⟨i, hi, j, hj, hconflict⟩
      · exact .inl (.inl (.inl ⟨i, hi, hpin⟩))
      · exact .inl (.inl (.inr ⟨j, hj, hpin⟩))
    · refine .inl (.inr ?_)
      unfold hasSeparation
      rw [List.any_eq_true]
      refine ⟨separation, hmem, ?_⟩
      simp only [Bool.or_eq_true, Bool.and_eq_true, inNode_classNode]
      obtain ⟨hfirst, hsecond⟩ | ⟨hfirst, hsecond⟩ := hends
      · exact .inl ⟨⟨i, hi, hfirst.symm⟩, j, hj, hsecond.symm⟩
      · exact .inr ⟨⟨i, hi, hsecond.symm⟩, j, hj, hfirst.symm⟩

theorem getD_map_range_ite {α : Type} (f : ℕ → α) (count index : ℕ) (default : α) :
    ((List.range count).map f).getD index default = if index < count then f index else default := by
  split_ifs with h
  · rw [List.getD_eq_getElem _ _ (by simpa using h), List.getElem_map, List.getElem_range]
  · rw [List.getD_eq_default _ _ (by simpa using h)]

/-- The matrix, in and out of its range. -/
theorem disjointAt_build (nodes : List AllocationNode) (first second : ℕ) :
    disjointAt (buildMustRemainDisjoint problem nodes) first second =
      (decide (first < nodes.length) && decide (second < nodes.length) && first != second &&
        mustRemainDisjoint problem (nodeAt nodes (min first second))
          (nodeAt nodes (max first second))) := by
  unfold disjointAt buildMustRemainDisjoint
  rw [getD_map_range_ite]
  by_cases hf : first < nodes.length
  · rw [if_pos hf, getD_map_range_ite]
    by_cases hs : second < nodes.length
    · simp [hf, hs]
    · simp [hs]
  · simp [hf]

theorem disjointAt_comm (nodes : List AllocationNode) (first second : ℕ) :
    disjointAt (buildMustRemainDisjoint problem nodes) first second =
      disjointAt (buildMustRemainDisjoint problem nodes) second first := by
  rw [disjointAt_build, disjointAt_build, min_comm, max_comm, Bool.and_comm (decide _) (decide _),
    bne_comm]

theorem disjointAt_nodesOf {first second : ℕ} (hf : first < (roots problem).length)
    (hs : second < (roots problem).length) :
    disjointAt (buildMustRemainDisjoint problem (nodesOf problem place)) first second = true ↔
      first ≠ second ∧ MustBeApart problem (rootAt problem first) (rootAt problem second) := by
  rw [disjointAt_build, length_nodesOf]
  simp only [hf, hs, decide_true, Bool.true_and, Bool.and_eq_true, bne_iff_ne]
  refine and_congr_right fun _ => ?_
  rcases le_total first second with hle | hle
  · rw [min_eq_left hle, max_eq_right hle, nodeAt_nodesOf hf, nodeAt_nodesOf hs,
      mustRemainDisjoint_iff (rootAt_mem hf) (rootAt_mem hs)]
  · rw [min_eq_right hle, max_eq_left hle, nodeAt_nodesOf hf, nodeAt_nodesOf hs,
      mustRemainDisjoint_iff (rootAt_mem hs) (rootAt_mem hf)]
    exact ⟨MustBeApart.symm, MustBeApart.symm⟩

/-- The matrix does not depend on where the classes are. -/
theorem buildMustRemainDisjoint_nodesOf (place place' : ℕ → Placement) :
    buildMustRemainDisjoint problem (nodesOf problem place') =
      buildMustRemainDisjoint problem (nodesOf problem place) := by
  have hmust : ∀ r s, mustRemainDisjoint problem (classNode problem place' r)
      (classNode problem place' s) =
        mustRemainDisjoint problem (classNode problem place r) (classNode problem place s) := by
    intro r s
    rfl
  unfold buildMustRemainDisjoint
  rw [length_nodesOf, length_nodesOf]
  refine List.map_congr_left fun row hrow => List.map_congr_left fun column hcolumn => ?_
  rw [List.mem_range] at hrow hcolumn
  have hmin : min row column < (roots problem).length := by omega
  have hmax : max row column < (roots problem).length := by omega
  rw [nodeAt_nodesOf hmin, nodeAt_nodesOf hmax, nodeAt_nodesOf hmin, nodeAt_nodesOf hmax, hmust]

/-! ### A move that fits -/

/-- The placement of the roots after one of them moves. -/
def moved (place : ℕ → Placement) (root : ℕ) (offset : UInt64) : ℕ → Placement :=
  Function.update place root ⟨(place root).pool, offset⟩

theorem moved_self (root : ℕ) (offset : UInt64) :
    moved place root offset root = ⟨(place root).pool, offset⟩ := Function.update_self _ _ _

theorem moved_of_ne {root other : ℕ} (h : other ≠ root) (offset : UInt64) :
    moved place root offset other = place other := Function.update_of_ne h _ _

theorem moved_pool (root : ℕ) (offset : UInt64) (other : ℕ) :
    (moved place root offset other).pool = (place other).pool := by
  by_cases h : other = root
  · rw [h, moved_self]
  · rw [moved_of_ne h]

/-- What `FitsAt` checks, on the roots. -/
structure RootFits (problem : DsaProblem) (place : ℕ → Placement) (root : ℕ) (offset : UInt64) :
    Prop where
  aligned : commonAlignment problem (membersOf problem root) ∣ offset.toNat
  room : ∃ pool, problem.findPool (place root).pool = some pool ∧
    PoolFits pool offset.toNat (allocationExtent problem root).toNat
  apart : ∀ other ∈ roots problem, other ≠ root → MustBeApart problem root other →
    (place other).pool = (place root).pool →
      addressRangesOverlap offset (allocationExtent problem root) (place other).offset
        (allocationExtent problem other) = false

theorem rootFits_of_fitsAt (hwf : WellFormed problem) (hfit : AlignmentsFit problem) {index : ℕ}
    (hindex : index < (roots problem).length) {offset : UInt64}
    (h : fitsAt problem (nodesOf problem place)
      (buildMustRemainDisjoint problem (nodesOf problem place)) index offset = true) :
    RootFits problem place (rootAt problem index) offset := by
  have hroot := rootAt_mem hindex
  have hextent : allocationExtent problem (rootAt problem index) ≠ 0 :=
    allocationExtent_ne hwf (of_mem_roots hroot).1
  have hsize : (classNode problem place (rootAt problem index)).size =
      allocationExtent problem (rootAt problem index) := largestSize_membersOf hroot
  have halignment : (classNode problem place (rootAt problem index)).alignment.toNat =
      commonAlignment problem (membersOf problem (rootAt problem index)) := by
    show (UInt64.ofNat _).toNat = _
    rw [UInt64.toNat_ofNat', Nat.mod_eq_of_lt (hfit _ hroot)]
  unfold fitsAt at h
  rw [nodeAt_nodesOf hindex] at h
  dsimp only at h
  rw [hsize, length_nodesOf] at h
  split_ifs at h with hcheck
  rw [Bool.or_eq_true, not_or, bne_iff_ne, not_not, Bool.not_eq_true] at hcheck
  obtain ⟨haligned, hover⟩ := hcheck
  rw [mod_eq_zero_iff_dvd, halignment] at haligned
  rw [Theory.addOverflows_eq_false_iff] at hover
  cases hpool : problem.findPool (place (rootAt problem index)).pool with
  | none =>
      rw [show (classNode problem place (rootAt problem index)).pool =
        (place (rootAt problem index)).pool from rfl, hpool] at h
      cases h
  | some pool =>
      rw [show (classNode problem place (rootAt problem index)).pool =
        (place (rootAt problem index)).pool from rfl, hpool] at h
      dsimp only at h
      cases hcapacity : pool.capacity with
      | none =>
          rw [hcapacity] at h
          cases h
      | some capacity =>
          rw [hcapacity] at h
          dsimp only at h
          split_ifs at h with hwithin
          rw [Bool.and_eq_true, List.all_eq_true, List.all_eq_true] at h
          obtain ⟨hreserved, hothers⟩ := h
          refine ⟨haligned, ⟨pool, hpool, ?_, ?_⟩, ?_⟩
          · rw [gt_iff_lt, UInt64.lt_iff_toNat_lt, not_lt, Theory.toNat_add_of_lt hover] at hwithin
            rw [hcapacity]
            exact hwithin
          · intro range hmem
            have hrange := hreserved range hmem
            rw [Bool.not_eq_true'] at hrange
            exact (addressRangesOverlap_reserved_iff hextent hover
              (hwf.reserved pool (findPool_mem hpool) range hmem)).mp hrange
          · intro other hother hne happart hsame
            obtain ⟨j, hj, rfl⟩ := exists_rootAt hother
            have hcheck := hothers j (List.mem_range.mpr hj)
            have hij : index ≠ j := fun heq => hne (by rw [heq])
            rw [nodeAt_nodesOf hj, (disjointAt_nodesOf hindex hj).mpr ⟨hij, happart⟩,
              show (classNode problem place (rootAt problem j)).size = _ from
                largestSize_membersOf hother] at hcheck
            simpa [Ne.symm hij, hsame, classNode, partNode] using hcheck

/-- **A move that fits keeps the placement valid.** -/
theorem ClassesOk.move (hok : ClassesOk problem place) (hwf : WellFormed problem) {root : ℕ}
    (hroot : root ∈ roots problem) {offset : UInt64} (hfits : RootFits problem place root offset)
    (hfree : ∀ i ∈ membersOf problem root, pinOf problem (problem.bufferAt i).id = none) :
    ClassesOk problem (moved place root offset) where
  placed i hi := by
    have hplaced := hok.placed i hi
    by_cases h : rootOf problem i = root
    · subst h
      obtain ⟨pool, hpool, hroom⟩ := hfits.room
      have hi' : i ∈ membersOf problem (rootOf problem i) := mem_membersOf.mpr ⟨hi, rfl⟩
      rw [moved_self]
      apply (placedOk_iff hwf (bufferAt_mem hi) (by rw [hpool]; rfl)).mpr
      refine ⟨hplaced.allowed, (dvd_commonAlignment hi').trans hfits.aligned, pool, hpool, ?_⟩
      apply hroom.mono
      rw [allocationExtent_rootOf hi]
      exact UInt64.le_iff_toNat_le.mp (size_le_allocationExtent hi)
    · rw [moved_of_ne h]
      exact hplaced
  apart r hr s hs hne happart := by
    have key : ∀ other ∈ roots problem, other ≠ root → MustBeApart problem root other →
        classesOverlap problem (moved place root offset) root other = false := by
      intro other hother hother' happart
      unfold classesOverlap placementsOverlap
      rw [moved_self, moved_of_ne hother', Bool.and_eq_false_iff, beq_eq_false_iff_ne]
      by_cases hpool : (place other).pool = (place root).pool
      · exact .inr (hfits.apart other hother hother' happart hpool)
      · exact .inl (Ne.symm hpool)
    by_cases hrr : r = root
    · subst hrr
      exact key s hs hne.symm happart
    · by_cases hsr : s = root
      · subst hsr
        rw [classesOverlap_comm]
        exact key r hr hrr happart.symm
      · have hold := hok.apart r hr s hs hne happart
        unfold classesOverlap at hold ⊢
        rwa [moved_of_ne hrr, moved_of_ne hsr]
  separated := hok.separated
  pinned pinned hmem i hi hid := by
    by_cases h : rootOf problem i = root
    · have hnone := hfree i (mem_membersOf.mpr ⟨hi, h⟩)
      have hall := List.find?_eq_none.mp hnone pinned hmem
      rw [hid] at hall
      simp at hall
    · rw [moved_of_ne h]
      exact hok.pinned pinned hmem i hi hid

end nodes

end ReuseGeometry

end Dsa
