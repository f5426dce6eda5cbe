import DsaSolver.ReuseNodes
import DsaSolver.Theory.PairSums
import Mathlib.Data.Prod.Lex

/-! # The sparse reference descends

A move changes the pairs of one node only, so the change of that node's score is the change of
the whole score (`sharing_lt_of_row_lt`): an accepted move makes the whole placement share
strictly less, if the scores it compares are sums that fit a word (`MoveFits`).  With the validity
of every move (`ClassesOk.move`) this is an invariant of the run, whatever the order of the nodes
and the number of passes (`sparseReference_descends`).  A score that wraps is compared as a small
one, and the move it wins may share more (`sparseReference_descends_wraps`). -/

namespace Dsa

namespace ReuseGeometry

open Theory (pairSum rowSum)

variable {problem : DsaProblem}

/-! ### Scores without wrap -/

/-- What two nodes share, as numbers. -/
def pairsBetween (problem : DsaProblem) (nodes : List AllocationNode) (first second : ℕ) : ℕ :=
  (indexedScore nodes (buildMustRemainDisjoint problem nodes) first second).pairs.toNat

def bytesBetween (problem : DsaProblem) (nodes : List AllocationNode) (first second : ℕ) : ℕ :=
  (indexedScore nodes (buildMustRemainDisjoint problem nodes) first second).bytes.toNat

/-- The number of pairs of nodes that share addresses. -/
def sharingPairs (problem : DsaProblem) (nodes : List AllocationNode) : ℕ :=
  pairSum nodes.length (pairsBetween problem nodes)

/-- The bytes the pairs share. -/
def sharedBytes (problem : DsaProblem) (nodes : List AllocationNode) : ℕ :=
  pairSum nodes.length (bytesBetween problem nodes)

/-- The whole score, ordered lexicographically. -/
def sharing (problem : DsaProblem) (nodes : List AllocationNode) : ℕ ×ₗ ℕ :=
  toLex (sharingPairs problem nodes, sharedBytes problem nodes)

/-- A machine score as numbers. -/
def Score.value (score : Score) : ℕ ×ₗ ℕ := toLex (score.pairs.toNat, score.bytes.toNat)

theorem Score.less_iff (first second : Score) :
    first.less second = true ↔ first.value < second.value := by
  unfold Score.less Score.value
  rw [Prod.Lex.toLex_lt_toLex, Bool.or_eq_true, decide_eq_true_eq, Bool.and_eq_true, beq_iff_eq,
    decide_eq_true_eq, UInt64.lt_iff_toNat_lt, UInt64.lt_iff_toNat_lt, UInt64.toNat_inj]

theorem overlapBytes_comm (a s b t : UInt64) : overlapBytes a s b t = overlapBytes b t a s := by
  unfold overlapBytes
  rw [addressRangesOverlap_comm, min_comm, max_comm]

theorem pairScore_comm (first second : AllocationNode) (a b : UInt64) (disjoint : Bool) :
    pairScore first a second b disjoint = pairScore second b first a disjoint := by
  unfold pairScore
  rw [overlapBytes_comm, bne_comm]

theorem pairScore_pairs_le (first second : AllocationNode) (a b : UInt64) (disjoint : Bool) :
    (pairScore first a second b disjoint).pairs.toNat ≤
      (pairScore first a second b disjoint).bytes.toNat := by
  unfold pairScore
  split_ifs with hapart
  · exact le_rfl
  · dsimp only
    split_ifs with hzero
    · exact Nat.zero_le _
    · rw [beq_iff_eq] at hzero
      have := toNat_ne_zero hzero
      rw [UInt64.toNat_one]
      omega

theorem indexedScore_comm (nodes : List AllocationNode) (first second : ℕ) :
    indexedScore nodes (buildMustRemainDisjoint problem nodes) first second =
      indexedScore nodes (buildMustRemainDisjoint problem nodes) second first := by
  unfold indexedScore
  rw [pairScore_comm, disjointAt_comm]

theorem pairsBetween_comm (nodes : List AllocationNode) (first second : ℕ) :
    pairsBetween problem nodes first second = pairsBetween problem nodes second first := by
  rw [pairsBetween, indexedScore_comm, pairsBetween]

theorem bytesBetween_comm (nodes : List AllocationNode) (first second : ℕ) :
    bytesBetween problem nodes first second = bytesBetween problem nodes second first := by
  rw [bytesBetween, indexedScore_comm, bytesBetween]

theorem sharingPairs_le (nodes : List AllocationNode) :
    sharingPairs problem nodes ≤ sharedBytes problem nodes :=
  Theory.pairSum_mono fun _ _ => pairScore_pairs_le _ _ _ _ _

/-- A loop that adds scores. -/
theorem foldl_add_score {α : Type} (term : α → Score) (l : List α) (start : Score) :
    (l.foldl (fun score x => score.add (term x)) start).pairs.toNat =
        (start.pairs.toNat + (l.map fun x => (term x).pairs.toNat).sum) % 2 ^ 64 ∧
      (l.foldl (fun score x => score.add (term x)) start).bytes.toNat =
        (start.bytes.toNat + (l.map fun x => (term x).bytes.toNat).sum) % 2 ^ 64 := by
  induction l generalizing start with
  | nil =>
      have := start.pairs.toNat_lt
      have := start.bytes.toNat_lt
      exact ⟨(Nat.mod_eq_of_lt (by simpa)).symm, (Nat.mod_eq_of_lt (by simpa)).symm⟩
  | cons x rest ih =>
      obtain ⟨hpairs, hbytes⟩ := ih (start.add (term x))
      rw [List.foldl_cons, hpairs, hbytes, List.map_cons, List.map_cons, List.sum_cons,
        List.sum_cons]
      unfold Score.add
      rw [UInt64.toNat_add, UInt64.toNat_add, Nat.mod_add_mod, Nat.mod_add_mod, Nat.add_assoc,
        Nat.add_assoc]
      exact ⟨rfl, rfl⟩

/-- The pairs the double loop goes through. -/
def indexPairs (count : ℕ) : List (ℕ × ℕ) :=
  (List.range count).flatMap fun first =>
    (List.range' (first + 1) (count - (first + 1))).map fun second => (first, second)

theorem sum_indexPairs (count : ℕ) (f : ℕ → ℕ → ℕ) :
    ((indexPairs count).map fun pair => f pair.1 pair.2).sum = pairSum count f := by
  unfold indexPairs pairSum
  rw [List.map_flatMap, List.flatMap_def, List.sum_flatten, List.map_map]
  simp only [Function.comp_def, List.map_map]
  rfl

theorem totalScore_eq (nodes : List AllocationNode) (mustBeDisjoint : List (List Bool)) :
    totalScore nodes mustBeDisjoint = (indexPairs nodes.length).foldl
      (fun score pair => score.add (indexedScore nodes mustBeDisjoint pair.1 pair.2)) {} := by
  unfold totalScore indexPairs
  rw [List.foldl_flatMap]
  simp only [List.foldl_map]

/-- The total of the code is the exact one modulo the word. -/
theorem totalScore_toNat (nodes : List AllocationNode) :
    (totalScore nodes (buildMustRemainDisjoint problem nodes)).pairs.toNat =
        sharingPairs problem nodes % 2 ^ 64 ∧
      (totalScore nodes (buildMustRemainDisjoint problem nodes)).bytes.toNat =
        sharedBytes problem nodes % 2 ^ 64 := by
  obtain ⟨h1, h2⟩ := foldl_add_score (fun pair : ℕ × ℕ =>
    indexedScore nodes (buildMustRemainDisjoint problem nodes) pair.1 pair.2)
    (indexPairs nodes.length) {}
  rw [sum_indexPairs _ fun i j => (indexedScore nodes _ i j).pairs.toNat] at h1
  rw [sum_indexPairs _ fun i j => (indexedScore nodes _ i j).bytes.toNat] at h2
  change _ = (0 + sharingPairs problem nodes) % 2 ^ 64 at h1
  change _ = (0 + sharedBytes problem nodes) % 2 ^ 64 at h2
  rw [Nat.zero_add] at h1 h2
  rw [totalScore_eq]
  exact ⟨h1, h2⟩

/-- The total of a placement that shares no more than one whose bytes fit a word: its pairs are
exact, and with as many pairs its bytes are. -/
theorem totalScore_le {nodes first : List AllocationNode}
    (hfirst : sharedBytes problem first < 2 ^ 64)
    (h : sharing problem nodes ≤ sharing problem first) :
    (totalScore nodes (buildMustRemainDisjoint problem nodes)).pairs.toNat =
        sharingPairs problem nodes ∧
      (totalScore nodes (buildMustRemainDisjoint problem nodes)).value ≤
        (totalScore first (buildMustRemainDisjoint problem first)).value := by
  have hpairs := @sharingPairs_le problem first
  obtain ⟨hpairs', hbytes'⟩ := @totalScore_toNat problem nodes
  obtain ⟨hpairs₀, hbytes₀⟩ := @totalScore_toNat problem first
  unfold sharing at h
  rw [Prod.Lex.toLex_le_toLex] at h
  rw [Nat.mod_eq_of_lt (by omega)] at hpairs' hpairs₀
  rw [Nat.mod_eq_of_lt hfirst] at hbytes₀
  refine ⟨hpairs', ?_⟩
  unfold Score.value
  rw [Prod.Lex.toLex_le_toLex, hpairs', hpairs₀, hbytes', hbytes₀]
  obtain hless | ⟨heq, hle⟩ := h
  · exact .inl hless
  · exact .inr ⟨heq, (Nat.mod_le _ _).trans hle⟩

theorem rowSum_eq_list (count k : ℕ) (f : ℕ → ℕ → ℕ) :
    ((List.range count).map fun j => if j == k then 0 else f k j).sum = rowSum count f k := by
  simp only [beq_iff_eq]
  rfl

/-- The score of a node is the row of its pairs when the row fits a word. -/
theorem nodeScore_value {nodes : List AllocationNode} {k : ℕ}
    (h : rowSum nodes.length (bytesBetween problem nodes) k < 2 ^ 64) :
    (nodeScore nodes (buildMustRemainDisjoint problem nodes) k (nodeAt nodes k).offset).value =
      toLex (rowSum nodes.length (pairsBetween problem nodes) k,
        rowSum nodes.length (bytesBetween problem nodes) k) := by
  have hle : rowSum nodes.length (pairsBetween problem nodes) k ≤
      rowSum nodes.length (bytesBetween problem nodes) k := by
    refine Finset.sum_le_sum fun j _ => ?_
    split_ifs
    · exact le_rfl
    · exact pairScore_pairs_le _ _ _ _ _
  have hloop : nodeScore nodes (buildMustRemainDisjoint problem nodes) k (nodeAt nodes k).offset =
      (List.range nodes.length).foldl (fun score j => score.add (if j == k then {} else
        indexedScore nodes (buildMustRemainDisjoint problem nodes) k j)) {} := by
    unfold nodeScore
    congr 1
    funext score j
    split_ifs
    · simp [Score.add]
    · rfl
  obtain ⟨h1, h2⟩ := foldl_add_score (fun j : ℕ => if j == k then {} else
    indexedScore nodes (buildMustRemainDisjoint problem nodes) k j) (List.range nodes.length) {}
  simp only [apply_ite (fun score : Score => score.pairs.toNat)] at h1
  simp only [apply_ite (fun score : Score => score.bytes.toNat)] at h2
  rw [show (({} : Score).pairs.toNat) = 0 from rfl,
    rowSum_eq_list _ _ fun i j => (indexedScore nodes _ i j).pairs.toNat, Nat.zero_add] at h1
  rw [show (({} : Score).bytes.toNat) = 0 from rfl,
    rowSum_eq_list _ _ fun i j => (indexedScore nodes _ i j).bytes.toNat, Nat.zero_add] at h2
  change _ = rowSum nodes.length (pairsBetween problem nodes) k % 2 ^ 64 at h1
  change _ = rowSum nodes.length (bytesBetween problem nodes) k % 2 ^ 64 at h2
  rw [Nat.mod_eq_of_lt (by omega)] at h1
  rw [Nat.mod_eq_of_lt h] at h2
  rw [hloop]
  unfold Score.value
  rw [h1, h2]

/-! ### One node moves -/

section move

variable {place : ℕ → Placement} {index : ℕ}

theorem nodeAt_setOffset {nodes : List AllocationNode} {k : ℕ} (hk : k < nodes.length)
    (offset : UInt64) (j : ℕ) :
    nodeAt (setOffset nodes k offset) j =
      if k = j then { nodeAt nodes k with offset } else nodeAt nodes j := by
  unfold nodeAt setOffset
  exact getD_set hk _ _ j

theorem setOffset_self {nodes : List AllocationNode} {k : ℕ} (hk : k < nodes.length) :
    setOffset nodes k (nodeAt nodes k).offset = nodes := by
  unfold setOffset nodeAt
  rw [List.getD_eq_getElem _ _ hk]
  exact List.set_getElem_self hk

/-- The score of a node at another offset is its score after the move. -/
theorem nodeScore_setOffset {nodes : List AllocationNode} {k : ℕ} (hk : k < nodes.length)
    (mustBeDisjoint : List (List Bool)) (offset : UInt64) :
    nodeScore nodes mustBeDisjoint k offset =
      nodeScore (setOffset nodes k offset) mustBeDisjoint k
        (nodeAt (setOffset nodes k offset) k).offset := by
  have hlength : (setOffset nodes k offset).length = nodes.length := List.length_set
  unfold nodeScore
  rw [hlength, nodeAt_setOffset hk, if_pos rfl]
  congr 1
  funext score other
  split_ifs with hother
  · rfl
  · rw [beq_iff_eq] at hother
    rw [nodeAt_setOffset hk, if_neg (Ne.symm hother)]
    rfl

/-- The pairs of the other nodes are those of before. -/
theorem indexedScore_setOffset {nodes : List AllocationNode} {k : ℕ} (hk : k < nodes.length)
    (mustBeDisjoint : List (List Bool)) (offset : UInt64) {i j : ℕ} (hi : i ≠ k) (hj : j ≠ k) :
    indexedScore (setOffset nodes k offset) mustBeDisjoint i j =
      indexedScore nodes mustBeDisjoint i j := by
  unfold indexedScore
  rw [nodeAt_setOffset hk, nodeAt_setOffset hk, if_neg (Ne.symm hi), if_neg (Ne.symm hj)]

/-- **Locality.**  Two placements that differ in one node compare like the rows of that node. -/
theorem sharing_lt_of_row_lt {nodes nodes' : List AllocationNode} {k : ℕ} (hk : k < nodes.length)
    (hlength : nodes'.length = nodes.length)
    (hagree : ∀ i j, i ≠ k → j ≠ k →
      indexedScore nodes' (buildMustRemainDisjoint problem nodes') i j =
        indexedScore nodes (buildMustRemainDisjoint problem nodes) i j)
    (h : toLex (rowSum nodes.length (pairsBetween problem nodes') k,
        rowSum nodes.length (bytesBetween problem nodes') k) <
      toLex (rowSum nodes.length (pairsBetween problem nodes) k,
        rowSum nodes.length (bytesBetween problem nodes) k)) :
    sharing problem nodes' < sharing problem nodes := by
  have hpairs := Theory.pairSum_add_rowSum hk (@pairsBetween_comm problem nodes')
    (pairsBetween_comm nodes) fun i j hi hj => by
      rw [pairsBetween, hagree i j hi hj, pairsBetween]
  have hbytes := Theory.pairSum_add_rowSum hk (@bytesBetween_comm problem nodes')
    (bytesBetween_comm nodes) fun i j hi hj => by
      rw [bytesBetween, hagree i j hi hj, bytesBetween]
  unfold sharing sharingPairs sharedBytes
  rw [hlength]
  rw [Prod.Lex.toLex_lt_toLex] at h ⊢
  omega

end move

/-! ### What a move compares -/

/-- The offsets whose scores a move compares: the node's own and the candidates that fit. -/
def triedOffsets (problem : DsaProblem) (nodes : List AllocationNode)
    (mustBeDisjoint : List (List Bool)) (nodeIndex : ℕ) : List UInt64 :=
  (nodeAt nodes nodeIndex).offset ::
    (candidateOffsets problem nodes nodeIndex).toList.filter
      (fitsAt problem nodes mustBeDisjoint nodeIndex)

/-- At every offset a movable node tries, the bytes it shares with the others fit a word. -/
def MoveFits (problem : DsaProblem) (nodes : List AllocationNode)
    (mustBeDisjoint : List (List Bool)) (nodeIndex : ℕ) : Prop :=
  (nodeAt nodes nodeIndex).movable = true →
    ∀ offset ∈ triedOffsets problem nodes mustBeDisjoint nodeIndex,
      rowSum nodes.length (bytesBetween problem (setOffset nodes nodeIndex offset)) nodeIndex <
        2 ^ 64

/-- The best offset is one of those tried, with its score. -/
theorem bestMove_spec (nodes : List AllocationNode) (mustBeDisjoint : List (List Bool))
    (index : ℕ) :
    (bestMove problem nodes mustBeDisjoint index).1 =
        nodeScore nodes mustBeDisjoint index (bestMove problem nodes mustBeDisjoint index).2 ∧
      (bestMove problem nodes mustBeDisjoint index).2 ∈
        triedOffsets problem nodes mustBeDisjoint index := by
  unfold bestMove
  dsimp only
  apply List.foldlRecOn (motive := fun best : Score × UInt64 =>
    best.1 = nodeScore nodes mustBeDisjoint index best.2 ∧
      best.2 ∈ triedOffsets problem nodes mustBeDisjoint index)
  · exact ⟨rfl, List.mem_cons_self⟩
  · intro best hbest candidate hcandidate
    unfold improve
    dsimp only
    split_ifs with hfits hbetter
    · exact hbest
    · rw [Bool.not_eq_true', Bool.not_eq_false] at hfits
      exact ⟨rfl, List.mem_cons_of_mem _ (List.mem_filter.mpr ⟨hcandidate, hfits⟩)⟩
    · exact hbest

/-- All that the body of the loop does: nothing, or a move to a better offset that fits. -/
theorem moveNode_cases (mustBeDisjoint : List (List Bool)) (state : Descent) (index : ℕ) :
    moveNode problem mustBeDisjoint state index = state ∨
      ((nodeAt state.nodes index).movable = true ∧
        ∃ offset ∈ triedOffsets problem state.nodes mustBeDisjoint index,
          fitsAt problem state.nodes mustBeDisjoint index offset = true ∧
          (nodeScore state.nodes mustBeDisjoint index offset).value <
            (nodeScore state.nodes mustBeDisjoint index (nodeAt state.nodes index).offset).value ∧
          moveNode problem mustBeDisjoint state index =
            { state with
              nodes := setOffset state.nodes index offset
              acceptedMoves := state.acceptedMoves + 1
              changed := true }) := by
  obtain ⟨hscore, htried⟩ := @bestMove_spec problem state.nodes mustBeDisjoint index
  unfold moveNode
  dsimp only
  split_ifs with hfixed haccept
  · exact .inl rfl
  · rw [Bool.not_eq_true', Bool.not_eq_false] at hfixed
    rw [Bool.and_eq_true, Score.less_iff, bne_iff_ne, hscore] at haccept
    refine .inr ⟨hfixed, _, htried, ?_, haccept.1, rfl⟩
    obtain hown | hother := List.mem_cons.mp htried
    · exact absurd hown haccept.2
    · exact (List.mem_filter.mp hother).2
  · exact .inl rfl

/-! ### The invariant of the run -/

/-- A placement of the roots that the descent may reach from `start`. -/
structure Reached (problem : DsaProblem) (start place : ℕ → Placement) : Prop where
  ok : ClassesOk problem place
  pools : ∀ root, (place root).pool = (start root).pool
  fixed : ∀ root, anyPinned problem (membersOf problem root) = true → place root = start root

/-- The nodes of a state are those of a placement reached. -/
def Descent.Reached (problem : DsaProblem) (start : ℕ → Placement) (state : Descent) : Prop :=
  ∃ place, ReuseGeometry.Reached problem start place ∧ state.nodes = nodesOf problem place

section run

variable {initial : DsaSolution} {start place : ℕ → Placement}

theorem Reached.move (h : Reached problem start place) (hwf : WellFormed problem) {index : ℕ}
    (hindex : index < (roots problem).length)
    (hmovable : (nodeAt (nodesOf problem place) index).movable = true) {offset : UInt64}
    (hfits : RootFits problem place (rootAt problem index) offset) :
    Reached problem start (moved place (rootAt problem index) offset) := by
  rw [nodeAt_nodesOf hindex] at hmovable
  have hfree : ∀ i ∈ membersOf problem (rootAt problem index),
      pinOf problem (problem.bufferAt i).id = none := fun i hi => movable_classNode hmovable hi
  refine ⟨h.ok.move hwf (rootAt_mem hindex) hfits hfree, fun root => ?_, fun root hpinned => ?_⟩
  · rw [moved_pool, h.pools]
  · have hne : root ≠ rootAt problem index := by
      rintro rfl
      obtain ⟨i, hi, hsome⟩ := List.any_eq_true.mp hpinned
      rw [hfree i hi] at hsome
      cases hsome
    rw [moved_of_ne hne, h.fixed root hpinned]

/-- What one step of the run does. -/
def StepOk (problem : DsaProblem) (before after : Descent) : Prop :=
  (after.acceptedMoves = before.acceptedMoves ∧ after.nodes = before.nodes) ∨
    (after.acceptedMoves = before.acceptedMoves + 1 ∧
      sharing problem after.nodes < sharing problem before.nodes)

/-- What a step keeps. -/
theorem moveNode_reached (hvalid : validateProblem problem = []) (hfit : AlignmentsFit problem)
    {state : Descent} (h : state.Reached problem start) {index : ℕ}
    (hindex : index < (roots problem).length) :
    (moveNode problem (buildMustRemainDisjoint problem (nodesOf problem start)) state
      index).Reached problem start := by
  obtain hsame | ⟨hmovable, offset, -, hfits, -, hmove⟩ :=
    @moveNode_cases problem (buildMustRemainDisjoint problem (nodesOf problem start))
      state index
  · rwa [hsame]
  · obtain ⟨place, hreached, hnodes⟩ := h
    have hwf := WellFormed.of_validateProblem hvalid
    rw [hnodes] at hmovable hfits
    rw [@buildMustRemainDisjoint_nodesOf problem place start] at hfits
    rw [hmove, Descent.Reached, hnodes]
    exact ⟨_, hreached.move hwf hindex hmovable (rootFits_of_fitsAt hwf hfit hindex hfits),
      setOffset_nodesOf hindex hmovable offset⟩

/-- The step lemma. -/
theorem moveNode_stepOk {state : Descent} (h : state.Reached problem start) {index : ℕ}
    (hindex : index < (roots problem).length)
    (hbytes : MoveFits problem state.nodes
      (buildMustRemainDisjoint problem (nodesOf problem start)) index) :
    StepOk problem state (moveNode problem (buildMustRemainDisjoint problem (nodesOf problem start))
      state index) := by
  obtain hsame | ⟨hmovable, offset, htried, hfits, hless, hmove⟩ :=
    @moveNode_cases problem (buildMustRemainDisjoint problem (nodesOf problem start))
      state index
  · rw [hsame]
    exact .inl ⟨rfl, rfl⟩
  · obtain ⟨place, hreached, hnodes⟩ := h
    have hlength : index < state.nodes.length := by rwa [hnodes, length_nodesOf]
    have hnow := hbytes hmovable _ List.mem_cons_self
    have hthen := hbytes hmovable offset htried
    rw [setOffset_self hlength] at hnow
    -- moves keep which nodes must remain disjoint, so the matrix of the start serves for all
    have hmatrix := @buildMustRemainDisjoint_nodesOf problem start place
    rw [← hnodes] at hmatrix
    have hmatrix' : buildMustRemainDisjoint problem state.nodes =
        buildMustRemainDisjoint problem (setOffset state.nodes index offset) := by
      rw [hnodes] at hmovable ⊢
      rw [setOffset_nodesOf hindex hmovable, ← buildMustRemainDisjoint_nodesOf]
    have hlength' : (setOffset state.nodes index offset).length = state.nodes.length :=
      List.length_set
    rw [← hmatrix, nodeScore_value hnow, nodeScore_setOffset hlength, hmatrix',
      nodeScore_value (by rwa [hlength']), hlength'] at hless
    rw [hmove]
    refine .inr ⟨rfl, sharing_lt_of_row_lt hlength hlength' ?_ hless⟩
    intro i j hi hj
    rw [← hmatrix']
    exact indexedScore_setOffset hlength _ _ hi hj

/-! ### The run -/

/-- The states the passes go through, a pass from its start to its end. -/
def runStates (problem : DsaProblem) (mustBeDisjoint : List (List Bool)) :
    ℕ → Descent → List Descent
  | 0, state => [state]
  | passes + 1, state =>
      let next := runPass problem mustBeDisjoint state
      state :: (passOrder state.nodes mustBeDisjoint).scanl (moveNode problem mustBeDisjoint)
          state.nextPass ++
        if next.changed then runStates problem mustBeDisjoint passes next else []

/-- The steps of the passes: a state and the node whose turn it is. -/
def runSteps (problem : DsaProblem) (mustBeDisjoint : List (List Bool)) :
    ℕ → Descent → List (Descent × ℕ)
  | 0, _ => []
  | passes + 1, state =>
      let next := runPass problem mustBeDisjoint state
      let order := passOrder state.nodes mustBeDisjoint
      (order.scanl (moveNode problem mustBeDisjoint) state.nextPass).zip order ++
        if next.changed then runSteps problem mustBeDisjoint passes next else []

theorem head?_runStates (mustBeDisjoint : List (List Bool)) (passes : ℕ) (state : Descent) :
    (runStates problem mustBeDisjoint passes state).head? = some state := by
  cases passes <;> rfl

/-- The last state is the result of the passes. -/
theorem getLast?_runStates (mustBeDisjoint : List (List Bool)) (passes : ℕ) (state : Descent) :
    (runStates problem mustBeDisjoint passes state).getLast? =
      some (runPasses problem mustBeDisjoint passes state) := by
  induction passes generalizing state with
  | zero => rfl
  | succ passes ih =>
      unfold runStates runPasses
      dsimp only
      by_cases hchanged : (runPass problem mustBeDisjoint state).changed = true
      · rw [if_pos hchanged, if_pos hchanged, List.getLast?_append, ih]
        rfl
      · rw [if_neg hchanged, if_neg hchanged, List.append_nil, List.getLast?_cons,
          List.getLast?_scanl]
        rfl

theorem mem_passOrder {nodes : List AllocationNode} {mustBeDisjoint : List (List Bool)}
    {index : ℕ} : index ∈ passOrder nodes mustBeDisjoint ↔ index < nodes.length := by
  unfold passOrder
  rw [List.mem_insertionSort, List.mem_range]

/-- The states form a chain when each step relates what it takes to what it gives. -/
theorem isChain_runStates {R : Descent → Descent → Prop} (hrefl : ∀ state, R state state)
    (hnext : ∀ state : Descent, R state state.nextPass) {mustBeDisjoint : List (List Bool)}
    {passes : ℕ} {state : Descent}
    (h : ∀ step ∈ runSteps problem mustBeDisjoint passes state,
      R step.1 (moveNode problem mustBeDisjoint step.1 step.2)) :
    (runStates problem mustBeDisjoint passes state).IsChain R := by
  induction passes generalizing state with
  | zero => exact List.isChain_singleton _
  | succ passes ih =>
      unfold runSteps at h
      dsimp only at h
      rw [List.forall_mem_append] at h
      have hpass := (Theory.isChain_scanl h.1).cons (x := state) (by
        rw [List.head?_scanl]
        rintro _ ⟨⟩
        exact hnext state)
      unfold runStates
      dsimp only
      by_cases hchanged : (runPass problem mustBeDisjoint state).changed = true
      · rw [if_pos hchanged] at h ⊢
        refine List.isChain_append.mpr ⟨hpass, ih h.2, ?_⟩
        rw [head?_runStates, List.getLast?_cons, List.getLast?_scanl]
        rintro _ ⟨⟩ _ ⟨⟩
        exact hrefl _
      · rw [if_neg hchanged, List.append_nil]
        exact hpass

/-- The run lemma: every step starts in a state reached, and the passes end in one. -/
theorem runSteps_reached (hvalid : validateProblem problem = []) (hfit : AlignmentsFit problem)
    (passes : ℕ) {state : Descent} (h : state.Reached problem start) :
    (∀ step ∈ runSteps problem (buildMustRemainDisjoint problem (nodesOf problem start)) passes
        state, step.1.Reached problem start ∧ step.2 < (roots problem).length) ∧
      (runPasses problem (buildMustRemainDisjoint problem (nodesOf problem start)) passes
        state).Reached problem start := by
  induction passes generalizing state with
  | zero => exact ⟨fun step hstep => absurd hstep List.not_mem_nil, h⟩
  | succ passes ih =>
      have hindex : ∀ index ∈ passOrder state.nodes
          (buildMustRemainDisjoint problem (nodesOf problem start)),
          index < (roots problem).length := by
        intro index hmem
        obtain ⟨place, -, hnodes⟩ := h
        rwa [mem_passOrder, hnodes, length_nodesOf] at hmem
      have hscan := Theory.forall_mem_scanl (P := Descent.Reached problem start)
        (fun current hcurrent index hmem =>
          moveNode_reached hvalid hfit hcurrent (hindex index hmem))
        (show Descent.Reached problem start state.nextPass from h)
      have hend := hscan _ (List.mem_of_getLast? List.getLast?_scanl)
      have hpass : ∀ step ∈ ((passOrder state.nodes _).scanl (moveNode problem _)
          state.nextPass).zip (passOrder state.nodes _),
          step.1.Reached problem start ∧ step.2 < (roots problem).length :=
        fun step hstep => ⟨hscan _ (List.of_mem_zip hstep).1, hindex _ (List.of_mem_zip hstep).2⟩
      unfold runSteps runPasses
      dsimp only
      rw [List.forall_mem_append]
      by_cases hchanged : (runPass problem (buildMustRemainDisjoint problem
        (nodesOf problem start)) state).changed = true
      · rw [if_pos hchanged, if_pos hchanged]
        obtain ⟨hrest, hlast⟩ := ih hend
        exact ⟨⟨hpass, hrest⟩, hlast⟩
      · rw [if_neg hchanged, if_neg hchanged]
        exact ⟨⟨hpass, fun step hstep => absurd hstep List.not_mem_nil⟩, hend⟩

end run

/-! ### When the bytes fit -/

section bound

variable {start place : ℕ → Placement}

/-- The whole class of a valid placement lies below the top of the address space. -/
theorem ClassesOk.room (hok : ClassesOk problem place) {root : ℕ} (hroot : root ∈ roots problem) :
    (place root).offset.toNat + (allocationExtent problem root).toNat < 2 ^ 64 := by
  obtain ⟨hlt, hfix⟩ := of_mem_roots hroot
  obtain ⟨-, hmem⟩ := extentsUpTo_spec root problem.buffers.length le_rfl
  have hfix' : (colocationSets problem).root root = root := hfix
  rw [allocationExtent_eq_getD hlt, hfix']
  obtain hzero | ⟨i, hi, hiroot, heq⟩ := hmem
  · rw [hzero, UInt64.toNat_zero, Nat.add_zero]
    exact UInt64.toNat_lt _
  · have hplaced := (hok.placed i hi).noOverflow
    have hiroot : rootOf problem i = root := hiroot
    rw [hiroot, Theory.addOverflows_eq_false_iff] at hplaced
    rwa [heq]

theorem overlapBytes_le {a s b t : UInt64} (ha : a.toNat + s.toNat < 2 ^ 64)
    (hb : b.toNat + t.toNat < 2 ^ 64) : (overlapBytes a s b t).toNat ≤ s.toNat := by
  unfold overlapBytes
  split_ifs with hover
  · exact Nat.zero_le _
  · rw [Bool.not_eq_true', Bool.not_eq_false] at hover
    have hends : max a.toNat b.toNat ≤ min (a.toNat + s.toNat) (b.toNat + t.toNat) := by
      unfold addressRangesOverlap at hover
      split_ifs at hover with hempty hwrap
      · rw [Bool.or_eq_true, Theory.addOverflows_iff, Theory.addOverflows_iff] at hwrap
        omega
      · rw [Bool.and_eq_true, decide_eq_true_eq, decide_eq_true_eq, UInt64.lt_iff_toNat_lt,
          UInt64.lt_iff_toNat_lt, Theory.toNat_add_of_lt ha, Theory.toNat_add_of_lt hb] at hover
        omega
    have hmax : (max a b).toNat = max a.toNat b.toNat := Theory.toNat_max a b
    have hmin : (min (a + s) (b + t)).toNat = min (a.toNat + s.toNat) (b.toNat + t.toNat) := by
      rw [Theory.toNat_min, Theory.toNat_add_of_lt ha, Theory.toNat_add_of_lt hb]
    rw [UInt64.toNat_sub_of_le _ _ (UInt64.le_iff_toNat_le.mpr (by rwa [hmax, hmin])), hmax, hmin]
    omega

theorem bytesBetween_le (hok : ClassesOk problem place) {i j : ℕ}
    (hi : i < (roots problem).length) (hj : j < (roots problem).length) :
    bytesBetween problem (nodesOf problem place) i j ≤
      (allocationExtent problem (rootAt problem i)).toNat := by
  unfold bytesBetween indexedScore pairScore
  split_ifs with hapart
  · exact Nat.zero_le _
  · rw [nodeAt_nodesOf hi, nodeAt_nodesOf hj]
    show (overlapBytes _ (largestSize problem _) _ (largestSize problem _)).toNat ≤ _
    rw [largestSize_membersOf (rootAt_mem hi), largestSize_membersOf (rootAt_mem hj)]
    exact overlapBytes_le (hok.room (rootAt_mem hi)) (hok.room (rootAt_mem hj))

/-- The bytes that the given placement shares fit a word. -/
def InitialFits (problem : DsaProblem) (initial : DsaSolution) : Prop :=
  ∀ nodes, buildNodes problem initial = .ok nodes → sharedBytes problem nodes < 2 ^ 64

/-- In every step of the run the sums that are compared fit a word. -/
def StepsFit (problem : DsaProblem) (initial : DsaSolution) (maxPasses : ℕ) : Prop :=
  ∀ nodes, buildNodes problem initial = .ok nodes →
    ∀ step ∈ runSteps problem (buildMustRemainDisjoint problem nodes) maxPasses { nodes },
      MoveFits problem step.1.nodes (buildMustRemainDisjoint problem nodes) step.2

/-- The extents, each counted once for every later class. -/
def extentSum (problem : DsaProblem) : ℕ :=
  pairSum (roots problem).length fun i _ => (allocationExtent problem (rootAt problem i)).toNat

theorem sharedBytes_le (hok : ClassesOk problem place) :
    sharedBytes problem (nodesOf problem place) ≤ extentSum problem := by
  unfold sharedBytes extentSum
  rw [length_nodesOf]
  refine Finset.sum_le_sum fun i hi => Finset.sum_le_sum fun j hj => ?_
  rw [Finset.mem_range] at hi
  rw [Finset.mem_Ico] at hj
  exact bytesBetween_le hok hi hj.2

/-- What a node shares in a placement reached is part of what the placement shares. -/
theorem rowSum_lt_of_extents (hext : extentSum problem < 2 ^ 64) (hok : ClassesOk problem place)
    {index : ℕ} (hindex : index < (roots problem).length) :
    rowSum (roots problem).length (bytesBetween problem (nodesOf problem place)) index < 2 ^ 64 := by
  have hrow := Theory.rowSum_le_pairSum hindex (@bytesBetween_comm problem (nodesOf problem place))
  have hle := sharedBytes_le hok
  unfold sharedBytes at hle
  rw [length_nodesOf] at hle
  omega

/-- Enough for one step: the extents fit a word. -/
theorem moveFits_of_extents (hvalid : validateProblem problem = []) (hfit : AlignmentsFit problem)
    (hext : extentSum problem < 2 ^ 64) {state : Descent} (h : state.Reached problem start)
    {index : ℕ} (hindex : index < (roots problem).length) :
    MoveFits problem state.nodes (buildMustRemainDisjoint problem (nodesOf problem start))
      index := by
  intro hmovable offset htried
  obtain ⟨place, hreached, hnodes⟩ := h
  have hwf := WellFormed.of_validateProblem hvalid
  rw [hnodes] at hmovable htried ⊢
  rw [@buildMustRemainDisjoint_nodesOf problem place start] at htried
  rw [length_nodesOf]
  obtain rfl | hcandidate := List.mem_cons.mp htried
  · rw [setOffset_self (by rwa [length_nodesOf])]
    exact rowSum_lt_of_extents hext hreached.ok hindex
  · have hfits := (List.mem_filter.mp hcandidate).2
    rw [setOffset_nodesOf hindex hmovable]
    exact rowSum_lt_of_extents hext
      (hreached.move hwf hindex hmovable (rootFits_of_fitsAt hwf hfit hindex hfits)).ok hindex

/-- Enough for a run, whatever its initial placement: the extents fit a word. -/
theorem stepsFit_of_extents {initial : DsaSolution}
    (hvalid : validateSolution problem initial = []) (hfit : AlignmentsFit problem)
    (hext : extentSum problem < 2 ^ 64) (maxPasses : ℕ) :
    InitialFits problem initial ∧ StepsFit problem initial maxPasses := by
  obtain ⟨hproblem, hsolution⟩ := (validateSolution_eq_nil_iff problem initial).mp hvalid
  obtain ⟨start, hstart⟩ := SolutionOk.exists_placedBy hsolution
  have hok := (validateSolution_iff_classesOk hproblem hstart).mp hvalid
  have hbuild := buildNodes_eq (.of_validateProblem hproblem) hstart hok hfit
  have hreached : Descent.Reached problem start { nodes := nodesOf problem start } :=
    ⟨start, ⟨hok, fun _ => rfl, fun _ _ => rfl⟩, rfl⟩
  unfold InitialFits StepsFit
  rw [hbuild]
  constructor
  · rintro _ ⟨⟩
    exact lt_of_le_of_lt (sharedBytes_le hok) hext
  · rintro _ ⟨⟩ step hstep
    obtain ⟨hstate, hindex⟩ := (runSteps_reached hproblem hfit maxPasses hreached).1 step hstep
    exact moveFits_of_extents hproblem hfit hext hstate hindex

end bound

/-! ### The whole descent -/

/-- The numbers of the statistics, ordered lexicographically. -/
def ReuseGeometryStats.value (stats : ReuseGeometryStats) : ℕ ×ₗ ℕ :=
  toLex (stats.pairCount.toNat, stats.overlapBytes.toNat)

/-- What the descent promises of its result. -/
structure SparseReferenceOk (problem : DsaProblem) (initial : DsaSolution) (maxPasses : ℕ)
    (result : SparseReferenceResult) : Prop where
  valid : validateSolution problem result.solution = []
  pools : ∀ id, (result.solution.find id).map Placement.pool =
    (initial.find id).map Placement.pool
  pinned : ∀ pinned ∈ problem.pinnedAllocations, ∀ id, SameClass problem pinned.buffer id →
    result.solution.find id = initial.find id
  moves : ∃ nodes, buildNodes problem initial = .ok nodes ∧
    (runStates problem (buildMustRemainDisjoint problem nodes) maxPasses { nodes }).IsChain
        (StepOk problem) ∧
      ∃ last, (runStates problem (buildMustRemainDisjoint problem nodes) maxPasses
          { nodes }).getLast? = some last ∧
        result.acceptedMoves = last.acceptedMoves ∧
          result.solution = nodesToSolution problem last.nodes ∧
            result.final.pairCount.toNat = sharingPairs problem last.nodes
  initialStats : evaluateReuseGeometry problem initial = .ok result.initial
  finalStats : evaluateReuseGeometry problem result.solution = .ok result.final
  le : result.final.value ≤ result.initial.value

theorem sharing_le_of_chain {states : List Descent} (h : states.IsChain (StepOk problem))
    {first last : Descent} (hfirst : states.head? = some first)
    (hlast : states.getLast? = some last) :
    sharing problem last.nodes ≤ sharing problem first.nodes := by
  induction states generalizing first with
  | nil => cases hfirst
  | cons state rest ih =>
      obtain rfl : state = first := Option.some.inj hfirst
      cases rest with
      | nil =>
          obtain rfl : state = last := Option.some.inj hlast
          exact le_rfl
      | cons next rest =>
          obtain ⟨hstep, hrest⟩ := List.isChain_cons_cons.mp h
          have hle := ih hrest rfl (by rwa [List.getLast?_cons_cons] at hlast)
          obtain ⟨-, hsame⟩ | ⟨-, hless⟩ := hstep
          · rwa [hsame] at hle
          · exact hle.trans hless.le

/-- A buffer in the class of a pin has the root of the pin. -/
theorem anyPinned_of_sameClass (hwf : WellFormed problem) {pinned : PinnedAllocation}
    (hmem : pinned ∈ problem.pinnedAllocations) {i : ℕ} (hi : i < problem.buffers.length)
    (h : SameClass problem pinned.buffer (problem.bufferAt i).id) :
    anyPinned problem (membersOf problem (rootOf problem i)) = true := by
  obtain ⟨buffer, hfind, -⟩ := hwf.pinned pinned hmem
  have hsome : (problem.findBuffer pinned.buffer).isSome := by
    rw [hfind]
    rfl
  obtain ⟨j, hj, hid⟩ := findBuffer_isSome_iff.mp hsome
  rw [← hid] at h
  have hroot := (root_eq_iff_sameClass hwf hj hi).mpr h
  unfold anyPinned
  rw [List.any_eq_true]
  refine ⟨j, mem_membersOf.mpr ⟨hj, hroot⟩, ?_⟩
  rw [hid, pinOf, List.find?_isSome]
  exact ⟨pinned, hmem, by simp⟩

theorem evaluateReuseGeometry_eq {solution : DsaSolution} {place : ℕ → Placement}
    (hvalid : validateProblem problem = []) (hfit : AlignmentsFit problem)
    (hplaced : PlacedBy problem solution place) (hok : ClassesOk problem place) :
    evaluateReuseGeometry problem solution = .ok (statsOf (totalScore (nodesOf problem place)
      (buildMustRemainDisjoint problem (nodesOf problem place)))) := by
  unfold evaluateReuseGeometry
  rw [(validateSolution_iff_classesOk hvalid hplaced).mpr hok]
  dsimp only
  rw [buildNodes_eq (.of_validateProblem hvalid) hplaced hok hfit, Theory.ok_bind]
  rfl

/-- **The sparse reference is a sound descent.**  When the bytes of the given placement fit a word
and so do the sums that the steps compare, every accepted move makes the whole placement share
strictly less. -/
theorem sparseReference_descends {initial : DsaSolution}
    (hvalid : validateSolution problem initial = []) (hfit : AlignmentsFit problem)
    (hinitial : InitialFits problem initial) (maxPasses : ℕ)
    (hsteps : StepsFit problem initial maxPasses) :
    ∃ result, buildSparseReferencePlacement problem initial maxPasses = .ok result ∧
      SparseReferenceOk problem initial maxPasses result := by
  obtain ⟨hproblem, hsolution⟩ := (validateSolution_eq_nil_iff problem initial).mp hvalid
  have hwf := WellFormed.of_validateProblem hproblem
  obtain ⟨start, hstart⟩ := SolutionOk.exists_placedBy hsolution
  have hok := (validateSolution_iff_classesOk hproblem hstart).mp hvalid
  have hbuild := buildNodes_eq hwf hstart hok hfit
  have hreached : Descent.Reached problem start { nodes := nodesOf problem start } :=
    ⟨start, ⟨hok, fun _ => rfl, fun _ _ => rfl⟩, rfl⟩
  obtain ⟨hstates, place, hlast, hnodes⟩ := runSteps_reached hproblem hfit maxPasses hreached
  have hchain := isChain_runStates (fun _ => .inl ⟨rfl, rfl⟩) (fun _ => .inl ⟨rfl, rfl⟩)
    fun step hstep => moveNode_stepOk (hstates step hstep).1 (hstates step hstep).2
      (hsteps _ hbuild step hstep)
  generalize hrun : runPasses problem (buildMustRemainDisjoint problem (nodesOf problem start))
    maxPasses { nodes := nodesOf problem start } = last at hnodes
  have hend := @getLast?_runStates problem
    (buildMustRemainDisjoint problem (nodesOf problem start)) maxPasses
    { nodes := nodesOf problem start }
  rw [hrun] at hend
  have hplaced := placedBy_nodesOf hwf place
  have hfinal : validateSolution problem (nodesToSolution problem (nodesOf problem place)) = [] :=
    (validateSolution_iff_classesOk hproblem hplaced).mpr hlast.ok
  have hmatrix := @buildMustRemainDisjoint_nodesOf problem start place
  have hshare := sharing_le_of_chain hchain (head?_runStates _ _ _) hend
  rw [hnodes] at hshare
  obtain ⟨hpairs, hle⟩ := totalScore_le (hinitial _ hbuild) hshare
  refine ⟨⟨nodesToSolution problem last.nodes,
    statsOf (totalScore (nodesOf problem start)
      (buildMustRemainDisjoint problem (nodesOf problem start))),
    statsOf (totalScore last.nodes
      (buildMustRemainDisjoint problem (nodesOf problem start))),
    last.acceptedMoves, last.passes⟩, ?_, ?_⟩
  · unfold buildSparseReferencePlacement
    rw [hvalid]
    dsimp only
    rw [hbuild, Theory.ok_bind, hrun, hnodes, hfinal]
    rfl
  · rw [hnodes, ← hmatrix]
    refine ⟨hfinal, fun id => ?_, fun pinned hmem id hclass => ?_,
      ⟨_, hbuild, hchain, last, hend, rfl, ?_, ?_⟩, ?_, ?_, ?_⟩
    · rw [hplaced, hstart, Option.map_map, Option.map_map]
      exact congrArg (Option.map · (bufferIndices problem id)) (funext fun i => hlast.pools _)
    · rw [hplaced, hstart]
      cases hid : bufferIndices problem id with
      | none => rfl
      | some i =>
          obtain ⟨hi, rfl⟩ := bufferIndices_lt hid
          rw [Option.map_some, Option.map_some,
            hlast.fixed _ (anyPinned_of_sameClass hwf hmem hi hclass)]
    · rw [hnodes]
    · rw [hnodes]
      exact hpairs
    · rw [hmatrix]
      exact evaluateReuseGeometry_eq hproblem hfit hstart hok
    · exact evaluateReuseGeometry_eq hproblem hfit hplaced hlast.ok
    · rw [hmatrix, ← hmatrix] at hle
      exact hle

/-- Two buffers that may share addresses and one alive with both. -/
def compactProblem : DsaProblem where
  buffers := [{ id := 0, size := 10, liveIntervals := [⟨0, 2⟩] },
    { id := 1, size := 10, liveIntervals := [⟨2, 4⟩] },
    { id := 2, size := 10, liveIntervals := [⟨0, 4⟩] }]
  pools := [{ capacity := some 30 }]

/-- The first two buffers at one offset. -/
def compactPlacement : DsaSolution :=
  ⟨.ofList ([(0, {}), (1, {}), (2, { offset := 10 })] : List (BufferId × Placement))⟩

/-- One of them moves above the third. -/
theorem sparseReference_descends_compact :
    ∃ result, buildSparseReferencePlacement compactProblem compactPlacement 8 = .ok result ∧
      SparseReferenceOk compactProblem compactPlacement 8 result ∧ result.acceptedMoves = 1 := by
  have hfit : AlignmentsFit compactProblem := by
    unfold AlignmentsFit
    decide +kernel
  have hvalid : validateSolution compactProblem compactPlacement = [] := by decide +kernel
  obtain ⟨hinitial, hsteps⟩ := stepsFit_of_extents hvalid hfit (by decide +kernel) 8
  obtain ⟨result, hresult, hok⟩ := sparseReference_descends hvalid hfit hinitial 8 hsteps
  have hmoves : (buildSparseReferencePlacement compactProblem compactPlacement 8).map
      SparseReferenceResult.acceptedMoves = .ok 1 := by decide +kernel
  rw [hresult] at hmoves
  exact ⟨result, hresult, hok, Except.ok.inj hmoves⟩

/-- Three buffers of half the address space each, one after the other in time. -/
def wrapProblem : DsaProblem where
  buffers := [{ id := 0, size := 9223372036854775808, liveIntervals := [⟨0, 2⟩] },
    { id := 1, size := 9223372036854775808, liveIntervals := [⟨2, 4⟩] },
    { id := 2, size := 9223372036854775808, liveIntervals := [⟨4, 6⟩] }]
  pools := [{ capacity := some maxU64 }]

/-- The first buffer shares one byte with each of the others. -/
def wrapPlacement : DsaSolution :=
  ⟨.ofList ([(0, { offset := 9223372036854775807 }), (1, {}), (2, {})] :
    List (BufferId × Placement))⟩

def wrapNodes : List AllocationNode :=
  [{ members := [0], offset := 9223372036854775807, size := 9223372036854775808 },
    { members := [1], size := 9223372036854775808 },
    { members := [2], size := 9223372036854775808 }]

/-- At offset 0 the first buffer shares all its bytes with both others, which counts as none. -/
theorem sparseReference_descends_wraps :
    ¬ ∀ (problem : DsaProblem) (initial : DsaSolution) (maxPasses : ℕ),
      validateSolution problem initial = [] → AlignmentsFit problem →
        InitialFits problem initial →
          ∃ result, buildSparseReferencePlacement problem initial maxPasses = .ok result ∧
            SparseReferenceOk problem initial maxPasses result := by
  intro h
  have hbuild : (buildNodes wrapProblem wrapPlacement).toOption = some wrapNodes := by
    decide +kernel
  have hinitial : InitialFits wrapProblem wrapPlacement := by
    intro nodes hnodes
    rw [hnodes] at hbuild
    rw [Option.some.inj hbuild]
    decide +kernel
  obtain ⟨result, -, hok⟩ := h wrapProblem wrapPlacement 1 (by decide +kernel)
    (by unfold AlignmentsFit; decide +kernel) hinitial
  obtain ⟨nodes, hnodes, hchain, last, hlast, -⟩ := hok.moves
  rw [hnodes] at hbuild
  obtain rfl := Option.some.inj hbuild
  have hless := sharing_le_of_chain hchain (head?_runStates _ _ _) hlast
  have hgrows : (runStates wrapProblem (buildMustRemainDisjoint wrapProblem wrapNodes) 1
      { nodes := wrapNodes }).getLast?.map (fun state => (sharingPairs wrapProblem state.nodes,
        sharedBytes wrapProblem state.nodes)) = some (3, 3 * 2 ^ 63) := by decide +kernel
  rw [hlast, Option.map_some, Option.some.injEq, Prod.mk.injEq] at hgrows
  have hbefore : (sharingPairs wrapProblem wrapNodes, sharedBytes wrapProblem wrapNodes) =
      (3, 2 ^ 63 + 2) := by decide +kernel
  unfold sharing at hless
  rw [hgrows.1, hgrows.2, hbefore] at hless
  revert hless
  decide

end ReuseGeometry

end Dsa
