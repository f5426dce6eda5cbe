import DsaSolver.PoolPlacements

/-! # Exactness of the canonical search

The offsets a call has placed satisfy every constraint of the pool (`CallOk`), so what the
search keeps is a placement with its score (`StateOk`).  A settled placement, read in the order of
its offsets, is a path of the search tree (`Follows`), and the bound only cuts it when something
at most as dear was found (`searchFrom_covers`). -/

namespace Dsa

namespace PoolCanonicalSearch

open Theory (Sat Incumbent Grows)

variable {problem : DsaProblem} {pool : PoolId} {options : CanonicalExactSearchOptions}

/-! ### The calls -/

/-- The arguments of a call: what is placed fits, and its cost and peak are known. -/
structure CallOk (problem : DsaProblem) (pool : PoolId) (placed : List Bool)
    (offsets : List UInt64) (cost peak : UInt64) : Prop where
  placedLength : placed.length = problem.search.count
  offsetsLength : offsets.length = problem.search.count
  inPool : ∀ n, placed.getD n false = true → n ∈ poolNodes problem.search pool
  aligned : ∀ n, placed.getD n false = true →
    (problem.search.nodeAt n).alignment.toNat ∣ positions offsets n
  room : ∀ n, placed.getD n false = true → NodeRoom problem n (positions offsets n)
  apart : ∀ n m, placed.getD n false = true → placed.getD m false = true →
    NodesConflict problem n m → NodesApart problem (positions offsets) n m
  cost : (⟨cost⟩ : Sat) =
    partialCost problem (fun n => placed.getD n false) (positions offsets)
  peak : ∀ bound, peak ≤ bound ↔ reservedPeak problem pool ≤ bound ∧
    ∀ n, placed.getD n false = true →
      offsets.getD n 0 + (problem.search.nodeAt n).size ≤ bound

theorem mem_branches {placed : List Bool} {offsets : List UInt64}
    {last : Option (UInt64 × BufferId)} {branch : Branch} :
    branch ∈ branches problem problem.search pool placed offsets last ↔
      ∃ n offset, n ∈ poolNodes problem.search pool ∧ placed.getD n false = false ∧
        offset ∈ (canonicalOffsetsForNode problem problem.search placed offsets n true).toList ∧
        notAfter last offset (problem.search.nodeAt n).representative = false ∧
        fitsReuseNodeAt problem problem.search placed offsets n offset = true ∧
        branch = ⟨incrementalReuseCost problem.search placed offsets n offset, offset,
          (problem.search.nodeAt n).representative, n⟩ := by
  unfold branches branchesOf
  rw [List.mem_insertionSort, List.mem_flatMap]
  simp only [List.mem_filter, List.mem_filterMap, Bool.not_eq_true']
  constructor
  · rintro ⟨n, ⟨hn, hfree⟩, offset, hoffset, hbranch⟩
    split_ifs at hbranch with hafter hfits
    refine ⟨n, offset, hn, hfree, hoffset, Bool.not_eq_true _ ▸ hafter, ?_, ?_⟩
    · exact Bool.not_eq_false _ ▸ hfits
    · exact (Option.some.inj hbranch).symm
  · rintro ⟨n, offset, hn, hfree, hoffset, hafter, hfits, rfl⟩
    refine ⟨n, ⟨hn, hfree⟩, offset, hoffset, ?_⟩
    rw [if_neg (by rw [hafter]; exact Bool.false_ne_true), if_neg (by rw [hfits]; simp)]

theorem positions_set {offsets : List UInt64} {n : ℕ} (hn : n < offsets.length) (offset : UInt64)
    (m : ℕ) : positions (offsets.set n offset) m =
      if n = m then offset.toNat else positions offsets m := by
  unfold positions
  rw [getD_set hn]
  split_ifs <;> rfl

/-- Placing one more node. -/
theorem CallOk.step (h : SearchOk problem) {placed : List Bool} {offsets : List UInt64}
    {cost peak : UInt64} (hcall : CallOk problem pool placed offsets cost peak)
    {last : Option (UInt64 × BufferId)} {branch : Branch}
    (hbranch : branch ∈ branches problem problem.search pool placed offsets last) :
    CallOk problem pool (placed.set branch.node true) (offsets.set branch.node branch.offset)
      (saturatingAdd cost branch.incrementalCost)
      (max peak (branch.offset + (problem.search.nodeAt branch.node).size)) := by
  obtain ⟨n, offset, hn, hfree, hoffset, -, hfits, rfl⟩ := mem_branches.mp hbranch
  have hcount := lt_of_mem_poolNodes hn
  have hrep : ∀ m < problem.search.count, placed.getD m false = true →
      positions offsets m + nodeSize problem m < 2 ^ 64 := fun m _ hm => (hcall.room m hm).lt
  obtain ⟨hroom, hclear⟩ := (fitsReuseNodeAt_iff h hcount offset hrep).mp hfits
  have hplaced : ∀ m, (placed.set n true).getD m false = (m == n || placed.getD m false) :=
    getD_set_true (by rwa [hcall.placedLength])
  have hnode : positions (offsets.set n offset) n = offset.toNat := by
    rw [positions_set (by rwa [hcall.offsetsLength]), if_pos rfl]
  have hother : ∀ m, placed.getD m false = true →
      positions (offsets.set n offset) m = positions offsets m := by
    intro m hm
    rw [positions_set (by rwa [hcall.offsetsLength]), if_neg]
    rintro rfl
    rw [hfree] at hm
    cases hm
  -- the old nodes and the new one
  have hcases : ∀ {p : ℕ → Prop}, p n → (∀ m, placed.getD m false = true → p m) →
      ∀ m, (placed.set n true).getD m false = true → p m := by
    intro p hnew hold m hm
    rw [hplaced, Bool.or_eq_true, beq_iff_eq] at hm
    rcases hm with rfl | hm
    · exact hnew
    · exact hold m hm
  constructor
  · rw [List.length_set]
    exact hcall.placedLength
  · rw [List.length_set]
    exact hcall.offsetsLength
  · exact hcases hn hcall.inPool
  · refine hcases ?_ fun m hm => ?_
    · obtain ⟨value, -, heq⟩ := mem_canonicalOffsetsForNode.mp hoffset
      rw [hnode, heq]
      exact Theory.dvd_alignUp (h.alignment_pos hcount) _
    · rw [hother m hm]
      exact hcall.aligned m hm
  · refine hcases ?_ fun m hm => ?_
    · rw [hnode]
      exact hroom
    · rw [hother m hm]
      exact hcall.room m hm
  · have hnew : ∀ m, placed.getD m false = true → NodesConflict problem n m →
        NodesApart problem (positions (offsets.set n offset)) n m := by
      intro m hm hc
      unfold NodesApart
      rw [hnode, hother m hm]
      exact hclear m (lt_of_mem_poolNodes (hcall.inPool m hm)) hm hc
    refine fun k m hk => hcases (p := fun m => NodesConflict problem k m →
      NodesApart problem (positions (offsets.set n offset)) k m) ?_ ?_ m
    · revert k
      refine hcases (fun hc => absurd rfl hc.ne) fun k hk hc => ?_
      exact nodesApart_comm.mp (hnew k hk hc.symm)
    · intro m hm
      revert k
      refine hcases (hnew m hm) fun k hk hc => ?_
      unfold NodesApart
      rw [hother k hk, hother m hm]
      exact hcall.apart k m hk hm hc
  · have hstep := partialCost_step h hcount hnode (fun m _ hm => hother m hm) hfree hroom.lt hrep
    have hsame : partialCost problem (fun m => placed.getD m false)
        (positions (offsets.set n offset)) =
          partialCost problem (fun m => placed.getD m false) (positions offsets) :=
      partialCost_congr h (fun _ _ => rfl) fun m _ hm => hother m hm
    rw [hsame, ← hcall.cost] at hstep
    simp only [hplaced]
    rw [hstep]
    rfl
  · intro bound
    have hnodeD : (offsets.set n offset).getD n 0 = offset := by
      rw [getD_set (by rwa [hcall.offsetsLength]), if_pos rfl]
    have hotherD : ∀ m, placed.getD m false = true →
        (offsets.set n offset).getD m 0 = offsets.getD m 0 := fun m hm =>
      UInt64.toNat_inj.mp (hother m hm)
    rw [max_le_iff, hcall.peak, and_assoc]
    apply and_congr_right
    intro _
    constructor
    · rintro ⟨hold, hnew⟩
      refine hcases ?_ fun m hm => ?_
      · rw [hnodeD]
        exact hnew
      · rw [hotherD m hm]
        exact hold m hm
    · intro hall
      refine ⟨fun m hm => ?_, ?_⟩
      · have := hall m (by rw [hplaced, hm, Bool.or_true])
        rwa [hotherD m hm] at this
      · have := hall n (by rw [hplaced, beq_self_eq_true, Bool.true_or])
        rwa [hnodeD] at this

theorem getD_replicate_false (count n : ℕ) : (List.replicate count false).getD n false = false := by
  rw [List.getD_eq_getElem?_getD, List.getElem?_replicate]
  split_ifs <;> rfl

/-- The first call. -/
theorem callOk_initial (problem : DsaProblem) (pool : PoolId) :
    CallOk problem pool (List.replicate problem.search.count false)
      (List.replicate problem.search.count 0) 0 (reservedPeak problem pool) where
  placedLength := List.length_replicate
  offsetsLength := List.length_replicate
  inPool n hn := by
    rw [getD_replicate_false] at hn
    cases hn
  aligned n hn := by
    rw [getD_replicate_false] at hn
    cases hn
  room n hn := by
    rw [getD_replicate_false] at hn
    cases hn
  apart n m hn := by
    rw [getD_replicate_false] at hn
    cases hn
  cost := by
    simp only [getD_replicate_false]
    exact partialCost_none.symm
  peak bound := by
    simp

/-! ### Complete placements -/

section leaf

variable {placed : List Bool} {offsets : List UInt64} {cost peak : UInt64}

/-- The nodes that wait. -/
def waiting (problem : DsaProblem) (pool : PoolId) (placed : List Bool) : List ℕ :=
  (poolNodes problem.search pool).filter fun n => !placed.getD n false

theorem placed_of_waiting (hnone : (waiting problem pool placed).length = 0) {n : ℕ}
    (hn : n ∈ poolNodes problem.search pool) : placed.getD n false = true := by
  by_contra hfree
  have hmem : n ∈ waiting problem pool placed := by
    rw [waiting, List.mem_filter]
    exact ⟨hn, by simpa using hfree⟩
  rw [List.length_eq_zero_iff.mp hnone] at hmem
  cases hmem

theorem length_waiting_set {n : ℕ} (hn : n ∈ poolNodes problem.search pool)
    (hlt : n < placed.length) (hfree : placed.getD n false = false) :
    (waiting problem pool (placed.set n true)).length + 1 =
      (waiting problem pool placed).length := by
  have hmem : n ∈ waiting problem pool placed := by
    rw [waiting, List.mem_filter, hfree]
    exact ⟨hn, rfl⟩
  have herase : waiting problem pool (placed.set n true) =
      (waiting problem pool placed).erase n := by
    have hnodup : (waiting problem pool placed).Nodup := (nodup_poolNodes _).filter _
    rw [hnodup.erase_eq_filter]
    unfold waiting
    rw [List.filter_filter]
    apply List.filter_congr
    intro m _
    rw [getD_set_true hlt, Bool.not_or, bne]
  rw [herase, List.length_erase_of_mem hmem]
  have := List.length_pos_of_mem hmem
  omega

theorem CallOk.complete (hcall : CallOk problem pool placed offsets cost peak)
    (hnone : (waiting problem pool placed).length = 0) :
    Placed problem pool (positions offsets) where
  room n hn := hcall.room n (placed_of_waiting hnone hn)
  apart n hn m hm := hcall.apart n m (placed_of_waiting hnone hn) (placed_of_waiting hnone hm)

theorem CallOk.score_eq (h : SearchOk problem)
    (hcall : CallOk problem pool placed offsets cost peak)
    (hnone : (waiting problem pool placed).length = 0) :
    poolScore problem cost peak = score problem pool offsets := by
  have hiff : ∀ n, placed.getD n false = true ↔ n ∈ poolNodes problem.search pool :=
    fun n => ⟨hcall.inPool n, placed_of_waiting hnone⟩
  have hcost : (⟨cost⟩ : Sat) = ⟨poolReuseCost problem.search pool offsets⟩ := by
    rw [hcall.cost, poolReuseCost_eq h (hcall.complete hnone)]
    refine partialCost_congr h (fun n _ => ?_) fun _ _ _ => rfl
    rw [Bool.eq_iff_iff, decide_eq_true_iff]
    exact hiff n
  have hpeak : peak = peakOf problem problem.search pool offsets := by
    apply eq_of_forall_ge_iff
    intro bound
    rw [hcall.peak, peakOf_le_iff]
    simp only [hiff]
  rw [score, ← hpeak, show cost = _ from congrArg Sat.val hcost]

end leaf

/-! ### The head of a call -/

/-- The ends of `enter`. -/
inductive Entered (problem : DsaProblem) (options : CanonicalExactSearchOptions)
    (cost peak : UInt64) (body : State → State) (state : State) : State → Prop
  | done (stop : state.done options = true) : Entered problem options cost peak body state state
  | limit (limited : options.nodeLimit ≠ 0) :
      Entered problem options cost peak body state { state with limitHit := true }
  | pruned (found : state.found = true) (bound : state.bestScore ≤ poolScore problem cost peak) :
      Entered problem options cost peak body state
        { state with searchNodes := state.searchNodes + 1, boundPrunes := state.boundPrunes + 1 }
  | counted
      (better : state.found = true → poolScore problem cost peak ≤ state.bestScore) :
      Entered problem options cost peak body state
        (body { state with searchNodes := state.searchNodes + 1 })

theorem enter_spec (cost peak : UInt64) (body : State → State) (state : State) :
    Entered problem options cost peak body state (enter problem options cost peak body state) := by
  unfold enter
  by_cases hdone : state.done options = true
  · rw [if_pos hdone]
    exact .done hdone
  rw [if_neg hdone]
  by_cases hlimit :
      (options.nodeLimit != 0 && decide (options.nodeLimit ≤ state.searchNodes)) = true
  · rw [if_pos hlimit]
    rw [Bool.and_eq_true, bne_iff_ne] at hlimit
    exact .limit hlimit.1
  rw [if_neg hlimit]
  dsimp only
  by_cases hprune : (state.found && !decide (poolScore problem cost peak < state.bestScore)) = true
  · rw [if_pos hprune]
    rw [Bool.and_eq_true, Bool.not_eq_true', decide_eq_false_iff_not, not_lt] at hprune
    exact .pruned hprune.1 hprune.2
  · rw [if_neg hprune]
    refine .counted fun hfound => ?_
    rw [hfound, Bool.true_and, Bool.not_eq_true', decide_eq_false_iff_not, not_not] at hprune
    exact hprune.le

/-! ### What the search keeps -/

/-- The best placement and its score; only the caller's incumbent may be unaligned. -/
structure Kept (problem : DsaProblem) (pool : PoolId) (options : CanonicalExactSearchOptions)
    (offsets : List UInt64) (best : Score) : Prop where
  length : offsets.length = problem.search.count
  placed : Placed problem pool (positions offsets)
  aligned : Aligned problem pool (positions offsets) ∨
    options.stopAfterFirst = false ∧ options.incumbentOffsets = some offsets
  score : best = PoolCanonicalSearch.score problem pool offsets

def StateOk (problem : DsaProblem) (pool : PoolId) (options : CanonicalExactSearchOptions)
    (state : State) : Prop :=
  state.found = true → Kept problem pool options state.bestOffsets state.bestScore

theorem stateOk_initial (h : SearchOk problem) :
    StateOk problem pool options (initialState problem problem.search pool options) := by
  unfold initialState
  dsimp only
  split
  · exact fun hfound => absurd hfound Bool.false_ne_true
  · next incumbent hincumbent =>
      split_ifs with hvalid
      · intro _
        rw [Bool.and_eq_true, Bool.and_eq_true, Bool.not_eq_true', beq_iff_eq] at hvalid
        obtain ⟨⟨hstop, hlength⟩, hfits⟩ := hvalid
        obtain ⟨hroom, hapart⟩ := (fitsInOrder_iff h (poolNodes problem.search pool) _
          List.length_replicate (fun n hn => lt_of_mem_poolNodes hn) (fun m _ hm => by
            rw [getD_replicate_false] at hm
            cases hm)).mp hfits
        refine ⟨hlength, ⟨hroom, fun n hn m hm => ?_⟩, .inr ⟨hstop, hincumbent⟩, rfl⟩
        exact hapart n hn m (lt_of_mem_poolNodes hm) (.inr hm)
      · exact fun hfound => absurd hfound Bool.false_ne_true

/-- Every call keeps what it was given or a placement of its own. -/
theorem searchFrom_ok (h : SearchOk problem) (remaining : ℕ) (placed : List Bool)
    (offsets : List UInt64) (cost peak : UInt64) (last : Option (UInt64 × BufferId))
    (state : State) (hcall : CallOk problem pool placed offsets cost peak)
    (hwaiting : (waiting problem pool placed).length = remaining)
    (hstate : StateOk problem pool options state) :
    StateOk problem pool options
      (searchFrom problem problem.search pool options remaining placed offsets cost peak last
        state) := by
  induction remaining generalizing placed offsets cost peak last state with
  | zero =>
      unfold searchFrom
      have hend := @enter_spec problem options cost peak (fun state : State =>
        { state with
          found := true
          bestScore := poolScore problem cost peak
          bestOffsets := offsets }) state
      generalize enter problem options cost peak _ state = result at hend
      cases hend with
      | done => exact hstate
      | limit => exact hstate
      | pruned => exact hstate
      | counted =>
          intro _
          refine ⟨hcall.offsetsLength, hcall.complete hwaiting, .inl fun n hn => ?_, ?_⟩
          · exact hcall.aligned n (placed_of_waiting hwaiting hn)
          · exact hcall.score_eq h hwaiting
  | succ remaining ih =>
      unfold searchFrom
      generalize hbody : (fun state : State => List.foldl _ state _) = body
      have hend := @enter_spec problem options cost peak body state
      generalize enter problem options cost peak body state = result at hend
      cases hend with
      | done => exact hstate
      | limit => exact hstate
      | pruned => exact hstate
      | counted =>
          rw [← hbody]
          dsimp only
          apply List.foldlRecOn (motive := fun state => StateOk problem pool options state)
          · exact hstate
          · intro current hcurrent branch hbranch
            by_cases hdone : current.done options = true
            · rw [if_pos hdone]
              exact hcurrent
            · rw [if_neg hdone]
              obtain ⟨n, offset, hn, hfree, -, -, -, rfl⟩ := mem_branches.mp hbranch
              apply ih _ _ _ _ _ _ (hcall.step h hbranch)
              · have hlt : n < placed.length := by
                  rw [hcall.placedLength]
                  exact lt_of_mem_poolNodes hn
                have := length_waiting_set hn hlt hfree
                dsimp only
                omega
              · exact hcurrent

/-! ### Coverage -/

section coverage

/-- What the bound and the limits look at. -/
def view (options : CanonicalExactSearchOptions) (state : State) : Incumbent Score :=
  ⟨state.done options, if state.found then some state.bestScore else none⟩

theorem view_of_found {state : State} (h : state.found = true) :
    (view options state).best = some state.bestScore := if_pos h

theorem found_of_view {state : State} {best : Score}
    (h : (view options state).best = some best) :
    state.found = true ∧ state.bestScore = best := by
  unfold view at h
  dsimp only at h
  split_ifs at h with hfound
  exact ⟨hfound, Option.some.inj h⟩

theorem enter_grows {cost peak : UInt64} {body : State → State} (state : State)
    (hbody : ∀ current : State,
      (current.found = true → poolScore problem cost peak ≤ current.bestScore) →
        Grows (view options current) (view options (body current))) :
    Grows (view options state) (view options (enter problem options cost peak body state)) := by
  have hend := @enter_spec problem options cost peak body state
  generalize enter problem options cost peak body state = result at hend
  cases hend with
  | done => exact Grows.refl _
  | limit => exact ⟨fun _ => rfl, fun best hbest => ⟨best, hbest, le_rfl⟩⟩
  | pruned => exact Grows.refl (view options state)
  | counted better =>
      exact hbody { state with searchNodes := state.searchNodes + 1 } better

theorem enter_covers {cost peak : UInt64} {body : State → State} {target : Score} (state : State)
    (hle : poolScore problem cost peak ≤ target)
    (hbody : ∀ current, Theory.Covers (view options (body current)) target) :
    Theory.Covers (view options (enter problem options cost peak body state)) target := by
  have hend := @enter_spec problem options cost peak body state
  generalize enter problem options cost peak body state = result at hend
  cases hend with
  | done stop => exact .inl stop
  | limit => exact .inl rfl
  | pruned found bound => exact .inr ⟨_, view_of_found found, bound.trans hle⟩
  | counted => exact hbody _

/-- A complete placement is kept. -/
theorem grows_leaf {state : State} {best : Score} {offsets : List UInt64}
    (hbetter : state.found = true → best ≤ state.bestScore) :
    Grows (view options state) (view options
      { state with found := true, bestScore := best, bestOffsets := offsets }) where
  limitHit hdone := by
    have hor : (state.limitHit || (options.stopAfterFirst && state.found)) = true := hdone
    show (state.limitHit || (options.stopAfterFirst && true)) = true
    rw [Bool.or_eq_true, Bool.and_eq_true] at hor ⊢
    exact hor.imp_right fun hstop => ⟨hstop.1, rfl⟩
  best old hold := by
    obtain ⟨hfound, rfl⟩ := found_of_view hold
    exact ⟨best, rfl, hbetter hfound⟩

theorem searchFrom_grows (remaining : ℕ) (placed : List Bool) (offsets : List UInt64)
    (cost peak : UInt64) (last : Option (UInt64 × BufferId)) (state : State) :
    Grows (view options state) (view options
      (searchFrom problem problem.search pool options remaining placed offsets cost peak last
        state)) := by
  induction remaining generalizing placed offsets cost peak last state with
  | zero =>
      unfold searchFrom
      apply enter_grows
      intro current hbetter
      exact grows_leaf hbetter
  | succ remaining ih =>
      unfold searchFrom
      apply enter_grows
      intro current _
      apply Theory.grows_foldl
      intro next branch
      split_ifs with hdone
      · exact Grows.refl _
      · exact ih _ _ _ _ _ { next with candidateBranches := next.candidateBranches + 1 }

/-- The place of a node in the order of the search. -/
def key (problem : DsaProblem) (target : List UInt64) (n : ℕ) : UInt64 ×ₗ BufferId :=
  toLex (target.getD n 0, (problem.search.nodeAt n).representative)

/-- A call that has placed the nodes of the target before `rest`. -/
structure Follows (problem : DsaProblem) (pool : PoolId) (target : List UInt64) (rest : List ℕ)
    (placed : List Bool) (offsets : List UInt64) (last : Option (UInt64 × BufferId)) : Prop where
  agree : ∀ n, placed.getD n false = true → offsets.getD n 0 = target.getD n 0
  inPool : ∀ n ∈ rest, n ∈ poolNodes problem.search pool
  waits : ∀ n ∈ poolNodes problem.search pool, (placed.getD n false = false ↔ n ∈ rest)
  sorted : rest.Pairwise fun n m => key problem target n < key problem target m
  last : ∀ placement, last = some placement → ∀ n ∈ rest, toLex placement < key problem target n

theorem notAfter_eq_false {last : Option (UInt64 × BufferId)} {offset : UInt64} {id : BufferId}
    (h : ∀ placement, last = some placement → toLex placement < toLex (offset, id)) :
    notAfter last offset id = false := by
  cases last with
  | none => rfl
  | some placement =>
      have hlt := Prod.Lex.lt_iff.mp (h placement rfl)
      unfold notAfter
      rw [Bool.or_eq_false_iff, Bool.and_eq_false_imp, decide_eq_false_iff_not, not_lt, beq_iff_eq]
      rcases hlt with hlt | ⟨heq, hlt⟩
      · exact ⟨le_of_lt hlt, fun heq => absurd heq (ne_of_gt hlt)⟩
      · exact ⟨le_of_eq heq, fun _ => decide_eq_false (not_le.mpr hlt)⟩

variable {target : List UInt64}

/-- The next node of a settled placement is one of the branches. -/
theorem Follows.mem_branches (h : SearchOk problem)
    (hplaced : Placed problem pool (positions target))
    (hsettled : Settled h pool (positions target)) {n : ℕ} {rest : List ℕ} {placed : List Bool}
    {offsets : List UInt64} {cost peak : UInt64} {last : Option (UInt64 × BufferId)}
    (hcall : CallOk problem pool placed offsets cost peak)
    (hfollows : Follows problem pool target (n :: rest) placed offsets last) :
    (⟨incrementalReuseCost problem.search placed offsets n (target.getD n 0), target.getD n 0,
      (problem.search.nodeAt n).representative, n⟩ : Branch) ∈
        branches problem problem.search pool placed offsets last := by
  have hn := hfollows.inPool n List.mem_cons_self
  have hcount := lt_of_mem_poolNodes hn
  have hagree : ∀ m, placed.getD m false = true → positions offsets m = positions target m :=
    fun m hm => congrArg UInt64.toNat (hfollows.agree m hm)
  refine PoolCanonicalSearch.mem_branches.mpr ⟨n, target.getD n 0, hn,
    (hfollows.waits n hn).mpr List.mem_cons_self, ?_, ?_, ?_, rfl⟩
  · obtain ⟨c, hc, hrests⟩ := hsettled n hn
    have hbelow : c ≤ positions target n := hrests ▸ Theory.le_alignUp _ _
    rcases hc with rfl | ⟨range, hrange, rfl⟩ | ⟨m, hm, hnear, rfl⟩
    · exact mem_canonicalOffsetsForNode.mpr ⟨0, .inl rfl, hrests⟩
    · obtain ⟨reserved, hpool⟩ := h.exists_pool hcount
      have hblocked : range ∈ nodeBlocked problem n := hrange
      rw [nodeBlocked, hpool] at hblocked
      obtain ⟨ends, hends, rfl⟩ := List.mem_map.mp hblocked
      exact mem_canonicalOffsetsForNode.mpr
        ⟨ends.last, .inr (.inl ⟨reserved, hpool, ends, hends, rfl⟩), hrests⟩
    · -- a support is placed: it lies strictly below the node
      have hm : m ∈ poolNodes problem.search pool := List.mem_toFinset.mp hm
      have hmcount := lt_of_mem_poolNodes hm
      have hpos := h.size_pos hmcount
      have hbelow : positions target m + nodeSize problem m ≤ positions target n := hbelow
      have hlow : target.getD m 0 < target.getD n 0 := by
        rw [UInt64.lt_iff_toNat_lt]
        have hpos : 0 < nodeSize problem m := hpos
        unfold positions at hbelow
        omega
      have hkey : key problem target m < key problem target n := Prod.Lex.lt_iff.mpr (.inl hlow)
      have hmplaced : placed.getD m false = true := by
        rw [← Bool.not_eq_false]
        intro hfree
        rcases List.mem_cons.mp ((hfollows.waits m hm).mp hfree) with rfl | hrest
        · exact lt_irrefl _ hkey
        · exact lt_asymm hkey (List.rel_of_pairwise_cons hfollows.sorted hrest)
      have hover : positions target m + nodeSize problem m < 2 ^ 64 := hplaced.lt hm
      have hsum : (offsets.getD m 0 + (problem.search.nodeAt m).size).toNat =
          positions target m + nodeSize problem m := by
        rw [hfollows.agree m hmplaced]
        exact Theory.toNat_add_of_lt hover
      refine mem_canonicalOffsetsForNode.mpr
        ⟨offsets.getD m 0 + (problem.search.nodeAt m).size,
          .inr (.inr ⟨m, ?_, hmplaced, ?_, rfl⟩), ?_⟩
      · rcases hnear with hconflict | hweighted
        · exact .inl ((h.mem_hardNeighborsOf hcount m).mpr ⟨hmcount, hconflict⟩)
        · exact .inr ((mem_softNeighbors h hcount).mpr hweighted)
      · rw [Theory.addOverflows_eq_false_iff, hfollows.agree m hmplaced]
        exact hover
      · rw [hsum]
        exact hrests
  · exact notAfter_eq_false fun placement hlast =>
      hfollows.last placement hlast n List.mem_cons_self
  · refine (fitsReuseNodeAt_iff h hcount _ fun m _ hm => (hcall.room m hm).lt).mpr
      ⟨hplaced.room n hn, fun m _ hm hc => ?_⟩
    rw [hagree m hm]
    exact hplaced.apart n hn m (hcall.inPool m hm) hc

theorem Follows.step {n : ℕ} {rest : List ℕ} {placed : List Bool} {offsets : List UInt64}
    {last : Option (UInt64 × BufferId)} (hplaced : n < placed.length)
    (hoffsets : n < offsets.length)
    (hfollows : Follows problem pool target (n :: rest) placed offsets last) :
    Follows problem pool target rest (placed.set n true) (offsets.set n (target.getD n 0))
      (some (target.getD n 0, (problem.search.nodeAt n).representative)) where
  agree m hm := by
    rw [getD_set_true hplaced, Bool.or_eq_true, beq_iff_eq] at hm
    rw [getD_set hoffsets]
    split_ifs with heq
    · rw [heq]
    · exact hfollows.agree m (hm.resolve_left (Ne.symm heq))
  inPool m hm := hfollows.inPool m (List.mem_cons_of_mem n hm)
  waits m hm := by
    have hlt := (List.pairwise_cons.mp hfollows.sorted).1
    rw [getD_set_true hplaced, Bool.or_eq_false_iff, beq_eq_false_iff_ne, hfollows.waits m hm,
      List.mem_cons]
    constructor
    · rintro ⟨hne, heq | hrest⟩
      · exact absurd heq hne
      · exact hrest
    · intro hrest
      refine ⟨?_, .inr hrest⟩
      rintro rfl
      exact lt_irrefl _ (hlt m hrest)
  sorted := (List.pairwise_cons.mp hfollows.sorted).2
  last placement hlast m hm := by
    obtain rfl := Option.some.inj hlast
    exact (List.pairwise_cons.mp hfollows.sorted).1 m hm

theorem poolScore_le_of_follows (h : SearchOk problem)
    (hplaced : Placed problem pool (positions target)) {rest : List ℕ} {placed : List Bool}
    {offsets : List UInt64} {cost peak : UInt64} {last : Option (UInt64 × BufferId)}
    (hcall : CallOk problem pool placed offsets cost peak)
    (hfollows : Follows problem pool target rest placed offsets last) :
    poolScore problem cost peak ≤ score problem pool target := by
  apply poolScore_le
  · have hsame : partialCost problem (fun n => placed.getD n false) (positions offsets) =
        partialCost problem (fun n => placed.getD n false) (positions target) :=
      partialCost_congr h (fun _ _ => rfl) fun n _ hn =>
        congrArg UInt64.toNat (hfollows.agree n hn)
    have hle : (⟨cost⟩ : Sat) ≤ ⟨poolReuseCost problem.search pool target⟩ := by
      rw [hcall.cost, poolReuseCost_eq h hplaced, hsame]
      apply weightOf_mono h
      rintro pair - - - ⟨h1, h2, hnot⟩
      exact ⟨decide_eq_true (hcall.inPool _ h1), decide_eq_true (hcall.inPool _ h2), hnot⟩
    exact hle
  · obtain ⟨hreserved, htop⟩ := peakOf_le_iff.mp
      (le_refl (peakOf problem problem.search pool target))
    refine (hcall.peak _).mpr ⟨hreserved, fun n hn => ?_⟩
    rw [hfollows.agree n hn]
    exact htop n (hcall.inPool n hn)

/-- Every call on the path of a settled placement covers its score. -/
theorem searchFrom_covers (h : SearchOk problem)
    (hplaced : Placed problem pool (positions target))
    (hsettled : Settled h pool (positions target)) (rest : List ℕ) (placed : List Bool)
    (offsets : List UInt64) (cost peak : UInt64) (last : Option (UInt64 × BufferId))
    (state : State) (hcall : CallOk problem pool placed offsets cost peak)
    (hfollows : Follows problem pool target rest placed offsets last) :
    Theory.Covers (view options (searchFrom problem problem.search pool options rest.length placed
      offsets cost peak last state)) (score problem pool target) := by
  have hbound := poolScore_le_of_follows h hplaced hcall hfollows
  induction rest generalizing placed offsets cost peak last state with
  | nil =>
      unfold searchFrom
      exact enter_covers state hbound fun current => .inr ⟨_, rfl, hbound⟩
  | cons n rest ih =>
      have hcount := lt_of_mem_poolNodes (hfollows.inPool n List.mem_cons_self)
      have hmem := hfollows.mem_branches h hplaced hsettled hcall
      have hnext := hfollows.step (by rwa [hcall.placedLength]) (by rwa [hcall.offsetsLength])
      have hcall' := hcall.step h hmem
      unfold searchFrom
      refine enter_covers state hbound fun current => ?_
      refine Theory.covers_foldl (view options) ?_ (fun _ => True) (fun _ _ _ _ => trivial) hmem ?_
        trivial
      · intro next branch
        split_ifs with hdone
        · exact Grows.refl _
        · exact searchFrom_grows _ _ _ _ _ _
            { next with candidateBranches := next.candidateBranches + 1 }
      · intro next _
        split_ifs with hdone
        · exact .inl hdone
        · exact ih _ _ _ _ _ _ hcall' hnext (poolScore_le_of_follows h hplaced hcall' hnext)

/-- The nodes in the order of their offsets. -/
def pathOf (problem : DsaProblem) (pool : PoolId) (target : List UInt64) : List ℕ :=
  (poolNodes problem.search pool).insertionSort fun n m =>
    key problem target n ≤ key problem target m

theorem follows_initial (h : SearchOk problem) (target : List UInt64) :
    Follows problem pool target (pathOf problem pool target)
      (List.replicate problem.search.count false) (List.replicate problem.search.count 0) none where
  agree n hn := by
    rw [getD_replicate_false] at hn
    cases hn
  inPool n hn := (List.mem_insertionSort _).mp hn
  waits n hn := by
    rw [getD_replicate_false]
    exact iff_of_true rfl ((List.mem_insertionSort _).mpr hn)
  sorted := by
    have hsorted : (pathOf problem pool target).Pairwise fun n m =>
        key problem target n ≤ key problem target m := List.pairwise_insertionSort _ _
    have hnodup : (pathOf problem pool target).Nodup :=
      (List.perm_insertionSort _ _).nodup_iff.mpr (nodup_poolNodes _)
    refine (hsorted.and hnodup).imp_of_mem fun {n m} hn hm hnm => lt_of_le_of_ne hnm.1 fun heq => ?_
    have hrep : (problem.search.nodeAt n).representative =
        (problem.search.nodeAt m).representative := congrArg (fun pair => (ofLex pair).2) heq
    exact hnm.2 (h.representative_injective
      (lt_of_mem_poolNodes ((List.mem_insertionSort _).mp hn))
      (lt_of_mem_poolNodes ((List.mem_insertionSort _).mp hm)) hrep)
  last _ hlast := by cases hlast

/-- Without a limit nothing is cut short. -/
theorem searchFrom_limitHit (hlimit : options.nodeLimit = 0) (remaining : ℕ) (placed : List Bool)
    (offsets : List UInt64) (cost peak : UInt64) (last : Option (UInt64 × BufferId))
    (state : State) (hstate : state.limitHit = false) :
    (searchFrom problem problem.search pool options remaining placed offsets cost peak last
      state).limitHit = false := by
  induction remaining generalizing placed offsets cost peak last state with
  | zero =>
      unfold searchFrom
      have hend := @enter_spec problem options cost peak (fun state : State =>
        { state with
          found := true
          bestScore := poolScore problem cost peak
          bestOffsets := offsets }) state
      generalize enter problem options cost peak _ state = result at hend
      cases hend with
      | done => exact hstate
      | limit limited => exact absurd hlimit limited
      | pruned => exact hstate
      | counted => exact hstate
  | succ remaining ih =>
      unfold searchFrom
      generalize hbody : (fun state : State => List.foldl _ state _) = body
      have hend := @enter_spec problem options cost peak body state
      generalize enter problem options cost peak body state = result at hend
      cases hend with
      | done => exact hstate
      | limit limited => exact absurd hlimit limited
      | pruned => exact hstate
      | counted =>
          rw [← hbody]
          dsimp only
          apply List.foldlRecOn (motive := fun state : State => state.limitHit = false)
          · exact hstate
          · intro current hcurrent branch _
            split_ifs with hdone
            · exact hcurrent
            · exact ih _ _ _ _ _ { current with candidateBranches := current.candidateBranches + 1 }
                hcurrent

/-- The search covers the score of every aligned placement. -/
theorem finalState_covers (h : SearchOk problem) {q : ℕ → ℕ} (hplaced : Placed problem pool q)
    (haligned : Aligned problem pool q) :
    Theory.Covers (view options (finalState problem problem.search pool options))
      (score problem pool (offsetVector problem q)) := by
  obtain ⟨target, hplaced', -, hsettled, hle⟩ := exists_settled h hplaced haligned
  have hlength : (pathOf problem pool target).length = (poolNodes problem.search pool).length :=
    List.length_insertionSort _ _
  have hcovers := @searchFrom_covers problem pool options target h hplaced' hsettled
    (pathOf problem pool target) _ _ _ _ _ (initialState problem problem.search pool options)
    (callOk_initial problem pool) (follows_initial h target)
  rw [hlength] at hcovers
  rcases hcovers with hdone | ⟨best, hbest, hbetter⟩
  · exact .inl hdone
  · exact .inr ⟨best, hbest, hbetter.trans hle⟩

end coverage

/-! ### The result of a run -/

section result

theorem finalState_ok (h : SearchOk problem) :
    StateOk problem pool options (finalState problem problem.search pool options) := by
  apply searchFrom_ok h _ _ _ _ _ _ _ (callOk_initial problem pool) _ (stateOk_initial h)
  unfold waiting
  rw [List.filter_eq_self.mpr]
  intro n _
  rw [getD_replicate_false]
  rfl

/-- The answers of a run. -/
inductive Answers (problem : DsaProblem) (pool : PoolId) (options : CanonicalExactSearchOptions)
    (result : PoolSearchResult) : Prop
  | cut (status : result.status = .timeout)
      (limit : (finalState problem problem.search pool options).limitHit = true)
  | placement (status : result.status = .feasible)
      (limit : (finalState problem problem.search pool options).limitHit = false)
      (found : (finalState problem problem.search pool options).found = true)
      (offsets : result.offsets = (finalState problem problem.search pool options).bestOffsets)
  | nothing (status : result.status = .infeasibleProven)
      (limit : (finalState problem problem.search pool options).limitHit = false)
      (found : (finalState problem problem.search pool options).found = false)

theorem run_answers (problem : DsaProblem) (pool : PoolId)
    (options : CanonicalExactSearchOptions) :
    Answers problem pool options (run problem problem.search pool options) := by
  unfold run
  dsimp only
  cases hlimit : (finalState problem problem.search pool options).limitHit with
  | true => exact .cut rfl hlimit
  | false =>
      cases hfound : (finalState problem problem.search pool options).found with
      | true => exact .placement rfl hlimit hfound rfl
      | false => exact .nothing rfl hlimit hfound

theorem run_unlimited (hlimit : options.nodeLimit = 0) :
    (run problem problem.search pool options).status ≠ .timeout := by
  have hinitial : (initialState problem problem.search pool options).limitHit = false := by
    unfold initialState
    dsimp only
    split
    · rfl
    · split_ifs <;> rfl
  have hfinal : (finalState problem problem.search pool options).limitHit = false :=
    searchFrom_limitHit hlimit _ _ _ _ _ _ _ hinitial
  cases run_answers problem pool options with
  | cut _ limit => exact absurd (hfinal.symm.trans limit) Bool.false_ne_true
  | placement status => exact fun htimeout => absurd (status.symm.trans htimeout) nofun
  | nothing status => exact fun htimeout => absurd (status.symm.trans htimeout) nofun

theorem run_kept (h : SearchOk problem)
    (hfeasible : (run problem problem.search pool options).status = .feasible) :
    Kept problem pool options (run problem problem.search pool options).offsets
      (finalState problem problem.search pool options).bestScore := by
  cases run_answers problem pool options with
  | cut status => exact absurd (hfeasible.symm.trans status) nofun
  | nothing status => exact absurd (hfeasible.symm.trans status) nofun
  | placement _ _ found offsets =>
      rw [offsets]
      exact finalState_ok h found

/-- A completed run has kept a best placement. -/
theorem run_score_le (h : SearchOk problem) (hstop : options.stopAfterFirst = false)
    (hfeasible : (run problem problem.search pool options).status = .feasible) {q : ℕ → ℕ}
    (hplaced : Placed problem pool q) (haligned : Aligned problem pool q) :
    score problem pool (run problem problem.search pool options).offsets ≤
      score problem pool (offsetVector problem q) := by
  have hkept := run_kept h hfeasible
  cases run_answers problem pool options with
  | cut status => exact absurd (hfeasible.symm.trans status) nofun
  | nothing status => exact absurd (hfeasible.symm.trans status) nofun
  | placement _ limit found =>
      rw [← hkept.score]
      have hcovers := @finalState_covers problem pool options h q hplaced haligned
      rcases hcovers with hdone | ⟨best, hbest, hle⟩
      · have hcut : ((finalState problem problem.search pool options).limitHit ||
            (options.stopAfterFirst && (finalState problem problem.search pool options).found)) =
              true := hdone
        rw [limit, hstop] at hcut
        exact absurd hcut Bool.false_ne_true
      · rw [(found_of_view hbest).2]
        exact hle

/-- A completed run that keeps nothing has no placement to find. -/
theorem run_infeasible (h : SearchOk problem)
    (hinfeasible : (run problem problem.search pool options).status = .infeasibleProven)
    {q : ℕ → ℕ} (hplaced : Placed problem pool q) : ¬ Aligned problem pool q := by
  intro haligned
  cases run_answers problem pool options with
  | cut status => exact absurd (hinfeasible.symm.trans status) nofun
  | placement status => exact absurd (hinfeasible.symm.trans status) nofun
  | nothing _ limit found =>
      have hcovers := @finalState_covers problem pool options h q hplaced haligned
      rcases hcovers with hdone | ⟨best, hbest, -⟩
      · have hcut : ((finalState problem problem.search pool options).limitHit ||
            (options.stopAfterFirst && (finalState problem problem.search pool options).found)) =
              true := hdone
        rw [limit, found, Bool.and_false] at hcut
        exact absurd hcut Bool.false_ne_true
      · rw [(found_of_view hbest).1] at found
        cases found

/-- **The canonical search of a pool is exact.**  A run that ends before its limit either returns
a placement of the pool, of a score at most that of any aligned placement, or proves that there
is none.  The placement is aligned unless it is the caller's own incumbent. -/
theorem run_exact (h : SearchOk problem) (pool : PoolId) (options : CanonicalExactSearchOptions)
    (hend : (run problem problem.search pool options).status ≠ .timeout) :
    ((run problem problem.search pool options).status = .feasible ∧
        Placed problem pool (positions (run problem problem.search pool options).offsets) ∧
        (Aligned problem pool (positions (run problem problem.search pool options).offsets) ∨
          options.stopAfterFirst = false ∧ options.incumbentOffsets =
            some (run problem problem.search pool options).offsets) ∧
        (options.stopAfterFirst = false → ∀ q, Placed problem pool q → Aligned problem pool q →
          score problem pool (run problem problem.search pool options).offsets ≤
            score problem pool (offsetVector problem q))) ∨
      ((run problem problem.search pool options).status = .infeasibleProven ∧
        ∀ q, Placed problem pool q → ¬ Aligned problem pool q) := by
  cases hanswer : run_answers problem pool options with
  | cut status => exact absurd status hend
  | placement status =>
      have hkept := run_kept h status
      exact .inl ⟨status, hkept.placed, hkept.aligned, fun hstop q hplaced haligned =>
        run_score_le h hstop status hplaced haligned⟩
  | nothing status =>
      exact .inr ⟨status, fun q hplaced => run_infeasible h status hplaced⟩

theorem run_exact_pairProblem :
    (run pairProblem pairProblem.search 0 {}).status = .feasible ∧
      ∀ q, Placed pairProblem 0 q → Aligned pairProblem 0 q →
        score pairProblem 0 (run pairProblem pairProblem.search 0 {}).offsets ≤
          score pairProblem 0 (offsetVector pairProblem q) := by
  have hstatus : (run pairProblem pairProblem.search 0 {}).status = .feasible := by
    decide +kernel
  rcases run_exact searchOk_pairProblem 0 {} (hstatus ▸ nofun) with ⟨-, -, -, hbest⟩ | ⟨hnone, -⟩
  · exact ⟨hstatus, hbest rfl⟩
  · exact absurd (hstatus.symm.trans hnone) nofun

/-- One aligned buffer in a pool with room for it. -/
def loneProblem : DsaProblem where
  buffers := [{ id := 0, size := 4, alignment := 4, liveIntervals := [⟨0, 1⟩] }]
  pools := [{ capacity := some 8 }]
  objective := fitThenMinimizeReuseCostObjective

/-- The fit test of an incumbent does not ask for its alignment. -/
theorem run_unaligned : ¬ ∀ (problem : DsaProblem) (pool : PoolId)
    (options : CanonicalExactSearchOptions), SearchOk problem →
      options.stopAfterFirst = false →
        (run problem problem.search pool options).status = .feasible →
          Aligned problem pool (positions (run problem problem.search pool options).offsets) := by
  intro hall
  have hok : SearchOk loneProblem := ⟨by decide +kernel, by decide +kernel, by decide +kernel⟩
  have haligned := hall loneProblem 0 { incumbentOffsets := some [1] } hok rfl
    (by decide +kernel) 0 (by decide +kernel)
  revert haligned
  decide +kernel

end result

end PoolCanonicalSearch

end Dsa
