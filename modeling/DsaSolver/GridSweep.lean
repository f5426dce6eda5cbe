import DsaSolver.NodeCost
import DsaSolver.ScaleSolver
import DsaSolver.Theory.Sweep

/-! # The grid sweep as a sweep

`RunGridDp` is a run of a `Theory.Sweep`: the windows of `BuildWindows` hold every earlier
neighbour of the current node (`buildWindows_ok`), so every lookup of a colour succeeds and one
transition reads the colouring it extends (`transition_ok`).  `runGridDp_ok` and
`runGridDp_error` say what the run returns: a cheapest colouring that fits, or a failure which
claims infeasibility only when no colouring fits. -/

namespace Dsa

namespace ScaleGrid

open Theory (Sat Sweep SweepEntry keepCheapest)

/-! ### Failures -/

/-- The messages of the branches that report a broken run. -/
def brokenDiagnostics : List String :=
  ["scale_separated_grid_dp lost a pending soft-edge endpoint",
    "scale_separated_grid_dp lost a live endpoint",
    "scale_separated_grid_dp true cost exceeds its rounded DP cost",
    "scale_separated_grid_dp produced a structurally invalid placement"]

/-- A failure that is no broken run, and claims infeasibility only when `none` holds. -/
structure Failure.Sound (failure : Failure) (none : Prop) : Prop where
  known : failure.diagnostic ∉ brokenDiagnostics
  infeasible : failure.status = .infeasibleProven → none

theorem Failure.Sound.mono {failure : Failure} {none none' : Prop} (h : failure.Sound none)
    (hnone : none → none') : failure.Sound none' :=
  ⟨h.known, fun hstatus => hnone (h.infeasible hstatus)⟩

/-- A failure that does not claim infeasibility. -/
theorem Failure.sound_of_ne {failure : Failure} {none : Prop}
    (h : failure.diagnostic ∉ brokenDiagnostics ∧ failure.status ≠ .infeasibleProven) :
    failure.Sound none :=
  ⟨h.1, fun hstatus => absurd hstatus h.2⟩

theorem failIf_eq_ok {condition : Bool} {failure : Failure} {value : Unit} :
    failIf condition failure = .ok value ↔ condition = false := by
  cases condition with
  | false => exact ⟨fun _ => rfl, fun _ => rfl⟩
  | true => exact ⟨(fun h => nomatch h), (fun h => nomatch h)⟩

theorem failIf_eq_error {condition : Bool} {failure failure' : Failure} :
    failIf condition failure = .error failure' ↔ condition = true ∧ failure' = failure := by
  cases condition with
  | false => exact ⟨(fun h => nomatch h), (fun h => nomatch h.1)⟩
  | true => exact ⟨fun h => ⟨rfl, (Except.error.inj h).symm⟩, fun h => by rw [h.2]; rfl⟩

section sweep

variable {search : ReusePenaltySearchSpace} {nodes : List TimedNode} {options : Options}

/-! ### Ranks and neighbours -/

/-- The nodes are distinct and sorted by birth. -/
structure Timed (nodes : List TimedNode) : Prop where
  distinct : (nodes.map TimedNode.node).Nodup
  births : nodes.Pairwise fun first second => first.birth ≤ second.birth

theorem timedAt_eq {r : ℕ} (hr : r < nodes.length) : timedAt nodes r = nodes[r] :=
  List.getD_eq_getElem _ _ hr

theorem rankOf_eq_some (h : Timed nodes) {node r : ℕ} :
    rankOf nodes node = some r ↔ r < nodes.length ∧ (timedAt nodes r).node = node := by
  unfold rankOf
  rw [List.findIdx?_eq_some_iff_getElem]
  constructor
  · rintro ⟨hr, hnode, -⟩
    refine ⟨hr, ?_⟩
    rw [timedAt_eq hr]
    exact beq_iff_eq.mp hnode
  · rintro ⟨hr, hnode⟩
    rw [timedAt_eq hr] at hnode
    refine ⟨hr, beq_iff_eq.mpr hnode, fun j hj hbeq => ?_⟩
    have hsame : nodes[j].node = nodes[r].node := (beq_iff_eq.mp hbeq).trans hnode.symm
    have hnd := h.distinct
    rw [List.nodup_iff_pairwise_ne, List.pairwise_map] at hnd
    exact List.pairwise_iff_getElem.mp hnd j r (by omega) hr hj hsame

theorem rankOf_timedAt (h : Timed nodes) {r : ℕ} (hr : r < nodes.length) :
    rankOf nodes (timedAt nodes r).node = some r := (rankOf_eq_some h).mpr ⟨hr, rfl⟩

theorem birth_le (h : Timed nodes) {r s : ℕ} (hrs : r ≤ s) (hs : s < nodes.length) :
    (timedAt nodes r).birth ≤ (timedAt nodes s).birth := by
  rw [timedAt_eq (hrs.trans_lt hs), timedAt_eq hs]
  obtain hlt | rfl := Nat.lt_or_eq_of_le hrs
  · exact List.pairwise_iff_getElem.mp h.births r s (by omega) hs hlt
  · exact Int64.le_refl _

/-- `other` shares a hard or a soft edge with `node`. -/
def IsNeighbor (search : ReusePenaltySearchSpace) (node other : ℕ) : Prop :=
  other ∈ search.hardNeighborsOf node ∨ other ∈ (search.softNeighborsOf node).map Prod.fst

/-! ### The last partners -/

theorem le_foldl_hardPartner {rank : ℕ} (l : List ℕ) (last : ℕ) :
    last ≤ l.foldl (fun last neighbor =>
      match rankOf nodes neighbor with
      | none => last
      | some other => if rank < other then max last other else last) last ∧
    ∀ neighbor ∈ l, ∀ other, rankOf nodes neighbor = some other → rank < other →
      other ≤ l.foldl (fun last neighbor =>
        match rankOf nodes neighbor with
        | none => last
        | some other => if rank < other then max last other else last) last := by
  induction l generalizing last with
  | nil => exact ⟨le_refl _, fun neighbor hmem => absurd hmem List.not_mem_nil⟩
  | cons neighbor rest ih =>
      rw [List.foldl_cons]
      obtain ⟨hstart, hrest⟩ := ih (match rankOf nodes neighbor with
        | none => last
        | some other => if rank < other then max last other else last)
      refine ⟨le_trans ?_ hstart, fun other hmem => ?_⟩
      · split
        · exact le_refl _
        · split_ifs
          · exact le_max_left _ _
          · exact le_refl _
      · obtain rfl | hmem := List.mem_cons.mp hmem
        · intro r hr hlt
          refine le_trans ?_ hstart
          rw [hr]
          dsimp only
          rw [if_pos hlt]
          exact le_max_right _ _
        · exact hrest other hmem

theorem softPartners_spec {rank : ℕ} {l : List (ℕ × UInt64)} {found result : ℕ × ℕ}
    (h : softPartners nodes options rank l found = .ok result) :
    found.1 ≤ result.1 ∧ ∀ neighbor ∈ l.map Prod.fst, ∀ other,
      rankOf nodes neighbor = some other → rank < other → other ≤ result.1 := by
  induction l generalizing found with
  | nil =>
      obtain rfl := Except.ok.inj h
      exact ⟨le_refl _, fun neighbor hmem => absurd hmem List.not_mem_nil⟩
  | cons neighbor rest ih =>
      unfold softPartners at h
      split at h
      · next hrank =>
          obtain ⟨hstart, hrest⟩ := ih h
          refine ⟨hstart, fun other hmem r hr => ?_⟩
          obtain rfl | hmem := List.mem_cons.mp hmem
          · rw [hrank] at hr
            cases hr
          · exact hrest other hmem r hr
      · next known hrank =>
          dsimp only at h
          split_ifs at h with hlt
          · obtain ⟨hstart, hrest⟩ := ih h
            refine ⟨le_trans (le_max_left _ _) hstart, fun other hmem r hr hltr => ?_⟩
            obtain rfl | hmem := List.mem_cons.mp hmem
            · obtain rfl := Option.some.inj (hr.symm.trans hrank)
              exact le_trans (le_max_right _ _) hstart
            · exact hrest other hmem r hr hltr
          · obtain ⟨hstart, hrest⟩ := ih h
            refine ⟨hstart, fun other hmem r hr hltr => ?_⟩
            obtain rfl | hmem := List.mem_cons.mp hmem
            · obtain rfl := Option.some.inj (hr.symm.trans hrank)
              exact absurd hltr hlt
            · exact hrest other hmem r hr hltr

theorem softPartners_error {rank : ℕ} {l : List (ℕ × UInt64)} {found : ℕ × ℕ} {failure : Failure}
    {none : Prop} (h : softPartners nodes options rank l found = .error failure) :
    failure.Sound none := by
  induction l generalizing found with
  | nil => cases h
  | cons neighbor rest ih =>
      unfold softPartners at h
      split at h
      · exact ih h
      · dsimp only at h
        split_ifs at h
        · obtain rfl := Except.error.inj h
          exact Failure.sound_of_ne (by decide)
        · exact ih h
        · exact ih h

/-- Every later neighbour is at most the last partner. -/
def Partnered (search : ReusePenaltySearchSpace) (nodes : List TimedNode) (rank last : ℕ) : Prop :=
  ∀ neighbor, IsNeighbor search (timedAt nodes rank).node neighbor → ∀ other,
    rankOf nodes neighbor = some other → rank < other → other ≤ last

theorem lastPartners_spec {ranks : List ℕ} {span : ℕ} {result : List ℕ × ℕ}
    (h : lastPartners search nodes options ranks span = .ok result) :
    List.Forall₂ (Partnered search nodes) ranks result.1 := by
  induction ranks generalizing span result with
  | nil =>
      obtain rfl := Except.ok.inj h
      exact List.Forall₂.nil
  | cons rank rest ih =>
      unfold lastPartners at h
      obtain ⟨found, hfound, h⟩ := Theory.bind_eq_ok.mp h
      obtain ⟨others, hothers, h⟩ := Theory.bind_eq_ok.mp h
      obtain rfl := Except.ok.inj h
      obtain ⟨hstart, hsoft⟩ := softPartners_spec hfound
      refine List.Forall₂.cons (fun neighbor hneighbor other hother hlt => ?_) (ih hothers)
      obtain hhard | hmem := hneighbor
      · exact le_trans ((le_foldl_hardPartner _ rank).2 neighbor hhard other hother hlt) hstart
      · exact hsoft neighbor hmem other hother hlt

theorem lastPartners_error {ranks : List ℕ} {span : ℕ} {failure : Failure} {none : Prop}
    (h : lastPartners search nodes options ranks span = .error failure) : failure.Sound none := by
  induction ranks generalizing span with
  | nil => cases h
  | cons rank rest ih =>
      unfold lastPartners at h
      obtain h | ⟨found, -, h⟩ := Theory.bind_eq_error.mp h
      · exact softPartners_error h
      · obtain h | ⟨others, -, h⟩ := Theory.bind_eq_error.mp h
        · exact ih h
        · cases h

/-! ### The windows -/

/-- The windows hold what the later ranks look up. -/
structure WindowsOk (search : ReusePenaltySearchSpace) (nodes : List TimedNode)
    (windows : List (List ℕ)) : Prop where
  past : ∀ r, ∀ i ∈ windowBefore windows r, i < r
  sorted : ∀ r, (windowBefore windows r).Pairwise (· < ·)
  kept : ∀ r, ∀ i ∈ windowBefore windows (r + 1), i = r ∨ i ∈ windowBefore windows r
  remembers : ∀ r < nodes.length, ∀ neighbor,
    IsNeighbor search (timedAt nodes r).node neighbor → ∀ j, rankOf nodes neighbor = some j →
      j < r → j ∈ windowBefore windows r

theorem windowBefore_eq {lastPartner : List ℕ} {r : ℕ} (hpos : 0 < r) (hr : r < nodes.length) :
    windowBefore (buildWindows nodes lastPartner) r = (List.range r).filter fun prior =>
      decide ((timedAt nodes prior).death > (timedAt nodes r).birth) ||
        decide (lastPartner.getD prior 0 ≥ r) := by
  obtain ⟨r, rfl⟩ := Nat.exists_eq_succ_of_ne_zero hpos.ne'
  unfold windowBefore buildWindows
  rw [if_neg (by simp), Nat.succ_sub_one, List.getD_eq_getElem _ _ (by simp; omega)]
  simp [hr]

theorem windowBefore_eq_nil {lastPartner : List ℕ} {r : ℕ} (hr : r = 0 ∨ nodes.length ≤ r) :
    windowBefore (buildWindows nodes lastPartner) r = [] := by
  unfold windowBefore buildWindows
  split_ifs with hzero
  · rfl
  · have hpos : r ≠ 0 := by simpa using hzero
    by_cases hlast : r - 1 < nodes.length
    · rw [List.getD_eq_getElem _ _ (by simpa using hlast), List.getElem_map, if_neg]
      simp only [List.getElem_range]
      omega
    · rw [List.getD_eq_default _ _ (by simpa using hlast)]

theorem buildWindows_ok (h : Timed nodes)
    (hsymm : ∀ r < nodes.length, ∀ s < nodes.length,
      IsNeighbor search (timedAt nodes r).node (timedAt nodes s).node →
        IsNeighbor search (timedAt nodes s).node (timedAt nodes r).node)
    {lastPartner : List ℕ}
    (hlast : ∀ r < nodes.length, Partnered search nodes r (lastPartner.getD r 0)) :
    WindowsOk search nodes (buildWindows nodes lastPartner) := by
  have hcases : ∀ r, windowBefore (buildWindows nodes lastPartner) r = [] ∨
      0 < r ∧ r < nodes.length := by
    intro r
    by_cases hr : r = 0 ∨ nodes.length ≤ r
    · exact .inl (windowBefore_eq_nil hr)
    · right
      omega
  refine ⟨fun r i hi => ?_, fun r => ?_, fun r i hi => ?_, fun r hr neighbor hneighbor j hj hlt => ?_⟩
  · obtain hnil | ⟨hpos, hr⟩ := hcases r
    · rw [hnil] at hi
      cases hi
    · rw [windowBefore_eq hpos hr] at hi
      exact List.mem_range.mp (List.mem_filter.mp hi).1
  · obtain hnil | ⟨hpos, hr⟩ := hcases r
    · rw [hnil]
      exact List.Pairwise.nil
    · rw [windowBefore_eq hpos hr]
      exact List.pairwise_lt_range.filter _
  · obtain hnil | ⟨-, hr⟩ := hcases (r + 1)
    · rw [hnil] at hi
      cases hi
    · rw [windowBefore_eq (Nat.succ_pos r) hr, List.mem_filter, List.mem_range, Bool.or_eq_true,
        decide_eq_true_iff, decide_eq_true_iff] at hi
      obtain ⟨hlt, hkept⟩ := hi
      obtain rfl | hne := Nat.eq_or_lt_of_le (Nat.lt_succ_iff.mp hlt)
      · exact .inl rfl
      · right
        rw [windowBefore_eq (by omega) (by omega), List.mem_filter, List.mem_range, Bool.or_eq_true,
          decide_eq_true_iff, decide_eq_true_iff]
        -- the births are sorted, so what is alive at the next birth is alive at this one
        refine ⟨hne, hkept.imp (fun hdeath => ?_) fun hpartner => by omega⟩
        exact Int64.lt_of_le_of_lt (birth_le h (Nat.le_succ r) hr) hdeath
  · obtain ⟨hjlt, rfl⟩ := (rankOf_eq_some h).mp hj
    rw [windowBefore_eq (by omega) hr, List.mem_filter, List.mem_range, Bool.or_eq_true,
      decide_eq_true_iff, decide_eq_true_iff]
    refine ⟨hlt, .inr ?_⟩
    exact hlast j hjlt _ (hsymm r hr j hjlt hneighbor) r (rankOf_timedAt h hr) hlt

/-! ### One transition -/

/-- The rounded range of the rank meets that of an earlier rank, the one of `neighbor`. -/
def meets (nodes : List TimedNode) (quantum : UInt64) (k : ℕ) (c : ℕ → UInt32) (neighbor : ℕ) :
    Bool :=
  match rankOf nodes neighbor with
  | none => false
  | some j => decide (j < k) && roundedOverlap nodes k (c k) quantum j (c j)

/-- The rank meets no earlier hard neighbour. -/
def GridClear (search : ReusePenaltySearchSpace) (nodes : List TimedNode) (quantum : UInt64)
    (k : ℕ) (c : ℕ → UInt32) : Prop :=
  ∀ neighbor ∈ search.hardNeighborsOf (timedAt nodes k).node,
    meets nodes quantum k c neighbor = false

/-- The rank has one of its colours and meets no earlier hard neighbour. -/
structure GridFits (search : ReusePenaltySearchSpace) (nodes : List TimedNode)
    (quantum largeLimit : UInt64) (k : ℕ) (c : ℕ → UInt32) : Prop where
  colored : (c k).toNat < (colorCount nodes quantum largeLimit k).toNat
  clear : GridClear search nodes quantum k c

/-- The weights of the earlier soft neighbours that the rank meets. -/
def gridPrice (search : ReusePenaltySearchSpace) (nodes : List TimedNode) (quantum : UInt64)
    (k : ℕ) (c : ℕ → UInt32) : Sat :=
  ((search.softNeighborsOf (timedAt nodes k).node).map fun neighbor =>
    if meets nodes quantum k c neighbor.1 then (⟨neighbor.2⟩ : Sat) else 0).sum

theorem meets_of_none {quantum : UInt64} {k : ℕ} {c : ℕ → UInt32} {neighbor : ℕ}
    (hj : rankOf nodes neighbor = none) : meets nodes quantum k c neighbor = false := by
  rw [meets, hj]

theorem meets_of_lt {quantum : UInt64} {k : ℕ} {c : ℕ → UInt32} {neighbor j : ℕ}
    (hj : rankOf nodes neighbor = some j) (hlt : j < k) :
    meets nodes quantum k c neighbor = roundedOverlap nodes k (c k) quantum j (c j) := by
  rw [meets, hj]
  dsimp only
  rw [decide_eq_true hlt, Bool.true_and]

theorem meets_of_le {quantum : UInt64} {k : ℕ} {c : ℕ → UInt32} {neighbor j : ℕ}
    (hj : rankOf nodes neighbor = some j) (hle : k ≤ j) :
    meets nodes quantum k c neighbor = false := by
  rw [meets, hj]
  dsimp only
  rw [decide_eq_false (not_lt.mpr hle), Bool.false_and]

theorem meets_congr {quantum : UInt64} {k : ℕ} {c c' : ℕ → UInt32} (h : ∀ i ≤ k, c i = c' i) :
    meets nodes quantum k c = meets nodes quantum k c' := by
  funext neighbor
  cases hj : rankOf nodes neighbor with
  | none => rw [meets_of_none hj, meets_of_none hj]
  | some j =>
      by_cases hlt : j < k
      · rw [meets_of_lt hj hlt, meets_of_lt hj hlt, h k le_rfl, h j hlt.le]
      · rw [meets_of_le hj (not_lt.mp hlt), meets_of_le hj (not_lt.mp hlt)]

theorem offsetFromState_eq {window : List ℕ} {entry : DpEntry} {c : ℕ → UInt32} {rank : ℕ}
    (hsorted : window.Pairwise (· < ·)) (hkey : entry.key = window.map c) (hmem : rank ∈ window) :
    offsetFromState window entry rank = some (c rank) := by
  obtain ⟨i, hi, rfl⟩ := List.getElem_of_mem hmem
  have hfind : window.findIdx (fun kept => decide (kept ≥ window[i])) = i := by
    rw [List.findIdx_eq hi]
    refine ⟨by simp, fun j hj => ?_⟩
    have := List.pairwise_iff_getElem.mp hsorted j i (by omega) hi hj
    simpa using this
  unfold offsetFromState
  dsimp only
  rw [hfind, List.getD_eq_getElem _ _ hi, hkey, List.getD_eq_getElem _ _ (by simpa using hi),
    List.getElem_map, if_neg]
  rw [Bool.or_eq_true, beq_iff_eq, bne_iff_ne]
  simp only [ne_eq, not_true_eq_false, or_false]
  omega

variable {windows : List (List ℕ)} {quantum largeLimit : UInt64} {r : ℕ} {previous : DpEntry}
  {c : ℕ → UInt32}

/-- The colour of an earlier neighbour is remembered. -/
theorem WindowsOk.lookup (h : WindowsOk search nodes windows) (hr : r < nodes.length)
    (hkey : previous.key = (windowBefore windows r).map c) {neighbor j : ℕ}
    (hneighbor : IsNeighbor search (timedAt nodes r).node neighbor)
    (hj : rankOf nodes neighbor = some j) (hlt : j < r) :
    offsetFromState (windowBefore windows r) previous j = some (c j) :=
  offsetFromState_eq (h.sorted r) hkey (h.remembers r hr neighbor hneighbor j hj hlt)

theorem transitionFits_iff (h : WindowsOk search nodes windows) (hr : r < nodes.length)
    (hkey : previous.key = (windowBefore windows r).map c) :
    transitionFits search nodes (windowBefore windows r) previous r (c r) quantum = true ↔
      GridClear search nodes quantum r c := by
  unfold transitionFits
  rw [List.all_eq_true]
  refine forall₂_congr fun neighbor hmem => ?_
  cases hj : rankOf nodes neighbor with
  | none => simp [meets_of_none hj]
  | some j =>
      dsimp only
      by_cases hlt : j < r
      · rw [if_neg (not_le.mpr hlt), h.lookup hr hkey (.inl hmem) hj hlt, meets_of_lt hj hlt,
          Bool.not_eq_true']
      · rw [if_pos (not_lt.mp hlt), meets_of_le hj (not_lt.mp hlt)]
        simp

theorem transitionCost_eq (h : WindowsOk search nodes windows) (hr : r < nodes.length)
    (hkey : previous.key = (windowBefore windows r).map c) :
    transitionCost search nodes (windowBefore windows r) previous r (c r) quantum =
      some (gridPrice search nodes quantum r c).val := by
  have hstep : ∀ l ⊆ search.softNeighborsOf (timedAt nodes r).node, ∀ cost,
      l.foldlM (addSoftCost nodes (windowBefore windows r) previous r (c r) quantum) cost =
        some (l.foldl (fun cost neighbor => if meets nodes quantum r c neighbor.1 then
          saturatingAdd cost neighbor.2 else cost) cost) := by
    intro l
    induction l with
    | nil => exact fun _ _ => rfl
    | cons neighbor rest ih =>
        intro hsub cost
        obtain ⟨hmem, hrest⟩ := List.cons_subset.mp hsub
        have hadd : addSoftCost nodes (windowBefore windows r) previous r (c r) quantum cost
            neighbor = some (if meets nodes quantum r c neighbor.1 then
              saturatingAdd cost neighbor.2 else cost) := by
          unfold addSoftCost
          cases hj : rankOf nodes neighbor.1 with
          | none => rw [meets_of_none hj, if_neg Bool.false_ne_true]
          | some j =>
              dsimp only
              by_cases hlt : j < r
              · rw [if_neg (not_le.mpr hlt),
                  h.lookup hr hkey (.inr (List.mem_map_of_mem hmem)) hj hlt, meets_of_lt hj hlt]
                dsimp only
                split_ifs <;> rfl
              · rw [if_pos (not_lt.mp hlt), meets_of_le hj (not_lt.mp hlt),
                  if_neg Bool.false_ne_true]
        rw [List.foldlM_cons, hadd, List.foldl_cons]
        exact ih hrest _
  unfold transitionCost
  rw [hstep _ (List.Subset.refl _)]
  have hzero : (⟨0⟩ : Sat) = 0 := rfl
  have hsum := Theory.foldl_satAdd (fun neighbor : ℕ × UInt64 => meets nodes quantum r c neighbor.1)
    Prod.snd 0 (search.softNeighborsOf (timedAt nodes r).node)
  rw [hzero, zero_add] at hsum
  exact congrArg some hsum

theorem candidateKey_eq (h : WindowsOk search nodes windows)
    (hkey : previous.key = (windowBefore windows r).map c) :
    candidateKey (windowBefore windows r) previous r (c r) (windowBefore windows (r + 1)) =
      some ((windowBefore windows (r + 1)).map c) := by
  unfold candidateKey
  refine Theory.mapM_eq_pure fun kept hmem => ?_
  by_cases hlast : kept = r
  · rw [if_pos (beq_iff_eq.mpr hlast), hlast]
    rfl
  · rw [if_neg (by simpa using hlast)]
    exact offsetFromState_eq (h.sorted r) hkey ((h.kept r kept hmem).resolve_left hlast)

theorem insertCandidate_ok {state next : GridState} {candidate : DpEntry}
    (h : insertCandidate options state candidate = .ok next) :
    next.entries = keepCheapest DpEntry.key DpEntry.cost state.entries candidate := by
  unfold insertCandidate at h
  unfold keepCheapest
  split at h
  · next hfind =>
      rw [hfind]
      split_ifs at h
      obtain rfl := Except.ok.inj h
      rfl
  · next found hfind =>
      rw [hfind]
      dsimp only
      split_ifs at h with hcheap
      · obtain rfl := Except.ok.inj h
        rw [if_pos hcheap]
      · obtain rfl := Except.ok.inj h
        rw [if_neg hcheap]

theorem insertCandidate_error {state : GridState} {candidate : DpEntry} {failure : Failure}
    {none : Prop} (h : insertCandidate options state candidate = .error failure) :
    failure.Sound none := by
  unfold insertCandidate at h
  split at h
  · split_ifs at h
    obtain rfl := Except.error.inj h
    exact Failure.sound_of_ne (by decide)
  · split_ifs at h

/-- The entry of a colouring of one more rank. -/
def extension (search : ReusePenaltySearchSpace) (nodes : List TimedNode)
    (windows : List (List ℕ)) (quantum : UInt64) (r : ℕ) (previous : DpEntry × ℕ)
    (c : ℕ → UInt32) : DpEntry :=
  { key := (windowBefore windows (r + 1)).map c
    cost := saturatingAdd previous.1.cost (gridPrice search nodes quantum r c).val
    predecessor := previous.2
    assignedOffset := c r }

variable {index : ℕ} {state : GridState}

/-- A transition adds the extension of a colouring that its entry remembers, if it is clear. -/
theorem transition_ok (h : WindowsOk search nodes windows) (hr : r < nodes.length)
    (hkey : previous.key = (windowBefore windows r).map c) {next : GridState}
    (hnext : transition search nodes options quantum (windowBefore windows r)
      (windowBefore windows (r + 1)) r state ((previous, index), c r) = .ok next) :
    (¬ GridClear search nodes quantum r c ∧ next.entries = state.entries) ∨
      (GridClear search nodes quantum r c ∧
        next.entries = keepCheapest DpEntry.key DpEntry.cost state.entries
          (extension search nodes windows quantum r (previous, index) c)) := by
  unfold transition at hnext
  dsimp only at hnext
  rw [transitionCost_eq h hr hkey, candidateKey_eq h hkey] at hnext
  split_ifs at hnext with hguard hfits
  · obtain rfl := Except.ok.inj hnext
    rw [Bool.not_eq_true', ← Bool.not_eq_true, transitionFits_iff h hr hkey] at hfits
    exact .inl ⟨hfits, rfl⟩
  · rw [Bool.not_eq_true', Bool.not_eq_false, transitionFits_iff h hr hkey] at hfits
    dsimp only at hnext
    have hinsert := insertCandidate_ok hnext
    exact .inr ⟨hfits, hinsert⟩

theorem transition_error (h : WindowsOk search nodes windows) (hr : r < nodes.length)
    (hkey : previous.key = (windowBefore windows r).map c) {failure : Failure} {none : Prop}
    (hfail : transition search nodes options quantum (windowBefore windows r)
      (windowBefore windows (r + 1)) r state ((previous, index), c r) = .error failure) :
    failure.Sound none := by
  unfold transition at hfail
  dsimp only at hfail
  rw [transitionCost_eq h hr hkey, candidateKey_eq h hkey] at hfail
  split_ifs at hfail
  · obtain rfl := Except.error.inj hfail
    exact Failure.sound_of_ne (by decide)
  · dsimp only at hfail
    exact insertCandidate_error hfail

/-- Colourings that an entry cannot tell apart have one extension. -/
theorem extension_congr (quantum : UInt64) (index : ℕ) (h : WindowsOk search nodes windows)
    (hr : r < nodes.length) {c' : ℕ → UInt32} (hkey : previous.key = (windowBefore windows r).map c)
    (hkey' : previous.key = (windowBefore windows r).map c') (hcolor : c r = c' r) :
    (GridClear search nodes quantum r c ↔ GridClear search nodes quantum r c') ∧
      extension search nodes windows quantum r (previous, index) c =
        extension search nodes windows quantum r (previous, index) c' := by
  have hfits : transitionFits search nodes (windowBefore windows r) previous r (c r) quantum =
      true ↔ GridClear search nodes quantum r c := transitionFits_iff h hr hkey
  have hcost : transitionCost search nodes (windowBefore windows r) previous r (c r) quantum =
      some (gridPrice search nodes quantum r c).val := transitionCost_eq h hr hkey
  have hnext := candidateKey_eq h hkey
  rw [hcolor] at hfits hcost hnext
  refine ⟨hfits.symm.trans (transitionFits_iff h hr hkey'), ?_⟩
  have hprice := Option.some.inj (hcost.symm.trans (transitionCost_eq h hr hkey'))
  have hmemory := Option.some.inj (hnext.symm.trans (candidateKey_eq h hkey'))
  unfold extension
  rw [hprice, hmemory, hcolor]

/-! ### One layer -/

/-- The sweep over the ranks. -/
def gridSweep (h : WindowsOk search nodes windows) (quantum largeLimit : UInt64) :
    Sweep UInt32 Sat where
  window := windowBefore windows
  fits := GridFits search nodes quantum largeLimit
  price := gridPrice search nodes quantum
  windowPast := h.past
  fitsPast k c c' hc hfits :=
    ⟨by rw [← hc k le_rfl]; exact hfits.colored,
      by unfold GridClear; rw [← meets_congr hc]; exact hfits.clear⟩
  pricePast k c c' hc := by
    unfold gridPrice
    rw [meets_congr hc]

/-- The entry as the sweep's. -/
def DpEntry.swept (entry : DpEntry) : SweepEntry UInt32 Sat :=
  ⟨entry.key, ⟨entry.cost⟩, entry.predecessor, entry.assignedOffset⟩

/-- Every entry remembers a colouring. -/
def Keyed (windows : List (List ℕ)) (r : ℕ) (entries : List DpEntry) : Prop :=
  ∀ entry ∈ entries, ∃ c : ℕ → UInt32, entry.key = (windowBefore windows r).map c

/-- A colouring for an entry and a colour. -/
theorem Keyed.exists_coloring (h : WindowsOk search nodes windows) {entries : List DpEntry}
    (hkeyed : Keyed windows r entries) {entry : DpEntry} (hmem : entry ∈ entries)
    (color : UInt32) :
    ∃ c : ℕ → UInt32, entry.key = (windowBefore windows r).map c ∧ c r = color := by
  obtain ⟨c, hc⟩ := hkeyed entry hmem
  refine ⟨Function.update c r color, ?_, Function.update_self r color c⟩
  rw [hc]
  refine List.map_congr_left fun i hi => ?_
  have := h.past r i hi
  rw [Function.update_of_ne (by omega)]

theorem mem_transitions {entries : List DpEntry} {count : UInt64} {step : Transition} :
    step ∈ transitions entries count ↔ entries[step.1.2]? = some step.1.1 ∧
      ∃ color < count.toNat, step.2 = UInt32.ofNat color := by
  obtain ⟨⟨entry, index⟩, color⟩ := step
  unfold transitions
  simp only [List.mem_flatMap, List.mem_map, List.mem_range, Prod.mk.injEq, Prod.exists]
  constructor
  · rintro ⟨entry', index', hmem, color', hlt, ⟨rfl, rfl⟩, rfl⟩
    exact ⟨List.mem_zipIdx_iff_getElem?.mp hmem, color', hlt, rfl⟩
  · rintro ⟨hmem, color', hlt, rfl⟩
    exact ⟨entry, index, List.mem_zipIdx_iff_getElem?.mpr hmem, color', hlt, ⟨rfl, rfl⟩, rfl⟩

/-- The entries made by the transitions done. -/
structure LayerSpec (search : ReusePenaltySearchSpace) (nodes : List TimedNode)
    (windows : List (List ℕ)) (quantum : UInt64) (r : ℕ) (done : List Transition)
    (entries : List DpEntry) : Prop where
  sound : ∀ entry ∈ entries, ∃ step ∈ done, entry.predecessor = step.1.2 ∧
    entry.assignedOffset = step.2 ∧
      ∀ c, step.1.1.key = (windowBefore windows r).map c → c r = step.2 →
        GridClear search nodes quantum r c ∧
          entry = extension search nodes windows quantum r step.1 c
  complete : ∀ step ∈ done, ∀ c, step.1.1.key = (windowBefore windows r).map c → c r = step.2 →
    GridClear search nodes quantum r c → ∃ entry ∈ entries,
      entry.key = (extension search nodes windows quantum r step.1 c).key ∧
        entry.cost ≤ (extension search nodes windows quantum r step.1 c).cost

theorem LayerSpec.snoc (h : WindowsOk search nodes windows) (hr : r < nodes.length)
    {done : List Transition} {next : GridState} {step : Transition}
    (hspec : LayerSpec search nodes windows quantum r done state.entries)
    (hkeyed : ∃ c : ℕ → UInt32, step.1.1.key = (windowBefore windows r).map c ∧ c r = step.2)
    (hnext : transition search nodes options quantum (windowBefore windows r)
      (windowBefore windows (r + 1)) r state step = .ok next) :
    LayerSpec search nodes windows quantum r (done ++ [step]) next.entries := by
  obtain ⟨c, hkey, hcolor⟩ := hkeyed
  obtain ⟨⟨previous, index⟩, color⟩ := step
  dsimp only at hkey hcolor
  subst hcolor
  have hold : ∀ entry ∈ state.entries, ∃ step ∈ done ++ [((previous, index), c r)],
      entry.predecessor = step.1.2 ∧ entry.assignedOffset = step.2 ∧
        ∀ c, step.1.1.key = (windowBefore windows r).map c → c r = step.2 →
          GridClear search nodes quantum r c ∧
            entry = extension search nodes windows quantum r step.1 c := by
    intro entry hentry
    obtain ⟨step, hstep, hrest⟩ := hspec.sound entry hentry
    exact ⟨step, List.mem_append_left _ hstep, hrest⟩
  obtain ⟨hblocked, hentries⟩ | ⟨hclear, hentries⟩ := transition_ok h hr hkey hnext
  · rw [hentries]
    refine ⟨hold, fun step hstep c' hkey' hcolor' hclear => ?_⟩
    obtain hdone | hlast := List.mem_append.mp hstep
    · exact hspec.complete step hdone c' hkey' hcolor' hclear
    · obtain rfl := List.mem_singleton.mp hlast
      exact absurd ((extension_congr quantum index h hr hkey' hkey hcolor').1.mp hclear) hblocked
  · rw [hentries]
    refine ⟨fun entry hentry => ?_, fun step hstep c' hkey' hcolor' hclear' => ?_⟩
    · obtain hentry | rfl := Theory.mem_keepCheapest hentry
      · exact hold entry hentry
      · refine ⟨((previous, index), c r), List.mem_append_right _ List.mem_cons_self, rfl, rfl,
          fun c' hkey' hcolor' => ?_⟩
        obtain ⟨hiff, hsame⟩ := extension_congr quantum index h hr hkey' hkey hcolor'
        exact ⟨hiff.mpr hclear, hsame.symm⟩
    · obtain hdone | hlast := List.mem_append.mp hstep
      · obtain ⟨entry, hentry, hkeyEq, hcostLe⟩ :=
          hspec.complete step hdone c' hkey' hcolor' hclear'
        obtain ⟨kept, hkept, hkeptKey, hkeptCost⟩ :=
          @Theory.exists_keepCheapest _ _ _ _ _ DpEntry.key DpEntry.cost state.entries
            (extension search nodes windows quantum r (previous, index) c) entry (.inl hentry)
        exact ⟨kept, hkept, hkeptKey.trans hkeyEq, hkeptCost.trans hcostLe⟩
      · obtain rfl := List.mem_singleton.mp hlast
        rw [(extension_congr quantum index h hr hkey' hkey hcolor').2]
        exact Theory.exists_keepCheapest (.inr rfl)

/-- The colours of the rank fit the source's 32 bits. -/
structure Guarded (nodes : List TimedNode) (quantum largeLimit : UInt64) (r : ℕ) : Prop where
  size : (timedAt nodes r).roundedSize ≤ largeLimit
  count : (colorCount nodes quantum largeLimit r).toNat ≤ 4294967295

variable {entries : List DpEntry} {states steps : UInt64}

theorem foldlM_transition_spec (h : WindowsOk search nodes windows) (hr : r < nodes.length)
    (hkeyed : Keyed windows r entries) {count : UInt64} {layer : GridState}
    (hlayer : (transitions entries count).foldlM (transition search nodes options quantum
      (windowBefore windows r) (windowBefore windows (r + 1)) r) ⟨[], states, steps⟩ = .ok layer) :
    LayerSpec search nodes windows quantum r (transitions entries count) layer.entries := by
  refine Theory.foldlM_induction
    (fun done state => LayerSpec search nodes windows quantum r done state.entries) ?_ ?_ hlayer
  · exact ⟨fun entry hentry => absurd hentry List.not_mem_nil,
      fun step hstep => absurd hstep List.not_mem_nil⟩
  · intro done step rest state next hsplit hspec hnext
    have hmem : step ∈ transitions entries count := by
      rw [hsplit]
      exact List.mem_append_right _ List.mem_cons_self
    exact hspec.snoc h hr (hkeyed.exists_coloring h
      (List.mem_of_getElem? (mem_transitions.mp hmem).1) step.2) hnext

/-- A layer extends the entries before it. -/
theorem gridLayer_ok (h : WindowsOk search nodes windows) (hr : r < nodes.length)
    (hkeyed : Keyed windows r entries) {layer : GridState}
    (hlayer : gridLayer search nodes options quantum largeLimit windows entries states steps r =
      .ok layer) :
    Guarded nodes quantum largeLimit r ∧ layer.entries ≠ [] ∧
      (gridSweep h quantum largeLimit).Extends r (entries.map DpEntry.swept)
        (layer.entries.map DpEntry.swept) := by
  unfold gridLayer at hlayer
  obtain ⟨_, hsize, hlayer⟩ := Theory.bind_eq_ok.mp hlayer
  obtain ⟨_, hcount, hlayer⟩ := Theory.bind_eq_ok.mp hlayer
  obtain ⟨state, hstate, hlayer⟩ := Theory.bind_eq_ok.mp hlayer
  obtain ⟨_, hne, hlayer⟩ := Theory.bind_eq_ok.mp hlayer
  obtain rfl := Except.ok.inj hlayer
  rw [failIf_eq_ok, decide_eq_false_iff_not] at hsize
  rw [failIf_eq_ok, Bool.or_eq_false_iff, decide_eq_false_iff_not, decide_eq_false_iff_not] at hcount
  rw [failIf_eq_ok, List.isEmpty_eq_false_iff] at hne
  have hguard : (colorCount nodes quantum largeLimit r).toNat ≤ 4294967295 := not_lt.mp hcount.2
  have hspec := foldlM_transition_spec h hr hkeyed hstate
  refine ⟨⟨not_lt.mp hsize, hguard⟩, hne, ⟨fun entry hentry => ?_, fun entry hentry c hkey hfits => ?_⟩⟩
  · obtain ⟨source, hsource, rfl⟩ := List.mem_map.mp hentry
    obtain ⟨step, hstep, hpredecessor, hoffset, hall⟩ := hspec.sound source hsource
    obtain ⟨hget, color, hlt, hcolor⟩ := mem_transitions.mp hstep
    refine ⟨step.1.1.swept, ?_, fun c hkey hc => ?_⟩
    · show (entries.map DpEntry.swept)[source.predecessor]? = _
      rw [List.getElem?_map, hpredecessor, hget]
      rfl
    · have hc : c r = step.2 := hc.trans hoffset
      obtain ⟨hclear, hsame⟩ := hall c hkey hc
      refine ⟨⟨?_, hclear⟩, ?_, ?_⟩
      · rw [hc, hcolor, UInt32.toNat_ofNat_of_lt' (by show color < 2 ^ 32; omega)]
        exact hlt
      · rw [hsame]
        rfl
      · rw [hsame]
        rfl
  · obtain ⟨previous, hprevious, rfl⟩ := List.mem_map.mp hentry
    obtain ⟨index, hindex, hget⟩ := List.getElem_of_mem hprevious
    have hcolored := hfits.colored
    have hstep : ((previous, index), c r) ∈
        transitions entries (colorCount nodes quantum largeLimit r) := by
      refine mem_transitions.mpr ⟨?_, (c r).toNat, hcolored, by simp⟩
      rw [List.getElem?_eq_getElem hindex, hget]
    obtain ⟨kept, hkept, hkeyEq, hcost⟩ := hspec.complete _ hstep c hkey rfl hfits.clear
    exact ⟨kept.swept, List.mem_map_of_mem hkept, hkeyEq, hcost⟩

/-- A failing layer is no broken run; it claims infeasibility when no entry can be extended. -/
theorem gridLayer_error (h : WindowsOk search nodes windows) (hr : r < nodes.length)
    (hkeyed : Keyed windows r entries) {failure : Failure}
    (hlayer : gridLayer search nodes options quantum largeLimit windows entries states steps r =
      .error failure) :
    failure.Sound (Guarded nodes quantum largeLimit r ∧ ∀ entry ∈ entries, ∀ c,
      entry.key = (windowBefore windows r).map c → ¬ GridFits search nodes quantum largeLimit r c) := by
  unfold gridLayer at hlayer
  obtain hfail | ⟨_, hsize, hlayer⟩ := Theory.bind_eq_error.mp hlayer
  · obtain ⟨-, rfl⟩ := failIf_eq_error.mp hfail
    exact Failure.sound_of_ne (by decide)
  obtain hfail | ⟨_, hcount, hlayer⟩ := Theory.bind_eq_error.mp hlayer
  · obtain ⟨-, rfl⟩ := failIf_eq_error.mp hfail
    exact Failure.sound_of_ne (by decide)
  obtain hfail | ⟨state, hstate, hlayer⟩ := Theory.bind_eq_error.mp hlayer
  · obtain ⟨done, step, rest, state, hsplit, -, hstep⟩ :=
      Theory.foldlM_error (fun _ _ => True) trivial (fun _ _ _ _ _ _ _ _ => trivial) hfail
    have hmem : step ∈ transitions entries (colorCount nodes quantum largeLimit r) := by
      rw [hsplit]
      exact List.mem_append_right _ List.mem_cons_self
    obtain ⟨⟨previous, index⟩, color⟩ := step
    obtain ⟨c, hkey, rfl⟩ := hkeyed.exists_coloring h
      (List.mem_of_getElem? (mem_transitions.mp hmem).1) color
    exact transition_error h hr hkey hstep
  obtain hfail | ⟨-, -, hlayer⟩ := Theory.bind_eq_error.mp hlayer
  · obtain ⟨hempty, rfl⟩ := failIf_eq_error.mp hfail
    rw [List.isEmpty_iff] at hempty
    rw [failIf_eq_ok, decide_eq_false_iff_not] at hsize
    rw [failIf_eq_ok, Bool.or_eq_false_iff, decide_eq_false_iff_not, decide_eq_false_iff_not] at hcount
    have hspec := foldlM_transition_spec h hr hkeyed hstate
    refine ⟨by decide, fun _ => ⟨⟨not_lt.mp hsize, not_lt.mp hcount.2⟩, fun entry hentry c hkey hfits => ?_⟩⟩
    obtain ⟨index, hindex, hget⟩ := List.getElem_of_mem hentry
    have hstep : ((entry, index), c r) ∈
        transitions entries (colorCount nodes quantum largeLimit r) := by
      refine mem_transitions.mpr ⟨?_, (c r).toNat, hfits.colored, by simp⟩
      rw [List.getElem?_eq_getElem hindex, hget]
    obtain ⟨kept, hkept, -⟩ := hspec.complete _ hstep c hkey rfl hfits.clear
    rw [hempty] at hkept
    cases hkept
  · cases hlayer

/-! ### The run -/

theorem Keyed.next (h : WindowsOk search nodes windows) (hkeyed : Keyed windows r entries)
    {layer : List DpEntry} (hext : (gridSweep h quantum largeLimit).Extends r
      (entries.map DpEntry.swept) (layer.map DpEntry.swept)) : Keyed windows (r + 1) layer := by
  intro entry hentry
  obtain ⟨previous, hget, hall⟩ := hext.sound _ (List.mem_map_of_mem hentry)
  obtain ⟨source, hsource, rfl⟩ := List.mem_map.mp (List.mem_of_getElem? hget)
  obtain ⟨c, hkey, hcolor⟩ := hkeyed.exists_coloring h hsource entry.assignedOffset
  exact ⟨c, (hall c hkey hcolor).2.1⟩

theorem gridLayers_ok (h : WindowsOk search nodes windows) {m : ℕ} {counters : UInt64 × UInt64 × UInt64}
    {result : List (List DpEntry) × UInt64 × UInt64 × UInt64} (hr : r + m ≤ nodes.length)
    (hkeyed : Keyed windows r entries)
    (hlayers : gridLayers search nodes options quantum largeLimit windows (List.range' r m) entries
      counters = .ok result) :
    result.1.length = m ∧ (∀ layer ∈ result.1, layer ≠ []) ∧
      ∀ i < m, Guarded nodes quantum largeLimit (r + i) ∧
        (gridSweep h quantum largeLimit).Extends (r + i)
          (((entries :: result.1).getD i []).map DpEntry.swept)
          ((result.1.getD i []).map DpEntry.swept) := by
  induction m generalizing r entries counters result with
  | zero =>
      obtain rfl := Except.ok.inj hlayers
      exact ⟨rfl, fun layer hmem => absurd hmem List.not_mem_nil, fun i hi => absurd hi (by omega)⟩
  | succ m ih =>
      rw [List.range'_succ] at hlayers
      unfold gridLayers at hlayers
      obtain ⟨layer, hlayer, hlayers⟩ := Theory.bind_eq_ok.mp hlayers
      obtain ⟨others, hothers, hlayers⟩ := Theory.bind_eq_ok.mp hlayers
      obtain rfl := Except.ok.inj hlayers
      obtain ⟨hguard, hne, hext⟩ := gridLayer_ok h (by omega) hkeyed hlayer
      obtain ⟨hlength, hnonempty, hall⟩ := ih (by omega) (hkeyed.next h hext) hothers
      refine ⟨by rw [List.length_cons, hlength], List.forall_mem_cons.mpr ⟨hne, hnonempty⟩,
        fun i hi => ?_⟩
      cases i with
      | zero => exact ⟨hguard, hext⟩
      | succ i =>
          obtain ⟨hguardNext, hextNext⟩ := hall i (by omega)
          rw [show r + (i + 1) = r + 1 + i by omega]
          exact ⟨hguardNext, hextNext⟩

theorem gridLayers_error (h : WindowsOk search nodes windows) {m : ℕ}
    {counters : UInt64 × UInt64 × UInt64} {failure : Failure} (hr : r + m ≤ nodes.length)
    (hkeyed : Keyed windows r entries)
    (hlayers : gridLayers search nodes options quantum largeLimit windows (List.range' r m) entries
      counters = .error failure) :
    failure.Sound (∃ s, r ≤ s ∧ s < nodes.length ∧
      (∀ k, r ≤ k → k ≤ s → Guarded nodes quantum largeLimit k) ∧
        ∀ entry ∈ entries, ∀ c, entry.key = (windowBefore windows r).map c →
          ¬ ∀ k, r ≤ k → k ≤ s → GridFits search nodes quantum largeLimit k c) := by
  induction m generalizing r entries counters with
  | zero => cases hlayers
  | succ m ih =>
      rw [List.range'_succ] at hlayers
      unfold gridLayers at hlayers
      obtain hfail | ⟨layer, hlayer, hlayers⟩ := Theory.bind_eq_error.mp hlayers
      · refine (gridLayer_error h (by omega) hkeyed hfail).mono fun ⟨hguard, hnone⟩ => ?_
        refine ⟨r, le_rfl, by omega, fun k hk hle => ?_, fun entry hentry c hkey hfits => ?_⟩
        · rwa [show k = r by omega]
        · exact hnone entry hentry c hkey (hfits r le_rfl le_rfl)
      · obtain ⟨hguard, -, hext⟩ := gridLayer_ok h (by omega) hkeyed hlayer
        obtain hfail | ⟨others, -, hlayers⟩ := Theory.bind_eq_error.mp hlayers
        · refine (ih (by omega) (hkeyed.next h hext) hfail).mono
            fun ⟨s, hrs, hs, hguards, hnone⟩ => ?_
          refine ⟨s, by omega, hs, fun k hk hle => ?_, fun entry hentry c hkey hfits => ?_⟩
          · obtain rfl | hlt := Nat.eq_or_lt_of_le hk
            · exact hguard
            · exact hguards k hlt hle
          · obtain ⟨kept, hkept, hkeptKey, -⟩ := hext.complete _ (List.mem_map_of_mem hentry) c hkey
              (hfits r le_rfl (by omega))
            obtain ⟨source, hsource, rfl⟩ := List.mem_map.mp hkept
            exact hnone source hsource c hkeptKey fun k hk hle => hfits k (by omega) hle
        · cases hlayers

/-- The layers as those of the sweep, the start first. -/
def sweptLayers (layers : List (List DpEntry)) (r : ℕ) : List (SweepEntry UInt32 Sat) :=
  (([{}] :: layers).getD r []).map DpEntry.swept

/-- Following the predecessors back is the trace of the sweep. -/
theorem followBack_eq (h : WindowsOk search nodes windows) {layers : List (List DpEntry)} {n : ℕ}
    (hrun : (gridSweep h quantum largeLimit).IsRun n (sweptLayers layers)) {r : ℕ} (hr : r ≤ n)
    {index : ℕ} {entry : SweepEntry UInt32 Sat} (hget : (sweptLayers layers r)[index]? = some entry) :
    followBack layers r index = (List.range r).map (Sweep.trace (sweptLayers layers) r index) := by
  induction r generalizing index entry with
  | zero => rfl
  | succ r ih =>
      have hgetMap := hget
      unfold sweptLayers at hgetMap
      rw [List.getD_cons_succ, List.getElem?_map, Option.map_eq_some_iff] at hgetMap
      obtain ⟨source, hsource, rfl⟩ := hgetMap
      obtain ⟨previous, hprevious, -⟩ := (hrun.steps r hr).sound _ (List.mem_of_getElem? hget)
      have htrace : Sweep.trace (sweptLayers layers) (r + 1) index =
          Function.update (Sweep.trace (sweptLayers layers) r source.predecessor) r
            source.assignedOffset := by
        rw [Sweep.trace, hget]
        rfl
      have hentry : (layers.getD r []).getD index {} = source := by
        rw [@List.getD_eq_getElem?_getD _ (layers.getD r []), hsource, Option.getD_some]
      unfold followBack
      dsimp only
      rw [hentry, @ih (by omega) source.predecessor _ hprevious, List.range_succ, List.map_append, List.map_singleton,
        htrace, Function.update_self]
      refine congrArg (· ++ _) (List.map_congr_left fun i hi => ?_)
      have := List.mem_range.mp hi
      rw [Function.update_of_ne (by omega)]

theorem minElement_spec {entries : List DpEntry} (hne : entries ≠ []) :
    ∃ entry ∈ entries, entries[minElement entries]? = some entry ∧
      ∀ other ∈ entries, entry.cost ≤ other.cost := by
  obtain ⟨head, hhead⟩ := List.exists_mem_of_ne_nil _ hne
  obtain ⟨least, hleast, hmin⟩ := Finset.exists_min_image entries.toFinset DpEntry.cost
    ⟨head, List.mem_toFinset.mpr hhead⟩
  have hlt : minElement entries < entries.length := by
    refine List.findIdx_lt_length_of_exists ⟨least, List.mem_toFinset.mp hleast, ?_⟩
    rw [List.all_eq_true]
    exact fun other hother => decide_eq_true (hmin other (List.mem_toFinset.mpr hother))
  have hall := @List.findIdx_getElem _ _ entries hlt
  rw [List.all_eq_true] at hall
  exact ⟨entries[minElement entries], List.getElem_mem hlt, List.getElem?_eq_getElem hlt,
    fun other hother => of_decide_eq_true (hall other hother)⟩

/-- The price of a colouring of the first `r` ranks. -/
def gridCost (search : ReusePenaltySearchSpace) (nodes : List TimedNode) (quantum : UInt64) (r : ℕ)
    (c : ℕ → UInt32) : Sat :=
  ((List.range r).map fun k => gridPrice search nodes quantum k c).sum

/-- What the run needs of the nodes. -/
structure GridOk (search : ReusePenaltySearchSpace) (nodes : List TimedNode) : Prop where
  timed : Timed nodes
  symm : ∀ r < nodes.length, ∀ s < nodes.length,
    IsNeighbor search (timedAt nodes r).node (timedAt nodes s).node →
      IsNeighbor search (timedAt nodes s).node (timedAt nodes r).node

theorem GridOk.windowsOk (h : GridOk search nodes) {span : ℕ} {partners : List ℕ × ℕ}
    (hpartners : lastPartners search nodes options (List.range nodes.length) span = .ok partners) :
    WindowsOk search nodes (buildWindows nodes partners.1) := by
  have hforall := lastPartners_spec hpartners
  refine buildWindows_ok h.timed h.symm fun r hr => ?_
  have hlength := hforall.length_eq
  rw [List.length_range] at hlength
  have := hforall.get (by simpa using hr) (by omega : r < partners.1.length)
  rw [List.getD_eq_getElem _ _ (by omega)]
  simpa using this

/-- The run returns a cheapest colouring that fits. -/
theorem runGridDp_ok (h : GridOk search nodes) {grid : GridResult}
    (hgrid : runGridDp search nodes options quantum largeLimit = .ok grid) :
    (∀ k < nodes.length, Guarded nodes quantum largeLimit k) ∧
      ∃ c, grid.colors = (List.range nodes.length).map c ∧
        (∀ k < nodes.length, GridFits search nodes quantum largeLimit k c) ∧
          (⟨grid.roundedCost⟩ : Sat) = gridCost search nodes quantum nodes.length c ∧
            ∀ c', (∀ k < nodes.length, GridFits search nodes quantum largeLimit k c') →
              (⟨grid.roundedCost⟩ : Sat) ≤ gridCost search nodes quantum nodes.length c' := by
  unfold runGridDp at hgrid
  obtain ⟨partners, hpartners, hgrid⟩ := Theory.bind_eq_ok.mp hgrid
  obtain ⟨run, hrun, hgrid⟩ := Theory.bind_eq_ok.mp hgrid
  obtain rfl := Except.ok.inj hgrid
  dsimp only
  have hwindows := h.windowsOk hpartners
  have hstart : Keyed (buildWindows nodes partners.1) 0 [{}] := fun entry hentry => by
    obtain rfl := List.mem_singleton.mp hentry
    exact ⟨fun _ => 0, rfl⟩
  rw [List.range_eq_range'] at hrun
  obtain ⟨hlength, hne, hall⟩ := gridLayers_ok hwindows (by omega) hstart hrun
  simp only [Nat.zero_add] at hall
  have hisRun : (gridSweep hwindows quantum largeLimit).IsRun nodes.length (sweptLayers run.1) :=
    ⟨fun entry hentry => by
      obtain rfl := List.mem_singleton.mp hentry
      exact ⟨rfl, rfl⟩, List.cons_ne_nil _ _, fun r hr => (hall r hr).2⟩
  refine ⟨fun k hk => (hall k hk).1, ?_⟩
  obtain hzero | hpos := Nat.eq_zero_or_pos nodes.length
  · -- without nodes the empty colouring costs nothing
    rw [hzero] at hlength ⊢
    rw [List.eq_nil_of_length_eq_zero hlength]
    exact ⟨fun _ => 0, rfl, fun k hk => absurd hk (Nat.not_lt_zero k), rfl, fun _ _ => le_refl _⟩
  · obtain ⟨m, hm⟩ := Nat.exists_eq_succ_of_ne_zero hpos.ne'
    have hlast : run.1.getD (nodes.length - 1) [] ∈ run.1 := by
      rw [List.getD_eq_getElem _ _ (by omega)]
      exact List.getElem_mem _
    obtain ⟨best, -, hbest, hleast⟩ := minElement_spec (hne _ hlast)
    have hlayer : sweptLayers run.1 nodes.length =
        (run.1.getD (nodes.length - 1) []).map DpEntry.swept := by
      unfold sweptLayers
      rw [hm, List.getD_cons_succ, Nat.succ_sub_one]
    have hget : (sweptLayers run.1 nodes.length)[minElement (run.1.getD (nodes.length - 1) [])]? =
        some best.swept := by
      rw [hlayer, List.getElem?_map, hbest]
      rfl
    have hcost : ((run.1.getD (nodes.length - 1) []).getD
        (minElement (run.1.getD (nodes.length - 1) [])) {}).cost = best.cost := by
      rw [@List.getD_eq_getElem?_getD _ (run.1.getD (nodes.length - 1) []), hbest, Option.getD_some]
    obtain ⟨hfits, -, hprice⟩ := hisRun.trace_spec le_rfl hget
    refine ⟨_, followBack_eq hwindows hisRun le_rfl hget, hfits, ?_, fun c' hfits' => ?_⟩
    · rw [hcost]
      exact hprice
    · obtain ⟨entry, hentry, -, hle⟩ := hisRun.exists_entry le_rfl hfits'
      rw [hlayer] at hentry
      obtain ⟨source, hsource, rfl⟩ := List.mem_map.mp hentry
      rw [hcost]
      exact le_trans (hleast source hsource) hle

/-- A failing run is no broken run; it claims infeasibility when some prefix of the ranks has no
colouring that fits. -/
theorem runGridDp_error (h : GridOk search nodes) {failure : Failure}
    (hgrid : runGridDp search nodes options quantum largeLimit = .error failure) :
    failure.Sound (∃ s < nodes.length, (∀ k ≤ s, Guarded nodes quantum largeLimit k) ∧
      ∀ c, ¬ ∀ k ≤ s, GridFits search nodes quantum largeLimit k c) := by
  unfold runGridDp at hgrid
  obtain hfail | ⟨partners, hpartners, hgrid⟩ := Theory.bind_eq_error.mp hgrid
  · exact lastPartners_error hfail
  obtain hfail | ⟨run, hrun, hgrid⟩ := Theory.bind_eq_error.mp hgrid
  · have hstart : Keyed (buildWindows nodes partners.1) 0 [{}] := fun entry hentry => by
      obtain rfl := List.mem_singleton.mp hentry
      exact ⟨fun _ => 0, rfl⟩
    rw [List.range_eq_range'] at hfail
    refine (gridLayers_error (h.windowsOk hpartners) (by omega) hstart hfail).mono
      fun ⟨s, _, hs, hguards, hnone⟩ => ?_
    refine ⟨s, hs, fun k hk => hguards k (Nat.zero_le k) hk, fun c hfits => ?_⟩
    exact hnone {} List.mem_cons_self c rfl fun k _ hk => hfits k hk
  · cases hgrid

end sweep

end ScaleGrid

end Dsa
