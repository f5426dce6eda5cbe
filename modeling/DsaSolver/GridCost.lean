import DsaSolver.GridSweep
import DsaSolver.Supports
import DsaSolver.Theory.GridRounding

/-! # The cost of a grid colouring

The price of a colouring is the weight of the pairs of large nodes whose rounded ranges overlap
(`gridCost_eq`), so it is at least the cost of the positions it stands for
(`LargeBand.cost_le`).  Conversely every valid placement, rounded to the grid, is a colouring
that fits and pays for no pair the placement does not pay for (`LargeBand.exists_coloring`). -/

namespace Dsa

namespace ScaleGrid

open Theory (Apart Sat gridIndex)

/-! ### Words -/

/-- The quotient rounded up counts the steps of the value aligned up. -/
theorem mul_ceilDivide {numerator denominator : UInt64} (h : denominator ≠ 0) :
    denominator.toNat * (ceilDivide numerator denominator).toNat =
      Theory.alignUp numerator.toNat denominator.toNat := by
  have hpos : 0 < denominator.toNat := Nat.pos_of_ne_zero (toNat_ne_zero h)
  have hdiv := Nat.div_add_mod numerator.toNat denominator.toNat
  have hmod := Nat.mod_lt numerator.toNat hpos
  unfold ceilDivide Theory.alignUp
  by_cases hzero : numerator.toNat % denominator.toNat = 0
  · rw [if_neg, UInt64.add_zero, UInt64.toNat_div, hzero, Nat.sub_zero, Nat.mod_self]
    · omega
    · rw [bne_iff_ne, not_not, ← UInt64.toNat_inj, UInt64.toNat_mod, hzero, UInt64.toNat_zero]
  · have hone : numerator.toNat / denominator.toNat + 1 < 2 ^ 64 := by
      have hlt := numerator.toNat_lt
      by_contra hge
      have hle : 2 ^ 64 - 1 ≤ numerator.toNat / denominator.toNat := by omega
      have := Nat.mul_le_mul_left denominator.toNat hle
      have := Nat.mul_le_mul_right (2 ^ 64 - 1) hpos
      omega
    rw [if_pos, Theory.toNat_add_of_lt, UInt64.toNat_div, UInt64.toNat_one, Nat.mul_succ,
      Nat.mod_eq_of_lt (by omega : denominator.toNat - numerator.toNat % denominator.toNat <
        denominator.toNat)]
    · omega
    · rw [UInt64.toNat_div, UInt64.toNat_one]
      exact hone
    · rw [bne_iff_ne, ne_eq, ← UInt64.toNat_inj, UInt64.toNat_mod, UInt64.toNat_zero]
      exact hzero

theorem le_mul_ceilDivide {numerator denominator : UInt64} (h : denominator ≠ 0) :
    numerator.toNat ≤ denominator.toNat * (ceilDivide numerator denominator).toNat := by
  rw [mul_ceilDivide h]
  exact Theory.le_alignUp _ _

/-! ### Colours and positions -/

section colors

variable {nodes : List TimedNode} {quantum largeLimit : UInt64}

theorem lt_colorCount_iff {r color : ℕ} (hquantum : quantum ≠ 0)
    (hsize : (timedAt nodes r).roundedSize ≤ largeLimit)
    (hpos : 0 < (timedAt nodes r).roundedSize.toNat) :
    color < (colorCount nodes quantum largeLimit r).toNat ↔
      color * quantum.toNat + (timedAt nodes r).roundedSize.toNat ≤ largeLimit.toNat := by
  have hq : 0 < quantum.toNat := Nat.pos_of_ne_zero (toNat_ne_zero hquantum)
  have hle := UInt64.le_iff_toNat_le.mp hsize
  have hlimit := largeLimit.toNat_lt
  have hroom : (largeLimit - (timedAt nodes r).roundedSize).toNat =
      largeLimit.toNat - (timedAt nodes r).roundedSize.toNat := UInt64.toNat_sub_of_le _ _ hsize
  have hdiv := Nat.div_le_self (largeLimit.toNat - (timedAt nodes r).roundedSize.toNat)
    quantum.toNat
  have hcount : (colorCount nodes quantum largeLimit r).toNat =
      (largeLimit.toNat - (timedAt nodes r).roundedSize.toNat) / quantum.toNat + 1 := by
    unfold colorCount
    rw [Theory.toNat_add_of_lt] <;> rw [UInt64.toNat_div, hroom, UInt64.toNat_one]
    omega
  rw [hcount, Nat.lt_succ_iff, Nat.le_div_iff_mul_le hq]
  omega

/-- The offset of a colour. -/
theorem toNat_colorOffset {color : UInt32} {size : ℕ}
    (h : color.toNat * quantum.toNat + size ≤ largeLimit.toNat) :
    (color.toUInt64 * quantum).toNat = color.toNat * quantum.toNat := by
  have hlimit := largeLimit.toNat_lt
  rw [UInt64.toNat_mul, UInt32.toNat_toUInt64, Nat.mod_eq_of_lt (by omega)]

/-- The rank's colour leaves its rounded range below the limit. -/
def Below (nodes : List TimedNode) (quantum largeLimit : UInt64) (c : ℕ → UInt32) (r : ℕ) : Prop :=
  (c r).toNat * quantum.toNat + (timedAt nodes r).roundedSize.toNat ≤ largeLimit.toNat

theorem roundedOverlap_iff {c : ℕ → UInt32} {i j : ℕ} (hi : Below nodes quantum largeLimit c i)
    (hj : Below nodes quantum largeLimit c j) (hposI : 0 < (timedAt nodes i).roundedSize.toNat)
    (hposJ : 0 < (timedAt nodes j).roundedSize.toNat) :
    roundedOverlap nodes i (c i) quantum j (c j) = false ↔
      Apart ((c i).toNat * quantum.toNat) (timedAt nodes i).roundedSize.toNat
        ((c j).toNat * quantum.toNat) (timedAt nodes j).roundedSize.toNat := by
  have hlimit := largeLimit.toNat_lt
  have hne : ∀ {size : UInt64}, 0 < size.toNat → size ≠ 0 := fun hsize hzero => by
    rw [hzero, UInt64.toNat_zero] at hsize
    exact absurd hsize (lt_irrefl 0)
  have hoffI := toNat_colorOffset hi
  have hoffJ := toNat_colorOffset hj
  unfold Below at hi hj
  unfold roundedOverlap
  rw [addressRangesOverlap_eq_false_iff (hne hposI) (hne hposJ) (by omega) (by omega), hoffI, hoffJ]

theorem roundedOverlap_comm (c : ℕ → UInt32) (i j : ℕ) :
    roundedOverlap nodes i (c i) quantum j (c j) = roundedOverlap nodes j (c j) quantum i (c i) :=
  addressRangesOverlap_comm _ _ _ _

/-! ### The cost as a weight of pairs -/

/-- The nodes of the pair have ranks below `r` and overlap once rounded. -/
def gridPair (nodes : List TimedNode) (quantum : UInt64) (c : ℕ → UInt32) (r : ℕ)
    (pair : ℕ × ℕ) : Bool :=
  match rankOf nodes pair.1, rankOf nodes pair.2 with
  | some i, some j =>
      decide (i < r) && decide (j < r) && roundedOverlap nodes i (c i) quantum j (c j)
  | _, _ => false

theorem gridPair_eq_true {c : ℕ → UInt32} {r : ℕ} {pair : ℕ × ℕ} :
    gridPair nodes quantum c r pair = true ↔ ∃ i < r, ∃ j < r, rankOf nodes pair.1 = some i ∧
      rankOf nodes pair.2 = some j ∧ roundedOverlap nodes i (c i) quantum j (c j) = true := by
  unfold gridPair
  cases hi : rankOf nodes pair.1 with
  | none => simp
  | some i =>
      cases hj : rankOf nodes pair.2 with
      | none => simp
      | some j => simp [and_assoc]

variable {problem : DsaProblem}

theorem gridCost_eq (h : SearchOk problem) (htimed : Timed nodes)
    (hnodes : ∀ r < nodes.length, (timedAt nodes r).node < problem.search.count)
    {c : ℕ → UInt32} {r : ℕ} (hr : r ≤ nodes.length) :
    gridCost problem.search nodes quantum r c =
      weightOf problem fun pair => gridPair nodes quantum c r pair = true := by
  induction r with
  | zero =>
      have hnone : ∀ pair, gridPair nodes quantum c 0 pair = false := by
        intro pair
        rw [← Bool.not_eq_true, gridPair_eq_true]
        rintro ⟨i, hi, -⟩
        exact Nat.not_lt_zero i hi
      unfold weightOf Theory.total
      simp [gridCost, hnone]
  | succ r ih =>
      have hsum : gridCost problem.search nodes quantum (r + 1) c =
          gridCost problem.search nodes quantum r c + gridPrice problem.search nodes quantum r c := by
        unfold gridCost
        rw [List.range_succ, List.map_append, List.sum_append]
        simp
      rw [hsum, ih (by omega)]
      unfold gridPrice
      rw [softNeighbors_sum h (hnodes r hr) (meets nodes quantum r c)]
      unfold weightOf
      rw [← Theory.total_add]
      refine Theory.total_congr fun entry he => ?_
      obtain ⟨hlt, -, -, -⟩ := softWeights_pair h he
      obtain ⟨⟨k, l⟩, weight⟩ := entry
      dsimp only at hlt ⊢
      have hrank : rankOf nodes (timedAt nodes r).node = some r := rankOf_timedAt htimed hr
      have hsame : ∀ {node i}, rankOf nodes node = some i →
          (node = (timedAt nodes r).node ↔ i = r) := by
        intro node i hi
        constructor
        · rintro rfl
          exact Option.some.inj (hi.symm.trans hrank)
        · rintro rfl
          exact ((rankOf_eq_some htimed).mp hi).2.symm
      have hother : ∀ {node}, rankOf nodes node = none → node ≠ (timedAt nodes r).node := by
        rintro node hi rfl
        rw [hrank] at hi
        cases hi
      cases hi : rankOf nodes k with
      | none => simp [gridPair, hi, hother hi, meets_of_none hi]
      | some i =>
          cases hj : rankOf nodes l with
          | none => simp [gridPair, hi, hj, hother hj, meets_of_none hj]
          | some j =>
              have hne : i ≠ j := by
                rintro rfl
                have := ((rankOf_eq_some htimed).mp hi).2.symm.trans ((rankOf_eq_some htimed).mp hj).2
                omega
              have hpair : ∀ m, gridPair nodes quantum c m (k, l) = true ↔
                  i < m ∧ j < m ∧ roundedOverlap nodes i (c i) quantum j (c j) = true := by
                intro m
                unfold gridPair
                rw [hi, hj]
                simp [and_assoc]
              rw [if_congr (hpair (r + 1)) rfl rfl, if_congr (hpair r) rfl rfl,
                if_congr (or_congr (and_congr_left' (hsame hi))
                  (and_congr (not_congr (hsame hi)) (and_congr_left' (hsame hj)))) rfl rfl]
              by_cases hir : i = r
              · subst hir
                by_cases hlt' : j < i
                · rw [meets_of_lt hj hlt', roundedOverlap_comm]
                  simp [hlt', Nat.lt_succ_of_lt hlt']
                · rw [meets_of_le hj (not_lt.mp hlt')]
                  have : ¬ j < i + 1 := by omega
                  simp [this]
              · by_cases hjr : j = r
                · subst hjr
                  by_cases hlt' : i < j
                  · rw [meets_of_lt hi hlt', roundedOverlap_comm]
                    simp [hlt', Nat.lt_succ_of_lt hlt', hir]
                  · rw [meets_of_le hi (not_lt.mp hlt')]
                    have : ¬ i < j + 1 := by omega
                    simp [this, hir]
                · have hlt1 : i < r + 1 ↔ i < r := by omega
                  have hlt2 : j < r + 1 ↔ j < r := by omega
                  simp [hir, hjr, hlt1, hlt2]

end colors

/-! ### The large band -/

/-- The large nodes with their hulls and rounded sizes, sorted by birth. -/
structure LargeBand (problem : DsaProblem) (large : List ℕ) (quantum : UInt64)
    (timed : List TimedNode) : Prop where
  grid : GridOk problem.search timed
  ranked : ∀ node, node ∈ large ↔ ∃ r, rankOf timed node = some r
  rounded : ∀ r < timed.length, (timedAt timed r).roundedSize.toNat =
    Theory.alignUp (nodeSize problem (timedAt timed r).node) quantum.toNat
  lt : ∀ node ∈ large, node < problem.search.count

namespace LargeBand

variable {problem : DsaProblem} {large : List ℕ} {quantum largeLimit : UInt64}
  {timed : List TimedNode} {c : ℕ → UInt32} {q : ℕ → ℕ}

theorem node_lt (b : LargeBand problem large quantum timed) {r : ℕ} (hr : r < timed.length) :
    (timedAt timed r).node < problem.search.count :=
  b.lt _ ((b.ranked _).mpr ⟨r, rankOf_timedAt b.grid.timed hr⟩)

theorem size_le (b : LargeBand problem large quantum timed) {node r : ℕ}
    (hr : rankOf timed node = some r) :
    nodeSize problem node ≤ (timedAt timed r).roundedSize.toNat := by
  obtain ⟨hlt, rfl⟩ := (rankOf_eq_some b.grid.timed).mp hr
  rw [b.rounded r hlt]
  exact Theory.le_alignUp _ _

theorem rounded_pos (b : LargeBand problem large quantum timed) (h : SearchOk problem) {r : ℕ}
    (hr : r < timed.length) : 0 < (timedAt timed r).roundedSize.toNat :=
  lt_of_lt_of_le (h.size_pos (b.node_lt hr)) (b.size_le (rankOf_timedAt b.grid.timed hr))

/-- A colour of the rank leaves its rounded range below the limit. -/
theorem below (b : LargeBand problem large quantum timed) (h : SearchOk problem)
    (hquantum : quantum ≠ 0) {r : ℕ} (hr : r < timed.length)
    (hguard : Guarded timed quantum largeLimit r)
    (hfits : GridFits problem.search timed quantum largeLimit r c) :
    Below timed quantum largeLimit c r :=
  (lt_colorCount_iff hquantum hguard.size (b.rounded_pos h hr)).mp hfits.colored

/-- The nodes are at the offsets of their colours. -/
def AtColors (timed : List TimedNode) (quantum : UInt64) (c : ℕ → UInt32) (q : ℕ → ℕ) : Prop :=
  ∀ node r, rankOf timed node = some r → q node = (c r).toNat * quantum.toNat

/-- Rounded ranges that are apart keep the nodes apart. -/
theorem apart_of_rounded (b : LargeBand problem large quantum timed)
    (hq : AtColors timed quantum c q) {k l i j : ℕ} (hi : rankOf timed k = some i)
    (hj : rankOf timed l = some j)
    (hapart : Apart ((c i).toNat * quantum.toNat) (timedAt timed i).roundedSize.toNat
      ((c j).toNat * quantum.toNat) (timedAt timed j).roundedSize.toNat) :
    NodesApart problem q k l := by
  have hk := b.size_le hi
  have hl := b.size_le hj
  unfold NodesApart
  rw [hq k i hi, hq l j hj]
  unfold Apart at hapart ⊢
  omega

variable (h : SearchOk problem) (hquantum : quantum ≠ 0)
  (hguards : ∀ r < timed.length, Guarded timed quantum largeLimit r)

include h hquantum hguards

theorem overlap_iff (b : LargeBand problem large quantum timed)
    (hfits : ∀ r < timed.length, GridFits problem.search timed quantum largeLimit r c) {i j : ℕ}
    (hi : i < timed.length) (hj : j < timed.length) :
    roundedOverlap timed i (c i) quantum j (c j) = false ↔
      Apart ((c i).toNat * quantum.toNat) (timedAt timed i).roundedSize.toNat
        ((c j).toNat * quantum.toNat) (timedAt timed j).roundedSize.toNat :=
  roundedOverlap_iff (b.below h hquantum hi (hguards i hi) (hfits i hi))
    (b.below h hquantum hj (hguards j hj) (hfits j hj)) (b.rounded_pos h hi) (b.rounded_pos h hj)

/-- Conflicting large nodes are apart. -/
theorem apart (b : LargeBand problem large quantum timed)
    (hfits : ∀ r < timed.length, GridFits problem.search timed quantum largeLimit r c)
    (hq : AtColors timed quantum c q) {k l : ℕ} (hk : k ∈ large) (hl : l ∈ large)
    (hconflict : NodesConflict problem k l) : NodesApart problem q k l := by
  have key : ∀ {k l i j : ℕ}, rankOf timed k = some i → rankOf timed l = some j → j < i →
      NodesConflict problem k l → NodesApart problem q k l := by
    intro k l i j hi hj hlt hconflict
    obtain ⟨hir, rfl⟩ := (rankOf_eq_some b.grid.timed).mp hi
    obtain ⟨hjr, rfl⟩ := (rankOf_eq_some b.grid.timed).mp hj
    have hclear := (hfits i hir).clear _
      ((h.mem_hardNeighborsOf (b.node_lt hir) _).mpr ⟨b.node_lt hjr, hconflict⟩)
    rw [meets_of_lt hj hlt, b.overlap_iff h hquantum hguards hfits hir hjr] at hclear
    exact b.apart_of_rounded hq hi hj hclear
  obtain ⟨i, hi⟩ := (b.ranked k).mp hk
  obtain ⟨j, hj⟩ := (b.ranked l).mp hl
  obtain hlt | rfl | hlt := lt_trichotomy i j
  · exact nodesApart_comm.mp (key hj hi hlt hconflict.symm)
  · have := ((rankOf_eq_some b.grid.timed).mp hi).2.symm.trans
      ((rankOf_eq_some b.grid.timed).mp hj).2
    exact absurd this hconflict.ne
  · exact key hi hj hlt hconflict

/-- The rounded cost bounds the cost paid among the large nodes. -/
theorem cost_le (b : LargeBand problem large quantum timed)
    (hfits : ∀ r < timed.length, GridFits problem.search timed quantum largeLimit r c)
    (hq : AtColors timed quantum c q) :
    (weightOf problem fun pair => pair.1 ∈ large ∧ pair.2 ∈ large ∧
      ¬ NodesApart problem q pair.1 pair.2) ≤
        gridCost problem.search timed quantum timed.length c := by
  rw [gridCost_eq h b.grid.timed (fun r hr => b.node_lt hr) le_rfl]
  refine weightOf_mono h fun pair _ _ _ ⟨hk, hl, hover⟩ => ?_
  obtain ⟨i, hi⟩ := (b.ranked pair.1).mp hk
  obtain ⟨j, hj⟩ := (b.ranked pair.2).mp hl
  have hir := ((rankOf_eq_some b.grid.timed).mp hi).1
  have hjr := ((rankOf_eq_some b.grid.timed).mp hj).1
  refine gridPair_eq_true.mpr ⟨i, hir, j, hjr, hi, hj, ?_⟩
  rw [← Bool.not_eq_false, b.overlap_iff h hquantum hguards hfits hir hjr]
  exact fun hapart => hover (b.apart_of_rounded hq hi hj hapart)

end LargeBand

/-! ### Rounding a valid placement -/

/-- The colours of a placement rounded to the grid. -/
def roundedColors (timed : List TimedNode) (epsilon : ℕ) (quantum : UInt64) (p : ℕ → ℕ) (r : ℕ) :
    UInt32 :=
  UInt32.ofNat (gridIndex epsilon quantum.toNat (p (timedAt timed r).node))

/-- A placement of the large nodes below the capacity, with what the grid needs of the sizes. -/
structure Roundable (problem : DsaProblem) (large : List ℕ) (epsilon : ℕ)
    (quantum largeLimit : UInt64) (p : ℕ → ℕ) : Prop where
  epsilonPos : 0 < epsilon
  quantumNe : quantum ≠ 0
  sizes : ∀ node ∈ large, epsilon * quantum.toNat ≤ nodeSize problem node
  below : ∃ capacity slack, largeLimit.toNat = capacity + slack ∧ capacity ≤ epsilon * slack ∧
    ∀ node ∈ large, p node + nodeSize problem node ≤ capacity
  apart : ∀ k ∈ large, ∀ l ∈ large, NodesConflict problem k l → NodesApart problem p k l

namespace Roundable

variable {problem : DsaProblem} {large : List ℕ} {quantum largeLimit : UInt64}
  {timed : List TimedNode} {epsilon : ℕ} {p : ℕ → ℕ}

theorem quantum_pos (hp : Roundable problem large epsilon quantum largeLimit p) :
    0 < quantum.toNat := Nat.pos_of_ne_zero (toNat_ne_zero hp.quantumNe)

theorem node_mem (b : LargeBand problem large quantum timed) {r : ℕ} (hr : r < timed.length) :
    (timedAt timed r).node ∈ large :=
  (b.ranked _).mpr ⟨r, rankOf_timedAt b.grid.timed hr⟩

/-- The rounded position fits below the enlarged limit. -/
theorem top_le (hp : Roundable problem large epsilon quantum largeLimit p)
    (b : LargeBand problem large quantum timed) {r : ℕ} (hr : r < timed.length) :
    gridIndex epsilon quantum.toNat (p (timedAt timed r).node) * quantum.toNat +
      (timedAt timed r).roundedSize.toNat ≤ largeLimit.toNat := by
  obtain ⟨capacity, slack, hlimit, hslack, hbelow⟩ := hp.below
  rw [hlimit, b.rounded r hr]
  exact Theory.gridIndex_top hp.epsilonPos hp.quantum_pos (hp.sizes _ (node_mem b hr))
    (hbelow _ (node_mem b hr)) hslack

theorem toNat_roundedColors (hp : Roundable problem large epsilon quantum largeLimit p)
    (b : LargeBand problem large quantum timed) (h : SearchOk problem) {r : ℕ}
    (hr : r < timed.length) (hguard : Guarded timed quantum largeLimit r) :
    (roundedColors timed epsilon quantum p r).toNat =
      gridIndex epsilon quantum.toNat (p (timedAt timed r).node) := by
  have hlt := (lt_colorCount_iff hp.quantumNe hguard.size (b.rounded_pos h hr)).mpr (hp.top_le b hr)
  have hcount := hguard.count
  unfold roundedColors
  exact UInt32.toNat_ofNat_of_lt' (by show _ < 2 ^ 32; omega)

theorem below_roundedColors (hp : Roundable problem large epsilon quantum largeLimit p)
    (b : LargeBand problem large quantum timed) (h : SearchOk problem) {r : ℕ}
    (hr : r < timed.length) (hguard : Guarded timed quantum largeLimit r) :
    Below timed quantum largeLimit (roundedColors timed epsilon quantum p) r := by
  unfold Below
  rw [hp.toNat_roundedColors b h hr hguard]
  exact hp.top_le b hr

/-- Nodes that are apart stay apart once rounded. -/
theorem overlap_eq_false (hp : Roundable problem large epsilon quantum largeLimit p)
    (b : LargeBand problem large quantum timed) (h : SearchOk problem) {i j : ℕ}
    (hi : i < timed.length) (hj : j < timed.length) (hguardI : Guarded timed quantum largeLimit i)
    (hguardJ : Guarded timed quantum largeLimit j)
    (hapart : NodesApart problem p (timedAt timed i).node (timedAt timed j).node) :
    roundedOverlap timed i (roundedColors timed epsilon quantum p i) quantum j
      (roundedColors timed epsilon quantum p j) = false := by
  rw [roundedOverlap_iff (hp.below_roundedColors b h hi hguardI)
    (hp.below_roundedColors b h hj hguardJ) (b.rounded_pos h hi) (b.rounded_pos h hj),
    hp.toNat_roundedColors b h hi hguardI, hp.toNat_roundedColors b h hj hguardJ, b.rounded i hi,
    b.rounded j hj]
  exact Theory.gridIndex_apart hp.epsilonPos hp.quantum_pos (hp.sizes _ (node_mem b hi))
    (hp.sizes _ (node_mem b hj)) hapart

/-- A rounded placement fits the grid. -/
theorem fits (hp : Roundable problem large epsilon quantum largeLimit p)
    (b : LargeBand problem large quantum timed) (h : SearchOk problem) {r : ℕ}
    (hr : r < timed.length) (hguards : ∀ k ≤ r, Guarded timed quantum largeLimit k) :
    GridFits problem.search timed quantum largeLimit r (roundedColors timed epsilon quantum p) where
  colored := (lt_colorCount_iff hp.quantumNe (hguards r le_rfl).size (b.rounded_pos h hr)).mpr
    (hp.below_roundedColors b h hr (hguards r le_rfl))
  clear := by
    intro neighbor hmem
    cases hj : rankOf timed neighbor with
    | none => exact meets_of_none hj
    | some j =>
        by_cases hlt : j < r
        · rw [meets_of_lt hj hlt]
          obtain ⟨hjr, rfl⟩ := (rankOf_eq_some b.grid.timed).mp hj
          obtain ⟨-, hconflict⟩ := (h.mem_hardNeighborsOf (b.node_lt hr) _).mp hmem
          exact hp.overlap_eq_false b h hr hjr (hguards r le_rfl) (hguards j hlt.le)
            (hp.apart _ (node_mem b hr) _ (node_mem b hjr) hconflict)
        · exact meets_of_le hj (not_lt.mp hlt)

/-- Rounding pays for no pair that the placement does not pay for. -/
theorem cost_le (hp : Roundable problem large epsilon quantum largeLimit p)
    (b : LargeBand problem large quantum timed) (h : SearchOk problem)
    (hguards : ∀ r < timed.length, Guarded timed quantum largeLimit r) :
    gridCost problem.search timed quantum timed.length (roundedColors timed epsilon quantum p) ≤
      weightOf problem fun pair => pair.1 ∈ large ∧ pair.2 ∈ large ∧
        ¬ NodesApart problem p pair.1 pair.2 := by
  rw [gridCost_eq h b.grid.timed (fun r hr => b.node_lt hr) le_rfl]
  refine weightOf_mono h fun pair _ _ _ hpair => ?_
  obtain ⟨i, hir, j, hjr, hi, hj, hover⟩ := gridPair_eq_true.mp hpair
  refine ⟨(b.ranked _).mpr ⟨i, hi⟩, (b.ranked _).mpr ⟨j, hj⟩, fun hapart => ?_⟩
  rw [← ((rankOf_eq_some b.grid.timed).mp hi).2, ← ((rankOf_eq_some b.grid.timed).mp hj).2] at hapart
  rw [hp.overlap_eq_false b h hir hjr (hguards i hir) (hguards j hjr) hapart] at hover
  cases hover

end Roundable

end ScaleGrid

end Dsa
