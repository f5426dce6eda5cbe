import DsaSolver.CanonicalSearch
import DsaSolver.Supports

/-! # Placements of one pool

The canonical search decides about the nodes of one pool: `Placed` and `Aligned` are their
constraints, `score` is the `PoolScore` of their offsets.  Below every aligned placement lies one
in which every node rests on a support, of a score at most as large (`exists_settled`). -/

namespace Dsa

namespace PoolCanonicalSearch

open Theory (Sat)

variable {problem : DsaProblem} {pool : PoolId}

/-! ### The nodes of a pool -/

theorem mem_poolNodes {search : ReusePenaltySearchSpace} {n : ℕ} :
    n ∈ poolNodes search pool ↔ n < search.count ∧ (search.nodeAt n).pool = pool := by
  unfold poolNodes
  rw [List.mem_insertionSort, List.mem_filter, List.mem_range, beq_iff_eq]

theorem lt_of_mem_poolNodes {search : ReusePenaltySearchSpace} {n : ℕ}
    (h : n ∈ poolNodes search pool) : n < search.count := (mem_poolNodes.mp h).1

theorem nodup_poolNodes (search : ReusePenaltySearchSpace) : (poolNodes search pool).Nodup :=
  (List.perm_insertionSort _ _).nodup_iff.mpr (List.nodup_range.filter _)

/-- The nodes of the pool are inside it and clear of each other. -/
structure Placed (problem : DsaProblem) (pool : PoolId) (q : ℕ → ℕ) : Prop where
  room : ∀ n ∈ poolNodes problem.search pool, NodeRoom problem n (q n)
  apart : ∀ n ∈ poolNodes problem.search pool, ∀ m ∈ poolNodes problem.search pool,
    NodesConflict problem n m → NodesApart problem q n m

def Aligned (problem : DsaProblem) (pool : PoolId) (q : ℕ → ℕ) : Prop :=
  ∀ n ∈ poolNodes problem.search pool, (problem.search.nodeAt n).alignment.toNat ∣ q n

/-- The offset vector of a position vector. -/
def offsetVector (problem : DsaProblem) (q : ℕ → ℕ) : List UInt64 :=
  (List.range problem.search.count).map fun n => UInt64.ofNat (q n)

/-- The `PoolScore` of an offset vector. -/
def score (problem : DsaProblem) (pool : PoolId) (offsets : List UInt64) : Score :=
  poolScore problem (poolReuseCost problem.search pool offsets)
    (peakOf problem problem.search pool offsets)

theorem positions_offsetVector {q : ℕ → ℕ} {n : ℕ} (hn : n < problem.search.count)
    (hlt : q n < 2 ^ 64) : positions (offsetVector problem q) n = q n := by
  unfold positions offsetVector
  rw [List.getD_eq_getElem _ _ (by simpa using hn), List.getElem_map, List.getElem_range,
    UInt64.toNat_ofNat', Nat.mod_eq_of_lt hlt]

theorem Placed.lt {q : ℕ → ℕ} (h : Placed problem pool q) {n : ℕ}
    (hn : n ∈ poolNodes problem.search pool) : q n + nodeSize problem n < 2 ^ 64 := (h.room n hn).lt

theorem Placed.positions_offsetVector {q : ℕ → ℕ} (h : Placed problem pool q) {n : ℕ}
    (hn : n ∈ poolNodes problem.search pool) : positions (offsetVector problem q) n = q n := by
  have := h.lt hn
  exact PoolCanonicalSearch.positions_offsetVector (lt_of_mem_poolNodes hn) (by omega)

theorem Placed.congr {q q' : ℕ → ℕ} (h : Placed problem pool q)
    (he : ∀ n ∈ poolNodes problem.search pool, q' n = q n) : Placed problem pool q' where
  room n hn := by
    rw [he n hn]
    exact h.room n hn
  apart n hn m hm hc := by
    have := h.apart n hn m hm hc
    unfold NodesApart at this ⊢
    rwa [he n hn, he m hm]

theorem Aligned.congr {q q' : ℕ → ℕ} (h : Aligned problem pool q)
    (he : ∀ n ∈ poolNodes problem.search pool, q' n = q n) : Aligned problem pool q' := by
  intro n hn
  rw [he n hn]
  exact h n hn

/-! ### Scores -/

theorem poolScore_le {cost cost' peak peak' : UInt64} (hcost : cost ≤ cost')
    (hpeak : peak ≤ peak') : poolScore problem cost peak ≤ poolScore problem cost' peak' := by
  apply Theory.map_le_map
  intro metric _
  cases metric with
  | capacityOverflow => exact le_rfl
  | bankCost => exact le_rfl
  | reuseCost => exact hcost
  | totalPeak => exact hpeak
  | maxPeak => exact hpeak

theorem peakOf_le_iff {search : ReusePenaltySearchSpace} {offsets : List UInt64} {bound : UInt64} :
    peakOf problem search pool offsets ≤ bound ↔ reservedPeak problem pool ≤ bound ∧
      ∀ n ∈ poolNodes search pool, offsets.getD n 0 + (search.nodeAt n).size ≤ bound :=
  Theory.foldl_max_le_iff _ _ _ _

/-- The cost between the nodes of a pool. -/
def poolCost (problem : DsaProblem) (pool : PoolId) (q : ℕ → ℕ) : Sat :=
  partialCost problem (fun n => decide (n ∈ poolNodes problem.search pool)) q

theorem poolReuseCost_eq (h : SearchOk problem) {offsets : List UInt64}
    (hplaced : Placed problem pool (positions offsets)) :
    (⟨poolReuseCost problem.search pool offsets⟩ : Sat) =
      poolCost problem pool (positions offsets) := by
  have h0 : (⟨0⟩ : Sat) = 0 := rfl
  unfold poolReuseCost poolCost partialCost weightOf Theory.total
  rw [Theory.foldl_satAdd, h0, zero_add]
  refine congrArg List.sum (List.map_congr_left fun entry hmem => ?_)
  obtain ⟨hlt, hcount, hsame, -⟩ := softWeights_pair h hmem
  refine if_congr ?_ rfl rfl
  have hfirst : entry.1.1 ∈ poolNodes problem.search pool ↔
      (problem.search.nodeAt entry.1.1).pool = pool := by
    rw [mem_poolNodes]
    exact and_iff_right (hlt.trans hcount)
  have hsecond : entry.1.2 ∈ poolNodes problem.search pool ↔
      (problem.search.nodeAt entry.1.1).pool = pool := by
    rw [mem_poolNodes, hsame]
    exact and_iff_right hcount
  dsimp only
  rw [decide_eq_true_iff, decide_eq_true_iff, hfirst, hsecond, Bool.and_eq_true, beq_iff_eq,
    ← and_assoc, and_self]
  apply and_congr_right
  intro hpool
  exact overlapsNode_iff h (hlt.trans hcount) hcount (hplaced.lt (hfirst.mpr hpool))
    (hplaced.lt (hsecond.mpr hpool))

/-- Lower positions without new overlaps of weighted pairs have a score at most as large. -/
theorem score_le (h : SearchOk problem) {first second : List UInt64}
    (hfirst : Placed problem pool (positions first))
    (hsecond : Placed problem pool (positions second))
    (hle : ∀ n ∈ poolNodes problem.search pool, positions first n ≤ positions second n)
    (hapart : ∀ entry ∈ problem.search.softWeights.toList,
      entry.1.1 ∈ poolNodes problem.search pool → entry.1.2 ∈ poolNodes problem.search pool →
        NodesApart problem (positions second) entry.1.1 entry.1.2 →
          NodesApart problem (positions first) entry.1.1 entry.1.2) :
    score problem pool first ≤ score problem pool second := by
  apply poolScore_le
  · have hcost : poolCost problem pool (positions first) ≤
        poolCost problem pool (positions second) := by
      unfold poolCost partialCost weightOf
      apply Theory.total_le
      intro entry hmem
      dsimp only
      split_ifs with h1 h2 h2
      · exact le_rfl
      · exfalso
        obtain ⟨hk, hl, hnot⟩ := h1
        refine h2 ⟨hk, hl, fun hsep => hnot ?_⟩
        exact hapart entry hmem (of_decide_eq_true hk) (of_decide_eq_true hl) hsep
      · exact Theory.Sat.zero_le _
      · exact le_rfl
    rw [← poolReuseCost_eq h hfirst, ← poolReuseCost_eq h hsecond] at hcost
    exact hcost
  · apply peakOf_le_iff.mpr
    obtain ⟨hreserved, htop⟩ := peakOf_le_iff.mp
      (le_refl (peakOf problem problem.search pool second))
    refine ⟨hreserved, fun n hn => le_trans ?_ (htop n hn)⟩
    rw [UInt64.le_iff_toNat_le, Theory.toNat_add_of_lt (hfirst.lt hn),
      Theory.toNat_add_of_lt (hsecond.lt hn)]
    exact Nat.add_le_add_right (hle n hn) _

/-! ### The settled placements -/

/-- The packing of the nodes of a pool. -/
def poolPacking (h : SearchOk problem) (pool : PoolId) : Theory.Packing ℕ :=
  { nodePacking h with
    items := (poolNodes problem.search pool).toFinset
    sizePos := fun _ hn => h.size_pos (lt_of_mem_poolNodes (List.mem_toFinset.mp hn))
    alignmentPos := fun _ hn => h.alignment_pos (lt_of_mem_poolNodes (List.mem_toFinset.mp hn)) }

/-- The search pays for an overlap of the two nodes. -/
def Weighted (problem : DsaProblem) (n m : ℕ) : Prop :=
  ∃ weight, ((n, m), weight) ∈ problem.search.softWeights.toList ∨
    ((m, n), weight) ∈ problem.search.softWeights.toList

theorem poolPacking_valid_iff (h : SearchOk problem) {q : ℕ → ℕ} :
    (poolPacking h pool).Valid q ↔ Placed problem pool q ∧ Aligned problem pool q := by
  have hfits : ∀ {n a : ℕ}, n ∈ poolNodes problem.search pool →
      ((poolPacking h pool).FitsAt n a ↔
        (problem.search.nodeAt n).alignment.toNat ∣ a ∧ NodeRoom problem n a) := by
    intro n a hn
    rw [← fitsAt_iff_room h (lt_of_mem_poolNodes hn)]
    exact ⟨fun hf => ⟨hf.aligned, hf.within, hf.clear⟩, fun hf => ⟨hf.aligned, hf.within, hf.clear⟩⟩
  have hitems : ∀ {n : ℕ}, n ∈ (poolPacking h pool).items ↔ n ∈ poolNodes problem.search pool :=
    List.mem_toFinset
  constructor
  · intro hv
    refine ⟨⟨fun n hn => ?_, fun n hn m hm hc => ?_⟩, fun n hn => ?_⟩
    · exact ((hfits hn).mp (hv.fits n (hitems.mpr hn))).2
    · exact hv.apart n (hitems.mpr hn) m (hitems.mpr hm) hc
    · exact ((hfits hn).mp (hv.fits n (hitems.mpr hn))).1
  · rintro ⟨hplaced, haligned⟩
    refine ⟨fun n hn => ?_, fun n hn m hm hc => ?_⟩
    · exact (hfits (hitems.mp hn)).mpr ⟨haligned n (hitems.mp hn), hplaced.room n (hitems.mp hn)⟩
    · exact hplaced.apart n (hitems.mp hn) m (hitems.mp hm) hc

/-- Every node of the pool rests on a support. -/
def Settled (h : SearchOk problem) (pool : PoolId) (q : ℕ → ℕ) : Prop :=
  ∀ n ∈ poolNodes problem.search pool, (poolPacking h pool).Supported (Weighted problem) q n

/-- **Below every aligned placement lies a settled one.** -/
theorem exists_settled (h : SearchOk problem) {q : ℕ → ℕ} (hplaced : Placed problem pool q)
    (haligned : Aligned problem pool q) :
    ∃ target : List UInt64, Placed problem pool (positions target) ∧
      Aligned problem pool (positions target) ∧ Settled h pool (positions target) ∧
        score problem pool target ≤ score problem pool (offsetVector problem q) := by
  have hsymm : ∀ n m, Weighted problem n m → Weighted problem m n := by
    rintro n m ⟨weight, hmem⟩
    exact ⟨weight, hmem.symm⟩
  obtain ⟨q', hvalid, hle, hsupported, hkeep⟩ :=
    ((poolPacking_valid_iff h).mpr ⟨hplaced, haligned⟩).exists_settled hsymm
  obtain ⟨hplaced', haligned'⟩ := (poolPacking_valid_iff h).mp hvalid
  have hsame : ∀ n ∈ poolNodes problem.search pool, positions (offsetVector problem q') n = q' n :=
    fun n hn => hplaced'.positions_offsetVector hn
  have hsameq : ∀ n ∈ poolNodes problem.search pool, positions (offsetVector problem q) n = q n :=
    fun n hn => hplaced.positions_offsetVector hn
  refine ⟨offsetVector problem q', hplaced'.congr hsame, haligned'.congr hsame, ?_, ?_⟩
  · intro n hn
    obtain ⟨c, hc, hq⟩ := hsupported n (List.mem_toFinset.mpr hn)
    refine ⟨c, ?_, by rw [hsame n hn, hq]⟩
    refine hc.imp_right (Or.imp_right ?_)
    rintro ⟨m, hm, hnear, rfl⟩
    exact ⟨m, hm, hnear, by rw [hsame m (List.mem_toFinset.mp hm)]⟩
  · apply score_le h (hplaced'.congr hsame) (hplaced.congr hsameq)
    · intro n hn
      rw [hsame n hn, hsameq n hn]
      exact hle n
    · intro entry hmem hk hl hsep
      unfold NodesApart at hsep ⊢
      rw [hsameq _ hk, hsameq _ hl] at hsep
      rw [hsame _ hk, hsame _ hl]
      exact hkeep _ (List.mem_toFinset.mpr hk) _ (List.mem_toFinset.mpr hl)
        ⟨entry.2, .inl hmem⟩ hsep

end PoolCanonicalSearch

end Dsa
