import Mathlib.Algebra.BigOperators.Intervals
import Mathlib.Algebra.Order.BigOperators.Group.Finset

/-! # Sums over the pairs of an indexed family

`pairSum n f` is the sum of `f i j` over the pairs `i < j < n`, and `rowSum n f k` that of the
pairs of which `k` is one.  When two symmetric families differ in the pairs of `k` only, the
difference of their pair sums is that of the two rows (`pairSum_add_rowSum`). -/

namespace Theory

open Finset

variable {M : Type*} [AddCommMonoid M]

/-- The sum over the pairs `i < j < n`. -/
def pairSum (n : ℕ) (f : ℕ → ℕ → M) : M := ∑ i ∈ range n, ∑ j ∈ Ico (i + 1) n, f i j

/-- The sum over the pairs that contain `k`. -/
def rowSum (n : ℕ) (f : ℕ → ℕ → M) (k : ℕ) : M := ∑ j ∈ range n, if j = k then 0 else f k j

theorem pairSum_congr {n : ℕ} {f g : ℕ → ℕ → M}
    (h : ∀ i j, i < j → j < n → f i j = g i j) : pairSum n f = pairSum n g := by
  refine sum_congr rfl fun i _ => sum_congr rfl fun j hj => ?_
  rw [mem_Ico] at hj
  exact h i j (by omega) hj.2

theorem pairSum_add (n : ℕ) (f g : ℕ → ℕ → M) :
    pairSum n (fun i j => f i j + g i j) = pairSum n f + pairSum n g := by
  unfold pairSum
  rw [← sum_add_distrib]
  exact sum_congr rfl fun i _ => sum_add_distrib

/-- The pairs whose smaller element is `k`. -/
theorem pairSum_first {n k : ℕ} (hk : k < n) (f : ℕ → ℕ → M) :
    pairSum n (fun i j => if i = k then f i j else 0) = ∑ j ∈ Ico (k + 1) n, f k j := by
  unfold pairSum
  rw [sum_eq_single_of_mem k (mem_range.mpr hk)]
  · exact sum_congr rfl fun j _ => if_pos rfl
  · intro i _ hik
    exact sum_eq_zero fun j _ => if_neg hik

/-- The pairs whose larger element is `k`. -/
theorem pairSum_second {n k : ℕ} (hk : k < n) (f : ℕ → ℕ → M) :
    pairSum n (fun i j => if j = k then f i j else 0) = ∑ i ∈ range k, f i k := by
  have hrow : ∀ i ∈ range n, (∑ j ∈ Ico (i + 1) n, if j = k then f i j else 0) =
      if i < k then f i k else 0 := by
    intro i _
    rw [sum_ite_eq']
    refine if_congr ?_ rfl rfl
    rw [mem_Ico]
    omega
  unfold pairSum
  rw [sum_congr rfl hrow, ← sum_filter]
  refine sum_congr ?_ fun i _ => rfl
  ext i
  rw [mem_filter, mem_range, mem_range]
  omega

theorem rowSum_eq {n k : ℕ} (hk : k < n) (f : ℕ → ℕ → M) (hsymm : ∀ i j, f i j = f j i) :
    rowSum n f k = ∑ j ∈ Ico (k + 1) n, f k j + ∑ i ∈ range k, f i k := by
  have hlow : (∑ j ∈ range k, if j = k then 0 else f k j) = ∑ i ∈ range k, f i k := by
    refine sum_congr rfl fun j hj => ?_
    rw [mem_range] at hj
    rw [if_neg (by omega), hsymm]
  have hhigh : (∑ j ∈ Ico (k + 1) n, if j = k then 0 else f k j) = ∑ j ∈ Ico (k + 1) n, f k j := by
    refine sum_congr rfl fun j hj => ?_
    rw [mem_Ico] at hj
    rw [if_neg (by omega)]
  unfold rowSum
  rw [← sum_range_add_sum_Ico _ (Nat.succ_le_of_lt hk), sum_range_succ, if_pos rfl, add_zero, hlow,
    hhigh, add_comm]

/-- The pairs of `k` and the others. -/
theorem pairSum_split {n k : ℕ} (hk : k < n) (f : ℕ → ℕ → M) (hsymm : ∀ i j, f i j = f j i) :
    pairSum n f = pairSum n (fun i j => if i = k ∨ j = k then 0 else f i j) + rowSum n f k := by
  rw [rowSum_eq hk f hsymm, ← pairSum_first hk, ← pairSum_second hk, ← pairSum_add, ← pairSum_add]
  apply pairSum_congr
  intro i j hij _
  by_cases hi : i = k
  · rw [if_pos (.inl hi), if_pos hi, if_neg (by omega), zero_add, add_zero]
  · by_cases hj : j = k
    · rw [if_pos (.inr hj), if_neg hi, if_pos hj, zero_add, zero_add]
    · rw [if_neg (by tauto), if_neg hi, if_neg hj, add_zero, add_zero]

/-- **One row changes.**  Families that agree away from `k` differ as their rows of `k` do. -/
theorem pairSum_add_rowSum {n k : ℕ} (hk : k < n) {f g : ℕ → ℕ → M}
    (hf : ∀ i j, f i j = f j i) (hg : ∀ i j, g i j = g j i)
    (hagree : ∀ i j, i ≠ k → j ≠ k → f i j = g i j) :
    pairSum n f + rowSum n g k = pairSum n g + rowSum n f k := by
  have hrest : pairSum n (fun i j => if i = k ∨ j = k then 0 else f i j) =
      pairSum n (fun i j => if i = k ∨ j = k then 0 else g i j) := by
    apply pairSum_congr
    intro i j _ _
    by_cases hi : i = k ∨ j = k
    · rw [if_pos hi, if_pos hi]
    · rw [if_neg hi, if_neg hi, hagree i j (by tauto) (by tauto)]
  rw [pairSum_split hk f hf, pairSum_split hk g hg, hrest, add_right_comm]

theorem rowSum_le_pairSum {n k : ℕ} (hk : k < n) {f : ℕ → ℕ → ℕ} (hf : ∀ i j, f i j = f j i) :
    rowSum n f k ≤ pairSum n f := by
  rw [pairSum_split hk f hf]
  exact Nat.le_add_left _ _

theorem pairSum_mono {n : ℕ} {f g : ℕ → ℕ → ℕ} (h : ∀ i j, f i j ≤ g i j) :
    pairSum n f ≤ pairSum n g :=
  sum_le_sum fun i _ => sum_le_sum fun j _ => h i j

end Theory
