import DsaSolver.Theory.MatchingDuality
import Mathlib.Data.Finset.Prod
import Mathlib.Data.List.GetD
import Mathlib.Data.List.ProdSigma

/-! # Matchings of equal colours

Two rows of distinct colours meet in a matching, the pairs of positions of one colour
(`isMatching_meets`).  Where the colours are few, the matching is large (`le_length_meets`), so a
minimum matching of the size that is due costs no more than it (`cost_le_meets`). -/

namespace Theory

variable {x y : List ℕ} {c : ℕ}

/-- Distinct numbers below a bound are no more than it. -/
theorem length_le_of_nodup_lt {l : List ℕ} (hnodup : l.Nodup) (hlt : ∀ a ∈ l, a < c) :
    l.length ≤ c := by
  rw [← List.toFinset_card_of_nodup hnodup, ← Finset.card_range c]
  exact Finset.card_le_card fun a ha => Finset.mem_range.mpr (hlt a (List.mem_toFinset.mp ha))

theorem sum_map_filter {α : Type} (l : List α) (p : α → Bool) (f : α → ℕ) :
    ((l.filter p).map f).sum = (l.map fun a => if p a = true then f a else 0).sum := by
  induction l with
  | nil => rfl
  | cons a l ih =>
      rw [List.map_cons, List.sum_cons, ← ih]
      by_cases ha : p a = true
      · rw [List.filter_cons_of_pos ha, List.map_cons, List.sum_cons, if_pos ha]
      · rw [List.filter_cons_of_neg ha, if_neg ha, Nat.zero_add]

/-- The pairs of positions of one colour. -/
def meets (x y : List ℕ) : List (ℕ × ℕ) :=
  (List.range x.length ×ˢ List.range y.length).filter fun pair =>
    x.getD pair.1 0 == y.getD pair.2 0

theorem mem_meets {pair : ℕ × ℕ} : pair ∈ meets x y ↔
    pair.1 < x.length ∧ pair.2 < y.length ∧ x.getD pair.1 0 = y.getD pair.2 0 := by
  unfold meets
  rw [List.mem_filter, List.mem_product, List.mem_range, List.mem_range, beq_iff_eq, and_assoc]

theorem nodup_meets : (meets x y).Nodup :=
  (List.nodup_range.product List.nodup_range).filter _

theorem getD_inj_of_nodup {l : List ℕ} (hnodup : l.Nodup) {i j : ℕ} (hi : i < l.length)
    (hj : j < l.length) (heq : l.getD i 0 = l.getD j 0) : i = j := by
  rw [List.getD_eq_getElem _ _ hi, List.getD_eq_getElem _ _ hj] at heq
  exact (hnodup.getElem_inj_iff).mp heq

theorem isMatching_meets (hx : x.Nodup) (hy : y.Nodup) :
    IsMatching x.length y.length (meets x y) where
  inRange pair hpair := ⟨(mem_meets.mp hpair).1, (mem_meets.mp hpair).2.1⟩
  rows := by
    refine nodup_meets.map_on fun a ha b hb heq => Prod.ext heq ?_
    obtain ⟨-, ha2, ha⟩ := mem_meets.mp ha
    obtain ⟨-, hb2, hb⟩ := mem_meets.mp hb
    rw [heq] at ha
    exact getD_inj_of_nodup hy ha2 hb2 (ha.symm.trans hb)
  columns := by
    refine nodup_meets.map_on fun a ha b hb heq => Prod.ext ?_ heq
    obtain ⟨ha1, -, ha⟩ := mem_meets.mp ha
    obtain ⟨hb1, -, hb⟩ := mem_meets.mp hb
    rw [heq] at ha
    exact getD_inj_of_nodup hx ha1 hb1 (ha.trans hb.symm)

/-- The fewer colours there are, the more positions share one. -/
theorem le_length_meets (hx : x.Nodup) (hy : y.Nodup) (hxc : ∀ a ∈ x, a < c)
    (hyc : ∀ a ∈ y, a < c) : x.length + y.length ≤ (meets x y).length + c := by
  have hunion : (x.toFinset ∪ y.toFinset).card ≤ c := by
    rw [← Finset.card_range c]
    refine Finset.card_le_card fun a ha => Finset.mem_range.mpr ?_
    rcases Finset.mem_union.mp ha with ha | ha
    · exact hxc a (List.mem_toFinset.mp ha)
    · exact hyc a (List.mem_toFinset.mp ha)
  have hinter : (x.toFinset ∩ y.toFinset).card ≤ (meets x y).length := by
    -- every shared colour is that of a pair
    have hsub : x.toFinset ∩ y.toFinset ⊆
        ((meets x y).map fun pair => x.getD pair.1 0).toFinset := by
      intro a ha
      obtain ⟨hax, hay⟩ := Finset.mem_inter.mp ha
      obtain ⟨i, hi, rfl⟩ := List.mem_iff_getElem.mp (List.mem_toFinset.mp hax)
      obtain ⟨j, hj, heq⟩ := List.mem_iff_getElem.mp (List.mem_toFinset.mp hay)
      rw [← List.getD_eq_getElem x 0 hi] at heq ⊢
      rw [← List.getD_eq_getElem y 0 hj] at heq
      exact List.mem_toFinset.mpr (List.mem_map.mpr
        ⟨(i, j), mem_meets.mpr ⟨hi, hj, heq.symm⟩, rfl⟩)
    calc (x.toFinset ∩ y.toFinset).card
        ≤ ((meets x y).map fun pair => x.getD pair.1 0).toFinset.card := Finset.card_le_card hsub
      _ ≤ ((meets x y).map fun pair => x.getD pair.1 0).length := List.toFinset_card_le _
      _ = (meets x y).length := List.length_map _
  have hcard := Finset.card_union_add_card_inter x.toFinset y.toFinset
  rw [List.toFinset_card_of_nodup hx, List.toFinset_card_of_nodup hy] at hcard
  omega

theorem IsMatching.take {rows columns : ℕ} {pairs : List (ℕ × ℕ)}
    (h : IsMatching rows columns pairs) (k : ℕ) : IsMatching rows columns (pairs.take k) where
  inRange pair hpair := h.inRange pair (List.mem_of_mem_take hpair)
  rows := h.rows.sublist ((List.take_sublist k pairs).map _)
  columns := h.columns.sublist ((List.take_sublist k pairs).map _)

/-- What is least among the matchings of the size that is due costs no more than the pairs of one
colour. -/
theorem cost_le_meets (cost : ℕ × ℕ → ℕ) {least : ℕ} (hx : x.Nodup) (hy : y.Nodup)
    (hxc : ∀ a ∈ x, a < c) (hyc : ∀ a ∈ y, a < c)
    (hleast : ∀ other, IsMatching x.length y.length other →
      other.length = x.length + y.length - c → least ≤ (other.map cost).sum) :
    least ≤ ((meets x y).map cost).sum := by
  have hlength := le_length_meets hx hy hxc hyc
  have hother := hleast _ ((isMatching_meets hx hy).take (x.length + y.length - c)) (by
    rw [List.length_take]
    omega)
  calc least ≤ (((meets x y).take (x.length + y.length - c)).map cost).sum := hother
    _ ≤ (((meets x y).take (x.length + y.length - c)).map cost).sum +
        (((meets x y).drop (x.length + y.length - c)).map cost).sum := Nat.le_add_right _ _
    _ = ((meets x y).map cost).sum := by
        rw [← List.sum_append, ← List.map_append, List.take_append_drop]

/-- The cost of the pairs of one colour, over all pairs of positions. -/
theorem sum_meets (cost : ℕ × ℕ → ℕ) : ((meets x y).map cost).sum =
    ((List.range x.length ×ˢ List.range y.length).map fun pair =>
      if x.getD pair.1 0 = y.getD pair.2 0 then cost pair else 0).sum := by
  unfold meets
  rw [sum_map_filter]
  simp

end Theory
