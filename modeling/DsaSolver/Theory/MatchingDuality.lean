import Mathlib.Algebra.BigOperators.Group.Finset.Basic
import Mathlib.Algebra.Order.BigOperators.Group.Finset
import Mathlib.Data.Finset.Card
import Mathlib.Data.List.Nodup
import Mathlib.Tactic.Linarith

/-! # Matchings of a given size

A matching is a list of pairs that uses no row and no column twice.  Potentials of the rows and
the columns whose reduced costs are not negative outside the matching and not positive in it
show that no matching of that size costs less (`IsMatching.sum_le`). -/

namespace Theory

open Finset

structure IsMatching (rows columns : ℕ) (pairs : List (ℕ × ℕ)) : Prop where
  inRange : ∀ pair ∈ pairs, pair.1 < rows ∧ pair.2 < columns
  rows : (pairs.map Prod.fst).Nodup
  columns : (pairs.map Prod.snd).Nodup

section exchange

variable {α : Type} [DecidableEq α] {first second : Finset α}

theorem sum_sdiff_inter (first second : Finset α) (f : α → ℤ) :
    ∑ x ∈ first, f x = ∑ x ∈ first ∩ second, f x + ∑ x ∈ first \ second, f x := by
  rw [← Finset.sum_union (Finset.disjoint_sdiff_inter first second).symm,
    Finset.union_comm, Finset.sdiff_union_inter]

/-- A set of the elements above a level has the largest sum among the sets of its size. -/
theorem sum_le_sum_of_card (level : ℤ) (f : α → ℤ) (hcard : first.card = second.card)
    (hfirst : ∀ x ∈ first, level ≤ f x) (hsecond : ∀ x ∈ second, x ∉ first → f x ≤ level) :
    ∑ x ∈ second, f x ≤ ∑ x ∈ first, f x := by
  have hout : ∑ x ∈ second \ first, f x ≤ (second \ first).card • level :=
    Finset.sum_le_card_nsmul _ _ _ fun x hx =>
      hsecond x (Finset.mem_sdiff.mp hx).1 (Finset.mem_sdiff.mp hx).2
  have hin : (first \ second).card • level ≤ ∑ x ∈ first \ second, f x :=
    Finset.card_nsmul_le_sum _ _ _ fun x hx => hfirst x (Finset.mem_sdiff.mp hx).1
  rw [Finset.card_sdiff_comm hcard] at hin
  rw [sum_sdiff_inter second first, sum_sdiff_inter first second, Finset.inter_comm second first]
  omega

end exchange

namespace IsMatching

variable {rows columns : ℕ} {pairs other : List (ℕ × ℕ)}

theorem nodup (h : IsMatching rows columns pairs) : pairs.Nodup := List.Nodup.of_map Prod.fst h.rows

/-- The sum over the pairs of a function of one coordinate is a sum over the coordinates. -/
theorem sum_coordinate {coordinate : ℕ × ℕ → ℕ} (hnodup : (pairs.map coordinate).Nodup)
    (f : ℕ → ℤ) :
    (pairs.map fun pair => f (coordinate pair)).sum =
      ∑ x ∈ (pairs.map coordinate).toFinset, f x := by
  rw [List.sum_toFinset f hnodup, List.map_map]
  rfl

/-- Potentials that certify a matching of the least cost. -/
structure Certificate (rows columns : ℕ) (cost : ℕ → ℕ → ℤ) (pairs : List (ℕ × ℕ))
    (row column : ℕ → ℤ) (source sink : ℤ) : Prop where
  outside : ∀ l < rows, ∀ r < columns, (l, r) ∉ pairs → column r ≤ row l + cost l r
  inside : ∀ pair ∈ pairs, row pair.1 + cost pair.1 pair.2 ≤ column pair.2
  usedRow : ∀ pair ∈ pairs, source ≤ row pair.1
  freeRow : ∀ l < rows, l ∉ pairs.map Prod.fst → row l ≤ source
  usedColumn : ∀ pair ∈ pairs, column pair.2 ≤ sink
  freeColumn : ∀ r < columns, r ∉ pairs.map Prod.snd → sink ≤ column r

variable {cost : ℕ → ℕ → ℤ} {row column : ℕ → ℤ} {source sink : ℤ}

/-- Reduced costs favour the certified matching. -/
theorem sum_reduced_le (hpairs : IsMatching rows columns pairs) (hother : IsMatching rows columns other)
    (h : Certificate rows columns cost pairs row column source sink) :
    (pairs.map fun p => row p.1 + cost p.1 p.2 - column p.2).sum ≤
      (other.map fun p => row p.1 + cost p.1 p.2 - column p.2).sum := by
  rw [← List.sum_toFinset _ hpairs.nodup, ← List.sum_toFinset _ hother.nodup]
  rw [sum_sdiff_inter pairs.toFinset other.toFinset, sum_sdiff_inter other.toFinset pairs.toFinset,
    Finset.inter_comm other.toFinset]
  have hin : ∑ p ∈ pairs.toFinset \ other.toFinset, (row p.1 + cost p.1 p.2 - column p.2) ≤ 0 := by
    apply Finset.sum_nonpos
    intro p hp
    have hle := h.inside p (List.mem_toFinset.mp (Finset.mem_sdiff.mp hp).1)
    omega
  have hout : 0 ≤ ∑ p ∈ other.toFinset \ pairs.toFinset,
      (row p.1 + cost p.1 p.2 - column p.2) := by
    apply Finset.sum_nonneg
    intro p hp
    obtain ⟨hmem, hnot⟩ := Finset.mem_sdiff.mp hp
    obtain ⟨hl, hr⟩ := hother.inRange p (List.mem_toFinset.mp hmem)
    have hle := h.outside p.1 hl p.2 hr (fun hp => hnot (List.mem_toFinset.mpr hp))
    omega
  omega

/-- A certified matching costs no more than any other of its size. -/
theorem sum_le (hpairs : IsMatching rows columns pairs) (hother : IsMatching rows columns other)
    (hlength : other.length = pairs.length)
    (h : Certificate rows columns cost pairs row column source sink) :
    (pairs.map fun p => cost p.1 p.2).sum ≤ (other.map fun p => cost p.1 p.2).sum := by
  have hreduced := sum_reduced_le hpairs hother h
  have hsplit : ∀ l : List (ℕ × ℕ), (l.map fun p => row p.1 + cost p.1 p.2 - column p.2).sum =
      (l.map fun p => row p.1).sum + (l.map fun p => cost p.1 p.2).sum -
        (l.map fun p => column p.2).sum := by
    intro l
    induction l with
    | nil => rfl
    | cons p l ih =>
        simp only [List.map_cons, List.sum_cons] at ih ⊢
        omega
  have hrows : (other.map fun p => row p.1).sum ≤ (pairs.map fun p => row p.1).sum := by
    rw [sum_coordinate hpairs.rows, sum_coordinate hother.rows]
    apply sum_le_sum_of_card source
    · rw [List.toFinset_card_of_nodup hpairs.rows, List.toFinset_card_of_nodup hother.rows,
        List.length_map, List.length_map, hlength]
    · intro l hl
      obtain ⟨p, hp, rfl⟩ := List.mem_map.mp (List.mem_toFinset.mp hl)
      exact h.usedRow p hp
    · intro l hl hnot
      obtain ⟨p, hp, rfl⟩ := List.mem_map.mp (List.mem_toFinset.mp hl)
      exact h.freeRow p.1 (hother.inRange p hp).1 fun hmem => hnot (List.mem_toFinset.mpr hmem)
  have hcolumns : (pairs.map fun p => column p.2).sum ≤ (other.map fun p => column p.2).sum := by
    rw [sum_coordinate hpairs.columns, sum_coordinate hother.columns]
    suffices hneg : ∑ r ∈ (other.map Prod.snd).toFinset, -column r ≤
        ∑ r ∈ (pairs.map Prod.snd).toFinset, -column r by
      rw [Finset.sum_neg_distrib, Finset.sum_neg_distrib] at hneg
      omega
    apply sum_le_sum_of_card (-sink) fun r => -column r
    · rw [List.toFinset_card_of_nodup hpairs.columns, List.toFinset_card_of_nodup hother.columns,
        List.length_map, List.length_map, hlength]
    · intro r hr
      obtain ⟨p, hp, rfl⟩ := List.mem_map.mp (List.mem_toFinset.mp hr)
      exact neg_le_neg (h.usedColumn p hp)
    · intro r hr hnot
      obtain ⟨p, hp, rfl⟩ := List.mem_map.mp (List.mem_toFinset.mp hr)
      exact neg_le_neg
        (h.freeColumn p.2 (hother.inRange p hp).2 fun hmem => hnot (List.mem_toFinset.mpr hmem))
  rw [hsplit, hsplit] at hreduced
  omega

end IsMatching

end Theory
