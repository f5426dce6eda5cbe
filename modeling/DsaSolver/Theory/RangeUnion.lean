import Mathlib.Order.MinMax
import Mathlib.Data.List.Basic

/-! # Unions of half-open ranges

A list of ranges `[a, b)` in ascending order, none empty and with a gap between any two, is
determined by the set it covers (`SeparatedRanges.unique`). -/

namespace Theory

variable {α : Type*} [LinearOrder α]

/-- One of the ranges contains `x`. -/
def InRanges (ranges : List (α × α)) (x : α) : Prop := ∃ r ∈ ranges, r.1 ≤ x ∧ x < r.2

instance InRanges.instDecidable (ranges : List (α × α)) (x : α) : Decidable (InRanges ranges x) :=
  inferInstanceAs (Decidable (∃ r ∈ ranges, _))

/-- Ascending ranges with gaps. -/
structure SeparatedRanges (ranges : List (α × α)) : Prop where
  nonEmpty : ∀ r ∈ ranges, r.1 < r.2
  gaps : ranges.Pairwise fun r s => r.2 < s.1

theorem inRanges_cons {r : α × α} {rest : List (α × α)} {x : α} :
    InRanges (r :: rest) x ↔ (r.1 ≤ x ∧ x < r.2) ∨ InRanges rest x := by
  simp [InRanges]

theorem SeparatedRanges.tail {r : α × α} {rest : List (α × α)} (h : SeparatedRanges (r :: rest)) :
    SeparatedRanges rest where
  nonEmpty s hs := h.nonEmpty s (List.mem_cons_of_mem r hs)
  gaps := (List.pairwise_cons.mp h.gaps).2

/-- What the later ranges contain lies beyond the first. -/
theorem SeparatedRanges.lt_of_tail {r : α × α} {rest : List (α × α)} (h : SeparatedRanges (r :: rest)) {x : α}
    (hx : InRanges rest x) : r.2 < x := by
  obtain ⟨s, hs, hle, -⟩ := hx
  exact ((List.pairwise_cons.mp h.gaps).1 s hs).trans_le hle

theorem SeparatedRanges.head_mem {r : α × α} {rest : List (α × α)} (h : SeparatedRanges (r :: rest)) :
    InRanges (r :: rest) r.1 :=
  ⟨r, List.mem_cons_self, le_rfl, h.nonEmpty r List.mem_cons_self⟩

theorem SeparatedRanges.head_le {r : α × α} {rest : List (α × α)} (h : SeparatedRanges (r :: rest)) {x : α}
    (hx : InRanges (r :: rest) x) : r.1 ≤ x := by
  rcases inRanges_cons.mp hx with ⟨hle, -⟩ | hrest
  · exact hle
  · exact ((h.nonEmpty r List.mem_cons_self).trans (h.lt_of_tail hrest)).le

/-- The end of the first range is in none of them. -/
theorem SeparatedRanges.not_mem_end {r : α × α} {rest : List (α × α)} (h : SeparatedRanges (r :: rest)) :
    ¬InRanges (r :: rest) r.2 := by
  intro hx
  rcases inRanges_cons.mp hx with ⟨-, hlt⟩ | hrest
  · exact lt_irrefl _ hlt
  · exact lt_irrefl _ (h.lt_of_tail hrest)

theorem SeparatedRanges.end_le {r s : α × α} {rest others : List (α × α)}
    (h : SeparatedRanges (r :: rest))
    (hcover : ∀ x, InRanges (r :: rest) x ↔ InRanges (s :: others) x) (hfirst : r.1 = s.1) :
    s.2 ≤ r.2 := by
  by_contra hlt
  rw [not_le] at hlt
  apply h.not_mem_end
  apply (hcover _).mpr
  refine ⟨s, List.mem_cons_self, ?_, hlt⟩
  rw [← hfirst]
  exact (h.nonEmpty r List.mem_cons_self).le

/-- **The normal form is unique.** -/
theorem SeparatedRanges.unique {first second : List (α × α)} (h : SeparatedRanges first)
    (h' : SeparatedRanges second) (hcover : ∀ x, InRanges first x ↔ InRanges second x) :
    first = second := by
  induction first generalizing second with
  | nil =>
      cases second with
      | nil => rfl
      | cons s others =>
          obtain ⟨r, hr, -⟩ := (hcover s.1).mpr h'.head_mem
          cases hr
  | cons r rest ih =>
      cases second with
      | nil =>
          obtain ⟨s, hs, -⟩ := (hcover r.1).mp h.head_mem
          cases hs
      | cons s others =>
          have hfirst : r.1 = s.1 := le_antisymm (h.head_le ((hcover _).mpr h'.head_mem))
            (h'.head_le ((hcover _).mp h.head_mem))
          have hlast : r.2 = s.2 := le_antisymm
            (h'.end_le (fun x => (hcover x).symm) hfirst.symm) (h.end_le hcover hfirst)
          have hsame : r = s := Prod.ext hfirst hlast
          subst hsame
          congr 1
          apply ih h.tail h'.tail
          intro x
          constructor
          · intro hx
            have hlt := h.lt_of_tail hx
            have hmem := (hcover x).mp (inRanges_cons.mpr (.inr hx))
            exact (inRanges_cons.mp hmem).resolve_left fun hin => lt_asymm hlt hin.2
          · intro hx
            have hlt := h'.lt_of_tail hx
            have hmem := (hcover x).mpr (inRanges_cons.mpr (.inr hx))
            exact (inRanges_cons.mp hmem).resolve_left fun hin => lt_asymm hlt hin.2

/-! ### Merging -/

/-- One range joins the merged ranges, the last of them in front. -/
def mergeInto (merged : List (α × α)) (r : α × α) : List (α × α) :=
  match merged with
  | [] => [r]
  | back :: rest => if back.2 < r.1 then r :: back :: rest else (back.1, max back.2 r.2) :: rest

/-- The ranges merged so far, the last in front, none starting after `x`. -/
structure MergedUpTo (merged : List (α × α)) (x : α) : Prop where
  nonEmpty : ∀ r ∈ merged, r.1 < r.2
  gaps : merged.Pairwise fun later earlier => earlier.2 < later.1
  starts : ∀ r ∈ merged, r.1 ≤ x

theorem MergedUpTo.mergeInto {merged : List (α × α)} {r : α × α} (h : MergedUpTo merged r.1)
    (hr : r.1 < r.2) : MergedUpTo (mergeInto merged r) r.1 := by
  unfold Theory.mergeInto
  cases merged with
  | nil => exact ⟨by simpa using hr, List.pairwise_singleton _ _, by simp⟩
  | cons back rest =>
      obtain ⟨hback, hrest⟩ := List.pairwise_cons.mp h.gaps
      have hne := h.nonEmpty back List.mem_cons_self
      have hstart := h.starts back List.mem_cons_self
      dsimp only
      split_ifs with hgap
      · refine ⟨?_, ?_, ?_⟩
        · exact List.forall_mem_cons.mpr ⟨hr, h.nonEmpty⟩
        · refine List.pairwise_cons.mpr ⟨List.forall_mem_cons.mpr ⟨hgap, fun s hs => ?_⟩, h.gaps⟩
          exact (hback s hs).trans (hne.trans hgap)
        · exact List.forall_mem_cons.mpr ⟨le_rfl, h.starts⟩
      · refine ⟨?_, List.pairwise_cons.mpr ⟨hback, hrest⟩, ?_⟩
        · exact List.forall_mem_cons.mpr
            ⟨lt_max_iff.mpr (.inl hne), fun s hs => h.nonEmpty s (List.mem_cons_of_mem _ hs)⟩
        · exact List.forall_mem_cons.mpr
            ⟨hstart, fun s hs => h.starts s (List.mem_cons_of_mem _ hs)⟩

/-- A range that starts within the last one, or at its end, extends it. -/
theorem MergedUpTo.inRanges_mergeInto {merged : List (α × α)} {r : α × α}
    (h : MergedUpTo merged r.1) (x : α) :
    InRanges (Theory.mergeInto merged r) x ↔ InRanges merged x ∨ (r.1 ≤ x ∧ x < r.2) := by
  unfold Theory.mergeInto
  cases merged with
  | nil => simp [InRanges]
  | cons back rest =>
      have hstart := h.starts back List.mem_cons_self
      dsimp only
      split_ifs with hgap
      · rw [inRanges_cons, or_comm]
      · rw [inRanges_cons, inRanges_cons, lt_max_iff]
        rw [not_lt] at hgap
        constructor
        · rintro (⟨hle, hlt | hlt⟩ | hx)
          · exact .inl (.inl ⟨hle, hlt⟩)
          · rcases lt_or_ge x back.2 with hx | hx
            · exact .inl (.inl ⟨hle, hx⟩)
            · exact .inr ⟨hgap.trans hx, hlt⟩
          · exact .inl (.inr hx)
        · rintro ((⟨hle, hlt⟩ | hx) | ⟨hle, hlt⟩)
          · exact .inl ⟨hle, .inl hlt⟩
          · exact .inr hx
          · exact .inl ⟨hstart.trans hle, .inr hlt⟩

/-- **Merging ranges sorted by their starts** gives separated ranges with the same elements. -/
theorem mergeAll_spec {ranges : List (α × α)} (hne : ∀ r ∈ ranges, r.1 < r.2)
    (hsorted : ranges.Pairwise fun r s => r.1 ≤ s.1) :
    SeparatedRanges (ranges.foldl mergeInto []).reverse ∧
      ∀ x, InRanges (ranges.foldl mergeInto []).reverse x ↔ InRanges ranges x := by
  suffices hgeneral : ∀ (ranges merged : List (α × α)), (∀ r ∈ ranges, r.1 < r.2) →
      (ranges.Pairwise fun r s => r.1 ≤ s.1) → (∀ r ∈ merged, r.1 < r.2) →
      (merged.Pairwise fun later earlier => earlier.2 < later.1) →
      (∀ r ∈ ranges, ∀ s ∈ merged, s.1 ≤ r.1) →
      ((∀ r ∈ ranges.foldl mergeInto merged, r.1 < r.2) ∧
        (ranges.foldl mergeInto merged).Pairwise fun later earlier => earlier.2 < later.1) ∧
      ∀ x, InRanges (ranges.foldl mergeInto merged) x ↔ InRanges merged x ∨ InRanges ranges x by
    obtain ⟨⟨hmergedNe, hgaps⟩, hcover⟩ := hgeneral ranges [] hne hsorted (by simp)
      List.Pairwise.nil (by simp)
    refine ⟨⟨fun r hr => hmergedNe r (List.mem_reverse.mp hr), List.pairwise_reverse.mpr hgaps⟩,
      fun x => ?_⟩
    have := hcover x
    simp only [InRanges, List.mem_reverse, List.not_mem_nil, false_and, exists_false, false_or]
      at this ⊢
    exact this
  intro ranges
  induction ranges with
  | nil => exact fun merged _ _ hne hgaps _ => ⟨⟨hne, hgaps⟩, fun x => by simp [InRanges]⟩
  | cons r rest ih =>
      intro merged hne hsorted hmergedNe hgaps hstarts
      obtain ⟨hfirst, hrest⟩ := List.pairwise_cons.mp hsorted
      have hr := hne r List.mem_cons_self
      have hmerged : MergedUpTo merged r.1 := ⟨hmergedNe, hgaps, hstarts r List.mem_cons_self⟩
      have hnext := hmerged.mergeInto hr
      obtain ⟨hok, hcover⟩ := ih (Theory.mergeInto merged r)
        (fun s hs => hne s (List.mem_cons_of_mem _ hs)) hrest hnext.nonEmpty hnext.gaps
        (fun s hs t ht => (hnext.starts t ht).trans (hfirst s hs))
      refine ⟨hok, fun x => ?_⟩
      rw [List.foldl_cons, hcover, hmerged.inRanges_mergeInto, inRanges_cons, or_assoc]

end Theory
