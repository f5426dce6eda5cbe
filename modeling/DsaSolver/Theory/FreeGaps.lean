import DsaSolver.Theory.Packing
import DsaSolver.Theory.RangeUnion
import Mathlib.Order.Interval.Set.Disjoint
import Mathlib.Order.CompletePartialOrder

/-! # Free gaps between ranges

Ranges of addresses leave gaps.  Over ranges in ascending order of their beginnings the sweep
`gapsFrom` lists the gaps that end below an address in use (`mem_gapsFrom_iff`), and a free block
lies in one of them or beyond all ranges (`gap_of_free`). -/

namespace Theory

/-- The block `[n, n + size)` meets none of the ranges. -/
def FreeBlock (ranges : List (ℕ × ℕ)) (n size : ℕ) : Prop :=
  ∀ r ∈ ranges, Disjoint (Set.Ico n (n + size)) (Set.Ico r.1 r.2)

/-- `[b, e)` is a maximal free stretch that a range ends. -/
structure Gap (ranges : List (ℕ × ℕ)) (b e : ℕ) : Prop where
  lt : b < e
  free : ∀ x, b ≤ x → x < e → ¬InRanges ranges x
  first : b = 0 ∨ InRanges ranges (b - 1)
  last : InRanges ranges e

/-- The gaps of a sweep that has reached `f`. -/
def gapsFrom (f : ℕ) : List (ℕ × ℕ) → List (ℕ × ℕ)
  | [] => []
  | r :: rest =>
      if f < r.1 then (f, r.1) :: gapsFrom (max f r.2) rest else gapsFrom (max f r.2) rest

/-- Where the sweep ends. -/
def sweepEnd (f : ℕ) (ranges : List (ℕ × ℕ)) : ℕ := ranges.foldl (fun f r => max f r.2) f

section ranges

variable {ranges : List (ℕ × ℕ)} {f n size : ℕ}

theorem freeBlock_iff (hsize : 0 < size) (hne : ∀ r ∈ ranges, r.1 < r.2) :
    FreeBlock ranges n size ↔ ∀ r ∈ ranges, n + size ≤ r.1 ∨ r.2 ≤ n := by
  refine forall₂_congr fun r hr => ?_
  have := hne r hr
  rw [Set.Ico_disjoint_Ico]
  omega

theorem sweepEnd_le_iff : sweepEnd f ranges ≤ n ↔ f ≤ n ∧ ∀ r ∈ ranges, r.2 ≤ n := by
  unfold sweepEnd
  induction ranges generalizing f with
  | nil => simp
  | cons r rest ih =>
      rw [List.foldl_cons, ih, max_le_iff, List.forall_mem_cons, and_assoc]

/-- A free block beyond `f` lies in a gap or beyond all ranges. -/
theorem gap_of_free (hfree : ∀ r ∈ ranges, n + size ≤ r.1 ∨ r.2 ≤ n) (hsize : 0 < size)
    (hf : f ≤ n) :
    sweepEnd f ranges ≤ n ∨ ∃ g ∈ gapsFrom f ranges, g.1 ≤ n ∧ n + size ≤ g.2 := by
  induction ranges generalizing f with
  | nil => exact .inl hf
  | cons r rest ih =>
      obtain ⟨hr, hrest⟩ := List.forall_mem_cons.mp hfree
      unfold gapsFrom
      by_cases hgap : f < r.1
      · rw [if_pos hgap]
        rcases hr with hbefore | hafter
        · exact .inr ⟨(f, r.1), List.mem_cons_self, hf, hbefore⟩
        · obtain hend | ⟨g, hg, hin⟩ := ih hrest (max_le hf hafter)
          · exact .inl hend
          · exact .inr ⟨g, List.mem_cons_of_mem _ hg, hin⟩
      · rw [if_neg hgap]
        rcases hr with hbefore | hafter
        · omega
        · exact ih hrest (max_le hf hafter)

/-- The gaps of a sweep that has passed `done` and reached `f`. -/
theorem gap_of_mem_gapsFrom (done : List (ℕ × ℕ))
    (hsorted : ranges.Pairwise fun r s => r.1 ≤ s.1)
    (hne : ∀ r ∈ ranges, r.1 < r.2) (hdone : ∀ r ∈ done, r.2 ≤ f)
    (hf : f = 0 ∨ InRanges done (f - 1)) {g : ℕ × ℕ} (hg : g ∈ gapsFrom f ranges) :
    Gap (done ++ ranges) g.1 g.2 := by
  induction ranges generalizing f done with
  | nil => cases hg
  | cons r rest ih =>
      obtain ⟨hfirst, hrest⟩ := List.pairwise_cons.mp hsorted
      obtain ⟨hr, hnerest⟩ := List.forall_mem_cons.mp hne
      have hnext : g ∈ gapsFrom (max f r.2) rest → Gap (done ++ r :: rest) g.1 g.2 := by
        intro hmem
        rw [show done ++ r :: rest = (done ++ [r]) ++ rest by simp]
        apply ih (done ++ [r]) hrest hnerest _ _ hmem
        · intro s hs
          rcases List.mem_append.mp hs with hs | hs
          · exact (hdone s hs).trans (le_max_left _ _)
          · rw [List.mem_singleton.mp hs]
            exact le_max_right _ _
        · rcases le_total r.2 f with hle | hle
          · rw [max_eq_left hle]
            rcases hf with h0 | ⟨s, hs, hin⟩
            · exact .inl h0
            · exact .inr ⟨s, List.mem_append_left _ hs, hin⟩
          · rw [max_eq_right hle]
            exact .inr ⟨r, List.mem_append_right _ List.mem_cons_self, by omega, by omega⟩
      unfold gapsFrom at hg
      split_ifs at hg with hgap
      · rcases List.mem_cons.mp hg with rfl | hmem
        · refine ⟨hgap, ?_, ?_, ?_⟩
          · rintro x hx hlt ⟨s, hs, hle, hlt'⟩
            rcases List.mem_append.mp hs with hs | hs
            · have := hdone s hs
              omega
            · rcases List.mem_cons.mp hs with rfl | hs
              · omega
              · have := hfirst s hs
                omega
          · rcases hf with h0 | ⟨s, hs, hin⟩
            · exact .inl h0
            · exact .inr ⟨s, List.mem_append_left _ hs, hin⟩
          · exact ⟨r, List.mem_append_right _ List.mem_cons_self, le_rfl, hr⟩
        · exact hnext hmem
      · exact hnext hg

/-- A gap lies in the free stretch around each of its addresses. -/
theorem Gap.eq_of_le {b e b' e' : ℕ} (h : Gap ranges b e) (h' : Gap ranges b' e') (hb : b ≤ b')
    (hlt : b' < e) : b = b' ∧ e = e' := by
  have hbb : b = b' := by
    by_contra hne
    rcases h'.first with h0 | hcovered
    · omega
    · exact h.free (b' - 1) (by omega) (by omega) hcovered
  refine ⟨hbb, ?_⟩
  rcases lt_trichotomy e e' with hlt' | heq | hlt'
  · exact absurd h.last (h'.free e (by omega) hlt')
  · exact heq
  · exact absurd h'.last (h.free e' (by have := h'.lt; omega) hlt')

/-- The gaps depend on what the ranges cover only. -/
theorem Gap.congr {others : List (ℕ × ℕ)} {b e : ℕ} (h : Gap ranges b e)
    (hcover : ∀ x, InRanges ranges x ↔ InRanges others x) : Gap others b e where
  lt := h.lt
  free x hx hlt hin := h.free x hx hlt ((hcover x).mpr hin)
  first := h.first.imp_right (hcover _).mp
  last := (hcover _).mp h.last

/-- **The gaps the sweep lists.** -/
theorem mem_gapsFrom_iff (hsorted : ranges.Pairwise fun r s => r.1 ≤ s.1)
    (hne : ∀ r ∈ ranges, r.1 < r.2) {b e : ℕ} :
    (b, e) ∈ gapsFrom 0 ranges ↔ Gap ranges b e := by
  constructor
  · intro hmem
    have := gap_of_mem_gapsFrom [] hsorted hne (by simp) (.inl rfl) hmem
    simpa using this
  · intro hgap
    -- the first address of the gap lies in a gap of the sweep
    have hfree : ∀ r ∈ ranges, b + 1 ≤ r.1 ∨ r.2 ≤ b := by
      intro r hr
      by_contra hmeet
      exact hgap.free b le_rfl hgap.lt ⟨r, hr, by omega, by omega⟩
    obtain hend | ⟨g, hg, hle, hin⟩ := gap_of_free hfree Nat.one_pos (Nat.zero_le b)
    · obtain ⟨r, hr, -, hlt⟩ := hgap.last
      have := (sweepEnd_le_iff.mp hend).2 r hr
      have := hgap.lt
      omega
    · have hg' := gap_of_mem_gapsFrom [] hsorted hne (by simp) (.inl rfl) hg
      rw [List.nil_append] at hg'
      obtain ⟨h1, h2⟩ := hg'.eq_of_le hgap hle (by omega)
      rw [← h1, ← h2]
      exact hg

theorem Gap.free_of_le {b e : ℕ} (h : Gap ranges b e) (hne : ∀ r ∈ ranges, r.1 < r.2)
    (hsize : 0 < size) (hb : b ≤ n) (he : n + size ≤ e) : ∀ r ∈ ranges, n + size ≤ r.1 ∨ r.2 ≤ n := by
  intro r hr
  have := hne r hr
  by_contra hmeet
  exact h.free (max n r.1) (by omega) (by omega) ⟨r, hr, by omega, by omega⟩

end ranges

end Theory
