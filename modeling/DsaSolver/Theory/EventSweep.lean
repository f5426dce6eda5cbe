import DsaSolver.Theory.Packing
import DsaSolver.Theory.RangeUnion
import Mathlib.Algebra.BigOperators.Group.List.Basic
import Mathlib.Algebra.Order.BigOperators.Group.List
import Mathlib.Order.Interval.Finset.Nat
import Mathlib.Algebra.Order.BigOperators.Group.Finset

/-! # Sweeps over the events of weighted spans

A span `[start, stop)` has a weight.  A sweep over the ascending starts and stops that subtracts
what stops and then adds what starts never subtracts too much, and after each event it holds the
weight at its time (`activeAfter_step`, `activeAfter_eq_weightAt`).  No time has more weight than
some event (`weightAt_le_of_events`).  Spans that lie apart below a height fill no more than it
(`sum_size_le_of_apart`). -/

namespace Theory

variable {τ : Type*}

structure Span (τ : Type*) where
  start : τ
  stop : τ
  weight : ℕ

/-- The sum of the weights of the spans with the property. -/
def weightOf (spans : List (Span τ)) (p : Span τ → Prop) [DecidablePred p] : ℕ :=
  (spans.map fun s => if p s then s.weight else 0).sum

theorem weightOf_cons (s : Span τ) (spans : List (Span τ)) (p : Span τ → Prop) [DecidablePred p] :
    weightOf (s :: spans) p = (if p s then s.weight else 0) + weightOf spans p := by
  simp [weightOf]

theorem weightOf_append (first second : List (Span τ)) (p : Span τ → Prop) [DecidablePred p] :
    weightOf (first ++ second) p = weightOf first p + weightOf second p := by
  simp [weightOf]

theorem weightOf_mono {spans : List (Span τ)} {p q : Span τ → Prop} [DecidablePred p]
    [DecidablePred q] (h : ∀ s ∈ spans, p s → q s) : weightOf spans p ≤ weightOf spans q := by
  apply List.sum_le_sum
  intro s hs
  by_cases hp : p s
  · rw [if_pos hp, if_pos (h s hs hp)]
  · rw [if_neg hp]
    exact Nat.zero_le _

theorem weightOf_congr {spans : List (Span τ)} {p q : Span τ → Prop} [DecidablePred p]
    [DecidablePred q] (h : ∀ s ∈ spans, p s ↔ q s) : weightOf spans p = weightOf spans q :=
  Nat.le_antisymm (weightOf_mono fun s hs => (h s hs).mp) (weightOf_mono fun s hs => (h s hs).mpr)

variable [LinearOrder τ]

/-- The weight at a time. -/
def weightAt (spans : List (Span τ)) (t : τ) : ℕ := weightOf spans fun s => s.start ≤ t ∧ t < s.stop

def startingAt (spans : List (Span τ)) (t : τ) : ℕ := weightOf spans fun s => s.start = t

def endingAt (spans : List (Span τ)) (t : τ) : ℕ := weightOf spans fun s => s.stop = t

/-- The weight of the spans that started but did not stop in the events done. -/
def activeAfter (spans : List (Span τ)) (done : List τ) : ℕ :=
  weightOf spans fun s => s.start ∈ done ∧ s.stop ∉ done

/-- The times are the ascending events of the spans, none of them empty. -/
structure EventsOf (spans : List (Span τ)) (times : List τ) : Prop where
  sorted : times.Pairwise (· < ·)
  proper : ∀ s ∈ spans, s.start < s.stop
  starts : ∀ s ∈ spans, s.start ∈ times
  stops : ∀ s ∈ spans, s.stop ∈ times

section sweep

variable {spans : List (Span τ)} {times done rest : List τ} {t : τ}

/-- The events done are those before the next one. -/
theorem mem_done_iff (h : (done ++ t :: rest).Pairwise (· < ·)) {x : τ}
    (hx : x ∈ done ++ t :: rest) : x ∈ done ↔ x < t := by
  obtain ⟨hdone, hrest, hcross⟩ := List.pairwise_append.mp h
  constructor
  · exact fun hmem => hcross x hmem t List.mem_cons_self
  · intro hlt
    rcases List.mem_append.mp hx with hmem | hmem
    · exact hmem
    · rcases List.mem_cons.mp hmem with rfl | hmem
      · exact absurd hlt (lt_irrefl x)
      · exact absurd hlt (lt_asymm ((List.pairwise_cons.mp hrest).1 x hmem))

theorem activeAfter_nil : activeAfter spans [] = 0 := by
  simp [activeAfter, weightOf]

/-- What one event does to the active weight. -/
theorem activeAfter_step (h : EventsOf spans (done ++ t :: rest)) :
    endingAt spans t ≤ activeAfter spans done ∧
      activeAfter spans (done ++ [t]) + endingAt spans t =
        activeAfter spans done + startingAt spans t := by
  have hstart : ∀ s ∈ spans, s.start ∈ done ↔ s.start < t := fun s hs =>
    mem_done_iff h.sorted (h.starts s hs)
  have hstop : ∀ s ∈ spans, s.stop ∈ done ↔ s.stop < t := fun s hs =>
    mem_done_iff h.sorted (h.stops s hs)
  constructor
  · refine weightOf_mono fun s hs heq => ?_
    rw [hstart s hs, hstop s hs, heq]
    exact ⟨heq ▸ h.proper s hs, lt_irrefl t⟩
  · have hproper := h.proper
    clear h
    induction spans with
    | nil => rfl
    | cons s spans ih =>
        rw [List.forall_mem_cons] at hstart hstop hproper
        have hrest := ih hstart.2 hstop.2 hproper.2
        have hone : (if s.start ∈ done ++ [t] ∧ s.stop ∉ done ++ [t] then s.weight else 0) +
            (if s.stop = t then s.weight else 0) =
              (if s.start ∈ done ∧ s.stop ∉ done then s.weight else 0) +
                if s.start = t then s.weight else 0 := by
          simp only [List.mem_append, List.mem_singleton, hstart.1, hstop.1, not_or, not_lt]
          have hlt := hproper.1
          rcases lt_trichotomy s.start t with hs | hs | hs
          · rcases lt_trichotomy s.stop t with hp | hp | hp
            · simp [hs, hs.ne, hp.ne]
            · simp [hs, hs.ne, hp]
            · simp [hs, hs.ne, hp.le, hp.ne']
          · simp [hs, (hs ▸ hlt).le, (hs ▸ hlt).ne']
          · simp [hs.not_gt, hs.ne', (hs.trans hlt).ne']
        simp only [activeAfter, endingAt, startingAt, weightOf_cons] at hrest ⊢
        omega

/-- After an event the active weight is the weight at its time. -/
theorem activeAfter_eq_weightAt (h : EventsOf spans (done ++ t :: rest)) :
    activeAfter spans (done ++ [t]) = weightAt spans t := by
  refine weightOf_congr fun s hs => ?_
  rw [List.mem_append, List.mem_append, List.mem_singleton, List.mem_singleton,
    mem_done_iff h.sorted (h.starts s hs), mem_done_iff h.sorted (h.stops s hs), ← le_iff_lt_or_eq,
    ← le_iff_lt_or_eq, not_le]

/-- At any time the weight is at most that of the last event before it. -/
theorem weightAt_le_of_events (h : EventsOf spans times) {bound : ℕ}
    (hbound : ∀ t ∈ times, weightAt spans t ≤ bound) (t : τ) : weightAt spans t ≤ bound := by
  by_cases hnone : ∃ s ∈ spans, s.start ≤ t
  · obtain ⟨s, hs, hle⟩ := hnone
    have hmem : s.start ∈ times.filter (· ≤ t) :=
      List.mem_filter.mpr ⟨h.starts s hs, by simpa using hle⟩
    obtain ⟨last, hlast⟩ : ∃ last, (times.filter (· ≤ t)).getLast? = some last := by
      rw [← Option.isSome_iff_exists, List.getLast?_isSome]
      exact List.ne_nil_of_mem hmem
    have hlastMem := List.mem_filter.mp (List.mem_of_getLast? hlast)
    have hlastLe : last ≤ t := by simpa using hlastMem.2
    have hbelow : ∀ x ∈ times, x ≤ t → x ≤ last := by
      intro x hx hle
      obtain ⟨before, hbefore⟩ := List.getLast?_eq_some_iff.mp hlast
      have hsorted := h.sorted.filter (· ≤ t)
      have hx' : x ∈ times.filter (· ≤ t) := List.mem_filter.mpr ⟨hx, by simpa using hle⟩
      rw [hbefore] at hsorted hx'
      rcases List.mem_append.mp hx' with hx' | hx'
      · exact ((List.pairwise_append.mp hsorted).2.2 x hx' last List.mem_cons_self).le
      · exact (List.mem_singleton.mp hx').le
    refine le_trans (weightOf_mono fun s hs hspan => ?_) (hbound last hlastMem.1)
    exact ⟨hbelow _ (h.starts s hs) hspan.1, hlastLe.trans_lt hspan.2⟩
  · have hzero : weightAt spans t = weightOf spans fun _ => False :=
      weightOf_congr fun s hs => ⟨fun hspan => hnone ⟨s, hs, hspan.1⟩, False.elim⟩
    rw [hzero]
    simp [weightOf]

end sweep

/-- Separated ranges of one weight count once where they cover. -/
theorem sum_separated {ranges : List (τ × τ)} (h : SeparatedRanges ranges) (weight : ℕ) (x : τ) :
    weightAt (ranges.map fun r => ⟨r.1, r.2, weight⟩) x =
      if InRanges ranges x then weight else 0 := by
  induction ranges with
  | nil => simp [weightAt, weightOf, InRanges]
  | cons r rest ih =>
      have hrest := ih h.tail
      unfold weightAt at hrest ⊢
      rw [List.map_cons, weightOf_cons, hrest]
      by_cases hr : r.1 ≤ x ∧ x < r.2
      · have hnot : ¬InRanges rest x := fun hx => lt_asymm (h.lt_of_tail hx) hr.2
        rw [if_pos hr, if_neg hnot, if_pos (inRanges_cons.mpr (.inl hr)), Nat.add_zero]
      · rw [if_neg hr, Nat.zero_add]
        exact if_congr (by rw [inRanges_cons, or_iff_right hr]) rfl rfl

/-! ### Packed sizes -/

/-- Ranges that lie apart below a height fill no more than it. -/
theorem sum_size_le_of_apart {ι : Type*} (s : Finset ι) (offset size : ι → ℕ) {height : ℕ}
    (hapart : ∀ i ∈ s, ∀ j ∈ s, i ≠ j → Apart (offset i) (size i) (offset j) (size j))
    (hheight : ∀ i ∈ s, offset i + size i ≤ height) : ∑ i ∈ s, size i ≤ height := by
  classical
  have hdisjoint : ∀ i ∈ s, ∀ j ∈ s, i ≠ j →
      Disjoint (Finset.Ico (offset i) (offset i + size i))
        (Finset.Ico (offset j) (offset j + size j)) := by
    intro i hi j hj hne
    rw [Finset.disjoint_left]
    intro x hx hx'
    rw [Finset.mem_Ico] at hx hx'
    have := hapart i hi j hj hne
    unfold Apart at this
    omega
  calc ∑ i ∈ s, size i
      = ∑ i ∈ s, (Finset.Ico (offset i) (offset i + size i)).card := by simp
    _ = (s.biUnion fun i => Finset.Ico (offset i) (offset i + size i)).card :=
        (Finset.card_biUnion hdisjoint).symm
    _ ≤ (Finset.range height).card := by
        apply Finset.card_le_card
        intro x hx
        obtain ⟨i, hi, hx⟩ := Finset.mem_biUnion.mp hx
        rw [Finset.mem_Ico] at hx
        have := hheight i hi
        exact Finset.mem_range.mpr (by omega)
    _ = height := Finset.card_range height

end Theory
