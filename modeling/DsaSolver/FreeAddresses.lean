import DsaSolver.AddressSearch
import DsaSolver.Theory.FreeGaps

/-! # First fit is least, best fit is tight

First fit finds the least free offset whenever there is one (`findFirstFit_exact`).  Best fit
finds the tightest gap, but it gives up at the first gap whose beginning cannot be aligned, also
when an earlier gap fits (`findBestFit_exact_iff`). -/

namespace Dsa

open Theory (FreeBlock Gap gapsFrom sweepEnd)

/-- The bounds of the ranges. -/
def bounds (blocked : List AddressRange) : List (ℕ × ℕ) :=
  blocked.map fun range => (range.first.toNat, range.last.toNat)

/-- The aligned offsets at which the request is representable and meets no range. -/
def freeOffsets (request : FitRequest) (blocked : List AddressRange) : Set ℕ :=
  {n | request.alignment.toNat ∣ n ∧ n + request.size.toNat < 2 ^ 64 ∧
    FreeBlock (bounds blocked) n request.size.toNat}

section exact

variable {request : FitRequest} {blocked : List AddressRange} {offset : UInt64}

theorem toNat_pos {a : UInt64} (h : a ≠ 0) : 0 < a.toNat := Nat.pos_of_ne_zero (toNat_ne_zero h)

theorem bounds_nonempty (hblocked : ∀ range ∈ blocked, range.first < range.last) :
    ∀ r ∈ bounds blocked, r.1 < r.2 := by
  intro r hr
  obtain ⟨range, hrange, rfl⟩ := List.mem_map.mp hr
  exact UInt64.lt_iff_toNat_lt.mp (hblocked range hrange)

theorem mem_freeOffsets_iff (hsize : request.size ≠ 0)
    (hblocked : ∀ range ∈ blocked, range.first < range.last) {n : ℕ} :
    n ∈ freeOffsets request blocked ↔ request.alignment.toNat ∣ n ∧
      n + request.size.toNat < 2 ^ 64 ∧ ∀ range ∈ blocked,
        n + request.size.toNat ≤ range.first.toNat ∨ range.last.toNat ≤ n := by
  refine and_congr_right fun _ => and_congr_right fun _ => ?_
  rw [Theory.freeBlock_iff (toNat_pos hsize) (bounds_nonempty hblocked)]
  unfold bounds
  rw [List.forall_mem_map]

/-- Aligning fails when no aligned word is large enough. -/
theorem alignUp_eq_none_iff {value alignment : UInt64} :
    alignUp value alignment = none ↔ 2 ^ 64 ≤ Theory.alignUp value.toNat alignment.toNat := by
  constructor
  · intro hnone
    by_contra hlt
    rw [not_le] at hlt
    have hsome : alignUp value alignment =
        some (UInt64.ofNat (Theory.alignUp value.toNat alignment.toNat)) := by
      rw [alignUp_eq_some_iff, UInt64.toNat_ofNat_of_lt' hlt]
    rw [hnone] at hsome
    cases hsome
  · intro hle
    cases hup : alignUp value alignment with
    | none => rfl
    | some result =>
        have := toNat_alignUp hup
        have := result.toNat_lt
        omega

/-! ### First fit -/

theorem finishFit_of_lt {candidate : UInt64}
    (h : candidate.toNat + request.size.toNat < 2 ^ 64) :
    finishFit request candidate = some candidate := by
  unfold finishFit
  rw [if_neg]
  rw [Bool.not_eq_true, Theory.addOverflows_eq_false_iff]
  exact h

/-- First fit does not pass a free offset. -/
theorem firstFitFrom_le {candidate : UInt64} {n : ℕ}
    (haligned : request.alignment.toNat ∣ n) (hrange : n + request.size.toNat < 2 ^ 64)
    (hclear : ∀ range ∈ blocked, n + request.size.toNat ≤ range.first.toNat ∨
      range.last.toNat ≤ n) (hle : candidate.toNat ≤ n) :
    ∃ offset, firstFitFrom request candidate blocked = some offset ∧ offset.toNat ≤ n := by
  induction blocked generalizing candidate with
  | nil => exact ⟨candidate, finishFit_of_lt (by omega), hle⟩
  | cons range rest ih =>
      obtain ⟨hfirst, hrest⟩ := List.forall_mem_cons.mp hclear
      have hfits : candidate.toNat + request.size.toNat < 2 ^ 64 := by omega
      unfold firstFitFrom
      rw [if_neg (by rw [Bool.not_eq_true, Theory.addOverflows_eq_false_iff]; exact hfits)]
      split_ifs with hbreak hlast
      · exact ⟨candidate, finishFit_of_lt hfits, hle⟩
      · -- the range reaches beyond the candidate, so the free offset lies after it
        rw [ge_iff_le, UInt64.le_iff_toNat_le, Theory.toNat_add_of_lt hfits, not_le] at hbreak
        have hafter : range.last.toNat ≤ n := by omega
        have hup := Theory.alignUp_le hafter haligned
        cases hnext : alignUp range.last request.alignment with
        | none =>
            rw [alignUp_eq_none_iff] at hnext
            omega
        | some next =>
            exact ih hrest (by rw [toNat_alignUp hnext]; exact hup)
      · exact ih hrest hle

theorem findFirstFit_le {n : ℕ} (haligned : request.alignment.toNat ∣ n)
    (hrange : n + request.size.toNat < 2 ^ 64)
    (hclear : ∀ range ∈ blocked, n + request.size.toNat ≤ range.first.toNat ∨
      range.last.toNat ≤ n) :
    ∃ offset, findFirstFit request blocked = some offset ∧ offset.toNat ≤ n := by
  unfold findFirstFit
  have hup := Theory.alignUp_le (Nat.zero_le n) haligned
  cases hzero : alignUp 0 request.alignment with
  | none =>
      rw [alignUp_eq_none_iff, UInt64.toNat_zero] at hzero
      omega
  | some candidate =>
      apply firstFitFrom_le haligned hrange (fun range hmem => hclear range (mem_sortRanges.mp hmem))
      rw [toNat_alignUp hzero, UInt64.toNat_zero]
      exact hup

/-- **First fit is least.** -/
theorem findFirstFit_exact (hsize : request.size ≠ 0) (halignment : request.alignment ≠ 0)
    (hblocked : ∀ range ∈ blocked, range.first < range.last) :
    (∀ offset, findFirstFit request blocked = some offset ↔
      IsLeast (freeOffsets request blocked) offset.toNat) ∧
    (findFirstFit request blocked = none ↔ freeOffsets request blocked = ∅) := by
  have hleast : ∀ offset, findFirstFit request blocked = some offset →
      IsLeast (freeOffsets request blocked) offset.toNat := by
    intro offset hfound
    obtain ⟨haligned, hrange, hclear⟩ := findFirstFit_fits halignment hfound
    refine ⟨(mem_freeOffsets_iff hsize hblocked).mpr ⟨haligned, hrange, hclear⟩, ?_⟩
    intro n hn
    obtain ⟨hdvd, hlt, hfree⟩ := (mem_freeOffsets_iff hsize hblocked).mp hn
    obtain ⟨other, hother, hle⟩ := findFirstFit_le hdvd hlt hfree
    rw [hfound] at hother
    exact Option.some.inj hother ▸ hle
  have hsome : ∀ n ∈ freeOffsets request blocked,
      ∃ offset, findFirstFit request blocked = some offset := by
    intro n hn
    obtain ⟨hdvd, hlt, hfree⟩ := (mem_freeOffsets_iff hsize hblocked).mp hn
    obtain ⟨offset, hoffset, -⟩ := findFirstFit_le hdvd hlt hfree
    exact ⟨offset, hoffset⟩
  refine ⟨fun offset => ⟨hleast offset, fun h => ?_⟩, ?_, ?_⟩
  · obtain ⟨other, hother⟩ := hsome _ h.1
    rw [hother, UInt64.toNat_inj.mp ((hleast other hother).unique h)]
  · intro hnone
    apply Set.eq_empty_of_forall_notMem
    intro n hn
    obtain ⟨offset, hoffset⟩ := hsome n hn
    rw [hnone] at hoffset
    cases hoffset
  · intro hempty
    cases hfound : findFirstFit request blocked with
    | none => rfl
    | some offset =>
        have := (hleast offset hfound).1
        rw [hempty] at this
        cases this

end exact

/-- A gap before the last range is used before the end. -/
theorem findFirstFit_exact_gap :
    IsLeast (freeOffsets ⟨4, 8⟩ [⟨20, 30⟩, ⟨0, 6⟩, ⟨2, 7⟩]) (8 : UInt64).toNat :=
  ((findFirstFit_exact (by decide) (by decide) (by decide)).1 8).mp (by decide)

/-! ### Best fit -/

/-- The aligned start of a gap. -/
def gapStart (request : FitRequest) (b : ℕ) : ℕ := Theory.alignUp b request.alignment.toNat

/-- The request fits a gap from its aligned start. -/
def FitsGap (request : FitRequest) (g : ℕ × ℕ) : Prop :=
  gapStart request g.1 + request.size.toNat ≤ g.2

/-- The first gap has the smaller rest, or the same rest at a smaller offset. -/
def Tighter (request : FitRequest) (g g' : ℕ × ℕ) : Prop :=
  g.2 - gapStart request g.1 < g'.2 - gapStart request g'.1 ∨
    g.2 - gapStart request g.1 = g'.2 - gapStart request g'.1 ∧
      gapStart request g.1 ≤ gapStart request g'.1

/-- What best fit is to return. -/
structure BestFitOk (request : FitRequest) (blocked : List AddressRange)
    (result : Option UInt64) : Prop where
  tightest : (∃ g : ℕ × ℕ, Gap (bounds blocked) g.1 g.2 ∧ FitsGap request g) →
    ∃ offset, ∃ g : ℕ × ℕ, result = some offset ∧ Gap (bounds blocked) g.1 g.2 ∧
      FitsGap request g ∧ offset.toNat = gapStart request g.1 ∧
        ∀ g' : ℕ × ℕ, Gap (bounds blocked) g'.1 g'.2 → FitsGap request g' → Tighter request g g'
  beyond : (¬∃ g : ℕ × ℕ, Gap (bounds blocked) g.1 g.2 ∧ FitsGap request g) →
    ∀ offset, result = some offset →
      IsLeast {n | request.alignment.toNat ∣ n ∧ ∀ range ∈ blocked, range.last.toNat ≤ n}
        offset.toNat
  none_iff : result = none ↔ freeOffsets request blocked = ∅

section best

variable {request : FitRequest} {blocked : List AddressRange}

/-- `best` is the tightest of the gaps seen. -/
def BestOf (request : FitRequest) (seen : List (ℕ × ℕ)) (best : BestChunk) : Prop :=
  match best.offset with
  | none => ∀ g ∈ seen, ¬FitsGap request g
  | some offset => ∃ g ∈ seen, FitsGap request g ∧ offset.toNat = gapStart request g.1 ∧
      best.size.toNat = g.2 - gapStart request g.1 ∧
        ∀ g' ∈ seen, FitsGap request g' → Tighter request g g'

theorem BestOf.skip {seen : List (ℕ × ℕ)} {best : BestChunk} (h : BestOf request seen best)
    {g : ℕ × ℕ} (hg : ¬FitsGap request g) : BestOf request (seen ++ [g]) best := by
  unfold BestOf at h ⊢
  cases hoffset : best.offset with
  | none =>
      rw [hoffset] at h
      intro g' hg'
      rcases List.mem_append.mp hg' with hold | hnew
      · exact h g' hold
      · rw [List.mem_singleton.mp hnew]
        exact hg
  | some offset =>
      rw [hoffset] at h
      obtain ⟨w, hw, hfits, hstart, hrest, hbest⟩ := h
      refine ⟨w, List.mem_append_left _ hw, hfits, hstart, hrest, fun g' hg' hfits' => ?_⟩
      rcases List.mem_append.mp hg' with hold | hnew
      · exact hbest g' hold hfits'
      · rw [List.mem_singleton.mp hnew] at hfits'
        exact absurd hfits' hg

theorem BestOf.improve {seen : List (ℕ × ℕ)} {best : BestChunk} (h : BestOf request seen best)
    {g : ℕ × ℕ} (hg : FitsGap request g) {candidate chunkSize : UInt64}
    (hcandidate : candidate.toNat = gapStart request g.1)
    (hchunk : chunkSize.toNat = g.2 - gapStart request g.1) :
    BestOf request (seen ++ [g]) (best.improve candidate chunkSize) := by
  have hself : Tighter request g g := .inr ⟨rfl, le_rfl⟩
  unfold BestOf at h
  unfold BestChunk.improve
  cases hoffset : best.offset with
  | none =>
      rw [hoffset] at h
      refine ⟨g, List.mem_append_right _ List.mem_cons_self, hg, hcandidate, hchunk,
        fun g' hg' hfits => ?_⟩
      rcases List.mem_append.mp hg' with hold | hnew
      · exact absurd hfits (h g' hold)
      · rw [List.mem_singleton.mp hnew]
        exact hself
  | some offset =>
      rw [hoffset] at h
      obtain ⟨w, hw, hfits, hstart, hrest, hbest⟩ := h
      dsimp only
      split_ifs with hbetter
      · -- the new gap is tighter than the best one, hence than all
        have htighter : Tighter request g w := by
          simp only [Bool.or_eq_true, Bool.and_eq_true, decide_eq_true_eq, beq_iff_eq,
            UInt64.lt_iff_toNat_lt, ← UInt64.toNat_inj] at hbetter
          unfold Tighter
          omega
        refine ⟨g, List.mem_append_right _ List.mem_cons_self, hg, hcandidate, hchunk,
          fun g' hg' hfits' => ?_⟩
        rcases List.mem_append.mp hg' with hold | hnew
        · have := hbest g' hold hfits'
          unfold Tighter at this htighter ⊢
          omega
        · rw [List.mem_singleton.mp hnew]
          exact hself
      · unfold BestOf
        rw [hoffset]
        refine ⟨w, List.mem_append_left _ hw, hfits, hstart, hrest, fun g' hg' hfits' => ?_⟩
        rcases List.mem_append.mp hg' with hold | hnew
        · exact hbest g' hold hfits'
        · rw [List.mem_singleton.mp hnew]
          simp only [Bool.or_eq_true, Bool.and_eq_true, decide_eq_true_eq, beq_iff_eq,
            UInt64.lt_iff_toNat_lt, ← UInt64.toNat_inj] at hbetter
          unfold Tighter
          omega

theorem bounds_cons (range : AddressRange) (rest : List AddressRange) :
    bounds (range :: rest) = (range.first.toNat, range.last.toNat) :: bounds rest := rfl

/-- The run lemma: with every gap alignable, the loop keeps the tightest. -/
theorem bestFitFrom_alignable (hblocked : ∀ range ∈ blocked, range.first < range.last)
    {seen : List (ℕ × ℕ)} {best : BestChunk} {freeBegin : UInt64} (hbest : BestOf request seen best)
    (halignable : ∀ g ∈ gapsFrom freeBegin.toNat (bounds blocked), gapStart request g.1 < 2 ^ 64) :
    ∃ final : BestChunk, ∃ freeEnd : UInt64,
      BestOf request (seen ++ gapsFrom freeBegin.toNat (bounds blocked)) final ∧
        freeEnd.toNat = sweepEnd freeBegin.toNat (bounds blocked) ∧
          bestFitFrom request best freeBegin blocked = bestFitFrom request final freeEnd [] := by
  induction blocked generalizing seen best freeBegin with
  | nil =>
      refine ⟨best, freeBegin, ?_, rfl, rfl⟩
      rw [show gapsFrom freeBegin.toNat (bounds []) = [] from rfl, List.append_nil]
      exact hbest
  | cons range rest ih =>
      obtain ⟨hrange, hrest⟩ := List.forall_mem_cons.mp hblocked
      have hlt := UInt64.lt_iff_toNat_lt.mp hrange
      have hmax : (max freeBegin range.last).toNat = max freeBegin.toNat range.last.toNat :=
        Theory.toNat_max _ _
      rw [bounds_cons] at halignable ⊢
      have hend : sweepEnd freeBegin.toNat
          ((range.first.toNat, range.last.toNat) :: bounds rest) =
            sweepEnd (max freeBegin.toNat range.last.toNat) (bounds rest) := rfl
      rw [hend]
      unfold gapsFrom at halignable ⊢
      dsimp only at halignable ⊢
      unfold bestFitFrom
      by_cases hbelow : range.last ≤ freeBegin
      · have hle := UInt64.le_iff_toNat_le.mp hbelow
        rw [if_pos hbelow]
        rw [if_neg (by omega), max_eq_left hle] at halignable ⊢
        exact ih hrest hbest halignable
      · rw [if_neg hbelow]
        by_cases hgap : range.first > freeBegin
        · have hgap' := UInt64.lt_iff_toNat_lt.mp hgap
          rw [if_pos hgap]
          rw [if_pos hgap'] at halignable ⊢
          obtain ⟨hstart, hothers⟩ := List.forall_mem_cons.mp halignable
          cases hup : alignUp freeBegin request.alignment with
          | none =>
              rw [alignUp_eq_none_iff] at hup
              unfold gapStart at hstart
              dsimp only at hstart
              omega
          | some candidate =>
              have hcandidate : candidate.toNat = gapStart request freeBegin.toNat :=
                toNat_alignUp hup
              rw [← hmax] at hothers ⊢
              dsimp only
              rw [show seen ++ (freeBegin.toNat, range.first.toNat) ::
                  gapsFrom (max freeBegin range.last).toNat (bounds rest) =
                    (seen ++ [(freeBegin.toNat, range.first.toNat)]) ++
                      gapsFrom (max freeBegin range.last).toNat (bounds rest) by simp]
              split_ifs with hroom
              · rw [Bool.and_eq_true, decide_eq_true_eq, decide_eq_true_eq,
                  UInt64.le_iff_toNat_le, UInt64.le_iff_toNat_le] at hroom
                obtain ⟨hstart', hsize⟩ := hroom
                have hsub := UInt64.toNat_sub_of_le _ _ (UInt64.le_iff_toNat_le.mpr hstart')
                rw [hsub] at hsize
                apply ih hrest _ hothers
                apply hbest.improve
                · unfold FitsGap
                  dsimp only
                  omega
                · exact hcandidate
                · rw [hsub, hcandidate]
              · apply ih hrest _ hothers
                apply hbest.skip
                intro hfits
                unfold FitsGap at hfits
                dsimp only at hfits
                apply hroom
                have hle : candidate.toNat ≤ range.first.toNat := by omega
                rw [Bool.and_eq_true, decide_eq_true_eq, decide_eq_true_eq,
                  UInt64.le_iff_toNat_le, UInt64.le_iff_toNat_le,
                  UInt64.toNat_sub_of_le _ _ (UInt64.le_iff_toNat_le.mpr hle)]
                omega
        · have hgap' : ¬freeBegin.toNat < range.first.toNat := fun h =>
            hgap (UInt64.lt_iff_toNat_lt.mpr h)
          rw [if_neg hgap]
          rw [if_neg hgap', ← hmax] at halignable ⊢
          exact ih hrest hbest halignable

/-- The loop gives up at a gap whose beginning cannot be aligned. -/
theorem bestFitFrom_unalignable (hblocked : ∀ range ∈ blocked, range.first < range.last)
    {best : BestChunk} {freeBegin : UInt64}
    (hgap : ∃ g ∈ gapsFrom freeBegin.toNat (bounds blocked), 2 ^ 64 ≤ gapStart request g.1) :
    bestFitFrom request best freeBegin blocked = none := by
  induction blocked generalizing best freeBegin with
  | nil =>
      obtain ⟨g, hg, -⟩ := hgap
      cases hg
  | cons range rest ih =>
      obtain ⟨hrange, hrest⟩ := List.forall_mem_cons.mp hblocked
      have hlt := UInt64.lt_iff_toNat_lt.mp hrange
      have hmax : (max freeBegin range.last).toNat = max freeBegin.toNat range.last.toNat :=
        Theory.toNat_max _ _
      rw [bounds_cons] at hgap
      unfold gapsFrom at hgap
      dsimp only at hgap
      unfold bestFitFrom
      by_cases hbelow : range.last ≤ freeBegin
      · have hle := UInt64.le_iff_toNat_le.mp hbelow
        rw [if_pos hbelow]
        rw [if_neg (by omega), max_eq_left hle] at hgap
        exact ih hrest hgap
      · rw [if_neg hbelow]
        by_cases hfirst : range.first > freeBegin
        · rw [if_pos hfirst]
          rw [if_pos (UInt64.lt_iff_toNat_lt.mp hfirst), ← hmax] at hgap
          cases hup : alignUp freeBegin request.alignment with
          | none => rfl
          | some candidate =>
              obtain ⟨g, hg, hover⟩ := hgap
              rcases List.mem_cons.mp hg with rfl | hg
              · have := toNat_alignUp hup
                have := candidate.toNat_lt
                unfold gapStart at hover
                dsimp only at hover
                omega
              · dsimp only
                split_ifs
                · exact ih hrest ⟨g, hg, hover⟩
                · exact ih hrest ⟨g, hg, hover⟩
        · rw [if_neg hfirst]
          rw [if_neg (fun h => hfirst (UInt64.lt_iff_toNat_lt.mpr h)), ← hmax] at hgap
          exact ih hrest hgap

/-- The sorted ranges cover what the ranges cover. -/
theorem gap_sortRanges_iff {b e : ℕ} :
    Gap (bounds (sortRanges blocked)) b e ↔ Gap (bounds blocked) b e := by
  have hcover : ∀ x, Theory.InRanges (bounds (sortRanges blocked)) x ↔
      Theory.InRanges (bounds blocked) x := by
    intro x
    simp only [Theory.InRanges, bounds, List.mem_map, mem_sortRanges]
  exact ⟨fun h => h.congr hcover, fun h => h.congr fun x => (hcover x).symm⟩

theorem mem_gapsFrom_sortRanges_iff (hblocked : ∀ range ∈ blocked, range.first < range.last)
    {g : ℕ × ℕ} :
    g ∈ gapsFrom (0 : UInt64).toNat (bounds (sortRanges blocked)) ↔
      Gap (bounds blocked) g.1 g.2 := by
  have hsorted : (bounds (sortRanges blocked)).Pairwise fun r s => r.1 ≤ s.1 := by
    unfold bounds
    rw [List.pairwise_map]
    exact sortRanges_sorted blocked
  have hne := bounds_nonempty fun range hmem => hblocked range (mem_sortRanges.mp hmem)
  rw [UInt64.toNat_zero, ← gap_sortRanges_iff]
  exact Theory.mem_gapsFrom_iff hsorted hne

/-- A free offset that lies in no gap lies beyond all ranges. -/
theorem gap_of_freeOffset (hsize : request.size ≠ 0)
    (hblocked : ∀ range ∈ blocked, range.first < range.last) {n : ℕ}
    (hn : n ∈ freeOffsets request blocked) :
    (∀ range ∈ blocked, range.last.toNat ≤ n) ∨ ∃ g : ℕ × ℕ, Gap (bounds blocked) g.1 g.2 ∧
      FitsGap request g ∧ gapStart request g.1 ≤ n := by
  obtain ⟨hdvd, -, hfree⟩ := (mem_freeOffsets_iff hsize hblocked).mp hn
  have hfree' : ∀ r ∈ bounds (sortRanges blocked), n + request.size.toNat ≤ r.1 ∨ r.2 ≤ n := by
    intro r hr
    obtain ⟨range, hrange, rfl⟩ := List.mem_map.mp hr
    exact hfree range (mem_sortRanges.mp hrange)
  obtain hend | ⟨g, hg, hle, hin⟩ := Theory.gap_of_free hfree' (toNat_pos hsize) (Nat.zero_le n)
  · refine .inl fun range hrange => ?_
    exact (Theory.sweepEnd_le_iff.mp hend).2 _
      (List.mem_map.mpr ⟨range, mem_sortRanges.mpr hrange, rfl⟩)
  · have hstart : gapStart request g.1 ≤ n := Theory.alignUp_le hle hdvd
    have hfits : FitsGap request g := by
      unfold FitsGap
      omega
    exact .inr ⟨g, (mem_gapsFrom_sortRanges_iff hblocked).mp hg, hfits, hstart⟩

/-- The start of a gap that fits is a free offset. -/
theorem gapStart_mem_freeOffsets (hsize : request.size ≠ 0) (halignment : request.alignment ≠ 0)
    (hblocked : ∀ range ∈ blocked, range.first < range.last) {g : ℕ × ℕ}
    (hgap : Gap (bounds blocked) g.1 g.2) (hfits : FitsGap request g) :
    gapStart request g.1 ∈ freeOffsets request blocked := by
  have hle : g.1 ≤ gapStart request g.1 := Theory.le_alignUp _ _
  have hclear := hgap.free_of_le (bounds_nonempty hblocked) (toNat_pos hsize) hle hfits
  refine (mem_freeOffsets_iff hsize hblocked).mpr ⟨Theory.dvd_alignUp (toNat_pos halignment) _, ?_,
    fun range hrange => hclear _ (List.mem_map.mpr ⟨range, hrange, rfl⟩)⟩
  obtain ⟨r, hr, -, hlast⟩ := hgap.last
  obtain ⟨range, -, rfl⟩ := List.mem_map.mp hr
  have := range.last.toNat_lt
  unfold FitsGap at hfits
  dsimp only at hlast
  omega

/-- With every gap alignable, best fit is exact. -/
theorem findBestFit_of_alignable (hsize : request.size ≠ 0) (halignment : request.alignment ≠ 0)
    (hblocked : ∀ range ∈ blocked, range.first < range.last)
    (halignable : ∀ g : ℕ × ℕ, Gap (bounds blocked) g.1 g.2 → gapStart request g.1 < 2 ^ 64) :
    BestFitOk request blocked (findBestFit request blocked) := by
  have hstart : BestOf request [] {} := fun g hg => by cases hg
  have hgaps : ∀ g ∈ gapsFrom (0 : UInt64).toNat (bounds (sortRanges blocked)),
      gapStart request g.1 < 2 ^ 64 := fun g hg =>
    halignable g ((mem_gapsFrom_sortRanges_iff hblocked).mp hg)
  obtain ⟨final, freeEnd, hfinal, hend, hrun⟩ :=
    bestFitFrom_alignable (fun range hmem => hblocked range (mem_sortRanges.mp hmem)) hstart hgaps
  rw [List.nil_append] at hfinal
  have hresult : findBestFit request blocked = bestFitFrom request final freeEnd [] := hrun
  unfold BestOf at hfinal
  unfold bestFitFrom at hresult
  cases hoffset : final.offset with
  | some offset =>
      rw [hoffset] at hfinal hresult
      obtain ⟨g, hg, hfits, hat, -, hbest⟩ := hfinal
      have hgap := (mem_gapsFrom_sortRanges_iff hblocked).mp hg
      rw [hresult]
      refine ⟨fun _ => ⟨offset, g, rfl, hgap, hfits, hat, fun g' hgap' hfits' => ?_⟩,
        fun hnone => absurd ⟨g, hgap, hfits⟩ hnone, ⟨fun hnone => absurd hnone (Option.some_ne_none offset), fun hempty => ?_⟩⟩
      · exact hbest g' ((mem_gapsFrom_sortRanges_iff hblocked).mpr hgap') hfits'
      · have := gapStart_mem_freeOffsets hsize halignment hblocked hgap hfits
        rw [hempty] at this
        cases this
  | none =>
      rw [hoffset] at hfinal hresult
      dsimp only at hresult
      have hnofit : ¬∃ g : ℕ × ℕ, Gap (bounds blocked) g.1 g.2 ∧ FitsGap request g := by
        rintro ⟨g, hgap, hfits⟩
        exact hfinal g ((mem_gapsFrom_sortRanges_iff hblocked).mpr hgap) hfits
      have hbeyond : ∀ n, freeEnd.toNat ≤ n ↔ ∀ range ∈ blocked, range.last.toNat ≤ n := by
        intro n
        rw [hend, Theory.sweepEnd_le_iff]
        simp only [bounds, List.mem_map, forall_exists_index, and_imp, forall_apply_eq_imp_iff₂,
          mem_sortRanges, UInt64.toNat_zero, Nat.zero_le, true_and]
      have hfreeEnd : ∀ n ∈ freeOffsets request blocked,
          Theory.alignUp freeEnd.toNat request.alignment.toNat ≤ n := by
        intro n hn
        obtain hpast | ⟨g, hgap, hfits, -⟩ := gap_of_freeOffset hsize hblocked hn
        · exact Theory.alignUp_le ((hbeyond n).mpr hpast) hn.1
        · exact absurd ⟨g, hgap, hfits⟩ hnofit
      refine ⟨fun hsome => absurd hsome hnofit, fun _ offset hfound => ?_, fun hnone => ?_,
        fun hempty => ?_⟩
      · rw [hresult] at hfound
        cases hup : alignUp freeEnd request.alignment with
        | none =>
            rw [hup] at hfound
            cases hfound
        | some candidate =>
            rw [hup] at hfound
            obtain ⟨rfl, -⟩ := finishFit_eq_some hfound
            rw [toNat_alignUp hup]
            refine ⟨⟨Theory.dvd_alignUp (toNat_pos halignment) _,
              (hbeyond _).mp (Theory.le_alignUp _ _)⟩, fun n hn => ?_⟩
            exact Theory.alignUp_le ((hbeyond n).mpr hn.2) hn.1
      · apply Set.eq_empty_of_forall_notMem
        intro n hn
        have hle := hfreeEnd n hn
        have hlt := hn.2.1
        rw [hresult] at hnone
        cases hup : alignUp freeEnd request.alignment with
        | none =>
            rw [alignUp_eq_none_iff] at hup
            omega
        | some candidate =>
            rw [hup] at hnone
            dsimp only at hnone
            rw [finishFit_of_lt (by rw [toNat_alignUp hup]; omega)] at hnone
            cases hnone
      · rw [hresult]
        cases hup : alignUp freeEnd request.alignment with
        | none => rfl
        | some candidate =>
            dsimp only
            unfold finishFit
            split_ifs with hover
            · rfl
            · -- the aligned end would be a free offset
              exfalso
              rw [Bool.not_eq_true, Theory.addOverflows_eq_false_iff] at hover
              have hmem : candidate.toNat ∈ freeOffsets request blocked := by
                rw [mem_freeOffsets_iff hsize hblocked, toNat_alignUp hup]
                rw [toNat_alignUp hup] at hover
                exact ⟨Theory.dvd_alignUp (toNat_pos halignment) _, hover, fun range hrange =>
                  .inr ((hbeyond _).mp (Theory.le_alignUp _ _) range hrange)⟩
              rw [hempty] at hmem
              cases hmem

/-- **Best fit.**  It is exact unless a gap fits and the beginning of some gap cannot be
aligned. -/
theorem findBestFit_exact_iff (hsize : request.size ≠ 0) (halignment : request.alignment ≠ 0)
    (hblocked : ∀ range ∈ blocked, range.first < range.last) :
    BestFitOk request blocked (findBestFit request blocked) ↔
      ((∃ g : ℕ × ℕ, Gap (bounds blocked) g.1 g.2 ∧ FitsGap request g) →
        ∀ g : ℕ × ℕ, Gap (bounds blocked) g.1 g.2 → gapStart request g.1 < 2 ^ 64) := by
  by_cases halignable : ∀ g : ℕ × ℕ, Gap (bounds blocked) g.1 g.2 → gapStart request g.1 < 2 ^ 64
  · exact ⟨fun _ _ => halignable, fun _ =>
      findBestFit_of_alignable hsize halignment hblocked halignable⟩
  · have hexists : ∃ g : ℕ × ℕ, Gap (bounds blocked) g.1 g.2 ∧ 2 ^ 64 ≤ gapStart request g.1 := by
      simpa only [not_forall, not_lt, exists_prop] using halignable
    obtain ⟨w, hw, hover⟩ := hexists
    have hnone : findBestFit request blocked = none :=
      bestFitFrom_unalignable (fun range hmem => hblocked range (mem_sortRanges.mp hmem))
        ⟨w, (mem_gapsFrom_sortRanges_iff hblocked).mpr hw, hover⟩
    rw [hnone]
    constructor
    · intro hok hfit
      obtain ⟨offset, g, hsome, -⟩ := hok.tightest hfit
      cases hsome
    · intro himp
      have hnofit : ¬∃ g : ℕ × ℕ, Gap (bounds blocked) g.1 g.2 ∧ FitsGap request g := fun hfit =>
        halignable (himp hfit)
      refine ⟨fun hfit => absurd hfit hnofit, fun _ offset hsome => absurd hsome.symm (Option.some_ne_none offset),
        ⟨fun _ => ?_, fun _ => rfl⟩⟩
      apply Set.eq_empty_of_forall_notMem
      intro n hn
      obtain hpast | ⟨g, hgap, hfits, -⟩ := gap_of_freeOffset hsize hblocked hn
      · -- the free offset lies beyond the gap that cannot be aligned
        obtain ⟨r, hr, -, hlast⟩ := hw.last
        obtain ⟨range, hrange, rfl⟩ := List.mem_map.mp hr
        have := hpast range hrange
        have hlt := hw.lt
        dsimp only at hlast
        have hle : gapStart request w.1 ≤ n := Theory.alignUp_le (by omega) hn.1
        have := hn.2.1
        omega
      · exact hnofit ⟨g, hgap, hfits⟩

end best

/-- With the beginning of every gap alignable, the tightest gap is found. -/
theorem findBestFit_exact_tight :
    BestFitOk ⟨2, 4⟩ [⟨20, 30⟩, ⟨4, 16⟩] (findBestFit ⟨2, 4⟩ [⟨20, 30⟩, ⟨4, 16⟩]) := by
  have hblocked : ∀ range ∈ [(⟨20, 30⟩ : AddressRange), ⟨4, 16⟩], range.first < range.last := by
    decide
  have hgaps : ∀ g ∈ gapsFrom (0 : UInt64).toNat (bounds (sortRanges [⟨20, 30⟩, ⟨4, 16⟩])),
      gapStart ⟨2, 4⟩ g.1 < 2 ^ 64 := by decide
  exact (findBestFit_exact_iff (by decide) (by decide) hblocked).mpr fun _ g hg =>
    hgaps g ((mem_gapsFrom_sortRanges_iff hblocked).mpr hg)

/-- The gap at zero fits, but the next gap begins beyond the last multiple of the alignment. -/
theorem not_findBestFit_exact : ¬BestFitOk ⟨1, 9223372036854775808⟩
    [⟨1, 9223372036854775809⟩, ⟨9223372036854775810, 9223372036854775811⟩]
    (findBestFit ⟨1, 9223372036854775808⟩
      [⟨1, 9223372036854775809⟩, ⟨9223372036854775810, 9223372036854775811⟩]) := by
  intro hok
  have hgap : Gap (bounds [⟨1, 9223372036854775809⟩, ⟨9223372036854775810, 9223372036854775811⟩])
      0 1 := (mem_gapsFrom_sortRanges_iff (g := (0, 1)) (by decide)).mp (by decide +kernel)
  have hnone : findBestFit ⟨1, 9223372036854775808⟩
      [⟨1, 9223372036854775809⟩, ⟨9223372036854775810, 9223372036854775811⟩] = none := by
    decide +kernel
  obtain ⟨offset, g, hsome, -⟩ := hok.tightest ⟨(0, 1), hgap, by
    show 0 + _ ≤ 1
    decide +kernel⟩
  rw [hnone] at hsome
  cases hsome

end Dsa
