import DsaSolver.Supports
import Mathlib.Data.List.Sort

/-! # First fit and best fit

Both searches scan the blocked ranges in the order of their beginnings.  Every range they have
passed ends at or below the current address and every later one begins at or above the current
one, so the address they return is aligned and clear of all of them
(`findFirstFit_fits`, `findBestFit_fits`). -/

namespace Dsa

/-- The address is aligned, in range, and clear of the ranges. -/
structure Fits (request : FitRequest) (blocked : List AddressRange) (offset : UInt64) : Prop where
  aligned : request.alignment.toNat ∣ offset.toNat
  inRange : offset.toNat + request.size.toNat < 2 ^ 64
  clear : ∀ range ∈ blocked, offset.toNat + request.size.toNat ≤ range.first.toNat ∨
    range.last.toNat ≤ offset.toNat

theorem rangeLe_first {first second : AddressRange} (h : rangeLe first second = true) :
    first.first.toNat ≤ second.first.toNat := by
  unfold rangeLe at h
  rw [Bool.or_eq_true, decide_eq_true_eq, Bool.and_eq_true, beq_iff_eq] at h
  obtain hlt | ⟨heq, -⟩ := h
  · exact (UInt64.lt_iff_toNat_lt.mp hlt).le
  · rw [heq]

theorem rangeLe_total (first second : AddressRange) :
    rangeLe first second = true ∨ rangeLe second first = true := by
  simp only [rangeLe, Bool.or_eq_true, Bool.and_eq_true, decide_eq_true_eq, beq_iff_eq,
    UInt64.lt_iff_toNat_lt, UInt64.le_iff_toNat_le, ← UInt64.toNat_inj]
  omega

theorem rangeLe_trans {first second third : AddressRange} (h : rangeLe first second = true)
    (h' : rangeLe second third = true) : rangeLe first third = true := by
  simp only [rangeLe, Bool.or_eq_true, Bool.and_eq_true, decide_eq_true_eq, beq_iff_eq,
    UInt64.lt_iff_toNat_lt, UInt64.le_iff_toNat_le, ← UInt64.toNat_inj] at h h' ⊢
  omega

theorem mem_sortRanges {ranges : List AddressRange} {range : AddressRange} :
    range ∈ sortRanges ranges ↔ range ∈ ranges := List.mem_insertionSort _

theorem sortRanges_sorted (ranges : List AddressRange) :
    (sortRanges ranges).Pairwise fun first second => first.first.toNat ≤ second.first.toNat := by
  have : Std.Total fun first second : AddressRange => rangeLe first second = true :=
    ⟨rangeLe_total⟩
  have : IsTrans AddressRange fun first second => rangeLe first second = true :=
    ⟨fun _ _ _ => rangeLe_trans⟩
  exact (List.pairwise_insertionSort _ ranges).imp rangeLe_first

section scan

variable {request : FitRequest} {offset : UInt64}

theorem finishFit_eq_some {candidate : UInt64} (h : finishFit request candidate = some offset) :
    offset = candidate ∧ candidate.toNat + request.size.toNat < 2 ^ 64 := by
  unfold finishFit at h
  split_ifs at h with hover
  rw [Bool.not_eq_true, Theory.addOverflows_eq_false_iff] at hover
  exact ⟨(Option.some.inj h).symm, hover⟩

/-- The rest of a scan of first fit. -/
theorem firstFitFrom_fits (halignment : request.alignment ≠ 0) {blocked : List AddressRange}
    (hsorted : blocked.Pairwise fun first second => first.first.toNat ≤ second.first.toNat)
    {candidate : UInt64} (haligned : request.alignment.toNat ∣ candidate.toNat)
    (h : firstFitFrom request candidate blocked = some offset) :
    candidate.toNat ≤ offset.toNat ∧ Fits request blocked offset := by
  induction blocked generalizing candidate with
  | nil =>
      obtain ⟨rfl, hrange⟩ := finishFit_eq_some h
      exact ⟨le_rfl, haligned, hrange, fun _ hmem => by cases hmem⟩
  | cons range rest ih =>
      obtain ⟨hfirst, hrest⟩ := List.pairwise_cons.mp hsorted
      unfold firstFitFrom at h
      split_ifs at h with hover hbreak hlast
      · -- the candidate ends before this range, and before every later one
        obtain ⟨rfl, hrange⟩ := finishFit_eq_some h
        rw [ge_iff_le, UInt64.le_iff_toNat_le, Theory.toNat_add_of_lt hrange] at hbreak
        refine ⟨le_rfl, haligned, hrange, fun other hmem => .inl ?_⟩
        rcases List.mem_cons.mp hmem with rfl | hmem
        · exact hbreak
        · exact hbreak.trans (hfirst other hmem)
      · cases hup : alignUp range.last request.alignment with
        | none =>
            rw [hup] at h
            cases h
        | some next =>
            rw [hup] at h
            have hnext := toNat_alignUp hup
            have hle := Theory.le_alignUp range.last.toNat request.alignment.toNat
            have hdvd := Theory.dvd_alignUp (Nat.pos_of_ne_zero (toNat_ne_zero halignment))
              range.last.toNat
            obtain ⟨hge, hfits⟩ := ih hrest (by rwa [hnext]) h
            rw [gt_iff_lt, UInt64.lt_iff_toNat_lt] at hlast
            refine ⟨by omega, hfits.aligned, hfits.inRange, fun other hmem => ?_⟩
            rcases List.mem_cons.mp hmem with rfl | hmem
            · exact .inr (by omega)
            · exact hfits.clear other hmem
      · obtain ⟨hge, hfits⟩ := ih hrest haligned h
        rw [gt_iff_lt, UInt64.lt_iff_toNat_lt, not_lt] at hlast
        refine ⟨hge, hfits.aligned, hfits.inRange, fun other hmem => ?_⟩
        rcases List.mem_cons.mp hmem with rfl | hmem
        · exact .inr (hlast.trans hge)
        · exact hfits.clear other hmem

/-- **First fit.** -/
theorem findFirstFit_fits (halignment : request.alignment ≠ 0) {blocked : List AddressRange}
    (h : findFirstFit request blocked = some offset) : Fits request blocked offset := by
  unfold findFirstFit at h
  cases hup : alignUp 0 request.alignment with
  | none =>
      rw [hup] at h
      cases h
  | some candidate =>
      rw [hup] at h
      have hdvd := Theory.dvd_alignUp (Nat.pos_of_ne_zero (toNat_ne_zero halignment))
        (0 : UInt64).toNat
      obtain ⟨-, haligned, hrange, hclear⟩ := firstFitFrom_fits halignment
        (sortRanges_sorted blocked) (by rwa [toNat_alignUp hup]) h
      exact ⟨haligned, hrange, fun range hmem => hclear range (mem_sortRanges.mpr hmem)⟩

theorem BestChunk.improve_offset (best : BestChunk) (candidate chunkSize : UInt64) :
    (best.improve candidate chunkSize).offset = some candidate ∨
      (best.improve candidate chunkSize).offset = best.offset := by
  unfold BestChunk.improve
  cases hbest : best.offset with
  | none => exact .inl rfl
  | some bestOffset =>
      dsimp only
      split_ifs
      · exact .inl rfl
      · exact .inr hbest

/-- The rest of a scan of best fit: `all` is every range, `blocked` those still to come. -/
theorem bestFitFrom_fits (halignment : request.alignment ≠ 0) {all blocked : List AddressRange}
    (hsorted : blocked.Pairwise fun first second => first.first.toNat ≤ second.first.toNat)
    {best : BestChunk} {freeBegin : UInt64}
    (hbest : ∀ candidate, best.offset = some candidate → Fits request all candidate)
    (hpassed : ∀ range ∈ all, range ∈ blocked ∨ range.last.toNat ≤ freeBegin.toNat)
    (h : bestFitFrom request best freeBegin blocked = some offset) : Fits request all offset := by
  have hpos := Nat.pos_of_ne_zero (toNat_ne_zero halignment)
  induction blocked generalizing best freeBegin with
  | nil =>
      unfold bestFitFrom at h
      cases hoffset : best.offset with
      | some candidate =>
          rw [hoffset] at h
          exact Option.some.inj h ▸ hbest candidate hoffset
      | none =>
          rw [hoffset] at h
          cases hup : alignUp freeBegin request.alignment with
          | none =>
              rw [hup] at h
              cases h
          | some candidate =>
              rw [hup] at h
              obtain ⟨rfl, hrange⟩ := finishFit_eq_some h
              have hle := Theory.le_alignUp freeBegin.toNat request.alignment.toNat
              rw [← toNat_alignUp hup] at hle
              refine ⟨?_, hrange, fun range hmem => .inr ?_⟩
              · rw [toNat_alignUp hup]
                exact Theory.dvd_alignUp hpos _
              · obtain hnil | hlast := hpassed range hmem
                · cases hnil
                · exact hlast.trans hle
  | cons range rest ih =>
      obtain ⟨hfirst, hrest⟩ := List.pairwise_cons.mp hsorted
      have hmax : (max freeBegin range.last).toNat = max freeBegin.toNat range.last.toNat :=
        Theory.toNat_max _ _
      have hnext : ∀ other ∈ all, other ∈ rest ∨
          other.last.toNat ≤ (max freeBegin range.last).toNat := by
        intro other hmem
        obtain hmem | hlast := hpassed other hmem
        · rcases List.mem_cons.mp hmem with rfl | hmem
          · exact .inr (by omega)
          · exact .inl hmem
        · exact .inr (by omega)
      unfold bestFitFrom at h
      split_ifs at h with hbelow hgap
      · refine ih hrest hbest (fun other hmem => ?_) h
        obtain hmem | hlast := hpassed other hmem
        · rcases List.mem_cons.mp hmem with rfl | hmem
          · exact .inr (UInt64.le_iff_toNat_le.mp hbelow)
          · exact .inl hmem
        · exact .inr hlast
      · cases hup : alignUp freeBegin request.alignment with
        | none =>
            rw [hup] at h
            cases h
        | some candidate =>
            rw [hup] at h
            dsimp only at h
            split_ifs at h with hroom
            · refine ih hrest (fun chosen hchosen => ?_) hnext h
              obtain hnew | hold := best.improve_offset candidate (range.first - candidate)
              · rw [hnew] at hchosen
                obtain rfl := Option.some.inj hchosen
                rw [Bool.and_eq_true, decide_eq_true_eq, decide_eq_true_eq,
                  UInt64.le_iff_toNat_le, UInt64.le_iff_toNat_le] at hroom
                obtain ⟨hstart, hsize⟩ := hroom
                rw [UInt64.toNat_sub_of_le _ _ (UInt64.le_iff_toNat_le.mpr hstart)] at hsize
                have hle := Theory.le_alignUp freeBegin.toNat request.alignment.toNat
                rw [← toNat_alignUp hup] at hle
                have hlt := range.first.toNat_lt
                refine ⟨?_, by omega, fun other hmem => ?_⟩
                · rw [toNat_alignUp hup]
                  exact Theory.dvd_alignUp hpos _
                · obtain hmem | hlast := hpassed other hmem
                  · rcases List.mem_cons.mp hmem with rfl | hmem
                    · exact .inl (by omega)
                    · have := hfirst other hmem
                      exact .inl (by omega)
                  · exact .inr (hlast.trans hle)
              · rw [hold] at hchosen
                exact hbest chosen hchosen
            · exact ih hrest hbest hnext h
      · exact ih hrest hbest hnext h

/-- **Best fit.** -/
theorem findBestFit_fits (halignment : request.alignment ≠ 0) {blocked : List AddressRange}
    (h : findBestFit request blocked = some offset) : Fits request blocked offset := by
  unfold findBestFit at h
  obtain ⟨haligned, hrange, hclear⟩ := bestFitFrom_fits halignment (sortRanges_sorted blocked)
    (fun candidate hnone => by cases hnone) (fun range hmem => .inl hmem) h
  exact ⟨haligned, hrange, fun range hmem => hclear range (mem_sortRanges.mpr hmem)⟩

end scan

end Dsa
