import DsaSolver.PrepareFacts
import DsaSolver.Theory.Packing

/-! # Placements of colocation classes

A solution that places every buffer gives one placement to each colocation class
(`exists_places`), and the constraints of the validator on the buffers are exactly the
constraints `ClassPlacementOk` on the classes (`solutionOk_iff`): merged alignment, merged
size, and one test for each pair of classes that block each other. -/

namespace Dsa

open Theory (Apart)

/-! ### Address ranges -/

theorem toNat_ne_zero {a : UInt64} (h : a ≠ 0) : a.toNat ≠ 0 := fun e => h (UInt64.toNat_inj.mp e)

theorem toNat_maxU64 : maxU64.toNat = 2 ^ 64 - 1 := rfl

theorem addressRangesOverlap_eq_false_iff {a s b t : UInt64} (hs : s ≠ 0) (ht : t ≠ 0)
    (ha : a.toNat + s.toNat < 2 ^ 64) (hb : b.toNat + t.toNat < 2 ^ 64) :
    addressRangesOverlap a s b t = false ↔ Apart a.toNat s.toNat b.toNat t.toNat := by
  unfold addressRangesOverlap Apart
  rw [if_neg (by simp [hs, ht]), if_neg (by
    simp [(Theory.addOverflows_eq_false_iff a s).mpr ha,
      (Theory.addOverflows_eq_false_iff b t).mpr hb])]
  rw [Bool.and_eq_false_iff, decide_eq_false_iff_not, decide_eq_false_iff_not,
    UInt64.lt_iff_toNat_lt, UInt64.lt_iff_toNat_lt, Theory.toNat_add_of_lt ha,
    Theory.toNat_add_of_lt hb]
  omega

theorem addressRangesOverlap_comm (a s b t : UInt64) :
    addressRangesOverlap a s b t = addressRangesOverlap b t a s := by
  unfold addressRangesOverlap
  rw [Bool.or_comm (s == 0), Bool.or_comm (addOverflows a s), Bool.and_comm (decide (a < b + t))]

theorem addressRangesOverlap_reserved_iff {a s : UInt64} {range : AddressRange} (hs : s ≠ 0)
    (ha : a.toNat + s.toNat < 2 ^ 64) (hr : range.first < range.last) :
    addressRangesOverlap a s range.first (range.last - range.first) = false ↔
      a.toNat + s.toNat ≤ range.first.toNat ∨ range.last.toNat ≤ a.toNat := by
  have hlt := UInt64.lt_iff_toNat_lt.mp hr
  have hsub : (range.last - range.first).toNat = range.last.toNat - range.first.toNat :=
    UInt64.toNat_sub_of_le _ _ (UInt64.le_iff_toNat_le.mpr hlt.le)
  have hlast := range.last.toNat_lt
  rw [addressRangesOverlap_eq_false_iff hs (fun e => by
    have := congrArg UInt64.toNat e
    rw [hsub] at this
    simp at this
    omega) ha (by omega), hsub, Apart]
  omega

/-- The pool has room for `[offset, offset + size)` outside its reserved ranges. -/
structure PoolFits (pool : Pool) (offset size : ℕ) : Prop where
  within : offset + size ≤ (pool.capacity.getD maxU64).toNat
  clear : ∀ range ∈ pool.reservedRanges,
    offset + size ≤ range.first.toNat ∨ range.last.toNat ≤ offset

theorem PoolFits.lt {pool : Pool} {offset size : ℕ} (h : PoolFits pool offset size) :
    offset + size < 2 ^ 64 := by
  have := h.within
  have := (pool.capacity.getD maxU64).toNat_lt
  omega

theorem PoolFits.mono {pool : Pool} {offset size size' : ℕ} (h : PoolFits pool offset size)
    (hle : size' ≤ size) : PoolFits pool offset size' where
  within := by
    have := h.within
    omega
  clear range hr := by
    rcases h.clear range hr with hc | hc
    · exact .inl (by omega)
    · exact .inr hc

theorem within_iff {pool : Pool} {offset size : UInt64} (h : offset.toNat + size.toNat < 2 ^ 64) :
    exceedsCapacity pool.capacity (offset + size) = false ↔
      offset.toNat + size.toNat ≤ (pool.capacity.getD maxU64).toNat := by
  unfold exceedsCapacity
  cases pool.capacity with
  | none =>
      simp only [Option.getD_none, true_iff, toNat_maxU64]
      omega
  | some capacity =>
      rw [decide_eq_false_iff_not, gt_iff_lt, UInt64.lt_iff_toNat_lt, Theory.toNat_add_of_lt h,
        Option.getD_some]
      omega

theorem poolAddressErrors_eq_nil_iff {buffer : Buffer} {placement : Placement} {pool : Pool}
    (hs : buffer.size ≠ 0) (h : placement.offset.toNat + buffer.size.toNat < 2 ^ 64)
    (hr : ∀ range ∈ pool.reservedRanges, range.first < range.last) :
    poolAddressErrors buffer placement pool = [] ↔
      PoolFits pool placement.offset.toNat buffer.size.toNat := by
  unfold poolAddressErrors
  rw [List.append_eq_nil_iff, errorIf_eq_nil, within_iff h]
  simp only [List.flatMap_eq_nil_iff, errorIf_eq_nil]
  constructor
  · rintro ⟨h1, h2⟩
    exact ⟨h1, fun range hmem =>
      (addressRangesOverlap_reserved_iff hs h (hr range hmem)).mp (h2 range hmem)⟩
  · exact fun h1 => ⟨h1.within, fun range hmem =>
      (addressRangesOverlap_reserved_iff hs h (hr range hmem)).mpr (h1.clear range hmem)⟩

theorem mod_eq_zero_iff_dvd (offset alignment : UInt64) :
    offset % alignment = 0 ↔ alignment.toNat ∣ offset.toNat := by
  rw [← UInt64.toNat_inj, UInt64.toNat_mod]
  exact Nat.dvd_iff_mod_eq_zero.symm

/-- The checks of a placed buffer whose pool exists. -/
theorem placedOk_iff {problem : DsaProblem} (hw : WellFormed problem) {buffer : Buffer}
    (hbuffer : buffer ∈ problem.buffers) {placement : Placement}
    (hpool : (problem.findPool placement.pool).isSome) :
    PlacedOk problem buffer placement ↔
      placement.pool ∈ buffer.allowedPools ∧ buffer.alignment.toNat ∣ placement.offset.toNat ∧
        ∃ pool, problem.findPool placement.pool = some pool ∧
          PoolFits pool placement.offset.toNat buffer.size.toNat := by
  have hs := hw.sizePos _ hbuffer
  obtain ⟨pool, hp⟩ := Option.isSome_iff_exists.mp hpool
  have hr := hw.reserved pool (findPool_mem hp)
  have hmod := mod_eq_zero_iff_dvd placement.offset buffer.alignment
  constructor
  · rintro ⟨h1, h2, h3, h4⟩
    have h3' := (Theory.addOverflows_eq_false_iff _ _).mp h3
    exact ⟨h1, hmod.mp h2, pool, hp, (poolAddressErrors_eq_nil_iff hs h3' hr).mp (h4 pool hp)⟩
  · rintro ⟨h1, h2, pool', hp', hfits⟩
    refine ⟨h1, hmod.mpr h2, (Theory.addOverflows_eq_false_iff _ _).mpr hfits.lt, ?_⟩
    intro pool'' hp''
    rw [hp'] at hp''
    obtain rfl := Option.some.inj hp''
    rw [hp] at hp'
    obtain rfl := Option.some.inj hp'
    exact (poolAddressErrors_eq_nil_iff hs hfits.lt hr).mpr hfits

/-! ### Class extents -/

section extents

variable {problem : DsaProblem}

theorem length_colocationSets (problem : DsaProblem) :
    (colocationSets problem).parent.length = problem.buffers.length := by
  rw [colocationSets, DisjointSet.length_unionAll]
  exact List.length_range

theorem root_colocationSets_lt {i : ℕ} (hi : i < problem.buffers.length) :
    (colocationSets problem).root i < problem.buffers.length := by
  have h : i < (colocationSets problem).parent.length := by rwa [length_colocationSets]
  have := DisjointSet.root_lt h
  rwa [length_colocationSets] at this

/-- The loop over the first `count` buffers. -/
def extentsUpTo (problem : DsaProblem) (count : ℕ) : List UInt64 :=
  (List.range count).foldl
    (fun extents index =>
      let root := (colocationSets problem).root index
      extents.set root (max (extents.getD root 0) (problem.bufferAt index).size))
    (List.replicate problem.buffers.length 0)

theorem extentsUpTo_succ (problem : DsaProblem) (count : ℕ) :
    extentsUpTo problem (count + 1) =
      (extentsUpTo problem count).set ((colocationSets problem).root count)
        (max ((extentsUpTo problem count).getD ((colocationSets problem).root count) 0)
          (problem.bufferAt count).size) := by
  unfold extentsUpTo
  rw [List.range_succ, List.foldl_append]
  rfl

theorem length_extentsUpTo (problem : DsaProblem) (count : ℕ) :
    (extentsUpTo problem count).length = problem.buffers.length := by
  induction count with
  | zero => exact List.length_replicate
  | succ count ih => rw [extentsUpTo_succ, List.length_set, ih]

theorem getD_set {α : Type*} {l : List α} {i : ℕ} (hi : i < l.length) (a d : α) (j : ℕ) :
    (l.set i a).getD j d = if i = j then a else l.getD j d := by
  rw [List.getD_eq_getElem?_getD, List.getD_eq_getElem?_getD, List.getElem?_set]
  by_cases h : i = j
  · subst h
    simp [hi]
  · simp [h]

theorem extentsUpTo_spec (r : ℕ) (count : ℕ) (hcount : count ≤ problem.buffers.length) :
    (∀ i < count, (colocationSets problem).root i = r →
      (problem.bufferAt i).size ≤ (extentsUpTo problem count).getD r 0) ∧
    ((extentsUpTo problem count).getD r 0 = 0 ∨ ∃ i < count, (colocationSets problem).root i = r ∧
      (extentsUpTo problem count).getD r 0 = (problem.bufferAt i).size) := by
  induction count with
  | zero =>
      refine ⟨fun i hi => absurd hi (Nat.not_lt_zero i), .inl ?_⟩
      show (List.replicate problem.buffers.length (0 : UInt64)).getD r 0 = 0
      rw [List.getD_eq_getElem?_getD, List.getElem?_replicate]
      split_ifs <;> rfl
  | succ count ih =>
      obtain ⟨hge, hmem⟩ := ih (by omega)
      have hlt : (colocationSets problem).root count < (extentsUpTo problem count).length := by
        rw [length_extentsUpTo]
        exact root_colocationSets_lt hcount
      rw [extentsUpTo_succ, getD_set hlt]
      by_cases hr : (colocationSets problem).root count = r
      · rw [if_pos hr, hr]
        refine ⟨fun i hi hir => ?_, ?_⟩
        · rcases Nat.lt_succ_iff_lt_or_eq.mp hi with hi | rfl
          · exact (hge i hi hir).trans (le_max_left _ _)
          · exact le_max_right _ _
        · rcases le_total ((extentsUpTo problem count).getD r 0) (problem.bufferAt count).size with
            hle | hle
          · exact .inr ⟨count, Nat.lt_succ_self _, hr, max_eq_right hle⟩
          · rw [max_eq_left hle]
            rcases hmem with h0 | ⟨i, hi, hir, e⟩
            · exact .inl h0
            · exact .inr ⟨i, Nat.lt_succ_of_lt hi, hir, e⟩
      · rw [if_neg hr]
        refine ⟨fun i hi hir => ?_, ?_⟩
        · rcases Nat.lt_succ_iff_lt_or_eq.mp hi with hi | rfl
          · exact hge i hi hir
          · exact absurd hir hr
        · rcases hmem with h0 | ⟨i, hi, hir, e⟩
          · exact .inl h0
          · exact .inr ⟨i, Nat.lt_succ_of_lt hi, hir, e⟩

/-- The extent the validator computes is the merged size of the class. -/
theorem PreparedOk.allocationExtent_eq (h : PreparedOk problem) {i : ℕ}
    (hi : i < problem.buffers.length) :
    allocationExtent problem i = ((prepare problem).superAt (classOf problem i)).size := by
  have hk := h.classOf_lt i hi
  obtain ⟨hge, hmem⟩ := extentsUpTo_spec ((colocationSets problem).root i) problem.buffers.length
    le_rfl
  have e : allocationExtent problem i = (extentsUpTo problem problem.buffers.length).getD
      ((colocationSets problem).root i) 0 := by
    unfold allocationExtent allocationClassExtents
    rw [List.getD_eq_getElem _ _ (by simpa using hi)]
    simp only [List.getElem_map, List.getElem_range]
    rfl
  have hcov := h.covers _ hk
  rw [e]
  apply le_antisymm
  · rcases hmem with h0 | ⟨j, hj, hroot, ej⟩
    · rw [h0]
      exact UInt64.le_iff_toNat_le.mpr (Nat.zero_le _)
    · rw [ej]
      refine hcov.sizeGe j ((h.members _ hk j).mpr ⟨hj, ?_⟩)
      exact (h.classOf_eq_iff j hj i hi).mpr hroot
  · obtain ⟨j, hj, ej⟩ := hcov.sizeMem
    obtain ⟨hjlt, hjc⟩ := (h.members _ hk j).mp hj
    rw [ej]
    exact hge j hjlt ((h.classOf_eq_iff j hjlt i hi).mp hjc)

end extents

/-! ### Symmetry of the pair tests -/

theorem overlaps_comm (a b : Interval) : a.overlaps b = b.overlaps a := Bool.and_comm _ _

theorem lifetimesOverlap_comm (first second : Buffer) :
    lifetimesOverlap first second = lifetimesOverlap second first := by
  rw [Bool.eq_iff_iff]
  simp only [lifetimesOverlap, List.any_eq_true]
  constructor
  · rintro ⟨a, ha, b, hb, h⟩
    exact ⟨b, hb, a, ha, by rwa [overlaps_comm]⟩
  · rintro ⟨a, ha, b, hb, h⟩
    exact ⟨b, hb, a, ha, by rwa [overlaps_comm]⟩

theorem haveTemporalConflict_comm (problem : DsaProblem) (first second : Buffer) :
    haveTemporalConflict problem first second = haveTemporalConflict problem second first := by
  unfold haveTemporalConflict
  rw [lifetimesOverlap_comm first second]
  simp only [Bool.or_comm]

theorem superBuffersConflict_iff {problem : DsaProblem} {first second : SuperBuffer} :
    superBuffersConflict problem first second = true ↔ ∃ i ∈ first.members, ∃ j ∈ second.members,
      haveTemporalConflict problem (problem.bufferAt i) (problem.bufferAt j) = true := by
  simp only [superBuffersConflict, List.any_eq_true]

theorem superBuffersConflict_comm (problem : DsaProblem) (first second : SuperBuffer) :
    superBuffersConflict problem first second = superBuffersConflict problem second first := by
  rw [Bool.eq_iff_iff, superBuffersConflict_iff, superBuffersConflict_iff]
  constructor
  · rintro ⟨i, hi, j, hj, h⟩
    exact ⟨j, hj, i, hi, by rwa [haveTemporalConflict_comm]⟩
  · rintro ⟨i, hi, j, hj, h⟩
    exact ⟨j, hj, i, hi, by rwa [haveTemporalConflict_comm]⟩

theorem separated_comm (prepared : PreparedProblem) (first second : ℕ) :
    separated prepared first second = separated prepared second first := by
  unfold separated
  rw [min_comm, max_comm]

theorem supersBlock_comm (problem : DsaProblem) (prepared : PreparedProblem) (first second : ℕ) :
    supersBlock problem prepared first second = supersBlock problem prepared second first := by
  unfold supersBlock
  rw [superBuffersConflict_comm, separated_comm, Bool.or_assoc, Bool.or_assoc (_ || _),
    Bool.or_comm (prepared.superAt first).pinnedExclusive]

theorem placementsOverlap_comm (first : Placement) (firstExtent : UInt64) (second : Placement)
    (secondExtent : UInt64) : placementsOverlap first firstExtent second secondExtent =
      placementsOverlap second secondExtent first firstExtent := by
  unfold placementsOverlap
  rw [addressRangesOverlap_comm, Bool.beq_comm]

/-! ### Placements of the classes -/

/-- The solution gives every buffer the placement of its class, and places nothing else. -/
structure Places (problem : DsaProblem) (a : ℕ → Placement) (solution : DsaSolution) : Prop where
  find : ∀ i < problem.buffers.length,
    solution.find (problem.bufferAt i).id = some (a (classOf problem i))
  known : ∀ id placement, solution.find id = some placement →
    ∃ i < problem.buffers.length, (problem.bufferAt i).id = id

/-- The constraints of the validator, class by class. -/
structure ClassPlacementOk (problem : DsaProblem) (a : ℕ → Placement) : Prop where
  allowed : ∀ k < (prepare problem).supers.length,
    (a k).pool ∈ ((prepare problem).superAt k).allowedPools
  aligned : ∀ k < (prepare problem).supers.length,
    ((prepare problem).superAt k).alignment.toNat ∣ (a k).offset.toNat
  fits : ∀ k < (prepare problem).supers.length, ∃ pool, problem.findPool (a k).pool = some pool ∧
    PoolFits pool (a k).offset.toNat ((prepare problem).superAt k).size.toNat
  apart : ∀ k < (prepare problem).supers.length, ∀ l < (prepare problem).supers.length, k ≠ l →
    (a k).pool = (a l).pool → supersBlock problem (prepare problem) k l = true →
      Apart (a k).offset.toNat ((prepare problem).superAt k).size.toNat (a l).offset.toNat
        ((prepare problem).superAt l).size.toNat
  pinned : ∀ k < (prepare problem).supers.length, ∀ pinned,
    ((prepare problem).superAt k).pinned = some pinned → a k = ⟨pinned.pool, pinned.offset⟩

section classes

variable {problem : DsaProblem} {a : ℕ → Placement} {solution : DsaSolution}

theorem PreparedOk.exists_member (h : PreparedOk problem) {k : ℕ}
    (hk : k < (prepare problem).supers.length) :
    ∃ i < problem.buffers.length, classOf problem i = k ∧
      ((prepare problem).superAt k).size = (problem.bufferAt i).size := by
  obtain ⟨i, hi, e⟩ := (h.covers k hk).sizeMem
  obtain ⟨hlt, hc⟩ := (h.members k hk i).mp hi
  exact ⟨i, hlt, hc, e⟩

theorem PreparedOk.superSize_ne (h : PreparedOk problem) {k : ℕ}
    (hk : k < (prepare problem).supers.length) : ((prepare problem).superAt k).size ≠ 0 := by
  obtain ⟨i, hi, -, e⟩ := h.exists_member hk
  rw [e]
  exact h.wellFormed.sizePos _ (bufferAt_mem hi)

theorem PreparedOk.size_le (h : PreparedOk problem) {i : ℕ} (hi : i < problem.buffers.length) :
    (problem.bufferAt i).size.toNat ≤
      ((prepare problem).superAt (classOf problem i)).size.toNat := by
  have hk := h.classOf_lt i hi
  exact UInt64.le_iff_toNat_le.mp ((h.covers _ hk).sizeGe i ((h.members _ hk i).mpr ⟨hi, rfl⟩))

theorem PreparedOk.alignment_iff (h : PreparedOk problem) {k : ℕ}
    (hk : k < (prepare problem).supers.length) (x : ℕ) :
    ((prepare problem).superAt k).alignment.toNat ∣ x ↔ ∀ i < problem.buffers.length,
      classOf problem i = k → (problem.bufferAt i).alignment.toNat ∣ x := by
  rw [(h.aligned k hk).2 x]
  constructor
  · exact fun hall i hi hc => hall i ((h.members k hk i).mpr ⟨hi, hc⟩)
  · intro hall i hi
    obtain ⟨hlt, hc⟩ := (h.members k hk i).mp hi
    exact hall i hlt hc

theorem PreparedOk.allowed_iff (h : PreparedOk problem) {k : ℕ}
    (hk : k < (prepare problem).supers.length) (pool : PoolId) :
    pool ∈ ((prepare problem).superAt k).allowedPools ↔ ∀ i < problem.buffers.length,
      classOf problem i = k → pool ∈ (problem.bufferAt i).allowedPools := by
  rw [(h.covers k hk).allowed pool]
  constructor
  · exact fun hall i hi hc => hall i ((h.members k hk i).mpr ⟨hi, hc⟩)
  · intro hall i hi
    obtain ⟨hlt, hc⟩ := (h.members k hk i).mp hi
    exact hall i hlt hc

/-- Two classes block each other exactly when the validator keeps two of their buffers apart. -/
theorem PreparedOk.supersBlock_iff (h : PreparedOk problem) {k l : ℕ}
    (hk : k < (prepare problem).supers.length) (hl : l < (prepare problem).supers.length) :
    supersBlock problem (prepare problem) k l = true ↔
      (∃ i < problem.buffers.length, ∃ j < problem.buffers.length, classOf problem i = k ∧
        classOf problem j = l ∧
          (haveTemporalConflict problem (problem.bufferAt i) (problem.bufferAt j) ||
            exclusivelyPinned problem (problem.bufferAt i).id ||
            exclusivelyPinned problem (problem.bufferAt j).id) = true) ∨
      ∃ separation ∈ problem.separations,
        ((prepare problem).idToSuper separation.first = some k ∧
            (prepare problem).idToSuper separation.second = some l) ∨
          ((prepare problem).idToSuper separation.first = some l ∧
            (prepare problem).idToSuper separation.second = some k) := by
  have hpin : ∀ {k}, k < (prepare problem).supers.length →
      (((prepare problem).superAt k).pinnedExclusive = true ↔ ∃ i < problem.buffers.length,
        classOf problem i = k ∧ exclusivelyPinned problem (problem.bufferAt i).id = true) := by
    intro k hk
    rw [h.pinExclusive k hk]
    simp only [exclusivelyPinned, List.any_eq_true, Bool.and_eq_true, beq_iff_eq]
    constructor
    · rintro ⟨pinned, hmem, hid, hex⟩
      obtain ⟨i, hi, e, hc⟩ := h.ofLookup _ _ hid
      exact ⟨i, hi, hc, pinned, hmem, hex, e.symm⟩
    · rintro ⟨i, hi, rfl, pinned, hmem, hex, e⟩
      exact ⟨pinned, hmem, e ▸ h.lookup i hi, hex⟩
  have hsep : separated (prepare problem) k l = true ↔ ∃ separation ∈ problem.separations,
      ((prepare problem).idToSuper separation.first = some k ∧
          (prepare problem).idToSuper separation.second = some l) ∨
        ((prepare problem).idToSuper separation.first = some l ∧
          (prepare problem).idToSuper separation.second = some k) := by
    rw [separated, List.contains_iff_mem, h.separations]
    constructor
    · rintro ⟨separation, hmem, x, y, hx, hy, hmin, hmax⟩
      refine ⟨separation, hmem, ?_⟩
      have hxy : (x = k ∧ y = l) ∨ (x = l ∧ y = k) := by omega
      rcases hxy with ⟨rfl, rfl⟩ | ⟨rfl, rfl⟩
      · exact .inl ⟨hx, hy⟩
      · exact .inr ⟨hx, hy⟩
    · rintro ⟨separation, hmem, ⟨hx, hy⟩ | ⟨hx, hy⟩⟩
      · exact ⟨separation, hmem, k, l, hx, hy, rfl, rfl⟩
      · exact ⟨separation, hmem, l, k, hx, hy, min_comm k l, max_comm k l⟩
  obtain ⟨ik, hik, hck, -⟩ := h.exists_member hk
  obtain ⟨il, hil, hcl, -⟩ := h.exists_member hl
  rw [supersBlock, Bool.or_eq_true, Bool.or_eq_true, Bool.or_eq_true, hsep, hpin hk, hpin hl,
    superBuffersConflict_iff]
  simp only [Bool.or_eq_true]
  constructor
  · rintro (((⟨i, hi, j, hj, hc⟩ | hs) | ⟨i, hi, hci, hex⟩) | ⟨j, hj, hcj, hex⟩)
    · obtain ⟨hilt, hci⟩ := (h.members k hk i).mp hi
      obtain ⟨hjlt, hcj⟩ := (h.members l hl j).mp hj
      exact .inl ⟨i, hilt, j, hjlt, hci, hcj, .inl (.inl hc)⟩
    · exact .inr hs
    · exact .inl ⟨i, hi, il, hil, hci, hcl, .inl (.inr hex)⟩
    · exact .inl ⟨ik, hik, j, hj, hck, hcj, .inr hex⟩
  · rintro (⟨i, hi, j, hj, hci, hcj, (hc | hex) | hex⟩ | hs)
    · exact .inl (.inl (.inl ⟨i, (h.members k hk i).mpr ⟨hi, hci⟩, j,
        (h.members l hl j).mpr ⟨hj, hcj⟩, hc⟩))
    · exact .inl (.inr ⟨i, hi, hci, hex⟩)
    · exact .inr ⟨j, hj, hcj, hex⟩
    · exact .inl (.inl (.inr hs))

/-- The overlap test of two placed classes. -/
theorem ClassPlacementOk.overlap_iff (h : PreparedOk problem) (hok : ClassPlacementOk problem a)
    {k l : ℕ} (hk : k < (prepare problem).supers.length)
    (hl : l < (prepare problem).supers.length) :
    placementsOverlap (a k) ((prepare problem).superAt k).size (a l)
        ((prepare problem).superAt l).size = false ↔
      ((a k).pool = (a l).pool → Apart (a k).offset.toNat ((prepare problem).superAt k).size.toNat
        (a l).offset.toNat ((prepare problem).superAt l).size.toNat) := by
  obtain ⟨pk, -, hfk⟩ := hok.fits k hk
  obtain ⟨pl, -, hfl⟩ := hok.fits l hl
  rw [placementsOverlap, Bool.and_eq_false_iff, beq_eq_false_iff_ne,
    addressRangesOverlap_eq_false_iff (h.superSize_ne hk) (h.superSize_ne hl) hfk.lt hfl.lt]
  exact ⟨fun h1 e => h1.resolve_left (fun hne => hne e), fun h1 => by
    by_cases e : (a k).pool = (a l).pool
    · exact .inr (h1 e)
    · exact .inl e⟩

theorem Places.placedOk_iff (h : PreparedOk problem) {i : ℕ} (hi : i < problem.buffers.length)
    {placement : Placement} (hpool : (problem.findPool placement.pool).isSome) :
    PlacedOk problem (problem.bufferAt i) placement ↔
      placement.pool ∈ (problem.bufferAt i).allowedPools ∧
        (problem.bufferAt i).alignment.toNat ∣ placement.offset.toNat ∧
        ∃ pool, problem.findPool placement.pool = some pool ∧
          PoolFits pool placement.offset.toNat (problem.bufferAt i).size.toNat :=
  Dsa.placedOk_iff h.wellFormed (bufferAt_mem hi) hpool

theorem SolutionOk.classPlacementOk (h : PreparedOk problem) (hp : Places problem a solution)
    (hs : SolutionOk problem solution) : ClassPlacementOk problem a := by
  have hplaced : ∀ i < problem.buffers.length,
      PlacedOk problem (problem.bufferAt i) (a (classOf problem i)) := by
    intro i hi
    obtain ⟨placement, hfind, hok⟩ := hs.placed _ (bufferAt_mem hi)
    rw [hp.find i hi] at hfind
    exact Option.some.inj hfind ▸ hok
  have hpool : ∀ i < problem.buffers.length, (problem.findPool (a (classOf problem i)).pool).isSome :=
    fun i hi => (hs.known _ _ (hp.find i hi)).2
  have hfacts := fun i hi => (Places.placedOk_iff h hi (hpool i hi)).mp (hplaced i hi)
  have hfits : ∀ k < (prepare problem).supers.length, ∃ pool,
      problem.findPool (a k).pool = some pool ∧
        PoolFits pool (a k).offset.toNat ((prepare problem).superAt k).size.toNat := by
    intro k hk
    obtain ⟨i, hi, rfl, e⟩ := h.exists_member hk
    rw [e]
    exact (hfacts i hi).2.2
  refine ⟨fun k hk => ?_, fun k hk => ?_, hfits, ?_, ?_⟩
  · rw [h.allowed_iff hk]
    rintro i hi rfl
    exact (hfacts i hi).1
  · rw [h.alignment_iff hk]
    rintro i hi rfl
    exact (hfacts i hi).2.1
  · intro k hk l hl hkl hpools hblock
    obtain ⟨pk, -, hfk⟩ := hfits k hk
    obtain ⟨pl, -, hfl⟩ := hfits l hl
    -- the validator's test on any two buffers of the classes
    have key : placementsOverlap (a k) ((prepare problem).superAt k).size (a l)
        ((prepare problem).superAt l).size = false := by
      rcases (h.supersBlock_iff hk hl).mp hblock with
        ⟨i, hi, j, hj, rfl, rfl, hmust⟩ | ⟨separation, hmem, hlook⟩
      · have hroot : (colocationSets problem).root i ≠ (colocationSets problem).root j :=
          fun e => hkl ((h.classOf_eq_iff i hi j hj).mpr e)
        rcases lt_trichotomy i j with hij | rfl | hij
        · have := hs.lifetimes i j hij hj
          unfold lifetimePairErrors at this
          rw [if_neg (by simpa using hroot)] at this
          dsimp only at this
          rw [hmust, if_neg (by simp), hp.find i hi, hp.find j hj] at this
          simpa [h.allocationExtent_eq hi, h.allocationExtent_eq hj] using this
        · exact absurd rfl hkl
        · have := hs.lifetimes j i hij hi
          unfold lifetimePairErrors at this
          rw [if_neg (by simpa using hroot.symm)] at this
          dsimp only at this
          have hmust' : (haveTemporalConflict problem (problem.bufferAt j) (problem.bufferAt i) ||
              exclusivelyPinned problem (problem.bufferAt j).id ||
              exclusivelyPinned problem (problem.bufferAt i).id) = true := by
            rw [haveTemporalConflict_comm, Bool.or_assoc,
              Bool.or_comm (exclusivelyPinned problem (problem.bufferAt j).id), ← Bool.or_assoc]
            exact hmust
          rw [hmust', if_neg (by simp), hp.find i hi, hp.find j hj] at this
          rw [placementsOverlap_comm]
          simpa [h.allocationExtent_eq hi, h.allocationExtent_eq hj] using this
      · have hsep := hs.separated separation hmem
        have hboth : ∀ {x y}, (prepare problem).idToSuper separation.first = some x →
            (prepare problem).idToSuper separation.second = some y →
            placementsOverlap (a x) ((prepare problem).superAt x).size (a y)
              ((prepare problem).superAt y).size = false := by
          intro x y hx hy
          obtain ⟨i, hi, ei, rfl⟩ := h.ofLookup _ _ hx
          obtain ⟨j, hj, ej, rfl⟩ := h.ofLookup _ _ hy
          have hnd := h.wellFormed.bufferIds
          unfold separatedPlacementErrors at hsep
          rw [← ei, ← ej, findBuffer_bufferAt hnd hi, findBuffer_bufferAt hnd hj, hp.find i hi,
            hp.find j hj, bufferIndices_bufferAt hnd hi, bufferIndices_bufferAt hnd hj] at hsep
          simpa [h.allocationExtent_eq hi, h.allocationExtent_eq hj] using hsep
        rcases hlook with ⟨hx, hy⟩ | ⟨hx, hy⟩
        · exact hboth hx hy
        · rw [placementsOverlap_comm]
          exact hboth hx hy
    rw [placementsOverlap, Bool.and_eq_false_iff, beq_eq_false_iff_ne,
      addressRangesOverlap_eq_false_iff (h.superSize_ne hk) (h.superSize_ne hl) hfk.lt hfl.lt] at key
    exact key.resolve_left fun hne => hne hpools
  · intro k hk pinned hpin
    obtain ⟨hmem, hid⟩ := h.pinMem k hk pinned hpin
    obtain ⟨i, hi, e, rfl⟩ := h.ofLookup _ _ hid
    exact hs.pinned pinned hmem _ (e ▸ hp.find i hi)

theorem ClassPlacementOk.solutionOk (h : PreparedOk problem) (hp : Places problem a solution)
    (hok : ClassPlacementOk problem a) : SolutionOk problem solution := by
  have hnd := h.wellFormed.bufferIds
  have hpool : ∀ i < problem.buffers.length,
      (problem.findPool (a (classOf problem i)).pool).isSome := by
    intro i hi
    obtain ⟨pool, hfind, -⟩ := hok.fits _ (h.classOf_lt i hi)
    rw [hfind]
    rfl
  have hblock : ∀ {i j}, i < problem.buffers.length → j < problem.buffers.length →
      classOf problem i ≠ classOf problem j →
      supersBlock problem (prepare problem) (classOf problem i) (classOf problem j) = true →
      placementsOverlap (a (classOf problem i)) (allocationExtent problem i)
        (a (classOf problem j)) (allocationExtent problem j) = false := by
    intro i j hi hj hne hb
    have hki := h.classOf_lt i hi
    have hkj := h.classOf_lt j hj
    rw [h.allocationExtent_eq hi, h.allocationExtent_eq hj, hok.overlap_iff h hki hkj]
    exact fun e => hok.apart _ hki _ hkj hne e hb
  have hlookup : ∀ {id}, knownBuffer problem id = true →
      ∃ i < problem.buffers.length, (problem.bufferAt i).id = id :=
    fun hid => knownBuffer_iff.mp hid
  refine ⟨fun id placement hfind => ?_, fun buffer hb => ?_, fun constraint hc => ?_,
    fun i j hij hj => ?_, fun separation hmem => ?_, fun pinned hmem placement hfind => ?_⟩
  · obtain ⟨i, hi, rfl⟩ := hp.known id placement hfind
    rw [hp.find i hi] at hfind
    obtain rfl := Option.some.inj hfind
    exact ⟨by rw [findBuffer_bufferAt hnd hi]; rfl, hpool i hi⟩
  · obtain ⟨i, hi, rfl⟩ := exists_bufferAt hb
    have hk := h.classOf_lt i hi
    refine ⟨_, hp.find i hi, (Places.placedOk_iff h hi (hpool i hi)).mpr ⟨?_, ?_, ?_⟩⟩
    · exact (h.allowed_iff hk _).mp (hok.allowed _ hk) i hi rfl
    · exact (h.alignment_iff hk _).mp (hok.aligned _ hk) i hi rfl
    · obtain ⟨pool, hfind, hfits⟩ := hok.fits _ hk
      exact ⟨pool, hfind, hfits.mono (h.size_le hi)⟩
  · obtain ⟨h1, h2⟩ := h.wellFormed.colocations constraint hc
    obtain ⟨i, hi, ei⟩ := hlookup h1
    obtain ⟨j, hj, ej⟩ := hlookup h2
    have hpair : (i, j) ∈ colocationPairs problem := by
      refine List.mem_filterMap.mpr ⟨constraint, hc, ?_⟩
      rw [← ei, ← ej, bufferIndices_bufferAt hnd hi, bufferIndices_bufferAt hnd hj]
    have hroot : (colocationSets problem).root i = (colocationSets problem).root j := by
      refine DisjointSet.root_unionAll_of_mem _ _ (fun pair hpair => ?_) hpair
      obtain ⟨c, -, hcp⟩ := List.mem_filterMap.mp hpair
      cases hb1 : bufferIndices problem c.first with
      | none => simp [hb1] at hcp
      | some x =>
          cases hb2 : bufferIndices problem c.second with
          | none => simp [hb1, hb2] at hcp
          | some y =>
              simp only [hb1, hb2, Option.some.injEq] at hcp
              subst hcp
              have hlen : (DisjointSet.ofSize problem.buffers.length).parent.length =
                  problem.buffers.length := List.length_range
              rw [hlen]
              exact ⟨(bufferIndices_lt hb1).1, (bufferIndices_lt hb2).1⟩
    intro first second hf hs
    rw [← ei, hp.find i hi] at hf
    rw [← ej, hp.find j hj, ← (h.classOf_eq_iff i hi j hj).mpr hroot] at hs
    exact (Option.some.inj hf).symm.trans (Option.some.inj hs)
  · have hi : i < problem.buffers.length := hij.trans hj
    unfold lifetimePairErrors
    split_ifs with hroot
    · rfl
    · dsimp only
      split_ifs with hmust
      · rfl
      · rw [hp.find i hi, hp.find j hj]
        dsimp only
        rw [errorIf_eq_nil]
        have hne : classOf problem i ≠ classOf problem j := fun e =>
          hroot (by simpa using (h.classOf_eq_iff i hi j hj).mp e)
        refine hblock hi hj hne ?_
        rw [Bool.not_eq_true, Bool.not_eq_false'] at hmust
        rw [h.supersBlock_iff (h.classOf_lt i hi) (h.classOf_lt j hj)]
        exact .inl ⟨i, hi, j, hj, rfl, rfl, hmust⟩
  · obtain ⟨h1, h2⟩ := h.wellFormed.separations separation hmem
    obtain ⟨i, hi, ei⟩ := hlookup h1
    obtain ⟨j, hj, ej⟩ := hlookup h2
    have hx := h.lookup i hi
    have hy := h.lookup j hj
    rw [ei] at hx
    rw [ej] at hy
    have hne := h.separationsNe separation hmem _ _ hx hy
    unfold separatedPlacementErrors
    rw [← ei, ← ej, findBuffer_bufferAt hnd hi, findBuffer_bufferAt hnd hj, hp.find i hi,
      hp.find j hj, bufferIndices_bufferAt hnd hi, bufferIndices_bufferAt hnd hj]
    dsimp only
    rw [errorIf_eq_nil]
    refine hblock hi hj hne ?_
    rw [h.supersBlock_iff (h.classOf_lt i hi) (h.classOf_lt j hj)]
    exact .inr ⟨separation, hmem, .inl ⟨hx, hy⟩⟩
  · obtain ⟨i, hi, e⟩ := hp.known _ _ hfind
    have hk := h.classOf_lt i hi
    obtain ⟨kept, hkept, e1, e2⟩ := h.pinAgree _ hk pinned hmem (e ▸ h.lookup i hi)
    rw [← e, hp.find i hi] at hfind
    rw [← Option.some.inj hfind, hok.pinned _ hk kept hkept, e1, e2]

/-- **The validator, class by class.** -/
theorem solutionOk_iff (h : PreparedOk problem) (hp : Places problem a solution) :
    SolutionOk problem solution ↔ ClassPlacementOk problem a :=
  ⟨fun hs => hs.classPlacementOk h hp, fun hok => hok.solutionOk h hp⟩

/-- Colocated buffers of a valid solution share their placement. -/
theorem SolutionOk.find_eq_of_root (hs : SolutionOk problem solution) {i j : ℕ}
    (hroot : (colocationSets problem).root i = (colocationSets problem).root j) :
    solution.find (problem.bufferAt i).id = solution.find (problem.bufferAt j).id := by
  have key : ∀ x y, (colocationSets problem).root x = (colocationSets problem).root y →
      solution.find (problem.bufferAt x).id = solution.find (problem.bufferAt y).id := by
    intro x y hxy
    refine DisjointSet.root_unionAll_le (colocationPairs problem) _
      (E := fun x y => solution.find (problem.bufferAt x).id = solution.find (problem.bufferAt y).id)
      ⟨fun _ => rfl, fun e => e.symm, fun e1 e2 => e1.trans e2⟩ ?_ ?_ hxy
    · intro x y hxy
      rw [DisjointSet.root_ofSize, DisjointSet.root_ofSize] at hxy
      rw [hxy]
    · intro pair hpair
      obtain ⟨c, hc, hcp⟩ := List.mem_filterMap.mp hpair
      cases hb1 : bufferIndices problem c.first with
      | none => simp [hb1] at hcp
      | some x =>
          cases hb2 : bufferIndices problem c.second with
          | none => simp [hb1, hb2] at hcp
          | some y =>
              simp only [hb1, hb2, Option.some.injEq] at hcp
              subst hcp
              obtain ⟨hx, ex⟩ := bufferIndices_lt hb1
              obtain ⟨hy, ey⟩ := bufferIndices_lt hb2
              obtain ⟨px, hpx, -⟩ := hs.placed _ (bufferAt_mem hx)
              obtain ⟨py, hpy, -⟩ := hs.placed _ (bufferAt_mem hy)
              rw [hpx, hpy, hs.colocated c hc px py (ex ▸ hpx) (ey ▸ hpy)]
  exact key i j hroot

/-- A valid solution is a placement of the classes. -/
theorem SolutionOk.exists_places (h : PreparedOk problem) (hs : SolutionOk problem solution) :
    ∃ a, Places problem a solution := by
  have hex : ∀ k, ∃ placement : Placement, ∀ i < problem.buffers.length, classOf problem i = k →
      solution.find (problem.bufferAt i).id = some placement := by
    intro k
    by_cases hk : ∃ i < problem.buffers.length, classOf problem i = k
    · obtain ⟨i, hi, hc⟩ := hk
      obtain ⟨placement, hfind, -⟩ := hs.placed _ (bufferAt_mem hi)
      refine ⟨placement, fun j hj hcj => ?_⟩
      rw [← hfind]
      exact hs.find_eq_of_root ((h.classOf_eq_iff j hj i hi).mp (hcj.trans hc.symm))
    · exact ⟨{}, fun i hi hc => absurd ⟨i, hi, hc⟩ hk⟩
  choose a ha using hex
  refine ⟨a, fun i hi => ha _ i hi rfl, fun id placement hfind => ?_⟩
  exact findBuffer_isSome_iff.mp (hs.known id placement hfind).1

end classes

end Dsa
