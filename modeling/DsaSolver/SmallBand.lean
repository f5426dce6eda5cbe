import DsaSolver.GridCost
import DsaSolver.Theory.FirstFit

/-! # The tracks of the small nodes

The height of a track comes from halving the threshold; below a threshold on the alignment grid it
is at least the size of a node on it (`trackHolds_of_lt`).  The loop over a class colours it
first-fit and puts every node on the track of its colour (`colored_foldlM`). -/

namespace Dsa

namespace ScaleGrid

open Theory (FirstFit freeColors)

theorem positions_set {offsets : List UInt64} {n : ℕ} (hn : n < offsets.length) (offset : UInt64)
    (m : ℕ) : positions (offsets.set n offset) m = if n = m then offset.toNat else
      positions offsets m := by
  unfold positions
  rw [getD_set hn]
  split_ifs <;> rfl

/-! ### The height of a track -/

/-- The height of the tracks of a class with the given upper size. -/
def trackHeight (upper addressQuantum : UInt64) : ℕ :=
  Theory.alignUp upper.toNat addressQuantum.toNat

/-- A track is at least as high as a node of the size on it. -/
def TrackHolds (size threshold addressQuantum : UInt64) : Prop :=
  size.toNat ≤ trackHeight (harmonicUpper size threshold addressQuantum) addressQuantum

theorem toNat_half {upper : UInt64} (h : upper.toNat + 1 < 2 ^ 64) :
    ((upper + 1) / 2).toNat = (upper.toNat + 1) / 2 := by
  have hone : (1 : UInt64).toNat = 1 := rfl
  have htwo : (2 : UInt64).toNat = 2 := rfl
  rw [UInt64.toNat_div, Theory.toNat_add_of_lt (by rw [hone]; exact h), hone, htwo]

/-- Halving stops between the units of the size and the start. -/
theorem halveUnits_bounds {sizeUnits : UInt64} (fuel : ℕ) {upper : UInt64}
    (h : sizeUnits ≤ upper) : sizeUnits ≤ halveUnits sizeUnits fuel upper ∧
      halveUnits sizeUnits fuel upper ≤ upper := by
  induction fuel generalizing upper with
  | zero => exact ⟨h, le_refl _⟩
  | succ fuel ih =>
      unfold halveUnits
      split_ifs with hone
      · exact ⟨h, le_refl _⟩
      · dsimp only
        split_ifs with hstop
        · exact ⟨h, le_refl _⟩
        · rw [Bool.or_eq_true, not_or, decide_eq_true_iff, not_lt] at hstop
          obtain ⟨hlow, hhigh⟩ := ih hstop.1
          refine ⟨hlow, hhigh.trans ?_⟩
          rw [UInt64.le_iff_toNat_le, UInt64.toNat_one, not_le] at hone
          by_cases hwrap : upper.toNat + 1 < 2 ^ 64
          · rw [UInt64.le_iff_toNat_le, toNat_half hwrap]
            omega
          · -- the last word wraps to zero
            have hlt := upper.toNat_lt
            have hlast : (upper + 1).toNat = 0 := by
              rw [UInt64.toNat_add, UInt64.toNat_one, show upper.toNat + 1 = 2 ^ 64 by omega,
                Nat.mod_self]
            rw [UInt64.le_iff_toNat_le, UInt64.toNat_div, hlast, Nat.zero_div]
            exact Nat.zero_le _

/-- The source halves until it stops by itself: 64 halvings are enough. -/
theorem halveUnits_fuel (sizeUnits : UInt64) {fuel more : ℕ} {upper : UInt64}
    (h : upper.toNat ≤ 2 ^ fuel) :
    halveUnits sizeUnits (fuel + more) upper = halveUnits sizeUnits fuel upper := by
  induction fuel generalizing upper with
  | zero =>
      cases more with
      | zero => rfl
      | succ more =>
          have hone : upper ≤ 1 := UInt64.le_iff_toNat_le.mpr (by simpa using h)
          rw [Nat.zero_add]
          unfold halveUnits
          rw [if_pos hone]
  | succ fuel ih =>
      rw [show fuel + 1 + more = fuel + more + 1 by omega]
      unfold halveUnits
      split_ifs with hone
      · rfl
      · dsimp only
        split_ifs with hstop
        · rfl
        · refine ih ?_
          rw [Nat.pow_succ] at h
          by_cases hwrap : upper.toNat + 1 < 2 ^ 64
          · rw [toNat_half hwrap]
            omega
          · have hlt := upper.toNat_lt
            have hlast : (upper + 1).toNat = 0 := by
              rw [UInt64.toNat_add, UInt64.toNat_one, show upper.toNat + 1 = 2 ^ 64 by omega,
                Nat.mod_self]
            rw [UInt64.toNat_div, hlast, Nat.zero_div]
            exact Nat.zero_le _

/-- A size that fits the threshold on the alignment grid, where rounding the threshold up may
wrap only if the first halving succeeds. -/
def FitsTrack (size threshold addressQuantum : ℕ) : Prop :=
  size ≤ Theory.alignUp threshold addressQuantum ∧
    (Theory.alignUp threshold addressQuantum < 2 ^ 64 ∨
      2 * size ≤ Theory.alignUp threshold addressQuantum + addressQuantum)

/-- The track is the units that are left times the alignment, when that does not wrap. -/
theorem trackHolds_of_units {size threshold addressQuantum : UInt64} {units : ℕ}
    (hsize : size.toNat ≤ units * addressQuantum.toNat)
    (hlow : units ≤ (halveUnits (size / addressQuantum) 64
      (ceilDivide threshold addressQuantum)).toNat)
    (hhigh : (halveUnits (size / addressQuantum) 64
      (ceilDivide threshold addressQuantum)).toNat * addressQuantum.toNat < 2 ^ 64) :
    TrackHolds size threshold addressQuantum := by
  refine le_trans ?_ (Theory.le_alignUp _ _)
  unfold harmonicUpper
  rw [UInt64.toNat_mul, Nat.mod_eq_of_lt hhigh]
  exact hsize.trans (Nat.mul_le_mul_right _ hlow)

theorem trackHolds_of_fits {size threshold addressQuantum : UInt64} (hquantum : addressQuantum ≠ 0)
    (hsize : addressQuantum.toNat ∣ size.toNat)
    (hfits : FitsTrack size.toNat threshold.toNat addressQuantum.toNat) :
    TrackHolds size threshold addressQuantum := by
  have hpos : 0 < addressQuantum.toNat := Nat.pos_of_ne_zero (toNat_ne_zero hquantum)
  obtain ⟨units, hunits⟩ := hsize
  have hsizeUnits : (size / addressQuantum).toNat = units := by
    rw [UInt64.toNat_div, hunits, Nat.mul_div_cancel_left _ hpos]
  have hstart : addressQuantum.toNat * (ceilDivide threshold addressQuantum).toNat =
      Theory.alignUp threshold.toNat addressQuantum.toNat := mul_ceilDivide hquantum
  obtain ⟨hle, hroom⟩ := hfits
  rw [← hstart] at hle hroom
  rw [hunits] at hle hroom
  have hunitsLe : units ≤ (ceilDivide threshold addressQuantum).toNat :=
    Nat.le_of_mul_le_mul_left hle hpos
  have hsizeLe : size.toNat ≤ units * addressQuantum.toNat := by rw [hunits, Nat.mul_comm]
  by_cases hwrap : addressQuantum.toNat * (ceilDivide threshold addressQuantum).toNat < 2 ^ 64
  · -- the rounded threshold does not wrap, and halving only lowers it
    obtain ⟨hlow, hhigh⟩ := @halveUnits_bounds (size / addressQuantum) 64
      (ceilDivide threshold addressQuantum) (UInt64.le_iff_toNat_le.mpr (by omega))
    rw [UInt64.le_iff_toNat_le] at hlow hhigh
    refine trackHolds_of_units hsizeLe (by omega) ?_
    have := Nat.mul_le_mul_left addressQuantum.toNat hhigh
    rw [Nat.mul_comm]
    omega
  · -- the first halving succeeds and brings the units below the threshold
    have hthreshold := threshold.toNat_lt
    have hlast := Theory.alignUp_lt hpos threshold.toNat
    rw [← hstart] at hlast
    generalize hupper : ceilDivide threshold addressQuantum = upper at *
    have htwo : 2 ≤ upper.toNat := by
      by_contra hlt
      have hone : upper.toNat ≤ 1 := by omega
      have := Nat.mul_le_mul_left addressQuantum.toNat hone
      have := addressQuantum.toNat_lt
      omega
    have hnoWrap : upper.toNat + 1 < 2 ^ 64 := by
      by_contra hge
      have hlt := upper.toNat_lt
      have hq2 : 2 ≤ addressQuantum.toNat := by
        by_contra hq
        have hq1 : addressQuantum.toNat = 1 := by omega
        rw [hq1] at hwrap
        omega
      have := Nat.mul_le_mul hq2 (show 2 ^ 64 - 1 ≤ upper.toNat by omega)
      have := addressQuantum.toNat_lt
      omega
    have hhalf := toNat_half hnoWrap
    have hle2 : units ≤ (upper.toNat + 1) / 2 := by
      have hmul : addressQuantum.toNat * (2 * units) ≤
          addressQuantum.toNat * (upper.toNat + 1) := by
        rw [Nat.mul_succ, Nat.mul_left_comm]
        omega
      have := Nat.le_of_mul_le_mul_left hmul hpos
      omega
    have hfirst : halveUnits (size / addressQuantum) 64 upper =
        halveUnits (size / addressQuantum) 63 ((upper + 1) / 2) := by
      show halveUnits (size / addressQuantum) (63 + 1) upper = _
      conv_lhs => unfold halveUnits
      rw [if_neg, if_neg]
      · rw [Bool.or_eq_true, decide_eq_true_iff, beq_iff_eq, UInt64.lt_iff_toNat_lt,
          ← UInt64.toNat_inj, hhalf]
        omega
      · rw [UInt64.le_iff_toNat_le, UInt64.toNat_one]
        omega
    obtain ⟨hlow, hhigh⟩ := @halveUnits_bounds (size / addressQuantum) 63 ((upper + 1) / 2)
      (UInt64.le_iff_toNat_le.mpr (by omega))
    rw [UInt64.le_iff_toNat_le] at hlow hhigh
    refine trackHolds_of_units hsizeLe ?_ ?_
    · rw [hupper, hfirst]
      omega
    · rw [hupper, hfirst]
      have hstep : (halveUnits (size / addressQuantum) 63 ((upper + 1) / 2)).toNat + 1 ≤
          upper.toNat := by omega
      have := Nat.mul_le_mul_left addressQuantum.toNat hstep
      rw [Nat.mul_succ] at this
      rw [Nat.mul_comm]
      omega

/-- Below a threshold on the alignment grid every track is high enough. -/
theorem trackHolds_of_lt {size threshold addressQuantum : UInt64} (hquantum : addressQuantum ≠ 0)
    (hsize : addressQuantum.toNat ∣ size.toNat) (hthreshold : addressQuantum.toNat ∣ threshold.toNat)
    (hlt : size ≤ threshold) : TrackHolds size threshold addressQuantum := by
  refine trackHolds_of_fits hquantum hsize ?_
  unfold FitsTrack
  rw [Theory.alignUp_eq_self hthreshold]
  exact ⟨UInt64.le_iff_toNat_le.mp hlt, .inl threshold.toNat_lt⟩

/-! ### The colours of a class -/

/-- The number of colours that the nodes use. -/
def colorsUsed (color : ℕ → ℕ) (nodes : List ℕ) : ℕ := nodes.toFinset.sup fun n => color n + 1

theorem lt_colorsUsed {color : ℕ → ℕ} {nodes : List ℕ} {n : ℕ} (hn : n ∈ nodes) :
    color n < colorsUsed color nodes :=
  Finset.le_sup (f := fun n => color n + 1) (List.mem_toFinset.mpr hn)

theorem colorsUsed_concat (color : ℕ → ℕ) (nodes : List ℕ) (n : ℕ) :
    colorsUsed color (nodes ++ [n]) = max (colorsUsed color nodes) (color n + 1) := by
  unfold colorsUsed
  rw [List.toFinset_append, Finset.sup_union]
  simp

theorem colorsUsed_congr {color other : ℕ → ℕ} {nodes : List ℕ}
    (h : ∀ n ∈ nodes, color n = other n) : colorsUsed color nodes = colorsUsed other nodes :=
  Finset.sup_congr rfl fun n hn => by rw [h n (List.mem_toFinset.mp hn)]

theorem colorsUsed_perm (color : ℕ → ℕ) {nodes sorted : List ℕ} (h : sorted.Perm nodes) :
    colorsUsed color sorted = colorsUsed color nodes := by
  unfold colorsUsed
  rw [List.toFinset_eq_of_perm _ _ h]

theorem leastFree_isLeast (blocked : List ℕ) : IsLeast {c | c ∉ blocked} (leastFree blocked) := by
  have hex : ∃ color ∈ List.range (blocked.length + 1), color ∉ blocked := by
    by_contra hall
    push Not at hall
    have hsub := (List.subperm_of_subset List.nodup_range hall).length_le
    rw [List.length_range] at hsub
    omega
  obtain ⟨color, hcolor, hfree⟩ := hex
  unfold leastFree
  cases hfind : (List.range (blocked.length + 1)).find? fun color => !blocked.contains color with
  | none =>
      rw [List.find?_eq_none] at hfind
      exact absurd (hfind color hcolor) (by simpa using hfree)
  | some least =>
      obtain ⟨hleast, -, hbelow⟩ := List.find?_range_eq_some.mp hfind
      refine ⟨by simpa using hleast, fun c hc => not_lt.mp fun hlt => hc ?_⟩
      simpa using hbelow c hlt

section tracks

variable {problem : DsaProblem} {offsets : List UInt64} {trackSize base : UInt64}

/-- The colour of a node. -/
def TrackState.colorOf (state : TrackState) (n : ℕ) : ℕ := (state.colorByNode.lookup n).getD 0

/-- The nodes done are coloured first-fit, with their tracks as offsets; the other offsets are as
before. -/
structure Colored (problem : DsaProblem) (offsets : List UInt64) (trackSize base : UInt64)
    (done : List ℕ) (state : TrackState) : Prop where
  length : state.offsets.length = problem.search.count
  known : ∀ n, state.colorByNode.lookup n = if n ∈ done then some (state.colorOf n) else none
  firstFit : FirstFit (NodesConflict problem) done state.colorOf
  count : state.colorCount = colorsUsed state.colorOf done
  placed : ∀ n ∈ done, positions state.offsets n = base.toNat + state.colorOf n * trackSize.toNat
  frame : ∀ n, n ∉ done → positions state.offsets n = positions offsets n

/-- What passes the check of the source is a product that fits the room. -/
theorem mul_le_of_check {count height room : ℕ}
    (h : (count != 0 && decide (height > room / count)) = false) : count * height ≤ room := by
  rw [← Bool.not_eq_true, Bool.and_eq_true, bne_iff_ne, decide_eq_true_iff, not_and, not_lt] at h
  obtain rfl | hpos := Nat.eq_zero_or_pos count
  · rw [Nat.zero_mul]
    exact Nat.zero_le room
  · rw [Nat.mul_comm]
    exact (Nat.le_div_iff_mul_le hpos).mp (h hpos.ne')

theorem toNat_ofNat_mul {count : ℕ} {height : UInt64} (h : count * height.toNat < 2 ^ 64) :
    (UInt64.ofNat count * height).toNat = count * height.toNat := by
  rw [UInt64.toNat_mul, UInt64.toNat_ofNat', Nat.mod_mul_mod, Nat.mod_eq_of_lt h]

theorem toNat_add_ofNat_mul {count : ℕ} {base height : UInt64}
    (h : base.toNat + count * height.toNat < 2 ^ 64) :
    (base + UInt64.ofNat count * height).toNat = base.toNat + count * height.toNat := by
  have hproduct := @toNat_ofNat_mul count height (by omega)
  rw [Theory.toNat_add_of_lt (by rwa [hproduct]), hproduct]

/-- The colours blocked for a node are those of its neighbours done. -/
theorem Colored.blocked (h : SearchOk problem) {done : List ℕ} {state : TrackState} {n : ℕ}
    (hcolored : Colored problem offsets trackSize base done state) (hn : n < problem.search.count)
    (hcount : ∀ m ∈ done, m < problem.search.count) :
    {c | c ∉ (problem.search.hardNeighborsOf n).filterMap
      fun neighbor => state.colorByNode.lookup neighbor} =
        freeColors (NodesConflict problem) state.colorOf done n := by
  ext c
  rw [Set.mem_ofPred_eq, List.mem_filterMap]
  constructor
  · rintro hfree m hm hconflict rfl
    refine hfree ⟨m, (h.mem_hardNeighborsOf hn m).mpr ⟨hcount m hm, hconflict⟩, ?_⟩
    rw [hcolored.known, if_pos hm]
  · rintro hfree ⟨m, hm, hlookup⟩
    rw [hcolored.known] at hlookup
    split_ifs at hlookup with hdone
    exact hfree m hdone ((h.mem_hardNeighborsOf hn m).mp hm).2 (Option.some.inj hlookup)

theorem Colored.step (h : SearchOk problem) {done : List ℕ} {state next : TrackState} {n : ℕ}
    (hcolored : Colored problem offsets trackSize base done state) (hn : n < problem.search.count)
    (hnew : n ∉ done) (hcount : ∀ m ∈ done, m < problem.search.count)
    (hnext : placeOnTrack problem.search trackSize base state n = .ok next) :
    Colored problem offsets trackSize base (done ++ [n]) next := by
  have hblocked := hcolored.blocked h hn hcount
  unfold placeOnTrack at hnext
  dsimp only at hnext
  obtain ⟨_, hfits, hnext⟩ := Theory.bind_eq_ok.mp hnext
  obtain ⟨_, hover, hnext⟩ := Theory.bind_eq_ok.mp hnext
  obtain rfl := Except.ok.inj hnext
  have hleast := leastFree_isLeast ((problem.search.hardNeighborsOf n).filterMap
    fun neighbor => state.colorByNode.lookup neighbor)
  rw [hblocked] at hleast
  generalize leastFree ((problem.search.hardNeighborsOf n).filterMap
    fun neighbor => state.colorByNode.lookup neighbor) = color at hfits hover hleast ⊢
  rw [failIf_eq_ok] at hfits
  have hle := mul_le_of_check hfits
  rw [failIf_eq_ok, Theory.addOverflows_eq_false_iff, toNat_ofNat_mul (by omega)] at hover
  have hoffset := toNat_add_ofNat_mul hover
  have hpositions := @positions_set state.offsets n (by rw [hcolored.length]; exact hn)
    (base + UInt64.ofNat color * trackSize)
  generalize hlast : ({ colorByNode := (n, color) :: state.colorByNode
                        colorCount := max state.colorCount (color + 1)
                        offsets := state.offsets.set n (base + UInt64.ofNat color * trackSize) } :
    TrackState) = next
  have hlookup : ∀ m, next.colorByNode.lookup m =
      if m = n then some color else state.colorByNode.lookup m := by
    intro m
    rw [← hlast, List.lookup_cons]
    by_cases hm : m = n
    · rw [if_pos hm, beq_iff_eq.mpr hm]
    · rw [if_neg hm, beq_eq_false_iff_ne.mpr hm]
  have hself : next.colorOf n = color := by
    rw [TrackState.colorOf, hlookup, if_pos rfl, Option.getD_some]
  have hold : ∀ m, m ≠ n → state.colorOf m = next.colorOf m := by
    intro m hm
    rw [TrackState.colorOf, TrackState.colorOf, hlookup, if_neg hm]
  have holdDone : ∀ m ∈ done, state.colorOf m = next.colorOf m := by
    intro m hm
    refine hold m ?_
    rintro rfl
    exact hnew hm
  refine ⟨?_, fun m => ?_, ?_, ?_, fun m hm => ?_, fun m hm => ?_⟩
  · rw [← hlast, List.length_set]
    exact hcolored.length
  · have hmem : m ∈ done ++ [n] ↔ m ∈ done ∨ m = n := by
      rw [List.mem_append, List.mem_singleton]
    rw [hlookup]
    by_cases hm : m = n
    · rw [if_pos hm, if_pos (hmem.mpr (.inr hm)), hm, hself]
    · rw [if_neg hm, hcolored.known, hold m hm]
      exact if_congr (by tauto) rfl rfl
  · rw [Theory.firstFit_concat, hself, ← Theory.freeColors_congr holdDone]
    exact ⟨hcolored.firstFit.congr holdDone, hleast⟩
  · rw [colorsUsed_concat, hself, ← colorsUsed_congr holdDone, ← hcolored.count, ← hlast]
  · rw [← hlast, hpositions, hlast]
    by_cases heq : m = n
    · rw [if_pos heq.symm, heq, hself, hoffset]
    · rw [if_neg (Ne.symm heq), ← hold m heq]
      obtain hdone | hlast := List.mem_append.mp hm
      · exact hcolored.placed m hdone
      · exact absurd (List.mem_singleton.mp hlast) heq
  · rw [List.mem_append, List.mem_singleton, not_or] at hm
    rw [← hlast, hpositions, if_neg (Ne.symm hm.2)]
    exact hcolored.frame m hm.1

theorem colored_foldlM (h : SearchOk problem) {nodes : List ℕ} {state : TrackState}
    (hlength : offsets.length = problem.search.count) (hnodup : nodes.Nodup)
    (hcount : ∀ n ∈ nodes, n < problem.search.count)
    (hstate : nodes.foldlM (placeOnTrack problem.search trackSize base) ⟨[], 0, offsets⟩ =
      .ok state) : Colored problem offsets trackSize base nodes state := by
  refine Theory.foldlM_induction
    (fun done state => Colored problem offsets trackSize base done state) ?_ ?_ hstate
  · refine ⟨hlength, fun n => ?_, Theory.firstFit_nil _ _, rfl,
      (fun n hn => absurd hn List.not_mem_nil), fun _ _ => rfl⟩
    rw [if_neg List.not_mem_nil]
    rfl
  · intro done n rest state next hsplit hcolored hnext
    rw [hsplit] at hnodup hcount
    refine hcolored.step h (hcount n ?_) ?_ (fun m hm => hcount m ?_) hnext
    · exact List.mem_append_right _ List.mem_cons_self
    · intro hdone
      exact (List.nodup_append.mp hnodup).2.2 n hdone n List.mem_cons_self rfl
    · exact List.mem_append_left _ hm

end tracks

end ScaleGrid

end Dsa
