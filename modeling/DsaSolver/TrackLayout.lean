import DsaSolver.SmallBand

/-! # Where the tracks lie

The classes of the small nodes are stacked: the tracks of a class start above those of the classes
before it.  `Tracks` says where every node lies without the loop, from the first-fit colours of the
classes; it has one solution (`Tracks.unique`), the tracks of nodes in conflict are apart
(`Tracks.apart`), and the loop computes it (`placeSmallBand_tracks`).  So the nodes of a band are
apart as soon as every track is at least as high as the nodes on it (`Banded.apart`), and in
general exactly when the nodes that overhang their tracks are clear (`Banded.clear_iff`). -/

namespace Dsa

namespace ScaleGrid

open Theory (Apart FirstFit)

/-- The nodes of a class in the order in which they are coloured. -/
def byBirth (problem : DsaProblem) (nodes : List ℕ) : List ℕ :=
  nodes.insertionSort fun first second => (!smallBefore problem problem.search second first) = true

/-- The height of the tracks of a class. -/
def classHeight (addressQuantum : UInt64) (color : ℕ → ℕ) (trackClass : UInt64 × List ℕ) : ℕ :=
  colorsUsed color trackClass.2 * trackHeight trackClass.1 addressQuantum

/-- Where a class starts that has the given ones below it. -/
def bandBase (addressQuantum : UInt64) (start : ℕ) (color : ℕ → ℕ)
    (below : List (UInt64 × List ℕ)) : ℕ :=
  Theory.alignUp start addressQuantum.toNat + (below.map (classHeight addressQuantum color)).sum

/-- The colours of every class are its first-fit colours in order of birth, and every node lies on
the track of its colour. -/
structure Tracks (problem : DsaProblem) (addressQuantum : UInt64) (start : ℕ)
    (classes : List (UInt64 × List ℕ)) (color offset : ℕ → ℕ) : Prop where
  firstFit : ∀ trackClass ∈ classes,
    FirstFit (NodesConflict problem) (byBirth problem trackClass.2) color
  offset : ∀ below trackClass above, classes = below ++ trackClass :: above →
    ∀ n ∈ trackClass.2, offset n = bandBase addressQuantum start color below +
      color n * trackHeight trackClass.1 addressQuantum

/-- The height of the track of a node. -/
def trackOf (problem : DsaProblem) (threshold addressQuantum : UInt64) (n : ℕ) : ℕ :=
  trackHeight (harmonicUpper (problem.search.nodeAt n).size threshold addressQuantum)
    addressQuantum

variable {problem : DsaProblem} {addressQuantum : UInt64} {start : ℕ} {color offset : ℕ → ℕ}

/-- A node higher than its track stays within 64 bits and below the conflicting nodes above it. -/
def OverhangsClear (problem : DsaProblem) (nodes : List ℕ) (threshold addressQuantum : UInt64)
    (offset : ℕ → ℕ) : Prop :=
  ∀ n ∈ nodes, trackOf problem threshold addressQuantum n < nodeSize problem n →
    offset n + nodeSize problem n < 2 ^ 64 ∧
      ∀ m ∈ nodes, NodesConflict problem n m → offset n ≤ offset m →
        offset n + nodeSize problem n ≤ offset m

/-! ### The base of a class -/

section base

theorem bandBase_split (below above : List (UInt64 × List ℕ)) (trackClass : UInt64 × List ℕ) :
    bandBase addressQuantum start color (below ++ trackClass :: above) =
      bandBase addressQuantum start color below + classHeight addressQuantum color trackClass +
        (above.map (classHeight addressQuantum color)).sum := by
  unfold bandBase
  rw [List.map_append, List.sum_append, List.map_cons, List.sum_cons]
  omega

theorem bandBase_congr {below : List (UInt64 × List ℕ)} {other : ℕ → ℕ}
    (h : ∀ trackClass ∈ below, ∀ n ∈ trackClass.2, color n = other n) :
    bandBase addressQuantum start color below = bandBase addressQuantum start other below := by
  unfold bandBase
  congr 2
  refine List.map_congr_left fun trackClass hclass => ?_
  unfold classHeight
  rw [colorsUsed_congr (h trackClass hclass)]

theorem le_bandBase (below : List (UInt64 × List ℕ)) :
    start ≤ bandBase addressQuantum start color below :=
  (Theory.le_alignUp _ _).trans (Nat.le_add_right _ _)

theorem dvd_bandBase (hquantum : addressQuantum ≠ 0) (below : List (UInt64 × List ℕ)) :
    addressQuantum.toNat ∣ bandBase addressQuantum start color below := by
  have hpos : 0 < addressQuantum.toNat := Nat.pos_of_ne_zero (toNat_ne_zero hquantum)
  refine Nat.dvd_add (Theory.dvd_alignUp hpos _) (List.dvd_sum fun height hheight => ?_)
  obtain ⟨trackClass, -, rfl⟩ := List.mem_map.mp hheight
  exact (Theory.dvd_alignUp hpos _).mul_left _

end base

/-! ### The layout -/

section layout

variable {classes : List (UInt64 × List ℕ)}

theorem mem_byBirth {nodes : List ℕ} {n : ℕ} : n ∈ byBirth problem nodes ↔ n ∈ nodes := by
  unfold byBirth
  rw [List.mem_insertionSort]

theorem Tracks.congr (h : Tracks problem addressQuantum start classes color offset)
    {color' offset' : ℕ → ℕ}
    (hcolor : ∀ trackClass ∈ classes, ∀ n ∈ trackClass.2, color n = color' n)
    (hoffset : ∀ trackClass ∈ classes, ∀ n ∈ trackClass.2, offset n = offset' n) :
    Tracks problem addressQuantum start classes color' offset' := by
  refine ⟨fun trackClass hclass => ?_, fun below trackClass above hsplit n hn => ?_⟩
  · exact (h.firstFit trackClass hclass).congr fun n hn =>
      hcolor trackClass hclass n (mem_byBirth.mp hn)
  · have hclass : trackClass ∈ classes := by
      rw [hsplit]
      exact List.mem_append_right _ List.mem_cons_self
    rw [← hoffset trackClass hclass n hn, h.offset below trackClass above hsplit n hn,
      hcolor trackClass hclass n hn]
    congr 1
    refine bandBase_congr fun other hother => hcolor other ?_
    rw [hsplit]
    exact List.mem_append_left _ hother

/-- A class above those that have their tracks. -/
theorem Tracks.concat (h : Tracks problem addressQuantum start classes color offset)
    {trackClass : UInt64 × List ℕ}
    (hfirst : FirstFit (NodesConflict problem) (byBirth problem trackClass.2) color)
    (hoffset : ∀ n ∈ trackClass.2, offset n = bandBase addressQuantum start color classes +
      color n * trackHeight trackClass.1 addressQuantum) :
    Tracks problem addressQuantum start (classes ++ [trackClass]) color offset := by
  constructor
  · rw [List.forall_mem_append, List.forall_mem_singleton]
    exact ⟨h.firstFit, hfirst⟩
  · exact Theory.forall_split_concat.mpr ⟨h.offset, hoffset⟩

/-- The classes determine the colours and the offsets. -/
theorem Tracks.unique (h : Tracks problem addressQuantum start classes color offset)
    {color' offset' : ℕ → ℕ} (h' : Tracks problem addressQuantum start classes color' offset') :
    ∀ trackClass ∈ classes, ∀ n ∈ trackClass.2, offset n = offset' n := by
  have hcolor : ∀ trackClass ∈ classes, ∀ n ∈ trackClass.2, color n = color' n :=
    fun trackClass hclass n hn => (h.firstFit trackClass hclass).unique
      (h'.firstFit trackClass hclass) n (mem_byBirth.mpr hn)
  intro trackClass hclass n hn
  obtain ⟨below, above, hsplit⟩ := List.append_of_mem hclass
  rw [h.offset below trackClass above hsplit n hn, h'.offset below trackClass above hsplit n hn,
    hcolor trackClass hclass n hn]
  congr 1
  refine bandBase_congr fun other hother => hcolor other ?_
  rw [hsplit]
  exact List.mem_append_left _ hother

end layout

/-! ### The classes of a band -/

section classes

variable {small : List ℕ} {threshold : UInt64}

theorem harmonicClass_eq {trackClass : UInt64 × List ℕ}
    (hmem : trackClass ∈ harmonicClasses problem.search small threshold addressQuantum) :
    trackClass.2 = small.filter fun node =>
      harmonicUpper (problem.search.nodeAt node).size threshold addressQuantum == trackClass.1 := by
  unfold harmonicClasses at hmem
  obtain ⟨value, -, rfl⟩ := List.mem_map.mp hmem
  rfl

theorem mem_harmonicClasses {trackClass : UInt64 × List ℕ}
    (hmem : trackClass ∈ harmonicClasses problem.search small threshold addressQuantum) (n : ℕ) :
    n ∈ trackClass.2 ↔ n ∈ small ∧
      harmonicUpper (problem.search.nodeAt n).size threshold addressQuantum = trackClass.1 := by
  rw [harmonicClass_eq hmem, List.mem_filter, beq_iff_eq]

theorem exists_harmonicClass {n : ℕ} (hn : n ∈ small) :
    ∃ trackClass ∈ harmonicClasses problem.search small threshold addressQuantum,
      n ∈ trackClass.2 := by
  unfold harmonicClasses
  refine ⟨(harmonicUpper (problem.search.nodeAt n).size threshold addressQuantum, _),
    List.mem_map_of_mem ?_, List.mem_filter.mpr ⟨hn, beq_self_eq_true _⟩⟩
  rw [List.mem_insertionSort, List.mem_dedup]
  exact List.mem_map_of_mem hn

theorem nodup_harmonicClasses :
    ((harmonicClasses problem.search small threshold addressQuantum).map Prod.fst).Nodup := by
  unfold harmonicClasses
  rw [List.map_map]
  show (List.map id _).Nodup
  rw [List.map_id, (List.perm_insertionSort _ _).nodup_iff]
  exact List.nodup_dedup _

section tracks

variable (h : Tracks problem addressQuantum start
  (harmonicClasses problem.search small threshold addressQuantum) color offset)
include h

/-- Where a node of the band lies, in the class above those below it. -/
theorem Tracks.place {n : ℕ} (hn : n ∈ small) : ∃ below trackClass above,
    harmonicClasses problem.search small threshold addressQuantum = below ++ trackClass :: above ∧
      n ∈ trackClass.2 ∧ trackHeight trackClass.1 addressQuantum =
        trackOf problem threshold addressQuantum n ∧
      offset n = bandBase addressQuantum start color below +
        color n * trackOf problem threshold addressQuantum n ∧
      offset n + trackOf problem threshold addressQuantum n ≤
        bandBase addressQuantum start color below +
          classHeight addressQuantum color trackClass := by
  obtain ⟨trackClass, hclass, hin⟩ :=
    @exists_harmonicClass problem addressQuantum small threshold n hn
  obtain ⟨below, above, hsplit⟩ := List.append_of_mem hclass
  have hheight : trackHeight trackClass.1 addressQuantum =
      trackOf problem threshold addressQuantum n := by
    rw [← ((mem_harmonicClasses hclass n).mp hin).2]
    rfl
  have hoffset := h.offset below trackClass above hsplit n hin
  rw [hheight] at hoffset
  refine ⟨below, trackClass, above, hsplit, hin, hheight, hoffset, ?_⟩
  unfold classHeight
  rw [hoffset, hheight, Nat.add_assoc, ← Nat.succ_mul]
  exact Nat.add_le_add_left (Nat.mul_le_mul_right _ (lt_colorsUsed hin)) _

theorem Tracks.start_le {n : ℕ} (hn : n ∈ small) : start ≤ offset n := by
  obtain ⟨below, -, -, -, -, -, hoffset, -⟩ := h.place hn
  rw [hoffset]
  exact (le_bandBase below).trans (Nat.le_add_right _ _)

theorem Tracks.dvd (hquantum : addressQuantum ≠ 0) {n : ℕ} (hn : n ∈ small) :
    addressQuantum.toNat ∣ offset n := by
  obtain ⟨below, -, -, -, -, -, hoffset, -⟩ := h.place hn
  rw [hoffset]
  have hpos : 0 < addressQuantum.toNat := Nat.pos_of_ne_zero (toNat_ne_zero hquantum)
  exact Nat.dvd_add (dvd_bandBase hquantum below) ((Theory.dvd_alignUp hpos _).mul_left _)

/-- The tracks lie below the top of the band. -/
theorem Tracks.le_top {n : ℕ} (hn : n ∈ small) :
    offset n + trackOf problem threshold addressQuantum n ≤ bandBase addressQuantum start color
      (harmonicClasses problem.search small threshold addressQuantum) := by
  obtain ⟨below, trackClass, above, hsplit, -, -, -, hroom⟩ := h.place hn
  rw [hsplit, bandBase_split]
  omega

/-- The tracks of nodes in conflict are apart. -/
theorem Tracks.apart {k l : ℕ} (hk : k ∈ small) (hl : l ∈ small)
    (hconflict : NodesConflict problem k l) :
    Apart (offset k) (trackOf problem threshold addressQuantum k) (offset l)
      (trackOf problem threshold addressQuantum l) := by
  obtain ⟨below, trackClass, above, hsplit, hin, hheight, hoffset, hroom⟩ := h.place hk
  obtain ⟨below', trackClass', above', hsplit', hin', hheight', hoffset', hroom'⟩ := h.place hl
  obtain ⟨rfl, rfl⟩ | ⟨between, rfl⟩ | ⟨between, rfl⟩ :=
    Theory.split_cases (hsplit.symm.trans hsplit')
  · -- one class: the colours differ
    have hclass : trackClass ∈ harmonicClasses problem.search small threshold addressQuantum := by
      rw [hsplit]
      exact List.mem_append_right _ List.mem_cons_self
    have hne := (h.firstFit trackClass hclass).ne (fun _ _ hc => hc.symm) (mem_byBirth.mpr hin)
      (mem_byBirth.mpr hin') hconflict.ne hconflict
    rw [hheight] at hheight'
    rw [← hheight'] at hoffset' ⊢
    obtain hlt | hlt := Nat.lt_or_gt_of_ne hne
    · left
      have := Nat.mul_le_mul_right (trackOf problem threshold addressQuantum k) hlt
      rw [Nat.succ_mul] at this
      omega
    · right
      have := Nat.mul_le_mul_right (trackOf problem threshold addressQuantum k) hlt
      rw [Nat.succ_mul] at this
      omega
  · left
    rw [bandBase_split] at hoffset'
    omega
  · right
    rw [bandBase_split] at hoffset
    omega

end tracks

end classes

/-! ### The loop over the classes -/

section loop

variable {offsets : List UInt64} {start : UInt64}

/-- The classes done have their tracks, and the top is above them; the other offsets are as
before. -/
structure Layered (problem : DsaProblem) (offsets : List UInt64) (addressQuantum start : UInt64)
    (done : List (UInt64 × List ℕ)) (color : ℕ → ℕ) (band : SmallBand) : Prop where
  length : band.offsets.length = problem.search.count
  tracks : Tracks problem addressQuantum start.toNat done color (positions band.offsets)
  top : (done = [] ∧ band.top = start) ∨
    band.top.toNat = bandBase addressQuantum start.toNat color done
  frame : ∀ n, n ∉ done.flatMap Prod.snd → positions band.offsets n = positions offsets n

theorem Layered.alignUp_top (hquantum : addressQuantum ≠ 0) {done : List (UInt64 × List ℕ)}
    {band : SmallBand} (h : Layered problem offsets addressQuantum start done color band) :
    Theory.alignUp band.top.toNat addressQuantum.toNat =
      bandBase addressQuantum start.toNat color done := by
  obtain ⟨rfl, htop⟩ | htop := h.top
  · rw [htop]
    rfl
  · rw [htop]
    exact Theory.alignUp_eq_self (dvd_bandBase hquantum done)

theorem Layered.step (h : SearchOk problem) (hquantum : addressQuantum ≠ 0)
    {done : List (UInt64 × List ℕ)} {band next : SmallBand} {trackClass : UInt64 × List ℕ}
    (hlayered : Layered problem offsets addressQuantum start done color band)
    (hnodup : trackClass.2.Nodup) (hcount : ∀ n ∈ trackClass.2, n < problem.search.count)
    (hnew : ∀ other ∈ done, ∀ n ∈ other.2, n ∉ trackClass.2)
    (hnext : placeClass problem problem.search addressQuantum band trackClass = .ok next) :
    ∃ color, Layered problem offsets addressQuantum start (done ++ [trackClass]) color next := by
  unfold placeClass at hnext
  split at hnext
  · next track base htrack hbase =>
      dsimp only at hnext
      obtain ⟨state, hstate, hnext⟩ := Theory.bind_eq_ok.mp hnext
      obtain ⟨_, hheight, hnext⟩ := Theory.bind_eq_ok.mp hnext
      obtain rfl := Except.ok.inj hnext
      have hperm : (byBirth problem trackClass.2).Perm trackClass.2 := List.perm_insertionSort _ _
      have hcolored := colored_foldlM h hlayered.length (hperm.nodup_iff.mpr hnodup)
        (fun n hn => hcount n (mem_byBirth.mp hn)) hstate
      have htrackNat : track.toNat = trackHeight trackClass.1 addressQuantum := toNat_alignUp htrack
      have hbaseNat : base.toNat = bandBase addressQuantum start.toNat color done :=
        (toNat_alignUp hbase).trans (hlayered.alignUp_top hquantum)
      have htop : base.toNat + state.colorCount * track.toNat < 2 ^ 64 := by
        rw [failIf_eq_ok] at hheight
        have hle := mul_le_of_check hheight
        have hlt := base.toNat_lt
        omega
      have htopNat := toNat_add_ofNat_mul htop
      -- the classes before keep their colours, the new one gets those of the loop
      have hold : ∀ other ∈ done, ∀ n ∈ other.2,
          color n = if n ∈ trackClass.2 then state.colorOf n else color n :=
        fun other hother n hn => (if_neg (hnew other hother n hn)).symm
      have hown : ∀ n ∈ trackClass.2,
          state.colorOf n = if n ∈ trackClass.2 then state.colorOf n else color n :=
        fun n hn => (if_pos hn).symm
      have hbase' := @bandBase_congr addressQuantum start.toNat color done _ hold
      refine ⟨fun n => if n ∈ trackClass.2 then state.colorOf n else color n,
        hcolored.length, ?_, .inr ?_, fun n hn => ?_⟩
      · refine (hlayered.tracks.congr hold fun other hother n hn => ?_).concat
          (hcolored.firstFit.congr fun n hn => hown n (mem_byBirth.mp hn)) fun n hn => ?_
        · rw [hcolored.frame]
          intro hmem
          exact hnew other hother n hn (mem_byBirth.mp hmem)
        · rw [← hbase', ← hbaseNat, ← hown n hn, ← htrackNat]
          exact hcolored.placed n (mem_byBirth.mpr hn)
      · dsimp only
        rw [htopNat, bandBase_split, ← hbase', ← hbaseNat, hcolored.count,
          colorsUsed_perm _ hperm, classHeight, htrackNat, colorsUsed_congr hown]
        rfl
      · rw [List.flatMap_append, List.flatMap_singleton, List.mem_append, not_or] at hn
        rw [← hlayered.frame n hn.1]
        exact hcolored.frame n fun hmem => hn.2 (mem_byBirth.mp hmem)
  · cases hnext

theorem placeSmallBand_layered (h : SearchOk problem) (hquantum : addressQuantum ≠ 0)
    {small : List ℕ} {threshold : UInt64} {band : SmallBand}
    (hlength : offsets.length = problem.search.count) (hnodup : small.Nodup)
    (hcount : ∀ n ∈ small, n < problem.search.count)
    (hband : placeSmallBand problem problem.search small threshold addressQuantum start offsets =
      .ok band) :
    ∃ color, Layered problem offsets addressQuantum start
      (harmonicClasses problem.search small threshold addressQuantum) color band := by
  have hkeys := @nodup_harmonicClasses problem addressQuantum small threshold
  refine Theory.foldlM_induction (fun done band => ∃ color,
    Layered problem offsets addressQuantum start done color band) ?_ ?_ hband
  · refine ⟨fun _ => 0, hlength, ⟨fun _ hclass => absurd hclass List.not_mem_nil,
      fun below trackClass above hsplit => ?_⟩, .inl ⟨rfl, rfl⟩, fun _ _ => rfl⟩
    exact absurd hsplit.symm (by simp)
  · rintro done trackClass rest band next hsplit ⟨color, hlayered⟩ hnext
    have hclass : trackClass ∈ harmonicClasses problem.search small threshold addressQuantum := by
      rw [hsplit]
      exact List.mem_append_right _ List.mem_cons_self
    have hown := mem_harmonicClasses hclass
    refine hlayered.step h hquantum ?_ (fun n hn => hcount n ((hown n).mp hn).1)
      (fun other hother n hn hin => ?_) hnext
    · rw [harmonicClass_eq hclass]
      exact hnodup.filter _
    · -- the upper sizes of the classes differ
      have hmem : other ∈ harmonicClasses problem.search small threshold addressQuantum := by
        rw [hsplit]
        exact List.mem_append_left _ hother
      rw [hsplit, List.map_append, List.map_cons, List.nodup_append] at hkeys
      refine hkeys.2.2 other.1 (List.mem_map_of_mem hother) trackClass.1 List.mem_cons_self ?_
      rw [← ((mem_harmonicClasses hmem n).mp hn).2, ((hown n).mp hin).2]

/-- What the loop leaves: the small nodes on their tracks below the top of the band, the other
offsets as before. -/
structure Banded (problem : DsaProblem) (offsets : List UInt64)
    (threshold addressQuantum start : UInt64) (small : List ℕ) (band : SmallBand) : Prop where
  tracks : ∃ color, Tracks problem addressQuantum start.toNat
    (harmonicClasses problem.search small threshold addressQuantum) color (positions band.offsets)
  below : ∀ n ∈ small, positions band.offsets n + trackOf problem threshold addressQuantum n ≤
    band.top.toNat
  frame : ∀ n, n ∉ small → positions band.offsets n = positions offsets n

/-- The loop computes the tracks. -/
theorem placeSmallBand_tracks (h : SearchOk problem) (hquantum : addressQuantum ≠ 0)
    {small : List ℕ} {threshold : UInt64} {band : SmallBand}
    (hlength : offsets.length = problem.search.count) (hnodup : small.Nodup)
    (hcount : ∀ n ∈ small, n < problem.search.count)
    (hband : placeSmallBand problem problem.search small threshold addressQuantum start offsets =
      .ok band) : Banded problem offsets threshold addressQuantum start small band := by
  obtain ⟨color, hlayered⟩ := placeSmallBand_layered h hquantum hlength hnodup hcount hband
  refine ⟨⟨color, hlayered.tracks⟩, fun n hn => ?_, fun n hn => hlayered.frame n ?_⟩
  · obtain ⟨hempty, -⟩ | htop := hlayered.top
    · obtain ⟨trackClass, hclass, -⟩ := @exists_harmonicClass problem addressQuantum small
        threshold n hn
      rw [hempty] at hclass
      cases hclass
    · rw [htop]
      exact hlayered.tracks.le_top hn
  · rw [List.mem_flatMap]
    rintro ⟨trackClass, hclass, hin⟩
    exact hn ((mem_harmonicClasses hclass n).mp hin).1

section banded

variable {small : List ℕ} {threshold : UInt64} {band : SmallBand}

theorem Banded.aligned (h : Banded problem offsets threshold addressQuantum start small band)
    (hquantum : addressQuantum ≠ 0) {n : ℕ} (hn : n ∈ small) :
    addressQuantum.toNat ∣ positions band.offsets n := by
  obtain ⟨color, htracks⟩ := h.tracks
  exact htracks.dvd hquantum hn

theorem Banded.above (h : Banded problem offsets threshold addressQuantum start small band) {n : ℕ}
    (hn : n ∈ small) : start.toNat ≤ positions band.offsets n := by
  obtain ⟨color, htracks⟩ := h.tracks
  exact htracks.start_le hn

/-- On tracks that hold them the nodes end below the top, -/
theorem Banded.end_le (h : Banded problem offsets threshold addressQuantum start small band) {n : ℕ}
    (hn : n ∈ small) (hholds : TrackHolds (problem.search.nodeAt n).size threshold addressQuantum) :
    positions band.offsets n + nodeSize problem n ≤ band.top.toNat :=
  (Nat.add_le_add_left hholds _).trans (h.below n hn)

/-- and those in conflict are apart. -/
theorem Banded.apart (h : Banded problem offsets threshold addressQuantum start small band)
    {k l : ℕ} (hk : k ∈ small) (hl : l ∈ small) (hconflict : NodesConflict problem k l)
    (hholdsK : TrackHolds (problem.search.nodeAt k).size threshold addressQuantum)
    (hholdsL : TrackHolds (problem.search.nodeAt l).size threshold addressQuantum) :
    NodesApart problem (positions band.offsets) k l := by
  obtain ⟨color, htracks⟩ := h.tracks
  obtain hkl | hlk := htracks.apart hk hl hconflict
  · exact .inl ((Nat.add_le_add_left hholdsK _).trans hkl)
  · exact .inr ((Nat.add_le_add_left hholdsL _).trans hlk)

/-- Nodes that do not overhang their tracks are in nobody's way, so it is enough that those that do
are clear. -/
theorem Banded.clear_iff (h : Banded problem offsets threshold addressQuantum start small band)
    (hsizes : ∀ n ∈ small, 0 < nodeSize problem n) :
    ((∀ n ∈ small, positions band.offsets n + nodeSize problem n < 2 ^ 64) ∧
      ∀ k ∈ small, ∀ l ∈ small, NodesConflict problem k l →
        NodesApart problem (positions band.offsets) k l) ↔
      OverhangsClear problem small threshold addressQuantum (positions band.offsets) := by
  obtain ⟨color, htracks⟩ := h.tracks
  constructor
  · rintro ⟨hrange, hapart⟩ n hn -
    refine ⟨hrange n hn, fun m hm hconflict hle => ?_⟩
    have hsize := hsizes m hm
    obtain hnm | hmn := hapart n hn m hm hconflict
    · exact hnm
    · omega
  · intro hclear
    refine ⟨fun n hn => ?_, fun k hk l hl hconflict => ?_⟩
    · obtain hover | hholds := Nat.lt_or_ge (trackOf problem threshold addressQuantum n)
        (nodeSize problem n)
      · exact (hclear n hn hover).1
      · exact (h.end_le hn hholds).trans_lt band.top.toNat_lt
    · have hbelow : ∀ k ∈ small, ∀ l ∈ small, NodesConflict problem k l →
          positions band.offsets k + trackOf problem threshold addressQuantum k ≤
            positions band.offsets l →
          positions band.offsets k + nodeSize problem k ≤ positions band.offsets l := by
        intro k hk l hl hconflict hkl
        obtain hover | hholds := Nat.lt_or_ge (trackOf problem threshold addressQuantum k)
          (nodeSize problem k)
        · exact (hclear k hk hover).2 l hl hconflict (by omega)
        · omega
      obtain hkl | hlk := htracks.apart hk hl hconflict
      · exact .inl (hbelow k hk l hl hconflict hkl)
      · exact .inr (hbelow l hl k hk hconflict.symm hlk)

/-- It does not matter which layout is looked at. -/
theorem Banded.overhangsClear_iff
    (h : Banded problem offsets threshold addressQuantum start small band) :
    OverhangsClear problem small threshold addressQuantum (positions band.offsets) ↔
      ∀ color offset, Tracks problem addressQuantum start.toNat
        (harmonicClasses problem.search small threshold addressQuantum) color offset →
          OverhangsClear problem small threshold addressQuantum offset := by
  obtain ⟨color, htracks⟩ := h.tracks
  refine ⟨fun hclear color' offset' htracks' n hn hover => ?_, fun hall => hall color _ htracks⟩
  have heq : ∀ m ∈ small, positions band.offsets m = offset' m := by
    intro m hm
    obtain ⟨trackClass, hclass, hin⟩ := @exists_harmonicClass problem addressQuantum small
      threshold m hm
    exact htracks.unique htracks' trackClass hclass m hin
  obtain ⟨hrange, habove⟩ := hclear n hn hover
  rw [heq n hn] at hrange habove
  refine ⟨hrange, fun m hm hconflict hle => ?_⟩
  have hend := habove m hm hconflict
  rw [heq m hm] at hend
  exact hend hle

end banded

/-- The small band fails only when its addresses overflow. -/
theorem placeSmallBand_error {small : List ℕ} {threshold : UInt64} {failure : Failure} {none : Prop}
    (hband : placeSmallBand problem problem.search small threshold addressQuantum start offsets =
      .error failure) : failure.Sound none := by
  obtain ⟨done, trackClass, rest, band, -, -, hfail⟩ :=
    Theory.foldlM_error (fun _ _ => True) trivial (fun _ _ _ _ _ _ _ _ => trivial) hband
  unfold placeClass at hfail
  split at hfail
  · obtain hfail | ⟨state, -, hfail⟩ := Theory.bind_eq_error.mp hfail
    · obtain ⟨_, node, _, state, -, -, hstep⟩ :=
        Theory.foldlM_error (fun _ _ => True) trivial (fun _ _ _ _ _ _ _ _ => trivial) hfail
      unfold placeOnTrack at hstep
      obtain hstep | ⟨_, -, hstep⟩ := Theory.bind_eq_error.mp hstep
      · obtain ⟨-, rfl⟩ := failIf_eq_error.mp hstep
        exact Failure.sound_of_ne (by decide)
      · obtain hstep | ⟨_, -, hstep⟩ := Theory.bind_eq_error.mp hstep
        · obtain ⟨-, rfl⟩ := failIf_eq_error.mp hstep
          exact Failure.sound_of_ne (by decide)
        · cases hstep
    · obtain hfail | ⟨_, -, hfail⟩ := Theory.bind_eq_error.mp hfail
      · obtain ⟨-, rfl⟩ := failIf_eq_error.mp hfail
        exact Failure.sound_of_ne (by decide)
      · cases hfail
  · obtain rfl := Except.error.inj hfail
    exact Failure.sound_of_ne (by decide)

end loop

end ScaleGrid

end Dsa
