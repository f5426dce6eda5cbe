import DsaSolver.ArchitectureBinding
import DsaSolver.Theory.RangeUnion

/-! # The identity of an architecture

`MergeRanges` computes the one separated list of ranges with the addresses of its input, and the
names that `CanonicalArchitecture` sorts by are distinct in a valid specification.  So two valid
presentations of one architecture have the same canonical form and the same fingerprint. -/

namespace Dsa

open Theory

/-! ### Merged ranges are separated -/

section ranges

/-- The ranges ascend, and an address lies between any two. -/
def Gapped (ranges : List AddressRange) : Prop :=
  ranges.Pairwise fun first second => first.last < second.first

/-- One step keeps the gaps of the ranges merged so far, the back in front. -/
theorem mergeStep_gaps {result : List AddressRange} {range : AddressRange} (hne : NonEmpty result)
    (hgaps : result.Pairwise fun later earlier => earlier.last < later.first) :
    (mergeStep result range).Pairwise fun later earlier => earlier.last < later.first := by
  unfold mergeStep
  cases result with
  | nil => exact List.pairwise_singleton _ _
  | cons back rest =>
      obtain ⟨hback, hrest⟩ := List.pairwise_cons.mp hgaps
      dsimp only
      split_ifs with hgap
      · refine List.pairwise_cons.mpr ⟨fun earlier hearlier => ?_, hgaps⟩
        obtain rfl | hearlier := List.mem_cons.mp hearlier
        · exact hgap
        · exact (hback earlier hearlier).trans ((hne back List.mem_cons_self).trans hgap)
      · exact List.pairwise_cons.mpr ⟨hback, hrest⟩

theorem foldl_mergeStep_gaps {ranges result : List AddressRange} (hne : NonEmpty result)
    (hranges : NonEmpty ranges) (hsorted : ranges.Pairwise rangeBefore)
    (hback : ∀ range ∈ ranges, StartsBefore result range)
    (hgaps : result.Pairwise fun later earlier => earlier.last < later.first) :
    (ranges.foldl mergeStep result).Pairwise fun later earlier => earlier.last < later.first := by
  induction ranges generalizing result with
  | nil => exact hgaps
  | cons range rest ih =>
      obtain ⟨hhead, htail⟩ := List.pairwise_cons.mp hsorted
      obtain ⟨hstepNe, -, hnext⟩ := mergeStep_spec hne (hranges range List.mem_cons_self)
        (hback range List.mem_cons_self)
      refine ih hstepNe (fun other hother => hranges other (List.mem_cons_of_mem _ hother)) htail
        (fun other hother => hnext other ?_) (mergeStep_gaps hne hgaps)
      obtain h | ⟨h, -⟩ := hhead other hother
      · exact h.le
      · exact h.le

theorem gapped_mergeRanges {ranges : List AddressRange} (hne : NonEmpty ranges) :
    Gapped (mergeRanges ranges) := by
  unfold Gapped mergeRanges
  rw [List.pairwise_reverse]
  refine foldl_mergeStep_gaps (by simp [NonEmpty]) (fun range h => hne range ?_)
    (List.pairwise_insertionSort _ _) (by simp [StartsBefore]) List.Pairwise.nil
  exact (List.perm_insertionSort rangeBefore ranges).mem_iff.mp h

/-- The bounds of a range as numbers. -/
def rangeBounds (range : AddressRange) : ℕ × ℕ := (range.first.toNat, range.last.toNat)

theorem rangeBounds_injective : Function.Injective rangeBounds := by
  intro first second h
  obtain ⟨hfirst, hlast⟩ := Prod.ext_iff.mp h
  cases first
  cases second
  simp only [rangeBounds, UInt64.toNat_inj] at hfirst hlast
  rw [hfirst, hlast]

theorem separatedRanges_of_gapped {ranges : List AddressRange} (hne : NonEmpty ranges)
    (h : Gapped ranges) : SeparatedRanges (ranges.map rangeBounds) where
  nonEmpty r hr := by
    obtain ⟨range, hmem, rfl⟩ := List.mem_map.mp hr
    exact UInt64.lt_iff_toNat_lt.mp (hne range hmem)
  gaps := by
    rw [List.pairwise_map]
    exact h.imp fun hlt => UInt64.lt_iff_toNat_lt.mp hlt

theorem inRanges_map_iff {ranges : List AddressRange} {address : ℕ} :
    InRanges (ranges.map rangeBounds) address ↔ Covered ranges address := by
  simp [InRanges, Covered, rangeBounds]

/-- Ranges with the same addresses merge to the same ranges. -/
theorem mergeRanges_congr {first second : List AddressRange} (hfirst : NonEmpty first)
    (hsecond : NonEmpty second) (h : ∀ address, Covered first address ↔ Covered second address) :
    mergeRanges first = mergeRanges second := by
  obtain ⟨hne, hcovered⟩ := mergeRanges_spec hfirst
  obtain ⟨hne', hcovered'⟩ := mergeRanges_spec hsecond
  apply rangeBounds_injective.list_map
  apply (separatedRanges_of_gapped hne (gapped_mergeRanges hfirst)).unique
    (separatedRanges_of_gapped hne' (gapped_mergeRanges hsecond))
  intro address
  rw [inRanges_map_iff, inRanges_map_iff, hcovered, hcovered', h]

end ranges

/-! ### Valid specifications -/

theorem abiErrors_eq_nil_iff {seen abis : List String} : abiErrors seen abis = [] ↔
    (∀ abi ∈ abis, abi ≠ "" ∧ abi ∉ seen) ∧ abis.Nodup := by
  induction abis generalizing seen with
  | nil => simp [abiErrors]
  | cons abi rest ih =>
      rw [abiErrors, List.append_eq_nil_iff, List.append_eq_nil_iff, errorIf_eq_nil,
        errorIf_eq_nil, ih, List.nodup_cons]
      simp only [List.mem_cons, forall_eq_or_imp, not_or,
        ← Bool.not_eq_true, List.contains_iff_mem]
      constructor
      · rintro ⟨⟨hempty, hseen⟩, hrest, hnodup⟩
        exact ⟨⟨⟨by simpa using hempty, hseen⟩, fun other hother =>
          ⟨(hrest other hother).1, (hrest other hother).2.2⟩⟩,
          fun hmem => (hrest abi hmem).2.1 rfl, hnodup⟩
      · rintro ⟨⟨⟨hempty, hseen⟩, hrest⟩, hnot, hnodup⟩
        refine ⟨⟨by simpa using hempty, hseen⟩, fun other hother => ?_, hnodup⟩
        refine ⟨(hrest other hother).1, fun heq => hnot (heq ▸ hother), (hrest other hother).2⟩

/-- The checks of one memory space. -/
def SpaceOk (space : ArchitectureMemorySpace) : Prop := memorySpaceErrors [] [space] = []

theorem memorySpaceErrors_cons {names : List String} {space : ArchitectureMemorySpace}
    {rest : List ArchitectureMemorySpace} : memorySpaceErrors names (space :: rest) = [] ↔
      SpaceOk space ∧ space.logicalSpace ∉ names ∧
        memorySpaceErrors (space.logicalSpace :: names) rest = [] := by
  unfold SpaceOk
  simp only [memorySpaceErrors, List.append_eq_nil_iff, errorIf_eq_nil, List.contains_nil,
    ← Bool.not_eq_true, List.contains_iff_mem, and_true]
  tauto

theorem memorySpaceErrors_eq_nil_iff {names : List String} {spaces : List ArchitectureMemorySpace} :
    memorySpaceErrors names spaces = [] ↔
      (∀ space ∈ spaces, SpaceOk space ∧ space.logicalSpace ∉ names) ∧
        (spaces.map ArchitectureMemorySpace.logicalSpace).Nodup := by
  induction spaces generalizing names with
  | nil => simp [memorySpaceErrors]
  | cons space rest ih =>
      rw [memorySpaceErrors_cons, ih, List.map_cons, List.nodup_cons]
      simp only [List.mem_cons, forall_eq_or_imp, not_or, List.mem_map, not_exists, not_and]
      constructor
      · rintro ⟨hok, hname, hrest, hnodup⟩
        exact ⟨⟨⟨hok, hname⟩, fun other hother =>
          ⟨(hrest other hother).1, (hrest other hother).2.2⟩⟩,
          fun other hother => (hrest other hother).2.1, hnodup⟩
      · rintro ⟨⟨⟨hok, hname⟩, hrest⟩, hnot, hnodup⟩
        exact ⟨hok, hname, fun other hother => ⟨(hrest other hother).1, hnot other hother,
          (hrest other hother).2⟩, hnodup⟩

/-- What a valid specification satisfies. -/
structure ArchitectureOk (architecture : ArchitectureSpec) : Prop where
  schemaVersion : architecture.schemaVersion = kArchitectureSpecSchemaVersion
  architectureId : architecture.architectureId ≠ ""
  abisNe : architecture.supportedLoweringAbis ≠ []
  abis : ∀ abi ∈ architecture.supportedLoweringAbis, abi ≠ ""
  abisNodup : architecture.supportedLoweringAbis.Nodup
  spacesNe : architecture.memorySpaces ≠ []
  spaces : ∀ space ∈ architecture.memorySpaces, SpaceOk space
  spacesNodup : (architecture.memorySpaces.map ArchitectureMemorySpace.logicalSpace).Nodup

theorem validateArchitectureSpec_eq_nil_iff {architecture : ArchitectureSpec} :
    validateArchitectureSpec architecture = [] ↔ ArchitectureOk architecture := by
  unfold validateArchitectureSpec
  simp only [List.append_eq_nil_iff, errorIf_eq_nil, abiErrors_eq_nil_iff,
    memorySpaceErrors_eq_nil_iff, List.not_mem_nil, not_false_eq_true, and_true, bne_eq_false_iff_eq,
    beq_eq_false_iff_ne, List.isEmpty_eq_false_iff]
  constructor
  · rintro ⟨⟨⟨⟨⟨h1, h2⟩, h3⟩, h4, h5⟩, h6⟩, h7, h8⟩
    exact ⟨h1, by simpa using h2, h3, h4, h5, h6, h7, h8⟩
  · rintro ⟨h1, h2, h3, h4, h5, h6, h7, h8⟩
    exact ⟨⟨⟨⟨⟨h1, by simpa using h2⟩, h3⟩, h4, h5⟩, h6⟩, h7, h8⟩

/-! ### Canonical spaces -/

/-- A space with its reserved ranges merged. -/
def canonicalSpace (space : ArchitectureMemorySpace) : ArchitectureMemorySpace :=
  { space with reservedRanges := mergeRanges space.reservedRanges }

theorem SpaceOk.nonEmpty {space : ArchitectureMemorySpace} (h : SpaceOk space) :
    NonEmpty space.reservedRanges :=
  (spaces_of_memorySpaceErrors h space List.mem_cons_self).2

/-- The merged ranges end where a range merged ends. -/
theorem SpaceOk.canonicalSpace {space : ArchitectureMemorySpace} (h : SpaceOk space) :
    SpaceOk (canonicalSpace space) := by
  have hne := h.nonEmpty
  obtain ⟨hmergedNe, hcovered⟩ := mergeRanges_spec hne
  unfold SpaceOk at h ⊢
  simp only [memorySpaceErrors, Dsa.canonicalSpace, List.append_eq_nil_iff, errorIf_eq_nil,
    List.flatMap_eq_nil_iff, spaceRangeErrors, Bool.or_eq_false_iff, decide_eq_false_iff_not,
    not_le, not_lt, ge_iff_le, gt_iff_lt] at h ⊢
  obtain ⟨⟨⟨hlimits, hranges⟩, hbank⟩, -⟩ := h
  refine ⟨⟨⟨hlimits, fun range hmem => ⟨hmergedNe range hmem, ?_⟩⟩, hbank⟩, trivial⟩
  have hlt := UInt64.lt_iff_toNat_lt.mp (hmergedNe range hmem)
  obtain ⟨original, horiginal, -, hlast⟩ := (hcovered (range.last.toNat - 1)).mp
    ⟨range, hmem, by omega, by omega⟩
  have hwithin := UInt64.le_iff_toNat_le.mp (hranges original horiginal).2
  apply UInt64.le_iff_toNat_le.mpr
  omega

/-- The order of the canonical spaces. -/
def nameBefore (first second : ArchitectureMemorySpace) : Prop :=
  first.logicalSpace ≤ second.logicalSpace

instance nameBefore.instDecidable (first second : ArchitectureMemorySpace) :
    Decidable (nameBefore first second) :=
  inferInstanceAs (Decidable (_ ≤ _))

instance nameBefore.instTotal : Std.Total nameBefore where
  total first second := String.le_total first.logicalSpace second.logicalSpace

instance nameBefore.instTrans : IsTrans ArchitectureMemorySpace nameBefore where
  trans _ _ _ := String.le_trans

theorem canonicalArchitecture_memorySpaces (architecture : ArchitectureSpec) :
    (canonicalArchitecture architecture).memorySpaces =
      (architecture.memorySpaces.map canonicalSpace).insertionSort nameBefore :=
  List.map_insertionSort nameBefore nameBefore canonicalSpace architecture.memorySpaces
    fun _ _ _ _ => Iff.rfl

/-- Spaces with distinct names have one order. -/
theorem insertionSort_spaces {first second : List ArchitectureMemorySpace}
    (hnodup : (first.map ArchitectureMemorySpace.logicalSpace).Nodup)
    (h : second.Perm first) :
    second.insertionSort nameBefore = first.insertionSort nameBefore := by
  have hsorted := List.perm_insertionSort nameBefore first
  have hperm := ((List.perm_insertionSort nameBefore second).trans h).trans hsorted.symm
  refine hperm.eq_of_pairwise (fun a b ha hb hab hba => ?_) (List.pairwise_insertionSort _ second)
    (List.pairwise_insertionSort _ first)
  have ha' := hsorted.mem_iff.mp (hperm.mem_iff.mp ha)
  have hb' := hsorted.mem_iff.mp hb
  exact List.inj_on_of_nodup_map hnodup ha' hb' (String.le_antisymm hab hba)

theorem insertionSort_abis {first second : List String} (h : second.Perm first) :
    second.insertionSort (· ≤ ·) = first.insertionSort (· ≤ ·) := by
  have hperm := ((List.perm_insertionSort (· ≤ ·) second).trans h).trans
    (List.perm_insertionSort (· ≤ ·) first).symm
  exact hperm.eq_of_pairwise (fun _ _ _ _ => String.le_antisymm) (List.pairwise_insertionSort _ second)
    (List.pairwise_insertionSort _ first)

/-! ### Presentations -/

/-- Spaces that differ in how their reserved bytes are split into ranges. -/
structure SameSpace (first second : ArchitectureMemorySpace) : Prop where
  shape : { second with reservedRanges := first.reservedRanges } = first
  covered : ∀ address, Covered second.reservedRanges address ↔ Covered first.reservedRanges address

/-- Specifications that differ in the order of the ABIs and spaces and in how the reserved bytes
of a space are split. -/
structure SamePresentation (first second : ArchitectureSpec) : Prop where
  shape : { second with
    supportedLoweringAbis := first.supportedLoweringAbis
    memorySpaces := first.memorySpaces } = first
  abis : second.supportedLoweringAbis.Perm first.supportedLoweringAbis
  spaces : ∃ spaces, second.memorySpaces.Perm spaces ∧
    List.Forall₂ SameSpace first.memorySpaces spaces

theorem SameSpace.canonicalSpace_eq {first second : ArchitectureMemorySpace}
    (h : SameSpace first second) (hfirst : SpaceOk first) (hsecond : NonEmpty second.reservedRanges) :
    canonicalSpace second = canonicalSpace first := by
  have hmerged := mergeRanges_congr hsecond hfirst.nonEmpty h.covered
  unfold canonicalSpace
  rw [hmerged, ← h.shape]

theorem map_canonicalSpace_eq {first second : List ArchitectureMemorySpace}
    (h : List.Forall₂ SameSpace first second) (hfirst : ∀ space ∈ first, SpaceOk space)
    (hsecond : ∀ space ∈ second, NonEmpty space.reservedRanges) :
    second.map canonicalSpace = first.map canonicalSpace := by
  induction h with
  | nil => rfl
  | cons hhead _ ih =>
      rw [List.forall_mem_cons] at hfirst hsecond
      rw [List.map_cons, List.map_cons, hhead.canonicalSpace_eq hfirst.1 hsecond.1,
        ih hfirst.2 hsecond.2]

theorem canonicalArchitecture_eq {first second : ArchitectureSpec} (hfirst : ArchitectureOk first)
    (hsecond : ArchitectureOk second) (h : SamePresentation first second) :
    canonicalArchitecture second = canonicalArchitecture first := by
  obtain ⟨spaces, hperm, hsame⟩ := h.spaces
  have hmap := map_canonicalSpace_eq hsame hfirst.spaces fun space hmem =>
    (hsecond.spaces space (hperm.mem_iff.mpr hmem)).nonEmpty
  have hspaces : (canonicalArchitecture second).memorySpaces =
      (canonicalArchitecture first).memorySpaces := by
    rw [canonicalArchitecture_memorySpaces, canonicalArchitecture_memorySpaces]
    apply insertionSort_spaces
    · rw [List.map_map]
      exact hfirst.spacesNodup
    · rw [← hmap]
      exact hperm.map canonicalSpace
  have habis : (canonicalArchitecture second).supportedLoweringAbis =
      (canonicalArchitecture first).supportedLoweringAbis := insertionSort_abis h.abis
  have hshape := h.shape
  obtain ⟨version, id, abis, metadata, memory⟩ := second
  obtain ⟨version', id', abis', metadata', memory'⟩ := first
  simp only [ArchitectureSpec.mk.injEq] at hshape
  obtain ⟨rfl, rfl, -, rfl, -⟩ := hshape
  unfold canonicalArchitecture at hspaces habis ⊢
  simp only [ArchitectureSpec.mk.injEq]
  exact ⟨trivial, trivial, habis, trivial, hspaces⟩

theorem samePresentation_canonical {architecture : ArchitectureSpec}
    (h : ArchitectureOk architecture) :
    SamePresentation architecture (canonicalArchitecture architecture) where
  shape := rfl
  abis := List.perm_insertionSort _ _
  spaces := by
    refine ⟨architecture.memorySpaces.map canonicalSpace, ?_, ?_⟩
    · rw [canonicalArchitecture_memorySpaces]
      exact List.perm_insertionSort _ _
    · rw [List.forall₂_map_right_iff, List.forall₂_same]
      intro space hmem
      exact ⟨rfl, (mergeRanges_spec (h.spaces space hmem).nonEmpty).2⟩

theorem ArchitectureOk.canonical {architecture : ArchitectureSpec}
    (h : ArchitectureOk architecture) : ArchitectureOk (canonicalArchitecture architecture) := by
  have habis : (canonicalArchitecture architecture).supportedLoweringAbis.Perm
      architecture.supportedLoweringAbis := List.perm_insertionSort _ _
  have hspaces : (canonicalArchitecture architecture).memorySpaces.Perm
      (architecture.memorySpaces.map canonicalSpace) := by
    rw [canonicalArchitecture_memorySpaces]
    exact List.perm_insertionSort _ _
  refine ⟨h.schemaVersion, h.architectureId, ?_, fun abi habi => ?_, ?_, ?_, fun space hspace => ?_,
    ?_⟩
  · exact fun hnil => h.abisNe (by rw [hnil] at habis; exact habis.symm.eq_nil)
  · exact h.abis abi (habis.mem_iff.mp habi)
  · exact habis.nodup_iff.mpr h.abisNodup
  · intro hnil
    rw [hnil] at hspaces
    exact h.spacesNe (List.map_eq_nil_iff.mp hspaces.symm.eq_nil)
  · obtain ⟨original, horiginal, rfl⟩ := List.mem_map.mp (hspaces.mem_iff.mp hspace)
    exact (h.spaces original horiginal).canonicalSpace
  · rw [(hspaces.map _).nodup_iff, List.map_map]
    exact h.spacesNodup

/-- **The identity of an architecture depends on its meaning only.**  Merging computes the
separated ranges of the same addresses; presentations of one architecture have one canonical form
and one fingerprint; the canonical form is its own. -/
theorem architecture_identity :
    (∀ ranges, NonEmpty ranges →
      (mergeRanges ranges).Pairwise (fun first second => first.first < second.first) ∧
        (mergeRanges ranges).Pairwise (fun first second => first.last < second.first) ∧
          ∀ address, Covered (mergeRanges ranges) address ↔ Covered ranges address) ∧
    (∀ first second, validateArchitectureSpec first = [] → validateArchitectureSpec second = [] →
      SamePresentation first second →
        canonicalArchitecture second = canonicalArchitecture first ∧
          ∀ lib, ∃ fingerprint, fingerprintArchitectureSpec lib first = .ok fingerprint ∧
            fingerprintArchitectureSpec lib second = .ok fingerprint) ∧
    ∀ architecture, validateArchitectureSpec architecture = [] →
      canonicalArchitecture (canonicalArchitecture architecture) =
        canonicalArchitecture architecture := by
  refine ⟨fun ranges hne => ?_, fun first second hfirst hsecond hsame => ?_,
    fun architecture hvalid => ?_⟩
  · obtain ⟨hmergedNe, hcovered⟩ := mergeRanges_spec hne
    have hgaps := gapped_mergeRanges hne
    refine ⟨?_, hgaps, hcovered⟩
    refine List.Pairwise.imp_of_mem (fun ha _ hlt => ?_) hgaps
    exact (hmergedNe _ ha).trans hlt
  · rw [validateArchitectureSpec_eq_nil_iff] at hfirst hsecond
    have hcanonical := canonicalArchitecture_eq hfirst hsecond hsame
    refine ⟨hcanonical, fun lib => ?_⟩
    have hserialized : ∃ root,
        serializeArchitecture (canonicalArchitecture first) = .ok root := by
      unfold serializeArchitecture
      rw [validateArchitectureSpec_eq_nil_iff.mpr hfirst.canonical]
      exact ⟨_, rfl⟩
    obtain ⟨root, hroot⟩ := hserialized
    unfold fingerprintArchitectureSpec
    rw [hcanonical, hroot]
    exact ⟨_, rfl, rfl⟩
  · rw [validateArchitectureSpec_eq_nil_iff] at hvalid
    exact canonicalArchitecture_eq hvalid hvalid.canonical (samePresentation_canonical hvalid)

/-- Two memory spaces and two ABIs, the reserved bytes of one space split in two ranges. -/
def splitPresentation : ArchitectureSpec where
  architectureId := "dual"
  supportedLoweringAbis := ["v2", "v1"]
  memorySpaces :=
    [{ logicalSpace := "L1", usableCapacity := 64, reservedRanges := [⟨4, 8⟩, ⟨0, 4⟩] },
      { logicalSpace := "DDR", usableCapacity := 256, physicalCapacity := some 512 }]

/-- The same with everything in the other order and the ranges joined. -/
def joinedPresentation : ArchitectureSpec where
  architectureId := "dual"
  supportedLoweringAbis := ["v1", "v2"]
  memorySpaces :=
    [{ logicalSpace := "DDR", usableCapacity := 256, physicalCapacity := some 512 },
      { logicalSpace := "L1", usableCapacity := 64, reservedRanges := [⟨0, 8⟩] }]

theorem samePresentation_split : SamePresentation splitPresentation joinedPresentation where
  shape := rfl
  abis := by decide
  spaces := by
    refine ⟨joinedPresentation.memorySpaces.reverse, (List.reverse_perm _).symm, ?_⟩
    refine .cons ⟨rfl, fun address => ?_⟩ (.cons ⟨rfl, fun _ => Iff.rfl⟩ .nil)
    have h0 : (0 : UInt64).toNat = 0 := rfl
    have h4 : (4 : UInt64).toNat = 4 := rfl
    have h8 : (8 : UInt64).toNat = 8 := rfl
    simp only [Covered, List.mem_cons, List.not_mem_nil, or_false, exists_eq_or_imp,
      exists_eq_left, h0, h4, h8]
    omega

/-- A library that prints values. -/
def dumpOnly : JsonText where
  dump value := value.dump 0
  parse _ := .error "parse error"

theorem architecture_identity_splitRanges :
    mergeRanges [⟨4, 8⟩, ⟨0, 4⟩] = [⟨0, 8⟩] ∧
      (∀ address, Covered [⟨0, 8⟩] address ↔ Covered [⟨4, 8⟩, ⟨0, 4⟩] address) ∧
      canonicalArchitecture joinedPresentation = canonicalArchitecture splitPresentation ∧
      (∃ fingerprint, fingerprintArchitectureSpec dumpOnly splitPresentation = .ok fingerprint ∧
        fingerprintArchitectureSpec dumpOnly joinedPresentation = .ok fingerprint) ∧
      canonicalArchitecture (canonicalArchitecture splitPresentation) =
        canonicalArchitecture splitPresentation := by
  obtain ⟨hmerge, hsame, hidempotent⟩ := architecture_identity
  have hmerged : mergeRanges [⟨4, 8⟩, ⟨0, 4⟩] = [⟨0, 8⟩] := by decide +kernel
  have hsplit : validateArchitectureSpec splitPresentation = [] := by decide +kernel
  have hcovered := (hmerge [⟨4, 8⟩, ⟨0, 4⟩] (by unfold NonEmpty; decide)).2.2
  rw [hmerged] at hcovered
  obtain ⟨hcanonical, hfingerprint⟩ :=
    hsame _ _ hsplit (by decide +kernel) samePresentation_split
  exact ⟨hmerged, hcovered, hcanonical, hfingerprint dumpOnly, hidempotent _ hsplit⟩

end Dsa
