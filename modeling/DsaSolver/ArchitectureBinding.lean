import DsaSolver.Architecture
import DsaSolver.JsonRoundTrip
import DsaSolver.Pairs
import Mathlib.Data.List.Sort

/-! # Architecture binding

`BindArchitecture` keeps the shape of the buffers, replaces every alignment by a common multiple
and every pool by one with the resources of its memory space; the merged reserved ranges cover
the addresses of the ranges merged.  So a placement is valid for the bound problem exactly when
it is valid for the program and fits the memory spaces. -/

namespace Dsa

open Theory

/-! ### Merged ranges -/

section ranges

/-- One of the ranges contains the address. -/
def Covered (ranges : List AddressRange) (address : ℕ) : Prop :=
  ∃ range ∈ ranges, range.first.toNat ≤ address ∧ address < range.last.toNat

/-- The ranges are not empty. -/
def NonEmpty (ranges : List AddressRange) : Prop := ∀ range ∈ ranges, range.first < range.last

/-- `[offset, offset + size)` avoids the ranges. -/
def Avoids (ranges : List AddressRange) (offset size : ℕ) : Prop :=
  ∀ range ∈ ranges, offset + size ≤ range.first.toNat ∨ range.last.toNat ≤ offset

theorem avoids_iff {ranges : List AddressRange} (hne : NonEmpty ranges) {offset size : ℕ}
    (hsize : size ≠ 0) :
    Avoids ranges offset size ↔
      ∀ address, offset ≤ address → address < offset + size → ¬Covered ranges address := by
  constructor
  · rintro h address hlow hhigh ⟨range, hmem, hfirst, hlast⟩
    have := h range hmem
    omega
  · intro h range hmem
    have hrange := UInt64.lt_iff_toNat_lt.mp (hne range hmem)
    by_contra hcon
    -- the larger of the two starts lies in both
    exact h (max range.first.toNat offset) (by omega) (by omega)
      ⟨range, hmem, by omega, by omega⟩

theorem covered_cons (range : AddressRange) (ranges : List AddressRange) (address : ℕ) :
    Covered (range :: ranges) address ↔
      (range.first.toNat ≤ address ∧ address < range.last.toNat) ∨ Covered ranges address := by
  simp [Covered]

/-- The back of the merged ranges starts before the range. -/
def StartsBefore (result : List AddressRange) (range : AddressRange) : Prop :=
  ∀ back ∈ result.head?, back.first ≤ range.first

/-- What one step of the merge does to the ranges, when the back starts before the range. -/
theorem mergeStep_spec {result : List AddressRange} {range : AddressRange}
    (hne : NonEmpty result) (hrange : range.first < range.last)
    (hback : StartsBefore result range) :
    NonEmpty (mergeStep result range) ∧
      (∀ address, Covered (mergeStep result range) address ↔
        Covered result address ∨
          (range.first.toNat ≤ address ∧ address < range.last.toNat)) ∧
      ∀ later, range.first ≤ later.first → StartsBefore (mergeStep result range) later := by
  unfold mergeStep
  cases result with
  | nil =>
      refine ⟨by simpa [NonEmpty] using hrange, fun address => ?_, ?_⟩
      · simp [Covered]
      · simp [StartsBefore]
  | cons back rest =>
      have hfirst : back.first ≤ range.first := hback back (by simp)
      have hbackNe : back.first < back.last := hne back List.mem_cons_self
      rw [UInt64.lt_iff_toNat_lt] at hrange hbackNe
      rw [UInt64.le_iff_toNat_le] at hfirst
      dsimp only
      split_ifs with hgap
      · refine ⟨?_, fun address => ?_, ?_⟩
        · intro other hother
          obtain rfl | hother := List.mem_cons.mp hother
          · exact UInt64.lt_iff_toNat_lt.mpr hrange
          · exact hne other hother
        · rw [covered_cons, or_comm]
        · intro later hlater
          simpa [StartsBefore] using hlater
      · rw [UInt64.lt_iff_toNat_lt] at hgap
        have hmax := toNat_max back.last range.last
        refine ⟨?_, fun address => ?_, ?_⟩
        · intro other hother
          obtain rfl | hother := List.mem_cons.mp hother
          · rw [UInt64.lt_iff_toNat_lt]
            dsimp only
            omega
          · exact hne other (List.mem_cons_of_mem _ hother)
        · rw [covered_cons, covered_cons]
          dsimp only
          rw [hmax]
          -- the two ranges touch, so together they are one range
          constructor
          · rintro (h | h)
            · omega
            · exact .inl (.inr h)
          · rintro ((h | h) | h)
            · exact .inl (by omega)
            · exact .inr h
            · exact .inl (by omega)
        · intro later hlater
          rw [UInt64.le_iff_toNat_le] at hlater
          simp only [StartsBefore, List.head?_cons, Option.mem_some_iff, forall_eq',
            UInt64.le_iff_toNat_le]
          omega

theorem foldl_mergeStep_spec {ranges result : List AddressRange} (hne : NonEmpty result)
    (hranges : NonEmpty ranges) (hsorted : ranges.Pairwise rangeBefore)
    (hback : ∀ range ∈ ranges, StartsBefore result range) :
    NonEmpty (ranges.foldl mergeStep result) ∧
      ∀ address, Covered (ranges.foldl mergeStep result) address ↔
        Covered result address ∨ Covered ranges address := by
  induction ranges generalizing result with
  | nil => exact ⟨hne, fun address => by simp [Covered]⟩
  | cons range rest ih =>
      obtain ⟨hhead, htail⟩ := List.pairwise_cons.mp hsorted
      obtain ⟨hstepNe, hstep, hnext⟩ := mergeStep_spec hne (hranges range List.mem_cons_self)
        (hback range List.mem_cons_self)
      obtain ⟨hfoldNe, hfold⟩ := ih hstepNe
        (fun other hother => hranges other (List.mem_cons_of_mem _ hother)) htail
        (fun other hother => hnext other (by
          obtain h | ⟨h, -⟩ := hhead other hother
          · exact h.le
          · exact h.le))
      refine ⟨hfoldNe, fun address => ?_⟩
      rw [List.foldl_cons, hfold, hstep, covered_cons, or_assoc]

instance : Std.Total rangeBefore where
  total first second := by
    unfold rangeBefore
    simp only [UInt64.lt_iff_toNat_lt, UInt64.le_iff_toNat_le, ← UInt64.toNat_inj]
    omega

instance : IsTrans AddressRange rangeBefore where
  trans first second third := by
    unfold rangeBefore
    simp only [UInt64.lt_iff_toNat_lt, UInt64.le_iff_toNat_le, ← UInt64.toNat_inj]
    omega

theorem mergeRanges_spec {ranges : List AddressRange} (hne : NonEmpty ranges) :
    NonEmpty (mergeRanges ranges) ∧
      ∀ address, Covered (mergeRanges ranges) address ↔ Covered ranges address := by
  have hmem : ∀ range, range ∈ ranges.insertionSort rangeBefore ↔ range ∈ ranges :=
    fun range => (List.perm_insertionSort rangeBefore ranges).mem_iff
  have hnil : NonEmpty [] := by simp [NonEmpty]
  have hsortedNe : NonEmpty (ranges.insertionSort rangeBefore) :=
    fun range h => hne range ((hmem range).mp h)
  obtain ⟨hmergedNe, hcovered⟩ := foldl_mergeStep_spec hnil hsortedNe
    (List.pairwise_insertionSort _ _) (by simp [StartsBefore])
  constructor
  · intro range hrange
    exact hmergedNe range (List.mem_reverse.mp hrange)
  · intro address
    have := hcovered address
    simp only [Covered, mergeRanges, List.mem_reverse, hmem] at this ⊢
    simpa using this

/-- The merged ranges are avoided exactly when the ranges merged are. -/
theorem avoids_mergeRanges {ranges : List AddressRange} (hne : NonEmpty ranges) {offset size : ℕ}
    (hsize : size ≠ 0) :
    Avoids (mergeRanges ranges) offset size ↔ Avoids ranges offset size := by
  obtain ⟨hmergedNe, hcovered⟩ := mergeRanges_spec hne
  rw [avoids_iff hmergedNe hsize, avoids_iff hne hsize]
  simp only [hcovered]

end ranges

/-! ### Alignments -/

theorem leastCommonMultipleOrThrow_dvd {first second multiple : UInt64} (h1 : first ≠ 0)
    (h2 : second ≠ 0) (h : leastCommonMultipleOrThrow first second = .ok multiple) :
    multiple ≠ 0 ∧ ∀ x : ℕ, multiple.toNat ∣ x ↔ first.toNat ∣ x ∧ second.toNat ∣ x := by
  unfold leastCommonMultipleOrThrow at h
  cases hlcm : leastCommonMultiple first second with
  | none => simp [hlcm] at h
  | some result =>
      rw [hlcm] at h
      obtain rfl := Except.ok.inj h
      have heq := leastCommonMultiple_eq_some h1 h2 hlcm
      refine ⟨fun h0 => ?_, fun x => by rw [heq, Nat.lcm_dvd_iff]⟩
      rw [h0] at heq
      obtain h | h := Nat.lcm_eq_zero_iff.mp heq.symm
      · exact toNat_ne_zero h1 h
      · exact toNat_ne_zero h2 h

/-- The buffer with an alignment whose multiples are those of its own alignment that satisfy the
extra condition. -/
structure Realigned (extra : Buffer → ℕ → Prop) (buffer aligned : Buffer) : Prop where
  shape : ∃ alignment, aligned = { buffer with alignment }
  pos : aligned.alignment ≠ 0
  dvd : ∀ x : ℕ, aligned.alignment.toNat ∣ x ↔ buffer.alignment.toNat ∣ x ∧ extra buffer x

theorem alignBuffer_spec {pool : PoolId} {alignment : UInt64} (hpos : alignment ≠ 0)
    {buffer aligned : Buffer} (hbuffer : buffer.alignment ≠ 0)
    (h : alignBuffer pool alignment buffer = .ok aligned) :
    Realigned (fun buffer x => pool ∈ buffer.allowedPools → alignment.toNat ∣ x) buffer aligned := by
  unfold alignBuffer at h
  split_ifs at h with hallowed
  · rw [bind_eq_ok] at h
    obtain ⟨multiple, hmultiple, h⟩ := h
    obtain rfl := Except.ok.inj h
    obtain ⟨hne, hdvd⟩ := leastCommonMultipleOrThrow_dvd hbuffer hpos hmultiple
    have hmem : pool ∈ buffer.allowedPools := by simpa [poolAllowed] using hallowed
    exact ⟨⟨multiple, rfl⟩, hne, fun x => by simp [hdvd, hmem]⟩
  · obtain rfl := Except.ok.inj h
    have hmem : pool ∉ buffer.allowedPools := by simpa [poolAllowed] using hallowed
    exact ⟨⟨buffer.alignment, rfl⟩, hbuffer, fun x => by simp [hmem]⟩

theorem alignBuffers_spec {pool : PoolId} {alignment : UInt64} (hpos : alignment ≠ 0)
    {buffers aligned : List Buffer} (halign : ∀ buffer ∈ buffers, buffer.alignment ≠ 0)
    (h : alignBuffers pool alignment buffers = .ok aligned) :
    List.Forall₂ (Realigned fun buffer x => pool ∈ buffer.allowedPools → alignment.toNat ∣ x)
      buffers aligned := by
  induction buffers generalizing aligned with
  | nil =>
      obtain rfl := Except.ok.inj h
      exact .nil
  | cons buffer rest ih =>
      rw [List.forall_mem_cons] at halign
      simp only [alignBuffers, bind_eq_ok] at h
      obtain ⟨first, hfirst, others, hothers, h⟩ := h
      obtain rfl := Except.ok.inj h
      exact .cons (alignBuffer_spec hpos halign.1 hfirst) (ih halign.2 hothers)

theorem forall₂_trans {α β γ : Type} {R : α → β → Prop} {S : β → γ → Prop} {T : α → γ → Prop}
    (htrans : ∀ a b c, R a b → S b c → T a c) {first : List α} {second : List β} {third : List γ}
    (h : List.Forall₂ R first second) (h' : List.Forall₂ S second third) :
    List.Forall₂ T first third := by
  induction h generalizing third with
  | nil =>
      cases h'
      exact .nil
  | cons hab hrest ih =>
      cases h' with
      | cons hbc hrest' => exact .cons (htrans _ _ _ hab hbc) (ih hrest')

theorem forall₂_exists_left {α β : Type} {R : α → β → Prop} {first : List α} {second : List β}
    (h : List.Forall₂ R first second) : ∀ b ∈ second, ∃ a ∈ first, R a b := by
  induction h with
  | nil => simp
  | cons hab hrest ih =>
      rw [List.forall_mem_cons]
      exact ⟨⟨_, List.mem_cons_self, hab⟩, fun b hb => by
        obtain ⟨a, ha, hr⟩ := ih b hb
        exact ⟨a, List.mem_cons_of_mem _ ha, hr⟩⟩

theorem forall₂_exists_right {α β : Type} {R : α → β → Prop} {first : List α} {second : List β}
    (h : List.Forall₂ R first second) : ∀ a ∈ first, ∃ b ∈ second, R a b :=
  forall₂_exists_left (R := fun b a => R a b) h.flip

/-- The multiples that the memory spaces of the allowed pools ask for. -/
def SpacesAligned (architecture : ArchitectureSpec) (pools : List Pool) (buffer : Buffer) (x : ℕ) :
    Prop :=
  ∀ pool ∈ pools, pool.id ∈ buffer.allowedPools → ∀ space,
    architecture.findMemorySpace pool.name = some space → space.minimumAlignment.toNat ∣ x

/-- Alignments are replaced pool by pool; the pools get the resources of their spaces. -/
theorem bindPools_spec {architecture : ArchitectureSpec}
    (hspaces : ∀ space ∈ architecture.memorySpaces, space.minimumAlignment ≠ 0)
    {pools bound : List Pool} {buffers aligned : List Buffer}
    (halign : ∀ buffer ∈ buffers, buffer.alignment ≠ 0)
    (h : bindPools architecture pools buffers = .ok (bound, aligned)) :
    List.Forall₂ (fun pool boundPool => ∃ space,
        architecture.findMemorySpace pool.name = some space ∧ boundPool = bindPool pool space)
      pools bound ∧
    List.Forall₂ (Realigned (SpacesAligned architecture pools)) buffers aligned := by
  induction pools generalizing buffers bound aligned with
  | nil =>
      cases Except.ok.inj h
      refine ⟨.nil, ?_⟩
      rw [List.forall₂_same]
      exact fun buffer hbuffer => ⟨⟨buffer.alignment, rfl⟩, halign buffer hbuffer,
        fun x => by simp [SpacesAligned]⟩
  | cons pool rest ih =>
      unfold bindPools at h
      cases hspace : architecture.findMemorySpace pool.name with
      | none => simp [hspace] at h
      | some space =>
          simp only [hspace, bind_eq_ok] at h
          obtain ⟨first, hfirst, ⟨restBound, restAligned⟩, hrest, h⟩ := h
          cases Except.ok.inj h
          have hstep := alignBuffers_spec (hspaces space (List.mem_of_find?_eq_some hspace)) halign
            hfirst
          have hfirstPos : ∀ buffer ∈ first, buffer.alignment ≠ 0 := by
            intro buffer hbuffer
            obtain ⟨original, -, horiginal⟩ := forall₂_exists_left hstep buffer hbuffer
            exact horiginal.pos
          obtain ⟨hpools, hbuffers⟩ := ih hfirstPos hrest
          refine ⟨.cons ⟨space, hspace, rfl⟩ hpools, forall₂_trans ?_ hstep hbuffers⟩
          intro buffer middle aligned hmiddle haligned
          obtain ⟨alignment, rfl⟩ := hmiddle.shape
          obtain ⟨last, rfl⟩ := haligned.shape
          refine ⟨⟨last, rfl⟩, haligned.pos, fun x => ?_⟩
          rw [haligned.dvd, hmiddle.dvd]
          simp only [SpacesAligned, List.forall_mem_cons, hspace, Option.some.injEq, forall_eq',
            and_assoc]

/-! ### The shape of the buffers -/

/-- What the checks of pairs read of a buffer. -/
def Buffer.shape (buffer : Buffer) : BufferId × UInt64 × List Interval :=
  (buffer.id, buffer.size, buffer.liveIntervals)

/-- Problems with the same buffers up to alignment and pools, and the same constraints. -/
structure SameShape (first second : DsaProblem) : Prop where
  shapes : second.buffers.map Buffer.shape = first.buffers.map Buffer.shape
  colocations : second.colocations = first.colocations
  separations : second.separations = first.separations
  temporalExclusions : second.temporalExclusions = first.temporalExclusions
  pinnedAllocations : second.pinnedAllocations = first.pinnedAllocations

namespace SameShape

variable {first second : DsaProblem} (h : SameShape first second)

include h

theorem length : second.buffers.length = first.buffers.length := by
  simpa using congrArg List.length h.shapes

theorem bufferAt (i : ℕ) : (second.bufferAt i).shape = (first.bufferAt i).shape := by
  have hmap : ∀ problem : DsaProblem, (problem.bufferAt i).shape =
      (problem.buffers.map Buffer.shape).getD i ({} : Buffer).shape := by
    intro problem
    rw [DsaProblem.bufferAt, List.getD_map]
  rw [hmap, hmap, h.shapes]

theorem id (i : ℕ) : (second.bufferAt i).id = (first.bufferAt i).id :=
  congrArg Prod.fst (h.bufferAt i)

theorem size (i : ℕ) : (second.bufferAt i).size = (first.bufferAt i).size :=
  congrArg (fun shape => shape.2.1) (h.bufferAt i)

theorem liveIntervals (i : ℕ) :
    (second.bufferAt i).liveIntervals = (first.bufferAt i).liveIntervals :=
  congrArg (fun shape => shape.2.2) (h.bufferAt i)

theorem bufferIndices (id : BufferId) :
    Dsa.bufferIndices second id = Dsa.bufferIndices first id := by
  have hmap : ∀ problem : DsaProblem, Dsa.bufferIndices problem id =
      (problem.buffers.map Buffer.shape).findIdx? fun shape => shape.1 == id := by
    intro problem
    rw [Dsa.bufferIndices, List.findIdx?_map]
    rfl
  rw [hmap, hmap, h.shapes]

theorem isSome_findBuffer (id : BufferId) :
    (second.findBuffer id).isSome = (first.findBuffer id).isSome := by
  rw [← isSome_bufferIndices, ← isSome_bufferIndices, h.bufferIndices]

theorem colocationSets : Dsa.colocationSets second = Dsa.colocationSets first := by
  unfold Dsa.colocationSets colocationPairs
  simp only [h.length, h.colocations, h.bufferIndices]

theorem allocationExtent (i : ℕ) :
    Dsa.allocationExtent second i = Dsa.allocationExtent first i := by
  unfold Dsa.allocationExtent allocationClassExtents extentByRoot
  simp only [h.length, h.colocationSets, h.size]

theorem haveTemporalConflict (i j : ℕ) :
    Dsa.haveTemporalConflict second (second.bufferAt i) (second.bufferAt j) =
      Dsa.haveTemporalConflict first (first.bufferAt i) (first.bufferAt j) := by
  unfold Dsa.haveTemporalConflict lifetimesOverlap
  rw [h.temporalExclusions, h.id, h.id, h.liveIntervals, h.liveIntervals]

theorem exclusivelyPinned (id : BufferId) :
    Dsa.exclusivelyPinned second id = Dsa.exclusivelyPinned first id := by
  unfold Dsa.exclusivelyPinned
  rw [h.pinnedAllocations]

theorem lifetimePairErrors (solution : DsaSolution) (i j : ℕ) :
    Dsa.lifetimePairErrors second solution i j = Dsa.lifetimePairErrors first solution i j := by
  unfold Dsa.lifetimePairErrors
  simp only [h.colocationSets, h.haveTemporalConflict, h.id, h.exclusivelyPinned,
    h.allocationExtent]

theorem pairOverlaps (solution : DsaSolution) (a b : BufferId) :
    Dsa.pairOverlaps second solution a b = Dsa.pairOverlaps first solution a b := by
  unfold Dsa.pairOverlaps
  simp only [h.bufferIndices, h.allocationExtent]

end SameShape

/-! ### Placements in a bound pool -/

/-- The buffer at this offset fits the memory space. -/
structure FitsSpace (space : ArchitectureMemorySpace) (size offset : UInt64) : Prop where
  within : offset.toNat + size.toNat ≤ space.usableCapacity.toNat
  aligned : space.minimumAlignment.toNat ∣ offset.toNat
  clear : Avoids space.reservedRanges offset.toNat size.toNat

theorem poolFits_bindPool_iff {pool : Pool} {space : ArchitectureMemorySpace} {offset size : ℕ}
    (hcapacity : pool.capacity = none) (hne : NonEmpty (pool.reservedRanges ++ space.reservedRanges))
    (hsize : size ≠ 0) :
    PoolFits (bindPool pool space) offset size ↔
      PoolFits pool offset size ∧ offset + size ≤ space.usableCapacity.toNat ∧
        Avoids space.reservedRanges offset size := by
  have hmerged := @avoids_mergeRanges _ hne offset _ hsize
  have happend : Avoids (pool.reservedRanges ++ space.reservedRanges) offset size ↔
      Avoids pool.reservedRanges offset size ∧ Avoids space.reservedRanges offset size :=
    List.forall_mem_append
  have hlt := space.usableCapacity.toNat_lt
  have hmax := toNat_maxU64
  constructor
  · intro h
    have hwithin : offset + size ≤ space.usableCapacity.toNat := h.within
    obtain ⟨hpool, hspace⟩ := happend.mp (hmerged.mp h.clear)
    refine ⟨⟨?_, hpool⟩, hwithin, hspace⟩
    rw [hcapacity, Option.getD_none]
    omega
  · rintro ⟨hpool, hwithin, hspace⟩
    exact ⟨hwithin, hmerged.mpr (happend.mpr ⟨hpool.clear, hspace⟩)⟩

/-- A bound pool is found where the pool of the program is. -/
theorem findPool_bound {architecture : ArchitectureSpec} {first second : DsaProblem}
    (h : List.Forall₂ (fun pool boundPool => ∃ space,
      architecture.findMemorySpace pool.name = some space ∧ boundPool = bindPool pool space)
      first.pools second.pools) (id : PoolId) :
    Option.Rel (fun pool boundPool => ∃ space,
      architecture.findMemorySpace pool.name = some space ∧ boundPool = bindPool pool space)
      (first.findPool id) (second.findPool id) := by
  unfold DsaProblem.findPool
  generalize first.pools = pools at h ⊢
  generalize second.pools = boundPools at h ⊢
  induction h with
  | nil => exact .none
  | cons hpool hrest ih =>
      obtain ⟨space, hspace, rfl⟩ := hpool
      rw [List.find?_cons, List.find?_cons]
      dsimp only [bindPool]
      split
      · exact .some ⟨space, hspace, rfl⟩
      · exact ih

theorem capacity_of_unboundPoolErrors {pools : List Pool} {names : List String}
    (h : unboundPoolErrors names pools = []) : ∀ pool ∈ pools, pool.capacity = none := by
  induction pools generalizing names with
  | nil => simp
  | cons pool rest ih =>
      simp only [unboundPoolErrors, List.append_eq_nil_iff, errorIf_eq_nil] at h
      rw [List.forall_mem_cons]
      exact ⟨by simpa using h.1.1.2, ih h.2⟩

theorem spaces_of_memorySpaceErrors {spaces : List ArchitectureMemorySpace} {names : List String}
    (h : memorySpaceErrors names spaces = []) : ∀ space ∈ spaces,
      space.minimumAlignment ≠ 0 ∧ NonEmpty space.reservedRanges := by
  induction spaces generalizing names with
  | nil => simp
  | cons space rest ih =>
      simp only [memorySpaceErrors, List.append_eq_nil_iff, errorIf_eq_nil, spaceRangeErrors,
        List.flatMap_eq_nil_iff] at h
      rw [List.forall_mem_cons]
      refine ⟨⟨by simpa using h.1.1.1.2, fun range hrange => ?_⟩, ih h.2⟩
      have := h.1.1.2 range hrange
      simp only [Bool.or_eq_false_iff, decide_eq_false_iff_not, ge_iff_le, not_le] at this
      exact this.1

/-! ### Placements of the bound problem -/

/-- What `bindPools` makes of a well-formed problem. -/
structure Bound (architecture : ArchitectureSpec) (first second : DsaProblem) : Prop where
  shape : SameShape first second
  wellFormed : WellFormed first
  boundWellFormed : WellFormed second
  unbound : ∀ pool ∈ first.pools, pool.capacity = none
  clear : ∀ space ∈ architecture.memorySpaces, NonEmpty space.reservedRanges
  pools : List.Forall₂ (fun pool boundPool => ∃ space,
    architecture.findMemorySpace pool.name = some space ∧ boundPool = bindPool pool space)
    first.pools second.pools
  buffers : List.Forall₂ (Realigned (SpacesAligned architecture first.pools)) first.buffers
    second.buffers

section bound

variable {architecture : ArchitectureSpec} {first second : DsaProblem}

theorem Bound.isSome_findPool (h : Bound architecture first second) (id : PoolId) :
    (second.findPool id).isSome = (first.findPool id).isSome := by
  have hrel := findPool_bound h.pools id
  generalize first.findPool id = pool at hrel ⊢
  generalize second.findPool id = boundPool at hrel ⊢
  cases hrel <;> rfl

/-- With one allowed pool, the spaces ask for the alignment of that pool's space. -/
theorem Bound.spacesAligned_iff (h : Bound architecture first second) {buffer : Buffer}
    {pool : Pool} {space : ArchitectureMemorySpace} (hone : buffer.allowedPools = [pool.id])
    (hpool : pool ∈ first.pools) (hspace : architecture.findMemorySpace pool.name = some space)
    (x : ℕ) : SpacesAligned architecture first.pools buffer x ↔ space.minimumAlignment.toNat ∣ x := by
  constructor
  · intro haligned
    exact haligned pool hpool (by rw [hone]; exact List.mem_singleton_self _) space hspace
  · intro hdvd other hother hmem otherSpace hotherSpace
    rw [hone, List.mem_singleton] at hmem
    obtain rfl := List.inj_on_of_nodup_map h.wellFormed.poolIds hother hpool hmem
    rw [hspace] at hotherSpace
    rw [← Option.some.inj hotherSpace]
    exact hdvd

/-- A buffer is placed well in the bound problem exactly when it is in the program and fits the
memory space of its pool. -/
theorem Bound.placedOk_iff (h : Bound architecture first second) {buffer aligned : Buffer}
    (hone : buffer.allowedPools.length = 1) (hbuffer : buffer ∈ first.buffers)
    (haligned : aligned ∈ second.buffers)
    (hrealigned : Realigned (SpacesAligned architecture first.pools) buffer aligned)
    {placement : Placement} (hpool : (first.findPool placement.pool).isSome) :
    PlacedOk second aligned placement ↔ PlacedOk first buffer placement ∧
      ∃ pool space, first.findPool placement.pool = some pool ∧
        architecture.findMemorySpace pool.name = some space ∧
        FitsSpace space buffer.size placement.offset := by
  have hsize := toNat_ne_zero (h.wellFormed.sizePos _ hbuffer)
  obtain ⟨pool, hfind⟩ := Option.isSome_iff_exists.mp hpool
  have hrel := findPool_bound h.pools placement.pool
  rw [hfind] at hrel
  cases hbound : second.findPool placement.pool with
  | none =>
      rw [hbound] at hrel
      cases hrel
  | some boundPool =>
      rw [hbound] at hrel
      cases hrel with
      | some hsome =>
          obtain ⟨space, hspace, rfl⟩ := hsome
          have hmem := findPool_mem hfind
          have hne : NonEmpty (pool.reservedRanges ++ space.reservedRanges) := by
            intro range hrange
            obtain hrange | hrange := List.mem_append.mp hrange
            · exact h.wellFormed.reserved pool hmem range hrange
            · exact h.clear space (List.mem_of_find?_eq_some hspace) range hrange
          have hfits := @poolFits_bindPool_iff _ _ placement.offset.toNat _
            (h.unbound pool hmem) hne hsize
          rw [Dsa.placedOk_iff h.boundWellFormed haligned (by rw [h.isSome_findPool, hpool]),
            Dsa.placedOk_iff h.wellFormed hbuffer hpool, hrealigned.dvd, hfind, hbound]
          obtain ⟨alignment, rfl⟩ := hrealigned.shape
          have hsingle : placement.pool ∈ buffer.allowedPools → buffer.allowedPools = [pool.id] := by
            intro hallowed
            obtain ⟨only, honly⟩ := List.length_eq_one_iff.mp hone
            rw [honly, List.mem_singleton] at hallowed
            rw [honly, findPool_id hfind, hallowed]
          simp only [Option.some.injEq, exists_eq_left', hfits]
          constructor
          · rintro ⟨hallowed, ⟨hdvd, hspaces⟩, hpoolFits, hwithin, hclear⟩
            exact ⟨⟨hallowed, hdvd, hpoolFits⟩, pool, space, rfl, hspace, hwithin,
              (h.spacesAligned_iff (hsingle hallowed) hmem hspace _).mp hspaces, hclear⟩
          · rintro ⟨⟨hallowed, hdvd, hpoolFits⟩, other, otherSpace, rfl, hother, hwithin, hspaces,
              hclear⟩
            rw [hspace] at hother
            obtain rfl := Option.some.inj hother
            exact ⟨hallowed, ⟨hdvd, (h.spacesAligned_iff (hsingle hallowed) hmem hspace _).mpr hspaces⟩,
              hpoolFits, hwithin, hclear⟩

/-- Every buffer of the program is placed where it fits the memory space of its pool. -/
def FitsArchitecture (architecture : ArchitectureSpec) (problem : DsaProblem)
    (solution : DsaSolution) : Prop :=
  ∀ buffer ∈ problem.buffers, ∃ placement pool space,
    solution.find buffer.id = some placement ∧ problem.findPool placement.pool = some pool ∧
      architecture.findMemorySpace pool.name = some space ∧
      FitsSpace space buffer.size placement.offset

theorem Bound.solutionOk_iff (h : Bound architecture first second)
    (hone : ∀ buffer ∈ first.buffers, buffer.allowedPools.length = 1) (solution : DsaSolution) :
    SolutionOk second solution ↔
      SolutionOk first solution ∧ FitsArchitecture architecture first solution := by
  have hknown : (∀ id placement, solution.find id = some placement →
        (second.findBuffer id).isSome ∧ (second.findPool placement.pool).isSome) ↔
      ∀ id placement, solution.find id = some placement →
        (first.findBuffer id).isSome ∧ (first.findPool placement.pool).isSome := by
    simp only [h.shape.isSome_findBuffer, h.isSome_findPool]
  have hid : ∀ buffer aligned, Realigned (SpacesAligned architecture first.pools) buffer aligned →
      aligned.id = buffer.id := by
    intro buffer aligned hrealigned
    obtain ⟨alignment, rfl⟩ := hrealigned.shape
    rfl
  constructor
  · intro hok
    have hknownFirst := hknown.mp hok.known
    have hboth : ∀ buffer ∈ first.buffers, ∃ placement, solution.find buffer.id = some placement ∧
        PlacedOk first buffer placement ∧ ∃ pool space,
          first.findPool placement.pool = some pool ∧
          architecture.findMemorySpace pool.name = some space ∧
          FitsSpace space buffer.size placement.offset := by
      intro buffer hbuffer
      obtain ⟨aligned, haligned, hrealigned⟩ := forall₂_exists_right h.buffers buffer hbuffer
      obtain ⟨placement, hfind, hplaced⟩ := hok.placed aligned haligned
      rw [hid _ _ hrealigned] at hfind
      exact ⟨placement, hfind, (h.placedOk_iff (hone buffer hbuffer) hbuffer haligned hrealigned
        (hknownFirst _ _ hfind).2).mp hplaced⟩
    refine ⟨⟨hknownFirst, fun buffer hbuffer => ?_, ?_, ?_, ?_, ?_⟩, fun buffer hbuffer => ?_⟩
    · obtain ⟨placement, hfind, hplaced, -⟩ := hboth buffer hbuffer
      exact ⟨placement, hfind, hplaced⟩
    · rw [← h.shape.colocations]
      exact hok.colocated
    · intro i j hij hj
      rw [← h.shape.lifetimePairErrors]
      exact hok.lifetimes i j hij (by rw [h.shape.length]; exact hj)
    · intro constraint hconstraint
      have := hok.separated constraint (by rw [h.shape.separations]; exact hconstraint)
      rw [separatedPlacementErrors_eq_nil_iff] at this ⊢
      rw [← h.shape.pairOverlaps, this]
    · rw [← h.shape.pinnedAllocations]
      exact hok.pinned
    · obtain ⟨placement, hfind, -, pool, space, hpool, hspace, hfits⟩ := hboth buffer hbuffer
      exact ⟨placement, pool, space, hfind, hpool, hspace, hfits⟩
  · rintro ⟨hok, hfitsAll⟩
    refine ⟨hknown.mpr hok.known, fun aligned haligned => ?_, ?_, ?_, ?_, ?_⟩
    · obtain ⟨buffer, hbuffer, hrealigned⟩ := forall₂_exists_left h.buffers aligned haligned
      obtain ⟨placement, hfind, hplaced⟩ := hok.placed buffer hbuffer
      obtain ⟨other, pool, space, hother, hpool, hspace, hfits⟩ := hfitsAll buffer hbuffer
      rw [hfind] at hother
      obtain rfl := Option.some.inj hother
      refine ⟨placement, by rw [hid _ _ hrealigned, hfind], ?_⟩
      rw [h.placedOk_iff (hone buffer hbuffer) hbuffer haligned hrealigned (hok.known _ _ hfind).2]
      exact ⟨hplaced, pool, space, hpool, hspace, hfits⟩
    · rw [h.shape.colocations]
      exact hok.colocated
    · intro i j hij hj
      rw [h.shape.lifetimePairErrors]
      exact hok.lifetimes i j hij (by rw [← h.shape.length]; exact hj)
    · intro constraint hconstraint
      have := hok.separated constraint (by rw [← h.shape.separations]; exact hconstraint)
      rw [separatedPlacementErrors_eq_nil_iff] at this ⊢
      rw [h.shape.pairOverlaps, this]
    · rw [h.shape.pinnedAllocations]
      exact hok.pinned

end bound

theorem sameShape_of_buffers {problem : DsaProblem} {extra : Buffer → ℕ → Prop}
    {pools : List Pool} {buffers : List Buffer}
    (h : List.Forall₂ (Realigned extra) problem.buffers buffers) :
    SameShape problem { problem with pools := pools, buffers := buffers } where
  shapes := by
    show buffers.map Buffer.shape = problem.buffers.map Buffer.shape
    generalize problem.buffers = originals at h
    induction h with
    | nil => rfl
    | cons hrealigned hrest ih =>
        obtain ⟨alignment, rfl⟩ := hrealigned.shape
        rw [List.map_cons, List.map_cons, ih]
        rfl
  colocations := rfl
  separations := rfl
  temporalExclusions := rfl
  pinnedAllocations := rfl

theorem bound_of_bindArchitecture {lib : JsonText} {program bound : StructuredProblemDocument}
    {architecture : ArchitectureSpec} (h : bindArchitecture lib program architecture = .ok bound) :
    validateProblem program.problem = [] ∧ validateProblem bound.problem = [] ∧
      Bound architecture program.problem bound.problem := by
  unfold bindArchitecture at h
  cases hprogram : validateUnboundProgram program with
  | cons error rest => simp [hprogram] at h
  | nil =>
      cases harchitecture : validateArchitectureSpec architecture with
      | cons error rest => simp [hprogram, harchitecture] at h
      | nil =>
          simp only [hprogram, harchitecture] at h
          split_ifs at h with habi
          simp only [bind_eq_ok] at h
          obtain ⟨⟨pools, buffers⟩, hbind, programFingerprint, -, architectureFingerprint, -, h⟩ := h
          cases hvalid : validateStructuredProblemDocument
              { program with
                instanceName := program.instanceName ++ "@" ++ architecture.architectureId
                metadata := (((program.metadata.insert "architecture_id"
                  architecture.architectureId).insert "architecture_fingerprint_fnv1a64"
                  architectureFingerprint).insert "program_fingerprint_fnv1a64"
                  programFingerprint).insert "target" architecture.architectureId
                problem := { program.problem with pools := pools, buffers := buffers } } with
          | cons error rest => simp [hvalid] at h
          | nil =>
              rw [hvalid] at h
              obtain rfl := Except.ok.inj h
              unfold validateUnboundProgram at hprogram
              unfold validateArchitectureSpec at harchitecture
              simp only [List.append_eq_nil_iff] at hprogram harchitecture
              have hproblem := validateProblem_of_document hprogram.1.1.1.1
              have hboundProblem := validateProblem_of_document hvalid
              have hw := WellFormed.of_validateProblem hproblem
              have hspaces := spaces_of_memorySpaceErrors harchitecture.2
              obtain ⟨hpools, hbuffers⟩ := bindPools_spec (fun space hspace => (hspaces space hspace).1)
                hw.alignmentPos hbind
              exact ⟨hproblem, hboundProblem, sameShape_of_buffers hbuffers, hw,
                WellFormed.of_validateProblem hboundProblem,
                capacity_of_unboundPoolErrors hprogram.2, fun space hspace => (hspaces space hspace).2,
                hpools, hbuffers⟩

/-- Binding an architecture restricts the valid placements to those that fit the memory spaces:
below the usable capacity, at a multiple of the minimum alignment, off the reserved ranges. -/
theorem bindArchitecture_valid_iff (lib : JsonText) (program bound : StructuredProblemDocument)
    (architecture : ArchitectureSpec)
    (hone : ∀ buffer ∈ program.problem.buffers, buffer.allowedPools.length = 1)
    (hbind : bindArchitecture lib program architecture = .ok bound) (solution : DsaSolution) :
    validateSolution bound.problem solution = [] ↔
      validateSolution program.problem solution = [] ∧
        FitsArchitecture architecture program.problem solution := by
  obtain ⟨hvalid, hboundValid, hbound⟩ := bound_of_bindArchitecture hbind
  rw [validateSolution_eq_nil_iff, validateSolution_eq_nil_iff, hbound.solutionOk_iff hone]
  simp only [hvalid, hboundValid, true_and]

/-- A program of one buffer in the space `Vec`. -/
def vecProgram : StructuredProblemDocument where
  profile := .pyptoResearchV1
  instanceName := "kernel"
  metadata := .ofList [("lifetime_ordering", "pypto_read_before_write"),
    ("lowering_abi", "v1"), ("solver_input", "pre_memory_reuse")]
  problem :=
    { pools := [{ name := "Vec", reservedRanges := [⟨0, 16⟩] }]
      buffers := [{ id := 1, size := 64, alignment := 12, liveIntervals := [⟨0, 4⟩] }] }

def vecArchitecture : ArchitectureSpec where
  architectureId := "a3"
  supportedLoweringAbis := ["v1"]
  memorySpaces :=
    [{ logicalSpace := "Vec", usableCapacity := 1024, minimumAlignment := 32,
       reservedRanges := [⟨16, 64⟩] }]

theorem bindArchitecture_valid_iff_vec :
    ∃ bound, bindArchitecture (.ofValues []) vecProgram vecArchitecture = .ok bound ∧
      validateSolution bound.problem ⟨.ofList [((1 : BufferId), Placement.mk 0 96)]⟩ = [] := by
  have hok : (bindArchitecture (.ofValues []) vecProgram vecArchitecture).isOk = true := by
    decide +kernel
  obtain ⟨bound, hbind⟩ : ∃ bound,
      bindArchitecture (.ofValues []) vecProgram vecArchitecture = .ok bound := by
    cases hresult : bindArchitecture (.ofValues []) vecProgram vecArchitecture with
    | ok bound => exact ⟨bound, rfl⟩
    | error what =>
        rw [hresult] at hok
        cases hok
  refine ⟨bound, hbind, (bindArchitecture_valid_iff _ _ _ _ (by decide +kernel) hbind _).mpr
    ⟨by decide +kernel, ?_⟩⟩
  intro buffer hbuffer
  obtain rfl := List.mem_singleton.mp hbuffer
  refine ⟨⟨0, 96⟩, _, _, by decide +kernel, rfl, rfl, by decide +kernel, by decide +kernel, ?_⟩
  unfold Avoids
  decide +kernel

end Dsa
