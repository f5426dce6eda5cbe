import DsaSolver.HappensBefore
import Std.Data.TreeMap.Lemmas

/-! # Derived synchronisations

The last accesses of a buffer on its streams cover all its accesses, and the maximal ones among
them are an antichain that still covers them.  A pair of lifetime-compatible buffers is therefore
ordered exactly when every maximal access of the earlier buffer happens before the first write of
the later one, and the missing orders are what the edge of the pair asks for. -/

namespace Dsa

open Theory

/-! ### Accesses of a buffer -/

section accesses

variable {program : ScheduledProgram} {problem : DsaProblem} {buffer : BufferId}

theorem accessAt_eq {index : ℕ} (h : index < program.accesses.length) :
    program.accessAt index = program.accesses[index] :=
  List.getD_eq_getElem _ _ h

theorem mem_accessesByBuffer {index : ℕ} :
    index ∈ accessesByBuffer program buffer ↔
      index < program.accesses.length ∧ (program.accessAt index).buffer = buffer := by
  simp [accessesByBuffer]

theorem exists_accessAt {access : ScheduledBufferAccess} (h : access ∈ program.accesses) :
    ∃ index ∈ accessesByBuffer program access.buffer, program.accessAt index = access := by
  obtain ⟨index, hlt, heq⟩ := List.getElem_of_mem h
  rw [← accessAt_eq hlt] at heq
  exact ⟨index, mem_accessesByBuffer.mpr ⟨hlt, by rw [heq]⟩, heq⟩

theorem accessAt_mem {index : ℕ} (h : index ∈ accessesByBuffer program buffer) :
    program.accessAt index ∈ program.accesses ∧ (program.accessAt index).buffer = buffer := by
  obtain ⟨hlt, hbuffer⟩ := mem_accessesByBuffer.mp h
  rw [accessAt_eq hlt] at hbuffer ⊢
  exact ⟨List.getElem_mem hlt, hbuffer⟩

theorem AccessesOk.operation (h : AccessesOk program problem) {index : ℕ}
    (hindex : index ∈ accessesByBuffer program buffer) :
    accessOperation program index < program.operations.length ∧
      (program.operationAt (accessOperation program index)).id =
        (program.accessAt index).operation := by
  obtain ⟨operation, hoperation⟩ :=
    Option.isSome_iff_exists.mp (h.known _ (accessAt_mem hindex).1)
  unfold accessOperation
  rw [hoperation]
  exact operationIndex_lt hoperation

/-- The stream of the operation of an access. -/
def streamOf (program : ScheduledProgram) (access : ℕ) : StreamId :=
  (program.operationAt (accessOperation program access)).stream

/-- One access more: the map holds on every stream an access seen on it, none seen is later. -/
structure LastOk (program : ScheduledProgram) (seen : List ℕ)
    (lastByStream : Std.TreeMap StreamId ℕ) : Prop where
  sound : ∀ stream access, lastByStream[stream]? = some access →
    access ∈ seen ∧ streamOf program access = stream
  covers : ∀ access ∈ seen, ∃ last, lastByStream[streamOf program access]? = some last ∧
    issueOf program (accessOperation program access) ≤
      issueOf program (accessOperation program last)

theorem LastOk.insert {seen : List ℕ} {lastByStream : Std.TreeMap StreamId ℕ}
    (h : LastOk program seen lastByStream) (access : ℕ)
    (hlast : ∀ last, lastByStream[streamOf program access]? = some last →
      issueOf program (accessOperation program last) ≤
        issueOf program (accessOperation program access)) :
    LastOk program (seen ++ [access])
      (lastByStream.insert (streamOf program access) access) := by
  refine ⟨fun stream other hother => ?_, fun other hother => ?_⟩
  · rw [Std.TreeMap.getElem?_insert] at hother
    split_ifs at hother with heq
    · obtain rfl := Option.some.inj hother
      exact ⟨List.mem_append_right _ (List.mem_singleton_self _), compare_eq_iff_eq.mp heq⟩
    · obtain ⟨hmem, hstream⟩ := h.sound stream other hother
      exact ⟨List.mem_append_left _ hmem, hstream⟩
  · rw [Std.TreeMap.getElem?_insert]
    split_ifs with heq
    · refine ⟨access, rfl, ?_⟩
      obtain hother | hother := List.mem_append.mp hother
      · obtain ⟨last, hget, hissue⟩ := h.covers other hother
        rw [← compare_eq_iff_eq.mp heq] at hget
        exact hissue.trans (hlast last hget)
      · rw [List.mem_singleton.mp hother]
    · obtain hother | hother := List.mem_append.mp hother
      · exact h.covers other hother
      · rw [List.mem_singleton.mp hother] at heq
        exact absurd (compare_eq_iff_eq.mpr rfl) heq

theorem LastOk.recordLast {seen : List ℕ} {lastByStream : Std.TreeMap StreamId ℕ}
    (h : LastOk program seen lastByStream) (access : ℕ) :
    LastOk program (seen ++ [access]) (recordLast program lastByStream access) := by
  unfold Dsa.recordLast
  dsimp only
  cases hget : lastByStream[(program.operationAt (accessOperation program access)).stream]? with
  | none => exact h.insert access fun last hlast => by cases hget.symm.trans hlast
  | some current =>
      dsimp only
      split_ifs with hissued
      · refine ⟨fun stream other hother => ?_, fun other hother => ?_⟩
        · obtain ⟨hmem, hstream⟩ := h.sound stream other hother
          exact ⟨List.mem_append_left _ hmem, hstream⟩
        · obtain hother | hother := List.mem_append.mp hother
          · exact h.covers other hother
          · rw [List.mem_singleton.mp hother]
            refine ⟨current, hget, ?_⟩
            obtain hlt | ⟨heq, -⟩ := hissued
            · exact (UInt64.lt_iff_toNat_lt.mp hlt).le
            · exact (congrArg UInt64.toNat heq).le
      · refine h.insert access fun last hlast => ?_
        obtain rfl := Option.some.inj (hget.symm.trans hlast)
        unfold issuedBefore at hissued
        rw [not_or, UInt64.lt_iff_toNat_lt] at hissued
        unfold issueOf
        omega

theorem lastOk_foldl (accesses : List ℕ) {seen : List ℕ} {lastByStream : Std.TreeMap StreamId ℕ}
    (h : LastOk program seen lastByStream) :
    LastOk program (seen ++ accesses) (accesses.foldl (recordLast program) lastByStream) := by
  induction accesses generalizing seen lastByStream with
  | nil => simpa using h
  | cons access rest ih => simpa using ih (h.recordLast access)

theorem lastOk_accesses :
    LastOk program (accessesByBuffer program buffer)
      ((accessesByBuffer program buffer).foldl (recordLast program) ∅) := by
  have hempty : LastOk program [] (∅ : Std.TreeMap StreamId ℕ) :=
    ⟨fun stream access h => by simp at h, fun access h => by cases h⟩
  exact lastOk_foldl (accessesByBuffer program buffer) hempty

theorem mem_lastAccesses {access : ℕ} :
    access ∈ lastAccesses program buffer ↔ ∃ stream : StreamId,
      ((accessesByBuffer program buffer).foldl (recordLast program) ∅)[stream]? = some access := by
  unfold lastAccesses
  rw [List.mem_map]
  constructor
  · rintro ⟨⟨stream, other⟩, hmem, rfl⟩
    exact ⟨stream, Std.TreeMap.mem_toList_iff_getElem?_eq_some.mp hmem⟩
  · rintro ⟨stream, hget⟩
    exact ⟨(stream, access), Std.TreeMap.mem_toList_iff_getElem?_eq_some.mpr hget, rfl⟩

theorem lastAccesses_subset {access : ℕ} (h : access ∈ lastAccesses program buffer) :
    access ∈ accessesByBuffer program buffer := by
  obtain ⟨stream, hget⟩ := mem_lastAccesses.mp h
  exact (lastOk_accesses.sound stream access hget).1

/-- The last accesses are on different streams. -/
theorem lastAccesses_pairwise :
    (lastAccesses program buffer).Pairwise fun a b => streamOf program a ≠ streamOf program b := by
  unfold lastAccesses
  rw [List.pairwise_map]
  refine List.Pairwise.imp_of_mem ?_ Std.TreeMap.distinct_keys_toList
  rintro ⟨s, a⟩ ⟨t, b⟩ ha hb hne heq
  have hs := (lastOk_accesses.sound s a (Std.TreeMap.mem_toList_iff_getElem?_eq_some.mp ha)).2
  have ht := (lastOk_accesses.sound t b (Std.TreeMap.mem_toList_iff_getElem?_eq_some.mp hb)).2
  rw [← hs, ← ht] at hne
  exact hne (compare_eq_iff_eq.mpr heq)

theorem exists_lastAccess {access : ℕ} (h : access ∈ accessesByBuffer program buffer) :
    ∃ last ∈ lastAccesses program buffer, streamOf program access = streamOf program last ∧
      issueOf program (accessOperation program access) ≤
        issueOf program (accessOperation program last) := by
  obtain ⟨last, hget, hissue⟩ := lastOk_accesses.covers access h
  exact ⟨last, mem_lastAccesses.mpr ⟨_, hget⟩, (lastOk_accesses.sound _ _ hget).2.symm, hissue⟩

/-! ### Maximal accesses -/

variable {indexed : IndexedProgram}

/-- One access happens before another in the index. -/
def AccessReach (program : ScheduledProgram) (indexed : IndexedProgram) (a b : ℕ) : Prop :=
  Reach indexed.edges (accessOperation program a) (accessOperation program b)

theorem ordered_access_iff (hindex : IndexOk program indexed) (haccess : AccessesOk program problem)
    {first second : BufferId} {a b : ℕ} (ha : a ∈ accessesByBuffer program first)
    (hb : b ∈ accessesByBuffer program second) :
    ordered program indexed (accessOperation program a) (accessOperation program b) = true ↔
      AccessReach program indexed a b := by
  rw [hindex.ordered_iff (haccess.operation ha).1 (haccess.operation hb).1,
    ← hindex.reach_iff (haccess.operation ha).1 (haccess.operation hb).1, AccessReach]

theorem accessReach_iff (hindex : IndexOk program indexed) (haccess : AccessesOk program problem)
    {first second : BufferId} {a b : ℕ} (ha : a ∈ accessesByBuffer program first)
    (hb : b ∈ accessesByBuffer program second) :
    AccessReach program indexed a b ↔
      HappensBefore program (program.accessAt a).operation (program.accessAt b).operation := by
  obtain ⟨hlta, hida⟩ := haccess.operation ha
  obtain ⟨hltb, hidb⟩ := haccess.operation hb
  rw [AccessReach, hindex.reach_iff hlta hltb, hida, hidb]

theorem maximalAccesses_subset {access : ℕ} (h : access ∈ maximalAccesses program indexed buffer) :
    access ∈ accessesByBuffer program buffer :=
  lastAccesses_subset (List.mem_of_mem_filter h)

theorem maximalAccesses_pairwise :
    (maximalAccesses program indexed buffer).Pairwise
      fun a b => streamOf program a ≠ streamOf program b :=
  lastAccesses_pairwise.sublist List.filter_sublist

theorem mem_maximalAccesses (hindex : IndexOk program indexed)
    (haccess : AccessesOk program problem) {access : ℕ} :
    access ∈ maximalAccesses program indexed buffer ↔ access ∈ lastAccesses program buffer ∧
      ∀ other ∈ lastAccesses program buffer, access ≠ other →
        ¬AccessReach program indexed access other := by
  unfold maximalAccesses
  rw [List.mem_filter]
  refine and_congr_right fun hlast => ?_
  simp only [Bool.not_eq_true', List.any_eq_false, Bool.and_eq_true, bne_iff_ne, not_and]
  refine forall₂_congr fun other hother => ?_
  rw [ordered_access_iff hindex haccess (lastAccesses_subset hlast) (lastAccesses_subset hother)]

/-- No maximal access happens before another. -/
theorem maximalAccesses_antichain (hindex : IndexOk program indexed)
    (haccess : AccessesOk program problem) {a b : ℕ}
    (ha : a ∈ maximalAccesses program indexed buffer)
    (hb : b ∈ maximalAccesses program indexed buffer) (h : AccessReach program indexed a b) :
    a = b := by
  by_contra hne
  exact ((mem_maximalAccesses hindex haccess).mp ha).2 b
    ((mem_maximalAccesses hindex haccess).mp hb).1 hne h

theorem lastAccesses_inj {a b : ℕ} (ha : a ∈ lastAccesses program buffer)
    (hb : b ∈ lastAccesses program buffer)
    (h : accessOperation program a = accessOperation program b) : a = b := by
  have hnodup : ((lastAccesses program buffer).map (streamOf program)).Nodup :=
    List.pairwise_map.mpr lastAccesses_pairwise
  refine List.inj_on_of_nodup_map hnodup ha hb ?_
  rw [streamOf, streamOf, h]

/-- A last access that is not maximal happens before another one, and so before a maximal one:
the position in the topological order grows. -/
theorem exists_maximal_of_last (hindex : IndexOk program indexed)
    (haccess : AccessesOk program problem) {last : ℕ}
    (hlast : last ∈ lastAccesses program buffer) :
    ∃ maximal ∈ maximalAccesses program indexed buffer,
      AccessReach program indexed last maximal := by
  obtain ⟨rank, hbound, hrank⟩ := hindex.exists_rank
  induction hleft : program.operations.length - rank (accessOperation program last)
    using Nat.strong_induction_on generalizing last with
  | _ left ih =>
      by_cases hmax : last ∈ maximalAccesses program indexed buffer
      · exact ⟨last, hmax, .refl⟩
      · rw [mem_maximalAccesses hindex haccess] at hmax
        push Not at hmax
        obtain ⟨other, hother, hne, hreach⟩ := hmax hlast
        have hlt : rank (accessOperation program last) < rank (accessOperation program other) := by
          obtain heq | hlt := hrank hreach
          · exact absurd (lastAccesses_inj hlast hother heq) hne
          · exact hlt
        have := hbound (accessOperation program other)
        obtain ⟨maximal, hmaximal, hreach'⟩ := ih _ (by omega) hother rfl
        exact ⟨maximal, hmaximal, Relation.ReflTransGen.trans hreach hreach'⟩

/-- Every access happens before a maximal one. -/
theorem exists_maximalAccess (hindex : IndexOk program indexed)
    (haccess : AccessesOk program problem) {access : ℕ}
    (h : access ∈ accessesByBuffer program buffer) :
    ∃ maximal ∈ maximalAccesses program indexed buffer,
      AccessReach program indexed access maximal := by
  obtain ⟨last, hlast, hstream, hissue⟩ := exists_lastAccess h
  have hlt := (haccess.operation h).1
  have hltLast := (haccess.operation (lastAccesses_subset hlast)).1
  have hreach : AccessReach program indexed access last := by
    unfold AccessReach
    obtain hless | heq := Nat.lt_or_eq_of_le hissue
    · exact hindex.stream _ hlt _ hltLast hstream hless
    · rw [hindex.injective _ hlt _ hltLast hstream heq]
      exact .refl
  obtain ⟨maximal, hmaximal, hreach'⟩ := exists_maximal_of_last hindex haccess hlast
  exact ⟨maximal, hmaximal, Relation.ReflTransGen.trans hreach hreach'⟩

/-! ### First writes -/

theorem firstWriteAmong_spec {accesses candidates : List ℕ} {found : Option ℕ} {first : ℕ}
    (h : firstWriteAmong program indexed buffer accesses candidates found = .ok (some first)) :
    found = some first ∨ first ∈ candidates ∧ (program.accessAt first).kind = .write ∧
      ∀ access ∈ accesses, ordered program indexed (accessOperation program first)
        (accessOperation program access) = true := by
  induction candidates generalizing found with
  | nil => exact .inl (Except.ok.inj h)
  | cons candidate rest ih =>
      have hskip : ∀ {found}, firstWriteAmong program indexed buffer accesses rest found =
          .ok (some first) → found = some first ∨ first ∈ candidate :: rest ∧
            (program.accessAt first).kind = .write ∧ ∀ access ∈ accesses,
              ordered program indexed (accessOperation program first)
                (accessOperation program access) = true := by
        intro found hrest
        obtain heq | ⟨hmem, hspec⟩ := ih hrest
        · exact .inl heq
        · exact .inr ⟨List.mem_cons_of_mem _ hmem, hspec⟩
      unfold firstWriteAmong at h
      split_ifs at h with hkind hall
      · exact hskip h
      · exact hskip h
      · cases found with
        | none =>
            obtain heq | hspec := hskip h
            · obtain rfl := Option.some.inj heq
              exact .inr ⟨List.mem_cons_self, by simpa using hkind, by simpa using hall⟩
            · exact .inr hspec
        | some other =>
            dsimp only at h
            unfold throwInvalid at h
            split_ifs at h
            exact hskip h

/-- The first write is a write of the buffer that happens before all its accesses. -/
theorem firstWrite_spec (hindex : IndexOk program indexed) (haccess : AccessesOk program problem)
    {first : ℕ} (h : firstWrite program indexed buffer = .ok first) :
    first ∈ accessesByBuffer program buffer ∧ (program.accessAt first).kind = .write ∧
      ∀ access ∈ accessesByBuffer program buffer, AccessReach program indexed first access := by
  simp only [firstWrite, bind_eq_ok] at h
  obtain ⟨found, hfound, h⟩ := h
  cases found with
  | none => cases h
  | some other =>
      obtain rfl := Except.ok.inj h
      obtain hnone | ⟨hmem, hkind, hall⟩ := firstWriteAmong_spec hfound
      · cases hnone
      · exact ⟨hmem, hkind, fun access ha =>
          (ordered_access_iff hindex haccess hmem ha).mp (hall access ha)⟩

/-- Two candidates that happen before every access are the same operation, so the loop of
`FirstWrite` accepts them all. -/
theorem firstWriteAmong_ne_error (hindex : IndexOk program indexed)
    (haccess : AccessesOk program problem) {candidates : List ℕ} {found : Option ℕ}
    (hcandidates : candidates ⊆ accessesByBuffer program buffer)
    (hfound : ∀ first, found = some first → first ∈ accessesByBuffer program buffer ∧
      ∀ access ∈ accessesByBuffer program buffer, AccessReach program indexed first access)
    (what : Exception) :
    firstWriteAmong program indexed buffer (accessesByBuffer program buffer) candidates found ≠
      .error what := by
  induction candidates generalizing found with
  | nil =>
      intro h
      cases h
  | cons candidate rest ih =>
      have hmem := hcandidates List.mem_cons_self
      have hrest := (List.cons_subset.mp hcandidates).2
      unfold firstWriteAmong
      split_ifs with hkind hall
      · exact ih hrest hfound
      · exact ih hrest hfound
      · have hreach : ∀ access ∈ accessesByBuffer program buffer,
            AccessReach program indexed candidate access := fun access ha => by
          apply (ordered_access_iff hindex haccess hmem ha).mp
          simp only [Bool.not_eq_true', Bool.not_eq_false] at hall
          exact List.all_eq_true.mp hall access ha
        cases found with
        | none =>
            apply ih hrest
            intro first hfirst
            obtain rfl := Option.some.inj hfirst
            exact ⟨hmem, hreach⟩
        | some first =>
            obtain ⟨hfirst, hall'⟩ := hfound first rfl
            have hsame := hindex.antisymm (hall' candidate hmem) (hreach first hfirst)
            have hoperation : (program.accessAt first).operation =
                (program.accessAt candidate).operation := by
              rw [← (haccess.operation hfirst).2, ← (haccess.operation hmem).2, hsame]
            dsimp only
            rw [if_neg (by simpa using hoperation)]
            exact ih hrest hfound

end accesses

/-! ### Orders between two buffers -/

/-- Every access of the first buffer happens before every access of the second. -/
def AllOrdered (program : ScheduledProgram) (earlier later : BufferId) : Prop :=
  ∀ a ∈ program.accesses, ∀ b ∈ program.accesses, a.buffer = earlier → b.buffer = later →
    HappensBefore program a.operation b.operation

/-- A write of the buffer that happens before all its accesses. -/
def IsFirstWrite (program : ScheduledProgram) (buffer : BufferId)
    (write : ScheduledBufferAccess) : Prop :=
  write ∈ program.accesses ∧ write.buffer = buffer ∧ write.kind = .write ∧
    ∀ access ∈ program.accesses, access.buffer = buffer →
      HappensBefore program write.operation access.operation

/-- The program with the synchronisations as further dependencies. -/
def ScheduledProgram.withSyncs (program : ScheduledProgram) (syncs : List DerivedSyncAnchor) :
    ScheduledProgram :=
  { program with
    crossDependencies := program.crossDependencies ++
      syncs.map fun sync => ⟨sync.lastAccess, sync.firstWrite⟩ }

theorem precedes_withSyncs {program : ScheduledProgram} {syncs : List DerivedSyncAnchor}
    {before after : OperationId} :
    Precedes (program.withSyncs syncs) before after ↔
      Precedes program before after ∨ ⟨before, after⟩ ∈ syncs := by
  have hmem : (⟨before, after⟩ : ScheduledDependency) ∈
      (program.withSyncs syncs).crossDependencies ↔
      ⟨before, after⟩ ∈ program.crossDependencies ∨ ⟨before, after⟩ ∈ syncs := by
    simp only [ScheduledProgram.withSyncs, List.mem_append, List.mem_map]
    refine or_congr_right ⟨?_, fun h => ⟨_, h, rfl⟩⟩
    rintro ⟨⟨last, first⟩, hsync, heq⟩
    cases heq
    exact hsync
  unfold Precedes
  rw [hmem, or_assoc]
  rfl

theorem HappensBefore.withSyncs {program : ScheduledProgram} {before after : OperationId}
    (h : HappensBefore program before after) (syncs : List DerivedSyncAnchor) :
    HappensBefore (program.withSyncs syncs) before after :=
  Relation.ReflTransGen.mono (fun _ _ hstep => precedes_withSyncs.mpr (.inl hstep)) _ _ h

/-- Synchronisations whose sources are not reached add nothing to what is reached. -/
theorem happensBefore_of_withSyncs {program : ScheduledProgram} {syncs : List DerivedSyncAnchor}
    {before after : OperationId} (h : HappensBefore (program.withSyncs syncs) before after)
    (hunreached : ∀ sync ∈ syncs, ¬HappensBefore program before sync.lastAccess) :
    HappensBefore program before after := by
  induction h with
  | refl => exact .refl
  | tail _ hstep ih =>
      obtain hstep | hsync := precedes_withSyncs.mp hstep
      · exact ih.tail hstep
      · exact absurd ih (hunreached _ hsync)

theorem IsFirstWrite.unique {program : ScheduledProgram} {indexed : IndexedProgram}
    {problem : DsaProblem} {buffer : BufferId} {write first : ScheduledBufferAccess}
    (hindex : IndexOk program indexed) (haccess : AccessesOk program problem)
    (hwrite : IsFirstWrite program buffer write) (hfirst : IsFirstWrite program buffer first) :
    write.operation = first.operation := by
  obtain ⟨hmem1, hbuffer1, -, hall1⟩ := hwrite
  obtain ⟨hmem2, hbuffer2, -, hall2⟩ := hfirst
  obtain ⟨i, hi, rfl⟩ := exists_accessAt hmem1
  obtain ⟨j, hj, rfl⟩ := exists_accessAt hmem2
  have hij := (accessReach_iff hindex haccess hi hj).mpr (hall1 _ hmem2 hbuffer2)
  have hji := (accessReach_iff hindex haccess hj hi).mpr (hall2 _ hmem1 hbuffer1)
  rw [← (haccess.operation hi).2, ← (haccess.operation hj).2, hindex.antisymm hij hji]

/-! ### The edge of a pair -/

section edge

variable {program : ScheduledProgram} {indexed : IndexedProgram} {problem : DsaProblem}
  (syncCost : List (List UInt64))

/-- The accesses for which the loop adds a synchronisation. -/
def needsSync (program : ScheduledProgram) (indexed : IndexedProgram)
    (syncCost : List (List UInt64)) (firstWriteOp access : ℕ) : Bool :=
  !ordered program indexed (accessOperation program access) firstWriteOp &&
    syncCostOf program syncCost (accessOperation program access) firstWriteOp != 0

def syncAnchor (program : ScheduledProgram) (firstWriteOp access : ℕ) : DerivedSyncAnchor :=
  ⟨(program.operationAt (accessOperation program access)).id,
    (program.operationAt firstWriteOp).id⟩

/-- `sync_cost` between the streams of the two operations of a synchronisation. -/
def anchorCost (program : ScheduledProgram) (syncCost : List (List UInt64))
    (sync : DerivedSyncAnchor) : UInt64 :=
  match operationIndex program sync.lastAccess, operationIndex program sync.firstWrite with
  | some before, some after => syncCostOf program syncCost before after
  | _, _ => 0

theorem foldl_addSync (firstWriteOp : ℕ) (accesses : List ℕ) (edge : DerivedPenaltyEdge) :
    let derived := accesses.foldl (addSync program indexed syncCost firstWriteOp) edge
    let needed := accesses.filter (needsSync program indexed syncCost firstWriteOp)
    derived.first = edge.first ∧ derived.second = edge.second ∧
      derived.neededSyncs = edge.neededSyncs ++ needed.map (syncAnchor program firstWriteOp) ∧
      derived.cost.toNat = min (2 ^ 64 - 1) (edge.cost.toNat + (needed.map fun access =>
        (syncCostOf program syncCost (accessOperation program access) firstWriteOp).toNat).sum) := by
  induction accesses generalizing edge with
  | nil =>
      have := edge.cost.toNat_lt
      refine ⟨rfl, rfl, by simp, ?_⟩
      simp only [List.foldl_nil, List.filter_nil, List.map_nil, List.sum_nil]
      omega
  | cons access rest ih =>
      obtain ⟨hfirst, hsecond, hsyncs, hcost⟩ :=
        ih (addSync program indexed syncCost firstWriteOp edge access)
      dsimp only at hfirst hsecond hsyncs hcost ⊢
      rw [List.foldl_cons, hfirst, hsecond, hsyncs, hcost]
      by_cases hneeds : needsSync program indexed syncCost firstWriteOp access = true
      · have hstep : addSync program indexed syncCost firstWriteOp edge access =
            { edge with
              cost := satAdd edge.cost
                (syncCostOf program syncCost (accessOperation program access) firstWriteOp)
              neededSyncs := edge.neededSyncs ++ [syncAnchor program firstWriteOp access] } := by
          simp only [needsSync, Bool.and_eq_true, Bool.not_eq_true', bne_iff_ne] at hneeds
          simp [addSync, syncAnchor, hneeds.1, hneeds.2]
        rw [hstep, List.filter_cons_of_pos hneeds]
        refine ⟨rfl, rfl, by simp, ?_⟩
        rw [List.map_cons, List.sum_cons, toNat_satAdd]
        omega
      · have hstep : addSync program indexed syncCost firstWriteOp edge access = edge := by
          simp only [needsSync, Bool.and_eq_true, Bool.not_eq_true', bne_iff_ne, not_and,
            not_not] at hneeds
          unfold addSync
          dsimp only
          split_ifs with hordered hzero
          · rfl
          · rfl
          · exact absurd (hneeds (by simpa using hordered)) (by simpa using hzero)
        rw [hstep, List.filter_cons_of_neg hneeds]
        exact ⟨rfl, rfl, rfl, rfl⟩

end edge

/-! ### Lifetime-compatible pairs -/

theorem le_max_int64 (a b : Int64) : a ≤ max a b ∧ b ≤ max a b := by
  change a ≤ (if a ≤ b then b else a) ∧ b ≤ (if a ≤ b then b else a)
  split_ifs with h
  · exact ⟨h, Int64.le_refl b⟩
  · exact ⟨Int64.le_refl a, (Int64.le_total a b).resolve_left h⟩

theorem foldl_hull (intervals : List Interval) (hull : Int64 × Int64) :
    let result := intervals.foldl
      (fun hull interval => (min hull.1 interval.lower, max hull.2 interval.upper)) hull
    result.1 ≤ hull.1 ∧ hull.2 ≤ result.2 ∧
      ∀ interval ∈ intervals, result.1 ≤ interval.lower ∧ interval.upper ≤ result.2 := by
  induction intervals generalizing hull with
  | nil => exact ⟨Int64.le_refl _, Int64.le_refl _, fun interval h => by cases h⟩
  | cons interval rest ih =>
      obtain ⟨hlower, hupper, hall⟩ := ih (min hull.1 interval.lower, max hull.2 interval.upper)
      obtain ⟨hleft, hright⟩ := le_max_int64 hull.2 interval.upper
      refine ⟨Int64.le_trans hlower Std.min_le_left, Int64.le_trans hleft hupper, ?_⟩
      intro other hother
      obtain rfl | hother := List.mem_cons.mp hother
      · exact ⟨Int64.le_trans hlower Std.min_le_right, Int64.le_trans hright hupper⟩
      · exact hall other hother

theorem hull_lt {problem : DsaProblem} (hvalid : validateProblem problem = []) {buffer : Buffer}
    (h : buffer ∈ problem.buffers) :
    (bufferLifetimeHull buffer).1 < (bufferLifetimeHull buffer).2 := by
  obtain ⟨interval, hmem⟩ := List.exists_mem_of_ne_nil _
    ((WellFormed.of_validateProblem hvalid).lifetimes buffer h)
  obtain ⟨hlower, hupper⟩ := (foldl_hull buffer.liveIntervals
    (9223372036854775807, -9223372036854775808)).2.2 interval hmem
  exact Int64.lt_of_le_of_lt hlower (Int64.lt_of_lt_of_le (interval_lt hvalid h hmem) hupper)

/-- Of two buffers at most one comes before the other. -/
theorem earlierLifetime_asymm {problem : DsaProblem} (hvalid : validateProblem problem = [])
    {first second : Buffer} (hfirst : first ∈ problem.buffers) (hsecond : second ∈ problem.buffers)
    (h : earlierLifetime first second = true) : earlierLifetime second first = false := by
  unfold earlierLifetime at h ⊢
  rw [decide_eq_true_iff] at h
  rw [decide_eq_false_iff_not]
  intro h'
  have hlt1 := hull_lt hvalid hfirst
  have hlt2 := hull_lt hvalid hsecond
  rw [Int64.lt_iff_toInt_lt] at hlt1 hlt2
  rw [Int64.le_iff_toInt_le] at h h'
  omega

theorem mem_indexPairs {α : Type} {l : List α} {x y : α} (h : (x, y) ∈ indexPairs l) :
    x ∈ l ∧ y ∈ l := by
  induction l with
  | nil => cases h
  | cons first rest ih =>
      obtain h | h := List.mem_append.mp h
      · obtain ⟨second, hsecond, heq⟩ := List.mem_map.mp h
        cases heq
        exact ⟨List.mem_cons_self, List.mem_cons_of_mem _ hsecond⟩
      · exact ⟨List.mem_cons_of_mem _ (ih h).1, List.mem_cons_of_mem _ (ih h).2⟩

theorem indexPairs_total {α : Type} {l : List α} {x y : α} (hx : x ∈ l) (hy : y ∈ l)
    (hne : x ≠ y) : (x, y) ∈ indexPairs l ∨ (y, x) ∈ indexPairs l := by
  induction l with
  | nil => cases hx
  | cons first rest ih =>
      simp only [indexPairs, List.mem_append, List.mem_map, Prod.mk.injEq]
      obtain heqx | hx := List.mem_cons.mp hx
      · obtain heqy | hy := List.mem_cons.mp hy
        · exact absurd (heqx.trans heqy.symm) hne
        · exact .inl (.inl ⟨y, hy, heqx.symm, rfl⟩)
      · obtain heqy | hy := List.mem_cons.mp hy
        · exact .inr (.inl ⟨x, hx, heqy.symm, rfl⟩)
        · exact (ih hx hy).imp .inr .inr

/-- The pairs that are derived are those of a buffer with a later one. -/
theorem mem_orientedPairs {problem : DsaProblem} (hvalid : validateProblem problem = [])
    {summaries : List AccessSummary} (hbuffers : ∀ s ∈ summaries, s.buffer ∈ problem.buffers)
    {earlier later : AccessSummary} :
    (earlier, later) ∈ (indexPairs summaries).filterMap orientPair ↔
      earlier ∈ summaries ∧ later ∈ summaries ∧
        earlierLifetime earlier.buffer later.buffer = true := by
  rw [List.mem_filterMap]
  constructor
  · rintro ⟨⟨first, second⟩, hmem, horient⟩
    obtain ⟨hfirst, hsecond⟩ := mem_indexPairs hmem
    unfold orientPair at horient
    split_ifs at horient with hswap hkeep
    · cases Option.some.inj horient
      exact ⟨hsecond, hfirst, hswap⟩
    · cases Option.some.inj horient
      exact ⟨hfirst, hsecond, hkeep⟩
  · rintro ⟨hearlier, hlater, hlifetime⟩
    have hback := earlierLifetime_asymm hvalid (hbuffers _ hearlier) (hbuffers _ hlater) hlifetime
    have hne : earlier ≠ later := by
      rintro rfl
      rw [hlifetime] at hback
      cases hback
    obtain hmem | hmem := indexPairs_total hearlier hlater hne
    · exact ⟨_, hmem, by simp [orientPair, hlifetime, hback]⟩
    · exact ⟨_, hmem, by simp [orientPair, hlifetime]⟩

theorem summarize_spec {program : ScheduledProgram} {indexed : IndexedProgram}
    {buffers : List Buffer} {summaries : List AccessSummary}
    (h : summarize program indexed buffers = .ok summaries) :
    (∀ s ∈ summaries, s.buffer ∈ buffers ∧
      firstWrite program indexed s.buffer.id = .ok s.firstWrite ∧
      s.maximal = maximalAccesses program indexed s.buffer.id) ∧
      ∀ buffer ∈ buffers, ∃ s ∈ summaries, s.buffer = buffer := by
  induction buffers generalizing summaries with
  | nil =>
      obtain rfl := Except.ok.inj h
      simp
  | cons buffer rest ih =>
      simp only [summarize, bind_eq_ok] at h
      obtain ⟨first, hfirst, others, hothers, h⟩ := h
      obtain rfl := Except.ok.inj h
      obtain ⟨hsound, hall⟩ := ih hothers
      constructor
      · intro s hs
        obtain rfl | hs := List.mem_cons.mp hs
        · exact ⟨List.mem_cons_self, hfirst, rfl⟩
        · obtain ⟨hmem, hrest⟩ := hsound s hs
          exact ⟨List.mem_cons_of_mem _ hmem, hrest⟩
      · intro other hother
        obtain rfl | hother := List.mem_cons.mp hother
        · exact ⟨_, List.mem_cons_self, rfl⟩
        · obtain ⟨s, hs, heq⟩ := hall other hother
          exact ⟨s, List.mem_cons_of_mem _ hs, heq⟩

/-! ### The derived edges -/

section derivation

variable {problem : DsaProblem} {program : ScheduledProgram} {syncCost : List (List UInt64)}
  {derivation : PenaltyEdgeDerivation} {earlier later : Buffer}

/-- The edge is between the two buffers. -/
def DerivedPenaltyEdge.Joins (edge : DerivedPenaltyEdge) (first second : Buffer) : Prop :=
  edge.first = min first.id second.id ∧ edge.second = max first.id second.id

theorem eq_or_swap_of_min_max {a b c d : BufferId} (hmin : min a b = min c d)
    (hmax : max a b = max c d) : a = c ∧ b = d ∨ a = d ∧ b = c := by
  change (if a ≤ b then a else b) = (if c ≤ d then c else d) at hmin
  change (if a ≤ b then b else a) = (if c ≤ d then d else c) at hmax
  split_ifs at hmin hmax
  · exact .inl ⟨hmin, hmax⟩
  · exact .inr ⟨hmin, hmax⟩
  · exact .inr ⟨hmax, hmin⟩
  · exact .inl ⟨hmax, hmin⟩

/-- The edges of a pair of buffers: the derived one, when it asks for a synchronisation. -/
theorem derivePenaltyEdges_pair (h : derivePenaltyEdges problem program syncCost = .ok derivation)
    (hearlier : earlier ∈ problem.buffers) (hlater : later ∈ problem.buffers)
    (hlifetime : earlierLifetime earlier later = true) :
    ∃ indexed write, buildIndex program problem = .ok indexed ∧
      firstWrite program indexed later.id = .ok write ∧
      ∀ edge, edge ∈ derivation.edges ∧ edge.Joins earlier later ↔
        edge = deriveEdge program indexed syncCost
          ⟨earlier, 0, maximalAccesses program indexed earlier.id⟩ ⟨later, write, []⟩ ∧
            edge.neededSyncs ≠ [] := by
  unfold derivePenaltyEdges at h
  cases hvalid : validateProblem problem with
  | cons error rest => simp [hvalid, throwInvalid] at h
  | nil =>
      simp only [hvalid, bind_eq_ok, rejectIf_eq_ok] at h
      obtain ⟨-, -, indexed, hindex, summaries, hsummaries, h⟩ := h
      obtain rfl := Except.ok.inj h
      obtain ⟨hsound, hall⟩ := summarize_spec hsummaries
      obtain ⟨s, hs, rfl⟩ := hall earlier hearlier
      obtain ⟨t, ht, rfl⟩ := hall later hlater
      have hpairs : ∀ x y : AccessSummary, (x, y) ∈ (indexPairs summaries).filterMap orientPair ↔
          x ∈ summaries ∧ y ∈ summaries ∧ earlierLifetime x.buffer y.buffer = true :=
        fun _ _ => mem_orientedPairs hvalid fun s hs => (hsound s hs).1
      have hids := (WellFormed.of_validateProblem hvalid).bufferIds
      refine ⟨indexed, t.firstWrite, hindex, (hsound t ht).2.1, fun edge => ?_⟩
      rw [List.mem_insertionSort, List.mem_filter, List.mem_map]
      constructor
      · rintro ⟨⟨⟨⟨x, y⟩, hpair, rfl⟩, hsyncs⟩, hmin, hmax⟩
        obtain ⟨hx, hy, hxy⟩ := (hpairs x y).mp hpair
        obtain ⟨hxmem, -, hxmax⟩ := hsound x hx
        obtain ⟨hymem, hywrite, -⟩ := hsound y hy
        obtain ⟨hfirst, hsecond, -⟩ := @foldl_addSync program indexed
          syncCost (accessOperation program y.firstWrite) x.maximal
          { first := min x.buffer.id y.buffer.id, second := max x.buffer.id y.buffer.id }
        obtain ⟨hx', hy'⟩ | ⟨hx', hy'⟩ :=
          eq_or_swap_of_min_max (hfirst.symm.trans hmin) (hsecond.symm.trans hmax)
        · have hxs := List.inj_on_of_nodup_map hids hxmem hearlier hx'
          have hyt := List.inj_on_of_nodup_map hids hymem hlater hy'
          have hwrite := Except.ok.inj ((hyt ▸ hywrite).symm.trans (hsound t ht).2.1)
          refine ⟨?_, by simpa using hsyncs⟩
          rw [deriveEdge, deriveEdge, hxmax, hxs, hyt, hwrite]
        · have hxt := List.inj_on_of_nodup_map hids hxmem hlater hx'
          have hys := List.inj_on_of_nodup_map hids hymem hearlier hy'
          rw [hxt, hys, earlierLifetime_asymm hvalid hearlier hlater hlifetime] at hxy
          cases hxy
      · rintro ⟨rfl, hsyncs⟩
        obtain ⟨hfirst, hsecond, -⟩ := @foldl_addSync program indexed
          syncCost (accessOperation program t.firstWrite)
          (maximalAccesses program indexed s.buffer.id)
          { first := min s.buffer.id t.buffer.id, second := max s.buffer.id t.buffer.id }
        refine ⟨⟨⟨(s, t), (hpairs s t).mpr ⟨hs, ht, hlifetime⟩, ?_⟩, by simpa using hsyncs⟩,
          hfirst, hsecond⟩
        rw [deriveEdge, deriveEdge, (hsound s hs).2.2]

theorem isFirstWrite_of_firstWrite {indexed : IndexedProgram} {buffer : BufferId} {write : ℕ}
    (hindex : IndexOk program indexed) (haccess : AccessesOk program problem)
    (h : firstWrite program indexed buffer = .ok write) :
    IsFirstWrite program buffer (program.accessAt write) := by
  obtain ⟨hmem, hkind, hall⟩ := firstWrite_spec hindex haccess h
  obtain ⟨hwrite, hbuffer⟩ := accessAt_mem hmem
  refine ⟨hwrite, hbuffer, hkind, fun access ha heq => ?_⟩
  subst heq
  obtain ⟨i, hi, rfl⟩ := exists_accessAt ha
  exact (accessReach_iff hindex haccess hmem hi).mp (hall i hi)

/-- Two buffers are ordered when the maximal accesses of the first happen before the first write
of the second. -/
theorem allOrdered_iff {indexed : IndexedProgram} {first second : BufferId} {write : ℕ}
    (hindex : IndexOk program indexed) (haccess : AccessesOk program problem)
    (h : firstWrite program indexed second = .ok write) :
    AllOrdered program first second ↔
      ∀ access ∈ maximalAccesses program indexed first, AccessReach program indexed access write := by
  obtain ⟨hmem, -, hall⟩ := firstWrite_spec hindex haccess h
  obtain ⟨hwrite, hbuffer⟩ := accessAt_mem hmem
  constructor
  · intro hordered access ha
    obtain ⟨haccess', hfirst⟩ := accessAt_mem (maximalAccesses_subset ha)
    exact (accessReach_iff hindex haccess (maximalAccesses_subset ha) hmem).mpr
      (hordered _ haccess' _ hwrite hfirst hbuffer)
  · intro hmaximal a ha b hb hfirst hsecond
    subst hfirst
    subst hsecond
    obtain ⟨i, hi, rfl⟩ := exists_accessAt ha
    obtain ⟨j, hj, rfl⟩ := exists_accessAt hb
    obtain ⟨maximal, hmax, hreach⟩ := exists_maximalAccess hindex haccess hi
    have hpath : AccessReach program indexed i j :=
      Relation.ReflTransGen.trans (Relation.ReflTransGen.trans hreach (hmaximal maximal hmax))
        (hall j hj)
    exact (accessReach_iff hindex haccess hi hj).mp hpath

/-- The entries of `sync_cost` that the loop reads for a pair of buffers are positive. -/
def ConsultedPositive (problem : DsaProblem) (program : ScheduledProgram)
    (syncCost : List (List UInt64)) (earlier later : Buffer) : Prop :=
  ∀ indexed, buildIndex program problem = .ok indexed →
    ∀ write, firstWrite program indexed later.id = .ok write →
      ∀ access ∈ maximalAccesses program indexed earlier.id,
        ordered program indexed (accessOperation program access)
            (accessOperation program write) = false →
          syncCostOf program syncCost (accessOperation program access)
            (accessOperation program write) ≠ 0

/-- The accesses that get a synchronisation are the maximal ones not ordered before the write. -/
theorem mem_needed_iff {indexed : IndexedProgram} {write access : ℕ}
    (hindex : IndexOk program indexed) (haccess : AccessesOk program problem)
    (hwrite : firstWrite program indexed later.id = .ok write)
    (hbuild : buildIndex program problem = .ok indexed)
    (hpositive : ConsultedPositive problem program syncCost earlier later) :
    access ∈ (maximalAccesses program indexed earlier.id).filter
        (needsSync program indexed syncCost (accessOperation program write)) ↔
      access ∈ maximalAccesses program indexed earlier.id ∧
        ¬AccessReach program indexed access write := by
  rw [List.mem_filter]
  refine and_congr_right fun hmem => ?_
  have hordered := ordered_access_iff hindex haccess (maximalAccesses_subset hmem)
    (firstWrite_spec hindex haccess hwrite).1
  unfold needsSync
  rw [← hordered, Bool.and_eq_true, Bool.not_eq_true', bne_iff_ne, Bool.not_eq_true]
  exact ⟨And.left, fun hnot => ⟨hnot, hpositive indexed hbuild write hwrite access hmem hnot⟩⟩

theorem anchorCost_syncAnchor {indexed : IndexedProgram} (hindex : IndexOk program indexed)
    (haccess : AccessesOk program problem) {first second : BufferId} {access write : ℕ}
    (ha : access ∈ accessesByBuffer program first) (hw : write ∈ accessesByBuffer program second) :
    anchorCost program syncCost (syncAnchor program (accessOperation program write) access) =
      syncCostOf program syncCost (accessOperation program access)
        (accessOperation program write) := by
  unfold anchorCost syncAnchor
  rw [operationIndex_operationAt hindex.ids (haccess.operation ha).1,
    operationIndex_operationAt hindex.ids (haccess.operation hw).1]

/-- Without the synchronisation of one access, that access is not ordered before the write. -/
theorem not_happensBefore_eraseIdx {indexed : IndexedProgram} {first second : BufferId}
    {write : ℕ} (hindex : IndexOk program indexed) (haccess : AccessesOk program problem)
    (hwrite : write ∈ accessesByBuffer program second) {needed : List ℕ} (hnodup : needed.Nodup)
    (hneeded : ∀ access ∈ needed, access ∈ maximalAccesses program indexed first ∧
      ¬AccessReach program indexed access write) {i : ℕ} (hi : i < needed.length) :
    ¬HappensBefore (program.withSyncs
        ((needed.map (syncAnchor program (accessOperation program write))).eraseIdx i))
      (program.accessAt needed[i]).operation (program.accessAt write).operation := by
  obtain ⟨hmax, hnot⟩ := hneeded _ (List.getElem_mem hi)
  have hmem := maximalAccesses_subset hmax
  intro hpath
  refine hnot ((accessReach_iff hindex haccess hmem hwrite).mpr
    (happensBefore_of_withSyncs hpath ?_))
  intro sync hsync hreach
  obtain ⟨j, hj, hne, rfl⟩ := List.mem_eraseIdx_iff_getElem.mp hsync
  rw [List.length_map] at hj
  rw [List.getElem_map] at hreach
  obtain ⟨hmaxj, -⟩ := hneeded _ (List.getElem_mem hj)
  have hmemj := maximalAccesses_subset hmaxj
  have hlast : HappensBefore program (program.accessAt needed[i]).operation
      (program.accessAt needed[j]).operation := by
    rw [← (haccess.operation hmemj).2]
    exact hreach
  have heq := maximalAccesses_antichain hindex haccess hmax hmaxj
    ((accessReach_iff hindex haccess hmem hmemj).mpr hlast)
  exact hne ((hnodup.getElem_inj_iff.mp heq).symm)

/-- With the synchronisations of all its unordered maximal accesses, the earlier buffer comes
before the later one. -/
theorem allOrdered_withSyncs {indexed : IndexedProgram} {first second : BufferId} {write : ℕ}
    (hindex : IndexOk program indexed) (haccess : AccessesOk program problem)
    (hwrite : firstWrite program indexed second = .ok write) {needed : List ℕ}
    (hneeded : ∀ access ∈ maximalAccesses program indexed first,
      ¬AccessReach program indexed access write → access ∈ needed) :
    AllOrdered (program.withSyncs
      (needed.map (syncAnchor program (accessOperation program write)))) first second := by
  obtain ⟨hmem, -, hall⟩ := firstWrite_spec hindex haccess hwrite
  intro a ha b hb hfirst hsecond
  subst hfirst
  subst hsecond
  obtain ⟨i, hi, rfl⟩ := exists_accessAt ha
  obtain ⟨j, hj, rfl⟩ := exists_accessAt hb
  obtain ⟨maximal, hmax, hreach⟩ := exists_maximalAccess hindex haccess hi
  have hmemMax := maximalAccesses_subset hmax
  have hbefore := ((accessReach_iff hindex haccess hi hmemMax).mp hreach).withSyncs
    (needed.map (syncAnchor program (accessOperation program write)))
  have hafter := ((accessReach_iff hindex haccess hmem hj).mp (hall j hj)).withSyncs
    (needed.map (syncAnchor program (accessOperation program write)))
  refine Relation.ReflTransGen.trans (Relation.ReflTransGen.trans hbefore ?_) hafter
  by_cases hordered : AccessReach program indexed maximal write
  · exact ((accessReach_iff hindex haccess hmemMax hmem).mp hordered).withSyncs _
  · refine .single (precedes_withSyncs.mpr (.inr ?_))
    rw [← (haccess.operation hmemMax).2, ← (haccess.operation hmem).2]
    exact List.mem_map_of_mem (hneeded maximal hmax hordered)

/-- A pair of lifetime-compatible buffers gets an edge when happens-before does not order it; the
synchronisations of the edge order it, none of them is superfluous, and they make up its cost. -/
theorem derivePenaltyEdges_syncs
    (h : derivePenaltyEdges problem program syncCost = .ok derivation)
    (hearlier : earlier ∈ problem.buffers) (hlater : later ∈ problem.buffers)
    (hlifetime : earlierLifetime earlier later = true)
    (hpositive : ConsultedPositive problem program syncCost earlier later) :
    ((∃ edge ∈ derivation.edges, edge.Joins earlier later) ↔
        ¬AllOrdered program earlier.id later.id) ∧
      (∃ write, IsFirstWrite program later.id write) ∧
      ∀ edge ∈ derivation.edges, edge.Joins earlier later →
        AllOrdered (program.withSyncs edge.neededSyncs) earlier.id later.id ∧
          (∀ i < edge.neededSyncs.length, ∃ access ∈ program.accesses,
            access.buffer = earlier.id ∧ ∀ write, IsFirstWrite program later.id write →
              ¬HappensBefore (program.withSyncs (edge.neededSyncs.eraseIdx i))
                access.operation write.operation) ∧
          edge.cost.toNat = min (2 ^ 64 - 1)
            (edge.neededSyncs.map fun sync => (anchorCost program syncCost sync).toNat).sum := by
  obtain ⟨indexed, write, hbuild, hwrite, hpair⟩ :=
    derivePenaltyEdges_pair h hearlier hlater hlifetime
  obtain ⟨hindex, haccess⟩ := buildIndex_spec hbuild
  have hwriteMem := (firstWrite_spec hindex haccess hwrite).1
  have hisFirst := isFirstWrite_of_firstWrite hindex haccess hwrite
  have hneeded : ∀ access, access ∈ (maximalAccesses program indexed earlier.id).filter
      (needsSync program indexed syncCost (accessOperation program write)) ↔
      access ∈ maximalAccesses program indexed earlier.id ∧
        ¬AccessReach program indexed access write :=
    fun _ => mem_needed_iff hindex haccess hwrite hbuild hpositive
  obtain ⟨-, -, hsyncs, hcost⟩ := @foldl_addSync program indexed syncCost
    (accessOperation program write) (maximalAccesses program indexed earlier.id)
    { first := min earlier.id later.id, second := max earlier.id later.id }
  generalize hlist : (maximalAccesses program indexed earlier.id).filter
    (needsSync program indexed syncCost (accessOperation program write)) = needed
    at hneeded hsyncs hcost
  have hnodup : needed.Nodup := by
    have hmaximal : (maximalAccesses program indexed earlier.id).Nodup :=
      maximalAccesses_pairwise.imp fun hne heq => hne (by rw [heq])
    rw [← hlist]
    exact hmaximal.filter _
  -- the derived edge has the synchronisations of `needed`
  have hderived : ∀ edge, edge = deriveEdge program indexed syncCost
      ⟨earlier, 0, maximalAccesses program indexed earlier.id⟩ ⟨later, write, []⟩ →
      edge.neededSyncs = needed.map (syncAnchor program (accessOperation program write)) ∧
        edge.cost.toNat = min (2 ^ 64 - 1) (needed.map fun access =>
          (syncCostOf program syncCost (accessOperation program access)
            (accessOperation program write)).toNat).sum := by
    rintro edge rfl
    exact ⟨hsyncs, hcost.trans (by simp)⟩
  refine ⟨?_, ⟨_, hisFirst⟩, ?_⟩
  · rw [allOrdered_iff hindex haccess hwrite]
    push Not
    constructor
    · rintro ⟨edge, hedge⟩
      obtain ⟨heq, hne⟩ := (hpair edge).mp hedge
      rw [(hderived edge heq).1, ne_eq, List.map_eq_nil_iff] at hne
      obtain ⟨access, hmem⟩ := List.exists_mem_of_ne_nil _ hne
      exact ⟨access, (hneeded access).mp hmem⟩
    · rintro ⟨access, hmem⟩
      refine ⟨_, (hpair _).mpr ⟨rfl, ?_⟩⟩
      rw [(hderived _ rfl).1, ne_eq, List.map_eq_nil_iff]
      exact List.ne_nil_of_mem ((hneeded access).mpr hmem)
  · intro edge hmem hjoins
    obtain ⟨heq, -⟩ := (hpair edge).mp ⟨hmem, hjoins⟩
    obtain ⟨hedgeSyncs, hedgeCost⟩ := hderived edge heq
    rw [hedgeSyncs, hedgeCost]
    refine ⟨?_, ?_, ?_⟩
    · exact allOrdered_withSyncs hindex haccess hwrite
        fun access hmax hnot => (hneeded access).mpr ⟨hmax, hnot⟩
    · intro i hi
      rw [List.length_map] at hi
      obtain ⟨hmaximal, -⟩ := (hneeded _).mp (List.getElem_mem hi)
      obtain ⟨haccessMem, hbuffer⟩ := accessAt_mem (maximalAccesses_subset hmaximal)
      refine ⟨_, haccessMem, hbuffer, fun first hfirst => ?_⟩
      rw [IsFirstWrite.unique hindex haccess hfirst hisFirst]
      exact not_happensBefore_eraseIdx hindex haccess hwriteMem hnodup
        (fun access ha => (hneeded access).mp ha) hi
    · rw [List.map_map]
      refine congrArg (fun costs : List ℕ => min (2 ^ 64 - 1) costs.sum)
        (List.map_congr_left fun access ha => ?_)
      have hmaximal := maximalAccesses_subset ((hneeded access).mp ha).1
      rw [Function.comp_apply, anchorCost_syncAnchor hindex haccess hmaximal hwriteMem]

/-! ### An instance -/

/-- Buffer 0 is written on stream 0 and read on stream 1, buffer 1 is written later on stream 0. -/
def twoStreamProgram : ScheduledProgram :=
  { streamCount := 2
    operations := [⟨10, 0, 0, 0⟩, ⟨11, 1, 0, 1⟩, ⟨12, 0, 1, 2⟩]
    crossDependencies := [⟨10, 11⟩]
    accesses := [⟨0, 10, .write⟩, ⟨0, 11, .read⟩, ⟨1, 12, .write⟩] }

def twoStreamBuffers : Buffer × Buffer :=
  ({ id := 0, size := 8, liveIntervals := [⟨0, 2⟩], allowedPools := [0] },
    { id := 1, size := 8, liveIntervals := [⟨2, 4⟩], allowedPools := [0] })

def twoStreamProblem : DsaProblem :=
  { buffers := [twoStreamBuffers.1, twoStreamBuffers.2] }

theorem eq_of_toOption {α : Type} {result : Except Exception α} {value value' : α}
    (h : result.toOption = some value) (h' : result = .ok value') : value' = value := by
  subst h'
  exact Option.some.inj h

/-- The read on stream 1 is not ordered before the write of buffer 1; one synchronisation is. -/
theorem derivePenaltyEdges_syncs_twoStream :
    ∃ derivation, derivePenaltyEdges twoStreamProblem twoStreamProgram [[1, 5], [5, 1]] =
        .ok derivation ∧
      derivation.edges = [⟨0, 1, 5, [⟨11, 12⟩]⟩] ∧ ¬AllOrdered twoStreamProgram 0 1 ∧
        AllOrdered (twoStreamProgram.withSyncs [⟨11, 12⟩]) 0 1 := by
  have hvalue : (derivePenaltyEdges twoStreamProblem twoStreamProgram [[1, 5], [5, 1]]).toOption =
      some ⟨[⟨0, 1, 5, [⟨11, 12⟩]⟩], 1, 0⟩ := by decide +kernel
  have hindexValue : (buildIndex twoStreamProgram twoStreamProblem).toOption =
      some ⟨[(0, 2), (0, 1)], [[1, 0], [1, 1], [2, 0]]⟩ := by decide +kernel
  have hwriteValue : (firstWrite twoStreamProgram ⟨[(0, 2), (0, 1)], [[1, 0], [1, 1], [2, 0]]⟩
      twoStreamBuffers.2.id).toOption = some 2 := by decide +kernel
  have hpositive : ConsultedPositive twoStreamProblem twoStreamProgram [[1, 5], [5, 1]]
      twoStreamBuffers.1 twoStreamBuffers.2 := by
    intro indexed hindex write hwrite
    obtain rfl := eq_of_toOption hindexValue hindex
    obtain rfl := eq_of_toOption hwriteValue hwrite
    decide +kernel
  cases hresult : derivePenaltyEdges twoStreamProblem twoStreamProgram [[1, 5], [5, 1]] with
  | error what =>
      rw [hresult] at hvalue
      cases hvalue
  | ok derivation =>
      obtain rfl := eq_of_toOption hvalue hresult
      have hearlier : twoStreamBuffers.1 ∈ twoStreamProblem.buffers := List.mem_cons_self
      have hlater : twoStreamBuffers.2 ∈ twoStreamProblem.buffers :=
        List.mem_cons_of_mem _ List.mem_cons_self
      obtain ⟨hiff, -, hedges⟩ :=
        derivePenaltyEdges_syncs hresult hearlier hlater (by decide +kernel) hpositive
      have hjoins : DerivedPenaltyEdge.Joins ⟨0, 1, 5, [⟨11, 12⟩]⟩ twoStreamBuffers.1
          twoStreamBuffers.2 := ⟨by decide, by decide⟩
      exact ⟨_, rfl, rfl, hiff.mp ⟨_, List.mem_cons_self, hjoins⟩,
        (hedges _ List.mem_cons_self hjoins).1⟩

/-- The vector clocks of an accepted program decide happens-before, so no two first writes of a
buffer are found, and the maximal accesses are an antichain above all accesses. -/
theorem buildIndex_decides {program : ScheduledProgram} {problem : DsaProblem}
    {indexed : IndexedProgram} (h : buildIndex program problem = .ok indexed) :
    (∀ a < program.operations.length, ∀ b < program.operations.length,
      (ordered program indexed a b = true ↔
        HappensBefore program (program.operationAt a).id (program.operationAt b).id)) ∧
    ∀ buffer : BufferId,
      (∀ what, firstWriteAmong program indexed buffer (accessesByBuffer program buffer)
        (accessesByBuffer program buffer) none ≠ .error what) ∧
      (∀ a ∈ maximalAccesses program indexed buffer,
        ∀ b ∈ maximalAccesses program indexed buffer, a ≠ b →
          ¬HappensBefore program (program.accessAt a).operation (program.accessAt b).operation) ∧
      ∀ access ∈ program.accesses, access.buffer = buffer →
        ∃ maximal ∈ maximalAccesses program indexed buffer,
          HappensBefore program access.operation (program.accessAt maximal).operation := by
  obtain ⟨hindex, haccess⟩ := buildIndex_spec h
  refine ⟨fun a ha b hb => hindex.ordered_iff ha hb, fun buffer => ⟨fun what => ?_, ?_, ?_⟩⟩
  · apply firstWriteAmong_ne_error hindex haccess (List.Subset.refl _)
    intro first hfirst
    cases hfirst
  · intro a ha b hb hne hbefore
    apply hne
    apply maximalAccesses_antichain hindex haccess ha hb
    exact (accessReach_iff hindex haccess (maximalAccesses_subset ha)
      (maximalAccesses_subset hb)).mpr hbefore
  · intro access hmem hbuffer
    subst hbuffer
    obtain ⟨i, hi, rfl⟩ := exists_accessAt hmem
    obtain ⟨maximal, hmaximal, hreach⟩ := exists_maximalAccess hindex haccess hi
    exact ⟨maximal, hmaximal,
      (accessReach_iff hindex haccess hi (maximalAccesses_subset hmaximal)).mp hreach⟩

/-- The write on stream 0 happens before the read on stream 1, not conversely. -/
theorem buildIndex_decides_twoStream :
    HappensBefore twoStreamProgram 10 11 ∧ ¬HappensBefore twoStreamProgram 11 12 := by
  cases hresult : buildIndex twoStreamProgram twoStreamProblem with
  | error what =>
      have hvalue : (buildIndex twoStreamProgram twoStreamProblem).toOption =
          some ⟨[(0, 2), (0, 1)], [[1, 0], [1, 1], [2, 0]]⟩ := by decide +kernel
      rw [hresult] at hvalue
      cases hvalue
  | ok indexed =>
      obtain ⟨hordered, -⟩ := buildIndex_decides hresult
      have hvalue : indexed = ⟨[(0, 2), (0, 1)], [[1, 0], [1, 1], [2, 0]]⟩ :=
        eq_of_toOption (by decide +kernel) hresult
      subst hvalue
      constructor
      · exact (hordered 0 (by decide) 1 (by decide)).mp (by decide +kernel)
      · intro hbefore
        exact absurd ((hordered 1 (by decide) 2 (by decide)).mpr hbefore) (by decide +kernel)

end derivation

end Dsa
