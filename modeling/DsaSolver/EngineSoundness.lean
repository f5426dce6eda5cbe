import DsaSolver.AddressSearch
import DsaSolver.Peaks
import DsaSolver.WithoutCaps

/-! # Soundness of the placement engine

The loop of `placeWithOrder` keeps the invariant `PlacedSoFar`: the classes placed so far have
the pool and the pin they must have, an unpinned one lies clear of the reserved ranges, and two
classes that block each other are apart unless both are pinned.  At the end only the pins can
violate a constraint, and no placement can do without these
(`placeWithOrder_sound`). -/

namespace Dsa

open Theory (Apart)

variable {problem : DsaProblem}

/-! ### The order -/

theorem placementOrder_perm (prepared : PreparedProblem) (priority : List BufferId)
    (strategy : PlacementStrategy) :
    (placementOrder prepared priority strategy).Perm (List.range prepared.supers.length) := by
  unfold placementOrder sortedSuperOrder
  dsimp only
  simp only [← Option.not_isSome]
  exact (List.filter_append_perm _ _).trans (List.perm_insertionSort _ _)

/-- The pinned classes come first. -/
theorem placementOrder_pinned (prepared : PreparedProblem) (priority : List BufferId)
    (strategy : PlacementStrategy) :
    (placementOrder prepared priority strategy).Pairwise fun first second =>
      (prepared.superAt second).pinned.isSome = true →
        (prepared.superAt first).pinned.isSome = true := by
  unfold placementOrder
  dsimp only
  rw [List.pairwise_append]
  refine ⟨?_, ?_, ?_⟩
  · apply List.pairwise_of_forall_mem_list
    intro first hfirst second _ _
    exact (List.mem_filter.mp hfirst).2
  · apply List.pairwise_of_forall_mem_list
    intro first _ second hsecond hpinned
    have hnone := (List.mem_filter.mp hsecond).2
    rw [Option.isNone_iff_eq_none] at hnone
    rw [hnone] at hpinned
    cases hpinned
  · intro first hfirst second _ _
    exact (List.mem_filter.mp hfirst).2

/-! ### One class -/

/-- Placing the members of a class. -/
theorem find_placeMembers (super : SuperBuffer) (placement : Placement) (solution : DsaSolution)
    (id : BufferId) : (placeMembers problem super placement solution).find id =
      if ∃ i ∈ super.members, (problem.bufferAt i).id = id then some placement
      else solution.find id := by
  unfold placeMembers DsaSolution.find
  dsimp only
  generalize super.members = members
  generalize solution.placements = placements
  induction members generalizing placements with
  | nil => simp
  | cons i rest ih =>
      rw [List.foldl_cons, ih, Std.TreeMap.getElem?_insert]
      simp only [Std.LawfulEqCmp.compare_eq_iff_eq, List.exists_mem_cons_iff]
      by_cases hrest : ∃ i ∈ rest, (problem.bufferAt i).id = id
      · rw [if_pos hrest, if_pos (.inr hrest)]
      · rw [if_neg hrest]
        simp only [hrest, or_false]

/-- What the loop knows of the classes placed so far. -/
structure PlacedSoFar (problem : DsaProblem) (done : List ℕ) (state : PlacementState)
    (a : ℕ → Placement) : Prop where
  placed : state.placed = done.map fun k => ⟨k, (a k).pool, (a k).offset⟩
  find : ∀ i < problem.buffers.length, classOf problem i ∈ done →
    state.solution.find (problem.bufferAt i).id = some (a (classOf problem i))
  known : ∀ id placement, state.solution.find id = some placement →
    ∃ i < problem.buffers.length, (problem.bufferAt i).id = id
  pool : ∀ k ∈ done, (a k).pool = superPool ((prepare problem).superAt k)
  pinned : ∀ k ∈ done, ∀ pinned, ((prepare problem).superAt k).pinned = some pinned →
    (a k).offset = pinned.offset
  inRange : ∀ k ∈ done,
    (a k).offset.toNat + ((prepare problem).superAt k).size.toNat < 2 ^ 64
  free : ∀ k ∈ done, ((prepare problem).superAt k).pinned = none → ∃ pool,
    problem.findPool (a k).pool = some pool ∧
      Fits ⟨((prepare problem).superAt k).size, ((prepare problem).superAt k).alignment⟩
        pool.reservedRanges (a k).offset
  apart : ∀ k ∈ done, ∀ l ∈ done, k ≠ l → (((prepare problem).superAt k).pinned = none ∨
    ((prepare problem).superAt l).pinned = none) → (a k).pool = (a l).pool →
      supersBlock problem (prepare problem) k l = true →
        Apart (a k).offset.toNat ((prepare problem).superAt k).size.toNat (a l).offset.toNat
          ((prepare problem).superAt l).size.toNat

theorem placedSoFar_nil (a : ℕ → Placement) : PlacedSoFar problem [] {} a where
  placed := rfl
  find i _ h := by cases h
  known id placement h := by simp [DsaSolution.find] at h
  pool k h := by cases h
  pinned k h := by cases h
  inRange k h := by cases h
  free k h := by cases h
  apart k h := by cases h

/-- The offset of an unpinned class. -/
theorem chooseOffset_fits (h : PreparedOk problem) {strategy : PlacementStrategy}
    {placed : List PlacedSuper} {index : ℕ} (hindex : index < (prepare problem).supers.length)
    (hfree : ((prepare problem).superAt index).pinned = none) {offset : UInt64}
    (hchoose : chooseOffset problem (prepare problem) strategy placed index = .ok offset) :
    ∃ pool, problem.findPool (superPool ((prepare problem).superAt index)) = some pool ∧
      Fits ⟨((prepare problem).superAt index).size, ((prepare problem).superAt index).alignment⟩
        (blockedRanges problem (prepare problem) pool placed index) offset := by
  have halignment := (h.aligned index hindex).1
  unfold chooseOffset at hchoose
  dsimp only at hchoose
  cases hpool : problem.findPool (superPool ((prepare problem).superAt index)) with
  | none =>
      rw [hpool] at hchoose
      cases hchoose
  | some pool =>
      rw [hpool, hfree] at hchoose
      dsimp only at hchoose
      refine ⟨pool, rfl, ?_⟩
      split at hchoose
      · cases hchoose
      · rename_i found hfound
        obtain rfl := Except.ok.inj hchoose
        split_ifs at hfound
        · exact findBestFit_fits halignment hfound
        · exact findFirstFit_fits halignment hfound

/-- The offset of a pinned class. -/
theorem chooseOffset_pinned {strategy : PlacementStrategy} {placed : List PlacedSuper} {index : ℕ}
    {pinned : PinnedAllocation} (hpinned : ((prepare problem).superAt index).pinned = some pinned)
    {offset : UInt64}
    (hchoose : chooseOffset problem (prepare problem) strategy placed index = .ok offset) :
    offset = pinned.offset ∧
      offset.toNat + ((prepare problem).superAt index).size.toNat < 2 ^ 64 := by
  unfold chooseOffset at hchoose
  dsimp only at hchoose
  cases hpool : problem.findPool (superPool ((prepare problem).superAt index)) with
  | none =>
      rw [hpool] at hchoose
      cases hchoose
  | some pool =>
      rw [hpool, hpinned] at hchoose
      dsimp only at hchoose
      split_ifs at hchoose with hover
      obtain rfl := Except.ok.inj hchoose
      rw [Bool.not_eq_true, Theory.addOverflows_eq_false_iff] at hover
      exact ⟨rfl, hover⟩

/-- The step lemma. -/
theorem PlacedSoFar.step (h : PreparedOk problem) {strategy : PlacementStrategy} {done : List ℕ}
    {state : PlacementState} {a : ℕ → Placement} (hplaced : PlacedSoFar problem done state a)
    {index : ℕ} (hindex : index < (prepare problem).supers.length) (hnew : index ∉ done)
    (hfirst : ((prepare problem).superAt index).pinned.isSome = true →
      ∀ k ∈ done, ((prepare problem).superAt k).pinned.isSome = true)
    {offset : UInt64}
    (hchoose : chooseOffset problem (prepare problem) strategy state.placed index = .ok offset) :
    PlacedSoFar problem (done ++ [index])
      { placed := state.placed ++
          [⟨index, superPool ((prepare problem).superAt index), offset⟩]
        solution := placeMembers problem ((prepare problem).superAt index)
          ⟨superPool ((prepare problem).superAt index), offset⟩ state.solution }
      (Function.update a index ⟨superPool ((prepare problem).superAt index), offset⟩) := by
  have hself : Function.update a index ⟨superPool ((prepare problem).superAt index), offset⟩ index =
      ⟨superPool ((prepare problem).superAt index), offset⟩ := Function.update_self _ _ _
  have hother : ∀ k ∈ done, Function.update a index
      ⟨superPool ((prepare problem).superAt index), offset⟩ k = a k := by
    rintro k hk
    apply Function.update_of_ne
    rintro rfl
    exact hnew hk
  -- the new class against an earlier one
  have hclear : ((prepare problem).superAt index).pinned = none → ∀ k ∈ done,
      (a k).pool = superPool ((prepare problem).superAt index) →
        supersBlock problem (prepare problem) index k = true →
          Apart offset.toNat ((prepare problem).superAt index).size.toNat (a k).offset.toNat
            ((prepare problem).superAt k).size.toNat := by
    intro hfree k hk hpool hblock
    obtain ⟨pool, -, hfits⟩ := chooseOffset_fits h hindex hfree hchoose
    have hrange := hfits.clear ⟨(a k).offset, (a k).offset + ((prepare problem).superAt k).size⟩ (by
      unfold blockedRanges
      apply List.mem_append_right
      rw [List.mem_map]
      refine ⟨⟨k, (a k).pool, (a k).offset⟩, List.mem_filter.mpr ⟨?_, ?_⟩, rfl⟩
      · rw [hplaced.placed]
        exact List.mem_map.mpr ⟨k, hk, rfl⟩
      · rw [Bool.and_eq_true, beq_iff_eq]
        exact ⟨hpool, hblock⟩)
    dsimp only at hrange
    rwa [Theory.toNat_add_of_lt (hplaced.inRange k hk)] at hrange
  constructor
  · dsimp only
    rw [hplaced.placed, List.map_append, List.map_singleton, hself]
    congr 1
    exact List.map_congr_left fun k hk => by rw [hother k hk]
  · intro i hi hclass
    dsimp only
    rw [find_placeMembers]
    by_cases hc : classOf problem i = index
    · rw [if_pos ⟨i, (h.members index hindex i).mpr ⟨hi, hc⟩, rfl⟩, hc, hself]
    · rw [if_neg]
      · have hdone := (List.mem_append.mp hclass).resolve_right fun hmem =>
          hc (List.mem_singleton.mp hmem)
        rw [hplaced.find i hi hdone, hother _ hdone]
      · rintro ⟨j, hj, hid⟩
        obtain ⟨hjlt, hjc⟩ := (h.members index hindex j).mp hj
        rw [bufferAt_id_injective h.wellFormed.bufferIds hjlt hi hid] at hjc
        exact hc hjc
  · intro id placement hfind
    dsimp only at hfind
    rw [find_placeMembers] at hfind
    split_ifs at hfind with hmember
    · obtain ⟨i, hi, hid⟩ := hmember
      exact ⟨i, ((h.members index hindex i).mp hi).1, hid⟩
    · exact hplaced.known id placement hfind
  · intro k hk
    rcases List.mem_append.mp hk with hdone | hlast
    · rw [hother k hdone, hplaced.pool k hdone]
    · rw [List.mem_singleton.mp hlast, hself]
  · intro k hk pinned hpinned
    rcases List.mem_append.mp hk with hdone | hlast
    · rw [hother k hdone, hplaced.pinned k hdone pinned hpinned]
    · rw [List.mem_singleton.mp hlast] at hpinned ⊢
      rw [hself]
      exact (chooseOffset_pinned hpinned hchoose).1
  · intro k hk
    rcases List.mem_append.mp hk with hdone | hlast
    · rw [hother k hdone]
      exact hplaced.inRange k hdone
    · rw [List.mem_singleton.mp hlast, hself]
      cases hpin : ((prepare problem).superAt index).pinned with
      | none =>
          obtain ⟨pool, -, hfits⟩ := chooseOffset_fits h hindex hpin hchoose
          exact hfits.inRange
      | some pinned => exact (chooseOffset_pinned hpin hchoose).2
  · intro k hk hfree
    rcases List.mem_append.mp hk with hdone | hlast
    · rw [hother k hdone]
      exact hplaced.free k hdone hfree
    · rw [List.mem_singleton.mp hlast] at hfree ⊢
      rw [hself]
      obtain ⟨pool, hpool, hfits⟩ := chooseOffset_fits h hindex hfree hchoose
      exact ⟨pool, hpool, hfits.aligned, hfits.inRange, fun range hmem =>
        hfits.clear range (List.mem_append_left _ hmem)⟩
  · intro k hk l hl hne hfree hpool hblock
    rcases List.mem_append.mp hk with hkd | hkl
    · rcases List.mem_append.mp hl with hld | hll
      · rw [hother k hkd, hother l hld] at hpool ⊢
        exact hplaced.apart k hkd l hld hne hfree hpool hblock
      · rw [List.mem_singleton.mp hll] at hfree hpool hblock ⊢
        rw [hother k hkd, hself] at hpool ⊢
        rw [supersBlock_comm] at hblock
        have hnone : ((prepare problem).superAt index).pinned = none := by
          rcases hfree with hnone | hnone
          · by_contra hsome
            have := hfirst (Option.ne_none_iff_isSome.mp hsome) k hkd
            rw [hnone] at this
            cases this
          · exact hnone
        exact (hclear hnone k hkd hpool hblock).symm
    · rcases List.mem_append.mp hl with hld | hll
      · rw [List.mem_singleton.mp hkl] at hfree hpool hblock ⊢
        rw [hother l hld, hself] at hpool ⊢
        have hnone : ((prepare problem).superAt index).pinned = none := by
          rcases hfree with hnone | hnone
          · exact hnone
          · by_contra hsome
            have := hfirst (Option.ne_none_iff_isSome.mp hsome) l hld
            rw [hnone] at this
            cases this
        exact hclear hnone l hld hpool.symm hblock
      · rw [List.mem_singleton.mp hkl, List.mem_singleton.mp hll] at hne
        exact absurd rfl hne

/-! ### The loop -/

/-- The run lemma. -/
theorem PlacedSoFar.run (h : PreparedOk problem) {strategy : PlacementStrategy} {rest : List ℕ}
    {done : List ℕ} {state final : PlacementState} {a : ℕ → Placement}
    (hplaced : PlacedSoFar problem done state a)
    (hlt : ∀ k ∈ rest, k < (prepare problem).supers.length) (hnodup : (done ++ rest).Nodup)
    (hpinned : (done ++ rest).Pairwise fun first second =>
      ((prepare problem).superAt second).pinned.isSome = true →
        ((prepare problem).superAt first).pinned.isSome = true)
    (hrun : placeAll problem (prepare problem) strategy rest state = .ok final) :
    ∃ b, PlacedSoFar problem (done ++ rest) final b := by
  induction rest generalizing done state a with
  | nil =>
      obtain rfl := Except.ok.inj hrun
      rw [List.append_nil]
      exact ⟨a, hplaced⟩
  | cons index rest ih =>
      have hsplit : done ++ index :: rest = (done ++ [index]) ++ rest := by simp
      unfold placeAll at hrun
      cases hchoose : chooseOffset problem (prepare problem) strategy state.placed index with
      | error e =>
          rw [hchoose] at hrun
          cases hrun
      | ok offset =>
          rw [hchoose] at hrun
          have hnew : index ∉ done := by
            have := (List.nodup_append.mp hnodup).2.2
            exact fun hmem => this index hmem index List.mem_cons_self rfl
          have hnext := hplaced.step h (hlt index List.mem_cons_self) hnew (fun hsome k hk =>
            (List.pairwise_append.mp hpinned).2.2 k hk index List.mem_cons_self hsome) hchoose
          rw [hsplit] at hnodup hpinned ⊢
          exact ih hnext (fun k hk => hlt k (List.mem_cons_of_mem _ hk)) hnodup hpinned hrun

theorem mem_placementOrder {prepared : PreparedProblem} {priority : List BufferId}
    {strategy : PlacementStrategy} {k : ℕ} :
    k ∈ placementOrder prepared priority strategy ↔ k < prepared.supers.length := by
  rw [(placementOrder_perm prepared priority strategy).mem_iff, List.mem_range]

/-- A loop that ends has placed every class. -/
theorem exists_placedSoFar (h : PreparedOk problem) {priority : List BufferId}
    {strategy : PlacementStrategy} {final : PlacementState}
    (hrun : placeAll problem (prepare problem) strategy
      (placementOrder (prepare problem) priority strategy) {} = .ok final) :
    ∃ a, PlacedSoFar problem (placementOrder (prepare problem) priority strategy) final a := by
  have hnodup : (placementOrder (prepare problem) priority strategy).Nodup :=
    (placementOrder_perm _ _ _).nodup_iff.mpr List.nodup_range
  exact (placedSoFar_nil fun _ => {}).run h (fun k => mem_placementOrder.mp) hnodup
    (placementOrder_pinned _ _ _) hrun

/-! ### What is left to the pins -/

/-- The constraints on the pinned classes alone. -/
structure PinsOk (problem : DsaProblem) (a : ℕ → Placement) : Prop where
  allowed : ∀ k < (prepare problem).supers.length,
    ((prepare problem).superAt k).pinned.isSome = true →
      (a k).pool ∈ ((prepare problem).superAt k).allowedPools
  aligned : ∀ k < (prepare problem).supers.length,
    ((prepare problem).superAt k).pinned.isSome = true →
      ((prepare problem).superAt k).alignment.toNat ∣ (a k).offset.toNat
  fits : ∀ k < (prepare problem).supers.length,
    ((prepare problem).superAt k).pinned.isSome = true →
      ∃ pool, problem.findPool (a k).pool = some pool ∧
        PoolFits pool (a k).offset.toNat ((prepare problem).superAt k).size.toNat
  apart : ∀ k < (prepare problem).supers.length, ∀ l < (prepare problem).supers.length, k ≠ l →
    ((prepare problem).superAt k).pinned.isSome = true →
      ((prepare problem).superAt l).pinned.isSome = true → (a k).pool = (a l).pool →
        supersBlock problem (prepare problem) k l = true →
          Apart (a k).offset.toNat ((prepare problem).superAt k).size.toNat (a l).offset.toNat
            ((prepare problem).superAt l).size.toNat

/-- Two placements with the same pins. -/
theorem ClassPlacementOk.pinsOk {a b : ℕ → Placement} (hb : ClassPlacementOk problem b)
    (heq : ∀ k < (prepare problem).supers.length, ∀ pinned,
      ((prepare problem).superAt k).pinned = some pinned → a k = ⟨pinned.pool, pinned.offset⟩) :
    PinsOk problem a := by
  have hsame : ∀ k < (prepare problem).supers.length,
      ((prepare problem).superAt k).pinned.isSome = true → a k = b k := by
    intro k hk hsome
    obtain ⟨pinned, hpinned⟩ := Option.isSome_iff_exists.mp hsome
    rw [heq k hk pinned hpinned, hb.pinned k hk pinned hpinned]
  constructor
  · intro k hk hsome
    rw [hsame k hk hsome]
    exact hb.allowed k hk
  · intro k hk hsome
    rw [hsame k hk hsome]
    exact hb.aligned k hk
  · intro k hk hsome
    rw [hsame k hk hsome]
    exact hb.fits k hk
  · intro k hk l hl hne hsomek hsomel
    rw [hsame k hk hsomek, hsame l hl hsomel]
    exact hb.apart k hk l hl hne

theorem prepare_withoutCaps_ok (h : (prepare problem).errors = []) :
    PreparedOk (withoutCaps problem) :=
  prepare_ok (by rwa [prepare_withoutCaps (validateProblem_of_prepare h)])

section done

variable {done : List ℕ} {state : PlacementState} {a : ℕ → Placement}

theorem PlacedSoFar.places (h : (prepare problem).errors = [])
    (hplaced : PlacedSoFar problem done state a)
    (hall : ∀ k < (prepare problem).supers.length, k ∈ done) :
    Places (withoutCaps problem) a state.solution where
  find i hi := by
    have hclass : classOf (withoutCaps problem) i = classOf problem i := by
      unfold classOf
      rw [prepare_withoutCaps (validateProblem_of_prepare h)]
      rfl
    rw [hclass]
    exact hplaced.find i hi (hall _ ((prepare_ok h).classOf_lt i hi))
  known := hplaced.known

/-- A pinned class has the placement of its pin. -/
theorem PlacedSoFar.pin_eq (hplaced : PlacedSoFar problem done state a) {k : ℕ} (hk : k ∈ done)
    {pinned : PinnedAllocation} (hpinned : ((prepare problem).superAt k).pinned = some pinned) :
    a k = ⟨pinned.pool, pinned.offset⟩ := by
  have hpool : (a k).pool = pinned.pool := by
    rw [hplaced.pool k hk, superPool, hpinned]
  rw [← hpool, ← hplaced.pinned k hk pinned hpinned]

/-- Only the pins can violate a constraint that is not a capacity. -/
theorem PlacedSoFar.classPlacementOk (h : (prepare problem).errors = [])
    (hplaced : PlacedSoFar problem done state a)
    (hall : ∀ k < (prepare problem).supers.length, k ∈ done)
    (hpins : PinsOk (withoutCaps problem) a) : ClassPlacementOk (withoutCaps problem) a := by
  have hprepare := prepare_withoutCaps (validateProblem_of_prepare h)
  have hok := prepare_ok h
  obtain ⟨hallowed, haligned, hfits, hapart⟩ := hpins
  rw [hprepare] at hallowed haligned hfits hapart
  have hcases : ∀ k, ((prepare problem).superAt k).pinned = none ∨
      ((prepare problem).superAt k).pinned.isSome = true := by
    intro k
    cases ((prepare problem).superAt k).pinned with
    | none => exact .inl rfl
    | some pinned => exact .inr rfl
  constructor
  · rw [hprepare]
    intro k hk
    rcases hcases k with hfree | hsome
    · rw [hplaced.pool k (hall k hk), superPool, hfree]
      have hne := hok.allowedNe k hk
      dsimp only
      cases hpools : ((prepare problem).superAt k).allowedPools with
      | nil => exact absurd hpools hne
      | cons pool rest => exact List.mem_cons_self
    · exact hallowed k hk hsome
  · rw [hprepare]
    intro k hk
    rcases hcases k with hfree | hsome
    · obtain ⟨pool, -, hfit⟩ := hplaced.free k (hall k hk) hfree
      exact hfit.aligned
    · exact haligned k hk hsome
  · rw [hprepare]
    intro k hk
    rcases hcases k with hfree | hsome
    · obtain ⟨pool, hpool, hfit⟩ := hplaced.free k (hall k hk) hfree
      refine ⟨{ pool with capacity := none }, ?_, ?_, hfit.clear⟩
      · rw [findPool_withoutCaps, hpool]
        rfl
      · have := hfit.inRange
        dsimp only at this
        rw [Option.getD_none, toNat_maxU64]
        omega
    · exact hfits k hk hsome
  · rw [hprepare]
    intro k hk l hl hne hpool hblock
    rcases hcases k with hfree | hsomek
    · exact hplaced.apart k (hall k hk) l (hall l hl) hne (.inl hfree) hpool hblock
    · rcases hcases l with hfree | hsomel
      · exact hplaced.apart k (hall k hk) l (hall l hl) hne (.inr hfree) hpool hblock
      · exact hapart k hk l hl hne hsomek hsomel hpool hblock
  · rw [hprepare]
    intro k hk pinned hpinned
    exact hplaced.pin_eq (hall k hk) hpinned

/-- When some placement is valid without the capacities, so is this one. -/
theorem PlacedSoFar.valid (h : (prepare problem).errors = [])
    (hplaced : PlacedSoFar problem done state a)
    (hall : ∀ k < (prepare problem).supers.length, k ∈ done) {solution : DsaSolution}
    (hsolution : validateSolution (withoutCaps problem) solution = []) :
    validateSolution (withoutCaps problem) state.solution = [] := by
  have hok := prepare_withoutCaps_ok h
  obtain ⟨hvalid, hsolutionOk⟩ := (validateSolution_eq_nil_iff _ _).mp hsolution
  obtain ⟨b, hb⟩ := hsolutionOk.exists_places hok
  refine (validateSolution_eq_nil_iff _ _).mpr ⟨hvalid, ?_⟩
  rw [solutionOk_iff hok (hplaced.places h hall)]
  apply hplaced.classPlacementOk h hall
  apply ((solutionOk_iff hok hb).mp hsolutionOk).pinsOk
  rw [prepare_withoutCaps (validateProblem_of_prepare h)]
  intro k hk pinned hpinned
  exact hplaced.pin_eq (hall k hk) hpinned

end done

/-! ### Capacities -/

/-- The capacities hold when no peak exceeds them. -/
theorem validateSolution_of_peaks {solution : DsaSolution} (h : validateProblem problem = [])
    (hfree : validateSolution (withoutCaps problem) solution = [])
    (hcaps : ∀ pool ∈ problem.pools,
      overCapacityMessages (evaluateObjective problem solution) pool = []) :
    validateSolution problem solution = [] := by
  obtain ⟨-, hknown, hplaced, hcolocated, hlifetimes, hseparated, hpinned⟩ :=
    (validateSolution_eq_nil_iff _ _).mp hfree
  refine (validateSolution_eq_nil_iff _ _).mpr ⟨h, fun id placement hfind => ?_,
    fun buffer hbuffer => ?_, hcolocated, hlifetimes, hseparated, hpinned⟩
  · obtain ⟨hbuffer, hpool⟩ := hknown id placement hfind
    rw [findPool_withoutCaps, Option.isSome_map] at hpool
    exact ⟨hbuffer, hpool⟩
  · obtain ⟨placement, hfind, hallowed, haligned, hover, haddress⟩ := hplaced buffer hbuffer
    refine ⟨placement, hfind, hallowed, haligned, hover, fun pool hpool => ?_⟩
    have hranges := haddress { pool with capacity := none } (by
      rw [findPool_withoutCaps, hpool]
      rfl)
    unfold poolAddressErrors at hranges ⊢
    rw [List.append_eq_nil_iff] at hranges ⊢
    refine ⟨?_, hranges.2⟩
    -- the end of the buffer is at most the peak of its pool
    rw [errorIf_eq_nil]
    cases hcapacity : pool.capacity with
    | none => rfl
    | some capacity =>
        have hend := end_le_peak hbuffer hfind hover
        have hcap := hcaps pool (findPool_mem hpool)
        have hid := findPool_id hpool
        unfold overCapacityMessages at hcap
        rw [hcapacity, hid] at hcap
        unfold ObjectiveValue.peak at hend
        rw [Std.TreeMap.getD_eq_getD_getElem?] at hend
        rw [exceedsCapacity, decide_eq_false_iff_not, gt_iff_lt, not_lt]
        cases hpeak : (evaluateObjective problem solution).peakByPool[placement.pool]? with
        | none =>
            rw [hpeak, Option.getD_none] at hend
            exact hend.trans (UInt64.le_iff_toNat_le.mpr (Nat.zero_le _))
        | some peak =>
            rw [hpeak] at hcap hend
            dsimp only at hcap
            rw [errorIf_eq_nil, decide_eq_false_iff_not, gt_iff_lt, not_lt] at hcap
            exact hend.trans hcap

/-! ### The routine -/

/-- The loop fails for want of room, for an unknown pool, or at a pin. -/
theorem chooseOffset_error {strategy : PlacementStrategy} {placed : List PlacedSuper} {index : ℕ}
    {e : SolveStatus × String}
    (hchoose : chooseOffset problem (prepare problem) strategy placed index = .error e) :
    e.1 = .bestEffortNoFit ∨ e.1 = .invalidProblem ∧
      (((prepare problem).superAt index).pinned = none →
        problem.findPool (superPool ((prepare problem).superAt index)) = none) := by
  unfold chooseOffset at hchoose
  dsimp only at hchoose
  cases hpool : problem.findPool (superPool ((prepare problem).superAt index)) with
  | none =>
      rw [hpool] at hchoose
      obtain rfl := Except.error.inj hchoose
      exact .inr ⟨rfl, fun _ => rfl⟩
  | some pool =>
      rw [hpool] at hchoose
      cases hpinned : ((prepare problem).superAt index).pinned with
      | some pinned =>
          rw [hpinned] at hchoose
          dsimp only at hchoose
          split_ifs at hchoose with hover
          obtain rfl := Except.error.inj hchoose
          exact .inr ⟨rfl, fun hnone => by cases hnone⟩
      | none =>
          rw [hpinned] at hchoose
          dsimp only at hchoose
          split at hchoose
          · obtain rfl := Except.error.inj hchoose
            exact .inl rfl
          · cases hchoose

theorem placeAll_error {strategy : PlacementStrategy} {rest : List ℕ} {state : PlacementState}
    {e : SolveStatus × String}
    (hrun : placeAll problem (prepare problem) strategy rest state = .error e) :
    ∃ index ∈ rest, ∃ placed,
      chooseOffset problem (prepare problem) strategy placed index = .error e := by
  induction rest generalizing state with
  | nil => cases hrun
  | cons index rest ih =>
      unfold placeAll at hrun
      cases hchoose : chooseOffset problem (prepare problem) strategy state.placed index with
      | error other =>
          rw [hchoose] at hrun
          obtain rfl := Except.error.inj hrun
          exact ⟨index, List.mem_cons_self, state.placed, hchoose⟩
      | ok offset =>
          rw [hchoose] at hrun
          obtain ⟨k, hk, hfail⟩ := ih hrun
          exact ⟨k, List.mem_cons_of_mem _ hk, hfail⟩

/-- What the routine returns, by the point it ends at. -/
theorem placeWithOrder_cases (problem : DsaProblem) (priority : List BufferId)
    (strategy : PlacementStrategy) :
    (∃ diagnostics, (prepare problem).errors ≠ [] ∧ placeWithOrder problem priority strategy =
      { status := .invalidProblem, diagnostics := diagnostics }) ∨
    (∃ diagnostics, (prepare problem).flexiblePools = true ∧
      placeWithOrder problem priority strategy =
        { status := .unsupported, diagnostics := diagnostics }) ∨
    (∃ index < (prepare problem).supers.length, ∃ placed e, (prepare problem).errors = [] ∧
      chooseOffset problem (prepare problem) strategy placed index = .error e ∧
        placeWithOrder problem priority strategy = { status := e.1, diagnostics := [e.2] }) ∨
    ∃ a state, (prepare problem).errors = [] ∧
      PlacedSoFar problem (placementOrder (prepare problem) priority strategy) state a ∧
        placeWithOrder problem priority strategy = finishPlacement problem state.solution := by
  unfold placeWithOrder
  dsimp only
  split_ifs with herrors hflexible
  · exact .inl ⟨_, herrors, rfl⟩
  · exact .inr (.inl ⟨_, hflexible, rfl⟩)
  · rw [ne_eq, not_not] at herrors
    cases hrun : placeAll problem (prepare problem) strategy
        (placementOrder (prepare problem) priority strategy) {} with
    | error e =>
        obtain ⟨index, hindex, placed, hfail⟩ := placeAll_error hrun
        exact .inr (.inr (.inl ⟨index, mem_placementOrder.mp hindex, placed, e, herrors, hfail,
          rfl⟩))
    | ok state =>
        obtain ⟨a, ha⟩ := exists_placedSoFar (prepare_ok herrors) hrun
        exact .inr (.inr (.inr ⟨a, state, herrors, ha, rfl⟩))

/-- What the checks after the loop decide. -/
theorem finishPlacement_cases (problem : DsaProblem) (solution : DsaSolution) :
    (finishPlacement problem solution).solution = some solution ∧
      (finishPlacement problem solution).objective = evaluateObjective problem solution ∧
    ((finishPlacement problem solution).status = .infeasibleProven ∧
        validateSolution (withoutCaps problem) solution ≠ [] ∨
      (finishPlacement problem solution).status = .bestEffortNoFit ∧
        validateSolution (withoutCaps problem) solution = [] ∨
      (finishPlacement problem solution).status = .feasible ∧
        validateSolution (withoutCaps problem) solution = [] ∧
          ∀ pool ∈ problem.pools,
            overCapacityMessages (evaluateObjective problem solution) pool = []) := by
  unfold finishPlacement
  dsimp only
  split_ifs with hstructural hover
  · exact ⟨rfl, rfl, .inl ⟨rfl, hstructural⟩⟩
  · rw [ne_eq, not_not] at hstructural
    exact ⟨rfl, rfl, .inr (.inl ⟨rfl, hstructural⟩)⟩
  · rw [ne_eq, not_not] at hstructural hover
    exact ⟨rfl, rfl, .inr (.inr ⟨rfl, hstructural, List.flatMap_eq_nil_iff.mp hover⟩)⟩

section routine

variable {priority : List BufferId} {strategy : PlacementStrategy}

theorem placeWithOrder_feasible
    (h : (placeWithOrder problem priority strategy).status = .feasible) :
    ∃ solution, (placeWithOrder problem priority strategy).solution = some solution ∧
      validateSolution problem solution = [] ∧
        (placeWithOrder problem priority strategy).objective =
          evaluateObjective problem solution := by
  obtain ⟨diagnostics, -, heq⟩ | ⟨diagnostics, -, heq⟩ | ⟨index, -, placed, e, -, hfail, heq⟩ |
      ⟨a, state, herrors, hplaced, heq⟩ := placeWithOrder_cases problem priority strategy
  · rw [heq] at h
    cases h
  · rw [heq] at h
    cases h
  · rw [heq] at h
    obtain he | ⟨he, -⟩ := chooseOffset_error hfail
    all_goals rw [he] at h; cases h
  · rw [heq] at h ⊢
    obtain ⟨hsolution, hobjective, hcases⟩ := finishPlacement_cases problem state.solution
    obtain ⟨hstatus, -⟩ | ⟨hstatus, -⟩ | ⟨-, hvalid, hcaps⟩ := hcases
    · rw [hstatus] at h
      cases h
    · rw [hstatus] at h
      cases h
    · exact ⟨state.solution, hsolution,
        validateSolution_of_peaks (validateProblem_of_prepare herrors) hvalid hcaps, hobjective⟩

theorem placeWithOrder_noFit
    (h : (placeWithOrder problem priority strategy).status = .bestEffortNoFit)
    {solution : DsaSolution}
    (hsolution : (placeWithOrder problem priority strategy).solution = some solution) :
    validateSolution (withoutCaps problem) solution = [] := by
  obtain ⟨diagnostics, -, heq⟩ | ⟨diagnostics, -, heq⟩ | ⟨index, -, placed, e, -, hfail, heq⟩ |
      ⟨a, state, herrors, hplaced, heq⟩ := placeWithOrder_cases problem priority strategy
  · rw [heq] at hsolution
    cases hsolution
  · rw [heq] at hsolution
    cases hsolution
  · rw [heq] at hsolution
    cases hsolution
  · rw [heq] at h hsolution
    obtain ⟨hfinal, -, hcases⟩ := finishPlacement_cases problem state.solution
    rw [hfinal] at hsolution
    obtain rfl := Option.some.inj hsolution
    obtain ⟨hstatus, -⟩ | ⟨-, hvalid⟩ | ⟨hstatus, -⟩ := hcases
    · rw [hstatus] at h
      cases h
    · exact hvalid
    · rw [hstatus] at h
      cases h

theorem placeWithOrder_infeasible
    (h : (placeWithOrder problem priority strategy).status = .infeasibleProven)
    (solution : DsaSolution) : validateSolution (withoutCaps problem) solution ≠ [] := by
  obtain ⟨diagnostics, -, heq⟩ | ⟨diagnostics, -, heq⟩ | ⟨index, -, placed, e, -, hfail, heq⟩ |
      ⟨a, state, herrors, hplaced, heq⟩ := placeWithOrder_cases problem priority strategy
  · rw [heq] at h
    cases h
  · rw [heq] at h
    cases h
  · rw [heq] at h
    obtain he | ⟨he, -⟩ := chooseOffset_error hfail
    all_goals rw [he] at h; cases h
  · rw [heq] at h
    obtain ⟨-, -, hcases⟩ := finishPlacement_cases problem state.solution
    obtain ⟨-, hinvalid⟩ | ⟨hstatus, -⟩ | ⟨hstatus, -⟩ := hcases
    · intro hvalid
      exact hinvalid (hplaced.valid herrors (fun k => mem_placementOrder.mpr) hvalid)
    · rw [hstatus] at h
      cases h
    · rw [hstatus] at h
      cases h

end routine

/-- **Soundness of the placement engine.** -/
theorem placeWithOrder_sound (problem : DsaProblem) (priority : List BufferId)
    (strategy : PlacementStrategy) :
    ((placeWithOrder problem priority strategy).status = .feasible →
      ∃ solution, (placeWithOrder problem priority strategy).solution = some solution ∧
        validateSolution problem solution = []) ∧
    ((placeWithOrder problem priority strategy).status = .bestEffortNoFit →
      ∀ solution, (placeWithOrder problem priority strategy).solution = some solution →
        validateSolution (withoutCaps problem) solution = []) ∧
    ((placeWithOrder problem priority strategy).status = .infeasibleProven →
      ∀ solution, validateSolution (withoutCaps problem) solution ≠ []) := by
  refine ⟨fun h => ?_, fun h _ => placeWithOrder_noFit h, placeWithOrder_infeasible⟩
  obtain ⟨solution, hsolution, hvalid, -⟩ := placeWithOrder_feasible h
  exact ⟨solution, hsolution, hvalid⟩

end Dsa
