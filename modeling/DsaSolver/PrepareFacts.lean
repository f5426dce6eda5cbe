import DsaSolver.PlacementEngine
import DsaSolver.ValidatorFacts
import Mathlib.Data.List.TakeWhile

/-! # What an error-free preparation says

The loop over the buffers keeps the invariant `Gathered`: the classes built so far are the
classes of the buffers seen so far, each with its merged size, alignment and pools.  The later
loops only add pins and separations.  `prepare_ok` collects the result in `PreparedOk`, in terms
of `classOf`, the class of a buffer index. -/

namespace Dsa

theorem leastCommonMultiple_eq_some {first second result : UInt64} (h1 : first ≠ 0)
    (h2 : second ≠ 0) (h : leastCommonMultiple first second = some result) :
    result.toNat = Nat.lcm first.toNat second.toNat := by
  have p1 : 0 < first.toNat := by
    rw [Nat.pos_iff_ne_zero]
    exact fun e => h1 (UInt64.toNat_inj.mp e)
  have p2 : 0 < second.toNat := by
    rw [Nat.pos_iff_ne_zero]
    exact fun e => h2 (UInt64.toNat_inj.mp e)
  have hg : (UInt64.ofNat (Nat.gcd first.toNat second.toNat)).toNat =
      Nat.gcd first.toNat second.toNat := by
    have := Nat.gcd_le_left second.toNat p1
    have := first.toNat_lt
    rw [UInt64.toNat_ofNat']
    exact Nat.mod_eq_of_lt (by omega)
  unfold leastCommonMultiple at h
  dsimp only at h
  split_ifs at h with hc
  rw [Option.some.injEq] at h
  rw [gt_iff_lt, UInt64.lt_iff_toNat_lt, not_lt, UInt64.toNat_div, UInt64.toNat_div, hg,
    Nat.le_div_iff_mul_le p2] at hc
  have hmax : maxU64.toNat = 2 ^ 64 - 1 := rfl
  rw [← h, UInt64.toNat_mul, UInt64.toNat_div, hg, Nat.mod_eq_of_lt (by omega), Nat.lcm_eq_mul_div,
    Nat.div_mul_right_comm (Nat.gcd_dvd_left _ _)]

/-! ### The classes -/

/-- The merged data of a class against its members. -/
structure Covers (problem : DsaProblem) (super : SuperBuffer) : Prop where
  membersNe : super.members ≠ []
  sizeGe : ∀ member ∈ super.members, (problem.bufferAt member).size ≤ super.size
  sizeMem : ∃ member ∈ super.members, super.size = (problem.bufferAt member).size
  representativeMem : ∃ member ∈ super.members, super.representative = (problem.bufferAt member).id
  allowed : ∀ pool, pool ∈ super.allowedPools ↔
    ∀ member ∈ super.members, pool ∈ (problem.bufferAt member).allowedPools

/-- The merged alignment is the least common multiple of those of the members. -/
def Aligned (problem : DsaProblem) (super : SuperBuffer) : Prop :=
  super.alignment ≠ 0 ∧ ∀ x : ℕ, super.alignment.toNat ∣ x ↔
    ∀ member ∈ super.members, (problem.bufferAt member).alignment.toNat ∣ x

theorem mem_setIntersection {first second : List PoolId} (h1 : first.Pairwise (· ≤ ·))
    (h2 : second.Pairwise (· ≤ ·)) (pool : PoolId) :
    pool ∈ setIntersection first second ↔ pool ∈ first ∧ pool ∈ second := by
  induction first generalizing second with
  | nil => simp [setIntersection]
  | cons a rest ih =>
      obtain ⟨ha, hrest⟩ := List.pairwise_cons.mp h1
      have hsub := List.dropWhile_sublist (l := second) (fun b => decide (b < a))
      have hsorted := h2.sublist hsub
      -- what the scan skips is below `a`, hence below every element of the first range
      have hskip : ∀ x, x ∈ second ↔
          x ∈ second.takeWhile (fun b => decide (b < a)) ∨
            x ∈ second.dropWhile (fun b => decide (b < a)) := by
        intro x
        rw [← List.mem_append, List.takeWhile_append_dropWhile]
      have hlow : ∀ x ∈ second.takeWhile (fun b => decide (b < a)), x < a := fun x hx => by
        simpa using List.mem_takeWhile_imp hx
      unfold setIntersection
      cases hd : second.dropWhile (fun b => decide (b < a)) with
      | nil =>
          simp only [List.not_mem_nil, false_iff, not_and]
          intro hx hx2
          rw [hskip, hd] at hx2
          have hlt := hlow pool (by simpa using hx2)
          rcases List.mem_cons.mp hx with rfl | hx
          · exact absurd hlt (lt_irrefl _)
          · exact absurd (lt_of_lt_of_le hlt (ha _ hx)) (lt_irrefl _)
      | cons b secondRest =>
          rw [hd] at hsorted
          obtain ⟨hb, hsecondRest⟩ := List.pairwise_cons.mp hsorted
          have hba : ¬ b < a := by
            have := List.head?_dropWhile_not (fun b => decide (b < a)) second
            simpa [hd] using this
          have hge : ∀ x ∈ second, a ≤ x → x ∈ b :: secondRest := by
            intro x hx hax
            rw [hskip, hd] at hx
            exact hx.resolve_left fun hx => absurd (lt_of_lt_of_le (hlow x hx) hax) (lt_irrefl _)
          have hmem : ∀ x ∈ b :: secondRest, x ∈ second := fun x hx => by
            rw [← hd] at hx
            exact hsub.subset hx
          dsimp only
          split_ifs with hab
          · rw [ih hrest hsorted]
            constructor
            · exact fun ⟨hx, hx2⟩ => ⟨List.mem_cons_of_mem a hx, hmem _ hx2⟩
            · rintro ⟨hx, hx2⟩
              rcases List.mem_cons.mp hx with rfl | hx
              · have hle : b ≤ pool := by
                  exact absurd (hge pool hx2 le_rfl) fun hx => by
                    rcases List.mem_cons.mp hx with rfl | hx
                    · exact absurd hab (lt_irrefl _)
                    · exact absurd (lt_of_lt_of_le hab (hb _ hx)) (lt_irrefl _)
                exact absurd (lt_of_lt_of_le hab hle) (lt_irrefl _)
              · exact ⟨hx, hge pool hx2 (ha _ hx)⟩
          · have e : a = b := le_antisymm (not_lt.mp hba) (not_lt.mp hab)
            subst e
            rw [List.mem_cons, ih hrest hsecondRest]
            constructor
            · rintro (rfl | ⟨hx, hx2⟩)
              · exact ⟨List.mem_cons_self, hmem _ List.mem_cons_self⟩
              · exact ⟨List.mem_cons_of_mem a hx, hmem _ (List.mem_cons_of_mem a hx2)⟩
            · rintro ⟨hx, hx2⟩
              rcases List.mem_cons.mp hx with rfl | hx
              · exact .inl rfl
              · rcases List.mem_cons.mp (hge pool hx2 (ha _ hx)) with rfl | hx2
                · exact .inl rfl
                · exact .inr ⟨hx, hx2⟩

theorem mem_intersectPools {first second : List PoolId} (pool : PoolId) :
    pool ∈ intersectPools first second ↔ pool ∈ first ∧ pool ∈ second := by
  unfold intersectPools
  rw [mem_setIntersection (List.pairwise_insertionSort _ first)
    (List.pairwise_insertionSort _ second), List.mem_insertionSort, List.mem_insertionSort]

section merge

variable {problem : DsaProblem} {i : ℕ}

theorem covers_newSuper (problem : DsaProblem) (root i : ℕ) :
    Covers problem (mergeMember problem true i (newSuper problem root i)) where
  membersNe := by simp [mergeMember]
  sizeGe := by
    simp only [mergeMember, newSuper, List.nil_append, List.mem_singleton, forall_eq]
    exact le_max_right _ _
  sizeMem := by
    refine ⟨i, by simp [mergeMember, newSuper], ?_⟩
    exact max_eq_right (Nat.zero_le _)
  representativeMem := ⟨i, by simp [mergeMember, newSuper], min_self _⟩
  allowed pool := by simp [mergeMember, newSuper]

theorem Covers.merge {super : SuperBuffer} (h : Covers problem super) :
    Covers problem (mergeMember problem false i super) where
  membersNe := by simp [mergeMember]
  sizeGe := by
    simp only [mergeMember, List.mem_append, List.mem_singleton]
    rintro m (hm | rfl)
    · exact (h.sizeGe m hm).trans (le_max_left _ _)
    · exact le_max_right _ _
  sizeMem := by
    obtain ⟨m, hm, e⟩ := h.sizeMem
    rcases le_total super.size (problem.bufferAt i).size with hle | hle
    · exact ⟨i, by simp [mergeMember], max_eq_right hle⟩
    · exact ⟨m, by simp [mergeMember, hm], (max_eq_left hle).trans e⟩
  representativeMem := by
    obtain ⟨m, hm, e⟩ := h.representativeMem
    rcases le_total super.representative (problem.bufferAt i).id with hle | hle
    · exact ⟨m, by simp [mergeMember, hm], (min_eq_left hle).trans e⟩
    · exact ⟨i, by simp [mergeMember], min_eq_right hle⟩
  allowed pool := by
    simp only [mergeMember, Bool.false_eq_true, if_false, mem_intersectPools, h.allowed,
      List.mem_append, List.mem_singleton]
    constructor
    · rintro ⟨hold, hnew⟩ m (hm | rfl)
      · exact hold m hm
      · exact hnew
    · exact fun hall => ⟨fun m hm => hall m (.inl hm), hall i (.inr rfl)⟩

/-- A merge without an alignment error keeps the alignment the least common multiple. -/
theorem Aligned.merge {super : SuperBuffer} {inserted : Bool} (h : Aligned problem super)
    (hi : (problem.bufferAt i).alignment ≠ 0) (he : mergeErrors problem i super = []) :
    Aligned problem (mergeMember problem inserted i super) := by
  rw [mergeErrors, errorIf_eq_nil, Option.isNone_eq_false_iff, Option.isSome_iff_exists] at he
  obtain ⟨result, hr⟩ := he
  have hlcm := leastCommonMultiple_eq_some h.1 hi hr
  have hpos : ∀ {a : UInt64}, a ≠ 0 → a.toNat ≠ 0 := fun ha e => ha (UInt64.toNat_inj.mp e)
  have e : (mergeMember problem inserted i super).alignment = result := by
    simp [mergeMember, hr]
  refine ⟨fun e0 => ?_, fun x => ?_⟩
  · rw [e] at e0
    subst e0
    exact Nat.lcm_ne_zero (hpos h.1) (hpos hi) (by rw [← hlcm]; rfl)
  · rw [e, hlcm, Nat.lcm_dvd_iff, h.2]
    simp only [mergeMember, List.mem_append, List.mem_singleton]
    constructor
    · rintro ⟨hold, hnew⟩ m (hm | rfl)
      · exact hold m hm
      · exact hnew
    · exact fun hall => ⟨fun m hm => hall m (.inl hm), hall i (.inr rfl)⟩

theorem aligned_newSuper (problem : DsaProblem) (root i : ℕ) :
    Aligned problem (newSuper problem root i) := by
  refine ⟨(by decide : (1 : UInt64) ≠ 0), fun x => ?_⟩
  simp [newSuper]

end merge

/-! ### The loop over the buffers -/

/-- The state after the first `count` buffers. -/
structure Gathered (problem : DsaProblem) (count : ℕ) (state : List SuperBuffer × List String) :
    Prop where
  covers : ∀ (k : ℕ) (super : SuperBuffer), state.1[k]? = some super → Covers problem super
  members : ∀ (k : ℕ) (super : SuperBuffer), state.1[k]? = some super → super.members =
    (List.range count).filter fun i => (colocationSets problem).root i == super.root
  distinct : ∀ (k l : ℕ) (first second : SuperBuffer), state.1[k]? = some first → state.1[l]? = some second →
    first.root = second.root → k = l
  complete : ∀ i < count, ∃ (k : ℕ) (super : SuperBuffer), state.1[k]? = some super ∧
    super.root = (colocationSets problem).root i
  aligned : state.2 = [] → ∀ (k : ℕ) (super : SuperBuffer), state.1[k]? = some super →
    Aligned problem super
  unpinned : ∀ (k : ℕ) (super : SuperBuffer), state.1[k]? = some super →
    super.pinned = none ∧ super.pinnedExclusive = false

theorem filter_range_succ (count : ℕ) (p : ℕ → Bool) :
    (List.range (count + 1)).filter p =
      (List.range count).filter p ++ if p count then [count] else [] := by
  rw [List.range_succ, List.filter_append, List.filter_singleton]
  cases p count <;> rfl

theorem Gathered.step {problem : DsaProblem} {count : ℕ} {state : List SuperBuffer × List String}
    (h : Gathered problem count state) (ha : (problem.bufferAt count).alignment ≠ 0) :
    Gathered problem (count + 1) (gatherBuffer problem state count) := by
  set root := (colocationSets problem).root count with hroot
  unfold gatherBuffer
  dsimp only
  rw [← hroot]
  cases hf : state.1.findIdx? (fun super => super.root == root) with
  | none =>
      have hnew : ∀ (k : ℕ) (super : SuperBuffer), state.1[k]? = some super → super.root ≠ root := by
        intro k super hk
        simpa using List.findIdx?_eq_none_iff.mp hf super (List.mem_of_getElem? hk)
      have hget : ∀ (k : ℕ) (super : SuperBuffer),
          (state.1 ++ [mergeMember problem true count (newSuper problem root count)])[k]? =
            some super →
          state.1[k]? = some super ∨ (k = state.1.length ∧
            super = mergeMember problem true count (newSuper problem root count)) := by
        intro k super hk
        rcases lt_trichotomy k state.1.length with hlt | rfl | hgt
        · rw [List.getElem?_append_left hlt] at hk
          exact .inl hk
        · rw [List.getElem?_concat_length] at hk
          exact .inr ⟨rfl, (Option.some.inj hk).symm⟩
        · rw [List.getElem?_eq_none (by simpa using hgt)] at hk
          cases hk
      refine ⟨fun k super hk => ?_, fun k super hk => ?_, fun k l first second hk hl e => ?_,
        fun i hi => ?_, fun he k super hk => ?_, fun k super hk => ?_⟩
      · rcases hget k super hk with hk | ⟨-, rfl⟩
        · exact h.covers k super hk
        · exact covers_newSuper problem root count
      · rw [filter_range_succ]
        rcases hget k super hk with hk | ⟨-, rfl⟩
        · rw [h.members k super hk, ← hroot, if_neg (by simpa using (hnew k super hk).symm),
            List.append_nil]
        · have hempty : (List.range count).filter (fun i => (colocationSets problem).root i == root) =
              [] := by
            rw [List.filter_eq_nil_iff]
            intro i hi e
            obtain ⟨k, super, hk, hs⟩ := h.complete i (List.mem_range.mp hi)
            exact hnew k super hk (hs.trans (by simpa using e))
          simp only [mergeMember, newSuper, hempty, ← hroot]
          simp
      · rcases hget k first hk with hk | ⟨rfl, rfl⟩
        · rcases hget l second hl with hl | ⟨rfl, rfl⟩
          · exact h.distinct k l first second hk hl e
          · exact absurd e (hnew k first hk)
        · rcases hget l second hl with hl | ⟨rfl, rfl⟩
          · exact absurd e.symm (hnew l second hl)
          · rfl
      · rcases Nat.lt_succ_iff_lt_or_eq.mp hi with hi | rfl
        · obtain ⟨k, super, hk, hs⟩ := h.complete i hi
          obtain ⟨hlt, -⟩ := List.getElem?_eq_some_iff.mp hk
          exact ⟨k, super, by rw [List.getElem?_append_left hlt]; exact hk, hs⟩
        · exact ⟨_, _, List.getElem?_concat_length, rfl⟩
      · rw [List.append_eq_nil_iff] at he
        rcases hget k super hk with hk | ⟨-, rfl⟩
        · exact h.aligned he.1 k super hk
        · exact (aligned_newSuper problem root count).merge ha he.2
      · rcases hget k super hk with hk | ⟨-, rfl⟩
        · exact h.unpinned k super hk
        · exact ⟨rfl, rfl⟩
  | some index =>
      obtain ⟨hlt, heq, -⟩ := List.findIdx?_eq_some_iff_getElem.mp hf
      have hroot' : state.1[index].root = root := by simpa using heq
      have hat : state.1[index]? = some state.1[index] := List.getElem?_eq_getElem hlt
      have hget : ∀ (k : ℕ) (super : SuperBuffer), (state.1.modify index (mergeMember problem false count))[k]? =
          some super → (k ≠ index ∧ state.1[k]? = some super) ∨
            (k = index ∧ super = mergeMember problem false count state.1[index]) := by
        intro k super hk
        rw [List.getElem?_modify] at hk
        by_cases hki : index = k
        · subst hki
          rw [hat] at hk
          simp only [if_true] at hk
          exact .inr ⟨rfl, (Option.some.inj hk).symm⟩
        · refine .inl ⟨fun e => hki e.symm, ?_⟩
          simpa [hki] using hk
      have hother : ∀ (k : ℕ) (super : SuperBuffer), k ≠ index → state.1[k]? = some super →
          super.root ≠ root :=
        fun k super hne hk e => hne (h.distinct k index super _ hk hat (e.trans hroot'.symm))
      refine ⟨fun k super hk => ?_, fun k super hk => ?_, fun k l first second hk hl e => ?_,
        fun i hi => ?_, fun he k super hk => ?_, fun k super hk => ?_⟩
      · rcases hget k super hk with ⟨-, hk⟩ | ⟨-, rfl⟩
        · exact h.covers k super hk
        · exact (h.covers index _ hat).merge
      · rw [filter_range_succ]
        rcases hget k super hk with ⟨hne, hk⟩ | ⟨-, rfl⟩
        · rw [h.members k super hk, ← hroot, if_neg (by simpa using (hother k super hne hk).symm),
            List.append_nil]
        · have e : (mergeMember problem false count state.1[index]).root = root := hroot'
          rw [e, ← hroot, if_pos (by simp)]
          have := h.members index _ hat
          rw [hroot'] at this
          rw [← this]
          rfl
      · rcases hget k first hk with ⟨hne, hk'⟩ | ⟨rfl, rfl⟩
        · rcases hget l second hl with ⟨-, hl'⟩ | ⟨rfl, rfl⟩
          · exact h.distinct k l first second hk' hl' e
          · exact absurd (e.trans hroot') (hother k first hne hk')
        · rcases hget l second hl with ⟨hne, hl'⟩ | ⟨rfl, rfl⟩
          · exact absurd (e.symm.trans hroot') (hother l second hne hl')
          · rfl
      · have key : ∃ (k : ℕ) (super : SuperBuffer), state.1[k]? = some super ∧
            super.root = (colocationSets problem).root i := by
          rcases Nat.lt_succ_iff_lt_or_eq.mp hi with hi | rfl
          · exact h.complete i hi
          · exact ⟨index, _, hat, hroot'⟩
        obtain ⟨k, super, hk, hs⟩ := key
        by_cases hki : index = k
        · subst hki
          rw [hat] at hk
          obtain rfl := Option.some.inj hk
          refine ⟨index, mergeMember problem false count state.1[index], ?_, hs⟩
          rw [List.getElem?_modify, hat]
          simp
        · refine ⟨k, super, ?_, hs⟩
          rw [List.getElem?_modify, hk]
          simp [hki]
      · rw [List.append_eq_nil_iff] at he
        rcases hget k super hk with ⟨-, hk⟩ | ⟨-, rfl⟩
        · exact h.aligned he.1 k super hk
        · have e : state.1.getD index {} = state.1[index] := List.getD_eq_getElem _ _ hlt
          rw [e] at he
          exact (h.aligned he.1 index _ hat).merge ha he.2
      · rcases hget k super hk with ⟨-, hk⟩ | ⟨-, rfl⟩
        · exact h.unpinned k super hk
        · have := h.unpinned index _ hat
          exact this

theorem gatherBuffers_gathered {problem : DsaProblem} (hwf : WellFormed problem) (count : ℕ)
    (hcount : count ≤ problem.buffers.length) :
    Gathered problem count (gatherBuffers problem count) := by
  induction count with
  | zero => exact ⟨by simp [gatherBuffers], by simp [gatherBuffers], by simp [gatherBuffers],
      fun i hi => absurd hi (Nat.not_lt_zero _), by simp [gatherBuffers], by simp [gatherBuffers]⟩
  | succ count ih =>
      have e : gatherBuffers problem (count + 1) =
          gatherBuffer problem (gatherBuffers problem count) count := by
        unfold gatherBuffers
        rw [List.range_succ, List.foldl_append]
        rfl
      rw [e]
      exact (ih (by omega)).step (hwf.alignmentPos _ (bufferAt_mem hcount))

/-! ### The lookup of a buffer id -/

section lookup

variable {problem : DsaProblem} {state : List SuperBuffer × List String}

theorem Gathered.mem_members (h : Gathered problem problem.buffers.length state) {k : ℕ}
    {super : SuperBuffer} (hk : state.1[k]? = some super) (i : ℕ) :
    i ∈ super.members ↔ i < problem.buffers.length ∧ (colocationSets problem).root i = super.root := by
  rw [h.members k super hk, List.mem_filter, List.mem_range, beq_iff_eq]

theorem Gathered.exists_of_lookup {id : BufferId} {k : ℕ}
    (hid : idToSuper problem state.1 id = some k) :
    ∃ super, state.1[k]? = some super ∧ ∃ i ∈ super.members, (problem.bufferAt i).id = id := by
  obtain ⟨hlt, hany, -⟩ := List.findIdx?_eq_some_iff_getElem.mp hid
  obtain ⟨i, hi, e⟩ := List.any_eq_true.mp hany
  exact ⟨_, List.getElem?_eq_getElem hlt, i, hi, by simpa using e⟩

theorem Gathered.lookup (h : Gathered problem problem.buffers.length state)
    (hwf : WellFormed problem) {i : ℕ} (hi : i < problem.buffers.length) :
    ∃ (k : ℕ) (super : SuperBuffer), idToSuper problem state.1 (problem.bufferAt i).id = some k ∧
      state.1[k]? = some super ∧ i ∈ super.members := by
  cases hid : idToSuper problem state.1 (problem.bufferAt i).id with
  | none =>
      obtain ⟨k, super, hk, hroot⟩ := h.complete i hi
      have := List.findIdx?_eq_none_iff.mp hid super (List.mem_of_getElem? hk)
      have hmem : i ∈ super.members := (h.mem_members hk i).mpr ⟨hi, hroot.symm⟩
      have hany : super.members.any (fun member =>
          (problem.bufferAt member).id == (problem.bufferAt i).id) = true :=
        List.any_eq_true.mpr ⟨i, hmem, by simp⟩
      rw [hany] at this
      cases this
  | some k =>
      obtain ⟨super, hk, j, hj, e⟩ := Gathered.exists_of_lookup hid
      have hjlt := ((h.mem_members hk j).mp hj).1
      have hij := bufferAt_id_injective hwf.bufferIds hjlt hi e
      exact ⟨k, super, rfl, hk, hij ▸ hj⟩

end lookup

/-! ### Pins -/

/-- The class without its pins. -/
def SuperBuffer.unpin (super : SuperBuffer) : SuperBuffer :=
  { super with pinned := none, pinnedExclusive := false }

/-- The classes after the pins `pins`, when none of them clashed. -/
structure PinnedBy (lookup : BufferId → Option ℕ) (supers : List SuperBuffer)
    (pins : List PinnedAllocation) (result : List SuperBuffer) : Prop where
  unpin : result.map SuperBuffer.unpin = supers.map SuperBuffer.unpin
  pinMem : ∀ (k : ℕ) (super : SuperBuffer) (pinned : PinnedAllocation), result[k]? = some super →
    super.pinned = some pinned → pinned ∈ pins ∧ lookup pinned.buffer = some k
  agree : ∀ (k : ℕ) (super : SuperBuffer), result[k]? = some super → ∀ pinned ∈ pins,
    lookup pinned.buffer = some k → ∃ kept, super.pinned = some kept ∧
      kept.pool = pinned.pool ∧ kept.offset = pinned.offset
  exclusive : ∀ (k : ℕ) (super : SuperBuffer), result[k]? = some super →
    (super.pinnedExclusive = true ↔
      ∃ pinned ∈ pins, lookup pinned.buffer = some k ∧ pinned.exclusiveForAllTime = true)

theorem map_modify_unpin (supers : List SuperBuffer) (index : ℕ) (pinned : PinnedAllocation) :
    (supers.modify index (pinSuper pinned)).map SuperBuffer.unpin =
      supers.map SuperBuffer.unpin := by
  apply List.ext_getElem?
  intro k
  rw [List.getElem?_map, List.getElem?_map, List.getElem?_modify]
  cases supers[k]? with
  | none => rfl
  | some super => by_cases h : index = k <;> simp [h, pinSuper, SuperBuffer.unpin]

theorem PinnedBy.step {lookup : BufferId → Option ℕ} {supers result : List SuperBuffer}
    {pins : List PinnedAllocation} (h : PinnedBy lookup supers pins result)
    {pinned : PinnedAllocation} {index : ℕ} (hl : lookup pinned.buffer = some index)
    (hc : pinClashes (result.getD index {}) pinned = false) :
    PinnedBy lookup supers (pins ++ [pinned]) (result.modify index (pinSuper pinned)) := by
  have hget : ∀ (k : ℕ) (super : SuperBuffer),
      (result.modify index (pinSuper pinned))[k]? = some super →
      (k ≠ index ∧ result[k]? = some super) ∨
        (k = index ∧ ∃ old, result[k]? = some old ∧ super = pinSuper pinned old) := by
    intro k super hk
    rw [List.getElem?_modify] at hk
    by_cases hki : index = k
    · subst hki
      cases hold : result[index]? with
      | none => simp [hold] at hk
      | some old => exact .inr ⟨rfl, old, rfl, by simpa [hold] using hk.symm⟩
    · exact .inl ⟨fun e => hki e.symm, by simpa [hki] using hk⟩
  refine ⟨(map_modify_unpin _ _ _).trans h.unpin, fun k super p hk hp => ?_,
    fun k super hk p hp hlp => ?_, fun k super hk => ?_⟩
  · rcases hget k super hk with ⟨-, hk⟩ | ⟨rfl, old, hold, rfl⟩
    · obtain ⟨hmem, hlook⟩ := h.pinMem k super p hk hp
      exact ⟨List.mem_append_left _ hmem, hlook⟩
    · obtain rfl : pinned = p := Option.some.inj hp
      exact ⟨by simp, hl⟩
  · rcases hget k super hk with ⟨hne, hk⟩ | ⟨rfl, old, hold, rfl⟩
    · rcases List.mem_append.mp hp with hp | hp
      · exact h.agree k super hk p hp hlp
      · obtain rfl := List.mem_singleton.mp hp
        exact absurd (Option.some.inj (hlp.symm.trans hl)) hne
    · refine ⟨pinned, rfl, ?_⟩
      rcases List.mem_append.mp hp with hp | hp
      · obtain ⟨kept, hkept, e1, e2⟩ := h.agree k old hold p hp hlp
        rw [List.getD_eq_getElem?_getD, hold, Option.getD_some, pinClashes, hkept] at hc
        simp only [bne_eq_false_iff_eq, Bool.or_eq_false_iff] at hc
        exact ⟨hc.1.symm.trans e1, hc.2.symm.trans e2⟩
      · obtain rfl := List.mem_singleton.mp hp
        exact ⟨rfl, rfl⟩
  · simp only [List.mem_append, List.mem_singleton]
    rcases hget k super hk with ⟨hne, hk⟩ | ⟨rfl, old, hold, rfl⟩
    · rw [h.exclusive k super hk]
      constructor
      · exact fun ⟨p, hp, hrest⟩ => ⟨p, .inl hp, hrest⟩
      · rintro ⟨p, hp | rfl, hlp, hex⟩
        · exact ⟨p, hp, hlp, hex⟩
        · exact absurd (Option.some.inj (hlp.symm.trans hl)) hne
    · simp only [pinSuper, Bool.or_eq_true, h.exclusive k old hold]
      constructor
      · rintro (⟨p, hp, hrest⟩ | hex)
        · exact ⟨p, .inl hp, hrest⟩
        · exact ⟨pinned, .inr rfl, hl, hex⟩
      · rintro ⟨p, hp | rfl, hlp, hex⟩
        · exact .inl ⟨p, hp, hlp, hex⟩
        · exact .inr hex

theorem pins_pinnedBy {lookup : BufferId → Option ℕ} {supers : List SuperBuffer}
    (hunpinned : ∀ (k : ℕ) (super : SuperBuffer), supers[k]? = some super →
      super.pinned = none ∧ super.pinnedExclusive = false)
    (pins : List PinnedAllocation) (he : (pins.foldl (applyPin lookup) (supers, [])).2 = []) :
    PinnedBy lookup supers pins (pins.foldl (applyPin lookup) (supers, [])).1 := by
  induction pins using List.reverseRecOn with
  | nil =>
      refine ⟨rfl, fun k super p hk hp => ?_, fun k super hk p hp => absurd hp List.not_mem_nil,
        fun k super hk => ?_⟩
      · rw [(hunpinned k super hk).1] at hp
        cases hp
      · simp [(hunpinned k super hk).2]
  | append_singleton pins pinned ih =>
      rw [List.foldl_append, List.foldl_cons, List.foldl_nil] at he ⊢
      set state := pins.foldl (applyPin lookup) (supers, []) with hstate
      unfold applyPin at he ⊢
      cases hl : lookup pinned.buffer with
      | none =>
          rw [hl] at he
          have h := ih he
          refine ⟨h.unpin, fun k super p hk hp => ?_, fun k super hk p hp hlp => ?_,
            fun k super hk => ?_⟩
          · obtain ⟨hmem, hlook⟩ := h.pinMem k super p hk hp
            exact ⟨List.mem_append_left _ hmem, hlook⟩
          · rcases List.mem_append.mp hp with hp | hp
            · exact h.agree k super hk p hp hlp
            · obtain rfl := List.mem_singleton.mp hp
              rw [hl] at hlp
              cases hlp
          · rw [h.exclusive k super hk]
            simp only [List.mem_append, List.mem_singleton]
            constructor
            · exact fun ⟨p, hp, hrest⟩ => ⟨p, .inl hp, hrest⟩
            · rintro ⟨p, hp | rfl, hlp, hex⟩
              · exact ⟨p, hp, hlp, hex⟩
              · rw [hl] at hlp
                cases hlp
      | some index =>
          rw [hl] at he
          dsimp only at he ⊢
          split_ifs at he ⊢ with hc
          · simp at he
          · exact (ih he).step hl (by simpa using hc)

/-! ### Separations -/

theorem mem_separations {lookup : BufferId → Option ℕ} (separations : List Separation)
    (he : (separations.foldl (applySeparation lookup) ([], [])).2 = []) :
    (∀ a b, (a, b) ∈ (separations.foldl (applySeparation lookup) ([], [])).1 ↔
      ∃ separation ∈ separations, ∃ x y, lookup separation.first = some x ∧
        lookup separation.second = some y ∧ a = min x y ∧ b = max x y) ∧
      ∀ separation ∈ separations, ∀ x y, lookup separation.first = some x →
        lookup separation.second = some y → x ≠ y := by
  induction separations using List.reverseRecOn with
  | nil => simp
  | append_singleton separations separation ih =>
      rw [List.foldl_append, List.foldl_cons, List.foldl_nil] at he ⊢
      set state := separations.foldl (applySeparation lookup) ([], []) with hstate
      unfold applySeparation at he ⊢
      simp only [List.mem_append, List.mem_singleton]
      cases hf : lookup separation.first with
      | none =>
          rw [hf] at he
          obtain ⟨hmem, hne⟩ := ih he
          refine ⟨fun a b => (hmem a b).trans ⟨fun ⟨s, hs, hrest⟩ => ⟨s, .inl hs, hrest⟩, ?_⟩, ?_⟩
          · rintro ⟨s, hs | rfl, x, y, hx, hrest⟩
            · exact ⟨s, hs, x, y, hx, hrest⟩
            · rw [hf] at hx
              cases hx
          · rintro s (hs | rfl) x y hx hy
            · exact hne s hs x y hx hy
            · rw [hf] at hx
              cases hx
      | some first =>
          cases hs2 : lookup separation.second with
          | none =>
              rw [hf, hs2] at he
              obtain ⟨hmem, hne⟩ := ih he
              refine ⟨fun a b => (hmem a b).trans ⟨fun ⟨s, hs, hrest⟩ => ⟨s, .inl hs, hrest⟩, ?_⟩, ?_⟩
              · rintro ⟨s, hs | rfl, x, y, hx, hy, hrest⟩
                · exact ⟨s, hs, x, y, hx, hy, hrest⟩
                · rw [hs2] at hy
                  cases hy
              · rintro s (hs | rfl) x y hx hy
                · exact hne s hs x y hx hy
                · rw [hs2] at hy
                  cases hy
          | some second =>
              rw [hf, hs2] at he
              dsimp only at he ⊢
              by_cases hc : first = second
              · rw [if_pos (by simpa using hc)] at he
                simp at he
              · rw [if_neg (by simpa using hc)] at he ⊢
                obtain ⟨hmem, hne⟩ := ih he
                refine ⟨fun a b => ?_, ?_⟩
                · rw [List.mem_cons, hmem, Prod.mk.injEq]
                  constructor
                  · rintro (⟨rfl, rfl⟩ | ⟨s, hs, hrest⟩)
                    · exact ⟨separation, .inr rfl, first, second, hf, hs2, rfl, rfl⟩
                    · exact ⟨s, .inl hs, hrest⟩
                  · rintro ⟨s, hs | rfl, x, y, hx, hy, rfl, rfl⟩
                    · exact .inr ⟨s, hs, x, y, hx, hy, rfl, rfl⟩
                    · rw [hf] at hx
                      rw [hs2] at hy
                      obtain rfl := Option.some.inj hx
                      obtain rfl := Option.some.inj hy
                      exact .inl ⟨rfl, rfl⟩
                · rintro s (hs | rfl) x y hx hy
                  · exact hne s hs x y hx hy
                  · rw [hf] at hx
                    rw [hs2] at hy
                    obtain rfl := Option.some.inj hx
                    obtain rfl := Option.some.inj hy
                    exact hc

/-! ### The prepared problem -/

/-- The class of the buffer at an index. -/
def classOf (problem : DsaProblem) (i : ℕ) : ℕ :=
  ((prepare problem).idToSuper (problem.bufferAt i).id).getD 0

/-- What `prepare` guarantees when it reports no error. -/
structure PreparedOk (problem : DsaProblem) : Prop where
  valid : validateProblem problem = []
  lookup : ∀ i < problem.buffers.length,
    (prepare problem).idToSuper (problem.bufferAt i).id = some (classOf problem i)
  ofLookup : ∀ id k, (prepare problem).idToSuper id = some k →
    ∃ i < problem.buffers.length, (problem.bufferAt i).id = id ∧ classOf problem i = k
  classOf_lt : ∀ i < problem.buffers.length, classOf problem i < (prepare problem).supers.length
  members : ∀ k < (prepare problem).supers.length, ∀ i,
    i ∈ ((prepare problem).superAt k).members ↔
      i < problem.buffers.length ∧ classOf problem i = k
  classOf_eq_iff : ∀ i < problem.buffers.length, ∀ j < problem.buffers.length,
    classOf problem i = classOf problem j ↔
      (colocationSets problem).root i = (colocationSets problem).root j
  covers : ∀ k < (prepare problem).supers.length, Covers problem ((prepare problem).superAt k)
  aligned : ∀ k < (prepare problem).supers.length, Aligned problem ((prepare problem).superAt k)
  allowedNe : ∀ k < (prepare problem).supers.length,
    ((prepare problem).superAt k).allowedPools ≠ []
  singlePool : (prepare problem).flexiblePools = false → ∀ k < (prepare problem).supers.length,
    ((prepare problem).superAt k).allowedPools.length ≤ 1
  pinMem : ∀ k < (prepare problem).supers.length, ∀ pinned,
    ((prepare problem).superAt k).pinned = some pinned →
      pinned ∈ problem.pinnedAllocations ∧ (prepare problem).idToSuper pinned.buffer = some k
  pinAgree : ∀ k < (prepare problem).supers.length, ∀ pinned ∈ problem.pinnedAllocations,
    (prepare problem).idToSuper pinned.buffer = some k →
      ∃ kept, ((prepare problem).superAt k).pinned = some kept ∧ kept.pool = pinned.pool ∧
        kept.offset = pinned.offset
  pinExclusive : ∀ k < (prepare problem).supers.length,
    ((prepare problem).superAt k).pinnedExclusive = true ↔
      ∃ pinned ∈ problem.pinnedAllocations, (prepare problem).idToSuper pinned.buffer = some k ∧
        pinned.exclusiveForAllTime = true
  separations : ∀ a b, (a, b) ∈ (prepare problem).separations ↔
    ∃ separation ∈ problem.separations, ∃ x y,
      (prepare problem).idToSuper separation.first = some x ∧
        (prepare problem).idToSuper separation.second = some y ∧ a = min x y ∧ b = max x y
  separationsNe : ∀ separation ∈ problem.separations, ∀ x y,
    (prepare problem).idToSuper separation.first = some x →
      (prepare problem).idToSuper separation.second = some y → x ≠ y

theorem PreparedOk.wellFormed {problem : DsaProblem} (h : PreparedOk problem) :
    WellFormed problem := .of_validateProblem h.valid

theorem validateProblem_of_prepare {problem : DsaProblem} (h : (prepare problem).errors = []) :
    validateProblem problem = [] := by
  unfold prepare at h
  split_ifs at h with hv
  · exact h
  · exact not_not.mp hv

theorem Covers.of_unpin {problem : DsaProblem} {first second : SuperBuffer}
    (e : first.unpin = second.unpin) (h : Covers problem second) : Covers problem first := by
  cases first
  cases second
  simp only [SuperBuffer.unpin, SuperBuffer.mk.injEq] at e
  obtain ⟨rfl, rfl, rfl, rfl, rfl, -, rfl, -⟩ := e
  exact ⟨h.membersNe, h.sizeGe, h.sizeMem, h.representativeMem, h.allowed⟩

/-- **An error-free preparation.** -/
theorem prepare_ok {problem : DsaProblem} (h : (prepare problem).errors = []) :
    PreparedOk problem := by
  have hvalid := validateProblem_of_prepare h
  have hwf := WellFormed.of_validateProblem hvalid
  have hgath := gatherBuffers_gathered hwf problem.buffers.length le_rfl
  set gathered := gatherBuffers problem problem.buffers.length with hg
  set lookup := idToSuper problem gathered.1 with hlookup
  set pins := problem.pinnedAllocations.foldl (applyPin lookup) (gathered.1, []) with hpins
  set separations := problem.separations.foldl (applySeparation lookup) ([], []) with hseps
  have hprep : prepare problem =
      { supers := pins.1
        idToSuper := lookup
        separations := separations.1
        errors := gathered.2 ++ gathered.1.flatMap superPoolErrors ++ pins.2 ++ separations.2
        flexiblePools := gathered.1.any fun super => decide (super.allowedPools.length > 1) } := by
    unfold prepare
    rw [if_neg (not_not.mpr hvalid)]
  rw [hprep] at h
  simp only [List.append_eq_nil_iff, List.flatMap_eq_nil_iff] at h
  obtain ⟨⟨⟨he1, he2⟩, he3⟩, he4⟩ := h
  have hp := pins_pinnedBy hgath.unpinned problem.pinnedAllocations he3
  rw [← hpins] at hp
  obtain ⟨hsepMem, hsepNe⟩ := mem_separations problem.separations he4
  have hlen : pins.1.length = gathered.1.length := by
    have := congrArg List.length hp.unpin
    rwa [List.length_map, List.length_map] at this
  have hclass : ∀ i, classOf problem i = (lookup (problem.bufferAt i).id).getD 0 := by
    intro i
    rw [classOf, hprep]
  have hlook : ∀ i < problem.buffers.length, ∃ super,
      lookup (problem.bufferAt i).id = some (classOf problem i) ∧
        gathered.1[classOf problem i]? = some super ∧ i ∈ super.members := by
    intro i hi
    obtain ⟨k, super, hk, hs, hmem⟩ := hgath.lookup hwf hi
    have e : classOf problem i = k := by
      rw [hclass]
      exact congrArg (fun o => Option.getD o 0) hk
    rw [e]
    exact ⟨super, hk, hs, hmem⟩
  have hat : ∀ k < pins.1.length, ∃ super, gathered.1[k]? = some super ∧
      pins.1[k]? = some (pins.1.getD k {}) ∧ (pins.1.getD k {}).unpin = super.unpin := by
    intro k hk
    have hk' : k < gathered.1.length := hlen ▸ hk
    have hget : pins.1[k]? = some (pins.1.getD k {}) := by
      rw [List.getD_eq_getElem _ _ hk, List.getElem?_eq_getElem hk]
    refine ⟨gathered.1[k], List.getElem?_eq_getElem hk', hget, ?_⟩
    have := congrArg (fun l => l[k]?) hp.unpin
    rw [List.getElem?_map, List.getElem?_map, hget, List.getElem?_eq_getElem hk'] at this
    exact Option.some.inj this
  have hmembers : ∀ {first second : SuperBuffer}, first.unpin = second.unpin →
      first.members = second.members ∧ first.allowedPools = second.allowedPools ∧
        first.alignment = second.alignment := fun e => by
    simp only [SuperBuffer.unpin, SuperBuffer.mk.injEq] at e
    exact ⟨e.2.2.1, e.2.2.2.2.2.2.1, e.2.2.2.2.1⟩
  refine
    { valid := hvalid, lookup := ?_, ofLookup := ?_, classOf_lt := ?_, members := ?_,
      classOf_eq_iff := ?_, covers := ?_, aligned := ?_, allowedNe := ?_, singlePool := ?_,
      pinMem := ?_, pinAgree := ?_, pinExclusive := ?_, separations := ?_, separationsNe := ?_ }
  · intro i hi
    rw [hprep]
    exact (hlook i hi).choose_spec.1
  · intro id k hid
    rw [hprep] at hid
    obtain ⟨super, hk, i, hmem, e⟩ := Gathered.exists_of_lookup hid
    have hi := ((hgath.mem_members hk i).mp hmem).1
    refine ⟨i, hi, e, ?_⟩
    rw [hclass, e]
    exact congrArg (fun o => Option.getD o 0) hid
  · intro i hi
    obtain ⟨super, -, hs, -⟩ := hlook i hi
    rw [hprep]
    show classOf problem i < pins.1.length
    rw [hlen]
    exact (List.getElem?_eq_some_iff.mp hs).1
  · intro k hk i
    rw [hprep] at hk ⊢
    obtain ⟨super, hs, -, e⟩ := hat k hk
    show i ∈ (pins.1.getD k {}).members ↔ _
    rw [(hmembers e).1]
    constructor
    · intro hi
      have hlt := ((hgath.mem_members hs i).mp hi).1
      obtain ⟨super', -, hs', hi'⟩ := hlook i hlt
      refine ⟨hlt, hgath.distinct _ _ _ _ hs' hs ?_⟩
      rw [← ((hgath.mem_members hs' i).mp hi').2, ← ((hgath.mem_members hs i).mp hi).2]
    · rintro ⟨hi, rfl⟩
      obtain ⟨super', -, hs', hi'⟩ := hlook i hi
      rw [hs'] at hs
      exact Option.some.inj hs ▸ hi'
  · intro i hi j hj
    obtain ⟨si, -, hsi, hmi⟩ := hlook i hi
    obtain ⟨sj, -, hsj, hmj⟩ := hlook j hj
    rw [((hgath.mem_members hsi i).mp hmi).2, ((hgath.mem_members hsj j).mp hmj).2]
    constructor
    · intro e
      rw [e, hsj] at hsi
      rw [Option.some.inj hsi]
    · exact hgath.distinct _ _ _ _ hsi hsj
  · intro k hk
    rw [hprep] at hk ⊢
    obtain ⟨super, hs, -, e⟩ := hat k hk
    exact (hgath.covers k super hs).of_unpin e
  · intro k hk
    rw [hprep] at hk ⊢
    obtain ⟨super, hs, -, e⟩ := hat k hk
    obtain ⟨hne, hdvd⟩ := hgath.aligned he1 k super hs
    show Aligned problem (pins.1.getD k {})
    unfold Aligned
    rw [(hmembers e).1, (hmembers e).2.2]
    exact ⟨hne, hdvd⟩
  · intro k hk
    rw [hprep] at hk ⊢
    obtain ⟨super, hs, -, e⟩ := hat k hk
    show (pins.1.getD k {}).allowedPools ≠ []
    rw [(hmembers e).2.1]
    have := he2 super (List.mem_of_getElem? hs)
    simpa [superPoolErrors] using this
  · intro hflex k hk
    rw [hprep] at hflex hk ⊢
    obtain ⟨super, hs, -, e⟩ := hat k hk
    show (pins.1.getD k {}).allowedPools.length ≤ 1
    rw [(hmembers e).2.1]
    have := List.any_eq_false.mp hflex super (List.mem_of_getElem? hs)
    simpa using this
  · intro k hk pinned hpin
    rw [hprep] at hk hpin ⊢
    obtain ⟨-, -, hget, -⟩ := hat k hk
    exact hp.pinMem k _ pinned hget hpin
  · intro k hk pinned hmem hid
    rw [hprep] at hk hid ⊢
    obtain ⟨-, -, hget, -⟩ := hat k hk
    exact hp.agree k _ hget pinned hmem hid
  · intro k hk
    rw [hprep] at hk ⊢
    obtain ⟨-, -, hget, -⟩ := hat k hk
    exact hp.exclusive k _ hget
  · rw [hprep]
    exact hsepMem
  · rw [hprep]
    exact hsepNe

end Dsa
