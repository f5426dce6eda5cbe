import DsaSolver.NodeSteps

/-! # Supports of a node

`canonicalOffsetsForNode` lists the offsets a node may take above what is placed: zero, the ends
of the reserved ranges and the tops of the placed neighbours, each rounded up to the alignment
(`mem_canonicalOffsetsForNode`). -/

namespace Dsa

variable {problem : DsaProblem}

theorem toNat_alignUp {value alignment result : UInt64} (h : alignUp value alignment = some result) :
    result.toNat = Theory.alignUp value.toNat alignment.toNat := by
  unfold alignUp at h
  split_ifs at h with hone
  · obtain rfl := Option.some.inj h
    rw [UInt64.le_iff_toNat_le, UInt64.toNat_one] at hone
    interval_cases alignment.toNat
    · simp [Theory.alignUp]
    · simp [Theory.alignUp, Nat.mod_one]
  · rw [UInt64.le_iff_toNat_le, UInt64.toNat_one, not_le] at hone
    have hmod := Nat.mod_lt value.toNat (by omega : 0 < alignment.toNat)
    dsimp only at h
    split_ifs at h with hzero hover
    · obtain rfl := Option.some.inj h
      rw [beq_iff_eq, ← UInt64.toNat_inj, UInt64.toNat_mod, UInt64.toNat_zero] at hzero
      rw [Theory.alignUp_eq_self (Nat.dvd_of_mod_eq_zero hzero)]
    · obtain rfl := Option.some.inj h
      rw [beq_iff_eq, ← UInt64.toNat_inj, UInt64.toNat_mod, UInt64.toNat_zero] at hzero
      have hdelta : (alignment - value % alignment).toNat =
          alignment.toNat - value.toNat % alignment.toNat := by
        rw [UInt64.toNat_sub_of_le _ _ (by
          rw [UInt64.le_iff_toNat_le, UInt64.toNat_mod]
          exact hmod.le), UInt64.toNat_mod]
      rw [Bool.not_eq_true, Theory.addOverflows_eq_false_iff] at hover
      rw [Theory.toNat_add_of_lt hover, hdelta, Theory.alignUp,
        Nat.mod_eq_of_lt (by omega : alignment.toNat - value.toNat % alignment.toNat <
          alignment.toNat)]

theorem alignUp_eq_some_iff {value alignment result : UInt64} :
    alignUp value alignment = some result ↔
      result.toNat = Theory.alignUp value.toNat alignment.toNat := by
  refine ⟨toNat_alignUp, fun hresult => ?_⟩
  cases hup : alignUp value alignment with
  | some other =>
      rw [← toNat_alignUp hup] at hresult
      rw [UInt64.toNat_inj.mp hresult]
  | none =>
      -- an overflow would put the aligned value out of range
      exfalso
      have hlt := result.toNat_lt
      unfold alignUp at hup
      split_ifs at hup with hone
      rw [UInt64.le_iff_toNat_le, UInt64.toNat_one, not_le] at hone
      have hmod := Nat.mod_lt value.toNat (by omega : 0 < alignment.toNat)
      dsimp only at hup
      split_ifs at hup with hzero hover
      rw [beq_iff_eq, ← UInt64.toNat_inj, UInt64.toNat_mod, UInt64.toNat_zero] at hzero
      rw [Theory.addOverflows_iff, UInt64.toNat_sub_of_le _ _ (by
        rw [UInt64.le_iff_toNat_le, UInt64.toNat_mod]
        exact hmod.le), UInt64.toNat_mod] at hover
      rw [Theory.alignUp, Nat.mod_eq_of_lt (by omega : alignment.toNat -
        value.toNat % alignment.toNat < alignment.toNat)] at hresult
      omega

theorem mem_softNeighbors (h : SearchOk problem) {k l : ℕ} (hk : k < problem.search.count) :
    l ∈ (problem.search.softNeighborsOf k).map Prod.fst ↔ ∃ weight,
      ((k, l), weight) ∈ problem.search.softWeights.toList ∨
        ((l, k), weight) ∈ problem.search.softWeights.toList := by
  rw [softNeighborsOf_eq h hk, softNeighborList, List.mem_map]
  simp only [List.mem_filterMap]
  constructor
  · rintro ⟨neighbor, ⟨⟨⟨a, b⟩, weight⟩, hmem, hpair⟩, rfl⟩
    dsimp only at hpair
    split_ifs at hpair with h1 h2
    · obtain rfl := Option.some.inj hpair
      obtain rfl := beq_iff_eq.mp h1
      exact ⟨weight, .inl hmem⟩
    · obtain rfl := Option.some.inj hpair
      obtain rfl := beq_iff_eq.mp h2
      exact ⟨weight, .inr hmem⟩
  · rintro ⟨weight, hmem | hmem⟩
    · refine ⟨(l, weight), ⟨((k, l), weight), hmem, ?_⟩, rfl⟩
      simp
    · have hlt := (softWeights_pair h hmem).1
      dsimp only at hlt
      refine ⟨(l, weight), ⟨((l, k), weight), hmem, ?_⟩, rfl⟩
      simp [hlt.ne]

/-! ### The canonical offsets -/

/-- A loop that inserts into a set. -/
theorem mem_foldl_iff {α : Type} {step : Std.TreeSet UInt64 → α → Std.TreeSet UInt64}
    {value : UInt64} {p : α → Prop}
    (hstep : ∀ set x, value ∈ step set x ↔ value ∈ set ∨ p x) (l : List α)
    (start : Std.TreeSet UInt64) :
    value ∈ l.foldl step start ↔ value ∈ start ∨ ∃ x ∈ l, p x := by
  induction l generalizing start with
  | nil => simp
  | cons x rest ih =>
      rw [List.foldl_cons, ih, hstep, or_assoc]
      simp only [List.mem_cons, exists_eq_or_imp]

theorem mem_insert_iff {set : Std.TreeSet UInt64} {first value : UInt64} :
    value ∈ set.insert first ↔ value ∈ set ∨ value = first := by
  rw [Std.TreeSet.mem_insert, Std.LawfulEqCmp.compare_eq_iff_eq, eq_comm, or_comm]

theorem mem_insertTop {search : ReusePenaltySearchSpace} {placed : List Bool}
    {offsets : List UInt64} {value : UInt64} (set : Std.TreeSet UInt64) (other : ℕ) :
    value ∈ insertTop search placed offsets set other ↔ value ∈ set ∨
      placed.getD other false = true ∧
        addOverflows (offsets.getD other 0) (search.nodeAt other).size = false ∧
          value = offsets.getD other 0 + (search.nodeAt other).size := by
  unfold insertTop
  by_cases hc : (placed.getD other false &&
      !addOverflows (offsets.getD other 0) (search.nodeAt other).size) = true
  · rw [if_pos hc, mem_insert_iff]
    rw [Bool.and_eq_true, Bool.not_eq_true'] at hc
    simp only [hc.1, hc.2, true_and]
  · rw [if_neg hc]
    rw [Bool.and_eq_true, Bool.not_eq_true'] at hc
    exact ⟨.inl, fun hmem => hmem.resolve_right fun htop => hc ⟨htop.1, htop.2.1⟩⟩

/-- What a node may rest on. -/
def IsCandidate (problem : DsaProblem) (search : ReusePenaltySearchSpace) (placed : List Bool)
    (offsets : List UInt64) (current : ℕ) (value : UInt64) : Prop :=
  value = 0 ∨
    (∃ pool, problem.findPool (search.nodeAt current).pool = some pool ∧
      ∃ range ∈ pool.reservedRanges, value = range.last) ∨
    ∃ other, (other ∈ search.hardNeighborsOf current ∨
        other ∈ (search.softNeighborsOf current).map Prod.fst) ∧
      placed.getD other false = true ∧
        addOverflows (offsets.getD other 0) (search.nodeAt other).size = false ∧
          value = offsets.getD other 0 + (search.nodeAt other).size

theorem mem_supportCandidates {search : ReusePenaltySearchSpace} {placed : List Bool}
    {offsets : List UInt64} {current : ℕ} {value : UInt64} :
    value ∈ supportCandidates problem search placed offsets current true ↔
      IsCandidate problem search placed offsets current value := by
  have hzero : value ∈ (Std.TreeSet.empty.insert 0 : Std.TreeSet UInt64) ↔ value = 0 := by
    rw [mem_insert_iff]
    exact or_iff_right Std.TreeSet.not_mem_emptyc
  unfold supportCandidates IsCandidate
  dsimp only
  rw [if_pos rfl, mem_foldl_iff mem_insertTop, mem_foldl_iff mem_insertTop]
  cases hp : problem.findPool (search.nodeAt current).pool with
  | none =>
      dsimp only
      rw [hzero]
      simp only [reduceCtorEq, false_and, exists_false, false_or, or_and_right, exists_or]
      exact or_assoc
  | some pool =>
      dsimp only
      rw [mem_foldl_iff (p := fun range : AddressRange => value = range.last)
        fun _ _ => mem_insert_iff, hzero]
      simp only [Option.some.injEq, exists_eq_left', or_and_right, exists_or]
      rw [or_assoc, or_assoc]

theorem mem_canonicalOffsetsForNode {search : ReusePenaltySearchSpace} {placed : List Bool}
    {offsets : List UInt64} {current : ℕ} {offset : UInt64} :
    offset ∈ (canonicalOffsetsForNode problem search placed offsets current true).toList ↔
      ∃ value, IsCandidate problem search placed offsets current value ∧
        offset.toNat = Theory.alignUp value.toNat (search.nodeAt current).alignment.toNat := by
  unfold canonicalOffsetsForNode
  rw [Std.TreeSet.mem_toList, mem_foldl_iff (p := fun value =>
    alignUp value (search.nodeAt current).alignment = some offset),
    or_iff_right Std.TreeSet.not_mem_emptyc]
  · simp only [Std.TreeSet.mem_toList, mem_supportCandidates, alignUp_eq_some_iff]
  · intro set value
    cases hup : alignUp value (search.nodeAt current).alignment with
    | none => simp
    | some other => rw [mem_insert_iff, Option.some.injEq, eq_comm]

end Dsa
