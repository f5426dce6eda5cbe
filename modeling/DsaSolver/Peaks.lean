import DsaSolver.ValidatorFacts
import DsaSolver.Theory.Accumulate

/-! # Peaks of a placement

The peak of a pool bounds the end of every buffer placed in it (`end_le_peak`) and, without
reserved ranges, is bounded by every bound of these ends (`peak_le_of_ends`). -/

namespace Dsa

/-- The recorded peak of a pool, zero when it has no entry. -/
def ObjectiveValue.peak (objective : ObjectiveValue) (pool : PoolId) : UInt64 :=
  objective.peakByPool.getD pool 0

section peaks

variable {problem : DsaProblem} {solution : DsaSolution}

theorem getD_raisePeak_le_iff {peaks : Std.TreeMap PoolId UInt64} {pool target : PoolId}
    {value bound : UInt64} :
    (raisePeak peaks pool value).getD target 0 ≤ bound ↔
      peaks.getD target 0 ≤ bound ∧ (pool = target → value ≤ bound) := by
  rw [raisePeak, Std.TreeMap.getD_insert]
  simp only [Std.LawfulEqCmp.compare_eq_iff_eq]
  split_ifs with h
  · subst h
    rw [max_le_iff]
    simp
  · simp [h]

/-- A loop that raises peaks. -/
theorem getD_foldl_raisePeak_le_iff {α : Type*} (f : α → Option (PoolId × UInt64)) (l : List α)
    {peaks : Std.TreeMap PoolId UInt64} {target : PoolId} {bound : UInt64} :
    (l.foldl (fun peaks x => (f x).elim peaks fun e => raisePeak peaks e.1 e.2) peaks).getD target 0
        ≤ bound ↔
      peaks.getD target 0 ≤ bound ∧ ∀ x ∈ l, ∀ value, f x = some (target, value) → value ≤ bound := by
  induction l generalizing peaks with
  | nil => simp
  | cons x rest ih =>
      rw [List.foldl_cons, ih, List.forall_mem_cons]
      cases hx : f x with
      | none => simp
      | some e =>
          obtain ⟨pool, value⟩ := e
          rw [Option.elim_some, getD_raisePeak_le_iff]
          constructor
          · rintro ⟨⟨h1, h2⟩, h3⟩
            refine ⟨h1, fun v hv => ?_, h3⟩
            obtain ⟨rfl, rfl⟩ := Prod.mk.inj (Option.some.inj hv)
            exact h2 rfl
          · rintro ⟨h1, h2, h3⟩
            exact ⟨⟨h1, fun e => h2 value (by rw [show pool = target from e])⟩, h3⟩

/-- The end a placed buffer raises the peak of its pool to. -/
def placedEnd (solution : DsaSolution) (buffer : Buffer) : Option (PoolId × UInt64) :=
  match solution.find buffer.id with
  | none => none
  | some placement =>
      if addOverflows placement.offset buffer.size then none
      else some (placement.pool, placement.offset + buffer.size)

theorem peakByPool_eq_foldl (problem : DsaProblem) (solution : DsaSolution) :
    peakByPool problem solution = problem.buffers.foldl
      (fun peaks buffer => (placedEnd solution buffer).elim peaks fun e => raisePeak peaks e.1 e.2)
      (reservedPeaks problem) := by
  unfold peakByPool
  refine List.foldl_ext _ _ _ fun peaks buffer _ => ?_
  unfold placedEnd
  cases solution.find buffer.id with
  | none => rfl
  | some placement =>
      dsimp only
      split_ifs <;> rfl

/-- The peak is at least the end of every placed buffer. -/
theorem end_le_peak {buffer : Buffer} (hb : buffer ∈ problem.buffers) {placement : Placement}
    (hfind : solution.find buffer.id = some placement)
    (hover : addOverflows placement.offset buffer.size = false) :
    placement.offset + buffer.size ≤
      (evaluateObjective problem solution).peak placement.pool := by
  have h := ((getD_foldl_raisePeak_le_iff (placedEnd solution) problem.buffers).mp
    (le_of_eq (congrArg (fun peaks => peaks.getD placement.pool 0)
      (peakByPool_eq_foldl problem solution).symm))).2 buffer hb
  exact h _ (by simp [placedEnd, hfind, hover])

/-- Without reserved ranges the peaks are bounded by a bound of the ends. -/
theorem peak_le_of_ends (hreserved : ∀ pool ∈ problem.pools, pool.reservedRanges = [])
    {target : PoolId} {bound : UInt64}
    (h : ∀ buffer ∈ problem.buffers, ∀ value, placedEnd solution buffer = some (target, value) →
      value ≤ bound) : (evaluateObjective problem solution).peak target ≤ bound := by
  show (peakByPool problem solution).getD target 0 ≤ bound
  rw [peakByPool_eq_foldl, getD_foldl_raisePeak_le_iff]
  refine ⟨?_, h⟩
  have hnone : ∀ (pools : List Pool) (start : Std.TreeMap PoolId UInt64),
      (∀ pool ∈ pools, pool.reservedRanges = []) →
      pools.foldl (fun peaks pool => pool.reservedRanges.foldl
        (fun peaks reserved => raisePeak peaks pool.id reserved.last) peaks) start = start := by
    intro pools
    induction pools with
    | nil => exact fun _ _ => rfl
    | cons pool rest ih =>
        intro start hall
        rw [List.foldl_cons, hall pool List.mem_cons_self]
        exact ih start fun p hp => hall p (List.mem_cons_of_mem _ hp)
  rw [reservedPeaks, hnone _ _ hreserved]
  exact UInt64.le_iff_toNat_le.mpr (Nat.zero_le _)

theorem mem_foldl_raisePeak {α : Type*} (f : α → Option (PoolId × UInt64)) (l : List α)
    {peaks : Std.TreeMap PoolId UInt64} {target : PoolId}
    (h : target ∈ l.foldl (fun peaks x => (f x).elim peaks fun e => raisePeak peaks e.1 e.2) peaks) :
    target ∈ peaks ∨ ∃ x ∈ l, ∃ value, f x = some (target, value) := by
  induction l generalizing peaks with
  | nil => exact .inl h
  | cons x rest ih =>
      rcases ih h with h | ⟨y, hy, value, e⟩
      · dsimp only at h
        cases hx : f x with
        | none =>
            rw [hx] at h
            exact .inl h
        | some e =>
            rw [hx, Option.elim_some, raisePeak, Std.TreeMap.mem_insert,
              Std.LawfulEqCmp.compare_eq_iff_eq] at h
            rcases h with rfl | h
            · exact .inr ⟨x, List.mem_cons_self, e.2, hx⟩
            · exact .inl h
      · exact .inr ⟨y, List.mem_cons_of_mem _ hy, value, e⟩

/-- With one pool in use, the total and the largest peak are its peak. -/
theorem peaks_of_single {target : PoolId}
    (h : ∀ pool ∈ peakByPool problem solution, pool = target) :
    (evaluateObjective problem solution).totalPeak = (evaluateObjective problem solution).peak target ∧
      (evaluateObjective problem solution).maxPeak =
        (evaluateObjective problem solution).peak target := by
  have hkeys : ∀ e ∈ (peakByPool problem solution).toList, e.1 = target := by
    intro e he
    refine h _ (Std.TreeMap.mem_iff_isSome_getElem?.mpr ?_)
    exact Option.isSome_of_eq_some (Std.TreeMap.mem_toList_iff_getElem?_eq_some.mp he)
  have hdistinct := Std.TreeMap.distinct_keys_toList (t := peakByPool problem solution)
  have hget : ∀ value, (target, value) ∈ (peakByPool problem solution).toList →
      (peakByPool problem solution).getD target 0 = value := by
    intro value hmem
    rw [Std.TreeMap.getD_eq_getD_getElem?, Std.TreeMap.mem_toList_iff_getElem?_eq_some.mp hmem]
    rfl
  unfold evaluateObjective ObjectiveValue.peak
  dsimp only
  cases hlist : (peakByPool problem solution).toList with
  | nil =>
      have hnone : (peakByPool problem solution).getD target 0 = 0 := by
        rw [Std.TreeMap.getD_eq_getD_getElem?]
        cases hget : (peakByPool problem solution)[target]? with
        | none => rfl
        | some value =>
            have := Std.TreeMap.mem_toList_iff_getElem?_eq_some.mpr hget
            rw [hlist] at this
            exact absurd this List.not_mem_nil
      rw [hnone]
      exact ⟨rfl, rfl⟩
  | cons e rest =>
      rw [hlist] at hkeys hdistinct hget
      obtain ⟨pool, value⟩ := e
      obtain rfl : pool = target := hkeys _ List.mem_cons_self
      cases rest with
      | cons e' rest =>
          have hsame := hkeys e' (List.mem_cons_of_mem _ List.mem_cons_self)
          have := (List.pairwise_cons.mp hdistinct).1 e' List.mem_cons_self
          rw [hsame] at this
          exact absurd Std.ReflCmp.compare_self this
      | nil =>
          rw [hget value List.mem_cons_self, List.foldl_cons, List.foldl_nil, List.foldl_cons,
            List.foldl_nil, ← UInt64.toNat_inj, ← UInt64.toNat_inj, Theory.toNat_satAdd,
            Theory.toNat_max]
          have := value.toNat_lt
          simp only [UInt64.toNat_zero]
          omega

end peaks

end Dsa
