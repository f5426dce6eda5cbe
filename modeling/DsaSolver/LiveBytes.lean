import DsaSolver.Pairs
import DsaSolver.Peaks
import DsaSolver.StructuredProblem
import DsaSolver.Theory.EventSweep
import Mathlib.Algebra.BigOperators.Fin
import Mathlib.Data.List.Sort
import Mathlib.Order.Bounds.Defs

/-! # Live bytes

`MaxLiveBytesByPool` of `dsa_suite.cpp`: for each pool, a sweep over the starts and ends of the
merged lifetimes of the buffers that must use it.  Where it returns, the value of a pool is the
largest sum of the sizes alive at one time, and no placement of a problem with fixed pools has a
lower peak (`maxLiveBytesByPool_exact`). -/

namespace Dsa

open Theory

/-! ### `MaxLiveBytesByPool` -/

structure EventTotals where
  ending : UInt64 := 0
  starting : UInt64 := 0
deriving DecidableEq, Repr

abbrev PoolEvents := Std.TreeMap Int64 EventTotals

/-- `std::tie(first.lower, first.upper) ≤ std::tie(second.lower, second.upper)`. -/
def intervalBefore (first second : Interval) : Prop :=
  first.lower < second.lower ∨ first.lower = second.lower ∧ first.upper ≤ second.upper

instance intervalBefore.instDecidable (first second : Interval) :
    Decidable (intervalBefore first second) := inferInstanceAs (Decidable (_ ∨ _))

/-- One step of the merging loop; `merged` is kept with its back in front. -/
def mergeInterval (merged : List Interval) (interval : Interval) : List Interval :=
  match merged with
  | [] => [interval]
  | back :: rest =>
      if interval.lower > back.upper then interval :: back :: rest
      else { back with upper := max back.upper interval.upper } :: rest

/-- `merged`. -/
def mergedIntervals (buffer : Buffer) : List Interval :=
  ((buffer.liveIntervals.insertionSort intervalBefore).foldl mergeInterval []).reverse

/-- The events of one merged interval. -/
def addInterval (pool : PoolId) (size : UInt64) (eventsByPool : Std.TreeMap PoolId PoolEvents)
    (interval : Interval) : Except Exception (Std.TreeMap PoolId PoolEvents) :=
  let events := eventsByPool.getD pool ∅
  let start := events.getD interval.lower {}
  let finish := events.getD interval.upper {}
  if start.starting > maxU64 - size || finish.ending > maxU64 - size then
    .error (.overflowError "live-byte event total overflow")
  else
    let events := events.insert interval.lower { start with starting := start.starting + size }
    let finish := events.getD interval.upper {}
    .ok (eventsByPool.insert pool
      (events.insert interval.upper { finish with ending := finish.ending + size }))

/-- The events of one buffer; a buffer with a choice of pools clears `*complete`. -/
def addBuffer (state : Bool × Std.TreeMap PoolId PoolEvents) (buffer : Buffer) :
    Except Exception (Bool × Std.TreeMap PoolId PoolEvents) :=
  match buffer.allowedPools with
  | [pool] => do
      return (state.1, ← (mergedIntervals buffer).foldlM (addInterval pool buffer.size) state.2)
  | _ => return (false, state.2)

/-- One event of a sweep over `current` and `peak`. -/
def sweepStep (state : UInt64 × UInt64) (event : Int64 × EventTotals) :
    Except Exception (UInt64 × UInt64) :=
  if event.2.ending > state.1 then .error (.runtimeError "live-byte event sweep underflow")
  else if event.2.starting > maxU64 - (state.1 - event.2.ending) then
    .error (.overflowError "live-byte event sweep overflow")
  else
    let current := state.1 - event.2.ending + event.2.starting
    .ok (current, max state.2 current)

/-- The sweep of a pool, its peak the result. -/
def sweepPool (events : PoolEvents) : Except Exception UInt64 := do
  return (← events.toList.foldlM sweepStep (0, 0)).2

/-- The sweep of a pool and its entry in the result. -/
def sweepEntry (result : Std.TreeMap PoolId UInt64) (entry : PoolId × PoolEvents) :
    Except Exception (Std.TreeMap PoolId UInt64) := do
  return result.insert entry.1 (← sweepPool entry.2)

/-- `MaxLiveBytesByPool`: the result and `*complete`. -/
def maxLiveBytesByPool (problem : DsaProblem) :
    Except Exception (Std.TreeMap PoolId UInt64 × Bool) := do
  let (complete, eventsByPool) ← problem.buffers.foldlM addBuffer (true, ∅)
  let result ← eventsByPool.toList.foldlM sweepEntry ∅
  return (result, complete)

/-! ### Live buffers -/

/-- An interval of the buffer contains the time. -/
def LiveAt (buffer : Buffer) (time : Int64) : Prop :=
  ∃ interval ∈ buffer.liveIntervals, interval.lower ≤ time ∧ time < interval.upper

instance LiveAt.instDecidable (buffer : Buffer) (time : Int64) : Decidable (LiveAt buffer time) :=
  inferInstanceAs (Decidable (∃ interval ∈ buffer.liveIntervals, _))

/-- The bytes alive at a time that no other pool can hold. -/
def liveBytes (problem : DsaProblem) (pool : PoolId) (time : Int64) : ℕ :=
  (problem.buffers.map fun buffer =>
    if buffer.allowedPools = [pool] ∧ LiveAt buffer time then buffer.size.toNat else 0).sum

/-! ### Merged lifetimes -/

def intervalBounds (interval : Interval) : ℤ × ℤ := (interval.lower.toInt, interval.upper.toInt)

theorem toInt_max (a b : Int64) : (max a b).toInt = max a.toInt b.toInt := by
  change (if a ≤ b then b else a).toInt = _
  split_ifs with h
  · exact (max_eq_right (Int64.le_iff_toInt_le.mp h)).symm
  · have hlt := Int64.lt_iff_toInt_lt.mp (Int64.not_le.mp h)
    exact (max_eq_left hlt.le).symm

theorem map_mergeInterval (merged : List Interval) (interval : Interval) :
    (mergeInterval merged interval).map intervalBounds =
      mergeInto (merged.map intervalBounds) (intervalBounds interval) := by
  cases merged with
  | nil => rfl
  | cons back rest =>
      unfold mergeInterval mergeInto
      by_cases hgap : back.upper < interval.lower
      · have hgap' : (intervalBounds back).2 < (intervalBounds interval).1 :=
          Int64.lt_iff_toInt_lt.mp hgap
        simp [hgap, hgap']
      · have hgap' : ¬(intervalBounds back).2 < (intervalBounds interval).1 :=
          fun hlt => hgap (Int64.lt_iff_toInt_lt.mpr hlt)
        simp only [List.map_cons, gt_iff_lt, if_neg hgap, if_neg hgap']
        simp only [intervalBounds, toInt_max]

instance intervalBefore.instTotal : Std.Total intervalBefore where
  total first second := by
    unfold intervalBefore
    simp only [Int64.lt_iff_toInt_lt, Int64.le_iff_toInt_le, ← Int64.toInt_inj]
    omega

instance intervalBefore.instTrans : IsTrans Interval intervalBefore where
  trans first second third := by
    unfold intervalBefore
    simp only [Int64.lt_iff_toInt_lt, Int64.le_iff_toInt_le, ← Int64.toInt_inj]
    omega

/-- The merged lifetimes are separated and contain the times of the lifetimes. -/
theorem mergedIntervals_spec {buffer : Buffer}
    (hne : ∀ interval ∈ buffer.liveIntervals, interval.lower < interval.upper) :
    SeparatedRanges ((mergedIntervals buffer).map intervalBounds) ∧
      ∀ time : Int64, InRanges ((mergedIntervals buffer).map intervalBounds) time.toInt ↔
        LiveAt buffer time := by
  have hfold : ∀ (intervals merged : List Interval),
      (intervals.foldl mergeInterval merged).map intervalBounds =
        (intervals.map intervalBounds).foldl mergeInto (merged.map intervalBounds) := by
    intro intervals
    induction intervals with
    | nil => exact fun _ => rfl
    | cons interval rest ih => exact fun merged => by simp [ih, map_mergeInterval]
  have hmem : ∀ interval, interval ∈ buffer.liveIntervals.insertionSort intervalBefore ↔
      interval ∈ buffer.liveIntervals :=
    fun interval => (List.perm_insertionSort intervalBefore _).mem_iff
  obtain ⟨hseparated, hcover⟩ := @mergeAll_spec ℤ _
    ((buffer.liveIntervals.insertionSort intervalBefore).map intervalBounds)
    (fun r hr => by
      obtain ⟨interval, hinterval, rfl⟩ := List.mem_map.mp hr
      exact Int64.lt_iff_toInt_lt.mp (hne interval ((hmem interval).mp hinterval)))
    (by
      rw [List.pairwise_map]
      refine (List.pairwise_insertionSort intervalBefore _).imp fun hbefore => ?_
      unfold intervalBefore at hbefore
      simp only [Int64.lt_iff_toInt_lt, ← Int64.toInt_inj] at hbefore
      unfold intervalBounds
      omega)
  have hmap : (mergedIntervals buffer).map intervalBounds =
      (((buffer.liveIntervals.insertionSort intervalBefore).map intervalBounds).foldl mergeInto
        []).reverse := by
    rw [mergedIntervals, List.map_reverse, hfold, List.map_nil]
  rw [hmap]
  refine ⟨hseparated, fun time => ?_⟩
  rw [hcover]
  simp only [InRanges, List.mem_map, exists_exists_and_eq_and, hmem, LiveAt, intervalBounds, Int64.le_iff_toInt_le,
    Int64.lt_iff_toInt_lt]

/-! ### The recorded events -/

/-- The spans of a buffer. -/
def spansOf (buffer : Buffer) : List (Span ℤ) :=
  ((mergedIntervals buffer).map intervalBounds).map fun r => ⟨r.1, r.2, buffer.size.toNat⟩

/-- The spans of the buffers that must use the pool. -/
def poolSpans (buffers : List Buffer) (pool : PoolId) : List (Span ℤ) :=
  buffers.flatMap fun buffer => if buffer.allowedPools = [pool] then spansOf buffer else []

/-- The events of a pool are the starts and stops of its spans, with what starts and stops. -/
structure Recorded (spans : List (Span ℤ)) (events : PoolEvents) : Prop where
  starting : ∀ time, (events.getD time {}).starting.toNat = startingAt spans time.toInt
  ending : ∀ time, (events.getD time {}).ending.toNat = endingAt spans time.toInt
  mem_iff : ∀ time, time ∈ events ↔ ∃ s ∈ spans, s.start = time.toInt ∨ s.stop = time.toInt
  times : ∀ s ∈ spans, ∃ first last : Int64, s.start = first.toInt ∧ s.stop = last.toInt

theorem recorded_empty : Recorded [] ∅ where
  starting time := by simp [startingAt, Theory.weightOf]
  ending time := by simp [endingAt, Theory.weightOf]
  mem_iff time := by simp
  times s hs := absurd hs List.not_mem_nil

theorem startingAt_concat (spans : List (Span ℤ)) (s : Span ℤ) (t : ℤ) :
    startingAt (spans ++ [s]) t = startingAt spans t + if s.start = t then s.weight else 0 := by
  simp [startingAt, Theory.weightOf]

theorem endingAt_concat (spans : List (Span ℤ)) (s : Span ℤ) (t : ℤ) :
    endingAt (spans ++ [s]) t = endingAt spans t + if s.stop = t then s.weight else 0 := by
  simp [endingAt, Theory.weightOf]

theorem toNat_add_of_not_gt {a b : UInt64} (h : ¬a > maxU64 - b) :
    (a + b).toNat = a.toNat + b.toNat := by
  have hmax : maxU64.toNat = 2 ^ 64 - 1 := rfl
  have hb := b.toNat_lt
  rw [gt_iff_lt, UInt64.not_lt, UInt64.le_iff_toNat_le,
    UInt64.toNat_sub_of_le _ _ (UInt64.le_iff_toNat_le.mpr (by omega))] at h
  exact toNat_add_of_lt (by omega)

/-- One interval adds its span to its pool. -/
theorem addInterval_spec {pool : PoolId} {size : UInt64} {interval : Interval}
    {eventsByPool next : Std.TreeMap PoolId PoolEvents} {spans : List (Span ℤ)}
    (hrecorded : Recorded spans (eventsByPool.getD pool ∅))
    (hproper : interval.lower < interval.upper)
    (h : addInterval pool size eventsByPool interval = .ok next) :
    Recorded (spans ++ [⟨interval.lower.toInt, interval.upper.toInt, size.toNat⟩])
        (next.getD pool ∅) ∧
      ∀ other, other ≠ pool → next[other]? = eventsByPool[other]? := by
  unfold addInterval at h
  dsimp only at h
  split_ifs at h with hover
  obtain rfl := Except.ok.inj h
  rw [Bool.or_eq_true, not_or, decide_eq_true_eq, decide_eq_true_eq] at hover
  obtain ⟨hstart, hstop⟩ := hover
  have hne : interval.lower ≠ interval.upper := by
    intro heq
    rw [heq] at hproper
    exact Int64.lt_irrefl hproper
  constructor
  · rw [Std.TreeMap.getD_insert_self]
    constructor
    · intro time
      rw [startingAt_concat, ← hrecorded.starting]
      dsimp only
      by_cases hlower : interval.lower = time
      · subst hlower
        rw [if_pos rfl, Std.TreeMap.getD_insert, if_neg, Std.TreeMap.getD_insert_self]
        · exact toNat_add_of_not_gt hstart
        · rw [Std.LawfulEqCmp.compare_eq_iff_eq]
          exact hne.symm
      · rw [if_neg (fun heq => hlower (Int64.toInt_inj.mp heq)), Nat.add_zero]
        by_cases hupper : interval.upper = time
        · subst hupper
          rw [Std.TreeMap.getD_insert_self, Std.TreeMap.getD_insert, if_neg]
          rw [Std.LawfulEqCmp.compare_eq_iff_eq]
          exact hlower
        · rw [Std.TreeMap.getD_insert, if_neg, Std.TreeMap.getD_insert, if_neg]
          · rw [Std.LawfulEqCmp.compare_eq_iff_eq]
            exact hlower
          · rw [Std.LawfulEqCmp.compare_eq_iff_eq]
            exact hupper
    · intro time
      rw [endingAt_concat, ← hrecorded.ending]
      dsimp only
      by_cases hupper : interval.upper = time
      · subst hupper
        rw [if_pos rfl, Std.TreeMap.getD_insert_self, Std.TreeMap.getD_insert, if_neg]
        · exact toNat_add_of_not_gt hstop
        · rw [Std.LawfulEqCmp.compare_eq_iff_eq]
          exact hne
      · rw [if_neg (fun heq => hupper (Int64.toInt_inj.mp heq)), Nat.add_zero,
          Std.TreeMap.getD_insert, if_neg]
        · by_cases hlower : interval.lower = time
          · subst hlower
            rw [Std.TreeMap.getD_insert_self]
          · rw [Std.TreeMap.getD_insert, if_neg]
            rw [Std.LawfulEqCmp.compare_eq_iff_eq]
            exact hlower
        · rw [Std.LawfulEqCmp.compare_eq_iff_eq]
          exact hupper
    · intro time
      rw [Std.TreeMap.mem_insert, Std.TreeMap.mem_insert, hrecorded.mem_iff,
        Std.LawfulEqCmp.compare_eq_iff_eq, Std.LawfulEqCmp.compare_eq_iff_eq,
        ← Int64.toInt_inj, ← Int64.toInt_inj]
      simp only [List.mem_append, List.mem_singleton, or_and_right, exists_or, exists_eq_left]
      generalize (∃ s ∈ spans, s.start = time.toInt ∨ s.stop = time.toInt) = earlier
      tauto
    · intro s hs
      rcases List.mem_append.mp hs with hs | hs
      · exact hrecorded.times s hs
      · rw [List.mem_singleton.mp hs]
        exact ⟨_, _, rfl, rfl⟩
  · intro other hother
    rw [Std.TreeMap.getElem?_insert, if_neg]
    rw [Std.LawfulEqCmp.compare_eq_iff_eq]
    exact fun heq => hother heq.symm

theorem poolSpans_concat (buffers : List Buffer) (buffer : Buffer) (pool : PoolId) :
    poolSpans (buffers ++ [buffer]) pool =
      poolSpans buffers pool ++ if buffer.allowedPools = [pool] then spansOf buffer else [] := by
  simp [poolSpans]

/-- The events of every pool are recorded. -/
def AllRecorded (buffers : List Buffer) (eventsByPool : Std.TreeMap PoolId PoolEvents) : Prop :=
  ∀ pool, Recorded (poolSpans buffers pool) (eventsByPool.getD pool ∅)

theorem getD_eq_of_getElem? {m m' : Std.TreeMap PoolId PoolEvents} {pool : PoolId}
    (h : m[pool]? = m'[pool]?) : m.getD pool ∅ = m'.getD pool ∅ := by
  rw [Std.TreeMap.getD_eq_getD_getElem?, Std.TreeMap.getD_eq_getD_getElem?, h]

/-- The loop over the merged intervals of a buffer. -/
theorem foldlM_addInterval_spec {pool : PoolId} {size : UInt64} {intervals : List Interval}
    {eventsByPool result : Std.TreeMap PoolId PoolEvents} {spans : List (Span ℤ)}
    (hrecorded : Recorded spans (eventsByPool.getD pool ∅))
    (hproper : ∀ interval ∈ intervals, interval.lower < interval.upper)
    (h : intervals.foldlM (addInterval pool size) eventsByPool = .ok result) :
    Recorded (spans ++ (intervals.map intervalBounds).map fun r => ⟨r.1, r.2, size.toNat⟩)
        (result.getD pool ∅) ∧
      ∀ other, other ≠ pool → result[other]? = eventsByPool[other]? := by
  induction intervals generalizing eventsByPool spans with
  | nil =>
      obtain rfl := Except.ok.inj h
      simpa using hrecorded
  | cons interval rest ih =>
      rw [List.foldlM_cons, bind_eq_ok] at h
      obtain ⟨next, hnext, h⟩ := h
      rw [List.forall_mem_cons] at hproper
      obtain ⟨hstep, hother⟩ := addInterval_spec hrecorded hproper.1 hnext
      obtain ⟨hresult, hrest⟩ := ih hstep hproper.2 h
      refine ⟨?_, fun other hne => (hrest other hne).trans (hother other hne)⟩
      simpa [intervalBounds, List.append_assoc] using hresult

theorem mergedIntervals_proper {buffer : Buffer}
    (hne : ∀ interval ∈ buffer.liveIntervals, interval.lower < interval.upper) :
    ∀ interval ∈ mergedIntervals buffer, interval.lower < interval.upper := by
  intro interval hinterval
  have hlt := (mergedIntervals_spec hne).1.nonEmpty _ (List.mem_map_of_mem hinterval)
  exact Int64.lt_iff_toInt_lt.mpr hlt

/-- One buffer adds its spans to its only pool. -/
theorem addBuffer_spec {done : List Buffer} {buffer : Buffer}
    {state next : Bool × Std.TreeMap PoolId PoolEvents}
    (hne : ∀ interval ∈ buffer.liveIntervals, interval.lower < interval.upper)
    (hrecorded : AllRecorded done state.2) (h : addBuffer state buffer = .ok next) :
    AllRecorded (done ++ [buffer]) next.2 := by
  intro pool
  rw [poolSpans_concat]
  unfold addBuffer at h
  split at h
  · rename_i only hallowed
    obtain ⟨result, hresult, h⟩ := bind_eq_ok.mp h
    obtain rfl := Except.ok.inj h
    obtain ⟨hown, hother⟩ := foldlM_addInterval_spec (hrecorded only) (mergedIntervals_proper hne)
      hresult
    rw [hallowed]
    by_cases hpool : pool = only
    · subst hpool
      rw [if_pos rfl]
      exact hown
    · rw [if_neg (fun heq => hpool (List.singleton_inj.mp heq).symm), List.append_nil]
      dsimp only
      rw [getD_eq_of_getElem? (hother pool hpool)]
      exact hrecorded pool
  · rename_i hallowed
    obtain rfl := Except.ok.inj h
    rw [if_neg (hallowed pool), List.append_nil]
    exact hrecorded pool

/-- Only an overflow stops the recording. -/
theorem addBuffer_error {state : Bool × Std.TreeMap PoolId PoolEvents} {buffer : Buffer}
    {error : Exception} (h : addBuffer state buffer = .error error) :
    ∃ message, error = .overflowError message := by
  have key : ∀ (pool : PoolId) (size : UInt64) (intervals : List Interval)
      (eventsByPool : Std.TreeMap PoolId PoolEvents),
      intervals.foldlM (addInterval pool size) eventsByPool = .error error →
        ∃ message, error = .overflowError message := by
    intro pool size intervals eventsByPool h
    obtain ⟨-, interval, -, before, -, -, hstep⟩ :=
      foldlM_error (fun _ _ => True) trivial (fun _ _ _ _ _ _ _ _ => trivial) h
    unfold addInterval at hstep
    dsimp only at hstep
    split_ifs at hstep
    exact ⟨_, (Except.error.inj hstep).symm⟩
  unfold addBuffer at h
  split at h
  · rcases bind_eq_error.mp h with h | ⟨_, _, h⟩
    · exact key _ _ _ _ h
    · cases h
  · cases h

/-! ### The sweep -/

theorem weightAt_poolSpans {problem : DsaProblem} (hvalid : validateProblem problem = [])
    (pool : PoolId) (time : Int64) :
    weightAt (poolSpans problem.buffers pool) time.toInt = liveBytes problem pool time := by
  have hproper : ∀ buffer ∈ problem.buffers, ∀ interval ∈ buffer.liveIntervals,
      interval.lower < interval.upper := fun buffer hb interval hi => interval_lt hvalid hb hi
  unfold liveBytes
  generalize problem.buffers = buffers at hproper ⊢
  induction buffers with
  | nil => rfl
  | cons buffer rest ih =>
      rw [List.forall_mem_cons] at hproper
      obtain ⟨hseparated, hcover⟩ := mergedIntervals_spec hproper.1
      have hone : weightAt (if buffer.allowedPools = [pool] then spansOf buffer else [])
          time.toInt =
            if buffer.allowedPools = [pool] ∧ LiveAt buffer time then buffer.size.toNat else 0 := by
        by_cases hallowed : buffer.allowedPools = [pool]
        · rw [if_pos hallowed, spansOf, sum_separated hseparated]
          exact if_congr (by rw [hcover, and_iff_right hallowed]) rfl rfl
        · rw [if_neg hallowed, if_neg fun h => hallowed h.1]
          rfl
      rw [List.map_cons, List.sum_cons, ← ih hproper.2, ← hone]
      exact weightOf_append _ _ _

theorem eventsOf_recorded {spans : List (Span ℤ)} {events : PoolEvents} (h : Recorded spans events)
    (hproper : ∀ s ∈ spans, s.start < s.stop) :
    EventsOf spans (events.toList.map fun e => e.1.toInt) := by
  have hmem : ∀ time, time ∈ events → time.toInt ∈ events.toList.map fun e => e.1.toInt := by
    intro time htime
    obtain ⟨totals, htotals⟩ := Option.isSome_iff_exists.mp
      (Std.TreeMap.mem_iff_isSome_getElem?.mp htime)
    exact List.mem_map.mpr ⟨(time, totals), Std.TreeMap.mem_toList_iff_getElem?_eq_some.mpr htotals,
      rfl⟩
  refine ⟨?_, hproper, fun s hs => ?_, fun s hs => ?_⟩
  · rw [List.pairwise_map]
    exact Std.TreeMap.ordered_keys_toList.imp fun hlt =>
      Int64.lt_iff_toInt_lt.mp (Std.compare_eq_lt.mp hlt)
  · obtain ⟨first, last, hfirst, -⟩ := h.times s hs
    rw [hfirst]
    exact hmem first ((h.mem_iff first).mpr ⟨s, hs, .inl hfirst⟩)
  · obtain ⟨first, last, -, hlast⟩ := h.times s hs
    rw [hlast]
    exact hmem last ((h.mem_iff last).mpr ⟨s, hs, .inr hlast⟩)

/-- The variables of a sweep after the events done: `current` is the active weight, `peak` the
largest weight at an event. -/
structure SweptTo (spans : List (Span ℤ)) (done : List (Int64 × EventTotals))
    (state : UInt64 × UInt64) : Prop where
  current : state.1.toNat = activeAfter spans (done.map fun e => e.1.toInt)
  bound : ∀ e ∈ done, weightAt spans e.1.toInt ≤ state.2.toNat
  attained : state.2.toNat = 0 ∨ ∃ e ∈ done, weightAt spans e.1.toInt = state.2.toNat

section sweep

variable {spans : List (Span ℤ)} {events : PoolEvents} {done rest : List (Int64 × EventTotals)}
  {event : Int64 × EventTotals} {state next : UInt64 × UInt64}

/-- What stops at an event is active before it. -/
theorem SweptTo.ending_le (h : SweptTo spans done state) (hrecorded : Recorded spans events)
    (hproper : ∀ s ∈ spans, s.start < s.stop) (hsplit : events.toList = done ++ event :: rest) :
    event.2.ending.toNat = endingAt spans event.1.toInt ∧
      event.2.starting.toNat = startingAt spans event.1.toInt ∧
      event.2.ending ≤ state.1 ∧
      activeAfter spans ((done ++ [event]).map fun e => e.1.toInt) + event.2.ending.toNat =
        state.1.toNat + event.2.starting.toNat ∧
      activeAfter spans ((done ++ [event]).map fun e => e.1.toInt) =
        weightAt spans event.1.toInt := by
  have hmem : event ∈ events.toList := by
    rw [hsplit]
    exact List.mem_append_right _ List.mem_cons_self
  have hget : events.getD event.1 {} = event.2 := by
    rw [Std.TreeMap.getD_eq_getD_getElem?, Std.TreeMap.mem_toList_iff_getElem?_eq_some.mp hmem]
    rfl
  have hending := hrecorded.ending event.1
  have hstarting := hrecorded.starting event.1
  rw [hget] at hending hstarting
  have hevents := eventsOf_recorded hrecorded hproper
  rw [hsplit, List.map_append, List.map_cons] at hevents
  obtain ⟨hle, heq⟩ := activeAfter_step hevents
  have hweight := activeAfter_eq_weightAt hevents
  rw [List.map_append, List.map_singleton]
  rw [← h.current] at hle heq
  refine ⟨hending, hstarting, ?_, ?_, hweight⟩
  · rw [UInt64.le_iff_toNat_le, hending]
    exact hle
  · rw [hending, hstarting]
    exact heq

theorem SweptTo.step (h : SweptTo spans done state) (hrecorded : Recorded spans events)
    (hproper : ∀ s ∈ spans, s.start < s.stop) (hsplit : events.toList = done ++ event :: rest)
    (hnext : sweepStep state event = .ok next) : SweptTo spans (done ++ [event]) next := by
  obtain ⟨-, -, hle, hactive, hweight⟩ := h.ending_le hrecorded hproper hsplit
  unfold sweepStep at hnext
  split_ifs at hnext with hunder hover
  obtain rfl := Except.ok.inj hnext
  have hle' := UInt64.le_iff_toNat_le.mp hle
  have hcurrent : (state.1 - event.2.ending + event.2.starting).toNat =
      weightAt spans event.1.toInt := by
    have hadd := toNat_add_of_not_gt (a := event.2.starting) (b := state.1 - event.2.ending) hover
    rw [UInt64.add_comm, hadd, UInt64.toNat_sub_of_le _ _ hle, ← hweight]
    omega
  refine ⟨?_, ?_, ?_⟩
  · rw [hweight]
    exact hcurrent
  · intro e he
    dsimp only
    rw [toNat_max, hcurrent]
    rcases List.mem_append.mp he with he | he
    · exact le_max_of_le_left (h.bound e he)
    · rw [List.mem_singleton.mp he]
      exact le_max_right _ _
  · dsimp only
    rw [toNat_max, hcurrent]
    rcases le_total state.2.toNat (weightAt spans event.1.toInt) with hmax | hmax
    · rw [max_eq_right hmax]
      exact .inr ⟨event, List.mem_append_right _ List.mem_cons_self, rfl⟩
    · rw [max_eq_left hmax]
      rcases h.attained with hzero | ⟨e, he, heq⟩
      · exact .inl hzero
      · exact .inr ⟨e, List.mem_append_left _ he, heq⟩

theorem sweptTo_nil (spans : List (Span ℤ)) : SweptTo spans [] (0, 0) where
  current := activeAfter_nil.symm
  bound _ he := absurd he List.not_mem_nil
  attained := .inl rfl

/-- The peak of a sweep is the largest weight of a time. -/
theorem sweepPool_ok (hrecorded : Recorded spans events) (hproper : ∀ s ∈ spans, s.start < s.stop)
    {peak : UInt64} (h : sweepPool events = .ok peak) :
    (∀ time, weightAt spans time ≤ peak.toNat) ∧
      ∃ time : Int64, weightAt spans time.toInt = peak.toNat := by
  obtain ⟨final, hfinal, h⟩ := bind_eq_ok.mp h
  obtain rfl := Except.ok.inj h
  have hswept := foldlM_induction (SweptTo spans) (sweptTo_nil spans)
    (fun _ _ _ _ _ hsplit hstate hstep => hstate.step hrecorded hproper hsplit hstep) hfinal
  have hbound : ∀ time, weightAt spans time ≤ final.2.toNat := by
    refine weightAt_le_of_events (eventsOf_recorded hrecorded hproper) fun time htime => ?_
    obtain ⟨e, he, rfl⟩ := List.mem_map.mp htime
    exact hswept.bound e he
  refine ⟨hbound, ?_⟩
  rcases hswept.attained with hzero | ⟨e, -, heq⟩
  · refine ⟨0, ?_⟩
    have hle := hbound (Int64.toInt 0)
    omega
  · exact ⟨e.1, heq⟩

/-- A sweep over recorded events stops at an overflow only. -/
theorem sweepPool_error (hrecorded : Recorded spans events)
    (hproper : ∀ s ∈ spans, s.start < s.stop) {error : Exception}
    (h : sweepPool events = .error error) : ∃ message, error = .overflowError message := by
  rcases bind_eq_error.mp h with h | ⟨_, _, h⟩
  · obtain ⟨done, event, rest, state, hsplit, hstate, hstep⟩ := foldlM_error (SweptTo spans)
      (sweptTo_nil spans)
      (fun _ _ _ _ _ hsplit hstate hstep => hstate.step hrecorded hproper hsplit hstep) h
    obtain ⟨-, -, hle, -⟩ := hstate.ending_le hrecorded hproper hsplit
    unfold sweepStep at hstep
    split_ifs at hstep with hunder hover
    · exact absurd hunder (UInt64.not_lt.mpr hle)
    · exact ⟨_, (Except.error.inj hstep).symm⟩
  · cases h

end sweep

/-! ### The result -/

section result

variable {problem : DsaProblem}

theorem proper_poolSpans (hvalid : validateProblem problem = []) (pool : PoolId) :
    ∀ s ∈ poolSpans problem.buffers pool, s.start < s.stop := by
  intro s hs
  obtain ⟨buffer, hbuffer, hs⟩ := List.mem_flatMap.mp hs
  split_ifs at hs
  · obtain ⟨r, hr, rfl⟩ := List.mem_map.mp hs
    have hne : ∀ interval ∈ buffer.liveIntervals, interval.lower < interval.upper :=
      fun interval hi => interval_lt hvalid hbuffer hi
    exact (mergedIntervals_spec hne).1.nonEmpty r hr
  · cases hs

theorem allRecorded_of_ok (hvalid : validateProblem problem = [])
    {state : Bool × Std.TreeMap PoolId PoolEvents}
    (h : problem.buffers.foldlM addBuffer (true, ∅) = .ok state) :
    AllRecorded problem.buffers state.2 := by
  refine foldlM_induction (fun done state => AllRecorded done state.2) ?_ ?_ h
  · intro pool
    rw [Std.TreeMap.getD_emptyc]
    exact recorded_empty
  · intro done buffer rest state next hsplit hstate hstep
    have hbuffer : buffer ∈ problem.buffers := by
      rw [hsplit]
      exact List.mem_append_right _ List.mem_cons_self
    exact addBuffer_spec (fun interval hi => interval_lt hvalid hbuffer hi) hstate hstep

/-- The entries of the pools swept so far. -/
theorem foldlM_sweepEntry_spec {entries : List (PoolId × PoolEvents)}
    {start result : Std.TreeMap PoolId UInt64}
    (hdistinct : entries.Pairwise fun a b => a.1 ≠ b.1)
    (h : entries.foldlM sweepEntry start = .ok result) :
    (∀ entry ∈ entries, sweepPool entry.2 = .ok (result.getD entry.1 0)) ∧
      ∀ pool, (∀ entry ∈ entries, entry.1 ≠ pool) → result.getD pool 0 = start.getD pool 0 := by
  induction entries generalizing start with
  | nil =>
      obtain rfl := Except.ok.inj h
      exact ⟨fun _ hentry => absurd hentry List.not_mem_nil, fun _ _ => rfl⟩
  | cons entry rest ih =>
      rw [List.foldlM_cons, bind_eq_ok] at h
      obtain ⟨next, hnext, h⟩ := h
      obtain ⟨peak, hpeak, hnext⟩ := bind_eq_ok.mp hnext
      obtain rfl := Except.ok.inj hnext
      obtain ⟨hfirst, hrest⟩ := List.pairwise_cons.mp hdistinct
      obtain ⟨hentries, hother⟩ := ih hrest h
      constructor
      · rw [List.forall_mem_cons]
        refine ⟨?_, hentries⟩
        rw [hother entry.1 fun other hmem heq => hfirst other hmem heq.symm,
          Std.TreeMap.getD_insert_self]
        exact hpeak
      · intro pool hpool
        rw [List.forall_mem_cons] at hpool
        rw [hother pool hpool.2, Std.TreeMap.getD_insert, if_neg]
        rw [Std.LawfulEqCmp.compare_eq_iff_eq]
        exact hpool.1

theorem pairwise_keys (m : Std.TreeMap PoolId PoolEvents) :
    m.toList.Pairwise fun a b => a.1 ≠ b.1 :=
  Std.TreeMap.distinct_keys_toList.imp fun h heq =>
    h (Std.LawfulEqCmp.compare_eq_iff_eq.mpr heq)

theorem getD_eq_of_mem_toList {m : Std.TreeMap PoolId PoolEvents} {entry : PoolId × PoolEvents}
    (h : entry ∈ m.toList) : m.getD entry.1 ∅ = entry.2 := by
  rw [Std.TreeMap.getD_eq_getD_getElem?, Std.TreeMap.mem_toList_iff_getElem?_eq_some.mp h]
  rfl

/-- The value of a pool is the most bytes alive at a time. -/
theorem isGreatest_of_ok (hvalid : validateProblem problem = [])
    {result : Std.TreeMap PoolId UInt64} {complete : Bool}
    (h : maxLiveBytesByPool problem = .ok (result, complete)) (pool : PoolId) :
    IsGreatest {bytes | ∃ time, liveBytes problem pool time = bytes} (result.getD pool 0).toNat := by
  obtain ⟨state, hstate, h⟩ := bind_eq_ok.mp h
  obtain ⟨swept, hswept, h⟩ := bind_eq_ok.mp h
  obtain ⟨rfl, -⟩ := Prod.mk.inj (Except.ok.inj h)
  have hrecorded := allRecorded_of_ok hvalid hstate pool
  have hproper := proper_poolSpans hvalid pool
  obtain ⟨hentries, hother⟩ := foldlM_sweepEntry_spec (pairwise_keys state.2) hswept
  have key : (∀ time, weightAt (poolSpans problem.buffers pool) time ≤
      (swept.getD pool 0).toNat) ∧
        ∃ time : Int64, weightAt (poolSpans problem.buffers pool) time.toInt =
          (swept.getD pool 0).toNat := by
    by_cases hpool : ∃ entry ∈ state.2.toList, entry.1 = pool
    · obtain ⟨entry, hentry, rfl⟩ := hpool
      rw [getD_eq_of_mem_toList hentry] at hrecorded
      exact sweepPool_ok hrecorded hproper (hentries entry hentry)
    · -- No buffer has this pool as its only one.
      have hnone : ∀ entry ∈ state.2.toList, entry.1 ≠ pool :=
        fun entry hentry heq => hpool ⟨entry, hentry, heq⟩
      have hempty : state.2.getD pool ∅ = ∅ := by
        rw [Std.TreeMap.getD_eq_getD_getElem?]
        cases hget : state.2[pool]? with
        | none => rfl
        | some events =>
            have hmem := Std.TreeMap.mem_toList_iff_getElem?_eq_some.mpr hget
            exact absurd rfl (hnone _ hmem)
      rw [hempty] at hrecorded
      have hweight : ∀ time, weightAt (poolSpans problem.buffers pool) time ≤ 0 :=
        weightAt_le_of_events (eventsOf_recorded hrecorded hproper)
          fun time htime => by simp at htime
      rw [hother pool hnone, Std.TreeMap.getD_emptyc]
      exact ⟨hweight, 0, Nat.le_zero.mp (hweight _)⟩
  obtain ⟨hbound, time, htime⟩ := key
  constructor
  · exact ⟨time, by rw [← weightAt_poolSpans hvalid, htime]⟩
  · rintro bytes ⟨time, rfl⟩
    rw [← weightAt_poolSpans hvalid]
    exact hbound time.toInt

/-- Nothing but an overflow is thrown. -/
theorem maxLiveBytesByPool_error (hvalid : validateProblem problem = []) {error : Exception}
    (h : maxLiveBytesByPool problem = .error error) : ∃ message, error = .overflowError message := by
  rcases bind_eq_error.mp h with h | ⟨state, hstate, h⟩
  · obtain ⟨-, buffer, -, before, -, -, hstep⟩ :=
      foldlM_error (fun _ _ => True) trivial (fun _ _ _ _ _ _ _ _ => trivial) h
    exact addBuffer_error hstep
  · have hrecorded := allRecorded_of_ok hvalid hstate
    rcases bind_eq_error.mp h with h | ⟨_, _, h⟩
    · obtain ⟨done, entry, rest, before, hsplit, -, hstep⟩ :=
        foldlM_error (fun _ _ => True) trivial (fun _ _ _ _ _ _ _ _ => trivial) h
      have hentry : entry ∈ state.2.toList := by
        rw [hsplit]
        exact List.mem_append_right _ List.mem_cons_self
      have hown := hrecorded entry.1
      rw [getD_eq_of_mem_toList hentry] at hown
      rcases bind_eq_error.mp hstep with hstep | ⟨_, _, hstep⟩
      · exact sweepPool_error hown (proper_poolSpans hvalid entry.1) hstep
      · cases hstep
    · cases h

end result

/-! ### The lower bound -/

theorem lifetimesOverlap_of_liveAt {first second : Buffer} {time : Int64} (h : LiveAt first time)
    (h' : LiveAt second time) : lifetimesOverlap first second = true := by
  obtain ⟨a, ha, hle, hlt⟩ := h
  obtain ⟨b, hb, hle', hlt'⟩ := h'
  rw [lifetimesOverlap, List.any_eq_true]
  refine ⟨a, ha, List.any_eq_true.mpr ⟨b, hb, ?_⟩⟩
  rw [Int64.le_iff_toInt_le] at hle hle'
  rw [Int64.lt_iff_toInt_lt] at hlt hlt'
  simp only [Interval.overlaps, Bool.and_eq_true, decide_eq_true_eq, Int64.lt_iff_toInt_lt]
  omega

/-- The buffers alive at one time lie apart below the peak. -/
theorem liveBytes_le_peak {problem : DsaProblem} (hcolocations : problem.colocations = [])
    (hexclusions : problem.temporalExclusions = []) {solution : DsaSolution}
    (hs : validateSolution problem solution = []) (pool : PoolId) (time : Int64) :
    liveBytes problem pool time ≤ ((evaluateObjective problem solution).peak pool).toNat := by
  obtain ⟨hvalid, hok⟩ := (validateSolution_eq_nil_iff _ _).mp hs
  have hw := WellFormed.of_validateProblem hvalid
  let live : Finset (Fin problem.buffers.length) := Finset.univ.filter fun i =>
    (problem.bufferAt i).allowedPools = [pool] ∧ LiveAt (problem.bufferAt i) time
  let offset : Fin problem.buffers.length → ℕ := fun i =>
    ((solution.find (problem.bufferAt i).id).elim 0 Placement.offset).toNat
  have hsum : liveBytes problem pool time = ∑ i ∈ live, (problem.bufferAt i).size.toNat := by
    have hlist := Fin.sum_univ_fun_getElem problem.buffers fun buffer =>
      if buffer.allowedPools = [pool] ∧ LiveAt buffer time then buffer.size.toNat else 0
    rw [liveBytes, ← hlist, Finset.sum_filter]
    refine Finset.sum_congr rfl fun i _ => ?_
    rw [bufferAt_eq i.isLt]
  have hplaced : ∀ i ∈ live, ∃ placement,
      solution.find (problem.bufferAt i).id = some placement ∧ placement.pool = pool ∧
        addOverflows placement.offset (problem.bufferAt i).size = false := by
    intro i hi
    obtain ⟨-, hallowed, -⟩ := Finset.mem_filter.mp hi
    obtain ⟨placement, hfind, hplacedOk⟩ := hok.placed _ (bufferAt_mem i.isLt)
    have hpool := hplacedOk.allowed
    rw [hallowed, List.mem_singleton] at hpool
    exact ⟨placement, hfind, hpool, hplacedOk.noOverflow⟩
  have hapart : ∀ i ∈ live, ∀ j ∈ live, i < j →
      Theory.Apart (offset i) (problem.bufferAt i).size.toNat (offset j)
        (problem.bufferAt j).size.toNat := by
    intro i hi j hj hij
    obtain ⟨first, hfirst, hfirstPool, hfirstOver⟩ := hplaced i hi
    obtain ⟨second, hsecond, hsecondPool, hsecondOver⟩ := hplaced j hj
    have hpair := hok.lifetimes i j hij j.isLt
    rw [lifetimePairErrors_eq_nil_iff hfirst hsecond, root_of_no_colocations hcolocations,
      root_of_no_colocations hcolocations,
      allocationExtent_of_no_colocations hw hcolocations i.isLt,
      allocationExtent_of_no_colocations hw hcolocations j.isLt] at hpair
    have hconflict :
        haveTemporalConflict problem (problem.bufferAt i) (problem.bufferAt j) = true := by
      simpa [haveTemporalConflict, hexclusions] using lifetimesOverlap_of_liveAt
        (Finset.mem_filter.mp hi).2.2 (Finset.mem_filter.mp hj).2.2
    have hover := hpair (fun heq => hij.ne (Fin.ext heq)) (by rw [hconflict]; rfl)
    rw [placementsOverlap, hfirstPool, hsecondPool, beq_self_eq_true, Bool.true_and,
      addressRangesOverlap_eq_false_iff (hw.sizePos _ (bufferAt_mem i.isLt))
        (hw.sizePos _ (bufferAt_mem j.isLt))
        ((Theory.addOverflows_eq_false_iff _ _).mp hfirstOver)
        ((Theory.addOverflows_eq_false_iff _ _).mp hsecondOver)] at hover
    simpa [offset, hfirst, hsecond] using hover
  rw [hsum]
  apply sum_size_le_of_apart live offset
  · intro i hi j hj hne
    rcases lt_or_gt_of_ne hne with hij | hij
    · exact hapart i hi j hj hij
    · exact (hapart j hj i hi hij).symm
  · intro i hi
    obtain ⟨placement, hfind, hpool, hover⟩ := hplaced i hi
    have hend := end_le_peak (bufferAt_mem i.isLt) hfind hover
    rw [hpool, UInt64.le_iff_toNat_le,
      toNat_add_of_lt ((Theory.addOverflows_eq_false_iff _ _).mp hover)] at hend
    simpa [offset, hfind] using hend

/-- **The live-byte statistic is exact.**  It never underflows; where it returns, the value of a
pool is the most bytes alive at one time; without colocations and exclusions, and with fixed pools,
it is at most the peak of every valid placement. -/
theorem maxLiveBytesByPool_exact (problem : DsaProblem) (hvalid : validateProblem problem = []) :
    (∀ message, maxLiveBytesByPool problem ≠ .error (.runtimeError message)) ∧
    ∀ result complete, maxLiveBytesByPool problem = .ok (result, complete) →
      (∀ pool, IsGreatest {bytes | ∃ time, liveBytes problem pool time = bytes}
        (result.getD pool 0).toNat) ∧
      (problem.colocations = [] → problem.temporalExclusions = [] →
        (∀ buffer ∈ problem.buffers, buffer.allowedPools.length = 1) →
          ∀ solution, validateSolution problem solution = [] →
            ∀ pool, result.getD pool 0 ≤ (evaluateObjective problem solution).peak pool) := by
  refine ⟨fun message h => ?_, fun result complete h => ⟨isGreatest_of_ok hvalid h, ?_⟩⟩
  · obtain ⟨other, hother⟩ := maxLiveBytesByPool_error hvalid h
    cases hother
  · intro hcolocations hexclusions _ solution hs pool
    obtain ⟨time, htime⟩ := (isGreatest_of_ok hvalid h pool).1
    rw [UInt64.le_iff_toNat_le, ← htime]
    exact liveBytes_le_peak hcolocations hexclusions hs pool time

/-- A buffer whose two intervals touch, and one that starts where the first ends. -/
def touchingProblem : DsaProblem where
  buffers := [{ id := 1, size := 8, liveIntervals := [⟨2, 4⟩, ⟨0, 2⟩] },
    { id := 2, size := 4, liveIntervals := [⟨3, 6⟩, ⟨4, 5⟩] }]

theorem maxLiveBytesByPool_exact_touching :
    ∃ result, maxLiveBytesByPool touchingProblem = .ok (result, true) ∧
      IsGreatest {bytes | ∃ time, liveBytes touchingProblem kDefaultPool time = bytes} 12 ∧
      ∀ solution, validateSolution touchingProblem solution = [] →
        12 ≤ (evaluateObjective touchingProblem solution).peak kDefaultPool := by
  have hvalid : validateProblem touchingProblem = [] := by decide +kernel
  have hok : ∃ result, maxLiveBytesByPool touchingProblem = .ok (result, true) := by
    have h : (maxLiveBytesByPool touchingProblem).map (fun r => r.2) = .ok true := by
      decide +kernel
    cases hrun : maxLiveBytesByPool touchingProblem with
    | error what =>
        rw [hrun] at h
        cases h
    | ok result =>
        rw [hrun] at h
        obtain ⟨result, complete⟩ := result
        exact ⟨result, by rw [show complete = true from Except.ok.inj h]⟩
  obtain ⟨result, hresult⟩ := hok
  obtain ⟨-, hexact⟩ := maxLiveBytesByPool_exact touchingProblem hvalid
  obtain ⟨hgreatest, hbound⟩ := hexact result true hresult
  have hvalue : result.getD kDefaultPool 0 = 12 := by
    have h : (maxLiveBytesByPool touchingProblem).map (fun r => r.1.getD kDefaultPool 0) =
        .ok 12 := by
      decide +kernel
    rw [hresult] at h
    exact Except.ok.inj h
  refine ⟨result, hresult, ?_, fun solution hs => ?_⟩
  · have h := hgreatest kDefaultPool
    rw [hvalue] at h
    exact h
  · have h := hbound rfl rfl (by decide) solution hs kDefaultPool
    rw [hvalue] at h
    exact h

end Dsa
