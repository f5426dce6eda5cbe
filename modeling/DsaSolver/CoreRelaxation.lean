import DsaSolver.Pairs
import DsaSolver.Peaks
import DsaSolver.Theory.Text
import Std.Data.TreeSet.Lemmas

/-! # Core relaxations

`BuildCoreRelaxations` of `structured_problem.cpp`: one standard single-pool document for each
pool, whose buffers are the interval fragments of the buffers of that pool.  Every document is
valid, and a placement of the source gives each of them a placement of no higher peak
(`buildCoreRelaxations_sound`). -/

namespace Dsa

/-! ### The projection -/

def pairTouches (selected : List BufferId) (first second : BufferId) : Bool :=
  selected.contains first || selected.contains second

/-- Two intervals of the list overlap. -/
def overlappingIntervals : List Interval → Bool
  | [] => false
  | interval :: rest => rest.any (fun other => interval.overlaps other) || overlappingIntervals rest

/-- What the loop over the buffers throws at a buffer it cannot project. -/
def projectionError (buffer : Buffer) : Option Exception :=
  if buffer.allowedPools.length != 1 then
    some (.invalidArgument
      "schema v1 cannot soundly project flexible pool assignment to standard DSA")
  else if overlappingIntervals buffer.liveIntervals then
    some (.invalidArgument ("schema v1 cannot split overlapping intervals of buffer " ++
      toString buffer.id ++ " into independent standard DSA rows"))
  else none

def selectedBuffers (problem : DsaProblem) (pool : Pool) : List Buffer :=
  problem.buffers.filter fun buffer => buffer.allowedPools.head? == some pool.id

/-- The fragments of the pool in the order of their ids: a buffer and the index of one of its
intervals. -/
def fragments (problem : DsaProblem) (pool : Pool) : List (Buffer × ℕ) :=
  (selectedBuffers problem pool).flatMap fun buffer =>
    (List.range buffer.liveIntervals.length).map fun index => (buffer, index)

def fragmentBaseName (buffer : Buffer) : String :=
  "buffer" ++ toString buffer.id ++ (if buffer.name == "" then "" else ":" ++ buffer.name)

def fragmentName (buffer : Buffer) (index : ℕ) : String :=
  if buffer.liveIntervals.length == 1 then fragmentBaseName buffer
  else fragmentBaseName buffer ++ "@interval" ++ toString index

def fragmentBuffer (id : ℕ) (fragment : Buffer × ℕ) : Buffer where
  id := UInt32.ofNat id
  name := fragmentName fragment.1 fragment.2
  size := fragment.1.size
  alignment := 1
  liveIntervals := [fragment.1.liveIntervals.getD fragment.2 {}]
  allowedPools := [kDefaultPool]

/-- `relaxed_features`, a `std::set`. -/
def relaxedFeatures (source : StructuredProblemDocument) (pool : Pool) : List String :=
  let selected := selectedBuffers source.problem pool
  let ids := selected.map Buffer.id
  let features := [
    (decide (source.problem.pools.length > 1), "multi_pool_partition"),
    (!pool.reservedRanges.isEmpty, "reserved_ranges"),
    (pool.bankGeometry.isSome, "bank_geometry"),
    (!objectiveIsMinimizePeak source.problem.objective, "structured_objective"),
    (source.problem.pyptoStructure.isSome, "pypto_structure"),
    (selected.any (fun buffer => buffer.alignment != 1), "alignment"),
    (selected.any (fun buffer => decide (buffer.liveIntervals.length > 1)),
      "multi_interval_identity"),
    (source.problem.colocations.any (fun value => pairTouches ids value.first value.second),
      "colocations"),
    (source.problem.separations.any (fun value => pairTouches ids value.first value.second),
      "separations"),
    (source.problem.pinnedAllocations.any (fun value => ids.contains value.buffer),
      "pinned_allocations"),
    (source.problem.reusePenalties.any (fun value => pairTouches ids value.first value.second),
      "reuse_penalties")]
  (features.foldl (fun set feature => if feature.1 then set.insert feature.2 else set)
    (∅ : Std.TreeSet String)).toList

def coreRelaxation (source : StructuredProblemDocument) (pool : Pool) :
    StructuredProblemDocument where
  profile := .pyptoCoreRelaxation
  instanceName := source.instanceName ++ "::pool=" ++ toString pool.id
  relaxedFrom := some source.instanceName
  relaxedFeatures := relaxedFeatures source pool
  metadata :=
    (((source.metadata.insert "source_profile" source.profile.toString).insert
      "source_pool_id" (toString pool.id)).insert "source_pool_name" pool.name).insert
      "sound_lower_bound" "true"
  problem :=
    { pools := [{ id := kDefaultPool, name := pool.name, capacity := pool.capacity }]
      objective := minimizePeakObjective
      buffers := (fragments source.problem pool).mapIdx fragmentBuffer }

/-- The loop over the pools. -/
def coreRelaxations (source : StructuredProblemDocument) :
    List Pool → Except Exception (List StructuredProblemDocument)
  | [] => .ok []
  | pool :: rest =>
      if (selectedBuffers source.problem pool).isEmpty then coreRelaxations source rest
      else if (fragments source.problem pool).length > 2 ^ 32 then
        .error (.overflowError "core relaxation has too many interval fragments")
      else
        match validateStructuredProblemDocument (coreRelaxation source pool) with
        | error :: _ => .error (.logicError ("generated an invalid core relaxation: " ++ error))
        | [] =>
            match coreRelaxations source rest with
            | .error error => .error error
            | .ok documents => .ok (coreRelaxation source pool :: documents)

/-- `BuildCoreRelaxations`. -/
def buildCoreRelaxations (source : StructuredProblemDocument) :
    Except Exception (List StructuredProblemDocument) :=
  match validateStructuredProblemDocument source with
  | error :: _ => .error (.invalidArgument
      ("cannot relax an invalid structured problem: " ++ error))
  | [] =>
      if !isPyptoProfile source.profile then
        .error (.invalidArgument "core relaxations require a PyPTO source document")
      else if !source.problem.temporalExclusions.isEmpty then
        .error (.invalidArgument
          "schema v1 cannot soundly project temporal exclusions to interval-only standard DSA")
      else if !source.problem.colocations.isEmpty then
        .error (.invalidArgument
          "schema v1 cannot soundly project colocations to independent standard DSA rows")
      else
        match source.problem.buffers.findSome? projectionError with
        | some error => .error error
        | none => coreRelaxations source source.problem.pools

/-! ### Names and ids of fragments -/

theorem noLeadingDigit_append {s t : String} (hs : Theory.NoLeadingDigit s) (hne : s ≠ "") :
    Theory.NoLeadingDigit (s ++ t) := by
  unfold Theory.NoLeadingDigit at hs ⊢
  rw [String.toList_append]
  cases h : s.toList with
  | nil => exact absurd (String.toList_eq_nil_iff.mp h) hne
  | cons c rest =>
      rw [h] at hs
      simpa using hs

/-- What follows the id in the name of a fragment. -/
def fragmentSuffix (buffer : Buffer) (index : ℕ) : String :=
  (if buffer.name == "" then "" else ":" ++ buffer.name) ++
    if buffer.liveIntervals.length == 1 then "" else "@interval" ++ toString index

theorem fragmentName_eq (buffer : Buffer) (index : ℕ) :
    fragmentName buffer index =
      "buffer" ++ (Nat.repr buffer.id.toNat ++ fragmentSuffix buffer index) := by
  unfold fragmentName fragmentBaseName fragmentSuffix
  have hid : toString buffer.id = Nat.repr buffer.id.toNat := rfl
  rw [hid]
  split_ifs <;> simp only [String.append_assoc, String.append_empty, String.empty_append]

theorem noLeadingDigit_fragmentSuffix (buffer : Buffer) (index : ℕ) :
    Theory.NoLeadingDigit (fragmentSuffix buffer index) := by
  unfold fragmentSuffix
  split_ifs
  · unfold Theory.NoLeadingDigit
    simp
  · rw [String.empty_append]
    exact noLeadingDigit_append (by decide) (by decide)
  · rw [String.append_assoc]
    exact noLeadingDigit_append (by decide) (by decide)
  · rw [String.append_assoc]
    exact noLeadingDigit_append (by decide) (by decide)

section fragments

variable {problem : DsaProblem} {pool : Pool}

theorem mem_fragments_iff {fragment : Buffer × ℕ} :
    fragment ∈ fragments problem pool ↔
      fragment.1 ∈ selectedBuffers problem pool ∧ fragment.2 < fragment.1.liveIntervals.length := by
  obtain ⟨buffer, index⟩ := fragment
  simp only [fragments, List.mem_flatMap, List.mem_map, List.mem_range, Prod.mk.injEq]
  constructor
  · rintro ⟨b, hb, i, hi, rfl, rfl⟩
    exact ⟨hb, hi⟩
  · exact fun ⟨hb, hi⟩ => ⟨buffer, hb, index, hi, rfl, rfl⟩

theorem nodup_fragments (hw : WellFormed problem) : (fragments problem pool).Nodup := by
  have hbuffers : problem.buffers.Nodup := List.Nodup.of_map _ hw.bufferIds
  unfold fragments
  rw [List.nodup_flatMap]
  refine ⟨fun buffer _ => ?_, ?_⟩
  · exact List.nodup_range.map fun i j h => (Prod.mk.inj h).2
  · refine (List.Nodup.filter _ hbuffers).imp fun {b c} hne => ?_
    intro fragment hb hc
    obtain ⟨i, -, rfl⟩ := List.mem_map.mp hb
    obtain ⟨j, -, e⟩ := List.mem_map.mp hc
    exact hne (Prod.mk.inj e).1.symm

/-- The name of a fragment tells its buffer and its interval. -/
theorem fragmentName_injOn (hw : WellFormed problem) {first second : Buffer × ℕ}
    (hfirst : first ∈ fragments problem pool) (hsecond : second ∈ fragments problem pool)
    (h : fragmentName first.1 first.2 = fragmentName second.1 second.2) : first = second := by
  obtain ⟨b, i⟩ := first
  obtain ⟨c, j⟩ := second
  obtain ⟨hb, hi⟩ := mem_fragments_iff.mp hfirst
  obtain ⟨hc, hj⟩ := mem_fragments_iff.mp hsecond
  dsimp only at h hb hi hc hj
  rw [fragmentName_eq, fragmentName_eq, String.append_right_inj] at h
  obtain ⟨hid, hsuffix⟩ := Theory.repr_append_inj (noLeadingDigit_fragmentSuffix b i)
    (noLeadingDigit_fragmentSuffix c j) h
  obtain rfl : b = c := List.inj_on_of_nodup_map hw.bufferIds (List.mem_of_mem_filter hb)
    (List.mem_of_mem_filter hc) (UInt32.toNat_inj.mp hid)
  unfold fragmentSuffix at hsuffix
  rw [String.append_right_inj] at hsuffix
  by_cases hone : b.liveIntervals.length = 1
  · have : i = j := by omega
    rw [this]
  · simp only [beq_iff_eq, hone, if_false, String.append_right_inj] at hsuffix
    have hindex : Nat.repr i = Nat.repr j := hsuffix
    rw [Nat.repr_inj.mp hindex]

theorem nodup_fragmentNames (hw : WellFormed problem) :
    (((fragments problem pool).mapIdx fragmentBuffer).map Buffer.name).Nodup := by
  have hnames : ((fragments problem pool).mapIdx fragmentBuffer).map Buffer.name =
      (fragments problem pool).map fun fragment => fragmentName fragment.1 fragment.2 := by
    refine List.ext_getElem (by simp) fun i h1 h2 => ?_
    simp [fragmentBuffer]
  rw [hnames]
  exact (nodup_fragments hw).map_on fun first hf second hs h => fragmentName_injOn hw hf hs h

/-! ### The generated problem is valid -/

/-- A buffer with one pool and proper intervals. -/
structure SimpleBuffer (poolIds : List PoolId) (buffer : Buffer) : Prop where
  sizePos : buffer.size ≠ 0
  alignmentPos : buffer.alignment ≠ 0
  lifetimes : buffer.liveIntervals ≠ []
  proper : ∀ interval ∈ buffer.liveIntervals, interval.lower < interval.upper
  fixedPool : ∃ id ∈ poolIds, buffer.allowedPools = [id]

theorem bufferErrors_eq_nil_of_simple {poolIds : List PoolId} {bufferIds : List BufferId}
    {names : List String} {buffers : List Buffer}
    (hfresh : ∀ buffer ∈ buffers, buffer.id ∉ bufferIds ∧ buffer.name ∉ names)
    (hids : (buffers.map Buffer.id).Nodup) (hnames : (buffers.map Buffer.name).Nodup)
    (hok : ∀ buffer ∈ buffers, SimpleBuffer poolIds buffer) :
    bufferErrors poolIds bufferIds names buffers = [] := by
  induction buffers generalizing bufferIds names with
  | nil => rfl
  | cons buffer rest ih =>
      rw [List.map_cons, List.nodup_cons] at hids hnames
      obtain ⟨hsize, halign, hlive, hproper, id, hid, hpools⟩ := hok buffer List.mem_cons_self
      obtain ⟨hidFresh, hnameFresh⟩ := hfresh buffer List.mem_cons_self
      have hrest : ∀ b ∈ rest, b.id ∉ buffer.id :: bufferIds ∧
          b.name ∉ (if buffer.name == "" then names else buffer.name :: names) := by
        intro b hb
        obtain ⟨h1, h2⟩ := hfresh b (List.mem_cons_of_mem _ hb)
        refine ⟨?_, ?_⟩
        · rw [List.mem_cons, not_or]
          exact ⟨fun e => hids.1 (e ▸ List.mem_map_of_mem hb), h1⟩
        · split_ifs
          · exact h2
          · rw [List.mem_cons, not_or]
            exact ⟨fun e => hnames.1 (e ▸ List.mem_map_of_mem hb), h2⟩
      unfold bufferErrors
      rw [ih hrest hids.2 hnames.2 fun b hb => hok b (List.mem_cons_of_mem _ hb), hpools]
      simp [errorIf_eq_nil, hidFresh, hnameFresh, hsize, halign, hlive, hid, intervalErrors,
        allowedPoolErrors]
      exact hproper

theorem nodup_fragmentIds (hlen : (fragments problem pool).length ≤ 2 ^ 32) :
    (((fragments problem pool).mapIdx fragmentBuffer).map Buffer.id).Nodup := by
  have hids : ((fragments problem pool).mapIdx fragmentBuffer).map Buffer.id =
      (List.range (fragments problem pool).length).map UInt32.ofNat := by
    refine List.ext_getElem (by simp) fun i h1 h2 => ?_
    simp [fragmentBuffer]
  rw [hids]
  refine List.nodup_range.map_on fun i hi j hj h => ?_
  have h' := congrArg UInt32.toNat h
  rw [List.mem_range] at hi hj
  rwa [UInt32.toNat_ofNat_of_lt' (by simp only [UInt32.size]; omega),
    UInt32.toNat_ofNat_of_lt' (by simp only [UInt32.size]; omega)] at h'

/-- Every fragment is a simple buffer of the only pool. -/
theorem simpleBuffer_fragment (hvalid : validateProblem problem = []) (id : ℕ)
    {fragment : Buffer × ℕ} (hf : fragment ∈ fragments problem pool) :
    SimpleBuffer [kDefaultPool] (fragmentBuffer id fragment) := by
  have hw := WellFormed.of_validateProblem hvalid
  obtain ⟨hselected, hindex⟩ := mem_fragments_iff.mp hf
  have hmem := List.mem_of_mem_filter hselected
  refine ⟨hw.sizePos fragment.1 hmem, (by decide : (1 : UInt64) ≠ 0), List.cons_ne_nil _ _, fun interval hi => ?_,
    kDefaultPool, List.mem_cons_self, rfl⟩
  rw [List.mem_singleton.mp hi, List.getD_eq_getElem _ _ hindex]
  exact interval_lt hvalid hmem (List.getElem_mem hindex)

theorem forall_fragmentBuffers {P : Buffer → Prop}
    (h : ∀ id, ∀ fragment ∈ fragments problem pool, P (fragmentBuffer id fragment)) :
    ∀ buffer ∈ (fragments problem pool).mapIdx fragmentBuffer, P buffer := by
  intro buffer hb
  obtain ⟨i, hi, rfl⟩ := List.mem_mapIdx.mp hb
  exact h i _ (List.getElem_mem hi)

end fragments

/-- Every generated document is valid. -/
theorem validate_coreRelaxation {source : StructuredProblemDocument} {pool : Pool}
    (hvalid : validateStructuredProblemDocument source = [])
    (hprofile : isPyptoProfile source.profile = true)
    (hlen : (fragments source.problem pool).length ≤ 2 ^ 32) :
    validateStructuredProblemDocument (coreRelaxation source pool) = [] := by
  have hproblem := validateProblem_of_document hvalid
  have hw := WellFormed.of_validateProblem hproblem
  obtain ⟨-, hinstance, -, -⟩ := envelope_of_pypto hvalid hprofile
  have hbuffers : bufferErrors [kDefaultPool] [] []
      ((fragments source.problem pool).mapIdx fragmentBuffer) = [] :=
    bufferErrors_eq_nil_of_simple (fun _ _ => ⟨List.not_mem_nil, List.not_mem_nil⟩)
      (nodup_fragmentIds hlen) (nodup_fragmentNames hw)
      (forall_fragmentBuffers fun id fragment hf => simpleBuffer_fragment hproblem id hf)
  have hstandard : ∀ buffer ∈ (fragments source.problem pool).mapIdx fragmentBuffer,
      standardBufferErrors { id := kDefaultPool, name := pool.name, capacity := pool.capacity }
        buffer = [] :=
    forall_fragmentBuffers fun id fragment _ => rfl
  have hcore : validateProblem (coreRelaxation source pool).problem = [] := by
    rw [validateProblem_eq_nil_iff]
    exact ⟨rfl, List.cons_ne_nil _ _, hbuffers, fun _ h => absurd h List.not_mem_nil,
      fun _ h => absurd h List.not_mem_nil, fun _ h => absurd h List.not_mem_nil, rfl,
      fun _ h => absurd h List.not_mem_nil, rfl, List.cons_ne_nil _ _, rfl⟩
  have hstd : validateStandardProblem (coreRelaxation source pool).problem = [] := by
    unfold validateStandardProblem
    simp only [coreRelaxation, List.append_eq_nil_iff, List.flatMap_eq_nil_iff]
    refine ⟨⟨⟨⟨⟨⟨⟨⟨⟨rfl, rfl⟩, hstandard⟩, rfl⟩, rfl⟩, rfl⟩, rfl⟩, rfl⟩, rfl⟩, by decide⟩
  unfold validateStructuredProblemDocument
  rw [hcore]
  simp only [List.append_eq_nil_iff, errorIf_eq_nil]
  refine ⟨⟨⟨⟨rfl, ?_⟩, trivial⟩, ?_⟩, ?_⟩
  · rw [coreRelaxation, beq_eq_false_iff_ne, String.append_assoc]
    exact fun e => hinstance (String.append_eq_empty_iff.mp e).1
  · simp [profileErrors, coreRelaxation, hinstance]
  · exact hstd

/-! ### Runs of the builder -/

section builder

variable {source : StructuredProblemDocument}

/-- The loop returns the documents of the pools that have a buffer. -/
theorem coreRelaxations_spec (hvalid : validateStructuredProblemDocument source = [])
    (hprofile : isPyptoProfile source.profile = true) (pools : List Pool) :
    (∀ message, coreRelaxations source pools ≠ .error (.logicError message)) ∧
      ∀ documents, coreRelaxations source pools = .ok documents → ∀ document ∈ documents,
        ∃ pool ∈ pools, document = coreRelaxation source pool ∧
          (fragments source.problem pool).length ≤ 2 ^ 32 := by
  induction pools with
  | nil =>
      refine ⟨(fun _ h => nomatch h), fun documents h document hd => ?_⟩
      obtain rfl : documents = [] := (Except.ok.inj h).symm
      exact absurd hd List.not_mem_nil
  | cons pool rest ih =>
      obtain ⟨hno, hall⟩ := ih
      unfold coreRelaxations
      split_ifs with hempty hlen
      · refine ⟨hno, fun documents h document hd => ?_⟩
        obtain ⟨p, hp, hdoc⟩ := hall documents h document hd
        exact ⟨p, List.mem_cons_of_mem _ hp, hdoc⟩
      · refine ⟨fun message h => ?_, fun documents h => ?_⟩
        · cases Except.error.inj h
        · cases h
      · rw [validate_coreRelaxation hvalid hprofile (by omega)]
        cases hrest : coreRelaxations source rest with
        | error error =>
            refine ⟨fun message h => hno message ?_, fun documents h => by cases h⟩
            rw [hrest]
            exact h
        | ok documents =>
            refine ⟨(fun _ h => nomatch h), fun documents' h document hd => ?_⟩
            obtain rfl := Except.ok.inj h
            rcases List.mem_cons.mp hd with rfl | hd
            · exact ⟨pool, List.mem_cons_self, rfl, by omega⟩
            · obtain ⟨p, hp, hdoc⟩ := hall documents hrest document hd
              exact ⟨p, List.mem_cons_of_mem _ hp, hdoc⟩

theorem projectionError_eq_none_iff {buffer : Buffer} :
    projectionError buffer = none ↔
      buffer.allowedPools.length = 1 ∧ overlappingIntervals buffer.liveIntervals = false := by
  unfold projectionError
  split_ifs with h1 h2
  · simp_all
  · simp_all
  · simp_all

/-- A projection error is never an internal error. -/
theorem projectionError_ne_logicError {buffer : Buffer} {message : String} :
    projectionError buffer ≠ some (.logicError message) := by
  unfold projectionError
  split_ifs <;> simp

/-- What an accepted source document looks like. -/
structure Projectable (source : StructuredProblemDocument) : Prop where
  valid : validateStructuredProblemDocument source = []
  profile : isPyptoProfile source.profile = true
  exclusions : source.problem.temporalExclusions = []
  colocations : source.problem.colocations = []
  fixedPools : ∀ buffer ∈ source.problem.buffers, buffer.allowedPools.length = 1
  disjoint : ∀ buffer ∈ source.problem.buffers,
    overlappingIntervals buffer.liveIntervals = false

theorem buildCoreRelaxations_spec :
    (∀ message, buildCoreRelaxations source ≠ .error (.logicError message)) ∧
      ∀ documents, buildCoreRelaxations source = .ok documents →
        Projectable source ∧ ∀ document ∈ documents, ∃ pool ∈ source.problem.pools,
          document = coreRelaxation source pool ∧
            (fragments source.problem pool).length ≤ 2 ^ 32 := by
  unfold buildCoreRelaxations
  cases hvalid : validateStructuredProblemDocument source with
  | cons error rest => exact ⟨(fun _ h => nomatch h), fun _ h => nomatch h⟩
  | nil =>
      dsimp only
      split_ifs with hprofile hexclusions hcolocations
      · exact ⟨(fun _ h => nomatch h), fun _ h => nomatch h⟩
      · exact ⟨(fun _ h => nomatch h), fun _ h => nomatch h⟩
      · exact ⟨(fun _ h => nomatch h), fun _ h => nomatch h⟩
      · cases hprojection : source.problem.buffers.findSome? projectionError with
        | some error =>
            refine ⟨fun message h => ?_, fun _ h => nomatch h⟩
            obtain ⟨buffer, -, he⟩ := List.exists_of_findSome?_eq_some hprojection
            rw [Except.error.inj h] at he
            exact projectionError_ne_logicError he
        | none =>
            have hprofile' : isPyptoProfile source.profile = true := by simpa using hprofile
            have hloop := coreRelaxations_spec hvalid hprofile' source.problem.pools
            have hbuffers := List.findSome?_eq_none_iff.mp hprojection
            refine ⟨hloop.1, fun documents h => ⟨⟨hvalid, hprofile', by simpa using hexclusions,
              by simpa using hcolocations, fun b hb => ?_, fun b hb => ?_⟩, hloop.2 documents h⟩⟩
            · exact (projectionError_eq_none_iff.mp (hbuffers b hb)).1
            · exact (projectionError_eq_none_iff.mp (hbuffers b hb)).2

end builder

/-! ### Projected placements -/

/-- Each fragment at the offset of its source buffer. -/
def fragmentSolution (problem : DsaProblem) (pool : Pool) (solution : DsaSolution) : DsaSolution :=
  ⟨Std.TreeMap.ofList ((fragments problem pool).mapIdx fun id fragment =>
    (UInt32.ofNat id,
      Placement.mk kDefaultPool ((solution.find fragment.1.id).elim 0 Placement.offset)))⟩

def fragmentAt (problem : DsaProblem) (pool : Pool) (k : ℕ) : Buffer × ℕ :=
  (fragments problem pool).getD k ({}, 0)

theorem overlappingIntervals_of_overlaps {intervals : List Interval} {i j : ℕ} (hij : i < j)
    (hj : j < intervals.length)
    (h : (intervals.getD i {}).overlaps (intervals.getD j {}) = true) :
    overlappingIntervals intervals = true := by
  induction intervals generalizing i j with
  | nil => exact absurd hj (Nat.not_lt_zero j)
  | cons interval rest ih =>
      unfold overlappingIntervals
      rw [Bool.or_eq_true]
      cases j with
      | zero => omega
      | succ j =>
          have hj' : j < rest.length := by simpa using hj
          cases i with
          | zero =>
              refine .inl (List.any_eq_true.mpr ⟨rest.getD j {}, ?_, by simpa using h⟩)
              rw [List.getD_eq_getElem _ _ hj']
              exact List.getElem_mem hj'
          | succ i => exact .inr (ih (Nat.lt_of_succ_lt_succ hij) hj' (by simpa using h))

section projection

variable {source : StructuredProblemDocument} {pool : Pool} {solution : DsaSolution}

theorem fragmentAt_mem {problem : DsaProblem} {k : ℕ} (hk : k < (fragments problem pool).length) :
    fragmentAt problem pool k ∈ fragments problem pool := by
  rw [fragmentAt, List.getD_eq_getElem _ _ hk]
  exact List.getElem_mem hk

theorem length_core_buffers :
    (coreRelaxation source pool).problem.buffers.length = (fragments source.problem pool).length :=
  List.length_mapIdx

theorem bufferAt_core {k : ℕ} (hk : k < (fragments source.problem pool).length) :
    (coreRelaxation source pool).problem.bufferAt k =
      fragmentBuffer k (fragmentAt source.problem pool k) := by
  rw [bufferAt_eq (by rwa [length_core_buffers]), fragmentAt, List.getD_eq_getElem _ _ hk]
  simp [coreRelaxation]

theorem toNat_ofNat_of_lt {k n : ℕ} (hk : k < n) (hn : n ≤ 2 ^ 32) : (UInt32.ofNat k).toNat = k :=
  UInt32.toNat_ofNat_of_lt' (by simp only [UInt32.size]; omega)

/-- The placements of the fragments. -/
theorem find_fragmentSolution {problem : DsaProblem}
    (hlen : (fragments problem pool).length ≤ 2 ^ 32) {k : ℕ}
    (hk : k < (fragments problem pool).length) :
    (fragmentSolution problem pool solution).find (UInt32.ofNat k) = some
      ⟨kDefaultPool, (solution.find (fragmentAt problem pool k).1.id).elim 0 Placement.offset⟩ := by
  refine Std.TreeMap.getElem?_ofList_of_mem Std.ReflCmp.compare_self ?_ ?_
  · rw [List.pairwise_iff_getElem]
    intro i j hi hj hij
    rw [List.length_mapIdx] at hi hj
    rw [List.getElem_mapIdx, List.getElem_mapIdx, Std.LawfulEqCmp.compare_eq_iff_eq]
    intro e
    have e' := congrArg UInt32.toNat e
    rw [toNat_ofNat_of_lt hi hlen, toNat_ofNat_of_lt hj hlen] at e'
    omega
  · rw [List.mem_mapIdx]
    refine ⟨k, hk, ?_⟩
    rw [fragmentAt, List.getD_eq_getElem _ _ hk]

theorem exists_of_find_fragmentSolution {problem : DsaProblem} {id : BufferId}
    {placement : Placement}
    (h : (fragmentSolution problem pool solution).find id = some placement) :
    ∃ k < (fragments problem pool).length, id = UInt32.ofNat k := by
  have hmem : id ∈ (fragmentSolution problem pool solution).placements :=
    Std.TreeMap.mem_iff_isSome_getElem?.mpr (Option.isSome_of_eq_some h)
  rw [fragmentSolution, Std.TreeMap.mem_ofList, List.contains_iff_mem, List.mem_map] at hmem
  obtain ⟨entry, hentry, rfl⟩ := hmem
  obtain ⟨k, hk, rfl⟩ := List.mem_mapIdx.mp hentry
  exact ⟨k, hk, rfl⟩

/-- The source buffer of a fragment: its placement in the pool. -/
theorem exists_placed_fragment (hsource : Projectable source)
    (hs : SolutionOk source.problem solution) {k : ℕ}
    (hk : k < (fragments source.problem pool).length) :
    ∃ x < source.problem.buffers.length,
      source.problem.bufferAt x = (fragmentAt source.problem pool k).1 ∧ ∃ offset,
      solution.find (fragmentAt source.problem pool k).1.id = some ⟨pool.id, offset⟩ ∧
      PlacedOk source.problem (fragmentAt source.problem pool k).1 ⟨pool.id, offset⟩ := by
  obtain ⟨hselected, -⟩ := mem_fragments_iff.mp (fragmentAt_mem hk)
  obtain ⟨hmem, hhead⟩ := List.mem_filter.mp hselected
  obtain ⟨x, hx, e⟩ := exists_bufferAt hmem
  obtain ⟨⟨placed, offset⟩, hfind, hok⟩ := hs.placed _ hmem
  have hone : (fragmentAt source.problem pool k).1.allowedPools = [pool.id] := by
    obtain ⟨id, hid⟩ := List.length_eq_one_iff.mp (hsource.fixedPools _ hmem)
    rw [hid] at hhead ⊢
    simpa using hhead
  have hpoolId : placed = pool.id := by
    have := hok.allowed
    rw [hone] at this
    simpa using this
  subst hpoolId
  exact ⟨x, hx, e, offset, hfind, hok⟩

/-- Fragments that are alive together are apart: two buffers of the source in conflict. -/
theorem fragments_apart (hsource : Projectable source) (hs : SolutionOk source.problem solution)
    {k l : ℕ} (hk : k < (fragments source.problem pool).length)
    (hl : l < (fragments source.problem pool).length) (hkl : k ≠ l)
    (hlive : ((fragmentAt source.problem pool k).1.liveIntervals.getD
        (fragmentAt source.problem pool k).2 {}).overlaps
      ((fragmentAt source.problem pool l).1.liveIntervals.getD
        (fragmentAt source.problem pool l).2 {}) = true)
    {offset offset' : UInt64}
    (hfind : solution.find (fragmentAt source.problem pool k).1.id = some ⟨pool.id, offset⟩)
    (hfind' : solution.find (fragmentAt source.problem pool l).1.id = some ⟨pool.id, offset'⟩) :
    addressRangesOverlap offset (fragmentAt source.problem pool k).1.size offset'
      (fragmentAt source.problem pool l).1.size = false := by
  have hw := WellFormed.of_validateProblem (validateProblem_of_document hsource.valid)
  obtain ⟨x, hx, ex, -⟩ := exists_placed_fragment hsource hs hk
  obtain ⟨y, hy, ey, -⟩ := exists_placed_fragment hsource hs hl
  obtain ⟨-, hik⟩ := mem_fragments_iff.mp (fragmentAt_mem hk)
  obtain ⟨-, hil⟩ := mem_fragments_iff.mp (fragmentAt_mem hl)
  have hne : fragmentAt source.problem pool k ≠ fragmentAt source.problem pool l := by
    rw [fragmentAt, fragmentAt, List.getD_eq_getElem _ _ hk, List.getD_eq_getElem _ _ hl]
    exact fun e => hkl ((nodup_fragments hw).getElem_inj_iff.mp e)
  generalize hfk : fragmentAt source.problem pool k = first at *
  generalize hfl : fragmentAt source.problem pool l = second at *
  obtain ⟨b, i⟩ := first
  obtain ⟨c, j⟩ := second
  dsimp only at *
  subst ex
  subst ey
  have hxy : x ≠ y := by
    -- two intervals of one buffer do not overlap
    rintro rfl
    have hdisjoint := hsource.disjoint _ (bufferAt_mem hx)
    have hij : i ≠ j := fun e => hne (by rw [e])
    rcases Nat.lt_or_gt_of_ne hij with hij | hij
    · rw [overlappingIntervals_of_overlaps hij hil hlive] at hdisjoint
      cases hdisjoint
    · rw [overlaps_comm] at hlive
      rw [overlappingIntervals_of_overlaps hij hik hlive] at hdisjoint
      cases hdisjoint
  have hix := bufferIndices_bufferAt hw.bufferIds hx
  have hiy := bufferIndices_bufferAt hw.bufferIds hy
  have hclass : sameClass source.problem (source.problem.bufferAt x).id
      (source.problem.bufferAt y).id = false := by
    simp [sameClass, hix, hiy, root_of_no_colocations hsource.colocations, hxy]
  have hconflict : pairConflicts source.problem (source.problem.bufferAt x).id
      (source.problem.bufferAt y).id = true := by
    rw [pairConflicts_of_find (findBuffer_bufferAt hw.bufferIds hx)
      (findBuffer_bufferAt hw.bufferIds hy), haveTemporalConflict, hsource.exclusions]
    simp only [List.any_nil, Bool.false_eq_true, if_false, lifetimesOverlap, List.any_eq_true]
    refine ⟨_, List.getElem_mem hik, _, List.getElem_mem hil, ?_⟩
    rwa [List.getD_eq_getElem _ _ hik, List.getD_eq_getElem _ _ hil] at hlive
  have hapart := hs.not_pairOverlaps_of_conflict hw hclass hconflict
  simp only [pairOverlaps, hfind, hfind', hix, hiy, placementsOverlap, beq_self_eq_true,
    Bool.true_and, allocationExtent_of_no_colocations hw hsource.colocations hx,
    allocationExtent_of_no_colocations hw hsource.colocations hy] at hapart
  exact hapart

/-- **The projected placement is valid.** -/
theorem validateSolution_fragmentSolution (hsource : Projectable source)
    (hpool : pool ∈ source.problem.pools)
    (hlen : (fragments source.problem pool).length ≤ 2 ^ 32)
    (hs : validateSolution source.problem solution = []) :
    validateSolution (coreRelaxation source pool).problem
      (fragmentSolution source.problem pool solution) = [] := by
  have hvalid := validateProblem_of_document hsource.valid
  have hw := WellFormed.of_validateProblem hvalid
  have hsol := ((validateSolution_eq_nil_iff _ _).mp hs).2
  have hcore := validateProblem_of_document
    (validate_coreRelaxation hsource.valid hsource.profile hlen)
  have hwcore := WellFormed.of_validateProblem hcore
  have hcolocations : (coreRelaxation source pool).problem.colocations = [] := rfl
  rw [validateSolution_eq_nil_iff]
  refine ⟨hcore, ?_, ?_, fun _ h => absurd h List.not_mem_nil, ?_,
    fun _ h => absurd h List.not_mem_nil, fun _ h => absurd h List.not_mem_nil⟩
  · intro id placement hfind
    obtain ⟨k, hk, rfl⟩ := exists_of_find_fragmentSolution hfind
    rw [find_fragmentSolution hlen hk] at hfind
    obtain rfl := Option.some.inj hfind
    refine ⟨findBuffer_isSome_iff.mpr ⟨k, by rwa [length_core_buffers], ?_⟩, rfl⟩
    rw [bufferAt_core hk]
    rfl
  · intro buffer hb
    obtain ⟨k, hk, rfl⟩ := exists_bufferAt hb
    rw [length_core_buffers] at hk
    obtain ⟨x, hx, e, offset, hfind, hok⟩ := exists_placed_fragment hsource hsol hk
    rw [bufferAt_core hk]
    refine ⟨_, find_fragmentSolution hlen hk, List.mem_singleton.mpr rfl, ?_, ?_, ?_⟩
    · exact UInt64.mod_one
    · rw [hfind]
      exact hok.noOverflow
    · intro found hfound
      have haddress := hok.address pool (findPool_eq_of_mem hw.poolIds hpool)
      obtain rfl : { id := kDefaultPool, name := pool.name, capacity := pool.capacity } = found :=
        Option.some.inj hfound
      rw [hfind]
      rw [poolAddressErrors, List.append_eq_nil_iff] at haddress ⊢
      exact ⟨errorIf_eq_nil.mpr (errorIf_eq_nil.mp haddress.1), rfl⟩
  · intro k l hkl hl
    rw [length_core_buffers] at hl
    have hk : k < (fragments source.problem pool).length := hkl.trans hl
    have hfindk := @find_fragmentSolution pool solution source.problem hlen k hk
    have hfindl := @find_fragmentSolution pool solution source.problem hlen l hl
    obtain ⟨-, -, -, offset, hsk, -⟩ := exists_placed_fragment hsource hsol hk
    obtain ⟨-, -, -, offset', hsl, -⟩ := exists_placed_fragment hsource hsol hl
    rw [hsk] at hfindk
    rw [hsl] at hfindl
    rw [@lifetimePairErrors_eq_nil_iff _ _ k l ⟨kDefaultPool, offset⟩ ⟨kDefaultPool, offset'⟩
      (by rw [bufferAt_core hk]; exact hfindk) (by rw [bufferAt_core hl]; exact hfindl)]
    intro _ hlive
    rw [allocationExtent_of_no_colocations hwcore hcolocations (by rwa [length_core_buffers]),
      allocationExtent_of_no_colocations hwcore hcolocations (by rwa [length_core_buffers]),
      bufferAt_core hk, bufferAt_core hl, placementsOverlap, beq_self_eq_true, Bool.true_and]
    refine fragments_apart hsource hsol hk hl hkl.ne ?_ hsk hsl
    rw [bufferAt_core hk, bufferAt_core hl] at hlive
    simpa [haveTemporalConflict, coreRelaxation, exclusivelyPinned, lifetimesOverlap,
      fragmentBuffer] using hlive

/-- The end of a placed fragment is at most the peak of the source pool. -/
theorem placedEnd_fragment_le (hsource : Projectable source)
    (hlen : (fragments source.problem pool).length ≤ 2 ^ 32)
    (hs : SolutionOk source.problem solution) {k : ℕ}
    (hk : k < (fragments source.problem pool).length) {found : PoolId} {value : UInt64}
    (h : placedEnd (fragmentSolution source.problem pool solution)
      ((coreRelaxation source pool).problem.bufferAt k) = some (found, value)) :
    found = kDefaultPool ∧ value ≤ (evaluateObjective source.problem solution).peak pool.id := by
  obtain ⟨x, hx, e, offset, hfind, hok⟩ := exists_placed_fragment hsource hs hk
  rw [bufferAt_core hk, placedEnd, show (fragmentBuffer k _).id = UInt32.ofNat k from rfl,
    find_fragmentSolution hlen hk, hfind] at h
  dsimp only [Option.elim_some] at h
  split_ifs at h with hover
  obtain ⟨rfl, rfl⟩ := Prod.mk.inj (Option.some.inj h)
  rw [← e] at hfind hok
  have hend := end_le_peak (bufferAt_mem hx) hfind hok.noOverflow
  rw [e] at hend
  exact ⟨rfl, hend⟩

/-- No fragment is placed above the peak of the source pool. -/
theorem metric_coreRelaxation_le (hsource : Projectable source)
    (hlen : (fragments source.problem pool).length ≤ 2 ^ 32)
    (hs : SolutionOk source.problem solution) :
    ∀ metric ∈ (coreRelaxation source pool).problem.objective.terms,
      evaluateObjectiveMetric (coreRelaxation source pool).problem
          (evaluateObjective (coreRelaxation source pool).problem
            (fragmentSolution source.problem pool solution)) metric ≤
        (evaluateObjective source.problem solution).peak pool.id := by
  have hends : ∀ buffer ∈ (coreRelaxation source pool).problem.buffers, ∀ found value,
      placedEnd (fragmentSolution source.problem pool solution) buffer = some (found, value) →
      found = kDefaultPool ∧ value ≤ (evaluateObjective source.problem solution).peak pool.id := by
    intro buffer hb found value h
    obtain ⟨k, hk, rfl⟩ := exists_bufferAt hb
    rw [length_core_buffers] at hk
    exact placedEnd_fragment_le hsource hlen hs hk h
  have hpeak := @peak_le_of_ends (coreRelaxation source pool).problem
    (fragmentSolution source.problem pool solution) (fun _ h => by rw [List.mem_singleton.mp h])
    kDefaultPool _ fun buffer hb value h => (hends buffer hb _ value h).2
  obtain ⟨htotal, hmax⟩ := @peaks_of_single (coreRelaxation source pool).problem
    (fragmentSolution source.problem pool solution) kDefaultPool fun found hf => by
      rw [peakByPool_eq_foldl] at hf
      rcases mem_foldl_raisePeak _ _ hf with h | ⟨buffer, hb, value, h⟩
      · exact absurd h Std.TreeMap.not_mem_emptyc
      · exact (hends buffer hb _ value h).1
  intro metric hmetric
  have hterms : metric ∈ [ObjectiveMetric.totalPeak, ObjectiveMetric.maxPeak] := hmetric
  rcases List.mem_cons.mp hterms with rfl | hterms
  · exact htotal.le.trans hpeak
  · rw [List.mem_singleton.mp hterms]
    exact hmax.le.trans hpeak

end projection

/-- **The relaxations are sound.**  The builder never throws its internal error.  Every generated
document belongs to a pool of the source; each placement of the source, carried over to the
fragments, is valid for it with no metric of its objective above the peak of that pool, so a
lower bound of the document is a lower bound of that peak. -/
theorem buildCoreRelaxations_sound (source : StructuredProblemDocument) :
    (∀ message, buildCoreRelaxations source ≠ .error (.logicError message)) ∧
      ∀ documents, buildCoreRelaxations source = .ok documents → ∀ document ∈ documents,
        validateStructuredProblemDocument document = [] ∧
        ∃ pool ∈ source.problem.pools, document = coreRelaxation source pool ∧
          ∀ solution, validateSolution source.problem solution = [] →
            validateSolution document.problem (fragmentSolution source.problem pool solution) = [] ∧
            ∀ metric ∈ document.problem.objective.terms,
              evaluateObjectiveMetric document.problem (evaluateObjective document.problem
                  (fragmentSolution source.problem pool solution)) metric ≤
                (evaluateObjective source.problem solution).peak pool.id ∧
              ∀ bound, (∀ other, validateSolution document.problem other = [] →
                  bound ≤ evaluateObjectiveMetric document.problem
                    (evaluateObjective document.problem other) metric) →
                bound ≤ (evaluateObjective source.problem solution).peak pool.id := by
  obtain ⟨hno, hdocuments⟩ := @buildCoreRelaxations_spec source
  refine ⟨hno, fun documents h document hd => ?_⟩
  obtain ⟨hsource, hall⟩ := hdocuments documents h
  obtain ⟨pool, hpool, rfl, hlen⟩ := hall document hd
  refine ⟨validate_coreRelaxation hsource.valid hsource.profile hlen, pool, hpool, rfl,
    fun solution hs => ?_⟩
  have hvalid := validateSolution_fragmentSolution hsource hpool hlen hs
  refine ⟨hvalid, fun metric hmetric => ?_⟩
  have hle := metric_coreRelaxation_le hsource hlen ((validateSolution_eq_nil_iff _ _).mp hs).2
    metric hmetric
  exact ⟨hle, fun bound hbound => (hbound _ hvalid).trans hle⟩

/-- A buffer of two intervals and one that is alive in between. -/
def twoIntervalDocument : StructuredProblemDocument where
  profile := .pyptoResearchV1
  instanceName := "two_intervals"
  metadata := ((∅ : Metadata).insert "lifetime_ordering" "pypto_read_before_write").insert
    "solver_input" "pre_memory_reuse"
  problem :=
    { buffers := [{ id := 3, size := 8, alignment := 4, liveIntervals := [⟨0, 2⟩, ⟨4, 6⟩] },
        { id := 5, size := 8, liveIntervals := [⟨2, 4⟩] }]
      pools := [{ capacity := some 16, reservedRanges := [⟨0, 4⟩] }] }

/-- Both buffers just above the reserved range. -/
def twoIntervalSolution : DsaSolution :=
  ⟨((∅ : Std.TreeMap BufferId Placement).insert 3 ⟨0, 4⟩).insert 5 ⟨0, 4⟩⟩

theorem buildCoreRelaxations_sound_twoInterval :
    ∃ documents, buildCoreRelaxations twoIntervalDocument = .ok documents ∧ documents.length = 1 ∧
      ∀ document ∈ documents, ∃ pool ∈ twoIntervalDocument.problem.pools,
        validateSolution document.problem
          (fragmentSolution twoIntervalDocument.problem pool twoIntervalSolution) = [] := by
  have hone : (match buildCoreRelaxations twoIntervalDocument with
      | .error _ => 0
      | .ok documents => documents.length) = 1 := by decide +kernel
  cases hbuilt : buildCoreRelaxations twoIntervalDocument with
  | error error =>
      rw [hbuilt] at hone
      cases hone
  | ok documents =>
      rw [hbuilt] at hone
      refine ⟨documents, rfl, hone, fun document hd => ?_⟩
      obtain ⟨-, pool, hpool, -, hplaced⟩ :=
        (buildCoreRelaxations_sound twoIntervalDocument).2 documents hbuilt document hd
      exact ⟨pool, hpool, (hplaced twoIntervalSolution (by decide +kernel)).1⟩

end Dsa
