import DsaSolver.JsonRoundTrip

/-! # Exact integers

The integers that the readers store are the integers that the document writes, in every field
but the bounds of a live interval: `ReadSigned` casts an unsigned number to `int64_t` without
looking at its size. -/

namespace Dsa

open Theory

/-! ### Numbers -/

section numbers

variable {α : Type}

theorem readField_eq_ok {read : Json → String → Except Exception α} {object : Json}
    {field path : String} {result : α} (h : readField read object field path = .ok result) :
    ∃ value itemPath, object.find field = some value ∧ read value itemPath = .ok result := by
  cases object with
  | object members =>
      rw [readField, requireField] at h
      rw [Json.find]
      cases hlookup : members.lookup field with
      | none => simp [hlookup, throwRuntime, bind, Except.bind] at h
      | some value =>
          rw [hlookup, ok_bind] at h
          exact ⟨value, _, rfl, h⟩
  | _ => simp [readField, requireField, throwRuntime, bind, Except.bind] at h

/-- The JSON value is written as this integer. -/
def Writes (value : Json) (number : ℤ) : Prop := value.intValue = some number

/-- The member of the object is written as this integer. -/
def WritesAt (object : Json) (field : String) (number : ℤ) : Prop :=
  Writes (object.member field) number

/-- The reader of a number stores what is written. -/
def StoresExactly (read : Json → String → Except Exception α) (toInt : α → ℤ) : Prop :=
  ∀ value path number, read value path = .ok number → Writes value (toInt number)

theorem StoresExactly.field {read : Json → String → Except Exception α} {toInt : α → ℤ}
    (h : StoresExactly read toInt) {object : Json} {field path : String} {number : α}
    (hread : readField read object field path = .ok number) :
    WritesAt object field (toInt number) := by
  obtain ⟨value, itemPath, hfind, hvalue⟩ := readField_eq_ok hread
  rw [WritesAt, Json.member, hfind]
  exact h value itemPath number hvalue

theorem readUnsigned_exact {max : UInt64} {value : Json} {path : String} {number : UInt64}
    (h : readUnsigned max value path = .ok number) :
    Writes value number.toNat ∧ number ≤ max := by
  cases value with
  | unsigned value =>
      have heq : readUnsigned max (.unsigned value) path = if value > max then
          throwRuntime (path ++ " exceeds its integer range") else .ok value := rfl
      rw [heq] at h
      unfold throwRuntime at h
      split_ifs at h with hgt
      obtain rfl := Except.ok.inj h
      exact ⟨by rw [Writes, Json.intValue], UInt64.not_lt.mp hgt⟩
  | signed value =>
      have heq : readUnsigned max (.signed value) path =
          if value < 0 then throwRuntime (path ++ " must be non-negative")
          else if value.toUInt64 > max then throwRuntime (path ++ " exceeds its integer range")
          else .ok value.toUInt64 := rfl
      rw [heq] at h
      unfold throwRuntime at h
      split_ifs at h with hneg hgt
      obtain rfl := Except.ok.inj h
      refine ⟨?_, UInt64.not_lt.mp hgt⟩
      rw [Writes, Json.intValue, Json.toInt_toUInt64_of_nonneg hneg]
  | _ => simp [readUnsigned, Json.isNumberUnsigned, Json.isNumberInteger, throwRuntime, bind,
      Except.bind] at h

theorem readUInt64_exact : StoresExactly readUInt64 fun number => number.toNat :=
  fun _ _ _ h => (readUnsigned_exact h).1

theorem readUInt32_exact : StoresExactly readUInt32 fun number => number.toNat := by
  intro value path number h
  unfold readUInt32 at h
  rw [bind_eq_ok] at h
  obtain ⟨parsed, hparsed, hcast⟩ := h
  obtain ⟨hwrites, hle⟩ := readUnsigned_exact hparsed
  obtain rfl := Except.ok.inj hcast
  have hlt : parsed.toNat < 4294967296 := by
    have := UInt64.le_iff_toNat_le.mp hle
    have hmax : (4294967295 : UInt64).toNat = 4294967295 := rfl
    omega
  have hcast : parsed.toUInt32.toNat = parsed.toNat := by
    rw [UInt64.toNat_toUInt32]
    exact Nat.mod_eq_of_lt hlt
  simpa only [hcast] using hwrites

/-- No unsigned number from `2 ^ 63` on. -/
def InInt64Range (value : Json) : Prop := ∀ number, Writes value number → number < 2 ^ 63

theorem readSigned_exact_iff {value : Json} {path : String} {number : Int64}
    (h : readSigned value path = .ok number) :
    Writes value number.toInt ↔ InInt64Range value := by
  cases value with
  | unsigned value =>
      simp only [readSigned, Json.isNumberInteger, Json.getInt64, if_true] at h
      obtain rfl := Except.ok.inj h
      have hiff := Json.toInt_toInt64_eq_iff value
      simp only [Writes, InInt64Range, Json.intValue, Option.some.injEq, forall_eq']
      rw [eq_comm, hiff]
      omega
  | signed value =>
      simp only [readSigned, Json.isNumberInteger, Json.getInt64, if_true] at h
      obtain rfl := Except.ok.inj h
      have hlt := value.toInt_lt
      simp only [Writes, InInt64Range, Json.intValue, Option.some.injEq, forall_eq', true_iff]
      exact hlt
  | _ => simp [readSigned, Json.isNumberInteger, Json.isNumberUnsigned, throwRuntime] at h

/-- A number of 32 bits that is not negative is exact; the others may come from an unsigned
number close to `2 ^ 64`. -/
theorem readInt32_exact {value : Json} {path : String} {number : Int32}
    (h : readInt32 value path = .ok number) (hnonneg : ¬number < 0) :
    Writes value number.toInt := by
  unfold readInt32 at h
  rw [bind_eq_ok] at h
  obtain ⟨parsed, hparsed, hcast⟩ := h
  unfold throwRuntime at hcast
  split_ifs at hcast with hrange
  obtain rfl := Except.ok.inj hcast
  simp only [Bool.or_eq_true, decide_eq_true_eq, not_or, gt_iff_lt, Int64.not_lt,
    Int64.le_iff_toInt_le] at hrange
  have hint : parsed.toInt32.toInt = parsed.toInt := by
    have hlow : (-2147483648 : Int64).toInt = -2147483648 := rfl
    have hhigh : (2147483647 : Int64).toInt = 2147483647 := rfl
    rw [Int64.toInt_toInt32]
    apply Int.bmod_eq_of_le <;> omega
  have hle : 0 ≤ parsed.toInt := by
    rw [← hint]
    exact Int32.le_iff_toInt_le.mp (Int32.not_lt.mp hnonneg)
  rw [hint]
  cases value with
  | unsigned value =>
      simp only [readSigned, Json.isNumberInteger, if_true, Json.getInt64] at hparsed
      obtain rfl := Except.ok.inj hparsed
      rw [Writes, Json.intValue, Json.toInt_toInt64_of_nonneg hle]
  | signed value =>
      simp only [readSigned, Json.isNumberInteger, if_true, Json.getInt64] at hparsed
      obtain rfl := Except.ok.inj hparsed
      rw [Writes, Json.intValue]
  | _ => simp [readSigned, Json.isNumberInteger, Json.isNumberUnsigned, throwRuntime] at hparsed

/-! ### Lists and optional members -/

theorem readItems_eq_ok {read : Json → String → Except Exception α} {path : String} {i : ℕ}
    {items : List Json} {values : List α} (h : readItems read path i items = .ok values) :
    List.Forall₂ (fun item value => ∃ itemPath, read item itemPath = .ok value) items values := by
  induction items generalizing i values with
  | nil =>
      obtain rfl := Except.ok.inj h
      exact .nil
  | cons item rest ih =>
      simp only [readItems, bind_eq_ok] at h
      obtain ⟨first, hfirst, others, hothers, h⟩ := h
      obtain rfl := Except.ok.inj h
      exact .cons ⟨_, hfirst⟩ (ih hothers)

/-- The items of an array are read one by one. -/
theorem readArray_eq_ok {read : Json → String → Except Exception α} {value : Json} {path : String}
    {values : List α} (h : readArray read value path = .ok values) :
    List.Forall₂ (fun item value => ∃ itemPath, read item itemPath = .ok value) value.items
      values := by
  cases value with
  | array items => exact readItems_eq_ok h
  | _ => simp [readArray, throwRuntime] at h

/-- What the reader of an item ensures holds of the items and the values read. -/
theorem readArrayField_exact {read : Json → String → Except Exception α} {R : Json → α → Prop}
    (hexact : ∀ item path value, read item path = .ok value → R item value) {object : Json}
    {field path : String} {values : List α}
    (h : readField (readArray read) object field path = .ok values) :
    List.Forall₂ R (object.member field).items values := by
  obtain ⟨value, itemPath, hfind, hvalue⟩ := readField_eq_ok h
  rw [Json.member, hfind]
  exact (readArray_eq_ok hvalue).imp fun item value ⟨path, hread⟩ => hexact item path value hread

/-- A record is there exactly when it is written. -/
theorem readPresentField_exact {read : Json → String → Except Exception α} {R : Json → α → Prop}
    (hexact : ∀ item path value, read item path = .ok value → R item value) {object : Json}
    {field path : String} {record : Option α}
    (h : readOptional (readPresent read) none object field path = .ok record) :
    Option.Rel R (object.find field) record := by
  unfold readOptional at h
  cases hfind : object.find field with
  | none =>
      rw [hfind] at h
      obtain rfl := Except.ok.inj h
      exact .none
  | some value =>
      simp only [hfind, readPresent, bind_eq_ok] at h
      obtain ⟨-, -, present, hpresent, h⟩ := h
      obtain rfl := Except.ok.inj h
      exact .some (hexact _ _ _ hpresent)

end numbers

/-! ### Exact records -/

def AddressRangeExact (value : Json) (range : AddressRange) : Prop :=
  WritesAt value "begin" range.first.toNat ∧ WritesAt value "end" range.last.toNat

def BankGeometryExact (value : Json) (geometry : BankGeometry) : Prop :=
  WritesAt value "bank_size" geometry.bankSize.toNat ∧
    WritesAt value "num_banks" geometry.numBanks.toNat

def PoolExact (value : Json) (pool : Pool) : Prop :=
  WritesAt value "id" pool.id.toNat ∧
    (value.member "capacity").intValue = pool.capacity.map (fun capacity => (capacity.toNat : ℤ)) ∧
    List.Forall₂ AddressRangeExact (value.member "reserved_ranges").items pool.reservedRanges ∧
    Option.Rel BankGeometryExact (value.find "bank_geometry") pool.bankGeometry

def IntervalExact (value : Json) (interval : Interval) : Prop :=
  WritesAt value "lower" interval.lower.toInt ∧ WritesAt value "upper" interval.upper.toInt

def BufferExact (value : Json) (buffer : Buffer) : Prop :=
  WritesAt value "id" buffer.id.toNat ∧ WritesAt value "size" buffer.size.toNat ∧
    WritesAt value "alignment" buffer.alignment.toNat ∧
    List.Forall₂ (fun item (pool : PoolId) => Writes item pool.toNat)
      (value.member "allowed_pools").items buffer.allowedPools ∧
    List.Forall₂ IntervalExact (value.member "live_intervals").items buffer.liveIntervals

/-- A pair of buffers, of any of the three lists of pairs. -/
def PairExact (value : Json) (first second : BufferId) : Prop :=
  WritesAt value "first" first.toNat ∧ WritesAt value "second" second.toNat

def PinnedAllocationExact (value : Json) (pinned : PinnedAllocation) : Prop :=
  WritesAt value "buffer" pinned.buffer.toNat ∧ WritesAt value "pool" pinned.pool.toNat ∧
    WritesAt value "offset" pinned.offset.toNat

def PipelineMemberExact (value : Json) (member : PyptoPipelineMember) : Prop :=
  WritesAt value "buffer" member.buffer.toNat ∧ WritesAt value "stage" member.stage.toInt ∧
    WritesAt value "residue" member.residue.toNat

def PipelineGroupExact (value : Json) (group : PyptoPipelineGroup) : Prop :=
  WritesAt value "group" group.group.toInt ∧ WritesAt value "pool" group.pool.toNat ∧
    WritesAt value "slot_size" group.slotSize.toNat ∧ WritesAt value "depth" group.depth.toNat ∧
    WritesAt value "effective_depth" group.effectiveDepth.toNat ∧
    List.Forall₂ PipelineMemberExact (value.member "members").items group.members

def PyptoStructureExact (value : Json) (pypto : PyptoStructure) : Prop :=
  List.Forall₂ (fun item (aliasClass : PyptoAliasClass) =>
      WritesAt item "buffer" aliasClass.buffer.toNat)
    (value.member "alias_classes").items pypto.aliasClasses ∧
  List.Forall₂ PipelineGroupExact (value.member "pipeline_groups").items pypto.pipelineGroups

def ReusePenaltyExact (value : Json) (penalty : ReusePenalty) : Prop :=
  PairExact value penalty.first penalty.second ∧ WritesAt value "cost" penalty.cost.toNat

def CostModelExact (value : Json) (costs : CostModel) : Prop :=
  List.Forall₂ ReusePenaltyExact (value.member "reuse_penalties").items costs.reusePenalties

/-- Every integer of the problem, the bounds of the live intervals last. -/
def ProblemExact (value : Json) (problem : DsaProblem) : Prop :=
  let constraints := value.member "constraints"
  List.Forall₂ PoolExact (value.member "pools").items problem.pools ∧
    List.Forall₂ (fun item (pair : Colocation) => PairExact item pair.first pair.second)
      (constraints.member "colocations").items problem.colocations ∧
    List.Forall₂ (fun item (pair : Separation) => PairExact item pair.first pair.second)
      (constraints.member "separations").items problem.separations ∧
    List.Forall₂ (fun item (pair : TemporalExclusion) => PairExact item pair.first pair.second)
      (constraints.member "temporal_exclusions").items problem.temporalExclusions ∧
    List.Forall₂ PinnedAllocationExact (constraints.member "pinned_allocations").items
      problem.pinnedAllocations ∧
    Option.Rel PyptoStructureExact (value.find "pypto_structure") problem.pyptoStructure ∧
    Option.Rel CostModelExact (value.find "cost_model") problem.costModel ∧
    List.Forall₂ BufferExact (value.member "buffers").items problem.buffers

/-- Every integer field of the document holds the number that the JSON value writes there. -/
def DocumentExact (root : Json) (document : StructuredProblemDocument) : Prop :=
  WritesAt root "schema_version" document.schemaVersion.toNat ∧
    ProblemExact (root.member "problem") document.problem

/-- The bounds of a live interval are below `2 ^ 63`. -/
def IntervalInRange (value : Json) : Prop :=
  InInt64Range (value.member "lower") ∧ InInt64Range (value.member "upper")

def LifetimesInRange (root : Json) : Prop :=
  ∀ buffer ∈ ((root.member "problem").member "buffers").items,
    ∀ interval ∈ (buffer.member "live_intervals").items, IntervalInRange interval

/-! ### The readers are exact -/

theorem readAddressRange_exact (value : Json) (path : String) (range : AddressRange)
    (h : readAddressRange value path = .ok range) : AddressRangeExact value range := by
  simp only [readAddressRange, bind_eq_ok] at h
  obtain ⟨-, -, first, hfirst, last, hlast, h⟩ := h
  obtain rfl := Except.ok.inj h
  exact ⟨readUInt64_exact.field hfirst, readUInt64_exact.field hlast⟩

theorem readBankGeometry_exact (value : Json) (path : String) (geometry : BankGeometry)
    (h : readBankGeometry value path = .ok geometry) : BankGeometryExact value geometry := by
  simp only [readBankGeometry, bind_eq_ok] at h
  obtain ⟨-, -, bankSize, hsize, numBanks, hbanks, h⟩ := h
  obtain rfl := Except.ok.inj h
  exact ⟨readUInt64_exact.field hsize, readUInt32_exact.field hbanks⟩

theorem readCapacity_exact {object : Json} {field path : String} {capacity : Option UInt64}
    (h : readField (readNullable readUInt64) object field path = .ok capacity) :
    (object.member field).intValue = capacity.map fun capacity => (capacity.toNat : ℤ) := by
  obtain ⟨value, itemPath, hfind, hvalue⟩ := readField_eq_ok h
  rw [Json.member, hfind, Option.getD_some]
  unfold readNullable at hvalue
  split_ifs at hvalue with hnull
  · obtain rfl := Except.ok.inj hvalue
    cases value <;> simp_all [Json.isNull, Json.intValue]
  · rw [bind_eq_ok] at hvalue
    obtain ⟨number, hnumber, hvalue⟩ := hvalue
    obtain rfl := Except.ok.inj hvalue
    exact readUInt64_exact _ _ _ hnumber

theorem readPool_exact (value : Json) (path : String) (pool : Pool)
    (h : readPool value path = .ok pool) : PoolExact value pool := by
  simp only [readPool, bind_eq_ok] at h
  obtain ⟨-, -, id, hid, name, -, capacity, hcapacity, ranges, hranges, geometry, hgeometry, h⟩ := h
  obtain rfl := Except.ok.inj h
  exact ⟨readUInt32_exact.field hid, readCapacity_exact hcapacity,
    readArrayField_exact readAddressRange_exact hranges,
    readPresentField_exact readBankGeometry_exact hgeometry⟩

theorem readColocation_exact (value : Json) (path : String) (pair : Colocation)
    (h : readColocation value path = .ok pair) : PairExact value pair.first pair.second := by
  simp only [readColocation, bind_eq_ok] at h
  obtain ⟨-, -, first, hfirst, second, hsecond, h⟩ := h
  obtain rfl := Except.ok.inj h
  exact ⟨readUInt32_exact.field hfirst, readUInt32_exact.field hsecond⟩

theorem readTemporalExclusion_exact (value : Json) (path : String) (pair : TemporalExclusion)
    (h : readTemporalExclusion value path = .ok pair) :
    PairExact value pair.first pair.second := by
  simp only [readTemporalExclusion, bind_eq_ok] at h
  obtain ⟨-, -, first, hfirst, second, hsecond, h⟩ := h
  obtain rfl := Except.ok.inj h
  exact ⟨readUInt32_exact.field hfirst, readUInt32_exact.field hsecond⟩

theorem readSeparation_exact (value : Json) (path : String) (pair : Separation)
    (h : readSeparation value path = .ok pair) : PairExact value pair.first pair.second := by
  simp only [readSeparation, bind_eq_ok] at h
  obtain ⟨-, -, first, hfirst, second, hsecond, reasons, -, h⟩ := h
  obtain rfl := Except.ok.inj h
  exact ⟨readUInt32_exact.field hfirst, readUInt32_exact.field hsecond⟩

theorem readPinnedAllocation_exact (value : Json) (path : String) (pinned : PinnedAllocation)
    (h : readPinnedAllocation value path = .ok pinned) : PinnedAllocationExact value pinned := by
  simp only [readPinnedAllocation, bind_eq_ok] at h
  obtain ⟨-, -, buffer, hbuffer, pool, hpool, offset, hoffset, exclusive, -, h⟩ := h
  obtain rfl := Except.ok.inj h
  exact ⟨readUInt32_exact.field hbuffer, readUInt32_exact.field hpool,
    readUInt64_exact.field hoffset⟩

theorem readAliasClass_exact (value : Json) (path : String) (aliasClass : PyptoAliasClass)
    (h : readAliasClass value path = .ok aliasClass) :
    WritesAt value "buffer" aliasClass.buffer.toNat := by
  simp only [readAliasClass, bind_eq_ok] at h
  obtain ⟨-, -, buffer, hbuffer, members, -, h⟩ := h
  obtain rfl := Except.ok.inj h
  exact readUInt32_exact.field hbuffer

theorem readReusePenalty_exact (value : Json) (path : String) (penalty : ReusePenalty)
    (h : readReusePenalty value path = .ok penalty) : ReusePenaltyExact value penalty := by
  simp only [readReusePenalty, bind_eq_ok] at h
  obtain ⟨-, -, first, hfirst, second, hsecond, cost, hcost, reason, -, h⟩ := h
  obtain rfl := Except.ok.inj h
  exact ⟨⟨readUInt32_exact.field hfirst, readUInt32_exact.field hsecond⟩,
    readUInt64_exact.field hcost⟩

theorem readCostModel_exact (value : Json) (path : String) (costs : CostModel)
    (h : readCostModel value path = .ok costs) : CostModelExact value costs := by
  simp only [readCostModel, bind_eq_ok] at h
  obtain ⟨-, -, penalties, hpenalties, h⟩ := h
  obtain rfl := Except.ok.inj h
  exact readArrayField_exact readReusePenalty_exact hpenalties

/-! ### Signed fields -/

theorem readInterval_exact_iff {value : Json} {path : String} {interval : Interval}
    (h : readInterval value path = .ok interval) :
    IntervalExact value interval ↔ IntervalInRange value := by
  simp only [readInterval, bind_eq_ok] at h
  obtain ⟨-, -, lower, hlower, upper, hupper, h⟩ := h
  obtain rfl := Except.ok.inj h
  obtain ⟨lowerValue, lowerPath, hfindLower, hlower⟩ := readField_eq_ok hlower
  obtain ⟨upperValue, upperPath, hfindUpper, hupper⟩ := readField_eq_ok hupper
  have hiffLower := readSigned_exact_iff hlower
  have hiffUpper := readSigned_exact_iff hupper
  unfold IntervalExact IntervalInRange WritesAt Json.member
  rw [hfindLower, hfindUpper]
  exact and_congr hiffLower hiffUpper

/-- Exactness item by item, where each item has its own condition. -/
theorem forall₂_iff_of_items {α : Type} {R S : Json → α → Prop} {P : Json → Prop}
    {items : List Json} {values : List α} (h : List.Forall₂ R items values)
    (hiff : ∀ item value, R item value → (S item value ↔ P item)) :
    List.Forall₂ S items values ↔ ∀ item ∈ items, P item := by
  induction h with
  | nil => simp
  | cons hfirst hrest ih =>
      rw [List.forall₂_cons, List.forall_mem_cons, hiff _ _ hfirst, ih]

theorem readBuffer_exact_iff (value : Json) (path : String) (buffer : Buffer)
    (h : readBuffer value path = .ok buffer) :
    BufferExact value buffer ↔
      ∀ interval ∈ (value.member "live_intervals").items, IntervalInRange interval := by
  simp only [readBuffer, bind_eq_ok] at h
  obtain ⟨-, -, id, hid, name, -, size, hsize, alignment, halignment, intervals, hintervals, pools,
    hpools, h⟩ := h
  obtain rfl := Except.ok.inj h
  have hread : List.Forall₂ (fun item interval => ∃ path, readInterval item path = .ok interval)
      (value.member "live_intervals").items intervals :=
    readArrayField_exact (fun item path interval h => ⟨path, h⟩) hintervals
  have hlifetimes := forall₂_iff_of_items (S := IntervalExact) (P := IntervalInRange) hread (by
    rintro item interval ⟨path, h⟩
    exact readInterval_exact_iff h)
  have hallowed := readArrayField_exact readUInt32_exact hpools
  rw [← hlifetimes]
  exact ⟨fun h => h.2.2.2.2, fun h => ⟨readUInt32_exact.field hid, readUInt64_exact.field hsize,
    readUInt64_exact.field halignment, hallowed, h⟩⟩

/-- Group ids and stages that are not negative, which the validation asks for. -/
def GroupNonneg (group : PyptoPipelineGroup) : Prop :=
  ¬group.group < 0 ∧ ∀ member ∈ group.members, ¬member.stage < 0

theorem readInt32Field_exact {object : Json} {field path : String} {number : Int32}
    (h : readField readInt32 object field path = .ok number) (hnonneg : ¬number < 0) :
    WritesAt object field number.toInt := by
  obtain ⟨value, itemPath, hfind, hvalue⟩ := readField_eq_ok h
  rw [WritesAt, Json.member, hfind]
  exact readInt32_exact hvalue hnonneg

/-- Exactness item by item, where each value read has its own condition. -/
theorem forall₂_of_values {α : Type} {R S : Json → α → Prop} {P : α → Prop} {items : List Json}
    {values : List α} (h : List.Forall₂ R items values)
    (himp : ∀ item value, R item value → P value → S item value) (hall : ∀ value ∈ values, P value) :
    List.Forall₂ S items values := by
  induction h with
  | nil => exact .nil
  | cons hfirst hrest ih =>
      rw [List.forall_mem_cons] at hall
      exact .cons (himp _ _ hfirst hall.1) (ih hall.2)

theorem optionRel_of_value {α : Type} {R S : Json → α → Prop} {P : α → Prop} {value : Option Json}
    {record : Option α} (h : Option.Rel R value record)
    (himp : ∀ value record, R value record → P record → S value record)
    (hall : ∀ present, record = some present → P present) : Option.Rel S value record := by
  cases h with
  | none => exact .none
  | some hsome => exact .some (himp _ _ hsome (hall _ rfl))

theorem readPipelineMember_exact {value : Json} {path : String} {member : PyptoPipelineMember}
    (h : readPipelineMember value path = .ok member) (hnonneg : ¬member.stage < 0) :
    PipelineMemberExact value member := by
  simp only [readPipelineMember, bind_eq_ok] at h
  obtain ⟨-, -, buffer, hbuffer, stage, hstage, residue, hresidue, h⟩ := h
  obtain rfl := Except.ok.inj h
  exact ⟨readUInt32_exact.field hbuffer, readInt32Field_exact hstage hnonneg,
    readUInt32_exact.field hresidue⟩

theorem readPipelineGroup_exact {value : Json} {path : String} {group : PyptoPipelineGroup}
    (h : readPipelineGroup value path = .ok group) (hnonneg : GroupNonneg group) :
    PipelineGroupExact value group := by
  simp only [readPipelineGroup, bind_eq_ok] at h
  obtain ⟨-, -, id, hid, pool, hpool, slotSize, hslot, depth, hdepth, effective, heffective, members,
    hmembers, h⟩ := h
  obtain rfl := Except.ok.inj h
  refine ⟨readInt32Field_exact hid hnonneg.1, readUInt32_exact.field hpool,
    readUInt64_exact.field hslot, readUInt32_exact.field hdepth,
    readUInt32_exact.field heffective, ?_⟩
  have hread : List.Forall₂ (fun item member => ∃ path, readPipelineMember item path = .ok member)
      (value.member "members").items members :=
    readArrayField_exact (fun item path member h => ⟨path, h⟩) hmembers
  refine forall₂_of_values hread ?_ hnonneg.2
  rintro item member ⟨path, h⟩
  exact readPipelineMember_exact h

theorem readPyptoStructure_exact {value : Json} {path : String} {pypto : PyptoStructure}
    (h : readPyptoStructure value path = .ok pypto)
    (hnonneg : ∀ group ∈ pypto.pipelineGroups, GroupNonneg group) :
    PyptoStructureExact value pypto := by
  simp only [readPyptoStructure, bind_eq_ok] at h
  obtain ⟨-, -, aliases, haliases, groups, hgroups, h⟩ := h
  obtain rfl := Except.ok.inj h
  refine ⟨readArrayField_exact readAliasClass_exact haliases, ?_⟩
  have hread : List.Forall₂ (fun item group => ∃ path, readPipelineGroup item path = .ok group)
      (value.member "pipeline_groups").items groups :=
    readArrayField_exact (fun item path group h => ⟨path, h⟩) hgroups
  refine forall₂_of_values hread ?_ hnonneg
  rintro item group ⟨path, h⟩
  exact readPipelineGroup_exact h

theorem nonneg_of_pipelineMemberErrors {problem : DsaProblem} {group : PyptoPipelineGroup}
    {members : List PyptoPipelineMember} {known : List (BufferId × Int32)}
    {residues : List (Int32 × UInt32)}
    (h : pipelineMemberErrors problem group known residues members = []) :
    ∀ member ∈ members, ¬member.stage < 0 := by
  induction members generalizing known residues with
  | nil => simp
  | cons member rest ih =>
      unfold pipelineMemberErrors at h
      simp only [List.append_eq_nil_iff, errorIf_eq_nil, decide_eq_false_iff_not] at h
      rw [List.forall_mem_cons]
      exact ⟨h.1.1.1.1.2, ih h.2⟩

theorem nonneg_of_pipelineGroupErrors {problem : DsaProblem} {groups : List PyptoPipelineGroup}
    {known : List (PoolId × Int32)} (h : pipelineGroupErrors problem known groups = []) :
    ∀ group ∈ groups, GroupNonneg group := by
  induction groups generalizing known with
  | nil => simp
  | cons group rest ih =>
      unfold pipelineGroupErrors at h
      simp only [List.append_eq_nil_iff, errorIf_eq_nil, decide_eq_false_iff_not] at h
      obtain ⟨⟨⟨⟨⟨⟨⟨⟨hgroup, -⟩, -⟩, -⟩, -⟩, -⟩, -⟩, hmembers⟩, hrest⟩ := h
      rw [List.forall_mem_cons]
      exact ⟨⟨hgroup, nonneg_of_pipelineMemberErrors hmembers⟩, ih hrest⟩

theorem nonneg_of_validateProblem {problem : DsaProblem} (h : validateProblem problem = [])
    {pypto : PyptoStructure} (hpypto : problem.pyptoStructure = some pypto) :
    ∀ group ∈ pypto.pipelineGroups, GroupNonneg group := by
  unfold validateProblem pyptoErrors at h
  simp only [List.append_eq_nil_iff, hpypto] at h
  exact nonneg_of_pipelineGroupErrors h.1.1.2.2

/-! ### Documents -/

theorem readProblem_exact_iff {value : Json} {path : String} {problem : DsaProblem}
    (h : readProblem value path = .ok problem) (hvalid : validateProblem problem = []) :
    ProblemExact value problem ↔
      ∀ buffer ∈ (value.member "buffers").items,
        ∀ interval ∈ (buffer.member "live_intervals").items, IntervalInRange interval := by
  simp only [readProblem, bind_eq_ok] at h
  obtain ⟨-, -, pools, hpools, buffers, hbuffers, lists, hlists, pypto, hpypto, costs, hcosts,
    objective, -, h⟩ := h
  obtain ⟨colocations, separations, exclusions, pins⟩ := lists
  obtain rfl := Except.ok.inj h
  obtain ⟨constraints, constraintsPath, hfind, hconstraints⟩ := readField_eq_ok hlists
  simp only [readConstraints, bind_eq_ok] at hconstraints
  obtain ⟨-, -, colocations', hcolocations, separations', hseparations, exclusions', hexclusions,
    pins', hpins, h⟩ := hconstraints
  cases Except.ok.inj h
  have hread : List.Forall₂ (fun item buffer => ∃ path, readBuffer item path = .ok buffer)
      (value.member "buffers").items buffers :=
    readArrayField_exact (fun item path buffer h => ⟨path, h⟩) hbuffers
  have hiff := forall₂_iff_of_items (S := BufferExact) hread (by
    rintro item buffer ⟨path, h⟩
    exact readBuffer_exact_iff item path buffer h)
  have hreadPypto : Option.Rel (fun item pypto => ∃ path, readPyptoStructure item path = .ok pypto)
      (value.find "pypto_structure") pypto :=
    readPresentField_exact (fun item path pypto h => ⟨path, h⟩) hpypto
  have hstructure := optionRel_of_value (S := PyptoStructureExact) hreadPypto (by
    rintro item pypto ⟨path, h⟩
    exact readPyptoStructure_exact h)
    (fun present hpresent => nonneg_of_validateProblem hvalid hpresent)
  have hmember : value.member "constraints" = constraints := by rw [Json.member, hfind]; rfl
  rw [← hiff]
  unfold ProblemExact
  rw [hmember]
  refine ⟨fun h => h.2.2.2.2.2.2.2, fun h => ⟨readArrayField_exact readPool_exact hpools,
    readArrayField_exact readColocation_exact hcolocations,
    readArrayField_exact readSeparation_exact hseparations,
    readArrayField_exact readTemporalExclusion_exact hexclusions,
    readArrayField_exact readPinnedAllocation_exact hpins, hstructure,
    readPresentField_exact readCostModel_exact hcosts, h⟩⟩

theorem parseDocument_exact_iff {root : Json} {document : StructuredProblemDocument}
    (h : parseDocument root = .ok document) : DocumentExact root document ↔ LifetimesInRange root := by
  simp only [parseDocument, bind_eq_ok] at h
  obtain ⟨-, -, version, hversion, -, -, profile, -, instanceName, -, relaxedFrom, -, features, -,
    metadata, -, -, -, problem, hproblem, h⟩ := h
  obtain ⟨value, path, hfind, hread⟩ := readField_eq_ok hproblem
  have hmember : root.member "problem" = value := by rw [Json.member, hfind]; rfl
  cases hvalid : validateStructuredProblemDocument
      ⟨version, profile, instanceName, relaxedFrom, features, metadata, problem⟩ with
  | cons error rest => simp [hvalid, throwRuntime] at h
  | nil =>
      rw [hvalid] at h
      obtain rfl := Except.ok.inj h
      have hproblem := validateProblem_of_document hvalid
      have hiff := readProblem_exact_iff hread hproblem
      have hwrites : WritesAt root "schema_version" version.toNat :=
        readUInt32_exact.field hversion
      unfold DocumentExact LifetimesInRange
      rw [hmember]
      exact (and_iff_right hwrites).trans hiff

/-! ### Solution documents -/

/-- The item writes the placement of the buffer. -/
def PlacementExact (item : Json) (buffer : BufferId) (placement : Placement) : Prop :=
  WritesAt item "buffer" buffer.toNat ∧ WritesAt item "pool" placement.pool.toNat ∧
    WritesAt item "offset" placement.offset.toNat

/-- The schema version is the one written, and the placements stored are those written. -/
def SolutionDocumentExact (root : Json) (document : StructuredSolutionDocument) : Prop :=
  WritesAt root "schema_version" document.schemaVersion.toNat ∧
    (∀ item ∈ (root.member "placements").items, ∃ buffer placement,
      PlacementExact item buffer placement ∧ document.solution.find buffer = some placement) ∧
    ∀ buffer placement, document.solution.find buffer = some placement →
      ∃ item ∈ (root.member "placements").items, PlacementExact item buffer placement

theorem readPlacement_exact {value : Json} {path : String} {entry : BufferId × Placement}
    (h : readPlacement value path = .ok entry) : PlacementExact value entry.1 entry.2 := by
  simp only [readPlacement, bind_eq_ok] at h
  obtain ⟨-, -, buffer, hbuffer, pool, hpool, offset, hoffset, h⟩ := h
  obtain rfl := Except.ok.inj h
  exact ⟨readUInt32_exact.field hbuffer, readUInt32_exact.field hpool,
    readUInt64_exact.field hoffset⟩

/-- The placements read are the ones there before and the ones written; nothing is overwritten. -/
theorem readPlacements_exact {path : String} {i : ℕ} {items : List Json}
    {solution result : DsaSolution} (h : readPlacements path i items solution = .ok result) :
    (∀ buffer placement, solution.find buffer = some placement →
        result.find buffer = some placement) ∧
      (∀ item ∈ items, ∃ buffer placement, PlacementExact item buffer placement ∧
        result.find buffer = some placement) ∧
      ∀ buffer placement, result.find buffer = some placement →
        solution.find buffer = some placement ∨
          ∃ item ∈ items, PlacementExact item buffer placement := by
  induction items generalizing i solution with
  | nil =>
      obtain rfl := Except.ok.inj h
      exact ⟨fun _ _ h => h, by simp, fun _ _ h => .inl h⟩
  | cons item rest ih =>
      simp only [readPlacements, bind_eq_ok] at h
      obtain ⟨⟨buffer, placement⟩, hread, done, hensure, h⟩ := h
      have hexact := readPlacement_exact hread
      obtain ⟨hkept, hitems, hback⟩ := ih h
      have hfind := find_insert solution buffer placement
      have hfresh : solution.find buffer = none := by
        rw [← contains_eq_false_iff]
        unfold ensure throwRuntime at hensure
        split_ifs at hensure with hcontains
        simpa using hcontains
      refine ⟨fun id p hp => hkept id p ?_, ?_, fun id p hp => ?_⟩
      · have hne : buffer ≠ id := by
          rintro rfl
          rw [hfresh] at hp
          cases hp
        rw [hfind, if_neg hne, hp]
      · rw [List.forall_mem_cons]
        exact ⟨⟨buffer, placement, hexact, hkept _ _ (by rw [hfind, if_pos rfl])⟩, hitems⟩
      · obtain hold | ⟨other, hother, hwritten⟩ := hback id p hp
        · rw [hfind] at hold
          split_ifs at hold with hid
          · subst hid
            obtain rfl := Option.some.inj hold
            exact .inr ⟨item, List.mem_cons_self, hexact⟩
          · exact .inl hold
        · exact .inr ⟨other, List.mem_cons_of_mem _ hother, hwritten⟩

theorem parseSolutionDocument_exact {root : Json} {document : StructuredSolutionDocument}
    (h : parseSolutionDocument root = .ok document) : SolutionDocumentExact root document := by
  simp only [parseSolutionDocument, bind_eq_ok] at h
  obtain ⟨-, -, version, hversion, profile, -, instanceName, -, fingerprint, -, metadata, -,
    solution, hsolution, h⟩ := h
  obtain rfl := Except.ok.inj h
  obtain ⟨value, path, hfind, hread⟩ := readField_eq_ok hsolution
  have hwrites : WritesAt root "schema_version" version.toNat := readUInt32_exact.field hversion
  have hmember : root.member "placements" = value := by rw [Json.member, hfind]; rfl
  cases value with
  | array items =>
      obtain ⟨-, hitems, hback⟩ := readPlacements_exact hread
      unfold SolutionDocumentExact
      rw [hmember]
      refine ⟨hwrites, hitems, fun buffer placement hplaced => ?_⟩
      obtain hempty | hwritten := hback buffer placement hplaced
      · exact absurd hempty (by simp [DsaSolution.find])
      · exact hwritten
  | _ => simp [readSolution, throwRuntime] at hread

/-- What is stored of an accepted problem document is what is written exactly when no bound of a
live interval is an unsigned number from `2 ^ 63` on; a solution document is always stored
exactly. -/
theorem storedIntegers_exact (root : Json) :
    (∀ document, parseDocument root = .ok document →
      (DocumentExact root document ↔ LifetimesInRange root)) ∧
    ∀ document, parseSolutionDocument root = .ok document → SolutionDocumentExact root document :=
  ⟨fun _ => parseDocument_exact_iff, fun _ => parseSolutionDocument_exact⟩

/-- A buffer that lives from `2 ^ 64 - 1` to `5`. -/
def wrappedBuffer : Json :=
  .ofMembers [("id", .unsigned 1), ("name", .string "b"), ("size", .unsigned 16),
    ("alignment", .unsigned 1),
    ("live_intervals", .array
      [.ofMembers [("lower", .unsigned 18446744073709551615), ("upper", .unsigned 5)]]),
    ("allowed_pools", .array [.unsigned 0])]

/-- A `standard_dsa` document with this one buffer. -/
def wrappedDocument : Json :=
  .ofMembers [("schema_version", .unsigned 1), ("profile", .string "standard_dsa"),
    ("instance", .string "wrapped"),
    ("problem", .ofMembers [("pools", .array [writePool {}]),
      ("buffers", .array [wrappedBuffer]), ("constraints", writeConstraints {}),
      ("objective", writeObjective {})])]

theorem not_documentExact_wrapped :
    ¬∀ root document, parseDocument root = .ok document → DocumentExact root document := by
  intro h
  have hok : (parseDocument wrappedDocument).isOk = true := by decide +kernel
  obtain ⟨document, hdocument⟩ : ∃ document, parseDocument wrappedDocument = .ok document := by
    cases hparse : parseDocument wrappedDocument with
    | ok document => exact ⟨document, rfl⟩
    | error what =>
        rw [hparse] at hok
        cases hok
  have hrange := (parseDocument_exact_iff hdocument).mp (h _ _ hdocument)
  have hitems : ((wrappedDocument.member "problem").member "buffers").items = [wrappedBuffer] := by
    simp [wrappedDocument, Json.member, Json.find_ofMembers, List.lookup_cons, Json.items]
  have hlower := (hrange wrappedBuffer (by rw [hitems]; exact List.mem_cons_self)
    (.ofMembers [("lower", .unsigned 18446744073709551615), ("upper", .unsigned 5)])
    (by simp [wrappedBuffer, Json.member, Json.find_ofMembers, List.lookup_cons, Json.items])).1
  have hlt := hlower 18446744073709551615
    (by simp [Writes, Json.member, Json.find_ofMembers, List.lookup_cons, Json.intValue])
  omega

theorem storedIntegers_exact_instance :
    DocumentExact (rootOf roundTripDocument) roundTripDocument ↔
      LifetimesInRange (rootOf roundTripDocument) :=
  (storedIntegers_exact _).1 _ (parseDocument_rootOf (by decide +kernel))

end Dsa
