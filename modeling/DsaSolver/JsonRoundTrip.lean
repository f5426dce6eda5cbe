import DsaSolver.StructuredJson

/-! # Round trips of the JSON documents

Every record is read back from the value it is written as, and every reader takes a value and
the value reread from its text alike; together a document survives a write and a read. -/

namespace Dsa

open Theory

/-! ### Readers do not see the text -/

section reread

variable {α : Type}

/-- The reader takes a value and the value reread from its text alike. -/
def Stable (read : Json → String → Except Exception α) : Prop :=
  ∀ value path, read value.reread path = read value path

theorem checkFields_reread (value : Json) (allowed : List String) (path : String) :
    checkFields value.reread allowed path = checkFields value allowed path := by
  cases value with
  | object members =>
      rw [Json.reread, Json.rereadMembers_eq_map, checkFields, checkFields, List.find?_map]
      simp only [Function.comp_def]
      cases List.find? (fun member => !allowed.contains member.1) members <;> rfl
  | signed value =>
      rw [Json.reread]
      split_ifs <;> rfl
  | _ => simp [Json.reread, checkFields]

theorem requireField_reread (value : Json) (field path : String) :
    requireField value.reread field path = (requireField value field path).map Json.reread := by
  cases value with
  | object members =>
      rw [Json.reread, Json.rereadMembers_eq_map, requireField, requireField,
        Json.lookup_map_reread]
      cases members.lookup field <;> rfl
  | signed value =>
      rw [Json.reread]
      split_ifs <;> rfl
  | _ => simp [Json.reread, requireField, throwRuntime, Except.map]

theorem readField_reread {read : Json → String → Except Exception α} (h : Stable read)
    (value : Json) (field path : String) :
    readField read value.reread field path = readField read value field path := by
  unfold readField
  rw [requireField_reread]
  cases requireField value field path with
  | error what => rfl
  | ok member => exact h member _

theorem readOptional_reread {read : Json → String → Except Exception α} (h : Stable read)
    (absent : α) (value : Json) (field path : String) :
    readOptional read absent value.reread field path =
      readOptional read absent value field path := by
  unfold readOptional
  rw [Json.find_reread]
  cases value.find field with
  | none => rfl
  | some member => exact h member _

theorem readItems_reread {read : Json → String → Except Exception α} (h : Stable read)
    (path : String) (i : ℕ) (items : List Json) :
    readItems read path i (items.map Json.reread) = readItems read path i items := by
  induction items generalizing i with
  | nil => rfl
  | cons item rest ih => rw [List.map_cons, readItems, readItems, h, ih]

theorem stable_readArray {read : Json → String → Except Exception α} (h : Stable read) :
    Stable (readArray read) := by
  intro value path
  cases value with
  | array items =>
      rw [Json.reread, Json.rereadItems_eq_map, readArray, readArray, readItems_reread h]
  | signed value =>
      rw [Json.reread]
      split_ifs <;> rfl
  | _ => simp [Json.reread, readArray]

theorem isNull_reread (value : Json) : value.reread.isNull = value.isNull := by
  cases value with
  | signed value =>
      rw [Json.reread]
      split_ifs <;> rfl
  | _ => simp [Json.reread, Json.isNull]

theorem stable_readPresent {read : Json → String → Except Exception α} (h : Stable read) :
    Stable (readPresent read) := by
  intro value path
  rw [readPresent, readPresent, isNull_reread, h]

theorem stable_readNullable {read : Json → String → Except Exception α} (h : Stable read) :
    Stable (readNullable read) := by
  intro value path
  rw [readNullable, readNullable, isNull_reread, h]

theorem stable_readUnsigned (max : UInt64) : Stable (readUnsigned max) := by
  intro value path
  cases value with
  | signed value =>
      rw [Json.reread]
      split_ifs with h
      · rfl
      · simp [readUnsigned, Json.isNumberUnsigned, Json.isNumberInteger, Json.getUInt64,
          Json.getInt64, h]
  | _ => simp [Json.reread, readUnsigned, Json.isNumberUnsigned, Json.isNumberInteger]

theorem stable_readUInt64 : Stable readUInt64 := stable_readUnsigned maxU64

theorem stable_readUInt32 : Stable readUInt32 := by
  intro value path
  rw [readUInt32, readUInt32, stable_readUnsigned]

theorem stable_readSigned : Stable readSigned := by
  intro value path
  cases value with
  | signed value =>
      rw [Json.reread]
      split_ifs <;> simp [readSigned, Json.isNumberInteger, Json.getInt64]
  | _ => simp [Json.reread, readSigned, Json.isNumberUnsigned, Json.isNumberInteger]

theorem stable_readInt32 : Stable readInt32 := by
  intro value path
  rw [readInt32, readInt32, stable_readSigned]

theorem stable_readString : Stable readString := by
  intro value path
  cases value with
  | signed value =>
      rw [Json.reread]
      split_ifs <;> rfl
  | _ => simp [Json.reread, readString]

theorem stable_readBool : Stable readBool := by
  intro value path
  cases value with
  | signed value =>
      rw [Json.reread]
      split_ifs <;> rfl
  | _ => simp [Json.reread, readBool]

theorem stable_readName (names : List (String × α)) (kind : String) :
    Stable (readName names kind) := by
  intro value path
  rw [readName, readName, stable_readString]

theorem stable_readMetadata : Stable readMetadata := by
  intro value path
  cases value with
  | object members =>
      rw [Json.reread, Json.rereadMembers_eq_map, readMetadata, readMetadata, List.foldlM_map]
      simp only [stable_readString _ _]
  | signed value =>
      rw [Json.reread]
      split_ifs <;> rfl
  | _ => simp [Json.reread, readMetadata]

end reread

/-! ### The records -/

theorem stable_readProfile : Stable readProfile := stable_readName _ _

theorem stable_readAggregation : Stable readAggregation := stable_readName _ _

theorem stable_readObjectiveMetric : Stable readObjectiveMetric := stable_readName _ _

theorem stable_readPenaltyReason : Stable readPenaltyReason := stable_readName _ _

theorem stable_readSeparationReason : Stable readSeparationReason := stable_readName _ _

theorem stable_readAddressRange : Stable readAddressRange := by
  intro value path
  simp only [readAddressRange, checkFields_reread, readField_reread stable_readUInt64]

theorem stable_readBankGeometry : Stable readBankGeometry := by
  intro value path
  simp only [readBankGeometry, checkFields_reread, readField_reread stable_readUInt64,
    readField_reread stable_readUInt32]

theorem stable_readPool : Stable readPool := by
  intro value path
  simp only [readPool, checkFields_reread, readField_reread stable_readUInt32,
    readField_reread stable_readString, readField_reread (stable_readNullable stable_readUInt64),
    readField_reread (stable_readArray stable_readAddressRange),
    readOptional_reread (stable_readPresent stable_readBankGeometry)]

theorem stable_readInterval : Stable readInterval := by
  intro value path
  simp only [readInterval, checkFields_reread, readField_reread stable_readSigned]

theorem stable_readBuffer : Stable readBuffer := by
  intro value path
  simp only [readBuffer, checkFields_reread, readField_reread stable_readUInt32,
    readField_reread stable_readString, readField_reread stable_readUInt64,
    readField_reread (stable_readArray stable_readInterval),
    readField_reread (stable_readArray stable_readUInt32)]

theorem stable_readColocation : Stable readColocation := by
  intro value path
  simp only [readColocation, checkFields_reread, readField_reread stable_readUInt32]

theorem stable_readTemporalExclusion : Stable readTemporalExclusion := by
  intro value path
  simp only [readTemporalExclusion, checkFields_reread, readField_reread stable_readUInt32]

theorem stable_readSeparation : Stable readSeparation := by
  intro value path
  simp only [readSeparation, checkFields_reread, readField_reread stable_readUInt32,
    readOptional_reread (stable_readArray stable_readSeparationReason)]

theorem stable_readPinnedAllocation : Stable readPinnedAllocation := by
  intro value path
  simp only [readPinnedAllocation, checkFields_reread, readField_reread stable_readUInt32,
    readField_reread stable_readUInt64, readField_reread stable_readBool]

theorem stable_readAliasClass : Stable readAliasClass := by
  intro value path
  simp only [readAliasClass, checkFields_reread, readField_reread stable_readUInt32,
    readField_reread (stable_readArray stable_readString)]

theorem stable_readPipelineMember : Stable readPipelineMember := by
  intro value path
  simp only [readPipelineMember, checkFields_reread, readField_reread stable_readUInt32,
    readField_reread stable_readInt32]

theorem stable_readPipelineGroup : Stable readPipelineGroup := by
  intro value path
  simp only [readPipelineGroup, checkFields_reread, readField_reread stable_readInt32,
    readField_reread stable_readUInt32, readField_reread stable_readUInt64,
    readField_reread (stable_readArray stable_readPipelineMember)]

theorem stable_readPyptoStructure : Stable readPyptoStructure := by
  intro value path
  simp only [readPyptoStructure, checkFields_reread,
    readField_reread (stable_readArray stable_readAliasClass),
    readField_reread (stable_readArray stable_readPipelineGroup)]

theorem stable_readReusePenalty : Stable readReusePenalty := by
  intro value path
  simp only [readReusePenalty, checkFields_reread, readField_reread stable_readUInt32,
    readField_reread stable_readUInt64, readField_reread stable_readPenaltyReason]

theorem stable_readCostModel : Stable readCostModel := by
  intro value path
  simp only [readCostModel, checkFields_reread,
    readField_reread (stable_readArray stable_readReusePenalty)]

theorem stable_readObjective : Stable readObjective := by
  intro value path
  simp only [readObjective, checkFields_reread, readField_reread stable_readAggregation,
    readField_reread (stable_readArray stable_readObjectiveMetric)]

theorem stable_readConstraints : Stable readConstraints := by
  intro value path
  simp only [readConstraints, checkFields_reread,
    readField_reread (stable_readArray stable_readColocation),
    readField_reread (stable_readArray stable_readSeparation),
    readField_reread (stable_readArray stable_readTemporalExclusion),
    readField_reread (stable_readArray stable_readPinnedAllocation)]

theorem stable_readProblem : Stable readProblem := by
  intro value path
  simp only [readProblem, checkFields_reread, readField_reread (stable_readArray stable_readPool),
    readField_reread (stable_readArray stable_readBuffer), readField_reread stable_readConstraints,
    readOptional_reread (stable_readPresent stable_readPyptoStructure),
    readOptional_reread (stable_readPresent stable_readCostModel),
    readField_reread stable_readObjective]


theorem stable_readPlacement : Stable readPlacement := by
  intro value path
  simp only [readPlacement, checkFields_reread, readField_reread stable_readUInt32,
    readField_reread stable_readUInt64]

theorem parseDocument_reread (root : Json) : parseDocument root.reread = parseDocument root := by
  have hrelaxed : Stable fun value path => (readString value path).map some := by
    intro value path
    simp only [stable_readString _ _]
  have hnone : (root.reread.find "relaxed_features").isNone =
      (root.find "relaxed_features").isNone := by
    rw [Json.find_reread, Option.isNone_map]
  simp only [parseDocument, checkFields_reread, readField_reread stable_readUInt32,
    readField_reread stable_readProfile, readField_reread stable_readString,
    readOptional_reread hrelaxed, readOptional_reread (stable_readArray stable_readString),
    readOptional_reread stable_readMetadata, hnone, readField_reread stable_readProblem]

theorem readPlacements_reread (path : String) (i : ℕ) (items : List Json)
    (solution : DsaSolution) :
    readPlacements path i (items.map Json.reread) solution =
      readPlacements path i items solution := by
  induction items generalizing i solution with
  | nil => rfl
  | cons item rest ih =>
      simp only [List.map_cons, readPlacements, stable_readPlacement _ _, ih]

theorem stable_readSolution : Stable readSolution := by
  intro value path
  cases value with
  | array items =>
      rw [Json.reread, Json.rereadItems_eq_map, readSolution, readSolution, readPlacements_reread]
  | signed value =>
      rw [Json.reread]
      split_ifs <;> rfl
  | _ => simp [Json.reread, readSolution]

theorem parseSolutionDocument_reread (root : Json) :
    parseSolutionDocument root.reread = parseSolutionDocument root := by
  simp only [parseSolutionDocument, checkFields_reread, readField_reread stable_readUInt32,
    readField_reread stable_readProfile, readField_reread stable_readString,
    readField_reread stable_readMetadata, readField_reread stable_readSolution]

/-! ### Reading what is written -/

section written

variable {α : Type}

/-- The reader finds the value that was written, whatever the path. -/
def Inverts (read : Json → String → Except Exception α) (write : α → Json) : Prop :=
  ∀ value path, read (write value) path = .ok value

theorem checkFields_ofMembers {members : List (String × Json)} {allowed : List String}
    (h : ∀ key ∈ members.map Prod.fst, key ∈ allowed) (path : String) :
    checkFields (.ofMembers members) allowed path = .ok () := by
  obtain ⟨ordered, heq, hkeys⟩ := Json.mem_keys_ofMembers members
  have hnone : (ordered.find? fun member => !allowed.contains member.1) = none := by
    rw [List.find?_eq_none]
    intro member hmember
    have := h _ ((hkeys member.1).mp (List.mem_map_of_mem hmember))
    simpa using this
  rw [heq, checkFields, hnone]

theorem readField_ofMembers (read : Json → String → Except Exception α)
    (members : List (String × Json)) (field path : String) :
    readField read (.ofMembers members) field path =
      match members.reverse.lookup field with
      | some value => read value (path ++ "." ++ field)
      | none => throwRuntime (path ++ " is missing '" ++ field ++ "'") := by
  obtain ⟨ordered, heq, -⟩ := Json.mem_keys_ofMembers members
  rw [← Json.find_ofMembers, heq, readField, requireField, Json.find]
  cases ordered.lookup field <;> rfl

theorem readOptional_ofMembers (read : Json → String → Except Exception α) (absent : α)
    (members : List (String × Json)) (field path : String) :
    readOptional read absent (.ofMembers members) field path =
      match members.reverse.lookup field with
      | some value => read value (path ++ "." ++ field)
      | none => .ok absent := by
  rw [← Json.find_ofMembers, readOptional]
  cases (Json.ofMembers members).find field <;> rfl

theorem readItems_write {read : Json → String → Except Exception α} {write : α → Json}
    (h : Inverts read write) (path : String) (i : ℕ) (values : List α) :
    readItems read path i (values.map write) = .ok values := by
  induction values generalizing i with
  | nil => rfl
  | cons value rest ih =>
      rw [List.map_cons, readItems, h, ih]
      rfl

theorem readArray_write {read : Json → String → Except Exception α} {write : α → Json}
    (h : Inverts read write) (values : List α) (path : String) :
    readArray read (.array (values.map write)) path = .ok values :=
  readItems_write h path 0 values

end written

theorem readUInt64_write : Inverts readUInt64 Json.unsigned := by
  intro value path
  have h : ¬value > maxU64 := by
    have := value.toNat_lt
    rw [gt_iff_lt, UInt64.lt_iff_toNat_lt, maxU64]
    simp
    omega
  rw [readUInt64, readUnsigned, Json.isNumberUnsigned, if_pos rfl, ok_bind, Json.getUInt64]
  exact if_neg h

theorem readUInt32_write : Inverts readUInt32 writeUInt32 := by
  intro value path
  have h : ¬value.toUInt64 > 4294967295 := by
    have := value.toNat_lt
    rw [gt_iff_lt, UInt64.lt_iff_toNat_lt]
    simp
    omega
  have hread : readUnsigned 4294967295 (.unsigned value.toUInt64) path = .ok value.toUInt64 := by
    rw [readUnsigned, Json.isNumberUnsigned, if_pos rfl, ok_bind, Json.getUInt64]
    exact if_neg h
  rw [readUInt32, writeUInt32, hread, ok_bind, UInt32.toUInt32_toUInt64]

theorem readSigned_write : Inverts readSigned Json.signed := fun _ _ => rfl

theorem readInt32_write : Inverts readInt32 writeInt32 := by
  intro value path
  have hlow : ¬value.toInt64 < -2147483648 := by
    have := value.le_toInt
    rw [Int64.lt_iff_toInt_lt]
    simp
    omega
  have hhigh : ¬value.toInt64 > 2147483647 := by
    have := value.toInt_lt
    rw [gt_iff_lt, Int64.lt_iff_toInt_lt]
    simp
    omega
  rw [readInt32, writeInt32, readSigned_write, ok_bind]
  simp [hlow, hhigh]

theorem readString_write : Inverts readString Json.string := fun _ _ => rfl

theorem readBool_write : Inverts readBool Json.boolean := fun _ _ => rfl

theorem readProfile_write : Inverts readProfile writeProfile := by
  intro profile path
  cases profile <;> rfl

theorem readAggregation_write : Inverts readAggregation writeAggregation := by
  intro aggregation path
  cases aggregation
  rfl

theorem readObjectiveMetric_write : Inverts readObjectiveMetric writeObjectiveMetric := by
  intro metric path
  cases metric <;> rfl

theorem readPenaltyReason_write : Inverts readPenaltyReason writePenaltyReason := by
  intro reason path
  cases reason <;> rfl

theorem readSeparationReason_write : Inverts readSeparationReason writeSeparationReason := by
  intro reason path
  cases reason <;> rfl

theorem readCapacity_write : Inverts (readNullable readUInt64) writeCapacity := by
  intro capacity path
  cases capacity with
  | none => rfl
  | some capacity =>
      have hnull : (Json.unsigned capacity).isNull = false := rfl
      rw [writeCapacity, readNullable, hnull, readUInt64_write]
      rfl

theorem readPresent_write {α : Type} {read : Json → String → Except Exception α}
    {write : α → Json} (h : Inverts read write) (value : α) (hnull : (write value).isNull = false)
    (path : String) : readPresent read (write value) path = .ok (some value) := by
  rw [readPresent, hnull, h]
  rfl

theorem isNull_ofMembers (members : List (String × Json)) :
    (Json.ofMembers members).isNull = false := rfl

theorem readAddressRange_write : Inverts readAddressRange writeAddressRange := by
  intro range path
  rw [readAddressRange, writeAddressRange, checkFields_ofMembers (by simp)]
  simp [ok_bind, readField_ofMembers, List.lookup_cons, readUInt64_write _ _]

theorem readBankGeometry_write : Inverts readBankGeometry writeBankGeometry := by
  intro geometry path
  rw [readBankGeometry, writeBankGeometry, checkFields_ofMembers (by simp)]
  simp [ok_bind, readField_ofMembers, List.lookup_cons, readUInt64_write _ _,
    readUInt32_write _ _]

theorem readPool_write : Inverts readPool writePool := by
  intro pool path
  obtain ⟨id, name, capacity, ranges, geometry⟩ := pool
  cases geometry with
  | none =>
      simp only [readPool, writePool]
      rw [checkFields_ofMembers (by simp)]
      simp [ok_bind, readField_ofMembers, readOptional_ofMembers, List.lookup_cons,
        readUInt32_write _ _, readString_write _ _, readCapacity_write _ _,
        readArray_write readAddressRange_write]
  | some geometry =>
      simp only [readPool, writePool, Json.set_ofMembers]
      rw [checkFields_ofMembers (by simp)]
      simp [ok_bind, readField_ofMembers, readOptional_ofMembers, List.lookup_cons,
        readUInt32_write _ _, readString_write _ _, readCapacity_write _ _,
        readArray_write readAddressRange_write,
        readPresent_write readBankGeometry_write geometry (isNull_ofMembers _)]

theorem readInterval_write : Inverts readInterval writeInterval := by
  intro interval path
  rw [readInterval, writeInterval, checkFields_ofMembers (by simp)]
  simp [ok_bind, readField_ofMembers, List.lookup_cons, readSigned_write _ _]

theorem readBuffer_write : Inverts readBuffer writeBuffer := by
  intro buffer path
  rw [readBuffer, writeBuffer, checkFields_ofMembers (by simp)]
  simp [ok_bind, readField_ofMembers, List.lookup_cons, readUInt32_write _ _,
    readString_write _ _, readUInt64_write _ _, readArray_write readInterval_write,
    readArray_write readUInt32_write]

theorem readColocation_write : Inverts readColocation writeColocation := by
  intro pair path
  rw [readColocation, writeColocation, writePair, checkFields_ofMembers (by simp)]
  simp [ok_bind, readField_ofMembers, List.lookup_cons, readUInt32_write _ _]

theorem readTemporalExclusion_write : Inverts readTemporalExclusion writeTemporalExclusion := by
  intro pair path
  rw [readTemporalExclusion, writeTemporalExclusion, writePair, checkFields_ofMembers (by simp)]
  simp [ok_bind, readField_ofMembers, List.lookup_cons, readUInt32_write _ _]

theorem readSeparation_write : Inverts readSeparation writeSeparation := by
  intro pair path
  obtain ⟨first, second, reasons⟩ := pair
  cases reasons with
  | nil =>
      rw [readSeparation, writeSeparation, writePair, List.isEmpty_nil, if_pos rfl,
        checkFields_ofMembers (by simp)]
      simp [ok_bind, readField_ofMembers, readOptional_ofMembers, List.lookup_cons,
        readUInt32_write _ _]
  | cons reason reasons =>
      rw [readSeparation, writeSeparation, writePair, List.isEmpty_cons, if_neg (by decide),
        Json.set_ofMembers, checkFields_ofMembers (by simp)]
      simp [ok_bind, readField_ofMembers, readOptional_ofMembers, List.lookup_cons,
        readUInt32_write _ _, -List.map_cons, readArray_write readSeparationReason_write]

theorem readPinnedAllocation_write : Inverts readPinnedAllocation writePinnedAllocation := by
  intro pinned path
  rw [readPinnedAllocation, writePinnedAllocation, checkFields_ofMembers (by simp)]
  simp [ok_bind, readField_ofMembers, List.lookup_cons, readUInt32_write _ _,
    readUInt64_write _ _, readBool_write _ _]

theorem readAliasClass_write : Inverts readAliasClass writeAliasClass := by
  intro aliasClass path
  rw [readAliasClass, writeAliasClass, checkFields_ofMembers (by simp)]
  simp [ok_bind, readField_ofMembers, List.lookup_cons, readUInt32_write _ _,
    readArray_write readString_write]

theorem readPipelineMember_write : Inverts readPipelineMember writePipelineMember := by
  intro member path
  rw [readPipelineMember, writePipelineMember, checkFields_ofMembers (by simp)]
  simp [ok_bind, readField_ofMembers, List.lookup_cons, readUInt32_write _ _,
    readInt32_write _ _]

theorem readPipelineGroup_write : Inverts readPipelineGroup writePipelineGroup := by
  intro group path
  rw [readPipelineGroup, writePipelineGroup, checkFields_ofMembers (by simp)]
  simp [ok_bind, readField_ofMembers, List.lookup_cons, readUInt32_write _ _,
    readUInt64_write _ _, readInt32_write _ _, readArray_write readPipelineMember_write]

theorem readPyptoStructure_write : Inverts readPyptoStructure writePyptoStructure := by
  intro pypto path
  rw [readPyptoStructure, writePyptoStructure, checkFields_ofMembers (by simp)]
  simp [ok_bind, readField_ofMembers, List.lookup_cons, readArray_write readAliasClass_write,
    readArray_write readPipelineGroup_write]

theorem readReusePenalty_write : Inverts readReusePenalty writeReusePenalty := by
  intro penalty path
  rw [readReusePenalty, writeReusePenalty, checkFields_ofMembers (by simp)]
  simp [ok_bind, readField_ofMembers, List.lookup_cons, readUInt32_write _ _,
    readUInt64_write _ _, readPenaltyReason_write _ _]

theorem readCostModel_write : Inverts readCostModel writeCostModel := by
  intro costs path
  rw [readCostModel, writeCostModel, checkFields_ofMembers (by simp)]
  simp [ok_bind, readField_ofMembers, readArray_write readReusePenalty_write]

theorem readObjective_write : Inverts readObjective writeObjective := by
  intro objective path
  rw [readObjective, writeObjective, checkFields_ofMembers (by simp)]
  simp [ok_bind, readField_ofMembers, List.lookup_cons, readAggregation_write _ _,
    readArray_write readObjectiveMetric_write]

theorem readConstraints_write (problem : DsaProblem) (path : String) :
    readConstraints (writeConstraints problem) path =
      .ok (problem.colocations, problem.separations, problem.temporalExclusions,
        problem.pinnedAllocations) := by
  rw [readConstraints, writeConstraints, checkFields_ofMembers (by simp)]
  simp [ok_bind, readField_ofMembers, List.lookup_cons, readArray_write readColocation_write,
    readArray_write readSeparation_write, readArray_write readTemporalExclusion_write,
    readArray_write readPinnedAllocation_write]

theorem readProblem_write : Inverts readProblem writeProblem := by
  intro problem path
  obtain ⟨buffers, pools, colocations, separations, exclusions, pins, costs, pypto, objective⟩ :=
    problem
  have hconstraints := readConstraints_write
    ⟨buffers, pools, colocations, separations, exclusions, pins, costs, pypto, objective⟩
  rw [readProblem, writeProblem]
  cases costs <;> cases pypto <;>
    rw [checkFields_ofMembers (by simp [optionalMember])] <;>
    simp [ok_bind, optionalMember, readField_ofMembers, readOptional_ofMembers, List.lookup_cons,
      readArray_write readPool_write, readArray_write readBuffer_write, hconstraints,
      readPresent_write readPyptoStructure_write _ (isNull_ofMembers _),
      readPresent_write readCostModel_write _ (isNull_ofMembers _), readObjective_write _ _]

/-! ### Metadata -/

theorem foldlM_readMetadata (path : String) (entries : List (String × String))
    (metadata : Metadata) :
    (entries.map fun entry => (entry.1, Json.string entry.2)).foldlM
        (fun (metadata : Metadata) member => do
          let text ← readString member.2 (path ++ "." ++ member.1)
          (Except.ok (metadata.insertIfNew member.1 text) : Except Exception Metadata)) metadata =
      .ok (entries.foldl (fun metadata entry => metadata.insertIfNew entry.1 entry.2)
        metadata) := by
  induction entries generalizing metadata with
  | nil => rfl
  | cons entry rest ih => exact ih _

theorem getElem?_foldl_insertIfNew {α : Type} (entries : List (String × α))
    (metadata : Std.ExtTreeMap String α)
    (hdistinct : entries.Pairwise fun a b => ¬compare a.1 b.1 = .eq)
    (hfresh : ∀ entry ∈ entries, entry.1 ∉ metadata) (key : String) (value : α) :
    (entries.foldl (fun metadata entry => metadata.insertIfNew entry.1 entry.2) metadata)[key]? =
        some value ↔ metadata[key]? = some value ∨ (key, value) ∈ entries := by
  induction entries generalizing metadata with
  | nil => simp
  | cons entry rest ih =>
      obtain ⟨hhead, htail⟩ := List.pairwise_cons.mp hdistinct
      have hentry := hfresh entry List.mem_cons_self
      rw [List.foldl_cons, ih _ htail, Std.ExtTreeMap.getElem?_insertIfNew, List.mem_cons]
      · by_cases hkey : compare entry.1 key = .eq
        · have heq : entry.1 = key := Std.LawfulEqCmp.eq_of_compare hkey
          have hnone : metadata[key]? = none := by
            rw [← heq]
            exact Std.ExtTreeMap.getElem?_eq_none hentry
          rw [if_pos ⟨hkey, hentry⟩, hnone, Option.some_inj]
          constructor
          · rintro (rfl | h)
            · exact .inr (.inl (by rw [← heq]))
            · exact .inr (.inr h)
          · rintro (h | h | h)
            · simp at h
            · exact .inl (by rw [← h])
            · exact .inr h
        · have hne : (key, value) ≠ entry := by
            rintro rfl
            exact hkey Std.ReflCmp.compare_self
          rw [if_neg (fun h => hkey h.1)]
          simp [hne]
      · intro other hother hmem
        rcases Std.ExtTreeMap.mem_insertIfNew.mp hmem with h | h
        · exact hhead other hother h
        · exact hfresh other (List.mem_cons_of_mem _ hother) h

/-- A map is what its entries give one after the other. -/
theorem foldl_insertIfNew_toList {α : Type} (m : Std.ExtTreeMap String α) :
    m.toList.foldl (fun m entry => m.insertIfNew entry.1 entry.2) ∅ = m := by
  apply Std.ExtTreeMap.ext_getElem?
  intro key
  apply Option.ext
  intro value
  rw [getElem?_foldl_insertIfNew _ _ Std.ExtTreeMap.distinct_keys_toList (by simp),
    Std.ExtTreeMap.mem_toList_iff_getElem?_eq_some]
  simp

theorem readMetadata_write : Inverts readMetadata writeMetadata := by
  intro metadata path
  simp only [readMetadata, writeMetadata, foldlM_readMetadata, foldl_insertIfNew_toList]

/-! ### Problem documents -/

section document

variable {document : StructuredProblemDocument}

theorem schemaVersion_of_valid (h : validateStructuredProblemDocument document = []) :
    document.schemaVersion = kStructuredProblemSchemaVersion := by
  unfold validateStructuredProblemDocument at h
  simp only [List.append_eq_nil_iff, errorIf_eq_nil] at h
  simpa using h.1.1.1.1

/-- Only a core relaxation lists relaxed features. -/
theorem relaxedFeatures_of_valid (h : validateStructuredProblemDocument document = [])
    (hprofile : document.profile ≠ .pyptoCoreRelaxation) : document.relaxedFeatures = [] := by
  unfold validateStructuredProblemDocument profileErrors notRelaxedErrors at h
  simp only [List.append_eq_nil_iff] at h
  have hrelaxed := h.1.2
  cases hp : document.profile <;> simp_all [errorIf_eq_nil]

/-- The value that a valid document is written as. -/
def rootOf (document : StructuredProblemDocument) : Json :=
  .ofMembers ([("schema_version", writeUInt32 document.schemaVersion),
    ("profile", writeProfile document.profile),
    ("instance", .string document.instanceName),
    ("metadata", writeMetadata document.metadata)] ++
    optionalMember "relaxed_from" .string document.relaxedFrom ++
    (if document.relaxedFeatures.isEmpty then []
      else [("relaxed_features", .array (document.relaxedFeatures.map .string))]) ++
    [("problem", writeProblem document.problem)])

theorem serializeDocument_eq (h : validateStructuredProblemDocument document = []) :
    serializeDocument document = .ok (rootOf document) := by
  rw [serializeDocument, h]
  rfl

theorem checkFields_rootOf (document : StructuredProblemDocument) (path : String) :
    checkFields (rootOf document) ["schema_version", "profile", "instance", "relaxed_from",
      "relaxed_features", "metadata", "problem"] path = .ok () := by
  unfold rootOf
  cases document.relaxedFrom <;> cases document.relaxedFeatures <;>
    exact checkFields_ofMembers (by simp [optionalMember]) path

/-- The members of a written document. -/
theorem find_rootOf (document : StructuredProblemDocument) :
    (rootOf document).find "schema_version" = some (writeUInt32 document.schemaVersion) ∧
      (rootOf document).find "profile" = some (writeProfile document.profile) ∧
      (rootOf document).find "instance" = some (.string document.instanceName) ∧
      (rootOf document).find "metadata" = some (writeMetadata document.metadata) ∧
      (rootOf document).find "relaxed_from" = document.relaxedFrom.map .string ∧
      (rootOf document).find "relaxed_features" =
        (if document.relaxedFeatures.isEmpty then none
          else some (.array (document.relaxedFeatures.map .string))) ∧
      (rootOf document).find "problem" = some (writeProblem document.problem) := by
  unfold rootOf
  simp only [Json.find_ofMembers]
  cases document.relaxedFrom <;> cases document.relaxedFeatures <;>
    simp [optionalMember, List.lookup_cons]

theorem readField_of_find {α : Type} {read : Json → String → Except Exception α} {object : Json}
    {field : String} {value : Json} (h : object.find field = some value) (path : String) :
    readField read object field path = read value (path ++ "." ++ field) := by
  cases object with
  | object members =>
      rw [Json.find] at h
      rw [readField, requireField, h, ok_bind]
  | _ => simp [Json.find] at h

theorem parseDocument_rootOf (h : validateStructuredProblemDocument document = []) :
    parseDocument (rootOf document) = .ok document := by
  obtain ⟨hversion, hprofile, hinstance, hmetadata, hfrom, hfeatures, hproblem⟩ :=
    find_rootOf document
  have hreadFrom : readOptional (fun value path => (readString value path).map some) none
      (rootOf document) "relaxed_from" "root" = .ok document.relaxedFrom := by
    rw [readOptional, hfrom]
    cases document.relaxedFrom <;> rfl
  have hreadFeatures : readOptional (readArray readString) [] (rootOf document) "relaxed_features"
      "root" = .ok document.relaxedFeatures := by
    rw [readOptional, hfeatures]
    cases document.relaxedFeatures with
    | nil => rfl
    | cons feature rest => exact readArray_write readString_write (feature :: rest) _
  have hreadMetadata : readOptional readMetadata ∅ (rootOf document) "metadata" "root" =
      .ok document.metadata := by
    rw [readOptional, hmetadata]
    exact readMetadata_write _ _
  have hallowed : (document.profile == .pyptoCoreRelaxation ||
      ((rootOf document).find "relaxed_features").isNone) = true := by
    by_cases hcore : document.profile = .pyptoCoreRelaxation
    · simp [hcore]
    · rw [hfeatures, relaxedFeatures_of_valid h hcore]
      simp
  unfold parseDocument
  rw [checkFields_rootOf, ok_bind, readField_of_find hversion, readUInt32_write, ok_bind,
    schemaVersion_of_valid h, ensure, if_pos (by decide), ok_bind, readField_of_find hprofile,
    readProfile_write, ok_bind, readField_of_find hinstance, readString_write, ok_bind,
    hreadFrom, ok_bind, hreadFeatures, ok_bind, hreadMetadata, ok_bind, ensure, hallowed,
    if_pos rfl, ok_bind, readField_of_find hproblem, readProblem_write, ok_bind,
    ← schemaVersion_of_valid h]
  dsimp only
  split
  · rfl
  · rename_i error rest herror
    have hnone : validateStructuredProblemDocument document = error :: rest := herror
    rw [h] at hnone
    cases hnone

end document

/-! ### Texts -/

section text

variable {lib : JsonText} {document : StructuredProblemDocument}

theorem writeStructuredProblemJson_eq (h : validateStructuredProblemDocument document = []) :
    writeStructuredProblemJson lib document = .ok (lib.dump (rootOf document) ++ "\n") := by
  rw [writeStructuredProblemJson, serializeDocument_eq h, ok_bind]

theorem fingerprint_eq (h : validateStructuredProblemDocument document = []) :
    fingerprintStructuredProblem lib document =
      .ok (fnv1a64 (lib.dump (rootOf document) ++ "\n")) := by
  simp only [fingerprintStructuredProblem, h, writeStructuredProblemJson_eq h, ok_bind]

theorem readStructuredProblemJson_write (h : validateStructuredProblemDocument document = [])
    (hlib : lib.RoundTrips (rootOf document)) :
    readStructuredProblemJson lib (lib.dump (rootOf document) ++ "\n") = .ok document := by
  unfold JsonText.RoundTrips at hlib
  simp only [readStructuredProblemJson, hlib]
  rw [parseDocument_reread, parseDocument_rootOf h]

/-- A valid document survives serialization and parsing, and also the text of the JSON library;
written again it gives the same text, and its fingerprint is that of the original. -/
theorem problemDocument_roundTrip (lib : JsonText) (document : StructuredProblemDocument)
    (hvalid : validateStructuredProblemDocument document = [])
    (hlib : ∀ root, serializeDocument document = .ok root → lib.RoundTrips root) :
    (∃ root, serializeDocument document = .ok root ∧ parseDocument root = .ok document) ∧
      ∃ text, writeStructuredProblemJson lib document = .ok text ∧
        readStructuredProblemJson lib text = .ok document ∧
        ∀ again, readStructuredProblemJson lib text = .ok again →
          writeStructuredProblemJson lib again = .ok text ∧
            fingerprintStructuredProblem lib again = fingerprintStructuredProblem lib document := by
  have hroot := serializeDocument_eq hvalid
  have hread := readStructuredProblemJson_write hvalid (hlib _ hroot)
  have hwrite := @writeStructuredProblemJson_eq lib _ hvalid
  refine ⟨⟨_, hroot, parseDocument_rootOf hvalid⟩, _, hwrite, hread, ?_⟩
  intro again hagain
  have heq : again = document := by
    rw [hread] at hagain
    exact (Except.ok.inj hagain).symm
  subst heq
  exact ⟨hwrite, rfl⟩

/-- A library that prints any value and parses the texts of the given ones. -/
def JsonText.ofValues (values : List Json) : JsonText where
  dump value := value.dump 0
  parse input :=
    match values.find? fun value => input == value.dump 0 ++ "\n" with
    | some value => .ok value.reread
    | none => .error "parse error"

theorem JsonText.roundTrips_first (value : Json) (values : List Json) :
    (JsonText.ofValues (value :: values)).RoundTrips value := by
  unfold JsonText.RoundTrips JsonText.ofValues
  simp

/-- A document with optional members present and absent. -/
def roundTripDocument : StructuredProblemDocument where
  profile := .pyptoResearchV1
  instanceName := "round trip"
  metadata := .ofList [("lifetime_ordering", "pypto_read_before_write"),
    ("solver_input", "pre_memory_reuse")]
  problem :=
    { pools := [{ capacity := some maxU64, bankGeometry := some ⟨64, 4⟩ }, { id := 1, name := "L1" }]
      buffers :=
        [{ id := 1, size := 64, liveIntervals := [⟨-5, 2⟩] },
          { id := 2, size := 32, alignment := 32, liveIntervals := [⟨3, 9⟩] }]
      separations := [⟨1, 2, []⟩]
      costModel := some ⟨[⟨1, 2, maxU64, .crossPipe⟩]⟩
      objective := fitThenMinimizeReuseCostObjective }

theorem problemDocument_roundTrip_instance :
    ∃ text, writeStructuredProblemJson (.ofValues [rootOf roundTripDocument]) roundTripDocument =
        .ok text ∧
      readStructuredProblemJson (.ofValues [rootOf roundTripDocument]) text =
        .ok roundTripDocument := by
  have hvalid : validateStructuredProblemDocument roundTripDocument = [] := by decide +kernel
  obtain ⟨-, text, hwrite, hread, -⟩ := problemDocument_roundTrip
    (.ofValues [rootOf roundTripDocument]) roundTripDocument hvalid (by
      intro root hroot
      rw [serializeDocument_eq hvalid] at hroot
      rw [← Except.ok.inj hroot]
      exact JsonText.roundTrips_first _ _)
  exact ⟨text, hwrite, hread⟩

end text

/-! ### Solution documents -/

theorem readPlacement_write : Inverts readPlacement writePlacement := by
  intro entry path
  rw [readPlacement, writePlacement, checkFields_ofMembers (by simp)]
  simp [ok_bind, readField_ofMembers, List.lookup_cons, readUInt32_write _ _,
    readUInt64_write _ _]

theorem find_insert (solution : DsaSolution) (buffer : BufferId) (placement : Placement)
    (id : BufferId) : (⟨solution.placements.insert buffer placement⟩ : DsaSolution).find id =
      if buffer = id then some placement else solution.find id := by
  rw [DsaSolution.find, Std.TreeMap.getElem?_insert, DsaSolution.find]
  simp

theorem contains_eq_false_iff (solution : DsaSolution) (id : BufferId) :
    solution.placements.contains id = false ↔ solution.find id = none := by
  rw [← Bool.not_eq_true, Std.TreeMap.contains_iff_mem, Std.TreeMap.mem_iff_isSome_getElem?,
    DsaSolution.find]
  simp

/-- Reading the written entries adds them to the placements. -/
theorem readPlacements_write (path : String) (entries : List (BufferId × Placement)) (i : ℕ)
    (solution : DsaSolution) (hdistinct : entries.Pairwise fun a b => ¬compare a.1 b.1 = .eq)
    (hfresh : ∀ entry ∈ entries, solution.find entry.1 = none) :
    ∃ read, readPlacements path i (entries.map writePlacement) solution = .ok read ∧
      ∀ id placement, read.find id = some placement ↔
        solution.find id = some placement ∨ (id, placement) ∈ entries := by
  induction entries generalizing i solution with
  | nil => exact ⟨solution, rfl, by simp⟩
  | cons entry rest ih =>
      obtain ⟨hhead, htail⟩ := List.pairwise_cons.mp hdistinct
      have hentry := hfresh entry List.mem_cons_self
      have hcontains := (contains_eq_false_iff solution entry.1).mpr hentry
      have hfind := find_insert solution entry.1 entry.2
      obtain ⟨read, hread, hiff⟩ := ih (i + 1)
        ⟨solution.placements.insert entry.1 entry.2⟩ htail (by
          intro other hother
          have hne : ¬entry.1 = other.1 := by
            intro h
            exact hhead other hother (by rw [h]; exact Std.ReflCmp.compare_self)
          rw [hfind, if_neg hne]
          exact hfresh other (List.mem_cons_of_mem _ hother))
      refine ⟨read, ?_, fun id placement => ?_⟩
      · rw [List.map_cons, readPlacements, readPlacement_write, ok_bind]
        simp only [hcontains, Bool.not_false, ensure, if_true, ok_bind, hread]
      · rw [hiff, hfind, List.mem_cons]
        by_cases hid : entry.1 = id
        · subst hid
          rw [if_pos rfl, hentry]
          constructor
          · rintro (h | h)
            · exact .inr (.inl (by rw [← Option.some.inj h]))
            · exact .inr (.inr h)
          · rintro (h | h | h)
            · cases h
            · exact .inl (by rw [← h])
            · exact .inr h
        · rw [if_neg hid]
          have hne : (id, placement) ≠ entry := by
            rintro rfl
            exact hid rfl
          simp [hne]

theorem readSolution_write (solution : DsaSolution) (path : String) :
    ∃ read, readSolution (.array (solution.placements.toList.map writePlacement)) path = .ok read ∧
      ∀ id, read.find id = solution.find id := by
  obtain ⟨read, hread, hiff⟩ := readPlacements_write path solution.placements.toList 0 {}
    Std.TreeMap.distinct_keys_toList (fun _ _ => Std.TreeMap.getElem?_emptyc)
  refine ⟨read, hread, fun id => Option.ext fun placement => ?_⟩
  rw [hiff, ← find_eq_some_iff]
  simp [DsaSolution.find]

theorem parseSolutionDocument_write (document : StructuredSolutionDocument) :
    ∃ solution, (∀ id, solution.find id = document.solution.find id) ∧
      parseSolutionDocument (serializeSolutionDocument document) =
        .ok { document with solution } := by
  obtain ⟨solution, hread, hfind⟩ := readSolution_write document.solution "root.placements"
  refine ⟨solution, hfind, ?_⟩
  rw [parseSolutionDocument, serializeSolutionDocument, checkFields_ofMembers (by simp)]
  simp [ok_bind, readField_ofMembers, List.lookup_cons, readUInt32_write _ _,
    readProfile_write _ _, readString_write _ _, readMetadata_write _ _, hread]

/-! ### Replay -/

section replay

variable {lib : JsonText} {problem : StructuredProblemDocument}

/-- A successful extraction returns a placement that passes the validator. -/
theorem valid_of_extracted {document : StructuredSolutionDocument} {placed : DsaSolution}
    (h : validateAndExtractStructuredSolution lib problem document = .ok placed) :
    validateSolution problem.problem placed = [] := by
  unfold validateAndExtractStructuredSolution at h
  split_ifs at h
  cases hfingerprint : fingerprintStructuredProblem lib problem with
  | error what => simp [hfingerprint, bind, Except.bind] at h
  | ok expected =>
      rw [hfingerprint, ok_bind] at h
      split_ifs at h
      cases hvalid : validateSolution problem.problem document.solution with
      | nil =>
          rw [hvalid] at h
          rw [← Except.ok.inj h, hvalid]
      | cons error rest => simp [hvalid] at h

theorem buildStructuredSolutionDocument_eq {solution : DsaSolution} {metadata : Metadata}
    (hproblem : validateStructuredProblemDocument problem = [])
    (hsolution : validateSolution problem.problem solution = []) :
    buildStructuredSolutionDocument lib problem solution metadata =
      .ok ⟨problem.schemaVersion, problem.profile, problem.instanceName,
        fnv1a64 (lib.dump (rootOf problem) ++ "\n"), metadata, solution⟩ := by
  simp only [buildStructuredSolutionDocument, hsolution, fingerprint_eq hproblem, ok_bind]

/-- A stored solution replays: the document built from a valid placement, written and read
together with its problem, gives the placement of every buffer and the metadata back; and
whatever is extracted from any document is valid. -/
theorem storedSolution_replays (lib : JsonText) :
    (∀ (problem : StructuredProblemDocument) (solution : DsaSolution) (metadata : Metadata),
      validateStructuredProblemDocument problem = [] →
      validateSolution problem.problem solution = [] →
      (∀ root, serializeDocument problem = .ok root → lib.RoundTrips root) →
      (∀ document, buildStructuredSolutionDocument lib problem solution metadata = .ok document →
        lib.RoundTrips (serializeSolutionDocument document)) →
      ∃ document problemText problemRead documentRead placed,
        buildStructuredSolutionDocument lib problem solution metadata = .ok document ∧
          writeStructuredProblemJson lib problem = .ok problemText ∧
          readStructuredProblemJson lib problemText = .ok problemRead ∧
          readStructuredSolutionJson lib (writeStructuredSolutionJson lib document) =
            .ok documentRead ∧
          validateAndExtractStructuredSolution lib problemRead documentRead = .ok placed ∧
          (∀ id, placed.find id = solution.find id) ∧ documentRead.metadata = metadata) ∧
      ∀ (problem : StructuredProblemDocument) (document : StructuredSolutionDocument)
        (placed : DsaSolution),
        validateAndExtractStructuredSolution lib problem document = .ok placed →
          validateSolution problem.problem placed = [] := by
  refine ⟨?_, fun problem document placed => valid_of_extracted⟩
  intro problem solution metadata hproblem hsolution hroot hdocument
  have hbuild := @buildStructuredSolutionDocument_eq lib _ _ metadata hproblem hsolution
  obtain ⟨placed, hfind, hparse⟩ := parseSolutionDocument_write
    ⟨problem.schemaVersion, problem.profile, problem.instanceName,
      fnv1a64 (lib.dump (rootOf problem) ++ "\n"), metadata, solution⟩
  have hread := hdocument _ hbuild
  unfold JsonText.RoundTrips at hread
  refine ⟨_, _, problem, ⟨problem.schemaVersion, problem.profile, problem.instanceName,
      fnv1a64 (lib.dump (rootOf problem) ++ "\n"), metadata, placed⟩, placed, hbuild, writeStructuredProblemJson_eq hproblem,
    readStructuredProblemJson_write hproblem (hroot _ (serializeDocument_eq hproblem)), ?_, ?_,
    hfind, ?_⟩
  · simp only [readStructuredSolutionJson, writeStructuredSolutionJson, hread]
    rw [parseSolutionDocument_reread, hparse]
  · have hvalid : validateSolution problem.problem placed = [] := by
      rw [validateSolution_eq_nil_iff] at hsolution ⊢
      exact ⟨hsolution.1, hsolution.2.congr hfind⟩
    simp [validateAndExtractStructuredSolution, fingerprint_eq hproblem, ok_bind, hvalid]
  · rfl

theorem JsonText.roundTrips_second {first value : Json}
    (h : (value.dump 0 ++ "\n" == first.dump 0 ++ "\n") = false) :
    (JsonText.ofValues [first, value]).RoundTrips value := by
  unfold JsonText.RoundTrips JsonText.ofValues
  simp [List.find?, h]

/-- A placement of `roundTripDocument`. -/
def roundTripSolution : DsaSolution := ⟨.ofList [((1 : BufferId), Placement.mk 0 0), (2, Placement.mk 0 64)]⟩

/-- The document stored for `roundTripSolution`. -/
def storedRoundTrip : StructuredSolutionDocument :=
  ⟨roundTripDocument.schemaVersion, roundTripDocument.profile, roundTripDocument.instanceName,
    fnv1a64 ((rootOf roundTripDocument).dump 0 ++ "\n"), .ofList [("solver", "portfolio")],
    roundTripSolution⟩

/-- A library for the two texts of `storedRoundTrip`. -/
def roundTripText : JsonText :=
  .ofValues [rootOf roundTripDocument, serializeSolutionDocument storedRoundTrip]

theorem storedSolution_replays_instance :
    ∃ documentRead placed,
      readStructuredSolutionJson roundTripText
          (writeStructuredSolutionJson roundTripText storedRoundTrip) = .ok documentRead ∧
        validateAndExtractStructuredSolution roundTripText roundTripDocument documentRead =
          .ok placed ∧
        placed.find 2 = some ⟨0, 64⟩ ∧ documentRead.metadata = storedRoundTrip.metadata := by
  have hproblem : validateStructuredProblemDocument roundTripDocument = [] := by decide +kernel
  have hsolution : validateSolution roundTripDocument.problem roundTripSolution = [] := by
    decide +kernel
  have hbuild : buildStructuredSolutionDocument roundTripText roundTripDocument roundTripSolution
      (.ofList [("solver", "portfolio")]) = .ok storedRoundTrip :=
    buildStructuredSolutionDocument_eq hproblem hsolution
  have hdistinct : ((serializeSolutionDocument storedRoundTrip).dump 0 ++ "\n" ==
      (rootOf roundTripDocument).dump 0 ++ "\n") = false := by decide +kernel
  obtain ⟨document, problemText, problemRead, documentRead, placed, hdocument, hwrite, hproblemRead,
    hdocumentRead, hplaced, hfind, hmetadata⟩ := (storedSolution_replays roundTripText).1
      roundTripDocument roundTripSolution (.ofList [("solver", "portfolio")]) hproblem hsolution
      (fun root hroot => by
        rw [serializeDocument_eq hproblem] at hroot
        rw [← Except.ok.inj hroot]
        exact JsonText.roundTrips_first _ _)
      (fun document hdocument => by
        rw [hbuild] at hdocument
        rw [← Except.ok.inj hdocument]
        exact JsonText.roundTrips_second hdistinct)
  have hroot : roundTripText.RoundTrips (rootOf roundTripDocument) :=
    JsonText.roundTrips_first _ _
  rw [hbuild] at hdocument
  cases hdocument
  rw [writeStructuredProblemJson_eq hproblem] at hwrite
  cases hwrite
  rw [readStructuredProblemJson_write hproblem hroot] at hproblemRead
  cases hproblemRead
  refine ⟨documentRead, placed, hdocumentRead, hplaced, ?_, hmetadata⟩
  rw [hfind]
  decide +kernel

end replay

end Dsa
