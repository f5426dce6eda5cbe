import DsaSolver.JsonRoundTrip
import DsaSolver.PoolRenumbering

/-! # Canonical programs

`CanonicalProgram` of a valid program replaces each pool identifier by the place of the pool in
the order of the names (`canonicalProgram_eq`).  So it is itself a renumbering, and since the
names of the pools are distinct, all renumberings of a program have the same canonical program
(`canonicalDocument_congr`). -/

namespace Dsa

open Theory

/-! ### Places in a list -/

theorem idxOf_map_of_injOn {α β : Type} [DecidableEq α] [DecidableEq β] {f : α → β} {l : List α}
    {a : α} (hf : Set.InjOn f {x | x ∈ l}) (ha : a ∈ l) : (l.map f).idxOf (f a) = l.idxOf a := by
  induction l with
  | nil => cases ha
  | cons b l ih =>
      rw [List.map_cons]
      by_cases hb : b = a
      · rw [List.idxOf_cons_eq _ hb, List.idxOf_cons_eq _ (congrArg f hb)]
      · have hmem : a ∈ l := (List.mem_cons.mp ha).resolve_left (Ne.symm hb)
        have hne : f b ≠ f a := fun heq => hb (hf List.mem_cons_self ha heq)
        rw [List.idxOf_cons_ne _ hb, List.idxOf_cons_ne _ hne,
          ih (fun x hx y hy => hf (List.mem_cons_of_mem b hx) (List.mem_cons_of_mem b hy)) hmem]

theorem mapIdx_eq_map_idxOf {α β γ : Type} [DecidableEq β] {key : α → β} {f : ℕ → α → γ}
    {l : List α} (hnodup : (l.map key).Nodup) :
    l.mapIdx f = l.map fun a => f ((l.map key).idxOf (key a)) a := by
  apply List.ext_getElem (by simp)
  intro i hi _
  rw [List.length_mapIdx] at hi
  have hidx := List.Nodup.idxOf_getElem hnodup i (by simpa using hi)
  rw [List.getElem_map] at hidx
  rw [List.getElem_mapIdx, List.getElem_map, hidx]

/-- The canonical identifier of a pool, its place in the list. -/
def canonicalId (pools : List Pool) (id : PoolId) : PoolId :=
  UInt32.ofNat ((pools.map Pool.id).idxOf id)

theorem remapPool_eq {pools : List Pool} {id : PoolId} (hid : id ∈ pools.map Pool.id) :
    remapPool pools id = .ok (canonicalId pools id) := by
  obtain ⟨pool, hpool, hpoolId⟩ := List.mem_map.mp hid
  have hfind : pools.findIdx? (fun candidate => candidate.id == id) =
      some ((pools.map Pool.id).idxOf id) := by
    rw [List.findIdx?_eq_some_of_exists ⟨pool, hpool, by simp [hpoolId]⟩, List.idxOf,
      List.findIdx_map]
    rfl
  rw [remapPool, hfind, canonicalId]

/-- Distinct pools have fewer than `2 ^ 32` places. -/
theorem length_le_of_nodup {pools : List Pool} (hnodup : (pools.map Pool.id).Nodup) :
    pools.length ≤ 2 ^ 32 := by
  have hinj : ((pools.map Pool.id).map UInt32.toNat).Nodup :=
    hnodup.map fun a b h => UInt32.toNat_inj.mp h
  have hsub : (pools.map Pool.id).map UInt32.toNat ⊆ List.range (2 ^ 32) := by
    intro n hn
    obtain ⟨id, -, rfl⟩ := List.mem_map.mp hn
    exact List.mem_range.mpr id.toNat_lt
  simpa using (hinj.subperm hsub).length_le

theorem canonicalId_injOn {pools : List Pool} (hnodup : (pools.map Pool.id).Nodup) :
    Set.InjOn (canonicalId pools) {id | id ∈ pools.map Pool.id} := by
  intro a ha b hb h
  have hlength := length_le_of_nodup hnodup
  have hlt : ∀ id ∈ pools.map Pool.id, (pools.map Pool.id).idxOf id < 2 ^ 32 := by
    intro id hid
    have hidx := List.idxOf_lt_length_of_mem hid
    rw [List.length_map] at hidx
    omega
  have hnat := congrArg UInt32.toNat h
  rw [canonicalId, canonicalId, UInt32.toNat_ofNat_of_lt' (hlt a ha),
    UInt32.toNat_ofNat_of_lt' (hlt b hb)] at hnat
  exact (List.idxOf_inj ha).mp hnat

/-! ### Pools in the order of their names -/

/-- A pool of an unbound program has no resources, and its name is its own. -/
structure UnboundPools (pools : List Pool) : Prop where
  names : (pools.map Pool.name).Nodup
  resources : ∀ pool ∈ pools, pool.capacity = none ∧ pool.bankGeometry = none

theorem canonicalPools_perm {pools : List Pool} (h : UnboundPools pools) :
    (canonicalPools pools).Perm pools := by
  have hmap : pools.map (fun pool => { pool with capacity := none, bankGeometry := none }) =
      pools := by
    refine (List.map_congr_left fun pool hpool => ?_).trans (List.map_id pools)
    obtain ⟨hcapacity, hgeometry⟩ := h.resources pool hpool
    cases pool
    simp_all
  rw [canonicalPools, hmap]
  exact List.perm_insertionSort _ pools

theorem canonicalPools_pairwise (pools : List Pool) :
    (canonicalPools pools).Pairwise fun first second => first.name ≤ second.name := by
  have : Std.Total fun first second : Pool => first.name ≤ second.name :=
    ⟨fun first second => String.le_total first.name second.name⟩
  have : IsTrans Pool fun first second => first.name ≤ second.name :=
    ⟨fun _ _ _ => String.le_trans⟩
  exact List.pairwise_insertionSort _ _

/-- Pools with distinct names have one order. -/
theorem canonicalPools_map {σ : PoolId → PoolId} {first second : List Pool}
    (hfirst : UnboundPools first) (hsecond : UnboundPools second)
    (hpools : second.Perm (first.map (renumberPool σ))) :
    canonicalPools second = (canonicalPools first).map (renumberPool σ) := by
  have hperm : (canonicalPools second).Perm ((canonicalPools first).map (renumberPool σ)) :=
    ((canonicalPools_perm hsecond).trans hpools).trans
      ((canonicalPools_perm hfirst).symm.map (renumberPool σ))
  refine hperm.eq_of_pairwise ?_ (canonicalPools_pairwise second)
    (List.pairwise_map.mpr (canonicalPools_pairwise first))
  intro a b ha hb hab hba
  have hnames : ((canonicalPools second).map Pool.name).Nodup :=
    ((canonicalPools_perm hsecond).map Pool.name).nodup_iff.mpr hsecond.names
  exact List.inj_on_of_nodup_map hnames ha (hperm.mem_iff.mpr hb) (String.le_antisymm hab hba)

/-! ### The canonical program of a valid program -/

/-- What `canonicalProgram` computes when every pool that is named exists. -/
def canonicalDocument (program : StructuredProblemDocument) : StructuredProblemDocument :=
  let pools := canonicalPools program.problem.pools
  { program with
    instanceName := "program"
    metadata := canonicalMetadata program.metadata
    problem := { program.problem with
      pools := pools.mapIdx fun index pool => { pool with id := UInt32.ofNat index }
      buffers := program.problem.buffers.map fun buffer =>
        { buffer with
          allowedPools := (buffer.allowedPools.map (canonicalId pools)).insertionSort (· ≤ ·) }
      pinnedAllocations := program.problem.pinnedAllocations.map (renumberPin (canonicalId pools))
      pyptoStructure :=
        program.problem.pyptoStructure.map (renumberStructure (canonicalId pools)) } }

/-- The pools that a problem names are its pools. -/
structure PoolsKnown (problem : DsaProblem) : Prop where
  allowedPools : ∀ buffer ∈ problem.buffers, ∀ id ∈ buffer.allowedPools,
    id ∈ problem.pools.map Pool.id
  pins : ∀ pin ∈ problem.pinnedAllocations, pin.pool ∈ problem.pools.map Pool.id
  groups : ∀ pypto ∈ problem.pyptoStructure, ∀ group ∈ pypto.pipelineGroups,
    group.pool ∈ problem.pools.map Pool.id

theorem canonicalProgram_eq {program : StructuredProblemDocument}
    (hunbound : UnboundPools program.problem.pools) (hknown : PoolsKnown program.problem) :
    canonicalProgram program = .ok (canonicalDocument program) := by
  have hremap : ∀ id ∈ program.problem.pools.map Pool.id,
      remapPool (canonicalPools program.problem.pools) id =
        pure (canonicalId (canonicalPools program.problem.pools) id) := fun id hid =>
    remapPool_eq (((canonicalPools_perm hunbound).map Pool.id).mem_iff.mpr hid)
  unfold canonicalProgram canonicalDocument
  dsimp only
  rw [mapM_eq_pure (g := fun buffer : Buffer => { buffer with allowedPools :=
        (buffer.allowedPools.map
          (canonicalId (canonicalPools program.problem.pools))).insertionSort (· ≤ ·) }), pure_bind,
    mapM_eq_pure (g := renumberPin (canonicalId (canonicalPools program.problem.pools))), pure_bind]
  · cases hpypto : program.problem.pyptoStructure with
    | none => rfl
    | some pypto =>
        dsimp only
        rw [mapM_eq_pure (g := renumberGroup (canonicalId (canonicalPools program.problem.pools))),
          pure_bind]
        · rfl
        · intro group hgroup
          rw [hremap _ (hknown.groups pypto hpypto group hgroup)]
          rfl
  · intro pin hpin
    rw [hremap _ (hknown.pins pin hpin)]
    rfl
  · intro buffer hbuffer
    rw [mapM_eq_pure fun id hid => hremap id (hknown.allowedPools buffer hbuffer id hid)]
    rfl

/-! ### One canonical program for all presentations -/

/-- The same program under other pool identifiers and orders of pools. -/
structure RenumberedProgram (σ : PoolId → PoolId) (first second : StructuredProblemDocument) :
    Prop where
  problem : Renumbered σ first.problem second.problem
  envelope : second = { first with problem := second.problem }

theorem insertionSort_congr {first second : List PoolId} (h : first.Perm second) :
    first.insertionSort (· ≤ ·) = second.insertionSort (· ≤ ·) := by
  have hperm := ((List.perm_insertionSort (· ≤ ·) first).trans h).trans
    (List.perm_insertionSort (· ≤ ·) second).symm
  exact hperm.eq_of_pairwise (fun _ _ _ _ => le_antisymm) (List.pairwise_insertionSort _ first)
    (List.pairwise_insertionSort _ second)

theorem canonicalId_renumbered {σ : PoolId → PoolId} {first second : DsaProblem}
    (h : Renumbered σ first second) (hfirst : UnboundPools first.pools)
    (hsecond : UnboundPools second.pools) {id : PoolId} (hid : id ∈ first.pools.map Pool.id) :
    canonicalId (canonicalPools second.pools) (σ id) =
      canonicalId (canonicalPools first.pools) id := by
  have hmem : ∀ x, x ∈ (canonicalPools first.pools).map Pool.id ↔ x ∈ first.pools.map Pool.id :=
    fun x => ((canonicalPools_perm hfirst).map Pool.id).mem_iff
  have hids : (canonicalPools second.pools).map Pool.id =
      ((canonicalPools first.pools).map Pool.id).map σ := by
    rw [canonicalPools_map hfirst hsecond h.pools, List.map_map, List.map_map]
    rfl
  have hinj : Set.InjOn σ {x | x ∈ (canonicalPools first.pools).map Pool.id} :=
    fun x hx y hy => h.injective ((hmem x).mp hx) ((hmem y).mp hy)
  rw [canonicalId, canonicalId, hids, idxOf_map_of_injOn hinj ((hmem id).mpr hid)]

theorem canonicalDocument_congr {σ : PoolId → PoolId} {first second : StructuredProblemDocument}
    (h : RenumberedProgram σ first second) (hfirst : UnboundPools first.problem.pools)
    (hsecond : UnboundPools second.problem.pools) (hknown : PoolsKnown first.problem) :
    canonicalDocument second = canonicalDocument first := by
  have hid : ∀ id ∈ first.problem.pools.map Pool.id,
      canonicalId (canonicalPools second.problem.pools) (σ id) =
        canonicalId (canonicalPools first.problem.pools) id :=
    fun id => canonicalId_renumbered h.problem hfirst hsecond
  have hpools : ((canonicalPools second.problem.pools).mapIdx fun index pool =>
        { pool with id := UInt32.ofNat index }) =
      (canonicalPools first.problem.pools).mapIdx fun index pool =>
        { pool with id := UInt32.ofNat index } := by
    rw [canonicalPools_map hfirst hsecond h.problem.pools]
    exact List.ext_getElem (by simp) fun i hi _ => by simp [renumberPool]
  have hbuffers : (second.problem.buffers.map fun buffer => { buffer with allowedPools :=
        (buffer.allowedPools.map
          (canonicalId (canonicalPools second.problem.pools))).insertionSort (· ≤ ·) }) =
      first.problem.buffers.map fun buffer => { buffer with allowedPools :=
        (buffer.allowedPools.map
          (canonicalId (canonicalPools first.problem.pools))).insertionSort (· ≤ ·) } := by
    have hforall := h.problem.buffers
    have hallowed := hknown.allowedPools
    generalize first.problem.buffers = originals, second.problem.buffers = renumbered
      at hforall hallowed ⊢
    induction hforall with
    | nil => rfl
    | @cons buffer other originals renumbered hbuffer _ ih =>
        obtain ⟨allowed, hperm, rfl⟩ := hbuffer
        rw [List.forall_mem_cons] at hallowed
        rw [List.map_cons, List.map_cons, ih hallowed.2]
        have hids : buffer.allowedPools.map
              (canonicalId (canonicalPools second.problem.pools) ∘ σ) =
            buffer.allowedPools.map (canonicalId (canonicalPools first.problem.pools)) :=
          List.map_congr_left fun id hmem => hid id (hallowed.1 id hmem)
        have hsorted := insertionSort_congr
          (hperm.map (canonicalId (canonicalPools second.problem.pools)))
        rw [List.map_map, hids] at hsorted
        rw [hsorted]
  have hpins : second.problem.pinnedAllocations.map
        (renumberPin (canonicalId (canonicalPools second.problem.pools))) =
      first.problem.pinnedAllocations.map
        (renumberPin (canonicalId (canonicalPools first.problem.pools))) := by
    rw [h.problem.pinnedAllocations, List.map_map]
    apply List.map_congr_left
    intro pin hpin
    simp [renumberPin, hid _ (hknown.pins pin hpin)]
  have hpypto : second.problem.pyptoStructure.map
        (renumberStructure (canonicalId (canonicalPools second.problem.pools))) =
      first.problem.pyptoStructure.map
        (renumberStructure (canonicalId (canonicalPools first.problem.pools))) := by
    rw [h.problem.pyptoStructure, Option.map_map]
    apply Option.map_congr
    intro pypto hpypto
    have hgroups := hknown.groups pypto hpypto
    simp only [Function.comp_apply, renumberStructure, List.map_map, PyptoStructure.mk.injEq, true_and]
    apply List.map_congr_left
    intro group hgroup
    simp [renumberGroup, hid _ (hgroups group hgroup)]
  have henvelope := h.envelope
  rw [canonicalDocument, canonicalDocument]
  dsimp only
  rw [hpools, hbuffers, hpins, hpypto, h.problem.colocations, h.problem.separations,
    h.problem.temporalExclusions, h.problem.costModel, h.problem.objective]
  rw [henvelope]

/-! ### Validity -/

theorem poolsKnown_of_valid {problem : DsaProblem} (hvalid : validateProblem problem = []) :
    PoolsKnown problem := by
  have hw := WellFormed.of_validateProblem hvalid
  obtain ⟨-, -, -, -, -, -, -, -, hpypto, -⟩ := (validateProblem_eq_nil_iff problem).mp hvalid
  refine ⟨hw.allowedPools, fun pin hpin => ?_, fun pypto hsome group hgroup => ?_⟩
  · obtain ⟨buffer, hfind, hallowed, -⟩ := hw.pinned pin hpin
    exact hw.allowedPools buffer (List.mem_of_find?_eq_some hfind) _
      (by simpa [poolAllowed] using hallowed)
  · rw [Option.mem_def] at hsome
    rw [pyptoErrors, hsome] at hpypto
    have hgroups := (List.append_eq_nil_iff.mp hpypto).2
    generalize ([] : List (PoolId × Int32)) = seen at hgroups
    generalize pypto.pipelineGroups = groups at hgroup hgroups
    induction groups generalizing seen with
    | nil => cases hgroup
    | cons first groups ih =>
        simp only [pipelineGroupErrors, List.append_eq_nil_iff, errorIf_eq_nil] at hgroups
        rcases List.mem_cons.mp hgroup with rfl | hgroup
        · have hfind := hgroups.1.1.1.1.1.1.2
          cases hpool : problem.findPool group.pool with
          | none =>
              rw [hpool] at hfind
              cases hfind
          | some pool => exact List.mem_map.mpr ⟨pool, findPool_mem hpool, findPool_id hpool⟩
        · exact ih _ hgroup hgroups.2

theorem validateUnboundProgram_eq_nil_iff {program : StructuredProblemDocument} :
    validateUnboundProgram program = [] ↔
      validateStructuredProblemDocument program = [] ∧ isPyptoProfile program.profile = true ∧
        program.metadata.getD "lowering_abi" "" ≠ "" ∧
        (∀ key ∈ ["target", "architecture_id", "architecture_fingerprint_fnv1a64",
          "program_fingerprint_fnv1a64"], program.metadata.contains key = false) ∧
        unboundPoolErrors [] program.problem.pools = [] := by
  simp only [validateUnboundProgram, List.append_eq_nil_iff, errorIf_eq_nil,
    List.flatMap_eq_nil_iff, and_assoc, Bool.not_eq_eq_eq_not, Bool.not_false,
    beq_eq_false_iff_ne]

theorem unboundPools_of_valid {program : StructuredProblemDocument}
    (hvalid : validateUnboundProgram program = []) : UnboundPools program.problem.pools := by
  obtain ⟨-, -, -, -, hpools⟩ := validateUnboundProgram_eq_nil_iff.mp hvalid
  obtain ⟨-, hnames, hresources⟩ := unboundPoolErrors_eq_nil_iff.mp hpools
  exact ⟨hnames, fun pool hpool => (hresources pool hpool).2⟩

/-- What the checks of a PyPTO profile look at. -/
structure SameProfile (first second : StructuredProblemDocument) : Prop where
  profile : second.profile = first.profile
  relaxedFrom : second.relaxedFrom = first.relaxedFrom
  relaxedFeatures : second.relaxedFeatures = first.relaxedFeatures
  metadata : ∀ key ∈ ["lifetime_ordering", "solver_input", "lowering_abi"],
    second.metadata[key]? = first.metadata[key]?

theorem hardBufferErrors_eq_nil {σ : PoolId → PoolId} {buffer renumbered : Buffer}
    (h : RenumberedBuffer σ buffer renumbered) (hfirst : hardBufferErrors buffer = []) :
    hardBufferErrors renumbered = [] := by
  obtain ⟨allowed, hperm, rfl⟩ := h
  have hlength : allowed.length = buffer.allowedPools.length := by
    rw [hperm.length_eq, List.length_map]
  unfold hardBufferErrors at hfirst ⊢
  rwa [show ({ buffer with allowedPools := allowed } : Buffer).allowedPools.length =
    buffer.allowedPools.length from hlength]

theorem validatePyptoV1_eq_nil {σ : PoolId → PoolId} {first second : StructuredProblemDocument}
    {rejectExperimental : Bool} (h : Renumbered σ first.problem second.problem)
    (hsame : SameProfile first second)
    (hfirst : validatePyptoV1 first rejectExperimental = []) :
    validatePyptoV1 second rejectExperimental = [] := by
  have hordering := hsame.metadata "lifetime_ordering" (by simp)
  have hinput := hsame.metadata "solver_input" (by simp)
  simp only [validatePyptoV1, requireMetadataValue, List.append_eq_nil_iff, errorIf_eq_nil,
    hordering, hinput] at hfirst ⊢
  refine ⟨hfirst.1, ?_⟩
  have hrest := hfirst.2
  split
  · rfl
  · rename_i hreject
    rw [if_neg hreject] at hrest
    simp only [List.append_eq_nil_iff, errorIf_eq_nil, List.flatMap_eq_nil_iff] at hrest ⊢
    obtain ⟨⟨⟨⟨⟨⟨hbuffers, hpools⟩, hcolocations⟩, hexclusions⟩, hpins⟩, hcost⟩, hobjective⟩ := hrest
    refine ⟨⟨⟨⟨⟨⟨fun buffer hbuffer => ?_, ?_⟩, ?_⟩, ?_⟩, ?_⟩, ?_⟩, ?_⟩
    · obtain ⟨original, horiginal, hrel⟩ := exists_of_forall₂_right h.buffers hbuffer
      exact hardBufferErrors_eq_nil hrel (hbuffers original horiginal)
    · rw [List.any_eq_false] at hpools ⊢
      intro pool hpool
      obtain ⟨original, horiginal, rfl⟩ := h.exists_pool hpool
      exact hpools original horiginal
    · rwa [h.colocations]
    · rwa [h.temporalExclusions]
    · rw [h.pinnedAllocations, List.isEmpty_map]
      exact hpins
    · rwa [h.costModel]
    · rwa [h.objective]

theorem profileErrors_eq_nil {σ : PoolId → PoolId} {first second : StructuredProblemDocument}
    (h : Renumbered σ first.problem second.problem) (hsame : SameProfile first second)
    (hpypto : isPyptoProfile first.profile = true) (hfirst : profileErrors first = []) :
    profileErrors second = [] := by
  unfold profileErrors notRelaxedErrors at hfirst ⊢
  rw [hsame.profile, hsame.relaxedFrom, hsame.relaxedFeatures]
  cases hprofile : first.profile <;> rw [hprofile] at hfirst hpypto
  case pyptoStructured => exact hfirst
  case pyptoHardV1 =>
    rw [List.append_eq_nil_iff] at hfirst ⊢
    exact ⟨hfirst.1, validatePyptoV1_eq_nil h hsame hfirst.2⟩
  case pyptoResearchV1 =>
    rw [List.append_eq_nil_iff] at hfirst ⊢
    exact ⟨hfirst.1, validatePyptoV1_eq_nil h hsame hfirst.2⟩
  all_goals cases hpypto

/-- A renumbering of a valid unbound program is one, whatever else changes in its metadata. -/
theorem validateUnboundProgram_eq_nil {σ : PoolId → PoolId}
    {first second : StructuredProblemDocument} (h : Renumbered σ first.problem second.problem)
    (hsame : SameProfile first second) (hversion : second.schemaVersion = first.schemaVersion)
    (hinstance : second.instanceName ≠ "")
    (hkeys : ∀ key ∈ ["target", "architecture_id", "architecture_fingerprint_fnv1a64",
      "program_fingerprint_fnv1a64"], second.metadata.contains key = false)
    (hvalid : validateUnboundProgram first = []) : validateUnboundProgram second = [] := by
  obtain ⟨hdocument, hpypto, habi, -, hpools⟩ := validateUnboundProgram_eq_nil_iff.mp hvalid
  have hproblem := h.validateProblem_eq_nil (validateProblem_of_document hdocument)
  refine validateUnboundProgram_eq_nil_iff.mpr ⟨?_, ?_, ?_, hkeys, ?_⟩
  · unfold validateStructuredProblemDocument at hdocument ⊢
    simp only [List.append_eq_nil_iff, errorIf_eq_nil] at hdocument ⊢
    obtain ⟨⟨⟨⟨hfirstVersion, -⟩, -⟩, hprofile⟩, -⟩ := hdocument
    refine ⟨⟨⟨⟨?_, ?_⟩, hproblem⟩, profileErrors_eq_nil h hsame hpypto hprofile⟩, ?_⟩
    · rwa [hversion]
    · simpa using hinstance
    · rw [hsame.profile, if_neg]
      revert hpypto
      cases first.profile <;> decide
  · rw [hsame.profile]
    exact hpypto
  · have hsameAbi := hsame.metadata "lowering_abi" (by simp)
    rw [Std.ExtTreeMap.getD_eq_getD_getElem?] at habi ⊢
    rwa [hsameAbi]
  · obtain ⟨-, hnames, hresources⟩ := unboundPoolErrors_eq_nil_iff.mp hpools
    refine unboundPoolErrors_eq_nil_iff.mpr ⟨by simp, ?_, fun pool hpool => ?_⟩
    · have hmap := h.pools.map Pool.name
      rw [List.map_map, show Pool.name ∘ renumberPool σ = Pool.name from rfl] at hmap
      exact hmap.nodup_iff.mpr hnames
    · obtain ⟨original, horiginal, rfl⟩ := h.exists_pool hpool
      exact hresources original horiginal

/-! ### The canonical program is a renumbering -/

/-- One step of the loop of `canonicalMetadata`. -/
def keepKey (metadata kept : Metadata) (key : String) : Metadata :=
  match metadata[key]? with
  | some value => kept.insertIfNew key value
  | none => kept

theorem getElem?_keepKey {metadata kept : Metadata} {key other : String}
    (hkept : ∀ value, kept[other]? = some value → metadata[other]? = some value) :
    (keepKey metadata kept key)[other]? =
      if key = other then metadata[other]? else kept[other]? := by
  unfold keepKey
  cases hkey : metadata[key]? with
  | none =>
      dsimp only
      split
      · rename_i heq
        subst heq
        cases hfound : kept[key]? with
        | none => exact hkey.symm
        | some value => exact (hkept value hfound).symm
      · rfl
  | some value =>
      simp only [Std.ExtTreeMap.getElem?_insertIfNew]
      by_cases heq : key = other
      · subst heq
        rw [if_pos rfl, hkey]
        split
        · rfl
        · rename_i hmem
          obtain ⟨found, hfound⟩ := Std.ExtTreeMap.mem_iff_isSome_getElem?.mp
            (not_not.mp fun hnot => hmem ⟨Std.ReflCmp.compare_self, hnot⟩) |> Option.isSome_iff_exists.mp
          rw [hfound, ← hkept found hfound, hkey]
      · rw [if_neg heq, if_neg fun hand => heq (Std.LawfulEqCmp.eq_of_compare hand.1)]

theorem getElem?_foldl_keepKey {metadata : Metadata} {keys : List String} {kept : Metadata}
    {other : String} (hkept : ∀ value, kept[other]? = some value → metadata[other]? = some value) :
    (keys.foldl (keepKey metadata) kept)[other]? =
      if other ∈ keys then metadata[other]? else kept[other]? := by
  induction keys generalizing kept with
  | nil => simp
  | cons key keys ih =>
      have hstep : (keepKey metadata kept key)[other]? =
          if key = other then metadata[other]? else kept[other]? := getElem?_keepKey hkept
      have hnext : ∀ value, (keepKey metadata kept key)[other]? = some value →
          metadata[other]? = some value := by
        intro value hvalue
        rw [hstep] at hvalue
        split at hvalue
        · exact hvalue
        · exact hkept value hvalue
      rw [List.foldl_cons, ih hnext, hstep]
      by_cases heq : key = other
      · subst heq
        simp
      · simp [heq, Ne.symm heq]

/-- The loop over the keys keeps what the metadata says about them. -/
theorem getElem?_canonicalMetadata (metadata : Metadata) (key : String) :
    (canonicalMetadata metadata)[key]? =
      if key ∈ ["lifetime_ordering", "solver_input", "lowering_abi"] then metadata[key]? else none := by
  have hfold : canonicalMetadata metadata =
      ["lifetime_ordering", "solver_input", "lowering_abi"].foldl (keepKey metadata) ∅ := rfl
  rw [hfold, getElem?_foldl_keepKey (by simp)]
  simp

theorem canonicalMetadata_congr {first second : Metadata}
    (h : ∀ key ∈ ["lifetime_ordering", "solver_input", "lowering_abi"],
      first[key]? = second[key]?) : canonicalMetadata first = canonicalMetadata second := by
  apply Std.ExtTreeMap.ext_getElem?
  intro key
  rw [getElem?_canonicalMetadata, getElem?_canonicalMetadata]
  split
  · rename_i hkey
    exact h key hkey
  · rfl

theorem renumbered_canonicalDocument {program : StructuredProblemDocument}
    (hunbound : UnboundPools program.problem.pools)
    (hnodup : (program.problem.pools.map Pool.id).Nodup) :
    Renumbered (canonicalId (canonicalPools program.problem.pools)) program.problem
      (canonicalDocument program).problem where
  injective := by
    have hperm := (canonicalPools_perm hunbound).map Pool.id
    have hinj := canonicalId_injOn (hperm.nodup_iff.mpr hnodup)
    exact fun a ha b hb => hinj (hperm.mem_iff.mpr ha) (hperm.mem_iff.mpr hb)
  pools := by
    have hperm := canonicalPools_perm hunbound
    have hids := (hperm.map Pool.id).nodup_iff.mpr hnodup
    have hmap := mapIdx_eq_map_idxOf (f := fun index (pool : Pool) =>
      { pool with id := UInt32.ofNat index }) hids
    rw [show (canonicalDocument program).problem.pools = _ from hmap]
    exact hperm.map (renumberPool (canonicalId (canonicalPools program.problem.pools)))
  buffers := by
    rw [canonicalDocument, List.forall₂_map_right_iff, List.forall₂_same]
    exact fun buffer _ => ⟨_, List.perm_insertionSort _ _, rfl⟩
  pinnedAllocations := rfl
  pyptoStructure := rfl
  colocations := rfl
  separations := rfl
  temporalExclusions := rfl
  costModel := rfl
  objective := rfl

/-! ### The identity of a program -/

theorem validateUnboundProgram_canonicalDocument {program : StructuredProblemDocument}
    (hvalid : validateUnboundProgram program = []) :
    validateUnboundProgram (canonicalDocument program) = [] := by
  have hunbound := unboundPools_of_valid hvalid
  obtain ⟨hdocument, -⟩ := validateUnboundProgram_eq_nil_iff.mp hvalid
  have hw := WellFormed.of_validateProblem (validateProblem_of_document hdocument)
  refine validateUnboundProgram_eq_nil (renumbered_canonicalDocument hunbound hw.poolIds) ?_ rfl
    (by simp [canonicalDocument]) ?_ hvalid
  · refine ⟨rfl, rfl, rfl, fun key hkey => ?_⟩
    exact (getElem?_canonicalMetadata program.metadata key).trans (if_pos hkey)
  · intro key hkey
    have hnot : key ∉ ["lifetime_ordering", "solver_input", "lowering_abi"] := by
      simp only [List.mem_cons, List.not_mem_nil, or_false] at hkey
      rcases hkey with rfl | rfl | rfl | rfl <;> decide
    rw [Std.ExtTreeMap.contains_eq_isSome_getElem?,
      show (canonicalDocument program).metadata = canonicalMetadata program.metadata from rfl,
      getElem?_canonicalMetadata, if_neg hnot]
    rfl

/-- The canonical program of the canonical program is itself. -/
theorem canonicalDocument_canonicalDocument {program : StructuredProblemDocument}
    (hvalid : validateUnboundProgram program = []) :
    canonicalDocument (canonicalDocument program) = canonicalDocument program := by
  have hunbound := unboundPools_of_valid hvalid
  obtain ⟨hdocument, -⟩ := validateUnboundProgram_eq_nil_iff.mp hvalid
  have hproblem := validateProblem_of_document hdocument
  have hw := WellFormed.of_validateProblem hproblem
  -- the program under the envelope of its canonical form
  let renamed : StructuredProblemDocument :=
    { program with instanceName := "program", metadata := canonicalMetadata program.metadata }
  have hrenumbered : RenumberedProgram (canonicalId (canonicalPools program.problem.pools)) renamed
      (canonicalDocument program) := ⟨renumbered_canonicalDocument hunbound hw.poolIds, rfl⟩
  have hmetadata : canonicalMetadata (canonicalMetadata program.metadata) =
      canonicalMetadata program.metadata := canonicalMetadata_congr fun key hkey => by
    rw [getElem?_canonicalMetadata, if_pos hkey]
  calc canonicalDocument (canonicalDocument program)
      = canonicalDocument renamed := canonicalDocument_congr hrenumbered hunbound
        (unboundPools_of_valid (validateUnboundProgram_canonicalDocument hvalid))
        (poolsKnown_of_valid hproblem)
    _ = canonicalDocument program := by
        rw [canonicalDocument, canonicalDocument]
        dsimp only [renamed]
        rw [hmetadata]

/-- The canonical program and the fingerprint of a valid unbound program do not depend on its pool
identifiers, the order of its pools and the order of the pools that its buffers allow; the
canonical program is valid and its own canonical program. -/
theorem canonicalProgram_renumbered (lib : JsonText) (σ : PoolId → PoolId)
    (first second : StructuredProblemDocument) (hvalid : validateUnboundProgram first = [])
    (h : RenumberedProgram σ first second) :
    ∃ canonical, canonicalProgram first = .ok canonical ∧ canonicalProgram second = .ok canonical ∧
      fingerprintUnboundProgram lib second = fingerprintUnboundProgram lib first ∧
      canonicalProgram canonical = .ok canonical ∧ validateUnboundProgram canonical = [] ∧
      validateStructuredProblemDocument canonical = [] := by
  obtain ⟨hdocument, -, -, hkeys, -⟩ := validateUnboundProgram_eq_nil_iff.mp hvalid
  have hsecond : validateUnboundProgram second = [] := by
    have hinstance : first.instanceName ≠ "" := by
      simp only [validateStructuredProblemDocument, List.append_eq_nil_iff, errorIf_eq_nil]
        at hdocument
      simpa using hdocument.1.1.1.2
    have hsame : SameProfile first second := by
      rw [h.envelope]
      exact ⟨rfl, rfl, rfl, fun _ _ => rfl⟩
    refine validateUnboundProgram_eq_nil h.problem hsame ?_ ?_ ?_ hvalid
    · rw [h.envelope]
    · rwa [h.envelope]
    · rwa [h.envelope]
  have hcanonical := validateUnboundProgram_canonicalDocument hvalid
  have hpools : ∀ {program : StructuredProblemDocument}, validateUnboundProgram program = [] →
      canonicalProgram program = .ok (canonicalDocument program) := fun hprogram =>
    canonicalProgram_eq (unboundPools_of_valid hprogram) (poolsKnown_of_valid
      (validateProblem_of_document (validateUnboundProgram_eq_nil_iff.mp hprogram).1))
  have hcongr : canonicalDocument second = canonicalDocument first :=
    canonicalDocument_congr h (unboundPools_of_valid hvalid) (unboundPools_of_valid hsecond)
      (poolsKnown_of_valid (validateProblem_of_document hdocument))
  refine ⟨canonicalDocument first, hpools hvalid, ?_, ?_, ?_, hcanonical,
    (validateUnboundProgram_eq_nil_iff.mp hcanonical).1⟩
  · rw [hpools hsecond, hcongr]
  · rw [fingerprintUnboundProgram, fingerprintUnboundProgram, hvalid, hsecond]
    dsimp only
    rw [hpools hsecond, hpools hvalid, hcongr]
  · rw [hpools hcanonical, canonicalDocument_canonicalDocument hvalid]

/-- A program with a pipeline group in the second of its two pools. -/
def twoPoolProgram : StructuredProblemDocument where
  profile := .pyptoResearchV1
  instanceName := "kernel"
  metadata := .ofList [("lifetime_ordering", "pypto_read_before_write"),
    ("lowering_abi", "v1"), ("solver_input", "pre_memory_reuse")]
  problem :=
    { pools := [{ id := 3, name := "Vec" }, { id := 7, name := "Acc", reservedRanges := [⟨0, 16⟩] }]
      buffers := [{ id := 1, size := 64, liveIntervals := [⟨0, 4⟩], allowedPools := [3, 7] }]
      pinnedAllocations := [{ buffer := 1, pool := 3, offset := 64 }]
      pyptoStructure := some
        { pipelineGroups :=
            [{ group := 0, pool := 7, slotSize := 64, depth := 1, effectiveDepth := 1,
               members := [{ buffer := 1 }] }] } }

/-- The same program with the two identifiers exchanged, the pools and the allowed pools turned
round. -/
def exchangedProgram : StructuredProblemDocument :=
  { twoPoolProgram with
    problem :=
      { pools := [{ id := 3, name := "Acc", reservedRanges := [⟨0, 16⟩] }, { id := 7, name := "Vec" }]
        buffers := [{ id := 1, size := 64, liveIntervals := [⟨0, 4⟩], allowedPools := [3, 7] }]
        pinnedAllocations := [{ buffer := 1, pool := 7, offset := 64 }]
        pyptoStructure := some
          { pipelineGroups :=
              [{ group := 0, pool := 3, slotSize := 64, depth := 1, effectiveDepth := 1,
                 members := [{ buffer := 1 }] }] } } }

theorem canonicalProgram_exchanged :
    ∃ canonical, canonicalProgram twoPoolProgram = .ok canonical ∧
      canonicalProgram exchangedProgram = .ok canonical := by
  have hrenumbered : RenumberedProgram (Equiv.swap 3 7) twoPoolProgram exchangedProgram := by
    refine ⟨⟨(Equiv.injective _).injOn, by decide +kernel, .cons ⟨[3, 7], by decide +kernel, rfl⟩ .nil,
      by decide +kernel, by decide +kernel, rfl, rfl, rfl, rfl, rfl⟩, rfl⟩
  obtain ⟨canonical, hfirst, hsecond, -⟩ := canonicalProgram_renumbered (.ofValues []) _ _ _
    (by decide +kernel) hrenumbered
  exact ⟨canonical, hfirst, hsecond⟩

end Dsa
