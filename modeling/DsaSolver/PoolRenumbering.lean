import DsaSolver.Architecture

/-! # Renumbered pools

`Renumbered σ first second`: the second problem is the first with its pool identifiers replaced
by `σ`, its pools in any order, and the allowed pools of each buffer in any order.  Looking up a
buffer or a pool commutes with the renumbering, so each section of `validateProblem` accepts the
second problem when it accepts the first (`Renumbered.validateProblem_eq_nil`). -/

namespace Dsa

open Theory

section renumbering

variable (σ : PoolId → PoolId)

def renumberPool (pool : Pool) : Pool := { pool with id := σ pool.id }

def renumberPin (pin : PinnedAllocation) : PinnedAllocation := { pin with pool := σ pin.pool }

def renumberGroup (group : PyptoPipelineGroup) : PyptoPipelineGroup :=
  { group with pool := σ group.pool }

def renumberStructure (pypto : PyptoStructure) : PyptoStructure :=
  { pypto with pipelineGroups := pypto.pipelineGroups.map (renumberGroup σ) }

/-- A buffer with its allowed pools renumbered, in any order. -/
def RenumberedBuffer (buffer renumbered : Buffer) : Prop :=
  ∃ allowedPools, allowedPools.Perm (buffer.allowedPools.map σ) ∧
    renumbered = { buffer with allowedPools }

/-- The same problem under other pool identifiers, and with its pools and the allowed pools of
its buffers in other orders. -/
structure Renumbered (first second : DsaProblem) : Prop where
  injective : Set.InjOn σ {id | id ∈ first.pools.map Pool.id}
  pools : second.pools.Perm (first.pools.map (renumberPool σ))
  buffers : List.Forall₂ (RenumberedBuffer σ) first.buffers second.buffers
  pinnedAllocations : second.pinnedAllocations = first.pinnedAllocations.map (renumberPin σ)
  pyptoStructure : second.pyptoStructure = first.pyptoStructure.map (renumberStructure σ)
  colocations : second.colocations = first.colocations
  separations : second.separations = first.separations
  temporalExclusions : second.temporalExclusions = first.temporalExclusions
  costModel : second.costModel = first.costModel
  objective : second.objective = first.objective

end renumbering

/-! ### Sections of the validation -/

theorem poolErrors_eq_nil_iff {poolIds : List PoolId} {pools : List Pool} :
    poolErrors poolIds pools = [] ↔
      (∀ pool ∈ pools, pool.id ∉ poolIds) ∧ (pools.map Pool.id).Nodup ∧
        ∀ pool ∈ pools, (∀ range ∈ pool.reservedRanges,
          range.first < range.last ∧ exceedsCapacity pool.capacity range.last = false) ∧
          ∀ geometry ∈ pool.bankGeometry, geometry.bankSize ≠ 0 ∧ geometry.numBanks ≠ 0 := by
  induction pools generalizing poolIds with
  | nil => simp [poolErrors]
  | cons pool rest ih =>
      have hranges : (∀ range ∈ pool.reservedRanges, reservedRangeErrors pool range = []) ↔
          ∀ range ∈ pool.reservedRanges,
            range.first < range.last ∧ exceedsCapacity pool.capacity range.last = false := by
        simp [reservedRangeErrors, errorIf_eq_nil]
      simp only [poolErrors, List.append_eq_nil_iff, errorIf_eq_nil, List.flatMap_eq_nil_iff,
        hranges, ih, List.map_cons, List.nodup_cons,
        List.mem_cons, not_or, List.contains_eq_mem, decide_eq_false_iff_not, List.mem_map]
      grind

theorem allowedPoolErrors_eq_nil_iff {poolIds : List PoolId} {buffer : Buffer}
    {allowed pools : List PoolId} :
    allowedPoolErrors poolIds buffer allowed pools = [] ↔
      (∀ id ∈ pools, id ∉ allowed) ∧ pools.Nodup ∧ ∀ id ∈ pools, id ∈ poolIds := by
  induction pools generalizing allowed with
  | nil => simp [allowedPoolErrors]
  | cons pool rest ih =>
      simp only [allowedPoolErrors, List.append_eq_nil_iff, errorIf_eq_nil, ih,
        List.nodup_cons, List.mem_cons, not_or, List.contains_eq_mem,
        decide_eq_false_iff_not, Bool.not_eq_eq_eq_not, Bool.not_false, decide_eq_true_eq]
      grind

theorem unboundPoolErrors_eq_nil_iff {names : List String} {pools : List Pool} :
    unboundPoolErrors names pools = [] ↔
      (∀ pool ∈ pools, pool.name ∉ names) ∧ (pools.map Pool.name).Nodup ∧
        ∀ pool ∈ pools, pool.name ≠ "" ∧ pool.capacity = none ∧ pool.bankGeometry = none := by
  induction pools generalizing names with
  | nil => simp [unboundPoolErrors]
  | cons pool rest ih =>
      simp only [unboundPoolErrors, List.append_eq_nil_iff, errorIf_eq_nil, ih,
        List.map_cons, List.nodup_cons, List.mem_cons, not_or,
        List.contains_eq_mem, decide_eq_false_iff_not, List.mem_map, beq_eq_false_iff_ne,
        Option.isSome_eq_false_iff, Option.isNone_iff_eq_none]
      grind

/-! ### Lookups -/

namespace RenumberedBuffer

variable {σ : PoolId → PoolId} {buffer renumbered : Buffer} (h : RenumberedBuffer σ buffer renumbered)

include h

theorem id : renumbered.id = buffer.id := by
  obtain ⟨_, -, rfl⟩ := h
  rfl

theorem mem_allowedPools_iff {ids : Set PoolId} (hσ : Set.InjOn σ ids)
    (hallowed : ∀ pool ∈ buffer.allowedPools, pool ∈ ids) {pool : PoolId} (hpool : pool ∈ ids) :
    poolAllowed renumbered (σ pool) = poolAllowed buffer pool := by
  obtain ⟨allowed, hperm, rfl⟩ := h
  rw [poolAllowed, poolAllowed, Bool.eq_iff_iff, List.contains_iff_mem, List.contains_iff_mem,
    hperm.mem_iff, List.mem_map]
  constructor
  · rintro ⟨other, hother, heq⟩
    rwa [← hσ (hallowed other hother) hpool heq]
  · exact fun hmem => ⟨pool, hmem, rfl⟩

end RenumberedBuffer

namespace Renumbered

variable {σ : PoolId → PoolId} {first second : DsaProblem} (h : Renumbered σ first second)

include h

theorem bufferIds : second.buffers.map Buffer.id = first.buffers.map Buffer.id := by
  have hbuffers := h.buffers
  generalize first.buffers = originals, second.buffers = renumbered at hbuffers ⊢
  induction hbuffers with
  | nil => rfl
  | cons hbuffer _ ih => rw [List.map_cons, List.map_cons, hbuffer.id, ih]

theorem knownBuffer (id : BufferId) : knownBuffer second id = knownBuffer first id := by
  rw [Dsa.knownBuffer, Dsa.knownBuffer, h.bufferIds]

theorem findBuffer (id : BufferId) :
    Option.Rel (RenumberedBuffer σ) (first.findBuffer id) (second.findBuffer id) := by
  rw [DsaProblem.findBuffer, DsaProblem.findBuffer]
  have hbuffers := h.buffers
  generalize first.buffers = originals, second.buffers = renumbered at hbuffers ⊢
  induction hbuffers with
  | nil => exact Option.Rel.none
  | cons hbuffer _ ih =>
      rw [List.find?_cons, List.find?_cons, hbuffer.id]
      split
      · exact Option.Rel.some hbuffer
      · exact ih

theorem mem_pools {pool : Pool} (hpool : pool ∈ first.pools) :
    renumberPool σ pool ∈ second.pools :=
  h.pools.mem_iff.mpr (List.mem_map_of_mem hpool)

theorem exists_pool {pool : Pool} (hpool : pool ∈ second.pools) :
    ∃ original ∈ first.pools, renumberPool σ original = pool :=
  List.mem_map.mp (h.pools.mem_iff.mp hpool)

theorem poolIds_perm : (second.pools.map Pool.id).Perm ((first.pools.map Pool.id).map σ) := by
  have hmap := h.pools.map Pool.id
  rwa [List.map_map, show Pool.id ∘ renumberPool σ = σ ∘ Pool.id from rfl, ← List.map_map] at hmap

theorem poolIds_nodup (hnodup : (first.pools.map Pool.id).Nodup) :
    (second.pools.map Pool.id).Nodup :=
  h.poolIds_perm.nodup_iff.mpr (hnodup.map_on h.injective)

theorem findPool (hnodup : (first.pools.map Pool.id).Nodup) {id : PoolId}
    (hid : id ∈ first.pools.map Pool.id) :
    second.findPool (σ id) = (first.findPool id).map (renumberPool σ) := by
  obtain ⟨pool, hpool, rfl⟩ := List.mem_map.mp hid
  rw [findPool_eq_of_mem hnodup hpool, Option.map_some]
  exact findPool_eq_of_mem (h.poolIds_nodup hnodup) (h.mem_pools hpool)

end Renumbered

/-! ### A renumbered problem is valid -/

namespace Renumbered

section sections

variable {σ : PoolId → PoolId} {first second : DsaProblem} (h : Renumbered σ first second)

include h

theorem allowedPoolErrors_eq_nil {buffer other : Buffer} {allowed pools : List PoolId}
    (hperm : pools.Perm (allowed.map σ))
    (hfirst : allowedPoolErrors (first.pools.map Pool.id) buffer [] allowed = []) :
    allowedPoolErrors (second.pools.map Pool.id) other [] pools = [] := by
  obtain ⟨-, hnodup, hmem⟩ := allowedPoolErrors_eq_nil_iff.mp hfirst
  refine allowedPoolErrors_eq_nil_iff.mpr ⟨by simp, ?_, fun id hid => ?_⟩
  · apply hperm.nodup_iff.mpr
    exact hnodup.map_on fun x hx y hy => h.injective (hmem x hx) (hmem y hy)
  · obtain ⟨original, horiginal, rfl⟩ := List.mem_map.mp (hperm.mem_iff.mp hid)
    exact h.poolIds_perm.mem_iff.mpr (List.mem_map_of_mem (hmem original horiginal))

theorem bufferErrors_eq_nil {originals renumbered : List Buffer}
    (hbuffers : List.Forall₂ (RenumberedBuffer σ) originals renumbered) {ids : List BufferId}
    {names : List String} (hfirst : bufferErrors (first.pools.map Pool.id) ids names originals = []) :
    bufferErrors (second.pools.map Pool.id) ids names renumbered = [] := by
  induction hbuffers generalizing ids names with
  | nil => rfl
  | @cons buffer other originals renumbered hbuffer _ ih =>
      obtain ⟨allowed, hperm, rfl⟩ := hbuffer
      simp only [bufferErrors, List.append_eq_nil_iff] at hfirst ⊢
      obtain ⟨⟨⟨hchecks, hempty⟩, hallowed⟩, hrest⟩ := hfirst
      refine ⟨⟨⟨hchecks, ?_⟩, h.allowedPoolErrors_eq_nil hperm hallowed⟩, ih hrest⟩
      rw [errorIf_eq_nil, List.isEmpty_eq_false_iff] at hempty ⊢
      rintro rfl
      exact hempty (List.map_eq_nil_iff.mp hperm.nil_eq.symm)

theorem pinnedAddressErrors_eq (hnodup : (first.pools.map Pool.id).Nodup) {pin : PinnedAllocation}
    {buffer renumbered : Buffer} (hbuffer : RenumberedBuffer σ buffer renumbered)
    (hpool : pin.pool ∈ first.pools.map Pool.id) :
    pinnedAddressErrors second (renumberPin σ pin) renumbered =
      pinnedAddressErrors first pin buffer := by
  obtain ⟨allowed, -, rfl⟩ := hbuffer
  obtain ⟨pool, hfind⟩ := exists_findPool hpool
  have hsecond := h.findPool hnodup hpool
  rw [hfind] at hsecond
  simp only [pinnedAddressErrors, renumberPin, hsecond, hfind, Option.map_some]
  rfl

/-- The problems agree on what a buffer that is looked up allows. -/
theorem poolAllowed_eq (hw : WellFormed first) {id : BufferId} {buffer renumbered : Buffer}
    (hfind : first.findBuffer id = some buffer) (hbuffer : RenumberedBuffer σ buffer renumbered)
    {pool : PoolId} (hpool : pool ∈ first.pools.map Pool.id) :
    poolAllowed renumbered (σ pool) = poolAllowed buffer pool :=
  hbuffer.mem_allowedPools_iff h.injective
    (hw.allowedPools buffer (List.mem_of_find?_eq_some hfind)) hpool

theorem pinnedErrors_eq_nil (hw : WellFormed first) {pins : List PinnedAllocation}
    {ids : List BufferId} (hfirst : pinnedErrors first ids pins = []) :
    pinnedErrors second ids (pins.map (renumberPin σ)) = [] := by
  induction pins generalizing ids with
  | nil => rfl
  | cons pin pins ih =>
      have hrel := h.findBuffer pin.buffer
      rw [pinnedErrors] at hfirst
      cases hfind : first.findBuffer pin.buffer with
      | none =>
          rw [hfind] at hfirst
          exact absurd hfirst (List.cons_ne_nil _ _)
      | some buffer =>
          rw [hfind] at hfirst hrel
          cases hsecond : second.findBuffer pin.buffer with
          | none =>
              rw [hsecond] at hrel
              cases hrel
          | some renumbered =>
              rw [hsecond] at hrel
              obtain ⟨hbuffer⟩ := hrel
              simp only [List.append_eq_nil_iff, errorIf_eq_nil, Bool.or_eq_false_iff] at hfirst
              obtain ⟨⟨⟨⟨hnew, hpool, hallowed⟩, halign⟩, haddress⟩, hrest⟩ := hfirst
              have hmem : pin.pool ∈ first.pools.map Pool.id :=
                hw.allowedPools buffer (List.mem_of_find?_eq_some hfind) _
                  (by simpa [poolAllowed] using hallowed)
              have halignment : renumbered.alignment = buffer.alignment := by
                obtain ⟨_, -, rfl⟩ := hbuffer
                rfl
              rw [List.map_cons, pinnedErrors]
              simp only [show (renumberPin σ pin).buffer = pin.buffer from rfl, hsecond,
                List.append_eq_nil_iff, errorIf_eq_nil, Bool.or_eq_false_iff]
              refine ⟨⟨⟨⟨hnew, ?_, ?_⟩, ?_⟩, ?_⟩, ih hrest⟩
              · rw [show (renumberPin σ pin).pool = σ pin.pool from rfl, h.findPool hw.poolIds hmem,
                  Option.isNone_map]
                exact hpool
              · rw [show (renumberPin σ pin).pool = σ pin.pool from rfl,
                  h.poolAllowed_eq hw hfind hbuffer hmem]
                exact hallowed
              · rw [halignment]
                exact halign
              · rw [h.pinnedAddressErrors_eq hw.poolIds hbuffer hmem]
                exact haddress

theorem memberBufferErrors_eq_nil (hw : WellFormed first) {group : PyptoPipelineGroup}
    {member : PyptoPipelineMember} (hpool : group.pool ∈ first.pools.map Pool.id)
    (hfirst : memberBufferErrors first group member = []) :
    memberBufferErrors second (renumberGroup σ group) member = [] := by
  have hrel := h.findBuffer member.buffer
  unfold memberBufferErrors at hfirst ⊢
  cases hfind : first.findBuffer member.buffer with
  | none =>
      rw [hfind] at hfirst
      exact absurd hfirst (List.cons_ne_nil _ _)
  | some buffer =>
      rw [hfind] at hfirst hrel
      cases hsecond : second.findBuffer member.buffer with
      | none =>
          rw [hsecond] at hrel
          cases hrel
      | some renumbered =>
          rw [hsecond] at hrel
          obtain ⟨hbuffer⟩ := hrel
          have hallowed := h.poolAllowed_eq hw hfind hbuffer hpool
          have hsize : renumbered.size = buffer.size := by
            obtain ⟨_, -, rfl⟩ := hbuffer
            rfl
          simp only [List.append_eq_nil_iff, errorIf_eq_nil] at hfirst ⊢
          rw [hsize, show (renumberGroup σ group).pool = σ group.pool from rfl, hallowed]
          exact hfirst

theorem pipelineMemberErrors_eq_nil (hw : WellFormed first) {group : PyptoPipelineGroup}
    (hpool : group.pool ∈ first.pools.map Pool.id) {members : List PyptoPipelineMember}
    {seen : List (BufferId × Int32)} {residues : List (Int32 × UInt32)}
    (hfirst : pipelineMemberErrors first group seen residues members = []) :
    pipelineMemberErrors second (renumberGroup σ group) seen residues members = [] := by
  induction members generalizing seen residues with
  | nil =>
      rw [pipelineMemberErrors, errorIf_eq_nil] at hfirst ⊢
      exact hfirst
  | cons member members ih =>
      rw [pipelineMemberErrors] at hfirst ⊢
      simp only [List.append_eq_nil_iff, errorIf_eq_nil] at hfirst ⊢
      obtain ⟨⟨⟨⟨⟨hbuffer, hstage⟩, hresidue⟩, hrepeat⟩, hmaps⟩, hrest⟩ := hfirst
      exact ⟨⟨⟨⟨⟨h.memberBufferErrors_eq_nil hw hpool hbuffer, hstage⟩, hresidue⟩, hrepeat⟩, hmaps⟩,
        ih hrest⟩

theorem pipelineGroupErrors_eq_nil (hw : WellFormed first) {groups : List PyptoPipelineGroup}
    {seen : List (PoolId × Int32)} (hseen : ∀ key ∈ seen, key.1 ∈ first.pools.map Pool.id)
    (hfirst : pipelineGroupErrors first seen groups = []) :
    pipelineGroupErrors second (seen.map fun key => (σ key.1, key.2))
      (groups.map (renumberGroup σ)) = [] := by
  induction groups generalizing seen with
  | nil => rfl
  | cons group groups ih =>
      rw [pipelineGroupErrors] at hfirst
      rw [List.map_cons, pipelineGroupErrors]
      simp only [List.append_eq_nil_iff, errorIf_eq_nil] at hfirst ⊢
      obtain ⟨⟨⟨⟨⟨⟨⟨⟨hgroup, hnew⟩, hfind⟩, hslot⟩, hdepth⟩, heffective⟩, hempty⟩, hmembers⟩, hrest⟩ :=
        hfirst
      have hpool : group.pool ∈ first.pools.map Pool.id := by
        cases hpool : first.findPool group.pool with
        | none =>
            rw [hpool] at hfind
            cases hfind
        | some pool => exact List.mem_map.mpr ⟨pool, findPool_mem hpool, findPool_id hpool⟩
      refine ⟨⟨⟨⟨⟨⟨⟨⟨hgroup, ?_⟩, ?_⟩, hslot⟩, hdepth⟩, heffective⟩, hempty⟩,
        h.pipelineMemberErrors_eq_nil hw hpool hmembers⟩, ?_⟩
      · rw [List.contains_eq_mem, decide_eq_false_iff_not] at hnew ⊢
        intro hmem
        obtain ⟨key, hkey, heq⟩ := List.mem_map.mp hmem
        obtain ⟨hσ, hid⟩ := Prod.mk.inj heq
        apply hnew
        rwa [← h.injective (hseen key hkey) hpool hσ, ← show key.2 = group.group from hid]
      · rw [show (renumberGroup σ group).pool = σ group.pool from rfl,
          h.findPool hw.poolIds hpool, Option.isNone_map]
        exact hfind
      · have hseen' : ∀ key ∈ (group.pool, group.group) :: seen, key.1 ∈ first.pools.map Pool.id :=
          List.forall_mem_cons.mpr ⟨hpool, hseen⟩
        exact ih hseen' hrest

theorem pyptoErrors_eq_nil (hw : WellFormed first) (hfirst : pyptoErrors first = []) :
    pyptoErrors second = [] := by
  unfold pyptoErrors at hfirst ⊢
  rw [h.pyptoStructure]
  cases hpypto : first.pyptoStructure with
  | none => rfl
  | some pypto =>
      rw [hpypto] at hfirst
      rw [List.append_eq_nil_iff] at hfirst
      obtain ⟨halias, hgroups⟩ := hfirst
      refine List.append_eq_nil_iff.mpr ⟨?_, h.pipelineGroupErrors_eq_nil hw (by simp) hgroups⟩
      have hsame : ∀ (seen : List BufferId) (classes : List PyptoAliasClass),
          aliasClassErrors second seen classes = aliasClassErrors first seen classes := by
        intro seen classes
        induction classes generalizing seen with
        | nil => rfl
        | cons aliasClass classes ih =>
            rw [aliasClassErrors, aliasClassErrors, h.knownBuffer, ih]
      exact (hsame [] pypto.aliasClasses).trans halias

/-- A renumbered valid problem is valid. -/
theorem validateProblem_eq_nil (hvalid : validateProblem first = []) :
    validateProblem second = [] := by
  have hw := WellFormed.of_validateProblem hvalid
  obtain ⟨hpools, hne, hbuffers, hcolocations, hseparations, hexclusions, hpins, hpenalties, hpypto,
    hterms, hobjective⟩ := (validateProblem_eq_nil_iff first).mp hvalid
  refine (validateProblem_eq_nil_iff second).mpr ⟨?_, ?_, ?_, ?_, ?_, ?_, ?_, ?_,
    h.pyptoErrors_eq_nil hw hpypto, h.objective ▸ hterms, h.objective ▸ hobjective⟩
  · have hfirst := poolErrors_eq_nil_iff.mp hpools
    refine poolErrors_eq_nil_iff.mpr ⟨by simp, h.poolIds_nodup hfirst.2.1, fun pool hpool => ?_⟩
    obtain ⟨original, horiginal, rfl⟩ := h.exists_pool hpool
    exact hfirst.2.2 original horiginal
  · intro hnil
    have hperm := h.pools
    rw [hnil] at hperm
    exact hne (List.map_eq_nil_iff.mp hperm.nil_eq.symm)
  · exact h.bufferErrors_eq_nil h.buffers hbuffers
  · intro constraint hconstraint
    rw [h.colocations] at hconstraint
    have hfirst := hcolocations constraint hconstraint
    unfold colocationErrors at hfirst ⊢
    rwa [h.knownBuffer, h.knownBuffer]
  · intro constraint hconstraint
    rw [h.separations] at hconstraint
    have hkeys : colocatedKeys second = colocatedKeys first := by
      simp only [colocatedKeys, h.colocations, h.knownBuffer]
    have hfirst := hseparations constraint hconstraint
    unfold separationErrors at hfirst ⊢
    rwa [h.knownBuffer, h.knownBuffer, hkeys]
  · intro exclusion hexclusion
    rw [h.temporalExclusions] at hexclusion
    have hfirst := hexclusions exclusion hexclusion
    unfold temporalExclusionErrors at hfirst ⊢
    rwa [h.knownBuffer, h.knownBuffer]
  · rw [h.pinnedAllocations]
    exact h.pinnedErrors_eq_nil hw hpins
  · intro penalty hpenalty
    have hsame : second.reusePenalties = first.reusePenalties := by
      rw [DsaProblem.reusePenalties, DsaProblem.reusePenalties, h.costModel]
    rw [hsame] at hpenalty
    have hfirst := hpenalties penalty hpenalty
    unfold reusePenaltyErrors at hfirst ⊢
    rwa [h.knownBuffer, h.knownBuffer]

end sections

end Renumbered

end Dsa
