import DsaSolver.Supports
import Mathlib.Logic.Relation
import Mathlib.Order.Bounds.Basic

/-! # Skipping the reserved ranges of a pool

`cypress_relaxation_solver.cpp`: `AvoidReservedRanges` moves an offset behind the first reserved
range it meets until it meets none.  Without overflow each move passes no free offset
(`Climb.skips`), so the loop ends at the least free one.  A range that would end past `2 ^ 64`
counts as an overlap with whatever range is listed first, and the loop starts again behind that
range: `avoidReservedRanges_exact_iff` says when the result is still right. -/

namespace Dsa

namespace Cypress

/-- `AlignUp`. -/
def alignUp (value alignment : UInt64) : Option UInt64 :=
  let remainder := value % alignment
  if remainder == 0 then some value
  else
    let increment := alignment - remainder
    if addOverflows value increment then none else some (value + increment)

/-- `RangesOverlap`; a range that overflows overlaps everything. -/
def rangesOverlap (firstOffset firstSize secondOffset secondSize : UInt64) : Bool :=
  if addOverflows firstOffset firstSize || addOverflows secondOffset secondSize then true
  else decide (firstOffset < secondOffset + secondSize) &&
    decide (secondOffset < firstOffset + firstSize)

/-- `AvoidReservedRanges`, at most `fuel` passes of its loop; `none` when they do not suffice. -/
def avoidReservedRanges (pool : Pool) (size alignment : UInt64) :
    ℕ → UInt64 → Option (Option UInt64)
  | 0, _ => none
  | fuel + 1, offset =>
      match pool.reservedRanges.find? fun reserved =>
          rangesOverlap offset size reserved.first (reserved.last - reserved.first) with
      | none => some (some offset)
      | some reserved =>
          match alignUp reserved.last alignment with
          | none => some none
          | some next => avoidReservedRanges pool size alignment fuel next

section skip

variable (pool : Pool) (size alignment : UInt64)

/-- The loop ends with the result. -/
def Returns (start : UInt64) (result : Option UInt64) : Prop :=
  ∃ fuel, avoidReservedRanges pool size alignment fuel start = some result

/-- The buffer fits at `offset`: below `2 ^ 64` and outside the reserved ranges. -/
structure IsFree (offset : ℕ) : Prop where
  aligned : alignment.toNat ∣ offset
  representable : offset + size.toNat < 2 ^ 64
  clear : ∀ range ∈ pool.reservedRanges,
    offset + size.toNat ≤ range.first.toNat ∨ range.last.toNat ≤ offset

/-- The result is the least free offset from `start` on, if there is one. -/
def IsExact (start : UInt64) : Option UInt64 → Prop
  | some offset => IsLeast {m | start.toNat ≤ m ∧ IsFree pool size alignment m} offset.toNat
  | none => ∀ m, start.toNat ≤ m → ¬IsFree pool size alignment m

/-- The first reserved range that the buffer meets at `offset`, without overflow. -/
def meets (offset : ℕ) : Option AddressRange :=
  pool.reservedRanges.find? fun range =>
    decide (range.first.toNat < offset + size.toNat ∧ offset < range.last.toNat)

/-- One move behind a reserved range, without overflow. -/
def Moves (offset next : ℕ) : Prop :=
  ∃ range, meets pool size offset = some range ∧
    next = Theory.alignUp range.last.toNat alignment.toNat

/-- Moves behind reserved ranges. -/
def Climb : ℕ → ℕ → Prop := Relation.ReflTransGen (Moves pool size alignment)

/-- The climb comes to an offset below `2 ^ 64` at which the buffer does not end below it. -/
def Strays (start : ℕ) : Prop :=
  ∃ offset, Climb pool size alignment start offset ∧ offset < 2 ^ 64 ∧
    2 ^ 64 ≤ offset + size.toNat

variable {pool : Pool} {size alignment : UInt64}

/-! ### One pass -/

theorem alignUp_eq_some_iff (halignment : alignment ≠ 0) {value result : UInt64} :
    alignUp value alignment = some result ↔
      result.toNat = Theory.alignUp value.toNat alignment.toNat := by
  have hsame : alignUp value alignment = Dsa.alignUp value alignment := by
    unfold Dsa.alignUp
    split_ifs with hone
    · have hle : alignment.toNat ≤ 1 := UInt64.le_iff_toNat_le.mp hone
      have hpos := toNat_ne_zero halignment
      have hvalue : alignment = 1 := UInt64.toNat_inj.mp (by rw [UInt64.toNat_one]; omega)
      unfold alignUp
      dsimp only
      rw [if_pos]
      rw [beq_iff_eq, ← UInt64.toNat_inj, UInt64.toNat_mod, hvalue, UInt64.toNat_one, Nat.mod_one,
        UInt64.toNat_zero]
    · rfl
  rw [hsame, Dsa.alignUp_eq_some_iff]

theorem alignUp_eq_none_iff (halignment : alignment ≠ 0) {value : UInt64} :
    alignUp value alignment = none ↔ 2 ^ 64 ≤ Theory.alignUp value.toNat alignment.toNat := by
  constructor
  · intro hnone
    by_contra hlt
    rw [not_le] at hlt
    have hsome : alignUp value alignment =
        some (UInt64.ofNat (Theory.alignUp value.toNat alignment.toNat)) := by
      apply (alignUp_eq_some_iff halignment).mpr
      rw [UInt64.toNat_ofNat', Nat.mod_eq_of_lt hlt]
    rw [hnone] at hsome
    cases hsome
  · intro hle
    cases hup : alignUp value alignment with
    | none => rfl
    | some result =>
        have hresult := (alignUp_eq_some_iff halignment).mp hup
        have := result.toNat_lt
        omega

/-- A range of the pool is not empty. -/
def NonEmptyRanges (pool : Pool) : Prop :=
  ∀ range ∈ pool.reservedRanges, range.first < range.last

theorem rangesOverlap_iff {range : AddressRange} (hrange : range.first < range.last)
    {offset : UInt64} : rangesOverlap offset size range.first (range.last - range.first) = true ↔
      2 ^ 64 ≤ offset.toNat + size.toNat ∨
        range.first.toNat < offset.toNat + size.toNat ∧ offset.toNat < range.last.toNat := by
  rw [UInt64.lt_iff_toNat_lt] at hrange
  have hlast := range.last.toNat_lt
  have hwidth : (range.last - range.first).toNat = range.last.toNat - range.first.toNat :=
    UInt64.toNat_sub_of_le _ _ (UInt64.le_iff_toNat_le.mpr hrange.le)
  have hsecond : addOverflows range.first (range.last - range.first) = false := by
    rw [Theory.addOverflows_eq_false_iff, hwidth]
    omega
  unfold rangesOverlap
  rw [hsecond, Bool.or_false]
  by_cases hover : addOverflows offset size = true
  · rw [if_pos hover]
    rw [Theory.addOverflows_iff] at hover
    simp only [true_iff]
    omega
  · rw [if_neg hover]
    rw [Bool.not_eq_true, Theory.addOverflows_eq_false_iff] at hover
    rw [Bool.and_eq_true, decide_eq_true_iff, decide_eq_true_iff, UInt64.lt_iff_toNat_lt,
      UInt64.lt_iff_toNat_lt, Theory.toNat_add_of_lt hover, Theory.toNat_add_of_lt (by omega),
      hwidth]
    omega

/-- While the buffer ends below `2 ^ 64`, a pass looks for the range it meets. -/
theorem find_eq_meets (hranges : NonEmptyRanges pool) {offset : UInt64}
    (hoffset : offset.toNat + size.toNat < 2 ^ 64) :
    (pool.reservedRanges.find? fun reserved =>
      rangesOverlap offset size reserved.first (reserved.last - reserved.first)) =
      meets pool size offset.toNat := by
  unfold meets
  apply List.find?_congr
  intro range hmem
  rw [Bool.eq_iff_iff, rangesOverlap_iff (hranges range hmem), decide_eq_true_iff]
  omega

/-- Otherwise it finds the first range listed. -/
theorem find_eq_head (hranges : NonEmptyRanges pool) {offset : UInt64}
    (hoffset : 2 ^ 64 ≤ offset.toNat + size.toNat) :
    (pool.reservedRanges.find? fun reserved =>
      rangesOverlap offset size reserved.first (reserved.last - reserved.first)) =
      pool.reservedRanges.head? := by
  cases hl : pool.reservedRanges with
  | nil => rfl
  | cons range rest =>
      rw [List.find?_cons_of_pos, List.head?_cons]
      apply (rangesOverlap_iff (hranges range (by rw [hl]; exact List.mem_cons_self))).mpr
      exact .inl hoffset

/-! ### Moves -/

/-- A move goes up, and past no free offset. -/
theorem Moves.skips {offset next : ℕ} (h : Moves pool size alignment offset next) :
    offset < next ∧ ∀ m, offset ≤ m → m < next → ¬IsFree pool size alignment m := by
  obtain ⟨range, hmeets, rfl⟩ := h
  have hmem := List.mem_of_find?_eq_some hmeets
  have hmeet := List.find?_some hmeets
  rw [decide_eq_true_iff] at hmeet
  have hle := Theory.le_alignUp range.last.toNat alignment.toNat
  refine ⟨by omega, fun m hm hlt hfree => ?_⟩
  obtain hbelow | habove := hfree.clear range hmem
  · omega
  · have := Theory.alignUp_le habove hfree.aligned
    omega

theorem Moves.unique {offset first second : ℕ} (h : Moves pool size alignment offset first)
    (h' : Moves pool size alignment offset second) : first = second := by
  obtain ⟨range, hmeets, rfl⟩ := h
  obtain ⟨other, hmeets', rfl⟩ := h'
  rw [hmeets] at hmeets'
  rw [Option.some.inj hmeets']

theorem Climb.skips {offset last : ℕ} (h : Climb pool size alignment offset last) :
    offset ≤ last ∧ ∀ m, offset ≤ m → m < last → ¬IsFree pool size alignment m := by
  induction h with
  | refl => exact ⟨le_rfl, fun m hm hlt => absurd hm (not_le.mpr hlt)⟩
  | @tail middle next _ hmove ih =>
      obtain ⟨hlt, hskip⟩ := hmove.skips
      refine ⟨ih.1.trans hlt.le, fun m hm hlast => ?_⟩
      by_cases hbefore : m < middle
      · exact ih.2 m hm hbefore
      · exact hskip m (not_lt.mp hbefore) hlast

/-- The result from a later offset is the result from an earlier one, when no free offset lies
between them. -/
theorem IsExact.of_skips {offset next : UInt64} {result : Option UInt64}
    (hle : offset.toNat ≤ next.toNat)
    (hskip : ∀ m, offset.toNat ≤ m → m < next.toNat → ¬IsFree pool size alignment m) :
    IsExact pool size alignment next result → IsExact pool size alignment offset result := by
  have hiff : ∀ m, IsFree pool size alignment m → offset.toNat ≤ m → next.toNat ≤ m := by
    intro m hfree hm
    by_contra hlt
    exact hskip m hm (not_le.mp hlt) hfree
  cases result with
  | none => exact fun h m hm hfree => h m (hiff m hfree hm) hfree
  | some least =>
      rintro ⟨⟨hstart, hfree⟩, hleast⟩
      exact ⟨⟨hle.trans hstart, hfree⟩, fun m hm => hleast ⟨hiff m hm.2 hm.1, hm.2⟩⟩

/-! ### The loop -/

theorem avoidReservedRanges_mono {fuel : ℕ} {offset : UInt64} {result : Option UInt64}
    (h : avoidReservedRanges pool size alignment fuel offset = some result) :
    avoidReservedRanges pool size alignment (fuel + 1) offset = some result := by
  induction fuel generalizing offset with
  | zero => cases h
  | succ fuel ih =>
      unfold avoidReservedRanges at h ⊢
      split at h
      · exact h
      · split at h
        · exact h
        · exact ih h

theorem Returns.unique {offset : UInt64} {first second : Option UInt64}
    (h : Returns pool size alignment offset first)
    (h' : Returns pool size alignment offset second) : first = second := by
  have hle : ∀ fuel extra result, avoidReservedRanges pool size alignment fuel offset =
      some result → avoidReservedRanges pool size alignment (fuel + extra) offset =
        some result := by
    intro fuel extra result hfuel
    induction extra with
    | zero => exact hfuel
    | succ extra ih => exact avoidReservedRanges_mono ih
  obtain ⟨fuel, hfuel⟩ := h
  obtain ⟨fuel', hfuel'⟩ := h'
  have h1 := hle fuel fuel' first hfuel
  rw [Nat.add_comm, hle fuel' fuel second hfuel'] at h1
  exact (Option.some.inj h1).symm

/-- A climb that does not stray ends at the exact result. -/
theorem returns_of_not_strays (hranges : NonEmptyRanges pool) (halignment : alignment ≠ 0)
    {offset : UInt64} (haligned : alignment.toNat ∣ offset.toNat)
    (h : ¬Strays pool size alignment offset.toNat) :
    ∃ result, Returns pool size alignment offset result ∧
      IsExact pool size alignment offset result := by
  induction hleft : 2 ^ 64 - offset.toNat using Nat.strong_induction_on generalizing offset with
  | _ left ih =>
      have hlt := offset.toNat_lt
      have hfits : offset.toNat + size.toNat < 2 ^ 64 := by
        by_contra hover
        exact h ⟨offset.toNat, .refl, hlt, not_lt.mp hover⟩
      cases hmeets : meets pool size offset.toNat with
      | none =>
          refine ⟨some offset, ⟨1, ?_⟩, ⟨le_rfl, haligned, hfits, fun range hmem => ?_⟩,
            fun m hm => hm.1⟩
          · unfold avoidReservedRanges
            rw [find_eq_meets hranges hfits, hmeets]
          · have := List.find?_eq_none.mp hmeets range hmem
            rw [decide_eq_true_iff] at this
            omega
      | some range =>
          have hmove : Moves pool size alignment offset.toNat
            (Theory.alignUp range.last.toNat alignment.toNat) := ⟨range, hmeets, rfl⟩
          obtain ⟨hup, hskip⟩ := hmove.skips
          cases hnext : alignUp range.last alignment with
          | none =>
              rw [alignUp_eq_none_iff halignment] at hnext
              refine ⟨none, ⟨1, ?_⟩, fun m hm hfree => ?_⟩
              · unfold avoidReservedRanges
                rw [find_eq_meets hranges hfits, hmeets]
                dsimp only
                rw [(alignUp_eq_none_iff halignment).mpr hnext]
              · have hrepresentable := hfree.representable
                exact hskip m hm (by omega) hfree
          | some next =>
              have hvalue := (alignUp_eq_some_iff halignment).mp hnext
              rw [← hvalue] at hmove hup hskip
              have hpos : 0 < alignment.toNat := Nat.pos_of_ne_zero (toNat_ne_zero halignment)
              have hdvd : alignment.toNat ∣ next.toNat := by
                rw [hvalue]
                exact Theory.dvd_alignUp hpos _
              have hstray : ¬Strays pool size alignment next.toNat := by
                rintro ⟨last, hclimb, hlast⟩
                exact h ⟨last, .head hmove hclimb, hlast⟩
              obtain ⟨result, ⟨fuel, hfuel⟩, hexact⟩ := ih _ (by omega) hdvd hstray rfl
              refine ⟨result, ⟨fuel + 1, ?_⟩, hexact.of_skips hup.le hskip⟩
              unfold avoidReservedRanges
              rw [find_eq_meets hranges hfits, hmeets]
              dsimp only
              rw [hnext]
              exact hfuel

/-- What is left of a run once the first range listed counts as an overlap. -/
def Restarts (pool : Pool) (size alignment : UInt64) (fuel : ℕ) (result : Option UInt64) : Prop :=
  (pool.reservedRanges = [] ∧ ∃ last, result = some last) ∨
    ∃ range, pool.reservedRanges.head? = some range ∧
      ((alignUp range.last alignment = none ∧ result = none) ∨
        ∃ next fuel', alignUp range.last alignment = some next ∧ fuel' < fuel ∧
          avoidReservedRanges pool size alignment fuel' next = some result)

theorem Restarts.succ {fuel : ℕ} {result : Option UInt64}
    (h : Restarts pool size alignment fuel result) :
    Restarts pool size alignment (fuel + 1) result := by
  obtain hempty | ⟨range, hrange, hnone | ⟨next, fuel', hnext, hless, hrun⟩⟩ := h
  · exact .inl hempty
  · exact .inr ⟨range, hrange, .inl hnone⟩
  · exact .inr ⟨range, hrange, .inr ⟨next, fuel', hnext, by omega, hrun⟩⟩

theorem restarts_of_overflow (hranges : NonEmptyRanges pool) {offset : UInt64}
    (hover : 2 ^ 64 ≤ offset.toNat + size.toNat) {fuel : ℕ} {result : Option UInt64}
    (hrun : avoidReservedRanges pool size alignment (fuel + 1) offset = some result) :
    Restarts pool size alignment (fuel + 1) result := by
  unfold avoidReservedRanges at hrun
  rw [find_eq_head hranges hover] at hrun
  cases hhead : pool.reservedRanges.head? with
  | none =>
      rw [hhead] at hrun
      exact .inl ⟨List.head?_eq_none_iff.mp hhead, offset, (Option.some.inj hrun).symm⟩
  | some range =>
      rw [hhead] at hrun
      dsimp only at hrun
      refine .inr ⟨range, hhead, ?_⟩
      cases hnext : alignUp range.last alignment with
      | none =>
          rw [hnext] at hrun
          exact .inl ⟨rfl, (Option.some.inj hrun).symm⟩
      | some next =>
          rw [hnext] at hrun
          exact .inr ⟨next, fuel, rfl, Nat.lt_succ_self fuel, hrun⟩

/-- From a climb that strays, a run comes to the first range listed. -/
theorem restarts_of_strays (hranges : NonEmptyRanges pool) (halignment : alignment ≠ 0)
    {offset : UInt64} (h : Strays pool size alignment offset.toNat) {fuel : ℕ}
    {result : Option UInt64}
    (hrun : avoidReservedRanges pool size alignment fuel offset = some result) :
    Restarts pool size alignment fuel result := by
  obtain ⟨last, hclimb, hlt, hover⟩ := h
  generalize hstart : offset.toNat = start at hclimb
  induction hclimb using Relation.ReflTransGen.head_induction_on generalizing offset fuel with
  | refl =>
      cases fuel with
      | zero => cases hrun
      | succ fuel => exact restarts_of_overflow hranges (by omega) hrun
  | head hmove hrest ih =>
      subst hstart
      cases fuel with
      | zero => cases hrun
      | succ fuel =>
          by_cases hfits : offset.toNat + size.toNat < 2 ^ 64
          · obtain ⟨range, hmeets, hvalue⟩ := hmove
            obtain ⟨hle, -⟩ := Climb.skips hrest
            unfold avoidReservedRanges at hrun
            rw [find_eq_meets hranges hfits, hmeets] at hrun
            dsimp only at hrun
            cases hnext : alignUp range.last alignment with
            | none =>
                have := (alignUp_eq_none_iff halignment).mp hnext
                omega
            | some next =>
                rw [hnext] at hrun
                have hsame := (alignUp_eq_some_iff halignment).mp hnext
                exact (ih hrun (hsame.trans hvalue.symm)).succ
          · exact restarts_of_overflow hranges (not_lt.mp hfits) hrun

theorem returns_of_overflow (hranges : NonEmptyRanges pool) {offset : UInt64}
    (hover : 2 ^ 64 ≤ offset.toNat + size.toNat) {range : AddressRange}
    (hhead : pool.reservedRanges.head? = some range) :
    (alignUp range.last alignment = none → Returns pool size alignment offset none) ∧
      ∀ next result, alignUp range.last alignment = some next →
        Returns pool size alignment next result → Returns pool size alignment offset result := by
  constructor
  · intro hnext
    refine ⟨1, ?_⟩
    unfold avoidReservedRanges
    rw [find_eq_head hranges hover, hhead]
    dsimp only
    rw [hnext]
  · rintro next result hnext ⟨fuel, hfuel⟩
    refine ⟨fuel + 1, ?_⟩
    unfold avoidReservedRanges
    rw [find_eq_head hranges hover, hhead]
    dsimp only
    rw [hnext]
    exact hfuel

theorem returns_of_strays (hranges : NonEmptyRanges pool) (halignment : alignment ≠ 0)
    {offset : UInt64} (h : Strays pool size alignment offset.toNat) {range : AddressRange}
    (hhead : pool.reservedRanges.head? = some range) :
    (alignUp range.last alignment = none → Returns pool size alignment offset none) ∧
      ∀ next result, alignUp range.last alignment = some next →
        Returns pool size alignment next result → Returns pool size alignment offset result := by
  obtain ⟨last, hclimb, hlt, hover⟩ := h
  generalize hstart : offset.toNat = start at hclimb
  induction hclimb using Relation.ReflTransGen.head_induction_on generalizing offset with
  | refl => exact returns_of_overflow hranges (by omega) hhead
  | head hmove hrest ih =>
      subst hstart
      by_cases hfits : offset.toNat + size.toNat < 2 ^ 64
      · obtain ⟨met, hmeets, hvalue⟩ := hmove
        obtain ⟨hle, -⟩ := Climb.skips hrest
        have hpass : ∃ after, alignUp met.last alignment = some after ∧
            ∀ result, Returns pool size alignment after result →
              Returns pool size alignment offset result := by
          cases hafter : alignUp met.last alignment with
          | none =>
              have := (alignUp_eq_none_iff halignment).mp hafter
              omega
          | some after =>
              refine ⟨after, rfl, fun result => ?_⟩
              rintro ⟨fuel, hfuel⟩
              refine ⟨fuel + 1, ?_⟩
              unfold avoidReservedRanges
              rw [find_eq_meets hranges hfits, hmeets]
              dsimp only
              rw [hafter]
              exact hfuel
        obtain ⟨after, hafter, hback⟩ := hpass
        have hsame := (alignUp_eq_some_iff halignment).mp hafter
        obtain ⟨hnone, hsome⟩ := ih (hsame.trans hvalue.symm)
        exact ⟨fun hnext => hback _ (hnone hnext),
          fun next result hnext hreturns => hback _ (hsome next result hnext hreturns)⟩
      · exact returns_of_overflow hranges (not_lt.mp hfits) hhead

/-- Behind the first range listed a climb neither strays nor finds a free offset. -/
def Recovers (pool : Pool) (size alignment : UInt64) : Prop :=
  ∃ range, pool.reservedRanges.head? = some range ∧
    ∀ next, alignUp range.last alignment = some next →
      ¬Strays pool size alignment next.toNat ∧
        ∀ m, next.toNat ≤ m → ¬IsFree pool size alignment m

/-- Where a climb strays no offset is free. -/
theorem Strays.not_free {start : ℕ} (h : Strays pool size alignment start) (m : ℕ)
    (hm : start ≤ m) : ¬IsFree pool size alignment m := by
  obtain ⟨last, hclimb, -, hover⟩ := h
  intro hfree
  have := hfree.representable
  exact (Climb.skips hclimb).2 m hm (by omega) hfree

/-- A loop that strays from behind the first range listed never ends. -/
theorem not_returns_of_strays (hranges : NonEmptyRanges pool) (halignment : alignment ≠ 0)
    {range : AddressRange} (hhead : pool.reservedRanges.head? = some range) {next : UInt64}
    (hnext : alignUp range.last alignment = some next)
    (h : Strays pool size alignment next.toNat) (result : Option UInt64) :
    ¬Returns pool size alignment next result := by
  rintro ⟨fuel, hfuel⟩
  induction fuel using Nat.strong_induction_on with
  | _ fuel ih =>
      obtain ⟨hempty, -⟩ | ⟨range', hhead', ⟨hnone, -⟩ | ⟨next', fuel', hnext', hless, hrun⟩⟩ :=
        restarts_of_strays hranges halignment h hfuel
      · rw [hempty] at hhead
        cases hhead
      · rw [hhead] at hhead'
        obtain rfl := Option.some.inj hhead'
        rw [hnext] at hnone
        cases hnone
      · rw [hhead] at hhead'
        obtain rfl := Option.some.inj hhead'
        rw [hnext] at hnext'
        obtain rfl := Option.some.inj hnext'
        exact ih fuel' hless hrun

/-- **When `AvoidReservedRanges` is exact.**  From an aligned offset the loop ends with the least
free offset, or with nothing when there is none, exactly when moving behind the reserved ranges
does not stray past the end of the address space, or recovers behind the first range listed. -/
theorem avoidReservedRanges_exact_iff (hranges : NonEmptyRanges pool) (halignment : alignment ≠ 0)
    {start : UInt64} (haligned : alignment.toNat ∣ start.toNat) :
    (∃ result, Returns pool size alignment start result ∧
      IsExact pool size alignment start result) ↔
      ¬Strays pool size alignment start.toNat ∨ Recovers pool size alignment := by
  have hpos : 0 < alignment.toNat := Nat.pos_of_ne_zero (toNat_ne_zero halignment)
  have hbehind : ∀ {range : AddressRange} {next}, alignUp range.last alignment = some next →
      alignment.toNat ∣ next.toNat := by
    intro range next hnext
    rw [(alignUp_eq_some_iff halignment).mp hnext]
    exact Theory.dvd_alignUp hpos _
  constructor
  · rintro ⟨result, hreturns, hexact⟩
    refine or_iff_not_imp_left.mpr fun hstray => ?_
    rw [not_not] at hstray
    have hnone : result = none := by
      cases result with
      | none => rfl
      | some offset => exact absurd hexact.1.2 (hstray.not_free _ hexact.1.1)
    subst hnone
    obtain ⟨fuel, hfuel⟩ := hreturns
    obtain ⟨-, last, hlast⟩ | ⟨range, hhead, ⟨hup, -⟩ | ⟨next, fuel', hnext, -, hrun⟩⟩ :=
      restarts_of_strays hranges halignment hstray hfuel
    · cases hlast
    · refine ⟨range, hhead, fun next hnext => ?_⟩
      rw [hup] at hnext
      cases hnext
    · have hstays : ¬Strays pool size alignment next.toNat := fun hstray' =>
        not_returns_of_strays hranges halignment hhead hnext hstray' none ⟨fuel', hrun⟩
      refine ⟨range, hhead, fun next' hnext' => ?_⟩
      rw [hnext] at hnext'
      obtain rfl := Option.some.inj hnext'
      obtain ⟨result, hreturns, hexact'⟩ :=
        returns_of_not_strays hranges halignment (hbehind hnext) hstays
      rw [hreturns.unique ⟨fuel', hrun⟩] at hexact'
      exact ⟨hstays, hexact'⟩
  · intro hcondition
    by_cases hstray : Strays pool size alignment start.toNat
    · obtain ⟨range, hhead, hrecovers⟩ := hcondition.resolve_left (not_not.mpr hstray)
      obtain ⟨hnone, hsome⟩ := returns_of_strays hranges halignment hstray hhead
      refine ⟨none, ?_, hstray.not_free⟩
      cases hnext : alignUp range.last alignment with
      | none => exact hnone hnext
      | some next =>
          obtain ⟨hstays, hfull⟩ := hrecovers next hnext
          obtain ⟨result, hreturns, hexact⟩ :=
            returns_of_not_strays hranges halignment (hbehind hnext) hstays
          cases result with
          | none => exact hsome next none hnext hreturns
          | some offset => exact absurd hexact.1.2 (hfull _ hexact.1.1)
    · exact returns_of_not_strays hranges halignment haligned hstray

/-- A pool that reserves its first 16 addresses. -/
def lowReserved : Pool where
  reservedRanges := [⟨0, 16⟩]

/-- Behind the range at 16 the buffer fits. -/
theorem avoidReservedRanges_exact_lowReserved :
    ∃ result, Returns lowReserved 8 8 0 result ∧ IsExact lowReserved 8 8 0 result := by
  have hranges : NonEmptyRanges lowReserved := by
    unfold NonEmptyRanges
    decide
  refine (avoidReservedRanges_exact_iff hranges (by decide) (by decide)).mpr (.inl ?_)
  -- the climb from 0 ends at 16
  rintro ⟨last, hclimb, -, hover⟩
  have hmoves : ∀ next, Moves lowReserved 8 8 0 next → next = 16 := by
    rintro next ⟨range, hrange, rfl⟩
    obtain rfl : (⟨0, 16⟩ : AddressRange) = range := Option.some.inj hrange
    decide +kernel
  have hstop : ∀ next, ¬Moves lowReserved 8 8 16 next := by
    rintro next ⟨range, hrange, -⟩
    have hnone : meets lowReserved 8 16 = none := by decide +kernel
    rw [hnone] at hrange
    cases hrange
  have hlast : last = 0 ∨ last = 16 := by
    clear hover
    induction hclimb with
    | refl => exact .inl rfl
    | tail _ hmove ih =>
        obtain rfl | rfl := ih
        · exact .inr (hmoves _ hmove)
        · exact absurd hmove (hstop _)
  obtain rfl | rfl := hlast
  · exact absurd hover (by decide)
  · exact absurd hover (by decide)

/-- A buffer that would end past the last address is moved down behind the range. -/
theorem avoidReservedRanges_backwards :
    ¬∃ result, Returns lowReserved 8 8 18446744073709551608 result ∧
      IsExact lowReserved 8 8 18446744073709551608 result := by
  rintro ⟨result, hreturns, hexact⟩
  have hrun : Returns lowReserved 8 8 18446744073709551608 (some 16) := ⟨2, by decide +kernel⟩
  rw [hreturns.unique hrun] at hexact
  exact absurd hexact.1.1 (by decide)

end skip

end Cypress

end Dsa
