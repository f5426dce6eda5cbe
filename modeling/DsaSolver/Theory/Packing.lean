import Mathlib.Data.Finset.Card
import Mathlib.Order.Lattice.Nat
import Mathlib.Algebra.BigOperators.Group.Finset.Basic
import Mathlib.Algebra.Order.BigOperators.Group.Finset
import Mathlib.Tactic

/-! # Packings of a strip and their settled normal form

A `Packing` is a set of items, each with a size, an alignment, a limit and blocked ranges, and
a symmetric relation of pairs that must not share an address.  `exists_settled` is the normal
form: below every valid position vector lies a valid one, with no new overlap of a chosen
("soft") kind, in which every item rests on a support: zero, the end of a blocked range, or
the top of a lower hard or soft neighbour, rounded up to the item's alignment. -/

namespace Theory

/-- The half-open ranges `[a, a + s)` and `[b, b + t)` share no address. -/
def Apart (a s b t : ℕ) : Prop := a + s ≤ b ∨ b + t ≤ a

instance (a s b t : ℕ) : Decidable (Apart a s b t) := inferInstanceAs (Decidable (_ ∨ _))

theorem Apart.symm {a s b t : ℕ} (h : Apart a s b t) : Apart b t a s := Or.symm h

theorem apart_comm {a s b t : ℕ} : Apart a s b t ↔ Apart b t a s := or_comm

theorem not_apart_self {a s : ℕ} (hs : 0 < s) : ¬ Apart a s a s := by
  unfold Apart
  omega

/-- The least multiple of `alignment` at or above `value`. -/
def alignUp (value alignment : ℕ) : ℕ := value + (alignment - value % alignment) % alignment

theorem le_alignUp (value alignment : ℕ) : value ≤ alignUp value alignment := Nat.le_add_right _ _

theorem dvd_alignUp {alignment : ℕ} (h : 0 < alignment) (value : ℕ) :
    alignment ∣ alignUp value alignment := by
  unfold alignUp
  have hlt := Nat.mod_lt value h
  by_cases hz : value % alignment = 0
  · rw [hz, Nat.sub_zero, Nat.mod_self, Nat.add_zero]
    exact Nat.dvd_of_mod_eq_zero hz
  · rw [Nat.mod_eq_of_lt (by omega : alignment - value % alignment < alignment)]
    refine ⟨value / alignment + 1, ?_⟩
    have := Nat.div_add_mod value alignment
    rw [Nat.mul_add, Nat.mul_one]
    omega

theorem alignUp_le {value alignment m : ℕ} (hle : value ≤ m) (hm : alignment ∣ m) :
    alignUp value alignment ≤ m := by
  rcases Nat.eq_zero_or_pos alignment with rfl | h
  · simpa [alignUp] using hle
  · obtain ⟨k, rfl⟩ := hm
    unfold alignUp
    have hlt := Nat.mod_lt value h
    have hdm := Nat.div_add_mod value alignment
    by_cases hz : value % alignment = 0
    · rw [hz, Nat.sub_zero, Nat.mod_self]
      omega
    · rw [Nat.mod_eq_of_lt (by omega : alignment - value % alignment < alignment)]
      have hlt : value / alignment < k := by
        by_contra hge
        have := Nat.mul_le_mul_left alignment (not_lt.mp hge)
        omega
      have := Nat.mul_le_mul_left alignment (Nat.succ_le_of_lt hlt)
      rw [Nat.mul_succ] at this
      omega

theorem alignUp_eq_self {alignment m : ℕ} (hm : alignment ∣ m) : alignUp m alignment = m :=
  le_antisymm (alignUp_le le_rfl hm) (le_alignUp _ _)

/-- Items to place on a strip. -/
structure Packing (ι : Type*) where
  items : Finset ι
  size : ι → ℕ
  alignment : ι → ℕ
  /-- No item reaches beyond its limit. -/
  limit : ι → ℕ
  /-- Half-open ranges `[first, last)` the item must avoid. -/
  blocked : ι → List (ℕ × ℕ)
  hard : ι → ι → Prop
  sizePos : ∀ i ∈ items, 0 < size i
  alignmentPos : ∀ i ∈ items, 0 < alignment i
  hardSymm : ∀ i j, hard i j → hard j i

namespace Packing

variable {ι : Type*} (P : Packing ι)

/-- The item may start at `a`. -/
structure FitsAt (i : ι) (a : ℕ) : Prop where
  aligned : P.alignment i ∣ a
  within : a + P.size i ≤ P.limit i
  clear : ∀ r ∈ P.blocked i, a + P.size i ≤ r.1 ∨ r.2 ≤ a

/-- The items `i` and `j` share no address. -/
def ApartAt (q : ι → ℕ) (i j : ι) : Prop := Apart (q i) (P.size i) (q j) (P.size j)

instance (q : ι → ℕ) (i j : ι) : Decidable (P.ApartAt q i j) :=
  inferInstanceAs (Decidable (Apart _ _ _ _))

structure Valid (q : ι → ℕ) : Prop where
  fits : ∀ i ∈ P.items, P.FitsAt i (q i)
  apart : ∀ i ∈ P.items, ∀ j ∈ P.items, P.hard i j → P.ApartAt q i j

/-- A place the item `i` can rest on: zero, the end of a blocked range, or the top of a hard
or soft neighbour. -/
def IsSupport (soft : ι → ι → Prop) (q : ι → ℕ) (i : ι) (c : ℕ) : Prop :=
  c = 0 ∨ (∃ r ∈ P.blocked i, c = r.2) ∨
    ∃ j ∈ P.items, (P.hard i j ∨ soft i j) ∧ c = q j + P.size j

/-- The item rests on a support at or below it. -/
def Supported (soft : ι → ι → Prop) (q : ι → ℕ) (i : ι) : Prop :=
  ∃ c, P.IsSupport soft q i c ∧ q i = alignUp c (P.alignment i)

variable {P} {soft : ι → ι → Prop} {q : ι → ℕ}

theorem Valid.congr {q' : ι → ℕ} (h : P.Valid q) (he : ∀ i ∈ P.items, q' i = q i) : P.Valid q' where
  fits i hi := by
    rw [he i hi]
    exact h.fits i hi
  apart i hi j hj hij := by
    have := h.apart i hi j hj hij
    unfold ApartAt at this ⊢
    rwa [he i hi, he j hj]

/-- The highest support at or below the item. -/
theorem exists_top_support (soft : ι → ι → Prop) (q : ι → ℕ) (i : ι) :
    ∃ c, P.IsSupport soft q i c ∧ c ≤ q i ∧ ∀ c', P.IsSupport soft q i c' → c' ≤ q i → c' ≤ c := by
  have hne : {c | P.IsSupport soft q i c ∧ c ≤ q i}.Nonempty := ⟨0, .inl rfl, Nat.zero_le _⟩
  have hbdd : BddAbove {c | P.IsSupport soft q i c ∧ c ≤ q i} := ⟨q i, fun c hc => hc.2⟩
  obtain ⟨hs, hle⟩ := Nat.sSup_mem hne hbdd
  exact ⟨_, hs, hle, fun c' hs' hle' => le_csSup hbdd ⟨hs', hle'⟩⟩

variable [DecidableEq ι]

theorem apartAt_update_of_ne {i j k : ι} (hj : j ≠ i) (hk : k ≠ i) (a : ℕ) :
    P.ApartAt (Function.update q i a) j k ↔ P.ApartAt q j k := by
  unfold ApartAt
  rw [Function.update_of_ne hj, Function.update_of_ne hk]

/-- Lowering `i` to a position at or above every support below it keeps it apart from a
neighbour. -/
theorem apartAt_lower {i j : ι} {a : ℕ} (ha : a ≤ q i)
    (htop : ∀ c, P.IsSupport soft q i c → c ≤ q i → c ≤ a) (hj : j ∈ P.items)
    (hij : P.hard i j ∨ soft i j) (hne : j ≠ i) (h : P.ApartAt q i j) :
    P.ApartAt (Function.update q i a) i j := by
  unfold ApartAt Apart at h ⊢
  rw [Function.update_self, Function.update_of_ne hne]
  rcases h with h | h
  · exact .inl (by omega)
  · exact .inr (htop _ (.inr (.inr ⟨j, hj, hij, rfl⟩)) h)

/-- An item without a support can be lowered. -/
theorem Valid.exists_lower (h : P.Valid q) (hsoft : ∀ i j, soft i j → soft j i) {i : ι}
    (hi : i ∈ P.items) (hun : ¬ P.Supported soft q i) :
    ∃ a < q i, P.Valid (Function.update q i a) ∧
      ∀ j ∈ P.items, ∀ k ∈ P.items, soft j k → P.ApartAt q j k →
        P.ApartAt (Function.update q i a) j k := by
  obtain ⟨c, hc, hcle, hmax⟩ := exists_top_support (P := P) soft q i
  have hle : alignUp c (P.alignment i) ≤ q i := alignUp_le hcle (h.fits i hi).aligned
  have hlt : alignUp c (P.alignment i) < q i :=
    lt_of_le_of_ne hle fun e => hun ⟨c, hc, e.symm⟩
  have htop : ∀ c', P.IsSupport soft q i c' → c' ≤ q i → c' ≤ alignUp c (P.alignment i) :=
    fun c' h1 h2 => (hmax c' h1 h2).trans (le_alignUp _ _)
  have key : ∀ j ∈ P.items, ∀ k ∈ P.items, (P.hard j k ∨ soft j k) → P.ApartAt q j k →
      P.ApartAt (Function.update q i (alignUp c (P.alignment i))) j k := by
    intro j hj k hk hjk hap
    by_cases hji : j = i
    · subst hji
      have hkj : k ≠ j := by
        rintro rfl
        exact not_apart_self (P.sizePos k hk) hap
      exact apartAt_lower hle htop hk hjk hkj hap
    · by_cases hki : k = i
      · subst hki
        have hkj : P.hard k j ∨ soft k j := hjk.imp (P.hardSymm j k) (hsoft j k)
        exact (apartAt_lower hle htop hj hkj hji hap.symm).symm
      · exact (apartAt_update_of_ne hji hki _).mpr hap
  refine ⟨_, hlt, ⟨fun j hj => ?_, fun j hj k hk hjk => ?_⟩, fun j hj k hk hjk => ?_⟩
  · by_cases hji : j = i
    · subst hji
      rw [Function.update_self]
      refine ⟨dvd_alignUp (P.alignmentPos j hj) c, ?_, fun r hr => ?_⟩
      · have := (h.fits j hj).within
        omega
      · rcases (h.fits j hj).clear r hr with hr' | hr'
        · exact .inl (by omega)
        · exact .inr (htop _ (.inr (.inl ⟨r, hr, rfl⟩)) hr')
    · rw [Function.update_of_ne hji]
      exact h.fits j hj
  · exact key j hj k hk (.inl hjk) (h.apart j hj k hk hjk)
  · exact key j hj k hk (.inr hjk)

/-- **The settled normal form.**  Below every valid position vector lies a valid one in which
every item is supported and no soft pair overlaps that did not overlap before. -/
theorem Valid.exists_settled (h : P.Valid q) (hsoft : ∀ i j, soft i j → soft j i) :
    ∃ q', P.Valid q' ∧ (∀ i, q' i ≤ q i) ∧ (∀ i ∈ P.items, P.Supported soft q' i) ∧
      ∀ i ∈ P.items, ∀ j ∈ P.items, soft i j → P.ApartAt q i j → P.ApartAt q' i j := by
  -- the total height decreases with every lowering
  induction hn : ∑ i ∈ P.items, q i using Nat.strong_induction_on generalizing q with
  | _ n ih =>
      by_cases hall : ∀ i ∈ P.items, P.Supported soft q i
      · exact ⟨q, h, fun _ => le_rfl, hall, fun _ _ _ _ _ hap => hap⟩
      · push Not at hall
        obtain ⟨i, hi, hun⟩ := hall
        obtain ⟨a, hlt, hvalid, hkeep⟩ := h.exists_lower hsoft hi hun
        have hupd : ∀ j, Function.update q i a j ≤ q j := by
          intro j
          by_cases hji : j = i
          · subst hji
            rw [Function.update_self]
            exact hlt.le
          · rw [Function.update_of_ne hji]
        have hsum : ∑ j ∈ P.items, Function.update q i a j < n := by
          rw [← hn]
          refine Finset.sum_lt_sum (fun j _ => hupd j) ⟨i, hi, ?_⟩
          rwa [Function.update_self]
        obtain ⟨q', hvalid', hle, hsup, hkeep'⟩ := ih _ hsum hvalid rfl
        exact ⟨q', hvalid', fun j => (hle j).trans (hupd j), hsup, fun j hj k hk hjk hap =>
          hkeep' j hj k hk hjk (hkeep j hj k hk hjk hap)⟩

end Packing

end Theory
