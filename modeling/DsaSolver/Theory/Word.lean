import Mathlib.Algebra.Order.Monoid.Canonical.Defs
import Mathlib.Algebra.BigOperators.Group.List.Basic
import Mathlib.Order.Lattice.Nat
import Mathlib.Tactic

/-! # Machine words: order and saturating addition

`UInt64` and `UInt32` are linear orders (by their values), `addOverflows a b` is the overflow
test `a > max - b`, and `Sat` is the type of words under saturating addition, an ordered
commutative monoid in which `0` is least.  `Sat.toNat_sum` reads a saturating sum off the
exact sum: it is the exact sum, cut at the largest word. -/

namespace Theory

instance linearOrderUInt64 : LinearOrder UInt64 where
  toOrd := inferInstance
  toMin := inferInstance
  toMax := inferInstance
  le_refl _ := Std.le_refl _
  le_trans _ _ _ := Std.le_trans
  le_antisymm _ _ := Std.le_antisymm
  le_total _ _ := Std.le_total
  lt_iff_le_not_ge _ _ := Std.lt_iff_le_and_not_ge
  toDecidableLE := inferInstance
  toDecidableEq := inferInstance
  toDecidableLT := inferInstance

instance linearOrderUInt32 : LinearOrder UInt32 where
  toOrd := inferInstance
  toMin := inferInstance
  toMax := inferInstance
  le_refl _ := Std.le_refl _
  le_trans _ _ _ := Std.le_trans
  le_antisymm _ _ := Std.le_antisymm
  le_total _ _ := Std.le_total
  lt_iff_le_not_ge _ _ := Std.lt_iff_le_and_not_ge
  toDecidableLE := inferInstance
  toDecidableEq := inferInstance
  toDecidableLT := inferInstance

/-- The largest word. -/
def top64 : UInt64 := 18446744073709551615

theorem toNat_top64 : top64.toNat = 2 ^ 64 - 1 := rfl

/-- `a + b` does not fit a word: `a > top64 - b`, read on the values (`top64 - b` never wraps). -/
def addOverflows (a b : UInt64) : Bool := decide (a.toNat > top64.toNat - b.toNat)

theorem addOverflows_iff (a b : UInt64) :
    addOverflows a b = true ↔ 2 ^ 64 ≤ a.toNat + b.toNat := by
  have ha := a.toNat_lt
  have hb := b.toNat_lt
  unfold addOverflows
  rw [decide_eq_true_iff, toNat_top64]
  omega

theorem addOverflows_eq_false_iff (a b : UInt64) :
    addOverflows a b = false ↔ a.toNat + b.toNat < 2 ^ 64 := by
  rw [← Bool.not_eq_true, addOverflows_iff]
  omega

theorem toNat_add_of_lt {a b : UInt64} (h : a.toNat + b.toNat < 2 ^ 64) :
    (a + b).toNat = a.toNat + b.toNat := by
  rw [UInt64.toNat_add, Nat.mod_eq_of_lt h]

theorem toNat_max (a b : UInt64) : (max a b).toNat = max a.toNat b.toNat := by
  rcases le_total a b with h | h
  · rw [max_eq_right h, max_eq_right (UInt64.le_iff_toNat_le.mp h)]
  · rw [max_eq_left h, max_eq_left (UInt64.le_iff_toNat_le.mp h)]

theorem toNat_min (a b : UInt64) : (min a b).toNat = min a.toNat b.toNat := by
  rcases le_total a b with h | h
  · rw [min_eq_left h, min_eq_left (UInt64.le_iff_toNat_le.mp h)]
  · rw [min_eq_right h, min_eq_right (UInt64.le_iff_toNat_le.mp h)]

/-! ### Saturating addition -/

/-- `a + b`, or the largest word when the sum does not fit. -/
def satAdd (a b : UInt64) : UInt64 := if addOverflows a b then top64 else a + b

theorem toNat_satAdd (a b : UInt64) :
    (satAdd a b).toNat = min (2 ^ 64 - 1) (a.toNat + b.toNat) := by
  unfold satAdd
  split_ifs with h
  · rw [addOverflows_iff] at h
    rw [toNat_top64]
    omega
  · rw [Bool.not_eq_true, addOverflows_eq_false_iff] at h
    rw [toNat_add_of_lt h]
    omega

/-- Words under saturating addition. -/
@[ext] structure Sat where
  val : UInt64
deriving DecidableEq

namespace Sat

/-- The value of a saturating word. -/
def toNat (a : Sat) : ℕ := a.val.toNat

instance : Zero Sat := ⟨⟨0⟩⟩

instance : Add Sat := ⟨fun a b => ⟨satAdd a.val b.val⟩⟩

@[simp] theorem val_add (a b : Sat) : (a + b).val = satAdd a.val b.val := rfl

@[simp] theorem val_zero : (0 : Sat).val = 0 := rfl

theorem val_injective : Function.Injective val := fun _ _ => Sat.ext

instance : LinearOrder Sat := LinearOrder.lift' val val_injective

theorem le_iff_val {a b : Sat} : a ≤ b ↔ a.val ≤ b.val := Iff.rfl

theorem le_iff {a b : Sat} : a ≤ b ↔ a.toNat ≤ b.toNat := UInt64.le_iff_toNat_le

theorem lt_iff {a b : Sat} : a < b ↔ a.toNat < b.toNat := UInt64.lt_iff_toNat_lt

theorem toNat_injective : Function.Injective toNat :=
  fun _ _ h => Sat.ext (UInt64.toNat_inj.mp h)

theorem toNat_lt (a : Sat) : a.toNat < 2 ^ 64 := a.val.toNat_lt

@[simp] theorem toNat_zero : (0 : Sat).toNat = 0 := rfl

theorem toNat_add (a b : Sat) : (a + b).toNat = min (2 ^ 64 - 1) (a.toNat + b.toNat) :=
  toNat_satAdd a.val b.val

theorem sat_assoc (t a b c : ℕ) : min t (min t (a + b) + c) = min t (a + min t (b + c)) := by
  omega

instance : AddCommMonoid Sat where
  add_assoc a b c := toNat_injective (by simp only [toNat_add, sat_assoc])
  zero_add a := toNat_injective (by
    have := toNat_lt a
    rw [toNat_add, toNat_zero]
    omega)
  add_zero a := toNat_injective (by
    have := toNat_lt a
    rw [toNat_add, toNat_zero]
    omega)
  add_comm a b := toNat_injective (by rw [toNat_add, toNat_add, Nat.add_comm])
  nsmul := nsmulRec

instance : IsOrderedAddMonoid Sat where
  add_le_add_left a b h c := by
    rw [le_iff] at h ⊢
    rw [toNat_add, toNat_add]
    omega

theorem le_self_add (a b : Sat) : a ≤ a + b := by
  rw [le_iff, toNat_add]
  have := toNat_lt a
  omega

theorem zero_le (a : Sat) : 0 ≤ a := by
  rw [le_iff, toNat_zero]
  exact Nat.zero_le _

instance : CanonicallyOrderedAdd Sat where
  exists_add_of_le {a b} h := by
    have hle : a.toNat ≤ b.toNat := le_iff.mp h
    have hb := toNat_lt b
    have e : toNat ⟨b.val - a.val⟩ = b.toNat - a.toNat :=
      UInt64.toNat_sub_of_le _ _ (UInt64.le_iff_toNat_le.mpr hle)
    refine ⟨⟨b.val - a.val⟩, toNat_injective ?_⟩
    rw [toNat_add, e]
    omega
  le_add_self a b := by rw [add_comm]; exact le_self_add a b
  le_self_add := le_self_add

/-- A saturating sum is the exact sum cut at the largest word. -/
theorem toNat_sum (l : List Sat) : l.sum.toNat = min (2 ^ 64 - 1) ((l.map toNat).sum) := by
  induction l with
  | nil => simp
  | cons a l ih =>
      rw [List.sum_cons, List.map_cons, List.sum_cons, toNat_add, ih]
      omega

/-- A sum below the largest word determines the summands of a smaller sum. -/
theorem eq_of_sum_le {α : Type*} {l : List α} {f g : α → Sat} (hle : ∀ x ∈ l, f x ≤ g x)
    (hsum : (l.map g).sum ≤ (l.map f).sum) (hexact : (l.map f).sum.val ≠ top64) :
    ∀ x ∈ l, f x = g x := by
  have hmono : ∀ x ∈ l, (f x).toNat ≤ (g x).toNat := fun x hx => le_iff.mp (hle x hx)
  have htop : (l.map f).sum.toNat ≠ 2 ^ 64 - 1 := fun heq => hexact (UInt64.toNat_inj.mp heq)
  rw [le_iff, toNat_sum, toNat_sum, List.map_map, List.map_map] at hsum
  rw [toNat_sum, List.map_map] at htop
  by_contra hne
  push Not at hne
  obtain ⟨x, hx, hne⟩ := hne
  have hlt : (f x).toNat < (g x).toNat :=
    lt_of_le_of_ne (hmono x hx) fun heq => hne (toNat_injective heq)
  have hstrict : (l.map (toNat ∘ f)).sum < (l.map (toNat ∘ g)).sum :=
    List.sum_lt_sum _ _ hmono ⟨x, hx, hlt⟩
  omega

end Sat

end Theory
