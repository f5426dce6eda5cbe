import Mathlib.Data.List.Basic
import Std.Data.String.ToNat

/-! # Names built from numbers

A decimal number followed by text that does not start with a digit determines both
(`repr_append_inj`), so names that begin with distinct numbers are distinct. -/

namespace Theory

/-- The text does not start with a digit. -/
def NoLeadingDigit (s : String) : Prop := ∀ c ∈ s.toList.head?, c.isDigit = false

instance (s : String) : Decidable (NoLeadingDigit s) :=
  decidable_of_iff (s.toList.head?.all fun c => !c.isDigit) (by
    unfold NoLeadingDigit
    cases s.toList.head? <;> simp)

theorem takeWhile_toDigits_append (n : ℕ) {s : List Char} (hs : ∀ c ∈ s.head?, c.isDigit = false) :
    (Nat.toDigits 10 n ++ s).takeWhile Char.isDigit = Nat.toDigits 10 n := by
  rw [List.takeWhile_append_of_pos
    (fun c hc => Nat.isDigit_of_mem_toDigits (by decide) (by decide) hc)]
  cases s with
  | nil => simp
  | cons c s => simp [hs c (by simp)]

theorem toList_repr (n : ℕ) : (Nat.repr n).toList = Nat.toDigits 10 n := by simp [Nat.repr]

theorem repr_append_inj {m n : ℕ} {s t : String} (hs : NoLeadingDigit s) (ht : NoLeadingDigit t)
    (h : Nat.repr m ++ s = Nat.repr n ++ t) : m = n ∧ s = t := by
  have hlist := congrArg String.toList h
  rw [String.toList_append, String.toList_append, toList_repr, toList_repr] at hlist
  have hdigits := congrArg (List.takeWhile Char.isDigit) hlist
  rw [takeWhile_toDigits_append m hs, takeWhile_toDigits_append n ht, ← toList_repr,
    ← toList_repr, String.toList_inj] at hdigits
  rw [hdigits] at h
  exact ⟨Nat.repr_inj.mp hdigits, String.append_right_inj _ |>.mp h⟩

end Theory
