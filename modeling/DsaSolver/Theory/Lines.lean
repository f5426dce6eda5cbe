import Mathlib.Data.List.DropRight
import Mathlib.Data.List.Basic
import Std.Data.String.ToNat

/-! # Text read line by line

`linesOf` cuts a text at a delimiter the way `std::getline` does: the delimiter ends a line and
is dropped, and a last line without one counts only when it is not empty.  `strip` drops the
elements of a class at both ends.  `readNat` and `readInt` read what `Nat.repr` and `Int.repr`
print. -/

namespace Theory

section lines

variable {α : Type} [DecidableEq α] (delimiter : α)

def linesOf : List α → List (List α)
  | [] => []
  | c :: rest =>
      if c = delimiter then [] :: linesOf rest
      else match linesOf rest with
        | [] => [[c]]
        | line :: lines => (c :: line) :: lines

variable {delimiter}

theorem linesOf_append {line : List α} (h : delimiter ∉ line) (rest : List α) :
    linesOf delimiter (line ++ delimiter :: rest) = line :: linesOf delimiter rest := by
  induction line with
  | nil => simp [linesOf]
  | cons c line ih =>
      rw [List.mem_cons, not_or] at h
      rw [List.cons_append, linesOf, if_neg (Ne.symm h.1), ih h.2]

/-- Lines that were written one after the other are the lines that are read. -/
theorem linesOf_flatMap {lines : List (List α)} (h : ∀ line ∈ lines, delimiter ∉ line) :
    linesOf delimiter (lines.flatMap (· ++ [delimiter])) = lines := by
  induction lines with
  | nil => rfl
  | cons line lines ih =>
      rw [List.flatMap_cons, List.append_assoc, List.singleton_append,
        linesOf_append (h line List.mem_cons_self),
        ih fun other hother => h other (List.mem_cons_of_mem line hother)]

theorem delimiter_notMem {text line : List α} (h : line ∈ linesOf delimiter text) :
    delimiter ∉ line := by
  induction text generalizing line with
  | nil => cases h
  | cons c rest ih =>
      rw [linesOf] at h
      split at h
      · rcases List.mem_cons.mp h with rfl | h
        · exact List.not_mem_nil
        · exact ih h
      · rename_i hc
        cases hrest : linesOf delimiter rest with
        | nil =>
            rw [hrest] at h
            rw [List.mem_singleton.mp h, List.mem_singleton]
            exact Ne.symm hc
        | cons first lines =>
            rw [hrest] at ih h
            rcases List.mem_cons.mp h with rfl | h
            · rw [List.mem_cons, not_or]
              exact ⟨Ne.symm hc, ih List.mem_cons_self⟩
            · exact ih (List.mem_cons_of_mem first h)

end lines

section strip

variable {α : Type} (p : α → Bool)

/-- The list without the elements in `p` at its two ends. -/
def strip (l : List α) : List α := (l.dropWhile p).rdropWhile p

variable {p}

theorem strip_sublist (l : List α) : (strip p l).Sublist l :=
  (List.rdropWhile_prefix p (l.dropWhile p)).sublist.trans (List.dropWhile_sublist p)

theorem mem_of_mem_strip {c : α} {l : List α} (h : c ∈ strip p l) : c ∈ l :=
  (strip_sublist l).subset h

theorem strip_eq_self {l : List α} (h : ∀ c ∈ l, p c = false) : strip p l = l := by
  have hdrop : l.dropWhile p = l := by
    rw [List.dropWhile_eq_self_iff]
    intro hl
    simp [h _ (List.getElem_mem hl)]
  rw [strip, hdrop, List.rdropWhile_eq_self_iff]
  intro hl
  simp [h _ (List.getLast_mem hl)]

theorem strip_ne_nil {c : α} {l : List α} (hc : c ∈ l) (h : p c = false) : strip p l ≠ [] := by
  rw [strip, Ne, List.rdropWhile_eq_nil_iff]
  intro hall
  have hsplit := List.takeWhile_append_dropWhile (p := p) (l := l)
  rw [← hsplit, List.mem_append] at hc
  rcases hc with hc | hc
  · rw [List.mem_takeWhile_imp hc] at h
    cases h
  · rw [hall c hc] at h
    cases h

theorem strip_strip (l : List α) : strip p (strip p l) = strip p l := by
  have hfirst : (strip p l).dropWhile p = strip p l := by
    have hprefix : strip p l <+: l.dropWhile p := List.rdropWhile_prefix p (l.dropWhile p)
    have hhead := List.head?_dropWhile_not p l
    cases hl : strip p l with
    | nil => rfl
    | cons c rest =>
        rw [hl] at hprefix
        obtain ⟨tail, htail⟩ := hprefix
        rw [← htail, List.cons_append, List.head?_cons] at hhead
        rw [List.dropWhile_cons_of_neg (by simpa using hhead)]
  rw [strip, hfirst, strip, List.rdropWhile_idempotent]

end strip

section numbers

/-- A decimal number without a sign. -/
def readNat (text : List Char) : Option ℕ :=
  if text ≠ [] ∧ text.all Char.isDigit then some (Nat.ofDigitChars 10 text 0) else none

/-- A decimal number, the minus sign in front of it or not. -/
def readInt : List Char → Option ℤ
  | '-' :: digits => (readNat digits).map fun n : ℕ => -(n : ℤ)
  | digits => (readNat digits).map fun n : ℕ => (n : ℤ)

theorem isDigit_of_mem_toDigits {n : ℕ} {c : Char} (h : c ∈ Nat.toDigits 10 n) :
    c.isDigit = true :=
  Nat.isDigit_of_mem_toDigits (by decide) (by decide) h

theorem toList_toString_nat (n : ℕ) : (toString n).toList = Nat.toDigits 10 n := by
  simp [Nat.repr]

theorem toList_toString_int (value : ℤ) : (toString value).toList =
    if 0 ≤ value then Nat.toDigits 10 value.toNat else '-' :: Nat.toDigits 10 (-value).toNat := by
  rw [Int.toString_eq_repr, Int.repr_eq_if]
  split
  · exact toList_toString_nat value.toNat
  · simp [Nat.repr]

theorem readNat_toDigits (n : ℕ) : readNat (Nat.toDigits 10 n) = some n := by
  have hdigits : (Nat.toDigits 10 n).all Char.isDigit :=
    List.all_eq_true.mpr fun c hc => isDigit_of_mem_toDigits hc
  rw [readNat, if_pos ⟨Nat.toDigits_ne_nil, hdigits⟩, Nat.ofDigitChars_ten_toDigits]

theorem readInt_toDigits (n : ℕ) : readInt (Nat.toDigits 10 n) = some (n : ℤ) := by
  have hread := readNat_toDigits n
  have hdigits : ∀ c ∈ Nat.toDigits 10 n, c.isDigit = true := fun c hc => isDigit_of_mem_toDigits hc
  rw [readInt.eq_def]
  split
  · rename_i digits heq
    rw [heq] at hdigits
    have hminus := hdigits '-' List.mem_cons_self
    contradiction
  · rw [hread, Option.map_some]

theorem readNat_toString (n : ℕ) : readNat (toString n).toList = some n := by
  rw [toList_toString_nat, readNat_toDigits]

theorem readInt_toString (value : ℤ) : readInt (toString value).toList = some value := by
  rw [toList_toString_int]
  split
  · rw [readInt_toDigits]
    apply congrArg some
    omega
  · rw [readInt, readNat_toDigits, Option.map_some]
    apply congrArg some
    omega

/-- What numbers are printed with. -/
theorem mem_toString_int {value : ℤ} {c : Char} (h : c ∈ (toString value).toList) :
    c = '-' ∨ c.isDigit = true := by
  rw [toList_toString_int] at h
  split at h
  · exact .inr (isDigit_of_mem_toDigits h)
  · exact (List.mem_cons.mp h).imp_right isDigit_of_mem_toDigits

theorem mem_toString_nat {n : ℕ} {c : Char} (h : c ∈ (toString n).toList) : c.isDigit = true := by
  rw [toList_toString_nat] at h
  exact isDigit_of_mem_toDigits h

end numbers

end Theory
