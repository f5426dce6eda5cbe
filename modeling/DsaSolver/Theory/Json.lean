import Mathlib.Algebra.Group.Nat.Defs
import Mathlib.Data.Int.Notation
import Mathlib.Data.List.Induction
import Mathlib.Tactic.SplitIfs
import Mathlib.Tactic.Tauto

/-! # JSON values

JSON values with the three number representations of a C++ library: a literal without sign,
fraction or exponent is `unsigned`, one with a minus sign `signed`, any other `float`.  The
members of an object are kept in the order of their keys.  `reread` is the value obtained by
writing a value and reading it back: a signed number that is not negative is written without a
sign and comes back unsigned. -/

namespace Theory

inductive Json where
  | null
  | boolean (value : Bool)
  | unsigned (value : UInt64)
  | signed (value : Int64)
  | float (value : Float)
  | string (value : String)
  | array (items : List Json)
  | object (members : List (String × Json))

namespace Json

/-! ### Objects -/

/-- Set a member, in the order of the keys. -/
def insertMember : List (String × Json) → String → Json → List (String × Json)
  | [], key, value => [(key, value)]
  | (other, old) :: rest, key, value =>
      if key < other then (key, value) :: (other, old) :: rest
      else if key = other then (key, value) :: rest
      else (other, old) :: insertMember rest key value

/-- The object with the given members. -/
def ofMembers (members : List (String × Json)) : Json :=
  .object (members.foldl (fun members member => insertMember members member.1 member.2) [])

/-- `value[key] = member` on an object. -/
def set : Json → String → Json → Json
  | .object members, key, member => .object (insertMember members key member)
  | value, _, _ => value

def isNull : Json → Bool
  | .null => true
  | _ => false

/-- `value.find(key)`. -/
def find : Json → String → Option Json
  | .object members, key => members.lookup key
  | _, _ => none

/-- The items of an array, none of any other value. -/
def items : Json → List Json
  | .array items => items
  | _ => []

/-- The member of a key, `null` when there is none. -/
def member (value : Json) (key : String) : Json := (value.find key).getD .null

theorem lookup_insertMember (members : List (String × Json)) (key : String) (value : Json)
    (target : String) : (insertMember members key value).lookup target =
      if target = key then some value else members.lookup target := by
  induction members with
  | nil =>
      by_cases h : target = key
      · simp [insertMember, h]
      · simp [insertMember, h]
  | cons first rest ih =>
      obtain ⟨other, old⟩ := first
      unfold insertMember
      by_cases ht : target = key
      · subst ht
        rw [if_pos rfl] at ih ⊢
        split_ifs with h1 h2
        · simp
        · simp
        · rw [List.lookup_cons, beq_eq_false_iff_ne.mpr h2]
          exact ih
      · rw [if_neg ht] at ih ⊢
        split_ifs with h1 h2
        · rw [List.lookup_cons, beq_eq_false_iff_ne.mpr ht]
        · subst h2
          rw [List.lookup_cons, List.lookup_cons, beq_eq_false_iff_ne.mpr ht]
        · rw [List.lookup_cons, List.lookup_cons, ih]

theorem mem_keys_insertMember (members : List (String × Json)) (key : String) (value : Json)
    (target : String) : target ∈ (insertMember members key value).map Prod.fst ↔
      target = key ∨ target ∈ members.map Prod.fst := by
  induction members with
  | nil => simp [insertMember]
  | cons first rest ih =>
      obtain ⟨other, old⟩ := first
      unfold insertMember
      split_ifs with h1 h2
      · simp
      · subst h2
        simp
      · rw [List.map_cons, List.mem_cons, ih, List.map_cons, List.mem_cons]
        tauto

theorem set_ofMembers (members : List (String × Json)) (key : String) (value : Json) :
    (ofMembers members).set key value = ofMembers (members ++ [(key, value)]) := by
  unfold ofMembers set
  rw [List.foldl_append]
  rfl

theorem find_ofMembers (members : List (String × Json)) (key : String) :
    (ofMembers members).find key = members.reverse.lookup key := by
  induction members using List.reverseRecOn with
  | nil => rfl
  | append_singleton members last ih =>
      obtain ⟨other, value⟩ := last
      rw [← set_ofMembers, ofMembers, set, find, lookup_insertMember, List.reverse_append,
        List.reverse_singleton, List.singleton_append, List.lookup_cons, ← ih]
      by_cases h : key = other
      · rw [if_pos h, beq_iff_eq.mpr h]
      · rw [if_neg h, beq_eq_false_iff_ne.mpr h]
        rfl

theorem mem_keys_ofMembers (members : List (String × Json)) :
    ∃ ordered, ofMembers members = .object ordered ∧
      ∀ key, key ∈ ordered.map Prod.fst ↔ key ∈ members.map Prod.fst := by
  induction members using List.reverseRecOn with
  | nil => exact ⟨[], rfl, fun key => Iff.rfl⟩
  | append_singleton members last ih =>
      obtain ⟨ordered, heq, hkeys⟩ := ih
      refine ⟨insertMember ordered last.1 last.2, ?_, fun key => ?_⟩
      · rw [← set_ofMembers members last.1 last.2, heq, set]
      · rw [mem_keys_insertMember, hkeys, List.map_append, List.mem_append]
        simp [or_comm]

/-! ### Numbers -/

/-- `is_number_unsigned()`. -/
def isNumberUnsigned : Json → Bool
  | .unsigned _ => true
  | _ => false

/-- `is_number_integer()`, true of both integer representations. -/
def isNumberInteger : Json → Bool
  | .unsigned _ => true
  | .signed _ => true
  | _ => false

/-- `get<std::uint64_t>()` of an integer, a `static_cast`. -/
def getUInt64 : Json → UInt64
  | .unsigned value => value
  | .signed value => value.toUInt64
  | _ => 0

/-- `get<std::int64_t>()` of an integer, a `static_cast`. -/
def getInt64 : Json → Int64
  | .unsigned value => value.toInt64
  | .signed value => value
  | _ => 0

/-- The mathematical value of a number in an integer representation. -/
def intValue : Json → Option ℤ
  | .unsigned value => some (value.toNat : ℤ)
  | .signed value => some value.toInt
  | _ => none

/-! ### Writing and reading back -/

mutual

/-- The value read back from the text of a value. -/
def reread : Json → Json
  | .signed value => if value < 0 then .signed value else .unsigned value.toUInt64
  | .array items => .array (rereadItems items)
  | .object members => .object (rereadMembers members)
  | value => value

def rereadItems : List Json → List Json
  | [] => []
  | item :: rest => reread item :: rereadItems rest

def rereadMembers : List (String × Json) → List (String × Json)
  | [] => []
  | (key, value) :: rest => (key, reread value) :: rereadMembers rest

end

theorem rereadItems_eq_map (items : List Json) : rereadItems items = items.map reread := by
  induction items with
  | nil => rfl
  | cons item rest ih => rw [rereadItems, List.map_cons, ih]

theorem rereadMembers_eq_map (members : List (String × Json)) :
    rereadMembers members = members.map fun member => (member.1, reread member.2) := by
  induction members with
  | nil => rfl
  | cons first rest ih => rw [rereadMembers, List.map_cons, ih]

theorem lookup_map_reread (members : List (String × Json)) (key : String) :
    (members.map fun member => (member.1, reread member.2)).lookup key =
      (members.lookup key).map reread := by
  induction members with
  | nil => rfl
  | cons first rest ih =>
      obtain ⟨other, value⟩ := first
      rw [List.map_cons, List.lookup_cons, List.lookup_cons, ih]
      cases key == other <;> rfl

theorem find_reread (value : Json) (key : String) :
    (reread value).find key = (value.find key).map reread := by
  cases value with
  | object members =>
      rw [reread, find, rereadMembers_eq_map, lookup_map_reread]
      rfl
  | signed value =>
      rw [reread]
      split_ifs <;> rfl
  | _ => simp [reread, find]

theorem toInt_toUInt64_of_nonneg {value : Int64} (h : ¬value < 0) :
    (value.toUInt64.toNat : ℤ) = value.toInt := by
  have hle : (0 : Int64) ≤ value := Int64.not_lt.mp h
  have hint : (0 : ℤ) ≤ value.toInt := Int64.le_iff_toInt_le.mp hle
  rw [Int64.toNat_toUInt64_of_le hle]
  exact Int.toNat_of_nonneg hint

theorem toInt_toInt64 (value : UInt64) :
    value.toInt64.toInt = if 2 * value.toNat < 2 ^ 64 then (value.toNat : ℤ)
      else (value.toNat : ℤ) - (2 ^ 64 : ℕ) := BitVec.toInt_eq_toNat_cond _

/-- The `static_cast` of an unsigned number keeps its value exactly below `2 ^ 63`. -/
theorem toInt_toInt64_eq_iff (value : UInt64) :
    value.toInt64.toInt = (value.toNat : ℤ) ↔ value.toNat < 9223372036854775808 := by
  have hlt := value.toNat_lt
  rw [toInt_toInt64]
  split_ifs <;> omega

theorem toInt_toInt64_of_nonneg {value : UInt64} (h : 0 ≤ value.toInt64.toInt) :
    value.toInt64.toInt = (value.toNat : ℤ) := by
  have hlt := value.toNat_lt
  rw [toInt_toInt64] at h ⊢
  split_ifs at h ⊢ <;> omega

/-! ### Text -/

def hexDigits (value : ℕ) : String :=
  String.ofList (List.leftpad 2 '0' (Nat.toDigits 16 value))

def escapeChar (c : Char) : String :=
  match c.toNat with
  | 8 => "\\b"
  | 9 => "\\t"
  | 10 => "\\n"
  | 12 => "\\f"
  | 13 => "\\r"
  | 34 => "\\\""
  | 92 => "\\\\"
  | code => if code < 32 then "\\u00" ++ hexDigits code else String.singleton c

def quote (text : String) : String :=
  "\"" ++ String.join (text.toList.map escapeChar) ++ "\""

def spaces (count : ℕ) : String := String.ofList (List.replicate count ' ')

mutual

/-- `dump(2)`, the value at the given indentation. -/
def dump (indent : ℕ) : Json → String
  | .null => "null"
  | .boolean value => if value then "true" else "false"
  | .unsigned value => toString value
  | .signed value => toString value
  | .float value => toString value
  | .string value => quote value
  | .array items =>
      if items.isEmpty then "[]"
      else "[\n" ++ ",\n".intercalate (dumpItems (indent + 2) items) ++ "\n" ++ spaces indent ++ "]"
  | .object members =>
      if members.isEmpty then "\x7b\x7d"
      else
        "\x7b\n" ++ ",\n".intercalate (dumpMembers (indent + 2) members) ++ "\n" ++
          spaces indent ++ "\x7d"

def dumpItems (indent : ℕ) : List Json → List String
  | [] => []
  | item :: rest => (spaces indent ++ dump indent item) :: dumpItems indent rest

def dumpMembers (indent : ℕ) : List (String × Json) → List String
  | [] => []
  | (key, value) :: rest =>
      (spaces indent ++ quote key ++ ": " ++ dump indent value) :: dumpMembers indent rest

end

end Json

end Theory
