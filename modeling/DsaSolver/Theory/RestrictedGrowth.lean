import Mathlib.Data.List.Dedup
import Mathlib.Data.List.Nodup
import Mathlib.Data.Nat.Basic

/-! # Restricted-growth strings

A string of class numbers grows in a restricted way when no value skips a class.
`growthStrings` lists these strings of a given length and with at most `bound` classes
(`mem_growthStrings`), each once (`nodup_growthStrings`).  Numbering the elements of a list in
the order of their first occurrences gives such a string (`growsFrom_relabelFrom`), with as many
classes as the list has distinct elements (`classCount_relabel`), and the strings themselves
are already numbered in this order (`relabelFrom_of_growsFrom`). -/

namespace Theory

/-! ### Strings -/

/-- The number of classes after a string that follows `count` classes. -/
def classesFrom (count : ℕ) (l : List ℕ) : ℕ :=
  l.foldl (fun count value => max count (value + 1)) count

/-- One more than the greatest value, or zero. -/
def classCount (l : List ℕ) : ℕ := classesFrom 0 l

/-- Every value is at most the number of the classes before it. -/
def IsRestrictedGrowth (l : List ℕ) : Prop :=
  ∀ before value after, l = before ++ value :: after → value ≤ classCount before

/-- Restricted growth after `count` classes. -/
def GrowsFrom : ℕ → List ℕ → Prop
  | _, [] => True
  | count, value :: rest => value ≤ count ∧ GrowsFrom (max count (value + 1)) rest

variable {count bound length : ℕ} {l : List ℕ}

theorem classesFrom_cons (count value : ℕ) (rest : List ℕ) :
    classesFrom count (value :: rest) = classesFrom (max count (value + 1)) rest := rfl

theorem le_classesFrom (count : ℕ) (l : List ℕ) : count ≤ classesFrom count l := by
  induction l generalizing count with
  | nil => exact le_rfl
  | cons value rest ih => exact Nat.le_trans (Nat.le_max_left _ _) (ih _)

theorem lt_classesFrom {value : ℕ} (h : value ∈ l) : value < classesFrom count l := by
  induction l generalizing count with
  | nil => cases h
  | cons head rest ih =>
      rw [classesFrom_cons]
      rcases List.mem_cons.mp h with rfl | h
      · have h1 := le_classesFrom (max count (value + 1)) rest
        omega
      · exact ih h

theorem growsFrom_iff : GrowsFrom count l ↔
    ∀ before value after, l = before ++ value :: after → value ≤ classesFrom count before := by
  induction l generalizing count with
  | nil => simp [GrowsFrom]
  | cons head rest ih =>
      rw [GrowsFrom, ih]
      constructor
      · rintro ⟨hhead, hrest⟩ before value after hsplit
        cases before with
        | nil =>
            obtain ⟨rfl, -⟩ := List.cons.inj hsplit
            exact hhead
        | cons first before =>
            rw [List.cons_append] at hsplit
            obtain ⟨rfl, htail⟩ := List.cons.inj hsplit
            exact hrest before value after htail
      · intro h
        refine ⟨h [] head rest rfl, fun before value after hsplit => ?_⟩
        exact h (head :: before) value after (by rw [hsplit, List.cons_append])

theorem isRestrictedGrowth_iff : IsRestrictedGrowth l ↔ GrowsFrom 0 l := growsFrom_iff.symm

/-! ### Their enumeration -/

/-- The strings of a length that follow `count` classes and stay within `bound` classes. -/
def growthStrings (bound : ℕ) : ℕ → ℕ → List (List ℕ)
  | 0, _ => [[]]
  | length + 1, count =>
      (List.range (min (count + 1) bound)).flatMap fun value =>
        (growthStrings bound length (max count (value + 1))).map (List.cons value)

theorem mem_growthStrings (hcount : count ≤ bound) : l ∈ growthStrings bound length count ↔
    l.length = length ∧ GrowsFrom count l ∧ classesFrom count l ≤ bound := by
  induction length generalizing count l with
  | zero =>
      rw [growthStrings, List.mem_singleton, List.length_eq_zero_iff]
      constructor
      · rintro rfl
        exact ⟨rfl, trivial, hcount⟩
      · exact And.left
  | succ length ih =>
      rw [growthStrings, List.mem_flatMap]
      constructor
      · rintro ⟨value, hvalue, hl⟩
        obtain ⟨rest, hrest, rfl⟩ := List.mem_map.mp hl
        rw [List.mem_range] at hvalue
        obtain ⟨hlength, hgrows, hclasses⟩ := (ih (by omega)).mp hrest
        exact ⟨congrArg (· + 1) hlength, ⟨by omega, hgrows⟩, hclasses⟩
      · rintro ⟨hlength, hgrows, hclasses⟩
        cases l with
        | nil => cases hlength
        | cons value rest =>
            obtain ⟨hvalue, hgrows⟩ := hgrows
            rw [classesFrom_cons] at hclasses
            have hle := le_classesFrom (max count (value + 1)) rest
            refine ⟨value, List.mem_range.mpr (by omega), ?_⟩
            apply List.mem_map_of_mem
            exact (ih (by omega)).mpr ⟨Nat.succ.inj hlength, hgrows, hclasses⟩

theorem nodup_growthStrings (bound length count : ℕ) : (growthStrings bound length count).Nodup := by
  induction length generalizing count with
  | zero => exact List.nodup_singleton []
  | succ length ih =>
      rw [growthStrings, List.nodup_flatMap]
      constructor
      · exact fun value _ => (ih _).map (List.cons_injective)
      · apply List.nodup_range.imp
        intro a b hne s ha hb
        obtain ⟨_, _, rfl⟩ := List.mem_map.mp ha
        obtain ⟨_, _, heq⟩ := List.mem_map.mp hb
        exact hne (List.cons.inj heq).1.symm

/-! ### Numbering by first occurrence -/

section relabel

variable {α : Type*} [DecidableEq α]

def addSeen (seen : List α) (a : α) : List α := if a ∈ seen then seen else seen ++ [a]

/-- The elements numbered by their positions in `seen`, which new elements extend. -/
def relabelFrom (seen : List α) : List α → List ℕ
  | [] => []
  | a :: rest => seen.idxOf a :: relabelFrom (addSeen seen a) rest

theorem length_relabelFrom (seen l : List α) : (relabelFrom seen l).length = l.length := by
  induction l generalizing seen with
  | nil => rfl
  | cons a rest ih => exact congrArg (· + 1) (ih _)

theorem length_addSeen (seen : List α) (a : α) :
    (addSeen seen a).length = max seen.length (seen.idxOf a + 1) := by
  unfold addSeen
  split_ifs with h
  · have := List.idxOf_lt_length_of_mem h
    omega
  · rw [List.idxOf_of_notMem h, List.length_append, List.length_singleton]
    omega

theorem mem_addSeen {seen : List α} {a b : α} : b ∈ addSeen seen a ↔ b ∈ seen ∨ b = a := by
  unfold addSeen
  split_ifs with h
  · constructor
    · exact Or.inl
    · rintro (hb | rfl)
      · exact hb
      · exact h
  · rw [List.mem_append, List.mem_singleton]

theorem nodup_addSeen {seen : List α} (h : seen.Nodup) (a : α) : (addSeen seen a).Nodup := by
  unfold addSeen
  split_ifs with ha
  · exact h
  · rw [List.nodup_append]
    refine ⟨h, List.nodup_singleton a, fun b hb c hc => ?_⟩
    rw [List.mem_singleton] at hc
    rintro rfl
    exact ha (hc ▸ hb)

theorem growsFrom_relabelFrom (seen l : List α) : GrowsFrom seen.length (relabelFrom seen l) := by
  induction l generalizing seen with
  | nil => trivial
  | cons a rest ih =>
      refine ⟨List.idxOf_le_length, ?_⟩
      rw [← length_addSeen]
      exact ih _

theorem classesFrom_relabelFrom (seen l : List α) :
    classesFrom seen.length (relabelFrom seen l) = (l.foldl addSeen seen).length := by
  induction l generalizing seen with
  | nil => rfl
  | cons a rest ih =>
      rw [relabelFrom, classesFrom_cons, ← length_addSeen, ih, List.foldl_cons]

theorem foldl_addSeen (l : List α) {seen : List α} (h : seen.Nodup) :
    (l.foldl addSeen seen).Nodup ∧ ∀ b, b ∈ l.foldl addSeen seen ↔ b ∈ seen ∨ b ∈ l := by
  induction l generalizing seen with
  | nil => exact ⟨h, fun b => by simp⟩
  | cons a rest ih =>
      obtain ⟨hnodup, hmem⟩ := ih (nodup_addSeen h a)
      refine ⟨hnodup, fun b => ?_⟩
      rw [List.foldl_cons, hmem, mem_addSeen, List.mem_cons, or_assoc]

/-- As many classes as distinct elements. -/
theorem classCount_relabel (l : List α) : classCount (relabelFrom [] l) = l.dedup.length := by
  obtain ⟨hnodup, hmem⟩ := foldl_addSeen l (List.nodup_nil (α := α))
  have hperm : (l.foldl addSeen []).Perm l.dedup := by
    rw [List.perm_ext_iff_of_nodup hnodup l.nodup_dedup]
    intro b
    rw [hmem, List.mem_dedup]
    simp
  exact (classesFrom_relabelFrom [] l).trans hperm.length_eq

theorem idxOf_map_of_injective {β : Type*} [DecidableEq β] {f : α → β}
    (hf : Function.Injective f) (l : List α) (a : α) : (l.map f).idxOf (f a) = l.idxOf a := by
  induction l with
  | nil => rfl
  | cons b rest ih =>
      rw [List.map_cons, List.idxOf_cons, List.idxOf_cons, ih]
      simp only [beq_eq_decide, hf.eq_iff]

theorem relabelFrom_map {β : Type*} [DecidableEq β] {f : α → β} (hf : Function.Injective f)
    (seen l : List α) : relabelFrom (seen.map f) (l.map f) = relabelFrom seen l := by
  induction l generalizing seen with
  | nil => rfl
  | cons a rest ih =>
      have hseen : addSeen (seen.map f) (f a) = (addSeen seen a).map f := by
        have hmem : f a ∈ seen.map f ↔ a ∈ seen := List.mem_map_of_injective hf
        unfold addSeen
        by_cases ha : a ∈ seen
        · rw [if_pos ha, if_pos (hmem.mpr ha)]
        · rw [if_neg ha, if_neg (hmem.not.mpr ha), List.map_append, List.map_singleton]
      rw [List.map_cons, relabelFrom, relabelFrom, idxOf_map_of_injective hf, hseen, ih]

end relabel

theorem idxOf_range {value : ℕ} (h : value ≤ count) : (List.range count).idxOf value = value := by
  rcases Nat.lt_or_eq_of_le h with h | rfl
  · have hlt : value < (List.range count).length := by rwa [List.length_range]
    have := List.nodup_range.idxOf_getElem value hlt
    rwa [List.getElem_range] at this
  · rw [List.idxOf_of_notMem List.not_mem_range_self, List.length_range]

theorem addSeen_range {value : ℕ} (h : value ≤ count) :
    addSeen (List.range count) value = List.range (max count (value + 1)) := by
  unfold addSeen
  rcases Nat.lt_or_eq_of_le h with hlt | rfl
  · rw [if_pos (List.mem_range.mpr hlt), Nat.max_eq_left hlt]
  · rw [if_neg List.not_mem_range_self, Nat.max_eq_right (Nat.le_succ value), List.range_succ]

/-- A string of restricted growth is numbered by first occurrence. -/
theorem relabelFrom_of_growsFrom (h : GrowsFrom count l) : relabelFrom (List.range count) l = l := by
  induction l generalizing count with
  | nil => rfl
  | cons value rest ih => rw [relabelFrom, idxOf_range h.1, addSeen_range h.1, ih h.2]

/-! ### Patterns -/

section patterns

variable {α β ι : Type*} [DecidableEq α] [DecidableEq β]

/-- The distinct elements, in the order of their first occurrence. -/
def distinct (l : List α) : List α := l.foldl addSeen []

theorem nodup_distinct (l : List α) : (distinct l).Nodup := (foldl_addSeen l List.nodup_nil).1

theorem mem_distinct {l : List α} {a : α} : a ∈ distinct l ↔ a ∈ l := by
  unfold distinct
  rw [(foldl_addSeen l List.nodup_nil).2]
  simp

theorem prefix_foldl_addSeen (seen l : List α) : seen <+: l.foldl addSeen seen := by
  induction l generalizing seen with
  | nil => exact List.prefix_refl seen
  | cons a rest ih =>
      refine List.IsPrefix.trans ?_ (ih _)
      unfold addSeen
      split_ifs
      · exact List.prefix_refl seen
      · exact List.prefix_append seen [a]

theorem idxOf_eq_of_initial {seen l : List α} (h : seen <+: l) {a : α} (ha : a ∈ seen) :
    l.idxOf a = seen.idxOf a := by
  obtain ⟨rest, rfl⟩ := h
  exact List.idxOf_append_of_mem ha

theorem relabelFrom_eq_map (seen l : List α) :
    relabelFrom seen l = l.map fun a => (l.foldl addSeen seen).idxOf a := by
  induction l generalizing seen with
  | nil => rfl
  | cons a rest ih =>
      have hmem : a ∈ addSeen seen a := mem_addSeen.mpr (.inr rfl)
      have hhead : (rest.foldl addSeen (addSeen seen a)).idxOf a = seen.idxOf a := by
        rw [idxOf_eq_of_initial (prefix_foldl_addSeen _ _) hmem]
        unfold addSeen
        split_ifs with h
        · rfl
        · rw [List.idxOf_append_of_notMem h, List.idxOf_cons_self, List.idxOf_of_notMem h,
            Nat.add_zero]
      rw [relabelFrom, List.map_cons, List.foldl_cons, hhead, ih]

/-- The numbers of a list are the positions among its distinct elements. -/
theorem relabel_eq_map (l : List α) : relabelFrom [] l = l.map (distinct l).idxOf :=
  relabelFrom_eq_map [] l

theorem idxOf_map_congr {f : ι → α} {g : ι → β} (l : List ι) {x : ι}
    (h : ∀ y ∈ l, (f y = f x ↔ g y = g x)) : (l.map f).idxOf (f x) = (l.map g).idxOf (g x) := by
  induction l with
  | nil => rfl
  | cons y rest ih =>
      rw [List.map_cons, List.map_cons, List.idxOf_cons, List.idxOf_cons,
        ih fun z hz => h z (List.mem_cons_of_mem _ hz)]
      have hy := h y List.mem_cons_self
      by_cases hfy : f y = f x
      · rw [hfy, hy.mp hfy, beq_self_eq_true, beq_self_eq_true]
      · have hgy : ¬g y = g x := fun heq => hfy (hy.mpr heq)
        rw [beq_false_of_ne hfy, beq_false_of_ne hgy]

/-- Labels with the same equalities have the same numbers. -/
theorem relabelFrom_congr {f : ι → α} {g : ι → β} (seen l : List ι)
    (h : ∀ x ∈ seen ++ l, ∀ y ∈ seen ++ l, (f x = f y ↔ g x = g y)) :
    relabelFrom (seen.map f) (l.map f) = relabelFrom (seen.map g) (l.map g) := by
  induction l generalizing seen with
  | nil => rfl
  | cons x rest ih =>
      have hx : x ∈ seen ++ x :: rest := List.mem_append_right _ List.mem_cons_self
      have hseen : ∀ y ∈ seen, (f y = f x ↔ g y = g x) := fun y hy =>
        h y (List.mem_append_left _ hy) x hx
      rw [List.map_cons, List.map_cons, relabelFrom, relabelFrom, idxOf_map_congr seen hseen]
      congr 1
      by_cases hold : ∃ y ∈ seen, f y = f x
      · have hfmem : f x ∈ seen.map f := List.mem_map.mpr hold
        have hgmem : g x ∈ seen.map g := by
          obtain ⟨y, hy, heq⟩ := hold
          exact List.mem_map.mpr ⟨y, hy, (hseen y hy).mp heq⟩
        rw [addSeen, if_pos hfmem, addSeen, if_pos hgmem]
        exact ih seen fun y hy z hz => h y (by grind) z (by grind)
      · have hfmem : f x ∉ seen.map f := fun hmem => hold (List.mem_map.mp hmem)
        have hgmem : g x ∉ seen.map g := by
          intro hmem
          obtain ⟨y, hy, heq⟩ := List.mem_map.mp hmem
          exact hold ⟨y, hy, (hseen y hy).mpr heq⟩
        have hrest := ih (seen ++ [x]) fun y hy z hz => h y (by grind) z (by grind)
        rw [List.map_append, List.map_singleton, List.map_append, List.map_singleton] at hrest
        rw [addSeen, if_neg hfmem, addSeen, if_neg hgmem]
        exact hrest

end patterns

end Theory
