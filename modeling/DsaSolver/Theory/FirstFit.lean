import Mathlib.Data.List.Basic
import Mathlib.Data.List.Induction
import Mathlib.Order.Bounds.Basic

/-! # First-fit colouring

`FirstFit conflict l color` says that every element of `l` has the least colour that no element
before it in conflict with it has.  A list has one first-fit colouring (`FirstFit.unique`), and it
is proper (`FirstFit.ne`).  First come two facts about the places of a list. -/

namespace Theory

variable {α : Type*} {conflict : α → α → Prop} {l : List α} {color other : α → ℕ}

/-- What holds of every element with those before it, one element later. -/
theorem forall_split_concat {P : List α → α → Prop} {last : α} :
    (∀ done x rest, l ++ [last] = done ++ x :: rest → P done x) ↔
      (∀ done x rest, l = done ++ x :: rest → P done x) ∧ P l last := by
  constructor
  · intro h
    refine ⟨fun done x rest hsplit => ?_, h l last [] rfl⟩
    refine h done x (rest ++ [last]) ?_
    rw [hsplit, List.append_assoc, List.cons_append]
  · rintro ⟨h, hlast⟩ done x rest hsplit
    obtain rfl | ⟨before, y, rfl⟩ := rest.eq_nil_or_concat'
    · obtain ⟨rfl, hx⟩ := List.append_inj' hsplit rfl
      obtain rfl := List.singleton_inj.mp hx
      exact hlast
    · rw [← List.cons_append, ← List.append_assoc] at hsplit
      exact h done x before (List.append_inj' hsplit rfl).1

/-- Two places in one list. -/
theorem split_cases {below below' above above' : List α} {x y : α}
    (h : below ++ x :: above = below' ++ y :: above') :
    (below = below' ∧ x = y) ∨ (∃ between, below' = below ++ x :: between) ∨
      ∃ between, below = below' ++ y :: between := by
  obtain ⟨between, hbelow, habove⟩ | ⟨between, hbelow, habove⟩ := List.append_eq_append_iff.mp h
  · cases between with
    | nil =>
        rw [List.nil_append, List.cons.injEq] at habove
        exact .inl ⟨by rw [hbelow, List.append_nil], habove.1⟩
    | cons z between =>
        rw [List.cons_append, List.cons.injEq] at habove
        exact .inr (.inl ⟨between, by rw [hbelow, habove.1]⟩)
  · cases between with
    | nil =>
        rw [List.nil_append, List.cons.injEq] at habove
        exact .inl ⟨by rw [hbelow, List.append_nil], habove.1.symm⟩
    | cons z between =>
        rw [List.cons_append, List.cons.injEq] at habove
        exact .inr (.inr ⟨between, by rw [hbelow, habove.1]⟩)

/-- The colours that are free for `x` beside the elements done. -/
def freeColors (conflict : α → α → Prop) (color : α → ℕ) (done : List α) (x : α) : Set ℕ :=
  {c | ∀ y ∈ done, conflict x y → color y ≠ c}

/-- Every element has the least colour that is free beside those before it. -/
def FirstFit (conflict : α → α → Prop) (l : List α) (color : α → ℕ) : Prop :=
  ∀ done x rest, l = done ++ x :: rest → IsLeast (freeColors conflict color done x) (color x)

theorem freeColors_congr (h : ∀ y ∈ l, color y = other y) (x : α) :
    freeColors conflict color l x = freeColors conflict other l x := by
  ext c
  refine forall₂_congr fun y hy => ?_
  rw [h y hy]

theorem firstFit_nil (conflict : α → α → Prop) (color : α → ℕ) : FirstFit conflict [] color := by
  intro done x rest hsplit
  exact absurd hsplit.symm (by simp)

theorem firstFit_concat {x : α} : FirstFit conflict (l ++ [x]) color ↔
    FirstFit conflict l color ∧ IsLeast (freeColors conflict color l x) (color x) :=
  forall_split_concat

theorem FirstFit.congr (h : FirstFit conflict l color) (heq : ∀ x ∈ l, color x = other x) :
    FirstFit conflict l other := by
  intro done x rest hsplit
  have hmem : ∀ y ∈ done ++ x :: rest, color y = other y := fun y hy => heq y (hsplit ▸ hy)
  have hleast := h done x rest hsplit
  rwa [freeColors_congr fun y hy => hmem y (List.mem_append_left _ hy),
    hmem x (List.mem_append_right _ List.mem_cons_self)] at hleast

/-- There is one first-fit colouring. -/
theorem FirstFit.unique (h : FirstFit conflict l color) (h' : FirstFit conflict l other) :
    ∀ x ∈ l, color x = other x := by
  induction l using List.reverseRecOn with
  | nil => exact fun x hx => absurd hx List.not_mem_nil
  | append_singleton l x ih =>
      rw [firstFit_concat] at h h'
      have heq := ih h.1 h'.1
      intro y hy
      obtain hy | hy := List.mem_append.mp hy
      · exact heq y hy
      · obtain rfl := List.mem_singleton.mp hy
        have hleast := h.2
        rw [freeColors_congr heq] at hleast
        exact hleast.unique h'.2

/-- Elements in conflict have different colours. -/
theorem FirstFit.ne (h : FirstFit conflict l color) (hsymm : ∀ x y, conflict x y → conflict y x)
    {x y : α} (hx : x ∈ l) (hy : y ∈ l) (hne : x ≠ y) (hconflict : conflict x y) :
    color x ≠ color y := by
  obtain ⟨done, rest, rfl⟩ := List.append_of_mem hx
  obtain hdone | hrest := List.mem_append.mp hy
  · exact ((h done x rest rfl).1 y hdone hconflict).symm
  · obtain rfl | hrest := List.mem_cons.mp hrest
    · exact absurd rfl hne
    · obtain ⟨between, after, rfl⟩ := List.append_of_mem hrest
      refine (h (done ++ x :: between) y after (by simp)).1 x ?_ (hsymm x y hconflict)
      exact List.mem_append_right _ List.mem_cons_self

end Theory
