import Mathlib.Order.Lattice
import Mathlib.Data.List.Lex

/-! # Searches that keep an incumbent

A depth-first search with a bound keeps the best score found so far and may be cut short by a
limit.  `Grows` is what any part of such a run does to it, and `Covers` says that a score needs
no further attention: the run was cut short, or something at most as large was found.  A loop
over branches grows (`grows_foldl`) and covers what one of its branches covers
(`covers_foldl`). -/

namespace Theory

/-- What a search keeps. -/
structure Incumbent (S : Type*) where
  limitHit : Bool
  best : Option S

section incumbent

variable {S : Type*} [Preorder S]

/-- A run forgets neither the limit nor the best score. -/
structure Grows (first second : Incumbent S) : Prop where
  limitHit : first.limitHit = true → second.limitHit = true
  best : ∀ score, first.best = some score → ∃ better, second.best = some better ∧ better ≤ score

/-- Something at most `target` was found, unless the run was cut short. -/
def Covers (state : Incumbent S) (target : S) : Prop :=
  state.limitHit = true ∨ ∃ score, state.best = some score ∧ score ≤ target

theorem Grows.refl (state : Incumbent S) : Grows state state where
  limitHit := id
  best score hscore := ⟨score, hscore, le_rfl⟩

theorem Grows.trans {first second third : Incumbent S} (h : Grows first second)
    (h' : Grows second third) : Grows first third where
  limitHit hlimit := h'.limitHit (h.limitHit hlimit)
  best score hscore := by
    obtain ⟨better, hbetter, hle⟩ := h.best score hscore
    obtain ⟨best, hbest, hle'⟩ := h'.best better hbetter
    exact ⟨best, hbest, hle'.trans hle⟩

theorem Covers.grows {first second : Incumbent S} {target : S} (h : Covers first target)
    (hgrows : Grows first second) : Covers second target := by
  rcases h with hlimit | ⟨score, hscore, hle⟩
  · exact .inl (hgrows.limitHit hlimit)
  · obtain ⟨better, hbetter, hle'⟩ := hgrows.best score hscore
    exact .inr ⟨better, hbetter, hle'.trans hle⟩

variable {α σ : Type*} (view : σ → Incumbent S) {step : σ → α → σ}

theorem grows_foldl (hstep : ∀ state x, Grows (view state) (view (step state x))) (l : List α)
    (start : σ) : Grows (view start) (view (l.foldl step start)) := by
  induction l generalizing start with
  | nil => exact Grows.refl _
  | cons x rest ih => exact (hstep start x).trans (ih _)

/-- One branch that covers the target is enough; `P` holds of every state the loop reaches. -/
theorem covers_foldl (hstep : ∀ state x, Grows (view state) (view (step state x))) {l : List α}
    (P : σ → Prop) (hP : ∀ state, ∀ x ∈ l, P state → P (step state x)) {x : α} (hx : x ∈ l)
    {target : S} (hcovers : ∀ state, P state → Covers (view (step state x)) target) {start : σ}
    (hstart : P start) : Covers (view (l.foldl step start)) target := by
  induction l generalizing start with
  | nil => cases hx
  | cons y rest ih =>
      rw [List.foldl_cons]
      rcases List.mem_cons.mp hx with rfl | hrest
      · exact (hcovers start hstart).grows (grows_foldl view hstep rest _)
      · exact ih (fun state z hz => hP state z (List.mem_cons_of_mem y hz)) hrest
          (hP start y List.mem_cons_self hstart)

end incumbent

/-! ### Scores -/

/-- Scores that list the same terms compare like their terms. -/
theorem map_le_map {α S : Type*} [LinearOrder S] {f g : α → S} {l : List α}
    (h : ∀ x ∈ l, f x ≤ g x) : l.map f ≤ l.map g := by
  induction l with
  | nil => exact le_rfl
  | cons x rest ih =>
      obtain ⟨hx, hrest⟩ := List.forall_mem_cons.mp h
      rw [List.map_cons, List.map_cons]
      rcases hx.lt_or_eq with hlt | heq
      · exact le_of_lt (List.Lex.rel hlt)
      · rw [heq]
        exact List.cons_le_cons _ (ih hrest)

/-- The comparison of two scores reads their heads first. -/
theorem cons_le_cons_cases {S : Type*} [LinearOrder S] {x y : S} {l m : List S}
    (h : x :: l ≤ y :: m) : x < y ∨ x = y ∧ l ≤ m := by
  rcases lt_trichotomy x y with hlt | rfl | hgt
  · exact .inl hlt
  · refine .inr ⟨rfl, not_lt.mp fun hlt => ?_⟩
    exact absurd (List.Lex.cons hlt) (not_lt.mpr h)
  · exact absurd (List.Lex.rel hgt) (not_lt.mpr h)

end Theory
