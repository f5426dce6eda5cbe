import Mathlib.Algebra.Order.Monoid.WithTop
import Mathlib.Algebra.BigOperators.Group.List.Basic
import Mathlib.Logic.Function.Basic

/-! # Min-sum variable elimination

A cost of the assignments `V → L` is minimised one variable at a time.  Eliminating a variable
replaces the cost by its minimum over the values of the variable, and a choice function says
where the minimum is attained (`Eliminates`).  After a run of eliminations the last cost is a
lower bound of the first one, and the choices, made in the reverse order, attain it
(`EliminationRun.le`, `EliminationRun.rebuild_eq`). -/

namespace Theory

variable {V L M : Type*}

/-- Every variable has an admitted value. -/
def Admitted (values : Set L) (f : V → L) : Prop := ∀ u, f u ∈ values

variable [DecidableEq V] {values : Set L}

theorem Admitted.update {f : V → L} (h : Admitted values f) (v : V) {a : L} (ha : a ∈ values) :
    Admitted values (Function.update f v a) := by
  intro u
  by_cases hu : u = v
  · rw [hu, Function.update_self]
    exact ha
  · rw [Function.update_of_ne hu]
    exact h u

section elimination

variable [LE M]

/-- `next` is the minimum of `cost` over the values of `v`, attained at the choice. -/
structure Eliminates (values : Set L) (v : V) (choice : (V → L) → L) (cost next : (V → L) → M) :
    Prop where
  admitted : ∀ f, Admitted values f → choice f ∈ values
  attained : ∀ f, Admitted values f → cost (Function.update f v (choice f)) = next f
  least : ∀ f, Admitted values f → ∀ a ∈ values, next f ≤ cost (Function.update f v a)

/-- One elimination after the other, each with its variable and its choice. -/
inductive EliminationRun (values : Set L) : List (V × ((V → L) → L)) → ((V → L) → M) →
    ((V → L) → M) → Prop
  | nil (cost) : EliminationRun values [] cost cost
  | cons {v choice rest cost next last} (step : Eliminates values v choice cost next)
      (run : EliminationRun values rest next last) :
      EliminationRun values ((v, choice) :: rest) cost last

/-- The choices, from the last elimination to the first. -/
def rebuild (steps : List (V × ((V → L) → L))) (f : V → L) : V → L :=
  steps.foldr (fun step g => Function.update g step.1 (step.2 g)) f

theorem EliminationRun.append {steps more : List (V × ((V → L) → L))}
    {first next last : (V → L) → M} (h : EliminationRun values steps first next)
    (hmore : EliminationRun values more next last) :
    EliminationRun values (steps ++ more) first last := by
  induction h with
  | nil => exact hmore
  | cons step _ ih => exact .cons step (ih hmore)

theorem EliminationRun.rebuild_admitted {steps : List (V × ((V → L) → L))}
    {first last : (V → L) → M} (h : EliminationRun values steps first last) {f : V → L}
    (hf : Admitted values f) : Admitted values (rebuild steps f) := by
  induction h with
  | nil => exact hf
  | cons step _ ih => exact ih.update _ (step.admitted _ ih)

theorem EliminationRun.choice_mem {steps : List (V × ((V → L) → L))} {first last : (V → L) → M}
    (h : EliminationRun values steps first last) :
    ∀ step ∈ steps, ∀ f, Admitted values f → step.2 f ∈ values := by
  induction h with
  | nil => exact fun step hstep => (List.not_mem_nil hstep).elim
  | cons first _ ih =>
      intro step hstep f hf
      rcases List.mem_cons.mp hstep with rfl | hstep
      · exact first.admitted f hf
      · exact ih step hstep f hf

/-- The choices attain the last cost. -/
theorem EliminationRun.rebuild_eq {steps : List (V × ((V → L) → L))} {first last : (V → L) → M}
    (h : EliminationRun values steps first last) {f : V → L} (hf : Admitted values f) :
    first (rebuild steps f) = last f := by
  induction h with
  | nil => rfl
  | cons step run ih => exact (step.attained _ (run.rebuild_admitted hf)).trans ih

end elimination

/-- The last cost is a lower bound. -/
theorem EliminationRun.le [Preorder M] {steps : List (V × ((V → L) → L))}
    {first last : (V → L) → M} (h : EliminationRun values steps first last) {f : V → L}
    (hf : Admitted values f) : last f ≤ first f := by
  induction h with
  | nil => exact le_rfl
  | @cons v _ _ _ _ _ step _ ih =>
      have hstep := step.least f hf (f v) (hf v)
      rw [Function.update_eq_self] at hstep
      exact ih.trans hstep

/-- Terms without the variable stay. -/
theorem Eliminates.add_left [Add M] [Preorder M] [AddLeftMono M] {v : V}
    {choice : (V → L) → L} {cost next rest : (V → L) → M}
    (h : Eliminates values v choice cost next)
    (hrest : ∀ f a, rest (Function.update f v a) = rest f) :
    Eliminates values v choice (fun f => rest f + cost f) fun f => rest f + next f where
  admitted := h.admitted
  attained f hf := by rw [hrest, h.attained f hf]
  least f hf a ha := by
    rw [hrest]
    exact add_le_add_right (h.least f hf a ha) _

end Theory
