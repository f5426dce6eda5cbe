import Mathlib.Data.List.Chain
import Mathlib.Data.List.Forall2

/-! # Loops that may stop

A loop whose body may fail is `List.foldlM` in `Except`.  `bind_eq_ok` takes a sequence of
steps apart, and `foldlM_induction` is the rule of a loop: what holds at the start and is kept
by every step that does not fail holds at the end.  `forall_mem_scanl` and `isChain_scanl` are the
rules for the states a loop goes through. -/

namespace Theory

section except

variable {ε α β σ : Type}

theorem ok_bind (value : α) (next : α → Except ε β) : (Except.ok value >>= next) = next value := rfl

theorem bind_eq_ok {x : Except ε α} {next : α → Except ε β} {result : β} :
    (x >>= next) = .ok result ↔ ∃ value, x = .ok value ∧ next value = .ok result := by
  cases x with
  | error what => exact ⟨(fun h => nomatch h), (fun ⟨_, h, _⟩ => nomatch h)⟩
  | ok value =>
      rw [ok_bind]
      refine ⟨fun h => ⟨value, rfl, h⟩, fun ⟨other, h, hnext⟩ => ?_⟩
      rw [Except.ok.inj h]
      exact hnext

theorem bind_eq_error {x : Except ε α} {next : α → Except ε β} {what : ε} :
    (x >>= next) = .error what ↔
      x = .error what ∨ ∃ value, x = .ok value ∧ next value = .error what := by
  cases x with
  | error other =>
      constructor
      · intro h
        exact .inl (congrArg Except.error (Except.error.inj h))
      · rintro (h | ⟨_, h, _⟩)
        · rw [Except.error.inj h]
          rfl
        · cases h
  | ok value =>
      rw [ok_bind]
      refine ⟨fun h => .inr ⟨value, rfl, h⟩, ?_⟩
      rintro (h | ⟨other, h, hnext⟩)
      · cases h
      · rw [Except.ok.inj h]
        exact hnext

/-- The rule of a loop, over the elements done. -/
theorem foldlM_induction {step : σ → α → Except ε σ} (P : List α → σ → Prop) {l : List α}
    {start result : σ} (hstart : P [] start)
    (hstep : ∀ done x rest state next, l = done ++ x :: rest → P done state →
      step state x = .ok next → P (done ++ [x]) next)
    (h : l.foldlM step start = .ok result) : P l result := by
  suffices hgeneral : ∀ (rest done : List α) (state : σ), l = done ++ rest → P done state →
      rest.foldlM step state = .ok result → P l result from hgeneral l [] start rfl hstart h
  intro rest
  induction rest with
  | nil =>
      intro done state hl hdone hrest
      obtain rfl := Except.ok.inj hrest
      rwa [hl, List.append_nil]
  | cons x rest ih =>
      intro done state hl hdone hrest
      rw [List.foldlM_cons, bind_eq_ok] at hrest
      obtain ⟨next, hnext, hrest⟩ := hrest
      exact ih (done ++ [x]) next (by simp [hl]) (hstep done x rest state next hl hdone hnext) hrest

/-- A loop fails in one of its steps, after steps that did not. -/
theorem foldlM_error {step : σ → α → Except ε σ} (P : List α → σ → Prop) {l : List α}
    {start : σ} {what : ε} (hstart : P [] start)
    (hstep : ∀ done x rest state next, l = done ++ x :: rest → P done state →
      step state x = .ok next → P (done ++ [x]) next)
    (h : l.foldlM step start = .error what) :
    ∃ done x rest state, l = done ++ x :: rest ∧ P done state ∧ step state x = .error what := by
  suffices hgeneral : ∀ (rest done : List α) (state : σ), l = done ++ rest → P done state →
      rest.foldlM step state = .error what →
        ∃ done x rest state, l = done ++ x :: rest ∧ P done state ∧ step state x = .error what from
    hgeneral l [] start rfl hstart h
  intro rest
  induction rest with
  | nil =>
      intro done state hl hdone hrest
      cases hrest
  | cons x rest ih =>
      intro done state hl hdone hrest
      rw [List.foldlM_cons, bind_eq_error] at hrest
      obtain hfail | ⟨next, hnext, hrest⟩ := hrest
      · exact ⟨done, x, rest, state, hl, hdone, hfail⟩
      · exact ih (done ++ [x]) next (by simp [hl]) (hstep done x rest state next hl hdone hnext) hrest

theorem mapM_eq_ok {f : α → Except ε β} {l : List α} {result : List β} :
    l.mapM f = .ok result ↔ List.Forall₂ (fun x y => f x = .ok y) l result := by
  induction l generalizing result with
  | nil =>
      rw [List.mapM_nil, List.forall₂_nil_left_iff]
      exact ⟨fun h => (Except.ok.inj h).symm, fun h => h ▸ rfl⟩
  | cons x rest ih =>
      rw [List.mapM_cons, bind_eq_ok, List.forall₂_cons_left_iff]
      constructor
      · rintro ⟨y, hy, h⟩
        obtain ⟨ys, hys, h⟩ := bind_eq_ok.mp h
        exact ⟨y, ys, hy, ih.mp hys, (Except.ok.inj h).symm⟩
      · rintro ⟨y, ys, hy, hys, rfl⟩
        exact ⟨y, hy, bind_eq_ok.mpr ⟨ys, ih.mpr hys, rfl⟩⟩

theorem exists_of_forall₂_right {R : α → β → Prop} {l : List α} {result : List β}
    (h : List.Forall₂ R l result) {y : β} (hy : y ∈ result) : ∃ x ∈ l, R x y := by
  induction h with
  | nil => cases hy
  | @cons x z l result hx _ ih =>
      rcases List.mem_cons.mp hy with rfl | hy
      · exact ⟨x, List.mem_cons_self, hx⟩
      · obtain ⟨w, hw, hrel⟩ := ih hy
        exact ⟨w, List.mem_cons_of_mem x hw, hrel⟩

theorem exists_of_forall₂_left {R : α → β → Prop} {l : List α} {result : List β}
    (h : List.Forall₂ R l result) {x : α} (hx : x ∈ l) : ∃ y ∈ result, R x y := by
  obtain ⟨y, hy, hrel⟩ := exists_of_forall₂_right h.flip hx
  exact ⟨y, hy, hrel⟩

theorem mapM_error {f : α → Except ε β} {l : List α} {what : ε} (h : l.mapM f = .error what) :
    ∃ x ∈ l, f x = .error what := by
  induction l with
  | nil => cases h
  | cons x rest ih =>
      rw [List.mapM_cons, bind_eq_error] at h
      obtain h | ⟨y, -, h⟩ := h
      · exact ⟨x, List.mem_cons_self, h⟩
      · obtain h | ⟨ys, -, h⟩ := bind_eq_error.mp h
        · obtain ⟨z, hz, hfail⟩ := ih h
          exact ⟨z, List.mem_cons_of_mem x hz, hfail⟩
        · cases h

end except

/-- A map none of whose steps has an effect. -/
theorem mapM_eq_pure {m : Type → Type} [Monad m] [LawfulMonad m] {α β : Type} {f : α → m β}
    {g : α → β} {l : List α} (h : ∀ x ∈ l, f x = pure (g x)) : l.mapM f = pure (l.map g) := by
  induction l with
  | nil => rfl
  | cons x rest ih =>
      rw [List.mapM_cons, h x List.mem_cons_self, pure_bind,
        ih fun y hy => h y (List.mem_cons_of_mem x hy), pure_bind, List.map_cons]

section scanl

variable {σ α : Type*} {step : σ → α → σ} {l : List α} {start : σ}

/-- What every step keeps holds of all the states of a loop. -/
theorem forall_mem_scanl {P : σ → Prop} (hstep : ∀ state, P state → ∀ x ∈ l, P (step state x))
    (hstart : P start) : ∀ state ∈ l.scanl step start, P state := by
  induction l generalizing start with
  | nil =>
      intro state hstate
      rwa [List.mem_singleton.mp hstate]
  | cons x rest ih =>
      rw [List.scanl_cons, List.forall_mem_cons]
      exact ⟨hstart, ih (fun state hstate y hy => hstep state hstate y (List.mem_cons_of_mem x hy))
        (hstep start hstart x List.mem_cons_self)⟩

/-- The states of a loop form a chain when each of its steps relates what it takes to what it
gives. -/
theorem isChain_scanl {R : σ → σ → Prop}
    (h : ∀ pair ∈ (l.scanl step start).zip l, R pair.1 (step pair.1 pair.2)) :
    (l.scanl step start).IsChain R := by
  induction l generalizing start with
  | nil => exact List.isChain_singleton _
  | cons x rest ih =>
      rw [List.scanl_cons, List.zip_cons_cons, List.forall_mem_cons] at h
      rw [List.scanl_cons]
      apply (ih h.2).cons
      rw [List.head?_scanl]
      rintro _ ⟨⟩
      exact h.1

end scanl

end Theory
