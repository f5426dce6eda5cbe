import Mathlib.Logic.Function.Basic
import Mathlib.Tactic.Common

/-! # Bipartition by search

A search through a symmetric relation gives every vertex it reaches a component and a parity,
opposite to that of the vertex it came from.  `Parted` is what holds in the middle of such a
search, where some pairs are still pending: the others are settled, and every two-colouring that
separates related vertices is, in a component, the parity or its flip.  Two related vertices of
one component and one parity refute all such colourings (`Parted.not_twoColors`); when no pair is
pending, the colourings are the flips of the components (`Parted.exists_flips`,
`Parted.twoColors_flips`). -/

namespace Theory

variable {V : Type*} {R : V → V → Prop}

/-- Related vertices have different colours. -/
def TwoColors (R : V → V → Prop) (f : V → Bool) : Prop := ∀ a b, R a b → f a ≠ f b

/-- The components and parities given so far. -/
structure Parted (R : V → V → Prop) (component : V → Option ℕ) (parity : V → Bool) (count : ℕ)
    (pending : V → V → Prop) : Prop where
  below : ∀ a c, component a = some c → c < count
  settled : ∀ a b, R a b → component a ≠ none →
    pending a b ∨ component b = component a ∧ parity b ≠ parity a
  rigid : ∀ f, TwoColors R f → ∀ a b, component a ≠ none → component b = component a →
    (f b ^^ parity b) = (f a ^^ parity a)

variable {component : V → Option ℕ} {parity : V → Bool} {count : ℕ} {pending : V → V → Prop}

theorem parted_none : Parted R (fun _ : V => none) parity count pending where
  below _ _ h := by cases h
  settled _ _ _ h := absurd rfl h
  rigid _ _ _ _ h := absurd rfl h

theorem Parted.mono {more : V → V → Prop} (h : Parted R component parity count pending)
    (hmore : ∀ a b, R a b → component a ≠ none → pending a b →
      more a b ∨ component b = component a ∧ parity b ≠ parity a) :
    Parted R component parity count more where
  below := h.below
  settled a b hab ha := (h.settled a b hab ha).elim (hmore a b hab ha) .inr
  rigid := h.rigid

/-- Two related vertices of one component and one parity. -/
theorem Parted.not_twoColors (h : Parted R component parity count pending) {a b : V}
    (hab : R a b) (ha : component a ≠ none) (hsame : component b = component a)
    (hparity : parity b = parity a) (f : V → Bool) : ¬ TwoColors R f := by
  intro hf
  have hrigid := h.rigid f hf a b ha hsame
  rw [hparity] at hrigid
  exact hf a b hab ((Bool.xor_left_inj.mp hrigid).symm)

section assign

variable [DecidableEq V]

/-- A vertex outside the components begins a new one. -/
theorem Parted.start (h : Parted R component parity count pending) {v : V}
    (hv : component v = none) :
    Parted R (Function.update component v (some count)) (Function.update parity v false)
      (count + 1) fun a b => pending a b ∨ a = v := by
  have hother : ∀ {a c}, a ≠ v → Function.update component v (some count) a = some c →
      component a = some c := fun ha hc => by rwa [Function.update_of_ne ha] at hc
  -- the new component has one vertex
  have hnew : ∀ {a}, Function.update component v (some count) a = some count → a = v := by
    intro a ha
    by_contra hne
    exact absurd (h.below a count (hother hne ha)) (Nat.lt_irrefl _)
  refine ⟨fun a c hc => ?_, fun a b hab ha => ?_, fun f hf a b ha hsame => ?_⟩
  · by_cases hav : a = v
    · rw [hav, Function.update_self] at hc
      rw [← Option.some.inj hc]
      exact Nat.lt_succ_self _
    · exact Nat.lt_succ_of_lt (h.below a c (hother hav hc))
  · by_cases hav : a = v
    · exact .inl (.inr hav)
    · rw [Function.update_of_ne hav] at ha ⊢
      rcases h.settled a b hab ha with hpending | ⟨hsame, hparity⟩
      · exact .inl (.inl hpending)
      · have hbv : b ≠ v := by
          rintro rfl
          exact ha (hsame.symm.trans hv)
        rw [Function.update_of_ne hbv, Function.update_of_ne hbv, Function.update_of_ne hav]
        exact .inr ⟨hsame, hparity⟩
  · by_cases hav : a = v
    · subst hav
      rw [Function.update_self] at hsame
      rw [hnew hsame]
    · have hbv : b ≠ v := by
        rintro rfl
        rw [Function.update_self] at hsame
        exact hav (hnew hsame.symm)
      rw [Function.update_of_ne hav] at ha hsame
      rw [Function.update_of_ne hbv] at hsame
      rw [Function.update_of_ne hav, Function.update_of_ne hbv]
      exact h.rigid f hf a b ha hsame

/-- A vertex outside the components, related to `a`, joins the component of `a`. -/
theorem Parted.join (h : Parted R component parity count pending) {a v : V} (hav : R a v)
    (ha : component a ≠ none) (hv : component v = none) :
    Parted R (Function.update component v (component a)) (Function.update parity v (!parity a))
      count fun x y => (pending x y ∧ ¬ (x = a ∧ y = v)) ∨ x = v := by
  have hne : a ≠ v := by
    rintro rfl
    exact ha hv
  -- the new vertex agrees with `a` under every colouring
  have hagree : ∀ f, TwoColors R f → (f v ^^ !parity a) = (f a ^^ parity a) := by
    intro f hf
    have hdiffer := hf a v hav
    cases hfa : f a <;> cases hfv : f v <;> cases parity a <;> simp_all
  refine ⟨fun x c hc => ?_, fun x y hxy hx => ?_, fun f hf x y hx hsame => ?_⟩
  · by_cases hxv : x = v
    · rw [hxv, Function.update_self] at hc
      exact h.below a c hc
    · rw [Function.update_of_ne hxv] at hc
      exact h.below x c hc
  · by_cases hxv : x = v
    · exact .inl (.inr hxv)
    · rw [Function.update_of_ne hxv] at hx ⊢
      by_cases hpair : x = a ∧ y = v
      · obtain ⟨rfl, rfl⟩ := hpair
        rw [Function.update_self, Function.update_self, Function.update_of_ne hne]
        exact .inr ⟨rfl, by simp⟩
      · rcases h.settled x y hxy hx with hpending | ⟨hsame, hparity⟩
        · exact .inl (.inl ⟨hpending, hpair⟩)
        · have hyv : y ≠ v := by
            rintro rfl
            exact hx (hsame.symm.trans hv)
          rw [Function.update_of_ne hyv, Function.update_of_ne hyv, Function.update_of_ne hxv]
          exact .inr ⟨hsame, hparity⟩
  · by_cases hxv : x = v
    · subst hxv
      by_cases hyv : y = x
      · rw [hyv]
      · rw [Function.update_of_ne hyv, Function.update_self] at hsame
        rw [Function.update_of_ne hyv, Function.update_self, hagree f hf]
        exact h.rigid f hf a y ha hsame
    · rw [Function.update_of_ne hxv] at hx hsame ⊢
      by_cases hyv : y = v
      · subst hyv
        rw [Function.update_self] at hsame ⊢
        rw [hagree f hf]
        exact h.rigid f hf x a hx hsame
      · rw [Function.update_of_ne hyv] at hsame ⊢
        exact h.rigid f hf x y hx hsame

end assign

/-! ### The end of the search -/

/-- Every colouring flips whole components of the parity. -/
theorem Parted.exists_flips (h : Parted R component parity count pending) {f : V → Bool}
    (hf : TwoColors R f) :
    ∃ flip : ℕ → Bool, ∀ a c, component a = some c → f a = (parity a ^^ flip c) := by
  classical
  refine ⟨fun c => if hc : ∃ b, component b = some c then
    (f hc.choose ^^ parity hc.choose) else false, fun a c ha => ?_⟩
  have hc : ∃ b, component b = some c := ⟨a, ha⟩
  have hrigid := h.rigid f hf hc.choose a (by
    rw [hc.choose_spec]
    exact Option.some_ne_none c) (ha.trans hc.choose_spec.symm)
  dsimp only
  rw [dif_pos hc, ← hrigid]
  cases f a <;> cases parity a <;> rfl

/-- Where no pair is pending, every flip of the parity is a colouring. -/
theorem Parted.twoColors_flips (h : Parted R component parity count fun _ _ => False)
    (hall : ∀ a b, R a b → component a ≠ none) (flip : Option ℕ → Bool) :
    TwoColors R fun a => parity a ^^ flip (component a) := by
  intro a b hab heq
  obtain ⟨hsame, hparity⟩ := (h.settled a b hab (hall a b hab)).resolve_left id
  dsimp only at heq
  rw [hsame] at heq
  exact hparity (Bool.xor_left_inj.mp heq).symm

end Theory
