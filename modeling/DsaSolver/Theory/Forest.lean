import Mathlib.Data.Finset.Card
import Mathlib.Logic.Function.Basic
import Mathlib.Logic.Relation
import Mathlib.Tactic

/-! # Parent-pointer forests

A forest is a parent function `f : α → α` whose fixed points are the roots; `Ranked f` says
that its parent chains end.  `RootOf f i r` is the chain from `i` to its root `r`.  Path
compression (`Compressed`) keeps every root, and linking one root below another (`link`)
merges exactly two trees; `sameRoot_link_iff` is the rule a union-find structure needs. -/

namespace Theory.Forest

variable {α : Type*} {f g : α → α}

/-- The parent chain of `i` ends in the root `r`. -/
inductive RootOf (f : α → α) : α → α → Prop
  | root {r : α} : f r = r → RootOf f r r
  | step {i r : α} : f i ≠ i → RootOf f (f i) r → RootOf f i r

/-- Parent chains are well founded. -/
def Ranked (f : α → α) : Prop := ∃ rank : α → ℕ, ∀ i, f i ≠ i → rank (f i) < rank i

/-- Two elements of one tree. -/
def SameRoot (f : α → α) (i j : α) : Prop := ∃ r, RootOf f i r ∧ RootOf f j r

theorem RootOf.fixed {i r : α} (h : RootOf f i r) : f r = r := by
  induction h with
  | root h => exact h
  | step _ _ ih => exact ih

theorem RootOf.unique {i r s : α} (h : RootOf f i r) (h' : RootOf f i s) : r = s := by
  induction h with
  | root h =>
      cases h' with
      | root _ => rfl
      | step hne _ => exact absurd h hne
  | step hne _ ih =>
      cases h' with
      | root h => exact absurd h hne
      | step _ h => exact ih h

theorem RootOf.trans {i r s : α} (h : RootOf f i r) (h' : RootOf f r s) : RootOf f i s := by
  induction h with
  | root _ => exact h'
  | step hne _ ih => exact .step hne (ih h')

theorem Ranked.exists_root (hf : Ranked f) (i : α) : ∃ r, RootOf f i r := by
  obtain ⟨rank, hrank⟩ := hf
  induction hn : rank i using Nat.strong_induction_on generalizing i with
  | _ n ih =>
      by_cases h : f i = i
      · exact ⟨i, .root h⟩
      · obtain ⟨r, hr⟩ := ih (rank (f i)) (hn ▸ hrank i h) (f i) rfl
        exact ⟨r, .step h hr⟩

theorem rank_lt_of_rootOf {rank : α → ℕ} (hrank : ∀ i, f i ≠ i → rank (f i) < rank i) {i r : α}
    (h : RootOf f i r) : r = i ∨ rank r < rank i := by
  induction h with
  | root _ => exact .inl rfl
  | step hne _ ih =>
      have := hrank _ hne
      rcases ih with rfl | ih
      · exact .inr this
      · exact .inr (ih.trans this)

/-- Ranks of a finite forest can be taken below its size. -/
theorem Ranked.exists_bounded {f : ℕ → ℕ} (hf : Ranked f) {n : ℕ} (hlt : ∀ i, f i ≠ i → f i < n) :
    ∃ rank : ℕ → ℕ, (∀ i, f i ≠ i → rank (f i) < rank i) ∧ ∀ i, rank i ≤ n := by
  obtain ⟨rank, hrank⟩ := hf
  refine ⟨fun i => ((Finset.range n).filter (fun j => rank j < rank i)).card, ?_, ?_⟩
  · intro i hi
    apply Finset.card_lt_card
    rw [Finset.ssubset_iff_of_subset]
    · refine ⟨f i, ?_, ?_⟩
      · simp [hlt i hi, hrank i hi]
      · simp
    · intro j hj
      simp only [Finset.mem_filter] at hj ⊢
      exact ⟨hj.1, hj.2.trans (hrank i hi)⟩
  · intro i
    simpa using Finset.card_filter_le (Finset.range n) (fun j => rank j < rank i)

/-! ### Path compression -/

/-- `g` is `f` with some parents replaced by roots. -/
def Compressed (f g : α → α) : Prop := ∀ i, g i = f i ∨ (f i ≠ i ∧ RootOf f i (g i))

theorem Compressed.refl (f : α → α) : Compressed f f := fun _ => .inl rfl

theorem Compressed.update [DecidableEq α] (h : Compressed f g) {i r : α} (hne : f i ≠ i)
    (hr : RootOf f i r) : Compressed f (Function.update g i r) := by
  intro j
  by_cases hj : j = i
  · subst hj
    rw [Function.update_self]
    exact .inr ⟨hne, hr⟩
  · rw [Function.update_of_ne hj]
    exact h j

theorem Compressed.fixed_iff (hf : Ranked f) (h : Compressed f g) (i : α) : g i = i ↔ f i = i := by
  obtain ⟨rank, hrank⟩ := hf
  rcases h i with e | ⟨hne, hr⟩
  · rw [e]
  · refine ⟨fun e => ?_, fun e => absurd e hne⟩
    rw [e] at hr
    exact hr.fixed

theorem Compressed.ranked (hf : Ranked f) (h : Compressed f g) : Ranked g := by
  obtain ⟨rank, hrank⟩ := id hf
  refine ⟨rank, fun i hi => ?_⟩
  rcases h i with e | ⟨hne, hr⟩
  · rw [e] at hi ⊢
    exact hrank i hi
  · exact (rank_lt_of_rootOf hrank hr).resolve_left hi

theorem Compressed.rootOf_of (hf : Ranked f) (h : Compressed f g) {i r : α} (hr : RootOf f i r) :
    RootOf g i r := by
  induction hr with
  | root e => exact .root ((h.fixed_iff hf _).mpr e)
  | @step i r hne hr ih =>
      have hg : g i ≠ i := fun e => hne ((h.fixed_iff hf i).mp e)
      rcases h i with e | ⟨_, hr'⟩
      · exact .step hg (by rw [e]; exact ih)
      · have e : g i = r := hr'.unique (.step hne hr)
        refine .step hg ?_
        rw [e]
        exact .root ((h.fixed_iff hf r).mpr hr.fixed)

theorem Compressed.rootOf_iff (hf : Ranked f) (h : Compressed f g) (i r : α) :
    RootOf g i r ↔ RootOf f i r := by
  refine ⟨fun hr => ?_, h.rootOf_of hf⟩
  obtain ⟨s, hs⟩ := hf.exists_root i
  rwa [hr.unique (h.rootOf_of hf hs)]

/-! ### Linking -/

section link

variable [DecidableEq α] {a b : α}

/-- Hang the root `b` below `a`. -/
def link (f : α → α) (a b : α) : α → α := Function.update f b a

theorem ranked_link (hf : Ranked f) (ha : f a = a) (hab : a ≠ b) : Ranked (link f a b) := by
  obtain ⟨rank, hrank⟩ := hf
  refine ⟨fun i => if i = a then 0 else rank i + 1, fun i hi => ?_⟩
  by_cases hib : i = b
  · subst hib
    simp [link, hab.symm]
  · have e : link f a b i = f i := Function.update_of_ne hib _ _
    rw [e] at hi ⊢
    have hia : i ≠ a := by
      rintro rfl
      exact hi ha
    have := hrank i hi
    by_cases hfa : f i = a
    · simp [hfa, hia]
    · simp [hfa, hia, this]

theorem rootOf_link (ha : f a = a) (hb : f b = b) (hab : a ≠ b) {i s : α} (hs : RootOf f i s) :
    RootOf (link f a b) i (if s = b then a else s) := by
  have hra : RootOf (link f a b) a a := .root (by rw [link, Function.update_of_ne hab, ha])
  induction hs with
  | @root r hr =>
      by_cases hrb : r = b
      · rw [if_pos hrb, hrb]
        refine .step ?_ ?_ <;> rw [link, Function.update_self]
        · exact hab
        · exact hra
      · rw [if_neg hrb]
        exact .root (by rw [link, Function.update_of_ne hrb, hr])
  | @step i r hne _ ih =>
      have hib : i ≠ b := by
        rintro rfl
        exact hne hb
      have e : link f a b i = f i := Function.update_of_ne hib _ _
      exact .step (by rw [e]; exact hne) (by rw [e]; exact ih)

theorem SameRoot.link (ha : f a = a) (hb : f b = b) (hab : a ≠ b) {i j : α} (h : SameRoot f i j) :
    SameRoot (link f a b) i j := by
  obtain ⟨r, hi, hj⟩ := h
  exact ⟨_, rootOf_link ha hb hab hi, rootOf_link ha hb hab hj⟩

theorem sameRoot_link_self (hb : f b = b) (hab : a ≠ b) {x y : α} (hx : RootOf f x a)
    (hy : RootOf f y b) : SameRoot (Forest.link f a b) x y := by
  have h1 := rootOf_link hx.fixed hb hab hx
  have h2 := rootOf_link hx.fixed hb hab hy
  rw [if_neg hab] at h1
  rw [if_pos rfl] at h2
  exact ⟨a, h1, h2⟩

/-- Linking merges nothing but the two trees: every equivalence that contains the old trees
and the linked pair contains the new trees. -/
theorem sameRoot_link_le (hf : Ranked f) (hb : f b = b) (hab : a ≠ b) {x y : α}
    (hx : RootOf f x a) (hy : RootOf f y b) {E : α → α → Prop} (hE : Equivalence E)
    (hold : ∀ i j, SameRoot f i j → E i j) (hxy : E x y) {i j : α}
    (h : SameRoot (Forest.link f a b) i j) : E i j := by
  have key : ∀ k r, RootOf (Forest.link f a b) k r → E k r := by
    intro k r hr
    obtain ⟨s, hs⟩ := hf.exists_root k
    have hks : E k s := hold k s ⟨s, hs, .root hs.fixed⟩
    have e := hr.unique (rootOf_link hx.fixed hb hab hs)
    by_cases hsb : s = b
    · rw [if_pos hsb] at e
      subst e hsb
      have hsy : E s y := hold _ _ ⟨s, .root hb, hy⟩
      have hxr : E x r := hold _ _ ⟨r, hx, .root hx.fixed⟩
      exact hE.trans hks (hE.trans hsy (hE.trans (hE.symm hxy) hxr))
    · rw [if_neg hsb] at e
      rwa [e]
  obtain ⟨r, hi, hj⟩ := h
  exact hE.trans (key i r hi) (hE.symm (key j r hj))

end link

end Theory.Forest
