import Mathlib.Data.List.FinRange
import Mathlib.Data.List.Nodup
import Mathlib.Order.Fin.Basic
import Mathlib.Logic.Equiv.Fin.Basic

/-! # Ranks in strictly sorted lists

A list is a permutation of another exactly when a bijection of their positions keeps the elements
(`perm_iff_exists_equiv`).  In a strictly sorted list the position of an element is its rank:
ranks are ordered as the elements are, and a strictly increasing map keeps them
(`idxOf_eq_of_map`). -/

namespace Theory

variable {α β : Type*}

/-! ### Permutations as bijections of positions -/

/-- A bijection of the positions of two tails, extended to the lists. -/
def consEquiv {n m : ℕ} (e : Fin n ≃ Fin m) : Fin (n + 1) ≃ Fin (m + 1) :=
  (finSuccEquiv n).trans (e.optionCongr.trans (finSuccEquiv m).symm)

theorem exists_equiv_of_perm {l k : List α} (h : l.Perm k) :
    ∃ e : Fin l.length ≃ Fin k.length, ∀ i, k.get (e i) = l.get i := by
  induction h with
  | nil => exact ⟨Equiv.refl _, fun _ => rfl⟩
  | cons a _ ih =>
      obtain ⟨e, he⟩ := ih
      refine ⟨consEquiv e, fun i => ?_⟩
      cases i using Fin.cases with
      | zero => rfl
      | succ i => exact he i
  | swap a b l =>
      refine ⟨Equiv.swap 0 1, fun i => ?_⟩
      cases i using Fin.cases with
      | zero => rfl
      | succ i =>
          cases i using Fin.cases with
          | zero => rfl
          | succ i =>
              have hfix : Equiv.swap (0 : Fin (l.length + 2)) 1 i.succ.succ = i.succ.succ :=
                Equiv.swap_apply_of_ne_of_ne (Fin.succ_ne_zero _)
                  fun h => Fin.succ_ne_zero i (Fin.succ_injective _ h)
              exact congrArg (a :: b :: l).get hfix
  | trans _ _ ih ih' =>
      obtain ⟨e, he⟩ := ih
      obtain ⟨f, hf⟩ := ih'
      exact ⟨e.trans f, fun i => (hf (e i)).trans (he i)⟩

theorem perm_of_equiv {l k : List α} (e : Fin l.length ≃ Fin k.length)
    (h : ∀ i, k.get (e i) = l.get i) : l.Perm k := by
  have hl : l = (List.finRange l.length).map fun i => k.get (e i) := by
    conv_lhs => rw [← List.map_get_finRange l]
    exact List.map_congr_left fun i _ => (h i).symm
  have hpositions : ((List.finRange l.length).map e).Perm (List.finRange k.length) := by
    rw [List.perm_ext_iff_of_nodup ((List.nodup_finRange _).map e.injective) (List.nodup_finRange _)]
    intro j
    refine ⟨fun _ => List.mem_finRange j, fun _ => ?_⟩
    exact List.mem_map.mpr ⟨e.symm j, List.mem_finRange _, e.apply_symm_apply j⟩
  have hmap := hpositions.map k.get
  rw [List.map_map, List.map_get_finRange] at hmap
  rw [hl]
  exact hmap

/-! ### Ranks -/

section rank

variable {r : α → α → Prop} {l : List α}

/-- Strictly sorted lists with the same elements are equal. -/
theorem eq_of_pairwise_of_mem_iff {k : List α} (hasymm : ∀ a b, r a b → ¬ r b a)
    (hl : l.Pairwise r) (hk : k.Pairwise r) (h : ∀ a, a ∈ l ↔ a ∈ k) : l = k := by
  have hne : ∀ {a b : α}, r a b → a ≠ b := by
    rintro a b hrel rfl
    exact hasymm a a hrel hrel
  have hperm := (List.perm_ext_iff_of_nodup (hl.imp hne) (hk.imp hne)).mpr h
  exact hperm.eq_of_pairwise (fun a b _ _ hab hba => absurd hba (hasymm a b hab)) hl hk

variable [BEq α] [LawfulBEq α]

/-- Ranks are ordered as the elements. -/
theorem rel_of_idxOf_lt (h : l.Pairwise r) {a b : α} (ha : a ∈ l) (hb : b ∈ l)
    (hlt : l.idxOf a < l.idxOf b) : r a b := by
  have ha' := List.idxOf_lt_length_iff.mpr ha
  have hb' := List.idxOf_lt_length_iff.mpr hb
  have hrel := List.pairwise_iff_getElem.mp h _ _ ha' hb' hlt
  rwa [List.getElem_idxOf, List.getElem_idxOf] at hrel

theorem idxOf_lt_of_rel (h : l.Pairwise r) (hasymm : ∀ a b, r a b → ¬ r b a) {a b : α} (ha : a ∈ l)
    (hb : b ∈ l) (hrel : r a b) : l.idxOf a < l.idxOf b := by
  rcases Nat.lt_trichotomy (l.idxOf a) (l.idxOf b) with hlt | heq | hgt
  · exact hlt
  · have hsame := List.idxOf_inj ha |>.mp heq
    rw [hsame] at hrel
    exact absurd hrel (hasymm b b hrel)
  · exact absurd (rel_of_idxOf_lt h hb ha hgt) (hasymm a b hrel)

variable [BEq β] [LawfulBEq β]

/-- A map without collisions keeps positions. -/
theorem idxOf_map_of_injOn {f : α → β} {a : α} (ha : a ∈ l)
    (hf : ∀ x ∈ l, ∀ y ∈ l, f x = f y → x = y) : (l.map f).idxOf (f a) = l.idxOf a := by
  induction l with
  | nil => exact absurd ha List.not_mem_nil
  | cons x rest ih =>
      rw [List.map_cons, List.idxOf_cons, List.idxOf_cons]
      by_cases hx : x = a
      · simp [hx]
      · have hne : f x ≠ f a := fun heq => hx (hf x List.mem_cons_self a ha heq)
        have hrest := (List.mem_cons.mp ha).resolve_left fun heq => hx heq.symm
        rw [beq_false_of_ne hx, beq_false_of_ne hne, ih hrest fun y hy z hz =>
          hf y (List.mem_cons_of_mem _ hy) z (List.mem_cons_of_mem _ hz)]

/-- A strictly increasing map between the elements of strictly sorted lists keeps ranks. -/
theorem idxOf_eq_of_map {s : β → β → Prop} {k : List β} {f : α → β}
    (hasymm : ∀ a b, s a b → ¬ s b a) (hl : l.Pairwise r) (hk : k.Pairwise s)
    (htotal : ∀ a b, a ≠ b → r a b ∨ r b a)
    (hf : ∀ a ∈ l, ∀ b ∈ l, r a b → s (f a) (f b)) (himage : ∀ b, b ∈ k ↔ ∃ a ∈ l, f a = b) {a : α}
    (ha : a ∈ l) : k.idxOf (f a) = l.idxOf a := by
  have hmap : k = l.map f := by
    refine eq_of_pairwise_of_mem_iff hasymm hk ?_ fun b => ?_
    · rw [List.pairwise_map]
      exact hl.imp_of_mem fun ha hb hrel => hf _ ha _ hb hrel
    · rw [himage, List.mem_map]
  rw [hmap]
  refine idxOf_map_of_injOn ha fun x hx y hy heq => ?_
  by_contra hne
  rcases htotal x y hne with hrel | hrel
  · have hlt := hf x hx y hy hrel
    rw [heq] at hlt
    exact hasymm _ _ hlt hlt
  · have hlt := hf y hy x hx hrel
    rw [heq] at hlt
    exact hasymm _ _ hlt hlt

end rank

end Theory
