import Mathlib.Data.List.Basic

/-! # Elimination of vertices

Eliminating a vertex of a graph connects its neighbours with each other and removes it.  A list
of scopes links the vertices that share a scope, and the union of the scopes of a vertex,
without it, takes the place of these scopes: this eliminates the vertex from the graph of the
links (`linked_eliminate_iff`). -/

namespace Theory

variable {V : Type*}

/-- The graph without `v`, the neighbours of `v` connected with each other. -/
def eliminate (G : V → V → Prop) (v : V) (a b : V) : Prop :=
  a ≠ v ∧ b ≠ v ∧ (G a b ∨ a ≠ b ∧ G v a ∧ G v b)

theorem eliminate_symm {G : V → V → Prop} (h : ∀ a b, G a b → G b a) {v a b : V}
    (hab : eliminate G v a b) : eliminate G v b a := by
  obtain ⟨ha, hb, hedge | ⟨hne, hva, hvb⟩⟩ := hab
  · exact ⟨hb, ha, .inl (h a b hedge)⟩
  · exact ⟨hb, ha, .inr ⟨hne.symm, hvb, hva⟩⟩

theorem eliminate_irrefl {G : V → V → Prop} (h : ∀ a, ¬G a a) (v a : V) : ¬eliminate G v a a := by
  rintro ⟨-, -, hedge | ⟨hne, -⟩⟩
  · exact h a hedge
  · exact hne rfl

/-- Two vertices share a scope. -/
def Linked (scopes : List (List V)) (a b : V) : Prop := a ≠ b ∧ ∃ s ∈ scopes, a ∈ s ∧ b ∈ s

/-- `union` takes the place of the scopes of `v`. -/
structure Merges (scopes next : List (List V)) (v : V) (union : List V) : Prop where
  mem_union : ∀ a, a ∈ union ↔ a ≠ v ∧ ∃ s ∈ scopes, v ∈ s ∧ a ∈ s
  mem_next : ∀ s, s ∈ next ↔ (s ∈ scopes ∧ v ∉ s) ∨ s = union

/-- The union of the scopes of a vertex lists its neighbours. -/
theorem Merges.mem_iff {scopes next : List (List V)} {v : V} {union : List V}
    (h : Merges scopes next v union) (a : V) : a ∈ union ↔ Linked scopes v a := by
  rw [h.mem_union]
  exact and_congr_left' ne_comm

theorem linked_eliminate_iff {scopes next : List (List V)} {v : V} {union : List V}
    (h : Merges scopes next v union) (a b : V) :
    Linked next a b ↔ eliminate (Linked scopes) v a b := by
  constructor
  · rintro ⟨hne, s, hs, ha, hb⟩
    rcases (h.mem_next s).mp hs with ⟨hmem, hv⟩ | rfl
    · refine ⟨?_, ?_, .inl ⟨hne, s, hmem, ha, hb⟩⟩
      · rintro rfl
        exact hv ha
      · rintro rfl
        exact hv hb
    · refine ⟨((h.mem_union a).mp ha).1, ((h.mem_union b).mp hb).1, .inr ⟨hne, ?_, ?_⟩⟩
      · exact (h.mem_iff a).mp ha
      · exact (h.mem_iff b).mp hb
  · rintro ⟨hav, hbv, ⟨hne, s, hs, ha, hb⟩ | ⟨hne, hva, hvb⟩⟩
    · by_cases hv : v ∈ s
      · refine ⟨hne, union, (h.mem_next union).mpr (.inr rfl), ?_, ?_⟩
        · exact (h.mem_union a).mpr ⟨hav, s, hs, hv, ha⟩
        · exact (h.mem_union b).mpr ⟨hbv, s, hs, hv, hb⟩
      · exact ⟨hne, s, (h.mem_next s).mpr (.inl ⟨hs, hv⟩), ha, hb⟩
    · exact ⟨hne, union, (h.mem_next union).mpr (.inr rfl), (h.mem_iff a).mpr hva,
        (h.mem_iff b).mpr hvb⟩

end Theory
