import Mathlib.Data.Finset.Powerset
import Mathlib.Data.Set.Basic

/-! # Cores and their deletion

A core is a set that no solution avoids.  Deleting elements as long as the rest is still a core
leaves a core from which nothing can be deleted (`Shrunk`), a solution meets every core
(`Blocked`), and a list of different sets of edges is not longer than their number
(`length_le_two_pow`). -/

namespace Theory

section shrink

variable {α : Type*} {bad : Set α → Prop} {tested : Set α} {core : Set α} {e : α}

/-- A core, with what was tested and kept. -/
structure Shrunk (bad : Set α → Prop) (tested core : Set α) : Prop where
  blocks : bad core
  needed : ∀ e ∈ core, e ∈ tested → ¬ bad (core \ {e})

theorem Shrunk.start (h : bad core) : Shrunk bad ∅ core where
  blocks := h
  needed _ _ htested := htested.elim

/-- The rest is still a core. -/
theorem Shrunk.drop (hmono : ∀ s t, s ⊆ t → bad s → bad t) (h : Shrunk bad tested core)
    (hbad : bad (core \ {e})) : Shrunk bad (insert e tested) (core \ {e}) where
  blocks := hbad
  needed x hx htested hrest := by
    obtain ⟨hcore, hne⟩ := hx
    refine h.needed x hcore (htested.resolve_left hne) (hmono _ _ ?_ hrest)
    exact Set.sdiff_subset_sdiff_left Set.sdiff_subset

/-- The rest is no core. -/
theorem Shrunk.keep (h : Shrunk bad tested core) (hgood : ¬ bad (core \ {e})) :
    Shrunk bad (insert e tested) core where
  blocks := h.blocks
  needed x hx htested := by
    rcases htested with rfl | htested
    · exact hgood
    · exact h.needed x hx htested

end shrink

section blocked

variable {α β : Type*} {solutions : β → Prop} {activates : β → α → Prop}

/-- Every solution activates an element of the set. -/
def Blocked (solutions : β → Prop) (activates : β → α → Prop) (s : Set α) : Prop :=
  ∀ b, solutions b → ∃ e ∈ s, activates b e

theorem Blocked.mono {s t : Set α} (hsub : s ⊆ t) (h : Blocked solutions activates s) :
    Blocked solutions activates t := by
  intro b hb
  obtain ⟨e, he, hactive⟩ := h b hb
  exact ⟨e, hsub he, hactive⟩

end blocked

/-- Different sets of numbers below `n` are at most as many as all of them. -/
theorem length_le_two_pow {n : ℕ} {l : List (Finset ℕ)} (hnodup : l.Nodup)
    (hsub : ∀ s ∈ l, s ⊆ Finset.range n) : l.length ≤ 2 ^ n := by
  have hcard : l.toFinset.card ≤ (Finset.range n).powerset.card := by
    apply Finset.card_le_card
    intro s hs
    exact Finset.mem_powerset.mpr (hsub s (List.mem_toFinset.mp hs))
  rwa [List.toFinset_card_of_nodup hnodup, Finset.card_powerset, Finset.card_range] at hcard

end Theory
