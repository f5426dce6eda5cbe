import Mathlib.Algebra.Order.BigOperators.Group.List
import Mathlib.Algebra.Order.Group.Unbundled.Abs
import Mathlib.Data.List.Nodup
import Mathlib.Data.List.Perm.Subperm
import Mathlib.Logic.Function.Basic
import Mathlib.Tactic.Linarith

/-! # Shortest paths by relaxation

Labels are relaxed in place, arc after arc, in passes over a list of arcs; a vertex whose label
is `bound` counts as not reached.  Costs may be negative or zero, but some potential makes every
reduced cost non-negative (`Feasible`), so no cycle is negative.

The predecessors always form a tree (`Sound`): an update would close a cycle only if it did not
lower the label.  When no pass is left or a pass changes nothing, the labels are shortest
(`Best`), so they are a potential again, and the arcs of the tree are tight. -/

namespace Theory

/-- An arc, with its place in the list of the arcs that leave `tail`. -/
structure Arc (V : Type) where
  tail : V
  index : ℕ
  head : V
  cost : ℤ

section walks

variable {V : Type}

/-- A walk from the source, its last arc in front. -/
inductive Walk (arcs : List (Arc V)) (source : V) : V → List (Arc V) → Prop
  | nil : Walk arcs source source []
  | cons {arc : Arc V} {path : List (Arc V)} : arc ∈ arcs → Walk arcs source arc.tail path →
      Walk arcs source arc.head (arc :: path)

/-- No vertex is entered twice, and the source not at all. -/
structure Simple (source : V) (path : List (Arc V)) : Prop where
  heads : (path.map Arc.head).Nodup
  source : source ∉ path.map Arc.head

def pathCost (path : List (Arc V)) : ℤ := (path.map Arc.cost).sum

/-- Reduced costs are not negative. -/
def Feasible (arcs : List (Arc V)) (potential : V → ℤ) : Prop :=
  ∀ arc ∈ arcs, potential arc.head ≤ potential arc.tail + arc.cost

variable {arcs : List (Arc V)} {source : V}

@[simp] theorem pathCost_nil : pathCost ([] : List (Arc V)) = 0 := rfl

@[simp] theorem pathCost_cons (arc : Arc V) (path : List (Arc V)) :
    pathCost (arc :: path) = arc.cost + pathCost path := by
  simp [pathCost]

theorem Simple.tail {arc : Arc V} {path : List (Arc V)} (h : Simple source (arc :: path)) :
    Simple source path := by
  have hheads := h.heads
  have hsource := h.source
  rw [List.map_cons, List.nodup_cons] at hheads
  rw [List.map_cons, List.mem_cons, not_or] at hsource
  exact ⟨hheads.2, hsource.2⟩

theorem Walk.subset {v : V} {path : List (Arc V)} (h : Walk arcs source v path) :
    path ⊆ arcs := by
  induction h with
  | nil => exact List.nil_subset arcs
  | cons harc _ ih => exact List.cons_subset.mpr ⟨harc, ih⟩

theorem Walk.mono {arcs' : List (Arc V)} {v : V} {path : List (Arc V)} (h : Walk arcs source v path)
    (hsub : path ⊆ arcs') : Walk arcs' source v path := by
  induction h with
  | nil => exact Walk.nil
  | cons _ _ ih =>
      rw [List.cons_subset] at hsub
      exact Walk.cons hsub.1 (ih hsub.2)

theorem Walk.potential_le {potential : V → ℤ} (hfeasible : Feasible arcs potential) {v : V}
    {path : List (Arc V)} (h : Walk arcs source v path) :
    potential v ≤ potential source + pathCost path := by
  induction h with
  | nil => simp
  | @cons arc path harc _ ih =>
      have hstep := hfeasible arc harc
      rw [pathCost_cons]
      omega

end walks

section sums

variable {V : Type} {arcs : List (Arc V)} {source : V}

/-- All the cost there is, whatever its sign. -/
def totalCost (arcs : List (Arc V)) : ℤ := (arcs.map fun arc => |arc.cost|).sum

theorem Simple.nodup {path : List (Arc V)} (h : Simple source path) : path.Nodup :=
  List.Nodup.of_map Arc.head h.heads

/-- Distinct arcs use every cost at most once. -/
theorem totalCost_le {path : List (Arc V)} (hnodup : path.Nodup) (hsub : path ⊆ arcs) :
    totalCost path ≤ totalCost arcs := by
  obtain ⟨rest, hperm, hsublist⟩ := List.subperm_of_subset hnodup hsub
  unfold totalCost
  rw [← (hperm.map fun arc => |arc.cost|).sum_eq]
  exact (hsublist.map _).sum_le_sum (by simp)

@[simp] theorem totalCost_nil : totalCost ([] : List (Arc V)) = 0 := rfl

@[simp] theorem totalCost_cons (arc : Arc V) (path : List (Arc V)) :
    totalCost (arc :: path) = |arc.cost| + totalCost path := by
  simp [totalCost]

theorem abs_pathCost_le (path : List (Arc V)) : |pathCost path| ≤ totalCost path := by
  induction path with
  | nil => simp
  | cons arc path ih =>
      rw [pathCost_cons, totalCost_cons]
      exact (abs_add_le _ _).trans (by omega)

theorem abs_cost_le {arc : Arc V} (harc : arc ∈ arcs) : |arc.cost| ≤ totalCost arcs :=
  List.single_le_sum (by simp) _ (List.mem_map_of_mem harc)

theorem pathCost_lt_of_neg {path : List (Arc V)} {arc : Arc V} (harc : arc ∈ path)
    (hneg : arc.cost < 0) : pathCost path < totalCost path := by
  induction path with
  | nil => cases harc
  | cons first path ih =>
      have hfirst := le_abs_self first.cost
      have hpath := (abs_le.mp (abs_pathCost_le path)).2
      rw [pathCost_cons, totalCost_cons]
      rcases List.mem_cons.mp harc with rfl | harc
      · have habs := abs_pos.mpr (ne_of_lt hneg)
        omega
      · have hrest := ih harc
        omega

/-- A simple path that costs all there is leaves no negative cost. -/
theorem cost_nonneg_of_le_pathCost {v : V} {path : List (Arc V)} (hwalk : Walk arcs source v path)
    (hsimple : Simple source path) (hcost : totalCost arcs ≤ pathCost path) {arc : Arc V}
    (harc : arc ∈ arcs) : 0 ≤ arc.cost := by
  by_contra hneg
  rw [not_le] at hneg
  by_cases hmem : arc ∈ path
  · have hlt := pathCost_lt_of_neg hmem hneg
    have hle := totalCost_le hsimple.nodup hwalk.subset
    omega
  · have hnodup : (arc :: path).Nodup := List.nodup_cons.mpr ⟨hmem, hsimple.nodup⟩
    have hle := totalCost_le hnodup (List.cons_subset.mpr ⟨harc, hwalk.subset⟩)
    have hpath := (abs_le.mp (abs_pathCost_le path)).2
    have habs := abs_pos.mpr (ne_of_lt hneg)
    rw [totalCost_cons] at hle
    omega

end sums

/-! ### Relaxation -/

/-- The labels of the vertices, and the arc by which each was reached. -/
structure Labels (V : Type) where
  distance : V → ℤ
  previous : V → Option (Arc V)

section tree

variable {V : Type}

/-- The predecessors of a vertex back to the source. -/
inductive Trace (labels : Labels V) (source : V) : V → List (Arc V) → Prop
  | nil : Trace labels source source []
  | cons {v : V} {arc : Arc V} {path : List (Arc V)} : labels.previous v = some arc →
      Trace labels source arc.tail path → Trace labels source v (arc :: path)

/-- The predecessors form a tree of arcs that the labels account for. -/
structure Sound (bound : ℤ) (arcs : List (Arc V)) (source : V) (labels : Labels V) : Prop where
  distance_source : labels.distance source = 0
  previous_source : labels.previous source = none
  distance_le : ∀ v, labels.distance v ≤ bound
  previous_some : ∀ v arc, labels.previous v = some arc →
    arc ∈ arcs ∧ arc.head = v ∧ labels.distance arc.tail + arc.cost ≤ labels.distance v
  trace : ∀ v, labels.distance v ≠ bound → ∃ path, Trace labels source v path

variable {bound : ℤ} {arcs : List (Arc V)} {source : V} {labels : Labels V}

namespace Trace

theorem unique (hsource : labels.previous source = none) {v : V} {path other : List (Arc V)}
    (h : Trace labels source v path) (hother : Trace labels source v other) : path = other := by
  induction h generalizing other with
  | nil =>
      cases hother with
      | nil => rfl
      | cons hprevious _ =>
          rw [hsource] at hprevious
          cases hprevious
  | @cons v arc path hprevious _ ih =>
      cases hother with
      | nil =>
          rw [hsource] at hprevious
          cases hprevious
      | cons hsecond hrest =>
          rw [hprevious] at hsecond
          obtain rfl := Option.some.inj hsecond
          rw [ih hrest]

variable (hsound : Sound bound arcs source labels)

include hsound

theorem walk {v : V} {path : List (Arc V)} (h : Trace labels source v path) :
    Walk arcs source v path := by
  induction h with
  | nil => exact Walk.nil
  | @cons v arc path hprevious _ ih =>
      obtain ⟨hmem, rfl, -⟩ := hsound.previous_some v arc hprevious
      exact Walk.cons hmem ih

/-- A vertex that a trace enters has a trace that is no longer. -/
theorem exists_of_mem_heads {v w : V} {path : List (Arc V)} (h : Trace labels source v path)
    (hw : w ∈ path.map Arc.head) :
    ∃ other, Trace labels source w other ∧ other.length ≤ path.length := by
  induction h with
  | nil => cases hw
  | @cons v arc path hprevious hrest ih =>
      rw [List.map_cons, List.mem_cons, (hsound.previous_some v arc hprevious).2.1] at hw
      rcases hw with rfl | hw
      · exact ⟨arc :: path, cons hprevious hrest, le_rfl⟩
      · obtain ⟨other, hother, hle⟩ := ih hw
        exact ⟨other, hother, hle.trans (Nat.le_succ _)⟩

theorem simple {v : V} {path : List (Arc V)} (h : Trace labels source v path) :
    Simple source path := by
  induction h with
  | nil => exact ⟨List.nodup_nil, List.not_mem_nil⟩
  | @cons v arc path hprevious hrest ih =>
      have hhead := (hsound.previous_some v arc hprevious).2.1
      constructor
      · rw [List.map_cons, List.nodup_cons, hhead]
        refine ⟨fun hmem => ?_, ih.heads⟩
        -- the trace of `v` would be shorter than itself
        obtain ⟨other, hother, hle⟩ := exists_of_mem_heads hsound hrest hmem
        have heq := unique hsound.previous_source (cons hprevious hrest) hother
        rw [← heq, List.length_cons] at hle
        omega
      · rw [List.map_cons, List.mem_cons, not_or, hhead]
        refine ⟨?_, ih.source⟩
        rintro rfl
        rw [hsound.previous_source] at hprevious
        cases hprevious

theorem pathCost_le {v : V} {path : List (Arc V)} (h : Trace labels source v path) :
    pathCost path ≤ labels.distance v := by
  induction h with
  | nil => rw [pathCost_nil, hsound.distance_source]
  | @cons v arc path hprevious _ ih =>
      have hstep := (hsound.previous_some v arc hprevious).2.2
      rw [pathCost_cons]
      omega

/-- What a vertex of a trace has for its label, against the potential. -/
theorem distance_add_le {potential : V → ℤ} (hfeasible : Feasible arcs potential) {v w : V}
    {path : List (Arc V)} (h : Trace labels source v path)
    (hw : w = v ∨ w = source ∨ w ∈ path.map Arc.head) :
    labels.distance w + (potential v - potential w) ≤ labels.distance v := by
  induction h with
  | nil =>
      obtain rfl : w = source := by simpa using hw
      omega
  | @cons v arc path hprevious _ ih =>
      obtain ⟨hmem, hhead, hstep⟩ := hsound.previous_some v arc hprevious
      have hreduced := hfeasible arc hmem
      rw [hhead] at hreduced
      rw [List.map_cons, List.mem_cons, hhead] at hw
      rcases hw with rfl | rfl | rfl | hw
      · omega
      · have hrest := ih (.inr (.inl rfl))
        omega
      · omega
      · have hrest := ih (.inr (.inr hw))
        omega

end Trace

theorem Sound.potential_le {potential : V → ℤ} (hsound : Sound bound arcs source labels)
    (hfeasible : Feasible arcs potential) {v : V} (hv : labels.distance v ≠ bound) :
    potential v - potential source ≤ labels.distance v := by
  obtain ⟨path, hpath⟩ := hsound.trace v hv
  have hwalk := (hpath.walk hsound).potential_le hfeasible
  have hcost := hpath.pathCost_le hsound
  omega

/-- No label leaves the range of the costs. -/
theorem Sound.neg_bound_le (hsound : Sound bound arcs source labels)
    (htotal : totalCost arcs ≤ bound) (v : V) : -bound ≤ labels.distance v := by
  have hbound := hsound.distance_le source
  rw [hsound.distance_source] at hbound
  by_cases hv : labels.distance v = bound
  · omega
  · obtain ⟨path, hpath⟩ := hsound.trace v hv
    have hcost := hpath.pathCost_le hsound
    have habs := (abs_le.mp (abs_pathCost_le path)).1
    have hle := totalCost_le (hpath.simple hsound).nodup (hpath.walk hsound).subset
    omega

end tree

section relaxation

variable {V : Type} [DecidableEq V] (bound : ℤ)

/-- The vertex that the arc enters is reached by it, at the given distance. -/
def Labels.set (labels : Labels V) (arc : Arc V) (value : ℤ) : Labels V where
  distance := Function.update labels.distance arc.head value
  previous := Function.update labels.previous arc.head (some arc)

@[simp] theorem Labels.distance_set_self (labels : Labels V) (arc : Arc V) (value : ℤ) :
    (labels.set arc value).distance arc.head = value :=
  Function.update_self ..

@[simp] theorem Labels.previous_set_self (labels : Labels V) (arc : Arc V) (value : ℤ) :
    (labels.set arc value).previous arc.head = some arc :=
  Function.update_self ..

theorem Labels.distance_set_of_ne {labels : Labels V} {arc : Arc V} {value : ℤ} {v : V}
    (h : v ≠ arc.head) : (labels.set arc value).distance v = labels.distance v :=
  Function.update_of_ne h ..

theorem Labels.previous_set_of_ne {labels : Labels V} {arc : Arc V} {value : ℤ} {v : V}
    (h : v ≠ arc.head) : (labels.set arc value).previous v = labels.previous v :=
  Function.update_of_ne h ..

def relax (labels : Labels V) (arc : Arc V) : Labels V :=
  if labels.distance arc.tail ≠ bound ∧
      labels.distance arc.tail + arc.cost < labels.distance arc.head then
    labels.set arc (labels.distance arc.tail + arc.cost)
  else labels

/-- No arc lowers a label. -/
def Relaxed (arcs : List (Arc V)) (labels : Labels V) : Prop :=
  ∀ arc ∈ arcs, labels.distance arc.tail ≠ bound →
    labels.distance arc.head ≤ labels.distance arc.tail + arc.cost

variable {bound} {arcs : List (Arc V)} {source : V} {labels : Labels V}

theorem relax_distance_le (arc : Arc V) (v : V) :
    (relax bound labels arc).distance v ≤ labels.distance v := by
  unfold relax
  split
  · rename_i h
    by_cases hv : v = arc.head
    · subst hv
      simpa using h.2.le
    · rw [Labels.distance_set_of_ne hv]
  · exact le_rfl

/-- A trace that does not enter a vertex stays when the vertex gets another label. -/
theorem Trace.set {v : V} {arc : Arc V} {value : ℤ} {path : List (Arc V)}
    (hsound : Sound bound arcs source labels) (h : Trace labels source v path)
    (harc : arc.head ∉ path.map Arc.head) : Trace (labels.set arc value) source v path := by
  induction h with
  | nil => exact Trace.nil
  | @cons v first path hprevious _ ih =>
      rw [List.map_cons, List.mem_cons, not_or,
        (hsound.previous_some v first hprevious).2.1] at harc
      refine Trace.cons ?_ (ih harc.2)
      rw [Labels.previous_set_of_ne (Ne.symm harc.1)]
      exact hprevious

/-- Below a vertex with another label the traces lead on through its new arc. -/
theorem Trace.exists_set {v : V} {arc : Arc V} {value : ℤ} {path other : List (Arc V)}
    (hfresh : Trace (labels.set arc value) source arc.tail path)
    (h : Trace labels source v other) : ∃ next, Trace (labels.set arc value) source v next := by
  induction h with
  | nil => exact ⟨[], Trace.nil⟩
  | @cons v first other hprevious _ ih =>
      by_cases hhead : v = arc.head
      · subst hhead
        exact ⟨arc :: path, Trace.cons (Labels.previous_set_self ..) hfresh⟩
      · obtain ⟨next, hnext⟩ := ih
        exact ⟨first :: next, Trace.cons ((Labels.previous_set_of_ne hhead).trans hprevious) hnext⟩

/-- A step of the relaxation keeps the tree. -/
theorem Sound.relax {potential : V → ℤ} (hsound : Sound bound arcs source labels)
    (hfeasible : Feasible arcs potential) {arc : Arc V} (harc : arc ∈ arcs) :
    Sound bound arcs source (relax bound labels arc) := by
  have hle : ∀ v, (Theory.relax bound labels arc).distance v ≤ labels.distance v :=
    relax_distance_le arc
  unfold Theory.relax at hle ⊢
  split
  · rename_i h
    rw [if_pos h] at hle
    obtain ⟨hreached, hlower⟩ := h
    have hreduced := hfeasible arc harc
    obtain ⟨path, hpath⟩ := hsound.trace arc.tail hreached
    -- an arc into the trace of its tail would close a cycle, and not lower the label
    have hnew : ¬(arc.head = arc.tail ∨ arc.head = source ∨ arc.head ∈ path.map Arc.head) := by
      intro hvisited
      have hlabel := hpath.distance_add_le hsound hfeasible hvisited
      omega
    rw [not_or, not_or] at hnew
    obtain ⟨htail, hsource, hpathNew⟩ := hnew
    have hfresh : Trace (labels.set arc (labels.distance arc.tail + arc.cost)) source arc.tail path :=
      hpath.set hsound hpathNew
    refine ⟨?_, ?_, fun v => ?_, fun v first hprevious => ?_, fun v hv => ?_⟩
    · rw [Labels.distance_set_of_ne (Ne.symm hsource)]
      exact hsound.distance_source
    · rw [Labels.previous_set_of_ne (Ne.symm hsource)]
      exact hsound.previous_source
    · exact (hle v).trans (hsound.distance_le v)
    · by_cases hhead : v = arc.head
      · subst hhead
        rw [Labels.previous_set_self] at hprevious
        obtain rfl := Option.some.inj hprevious
        refine ⟨harc, rfl, ?_⟩
        rw [Labels.distance_set_self, Labels.distance_set_of_ne (Ne.symm htail)]
      · rw [Labels.previous_set_of_ne hhead] at hprevious
        obtain ⟨hmem, hfirst, hstep⟩ := hsound.previous_some v first hprevious
        have htailLe := hle first.tail
        refine ⟨hmem, hfirst, ?_⟩
        rw [Labels.distance_set_of_ne hhead]
        omega
    · by_cases hhead : v = arc.head
      · subst hhead
        exact ⟨arc :: path, Trace.cons (Labels.previous_set_self ..) hfresh⟩
      · rw [Labels.distance_set_of_ne hhead] at hv
        obtain ⟨other, hother⟩ := hsound.trace v hv
        exact hfresh.exists_set hother
  · exact hsound

/-! ### Passes -/

variable (bound) in
/-- One pass over the arcs. -/
def relaxAll (arcs : List (Arc V)) (labels : Labels V) : Labels V := arcs.foldl (relax bound) labels

theorem relaxAll_distance_le (arcs : List (Arc V)) (labels : Labels V) (v : V) :
    (relaxAll bound arcs labels).distance v ≤ labels.distance v := by
  induction arcs generalizing labels with
  | nil => exact le_rfl
  | cons arc arcs ih => exact (ih (relax bound labels arc)).trans (relax_distance_le arc v)

theorem Sound.relaxAll {potential : V → ℤ} (hfeasible : Feasible arcs potential)
    {some : List (Arc V)} (hsub : some ⊆ arcs) (hsound : Sound bound arcs source labels) :
    Sound bound arcs source (relaxAll bound some labels) := by
  induction some generalizing labels with
  | nil => exact hsound
  | cons arc some ih =>
      rw [List.cons_subset] at hsub
      exact ih hsub.2 (hsound.relax hfeasible hsub.1)

theorem relax_eq_of_le {arc : Arc V}
    (h : labels.distance arc.tail ≠ bound →
      labels.distance arc.head ≤ labels.distance arc.tail + arc.cost) :
    relax bound labels arc = labels :=
  if_neg fun hlower => absurd hlower.2 (not_lt.mpr (h hlower.1))

theorem Relaxed.relaxAll_eq {arcs : List (Arc V)} (h : Relaxed bound arcs labels) :
    relaxAll bound arcs labels = labels := by
  induction arcs with
  | nil => rfl
  | cons arc arcs ih =>
      rw [Relaxed, List.forall_mem_cons] at h
      rw [relaxAll, List.foldl_cons, relax_eq_of_le h.1]
      exact ih h.2

/-- A pass takes every arc into account, at the label that its tail has then. -/
theorem relaxAll_distance_head_le {arc : Arc V} {value : ℤ} (hvalue : value < bound)
    {arcs : List (Arc V)} (harc : arc ∈ arcs) {labels : Labels V}
    (htail : labels.distance arc.tail ≤ value) :
    (relaxAll bound arcs labels).distance arc.head ≤ value + arc.cost := by
  induction arcs generalizing labels with
  | nil => cases harc
  | cons first arcs ih =>
      rcases List.mem_cons.mp harc with rfl | harc
      · have hstep : (relax bound labels arc).distance arc.head ≤ value + arc.cost := by
          unfold relax
          split
          · rw [Labels.distance_set_self]
            omega
          · rename_i hkept
            have hle := not_lt.mp fun hlower => hkept ⟨by omega, hlower⟩
            omega
        exact (relaxAll_distance_le arcs _ _).trans hstep
      · exact ih harc ((relax_distance_le first arc.tail).trans htail)

variable (arcs source) in
/-- No simple walk of at most `n` arcs is shorter than the label of its end. -/
def BestOf (n : ℕ) (labels : Labels V) : Prop :=
  ∀ v path, Walk arcs source v path → Simple source path → path.length ≤ n →
    labels.distance v ≤ pathCost path

theorem BestOf.relaxAll {n : ℕ} (hbest : BestOf arcs source n labels)
    (hnext : Sound bound arcs source (relaxAll bound arcs labels)) (htotal : totalCost arcs ≤ bound) :
    BestOf arcs source (n + 1) (relaxAll bound arcs labels) := by
  intro v path hwalk hsimple hlength
  cases hwalk with
  | nil => exact (hnext.distance_source).le
  | @cons arc path harc hrest =>
      rw [List.length_cons] at hlength
      have htail := hbest arc.tail path hrest hsimple.tail (by omega)
      rw [pathCost_cons, add_comm]
      by_cases hreached : pathCost path < bound
      · exact relaxAll_distance_head_le hreached harc htail
      · have hcost := cost_nonneg_of_le_pathCost hrest hsimple.tail (by omega) harc
        have hle := hnext.distance_le arc.head
        omega

variable (bound source) in
/-- Only the source is reached. -/
def initialLabels : Labels V where
  distance v := if v = source then 0 else bound
  previous _ := none

theorem sound_initialLabels (hbound : 0 ≤ bound) :
    Sound bound arcs source (initialLabels bound source) where
  distance_source := if_pos rfl
  previous_source := rfl
  distance_le v := by
    unfold initialLabels
    dsimp only
    split <;> omega
  previous_some _ _ h := nomatch h
  trace v hv := by
    by_cases h : v = source
    · exact ⟨[], h ▸ Trace.nil⟩
    · exact absurd (if_neg h) hv

/-- After as many passes as a simple walk has arcs the labels are shortest, and the predecessors
are a tree. -/
theorem relaxAll_iterate_spec {potential : V → ℤ} (hfeasible : Feasible arcs potential)
    (hbound : 0 ≤ bound) (htotal : totalCost arcs ≤ bound) (n : ℕ) :
    Sound bound arcs source ((relaxAll bound arcs)^[n] (initialLabels bound source)) ∧
      BestOf arcs source n ((relaxAll bound arcs)^[n] (initialLabels bound source)) := by
  induction n with
  | zero =>
      refine ⟨sound_initialLabels hbound, fun v path hwalk _ hlength => ?_⟩
      obtain rfl := List.length_eq_zero_iff.mp (Nat.le_zero.mp hlength)
      cases hwalk
      exact (if_pos rfl).le
  | succ n ih =>
      rw [Function.iterate_succ_apply']
      have hsound := ih.1.relaxAll hfeasible (List.Subset.refl arcs)
      exact ⟨hsound, ih.2.relaxAll hsound htotal⟩

end relaxation

section shortest

variable {V : Type} {bound : ℤ} {arcs : List (Arc V)} {source : V} {labels : Labels V}

variable (arcs source) in
/-- No simple walk is shorter than the label of its end. -/
def Best (labels : Labels V) : Prop :=
  ∀ v path, Walk arcs source v path → Simple source path → labels.distance v ≤ pathCost path

/-- Shortest labels are a potential, where every tail can be reached. -/
theorem Best.feasible {potential : V → ℤ} (hbest : Best arcs source labels)
    (hsound : Sound bound arcs source labels) (hfeasible : Feasible arcs potential)
    (htotal : totalCost arcs ≤ bound)
    (hreach : ∀ arc ∈ arcs, ∃ path, Walk arcs source arc.tail path ∧ Simple source path) :
    Feasible arcs labels.distance := by
  intro arc harc
  by_cases htail : labels.distance arc.tail = bound
  · -- the tail costs all there is, so the arc costs nothing less
    obtain ⟨path, hwalk, hsimple⟩ := hreach arc harc
    have hpath := hbest arc.tail path hwalk hsimple
    have hcost := cost_nonneg_of_le_pathCost hwalk hsimple (by omega) harc
    have hle := hsound.distance_le arc.head
    omega
  · obtain ⟨path, hpath⟩ := hsound.trace arc.tail htail
    have hcost := hpath.pathCost_le hsound
    by_cases hvisited : arc.head = arc.tail ∨ arc.head = source ∨ arc.head ∈ path.map Arc.head
    · have hlabel := hpath.distance_add_le hsound hfeasible hvisited
      have hreduced := hfeasible arc harc
      omega
    · rw [not_or, not_or] at hvisited
      have hsimple := hpath.simple hsound
      have hextended : Simple source (arc :: path) := by
        constructor
        · rw [List.map_cons, List.nodup_cons]
          exact ⟨hvisited.2.2, hsimple.heads⟩
        · rw [List.map_cons, List.mem_cons, not_or]
          exact ⟨Ne.symm hvisited.2.1, hsimple.source⟩
      have hhead := hbest arc.head (arc :: path) (Walk.cons harc (hpath.walk hsound)) hextended
      rw [pathCost_cons] at hhead
      omega

/-- The arcs of the tree are tight when the labels are a potential. -/
theorem Trace.tight (hsound : Sound bound arcs source labels)
    (hfeasible : Feasible arcs labels.distance) {v : V} {path : List (Arc V)}
    (h : Trace labels source v path) :
    ∀ arc ∈ path, labels.distance arc.head = labels.distance arc.tail + arc.cost := by
  induction h with
  | nil => simp
  | @cons v arc path hprevious _ ih =>
      obtain ⟨hmem, hhead, hstep⟩ := hsound.previous_some v arc hprevious
      have hle := hfeasible arc hmem
      rw [List.forall_mem_cons]
      refine ⟨?_, ih⟩
      rw [hhead] at hle ⊢
      omega

end shortest

/-- Simple walks through vertices below `n` have fewer than `n` arcs. -/
theorem Simple.length_lt {n source : ℕ} {arcs path : List (Arc ℕ)} (hsimple : Simple source path)
    (hsub : path ⊆ arcs) (hsource : source < n) (hheads : ∀ arc ∈ arcs, arc.head < n) :
    path.length < n := by
  have hnodup : (source :: path.map Arc.head).Nodup :=
    List.nodup_cons.mpr ⟨hsimple.source, hsimple.heads⟩
  have hrange : source :: path.map Arc.head ⊆ List.range n := by
    intro v hv
    rw [List.mem_range]
    rcases List.mem_cons.mp hv with rfl | hv
    · exact hsource
    · obtain ⟨arc, harc, rfl⟩ := List.mem_map.mp hv
      exact hheads arc (hsub harc)
  have hle := (List.subperm_of_subset hnodup hrange).length_le
  rw [List.length_cons, List.length_map, List.length_range] at hle
  omega

end Theory
