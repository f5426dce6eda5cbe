import DsaSolver.TreewidthSolver
import DsaSolver.Theory.Elimination
import Mathlib.Data.List.Sort
import Mathlib.Data.List.Perm.Basic

/-! # The min-fill order

`MinFillOrder` keeps the graph of the nodes not yet eliminated: the adjacency of an active node
is that graph (`FillInv`), and the step on the selected node is its elimination
(`FillInv.step`). -/

namespace Dsa

namespace TreewidthPartitionDpSolver

open Theory (eliminate)

/-! ### Adjacency -/

section adjacency

variable {adjacency : Adjacency} {first second a b : ℕ}

theorem getD_modify {α : Type*} {l : List α} {i : ℕ} (f : α → α) (hi : i < l.length) (d : α)
    (j : ℕ) : (l.modify i f).getD j d = if i = j then f (l.getD j d) else l.getD j d := by
  rw [List.getD_eq_getElem?_getD, List.getD_eq_getElem?_getD, List.getElem?_modify]
  by_cases h : i = j
  · subst h
    simp [List.getElem?_eq_getElem hi]
  · simp [h]

theorem neighborsOf_sorted (adjacency : Adjacency) (node : ℕ) :
    (neighborsOf adjacency node).Pairwise (· < ·) := by
  have := Std.TreeSet.ordered_toList (t := adjacency.getD node ∅)
  exact this.imp fun h => Nat.compare_eq_lt.mp h

theorem length_connect (adjacency : Adjacency) (first second : ℕ) :
    (connect adjacency first second).length = adjacency.length := by
  unfold connect
  rw [List.length_modify, List.length_modify]

theorem mem_neighborsOf_connect (hfirst : first < adjacency.length)
    (hsecond : second < adjacency.length) :
    b ∈ neighborsOf (connect adjacency first second) a ↔
      b ∈ neighborsOf adjacency a ∨ a = first ∧ b = second ∨ a = second ∧ b = first := by
  unfold connect neighborsOf
  rw [getD_modify _ (by rwa [List.length_modify]), getD_modify _ hfirst]
  split_ifs with hs hf
  · simp only [Std.TreeSet.mem_toList, Std.TreeSet.mem_insert, Std.LawfulEqCmp.compare_eq_iff_eq]
    grind
  · simp only [Std.TreeSet.mem_toList, Std.TreeSet.mem_insert, Std.LawfulEqCmp.compare_eq_iff_eq]
    grind
  · simp only [Std.TreeSet.mem_toList, Std.TreeSet.mem_insert, Std.LawfulEqCmp.compare_eq_iff_eq]
    grind
  · grind

/-- Connecting a node with several others. -/
theorem mem_neighborsOf_foldl_connect {others : List ℕ} (hfirst : first < adjacency.length)
    (hothers : ∀ second ∈ others, second < adjacency.length) :
    (others.foldl (fun adjacency second => connect adjacency first second) adjacency).length =
        adjacency.length ∧
      (b ∈ neighborsOf
          (others.foldl (fun adjacency second => connect adjacency first second) adjacency) a ↔
        b ∈ neighborsOf adjacency a ∨ a = first ∧ b ∈ others ∨ a ∈ others ∧ b = first) := by
  induction others generalizing adjacency with
  | nil => simp
  | cons second rest ih =>
      obtain ⟨hsecond, hrest⟩ := List.forall_mem_cons.mp hothers
      have hlength := length_connect adjacency first second
      obtain ⟨hlen, hmem⟩ := ih (by rwa [hlength]) (by rwa [hlength])
      rw [List.foldl_cons]
      refine ⟨hlen.trans hlength, ?_⟩
      rw [hmem, mem_neighborsOf_connect hfirst hsecond]
      simp only [List.mem_cons]
      tauto

/-- Connecting the neighbours of the selected node. -/
theorem mem_neighborsOf_fillNeighbors {selected : ℕ} {neighbors : List ℕ}
    (hlt : ∀ node ∈ neighbors, node < adjacency.length) (hnodup : neighbors.Nodup) :
    (fillNeighbors selected neighbors adjacency).length = adjacency.length ∧
      (b ∈ neighborsOf (fillNeighbors selected neighbors adjacency) a ↔
        if a ∈ neighbors then
          (b ∈ neighborsOf adjacency a ∨ b ∈ neighbors ∧ b ≠ a) ∧ b ≠ selected
        else b ∈ neighborsOf adjacency a) := by
  induction neighbors generalizing adjacency with
  | nil => simp [fillNeighbors]
  | cons first rest ih =>
      obtain ⟨hfirst, hrest⟩ := List.forall_mem_cons.mp hlt
      obtain ⟨hnew, hnodup⟩ := List.nodup_cons.mp hnodup
      obtain ⟨hlen, -⟩ := mem_neighborsOf_foldl_connect (a := a) (b := b) hfirst hrest
      -- the adjacency once the first neighbour is done
      have hdone : ∀ c, b ∈ neighborsOf
          ((rest.foldl (fun adjacency second => connect adjacency first second) adjacency).modify
            first fun neighbors => neighbors.erase selected) c ↔
          (b ∈ neighborsOf adjacency c ∨ c = first ∧ b ∈ rest ∨ c ∈ rest ∧ b = first) ∧
            (c = first → b ≠ selected) := by
        intro c
        obtain ⟨-, hmem⟩ := mem_neighborsOf_foldl_connect (a := c) (b := b) hfirst hrest
        unfold neighborsOf at hmem ⊢
        rw [getD_modify _ (by rwa [hlen])]
        split_ifs with hc
        · rw [Std.TreeSet.mem_toList, Std.TreeSet.mem_erase, ← Std.TreeSet.mem_toList, hmem,
            ne_eq, Std.LawfulEqCmp.compare_eq_iff_eq]
          grind
        · rw [hmem]
          grind
      have hbelow : ∀ node ∈ rest, node <
          ((rest.foldl (fun adjacency second => connect adjacency first second) adjacency).modify
            first fun neighbors => neighbors.erase selected).length := by
        rw [List.length_modify, hlen]
        exact hrest
      obtain ⟨hlength, hmem⟩ := ih hbelow hnodup
      unfold fillNeighbors
      refine ⟨by rw [hlength, List.length_modify, hlen], ?_⟩
      rw [hmem]
      simp only [List.mem_cons]
      by_cases ha : a ∈ rest
      · have hne : a ≠ first := fun h => hnew (h ▸ ha)
        rw [if_pos ha, if_pos (.inr ha), hdone]
        grind
      · rw [if_neg ha, hdone]
        split_ifs with hor
        · grind
        · grind

/-- The adjacency before the first elimination. -/
theorem mem_neighborsOf_foldl_entries {α : Type*} (pairOf : α → ℕ × ℕ) {entries : List α}
    (hlt : ∀ entry ∈ entries, (pairOf entry).1 < adjacency.length ∧
      (pairOf entry).2 < adjacency.length) :
    (entries.foldl (fun adjacency entry => connect adjacency (pairOf entry).1 (pairOf entry).2)
        adjacency).length = adjacency.length ∧
      (b ∈ neighborsOf (entries.foldl
          (fun adjacency entry => connect adjacency (pairOf entry).1 (pairOf entry).2) adjacency) a ↔
        b ∈ neighborsOf adjacency a ∨
          ∃ entry ∈ entries, pairOf entry = (a, b) ∨ pairOf entry = (b, a)) := by
  induction entries generalizing adjacency with
  | nil => simp
  | cons entry rest ih =>
      obtain ⟨⟨h1, h2⟩, hrest⟩ := List.forall_mem_cons.mp hlt
      have hlength := length_connect adjacency (pairOf entry).1 (pairOf entry).2
      obtain ⟨hlen, hmem⟩ := ih (by rwa [hlength])
      rw [List.foldl_cons]
      refine ⟨hlen.trans hlength, ?_⟩
      rw [hmem, mem_neighborsOf_connect h1 h2]
      simp only [List.exists_mem_cons_iff, Prod.ext_iff]
      grind

theorem neighborsOf_replicate (count node : ℕ) :
    neighborsOf (List.replicate count ∅) node = [] := by
  unfold neighborsOf
  rw [List.getD_eq_getElem?_getD, List.getElem?_replicate]
  split_ifs <;> rfl

end adjacency

/-! ### The loop -/

section loop

variable {search : ReusePenaltySearchSpace} {G : ℕ → ℕ → Prop} {state : FillState}

/-- The adjacency of an active node is the graph of the active nodes. -/
structure FillInv (G : ℕ → ℕ → Prop) (state : FillState) : Prop where
  nodup : state.active.Nodup
  lt : ∀ a ∈ state.active, a < state.adjacency.length
  active : ∀ a b, G a b → a ∈ state.active ∧ b ∈ state.active
  symm : ∀ a b, G a b → G b a
  irrefl : ∀ a, ¬G a a
  mem : ∀ a ∈ state.active, ∀ b, b ∈ neighborsOf state.adjacency a ↔ G a b

theorem FillInv.activeNeighbors_eq (h : FillInv G state) {a : ℕ} (ha : a ∈ state.active) :
    activeNeighbors state.adjacency state.active a = neighborsOf state.adjacency a := by
  unfold activeNeighbors
  rw [List.filter_eq_self]
  intro b hb
  exact List.contains_iff_mem.mpr (h.active a b ((h.mem a ha b).mp hb)).2

theorem FillInv.mem_activeNeighbors (h : FillInv G state) {a b : ℕ} (ha : a ∈ state.active) :
    b ∈ activeNeighbors state.adjacency state.active a ↔ G a b := by
  rw [h.activeNeighbors_eq ha, h.mem a ha]

theorem FillInv.fillNeighbors_spec (h : FillInv G state) {selected : ℕ}
    (hselected : selected ∈ state.active) :
    (∀ node ∈ activeNeighbors state.adjacency state.active selected,
        node < state.adjacency.length) ∧
      (activeNeighbors state.adjacency state.active selected).Nodup := by
  constructor
  · intro node hnode
    exact h.lt node (h.active selected node ((h.mem_activeNeighbors hselected).mp hnode)).2
  · rw [h.activeNeighbors_eq hselected]
    exact (neighborsOf_sorted _ _).imp fun hlt => hlt.ne

/-- A step connects the neighbours of the selected node. -/
theorem FillInv.mem_step_neighbor (h : FillInv G state) {selected : ℕ}
    (hselected : selected ∈ state.active) {a b : ℕ} (hadj : G selected a) :
    b ∈ neighborsOf (eliminateNode state selected).adjacency a ↔
      (b ∈ neighborsOf state.adjacency a ∨ G selected b ∧ b ≠ a) ∧ b ≠ selected := by
  obtain ⟨hlt, hnodup⟩ := h.fillNeighbors_spec hselected
  unfold eliminateNode
  dsimp only
  rw [(mem_neighborsOf_fillNeighbors hlt hnodup).2,
    if_pos ((h.mem_activeNeighbors hselected).mpr hadj), h.mem_activeNeighbors hselected]

/-- A step leaves the other nodes alone. -/
theorem FillInv.mem_step_other (h : FillInv G state) {selected : ℕ}
    (hselected : selected ∈ state.active) {a b : ℕ} (hadj : ¬G selected a) :
    b ∈ neighborsOf (eliminateNode state selected).adjacency a ↔
      b ∈ neighborsOf state.adjacency a := by
  obtain ⟨hlt, hnodup⟩ := h.fillNeighbors_spec hselected
  unfold eliminateNode
  dsimp only
  rw [(mem_neighborsOf_fillNeighbors hlt hnodup).2, if_neg]
  rw [h.mem_activeNeighbors hselected]
  exact hadj

/-- The step lemma. -/
theorem FillInv.step (h : FillInv G state) {selected : ℕ} (hselected : selected ∈ state.active) :
    FillInv (eliminate G selected) (eliminateNode state selected) := by
  have hactive : ∀ a, a ∈ (eliminateNode state selected).active ↔
      a ≠ selected ∧ a ∈ state.active := by
    intro a
    unfold eliminateNode
    dsimp only
    rw [h.nodup.mem_erase_iff]
  have hlength : (eliminateNode state selected).adjacency.length = state.adjacency.length := by
    obtain ⟨hlt, hnodup⟩ := h.fillNeighbors_spec hselected
    exact (mem_neighborsOf_fillNeighbors (a := 0) (b := 0) hlt hnodup).1
  constructor
  · exact h.nodup.erase selected
  · intro a ha
    rw [hlength]
    exact h.lt a ((hactive a).mp ha).2
  · rintro a b ⟨ha, hb, hedge | ⟨-, hva, hvb⟩⟩
    · obtain ⟨h1, h2⟩ := h.active a b hedge
      exact ⟨(hactive a).mpr ⟨ha, h1⟩, (hactive b).mpr ⟨hb, h2⟩⟩
    · exact ⟨(hactive a).mpr ⟨ha, (h.active _ _ hva).2⟩, (hactive b).mpr ⟨hb, (h.active _ _ hvb).2⟩⟩
  · exact fun a b => Theory.eliminate_symm h.symm
  · exact Theory.eliminate_irrefl h.irrefl selected
  · intro a ha b
    obtain ⟨hne, hold⟩ := (hactive a).mp ha
    unfold eliminate
    by_cases hadj : G selected a
    · rw [h.mem_step_neighbor hselected hadj, h.mem a hold]
      constructor
      · rintro ⟨hedge | ⟨hvb, hba⟩, hb⟩
        · exact ⟨hne, hb, .inl hedge⟩
        · exact ⟨hne, hb, .inr ⟨hba.symm, hadj, hvb⟩⟩
      · rintro ⟨-, hb, hedge | ⟨hab, -, hvb⟩⟩
        · exact ⟨.inl hedge, hb⟩
        · exact ⟨.inr ⟨hvb, hab.symm⟩, hb⟩
    · rw [h.mem_step_other hselected hadj, h.mem a hold]
      constructor
      · intro hedge
        refine ⟨hne, ?_, .inl hedge⟩
        rintro rfl
        exact hadj (h.symm _ _ hedge)
      · rintro ⟨-, -, hedge | ⟨-, hva, -⟩⟩
        · exact hedge
        · exact absurd hva hadj

/-- The adjacency of an eliminated node stays as it was. -/
theorem FillInv.neighborsOf_step (h : FillInv G state) {selected : ℕ}
    (hselected : selected ∈ state.active) {a : ℕ} (ha : a ∉ state.active ∨ a = selected) :
    neighborsOf (eliminateNode state selected).adjacency a = neighborsOf state.adjacency a := by
  have hadj : ¬G selected a := by
    rcases ha with ha | rfl
    · exact fun hadj => ha (h.active _ _ hadj).2
    · exact h.irrefl a
  apply (neighborsOf_sorted _ a).eq_of_mem_iff (neighborsOf_sorted _ a)
  exact fun b => h.mem_step_other hselected hadj

/-- A loop that keeps its best or takes the node it looks at ends in one of the nodes. -/
theorem foldl_best_mem {step : Option FillKey → ℕ → Option FillKey} {active : List ℕ}
    (hstep : ∀ best node, ∃ key, step best node = some key ∧ (key.node = node ∨ best = some key))
    (nodes : List ℕ) (best : Option FillKey) (hbest : ∀ key, best = some key → key.node ∈ active)
    (hnodes : ∀ node ∈ nodes, node ∈ active) (hsome : best ≠ none ∨ nodes ≠ []) :
    ∃ key, nodes.foldl step best = some key ∧ key.node ∈ active := by
  induction nodes generalizing best with
  | nil =>
      obtain ⟨key, hkey⟩ := Option.ne_none_iff_exists'.mp (hsome.resolve_right fun h => h rfl)
      exact ⟨key, hkey, hbest key hkey⟩
  | cons node rest ih =>
      obtain ⟨hnode, hrest⟩ := List.forall_mem_cons.mp hnodes
      obtain ⟨key, hkey, hcase⟩ := hstep best node
      rw [List.foldl_cons, hkey]
      refine ih _ (fun other hother => ?_) hrest (.inl (Option.some_ne_none _))
      obtain rfl := Option.some.inj hother
      rcases hcase with hnew | hold
      · exact hnew ▸ hnode
      · exact hbest key hold

/-- The selected node is active. -/
theorem selectVariable_mem {adjacency : Adjacency} {active : List ℕ} (hne : active ≠ []) :
    ∃ best, selectVariable search adjacency active = some best ∧ best.node ∈ active := by
  refine foldl_best_mem (fun best node => ?_) active none (fun key h => by cases h)
    (fun node h => h) (.inr hne)
  cases best with
  | none => exact ⟨_, rfl, .inl rfl⟩
  | some other =>
      dsimp only
      split_ifs
      · exact ⟨_, rfl, .inl rfl⟩
      · exact ⟨other, rfl, .inr rfl⟩

/-- The final adjacency along the order: the neighbours of a node in what the earlier nodes left
of the graph, all of them later, and no more than the width. -/
inductive FillRun (adjacency : Adjacency) (width : ℕ) : (ℕ → ℕ → Prop) → List ℕ → Prop
  | nil (G : ℕ → ℕ → Prop) : FillRun adjacency width G []
  | cons {G : ℕ → ℕ → Prop} {node : ℕ} {rest : List ℕ}
      (mem : ∀ b, b ∈ neighborsOf adjacency node ↔ G node b)
      (later : ∀ b, G node b → b ∈ rest)
      (width_le : (neighborsOf adjacency node).length ≤ width)
      (run : FillRun adjacency width (eliminate G node) rest) :
      FillRun adjacency width G (node :: rest)

theorem eliminateNode_width (state : FillState) (selected : ℕ) :
    state.result.width ≤ (eliminateNode state selected).result.width := le_max_left _ _

/-- The run lemma. -/
theorem minFillLoop_run (count : ℕ) (h : FillInv G state) (hcount : state.active.length = count) :
    ∃ order, (minFillLoop search count state).result.nodes = state.result.nodes ++ order ∧
      order.Perm state.active ∧
      state.result.width ≤ (minFillLoop search count state).result.width ∧
      (∀ a, a ∉ state.active → neighborsOf (minFillLoop search count state).adjacency a =
        neighborsOf state.adjacency a) ∧
      FillRun (minFillLoop search count state).adjacency
        (minFillLoop search count state).result.width G order := by
  induction count generalizing G state with
  | zero =>
      rw [List.length_eq_zero_iff] at hcount
      refine ⟨[], (List.append_nil _).symm, ?_, le_rfl, fun _ _ => rfl, FillRun.nil G⟩
      rw [hcount]
  | succ count ih =>
      have hne : state.active ≠ [] := List.ne_nil_of_length_eq_add_one hcount
      obtain ⟨best, hbest, hmem⟩ : ∃ best, selectVariable search state.adjacency state.active =
          some best ∧ best.node ∈ state.active := selectVariable_mem hne
      have hactive : (eliminateNode state best.node).active = state.active.erase best.node := rfl
      obtain ⟨order, hnodes, hperm, hwidth, hkept, hrun⟩ := ih (h.step hmem) (by
        rw [hactive, List.length_erase_of_mem hmem, hcount]
        rfl)
      have hloop : minFillLoop search (count + 1) state =
          minFillLoop search count (eliminateNode state best.node) := by
        rw [minFillLoop, hbest]
      rw [hloop]
      -- the final adjacency of the selected node is the one it has now
      have hselected : neighborsOf (minFillLoop search count (eliminateNode state best.node)).adjacency
          best.node = neighborsOf state.adjacency best.node := by
        rw [hkept _ (by rw [hactive]; exact h.nodup.not_mem_erase), h.neighborsOf_step hmem (.inr rfl)]
      refine ⟨best.node :: order, ?_, ?_, (eliminateNode_width _ _).trans hwidth, ?_, ?_⟩
      · rw [hnodes]
        unfold eliminateNode
        simp
      · exact (List.Perm.cons _ hperm).trans (List.perm_cons_erase hmem).symm
      · intro a ha
        rw [hkept a, h.neighborsOf_step hmem (.inl ha)]
        rw [hactive]
        exact fun herase => ha (List.mem_of_mem_erase herase)
      · refine FillRun.cons (fun b => ?_) (fun b hb => ?_) ?_ hrun
        · rw [hselected, h.mem _ hmem]
        · rw [hperm.mem_iff, hactive, h.nodup.mem_erase_iff]
          refine ⟨?_, (h.active _ _ hb).2⟩
          rintro rfl
          exact h.irrefl _ hb
        · rw [hselected, ← h.activeNeighbors_eq hmem]
          exact (le_max_right _ _).trans hwidth

/-- The neighbours that the final adjacency keeps come later. -/
theorem FillRun.later_of_mem {adjacency : Adjacency} {width : ℕ} {order : List ℕ}
    (h : FillRun adjacency width G order) {before rest : List ℕ} {node : ℕ}
    (hsplit : order = before ++ node :: rest) :
    (∀ b ∈ neighborsOf adjacency node, b ∈ rest) ∧ (neighborsOf adjacency node).length ≤ width := by
  induction h generalizing before with
  | nil G => simp at hsplit
  | cons mem later width_le run ih =>
      cases before with
      | nil =>
          obtain ⟨rfl, rfl⟩ := List.cons.inj hsplit
          exact ⟨fun b hb => later b ((mem b).mp hb), width_le⟩
      | cons first before => exact ih (List.cons.inj hsplit).2

/-- An edge of the fill graph: the final adjacency keeps it at the node eliminated first. -/
def FillAdjacent (adjacency : Adjacency) (a b : ℕ) : Prop :=
  b ∈ neighborsOf adjacency a ∨ a ∈ neighborsOf adjacency b

/-- The fill graph has the edges of the graph itself. -/
theorem FillRun.fillAdjacent {adjacency : Adjacency} {width : ℕ} {order : List ℕ}
    (h : FillRun adjacency width G order) (hsymm : ∀ a b, G a b → G b a) {a b : ℕ}
    (ha : a ∈ order) (hb : b ∈ order) (hedge : G a b) : FillAdjacent adjacency a b := by
  induction h with
  | nil G => cases ha
  | @cons G node rest mem later width_le run ih =>
      by_cases han : a = node
      · subst han
        exact .inl ((mem b).mpr hedge)
      by_cases hbn : b = node
      · subst hbn
        exact .inr ((mem a).mpr (hsymm a b hedge))
      apply ih (fun a b => Theory.eliminate_symm hsymm)
      · exact (List.mem_cons.mp ha).resolve_left han
      · exact (List.mem_cons.mp hb).resolve_left hbn
      · exact ⟨han, hbn, .inl hedge⟩

/-- The later neighbours of a node in the fill graph are those its adjacency keeps. -/
theorem FillRun.mem_neighborsOf_iff {adjacency : Adjacency} {width : ℕ} {order : List ℕ}
    (h : FillRun adjacency width G order) (hnodup : order.Nodup) {before rest : List ℕ} {node : ℕ}
    (hsplit : order = before ++ node :: rest) (b : ℕ) :
    b ∈ neighborsOf adjacency node ↔ b ∈ rest ∧ FillAdjacent adjacency node b := by
  constructor
  · intro hb
    exact ⟨(h.later_of_mem hsplit).1 b hb, .inl hb⟩
  · rintro ⟨hrest, hb | hnode⟩
    · exact hb
    · -- the node would come again after `b`
      obtain ⟨middle, after, hrest⟩ := List.append_of_mem hrest
      have hsplit' : order = (before ++ node :: middle) ++ b :: after := by
        rw [hsplit, hrest]
        simp
      have hafter := (h.later_of_mem hsplit').1 node hnode
      rw [hsplit, List.nodup_append] at hnodup
      have hfresh := (List.nodup_cons.mp hnodup.2.1).1
      rw [hrest] at hfresh
      exact absurd (List.mem_append_right _ (List.mem_cons_of_mem _ hafter)) hfresh

end loop

end TreewidthPartitionDpSolver

end Dsa
