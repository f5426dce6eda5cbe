import Mathlib.Data.List.Basic
import Mathlib.Data.List.Count
import Mathlib.Data.List.Dedup
import Mathlib.Data.List.GetD
import Mathlib.Data.List.MinMax
import Mathlib.Data.List.Perm.Subperm
import Mathlib.Tactic.SplitIfs

/-! # Topological orders

Kahn's algorithm on the edges of a graph with nodes `0, …, n - 1`: the nodes whose predecessors
are all done are ready, the least ready node is taken first, and every edge out of it is
released.  A run that takes all the nodes takes every node after its predecessors. -/

namespace Theory

/-- The ends of the edges out of a node. -/
def successors (edges : List (ℕ × ℕ)) (node : ℕ) : List ℕ :=
  (edges.filter fun edge => edge.1 == node).map Prod.snd

structure Kahn where
  ready : List ℕ
  indegree : List ℕ
  order : List ℕ

namespace Kahn

/-- `if (--indegree[node] == 0) ready.push(node)`. -/
def release (state : Kahn) (node : ℕ) : Kahn :=
  let left := state.indegree.getD node 0 - 1
  { state with
    ready := if left = 0 then node :: state.ready else state.ready
    indegree := state.indegree.set node left }

/-- Take the least ready node. -/
def step (edges : List (ℕ × ℕ)) (state : Kahn) : Option Kahn :=
  match state.ready.min? with
  | none => none
  | some current =>
      some ((successors edges current).foldl release
        { state with ready := state.ready.erase current, order := state.order ++ [current] })

def run (edges : List (ℕ × ℕ)) : ℕ → Kahn → Kahn
  | 0, state => state
  | fuel + 1, state =>
      match step edges state with
      | none => state
      | some next => run edges fuel next

def start (n : ℕ) (edges : List (ℕ × ℕ)) : Kahn :=
  let indegree := (List.range n).map fun node => edges.countP fun edge => edge.2 == node
  ⟨(List.range n).filter fun node => indegree.getD node 0 == 0, indegree, []⟩

end Kahn

/-- The order of Kahn's algorithm.  The step after the last node shows an order that is too
long, so the fuel does not decide whether the order has the right length. -/
def topologicalOrder (n : ℕ) (edges : List (ℕ × ℕ)) : List ℕ :=
  (Kahn.run edges (n + 1) (Kahn.start n edges)).order

/-! ### Releasing edges -/

namespace Kahn

theorem release_spec {state : Kahn} {node : ℕ} (hnode : node < state.indegree.length)
    (v : ℕ) : (state.release node).indegree.getD v 0 =
      if v = node then state.indegree.getD node 0 - 1 else state.indegree.getD v 0 := by
  unfold release
  dsimp only
  split_ifs with h
  · subst h
    rw [List.getD_eq_getElem _ _ (by rw [List.length_set]; exact hnode), List.getElem_set_self]
  · rw [List.getD_eq_getElem?_getD, List.getElem?_set_ne (Ne.symm h), ← List.getD_eq_getElem?_getD]

/-- What releasing the edges to a list of nodes does. -/
theorem foldl_release (nodes : List ℕ) (state : Kahn)
    (hnodes : ∀ node ∈ nodes, node < state.indegree.length)
    (hcount : ∀ node, nodes.count node ≤ state.indegree.getD node 0)
    (hready : ∀ node ∈ state.ready, state.indegree.getD node 0 = 0) (hnodup : state.ready.Nodup) :
    (nodes.foldl release state).order = state.order ∧
      (nodes.foldl release state).indegree.length = state.indegree.length ∧
      (∀ v, (nodes.foldl release state).indegree.getD v 0 =
        state.indegree.getD v 0 - nodes.count v) ∧
      (nodes.foldl release state).ready.Nodup ∧
      ∀ v, v ∈ (nodes.foldl release state).ready ↔
        v ∈ state.ready ∨ (v ∈ nodes ∧ state.indegree.getD v 0 = nodes.count v) := by
  induction nodes generalizing state with
  | nil => simp [hnodup]
  | cons node rest ih =>
      have hlt := hnodes node List.mem_cons_self
      have hdegree := @release_spec state node hlt
      have hlength : (state.release node).indegree.length = state.indegree.length := by
        simp [release]
      have hself : 1 + rest.count node ≤ state.indegree.getD node 0 := by
        have := hcount node
        rw [List.count_cons_self] at this
        omega
      have hnew : node ∉ state.ready := by
        intro hmem
        have := hready node hmem
        omega
      have hreadyIff : ∀ v, v ∈ (state.release node).ready ↔
          v ∈ state.ready ∨ (v = node ∧ state.indegree.getD node 0 = 1) := by
        intro v
        unfold release
        dsimp only
        split_ifs with hzero
        · rw [List.mem_cons]
          have : state.indegree.getD node 0 = 1 := by omega
          tauto
        · have : ¬state.indegree.getD node 0 = 1 := by omega
          tauto
      obtain ⟨horder, hlen, hind, hnd, hmem⟩ := ih (state.release node)
        (fun other hother => by
          rw [hlength]
          exact hnodes other (List.mem_cons_of_mem _ hother))
        (fun other => by
          rw [hdegree]
          split_ifs with heq
          · subst heq
            omega
          · have := hcount other
            rw [List.count_cons_of_ne (Ne.symm heq)] at this
            exact this)
        (fun other hother => by
          rw [hdegree]
          obtain hold | ⟨rfl, hone⟩ := (hreadyIff other).mp hother
          · have := hready other hold
            split_ifs with heq
            · subst heq
              omega
            · exact this
          · rw [if_pos rfl]
            omega)
        (by
          unfold release
          dsimp only
          split_ifs
          · exact List.nodup_cons.mpr ⟨hnew, hnodup⟩
          · exact hnodup)
      have hcountCons : ∀ v, (node :: rest).count v = rest.count v + if v = node then 1 else 0 := by
        intro v
        by_cases h : v = node
        · subst h
          rw [List.count_cons_self, if_pos rfl]
        · rw [List.count_cons_of_ne (Ne.symm h), if_neg h]
          rfl
      refine ⟨horder, hlen.trans hlength, fun v => ?_, hnd, fun v => ?_⟩
      · rw [List.foldl_cons, hind, hdegree, hcountCons]
        split_ifs with heq
        · subst heq
          omega
        · omega
      · rw [List.foldl_cons, hmem, hreadyIff, hdegree, hcountCons, List.mem_cons]
        by_cases heq : v = node
        · subst heq
          rw [if_pos rfl, if_pos rfl]
          by_cases hrest : v ∈ rest
          · have := List.count_pos_iff.mpr hrest
            simp only [hrest, hnew, true_and, false_or, or_true]
            omega
          · have := List.count_eq_zero.mpr hrest
            simp only [hrest, hnew, true_and, false_and, false_or, or_false]
            omega
        · rw [if_neg heq, if_neg heq]
          simp [heq]

/-! ### The invariant of a run -/

/-- The edges into a node whose sources are not done. -/
def waiting (edges : List (ℕ × ℕ)) (order : List ℕ) (node : ℕ) : ℕ :=
  edges.countP fun edge => edge.2 == node && !order.contains edge.1

structure Ok (n : ℕ) (edges : List (ℕ × ℕ)) (state : Kahn) : Prop where
  length : state.indegree.length = n
  nodup : (state.ready ++ state.order).Nodup
  indegree : ∀ node < n, state.indegree.getD node 0 = waiting edges state.order node
  mem : ∀ node, node ∈ state.ready ++ state.order ↔ node < n ∧ waiting edges state.order node = 0
  closed : ∀ before node after, state.order = before ++ node :: after →
    ∀ source, (source, node) ∈ edges → source ∈ before

theorem waiting_append {edges : List (ℕ × ℕ)} {order : List ℕ} {current : ℕ}
    (hcurrent : current ∉ order) (node : ℕ) :
    waiting edges order node =
      waiting edges (order ++ [current]) node + (successors edges current).count node := by
  unfold waiting successors
  induction edges with
  | nil => rfl
  | cons edge rest ih =>
      obtain ⟨source, target⟩ := edge
      rw [List.countP_cons, List.countP_cons, ih, List.filter_cons]
      by_cases hs : source = current
      · subst hs
        by_cases ht : target = node
        · subst ht
          simp [hcurrent]
          omega
        · simp [ht, hcurrent]
      · simp [hs]
        omega

theorem start_ok {n : ℕ} {edges : List (ℕ × ℕ)} : Ok n edges (start n edges) := by
  have hget : ∀ node < n, (start n edges).indegree.getD node 0 = waiting edges [] node := by
    intro node hnode
    unfold start waiting
    dsimp only
    rw [List.getD_eq_getElem _ _ (by simpa using hnode), List.getElem_map, List.getElem_range]
    simp
  refine ⟨by simp [start], ?_, hget, fun node => ?_, fun before node after h => ?_⟩
  · simpa [start] using List.Nodup.filter _ List.nodup_range
  · simp only [start, List.append_nil, List.mem_filter, List.mem_range, beq_iff_eq]
    refine and_congr_right fun hnode => ?_
    have := hget node hnode
    unfold start at this
    rw [← this]
  · simp [start] at h

theorem waiting_eq_zero_iff {edges : List (ℕ × ℕ)} {order : List ℕ} {node : ℕ} :
    waiting edges order node = 0 ↔ ∀ source, (source, node) ∈ edges → source ∈ order := by
  unfold waiting
  rw [List.countP_eq_zero]
  constructor
  · intro h source hedge
    have := h _ hedge
    simpa using this
  · rintro h ⟨source, target⟩ hedge
    simp only [Bool.and_eq_true, beq_iff_eq, Bool.not_eq_true', List.contains_eq_mem,
      decide_eq_false_iff_not, not_and, not_not]
    rintro rfl
    exact h source hedge

theorem mem_successors {edges : List (ℕ × ℕ)} {node target : ℕ} :
    target ∈ successors edges node ↔ (node, target) ∈ edges := by
  unfold successors
  rw [List.mem_map]
  constructor
  · rintro ⟨⟨source, other⟩, hmem, rfl⟩
    obtain ⟨hedge, hsource⟩ := List.mem_filter.mp hmem
    rw [beq_iff_eq] at hsource
    exact hsource ▸ hedge
  · intro hedge
    exact ⟨_, List.mem_filter.mpr ⟨hedge, beq_self_eq_true _⟩, rfl⟩

/-- Taking a ready node keeps the invariant. -/
theorem Ok.step {n : ℕ} {edges : List (ℕ × ℕ)} {state next : Kahn}
    (hedges : ∀ edge ∈ edges, edge.2 < n) (h : Ok n edges state)
    (hstep : Kahn.step edges state = some next) :
    Ok n edges next ∧ next.order.length = state.order.length + 1 := by
  unfold Kahn.step at hstep
  cases hmin : state.ready.min? with
  | none => simp [hmin] at hstep
  | some current =>
      rw [hmin] at hstep
      obtain rfl := Option.some.inj hstep
      have hready : current ∈ state.ready := List.min?_mem hmin
      obtain ⟨hreadyNodup, horderNodup, hdisjoint⟩ := List.nodup_append.mp h.nodup
      have hcurrent : current ∉ state.order := fun hmem => hdisjoint _ hready _ hmem rfl
      obtain ⟨hlt, hzero⟩ := (h.mem current).mp (List.mem_append_left _ hready)
      have hwaiting := @waiting_append edges _ _ hcurrent
      obtain ⟨horder, hlength, hindegree, hnodup, hmem⟩ := foldl_release (successors edges current)
        { state with ready := state.ready.erase current, order := state.order ++ [current] }
        (fun node hnode => by
          rw [h.length]
          exact hedges _ (mem_successors.mp hnode))
        (fun node => by
          by_cases hnode : node < n
          · rw [h.indegree node hnode, hwaiting]
            omega
          · have : node ∉ successors edges current :=
              fun hmem => hnode (hedges _ (mem_successors.mp hmem))
            rw [List.count_eq_zero.mpr this]
            omega)
        (fun node hnode => by
          obtain ⟨hnlt, hnzero⟩ :=
            (h.mem node).mp (List.mem_append_left _ (List.mem_of_mem_erase hnode))
          rw [h.indegree node hnlt, hnzero])
        (hreadyNodup.erase _)
      generalize (successors edges current).foldl release _ = result at *
      dsimp only at horder hlength hindegree hmem
      have hmemReady : ∀ v, v ∈ result.ready ↔ (v ∈ state.ready ∧ v ≠ current) ∨
          (v ∈ successors edges current ∧
            waiting edges state.order v = (successors edges current).count v) := by
        intro v
        rw [hmem, hreadyNodup.mem_erase_iff, and_comm]
        refine or_congr_right (and_congr_right fun hv => ?_)
        rw [h.indegree v (hedges _ (mem_successors.mp hv))]
      -- a node waiting for `current` was neither ready nor done before
      have hpos : ∀ v ∈ successors edges current, waiting edges state.order v ≠ 0 := by
        intro v hv
        have := List.count_pos_iff.mpr hv
        rw [hwaiting]
        omega
      refine ⟨⟨hlength.trans h.length, ?_, fun v hv => ?_, fun v => ?_, ?_⟩, ?_⟩
      · rw [horder]
        refine List.nodup_append.mpr ⟨hnodup, ?_, ?_⟩
        · exact List.nodup_append.mpr ⟨horderNodup, List.nodup_singleton _,
            fun a ha b hb => by
              rw [List.mem_singleton] at hb
              rintro rfl
              exact hcurrent (hb ▸ ha)⟩
        · rintro v hv _ hw rfl
          obtain ⟨hold, hne⟩ | ⟨hsucc, -⟩ := (hmemReady v).mp hv
          · obtain hdone | hnew := List.mem_append.mp hw
            · exact hdisjoint v hold v hdone rfl
            · exact hne (List.mem_singleton.mp hnew)
          · refine hpos v hsucc ?_
            obtain hdone | hnew := List.mem_append.mp hw
            · exact ((h.mem v).mp (List.mem_append_right _ hdone)).2
            · rw [List.mem_singleton.mp hnew, hzero]
      · rw [hindegree, h.indegree v hv, horder, hwaiting v]
        omega
      · rw [List.mem_append, hmemReady, horder]
        have hsplit := hwaiting v
        constructor
        · rintro ((⟨hold, -⟩ | ⟨hsucc, hcount⟩) | hdone)
          · obtain ⟨hvlt, hvzero⟩ := (h.mem v).mp (List.mem_append_left _ hold)
            exact ⟨hvlt, by omega⟩
          · exact ⟨hedges _ (mem_successors.mp hsucc), by omega⟩
          · obtain hdone | hnew := List.mem_append.mp hdone
            · obtain ⟨hvlt, hvzero⟩ := (h.mem v).mp (List.mem_append_right _ hdone)
              exact ⟨hvlt, by omega⟩
            · rw [List.mem_singleton.mp hnew] at hsplit ⊢
              exact ⟨hlt, by omega⟩
        · rintro ⟨hvlt, hvzero⟩
          by_cases hsucc : v ∈ successors edges current
          · exact .inl (.inr ⟨hsucc, by omega⟩)
          · have hcount := List.count_eq_zero.mpr hsucc
            obtain hold | hdone := List.mem_append.mp ((h.mem v).mpr ⟨hvlt, by omega⟩)
            · by_cases hv : v = current
              · exact .inr (List.mem_append_right _ (List.mem_singleton.mpr hv))
              · exact .inl (.inl ⟨hold, hv⟩)
            · exact .inr (List.mem_append_left _ hdone)
      · intro before node after hsplit source hedge
        rw [horder] at hsplit
        obtain rfl | ⟨rest, last, rfl⟩ := List.eq_nil_or_concat' after
        · obtain ⟨rfl, hnode⟩ := List.append_inj' hsplit rfl
          rw [← List.singleton_inj.mp hnode] at hedge
          exact waiting_eq_zero_iff.mp hzero source hedge
        · have hassoc : before ++ node :: (rest ++ [last]) = (before ++ node :: rest) ++ [last] := by
            simp
          rw [hassoc] at hsplit
          exact h.closed before node rest (List.append_inj' hsplit rfl).1 source hedge
      · rw [horder, List.length_append, List.length_singleton]

theorem Ok.run {n : ℕ} {edges : List (ℕ × ℕ)} (hedges : ∀ edge ∈ edges, edge.2 < n) (fuel : ℕ)
    {state : Kahn} (h : Ok n edges state) : Ok n edges (Kahn.run edges fuel state) := by
  induction fuel generalizing state with
  | zero => exact h
  | succ fuel ih =>
      unfold Kahn.run
      cases hstep : Kahn.step edges state with
      | none => exact h
      | some next => exact ih (h.step hedges hstep).1

end Kahn

/-! ### Orders of the right length -/

/-- Every node once, after all its predecessors. -/
structure IsTopologicalOrder (n : ℕ) (edges : List (ℕ × ℕ)) (order : List ℕ) : Prop where
  nodup : order.Nodup
  mem : ∀ node, node ∈ order ↔ node < n
  closed : ∀ before node after, order = before ++ node :: after →
    ∀ source, (source, node) ∈ edges → source ∈ before

theorem isTopologicalOrder_of_length {n : ℕ} {edges : List (ℕ × ℕ)}
    (hedges : ∀ edge ∈ edges, edge.2 < n) (hlength : (topologicalOrder n edges).length = n) :
    IsTopologicalOrder n edges (topologicalOrder n edges) := by
  have h := Kahn.Ok.run hedges (n + 1) (@Kahn.start_ok n edges)
  have hnodup := (List.nodup_append.mp h.nodup).2.1
  have hsubset : topologicalOrder n edges ⊆ List.range n := by
    intro node hnode
    exact List.mem_range.mpr ((h.mem node).mp (List.mem_append_right _ hnode)).1
  have hperm : (topologicalOrder n edges).Perm (List.range n) := by
    refine (List.subperm_of_subset hnodup hsubset).perm_of_length_le ?_
    rw [List.length_range]
    exact hlength.ge
  exact ⟨hnodup, fun node => by rw [hperm.mem_iff, List.mem_range], h.closed⟩

/-- Along the edges the position in the order grows. -/
theorem IsTopologicalOrder.idxOf_lt {n : ℕ} {edges : List (ℕ × ℕ)} {order : List ℕ}
    (h : IsTopologicalOrder n edges order) {source node : ℕ} (hedge : (source, node) ∈ edges)
    (hnode : node < n) : order.idxOf source < order.idxOf node := by
  obtain ⟨before, after, hsplit⟩ := List.append_of_mem ((h.mem node).mpr hnode)
  have hsource := h.closed before node after hsplit source hedge
  have hnodup := h.nodup
  rw [hsplit] at hnodup
  have hnot : node ∉ before := fun hmem =>
    (List.nodup_append.mp hnodup).2.2 node hmem node List.mem_cons_self rfl
  rw [hsplit, List.idxOf_append_of_mem hsource, List.idxOf_append_of_notMem hnot,
    List.idxOf_cons_self]
  have := List.idxOf_lt_length_of_mem hsource
  omega

end Theory
