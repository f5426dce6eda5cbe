import DsaSolver.PoolPlacements
import DsaSolver.CapacityTwoComponents
import DsaSolver.SpanOneSolver
import DsaSolver.Theory.ColorMatching
import DsaSolver.UnitPools

/-! # The phases of the span-one solver

The breadth-first search of `BuildSpanPool` finds the hard components of a pool (`drain_end`).
Where they are cliques, they part the nodes into phases (`Phases`), and a phase larger than the
number of colours proves that the pool has no placement (`buildSpanPool_end`). -/

namespace Dsa

namespace SpanOneMinCostFlowSolver

open PoolTwoSearch (nodes mem_nodes lt_of_mem_nodes HardPair)
open PoolCanonicalSearch (Placed)

variable {problem : DsaProblem} {pool : PoolId}

/-! ### One component -/

section spread

variable {before visited : List Bool} {queue component : List ℕ} {current : ℕ}

theorem getD_set_visited {node n : ℕ} (hnode : node < visited.length) :
    (visited.set node true).getD n false = true ↔ n = node ∨ visited.getD n false = true := by
  by_cases hn : n = node
  · subst hn
    rw [List.getD_eq_getElem _ _ (by rwa [List.length_set]), List.getElem_set_self]
    simp
  · rw [List.getD_eq_getElem?_getD, List.getElem?_set_ne (Ne.symm hn),
      ← List.getD_eq_getElem?_getD]
    simp [hn]

/-- What holds between two steps of the search; the pending pairs are still to be looked at. -/
structure Spread (problem : DsaProblem) (pool : PoolId) (before visited : List Bool)
    (queue component : List ℕ) (pending : ℕ → ℕ → Prop) : Prop where
  length : visited.length = problem.search.count
  visited_iff : ∀ n, visited.getD n false = true ↔
    before.getD n false = true ∨ n ∈ component ++ queue
  fresh : ∀ n ∈ component ++ queue, before.getD n false = false
  nodup : (component ++ queue).Nodup
  inPool : ∀ n ∈ component ++ queue, n ∈ nodes problem.search pool
  closed : ∀ n ∈ component, ∀ m, HardPair problem pool n m →
    visited.getD m false = true ∨ pending n m

theorem Spread.mono {pending pending' : ℕ → ℕ → Prop}
    (h : Spread problem pool before visited queue component pending)
    (hpending : ∀ n m, HardPair problem pool n m → pending n m →
      visited.getD m false = true ∨ pending' n m) :
    Spread problem pool before visited queue component pending' :=
  { h with closed := fun n hn m hpair => (h.closed n hn m hpair).elim .inl (hpending n m hpair) }

/-- The nodes found are nodes of the pool. -/
theorem Spread.length_le {pending : ℕ → ℕ → Prop}
    (h : Spread problem pool before visited queue component pending) :
    component.length + queue.length ≤ problem.search.count := by
  rw [← List.length_append]
  exact Theory.length_le_of_nodup_lt h.nodup fun n hn => lt_of_mem_nodes (h.inPool n hn)

/-- The loop over the hard neighbours of a node. -/
theorem visitNeighbors_end {neighbors : List ℕ} (hneighbors : ∀ m ∈ neighbors,
      m < problem.search.count)
    (h : Spread problem pool before visited queue component fun n m =>
      n = current ∧ m ∈ neighbors) :
    ∃ next nextQueue,
      neighbors.foldl (visitNeighbor problem.search pool) (visited, queue) = (next, nextQueue) ∧
      Spread problem pool before next nextQueue component (fun _ _ => False) ∧
      queue <+: nextQueue := by
  induction neighbors generalizing visited queue with
  | nil =>
      refine ⟨visited, queue, rfl, h.mono fun n m _ hpending => ?_, List.prefix_rfl⟩
      exact (List.not_mem_nil hpending.2).elim
  | cons neighbor rest ih =>
      obtain ⟨hcount, hrest⟩ := List.forall_mem_cons.mp hneighbors
      rw [List.foldl_cons]
      unfold visitNeighbor
      dsimp only
      by_cases hcond : ((problem.search.nodeAt neighbor).pool == pool &&
          !(visited.getD neighbor false)) = true
      · rw [if_pos hcond]
        rw [Bool.and_eq_true, beq_iff_eq, Bool.not_eq_true'] at hcond
        obtain ⟨hpool, hnew⟩ := hcond
        have hset : ∀ n, (visited.set neighbor true).getD n false = true ↔
            n = neighbor ∨ visited.getD n false = true := fun n =>
          getD_set_visited (by rwa [h.length])
        have hfresh : neighbor ∉ component ++ queue := fun hmem => by
          have := (h.visited_iff neighbor).mpr (.inr hmem)
          rw [hnew] at this
          cases this
        have hbefore : before.getD neighbor false = false := by
          rw [← Bool.not_eq_true]
          intro hold
          have := (h.visited_iff neighbor).mpr (.inl hold)
          rw [hnew] at this
          cases this
        have hmem : ∀ n, n ∈ component ++ (queue ++ [neighbor]) ↔
            n ∈ component ++ queue ∨ n = neighbor := fun n => by
          simp only [List.mem_append, List.mem_singleton, or_assoc]
        have hnext : Spread problem pool before (visited.set neighbor true) (queue ++ [neighbor])
            component fun n m => n = current ∧ m ∈ rest := by
          refine ⟨(List.length_set ..).trans h.length, fun n => ?_, fun n hn => ?_, ?_,
            fun n hn => ?_, fun n hn m hpair => ?_⟩
          · rw [hset, h.visited_iff, hmem]
            tauto
          · rcases (hmem n).mp hn with hn | rfl
            · exact h.fresh n hn
            · exact hbefore
          · rw [← List.append_assoc, List.nodup_append]
            refine ⟨h.nodup, List.nodup_singleton _, fun a ha b hb heq => hfresh ?_⟩
            rwa [← List.mem_singleton.mp hb, ← heq]
          · rcases (hmem n).mp hn with hn | rfl
            · exact h.inPool n hn
            · exact mem_nodes.mpr (PoolCanonicalSearch.mem_poolNodes.mpr ⟨hcount, hpool⟩)
          · rw [hset]
            rcases h.closed n hn m hpair with hseen | ⟨heq, hm⟩
            · exact .inl (.inr hseen)
            · exact (List.mem_cons.mp hm).imp .inl fun hm => ⟨heq, hm⟩
        obtain ⟨next, nextQueue, hfold, hok, hextends⟩ := ih hrest hnext
        exact ⟨next, nextQueue, hfold, hok, (List.prefix_append _ _).trans hextends⟩
      · -- a neighbour that is visited, or in another pool
        rw [if_neg hcond]
        rw [Bool.and_eq_true, beq_iff_eq, Bool.not_eq_true', not_and, Bool.not_eq_false] at hcond
        refine ih hrest (h.mono fun n m hpair hpending => ?_)
        rcases List.mem_cons.mp hpending.2 with rfl | hm
        · exact .inl (hcond (PoolCanonicalSearch.mem_poolNodes.mp (mem_nodes.mp hpair.second)).2)
        · exact .inr ⟨hpending.1, hm⟩

/-- The loop over the queue ends with an empty one. -/
theorem drain_end (h : SearchOk problem) (fuel : ℕ)
    (hspread : Spread problem pool before visited queue component fun _ _ => False)
    (hfuel : problem.search.count ≤ fuel + component.length) :
    ∃ next whole, drain problem.search pool fuel visited queue component = (next, whole) ∧
      Spread problem pool before next [] whole (fun _ _ => False) ∧
      ∀ n ∈ component ++ queue, n ∈ whole := by
  induction fuel generalizing visited queue component with
  | zero =>
      have hle := hspread.length_le
      obtain rfl : queue = [] := List.length_eq_zero_iff.mp (by omega)
      exact ⟨visited, component, rfl, hspread, fun n hn => by rwa [List.append_nil] at hn⟩
  | succ fuel ih =>
      cases queue with
      | nil => exact ⟨visited, component, rfl, hspread, fun n hn => by rwa [List.append_nil] at hn⟩
      | cons node rest =>
          have hsame : component ++ node :: rest = (component ++ [node]) ++ rest := by simp
          have hnode := hspread.inPool node (List.mem_append_right _ List.mem_cons_self)
          have hpopped : Spread problem pool before visited rest (component ++ [node]) fun n m =>
              n = node ∧ m ∈ problem.search.hardNeighborsOf node := by
            refine ⟨hspread.length, fun n => ?_, fun n hn => hspread.fresh n ?_, ?_,
              fun n hn => hspread.inPool n ?_, fun n hn m hpair => ?_⟩
            · rw [hspread.visited_iff, hsame]
            · rwa [hsame]
            · rw [← hsame]
              exact hspread.nodup
            · rwa [hsame]
            · rcases List.mem_append.mp hn with hn | hn
              · exact .inl ((hspread.closed n hn m hpair).resolve_right id)
              · obtain rfl := List.mem_singleton.mp hn
                exact .inr ⟨rfl, (h.mem_hardNeighborsOf (lt_of_mem_nodes hnode) m).mpr
                  ⟨lt_of_mem_nodes hpair.second, hpair.conflict⟩⟩
          obtain ⟨next, nextQueue, hfold, hok, hextends⟩ := visitNeighbors_end
            (fun m hm => ((h.mem_hardNeighborsOf (lt_of_mem_nodes hnode) m).mp hm).1) hpopped
          obtain ⟨last, whole, hdrain, hlast, hkept⟩ := ih hok (by
            rw [List.length_append, List.length_singleton]
            omega)
          refine ⟨last, whole, ?_, hlast, fun n hn => hkept n ?_⟩
          · unfold drain
            rw [hfold]
            exact hdrain
          · rw [hsame] at hn
            rcases List.mem_append.mp hn with hn | hn
            · exact List.mem_append_left _ hn
            · exact List.mem_append_right _ (hextends.subset hn)

end spread

theorem isClique_eq_true (h : SearchOk problem) {component : List ℕ}
    (hcount : ∀ n ∈ component, n < problem.search.count) :
    isClique problem.search component = true ↔ component.Pairwise (NodesConflict problem) := by
  induction component with
  | nil => simp [isClique]
  | cons first rest ih =>
      obtain ⟨hfirst, hrest⟩ := List.forall_mem_cons.mp hcount
      unfold isClique
      rw [Bool.and_eq_true, ih hrest, List.all_eq_true, List.pairwise_cons]
      refine and_congr_left fun _ => forall₂_congr fun second hsecond => ?_
      rw [contains_hardNeighbors_iff h hfirst]
      exact and_iff_right (hrest second hsecond)

/-! ### The phases -/

/-- What holds of the phases found. -/
structure Phases (problem : DsaProblem) (pool : PoolId) (colors maxPhaseBuffers : ℕ)
    (phases : List (List ℕ)) : Prop where
  nodup : phases.flatten.Nodup
  inPool : ∀ phase ∈ phases, ∀ n ∈ phase, n ∈ nodes problem.search pool
  nonempty : ∀ phase ∈ phases, phase ≠ []
  closed : ∀ phase ∈ phases, ∀ n ∈ phase, ∀ m, HardPair problem pool n m → m ∈ phase
  conflict : ∀ phase ∈ phases, ∀ n ∈ phase, ∀ m ∈ phase, n ≠ m → NodesConflict problem n m
  fits : ∀ phase ∈ phases, phase.length ≤ colors
  small : ∀ phase ∈ phases, phase.length ≤ maxPhaseBuffers

/-- The flags of the nodes of the phases. -/
structure Visited (problem : DsaProblem) (visited : List Bool) (phases : List (List ℕ)) : Prop where
  length : visited.length = problem.search.count
  visited_iff : ∀ n, visited.getD n false = true ↔ n ∈ phases.flatten

/-- Nodes in conflict that are more than the colours. -/
def Crowded (problem : DsaProblem) (pool : PoolId) (colors : ℕ) : Prop :=
  ∃ crowd : List ℕ, crowd.Nodup ∧ (∀ n ∈ crowd, n ∈ nodes problem.search pool) ∧
    crowd.Pairwise (NodesConflict problem) ∧ colors < crowd.length

variable {colors maxPhaseBuffers : ℕ}

theorem mem_sortPhase {component : List ℕ} {n : ℕ} :
    n ∈ sortPhase problem.search component ↔ n ∈ component := List.mem_insertionSort _

theorem Phases.add {phases : List (List ℕ)} {component : List ℕ}
    (h : Phases problem pool colors maxPhaseBuffers phases) (hnodup : component.Nodup)
    (hnew : ∀ n ∈ component, n ∉ phases.flatten)
    (hpool : ∀ n ∈ component, n ∈ nodes problem.search pool) (hne : component ≠ [])
    (hclosed : ∀ n ∈ component, ∀ m, HardPair problem pool n m → m ∈ component)
    (hclique : component.Pairwise (NodesConflict problem)) (hfits : component.length ≤ colors)
    (hsmall : component.length ≤ maxPhaseBuffers) :
    Phases problem pool colors maxPhaseBuffers (phases ++ [sortPhase problem.search component]) := by
  have hlength : (sortPhase problem.search component).length = component.length :=
    List.length_insertionSort _ _
  refine ⟨?_, fun phase hphase => ?_, fun phase hphase => ?_, fun phase hphase => ?_,
    fun phase hphase => ?_, fun phase hphase => ?_, fun phase hphase => ?_⟩
  · rw [List.flatten_append, List.flatten_singleton, List.nodup_append]
    refine ⟨h.nodup, (List.perm_insertionSort _ _).nodup_iff.mpr hnodup, fun a ha b hb heq => ?_⟩
    exact hnew b (mem_sortPhase.mp hb) (heq ▸ ha)
  all_goals
    rcases List.mem_append.mp hphase with hold | hlast
  · exact h.inPool phase hold
  · rw [List.mem_singleton.mp hlast]
    exact fun n hn => hpool n (mem_sortPhase.mp hn)
  · exact h.nonempty phase hold
  · rw [List.mem_singleton.mp hlast]
    exact fun heq => hne (List.length_eq_zero_iff.mp (by rw [← hlength, heq, List.length_nil]))
  · exact h.closed phase hold
  · rw [List.mem_singleton.mp hlast]
    exact fun n hn m hpair => mem_sortPhase.mpr (hclosed n (mem_sortPhase.mp hn) m hpair)
  · exact h.conflict phase hold
  · rw [List.mem_singleton.mp hlast]
    have hsymm : Std.Symm (NodesConflict problem) := ⟨fun _ _ hconflict => hconflict.symm⟩
    intro n hn m hm hnm
    exact hclique.forall (mem_sortPhase.mp hn) (mem_sortPhase.mp hm) hnm
  · exact h.fits phase hold
  · rw [List.mem_singleton.mp hlast, hlength]
    exact hfits
  · exact h.small phase hold
  · rw [List.mem_singleton.mp hlast, hlength]
    exact hsmall

/-- The ends of the search from one start. -/
inductive GrowEnd (problem : DsaProblem) (pool : PoolId) (colors maxPhaseBuffers : ℕ)
    (phases : List (List ℕ)) (start : ℕ) :
    Except (SolveStatus × String) (List Bool × List (List ℕ)) → Prop
  | grown (visited : List Bool) (next : List (List ℕ)) (flags : Visited problem visited next)
      (ok : Phases problem pool colors maxPhaseBuffers next) (kept : phases <+: next)
      (found : start ∈ next.flatten) :
      GrowEnd problem pool colors maxPhaseBuffers phases start (.ok (visited, next))
  | crowded (diagnostic : String) (crowded : Crowded problem pool colors) :
      GrowEnd problem pool colors maxPhaseBuffers phases start
        (.error (.infeasibleProven, diagnostic))
  | refused (diagnostic : String) :
      GrowEnd problem pool colors maxPhaseBuffers phases start (.error (.unsupported, diagnostic))

theorem growPhase_end (h : SearchOk problem) {start : ℕ} (hstart : start ∈ nodes problem.search pool)
    {colors : UInt64} {visited : List Bool} {phases : List (List ℕ)}
    (hvisited : Visited problem visited phases)
    (hphases : Phases problem pool colors.toNat maxPhaseBuffers phases) :
    GrowEnd problem pool colors.toNat maxPhaseBuffers phases start
      (growPhase problem.search pool colors maxPhaseBuffers (visited, phases) start) := by
  unfold growPhase
  dsimp only
  by_cases hold : visited.getD start false = true
  · rw [if_pos hold]
    exact .grown _ _ hvisited hphases List.prefix_rfl ((hvisited.visited_iff start).mp hold)
  rw [if_neg hold]
  have hset : ∀ n, (visited.set start true).getD n false = true ↔
      n = start ∨ visited.getD n false = true := fun n =>
    getD_set_visited (by
      rw [hvisited.length]
      exact lt_of_mem_nodes hstart)
  have hspread : Spread problem pool visited (visited.set start true) [start] []
      fun _ _ => False := by
    refine ⟨(List.length_set ..).trans hvisited.length, fun n => ?_, fun n hn => ?_,
      List.nodup_singleton _, fun n hn => ?_, fun n hn => (List.not_mem_nil hn).elim⟩
    · rw [hset, List.nil_append, List.mem_singleton]
      exact or_comm
    · rw [List.mem_singleton.mp hn, ← Bool.not_eq_true]
      exact hold
    · rwa [List.mem_singleton.mp hn]
  obtain ⟨next, whole, hdrain, hwhole, hkept⟩ := drain_end h problem.search.count hspread le_rfl
  have hnew : ∀ n ∈ whole, n ∉ phases.flatten := by
    intro n hn hmem
    have := hwhole.fresh n (by rwa [List.append_nil])
    rw [(hvisited.visited_iff n).mpr hmem] at this
    cases this
  have hpool : ∀ n ∈ whole, n ∈ nodes problem.search pool := fun n hn =>
    hwhole.inPool n (by rwa [List.append_nil])
  have hnodup : whole.Nodup := by
    have := hwhole.nodup
    rwa [List.append_nil] at this
  -- a neighbour of the component that another phase holds would put the node there too
  have hclosed : ∀ n ∈ whole, ∀ m, HardPair problem pool n m → m ∈ whole := by
    intro n hn m hpair
    rcases (hwhole.visited_iff m).mp ((hwhole.closed n hn m hpair).resolve_right id) with
      hbefore | hmem
    · obtain ⟨phase, hphase, hm⟩ := List.mem_flatten.mp ((hvisited.visited_iff m).mp hbefore)
      exact absurd (List.mem_flatten.mpr ⟨phase, hphase, hphases.closed phase hphase m hm n
        hpair.symm⟩) (hnew n hn)
    · rwa [List.append_nil] at hmem
  have hmem : start ∈ whole := hkept start List.mem_cons_self
  rw [hdrain]
  dsimp only
  by_cases hclique : isClique problem.search whole = true
  · have hpairs := (isClique_eq_true h fun n hn => lt_of_mem_nodes (hpool n hn)).mp hclique
    rw [hclique, Bool.not_true, if_neg Bool.false_ne_true]
    by_cases hfits : colors.toNat < whole.length
    · rw [if_pos hfits]
      exact .crowded _ ⟨whole, hnodup, hpool, hpairs, hfits⟩
    · rw [if_neg hfits]
      by_cases hsmall : maxPhaseBuffers < whole.length
      · rw [if_pos hsmall]
        exact .refused _
      · rw [if_neg hsmall]
        refine .grown _ _ ⟨hwhole.length, fun n => ?_⟩
          (hphases.add hnodup hnew hpool (List.ne_nil_of_mem hmem) hclosed hpairs (not_lt.mp hfits)
            (not_lt.mp hsmall)) (List.prefix_append _ _) ?_
        · rw [hwhole.visited_iff, hvisited.visited_iff, List.append_nil, List.flatten_append,
            List.flatten_singleton, List.mem_append, mem_sortPhase]
        · rw [List.flatten_append, List.flatten_singleton]
          exact List.mem_append_right _ (mem_sortPhase.mpr hmem)
  · rw [Bool.not_eq_true] at hclique
    rw [hclique, Bool.not_false, if_pos rfl]
    exact .refused _

theorem phases_nil : Phases problem pool colors maxPhaseBuffers [] :=
  ⟨List.nodup_nil, fun _ hphase => (List.not_mem_nil hphase).elim,
    fun _ hphase => (List.not_mem_nil hphase).elim, fun _ hphase => (List.not_mem_nil hphase).elim,
    fun _ hphase => (List.not_mem_nil hphase).elim, fun _ hphase => (List.not_mem_nil hphase).elim,
    fun _ hphase => (List.not_mem_nil hphase).elim⟩

theorem Phases.perm {phases sorted : List (List ℕ)}
    (h : Phases problem pool colors maxPhaseBuffers phases) (hperm : sorted.Perm phases) :
    Phases problem pool colors maxPhaseBuffers sorted where
  nodup := hperm.flatten.nodup_iff.mpr h.nodup
  inPool phase hphase := h.inPool phase (hperm.mem_iff.mp hphase)
  nonempty phase hphase := h.nonempty phase (hperm.mem_iff.mp hphase)
  closed phase hphase := h.closed phase (hperm.mem_iff.mp hphase)
  conflict phase hphase := h.conflict phase (hperm.mem_iff.mp hphase)
  fits phase hphase := h.fits phase (hperm.mem_iff.mp hphase)
  small phase hphase := h.small phase (hperm.mem_iff.mp hphase)

/-- The state of the loop over the starts. -/
structure Grown (problem : DsaProblem) (pool : PoolId) (colors maxPhaseBuffers : ℕ)
    (done : List ℕ) (state : List Bool × List (List ℕ)) : Prop where
  flags : Visited problem state.1 state.2
  ok : Phases problem pool colors maxPhaseBuffers state.2
  found : ∀ n ∈ done, n ∈ state.2.flatten

theorem grown_start : Grown problem pool colors maxPhaseBuffers []
    (List.replicate problem.search.count false, []) where
  flags := by
    refine ⟨List.length_replicate, fun n => ?_⟩
    rw [List.getD_eq_getElem?_getD, List.getElem?_replicate]
    by_cases hn : n < problem.search.count
    · simp [hn]
    · simp [hn]
  ok := phases_nil
  found _ hn := (List.not_mem_nil hn).elim

theorem Grown.step (h : SearchOk problem) {colors : UInt64} {done rest : List ℕ} {start : ℕ}
    {state next : List Bool × List (List ℕ)}
    (hnodes : nodes problem.search pool = done ++ start :: rest)
    (hgrown : Grown problem pool colors.toNat maxPhaseBuffers done state)
    (hstep : growPhase problem.search pool colors maxPhaseBuffers state start = .ok next) :
    Grown problem pool colors.toNat maxPhaseBuffers (done ++ [start]) next := by
  have hstart : start ∈ nodes problem.search pool := by
    rw [hnodes]
    exact List.mem_append_right _ List.mem_cons_self
  have hend := growPhase_end h hstart hgrown.flags hgrown.ok
  rw [hstep] at hend
  cases hend with
  | grown visited phases hflags hok hkept hfound =>
      refine ⟨hflags, hok, fun n hn => ?_⟩
      rcases List.mem_append.mp hn with hn | hn
      · obtain ⟨phase, hphase, hmem⟩ := List.mem_flatten.mp (hgrown.found n hn)
        exact List.mem_flatten.mpr ⟨phase, hkept.subset hphase, hmem⟩
      · rwa [List.mem_singleton.mp hn]

/-- The loop over the starts that ends has parted the nodes. -/
theorem growPhases_ok (h : SearchOk problem) {colors : UInt64}
    {state : List Bool × List (List ℕ)}
    (hok : (nodes problem.search pool).foldlM (growPhase problem.search pool colors maxPhaseBuffers)
      (List.replicate problem.search.count false, []) = .ok state) :
    Grown problem pool colors.toNat maxPhaseBuffers (nodes problem.search pool) state :=
  Theory.foldlM_induction (Grown problem pool colors.toNat maxPhaseBuffers) grown_start
    (fun _ _ _ _ _ hnodes hgrown hstep => hgrown.step h hnodes hstep) hok

/-- The loop over the starts that stops. -/
theorem growPhases_error (h : SearchOk problem) {colors : UInt64} {what : SolveStatus × String}
    (herror : (nodes problem.search pool).foldlM
      (growPhase problem.search pool colors maxPhaseBuffers)
      (List.replicate problem.search.count false, []) = .error what) :
    what.1 = .unsupported ∨ what.1 = .infeasibleProven ∧ Crowded problem pool colors.toNat := by
  obtain ⟨done, start, rest, state, hnodes, hgrown, hstep⟩ :=
    Theory.foldlM_error (Grown problem pool colors.toNat maxPhaseBuffers) grown_start
      (fun _ _ _ _ _ hnodes hgrown hstep => hgrown.step h hnodes hstep) herror
  have hstart : start ∈ nodes problem.search pool := by
    rw [hnodes]
    exact List.mem_append_right _ List.mem_cons_self
  have hend := growPhase_end h hstart hgrown.flags hgrown.ok
  rw [hstep] at hend
  cases hend with
  | crowded diagnostic hcrowded => exact .inr ⟨rfl, hcrowded⟩
  | refused diagnostic => exact .inl rfl

/-! ### The checks of the nodes -/

/-- What the loop over the nodes has collected. -/
structure Collected (problem : DsaProblem) (pool : PoolId) (done : List ℕ)
    (state : List ℕ × UInt64) : Prop where
  nodes_eq : state.1 = done.filter fun node => (problem.search.nodeAt node).pool == pool
  unit_eq_zero_iff : state.2 = 0 ↔ state.1 = []
  uniform : ∀ n ∈ state.1, (problem.search.nodeAt n).size = state.2 ∧
    state.2 % (problem.search.nodeAt n).alignment = 0

theorem Collected.step (h : SearchOk problem) {done : List ℕ} {node : ℕ}
    (hnode : node < problem.search.count) {state next : List ℕ × UInt64}
    (hcollected : Collected problem pool done state)
    (hstep : collectNode problem.search pool state node = some next) :
    Collected problem pool (done ++ [node]) next := by
  unfold collectNode at hstep
  by_cases hpool : ((problem.search.nodeAt node).pool != pool) = true
  · rw [if_pos hpool] at hstep
    obtain rfl := Option.some.inj hstep
    rw [bne_iff_ne] at hpool
    refine ⟨?_, hcollected.unit_eq_zero_iff, hcollected.uniform⟩
    rw [List.filter_append, hcollected.nodes_eq]
    simp [hpool]
  · rw [if_neg hpool] at hstep
    rw [bne_iff_ne, not_not] at hpool
    dsimp only at hstep
    split_ifs at hstep with hzero hdiffers hdiffers
    all_goals
      rw [Bool.or_eq_true, not_or, bne_iff_ne, bne_iff_ne, not_not, not_not] at hdiffers
      obtain rfl := Option.some.inj hstep
    · -- the first node sets the unit
      have hnil := hcollected.unit_eq_zero_iff.mp (beq_iff_eq.mp hzero)
      refine ⟨?_, ?_, fun n hn => ?_⟩
      · rw [List.filter_append, hcollected.nodes_eq]
        simp [hpool]
      · refine iff_of_false (h.size_ne hnode) ?_
        simp
      · dsimp only at hn ⊢
        rw [hnil, List.nil_append] at hn
        rw [List.mem_singleton.mp hn]
        exact ⟨rfl, hdiffers.2⟩
    · refine ⟨?_, ?_, fun n hn => ?_⟩
      · rw [List.filter_append, hcollected.nodes_eq]
        simp [hpool]
      · refine iff_of_false (fun heq => hzero (beq_iff_eq.mpr heq)) ?_
        simp
      · rcases List.mem_append.mp hn with hn | hn
        · exact hcollected.uniform n hn
        · rw [List.mem_singleton.mp hn]
          exact hdiffers

/-- The loop over the nodes. -/
theorem collectNodes_end (h : SearchOk problem) {state : List ℕ × UInt64}
    (hsome : (List.range problem.search.count).foldlM (collectNode problem.search pool) ([], 0) =
      some state) : Collected problem pool (List.range problem.search.count) state := by
  suffices hgeneral : ∀ (rest done : List ℕ) (start : List ℕ × UInt64),
      (∀ n ∈ rest, n < problem.search.count) → Collected problem pool done start →
        rest.foldlM (collectNode problem.search pool) start = some state →
          Collected problem pool (done ++ rest) state from
    hgeneral _ [] _ (fun n hn => List.mem_range.mp hn)
      ⟨rfl, iff_of_true rfl rfl, fun _ hn => (List.not_mem_nil hn).elim⟩ hsome
  intro rest
  induction rest with
  | nil =>
      intro done start _ hstart hfold
      obtain rfl := Option.some.inj hfold
      rwa [List.append_nil]
  | cons node rest ih =>
      intro done start hcount hstart hfold
      obtain ⟨hnode, hrest⟩ := List.forall_mem_cons.mp hcount
      rw [List.foldlM_cons, Option.bind_eq_bind, Option.bind_eq_some_iff] at hfold
      obtain ⟨next, hnext, hfold⟩ := hfold
      have := ih (done ++ [node]) next hrest (hstart.step h hnode hnext) hfold
      rwa [List.append_assoc, List.singleton_append] at this

/-! ### The numbers of the phases -/

/-- The loop over the phases, from the number `start`. -/
theorem getD_foldl_phases (phases : List (List ℕ)) (start : ℕ) (hnodup : phases.flatten.Nodup)
    (phaseByNode : List (Option ℕ)) {n : ℕ} (hn : n < phaseByNode.length) :
    (n ∉ phases.flatten →
      ((phases.zipIdx start).foldl (fun phaseByNode entry =>
        entry.1.foldl (fun phaseByNode node => phaseByNode.set node (some entry.2)) phaseByNode)
          phaseByNode).getD n none = phaseByNode.getD n none) ∧
    ∀ b, n ∈ phases.getD b [] →
      ((phases.zipIdx start).foldl (fun phaseByNode entry =>
        entry.1.foldl (fun phaseByNode node => phaseByNode.set node (some entry.2)) phaseByNode)
          phaseByNode).getD n none = some (start + b) := by
  induction phases generalizing start phaseByNode with
  | nil => exact ⟨fun _ => rfl, fun b hb => (List.not_mem_nil hb).elim⟩
  | cons phase rest ih =>
      rw [List.flatten_cons, List.nodup_append] at hnodup
      obtain ⟨-, hrest, hdisjoint⟩ := hnodup
      have hlength : (phase.foldl (fun phaseByNode node => phaseByNode.set node (some start))
          phaseByNode).length = phaseByNode.length :=
        List.foldlRecOn (motive := fun values : List (Option ℕ) => values.length = _) _ _ rfl
          fun values hvalues node _ => by rw [List.length_set, hvalues]
      have hset := getD_foldl_set (fun _ => some start) none phase phaseByNode hn
      rw [List.zipIdx_cons, List.foldl_cons]
      obtain ⟨hout, hin⟩ := ih (start + 1) hrest
        (phase.foldl (fun phaseByNode node => phaseByNode.set node (some start)) phaseByNode)
        (by rwa [hlength])
      constructor
      · intro hnone
        rw [List.flatten_cons, List.mem_append, not_or] at hnone
        rw [hout hnone.2, hset, if_neg hnone.1]
      · intro b hb
        cases b with
        | zero =>
            have hmem : n ∈ phase := hb
            rw [hout fun hmem' => hdisjoint n hmem n hmem' rfl, hset, if_pos hmem, Nat.add_zero]
        | succ b =>
            rw [hin b hb]
            exact congrArg some (by omega)

/-- A crowd leaves no placement of unit buffers. -/
theorem not_placed_of_crowded {unitPool : Pool} {unit capacity : UInt64} (h : SearchOk problem)
    (hunits : UnitPool problem unitPool unit capacity)
    (hcrowded : Crowded problem unitPool.id (capacity.toNat / unit.toNat)) (q : ℕ → ℕ) :
    ¬ Placed problem unitPool.id q := by
  intro hplaced
  obtain ⟨g, hg, -⟩ := hunits.exists_coloring h hplaced
  obtain ⟨crowd, hnodup, hpool, hpairs, hmore⟩ := hcrowded
  have hcolors : (crowd.map g).Nodup := by
    rw [List.nodup_map_iff_inj_on hnodup]
    have hsymm : Std.Symm (NodesConflict problem) := ⟨fun _ _ hconflict => hconflict.symm⟩
    intro n hn m hm heq
    by_contra hne
    exact hg.proper n (mem_nodes.mp (hpool n hn)) m (mem_nodes.mp (hpool m hm))
      (hpairs.forall hn hm hne) heq
  have hle := Theory.length_le_of_nodup_lt hcolors (c := capacity.toNat / unit.toNat)
    fun color hcolor => by
      obtain ⟨n, hn, rfl⟩ := List.mem_map.mp hcolor
      exact lt_of_lt_of_le (hg.lt n (mem_nodes.mp (hpool n hn))) (min_le_left _ _)
  rw [List.length_map] at hle
  omega

/-! ### The shape of a pool -/

/-- Consecutive phases hold the nodes of the pair. -/
def Bridges (phases : List (List ℕ)) (pair : ℕ × ℕ) (b : ℕ) : Prop :=
  pair.1 ∈ phases.getD b [] ∧ pair.2 ∈ phases.getD (b + 1) [] ∨
    pair.2 ∈ phases.getD b [] ∧ pair.1 ∈ phases.getD (b + 1) []

/-- A pool of the shape of the solver. -/
structure SpanOk (problem : DsaProblem) (pool : Pool) (maxPhaseBuffers : ℕ) (capacity : UInt64)
    (span : SpanPool) : Prop where
  units : UnitPool problem pool span.unit capacity
  colors_eq : span.colors.toNat = capacity.toNat / span.unit.toNat
  phases : Phases problem pool.id span.colors.toNat maxPhaseBuffers span.phases
  found : ∀ n ∈ nodes problem.search pool.id, n ∈ span.phases.flatten
  phaseByNode : ∀ n ∈ nodes problem.search pool.id, (span.phaseByNode.getD n none).isSome = true
  bridges : ∀ entry ∈ problem.search.softWeights.toList,
    (problem.search.nodeAt entry.1.1).pool = pool.id → ∃ b, Bridges span.phases entry.1 b

/-- The outcomes of `BuildSpanPool`. -/
inductive SpanEnd (problem : DsaProblem) (pool : Pool) (maxPhaseBuffers : ℕ) :
    Except (SolveStatus × String) SpanPool → Prop
  | shaped (span : SpanPool) (capacity : UInt64)
      (ok : SpanOk problem pool maxPhaseBuffers capacity span) :
      SpanEnd problem pool maxPhaseBuffers (.ok span)
  | empty (span : SpanPool) (none : PoolCanonicalSearch.poolNodes problem.search pool.id = [])
      (phases : span.phases = []) : SpanEnd problem pool maxPhaseBuffers (.ok span)
  | full (diagnostic : String) (none : ∀ q, ¬ Placed problem pool.id q) :
      SpanEnd problem pool maxPhaseBuffers (.error (.infeasibleProven, diagnostic))
  | refused (diagnostic : String) :
      SpanEnd problem pool maxPhaseBuffers (.error (.unsupported, diagnostic))

theorem mem_getD_of_mem {phases : List (List ℕ)} {n : ℕ} (hn : n ∈ phases.flatten) :
    ∃ b, n ∈ phases.getD b [] := by
  obtain ⟨phase, hphase, hmem⟩ := List.mem_flatten.mp hn
  obtain ⟨b, hb, rfl⟩ := List.mem_iff_getElem.mp hphase
  exact ⟨b, by rwa [List.getD_eq_getElem _ _ hb]⟩

theorem bridges_of_adjacent {phases : List (List ℕ)} {pair : ℕ × ℕ} (hnodup : phases.flatten.Nodup)
    (hcount : ∀ n ∈ phases.flatten, n < problem.search.count) (hfirst : pair.1 ∈ phases.flatten)
    (hsecond : pair.2 ∈ phases.flatten)
    (hadjacent : isAdjacent (assignPhases problem.search phases) pair = true) :
    ∃ b, Bridges phases pair b := by
  obtain ⟨b, hb⟩ := mem_getD_of_mem hfirst
  obtain ⟨b', hb'⟩ := mem_getD_of_mem hsecond
  have hphase : ∀ {n i}, n ∈ phases.flatten → n ∈ phases.getD i [] →
      (assignPhases problem.search phases).getD n none = some i := by
    intro n i hn hi
    have := (getD_foldl_phases phases 0 hnodup (List.replicate problem.search.count none)
      (by rw [List.length_replicate]; exact hcount n hn)).2 i hi
    rwa [Nat.zero_add] at this
  unfold isAdjacent at hadjacent
  rw [hphase hfirst hb, hphase hsecond hb'] at hadjacent
  dsimp only [Option.getD_some] at hadjacent
  rw [beq_iff_eq] at hadjacent
  split_ifs at hadjacent with hlt
  · refine ⟨b', .inr ⟨hb', ?_⟩⟩
    rwa [show b' + 1 = b by omega]
  · refine ⟨b, .inl ⟨hb, ?_⟩⟩
    rwa [show b + 1 = b' by omega]

theorem buildSpanPool_end (h : SearchOk problem) {unitPool : Pool} (hpool : unitPool ∈ problem.pools)
    (maxPhaseBuffers : ℕ) : SpanEnd problem unitPool maxPhaseBuffers
      (buildSpanPool problem problem.search unitPool.id maxPhaseBuffers) := by
  unfold buildSpanPool
  rw [findPool_eq_of_mem h.prepared.wellFormed.poolIds hpool, Option.bind_some]
  cases hcapacity : unitPool.capacity with
  | none => exact .refused _
  | some capacity =>
      rw [Option.map_some]
      dsimp only
      by_cases hreserved : unitPool.reservedRanges ≠ []
      · rw [if_pos hreserved]
        exact .refused _
      rw [if_neg hreserved]
      cases hcollect : (List.range problem.search.count).foldlM
          (collectNode problem.search unitPool.id) ([], 0) with
      | none => exact .refused _
      | some state =>
          have hcollected := collectNodes_end h hcollect
          obtain ⟨own, unit⟩ := state
          have hnodes : own = nodes problem.search unitPool.id := hcollected.nodes_eq
          subst hnodes
          dsimp only
          by_cases hempty : nodes problem.search unitPool.id = []
          · rw [if_pos hempty]
            refine .empty _ (List.eq_nil_iff_forall_not_mem.mpr fun n hn => ?_) rfl
            exact List.not_mem_nil (hempty ▸ mem_nodes.mpr hn)
          rw [if_neg hempty]
          have hunits : UnitPool problem unitPool unit capacity := by
            refine ⟨hpool, hcapacity, not_not.mp hreserved,
              fun hzero => hempty (hcollected.unit_eq_zero_iff.mp hzero),
              fun n hn => (hcollected.uniform n (mem_nodes.mpr hn)).1, fun n hn => ?_⟩
            have hmod := congrArg UInt64.toNat (hcollected.uniform n (mem_nodes.mpr hn)).2
            rw [UInt64.toNat_mod] at hmod
            exact Nat.dvd_of_mod_eq_zero hmod
          have hcolors : (capacity / unit).toNat = capacity.toNat / unit.toNat := UInt64.toNat_div ..
          cases hgrow : (nodes problem.search unitPool.id).foldlM
              (growPhase problem.search unitPool.id (capacity / unit) maxPhaseBuffers)
              (List.replicate problem.search.count false, []) with
          | error what =>
              obtain ⟨status, diagnostic⟩ := what
              rcases growPhases_error h hgrow with hstatus | ⟨hstatus, hcrowded⟩
              · obtain rfl : status = .unsupported := hstatus
                exact .refused _
              · obtain rfl : status = .infeasibleProven := hstatus
                rw [hcolors] at hcrowded
                exact .full _ (not_placed_of_crowded h hunits hcrowded)
          | ok state =>
              have hgrown := growPhases_ok h hgrow
              have hperm : (sortPhases problem.search problem state.2).Perm state.2 :=
                List.perm_insertionSort _ _
              have hphases := hgrown.ok.perm hperm
              have hfound : ∀ n ∈ nodes problem.search unitPool.id,
                  n ∈ (sortPhases problem.search problem state.2).flatten := fun n hn =>
                hperm.flatten.mem_iff.mpr (hgrown.found n hn)
              have hcount : ∀ n ∈ (sortPhases problem.search problem state.2).flatten,
                  n < problem.search.count := by
                intro n hn
                obtain ⟨phase, hphase, hmem⟩ := List.mem_flatten.mp hn
                exact lt_of_mem_nodes (hphases.inPool phase hphase n hmem)
              dsimp only [Theory.ok_bind]
              by_cases hsoft : (problem.search.softWeights.toList.all fun entry =>
                  (problem.search.nodeAt entry.1.1).pool != unitPool.id ||
                    isAdjacent (assignPhases problem.search
                      (sortPhases problem.search problem state.2)) entry.1) = true
              · rw [if_pos hsoft]
                refine .shaped _ capacity ⟨hunits, hcolors, hphases, hfound, fun n hn => ?_,
                  fun entry hentry hown => ?_⟩
                · obtain ⟨b, hb⟩ := mem_getD_of_mem (hfound n hn)
                  have := (getD_foldl_phases _ 0 hphases.nodup
                    (List.replicate problem.search.count none)
                    (by rw [List.length_replicate]; exact lt_of_mem_nodes hn)).2 b hb
                  exact Option.isSome_of_eq_some this
                · obtain ⟨hlt, hsecond, hsame, -⟩ := softWeights_pair h hentry
                  have hall := List.all_eq_true.mp hsoft entry hentry
                  rw [Bool.or_eq_true, bne_iff_ne] at hall
                  refine bridges_of_adjacent hphases.nodup hcount (hfound _ ?_) (hfound _ ?_)
                    (hall.resolve_left (not_not.mpr hown))
                  · exact mem_nodes.mpr (PoolCanonicalSearch.mem_poolNodes.mpr
                      ⟨hlt.trans hsecond, hown⟩)
                  · exact mem_nodes.mpr (PoolCanonicalSearch.mem_poolNodes.mpr
                      ⟨hsecond, hsame ▸ hown⟩)
              · rw [if_neg hsoft]
                exact .refused _

end SpanOneMinCostFlowSolver

end Dsa
