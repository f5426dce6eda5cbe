import DsaSolver.CapacityTwoSolver
import DsaSolver.PoolPlacements
import DsaSolver.Theory.Bipartition

/-! # The hard components of the capacity-two solver

The breadth-first search of `BuildComponents` parts the nodes of a pool (`Spread`): it fails where
the conflicts have no two-colouring, and else the two-colourings are the flips of its components
(`buildComponents_end`). -/

namespace Dsa

namespace PoolTwoSearch

open Theory (Parted TwoColors parted_none)

variable {problem : DsaProblem} {pool : PoolId}

theorem mem_nodes {n : ℕ} :
    n ∈ nodes problem.search pool ↔ n ∈ PoolCanonicalSearch.poolNodes problem.search pool := by
  rw [PoolCanonicalSearch.mem_poolNodes]
  unfold nodes
  rw [List.mem_filter, List.mem_range, beq_iff_eq]

theorem lt_of_mem_nodes {n : ℕ} (hn : n ∈ nodes problem.search pool) : n < problem.search.count :=
  PoolCanonicalSearch.lt_of_mem_poolNodes (mem_nodes.mp hn)

/-- Nodes of the pool that are in conflict. -/
structure HardPair (problem : DsaProblem) (pool : PoolId) (a b : ℕ) : Prop where
  first : a ∈ nodes problem.search pool
  second : b ∈ nodes problem.search pool
  conflict : NodesConflict problem a b

theorem HardPair.symm {a b : ℕ} (h : HardPair problem pool a b) : HardPair problem pool b a :=
  ⟨h.second, h.first, h.conflict.symm⟩

/-! ### Assignments -/

section assign

variable {components : Components} {node component : ℕ} {parity : Bool}

theorem componentOf_assign (hnode : node < components.component.length) :
    (components.assign node component parity).componentOf =
      Function.update components.componentOf node (some component) := by
  funext other
  unfold Components.componentOf Components.assign
  by_cases hother : other = node
  · subst hother
    rw [Function.update_self, List.getD_eq_getElem _ _ (by rwa [List.length_set]),
      List.getElem_set_self]
  · rw [Function.update_of_ne hother, List.getD_eq_getElem?_getD,
      List.getElem?_set_ne (Ne.symm hother), ← List.getD_eq_getElem?_getD]

theorem parityOf_assign (hnode : node < components.parity.length) :
    (components.assign node component parity).parityOf =
      Function.update components.parityOf node parity := by
  funext other
  unfold Components.parityOf Components.assign
  by_cases hother : other = node
  · subst hother
    rw [Function.update_self, List.getD_eq_getElem _ _ (by rwa [List.length_set]),
      List.getElem_set_self]
  · rw [Function.update_of_ne hother, List.getD_eq_getElem?_getD,
      List.getElem?_set_ne (Ne.symm hother), ← List.getD_eq_getElem?_getD]

end assign

/-! ### The state of the search -/

/-- The nodes of the pool without a component. -/
def waiting (problem : DsaProblem) (pool : PoolId) (components : Components) : Finset ℕ :=
  (nodes problem.search pool).toFinset.filter fun n => components.componentOf n = none

/-- What holds between two steps of the search. -/
structure Spread (problem : DsaProblem) (pool : PoolId) (components : Components)
    (queue : List ℕ) (current : ℕ) (pending : ℕ → ℕ → Prop) : Prop where
  componentLength : components.component.length = problem.search.count
  parityLength : components.parity.length = problem.search.count
  inPool : ∀ n, components.componentOf n ≠ none → n ∈ nodes problem.search pool
  queued : ∀ n ∈ queue, components.componentOf n = some current
  parted : Parted (HardPair problem pool) components.componentOf components.parityOf
    components.count pending

variable {components : Components} {queue : List ℕ} {current node : ℕ}

theorem card_waiting_assign (hlength : components.component.length = problem.search.count)
    {n component : ℕ} {parity : Bool} (hn : n ∈ nodes problem.search pool)
    (hnone : components.componentOf n = none) :
    (waiting problem pool (components.assign n component parity)).card + 1 =
      (waiting problem pool components).card := by
  have hmem : n ∈ waiting problem pool components :=
    Finset.mem_filter.mpr ⟨List.mem_toFinset.mpr hn, hnone⟩
  have herase : waiting problem pool (components.assign n component parity) =
      (waiting problem pool components).erase n := by
    unfold waiting
    rw [componentOf_assign (by rw [hlength]; exact lt_of_mem_nodes hn)]
    ext m
    rw [Finset.mem_erase, Finset.mem_filter, Finset.mem_filter]
    by_cases hm : m = n
    · subst hm
      simp
    · rw [Function.update_of_ne hm]
      simp [hm]
  rw [herase, Finset.card_erase_add_one hmem]

/-- The ends of a part of the search: there is no two-colouring, or the next state. -/
inductive SpreadEnd (problem : DsaProblem) (pool : PoolId) (components : Components)
    (P : Components → Prop) : Option Components → Prop
  | odd (odd : ∀ f, ¬ TwoColors (HardPair problem pool) f) : SpreadEnd problem pool components P none
  | spread (next : Components)
      (kept : ∀ n, components.componentOf n ≠ none → next.componentOf n ≠ none) (ok : P next) :
      SpreadEnd problem pool components P (some next)

/-- The loop over the hard neighbours of a node. -/
theorem visitNeighbors_end {neighbors : List ℕ}
    (hneighbors : ∀ m ∈ neighbors, m < problem.search.count ∧ NodesConflict problem node m)
    (hnode : node ∈ nodes problem.search pool)
    (hcurrent : components.componentOf node = some current)
    (h : Spread problem pool components queue current fun a b =>
      a ∈ queue ∨ a = node ∧ b ∈ neighbors) :
    (neighbors.foldlM (visitNeighbor problem.search pool current node) (components, queue) = none ∧
      ∀ f, ¬ TwoColors (HardPair problem pool) f) ∨
    ∃ next nextQueue,
      neighbors.foldlM (visitNeighbor problem.search pool current node) (components, queue) =
        some (next, nextQueue) ∧
      Spread problem pool next nextQueue current (fun a _ => a ∈ nextQueue) ∧
      (∀ n, components.componentOf n ≠ none → next.componentOf n ≠ none) ∧
      (waiting problem pool next).card + nextQueue.length =
        (waiting problem pool components).card + queue.length := by
  induction neighbors generalizing components queue with
  | nil =>
      refine .inr ⟨components, queue, rfl, ⟨h.componentLength, h.parityLength, h.inPool, h.queued,
        h.parted.mono fun a b _ _ hpending => .inl ?_⟩, fun _ => id, rfl⟩
      exact hpending.resolve_right fun hlast => List.not_mem_nil hlast.2
  | cons neighbor rest ih =>
      obtain ⟨⟨hcount, hconflict⟩, hrest⟩ := List.forall_mem_cons.mp hneighbors
      rw [List.foldlM_cons]
      unfold visitNeighbor
      dsimp only
      have hassigned : components.componentOf node ≠ none := by
        rw [hcurrent]
        exact Option.some_ne_none _
      by_cases hpool : ((problem.search.nodeAt neighbor).pool != pool) = true
      · -- a neighbour in another pool is skipped
        rw [if_pos hpool]
        refine ih hrest hcurrent ⟨h.componentLength, h.parityLength, h.inPool, h.queued,
          h.parted.mono fun a b hab _ hpending => .inl (hpending.imp_right ?_)⟩
        rintro ⟨rfl, hb⟩
        refine ⟨rfl, (List.mem_cons.mp hb).resolve_left ?_⟩
        rintro rfl
        rw [bne_iff_ne] at hpool
        exact hpool (PoolCanonicalSearch.mem_poolNodes.mp (mem_nodes.mp hab.second)).2
      rw [if_neg hpool]
      rw [bne_iff_ne, not_not] at hpool
      have hpair : HardPair problem pool node neighbor :=
        ⟨hnode, mem_nodes.mpr (PoolCanonicalSearch.mem_poolNodes.mpr ⟨hcount, hpool⟩), hconflict⟩
      cases hneighbor : components.componentOf neighbor with
      | none =>
          have hlength : neighbor < components.component.length := by rwa [h.componentLength]
          have hparity : neighbor < components.parity.length := by rwa [h.parityLength]
          have hnext : Spread problem pool
              (components.assign neighbor current !(components.parityOf node))
              (queue ++ [neighbor]) current fun a b =>
                a ∈ queue ++ [neighbor] ∨ a = node ∧ b ∈ rest := by
            refine ⟨?_, ?_, fun n hn => ?_, fun n hn => ?_, ?_⟩
            · exact (List.length_set ..).trans h.componentLength
            · exact (List.length_set ..).trans h.parityLength
            · rw [componentOf_assign hlength] at hn
              by_cases hne : n = neighbor
              · rw [hne]
                exact hpair.second
              · rw [Function.update_of_ne hne] at hn
                exact h.inPool n hn
            · rw [componentOf_assign hlength]
              by_cases hne : n = neighbor
              · rw [hne, Function.update_self]
              · rw [Function.update_of_ne hne]
                refine h.queued n ((List.mem_append.mp hn).resolve_right fun hlast => ?_)
                exact hne (List.mem_singleton.mp hlast)
            · have hjoin := h.parted.join hpair hassigned hneighbor
              rw [hcurrent] at hjoin
              rw [componentOf_assign hlength, parityOf_assign hparity]
              refine hjoin.mono fun a b _ _ hpending => .inl ?_
              rcases hpending with ⟨hqueue | ⟨rfl, hb⟩, hnot⟩ | rfl
              · exact .inl (List.mem_append_left _ hqueue)
              · exact .inr ⟨rfl, (List.mem_cons.mp hb).resolve_left fun heq => hnot ⟨rfl, heq⟩⟩
              · exact .inl (List.mem_append_right _ List.mem_cons_self)
          have hnodeNext : (components.assign neighbor current
              !(components.parityOf node)).componentOf node = some current := by
            rw [componentOf_assign hlength, Function.update_of_ne hconflict.ne]
            exact hcurrent
          rcases ih hrest hnodeNext hnext with hodd | ⟨next, nextQueue, hfold, hok, hkept, hcard⟩
          · exact .inl hodd
          · refine .inr ⟨next, nextQueue, hfold, hok, fun n hn => hkept n ?_, ?_⟩
            · rw [componentOf_assign hlength]
              by_cases hne : n = neighbor
              · rw [hne, Function.update_self]
                exact Option.some_ne_none _
              · rwa [Function.update_of_ne hne]
            · have := @card_waiting_assign problem pool components h.componentLength neighbor
                current (!(components.parityOf node)) hpair.second hneighbor
              rw [List.length_append, List.length_singleton] at hcard
              omega
      | some other =>
          -- a neighbour with a component is in that of the node
          have hsame : components.componentOf neighbor = components.componentOf node := by
            rcases h.parted.settled neighbor node hpair.symm (by
              rw [hneighbor]
              exact Option.some_ne_none _) with (hqueue | ⟨heq, -⟩) | ⟨heq, -⟩
            · rw [h.queued neighbor hqueue, hcurrent]
            · exact absurd heq.symm hconflict.ne
            · exact heq.symm
          dsimp only
          by_cases hparity : (components.parityOf neighbor == components.parityOf node) = true
          · rw [if_pos hparity]
            exact .inl ⟨rfl, h.parted.not_twoColors hpair hassigned hsame (beq_iff_eq.mp hparity)⟩
          · rw [if_neg hparity]
            refine ih hrest hcurrent ⟨h.componentLength, h.parityLength, h.inPool, h.queued,
              h.parted.mono fun a b _ _ hpending => ?_⟩
            rcases hpending with hqueue | ⟨rfl, hb⟩
            · exact .inl (.inl hqueue)
            · rcases List.mem_cons.mp hb with rfl | hb
              · exact .inr ⟨hsame, fun heq => hparity (beq_iff_eq.mpr heq)⟩
              · exact .inl (.inr ⟨rfl, hb⟩)

/-- The loop over the queue ends with an empty one. -/
theorem drain_end (h : SearchOk problem) (fuel : ℕ)
    (hspread : Spread problem pool components queue current fun a _ => a ∈ queue)
    (hfuel : (waiting problem pool components).card + queue.length ≤ fuel) :
    SpreadEnd problem pool components (fun next => Spread problem pool next [] current
      fun _ _ => False) (drain problem.search pool current fuel components queue) := by
  induction fuel generalizing components queue with
  | zero =>
      obtain rfl : queue = [] := List.length_eq_zero_iff.mp (by omega)
      refine .spread components (fun _ => id) ⟨hspread.componentLength, hspread.parityLength,
        hspread.inPool, hspread.queued, hspread.parted.mono fun a b _ _ hmem => ?_⟩
      exact (List.not_mem_nil hmem).elim
  | succ fuel ih =>
      cases queue with
      | nil =>
          refine .spread components (fun _ => id) ⟨hspread.componentLength, hspread.parityLength,
            hspread.inPool, hspread.queued, hspread.parted.mono fun a b _ _ hmem => ?_⟩
          exact (List.not_mem_nil hmem).elim
      | cons node rest =>
          have hcurrent := hspread.queued node List.mem_cons_self
          have hnode := hspread.inPool node (by
            rw [hcurrent]
            exact Option.some_ne_none _)
          have hneighbors : ∀ m ∈ problem.search.hardNeighborsOf node,
              m < problem.search.count ∧ NodesConflict problem node m := fun m hm =>
            (h.mem_hardNeighborsOf (lt_of_mem_nodes hnode) m).mp hm
          have hvisit := visitNeighbors_end hneighbors hnode hcurrent
            ⟨hspread.componentLength, hspread.parityLength, hspread.inPool,
              fun n hn => hspread.queued n (List.mem_cons_of_mem _ hn),
              hspread.parted.mono fun a b hab _ hmem => .inl ((List.mem_cons.mp hmem).symm.imp_right
                fun heq => ⟨heq, by
                  subst heq
                  exact (h.mem_hardNeighborsOf (lt_of_mem_nodes hnode) b).mpr
                    ⟨lt_of_mem_nodes hab.second, hab.conflict⟩⟩)⟩
          unfold drain
          rcases hvisit with ⟨hfold, hodd⟩ | ⟨next, nextQueue, hfold, hok, hkept, hcard⟩
          · rw [hfold]
            exact .odd hodd
          · rw [hfold]
            rw [List.length_cons] at hfuel
            have hnext := ih hok (by omega)
            dsimp only [Option.bind_eq_bind, Option.bind_some]
            generalize drain problem.search pool current fuel next nextQueue = last at hnext
            cases hnext with
            | odd hodd => exact .odd hodd
            | spread last hmore hlast =>
                exact .spread last (fun n hn => hmore n (hkept n hn)) hlast

/-- The search from one start. -/
theorem growComponent_end (h : SearchOk problem) {start : ℕ}
    (hstart : start ∈ nodes problem.search pool)
    (hspread : ∃ current, Spread problem pool components [] current fun _ _ => False) :
    SpreadEnd problem pool components (fun next => next.componentOf start ≠ none ∧
        ∃ current, Spread problem pool next [] current fun _ _ => False)
      (growComponent problem.search pool components start) := by
  obtain ⟨current, hspread⟩ := hspread
  unfold growComponent
  cases hcomponent : components.componentOf start with
  | some other =>
      rw [Option.isSome_some, if_pos rfl]
      refine .spread components (fun _ => id) ⟨?_, current, hspread⟩
      rw [hcomponent]
      exact Option.some_ne_none _
  | none =>
      rw [Option.isSome_none, if_neg Bool.false_ne_true]
      have hlength : start < components.component.length := by
        rw [hspread.componentLength]
        exact lt_of_mem_nodes hstart
      have hparity : start < components.parity.length := by
        rw [hspread.parityLength]
        exact lt_of_mem_nodes hstart
      have hcomponentOf := @componentOf_assign components start components.count false hlength
      have hnext : Spread problem pool
          { components.assign start components.count false with count := components.count + 1 }
          [start] components.count fun a _ => a ∈ [start] := by
        refine ⟨?_, ?_, fun n hn => ?_, fun n hn => ?_, ?_⟩
        · exact (List.length_set ..).trans hspread.componentLength
        · exact (List.length_set ..).trans hspread.parityLength
        · change (components.assign start components.count false).componentOf n ≠ none at hn
          rw [hcomponentOf] at hn
          by_cases hne : n = start
          · rw [hne]
            exact hstart
          · rw [Function.update_of_ne hne] at hn
            exact hspread.inPool n hn
        · rw [List.mem_singleton.mp hn]
          change (components.assign start components.count false).componentOf start = _
          rw [hcomponentOf, Function.update_self]
        · change Parted _ (components.assign start components.count false).componentOf
            (components.assign start components.count false).parityOf (components.count + 1) _
          rw [hcomponentOf, parityOf_assign hparity]
          refine (hspread.parted.start hcomponent).mono fun a b _ _ hpending => .inl ?_
          rw [hpending.resolve_left id]
          exact List.mem_cons_self
      have hcard := @card_waiting_assign problem pool components hspread.componentLength start
        components.count false hstart hcomponent
      have hle : (waiting problem pool components).card ≤ problem.search.count := by
        refine (Finset.card_filter_le _ _).trans ((List.toFinset_card_le _).trans ?_)
        unfold nodes
        exact (List.length_filter_le _ _).trans_eq List.length_range
      have hsame : waiting problem pool { components.assign start components.count false with
          count := components.count + 1 } =
            waiting problem pool (components.assign start components.count false) := rfl
      have hend := drain_end h problem.search.count hnext (by
        rw [hsame, List.length_singleton]
        omega)
      have hkept : ∀ n, components.componentOf n ≠ none →
          ({ components.assign start components.count false with
            count := components.count + 1 } : Components).componentOf n ≠ none := by
        intro n hn
        change (components.assign start components.count false).componentOf n ≠ none
        rw [hcomponentOf]
        by_cases hne : n = start
        · rw [hne, Function.update_self]
          exact Option.some_ne_none _
        · rwa [Function.update_of_ne hne]
      generalize drain problem.search pool components.count problem.search.count _ _ = last at hend ⊢
      cases hend with
      | odd hodd => exact .odd hodd
      | spread last hmore hlast =>
          refine .spread last (fun n hn => hmore n (hkept n hn)) ⟨hmore start ?_, _, hlast⟩
          rw [hnext.queued start List.mem_cons_self]
          exact Option.some_ne_none _

/-- **The components of a pool**: the two-colourings of its conflicts are their flips. -/
structure Parts (problem : DsaProblem) (pool : PoolId) (components : Components) : Prop where
  assigned : ∀ n ∈ nodes problem.search pool, components.componentOf n ≠ none
  parted : Parted (HardPair problem pool) components.componentOf components.parityOf
    components.count fun _ _ => False

theorem buildComponents_end (h : SearchOk problem) (pool : PoolId) :
    (buildComponents problem.search pool = none ∧
      ∀ f, ¬ TwoColors (HardPair problem pool) f) ∨
    ∃ components, buildComponents problem.search pool = some components ∧
      Parts problem pool components := by
  have hgeneral : ∀ (rest : List ℕ), (∀ n ∈ rest, n ∈ nodes problem.search pool) →
      ∀ components, (∃ current, Spread problem pool components [] current fun _ _ => False) →
        SpreadEnd problem pool components (fun next => (∀ n ∈ rest, next.componentOf n ≠ none) ∧
            ∃ current, Spread problem pool next [] current fun _ _ => False)
          (rest.foldlM (growComponent problem.search pool) components) := by
    intro rest
    induction rest with
    | nil =>
        exact fun _ components hspread =>
          .spread components (fun _ => id) ⟨fun _ hn => (List.not_mem_nil hn).elim, hspread⟩
    | cons start rest ih =>
        intro hrest components hspread
        obtain ⟨hstart, hrest⟩ := List.forall_mem_cons.mp hrest
        have hgrow := growComponent_end h hstart hspread
        rw [List.foldlM_cons]
        generalize growComponent problem.search pool components start = grown at hgrow
        cases hgrow with
        | odd hodd => exact .odd hodd
        | spread next hkept hnext =>
            obtain ⟨hassigned, hspread⟩ := hnext
            have hlast := ih hrest next hspread
            dsimp only [Option.bind_eq_bind, Option.bind_some]
            generalize rest.foldlM (growComponent problem.search pool) next = last at hlast
            cases hlast with
            | odd hodd => exact .odd hodd
            | spread last hmore hlast =>
                refine .spread last (fun n hn => hmore n (hkept n hn)) ⟨fun n hn => ?_, hlast.2⟩
                rcases List.mem_cons.mp hn with rfl | hn
                · exact hmore _ hassigned
                · exact hlast.1 n hn
  have hnone : (Components.mk (List.replicate problem.search.count none)
      (List.replicate problem.search.count false) 0).componentOf = fun _ => none := by
    funext n
    unfold Components.componentOf
    rw [List.getD_eq_getElem?_getD, List.getElem?_replicate]
    split_ifs <;> rfl
  have hend := hgeneral (nodes problem.search pool) (fun _ hn => hn)
    { component := List.replicate problem.search.count none
      parity := List.replicate problem.search.count false } ⟨0, List.length_replicate,
        List.length_replicate, fun n hn => absurd (congrFun hnone n) hn,
        fun n hn => (List.not_mem_nil hn).elim, by
          rw [hnone]
          exact parted_none⟩
  unfold buildComponents
  generalize (nodes problem.search pool).foldlM (growComponent problem.search pool) _ = last at hend
  cases hend with
  | odd hodd => exact .inl ⟨rfl, hodd⟩
  | spread components _ hok =>
      obtain ⟨hassigned, _, hspread⟩ := hok
      exact .inr ⟨components, rfl, hassigned, hspread.parted⟩

end PoolTwoSearch

end Dsa
