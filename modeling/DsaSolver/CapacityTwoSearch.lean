import DsaSolver.CanonicalOptimum
import DsaSolver.CapacityTwoComponents
import DsaSolver.UnitPools

/-! # The flips of the capacity-two search

The cost of a choice of flips is the fixed cost with that of the component edges
(`flipsCost_soft`).  The search covers every choice that keeps the first component
(`searchFrom_covers`), and flipping all components changes no cost, so its last state covers all
flips (`finalState_spec`). -/

namespace Dsa

namespace PoolTwoSearch

open Theory (Sat TwoColors Grows Incumbent)
open PoolCanonicalSearch (Placed)

variable {problem : DsaProblem} {pool : PoolId} {components : Components}

/-! ### The colours of the flips -/

theorem toNat_eq_iff {x y : Bool} : x.toNat = y.toNat ↔ x = y := by
  cases x <;> cases y <;> decide

/-- The colour of a node under flips of the components. -/
def flipColor (components : Components) (flip : ℕ → Bool) (n : ℕ) : Bool :=
  components.parityOf n ^^ flip ((components.componentOf n).getD 0)

def flipOf (flips : Flips) (c : ℕ) : Option Bool := flips.getD c none

/-- The cost of the colours. -/
def flipCost (problem : DsaProblem) (pool : PoolId) (components : Components) (flip : ℕ → Bool) :
    Sat :=
  colorCost problem pool fun n => (flipColor components flip n).toNat

theorem getD_colorsOf {flips : Flips} {n : ℕ} (hn : n ∈ nodes problem.search pool) :
    (colorsOf problem.search pool components flips).getD n false =
      flipColor components (fun c => (flipOf flips c).getD false) n := by
  unfold colorsOf
  rw [getD_foldl_set _ _ _ _ (by
    rw [List.length_replicate]
    exact lt_of_mem_nodes hn), if_pos hn]
  rfl

theorem colorCost_congr {f g : ℕ → ℕ} (h : ∀ n ∈ PoolCanonicalSearch.poolNodes problem.search pool,
    ∀ m ∈ PoolCanonicalSearch.poolNodes problem.search pool, (f n = f m ↔ g n = g m)) :
    colorCost problem pool f = colorCost problem pool g := by
  unfold colorCost
  refine weightOf_congr_mem fun entry _ => ?_
  exact and_congr_right fun hn => and_congr_right fun hm => h _ hn _ hm

/-- Flipping all components changes no cost. -/
theorem flipCost_not (flip : ℕ → Bool) :
    flipCost problem pool components (fun c => !flip c) =
      flipCost problem pool components flip := by
  refine colorCost_congr fun n _ m _ => ?_
  unfold flipColor
  rw [toNat_eq_iff, toNat_eq_iff]
  simp

/-! ### The soft objective -/

/-- The cost of an edge between two components, when both have a flip. -/
def edgeCost (flip : ℕ → Option Bool) (edge : ComponentEdge) : Sat :=
  (flip edge.firstComponent).elim 0 fun first => (flip edge.secondComponent).elim 0 fun second =>
    if (first == second) == edge.equalFlipsActivate then ⟨edge.weight⟩ else 0

def flipsCost (soft : SoftObjective) (flip : ℕ → Option Bool) : Sat :=
  ⟨soft.fixedCost⟩ + (soft.edges.map (edgeCost flip)).sum

/-- The edges join two components. -/
def EdgesOk (count : ℕ) (edges : List ComponentEdge) : Prop :=
  ∀ edge ∈ edges, edge.firstComponent ≠ edge.secondComponent ∧ edge.firstComponent < count ∧
    edge.secondComponent < count

theorem addSoftWeight_spec (h : SearchOk problem) (hparts : Parts problem pool components)
    (flip : ℕ → Bool) {entry : (ℕ × ℕ) × UInt64}
    (hentry : entry ∈ problem.search.softWeights.toList) {soft : SoftObjective}
    (hedges : EdgesOk components.count soft.edges) :
    EdgesOk components.count (addSoftWeight problem.search pool components soft entry).edges ∧
    flipsCost (addSoftWeight problem.search pool components soft entry) (fun c => some (flip c)) =
      flipsCost soft (fun c => some (flip c)) +
        if entry.1.1 ∈ PoolCanonicalSearch.poolNodes problem.search pool ∧
            entry.1.2 ∈ PoolCanonicalSearch.poolNodes problem.search pool ∧
            (flipColor components flip entry.1.1).toNat =
              (flipColor components flip entry.1.2).toNat then ⟨entry.2⟩ else 0 := by
  obtain ⟨hlt, hcount, hpools, -⟩ := softWeights_pair h hentry
  unfold addSoftWeight
  by_cases hpool : (problem.search.nodeAt entry.1.1).pool = pool
  · have hfirst : entry.1.1 ∈ PoolCanonicalSearch.poolNodes problem.search pool :=
      PoolCanonicalSearch.mem_poolNodes.mpr ⟨hlt.trans hcount, hpool⟩
    have hsecond : entry.1.2 ∈ PoolCanonicalSearch.poolNodes problem.search pool :=
      PoolCanonicalSearch.mem_poolNodes.mpr ⟨hcount, hpools ▸ hpool⟩
    rw [if_neg (by simpa using hpool)]
    have hcomponent : ∀ {n}, n ∈ PoolCanonicalSearch.poolNodes problem.search pool →
        (components.componentOf n).getD 0 < components.count := by
      intro n hn
      cases hsome : components.componentOf n with
      | none => exact absurd hsome (hparts.assigned n (mem_nodes.mpr hn))
      | some c => exact hparts.parted.below n c hsome
    have hsame : (flipColor components flip entry.1.1).toNat =
        (flipColor components flip entry.1.2).toNat ↔
          (components.parityOf entry.1.1 ^^ flip ((components.componentOf entry.1.1).getD 0)) =
            (components.parityOf entry.1.2 ^^ flip ((components.componentOf entry.1.2).getD 0)) :=
      toNat_eq_iff
    dsimp only
    by_cases hequal : (components.componentOf entry.1.1).getD 0 =
        (components.componentOf entry.1.2).getD 0
    · rw [if_pos (beq_iff_eq.mpr hequal)]
      rw [hequal, Bool.xor_left_inj] at hsame
      by_cases hparity : components.parityOf entry.1.1 = components.parityOf entry.1.2
      · rw [if_pos (beq_iff_eq.mpr hparity), if_pos ⟨hfirst, hsecond, hsame.mpr hparity⟩]
        refine ⟨hedges, ?_⟩
        unfold flipsCost
        rw [add_right_comm]
        rfl
      · rw [if_neg fun heq => hparity (beq_iff_eq.mp heq),
          if_neg fun hchosen => hparity (hsame.mp hchosen.2.2), add_zero]
        exact ⟨hedges, rfl⟩
    · rw [if_neg fun heq => hequal (beq_iff_eq.mp heq)]
      refine ⟨fun edge hedge => ?_, ?_⟩
      · rcases List.mem_append.mp hedge with hedge | hedge
        · exact hedges edge hedge
        · rw [List.mem_singleton.mp hedge]
          exact ⟨hequal, hcomponent hfirst, hcomponent hsecond⟩
      · unfold flipsCost
        dsimp only
        rw [List.map_append, List.sum_append, List.map_singleton, List.sum_singleton, add_assoc]
        congr 2
        unfold edgeCost
        dsimp only [Option.elim_some]
        refine if_congr ?_ rfl rfl
        rw [hsame, and_iff_right hfirst, and_iff_right hsecond]
        generalize flip ((components.componentOf entry.1.1).getD 0) = x
        generalize flip ((components.componentOf entry.1.2).getD 0) = y
        cases x <;> cases y <;> cases components.parityOf entry.1.1 <;>
          cases components.parityOf entry.1.2 <;> decide
  · rw [if_pos (by simpa using hpool), if_neg, add_zero]
    · exact ⟨hedges, rfl⟩
    · exact fun hchosen => hpool (PoolCanonicalSearch.mem_poolNodes.mp hchosen.1).2

/-- The soft objective of a pool is the cost of the colours. -/
theorem flipsCost_soft (h : SearchOk problem) (hparts : Parts problem pool components) :
    EdgesOk components.count (buildSoftObjective problem.search pool components).edges ∧
    ∀ flip : ℕ → Bool, flipsCost (buildSoftObjective problem.search pool components)
      (fun c => some (flip c)) = flipCost problem pool components flip := by
  have hgeneral : ∀ (entries : List ((ℕ × ℕ) × UInt64)),
      (∀ entry ∈ entries, entry ∈ problem.search.softWeights.toList) → ∀ soft : SoftObjective,
      EdgesOk components.count soft.edges →
        EdgesOk components.count
          (entries.foldl (addSoftWeight problem.search pool components) soft).edges ∧
        ∀ flip : ℕ → Bool,
          flipsCost (entries.foldl (addSoftWeight problem.search pool components) soft)
            (fun c => some (flip c)) = flipsCost soft (fun c => some (flip c)) +
              (entries.map fun entry =>
                if entry.1.1 ∈ PoolCanonicalSearch.poolNodes problem.search pool ∧
                    entry.1.2 ∈ PoolCanonicalSearch.poolNodes problem.search pool ∧
                    (flipColor components flip entry.1.1).toNat =
                      (flipColor components flip entry.1.2).toNat then (⟨entry.2⟩ : Sat)
                else 0).sum := by
    intro entries
    induction entries with
    | nil => exact fun _ soft hedges => ⟨hedges, fun _ => (add_zero _).symm⟩
    | cons entry rest ih =>
        intro hentries soft hedges
        obtain ⟨hentry, hrest⟩ := List.forall_mem_cons.mp hentries
        obtain ⟨hnext, -⟩ := addSoftWeight_spec h hparts (fun _ => false) hentry hedges
        obtain ⟨hlast, hcost⟩ := ih hrest _ hnext
        refine ⟨hlast, fun flip => ?_⟩
        rw [List.foldl_cons, hcost flip, (addSoftWeight_spec h hparts flip hentry hedges).2,
          add_assoc, List.map_cons, List.sum_cons]
  obtain ⟨hedges, hcost⟩ := hgeneral problem.search.softWeights.toList (fun _ hmem => hmem)
    { componentDegree := List.replicate components.count 0 }
    fun _ hmem => (List.not_mem_nil hmem).elim
  refine ⟨hedges, fun flip => (hcost flip).trans ?_⟩
  have hzero : flipsCost { componentDegree := List.replicate components.count 0 }
      (fun c => some (flip c)) = 0 := rfl
  rw [hzero, zero_add]
  unfold flipCost colorCost weightOf Theory.total
  refine congrArg List.sum (List.map_congr_left fun entry _ => ?_)
  exact if_congr Iff.rfl rfl rfl

/-! ### One component more -/

/-- What an edge adds when its component gets a flip. -/
def addedCost (flip : ℕ → Option Bool) (component : ℕ) (x : Bool) (edge : ComponentEdge) : Sat :=
  ((otherComponent edge component).bind flip).elim 0 fun y =>
    if (x == y) == edge.equalFlipsActivate then ⟨edge.weight⟩ else 0

theorem incrementalCost_eq (edges : List ComponentEdge) (flips : Flips) (component : ℕ)
    (x : Bool) : (⟨incrementalCost edges flips component x⟩ : Sat) =
      (edges.map (addedCost (flipOf flips) component x)).sum := by
  refine (Theory.foldl_eq_add_sum (f := Sat.mk) (fun cost edge => ?_) edges 0).trans (zero_add _)
  have hadded : addedCost (flipOf flips) component x edge =
      ((otherComponent edge component).bind fun other => flips.getD other none).elim 0
        fun y => if (x == y) == edge.equalFlipsActivate then ⟨edge.weight⟩ else 0 := rfl
  rw [hadded]
  cases (otherComponent edge component).bind fun other => flips.getD other none with
  | none => exact (add_zero _).symm
  | some y =>
      dsimp only [Option.elim_some]
      split_ifs
      · rfl
      · exact (add_zero _).symm

/-- An edge counts once both its components have a flip. -/
theorem edgeCost_update {flip : ℕ → Option Bool} {component : ℕ} (hnone : flip component = none)
    (x : Bool) {edge : ComponentEdge} (hedge : edge.firstComponent ≠ edge.secondComponent) :
    edgeCost (Function.update flip component (some x)) edge =
      edgeCost flip edge + addedCost flip component x edge := by
  unfold edgeCost addedCost otherComponent
  by_cases hfirst : edge.firstComponent = component
  · subst hfirst
    rw [Function.update_self, Function.update_of_ne (Ne.symm hedge), if_pos rfl, hnone]
    exact (zero_add _).symm
  · rw [Function.update_of_ne hfirst, if_neg hfirst]
    by_cases hsecond : edge.secondComponent = component
    · subst hsecond
      rw [Function.update_self, if_pos rfl, hnone, Option.bind_some]
      cases flip edge.firstComponent with
      | none => exact (add_zero _).symm
      | some y =>
          have hcomm : (y == x) = (x == y) := Bool.beq_comm
          simp only [Option.elim_some, Option.elim_none, zero_add, hcomm]
    · rw [Function.update_of_ne hsecond, if_neg hsecond]
      exact (add_zero _).symm

theorem flipOf_set {flips : Flips} {component : ℕ} (hlt : component < flips.length) (x : Bool) :
    flipOf (flips.set component (some x)) = Function.update (flipOf flips) component (some x) := by
  funext other
  unfold flipOf
  by_cases hother : other = component
  · subst hother
    rw [Function.update_self, List.getD_eq_getElem _ _ (by rwa [List.length_set]),
      List.getElem_set_self]
  · rw [Function.update_of_ne hother, List.getD_eq_getElem?_getD,
      List.getElem?_set_ne (Ne.symm hother), ← List.getD_eq_getElem?_getD]

/-! ### The calls -/

/-- The arguments of a call: the components of `rest` have no flip yet, and the cost is that of
the others. -/
structure CallOk (components : Components) (soft : SoftObjective) (rest : List ℕ) (flips : Flips)
    (cost : UInt64) : Prop where
  length : flips.length = components.count
  nodup : rest.Nodup
  lt : ∀ c ∈ rest, c < components.count
  waits : ∀ c < components.count, flipOf flips c = none ↔ c ∈ rest
  cost : (⟨cost⟩ : Sat) = flipsCost soft (flipOf flips)

section calls

variable {soft : SoftObjective} {flips : Flips} {cost : UInt64}

theorem CallOk.step {component : ℕ} {rest : List ℕ}
    (h : CallOk components soft (component :: rest) flips cost)
    (hedges : EdgesOk components.count soft.edges) (x : Bool) :
    CallOk components soft rest (flips.set component (some x))
      (saturatingAdd cost (incrementalCost soft.edges flips component x)) := by
  obtain ⟨hfresh, hnodup⟩ := List.nodup_cons.mp h.nodup
  have hlt := h.lt component List.mem_cons_self
  have hset := @flipOf_set flips component (by rwa [h.length]) x
  refine ⟨by rw [List.length_set, h.length], hnodup,
    fun c hc => h.lt c (List.mem_cons_of_mem _ hc), fun c hc => ?_, ?_⟩
  · rw [hset]
    by_cases hsame : c = component
    · subst hsame
      rw [Function.update_self]
      exact iff_of_false (Option.some_ne_none x) hfresh
    · rw [Function.update_of_ne hsame, h.waits c hc]
      simp [hsame]
  · have hadd : (⟨saturatingAdd cost (incrementalCost soft.edges flips component x)⟩ : Sat) =
        ⟨cost⟩ + ⟨incrementalCost soft.edges flips component x⟩ := rfl
    have hnone : flipOf flips component = none := (h.waits component hlt).mpr List.mem_cons_self
    rw [hadd, h.cost, incrementalCost_eq, hset]
    unfold flipsCost
    rw [add_assoc, ← List.sum_map_add]
    refine congrArg ((⟨soft.fixedCost⟩ : Sat) + ·)
      (congrArg List.sum (List.map_congr_left fun edge he => ?_))
    exact (edgeCost_update hnone x (hedges edge he).1).symm

/-- When every component has a flip, the cost is that of the colours. -/
theorem CallOk.complete (h : CallOk components soft [] flips cost)
    (hedges : EdgesOk components.count soft.edges) {flip : ℕ → Bool}
    (hagree : ∀ c x, flipOf flips c = some x → x = flip c) :
    (⟨cost⟩ : Sat) = flipsCost soft fun c => some (flip c) := by
  have hflip : ∀ c < components.count, flipOf flips c = some (flip c) := by
    intro c hc
    cases hget : flipOf flips c with
    | none => exact ((List.not_mem_nil ((h.waits c hc).mp hget))).elim
    | some x => rw [hagree c x hget]
  rw [h.cost]
  unfold flipsCost
  refine congrArg ((⟨soft.fixedCost⟩ : Sat) + ·)
    (congrArg List.sum (List.map_congr_left fun edge he => ?_))
  unfold edgeCost
  obtain ⟨-, hfirst, hsecond⟩ := hedges edge he
  rw [hflip _ hfirst, hflip _ hsecond]

/-- The flips of some components cost at most those of all. -/
theorem CallOk.cost_le {rest : List ℕ} (h : CallOk components soft rest flips cost)
    {flip : ℕ → Bool} (hagree : ∀ c x, flipOf flips c = some x → x = flip c) :
    (⟨cost⟩ : Sat) ≤ flipsCost soft fun c => some (flip c) := by
  rw [h.cost]
  unfold flipsCost
  refine add_le_add_right (List.sum_le_sum fun edge _ => ?_) _
  unfold edgeCost
  cases hfirst : flipOf flips edge.firstComponent with
  | none => exact Sat.zero_le _
  | some x =>
      cases hsecond : flipOf flips edge.secondComponent with
      | none => exact Sat.zero_le _
      | some y =>
          rw [hagree _ x hfirst, hagree _ y hsecond]

end calls

/-! ### The head of a call -/

section search

variable {unit nodeLimit : UInt64}

/-- The ends of `enter`. -/
inductive Entered (problem : DsaProblem) (nodeLimit cost : UInt64) (body : State → State)
    (state : State) : State → Prop
  | done (stop : state.limitHit = true) : Entered problem nodeLimit cost body state state
  | limit (limited : nodeLimit ≠ 0) :
      Entered problem nodeLimit cost body state { state with limitHit := true }
  | pruned (found : state.found = true) (bound : state.bestScore ≤ poolScore problem cost 0) :
      Entered problem nodeLimit cost body state
        { state with searchNodes := state.searchNodes + 1, boundPrunes := state.boundPrunes + 1 }
  | counted : Entered problem nodeLimit cost body state
      (body { state with searchNodes := state.searchNodes + 1 })

theorem enter_spec (cost : UInt64) (body : State → State) (state : State) :
    Entered problem nodeLimit cost body state (enter problem nodeLimit cost body state) := by
  unfold enter
  by_cases hdone : state.limitHit = true
  · rw [if_pos hdone]
    exact .done hdone
  rw [if_neg hdone]
  by_cases hlimit : (nodeLimit != 0 && decide (nodeLimit ≤ state.searchNodes)) = true
  · rw [if_pos hlimit]
    rw [Bool.and_eq_true, bne_iff_ne] at hlimit
    exact .limit hlimit.1
  rw [if_neg hlimit]
  dsimp only
  by_cases hprune : (state.found && decide (state.bestScore ≤ poolScore problem cost 0)) = true
  · rw [if_pos hprune]
    rw [Bool.and_eq_true, decide_eq_true_iff] at hprune
    exact .pruned hprune.1 hprune.2
  · rw [if_neg hprune]
    exact .counted

/-- What the bound and the limit look at. -/
def view (state : State) : Incumbent Score :=
  ⟨state.limitHit, if state.found then some state.bestScore else none⟩

theorem found_of_view {state : State} {best : Score} (h : (view state).best = some best) :
    state.found = true ∧ state.bestScore = best := by
  unfold view at h
  dsimp only at h
  split_ifs at h with hfound
  exact ⟨hfound, Option.some.inj h⟩

theorem view_of_found {state : State} (h : state.found = true) :
    (view state).best = some state.bestScore := if_pos h

theorem enter_grows {cost : UInt64} {body : State → State} (state : State)
    (hbody : ∀ current : State, Grows (view current) (view (body current))) :
    Grows (view state) (view (enter problem nodeLimit cost body state)) := by
  have hend := @enter_spec problem nodeLimit cost body state
  generalize enter problem nodeLimit cost body state = result at hend
  cases hend with
  | done => exact Grows.refl _
  | limit => exact ⟨fun _ => rfl, fun best hbest => ⟨best, hbest, le_rfl⟩⟩
  | pruned => exact Grows.refl (view state)
  | counted => exact hbody { state with searchNodes := state.searchNodes + 1 }

theorem enter_covers {cost : UInt64} {body : State → State} {target : Score} (state : State)
    (hle : poolScore problem cost 0 ≤ target)
    (hbody : ∀ current, Theory.Covers (view (body current)) target) :
    Theory.Covers (view (enter problem nodeLimit cost body state)) target := by
  have hend := @enter_spec problem nodeLimit cost body state
  generalize enter problem nodeLimit cost body state = result at hend
  cases hend with
  | done stop => exact .inl stop
  | limit => exact .inl rfl
  | pruned found bound => exact .inr ⟨_, view_of_found found, bound.trans hle⟩
  | counted => exact hbody _

/-- Complete colours are kept where they are better. -/
theorem noteColors_grows (colors : List Bool) (cost : UInt64) (state : State) :
    Grows (view state) (view (noteColors problem.search pool problem unit colors cost state)) ∧
      ∃ best, (view (noteColors problem.search pool problem unit colors cost state)).best =
        some best ∧ best ≤ poolScore problem cost (peakOfColors problem.search pool unit colors) := by
  unfold noteColors
  dsimp only
  by_cases hbetter : (!state.found || decide (poolScore problem cost
      (peakOfColors problem.search pool unit colors) < state.bestScore)) = true
  · rw [if_pos hbetter]
    rw [Bool.or_eq_true, Bool.not_eq_true', decide_eq_true_iff] at hbetter
    refine ⟨⟨id, fun old hold => ⟨_, rfl, ?_⟩⟩, _, rfl, le_rfl⟩
    obtain ⟨hfound, rfl⟩ := found_of_view hold
    rcases hbetter with hnone | hlt
    · exact absurd (hnone.symm.trans hfound) (by decide)
    · exact le_of_lt hlt
  · rw [if_neg hbetter]
    rw [Bool.or_eq_true, not_or, Bool.not_eq_true', Bool.not_eq_false, decide_eq_true_iff,
      not_lt] at hbetter
    exact ⟨Grows.refl _, _, view_of_found hbetter.1, hbetter.2⟩

theorem searchFrom_grows (edges : List ComponentEdge) (rest : List ℕ) (depth : ℕ) (flips : Flips)
    (cost : UInt64) (state : State) :
    Grows (view state) (view (searchFrom problem.search pool problem unit nodeLimit components edges
      rest depth flips cost state)) := by
  induction rest generalizing depth flips cost state with
  | nil =>
      unfold searchFrom
      exact enter_grows state fun current => (noteColors_grows _ _ _).1
  | cons component rest ih =>
      unfold searchFrom
      refine enter_grows state fun current => ?_
      refine Theory.grows_foldl view (fun next flip => ?_) _ _
      split_ifs
      · exact Grows.refl _
      · exact ih _ _ _ _

/-- **Every call covers the flips that agree with it.** -/
theorem searchFrom_covers {soft : SoftObjective} (hedges : EdgesOk components.count soft.edges)
    {flip : ℕ → Bool} (rest : List ℕ) (depth : ℕ) (flips : Flips) (cost : UInt64) (state : State)
    (hcall : CallOk components soft rest flips cost)
    (hagree : ∀ c x, flipOf flips c = some x → x = flip c)
    (hfirst : depth = 0 → ∀ c, rest.head? = some c → flip c = false) :
    Theory.Covers (view (searchFrom problem.search pool problem unit nodeLimit components soft.edges
      rest depth flips cost state))
      (poolScore problem (flipsCost soft fun c => some (flip c)).val maxU64) := by
  have hbound : poolScore problem cost 0 ≤
      poolScore problem (flipsCost soft fun c => some (flip c)).val maxU64 :=
    PoolCanonicalSearch.poolScore_le (hcall.cost_le hagree) (by decide)
  induction rest generalizing depth flips cost state with
  | nil =>
      unfold searchFrom
      refine enter_covers state hbound fun current => ?_
      obtain ⟨-, best, hbest, hle⟩ := @noteColors_grows problem pool unit
        (colorsOf problem.search pool components flips) cost current
      refine .inr ⟨best, hbest, hle.trans (PoolCanonicalSearch.poolScore_le ?_ ?_)⟩
      · exact le_of_eq (congrArg Sat.val (hcall.complete hedges hagree))
      · exact UInt64.le_iff_toNat_le.mpr (Nat.le_of_lt_succ (UInt64.toNat_lt _))
  | cons component rest ih =>
      have hflip : flip component ∈ if depth = 0 then [false] else [false, true] := by
        split_ifs with hdepth
        · rw [hfirst hdepth component rfl]
          exact List.mem_cons_self
        · cases flip component <;> decide
      have hnext := hcall.step hedges (flip component)
      have hlt : component < flips.length := by
        rw [hcall.length]
        exact hcall.lt component List.mem_cons_self
      have hagree' : ∀ c x, flipOf (flips.set component (some (flip component))) c = some x →
          x = flip c := by
        intro c x hx
        rw [flipOf_set hlt] at hx
        by_cases hsame : c = component
        · subst hsame
          rw [Function.update_self] at hx
          exact (Option.some.inj hx).symm
        · rw [Function.update_of_ne hsame] at hx
          exact hagree c x hx
      unfold searchFrom
      refine enter_covers state hbound fun current => ?_
      refine Theory.covers_foldl view ?_ (fun _ => True) (fun _ _ _ _ => trivial) hflip ?_ trivial
      · intro next x
        split_ifs
        · exact Grows.refl _
        · exact searchFrom_grows _ _ _ _ _ _
      · intro next _
        split_ifs with hlimit
        · exact .inl hlimit
        · refine ih _ _ _ _ hnext hagree' (fun hzero => absurd hzero (Nat.succ_ne_zero depth)) ?_
          exact PoolCanonicalSearch.poolScore_le (hnext.cost_le hagree') (by decide)

/-- What the search keeps are the colours of flips with their score. -/
def StateOk (problem : DsaProblem) (pool : PoolId) (unit : UInt64) (components : Components)
    (state : State) : Prop :=
  state.found = true → ∃ flips, state.bestColors = colorsOf problem.search pool components flips ∧
    state.bestScore = poolScore problem
      (flipCost problem pool components fun c => (flipOf flips c).getD false).val
      (peakOfColors problem.search pool unit state.bestColors)

theorem searchFrom_ok {soft : SoftObjective} (hedges : EdgesOk components.count soft.edges)
    (hsoft : ∀ flip : ℕ → Bool, flipsCost soft (fun c => some (flip c)) =
      flipCost problem pool components flip) (rest : List ℕ) (depth : ℕ) (flips : Flips)
    (cost : UInt64) (state : State) (hcall : CallOk components soft rest flips cost)
    (hstate : StateOk problem pool unit components state) :
    StateOk problem pool unit components (searchFrom problem.search pool problem unit nodeLimit
      components soft.edges rest depth flips cost state) := by
  induction rest generalizing depth flips cost state with
  | nil =>
      unfold searchFrom
      generalize hbody : noteColors problem.search pool problem unit
        (colorsOf problem.search pool components flips) cost = body
      have hend := @enter_spec problem nodeLimit cost body state
      generalize enter problem nodeLimit cost body state = result at hend
      cases hend with
      | done => exact hstate
      | limit => exact hstate
      | pruned => exact hstate
      | counted =>
          rw [← hbody]
          unfold noteColors
          dsimp only
          split_ifs
          · have hagree : ∀ c x, flipOf flips c = some x → x = (flipOf flips c).getD false :=
              fun c x hx => by rw [hx, Option.getD_some]
            have hcost := hcall.complete hedges hagree
            rw [hsoft] at hcost
            exact fun _ => ⟨flips, rfl, by rw [← hcost]⟩
          · exact hstate
  | cons component rest ih =>
      unfold searchFrom
      generalize hbody : (fun state : State => List.foldl _ state _) = body
      have hend := @enter_spec problem nodeLimit cost body state
      generalize enter problem nodeLimit cost body state = result at hend
      cases hend with
      | done => exact hstate
      | limit => exact hstate
      | pruned => exact hstate
      | counted =>
          rw [← hbody]
          dsimp only
          refine List.foldlRecOn (motive := fun state => StateOk problem pool unit components state)
            _ _ hstate fun current hcurrent x _ => ?_
          split_ifs
          · exact hcurrent
          · exact ih _ _ _ _ (hcall.step hedges x) hcurrent

/-- Without a limit nothing is cut short. -/
theorem searchFrom_limitHit (hlimit : nodeLimit = 0) (edges : List ComponentEdge) (rest : List ℕ)
    (depth : ℕ) (flips : Flips) (cost : UInt64) (state : State) (hstate : state.limitHit = false) :
    (searchFrom problem.search pool problem unit nodeLimit components edges rest depth flips cost
      state).limitHit = false := by
  induction rest generalizing depth flips cost state with
  | nil =>
      unfold searchFrom
      generalize hbody : noteColors problem.search pool problem unit
        (colorsOf problem.search pool components flips) cost = body
      have hend := @enter_spec problem nodeLimit cost body state
      generalize enter problem nodeLimit cost body state = result at hend
      cases hend with
      | done => exact hstate
      | limit limited => exact absurd hlimit limited
      | pruned => exact hstate
      | counted =>
          rw [← hbody]
          unfold noteColors
          dsimp only
          split_ifs
          · exact hstate
          · exact hstate
  | cons component rest ih =>
      unfold searchFrom
      generalize hbody : (fun state : State => List.foldl _ state _) = body
      have hend := @enter_spec problem nodeLimit cost body state
      generalize enter problem nodeLimit cost body state = result at hend
      cases hend with
      | done => exact hstate
      | limit limited => exact absurd hlimit limited
      | pruned => exact hstate
      | counted =>
          rw [← hbody]
          dsimp only
          refine List.foldlRecOn (motive := fun state : State => state.limitHit = false)
            _ _ hstate fun current hcurrent x _ => ?_
          split_ifs with hdone
          · exact hcurrent
          · exact ih _ _ _ _ hcurrent

theorem mem_componentOrder {soft : SoftObjective} {count c : ℕ} :
    c ∈ componentOrder soft count ↔ c < count := by
  unfold componentOrder
  rw [List.mem_insertionSort, List.mem_range]

theorem callOk_initial (soft : SoftObjective) :
    CallOk components soft (componentOrder soft components.count)
      (List.replicate components.count none) soft.fixedCost := by
  have hnone : flipOf (List.replicate components.count none) = fun _ => none := by
    funext c
    unfold flipOf
    rw [List.getD_eq_getElem?_getD, List.getElem?_replicate]
    split_ifs <;> rfl
  refine ⟨List.length_replicate, ?_, fun c hc => mem_componentOrder.mp hc, fun c hc => ?_, ?_⟩
  · unfold componentOrder
    exact (List.perm_insertionSort _ _).nodup_iff.mpr List.nodup_range
  · rw [hnone]
    exact iff_of_true rfl (mem_componentOrder.mpr hc)
  · unfold flipsCost
    rw [hnone, List.sum_eq_zero, add_zero]
    intro cost hcost
    obtain ⟨edge, -, rfl⟩ := List.mem_map.mp hcost
    rfl

/-- What the last state of a search keeps and covers. -/
theorem finalState_spec (h : SearchOk problem) (hparts : Parts problem pool components) :
    StateOk problem pool unit components
      (finalState problem.search pool problem unit nodeLimit components) ∧
    (∀ flip : ℕ → Bool, Theory.Covers
      (view (finalState problem.search pool problem unit nodeLimit components))
      (poolScore problem (flipCost problem pool components flip).val maxU64)) ∧
    (nodeLimit = 0 →
      (finalState problem.search pool problem unit nodeLimit components).limitHit = false) := by
  obtain ⟨hedges, hsoft⟩ := flipsCost_soft h hparts
  have hcall := @callOk_initial components (buildSoftObjective problem.search pool components)
  unfold finalState
  dsimp only
  refine ⟨searchFrom_ok hedges hsoft _ _ _ _ _ hcall (fun hfound => Bool.noConfusion hfound), ?_,
    fun hlimit => searchFrom_limitHit hlimit _ _ _ _ _ _ rfl⟩
  -- flips of which the first component keeps its parity
  have hkeeping : ∀ flip : ℕ → Bool,
      (∀ c, (componentOrder (buildSoftObjective problem.search pool components)
        components.count).head? = some c → flip c = false) → Theory.Covers (view (searchFrom
          problem.search pool problem unit nodeLimit components
          (buildSoftObjective problem.search pool components).edges
          (componentOrder (buildSoftObjective problem.search pool components) components.count) 0
          (List.replicate components.count none)
          (buildSoftObjective problem.search pool components).fixedCost
          { bestColors := List.replicate problem.search.count false
            bestScore := List.replicate problem.objective.terms.length maxU64 }))
        (poolScore problem (flipCost problem pool components flip).val maxU64) := by
    intro flip hfirst
    rw [← hsoft flip]
    refine searchFrom_covers hedges _ _ _ _ _ hcall (fun c x hx => ?_) fun _ => hfirst
    unfold flipOf at hx
    rw [List.getD_eq_getElem?_getD, List.getElem?_replicate] at hx
    split_ifs at hx
    · cases hx
    · cases hx
  intro flip
  by_cases hhead : ∀ c, (componentOrder (buildSoftObjective problem.search pool components)
      components.count).head? = some c → flip c = false
  · exact hkeeping flip hhead
  · push Not at hhead
    obtain ⟨c, hc, htrue⟩ := hhead
    rw [← flipCost_not flip]
    refine hkeeping _ fun other hother => ?_
    obtain rfl := Option.some.inj (hc.symm.trans hother)
    simpa using htrue

end search

end PoolTwoSearch

end Dsa
