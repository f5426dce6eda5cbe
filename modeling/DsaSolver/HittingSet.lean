import DsaSolver.ReuseSearch
import DsaSolver.Theory.BranchAndBound
import DsaSolver.Theory.Accumulate

/-! # The hitting-set master

`ExactHittingSetMaster` of `reuse_penalty_exact_solvers.cpp`: a search for the cheapest set of
soft edges that meets every core, branching on the edges of a smallest core not yet hit. -/

namespace Dsa

open Theory (Sat Incumbent Grows Covers)

structure IndexedSoftEdge where
  pair : ℕ × ℕ := (0, 0)
  weight : UInt64 := 0
deriving DecidableEq, Repr

/-- `std::set<std::size_t>`, as the list of its members. -/
abbrev EdgeSet := List ℕ

structure HittingSetResult where
  selected : EdgeSet := []
  cost : UInt64 := 0
  searchNodes : UInt64 := 0
  limitHit : Bool := false
  found : Bool := false
deriving DecidableEq, Repr

namespace ExactHittingSetMaster

/-- The members of the class that a run changes. -/
structure State where
  selected : List Bool
  bestSelected : EdgeSet := []
  bestCost : UInt64 := maxU64
  searchNodes : UInt64 := 0
  limitHit : Bool := false
  found : Bool := false

def isHit (selected : List Bool) (core : EdgeSet) : Bool :=
  core.any fun edge => selected.getD edge false

/-- One iteration of the loop over the cores. -/
def keepSmallest (selected : List Bool) (unhit : Option EdgeSet) (core : EdgeSet) :
    Option EdgeSet :=
  if isHit selected core then unhit
  else
    match unhit with
    | none => some core
    | some smallest => if core.length < smallest.length then some core else unhit

/-- The first of the smallest cores that are not hit. -/
def unhitCore (cores : List EdgeSet) (selected : List Bool) : Option EdgeSet :=
  cores.foldl (keepSmallest selected) none

/-- The selected edges. -/
def candidateOf (selected : List Bool) : EdgeSet :=
  (List.range selected.length).filter fun edge => selected.getD edge false

/-- `Search` with every core hit. -/
def keepBest (cost : UInt64) (state : State) : State :=
  let candidate := candidateOf state.selected
  if !state.found || decide (cost < state.bestCost) ||
      (cost == state.bestCost && decide (candidate < state.bestSelected)) then
    { state with found := true, bestCost := cost, bestSelected := candidate }
  else state

section search

variable (edges : List IndexedSoftEdge) (cores : List EdgeSet) (nodeLimit : UInt64)

def weightAt (edge : ℕ) : UInt64 := (edges.getD edge {}).weight

/-- The comparator of the choices. -/
def choiceBefore (first second : ℕ) : Bool :=
  decide (weightAt edges first < weightAt edges second) ||
    (weightAt edges first == weightAt edges second && decide (first < second))

def choicesOf (core : EdgeSet) : List ℕ :=
  core.insertionSort fun first second => (!choiceBefore edges second first) = true

/-- One iteration of the loop over the choices. -/
def tryEdge (inner : UInt64 → State → State) (cost : UInt64) (state : State) (edge : ℕ) : State :=
  let after := inner (saturatingAdd cost (weightAt edges edge))
    { state with selected := state.selected.set edge true }
  { after with selected := after.selected.set edge false }

/-- `Search`; every call selects one more edge, so a depth of the number of edges is enough
(`search_fuel`). -/
def search : ℕ → UInt64 → State → State
  | 0, _, state => state
  | fuel + 1, cost, state =>
      if nodeLimit != 0 && decide (nodeLimit ≤ state.searchNodes) then
        { state with limitHit := true }
      else
        let state := { state with searchNodes := state.searchNodes + 1 }
        if state.found && decide (state.bestCost < cost) then state
        else
          match unhitCore cores state.selected with
          | none => keepBest cost state
          | some core =>
              (choicesOf edges core).foldl (tryEdge edges (search fuel) cost) state

/-- `Solve`. -/
def solve : HittingSetResult :=
  let final := search edges cores nodeLimit (edges.length + 1) 0
    { selected := List.replicate edges.length false }
  { selected := final.bestSelected
    cost := final.bestCost
    searchNodes := final.searchNodes
    limitHit := final.limitHit
    found := final.found }

end search

/-! ### Sets of edges -/

/-- The selected edges as a set. -/
def selectedSet (selected : List Bool) : Finset ℕ := (candidateOf selected).toFinset

/-- The saturating sum of the weights of a set. -/
def setWeight (edges : List IndexedSoftEdge) (s : Finset ℕ) : Sat :=
  ∑ edge ∈ s, ⟨weightAt edges edge⟩

/-- The set meets every core. -/
def Meets (cores : List EdgeSet) (s : Finset ℕ) : Prop := ∀ core ∈ cores, ∃ edge ∈ core, edge ∈ s

section sets

variable {edges : List IndexedSoftEdge} {cores : List EdgeSet} {selected : List Bool} {edge : ℕ}

theorem mem_selectedSet :
    edge ∈ selectedSet selected ↔ edge < selected.length ∧ selected.getD edge false = true := by
  unfold selectedSet candidateOf
  rw [List.mem_toFinset, List.mem_filter, List.mem_range]

theorem candidateOf_sorted (selected : List Bool) : (candidateOf selected).Pairwise (· < ·) :=
  List.Pairwise.filter _ List.pairwise_lt_range

theorem isHit_iff {core : EdgeSet} :
    isHit selected core = true ↔ ∃ edge ∈ core, selected.getD edge false = true := by
  unfold isHit
  rw [List.any_eq_true]

theorem getD_set_true (hedge : edge < selected.length) (other : ℕ) :
    (selected.set edge true).getD other false = true ↔
      other = edge ∨ selected.getD other false = true := by
  rw [List.getD_eq_getElem?_getD, List.getD_eq_getElem?_getD, List.getElem?_set]
  by_cases heq : edge = other
  · subst heq
    simp [hedge]
  · simp [heq, Ne.symm heq]

theorem selectedSet_set (hedge : edge < selected.length) :
    selectedSet (selected.set edge true) = insert edge (selectedSet selected) := by
  ext other
  rw [mem_selectedSet, List.length_set, getD_set_true hedge, Finset.mem_insert, mem_selectedSet]
  constructor
  · rintro ⟨hlt, rfl | htrue⟩
    · exact .inl rfl
    · exact .inr ⟨hlt, htrue⟩
  · rintro (rfl | ⟨hlt, htrue⟩)
    · exact ⟨hedge, .inl rfl⟩
    · exact ⟨hlt, .inr htrue⟩

/-- Deselecting an edge undoes its selection. -/
theorem set_true_false (hfree : selected.getD edge false = false) :
    (selected.set edge true).set edge false = selected := by
  rw [List.set_set]
  by_cases hedge : edge < selected.length
  · rw [List.getD_eq_getElem _ _ hedge] at hfree
    rw [← hfree, List.set_getElem_self]
  · exact List.set_eq_of_length_le (by omega)

theorem foldl_keepSmallest_eq_none {start : Option EdgeSet}
    (h : cores.foldl (keepSmallest selected) start = none) :
    start = none ∧ ∀ core ∈ cores, isHit selected core = true := by
  induction cores generalizing start with
  | nil => exact ⟨h, by simp⟩
  | cons core rest ih =>
      obtain ⟨hnone, hrest⟩ := ih h
      unfold keepSmallest at hnone
      split_ifs at hnone with hhit
      · exact ⟨hnone, List.forall_mem_cons.mpr ⟨hhit, hrest⟩⟩
      · cases start with
        | none => cases hnone
        | some smallest =>
            dsimp only at hnone
            split_ifs at hnone

theorem foldl_keepSmallest_eq_some {start : Option EdgeSet} {core : EdgeSet}
    (h : cores.foldl (keepSmallest selected) start = some core) :
    start = some core ∨ core ∈ cores ∧ isHit selected core = false := by
  induction cores generalizing start with
  | nil => exact .inl h
  | cons first rest ih =>
      obtain hstep | ⟨hmem, hfree⟩ := ih h
      · unfold keepSmallest at hstep
        split_ifs at hstep with hhit
        · exact .inl hstep
        · rw [Bool.not_eq_true] at hhit
          have hnew : some first = some core → core ∈ first :: rest ∧ isHit selected core = false :=
            fun heq => Option.some.inj heq ▸ ⟨List.mem_cons_self, hhit⟩
          cases start with
          | none => exact .inr (hnew hstep)
          | some smallest =>
              dsimp only at hstep
              split_ifs at hstep
              · exact .inr (hnew hstep)
              · exact .inl hstep
      · exact .inr ⟨List.mem_cons_of_mem _ hmem, hfree⟩

/-- The choices are the edges of the core. -/
theorem mem_choicesOf {core : EdgeSet} : edge ∈ choicesOf edges core ↔ edge ∈ core :=
  List.mem_insertionSort _

end sets

/-! ### The search -/

section search

variable {edges : List IndexedSoftEdge} {cores : List EdgeSet} {nodeLimit : UInt64}

/-- The cores name edges, and none is empty. -/
structure CoresOk (edges : List IndexedSoftEdge) (cores : List EdgeSet) : Prop where
  nonempty : ∀ core ∈ cores, core ≠ []
  lt : ∀ core ∈ cores, ∀ edge ∈ core, edge < edges.length

/-- The edges of a core that is not hit are not selected. -/
theorem free_of_unhit {selected : List Bool} {core : EdgeSet} (hfree : isHit selected core = false)
    {edge : ℕ} (hedge : edge ∈ core) : selected.getD edge false = false := by
  rw [← Bool.not_eq_true]
  intro htrue
  rw [isHit_iff.mpr ⟨edge, hedge, htrue⟩] at hfree
  cases hfree

theorem tryEdge_selected {inner : UInt64 → State → State} {cost : UInt64}
    (hinner : ∀ cost state, (inner cost state).selected = state.selected) {state : State} {edge : ℕ}
    (hfree : state.selected.getD edge false = false) :
    (tryEdge edges inner cost state edge).selected = state.selected := by
  unfold tryEdge
  dsimp only
  rw [hinner]
  exact set_true_false hfree

/-- A loop over free edges ends with the selection it began with. -/
theorem foldl_tryEdge_selected {inner : UInt64 → State → State} {cost : UInt64}
    (hinner : ∀ cost state, (inner cost state).selected = state.selected) {choices : List ℕ}
    {state : State} (hfree : ∀ edge ∈ choices, state.selected.getD edge false = false) :
    (choices.foldl (tryEdge edges inner cost) state).selected = state.selected := by
  induction choices generalizing state with
  | nil => rfl
  | cons edge rest ih =>
      obtain ⟨hedge, hrest⟩ := List.forall_mem_cons.mp hfree
      have hstep : (tryEdge edges inner cost state edge).selected = state.selected :=
        tryEdge_selected hinner hedge
      rw [List.foldl_cons, ih (by rwa [hstep]), hstep]

theorem search_selected (fuel : ℕ) (cost : UInt64) (state : State) :
    (search edges cores nodeLimit fuel cost state).selected = state.selected := by
  induction fuel generalizing cost state with
  | zero => rfl
  | succ fuel ih =>
      unfold search
      dsimp only
      split_ifs with hlimit hprune
      · rfl
      · rfl
      · cases hunhit : unhitCore cores state.selected with
        | none =>
            dsimp only
            unfold keepBest
            dsimp only
            split_ifs <;> rfl
        | some core =>
            obtain hnone | ⟨-, hfree⟩ := foldl_keepSmallest_eq_some hunhit
            · cases hnone
            · exact foldl_tryEdge_selected ih fun edge hedge =>
                free_of_unhit hfree (mem_choicesOf.mp hedge)

/-- What the search keeps. -/
def view (state : State) : Incumbent UInt64 where
  limitHit := state.limitHit
  best := if state.found then some state.bestCost else none

theorem keepBest_grows (cost : UInt64) (state : State) :
    Grows (view state) (view (keepBest cost state)) := by
  unfold keepBest
  dsimp only
  split_ifs with hbetter
  · refine ⟨id, fun score hscore => ?_⟩
    unfold view at hscore ⊢
    dsimp only at hscore ⊢
    split_ifs at hscore with hfound
    obtain rfl := Option.some.inj hscore
    refine ⟨cost, if_pos rfl, ?_⟩
    rw [hfound] at hbetter
    simp only [Bool.not_true, Bool.false_or, Bool.or_eq_true, Bool.and_eq_true, decide_eq_true_eq,
      beq_iff_eq] at hbetter
    obtain hlt | ⟨heq, -⟩ := hbetter
    · exact hlt.le
    · exact heq.le
  · exact Grows.refl _

theorem tryEdge_grows {inner : UInt64 → State → State}
    (hinner : ∀ cost state, Grows (view state) (view (inner cost state))) (cost : UInt64)
    (state : State) (edge : ℕ) : Grows (view state) (view (tryEdge edges inner cost state edge)) :=
  hinner (saturatingAdd cost (weightAt edges edge))
    { state with selected := state.selected.set edge true }

theorem search_grows (fuel : ℕ) (cost : UInt64) (state : State) :
    Grows (view state) (view (search edges cores nodeLimit fuel cost state)) := by
  induction fuel generalizing cost state with
  | zero => exact Grows.refl _
  | succ fuel ih =>
      unfold search
      dsimp only
      split_ifs with hlimit hprune
      · exact ⟨fun _ => rfl, fun score hscore => ⟨score, hscore, le_rfl⟩⟩
      · exact Grows.refl _
      · cases unhitCore cores state.selected with
        | none => exact keepBest_grows cost { state with searchNodes := state.searchNodes + 1 }
        | some core =>
            exact Theory.grows_foldl view (tryEdge_grows ih cost) _
              { state with searchNodes := state.searchNodes + 1 }

/-! ### Soundness -/

/-- A set meets the cores at the cost stated. -/
structure BestOk (edges : List IndexedSoftEdge) (cores : List EdgeSet) (best : EdgeSet)
    (cost : UInt64) : Prop where
  meets : Meets cores best.toFinset
  cost : cost = (setWeight edges best.toFinset).val
  sorted : best.Pairwise (· < ·)
  lt : ∀ edge ∈ best, edge < edges.length

/-- The best set of a state, when there is one. -/
def FoundOk (edges : List IndexedSoftEdge) (cores : List EdgeSet) (state : State) : Prop :=
  state.found = true → BestOk edges cores state.bestSelected state.bestCost

/-- The cost handed down is that of the selection. -/
structure Ready (edges : List IndexedSoftEdge) (cost : UInt64) (selected : List Bool) : Prop where
  length : selected.length = edges.length
  cost : cost = (setWeight edges (selectedSet selected)).val

theorem Ready.set {cost : UInt64} {selected : List Bool} (h : Ready edges cost selected) {edge : ℕ}
    (hedge : edge < edges.length) (hfree : selected.getD edge false = false) :
    Ready edges (saturatingAdd cost (weightAt edges edge)) (selected.set edge true) where
  length := by rw [List.length_set, h.length]
  cost := by
    have hnew : edge ∉ selectedSet selected := by
      rw [mem_selectedSet, hfree]
      exact fun hmem => Bool.false_ne_true hmem.2
    rw [selectedSet_set (by rw [h.length]; exact hedge), setWeight, Finset.sum_insert hnew,
      add_comm, h.cost]
    rfl

theorem keepBest_ok {cost : UInt64} (state : State) (hready : Ready edges cost state.selected)
    (hhit : ∀ core ∈ cores, isHit state.selected core = true) (hok : FoundOk edges cores state) :
    FoundOk edges cores (keepBest cost state) := by
  unfold keepBest
  dsimp only
  split_ifs with hbetter
  · intro _
    refine ⟨fun core hcore => ?_, hready.cost, candidateOf_sorted _, fun edge hedge => ?_⟩
    · obtain ⟨edge, hedge, htrue⟩ := isHit_iff.mp (hhit core hcore)
      refine ⟨edge, hedge, mem_selectedSet.mpr ⟨?_, htrue⟩⟩
      by_contra hlt
      rw [List.getD_eq_default _ _ (not_lt.mp hlt)] at htrue
      cases htrue
    · rw [← hready.length]
      exact (mem_selectedSet.mp (List.mem_toFinset.mpr hedge)).1
  · exact hok

theorem foldl_tryEdge_ok {inner : UInt64 → State → State}
    (hselected : ∀ cost state, (inner cost state).selected = state.selected)
    (hinner : ∀ cost state, Ready edges cost state.selected → FoundOk edges cores state →
      FoundOk edges cores (inner cost state))
    {cost : UInt64} {choices : List ℕ} (state : State) (hready : Ready edges cost state.selected)
    (hfree : ∀ edge ∈ choices, state.selected.getD edge false = false ∧ edge < edges.length)
    (hok : FoundOk edges cores state) :
    FoundOk edges cores (choices.foldl (tryEdge edges inner cost) state) := by
  induction choices generalizing state with
  | nil => exact hok
  | cons edge rest ih =>
      obtain ⟨⟨hedge, hlt⟩, hrest⟩ := List.forall_mem_cons.mp hfree
      have hstep : (tryEdge edges inner cost state edge).selected = state.selected :=
        tryEdge_selected hselected hedge
      have hafter : FoundOk edges cores (tryEdge edges inner cost state edge) :=
        hinner (saturatingAdd cost (weightAt edges edge))
          { state with selected := state.selected.set edge true } (hready.set hlt hedge) hok
      rw [List.foldl_cons]
      exact ih _ (by rwa [hstep]) (by rwa [hstep]) hafter

theorem search_ok (hcores : CoresOk edges cores) (fuel : ℕ) (cost : UInt64) (state : State)
    (hready : Ready edges cost state.selected) (hok : FoundOk edges cores state) :
    FoundOk edges cores (search edges cores nodeLimit fuel cost state) := by
  induction fuel generalizing cost state with
  | zero => exact hok
  | succ fuel ih =>
      unfold search
      dsimp only
      split_ifs with hlimit hprune
      · exact hok
      · exact hok
      · cases hunhit : unhitCore cores state.selected with
        | none =>
            exact keepBest_ok { state with searchNodes := state.searchNodes + 1 } hready
              (foldl_keepSmallest_eq_none hunhit).2 hok
        | some core =>
            obtain hnone | ⟨hmem, hfree⟩ := foldl_keepSmallest_eq_some hunhit
            · cases hnone
            · apply foldl_tryEdge_ok (search_selected fuel) ih
                { state with searchNodes := state.searchNodes + 1 } hready _ hok
              intro edge hedge
              rw [mem_choicesOf] at hedge
              exact ⟨free_of_unhit hfree hedge, hcores.lt core hmem edge hedge⟩

/-! ### Completeness -/

theorem setWeight_mono {s t : Finset ℕ} (h : s ⊆ t) :
    (setWeight edges s).val ≤ (setWeight edges t).val :=
  Sat.le_iff_val.mp (Finset.sum_le_sum_of_subset h)

theorem keepBest_covers {cost : UInt64} {state : State} {target : UInt64} (hle : cost ≤ target) :
    Covers (view (keepBest cost state)) target := by
  unfold keepBest
  dsimp only
  split_ifs with hbetter
  · exact .inr ⟨cost, rfl, hle⟩
  · simp only [Bool.or_eq_true, Bool.not_eq_true', Bool.and_eq_true, decide_eq_true_eq, beq_iff_eq,
      not_or, not_lt, Bool.not_eq_false] at hbetter
    obtain ⟨⟨hfound, hbest⟩, -⟩ := hbetter
    refine .inr ⟨state.bestCost, ?_, hbest.trans hle⟩
    unfold view
    rw [hfound]
    rfl

/-- The search covers every set around the selection that meets the cores. -/
theorem search_covers (hcores : CoresOk edges cores) {s : Finset ℕ} (hmeets : Meets cores s)
    (fuel : ℕ) (cost : UInt64) (state : State) (hready : Ready edges cost state.selected)
    (hsub : selectedSet state.selected ⊆ s)
    (hfuel : (s \ selectedSet state.selected).card < fuel) :
    Covers (view (search edges cores nodeLimit fuel cost state)) (setWeight edges s).val := by
  induction fuel generalizing cost state with
  | zero => exact absurd hfuel (Nat.not_lt_zero _)
  | succ fuel ih =>
      have hcost : cost ≤ (setWeight edges s).val := by
        rw [hready.cost]
        exact setWeight_mono hsub
      unfold search
      dsimp only
      split_ifs with hlimit hprune
      · exact .inl rfl
      · rw [Bool.and_eq_true, decide_eq_true_eq] at hprune
        refine .inr ⟨state.bestCost, ?_, hprune.2.le.trans hcost⟩
        unfold view
        rw [hprune.1]
        rfl
      · cases hunhit : unhitCore cores state.selected with
        | none => exact keepBest_covers hcost
        | some core =>
            obtain hnone | ⟨hmem, hfree⟩ := foldl_keepSmallest_eq_some hunhit
            · cases hnone
            · -- the branch of an edge by which the set meets the core
              obtain ⟨edge, hedge, hin⟩ := hmeets core hmem
              have hchoices : ∀ other ∈ choicesOf edges core,
                  state.selected.getD other false = false := fun other hother =>
                free_of_unhit hfree (mem_choicesOf.mp hother)
              have hedgefree := free_of_unhit hfree hedge
              have hlt := hcores.lt core hmem edge hedge
              have hinsert : selectedSet (state.selected.set edge true) =
                  insert edge (selectedSet state.selected) :=
                selectedSet_set (by rw [hready.length]; exact hlt)
              dsimp only
              refine Theory.covers_foldl view (tryEdge_grows (search_grows fuel) cost)
                (fun other => other.selected = state.selected) ?_ (mem_choicesOf.mpr hedge) ?_ ?_
              · intro other x hx hsame
                rw [tryEdge_selected (search_selected fuel) (by rw [hsame]; exact hchoices x hx),
                  hsame]
              · intro other hsame
                apply ih (saturatingAdd cost (weightAt edges edge))
                  { other with selected := other.selected.set edge true }
                · rw [hsame]
                  exact hready.set hlt hedgefree
                · rw [hsame, hinsert]
                  exact Finset.insert_subset hin hsub
                · rw [hsame, hinsert]
                  have hnew : edge ∈ s \ selectedSet state.selected := by
                    rw [Finset.mem_sdiff, mem_selectedSet, hedgefree]
                    exact ⟨hin, fun hmem => Bool.false_ne_true hmem.2⟩
                  have hcard := Finset.card_erase_lt_of_mem hnew
                  rw [← Finset.sdiff_insert] at hcard
                  omega
              · rfl

/-- A loop over free edges does not tell two searches apart that agree one edge deeper. -/
theorem foldl_tryEdge_congr {inner inner' : UInt64 → State → State}
    (hselected : ∀ cost state, (inner cost state).selected = state.selected) {cost : UInt64}
    {choices : List ℕ} {state : State}
    (hfree : ∀ edge ∈ choices, state.selected.getD edge false = false)
    (hinner : ∀ edge ∈ choices, ∀ cost other,
      other.selected = state.selected.set edge true → inner cost other = inner' cost other) :
    choices.foldl (tryEdge edges inner cost) state =
      choices.foldl (tryEdge edges inner' cost) state := by
  induction choices generalizing state with
  | nil => rfl
  | cons edge rest ih =>
      obtain ⟨hedge, hrest⟩ := List.forall_mem_cons.mp hfree
      obtain ⟨hfirst, hothers⟩ := List.forall_mem_cons.mp hinner
      have hstep : (tryEdge edges inner cost state edge).selected = state.selected :=
        tryEdge_selected hselected hedge
      have hsame : tryEdge edges inner cost state edge = tryEdge edges inner' cost state edge := by
        unfold tryEdge
        dsimp only
        rw [hfirst _ _ rfl]
      rw [List.foldl_cons, List.foldl_cons, ← hsame]
      exact ih (by rwa [hstep]) (by rwa [hstep])

/-- A depth beyond the number of free edges changes nothing. -/
theorem search_fuel (hcores : CoresOk edges cores) (fuel : ℕ) (cost : UInt64) (state : State)
    (hlength : state.selected.length = edges.length)
    (hfuel : (Finset.range edges.length \ selectedSet state.selected).card < fuel) :
    search edges cores nodeLimit (fuel + 1) cost state =
      search edges cores nodeLimit fuel cost state := by
  induction fuel generalizing cost state with
  | zero => exact absurd hfuel (Nat.not_lt_zero _)
  | succ fuel ih =>
      rw [search, search]
      dsimp only
      split_ifs with hlimit hprune
      · rfl
      · rfl
      · cases hunhit : unhitCore cores state.selected with
        | none => rfl
        | some core =>
            obtain hnone | ⟨hmem, hfree⟩ := foldl_keepSmallest_eq_some hunhit
            · cases hnone
            · dsimp only
              apply foldl_tryEdge_congr (search_selected (fuel + 1))
              · exact fun edge hedge => free_of_unhit hfree (mem_choicesOf.mp hedge)
              · intro edge hedge cost other hother
                rw [mem_choicesOf] at hedge
                have hlt := hcores.lt core hmem edge hedge
                apply ih
                · rw [hother, List.length_set, hlength]
                · have hnew : edge ∈ Finset.range edges.length \ selectedSet state.selected := by
                    rw [Finset.mem_sdiff, mem_selectedSet, free_of_unhit hfree hedge]
                    exact ⟨Finset.mem_range.mpr hlt, fun hmem => Bool.false_ne_true hmem.2⟩
                  have hcard := Finset.card_erase_lt_of_mem hnew
                  rw [← Finset.sdiff_insert] at hcard
                  rw [hother, selectedSet_set (by rw [hlength]; exact hlt)]
                  dsimp only
                  omega

theorem selectedSet_replicate (count : ℕ) : selectedSet (List.replicate count false) = ∅ := by
  apply Finset.eq_empty_of_forall_notMem
  intro edge hedge
  obtain ⟨hlt, htrue⟩ := mem_selectedSet.mp hedge
  rw [List.getD_eq_getElem _ _ hlt, List.getElem_replicate] at htrue
  cases htrue

theorem ready_initial (edges : List IndexedSoftEdge) :
    Ready edges 0 (List.replicate edges.length false) := by
  refine ⟨List.length_replicate, ?_⟩
  rw [selectedSet_replicate]
  rfl

/-- A completed run found something at most as dear as any set that meets the cores. -/
theorem solve_covers (hcores : CoresOk edges cores)
    (hlimit : (solve edges cores nodeLimit).limitHit = false) {s : Finset ℕ}
    (hs : s ⊆ Finset.range edges.length) (hmeets : Meets cores s) :
    (solve edges cores nodeLimit).found = true ∧
      (solve edges cores nodeLimit).cost ≤ (setWeight edges s).val := by
  have hcard := Finset.card_le_card hs
  rw [Finset.card_range] at hcard
  have hcover : Covers (view (search edges cores nodeLimit (edges.length + 1) 0
      { selected := List.replicate edges.length false })) (setWeight edges s).val := by
    apply search_covers hcores hmeets _ _ _ (ready_initial edges)
    · rw [selectedSet_replicate]
      exact Finset.empty_subset s
    · rw [selectedSet_replicate, Finset.sdiff_empty]
      omega
  obtain hhit | ⟨score, hscore, hle⟩ := hcover
  · exact absurd hhit (by rw [Bool.not_eq_true]; exact hlimit)
  · unfold view at hscore
    dsimp only at hscore
    split_ifs at hscore with hfound
    exact ⟨hfound, (Option.some.inj hscore).le.trans hle⟩

/-- A completed run returns a set that meets the cores. -/
theorem solve_found (hcores : CoresOk edges cores)
    (hlimit : (solve edges cores nodeLimit).limitHit = false) :
    (solve edges cores nodeLimit).found = true ∧
      BestOk edges cores (solve edges cores nodeLimit).selected
        (solve edges cores nodeLimit).cost := by
  have hall : Meets cores (Finset.range edges.length) := by
    intro core hcore
    obtain ⟨edge, hedge⟩ := List.exists_mem_of_ne_nil core (hcores.nonempty core hcore)
    exact ⟨edge, hedge, Finset.mem_range.mpr (hcores.lt core hcore edge hedge)⟩
  have hfound := (solve_covers hcores hlimit (Finset.Subset.refl _) hall).1
  have hstart : FoundOk edges cores { selected := List.replicate edges.length false } := nofun
  exact ⟨hfound, search_ok hcores _ _ _ (ready_initial edges) hstart hfound⟩

/-- Without a limit nothing is cut short. -/
theorem search_limitHit (fuel : ℕ) (cost : UInt64) (state : State)
    (hstate : state.limitHit = false) :
    (search edges cores 0 fuel cost state).limitHit = false := by
  induction fuel generalizing cost state with
  | zero => exact hstate
  | succ fuel ih =>
      unfold search
      dsimp only
      rw [if_neg (by simp)]
      split_ifs with hprune
      · exact hstate
      · cases unhitCore cores state.selected with
        | none =>
            dsimp only
            unfold keepBest
            dsimp only
            split_ifs <;> exact hstate
        | some core =>
            dsimp only
            apply List.foldlRecOn (motive := fun state : State => state.limitHit = false)
            · exact hstate
            · intro current hcurrent edge _
              exact ih _ { current with selected := current.selected.set edge true } hcurrent

theorem solve_unlimited : (solve edges cores 0).limitHit = false := search_limitHit _ _ _ rfl

/-- **The master is exact.** -/
theorem solve_exact (hcores : CoresOk edges cores)
    (hlimit : (solve edges cores nodeLimit).limitHit = false) :
    (solve edges cores nodeLimit).found = true ∧
      BestOk edges cores (solve edges cores nodeLimit).selected
        (solve edges cores nodeLimit).cost ∧
      ∀ s ⊆ Finset.range edges.length, Meets cores s →
        (solve edges cores nodeLimit).cost ≤ (setWeight edges s).val := by
  obtain ⟨hfound, hbest⟩ := solve_found hcores hlimit
  exact ⟨hfound, hbest, fun s hs hmeets => (solve_covers hcores hlimit hs hmeets).2⟩

end search

/-- The cheapest set that meets `{0, 1}` and `{1, 2}`. -/
theorem solve_exact_pair :
    (solve [⟨(0, 1), 2⟩, ⟨(1, 2), 3⟩, ⟨(2, 3), 2⟩] [[0, 1], [1, 2]] 0).found = true ∧
      BestOk [⟨(0, 1), 2⟩, ⟨(1, 2), 3⟩, ⟨(2, 3), 2⟩] [[0, 1], [1, 2]]
        (solve [⟨(0, 1), 2⟩, ⟨(1, 2), 3⟩, ⟨(2, 3), 2⟩] [[0, 1], [1, 2]] 0).selected
        (solve [⟨(0, 1), 2⟩, ⟨(1, 2), 3⟩, ⟨(2, 3), 2⟩] [[0, 1], [1, 2]] 0).cost ∧
      ∀ s ⊆ Finset.range 3, Meets [[0, 1], [1, 2]] s →
        (solve [⟨(0, 1), 2⟩, ⟨(1, 2), 3⟩, ⟨(2, 3), 2⟩] [[0, 1], [1, 2]] 0).cost ≤
          (setWeight [⟨(0, 1), 2⟩, ⟨(1, 2), 3⟩, ⟨(2, 3), 2⟩] s).val :=
  solve_exact ⟨by decide, by decide⟩ (by decide)

end ExactHittingSetMaster

end Dsa
