import Mathlib.Data.List.Perm.Basic
import Mathlib.Order.Lattice

/-! # Restarted local search

A local search evaluates one candidate after another and keeps the best.  `BestSeen` is the
invariant of every such loop.  `search` is hill climbing with a budget: `climb` moves to better
neighbours and is kicked off the best candidate when it stagnates, `restartLoop` shares what is
left of the budget among the restarts.  The budget is used up exactly (`length_search`), the
result is the best candidate evaluated and what the moves preserve holds of all of them
(`search_ok`).  The first section has the moves that rearrange an order. -/

namespace Theory

/-! ### Moves of an order -/

section orders

variable {α : Type*}

/-- Swap two entries. -/
def exchange (l : List α) (i j : ℕ) : List α :=
  match l[i]?, l[j]? with
  | some x, some y => (l.set i y).set j x
  | _, _ => l

/-- Take entry `i` out and put it back at `j`. -/
def relocate (l : List α) (i j : ℕ) : List α :=
  match l[i]? with
  | some x => (l.eraseIdx i).insertIdx j x
  | none => l

/-- Reverse the entries from `i` to `j`. -/
def reverseBetween (l : List α) (i j : ℕ) : List α :=
  l.take i ++ ((l.drop i).take (j + 1 - i)).reverse ++ (l.drop i).drop (j + 1 - i)

variable {l : List α} {i j : ℕ}

theorem exchange_perm : (exchange l i j).Perm l := by
  unfold exchange
  cases hi : l[i]? with
  | none => exact .refl l
  | some x =>
      cases hj : l[j]? with
      | none => exact .refl l
      | some y =>
          obtain ⟨hilt, rfl⟩ := List.getElem?_eq_some_iff.mp hi
          obtain ⟨hjlt, rfl⟩ := List.getElem?_eq_some_iff.mp hj
          exact List.set_set_perm hilt hjlt

/-- The other entries stay. -/
theorem getElem?_exchange {k : ℕ} (hi : k ≠ i) (hj : k ≠ j) : (exchange l i j)[k]? = l[k]? := by
  unfold exchange
  cases l[i]? with
  | none => rfl
  | some x =>
      cases l[j]? with
      | none => rfl
      | some y =>
          dsimp only
          rw [List.getElem?_set_ne hj.symm, List.getElem?_set_ne hi.symm]

theorem relocate_perm (hj : j < l.length) : (relocate l i j).Perm l := by
  unfold relocate
  cases hi : l[i]? with
  | none => exact .refl l
  | some x =>
      obtain ⟨hilt, rfl⟩ := List.getElem?_eq_some_iff.mp hi
      have hlength : j ≤ (l.eraseIdx i).length := by
        rw [List.length_eraseIdx_of_lt hilt]
        omega
      exact (List.perm_insertIdx _ _ hlength).trans (List.getElem_cons_eraseIdx_perm hilt)

theorem reverseBetween_perm : (reverseBetween l i j).Perm l := by
  unfold reverseBetween
  have hmiddle : (((l.drop i).take (j + 1 - i)).reverse ++ (l.drop i).drop (j + 1 - i)).Perm
      (l.drop i) := by
    conv_rhs => rw [← List.take_append_drop (j + 1 - i) (l.drop i)]
    exact (List.reverse_perm _).append_right _
  rw [List.append_assoc]
  conv_rhs => rw [← List.take_append_drop i l]
  exact hmiddle.append_left _

end orders

/-! ### The best of the candidates seen -/

section best

variable {κ S : Type*} [LinearOrder S] (score : κ → S)

/-- `best` is a best one of the candidates seen. -/
structure BestSeen (seen : List κ) (best : κ) : Prop where
  mem : best ∈ seen
  le : ∀ c ∈ seen, score best ≤ score c

/-- The better of the incumbent and a candidate, the incumbent when they are equal. -/
def keepBest (best c : κ) : κ :=
  if score c < score best then c else best

variable {score} {seen : List κ} {best c : κ}

theorem bestSeen_singleton (c : κ) : BestSeen score [c] c where
  mem := List.mem_cons_self
  le d hd := by rw [List.mem_singleton.mp hd]

theorem BestSeen.keep (h : BestSeen score seen best) (c : κ) :
    BestSeen score (c :: seen) (keepBest score best c) := by
  unfold keepBest
  split_ifs with hless
  · refine ⟨List.mem_cons_self, fun d hd => ?_⟩
    rcases List.mem_cons.mp hd with rfl | hd
    · exact le_rfl
    · exact hless.le.trans (h.le d hd)
  · refine ⟨List.mem_cons_of_mem c h.mem, fun d hd => ?_⟩
    rcases List.mem_cons.mp hd with rfl | hd
    · exact not_lt.mp hless
    · exact h.le d hd

/-- A candidate that does not beat one already seen changes nothing. -/
theorem BestSeen.skip (h : BestSeen score seen best) {d : κ} (hd : d ∈ seen)
    (hle : score d ≤ score c) : BestSeen score (c :: seen) best := by
  refine ⟨List.mem_cons_of_mem c h.mem, fun e he => ?_⟩
  rcases List.mem_cons.mp he with rfl | he
  · exact (h.le d hd).trans hle
  · exact h.le e he

end best

/-! ### Hill climbing with restarts -/

/-- A running search.  The candidates evaluated so far are `seen`, the latest first. -/
structure Climb (κ E : Type*) where
  current : κ
  best : κ
  seen : List κ
  stagnation : ℕ := 0
  engine : E

/-- The options and the moves of a search. -/
structure Moves (κ E : Type*) where
  neighbor : κ → E → κ × E
  kick : κ → E → κ × E
  restart : κ → E → κ × E
  stagnationLimit : ℕ

section climbing

variable {κ E S : Type*} [LinearOrder S] (score : κ → S) (moves : Moves κ E)

/-- Evaluate a candidate and go on from there. -/
def Climb.visit (state : Climb κ E) (next : κ × E) : Climb κ E where
  current := next.1
  best := keepBest score state.best next.1
  seen := next.1 :: state.seen
  engine := next.2

/-- Evaluate a neighbour and go there when it is better. -/
def Climb.advance (state : Climb κ E) : Climb κ E :=
  let next := moves.neighbor state.current state.engine
  if score next.1 < score state.current then state.visit score next
  else
    { state with
      seen := next.1 :: state.seen
      stagnation := state.stagnation + 1
      engine := next.2 }

/-- Begin a restart: the first one at the incumbent, the others at a perturbation of it. -/
def Climb.begin (isFirst : Bool) (state : Climb κ E) : Climb κ E :=
  let start := if isFirst then state
    else state.visit score (moves.restart state.best state.engine)
  { start with stagnation := 0 }

/-- One iteration: a neighbour, then a kick when the search has stagnated and budget is left. -/
def Climb.iterate (restartEnd : ℕ) (state : Climb κ E) : Climb κ E :=
  let next := state.advance score moves
  if moves.stagnationLimit ≠ 0 ∧ moves.stagnationLimit ≤ next.stagnation ∧
      next.seen.length < restartEnd then
    next.visit score (moves.kick next.best next.engine)
  else next

@[simp] theorem Climb.seen_visit (state : Climb κ E) (next : κ × E) :
    (state.visit score next).seen = next.1 :: state.seen := rfl

theorem Climb.length_advance (state : Climb κ E) :
    (state.advance score moves).seen.length = state.seen.length + 1 := by
  unfold Climb.advance
  dsimp only
  split_ifs <;> simp

theorem Climb.length_begin_le (isFirst : Bool) (state : Climb κ E) :
    (state.begin score moves isFirst).seen.length ≤ state.seen.length + 1 := by
  unfold Climb.begin
  cases isFirst <;> simp

theorem Climb.lt_length_iterate (restartEnd : ℕ) (state : Climb κ E) :
    state.seen.length < (state.iterate score moves restartEnd).seen.length := by
  have hadvance := state.length_advance score moves
  unfold Climb.iterate
  dsimp only
  split_ifs
  · simp only [Climb.seen_visit, List.length_cons]
    omega
  · omega

theorem Climb.length_iterate_le {restartEnd : ℕ} {state : Climb κ E}
    (h : state.seen.length < restartEnd) :
    (state.iterate score moves restartEnd).seen.length ≤ restartEnd := by
  have hadvance := state.length_advance score moves
  unfold Climb.iterate
  dsimp only
  split_ifs with hkick
  · simp only [Climb.seen_visit, List.length_cons]
    omega
  · omega

/-- Iterate until the restart has used its share of the budget. -/
def climb (restartEnd : ℕ) (state : Climb κ E) : Climb κ E :=
  if state.seen.length < restartEnd then climb restartEnd (state.iterate score moves restartEnd)
  else state
termination_by restartEnd - state.seen.length
decreasing_by
  have := state.lt_length_iterate score moves restartEnd
  omega

/-- The share of one of the restarts left, rounded up. -/
def restartBudget (remainingBudget remainingRestarts : ℕ) : ℕ :=
  remainingBudget / remainingRestarts + if remainingBudget % remainingRestarts = 0 then 0 else 1

/-- The restarts left. -/
def restartLoop (maxIterations restarts : ℕ) : ℕ → Climb κ E → Climb κ E
  | 0, state => state
  | remaining + 1, state =>
      if state.seen.length < maxIterations then
        let budget := restartBudget (maxIterations - state.seen.length) (remaining + 1)
        restartLoop maxIterations restarts remaining
          (climb score moves (state.seen.length + budget)
            (state.begin score moves (remaining + 1 == restarts)))
      else state

/-- The search from a first candidate, which counts as evaluated. -/
def search (maxIterations restarts : ℕ) (first : κ) (engine : E) : Climb κ E :=
  restartLoop score moves maxIterations restarts restarts
    { current := first, best := first, seen := [first], engine := engine }

/-! ### The budget is used up -/

theorem length_climb {restartEnd : ℕ} {state : Climb κ E} (h : state.seen.length ≤ restartEnd) :
    (climb score moves restartEnd state).seen.length = restartEnd := by
  induction state using climb.induct score moves restartEnd with
  | case1 state hlt ih =>
      rw [climb, if_pos hlt]
      exact ih (Climb.length_iterate_le score moves hlt)
  | case2 state hlt =>
      rw [climb, if_neg hlt]
      omega

theorem restartBudget_pos {budget : ℕ} (restarts : ℕ) (hbudget : 0 < budget) :
    0 < restartBudget budget restarts := by
  have hdiv := Nat.div_add_mod budget restarts
  unfold restartBudget
  split_ifs with hmod
  · rw [hmod, Nat.add_zero] at hdiv
    rw [Nat.add_zero]
    refine Nat.pos_of_ne_zero fun hzero => ?_
    rw [hzero, Nat.mul_zero] at hdiv
    omega
  · exact Nat.succ_pos _

theorem restartBudget_le (budget : ℕ) {restarts : ℕ} (hrestarts : 0 < restarts) :
    restartBudget budget restarts ≤ budget := by
  have hdiv := Nat.div_add_mod budget restarts
  have hle : budget / restarts ≤ restarts * (budget / restarts) :=
    Nat.le_mul_of_pos_left _ hrestarts
  unfold restartBudget
  generalize budget / restarts = share at *
  generalize budget % restarts = left at *
  generalize restarts * share = whole at *
  split_ifs <;> omega

@[simp] theorem restartBudget_one (budget : ℕ) : restartBudget budget 1 = budget := by
  simp [restartBudget, Nat.mod_one]

theorem length_restartLoop {maxIterations restarts remaining : ℕ} {state : Climb κ E}
    (hremaining : 0 < remaining) (h : state.seen.length ≤ maxIterations) :
    (restartLoop score moves maxIterations restarts remaining state).seen.length =
      maxIterations := by
  induction remaining generalizing state with
  | zero => omega
  | succ remaining ih =>
      unfold restartLoop
      split_ifs with hlt
      · have hpos := restartBudget_pos (remaining + 1) (Nat.sub_pos_of_lt hlt)
        have hle := restartBudget_le (maxIterations - state.seen.length) (Nat.add_one_pos remaining)
        have hbegin := state.length_begin_le score moves (remaining + 1 == restarts)
        have hclimb := length_climb score moves
          (Nat.le_trans hbegin (Nat.add_le_add_left hpos _))
        rcases Nat.eq_zero_or_pos remaining with rfl | hremaining
        · rw [restartLoop, hclimb, restartBudget_one]
          omega
        · refine ih hremaining (Nat.le_trans (Nat.le_of_eq hclimb) ?_)
          omega
      · omega

/-- **A search evaluates as many candidates as it is allowed to.** -/
theorem length_search {maxIterations restarts : ℕ} (hrestarts : 0 < restarts)
    (hmax : 1 ≤ maxIterations) (first : κ) (engine : E) :
    (search score moves maxIterations restarts first engine).seen.length = maxIterations :=
  length_restartLoop score moves hrestarts hmax

/-! ### The best candidate is kept -/

/-- What every state of a search from `first` satisfies: the incumbent is the best seen, the
search stands at a candidate it has seen, and all of them satisfy `P`. -/
structure Climb.Ok (P : κ → Prop) (first : κ) (state : Climb κ E) : Prop where
  best : BestSeen score state.seen state.best
  current : state.current ∈ state.seen
  first : first ∈ state.seen
  all : ∀ c ∈ state.seen, P c

/-- The moves lead from candidates with `P` to candidates with `P`. -/
structure Moves.Keeps (moves : Moves κ E) (P : κ → Prop) : Prop where
  neighbor : ∀ c engine, P c → P (moves.neighbor c engine).1
  kick : ∀ c engine, P c → P (moves.kick c engine).1
  restart : ∀ c engine, P c → P (moves.restart c engine).1

variable {score moves} {P : κ → Prop} {first : κ} {state : Climb κ E}

theorem Climb.Ok.visit (h : state.Ok score P first) {next : κ × E} (hnext : P next.1) :
    (state.visit score next).Ok score P first where
  best := h.best.keep next.1
  current := List.mem_cons_self
  first := List.mem_cons_of_mem _ h.first
  all c hc := by
    rcases List.mem_cons.mp hc with rfl | hc
    · exact hnext
    · exact h.all c hc

theorem Climb.Ok.begin (h : state.Ok score P first) (hmoves : moves.Keeps P) (isFirst : Bool) :
    (state.begin score moves isFirst).Ok score P first := by
  have hvisit := h.visit (hmoves.restart state.best state.engine (h.all _ h.best.mem))
  unfold Climb.begin
  cases isFirst
  · exact ⟨hvisit.best, hvisit.current, hvisit.first, hvisit.all⟩
  · exact ⟨h.best, h.current, h.first, h.all⟩

theorem Climb.Ok.advance (h : state.Ok score P first) (hmoves : moves.Keeps P) :
    (state.advance score moves).Ok score P first := by
  have hnext := hmoves.neighbor state.current state.engine (h.all _ h.current)
  unfold Climb.advance
  dsimp only
  split_ifs with hless
  · exact h.visit hnext
  · refine ⟨h.best.skip h.current (not_lt.mp hless), List.mem_cons_of_mem _ h.current,
      List.mem_cons_of_mem _ h.first, ?_⟩
    exact (h.visit hnext).all

theorem Climb.Ok.iterate (h : state.Ok score P first) (hmoves : moves.Keeps P) (restartEnd : ℕ) :
    (state.iterate score moves restartEnd).Ok score P first := by
  have hadvance := h.advance hmoves
  unfold Climb.iterate
  dsimp only
  split_ifs
  · exact hadvance.visit (hmoves.kick _ _ (hadvance.all _ hadvance.best.mem))
  · exact hadvance

theorem Climb.Ok.climb (h : state.Ok score P first) (hmoves : moves.Keeps P) (restartEnd : ℕ) :
    (climb score moves restartEnd state).Ok score P first := by
  induction state using climb.induct score moves restartEnd with
  | case1 state hlt ih =>
      rw [Theory.climb, if_pos hlt]
      exact ih (h.iterate hmoves restartEnd)
  | case2 state hlt =>
      rw [Theory.climb, if_neg hlt]
      exact h

theorem Climb.Ok.restartLoop (h : state.Ok score P first) (hmoves : moves.Keeps P)
    (maxIterations restarts remaining : ℕ) :
    (restartLoop score moves maxIterations restarts remaining state).Ok score P first := by
  induction remaining generalizing state with
  | zero => exact h
  | succ remaining ih =>
      unfold Theory.restartLoop
      split_ifs with hlt
      · exact ih (Climb.Ok.climb (h.begin hmoves _) hmoves _)
      · exact h

/-- **A search returns the best of the candidates it evaluates**, and they all satisfy what the
first one does and the moves preserve. -/
theorem search_ok (hmoves : moves.Keeps P) (maxIterations restarts : ℕ) (hfirst : P first)
    (engine : E) :
    (search score moves maxIterations restarts first engine).Ok score P first := by
  refine Climb.Ok.restartLoop ⟨bestSeen_singleton first, List.mem_cons_self, List.mem_cons_self,
    fun c hc => ?_⟩ hmoves maxIterations restarts restarts
  rw [List.mem_singleton.mp hc]
  exact hfirst

end climbing

end Theory
