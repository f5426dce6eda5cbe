import DsaSolver.CardinalityMatching
import Mathlib.Data.List.Range
import Mathlib.Tactic.Ring

/-! # The network of a cost matrix

What the loops of `matchingNetwork` build: `networkRow` lists the arcs that leave a vertex, while
the loops run by how many sources, pairs and sinks are done.  Every arc has its reverse at the
place it names (`partner`). -/

namespace Dsa

section rows

variable (costs : List (List UInt64)) (leftCount rightCount : ℕ)

/-- The arc from the source to a row, and its reverse. -/
def sourceArc (l : ℕ) : FlowArc := { target := 1 + l, reverse := 0, capacity := 1 }

def sourceReverse (l : ℕ) : FlowArc := { target := 0, reverse := l }

/-- The arc from a row to a column, and its reverse. -/
def pairArc (l r : ℕ) : FlowArc where
  target := 1 + leftCount + r
  reverse := l
  capacity := 1
  cost := (costAt costs l r).toInt64
  matchingArc := true
  right := r

def pairReverse (r l : ℕ) : FlowArc :=
  { target := 1 + l, reverse := 1 + r, cost := -(costAt costs l r).toInt64 }

/-- The arc from a column to the sink, and its reverse. -/
def sinkArc (r : ℕ) : FlowArc :=
  { target := 1 + leftCount + rightCount, reverse := r, capacity := 1 }

def sinkReverse (r : ℕ) : FlowArc := { target := 1 + leftCount + r, reverse := leftCount }

/-- The arcs that leave a vertex, when the source has `sources` arcs, the row `l` has `forward l`
pairs, the column `r` has `backward r` pairs and `sinks` columns reach the sink. -/
def networkRow (sources : ℕ) (forward backward : ℕ → ℕ) (sinks v : ℕ) : List FlowArc :=
  if v = 0 then (List.range sources).map sourceArc
  else if v < 1 + leftCount then
    (if v - 1 < sources then [sourceReverse (v - 1)] else []) ++
      (List.range (forward (v - 1))).map (pairArc costs leftCount (v - 1))
  else if v < 1 + leftCount + rightCount then
    (List.range (backward (v - 1 - leftCount))).map (pairReverse costs (v - 1 - leftCount)) ++
      if v - 1 - leftCount < sinks then [sinkArc leftCount rightCount (v - 1 - leftCount)] else []
  else (List.range sinks).map (sinkReverse leftCount)

def networkOf (sources : ℕ) (forward backward : ℕ → ℕ) (sinks : ℕ) : FlowGraph :=
  (List.range (leftCount + rightCount + 2)).map
    (networkRow costs leftCount rightCount sources forward backward sinks)

end rows

section build

variable {costs : List (List UInt64)} {leftCount rightCount : ℕ}

theorem getD_map_range {α : Type} {n v : ℕ} (f : ℕ → List α) (hv : v < n) :
    ((List.range n).map f).getD v [] = f v := by
  simp [List.getD_eq_getElem?_getD, hv]

theorem modify_map_range {α : Type} {n v : ℕ} (f : ℕ → α) (g : α → α) :
    ((List.range n).map f).modify v g =
      (List.range n).map fun w => if w = v then g (f w) else f w := by
  apply List.ext_getElem (by simp)
  intro i hi _
  simp [List.getElem_modify, eq_comm]

/-- Adding an arc to a graph that is given row by row. -/
theorem addFlowArc_map_range {n start target : ℕ} {f : ℕ → List FlowArc} (hstart : start < n)
    (htarget : target < n) (hne : start ≠ target) (capacity : ℤ) (cost : Int64) (matchingArc : Bool)
    (right : ℕ) :
    addFlowArc ((List.range n).map f) start target capacity cost matchingArc right =
      (List.range n).map fun v =>
        if v = start then
          f v ++ [{ target, reverse := (f target).length, capacity, cost, matchingArc, right }]
        else if v = target then
          f v ++ [{ target := start, reverse := (f start).length, capacity := 0, cost := -cost }]
        else f v := by
  rw [addFlowArc, getD_map_range f hstart, getD_map_range f htarget, modify_map_range, modify_map_range]
  apply List.map_congr_left
  intro v _
  by_cases hv : v = start
  · subst hv
    simp [hne]
  · simp [hv]

theorem networkRow_zero {sources sinks : ℕ} {forward backward : ℕ → ℕ} :
    networkRow costs leftCount rightCount sources forward backward sinks 0 =
      (List.range sources).map sourceArc := if_pos rfl

theorem networkRow_left {sources sinks l : ℕ} {forward backward : ℕ → ℕ} (hl : l < leftCount) :
    networkRow costs leftCount rightCount sources forward backward sinks (1 + l) =
      (if l < sources then [sourceReverse l] else []) ++
        (List.range (forward l)).map (pairArc costs leftCount l) := by
  rw [networkRow, if_neg (by omega), if_pos (by omega), Nat.add_sub_cancel_left]

theorem networkRow_right {sources sinks r : ℕ} {forward backward : ℕ → ℕ} (hr : r < rightCount) :
    networkRow costs leftCount rightCount sources forward backward sinks (1 + leftCount + r) =
      (List.range (backward r)).map (pairReverse costs r) ++
        if r < sinks then [sinkArc leftCount rightCount r] else [] := by
  rw [networkRow, if_neg (by omega), if_neg (by omega), if_pos (by omega)]
  have hsub : 1 + leftCount + r - 1 - leftCount = r := by omega
  rw [hsub]

theorem networkRow_sink {sources sinks : ℕ} {forward backward : ℕ → ℕ} :
    networkRow costs leftCount rightCount sources forward backward sinks
      (1 + leftCount + rightCount) = (List.range sinks).map (sinkReverse leftCount) := by
  rw [networkRow, if_neg (by omega), if_neg (by omega), if_neg (by omega)]

/-- A vertex is the source, a row, a column or the sink. -/
theorem vertex_cases {v : ℕ} (hv : v < leftCount + rightCount + 2) :
    v = 0 ∨ (∃ l < leftCount, v = 1 + l) ∨ (∃ r < rightCount, v = 1 + leftCount + r) ∨
      v = 1 + leftCount + rightCount := by
  by_cases h0 : v = 0
  · exact .inl h0
  by_cases hleft : v < 1 + leftCount
  · exact .inr (.inl ⟨v - 1, by omega, by omega⟩)
  by_cases hright : v < 1 + leftCount + rightCount
  · exact .inr (.inr (.inl ⟨v - 1 - leftCount, by omega, by omega⟩))
  · exact .inr (.inr (.inr (by omega)))

theorem addFlowArc_source {l : ℕ} {forward backward : ℕ → ℕ} (hl : l < leftCount)
    (hforward : forward l = 0) :
    addFlowArc (networkOf costs leftCount rightCount l forward backward 0) 0 (1 + l) 1 0 false 0 =
      networkOf costs leftCount rightCount (l + 1) forward backward 0 := by
  unfold networkOf
  rw [addFlowArc_map_range (by omega) (by omega) (by omega)]
  apply List.map_congr_left
  intro v hv
  rw [networkRow_left hl, networkRow_zero, if_neg (lt_irrefl l), hforward]
  obtain rfl | ⟨l', hl', rfl⟩ | ⟨r, hr, rfl⟩ | rfl := vertex_cases (List.mem_range.mp hv)
  · rw [if_pos rfl, networkRow_zero, networkRow_zero, List.range_succ, List.map_append]
    rfl
  · rw [if_neg (by omega), networkRow_left hl', networkRow_left hl']
    by_cases heq : l' = l
    · subst heq
      simp [hforward, sourceReverse]
    · rw [if_neg (by omega)]
      have hiff : l' < l + 1 ↔ l' < l := by omega
      simp only [hiff]
  · rw [if_neg (by omega), if_neg (by omega), networkRow_right hr, networkRow_right hr]
  · rw [if_neg (by omega), if_neg (by omega), networkRow_sink, networkRow_sink]

theorem addFlowArc_pair {sources l r : ℕ} {forward backward : ℕ → ℕ} (hl : l < leftCount)
    (hr : r < rightCount) (hsources : l < sources) (hforward : forward l = r)
    (hbackward : backward r = l) :
    addFlowArc (networkOf costs leftCount rightCount sources forward backward 0) (1 + l)
        (1 + leftCount + r) 1 (costAt costs l r).toInt64 true r =
      networkOf costs leftCount rightCount sources (Function.update forward l (r + 1))
        (Function.update backward r (l + 1)) 0 := by
  unfold networkOf
  rw [addFlowArc_map_range (by omega) (by omega) (by omega)]
  apply List.map_congr_left
  intro v hv
  rw [networkRow_left hl, networkRow_right hr, if_pos hsources]
  obtain rfl | ⟨l', hl', rfl⟩ | ⟨r', hr', rfl⟩ | rfl := vertex_cases (List.mem_range.mp hv)
  · rw [if_neg (by omega), if_neg (by omega), networkRow_zero, networkRow_zero]
  · by_cases heq : l' = l
    · subst heq
      rw [if_pos rfl, networkRow_left hl', networkRow_left hl', Function.update_self, List.range_succ,
        List.map_append, hforward, List.append_assoc]
      simp [pairArc, hbackward]
    · rw [if_neg (by omega), if_neg (by omega), networkRow_left hl', networkRow_left hl',
        Function.update_of_ne heq]
  · by_cases heq : r' = r
    · subst heq
      rw [if_neg (by omega), if_pos rfl, networkRow_right hr', networkRow_right hr',
        Function.update_self, List.range_succ, List.map_append, hbackward]
      simp [pairReverse, hforward, Nat.add_comm]
    · rw [if_neg (by omega), if_neg (by omega), networkRow_right hr', networkRow_right hr',
        Function.update_of_ne heq]
  · rw [if_neg (by omega), if_neg (by omega), networkRow_sink, networkRow_sink]

theorem addFlowArc_sink {r : ℕ} {forward backward : ℕ → ℕ} (hr : r < rightCount)
    (hbackward : backward r = leftCount) :
    addFlowArc (networkOf costs leftCount rightCount leftCount forward backward r)
        (1 + leftCount + r) (1 + leftCount + rightCount) 1 0 false 0 =
      networkOf costs leftCount rightCount leftCount forward backward (r + 1) := by
  unfold networkOf
  rw [addFlowArc_map_range (by omega) (by omega) (by omega)]
  apply List.map_congr_left
  intro v hv
  rw [networkRow_right hr, networkRow_sink, if_neg (lt_irrefl r)]
  obtain rfl | ⟨l', hl', rfl⟩ | ⟨r', hr', rfl⟩ | rfl := vertex_cases (List.mem_range.mp hv)
  · rw [if_neg (by omega), if_neg (by omega), networkRow_zero, networkRow_zero]
  · rw [if_neg (by omega), if_neg (by omega), networkRow_left hl', networkRow_left hl']
  · rw [networkRow_right hr', networkRow_right hr']
    by_cases heq : r' = r
    · subst heq
      rw [if_pos rfl, if_neg (lt_irrefl r'), if_pos (by omega)]
      simp [sinkArc]
    · rw [if_neg (by omega), if_neg (by omega)]
      have hiff : r' < r + 1 ↔ r' < r := by omega
      simp only [hiff]
  · rw [if_neg (by omega), if_pos rfl, networkRow_sink, networkRow_sink, List.range_succ,
      List.map_append]
    simp [sinkReverse, hbackward]

/-- The rows below `l` have all their pairs, the row `l` has `r` of them. -/
def forwardCount (rightCount l r : ℕ) : ℕ → ℕ := fun row =>
  if row < l then rightCount else if row = l then r else 0

/-- The columns below `r` have the pair with the row `l`, the others only those before. -/
def backwardCount (l r : ℕ) : ℕ → ℕ := fun column => if column < r then l + 1 else l

theorem foldl_addFlowArc_pair {sources l : ℕ} (hl : l < leftCount) (hsources : l < sources) {r : ℕ}
    (hr : r ≤ rightCount) :
    (List.range r).foldl (fun graph right => addFlowArc graph (1 + l) (1 + leftCount + right) 1
        (costAt costs l right).toInt64 true right)
      (networkOf costs leftCount rightCount sources (forwardCount rightCount l 0)
        (backwardCount l 0) 0) =
      networkOf costs leftCount rightCount sources (forwardCount rightCount l r)
        (backwardCount l r) 0 := by
  induction r with
  | zero => rfl
  | succ r ih =>
      rw [List.range_succ, List.foldl_append, ih (by omega), List.foldl_cons, List.foldl_nil,
        addFlowArc_pair hl (by omega) hsources (by simp [forwardCount]) (by simp [backwardCount])]
      have hforward : Function.update (forwardCount rightCount l r) l (r + 1) =
          forwardCount rightCount l (r + 1) := by
        funext row
        by_cases hrow : row = l
        · subst hrow
          simp [forwardCount]
        · rw [Function.update_of_ne hrow]
          simp [forwardCount, hrow]
      have hbackward : Function.update (backwardCount l r) r (l + 1) = backwardCount l (r + 1) := by
        funext column
        by_cases hcolumn : column = r
        · subst hcolumn
          simp [backwardCount]
        · rw [Function.update_of_ne hcolumn]
          have hiff : column < r + 1 ↔ column < r := by omega
          simp only [backwardCount, hiff]
      rw [hforward, hbackward]

/-- The finished network. -/
def fullNetwork (costs : List (List UInt64)) (leftCount rightCount : ℕ) : FlowGraph :=
  networkOf costs leftCount rightCount leftCount (fun _ => rightCount) (fun _ => leftCount) rightCount

/-- Only the entries of rows and columns that exist matter. -/
theorem networkOf_congr {sources sinks : ℕ} {forward forward' backward backward' : ℕ → ℕ}
    (hforward : ∀ l < leftCount, forward l = forward' l)
    (hbackward : ∀ r < rightCount, backward r = backward' r) :
    networkOf costs leftCount rightCount sources forward backward sinks =
      networkOf costs leftCount rightCount sources forward' backward' sinks := by
  apply List.map_congr_left
  intro v hv
  obtain rfl | ⟨l, hl, rfl⟩ | ⟨r, hr, rfl⟩ | rfl := vertex_cases (List.mem_range.mp hv)
  · rw [networkRow_zero, networkRow_zero]
  · rw [networkRow_left hl, networkRow_left hl, hforward l hl]
  · rw [networkRow_right hr, networkRow_right hr, hbackward r hr]
  · rw [networkRow_sink, networkRow_sink]

theorem foldl_addFlowArc_left {l : ℕ} (hl : l ≤ leftCount) :
    (List.range l).foldl (fun graph left =>
        (List.range rightCount).foldl (fun graph right =>
          addFlowArc graph (1 + left) (1 + leftCount + right) 1 (costAt costs left right).toInt64
            true right) (addFlowArc graph 0 (1 + left) 1 0 false 0))
      (List.replicate (leftCount + rightCount + 2) []) =
      networkOf costs leftCount rightCount l (forwardCount rightCount l 0) (fun _ => l) 0 := by
  induction l with
  | zero =>
      rw [List.range_zero, List.foldl_nil]
      unfold networkOf
      apply List.ext_getElem (by simp)
      intro v hv _
      rw [List.length_replicate] at hv
      rw [List.getElem_replicate, List.getElem_map, List.getElem_range]
      obtain rfl | ⟨l', hl', rfl⟩ | ⟨r', hr', rfl⟩ | rfl := vertex_cases hv
      · rw [networkRow_zero]
        rfl
      · rw [networkRow_left hl']
        simp [forwardCount]
      · rw [networkRow_right hr']
        simp
      · rw [networkRow_sink]
        rfl
  | succ l ih =>
      rw [List.range_succ, List.foldl_append, ih (by omega), List.foldl_cons, List.foldl_nil,
        addFlowArc_source (by omega) (by simp [forwardCount])]
      have hpair := @foldl_addFlowArc_pair costs leftCount rightCount (l + 1) l (by omega)
        (Nat.lt_succ_self l) rightCount le_rfl
      have hstart : backwardCount l 0 = fun _ => l := by
        funext column
        simp [backwardCount]
      rw [hstart] at hpair
      rw [hpair]
      apply networkOf_congr
      · intro row hrow
        simp only [forwardCount]
        split_ifs <;> omega
      · intro column hcolumn
        simp [backwardCount, hcolumn]

theorem foldl_addFlowArc_sink {r : ℕ} {forward : ℕ → ℕ} (hr : r ≤ rightCount) :
    (List.range r).foldl (fun graph right =>
        addFlowArc graph (1 + leftCount + right) (1 + leftCount + rightCount) 1 0 false 0)
      (networkOf costs leftCount rightCount leftCount forward (fun _ => leftCount) 0) =
      networkOf costs leftCount rightCount leftCount forward (fun _ => leftCount) r := by
  induction r with
  | zero => rfl
  | succ r ih =>
      have hr' : r < rightCount := hr
      rw [List.range_succ, List.foldl_append, ih hr'.le, List.foldl_cons, List.foldl_nil]
      exact addFlowArc_sink hr' rfl

/-- What the loops of `matchingNetwork` build. -/
theorem matchingNetwork_eq (costs : List (List UInt64)) (leftCount rightCount : ℕ) :
    matchingNetwork costs leftCount rightCount = fullNetwork costs leftCount rightCount := by
  have hsize : 1 + leftCount + rightCount + 1 = leftCount + rightCount + 2 := by omega
  unfold matchingNetwork
  dsimp only
  rw [hsize, foldl_addFlowArc_left (le_refl leftCount), foldl_addFlowArc_sink (le_refl rightCount)]
  apply networkOf_congr
  · intro l hl
    simp [forwardCount, hl]
  · exact fun _ _ => rfl

end build

end Dsa
