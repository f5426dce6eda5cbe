import Mathlib.Algebra.BigOperators.Group.List.Basic
import Mathlib.Algebra.Order.Monoid.Unbundled.Basic
import Mathlib.Algebra.Order.Monoid.Defs
import Mathlib.Data.List.Basic
import Mathlib.Tactic.SplitIfs

/-! # Sweeps that remember a window

The items `0, 1, …` get their colours one after the other.  A step may refuse a colouring and
has a price; a `Sweep` also says which earlier items are remembered after each step.  A run
keeps, for everything that can be remembered, one cheapest entry (`keepCheapest`), each with
its predecessor.  `trace_spec`: following the predecessors back gives a colouring that fits and
has the cost of the entry.  `exists_entry`: no colouring that fits is cheaper than the entry
for what is remembered of it. -/

namespace Theory

/-! ### The cheapest entry of each key -/

section cheapest

variable {ε K M : Type*} [DecidableEq K] [LinearOrder M] (key : ε → K) (cost : ε → M)

/-- Add a candidate, or put it in the place of a dearer entry with its key. -/
def keepCheapest (entries : List ε) (candidate : ε) : List ε :=
  match entries.findIdx? fun entry => key entry = key candidate with
  | none => entries ++ [candidate]
  | some i =>
      if (entries.getD i candidate |> cost) > cost candidate then entries.set i candidate
      else entries

variable {key cost}

theorem mem_keepCheapest {entries : List ε} {candidate entry : ε}
    (h : entry ∈ keepCheapest key cost entries candidate) : entry ∈ entries ∨ entry = candidate := by
  unfold keepCheapest at h
  split at h
  · obtain h | h := List.mem_append.mp h
    · exact .inl h
    · exact .inr (List.mem_singleton.mp h)
  · split_ifs at h
    · exact List.mem_or_eq_of_mem_set h
    · exact .inl h

/-- Nothing gets dearer, and the candidate is covered. -/
theorem exists_keepCheapest {entries : List ε} {candidate entry : ε}
    (h : entry ∈ entries ∨ entry = candidate) :
    ∃ kept ∈ keepCheapest key cost entries candidate,
      key kept = key entry ∧ cost kept ≤ cost entry := by
  unfold keepCheapest
  split
  · exact ⟨entry, by rw [List.mem_append, List.mem_singleton]; exact h, rfl, le_refl _⟩
  · next i hfind =>
      obtain ⟨hi, hkey, -⟩ := List.findIdx?_eq_some_iff_getElem.mp hfind
      have hkey' : key entries[i] = key candidate := by simpa using hkey
      have hget : entries.getD i candidate = entries[i] := by
        rw [List.getD_eq_getElem?_getD, List.getElem?_eq_getElem hi, Option.getD_some]
      rw [hget]
      split_ifs with hcheap
      · have hset : candidate ∈ entries.set i candidate := List.mem_set hi _
        obtain hentry | rfl := h
        · obtain ⟨j, hj, rfl⟩ := List.getElem_of_mem hentry
          by_cases hij : i = j
          · subst hij
            exact ⟨candidate, hset, hkey'.symm, hcheap.le⟩
          · refine ⟨entries[j], List.mem_iff_getElem.mpr ⟨j, by rwa [List.length_set], ?_⟩, rfl,
              le_refl _⟩
            exact List.getElem_set_of_ne hij _ _
        · exact ⟨entry, hset, rfl, le_refl _⟩
      · obtain hentry | rfl := h
        · exact ⟨entry, hentry, rfl, le_refl _⟩
        · exact ⟨entries[i], List.getElem_mem hi, hkey', not_lt.mp hcheap⟩

end cheapest

/-! ### Sweeps -/

structure Sweep (κ M : Type*) where
  /-- The items remembered once the items below `r` have their colours. -/
  window : ℕ → List ℕ
  fits : ℕ → (ℕ → κ) → Prop
  price : ℕ → (ℕ → κ) → M
  windowPast : ∀ r, ∀ i ∈ window r, i < r
  fitsPast : ∀ k c c', (∀ i ≤ k, c i = c' i) → fits k c → fits k c'
  pricePast : ∀ k c c', (∀ i ≤ k, c i = c' i) → price k c = price k c'

/-- A colouring so far: what is remembered of it, its cost, the entry it extends and its last
colour. -/
structure SweepEntry (κ M : Type*) where
  key : List κ
  cost : M
  predecessor : ℕ
  color : κ

namespace Sweep

variable {κ M : Type*} (S : Sweep κ M)

/-- What is remembered of a colouring. -/
def memory (r : ℕ) (c : ℕ → κ) : List κ := (S.window r).map c

/-- The items below `r` fit. -/
def Fits (r : ℕ) (c : ℕ → κ) : Prop := ∀ k < r, S.fits k c

variable {S}

theorem memory_congr {r : ℕ} {c c' : ℕ → κ} (h : ∀ i < r, c i = c' i) :
    S.memory r c = S.memory r c' :=
  List.map_congr_left fun i hi => h i (S.windowPast r i hi)

theorem Fits.congr {r : ℕ} {c c' : ℕ → κ} (h : ∀ i < r, c i = c' i) (hfits : S.Fits r c) :
    S.Fits r c' :=
  fun k hk => S.fitsPast k c c' (fun i hi => h i (by omega)) (hfits k hk)

theorem Fits.succ {r : ℕ} {c : ℕ → κ} (h : S.Fits r c) (hr : S.fits r c) : S.Fits (r + 1) c := by
  intro k hk
  obtain hlt | rfl := Nat.lt_succ_iff_lt_or_eq.mp hk
  · exact h k hlt
  · exact hr

theorem window_zero : S.window 0 = [] := by
  rw [List.eq_nil_iff_forall_not_mem]
  intro i hi
  exact absurd (S.windowPast 0 i hi) (Nat.not_lt_zero i)

variable [AddCommMonoid M]

variable (S) in
def cost (r : ℕ) (c : ℕ → κ) : M := ((List.range r).map fun k => S.price k c).sum

theorem cost_congr {r : ℕ} {c c' : ℕ → κ} (h : ∀ i < r, c i = c' i) : S.cost r c = S.cost r c' := by
  unfold cost
  refine congrArg List.sum (List.map_congr_left fun k hk => ?_)
  have := List.mem_range.mp hk
  exact S.pricePast k c c' fun i hi => h i (by omega)

theorem cost_succ (r : ℕ) (c : ℕ → κ) : S.cost (r + 1) c = S.cost r c + S.price r c := by
  unfold cost
  rw [List.range_succ, List.map_append, List.sum_append]
  simp

/-! ### Runs -/

variable [LinearOrder M]

/-- The entries of a step and of the next one. -/
structure Extends (S : Sweep κ M) (r : ℕ) (layer next : List (SweepEntry κ M)) : Prop where
  sound : ∀ e ∈ next, ∃ p, layer[e.predecessor]? = some p ∧
    ∀ c, p.key = S.memory r c → c r = e.color →
      S.fits r c ∧ e.key = S.memory (r + 1) c ∧ e.cost = p.cost + S.price r c
  complete : ∀ p ∈ layer, ∀ c, p.key = S.memory r c → S.fits r c →
    ∃ e ∈ next, e.key = S.memory (r + 1) c ∧ e.cost ≤ p.cost + S.price r c

/-- The layers of a run over the first `n` items. -/
structure IsRun (S : Sweep κ M) (n : ℕ) (layers : ℕ → List (SweepEntry κ M)) : Prop where
  start : ∀ e ∈ layers 0, e.key = [] ∧ e.cost = 0
  startNe : layers 0 ≠ []
  steps : ∀ r < n, S.Extends r (layers r) (layers (r + 1))

/-- The colouring found by following the predecessors back. -/
def trace [Inhabited κ] (layers : ℕ → List (SweepEntry κ M)) : ℕ → ℕ → ℕ → κ
  | 0, _ => fun _ => default
  | r + 1, index =>
      match (layers (r + 1))[index]? with
      | none => fun _ => default
      | some e => Function.update (trace layers r e.predecessor) r e.color

variable {n : ℕ} {layers : ℕ → List (SweepEntry κ M)}

/-- Following the predecessors of an entry back gives a colouring with its cost. -/
theorem IsRun.trace_spec [Inhabited κ] (h : S.IsRun n layers) {r : ℕ} (hr : r ≤ n) {index : ℕ}
    {e : SweepEntry κ M} (he : (layers r)[index]? = some e) :
    S.Fits r (trace layers r index) ∧ e.key = S.memory r (trace layers r index) ∧
      e.cost = S.cost r (trace layers r index) := by
  induction r generalizing index e with
  | zero =>
      obtain ⟨hkey, hcost⟩ := h.start e (List.mem_of_getElem? he)
      refine ⟨fun k hk => absurd hk (Nat.not_lt_zero k), ?_, hcost⟩
      rw [hkey, memory, window_zero, List.map_nil]
  | succ r ih =>
      obtain ⟨p, hp, hstep⟩ := (h.steps r hr).sound e (List.mem_of_getElem? he)
      obtain ⟨hfits, hkey, hcost⟩ := ih (by omega) hp
      have htrace : trace layers (r + 1) index =
          Function.update (trace layers r e.predecessor) r e.color := by
        rw [trace, he]
      have hbelow : ∀ i < r, trace layers r e.predecessor i = trace layers (r + 1) index i := by
        intro i hi
        rw [htrace, Function.update_of_ne (by omega)]
      obtain ⟨hfitsLast, hkeyLast, hcostLast⟩ := hstep (trace layers (r + 1) index)
        (hkey.trans (memory_congr hbelow)) (by rw [htrace, Function.update_self])
      refine ⟨(Fits.congr hbelow hfits).succ hfitsLast, hkeyLast, ?_⟩
      rw [hcostLast, hcost, cost_congr hbelow, cost_succ]

/-- No colouring that fits is cheaper than the entry for what is remembered of it. -/
theorem IsRun.exists_entry [IsOrderedAddMonoid M] (h : S.IsRun n layers) {r : ℕ} (hr : r ≤ n)
    {c : ℕ → κ} (hfits : S.Fits r c) :
    ∃ e ∈ layers r, e.key = S.memory r c ∧ e.cost ≤ S.cost r c := by
  induction r with
  | zero =>
      obtain ⟨e, he⟩ := List.exists_mem_of_ne_nil _ h.startNe
      obtain ⟨hkey, hcost⟩ := h.start e he
      refine ⟨e, he, ?_, hcost.le⟩
      rw [hkey, memory, window_zero, List.map_nil]
  | succ r ih =>
      obtain ⟨p, hp, hkey, hcost⟩ := ih (by omega) fun k hk => hfits k (by omega)
      obtain ⟨e, he, hkeyLast, hcostLast⟩ :=
        (h.steps r hr).complete p hp c hkey (hfits r (Nat.lt_succ_self r))
      refine ⟨e, he, hkeyLast, hcostLast.trans ?_⟩
      rw [cost_succ]
      exact add_le_add_left hcost _

end Sweep

end Theory
