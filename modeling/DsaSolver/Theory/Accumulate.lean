import DsaSolver.Theory.Word
import Std.Data.TreeMap.Lemmas

/-! # Accumulating loops

Loops that add up words with saturation, that take a maximum, or that add into the entry of an
ordered map, read as sums and bounds: `foldl_satAdd`, `foldl_max_le_iff` and `total_insert`. -/

namespace Theory

/-! ### Saturating sums -/

/-- A loop of saturating additions. -/
theorem foldl_satAdd {α : Type*} (p : α → Bool) (f : α → UInt64) (a : UInt64) (l : List α) :
    l.foldl (fun cost x => if p x then satAdd cost (f x) else cost) a =
      ((⟨a⟩ : Sat) + (l.map fun x => if p x then (⟨f x⟩ : Sat) else 0).sum).val := by
  induction l generalizing a with
  | nil => simp
  | cons x l ih =>
      rw [List.foldl_cons, ih, List.map_cons, List.sum_cons]
      by_cases hx : p x
      · rw [if_pos hx, if_pos hx, ← add_assoc]
        rfl
      · rw [if_neg hx, if_neg hx, zero_add]

theorem foldl_satAdd_all {α : Type*} (f : α → UInt64) (a : UInt64) (l : List α) :
    l.foldl (fun cost x => satAdd cost (f x)) a =
      ((⟨a⟩ : Sat) + (l.map fun x => (⟨f x⟩ : Sat)).sum).val := by
  have := foldl_satAdd (fun _ => true) f a l
  simpa using this

/-- A loop of saturating additions ends at zero when every added cost is zero. -/
theorem foldl_satAdd_eq_zero_iff {α : Type*} (p : α → Bool) (f : α → UInt64) (a : UInt64)
    (l : List α) :
    l.foldl (fun cost x => if p x then satAdd cost (f x) else cost) a = 0 ↔
      a = 0 ∧ ∀ x ∈ l, p x = true → f x = 0 := by
  induction l generalizing a with
  | nil => simp
  | cons x rest ih =>
      rw [List.foldl_cons, ih, List.forall_mem_cons]
      by_cases hx : p x = true
      · have hadd : satAdd a (f x) = 0 ↔ a = 0 ∧ f x = 0 := by
          rw [← UInt64.toNat_inj, ← UInt64.toNat_inj, ← UInt64.toNat_inj, toNat_satAdd]
          simp only [UInt64.toNat_zero]
          omega
        rw [if_pos hx, hadd]
        simp only [hx, forall_const, and_assoc]
      · rw [if_neg hx]
        simp [hx]

/-- A loop that adds a value at each step adds their sum. -/
theorem foldl_eq_add_sum {α σ M : Type*} [AddMonoid M] {f : σ → M} {g : α → M}
    {step : σ → α → σ} (hstep : ∀ state x, f (step state x) = f state + g x) (l : List α)
    (start : σ) : f (l.foldl step start) = f start + (l.map g).sum := by
  induction l generalizing start with
  | nil => exact (add_zero _).symm
  | cons x rest ih => rw [List.foldl_cons, ih, hstep, List.map_cons, List.sum_cons, add_assoc]

theorem sum_map_filterMap {α β M : Type*} [AddCommMonoid M] (f : α → Option β) (g : β → M)
    (l : List α) : ((l.filterMap f).map g).sum = (l.map fun x => (f x).elim 0 g).sum := by
  induction l with
  | nil => rfl
  | cons x l ih =>
      rw [List.map_cons, List.sum_cons, ← ih]
      cases hx : f x with
      | none =>
          rw [List.filterMap_cons_none hx]
          exact (zero_add _).symm
      | some y =>
          rw [List.filterMap_cons_some hx, List.map_cons, List.sum_cons]
          rfl

/-! ### Maxima -/

theorem foldl_max_le_iff {α β : Type*} [LinearOrder β] (f : α → β) (a b : β) (l : List α) :
    l.foldl (fun peak x => max peak (f x)) a ≤ b ↔ a ≤ b ∧ ∀ x ∈ l, f x ≤ b := by
  induction l generalizing a with
  | nil => simp
  | cons x l ih =>
      rw [List.foldl_cons, ih, max_le_iff, List.forall_mem_cons, and_assoc]

/-! ### Sums over ordered maps -/

section total

variable {α β : Type*} {cmp : α → α → Ordering} {M : Type*} [AddCommMonoid M]

/-- The sum of a quantity over the entries of a map. -/
def total (m : Std.TreeMap α β cmp) (g : α → β → M) : M := (m.toList.map fun e => g e.1 e.2).sum

theorem total_empty (g : α → β → M) : total (∅ : Std.TreeMap α β cmp) g = 0 := rfl

theorem total_add (m : Std.TreeMap α β cmp) (g g' : α → β → M) :
    total m (fun k v => g k v + g' k v) = total m g + total m g' := by
  unfold total
  rw [← List.sum_map_add]

theorem total_congr {m : Std.TreeMap α β cmp} {g g' : α → β → M}
    (h : ∀ e ∈ m.toList, g e.1 e.2 = g' e.1 e.2) : total m g = total m g' := by
  unfold total
  rw [List.map_congr_left h]

theorem total_le [PartialOrder M] [IsOrderedAddMonoid M] {m : Std.TreeMap α β cmp}
    {g g' : α → β → M} (h : ∀ e ∈ m.toList, g e.1 e.2 ≤ g' e.1 e.2) : total m g ≤ total m g' :=
  List.sum_le_sum h

variable [Std.TransCmp cmp] [Std.LawfulEqCmp cmp] [DecidableEq α]

theorem filter_key_perm (m : Std.TreeMap α β cmp) (k : α) :
    m.toList.Perm ((m[k]?.toList.map fun v => (k, v)) ++
      m.toList.filter (fun x => decide ¬(k == x.1) = true)) := by
  cases hk : m[k]? with
  | none =>
      have hall : m.toList.filter (fun x => decide ¬(k == x.1) = true) = m.toList := by
        rw [List.filter_eq_self]
        intro x hx
        have hne : k ≠ x.1 := by
          rintro rfl
          have := Std.TreeMap.mem_toList_iff_getElem?_eq_some.mp hx
          rw [this] at hk
          cases hk
        simpa using hne
      rw [hall]
      exact List.Perm.refl _
  | some v =>
      have h := Std.TreeMap.toList_insert_perm (t := m) (k := k) (v := v)
      have hsame : (m.insert k v).toList.Perm m.toList := by
        apply (List.perm_ext_iff_of_nodup ?_ ?_).mpr
        · rintro ⟨a, b⟩
          rw [Std.TreeMap.mem_toList_iff_getElem?_eq_some,
            Std.TreeMap.mem_toList_iff_getElem?_eq_some, Std.TreeMap.getElem?_insert]
          by_cases hc : cmp k a = Ordering.eq
          · obtain rfl := Std.LawfulEqCmp.compare_eq_iff_eq.mp hc
            rw [if_pos hc, hk]
          · rw [if_neg hc]
        · exact (Std.TreeMap.distinct_keys_toList (t := m.insert k v)).imp fun hne e =>
            hne (by rw [e]; exact Std.ReflCmp.compare_self)
        · exact (Std.TreeMap.distinct_keys_toList (t := m)).imp fun hne e =>
            hne (by rw [e]; exact Std.ReflCmp.compare_self)
      exact hsame.symm.trans h

omit [DecidableEq α] in
/-- A total over the keys of a list that covers the map. -/
theorem total_eq_sum_keys {m : Std.TreeMap α β cmp} {g : α → β → M} {keys : List α}
    (hnodup : keys.Nodup) (hkeys : ∀ k ∈ m, k ∈ keys) :
    total m g = (keys.map fun k => (m[k]?).elim 0 (g k)).sum := by
  have hperm : m.toList.Perm (keys.filterMap fun k => m[k]?.map fun v => (k, v)) := by
    apply (List.perm_ext_iff_of_nodup ?_ ?_).mpr
    · rintro ⟨a, b⟩
      rw [Std.TreeMap.mem_toList_iff_getElem?_eq_some, List.mem_filterMap]
      constructor
      · intro hget
        refine ⟨a, hkeys a ?_, by rw [hget, Option.map_some]⟩
        exact Std.TreeMap.mem_iff_isSome_getElem?.mpr (Option.isSome_of_eq_some hget)
      · rintro ⟨k, -, hget⟩
        obtain ⟨v, hv, heq⟩ := Option.map_eq_some_iff.mp hget
        obtain ⟨rfl, rfl⟩ := Prod.mk.inj heq
        exact hv
    · exact (Std.TreeMap.distinct_keys_toList (t := m)).imp fun hne e =>
        hne (by rw [e]; exact Std.ReflCmp.compare_self)
    · refine hnodup.filterMap fun k k' e he he' => ?_
      obtain ⟨v, -, rfl⟩ := Option.map_eq_some_iff.mp (Option.mem_def.mp he)
      obtain ⟨v', -, heq⟩ := Option.map_eq_some_iff.mp (Option.mem_def.mp he')
      exact (Prod.mk.inj heq).1.symm
  unfold total
  rw [(hperm.map _).sum_eq, sum_map_filterMap]
  refine congrArg List.sum (List.map_congr_left fun k _ => ?_)
  cases m[k]? with
  | none => rfl
  | some v => rfl

/-- A total over keys outside which the entries add nothing. -/
theorem total_eq_sum_of_support {m : Std.TreeMap α β cmp} {g : α → β → M} {keys : List α}
    (hnodup : keys.Nodup) (hzero : ∀ e ∈ m.toList, e.1 ∉ keys → g e.1 e.2 = 0) :
    total m g = (keys.map fun k => (m[k]?).elim 0 (g k)).sum := by
  have hall : (keys ++ m.keys.filter (· ∉ keys)).Nodup := by
    refine List.nodup_append.mpr ⟨hnodup, (Std.TreeMap.nodup_keys).filter _, ?_⟩
    intro k hk k' hk' heq
    have := (List.mem_filter.mp hk').2
    rw [decide_eq_true_iff, ← heq] at this
    exact this hk
  rw [total_eq_sum_keys hall fun k hk => ?_]
  · rw [List.map_append, List.sum_append]
    refine (congrArg (_ + ·) (List.sum_eq_zero fun x hx => ?_)).trans (add_zero _)
    obtain ⟨k, hk, rfl⟩ := List.mem_map.mp hx
    have hout := (List.mem_filter.mp hk).2
    rw [decide_eq_true_iff] at hout
    cases hget : m[k]? with
    | none => rfl
    | some v => exact hzero (k, v) (Std.TreeMap.mem_toList_iff_getElem?_eq_some.mpr hget) hout
  · by_cases hmem : k ∈ keys
    · exact List.mem_append_left _ hmem
    · exact List.mem_append_right _ (List.mem_filter.mpr
        ⟨Std.TreeMap.mem_keys.mpr hk, decide_eq_true hmem⟩)

omit [DecidableEq α] in
/-- A total over the keys of a list that covers the map; an absent key adds nothing. -/
theorem total_eq_sum {m : Std.TreeMap α β cmp} {g : β → M} {absent : β} (habsent : g absent = 0)
    {keys : List α} (hnodup : keys.Nodup) (hkeys : ∀ k ∈ m, k ∈ keys) :
    total m (fun _ v => g v) = (keys.map fun k => g (m.getD k absent)).sum := by
  rw [total_eq_sum_keys hnodup hkeys]
  refine congrArg List.sum (List.map_congr_left fun k _ => ?_)
  rw [Std.TreeMap.getD_eq_getD_getElem?]
  cases m[k]? with
  | none => exact habsent.symm
  | some v => rfl

/-- Maps whose entries add the same, key by key, have one total. -/
theorem total_congr_keys {γ : Type*} {m : Std.TreeMap α β cmp} {m' : Std.TreeMap α γ cmp}
    {g : α → β → M} {g' : α → γ → M}
    (h : ∀ k, (m[k]?).elim 0 (g k) = (m'[k]?).elim 0 (g' k)) : total m g = total m' g' := by
  have hkeys : ∀ k ∈ m, k ∈ (m.keys ++ m'.keys).dedup := fun k hk =>
    List.mem_dedup.mpr (List.mem_append_left _ (Std.TreeMap.mem_keys.mpr hk))
  have hkeys' : ∀ k ∈ m', k ∈ (m.keys ++ m'.keys).dedup := fun k hk =>
    List.mem_dedup.mpr (List.mem_append_right _ (Std.TreeMap.mem_keys.mpr hk))
  rw [total_eq_sum_keys (List.nodup_dedup _) hkeys, total_eq_sum_keys (List.nodup_dedup _) hkeys',
    List.map_congr_left fun k _ => h k]

/-- Adding `c` to the entry of `k` (an absent entry counts as zero) adds `c` to the total. -/
theorem total_insert (m : Std.TreeMap α β cmp) (g : α → β → M) {k : α} {v : β} {c : M}
    (hsome : ∀ old, m[k]? = some old → g k v = g k old + c) (hnone : m[k]? = none → g k v = c) :
    total (m.insert k v) g = total m g + c := by
  have h1 := (Std.TreeMap.toList_insert_perm (t := m) (k := k) (v := v)).map fun e => g e.1 e.2
  have h2 := (filter_key_perm m k).map fun e => g e.1 e.2
  unfold total
  rw [h1.sum_eq, h2.sum_eq, List.map_cons, List.sum_cons, List.map_append, List.sum_append]
  cases hk : m[k]? with
  | none =>
      rw [hnone hk]
      simp [add_comm]
  | some old =>
      rw [hsome old hk]
      simp [add_comm, add_assoc]

end total

end Theory
