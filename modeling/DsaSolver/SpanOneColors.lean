import DsaSolver.MatchingOptimal
import DsaSolver.SpanOnePhases

/-! # The colours of the span-one solver

A phase takes the colours over that the minimum matching names, and free ones else
(`colorPhase_spec`); so the pairs of one colour are those of the matching, and no colouring of the
two phases costs less between them (`joinPhase_end`).  The loop over the boundaries leaves the
phases done as they are (`joinPhases_end`). -/

namespace Dsa

namespace SpanOneMinCostFlowSolver

open Theory (IsMatching meets mem_meets)

/-- The colour of a node. -/
def colorAt (colors : Colors) (n : ℕ) : ℕ := colors.getD n 0

theorem colorAt_set {colors : Colors} {m : ℕ} (hm : m < colors.length) (color n : ℕ) :
    colorAt (colors.set m color) n = if n = m then color else colorAt colors n := by
  unfold colorAt
  by_cases hn : n = m
  · subst hn
    rw [if_pos rfl, List.getD_eq_getElem _ _ (by rwa [List.length_set]), List.getElem_set_self]
  · rw [if_neg hn, List.getD_eq_getElem?_getD, List.getElem?_set_ne (Ne.symm hn),
      ← List.getD_eq_getElem?_getD]

theorem getD_mem {nodes : List ℕ} {i : ℕ} (hi : i < nodes.length) : nodes.getD i 0 ∈ nodes := by
  rw [List.getD_eq_getElem _ _ hi]
  exact List.getElem_mem hi

/-- Within the list the default of a look-up does not matter. -/
theorem getD_map_of_lt {α β : Type} (f : α → β) {l : List α} {i : ℕ} (hi : i < l.length) (d : β)
    (d' : α) : (l.map f).getD i d = f (l.getD i d') := by
  rw [List.getD_eq_getElem _ _ (by rwa [List.length_map]), List.getElem_map,
    List.getD_eq_getElem _ _ hi]

/-- The colour that the loop over `next_free` ends with. -/
theorem skipUsed_spec {used : List ℕ} (fuel start : ℕ)
    (hfuel : (used.toFinset.filter (start ≤ ·)).card ≤ fuel) :
    start ≤ skipUsed used fuel start ∧ skipUsed used fuel start ∉ used ∧
      ∀ color, start ≤ color → color < skipUsed used fuel start → color ∈ used := by
  induction fuel generalizing start with
  | zero =>
      refine ⟨le_rfl, fun hmem => ?_, fun color hle hlt => absurd hlt (not_lt.mpr hle)⟩
      have hfilter : start ∈ used.toFinset.filter (start ≤ ·) :=
        Finset.mem_filter.mpr ⟨List.mem_toFinset.mpr hmem, le_rfl⟩
      exact absurd (Finset.card_pos.mpr ⟨start, hfilter⟩) (by omega)
  | succ fuel ih =>
      unfold skipUsed
      by_cases hused : used.contains start = true
      · rw [if_pos hused]
        rw [List.contains_iff_mem] at hused
        have hsub : used.toFinset.filter (start + 1 ≤ ·) ⊂ used.toFinset.filter (start ≤ ·) := by
          refine Finset.ssubset_iff_of_subset (fun color hcolor => ?_) |>.mpr ⟨start, ?_, ?_⟩
          · obtain ⟨hmem, hle⟩ := Finset.mem_filter.mp hcolor
            exact Finset.mem_filter.mpr ⟨hmem, by omega⟩
          · exact Finset.mem_filter.mpr ⟨List.mem_toFinset.mpr hused, le_rfl⟩
          · simp
        obtain ⟨hle, hfree, hbelow⟩ := ih (start + 1) (by
          have := Finset.card_lt_card hsub
          omega)
        refine ⟨by omega, hfree, fun color hstart hlt => ?_⟩
        by_cases heq : color = start
        · rwa [heq]
        · exact hbelow color (by omega) hlt
      · rw [if_neg hused]
        rw [List.contains_iff_mem] at hused
        exact ⟨le_rfl, hused, fun color hle hlt => absurd hlt (not_lt.mpr hle)⟩

/-! ### The two loops over a phase -/

section phase

variable {left right : List ℕ} {start taken : Colors} {pairs : List (ℕ × ℕ)} {colors : ℕ}

/-- What the loop over the matching has done. -/
structure Taken (left right : List ℕ) (start : Colors) (done : List (ℕ × ℕ))
    (state : Colors × List Bool) : Prop where
  length : state.1.length = start.length
  flags : state.2.length = right.length
  outside : ∀ n ∉ right, colorAt state.1 n = colorAt start n
  taken : ∀ pair ∈ done,
    colorAt state.1 (right.getD pair.2 0) = colorAt start (left.getD pair.1 0)
  assigned : ∀ r, state.2.getD r false = true ↔ r ∈ done.map Prod.snd

theorem taken_foldl (hright : right.Nodup) (hdisjoint : ∀ n ∈ left, n ∉ right)
    (hcount : ∀ n ∈ right, n < start.length) (hpairs : IsMatching left.length right.length pairs) :
    Taken left right start pairs
      (pairs.foldl (takeOver left right) (start, List.replicate right.length false)) := by
  induction pairs using List.reverseRecOn with
  | nil =>
      refine ⟨rfl, List.length_replicate, fun _ _ => rfl, fun _ hpair =>
        (List.not_mem_nil hpair).elim, fun r => ?_⟩
      rw [List.foldl_nil, List.getD_eq_getElem?_getD, List.getElem?_replicate]
      by_cases hr : r < right.length
      · simp [hr]
      · simp [hr]
  | append_singleton done pair ih =>
      have hdone : IsMatching left.length right.length done :=
        ⟨fun p hp => hpairs.inRange p (List.mem_append_left _ hp),
          hpairs.rows.sublist ((List.sublist_append_left _ _).map _),
          hpairs.columns.sublist ((List.sublist_append_left _ _).map _)⟩
      obtain ⟨hl, hr⟩ := hpairs.inRange pair (List.mem_append_right _ List.mem_cons_self)
      have hcolumn : pair.2 ∉ done.map Prod.snd := by
        have := hpairs.columns
        rw [List.map_append, List.map_singleton, List.nodup_append] at this
        exact fun hmem => this.2.2 _ hmem _ List.mem_cons_self rfl
      obtain ⟨hlength, hflags, houtside, htaken, hassigned⟩ := ih hdone
      rw [List.foldl_append, List.foldl_cons, List.foldl_nil]
      generalize done.foldl (takeOver left right) (start, List.replicate right.length false) = state
        at hlength hflags houtside htaken hassigned ⊢
      have hset := @colorAt_set state.1 (right.getD pair.2 0) (by
        rw [hlength]
        exact hcount _ (getD_mem hr)) (state.1.getD (left.getD pair.1 0) 0)
      unfold takeOver
      refine ⟨(List.length_set ..).trans hlength, (List.length_set ..).trans hflags,
        fun n hn => ?_, fun p hp => ?_, fun r => ?_⟩
      · rw [hset, if_neg ?_]
        · exact houtside n hn
        · rintro rfl
          exact hn (getD_mem hr)
      · rw [hset]
        rcases List.mem_append.mp hp with hp | hp
        · rw [if_neg fun heq => hcolumn ?_]
          · exact htaken p hp
          · have hp2 := (hdone.inRange p hp).2
            rw [← Theory.getD_inj_of_nodup hright hp2 hr heq]
            exact List.mem_map_of_mem hp
        · obtain rfl := List.mem_singleton.mp hp
          rw [if_pos rfl]
          exact houtside _ (hdisjoint _ (getD_mem hl))
      · rw [getD_set_visited (by rwa [hflags]), hassigned]
        simp [or_comm]

/-- What the loop over the second phase has done after `k` of its nodes. -/
structure Filled (used right : List ℕ) (colors : ℕ) (assigned : List Bool) (taken : Colors) (k : ℕ)
    (state : Colors × ℕ) : Prop where
  length : state.1.length = taken.length
  kept : ∀ n, (∀ r < k, assigned.getD r false = false → n ≠ right.getD r 0) →
    colorAt state.1 n = colorAt taken n
  fresh : ∀ r < k, assigned.getD r false = false → colorAt state.1 (right.getD r 0) ∉ used ∧
    colorAt state.1 (right.getD r 0) < state.2 ∧ colorAt state.1 (right.getD r 0) < colors
  distinct : ∀ r < k, ∀ r' < k, assigned.getD r false = false → assigned.getD r' false = false →
    colorAt state.1 (right.getD r 0) = colorAt state.1 (right.getD r' 0) → r = r'
  filled : ∀ color < state.2, color ∈ used ∨ ∃ r < k, assigned.getD r false = false ∧
    colorAt state.1 (right.getD r 0) = color

/-- The positions of the second phase without a colour. -/
def unassigned (assigned : List Bool) (k : ℕ) : List ℕ :=
  (List.range k).filter fun r => !(assigned.getD r false)

theorem mem_unassigned {assigned : List Bool} {k r : ℕ} :
    r ∈ unassigned assigned k ↔ r < k ∧ assigned.getD r false = false := by
  unfold unassigned
  rw [List.mem_filter, List.mem_range, Bool.not_eq_true']

theorem nodup_unassigned {assigned : List Bool} {k : ℕ} : (unassigned assigned k).Nodup :=
  List.nodup_range.filter _

theorem length_unassigned_lt {assigned : List Bool} {k size : ℕ} (hk : k < size)
    (hnew : assigned.getD k false = false) :
    (unassigned assigned k).length < (unassigned assigned size).length := by
  rw [← List.toFinset_card_of_nodup nodup_unassigned, ← List.toFinset_card_of_nodup nodup_unassigned]
  refine Finset.card_lt_card (Finset.ssubset_iff_of_subset (fun r hr => ?_) |>.mpr ⟨k, ?_, ?_⟩)
  · obtain ⟨hlt, hr⟩ := mem_unassigned.mp (List.mem_toFinset.mp hr)
    exact List.mem_toFinset.mpr (mem_unassigned.mpr ⟨by omega, hr⟩)
  · exact List.mem_toFinset.mpr (mem_unassigned.mpr ⟨hk, hnew⟩)
  · rw [List.mem_toFinset, mem_unassigned]
    omega

/-- There is a free colour for the next node. -/
theorem Filled.room {used : List ℕ} {assigned : List Bool} {k : ℕ} {state : Colors × ℕ}
    (h : Filled used right colors assigned taken k state) (hk : k < right.length)
    (hnew : assigned.getD k false = false)
    (hroom : used.length + (unassigned assigned right.length).length ≤ colors) :
    skipUsed used used.length state.2 < colors := by
  obtain ⟨-, -, hbelow⟩ := skipUsed_spec used.length state.2
    ((Finset.card_filter_le _ _).trans (List.toFinset_card_le _))
  by_contra hge
  have hsub : Finset.range colors ⊆ used.toFinset ∪
      ((unassigned assigned k).map fun r => colorAt state.1 (right.getD r 0)).toFinset := by
    intro color hcolor
    have hlt := Finset.mem_range.mp hcolor
    by_cases hstate : color < state.2
    · rcases h.filled color hstate with hused | ⟨r, hr, hfree, heq⟩
      · exact Finset.mem_union_left _ (List.mem_toFinset.mpr hused)
      · exact Finset.mem_union_right _ (List.mem_toFinset.mpr (List.mem_map.mpr
          ⟨r, mem_unassigned.mpr ⟨hr, hfree⟩, heq⟩))
    · exact Finset.mem_union_left _ (List.mem_toFinset.mpr (hbelow color (by omega) (by omega)))
  have hcard := (Finset.card_le_card hsub).trans (Finset.card_union_le _ _)
  have hused := List.toFinset_card_le used
  have hothers := List.toFinset_card_le
    ((unassigned assigned k).map fun r => colorAt state.1 (right.getD r 0))
  have hlt := length_unassigned_lt hk hnew
  rw [Finset.card_range] at hcard
  rw [List.length_map] at hothers
  omega

theorem Filled.step {used : List ℕ} {assigned : List Bool} {k : ℕ} {state : Colors × ℕ}
    (h : Filled used right colors assigned taken k state) (hright : right.Nodup)
    (hcount : ∀ n ∈ right, n < taken.length) (hk : k < right.length)
    (hroom : used.length + (unassigned assigned right.length).length ≤ colors) :
    ∃ next, colorFree used right colors assigned state k = some next ∧
      Filled used right colors assigned taken (k + 1) next := by
  unfold colorFree
  by_cases hassigned : assigned.getD k false = true
  · rw [if_pos hassigned]
    have hlast : ∀ r < k + 1, assigned.getD r false = false → r < k := by
      intro r hr hfree
      rcases Nat.lt_succ_iff_lt_or_eq.mp hr with hlt | rfl
      · exact hlt
      · rw [hassigned] at hfree
        cases hfree
    refine ⟨state, rfl, h.length, fun n hn => h.kept n fun r hr => hn r (by omega),
      fun r hr hfree => h.fresh r (hlast r hr hfree) hfree,
      fun r hr r' hr' hfree hfree' => h.distinct r (hlast r hr hfree) r' (hlast r' hr' hfree') hfree
        hfree', fun color hcolor => ?_⟩
    rcases h.filled color hcolor with hused | ⟨r, hr, hfree⟩
    · exact .inl hused
    · exact .inr ⟨r, by omega, hfree⟩
  · rw [if_neg hassigned]
    rw [Bool.not_eq_true] at hassigned
    have hroom' := h.room hk hassigned hroom
    obtain ⟨hle, hfree, hbelow⟩ := skipUsed_spec used.length state.2
      ((Finset.card_filter_le used.toFinset (state.2 ≤ ·)).trans (List.toFinset_card_le _))
    dsimp only
    rw [if_neg (not_le.mpr hroom')]
    generalize skipUsed used used.length state.2 = color at hroom' hle hfree hbelow
    have hset := @colorAt_set state.1 (right.getD k 0) (by
      rw [h.length]
      exact hcount _ (getD_mem hk)) color
    have hother : ∀ r < k, right.getD r 0 ≠ right.getD k 0 := fun r hr heq =>
      absurd (Theory.getD_inj_of_nodup hright (hr.trans hk) hk heq) (by omega)
    refine ⟨_, rfl, (List.length_set ..).trans h.length, fun n hn => ?_, fun r hr hnew => ?_,
      fun r hr r' hr' hnew hnew' heq => ?_, fun other hlt => ?_⟩
    · rw [hset, if_neg (hn k (Nat.lt_succ_self k) hassigned)]
      exact h.kept n fun r hr => hn r (by omega)
    · rw [hset]
      rcases Nat.lt_succ_iff_lt_or_eq.mp hr with hlt | rfl
      · rw [if_neg (hother r hlt)]
        obtain ⟨hnot, hsmall, hcolors⟩ := h.fresh r hlt hnew
        exact ⟨hnot, by omega, hcolors⟩
      · rw [if_pos rfl]
        exact ⟨hfree, by omega, hroom'⟩
    · rw [hset, hset] at heq
      rcases Nat.lt_succ_iff_lt_or_eq.mp hr with hlt | rfl
      · rw [if_neg (hother r hlt)] at heq
        have hsmall := (h.fresh r hlt hnew).2.1
        rcases Nat.lt_succ_iff_lt_or_eq.mp hr' with hlt' | rfl
        · rw [if_neg (hother r' hlt')] at heq
          exact h.distinct r hlt r' hlt' hnew hnew' heq
        · rw [if_pos rfl] at heq
          omega
      · rw [if_pos rfl] at heq
        rcases Nat.lt_succ_iff_lt_or_eq.mp hr' with hlt' | rfl
        · rw [if_neg (hother r' hlt')] at heq
          have hsmall := (h.fresh r' hlt' hnew').2.1
          omega
        · rfl
    · rcases Nat.lt_succ_iff_lt_or_eq.mp hlt with hlt | rfl
      · by_cases hstate : other < state.2
        · rcases h.filled other hstate with hused | ⟨r, hr, hnew, heq⟩
          · exact .inl hused
          · refine .inr ⟨r, by omega, hnew, ?_⟩
            rw [hset, if_neg (hother r hr)]
            exact heq
        · exact .inl (hbelow other (by omega) hlt)
      · refine .inr ⟨k, Nat.lt_succ_self k, hassigned, ?_⟩
        rw [hset, if_pos rfl]

/-- The loop over the second phase gives every node a colour. -/
theorem filled_foldlM {used : List ℕ} {assigned : List Bool} (hright : right.Nodup)
    (hcount : ∀ n ∈ right, n < taken.length)
    (hroom : used.length + (unassigned assigned right.length).length ≤ colors) {k : ℕ}
    (hk : k ≤ right.length) :
    ∃ state, (List.range k).foldlM (colorFree used right colors assigned) (taken, 0) = some state ∧
      Filled used right colors assigned taken k state := by
  induction k with
  | zero =>
      refine ⟨(taken, 0), rfl, rfl, fun _ _ => rfl, fun r hr => absurd hr (Nat.not_lt_zero r),
        fun r hr => absurd hr (Nat.not_lt_zero r), fun color hcolor => ?_⟩
      exact absurd hcolor (Nat.not_lt_zero color)
  | succ k ih =>
      obtain ⟨state, hfold, hfilled⟩ := ih (by omega)
      obtain ⟨next, hstep, hnext⟩ := hfilled.step hright hcount (by omega) hroom
      refine ⟨next, ?_, hnext⟩
      rw [List.range_succ, List.foldlM_append, hfold, Option.bind_eq_bind, Option.bind_some,
        List.foldlM_cons, hstep]
      rfl

/-- The phase has different colours. -/
structure Colored (colors : ℕ) (f : ℕ → ℕ) (phase : List ℕ) : Prop where
  nodup : (phase.map f).Nodup
  lt : ∀ n ∈ phase, f n < colors

theorem Colored.congr {f g : ℕ → ℕ} {phase : List ℕ} (h : Colored colors f phase)
    (heq : ∀ n ∈ phase, g n = f n) : Colored colors g phase := by
  refine ⟨?_, fun n hn => ?_⟩
  · rw [List.map_congr_left heq]
    exact h.nodup
  · rw [heq n hn]
    exact h.lt n hn

theorem Colored.inj {f : ℕ → ℕ} {phase : List ℕ} (h : Colored colors f phase) {i j : ℕ}
    (hi : i < phase.length) (hj : j < phase.length)
    (heq : f (phase.getD i 0) = f (phase.getD j 0)) : i = j := by
  rw [List.getD_eq_getElem _ _ hi, List.getD_eq_getElem _ _ hj] at heq
  have hi' : i < (phase.map f).length := by rwa [List.length_map]
  have hj' : j < (phase.map f).length := by rwa [List.length_map]
  have hsame : (phase.map f)[i] = (phase.map f)[j] := by
    rw [List.getElem_map, List.getElem_map]
    exact heq
  exact h.nodup.getElem_inj_iff.mp hsame

theorem Colored.all_lt {f : ℕ → ℕ} {phase : List ℕ} (h : Colored colors f phase) :
    ∀ color ∈ phase.map f, color < colors := by
  intro color hcolor
  obtain ⟨n, hn, rfl⟩ := List.mem_map.mp hcolor
  exact h.lt n hn

theorem length_unassigned_add {assigned : List Bool}
    (hpairs : IsMatching left.length right.length pairs)
    (hassigned : ∀ r, assigned.getD r false = true ↔ r ∈ pairs.map Prod.snd) :
    (unassigned assigned right.length).length + pairs.length = right.length := by
  have hsplit := List.length_eq_length_filter_add (fun r => assigned.getD r false)
    (l := List.range right.length)
  have hperm : ((List.range right.length).filter fun r => assigned.getD r false).Perm
      (pairs.map Prod.snd) := by
    refine (List.perm_ext_iff_of_nodup (List.nodup_range.filter _) hpairs.columns).mpr fun r => ?_
    rw [List.mem_filter, List.mem_range, hassigned]
    refine and_iff_right_of_imp fun hmem => ?_
    obtain ⟨pair, hpair, rfl⟩ := List.mem_map.mp hmem
    exact (hpairs.inRange pair hpair).2
  rw [hperm.length_eq, List.length_map, List.length_range] at hsplit
  unfold unassigned
  omega

/-- A phase joins the one before: the pairs of one colour are those of the matching. -/
theorem colorPhase_spec (hleft : Colored colors (colorAt start) left) (hright : right.Nodup)
    (hdisjoint : ∀ n ∈ left, n ∉ right) (hcount : ∀ n ∈ right, n < start.length)
    (hpairs : IsMatching left.length right.length pairs)
    (hlength : pairs.length = left.length + right.length - colors) :
    ∃ next nextFree, (List.range right.length).foldlM (colorFree (left.map (colorAt start)) right
        colors (pairs.foldl (takeOver left right) (start, List.replicate right.length false)).2)
        ((pairs.foldl (takeOver left right) (start, List.replicate right.length false)).1, 0) =
          some (next, nextFree) ∧
      next.length = start.length ∧ (∀ n ∉ right, colorAt next n = colorAt start n) ∧
      Colored colors (colorAt next) right ∧
      ∀ l < left.length, ∀ r < right.length,
        colorAt next (left.getD l 0) = colorAt next (right.getD r 0) ↔ (l, r) ∈ pairs := by
  have htaken := taken_foldl hright hdisjoint hcount hpairs
  generalize pairs.foldl (takeOver left right) (start, List.replicate right.length false) = state
    at htaken ⊢
  obtain ⟨taken, assigned⟩ := state
  obtain ⟨htakenLength, -, houtside, htaken, hassigned⟩ := htaken
  dsimp only at htakenLength houtside htaken hassigned
  have hwaiting := length_unassigned_add hpairs hassigned
  obtain ⟨⟨next, nextFree⟩, hfold, hfilled⟩ := @filled_foldlM right taken colors
    (left.map (colorAt start)) assigned hright (fun n hn => by rw [htakenLength]; exact hcount n hn)
    (by rw [List.length_map]; omega) right.length le_rfl
  have hkept : ∀ n ∉ right, colorAt next n = colorAt start n := by
    intro n hn
    rw [hfilled.kept n fun r hr _ heq => hn (heq ▸ getD_mem hr)]
    exact houtside n hn
  -- a node of the matching has a colour of the phase before, the others have none
  have hmatched : ∀ pair ∈ pairs,
      colorAt next (right.getD pair.2 0) = colorAt start (left.getD pair.1 0) := by
    intro pair hpair
    have hr := (hpairs.inRange pair hpair).2
    rw [hfilled.kept _ fun r hlt hfree heq => ?_]
    · exact htaken pair hpair
    · have hsame := Theory.getD_inj_of_nodup hright hr hlt heq
      have hflag := (hassigned pair.2).mpr (List.mem_map_of_mem hpair)
      rw [hsame, hfree] at hflag
      cases hflag
  have hcases : ∀ r < right.length, (∃ l, (l, r) ∈ pairs) ∨ assigned.getD r false = false := by
    intro r _
    cases hflag : assigned.getD r false with
    | false => exact .inr rfl
    | true =>
        obtain ⟨pair, hpair, rfl⟩ := List.mem_map.mp ((hassigned r).mp hflag)
        exact .inl ⟨pair.1, hpair⟩
  have hused : ∀ l < left.length, colorAt start (left.getD l 0) ∈ left.map (colorAt start) :=
    fun l hl => List.mem_map_of_mem (getD_mem hl)
  have hiff : ∀ l < left.length, ∀ r < right.length,
      colorAt start (left.getD l 0) = colorAt next (right.getD r 0) ↔ (l, r) ∈ pairs := by
    intro l hl r hr
    refine ⟨fun heq => ?_, fun hpair => (hmatched (l, r) hpair).symm⟩
    rcases hcases r hr with ⟨l', hpair⟩ | hfree
    · rw [hmatched (l', r) hpair] at heq
      rwa [hleft.inj hl (hpairs.inRange _ hpair).1 heq]
    · exact absurd (heq ▸ hused l hl) (hfilled.fresh r hr hfree).1
  refine ⟨next, nextFree, hfold, hfilled.length.trans htakenLength, hkept, ⟨?_, fun n hn => ?_⟩,
    fun l hl r hr => ?_⟩
  · refine (List.nodup_map_iff_inj_on hright).mpr fun n hn m hm heq => ?_
    obtain ⟨r, hr, rfl⟩ := List.mem_iff_getElem.mp hn
    obtain ⟨r', hr', rfl⟩ := List.mem_iff_getElem.mp hm
    rw [← List.getD_eq_getElem _ 0 hr, ← List.getD_eq_getElem _ 0 hr'] at heq ⊢
    refine congrArg (right.getD · 0) ?_
    rcases hcases r hr with ⟨l, hpair⟩ | hfree
    · have hother : (l, r') ∈ pairs := by
        rw [← hiff l (hpairs.inRange _ hpair).1 r' hr', ← heq]
        exact (hmatched _ hpair).symm
      exact congrArg Prod.snd (List.inj_on_of_nodup_map hpairs.rows hpair hother rfl)
    · rcases hcases r' hr' with ⟨l, hpair⟩ | hfree'
      · refine absurd ?_ (hfilled.fresh r hr hfree).1
        rw [heq, hmatched _ hpair]
        exact hused l (hpairs.inRange _ hpair).1
      · exact hfilled.distinct r hr r' hr' hfree hfree' heq
  · obtain ⟨r, hr, rfl⟩ := List.mem_iff_getElem.mp hn
    rw [← List.getD_eq_getElem _ 0 hr]
    rcases hcases r hr with ⟨l, hpair⟩ | hfree
    · rw [hmatched _ hpair]
      exact hleft.lt _ (getD_mem (hpairs.inRange _ hpair).1)
    · exact (hfilled.fresh r hr hfree).2.2
  · rw [hkept _ (hdisjoint _ (getD_mem hl))]
    exact hiff l hl r hr

end phase

/-! ### A boundary -/

section boundary

variable {search : ReusePenaltySearchSpace} {left right : List ℕ} {colors : ℕ} {f g : ℕ → ℕ}

/-- The cost of the pairs of one colour between two phases. -/
def boundaryCost (search : ReusePenaltySearchSpace) (f : ℕ → ℕ) (left right : List ℕ) : ℕ :=
  pairsCost (boundaryCosts search left right) (meets (left.map f) (right.map f))

theorem boundaryCost_congr (hleft : ∀ n ∈ left, g n = f n) (hright : ∀ n ∈ right, g n = f n) :
    boundaryCost search g left right = boundaryCost search f left right := by
  unfold boundaryCost
  rw [List.map_congr_left hleft, List.map_congr_left hright]

/-- No colouring of the two phases costs less between them. -/
def LeastBetween (search : ReusePenaltySearchSpace) (colors : ℕ) (f : ℕ → ℕ)
    (left right : List ℕ) : Prop :=
  ∀ g, Colored colors g left → Colored colors g right →
    boundaryCost search f left right ≤ boundaryCost search g left right

theorem length_boundaryCosts : (boundaryCosts search left right).length = left.length :=
  List.length_map _

theorem boundaryCosts_rows : ∀ row ∈ boundaryCosts search left right, row.length = right.length := by
  intro row hrow
  obtain ⟨first, -, rfl⟩ := List.mem_map.mp hrow
  exact List.length_map _

/-- Where the pairs of one colour are those of a minimum matching, the cost is least. -/
theorem leastBetween_of_minimum {pairs : List (ℕ × ℕ)}
    (hminimum : IsMinimum (boundaryCosts search left right) right.length
      (left.length + right.length - colors) pairs)
    (hf : ∀ l < left.length, ∀ r < right.length,
      f (left.getD l 0) = f (right.getD r 0) ↔ (l, r) ∈ pairs) :
    LeastBetween search colors f left right := by
  have hmatching := hminimum.matching
  rw [length_boundaryCosts] at hmatching
  have hperm : (meets (left.map f) (right.map f)).Perm pairs := by
    refine (List.perm_ext_iff_of_nodup Theory.nodup_meets hmatching.nodup).mpr fun pair => ?_
    rw [mem_meets, List.length_map, List.length_map]
    constructor
    · rintro ⟨hl, hr, heq⟩
      rw [getD_map_of_lt f hl 0 0, getD_map_of_lt f hr 0 0] at heq
      exact (hf pair.1 hl pair.2 hr).mp heq
    · intro hpair
      obtain ⟨hl, hr⟩ := hmatching.inRange pair hpair
      rw [getD_map_of_lt f hl 0 0, getD_map_of_lt f hr 0 0]
      exact ⟨hl, hr, (hf pair.1 hl pair.2 hr).mpr hpair⟩
  intro g hleft hright
  have hcost : boundaryCost search f left right =
      pairsCost (boundaryCosts search left right) pairs := (hperm.map _).sum_eq
  rw [hcost]
  refine Theory.cost_le_meets _ hleft.nodup hright.nodup hleft.all_lt hright.all_lt
    fun other hother hlength => ?_
  rw [List.length_map, List.length_map] at hother hlength
  refine hminimum.least other ?_ hlength
  rwa [length_boundaryCosts]

/-- Two phases are too many vertices for `int`, or their costs too large. -/
def Heavy (search : ReusePenaltySearchSpace) (left right : List ℕ) : Prop :=
  kInfinity.toInt ≤ matrixSum (boundaryCosts search left right) ∨
    maxInt < left.length + right.length + 2

theorem matching_end (hleft : left.length ≤ colors) (hright : right.length ≤ colors) :
    (∃ pairs, minimumCardinalityMatching (boundaryCosts search left right)
          (left.length + right.length - colors) = .ok (some pairs) ∧
        IsMinimum (boundaryCosts search left right) right.length
          (left.length + right.length - colors) pairs) ∨
      (minimumCardinalityMatching (boundaryCosts search left right)
          (left.length + right.length - colors) = .ok none ∧ Heavy search left right) ∨
      (minimumCardinalityMatching (boundaryCosts search left right)
          (left.length + right.length - colors) = .error .intOverflow ∧
        maxInt < left.length + right.length + 2) := by
  have hlength := @length_boundaryCosts search left right
  by_cases hnone : left.length + right.length - colors = 0
  · rw [hnone]
    exact .inl ⟨[], by simp [minimumCardinalityMatching], isMinimum_nil⟩
  by_cases hguard : left.length ≤ maxInt ∧ right.length ≤ maxInt
  · rcases minimumCardinalityMatching_cases (@boundaryCosts_rows search left right) hnone
      (by rw [hlength]; exact hguard.1) hguard.2 (by rw [hlength]; omega) with
      ⟨hresult, hheavy⟩ | ⟨hresult, hlarge⟩ | ⟨pairs, hresult, hminimum, -⟩
    · exact .inr (.inl ⟨hresult, .inl hheavy⟩)
    · exact .inr (.inr ⟨hresult, by rwa [hlength] at hlarge⟩)
    · exact .inl ⟨pairs, hresult, hminimum⟩
  · refine .inr (.inl ⟨minimumCardinalityMatching_guarded boundaryCosts_rows hnone fun hall => ?_,
      .inr (by omega)⟩)
    rw [hlength] at hall
    exact hguard ⟨hall.1, hall.2.1⟩

/-- The ends of one iteration of the loop over the boundaries. -/
inductive JoinEnd (search : ReusePenaltySearchSpace) (colors : ℕ) (left right : List ℕ)
    (start : Colors) : Except Fault (Option Colors) → Prop
  | joined (next : Colors) (length : next.length = start.length)
      (outside : ∀ n ∉ right, colorAt next n = colorAt start n)
      (colored : Colored colors (colorAt next) right)
      (least : LeastBetween search colors (colorAt next) left right) :
      JoinEnd search colors left right start (.ok (some next))
  | heavy (heavy : Heavy search left right) : JoinEnd search colors left right start (.ok none)
  | overflow (large : maxInt < left.length + right.length + 2) :
      JoinEnd search colors left right start (.error .intOverflow)

theorem joinPhase_end {start : Colors} (hleft : Colored colors (colorAt start) left)
    (hright : right.Nodup) (hdisjoint : ∀ n ∈ left, n ∉ right)
    (hcount : ∀ n ∈ right, n < start.length) (hfits : right.length ≤ colors) :
    JoinEnd search colors left right start (joinPhase search colors left right start) := by
  have hsmall : left.length ≤ colors := by
    have := Theory.length_le_of_nodup_lt hleft.nodup hleft.all_lt
    rwa [List.length_map] at this
  unfold joinPhase
  dsimp only
  rcases @matching_end search left right colors hsmall hfits with
    ⟨pairs, hresult, hminimum⟩ | ⟨hresult, hheavy⟩ | ⟨hresult, hlarge⟩
  · have hmatching := hminimum.matching
    rw [length_boundaryCosts] at hmatching
    obtain ⟨next, nextFree, hfold, hlength, houtside, hcolored, hpairs⟩ :=
      colorPhase_spec hleft hright hdisjoint hcount hmatching hminimum.length
    rw [hresult]
    have hused : (left.map fun node => start.getD node 0) = left.map (colorAt start) := rfl
    dsimp only [Theory.ok_bind]
    rw [hused, hfold]
    exact .joined next hlength houtside hcolored (leastBetween_of_minimum hminimum hpairs)
  · rw [hresult]
    exact .heavy hheavy
  · rw [hresult]
    exact .overflow hlarge

end boundary

/-! ### The loop over the boundaries -/

section chain

variable {search : ReusePenaltySearchSpace} {colors : ℕ}

/-- The ends of the loop, for the phases from `left` on. -/
inductive ChainEnd (search : ReusePenaltySearchSpace) (colors : ℕ) (left : List ℕ)
    (rest : List (List ℕ)) (start : Colors) : Except Fault (Option Colors) → Prop
  | joined (last : Colors) (length : last.length = start.length)
      (outside : ∀ n ∉ rest.flatten, colorAt last n = colorAt start n)
      (colored : ∀ phase ∈ left :: rest, Colored colors (colorAt last) phase)
      (least : (left :: rest).IsChain (LeastBetween search colors (colorAt last))) :
      ChainEnd search colors left rest start (.ok (some last))
  | heavy (first second : List ℕ) (mem : first ∈ left :: rest ∧ second ∈ left :: rest)
      (disjoint : ∀ n ∈ first, n ∉ second) (heavy : Heavy search first second) :
      ChainEnd search colors left rest start (.ok none)
  | overflow (first second : List ℕ) (mem : first ∈ left :: rest ∧ second ∈ left :: rest)
      (large : maxInt < first.length + second.length + 2) :
      ChainEnd search colors left rest start (.error .intOverflow)

theorem joinPhases_end {left : List ℕ} {rest : List (List ℕ)} {start : Colors}
    (hnodup : (left :: rest).flatten.Nodup) (hcount : ∀ n ∈ rest.flatten, n < start.length)
    (hfits : ∀ phase ∈ rest, phase.length ≤ colors) (hleft : Colored colors (colorAt start) left) :
    ChainEnd search colors left rest start (joinPhases search colors (left :: rest) start) := by
  induction rest generalizing left start with
  | nil =>
      refine .joined start rfl (fun _ _ => rfl) (fun phase hphase => ?_) (List.isChain_singleton _)
      rwa [List.mem_singleton.mp hphase]
  | cons right rest ih =>
      rw [List.flatten_cons, List.nodup_append] at hnodup
      obtain ⟨-, hrest, hdisjoint⟩ := hnodup
      have hright : ∀ n ∈ right, n ∈ (right :: rest).flatten := fun n hn => by
        rw [List.flatten_cons]
        exact List.mem_append_left _ hn
      have hlater : ∀ n ∈ rest.flatten, n ∈ (right :: rest).flatten := fun n hn => by
        rw [List.flatten_cons]
        exact List.mem_append_right _ hn
      have hparts := hrest
      rw [List.flatten_cons, List.nodup_append] at hparts
      obtain ⟨hrightNodup, -, hrightDisjoint⟩ := hparts
      have hapart : ∀ n ∈ left, n ∉ right := fun n hn hmem =>
        hdisjoint n hn n (hright n hmem) rfl
      have hjoin := @joinPhase_end search left right colors start hleft hrightNodup hapart
        (fun n hn => hcount n (hright n hn)) (hfits right List.mem_cons_self)
      unfold joinPhases
      generalize joinPhase search colors left right start = result at hjoin
      cases hjoin with
      | heavy hheavy =>
          exact .heavy left right ⟨List.mem_cons_self,
            List.mem_cons_of_mem _ List.mem_cons_self⟩ hapart hheavy
      | overflow hlarge =>
          exact .overflow left right ⟨List.mem_cons_self,
            List.mem_cons_of_mem _ List.mem_cons_self⟩ hlarge
      | joined next hlength houtside hcolored hleast =>
          have hchain := ih hrest (fun n hn => by rw [hlength]; exact hcount n (hlater n hn))
            (fun phase hphase => hfits phase (List.mem_cons_of_mem _ hphase)) hcolored
          dsimp only [Theory.ok_bind]
          generalize joinPhases search colors (right :: rest) next = result at hchain
          cases hchain with
          | heavy first second hmem hother hheavy =>
              exact .heavy first second ⟨List.mem_cons_of_mem _ hmem.1,
                List.mem_cons_of_mem _ hmem.2⟩ hother hheavy
          | overflow first second hmem hlarge =>
              exact .overflow first second ⟨List.mem_cons_of_mem _ hmem.1,
                List.mem_cons_of_mem _ hmem.2⟩ hlarge
          | joined last hlast hkept hall hrestLeast =>
              -- the later phases leave the colours of the first two
              have hsameLeft : ∀ n ∈ left, colorAt last n = colorAt start n := by
                intro n hn
                rw [hkept n fun hmem => hdisjoint n hn n (hlater n hmem) rfl,
                  houtside n (hapart n hn)]
              have hsameRight : ∀ n ∈ right, colorAt last n = colorAt next n := fun n hn =>
                hkept n fun hmem => hrightDisjoint n hn n hmem rfl
              have hsameNext : ∀ n ∈ left, colorAt last n = colorAt next n := fun n hn =>
                hkept n fun hmem => hdisjoint n hn n (hlater n hmem) rfl
              refine .joined last (hlast.trans hlength) (fun n hn => ?_) (fun phase hphase => ?_) ?_
              · rw [List.flatten_cons, List.mem_append, not_or] at hn
                rw [hkept n hn.2, houtside n hn.1]
              · rcases List.mem_cons.mp hphase with rfl | hphase
                · exact hleft.congr hsameLeft
                · exact hall phase hphase
              · refine hrestLeast.cons_cons fun g hg hg' => ?_
                rw [boundaryCost_congr hsameNext hsameRight]
                exact hleast g hg hg'

end chain

end SpanOneMinCostFlowSolver

end Dsa
