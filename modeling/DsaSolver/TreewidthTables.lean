import DsaSolver.Partitions
import DsaSolver.Theory.MinSum

/-! # The tables of the treewidth solver

A factor is a cost of the colourings: its table is read at the canonical partition of its scope,
which depends on the equalities between the colours only.  The table that an elimination writes
is the minimum of its bucket over the colours of the variable, and the class it remembers says
how to colour the variable (`eliminateVariable_eliminates`). -/

namespace Dsa

namespace TreewidthPartitionDpSolver

open Theory (Sat distinct classCount relabelFrom Admitted Eliminates)

/-! ### Factors as costs -/

/-- The colour of a node. -/
def labelOf (labels : List UInt32) (node : ℕ) : UInt32 := labels.getD node 0

/-- The cost of an entry; an infeasible one is the greatest. -/
def TableValue.toTop (value : TableValue) : WithTop Sat :=
  if value.feasible then ((⟨value.cost⟩ : Sat) : WithTop Sat) else ⊤

/-- The cost of a colouring. -/
def Factor.costAt (factor : Factor) (f : ℕ → UInt32) : WithTop Sat :=
  (factor.values[canonicalPartition (factor.scope.map f)]?).elim ⊤ TableValue.toTop

def totalAt (factors : List Factor) (f : ℕ → UInt32) : WithTop Sat :=
  (factors.map fun factor => factor.costAt f).sum

/-- Two colourings have the same equalities on the nodes. -/
def SamePattern (scope : List ℕ) (f g : ℕ → UInt32) : Prop :=
  ∀ a ∈ scope, ∀ b ∈ scope, (f a = f b ↔ g a = g b)

theorem SamePattern.mono {scope more : List ℕ} {f g : ℕ → UInt32} (h : SamePattern more f g)
    (hsub : scope ⊆ more) : SamePattern scope f g :=
  fun a ha b hb => h a (hsub ha) b (hsub hb)

theorem canonicalPartition_congr {scope : List ℕ} {f g : ℕ → UInt32}
    (h : SamePattern scope f g) :
    canonicalPartition (scope.map f) = canonicalPartition (scope.map g) := by
  rw [canonicalPartition_eq, canonicalPartition_eq]
  exact congrArg (List.map UInt32.ofNat) (Theory.relabelFrom_congr [] scope h)

theorem Factor.costAt_congr {factor : Factor} {f g : ℕ → UInt32}
    (h : SamePattern factor.scope f g) : factor.costAt f = factor.costAt g := by
  unfold Factor.costAt
  rw [canonicalPartition_congr h]

theorem totalAt_congr {factors : List Factor} {f g : ℕ → UInt32}
    (h : ∀ factor ∈ factors, SamePattern factor.scope f g) :
    totalAt factors f = totalAt factors g := by
  unfold totalAt
  rw [List.map_congr_left fun factor hfactor => Factor.costAt_congr (h factor hfactor)]

theorem totalAt_append (first second : List Factor) (f : ℕ → UInt32) :
    totalAt (first ++ second) f = totalAt first f + totalAt second f := by
  unfold totalAt
  rw [List.map_append, List.sum_append]

theorem totalAt_singleton (factor : Factor) (f : ℕ → UInt32) :
    totalAt [factor] f = factor.costAt f := List.sum_singleton

/-- The factors with a property and those without it. -/
theorem totalAt_filter (factors : List Factor) (p : Factor → Bool) (f : ℕ → UInt32) :
    totalAt (factors.filter fun factor => !p factor) f + totalAt (factors.filter p) f =
      totalAt factors f := by
  rw [add_comm, ← totalAt_append]
  exact ((List.filter_append_perm p factors).map _).sum_eq

theorem toTop_infeasible {value : TableValue} (h : value.feasible = false) : value.toTop = ⊤ := by
  unfold TableValue.toTop
  rw [h]
  rfl

theorem toTop_feasible {value : TableValue} (h : value.feasible = true) :
    value.toTop = ((⟨value.cost⟩ : Sat) : WithTop Sat) := if_pos h

theorem sumFrom_toTop (labels : List UInt32) (factors : List Factor) {result : TableValue}
    (hresult : result.feasible = true) :
    (sumFrom labels factors result).toTop = result.toTop + totalAt factors (labelOf labels) := by
  induction factors generalizing result with
  | nil => exact (add_zero _).symm
  | cons factor rest ih =>
      have hcost : factor.costAt (labelOf labels) =
          (factor.values[restrictedPartition factor.scope labels]?).elim ⊤ TableValue.toTop := rfl
      have htotal : totalAt (factor :: rest) (labelOf labels) =
          factor.costAt (labelOf labels) + totalAt rest (labelOf labels) := List.sum_cons
      rw [htotal, hcost]
      unfold sumFrom
      cases hfound : factor.values[restrictedPartition factor.scope labels]? with
      | none =>
          rw [Option.elim_none, WithTop.top_add, WithTop.add_top]
          rfl
      | some value =>
          dsimp only
          rw [Option.elim_some]
          cases hvalue : value.feasible with
          | false =>
              rw [toTop_infeasible hvalue, WithTop.top_add, WithTop.add_top]
              rfl
          | true =>
              have hnext := @ih ⟨saturatingAdd result.cost value.cost, result.feasible⟩ hresult
              rw [@toTop_feasible ⟨saturatingAdd result.cost value.cost, result.feasible⟩ hresult]
                at hnext
              rw [Bool.not_true, if_neg Bool.false_ne_true, hnext, toTop_feasible hvalue,
                toTop_feasible hresult, ← add_assoc]
              rfl

/-- `SumBucket` is the cost of the bucket. -/
theorem sumBucket_toTop (bucket : List Factor) (labels : List UInt32) :
    (sumBucket bucket labels).toTop = totalAt bucket (labelOf labels) := by
  unfold sumBucket
  rw [sumFrom_toTop labels bucket rfl]
  exact zero_add _

/-! ### One entry -/

section entry

variable {bucket : List Factor} {node : ℕ} {labels : List UInt32}

theorem labelOf_set {labels : List UInt32} {node : ℕ} (hnode : node < labels.length)
    (label : UInt32) : labelOf (labels.set node label) =
      Function.update (labelOf labels) node label := by
  funext other
  unfold labelOf
  by_cases hother : other = node
  · subst hother
    rw [Function.update_self, List.getD_eq_getElem _ _ (by rw [List.length_set]; exact hnode),
      List.getElem_set_self]
  · rw [Function.update_of_ne hother, List.getD_eq_getElem?_getD,
      List.getElem?_set_ne (Ne.symm hother), ← List.getD_eq_getElem?_getD]

/-- The best class among those tried. -/
structure Chosen (bucket : List Factor) (node : ℕ) (labels : List UInt32) (tried : List UInt32)
    (choice : ClassChoice) : Prop where
  overwritten : ∀ label, choice.workingLabels.set node label = labels.set node label
  length : choice.workingLabels.length = labels.length
  least : ∀ label ∈ tried,
    choice.best.toTop ≤ totalAt bucket (labelOf (labels.set node label))
  attained : choice.best.feasible = true → choice.bestClass ∈ tried ∧
    totalAt bucket (labelOf (labels.set node choice.bestClass)) = choice.best.toTop
  default : choice.best.feasible = false → choice.bestClass = 0

theorem Chosen.tryClass {tried : List UInt32} {choice : ClassChoice}
    (h : Chosen bucket node labels tried choice) (label : UInt32) :
    Chosen bucket node labels (tried ++ [label]) (tryClass bucket node choice label) := by
  have hcandidate := sumBucket_toTop bucket (choice.workingLabels.set node label)
  rw [h.overwritten] at hcandidate
  have hlength : (choice.workingLabels.set node label).length = labels.length := by
    rw [List.length_set, h.length]
  have hset : ∀ other, (choice.workingLabels.set node label).set node other =
      labels.set node other := fun other => by rw [List.set_set, h.overwritten]
  unfold Dsa.TreewidthPartitionDpSolver.tryClass
  dsimp only
  rw [h.overwritten] at hlength hset ⊢
  generalize sumBucket bucket (labels.set node label) = candidate at hcandidate ⊢
  split_ifs with hbetter
  · rw [Bool.and_eq_true] at hbetter
    obtain ⟨hfeasible, hbetter⟩ := hbetter
    refine ⟨hset, hlength, fun other hother => ?_, fun _ => ⟨?_, hcandidate.symm⟩, fun hno => ?_⟩
    · dsimp only
      rcases List.mem_append.mp hother with hother | hother
      · refine le_trans ?_ (h.least other hother)
        rw [toTop_feasible hfeasible]
        cases hbest : choice.best.feasible with
        | false =>
            rw [toTop_infeasible hbest]
            exact le_top
        | true =>
            rw [hbest, Bool.not_true, Bool.false_or, decide_eq_true_iff] at hbetter
            rw [toTop_feasible hbest, WithTop.coe_le_coe]
            exact le_of_lt hbetter
      · rw [List.mem_singleton.mp hother, hcandidate]
    · exact List.mem_append_right _ List.mem_cons_self
    · exact absurd (hfeasible.symm.trans hno) (by decide)
  · refine ⟨hset, hlength, fun other hother => ?_, fun hbest => ?_, h.default⟩
    · dsimp only
      rcases List.mem_append.mp hother with hother | hother
      · exact h.least other hother
      · rw [List.mem_singleton.mp hother, ← hcandidate]
        cases hfeasible : candidate.feasible with
        | false =>
            rw [toTop_infeasible hfeasible]
            exact le_top
        | true =>
            rw [hfeasible, Bool.true_and, Bool.or_eq_true, not_or, Bool.not_eq_true,
              Bool.not_eq_false', decide_eq_true_iff, not_lt] at hbetter
            rw [toTop_feasible hfeasible, toTop_feasible hbetter.1, WithTop.coe_le_coe]
            exact hbetter.2
    · obtain ⟨hmem, heq⟩ := h.attained hbest
      exact ⟨List.mem_append_left _ hmem, heq⟩

theorem Chosen.foldl (classes : List UInt32) {tried : List UInt32} {choice : ClassChoice}
    (h : Chosen bucket node labels tried choice) :
    Chosen bucket node labels (tried ++ classes)
      (classes.foldl (Dsa.TreewidthPartitionDpSolver.tryClass bucket node) choice) := by
  induction classes generalizing tried choice with
  | nil => simpa using h
  | cons label rest ih => simpa using ih (h.tryClass label)

/-- After trying classes, zero among them, the best one attains the minimum. -/
theorem chosen_classes {classes : List UInt32} (hzero : 0 ∈ classes) :
    let choice := classes.foldl (tryClass bucket node) { workingLabels := labels }
    choice.workingLabels.length = labels.length ∧
      (∀ label ∈ classes, choice.best.toTop ≤ totalAt bucket (labelOf (labels.set node label))) ∧
      choice.bestClass ∈ classes ∧
        totalAt bucket (labelOf (labels.set node choice.bestClass)) = choice.best.toTop := by
  have hstart : Chosen bucket node labels [] { workingLabels := labels } :=
    ⟨fun _ => rfl, rfl, fun _ h => (List.not_mem_nil h).elim, fun h => Bool.noConfusion h,
      fun _ => rfl⟩
  have hend := hstart.foldl classes
  rw [List.nil_append] at hend
  intro choice
  refine ⟨hend.length, hend.least, ?_⟩
  cases hbest : choice.best.feasible with
  | true => exact hend.attained hbest
  | false =>
      -- every class is infeasible, zero among them
      rw [hend.default hbest, toTop_infeasible hbest]
      refine ⟨hzero, top_le_iff.mp ?_⟩
      have := hend.least 0 hzero
      rwa [toTop_infeasible hbest] at this

end entry

/-! ### The colours of a pool -/

section palette

variable {colors : UInt64}

def palette (colors : UInt64) : Set UInt32 := {label | label.toNat < colors.toNat}

/-- The number of a label among the distinct ones, or the next number. -/
def classAmong (labels : List UInt32) (label : UInt32) : UInt32 :=
  UInt32.ofNat ((distinct labels).idxOf label)

/-- The classes that an elimination tries after an assignment. -/
def choicesOf (colors : UInt64) (assignment : List UInt32) : ℕ :=
  min (classCount (assignment.map UInt32.toNat) + 1) colors.toNat

variable {labels : List UInt32}

/-- Distinct colours are at most as many as the colours. -/
theorem length_le_of_palette {l : List UInt32} (hl : l.Nodup) (h : ∀ label ∈ l, label ∈ palette colors) :
    l.length ≤ colors.toNat := by
  have hnodup : (l.map UInt32.toNat).Nodup := hl.map fun _ _ heq => UInt32.toNat_inj.mp heq
  have hsub : l.map UInt32.toNat ⊆ List.range colors.toNat := by
    intro value hvalue
    obtain ⟨label, hlabel, rfl⟩ := List.mem_map.mp hvalue
    exact List.mem_range.mpr (h label hlabel)
  have := (hnodup.subperm hsub).length_le
  rwa [List.length_map, List.length_range] at this

theorem length_distinct_le (h : ∀ label ∈ labels, label ∈ palette colors) :
    (distinct labels).length ≤ colors.toNat :=
  length_le_of_palette (Theory.nodup_distinct labels) fun label hlabel =>
    h label (Theory.mem_distinct.mp hlabel)

theorem canonicalPartition_eq_map (labels : List UInt32) :
    canonicalPartition labels = labels.map (classAmong labels) := by
  rw [canonicalPartition_eq, Theory.relabel_eq_map, List.map_map]
  rfl

variable (hmax : colors.toNat ≤ 4294967295) (hlabels : ∀ label ∈ labels, label ∈ palette colors)

include hmax hlabels

theorem toNat_classAmong (label : UInt32) :
    (classAmong labels label).toNat = (distinct labels).idxOf label := by
  have hlength := length_distinct_le hlabels
  have hle : (distinct labels).idxOf label ≤ (distinct labels).length := List.idxOf_le_length
  unfold classAmong
  rw [UInt32.toNat_ofNat']
  omega

theorem classCount_canonical :
    classCount ((canonicalPartition labels).map UInt32.toNat) = (distinct labels).length := by
  have hnumbers : (canonicalPartition labels).map UInt32.toNat = relabelFrom [] labels := by
    rw [canonicalPartition_eq_map, Theory.relabel_eq_map, List.map_map]
    exact List.map_congr_left fun label _ => toNat_classAmong hmax hlabels label
  rw [hnumbers]
  exact Theory.classesFrom_relabelFrom [] labels

/-- The class of a colour is one that is tried. -/
theorem classAmong_lt {label : UInt32} (hlabel : label ∈ palette colors) :
    (classAmong labels label).toNat < choicesOf colors (canonicalPartition labels) := by
  unfold choicesOf
  rw [toNat_classAmong hmax hlabels, classCount_canonical hmax hlabels, lt_min_iff]
  have hlength := length_distinct_le hlabels
  by_cases hmem : label ∈ distinct labels
  · have := List.idxOf_lt_length_of_mem hmem
    omega
  · rw [List.idxOf_of_notMem hmem]
    have hmore := @length_le_of_palette colors (label :: distinct labels)
      (List.nodup_cons.mpr ⟨hmem, Theory.nodup_distinct labels⟩) fun other hother => by
        rcases List.mem_cons.mp hother with rfl | hother
        · exact hlabel
        · exact hlabels other (Theory.mem_distinct.mp hother)
    rw [List.length_cons] at hmore
    omega

/-- A class is that of one label at most. -/
theorem classAmong_inj {first second : UInt32} (hfirst : first ∈ labels) :
    classAmong labels first = classAmong labels second ↔ first = second := by
  rw [← UInt32.toNat_inj, toNat_classAmong hmax hlabels, toNat_classAmong hmax hlabels]
  exact List.idxOf_inj (Theory.mem_distinct.mpr hfirst)

end palette

/-! ### Unused colours -/

/-- `unusedColor` finds one among as many colours as are in use and one more. -/
theorem unusedColor_spec {used : List UInt32} (hlength : (distinct used).length < 4294967296) :
    unusedColor used ∉ used ∧ (unusedColor used).toNat ≤ (distinct used).length := by
  have hexists : ∃ color ≤ (distinct used).length, UInt32.ofNat color ∉ used := by
    by_contra hall
    push Not at hall
    have hsub : (List.range ((distinct used).length + 1)).map UInt32.ofNat ⊆ distinct used := by
      intro label hlabel
      obtain ⟨color, hcolor, rfl⟩ := List.mem_map.mp hlabel
      have := List.mem_range.mp hcolor
      exact Theory.mem_distinct.mpr (hall color (by omega))
    have hnodup : ((List.range ((distinct used).length + 1)).map UInt32.ofNat).Nodup := by
      refine List.Nodup.map_on (fun a ha b hb heq => ?_) List.nodup_range
      rw [List.mem_range] at ha hb
      have := congrArg UInt32.toNat heq
      rw [UInt32.toNat_ofNat', UInt32.toNat_ofNat'] at this
      omega
    have := (hnodup.subperm hsub).length_le
    rw [List.length_map, List.length_range] at this
    omega
  obtain ⟨color, hle, hfree⟩ := hexists
  have hdistinct : (distinct used).length ≤ used.length :=
    ((Theory.nodup_distinct used).subperm fun _ h => Theory.mem_distinct.mp h).length_le
  unfold unusedColor
  cases hfind : (List.range (used.length + 1)).find? fun color =>
      !used.contains (UInt32.ofNat color) with
  | none =>
      have := List.find?_eq_none.mp hfind color (List.mem_range.mpr (by omega))
      simp [hfree] at this
  | some found =>
      rw [List.find?_range_eq_some] at hfind
      obtain ⟨hfound, -, hleast⟩ := hfind
      have hfoundLe : found ≤ (distinct used).length := by
        by_contra hlt
        have := hleast color (by omega)
        simp [hfree] at this
      rw [Option.getD_some, UInt32.toNat_ofNat']
      refine ⟨by simpa using hfound, by omega⟩

/-! ### The table of an elimination -/

section table

variable {colors : UInt64} {bucket : List Factor} {node : ℕ} {scope : List ℕ}

/-- The entry is the minimum over the classes that are tried, whatever the colours outside the
scope. -/
def EntryOk (colors : UInt64) (bucket : List Factor) (node : ℕ) (scope : List ℕ)
    (assignment : List UInt32) (value : TableValue) (classId : UInt32) : Prop :=
  ∀ g : ℕ → UInt32, scope.map g = assignment →
    (∀ label : UInt32, label.toNat < choicesOf colors assignment →
      value.toTop ≤ totalAt bucket (Function.update g node label)) ∧
    classId.toNat < choicesOf colors assignment ∧
    totalAt bucket (Function.update g node classId) = value.toTop

theorem toNat_foldl_classes (assignment : List UInt32) (classes : UInt32)
    (h : ∀ label ∈ assignment, label.toNat < 4294967295) :
    (assignment.foldl (fun classes value => max classes (value + 1)) classes).toNat =
      Theory.classesFrom classes.toNat (assignment.map UInt32.toNat) := by
  induction assignment generalizing classes with
  | nil => rfl
  | cons label rest ih =>
      have hlabel := h label List.mem_cons_self
      have hnext : (label + 1).toNat = label.toNat + 1 := by
        rw [UInt32.toNat_add, UInt32.toNat_one]
        omega
      have hmax : (max classes (label + 1)).toNat = max classes.toNat (label.toNat + 1) := by
        rcases le_total classes (label + 1) with hle | hle
        · rw [max_eq_right hle, hnext]
          rw [UInt32.le_iff_toNat_le, hnext] at hle
          omega
        · rw [max_eq_left hle]
          rw [UInt32.le_iff_toNat_le, hnext] at hle
          omega
      rw [List.foldl_cons, ih _ fun other hother => h other (List.mem_cons_of_mem _ hother), hmax]
      rfl

/-- The number of choices does not wrap. -/
theorem toNat_choices (hmax : colors.toNat ≤ 4294967295) {assignment : List UInt32}
    (hclasses : classCount (assignment.map UInt32.toNat) ≤ colors.toNat) :
    (min ((assignment.foldl (fun classes value => max classes (value + 1))
      (0 : UInt32)).toUInt64 + 1) colors).toUInt32.toNat = choicesOf colors assignment := by
  have hsmall : ∀ label ∈ assignment, label.toNat < 4294967295 := by
    intro label hlabel
    have : label.toNat < classCount (assignment.map UInt32.toNat) :=
      Theory.lt_classesFrom (List.mem_map_of_mem hlabel)
    omega
  have hfold := toNat_foldl_classes assignment 0 hsmall
  change _ = classCount (assignment.map UInt32.toNat) at hfold
  generalize assignment.foldl (fun classes value => max classes (value + 1)) (0 : UInt32) = classes
    at hfold ⊢
  have hsucc : (classes.toUInt64 + 1).toNat = classes.toNat + 1 := by
    rw [UInt64.toNat_add, UInt32.toNat_toUInt64, UInt64.toNat_one]
    omega
  rw [UInt64.toNat_toUInt32, Theory.toNat_min, hsucc, hfold]
  unfold choicesOf
  omega

theorem labelOf_foldl_set {entries : List (ℕ × UInt32)} {labels : List UInt32} {other : ℕ}
    (h : ∀ entry ∈ entries, entry.1 ≠ other) :
    labelOf (entries.foldl (fun labels entry => labels.set entry.1 entry.2) labels) other =
      labelOf labels other := by
  induction entries generalizing labels with
  | nil => rfl
  | cons entry rest ih =>
      rw [List.foldl_cons, ih fun entry hentry => h entry (List.mem_cons_of_mem _ hentry)]
      unfold labelOf
      rw [List.getD_eq_getElem?_getD, List.getElem?_set_ne (h entry List.mem_cons_self),
        ← List.getD_eq_getElem?_getD]

theorem length_foldl_set (entries : List (ℕ × UInt32)) (labels : List UInt32) :
    (entries.foldl (fun labels entry => labels.set entry.1 entry.2) labels).length =
      labels.length := by
  induction entries generalizing labels with
  | nil => rfl
  | cons entry rest ih => rw [List.foldl_cons, ih, List.length_set]

/-- The labels of the scope after the loop that sets them. -/
theorem map_labelOf_foldl_set {labels : List UInt32} {assignment : List UInt32}
    (hnodup : scope.Nodup) (hlength : assignment.length = scope.length)
    (hlt : ∀ u ∈ scope, u < labels.length) :
    scope.map (labelOf ((scope.zip assignment).foldl
      (fun labels entry => labels.set entry.1 entry.2) labels)) = assignment := by
  induction scope generalizing labels assignment with
  | nil => exact (List.length_eq_zero_iff.mp hlength).symm
  | cons u rest ih =>
      cases assignment with
      | nil => cases hlength
      | cons label others =>
          obtain ⟨hfresh, hrest⟩ := List.nodup_cons.mp hnodup
          have hu := hlt u List.mem_cons_self
          rw [List.zip_cons_cons, List.foldl_cons, List.map_cons]
          congr 1
          · have hkept : ∀ entry ∈ rest.zip others, entry.1 ≠ u := by
              rintro entry hentry rfl
              exact hfresh (List.of_mem_zip hentry).1
            rw [labelOf_foldl_set hkept, labelOf_set hu, Function.update_self]
          · refine ih hrest (Nat.succ.inj hlength) fun w hw => ?_
            rw [List.length_set]
            exact hlt w (List.mem_cons_of_mem _ hw)

/-- The colours of a bucket are those of the variable and of its scope. -/
theorem totalAt_update_congr (hbucket : ∀ factor ∈ bucket, factor.scope ⊆ node :: scope)
    {f g : ℕ → UInt32} {first second : UInt32}
    (hscope : ∀ a ∈ scope, ∀ b ∈ scope, (f a = f b ↔ g a = g b))
    (hnode : ∀ a ∈ scope, (f a = first ↔ g a = second)) (hfresh : node ∉ scope) :
    totalAt bucket (Function.update f node first) =
      totalAt bucket (Function.update g node second) := by
  refine totalAt_congr fun factor hfactor => SamePattern.mono ?_ (hbucket factor hfactor)
  have hother : ∀ {a}, a ∈ scope → a ≠ node := fun ha heq => hfresh (heq ▸ ha)
  intro a ha b hb
  rcases List.mem_cons.mp ha with rfl | ha'
  · rcases List.mem_cons.mp hb with rfl | hb'
    · simp
    · rw [Function.update_self, Function.update_self, Function.update_of_ne (hother hb'),
        Function.update_of_ne (hother hb'), eq_comm, hnode b hb', eq_comm]
  · rcases List.mem_cons.mp hb with rfl | hb'
    · rw [Function.update_self, Function.update_self, Function.update_of_ne (hother ha'),
        Function.update_of_ne (hother ha')]
      exact hnode a ha'
    · rw [Function.update_of_ne (hother ha'), Function.update_of_ne (hother ha'),
        Function.update_of_ne (hother hb'), Function.update_of_ne (hother hb')]
      exact hscope a ha' b hb'

/-- One iteration of the loop over the assignments. -/
theorem fillEntry_spec (hmax : colors.toNat ≤ 4294967295) (hpos : 0 < colors.toNat)
    (hbucket : ∀ factor ∈ bucket, factor.scope ⊆ node :: scope) (hnodup : scope.Nodup)
    (hfresh : node ∉ scope) {state : TableState}
    (hlt : ∀ u ∈ node :: scope, u < state.workingLabels.length) {assignment : List UInt32}
    (hassignment : assignment ∈ enumeratePartitions scope.length colors) :
    ∃ value classId,
      (fillEntry colors bucket node scope state assignment).values =
        state.values.insert assignment value ∧
      (fillEntry colors bucket node scope state assignment).bestClass =
        state.bestClass.insert assignment classId ∧
      (fillEntry colors bucket node scope state assignment).workingLabels.length =
        state.workingLabels.length ∧
      EntryOk colors bucket node scope assignment value classId := by
  obtain ⟨hlength, -, hclasses⟩ := (mem_enumeratePartitions hpos hmax).mp hassignment
  have hchoices := toNat_choices hmax hclasses
  have hlabels := @map_labelOf_foldl_set _ state.workingLabels _ hnodup hlength
    fun u hu => hlt u (List.mem_cons_of_mem _ hu)
  have hlabelsLength := length_foldl_set (scope.zip assignment) state.workingLabels
  unfold fillEntry
  dsimp only
  generalize (min ((assignment.foldl (fun classes value => max classes (value + 1))
    (0 : UInt32)).toUInt64 + 1) colors).toUInt32 = choices at hchoices ⊢
  generalize (scope.zip assignment).foldl (fun labels entry => labels.set entry.1 entry.2)
    state.workingLabels = labels at hlabels hlabelsLength ⊢
  have hmem : ∀ label : UInt32, label ∈ (List.range choices.toNat).map UInt32.ofNat ↔
      label.toNat < choicesOf colors assignment := by
    intro label
    rw [← hchoices, List.mem_map]
    constructor
    · rintro ⟨value, hvalue, rfl⟩
      have hvalue := List.mem_range.mp hvalue
      rw [UInt32.toNat_ofNat']
      exact lt_of_le_of_lt (Nat.mod_le _ _) hvalue
    · exact fun hlt => ⟨label.toNat, List.mem_range.mpr hlt, UInt32.ofNat_toNat⟩
  have hzero : (0 : UInt32) ∈ (List.range choices.toNat).map UInt32.ofNat := by
    rw [hmem]
    exact lt_min (Nat.succ_pos _) hpos
  obtain ⟨hend, hleast, hbest, hattained⟩ := @chosen_classes bucket node labels _ hzero
  refine ⟨_, _, rfl, rfl, hend.trans hlabelsLength, fun g hg => ?_⟩
  -- the working labels agree with `g` on the scope
  have hagree : ∀ a ∈ scope, labelOf labels a = g a := by
    have hmaps := hlabels.trans hg.symm
    exact fun a ha => List.map_inj_left.mp hmaps a ha
  have hcost : ∀ label, totalAt bucket (labelOf (labels.set node label)) =
      totalAt bucket (Function.update g node label) := by
    intro label
    rw [labelOf_set (by rw [hlabelsLength]; exact hlt node List.mem_cons_self)]
    refine totalAt_update_congr hbucket (fun a ha b hb => ?_) (fun a ha => ?_) hfresh
    · rw [hagree a ha, hagree b hb]
    · rw [hagree a ha]
  refine ⟨fun label hlabel => ?_, (hmem _).mp hbest, ?_⟩
  · rw [← hcost]
    exact hleast label ((hmem label).mpr hlabel)
  · rw [← hcost]
    exact hattained

/-- The tables hold the entries of the assignments done, and no others. -/
structure TableOk (colors : UInt64) (bucket : List Factor) (node : ℕ) (scope : List ℕ)
    (size : ℕ) (done : List (List UInt32)) (state : TableState) : Prop where
  length : state.workingLabels.length = size
  entry : ∀ assignment ∈ done, ∃ value classId, state.values[assignment]? = some value ∧
    state.bestClass[assignment]? = some classId ∧
      EntryOk colors bucket node scope assignment value classId
  keys : ∀ assignment ∈ state.values, assignment ∈ done

theorem tableOk_foldl (hmax : colors.toNat ≤ 4294967295) (hpos : 0 < colors.toNat)
    (hbucket : ∀ factor ∈ bucket, factor.scope ⊆ node :: scope) (hnodup : scope.Nodup)
    (hfresh : node ∉ scope) {size : ℕ} (hlt : ∀ u ∈ node :: scope, u < size)
    {assignments : List (List UInt32)}
    (hassignments : ∀ assignment ∈ assignments,
      assignment ∈ enumeratePartitions scope.length colors) {done : List (List UInt32)}
    {state : TableState} (h : TableOk colors bucket node scope size done state) :
    TableOk colors bucket node scope size (done ++ assignments)
      (assignments.foldl (fillEntry colors bucket node scope) state) := by
  induction assignments generalizing done state with
  | nil => simpa using h
  | cons assignment rest ih =>
      obtain ⟨value, classId, hvalues, hclasses, hlength, hentry⟩ :=
        @fillEntry_spec colors bucket node scope hmax hpos hbucket hnodup hfresh state
          (by rw [h.length]; exact hlt) assignment (hassignments assignment List.mem_cons_self)
      have hnext : TableOk colors bucket node scope size (done ++ [assignment])
          (fillEntry colors bucket node scope state assignment) := by
        refine ⟨hlength.trans h.length, fun other hother => ?_, fun other hother => ?_⟩
        · rw [hvalues, hclasses, Std.TreeMap.getElem?_insert, Std.TreeMap.getElem?_insert]
          by_cases hsame : assignment = other
          · subst hsame
            rw [if_pos Std.ReflCmp.compare_self, if_pos Std.ReflCmp.compare_self]
            exact ⟨value, classId, rfl, rfl, hentry⟩
          · rw [if_neg fun heq => hsame (Std.LawfulEqCmp.compare_eq_iff_eq.mp heq),
              if_neg fun heq => hsame (Std.LawfulEqCmp.compare_eq_iff_eq.mp heq)]
            refine h.entry other ((List.mem_append.mp hother).resolve_right fun hlast => ?_)
            exact hsame (List.mem_singleton.mp hlast).symm
        · rw [hvalues, Std.TreeMap.mem_insert, Std.LawfulEqCmp.compare_eq_iff_eq] at hother
          rcases hother with rfl | hother
          · exact List.mem_append_right _ List.mem_cons_self
          · exact List.mem_append_left _ (h.keys other hother)
      have hrest := ih (fun other hother => hassignments other (List.mem_cons_of_mem _ hother)) hnext
      rwa [List.append_assoc, List.singleton_append] at hrest

end table

end TreewidthPartitionDpSolver

end Dsa
