import DsaSolver.TreewidthTables

/-! # The elimination of the treewidth solver

Every elimination replaces the cost of the factors by its minimum over the colours of the
variable (`eliminateVariable_spec`), so the terminal factors hold a lower bound of the cost of
all colourings, and the reconstruction attains it (`eliminateVariables_run`,
`reconstruct_foldlM`). -/

namespace Dsa

namespace TreewidthPartitionDpSolver

open Theory (Sat distinct Admitted Eliminates EliminationRun rebuild)

variable {colors : UInt64}

/-! ### Colouring a variable -/

/-- The colour that the reconstruction gives to the variable of a trace. -/
def rebuildLabel (trace : Trace) (f : ℕ → UInt32) : UInt32 :=
  let labels := trace.remainingScope.map f
  let assignment := canonicalPartition labels
  match assignment.findIdx? fun label => label == (trace.bestClass[assignment]?).getD 0 with
  | some index => f (trace.remainingScope.getD index 0)
  | none => unusedColor labels

/-- The entries of a trace, with those of the factor that took its place. -/
structure TraceOk (colors : UInt64) (bucket : List Factor) (trace : Trace) (output : Factor) :
    Prop where
  nodup : trace.remainingScope.Nodup
  fresh : trace.node ∉ trace.remainingScope
  within : ∀ factor ∈ bucket, factor.scope ⊆ trace.node :: trace.remainingScope
  scope : output.scope = trace.remainingScope
  entry : ∀ assignment ∈ enumeratePartitions trace.remainingScope.length colors,
    ∃ value classId, output.values[assignment]? = some value ∧
      trace.bestClass[assignment]? = some classId ∧
        EntryOk colors bucket trace.node trace.remainingScope assignment value classId
  keys : ∀ assignment ∈ output.values,
    assignment ∈ enumeratePartitions trace.remainingScope.length colors

section trace

variable {bucket : List Factor} {trace : Trace} {output : Factor}

/-- One iteration of the reconstruction, where the remembered class has a colour. -/
theorem reconstruct_eq {labels : List UInt32} {classId : UInt32}
    (hclass : trace.bestClass[canonicalPartition
      (trace.remainingScope.map (labelOf labels))]? = some classId)
    (hlt : rebuildLabel trace (labelOf labels) ∈ palette colors) :
    reconstruct colors labels trace =
      .ok (labels.set trace.node (rebuildLabel trace (labelOf labels))) := by
  unfold rebuildLabel palette at hlt
  unfold rebuildLabel reconstruct
  unfold labelOf at hclass hlt ⊢
  dsimp only at hlt ⊢
  rw [hclass, Option.getD_some] at hlt
  rw [hclass, Option.getD_some]
  dsimp only
  cases hfind : (canonicalPartition (trace.remainingScope.map fun node =>
      labels.getD node 0)).findIdx? fun label => label == classId with
  | some index => rfl
  | none =>
      rw [hfind] at hlt
      dsimp only at hlt ⊢
      rw [if_neg]
      rw [UInt64.le_iff_toNat_le, UInt32.toNat_toUInt64, not_le]
      exact hlt

/-- What a trace says at a colouring: the entry of its scope is the minimum over the colours, the
reconstruction finds a colour that attains it. -/
theorem TraceOk.spec (h : TraceOk colors bucket trace output) (hpos : 0 < colors.toNat)
    (hmax : colors.toNat ≤ 4294967295) {f : ℕ → UInt32} (hf : Admitted (palette colors) f) :
    rebuildLabel trace f ∈ palette colors ∧
      totalAt bucket (Function.update f trace.node (rebuildLabel trace f)) = output.costAt f ∧
      (∀ label ∈ palette colors,
        output.costAt f ≤ totalAt bucket (Function.update f trace.node label)) ∧
      ∀ labels : List UInt32, labelOf labels = f → reconstruct colors labels trace =
        .ok (labels.set trace.node (rebuildLabel trace f)) := by
  have hlabels : ∀ label ∈ trace.remainingScope.map f, label ∈ palette colors := by
    intro label hlabel
    obtain ⟨u, -, rfl⟩ := List.mem_map.mp hlabel
    exact hf u
  have hmem : canonicalPartition (trace.remainingScope.map f) ∈
      enumeratePartitions trace.remainingScope.length colors := by
    refine (mem_enumeratePartitions_iff_canonical hpos hmax).mpr
      ⟨trace.remainingScope.map f, List.length_map _, ?_, rfl⟩
    exact length_le_of_palette (List.nodup_dedup _) fun label hlabel =>
      hlabels label (List.mem_dedup.mp hlabel)
  obtain ⟨value, classId, hvalue, hclass, hentry⟩ := h.entry _ hmem
  have hcanonical := canonicalPartition_eq_map (trace.remainingScope.map f)
  have hcost : output.costAt f = value.toTop := by
    unfold Factor.costAt
    rw [h.scope, hvalue, Option.elim_some]
  obtain ⟨hleast, hclassLt, hattained⟩ := hentry (classAmong (trace.remainingScope.map f) ∘ f) (by
    rw [hcanonical, List.map_map])
  -- a colour costs what its class costs
  have htransfer : ∀ label, totalAt bucket (Function.update f trace.node label) =
      totalAt bucket (Function.update (classAmong (trace.remainingScope.map f) ∘ f) trace.node
        (classAmong (trace.remainingScope.map f) label)) := by
    intro label
    refine totalAt_update_congr h.within (fun a ha b hb => ?_) (fun a ha => ?_) h.fresh
    · exact (classAmong_inj hmax hlabels (List.mem_map_of_mem ha)).symm
    · exact (classAmong_inj hmax hlabels (List.mem_map_of_mem ha)).symm
  have hdistinct := length_distinct_le hlabels
  -- the colour of the remembered class
  have hrebuild : rebuildLabel trace f ∈ palette colors ∧
      classAmong (trace.remainingScope.map f) (rebuildLabel trace f) = classId := by
    unfold rebuildLabel
    dsimp only
    rw [hclass, Option.getD_some]
    cases hfind : (canonicalPartition (trace.remainingScope.map f)).findIdx? fun label =>
        label == classId with
    | some index =>
        obtain ⟨hindex, heq, -⟩ := List.findIdx?_eq_some_iff_getElem.mp hfind
        dsimp only
        refine ⟨hf _, ?_⟩
        have hscope : index < trace.remainingScope.length := by
          rw [hcanonical] at hindex
          simpa using hindex
        rw [beq_iff_eq] at heq
        rw [← heq, List.getD_eq_getElem _ _ hscope]
        simp only [hcanonical, List.getElem_map]
    | none =>
        dsimp only
        obtain ⟨hfree, hle⟩ := @unusedColor_spec (trace.remainingScope.map f) (by omega)
        have hnone : classId ∉ canonicalPartition (trace.remainingScope.map f) := by
          intro hin
          have := List.findIdx?_eq_none_iff.mp hfind classId hin
          simp at this
        unfold choicesOf at hclassLt
        rw [classCount_canonical hmax hlabels, lt_min_iff] at hclassLt
        -- a class below the count is that of a label
        have hlast : classId.toNat = (distinct (trace.remainingScope.map f)).length := by
          by_contra hne
          have hlt : classId.toNat < (distinct (trace.remainingScope.map f)).length := by omega
          refine hnone ?_
          have hin := Theory.mem_distinct.mp (List.getElem_mem hlt)
          rw [hcanonical]
          refine List.mem_map.mpr ⟨_, hin, UInt32.toNat_inj.mp ?_⟩
          rw [toNat_classAmong hmax hlabels]
          exact (Theory.nodup_distinct _).idxOf_getElem _ hlt
        refine ⟨lt_of_le_of_lt hle (by omega), UInt32.toNat_inj.mp ?_⟩
        rw [toNat_classAmong hmax hlabels, hlast]
        exact List.idxOf_of_notMem fun hin => hfree (Theory.mem_distinct.mp hin)
  refine ⟨hrebuild.1, ?_, fun label hlabel => ?_, fun labels hsame => ?_⟩
  · rw [htransfer, hrebuild.2, hattained, hcost]
  · rw [htransfer, hcost]
    exact hleast _ (classAmong_lt hmax hlabels hlabel)
  · subst hsame
    exact reconstruct_eq hclass hrebuild.1

end trace

/-! ### Eliminating a variable -/

/-- The colours are read at nodes of the list only. -/
def ScopesIn (factors : List Factor) (nodes : List ℕ) : Prop :=
  ∀ factor ∈ factors, ∀ u ∈ factor.scope, u ∈ nodes

/-- A factor without variables is one entry. -/
def ConstantsOk (factors : List Factor) : Prop :=
  ∀ factor ∈ factors, factor.scope = [] → ∃ value, factor.values.toList = [([], value)]

theorem costAt_update_of_notMem {factor : Factor} {f : ℕ → UInt32} {node : ℕ} {label : UInt32}
    (h : node ∉ factor.scope) : factor.costAt (Function.update f node label) = factor.costAt f := by
  have hother : ∀ {a}, a ∈ factor.scope → a ≠ node := fun ha heq => h (heq ▸ ha)
  refine Factor.costAt_congr fun a ha b hb => ?_
  rw [Function.update_of_ne (hother ha), Function.update_of_ne (hother hb)]

theorem toList_of_keys {output : Factor} (hkeys : ∀ assignment ∈ output.values, assignment = [])
    {value : TableValue} (hvalue : output.values[([] : List UInt32)]? = some value) :
    output.values.toList = [([], value)] := by
  have hmem : ([], value) ∈ output.values.toList :=
    Std.TreeMap.mem_toList_iff_getElem?_eq_some.mpr hvalue
  have hall : ∀ entry ∈ output.values.toList, entry = ([], value) := by
    rintro ⟨key, found⟩ hentry
    have hget := Std.TreeMap.mem_toList_iff_getElem?_eq_some.mp hentry
    obtain rfl := hkeys key (Std.TreeMap.mem_iff_isSome_getElem?.mpr (Option.isSome_of_eq_some hget))
    rw [Option.some.inj (hvalue.symm.trans hget)]
  have hdistinct := Std.TreeMap.distinct_keys_toList (t := output.values)
  generalize output.values.toList = entries at hmem hall hdistinct
  cases entries with
  | nil => cases hmem
  | cons first others =>
      rw [hall first List.mem_cons_self] at hdistinct ⊢
      cases others with
      | nil => rfl
      | cons second rest =>
          have hne := (List.pairwise_cons.mp hdistinct).1 second List.mem_cons_self
          rw [hall second (List.mem_cons_of_mem _ List.mem_cons_self)] at hne
          exact absurd Std.ReflCmp.compare_self hne

section step

variable {options : Options} {state next : DpState} {node : ℕ} {rest : List ℕ}

/-- **An elimination takes the minimum over the colours of the variable.** -/
theorem eliminateVariable_spec (hpos : 0 < colors.toNat) (hmax : colors.toNat ≤ 4294967295)
    (hscopes : ScopesIn state.factors (node :: rest)) (hconstants : ConstantsOk state.factors)
    (hlt : ∀ u ∈ node :: rest, u < state.workingLabels.length)
    (h : eliminateVariable colors options state node = .ok next) :
    ∃ trace : Trace, next.traces = state.traces ++ [trace] ∧ trace.node = node ∧
      next.workingLabels.length = state.workingLabels.length ∧
      ScopesIn next.factors rest ∧ ConstantsOk next.factors ∧
      Eliminates (palette colors) node (rebuildLabel trace) (totalAt state.factors)
        (totalAt next.factors) ∧
      ∀ labels : List UInt32, Admitted (palette colors) (labelOf labels) →
        reconstruct colors labels trace =
          .ok (labels.set trace.node (rebuildLabel trace (labelOf labels))) := by
  unfold eliminateVariable at h
  dsimp only at h
  split_ifs at h with hlimit
  obtain rfl := Except.ok.inj h
  have hmemScope : ∀ {u}, u ∈ remainingVariables
      (state.factors.filter fun factor => factor.scope.contains node) node → u ∈ rest := by
    intro u hu
    obtain ⟨hne, factor, hfactor, huScope⟩ := mem_remainingVariables.mp hu
    exact (List.mem_cons.mp (hscopes factor (List.mem_of_mem_filter hfactor) u huScope)).resolve_left
      hne
  have hnodup : (remainingVariables
      (state.factors.filter fun factor => factor.scope.contains node) node).Nodup :=
    (remainingVariables_sorted _ _).imp fun hlt => hlt.ne
  have hfresh : node ∉ remainingVariables
      (state.factors.filter fun factor => factor.scope.contains node) node :=
    fun hmem => (mem_remainingVariables.mp hmem).1 rfl
  have hbucket : ∀ factor ∈ state.factors.filter fun factor => factor.scope.contains node,
      factor.scope ⊆ node :: remainingVariables
        (state.factors.filter fun factor => factor.scope.contains node) node := by
    intro factor hfactor u hu
    by_cases hne : u = node
    · rw [hne]
      exact List.mem_cons_self
    · exact List.mem_cons_of_mem _ (mem_remainingVariables.mpr ⟨hne, factor, hfactor, hu⟩)
  have htable := @tableOk_foldl colors _ node _ hmax hpos hbucket hnodup hfresh
    state.workingLabels.length (by
      intro u hu
      refine hlt u ((List.mem_cons.mp hu).elim (fun heq => ?_) fun hu => ?_)
      · rw [heq]
        exact List.mem_cons_self
      · exact List.mem_cons_of_mem _ (hmemScope hu)) _ (fun _ hmem => hmem) []
    { workingLabels := state.workingLabels, states := state.states
      transitions := state.transitions } ⟨rfl, fun _ hmem => (List.not_mem_nil hmem).elim,
        fun _ hmem => absurd hmem Std.TreeMap.not_mem_emptyc⟩
  rw [List.nil_append] at htable
  generalize hstate : (enumeratePartitions _ colors).foldl _ _ = table at htable ⊢
  generalize hscope : remainingVariables
    (state.factors.filter fun factor => factor.scope.contains node) node = scope at *
  have hok : TraceOk colors (state.factors.filter fun factor => factor.scope.contains node)
      ⟨node, scope, table.bestClass⟩ ⟨scope, table.values⟩ :=
    ⟨hnodup, hfresh, hbucket, rfl, htable.entry, htable.keys⟩
  refine ⟨⟨node, scope, table.bestClass⟩, rfl, rfl, htable.length, ?_, ?_, ?_, ?_⟩
  · intro factor hfactor u hu
    rcases List.mem_append.mp hfactor with hfactor | hfactor
    · obtain ⟨hfactor, hwithout⟩ := List.mem_filter.mp hfactor
      refine (List.mem_cons.mp (hscopes factor hfactor u hu)).resolve_left ?_
      rintro rfl
      simp [hu] at hwithout
    · rw [List.mem_singleton.mp hfactor] at hu
      exact hmemScope hu
  · intro factor hfactor hnil
    rcases List.mem_append.mp hfactor with hfactor | hfactor
    · exact hconstants factor (List.mem_of_mem_filter hfactor) hnil
    · obtain rfl := List.mem_singleton.mp hfactor
      dsimp only at hnil
      subst hnil
      obtain ⟨value, -, hvalue, -, -⟩ := htable.entry [] List.mem_cons_self
      refine ⟨value, toList_of_keys (fun assignment hmem => ?_) hvalue⟩
      exact List.mem_singleton.mp (htable.keys assignment hmem)
  · have hbefore : totalAt state.factors = fun f =>
        totalAt (state.factors.filter fun factor => !factor.scope.contains node) f +
          totalAt (state.factors.filter fun factor => factor.scope.contains node) f := by
      funext f
      exact (totalAt_filter state.factors (fun factor => factor.scope.contains node) f).symm
    have hafter : totalAt (state.factors.filter (fun factor => !factor.scope.contains node) ++
        [⟨scope, table.values⟩]) = fun f =>
          totalAt (state.factors.filter fun factor => !factor.scope.contains node) f +
            (⟨scope, table.values⟩ : Factor).costAt f := by
      funext f
      rw [totalAt_append, totalAt_singleton]
    rw [hbefore, hafter]
    refine Eliminates.add_left ⟨fun f hf => (hok.spec hpos hmax hf).1,
      fun f hf => (hok.spec hpos hmax hf).2.1, fun f hf => (hok.spec hpos hmax hf).2.2.1⟩ ?_
    intro f label
    unfold totalAt
    refine congrArg List.sum (List.map_congr_left fun factor hfactor =>
      costAt_update_of_notMem fun hmem => ?_)
    have := (List.mem_filter.mp hfactor).2
    simp [hmem] at this
  · intro labels hlabels
    exact (hok.spec hpos hmax hlabels).2.2.2 labels rfl

end step

/-! ### The elimination of all variables -/

/-- The eliminations with the choices of their traces. -/
def stepsOf (traces : List Trace) : List (ℕ × ((ℕ → UInt32) → UInt32)) :=
  traces.map fun trace => (trace.node, rebuildLabel trace)

theorem eliminateVariables_run {options : Options} (hpos : 0 < colors.toNat)
    (hmax : colors.toNat ≤ 4294967295) (order : List ℕ) {state last : DpState}
    (hscopes : ScopesIn state.factors order) (hconstants : ConstantsOk state.factors)
    (hlt : ∀ u ∈ order, u < state.workingLabels.length)
    (h : eliminateVariables colors options order state = (last, none)) :
    ∃ traces, last.traces = state.traces ++ traces ∧ traces.map Trace.node = order ∧
      ScopesIn last.factors [] ∧ ConstantsOk last.factors ∧
      EliminationRun (palette colors) (stepsOf traces) (totalAt state.factors)
        (totalAt last.factors) ∧
      ∀ trace ∈ traces, ∀ labels : List UInt32, Admitted (palette colors) (labelOf labels) →
        reconstruct colors labels trace =
          .ok (labels.set trace.node (rebuildLabel trace (labelOf labels))) := by
  induction order generalizing state with
  | nil =>
      obtain ⟨rfl, -⟩ := Prod.mk.inj h
      exact ⟨[], (List.append_nil _).symm, rfl, hscopes, hconstants, .nil _,
        fun _ hmem => (List.not_mem_nil hmem).elim⟩
  | cons node rest ih =>
      unfold eliminateVariables at h
      cases hstep : eliminateVariable colors options state node with
      | error diagnostic =>
          rw [hstep] at h
          cases (Prod.mk.inj h).2
      | ok next =>
          rw [hstep] at h
          obtain ⟨trace, htraces, hnode, hlength, hscopes', hconstants', hstep', hrebuild⟩ :=
            eliminateVariable_spec hpos hmax hscopes hconstants hlt hstep
          obtain ⟨traces, hall, horder, hscopesLast, hconstantsLast, hrun, hrebuildAll⟩ :=
            ih hscopes' hconstants' (fun u hu => by
              rw [hlength]
              exact hlt u (List.mem_cons_of_mem _ hu)) h
          refine ⟨trace :: traces, ?_, ?_, hscopesLast, hconstantsLast, ?_, ?_⟩
          · rw [hall, htraces, List.append_assoc, List.singleton_append]
          · rw [List.map_cons, hnode, horder]
          · exact .cons (hnode ▸ hstep') hrun
          · intro other hother
            rcases List.mem_cons.mp hother with rfl | hother
            · exact hrebuild
            · exact hrebuildAll other hother

/-! ### The reconstruction -/

/-- The loop over the traces makes their choices. -/
theorem reconstruct_foldlM {traces : List Trace}
    (hrebuild : ∀ trace ∈ traces, ∀ labels : List UInt32,
      Admitted (palette colors) (labelOf labels) → reconstruct colors labels trace =
        .ok (labels.set trace.node (rebuildLabel trace (labelOf labels))))
    (hadmitted : ∀ trace ∈ traces, ∀ f, Admitted (palette colors) f →
      rebuildLabel trace f ∈ palette colors) {labels : List UInt32}
    (hlt : ∀ trace ∈ traces, trace.node < labels.length)
    (hlabels : Admitted (palette colors) (labelOf labels)) :
    ∃ final : List UInt32, traces.reverse.foldlM (reconstruct colors) labels = .ok final ∧
      final.length = labels.length ∧ labelOf final = rebuild (stepsOf traces) (labelOf labels) ∧
        Admitted (palette colors) (labelOf final) := by
  induction traces with
  | nil => exact ⟨labels, rfl, rfl, rfl, hlabels⟩
  | cons trace rest ih =>
      obtain ⟨final, hfold, hlength, hsame, hfinal⟩ :=
        ih (fun other hother => hrebuild other (List.mem_cons_of_mem _ hother))
          (fun other hother => hadmitted other (List.mem_cons_of_mem _ hother))
          (fun other hother => hlt other (List.mem_cons_of_mem _ hother))
      have hnode : trace.node < final.length := by
        rw [hlength]
        exact hlt trace List.mem_cons_self
      refine ⟨final.set trace.node (rebuildLabel trace (labelOf final)), ?_, ?_, ?_, ?_⟩
      · rw [List.reverse_cons, List.foldlM_append, hfold]
        exact (congrArg (fun result => result >>= fun labels => pure labels)
          (hrebuild trace List.mem_cons_self final hfinal)).trans rfl
      · rw [List.length_set, hlength]
      · rw [labelOf_set hnode, hsame]
        rfl
      · rw [labelOf_set hnode]
        exact hfinal.update _ (hadmitted trace List.mem_cons_self _ hfinal)

end TreewidthPartitionDpSolver

end Dsa
