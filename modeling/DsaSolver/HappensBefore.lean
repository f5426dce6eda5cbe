import DsaSolver.PenaltyEdges
import Mathlib.Logic.Relation

/-! # Happens-before

Happens-before on the operation ids of a scheduled program is the reflexive transitive closure of
the issue order within a stream and the cross dependencies.  The vector clocks of an accepted
index decide it: the entry of a stream exceeds an issue index exactly when an operation of that
stream issued at it or later happens before. -/

namespace Dsa

open Theory

/-- One operation is issued before another on the same stream, or a dependency says so. -/
def Precedes (program : ScheduledProgram) (before after : OperationId) : Prop :=
  (∃ first ∈ program.operations, ∃ second ∈ program.operations, first.id = before ∧
    second.id = after ∧ first.stream = second.stream ∧ first.issueIndex < second.issueIndex) ∨
  ⟨before, after⟩ ∈ program.crossDependencies

/-- The reflexive transitive closure. -/
def HappensBefore (program : ScheduledProgram) : OperationId → OperationId → Prop :=
  Relation.ReflTransGen (Precedes program)

/-- Paths along the edges of the index. -/
def Reach (edges : List (ℕ × ℕ)) : ℕ → ℕ → Prop :=
  Relation.ReflTransGen fun before after => (before, after) ∈ edges

theorem Reach.mono {edges more : List (ℕ × ℕ)} (hsub : edges ⊆ more) {a b : ℕ}
    (h : Reach edges a b) : Reach more a b :=
  Relation.ReflTransGen.mono (fun _ _ hedge => hsub hedge) _ _ h

theorem rejectIf_eq_ok {condition : Bool} {what : String} {result : Unit} :
    rejectIf condition what = .ok result ↔ condition = false := by
  unfold rejectIf throwInvalid
  cases condition <;> simp

/-! ### The edges of a stream -/

section streams

variable {program : ScheduledProgram}

/-- The issue index of an operation as a number. -/
def issueOf (program : ScheduledProgram) (operation : ℕ) : ℕ :=
  (program.operationAt operation).issueIndex.toNat

theorem addEdge_eq_ok {before after : ℕ} {edge : ℕ × ℕ}
    (h : addEdge program before after = .ok edge) : edge = (before, after) := by
  simp only [addEdge, bind_eq_ok] at h
  obtain ⟨-, -, -, -, h⟩ := h
  exact (Except.ok.inj h).symm

/-- The edges of a sorted list of operations: they follow the issue order, and lead from every
operation to all the later ones. -/
theorem streamEdges_spec {operations : List ℕ} {edges : List (ℕ × ℕ)}
    (hsorted : operations.Pairwise (issuedBefore program))
    (h : streamEdges program operations = .ok edges) :
    operations.Pairwise (fun a b => issueOf program a < issueOf program b) ∧
      (∀ edge ∈ edges, edge.1 ∈ operations ∧ edge.2 ∈ operations ∧
        issueOf program edge.1 < issueOf program edge.2) ∧
      ∀ a ∈ operations, ∀ b ∈ operations, issueOf program a < issueOf program b →
        Reach edges a b := by
  induction operations generalizing edges with
  | nil =>
      obtain rfl := Except.ok.inj h
      simp
  | cons previous rest ih =>
      cases rest with
      | nil =>
          obtain rfl := Except.ok.inj h
          simp
      | cons current rest =>
          obtain ⟨hhead, htail⟩ := List.pairwise_cons.mp hsorted
          simp only [streamEdges, bind_eq_ok, rejectIf_eq_ok] at h
          obtain ⟨-, hne, edge, hedge, others, hothers, h⟩ := h
          obtain rfl := Except.ok.inj h
          obtain rfl := addEdge_eq_ok hedge
          obtain ⟨hstrict, hsound, hreach⟩ := ih htail hothers
          have hfirst : issueOf program previous < issueOf program current := by
            have hbefore := hhead current List.mem_cons_self
            rw [beq_eq_false_iff_ne] at hne
            obtain hlt | ⟨heq, -⟩ := hbefore
            · exact UInt64.lt_iff_toNat_lt.mp hlt
            · exact absurd heq hne
          have hcurrent : ∀ b ∈ rest, issueOf program current < issueOf program b :=
            (List.pairwise_cons.mp hstrict).1
          have hall : ∀ b ∈ current :: rest, issueOf program previous < issueOf program b := by
            intro b hb
            obtain rfl | hb := List.mem_cons.mp hb
            · exact hfirst
            · exact hfirst.trans (hcurrent b hb)
          refine ⟨List.pairwise_cons.mpr ⟨hall, hstrict⟩, ?_, ?_⟩
          · rintro edge hmem
            obtain rfl | hmem := List.mem_cons.mp hmem
            · exact ⟨List.mem_cons_self, List.mem_cons_of_mem _ List.mem_cons_self, hfirst⟩
            · obtain ⟨h1, h2, h3⟩ := hsound edge hmem
              exact ⟨List.mem_cons_of_mem _ h1, List.mem_cons_of_mem _ h2, h3⟩
          · intro a ha b hb hlt
            have hsub : others ⊆ (previous, current) :: others := List.subset_cons_self _ _
            obtain rfl | ha' := List.mem_cons.mp ha
            · obtain rfl | hb := List.mem_cons.mp hb
              · omega
              · have hstep : Reach ((a, current) :: others) a current :=
                  .single List.mem_cons_self
                obtain rfl | hb := List.mem_cons.mp hb
                · exact hstep
                · exact hstep.trans (Reach.mono hsub (hreach current List.mem_cons_self b
                    (List.mem_cons_of_mem _ hb) (hcurrent b hb)))
            · obtain rfl | hb' := List.mem_cons.mp hb
              · have := hall a ha'
                omega
              · exact Reach.mono hsub (hreach a ha' b hb' hlt)

theorem allStreamEdges_spec {streams : List ℕ} {edges : List (ℕ × ℕ)}
    (h : allStreamEdges program streams = .ok edges) :
    (∀ edge ∈ edges, ∃ stream ∈ streams, ∃ own, edge ∈ own ∧
        streamEdges program (streamOperations program stream) = .ok own) ∧
      ∀ stream ∈ streams, ∃ own, own ⊆ edges ∧
        streamEdges program (streamOperations program stream) = .ok own := by
  induction streams generalizing edges with
  | nil =>
      obtain rfl := Except.ok.inj h
      simp
  | cons stream rest ih =>
      simp only [allStreamEdges, bind_eq_ok] at h
      obtain ⟨own, hown, others, hothers, h⟩ := h
      obtain rfl := Except.ok.inj h
      obtain ⟨hsound, hcomplete⟩ := ih hothers
      constructor
      · intro edge hedge
        obtain hedge | hedge := List.mem_append.mp hedge
        · exact ⟨stream, List.mem_cons_self, own, hedge, hown⟩
        · obtain ⟨other, hother, own, hmem, heq⟩ := hsound edge hedge
          exact ⟨other, List.mem_cons_of_mem _ hother, own, hmem, heq⟩
      · intro other hother
        obtain rfl | hother := List.mem_cons.mp hother
        · exact ⟨own, List.subset_append_left _ _, hown⟩
        · obtain ⟨own', hsub, heq⟩ := hcomplete other hother
          exact ⟨own', List.Subset.trans hsub (List.subset_append_right _ _), heq⟩

theorem dependencyEdges_spec {dependencies : List ScheduledDependency} {edges : List (ℕ × ℕ)}
    (h : dependencyEdges program dependencies = .ok edges) :
    (∀ edge ∈ edges, ∃ dependency ∈ dependencies,
        operationIndex program dependency.before = some edge.1 ∧
        operationIndex program dependency.after = some edge.2) ∧
      ∀ dependency ∈ dependencies, ∃ before after,
        operationIndex program dependency.before = some before ∧
        operationIndex program dependency.after = some after ∧ (before, after) ∈ edges := by
  induction dependencies generalizing edges with
  | nil =>
      obtain rfl := Except.ok.inj h
      simp
  | cons dependency rest ih =>
      unfold dependencyEdges at h
      cases hbefore : operationIndex program dependency.before with
      | none => simp [hbefore, throwInvalid] at h
      | some before =>
          cases hafter : operationIndex program dependency.after with
          | none => simp [hbefore, hafter, throwInvalid] at h
          | some after =>
              simp only [hbefore, hafter, bind_eq_ok] at h
              obtain ⟨edge, hedge, others, hothers, h⟩ := h
              obtain rfl := Except.ok.inj h
              obtain rfl := addEdge_eq_ok hedge
              obtain ⟨hsound, hcomplete⟩ := ih hothers
              constructor
              · intro edge hmem
                obtain rfl | hmem := List.mem_cons.mp hmem
                · exact ⟨dependency, List.mem_cons_self, hbefore, hafter⟩
                · obtain ⟨other, hother, heq⟩ := hsound edge hmem
                  exact ⟨other, List.mem_cons_of_mem _ hother, heq⟩
              · intro other hother
                obtain rfl | hother := List.mem_cons.mp hother
                · exact ⟨before, after, hbefore, hafter, List.mem_cons_self⟩
                · obtain ⟨b, a, hb, ha, hmem⟩ := hcomplete other hother
                  exact ⟨b, a, hb, ha, List.mem_cons_of_mem _ hmem⟩

end streams

/-! ### What an accepted index says -/

section index

variable {program : ScheduledProgram}

theorem operationAt_eq {index : ℕ} (h : index < program.operations.length) :
    program.operationAt index = program.operations[index] :=
  List.getD_eq_getElem _ _ h

theorem operationIndex_lt {id : OperationId} {index : ℕ}
    (h : operationIndex program id = some index) :
    index < program.operations.length ∧ (program.operationAt index).id = id := by
  obtain ⟨hlt, heq, -⟩ := List.findIdx?_eq_some_iff_getElem.mp h
  rw [operationAt_eq hlt]
  exact ⟨hlt, by simpa using heq⟩

theorem checkOperations_spec {ids : List OperationId} {operations : List ScheduledOperation}
    {result : Unit} (h : checkOperations program ids operations = .ok result) :
    (∀ operation ∈ operations, operation.stream < program.streamCount ∧ operation.id ∉ ids) ∧
      (operations.map ScheduledOperation.id).Nodup := by
  induction operations generalizing ids with
  | nil => simp
  | cons operation rest ih =>
      simp only [checkOperations, bind_eq_ok, rejectIf_eq_ok] at h
      obtain ⟨-, hstream, -, hnew, h⟩ := h
      obtain ⟨hrest, hnodup⟩ := ih h
      have hnew' : operation.id ∉ ids := by simpa using hnew
      constructor
      · intro other hother
        obtain rfl | hother := List.mem_cons.mp hother
        · exact ⟨by simpa using hstream, hnew'⟩
        · obtain ⟨hlt, hnot⟩ := hrest other hother
          exact ⟨hlt, fun hmem => hnot (List.mem_cons_of_mem _ hmem)⟩
      · rw [List.map_cons, List.nodup_cons]
        refine ⟨fun hmem => ?_, hnodup⟩
        obtain ⟨other, hother, heq⟩ := List.mem_map.mp hmem
        exact (hrest other hother).2 (heq ▸ List.mem_cons_self)

/-- The facts about an index that the rest of the derivation uses. -/
structure IndexOk (program : ScheduledProgram) (indexed : IndexedProgram) : Prop where
  streams : ∀ index < program.operations.length,
    (program.operationAt index).stream < program.streamCount
  ids : (program.operations.map ScheduledOperation.id).Nodup
  edgeLt : ∀ edge ∈ indexed.edges, edge.1 < program.operations.length ∧
    edge.2 < program.operations.length
  edgeSound : ∀ edge ∈ indexed.edges,
    Precedes program (program.operationAt edge.1).id (program.operationAt edge.2).id
  stream : ∀ a < program.operations.length, ∀ b < program.operations.length,
    (program.operationAt a).stream = (program.operationAt b).stream →
    issueOf program a < issueOf program b → Reach indexed.edges a b
  injective : ∀ a < program.operations.length, ∀ b < program.operations.length,
    (program.operationAt a).stream = (program.operationAt b).stream →
    issueOf program a = issueOf program b → a = b
  dependency : ∀ dependency ∈ program.crossDependencies, ∃ before after,
    operationIndex program dependency.before = some before ∧
    operationIndex program dependency.after = some after ∧ (before, after) ∈ indexed.edges
  order : ∃ order, IsTopologicalOrder program.operations.length indexed.edges order ∧
    vectorClocks program indexed.edges order
      (List.replicate program.operations.length (List.replicate program.streamCount.toNat 0)) =
        .ok indexed.vectorClocks

theorem operationIndex_operationAt (hids : (program.operations.map ScheduledOperation.id).Nodup)
    {index : ℕ} (h : index < program.operations.length) :
    operationIndex program (program.operationAt index).id = some index := by
  cases hfind : operationIndex program (program.operationAt index).id with
  | none =>
      have := List.findIdx?_eq_none_iff.mp hfind (program.operationAt index) (by
        rw [operationAt_eq h]
        exact List.getElem_mem h)
      simp at this
  | some other =>
      obtain ⟨hlt, heq⟩ := operationIndex_lt hfind
      rw [operationAt_eq hlt, operationAt_eq h] at heq
      have hlt' : other < (program.operations.map ScheduledOperation.id).length := by simpa using hlt
      have h' : index < (program.operations.map ScheduledOperation.id).length := by simpa using h
      have hmap : (program.operations.map ScheduledOperation.id)[other] =
          (program.operations.map ScheduledOperation.id)[index] := by
        simpa using heq
      rw [hids.getElem_inj_iff.mp hmap]

/-! ### The index of an accepted program -/

instance : Std.Total (issuedBefore program) where
  total first second := by
    unfold issuedBefore
    simp only [UInt64.lt_iff_toNat_lt, UInt32.le_iff_toNat_le, ← UInt64.toNat_inj]
    omega

instance : IsTrans ℕ (issuedBefore program) where
  trans first second third := by
    unfold issuedBefore
    simp only [UInt64.lt_iff_toNat_lt, UInt32.le_iff_toNat_le, ← UInt64.toNat_inj]
    omega

theorem mem_streamOperations {stream index : ℕ} :
    index ∈ streamOperations program stream ↔
      index < program.operations.length ∧ (program.operationAt index).stream.toNat = stream := by
  simp [streamOperations, List.mem_insertionSort]

theorem streamOperations_edges {stream : ℕ} {edges : List (ℕ × ℕ)}
    (h : streamEdges program (streamOperations program stream) = .ok edges) :
    (streamOperations program stream).Pairwise
        (fun a b => issueOf program a < issueOf program b) ∧
      (∀ edge ∈ edges, edge.1 ∈ streamOperations program stream ∧
        edge.2 ∈ streamOperations program stream ∧
        issueOf program edge.1 < issueOf program edge.2) ∧
      ∀ a ∈ streamOperations program stream, ∀ b ∈ streamOperations program stream,
        issueOf program a < issueOf program b → Reach edges a b :=
  streamEdges_spec (List.pairwise_insertionSort _ _) h

/-- The operations an access names exist, and every buffer has an access. -/
structure AccessesOk (program : ScheduledProgram) (problem : DsaProblem) : Prop where
  known : ∀ access ∈ program.accesses, (operationIndex program access.operation).isSome
  accessed : ∀ buffer ∈ problem.buffers, accessesByBuffer program buffer.id ≠ []

theorem checkAccesses_spec {problem : DsaProblem} {accesses : List ScheduledBufferAccess}
    {result : Unit} (h : checkAccesses program problem accesses = .ok result) :
    ∀ access ∈ accesses, (operationIndex program access.operation).isSome := by
  induction accesses with
  | nil => simp
  | cons access rest ih =>
      simp only [checkAccesses, bind_eq_ok, rejectIf_eq_ok] at h
      obtain ⟨-, -, -, hknown, h⟩ := h
      intro other hother
      obtain rfl | hother := List.mem_cons.mp hother
      · simpa using hknown
      · exact ih h other hother

theorem checkAccessed_spec {buffers : List Buffer} {result : Unit}
    (h : checkAccessed program buffers = .ok result) :
    ∀ buffer ∈ buffers, accessesByBuffer program buffer.id ≠ [] := by
  induction buffers with
  | nil => simp
  | cons buffer rest ih =>
      simp only [checkAccessed, bind_eq_ok, rejectIf_eq_ok] at h
      obtain ⟨-, haccessed, h⟩ := h
      intro other hother
      obtain rfl | hother := List.mem_cons.mp hother
      · simpa using haccessed
      · exact ih h other hother

theorem buildIndex_spec {problem : DsaProblem} {indexed : IndexedProgram}
    (h : buildIndex program problem = .ok indexed) :
    IndexOk program indexed ∧ AccessesOk program problem := by
  simp only [buildIndex, bind_eq_ok, rejectIf_eq_ok] at h
  obtain ⟨-, -, -, -, _, hoperations, streams, hstreams, dependencies, hdependencies, -, hlength,
    clocks, hclocks, _, haccesses, _, haccessed, h⟩ := h
  obtain rfl := Except.ok.inj h
  obtain ⟨hstream, hids⟩ := checkOperations_spec hoperations
  obtain ⟨hstreamSound, hstreamAll⟩ := allStreamEdges_spec hstreams
  obtain ⟨hdepSound, hdepAll⟩ := dependencyEdges_spec hdependencies
  have hat : ∀ index < program.operations.length,
      program.operationAt index ∈ program.operations := fun index hindex => by
    rw [operationAt_eq hindex]
    exact List.getElem_mem hindex
  have hlt : ∀ index < program.operations.length,
      (program.operationAt index).stream < program.streamCount :=
    fun index hindex => (hstream _ (hat index hindex)).1
  -- the list of operations of the stream of an operation, with its edges
  have hown : ∀ index < program.operations.length, ∃ own, own ⊆ streams ∧
      streamEdges program
        (streamOperations program (program.operationAt index).stream.toNat) = .ok own :=
    fun index hindex => hstreamAll _ (List.mem_range.mpr (hlt index hindex))
  have hedgeLt : ∀ edge ∈ streams ++ dependencies, edge.1 < program.operations.length ∧
      edge.2 < program.operations.length := by
    intro edge hedge
    obtain hedge | hedge := List.mem_append.mp hedge
    · obtain ⟨stream, -, own, hmem, hedges⟩ := hstreamSound edge hedge
      obtain ⟨h1, h2, -⟩ := (streamOperations_edges hedges).2.1 edge hmem
      exact ⟨(mem_streamOperations.mp h1).1, (mem_streamOperations.mp h2).1⟩
    · obtain ⟨dependency, -, hbefore, hafter⟩ := hdepSound edge hedge
      exact ⟨(operationIndex_lt hbefore).1, (operationIndex_lt hafter).1⟩
  refine ⟨⟨hlt, hids, hedgeLt, ?_, ?_, ?_, ?_, ?_⟩,
    checkAccesses_spec haccesses, checkAccessed_spec haccessed⟩
  · intro edge hedge
    obtain hedge | hedge := List.mem_append.mp hedge
    · obtain ⟨stream, -, own, hmem, hedges⟩ := hstreamSound edge hedge
      obtain ⟨h1, h2, hissue⟩ := (streamOperations_edges hedges).2.1 edge hmem
      obtain ⟨hlt1, heq1⟩ := mem_streamOperations.mp h1
      obtain ⟨hlt2, heq2⟩ := mem_streamOperations.mp h2
      exact .inl ⟨_, hat _ hlt1, _, hat _ hlt2, rfl, rfl,
        UInt32.toNat_inj.mp (heq1.trans heq2.symm), UInt64.lt_iff_toNat_lt.mpr hissue⟩
    · obtain ⟨⟨before, after⟩, hmem, hbefore, hafter⟩ := hdepSound edge hedge
      rw [(operationIndex_lt hbefore).2, (operationIndex_lt hafter).2]
      exact .inr hmem
  · intro a ha b hb heq hissue
    obtain ⟨own, hsub, hedges⟩ := hown a ha
    have hreach := (streamOperations_edges hedges).2.2 a (mem_streamOperations.mpr ⟨ha, rfl⟩) b
      (mem_streamOperations.mpr ⟨hb, by rw [heq]⟩) hissue
    exact hreach.mono (List.Subset.trans hsub (List.subset_append_left _ _))
  · intro a ha b hb heq hissue
    obtain ⟨own, -, hedges⟩ := hown a ha
    obtain ⟨hpairwise, -⟩ := streamOperations_edges hedges
    have hnodup : ((streamOperations program
        (program.operationAt a).stream.toNat).map (issueOf program)).Nodup :=
      List.pairwise_map.mpr (hpairwise.imp fun hlt => Nat.ne_of_lt hlt)
    exact List.inj_on_of_nodup_map hnodup (mem_streamOperations.mpr ⟨ha, rfl⟩)
      (mem_streamOperations.mpr ⟨hb, by rw [heq]⟩) hissue
  · intro dependency hdependency
    obtain ⟨before, after, hbefore, hafter, hmem⟩ := hdepAll dependency hdependency
    exact ⟨before, after, hbefore, hafter, List.mem_append_right _ hmem⟩
  · refine ⟨_, isTopologicalOrder_of_length (fun edge hedge => (hedgeLt edge hedge).2) ?_, hclocks⟩
    simpa using hlength

end index

/-! ### The vector clocks -/

section clocks

variable {program : ScheduledProgram} {edges : List (ℕ × ℕ)}

theorem mem_predecessors {operation before : ℕ} :
    before ∈ predecessors program edges operation ↔
      before < program.operations.length ∧ (before, operation) ∈ edges := by
  unfold predecessors
  rw [List.mem_flatMap]
  constructor
  · rintro ⟨source, hsource, hmem⟩
    obtain ⟨target, htarget, rfl⟩ := List.mem_map.mp hmem
    obtain ⟨hsucc, heq⟩ := List.mem_filter.mp htarget
    obtain rfl := beq_iff_eq.mp heq
    exact ⟨List.mem_range.mp hsource, Kahn.mem_successors.mp hsucc⟩
  · rintro ⟨hlt, hedge⟩
    exact ⟨before, List.mem_range.mpr hlt, List.mem_map.mpr ⟨operation,
      List.mem_filter.mpr ⟨Kahn.mem_successors.mpr hedge, beq_self_eq_true _⟩, rfl⟩⟩

/-- The merge of the clocks of the predecessors is the pointwise maximum. -/
theorem foldl_merge (clocks : List (List UInt64)) (nodes : List ℕ) (clock : List UInt64)
    {stream : ℕ} (hstream : stream < clock.length) :
    (nodes.foldl (fun clock predecessor => clock.mapIdx fun stream value =>
        max value (clockAt clocks predecessor stream)) clock).length = clock.length ∧
      ∀ k, k < ((nodes.foldl (fun clock predecessor => clock.mapIdx fun stream value =>
          max value (clockAt clocks predecessor stream)) clock).getD stream 0).toNat ↔
        k < (clock.getD stream 0).toNat ∨
          ∃ node ∈ nodes, k < (clockAt clocks node stream).toNat := by
  induction nodes generalizing clock with
  | nil => simp
  | cons node rest ih =>
      have hlength : (clock.mapIdx fun stream value =>
          max value (clockAt clocks node stream)).length = clock.length := List.length_mapIdx
      have hget : (clock.mapIdx fun stream value =>
          max value (clockAt clocks node stream)).getD stream 0 =
            max (clock.getD stream 0) (clockAt clocks node stream) := by
        rw [List.getD_eq_getElem _ _ (by omega), List.getD_eq_getElem _ _ hstream,
          List.getElem_mapIdx]
      obtain ⟨hlen, hiff⟩ := ih (clock.mapIdx fun stream value =>
        max value (clockAt clocks node stream)) (by omega)
      refine ⟨hlen.trans hlength, fun k => ?_⟩
      rw [List.foldl_cons, hiff, hget, Theory.toNat_max, lt_max_iff, List.exists_mem_cons_iff,
        or_assoc]

/-- The clock of an operation counts what happened before it. -/
def ClockOk (program : ScheduledProgram) (edges : List (ℕ × ℕ)) (clocks : List (List UInt64))
    (operation : ℕ) : Prop :=
  ∀ stream < program.streamCount.toNat, ∀ k, k < (clockAt clocks operation stream).toNat ↔
    ∃ source < program.operations.length, Reach edges source operation ∧
      (program.operationAt source).stream.toNat = stream ∧ k ≤ issueOf program source

theorem nextClock_spec {clocks : List (List UInt64)} {operation : ℕ}
    (hlt : operation < program.operations.length)
    (hissue : (program.operationAt operation).issueIndex ≠ maxU64)
    (hpast : ∀ before < program.operations.length, (before, operation) ∈ edges →
      ClockOk program edges clocks before)
    (hedges : ∀ edge ∈ edges, edge.1 < program.operations.length) :
    ∀ stream < program.streamCount.toNat, ∀ k,
      k < ((nextClock program edges clocks operation).getD stream 0).toNat ↔
        ∃ source < program.operations.length, Reach edges source operation ∧
          (program.operationAt source).stream.toNat = stream ∧ k ≤ issueOf program source := by
  intro stream hlt' k
  have hreplicate : stream < (List.replicate program.streamCount.toNat (0 : UInt64)).length := by
    rw [List.length_replicate]
    exact hlt'
  obtain ⟨hlength, hmerged⟩ :=
    foldl_merge clocks (predecessors program edges operation) _ hreplicate
  rw [List.length_replicate] at hlength
  have hzero : (List.replicate program.streamCount.toNat (0 : UInt64)).getD stream 0 = 0 := by
    rw [List.getD_eq_getElem _ _ hreplicate, List.getElem_replicate]
  -- what the predecessors contribute
  have hbefore : k < (((predecessors program edges operation).foldl
      (fun (clock : List UInt64) predecessor => clock.mapIdx fun stream value =>
        max value (clockAt clocks predecessor stream))
      (List.replicate program.streamCount.toNat 0)).getD stream 0).toNat ↔
      ∃ before, (before, operation) ∈ edges ∧ ∃ source < program.operations.length,
        Reach edges source before ∧ (program.operationAt source).stream.toNat = stream ∧
          k ≤ issueOf program source := by
    rw [hmerged, hzero]
    simp only [UInt64.toNat_zero, Nat.not_lt_zero, false_or]
    constructor
    · rintro ⟨before, hmem, hk⟩
      obtain ⟨hbefore, hedge⟩ := mem_predecessors.mp hmem
      exact ⟨before, hedge, (hpast before hbefore hedge stream hlt' k).mp hk⟩
    · rintro ⟨before, hedge, hsource⟩
      have hbefore := hedges _ hedge
      exact ⟨before, mem_predecessors.mpr ⟨hbefore, hedge⟩,
        (hpast before hbefore hedge stream hlt' k).mpr hsource⟩
  have hsucc : ((program.operationAt operation).issueIndex + 1).toNat =
      issueOf program operation + 1 := by
    have hne : (program.operationAt operation).issueIndex.toNat ≠ 2 ^ 64 - 1 :=
      fun h => hissue (UInt64.toNat_inj.mp (h.trans rfl))
    have hbound := (program.operationAt operation).issueIndex.toNat_lt
    rw [toNat_add_of_lt (by change _ + 1 < _; omega)]
    rfl
  unfold nextClock
  dsimp only
  by_cases heq : stream = (program.operationAt operation).stream.toNat
  · subst heq
    rw [List.getD_eq_getElem _ _ (by rw [List.length_set]; omega), List.getElem_set_self,
      Theory.toNat_max, lt_max_iff, hbefore, hsucc, Nat.lt_succ_iff]
    constructor
    · rintro (⟨before, hedge, source, hsource, hreach, hrest⟩ | hk)
      · exact ⟨source, hsource, hreach.tail hedge, hrest⟩
      · exact ⟨operation, hlt, .refl, rfl, hk⟩
    · rintro ⟨source, hsource, hreach, hrest⟩
      obtain rfl | ⟨before, hreach, hedge⟩ := Relation.ReflTransGen.cases_tail hreach
      · exact .inr hrest.2
      · exact .inl ⟨before, hedge, source, hsource, hreach, hrest⟩
  · rw [List.getD_eq_getElem?_getD, List.getElem?_set_ne (Ne.symm heq),
      ← List.getD_eq_getElem?_getD, hbefore]
    constructor
    · rintro ⟨before, hedge, source, hsource, hreach, hrest⟩
      exact ⟨source, hsource, hreach.tail hedge, hrest⟩
    · rintro ⟨source, hsource, hreach, hrest⟩
      obtain rfl | ⟨before, hreach, hedge⟩ := Relation.ReflTransGen.cases_tail hreach
      · exact absurd hrest.1.symm heq
      · exact ⟨before, hedge, source, hsource, hreach, hrest⟩

/-- The loop gives every operation its clock: those done keep theirs, and the next one finds
all its predecessors among them. -/
theorem vectorClocks_spec {order : List ℕ}
    (horder : IsTopologicalOrder program.operations.length edges order)
    (hedges : ∀ edge ∈ edges, edge.1 < program.operations.length) (done rest : List ℕ)
    (hsplit : order = done ++ rest) {clocks result : List (List UInt64)}
    (hlength : clocks.length = program.operations.length)
    (hdone : ∀ operation ∈ done, ClockOk program edges clocks operation)
    (h : vectorClocks program edges rest clocks = .ok result) :
    ∀ operation < program.operations.length, ClockOk program edges result operation := by
  induction rest generalizing done clocks with
  | nil =>
      obtain rfl := Except.ok.inj h
      intro operation hoperation
      refine hdone operation ?_
      have := (horder.mem operation).mpr hoperation
      rwa [hsplit, List.append_nil] at this
  | cons operation rest ih =>
      simp only [vectorClocks, bind_eq_ok, rejectIf_eq_ok] at h
      obtain ⟨-, hissue, h⟩ := h
      have hlt : operation < program.operations.length :=
        (horder.mem operation).mp (by rw [hsplit]; simp)
      have hnodup := horder.nodup
      rw [hsplit] at hnodup
      have hnew : operation ∉ done := fun hmem =>
        (List.nodup_append.mp hnodup).2.2 operation hmem operation List.mem_cons_self rfl
      refine ih (done ++ [operation]) (by simp [hsplit]) ?_ ?_ h
      · rw [List.length_set, hlength]
      · intro other hother
        unfold ClockOk clockAt
        obtain hother | hother := List.mem_append.mp hother
        · have hne : operation ≠ other := fun heq => hnew (heq ▸ hother)
          rw [@List.getD_eq_getElem?_getD _ (clocks.set _ _), List.getElem?_set_ne hne,
            ← List.getD_eq_getElem?_getD]
          exact hdone other hother
        · obtain rfl := List.mem_singleton.mp hother
          rw [List.getD_eq_getElem (clocks.set _ _) _ (by rw [List.length_set, hlength]; exact hlt),
            List.getElem_set_self]
          refine nextClock_spec hlt (by simpa using hissue) ?_ hedges
          intro before _ hedge
          exact hdone before (horder.closed done other rest hsplit before hedge)

end clocks

/-! ### The clocks decide happens-before -/

section decide

variable {program : ScheduledProgram} {indexed : IndexedProgram}

theorem exists_operationAt {operation : ScheduledOperation} (h : operation ∈ program.operations) :
    ∃ index < program.operations.length, program.operationAt index = operation := by
  obtain ⟨index, hlt, heq⟩ := List.getElem_of_mem h
  exact ⟨index, hlt, (operationAt_eq hlt).trans heq⟩

theorem IndexOk.eq_of_id (h : IndexOk program indexed) {a b : ℕ}
    (ha : a < program.operations.length) (hb : b < program.operations.length)
    (heq : (program.operationAt a).id = (program.operationAt b).id) : a = b := by
  have hindex := operationIndex_operationAt h.ids ha
  rw [heq, operationIndex_operationAt h.ids hb] at hindex
  exact (Option.some.inj hindex).symm

/-- A same-stream issue order or a dependency is a path of edges. -/
theorem IndexOk.reach_of_precedes (h : IndexOk program indexed) {a b : ℕ}
    (ha : a < program.operations.length) (hb : b < program.operations.length)
    (hprecedes : Precedes program (program.operationAt a).id (program.operationAt b).id) :
    Reach indexed.edges a b := by
  obtain ⟨first, hfirst, second, hsecond, hid1, hid2, hstream, hissue⟩ | hdependency := hprecedes
  · obtain ⟨i, hi, rfl⟩ := exists_operationAt hfirst
    obtain ⟨j, hj, rfl⟩ := exists_operationAt hsecond
    obtain rfl := h.eq_of_id hi ha hid1
    obtain rfl := h.eq_of_id hj hb hid2
    exact h.stream i hi j hj hstream (UInt64.lt_iff_toNat_lt.mp hissue)
  · obtain ⟨i, j, hi, hj, hedge⟩ := h.dependency _ hdependency
    obtain ⟨hi', hid1⟩ := operationIndex_lt hi
    obtain ⟨hj', hid2⟩ := operationIndex_lt hj
    obtain rfl := h.eq_of_id hi' ha hid1
    obtain rfl := h.eq_of_id hj' hb hid2
    exact .single hedge

theorem IndexOk.exists_of_precedes (h : IndexOk program indexed) {before after : OperationId}
    (hprecedes : Precedes program before after) :
    ∃ index < program.operations.length, (program.operationAt index).id = after := by
  obtain ⟨-, -, second, hsecond, -, rfl, -⟩ | hdependency := hprecedes
  · obtain ⟨j, hj, rfl⟩ := exists_operationAt hsecond
    exact ⟨j, hj, rfl⟩
  · obtain ⟨-, j, -, hj, -⟩ := h.dependency _ hdependency
    exact ⟨j, operationIndex_lt hj⟩

theorem IndexOk.reach_iff (h : IndexOk program indexed) {a b : ℕ}
    (ha : a < program.operations.length) (hb : b < program.operations.length) :
    Reach indexed.edges a b ↔
      HappensBefore program (program.operationAt a).id (program.operationAt b).id := by
  constructor
  · intro hreach
    induction hreach with
    | refl => exact .refl
    | tail _ hedge ih => exact (ih (h.edgeLt _ hedge).1).tail (h.edgeSound _ hedge)
  · -- along the path, from the last operation backwards
    intro hbefore
    suffices hgeneral : ∀ id, HappensBefore program id (program.operationAt b).id →
        ∀ i < program.operations.length, (program.operationAt i).id = id →
          Reach indexed.edges i b from hgeneral _ hbefore a ha rfl
    intro id hpath
    induction hpath using Relation.ReflTransGen.head_induction_on with
    | refl =>
        intro i hi hid
        rw [h.eq_of_id hi hb hid]
        exact .refl
    | head hstep _ ih =>
        intro i hi hid
        obtain ⟨j, hj, hjd⟩ := h.exists_of_precedes hstep
        subst hid
        subst hjd
        exact (h.reach_of_precedes hi hj hstep).trans (ih j hj rfl)

theorem IndexOk.clockOk (h : IndexOk program indexed) :
    ∀ operation < program.operations.length,
      ClockOk program indexed.edges indexed.vectorClocks operation := by
  obtain ⟨order, horder, hclocks⟩ := h.order
  exact vectorClocks_spec horder (fun edge hedge => (h.edgeLt edge hedge).1) [] order rfl
    List.length_replicate (by simp) hclocks

/-- `Ordered` decides happens-before. -/
theorem IndexOk.ordered_iff (h : IndexOk program indexed) {a b : ℕ}
    (ha : a < program.operations.length) (hb : b < program.operations.length) :
    ordered program indexed a b = true ↔
      HappensBefore program (program.operationAt a).id (program.operationAt b).id := by
  rw [← h.reach_iff ha hb]
  have hstream : (program.operationAt a).stream.toNat < program.streamCount.toNat := h.streams a ha
  have hclock := h.clockOk b hb _ hstream (issueOf program a)
  unfold ordered
  rw [Bool.or_eq_true, beq_iff_eq, decide_eq_true_iff, gt_iff_lt, UInt64.lt_iff_toNat_lt]
  change a = b ∨ issueOf program a < _ ↔ _
  rw [hclock]
  constructor
  · rintro (rfl | ⟨source, hsource, hreach, hstream, hissue⟩)
    · exact .refl
    · have hsame := UInt32.toNat_inj.mp hstream
      obtain hlt | heq := Nat.lt_or_eq_of_le hissue
      · exact (h.stream a ha source hsource hsame.symm hlt).trans hreach
      · obtain rfl := h.injective a ha source hsource hsame.symm heq
        exact hreach
  · intro hreach
    exact .inr ⟨a, ha, hreach, rfl, le_refl _⟩

/-- The position in the topological order grows along every path. -/
theorem IndexOk.exists_rank (h : IndexOk program indexed) :
    ∃ rank : ℕ → ℕ, (∀ x, rank x ≤ program.operations.length) ∧
      ∀ {x y}, Reach indexed.edges x y → x = y ∨ rank x < rank y := by
  obtain ⟨order, horder, -⟩ := h.order
  have hperm : order.Perm (List.range program.operations.length) :=
    (List.perm_ext_iff_of_nodup horder.nodup List.nodup_range).mpr fun node => by
      rw [horder.mem, List.mem_range]
  refine ⟨order.idxOf, fun x => ?_, fun {x y} hreach => ?_⟩
  · have := hperm.length_eq
    rw [List.length_range] at this
    exact this ▸ List.idxOf_le_length
  · induction hreach with
    | refl => exact .inl rfl
    | tail _ hedge ih =>
        beta_reduce at ih ⊢
        have := horder.idxOf_lt hedge (h.edgeLt _ hedge).2
        obtain rfl | hlt := ih
        · exact .inr this
        · exact .inr (by omega)

/-- Happens-before is a partial order on the operations. -/
theorem IndexOk.antisymm (h : IndexOk program indexed) {a b : ℕ}
    (hab : Reach indexed.edges a b) (hba : Reach indexed.edges b a) : a = b := by
  obtain ⟨rank, -, hrank⟩ := h.exists_rank
  obtain heq | hlt := hrank hab
  · exact heq
  · obtain heq | hlt' := hrank hba
    · exact heq.symm
    · omega

end decide

end Dsa
