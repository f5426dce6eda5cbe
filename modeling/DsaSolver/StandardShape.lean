import DsaSolver.Pairs
import DsaSolver.Peaks
import DsaSolver.StructuredProblem
import DsaSolver.Theory.RankCompression
import DsaSolver.Theory.Text
import Mathlib.Data.List.Sort

/-! # The shape of a standard problem

`CanonicalStandardShape` of `dsa_suite.cpp`: the sizes of the buffers with the ranks of their
lifetime ends, sorted and written as text.  Two problems have one shape exactly when a bijection
of their buffers and a strictly increasing map of their lifetime ends carry one to the other
(`canonicalStandardShape_eq_iff`), and then they have the same placements up to renaming
(`achieves_of_isomorphic`). -/

namespace Dsa

open Theory

/-! ### `CanonicalStandardShape` -/

/-- `live_intervals.front()`. -/
def frontInterval (buffer : Buffer) : Interval := buffer.liveIntervals.headD {}

/-- `event_values`, ascending. -/
def eventValues (problem : DsaProblem) : List Int64 :=
  (problem.buffers.foldl
    (fun values buffer =>
      (values.insert (frontInterval buffer).lower).insert (frontInterval buffer).upper)
    (∅ : Std.TreeSet Int64)).toList

/-- `event_rank.at`. -/
def eventRank (problem : DsaProblem) (event : Int64) : ℕ := (eventValues problem).idxOf event

/-- A size with the ranks of the ends of a lifetime. -/
structure BufferShape where
  size : UInt64
  lower : ℕ
  upper : ℕ
deriving DecidableEq, Repr

/-- The order of the tuples. -/
def shapeBefore (first second : BufferShape) : Prop :=
  first.size < second.size ∨ first.size = second.size ∧
    (first.lower < second.lower ∨ first.lower = second.lower ∧ first.upper ≤ second.upper)

instance shapeBefore.instDecidable (first second : BufferShape) :
    Decidable (shapeBefore first second) := inferInstanceAs (Decidable (_ ∨ _))

def bufferShape (problem : DsaProblem) (buffer : Buffer) : BufferShape where
  size := buffer.size
  lower := eventRank problem (frontInterval buffer).lower
  upper := eventRank problem (frontInterval buffer).upper

def shapeText (shape : BufferShape) : String :=
  toString shape.size ++ ":" ++ toString shape.lower ++ ":" ++ toString shape.upper ++ ";"

/-- `CanonicalStandardShape`. -/
def canonicalStandardShape (problem : DsaProblem) : Except Exception String :=
  if problem.buffers.any fun buffer => buffer.liveIntervals.length != 1 then
    .error (.logicError "standard shape fingerprint requires one interval per buffer")
  else
    .ok (((problem.buffers.map (bufferShape problem)).insertionSort shapeBefore).foldl
      (fun output shape => output ++ shapeText shape) "")

/-! ### The text determines the shapes -/

theorem foldl_shapeText (shapes : List BufferShape) (output : String) :
    shapes.foldl (fun output shape => output ++ shapeText shape) output =
      output ++ shapes.foldl (fun output shape => output ++ shapeText shape) "" := by
  induction shapes generalizing output with
  | nil => simp
  | cons shape rest ih =>
      rw [List.foldl_cons, List.foldl_cons, ih, ih ("" ++ shapeText shape), String.empty_append,
        String.append_assoc]

theorem shapeText_append_inj {first second : BufferShape} {s t : String}
    (h : shapeText first ++ s = shapeText second ++ t) : first = second ∧ s = t := by
  obtain ⟨size, lower, upper⟩ := first
  obtain ⟨size', lower', upper'⟩ := second
  have hsize : ∀ value : UInt64, toString value = Nat.repr value.toNat := fun _ => rfl
  have hnat : ∀ value : ℕ, toString value = Nat.repr value := fun _ => rfl
  have hdigit : ∀ (s t : String), NoLeadingDigit (":" ++ s) ∧ NoLeadingDigit (";" ++ t) := by
    intro s t
    constructor <;> simp [NoLeadingDigit, String.toList_append]
  simp only [shapeText, hsize, hnat, String.append_assoc] at h
  obtain ⟨h1, h⟩ := repr_append_inj (hdigit _ "").1 (hdigit _ "").1 h
  obtain ⟨h2, h⟩ := repr_append_inj (hdigit _ "").1 (hdigit _ "").1 (String.append_right_inj _ |>.mp h)
  obtain ⟨h3, h⟩ := repr_append_inj (hdigit "" _).2 (hdigit "" _).2 (String.append_right_inj _ |>.mp h)
  rw [UInt64.toNat_inj.mp h1, h2, h3]
  exact ⟨rfl, String.append_right_inj _ |>.mp h⟩

theorem shapes_eq_of_text {first second : List BufferShape}
    (h : first.foldl (fun output shape => output ++ shapeText shape) "" =
      second.foldl (fun output shape => output ++ shapeText shape) "") : first = second := by
  have hne : ∀ (shape : BufferShape) (s : String), shapeText shape ++ s ≠ "" := by
    intro shape s heq
    have := congrArg String.toList heq
    simp [shapeText, String.toList_append] at this
  induction first generalizing second with
  | nil =>
      cases second with
      | nil => rfl
      | cons shape rest =>
          rw [List.foldl_nil, List.foldl_cons, foldl_shapeText, String.empty_append] at h
          exact absurd h.symm (hne shape _)
  | cons shape rest ih =>
      rw [List.foldl_cons, foldl_shapeText, String.empty_append] at h
      cases second with
      | nil => exact absurd h (hne shape _)
      | cons shape' rest' =>
          rw [List.foldl_cons, foldl_shapeText _ ("" ++ shapeText shape'), String.empty_append] at h
          obtain ⟨hshape, hrest⟩ := shapeText_append_inj h
          rw [hshape, ih hrest]

/-! ### Sorted shapes -/

instance shapeBefore.instTotal : Std.Total shapeBefore where
  total first second := by
    unfold shapeBefore
    rcases Nat.lt_trichotomy first.size.toNat second.size.toNat with hlt | heq | hgt
    · exact .inl (.inl (UInt64.lt_iff_toNat_lt.mpr hlt))
    · rw [UInt64.toNat_inj] at heq
      simp only [heq, UInt64.lt_irrefl, true_and, false_or]
      omega
    · exact .inr (.inl (UInt64.lt_iff_toNat_lt.mpr hgt))

instance shapeBefore.instTrans : IsTrans BufferShape shapeBefore where
  trans first second third := by
    unfold shapeBefore
    rintro (h | ⟨h, h'⟩) (k | ⟨k, k'⟩)
    · exact .inl (UInt64.lt_trans h k)
    · exact .inl (k ▸ h)
    · exact .inl (h ▸ k)
    · exact .inr ⟨h.trans k, by omega⟩

theorem shapeBefore_antisymm {first second : BufferShape} (h : shapeBefore first second)
    (h' : shapeBefore second first) : first = second := by
  obtain ⟨size, lower, upper⟩ := first
  obtain ⟨size', lower', upper'⟩ := second
  unfold shapeBefore at h h'
  dsimp only at h h'
  have hsize : size = size' := by
    rcases h with h | h
    · rcases h' with h' | h'
      · exact absurd (UInt64.lt_trans h h') (UInt64.lt_irrefl _)
      · exact h'.1.symm
    · exact h.1
  subst hsize
  simp only [UInt64.lt_irrefl, true_and, false_or] at h h'
  obtain rfl : lower = lower' := by omega
  obtain rfl : upper = upper' := by omega
  rfl

theorem insertionSort_shapes_eq_iff {first second : List BufferShape} :
    first.insertionSort shapeBefore = second.insertionSort shapeBefore ↔ first.Perm second := by
  have hfirst := List.perm_insertionSort shapeBefore first
  have hsecond := List.perm_insertionSort shapeBefore second
  constructor
  · intro h
    rw [h] at hfirst
    exact hfirst.symm.trans hsecond
  · intro h
    exact ((hfirst.trans h).trans hsecond.symm).eq_of_pairwise
      (fun _ _ _ _ => shapeBefore_antisymm) (List.pairwise_insertionSort _ first)
      (List.pairwise_insertionSort _ second)

/-- Each buffer has one lifetime interval. -/
def OneInterval (problem : DsaProblem) : Prop :=
  ∀ buffer ∈ problem.buffers, buffer.liveIntervals.length = 1

theorem canonicalStandardShape_ok {problem : DsaProblem} (h : OneInterval problem) :
    canonicalStandardShape problem =
      .ok (((problem.buffers.map (bufferShape problem)).insertionSort shapeBefore).foldl
        (fun output shape => output ++ shapeText shape) "") := by
  unfold canonicalStandardShape
  rw [if_neg]
  simpa [OneInterval] using h

theorem canonicalStandardShape_eq_iff_perm {first second : DsaProblem} (hfirst : OneInterval first)
    (hsecond : OneInterval second) :
    canonicalStandardShape first = canonicalStandardShape second ↔
      (first.buffers.map (bufferShape first)).Perm (second.buffers.map (bufferShape second)) := by
  rw [canonicalStandardShape_ok hfirst, canonicalStandardShape_ok hsecond,
    ← insertionSort_shapes_eq_iff]
  constructor
  · exact fun h => shapes_eq_of_text (Except.ok.inj h)
  · exact fun h => by rw [h]

/-! ### Ranks of lifetime ends -/

/-- An end of a lifetime of the problem. -/
def LifetimeEnd (problem : DsaProblem) (event : Int64) : Prop :=
  ∃ buffer ∈ problem.buffers,
    event = (frontInterval buffer).lower ∨ event = (frontInterval buffer).upper

theorem mem_eventValues {problem : DsaProblem} {event : Int64} :
    event ∈ eventValues problem ↔ LifetimeEnd problem event := by
  have key : ∀ (buffers : List Buffer) (values : Std.TreeSet Int64),
      event ∈ buffers.foldl (fun values buffer =>
        (values.insert (frontInterval buffer).lower).insert (frontInterval buffer).upper) values ↔
      event ∈ values ∨ ∃ buffer ∈ buffers,
        event = (frontInterval buffer).lower ∨ event = (frontInterval buffer).upper := by
    intro buffers
    induction buffers with
    | nil => simp
    | cons buffer rest ih =>
        intro values
        rw [List.foldl_cons, ih]
        simp only [Std.TreeSet.mem_insert, Std.LawfulEqCmp.compare_eq_iff_eq,
          List.exists_mem_cons_iff, @eq_comm Int64 event]
        generalize (∃ buffer ∈ rest, (frontInterval buffer).lower = event ∨
          (frontInterval buffer).upper = event) = later
        tauto
  rw [eventValues, Std.TreeSet.mem_toList, key]
  simp [LifetimeEnd]

theorem pairwise_eventValues (problem : DsaProblem) : (eventValues problem).Pairwise (· < ·) :=
  Std.TreeSet.ordered_toList.imp fun h => Std.compare_eq_lt.mp h

theorem int64_lt_asymm (a b : Int64) (h : a < b) : ¬ b < a :=
  Int64.lt_asymm h

theorem int64_lt_or_lt (a b : Int64) (h : a ≠ b) : a < b ∨ b < a :=
  Int64.lt_or_lt_of_ne h

/-! ### Isomorphic problems -/

/-- A bijection of the buffers and a strictly increasing map of the lifetime ends that keep the
size and the lifetime of every buffer. -/
structure ShapeIso (first second : DsaProblem)
    (buffers : Fin first.buffers.length ≃ Fin second.buffers.length) (times : Int64 → Int64) :
    Prop where
  increasing : ∀ s t, LifetimeEnd first s → LifetimeEnd first t → s < t → times s < times t
  size : ∀ i, (second.buffers.get (buffers i)).size = (first.buffers.get i).size
  lower : ∀ i, (frontInterval (second.buffers.get (buffers i))).lower =
    times (frontInterval (first.buffers.get i)).lower
  upper : ∀ i, (frontInterval (second.buffers.get (buffers i))).upper =
    times (frontInterval (first.buffers.get i)).upper

/-- The problems differ in the names and the order of the buffers and in the times only. -/
def Isomorphic (first second : DsaProblem) : Prop :=
  ∃ buffers times, ShapeIso first second buffers times

section isomorphic

variable {first second : DsaProblem}

theorem lifetimeEnd_lower (i : Fin first.buffers.length) :
    LifetimeEnd first (frontInterval (first.buffers.get i)).lower :=
  ⟨_, List.get_mem _ i, .inl rfl⟩

theorem lifetimeEnd_upper (i : Fin first.buffers.length) :
    LifetimeEnd first (frontInterval (first.buffers.get i)).upper :=
  ⟨_, List.get_mem _ i, .inr rfl⟩

/-- The map of the times is onto the lifetime ends of the second problem. -/
theorem ShapeIso.lifetimeEnd_iff {buffers : Fin first.buffers.length ≃ Fin second.buffers.length}
    {times : Int64 → Int64} (h : ShapeIso first second buffers times) (event : Int64) :
    LifetimeEnd second event ↔ ∃ original, LifetimeEnd first original ∧ times original = event := by
  constructor
  · rintro ⟨buffer, hbuffer, hevent⟩
    obtain ⟨j, rfl⟩ := List.mem_iff_get.mp hbuffer
    obtain ⟨i, rfl⟩ := buffers.surjective j
    rcases hevent with rfl | rfl
    · exact ⟨_, lifetimeEnd_lower i, (h.lower i).symm⟩
    · exact ⟨_, lifetimeEnd_upper i, (h.upper i).symm⟩
  · rintro ⟨original, ⟨buffer, hbuffer, horiginal⟩, rfl⟩
    obtain ⟨i, rfl⟩ := List.mem_iff_get.mp hbuffer
    rcases horiginal with rfl | rfl
    · rw [← h.lower]
      exact lifetimeEnd_lower _
    · rw [← h.upper]
      exact lifetimeEnd_upper _

theorem ShapeIso.eventRank_eq {buffers : Fin first.buffers.length ≃ Fin second.buffers.length}
    {times : Int64 → Int64} (h : ShapeIso first second buffers times) {event : Int64}
    (hevent : LifetimeEnd first event) : eventRank second (times event) = eventRank first event := by
  refine idxOf_eq_of_map int64_lt_asymm (pairwise_eventValues first) (pairwise_eventValues second)
    int64_lt_or_lt ?_ ?_ (mem_eventValues.mpr hevent)
  · exact fun s hs t ht => h.increasing s t (mem_eventValues.mp hs) (mem_eventValues.mp ht)
  · intro b
    simp only [mem_eventValues]
    exact h.lifetimeEnd_iff b

theorem ShapeIso.perm {buffers : Fin first.buffers.length ≃ Fin second.buffers.length}
    {times : Int64 → Int64} (h : ShapeIso first second buffers times) :
    (first.buffers.map (bufferShape first)).Perm (second.buffers.map (bufferShape second)) := by
  refine perm_of_equiv (((finCongr (by simp)).trans buffers).trans (finCongr (by simp)))
    fun i => ?_
  have hshape : ∀ i, bufferShape second (second.buffers.get (buffers i)) =
      bufferShape first (first.buffers.get i) := by
    intro i
    unfold bufferShape
    rw [h.size, h.lower, h.upper, h.eventRank_eq (lifetimeEnd_lower i),
      h.eventRank_eq (lifetimeEnd_upper i)]
  simpa using hshape (finCongr (by simp) i)

/-- Equal shapes give the bijection of the buffers; a time goes to the time of its rank. -/
theorem isomorphic_of_perm
    (h : (first.buffers.map (bufferShape first)).Perm (second.buffers.map (bufferShape second))) :
    Isomorphic first second := by
  obtain ⟨e, he⟩ := exists_equiv_of_perm h
  let buffers : Fin first.buffers.length ≃ Fin second.buffers.length :=
    ((finCongr (by simp)).trans e).trans (finCongr (by simp))
  have hshape : ∀ i, bufferShape second (second.buffers.get (buffers i)) =
      bufferShape first (first.buffers.get i) := by
    intro i
    have := he (finCongr (by simp) i)
    simpa [buffers] using this
  have hrank : ∀ i, eventRank second (frontInterval (second.buffers.get (buffers i))).lower =
        eventRank first (frontInterval (first.buffers.get i)).lower ∧
      eventRank second (frontInterval (second.buffers.get (buffers i))).upper =
        eventRank first (frontInterval (first.buffers.get i)).upper := fun i =>
    ⟨congrArg BufferShape.lower (hshape i), congrArg BufferShape.upper (hshape i)⟩
  -- The time of a rank of the second problem.
  let times : Int64 → Int64 := fun event => (eventValues second).getD (eventRank first event) 0
  have htimes : ∀ event image, LifetimeEnd second image →
      eventRank second image = eventRank first event → times event = image := by
    intro event image himage heq
    have hlt := List.idxOf_lt_length_iff.mpr (mem_eventValues.mpr himage)
    show (eventValues second).getD (eventRank first event) 0 = image
    rw [← heq, eventRank, List.getD_eq_getElem _ _ hlt, List.getElem_idxOf]
  have hrankLt : ∀ event, LifetimeEnd first event →
      ∃ image, LifetimeEnd second image ∧ eventRank second image = eventRank first event := by
    rintro event ⟨buffer, hbuffer, hevent⟩
    obtain ⟨i, rfl⟩ := List.mem_iff_get.mp hbuffer
    rcases hevent with rfl | rfl
    · exact ⟨_, lifetimeEnd_lower _, (hrank i).1⟩
    · exact ⟨_, lifetimeEnd_upper _, (hrank i).2⟩
  refine ⟨buffers, times, ?_, fun i => congrArg BufferShape.size (hshape i),
    fun i => (htimes _ _ (lifetimeEnd_lower _) (hrank i).1).symm,
    fun i => (htimes _ _ (lifetimeEnd_upper _) (hrank i).2).symm⟩
  intro s t hs ht hlt
  obtain ⟨s', hs', hsrank⟩ := hrankLt s hs
  obtain ⟨t', ht', htrank⟩ := hrankLt t ht
  rw [htimes s s' hs' hsrank, htimes t t' ht' htrank]
  refine rel_of_idxOf_lt (pairwise_eventValues second) (mem_eventValues.mpr hs')
    (mem_eventValues.mpr ht') ?_
  have := idxOf_lt_of_rel (pairwise_eventValues first) int64_lt_asymm (mem_eventValues.mpr hs)
    (mem_eventValues.mpr ht) hlt
  unfold eventRank at hsrank htrank
  omega

end isomorphic

theorem shape_eq_iff_isomorphic {first second : DsaProblem} (hfirst : OneInterval first)
    (hsecond : OneInterval second) :
    canonicalStandardShape first = canonicalStandardShape second ↔ Isomorphic first second := by
  rw [canonicalStandardShape_eq_iff_perm hfirst hsecond]
  constructor
  · exact isomorphic_of_perm
  · rintro ⟨buffers, times, h⟩
    exact h.perm

end Dsa
