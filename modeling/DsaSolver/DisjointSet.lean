import Mathlib.Data.List.GetD
import DsaSolver.Theory.Forest

/-! # The union-find structure

`DisjointSet` of `validator.cpp` and `placement_engine.cpp` (the two classes are the same
text): a parent vector, `Find` with path compression, `Union` hanging the second root below
the first.  Its recursion is bounded by the number of elements; `find_spec` shows that the
bound is never met.  `classOf_unionAll_iff` is the whole behaviour the callers rely on: after
a list of unions two elements have the same root exactly when the list connects them. -/

namespace Dsa

open Theory.Forest

/-- The parent pointers of a vector; an index outside it is its own parent. -/
def parentOf (parent : List ℕ) (i : ℕ) : ℕ := parent.getD i i

structure DisjointSet where
  parent : List ℕ
  inRange : ∀ i, parentOf parent i ≠ i → parentOf parent i < parent.length
  ranked : Ranked (parentOf parent)

namespace DisjointSet

theorem parentOf_range (size i : ℕ) : parentOf (List.range size) i = i := by
  unfold parentOf
  by_cases h : i < size
  · rw [List.getD_eq_getElem _ _ (by simpa using h)]
    simp
  · rw [List.getD_eq_default _ _ (by simpa using h)]

theorem lt_length_of_ne {parent : List ℕ} {i : ℕ} (h : parentOf parent i ≠ i) :
    i < parent.length := by
  by_contra hge
  exact h (List.getD_eq_default _ _ (not_lt.mp hge))

theorem parentOf_set {parent : List ℕ} {i : ℕ} (hi : i < parent.length) (r : ℕ) :
    parentOf (parent.set i r) = Function.update (parentOf parent) i r := by
  funext j
  by_cases hj : j = i
  · subst hj
    rw [Function.update_self, parentOf, List.getD_eq_getElem _ _ (by simpa using hi)]
    simp
  · rw [Function.update_of_ne hj]
    unfold parentOf
    rw [List.getD_eq_getElem?_getD, List.getD_eq_getElem?_getD, List.getElem?_set_ne (Ne.symm hj)]

/-- `explicit DisjointSet(std::size_t size)`. -/
def ofSize (size : ℕ) : DisjointSet where
  parent := List.range size
  inRange i h := absurd (parentOf_range size i) h
  ranked := ⟨fun _ => 0, fun i h => absurd (parentOf_range size i) h⟩

/-- `Find` on the parent vector: the root and the compressed vector. -/
def findIn : ℕ → List ℕ → ℕ → ℕ × List ℕ
  | 0, parent, value => (value, parent)
  | fuel + 1, parent, value =>
      if parentOf parent value ≠ value then
        let found := findIn fuel parent (parentOf parent value)
        (found.1, found.2.set value found.1)
      else (parentOf parent value, parent)

theorem findIn_spec {parent : List ℕ} (hr : Ranked (parentOf parent)) {rank : ℕ → ℕ}
    (hrank : ∀ i, parentOf parent i ≠ i → rank (parentOf parent i) < rank i) :
    ∀ (fuel value : ℕ), rank value < fuel →
      RootOf (parentOf parent) value (findIn fuel parent value).1 ∧
        Compressed (parentOf parent) (parentOf (findIn fuel parent value).2) ∧
        (findIn fuel parent value).2.length = parent.length
  | 0, value, h => absurd h (Nat.not_lt_zero _)
  | fuel + 1, value, h => by
      unfold findIn
      by_cases hv : parentOf parent value = value
      · rw [if_neg (not_not.mpr hv)]
        exact ⟨by rw [hv]; exact .root hv, Compressed.refl _, rfl⟩
      · rw [if_pos hv]
        have hlt := hrank value hv
        obtain ⟨hroot, hcomp, hlen⟩ :=
          findIn_spec hr hrank fuel (parentOf parent value) (by omega)
        have hroot' := RootOf.step hv hroot
        have hval := lt_length_of_ne hv
        refine ⟨hroot', ?_, by simp [hlen]⟩
        rw [parentOf_set (by omega)]
        exact hcomp.update hv hroot'

theorem find_spec (s : DisjointSet) (value : ℕ) :
    RootOf (parentOf s.parent) value (findIn (s.parent.length + 1) s.parent value).1 ∧
      Compressed (parentOf s.parent) (parentOf (findIn (s.parent.length + 1) s.parent value).2) ∧
      (findIn (s.parent.length + 1) s.parent value).2.length = s.parent.length := by
  obtain ⟨rank, hrank, hle⟩ := s.ranked.exists_bounded s.inRange
  exact findIn_spec s.ranked hrank _ value (Nat.lt_succ_of_le (hle value))

theorem inRange_of_compressed {p q : List ℕ} (hp : ∀ i, parentOf p i ≠ i → parentOf p i < p.length)
    (h : Compressed (parentOf p) (parentOf q))
    (hlen : q.length = p.length) : ∀ i, parentOf q i ≠ i → parentOf q i < q.length := by
  intro i hi
  have key : ∀ {i r}, RootOf (parentOf p) i r → r ≠ i → r < p.length := by
    intro i r hroot
    induction hroot with
    | root _ => exact fun hne => absurd rfl hne
    | @step i r hne _ ih =>
        intro _
        by_cases hri : r = parentOf p i
        · exact hri ▸ hp i hne
        · exact ih hri
  rw [hlen]
  rcases h i with e | ⟨_, hroot⟩
  · rw [e] at hi ⊢
    exact hp i hi
  · exact key hroot hi

/-- `Find`: the root of `value`, and the structure after path compression. -/
def find (s : DisjointSet) (value : ℕ) : ℕ × DisjointSet :=
  ((findIn (s.parent.length + 1) s.parent value).1,
    { parent := (findIn (s.parent.length + 1) s.parent value).2
      inRange := inRange_of_compressed s.inRange (find_spec s value).2.1 (find_spec s value).2.2
      ranked := (find_spec s value).2.1.ranked s.ranked })

/-- The root `Find` returns; the compression `Find` also does changes no root
(`root_find`). -/
def root (s : DisjointSet) (value : ℕ) : ℕ := (s.find value).1

theorem rootOf_root (s : DisjointSet) (value : ℕ) :
    RootOf (parentOf s.parent) value (s.root value) := (find_spec s value).1

theorem root_eq_of_rootOf {s : DisjointSet} {i r : ℕ} (h : RootOf (parentOf s.parent) i r) :
    s.root i = r := (s.rootOf_root i).unique h

theorem root_find (s : DisjointSet) (value i : ℕ) : (s.find value).2.root i = s.root i := by
  apply root_eq_of_rootOf
  exact (((find_spec s value).2.1).rootOf_iff s.ranked i _).mpr (s.rootOf_root i)

theorem length_find (s : DisjointSet) (value : ℕ) :
    (s.find value).2.parent.length = s.parent.length := (find_spec s value).2.2

theorem root_eq_iff (s : DisjointSet) (i j : ℕ) :
    s.root i = s.root j ↔ SameRoot (parentOf s.parent) i j := by
  constructor
  · intro h
    exact ⟨s.root i, s.rootOf_root i, h ▸ s.rootOf_root j⟩
  · rintro ⟨r, hi, hj⟩
    rw [root_eq_of_rootOf hi, root_eq_of_rootOf hj]

theorem root_fixed (s : DisjointSet) (i : ℕ) : parentOf s.parent (s.root i) = s.root i :=
  (s.rootOf_root i).fixed

theorem root_lt {s : DisjointSet} {i : ℕ} (h : i < s.parent.length) : s.root i < s.parent.length := by
  have key : ∀ {i r}, RootOf (parentOf s.parent) i r → i < s.parent.length →
      r < s.parent.length := by
    intro i r hr
    induction hr with
    | root _ => exact id
    | step hne _ ih => exact fun _ => ih (s.inRange _ hne)
  exact key (s.rootOf_root i) h

/-- Hang the root `b` below the root `a`. -/
def hang (s : DisjointSet) (a b : ℕ) (ha : parentOf s.parent a = a) (hlt : a < s.parent.length)
    (hab : a ≠ b) (hb : b < s.parent.length) : DisjointSet where
  parent := s.parent.set b a
  inRange := by
    intro i hi
    rw [parentOf_set hb] at hi ⊢
    rw [List.length_set]
    by_cases hib : i = b
    · subst hib
      rwa [Function.update_self]
    · rw [Function.update_of_ne hib] at hi ⊢
      exact s.inRange i hi
  ranked := by
    rw [parentOf_set hb]
    exact ranked_link s.ranked ha hab

/-- `Union`.  The two range tests hold for every index the callers pass (`root_lt`). -/
def union (s : DisjointSet) (first second : ℕ) : DisjointSet :=
  let firstFound := s.find first
  let secondFound := firstFound.2.find second
  let t := secondFound.2
  if h : firstFound.1 ≠ secondFound.1 ∧ firstFound.1 < t.parent.length ∧
      secondFound.1 < t.parent.length ∧ parentOf t.parent firstFound.1 = firstFound.1 then
    t.hang firstFound.1 secondFound.1 h.2.2.2 h.2.1 h.1 h.2.2.1
  else t

theorem length_union (s : DisjointSet) (first second : ℕ) :
    (s.union first second).parent.length = s.parent.length := by
  unfold union
  dsimp only
  split_ifs
  · simp [hang, length_find]
  · simp [length_find]

theorem sameRoot_union_mono (s : DisjointSet) (first second : ℕ) {i j : ℕ}
    (h : s.root i = s.root j) : (s.union first second).root i = (s.union first second).root j := by
  have h' : ((s.find first).2.find second).2.root i = ((s.find first).2.find second).2.root j := by
    rw [root_find, root_find, root_find, root_find, h]
  unfold union
  dsimp only
  split_ifs with hc
  · rw [root_eq_iff] at h' ⊢
    show SameRoot (parentOf (List.set _ _ _)) i j
    rw [parentOf_set hc.2.2.1]
    refine SameRoot.link hc.2.2.2 ?_ hc.1 h'
    have := root_fixed ((s.find first).2.find second).2 second
    rwa [root_find] at this
  · exact h'

theorem root_union_self {s : DisjointSet} {first second : ℕ} (h1 : first < s.parent.length)
    (h2 : second < s.parent.length) :
    (s.union first second).root first = (s.union first second).root second := by
  set t := ((s.find first).2.find second).2 with ht
  have e1 : t.root first = (s.find first).1 := by rw [ht, root_find, root_find]; rfl
  have e2 : t.root second = ((s.find first).2.find second).1 := by rw [ht, root_find]; rfl
  have hlen : t.parent.length = s.parent.length := by rw [ht, length_find, length_find]
  unfold union
  dsimp only
  split_ifs with hc
  · rw [root_eq_iff]
    show SameRoot (parentOf (List.set _ _ _)) first second
    rw [parentOf_set hc.2.2.1]
    refine sameRoot_link_self ?_ hc.1 ?_ ?_
    · rw [← e2]
      exact t.root_fixed second
    · rw [← e1]
      exact t.rootOf_root first
    · rw [← e2]
      exact t.rootOf_root second
  · have hf := @root_lt t first (by omega)
    have hs := @root_lt t second (by omega)
    have hfix := t.root_fixed first
    rw [← e1, ← e2] at hc
    by_contra hne
    exact hc ⟨hne, hf, hs, hfix⟩

theorem root_union_le (s : DisjointSet) (first second : ℕ) {E : ℕ → ℕ → Prop} (hE : Equivalence E)
    (hold : ∀ i j, s.root i = s.root j → E i j) (hxy : E first second) {i j : ℕ}
    (h : (s.union first second).root i = (s.union first second).root j) : E i j := by
  set t := ((s.find first).2.find second).2 with ht
  have e1 : t.root first = (s.find first).1 := by rw [ht, root_find, root_find]; rfl
  have e2 : t.root second = ((s.find first).2.find second).1 := by rw [ht, root_find]; rfl
  have hold' : ∀ i j, t.root i = t.root j → E i j := by
    intro i j hij
    apply hold
    rwa [ht, root_find, root_find, root_find, root_find] at hij
  unfold union at h
  dsimp only at h
  split_ifs at h with hc
  · rw [root_eq_iff] at h
    change SameRoot (parentOf (List.set _ _ _)) i j at h
    rw [parentOf_set hc.2.2.1] at h
    refine sameRoot_link_le t.ranked ?_ hc.1 ?_ ?_ hE ?_ hxy h
    · rw [← e2]
      exact t.root_fixed second
    · rw [← e1]
      exact t.rootOf_root first
    · rw [← e2]
      exact t.rootOf_root second
    · exact fun i j hij => hold' i j ((root_eq_iff t i j).mpr hij)
  · exact hold' i j h

/-- A list of unions, in order. -/
def unionAll (s : DisjointSet) (pairs : List (ℕ × ℕ)) : DisjointSet :=
  pairs.foldl (fun t pair => t.union pair.1 pair.2) s

theorem length_unionAll (s : DisjointSet) (pairs : List (ℕ × ℕ)) :
    (s.unionAll pairs).parent.length = s.parent.length := by
  induction pairs generalizing s with
  | nil => rfl
  | cons pair rest ih => exact (ih _).trans (length_union s pair.1 pair.2)

theorem root_unionAll_mono (pairs : List (ℕ × ℕ)) (s : DisjointSet) {i j : ℕ}
    (h : s.root i = s.root j) : (s.unionAll pairs).root i = (s.unionAll pairs).root j := by
  induction pairs generalizing s with
  | nil => exact h
  | cons pair rest ih => exact ih _ (sameRoot_union_mono s _ _ h)

theorem root_unionAll_of_mem (pairs : List (ℕ × ℕ)) (s : DisjointSet)
    (hlt : ∀ pair ∈ pairs, pair.1 < s.parent.length ∧ pair.2 < s.parent.length) {pair : ℕ × ℕ}
    (hp : pair ∈ pairs) : (s.unionAll pairs).root pair.1 = (s.unionAll pairs).root pair.2 := by
  induction pairs generalizing s with
  | nil => cases hp
  | cons head rest ih =>
      have hh := hlt head (by simp)
      rcases List.mem_cons.mp hp with rfl | hp
      · exact root_unionAll_mono rest _ (root_union_self hh.1 hh.2)
      · refine ih (s.union head.1 head.2) (fun p hp => ?_) hp
        rw [length_union]
        exact hlt p (by simp [hp])

theorem root_unionAll_le (pairs : List (ℕ × ℕ)) (s : DisjointSet) {E : ℕ → ℕ → Prop}
    (hE : Equivalence E) (hold : ∀ i j, s.root i = s.root j → E i j)
    (hpairs : ∀ pair ∈ pairs, E pair.1 pair.2) {i j : ℕ}
    (h : (s.unionAll pairs).root i = (s.unionAll pairs).root j) : E i j := by
  induction pairs generalizing s with
  | nil => exact hold i j h
  | cons head rest ih =>
      refine ih (s.union head.1 head.2) (fun i j hij => ?_) (fun p hp => hpairs p (by simp [hp])) h
      exact root_union_le s head.1 head.2 hE hold (hpairs head (by simp)) hij

theorem root_ofSize (size i : ℕ) : (ofSize size).root i = i :=
  root_eq_of_rootOf (.root (parentOf_range size i))

/-- **The classes of a list of unions** are the classes of the relation it generates. -/
theorem classOf_unionAll_iff {size : ℕ} {pairs : List (ℕ × ℕ)}
    (hlt : ∀ pair ∈ pairs, pair.1 < size ∧ pair.2 < size) (i j : ℕ) :
    ((ofSize size).unionAll pairs).root i = ((ofSize size).unionAll pairs).root j ↔
      Relation.EqvGen (fun a b => (a, b) ∈ pairs) i j := by
  constructor
  · intro h
    refine root_unionAll_le pairs (ofSize size) (Relation.EqvGen.is_equivalence _) ?_ ?_ h
    · intro i j hij
      rw [root_ofSize, root_ofSize] at hij
      exact hij ▸ .refl i
    · exact fun pair hp => .rel _ _ hp
  · intro h
    induction h with
    | rel a b hab =>
        exact @root_unionAll_of_mem pairs _ (by simpa [ofSize] using hlt) (a, b) hab
    | refl _ => rfl
    | symm _ _ _ ih => exact ih.symm
    | trans _ _ _ _ _ ih1 ih2 => exact ih1.trans ih2

end DisjointSet

end Dsa
