import DsaSolver.MiniMallocCsv
import Mathlib.Algebra.Group.Nat.Defs
import Mathlib.Data.List.Forall2

/-! # MiniMalloc CSV: writing and reading back

The fields of a row that is written come back from `parseCsvRow`, each trimmed
(`parseCsvRow_row`), and the numbers are what they were.  The reader cuts the text into lines
before it looks at quotes, and trims quoted fields too; so the names that come back are those
without a line feed and without blanks at their ends. -/

namespace Dsa

/-! ### Fields of a row -/

theorem isspace_comma : isspace ',' = false := rfl

theorem trim_trim (value : List Char) : trim (trim value) = trim value :=
  Theory.strip_strip value

theorem parseCsvRowFrom_unquoted {n : ℕ} {text rest field : List Char} {fields : List (List Char)}
    (h : ∀ c ∈ text, c ≠ ',' ∧ c ≠ '"') :
    parseCsvRowFrom n (text ++ rest) fields field false =
      parseCsvRowFrom n rest fields (field ++ text) false := by
  induction text generalizing field with
  | nil => simp
  | cons c text ih =>
      obtain ⟨hcomma, hquote⟩ := h c List.mem_cons_self
      rw [List.cons_append, parseCsvRowFrom, if_neg hcomma, if_neg hquote,
        ih fun d hd => h d (List.mem_cons_of_mem c hd), List.append_assoc, List.singleton_append]

theorem parseCsvRowFrom_doubled {n : ℕ} {rest field : List Char} {fields : List (List Char)} :
    parseCsvRowFrom n ('"' :: '"' :: rest) fields field true =
      parseCsvRowFrom n rest fields (field ++ ['"']) true := by
  rw [parseCsvRowFrom, if_pos rfl]

theorem parseCsvRowFrom_closing {n : ℕ} {rest field : List Char} {fields : List (List Char)}
    (h : rest.head? ≠ some '"') :
    parseCsvRowFrom n ('"' :: rest) fields field true =
      parseCsvRowFrom n rest fields field false := by
  rw [parseCsvRowFrom.eq_def]
  dsimp only
  rw [if_pos rfl]
  split
  · exact absurd rfl h
  · rfl

theorem parseCsvRowFrom_inside {n : ℕ} {c : Char} {rest field : List Char}
    {fields : List (List Char)} (h : c ≠ '"') :
    parseCsvRowFrom n (c :: rest) fields field true =
      parseCsvRowFrom n rest fields (field ++ [c]) true := by
  rw [parseCsvRowFrom.eq_def]
  dsimp only
  rw [if_neg h]

/-- Inside quotes the reader undoes the doubling. -/
theorem parseCsvRowFrom_doubleQuotes {n : ℕ} {text rest field : List Char}
    {fields : List (List Char)} :
    parseCsvRowFrom n (doubleQuotes text ++ rest) fields field true =
      parseCsvRowFrom n rest fields (field ++ text) true := by
  induction text generalizing field with
  | nil => simp [doubleQuotes]
  | cons c text ih =>
      rw [doubleQuotes, List.flatMap_cons, ← doubleQuotes, List.append_assoc]
      by_cases hc : c = '"'
      · rw [if_pos hc, List.cons_append, List.singleton_append, parseCsvRowFrom_doubled, ih, hc,
          List.append_assoc, List.singleton_append]
      · rw [if_neg hc, List.singleton_append, parseCsvRowFrom_inside hc, ih, List.append_assoc,
          List.singleton_append]

theorem parseCsvRowFrom_escapeCsv {n : ℕ} {text rest : List Char} {fields : List (List Char)}
    (h : rest.head? ≠ some '"') :
    parseCsvRowFrom n (escapeCsv text ++ rest) fields [] false =
      parseCsvRowFrom n rest fields text false := by
  unfold escapeCsv
  split
  · rw [List.cons_append, parseCsvRowFrom, if_neg (by decide), if_pos rfl, if_neg (by decide),
      List.append_assoc, parseCsvRowFrom_doubleQuotes, List.nil_append, List.singleton_append,
      parseCsvRowFrom_closing h]
  · rename_i hplain
    have hother : ∀ c ∈ text, c ≠ ',' ∧ c ≠ '"' := by
      intro c hc
      rw [Bool.not_eq_true, List.any_eq_false] at hplain
      have hcharacter := hplain c hc
      simp only [Bool.or_eq_true, beq_iff_eq, not_or] at hcharacter
      exact ⟨hcharacter.1.1.1, hcharacter.1.1.2⟩
    rw [parseCsvRowFrom_unquoted hother, List.nil_append]

theorem head?_numbers (numbers : List (List Char)) :
    (numbers.flatMap (',' :: ·)).head? ≠ some '"' := by
  cases numbers <;> simp

theorem parseCsvRowFrom_numbers {n : ℕ} {numbers fields : List (List Char)} {field : List Char}
    (h : ∀ number ∈ numbers, ∀ c ∈ number, c ≠ ',' ∧ c ≠ '"') :
    parseCsvRowFrom n (numbers.flatMap (',' :: ·)) fields field false =
      .ok (fields ++ trim field :: numbers.map trim) := by
  induction numbers generalizing fields field with
  | nil => rfl
  | cons number numbers ih =>
      rw [List.flatMap_cons, List.cons_append, parseCsvRowFrom, if_pos rfl,
        parseCsvRowFrom_unquoted (h number List.mem_cons_self), List.nil_append,
        ih fun other hother => h other (List.mem_cons_of_mem number hother), List.append_assoc,
        List.map_cons, List.singleton_append]

/-- A row as it is written: a name and numbers. -/
theorem parseCsvRow_row {name : List Char} {numbers : List (List Char)} (n : ℕ)
    (h : ∀ number ∈ numbers, ∀ c ∈ number, c ≠ ',' ∧ c ≠ '"') :
    parseCsvRow (escapeCsv name ++ numbers.flatMap (',' :: ·)) n =
      .ok (trim name :: numbers.map trim) := by
  rw [parseCsvRow, parseCsvRowFrom_escapeCsv (head?_numbers numbers), parseCsvRowFrom_numbers h,
    List.nil_append]

/-! ### What a row that is read can hold -/

/-- Trimmed, and without the character that ends a line. -/
def FieldOfLine (field : List Char) : Prop := trim field = field ∧ '\n' ∉ field

theorem fieldOfLine_trim {field : List Char} (h : '\n' ∉ field) : FieldOfLine (trim field) :=
  ⟨trim_trim field, fun hmem => h (Theory.mem_of_mem_strip hmem)⟩

theorem fieldOfLine_of_parseCsvRowFrom {n : ℕ} {text field : List Char}
    {fields result : List (List Char)} {quoted : Bool}
    (h : parseCsvRowFrom n text fields field quoted = .ok result) (htext : '\n' ∉ text)
    (hfield : '\n' ∉ field) (hfields : ∀ done ∈ fields, FieldOfLine done) :
    ∀ done ∈ result, FieldOfLine done := by
  have hsnoc : ∀ (last : List Char) (all : List (List Char)), '\n' ∉ last →
      (∀ done ∈ all, FieldOfLine done) → ∀ done ∈ all ++ [trim last], FieldOfLine done := by
    intro last all hlast hall done hdone
    rcases List.mem_append.mp hdone with hdone | hdone
    · exact hall done hdone
    · rw [List.mem_singleton.mp hdone]
      exact fieldOfLine_trim hlast
  fun_induction parseCsvRowFrom n text fields field quoted with
  | case1 => cases h
  | case2 fields field =>
      rw [← Except.ok.inj h]
      exact hsnoc field fields hfield hfields
  | case3 fields field rest ih =>
      simp only [List.mem_cons, not_or] at htext
      apply ih h htext.2.2 _ hfields
      simpa [List.mem_append] using hfield
  | case4 rest fields field hrest ih =>
      exact ih h (fun hmem => htext (List.mem_cons_of_mem _ hmem)) hfield hfields
  | case5 c rest fields field hc ih =>
      rw [List.mem_cons, not_or] at htext
      apply ih h htext.2 _ hfields
      rw [List.mem_append, List.mem_singleton, not_or]
      exact ⟨hfield, htext.1⟩
  | case6 rest fields field ih =>
      exact ih h (fun hmem => htext (List.mem_cons_of_mem _ hmem)) List.not_mem_nil
        (hsnoc field fields hfield hfields)
  | case7 => cases h
  | case8 rest fields field hcomma htrim ih =>
      exact ih h (fun hmem => htext (List.mem_cons_of_mem _ hmem)) List.not_mem_nil hfields
  | case9 c rest fields field hcomma hquote ih =>
      rw [List.mem_cons, not_or] at htext
      apply ih h htext.2 _ hfields
      rw [List.mem_append, List.mem_singleton, not_or]
      exact ⟨hfield, htext.1⟩

/-! ### Rows as they are written -/

theorem isspace_of_isDigit {c : Char} (h : c = '-' ∨ c.isDigit = true) : isspace c = false := by
  rcases h with rfl | h
  · rfl
  · have hbounds := h
    simp only [Char.isDigit, Bool.and_eq_true, decide_eq_true_eq] at hbounds
    simp only [isspace, Bool.or_eq_false_iff, beq_eq_false_iff_ne]
    refine ⟨⟨⟨⟨⟨?_, ?_⟩, ?_⟩, ?_⟩, ?_⟩, ?_⟩ <;>
      · rintro rfl
        revert h
        decide

theorem plain_of_isDigit {c : Char} (h : c = '-' ∨ c.isDigit = true) :
    c ≠ ',' ∧ c ≠ '"' ∧ c ≠ '\n' := by
  refine ⟨?_, ?_, ?_⟩ <;>
    · rintro rfl
      revert h
      decide

/-- A text of the numbers of a row. -/
def IsNumber (text : List Char) : Prop := ∀ c ∈ text, c = '-' ∨ c.isDigit = true

theorem isNumber_toString_nat (n : ℕ) : IsNumber (toString n).toList :=
  fun _ hc => .inr (Theory.mem_toString_nat hc)

theorem isNumber_toString_int (value : ℤ) : IsNumber (toString value).toList :=
  fun _ hc => Theory.mem_toString_int hc

theorem IsNumber.trim_eq {text : List Char} (h : IsNumber text) : trim text = text :=
  Theory.strip_eq_self fun c hc => isspace_of_isDigit (h c hc)

/-- The offset that a solution gives to a buffer. -/
def offsetOf (solution : Option DsaSolution) (buffer : Buffer) : Option UInt64 :=
  (solution.bind (·.find buffer.id)).map Placement.offset

/-- The numbers of a row that is written, in its order. -/
def rowNumbers (interval : Interval) (size : UInt64) (offset : Option UInt64) : List (List Char) :=
  (toString interval.lower.toInt).toList :: (toString interval.upper.toInt).toList ::
    (toString size.toNat).toList :: (offset.map fun o => (toString o.toNat).toList).toList

theorem isNumber_of_mem_rowNumbers {interval : Interval} {size : UInt64} {offset : Option UInt64} :
    ∀ number ∈ rowNumbers interval size offset, IsNumber number := by
  simp only [rowNumbers, List.forall_mem_cons]
  refine ⟨isNumber_toString_int _, isNumber_toString_int _, isNumber_toString_nat _, ?_⟩
  cases offset with
  | none => simp
  | some o => simpa using isNumber_toString_nat o.toNat

theorem map_trim_rowNumbers {interval : Interval} {size : UInt64} {offset : Option UInt64} :
    (rowNumbers interval size offset).map trim = rowNumbers interval size offset :=
  (List.map_congr_left fun number h => (isNumber_of_mem_rowNumbers number h).trim_eq).trans
    (List.map_id _)

/-- The text of a row without its line end. -/
def rowText (buffer : Buffer) (interval : Interval) (offset : Option UInt64) : List Char :=
  escapeCsv buffer.name.toList ++ (rowNumbers interval buffer.size offset).flatMap (',' :: ·)

theorem offsetField_ok {solution : Option DsaSolution} {buffer : Buffer} {text : String}
    (h : offsetField solution buffer = .ok text) :
    ((offsetOf solution buffer).isSome = solution.isSome) ∧
      text.toList =
        ((offsetOf solution buffer).map fun o => (toString o.toNat).toList).toList.flatMap
          (',' :: ·) := by
  unfold offsetField at h
  cases solution with
  | none =>
      rw [← Except.ok.inj h]
      simp [offsetOf]
  | some solution =>
      dsimp only at h
      split at h
      · cases h
      · rename_i placement hfind
        split at h
        · cases h
        · rw [← Except.ok.inj h]
          simp [offsetOf, hfind]

theorem writeRow_ok {solution : Option DsaSolution} {buffer : Buffer} {text : String}
    (hname : buffer.name ≠ "") (h : writeRow solution buffer = .ok text) :
    ∃ interval, buffer.liveIntervals = [interval] ∧
      (offsetOf solution buffer).isSome = solution.isSome ∧
      text.toList = rowText buffer interval (offsetOf solution buffer) ++ ['\n'] := by
  unfold writeRow at h
  split at h
  · rename_i interval _ hinterval _
    rw [Theory.bind_eq_ok] at h
    obtain ⟨offset, hoffset, h⟩ := h
    obtain ⟨hsome, htext⟩ := offsetField_ok hoffset
    refine ⟨interval, hinterval, hsome, ?_⟩
    rw [← Except.ok.inj h, if_neg hname]
    simp only [String.toList_append, String.toList_ofList, htext, rowText, rowNumbers,
      List.flatMap_cons, List.append_assoc]
    rfl
  · cases h

theorem mem_of_mem_escapeCsv {text : List Char} {c : Char} (h : c ∈ escapeCsv text) :
    c = '"' ∨ c ∈ text := by
  unfold escapeCsv at h
  split at h
  · rw [List.mem_cons, List.mem_append, List.mem_singleton, doubleQuotes, List.mem_flatMap] at h
    rcases h with h | ⟨d, hd, h⟩ | h
    · exact .inl h
    · split at h
      · simp only [List.mem_cons, List.not_mem_nil, or_false, or_self] at h
        exact .inl h
      · rw [List.mem_singleton.mp h]
        exact .inr hd
    · exact .inl h
  · exact .inr h

theorem newline_notMem_rowText {buffer : Buffer} {interval : Interval} {offset : Option UInt64}
    (h : '\n' ∉ buffer.name.toList) : '\n' ∉ rowText buffer interval offset := by
  rw [rowText, List.mem_append, List.mem_flatMap]
  rintro (hmem | ⟨number, hnumber, hmem⟩)
  · rcases mem_of_mem_escapeCsv hmem with hquote | hmem
    · cases hquote
    · exact h hmem
  · rcases List.mem_cons.mp hmem with hcomma | hmem
    · cases hcomma
    · exact (plain_of_isDigit (isNumber_of_mem_rowNumbers number hnumber _ hmem)).2.2 rfl

theorem trim_rowText {buffer : Buffer} {interval : Interval} {offset : Option UInt64} :
    trim (rowText buffer interval offset) ≠ [] := by
  refine Theory.strip_ne_nil (List.mem_append_right _ ?_) isspace_comma
  rw [rowNumbers, List.flatMap_cons]
  exact List.mem_append_left _ List.mem_cons_self

theorem parseCsvRow_rowText {buffer : Buffer} {interval : Interval} {offset : Option UInt64}
    (n : ℕ) : parseCsvRow (rowText buffer interval offset) n =
      .ok (trim buffer.name.toList :: rowNumbers interval buffer.size offset) := by
  rw [rowText, parseCsvRow_row n, map_trim_rowNumbers]
  intro number hnumber c hc
  have hplain := plain_of_isDigit (isNumber_of_mem_rowNumbers number hnumber c hc)
  exact ⟨hplain.1, hplain.2.1⟩

/-! ### Reading the rows -/

theorem fromCharsUInt64_toString (value : UInt64) :
    fromCharsUInt64 (toString value.toNat).toList = some value := by
  rw [fromCharsUInt64, Theory.readNat_toString, Option.bind_some, if_pos value.toNat_lt,
    UInt64.ofNat_toNat]

theorem fromCharsInt64_toString (value : Int64) :
    fromCharsInt64 (toString value.toInt).toList = some value := by
  rw [fromCharsInt64, Theory.readInt_toString, Option.bind_some,
    if_pos ⟨value.le_toInt, value.toInt_lt⟩, Int64.ofInt_toInt]

theorem parseInteger_some {α : Type} {fromChars : List Char → Option α} {text : List Char}
    {value : α} (h : fromChars text = some value) (column : String) (n : ℕ) :
    parseInteger fromChars text column n = .ok value := by
  rw [parseInteger, h]

def writtenColumns (solution : Option DsaSolution) : List (String × ℕ) :=
  [("id", 0), ("lower", 1), ("upper", 2), ("size", 3)] ++
    if solution.isSome then [("offset", 4)] else []

theorem readHeader (solution : Option DsaSolution) :
    (do readColumns (← parseCsvRow (miniMallocHeader solution).toList 1)) =
      .ok (writtenColumns solution) := by
  cases solution with
  | none => rfl
  | some solution =>
      change (do readColumns (← parseCsvRow "id,lower,upper,size,offset".toList 1)) =
        .ok [("id", 0), ("lower", 1), ("upper", 2), ("size", 3), ("offset", 4)]
      decide +kernel

/-- The buffer that a row becomes when it is the one number `index`. -/
def bufferOfRow (pool : PoolId) (index : ℕ) (buffer : Buffer) (interval : Interval) : Buffer :=
  { id := UInt32.ofNat index, name := buffer.name, size := buffer.size, alignment := 1,
    liveIntervals := [interval], allowedPools := [pool] }

section fields

variable {solution : Option DsaSolution} {name : List Char} {interval : Interval} {size : UInt64}
  {offset : Option UInt64} {n : ℕ}

theorem rowField_id : rowField (writtenColumns solution)
    (name :: rowNumbers interval size offset) n "id" = .ok name := by
  cases solution <;> rfl

theorem rowField_lower : rowField (writtenColumns solution)
    (name :: rowNumbers interval size offset) n "lower" =
      .ok (toString interval.lower.toInt).toList := by
  cases solution <;> rfl

theorem rowField_upper : rowField (writtenColumns solution)
    (name :: rowNumbers interval size offset) n "upper" =
      .ok (toString interval.upper.toInt).toList := by
  cases solution <;> rfl

theorem rowField_size : rowField (writtenColumns solution)
    (name :: rowNumbers interval size offset) n "size" = .ok (toString size.toNat).toList := by
  cases solution <;> rfl

theorem rowField_offset {solution : DsaSolution} {offset : UInt64} :
    rowField (writtenColumns (some solution)) (name :: rowNumbers interval size (some offset)) n
      "offset" = .ok (toString offset.toNat).toList := rfl

end fields

theorem lookup_offset (solution : Option DsaSolution) :
    ((writtenColumns solution).lookup "offset").isSome = solution.isSome := by
  cases solution <;> rfl

/-- The rows that are read after one more. -/
def MiniMallocRows.add (document : MiniMallocRows) (pool : PoolId) (buffer : Buffer)
    (interval : Interval) (offset : Option UInt64) : MiniMallocRows where
  buffers := document.buffers ++ [bufferOfRow pool document.buffers.length buffer interval]
  placements := offset.elim document.placements fun offset =>
    ⟨document.placements.placements.insert (UInt32.ofNat document.buffers.length)
      { pool, offset }⟩

theorem readRow_rowText {solution : Option DsaSolution} {pool : PoolId}
    {document : MiniMallocRows} {buffer : Buffer} {interval : Interval} {offset : Option UInt64}
    {n : ℕ} (hname : buffer.name ≠ "") (htrim : trim buffer.name.toList = buffer.name.toList)
    (hlength : document.buffers.length ≤ 4294967295) (hsome : offset.isSome = solution.isSome) :
    readRow (writtenColumns solution) pool document (rowText buffer interval offset, n) =
      .ok (document.add pool buffer interval offset) := by
  have hne : buffer.name.toList ≠ [] := by simpa using hname
  unfold readRow
  dsimp only
  rw [if_neg trim_rowText, parseCsvRow_rowText, Theory.ok_bind, htrim, if_neg (by omega),
    rowField_id, Theory.ok_bind, if_neg hne, rowField_size, Theory.ok_bind,
    parseInteger_some (fromCharsUInt64_toString buffer.size), Theory.ok_bind, rowField_lower,
    Theory.ok_bind, parseInteger_some (fromCharsInt64_toString interval.lower), Theory.ok_bind,
    rowField_upper, Theory.ok_bind, parseInteger_some (fromCharsInt64_toString interval.upper),
    Theory.ok_bind, lookup_offset, String.ofList_toList]
  cases solution with
  | none =>
      obtain rfl : offset = none := by simpa using hsome
      rfl
  | some solution =>
      obtain ⟨o, rfl⟩ := Option.isSome_iff_exists.mp hsome
      rw [if_pos Option.isSome_some, rowField_offset, Theory.ok_bind,
        parseInteger_some (fromCharsUInt64_toString o), Theory.ok_bind]
      rfl

/-- A buffer that comes back as it was written, with its offset when a solution was. -/
structure RowAgrees (solution parsed : Option DsaSolution) (written read : Buffer) : Prop where
  name : read.name = written.name
  liveIntervals : read.liveIntervals = written.liveIntervals
  size : read.size = written.size
  offset : solution.isSome → offsetOf parsed read = offsetOf solution written

/-- The line that `writeRow` makes of a buffer. -/
def IsRowOf (solution : Option DsaSolution) (buffer : Buffer) (line : List Char) : Prop :=
  ∃ interval, buffer.liveIntervals = [interval] ∧
    (offsetOf solution buffer).isSome = solution.isSome ∧
    line = rowText buffer interval (offsetOf solution buffer)

theorem find_add {document : MiniMallocRows} {pool : PoolId} {buffer : Buffer}
    {interval : Interval} {offset : Option UInt64} {index : ℕ}
    (hindex : index < document.buffers.length) (hlength : document.buffers.length < 2 ^ 32) :
    (document.add pool buffer interval offset).placements.find (UInt32.ofNat index) =
      document.placements.find (UInt32.ofNat index) := by
  have hne : UInt32.ofNat document.buffers.length ≠ UInt32.ofNat index := by
    intro heq
    have hnat := congrArg UInt32.toNat heq
    rw [UInt32.toNat_ofNat', UInt32.toNat_ofNat', Nat.mod_eq_of_lt hlength,
      Nat.mod_eq_of_lt (by omega)] at hnat
    omega
  cases offset with
  | none => rfl
  | some offset =>
      simp [MiniMallocRows.add, DsaSolution.find, Std.TreeMap.getElem?_insert, hne]

/-- Every row of the loop is read back, and later rows keep the placements. -/
theorem readRows_written {solution : Option DsaSolution} {pool : PoolId} {buffers : List Buffer}
    {lines : List (List Char)} (hrows : List.Forall₂ (IsRowOf solution) buffers lines)
    (hnames : ∀ buffer ∈ buffers, buffer.name ≠ "" ∧ trim buffer.name.toList = buffer.name.toList)
    (n : ℕ) (document : MiniMallocRows)
    (hlength : document.buffers.length + buffers.length ≤ 2 ^ 32) :
    ∃ result added,
      (lines.zipIdx n).foldlM (readRow (writtenColumns solution) pool) document = .ok result ∧
      result.buffers = document.buffers ++ added ∧
      List.Forall₂ (RowAgrees solution (some result.placements)) buffers added ∧
      ∀ index < document.buffers.length,
        result.placements.find (UInt32.ofNat index) =
          document.placements.find (UInt32.ofNat index) := by
  induction hrows generalizing n document with
  | nil => exact ⟨document, [], rfl, (List.append_nil _).symm, .nil, fun _ _ => rfl⟩
  | @cons buffer line buffers lines hrow hrows ih =>
      obtain ⟨interval, hinterval, hsome, rfl⟩ := hrow
      obtain ⟨hname, htrim⟩ := hnames buffer List.mem_cons_self
      rw [List.length_cons] at hlength
      let next := document.add pool buffer interval (offsetOf solution buffer)
      have hnext : next.buffers = document.buffers ++
          [bufferOfRow pool document.buffers.length buffer interval] := rfl
      have hnextLength : next.buffers.length = document.buffers.length + 1 := by
        rw [hnext, List.length_append, List.length_singleton]
      obtain ⟨result, added, hloop, hbuffers, hagrees, hkept⟩ :=
        ih (fun other hother => hnames other (List.mem_cons_of_mem buffer hother)) (n + 1) next
          (by omega)
      refine ⟨result, bufferOfRow pool document.buffers.length buffer interval :: added, ?_, ?_,
        .cons ?_ hagrees, ?_⟩
      · rw [List.zipIdx_cons, List.foldlM_cons, readRow_rowText hname htrim (by omega) hsome]
        exact hloop
      · rw [hbuffers, hnext, List.append_assoc, List.singleton_append]
      · refine ⟨rfl, hinterval.symm, rfl, fun hwritten => ?_⟩
        obtain ⟨o, ho⟩ := Option.isSome_iff_exists.mp (hsome.trans hwritten)
        have hfind := hkept document.buffers.length (by omega)
        rw [offsetOf, Option.bind_some, bufferOfRow, hfind, ho]
        simp [next, MiniMallocRows.add, ho, DsaSolution.find]
      · intro index hindex
        rw [hkept index (by omega), find_add hindex (by omega)]

/-! ### The whole text -/

theorem isRowOf_of_writeRow {solution : Option DsaSolution} {buffers : List Buffer}
    {rows : List String}
    (hrows : List.Forall₂ (fun buffer row => writeRow solution buffer = .ok row) buffers rows)
    (hnames : ∀ buffer ∈ buffers, buffer.name ≠ "") :
    ∃ lines, List.Forall₂ (IsRowOf solution) buffers lines ∧
      rows.flatMap String.toList = lines.flatMap (· ++ ['\n']) := by
  induction hrows with
  | nil => exact ⟨[], .nil, rfl⟩
  | @cons buffer row buffers rows hrow hrows ih =>
      obtain ⟨lines, hlines, hjoin⟩ :=
        ih fun other hother => hnames other (List.mem_cons_of_mem buffer hother)
      obtain ⟨interval, hinterval, hsome, htext⟩ :=
        writeRow_ok (hnames buffer List.mem_cons_self) hrow
      refine ⟨_ :: lines, .cons ⟨interval, hinterval, hsome, rfl⟩ hlines, ?_⟩
      rw [List.flatMap_cons, List.flatMap_cons, htext, hjoin]

theorem writeMiniMallocCsv_ok {problem : DsaProblem} {solution : Option DsaSolution}
    {text : String} (hnames : ∀ buffer ∈ problem.buffers, buffer.name ≠ "")
    (h : writeMiniMallocCsv problem solution = .ok text) :
    ∃ lines, List.Forall₂ (IsRowOf solution) problem.buffers lines ∧
      text.toList =
        ((miniMallocHeader solution).toList :: lines).flatMap (· ++ ['\n']) := by
  rw [writeMiniMallocCsv, Theory.bind_eq_ok] at h
  obtain ⟨rows, hrows, h⟩ := h
  obtain ⟨lines, hlines, hjoin⟩ := isRowOf_of_writeRow (Theory.mapM_eq_ok.mp hrows) hnames
  refine ⟨lines, hlines, ?_⟩
  rw [← Except.ok.inj h, String.toList_append, String.toList_append, String.toList_join, hjoin,
    List.flatMap_cons]
  rfl

theorem newline_notMem_header (solution : Option DsaSolution) :
    '\n' ∉ (miniMallocHeader solution).toList := by
  cases solution with
  | none => decide
  | some solution =>
      change '\n' ∉ "id,lower,upper,size,offset".toList
      decide

theorem headerLine_header (solution : Option DsaSolution) (lines : List (List Char)) :
    headerLine 0 ((miniMallocHeader solution).toList :: lines) =
      some ((miniMallocHeader solution).toList, 1, lines) := by
  have hid : 'i' ∈ "id,lower,upper,size".toList := by decide
  have hi : 'i' ∈ (miniMallocHeader solution).toList := by
    unfold miniMallocHeader
    simp only [String.toList_append]
    exact List.mem_append_left _ hid
  have hline : trim (miniMallocHeader solution).toList ≠ [] := Theory.strip_ne_nil hi rfl
  rw [headerLine, if_pos hline]

theorem requireColumn_written (solution : Option DsaSolution) :
    ["id", "lower", "upper", "size"].forM (requireColumn (writtenColumns solution)) = .ok () := by
  cases solution <;> rfl

/-- Names that fit in a line come back, up to as many rows as there are identifiers. -/
theorem readMiniMallocCsv_ok {problem : DsaProblem} {solution : Option DsaSolution}
    {text : String} (pool : PoolId) (hbuffers : problem.buffers ≠ [])
    (hnames : ∀ buffer ∈ problem.buffers, buffer.name ≠ "")
    (hwrite : writeMiniMallocCsv problem solution = .ok text)
    (hlength : problem.buffers.length ≤ 2 ^ 32)
    (hfields : ∀ buffer ∈ problem.buffers, FieldOfLine buffer.name.toList) :
    ∃ document, readMiniMallocCsv text pool = .ok document ∧
      List.Forall₂ (RowAgrees solution document.solution) problem.buffers
        document.problem.buffers := by
  obtain ⟨lines, hlines, htext⟩ := writeMiniMallocCsv_ok hnames hwrite
  have hnewline : ∀ line ∈ (miniMallocHeader solution).toList :: lines, '\n' ∉ line := by
    rw [List.forall_mem_cons]
    refine ⟨newline_notMem_header solution, fun line hline => ?_⟩
    obtain ⟨buffer, hbuffer, interval, -, -, rfl⟩ := Theory.exists_of_forall₂_right hlines hline
    exact newline_notMem_rowText (hfields buffer hbuffer).2
  have hrowNames : ∀ buffer ∈ problem.buffers,
      buffer.name ≠ "" ∧ trim buffer.name.toList = buffer.name.toList :=
    fun buffer hbuffer => ⟨hnames buffer hbuffer, (hfields buffer hbuffer).1⟩
  obtain ⟨result, added, hloop, hresult, hagrees, -⟩ :=
    @readRows_written solution pool _ _ hlines hrowNames 2 {} (by simpa using hlength)
  obtain rfl : result.buffers = added := hresult
  have hne : result.buffers ≠ [] := by
    intro hnil
    rw [hnil] at hagrees
    exact hbuffers (List.forall₂_nil_right_iff.mp hagrees)
  refine ⟨⟨{ buffers := result.buffers, pools := [{ id := pool, name :=
    if pool = kDefaultPool then "default" else toString pool.toNat }] },
    if solution.isSome then some result.placements else none⟩, ?_, ?_⟩
  · rw [readMiniMallocCsv, htext, Theory.linesOf_flatMap hnewline, headerLine_header]
    dsimp only
    rw [← bind_assoc, readHeader, Theory.ok_bind, requireColumn_written, Theory.ok_bind, hloop,
      Theory.ok_bind, if_neg hne, lookup_offset]
    rfl
  · refine hagrees.imp fun written read hrow => ⟨hrow.name, hrow.liveIntervals, hrow.size, ?_⟩
    intro hsome
    rw [if_pos hsome]
    exact hrow.offset hsome

/-- The rows so far have names that are fields of lines, and are not too many. -/
def RowsOk (document : MiniMallocRows) : Prop :=
  document.buffers.length ≤ 2 ^ 32 ∧ ∀ buffer ∈ document.buffers, FieldOfLine buffer.name.toList

theorem rowField_mem {columns : List (String × ℕ)} {fields : List (List Char)} {n : ℕ}
    {name : String} {field : List Char} (h : rowField columns fields n name = .ok field) :
    field ∈ fields := by
  unfold rowField at h
  split at h
  · cases h
  · rename_i other hother
    obtain ⟨index, -, hget⟩ := Option.bind_eq_some_iff.mp hother
    rw [← Except.ok.inj h]
    exact List.mem_of_getElem? hget

theorem rowsOk_readRow {columns : List (String × ℕ)} {pool : PoolId} {document next : MiniMallocRows}
    {line : List Char} {n : ℕ} (hdocument : RowsOk document) (hline : '\n' ∉ line)
    (h : readRow columns pool document (line, n) = .ok next) : RowsOk next := by
  unfold readRow at h
  dsimp only at h
  by_cases hblank : trim line = []
  · rw [if_pos hblank] at h
    rw [← Except.ok.inj h]
    exact hdocument
  rw [if_neg hblank] at h
  obtain ⟨fields, hfields, h⟩ := Theory.bind_eq_ok.mp h
  by_cases hmany : 4294967295 < document.buffers.length
  · rw [if_pos hmany] at h
    cases h
  rw [if_neg hmany] at h
  obtain ⟨name, hname, h⟩ := Theory.bind_eq_ok.mp h
  by_cases hempty : name = []
  · rw [if_pos hempty] at h
    cases h
  rw [if_neg hempty] at h
  obtain ⟨sizeText, -, h⟩ := Theory.bind_eq_ok.mp h
  obtain ⟨size, -, h⟩ := Theory.bind_eq_ok.mp h
  obtain ⟨lowerText, -, h⟩ := Theory.bind_eq_ok.mp h
  obtain ⟨lower, -, h⟩ := Theory.bind_eq_ok.mp h
  obtain ⟨upperText, -, h⟩ := Theory.bind_eq_ok.mp h
  obtain ⟨upper, -, h⟩ := Theory.bind_eq_ok.mp h
  have hfield : FieldOfLine name :=
    fieldOfLine_of_parseCsvRowFrom hfields hline List.not_mem_nil (fun _ hmem => nomatch hmem) name
      (rowField_mem hname)
  have hbuffers : ∃ buffer : Buffer, buffer.name = String.ofList name ∧
      next.buffers = document.buffers ++ [buffer] := by
    split at h
    · obtain ⟨offsetText, -, h⟩ := Theory.bind_eq_ok.mp h
      obtain ⟨offset, -, h⟩ := Theory.bind_eq_ok.mp h
      exact ⟨_, rfl, (congrArg MiniMallocRows.buffers (Except.ok.inj h)).symm⟩
    · exact ⟨_, rfl, (congrArg MiniMallocRows.buffers (Except.ok.inj h)).symm⟩
  obtain ⟨buffer, hbuffer, hnext⟩ := hbuffers
  rw [RowsOk, hnext, List.length_append, List.length_singleton]
  refine ⟨by omega, fun other hother => ?_⟩
  rcases List.mem_append.mp hother with hother | hother
  · exact hdocument.2 other hother
  · rw [List.mem_singleton.mp hother, hbuffer, String.toList_ofList]
    exact hfield

theorem mem_of_headerLine {n line_number : ℕ} {lines rest : List (List Char)} {line : List Char}
    (h : headerLine n lines = some (line, line_number, rest)) : ∀ other ∈ rest, other ∈ lines := by
  induction lines generalizing n with
  | nil => cases h
  | cons first lines ih =>
      rw [headerLine] at h
      split at h
      · simp only [Option.some.injEq, Prod.mk.injEq] at h
        rw [← h.2.2]
        exact fun other hother => List.mem_cons_of_mem first hother
      · exact fun other hother => List.mem_cons_of_mem first (ih h other hother)

/-- Whatever is read, a name is a field of a line, and there are not too many rows. -/
theorem readMiniMallocCsv_fields {text : String} {pool : PoolId} {document : MiniMallocDocument}
    (h : readMiniMallocCsv text pool = .ok document) :
    document.problem.buffers.length ≤ 2 ^ 32 ∧
      ∀ buffer ∈ document.problem.buffers, FieldOfLine buffer.name.toList := by
  rw [readMiniMallocCsv] at h
  split at h
  · rename_i line line_number rest hheader
    obtain ⟨fields, -, h⟩ := Theory.bind_eq_ok.mp h
    obtain ⟨columns, -, h⟩ := Theory.bind_eq_ok.mp h
    obtain ⟨_, -, h⟩ := Theory.bind_eq_ok.mp h
    obtain ⟨rows, hrows, h⟩ := Theory.bind_eq_ok.mp h
    by_cases hempty : rows.buffers = []
    · rw [if_pos hempty] at h
      cases h
    · rw [if_neg hempty] at h
      obtain rfl := Except.ok.inj h
      refine Theory.foldlM_induction (fun _ => RowsOk) ⟨by simp, by simp⟩ ?_ hrows
      rintro done ⟨row, n⟩ todo document next hsplit hdocument hnext
      have hrow : row ∈ rest := by
        have hmem : (row, n) ∈ rest.zipIdx (line_number + 1) := by simp [hsplit]
        exact List.fst_mem_of_mem_zipIdx hmem
      exact rowsOk_readRow hdocument
        (Theory.delimiter_notMem (mem_of_headerLine hheader row hrow)) hnext
  · cases h

/-- What the writer accepts is read back exactly when the names have no line feed and no blanks
at their ends, and the rows can be numbered. -/
theorem readMiniMallocCsv_writeMiniMallocCsv (problem : DsaProblem) (solution : Option DsaSolution)
    (pool : PoolId) (text : String) (hbuffers : problem.buffers ≠ [])
    (hnames : ∀ buffer ∈ problem.buffers, buffer.name ≠ "")
    (hwrite : writeMiniMallocCsv problem solution = .ok text) :
    (∃ document, readMiniMallocCsv text pool = .ok document ∧
      List.Forall₂ (RowAgrees solution document.solution) problem.buffers
        document.problem.buffers) ↔
    problem.buffers.length ≤ 2 ^ 32 ∧
      ∀ buffer ∈ problem.buffers,
        trim buffer.name.toList = buffer.name.toList ∧ '\n' ∉ buffer.name.toList := by
  constructor
  · rintro ⟨document, hread, hagrees⟩
    obtain ⟨hlength, hfields⟩ := readMiniMallocCsv_fields hread
    refine ⟨hagrees.length_eq ▸ hlength, fun buffer hbuffer => ?_⟩
    obtain ⟨read, hmem, hrow⟩ := Theory.exists_of_forall₂_left hagrees hbuffer
    rw [← hrow.name]
    exact hfields read hmem
  · rintro ⟨hlength, hfields⟩
    exact readMiniMallocCsv_ok pool hbuffers hnames hwrite hlength hfields

/-- Two rows, a comma and quotes in the name of one, with their offsets. -/
theorem readMiniMallocCsv_quotedName :
    let problem : DsaProblem :=
      { buffers :=
          [{ id := 4, name := "a,\"b\"", size := 64, liveIntervals := [{ lower := -1, upper := 2 }] },
            { id := 2, name := "c d", size := 8, liveIntervals := [{ lower := 2, upper := 9 }] }] }
    let solution : DsaSolution :=
      ⟨.ofList ([(4, { offset := 128 }), (2, { offset := 0 })] : List (BufferId × Placement))⟩
    ∃ document,
      readMiniMallocCsv
          "id,lower,upper,size,offset\n\"a,\"\"b\"\"\",-1,2,64,128\nc d,2,9,8,0\n" kDefaultPool =
        .ok document ∧
      List.Forall₂ (RowAgrees (some solution) document.solution) problem.buffers
        document.problem.buffers := by
  intro problem solution
  have hwrite : writeMiniMallocCsv problem (some solution) =
      .ok "id,lower,upper,size,offset\n\"a,\"\"b\"\"\",-1,2,64,128\nc d,2,9,8,0\n" := by
    decide +kernel
  exact (readMiniMallocCsv_writeMiniMallocCsv problem (some solution) kDefaultPool _ (by decide)
    (by decide) hwrite).mpr (by decide +kernel)

/-- The writer quotes a name with a line feed; the reader meets the line end first. -/
theorem readMiniMallocCsv_lineFeed :
    let problem : DsaProblem :=
      { buffers := [{ name := "a\nb", size := 64, liveIntervals := [{ lower := 0, upper := 2 }] }] }
    ∃ text, writeMiniMallocCsv problem none = .ok text ∧
      ∀ document, readMiniMallocCsv text kDefaultPool ≠ .ok document := by
  have hread : (readMiniMallocCsv "id,lower,upper,size\n\"a\nb\",0,2,64\n" kDefaultPool).toOption.isSome =
      false := by decide +kernel
  refine ⟨"id,lower,upper,size\n\"a\nb\",0,2,64\n", by decide +kernel, fun document h => ?_⟩
  rw [h] at hread
  cases hread

end Dsa
