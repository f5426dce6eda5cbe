import DsaSolver.Model
import DsaSolver.Theory.Loops
import DsaSolver.Theory.Lines

/-! # MiniMalloc CSV documents

`ReadMiniMallocCsv` and `WriteMiniMallocCsv` of `minimalloc_csv.cpp`.  A text is a list of
characters where it is cut up and a `String` elsewhere; `std::getline` is `Theory.linesOf`, the
numbers are printed by `toString` and read by `Theory.readNat` and `Theory.readInt`.  An
exception is its message. -/

namespace Dsa

/-- `std::isspace` in the C locale. -/
def isspace (c : Char) : Bool :=
  c == ' ' || c == '\t' || c == '\n' || c == '\x0b' || c == '\x0c' || c == '\r'

def trim (value : List Char) : List Char := Theory.strip isspace value

def lowercase (value : List Char) : List Char := value.map Char.toLower

/-- The state machine of `ParseCsvRow`: the fields that are done, the field that is read, and
whether it is inside quotes. -/
def parseCsvRowFrom (line_number : ℕ) :
    List Char → List (List Char) → List Char → Bool → Except String (List (List Char))
  | [], fields, field, quoted =>
      if quoted then
        .error ("CSV line " ++ toString line_number ++ " has an unterminated quote")
      else .ok (fields ++ [trim field])
  | character :: rest, fields, field, true =>
      if character = '"' then
        match rest with
        | '"' :: rest => parseCsvRowFrom line_number rest fields (field ++ ['"']) true
        | rest => parseCsvRowFrom line_number rest fields field false
      else parseCsvRowFrom line_number rest fields (field ++ [character]) true
  | character :: rest, fields, field, false =>
      if character = ',' then parseCsvRowFrom line_number rest (fields ++ [trim field]) [] false
      else if character = '"' then
        if trim field ≠ [] then
          .error ("CSV line " ++ toString line_number ++ " has a quote inside an unquoted field")
        else parseCsvRowFrom line_number rest fields [] true
      else parseCsvRowFrom line_number rest fields (field ++ [character]) false

def parseCsvRow (line : List Char) (line_number : ℕ) : Except String (List (List Char)) :=
  parseCsvRowFrom line_number line [] [] false

/-- `std::from_chars` of an unsigned 64-bit number that has to use the whole text. -/
def fromCharsUInt64 (text : List Char) : Option UInt64 :=
  (Theory.readNat text).bind fun value =>
    if value < 18446744073709551616 then some (UInt64.ofNat value) else none

/-- `std::from_chars` of a signed 64-bit number that has to use the whole text. -/
def fromCharsInt64 (text : List Char) : Option Int64 :=
  (Theory.readInt text).bind fun value =>
    if -9223372036854775808 ≤ value ∧ value < 9223372036854775808 then some (Int64.ofInt value)
    else none

def parseInteger {α : Type} (fromChars : List Char → Option α) (text : List Char)
    (column : String) (line_number : ℕ) : Except String α :=
  match fromChars text with
  | none =>
      .error ("CSV line " ++ toString line_number ++ " has invalid " ++ column ++ " value '" ++
        String.ofList text ++ "'")
  | some value => .ok value

/-- The quotes in a quoted field are doubled. -/
def doubleQuotes (value : List Char) : List Char :=
  value.flatMap fun character => if character = '"' then ['"', '"'] else [character]

def escapeCsv (value : List Char) : List Char :=
  if value.any fun c => c == ',' || c == '"' || c == '\n' || c == '\r' then
    '"' :: (doubleQuotes value ++ ['"'])
  else value

structure MiniMallocDocument where
  problem : DsaProblem := {}
  solution : Option DsaSolution := none

/-- The first line that is not blank, its number, and the lines after it. -/
def headerLine : ℕ → List (List Char) → Option (List Char × ℕ × List (List Char))
  | _, [] => none
  | line_number, line :: rest =>
      if trim line ≠ [] then some (line, line_number + 1, rest)
      else headerLine (line_number + 1) rest

/-- The column names with their positions, `columns` of the source. -/
def readColumns (header : List (List Char)) : Except String (List (String × ℕ)) :=
  header.zipIdx.foldlM (fun columns (field, index) =>
    let name := String.ofList (lowercase (trim field))
    if (columns.lookup name).isSome then
      .error ("MiniMalloc CSV repeats column '" ++ name ++ "'")
    else .ok (columns ++ [(name, index)])) []

def requireColumn (columns : List (String × ℕ)) (required : String) : Except String Unit :=
  if (columns.lookup required).isNone then
    .error ("MiniMalloc CSV is missing required column '" ++ required ++ "'")
  else .ok ()

/-- The field of a row in the column `name`, which is in the header. -/
def rowField (columns : List (String × ℕ)) (fields : List (List Char)) (line_number : ℕ)
    (name : String) : Except String (List Char) :=
  match (columns.lookup name).bind (fields[·]?) with
  | none =>
      .error ("CSV line " ++ toString line_number ++ " has fewer fields than the header")
  | some field => .ok field

/-- The buffers of the rows that are read and the placements of their `offset` fields. -/
structure MiniMallocRows where
  buffers : List Buffer := []
  placements : DsaSolution := {}

def readRow (columns : List (String × ℕ)) (pool : PoolId) (document : MiniMallocRows)
    (row : List Char × ℕ) : Except String MiniMallocRows := do
  let (line, line_number) := row
  if trim line = [] then return document
  let fields ← parseCsvRow line line_number
  let field := rowField columns fields line_number
  -- `BufferId` is a 32-bit number
  if 4294967295 < document.buffers.length then
    .error "MiniMalloc CSV has too many buffers for BufferId"
  let id : BufferId := UInt32.ofNat document.buffers.length
  let name ← field "id"
  if name = [] then
    .error ("CSV line " ++ toString line_number ++ " has an empty id")
  let size ← parseInteger fromCharsUInt64 (← field "size") "size" line_number
  let lower ← parseInteger fromCharsInt64 (← field "lower") "lower" line_number
  let upper ← parseInteger fromCharsInt64 (← field "upper") "upper" line_number
  let buffers := document.buffers ++
    [{ id, name := String.ofList name, size, alignment := 1,
       liveIntervals := [{ lower, upper }], allowedPools := [pool] }]
  if (columns.lookup "offset").isSome then
    let offset ← parseInteger fromCharsUInt64 (← field "offset") "offset" line_number
    return { buffers, placements := ⟨document.placements.placements.insert id { pool, offset }⟩ }
  return { document with buffers }

def readMiniMallocCsv (input : String) (pool : PoolId) : Except String MiniMallocDocument := do
  let some (line, line_number, rest) := headerLine 0 (Theory.linesOf '\n' input.toList)
    | .error "MiniMalloc CSV is empty"
  let columns ← readColumns (← parseCsvRow line line_number)
  ["id", "lower", "upper", "size"].forM (requireColumn columns)
  let rows ← (rest.zipIdx (line_number + 1)).foldlM (readRow columns pool) {}
  if rows.buffers = [] then
    .error "MiniMalloc CSV contains no buffers"
  let pools : List Pool :=
    [{ id := pool, name := if pool = kDefaultPool then "default" else toString pool.toNat }]
  return { problem := { buffers := rows.buffers, pools }
           solution := if (columns.lookup "offset").isSome then some rows.placements else none }

/-- The offset field of a row, with its comma; nothing when no solution is written. -/
def offsetField (solution : Option DsaSolution) (buffer : Buffer) : Except String String :=
  match solution with
  | none => .ok ""
  | some solution =>
      match solution.find buffer.id with
      | none => .error ("solution has no placement for buffer " ++ toString buffer.id.toNat)
      | some placement =>
          if some placement.pool ≠ buffer.allowedPools.head? then
            .error "solution pool cannot be represented in MiniMalloc CSV"
          else .ok ("," ++ toString placement.offset.toNat)

def writeRow (solution : Option DsaSolution) (buffer : Buffer) : Except String String :=
  match buffer.liveIntervals, buffer.allowedPools with
  | [interval], [_] => do
      let name := if buffer.name = "" then toString buffer.id.toNat else buffer.name
      let offset ← offsetField solution buffer
      return String.ofList (escapeCsv name.toList) ++ "," ++ toString interval.lower.toInt ++
        "," ++ toString interval.upper.toInt ++ "," ++ toString buffer.size.toNat ++ offset ++
        "\n"
  | _, _ =>
      .error "MiniMalloc CSV supports exactly one interval and one fixed pool per buffer"

def miniMallocHeader (solution : Option DsaSolution) : String :=
  "id,lower,upper,size" ++ if solution.isSome then ",offset" else ""

/-- The text is what the stream holds when nothing is thrown. -/
def writeMiniMallocCsv (problem : DsaProblem) (solution : Option DsaSolution) :
    Except String String := do
  let rows ← problem.buffers.mapM (writeRow solution)
  return miniMallocHeader solution ++ "\n" ++ String.join rows

end Dsa
