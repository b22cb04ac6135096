import Symm.Lib.Float64

/-!
# Results of the workbench (`workbench/ipc.go`, `workbench/sql.go`)

The result of a statement is sent as one Arrow record. The name of a column's DuckDB type
decides the type of its Arrow column, and each value of a row is appended as what a type
switch makes of it there: a switch that does not know the value's Go type writes a zero.
Columns of nested types are cast to text in the statement before it is evaluated.

- `arrowType`, `appendValue`, `encodeIPC`: the record of a result;
- `nested`, `selection`: which columns are cast;
- `encodeIPC_ok`: the shape of a record, cell by cell.

The record is taken for the bytes that are written of it.

A value is of one of the Go types that the switches know or of another one, which
carries its text only. `Library` stands for what the standard library makes of texts and
times, and of conversions that its documents leave open, so that a record is a function
of the rows and of these.

`encodeIPC` fails as the code does: without columns, on a row that is too wide, and, as
a panic of `NewRecord`, on one that is too narrow. Over rows of the right width
`encodeIPC_ok` gives the record column by column, and what a cell shows of its value is
left to `Workbench.Cells`.
-/

namespace Symm.Workbench

open Symm.Lib

/-! ## Go values -/

/-- A `time.Time`, in seconds since 1970 and nanoseconds. -/
structure Time where
  seconds : ℤ
  nanos : ℕ
  bounded : nanos < 10 ^ 9

/-- A value of type `any`; `other` is one of any other type, with its text. -/
inductive Value
  | nil
  | bool (value : Bool)
  | int (value : Int64)
  | int8 (value : Int8)
  | int16 (value : Int16)
  | int32 (value : Int32)
  | int64 (value : Int64)
  | uint (value : UInt64)
  | uint8 (value : UInt8)
  | uint16 (value : UInt16)
  | uint32 (value : UInt32)
  | uint64 (value : UInt64)
  | float32 (value : Floating)
  | float64 (value : Floating)
  | string (text : String)
  | bytes (text : String)
  | time (value : Time)
  | bigInt (value : ℤ)
  | decimal (width scale : ℕ) (value : ℤ)
  | other (text : String)

/-- What the standard library makes of texts, and of numbers where its own documents leave
it open. -/
structure Library where
  parseFloat : String → Floating
  parseTime : (layout text : String) → Option Time
  /-- `int64` of a floating point number out of its range. -/
  truncate : Floating → Int64
  formatTime : Time → String
  sprintFloat : Floating → String
  sprintDecimal : (width scale : ℕ) → ℤ → String

/-! ## Conversions -/

/-- `strconv.ParseBool`, false for an error. -/
def parseBool (text : String) : Bool :=
  text ∈ ["1", "t", "T", "TRUE", "true", "True"]

/-- The value of decimal digits. -/
def digitsValue (digits : List Char) : ℕ :=
  digits.foldl (fun n c => 10 * n + (c.toNat - '0'.toNat)) 0

/-- `strconv.ParseInt` in base 10, the nearest bound beyond the range, zero for a text that
is no number. -/
def parseInt (text : String) : Int64 :=
  -- one sign at most
  let (negative, digits) := match text.toList with
    | '-' :: rest => (true, rest)
    | '+' :: rest => (false, rest)
    | rest => (false, rest)
  if digits = [] ∨ ¬ digits.all Char.isDigit then 0
  else
    let n : ℤ := if negative then -digitsValue digits else digitsValue digits
    -- the error is dropped by the caller, the value that comes with it is not
    if n < -2 ^ 63 then Int64.minValue
    else if 2 ^ 63 ≤ n then Int64.maxValue
    else Int64.ofInt n

variable (library : Library)

def asBool : Value → Bool
  | .bool v => v
  | .int64 v => v ≠ 0
  | .string v => parseBool v
  -- any other type, numbers of other widths among them
  | _ => false

/-- `int64` of a number of floating point. -/
def intOfFloat : Floating → Int64
  | .finite value =>
    -- rounded toward zero
    let whole := if value < 0 then ⌈value⌉ else ⌊value⌋
    if -2 ^ 63 ≤ whole ∧ whole < 2 ^ 63 then Int64.ofInt whole
    else library.truncate (.finite value)
  | number => library.truncate number

/-- The largest number stands for all above it. -/
def saturate (v : UInt64) : Int64 :=
  if Int64.maxValue.toInt < v.toNat then Int64.maxValue else v.toInt64

def asInt64 : Value → Int64
  | .int64 v => v
  | .int32 v => v.toInt64
  | .int16 v => v.toInt64
  | .int8 v => v.toInt64
  | .int v => v
  | .uint v => saturate v
  | .uint8 v => v.toUInt64.toInt64
  | .uint16 v => v.toUInt64.toInt64
  | .uint32 v => v.toUInt64.toInt64
  | .uint64 v => saturate v
  | .float64 v => intOfFloat library v
  | .float32 v => intOfFloat library v
  | .string v => parseInt v
  | .bytes v => parseInt v
  -- among the others `*big.Int` and `Decimal`, which a `HUGEINT` and a `DECIMAL` come as
  | _ => 0

def asFloat64 : Value → Floating
  | .float64 v => v
  | .float32 v => v
  | .int64 v => .of toFloat64 v.toInt
  | .int32 v => .of toFloat64 v.toInt
  | .int v => .of toFloat64 v.toInt
  | .string v => library.parseFloat v
  | .bytes v => library.parseFloat v
  -- no case for the other widths, for the unsigned ones and for `Decimal`
  | _ => .finite 0

def asString : Value → String
  | .string v => v
  | .bytes v => v
  | .time v => library.formatTime v
  -- what `fmt.Sprint` prints of the rest
  | .nil => "<nil>"
  | .bool v => if v then "true" else "false"
  | .int v => toString v.toInt
  | .int8 v => toString v.toInt
  | .int16 v => toString v.toInt
  | .int32 v => toString v.toInt
  | .int64 v => toString v.toInt
  | .uint v => toString v.toNat
  | .uint8 v => toString v.toNat
  | .uint16 v => toString v.toNat
  | .uint32 v => toString v.toNat
  | .uint64 v => toString v.toNat
  | .bigInt v => toString v
  | .float32 v => library.sprintFloat v
  | .float64 v => library.sprintFloat v
  | .decimal width scale v => library.sprintDecimal width scale v
  | .other text => text

/-- The layouts that are tried on a text, in this order. -/
def layouts : List String :=
  ["2006-01-02T15:04:05.999999999Z07:00", "2006-01-02T15:04:05Z07:00",
    "2006-01-02 15:04:05.999999-07:00", "2006-01-02 15:04:05.999999", "2006-01-02"]

def asTimestamp : Value → Option Time
  | .time v => some v
  | .string v => layouts.findSome? fun layout => library.parseTime layout v
  | _ => none

/-- `UnixMicro`. -/
def Time.unixMicro (t : Time) : Int64 := Int64.ofInt (t.seconds * 10 ^ 6 + t.nanos / 1000)

/-- `Unix() / 86400`, which rounds toward zero, as a `Date32`. -/
def Time.date32 (t : Time) : Int32 := Int32.ofInt (t.seconds.tdiv 86400)

/-! ## Columns -/

inductive ArrowType
  | boolean
  | int8
  | int16
  | int32
  | int64
  | float32
  | float64
  | string
  | timestamp
  | date32
  deriving DecidableEq

/-- A space, as `strings.TrimSpace` has it. -/
def isSpace (c : Char) : Bool :=
  c.toNat ∈ [0x9, 0xA, 0xB, 0xC, 0xD, 0x20, 0x85, 0xA0, 0x1680, 0x2028, 0x2029, 0x202F, 0x205F,
    0x3000] || (0x2000 ≤ c.toNat && c.toNat ≤ 0x200A)

/-- `unicode.ToUpper`; of the letters beyond ASCII only these two have an ASCII capital. -/
def upper (c : Char) : Char :=
  if c.toNat = 0x131 then 'I' else if c.toNat = 0x17F then 'S' else c.toUpper

/-- A type's name without spaces around it, in capitals. -/
def normalize (kind : String) : List Char :=
  (((kind.toList.dropWhile isSpace).reverse.dropWhile isSpace).reverse).map upper

def arrowType (kind : String) : ArrowType :=
  let normalized := normalize kind
  let hasPrefix (text : String) : Bool := text.toList.isPrefixOf normalized
  let is (text : String) : Bool := text.toList = normalized
  -- the first case that fits decides; a type without one is sent as text
  if hasPrefix "TINYINT" || is "INT1" then .int8
  else if hasPrefix "SMALLINT" || is "INT2" then .int16
  else if hasPrefix "INTEGER" || is "INT" || is "INT4" then .int32
  else if hasPrefix "BIGINT" || is "INT8" || hasPrefix "HUGEINT" || hasPrefix "UBIGINT" ||
      hasPrefix "UINTEGER" then .int64
  else if hasPrefix "FLOAT" || is "FLOAT4" || hasPrefix "REAL" then .float32
  else if hasPrefix "DOUBLE" || is "FLOAT8" || hasPrefix "DECIMAL" || hasPrefix "NUMERIC" then
    .float64
  else if hasPrefix "BOOLEAN" || is "BOOL" then .boolean
  else if hasPrefix "TIMESTAMP" || hasPrefix "DATETIME" then .timestamp
  else if hasPrefix "DATE" then .date32
  else .string

/-- A cell of an Arrow column. -/
inductive Cell
  | null
  | bool (value : Bool)
  | int8 (value : Int8)
  | int16 (value : Int16)
  | int32 (value : Int32)
  | int64 (value : Int64)
  | float32 (value : Floating)
  | float64 (value : Floating)
  | string (text : String)
  | timestamp (micros : Int64)
  | date32 (days : Int32)

/-- What is appended to a column of a type. -/
def cellOf : ArrowType → Value → Cell
  | _, .nil => .null
  | .boolean, value => .bool (asBool value)
  -- the narrow columns keep the low bits
  | .int8, value => .int8 (asInt64 library value).toInt8
  | .int16, value => .int16 (asInt64 library value).toInt16
  | .int32, value => .int32 (asInt64 library value).toInt32
  | .int64, value => .int64 (asInt64 library value)
  | .float32, value => .float32 ((asFloat64 library value).convert toFloat32)
  | .float64, value => .float64 (asFloat64 library value)
  | .string, value => .string (asString library value)
  -- a text that no layout fits is sent as null, without an error
  | .timestamp, value =>
    match asTimestamp library value with
    | some t => .timestamp t.unixMicro
    | none => .null
  | .date32, value =>
    match asTimestamp library value with
    | some t => .date32 t.date32
    | none => .null

structure Builder where
  type : ArrowType
  cells : List Cell

def appendValue (builder : Builder) (value : Value) : Builder :=
  { builder with cells := builder.cells ++ [cellOf library builder.type value] }

/-! ## Records -/

structure Column where
  name : String
  type : String

structure Record where
  fields : List (String × ArrowType)
  columns : List (List Cell)
  rows : ℕ

/-- An error, or what panics. -/
inductive EncodeError
  | noColumns
  | indexOutOfRange
  | mismatchedRows
  deriving DecidableEq

def EncodeError.message : EncodeError → String
  | .noColumns => "workbench: no columns to encode"
  | .indexOutOfRange => "index out of range"
  | .mismatchedRows => "arrow/array: mismatch number of rows in column"

/-- One row is appended, its values from the left. -/
def appendRow : List Builder → List Value → Except EncodeError (List Builder)
  -- a short row leaves the later columns behind
  | builders, [] => .ok builders
  -- and a long one runs past the last builder
  | [], _ :: _ => .error .indexOutOfRange
  | builder :: builders, value :: row =>
    (appendRow builders row).map (appendValue library builder value :: ·)

def encodeIPC (columns : List Column) (rows : List (List Value)) : Except EncodeError Record :=
  if columns = [] then .error .noColumns
  else
    let fields := columns.map fun column => (column.name, arrowType column.type)
    match rows.foldlM (appendRow library) (fields.map fun field => ⟨field.2, []⟩) with
    | .error err => .error err
    | .ok builders =>
      -- `NewRecord` panics when a column is shorter than the record
      if builders.any (·.cells.length < rows.length) then .error .mismatchedRows
      else .ok ⟨fields, builders.map (·.cells), rows.length⟩

/-! ## Selected columns -/

def nested (kind : String) : Bool :=
  let normalized := normalize kind
  "[]".toList.isSuffixOf normalized || ")[]".toList.isSuffixOf normalized ||
    ["MAP(", "STRUCT(", "UNION(", "LIST("].any (·.toList.isPrefixOf normalized)

/-- A name in double quotes. -/
def identifier (value : String) : String := "\"" ++ value.replace "\"" "\"\"" ++ "\""

def selection (name kind : String) : String :=
  let quoted := identifier name
  if nested kind then "to_json(" ++ quoted ++ ")::VARCHAR AS " ++ quoted else quoted

/-! ## The shape of a record -/

/-- A row with one value for each builder is appended. -/
theorem appendRow_ok : ∀ {builders : List Builder} {row : List Value},
    row.length = builders.length →
      appendRow library builders row = .ok (List.zipWith (appendValue library) builders row)
  | [], [], _ => rfl
  | builder :: builders, value :: row, h => by
    have ih := appendRow_ok (Nat.succ.inj h)
    simp [appendRow, ih, Except.map]

/-- A builder after some rows, of which its values are those at its place. -/
def Builder.after (builder : Builder) (place : ℕ) (rows : List (List Value)) : Builder :=
  { builder with
    cells := builder.cells ++
      rows.map fun row => cellOf library builder.type (row.getD place .nil) }

/-- So are all the rows, and each builder has its column of them. -/
theorem appendRows_ok : ∀ {rows : List (List Value)} {builders : List Builder},
    (∀ row ∈ rows, row.length = builders.length) →
      rows.foldlM (appendRow library) builders =
        .ok (builders.mapIdx fun place builder => builder.after library place rows)
  | [], builders, _ => by
    have hsame : (builders.mapIdx fun place builder => builder.after library place []) = builders :=
      List.ext_getElem (by simp) fun i _ _ => by simp [Builder.after]
    rw [hsame]
    rfl
  | row :: rows, builders, h => by
    have hrow : row.length = builders.length := h row List.mem_cons_self
    have hlength : (List.zipWith (appendValue library) builders row).length = builders.length := by
      simp [hrow]
    have hothers : ∀ other ∈ rows,
        other.length = (List.zipWith (appendValue library) builders row).length := by
      intro other hother
      rw [hlength]
      exact h other (List.mem_cons_of_mem _ hother)
    rw [List.foldlM_cons, appendRow_ok library hrow]
    -- at each place the first row's value stands before those of the others
    refine (appendRows_ok hothers).trans (congrArg Except.ok ?_)
    refine List.ext_getElem (by simp [hrow]) fun i hi _ => ?_
    have hi : i < row.length := by simpa [hrow] using hi
    simp [Builder.after, appendValue, hi]

/-- Over rows of the right width the record has the columns of the rows, cell by cell. -/
theorem encodeIPC_ok {columns : List Column} {rows : List (List Value)} (hcolumns : columns ≠ [])
    (hrows : ∀ row ∈ rows, row.length = columns.length) :
    encodeIPC library columns rows = .ok
      ⟨columns.map fun column => (column.name, arrowType column.type),
        columns.mapIdx fun place column => rows.map fun row =>
          cellOf library (arrowType column.type) (row.getD place .nil),
        rows.length⟩ := by
  -- there is one builder for each column, so no row runs past them
  have hbuilders : ∀ row ∈ rows, row.length = ((columns.map fun column =>
      (column.name, arrowType column.type)).map fun field => (⟨field.2, []⟩ : Builder)).length := by
    simpa using hrows
  simp only [encodeIPC, if_neg hcolumns, appendRows_ok library hbuilders]
  rw [if_neg]
  · congr 2
    exact List.ext_getElem (by simp) fun i _ _ => by simp [Builder.after]
  · simp [Builder.after, List.mem_mapIdx]

end Symm.Workbench
