import Symm.Workbench.Ipc

/-!
# What the workbench shows

The driver gives a value of one Go type for each DuckDB type, and a cell is to show it: as
the same integer, the same or the nearest floating point number, the same text, or the
microsecond or day that contains an instant.

- `Kind`, `selected`, `ValueOf`: the types of DuckDB, what is asked for, and the Go values;
- `Right`: a cell that shows its value, or nothing;
- `result_shown`: the record of a result.

A large unsigned integer is shown as the largest signed one. Nothing is promised for the
integers of 128 bits, the decimals and the arrays of a fixed size, of which the type
switches know nothing: such a cell shows zero, which is right for the value zero alone
(`hugeint_right_iff`, `decimal_right_iff`).
-/

namespace Symm.Workbench

open Symm.Lib

/-! ## Kinds -/

/-- The DuckDB types whose values are booleans, numbers, texts and instants, and those made of
others; what stands in parentheses is a text here. -/
inductive Kind
  | boolean
  | tinyint
  | smallint
  | integer
  | bigint
  | hugeint
  | utinyint
  | usmallint
  | uinteger
  | ubigint
  | uhugeint
  | float
  | double
  | decimal (width scale : ℕ)
  | varchar
  | enum (members : String)
  | date
  | timestamp
  | timestampS
  | timestampMs
  | timestampNs
  | timestampTz
  | list (item : Kind)
  | array (item : Kind) (size : ℕ)
  | struct (fields : String)
  | map (entry : String)
  | union (fields : String)

/-- A type's name, as `DESCRIBE` has it. -/
def Kind.name : Kind → String
  | .boolean => "BOOLEAN"
  | .tinyint => "TINYINT"
  | .smallint => "SMALLINT"
  | .integer => "INTEGER"
  | .bigint => "BIGINT"
  | .hugeint => "HUGEINT"
  | .utinyint => "UTINYINT"
  | .usmallint => "USMALLINT"
  | .uinteger => "UINTEGER"
  | .ubigint => "UBIGINT"
  | .uhugeint => "UHUGEINT"
  | .float => "FLOAT"
  | .double => "DOUBLE"
  | .decimal width scale => "DECIMAL(" ++ (toString width ++ "," ++ toString scale) ++ ")"
  | .varchar => "VARCHAR"
  | .enum members => "ENUM(" ++ members ++ ")"
  | .date => "DATE"
  | .timestamp => "TIMESTAMP"
  | .timestampS => "TIMESTAMP_S"
  | .timestampMs => "TIMESTAMP_MS"
  | .timestampNs => "TIMESTAMP_NS"
  | .timestampTz => "TIMESTAMP WITH TIME ZONE"
  | .list item => item.name ++ "[]"
  | .array item size => item.name ++ "[" ++ toString size ++ "]"
  | .struct fields => "STRUCT(" ++ fields ++ ")"
  | .map entry => "MAP(" ++ entry ++ ")"
  | .union fields => "UNION(" ++ fields ++ ")"

@[simp] theorem Kind.name_decimal (width scale : ℕ) : (Kind.decimal width scale).name =
    "DECIMAL(" ++ (toString width ++ "," ++ toString scale) ++ ")" := rfl

@[simp] theorem Kind.name_enum (members : String) :
    (Kind.enum members).name = "ENUM(" ++ members ++ ")" := rfl

@[simp] theorem Kind.name_list (item : Kind) : (Kind.list item).name = item.name ++ "[]" := rfl

@[simp] theorem Kind.name_struct (fields : String) :
    (Kind.struct fields).name = "STRUCT(" ++ fields ++ ")" := rfl

@[simp] theorem Kind.name_map (entry : String) :
    (Kind.map entry).name = "MAP(" ++ entry ++ ")" := rfl

@[simp] theorem Kind.name_union (fields : String) :
    (Kind.union fields).name = "UNION(" ++ fields ++ ")" := rfl

/-- The type of a column in the statement that is evaluated. -/
def selected (kind : Kind) : Kind := if nested kind.name then .varchar else kind

/-- The whole microseconds since 1970. -/
def Time.micros (t : Time) : ℤ := t.seconds * 10 ^ 6 + t.nanos / 1000

/-- The whole days since 1970. -/
def Time.day (t : Time) : ℤ := t.seconds / 86400

/-- An instant of the range of `TIMESTAMP`. -/
def IsTimestamp (value : Value) : Prop :=
  ∃ t : Time, value = .time t ∧ -2 ^ 63 ≤ t.micros ∧ t.micros < 2 ^ 63

/-- The Go values that the driver gives for a type. -/
def ValueOf : Kind → Value → Prop
  | .boolean, value => ∃ v, value = .bool v
  | .tinyint, value => ∃ v, value = .int8 v
  | .smallint, value => ∃ v, value = .int16 v
  | .integer, value => ∃ v, value = .int32 v
  | .bigint, value => ∃ v, value = .int64 v
  | .hugeint, value => ∃ v, value = .bigInt v
  | .utinyint, value => ∃ v, value = .uint8 v
  | .usmallint, value => ∃ v, value = .uint16 v
  | .uinteger, value => ∃ v, value = .uint32 v
  | .ubigint, value => ∃ v, value = .uint64 v
  | .uhugeint, value => ∃ v, value = .bigInt v ∧ 0 ≤ v
  | .float, value => ∃ v, value = .float32 v ∧ v.Fits toFloat32
  | .double, value => ∃ v, value = .float64 v ∧ v.Fits toFloat64
  | .decimal width scale, value => ∃ v, value = .decimal width scale v
  | .varchar, value => ∃ v, value = .string v
  | .enum _, value => ∃ v, value = .string v
  | .date, value => ∃ t : Time, value = .time t ∧ -2 ^ 31 ≤ t.day ∧ t.day < 2 ^ 31
  | .timestamp, value => IsTimestamp value
  | .timestampS, value => IsTimestamp value
  | .timestampMs, value => IsTimestamp value
  | .timestampNs, value => IsTimestamp value
  | .timestampTz, value => IsTimestamp value
  | .list _, value => ∃ v, value = .other v
  | .array _ _, value => ∃ v, value = .other v
  | .struct _, value => ∃ v, value = .other v
  | .map _, value => ∃ v, value = .other v
  | .union _, value => ∃ v, value = .other v

/-! ## Cells -/

def Value.integer : Value → Option ℤ
  | .int v => some v.toInt
  | .int8 v => some v.toInt
  | .int16 v => some v.toInt
  | .int32 v => some v.toInt
  | .int64 v => some v.toInt
  | .uint v => some v.toNat
  | .uint8 v => some v.toNat
  | .uint16 v => some v.toNat
  | .uint32 v => some v.toNat
  | .uint64 v => some v.toNat
  | .bigInt v => some v
  | _ => none

def Cell.integer : Cell → Option ℤ
  | .int8 v => some v.toInt
  | .int16 v => some v.toInt
  | .int32 v => some v.toInt
  | .int64 v => some v.toInt
  | _ => none

/-- The cell shows the value. -/
inductive Shows : Value → Cell → Prop
  | bool (v : Bool) : Shows (.bool v) (.bool v)
  | integer {value : Value} {cell : Cell} {n : ℤ} :
      value.integer = some n → cell.integer = some n → Shows value cell
  | digits {value : Value} {n : ℤ} : value.integer = some n → Shows value (.string (toString n))
  | float32 (v : Floating) : Shows (.float32 v) (.float32 v)
  | float64 (v : Floating) : Shows (.float64 v) (.float64 v)
  | decimal (width scale : ℕ) (v : ℤ) :
      Shows (.decimal width scale v) (.float64 (.of toFloat64 (v / 10 ^ scale)))
  | string (text : String) : Shows (.string text) (.string text)
  | micro {t : Time} {m : Int64} : m.toInt * 1000 ≤ t.seconds * 10 ^ 9 + t.nanos →
      t.seconds * 10 ^ 9 + t.nanos < (m.toInt + 1) * 1000 → Shows (.time t) (.timestamp m)
  | day {t : Time} {d : Int32} : d.toInt * 86400 ≤ t.seconds →
      t.seconds < (d.toInt + 1) * 86400 → Shows (.time t) (.date32 d)

/-- The cell shows the value, or nothing. -/
def Right (value : Value) (cell : Cell) : Prop := cell = .null ∨ Shows value cell

/-- An unsigned integer above the largest signed one, which stands for it. -/
def Saturated (value : Value) (cell : Cell) : Prop :=
  ∃ v : UInt64, value = .uint64 v ∧ Int64.maxValue.toInt < v.toNat ∧ cell = .int64 Int64.maxValue

/-- What is promised for: a date is a midnight, as the driver has it, or not before 1970. -/
def Covered : Kind → Value → Prop
  | .hugeint, _ => False
  | .decimal _ _, _ => False
  | .array _ _, _ => False
  | .date, .time t => 0 ≤ t.seconds ∨ t.seconds % 86400 = 0
  | _, _ => True

def Promised (kind : Kind) (value : Value) (cell : Cell) : Prop :=
  Covered kind value → Right value cell ∨ Saturated value cell

/-! ## Records -/

/-- Rows of a statement with these columns. -/
def Matching (columns : List (String × Kind)) (rows : List (List Value)) : Prop :=
  ∀ row ∈ rows, List.Forall₂
    (fun column value => value = .nil ∨ ValueOf (selected column.2) value) columns row

/-- The columns that the statement is described with. -/
def described (columns : List (String × Kind)) : List Column :=
  columns.map fun column => ⟨column.1, (selected column.2).name⟩

/-- A record of these rows whose cells are as `promise` says. -/
structure Shown (promise : Kind → Value → Cell → Prop) (columns : List (String × Kind))
    (rows : List (List Value)) (record : Record) : Prop where
  names : record.fields.map (·.1) = columns.map (·.1)
  width : record.columns.length = columns.length
  height : record.rows = rows.length
  full : ∀ cells ∈ record.columns, cells.length = rows.length
  cells : ∀ (place index : ℕ) (column : String × Kind) (row : List Value) (value : Value),
    columns[place]? = some column → rows[index]? = some row → row[place]? = some value →
      ∃ cells cell, record.columns[place]? = some cells ∧ cells[index]? = some cell ∧
        (value = .nil → cell = .null) ∧ (value ≠ .nil → promise column.2 value cell)

/-! ## Names -/

theorem normalize_brackets (text : String) :
    ∃ front, normalize (text ++ "[]") = front ++ "[]".toList := by
  refine ⟨(text.toList.dropWhile isSpace).map upper, ?_⟩
  have hbrackets : "[]".toList.dropWhile isSpace = "[]".toList := by decide
  have hdrop : (text.toList ++ "[]".toList).dropWhile isSpace =
      text.toList.dropWhile isSpace ++ "[]".toList := by
    rw [List.dropWhile_append, hbrackets]
    split
    · simp_all
    · rfl
  have hlast : ("[]".toList.reverse ++ (text.toList.dropWhile isSpace).reverse).dropWhile isSpace =
      "[]".toList.reverse ++ (text.toList.dropWhile isSpace).reverse := rfl
  rw [normalize, String.toList_append, hdrop, List.reverse_append, hlast, List.reverse_append,
    List.reverse_reverse, List.reverse_reverse, List.map_append]
  rfl

/-- A name with something in parentheses. -/
theorem normalize_parens (front : String) {first : Char} {others : List Char}
    (hfront : front.toList = first :: others) (hfirst : isSpace first = false) (text : String) :
    normalize (front ++ text ++ ")") =
      front.toList.map upper ++ (text.toList.map upper ++ [')']) := by
  have hdrop : ((front ++ text ++ ")").toList).dropWhile isSpace =
      front.toList ++ text.toList ++ [')'] := by
    simp [hfront, hfirst]
  have hlast : (front.toList ++ text.toList ++ [')']).reverse.dropWhile isSpace =
      (front.toList ++ text.toList ++ [')']).reverse := by
    rw [List.reverse_append]
    rfl
  rw [normalize, hdrop, hlast, List.reverse_reverse]
  simp [upper]

/-- A list is selected as text, and so are the other nested types. -/
theorem selected_list (item : Kind) : selected (.list item) = .varchar := by
  obtain ⟨front, hfront⟩ := normalize_brackets item.name
  simp [selected, nested, hfront]

theorem selected_struct (fields : String) : selected (.struct fields) = .varchar := by
  have hname := normalize_parens "STRUCT(" rfl rfl fields
  simp [selected, nested, hname, upper]

theorem selected_map (entry : String) : selected (.map entry) = .varchar := by
  have hname := normalize_parens "MAP(" rfl rfl entry
  simp [selected, nested, hname, upper]

theorem selected_union (fields : String) : selected (.union fields) = .varchar := by
  have hname := normalize_parens "UNION(" rfl rfl fields
  simp [selected, nested, hname, upper]

theorem selected_enum (members : String) : selected (.enum members) = .enum members := by
  have hname := normalize_parens "ENUM(" rfl rfl members
  simp [selected, nested, hname, upper, List.isSuffixOf]

theorem arrowType_enum (members : String) : arrowType (Kind.enum members).name = .string := by
  have hname := normalize_parens "ENUM(" rfl rfl members
  simp [arrowType, hname, upper]

theorem arrowType_decimal (width scale : ℕ) :
    arrowType (Kind.decimal width scale).name = .float64 := by
  rw [Kind.name_decimal]
  generalize toString width ++ "," ++ toString scale = inner
  have hname := normalize_parens "DECIMAL(" rfl rfl inner
  simp [arrowType, hname, upper]

theorem selected_of_not_nested {kind : Kind} (h : nested kind.name = false) :
    selected kind = kind := by
  rw [selected, if_neg (by simp [h])]

/-! ## Cells of a type -/

variable (library : Library)

/-- A cell that shows its value keeps every promise. -/
theorem promised_of_shows {kind : Kind} {value : Value} {cell : Cell} (h : Shows value cell) :
    Promised kind value cell :=
  fun _ => .inl (.inr h)

/-- Within the range of its microseconds a time is shown by them. -/
theorem micro_shows {t : Time} (hlow : -2 ^ 63 ≤ t.micros) (hhigh : t.micros < 2 ^ 63) :
    Shows (.time t) (.timestamp t.unixMicro) := by
  have hmicros : t.unixMicro.toInt = t.micros := Int64.toInt_ofInt_of_le hlow hhigh
  have hnanos := t.bounded
  apply Shows.micro <;> rw [hmicros, Time.micros] <;> omega

/-- A date is shown by its day, before 1970 too if it is at midnight. -/
theorem day_shows {t : Time} (hlow : -2 ^ 31 ≤ t.day) (hhigh : t.day < 2 ^ 31)
    (h : 0 ≤ t.seconds ∨ t.seconds % 86400 = 0) : Shows (.time t) (.date32 t.date32) := by
  -- rounding toward zero is rounding down from 1970 on, and on whole days
  have hday : t.seconds.tdiv 86400 = t.day := by
    rw [Time.day]
    rcases h with h | h
    · exact Int.tdiv_eq_ediv_of_nonneg h
    · exact Int.tdiv_eq_ediv_of_dvd (Int.dvd_of_emod_eq_zero h)
  have hdays : t.date32.toInt = t.day := by
    rw [Time.date32, hday]
    exact Int32.toInt_ofInt_of_le hlow hhigh
  apply Shows.day <;> rw [hdays, Time.day] <;> omega

theorem toInt_toInt64 {v : UInt64} (h : v.toNat < 2 ^ 63) : v.toInt64.toInt = v.toNat := by
  have hnat : v.toBitVec.toNat = v.toNat := rfl
  rw [show v.toInt64.toInt = v.toBitVec.toInt from rfl, BitVec.toInt_eq_toNat_of_lt, hnat]
  omega

/-- An unsigned number is shown, or the largest signed one stands for it. -/
theorem saturate_shows (v : UInt64) :
    Shows (.uint64 v) (.int64 (saturate v)) ∨ Saturated (.uint64 v) (.int64 (saturate v)) := by
  unfold saturate
  split_ifs with hlarge
  · exact .inr ⟨v, rfl, hlarge, rfl⟩
  · have hmax : Int64.maxValue.toInt = 2 ^ 63 - 1 := rfl
    exact .inl (.integer rfl (congrArg some (toInt_toInt64 (by omega))))

/-- The timestamp columns take times alone. -/
theorem timestamp_cell {kind : Kind} {value : Value} (h : IsTimestamp value) :
    Promised kind value (cellOf library .timestamp value) := by
  obtain ⟨t, rfl, hlow, hhigh⟩ := h
  exact promised_of_shows (micro_shows hlow hhigh)

theorem varchar_cell {kind : Kind} {value : Value} (h : ∃ v, value = .string v) :
    Promised kind value (cellOf library .string value) := by
  obtain ⟨v, rfl⟩ := h
  exact promised_of_shows (.string v)

/-- What is written for a value of the type that a column has in the statement. -/
theorem cell_promised {kind : Kind} {value : Value} (h : ValueOf (selected kind) value) :
    Promised kind value (cellOf library (arrowType (selected kind).name) value) := by
  -- the name decides the column and the kind the value's Go type
  cases kind with
  | boolean =>
    rw [selected_of_not_nested (by decide)] at h ⊢
    obtain ⟨v, rfl⟩ := h
    exact promised_of_shows (.bool v)
  | tinyint =>
    rw [selected_of_not_nested (by decide)] at h ⊢
    obtain ⟨v, rfl⟩ := h
    have hsame : v.toInt64.toInt8.toInt = v.toInt := by simp
    exact promised_of_shows (.integer rfl (congrArg some hsame))
  | smallint =>
    rw [selected_of_not_nested (by decide)] at h ⊢
    obtain ⟨v, rfl⟩ := h
    have hsame : v.toInt64.toInt16.toInt = v.toInt := by simp
    exact promised_of_shows (.integer rfl (congrArg some hsame))
  | integer =>
    rw [selected_of_not_nested (by decide)] at h ⊢
    obtain ⟨v, rfl⟩ := h
    have hsame : v.toInt64.toInt32.toInt = v.toInt := by simp
    exact promised_of_shows (.integer rfl (congrArg some hsame))
  | bigint =>
    rw [selected_of_not_nested (by decide)] at h ⊢
    obtain ⟨v, rfl⟩ := h
    exact promised_of_shows (.integer rfl rfl)
  | hugeint => exact fun hcovered => hcovered.elim
  | utinyint =>
    rw [selected_of_not_nested (by decide)] at h ⊢
    obtain ⟨v, rfl⟩ := h
    exact promised_of_shows (.digits (n := v.toNat) rfl)
  | usmallint =>
    rw [selected_of_not_nested (by decide)] at h ⊢
    obtain ⟨v, rfl⟩ := h
    exact promised_of_shows (.digits (n := v.toNat) rfl)
  | uinteger =>
    rw [selected_of_not_nested (by decide)] at h ⊢
    obtain ⟨v, rfl⟩ := h
    have hsmall := v.toNat_lt
    have hsame : v.toUInt64.toInt64.toInt = v.toNat := by
      rw [toInt_toInt64] <;> simp; omega
    exact promised_of_shows (.integer rfl (congrArg some hsame))
  | ubigint =>
    rw [selected_of_not_nested (by decide)] at h ⊢
    obtain ⟨v, rfl⟩ := h
    -- the largest signed integer stands for those that do not fit
    exact fun _ => (saturate_shows v).imp_left .inr
  | uhugeint =>
    rw [selected_of_not_nested (by decide)] at h ⊢
    obtain ⟨v, rfl, -⟩ := h
    exact promised_of_shows (.digits rfl)
  | float =>
    rw [selected_of_not_nested (by decide)] at h ⊢
    obtain ⟨v, rfl, hfits⟩ := h
    have hcell : cellOf library (arrowType Kind.float.name) (.float32 v) = .float32 v :=
      congrArg Cell.float32 (Floating.convert_eq_self hfits)
    rw [hcell]
    exact promised_of_shows (.float32 v)
  | double =>
    rw [selected_of_not_nested (by decide)] at h ⊢
    obtain ⟨v, rfl, -⟩ := h
    exact promised_of_shows (.float64 v)
  | decimal width scale => exact fun hcovered => hcovered.elim
  | varchar =>
    rw [selected_of_not_nested (by decide)] at h ⊢
    exact varchar_cell library h
  | enum members =>
    rw [selected_enum] at h ⊢
    rw [arrowType_enum]
    exact varchar_cell library h
  | date =>
    rw [selected_of_not_nested (by decide)] at h ⊢
    obtain ⟨t, rfl, hlow, hhigh⟩ := h
    exact fun hcovered => .inl (.inr (day_shows hlow hhigh hcovered))
  | timestamp =>
    rw [selected_of_not_nested (by decide)] at h ⊢
    exact timestamp_cell library h
  | timestampS =>
    rw [selected_of_not_nested (by decide)] at h ⊢
    exact timestamp_cell library h
  | timestampMs =>
    rw [selected_of_not_nested (by decide)] at h ⊢
    exact timestamp_cell library h
  | timestampNs =>
    rw [selected_of_not_nested (by decide)] at h ⊢
    exact timestamp_cell library h
  | timestampTz =>
    rw [selected_of_not_nested (by decide)] at h ⊢
    exact timestamp_cell library h
  | list item =>
    rw [selected_list] at h ⊢
    exact varchar_cell library h
  | array item size => exact fun hcovered => hcovered.elim
  | struct fields =>
    rw [selected_struct] at h ⊢
    exact varchar_cell library h
  | map entry =>
    rw [selected_map] at h ⊢
    exact varchar_cell library h
  | union fields =>
    rw [selected_union] at h ⊢
    exact varchar_cell library h

/-! ## What the type switches do not know -/

/-- An integer of 128 bits is written as zero. -/
theorem hugeint_right_iff (n : ℤ) :
    Right (.bigInt n) (cellOf library (arrowType Kind.hugeint.name) (.bigInt n)) ↔ n = 0 := by
  have hcell : cellOf library (arrowType Kind.hugeint.name) (.bigInt n) = .int64 0 := rfl
  rw [hcell]
  constructor
  · rintro (h | h)
    · cases h
    · cases h with
      | integer hvalue hzero => exact (Option.some.inj hvalue).trans (Option.some.inj hzero).symm
  · rintro rfl
    exact .inr (.integer rfl rfl)

/-- A decimal is written as zero. -/
theorem decimal_right_iff (width scale : ℕ) (v : ℤ) :
    Right (.decimal width scale v)
        (cellOf library (arrowType (Kind.decimal width scale).name) (.decimal width scale v)) ↔
      Floating.of toFloat64 (v / 10 ^ scale) = .finite 0 := by
  have hcell : cellOf library (arrowType (Kind.decimal width scale).name)
      (.decimal width scale v) = .float64 (.finite 0) := by
    rw [arrowType_decimal]
    rfl
  rw [hcell]
  constructor
  · rintro (h | h)
    · cases h
    · generalize hzero : Cell.float64 (.finite 0) = cell at h
      cases h with
      | integer hvalue _ => cases hvalue
      | digits hvalue => cases hvalue
      | decimal => exact (Cell.float64.inj hzero).symm
  · intro h
    rw [← h]
    exact .inr (.decimal width scale v)

/-! ## The record of a result -/

theorem matching_length {columns : List (String × Kind)} {rows : List (List Value)}
    (h : Matching columns rows) : ∀ row ∈ rows, row.length = (described columns).length := by
  intro row hrow
  rw [described, List.length_map, (h row hrow).length_eq]

/-- Below its column a row has a value of the selected type, or none. -/
theorem matching_value {columns : List (String × Kind)} {rows : List (List Value)}
    (h : Matching columns rows) {place index : ℕ} {column : String × Kind} {row : List Value}
    {value : Value} (hcolumn : columns[place]? = some column) (hrow : rows[index]? = some row)
    (hvalue : row[place]? = some value) : value = .nil ∨ ValueOf (selected column.2) value := by
  obtain ⟨hplace, rfl⟩ := List.getElem?_eq_some_iff.mp hcolumn
  obtain ⟨hplace', rfl⟩ := List.getElem?_eq_some_iff.mp hvalue
  exact (h row (List.mem_of_getElem? hrow)).get hplace hplace'

/-- A result without columns is refused. Any other one is encoded, one column for each of
its own and one cell for each row, and each cell shows its value or nothing, as far as
anything is promised of it. -/
theorem result_shown (columns : List (String × Kind)) (rows : List (List Value))
    (hrows : Matching columns rows) :
    columns = [] ∧ encodeIPC library (described columns) rows = .error .noColumns ∨
      ∃ record, encodeIPC library (described columns) rows = .ok record ∧
        Shown Promised columns rows record := by
  -- a statement without columns is an error of its own
  rcases eq_or_ne columns [] with rfl | hcolumns
  · exact .inl ⟨rfl, rfl⟩
  right
  refine ⟨_, encodeIPC_ok library (by simpa [described] using hcolumns) (matching_length hrows), ?_⟩
  constructor
  · simp [described]
  · simp [described]
  · rfl
  · intro cells hcells
    obtain ⟨place, hplace, rfl⟩ := List.mem_mapIdx.mp hcells
    simp
  -- the cell of a value is the one at its place, in the column of its type
  · intro place index column row value hcolumn hrow hvalue
    refine ⟨rows.map fun row =>
        cellOf library (arrowType (selected column.2).name) (row.getD place .nil),
      cellOf library (arrowType (selected column.2).name) value, ?_, ?_, ?_, ?_⟩
    · simp only [described, List.getElem?_mapIdx, List.getElem?_map, hcolumn, Option.map_some]
    · simp only [List.getElem?_map, hrow, Option.map_some, List.getD_eq_getElem?_getD, hvalue,
        Option.getD_some]
    · rintro rfl
      rfl
    · intro hvalued
      have hof : value = .nil ∨ ValueOf (selected column.2) value :=
        matching_value hrows hcolumn hrow hvalue
      exact cell_promised library (hof.resolve_left hvalued)

/-- A library for the examples. -/
def emptyLibrary : Library where
  parseFloat _ := .nan
  parseTime _ _ := none
  truncate _ := 0
  formatTime _ := ""
  sprintFloat _ := ""
  sprintDecimal _ _ _ := ""

theorem result_shown_smallint :
    ∃ record, encodeIPC emptyLibrary (described [("n", .smallint)]) [[.int16 (-3)], [.nil]] =
        .ok record ∧
      Shown Promised [("n", .smallint)] [[.int16 (-3)], [.nil]] record := by
  have hselected : selected .smallint = .smallint := selected_of_not_nested (by decide)
  exact (result_shown emptyLibrary [("n", .smallint)] [[.int16 (-3)], [.nil]]
    (by simp [Matching, hselected, ValueOf])).resolve_left (by simp)

/-- The largest unsigned integer is shown as the largest signed one. -/
theorem unsigned_shown_otherwise : ¬ ∀ (library : Library) (columns : List (String × Kind))
    (rows : List (List Value)), columns ≠ [] → Matching columns rows →
      ∃ record, encodeIPC library (described columns) rows = .ok record ∧
        Shown (fun _ => Right) columns rows record := by
  intro h
  have hselected : selected .ubigint = .ubigint := selected_of_not_nested (by decide)
  obtain ⟨record, hok, hshown⟩ := h emptyLibrary [("n", .ubigint)]
    [[.uint64 18446744073709551615]] (by simp) (by simp [Matching, hselected, ValueOf])
  have hrecord : encodeIPC emptyLibrary (described [("n", .ubigint)])
      [[.uint64 18446744073709551615]] = .ok ⟨[("n", .int64)], [[.int64 Int64.maxValue]], 1⟩ := rfl
  rw [hrecord] at hok
  obtain rfl := Except.ok.inj hok
  obtain ⟨cells, cell, hcells, hcell, -, hright⟩ := hshown.cells 0 0 _ _ _ rfl rfl rfl
  obtain rfl := Option.some.inj hcells
  obtain rfl := Option.some.inj hcell
  rcases hright (by simp) with hnull | hshows
  · cases hnull
  · cases hshows with
    | integer hvalue hinteger =>
      have hsame := hvalue.trans hinteger.symm
      exact absurd hsame (by decide)

end Symm.Workbench
