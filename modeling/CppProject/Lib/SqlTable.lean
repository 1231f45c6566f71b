import CppProject.Lib.SqlUpdate
import Mathlib.Data.List.Nodup
import Mathlib.Data.List.TakeWhile
import Mathlib.Logic.Function.Basic

/-!
# Columns and their cells

The rows of a table, column by column. Cells are in the form in which a client reads them: text, with nothing for NULL.
What a column makes of a value is left to the engine; of it is known only that numbers within the range of a column
come back in decimal. A row is filled with the cells that are made of some values, if all are taken.
-/

namespace Sql

/-! ## Columns -/

/-- The types of columns: unsigned integers of so many bits, and texts. -/
inductive ColumnType
  | unsigned (bits : ℕ)
  | varchar (chars : ℕ)
  deriving DecidableEq

/-- The form of the cells of a column: numbers are in decimal and within the range. -/
def ColumnType.Holds : ColumnType → List UInt8 → Prop
  | .unsigned bits, cell => ∃ n < 2 ^ bits, cell = decimal n
  | .varchar _, _ => True

/-- A cell of a column of numbers holds its own number in decimal. -/
theorem ColumnType.holds_unsigned {bits : ℕ} {cell : List UInt8} :
    (ColumnType.unsigned bits).Holds cell ↔ number cell < 2 ^ bits ∧ cell = decimal (number cell) := by
  constructor
  · rintro ⟨n, hn, rfl⟩
    rw [number_decimal]
    exact ⟨hn, rfl⟩
  · exact fun ⟨hn, hcell⟩ => ⟨number cell, hn, hcell⟩

instance : (type : ColumnType) → (cell : List UInt8) → Decidable (type.Holds cell)
  | .unsigned _, _ => decidable_of_iff' _ ColumnType.holds_unsigned
  | .varchar _, _ => inferInstanceAs (Decidable True)

/-- A column. -/
structure Column where
  name : List UInt8
  type : ColumnType
  nullable : Bool
  deriving DecidableEq

/-- The cells of a row, under the names of their columns. -/
abbrev Row := List UInt8 → Option (List UInt8)

/-- What a column makes of a value that is assigned to it, if it takes the value; `below type n` is for the negative
number `-1 - n`. -/
structure Engine where
  stored : ColumnType → Value → Option (List UInt8)
  below : ColumnType → ℕ → Option (List UInt8)
  number : ∀ bits n, n < 2 ^ bits → stored (.unsigned bits) (.number n) = some (decimal n)
  digits : ∀ bits n, n < 2 ^ bits → stored (.unsigned bits) (.text (decimal n)) = some (decimal n)
  holds : ∀ type value cell, stored type value = some cell → type.Holds cell

/-- The text of a value in a cell. -/
def Value.cell : Value → List UInt8
  | .number n => decimal n
  | .text bytes => bytes

/-- A row with the cells that are made of some values, if all are taken. -/
def Row.fill {δ : Type*} (cell : List UInt8 × δ → Option (List UInt8)) (row : Row) (values : List (List UInt8 × δ)) :
    Option Row :=
  values.foldlM (fun row value => (cell value).map fun made => Function.update row value.1 (some made)) row

/-- The cell that an assignment makes. -/
def Engine.cell (engine : Engine) (columns : List Column) (assignment : List UInt8 × Value) : Option (List UInt8) :=
  (columns.find? fun column => column.name == assignment.1).bind fun column => engine.stored column.type assignment.2

/-! ## Rows that are filled -/

section Fill

variable {δ : Type*} {cell : List UInt8 × δ → Option (List UInt8)} {values : List (List UInt8 × δ)}

/-- Values for different columns, all of which are taken: each column has its cell, and the others are as before. -/
theorem exists_fill (hnodup : (values.map Prod.fst).Nodup) (htaken : ∀ value ∈ values, (cell value).isSome)
    (row : Row) : ∃ row', row.fill cell values = some row' ∧ (∀ value ∈ values, row' value.1 = cell value) ∧
      ∀ column ∉ values.map Prod.fst, row' column = row column := by
  induction values generalizing row with
  | nil => exact ⟨row, rfl, fun _ h => absurd h List.not_mem_nil, fun _ _ => rfl⟩
  | cons value values ih =>
    obtain ⟨hfirst, hrest⟩ := List.forall_mem_cons.mp htaken
    obtain ⟨hnot, hnodup⟩ := List.nodup_cons.mp hnodup
    obtain ⟨made, hmade⟩ := Option.isSome_iff_exists.mp hfirst
    obtain ⟨row', hrow', hfilled, hothers⟩ := ih hnodup hrest (Function.update row value.1 (some made))
    refine ⟨row', ?_, List.forall_mem_cons.mpr ⟨?_, hfilled⟩, fun column hcolumn => ?_⟩
    · rw [Row.fill, List.foldlM_cons, hmade]
      exact hrow'
    · rw [hothers _ hnot, Function.update_self, hmade]
    · rw [List.map_cons, List.mem_cons, not_or] at hcolumn
      rw [hothers _ hcolumn.2, Function.update_of_ne hcolumn.1]

/-- One value that is refused. -/
theorem fill_eq_none {value : List UInt8 × δ} (hmem : value ∈ values) (hrefused : cell value = none) (row : Row) :
    row.fill cell values = none := by
  induction values generalizing row with
  | nil => exact absurd hmem List.not_mem_nil
  | cons first values ih =>
    rw [Row.fill, List.foldlM_cons]
    cases hmade : cell first with
    | none => rfl
    | some made =>
      rcases List.mem_cons.mp hmem with rfl | hmem
      · exact absurd (hrefused.symm.trans hmade) (Option.some_ne_none made).symm
      · exact ih hmem _

end Fill

/-! ## Rows that conform to the schema -/

variable {engine : Engine} {columns : List Column}

/-- Columns that are not nullable have a cell, and cells have the form of their column. -/
structure Conforms (columns : List Column) (row : Row) : Prop where
  cell : ∀ column ∈ columns, column.nullable = false → (row column.name).isSome
  holds : ∀ column ∈ columns, ∀ cell ∈ row column.name, column.type.Holds cell

instance (columns : List Column) (row : Row) : Decidable (Conforms columns row) :=
  decidable_of_iff ((∀ column ∈ columns, column.nullable = false → (row column.name).isSome) ∧
    ∀ column ∈ columns, ∀ cell ∈ row column.name, column.type.Holds cell)
      ⟨fun h => ⟨h.1, h.2⟩, fun h => ⟨h.cell, h.holds⟩⟩

/-- A column of a schema whose names differ, found by its name. -/
theorem find?_name (hnames : (columns.map Column.name).Nodup) {column : Column} (hcolumn : column ∈ columns) :
    columns.find? (fun other => other.name == column.name) = some column := by
  obtain ⟨found, hfound⟩ : ∃ found, columns.find? (fun other => other.name == column.name) = some found :=
    Option.isSome_iff_exists.mp (List.find?_isSome.mpr ⟨column, hcolumn, by simp⟩)
  have hname : found.name = column.name := by simpa using List.find?_some hfound
  rw [hfound, List.inj_on_of_nodup_map hnames (List.mem_of_find?_eq_some hfound) hcolumn hname]

/-- An assignment to a column of the schema. -/
theorem cell_of_mem (hnames : (columns.map Column.name).Nodup) {column : Column} (hcolumn : column ∈ columns)
    (value : Value) : engine.cell columns (column.name, value) = engine.stored column.type value := by
  rw [Engine.cell, find?_name hnames hcolumn, Option.bind_some]

/-! ## Two engines -/

/-- Columns for numbers take numbers within their range, also from digits, of which there must be some; columns for
text take ASCII texts that are not too long. -/
def storedStrictly : ColumnType → Value → Option (List UInt8)
  | .unsigned bits, .number n => if n < 2 ^ bits then some (decimal n) else none
  | .unsigned bits, .text bytes =>
    if bytes ≠ [] ∧ bytes.all isDigit ∧ number bytes < 2 ^ bits then some (decimal (number bytes)) else none
  | .varchar chars, value =>
    if value.cell.length ≤ chars ∧ value.cell.all (· < 128) then some value.cell else none

/-- An engine that takes no more than this. -/
def Engine.strict : Engine where
  stored := storedStrictly
  below := fun _ _ => none
  number := fun _ _ hn => if_pos hn
  digits := fun bits n hn => by
    have hdigits : decimal n ≠ [] ∧ (decimal n).all isDigit = true ∧ Sql.number (decimal n) < 2 ^ bits :=
      ⟨(decimal_digits n).1, List.all_eq_true.mpr (decimal_digits n).2, by rwa [number_decimal]⟩
    rw [storedStrictly, if_pos hdigits, number_decimal]
  holds := fun type value cell hcell => by
    cases type with
    | varchar => exact trivial
    | unsigned bits =>
      cases value with
      | number n =>
        obtain ⟨hn, hcell⟩ := Option.ite_none_right_eq_some.mp hcell
        exact ⟨n, hn, (Option.some.inj hcell).symm⟩
      | text bytes =>
        obtain ⟨hbytes, hcell⟩ := Option.ite_none_right_eq_some.mp hcell
        exact ⟨Sql.number bytes, hbytes.2.2, (Option.some.inj hcell).symm⟩

/-- Numbers are cut to the range of their column and ASCII texts to its length, and in a column for numbers the digits
in front count. -/
def storedLeniently : ColumnType → Value → Option (List UInt8)
  | .unsigned bits, .number n => some (decimal (min n (2 ^ bits - 1)))
  | .unsigned bits, .text bytes => some (decimal (min (number (bytes.takeWhile isDigit)) (2 ^ bits - 1)))
  | .varchar chars, value => some (value.cell.take chars)

/-- An engine that takes every value. -/
def Engine.lenient : Engine where
  stored := storedLeniently
  below := fun _ _ => some (decimal 0)
  number := fun bits n hn => by
    rw [storedLeniently, Nat.min_eq_left (Nat.le_sub_one_of_lt hn)]
  digits := fun bits n hn => by
    have hdigits : (decimal n).takeWhile isDigit = decimal n := List.takeWhile_eq_self_iff.mpr (decimal_digits n).2
    rw [storedLeniently, hdigits, number_decimal, Nat.min_eq_left (Nat.le_sub_one_of_lt hn)]
  holds := fun type value cell hcell => by
    cases type with
    | varchar => exact trivial
    | unsigned bits =>
      have hcut (n : ℕ) : min n (2 ^ bits - 1) < 2 ^ bits :=
        Nat.lt_of_le_of_lt (Nat.min_le_right ..) (Nat.sub_one_lt (Nat.two_pow_pos bits).ne')
      cases value with
      | number n => exact ⟨_, hcut n, (Option.some.inj hcell).symm⟩
      | text bytes => exact ⟨_, hcut _, (Option.some.inj hcell).symm⟩

end Sql
