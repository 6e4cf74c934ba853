import TableAccess.Predicate.Literal
import TableAccess.Proofs.Sorted
import TableAccess.Proofs.Text.Numeral
import TableAccess.Schema.Catalog

/-!
# Integers that become numbers

Columns and computed fields that are integers may be declared anew as numbers. A `Widening` says which; the
names of a schema stand for the same before and after, but for these types.

* `ColumnType.fits_widened`: **what fits an integer fits a number**, however it is written.
* `Schema.Widens`: a schema in which columns and computed fields are widened. `Schema.Widens.member?`: what
  names stand for in it.
* `Catalog.widens`: a catalog in which they are declared as numbers has such a schema.
-/

namespace TableAccess

namespace ColumnType

/-- What becomes of a type: integers become numbers. -/
def widened : ColumnType → ColumnType
  | integer => numeric
  | t => t

/-- **What fits a type still fits when integers have become numbers.** -/
theorem fits_widened {t : ColumnType} {v : Json} (h : t.fits v = true) : t.widened.fits v = true := by
  cases t with
  | integer =>
    cases v with
    | null => rfl
    | num n => rfl
    | str s => exact Text.isFiniteNumber_of_isInteger h
    | bool | arr | obj => cases h
  | _ => exact h

end ColumnType

/-- **Which columns and computed fields are widened**, of those that are integers. -/
structure Widening where
  columns : (table name : String) → Bool
  computedFields : (table name : String) → Bool

namespace Widening

variable (w : Widening) (table name : String)

/-- The type of a column that had type `t`. -/
def columnType (t : ColumnType) : ColumnType := if w.columns table name then t.widened else t

/-- The type of a computed field that had type `t`. -/
def fieldType (t : ColumnType) : ColumnType := if w.computedFields table name then t.widened else t

/-- What a computed field returns. -/
def returns : Returns → Returns
  | .scalar t => .scalar (w.fieldType table name t)
  | .rows remote => .rows remote

/-- What a name stands for. -/
def member : Member → Member
  | .column t => .column (w.columnType table name t)
  | .relationship r => .relationship r
  | .computedField f => .computedField (w.returns table name f)

end Widening

/-- **`τ` is `σ` with columns and computed fields widened.** -/
structure Schema.Widens (σ τ : Schema) (w : Widening) : Prop where
  tableExists : τ.tableExists = σ.tableExists
  column? : ∀ table name, τ.column? table name = (σ.column? table name).map (w.columnType table name)
  computedField? : ∀ table name,
    τ.computedField? table name = (σ.computedField? table name).map (w.returns table name)
  relationship? : τ.relationship? = σ.relationship?
  /-- The columns keep their names and their order. -/
  columns : ∀ table, (τ.columns table).map (·.1) = (σ.columns table).map (·.1)

namespace Schema.Widens

variable {σ τ : Schema} {w : Widening}

theorem isSome_column? (h : σ.Widens τ w) (table name : String) :
    (τ.column? table name).isSome = (σ.column? table name).isSome := by
  rw [h.column?, Option.isSome_map]

theorem member? (h : σ.Widens τ w) (table name : String) :
    τ.member? table name = (σ.member? table name).map (w.member table name) := by
  rw [Schema.member?, Schema.member?, h.column?, h.relationship?, h.computedField?]
  cases σ.column? table name with
  | some t => rfl
  | none =>
    cases σ.relationship? table name with
    | some r => rfl
    | none => cases σ.computedField? table name <;> rfl

end Schema.Widens

/-! ## Catalogs -/

/-- The catalog with columns and computed fields widened. -/
def Catalog.widened (w : Widening) (c : Catalog) : Catalog :=
  ⟨c.tables.mapWithKey fun table t =>
    { t with
      columns := t.columns.map fun x => { x with type := w.columnType table x.name x.type }
      computedFields := t.computedFields.map fun f => { f with returns := w.returns table f.name f.returns } }⟩

namespace Catalog

variable (w : Widening) (c : Catalog)

theorem table?_widened (table : String) : (c.widened w).table? table =
    (c.table? table).map fun t =>
      { t with
        columns := t.columns.map fun x => { x with type := w.columnType table x.name x.type }
        computedFields :=
          t.computedFields.map fun f => { f with returns := w.returns table f.name f.returns } } :=
  SortedMap.get?_mapWithKey _ _ table

/-- **A catalog that declares integers as numbers** has a widened schema. -/
theorem widens : c.schema.Widens (c.widened w).schema w where
  tableExists := by
    funext table
    simp only [schema, table?_widened, Option.isSome_map]
  column? table name := by
    simp only [schema, table?_widened]
    cases c.table? table with
    | none => rfl
    | some t =>
      simp only [Option.map_some, Option.bind_eq_bind, Option.bind_some, Table.column?, List.find?_map,
        Function.comp_def]
      cases hx : t.columns.find? (fun x => x.name == name) with
      | none => rfl
      | some x =>
        obtain rfl : x.name = name := by simpa using List.find?_some hx
        rfl
  computedField? table name := by
    simp only [schema, table?_widened]
    cases c.table? table with
    | none => rfl
    | some t =>
      simp only [Option.map_some, Option.bind_eq_bind, Option.bind_some, Table.computedField?, List.find?_map,
        Function.comp_def]
      cases hf : t.computedFields.find? (fun f => f.name == name) with
      | none => rfl
      | some f =>
        obtain rfl : f.name = name := by simpa using List.find?_some hf
        rfl
  relationship? := by
    funext table name
    simp only [schema, table?_widened]
    cases c.table? table <;> rfl
  columns table := by
    simp only [schema, table?_widened]
    cases c.table? table with
    | none => rfl
    | some t => simp

end Catalog

end TableAccess
