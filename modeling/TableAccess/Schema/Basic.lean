import TableAccess.Schema.ColumnType

/-!
# Schemas

A `Schema` answers what a source's tables hold; it is all that a permission is checked against. A
name in a predicate is resolved by `Schema.member?`: a column comes before a relationship, and
both come before a computed field.
-/

namespace TableAccess

/-- What a computed field returns. -/
inductive Returns where
  | scalar (type : ColumnType)
  /-- Rows of a table, so the field acts as a relationship to many. -/
  | rows (table : String)
deriving DecidableEq, Repr, Inhabited

/-- How many rows a relationship leads to. -/
inductive Cardinality where
  | one
  | many
deriving DecidableEq, Repr, Inhabited

/-- A relationship to the rows of a remote table. -/
structure Relationship where
  remoteTable : String
  cardinality : Cardinality
deriving DecidableEq, Repr, Inhabited

/-- The tables of one source, by what can be asked of them. -/
structure Schema where
  tableExists : (table : String) → Bool
  column? : (table name : String) → Option ColumnType
  computedField? : (table name : String) → Option Returns
  relationship? : (table name : String) → Option Relationship
  /-- All columns of a table, in the order of declaration. -/
  columns : (table : String) → List (String × ColumnType)

/-- What a name stands for in a table. -/
inductive Member where
  | column (type : ColumnType)
  | relationship (r : Relationship)
  | computedField (returns : Returns)
deriving DecidableEq, Repr

namespace Schema

/-- What `name` stands for in `table`. -/
def member? (σ : Schema) (table name : String) : Option Member :=
  match σ.column? table name with
  | some t => some (.column t)
  | none =>
    match σ.relationship? table name with
    | some r => some (.relationship r)
    | none => (σ.computedField? table name).map .computedField

end Schema

end TableAccess
