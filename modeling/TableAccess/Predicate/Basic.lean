import TableAccess.Schema.ColumnType
import TableAccess.Session.Variable

/-!
# Predicates

An `Expr` is a compiled predicate on the rows of a table: a boolean combination of comparisons of
columns and computed fields, and of predicates on related rows.
-/

namespace TableAccess

/-- How a field is compared. -/
inductive Operator where
  | eq
  | neq
  | gt
  | lt
  | gte
  | lte
  | oneOf
  | noneOf
  | like
  | ilike
  | isNull
  /-- From here on with another column of the same table. -/
  | columnEq
  | columnNeq
  | columnGt
  | columnLt
  | columnGte
  | columnLte
deriving DecidableEq, Repr, Inhabited

namespace Operator

/-- All operators. -/
def all : List Operator :=
  [eq, neq, gt, lt, gte, lte, oneOf, noneOf, like, ilike, isNull, columnEq, columnNeq, columnGt,
    columnLt, columnGte, columnLte]

/-- An operator's name. -/
def name : Operator → String
  | eq => "eq"
  | neq => "neq"
  | gt => "gt"
  | lt => "lt"
  | gte => "gte"
  | lte => "lte"
  | oneOf => "in"
  | noneOf => "nin"
  | like => "like"
  | ilike => "ilike"
  | isNull => "is_null"
  | columnEq => "ceq"
  | columnNeq => "cneq"
  | columnGt => "cgt"
  | columnLt => "clt"
  | columnGte => "cgte"
  | columnLte => "clte"

/-- The key that an operator has in a predicate document. -/
def key (o : Operator) : String := "_" ++ o.name

/-- The operator whose key is `key`. -/
def ofKey? (key : String) : Option Operator := all.find? fun o => o.key == key

/-- Whether the operator compares with another column. -/
def comparesColumns : Operator → Bool
  | columnEq | columnNeq | columnGt | columnLt | columnGte | columnLte => true
  | _ => false

/-- Whether the operator matches a pattern. -/
def isPattern : Operator → Bool
  | like | ilike => true
  | _ => false

end Operator

/-- A single value to compare with. -/
inductive Scalar where
  | literal (v : Json)
  | session (v : SessionVariable)
deriving DecidableEq

/-- What a field is compared with. -/
inductive Operand where
  | scalar (s : Scalar)
  | column (name : String)
  | list (items : List Scalar)
deriving DecidableEq

/-- A comparison of a field. -/
structure Comparison where
  op : Operator
  operand : Operand
deriving DecidableEq

/-- A compiled predicate. -/
inductive Expr where
  | and (parts : List Expr)
  | or (parts : List Expr)
  | not (part : Expr)
  | column (name : String) (type : ColumnType) (comparisons : List Comparison)
  | computedField (name : String) (type : ColumnType) (comparisons : List Comparison)
  | relationship (name remoteTable : String) (part : Expr)
deriving Inhabited

namespace Scalar

/-- A value to compare with, as JSON. -/
def toJson : Scalar → Json
  | literal v => .obj [("literal", v)]
  | session v => .obj [("session_variable", v.toJson)]

end Scalar

namespace Operand

/-- What a field is compared with, as JSON. -/
def toJson : Operand → Json
  | scalar s => s.toJson
  | column n => .obj [("column", .str n)]
  | list items => .obj [("list", .arr (items.map Scalar.toJson))]

/-- The single values in an operand. -/
def scalars : Operand → List Scalar
  | scalar s => [s]
  | column _ => []
  | list items => items

end Operand

namespace Comparison

/-- A comparison as JSON. -/
def toJson (c : Comparison) : Json :=
  .obj [("op", .str c.op.name), ("value", c.operand.toJson)]

end Comparison

namespace Expr

/-- The predicate that every row passes. -/
def always : Expr := .and []

/-- Whether the predicate is the one without any condition. -/
def isAlways : Expr → Bool
  | .and [] => true
  | _ => false

/-- The conjunction of the parts of an object: a single part stands for itself. -/
def conjunction : List Expr → Expr
  | [e] => e
  | parts => .and parts

mutual

/-- A predicate as JSON. -/
def toJson : Expr → Json
  | .and parts => .obj [("and", .arr (partsToJson parts))]
  | .or parts => .obj [("or", .arr (partsToJson parts))]
  | .not part => .obj [("not", toJson part)]
  | .column name type comparisons =>
    .obj [("column", .obj [("column", .str name), ("column_type", type.toJson),
      ("comparisons", .arr (comparisons.map Comparison.toJson))])]
  | .computedField name type comparisons =>
    .obj [("computed_field", .obj [("name", .str name), ("scalar", type.toJson),
      ("comparisons", .arr (comparisons.map Comparison.toJson))])]
  | .relationship name remoteTable part =>
    .obj [("relationship", .obj [("name", .str name), ("remote_table", .str remoteTable),
      ("exp", toJson part)])]

/-- Predicates as JSON. -/
def partsToJson : List Expr → List Json
  | [] => []
  | e :: rest => toJson e :: partsToJson rest

end

end Expr

end TableAccess
