import TableAccess.Json.Choice

/-!
# Column types
-/

namespace TableAccess

/-- The type of a column, or of a value computed from a row. -/
inductive ColumnType where
  | integer
  | numeric
  | text
  | boolean
  | uuid
  | timestamp
  | json
deriving DecidableEq, Repr, Inhabited

namespace ColumnType

/-- All column types. -/
def all : List ColumnType := [integer, numeric, text, boolean, uuid, timestamp, json]

/-- A type's name in documents. -/
def name : ColumnType → String
  | integer => "integer"
  | numeric => "numeric"
  | text => "text"
  | boolean => "boolean"
  | uuid => "uuid"
  | timestamp => "timestamp"
  | json => "json"

/-- A type's name in messages. -/
def title : ColumnType → String
  | integer => "Integer"
  | numeric => "Numeric"
  | text => "Text"
  | boolean => "Boolean"
  | uuid => "Uuid"
  | timestamp => "Timestamp"
  | json => "Json"

/-- A type as JSON. -/
def toJson (t : ColumnType) : Json := .str t.name

/-- Reads a type's name. -/
def reader : Reader ColumnType := .word (all.map fun t => (t.name, t))

end ColumnType

end TableAccess
