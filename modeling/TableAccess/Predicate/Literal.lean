import TableAccess.Json.Basic
import TableAccess.Schema.ColumnType
import TableAccess.Text.Numeral

/-!
# Literals

Which JSON values can stand for a value of a column, by the column's type.
-/

namespace TableAccess.ColumnType

/-- Whether a literal can stand for a value of type `t`. Null fits every type and a column of JSON
takes any value; integers and numbers may also be written as strings. -/
def fits (t : ColumnType) (v : Json) : Bool :=
  match t, v with
  | _, .null => true
  | .json, _ => true
  | .integer, .num (.int _) => true
  | .integer, .str s => Text.isInteger s
  | .numeric, .num _ => true
  | .numeric, .str s => Text.isFiniteNumber s
  | .boolean, .bool _ => true
  | .text, .str _ => true
  | .uuid, .str _ => true
  | .timestamp, .str _ => true
  | _, _ => false

end TableAccess.ColumnType
