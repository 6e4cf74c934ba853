import TableAccess.Json.Record
import TableAccess.Schema.Basic

/-!
# Catalogs

A `Catalog` lists the tables of a source. It is read from a document and written as one, its tables
sorted by name, and `Catalog.schema` answers for it: of equally named columns, relationships or
computed fields of a table the first counts.
-/

namespace TableAccess

/-- A column of a table. -/
structure Column where
  name : String
  type : ColumnType
deriving DecidableEq, Repr

/-- A named relationship. -/
structure NamedRelationship where
  name : String
  target : Relationship
deriving DecidableEq, Repr

/-- A named computed field. -/
structure ComputedField where
  name : String
  returns : Returns
deriving DecidableEq, Repr

/-- A table. -/
structure Table where
  name : String
  columns : List Column
  relationships : List NamedRelationship
  computedFields : List ComputedField
deriving DecidableEq, Repr

/-- The tables of a source by name. -/
structure Catalog where
  tables : SortedMap String Table
deriving DecidableEq

namespace Cardinality

/-- A cardinality's name in documents. -/
def name : Cardinality → String
  | one => "object"
  | many => "array"

/-- Reads a cardinality's name. -/
def reader : Reader Cardinality := .word [("object", one), ("array", many)]

end Cardinality

namespace Relationship

/-- The entries of a relationship. -/
def entries (r : Relationship) : List (String × Json) :=
  [("remote_table", .str r.remoteTable), ("kind", .str r.cardinality.name)]

/-- A relationship as JSON. -/
def toJson (r : Relationship) : Json := .obj r.entries

/-- How a relationship is read. -/
def record : Record Relationship :=
  mk <$> .required "remote_table" Reader.string [] <*> .required "kind" Cardinality.reader []

/-- Reads a relationship. -/
def reader : Reader Relationship := record.lenient

end Relationship

namespace NamedRelationship

/-- A named relationship as JSON: the name stands with the relationship's own entries. -/
def toJson (r : NamedRelationship) : Json := .obj (("name", .str r.name) :: r.target.entries)

/-- Takes the name out of entries and sets the others aside, in their order. -/
def splitName (s : Supply) (name : Option String) (others : List (String × Document)) :
    List (String × Document) → Except ReadError (Option String × List (String × Document))
  | [] => .ok (name, others.reverse)
  | (k, d) :: rest =>
    if k == "name" then
      if name.isSome then .error (.duplicateField "name")
      else do
        let n ← Reader.string s d
        splitName s (some n) others rest
    else do
      Reader.setAside d
      splitName s name ((k, d) :: others) rest

/-- Reads a named relationship: the name first, then the relationship from the other entries. -/
def reader : Reader NamedRelationship
  | s, .obj entries cut => do
    let (name?, others) ← splitName s none [] entries
    if cut.isSome then .error .malformed
    match name? with
    | none => .error (.missingField "name")
    | some name => return ⟨name, ← Relationship.reader .buffer (.obj others none)⟩
  | _, d => Reader.refuse d

end NamedRelationship

namespace Returns

/-- What a computed field returns, as JSON. -/
def toJson : Returns → Json
  | scalar t => .obj [("type", .str "scalar"), ("scalar", t.toJson)]
  | rows table => .obj [("type", .str "set_of_rows"), ("table", .str table)]

/-- The entries behind the tag `scalar`. -/
def scalarRecord : Record Returns := scalar <$> .required "scalar" ColumnType.reader []

/-- The entries behind the tag `set_of_rows`. -/
def rowsRecord : Record Returns := rows <$> .required "table" Reader.string []

/-- Reads the tag, and gives how the rest is read. -/
def tagReader : Reader (Record Returns) :=
  .tag [("scalar", scalarRecord), ("set_of_rows", rowsRecord)]

/-- Takes the tag out of entries and sets the others aside, in their order. -/
def splitTag (s : Supply) (tag : Option (Record Returns)) (others : List (String × Document)) :
    List (String × Document) →
      Except ReadError (Option (Record Returns) × List (String × Document))
  | [] => .ok (tag, others.reverse)
  | (k, d) :: rest =>
    if k == "type" then
      if tag.isSome then .error (.duplicateField "type")
      else do
        let t ← tagReader s d
        splitTag s (some t) others rest
    else do
      Reader.setAside d
      splitTag s tag ((k, d) :: others) rest

/-- Reads what a computed field returns: the tag where it stands, then the rest. -/
def reader : Reader Returns
  | s, .obj entries cut => do
    let (tag?, others) ← splitTag s none [] entries
    if cut.isSome then .error .malformed
    match tag? with
    | none => .error (.missingField "type")
    | some r => r.lenient .buffer (.obj others none)
  | _, .arr [] => .error (.missingField "type")
  | s, .arr (d :: rest) => do
    let r ← tagReader s d
    Reader.setAside (.arr rest)
    r.lenient .buffer (.arr rest)
  | _, d => Reader.refuse d

end Returns

namespace Column

/-- A column as JSON. -/
def toJson (c : Column) : Json := .obj [("name", .str c.name), ("type", c.type.toJson)]

/-- How a column is read. -/
def record : Record Column :=
  mk <$> .required "name" Reader.string [] <*> .required "type" ColumnType.reader []

/-- Reads a column. -/
def reader : Reader Column := record.lenient

end Column

namespace ComputedField

/-- A computed field as JSON. -/
def toJson (f : ComputedField) : Json := .obj [("name", .str f.name), ("returns", f.returns.toJson)]

/-- How a computed field is read. -/
def record : Record ComputedField :=
  mk <$> .required "name" Reader.string [] <*> .required "returns" Returns.reader []

/-- Reads a computed field. -/
def reader : Reader ComputedField := record.lenient

end ComputedField

namespace Table

/-- A table as JSON. -/
def toJson (t : Table) : Json :=
  .obj [("name", .str t.name), ("columns", .arr (t.columns.map Column.toJson)),
    ("relationships", .arr (t.relationships.map NamedRelationship.toJson)),
    ("computed_fields", .arr (t.computedFields.map ComputedField.toJson))]

/-- How a table is read. -/
def record : Record Table :=
  mk <$> .required "name" Reader.string []
    <*> .withDefault "columns" (.list Column.reader) []
    <*> .withDefault "relationships" (.list NamedRelationship.reader) []
    <*> .withDefault "computed_fields" (.list ComputedField.reader) []

/-- Reads a table. -/
def reader : Reader Table := record.lenient

/-- The first column called `name`. -/
def column? (t : Table) (name : String) : Option Column := t.columns.find? fun c => c.name == name

/-- The first relationship called `name`. -/
def relationship? (t : Table) (name : String) : Option NamedRelationship :=
  t.relationships.find? fun r => r.name == name

/-- The first computed field called `name`. -/
def computedField? (t : Table) (name : String) : Option ComputedField :=
  t.computedFields.find? fun f => f.name == name

/-- The table without its columns called `name`. -/
def dropColumn (t : Table) (name : String) : Table :=
  { t with columns := t.columns.filter fun c => c.name != name }

end Table

namespace Catalog

/-- The catalog without tables. -/
def empty : Catalog := ⟨.empty⟩

instance : Inhabited Catalog := ⟨empty⟩

/-- The table called `name`. -/
def table? (c : Catalog) (name : String) : Option Table := c.tables.get? name

/-- Adds a table, in the stead of one of the same name. -/
def add (c : Catalog) (t : Table) : Catalog := ⟨c.tables.insert t.name t⟩

/-- Takes the table called `name` out. -/
def remove (c : Catalog) (name : String) : Catalog := ⟨c.tables.erase name⟩

/-- The catalog of the tables in `l`, the last of each name. -/
def ofTables (l : List Table) : Catalog := l.foldl add empty

/-- A catalog as JSON, its tables sorted by name. -/
def toJson (c : Catalog) : Json := .obj [("tables", .arr (c.tables.values.map Table.toJson))]

/-- How a catalog is read. -/
def record : Record Catalog := ofTables <$> .withDefault "tables" (.list Table.reader) []

/-- Reads a catalog. -/
def reader : Reader Catalog := record.lenient

/-- What the catalog's tables hold. -/
def schema (c : Catalog) : Schema where
  tableExists table := (c.table? table).isSome
  column? table name := do return (← (← c.table? table).column? name).type
  computedField? table name := do return (← (← c.table? table).computedField? name).returns
  relationship? table name := do return (← (← c.table? table).relationship? name).target
  columns table :=
    match c.table? table with
    | none => []
    | some t => t.columns.map fun c => (c.name, c.type)

end Catalog

end TableAccess
