import TableAccess.Json.Choice
import TableAccess.Json.Record
import TableAccess.Permission.Kind

/-!
# Clauses

A clause is what a permission says, as it was written: the predicates are documents and the names
have not been looked up. Each kind of permission has a clause of its own form.
-/

namespace TableAccess

/-- Every column of a table, or the columns in a list. -/
inductive ColumnSpec where
  | all
  | listed (names : List String)
deriving DecidableEq, Repr, Inhabited

/-- Values that the server gives to columns, by column. -/
abbrev Presets := SortedMap String Json

/-- A field of the query root that a select permission may open. -/
inductive RootField where
  | select
  | selectByPk
  | selectAggregate
deriving DecidableEq, Repr, Inhabited

/-- What may be inserted. -/
structure InsertClause where
  check : Json
  set : Option Presets
  columns : Option ColumnSpec
  backendOnly : Option Bool
deriving DecidableEq

/-- What may be selected. -/
structure SelectClause where
  columns : ColumnSpec
  filter : Json
  limit : Option Int
  allowAggregations : Bool
  computedFields : List String
  queryRootFields : Option (List RootField)
  subscriptionRootFields : Option (List RootField)
deriving DecidableEq

/-- What may be updated. -/
structure UpdateClause where
  columns : ColumnSpec
  set : Option Presets
  filter : Json
  check : Option Json
deriving DecidableEq

/-- What may be deleted. -/
structure DeleteClause where
  filter : Json
deriving DecidableEq

/-- What a permission says, by its kind. -/
inductive Clause where
  | insert (c : InsertClause)
  | select (c : SelectClause)
  | update (c : UpdateClause)
  | delete (c : DeleteClause)
deriving DecidableEq

namespace ColumnSpec

/-- A column list as JSON. -/
def toJson : ColumnSpec → Json
  | all => .str "*"
  | listed names => .strings names

/-- Reads a column list: an asterisk, or an array of names. -/
def reader : Reader ColumnSpec
  | _, .str s =>
    if s == "*" then .ok all else .error (.notColumns ("value: string " ++ Text.quoted s))
  | s, .arr items => (items.mapM (Reader.string s)).map listed
  | _, .null => .error (.notColumns "type: null")
  | _, .bool b => .error (.notColumns ("type: boolean \x60" ++ (if b then "true" else "false") ++ "\x60"))
  | _, .num (.int n) => .error (.notColumns ("type: integer \x60" ++ (Number.int n).text ++ "\x60"))
  | _, .num (.float x) =>
    .error (.notColumns ("type: floating point \x60" ++ (Number.float x).text ++ "\x60"))
  | _, .obj _ _ => .error (.notColumns "type: map")
  | _, .flaw _ => .error .malformed

end ColumnSpec

namespace Presets

/-- Presets as JSON. -/
def toJson (p : Presets) : Json := .obj p.toList

/-- Reads presets. -/
def reader : Reader Presets := Reader.object

end Presets

namespace RootField

/-- All root fields. -/
def all : List RootField := [select, selectByPk, selectAggregate]

/-- A root field's name in documents. -/
def name : RootField → String
  | select => "select"
  | selectByPk => "select_by_pk"
  | selectAggregate => "select_aggregate"

/-- A root field as JSON. -/
def toJson (f : RootField) : Json := .str f.name

/-- Reads a root field's name. -/
def reader : Reader RootField := .word (all.map fun f => (f.name, f))

/-- A list of root fields as JSON. -/
def listToJson (l : List RootField) : Json := .arr (l.map toJson)

end RootField

namespace InsertClause

/-- The clause as JSON; what is absent is left out. -/
def toJson (c : InsertClause) : Json :=
  .obj ([("check", c.check)] ++ Json.entry? "set" Presets.toJson c.set ++
    Json.entry? "columns" ColumnSpec.toJson c.columns ++
    Json.entry? "backend_only" Json.bool c.backendOnly)

/-- How the clause is read. Without a check every row passes. -/
def record : Record InsertClause :=
  mk <$> .withDefault "check" Reader.json .emptyObject
    <*> .maybe "set" Presets.reader
    <*> .maybe "columns" ColumnSpec.reader
    <*> .maybe "backend_only" Reader.bool

/-- Reads the clause. -/
def reader : Reader InsertClause := record.strict

end InsertClause

namespace SelectClause

/-- The clause as JSON; what is absent is left out, and an empty list of computed fields too. -/
def toJson (c : SelectClause) : Json :=
  .obj ([("columns", c.columns.toJson), ("filter", c.filter)] ++
    Json.entry? "limit" Json.int c.limit ++
    [("allow_aggregations", Json.bool c.allowAggregations)] ++
    (if c.computedFields.isEmpty then [] else [("computed_fields", Json.strings c.computedFields)]) ++
    Json.entry? "query_root_fields" RootField.listToJson c.queryRootFields ++
    Json.entry? "subscription_root_fields" RootField.listToJson c.subscriptionRootFields)

/-- How the clause is read. Without a filter every row passes. -/
def record : Record SelectClause :=
  mk <$> .required "columns" ColumnSpec.reader []
    <*> .withDefault "filter" Reader.json .emptyObject
    <*> .maybe "limit" Reader.int
    <*> .withDefault "allow_aggregations" Reader.bool false
    <*> .withDefault "computed_fields" (.list Reader.string) []
    <*> .maybe "query_root_fields" (.list RootField.reader)
    <*> .maybe "subscription_root_fields" (.list RootField.reader)

/-- Reads the clause. -/
def reader : Reader SelectClause := record.strict

end SelectClause

namespace UpdateClause

/-- The clause as JSON; what is absent is left out. -/
def toJson (c : UpdateClause) : Json :=
  .obj ([("columns", c.columns.toJson)] ++ Json.entry? "set" Presets.toJson c.set ++
    [("filter", c.filter)] ++ Json.entry? "check" id c.check)

/-- How the clause is read. Without a filter every row passes; a check that is null is none. -/
def record : Record UpdateClause :=
  mk <$> .required "columns" ColumnSpec.reader []
    <*> .maybe "set" Presets.reader
    <*> .withDefault "filter" Reader.json .emptyObject
    <*> .maybe "check" Reader.json

/-- Reads the clause. -/
def reader : Reader UpdateClause := record.strict

end UpdateClause

namespace DeleteClause

/-- The clause as JSON. -/
def toJson (c : DeleteClause) : Json := .obj [("filter", c.filter)]

/-- How the clause is read. Without a filter every row passes. -/
def record : Record DeleteClause := mk <$> .withDefault "filter" Reader.json .emptyObject

/-- Reads the clause. -/
def reader : Reader DeleteClause := record.strict

end DeleteClause

namespace Clause

/-- The kind of permission a clause is for. -/
def kind : Clause → Kind
  | insert _ => .insert
  | select _ => .select
  | update _ => .update
  | delete _ => .delete

/-- What the clause says as JSON, without its kind. -/
def bodyToJson : Clause → Json
  | insert c => c.toJson
  | select c => c.toJson
  | update c => c.toJson
  | delete c => c.toJson

/-- A clause as JSON, under its kind. -/
def toJson (c : Clause) : Json := .obj [(c.kind.name, c.bodyToJson)]

/-- Reads a clause of a known kind. -/
def bodyReader : Kind → Reader Clause
  | .insert => InsertClause.reader.map insert
  | .select => SelectClause.reader.map select
  | .update => UpdateClause.reader.map update
  | .delete => DeleteClause.reader.map delete

/-- Reads a clause under its kind. -/
def reader : Reader Clause :=
  .choice (Kind.all.map fun k => .holding k.name (bodyReader k) id)

end Clause

end TableAccess
