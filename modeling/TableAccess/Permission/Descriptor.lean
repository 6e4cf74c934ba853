import TableAccess.Permission.Clause
import TableAccess.Predicate.Basic

/-!
# Descriptors

A descriptor is a compiled clause: what has to be known to enforce a permission, with every name
looked up.
-/

namespace TableAccess

/-- A value that the server gives to a column of a known type. -/
inductive Preset where
  | literal (value : Json) (type : ColumnType)
  | session (v : SessionVariable) (type : ColumnType)
deriving DecidableEq

/-- What may be inserted: values of `columns`, in rows that pass `check`. -/
structure InsertDescriptor where
  columns : SortedSet String
  check : Expr
  set : SortedMap String Preset
  backendOnly : Bool
  requiredHeaders : RequiredHeaders

/-- What may be selected: `columns` and computed fields of rows that pass `filter`. -/
structure SelectDescriptor where
  columns : SortedSet String
  /-- The computed fields with their types. -/
  computedFields : SortedMap String ColumnType
  filter : Expr
  limit : Option Nat
  allowAggregations : Bool
  queryRootFields : Option (List RootField)
  subscriptionRootFields : Option (List RootField)
  requiredHeaders : RequiredHeaders

/-- What may be updated: `columns` of rows that pass `filter`, so that they pass `check` then. -/
structure UpdateDescriptor where
  columns : SortedSet String
  filter : Expr
  check : Expr
  set : SortedMap String Preset
  requiredHeaders : RequiredHeaders

/-- What may be deleted: rows that pass `filter`. -/
structure DeleteDescriptor where
  filter : Expr
  requiredHeaders : RequiredHeaders

/-- A compiled clause, by its kind. -/
inductive Descriptor where
  | insert (d : InsertDescriptor)
  | select (d : SelectDescriptor)
  | update (d : UpdateDescriptor)
  | delete (d : DeleteDescriptor)

namespace Preset

/-- A preset as JSON. -/
def toJson : Preset → Json
  | literal value type =>
    .obj [("type", .str "literal"), ("value", value), ("column_type", type.toJson)]
  | session v type =>
    .obj [("type", .str "session_variable"), ("name", v.toJson), ("column_type", type.toJson)]

/-- Presets by column as JSON. -/
def mapToJson (m : SortedMap String Preset) : Json := .obj (m.toList.map fun p => (p.1, p.2.toJson))

end Preset

namespace Descriptor

/-- The kind of permission. -/
def kind : Descriptor → Kind
  | insert _ => .insert
  | select _ => .select
  | update _ => .update
  | delete _ => .delete

/-- The session variables that a request must carry. -/
def requiredHeaders : Descriptor → RequiredHeaders
  | insert d => d.requiredHeaders
  | select d => d.requiredHeaders
  | update d => d.requiredHeaders
  | delete d => d.requiredHeaders

/-- The columns, which a delete permission does not have. -/
def columns? : Descriptor → Option (SortedSet String)
  | insert d => some d.columns
  | select d => some d.columns
  | update d => some d.columns
  | delete _ => none

/-- What may be inserted, if this is an insert permission. -/
def asInsert? : Descriptor → Option InsertDescriptor
  | insert d => some d
  | _ => none

/-- What may be selected, if this is a select permission. -/
def asSelect? : Descriptor → Option SelectDescriptor
  | select d => some d
  | _ => none

/-- What may be updated, if this is an update permission. -/
def asUpdate? : Descriptor → Option UpdateDescriptor
  | update d => some d
  | _ => none

/-- What may be deleted, if this is a delete permission. -/
def asDelete? : Descriptor → Option DeleteDescriptor
  | delete d => some d
  | _ => none

/-- What a descriptor says as JSON, without its kind. -/
def bodyToJson : Descriptor → Json
  | insert d =>
    .obj [("columns", .strings d.columns.toList), ("check", d.check.toJson),
      ("set", Preset.mapToJson d.set), ("backend_only", .bool d.backendOnly),
      ("required_headers", d.requiredHeaders.toJson)]
  | select d =>
    .obj [("columns", .strings d.columns.toList),
      ("computed_fields", .obj (d.computedFields.toList.map fun p => (p.1, p.2.toJson))),
      ("filter", d.filter.toJson), ("limit", Json.orNull Json.nat d.limit),
      ("allow_aggregations", .bool d.allowAggregations),
      ("query_root_fields", Json.orNull RootField.listToJson d.queryRootFields),
      ("subscription_root_fields", Json.orNull RootField.listToJson d.subscriptionRootFields),
      ("required_headers", d.requiredHeaders.toJson)]
  | update d =>
    .obj [("columns", .strings d.columns.toList), ("filter", d.filter.toJson),
      ("check", d.check.toJson), ("set", Preset.mapToJson d.set),
      ("required_headers", d.requiredHeaders.toJson)]
  | delete d =>
    .obj [("filter", d.filter.toJson), ("required_headers", d.requiredHeaders.toJson)]

/-- A descriptor as JSON, under its kind. -/
def toJson (d : Descriptor) : Json := .obj [(d.kind.name, d.bodyToJson)]

end Descriptor

end TableAccess
