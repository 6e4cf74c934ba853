import TableAccess.Permission.Clause

/-!
# Definitions of permissions

A definition gives a role a clause, with an optional comment. A stored definition also has its
number in the order of insertion.
-/

namespace TableAccess

/-- A clause for a role. -/
structure Definition where
  role : String
  comment : Option String
  clause : Clause
deriving DecidableEq

/-- A definition with its insertion number. -/
structure StoredDefinition where
  seq : Nat
  definition : Definition
deriving DecidableEq

namespace Definition

/-- The kind of permission. -/
def kind (d : Definition) : Kind := d.clause.kind

/-- A definition as JSON; without a comment the entry is left out. -/
def toJson (d : Definition) : Json :=
  .obj ([("role", .str d.role)] ++ Json.entry? "comment" Json.str d.comment ++
    [("permission", d.clause.toJson)])

/-- How a definition is read. -/
def record : Record Definition :=
  mk <$> .required "role" Reader.string [] <*> .maybe "comment" Reader.string
    <*> .required "permission" Clause.reader []

/-- Reads a definition. -/
def reader : Reader Definition := record.lenient

end Definition

namespace StoredDefinition

/-- A stored definition as JSON. -/
def toJson (d : StoredDefinition) : Json :=
  .obj [("seq", .nat d.seq), ("definition", d.definition.toJson)]

/-- How a stored definition is read. -/
def record : Record StoredDefinition :=
  mk <$> .required "seq" Reader.nat [] <*> .required "definition" Definition.reader []

/-- Reads a stored definition. -/
def reader : Reader StoredDefinition := record.lenient

end StoredDefinition

end TableAccess
