import TableAccess.Json.Record
import TableAccess.Mutation

/-!
# Commands

A command document names a command and gives its arguments. The mark `pg_` in front of a name means
nothing.

* `Command.read`: what a document commands.
* `Command.run`: does it.
-/

namespace TableAccess

/-- A command. -/
inductive Command where
  | create (kind : Kind) (source table role : String) (clause : Clause) (comment : Option String)
  | drop (i : PermissionId)
  | setComment (i : PermissionId) (comment : Option String)
  | track (source table : String)
  | untrack (source table : String)

/-- A command document: the name of a command and its arguments. -/
structure CommandDocument where
  command : String
  args : Json

/-- A table as a command names it. -/
structure TableRef where
  /-- The namespace of the table, if one is given. -/
  qualifier : Option String
  base : String
deriving DecidableEq, Repr

namespace TableRef

/-- The name that a table is known by: in the namespace `public`, or in none, its own name. -/
def name (t : TableRef) : String :=
  match t.qualifier with
  | none => t.base
  | some q => if q == "public" then t.base else q ++ "." ++ t.base

/-- How a table in a namespace is read. -/
def record : Record TableRef :=
  mk <$> .nullable "schema" Reader.string <*> .required "name" Reader.string []

/-- Reads a table: its name, or an object with its namespace and its name. -/
def reader : Reader TableRef := .aside fun s d =>
  match d with
  | .str n => .ok ⟨none, n⟩
  | .obj entries cut => (record.lenient s (.obj entries cut)).mapError fun _ => .mismatch
  | _ => .error .mismatch

end TableRef

/-- The arguments of a command on a role's permission. -/
structure RoleArgs where
  source : String
  table : TableRef
  role : String

/-- The arguments of a command that creates a permission. -/
structure CreateArgs where
  target : RoleArgs
  permission : Json
  comment : Option String

/-- The arguments of a command that changes a comment. -/
structure CommentArgs where
  target : RoleArgs
  kind : Kind
  comment : Option String

/-- The arguments of a command on a table. -/
structure TableArgs where
  source : String
  table : TableRef

namespace CommandDocument

/-- How a command document is read. -/
def record : Record CommandDocument :=
  mk <$> .required "type" Reader.string [] <*> .withDefault "args" Reader.json .null

/-- Reads a command document. -/
def reader : Reader CommandDocument := record.strict

/-- The name of the command without its mark. -/
def name (d : CommandDocument) : String :=
  let cs := d.command.toList
  if "pg_".toList.isPrefixOf cs then String.ofList (cs.drop 3) else d.command

/-- Whether the document stands for a list of commands. -/
def isBulk (d : CommandDocument) : Bool := d.name == "bulk"

end CommandDocument

namespace RoleArgs

/-- How the arguments are read. -/
def record : Record RoleArgs :=
  mk <$> .withDefault "source" Reader.string defaultSource
    <*> .required "table" TableRef.reader [] <*> .required "role" Reader.string []

/-- The permission of a kind that the arguments name. -/
def id (a : RoleArgs) (k : Kind) : PermissionId := ⟨a.source, a.table.name, a.role, k⟩

end RoleArgs

namespace CreateArgs

/-- How the arguments are read. -/
def record : Record CreateArgs :=
  mk <$> RoleArgs.record <*> .required "permission" Reader.json []
    <*> .maybe "comment" Reader.string

end CreateArgs

namespace CommentArgs

/-- How the arguments are read. The kind may also be called `type`. -/
def record : Record CommentArgs :=
  mk <$> RoleArgs.record <*> .required "permission" Kind.reader ["type"]
    <*> .maybe "comment" Reader.string

end CommentArgs

namespace TableArgs

/-- How the arguments are read. -/
def record : Record TableArgs :=
  mk <$> .withDefault "source" Reader.string defaultSource <*> .required "table" TableRef.reader []

end TableArgs

namespace Command

/-- Reads arguments, whose place is `args`. -/
def readArgs {α : Type} (r : Record α) (args : Json) : Except Failure α :=
  within "args" (orUnreadable (r.strict.ofJson args))

/-- The kind of permission in a command's name behind `verb`. -/
def kindIn? (verb name : String) : Option Kind :=
  Kind.all.find? fun k => name == verb ++ k.name ++ "_permission"

/-- What a command called `name` does with its arguments. -/
def ofName (name : String) (args : Json) : Except Failure Command :=
  match kindIn? "create_" name with
  | some k => do
    let a ← readArgs CreateArgs.record args
    let clause ← within "permission" (orUnreadable ((Clause.bodyReader k).ofJson a.permission))
    return .create k a.target.source a.target.table.name a.target.role clause a.comment
  | none =>
    match kindIn? "drop_" name with
    | some k => do
      let a ← readArgs RoleArgs.record args
      return .drop (a.id k)
    | none =>
      if name == "set_permission_comment" then do
        let a ← readArgs CommentArgs.record args
        return .setComment (a.target.id a.kind) a.comment
      else if name == "track_table" then do
        let a ← readArgs TableArgs.record args
        return .track a.source a.table.name
      else if name == "untrack_table" then do
        let a ← readArgs TableArgs.record args
        return .untrack a.source a.table.name
      else fail (.command (.unknown name))

/-- **What a document commands.** A list of commands is not one of these. -/
def read (doc : Json) : Except Failure Command := do
  let d ← orUnreadable (CommandDocument.reader.ofJson doc)
  if d.isBulk then within "args" (fail (.command .notAList)) else ofName d.name d.args

/-- The reply to a command that succeeded. -/
def reply (inconsistent : List Inconsistency) : Json :=
  .obj (("message", .str "success") ::
    if inconsistent.isEmpty then []
    else [("inconsistent_objects", .arr (inconsistent.map Inconsistency.toJson))])

variable {γ : Type} [SchemaCache γ] [Engine]

/-- **Does what a command says**, and replies. -/
def run : Command → Operation γ Json
  | create _ source table role clause comment => do
    return reply (← Operation.create source table role clause comment).inconsistent.toList
  | drop i => do return reply (← Operation.drop i).inconsistent.toList
  | setComment i comment => do return reply (← Operation.setComment i comment).inconsistent.toList
  | track source table => do
    Operation.track source table
    return reply []
  | untrack source table => do
    let _ ← Operation.untrack source table
    return reply []

end Command

end TableAccess
