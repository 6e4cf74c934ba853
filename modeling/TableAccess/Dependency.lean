import TableAccess.Json.Choice
import TableAccess.Json.Record

/-!
# Dependencies

A compiled permission depends on things of the schema. A `Dependency` names one of them and the
reason, which tells what kind of change to it can matter.
-/

namespace TableAccess

/-- A thing of a table that a permission depends on. -/
inductive Target where
  | table
  | column (name : String)
  | computedField (name : String)
  | relationship (name : String)
deriving DecidableEq, Repr, Inhabited

/-- Why a permission depends on something. -/
inductive Reason where
  /-- The table must be there. -/
  | table
  /-- The thing is named, and its type does not matter. -/
  | untyped
  /-- The thing stands beside a literal, which its type must allow. -/
  | typeDerived
  /-- The thing stands beside a session variable. -/
  | sessionVariable
deriving DecidableEq, Repr, Inhabited

/-- What a permission depends on, and why. -/
structure Dependency where
  source : String
  table : String
  target : Target
  reason : Reason
deriving DecidableEq, Repr

namespace Reason

/-- All reasons, in their order. -/
def all : List Reason := [table, untyped, typeDerived, sessionVariable]

/-- A reason's name in documents. -/
def name : Reason → String
  | table => "table"
  | untyped => "untyped"
  | typeDerived => "type_derived"
  | sessionVariable => "session_variable"

/-- The place of a reason in the order of reasons. -/
def rank : Reason → Nat
  | table => 0
  | untyped => 1
  | typeDerived => 2
  | sessionVariable => 3

instance : Ord Reason := ⟨fun a b => compare a.rank b.rank⟩

/-- A reason as JSON. -/
def toJson (r : Reason) : Json := .str r.name

/-- Reads a reason's name. -/
def reader : Reader Reason := .word (all.map fun r => (r.name, r))

end Reason

namespace Target

/-- A target as JSON. -/
def toJson : Target → Json
  | table => .obj [("type", .str "table")]
  | column n => .obj [("type", .str "column"), ("name", .str n)]
  | computedField n => .obj [("type", .str "computed_field"), ("name", .str n)]
  | relationship n => .obj [("type", .str "relationship"), ("name", .str n)]

/-- The content of a target, by its tag: what stands for an absent one, and how one is read. -/
structure Content where
  absent : Except ReadError Target
  read : Reader Target

/-- A target that has a name. -/
def Content.named (make : String → Target) : Content :=
  ⟨.error (.missingField "name"), Reader.string.map make⟩

/-- The table itself, whose content can only be null. -/
def Content.table : Content where
  absent := .ok .table
  read
    | _, .null => .ok .table
    | _, d => Reader.refuse d

/-- The contents by their tags. -/
def contents : List (String × Content) :=
  [("table", Content.table), ("column", .named column), ("computed_field", .named computedField),
    ("relationship", .named relationship)]

/-- An entry of a target: its tag or its content. -/
inductive Part where
  | tag
  | content

/-- The first entry that is a tag or a content, and the entries behind it. Other entries are passed
over. -/
def nextPart (cut : Option Flaw) : List (String × Document) →
    Except ReadError (Option (Part × Document × List (String × Document)))
  | [] => if cut.isSome then .error .malformed else .ok none
  | (k, d) :: rest =>
    if k == "type" then .ok (some (.tag, d, rest))
    else if k == "name" then .ok (some (.content, d, rest))
    else do
      Reader.skip d
      nextPart cut rest

/-- Checks that neither part comes again. -/
def finish (cut : Option Flaw) (rest : List (String × Document)) (t : Target) :
    Except ReadError Target := do
  match ← nextPart cut rest with
  | none => return t
  | some (.tag, _) => .error (.duplicateField "type")
  | some (.content, _) => .error (.duplicateField "name")

/-- Reads a target: a content in front of the tag is set aside until the tag has been read. In an
array, where the tag comes first, it is a string; in an object it is read as a choice. -/
def reader : Reader Target
  | s, .obj entries cut => do
    match ← nextPart cut entries with
    | none => .error (.missingField "type")
    | some (.tag, d, rest) =>
      let c ← Reader.word contents s d
      match ← nextPart cut rest with
      | none => c.absent
      | some (.tag, _) => .error (.duplicateField "type")
      | some (.content, d, rest) => finish cut rest (← c.read s d)
    | some (.content, d, rest) =>
      -- Without the tag there is no telling how to read it.
      Reader.setAside d
      match ← nextPart cut rest with
      | none => .error (.missingField "type")
      | some (.content, _) => .error (.duplicateField "name")
      | some (.tag, d', rest) =>
        let c ← Reader.word contents s d'
        finish cut rest (← c.read .buffer d)
  | s, .arr (t :: rest) => do
    let c ← Reader.tag contents s t
    match rest with
    | [] => .error .mismatch
    | d :: rest =>
      let target ← c.read s d
      if rest.isEmpty then return target else .error .malformed
  | _, d => Reader.refuse d

end Target

namespace Dependency

/-- A dependency as JSON. -/
def toJson (d : Dependency) : Json :=
  .obj [("source", .str d.source), ("table", .str d.table), ("target", d.target.toJson),
    ("reason", d.reason.toJson)]

/-- How a dependency is read. -/
def record : Record Dependency :=
  mk <$> .required "source" Reader.string [] <*> .required "table" Reader.string []
    <*> .required "target" Target.reader [] <*> .required "reason" Reason.reader []

/-- Reads a dependency. -/
def reader : Reader Dependency := record.lenient

end Dependency

end TableAccess
