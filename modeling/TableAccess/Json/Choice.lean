import TableAccess.Json.Reader

/-!
# Reading one of several forms

A choice has a name for each of its forms. A form without a payload is read from its name; one
with a payload from an object with one entry, whose key is the name.
-/

namespace TableAccess

/-- A form of a choice: its name, and how its payload is read, if there is one. -/
structure Form (α : Type) where
  name : String
  read : Supply → Option Document → Except ReadError α

namespace Form

variable {α β : Type}

/-- A form without a payload; null may stand in its place. -/
def plain (name : String) (a : α) : Form α where
  name := name
  read s
    | none => .ok a
    | some d => (Reader.null s d).map fun _ => a

/-- A form that makes `f b` of its payload `b`. -/
def holding (name : String) (r : Reader β) (f : β → α) : Form α where
  name := name
  read s
    | none => .error .mismatch
    | some d => (r s d).map f

/-- The form called `name`. -/
def named (forms : List (Form α)) (name : String) : Except ReadError (Form α) :=
  match forms.find? fun f => f.name == name with
  | some f => .ok f
  | none => .error (.unknownVariant name (forms.map (·.name)))

end Form

namespace Reader

variable {α : Type}

/-- Reads one of several forms. A text is entered before it is known how many entries the object
has; elsewhere that it has one comes first. -/
def choice (forms : List (Form α)) : Reader α
  | s, .str name => do (← Form.named forms name).read s none
  -- Where a name has to stand, a closing brace is no JSON any more.
  | .stream, .obj [] _ => .error .malformed
  | .stream, .obj ((name, d) :: rest) cut => do
    let a ← (← Form.named forms name).read .stream (some d)
    if rest.isEmpty && cut.isNone then return a else .error .malformed
  | s, .obj [(name, d)] none => do (← Form.named forms name).read s (some d)
  | _, d => refuse d

/-- Reads the name of one of several values. -/
def word (values : List (String × α)) : Reader α :=
  choice (values.map fun v => Form.plain v.1 v.2)

/-- Reads the tag of a form, which stands apart from its payload. -/
def tag (values : List (String × α)) : Reader α
  | _, .str name => do
    (← Form.named (values.map fun v => Form.plain v.1 v.2) name).read .value none
  | _, d => refuse d

end Reader

end TableAccess
