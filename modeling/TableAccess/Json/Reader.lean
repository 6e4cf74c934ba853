import TableAccess.Json.Parser
import TableAccess.Json.Printer
import TableAccess.Text.Quoted

/-!
# Reading documents as values

A `Reader α` makes a value of type `α` of a document, or says why it cannot. The first problem in
the order of the document is the one that is reported. Only problems that speak of the names of a
format have a text (`ReadError.message?`).

* `Reader.readJson`: the value a document stands for, in canonical form.
* `Reader.text`: reads a whole text; what follows the value is looked at last.
-/

namespace TableAccess

/-- Why a document could not be read. -/
inductive ReadError where
  | missingField (name : String)
  | duplicateField (name : String)
  | unknownField (name : String) (expected : List String)
  | unknownVariant (name : String) (expected : List String)
  /-- A column list was expected; `found` says what stands there. -/
  | notColumns (found : String)
  /-- A value of another shape was expected. -/
  | mismatch
  /-- The text is not JSON here, or cannot be taken. -/
  | malformed
deriving DecidableEq, Repr

namespace ReadError

/-- A name between two marks. -/
def marked (name : String) : String := "\x60" ++ name ++ "\x60"

/-- What was expected, of a list of names. -/
def expecting : List String → String
  | [] => "there are no names"
  | [a] => "expected " ++ marked a
  | [a, b] => "expected " ++ marked a ++ " or " ++ marked b
  | names => "expected one of " ++ String.intercalate ", " (names.map marked)

/-- The text of an error that speaks of the names of a format. -/
def message? : ReadError → Option String
  | missingField name => some ("missing field " ++ marked name)
  | duplicateField name => some ("duplicate field " ++ marked name)
  | unknownField name expected => some ("unknown field " ++ marked name ++ ", " ++ expecting expected)
  | unknownVariant name expected =>
    some ("unknown variant " ++ marked name ++ ", " ++ expecting expected)
  | notColumns found => some ("invalid " ++ found ++ ", expected \"*\" or a list of column names")
  | mismatch => none
  | malformed => none

end ReadError

/-- How a document comes to its reader, which decides when its shape can be checked. -/
inductive Supply where
  /-- As a text, read as it goes: an object is entered before it is known to have one entry. -/
  | stream
  /-- As a value at hand, its shape known beforehand. -/
  | value
  /-- Set aside in the middle of reading; an empty object may then stand for null. -/
  | buffer
deriving DecidableEq, Repr

/-- Makes a value of a document. -/
abbrev Reader (α : Type) := Supply → Document → Except ReadError α

namespace Reader

variable {α β : Type}

/-- The error for a document of the wrong shape. -/
def refuse (d : Document) : Except ReadError α :=
  match d with
  | .flaw _ => .error .malformed
  | _ => .error .mismatch

/-- Passes over a document, which must be JSON. -/
def skip (d : Document) : Except ReadError Unit :=
  if d.isBroken then .error .malformed else .ok ()

/-- Takes a document that has to be set aside, which must have no flaw. -/
def setAside (d : Document) : Except ReadError Unit :=
  if d.isSound then .ok () else .error .malformed

/-- A string. -/
def string : Reader String
  | _, .str s => .ok s
  | _, d => refuse d

/-- A truth value. -/
def bool : Reader Bool
  | _, .bool b => .ok b
  | _, d => refuse d

/-- An integer of 64 bits with a sign. -/
def int : Reader Int
  | _, .num (.int n) => if Number.minInt ≤ n ∧ n ≤ Number.maxInt then .ok n else .error .mismatch
  | _, d => refuse d

/-- An integer of 64 bits without a sign. -/
def nat : Reader Nat
  | _, .num (.int (.ofNat n)) => if n ≤ Number.maxNat then .ok n else .error .mismatch
  | _, d => refuse d

/-- Null. -/
def null : Reader Unit
  | _, .null => .ok ()
  | .buffer, .obj [] none => .ok ()
  | _, d => refuse d

/-- What `r` reads, or null for none. -/
def orNull (r : Reader α) : Reader (Option α)
  | _, .null => .ok none
  | s, d => (r s d).map some

/-- An array of what `r` reads. -/
def list (r : Reader α) : Reader (List α)
  | s, .arr items => items.mapM (r s)
  | _, d => refuse d

mutual

/-- The canonical value a document stands for. -/
def readJson : Document → Except ReadError Json
  | .null => .ok .null
  | .bool b => .ok (.bool b)
  | .num n => .ok (.num n)
  | .str s => .ok (.str s)
  | .arr items => (readItems items).map .arr
  | .obj entries cut => do
    let entries ← readEntries entries
    if cut.isSome then .error .malformed else return .obj (Json.sortEntries entries)
  | .flaw _ => .error .malformed

/-- The canonical values of a list of documents. -/
def readItems : List Document → Except ReadError (List Json)
  | [] => .ok []
  | d :: rest => do return (← readJson d) :: (← readItems rest)

/-- The entries with canonical values. -/
def readEntries : List (String × Document) → Except ReadError (List (String × Json))
  | [] => .ok []
  | (k, d) :: rest => do return (k, ← readJson d) :: (← readEntries rest)

end

/-- Any value, in canonical form. -/
def json : Reader Json := fun _ d => readJson d

/-- An object of free keys, the last entry of a key standing for all of them. -/
def object : Reader (SortedMap String Json)
  | _, .obj entries cut => do
    let entries ← readEntries entries
    if cut.isSome then .error .malformed else return SortedMap.ofList entries
  | _, d => refuse d

/-- Changes what is read. -/
def map (f : α → β) (r : Reader α) : Reader β := fun s d => (r s d).map f

/-- Reads a document that has been set aside. -/
def aside (r : Reader α) : Reader α := fun _ d => do
  setAside d
  r .buffer d

/-- Reads a value at hand. -/
def ofJson (r : Reader α) (j : Json) : Except ReadError α := r .value (.ofJson j)

/-- Reads a text. What follows the value is looked at last. -/
def ofText (r : Reader α) (s : String) : Except ReadError α := do
  let (d, more) := Document.ofText s
  let a ← r .stream d
  if more then .error .malformed else return a

end Reader

end TableAccess
