import TableAccess.Json.Document
import TableAccess.Json.Token

/-!
# Reading JSON text

The tokens of a text are read one by one into a `Progress`: the value that is being read, with
the arrays and objects that are still open around it. A token that cannot stand where it does
ends the text there, and every open array and object is broken from that place on.
-/

namespace TableAccess

/-- An array or object that waits for a value: what came before it, last first, and in an object
the value's key. A key that cannot be taken is none. -/
inductive Frame where
  | arr (before : List Document)
  | obj (before : List (Option String × Document)) (key : Option String)

/-- How far a text has been read. -/
inductive Progress where
  /-- A value must follow; if `fresh`, an array has just been opened and may also end. -/
  | value (open_ : List Frame) (fresh : Bool)
  /-- An array's item has been read. -/
  | item (before : List Document) (open_ : List Frame)
  /-- A key must follow; if `fresh`, the object has just been opened and may also end. -/
  | key (before : List (Option String × Document)) (open_ : List Frame) (fresh : Bool)
  /-- A key has been read. -/
  | colon (before : List (Option String × Document)) (key : Option String) (open_ : List Frame)
  /-- An object's entry has been read. -/
  | entry (before : List (Option String × Document)) (open_ : List Frame)
  /-- The value is complete. -/
  | done (d : Document)

namespace Progress

/-- The entries in front of the first key that cannot be taken, and the flaw that ends them. -/
def readable (cut : Option Flaw) :
    List (Option String × Document) → List (String × Document) × Option Flaw
  | [] => ([], cut)
  | (some k, d) :: rest => ((k, d) :: (readable cut rest).1, (readable cut rest).2)
  | (none, _) :: _ => ([], some (cut.getD .unreadable))

/-- An object with the entries `before`, last first. -/
def object (before : List (Option String × Document)) (cut : Option Flaw) : Document :=
  .obj (readable cut before.reverse).1 (readable cut before.reverse).2

/-- Where a text stands once the value `d` has been read. -/
def push (d : Document) : List Frame → Progress
  | [] => .done d
  | .arr before :: open_ => .item (d :: before) open_
  | .obj before k :: open_ => .entry ((k, d) :: before) open_

/-- Puts the broken document `d` into the arrays and objects open around it. -/
def breakOff (d : Document) : List Frame → Document
  | [] => d
  | .arr before :: open_ => breakOff (.arr (d :: before).reverse) open_
  | .obj before k :: open_ => breakOff (object ((k, d) :: before) (some .broken)) open_

/-- What has been read when the text stops being JSON. -/
def abandon : Progress → Document
  | .value open_ _ => breakOff (.flaw .broken) open_
  | .item before open_ => breakOff (.arr (.flaw .broken :: before).reverse) open_
  | .key before open_ _ => breakOff (object before (some .broken)) open_
  | .colon before k open_ =>
    breakOff (object ((k, .flaw .broken) :: before) (some .broken)) open_
  | .entry before open_ => breakOff (object before (some .broken)) open_
  | .done d => d

/-- A scalar token as a document. -/
def scalar? : Token → Option Document
  | .null => some .null
  | .bool b => some (.bool b)
  | .number (some n) => some (.num n)
  | .number none => some (.flaw .unreadable)
  | .string (some s) => some (.str s)
  | .string none => some (.flaw .unreadable)
  | _ => none

/-- Reads one token; none where it cannot stand. -/
def step : Progress → Token → Option Progress
  | .value open_ _, .openArray => some (.value (.arr [] :: open_) true)
  | .value open_ _, .openObject => some (.key [] open_ true)
  | .value (.arr [] :: open_) true, .closeArray => some (push (.arr []) open_)
  | .value open_ _, t => (scalar? t).map fun d => push d open_
  | .item before open_, .comma => some (.value (.arr before :: open_) false)
  | .item before open_, .closeArray => some (push (.arr before.reverse) open_)
  | .key before open_ _, .string s => some (.colon before s open_)
  | .key before open_ true, .closeObject => some (push (object before none) open_)
  | .colon before k open_, .colon => some (.value (.obj before k :: open_) false)
  | .entry before open_, .comma => some (.key before open_ false)
  | .entry before open_, .closeObject => some (push (object before none) open_)
  | _, _ => none

/-- Reads a text from `p` on, up to the end of the value. Gives the document and whether anything
but blanks follows it. -/
def run (p : Progress) : List Char → Document × Bool
  | [] => (p.abandon, false)
  | c :: cs =>
    if Token.isSpace c then run p cs
    else
      -- Behind a complete value anything but a blank is left over, even half a token.
      match p with
      | .done d => (d, true)
      | p =>
        match _ : Token.scan c cs with
        | none => (p.abandon, false)
        | some r =>
          match p.step r.1 with
          | none => (p.abandon, false)
          | some p' => run p' r.2
termination_by cs => cs.length
decreasing_by
  · exact Nat.lt_succ_self _
  · exact Token.scan_length ‹_›

end Progress

namespace Document

/-- The greatest number of arrays and objects that may stand inside each other. -/
def maxDepth : Nat := 127

/-- The document a text holds, and whether anything but blanks follows it. -/
def ofChars (cs : List Char) : Document × Bool :=
  let r := (Progress.value [] false).run cs
  (r.1.limit maxDepth, r.2)

/-- The document the text `s` holds, and whether anything but blanks follows it. -/
def ofText (s : String) : Document × Bool := ofChars s.toList

end Document

end TableAccess
