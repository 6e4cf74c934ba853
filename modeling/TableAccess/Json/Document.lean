import TableAccess.Json.Basic

/-!
# Documents as they were written

A `Document` is what a reader gets to see of a text: the values in their order, repeated keys
included, and where the text stops being JSON. A flawed place matters to a reader that takes the
value there and to nobody who passes over it, unless the text ends with it. A value at hand is a
document without flaws (`Document.ofJson`).
-/

namespace TableAccess

/-- Why a place in a text has no value. -/
inductive Flaw where
  /-- It is well formed, but cannot be taken: a number out of range, a string with half of a
  surrogate pair, or arrays and objects nested too deeply. It can be passed over. -/
  | unreadable
  /-- The text is not JSON from here on. -/
  | broken
deriving DecidableEq, Repr

/-- A document as it was written. -/
inductive Document where
  | null
  | bool (b : Bool)
  | num (n : Number)
  | str (s : String)
  | arr (items : List Document)
  /-- An object's entries up to its end, or up to a flaw. -/
  | obj (entries : List (String × Document)) (cut : Option Flaw)
  | flaw (f : Flaw)
deriving Inhabited, Repr

namespace Document

mutual

/-- A value at hand as a document. -/
def ofJson : Json → Document
  | .null => .null
  | .bool b => .bool b
  | .num n => .num n
  | .str s => .str s
  | .arr items => .arr (ofItems items)
  | .obj entries => .obj (ofEntries entries) none

/-- Values at hand as documents. -/
def ofItems : List Json → List Document
  | [] => []
  | j :: rest => ofJson j :: ofItems rest

/-- Entries at hand as entries of a document. -/
def ofEntries : List (String × Json) → List (String × Document)
  | [] => []
  | (k, j) :: rest => (k, ofJson j) :: ofEntries rest

end

mutual

/-- Whether the text stops being JSON somewhere in the document. -/
def isBroken : Document → Bool
  | .flaw f => f == .broken
  | .arr items => areBroken items
  | .obj entries cut => haveBroken entries || cut == some .broken
  | _ => false

/-- Whether one of the documents is broken. -/
def areBroken : List Document → Bool
  | [] => false
  | d :: rest => d.isBroken || areBroken rest

/-- Whether one of the entries is broken. -/
def haveBroken : List (String × Document) → Bool
  | [] => false
  | (_, d) :: rest => d.isBroken || haveBroken rest

end

mutual

/-- Whether the document has no flaw. -/
def isSound : Document → Bool
  | .flaw _ => false
  | .arr items => areSound items
  | .obj entries cut => haveSound entries && cut.isNone
  | _ => true

/-- Whether none of the documents has a flaw. -/
def areSound : List Document → Bool
  | [] => true
  | d :: rest => d.isSound && areSound rest

/-- Whether none of the entries has a flaw. -/
def haveSound : List (String × Document) → Bool
  | [] => true
  | (_, d) :: rest => d.isSound && haveSound rest

end

/-- What is left of a document that cannot be taken. -/
def spoil (d : Document) : Document := .flaw (if d.isBroken then .broken else .unreadable)

mutual

/-- The document with every array and object spoilt that stands inside more than `n` others. -/
def limit : Nat → Document → Document
  | 0, .arr items => spoil (.arr items)
  | n + 1, .arr items => .arr (limitItems n items)
  | 0, .obj entries cut => spoil (.obj entries cut)
  | n + 1, .obj entries cut => .obj (limitEntries n entries) cut
  | _, d => d

/-- The documents with what is nested too deeply spoilt. -/
def limitItems : Nat → List Document → List Document
  | _, [] => []
  | n, d :: rest => limit n d :: limitItems n rest

/-- The entries with what is nested too deeply spoilt. -/
def limitEntries : Nat → List (String × Document) → List (String × Document)
  | _, [] => []
  | n, (k, d) :: rest => (k, limit n d) :: limitEntries n rest

end

end Document

end TableAccess
