import TableAccess.Json.Reader
import TableAccess.Sorted.Set
import TableAccess.Text.AsciiCase

/-!
# Session variables

A session variable is named by a request header, so the case of ASCII letters does not tell two
names apart; a name keeps the spelling it was met with. A string value of a permission that starts
with `x-hasura-`, in any case, refers to a session variable.
-/

namespace TableAccess

/-- The name of a session variable, as it was spelled. -/
structure SessionVariable where
  name : String
deriving DecidableEq, Repr, Inhabited

namespace SessionVariable

/-- The spelling that all names of the same variable share. -/
def folded (v : SessionVariable) : String := Text.fold v.name

/-- Variables are ordered by their folded names. -/
instance : Ord SessionVariable := ⟨compareOn folded⟩

instance : Std.TransOrd SessionVariable := inferInstanceAs (Std.TransCmp (compareOn folded))

/-- Whether two names are names of the same variable. -/
def same (a b : SessionVariable) : Bool := a.folded == b.folded

/-- What a variable gives to a hash: the bytes of its folded name, and one that stands in no text. -/
def hashed (v : SessionVariable) : List UInt8 := Text.bytes v.folded ++ [0xff]

/-- What a string starts with that refers to a session variable. -/
def marker : List Char := "x-hasura-".toList

/-- Whether a string refers to a session variable. -/
def isReference (s : String) : Bool := (s.toList.take marker.length).map Char.toLower == marker

/-- The variable that a string refers to. -/
def ofReference? (s : String) : Option SessionVariable :=
  if isReference s then some ⟨s⟩ else none

/-- A variable's name as JSON. -/
def toJson (v : SessionVariable) : Json := .str v.name

/-- Reads a variable's name. -/
def reader : Reader SessionVariable := Reader.string.map SessionVariable.mk

end SessionVariable

/-- The session variables that a request must carry: one spelling of each. -/
abbrev RequiredHeaders := SortedSet SessionVariable

/-- Whether two sets are of the same variables, however these are spelled. -/
def RequiredHeaders.same (h k : RequiredHeaders) : Bool :=
  h.toList.length == k.toList.length && (h.toList.zip k.toList).all fun p => p.1.same p.2

/-- The names of required headers as JSON, in order. -/
def RequiredHeaders.toJson (h : RequiredHeaders) : Json := .arr (h.toList.map SessionVariable.toJson)

end TableAccess
