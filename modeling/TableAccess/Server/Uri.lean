/-!
# Request targets

A request names what it asks for by a path of its own, or by a whole address with a scheme and an
authority in front of the path. A query and a fragment may follow; they are no part of the path.
-/

namespace TableAccess.Uri

/-- Whether `c` may stand in a scheme. -/
def isSchemeChar (c : Char) : Bool := c.isAlphanum || c == '+' || c == '-' || c == '.'

/-- Whether `c` begins a query or a fragment. -/
def endsPath (c : Char) : Bool := c == '?' || c == '#'

/-- What stands in front of the query and the fragment. -/
def beforeQuery (cs : List Char) : List Char := cs.takeWhile fun c => !endsPath c

/-- What follows the scheme, if there is one. -/
def afterScheme? : List Char → Option (List Char)
  | [] => none
  | ':' :: '/' :: '/' :: rest => some rest
  | c :: rest => if isSchemeChar c then afterScheme? rest else none

/-- The path of a target. An address without a path has the path `/`; a target that is neither a path
nor an address has none. -/
def path (cs : List Char) : List Char :=
  if cs.head? == some '/' then beforeQuery cs
  else
    match afterScheme? cs with
    | none => []
    | some rest =>
      match (beforeQuery rest).dropWhile (· != '/') with
      | [] => ['/']
      | path => path

end TableAccess.Uri
