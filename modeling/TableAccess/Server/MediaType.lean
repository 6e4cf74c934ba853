import TableAccess.Text.AsciiCase

/-!
# Media types

Which values of a content type say that a body is JSON: `application/json`, or a type under
`application` with the suffix `json`, with any parameters.
-/

namespace TableAccess.MediaType

/-- Whether `c` may stand in a token: a letter, a digit or one of fifteen marks. -/
def isToken (c : Char) : Bool := c.isAlphanum || "!#$%&'*+-.^_\x60|~".toList.contains c

/-- Whether `c` may stand between quotes. -/
def isQuotable (c : Char) : Bool := c.toNat > 31 && c.toNat != 127

/-- Where the parameters of a type stand. -/
inductive Place where
  /-- At the start of a parameter. -/
  | start
  /-- In a parameter's name. -/
  | name
  /-- At the start of a value. -/
  | value
  /-- In a value without quotes. -/
  | token
  /-- At the start of a value between quotes. -/
  | opened
  /-- In a value between quotes. -/
  | quoted
  /-- Behind a value between quotes. -/
  | closed
deriving DecidableEq

/-- Whether parameters are well formed from a place on. -/
def parametersOk : Place → List Char → Bool
  | .start, [] => true
  | .start, c :: cs => if c == ' ' then parametersOk .start cs else isToken c && parametersOk .name cs
  | .name, [] => false
  | .name, c :: cs => if c == '=' then parametersOk .value cs else isToken c && parametersOk .name cs
  | .value, [] => true
  | .value, c :: cs => if c == '"' then parametersOk .opened cs else isToken c && parametersOk .token cs
  | .token, [] => true
  | .token, c :: cs => if c == ';' then parametersOk .start cs else isToken c && parametersOk .token cs
  | .opened, [] => false
  | .opened, c :: cs => isQuotable c && parametersOk .quoted cs
  | .quoted, [] => false
  | .quoted, c :: cs => if c == '"' then parametersOk .closed cs else isQuotable c && parametersOk .quoted cs
  | .closed, [] => true
  | .closed, c :: cs =>
    if c == ';' then parametersOk .start cs else c == ' ' && parametersOk .closed cs

/-- A subtype split at its last plus sign that is not at its start: the part before, and the
suffix behind. -/
def splitSuffix (cs : List Char) : List Char × Option (List Char) :=
  let suffix := (cs.reverse.takeWhile (· != '+')).reverse
  let before := cs.take (cs.length - suffix.length - 1)
  -- Without a plus sign the suffix found is everything.
  if suffix.length == cs.length || before.isEmpty then (cs, none) else (before, some suffix)

/-- Whether a content type says that the body is JSON. -/
def isJson (s : String) : Bool :=
  let cs := s.toList
  let type := cs.takeWhile isToken
  match cs.drop type.length with
  | '/' :: cs =>
    let subtype := cs.takeWhile isToken
    let rest := cs.drop subtype.length
    let ok :=
      match rest with
      | [] => true
      | ';' :: rest => !subtype.isEmpty && parametersOk .start rest
      | _ => false
    let (base, suffix) := splitSuffix subtype
    let is (w : String) (cs : List Char) : Bool := Text.fold (String.ofList cs) == w
    ok && is "application" type && (is "json" base || (suffix.map (is "json")).getD false)
  | _ => false

end TableAccess.MediaType
