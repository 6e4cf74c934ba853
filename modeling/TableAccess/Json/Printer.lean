import TableAccess.Json.Basic

/-!
# JSON as text

The compact form: no blanks, entries in the order in which they stand. In strings the quote, the
backslash and control characters are escaped, and every other character stands as it is.
-/

namespace TableAccess.Json

/-- The two last digits of a code point below 256 in base 16. -/
def hexPair (n : Nat) : List Char := [Nat.digitChar (n / 16), Nat.digitChar (n % 16)]

/-- How `c` is written inside a string. -/
def escape (c : Char) : List Char :=
  match c with
  | '"' => ['\\', '"']
  | '\\' => ['\\', '\\']
  | '\n' => ['\\', 'n']
  | '\r' => ['\\', 'r']
  | '\t' => ['\\', 't']
  | '\x08' => ['\\', 'b']
  | '\x0c' => ['\\', 'f']
  | c => if c.toNat < 0x20 then '\\' :: 'u' :: '0' :: '0' :: hexPair c.toNat else [c]

/-- A string between quotes. -/
def stringChars (s : String) : List Char := '"' :: s.toList.flatMap escape ++ ['"']

mutual

/-- The characters of a value. -/
def chars : Json → List Char
  | .null => ['n', 'u', 'l', 'l']
  | .bool true => ['t', 'r', 'u', 'e']
  | .bool false => ['f', 'a', 'l', 's', 'e']
  | .num n => n.chars
  | .str s => stringChars s
  | .arr items => '[' :: itemChars items
  | .obj entries => '\x7b' :: entryChars entries

/-- The items of an array, up to and with the closing bracket. -/
def itemChars : List Json → List Char
  | [] => [']']
  | j :: rest => chars j ++ moreItemChars rest

/-- The items of an array behind the first one, with the commas before them. -/
def moreItemChars : List Json → List Char
  | [] => [']']
  | j :: rest => ',' :: chars j ++ moreItemChars rest

/-- The entries of an object, up to and with the closing brace. -/
def entryChars : List (String × Json) → List Char
  | [] => ['\x7d']
  | (k, j) :: rest => stringChars k ++ ':' :: chars j ++ moreEntryChars rest

/-- The entries of an object behind the first one, with the commas before them. -/
def moreEntryChars : List (String × Json) → List Char
  | [] => ['\x7d']
  | (k, j) :: rest => ',' :: stringChars k ++ ':' :: chars j ++ moreEntryChars rest

end

/-- A value as text. -/
def text (j : Json) : String := String.ofList j.chars

end TableAccess.Json
