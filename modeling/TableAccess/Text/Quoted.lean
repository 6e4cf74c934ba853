import TableAccess.Text.Combining
import TableAccess.Text.Ignorable
import TableAccess.Text.Printable

/-!
# Names in messages

A name stands in a message between double quotes. The quote and the backslash get a backslash in
front, NUL, tab, line feed and carriage return have a letter each, and what would not show on its
own is written by its code point.
-/

namespace TableAccess.Text

/-- The digits of `n` in base 16, in small letters, without leading zeros. -/
def hex (n : Nat) : List Char := Nat.toDigits 16 n

/-- Whether `c` shows on its own: it is printable, does not attach to another character, and is not
ignored. -/
def shows (c : Char) : Bool := isPrintable c && !isCombining c && !isIgnorable c

/-- How `c` is written between quotes. -/
def escape (c : Char) : List Char :=
  match c with
  | '\x00' => ['\\', '0']
  | '\t' => ['\\', 't']
  | '\n' => ['\\', 'n']
  | '\r' => ['\\', 'r']
  | '"' => ['\\', '"']
  | '\\' => ['\\', '\\']
  | c => if shows c then [c] else '\\' :: 'u' :: '\x7b' :: hex c.toNat ++ ['\x7d']

/-- The quoted form of `s`. -/
def quoted (s : String) : String := String.ofList ('"' :: s.toList.flatMap escape ++ ['"'])

end TableAccess.Text
