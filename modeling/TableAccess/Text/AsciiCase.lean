/-!
# ASCII case

Folding changes the 26 ASCII capitals and leaves every other character as it is. No byte of another
character is that of an ASCII letter, so texts can also be compared byte by byte, without being folded.
-/

namespace TableAccess.Text

/-- `s` with its ASCII capitals as small letters. -/
def fold (s : String) : String := String.ofList (s.toList.map Char.toLower)

/-- Whether `a` and `b` differ at most in the case of ASCII letters. -/
def sameFolded (a b : String) : Bool := fold a == fold b

/-- The bytes of `s`. -/
def bytes (s : String) : List UInt8 := s.toByteArray.data.toList

/-- Whether bytes differ at most in the case of ASCII letters, compared where they stand. -/
def agree (a b : List UInt8) : Bool :=
  a.length == b.length && (a.zip b).all fun p => p.1.toAsciiLower == p.2.toAsciiLower

end TableAccess.Text
