import TableAccess.Json.Number

/-!
# Numbers in strings

A string can stand for a number of a column. An integer is a run of decimal digits with an optional
sign in front; a number may also have a point and a power of ten.
-/

namespace TableAccess.Text

/-- A sign at the front of `cs`, true for minus, and what follows it. -/
def splitSign (cs : List Char) : Bool × List Char :=
  match cs with
  | '-' :: rest => (true, rest)
  | '+' :: rest => (false, rest)
  | cs => (false, cs)

/-- The value of decimal digits. -/
def digitsValue (ds : List Nat) : Nat := ds.foldl (fun n d => n * 10 + d) 0

/-- The number that a non-empty run of decimal digits stands for. -/
def natural? (cs : List Char) : Option Nat :=
  if !cs.isEmpty && cs.all Char.isDigit then some (digitsValue (cs.map Numeral.digit)) else none

/-- The integer that a string stands for. -/
def integer? (s : String) : Option Int :=
  (natural? (splitSign s.toList).2).map fun n => if (splitSign s.toList).1 then -n else n

/-- Whether a string stands for an integer of 64 bits with a sign. -/
def isInteger (s : String) : Bool :=
  match integer? s with
  | some n => Number.minInt ≤ n && n ≤ Number.maxInt
  | none => false

/-- A decimal number in a string: the digits on both sides of the point and a power of ten. -/
structure DecimalText where
  whole : List Nat
  fraction : List Nat
  power : Int
deriving DecidableEq, Repr

/-- A power of ten, `e` and digits with an optional sign; no characters are the power zero. A power
of five digits and more is large enough not to be read any further. -/
def power? (cs : List Char) : Option Int :=
  match cs with
  | [] => some 0
  | c :: rest =>
    let ds := (splitSign rest).2
    if (c == 'e' || c == 'E') && !ds.isEmpty && ds.all Char.isDigit then
      let n := ds.foldl (fun n d => if n < 0x10000 then n * 10 + Numeral.digit d else n) 0
      some (if (splitSign rest).1 then -n else n)
    else none

/-- The decimal number that `cs` stands for, sign apart: digits with at most one point among them,
and a power. -/
def decimal? (cs : List Char) : Option DecimalText := do
  let (whole, rest) := Numeral.digits cs
  let (fraction, rest) :=
    match rest with
    | '.' :: rest => Numeral.digits rest
    | rest => ([], rest)
  if whole.isEmpty && fraction.isEmpty then none
  else return ⟨whole, fraction, ← power? rest⟩

/-- Half a unit above the greatest `Binary64`; from here on a number rounds to no finite one. -/
def overflow : Nat := Nat.pow 2 1024 - Nat.pow 2 970

/-- Whether a decimal number rounds to a finite `Binary64`. Only a number of about as many digits
before its point as the greatest has to be computed. -/
def DecimalText.isFinite (d : DecimalText) : Bool :=
  let ds := (d.whole ++ d.fraction).dropWhile (· == 0)
  let n := digitsValue ds
  let e : Int := d.power - d.fraction.length
  let size : Int := e + ds.length
  -- The number is below `10 ^ size`, and at least a tenth of it.
  if ds.isEmpty || size < 308 then true
  else if size > 310 then false
  else
    match e with
    | .ofNat e => n * Nat.pow 10 e < overflow
    | .negSucc e => n < overflow * Nat.pow 10 (e + 1)

/-- Whether a string stands for a number that rounds to a finite `Binary64`. -/
def isFiniteNumber (s : String) : Bool :=
  match decimal? (splitSign s.toList).2 with
  | some d => d.isFinite
  | none => false

end TableAccess.Text
