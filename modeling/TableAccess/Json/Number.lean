import TableAccess.Binary64.Shortest

/-!
# JSON numbers

A number is an integer that fits in 64 bits, signed or unsigned, or a finite `Binary64`. A
`Numeral` is a number as a text writes it; `Numeral.value?` says which number it stands for, and
`Number.chars` writes a number.
-/

namespace TableAccess

/-- A JSON number: an integer from `-2 ^ 63` to `2 ^ 64 - 1`, or a floating-point number. -/
inductive Number where
  | int (n : Int)
  | float (x : Binary64)
deriving DecidableEq, Inhabited, Repr

namespace Number

/-- The least integer of 64 bits with a sign. -/
def minInt : Int := -9223372036854775808

/-- The greatest integer of 64 bits with a sign. -/
def maxInt : Int := 9223372036854775807

/-- The greatest integer of 64 bits without a sign. -/
def maxNat : Nat := 18446744073709551615

/-- Whether `n` can be the integer of a number. -/
def isInteger (n : Int) : Bool := minInt ≤ n && n ≤ maxNat

/-- The decimal digits of `n`. -/
def natChars (n : Nat) : List Char := Nat.toDigits 10 n

/-- An integer in decimal. -/
def intChars : Int → List Char
  | .ofNat n => natChars n
  | .negSucc n => '-' :: natChars (n + 1)

/-- The digits `ds` of a number whose first digit counts `10 ^ k`. From `10 ^ -5` to below
`10 ^ 16` the point stands in its place, with a digit on either side; beyond, a power of ten
follows, its sign written either way. -/
def scientific (ds : List Char) (k : Int) : List Char :=
  if 0 ≤ k && k < 16 then
    let whole := ds.take (k.toNat + 1)
    let rest := ds.drop (k.toNat + 1)
    whole ++ List.replicate (k.toNat + 1 - whole.length) '0' ++ '.' ::
      (if rest.isEmpty then ['0'] else rest)
  else if -5 ≤ k && k < 0 then
    '0' :: '.' :: List.replicate (-k - 1).toNat '0' ++ ds
  else
    let power := (if k < 0 then '-' else '+') :: natChars k.natAbs
    match ds with
    | [] => []
    | [d] => d :: 'e' :: power
    | d :: rest => d :: '.' :: rest ++ 'e' :: power

/-- A floating-point number in the fewest digits that read back. -/
def floatChars (x : Binary64) : List Char :=
  let sign := if x.negative then ['-'] else []
  if x.isZero then sign ++ ['0', '.', '0']
  else
    let d := x.shortest
    let ds := natChars d.digits
    sign ++ scientific (ds.reverse.dropWhile (· == '0')).reverse (d.exponent + ds.length - 1)

/-- How a number is written. -/
def chars : Number → List Char
  | int n => intChars n
  | float x => floatChars x

/-- A number as text. -/
def text (n : Number) : String := String.ofList n.chars

end Number

/-- A number as written: a sign, digits, digits behind a point, and a power of ten. -/
structure Numeral where
  negative : Bool
  whole : List Nat
  fraction : Option (List Nat)
  power : Option (Bool × List Nat)
deriving DecidableEq, Repr

namespace Numeral

/-- The value of a decimal digit. -/
def digit (c : Char) : Nat := c.toNat - '0'.toNat

/-- The leading digits of `cs`, and what follows them. -/
def digits (cs : List Char) : List Nat × List Char :=
  ((cs.takeWhile Char.isDigit).map digit, cs.dropWhile Char.isDigit)

/-- The digits before the point: a lone zero, or a run that does not start with one. -/
def scanWhole (cs : List Char) : Option (List Nat × List Char) :=
  match digits cs with
  | ([], _) => none
  | (0 :: _ :: _, _) => none
  | r => some r

/-- A point and at least one digit, where `cs` starts with a point. -/
def scanFraction (cs : List Char) : Option (Option (List Nat) × List Char) :=
  match cs with
  | '.' :: cs =>
    match digits cs with
    | ([], _) => none
    | (ds, rest) => some (some ds, rest)
  | cs => some (none, cs)

/-- The sign of a power of ten, true for minus. -/
def scanSign (cs : List Char) : Bool × List Char :=
  match cs with
  | '+' :: cs => (false, cs)
  | '-' :: cs => (true, cs)
  | cs => (false, cs)

/-- A power of ten with at least one digit, where `cs` starts with an `e` of either case. -/
def scanPower (cs : List Char) : Option (Option (Bool × List Nat) × List Char) :=
  match cs with
  | [] => some (none, [])
  | c :: rest =>
    if c == 'e' || c == 'E' then
      match digits (scanSign rest).2 with
      | ([], _) => none
      | (ds, rest') => some (some ((scanSign rest).1, ds), rest')
    else some (none, c :: rest)

/-- The digits of a numeral behind its sign. -/
def scanUnsigned (negative : Bool) (cs : List Char) : Option (Numeral × List Char) := do
  let (whole, cs) ← scanWhole cs
  let (fraction, cs) ← scanFraction cs
  let (power, cs) ← scanPower cs
  return (⟨negative, whole, fraction, power⟩, cs)

/-- The numeral at the front of `cs`, and what follows it. -/
def scan (cs : List Char) : Option (Numeral × List Char) :=
  match cs with
  | '-' :: cs => scanUnsigned true cs
  | cs => scanUnsigned false cs

/-- Takes digits into `m` while the result is at most `2 ^ 64 - 1`; gives the result and the
digits from the first one that does not fit. -/
def accumulate (m : Nat) : List Nat → Nat × List Nat
  | [] => (m, [])
  | d :: ds => if m * 10 + d ≤ Number.maxNat then accumulate (m * 10 + d) ds else (m, d :: ds)

/-- The greatest magnitude of a power of ten; one beyond it is not computed. -/
def maxPower : Nat := 2147483647

/-- `± m · 10 ^ e` with `m` rounded first and each product or quotient rounded again; none where
that is beyond the greatest number. Powers beyond 308 are divided off in steps. -/
def scale (negative : Bool) (m : Nat) (e : Int) : Option Binary64 := do
  let x ← Binary64.ofRatio negative m 1
  if x.isZero then return x
  match e with
  | .ofNat e =>
    if e > 308 then none else x.mul (← Binary64.ofNat (Nat.pow 10 e))
  | .negSucc e => divide x (e + 1) 5
where
  /-- Divides `x` by `10 ^ e`. After a few steps of `10 ^ 308` the quotient is zero. -/
  divide (x : Binary64) (e : Nat) : Nat → Option Binary64
    | 0 => some x
    | steps + 1 => do
      if e ≤ 308 then x.div (← Binary64.ofNat (Nat.pow 10 e))
      else
        let y ← x.div (← Binary64.ofNat (Nat.pow 10 308))
        if y.isZero then return y else divide y (e - 308) steps

/-- **The number a numeral stands for**, none where it is out of range. Digits alone are an
integer if it has 64 bits; `-0` and all else is a floating-point number, made of the leading digits
that fit in 64 bits. -/
def value? (n : Numeral) : Option Number :=
  let (m, beyond) := accumulate 0 n.whole
  -- Integers: no point, no power, and all digits fit.
  if n.fraction.isNone && n.power.isNone && beyond.isEmpty && !n.negative then some (.int m)
  else if n.fraction.isNone && n.power.isNone && beyond.isEmpty && m != 0 && -(m : Int) ≥ Number.minInt then
    some (.int (-m))
  else
    let (m, taken) :=
      match n.fraction with
      | none => (m, 0)
      | some ds => let (m', left) := accumulate m ds; (m', ds.length - left.length)
    -- Each digit left out in front of the point counts as a power, each one taken behind it
    -- as a power the other way.
    let start : Int := (beyond.length : Int) - taken
    match n.power with
    | none => (scale n.negative m start).map .float
    | some (down, ds) =>
      let p := ds.foldl (fun p d => if p > maxPower then p else p * 10 + d) 0
      if p > maxPower then
        -- Too large a power to compute with: beyond every number, or zero.
        if m != 0 && !down then none else some (.float (.zero n.negative))
      else (scale n.negative m (if down then start - p else start + p)).map .float

end Numeral

end TableAccess
