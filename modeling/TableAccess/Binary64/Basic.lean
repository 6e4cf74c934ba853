/-!
# Finite binary floating-point numbers of 64 bits

A `Binary64` is a sign, a significand of at most 53 bits and a power of two. `ofRatio` rounds a
quotient of natural numbers to the nearest of them, a half going to the even significand, and all
arithmetic is exact arithmetic followed by that rounding.
-/

namespace TableAccess

/-- The number `± significand · 2 ^ exponent`. -/
structure Binary64 where
  negative : Bool
  significand : Nat
  exponent : Int
deriving DecidableEq, Inhabited, Repr

namespace Binary64

/-- The least exponent. -/
def minExponent : Int := -1074

/-- The greatest exponent. -/
def maxExponent : Int := 971

/-- The power `2 ^ 52`, the least significand of a number above the smallest magnitudes. -/
def hiddenBit : Nat := Nat.pow 2 52

/-- Zero with a sign. -/
def zero (negative : Bool) : Binary64 := ⟨negative, 0, minExponent⟩

/-- Whether the number is one of the two zeros. -/
def isZero (x : Binary64) : Bool := x.significand == 0

/-- The other sign. -/
def neg (x : Binary64) : Binary64 := { x with negative := !x.negative }

/-- The magnitude as a quotient: numerator and denominator. -/
def ratio (x : Binary64) : Nat × Nat :=
  match x.exponent with
  | .ofNat e => (x.significand * Nat.pow 2 e, 1)
  | .negSucc e => (x.significand, Nat.pow 2 (e + 1))

/-- The quotient `num / (den · 2 ^ e)` as a quotient of natural numbers. -/
def scaled (num den : Nat) (e : Int) : Nat × Nat :=
  match e with
  | .ofNat e => (num, den * Nat.pow 2 e)
  | .negSucc e => (num * Nat.pow 2 (e + 1), den)

/-- The exponent for which `num / den` has a significand of 53 bits, or the least one. -/
def exponentOf (num den : Nat) : Int :=
  let guess : Int := (num.log2 : Int) - (den.log2 : Int) - 52
  let (n, d) := scaled num den guess
  let e := if n < hiddenBit * d then guess - 1 else guess
  max e minExponent

/-- The natural number nearest to `num / den`; a half goes to the even neighbour. -/
def roundHalfEven (num den : Nat) : Nat :=
  let q := num / den
  let r := num % den
  if 2 * r < den then q
  else if den < 2 * r then q + 1
  else if q % 2 == 0 then q else q + 1

/-- The number nearest to `± num / den`, or none where that is beyond the greatest one. -/
def ofRatio (negative : Bool) (num den : Nat) : Option Binary64 :=
  if num == 0 then some (zero negative)
  else
    let e := exponentOf num den
    let (n, d) := scaled num den e
    let m := roundHalfEven n d
    -- Rounding up can make the significand one bit longer.
    let (m, e) := if m == 2 * hiddenBit then (hiddenBit, e + 1) else (m, e)
    if e > maxExponent then none else some ⟨negative, m, e⟩

/-- The number nearest to `n`. -/
def ofNat (n : Nat) : Option Binary64 := ofRatio false n 1

/-- The rounded product. -/
def mul (x y : Binary64) : Option Binary64 :=
  ofRatio (x.negative != y.negative) (x.ratio.1 * y.ratio.1) (x.ratio.2 * y.ratio.2)

/-- The rounded quotient by a number that is not zero. -/
def div (x y : Binary64) : Option Binary64 :=
  ofRatio (x.negative != y.negative) (x.ratio.1 * y.ratio.2) (x.ratio.2 * y.ratio.1)

end Binary64

end TableAccess
