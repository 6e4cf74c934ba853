import TableAccess.Binary64.Basic

/-!
# The fewest decimal digits that read back

The numbers that round to a given `Binary64` fill an interval around it, whose ends belong to it
when the significand is even. Of the decimal grids of 1, 2, … 17 digits the first one that has a
point in the interval is taken, and of its points there the nearest to the number itself.
-/

namespace TableAccess.Binary64

/-- A decimal `digits · 10 ^ exponent`. -/
structure Decimal where
  digits : Nat
  exponent : Int
deriving DecidableEq, Repr

/-- An interval of quotients over the common denominator `den`, around `mid`. -/
structure Interval where
  low : Nat
  mid : Nat
  high : Nat
  den : Nat
  closed : Bool

/-- The magnitudes that round to that of `x`. -/
def interval (x : Binary64) : Interval :=
  let m := x.significand
  let (num, den) := ratio { x with significand := 1 }
  -- Below a power of two the numbers stand twice as close.
  let low := if m == hiddenBit && x.exponent > minExponent then 4 * m - 1 else 4 * m - 2
  ⟨low * num, 4 * m * num, (4 * m + 2) * num, 4 * den, m % 2 == 0⟩

/-- Whether `n / d` lies in the interval. -/
def Interval.holds (i : Interval) (n d : Nat) : Bool :=
  let p := n * i.den
  if i.closed then i.low * d ≤ p && p ≤ i.high * d else i.low * d < p && p < i.high * d

/-- The power `10 ^ e` as a quotient. -/
def tenPower (e : Int) : Nat × Nat :=
  match e with
  | .ofNat e => (Nat.pow 10 e, 1)
  | .negSucc e => (1, Nat.pow 10 (e + 1))

/-- The greatest `k` with `10 ^ k ≤ num / den`. -/
def decimalExponent (num den : Nat) : Int :=
  let guess : Int := (((num.log2 : Int) - (den.log2 : Int)) * 1233).fdiv 4096
  let fits (k : Int) : Bool := (tenPower k).1 * den ≤ num * (tenPower k).2
  if fits (guess + 1) then guess + 1
  else if fits guess then guess
  else if fits (guess - 1) then guess - 1
  else guess - 2

/-- The point nearest to the middle of the interval on the grid of step `10 ^ g`, if it lies in the
interval; of two points equally near the even one. -/
def onGrid (i : Interval) (g : Int) : Option Decimal :=
  let (tn, td) := tenPower g
  let low := i.mid * td / (i.den * tn)
  let below := i.mid * td - low * (i.den * tn)
  let above := (low + 1) * (i.den * tn) - i.mid * td
  let inLow := low != 0 && i.holds (low * tn) td
  let inHigh := i.holds ((low + 1) * tn) td
  let preferLow := below < above || (below == above && low % 2 == 0)
  if inLow && (preferLow || !inHigh) then some ⟨low, g⟩
  else if inHigh then some ⟨low + 1, g⟩
  else none

/-- The first hit on the grids of `digits`, `digits + 1`, … digits, `steps` of them. -/
def firstHit (i : Interval) (k : Int) : Nat → Int → Option Decimal
  | 0, _ => none
  | steps + 1, digits =>
    match onGrid i (k - digits + 1) with
    | some d => some d
    | none => firstHit i k steps (digits + 1)

/-- **The decimal of fewest digits that rounds to the magnitude of `x`.** -/
def shortest (x : Binary64) : Decimal :=
  if x.isZero then ⟨0, 0⟩
  else
    let (num, den) := x.ratio
    (firstHit x.interval (decimalExponent num den) 17 1).getD ⟨num / den, 0⟩

end TableAccess.Binary64
