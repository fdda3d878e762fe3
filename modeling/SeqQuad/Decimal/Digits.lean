import SeqQuad.Decimal.Binary

/-!
# Decimal digits of a double

Three ways to choose the digits of a positive value: the fewest that still read back to the same
double, a given number of significant digits, and a given number of places. All are computed in
exact arithmetic.
-/

namespace SeqQuad.Decimal

/-- The value `significand * 10 ^ exponent`. -/
structure Digits where
  significand : Nat
  exponent : Int

/-- The nearest natural number; of two, the even one. -/
def Ratio.round (r : Ratio) : Nat :=
  let q := r.num / r.den
  let twice := 2 * (r.num % r.den)
  if twice < r.den then q
  else if r.den < twice then q + 1
  else if q % 2 = 0 then q
  else q + 1

/-- Drops trailing zeros of the significand, at most the given number of them. -/
def Digits.trimUpTo : Nat → Digits → Digits
  | 0, d => d
  | n + 1, d =>
      if d.significand % 10 = 0 then trimUpTo n ⟨d.significand / 10, d.exponent + 1⟩ else d

/-- Drops all trailing zeros. -/
def Digits.trim (d : Digits) : Digits :=
  if d.significand = 0 then ⟨0, 0⟩ else d.trimUpTo (digitCount d.significand)

/-- The value rounded to `n` significant digits. -/
def Dyadic.significant (v : Dyadic) (n : Nat) : Digits :=
  if v.mantissa = 0 then ⟨0, 0⟩
  else
    let last := (v.scaled 0).leadingPlace - (n - 1)
    let q := (v.scaled (-last)).round
    if q = tenPow n then ⟨tenPow (n - 1), last + 1⟩ else ⟨q, last⟩

/-- The value in units of `10 ^ -places`, rounded. -/
def Dyadic.fixed (v : Dyadic) (places : Nat) : Nat :=
  (v.scaled places).round

/-! ## Fewest digits -/

/-- Whether the double below is only half as far away as the one above. -/
def Dyadic.narrowBelow (v : Dyadic) : Bool :=
  v.mantissa == twoPow 52 && v.exponent != Double.minExponent

/-- On the grid of multiples of `10 ^ last`, the neighbour of the value that reads back to it;
the nearer of two, and the upper one if both are as near. A neighbour reads back if it is less
than half way to the next double, or half way and the mantissa is even. -/
def Dyadic.onGrid? (v : Dyadic) (last : Int) : Option Digits :=
  let r := v.scaled (-last)
  let unit := Ratio.num (Dyadic.scaled ⟨1, v.exponent⟩ (-last))
  let lower := r.num / r.den
  let below := r.num % r.den
  let above := r.den - below
  let reads (distance reach : Nat) : Bool :=
    decide (4 * distance < reach) || (4 * distance == reach && v.mantissa % 2 == 0)
  let lowerReads := reads below (if v.narrowBelow then unit else 2 * unit)
  let upperReads := reads above (2 * unit)
  if lowerReads && (!upperReads || decide (below < above)) then some ⟨lower, last⟩
  else if upperReads then some ⟨lower + 1, last⟩
  else none

/-- Tries grids from the coarsest on, each ten times finer; the first argument counts those
left. -/
def Dyadic.shortestFrom (v : Dyadic) : Nat → Int → Digits
  | 0, _ => v.significant 17
  | n + 1, last =>
      match v.onGrid? last with
      | some d => d
      | none => v.shortestFrom n (last - 1)

/-- The fewest digits that read back to the value. Seventeen always do. -/
def Dyadic.shortest (v : Dyadic) : Digits :=
  if v.mantissa = 0 then ⟨0, 0⟩ else (v.shortestFrom 17 (v.scaled 0).leadingPlace).trim

end SeqQuad.Decimal
