/-!
# Doubles as exact numbers

A double is not a number, infinite, or a sign with a natural number times a power of two.
-/

namespace SeqQuad.Decimal

def twoPow (n : Nat) : Nat :=
  Nat.pow 2 n

def tenPow (n : Nat) : Nat :=
  Nat.pow 10 n

/-- The positive value `mantissa * 2 ^ exponent`, or zero. -/
structure Dyadic where
  mantissa : Nat
  exponent : Int

inductive Double where
  | nan
  | infinite (negative : Bool)
  | finite (negative : Bool) (magnitude : Dyadic)

namespace Double

/-- The least exponent of a double. -/
def minExponent : Int :=
  -1074

def ofFloat (x : Float) : Double :=
  let bits := x.toBits.toNat
  let negative := bits / twoPow 63 == 1
  let biased : Nat := bits / twoPow 52 % twoPow 11
  let fraction := bits % twoPow 52
  if biased = twoPow 11 - 1 then (if fraction = 0 then .infinite negative else .nan)
  else if biased = 0 then .finite negative ⟨fraction, minExponent⟩
  else .finite negative ⟨twoPow 52 + fraction, minExponent + biased - 1⟩

end Double

/-- The quotient of two natural numbers. -/
structure Ratio where
  num : Nat
  den : Nat

/-- The value times `10 ^ places`. -/
def Dyadic.scaled (v : Dyadic) (places : Int) : Ratio where
  num := v.mantissa * twoPow v.exponent.toNat * tenPow places.toNat
  den := twoPow (-v.exponent).toNat * tenPow (-places).toNat

/-- The number of decimal digits, one for zero. -/
def digitCount (n : Nat) : Nat :=
  n.repr.length

/-- The exponent of the first decimal digit of a positive ratio. -/
def Ratio.leadingPlace (r : Ratio) : Int :=
  if r.den ≤ r.num then digitCount (r.num / r.den) - 1
  else
    let n := digitCount (r.den / r.num)
    if r.den ≤ r.num * tenPow (n - 1) then 1 - n else -n

end SeqQuad.Decimal
