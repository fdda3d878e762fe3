import SeqQuad.Decimal.Digits

/-!
# Written numbers

How a double is written: in positional or scientific notation, with the fewest digits that read
back or with a given number of them. A negative sign is kept for zero.
-/

namespace SeqQuad.Decimal

/-- The texts for what is not finite. -/
structure Words where
  nan : String
  infinity : String

/-- Writes a double, given how to write a magnitude. -/
def write (words : Words) (magnitude : Dyadic → String) (x : Float) : String :=
  let signed (negative : Bool) (text : String) : String := if negative then "-" ++ text else text
  match Double.ofFloat x with
  | .nan => words.nan
  | .infinite negative => signed negative words.infinity
  | .finite negative v => signed negative (magnitude v)

/-- The words of reports and messages. -/
def plainWords : Words :=
  ⟨"NaN", "inf"⟩

def zeros (n : Nat) : String :=
  String.ofList (List.replicate n '0')

/-- Pads with zeros on the left. -/
def padZeros (width : Nat) (text : String) : String :=
  zeros (width - text.length) ++ text

/-- A count of units of `10 ^ -places`, with the point before the last `places` digits. -/
def pointed (n places : Nat) : String :=
  if places = 0 then n.repr
  else (n / tenPow places).repr ++ "." ++ padZeros places (n % tenPow places).repr

/-- Positional notation, without a point if the value is whole. -/
def positional (d : Digits) : String :=
  if 0 ≤ d.exponent then (d.significand * tenPow d.exponent.toNat).repr
  else pointed d.significand (-d.exponent).toNat

/-- Scientific notation with all digits that are given: one before the point, the others after
it. -/
def scientificDigits (d : Digits) : String :=
  let text := d.significand.repr
  let rest := text.length - 1
  let mantissa := if rest = 0 then text else pointed d.significand rest
  mantissa ++ "e" ++ toString (d.exponent + rest)

/-! ## Formats -/

/-- Positional, with the fewest digits. -/
def plain : Float → String :=
  write plainWords fun v => positional v.shortest

/-- Scientific, with the fewest digits. -/
def scientific : Float → String :=
  write plainWords fun v => scientificDigits v.shortest

/-- The fewest digits: positional with at least one decimal from `1e-4` up to below `1e16`, and
for zero; scientific elsewhere. -/
def adaptive : Float → String :=
  write plainWords fun v =>
    let d := v.shortest
    let place := d.exponent + (digitCount d.significand - 1 : Nat)
    if d.significand = 0 ∨ (-4 ≤ place ∧ place < 16) then
      if 0 ≤ d.exponent then positional d ++ ".0" else positional d
    else scientificDigits d

/-- Positional, rounded to a number of decimals. -/
def fixedPlaces (places : Nat) : Float → String :=
  write plainWords fun v => pointed (v.fixed places) places

/-- Scientific, rounded to a number of decimals. -/
def scientificPlaces (places : Nat) : Float → String :=
  write plainWords fun v =>
    if v.mantissa = 0 then pointed 0 places ++ "e0"
    else scientificDigits (v.significant (places + 1))

/-- Scientific, rounded to a number of significant digits and without trailing zeros. Zero has
no sign. -/
def scientificTrimmed (digits : Nat) (x : Float) : String :=
  if x == 0 then "0"
  else write ⟨"nan", "inf"⟩ (fun v => scientificDigits (v.significant digits).trim) x

/-- A list in brackets, each entry with the fewest digits. -/
def adaptiveList (xs : List Float) : String :=
  "[" ++ ", ".intercalate (xs.map adaptive) ++ "]"

/-- Pads with spaces on the left. -/
def alignRight (width : Nat) (text : String) : String :=
  String.ofList (List.replicate (width - text.length) ' ') ++ text

end SeqQuad.Decimal
