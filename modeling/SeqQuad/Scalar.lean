/-!
# Scalars

The numbers that the method computes with. Every algorithm of the library is written over this
class, so one definition serves double precision and exact arithmetic.
-/

namespace SeqQuad

/-- An ordered arithmetic with an infinite value. Comparisons may fail both ways, as they do for
a value that is not a number. -/
class Scalar (α : Type) extends Zero α, One α, Add α, Sub α, Mul α, Div α, Neg α, NatCast α,
    OfScientific α, LT α, LE α where
  magnitude : α → α
  sqrt : α → α
  /-- Above every finite value. -/
  infinity : α
  /-- A number of multiplications by the factor after which one has fallen below the least
  normal double. -/
  backtracks : α → Nat
  decLt : (a b : α) → Decidable (a < b)
  decLe : (a b : α) → Decidable (a ≤ b)

namespace Scalar

variable {α : Type} [Scalar α]

instance decidableLt (a b : α) : Decidable (a < b) :=
  decLt a b

instance decidableLe (a b : α) : Decidable (a ≤ b) :=
  decLe a b

/-- The gap between one and the next double, `2^-52`. -/
def epsilon : α :=
  1 / (Nat.pow 2 52 : α)

/-- The least positive normal double, `2^-1022`. -/
def leastNormal : α :=
  1 / (Nat.pow 2 1022 : α)

/-- Only a value that is not a number fails to be at most itself. -/
def isNaN (a : α) : Bool :=
  !decide (a ≤ a)

def isFinite (a : α) : Bool :=
  decide (magnitude a < infinity)

/-- Equality of numbers: both zeros are equal, and a value that is not a number equals nothing.
-/
def same (a b : α) : Bool :=
  decide (a ≤ b) && decide (b ≤ a)

/-- The larger operand, of two equal ones the second; an operand that is not a number is
ignored. -/
def maxNum (a b : α) : α :=
  if isNaN b then a else if b < a then a else b

/-- The smaller operand, of two equal ones the second; an operand that is not a number is
ignored. -/
def minNum (a b : α) : α :=
  if isNaN b then a else if a < b then a else b

end Scalar

end SeqQuad
