import SeqQuad.Evaluation
import SeqQuad.SparseMatrix.Assembly

/-!
# Expressions

Functions of a problem given as expressions in the point, the multipliers and the weight of the
objective. Operands are evaluated from left to right, and the first failure is the result.
-/

namespace SeqQuad

open Scalar

inductive Expression (α : Type) where
  | literal (value : α)
  /-- A coordinate of the point. -/
  | coordinate (i : Nat)
  /-- A multiplier. -/
  | multiplier (i : Nat)
  /-- The weight of the objective. -/
  | weight
  | add (a b : Expression α)
  | sub (a b : Expression α)
  | mul (a b : Expression α)
  | div (a b : Expression α)
  | neg (a : Expression α)
  | sqrt (a : Expression α)
  | abs (a : Expression α)
  | power (a : Expression α) (n : Nat)
  /-- The value of the last part where the condition is positive, a failure elsewhere. -/
  | guarded (condition : Expression α) (message : String) (a : Expression α)
  | failing (message : String)

/-- The values that an expression speaks of. -/
structure Setting (α : Type) where
  point : List α
  multipliers : List α
  weight : α

namespace Expression

variable {α : Type} [Scalar α]

/-- The product of `n` factors, from one. -/
def powerOf (a : α) (n : Nat) : α :=
  n.repeat (· * a) 1

/-- The entry `i` of a vector, which must be there. -/
def entry (v : List α) (i : Nat) : Evaluated α :=
  Failure.ofOption .index v[i]?

def eval (s : Setting α) : Expression α → Evaluated α
  | literal value => .ok value
  | coordinate i => entry s.point i
  | multiplier i => entry s.multipliers i
  | weight => .ok s.weight
  | add a b => do return (← a.eval s) + (← b.eval s)
  | sub a b => do return (← a.eval s) - (← b.eval s)
  | mul a b => do return (← a.eval s) * (← b.eval s)
  | div a b => do return (← a.eval s) / (← b.eval s)
  | neg a => do return -(← a.eval s)
  | sqrt a => do return Scalar.sqrt (← a.eval s)
  | abs a => do return Scalar.magnitude (← a.eval s)
  | power a n => do return powerOf (← a.eval s) n
  | guarded condition message a => do
      if 0 < (← condition.eval s) then a.eval s
      else .error (.error (.failed message))
  | failing message => .error (.error (.failed message))

/-- The value at a point of an expression without multipliers. -/
def valueAt (e : Expression α) (x : List α) : Evaluated α :=
  e.eval ⟨x, [], 1⟩

/-- The values of several expressions, in order. -/
def evalAll (s : Setting α) (es : List (Expression α)) : Evaluated (List α) :=
  es.mapM (·.eval s)

/-- An objective and its gradient; the value comes first. -/
def objective (f : Expression α) (gradient : List (Expression α)) : Objective α where
  value := fun _ => f.valueAt
  gradient := fun _ x => do
    let value ← f.valueAt x
    return (value, ← evalAll ⟨x, [], 1⟩ gradient)

end Expression

/-- A matrix of expressions: its dimensions and the entries by position. -/
structure ExpressionMatrix (α : Type) where
  height : Nat
  cols : Nat
  entries : List (Triplet (Expression α))

namespace ExpressionMatrix

variable {α : Type} [Scalar α]

/-- The matrix of the values, all of which come before it is assembled. It is a fault if an entry
lies below the last row. -/
def eval (s : Setting α) (m : ExpressionMatrix α) : Evaluated (SparseMatrix α) := do
  let ts ← m.entries.mapM fun t => return ⟨t.row, t.col, ← t.value.eval s⟩
  Failure.ofOption .index (SparseMatrix.ofTriplets? m.height m.cols ts)

/-- Constraints with their values when called for values, their values when called for the
Jacobian, and the Jacobian; there the values come first. -/
def constraints (values valuesWithJacobian : List (Expression α))
    (jacobian : ExpressionMatrix α) : Constraints α where
  values := fun _ x => Expression.evalAll ⟨x, [], 1⟩ values
  jacobian := fun _ x => do
    let g ← Expression.evalAll ⟨x, [], 1⟩ valuesWithJacobian
    return (g, ← jacobian.eval ⟨x, [], 1⟩)

/-- A Hessian in the point, the multipliers and the weight of the objective. -/
def hessian (m : ExpressionMatrix α) : LagrangianHessian α :=
  fun _ x lam sigma => m.eval ⟨x, lam, sigma⟩

end ExpressionMatrix

end SeqQuad
