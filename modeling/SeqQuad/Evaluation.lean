import SeqQuad.SparseMatrix

/-!
# Functions of a problem

The functions that a nonlinear program is made of, as a solver meets them: each may fail at a
point, and each is told the moment of the call, so an answer may change from one call to the
next. A function that ignores the moment always answers alike.
-/

namespace SeqQuad

/-- Why no value exists at a point. -/
inductive EvaluationError where
  /-- The function itself failed. -/
  | failed (message : String)
  /-- The constraint function gave the wrong number of values. -/
  | valueCount (found expected : Nat)

/-- What a function answers at a point. -/
abbrev Evaluated (β : Type) :=
  Except (Failure EvaluationError) β

/-- When a function is called: in which iteration, and in which trial of its line search, zero
outside the search. No function is called twice at one moment. -/
structure Moment where
  iteration : Nat
  trial : Nat

structure Objective (α : Type) where
  value : Moment → List α → Evaluated α
  /-- The value and the gradient. -/
  gradient : Moment → List α → Evaluated (α × List α)

structure Constraints (α : Type) where
  values : Moment → List α → Evaluated (List α)
  /-- The values and the Jacobian, one row for each value. -/
  jacobian : Moment → List α → Evaluated (List α × SparseMatrix α)

/-- The second derivative of `sigma * f + lam * g` by the point, given the point, `lam` and
`sigma`. -/
abbrev LagrangianHessian (α : Type) :=
  Moment → List α → List α → α → Evaluated (SparseMatrix α)

end SeqQuad
