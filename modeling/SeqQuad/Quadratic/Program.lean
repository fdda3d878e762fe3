import SeqQuad.SparseMatrix

/-!
# Quadratic programs

Minimize `1/2 * x' * H * x + g' * x` within bounds on `x` and on `A * x`. An infinite bound
leaves its side open.
-/

namespace SeqQuad

structure QuadraticProgram (α : Type) where
  /-- Symmetric, with both triangles stored. -/
  h : SparseMatrix α
  g : List α
  lbx : List α
  ubx : List α
  /-- The constraint matrix, one row for each constraint. -/
  a : SparseMatrix α
  lba : List α
  uba : List α

/-- A point and the multipliers of the bounds and of the constraint rows: positive for an active
upper bound, negative for an active lower bound. -/
structure QuadraticSolution (α : Type) where
  x : List α
  lamX : List α
  lamA : List α

namespace QuadraticProgram

variable {α : Type}

def variableCount (qp : QuadraticProgram α) : Nat :=
  qp.g.length

def rowCount (qp : QuadraticProgram α) : Nat :=
  qp.a.height

variable [Scalar α]

def objective (qp : QuadraticProgram α) (x : List α) : α :=
  0.5 * qp.h.quadForm x + Vec.dot qp.g x

/-- The objective at `x`, refused unless `x` has an entry for every column of the Hessian. -/
def checkedObjective (qp : QuadraticProgram α) (x : List α) :
    Except (Failure LengthMismatch) α :=
  (qp.h.checkedQuadForm x).map fun q => 0.5 * q + Vec.dot qp.g x

end QuadraticProgram

end SeqQuad
