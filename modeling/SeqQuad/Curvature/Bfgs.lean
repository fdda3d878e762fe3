import SeqQuad.SparseMatrix.Assembly

/-!
# Damped BFGS approximation

The approximation of the curvature of the Lagrangian is updated from a step `s` and the change
`y` of the gradient. Where the curvature along the step is too small, `y` is moved toward `B *
s`, which keeps the approximation positive definite; where a divisor is too small or not finite,
the update is skipped.
-/

namespace SeqQuad.Bfgs

open Scalar

variable {α : Type}

inductive Outcome (α : Type) where
  /-- Updated; the damping factor is one when `y` was used as it is. -/
  | applied (omega : α)
  /-- Skipped: the step does not fit the approximation. -/
  | mismatch (cause : LengthMismatch)
  /-- Skipped: the curvatures along the step by the gradients and by the approximation. -/
  | curvature (sy sBs : α)

variable [Scalar α]

/-- The damping factor for the curvatures `sy` of the gradients and `sBs` of the approximation.
-/
def damping (sy sBs : α) : α :=
  if sy < 0.2 * sBs then 0.8 * sBs / (sBs - sy) else 1

/-- The gradient change moved toward `q = B * s` by the damping factor. -/
def damped (omega : α) (y q : List α) : List α :=
  if same omega 1 then y else Vec.mergeWith (fun yi qi => omega * yi + (1 - omega) * qi) y q

/-- A curvature that an update may not divide by. -/
def unusable (curvature minCurvature : α) : Bool :=
  decide (magnitude curvature ≤ minCurvature) || !isFinite curvature

/-- The update of `b` for the step `x - xOld` and the gradient change `glag - glagOld`. It is
`none` when the step or a gradient has no coordinate for a stored position. -/
def update? (b : SparseMatrix α) (x xOld glag glagOld : List α) (minCurvature : α) :
    Option (SparseMatrix α × Outcome α) :=
  let s := Vec.sub x xOld
  match b.mulVec s with
  | .error (.error cause) => some (b, .mismatch cause)
  | .error (.fault _) => none
  | .ok q => do
      let change := Vec.sub glag glagOld
      let sBs := Vec.dot s q
      let omega := damping (Vec.dot s change) sBs
      let y := damped omega change q
      let sy := Vec.dot s y
      if unusable sy minCurvature || unusable sBs minCurvature then
        some (b, .curvature sy sBs)
      else
        let grown ← b.addOuter? (1 / sy) y y
        let balanced ← grown.addOuter? (-(1 / sBs)) q q
        some (balanced, .applied omega)

/-- The start of the approximation: the identity with every position stored. -/
def initial (n : Nat) : SparseMatrix α :=
  SparseMatrix.denseIdentity n 1

/-- Drops all but the diagonal of the approximation. -/
def reset (b : SparseMatrix α) : SparseMatrix α :=
  b.clearOffDiagonal

end SeqQuad.Bfgs
