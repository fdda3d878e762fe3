import SeqQuad.Decimal.Layout
import SeqQuad.Nonlinear.Event

/-!
# Wording of errors and statuses
-/

namespace SeqQuad

open Decimal

def LengthMismatch.message (e : LengthMismatch) : String :=
  s!"len(x) ({e.found}) != mat.cols ({e.expected})"

def EvaluationError.message : EvaluationError → String
  | failed text => text
  | valueCount found expected =>
      s!"constraint function returned {found} values, expected {expected}"

def LinearSystem.Error.message : LinearSystem.Error → String
  | shape rows cols length =>
      s!"KKT system dimension mismatch: {rows}x{cols} with rhs {length}"
  | solver text => s!"linear solve failed: {text}"

def InteriorPoint.Error.message : InteriorPoint.Error Float → String
  | fraction xi => s!"xi ({plain xi}) must be slightly less than 1"
  | centering sigma => s!"sigma ({plain sigma}) must be between 0 and 1"
  | dimensions start rows cols gradient =>
      s!"QP dimension mismatch: x0 has length {start}, H is {rows}x{cols}, " ++
        s!"g has length {gradient}"
  | columns found expected => s!"constraint matrix has {found} columns, expected {expected}"
  | linearSystem cause => cause.message
  | newtonStep => "did not converge: numerically failed (Newton step)"
  | numerical => "did not converge: numerically failed"
  | iterationLimit iterations => s!"did not converge in {iterations} iterations"

namespace Nonlinear

def OptionsError.message : OptionsError Float → String
  | beta value => s!"beta ({plain value}) must be between 0 and 1"
  | c1 value => s!"c1 ({plain value}) must be between 0 and 1"
  | meritMemory => "merit_memory must be at least 1"
  | resetPeriod => "lbfgs_memory must be at least 1"
  | minCurvature value => s!"min_curvature ({plain value}) must not be negative"

def Bounded.label : Bounded → String
  | point => "x"
  | values => "g"

def ProblemError.message : ProblemError Float → String
  | options cause => cause.message
  | boundCount what expected lower upper =>
      s!"bounds on {what.label} must have length {expected}, got {lower} and {upper}"
  | illPosed what index lower upper =>
      s!"ill-posed bounds on {what.label}[{index}]: {plain lower} > {plain upper}"
  | boundsWithoutConstraints count =>
      s!"{count} constraint bounds given without nonlinear constraints"
  | hessianMissing => "exact Hessian requested but no Lagrangian Hessian given"
  | multiplierCount expectedX expectedG foundX foundG =>
      s!"initial multipliers must have dimensions {expectedX} and {expectedG}, " ++
        s!"got {foundX} and {foundG}"
  | gradientLength found expected =>
      s!"objective gradient has length {found}, expected {expected}"
  | jacobianShape rows cols values expectedRows expectedCols =>
      s!"constraint Jacobian is {rows}x{cols} with {values} values, " ++
        s!"expected {expectedRows}x{expectedCols}"
  | hessianShape rows cols order =>
      s!"Lagrangian Hessian is {rows}x{cols}, expected {order}x{order}"

def Evaluator.label : Evaluator → String
  | objective => "eval_f"
  | gradient => "eval_grad_f"
  | constraints => "eval_g"
  | jacobian => "eval_jac_g"
  | hessian => "eval_h"

def BackendError.message : BackendError Float → String
  | interiorPoint cause => cause.message
  | external contexts text => ": ".intercalate (contexts ++ [text])

/-- The text of a problem that cannot be posed. -/
def invalidProblem (text : String) : String :=
  s!"invalid problem: {text}"

/-- The text of an evaluation that failed outside the line search. -/
def evaluationFailure (what : Evaluator) (text : String) : String :=
  s!"{what.label} failed: {text}"

/-- The text of a subproblem that was not solved. -/
def subproblemFailure (text : String) : String :=
  s!"QP solve failed: {text}"

def SolveError.message : SolveError Float → String
  | problem cause => invalidProblem cause.message
  | evaluation what cause => evaluationFailure what cause.message
  | backend cause => subproblemFailure cause.message
  | answerShape x lamX lamA nx ng =>
      subproblemFailure <|
        s!"solution has dimensions ({x}, {lamX}, {lamA}), " ++
          s!"expected ({nx}, {nx}, {ng})"

def Status.text : Status → String
  | converged => "Solve_Succeeded"
  | maxIterationsExceeded => "Maximum_Iterations_Exceeded"
  | stepTooSmall => "Search_Direction_Becomes_Too_Small"
  | userRequestedStop => "User_Requested_Stop"

end Nonlinear

end SeqQuad
