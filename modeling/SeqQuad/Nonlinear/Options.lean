import SeqQuad.LineSearch

/-!
# Options of the solver
-/

namespace SeqQuad.Nonlinear

variable {α : Type}

/-- Where the curvature of the subproblems comes from. -/
inductive HessianSource where
  /-- The second derivative of the Lagrangian. -/
  | exact
  /-- The damped BFGS approximation, reset to its diagonal from time to time. -/
  | limitedMemory
  deriving DecidableEq

structure Options (α : Type) where
  maxIter : Nat
  /-- The limit of line-search trials; zero takes every full step. -/
  maxSearchTrials : Nat
  /-- Tolerance of the primal infeasibility. -/
  tolPrimal : α
  /-- Tolerance of the gradient of the Lagrangian. -/
  tolDual : α
  c1 : α
  beta : α
  /-- The number of merit values that a line search compares with. -/
  meritMemory : Nat
  /-- The number of iterations between resets of the BFGS approximation. -/
  resetPeriod : Nat
  /-- Whether the exact Hessian is shifted to have no negative Gershgorin bound. -/
  regularize : Bool
  /-- A step that is no larger ends the run. -/
  minStepSize : α
  hessian : HessianSource
  /-- Smaller curvatures skip the BFGS update. -/
  minCurvature : α
  printHeader : Bool
  printIteration : Bool
  printTime : Bool

/-- An option outside its range. -/
inductive OptionsError (α : Type) where
  | beta (value : α)
  | c1 (value : α)
  | meritMemory
  | resetPeriod
  | minCurvature (value : α)

namespace Options

variable [Scalar α]

def default : Options α where
  maxIter := 50
  maxSearchTrials := 3
  tolPrimal := 1e-6
  tolDual := 1e-6
  c1 := 1e-4
  beta := 0.8
  meritMemory := 4
  resetPeriod := 10
  regularize := false
  minStepSize := 1e-10
  hessian := .exact
  minCurvature := 1e-14
  printHeader := true
  printIteration := true
  printTime := true

/-- The first option that is out of range, in the order of the checks. -/
def validate (opt : Options α) : Except (OptionsError α) Unit :=
  if ¬(0 < opt.beta ∧ opt.beta < 1) then .error (.beta opt.beta)
  else if ¬(0 < opt.c1 ∧ opt.c1 < 1) then .error (.c1 opt.c1)
  else if opt.meritMemory = 0 then .error .meritMemory
  else if opt.resetPeriod = 0 then .error .resetPeriod
  else if opt.minCurvature < 0 then .error (.minCurvature opt.minCurvature)
  else .ok ()

/-- What the line search needs to know. -/
def search (opt : Options α) : LineSearch.Options α :=
  ⟨opt.maxSearchTrials, opt.c1, opt.beta⟩

end Options

end SeqQuad.Nonlinear
