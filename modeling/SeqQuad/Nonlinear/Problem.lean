import SeqQuad.Nonlinear.Options
import SeqQuad.Quadratic.InteriorPoint

/-!
# Nonlinear programs

Minimize an objective within bounds on the point and on the constraint values. A problem is
checked before the first evaluation; what passes is a problem whose vectors have the lengths
that the solver counts on.
-/

namespace SeqQuad.Nonlinear

variable {α : Type}

/-- Multipliers of the constraints and of the bounds on the point: positive for an active upper
bound, negative for an active lower bound. -/
structure Multipliers (α : Type) where
  g : List α
  x : List α

/-- Which vector a pair of bounds belongs to. -/
inductive Bounded where
  | point
  | values
  deriving DecidableEq

/-- Inconsistent dimensions, bounds or options. -/
inductive ProblemError (α : Type) where
  | options (cause : OptionsError α)
  | boundCount (what : Bounded) (expected lower upper : Nat)
  | illPosed (what : Bounded) (index : Nat) (lower upper : α)
  | boundsWithoutConstraints (count : Nat)
  | hessianMissing
  | multiplierCount (expectedX expectedG foundX foundG : Nat)
  | gradientLength (found expected : Nat)
  | jacobianShape (rows cols values expectedRows expectedCols : Nat)
  | hessianShape (rows cols order : Nat)

structure Problem (α : Type) where
  objective : Objective α
  constraints : Option (Constraints α)
  hessian : Option (LagrangianHessian α)
  x0 : List α
  xmin : List α
  xmax : List α
  gmin : List α
  gmax : List α
  /-- The first multiplier estimates, zero if absent. -/
  multipliers : Option (Multipliers α)

/-- The source of curvature, with the function it needs. -/
inductive Curvature (α : Type) where
  | exact (hessian : LagrangianHessian α)
  | limitedMemory

/-- What a check of a problem settles. -/
structure Checked (α : Type) where
  curvature : Curvature α
  multipliers : Multipliers α

namespace Problem

def variableCount (p : Problem α) : Nat :=
  p.x0.length

def constraintCount (p : Problem α) : Nat :=
  p.gmin.length

variable [Scalar α]

/-- Bounds must come in pairs of the right number, each lower bound at most its upper bound. -/
def checkBounds (what : Bounded) (n : Nat) (lower upper : List α) :
    Except (ProblemError α) Unit :=
  if lower.length ≠ n ∨ upper.length ≠ n then
    .error (.boundCount what n lower.length upper.length)
  else
    match (lower.zip upper).zipIdx.find? fun e => !decide (e.1.1 ≤ e.1.2) with
    | some ((l, u), i) => .error (.illPosed what i l u)
    | none => .ok ()

/-- The source of curvature that the options ask for. -/
def curvature (p : Problem α) (source : HessianSource) : Except (ProblemError α) (Curvature α) :=
  match source, p.hessian with
  | .limitedMemory, _ => .ok .limitedMemory
  | .exact, some hessian => .ok (.exact hessian)
  | .exact, none => .error .hessianMissing

/-- The multipliers to start from. -/
def startMultipliers (p : Problem α) : Except (ProblemError α) (Multipliers α) :=
  let n := p.variableCount
  let m := p.constraintCount
  match p.multipliers with
  | none => .ok ⟨Vec.zeros m, Vec.zeros n⟩
  | some lam =>
      if lam.x.length ≠ n ∨ lam.g.length ≠ m then
        .error (.multiplierCount n m lam.x.length lam.g.length)
      else .ok lam

/-- All checks before the first evaluation, in order. -/
def check (opt : Options α) (p : Problem α) : Except (ProblemError α) (Checked α) := do
  opt.validate.mapError .options
  checkBounds .point p.variableCount p.xmin p.xmax
  checkBounds .values p.constraintCount p.gmin p.gmax
  if p.constraints.isNone && p.constraintCount != 0 then
    throw (.boundsWithoutConstraints p.constraintCount)
  let curvature ← p.curvature opt.hessian
  let multipliers ← p.startMultipliers
  return ⟨curvature, multipliers⟩

end Problem

end SeqQuad.Nonlinear
