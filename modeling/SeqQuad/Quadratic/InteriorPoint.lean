import SeqQuad.Journal
import SeqQuad.LinearSystem
import SeqQuad.Quadratic.Side

/-!
# Primal-dual interior point method

Every inequality gets a positive slack and a positive multiplier. Each iteration solves the
Newton equations of the perturbed optimality conditions, reduced to the point and the equality
multipliers, and goes a fraction of the way to the boundary.
-/

namespace SeqQuad.InteriorPoint

open Scalar

variable {α : Type}

structure Options (α : Type) where
  /-- Tolerances of the four residuals. -/
  feasTol : α
  gradTol : α
  compTol : α
  costTol : α
  /-- The most Newton iterations. -/
  maxIterations : Nat
  /-- The fraction of the way to the boundary that a step may go. -/
  xi : α
  /-- The share of the mean complementarity that the next perturbation keeps. -/
  sigma : α
  /-- The least slack and multiplier at the start. -/
  z0 : α
  /-- A shorter step is a failure. -/
  alphaMin : α
  /-- A longer reduced Newton step is a failure. -/
  maxStepSize : α

inductive Error (α : Type) where
  | fraction (xi : α)
  | centering (sigma : α)
  | dimensions (start hessianRows hessianCols gradient : Nat)
  | columns (found expected : Nat)
  | linearSystem (cause : LinearSystem.Error)
  | newtonStep
  | numerical
  | iterationLimit (iterations : Nat)

/-- The scaled residuals that end the iteration. -/
structure Residuals (α : Type) where
  feas : α
  grad : α
  comp : α
  cost : α

/-- A point with its slacks and multipliers, and all that is evaluated there. -/
structure Iterate (α : Type) where
  x : List α
  /-- Multipliers of the equalities. -/
  lam : List α
  /-- Slacks of the inequalities. -/
  z : List α
  /-- Multipliers of the inequalities. -/
  mu : List α
  /-- The perturbation of complementarity. -/
  gamma : α
  f : α
  /-- Residuals of the inequalities. -/
  h : List α
  /-- Residuals of the equalities. -/
  g : List α
  residuals : Residuals α

structure Direction (α : Type) where
  dx : List α
  dlam : List α
  dz : List α
  dmu : List α

/-- One iteration: its number, where it led, and the step lengths of the point and of the
multipliers. -/
structure Progress (α : Type) where
  iteration : Nat
  iterate : Iterate α
  alphaPrimal : α
  alphaDual : α

inductive Note (α : Type) where
  | iterated (progress : Progress α)
  | solved (iterations : Nat)

/-- A quadratic program whose dimensions agree and whose matrices can be read, taken apart into
sides. -/
structure Task (α : Type) where
  qp : QuadraticProgram α
  sides : Sides α

variable [Scalar α]

def Options.default : Options α where
  feasTol := 1e-9
  gradTol := 1e-9
  compTol := 1e-9
  costTol := 1e-9
  maxIterations := 150
  xi := 0.99995
  sigma := 0.1
  z0 := 1
  alphaMin := 1e-8
  maxStepSize := 1e10

/-- The options and dimensions that a solve needs, checked in this order. -/
def checkDimensions (opt : Options α) (qp : QuadraticProgram α) (x0 : List α) :
    Except (Error α) Unit :=
  let n := qp.variableCount
  if 1 ≤ opt.xi ∨ opt.xi < 0.5 then .error (.fraction opt.xi)
  else if 1 < opt.sigma ∨ opt.sigma ≤ 0 then .error (.centering opt.sigma)
  else if x0.length ≠ n ∨ qp.h.height ≠ n ∨ qp.h.cols ≠ n then
    .error (.dimensions x0.length qp.h.height qp.h.cols n)
  else if qp.a.cols ≠ n ∧ qp.rowCount ≠ 0 then .error (.columns qp.a.cols n)
  else .ok ()

/-- A program that passes the checks, taken apart. It is a fault if a bound is missing or a row
of the Hessian or of the constraints cannot be read. -/
def Task.check (opt : Options α) (qp : QuadraticProgram α) (x0 : List α) :
    Except (Failure (Error α)) (Task α) := do
  (checkDimensions opt qp x0).mapError .error
  let sides ← Failure.ofOption .index (Sides.ofProgram? qp)
  Failure.ensure qp.h.Readable .index
  return ⟨qp, sides⟩

/-! ## Evaluation -/

/-- The gradient of the Lagrangian. -/
def Task.lagrangianGradient (task : Task α) (x lam mu : List α) : List α :=
  (task.sides.weighted lam mu).foldl (fun acc e => Vec.scatter acc e.1.coef e.2)
    (List.zipWith (· + ·) (task.qp.h.apply x) task.qp.g)

/-- The relative change of the objective. -/
def costChange (f previous : α) : α :=
  magnitude (f - previous) / (1 + magnitude previous)

/-- The residuals at a point with its slacks and multipliers, where `h` and `g` are the residuals
of the sides. -/
def Task.residuals (task : Task α) (x lam z mu h g : List α) (cost : α) : Residuals α where
  feas := h.foldl maxNum (Vec.normInf g) / (1 + maxNum (Vec.normInf x) (Vec.normInf z))
  grad :=
    Vec.normInf (task.lagrangianGradient x lam mu) /
      (1 + maxNum (Vec.normInf lam) (Vec.normInf mu))
  comp := Vec.sum (List.zipWith (· * ·) z mu) / (1 + Vec.normInf x)
  cost := cost

/-- The iterate at a point, where `cost` measures the change of the objective that led there. -/
def Task.evaluate (task : Task α) (x lam z mu : List α) (gamma : α) (cost : α → α) :
    Iterate α :=
  let f := task.qp.objective x
  let h := task.sides.inequalities.map (·.residual x)
  let g := task.sides.equalities.map (·.residual x)
  ⟨x, lam, z, mu, gamma, f, h, g, task.residuals x lam z mu h g (cost f)⟩

def Residuals.satisfied (r : Residuals α) (opt : Options α) : Bool :=
  decide (r.feas < opt.feasTol) && decide (r.grad < opt.gradTol) && decide (r.comp < opt.compTol) &&
    decide (r.cost < opt.costTol)

/-- The slack that an inequality with residual `h` starts with. -/
def startSlack (z0 h : α) : α :=
  if h < -z0 then -h else z0

/-- The multiplier that an inequality with slack `z` starts with. -/
def startMultiplier (z0 gamma z : α) : α :=
  if z0 < gamma / z then gamma / z else z0

def Task.start (task : Task α) (opt : Options α) (x0 : List α) : Iterate α :=
  let z := task.sides.inequalities.map fun s => startSlack opt.z0 (s.residual x0)
  let mu := z.map (startMultiplier opt.z0 1)
  task.evaluate x0 (Vec.zeros task.sides.equalities.length) z mu 1 fun _ => 0

/-! ## Newton step -/

/-- The second-order terms that the inequalities add when their slacks and multipliers are
eliminated. -/
def eliminated (s : Side α) (z mu : α) : List (Triplet α) :=
  let d := mu / z
  s.coef.flatMap fun a => s.coef.map fun b => ⟨a.1, b.1, d * a.2 * b.2⟩

/-- The inequalities with their residuals, slacks and multipliers. -/
def Task.rows (task : Task α) (it : Iterate α) : List (Side α × α × α × α) :=
  task.sides.inequalities.zip (it.h.zip (it.z.zip it.mu))

/-- The terms that all inequalities add. -/
def Task.eliminatedTriplets (task : Task α) (it : Iterate α) : List (Triplet α) :=
  (task.rows it).flatMap fun (s, _, z, mu) => eliminated s z mu

/-- The matrix of the reduced equations, `none` when the entries of the Hessian cannot be listed
or lie outside it. -/
def Task.newtonMatrix? (task : Task α) (it : Iterate α) : Option (SparseMatrix α) := do
  let ts ← task.qp.h.toTriplets?
  LinearSystem.kktMatrix? task.qp.variableCount (ts ++ task.eliminatedTriplets it)
    (task.sides.equalities.map Side.coef)

def Task.newtonGradient (task : Task α) (it : Iterate α) : List α :=
  (task.rows it).foldl (fun acc (s, h, z, mu) => Vec.scatter acc s.coef ((mu * h + it.gamma) / z))
    (task.lagrangianGradient it.x it.lam it.mu)

/-- The full Newton step that belongs to a solution of the reduced equations. -/
def Task.expand (task : Task α) (it : Iterate α) (reduced : List α) : Direction α :=
  let dx := reduced.take task.qp.variableCount
  let dz := (task.rows it).map fun (s, h, z, _) => -h - z - s.dot dx
  let dmu := List.zipWith (fun (mu, z) dz => -mu + (it.gamma - mu * dz) / z) (it.mu.zip it.z) dz
  ⟨dx, reduced.drop task.qp.variableCount, dz, dmu⟩

/-- The Newton step of iteration `n`. -/
def Task.direction (task : Task α) (opt : Options α) (solver : LinearSolver α) (n : Nat)
    (it : Iterate α) : Except (Failure (Error α)) (Direction α) := do
  let K ← Failure.ofOption .index (task.newtonMatrix? it)
  let rhs := (task.newtonGradient it ++ it.g).map (- ·)
  let reduced ← (LinearSystem.solveSymmetric solver n K rhs).mapError
    (Failure.map .linearSystem)
  if reduced.any isNaN || decide (opt.maxStepSize < Vec.norm reduced) then
    throw (.error .newtonStep)
  return task.expand it reduced

/-- The step along `dv` that goes the fraction `xi` of the way to where an entry of `v`
vanishes, at most one. -/
def stepLength (xi : α) (v dv : List α) : α :=
  (((v.zip dv).filter fun e => e.2 < 0).map fun e => xi * (e.1 / -e.2)).foldl minNum 1

/-- The perturbation that follows slacks and multipliers; without inequalities it stays as it
is. -/
def nextGamma (sigma gamma : α) (z mu : List α) : α :=
  if z.isEmpty then gamma else sigma * Vec.sum (List.zipWith (· * ·) z mu) / (z.length : α)

/-- Goes along a direction, the point and slacks by one length and the multipliers by another.
-/
def Task.advance (task : Task α) (opt : Options α) (it : Iterate α) (d : Direction α) (n : Nat) :
    Progress α :=
  let alphaPrimal := stepLength opt.xi it.z d.dz
  let alphaDual := stepLength opt.xi it.mu d.dmu
  let z := Vec.along it.z d.dz alphaPrimal
  let mu := Vec.along it.mu d.dmu alphaDual
  let next := task.evaluate (Vec.along it.x d.dx alphaPrimal)
    (Vec.along it.lam d.dlam alphaDual) z mu (nextGamma opt.sigma it.gamma z mu)
    (costChange · it.f)
  ⟨n, next, alphaPrimal, alphaDual⟩

/-- One iteration. -/
def Task.step (task : Task α) (opt : Options α) (solver : LinearSolver α) (n : Nat)
    (it : Iterate α) : Except (Failure (Error α)) (Progress α) :=
  (task.direction opt solver n it).map fun d => task.advance opt it d n

/-- Signs that no further iteration will help. -/
def Progress.failed (p : Progress α) (opt : Options α) : Bool :=
  p.iterate.x.any isNaN || decide (p.alphaPrimal < opt.alphaMin) ||
    decide (p.alphaDual < opt.alphaMin) || decide (p.iterate.gamma < epsilon) ||
    decide (1 / epsilon < p.iterate.gamma)

/-! ## Iteration -/

/-- Iterates until the residuals are satisfied. The first argument counts the iterations left,
the second those made. -/
def Task.iterate (task : Task α) (opt : Options α) (solver : LinearSolver α) :
    Nat → Nat → Iterate α → Journaled (Note α) (Failure (Error α)) (Nat × Iterate α)
  | left, made, it =>
      if it.residuals.satisfied opt then pure (made, it)
      else
        match left with
        | 0 => .fail (.error (.iterationLimit made))
        | left + 1 => do
            let p ← .ofExcept (task.step opt solver (made + 1) it)
            .note [.iterated p]
            if !p.iterate.residuals.satisfied opt && p.failed opt then
              .fail (.error .numerical)
            else task.iterate opt solver left (made + 1) p.iterate

/-- The solution that an iterate stands for. -/
def Task.solution (task : Task α) (it : Iterate α) : QuadraticSolution α :=
  let lam := task.sides.multipliers task.qp.variableCount task.qp.rowCount it.lam it.mu
  ⟨it.x, lam.1, lam.2⟩

/-- Solves a quadratic program from the point `x0`. -/
def solve (opt : Options α) (solver : LinearSolver α) (qp : QuadraticProgram α) (x0 : List α) :
    Journaled (Note α) (Failure (Error α)) (QuadraticSolution α) := do
  let task ← .ofExcept (Task.check opt qp x0)
  let (made, it) ← task.iterate opt solver opt.maxIterations 0 (task.start opt x0)
  .note [.solved made]
  return task.solution it

end SeqQuad.InteriorPoint
