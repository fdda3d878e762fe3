import SeqQuad.Curvature.Gershgorin
import SeqQuad.Nonlinear.Event

/-!
# Sequential quadratic programming

Each iteration poses a quadratic program from the linearized constraints and the curvature of
the Lagrangian, goes along its solution as far as the line search allows, and evaluates the
problem there. The state of a run is the iterate at the head of its loop; one iteration is a
function from one iterate to the next, and the run ends at the first head whose verdict is a
status.
-/

namespace SeqQuad.Nonlinear

open Scalar

variable {α : Type}

/-- Solves the quadratic program of an iteration, counted from one, starting at a point. -/
abbrev Backend (α : Type) :=
  Nat → QuadraticProgram α → List α →
    Journaled (InteriorPoint.Note α) (Failure (BackendError α)) (QuadraticSolution α)

/-- A checked problem with all that its solution is asked of. -/
structure Task (α : Type) where
  problem : Problem α
  curvature : Curvature α
  options : Options α
  backend : Backend α
  /-- Answers whether to stop. -/
  callback : Option (Snapshot α → Bool)

/-- What a run holds at the head of its loop. -/
structure Iterate (α : Type) where
  iter : Nat
  x : List α
  multipliers : Multipliers α
  f : α
  gradF : List α
  g : List α
  jacobian : SparseMatrix α
  /-- The gradient of the Lagrangian. -/
  gradLagrangian : List α
  /-- The curvature for the next subproblem, and the shift of its diagonal. -/
  hessian : SparseMatrix α
  regularization : α
  /-- The full step that led here. -/
  step : List α
  /-- The penalty for infeasibility. -/
  sigma : α
  merits : MeritWindow α
  searchTrials : Nat
  searchSuccess : Bool
  searchFailures : Nat

/-- The result of a run. -/
structure Solution (α : Type) where
  x : List α
  f : α
  g : List α
  multipliers : Multipliers α
  status : Status
  iterCount : Nat
  searchFailures : Nat

/-- A computation of the solver. -/
abbrev Run (α β : Type) :=
  Journaled (Event α) (Failure (SolveError α)) β

variable [Scalar α]

/-- The gradient of the objective plus the multiples of the constraint gradients and the bound
multipliers. -/
def lagrangianGradient (gradF : List α) (jacobian : SparseMatrix α) (lam : Multipliers α) :
    List α :=
  List.zipWith (· + ·) (List.zipWith (· + ·) gradF (jacobian.applyTranspose lam.g)) lam.x

/-- The gradient of the Lagrangian, refused unless there is a multiplier for every row of the
Jacobian. -/
def checkedLagrangianGradient (gradF : List α) (jacobian : SparseMatrix α)
    (lam : Multipliers α) : Except (Failure LengthMismatch) (List α) :=
  (jacobian.mulVecTranspose lam.g).map fun product =>
    List.zipWith (· + ·) (List.zipWith (· + ·) gradF product) lam.x

/-- A Hessian on a pattern that holds the diagonal, shifted if asked for, and the shift. It is
`none` when the stored entries cannot be listed. -/
def conditioned? (regularize : Bool) (h : SparseMatrix α) : Option (SparseMatrix α × α) :=
  h.withDiagonal?.map fun d => if regularize then Gershgorin.regularize d else (d, 0)

namespace Task

/-! ## Evaluation -/

/-- The objective at a trial point. -/
def objectiveAt (t : Task α) (moment : Moment) (x : List α) :
    Journaled (Event α) (Failure EvaluationError) α := do
  .note [.evaluation .objective x]
  let f ← .ofExcept (t.problem.objective.value moment x)
  .note [.note (.point x), .note (.objective f)]
  return f

/-- The constraint values at a trial point, none without constraints. -/
def constraintsAt (t : Task α) (moment : Moment) (x : List α) :
    Journaled (Event α) (Failure EvaluationError) (List α) :=
  match t.problem.constraints with
  | none => return []
  | some c => do
      .note [.evaluation .constraints x]
      let g ← .ofExcept (c.values moment x)
      if g.length ≠ t.problem.constraintCount then
        .fail (.error (.valueCount g.length t.problem.constraintCount))
      else
        .note [.note (.constraints g)]
        return g

/-- How far a point and its constraint values lie outside their bounds. -/
def infeasibilityAt (t : Task α) (x g : List α) : α :=
  primalInfeasibility x t.problem.xmin t.problem.xmax g t.problem.gmin t.problem.gmax

/-- The merit of a trial point under the penalty `sigma`. -/
def meritAt (t : Task α) (sigma : α) (moment : Moment) (x : List α) :
    Journaled (Event α) (Failure EvaluationError) α := do
  let f ← t.objectiveAt moment x
  let g ← t.constraintsAt moment x
  return l1Merit f sigma (t.infeasibilityAt x g)

/-- An evaluation that the run cannot do without. -/
def require {β : Type} (what : Evaluator) (x : List α) (answer : Evaluated β) : Run α β := do
  .note [.evaluation what x]
  match answer with
  | .ok b => return b
  | .error (.error cause) =>
      .note [.note (.evaluationFailed what cause)]
      .fail (.error (.evaluation what cause))
  | .error (.fault fault) => .fail (.fault fault)

/-- The objective and its gradient. -/
def gradientAt (t : Task α) (moment : Moment) (x : List α) : Run α (α × List α) := do
  let (f, gradF) ← require .gradient x (t.problem.objective.gradient moment x)
  if gradF.length ≠ t.problem.variableCount then
    .fail (.error (.problem (.gradientLength gradF.length t.problem.variableCount)))
  else
    .note [.note (.gradient gradF)]
    return (f, gradF)

/-- The constraint values and their Jacobian, both empty without constraints. -/
def jacobianAt (t : Task α) (moment : Moment) (x : List α) :
    Run α (List α × SparseMatrix α) :=
  let n := t.problem.variableCount
  let m := t.problem.constraintCount
  match t.problem.constraints with
  | none => return ([], .empty 0 n)
  | some c => do
      let (g, jac) ← require .jacobian x (c.jacobian moment x)
      if g.length ≠ m ∨ jac.height ≠ m ∨ jac.cols ≠ n then
        .fail (.error (.problem (.jacobianShape jac.height jac.cols g.length m n)))
      else
        .note [.note (.constraints g)]
        return (g, jac)

/-- The exact Hessian of the Lagrangian on a pattern that holds the diagonal, and the shift of
its diagonal. -/
def hessianAt (t : Task α) (hessian : LagrangianHessian α) (moment : Moment) (x lam : List α) :
    Run α (SparseMatrix α × α) := do
  let n := t.problem.variableCount
  let h ← require .hessian x (hessian moment x lam 1)
  if h.height ≠ n ∨ h.cols ≠ n then
    .fail (.error (.problem (.hessianShape h.height h.cols n)))
  else .ofExcept (Failure.ofOption .index (conditioned? t.options.regularize h))

/-! ## The head of the loop -/

def infeasibility (t : Task α) (s : Iterate α) : α :=
  t.infeasibilityAt s.x s.g

def record (t : Task α) (s : Iterate α) : IterationRecord α where
  iter := s.iter
  objective := s.f
  infPrimal := t.infeasibility s
  infDual := Vec.normInf s.gradLagrangian
  stepNorm := Vec.normInf s.step
  regularization := s.regularization
  sigma := s.sigma
  searchTrials := s.searchTrials
  searchSuccess := s.searchSuccess

def snapshot (t : Task α) (s : Iterate α) : Snapshot α where
  iter := s.iter
  f := s.f
  x := s.x
  g := s.g
  multipliers := s.multipliers
  infPrimal := t.infeasibility s
  infDual := Vec.normInf s.gradLagrangian
  stepNorm := Vec.normInf s.step
  searchTrials := s.searchTrials

/-- Whether the callback asks to stop here. -/
def stopRequested (t : Task α) (s : Iterate α) : Bool :=
  match t.callback with
  | none => false
  | some stop => stop (t.snapshot s)

/-- How the run ends at an iterate, if it does: the first condition that holds, in this order.
-/
def verdict (t : Task α) (s : Iterate α) : Option Status :=
  let r := t.record s
  if t.stopRequested s then some .userRequestedStop
  else if r.infPrimal < t.options.tolPrimal ∧ r.infDual < t.options.tolDual then some .converged
  else if t.options.maxIter ≤ s.iter then some .maxIterationsExceeded
  else if 0 < s.iter ∧ r.stepNorm ≤ t.options.minStepSize then some .stepTooSmall
  else none

/-- The lines of the iteration table, with its header before every tenth row. -/
def tableNotes (t : Task α) (s : Iterate α) : List (Event α) :=
  if t.options.printIteration then
    (if s.iter % 10 = 0 then [.note .tableHeader] else []) ++ [.note (.tableRow (t.record s))]
  else []

/-- What is recorded and shown at the head of the loop. -/
def headEvents (t : Task α) (s : Iterate α) : List (Event α) :=
  t.tableNotes s ++ [.recorded (t.record s)] ++
    if t.callback.isSome then [.shown (t.snapshot s)] else []

/-! ## One iteration -/

/-- The quadratic program at an iterate. -/
def subproblem (t : Task α) (s : Iterate α) : QuadraticProgram α where
  h := s.hessian
  g := s.gradF
  lbx := Vec.sub t.problem.xmin s.x
  ubx := Vec.sub t.problem.xmax s.x
  a := s.jacobian
  lba := Vec.sub t.problem.gmin s.g
  uba := Vec.sub t.problem.gmax s.g

/-- Solves the subproblem, from the last step on. -/
def solveSubproblem (t : Task α) (s : Iterate α) : Run α (QuadraticSolution α) := do
  let n := t.problem.variableCount
  let m := t.problem.constraintCount
  let qp := t.subproblem s
  .note [.note .formulating, .subproblem qp s.step]
  let sol ← (t.backend (s.iter + 1) qp s.step).mapEntries (.note <| .interiorPoint ·)
    (Failure.map .backend)
  if sol.x.length ≠ n ∨ sol.lamX.length ≠ n ∨ sol.lamA.length ≠ m then
    .fail (.error (.answerShape sol.x.length sol.lamX.length sol.lamA.length n m))
  else return sol

/-- The penalty dominates every multiplier of every subproblem so far. -/
def nextSigma (sigma : α) (sol : QuadraticSolution α) : α :=
  maxNum (maxNum sigma (1.01 * Vec.normInf sol.lamX)) (1.01 * Vec.normInf sol.lamA)

/-- The predicted change of merit for the full step. -/
def slope (t : Task α) (s : Iterate α) (sol : QuadraticSolution α) : α :=
  Vec.dot sol.x s.gradF - nextSigma s.sigma sol * t.infeasibility s

/-- The window of merit values that the search along a step compares with. -/
def nextMerits (t : Task α) (s : Iterate α) (sol : QuadraticSolution α) : MeritWindow α :=
  s.merits.push (l1Merit s.f (nextSigma s.sigma sol) (t.infeasibility s))

/-- The line search along the solution of the subproblem. -/
def search (t : Task α) (s : Iterate α) (sol : QuadraticSolution α) : LineSearch (Event α) α :=
  LineSearch.run t.options.search s.x sol.x (t.slope s sol) (t.nextMerits s sol) fun trial x =>
    t.meritAt (nextSigma s.sigma sol) ⟨s.iter + 1, trial⟩ x

/-- The multipliers after a step of length `t`: between the old ones and those of the
subproblem, or the latter when every step is full. -/
def nextMultipliers (t : Task α) (s : Iterate α) (sol : QuadraticSolution α) (length : α) :
    Multipliers α :=
  if 0 < t.options.maxSearchTrials then
    ⟨Vec.blend length sol.lamA s.multipliers.g, Vec.blend length sol.lamX s.multipliers.x⟩
  else ⟨sol.lamA, sol.lamX⟩

/-- The BFGS approximation after a step to `x`, with the gradients of the Lagrangian after and
before the step under the new multipliers. -/
def nextApproximation (t : Task α) (s : Iterate α) (x glag glagOld : List α) :
    Run α (SparseMatrix α) := do
  let due := (s.iter + 1) % t.options.resetPeriod = 0
  .noteIf due [.note .resetting]
  let start := if due then Bfgs.reset s.hessian else s.hessian
  let (b, outcome) ← .ofExcept
    (Failure.ofOption .index (Bfgs.update? start x s.x glag glagOld t.options.minCurvature))
  .note [.note (.updated outcome)]
  return b

/-- The curvature for the next subproblem and the shift of its diagonal. -/
def nextHessian (t : Task α) (s : Iterate α) (x glag : List α) (lam : Multipliers α) :
    Run α (SparseMatrix α × α) :=
  match t.curvature with
  | .exact hessian => t.hessianAt hessian ⟨s.iter + 1, 0⟩ x lam.g
  | .limitedMemory => do
      let b ← t.nextApproximation s x glag (lagrangianGradient s.gradF s.jacobian lam)
      return (b, s.regularization)

/-- One iteration: from the iterate at one head of the loop to the iterate at the next. -/
def step (t : Task α) (s : Iterate α) : Run α (Iterate α) := do
  let sol ← t.solveSubproblem s
  .note [.note (.step sol.x)]
  .ofExcept (Failure.ensure s.hessian.Readable .index)
  .noteIf (s.hessian.quadForm sol.x < 0) [.note .indefinite]
  let search := t.search s sol
  .note (search.journal fun n => .note (.search n))
  if let some fault := search.fault? then .fail (.fault fault)
  let lam := t.nextMultipliers s sol search.t
  let (g, jacobian) ← t.jacobianAt ⟨s.iter + 1, 0⟩ search.point
  let (f, gradF) ← t.gradientAt ⟨s.iter + 1, 0⟩ search.point
  .ofExcept (Failure.ensure jacobian.Readable .index)
  let glag := lagrangianGradient gradF jacobian lam
  let (hessian, regularization) ← t.nextHessian s search.point glag lam
  return {
    iter := s.iter + 1
    x := search.point
    multipliers := lam
    f := f
    gradF := gradF
    g := g
    jacobian := jacobian
    gradLagrangian := glag
    hessian := hessian
    regularization := regularization
    step := sol.x
    sigma := nextSigma s.sigma sol
    merits := t.nextMerits s sol
    searchTrials := search.trials.length
    searchSuccess := search.success
    searchFailures := s.searchFailures + if search.success then 0 else 1 }

/-! ## The run -/

/-- The first curvature and the shift of its diagonal. -/
def startHessian (t : Task α) (lam : Multipliers α) : Run α (SparseMatrix α × α) :=
  match t.curvature with
  | .exact hessian => t.hessianAt hessian ⟨0, 0⟩ t.problem.x0 lam.g
  | .limitedMemory => return (Bfgs.initial t.problem.variableCount, 0)

/-- The sizes of a problem whose first matrices are known. -/
def dimensions (t : Task α) (jacobian hessian : SparseMatrix α) : Dimensions :=
  ⟨t.options.hessian, t.problem.variableCount, t.problem.constraintCount, jacobian.stored,
    hessian.stored⟩

/-- The iterate at the first head of the loop. -/
def start (t : Task α) (lam : Multipliers α) : Run α (Iterate α) := do
  let x := t.problem.x0
  let (g, jacobian) ← t.jacobianAt ⟨0, 0⟩ x
  let (f, gradF) ← t.gradientAt ⟨0, 0⟩ x
  let (hessian, regularization) ← t.startHessian lam
  .noteIf t.options.printHeader [.note (.started (t.dimensions jacobian hessian))]
  .ofExcept (Failure.ensure jacobian.Readable .index)
  let merits ← .ofExcept (Failure.ofOption .room (MeritWindow.new? t.options.meritMemory))
  return {
    iter := 0
    x := x
    multipliers := lam
    f := f
    gradF := gradF
    g := g
    jacobian := jacobian
    gradLagrangian := lagrangianGradient gradF jacobian lam
    hessian := hessian
    regularization := regularization
    step := Vec.zeros t.problem.variableCount
    sigma := 0
    merits := merits
    searchTrials := 0
    searchSuccess := true
    searchFailures := 0 }

/-- Iterates until a verdict. The first argument counts the iterations left; at the last of them
the verdict is that the limit is reached. -/
def iterate (t : Task α) : Nat → Iterate α → Run α (Status × Iterate α)
  | left, s => do
      .note (t.headEvents s)
      match t.verdict s, left with
      | some status, _ =>
          .note [.note (.ended status s.iter)]
          return (status, s)
      | none, 0 => return (.maxIterationsExceeded, s)
      | none, left + 1 => do
          let next ← t.step s
          t.iterate left next

end Task

/-- Solves a nonlinear program. -/
def solve (opt : Options α) (backend : Backend α) (callback : Option (Snapshot α → Bool))
    (p : Problem α) : Run α (Solution α) := do
  let checked ← .ofExcept ((p.check opt).mapError fun cause => .error (.problem cause))
  let t : Task α := ⟨p, checked.curvature, opt, backend, callback⟩
  let first ← t.start checked.multipliers
  let (status, s) ← t.iterate opt.maxIter first
  .noteIf opt.printTime [.timesDue]
  return ⟨s.x, s.f, s.g, s.multipliers, status, s.iter, s.searchFailures⟩

/-- The interior point method as the solver of subproblems. -/
def interiorPointBackend (opt : InteriorPoint.Options α) (solver : LinearSolver α) : Backend α :=
  fun _ qp x0 => (InteriorPoint.solve opt solver qp x0).mapEntries id (Failure.map .interiorPoint)

end SeqQuad.Nonlinear
