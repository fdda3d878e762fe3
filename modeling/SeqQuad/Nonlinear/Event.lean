import SeqQuad.Curvature.Bfgs
import SeqQuad.Nonlinear.Problem

/-!
# Events of a run

Everything that happens during a solve, in order: the calls of the functions of the problem, of
the subproblem solver and of the callback, the records of the iterates, and the notes for a log.
Counts and records are read off the journal.
-/

namespace SeqQuad.Nonlinear

/-- The functions that a solver evaluates. -/
inductive Evaluator where
  | objective
  | gradient
  | constraints
  | jacobian
  | hessian
  deriving DecidableEq

/-- The values that are recorded for one iterate. -/
structure IterationRecord (α : Type) where
  iter : Nat
  objective : α
  infPrimal : α
  infDual : α
  /-- The size of the step that led to the iterate. -/
  stepNorm : α
  regularization : α
  /-- The penalty when the iterate was reached. -/
  sigma : α
  searchTrials : Nat
  searchSuccess : Bool

/-- What a callback is shown of an iterate. -/
structure Snapshot (α : Type) where
  iter : Nat
  f : α
  x : List α
  g : List α
  multipliers : Multipliers α
  infPrimal : α
  infDual : α
  stepNorm : α
  searchTrials : Nat

/-- How a run ended. -/
inductive Status where
  | converged
  | maxIterationsExceeded
  | stepTooSmall
  | userRequestedStop
  deriving DecidableEq

def Status.isSuccess (s : Status) : Bool :=
  s == .converged

/-- The sizes that are announced before the first iteration. -/
structure Dimensions where
  hessian : HessianSource
  variableCount : Nat
  constraintCount : Nat
  jacobianStored : Nat
  hessianStored : Nat

/-- Why the subproblem solver failed: the interior point method, or another solver with a text
and the texts it is wrapped in, outermost first. -/
inductive BackendError (α : Type) where
  | interiorPoint (cause : InteriorPoint.Error α)
  | external (contexts : List String) (message : String)

/-- Fatal errors of a run. -/
inductive SolveError (α : Type) where
  | problem (cause : ProblemError α)
  | evaluation (what : Evaluator) (cause : EvaluationError)
  | backend (cause : BackendError α)
  /-- The lengths of the answer of the subproblem solver. -/
  | answerShape (x lamX lamA variableCount constraintCount : Nat)

/-- Remarks for a log. -/
inductive Note (α : Type) where
  | started (dimensions : Dimensions)
  | tableHeader
  | tableRow (record : IterationRecord α)
  | ended (status : Status) (iter : Nat)
  | formulating
  | step (dx : List α)
  | indefinite
  | point (x : List α)
  | objective (f : α)
  | constraints (g : List α)
  | gradient (gradF : List α)
  | evaluationFailed (what : Evaluator) (cause : EvaluationError)
  | resetting
  | updated (outcome : Bfgs.Outcome α)
  | search (note : LineSearch.Note α)
  | interiorPoint (note : InteriorPoint.Note α)

inductive Event (α : Type) where
  /-- A function of the problem is called at a point. -/
  | evaluation (what : Evaluator) (x : List α)
  /-- The subproblem solver is called with a quadratic program and a starting point. -/
  | subproblem (qp : QuadraticProgram α) (start : List α)
  /-- The callback is called. -/
  | shown (snapshot : Snapshot α)
  | recorded (record : IterationRecord α)
  | note (n : Note α)
  /-- The place where a caller that holds a clock reports the times spent. -/
  | timesDue

namespace Event

variable {α : Type}

def isEvaluation (what : Evaluator) : Event α → Bool
  | evaluation w _ => w == what
  | _ => false

def isSubproblem : Event α → Bool
  | subproblem _ _ => true
  | _ => false

def isShown : Event α → Bool
  | shown _ => true
  | _ => false

def record? : Event α → Option (IterationRecord α)
  | recorded r => some r
  | _ => none

def snapshot? : Event α → Option (Snapshot α)
  | shown s => some s
  | _ => none

def subproblem? : Event α → Option (QuadraticProgram α × List α)
  | subproblem qp start => some (qp, start)
  | _ => none

def note? : Event α → Option (Note α)
  | note n => some n
  | _ => none

end Event

/-- Numbers of calls during a run. -/
structure CallCounts where
  objective : Nat
  gradient : Nat
  constraints : Nat
  jacobian : Nat
  hessian : Nat
  subproblems : Nat
  callback : Nat

/-- The numbers of calls in a journal. -/
def CallCounts.ofJournal {α : Type} (journal : List (Event α)) : CallCounts where
  objective := journal.countP (Event.isEvaluation .objective)
  gradient := journal.countP (Event.isEvaluation .gradient)
  constraints := journal.countP (Event.isEvaluation .constraints)
  jacobian := journal.countP (Event.isEvaluation .jacobian)
  hessian := journal.countP (Event.isEvaluation .hessian)
  subproblems := journal.countP Event.isSubproblem
  callback := journal.countP Event.isShown

/-- The records of the iterates, in order. -/
def records {α : Type} (journal : List (Event α)) : List (IterationRecord α) :=
  journal.filterMap Event.record?

/-- The snapshots that the callback was shown, in order. -/
def snapshots {α : Type} (journal : List (Event α)) : List (Snapshot α) :=
  journal.filterMap Event.snapshot?

/-- The quadratic programs that were posed, in order, each with its starting point. -/
def subproblems {α : Type} (journal : List (Event α)) : List (QuadraticProgram α × List α) :=
  journal.filterMap Event.subproblem?

/-- The notes for a log, in order. -/
def notes {α : Type} (journal : List (Event α)) : List (Note α) :=
  journal.filterMap Event.note?

end SeqQuad.Nonlinear
