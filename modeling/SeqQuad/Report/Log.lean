import SeqQuad.Report.Message

/-!
# Log lines

The notes of a run as lines for a log, each with a level, and the tables of iterations and of
times.
-/

namespace SeqQuad

open Decimal

/-- Levels of a log, from the most severe on. -/
inductive Level where
  | warn
  | info
  | debug
  | trace
  deriving DecidableEq

def Level.label : Level → String
  | warn => "WARN"
  | info => "INFO"
  | debug => "DEBUG"
  | trace => "TRACE"

def Level.rank : Level → Nat
  | warn => 0
  | info => 1
  | debug => 2
  | trace => 3

structure LogLine where
  level : Level
  text : String

namespace LogLine

def render (l : LogLine) : String :=
  s!"{l.level.label} {l.text}"

/-- The lines that are at least as severe as a level. -/
def select (least : Level) (lines : List LogLine) : List LogLine :=
  lines.filter fun l => l.level.rank ≤ least.rank

end LogLine

/-! ## Parts of a run -/

/-- What is said of an update of the BFGS approximation. -/
def Bfgs.Outcome.lines : Bfgs.Outcome Float → List LogLine
  | applied _ => []
  | mismatch cause => [⟨.warn, s!"skipping BFGS update: {cause.message}"⟩]
  | curvature sy sBs =>
      let values := s!"{scientific sy}, s'Bs = {scientific sBs}"
      [⟨.debug, "skipping BFGS update: s'y = " ++ values⟩]

def LineSearch.Note.line : LineSearch.Note Float → LogLine
  | rejected trial cause => ⟨.debug, s!"line-search trial {trial} rejected: {cause.message}"⟩
  | accepted t => ⟨.debug, s!"line-search completed, candidate accepted (t = {plain t})"⟩
  | exhausted => ⟨.debug, "line-search completed, maximum number of iterations"⟩
  | stuck => ⟨.debug, "line-search failed, no trial point could be evaluated"⟩

/-- One line for one interior point iteration. -/
def InteriorPoint.Progress.text (p : InteriorPoint.Progress Float) : String :=
  let r := p.iterate.residuals
  let number := alignRight 3 (toString p.iteration)
  s!"ipm {number} f={scientific p.iterate.f} feas={scientific r.feas} " ++
    s!"grad={scientific r.grad} comp={scientific r.comp} cost={scientific r.cost} " ++
    s!"gamma={scientific p.iterate.gamma} alpha=({plain p.alphaPrimal}, {plain p.alphaDual})"

def InteriorPoint.Note.line : InteriorPoint.Note Float → LogLine
  | iterated progress => ⟨.trace, progress.text⟩
  | solved iterations => ⟨.debug, s!"QP solved in {iterations} interior point iterations"⟩

namespace Nonlinear

/-! ## The iteration table -/

def tableHeader : String :=
  alignRight 4 "iter" ++ alignRight 15 "objective" ++ alignRight 10 "inf_pr" ++
    alignRight 10 "inf_du" ++ alignRight 10 "||d||" ++ alignRight 7 "lg(rg)" ++
    alignRight 3 "ls" ++ " "

/-- The decimal logarithm of a positive shift, a dash without a shift. -/
def shiftText (shift : Float) : String :=
  if 0 < shift then fixedPlaces 2 shift.log10 else "-"

/-- A row of the table; a failed line search is marked at its end. -/
def IterationRecord.row (r : IterationRecord Float) : String :=
  alignRight 4 (toString r.iter) ++ alignRight 15 (scientificPlaces 6 r.objective) ++
    alignRight 10 (scientificPlaces 2 r.infPrimal) ++
    alignRight 10 (scientificPlaces 2 r.infDual) ++
    alignRight 10 (scientificPlaces 2 r.stepNorm) ++
    alignRight 7 (shiftText r.regularization) ++ alignRight 3 (toString r.searchTrials) ++
    if r.searchSuccess then " " else "F"

/-! ## Notes -/

/-- The announcement of a run. -/
def Dimensions.lines (d : Dimensions) : List String :=
  [ "-------------------------------------------",
    "This is sqpmethod.",
    match d.hessian with
    | .exact => "Using exact Hessian"
    | .limitedMemory => "Using limited memory BFGS Hessian approximation",
    "Number of variables:                       " ++ alignRight 9 (toString d.variableCount),
    "Number of constraints:                     " ++ alignRight 9 (toString d.constraintCount),
    "Number of nonzeros in constraint Jacobian: " ++ alignRight 9 (toString d.jacobianStored),
    "Number of nonzeros in Lagrangian Hessian:  " ++ alignRight 9 (toString d.hessianStored) ]

/-- The last remark of a run. -/
def Status.remark (iter : Nat) : Status → String
  | converged => s!"sqpmethod: Convergence achieved after {iter} iterations."
  | maxIterationsExceeded => "sqpmethod: Maximum number of iterations reached."
  | stepTooSmall =>
      "sqpmethod: Search direction becomes too small without convergence criteria being met."
  | userRequestedStop => "sqpmethod: aborted by callback..."

def Note.lines : Note Float → List LogLine
  | started d => d.lines.map (⟨.info, ·⟩)
  | tableHeader => [⟨.info, Nonlinear.tableHeader⟩]
  | tableRow r => [⟨.info, r.row⟩]
  | ended status iter => [⟨.info, status.remark iter⟩]
  | formulating => [⟨.debug, "formulating QP"⟩]
  | step dx => [⟨.trace, "dx = " ++ adaptiveList dx⟩]
  | indefinite => [⟨.warn, "Indefinite Hessian detected..."⟩]
  | point x => [⟨.trace, "x = " ++ adaptiveList x⟩]
  | objective f => [⟨.trace, "f = " ++ plain f⟩]
  | constraints g => [⟨.trace, "g = " ++ adaptiveList g⟩]
  | gradient gradF => [⟨.trace, "grad_f = " ++ adaptiveList gradF⟩]
  | evaluationFailed what cause => [⟨.warn, evaluationFailure what cause.message⟩]
  | resetting => [⟨.debug, "resetting BFGS approximation to its diagonal"⟩]
  | updated outcome => outcome.lines
  | search n => [n.line]
  | interiorPoint n => [n.line]

/-- The log of a run. -/
def logLines (journal : List (Event Float)) : List LogLine :=
  (notes journal).flatMap Note.lines

/-! ## Times -/

/-- The time spent in one phase of a run, as whole seconds and the nanoseconds beyond them, and
how often the phase was entered. -/
structure Timing where
  seconds : Nat
  nanoseconds : Nat
  calls : Nat

namespace Timing

/-- A phase that was never entered. -/
def zero : Timing :=
  ⟨0, 0, 0⟩

/-- A time whose nanoseconds may make up further seconds, `none` when 64 bits cannot hold the
seconds. -/
def ofParts? (seconds nanoseconds calls : Nat) : Option Timing :=
  let whole := seconds + nanoseconds / 1000000000
  if whole < 0x10000000000000000 then some ⟨whole, nanoseconds % 1000000000, calls⟩
  else none

def inSeconds (t : Timing) : Float :=
  t.seconds.toFloat + t.nanoseconds.toFloat / 1e9

/-- The mean time of a call in milliseconds. -/
def averageMilliseconds (t : Timing) : Float :=
  if t.calls = 0 then 0 else t.inSeconds * 1000.0 / t.calls.toFloat

/-- The time of a phase without the number of its calls. -/
def total (t : Timing) (phase : String) : String :=
  s!"time spent in {phase}: {fixedPlaces 6 t.inSeconds} s."

/-- The time of a phase, with the mean if it was entered. -/
def line (t : Timing) (phase : String) : String :=
  if 0 < t.calls then
    s!"{t.total phase} ({t.calls} calls, {fixedPlaces 4 t.averageMilliseconds} ms. average)"
  else t.total phase

end Timing

/-- The times of all phases. -/
structure Timings where
  objective : Timing
  gradient : Timing
  constraints : Timing
  jacobian : Timing
  hessian : Timing
  subproblems : Timing
  callback : Timing
  mainLoop : Timing

def Timings.lines (t : Timings) : List LogLine :=
  [ t.objective.line Evaluator.objective.label,
    t.gradient.line Evaluator.gradient.label,
    t.constraints.line Evaluator.constraints.label,
    t.jacobian.line Evaluator.jacobian.label,
    t.hessian.line Evaluator.hessian.label,
    t.subproblems.line "qp",
    t.mainLoop.total "main loop",
    t.callback.total "callback function" ].map (⟨.info, ·⟩)

end Nonlinear

end SeqQuad
