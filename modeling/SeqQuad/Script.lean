import SeqQuad.Nonlinear.Solve

/-!
# Scripted answers

Collaborators that answer from a list, whatever they are asked: the first call gets the first
answer, and the last answer repeats.
-/

namespace SeqQuad.Script

/-- The answer to the call `k`, counted from one; an empty script has none. -/
def answer {β : Type} (script : List β) (k : Nat) : Option β :=
  script[min (k - 1) (script.length - 1)]?

variable {α : Type}

/-- A merit function that evaluates the function that its script has for the trial. -/
def merit {ω : Type} (script : List (List α → Evaluated α)) (trial : Nat) (x : List α) :
    Journaled ω (Failure EvaluationError) α := do
  let f ← .ofExcept (Failure.ofOption .index (answer script trial))
  .ofExcept (f x)

/-- A solver of subproblems that does not look at them. -/
def backend (script : List (Except (Nonlinear.BackendError α) (QuadraticSolution α))) :
    Nonlinear.Backend α :=
  fun iteration _ _ => do
    let result ← .ofExcept (Failure.ofOption .index (answer script iteration))
    .ofExcept (result.mapError .error)

end SeqQuad.Script
