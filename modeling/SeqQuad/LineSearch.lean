import SeqQuad.Evaluation
import SeqQuad.Journal
import SeqQuad.Merit

/-!
# Backtracking line search

The step is shortened until the merit has decreased enough against the largest recent value. A
trial point that cannot be evaluated is never the answer: such trials count, but not against the
limit, and when no shorter step can be tried the search ends at its start. A fault ends the
search at once.
-/

namespace SeqQuad

open Scalar

/-- One evaluated trial: the step length, the point, and what the merit function answered. -/
structure Trial (ω α : Type) where
  t : α
  point : List α
  answer : Journaled ω (Failure EvaluationError) α

inductive SearchEnd where
  /-- The full step, without a search. -/
  | unsearched
  /-- Sufficient decrease. -/
  | accepted
  /-- The limit of trials was reached at a point that has a value. -/
  | exhausted
  /-- No shorter step is left to try after a failed evaluation. -/
  | stuck
  /-- The evaluation of the last trial was a fault. -/
  | aborted (fault : Fault)
  deriving DecidableEq

structure LineSearch (ω α : Type) where
  t : α
  point : List α
  ending : SearchEnd
  /-- The trials in order. -/
  trials : List (Trial ω α)

structure LineSearch.Options (α : Type) where
  maxTrials : Nat
  /-- The required share of the predicted decrease. -/
  c1 : α
  /-- The factor between two trials. -/
  beta : α

namespace LineSearch

variable {ω α : Type}

def success (s : LineSearch ω α) : Bool :=
  s.ending == .unsearched || s.ending == .accepted

/-- The fault that ended the search, if one did. -/
def fault? (s : LineSearch ω α) : Option Fault :=
  match s.ending with
  | .aborted fault => some fault
  | _ => none

variable [Scalar α]

/-- The merit that trials are compared with: the largest recent one. -/
def reference (history : MeritWindow α) : α :=
  history.max?.getD infinity

/-- The merit that a step of length `t` must not exceed. -/
def threshold (opt : Options α) (slope reference t : α) : α :=
  reference + t * opt.c1 * slope

/-- Trials from step length `t` on, after the `made` trials of `tried` (latest first). The first
argument bounds the number of further trials. -/
def backtrack (opt : Options α) (x dx : List α) (slope reference : α)
    (merit : Nat → List α → Journaled ω (Failure EvaluationError) α) :
    Nat → Nat → α → List (Trial ω α) → LineSearch ω α
  | 0, _, _, tried => ⟨0, x, .stuck, tried.reverse⟩
  | fuel + 1, made, t, tried =>
      let point := Vec.along x dx t
      let answer := merit (made + 1) point
      let all := ⟨t, point, answer⟩ :: tried
      match answer.outcome with
      | .ok m =>
          if m ≤ threshold opt slope reference t then ⟨t, point, .accepted, all.reverse⟩
          else if opt.maxTrials ≤ made + 1 then ⟨t, point, .exhausted, all.reverse⟩
          else backtrack opt x dx slope reference merit fuel (made + 1) (t * opt.beta) all
      | .error (.fault fault) => ⟨t, point, .aborted fault, all.reverse⟩
      | .error (.error _) =>
          if Vec.same point x || decide (t < leastNormal) then ⟨0, x, .stuck, all.reverse⟩
          else backtrack opt x dx slope reference merit fuel (made + 1) (t * opt.beta) all

/-- More trials than a search can make: the limit, or the steps down to the least normal length
and one more. -/
def trialBound (opt : Options α) : Nat :=
  max opt.maxTrials (backtracks opt.beta + 1)

/-- The search from `x` along `dx`, where `slope` is the predicted change of merit for the full
step. The merit function is told the number of the trial, from one. A limit of zero takes the
full step unseen. -/
def run (opt : Options α) (x dx : List α) (slope : α) (history : MeritWindow α)
    (merit : Nat → List α → Journaled ω (Failure EvaluationError) α) : LineSearch ω α :=
  if opt.maxTrials = 0 then ⟨1, Vec.along x dx 1, .unsearched, []⟩
  else backtrack opt x dx slope (reference history) merit (trialBound opt) 0 1 []

/-! ## What a search reports -/

inductive Note (α : Type) where
  | rejected (trial : Nat) (cause : EvaluationError)
  | accepted (t : α)
  | exhausted
  | stuck

/-- The entries of one trial, and a note if it was rejected. -/
def trialJournal (embed : Note α → ω) (number : Nat) (trial : Trial ω α) : List ω :=
  trial.answer.journal ++
    match trial.answer.outcome with
    | .ok _ | .error (.fault _) => []
    | .error (.error cause) => [embed (.rejected number cause)]

/-- The note on the end of the search. -/
def endNotes (s : LineSearch ω α) : List (Note α) :=
  match s.ending with
  | .unsearched | .aborted _ => []
  | .accepted => [.accepted s.t]
  | .exhausted => [.exhausted]
  | .stuck => [.stuck]

/-- Everything that happened during the search. -/
def journal (embed : Note α → ω) (s : LineSearch ω α) : List ω :=
  (s.trials.mapIdx fun i trial => trialJournal embed (i + 1) trial).flatten ++ s.endNotes.map embed

end LineSearch

end SeqQuad
