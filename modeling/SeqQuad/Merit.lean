import SeqQuad.Vec

/-!
# Merit of a point

How far a point and its constraint values lie outside their bounds, the penalized objective, and
the window of recent merit values that a line search compares with.
-/

namespace SeqQuad

open Scalar

variable {α : Type} [Scalar α]

/-- How far each value lies outside its bounds; negative inside. -/
def violations (values lower upper : List α) : List α :=
  List.zipWith (fun v bounds => maxNum (bounds.1 - v) (v - bounds.2)) values (lower.zip upper)

/-- The largest violation of the bounds on `x` and on the constraint values `g`, zero for a
feasible point. -/
def primalInfeasibility (x xmin xmax g gmin gmax : List α) : α :=
  (violations x xmin xmax ++ violations g gmin gmax).foldl maxNum 0

/-- The objective plus the penalty for infeasibility. -/
def l1Merit (f sigma infeasibility : α) : α :=
  f + sigma * infeasibility

/-- The most recent merit values, oldest first, never more than the capacity. -/
structure MeritWindow (α : Type) where
  capacity : Nat
  values : List α

namespace MeritWindow

def new (capacity : Nat) : MeritWindow α :=
  ⟨capacity, []⟩

/-- An empty window, `none` when there is no room for one value over the capacity. -/
def new? (capacity : Nat) : Option (MeritWindow α) :=
  if Vec.fits (capacity + 1) then some (new capacity) else none

/-- Appends a value and drops the oldest ones over capacity. -/
def push (w : MeritWindow α) (merit : α) : MeritWindow α :=
  let values := w.values ++ [merit]
  { w with values := values.drop (values.length - w.capacity) }

def clear (w : MeritWindow α) : MeritWindow α :=
  { w with values := [] }

/-- The largest value, `none` when the window is empty. -/
def max? (w : MeritWindow α) : Option α :=
  match w.values with
  | [] => none
  | v :: rest => some (rest.foldl maxNum v)

omit [Scalar α] in
theorem new?_eq_some_iff {capacity : Nat} {w : MeritWindow α} :
    new? capacity = some w ↔ Vec.fits (capacity + 1) ∧ new capacity = w := by
  unfold new?
  split <;> simp_all

omit [Scalar α] in
theorem length_values_push_le (w : MeritWindow α) (merit : α) :
    (w.push merit).values.length ≤ w.capacity := by
  simp only [push, List.length_drop]
  omega

end MeritWindow

end SeqQuad
