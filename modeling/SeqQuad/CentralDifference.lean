import SeqQuad.Evaluation
import SeqQuad.SparseMatrix.Assembly

/-!
# Central differences

Derivatives from the values at two points on each side of a point, half a step away along each
coordinate. The function may be any computation: it is run at the point, then forward and
backward along the first coordinate, and so on.
-/

namespace SeqQuad.CentralDifference

variable {α : Type} [Scalar α]

/-- The usual step. -/
def defaultStep : α :=
  1e-8

def quotient (h forward backward : α) : α :=
  (forward - backward) / h

variable {m : Type → Type} [Monad m]

/-- The values half a step forward and backward along some coordinates. One point is moved along
a coordinate, forward and then backward, and put back before the next coordinate. -/
def probeAlong {β : Type} (h : α) (x : List α) (f : List α → m β) :
    List Nat → List α → m (List (β × β))
  | [], _ => return []
  | i :: rest, point => do
      let point := point.set i (Vec.coord x i + h / 2.0)
      let forward ← f point
      let point := point.set i (Vec.coord x i - h / 2.0)
      let backward ← f point
      let point := point.set i (Vec.coord x i)
      let others ← probeAlong h x f rest point
      return (forward, backward) :: others

/-- The values half a step forward and backward along each coordinate. -/
def probe {β : Type} (h : α) (x : List α) (f : List α → m β) : m (List (β × β)) :=
  probeAlong h x f (List.range x.length) x

/-- The value and the gradient of a scalar function. -/
def gradient (h : α) (f : List α → m α) (x : List α) : m (α × List α) := do
  let value ← f x
  let pairs ← probe h x f
  return (value, pairs.map fun p => quotient h p.1 p.2)

/-- The columns of difference quotients, each as long as the shorter of its two values. -/
def columns (h : α) (pairs : List (List α × List α)) : List (List α) :=
  pairs.map fun p => List.zipWith (quotient h) p.1 p.2

/-- The first `n` rows of the matrix with the given columns, `none` when a column is shorter
than that. -/
def rowsOf? (n : Nat) (columns : List (List α)) : Option (List (List α)) :=
  (List.range n).mapM fun i => columns.mapM fun column => column[i]?

/-- The values and the Jacobian of a vector function, with zeros left out. It is `none` when the
function gave fewer values beside the point than at it. -/
def jacobian? (h : α) (g : List α → m (List α)) (x : List α) :
    m (Option (List α × SparseMatrix α)) := do
  let values ← g x
  let pairs ← probe h x g
  return (rowsOf? values.length (columns h pairs)).map fun rows =>
    (values, SparseMatrix.ofNonzeros x.length rows)

/-- An objective with its gradient by central differences. -/
def objective (h : α) (f : List α → Evaluated α) : Objective α where
  value := fun _ => f
  gradient := fun _ => gradient h f

/-- Constraints with their Jacobian by central differences. -/
def constraints (h : α) (g : List α → Evaluated (List α)) : Constraints α where
  values := fun _ => g
  jacobian := fun _ x => do Failure.ofOption .index (← jacobian? h g x)

end SeqQuad.CentralDifference
