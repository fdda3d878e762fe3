import SeqQuad.CentralDifference
import SeqQuad.Proofs.Traversal

/-!
# Points of central differences

One point is moved forward and backward along a coordinate and put back before the next one, so
it starts every coordinate where it started the first. Whatever the function does, a derivative
is therefore the traversal of a list of points, each of which differs from the first in at most
one coordinate, followed by arithmetic on the values. A traversal ends at the first point where
the function fails, with that failure.
-/

namespace SeqQuad

namespace CentralDifference

variable {α β : Type} [Scalar α]

/-! ## The points of a derivative -/

/-- Half a step forward along the coordinate `i`. -/
def forwardPoint (h : α) (x : List α) (i : ℕ) : List α :=
  x.set i (Vec.coord x i + h / 2.0)

/-- Half a step backward along the coordinate `i`. -/
def backwardPoint (h : α) (x : List α) (i : ℕ) : List α :=
  x.set i (Vec.coord x i - h / 2.0)

/-- The points on both sides of `x` along some coordinates. -/
def pointsAlong (h : α) (x : List α) (coordinates : List ℕ) : List (List α) :=
  coordinates.flatMap fun i => [forwardPoint h x i, backwardPoint h x i]

/-- All points of a derivative at `x`, in the order of their evaluation. -/
def points (h : α) (x : List α) : List (List α) :=
  x :: pointsAlong h x (List.range x.length)

/-- The entries of a list, two by two. -/
def pairUp : List β → List (β × β)
  | a :: b :: rest => (a, b) :: pairUp rest
  | _ => []

/-- The values at the points along some coordinates, taken two by two. -/
theorem pairUp_map_pointsAlong (h : α) (x : List α) (f : List α → β) (coordinates : List ℕ) :
    pairUp ((pointsAlong h x coordinates).map f) =
      coordinates.map fun i => (f (forwardPoint h x i), f (backwardPoint h x i)) := by
  induction coordinates with
  | nil => rfl
  | cons i rest ih =>
      rw [List.map_cons, ← ih]
      rfl

/-! ## Traversal of the points -/

section Lawful

variable {m : Type → Type} [Monad m]

/-- The moved point is put back. -/
theorem set_coord_self (x : List α) (i : ℕ) (a : α) :
    (x.set i a).set i (Vec.coord x i) = x := by
  rw [List.set_set]
  by_cases hi : i < x.length
  · rw [Vec.coord, List.getElem?_eq_getElem hi, Option.getD_some, List.set_getElem_self]
  · exact List.set_eq_of_length_le (not_lt.mp hi)

/-- A coordinate leaves the moved point where it found it. -/
theorem probeAlong_cons (h : α) (x : List α) (f : List α → m β) (i : ℕ) (rest : List ℕ) :
    probeAlong h x f (i :: rest) x = (do
      let forward ← f (forwardPoint h x i)
      let backward ← f (backwardPoint h x i)
      let others ← probeAlong h x f rest x
      return (forward, backward) :: others) := by
  rw [probeAlong]
  dsimp only
  rw [List.set_set, set_coord_self]
  rfl

variable [LawfulMonad m]

theorem probeAlong_eq (h : α) (x : List α) (f : List α → m β) (coordinates : List ℕ) :
    probeAlong h x f coordinates x = pairUp <$> (pointsAlong h x coordinates).mapM f := by
  induction coordinates with
  | nil => simp [probeAlong, pointsAlong, pairUp]
  | cons i rest ih =>
      have hpoints : pointsAlong h x (i :: rest) =
          forwardPoint h x i :: backwardPoint h x i :: pointsAlong h x rest := rfl
      rw [probeAlong_cons, hpoints, ih]
      simp only [List.mapM_cons, map_eq_pure_bind, bind_assoc, pure_bind, pairUp]

theorem probe_eq (h : α) (x : List α) (f : List α → m β) :
    probe h x f = pairUp <$> (pointsAlong h x (List.range x.length)).mapM f :=
  probeAlong_eq h x f _

/-- The value and the gradient that the values at all points make. -/
def gradientOf (h : α) (values : List α) : α × List α :=
  (values.headD 0, (pairUp values.tail).map fun p => quotient h p.1 p.2)

/-- The values and the Jacobian of `n` columns that the values at all points make. -/
def jacobianOf? (h : α) (n : ℕ) (values : List (List α)) : Option (List α × SparseMatrix α) :=
  (rowsOf? (values.headD []).length (columns h (pairUp values.tail))).map fun rows =>
    (values.headD [], SparseMatrix.ofNonzeros n rows)

/-- A gradient is a traversal of the points. -/
theorem gradient_eq (h : α) (f : List α → m α) (x : List α) :
    gradient h f x = gradientOf h <$> (points h x).mapM f := by
  rw [gradient, points, List.mapM_cons, map_bind]
  refine bind_congr fun value => ?_
  rw [probe_eq, bind_map_left, map_bind]
  simp [gradientOf]

/-- A Jacobian is a traversal of the points. -/
theorem jacobian?_eq (h : α) (g : List α → m (List α)) (x : List α) :
    jacobian? h g x = jacobianOf? h x.length <$> (points h x).mapM g := by
  rw [jacobian?, points, List.mapM_cons, map_bind]
  refine bind_congr fun values => ?_
  rw [probe_eq, bind_map_left, map_bind]
  simp [jacobianOf?]

end Lawful

/-! ## Functions that may fail -/

open Journaled

theorem evaluatesInOrder_gradient (h : α) (f : List α → Evaluated α) (x : List α) :
    EvaluatesInOrder f (points h x) (gradient h (noted f) x) := by
  rw [gradient_eq]
  exact (evaluatesInOrder_mapM f _).map _

theorem evaluatesInOrder_jacobian? (h : α) (g : List α → Evaluated (List α)) (x : List α) :
    EvaluatesInOrder g (points h x) (jacobian? h (noted g) x) := by
  rw [jacobian?_eq]
  exact (evaluatesInOrder_mapM g _).map _

theorem outcome_gradient (h : α) (f : List α → Evaluated α) (x : List α) (moment : Moment) :
    (gradient h (noted f) x).outcome = (objective h f).gradient moment x := by
  show _ = gradient h f x
  rw [gradient_eq, gradient_eq, outcome_map, outcome_mapM_noted]

theorem outcome_jacobian? (h : α) (g : List α → Evaluated (List α)) (x : List α) :
    (jacobian? h (noted g) x).outcome = jacobian? h g x := by
  rw [jacobian?_eq, jacobian?_eq, outcome_map, outcome_mapM_noted]

end CentralDifference

end SeqQuad
