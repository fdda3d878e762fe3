import SeqQuad.Quadratic.Program

/-!
# One-sided constraints

The bounds of a quadratic program, taken apart into equalities and into inequalities that each
bound one row from above. A pair of finite bounds that agree to within the gap at one makes an
equality, and an infinite side makes nothing.
-/

namespace SeqQuad

open Scalar

/-- Which bounds a side came from. -/
inductive Origin where
  | bound (j : Nat)
  | row (k : Nat)

/-- The requirement `coef * x - rhs = 0` of an equality, or `coef * x - rhs ≤ 0` of an
inequality. The sign takes its multiplier back to the bounds it came from. -/
structure Side (α : Type) where
  coef : List (Nat × α)
  rhs : α
  origin : Origin
  sign : α

structure Sides (α : Type) where
  equalities : List (Side α)
  inequalities : List (Side α)

variable {α : Type} [Scalar α]

namespace Side

def dot (s : Side α) (x : List α) : α :=
  Vec.sum (s.coef.map fun e => e.2 * Vec.coord x e.1)

/-- By how much the side is missed. -/
def residual (s : Side α) (x : List α) : α :=
  s.dot x - s.rhs

def upper (coef : List (Nat × α)) (u : α) (origin : Origin) : Side α :=
  ⟨coef, u, origin, 1⟩

/-- A lower bound, as an upper bound on the negated row. -/
def lower (coef : List (Nat × α)) (l : α) (origin : Origin) : Side α :=
  ⟨coef.map fun e => (e.1, -e.2), -l, origin, -1⟩

end Side

namespace Sides

/-- The sides that the bounds `l` and `u` put on one row. -/
def ofBounds (l u : α) (coef : List (Nat × α)) (origin : Origin) : Sides α :=
  if isFinite l && isFinite u && decide (magnitude (u - l) ≤ epsilon) then
    ⟨[.upper coef u origin], []⟩
  else
    ⟨[], (if isFinite l then [.lower coef l origin] else []) ++
      if isFinite u then [.upper coef u origin] else []⟩

/-- All sides of several rows, kept in order. -/
def concat (rows : List (Sides α)) : Sides α :=
  ⟨rows.flatMap Sides.equalities, rows.flatMap Sides.inequalities⟩

/-- Whether every side speaks of the first `n` coordinates only. -/
def within (n : Nat) (s : Sides α) : Bool :=
  (s.equalities ++ s.inequalities).all fun side => side.coef.all fun e => e.1 < n

/-- The equalities and inequalities with their multipliers. -/
def weighted (s : Sides α) (lam mu : List α) : List (Side α × α) :=
  s.equalities.zip lam ++ s.inequalities.zip mu

/-- The sides of all bounds on variables, then of all constraint rows. It is `none` when a bound
is missing, a row is no part of its matrix or speaks of a variable that is not there. -/
def ofProgram? (qp : QuadraticProgram α) : Option (Sides α) := do
  let bounds ← (List.range qp.variableCount).mapM fun j => do
    let l ← qp.lbx[j]?
    let u ← qp.ubx[j]?
    some (ofBounds l u [(j, 1)] (.bound j))
  let rows ← (List.range qp.rowCount).mapM fun k => do
    let l ← qp.lba[k]?
    let u ← qp.uba[k]?
    let row ← qp.a.row? k
    some (ofBounds l u row (.row k))
  let all := concat (bounds ++ rows)
  if all.within qp.variableCount then some all else none

/-- The multipliers of the sides, gathered on the bounds they came from. -/
def multipliers (s : Sides α) (nx na : Nat) (lam mu : List α) : List α × List α :=
  (s.weighted lam mu).foldl
    (fun acc e =>
      match e.1.origin with
      | .bound j => (acc.1.modify j (· + e.1.sign * e.2), acc.2)
      | .row k => (acc.1, acc.2.modify k (· + e.1.sign * e.2)))
    (Vec.zeros nx, Vec.zeros na)

end Sides

end SeqQuad
