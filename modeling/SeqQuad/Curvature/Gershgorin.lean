import SeqQuad.SparseMatrix

/-!
# Diagonal shift by Gershgorin circles

The smallest shift of the diagonal that leaves no row bound, the diagonal entry less the
magnitudes of the others, negative. Every row must be a part of the storage.
-/

namespace SeqQuad.Gershgorin

open Scalar

variable {α : Type} [Scalar α]

/-- The lower end of the circle of row `i`, from its stored entries. -/
def rowBound (i : Nat) (row : List (Nat × α)) : α :=
  Vec.sum (row.map fun e => if i = e.1 then e.2 else -magnitude e.2)

/-- Zero if no row needs a shift. -/
def shift (h : SparseMatrix α) : α :=
  -(h.rows.mapIdx rowBound).foldl minNum 0

/-- The shift, `none` when a row is no part of the storage. -/
def shift? (h : SparseMatrix α) : Option α :=
  if h.Sliceable then some (shift h) else none

/-- The matrix with its diagonal shifted, and the shift. The full diagonal of `h` must be
stored. -/
def regularize (h : SparseMatrix α) : SparseMatrix α × α :=
  let reg := shift h
  (if 0 < reg then h.shiftDiagonal reg else h, reg)

/-- The same, `none` when a row is no part of the storage. -/
def regularize? (h : SparseMatrix α) : Option (SparseMatrix α × α) :=
  if h.Sliceable then some (regularize h) else none

end SeqQuad.Gershgorin
