import SeqQuad.SparseMatrix.Assembly

/-!
# Symmetric linear systems

The Newton matrix with a border of equality rows, and its solution by any linear solver. A
solver is given the columns of the matrix; those of a symmetric matrix are its rows.
-/

namespace SeqQuad

/-- A way to solve square systems. It is told which system of a sequence it solves, then the
sparse columns and the right-hand side, and either fails, with a text if it is an error, or
answers with a vector of that length. -/
structure LinearSolver (α : Type) where
  solve : Nat → List (List (Nat × α)) → List α → Except (Failure String) (List α)
  length_solve : ∀ call columns b x, solve call columns b = .ok x → x.length = b.length

namespace LinearSystem

variable {α : Type}

inductive Error where
  /-- The matrix is not square, or the right-hand side does not fit it. -/
  | shape (rows cols length : Nat)
  /-- The solver failed. -/
  | solver (message : String)

/-- The stored entries of the border rows `ae` and of their transpose, beside and below a block
of order `nx`. -/
def border (nx : Nat) (ae : List (List (Nat × α))) : List (Triplet α) :=
  (ae.mapIdx fun r row =>
    row.flatMap fun e => [⟨nx + r, e.1, e.2⟩, ⟨e.1, nx + r, e.2⟩]).flatten

variable [Scalar α]

/-- The entries of the block `m` of order `nx`, of the whole diagonal, and of the border with the
rows `ae`. -/
def kktTriplets (nx : Nat) (m : List (Triplet α)) (ae : List (List (Nat × α))) :
    List (Triplet α) :=
  m ++ SparseMatrix.zeroDiagonal (nx + ae.length) ++ border nx ae

/-- The matrix with the block `m` of order `nx` and the rows `ae` as its border, with the whole
diagonal stored. -/
def kktMatrix (nx : Nat) (m : List (Triplet α)) (ae : List (List (Nat × α))) : SparseMatrix α :=
  SparseMatrix.ofTriplets (nx + ae.length) (nx + ae.length) (kktTriplets nx m ae)

/-- The same matrix, `none` when an entry lies below its last row or there is no room for the
block and the diagonal. -/
def kktMatrix? (nx : Nat) (m : List (Triplet α)) (ae : List (List (Nat × α))) :
    Option (SparseMatrix α) :=
  let n := nx + ae.length
  if Vec.fits (m.length + n) then SparseMatrix.ofTriplets? n n (kktTriplets nx m ae) else none

theorem eq_kktMatrix_of_eq_some {nx : Nat} {m : List (Triplet α)}
    {ae : List (List (Nat × α))} {K : SparseMatrix α} (h : kktMatrix? nx m ae = some K) :
    kktMatrix nx m ae = K := by
  have room := (Option.ite_none_right_eq_some.mp h).2
  exact (SparseMatrix.ofTriplets?_eq_some_iff.mp room).2

/-- The solution of `K * x = b` for a symmetric `K`. -/
def solveSymmetric (solver : LinearSolver α) (call : Nat) (K : SparseMatrix α) (b : List α) :
    Except (Failure Error) (List α) :=
  if K.height = K.cols ∧ b.length = K.height then
    (solver.solve call K.rows b).mapError (Failure.map .solver)
  else .error (.error (.shape K.height K.cols b.length))

omit [Scalar α] in
theorem length_of_solveSymmetric_eq_ok {solver : LinearSolver α} {call : Nat}
    {K : SparseMatrix α} {b x : List α} (h : solveSymmetric solver call K b = .ok x) :
    x.length = b.length := by
  unfold solveSymmetric at h
  split at h
  · cases hs : solver.solve call K.rows b with
    | error e =>
        rw [hs] at h
        cases h
    | ok y =>
        rw [hs] at h
        cases h
        exact solver.length_solve call K.rows b x hs
  · cases h

end LinearSystem

end SeqQuad
