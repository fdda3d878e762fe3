import SeqQuad.LinearSystem

/-!
# Gaussian elimination

A dense solver with partial pivoting. Each step takes the first row with the largest leading
magnitude, exchanges it with the first row, and clears the leading column of the others; the
unknowns are then found from the last to the first.
-/

namespace SeqQuad.Elimination

open Scalar

variable {α : Type} [Scalar α]

/-- One equation: the coefficients of the unknowns that are left, and the right-hand side. -/
structure Equation (α : Type) where
  coefs : List α
  rhs : α

def Equation.lead (e : Equation α) : α :=
  Vec.coord e.coefs 0

/-- The position of the first equation with the largest leading magnitude, after `best` at
position `found` and with `i` the position of the first of those to come. -/
def pivotFrom (best : Equation α) (found i : Nat) : List (Equation α) → Nat
  | [] => found
  | e :: rest =>
      if magnitude best.lead < magnitude e.lead then pivotFrom e i (i + 1) rest
      else pivotFrom best found (i + 1) rest

/-- Subtracts the multiple of the pivot equation that clears the leading unknown, which is then
dropped. -/
def reduce (pivot e : Equation α) : Equation α :=
  let l := e.lead / pivot.lead
  if same l 0 then ⟨e.coefs.tail, e.rhs⟩
  else
    ⟨List.zipWith (fun a p => a - l * p) e.coefs.tail pivot.coefs.tail, e.rhs - l * pivot.rhs⟩

/-- The leading unknown of an equation whose other unknowns are known. -/
def substitute (e : Equation α) (known : List α) : α :=
  (List.zipWith (· * ·) e.coefs.tail known).foldl (· - ·) e.rhs / e.lead

/-- The values of `n` unknowns, the first of which belongs to column `column`, or the first
column without a pivot. -/
def solveFrom (column : Nat) : Nat → List (Equation α) → Except Nat (List α)
  | 0, _ => .ok []
  | _ + 1, [] => .error column
  | n + 1, first :: rest =>
      let found := pivotFrom first 0 1 rest
      let pivot := ((first :: rest)[found]?).getD first
      let others := ((first :: rest).set found first).tail
      if 0 < magnitude pivot.lead then do
        let known ← solveFrom (column + 1) n (others.map (reduce pivot))
        .ok (substitute pivot known :: known)
      else .error column

/-- A dense column of length `n`; entries at one position are added, from zero on. -/
def denseColumn (n : Nat) (column : List (Nat × α)) : Array α :=
  column.foldl (fun acc e => acc.modify e.1 (· + e.2)) (Array.replicate n 0)

/-- The dense rows of a square matrix given by sparse columns. -/
def denseRows (columns : List (List (Nat × α))) : List (List α) :=
  let n := columns.length
  let dense := columns.map (denseColumn n)
  (List.range n).map fun i => dense.map fun column => column.getD i 0

theorem length_solveFrom {column n : Nat} {es : List (Equation α)} {x : List α}
    (h : solveFrom column n es = .ok x) : x.length = n := by
  induction n generalizing column es x with
  | zero =>
      cases h
      rfl
  | succ n ih =>
      cases es with
      | nil => cases h
      | cons first rest =>
          simp only [solveFrom] at h
          split at h
          · revert h
            generalize hk : (solveFrom (column + 1) n _ : Except Nat (List α)) = known
            intro h
            cases known with
            | error e => cases h
            | ok known =>
                cases h
                simp [ih hk]
          · cases h

/-- Solves for as many unknowns as the right-hand side has entries. It is a fault if an entry is
stored below the last row of the square matrix. -/
def solve (columns : List (List (Nat × α))) (b : List α) : Except (Failure String) (List α) :=
  if ∀ column ∈ columns, ∀ e ∈ column, e.1 < columns.length then
    match solveFrom 0 b.length (List.zipWith Equation.mk (denseRows columns) b) with
    | .ok x => .ok x
    | .error column => .error (.error ("singular matrix at column " ++ toString column))
  else .error (.fault .index)

def solver : LinearSolver α where
  solve := fun _ => solve
  length_solve := by
    intro _ columns b x h
    simp only [solve] at h
    split at h
    · split at h
      · cases h
        exact length_solveFrom (by assumption)
      · cases h
    · cases h

end SeqQuad.Elimination
