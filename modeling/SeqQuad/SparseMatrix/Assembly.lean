import SeqQuad.SparseMatrix

/-!
# Assembly from triplets

A matrix is assembled from position and value triplets: the columns of each row come out
increasing, and values at one position are added in the order given. A zero that is given is
stored.
-/

namespace SeqQuad

open Scalar

structure Triplet (α : Type) where
  row : Nat
  col : Nat
  value : α

namespace SparseMatrix

variable {α : Type} [Scalar α]

/-- Adds a value at column `j` of a row with increasing columns. -/
def accumulate (row : List (Nat × α)) (j : Nat) (v : α) : List (Nat × α) :=
  match row with
  | [] => [(j, v)]
  | (k, w) :: rest =>
      if j < k then (j, v) :: (k, w) :: rest
      else if j = k then (k, w + v) :: rest
      else (k, w) :: accumulate rest j v

/-- Adds the triplets to their rows, one after another. -/
def addTriplets (rows : Array (List (Nat × α))) (ts : List (Triplet α)) :
    Array (List (Nat × α)) :=
  ts.foldl (fun rows t => rows.modify t.row fun row => accumulate row t.col t.value) rows

def ofTriplets (height cols : Nat) (ts : List (Triplet α)) : SparseMatrix α :=
  (addTriplets (Array.replicate height []) ts).foldl pushRow (noRows cols)

/-- The assembled matrix, `none` when a triplet lies below the last row or there is no room for
the starts of the rows. A column is taken as it is given. -/
def ofTriplets? (height cols : Nat) (ts : List (Triplet α)) : Option (SparseMatrix α) :=
  if Vec.fits (height + 1) ∧ ∀ t ∈ ts, t.row < height then some (ofTriplets height cols ts)
  else none

theorem ofTriplets?_eq_some_iff {height cols : Nat} {ts : List (Triplet α)}
    {A : SparseMatrix α} :
    ofTriplets? height cols ts = some A ↔
      (Vec.fits (height + 1) ∧ ∀ t ∈ ts, t.row < height) ∧ ofTriplets height cols ts = A := by
  rw [ofTriplets?, Option.ite_none_right_eq_some, Option.some.injEq]

theorem size_addTriplets (rows : Array (List (Nat × α))) (ts : List (Triplet α)) :
    (addTriplets rows ts).size = rows.size := by
  unfold addTriplets
  induction ts generalizing rows with
  | nil => rfl
  | cons t ts ih => rw [List.foldl_cons, ih, Array.size_modify]

/-- Each row adds up the triplets that name it. -/
theorem getElem?_addTriplets (rows : Array (List (Nat × α))) (ts : List (Triplet α)) (i : Nat) :
    (addTriplets rows ts)[i]? = rows[i]?.map fun row =>
      (ts.filter fun t => t.row == i).foldl (fun row t => accumulate row t.col t.value) row := by
  unfold addTriplets
  induction ts generalizing rows with
  | nil => simp
  | cons t ts ih =>
      rw [List.foldl_cons, ih, Array.getElem?_modify]
      by_cases h : t.row = i <;> simp [h, Function.comp_def]

theorem ofTriplets_eq_ofRows (height cols : Nat) (ts : List (Triplet α)) :
    ofTriplets height cols ts =
      ofRows cols (addTriplets (Array.replicate height []) ts).toList := by
  rw [ofTriplets, ofRows, Array.foldl_toList]

@[simp]
theorem height_ofTriplets (height cols : Nat) (ts : List (Triplet α)) :
    (ofTriplets height cols ts).height = height := by
  simp [ofTriplets_eq_ofRows, size_addTriplets]

@[simp]
theorem cols_ofTriplets (height cols : Nat) (ts : List (Triplet α)) :
    (ofTriplets height cols ts).cols = cols := by
  simp [ofTriplets_eq_ofRows]

/-- Each row adds up the triplets that name it, from no entry on. -/
theorem rows_ofTriplets (height cols : Nat) (ts : List (Triplet α)) :
    (ofTriplets height cols ts).rows =
      (addTriplets (Array.replicate height []) ts).toList := by
  rw [ofTriplets_eq_ofRows, rows_ofRows]

/-- Writes the row number `i` over the labels from `first` to `last`. -/
def label (labels : Array Nat) (i first last : Nat) : Array Nat :=
  (List.range' first (min last labels.size - first)).foldl (fun acc k => acc.setIfInBounds k i)
    labels

/-- The row of every entry of the storage: the last one that reads it, the first row if none
does. -/
def rowLabels (A : SparseMatrix α) : Array Nat :=
  (List.range A.height).foldl (fun labels i => label labels i (A.start i) (A.start (i + 1)))
    (Array.replicate A.stored 0)

/-- The stored entries in the order of the storage. -/
def toTriplets (A : SparseMatrix α) : List (Triplet α) :=
  List.zipWith (fun i e => ⟨i, e.1, e.2⟩) A.rowLabels.toList
    (A.columns.toList.zip A.values.toList)

/-- The stored entries, `none` when a column has no value, a value no column, or an entry of a
row neither. -/
def toTriplets? (A : SparseMatrix α) : Option (List (Triplet α)) :=
  if A.Paired then some A.toTriplets else none

/-- The joined diagonal: a zero at each of the first `n` diagonal positions. -/
def zeroDiagonal (n : Nat) : List (Triplet α) :=
  (List.range n).map fun i => ⟨i, i, 0⟩

/-- The same matrix on a pattern that holds the diagonal, with increasing columns and no
position twice. It is `none` when the stored entries cannot be listed. -/
def withDiagonal? (A : SparseMatrix α) : Option (SparseMatrix α) := do
  let ts ← A.toTriplets?
  ofTriplets? A.height A.cols (ts ++ zeroDiagonal (min A.height A.cols))

/-- A multiple of the identity with every position stored. -/
def denseIdentity (n : Nat) (scale : α) : SparseMatrix α :=
  ofRows n ((List.range n).map fun i =>
    (List.range n).map fun j => (j, if i = j then scale else 0))

/-- The dense multiple of the identity, `none` when there is no room for so many entries. -/
def denseIdentity? (n : Nat) (scale : α) : Option (SparseMatrix α) :=
  if Vec.fits (n * n) then some (denseIdentity n scale) else none

/-- Every entry of the given rows is stored, zeros included. -/
def ofDense (cols : Nat) (rows : List (List α)) : SparseMatrix α :=
  ofRows cols (rows.map fun row => row.zipIdx.map fun e => (e.2, e.1))

/-- The entries of the given rows that differ from zero are stored. -/
def ofNonzeros (cols : Nat) (rows : List (List α)) : SparseMatrix α :=
  ofRows cols (rows.map fun row =>
    (row.zipIdx.map fun e => (e.2, e.1)).filter fun e => !same e.2 0)

end SparseMatrix

end SeqQuad
