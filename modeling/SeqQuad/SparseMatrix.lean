import SeqQuad.Failure
import SeqQuad.Vec

/-!
# Sparse matrices

A matrix in compressed rows: a storage of columns beside one of values, and where in them each
row starts. A row may hold its entries in any order and may store a position twice; the matrix
stands for the sums. A matrix that is made from its rows holds them one after another. Any other
arrangement is a matrix as well: rows may overlap, run backward, which leaves them empty, or
leave entries of the storage to no row, and one storage may be longer than the other; what cannot
be read is a fault of the operation that reads it.
-/

namespace SeqQuad

open Scalar

/-- A vector whose length is not what a product needs. -/
structure LengthMismatch where
  found : Nat
  expected : Nat

structure SparseMatrix (α : Type) where
  cols : Nat
  /-- Where in the storage each row starts, and where the last one ends. -/
  starts : Array Nat
  /-- The column of each entry. -/
  columns : Array Nat
  /-- The value of each entry. -/
  values : Array α

namespace SparseMatrix

variable {α : Type}

def height (A : SparseMatrix α) : Nat :=
  A.starts.size - 1

/-- The number of stored values. -/
def stored (A : SparseMatrix α) : Nat :=
  A.values.size

/-- Where the row `i` starts; the row before it ends there. -/
def start (A : SparseMatrix α) (i : Nat) : Nat :=
  A.starts.getD i 0

/-- The columns of the row `i`, as far as they are stored. -/
def rowColumns (A : SparseMatrix α) (i : Nat) : List Nat :=
  (A.columns.extract (A.start i) (A.start (i + 1))).toList

/-- The values of the row `i`, as far as they are stored. -/
def rowValues (A : SparseMatrix α) (i : Nat) : List α :=
  (A.values.extract (A.start i) (A.start (i + 1))).toList

/-- The entries of the row `i`, as far as they are stored. -/
def row (A : SparseMatrix α) (i : Nat) : List (Nat × α) :=
  (A.rowColumns i).zip (A.rowValues i)

def rows (A : SparseMatrix α) : List (List (Nat × α)) :=
  (List.range A.height).map A.row

/-! ## Construction -/

/-- No rows. -/
def noRows (cols : Nat) : SparseMatrix α :=
  ⟨cols, #[0], #[], #[]⟩

/-- Stores one more row after all others. -/
def pushRow (A : SparseMatrix α) (row : List (Nat × α)) : SparseMatrix α :=
  ⟨A.cols, A.starts.push (A.stored + row.length), A.columns ++ row.map Prod.fst,
    A.values ++ row.map Prod.snd⟩

/-- The matrix that stores the given rows one after another. -/
def ofRows (cols : Nat) (rows : List (List (Nat × α))) : SparseMatrix α :=
  rows.foldl pushRow (noRows cols)

/-- No stored entries. -/
def empty (height cols : Nat) : SparseMatrix α :=
  ofRows cols (List.replicate height [])

/-- The arrays of compressed rows as they are, `none` unless there is one start more than rows.
-/
def ofArrays? (height cols : Nat) (starts columns : List Nat) (values : List α) :
    Option (SparseMatrix α) :=
  if starts.length = height + 1 then some ⟨cols, starts.toArray, columns.toArray, values.toArray⟩
  else none

/-! ## What can be read -/

/-- The row `i` is a part of both storages. -/
def IsPart (A : SparseMatrix α) (i : Nat) : Prop :=
  A.start i ≤ A.start (i + 1) ∧ A.start (i + 1) ≤ min A.columns.size A.stored

/-- Every row is a part of both storages. -/
def Sliceable (A : SparseMatrix α) : Prop :=
  ∀ i < A.height, A.IsPart i

/-- No row has an entry beyond the position `size`. -/
def EndsBy (A : SparseMatrix α) (size : Nat) : Prop :=
  ∀ i < A.height, A.start (i + 1) ≤ A.start i ∨ A.start (i + 1) ≤ size

/-- Every entry of a row has a column. -/
def Located (A : SparseMatrix α) : Prop :=
  A.EndsBy A.columns.size

/-- Every entry of a row has a column and a value. -/
def InBounds (A : SparseMatrix α) : Prop :=
  A.EndsBy (min A.columns.size A.stored)

/-- Every column of the storage has a value, and every entry of a row has both. -/
def Paired (A : SparseMatrix α) : Prop :=
  A.columns.size = A.stored ∧ A.InBounds

/-- Every entry of a row has a column and a value and lies within the columns. -/
def Readable (A : SparseMatrix α) : Prop :=
  A.InBounds ∧ ∀ row ∈ A.rows, ∀ e ∈ row, e.1 < A.cols

instance (A : SparseMatrix α) (i : Nat) : Decidable (A.IsPart i) :=
  inferInstanceAs (Decidable (_ ∧ _))

instance (A : SparseMatrix α) : Decidable A.Sliceable :=
  inferInstanceAs (Decidable (∀ i < A.height, A.IsPart i))

instance (A : SparseMatrix α) (size : Nat) : Decidable (A.EndsBy size) :=
  inferInstanceAs (Decidable (∀ i < A.height, _ ∨ _))

instance (A : SparseMatrix α) : Decidable A.Located :=
  inferInstanceAs (Decidable (A.EndsBy _))

instance (A : SparseMatrix α) : Decidable A.InBounds :=
  inferInstanceAs (Decidable (A.EndsBy _))

instance (A : SparseMatrix α) : Decidable A.Paired :=
  inferInstanceAs (Decidable (_ ∧ _))

instance (A : SparseMatrix α) : Decidable A.Readable :=
  inferInstanceAs (Decidable (A.InBounds ∧ ∀ row ∈ A.rows, ∀ e ∈ row, e.1 < A.cols))

/-- The entries of the row `i`, `none` when there is no such row or it is no part of the storage.
-/
def row? (A : SparseMatrix α) (i : Nat) : Option (List (Nat × α)) :=
  if i < A.height ∧ A.IsPart i then some (A.row i) else none

/-- A result that needs the column of every entry. -/
def ifLocated {β : Type} (A : SparseMatrix α) (b : β) : Option β :=
  if A.Located then some b else none

/-! ## Products -/

variable [Scalar α]

/-- The product of a sparse row and a vector, from zero over the stored entries in order. -/
def rowDot (row : List (Nat × α)) (x : List α) : α :=
  row.foldl (fun acc e => acc + e.2 * Vec.coord x e.1) 0

/-- `A * x` -/
def apply (A : SparseMatrix α) (x : List α) : List α :=
  A.rows.map (rowDot · x)

/-- `A * x`, refused unless `x` has an entry for every column. -/
def mulVec (A : SparseMatrix α) (x : List α) : Except (Failure LengthMismatch) (List α) := do
  if x.length ≠ A.cols then throw (.error ⟨x.length, A.cols⟩)
  Failure.ensure A.Readable .index
  return A.apply x

/-- The transpose of `A` times `y`: each row of `A` in turn adds its multiple to the result. -/
def applyTranspose (A : SparseMatrix α) (y : List α) : List α :=
  (A.rows.zip y).foldl (fun acc e => Vec.scatter acc e.1 e.2) (Vec.zeros A.cols)

/-- The transpose of `A` times `y`, refused unless `y` has an entry for every row. -/
def mulVecTranspose (A : SparseMatrix α) (y : List α) :
    Except (Failure LengthMismatch) (List α) := do
  if y.length ≠ A.height then throw (.error ⟨y.length, A.height⟩)
  Failure.ensure (Vec.fits A.cols) .room
  Failure.ensure A.Readable .index
  return A.applyTranspose y

/-- The quadratic form of `A` at `x`. -/
def quadForm (A : SparseMatrix α) (x : List α) : α :=
  Vec.dot x (A.apply x)

/-- The quadratic form of `A` at `x`, refused unless `x` has an entry for every column. -/
def checkedQuadForm (A : SparseMatrix α) (x : List α) : Except (Failure LengthMismatch) α :=
  (A.mulVec x).map (Vec.dot x)

@[simp]
theorem length_apply (A : SparseMatrix α) (x : List α) : (A.apply x).length = A.height := by
  simp [apply, rows]

theorem mulVec_eq_ok_iff {A : SparseMatrix α} {x y : List α} :
    A.mulVec x = .ok y ↔ x.length = A.cols ∧ A.Readable ∧ A.apply x = y := by
  by_cases hl : x.length = A.cols <;> by_cases hr : A.Readable <;>
    simp [mulVec, Failure.ensure, hl, hr, bind, Except.bind, pure, Except.pure, throw, throwThe,
      MonadExceptOf.throw]

theorem mulVecTranspose_eq_ok_iff {A : SparseMatrix α} {y z : List α} :
    A.mulVecTranspose y = .ok z ↔
      y.length = A.height ∧ Vec.fits A.cols ∧ A.Readable ∧ A.applyTranspose y = z := by
  by_cases hl : y.length = A.height <;> by_cases hf : Vec.fits A.cols <;>
    by_cases hr : A.Readable <;>
    simp [mulVecTranspose, Failure.ensure, hl, hf, hr, bind, Except.bind, pure, Except.pure,
      throw, throwThe, MonadExceptOf.throw]

@[simp]
theorem length_applyTranspose (A : SparseMatrix α) (y : List α) :
    (A.applyTranspose y).length = A.cols := by
  unfold applyTranspose
  suffices h : ∀ (es : List (List (Nat × α) × α)) (acc : List α),
      (es.foldl (fun acc e => Vec.scatter acc e.1 e.2) acc).length = acc.length by
    simp [h]
  intro es
  induction es with
  | nil => simp
  | cons e es ih => simp [ih]

/-! ## Changes on the pattern -/

/-- The position of every entry of every row. -/
def positions (A : SparseMatrix α) : List (Nat × Nat) :=
  (List.range A.height).flatMap fun i => (A.rowColumns i).map fun j => (i, j)

/-- Replaces the value stored at row `i` and column `j` by `f i j` of it. The positions are those
of the rows, in order, and are met with the values in the order of the storage. -/
def mapStored (A : SparseMatrix α) (f : Nat → Nat → α → α) : SparseMatrix α :=
  let changed := Vec.mergeWith (fun v p => f p.1 p.2 v) A.values.toList A.positions
  { A with values := changed.toArray }

omit [Scalar α] in
@[simp]
theorem height_mapStored (A : SparseMatrix α) (f : Nat → Nat → α → α) :
    (A.mapStored f).height = A.height :=
  rfl

omit [Scalar α] in
@[simp]
theorem cols_mapStored (A : SparseMatrix α) (f : Nat → Nat → α → α) :
    (A.mapStored f).cols = A.cols :=
  rfl

omit [Scalar α] in
@[simp]
theorem stored_mapStored (A : SparseMatrix α) (f : Nat → Nat → α → α) :
    (A.mapStored f).stored = A.stored := by
  simp [mapStored, stored]

/-- Adds `d` to every stored diagonal entry. -/
def shiftDiagonal (A : SparseMatrix α) (d : α) : SparseMatrix α :=
  A.mapStored fun i j v => if i = j then v + d else v

/-- Zeroes every stored entry off the diagonal. -/
def clearOffDiagonal (A : SparseMatrix α) : SparseMatrix α :=
  A.mapStored fun i j v => if i = j then v else 0

/-- Adds `c` times the outer product of `u` and `v` to the stored entries. -/
def addOuter (A : SparseMatrix α) (c : α) (u v : List α) : SparseMatrix α :=
  A.mapStored fun i j a => a + c * Vec.coord u i * Vec.coord v j

/-- The same sum, `none` when the position of a stored value has no coordinate in `u` or in `v`,
or an entry has no column. -/
def addOuter? (A : SparseMatrix α) (c : α) (u v : List α) : Option (SparseMatrix α) :=
  if A.Located ∧ ∀ p ∈ A.positions.take A.stored, p.1 < u.length ∧ p.2 < v.length then
    some (A.addOuter c u v)
  else none

/-! ## Rows of a matrix made from rows -/

/-- The positions at which lists of the given lengths end, the first of which starts at `start`.
-/
def endsFrom (start : Nat) : List Nat → List Nat
  | [] => []
  | n :: rest => (start + n) :: endsFrom (start + n) rest

omit [Scalar α] in
theorem cols_foldl_pushRow (A : SparseMatrix α) (rs : List (List (Nat × α))) :
    (rs.foldl pushRow A).cols = A.cols := by
  induction rs generalizing A with
  | nil => rfl
  | cons r rs ih => rw [List.foldl_cons, ih, pushRow]

omit [Scalar α] in
theorem toList_columns_foldl_pushRow (A : SparseMatrix α) (rs : List (List (Nat × α))) :
    (rs.foldl pushRow A).columns.toList = A.columns.toList ++ rs.flatten.map Prod.fst := by
  induction rs generalizing A with
  | nil => simp
  | cons r rs ih => simp [ih, pushRow]

omit [Scalar α] in
theorem toList_values_foldl_pushRow (A : SparseMatrix α) (rs : List (List (Nat × α))) :
    (rs.foldl pushRow A).values.toList = A.values.toList ++ rs.flatten.map Prod.snd := by
  induction rs generalizing A with
  | nil => simp
  | cons r rs ih => simp [ih, pushRow]

omit [Scalar α] in
theorem stored_pushRow (A : SparseMatrix α) (r : List (Nat × α)) :
    (A.pushRow r).stored = A.stored + r.length := by
  rw [stored, ← Array.length_toList]
  simp [pushRow, stored]

omit [Scalar α] in
theorem toList_starts_foldl_pushRow (A : SparseMatrix α) (rs : List (List (Nat × α))) :
    (rs.foldl pushRow A).starts.toList =
      A.starts.toList ++ endsFrom A.stored (rs.map List.length) := by
  induction rs generalizing A with
  | nil => simp [endsFrom]
  | cons r rs ih =>
      rw [List.foldl_cons, ih, stored_pushRow, List.map_cons, endsFrom]
      simp [pushRow]

omit [Scalar α] in
theorem length_endsFrom (start : Nat) (lengths : List Nat) :
    (endsFrom start lengths).length = lengths.length := by
  induction lengths generalizing start with
  | nil => rfl
  | cons n rest ih => simp [endsFrom, ih]

omit [Scalar α] in
theorem getElem?_cons_endsFrom (first : Nat) (rs : List (List (Nat × α))) {i : Nat}
    (h : i ≤ rs.length) :
    (first :: endsFrom first (rs.map List.length))[i]? =
      some (first + (rs.take i).flatten.length) := by
  induction rs generalizing first i with
  | nil =>
      obtain rfl : i = 0 := by simpa using h
      simp
  | cons r rs ih =>
      cases i with
      | zero => simp
      | succ i =>
          rw [List.map_cons, endsFrom, List.getElem?_cons_succ,
            ih (first + r.length) (by simpa using h), List.take_succ_cons, List.flatten_cons,
            List.length_append, Nat.add_assoc]

omit [Scalar α] in
theorem toList_starts_ofRows (cols : Nat) (rs : List (List (Nat × α))) :
    (ofRows cols rs).starts.toList = 0 :: endsFrom 0 (rs.map List.length) := by
  rw [ofRows, toList_starts_foldl_pushRow]
  rfl

omit [Scalar α] in
@[simp]
theorem cols_ofRows (cols : Nat) (rs : List (List (Nat × α))) : (ofRows cols rs).cols = cols :=
  cols_foldl_pushRow (noRows cols) rs

omit [Scalar α] in
@[simp]
theorem height_ofRows (cols : Nat) (rs : List (List (Nat × α))) :
    (ofRows cols rs).height = rs.length := by
  rw [height, ← Array.length_toList, toList_starts_ofRows]
  simp [length_endsFrom]

omit [Scalar α] in
@[simp]
theorem toList_columns_ofRows (cols : Nat) (rs : List (List (Nat × α))) :
    (ofRows cols rs).columns.toList = rs.flatten.map Prod.fst := by
  rw [ofRows, toList_columns_foldl_pushRow]
  rfl

omit [Scalar α] in
@[simp]
theorem toList_values_ofRows (cols : Nat) (rs : List (List (Nat × α))) :
    (ofRows cols rs).values.toList = rs.flatten.map Prod.snd := by
  rw [ofRows, toList_values_foldl_pushRow]
  rfl

omit [Scalar α] in
theorem start_ofRows (cols : Nat) (rs : List (List (Nat × α))) {i : Nat} (h : i ≤ rs.length) :
    (ofRows cols rs).start i = (rs.take i).flatten.length := by
  have hi := getElem?_cons_endsFrom 0 rs h
  rw [Nat.zero_add, ← toList_starts_ofRows cols, Array.getElem?_toList] at hi
  simp [start, hi]

omit [Scalar α] in
/-- What lies in a storage between the start of the row `i` and that of the next. -/
theorem extract_flatten_ofRows {β : Type} (cols : Nat) (rs : List (List (Nat × α)))
    (f : Nat × α → β) {i : Nat} (h : i < rs.length) :
    (rs.flatten.map f).extract ((ofRows cols rs).start i) ((ofRows cols rs).start (i + 1)) =
      rs[i].map f := by
  have hs := start_ofRows cols rs (Nat.le_of_lt h)
  have he : (ofRows cols rs).start (i + 1) = (rs.take i).flatten.length + rs[i].length := by
    rw [start_ofRows cols rs h, List.take_succ_eq_append_getElem h, List.flatten_append,
      List.length_append, List.flatten_singleton]
  have hd : rs.flatten = (rs.take i).flatten ++ (rs[i] ++ (rs.drop (i + 1)).flatten) := by
    rw [← List.flatten_cons, ← List.drop_eq_getElem_cons h, ← List.flatten_append,
      List.take_append_drop]
  rw [hs, he, List.extract_eq_take_drop, ← List.map_drop, ← List.map_take, hd,
    List.drop_left' rfl, List.take_left' (by omega)]

omit [Scalar α] in
theorem row_ofRows (cols : Nat) (rs : List (List (Nat × α))) {i : Nat} (h : i < rs.length) :
    (ofRows cols rs).row i = rs[i] := by
  rw [row, rowColumns, rowValues, Array.toList_extract, Array.toList_extract,
    toList_columns_ofRows, toList_values_ofRows, extract_flatten_ofRows cols rs _ h,
    extract_flatten_ofRows cols rs _ h]
  exact (List.zip_of_prod rfl rfl).symm

omit [Scalar α] in
@[simp]
theorem rows_ofRows (cols : Nat) (rs : List (List (Nat × α))) : (ofRows cols rs).rows = rs := by
  apply List.ext_getElem
  · simp [rows]
  · intro i h _
    have hi : i < rs.length := by simpa [rows] using h
    simp [rows, row_ofRows cols rs hi]

end SparseMatrix

end SeqQuad
