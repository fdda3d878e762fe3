import SeqQuad.Scalar

/-!
# Vectors

Vectors are lists of scalars. A binary operation runs along the shorter operand, and every sum
is taken from the left, so the order of rounding is part of each definition.
-/

namespace SeqQuad.Vec

open Scalar

variable {α : Type} [Scalar α]

/-- The sum from the left. It starts at negative zero, the value whose addition changes nothing.
-/
def sum (a : List α) : α :=
  a.foldl (· + ·) (-0)

def dot (a b : List α) : α :=
  (List.zipWith (· * ·) a b).foldl (· + ·) 0

/-- The largest magnitude, zero for the empty vector. -/
def normInf (a : List α) : α :=
  (a.map magnitude).foldl maxNum 0

/-- The Euclidean norm. -/
def norm (a : List α) : α :=
  sqrt (dot a a)

def sub (a b : List α) : List α :=
  List.zipWith (· - ·) a b

/-- `t * a + (1 - t) * b` -/
def blend (t : α) (a b : List α) : List α :=
  List.zipWith (fun u v => t * u + (1 - t) * v) a b

/-- The point `x + t * d`. -/
def along (x d : List α) (t : α) : List α :=
  List.zipWith (fun u v => u + t * v) x d

/-- The coordinate `j`, zero outside the vector. -/
def coord (x : List α) (j : Nat) : α :=
  x[j]?.getD 0

def zeros (n : Nat) : List α :=
  List.replicate n 0

/-- Whether a vector of that length can be held: eight bytes an entry, in fewer than half of the
addresses that 64 bits have. -/
def fits (length : Nat) : Bool :=
  length < 0x1000000000000000

/-- Adds `m` times the sparse vector `row` to `x`, entry after entry. -/
def scatter (x : List α) (row : List (Nat × α)) (m : α) : List α :=
  row.foldl (fun acc e => acc.modify e.1 (· + e.2 * m)) x

/-- Combines the entries that both vectors have and keeps the rest of the first. -/
def mergeWith {β : Type} (f : α → β → α) : List α → List β → List α
  | [], _ => []
  | a, [] => a
  | u :: a, v :: b => f u v :: mergeWith f a b

/-- Equality of length and of every pair of entries. -/
def same : List α → List α → Bool
  | [], [] => true
  | u :: a, v :: b => Scalar.same u v && same a b
  | _, _ => false

/-! ## Lengths -/

@[simp]
theorem length_sub (a b : List α) : (sub a b).length = min a.length b.length := by
  simp [sub]

@[simp]
theorem length_blend (t : α) (a b : List α) :
    (blend t a b).length = min a.length b.length := by
  simp [blend]

@[simp]
theorem length_along (x d : List α) (t : α) :
    (along x d t).length = min x.length d.length := by
  simp [along]

@[simp]
theorem length_zeros (n : Nat) : (zeros n : List α).length = n := by
  simp [zeros]

@[simp]
theorem length_scatter (x : List α) (row : List (Nat × α)) (m : α) :
    (scatter x row m).length = x.length := by
  unfold scatter
  induction row generalizing x with
  | nil => rfl
  | cons e row ih =>
      rw [List.foldl_cons, ih, List.length_modify]

omit [Scalar α] in
@[simp]
theorem length_mergeWith {β : Type} (f : α → β → α) (a : List α) (b : List β) :
    (mergeWith f a b).length = a.length := by
  induction a generalizing b with
  | nil => rfl
  | cons u a ih =>
      cases b with
      | nil => rfl
      | cons v b => simp [mergeWith, ih]

end SeqQuad.Vec
