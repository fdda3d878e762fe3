import SeqQuad.Proofs.CentralDifference.Points
import SeqQuad.Proofs.SparseMatrix.Pattern

/-!
# Shapes of Jacobians by central differences

A Jacobian has a row for every value at the point and a column for every coordinate. A column is
as long as the shorter of the two values beside the point, so the rows can be read off just when
no value beside the point is shorter than the one at it.
-/

namespace SeqQuad.CentralDifference

variable {α : Type} [Scalar α]

/-! ## Rows of columns -/

section Rows

variable {n : ℕ} {cs : List (List α)}

omit [Scalar α] in
/-- The rows can be read off just when every column reaches down to the last one. -/
theorem exists_rowsOf?_iff : (∃ rows, rowsOf? n cs = some rows) ↔ ∀ c ∈ cs, n ≤ c.length := by
  have hread : ∀ i (column : List α), (∃ v, column[i]? = some v) ↔ i < column.length := by
    intro i column
    rw [← Option.isSome_iff_exists]
    simp
  simp only [rowsOf?, exists_mapM_eq_some, hread, List.mem_range]
  constructor
  · intro h c hc
    by_contra hlt
    exact absurd (h c.length (not_le.mp hlt) c hc) (lt_irrefl _)
  · intro h i hi c hc
    exact hi.trans_le (h c hc)

theorem rowsOf?_eq_some (h : ∀ c ∈ cs, n ≤ c.length) :
    rowsOf? n cs = some ((List.range n).map fun i => cs.map (Vec.coord · i)) := by
  refine mapM_eq_pure fun i hi => mapM_eq_pure fun c hc => ?_
  have hlt : i < c.length := (List.mem_range.mp hi).trans_le (h c hc)
  rw [Vec.coord_eq_getElem c hlt]
  exact List.getElem?_eq_getElem hlt

end Rows

/-- Rows within the columns make a well-formed matrix when their zeros are left out. -/
theorem wellFormed_ofNonzeros {n : ℕ} {rows : List (List α)} (h : ∀ row ∈ rows, row.length ≤ n) :
    (SparseMatrix.ofNonzeros n rows).WellFormed := by
  apply SparseMatrix.wellFormed_ofRows
  intro row hrow e he
  obtain ⟨row, hrow', rfl⟩ := List.mem_map.mp hrow
  obtain ⟨⟨v, i⟩, hv, rfl⟩ := List.mem_map.mp (List.mem_of_mem_filter he)
  exact (List.snd_lt_of_mem_zipIdx hv).trans_le (by simpa using h row hrow')

/-! ## Values at the points -/

section Values

variable {h : α} {x : List α} {v : List α → List α}

theorem headD_map_points (d : List α) : ((points h x).map v).headD d = v x :=
  rfl

theorem pairUp_tail_map_points {β : Type} (f : List α → β) :
    pairUp ((points h x).map f).tail = (List.range x.length).map fun i =>
      (f (forwardPoint h x i), f (backwardPoint h x i)) :=
  pairUp_map_pointsAlong h x f _

theorem mem_points_iff {y : List α} :
    y ∈ points h x ↔ y = x ∨ ∃ i < x.length, y = forwardPoint h x i ∨ y = backwardPoint h x i := by
  simp [points, pointsAlong]

theorem gradient_of_values (moment : Moment) {f : List α → Evaluated α} {v : List α → α}
    (hv : ∀ y ∈ points h x, f y = .ok (v y)) :
    (objective h f).gradient moment x = .ok (v x, (List.range x.length).map fun i =>
      quotient h (v (forwardPoint h x i)) (v (backwardPoint h x i))) := by
  show gradient h f x = _
  rw [gradient_eq, mapM_eq_pure hv]
  show Except.ok (gradientOf h ((points h x).map v)) = _
  rw [gradientOf, pairUp_tail_map_points, List.map_map]
  rfl

/-- The columns are long enough just when no value beside the point is too short. -/
theorem forall_columns_iff :
    (∀ c ∈ columns h (pairUp ((points h x).map v).tail), (v x).length ≤ c.length) ↔
      ∀ y ∈ points h x, (v x).length ≤ (v y).length := by
  rw [pairUp_tail_map_points, columns, List.map_map]
  simp only [List.forall_mem_map, List.mem_range, Function.comp_apply, List.length_zipWith,
    le_min_iff]
  constructor
  · intro hcols y hy
    rcases mem_points_iff.mp hy with rfl | ⟨i, hi, rfl | rfl⟩
    · exact le_rfl
    · exact (hcols i hi).1
    · exact (hcols i hi).2
  · intro hpoints i hi
    exact ⟨hpoints _ (mem_points_iff.mpr (.inr ⟨i, hi, .inl rfl⟩)),
      hpoints _ (mem_points_iff.mpr (.inr ⟨i, hi, .inr rfl⟩))⟩

/-- The Jacobian that the values at the points make. -/
def differenceQuotients (h : α) (x : List α) (v : List α → List α) : SparseMatrix α :=
  .ofNonzeros x.length ((List.range (v x).length).map fun i =>
    (columns h (pairUp ((points h x).map v).tail)).map (Vec.coord · i))

theorem differenceQuotients_eq : differenceQuotients h x v =
    .ofNonzeros x.length ((List.range (v x).length).map fun i => (List.range x.length).map fun j =>
      Vec.coord (List.zipWith (quotient h) (v (forwardPoint h x j)) (v (backwardPoint h x j))) i) := by
  rw [differenceQuotients, pairUp_tail_map_points, columns]
  simp [Function.comp_def]

theorem jacobianOf?_of_long (hlong : ∀ y ∈ points h x, (v x).length ≤ (v y).length) :
    jacobianOf? h x.length ((points h x).map v) = some (v x, differenceQuotients h x v) := by
  rw [jacobianOf?, headD_map_points, rowsOf?_eq_some (forall_columns_iff.mpr hlong)]
  rfl

theorem jacobianOf?_of_short (hshort : ∃ y ∈ points h x, (v y).length < (v x).length) :
    jacobianOf? h x.length ((points h x).map v) = none := by
  have hrows : rowsOf? (v x).length (columns h (pairUp ((points h x).map v).tail)) = none := by
    rw [Option.eq_none_iff_forall_ne_some]
    intro rows hrows
    obtain ⟨y, hy, hlt⟩ := hshort
    exact absurd (forall_columns_iff.mp (exists_rowsOf?_iff.mp ⟨rows, hrows⟩) y hy) (not_le.mpr hlt)
  rw [jacobianOf?, headD_map_points, hrows]
  rfl

@[simp]
theorem height_differenceQuotients : (differenceQuotients h x v).height = (v x).length := by
  simp [differenceQuotients, SparseMatrix.ofNonzeros]

@[simp]
theorem cols_differenceQuotients : (differenceQuotients h x v).cols = x.length :=
  SparseMatrix.cols_ofRows _ _

theorem wellFormed_differenceQuotients : (differenceQuotients h x v).WellFormed := by
  apply wellFormed_ofNonzeros
  intro row hrow
  obtain ⟨i, -, rfl⟩ := List.mem_map.mp hrow
  rw [pairUp_tail_map_points, columns]
  simp

/-- Values beyond those at the point itself are not looked at. -/
theorem differenceQuotients_take :
    differenceQuotients h x (fun y => (v y).take (v x).length) = differenceQuotients h x v := by
  rw [differenceQuotients_eq, differenceQuotients_eq, List.length_take, Nat.min_self]
  congr 1
  refine List.map_congr_left fun i hi => List.map_congr_left fun j _ => ?_
  rw [← List.take_zipWith, Vec.coord, List.getElem?_take_of_lt (List.mem_range.mp hi)]
  rfl

end Values

/-! ## Functions that may fail -/

section Answers

variable (h : α) (g : List α → Evaluated (List α)) (x : List α)

/-- The function gives fewer values at a point beside `x` than at `x` itself. -/
def Ragged : Prop :=
  ∃ v : List α → List α, (∀ y ∈ points h x, g y = .ok (v y)) ∧
    ∃ y ∈ points h x, (v y).length < (v x).length

/-- The function fails with `e` at the first point where it fails at all. -/
def FailsFirst (e : Failure EvaluationError) : Prop :=
  ∃ before last after, points h x = before ++ last :: after ∧
    (∀ y ∈ before, ∃ v, g y = .ok v) ∧ g last = .error e

/-- The function has the values `v`, and none beside the point is too short. -/
structure Rectangular (v : List α → List α) : Prop where
  succeeds : ∀ y ∈ points h x, g y = .ok (v y)
  long : ∀ y ∈ points h x, (v x).length ≤ (v y).length

/-- The answers of a Jacobian: the failure of the function at the first point where it fails, a
fault if one of its values is too short, and otherwise the values with a matrix of their shape. -/
inductive Differentiated : Evaluated (List α × SparseMatrix α) → Prop
  | failed (e : Failure EvaluationError) (fails : FailsFirst h g x e) : Differentiated (.error e)
  | short (ragged : Ragged h g x) : Differentiated (.error (.fault .index))
  | answered (v : List α → List α) (rectangular : Rectangular h g x v) :
      Differentiated (.ok (v x, differenceQuotients h x v))

variable {h g x}

theorem jacobian_of_failsFirst {e : Failure EvaluationError} (moment : Moment)
    (hfails : FailsFirst h g x e) : (constraints h g).jacobian moment x = .error e := by
  obtain ⟨before, last, after, hsplit, hbefore, hlast⟩ := hfails
  show (jacobian? h g x >>= fun r? => Failure.ofOption .index r?) = _
  rw [jacobian?_eq, hsplit, mapM_of_error hbefore hlast]
  rfl

theorem jacobian_of_values (moment : Moment) {v : List α → List α}
    (hv : ∀ y ∈ points h x, g y = .ok (v y)) :
    (constraints h g).jacobian moment x =
      Failure.ofOption .index (jacobianOf? h x.length ((points h x).map v)) := by
  show (jacobian? h g x >>= fun r? => Failure.ofOption .index r?) = _
  rw [jacobian?_eq, mapM_eq_pure hv]
  rfl

theorem jacobian_of_ragged (moment : Moment) (hragged : Ragged h g x) :
    (constraints h g).jacobian moment x = .error (.fault .index) := by
  obtain ⟨v, hv, hshort⟩ := hragged
  rw [jacobian_of_values moment hv, jacobianOf?_of_short hshort]
  rfl

theorem jacobian_of_rectangular (moment : Moment) {v : List α → List α}
    (hv : Rectangular h g x v) :
    (constraints h g).jacobian moment x = .ok (v x, differenceQuotients h x v) := by
  rw [jacobian_of_values moment hv.succeeds, jacobianOf?_of_long hv.long]
  rfl

/-- Every Jacobian is one of the three answers. -/
theorem differentiated_jacobian (h : α) (g : List α → Evaluated (List α)) (x : List α)
    (moment : Moment) : Differentiated h g x ((constraints h g).jacobian moment x) := by
  cases evaluatesInOrder_jacobian? h g x with
  | stopped before last after e split succeeds fails journal outcome =>
      have hfails : FailsFirst h g x e := ⟨before, last, after, split, succeeds, fails⟩
      rw [jacobian_of_failsFirst moment hfails]
      exact .failed e hfails
  | finished result succeeds journal outcome =>
      choose! v hv using succeeds
      by_cases hlong : ∀ y ∈ points h x, (v x).length ≤ (v y).length
      · have hrectangular : Rectangular h g x v := ⟨hv, hlong⟩
        rw [jacobian_of_rectangular moment hrectangular]
        exact .answered v hrectangular
      · have hragged : Ragged h g x := ⟨v, hv, by simpa using hlong⟩
        rw [jacobian_of_ragged moment hragged]
        exact .short hragged

theorem jacobian_eq_ok_iff {moment : Moment} {r : List α × SparseMatrix α} :
    (constraints h g).jacobian moment x = .ok r ↔
      ∃ v, Rectangular h g x v ∧ r = (v x, differenceQuotients h x v) := by
  constructor
  · intro hr
    have hanswer := differentiated_jacobian h g x moment
    rw [hr] at hanswer
    cases hanswer with
    | answered v rectangular => exact ⟨v, rectangular, rfl⟩
  · rintro ⟨v, hv, rfl⟩
    exact jacobian_of_rectangular moment hv

/-- A failure is that of the function, or an index fault because of values that are too short. -/
theorem jacobian_eq_error_iff {moment : Moment} {e : Failure EvaluationError} :
    (constraints h g).jacobian moment x = .error e ↔
      FailsFirst h g x e ∨ e = .fault .index ∧ Ragged h g x := by
  constructor
  · intro he
    have hanswer := differentiated_jacobian h g x moment
    rw [he] at hanswer
    cases hanswer with
    | failed _ fails => exact .inl fails
    | short ragged => exact .inr ⟨rfl, ragged⟩
  · rintro (hfails | ⟨rfl, hragged⟩)
    · exact jacobian_of_failsFirst moment hfails
    · exact jacobian_of_ragged moment hragged

end Answers

end SeqQuad.CentralDifference
