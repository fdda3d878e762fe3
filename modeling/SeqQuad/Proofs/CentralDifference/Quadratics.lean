import SeqQuad.Proofs.CentralDifference.Shapes
import SeqQuad.Proofs.SparseMatrix.Blocks
import SeqQuad.Proofs.SparseMatrix.Full

/-!
# Central differences of quadratics

Along a coordinate a polynomial is one of a single variable, of no higher degree, whose derivative
at the point is the partial derivative. Of degree two it takes its even part equally on both
sides, so the difference of the two values is the derivative times the step. The gradients and
Jacobians of functions whose values are such polynomials are exact, whatever the step.
-/

namespace SeqQuad.CentralDifference

open Extended Matrix

/-! ## Polynomials along a coordinate -/

section Polynomials

variable {n : ℕ} (x : Fin n → ℝ) (j : Fin n)

/-- A polynomial as one of the distance from `x` along the coordinate `j`. -/
noncomputable def alongCoordinate : MvPolynomial (Fin n) ℝ →ₐ[ℝ] Polynomial ℝ :=
  MvPolynomial.aeval fun i => Polynomial.C (x i) + if i = j then Polynomial.X else 0

@[simp]
theorem alongCoordinate_X (i : Fin n) : alongCoordinate x j (MvPolynomial.X i) =
    Polynomial.C (x i) + if i = j then Polynomial.X else 0 :=
  MvPolynomial.aeval_X _ i

@[simp]
theorem alongCoordinate_C (a : ℝ) : alongCoordinate x j (MvPolynomial.C a) = Polynomial.C a :=
  MvPolynomial.aeval_C _ a

theorem eval_alongCoordinate (p : MvPolynomial (Fin n) ℝ) (t : ℝ) :
    (alongCoordinate x j p).eval t = MvPolynomial.eval (x + Pi.single j t) p := by
  induction p using MvPolynomial.induction_on with
  | C a => simp
  | add p q hp hq => rw [map_add, Polynomial.eval_add, hp, hq, map_add]
  | mul_X p i hp =>
      rw [map_mul, Polynomial.eval_mul, hp, map_mul, alongCoordinate_X, MvPolynomial.eval_X]
      congr 1
      by_cases hij : i = j <;> simp [hij]

theorem derivative_alongCoordinate (p : MvPolynomial (Fin n) ℝ) :
    Polynomial.derivative (alongCoordinate x j p) = alongCoordinate x j (MvPolynomial.pderiv j p) := by
  induction p using MvPolynomial.induction_on with
  | C a => simp
  | add p q hp hq => rw [map_add, map_add, hp, hq, map_add, map_add]
  | mul_X p i hp =>
      have hX : Polynomial.derivative (alongCoordinate x j (MvPolynomial.X i)) =
          alongCoordinate x j (MvPolynomial.pderiv j (MvPolynomial.X i)) := by
        rw [alongCoordinate_X, MvPolynomial.pderiv_X]
        by_cases hij : i = j <;> simp [hij]
      rw [map_mul, Polynomial.derivative_mul, hp, hX, MvPolynomial.pderiv_mul, map_add, map_mul,
        map_mul]

theorem natDegree_alongCoordinate_le (p : MvPolynomial (Fin n) ℝ) :
    (alongCoordinate x j p).natDegree ≤ p.totalDegree := by
  have hlinear : ∀ i : Fin n,
      (Polynomial.C (x i) + if i = j then Polynomial.X else 0).natDegree ≤ 1 := by
    intro i
    refine (Polynomial.natDegree_add_le _ _).trans (max_le (by simp) ?_)
    split <;> simp
  have hdegree := MvPolynomial.aeval_natDegree_le p le_rfl _ hlinear
  rwa [mul_one] at hdegree

/-- The even part of a polynomial of degree two cancels. -/
theorem difference_of_natDegree_le {q : Polynomial ℝ} (hq : q.natDegree ≤ 2) {h : ℝ} (hh : h ≠ 0) :
    (q.eval (h / 2) - q.eval (-(h / 2))) / h = q.derivative.eval 0 := by
  have hslope : q.derivative.eval 0 = q.coeff 1 := by
    rw [← Polynomial.coeff_zero_eq_eval_zero, Polynomial.coeff_derivative]
    simp
  rw [hslope, Polynomial.eval_eq_sum_range' (Nat.lt_succ_of_le hq),
    Polynomial.eval_eq_sum_range' (Nat.lt_succ_of_le hq)]
  simp only [Finset.sum_range_succ, Finset.sum_range_zero]
  field_simp
  ring

/-- The central difference of a polynomial of degree two is its partial derivative. -/
theorem difference_eq_pderiv {p : MvPolynomial (Fin n) ℝ} (hp : p.totalDegree ≤ 2) {h : ℝ}
    (hh : h ≠ 0) :
    (MvPolynomial.eval (x + Pi.single j (h / 2)) p - MvPolynomial.eval (x - Pi.single j (h / 2)) p) /
      h = MvPolynomial.eval x (MvPolynomial.pderiv j p) := by
  have hdegree := (natDegree_alongCoordinate_le x j p).trans hp
  have hback : x - Pi.single j (h / 2) = x + Pi.single j (-(h / 2)) := by
    rw [Pi.single_neg, sub_eq_add_neg]
  rw [hback, ← eval_alongCoordinate, ← eval_alongCoordinate, difference_of_natDegree_le hdegree hh,
    derivative_alongCoordinate, eval_alongCoordinate]
  simp

end Polynomials

/-! ## Matrices without their zeros -/

section Nonzeros

open SparseMatrix

/-- A sparse matrix of real numbers with all entries in place stands for `M`. -/
structure Denotes {m n : ℕ} (A : SparseMatrix Extended) (M : Matrix (Fin m) (Fin n) ℝ) : Prop where
  wellFormed : A.WellFormed
  real : A.IsReal
  height : A.height = m
  cols : A.cols = n
  dense : A.dense m n = M

/-- The zeros that are left out add nothing. -/
theorem rowEntry_filter (row : List (ℕ × Extended)) (j : ℕ) :
    rowEntry (row.filter fun e => !Scalar.same e.2 0) j = rowEntry row j := by
  induction row with
  | nil => rfl
  | cons e row ih =>
      rw [List.filter_cons]
      split
      case isTrue => rw [rowEntry_cons, rowEntry_cons, ih]
      case isFalse hsame =>
        have hzero : e.2 = 0 := (same_iff_eq ⟨0, zero_eq⟩).mp (by simpa using hsame)
        rw [ih, rowEntry_cons, hzero]
        simp

theorem denotes_ofNonzeros {m n : ℕ} {f : ℕ → ℕ → Extended} {M : Matrix (Fin m) (Fin n) ℝ}
    (h : ∀ (i : Fin m) (j : Fin n), f i j = real (M i j)) :
    Denotes (ofNonzeros n ((List.range m).map fun i => (List.range n).map (f i))) M where
  wellFormed := wellFormed_ofNonzeros (by simp)
  real := by
    refine isReal_of_rows fun row hrow e he => ?_
    simp only [List.map_map, List.mem_map, List.mem_range] at hrow
    obtain ⟨i, hi, rfl⟩ := hrow
    obtain ⟨⟨v, k⟩, hv, rfl⟩ := List.mem_map.mp (List.mem_of_mem_filter he)
    obtain ⟨j, hj, rfl⟩ := List.mem_map.mp (List.fst_mem_of_mem_zipIdx hv)
    exact ⟨_, h ⟨i, hi⟩ ⟨j, List.mem_range.mp hj⟩⟩
  height := by simp [ofNonzeros]
  cols := cols_ofRows _ _
  dense := by
    ext i j
    have hrow : (((List.range n).map (f i)).zipIdx.map fun e => (e.2, e.1)) =
        (List.range n).map fun k => (k, f i k) := by
      apply List.ext_getElem <;> simp
    show rowEntry ((ofNonzeros n _).row i) j = _
    rw [ofNonzeros, row_ofRows _ _ (by simp)]
    simp only [List.getElem_map, List.getElem_range]
    rw [hrow, rowEntry_filter, rowEntry_map_range _ j.isLt, h, toReal_real]

end Nonzeros

/-! ## Points of real numbers -/

section Points

variable {n : ℕ}

/-- The point `x` and the points at the distance `t` from it on both sides along each coordinate,
in the order of their evaluation. -/
noncomputable def realPoints (t : ℝ) (x : Fin n → ℝ) : List (Fin n → ℝ) :=
  x :: (List.finRange n).flatMap fun j => [x + Pi.single j t, x - Pi.single j t]

/-- A coordinate of a point is moved by the multiple of its unit vector. -/
theorem set_ofReals (x : Fin n → ℝ) (j : Fin n) (t : ℝ) :
    (Vec.ofReals x).set j (real (x j + t)) = Vec.ofReals (x + Pi.single j t) := by
  refine Vec.ext_coord (n := n) (by simp) (by simp) fun k => ?_
  rw [Vec.coord_ofReals]
  by_cases hk : k = j
  · subst hk
    rw [Vec.coord_set_self (by simp)]
    simp
  · rw [Vec.coord_set_of_ne (Fin.val_ne_of_ne hk), Vec.coord_ofReals]
    simp [hk]

theorem half_eq (h : ℝ) : (h : Extended) / 2.0 = real (h / 2) := by
  rw [ofScientific_eq, real_div_real _ (by norm_num)]
  norm_num

theorem forwardPoint_ofReals (h : ℝ) (x : Fin n → ℝ) (j : Fin n) :
    forwardPoint (h : Extended) (Vec.ofReals x) j = Vec.ofReals (x + Pi.single j (h / 2)) := by
  rw [forwardPoint, Vec.coord_ofReals, half_eq, real_add_real, set_ofReals]

theorem backwardPoint_ofReals (h : ℝ) (x : Fin n → ℝ) (j : Fin n) :
    backwardPoint (h : Extended) (Vec.ofReals x) j = Vec.ofReals (x - Pi.single j (h / 2)) := by
  rw [backwardPoint, Vec.coord_ofReals, half_eq, real_sub_real, sub_eq_add_neg, set_ofReals,
    Pi.single_neg, sub_eq_add_neg]

theorem points_ofReals (h : ℝ) (x : Fin n → ℝ) :
    points (h : Extended) (Vec.ofReals x) = (realPoints (h / 2) x).map Vec.ofReals := by
  rw [points, pointsAlong, Vec.length_ofReals, realPoints, List.map_cons, List.map_flatMap,
    ← List.map_coe_finRange_eq_range, List.flatMap_map]
  refine congrArg _ (List.flatMap_congr fun j _ => ?_)
  rw [forwardPoint_ofReals, backwardPoint_ofReals]
  rfl

end Points

/-! ## Exactness -/

section Exactness

variable {n m : ℕ} {h : ℝ} (x : Fin n → ℝ)

/-- A function has the values of a polynomial at all points of real numbers. -/
def Computes (f : List Extended → Evaluated Extended) (p : MvPolynomial (Fin n) ℝ) : Prop :=
  ∀ y : Fin n → ℝ, f (Vec.ofReals y) = .ok (real (MvPolynomial.eval y p))

/-- The values of some polynomials as a list. -/
noncomputable def valuesOf (q : Fin m → MvPolynomial (Fin n) ℝ) (y : Fin n → ℝ) : List Extended :=
  Vec.ofReals fun i => MvPolynomial.eval y (q i)

/-- A function has the values of some polynomials at all points of real numbers. -/
def ComputesAll (g : List Extended → Evaluated (List Extended))
    (q : Fin m → MvPolynomial (Fin n) ℝ) : Prop :=
  ∀ y : Fin n → ℝ, g (Vec.ofReals y) = .ok (valuesOf q y)

theorem quotient_eq_pderiv (hh : h ≠ 0) {p : MvPolynomial (Fin n) ℝ} (hp : p.totalDegree ≤ 2)
    (j : Fin n) :
    quotient (h : Extended) (real (MvPolynomial.eval (x + Pi.single j (h / 2)) p))
        (real (MvPolynomial.eval (x - Pi.single j (h / 2)) p)) =
      real (MvPolynomial.eval x (MvPolynomial.pderiv j p)) := by
  rw [quotient, real_sub_real, real_div_real _ hh, difference_eq_pderiv x j hp hh]

variable {x} in
/-- A function that gives real numbers at real points gives them at the points of a derivative. -/
theorem eq_ok_of_mem_points {β : Type} {f : List Extended → Evaluated β} {v : (Fin n → ℝ) → β}
    (hf : ∀ y, f (Vec.ofReals y) = .ok (v y)) {y : List Extended}
    (hy : y ∈ points (h : Extended) (Vec.ofReals x)) : f y = .ok (v (Vec.reals n y)) := by
  rw [points_ofReals] at hy
  obtain ⟨z, -, rfl⟩ := List.mem_map.mp hy
  rw [hf z, Vec.reals_ofReals]

theorem gradient_of_computes (hh : h ≠ 0) {f : List Extended → Evaluated Extended}
    {p : MvPolynomial (Fin n) ℝ} (hp : p.totalDegree ≤ 2) (hf : Computes f p) (moment : Moment) :
    (objective (h : Extended) f).gradient moment (Vec.ofReals x) =
      .ok (real (MvPolynomial.eval x p),
        Vec.ofReals fun j => MvPolynomial.eval x (MvPolynomial.pderiv j p)) := by
  rw [gradient_of_values moment fun y hy => eq_ok_of_mem_points hf hy, Vec.reals_ofReals,
    Vec.length_ofReals]
  congr 2
  refine Vec.ext_coord (n := n) (by simp) (by simp) fun j => ?_
  rw [Vec.coord_map_range _ j.isLt, Vec.coord_ofReals, forwardPoint_ofReals, backwardPoint_ofReals,
    Vec.reals_ofReals, Vec.reals_ofReals, quotient_eq_pderiv x hh hp]

theorem denotes_differenceQuotients (hh : h ≠ 0) {q : Fin m → MvPolynomial (Fin n) ℝ}
    (hq : ∀ i, (q i).totalDegree ≤ 2) :
    Denotes
      (differenceQuotients (h : Extended) (Vec.ofReals x) fun y => valuesOf q (Vec.reals n y))
      (Matrix.of fun i j => MvPolynomial.eval x (MvPolynomial.pderiv j (q i))) := by
  rw [differenceQuotients_eq, valuesOf, Vec.length_ofReals, Vec.length_ofReals]
  refine denotes_ofNonzeros fun i j => ?_
  rw [forwardPoint_ofReals, backwardPoint_ofReals, Vec.reals_ofReals, Vec.reals_ofReals,
    Vec.coord_zipWith _ (by simp [valuesOf]) (by simp [valuesOf]), valuesOf, valuesOf,
    Vec.coord_ofReals, Vec.coord_ofReals, quotient_eq_pderiv x hh (hq i)]
  rfl

theorem jacobian_of_computesAll (hh : h ≠ 0) {g : List Extended → Evaluated (List Extended)}
    {q : Fin m → MvPolynomial (Fin n) ℝ} (hq : ∀ i, (q i).totalDegree ≤ 2) (hg : ComputesAll g q)
    (moment : Moment) :
    ∃ J, (constraints (h : Extended) g).jacobian moment (Vec.ofReals x) =
        .ok (valuesOf q x, J) ∧
      Denotes J (Matrix.of fun i j => MvPolynomial.eval x (MvPolynomial.pderiv j (q i))) := by
  refine ⟨_, ?_, denotes_differenceQuotients x hh hq⟩
  have hrectangular : Rectangular (h : Extended) g (Vec.ofReals x) fun y =>
      valuesOf q (Vec.reals n y) :=
    ⟨fun y hy => eq_ok_of_mem_points hg hy, fun y _ => by simp [valuesOf]⟩
  rw [jacobian_of_rectangular moment hrectangular, Vec.reals_ofReals]

open Journaled in
/-- What central differences with the step `h` do at `x`: where the values are those of
polynomials of degree two the derivatives are exact, and any function at all is called at the
point and then half a step forward and backward along each coordinate in turn, up to its first
failure, which is the result. -/
structure Differences (h : ℝ) (x : Fin n → ℝ) : Prop where
  objective {f : List Extended → Evaluated Extended} {p : MvPolynomial (Fin n) ℝ}
      (degree : p.totalDegree ≤ 2) (computes : Computes f p) (moment : Moment) :
    (objective (h : Extended) f).gradient moment (Vec.ofReals x) =
      .ok (real (MvPolynomial.eval x p),
        Vec.ofReals fun j => MvPolynomial.eval x (MvPolynomial.pderiv j p))
  constraints {m : ℕ} {g : List Extended → Evaluated (List Extended)}
      {q : Fin m → MvPolynomial (Fin n) ℝ} (degree : ∀ i, (q i).totalDegree ≤ 2)
      (computes : ComputesAll g q) (moment : Moment) :
    ∃ J, (constraints (h : Extended) g).jacobian moment (Vec.ofReals x) = .ok (valuesOf q x, J) ∧
      Denotes J (Matrix.of fun i j => MvPolynomial.eval x (MvPolynomial.pderiv j (q i)))
  gradient_calls (f : List Extended → Evaluated Extended) :
    EvaluatesInOrder f ((realPoints (h / 2) x).map Vec.ofReals)
      (gradient (h : Extended) (noted f) (Vec.ofReals x))
  gradient_outcome (f : List Extended → Evaluated Extended) (moment : Moment) :
    (CentralDifference.objective (h : Extended) f).gradient moment (Vec.ofReals x) =
      (gradient (h : Extended) (noted f) (Vec.ofReals x)).outcome
  jacobian_calls (g : List Extended → Evaluated (List Extended)) :
    EvaluatesInOrder g ((realPoints (h / 2) x).map Vec.ofReals)
      (jacobian? (h : Extended) (noted g) (Vec.ofReals x))
  jacobian_outcome (g : List Extended → Evaluated (List Extended)) (moment : Moment) :
    (CentralDifference.constraints (h : Extended) g).jacobian moment (Vec.ofReals x) =
      (jacobian? (h : Extended) (noted g) (Vec.ofReals x)).outcome >>= Failure.ofOption .index

/-- Central differences are exact on quadratics, and evaluate any function in order. -/
theorem differences (x : Fin n → ℝ) (hh : h ≠ 0) : Differences h x where
  objective degree computes moment := gradient_of_computes x hh degree computes moment
  constraints degree computes moment := jacobian_of_computesAll x hh degree computes moment
  gradient_calls f := by
    rw [← points_ofReals]
    exact evaluatesInOrder_gradient _ f _
  gradient_outcome f moment := (outcome_gradient _ f _ moment).symm
  jacobian_calls g := by
    rw [← points_ofReals]
    exact evaluatesInOrder_jacobian? _ g _
  jacobian_outcome g moment := by
    rw [outcome_jacobian?]
    rfl

end Exactness

/-! ## A saddle -/

section Saddle

/-- The square of the coordinate `i`, with its product with `j` added. -/
noncomputable def saddle (i j : Fin 2) : MvPolynomial (Fin 2) ℝ :=
  MvPolynomial.X i * MvPolynomial.X i + MvPolynomial.X i * MvPolynomial.X j

noncomputable def saddleValue (y : List Extended) : Evaluated Extended :=
  .ok (Vec.coord y 0 * Vec.coord y 0 + Vec.coord y 0 * Vec.coord y 1)

theorem computes_saddle : Computes saddleValue (saddle 0 1) := by
  intro y
  have h0 : Vec.coord (Vec.ofReals y) 0 = real (y 0) := Vec.coord_ofReals y 0
  have h1 : Vec.coord (Vec.ofReals y) 1 = real (y 1) := Vec.coord_ofReals y 1
  simp [saddleValue, saddle, h0, h1]

theorem totalDegree_saddle : (saddle 0 1).totalDegree ≤ 2 := by
  refine (MvPolynomial.totalDegree_add _ _).trans (max_le ?_ ?_) <;>
    refine (MvPolynomial.totalDegree_mul _ _).trans ?_ <;> simp

theorem eval_saddle : MvPolynomial.eval ![1, 2] (saddle 0 1) = 3 := by
  simp [saddle]
  norm_num

theorem slopes_saddle :
    (fun j => MvPolynomial.eval ![1, 2] (MvPolynomial.pderiv j (saddle 0 1))) = ![4, 1] := by
  funext j
  fin_cases j <;> simp [saddle, MvPolynomial.pderiv_X]
  norm_num

/-- The saddle as the only constraint. -/
noncomputable def saddleValues (y : List Extended) : Evaluated (List Extended) :=
  List.singleton <$> saddleValue y

theorem computesAll_saddle : ComputesAll saddleValues fun _ : Fin 1 => saddle 0 1 :=
  fun y => congrArg (List.singleton <$> ·) (computes_saddle y)

/-- At `(1, 2)` the derivatives of the saddle are `4` and `1`. Half a step to each side finds
them, as a gradient and as the only row of a Jacobian. -/
theorem differences_saddle :
    (1 : ℝ) ≠ 0 ∧ (saddle 0 1).totalDegree ≤ 2 ∧ Computes saddleValue (saddle 0 1) ∧
      (objective ((1 : ℝ) : Extended) saddleValue).gradient ⟨0, 0⟩ (Vec.ofReals ![1, 2]) =
        .ok (real 3, Vec.ofReals ![4, 1]) ∧
      ∃ J, (constraints ((1 : ℝ) : Extended) saddleValues).jacobian ⟨0, 0⟩
          (Vec.ofReals ![1, 2]) = .ok ([real 3], J) ∧ Denotes J !![4, 1] := by
  have hdifferences := differences ![1, 2] (one_ne_zero : (1 : ℝ) ≠ 0)
  refine ⟨one_ne_zero, totalDegree_saddle, computes_saddle, ?_, ?_⟩
  · rw [hdifferences.objective totalDegree_saddle computes_saddle, eval_saddle, slopes_saddle]
  · obtain ⟨J, hJ, hdenotes⟩ :=
      hdifferences.constraints (fun _ => totalDegree_saddle) computesAll_saddle ⟨0, 0⟩
    refine ⟨J, ?_, ?_⟩
    · rw [hJ, valuesOf, eval_saddle]
      rfl
    · convert hdenotes using 1
      ext i j
      rw [Subsingleton.elim i 0]
      exact (congrFun slopes_saddle j).symm

end Saddle

end SeqQuad.CentralDifference
