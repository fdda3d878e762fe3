import SeqQuad.Proofs.Curvature.RankTwo
import SeqQuad.Proofs.Nonlinear.Descent

/-!
# Quadratic problems

A quadratic objective under affine constraints. A point with multipliers that meets the
first-order conditions minimizes a convex one, and those conditions at the full step are the
conditions of the quadratic program at the point before it.
-/

namespace SeqQuad.Nonlinear

open Extended Matrix

/-! ## The functions -/

/-- A quadratic objective and affine constraint values. -/
structure QuadraticData (n m : ℕ) where
  hessian : Matrix (Fin n) (Fin n) ℝ
  linear : Fin n → ℝ
  constant : ℝ
  rows : Matrix (Fin m) (Fin n) ℝ
  offset : Fin m → ℝ

namespace QuadraticData

variable {n m : ℕ} (q : QuadraticData n m)

noncomputable def value (x : Fin n → ℝ) : ℝ :=
  0.5 * (x ⬝ᵥ q.hessian *ᵥ x) + q.linear ⬝ᵥ x + q.constant

noncomputable def gradient (x : Fin n → ℝ) : Fin n → ℝ :=
  q.hessian *ᵥ x + q.linear

noncomputable def values (x : Fin n → ℝ) : Fin m → ℝ :=
  q.rows *ᵥ x + q.offset

theorem gradient_add (x d : Fin n → ℝ) : q.gradient (x + d) = q.gradient x + q.hessian *ᵥ d := by
  unfold gradient
  rw [mulVec_add]
  abel

theorem values_add (x d : Fin n → ℝ) : q.values (x + d) = q.values x + q.rows *ᵥ d := by
  unfold values
  rw [mulVec_add]
  abel

/-- The expansion of the objective at a point ends with the quadratic term. -/
theorem value_add (hsymm : q.hessian.IsHermitian) (x d : Fin n → ℝ) :
    q.value (x + d) = q.value x + d ⬝ᵥ q.gradient x + 0.5 * (d ⬝ᵥ q.hessian *ᵥ d) := by
  have hcross := Bfgs.dotProduct_mulVec_comm hsymm x d
  simp only [value, gradient, mulVec_add, add_dotProduct, dotProduct_add, hcross,
    dotProduct_comm q.linear d]
  ring

end QuadraticData

/-! ## First-order conditions -/

section Bound

variable {multiplier step v : ℝ} {lower upper : Extended}

/-- Complementary to the distances to the bounds is complementary to the bounds. -/
theorem Complementary.shift (h : Complementary multiplier step (lower - v) (upper - v)) :
    Complementary multiplier (v + step) lower upper := by
  rcases h with ⟨hlower, hupper, hactive, hactive'⟩
  constructor
  · cases lower <;> simp [sub_def, neg_def, add_def, Extended.neg, Extended.add] at hlower ⊢
    linarith
  · cases upper <;> simp [sub_def, neg_def, add_def, Extended.neg, Extended.add] at hupper ⊢
    linarith
  · intro hpos
    have hreach := hactive hpos
    cases upper <;> simp [sub_def, neg_def, add_def, Extended.neg, Extended.add] at hreach ⊢
    linarith
  · intro hneg
    have hreach := hactive' hneg
    cases lower <;> simp [sub_def, neg_def, add_def, Extended.neg, Extended.add] at hreach ⊢
    linarith

/-- No value within the bounds is farther in the direction of the multiplier. -/
theorem Complementary.mul_sub_nonpos (h : Complementary multiplier v lower upper) {w : ℝ}
    (hlower : lower ≤ (w : Extended)) (hupper : (w : Extended) ≤ upper) :
    multiplier * (w - v) ≤ 0 := by
  rcases lt_trichotomy multiplier 0 with hneg | hzero | hpos
  · rw [← h.lower_active hneg, real_le_real] at hlower
    exact mul_nonpos_of_nonpos_of_nonneg hneg.le (sub_nonneg.mpr hlower)
  · rw [hzero, zero_mul]
  · rw [← h.upper_active hpos, real_le_real] at hupper
    exact mul_nonpos_of_nonneg_of_nonpos hpos.le (sub_nonpos.mpr hupper)

end Bound

namespace Problem

variable (p : Problem Extended) (q : QuadraticData p.variableCount p.constraintCount)

/-- The point and its constraint values lie within the bounds of the problem. -/
structure Feasible (x : Fin p.variableCount → ℝ) : Prop where
  point : ∀ j : Fin p.variableCount,
    Vec.coord p.xmin j ≤ (x j : Extended) ∧ (x j : Extended) ≤ Vec.coord p.xmax j
  rows : ∀ i : Fin p.constraintCount,
    Vec.coord p.gmin i ≤ (q.values x i : Extended) ∧
      (q.values x i : Extended) ≤ Vec.coord p.gmax i

/-- A feasible point and multipliers of its active bounds under which the gradient of the
Lagrangian vanishes. -/
structure Kkt (x lamX : Fin p.variableCount → ℝ) (lamG : Fin p.constraintCount → ℝ) : Prop where
  stationary : q.gradient x + q.rowsᵀ *ᵥ lamG + lamX = 0
  point : ∀ j : Fin p.variableCount,
    Complementary (lamX j) (x j) (Vec.coord p.xmin j) (Vec.coord p.xmax j)
  rows : ∀ i : Fin p.constraintCount,
    Complementary (lamG i) (q.values x i) (Vec.coord p.gmin i) (Vec.coord p.gmax i)

variable {p q} {x lamX : Fin p.variableCount → ℝ} {lamG : Fin p.constraintCount → ℝ}

theorem Kkt.feasible (h : p.Kkt q x lamX lamG) : p.Feasible q x where
  point j := ⟨(h.point j).lower_le, (h.point j).le_upper⟩
  rows i := ⟨(h.rows i).lower_le, (h.rows i).le_upper⟩

/-- No feasible direction descends. -/
theorem Kkt.dot_gradient_nonneg (h : p.Kkt q x lamX lamG) {y : Fin p.variableCount → ℝ}
    (hy : p.Feasible q y) : 0 ≤ (y - x) ⬝ᵥ q.gradient x := by
  have hpoint : lamX ⬝ᵥ (y - x) ≤ 0 := by
    refine Finset.sum_nonpos fun j _ => ?_
    exact (h.point j).mul_sub_nonpos (hy.point j).1 (hy.point j).2
  have hchange : q.values y - q.values x = q.rows *ᵥ (y - x) := by
    have hadd := q.values_add x (y - x)
    rw [add_sub_cancel] at hadd
    rw [hadd, add_sub_cancel_left]
  have hrows : lamG ⬝ᵥ q.rows *ᵥ (y - x) ≤ 0 := by
    rw [← hchange]
    refine Finset.sum_nonpos fun i _ => ?_
    exact (h.rows i).mul_sub_nonpos (hy.rows i).1 (hy.rows i).2
  have hstationary := congrArg ((y - x) ⬝ᵥ ·) h.stationary
  simp only [dotProduct_add, dotProduct_zero] at hstationary
  rw [mulVec_transpose, dotProduct_comm _ (vecMul _ _), ← dotProduct_mulVec,
    dotProduct_comm _ lamX] at hstationary
  linarith

/-- On a convex problem the first-order conditions are met at minima only. -/
theorem Kkt.value_le (h : p.Kkt q x lamX lamG) (hconvex : q.hessian.PosSemidef)
    {y : Fin p.variableCount → ℝ} (hy : p.Feasible q y) : q.value x ≤ q.value y := by
  have hexpand := q.value_add hconvex.isHermitian x (y - x)
  rw [add_sub_cancel] at hexpand
  have hform : 0 ≤ (y - x) ⬝ᵥ q.hessian *ᵥ (y - x) := by
    simpa using hconvex.dotProduct_mulVec_nonneg (y - x)
  have hfirst := h.dot_gradient_nonneg hy
  linarith

end Problem

/-! ## Problems that pose them -/

/-- Well-formed compressed rows of real numbers that stand for a dense matrix, with room for the
starts of the rows. -/
structure Represents {n m : ℕ} (A : SparseMatrix Extended) (M : Matrix (Fin m) (Fin n) ℝ) :
    Prop where
  wellFormed : A.WellFormed
  real : A.IsReal
  height : A.height = m
  cols : A.cols = n
  dense : A.dense m n = M
  room : Vec.fits (A.height + 1)

/-- A real start, and functions that answer the exact values and derivatives at every real point
of the right length, at any moment. -/
structure Problem.Poses (p : Problem Extended)
    (q : QuadraticData p.variableCount p.constraintCount) : Prop where
  x0 : Vec.IsReal p.x0
  multipliers : ∀ lam, p.multipliers = some lam → lam.IsReal
  value : ∀ m x, Vec.IsReal x → x.length = p.variableCount →
    p.objective.value m x = .ok (real (q.value (Vec.reals p.variableCount x)))
  gradient : ∀ m x, Vec.IsReal x → x.length = p.variableCount →
    p.objective.gradient m x = .ok (real (q.value (Vec.reals p.variableCount x)),
      Vec.ofReals (q.gradient (Vec.reals p.variableCount x)))
  values : ∀ c, p.constraints = some c → ∀ m x, Vec.IsReal x → x.length = p.variableCount →
    c.values m x = .ok (Vec.ofReals (q.values (Vec.reals p.variableCount x)))
  jacobian : ∀ c, p.constraints = some c → ∀ m x, Vec.IsReal x → x.length = p.variableCount →
    ∃ jac, c.jacobian m x = .ok (Vec.ofReals (q.values (Vec.reals p.variableCount x)), jac) ∧
      Represents jac q.rows
  hessian : ∀ hess, p.hessian = some hess → ∀ m x lam, Vec.IsReal x → Vec.IsReal lam →
    x.length = p.variableCount → lam.length = p.constraintCount →
    ∃ h, hess m x lam 1 = .ok h ∧ Represents h q.hessian

/-! ## Affine constraints -/

/-- Constraint functions that answer, at every real point, the values of one affine map and its
matrix. -/
def Problem.AffineConstraints (p : Problem Extended)
    (A : Matrix (Fin p.constraintCount) (Fin p.variableCount) ℝ)
    (b : Fin p.constraintCount → ℝ) : Prop :=
  ∀ c, p.constraints = some c → ∀ moment x g jac, Vec.IsReal x → x.length = p.variableCount →
    c.jacobian moment x = .ok (g, jac) →
      Vec.IsReal g ∧ jac.IsReal ∧
        Vec.reals p.constraintCount g = A *ᵥ Vec.reals p.variableCount x + b ∧
        jac.dense p.constraintCount p.variableCount = A

theorem Problem.Poses.affineConstraints {p : Problem Extended}
    {q : QuadraticData p.variableCount p.constraintCount} (h : p.Poses q) :
    p.AffineConstraints q.rows q.offset := by
  intro c hc m x g jac hx hlen hanswer
  obtain ⟨jac', hjac, hrep⟩ := h.jacobian c hc m x hx hlen
  obtain ⟨rfl, rfl⟩ := Prod.mk.inj (Except.ok.inj (hjac.symm.trans hanswer))
  exact ⟨Vec.isReal_ofReals _, hrep.real, Vec.reals_ofReals _, hrep.dense⟩

/-- The values and the Jacobian at a real point are those of the affine map, also of none. -/
theorem Task.JacobianAnswer.affine {t : Task Extended}
    {A : Matrix (Fin t.problem.constraintCount) (Fin t.problem.variableCount) ℝ}
    {b : Fin t.problem.constraintCount → ℝ} {m : Moment} {x g : List Extended}
    {jac : SparseMatrix Extended} (h : t.JacobianAnswer m x g jac)
    (hp : t.problem.AffineConstraints A b)
    (hnone : t.problem.constraints = none → t.problem.constraintCount = 0) (hx : Vec.IsReal x)
    (hlen : x.length = t.problem.variableCount) :
    Vec.IsReal g ∧ jac.IsReal ∧
      Vec.reals t.problem.constraintCount g = A *ᵥ Vec.reals t.problem.variableCount x + b ∧
      jac.dense t.problem.constraintCount t.problem.variableCount = A := by
  unfold JacobianAnswer at h
  cases hc : t.problem.constraints with
  | none =>
      simp only [hc] at h
      obtain ⟨rfl, rfl⟩ := h
      have hempty : IsEmpty (Fin t.problem.constraintCount) := by
        rw [hnone hc]
        infer_instance
      exact ⟨Vec.isReal_nil, isReal_empty _ _, Subsingleton.elim _ _, Subsingleton.elim _ _⟩
  | some c =>
      simp only [hc] at h
      exact hp c hc m x g jac hx hlen h.1

end SeqQuad.Nonlinear
