import SeqQuad.Proofs.Nonlinear.Coherence

/-!
# The predicted change of merit

At an exact solution of the subproblem the slope that the line search is given is the negative
curvature along the step, plus the excess of every active bound weighted by its multiplier, minus
the penalty times the largest excess. The penalty exceeds each multiplier, but not their sum: so
descent is certain for one violated active bound, and in general just when the penalty pays for
all of them together.
-/

namespace SeqQuad.Nonlinear

open Extended Matrix

/-! ## One bound -/

/-- How far a value lies outside the bound that a multiplier of this sign belongs to. -/
noncomputable def excess (multiplier : ℝ) (v lower upper : Extended) : ℝ :=
  if 0 < multiplier then (v - upper).toReal else (lower - v).toReal

/-- A step within the distances to the bounds, and a multiplier that is positive only if the step
reaches the upper bound and negative only if it reaches the lower bound. -/
structure Complementary (multiplier step : ℝ) (lower upper : Extended) : Prop where
  lower_le : lower ≤ (step : Extended)
  le_upper : (step : Extended) ≤ upper
  upper_active : 0 < multiplier → (step : Extended) = upper
  lower_active : multiplier < 0 → (step : Extended) = lower

section Bound

variable {multiplier step v : ℝ} {lower upper : Extended}

/-- The product of multiplier and step is what the step removes of the excess. -/
theorem Complementary.mul_eq (h : Complementary multiplier step (lower - v) (upper - v)) :
    multiplier * step = -(|multiplier| * excess multiplier v lower upper) := by
  unfold excess
  rcases lt_trichotomy multiplier 0 with hneg | hzero | hpos
  · rw [if_neg hneg.not_gt, ← h.lower_active hneg, toReal_real, abs_of_neg hneg]
    ring
  · simp [hzero]
  · rw [if_pos hpos, neg_sub_eq (h.upper_active hpos), toReal_real, abs_of_pos hpos]
    ring

/-- The excess at an active bound is at most what bounds both excesses. -/
theorem Complementary.abs_mul_excess_le
    (h : Complementary multiplier step (lower - v) (upper - v)) {bound : ℝ}
    (hlower : lower - (v : Extended) ≤ (bound : Extended))
    (hupper : (v : Extended) - upper ≤ (bound : Extended)) :
    |multiplier| * excess multiplier v lower upper ≤ |multiplier| * bound := by
  unfold excess
  rcases lt_trichotomy multiplier 0 with hneg | hzero | hpos
  · rw [if_neg hneg.not_gt, ← h.lower_active hneg, toReal_real]
    rw [← h.lower_active hneg, real_le_real] at hlower
    exact mul_le_mul_of_nonneg_left hlower (abs_nonneg _)
  · simp [hzero]
  · rw [neg_sub_eq (h.upper_active hpos), real_le_real] at hupper
    rw [if_pos hpos, neg_sub_eq (h.upper_active hpos), toReal_real]
    exact mul_le_mul_of_nonneg_left hupper (abs_nonneg _)

/-- Bounds that a real step can meet are exceeded by a finite amount. -/
theorem Complementary.excess_lt (h : Complementary multiplier step (lower - v) (upper - v)) :
    lower - (v : Extended) < posInf ∧ (v : Extended) - upper < posInf := by
  rcases h with ⟨hl, hu, -, -⟩
  constructor
  · cases lower <;>
      simp [sub_def, neg_def, add_def, Extended.neg, Extended.add, lt_iff] at hl ⊢
  · cases upper <;>
      simp [sub_def, neg_def, add_def, Extended.neg, Extended.add, lt_iff] at hu ⊢

end Bound

/-! ## All bounds -/

/-- The first-order conditions of a quadratic program in the real numbers, met exactly. -/
structure ExactKkt (qp : QuadraticProgram Extended) (n m : ℕ)
    (sol : QuadraticSolution Extended) : Prop where
  stationary : qp.h.dense n n *ᵥ Vec.reals n sol.x + Vec.reals n qp.g +
    (qp.a.dense m n)ᵀ *ᵥ Vec.reals m sol.lamA + Vec.reals n sol.lamX = 0
  point : ∀ j : Fin n, Complementary (Vec.reals n sol.lamX j) (Vec.reals n sol.x j)
    (Vec.coord qp.lbx j) (Vec.coord qp.ubx j)
  rows : ∀ i : Fin m, Complementary (Vec.reals m sol.lamA i)
    ((qp.a.dense m n *ᵥ Vec.reals n sol.x) i) (Vec.coord qp.lba i) (Vec.coord qp.uba i)

namespace Problem

variable (p : Problem Extended) (s : Iterate Extended) (sol : QuadraticSolution Extended)

/-- The quadratic form of the Hessian of a head at a step. -/
noncomputable def curvatureAlong : ℝ :=
  Vec.reals p.variableCount sol.x ⬝ᵥ
    s.hessian.dense p.variableCount p.variableCount *ᵥ Vec.reals p.variableCount sol.x

/-- The excesses over the bounds with a multiplier, each weighted by the magnitude of it. -/
noncomputable def weightedExcess : ℝ :=
  (∑ j : Fin p.variableCount, |Vec.reals p.variableCount sol.lamX j| *
    excess (Vec.reals p.variableCount sol.lamX j) (Vec.coord s.x j) (Vec.coord p.xmin j)
      (Vec.coord p.xmax j)) +
  ∑ i : Fin p.constraintCount, |Vec.reals p.constraintCount sol.lamA i| *
    excess (Vec.reals p.constraintCount sol.lamA i) (Vec.coord s.g i) (Vec.coord p.gmin i)
      (Vec.coord p.gmax i)

/-- The sum of the magnitudes of all multipliers. -/
noncomputable def multiplierSum : ℝ :=
  (∑ j : Fin p.variableCount, |Vec.reals p.variableCount sol.lamX j|) +
    ∑ i : Fin p.constraintCount, |Vec.reals p.constraintCount sol.lamA i|

end Problem

section Slope

variable {p : Problem Extended} {opt : Options Extended} {backend : Backend Extended}
  {callback : Option (Snapshot Extended → Bool)} {checked : Checked Extended}
  {s : Iterate Extended} {sol : QuadraticSolution Extended}

/-- A head with the lengths and the real data that the loop keeps, and an exact answer. -/
structure Answered (p : Problem Extended) (opt : Options Extended) (t : Task Extended)
    (s : Iterate Extended) (sol : QuadraticSolution Extended) : Prop where
  problem : t.problem = p
  denotes : p.Denotes opt s
  boxedX : Boxed p.variableCount s.x p.xmin p.xmax
  boxedG : Boxed p.constraintCount s.g p.gmin p.gmax
  real : sol.IsReal
  length_x : sol.x.length = p.variableCount
  length_lamX : sol.lamX.length = p.variableCount
  length_lamA : sol.lamA.length = p.constraintCount
  kkt : ExactKkt (t.subproblem s) p.variableCount p.constraintCount sol

variable {t : Task Extended} (h : Answered p opt t s sol)
include h

theorem Answered.complementary_point (j : Fin p.variableCount) :
    ∃ v : ℝ, Vec.coord s.x j = v ∧
      Complementary (Vec.reals p.variableCount sol.lamX j) (Vec.reals p.variableCount sol.x j)
        (Vec.coord p.xmin j - v) (Vec.coord p.xmax j - v) := by
  obtain ⟨v, hv⟩ := h.boxedX.real.coord j
  have hlen : (j : ℕ) < s.x.length := by
    rw [h.boxedX.length_values]
    exact j.isLt
  have hlower : (j : ℕ) < p.xmin.length := by
    rw [h.boxedX.length_lower]
    exact j.isLt
  have hupper : (j : ℕ) < p.xmax.length := by
    rw [h.boxedX.length_upper]
    exact j.isLt
  have hpoint := h.kkt.point j
  simp only [Task.subproblem, h.problem] at hpoint
  rw [Vec.coord_sub hlower hlen, Vec.coord_sub hupper hlen, hv] at hpoint
  exact ⟨v, hv, hpoint⟩

theorem Answered.complementary_row (i : Fin p.constraintCount) :
    ∃ v : ℝ, Vec.coord s.g i = v ∧
      Complementary (Vec.reals p.constraintCount sol.lamA i)
        ((s.jacobian.dense p.constraintCount p.variableCount *ᵥ
          Vec.reals p.variableCount sol.x) i)
        (Vec.coord p.gmin i - v) (Vec.coord p.gmax i - v) := by
  obtain ⟨v, hv⟩ := h.boxedG.real.coord i
  have hlen : (i : ℕ) < s.g.length := by
    rw [h.boxedG.length_values]
    exact i.isLt
  have hlower : (i : ℕ) < p.gmin.length := by
    rw [h.boxedG.length_lower]
    exact i.isLt
  have hupper : (i : ℕ) < p.gmax.length := by
    rw [h.boxedG.length_upper]
    exact i.isLt
  have hrow := h.kkt.rows i
  simp only [Task.subproblem, h.problem] at hrow
  rw [Vec.coord_sub hlower hlen, Vec.coord_sub hupper hlen, hv] at hrow
  exact ⟨v, hv, hrow⟩

/-- The step along the gradient: what the curvature takes and what the excesses give. -/
theorem Answered.dot_gradient :
    Vec.reals p.variableCount sol.x ⬝ᵥ Vec.reals p.variableCount s.gradF =
      -p.curvatureAlong s sol + p.weightedExcess s sol := by
  have hstationary := congrArg (Vec.reals p.variableCount sol.x ⬝ᵥ ·) h.kkt.stationary
  simp only [Task.subproblem, dotProduct_add, dotProduct_zero] at hstationary
  rw [Matrix.mulVec_transpose, dotProduct_comm _ (Matrix.vecMul _ _),
    ← Matrix.dotProduct_mulVec] at hstationary
  have hpoint : Vec.reals p.variableCount sol.x ⬝ᵥ Vec.reals p.variableCount sol.lamX =
      -∑ j : Fin p.variableCount, |Vec.reals p.variableCount sol.lamX j| *
        excess (Vec.reals p.variableCount sol.lamX j) (Vec.coord s.x j) (Vec.coord p.xmin j)
          (Vec.coord p.xmax j) := by
    rw [dotProduct_comm, dotProduct, ← Finset.sum_neg_distrib]
    apply Finset.sum_congr rfl
    intro j _
    obtain ⟨v, hv, hcomp⟩ := h.complementary_point j
    rw [hv, hcomp.mul_eq]
  have hrow : Vec.reals p.constraintCount sol.lamA ⬝ᵥ
      s.jacobian.dense p.constraintCount p.variableCount *ᵥ Vec.reals p.variableCount sol.x =
      -∑ i : Fin p.constraintCount, |Vec.reals p.constraintCount sol.lamA i| *
        excess (Vec.reals p.constraintCount sol.lamA i) (Vec.coord s.g i) (Vec.coord p.gmin i)
          (Vec.coord p.gmax i) := by
    rw [dotProduct, ← Finset.sum_neg_distrib]
    apply Finset.sum_congr rfl
    intro i _
    obtain ⟨v, hv, hcomp⟩ := h.complementary_row i
    rw [hv, hcomp.mul_eq]
  rw [hpoint, hrow] at hstationary
  unfold Problem.curvatureAlong Problem.weightedExcess
  linarith

/-- A head from which the bounds can be met has a finite infeasibility. -/
theorem Answered.infeasibility_real :
    ∃ r : ℝ, 0 ≤ r ∧ t.infeasibility s = r ∧ p.weightedExcess s sol ≤ p.multiplierSum sol * r := by
  have hinf : t.infeasibility s = primalInfeasibility s.x p.xmin p.xmax s.g p.gmin p.gmax := by
    rw [Task.infeasibility, Task.infeasibilityAt, h.problem]
  have hne := primalInfeasibility_ne_nan h.boxedX h.boxedG
  obtain ⟨hnonneg, hx, hg⟩ := (primalInfeasibility_le_iff h.boxedX h.boxedG).mp (le_refl_iff.mpr hne)
  have hfinite : primalInfeasibility s.x p.xmin p.xmax s.g p.gmin p.gmax < posInf := by
    refine (primalInfeasibility_lt_iff h.boxedX h.boxedG).mpr ⟨by simp [lt_iff], ?_, ?_⟩
    · intro j hj
      obtain ⟨v, hv, hcomp⟩ := h.complementary_point ⟨j, hj⟩
      rw [hv]
      exact hcomp.excess_lt
    · intro i hi
      obtain ⟨v, hv, hcomp⟩ := h.complementary_row ⟨i, hi⟩
      rw [hv]
      exact hcomp.excess_lt
  obtain ⟨r, hr⟩ : (primalInfeasibility s.x p.xmin p.xmax s.g p.gmin p.gmax).IsReal := by
    generalize primalInfeasibility s.x p.xmin p.xmax s.g p.gmin p.gmax = e at hnonneg hfinite
    cases e <;> simp [lt_iff] at hnonneg hfinite ⊢
  rw [hr] at hnonneg hx hg
  refine ⟨r, real_le_real.mp hnonneg, hinf.trans hr, ?_⟩
  unfold Problem.weightedExcess Problem.multiplierSum
  rw [add_mul, Finset.sum_mul, Finset.sum_mul]
  apply add_le_add <;> apply Finset.sum_le_sum
  · intro j _
    obtain ⟨v, hv, hcomp⟩ := h.complementary_point j
    obtain ⟨hlower, hupper⟩ := hx j j.isLt
    rw [hv] at hlower hupper ⊢
    exact hcomp.abs_mul_excess_le hlower hupper
  · intro i _
    obtain ⟨v, hv, hcomp⟩ := h.complementary_row i
    obtain ⟨hlower, hupper⟩ := hg i i.isLt
    rw [hv] at hlower hupper ⊢
    exact hcomp.abs_mul_excess_le hlower hupper

/-- The slope at an exact solution of the subproblem. -/
theorem Answered.slope_eq {sigma : ℝ} (hsigma : s.sigma = sigma) {r : ℝ}
    (hr : t.infeasibility s = r) :
    ∃ sigma' : ℝ, Task.nextSigma s.sigma sol = sigma' ∧
      t.slope s sol =
        ((-p.curvatureAlong s sol + p.weightedExcess s sol - sigma' * r : ℝ) : Extended) := by
  have hnext := Task.nextSigma_real sigma h.real h.length_lamX h.length_lamA
  refine ⟨_, hsigma ▸ hnext, ?_⟩
  have hdot := Vec.dot_eq h.length_x h.denotes.objective.2.2.ge h.real.1 h.denotes.objective.2.1
  rw [Task.slope, hdot, hsigma, hnext, hr, real_mul_real, real_sub_real, h.dot_gradient]

end Slope

/-! ## The bound on trials -/

theorem mem_push_of_ne_nil {w : MeritWindow Extended} {merit : Extended}
    (h : (w.push merit).values ≠ []) : merit ∈ (w.push merit).values := by
  unfold MeritWindow.push at h ⊢
  dsimp only at h ⊢
  by_cases hk : (w.values ++ [merit]).length - w.capacity ≤ w.values.length
  · rw [List.drop_append_of_le_length hk]
    simp
  · exact absurd (List.drop_eq_nil_of_le (by simp at hk ⊢; omega)) h

/-- The merit that trials are compared with is a number as soon as the latest one is. -/
theorem reference_push_ne_nan (w : MeritWindow Extended) {merit : Extended} (h : merit ≠ nan) :
    LineSearch.reference (w.push merit) ≠ nan := by
  unfold LineSearch.reference MeritWindow.max?
  cases hv : (w.push merit).values with
  | nil => simp
  | cons v rest =>
      have hmem : merit ∈ v :: rest := by
        rw [← hv]
        exact mem_push_of_ne_nil (by simp [hv])
      rcases List.mem_cons.mp hmem with rfl | hrest
      · exact Vec.foldl_maxNum_ne_nan_of_ne rest h
      · exact Vec.foldl_maxNum_ne_nan_of_mem hrest h v

/-- No trial along a descending slope may exceed the reference. -/
theorem threshold_le_reference {opt : LineSearch.Options Extended} {c1 slope step : ℝ}
    {reference : Extended} (hc1 : opt.c1 = c1) (hpos : 0 ≤ c1) (hslope : slope ≤ 0)
    (hstep : 0 ≤ step) (href : reference ≠ nan) :
    LineSearch.threshold opt slope reference step ≤ reference := by
  have hchange : step * c1 * slope ≤ 0 :=
    mul_nonpos_of_nonneg_of_nonpos (mul_nonneg hstep hpos) hslope
  rw [LineSearch.threshold, hc1, real_mul_real, real_mul_real]
  cases reference with
  | real r =>
      rw [real_add_real, real_le_real]
      linarith
  | posInf => simp [add_def, Extended.add]
  | negInf => simp [add_def, Extended.add]
  | nan => exact absurd rfl href

theorem c1_real {opt : Options Extended} (h : opt.validate = .ok ()) :
    ∃ c1 : ℝ, 0 ≤ c1 ∧ opt.c1 = c1 := by
  obtain ⟨c1, hpos, -, hreal⟩ := (Options.valid_of_validate h).c1_real
  exact ⟨c1, hpos.le, hreal⟩

section Descent

variable {p : Problem Extended} {opt : Options Extended} {backend : Backend Extended}
  {callback : Option (Snapshot Extended → Bool)} {checked : Checked Extended}
  {s : Iterate Extended} {sol : QuadraticSolution Extended}

theorem answered_of_denotes (hpass : p.Passes opt checked) (hden : p.Denotes opt s)
    (hreal : sol.IsReal)
    (hsol : ((taskOf opt backend callback p checked).solveSubproblem s).outcome = .ok sol)
    (hkkt : ExactKkt ((taskOf opt backend callback p checked).subproblem s) p.variableCount
      p.constraintCount sol) :
    Answered p opt (taskOf opt backend callback p checked) s sol := by
  obtain ⟨-, hx, hlamX, hlamA⟩ := Task.solveSubproblem_eq_ok.mp hsol
  exact {
    problem := rfl
    denotes := hden
    boxedX := boxed_of_checkBounds hpass.pointBounds hden.point.length_x hden.point.point
    boxedG := boxed_of_checkBounds hpass.valueBounds hden.values.2.1 hden.values.1
    real := hreal
    length_x := hx
    length_lamX := hlamX
    length_lamA := hlamA
    kkt := hkkt }

theorem answered_of_mem_runHeads (hp : p.Exact) (hback : backend.Exact)
    (hpass : p.Passes opt checked) (hs : s ∈ runHeads opt backend callback p)
    (hsol : ((taskOf opt backend callback p checked).solveSubproblem s).outcome = .ok sol)
    (hkkt : ExactKkt ((taskOf opt backend callback p checked).subproblem s) p.variableCount
      p.constraintCount sol) :
    Answered p opt (taskOf opt backend callback p checked) s sol :=
  answered_of_denotes hpass (denotes_of_mem_runHeads hp hback s hs)
    (hback _ _ _ _ (Task.solveSubproblem_eq_ok.mp hsol).1) hsol hkkt

/-- At an exact solution of a subproblem the slope is at most the negative curvature just when
the penalty times the infeasibility pays for the weighted excesses, and so if the penalty is at
least the sum of the magnitudes of all multipliers. With a positive semidefinite Hessian such a
slope descends, and no trial may exceed the largest recent merit. -/
theorem slope_le_iff (hp : p.Exact) (hback : backend.Exact) (hpass : p.Passes opt checked)
    (hs : s ∈ runHeads opt backend callback p)
    (hsol : ((taskOf opt backend callback p checked).solveSubproblem s).outcome = .ok sol)
    (hkkt : ExactKkt ((taskOf opt backend callback p checked).subproblem s) p.variableCount
      p.constraintCount sol) :
    ∃ slope sigma infeasibility : ℝ,
      (taskOf opt backend callback p checked).slope s sol = slope ∧
      Task.nextSigma s.sigma sol = sigma ∧
      (taskOf opt backend callback p checked).infeasibility s = infeasibility ∧
      (slope ≤ -p.curvatureAlong s sol ↔ p.weightedExcess s sol ≤ sigma * infeasibility) ∧
      (p.multiplierSum sol ≤ sigma → slope ≤ -p.curvatureAlong s sol) ∧
      ((s.hessian.dense p.variableCount p.variableCount).PosSemidef →
        slope ≤ -p.curvatureAlong s sol → slope ≤ 0 ∧ ∀ step : ℝ, 0 ≤ step →
          LineSearch.threshold opt.search slope
              (LineSearch.reference ((taskOf opt backend callback p checked).nextMerits s sol))
              step ≤
            LineSearch.reference ((taskOf opt backend callback p checked).nextMerits s sol)) := by
  have h := answered_of_mem_runHeads hp hback hpass hs hsol hkkt
  obtain ⟨old, _, hold⟩ := isReal_sigma_of_mem_runHeads hback s hs
  rcases h.infeasibility_real with ⟨infeasibility, hnonneg, hinf, hexcess⟩
  obtain ⟨sigma, hsigma, hslope⟩ := h.slope_eq hold hinf
  have hiff : -p.curvatureAlong s sol + p.weightedExcess s sol - sigma * infeasibility ≤
      -p.curvatureAlong s sol ↔ p.weightedExcess s sol ≤ sigma * infeasibility := by
    constructor <;> intro hle <;> linarith
  refine ⟨_, sigma, infeasibility, hslope, hsigma, hinf, hiff, fun hsum => ?_, fun hpsd hle => ?_⟩
  · have hpay := mul_le_mul_of_nonneg_right hsum hnonneg
    exact hiff.mpr (hexcess.trans hpay)
  · have hcurvature : 0 ≤ p.curvatureAlong s sol := by
      have hform := hpsd.dotProduct_mulVec_nonneg (Vec.reals p.variableCount sol.x)
      simpa [Problem.curvatureAlong] using hform
    have hdescent := hle.trans (neg_nonpos.mpr hcurvature)
    obtain ⟨c1, hc1, hc1real⟩ := c1_real hpass.options
    rcases h.denotes.objective.1 with ⟨f, hf⟩
    have hmerit : l1Merit s.f (Task.nextSigma s.sigma sol)
        ((taskOf opt backend callback p checked).infeasibility s) ≠ nan := by
      rw [l1Merit, hf, hsigma, hinf, real_mul_real, real_add_real]
      simp
    exact ⟨hdescent, fun step hstep =>
      threshold_le_reference hc1real hc1 hdescent hstep (reference_push_ne_nan _ hmerit)⟩

end Descent

/-! ## Two violated bounds at once -/

section Corner

/-- Minimize `x + y` over `1 ≤ x` and `1 ≤ y`, from the origin. -/
noncomputable def corner : Problem Extended where
  objective := ⟨fun _ x => .ok (Vec.coord x 0 + Vec.coord x 1),
    fun _ x => .ok (Vec.coord x 0 + Vec.coord x 1, [1, 1])⟩
  constraints := none
  hessian := some fun _ _ _ _ => .ok (.ofRows 2 [[], []])
  x0 := [0, 0]
  xmin := [1, 1]
  xmax := [posInf, posInf]
  gmin := []
  gmax := []
  multipliers := none

/-- The step to the corner, with its multipliers. -/
noncomputable def cornerStep : QuadraticSolution Extended :=
  ⟨[1, 1], [-1, -1], []⟩

noncomputable def cornerBackend : Backend Extended :=
  fun _ _ _ => pure cornerStep

noncomputable def cornerChecked : Checked Extended :=
  ⟨.exact fun _ _ _ _ => .ok (.ofRows 2 [[], []]), ⟨[], [0, 0]⟩⟩

noncomputable def cornerHead : Iterate Extended where
  iter := 0
  x := [0, 0]
  multipliers := ⟨[], [0, 0]⟩
  f := 0 + 0
  gradF := [1, 1]
  g := []
  jacobian := .empty 0 2
  gradLagrangian := lagrangianGradient [1, 1] (.empty 0 2) ⟨[], [0, 0]⟩
  hessian := .ofTriplets 2 2 [⟨0, 0, 0⟩, ⟨1, 1, 0⟩]
  regularization := 0
  step := [0, 0]
  sigma := 0
  merits := .new 4
  searchTrials := 0
  searchSuccess := true
  searchFailures := 0

theorem corner_exact : corner.Exact where
  x0 := by simp [corner, Vec.isReal_cons, Vec.isReal_nil]
  multipliers _ hlam := by cases hlam
  gradient _ x f gradF hx h := by
    cases h
    exact ⟨isReal_add_iff.mpr ⟨hx.coord 0, hx.coord 1⟩, by simp [Vec.isReal_cons, Vec.isReal_nil]⟩
  jacobian _ hc := by cases hc
  hessian _ hh _ _ _ _ _ _ _ h := by
    cases hh
    cases h
    have hrows : ∀ row ∈ [([] : List (ℕ × Extended)), []], row = [] := by simp
    constructor
    · apply SparseMatrix.wellFormed_ofRows
      intro row hrow
      rw [hrows row hrow]
      exact List.forall_mem_nil _
    · apply SparseMatrix.isReal_of_rows
      intro row hrow
      rw [hrows row hrow]
      exact List.forall_mem_nil _

theorem cornerBackend_exact : cornerBackend.Exact := by
  intro _ _ _ sol h
  cases h
  simp [cornerStep, QuadraticSolution.IsReal, Vec.isReal_cons, Vec.isReal_nil]

theorem corner_check : corner.check .default = .ok cornerChecked :=
  Problem.check_of_passes {
    options := validate_default
    pointBounds := by
      simp [Problem.checkBounds, Problem.variableCount, corner, List.zipIdx]
    valueBounds := rfl
    unconstrained := fun _ => rfl
    curvature := rfl
    multipliers := rfl }

theorem cornerHead_mem : cornerHead ∈ runHeads .default cornerBackend none corner := by
  have hstart : ((taskOf .default cornerBackend none corner cornerChecked).start
      cornerChecked.multipliers).outcome = .ok cornerHead := rfl
  exact mem_runHeads_of_start corner_check hstart

theorem cornerHead_hessian : cornerHead.hessian.dense 2 2 = 0 := by
  have hrow0 : cornerHead.hessian.row 0 = [(0, 0)] := rfl
  have hrow1 : cornerHead.hessian.row 1 = [(1, 0)] := rfl
  funext i j
  fin_cases i <;> fin_cases j <;>
    simp [SparseMatrix.dense, hrow0, hrow1, SparseMatrix.rowEntry]

theorem cornerStep_kkt : ExactKkt
    ((taskOf .default cornerBackend none corner cornerChecked).subproblem cornerHead)
    corner.variableCount corner.constraintCount cornerStep := by
  have hlower : Vec.sub corner.xmin cornerHead.x = [1, 1] := by
    simp [Vec.sub, corner, cornerHead]
  have hupper : Vec.sub corner.xmax cornerHead.x = [posInf, posInf] := by
    simp [Vec.sub, corner, cornerHead, sub_def, add_def, Extended.add]
  constructor
  · show cornerHead.hessian.dense 2 2 *ᵥ Vec.reals 2 [1, 1] + Vec.reals 2 [1, 1] +
      (cornerHead.jacobian.dense 0 2)ᵀ *ᵥ Vec.reals 0 [] + Vec.reals 2 [-1, -1] = 0
    rw [cornerHead_hessian, Matrix.zero_mulVec]
    funext j
    fin_cases j <;> simp [Vec.reals, Vec.coord]
  · show ∀ j : Fin 2, Complementary (Vec.reals 2 [-1, -1] j) (Vec.reals 2 [1, 1] j)
      (Vec.coord (Vec.sub corner.xmin cornerHead.x) j)
      (Vec.coord (Vec.sub corner.xmax cornerHead.x) j)
    rw [hlower, hupper]
    intro j
    fin_cases j <;> constructor <;> simp [Vec.reals, Vec.coord]
  · intro i
    exact i.elim0

theorem corner_infeasibility :
    primalInfeasibility (α := Extended) [0, 0] [1, 1] [posInf, posInf] [] [] [] = 1 := by
  have hexcess : (((0 : ℝ) : Extended) - posInf) = negInf := rfl
  have hmax : Scalar.maxNum ((1 : ℝ) : Extended) negInf = ((1 : ℝ) : Extended) := by
    simp [Scalar.maxNum, Scalar.isNaN, lt_iff]
  simp [primalInfeasibility, violations, hexcess, hmax]

theorem corner_sigma : Task.nextSigma cornerHead.sigma cornerStep = ((1.01 : ℝ) : Extended) := by
  simp [Task.nextSigma, cornerHead, cornerStep, Vec.normInf]
  norm_num

theorem corner_weightedExcess : corner.weightedExcess cornerHead cornerStep = 2 := by
  show (∑ j : Fin 2, |Vec.reals 2 [-1, -1] j| *
    excess (Vec.reals 2 [-1, -1] j) (Vec.coord [0, 0] j) (Vec.coord [1, 1] j)
      (Vec.coord [posInf, posInf] j)) + ∑ i : Fin 0, _ = 2
  simp [Fin.sum_univ_two, Vec.reals, Vec.coord, excess]
  norm_num

/-- From the origin the penalty pays for one of the two violated bounds only: the Hessian is
positive semidefinite and the answer exact, and still the slope ascends. -/
theorem corner_ascends : ∃ slope : ℝ,
    cornerHead ∈ runHeads .default cornerBackend none corner ∧
    ((taskOf .default cornerBackend none corner cornerChecked).solveSubproblem
      cornerHead).outcome = .ok cornerStep ∧
    (cornerHead.hessian.dense corner.variableCount corner.variableCount).PosSemidef ∧
    ExactKkt ((taskOf .default cornerBackend none corner cornerChecked).subproblem cornerHead)
      corner.variableCount corner.constraintCount cornerStep ∧
    (taskOf .default cornerBackend none corner cornerChecked).slope cornerHead cornerStep =
      slope ∧
    ¬slope ≤ -corner.curvatureAlong cornerHead cornerStep := by
  have hsol : ((taskOf .default cornerBackend none corner cornerChecked).solveSubproblem
      cornerHead).outcome = .ok cornerStep := rfl
  obtain ⟨slope, sigma, infeasibility, hslope, hsigma, hinf, hiff, -, -⟩ :=
    slope_le_iff corner_exact cornerBackend_exact (Problem.passes_of_check corner_check)
      cornerHead_mem hsol cornerStep_kkt
  have hone : infeasibility = 1 := by
    have hvalue := hinf.symm.trans corner_infeasibility
    exact real_inj.mp hvalue
  have hpenalty : sigma = 1.01 := real_inj.mp (hsigma.symm.trans corner_sigma)
  have hpsd : (cornerHead.hessian.dense corner.variableCount corner.variableCount).PosSemidef := by
    have hzero : cornerHead.hessian.dense corner.variableCount corner.variableCount = 0 :=
      cornerHead_hessian
    rw [hzero]
    exact Matrix.PosSemidef.zero
  refine ⟨slope, cornerHead_mem, hsol, hpsd, cornerStep_kkt, hslope, ?_⟩
  rw [hiff, hone, hpenalty, corner_weightedExcess]
  norm_num

end Corner

end SeqQuad.Nonlinear
