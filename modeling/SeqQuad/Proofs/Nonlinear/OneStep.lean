import SeqQuad.Proofs.Nonlinear.NonMonotone
import SeqQuad.Proofs.Nonlinear.Quadratic

/-!
# Convex quadratic problems take one step

The first subproblem of a quadratic problem is the problem itself, seen from the start. Its exact
solution is reached by the full step, which removes all infeasibility and makes the gradient of
the Lagrangian vanish, so the next head converges. From a feasible start the line search accepts
that step at once: the curvature takes back at most half of the predicted decrease.
-/

namespace SeqQuad

open Extended Matrix

/-- The first search of a run compares with the merit at its start. -/
theorem LineSearch.reference_push_new {capacity : ℕ} (h : capacity ≠ 0) (merit : Extended) :
    reference ((MeritWindow.new capacity).push merit) = merit := by
  have hdrop : 1 - capacity = 0 := by omega
  simp [MeritWindow.push, MeritWindow.new, reference, MeritWindow.max?, hdrop]

namespace Nonlinear

/-! ## Heads -/

/-- What a head of a run on a quadratic problem holds: the exact values and derivatives at its
point. -/
structure Problem.QuadraticHead (p : Problem Extended)
    (q : QuadraticData p.variableCount p.constraintCount) (opt : Options Extended)
    (s : Iterate Extended) : Prop where
  denotes : p.Denotes opt s
  f : s.f = real (q.value (Vec.reals p.variableCount s.x))
  gradF : Vec.reals p.variableCount s.gradF = q.gradient (Vec.reals p.variableCount s.x)
  g : Vec.reals p.constraintCount s.g = q.values (Vec.reals p.variableCount s.x)
  jacobian : s.jacobian.dense p.constraintCount p.variableCount = q.rows
  hessian : s.hessian.dense p.variableCount p.variableCount = q.hessian
  readable : s.hessian.Readable

section Heads

variable {p : Problem Extended} {q : QuadraticData p.variableCount p.constraintCount}
  {opt : Options Extended} {backend : Backend Extended}
  {callback : Option (Snapshot Extended → Bool)} {checked : Checked Extended}
  {s : Iterate Extended}

/-- A head at a real point of a quadratic problem. -/
theorem Problem.Poses.quadraticHead (hposes : p.Poses q) (hpass : p.Passes opt checked)
    (hexact : opt.hessian = .exact) (hreg : opt.regularize = false)
    (h : (taskOf opt backend callback p checked).Current s)
    (hpoint : p.RealPoint s.x s.multipliers) : p.QuadraticHead q opt s := by
  obtain ⟨hx, hlam, hlen, hlamX, hlamG⟩ := hpoint
  obtain ⟨hgradient, -⟩ := Task.gradientAt_eq_ok.mp h.gradient
  obtain ⟨hf, hgradF⟩ := Prod.mk.inj
    (Except.ok.inj (hgradient.symm.trans (hposes.gradient _ _ hx hlen)))
  obtain ⟨hg, hjac, hvalues, hrows⟩ :=
    h.values.affine hposes.affineConstraints hpass.unconstrained hx hlen
  obtain ⟨hess, hhess, hc⟩ := hpass.exists_hessian hexact
  obtain ⟨b, hok, -, -, hcond⟩ := Task.hessianAt_eq_ok.mp (h.hessian hess hc)
  obtain ⟨b', hok', hrep⟩ := hposes.hessian hess hhess ⟨s.iter, 0⟩ s.x s.multipliers.g hx hlam.1
    hlen hlamG
  obtain rfl := Except.ok.inj (hok.symm.trans hok')
  obtain ⟨d, hd, hread⟩ := exists_conditioned hrep.wellFormed hrep.room
  have hunshifted : (s.hessian, s.regularization) = (d, 0) := by
    change conditioned? opt.regularize b = _ at hcond
    rw [hreg, hd] at hcond
    exact (Option.some.inj hcond).symm
  obtain ⟨hdense, -⟩ := Prod.mk.inj hunshifted
  refine {
    denotes := ?_
    f := hf
    gradF := by rw [hgradF, Vec.reals_ofReals]
    g := hvalues
    jacobian := hrows
    hessian := ?_
    readable := hdense ▸ hread }
  · refine Task.Current.denotes h hpass rfl ⟨hx, hlam, hlen, hlamX, hlamG⟩
      ⟨hf ▸ isReal_real _, hgradF ▸ Vec.isReal_ofReals _⟩ ⟨hg, hjac⟩ fun hess' hhess' b' hb' => ?_
    obtain rfl := Option.some.inj (hhess.symm.trans hhess')
    obtain rfl := Except.ok.inj (hok.symm.trans hb')
    exact ⟨hrep.wellFormed, hrep.real⟩
  · have hmeaning := dense_conditioned hrep.wellFormed hrep.real hrep.height hrep.cols hd
    rw [hdense, hmeaning, hrep.dense]
    simp

end Heads

/-! ## Evaluations -/

section Evaluations

variable {t : Task Extended}
  {q : QuadraticData t.problem.variableCount t.problem.constraintCount}
  (hposes : t.problem.Poses q) {m : Moment} {x : List Extended} (hx : Vec.IsReal x)
  (hlen : x.length = t.problem.variableCount)
include hposes hx hlen

theorem Task.exists_exact_gradientAt : ∃ f gradF, (t.gradientAt m x).outcome = .ok (f, gradF) :=
  ⟨_, _, gradientAt_eq_ok.mpr ⟨hposes.gradient m x hx hlen, Vec.length_ofReals _⟩⟩

theorem Task.exists_exact_jacobianAt :
    ∃ g jac, (t.jacobianAt m x).outcome = .ok (g, jac) ∧ jac.Readable := by
  simp only [jacobianAt_eq_ok, JacobianAnswer]
  cases hc : t.problem.constraints with
  | none =>
      refine ⟨[], _, ⟨rfl, rfl⟩, SparseMatrix.readable_ofRows_iff.mpr fun row hrow => ?_⟩
      rw [List.eq_of_mem_replicate hrow]
      exact List.forall_mem_nil _
  | some c =>
      obtain ⟨jac, hjac, hrep⟩ := hposes.jacobian c hc m x hx hlen
      exact ⟨_, jac, ⟨hjac, Vec.length_ofReals _, hrep.height, hrep.cols⟩, hrep.wellFormed.readable⟩

theorem Task.exists_exact_hessianAt (hreg : t.options.regularize = false)
    {hess : LagrangianHessian Extended} (hhess : t.problem.hessian = some hess)
    {lam : List Extended} (hlam : Vec.IsReal lam)
    (hlamLen : lam.length = t.problem.constraintCount) :
    ∃ h, (t.hessianAt hess m x lam).outcome = .ok h := by
  obtain ⟨h, hok, hrep⟩ := hposes.hessian hess hhess m x lam hx hlam hlen hlamLen
  obtain ⟨b, hb, -⟩ := exists_conditioned hrep.wellFormed hrep.room
  exact ⟨(b, 0), hessianAt_eq_ok.mpr ⟨h, hok, hrep.height, hrep.cols, hreg ▸ hb⟩⟩

/-- The constraints have their exact values at a trial point. -/
theorem Task.exists_exact_values
    (hnone : t.problem.constraints = none → t.problem.constraintCount = 0) :
    ∃ g, t.ValuesAnswer m x g ∧ Vec.IsReal g ∧ g.length = t.problem.constraintCount ∧
      Vec.reals t.problem.constraintCount g = q.values (Vec.reals t.problem.variableCount x) := by
  unfold ValuesAnswer
  cases hc : t.problem.constraints with
  | none =>
      have hempty : IsEmpty (Fin t.problem.constraintCount) := by
        rw [hnone hc]
        infer_instance
      exact ⟨[], rfl, Vec.isReal_nil, (hnone hc).symm, Subsingleton.elim _ _⟩
  | some c =>
      exact ⟨_, ⟨hposes.values c hc m x hx hlen, Vec.length_ofReals _⟩, Vec.isReal_ofReals _,
        Vec.length_ofReals _, Vec.reals_ofReals _⟩

end Evaluations

/-! ## The full step -/

section FullStep

variable {p : Problem Extended} {q : QuadraticData p.variableCount p.constraintCount}
  {opt : Options Extended} {backend : Backend Extended}
  {callback : Option (Snapshot Extended → Bool)} {checked : Checked Extended}
  {s s' : Iterate Extended} {sol : QuadraticSolution Extended}

/-- Values within the bounds of a problem have no infeasibility. -/
theorem Problem.Feasible.infeasibilityAt_eq_zero {x g : List Extended}
    (h : p.Feasible q (Vec.reals p.variableCount x)) (hpass : p.Passes opt checked)
    (hx : Vec.IsReal x) (hlen : x.length = p.variableCount) (hg : Vec.IsReal g)
    (hglen : g.length = p.constraintCount)
    (hvalues : Vec.reals p.constraintCount g = q.values (Vec.reals p.variableCount x)) :
    (taskOf opt backend callback p checked).infeasibilityAt x g = 0 := by
  refine primalInfeasibility_eq_zero (boxed_of_checkBounds hpass.pointBounds hlen hx)
    (boxed_of_checkBounds hpass.valueBounds hglen hg) (fun j hj => ?_) fun i hi => ?_
  · have hcoord := hx.coord_eq (⟨j, hj⟩ : Fin p.variableCount)
    exact hcoord ▸ h.point ⟨j, hj⟩
  · have hcoord := hg.coord_eq (⟨i, hi⟩ : Fin p.constraintCount)
    rw [hvalues] at hcoord
    exact hcoord ▸ h.rows ⟨i, hi⟩

/-- The conditions of the subproblem are those of the problem at the full step. -/
theorem Problem.QuadraticHead.kkt (h : p.QuadraticHead q opt s)
    (hans : Answered p opt (taskOf opt backend callback p checked) s sol) :
    p.Kkt q (Vec.reals p.variableCount s.x + Vec.reals p.variableCount sol.x)
      (Vec.reals p.variableCount sol.lamX) (Vec.reals p.constraintCount sol.lamA) where
  stationary := by
    have hstationary := hans.kkt.stationary
    simp only [Task.subproblem, h.hessian, h.gradF, h.jacobian] at hstationary
    rw [q.gradient_add, add_comm (q.gradient _)]
    exact hstationary
  point j := by
    obtain ⟨v, hv, hcomp⟩ := hans.complementary_point j
    have hreal : Vec.reals p.variableCount s.x j = v := by rw [Vec.reals, hv, toReal_real]
    rw [Pi.add_apply, hreal]
    exact hcomp.shift
  rows i := by
    obtain ⟨v, hv, hcomp⟩ := hans.complementary_row i
    have hreal : q.values (Vec.reals p.variableCount s.x) i = v := by
      rw [← h.g, Vec.reals, hv, toReal_real]
    rw [q.values_add, Pi.add_apply, hreal, ← h.jacobian]
    exact hcomp.shift

/-- The quadratic term takes back at most half of what the step gains. -/
theorem value_add_le {n m : ℕ} {q : QuadraticData n m} (hconvex : q.hessian.PosSemidef)
    {x d : Fin n → ℝ} {c1 : ℝ} (hc1 : c1 ≤ 0.5)
    (hdescent : d ⬝ᵥ q.gradient x ≤ -(d ⬝ᵥ q.hessian *ᵥ d)) :
    q.value (x + d) ≤ q.value x + c1 * (d ⬝ᵥ q.gradient x) := by
  have hcurvature : 0 ≤ d ⬝ᵥ q.hessian *ᵥ d := by
    simpa using hconvex.dotProduct_mulVec_nonneg d
  have hgain : (1 - c1) * (d ⬝ᵥ q.gradient x) ≤ (1 - c1) * -(d ⬝ᵥ q.hessian *ᵥ d) :=
    mul_le_mul_of_nonneg_left hdescent (by linarith)
  have hhalf : 0 ≤ (0.5 - c1) * (d ⬝ᵥ q.hessian *ᵥ d) :=
    mul_nonneg (by linarith) hcurvature
  rw [q.value_add hconvex.isHermitian]
  linarith

theorem Answered.full_step {t : Task Extended} (h : Answered p opt t s sol) :
    Vec.IsReal (Vec.along s.x sol.x 1) ∧ (Vec.along s.x sol.x 1).length = p.variableCount ∧
      Vec.reals p.variableCount (Vec.along s.x sol.x 1) =
        Vec.reals p.variableCount s.x + Vec.reals p.variableCount sol.x := by
  obtain ⟨hx, -, hlen, -, -⟩ := h.denotes.point
  refine ⟨hx.along h.real.1 (isReal_real 1), by simp [hlen, h.length_x], ?_⟩
  rw [one_eq, Vec.reals_along hx h.real.1 hlen.ge h.length_x.ge, one_smul]

/-- From a feasible point an exact solution of the subproblem descends. -/
theorem Answered.slope_of_feasible {t : Task Extended} (h : Answered p opt t s sol)
    (hsigma : s.sigma = 0) (hfeasible : t.infeasibility s = 0) :
    ∃ sigma : ℝ, Task.nextSigma s.sigma sol = sigma ∧
      t.slope s sol =
        ((Vec.reals p.variableCount sol.x ⬝ᵥ Vec.reals p.variableCount s.gradF : ℝ) : Extended) ∧
      Vec.reals p.variableCount sol.x ⬝ᵥ Vec.reals p.variableCount s.gradF ≤
        -p.curvatureAlong s sol := by
  obtain ⟨sigma, hnext, hslope⟩ := h.slope_eq hsigma hfeasible
  rw [mul_zero, sub_zero, ← h.dot_gradient] at hslope
  obtain ⟨r, -, hr, hexcess⟩ := h.infeasibility_real
  obtain rfl : r = 0 := real_inj.mp (hr.symm.trans hfeasible)
  rw [mul_zero] at hexcess
  refine ⟨sigma, hnext, hslope, ?_⟩
  rw [h.dot_gradient]
  linarith

/-- A search that takes the full step at once. -/
structure Task.FullSearch {α : Type} [Scalar α] (t : Task α) (s : Iterate α)
    (sol : QuadraticSolution α) : Prop where
  length : (t.search s sol).t = 1
  point : (t.search s sol).point = Vec.along s.x sol.x 1
  no_fault : (t.search s sol).fault? = none
  accepted : 0 < t.options.maxSearchTrials →
    (t.search s sol).trials.length = 1 ∧ (t.search s sol).success = true

theorem Task.fullSearch_of_unsearched {α : Type} [Scalar α] {t : Task α}
    (h : t.options.maxSearchTrials = 0) (s : Iterate α) (sol : QuadraticSolution α) :
    t.FullSearch s sol := by
  have hrun : t.search s sol = ⟨1, Vec.along s.x sol.x 1, .unsearched, []⟩ :=
    LineSearch.run_of_off h
  exact ⟨by rw [hrun], by rw [hrun], by rw [hrun]; rfl, fun hmax => absurd h hmax.ne'⟩

/-- From a feasible point the first search accepts the full step. -/
theorem Problem.QuadraticHead.fullSearch (h : p.QuadraticHead q opt s) (hposes : p.Poses q)
    (hpass : p.Passes opt checked) (hconvex : q.hessian.PosSemidef)
    (hfeasible : p.Feasible q (Vec.reals p.variableCount s.x))
    (hans : Answered p opt (taskOf opt backend callback p checked) s sol)
    (hsigma : s.sigma = 0) (hmerits : s.merits = .new opt.meritMemory)
    (hc1 : opt.c1 ≤ 0.5) (hmax : 0 < opt.maxSearchTrials) :
    (taskOf opt backend callback p checked).FullSearch s sol := by
  have hvalid := Options.valid_of_validate hpass.options
  obtain ⟨c1, -, -, hc1real⟩ := hvalid.c1_real
  have hhalf : c1 ≤ 0.5 := by
    rwa [hc1real, ofScientific_eq, real_le_real] at hc1
  obtain ⟨hx, -, hlen, -, -⟩ := h.denotes.point
  obtain ⟨hg, hglen, -⟩ := h.denotes.values
  -- Both ends of the step are feasible, so both merits are the values of the objective.
  have hstart : (taskOf opt backend callback p checked).infeasibility s = 0 :=
    hfeasible.infeasibilityAt_eq_zero hpass hx hlen hg hglen h.g
  obtain ⟨hpoint, hpointLen, hreals⟩ := hans.full_step
  obtain ⟨g, hvalues, hgreal, hgLen, hgEq⟩ := Task.exists_exact_values
    (t := taskOf opt backend callback p checked) (m := ⟨s.iter + 1, 1⟩) hposes hpoint hpointLen
    hpass.unconstrained
  have hend : (taskOf opt backend callback p checked).infeasibilityAt
      (Vec.along s.x sol.x 1) g = 0 :=
    (hreals ▸ (h.kkt hans).feasible).infeasibilityAt_eq_zero hpass hpoint hpointLen hgreal hgLen
      hgEq
  have hmerit := Task.meritAt_eq_ok.mpr ⟨_, g,
    hposes.value ⟨s.iter + 1, 1⟩ _ hpoint hpointLen, hvalues,
    (rfl : l1Merit _ (Task.nextSigma s.sigma sol) _ = _)⟩
  obtain ⟨sigma, hnext, hslope, hdescent⟩ := hans.slope_of_feasible hsigma hstart
  have hreference : LineSearch.reference ((taskOf opt backend callback p checked).nextMerits s sol) =
      real (q.value (Vec.reals p.variableCount s.x)) := by
    rw [Task.nextMerits, hmerits, LineSearch.reference_push_new hvalid.meritMemory, hstart, hnext,
      l1Merit, h.f]
    simp
  rw [h.gradF] at hslope hdescent
  rw [Problem.curvatureAlong, h.hessian] at hdescent
  have hdecrease : l1Merit (real (q.value (Vec.reals p.variableCount (Vec.along s.x sol.x 1))))
      (Task.nextSigma s.sigma sol)
      ((taskOf opt backend callback p checked).infeasibilityAt (Vec.along s.x sol.x 1) g) ≤
        LineSearch.threshold opt.search ((taskOf opt backend callback p checked).slope s sol)
          (LineSearch.reference ((taskOf opt backend callback p checked).nextMerits s sol)) 1 := by
    rw [hreference, hend, hnext, hslope, hreals, LineSearch.threshold]
    show _ ≤ real _ + 1 * opt.c1 * real _
    rw [hc1real]
    simpa [l1Merit] using value_add_le hconvex hhalf hdescent
  have hrun : (taskOf opt backend callback p checked).search s sol = _ :=
    LineSearch.run_of_full_step hmax hmerit hdecrease
  exact ⟨by rw [hrun], by rw [hrun], by rw [hrun]; rfl, fun _ => by rw [hrun]; exact ⟨rfl, rfl⟩⟩

/-- A head that meets the first-order conditions converges. -/
theorem Problem.QuadraticHead.verdict_eq_converged (h : p.QuadraticHead q opt s)
    (hpass : p.Passes opt checked) (hprimal : 0 < opt.tolPrimal) (hdual : 0 < opt.tolDual)
    (hkkt : p.Kkt q (Vec.reals p.variableCount s.x) (Vec.reals p.variableCount s.multipliers.x)
      (Vec.reals p.constraintCount s.multipliers.g)) :
    (taskOf opt backend none p checked).verdict s = some .converged := by
  obtain ⟨hg, hgLen, -⟩ := h.denotes.values
  obtain ⟨hlag, hlagLen, hlagEq⟩ := h.denotes.lagrangian
  have hinfeasibility : (taskOf opt backend none p checked).infeasibility s = 0 :=
    hkkt.feasible.infeasibilityAt_eq_zero hpass h.denotes.point.point h.denotes.point.length_x hg
      hgLen h.g
  have hstationary : Vec.normInf s.gradLagrangian = 0 := by
    rw [Vec.normInf_eq hlagLen hlag, hlagEq, h.gradF, h.jacobian, hkkt.stationary, norm_zero,
      zero_eq]
  refine Task.verdict_eq_converged_iff.mpr ⟨rfl, ?_, ?_⟩
  · rwa [hinfeasibility]
  · rwa [hstationary]

/-- The full step takes over the multipliers of the subproblem. -/
theorem Task.reals_nextMultipliers {t : Task Extended} {n m : ℕ} (hlam : s.multipliers.IsReal)
    (hlamX : s.multipliers.x.length = n) (hlamG : s.multipliers.g.length = m) (hsol : sol.IsReal)
    (hsolX : sol.lamX.length = n) (hsolA : sol.lamA.length = m) :
    Vec.reals n (t.nextMultipliers s sol 1).x = Vec.reals n sol.lamX ∧
      Vec.reals m (t.nextMultipliers s sol 1).g = Vec.reals m sol.lamA := by
  unfold nextMultipliers
  split
  · exact ⟨Vec.reals_blend_one hsol.2.1 hlam.2 hsolX.ge hlamX.ge,
      Vec.reals_blend_one hsol.2.2 hlam.1 hsolA.ge hlamG.ge⟩
  · exact ⟨rfl, rfl⟩

/-- The full step along an exact solution of the subproblem leads to a head that meets the
first-order conditions. -/
theorem Problem.QuadraticHead.exists_full_step (h : p.QuadraticHead q opt s)
    (hposes : p.Poses q) (hpass : p.Passes opt checked) (hexact : opt.hessian = .exact)
    (hreg : opt.regularize = false)
    (hsol : ((taskOf opt backend callback p checked).solveSubproblem s).outcome = .ok sol)
    (hans : Answered p opt (taskOf opt backend callback p checked) s sol)
    (hsearch : (taskOf opt backend callback p checked).FullSearch s sol) :
    ∃ next, ((taskOf opt backend callback p checked).step s).outcome = .ok next ∧
      (taskOf opt backend callback p checked).Stepped s sol next ∧ p.QuadraticHead q opt next ∧
      p.Kkt q (Vec.reals p.variableCount next.x) (Vec.reals p.variableCount next.multipliers.x)
        (Vec.reals p.constraintCount next.multipliers.g) := by
  have hpoint := h.denotes.point
  obtain ⟨hx, hlen, hend⟩ := hans.full_step
  rw [← hsearch.point] at hx hlen hend
  obtain ⟨f, gradF, hgrad⟩ := Task.exists_exact_gradientAt
    (t := taskOf opt backend callback p checked) (m := ⟨s.iter + 1, 0⟩) hposes hx hlen
  obtain ⟨g, jac, hjac, hread⟩ := Task.exists_exact_jacobianAt
    (t := taskOf opt backend callback p checked) (m := ⟨s.iter + 1, 0⟩) hposes hx hlen
  obtain ⟨hess, hhess, hc⟩ := hpass.exists_hessian hexact
  have hlam : ((taskOf opt backend callback p checked).nextMultipliers s sol 1).IsReal :=
    Task.isReal_nextMultipliers hpoint.multipliers hans.real (isReal_real 1)
  have hlamLen := (Task.length_nextMultipliers (t := taskOf opt backend callback p checked)
    hpoint.length_lamX hpoint.length_lamG hans.length_lamX hans.length_lamA 1).2
  obtain ⟨b, hb⟩ := Task.exists_exact_hessianAt (t := taskOf opt backend callback p checked)
    (m := ⟨s.iter + 1, 0⟩) hposes hx hlen hreg hhess hlam.1 hlamLen
  have hcurv : (taskOf opt backend callback p checked).curvature = .exact hess := hc
  obtain ⟨next, hnext⟩ := Task.exists_step hsol h.readable hsearch.no_fault hjac hgrad hread
    (by rw [hsearch.length, Task.nextHessian, hcurv]; exact hb)
  obtain ⟨sol', hstep⟩ := Task.stepped_of_step hnext
  obtain rfl : sol = sol' := Except.ok.inj (hsol.symm.trans hstep.solveSubproblem)
  have hhead := hposes.quadraticHead hpass hexact hreg (Task.current_of_stepped hstep)
    (Task.realPoint_of_stepped hpass.options hans.real hpoint hstep)
  refine ⟨next, hnext, hstep, hhead, ?_⟩
  obtain ⟨hlamX, hlamG⟩ := Task.reals_nextMultipliers
    (t := taskOf opt backend callback p checked) hpoint.multipliers hpoint.length_lamX
    hpoint.length_lamG hans.real hans.length_lamX hans.length_lamA
  rw [hstep.x, hend, hstep.multipliers, hsearch.length, hlamX, hlamG]
  exact h.kkt hans

end FullStep

/-! ## Whole runs -/

section Run

variable {p : Problem Extended} {q : QuadraticData p.variableCount p.constraintCount}
  {opt : Options Extended} {backend : Backend Extended} {checked : Checked Extended}

/-- An answer in real numbers, of the right lengths, that solves a quadratic program exactly. -/
structure Problem.ExactAnswer (p : Problem Extended) (qp : QuadraticProgram Extended)
    (sol : QuadraticSolution Extended) : Prop where
  real : sol.IsReal
  length_x : sol.x.length = p.variableCount
  length_lamX : sol.lamX.length = p.variableCount
  length_lamA : sol.lamA.length = p.constraintCount
  kkt : ExactKkt qp p.variableCount p.constraintCount sol

/-- A global minimizer with the multipliers of its active bounds. -/
structure Problem.Minimizes (p : Problem Extended)
    (q : QuadraticData p.variableCount p.constraintCount) (sol : Solution Extended) : Prop where
  point : p.RealPoint sol.x sol.multipliers
  value : sol.f = real (q.value (Vec.reals p.variableCount sol.x))
  kkt : p.Kkt q (Vec.reals p.variableCount sol.x) (Vec.reals p.variableCount sol.multipliers.x)
    (Vec.reals p.constraintCount sol.multipliers.g)
  minimal : ∀ y, p.Feasible q y → q.value (Vec.reals p.variableCount sol.x) ≤ q.value y

/-- The run goes the whole step that answers its first subproblem, and a line search accepts it
at the first trial. -/
structure TakesFullStep (opt : Options Extended) (backend : Backend Extended)
    (p : Problem Extended) (sol : Solution Extended) : Prop where
  step : ∃ qp start answer,
    (subproblems (solve opt backend none p).journal)[0]? = some (qp, start) ∧
      (backend 1 qp start).outcome = .ok answer ∧ sol.x = Vec.along p.x0 answer.x 1
  accepted : 0 < opt.maxSearchTrials → ∃ r,
    (records (solve opt backend none p).journal)[1]? = some r ∧ r.searchTrials = 1 ∧
      r.searchSuccess = true

/-- The run on a quadratic problem starts. -/
theorem Problem.Poses.exists_started (hposes : p.Poses q) (hpass : p.Passes opt checked)
    (hexact : opt.hessian = .exact) (hreg : opt.regularize = false)
    (hmemory : Vec.fits (opt.meritMemory + 1)) :
    ∃ first, ((taskOf opt backend none p checked).start checked.multipliers).outcome = .ok first ∧
      (taskOf opt backend none p checked).Started checked.multipliers first ∧
      p.QuadraticHead q opt first := by
  obtain ⟨f, gradF, hgrad⟩ := Task.exists_exact_gradientAt
    (t := taskOf opt backend none p checked) (m := ⟨0, 0⟩) hposes hposes.x0 rfl
  obtain ⟨g, jac, hjac, hread⟩ := Task.exists_exact_jacobianAt
    (t := taskOf opt backend none p checked) (m := ⟨0, 0⟩) hposes hposes.x0 rfl
  obtain ⟨hess, hhess, hc⟩ := hpass.exists_hessian hexact
  have hcurv : (taskOf opt backend none p checked).curvature = .exact hess := hc
  obtain ⟨b, hb⟩ := Task.exists_exact_hessianAt (t := taskOf opt backend none p checked)
    (m := ⟨0, 0⟩) hposes hposes.x0 rfl hreg hhess
    (isReal_startMultipliers hposes.multipliers hpass.multipliers).1
    (startMultipliers_length hpass.multipliers).2
  obtain ⟨first, hfirst⟩ := Task.exists_start hjac hgrad
    (by rw [Task.startHessian, hcurv]; exact hb) hread hmemory
  have hstarted := Task.started_of_start hfirst
  exact ⟨first, hfirst, hstarted, hposes.quadraticHead hpass hexact hreg
    (Task.current_of_started hstarted)
    (Task.realPoint_of_started hposes.x0 hposes.multipliers hpass.multipliers hstarted)⟩

/-- A run on a convex quadratic problem that does not end at its start comes to a head that meets
the first-order conditions, by the full step along the answer to its first subproblem. -/
theorem Problem.Poses.exists_next (hposes : p.Poses q) (hconvex : q.hessian.PosSemidef)
    (hcheck : p.check opt = .ok checked) (hexact : opt.hessian = .exact)
    (hreg : opt.regularize = false) (hiter : 0 < opt.maxIter) {first : Iterate Extended}
    (hfirst : ((taskOf opt backend none p checked).start checked.multipliers).outcome = .ok first)
    (hhead : p.QuadraticHead q opt first)
    (hverdict : (taskOf opt backend none p checked).verdict first = none)
    (hsolved : ∀ qp start,
      (subproblems (solve opt backend none p).journal)[0]? = some (qp, start) →
        ∃ answer, (backend 1 qp start).outcome = .ok answer ∧ p.ExactAnswer qp answer)
    (hsearch : opt.maxSearchTrials = 0 ∨ 0 < opt.maxSearchTrials ∧ opt.c1 ≤ 0.5 ∧
      p.Feasible q (Vec.reals p.variableCount p.x0)) :
    ∃ qp start answer next,
      (subproblems (solve opt backend none p).journal)[0]? = some (qp, start) ∧
      (backend 1 qp start).outcome = .ok answer ∧
      (runHeads opt backend none p)[1]? = some next ∧
      (taskOf opt backend none p checked).Stepped first answer next ∧
      (taskOf opt backend none p checked).FullSearch first answer ∧
      p.QuadraticHead q opt next ∧
      p.Kkt q (Vec.reals p.variableCount next.x) (Vec.reals p.variableCount next.multipliers.x)
        (Vec.reals p.constraintCount next.multipliers.g) := by
  have hpass := Problem.passes_of_check hcheck
  have hstarted := Task.started_of_start hfirst
  have hsubproblem := getElem?_subproblems_of_start hcheck hfirst hverdict hiter
  obtain ⟨answer, hanswer, hreal, hlenX, hlenLamX, hlenLamA, hkkt⟩ := hsolved _ _ hsubproblem
  have hsol : ((taskOf opt backend none p checked).solveSubproblem first).outcome = .ok answer :=
    Task.solveSubproblem_eq_ok.mpr
      ⟨by rw [hstarted.iter]; exact hanswer, hlenX, hlenLamX, hlenLamA⟩
  have hans := answered_of_denotes hpass hhead.denotes hreal hsol hkkt
  have hfull : (taskOf opt backend none p checked).FullSearch first answer := by
    rcases hsearch with hoff | ⟨hmax, hc1, hfeasible⟩
    · exact Task.fullSearch_of_unsearched hoff first answer
    · obtain ⟨-, hnew⟩ := MeritWindow.new?_eq_some_iff.mp hstarted.merits
      exact hhead.fullSearch hposes hpass hconvex (hstarted.x ▸ hfeasible) hans hstarted.sigma
        hnew.symm hc1 hmax
  obtain ⟨next, hnext, hstep, hnextHead, hnextKkt⟩ :=
    hhead.exists_full_step hposes hpass hexact hreg hsol hans hfull
  exact ⟨_, _, answer, next, hsubproblem, hanswer,
    getElem?_runHeads_one hcheck hfirst hverdict hiter hnext, hstep, hfull, hnextHead, hnextKkt⟩

/-- On a convex quadratic problem a run with the exact Hessian, whose first subproblem is solved
exactly, converges after at most one iteration. If it makes one, it returns a global minimizer
with its multipliers, reached by the full step. Without a line search this holds from every
start, with one from every feasible start, where the search accepts the step at once. -/
theorem converges_in_one_step (hposes : p.Poses q) (hconvex : q.hessian.PosSemidef)
    (hcheck : p.check opt = .ok checked) (hexact : opt.hessian = .exact)
    (hreg : opt.regularize = false) (hprimal : 0 < opt.tolPrimal) (hdual : 0 < opt.tolDual)
    (hiter : 0 < opt.maxIter) (hmemory : Vec.fits (opt.meritMemory + 1))
    (hsolved : ∀ qp start,
      (subproblems (solve opt backend none p).journal)[0]? = some (qp, start) →
        ∃ answer, (backend 1 qp start).outcome = .ok answer ∧ p.ExactAnswer qp answer)
    (hsearch : opt.maxSearchTrials = 0 ∨ 0 < opt.maxSearchTrials ∧ opt.c1 ≤ 0.5 ∧
      p.Feasible q (Vec.reals p.variableCount p.x0)) :
    ∃ sol, (solve opt backend none p).outcome = .ok sol ∧ sol.status = .converged ∧
      sol.iterCount ≤ 1 ∧
      (sol.iterCount = 1 → p.Minimizes q sol ∧ TakesFullStep opt backend p sol) := by
  have hpass := Problem.passes_of_check hcheck
  obtain ⟨first, hfirst, hstarted, hhead⟩ :
      ∃ first, ((taskOf opt backend none p checked).start checked.multipliers).outcome =
          .ok first ∧
        (taskOf opt backend none p checked).Started checked.multipliers first ∧
        p.QuadraticHead q opt first :=
    hposes.exists_started hpass hexact hreg hmemory
  by_cases hconv : (taskOf opt backend none p checked).infeasibility first < opt.tolPrimal ∧
      Vec.normInf first.gradLagrangian < opt.tolDual
  · -- The start passes both tests.
    have hsolve := solve_of_verdict hcheck hfirst (Task.verdict_eq_converged_iff.mpr ⟨rfl, hconv⟩)
    refine ⟨_, hsolve, rfl, ?_, fun hone => ?_⟩
    · simp [hstarted.iter]
    · simp [hstarted.iter] at hone
  · have hverdict : (taskOf opt backend none p checked).verdict first = none :=
      Task.verdict_eq_none rfl hconv (hstarted.iter ▸ hiter)
        fun h => absurd hstarted.iter h.1.ne'
    obtain ⟨qp, start, answer, next, hsubproblem, hanswer, hnext, hstep, hfull, hnextHead, hkkt⟩ :=
      hposes.exists_next hconvex hcheck hexact hreg hiter hfirst hhead hverdict hsolved
        hsearch
    have hsolve := solve_of_mem_runHeads hcheck (List.mem_of_getElem? hnext)
      (hnextHead.verdict_eq_converged hpass hprimal hdual hkkt)
    have hrecord := getElem?_records hcheck hnext
    have hcount : next.iter = 1 := by rw [hstep.iter, hstarted.iter]
    have hpoint : next.x = Vec.along p.x0 answer.x 1 := by
      rw [hstep.x, hfull.point, hstarted.x]
      rfl
    refine ⟨_, hsolve, rfl, hcount.le, fun _ => ⟨?_, ?_⟩⟩
    · exact ⟨hnextHead.denotes.point, hnextHead.f, hkkt, fun y hy => hkkt.value_le hconvex hy⟩
    · refine ⟨⟨qp, start, answer, hsubproblem, hanswer, hpoint⟩, fun hmax => ⟨_, hrecord, ?_, ?_⟩⟩
      · exact hstep.searchTrials.trans (hfull.accepted hmax).1
      · exact hstep.searchSuccess.trans (hfull.accepted hmax).2

end Run

/-! ## One step onto a bound -/

section Valley

/-- Minimize half the square of `x` over `1 / 2 ≤ x`, from one. -/
noncomputable def valley : Problem Extended where
  objective := ⟨fun _ x => .ok (0.5 * (Vec.coord x 0 * Vec.coord x 0)),
    fun _ x => .ok (0.5 * (Vec.coord x 0 * Vec.coord x 0), [Vec.coord x 0])⟩
  constraints := none
  hessian := some fun _ _ _ _ => .ok (.ofRows 1 [[(0, 1)]])
  x0 := [1]
  xmin := [0.5]
  xmax := [posInf]
  gmin := []
  gmax := []
  multipliers := none

noncomputable def valleyData : QuadraticData valley.variableCount valley.constraintCount :=
  ⟨1, 0, 0, 0, 0⟩

/-- A solver that always goes half a unit to the left, onto the bound. -/
noncomputable def valleyBackend : Backend Extended :=
  fun _ _ _ => Pure.pure ⟨[-0.5], [-0.5], []⟩

noncomputable def valleyHead : Iterate Extended where
  iter := 0
  x := [1]
  multipliers := ⟨[], [0]⟩
  f := 0.5 * (1 * 1)
  gradF := [1]
  g := []
  jacobian := .empty 0 1
  gradLagrangian := lagrangianGradient [1] (.empty 0 1) ⟨[], [0]⟩
  hessian := .ofTriplets 1 1 [⟨0, 0, 1⟩, ⟨0, 0, 0⟩]
  regularization := 0
  step := [0]
  sigma := 0
  merits := .new 4
  searchTrials := 0
  searchSuccess := true
  searchFailures := 0

theorem valley_represents : Represents (.ofRows 1 [[(0, (1 : Extended))]]) valleyData.hessian where
  wellFormed := SparseMatrix.wellFormed_ofRows (by simp)
  real := SparseMatrix.isReal_of_rows (by simp)
  height := rfl
  cols := rfl
  dense := by
    show SparseMatrix.dense (.ofRows 1 [[(0, (1 : Extended))]]) 1 1 = 1
    have hrow : (SparseMatrix.ofRows 1 [[(0, (1 : Extended))]]).row 0 = [(0, 1)] := rfl
    funext i j
    fin_cases i
    fin_cases j
    show SparseMatrix.rowEntry ((SparseMatrix.ofRows 1 [[(0, (1 : Extended))]]).row 0) 0 = 1
    rw [hrow]
    simp [SparseMatrix.rowEntry]
  room := by decide

theorem valleyData_value (v : Fin 1 → ℝ) : valleyData.value v = 0.5 * (v 0 * v 0) := by
  show 0.5 * (v ⬝ᵥ (1 : Matrix (Fin 1) (Fin 1) ℝ) *ᵥ v) + (0 : Fin 1 → ℝ) ⬝ᵥ v + 0 = _
  simp [dotProduct]

theorem valleyData_gradient (v : Fin 1 → ℝ) : valleyData.gradient v = v := by
  show (1 : Matrix (Fin 1) (Fin 1) ℝ) *ᵥ v + 0 = v
  rw [one_mulVec, add_zero]

theorem valley_poses : valley.Poses valleyData where
  x0 := by simp [valley, Vec.isReal_cons, Vec.isReal_nil]
  multipliers _ hlam := by cases hlam
  value _ x hx _ := by
    have hcoord : Vec.coord x 0 = real (Vec.reals 1 x 0) := hx.coord_eq (0 : Fin 1)
    show Except.ok (0.5 * (Vec.coord x 0 * Vec.coord x 0)) =
      Except.ok (real (valleyData.value (Vec.reals 1 x)))
    rw [valleyData_value, hcoord]
    norm_num
  gradient _ x hx _ := by
    have hcoord : Vec.coord x 0 = real (Vec.reals 1 x 0) := hx.coord_eq (0 : Fin 1)
    have hsingle : ∀ v : Fin 1 → ℝ, Vec.ofReals v = [real (v 0)] := fun v => by
      simp [Vec.ofReals]
    show Except.ok (0.5 * (Vec.coord x 0 * Vec.coord x 0), [Vec.coord x 0]) =
      Except.ok (real (valleyData.value (Vec.reals 1 x)),
        Vec.ofReals (n := 1) (valleyData.gradient (Vec.reals 1 x)))
    rw [valleyData_value, valleyData_gradient, hsingle, hcoord]
    norm_num
  values _ hc := by cases hc
  jacobian _ hc := by cases hc
  hessian _ hhess _ _ _ _ _ _ _ := by
    cases hhess
    exact ⟨_, rfl, valley_represents⟩

theorem valley_check : valley.check .default =
    .ok ⟨.exact fun _ _ _ _ => .ok (.ofRows 1 [[(0, 1)]]), ⟨[], [0]⟩⟩ :=
  Problem.check_of_passes {
    options := validate_default
    pointBounds := by simp [Problem.checkBounds, Problem.variableCount, valley]
    valueBounds := rfl
    unconstrained := fun _ => rfl
    curvature := rfl
    multipliers := rfl }

noncomputable abbrev valleyTask : Task Extended :=
  taskOf .default valleyBackend none valley
    ⟨.exact fun _ _ _ _ => .ok (.ofRows 1 [[(0, 1)]]), ⟨[], [0]⟩⟩

theorem valley_start : (valleyTask.start ⟨[], [0]⟩).outcome = .ok valleyHead :=
  rfl

theorem valley_verdict : valleyTask.verdict valleyHead = none := by
  exact Task.verdict_eq_none rfl (fun h => not_stationary_one h.2) (by decide)
    (fun h => absurd h.1 (lt_irrefl 0))

theorem valley_subproblem :
    (subproblems (solve .default valleyBackend none valley).journal)[0]? =
      some (valleyTask.subproblem valleyHead, [0]) :=
  getElem?_subproblems_of_start valley_check valley_start valley_verdict (by decide)

/-- The step onto the bound solves the first subproblem exactly. -/
theorem valley_answer :
    valley.ExactAnswer (valleyTask.subproblem valleyHead) ⟨[-0.5], [-0.5], []⟩ where
  real := by simp [QuadraticSolution.IsReal, Vec.isReal_cons, Vec.isReal_nil]
  length_x := rfl
  length_lamX := rfl
  length_lamA := rfl
  kkt := by
    have hlower : Vec.sub valley.xmin valleyHead.x = [-0.5] := by
      simp [Vec.sub, valley, valleyHead]
      norm_num
    have hupper : Vec.sub valley.xmax valleyHead.x = [posInf] := by
      simp [Vec.sub, valley, valleyHead, sub_def, add_def, Extended.add]
    have hrow : valleyHead.hessian.row 0 = [(0, 1 + 0)] := rfl
    constructor
    · show valleyHead.hessian.dense 1 1 *ᵥ Vec.reals 1 [-0.5] + Vec.reals 1 [1] +
        (valleyHead.jacobian.dense 0 1)ᵀ *ᵥ Vec.reals 0 [] + Vec.reals 1 [-0.5] = 0
      funext j
      fin_cases j
      simp [Vec.reals, Vec.coord, SparseMatrix.dense, Matrix.mulVec, dotProduct, hrow,
        SparseMatrix.rowEntry]
      norm_num
    · show ∀ j : Fin 1, Complementary (Vec.reals 1 [-0.5] j) (Vec.reals 1 [-0.5] j)
        (Vec.coord (Vec.sub valley.xmin valleyHead.x) j)
        (Vec.coord (Vec.sub valley.xmax valleyHead.x) j)
      rw [hlower, hupper]
      intro j
      fin_cases j
      constructor <;> simp [Vec.reals, Vec.coord]
      norm_num
    · intro i
      exact i.elim0

theorem valley_feasible : valley.Feasible valleyData (Vec.reals valley.variableCount valley.x0) where
  point := by
    show ∀ j : Fin 1, Vec.coord [(0.5 : Extended)] j ≤ (Vec.reals 1 [1] j : Extended) ∧
      (Vec.reals 1 [1] j : Extended) ≤ Vec.coord [posInf] j
    intro j
    fin_cases j
    simp [Vec.coord, Vec.reals]
    norm_num
  rows i := i.elim0

/-- The run does not end at its start. -/
theorem valley_iterCount {sol : Solution Extended}
    (h : (solve .default valleyBackend none valley).outcome = .ok sol)
    (hstatus : sol.status = .converged) : sol.iterCount ≠ 0 := by
  obtain ⟨checked, hcheck, s, hs, hsol, hverdict⟩ := exists_head_of_solve h
  obtain rfl := Except.ok.inj (hcheck.symm.trans valley_check)
  intro hzero
  obtain ⟨k, hk⟩ := List.mem_iff_getElem?.mp hs
  have hfirst : s = valleyHead := by
    have hiter : k = 0 := by
      rw [← iter_of_getElem?_runHeads hk, ← hzero, hsol]
    rw [hiter, getElem?_runHeads_zero valley_check valley_start] at hk
    exact (Option.some.inj hk).symm
  rw [hfirst, hstatus] at hverdict
  rcases hverdict with hverdict | hlimit
  · rw [valley_verdict] at hverdict
    cases hverdict
  · cases hlimit

/-- From one the run goes half a unit to the left and returns the bound, the minimizer. -/
theorem valley_one_step : ∃ sol,
    (solve .default valleyBackend none valley).outcome = .ok sol ∧ sol.status = .converged ∧
      sol.iterCount = 1 ∧ valley.Minimizes valleyData sol ∧
      TakesFullStep .default valleyBackend valley sol := by
  have htol : (0 : Extended) < (Options.default : Options Extended).tolPrimal := by
    simp [Options.default]
    norm_num
  have hc1 : (Options.default : Options Extended).c1 ≤ 0.5 := by
    simp [Options.default]
    norm_num
  obtain ⟨sol, hsolve, hstatus, hcount, hone⟩ := converges_in_one_step valley_poses
    Matrix.PosSemidef.one valley_check rfl rfl htol htol (by decide) (by decide)
    (fun qp start h => by
      obtain ⟨rfl, rfl⟩ := Prod.mk.inj (Option.some.inj (valley_subproblem.symm.trans h))
      exact ⟨_, rfl, valley_answer⟩)
    (.inr ⟨by decide, hc1, valley_feasible⟩)
  have hcountEq : sol.iterCount = 1 := by
    have hne := valley_iterCount hsolve hstatus
    omega
  exact ⟨sol, hsolve, hstatus, hcountEq, hone hcountEq⟩

end Valley

end Nonlinear

end SeqQuad
