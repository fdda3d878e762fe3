import SeqQuad.Proofs.Nonlinear.Coherence
import SeqQuad.Proofs.Nonlinear.LimitedMemory

/-!
# The secant equation along a run

The update after an iteration compares the gradients of the Lagrangian at the two points under
the same multipliers, those after the iteration. So the bound multipliers drop out of the change,
and along the step the new approximation gives the change of the objective gradient and of the
constraint gradients weighted by those multipliers, moved toward the old product where the update
was damped.
-/

namespace SeqQuad.Nonlinear

open Extended Matrix Bfgs

section Change

variable (p : Problem Extended)

/-- The step from one head to the next. -/
noncomputable def Problem.displacement (s s' : Iterate Extended) : Fin p.variableCount → ℝ :=
  Vec.reals p.variableCount s'.x - Vec.reals p.variableCount s.x

/-- The change of the gradient of the Lagrangian from one head to the next, under the multipliers
of the latter. -/
noncomputable def Problem.gradientChange (s s' : Iterate Extended) : Fin p.variableCount → ℝ :=
  Vec.reals p.variableCount s'.gradF - Vec.reals p.variableCount s.gradF +
    (s'.jacobian.dense p.constraintCount p.variableCount -
      s.jacobian.dense p.constraintCount p.variableCount)ᵀ *ᵥ
        Vec.reals p.constraintCount s'.multipliers.g

/-- What the update after the head `k` starts from: the approximation there, or its diagonal when
a reset is due. -/
noncomputable def Problem.baseMatrix (opt : Options Extended) (k : ℕ) (s : Iterate Extended) :
    Matrix (Fin p.variableCount) (Fin p.variableCount) ℝ :=
  if (k + 1) % opt.resetPeriod = 0 then
    diagonal (s.hessian.dense p.variableCount p.variableCount).diag
  else s.hessian.dense p.variableCount p.variableCount

end Change

/-! ## One iteration -/

section Step

variable {p : Problem Extended} {opt : Options Extended} {s s' : Iterate Extended}

theorem dense_updateBase (h : FullPosDef p.variableCount s.hessian) {k : ℕ} (hk : s.iter = k) :
    (updateBase opt s).dense p.variableCount p.variableCount = p.baseMatrix opt k s := by
  unfold updateBase Problem.baseMatrix
  rw [hk]
  split
  · exact h.dense_reset
  · rfl

theorem reals_displacement (hs : p.Denotes opt s) (hs' : p.Denotes opt s') :
    Vec.reals p.variableCount (Vec.sub s'.x s.x) = p.displacement s s' :=
  Vec.reals_sub hs'.point.point hs.point.point hs'.point.length_x.ge hs.point.length_x.ge

/-- The bound multipliers drop out of the change. -/
theorem reals_gradientChange (hs : p.Denotes opt s) (hs' : p.Denotes opt s')
    (hheight : s.jacobian.height = p.constraintCount) (hcols : s.jacobian.cols = p.variableCount) :
    Vec.reals p.variableCount
        (Vec.sub s'.gradLagrangian (lagrangianGradient s.gradF s.jacobian s'.multipliers)) =
      p.gradientChange s s' := by
  obtain ⟨-, hgrad, hlen⟩ := hs.objective
  obtain ⟨-, -, hjac⟩ := hs.values
  obtain ⟨hlag, hlaglen, hlageq⟩ := hs'.lagrangian
  have hpoint := hs'.point
  have hold : Vec.IsReal (lagrangianGradient s.gradF s.jacobian s'.multipliers) :=
    isReal_lagrangianGradient hgrad hjac hpoint.multipliers
  have holdlen := length_lagrangianGradient hlen hcols hpoint.length_lamX
  have holdeq := reals_lagrangianGradient hlen hheight hcols hgrad hjac hpoint.multipliers
    hpoint.length_lamX hpoint.length_lamG
  rw [Vec.reals_sub hlag hold hlaglen.ge holdlen.ge, hlageq, holdeq, Problem.gradientChange,
    transpose_sub, sub_mulVec]
  abel

/-- What the update after the head `k` makes of the approximation, which the outcome tells of. -/
structure Problem.SecantUpdate (p : Problem Extended) (opt : Options Extended) (k : ℕ)
    (s s' : Iterate Extended) (outcome : Outcome Extended) : Prop where
  updated : update? (updateBase opt s) s'.x s.x s'.gradLagrangian
    (lagrangianGradient s.gradF s.jacobian s'.multipliers) opt.minCurvature =
      some (s'.hessian, outcome)
  skipped : (∀ omega, outcome ≠ .applied omega) →
    s'.hessian.dense p.variableCount p.variableCount = p.baseMatrix opt k s
  applied : ∀ omega, outcome = .applied omega → ∃ w : ℝ, omega = w ∧ 0 < w ∧ w ≤ 1 ∧
    s'.hessian.dense p.variableCount p.variableCount *ᵥ p.displacement s s' =
      w • p.gradientChange s s' + (1 - w) • p.baseMatrix opt k s *ᵥ p.displacement s s' ∧
    0.2 * (p.displacement s s' ⬝ᵥ p.baseMatrix opt k s *ᵥ p.displacement s s') ≤
      p.displacement s s' ⬝ᵥ
        s'.hessian.dense p.variableCount p.variableCount *ᵥ p.displacement s s'

theorem secantUpdate_of_update {k : ℕ} {outcome : Outcome Extended} (hk : s.iter = k)
    (hs : p.Denotes opt s) (hs' : p.Denotes opt s')
    (hheight : s.jacobian.height = p.constraintCount) (hcols : s.jacobian.cols = p.variableCount)
    (hfull : FullPosDef p.variableCount s.hessian) (hmin : opt.minCurvature ≠ nan)
    (hmin0 : ¬opt.minCurvature < 0)
    (hupdate : update? (updateBase opt s) s'.x s.x s'.gradLagrangian
      (lagrangianGradient s.gradF s.jacobian s'.multipliers) opt.minCurvature =
        some (s'.hessian, outcome)) : p.SecantUpdate opt k s s' outcome := by
  have hbase : (updateBase opt s).dense p.variableCount p.variableCount = p.baseMatrix opt k s :=
    dense_updateBase hfull hk
  refine ⟨hupdate, fun hskipped => ?_, fun omega homega => ?_⟩
  · rcases update?_cases hupdate with ⟨hkept, _⟩ | ⟨omega, homega, _⟩
    · rw [hkept, hbase]
    · exact absurd homega (hskipped omega)
  · rcases update?_cases hupdate with ⟨_, hne⟩ | ⟨omega', homega', happlied⟩
    · exact absurd homega (hne omega)
    · obtain rfl : omega' = omega := by
        rw [homega] at homega'
        injection homega' with heq
        exact heq.symm
      obtain ⟨w, hreal⟩ := (FullPosDef.updateBase hfull opt).realUpdate hmin hmin0 happlied
      have hdamped : dampedReals p.variableCount (updateBase opt s) (Vec.sub s'.x s.x)
          (Vec.sub s'.gradLagrangian (lagrangianGradient s.gradF s.jacobian s'.multipliers)) w =
            w • p.gradientChange s s' +
              (1 - w) • p.baseMatrix opt k s *ᵥ p.displacement s s' := by
        rw [dampedReals, reals_gradientChange hs hs' hheight hcols, hbase,
          reals_displacement hs hs']
      have hsecant := hreal.secant
      have hfifth := hreal.fifth_le
      rw [hdamped, reals_displacement hs hs'] at hsecant
      rw [hdamped, reals_displacement hs hs', hbase] at hfifth
      refine ⟨w, hreal.omega_eq, hreal.pos, hreal.le_one, hsecant, ?_⟩
      rwa [hsecant]

end Step

/-! ## Whole runs -/

section Run

variable {p : Problem Extended} {opt : Options Extended} {backend : Backend Extended}
  {callback : Option (Snapshot Extended → Bool)}

/-- The gradient of the objective is that of a quadratic function with the Hessian `Q`. -/
def Problem.QuadraticGradient (p : Problem Extended)
    (Q : Matrix (Fin p.variableCount) (Fin p.variableCount) ℝ) (c : Fin p.variableCount → ℝ) :
    Prop :=
  ∀ m x f gradF, Vec.IsReal x → p.objective.gradient m x = .ok (f, gradF) →
    Vec.reals p.variableCount gradF = Q *ᵥ Vec.reals p.variableCount x + c

/-- The Jacobian is the same at all points. -/
def Problem.ConstantJacobian (p : Problem Extended)
    (A : Matrix (Fin p.constraintCount) (Fin p.variableCount) ℝ) : Prop :=
  ∀ c, p.constraints = some c → ∀ m x g jac, Vec.IsReal x → c.jacobian m x = .ok (g, jac) →
    jac.dense p.constraintCount p.variableCount = A

/-- On a quadratic problem the gradient changes by the Hessian times the step. -/
theorem gradientChange_of_quadratic {s s' : Iterate Extended} (hx : Vec.IsReal s.x)
    (hx' : Vec.IsReal s'.x) (hs : p.Answers s.x s.f s.gradF s.g s.jacobian)
    (hs' : p.Answers s'.x s'.f s'.gradF s'.g s'.jacobian)
    {Q : Matrix (Fin p.variableCount) (Fin p.variableCount) ℝ} {c : Fin p.variableCount → ℝ}
    {A : Matrix (Fin p.constraintCount) (Fin p.variableCount) ℝ} (hQ : p.QuadraticGradient Q c)
    (hA : p.ConstantJacobian A) : p.gradientChange s s' = Q *ᵥ p.displacement s s' := by
  have hjac : s'.jacobian.dense p.constraintCount p.variableCount =
      s.jacobian.dense p.constraintCount p.variableCount := by
    have hold := hs.jacobian
    have hnew := hs'.jacobian
    cases hc : p.constraints with
    | none =>
        simp only [hc] at hold hnew
        rw [hold.2, hnew.2]
    | some con =>
        simp only [hc] at hold hnew
        rw [hA con hc _ _ _ _ hx (hold ⟨0, 0⟩), hA con hc _ _ _ _ hx' (hnew ⟨0, 0⟩)]
  rw [Problem.gradientChange, Problem.displacement, hjac, sub_self, transpose_zero, zero_mulVec,
    add_zero, hQ _ _ _ _ hx (hs.gradient ⟨0, 0⟩), hQ _ _ _ _ hx' (hs'.gradient ⟨0, 0⟩), mulVec_sub]
  abel

/-- From each head of a run to the next the approximation is kept, or it is updated and gives
along the step the gradient change moved toward the old product by the damping factor, with at
least a fifth of the old curvature. So on a quadratic problem an undamped update gives what the
true Hessian gives. -/
theorem secantUpdate_of_heads (hdet : p.Deterministic) (hp : p.Exact) (hback : backend.Exact)
    (hmode : opt.hessian = .limitedMemory) (hmin : opt.minCurvature ≠ nan) {k : ℕ}
    {s s' : Iterate Extended} (hs : (runHeads opt backend callback p)[k]? = some s)
    (hs' : (runHeads opt backend callback p)[k + 1]? = some s') :
    ∃ outcome, p.SecantUpdate opt k s s' outcome ∧
      p.Answers s.x s.f s.gradF s.g s.jacobian ∧ p.Answers s'.x s'.f s'.gradF s'.g s'.jacobian ∧
      ∀ Q c A, p.QuadraticGradient Q c → p.ConstantJacobian A → outcome = .applied 1 →
        s'.hessian.dense p.variableCount p.variableCount *ᵥ p.displacement s s' =
          Q *ᵥ p.displacement s s' := by
  have hmem := List.mem_of_getElem? hs
  have hmem' := List.mem_of_getElem? hs'
  obtain ⟨checked, hpass, hcurrent⟩ := current_of_mem_runHeads s hmem
  obtain ⟨-, hheight, hcols⟩ := hcurrent.values.shape hpass.unconstrained
  have hden := denotes_of_mem_runHeads hp hback s hmem
  have hden' := denotes_of_mem_runHeads hp hback s' hmem'
  have hanswers := (coherent_of_mem_runHeads hdet s hmem).answers
  have hanswers' := (coherent_of_mem_runHeads hdet s' hmem').answers
  obtain ⟨hopt, hfull⟩ := fullPosDef_of_mem_runHeads hmode hmin s hmem
  have hcheck := Problem.check_of_passes hpass
  obtain ⟨sol, hstep⟩ := stepped_of_getElem? hcheck hs hs'
  obtain ⟨outcome, hupdate⟩ := update_of_stepped (p.curvature_limitedMemory hpass hmode) hstep
  have hsecant : p.SecantUpdate opt k s s' outcome :=
    secantUpdate_of_update (iter_of_getElem?_runHeads hs) hden hden' hheight hcols hfull hmin
      (minCurvature_nonneg hopt) hupdate
  refine ⟨outcome, hsecant, hanswers, hanswers', fun Q c A hQ hA hundamped => ?_⟩
  obtain ⟨w, hw, -, -, hequation, -⟩ := hsecant.applied 1 hundamped
  obtain rfl : w = 1 := (real_inj.mp hw).symm
  rw [hequation, sub_self, zero_smul, add_zero, one_smul]
  exact gradientChange_of_quadratic hden.point.point hden'.point.point hanswers hanswers' hQ hA

end Run

/-! ## A run on a parabola -/

section Bowl

/-- Minimize half the square of `x` without bounds. -/
noncomputable def bowl : Problem Extended where
  objective := ⟨fun _ x => .ok (0.5 * (Vec.coord x 0 * Vec.coord x 0)),
    fun _ x => .ok (0.5 * (Vec.coord x 0 * Vec.coord x 0), [Vec.coord x 0])⟩
  constraints := none
  hessian := none
  x0 := [1]
  xmin := [negInf]
  xmax := [posInf]
  gmin := []
  gmax := []
  multipliers := none

/-- Every step is full. -/
noncomputable def bowlOptions : Options Extended :=
  { slideOptions with maxSearchTrials := 0 }

noncomputable def leftBackend : Backend Extended :=
  fun _ _ _ => pure ⟨[-1], [0], []⟩

noncomputable abbrev bowlTask : Task Extended :=
  taskOf bowlOptions leftBackend none bowl ⟨.limitedMemory, ⟨[], [0]⟩⟩

noncomputable def bowlHead : Iterate Extended where
  iter := 0
  x := [1]
  multipliers := ⟨[], [0]⟩
  f := 0.5 * (1 * 1)
  gradF := [1]
  g := []
  jacobian := .empty 0 1
  gradLagrangian := lagrangianGradient [1] (.empty 0 1) ⟨[], [0]⟩
  hessian := initial 1
  regularization := 0
  step := [0]
  sigma := 0
  merits := .new 4
  searchTrials := 0
  searchSuccess := true
  searchFailures := 0

theorem bowl_deterministic : bowl.Deterministic where
  gradient _ _ _ := rfl
  jacobian _ hc := by cases hc
  hessian _ hh := by cases hh

theorem bowl_exact : bowl.Exact where
  x0 := by simp [bowl, Vec.isReal_cons, Vec.isReal_nil]
  multipliers _ hlam := by cases hlam
  gradient _ x f gradF hx h := by
    cases h
    obtain ⟨v, hv⟩ := hx.coord 0
    simp [hv, Vec.isReal_cons, Vec.isReal_nil]
  jacobian _ hc := by cases hc
  hessian _ hh := by cases hh

theorem leftBackend_exact : leftBackend.Exact := by
  intro _ _ _ sol h
  cases h
  simp [QuadraticSolution.IsReal, Vec.isReal_cons, Vec.isReal_nil]

theorem bowl_quadraticGradient : bowl.QuadraticGradient 1 0 := by
  intro _ x f gradF _ h
  cases h
  rw [one_mulVec, add_zero]
  funext j
  have hj : (j : ℕ) = 0 := Nat.lt_one_iff.mp j.isLt
  simp [Vec.reals, Vec.coord, hj]

theorem bowl_check : bowl.check bowlOptions = .ok ⟨.limitedMemory, ⟨[], [0]⟩⟩ :=
  Problem.check_of_passes {
    options := by
      simp only [Options.validate, bowlOptions, slideOptions, Options.default, ofScientific_eq,
        zero_eq, one_eq, real_lt_real]
      norm_num
    pointBounds := by simp [Problem.checkBounds, Problem.variableCount, bowl]
    valueBounds := rfl
    unconstrained := fun _ => rfl
    curvature := rfl
    multipliers := rfl }

theorem bowl_start : (bowlTask.start ⟨[], [0]⟩).outcome = .ok bowlHead :=
  rfl

theorem bowl_verdict : bowlTask.verdict bowlHead = none := by
  exact Task.verdict_eq_none rfl (fun h => not_stationary_one h.2) (by decide)
    (fun h => absurd h.1 (lt_irrefl 0))

theorem bowl_search : bowlTask.search bowlHead ⟨[-1], [0], []⟩ = ⟨1, [0], .unsearched, []⟩ := by
  have hrun : bowlTask.search bowlHead ⟨[-1], [0], []⟩ =
      ⟨1, Vec.along [1] [-1] 1, .unsearched, []⟩ := LineSearch.run_of_off rfl
  rw [hrun]
  simp [Vec.along]

/-- The step has the curvature of the identity, so the update is applied undamped. -/
theorem bowl_update : ∃ B, update? (initial 1) [(0 : Extended)] [1] [0] [1] 1e-14 =
    some (B, .applied 1) := by
  have hstep : Vec.sub [(0 : Extended)] [1] = [-1] := by simp [Vec.sub]
  have hproduct : (initial 1 : SparseMatrix Extended).mulVec [-1] = .ok [-1] := by
    refine SparseMatrix.mulVec_eq_ok_iff.mpr ⟨rfl, by decide, ?_⟩
    show [(0 + 1 * -1 : Extended)] = [-1]
    simp
  have hdot : Vec.dot [(-1 : Extended)] [-1] = 1 := by simp [Vec.dot]
  have homega : damping (1 : Extended) 1 = 1 := by
    unfold damping
    rw [if_neg]
    simp
    norm_num
  have husable : unusable (1 : Extended) 1e-14 = false := by
    simp [unusable, Scalar.isFinite, lt_iff]
    norm_num
  have hdamped : damped (1 : Extended) [-1] [-1] = [-1] := by
    simp [damped, Scalar.same]
  unfold update?
  dsimp only
  rw [hstep, hproduct]
  simp only [hdot, homega, husable, hdamped]
  exact ⟨_, rfl⟩

theorem bowl_step : ∃ next, (bowlTask.step bowlHead).outcome = .ok next := by
  obtain ⟨B, hB⟩ := bowl_update
  have hend : (bowlTask.search bowlHead ⟨[-1], [0], []⟩).point = [0] := by rw [bowl_search]
  have hjac : (bowlTask.jacobianAt ⟨1, 0⟩
      (bowlTask.search bowlHead ⟨[-1], [0], []⟩).point).outcome = .ok ([], .empty 0 1) := rfl
  have hgradient : (bowlTask.gradientAt ⟨1, 0⟩
      (bowlTask.search bowlHead ⟨[-1], [0], []⟩).point).outcome =
        .ok (0.5 * (0 * 0), [0]) := by
    rw [hend]
    rfl
  have hupdate : update? (updateBase bowlOptions bowlHead) [0] bowlHead.x
      (lagrangianGradient [0] (.empty 0 1) ⟨[], [0]⟩)
      (lagrangianGradient [1] (.empty 0 1) ⟨[], [0]⟩) bowlOptions.minCurvature =
        some (B, .applied 1) := by
    rw [lagrangian_single, lagrangian_single]
    exact hB
  refine Task.exists_step (h := (B, 0)) rfl (by decide) (by rw [bowl_search]; rfl) hjac hgradient
    (by decide) ?_
  rw [hend]
  refine Journaled.outcome_bind_eq_ok.mpr ⟨B, ?_, rfl⟩
  refine Journaled.outcome_bind_eq_ok.mpr ⟨(), rfl, Journaled.outcome_bind_eq_ok.mpr
    ⟨(B, .applied 1), Failure.ofOption_eq_ok_iff.mpr hupdate, rfl⟩⟩

/-- The only update of the run on the parabola is undamped and satisfies the secant equation with
the true Hessian, the identity. -/
theorem bowl_secant : ∃ s s',
    (runHeads bowlOptions leftBackend none bowl)[0]? = some s ∧
    (runHeads bowlOptions leftBackend none bowl)[1]? = some s' ∧
    bowl.QuadraticGradient 1 0 ∧
    s'.hessian.dense bowl.variableCount bowl.variableCount *ᵥ bowl.displacement s s' =
      (1 : Matrix (Fin bowl.variableCount) (Fin bowl.variableCount) ℝ) *ᵥ
        bowl.displacement s s' := by
  obtain ⟨next, hnext⟩ := bowl_step
  obtain ⟨sol, hstepped⟩ := Task.stepped_of_step hnext
  obtain rfl : ⟨[-1], [0], []⟩ = sol := Except.ok.inj hstepped.solved
  have hs : (runHeads bowlOptions leftBackend none bowl)[0]? = some bowlHead :=
    getElem?_runHeads_zero bowl_check bowl_start
  have hs' := getElem?_runHeads_one bowl_check bowl_start bowl_verdict (by decide) hnext
  have hmin : bowlOptions.minCurvature ≠ nan := by
    simp [bowlOptions, slideOptions, Options.default]
  obtain ⟨outcome, hsecant, -, -, hquadratic⟩ := secantUpdate_of_heads bowl_deterministic
    bowl_exact leftBackend_exact rfl hmin hs hs'
  refine ⟨bowlHead, next, hs, hs', bowl_quadraticGradient,
    hquadratic 1 0 0 bowl_quadraticGradient (fun _ hc => by cases hc) ?_⟩
  -- The outcome is computed from the two points and the gradients there.
  have hx : next.x = [0] := by rw [hstepped.x, bowl_search]
  have hgradF : next.gradF = [0] := by
    have hgradient := (Task.gradientAt_eq_ok.mp hstepped.gradient).1
    rw [hx] at hgradient
    exact (Prod.mk.inj (Except.ok.inj hgradient)).2.symm
  have hlam : next.multipliers = ⟨[], [0]⟩ := hstepped.multipliers
  have hupdated := hsecant.updated
  rw [hstepped.lagrangian, hx, hgradF, hstepped.values.2, hlam] at hupdated
  change update? (initial 1) [0] [1] (lagrangianGradient [0] (.empty 0 1) ⟨[], [0]⟩)
    (lagrangianGradient [1] (.empty 0 1) ⟨[], [0]⟩) 1e-14 = _ at hupdated
  rw [lagrangian_single, lagrangian_single] at hupdated
  obtain ⟨B, hB⟩ := bowl_update
  exact (Prod.mk.inj (Option.some.inj (hupdated.symm.trans hB))).2

end Bowl

end SeqQuad.Nonlinear
