import SeqQuad.Proofs.Exact.Infeasibility
import SeqQuad.Proofs.Nonlinear.Reals

/-!
# Coherence of a run

At every head of the loop the objective, the constraint values and the derivatives are those of
the current point, and the gradient of the Lagrangian is that of the current multipliers, however
the iteration came there. So the two tests of convergence speak about the point and the
multipliers that are returned.
-/

namespace SeqQuad.Nonlinear

open Extended Matrix

/-! ## Answers of a problem -/

section Answers

variable {α : Type}

/-- The functions of the problem ignore the moment of the call. -/
structure Problem.Deterministic (p : Problem α) : Prop where
  gradient : ∀ m m' x, p.objective.gradient m x = p.objective.gradient m' x
  jacobian : ∀ c, p.constraints = some c → ∀ m m' x, c.jacobian m x = c.jacobian m' x
  hessian : ∀ hess, p.hessian = some hess → ∀ m m' x lam scale,
    hess m x lam scale = hess m' x lam scale

/-- What the functions of the problem answer at a point, at any moment. -/
structure Problem.Answers (p : Problem α) (x : List α) (f : α) (gradF g : List α)
    (jac : SparseMatrix α) : Prop where
  gradient : ∀ m, p.objective.gradient m x = .ok (f, gradF)
  jacobian : match p.constraints with
    | none => g = [] ∧ jac = .empty 0 p.variableCount
    | some c => ∀ m, c.jacobian m x = .ok (g, jac)

end Answers

/-! ## Heads -/

section Heads

variable {α : Type} [Scalar α]

/-- Everything that an iterate holds was evaluated at its own point and multipliers. -/
structure Task.Current (t : Task α) (s : Iterate α) : Prop where
  values : t.JacobianAnswer ⟨s.iter, 0⟩ s.x s.g s.jacobian
  gradient : (t.gradientAt ⟨s.iter, 0⟩ s.x).outcome = .ok (s.f, s.gradF)
  readable : s.jacobian.Readable
  lagrangian : s.gradLagrangian = lagrangianGradient s.gradF s.jacobian s.multipliers
  hessian : ∀ hess, t.curvature = .exact hess →
    (t.hessianAt hess ⟨s.iter, 0⟩ s.x s.multipliers.g).outcome =
      .ok (s.hessian, s.regularization)

variable {t : Task α} {s s' : Iterate α}

theorem Task.current_of_started {lam : Multipliers α} (h : t.Started lam s) : t.Current s where
  values := by rw [h.iter]; exact h.values
  gradient := by rw [h.iter]; exact h.gradient
  readable := h.readable
  lagrangian := h.lagrangian
  hessian := by
    intro hess hc
    have hstart := h.hessian
    rw [startHessian, hc] at hstart
    rw [h.iter, h.x, h.multipliers]
    exact hstart

theorem Task.current_of_stepped {sol : QuadraticSolution α} (h : t.Stepped s sol s') :
    t.Current s' where
  values := by rw [h.iter]; exact h.values
  gradient := by rw [h.iter]; exact h.gradient
  readable := h.readable
  lagrangian := h.lagrangian
  hessian := by
    intro hess hc
    have hnext := h.hessian
    rw [nextHessian, hc] at hnext
    rw [h.iter]
    exact hnext

theorem current_of_mem_runHeads {opt : Options α} {backend : Backend α}
    {callback : Option (Snapshot α → Bool)} {p : Problem α} :
    ∀ s ∈ runHeads opt backend callback p,
      ∃ checked, p.Passes opt checked ∧ (taskOf opt backend callback p checked).Current s := by
  apply runHeads_induction
  · intro checked first _ hfirst
    exact Task.current_of_started hfirst
  · intro checked s sol s' _ _ _ hstep
    exact Task.current_of_stepped hstep

/-- There is a multiplier for every constraint and for every variable. -/
theorem length_multipliers_of_mem_runHeads {opt : Options α} {backend : Backend α}
    {callback : Option (Snapshot α → Bool)} {p : Problem α} :
    ∀ s ∈ runHeads opt backend callback p,
      s.multipliers.x.length = p.variableCount ∧ s.multipliers.g.length = p.constraintCount := by
  intro s hs
  obtain ⟨_, _, hlength⟩ := runHeads_induction
    (P := fun _ s => s.multipliers.x.length = p.variableCount ∧
      s.multipliers.g.length = p.constraintCount)
    (fun checked first hpass hfirst =>
      hfirst.multipliers ▸ startMultipliers_length hpass.multipliers)
    (fun checked s sol s' _ hs _ hstep =>
      hstep.multipliers ▸ Task.length_nextMultipliers hs.1 hs.2 hstep.length_lamX
        hstep.length_lamA _) s hs
  exact hlength

end Heads

/-! ## Deterministic problems -/

section Deterministic

variable {α : Type} [Scalar α] {t : Task α} {s : Iterate α}

/-- The values and derivatives of a head are the answers at its point, and its Hessian is the
conditioned answer at its point and multipliers. -/
structure Problem.Coherent (p : Problem α) (opt : Options α) (s : Iterate α) : Prop where
  answers : p.Answers s.x s.f s.gradF s.g s.jacobian
  lagrangian : s.gradLagrangian = lagrangianGradient s.gradF s.jacobian s.multipliers
  hessian : opt.hessian = .exact → ∃ hess h, p.hessian = some hess ∧
    (∀ m, hess m s.x s.multipliers.g 1 = .ok h) ∧
    conditioned? opt.regularize h = some (s.hessian, s.regularization)

theorem Task.Current.answers (h : t.Current s) (hdet : t.problem.Deterministic) :
    t.problem.Answers s.x s.f s.gradF s.g s.jacobian where
  gradient m := by
    rw [hdet.gradient m ⟨s.iter, 0⟩]
    exact (gradientAt_eq_ok.mp h.gradient).1
  jacobian := by
    have hvalues := h.values
    unfold JacobianAnswer at hvalues
    cases hc : t.problem.constraints with
    | none =>
        rw [hc] at hvalues
        exact hvalues
    | some c =>
        rw [hc] at hvalues
        intro m
        rw [hdet.jacobian c hc m ⟨s.iter, 0⟩]
        exact hvalues.1

omit [Scalar α] in
theorem Problem.curvature_exact {p : Problem α} {c : Curvature α}
    (h : p.curvature .exact = .ok c) : ∃ hess, p.hessian = some hess ∧ c = .exact hess := by
  unfold Problem.curvature at h
  cases hh : p.hessian with
  | none => simp [hh] at h
  | some hess =>
      simp only [hh] at h
      exact ⟨hess, rfl, (Except.ok.inj h).symm⟩

/-- A problem that passes in exact mode has a Hessian, which is its curvature. -/
theorem Problem.Passes.exists_hessian {p : Problem α} {opt : Options α} {checked : Checked α}
    (h : p.Passes opt checked) (hexact : opt.hessian = .exact) :
    ∃ hess, p.hessian = some hess ∧ checked.curvature = .exact hess :=
  Problem.curvature_exact (hexact ▸ h.curvature)

omit [Scalar α] in
theorem Problem.curvature_eq_exact {p : Problem α} {source : HessianSource}
    {hess : LagrangianHessian α} (h : p.curvature source = .ok (.exact hess)) :
    source = .exact ∧ p.hessian = some hess := by
  cases source with
  | limitedMemory => cases h
  | exact =>
      obtain ⟨hess', hhess, hc⟩ := Problem.curvature_exact h
      cases hc
      exact ⟨rfl, hhess⟩

variable {opt : Options α} {backend : Backend α} {callback : Option (Snapshot α → Bool)}
  {p : Problem α}

theorem coherent_of_mem_runHeads (hdet : p.Deterministic) :
    ∀ s ∈ runHeads opt backend callback p, p.Coherent opt s := by
  intro s hs
  obtain ⟨checked, hpass, hcur⟩ := current_of_mem_runHeads s hs
  refine ⟨hcur.answers hdet, hcur.lagrangian, fun hexact => ?_⟩
  obtain ⟨hess, hhess, hc⟩ := hpass.exists_hessian hexact
  rcases Task.hessianAt_eq_ok.mp (hcur.hessian hess hc) with ⟨h, hok, _, _, hcond⟩
  refine ⟨hess, h, hhess, fun m => ?_, hcond⟩
  rw [hdet.hessian hess hhess m ⟨s.iter, 0⟩]
  exact hok

end Deterministic

/-! ## The gradient of the Lagrangian -/

section Lagrangian

variable {n m : ℕ} {gradF : List Extended} {jac : SparseMatrix Extended}
  {lam : Multipliers Extended} (hlen : gradF.length = n) (hheight : jac.height = m)
  (hcols : jac.cols = n)

include hlen hcols in
theorem length_lagrangianGradient (hlx : lam.x.length = n) :
    (lagrangianGradient gradF jac lam).length = n := by
  simp [lagrangianGradient, hlen, hcols, hlx]

theorem isReal_lagrangianGradient (hgrad : Vec.IsReal gradF) (hjac : jac.IsReal)
    (hlam : lam.IsReal) : Vec.IsReal (lagrangianGradient gradF jac lam) :=
  (hgrad.add (SparseMatrix.isReal_applyTranspose hjac hlam.1)).add hlam.2

include hlen hheight hcols in
/-- The gradient of the Lagrangian as a vector over the real numbers. -/
theorem reals_lagrangianGradient (hgrad : Vec.IsReal gradF) (hjac : jac.IsReal)
    (hlam : lam.IsReal) (hlx : lam.x.length = n) (hlg : lam.g.length = m) :
    Vec.reals n (lagrangianGradient gradF jac lam) =
      Vec.reals n gradF + (jac.dense m n)ᵀ *ᵥ Vec.reals m lam.g + Vec.reals n lam.x := by
  have hproduct : Vec.IsReal (jac.applyTranspose lam.g) :=
    SparseMatrix.isReal_applyTranspose hjac hlam.1
  have htranspose := SparseMatrix.reals_applyTranspose hjac hlam.1 (hlg.trans hheight.symm)
  rw [hheight, hcols] at htranspose
  rw [lagrangianGradient, Vec.reals_add (hgrad.add hproduct) hlam.2 (by simp [hlen, hcols])
    hlx.ge, Vec.reals_add hgrad hproduct hlen.ge (by simp [hcols]), htranspose]

end Lagrangian

/-! ## Heads over the real numbers -/

section Denotation

variable {p : Problem Extended} {opt : Options Extended}

/-- What a head of a run on exact data stands for: its gradient of the Lagrangian, and in exact
mode its Hessian, which is the answer plus the recorded shift times the identity. -/
structure Problem.Denotes (p : Problem Extended) (opt : Options Extended)
    (s : Iterate Extended) : Prop where
  point : p.RealPoint s.x s.multipliers
  objective : s.f.IsReal ∧ Vec.IsReal s.gradF ∧ s.gradF.length = p.variableCount
  values : Vec.IsReal s.g ∧ s.g.length = p.constraintCount ∧ s.jacobian.IsReal
  lagrangian : Vec.IsReal s.gradLagrangian ∧ s.gradLagrangian.length = p.variableCount ∧
    Vec.reals p.variableCount s.gradLagrangian =
      Vec.reals p.variableCount s.gradF +
        (s.jacobian.dense p.constraintCount p.variableCount)ᵀ *ᵥ
          Vec.reals p.constraintCount s.multipliers.g +
        Vec.reals p.variableCount s.multipliers.x
  hessian : opt.hessian = .exact → ∃ hess h, p.hessian = some hess ∧
    hess ⟨s.iter, 0⟩ s.x s.multipliers.g 1 = .ok h ∧ s.hessian.IsReal ∧
    s.regularization.IsReal ∧
    s.hessian.dense p.variableCount p.variableCount =
      h.dense p.variableCount p.variableCount +
        s.regularization.toReal • (1 : Matrix (Fin p.variableCount) (Fin p.variableCount) ℝ)

theorem isReal_empty (height cols : ℕ) : (SparseMatrix.empty height cols).IsReal := by
  apply SparseMatrix.isReal_of_rows
  intro row hrow
  rw [List.eq_of_mem_replicate hrow]
  exact List.forall_mem_nil _

theorem Task.JacobianAnswer.isReal {t : Task Extended} {m : Moment} {x g : List Extended}
    {jac : SparseMatrix Extended} (h : t.JacobianAnswer m x g jac) (hp : t.problem.Exact)
    (hx : Vec.IsReal x) : Vec.IsReal g ∧ jac.IsReal := by
  unfold Task.JacobianAnswer at h
  cases hc : t.problem.constraints with
  | none =>
      rw [hc] at h
      rcases h with ⟨rfl, rfl⟩
      exact ⟨Vec.isReal_nil, isReal_empty _ _⟩
  | some c =>
      rw [hc] at h
      exact hp.jacobian c hc m x g jac hx h.1

/-- A head stands for real numbers when its own answers are real. -/
theorem Task.Current.denotes {t : Task Extended} {s : Iterate Extended} {checked : Checked Extended}
    (h : t.Current s) (hpass : t.problem.Passes t.options checked)
    (hcurv : t.curvature = checked.curvature) (hpoint : t.problem.RealPoint s.x s.multipliers)
    (hobjective : s.f.IsReal ∧ Vec.IsReal s.gradF) (hvalues : Vec.IsReal s.g ∧ s.jacobian.IsReal)
    (hhessian : ∀ hess, t.problem.hessian = some hess → ∀ b,
      hess ⟨s.iter, 0⟩ s.x s.multipliers.g 1 = .ok b → b.WellFormed ∧ b.IsReal) :
    t.problem.Denotes t.options s := by
  obtain ⟨-, hlen⟩ := Task.gradientAt_eq_ok.mp h.gradient
  obtain ⟨hf, hgrad⟩ := hobjective
  obtain ⟨hg, hjac⟩ := hvalues
  obtain ⟨hglen, hheight, hcols⟩ := h.values.shape hpass.unconstrained
  refine ⟨hpoint, ⟨hf, hgrad, hlen⟩, ⟨hg, hglen, hjac⟩, ?_, fun hexact => ?_⟩
  · rw [h.lagrangian]
    exact ⟨isReal_lagrangianGradient hgrad hjac hpoint.multipliers,
      length_lagrangianGradient hlen hcols hpoint.length_lamX,
      reals_lagrangianGradient hlen hheight hcols hgrad hjac hpoint.multipliers
        hpoint.length_lamX hpoint.length_lamG⟩
  · obtain ⟨hess, hhess, hc⟩ := hpass.exists_hessian hexact
    rcases Task.hessianAt_eq_ok.mp (h.hessian hess (hcurv.trans hc)) with ⟨b, hok, hbheight, hbcols, hcond⟩
    obtain ⟨hwf, hreal⟩ := hhessian hess hhess b hok
    obtain ⟨hbreal, hreg⟩ := isReal_conditioned hwf hreal hcond
    exact ⟨hess, b, hhess, hok, hbreal, hreg, dense_conditioned hwf hreal hbheight hbcols hcond⟩

variable {backend : Backend Extended} {callback : Option (Snapshot Extended → Bool)}

theorem denotes_of_mem_runHeads (hp : p.Exact) (hback : backend.Exact) :
    ∀ s ∈ runHeads opt backend callback p, p.Denotes opt s := by
  intro s hs
  obtain ⟨checked, hpass, hcur⟩ := current_of_mem_runHeads s hs
  have hpoint := realPoint_of_mem_runHeads hp hback s hs
  exact Task.Current.denotes hcur hpass rfl hpoint
    (hp.gradient _ _ _ _ hpoint.point (Task.gradientAt_eq_ok.mp hcur.gradient).1)
    (hcur.values.isReal hp hpoint.point)
    fun hess hhess b hok => hp.hessian hess hhess _ _ _ _ _ hpoint.point hpoint.multipliers.1 hok

end Denotation

/-! ## Convergence -/

section Convergence

variable {p : Problem Extended} {opt : Options Extended} {backend : Backend Extended}
  {callback : Option (Snapshot Extended → Bool)}

/-- A point with multipliers whose violations and whose gradient of the Lagrangian are below the
tolerances. -/
structure Problem.Certified (p : Problem Extended) (opt : Options Extended)
    (sol : Solution Extended) (gradF : List Extended) (jac : SparseMatrix Extended) : Prop where
  answers : p.Answers sol.x sol.f gradF sol.g jac
  point : p.RealPoint sol.x sol.multipliers
  withinPoint : ∀ j < p.variableCount,
    Vec.coord p.xmin j - opt.tolPrimal < Vec.coord sol.x j ∧
      Vec.coord sol.x j < Vec.coord p.xmax j + opt.tolPrimal
  withinValues : ∀ i < p.constraintCount,
    Vec.coord p.gmin i - opt.tolPrimal < Vec.coord sol.g i ∧
      Vec.coord sol.g i < Vec.coord p.gmax i + opt.tolPrimal
  stationary : ∀ j : Fin p.variableCount,
    ((|Vec.reals p.variableCount gradF j +
        ((jac.dense p.constraintCount p.variableCount)ᵀ *ᵥ
          Vec.reals p.constraintCount sol.multipliers.g) j +
        Vec.reals p.variableCount sol.multipliers.x j| : ℝ) : Extended) < opt.tolDual

theorem boxed_of_checkBounds {what : Bounded} {n : ℕ} {values lower upper : List Extended}
    (h : Problem.checkBounds what n lower upper = .ok ()) (hlen : values.length = n)
    (hreal : Vec.IsReal values) : Boxed n values lower upper := by
  obtain ⟨hl, hu, hle⟩ := checkBounds_eq_ok h
  exact ⟨hlen, hl, hu, hreal, hle⟩

/-- Values that exceed their bounds by less than a tolerance lie within the widened bounds. -/
theorem within_of_excess_lt {n : ℕ} {values lower upper : List Extended} {tol : Extended}
    (hreal : Vec.IsReal values)
    (h : ∀ j < n, Vec.coord lower j - Vec.coord values j < tol ∧
      Vec.coord values j - Vec.coord upper j < tol) :
    ∀ j < n, Vec.coord lower j - tol < Vec.coord values j ∧
      Vec.coord values j < Vec.coord upper j + tol := by
  intro j hj
  obtain ⟨v, hv⟩ := hreal.coord j
  have hexcess := h j hj
  rw [hv] at hexcess ⊢
  exact ⟨sub_lt_of_sub_lt hexcess.1, lt_add_of_sub_lt hexcess.2⟩

theorem certified_of_converged {checked : Checked Extended} {s : Iterate Extended}
    {sol : Solution Extended} (hpass : p.Passes opt checked)
    (hcoherent : p.Coherent opt s) (hden : p.Denotes opt s)
    (hverdict : (taskOf opt backend callback p checked).verdict s = some .converged)
    (hsol : sol = ⟨s.x, s.f, s.g, s.multipliers, sol.status, s.iter, s.searchFailures⟩) :
    p.Certified opt sol s.gradF s.jacobian := by
  obtain ⟨hprimal, hdual⟩ := Task.converged_of_verdict hverdict
  have hx : Boxed p.variableCount s.x p.xmin p.xmax :=
    boxed_of_checkBounds hpass.pointBounds hden.point.length_x hden.point.point
  have hg : Boxed p.constraintCount s.g p.gmin p.gmax :=
    boxed_of_checkBounds hpass.valueBounds hden.values.2.1 hden.values.1
  rcases (primalInfeasibility_lt_iff hx hg).mp hprimal with ⟨_, hinx, hing⟩
  rcases hden.lagrangian with ⟨hlag, hlaglen, hlageq⟩
  have hnorm : ((‖Vec.reals p.variableCount s.gradLagrangian‖ : ℝ) : Extended) < opt.tolDual := by
    rw [← Vec.normInf_eq hlaglen hlag]
    exact hdual
  rw [hsol]
  exact {
    answers := hcoherent.answers
    point := hden.point
    withinPoint := within_of_excess_lt hden.point.point hinx
    withinValues := within_of_excess_lt hden.values.1 hing
    stationary := by
      intro j
      have hcoord := norm_le_pi_norm (Vec.reals p.variableCount s.gradLagrangian) j
      rw [Real.norm_eq_abs] at hcoord
      refine Extended.lt_of_le_of_lt (real_le_real.mpr ?_) hnorm
      rw [hlageq] at hcoord ⊢
      exact hcoord }

/-- On a deterministic problem every head holds the values and derivatives of its own point and
multipliers. On exact data they satisfy the defining equations, and a run that converges returns
a point within the primal tolerance of all bounds where the gradient of the Lagrangian is below
the dual tolerance. -/
theorem coherent_and_certified (hdet : p.Deterministic) :
    (∀ s ∈ runHeads opt backend callback p, p.Coherent opt s) ∧
      (p.Exact → backend.Exact →
        (∀ s ∈ runHeads opt backend callback p, p.Denotes opt s) ∧
        ∀ sol, (solve opt backend callback p).outcome = .ok sol → sol.status = .converged →
          ∃ gradF jac, p.Certified opt sol gradF jac) := by
  refine ⟨coherent_of_mem_runHeads hdet, fun hp hback => ⟨denotes_of_mem_runHeads hp hback, ?_⟩⟩
  intro sol hok hconv
  obtain ⟨checked, s, hpass, hs, hsol, hverdict⟩ := solve_eq_ok hok
  rw [hconv] at hverdict
  have hended : (taskOf opt backend callback p checked).verdict s = some .converged := by
    rcases hverdict with hverdict | hlimit
    · exact hverdict
    · cases hlimit
  exact ⟨s.gradF, s.jacobian, certified_of_converged hpass
    (coherent_of_mem_runHeads hdet s hs) (denotes_of_mem_runHeads hp hback s hs) hended hsol⟩

end Convergence

/-! ## A linear objective on a half line -/

section Ray

/-- Minimize `x` over `0 ≤ x`, from the solution on. -/
noncomputable def ray : Problem Extended where
  objective := ⟨fun _ x => .ok (Vec.coord x 0), fun _ x => .ok (Vec.coord x 0, [1])⟩
  constraints := none
  hessian := some fun _ _ _ _ => .ok (.ofRows 1 [[]])
  x0 := [0]
  xmin := [0]
  xmax := [posInf]
  gmin := []
  gmax := []
  multipliers := some ⟨[], [-1]⟩

noncomputable def restingBackend : Backend Extended :=
  fun _ _ _ => pure ⟨[0], [0], []⟩

theorem ray_deterministic : ray.Deterministic where
  gradient _ _ _ := rfl
  jacobian _ hc := by cases hc
  hessian _ hh _ _ _ _ _ := by
    cases hh
    rfl

theorem ray_exact : ray.Exact where
  x0 := by simp [ray, Vec.isReal_cons, Vec.isReal_nil]
  multipliers _ hlam := by
    cases hlam
    simp [Multipliers.IsReal, Vec.isReal_cons, Vec.isReal_nil]
  gradient _ x f gradF hx h := by
    cases h
    exact ⟨hx.coord 0, by simp [Vec.isReal_cons, Vec.isReal_nil]⟩
  jacobian _ hc := by cases hc
  hessian _ hh _ _ _ _ _ _ _ h := by
    cases hh
    cases h
    have hrows : ∀ row ∈ [([] : List (ℕ × Extended))], row = [] := by simp
    constructor
    · apply SparseMatrix.wellFormed_ofRows
      intro row hrow
      rw [hrows row hrow]
      exact List.forall_mem_nil _
    · apply SparseMatrix.isReal_of_rows
      intro row hrow
      rw [hrows row hrow]
      exact List.forall_mem_nil _

theorem restingBackend_exact : restingBackend.Exact := by
  intro _ _ _ sol h
  cases h
  simp [QuadraticSolution.IsReal, Vec.isReal_cons, Vec.isReal_nil]

theorem validate_default : (Options.default : Options Extended).validate = .ok () := by
  simp only [Options.validate, Options.default, ofScientific_eq, zero_eq, one_eq, real_lt_real]
  norm_num

theorem ray_check : ray.check .default =
    .ok ⟨.exact fun _ _ _ _ => .ok (.ofRows 1 [[]]), ⟨[], [-1]⟩⟩ :=
  Problem.check_of_passes {
    options := validate_default
    pointBounds := by simp [Problem.checkBounds, Problem.variableCount, ray]
    valueBounds := rfl
    unconstrained := fun _ => rfl
    curvature := rfl
    multipliers := rfl }

/-- The iterate at the only head of the run. -/
noncomputable def rayHead (lag : List Extended) (hess : SparseMatrix Extended) :
    Iterate Extended where
  iter := 0
  x := [0]
  multipliers := ⟨[], [-1]⟩
  f := 0
  gradF := [1]
  g := []
  jacobian := .empty 0 1
  gradLagrangian := lag
  hessian := hess
  regularization := 0
  step := [0]
  sigma := 0
  merits := .new 4
  searchTrials := 0
  searchSuccess := true
  searchFailures := 0

theorem ray_infeasibility :
    primalInfeasibility (α := Extended) [0] [0] [posInf] [] [] [] = 0 := by
  simp [primalInfeasibility, violations, Scalar.maxNum, sub_def, neg_def, add_def, Extended.neg,
    Extended.add, Scalar.isNaN, lt_iff]

theorem ray_lagrangian :
    lagrangianGradient (α := Extended) [1] (.empty 0 1) ⟨[], [-1]⟩ = [0] := by
  show [(1 + 0 + -1 : Extended)] = [0]
  simp

theorem lagrangian_single (v : Extended) :
    lagrangianGradient [v] (.empty 0 1) ⟨[], [0]⟩ = [v] := by
  show [v + 0 + 0] = [v]
  cases v <;> simp [add_def, Extended.add]

/-- A slope of one is not small. -/
theorem not_stationary_one :
    ¬Vec.normInf (lagrangianGradient (α := Extended) [1] (.empty 0 1) ⟨[], [0]⟩) <
      (Options.default : Options Extended).tolDual := by
  rw [lagrangian_single]
  simp [Vec.normInf, Options.default]
  norm_num

theorem ray_verdict (t : Task Extended) (hp : t.problem = ray) (ho : t.options = .default)
    (hc : t.callback = none) (hess : SparseMatrix Extended) :
    t.verdict (rayHead [0] hess) = some .converged := by
  have hstop : ¬t.stopRequested (rayHead [0] hess) = true := by
    simp [Task.stopRequested, hc]
  have hprimal : t.infeasibility (rayHead [0] hess) = 0 := by
    unfold Task.infeasibility Task.infeasibilityAt
    rw [hp]
    exact ray_infeasibility
  have hdual : Vec.normInf (rayHead [0] hess).gradLagrangian = 0 := by
    simp [Vec.normInf, rayHead]
  have htol : (0 : Extended) < (Options.default : Options Extended).tolPrimal := by
    simp [Options.default]
    norm_num
  unfold Task.verdict Task.record
  rw [if_neg hstop]
  simp only [hprimal, hdual, ho]
  exact if_pos ⟨htol, htol⟩

theorem ray_solve : (solve .default restingBackend none ray).outcome =
    .ok ⟨[0], 0, [], ⟨[], [-1]⟩, .converged, 0, 0⟩ := by
  have hstart : ((taskOf .default restingBackend none ray
      ⟨.exact fun _ _ _ _ => .ok (.ofRows 1 [[]]), ⟨[], [-1]⟩⟩).start ⟨[], [-1]⟩).outcome =
      .ok (rayHead [0] (.ofTriplets 1 1 [⟨0, 0, 0⟩])) := by
    rw [← ray_lagrangian]
    rfl
  exact solve_of_verdict ray_check hstart (ray_verdict _ rfl rfl rfl _)

/-- The run on the half line converges and is certified. -/
theorem ray_certified :
    (solve .default restingBackend none ray).outcome =
      .ok ⟨[0], 0, [], ⟨[], [-1]⟩, .converged, 0, 0⟩ ∧
    ∃ gradF jac, ray.Certified .default ⟨[0], 0, [], ⟨[], [-1]⟩, .converged, 0, 0⟩ gradF jac :=
  ⟨ray_solve, ((coherent_and_certified ray_deterministic).2 ray_exact restingBackend_exact).2 _
    ray_solve rfl⟩

end Ray

end SeqQuad.Nonlinear
