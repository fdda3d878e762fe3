import SeqQuad.Proofs.Quadratic.Dimensions
import SeqQuad.Proofs.Quadratic.Regular

/-!
# Programs without inequalities

A program whose bounds are all joined has no slacks, so no step is cut short and the perturbation
stays as it is. The first Newton step lands on the optimum. The change of the objective may keep
the run from ending there; then the second step has length zero and ends it.
-/

namespace SeqQuad

open Extended Matrix Scalar SparseMatrix

/-- The gap at one and its inverse lie on both sides of one. -/
theorem Extended.one_between_epsilons :
    ¬(1 : Extended) < epsilon ∧ ¬(1 : Extended) / epsilon < 1 := by
  have hpow : (1 : ℝ) ≤ ((Nat.pow 2 52 : ℕ) : ℝ) := Nat.one_le_cast.mpr Nat.one_le_two_pow
  have hpos : (0 : ℝ) < ((Nat.pow 2 52 : ℕ) : ℝ) := one_pos.trans_le hpow
  have heps : (epsilon : Extended) = real (1 / ((Nat.pow 2 52 : ℕ) : ℝ)) :=
    real_div_real 1 hpos.ne'
  rw [heps, one_eq, real_div_real 1 (one_div_pos.mpr hpos).ne', one_div_one_div, real_lt_real,
    real_lt_real, not_lt, not_lt]
  exact ⟨div_le_self zero_le_one hpow, hpow⟩

/-! ## Vectors -/

namespace Vec

theorem eq_zeros {x : List Extended} {n : ℕ} (hx : IsReal x) (hlen : x.length = n)
    (h : reals n x = 0) : x = zeros n := by
  rw [hx.eq_ofReals hlen, (isReal_zeros n).eq_ofReals (length_zeros n), h, reals_zeros]

theorem along_zeros {x : List Extended} {n : ℕ} (hx : IsReal x) (hlen : x.length = n) (t : ℝ) :
    along x (zeros n) (t : Extended) = x := by
  have hreal := hx.along (isReal_zeros n) (isReal_real t)
  rw [hreal.eq_ofReals (n := n) (by simp [hlen]), reals_along hx (isReal_zeros n) hlen.ge
    (length_zeros n).ge, reals_zeros, smul_zero, add_zero, ← hx.eq_ofReals hlen]

end Vec

/-! ## Programs whose bounds are joined -/

namespace QuadraticProgram

variable (qp : QuadraticProgram Extended)

/-- Every bound that is a real number belongs to a joined pair. -/
def OnlyJoined : Prop :=
  ∀ i, qp.joined i = true ∨ ¬(qp.lowerAt i).IsReal ∧ ¬(qp.upperAt i).IsReal

/-- The dense rows of the joined pairs. -/
noncomputable def joinedRows :
    Matrix {i : qp.Pair // qp.joined i = true} (Fin qp.variableCount) ℝ :=
  Matrix.of fun i => qp.rowAt i

/-- The matrix of the optimality conditions of a program whose bounds are all joined. -/
noncomputable def joinedSystem :
    Matrix (Fin qp.variableCount ⊕ {i : qp.Pair // qp.joined i = true})
      (Fin qp.variableCount ⊕ {i : qp.Pair // qp.joined i = true}) ℝ :=
  fromBlocks (qp.h.dense _ _) qp.joinedRowsᵀ qp.joinedRows 0

/-- The Newton step from the point `x` with zero multipliers. -/
structure FirstStep (x dx : Fin qp.variableCount → ℝ)
    (dlam : {i : qp.Pair // qp.joined i = true} → ℝ) : Prop where
  stationarity : qp.h.dense _ _ *ᵥ dx + qp.joinedRowsᵀ *ᵥ dlam =
    -(qp.h.dense _ _ *ᵥ x + Vec.reals _ qp.g)
  equalities : ∀ i, (qp.joinedRows *ᵥ dx) i = (qp.upperAt i).toReal - qp.valueAt x i

/-- An exact optimum: the gradient of the Lagrangian vanishes, and every joined pair is met. -/
structure Optimum (sol : QuadraticSolution Extended) : Prop where
  x : Vec.IsReal sol.x ∧ sol.x.length = qp.variableCount
  lamX : Vec.IsReal sol.lamX ∧ sol.lamX.length = qp.variableCount
  lamA : Vec.IsReal sol.lamA ∧ sol.lamA.length = qp.rowCount
  stationary : qp.h.dense qp.variableCount qp.variableCount *ᵥ Vec.reals _ sol.x +
    Vec.reals _ qp.g + (qp.a.dense qp.rowCount qp.variableCount)ᵀ *ᵥ Vec.reals _ sol.lamA +
    Vec.reals _ sol.lamX = 0
  equalities : ∀ i, qp.joined i = true →
    ((qp.valueAt (Vec.reals _ sol.x) i : ℝ) : Extended) = qp.upperAt i

variable {qp}

theorem OnlyJoined.inequalityBounds_eq_nil (h : qp.OnlyJoined) : qp.inequalityBounds = [] := by
  refine List.eq_nil_iff_forall_not_mem.mpr fun ⟨i, b⟩ ha => ?_
  have hp := qp.mem_inequalityBounds.mp ha
  rcases h i with hj | ⟨hl, hu⟩
  · simp [present, hj] at hp
  · have hreal := isReal_of_present hp
    cases b with
    | false => exact hl hreal
    | true => exact hu hreal

end QuadraticProgram

namespace InteriorPoint

/-! ## Iterates without slacks -/

/-- Tolerances that zero residuals meet. -/
structure Options.Tolerant (opt : Options Extended) : Prop where
  feas : 0 < opt.feasTol
  grad : 0 < opt.gradTol
  comp : 0 < opt.compTol
  cost : 0 < opt.costTol

section Slackless

variable {task : Task Extended} {it : Iterate Extended} {opt : Options Extended} {n : ℕ}

/-- The gradient of the Lagrangian and the residuals of the equalities vanish. -/
structure Task.Optimal (task : Task Extended) (it : Iterate Extended) : Prop where
  gradient : Vec.reals task.qp.variableCount (task.lagrangianGradient it.x it.lam it.mu) = 0
  equalities : Vec.reals task.sides.equalities.length it.g = 0

theorem Task.Exact.isReal_objective (h : task.Exact) {x : List Extended} (hx : Vec.IsReal x)
    (hlen : x.length = task.qp.variableCount) : (task.qp.objective x).IsReal := by
  have happly := isReal_apply h.hessian h.readable hx
  have hquad : (task.qp.h.quadForm x).IsReal := by
    rw [quadForm, Vec.dot_eq hlen (by rw [length_apply, h.height]) hx happly]
    exact isReal_real _
  have hlinear : (Vec.dot task.qp.g x).IsReal := by
    rw [Vec.dot_eq rfl hlen.ge h.gradient hx]
    exact isReal_real _
  exact isReal_add_iff.mpr ⟨isReal_mul_iff.mpr ⟨isReal_real _, hquad⟩, hlinear⟩

/-- An iterate without slacks, whose objective is that of its point. -/
structure Task.Slackless (task : Task Extended) (it : Iterate Extended) : Prop where
  posed : task.Posed it
  z : it.z = []
  mu : it.mu = []
  gamma : it.gamma = 1
  objective : it.f = task.qp.objective it.x
  evaluated : task.Evaluated it

variable (h : task.Exact) (hnil : task.sides.inequalities = [])

/-- Without slacks the full step is taken. -/
theorem Task.Slackless.advance_eq (hi : task.Slackless it) (d : Direction Extended) :
    task.advance opt it d n = ⟨n, task.evaluate (Vec.along it.x d.dx 1)
      (Vec.along it.lam d.dlam 1) [] [] 1 (costChange · it.f), 1, 1⟩ := by
  have hdz : Vec.along ([] : List Extended) d.dz 1 = [] := rfl
  have hdmu : Vec.along ([] : List Extended) d.dmu 1 = [] := rfl
  have hlength : ∀ dv, stepLength opt.xi [] dv = 1 := fun _ => rfl
  rw [Task.advance, hi.z, hi.mu, hlength, hlength]
  simp only [hdz, hdmu, nextGamma, hi.gamma, List.isEmpty_nil, if_true]

include hnil

theorem Task.slackless_start {x0 : List Extended} (hx0 : Vec.IsReal x0)
    (hlen : x0.length = task.qp.variableCount) : task.Slackless (task.start opt x0) where
  posed := {
    x := hx0
    lam := Vec.isReal_zeros _
    z := by simp [Task.start, Task.evaluate, hnil, Vec.Positive]
    mu := by simp [Task.start, Task.evaluate, hnil, Vec.isReal_nil]
    gamma := isReal_real 1
    length_x := hlen
    length_lam := Vec.length_zeros _
    length_z := List.length_map _
    length_mu := (List.length_map _).trans (List.length_map _)
    h_eq := rfl
    g_eq := rfl }
  z := by simp [Task.start, Task.evaluate, hnil]
  mu := by simp [Task.start, Task.evaluate, hnil]
  gamma := rfl
  objective := rfl
  evaluated := ⟨0, rfl⟩

theorem Task.Slackless.advance (hi : task.Slackless it) {d : Direction Extended}
    (hd : RealDirection task d) : task.Slackless (task.advance opt it d n).iterate := by
  rw [hi.advance_eq d]
  exact {
    posed := {
      x := hi.posed.x.along hd.dx (isReal_real 1)
      lam := hi.posed.lam.along hd.dlam (isReal_real 1)
      z := List.forall_mem_nil _
      mu := Vec.isReal_nil
      gamma := isReal_real 1
      length_x := by simp [Task.evaluate, hi.posed.length_x, hd.length_dx]
      length_lam := by simp [Task.evaluate, hi.posed.length_lam, hd.length_dlam]
      length_z := by simp [Task.evaluate, hnil]
      length_mu := by simp [Task.evaluate, hnil]
      h_eq := rfl
      g_eq := rfl }
    z := rfl
    mu := rfl
    gamma := rfl
    objective := rfl
    evaluated := ⟨_, rfl⟩ }

omit hnil in
/-- A full step shows no sign of trouble. -/
theorem Task.Slackless.failed_advance (hi : task.Slackless it) (halpha : opt.alphaMin ≤ 1)
    {d : Direction Extended} (hnext : task.Slackless (task.advance opt it d n).iterate) :
    (task.advance opt it d n).failed opt = false := by
  have hnum : (task.advance opt it d n).iterate.x.any isNaN = false :=
    List.any_eq_false.mpr fun a ha => by
      rw [isNaN_eq_false_iff.mpr (hnext.posed.x a ha).ne_nan]
      exact Bool.false_ne_true
  have hshort : ¬(1 : Extended) < opt.alphaMin := fun hlt => hlt.2 halpha
  have hprimal : (task.advance opt it d n).alphaPrimal = 1 := by rw [hi.advance_eq d]
  have hdual : (task.advance opt it d n).alphaDual = 1 := by rw [hi.advance_eq d]
  obtain ⟨hlow, hhigh⟩ := one_between_epsilons
  rw [Progress.failed, hnum, hprimal, hdual, hnext.gamma, decide_eq_false hshort,
    decide_eq_false hlow, decide_eq_false hhigh]
  rfl

section Residuals

variable (hi : task.Slackless it)
include h hi

omit hnil in
/-- The first step of a run, or any other full step, lands on the optimum. -/
theorem Task.Slackless.optimal_advance {d : Direction Extended} (hd : task.NewtonStep it d) :
    task.Optimal (task.advance opt it d n).iterate := by
  have hzero : ∀ {l : List Extended} {m : ℕ}, Vec.IsReal l → l.length = m →
      Vec.reals m (l.map fun r => (1 - ((1 : ℝ) : Extended)) * r) = 0 := by
    intro l m hl hlen
    rw [one_eq, real_sub_real, sub_self, Vec.map_mul_eq_ofReals hl hlen, zero_smul,
      Vec.reals_ofReals]
  have hmu : Vec.along it.mu d.dmu ((1 : ℝ) : Extended) = [] := by rw [hi.mu]; rfl
  have hgradient := hd.lagrangianGradient_along h hi.posed 1
  have hresidual := hd.residual_along h hi.posed 1
  rw [hmu] at hgradient
  have hg : it.g.length = task.sides.equalities.length := by rw [hi.posed.g_eq, List.length_map]
  rw [hi.advance_eq d]
  refine ⟨?_, ?_⟩
  · show Vec.reals _ (task.lagrangianGradient (Vec.along it.x d.dx 1)
      (Vec.along it.lam d.dlam 1) []) = 0
    rw [one_eq, hgradient]
    exact hzero (h.lagrangianGradient_eq hi.posed.x hi.posed.lam hi.posed.mu).1
      (Task.length_lagrangianGradient h.height _ _ _)
  · show Vec.reals _ (task.sides.equalities.map fun s => s.residual (Vec.along it.x d.dx 1)) = 0
    rw [one_eq, hresidual]
    exact hzero (hi.posed.isReal_g h) hg

include hnil

/-- An optimum that the objective does not change any more meets all positive tolerances. -/
theorem Task.Optimal.satisfied (hit : task.Optimal it) (hopt : opt.Tolerant)
    (hcost : it.residuals.cost < opt.costTol) :
    it.residuals.satisfied opt = true := by
  obtain ⟨cost, heval⟩ := hi.evaluated
  have hposed := hi.posed
  have hh : it.h = [] := by rw [hposed.h_eq, hnil, List.map_nil]
  have hg : it.g.length = task.sides.equalities.length := by rw [hposed.g_eq, List.length_map]
  have hquotient : ∀ {r : ℝ}, 0 ≤ r → (0 : Extended) / ((1 + r : ℝ) : Extended) = 0 := by
    intro r hr
    rw [zero_eq, real_div_real 0 (by positivity), zero_div]
  have hnorm : Vec.normInf it.g = 0 := by
    rw [Vec.normInf_eq hg (hposed.isReal_g h), hit.equalities, norm_zero, zero_eq]
  have hgradient : Vec.normInf (task.lagrangianGradient it.x it.lam []) = 0 := by
    have hzero := hit.gradient
    rw [hi.mu] at hzero
    rw [Vec.normInf_eq (Task.length_lagrangianGradient h.height _ _ _)
      (h.lagrangianGradient_eq hposed.x hposed.lam Vec.isReal_nil).1, hzero, norm_zero, zero_eq]
  have hempty : Vec.normInf ([] : List Extended) = ((0 : ℝ) : Extended) := rfl
  have hsum : Vec.sum (List.zipWith (· * ·) ([] : List Extended) []) = 0 := by
    simp [Vec.sum]
  rw [heval] at hcost ⊢
  simp only [Task.residuals, Residuals.satisfied, hh, hi.z, hi.mu, List.foldl_nil, hnorm,
    hgradient, hsum, hempty, Vec.normInf_eq hposed.length_x hposed.x,
    Vec.normInf_eq hposed.length_lam hposed.lam, maxNum_real, one_eq, real_add_real,
    hquotient (norm_nonneg _), hquotient (le_max_of_le_left (norm_nonneg _)), hopt.feas, hopt.grad,
    hopt.comp, decide_true, Bool.true_and, decide_eq_true_eq]
  exact hcost

end Residuals

/-! ## The Newton systems -/

section Systems

variable (hs : Splits task.sides task.qp)

theorem Task.isEmpty_inequalities : IsEmpty (Fin task.sides.inequalities.length) := by
  rw [hnil]
  exact Fin.isEmpty

theorem Task.kkt_of_nil : task.kkt it =
    fromBlocks task.hessian task.equalityRowsᵀ task.equalityRows 0 := by
  have := Task.isEmpty_inequalities hnil
  rw [Task.kkt, Subsingleton.elim task.inequalityRows 0, Matrix.mul_zero, add_zero]

theorem Task.kktSide_of_nil : task.kktSide it =
    -Sum.elim (Vec.reals _ (task.lagrangianGradient it.x it.lam it.mu)) (Vec.reals _ it.g) := by
  have := Task.isEmpty_inequalities hnil
  rw [Task.kktSide, Subsingleton.elim (task.pulls it) 0, mulVec_zero, add_zero]

include hs

omit hnil in
/-- The equalities are the joined pairs. -/
theorem Splits.equalityRows_eq :
    task.equalityRows = task.qp.joinedRows.submatrix hs.equalityAt id := by
  ext k j
  rw [Task.equalityRows, denseRows_sides, hs.getElem_equalities]
  rfl

/-- The reduced system is the system of the joined pairs. -/
theorem Splits.det_kkt : (task.kkt it).det = task.qp.joinedSystem.det := by
  have hkkt : task.kkt it = task.qp.joinedSystem.submatrix
      ((Equiv.refl _).sumCongr hs.equalityAt) ((Equiv.refl _).sumCongr hs.equalityAt) := by
    rw [Task.kkt_of_nil hnil, hs.equalityRows_eq]
    ext (i | k) (j | l) <;> rfl
  rw [hkkt, det_submatrix_equiv_self]

omit hnil in
/-- An equality is missed by what the value of its pair exceeds the bound. -/
theorem Splits.reals_g (h : task.Exact) (hi : task.Posed it)
    (k : Fin task.sides.equalities.length) :
    Vec.reals _ it.g k = task.qp.valueAt (Vec.reals _ it.x) (hs.equalityAt k) -
      (task.qp.upperAt (hs.equalityAt k)).toReal := by
  have hside := h.equalities _ (List.getElem_mem k.isLt)
  have hg : Vec.coord it.g k = (task.sides.equalities[(k : ℕ)]).residual it.x := by
    simp [hi.g_eq, Vec.coord]
  rw [hs.getElem_equalities] at hside hg
  have hupper := QuadraticProgram.isReal_of_joined (hs.equalityAt k).2
  rw [Vec.reals, hg, QuadraticProgram.residual_upperSide hside hi.x, hupper.eq, real_sub_real,
    toReal_real, toReal_real]

/-- A solution of the first reduced system is the first step. -/
theorem Splits.firstStep (h : task.Exact) {x0 : List Extended} (hx0 : Vec.IsReal x0)
    (hlen : x0.length = task.qp.variableCount) {reduced : List Extended}
    (hreduced : task.Reduces (task.start opt x0) reduced) :
    task.qp.FirstStep (Vec.reals _ x0) (Vec.reals _ (reduced.take task.qp.variableCount))
      (Vec.reals task.sides.equalities.length (reduced.drop task.qp.variableCount) ∘
        hs.equalityAt.symm) := by
  have hslackless : task.Slackless (task.start opt x0) := Task.slackless_start hnil hx0 hlen
  have hstart := hslackless.posed
  have hsolved := hreduced.eq
  rw [Task.kkt_of_nil hnil, Task.kktSide_of_nil hnil, fromBlocks_mulVec, ← Sum.elim_neg_neg,
    Sum.elim_eq_iff, zero_mulVec, add_zero, h.reals_lagrangianGradient hstart.x hstart.lam
      hstart.mu hstart.length_lam hstart.length_mu] at hsolved
  obtain ⟨hpoint, hsides⟩ := hsolved
  have hempty := Task.isEmpty_inequalities hnil
  have hmultipliers : task.equalityRowsᵀ *ᵥ Vec.reals task.sides.equalities.length
        (task.start opt x0).lam + task.inequalityRowsᵀ *ᵥ
        Vec.reals task.sides.inequalities.length (task.start opt x0).mu = 0 := by
    have hlam : Vec.reals task.sides.equalities.length (task.start opt x0).lam = 0 :=
      Vec.reals_zeros _ _
    rw [hlam, Subsingleton.elim (Vec.reals _ (task.start opt x0).mu) 0, mulVec_zero, mulVec_zero,
      add_zero]
  refine ⟨?_, fun i => ?_⟩
  · rw [hmultipliers, add_zero, hs.equalityRows_eq, transpose_submatrix,
      submatrix_mulVec_equiv] at hpoint
    exact hpoint
  · obtain ⟨k, rfl⟩ := hs.equalityAt.surjective i
    have hresidual := congrFun hsides k
    rw [Pi.neg_apply, hs.reals_g h hstart, neg_sub, hs.equalityRows_eq] at hresidual
    exact hresidual

end Systems

/-! ## The second step -/

section Second

variable {reduced : List Extended}

/-- From an optimum the Newton step is zero. -/
theorem Task.Optimal.reduced_eq (hit : task.Optimal it) (hdet : (task.kkt it).det ≠ 0)
    (hreduced : task.Reduces it reduced) :
    reduced = Vec.zeros (task.qp.variableCount + task.sides.equalities.length) := by
  have hside : task.kktSide it = 0 := by
    rw [Task.kktSide_of_nil hnil, hit.gradient, hit.equalities, Sum.elim_zero_zero, neg_zero]
  have hzeros : ∀ l m k : ℕ, Vec.reals l ((Vec.zeros (m + k) : List Extended).take m) = 0 ∧
      Vec.reals l ((Vec.zeros (m + k) : List Extended).drop m) = 0 := fun l m k => by
    simp only [Vec.zeros, List.take_replicate, List.drop_replicate]
    exact ⟨Vec.reals_zeros _ _, Vec.reals_zeros _ _⟩
  refine hreduced.unique ⟨Vec.isReal_zeros _, Vec.length_zeros _, ?_⟩ hdet
  rw [(hzeros _ _ _).1, (hzeros _ _ _).2, Sum.elim_zero_zero, mulVec_zero, hside]

omit hnil in
/-- A step of length zero leaves the objective as it is. -/
theorem Task.Slackless.cost_advance (h : task.Exact) (hi : task.Slackless it) :
    (task.advance opt it (task.expand it
      (Vec.zeros (task.qp.variableCount + task.sides.equalities.length))) n
        ).iterate.residuals.cost = 0 := by
  have hdx : (task.expand it
      (Vec.zeros (task.qp.variableCount + task.sides.equalities.length))).dx =
      Vec.zeros task.qp.variableCount := by
    simp [Task.expand, Vec.zeros]
  obtain ⟨f, hf⟩ := h.isReal_objective hi.posed.x hi.posed.length_x
  rw [hi.advance_eq]
  show costChange (task.qp.objective (Vec.along it.x _ 1)) it.f = 0
  rw [hdx, one_eq, Vec.along_zeros hi.posed.x hi.posed.length_x, hi.objective, hf, costChange,
    real_sub_real, sub_self, magnitude_real, magnitude_real, abs_zero, one_eq, real_add_real,
    real_div_real 0 (by positivity), zero_div, zero_eq]

end Second

end Slackless

/-! ## Two iterations -/

section Run

variable {task : Task Extended} {it : Iterate Extended} {opt : Options Extended}
  {solver : LinearSolver Extended} {left made n : ℕ}

/-- The loop goes on after a step that shows no sign of trouble. -/
theorem Task.iterate_of_going {p : Progress Extended} (hsat : it.residuals.satisfied opt = false)
    (hstep : task.step opt solver (made + 1) it = .ok p) (hgo : p.failed opt = false) :
    task.iterate opt solver (left + 1) made it =
      ⟨.iterated p :: (task.iterate opt solver left (made + 1) p.iterate).journal,
        (task.iterate opt solver left (made + 1) p.iterate).outcome⟩ := by
  rw [Task.iterate_of_step hsat hstep, hgo, Bool.and_false, if_neg Bool.false_ne_true]

/-- With room for any Newton matrix of the task there is room for this one. -/
theorem Task.Assembles.hasRoom (h : task.Assembles) (hi : task.Shaped it) : task.HasRoom it := by
  have hlisted := length_toTriplets_le task.qp.h
  have hrows := hi.length_eliminatedTriplets
  refine ⟨Vec.fits_of_le h.room ?_, Vec.fits_of_le h.room (by omega)⟩
  rw [List.length_append]
  omega

/-- A task whose sides are the joined pairs of a program with a regular system. -/
structure Task.Regular (task : Task Extended) : Prop where
  exact : task.Exact
  splits : Splits task.sides task.qp
  slackless : task.sides.inequalities = []
  assembles : task.Assembles
  symmetric : task.hessian.IsSymm
  regular : task.qp.joinedSystem.det ≠ 0

variable (hr : task.Regular) (hsolver : solver.SolvesRegular)
include hr hsolver

/-- A step is the expansion of the only solution of its system, unless that is too long. -/
theorem Task.Regular.step_eq (hi : task.Slackless it) (opt : Options Extended) (n : ℕ) :
    ∃ reduced, task.Reduces it reduced ∧ task.NewtonStep it (task.expand it reduced) ∧
      (¬opt.maxStepSize < Vec.norm reduced →
        task.step opt solver n it = .ok (task.advance opt it (task.expand it reduced) n)) := by
  have hdet : (task.kkt it).det ≠ 0 := by
    rw [hr.splits.det_kkt hr.slackless]
    exact hr.regular
  obtain ⟨reduced, hreduced, hnewton, hdirection⟩ := hi.posed.direction_of_regular hr.exact
    hr.assembles.wellFormed hr.symmetric (hr.assembles.hasRoom hi.posed.shaped)
    hsolver opt n hdet
  refine ⟨reduced, hreduced, hnewton, fun hsize => ?_⟩
  rw [Task.step, hdirection, if_neg hsize]
  rfl

/-- The step from an optimum has length zero, and leads to one that meets the tolerances. -/
theorem Task.Regular.step_of_optimal (hi : task.Slackless it) (hit : task.Optimal it)
    (hmax : 0 ≤ opt.maxStepSize) (hopt : opt.Tolerant) (halpha : opt.alphaMin ≤ 1) :
    ∃ p, task.step opt solver n it = .ok p ∧ p.failed opt = false ∧ task.Slackless p.iterate ∧
      task.Optimal p.iterate ∧ p.iterate.residuals.satisfied opt = true := by
  obtain ⟨reduced, hreduced, hnewton, hstep⟩ := hr.step_eq hsolver hi opt n
  obtain rfl := hit.reduced_eq hr.slackless (hr.splits.det_kkt hr.slackless ▸ hr.regular) hreduced
  have hsize : ¬opt.maxStepSize < Vec.norm (Vec.zeros
      (task.qp.variableCount + task.sides.equalities.length) : List Extended) := by
    rw [Vec.norm_eq (Vec.isReal_zeros _) (Vec.length_zeros _), Vec.reals_zeros, dotProduct_zero,
      Real.sqrt_zero]
    exact fun hlt => hlt.2 hmax
  have hslackless : task.Slackless (task.advance opt it (task.expand it _) n).iterate :=
    hi.advance hr.slackless hnewton.direction
  have hoptimal : task.Optimal (task.advance opt it (task.expand it _) n).iterate :=
    hi.optimal_advance hr.exact hnewton
  have hsatisfied := hoptimal.satisfied hr.exact hr.slackless hslackless hopt
    (by rw [hi.cost_advance hr.exact]; exact hopt.cost)
  exact ⟨_, hstep hsize, hi.failed_advance halpha hslackless, hslackless, hoptimal, hsatisfied⟩

/-- The first step of a run lands on the optimum. -/
theorem Task.Regular.step_of_start {x0 : List Extended} (hx0 : Vec.IsReal x0)
    (hlen : x0.length = task.qp.variableCount) (halpha : opt.alphaMin ≤ 1)
    (hsize : ∀ dx dlam, task.qp.FirstStep (Vec.reals _ x0) dx dlam →
      ((√(dx ⬝ᵥ dx + dlam ⬝ᵥ dlam) : ℝ) : Extended) ≤ opt.maxStepSize) :
    0 ≤ opt.maxStepSize ∧
      ∃ p, task.step opt solver n (task.start opt x0) = .ok p ∧ p.failed opt = false ∧
        task.Slackless p.iterate ∧ task.Optimal p.iterate := by
  have hi : task.Slackless (task.start opt x0) := Task.slackless_start hr.slackless hx0 hlen
  obtain ⟨reduced, hreduced, hnewton, hstep⟩ := hr.step_eq hsolver hi opt n
  have hfirst := hsize _ _ (hr.splits.firstStep hr.slackless hr.exact hx0 hlen hreduced)
  have hmax : 0 ≤ opt.maxStepSize := by
    rw [zero_eq]
    exact Extended.le_trans (real_le_real.mpr (Real.sqrt_nonneg _)) hfirst
  rw [comp_equiv_symm_dotProduct, Function.comp_assoc, Equiv.symm_comp_self, Function.comp_id,
    ← Vec.norm_eq_parts hreduced.real hreduced.length] at hfirst
  have hnext : task.Slackless (task.advance opt _ (task.expand _ reduced) n).iterate :=
    hi.advance hr.slackless hnewton.direction
  exact ⟨hmax, _, hstep fun hlt => hlt.2 hfirst, hi.failed_advance halpha hnext, hnext,
    hi.optimal_advance hr.exact hnewton⟩

/-- A run from a real point ends within two iterations: at once, or at an optimum. -/
theorem Task.Regular.iterate_start {x0 : List Extended} (hx0 : Vec.IsReal x0)
    (hlen : x0.length = task.qp.variableCount) (hopt : opt.Tolerant) (halpha : opt.alphaMin ≤ 1)
    (hsize : ∀ dx dlam, task.qp.FirstStep (Vec.reals _ x0) dx dlam →
      ((√(dx ⬝ᵥ dx + dlam ⬝ᵥ dlam) : ℝ) : Extended) ≤ opt.maxStepSize) (left made : ℕ) :
    ∃ made' it', (task.iterate opt solver (left + 2) made (task.start opt x0)).outcome =
        .ok (made', it') ∧
      (progresses (task.iterate opt solver (left + 2) made
        (task.start opt x0)).journal).length ≤ 2 ∧
      (it' = task.start opt x0 ∧ it'.residuals.satisfied opt = true ∨
        task.Slackless it' ∧ task.Optimal it') := by
  cases hsat : (task.start opt x0).residuals.satisfied opt with
  | true =>
      rw [Task.iterate_of_satisfied hsat]
      exact ⟨made, _, rfl, Nat.zero_le 2, .inl ⟨rfl, hsat⟩⟩
  | false =>
      obtain ⟨hmax, p, hstep, hgo, hi, hit⟩ :=
        hr.step_of_start (n := made + 1) hsolver hx0 hlen halpha hsize
      rw [Task.iterate_of_going hsat hstep hgo]
      cases hnext : p.iterate.residuals.satisfied opt with
      | true =>
          rw [Task.iterate_of_satisfied hnext]
          exact ⟨made + 1, _, rfl, one_le_two, .inr ⟨hi, hit⟩⟩
      | false =>
          obtain ⟨q, hstep, hgo, hi, hit, hsat⟩ :=
            hr.step_of_optimal (n := made + 1 + 1) hsolver hi hit hmax hopt halpha
          rw [Task.iterate_of_going hnext hstep hgo, Task.iterate_of_satisfied hsat]
          exact ⟨made + 1 + 1, _, rfl, le_rfl, .inr ⟨hi, hit⟩⟩

end Run

/-! ## Answers -/

section Answers

variable {task : Task Extended} {it : Iterate Extended} {opt : Options Extended}
  (hr : task.Regular)
include hr

/-- The multipliers of an iterate without slacks, by pairs. -/
theorem Task.Regular.exists_gathers (hi : task.Slackless it) :
    ∃ c : Multipliers task.qp, c.Gathers it.lam it.z it.mu ∧
      ∀ i, c.net i = c.free i := by
  have hlen := hi.posed.length_lam
  have hlenz := hi.posed.length_z
  have hlenmu := hi.posed.length_mu
  rw [hr.splits.equalities, List.length_map] at hlen
  rw [hr.splits.inequalities, List.length_map] at hlenz hlenmu
  obtain ⟨c, hc⟩ :=
    InteriorPoint.exists_gathers hi.posed.lam hi.posed.z.isReal hi.posed.mu hlen hlenz hlenmu
  have hside : ∀ a, c.side a = 0 := fun a => by
    refine (hc.outside fun ha => ?_).1
    have hmem := List.mem_map_of_mem (f := task.qp.sideAt) ha
    rw [← hr.splits.inequalities, hr.slackless] at hmem
    exact List.not_mem_nil hmem
  exact ⟨c, hc, fun i => by rw [Multipliers.net, hside, hside, sub_zero, zero_add]⟩

/-- The answer at an optimal iterate is an optimum. -/
theorem Task.Regular.optimum (hi : task.Slackless it) (hit : task.Optimal it) :
    task.qp.Optimum (task.solution it) := by
  obtain ⟨c, hc, -⟩ := hr.exists_gathers hi
  obtain ⟨⟨hlamX, hlamXeq⟩, hlamA, hlamAeq⟩ := reals_multipliers hr.splits hc
  obtain ⟨hlenX, hlenA⟩ :=
    length_multipliers task.sides task.qp.variableCount task.qp.rowCount it.lam it.mu
  have hgradient := hit.gradient
  rw [reals_lagrangianGradient hr.exact hr.splits hc hi.posed.x, ← hlamXeq, ← hlamAeq] at hgradient
  refine ⟨⟨hi.posed.x, hi.posed.length_x⟩, ⟨hlamX, hlenX⟩, ⟨hlamA, hlenA⟩, hgradient,
    fun i hj => ?_⟩
  have hresidual := congrFun hit.equalities (hr.splits.equalityAt.symm ⟨i, hj⟩)
  rw [hr.splits.reals_g hr.exact hi.posed, Equiv.apply_symm_apply, Pi.zero_apply,
    sub_eq_zero] at hresidual
  rw [(QuadraticProgram.isReal_of_joined hj).eq, ← hresidual]
  rfl

/-- The answer at the start has no multipliers. -/
theorem Task.Regular.solution_start {x0 : List Extended} (hx0 : Vec.IsReal x0)
    (hlen : x0.length = task.qp.variableCount) :
    task.solution (task.start opt x0) =
      ⟨x0, Vec.zeros task.qp.variableCount, Vec.zeros task.qp.rowCount⟩ := by
  have hslackless : task.Slackless (task.start opt x0) :=
    Task.slackless_start hr.slackless hx0 hlen
  obtain ⟨c, hc, hnet⟩ := hr.exists_gathers hslackless
  obtain ⟨⟨hlamX, hlamXeq⟩, hlamA, hlamAeq⟩ := reals_multipliers hr.splits hc
  obtain ⟨hlenX, hlenA⟩ := length_multipliers task.sides task.qp.variableCount task.qp.rowCount
    (task.start opt x0).lam (task.start opt x0).mu
  have hfree : ∀ i, c.free i = 0 := fun i => by
    by_cases hi : i ∈ task.qp.equalityPairs
    · have hmem : (c.free i : Extended) ∈ (task.start opt x0).lam :=
        hc.lam ▸ List.mem_map_of_mem (f := fun i => (c.free i : Extended)) hi
      exact real_inj.mp (List.eq_of_mem_replicate hmem)
    · exact hc.free_outside hi
  have hzero : ∀ i, c.net i = 0 := fun i => (hnet i).trans (hfree i)
  simp only [hzero] at hlamXeq hlamAeq
  show (⟨x0, _, _⟩ : QuadraticSolution Extended) = _
  rw [Vec.eq_zeros hlamX hlenX hlamXeq, Vec.eq_zeros hlamA hlenA hlamAeq]

end Answers

section Whole

variable {qp : QuadraticProgram Extended} {opt : Options Extended}
  {solver : LinearSolver Extended} {x0 : List Extended}

theorem regular_of_check {task : Task Extended} (hqp : qp.Exact) (hh : qp.h.WellFormed)
    (hsymm : (qp.h.dense qp.variableCount qp.variableCount).IsSymm) (hjoined : qp.OnlyJoined)
    (hdet : qp.joinedSystem.det ≠ 0) (hroom : qp.HasRoom)
    (hcheck : Task.check opt qp x0 = .ok task) : task.Regular := by
  obtain ⟨hexact, hsplits⟩ := exact_of_check hqp hcheck
  have hassembles := assembles_of_check hh hroom hcheck
  obtain ⟨-, rfl, -, -⟩ := check_eq_ok hcheck
  exact {
    exact := hexact
    splits := hsplits
    slackless := by rw [hsplits.inequalities, hjoined.inequalityBounds_eq_nil, List.map_nil]
    assembles := hassembles
    symmetric := hsymm
    regular := hdet }

/-- A program whose bounds are all joined, with a regular system of optimality conditions, is
solved within two iterations from any real point. The answer is that point without multipliers if
it meets the tolerances, and an exact optimum otherwise. The options are those the checks accept,
with positive tolerances and room for two iterations, for full steps and for the first of them. -/
theorem solve_of_onlyJoined (hqp : qp.Exact) (hh : qp.h.WellFormed) (ha : qp.a.WellFormed)
    (hsymm : (qp.h.dense qp.variableCount qp.variableCount).IsSymm) (hconforms : Conforms qp x0)
    (hcov : qp.Covered) (hroom : qp.HasRoom) (hjoined : qp.OnlyJoined)
    (hdet : qp.joinedSystem.det ≠ 0) (hsolver : solver.SolvesRegular) (hx0 : Vec.IsReal x0)
    (hopt : opt.Accepted) (htol : opt.Tolerant) (halpha : opt.alphaMin ≤ 1)
    (hiterations : 2 ≤ opt.maxIterations)
    (hsize : ∀ dx dlam, qp.FirstStep (Vec.reals _ x0) dx dlam →
      ((√(dx ⬝ᵥ dx + dlam ⬝ᵥ dlam) : ℝ) : Extended) ≤ opt.maxStepSize) :
    ∃ sol, (solve opt solver qp x0).outcome = .ok sol ∧
      (progresses (solve opt solver qp x0).journal).length ≤ 2 ∧
      ((∃ task, Task.check opt qp x0 = .ok task ∧
          (task.start opt x0).residuals.satisfied opt = true ∧
          sol = ⟨x0, Vec.zeros qp.variableCount, Vec.zeros qp.rowCount⟩) ∨
        qp.Optimum sol) := by
  obtain ⟨task, hcheck⟩ := exists_check hh ha hopt hconforms hcov
  have hr := regular_of_check hqp hh hsymm hjoined hdet hroom hcheck
  obtain ⟨-, rfl, -, -⟩ := check_eq_ok hcheck
  obtain ⟨k, hk⟩ := Nat.exists_eq_add_of_le' hiterations
  obtain ⟨made, it, hloop, hfew, hend⟩ := hr.iterate_start hsolver hx0 hconforms.start htol halpha
    hsize k 0
  rw [← hk] at hloop hfew
  refine ⟨task.solution it, ?_, by rwa [progresses_solve hcheck], ?_⟩
  · rw [solve_of_check hcheck]
    exact Journaled.outcome_bind_eq_ok.mpr ⟨(made, it), hloop, rfl⟩
  · rcases hend with ⟨rfl, hsat⟩ | ⟨hi, hit⟩
    · exact .inl ⟨task, hcheck, hsat, hr.solution_start hx0 hconforms.start⟩
    · exact .inr (hr.optimum hi hit)

end Whole

/-! ## A point on a line -/

section Pinned

/-- Minimize half the square of `x` over `x = 1`. -/
noncomputable def pinned : QuadraticProgram Extended where
  h := .ofRows 1 [[(0, 1)]]
  g := [0]
  lbx := [negInf]
  ubx := [posInf]
  a := .ofRows 1 [[(0, 1)]]
  lba := [1]
  uba := [1]

theorem pinned_exact : pinned.Exact where
  hessian := isReal_of_rows (by simp)
  gradient := by simp [pinned, Vec.IsReal]
  constraints := isReal_of_rows (by simp)

/-- The row makes an equality, and the variable is free. -/
theorem pinned_joined (i : pinned.Pair) : pinned.joined i = true ↔ i = .inr (0 : Fin 1) := by
  rcases i with j | k
  · rw [Subsingleton.elim (α := Fin 1) j 0]
    simp [QuadraticProgram.joined, QuadraticProgram.upperAt, pinned, Vec.coord]
  · have hgap : magnitude ((1 : Extended) - 1) ≤ epsilon := by
      obtain ⟨r, hr, hpos⟩ := epsilon_eq
      rw [hr, one_eq, real_sub_real, magnitude_real, real_le_real, sub_self, abs_zero]
      exact hpos.le
    have hone : isFinite (1 : Extended) = true := isFinite_iff.mpr (isReal_real 1)
    have hjoined : pinned.joined (.inr (0 : Fin 1)) = true := by
      show (isFinite (1 : Extended) && isFinite (1 : Extended) &&
        decide (magnitude ((1 : Extended) - 1) ≤ epsilon)) = true
      rw [hone, decide_eq_true hgap]
      rfl
    rw [Subsingleton.elim (α := Fin 1) k 0]
    exact iff_of_true hjoined rfl

theorem pinned_onlyJoined : pinned.OnlyJoined := by
  rintro (j | k)
  · rw [Subsingleton.elim (α := Fin 1) j 0]
    exact .inr ⟨not_isReal_negInf, not_isReal_posInf⟩
  · exact .inl ((pinned_joined _).mpr (congrArg Sum.inr (Subsingleton.elim (α := Fin 1) k 0)))

/-- The joined pair. -/
noncomputable def pinnedPair : {i : pinned.Pair // pinned.joined i = true} :=
  ⟨.inr (0 : Fin 1), (pinned_joined _).mpr rfl⟩

noncomputable instance : Unique {i : pinned.Pair // pinned.joined i = true} where
  default := pinnedPair
  uniq i := Subtype.ext ((pinned_joined i).mp i.2)

instance : Unique (Fin pinned.variableCount) :=
  inferInstanceAs (Unique (Fin 1))

/-- Every block of the system holds a one only. -/
theorem pinned_mulVec (v : Fin pinned.variableCount → ℝ)
    (w : {i : pinned.Pair // pinned.joined i = true} → ℝ) :
    (pinned.h.dense pinned.variableCount pinned.variableCount *ᵥ v) default = v default ∧
      (pinned.joinedRows *ᵥ v) default = v default ∧
      (pinned.joinedRowsᵀ *ᵥ w) default = w default := by
  have hone : rowEntry [(0, (1 : Extended))] 0 = 1 := by simp [rowEntry]
  have hmul : ∀ r, rowEntry [(0, (1 : Extended))] 0 * r = r := fun r => by rw [hone, one_mul]
  refine ⟨?_, ?_, ?_⟩
  all_goals
    rw [Matrix.mulVec, dotProduct, Fintype.sum_unique]
    exact hmul _

theorem pinned_regular : pinned.joinedSystem.det ≠ 0 := by
  rw [Ne, ← exists_mulVec_eq_zero_iff, not_exists]
  rintro v ⟨hne, hv⟩
  rw [QuadraticProgram.joinedSystem, fromBlocks_mulVec, ← Sum.elim_zero_zero,
    Sum.elim_eq_iff, zero_mulVec, add_zero] at hv
  obtain ⟨hhessian, hrows, hcols⟩ := pinned_mulVec (v ∘ Sum.inl) (v ∘ Sum.inr)
  have hpoint := congrFun hv.1 default
  have hsides := congrFun hv.2 default
  rw [hrows, Pi.zero_apply] at hsides
  rw [Pi.add_apply, hhessian, hcols, hsides, zero_add, Pi.zero_apply] at hpoint
  refine hne (funext fun a => ?_)
  rcases a with j | i
  · rw [Unique.eq_default j]
    exact hsides
  · rw [Unique.eq_default i]
    exact hpoint

/-- The first step goes to the point on the line. -/
theorem pinned_step {dx : Fin pinned.variableCount → ℝ}
    {dlam : {i : pinned.Pair // pinned.joined i = true} → ℝ}
    (h : pinned.FirstStep (Vec.reals _ [0]) dx dlam) : dx default = 1 ∧ dlam default = -1 := by
  obtain ⟨hhessian, hrows, hcols⟩ := pinned_mulVec dx dlam
  have hstart := pinned_mulVec (Vec.reals pinned.variableCount [0]) dlam
  have hzero : Vec.reals pinned.variableCount [0] default = 0 := rfl
  have hgradient : Vec.reals pinned.variableCount pinned.g default = 0 := rfl
  have hupper : (pinned.upperAt pinnedPair).toReal = 1 := rfl
  have hvalue : pinned.valueAt (Vec.reals _ [0]) pinnedPair = 0 := hstart.2.1.trans hzero
  have hsides := h.equalities default
  have hpoint := congrFun h.stationarity default
  rw [hrows] at hsides
  rw [Pi.add_apply, hhessian, hcols, Pi.neg_apply, Pi.add_apply, hstart.1, hzero,
    hgradient] at hpoint
  have hdx : dx default = 1 := by
    rw [hsides]
    show (pinned.upperAt pinnedPair).toReal - pinned.valueAt (Vec.reals _ [0]) pinnedPair = 1
    rw [hupper, hvalue, sub_zero]
  exact ⟨hdx, by linarith⟩

/-- From zero, the point on the line is reached within two iterations. -/
theorem pinned_solved :
    ∃ sol, (solve .default .inverting pinned [0]).outcome = .ok sol ∧
      (progresses (solve .default .inverting pinned [0]).journal).length ≤ 2 ∧
      ((∃ task, Task.check .default pinned [0] = .ok task ∧
          (task.start .default [0]).residuals.satisfied .default = true ∧
          sol = ⟨[0], Vec.zeros 1, Vec.zeros 1⟩) ∨
        pinned.Optimum sol) := by
  have hsymm : (pinned.h.dense pinned.variableCount pinned.variableCount).IsSymm := by
    ext i j
    rw [Subsingleton.elim i j]
    rfl
  have hroom : pinned.HasRoom := by
    have hfew : pinned.equalityPairs.length ≤ 2 := pinned.pairs.length_filter_le pinned.joined
    refine Vec.fits_of_le (n := 8) (by decide) ?_
    rw [QuadraticProgram.listed, pinned_onlyJoined.inequalityBounds_eq_nil]
    show 1 + 0 + (1 + pinned.equalityPairs.length) + 1 ≤ 8
    omega
  have htol : (Options.default : Options Extended).Tolerant := by
    constructor <;>
      simp only [Options.default, ofScientific_eq, zero_eq, real_lt_real] <;> norm_num
  have halpha : (Options.default : Options Extended).alphaMin ≤ 1 := by
    simp only [Options.default, ofScientific_eq, one_eq, real_le_real]
    norm_num
  have hsize : ∀ dx dlam, pinned.FirstStep (Vec.reals _ [0]) dx dlam →
      ((√(dx ⬝ᵥ dx + dlam ⬝ᵥ dlam) : ℝ) : Extended) ≤ Options.default.maxStepSize := by
    intro dx dlam h
    obtain ⟨hdx, hdlam⟩ := pinned_step h
    simp only [dotProduct, Fintype.sum_unique, hdx, hdlam, Options.default, ofScientific_eq,
      real_le_real]
    exact Real.sqrt_le_iff.mpr ⟨by norm_num, by norm_num⟩
  exact solve_of_onlyJoined pinned_exact (wellFormed_ofRows (by simp))
    (wellFormed_ofRows (by simp)) hsymm ⟨rfl, rfl, rfl, fun _ => rfl⟩
    ⟨le_rfl, le_rfl, le_rfl, le_rfl⟩ hroom pinned_onlyJoined pinned_regular
    LinearSolver.inverting_solvesRegular (Vec.isReal_map_real [0])
    ⟨default_ranges.1, default_ranges.2⟩ htol halpha (by decide) hsize

end Pinned

end InteriorPoint

end SeqQuad
