import SeqQuad.Proofs.Quadratic.Multipliers

/-!
# Answers are approximate optima

Every answer of the interior point method comes with multipliers and slacks that make it an
approximate optimum of the program with two-sided bounds.
-/

namespace SeqQuad

open Extended Matrix Scalar

namespace InteriorPoint

variable {qp : QuadraticProgram Extended}

/-! ## Residuals by pairs -/

section Residuals

variable {task : Task Extended} {c : Multipliers task.qp} {x lam z mu : List Extended}
  (h : task.Exact) (hs : Splits task.sides task.qp) (hc : c.Gathers lam z mu)
  (hx : Vec.IsReal x)
include hc

include h hs hx in
/-- The gradient of the Lagrangian is that of the program with two-sided bounds. -/
theorem reals_lagrangianGradient :
    Vec.reals task.qp.variableCount (task.lagrangianGradient x lam mu) =
      task.qp.h.dense task.qp.variableCount task.qp.variableCount *ᵥ
          Vec.reals task.qp.variableCount x +
        Vec.reals task.qp.variableCount task.qp.g +
        (task.qp.a.dense task.qp.rowCount task.qp.variableCount)ᵀ *ᵥ (fun k => c.net (.inr k)) +
        fun j => c.net (.inl j) := by
  have hlam : Vec.IsReal lam := by
    rw [hc.lam]
    exact isReal_map_coe _ _
  have hmu : Vec.IsReal mu := by
    rw [hc.mu]
    exact isReal_map_coe _ _
  have happly := SparseMatrix.reals_apply_of_eq h.hessian h.readable h.height h.cols hx
  rw [(h.lagrangianGradient_eq hx hlam hmu).2, happly, add_assoc _ (_ *ᵥ _) (fun j => _),
    ← sum_net_rowAt]
  congr 1
  funext j
  exact sum_weighted hs hc (f := fun s => SparseMatrix.rowEntry s.coef j)
    fun i => QuadraticProgram.rowEntry_lowerSide i j

/-- The sum of the products of slacks and multipliers. -/
theorem sum_slack_mul :
    Vec.sum (List.zipWith (· * ·) z mu) = ((∑ a, c.slack a * c.side a : ℝ) : Extended) := by
  have hzip : List.zipWith (· * ·) z mu =
      (task.qp.inequalityBounds.map fun a => c.slack a * c.side a).map real := by
    rw [hc.z, hc.mu, List.zipWith_map, List.zipWith_self, List.map_map]
    rfl
  rw [hzip, Vec.sum_eq (Vec.isReal_map_real _), List.map_map]
  congr 1
  have hid : toReal ∘ real = id := rfl
  rw [hid, List.map_id]
  apply sum_map_eq_sum task.qp.nodup_inequalityBounds
  intro a ha
  rw [(hc.outside ha).2, zero_mul]

omit hc in
/-- What the largest residual is below, every residual is below. -/
theorem forall_lt_of_feas {g h : List Extended} (hg : Vec.IsReal g) (hh : Vec.IsReal h) {s : ℝ}
    (hpos : 0 < s) {t : Extended} (hlt : h.foldl maxNum (Vec.normInf g) / (s : Extended) < t) :
    (∀ r ∈ g, magnitude r < t * (s : Extended)) ∧ ∀ r ∈ h, r < t * (s : Extended) := by
  have hnorm : Vec.normInf g = ((‖Vec.reals g.length g‖ : ℝ) : Extended) :=
    Vec.normInf_eq rfl hg
  have hlargest : h.foldl maxNum (Vec.normInf g) =
      (((h.map toReal).foldl max ‖Vec.reals g.length g‖ : ℝ) : Extended) := by
    rw [hnorm, ← Vec.foldl_maxNum_map_real, ← hh.eq_map]
  rw [hlargest] at hlt
  have hbelow := lt_mul_of_div_lt hpos hlt
  have hne : Vec.normInf g ≠ nan := by
    rw [hnorm]
    exact (isReal_real _).ne_nan
  rw [← hlargest, Vec.foldl_maxNum_lt_iff hne fun r hr => (hh r hr).ne_nan] at hbelow
  refine ⟨fun r hr => ?_, hbelow.2⟩
  have hmagnitude : ∀ b ∈ g.map magnitude, b ≠ nan := by
    intro b hb
    rcases List.mem_map.mp hb with ⟨a, ha, rfl⟩
    obtain ⟨a, rfl⟩ := hg a ha
    exact (isReal_real |a|).ne_nan
  have hentries := (Vec.foldl_maxNum_lt_iff (isReal_real 0).ne_nan hmagnitude).mp hbelow.1
  exact hentries.2 _ (List.mem_map_of_mem hr)

end Residuals

/-! ## The certificate -/

/-- An approximate optimum of a program with two-sided bounds, to the tolerances of the options:
multipliers of the right signs, what they contribute to the answer, and the bounds on the
gradient of the Lagrangian, on every violation and on the products of slacks and multipliers. -/
structure Certificate (opt : Options Extended) (qp : QuadraticProgram Extended)
    (sol : QuadraticSolution Extended) (c : Multipliers qp) : Prop where
  x : Vec.IsReal sol.x
  lamX : Vec.IsReal sol.lamX
  lamA : Vec.IsReal sol.lamA
  length_x : sol.x.length = qp.variableCount
  length_lamX : sol.lamX.length = qp.variableCount
  length_lamA : sol.lamA.length = qp.rowCount
  positive : ∀ a, qp.present a = true → 0 < c.side a ∧ 0 < c.slack a
  absent : ∀ a, qp.present a = false → c.side a = 0 ∧ c.slack a = 0
  not_joined : ∀ i, qp.joined i = false → c.free i = 0
  lamX_eq : Vec.reals qp.variableCount sol.lamX = fun j => c.net (.inl j)
  lamA_eq : Vec.reals qp.rowCount sol.lamA = fun k => c.net (.inr k)
  stationary :
    ((‖qp.h.dense qp.variableCount qp.variableCount *ᵥ Vec.reals qp.variableCount sol.x +
        Vec.reals qp.variableCount qp.g +
        (qp.a.dense qp.rowCount qp.variableCount)ᵀ *ᵥ Vec.reals qp.rowCount sol.lamA +
        Vec.reals qp.variableCount sol.lamX‖ : ℝ) : Extended) <
      opt.gradTol * ((1 + max ‖c.free‖ ‖c.side‖ : ℝ) : Extended)
  equality : ∀ i, qp.joined i = true →
    magnitude ((qp.valueAt (Vec.reals qp.variableCount sol.x) i : Extended) - qp.upperAt i) <
      opt.feasTol *
        ((1 + max ‖Vec.reals qp.variableCount sol.x‖ ‖c.slack‖ : ℝ) : Extended)
  upper : ∀ i, qp.present (i, true) = true →
    (qp.valueAt (Vec.reals qp.variableCount sol.x) i : Extended) - qp.upperAt i <
      opt.feasTol *
        ((1 + max ‖Vec.reals qp.variableCount sol.x‖ ‖c.slack‖ : ℝ) : Extended)
  lower : ∀ i, qp.present (i, false) = true →
    qp.lowerAt i - (qp.valueAt (Vec.reals qp.variableCount sol.x) i : Extended) <
      opt.feasTol *
        ((1 + max ‖Vec.reals qp.variableCount sol.x‖ ‖c.slack‖ : ℝ) : Extended)
  complementary :
    ((∑ a, c.slack a * c.side a : ℝ) : Extended) <
      opt.compTol * ((1 + ‖Vec.reals qp.variableCount sol.x‖ : ℝ) : Extended)

section Answer

variable {opt : Options Extended} {task : Task Extended} {it : Iterate Extended}

/-- The multipliers and slacks of an iterate, by pairs. -/
theorem Task.Interior.exists_gathers (hi : task.Interior it)
    (hs : Splits task.sides task.qp) :
    ∃ c : Multipliers task.qp, c.Gathers it.lam it.z it.mu ∧
      ∀ a, task.qp.present a = true → 0 < c.side a ∧ 0 < c.slack a := by
  have hlen : it.lam.length = task.qp.equalityPairs.length := by
    rw [hi.length_lam, hs.equalities, List.length_map]
  have hlenz : it.z.length = task.qp.inequalityBounds.length := by
    rw [hi.length_z, hs.inequalities, List.length_map]
  have hlenmu : it.mu.length = task.qp.inequalityBounds.length := by
    rw [hi.length_mu, hs.inequalities, List.length_map]
  obtain ⟨c, hc⟩ :=
    InteriorPoint.exists_gathers hi.lam hi.z.isReal hi.mu.isReal hlen hlenz hlenmu
  refine ⟨c, hc, fun a ha => ?_⟩
  have hmem : a ∈ task.qp.inequalityBounds := task.qp.mem_inequalityBounds.mpr ha
  have hmu := hi.mu
  have hz := hi.z
  rw [hc.mu] at hmu
  rw [hc.z] at hz
  obtain ⟨m, hm, hmeq⟩ := hmu _ (List.mem_map_of_mem hmem)
  obtain ⟨s, hs, hseq⟩ := hz _ (List.mem_map_of_mem hmem)
  rw [real_inj.mp hmeq, real_inj.mp hseq]
  exact ⟨hm, hs⟩

/-- The bounds that a satisfied iterate meets, by pairs. -/
theorem Task.Interior.bounds (hi : task.Interior it) (h : task.Exact)
    {c : Multipliers task.qp} (hc : c.Gathers it.lam it.z it.mu)
    (hsat : it.residuals.satisfied opt = true) :
    ((∀ r ∈ it.g, magnitude r < opt.feasTol *
        ((1 + max ‖Vec.reals task.qp.variableCount it.x‖ ‖c.slack‖ : ℝ) : Extended)) ∧
      ∀ r ∈ it.h, r < opt.feasTol *
        ((1 + max ‖Vec.reals task.qp.variableCount it.x‖ ‖c.slack‖ : ℝ) : Extended)) ∧
    ((‖Vec.reals task.qp.variableCount (task.lagrangianGradient it.x it.lam it.mu)‖ : ℝ) :
      Extended) < opt.gradTol * ((1 + max ‖c.free‖ ‖c.side‖ : ℝ) : Extended) ∧
    ((∑ a, c.slack a * c.side a : ℝ) : Extended) <
      opt.compTol * ((1 + ‖Vec.reals task.qp.variableCount it.x‖ : ℝ) : Extended) := by
  rcases hi.residuals_eq with ⟨cost, hresiduals⟩
  rw [hresiduals] at hsat
  simp only [Residuals.satisfied, Bool.and_eq_true, decide_eq_true_eq] at hsat
  rcases hsat with ⟨⟨⟨hfeas, hgrad⟩, hcomp⟩, -⟩
  have hgradient : Vec.normInf (task.lagrangianGradient it.x it.lam it.mu) =
      ((‖Vec.reals task.qp.variableCount (task.lagrangianGradient it.x it.lam it.mu)‖ : ℝ) :
        Extended) :=
    Vec.normInf_eq (Task.length_lagrangianGradient h.height _ _ _)
      (h.lagrangianGradient_eq hi.x hi.lam hi.mu.isReal).1
  simp only [Task.residuals, Vec.normInf_eq hi.length_x hi.x, hc.normInf_lam, hc.normInf_mu,
    hc.normInf_z, hgradient, sum_slack_mul hc, maxNum_real, one_eq, real_add_real]
    at hfeas hgrad hcomp
  have hg := hi.posed.isReal_g h
  have hh := hi.posed.isReal_h h
  refine ⟨forall_lt_of_feas hg hh (by positivity) hfeas, ?_, ?_⟩
  · exact lt_mul_of_div_lt (by positivity) hgrad
  · exact lt_mul_of_div_lt (by positivity) hcomp

theorem Task.Interior.residual_mem_g (hi : task.Interior it) (hs : Splits task.sides task.qp)
    {i : task.qp.Pair} (hj : task.qp.joined i = true) :
    task.qp.upperSide i ∈ task.sides.equalities ∧
      (task.qp.upperSide i).residual it.x ∈ it.g := by
  have hmem : task.qp.upperSide i ∈ task.sides.equalities := by
    rw [hs.equalities]
    exact List.mem_map_of_mem (task.qp.mem_equalityPairs.mpr hj)
  refine ⟨hmem, ?_⟩
  rw [hi.g_eq]
  exact List.mem_map_of_mem hmem

theorem Task.Interior.residual_mem_h (hi : task.Interior it) (hs : Splits task.sides task.qp)
    {a : task.qp.Pair × Bool} (hp : task.qp.present a = true) :
    task.qp.sideAt a ∈ task.sides.inequalities ∧ (task.qp.sideAt a).residual it.x ∈ it.h := by
  have hmem : task.qp.sideAt a ∈ task.sides.inequalities := by
    rw [hs.inequalities]
    exact List.mem_map_of_mem (task.qp.mem_inequalityBounds.mpr hp)
  refine ⟨hmem, ?_⟩
  rw [hi.h_eq]
  exact List.mem_map_of_mem hmem

/-- A satisfied iterate in the interior is certified. -/
theorem Task.Interior.certificate (hi : task.Interior it) (h : task.Exact)
    (hs : Splits task.sides task.qp) (hsat : it.residuals.satisfied opt = true) :
    ∃ c, Certificate opt task.qp (task.solution it) c := by
  obtain ⟨c, hc, hpositive⟩ := hi.exists_gathers hs
  obtain ⟨⟨hlamX, hlamXeq⟩, hlamA, hlamAeq⟩ := reals_multipliers hs hc
  obtain ⟨hlenX, hlenA⟩ :=
    length_multipliers task.sides task.qp.variableCount task.qp.rowCount it.lam it.mu
  obtain ⟨⟨hequal, hunequal⟩, hgrad, hcomp⟩ := hi.bounds h hc hsat
  exact ⟨c, {
    x := hi.x
    lamX := hlamX
    lamA := hlamA
    length_x := hi.length_x
    length_lamX := hlenX
    length_lamA := hlenA
    positive := hpositive
    absent := fun a ha => ⟨hc.side_eq_zero a ha, hc.slack_eq_zero a ha⟩
    not_joined := hc.free_eq_zero
    lamX_eq := hlamXeq
    lamA_eq := hlamAeq
    stationary := by
      rw [reals_lagrangianGradient h hs hc hi.x] at hgrad
      rw [Task.solution, hlamXeq, hlamAeq]
      exact hgrad
    equality := by
      intro i hj
      obtain ⟨hside, hmem⟩ := hi.residual_mem_g hs hj
      have hbound := hequal _ hmem
      rwa [QuadraticProgram.residual_upperSide (h.equalities _ hside) hi.x] at hbound
    upper := by
      intro i hp
      obtain ⟨hside, hmem⟩ := hi.residual_mem_h hs hp
      rw [task.qp.sideAt_true] at hside hmem
      have hbound := hunequal _ hmem
      rwa [QuadraticProgram.residual_upperSide (h.inequalities _ hside) hi.x] at hbound
    lower := by
      intro i hp
      obtain ⟨hside, hmem⟩ := hi.residual_mem_h hs hp
      rw [task.qp.sideAt_false] at hside hmem
      have hbound := hunequal _ hmem
      rwa [QuadraticProgram.residual_lowerSide (h.inequalities _ hside)
        (QuadraticProgram.isReal_of_present hp) hi.x] at hbound
    complementary := hcomp }⟩

end Answer

/-! ## Programs that pass the checks -/

section Checked

variable {opt : Options Extended} {x0 : List Extended}

/-- A program of real numbers that passes the checks is a task of real numbers, since an
infinite bound makes no side. -/
theorem exact_of_check {task : Task Extended} (hqp : qp.Exact)
    (h : Task.check opt qp x0 = .ok task) : task.Exact ∧ Splits task.sides task.qp := by
  obtain ⟨hdims, rfl, hsides, hread⟩ := check_eq_ok h
  obtain ⟨-, -, -, hheight, hcols⟩ := checkDimensions_eq_ok hdims
  obtain ⟨heq, hineq, hwithin⟩ := task.qp.ofProgram?_eq_some hsides
  refine ⟨{
    hessian := hqp.hessian
    readable := hread
    height := hheight
    cols := hcols
    gradient := hqp.gradient
    equalities := fun s hs => ?_
    inequalities := fun s hs => ?_ }, heq, hineq⟩
  · have hcol := hwithin s (List.mem_append_left _ hs)
    rw [heq] at hs
    rcases List.mem_map.mp hs with ⟨i, hi, rfl⟩
    have hj := task.qp.mem_equalityPairs.mp hi
    exact QuadraticProgram.realSide_upper hqp.constraints hcol
      (QuadraticProgram.isReal_of_joined hj)
  · have hcol := hwithin s (List.mem_append_right _ hs)
    rw [hineq] at hs
    rcases List.mem_map.mp hs with ⟨⟨i, b⟩, ha, rfl⟩
    have hp := task.qp.mem_inequalityBounds.mp ha
    exact QuadraticProgram.realSide_sideAt hqp.constraints hcol hp

end Checked

/-- Every answer is an approximate optimum of the program with two-sided bounds. -/
theorem certificate_of_solve {opt : Options Extended} {solver : LinearSolver Extended}
    {x0 : List Extended} {sol : QuadraticSolution Extended} (hqp : qp.Exact)
    (hopt : opt.Exact solver) (hx0 : Vec.IsReal x0)
    (h : (solve opt solver qp x0).outcome = .ok sol) :
    ∃ c : Multipliers qp, Certificate opt qp sol c := by
  unfold solve at h
  rcases Journaled.outcome_bind_eq_ok.mp h with ⟨task, hcheck, h⟩
  rcases Journaled.outcome_bind_eq_ok.mp h with ⟨⟨made, it⟩, hrun, h⟩
  rcases Journaled.outcome_bind_eq_ok.mp h with ⟨_, _, h⟩
  obtain rfl := Except.ok.inj h
  obtain ⟨hdims, rfl, -, -⟩ := check_eq_ok hcheck
  obtain ⟨hxi1, hxi0, hlen, -, -⟩ := checkDimensions_eq_ok hdims
  obtain ⟨hexact, hsplits⟩ := exact_of_check hqp hcheck
  rw [hopt.xi.eq, ofScientific_eq, real_lt_real, not_lt] at hxi0
  rw [hopt.xi.eq, one_eq, real_le_real, not_le] at hxi1
  have hpos : 0 < opt.xi.toReal := lt_of_lt_of_le (by norm_num) hxi0
  obtain ⟨hi, hsat⟩ := hexact.interior_iterate hopt hpos hxi1
    (hexact.interior_start hopt hx0 hlen) hrun
  exact hi.certificate hexact hsplits hsat

section HalfLine

/-- The least number that is not negative. -/
noncomputable def halfLine : QuadraticProgram Extended where
  h := .ofRows 1 [[]]
  g := [1]
  lbx := [0]
  ubx := [posInf]
  a := .empty 0 1
  lba := []
  uba := []

/-- Options that take products of slacks and multipliers below two for complementary. -/
noncomputable def loose : Options Extended :=
  { (Options.default : Options Extended) with compTol := real 2 }

def noSolver : LinearSolver Extended :=
  ⟨fun _ _ _ => .error (.error ""), fun _ _ _ _ h => nomatch h⟩

theorem halfLine_exact : halfLine.Exact where
  hessian := fun _ h => nomatch h
  gradient := by simp [halfLine, Vec.IsReal]
  constraints := fun _ h => nomatch h

theorem loose_exact : loose.Exact noSolver where
  xi := isReal_real _
  sigma := isReal_real _
  z0 := ⟨1, one_pos, rfl⟩
  steps := .inl (isReal_real _)

/-- The only side of the half line. -/
noncomputable def halfLineSide : Side Extended :=
  .lower [(0, 1)] 0 (.bound 0)

theorem halfLine_sides : Sides.ofProgram? halfLine = some ⟨[], [halfLineSide]⟩ := by
  have hlower : isFinite (0 : Extended) = true := isFinite_iff.mpr (isReal_real 0)
  have hbound : Sides.ofBounds 0 posInf [(0, (1 : Extended))] (.bound 0) =
      ⟨[], [halfLineSide]⟩ := by
    simp only [Sides.ofBounds, hlower, isFinite_posInf]
    rfl
  show (if (Sides.concat [Sides.ofBounds 0 posInf [(0, (1 : Extended))] (.bound 0)]).within 1 then
    some (Sides.concat [Sides.ofBounds 0 posInf [(0, (1 : Extended))] (.bound 0)]) else none) = _
  rw [hbound]
  rfl

/-- The default options are in range. -/
theorem default_ranges :
    ¬(1 ≤ (Options.default : Options Extended).xi ∨ (Options.default : Options Extended).xi < 0.5) ∧
      ¬(1 < (Options.default : Options Extended).sigma ∨
        (Options.default : Options Extended).sigma ≤ 0) := by
  constructor <;>
    simp only [Options.default, ofScientific_eq, one_eq, zero_eq, real_le_real, real_lt_real] <;>
    norm_num

theorem halfLine_check : Task.check loose halfLine [0] =
    .ok ⟨halfLine, ⟨[], [halfLineSide]⟩⟩ := by
  have hdims : checkDimensions loose halfLine [0] = .ok () := by
    unfold checkDimensions loose
    rw [if_neg default_ranges.1, if_neg default_ranges.2]
    rfl
  unfold Task.check
  rw [hdims, halfLine_sides]
  rfl

/-- The start, where nothing is left to do. -/
theorem halfLine_start : ∃ f, Task.start ⟨halfLine, ⟨[], [halfLineSide]⟩⟩ loose [0] =
    ⟨[0], [], [1], [1], 1, f, [0], [], ⟨0, 0, 1, 0⟩⟩ := by
  have hresidual : halfLineSide.residual [0] = 0 := by
    simp [Side.residual, Side.dot, halfLineSide, Side.lower, Vec.sum, Vec.coord]
  have hslack : startSlack loose.z0 0 = 1 := by
    simp [startSlack, loose, Options.default]
  have hmultiplier : startMultiplier loose.z0 1 1 = 1 := by
    simp [startMultiplier, loose, Options.default, real_div_real]
  have hgradient : Task.lagrangianGradient ⟨halfLine, ⟨[], [halfLineSide]⟩⟩ [0] [] [1] = [0] := by
    show [(0 + 1 + -1 * 1 : Extended)] = [0]
    simp
  have hresiduals : Task.residuals ⟨halfLine, ⟨[], [halfLineSide]⟩⟩ [0] [] [1] [1] [0] [] 0 =
      ⟨0, 0, 1, 0⟩ := by
    unfold Task.residuals
    rw [hgradient]
    simp [Vec.normInf, Vec.sum, real_div_real]
  refine ⟨halfLine.objective [0], ?_⟩
  rw [← hresiduals]
  simp only [Task.start, Task.evaluate, List.map_cons, List.map_nil, hresidual, hslack,
    hmultiplier]
  rfl

theorem halfLine_solve : (solve loose noSolver halfLine [0]).outcome = .ok ⟨[0], [-1], []⟩ := by
  rcases halfLine_start with ⟨f, hstart⟩
  have hsat : (Task.start ⟨halfLine, ⟨[], [halfLineSide]⟩⟩ loose [0]).residuals.satisfied loose =
      true := by
    rw [hstart]
    simp [Residuals.satisfied, loose, Options.default]
    norm_num
  have hiterate : Task.iterate ⟨halfLine, ⟨[], [halfLineSide]⟩⟩ loose noSolver
      loose.maxIterations 0 (Task.start ⟨halfLine, ⟨[], [halfLineSide]⟩⟩ loose [0]) =
      pure (0, Task.start ⟨halfLine, ⟨[], [halfLineSide]⟩⟩ loose [0]) := by
    unfold Task.iterate
    rw [if_pos hsat]
  unfold solve
  rw [halfLine_check]
  refine Journaled.outcome_bind_eq_ok.mpr ⟨_, rfl, ?_⟩
  rw [hiterate, hstart]
  show Except.ok (⟨[0], [0 + -1 * 1], []⟩ : QuadraticSolution Extended) = _
  simp

/-- The answer on the half line is certified. -/
theorem halfLine_certified :
    (solve loose noSolver halfLine [0]).outcome = .ok ⟨[0], [-1], []⟩ ∧
      ∃ c : Multipliers halfLine, Certificate loose halfLine ⟨[0], [-1], []⟩ c := by
  refine ⟨halfLine_solve, ?_⟩
  exact certificate_of_solve halfLine_exact loose_exact (by simp [Vec.IsReal]) halfLine_solve

end HalfLine

end InteriorPoint

end SeqQuad
