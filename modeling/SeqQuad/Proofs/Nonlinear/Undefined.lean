import SeqQuad.Proofs.Exact.Undefined
import SeqQuad.Proofs.Nonlinear.Coherence
import SeqQuad.Proofs.Quadratic.Certificate
import SeqQuad.Proofs.Quadratic.Run

/-!
# What the tests of convergence do not see

The test of the interior point method and the two tests of a nonlinear run look at the largest of
many components, and a component that is not a number never is the largest. So they hold just
when every component that is a number is small: an undefined derivative or constraint value does
not keep a run from converging.
-/

namespace SeqQuad

open Extended Scalar

/-! ## The interior point method -/

namespace InteriorPoint

variable {opt : Options Extended} {solver : LinearSolver Extended}
  {qp : QuadraticProgram Extended} {x0 : List Extended} {task : Task Extended}
  {it : Iterate Extended}

/-- All components of the gradient of the Lagrangian that are numbers are small, relative to the
multipliers, and so are the other residuals. -/
structure Task.Tolerated (task : Task Extended) (opt : Options Extended)
    (it : Iterate Extended) : Prop where
  feas : it.residuals.feas < opt.feasTol
  tolerance : 0 < opt.gradTol
  gradient : ∀ a ∈ task.lagrangianGradient it.x it.lam it.mu,
    a = nan ∨ magnitude a / (1 + maxNum (Vec.normInf it.lam) (Vec.normInf it.mu)) < opt.gradTol
  comp : it.residuals.comp < opt.compTol
  cost : it.residuals.cost < opt.costTol

theorem Task.Evaluated.satisfied_iff (h : task.Evaluated it) :
    it.residuals.satisfied opt = true ↔ task.Tolerated opt it := by
  have hscale : 0 ≤ maxNum (Vec.normInf it.lam) (Vec.normInf it.mu) := by
    rcases maxNum_eq_or (Vec.normInf it.lam) (Vec.normInf it.mu) with h | h
    · exact h.symm ▸ Vec.normInf_nonneg it.lam
    · exact h.symm ▸ Vec.normInf_nonneg it.mu
  have hgrad : it.residuals.grad = Vec.normInf (task.lagrangianGradient it.x it.lam it.mu) /
      (1 + maxNum (Vec.normInf it.lam) (Vec.normInf it.mu)) := by
    obtain ⟨cost, hcost⟩ := h
    rw [hcost]
    rfl
  simp only [Residuals.satisfied, Bool.and_eq_true, decide_eq_true_iff, hgrad,
    Vec.normInf_div_lt_iff hscale]
  constructor
  · rintro ⟨⟨⟨hfeas, htol, hall⟩, hcomp⟩, hcost⟩
    exact ⟨hfeas, htol, hall, hcomp, hcost⟩
  · rintro ⟨hfeas, htol, hall, hcomp, hcost⟩
    exact ⟨⟨⟨hfeas, htol, hall⟩, hcomp⟩, hcost⟩

theorem solve_eq_ok_iff_tolerated {sol : QuadraticSolution Extended} :
    (solve opt solver qp x0).outcome = .ok sol ↔
      ∃ task, Task.check opt qp x0 = .ok task ∧
        ∃ it ∈ visited (task.start opt x0) (progresses (solve opt solver qp x0).journal),
          task.Tolerated opt it ∧ sol = task.solution it := by
  rw [solve_eq_ok_iff]
  refine exists_congr fun task => and_congr_right fun hcheck => exists_congr fun it =>
    and_congr_right fun hit => and_congr_left' ?_
  rw [progresses_solve hcheck] at hit
  have hstart : task.Evaluated (task.start opt x0) := ⟨0, rfl⟩
  exact (Task.evaluated_of_mem_visited hstart it hit).satisfied_iff

section Drift

/-- A linear objective without a slope, on the whole line. -/
noncomputable def drift : QuadraticProgram Extended :=
  { halfLine with g := [nan], lbx := [negInf] }

theorem drift_check : Task.check loose drift [0] = .ok ⟨drift, ⟨[], []⟩⟩ := by
  -- the dimensions are those of the half line
  have hdims : checkDimensions loose drift [0] = .ok () := (check_eq_ok halfLine_check).1
  have hbound : Sides.ofBounds negInf posInf [(0, (1 : Extended))] (.bound 0) = ⟨[], []⟩ := by
    simp only [Sides.ofBounds, isFinite_negInf, isFinite_posInf]
    rfl
  have hsides : Sides.ofProgram? drift = some ⟨[], []⟩ := by
    show (if (Sides.concat [Sides.ofBounds negInf posInf [(0, (1 : Extended))] (.bound 0)]).within
        1 then
      some (Sides.concat [Sides.ofBounds negInf posInf [(0, (1 : Extended))] (.bound 0)]) else
      none) = _
    rw [hbound]
    rfl
  unfold Task.check
  rw [hdims, hsides]
  rfl

/-- The start is within the tolerances although the gradient is not a number. -/
theorem drift_tolerated : Task.Tolerated ⟨drift, ⟨[], []⟩⟩ loose
    (Task.start ⟨drift, ⟨[], []⟩⟩ loose [0]) where
  feas := by
    simp [Task.start, Task.evaluate, Task.residuals, loose, Options.default, Vec.normInf,
      real_div_real]
    norm_num
  tolerance := by
    simp [loose, Options.default]
    norm_num
  gradient := by
    have hgradient : Task.lagrangianGradient ⟨drift, ⟨[], []⟩⟩ [0] [] [] = [nan] := rfl
    show ∀ a ∈ Task.lagrangianGradient ⟨drift, ⟨[], []⟩⟩ [0] [] [], _
    rw [hgradient]
    simp
  comp := by
    simp [Task.start, Task.evaluate, Task.residuals, loose, Options.default, Vec.sum, Vec.normInf,
      real_div_real]
  cost := by
    simp [Task.start, Task.evaluate, Task.residuals, loose, Options.default]
    norm_num

end Drift

end InteriorPoint

/-! ## Nonlinear runs -/

namespace Nonlinear

variable {opt : Options Extended} {backend : Backend Extended}
  {callback : Option (Snapshot Extended → Bool)} {p : Problem Extended}

/-- All violations and all components of the gradient of the Lagrangian that are numbers are
small. -/
structure Task.Tolerated (t : Task Extended) (s : Iterate Extended) : Prop where
  tolerances : 0 < t.options.tolPrimal ∧ 0 < t.options.tolDual
  violations : ∀ b ∈ violations s.x t.problem.xmin t.problem.xmax ++
    violations s.g t.problem.gmin t.problem.gmax, b = nan ∨ b < t.options.tolPrimal
  gradient : ∀ a ∈ s.gradLagrangian, a = nan ∨ magnitude a < t.options.tolDual

theorem Task.verdict_eq_converged_iff_tolerated {t : Task Extended} {s : Iterate Extended} :
    t.verdict s = some .converged ↔ t.stopRequested s = false ∧ t.Tolerated s := by
  rw [verdict_eq_converged_iff, infeasibility, infeasibilityAt,
    primalInfeasibility_lt_iff_of_defined, Vec.normInf_lt_iff]
  refine and_congr_right' ⟨?_, ?_⟩
  · rintro ⟨⟨hprimal, hviolations⟩, hdual, hgradient⟩
    exact ⟨⟨hprimal, hdual⟩, hviolations, hgradient⟩
  · rintro ⟨⟨hprimal, hdual⟩, hviolations, hgradient⟩
    exact ⟨⟨hprimal, hviolations⟩, hdual, hgradient⟩

/-- A run converges just when it comes to a head within the tolerances where the callback lets
it. -/
theorem solve_converged_iff {sol : Solution Extended} :
    (solve opt backend callback p).outcome = .ok sol ∧ sol.status = .converged ↔
      ∃ checked, p.check opt = .ok checked ∧ ∃ s ∈ runHeads opt backend callback p,
        (taskOf opt backend callback p checked).stopRequested s = false ∧
        (taskOf opt backend callback p checked).Current s ∧
        (taskOf opt backend callback p checked).Tolerated s ∧
        sol = ⟨s.x, s.f, s.g, s.multipliers, .converged, s.iter, s.searchFailures⟩ := by
  constructor
  · rintro ⟨hok, hconv⟩
    obtain ⟨checked, hc, s, hs, hsol, hverdict⟩ := exists_head_of_solve hok
    rw [hconv] at hsol hverdict
    have hv := hverdict.resolve_right nofun
    obtain ⟨hstop, htol⟩ := Task.verdict_eq_converged_iff_tolerated.mp hv
    obtain ⟨checked', hpass, hcurrent⟩ := current_of_mem_runHeads s hs
    obtain rfl := Except.ok.inj ((Problem.check_of_passes hpass).symm.trans hc)
    exact ⟨checked', hc, s, hs, hstop, hcurrent, htol, hsol⟩
  · rintro ⟨checked, hc, s, hs, hstop, -, htol, rfl⟩
    have hv := Task.verdict_eq_converged_iff_tolerated.mpr ⟨hstop, htol⟩
    exact ⟨solve_of_mem_runHeads hc hs hv, rfl⟩

/-- A nonlinear run converges, and the interior point method answers, just when one of their
iterates is within the tolerances in all components that are numbers. -/
theorem answers_iff_tolerated (iopt : InteriorPoint.Options Extended)
    (solver : LinearSolver Extended) (qp : QuadraticProgram Extended) (x0 : List Extended) :
    (∀ sol, (solve opt backend callback p).outcome = .ok sol ∧ sol.status = .converged ↔
      ∃ checked, p.check opt = .ok checked ∧ ∃ s ∈ runHeads opt backend callback p,
        (taskOf opt backend callback p checked).stopRequested s = false ∧
        (taskOf opt backend callback p checked).Current s ∧
        (taskOf opt backend callback p checked).Tolerated s ∧
        sol = ⟨s.x, s.f, s.g, s.multipliers, .converged, s.iter, s.searchFailures⟩) ∧
    ∀ sol, (InteriorPoint.solve iopt solver qp x0).outcome = .ok sol ↔
      ∃ task, InteriorPoint.Task.check iopt qp x0 = .ok task ∧
        ∃ it ∈ InteriorPoint.visited (task.start iopt x0)
            (InteriorPoint.progresses (InteriorPoint.solve iopt solver qp x0).journal),
          task.Tolerated iopt it ∧ sol = task.solution it :=
  ⟨fun _ => solve_converged_iff, fun _ => InteriorPoint.solve_eq_ok_iff_tolerated⟩

/-! ## A run outside the domain of its functions -/

section Root

/-- Minimize the square root over the half line where it is at least zero, from a point where it
is not defined. -/
noncomputable def root : Problem Extended where
  objective := ⟨fun _ x => .ok (sqrt (Vec.coord x 0)),
    fun _ x => .ok (sqrt (Vec.coord x 0), [0.5 / sqrt (Vec.coord x 0)])⟩
  constraints := some ⟨fun _ x => .ok [sqrt (Vec.coord x 0)],
    fun _ x => .ok ([sqrt (Vec.coord x 0)], .ofRows 1 [[(0, 0.5 / sqrt (Vec.coord x 0))]])⟩
  hessian := some fun _ _ _ _ => .ok (.ofRows 1 [[]])
  x0 := [-1]
  xmin := [negInf]
  xmax := [posInf]
  gmin := [0]
  gmax := [posInf]
  multipliers := none

theorem root_check : root.check .default =
    .ok ⟨.exact fun _ _ _ _ => .ok (.ofRows 1 [[]]), ⟨[0], [0]⟩⟩ :=
  Problem.check_of_passes {
    options := validate_default
    pointBounds := by simp [Problem.checkBounds, Problem.variableCount, root]
    valueBounds := by simp [Problem.checkBounds, Problem.constraintCount, root]
    unconstrained := nofun
    curvature := rfl
    multipliers := rfl }

/-- The only head of the run, where the root has the value `v` and the derivative `d`. -/
noncomputable def rootHead (v d : Extended) (hess : SparseMatrix Extended) : Iterate Extended where
  iter := 0
  x := [-1]
  multipliers := ⟨[0], [0]⟩
  f := v
  gradF := [d]
  g := [v]
  jacobian := .ofRows 1 [[(0, d)]]
  gradLagrangian := lagrangianGradient [d] (.ofRows 1 [[(0, d)]]) ⟨[0], [0]⟩
  hessian := hess
  regularization := 0
  step := [0]
  sigma := 0
  merits := .new 4
  searchTrials := 0
  searchSuccess := true
  searchFailures := 0

theorem root_start : ((taskOf .default restingBackend none root
      ⟨.exact fun _ _ _ _ => .ok (.ofRows 1 [[]]), ⟨[0], [0]⟩⟩).start ⟨[0], [0]⟩).outcome =
    .ok (rootHead nan nan (.ofTriplets 1 1 [⟨0, 0, 0⟩])) := by
  have hroot : sqrt (-1 : Extended) = nan := if_pos (by norm_num)
  have hderivative : 0.5 / sqrt (-1 : Extended) = nan := by
    rw [hroot]
    rfl
  have hstart : ((taskOf .default restingBackend none root
      ⟨.exact fun _ _ _ _ => .ok (.ofRows 1 [[]]), ⟨[0], [0]⟩⟩).start ⟨[0], [0]⟩).outcome =
    .ok (rootHead (sqrt (-1)) (0.5 / sqrt (-1)) (.ofTriplets 1 1 [⟨0, 0, 0⟩])) := rfl
  rwa [hderivative, hroot] at hstart

theorem root_tolerated (hess : SparseMatrix Extended) (checked : Checked Extended) :
    (taskOf .default restingBackend none root checked).Tolerated (rootHead nan nan hess) where
  tolerances := by
    simp only [taskOf, Options.default, zero_eq, ofScientific_eq, real_lt_real]
    norm_num
  violations := by
    have hpoint : violations (α := Extended) [-1] [negInf] [posInf] = [negInf] := by
      simp [violations, maxNum, isNaN, sub_def, neg_def, add_def, Extended.neg, Extended.add,
        lt_iff]
    have hvalue : violations (α := Extended) [nan] [0] [posInf] = [nan] :=
      congrArg (fun b => [b]) (violation_nan 0 posInf)
    show ∀ b ∈ violations [-1] [negInf] [posInf] ++ violations [nan] [0] [posInf], _
    rw [hpoint, hvalue]
    simp [taskOf, Options.default, lt_iff]
  gradient := by
    have hgradient : (rootHead nan nan hess).gradLagrangian = [nan] := rfl
    simp [hgradient]

/-- The run converges at once, where nothing is defined, and the interior point method answers
where its linear objective is not. -/
theorem undefined_answers :
    (solve .default restingBackend none root).outcome =
      .ok ⟨[-1], nan, [nan], ⟨[0], [0]⟩, .converged, 0, 0⟩ ∧
    (∀ m, root.objective.gradient m [-1] = .ok (nan, [nan])) ∧
    (InteriorPoint.solve InteriorPoint.loose InteriorPoint.noSolver InteriorPoint.drift
      [0]).outcome = .ok ⟨[0], [0], []⟩ := by
  have hcurrent := Task.current_of_started (Task.started_of_start root_start)
  have htolerated := root_tolerated (.ofTriplets 1 1 [⟨0, 0, 0⟩])
    ⟨.exact fun _ _ _ _ => .ok (.ofRows 1 [[]]), ⟨[0], [0]⟩⟩
  have hmem := mem_runHeads_of_start root_check root_start
  obtain ⟨hrun, hpoint⟩ := answers_iff_tolerated InteriorPoint.loose InteriorPoint.noSolver
    InteriorPoint.drift [0]
  obtain ⟨hok, -⟩ := (hrun _).mpr
    ⟨_, root_check, _, hmem, rfl, hcurrent, htolerated, rfl⟩
  refine ⟨hok, fun m => (Task.gradientAt_eq_ok.mp hcurrent.gradient).1, (hpoint _).mpr ?_⟩
  exact ⟨_, InteriorPoint.drift_check, _, List.mem_cons_self, InteriorPoint.drift_tolerated, rfl⟩

end Root

end Nonlinear

end SeqQuad
