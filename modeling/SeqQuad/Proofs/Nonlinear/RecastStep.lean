import SeqQuad.Proofs.Alike
import SeqQuad.Proofs.Nonlinear.Calls
import SeqQuad.Proofs.Nonlinear.Recast

/-!
# Iterations on a bound and on a constraint

A task and the same task with the bounds on a coordinate as its last constraint evaluate, stop and
iterate alike: whatever one of them holds at a head or gets from an evaluation, the other holds or
gets with the coordinate and its multiplier moved to the constraint.
-/

namespace SeqQuad.Nonlinear

open Journaled SparseMatrix Extended

/-! ## One task and the other -/

/-- What an error of a run is about. -/
inductive ErrorKind where
  | problem
  | evaluation (what : Evaluator)
  | subproblem
  deriving DecidableEq

def SolveError.kind {α : Type} : SolveError α → ErrorKind
  | .problem _ => .problem
  | .evaluation what _ => .evaluation what
  | .backend _ | .answerShape .. => .subproblem

/-- The same source, for one more constraint. -/
def Curvature.recast : Curvature Extended → Curvature Extended
  | .exact hess => .exact (LagrangianHessian.recast hess)
  | .limitedMemory => .limitedMemory

/-- The same task with the bounds on the coordinate `j` as its last constraint, and collaborators
of its own. -/
noncomputable def Task.recast (j : ℕ) (backend : Backend Extended)
    (callback : Option (Snapshot Extended → Bool)) (t : Task Extended) : Task Extended :=
  ⟨t.problem.recast j, t.curvature.recast, t.options, backend, callback⟩

/-- A task whose bounds have the right lengths, with a coordinate `j`. -/
structure Task.Recastable (j : ℕ) (t : Task Extended) : Prop where
  lt : j < t.problem.variableCount
  xmin : t.problem.xmin.length = t.problem.variableCount
  xmax : t.problem.xmax.length = t.problem.variableCount
  gmax : t.problem.gmax.length = t.problem.constraintCount
  unconstrained : t.problem.constraints = none → t.problem.constraintCount = 0
  options : t.options.Valid

/-- An iterate of the dimensions of its task, with a real coordinate `j`. -/
structure Task.Fits (j : ℕ) (t : Task Extended) (s : Iterate Extended) : Prop where
  x : s.x.length = t.problem.variableCount
  real : (Vec.coord s.x j).IsReal
  g : s.g.length = t.problem.constraintCount
  readable : s.jacobian.Readable
  height : s.jacobian.height = t.problem.constraintCount
  cols : s.jacobian.cols = t.problem.variableCount
  lamX : s.multipliers.x.length = t.problem.variableCount
  lamG : s.multipliers.g.length = t.problem.constraintCount

namespace Task

variable {j : ℕ} {t : Task Extended} {backend : Backend Extended}
  {callback : Option (Snapshot Extended → Bool)} {m : Moment} {x g : List Extended}
  {s s' : Iterate Extended} {sol : QuadraticSolution Extended}

theorem constraintCount_recast :
    (t.recast j backend callback).problem.constraintCount = t.problem.constraintCount + 1 :=
  Problem.constraintCount_recast j t.problem

theorem variableCount_recast :
    (t.recast j backend callback).problem.variableCount = t.problem.variableCount :=
  rfl

theorem constrained_recast (h : (t.recast j backend callback).problem.constraints = none) :
    (t.recast j backend callback).problem.constraintCount = 0 :=
  absurd h (Option.some_ne_none _)

theorem infeasibilityAt_recast (ht : t.Recastable j) (hx : x.length = t.problem.variableCount)
    (hg : g.length = t.problem.constraintCount) (hreal : (Vec.coord x j).IsReal) :
    (t.recast j backend callback).infeasibilityAt x (g ++ [Vec.coord x j]) =
      t.infeasibilityAt x g :=
  primalInfeasibility_recast ht.lt hx ht.xmin ht.xmax hg rfl ht.gmax hreal

/-! ## Evaluations -/

theorem alike_require {β β' : Type} {F : β → β'} {what : Evaluator} {answer : Evaluated β}
    {answer' : Evaluated β'} (h : Alike (fun _ => ()) F answer answer') :
    Alike SolveError.kind F (require what x answer).outcome (require what x answer').outcome := by
  cases h with
  | ok b => exact .ok b
  | error => exact .error rfl
  | fault fault => exact .fault fault

/-- The constraints of a task, if need be on no values. -/
noncomputable def functions (t : Task Extended) : Constraints Extended :=
  t.problem.constraints.getD (noConstraints t.problem.variableCount)

/-- No constraints are constraints on no values. -/
theorem outcome_jacobianAt (hnone : t.problem.constraints = none → t.problem.constraintCount = 0) :
    (t.jacobianAt m x).outcome = (do
      let r ← require .jacobian x (t.functions.jacobian m x)
      if r.1.length ≠ t.problem.constraintCount ∨ r.2.height ≠ t.problem.constraintCount ∨
          r.2.cols ≠ t.problem.variableCount then
        .fail (.error (.problem (.jacobianShape r.2.height r.2.cols r.1.length
          t.problem.constraintCount t.problem.variableCount)))
      else return r : Run Extended _).outcome := by
  unfold jacobianAt functions
  cases hc : t.problem.constraints with
  | none =>
      have hempty : (require .jacobian x (((none : Option (Constraints Extended)).getD
          (noConstraints t.problem.variableCount)).jacobian m x)).outcome =
            .ok ([], .empty 0 t.problem.variableCount) := rfl
      rw [bind_of_ok _ hempty]
      simp [hnone hc, SparseMatrix.empty]
  | some c =>
      refine outcome_bind_congr rfl fun r _ => ?_
      dsimp only
      split <;> rfl

theorem outcome_constraintsAt
    (hnone : t.problem.constraints = none → t.problem.constraintCount = 0) :
    (t.constraintsAt m x).outcome = (do
      let g ← .ofExcept (t.functions.values m x)
      if g.length ≠ t.problem.constraintCount then
        .fail (.error (.valueCount g.length t.problem.constraintCount))
      else return g : Journaled (Event Extended) (Failure EvaluationError) _).outcome := by
  unfold constraintsAt functions
  cases hc : t.problem.constraints with
  | none =>
      rw [bind_of_ok _ (show _ = Except.ok [] from rfl)]
      simp [hnone hc]
  | some c =>
      dsimp only
      rw [bind_of_ok _ (outcome_note _)]
      refine outcome_bind_congr rfl fun r _ => ?_
      split <;> rfl

theorem jacobianAt_recast (ht : t.Recastable j) :
    Alike SolveError.kind (fun r => (r.1 ++ [Vec.coord x j], r.2.pushUnit j))
      (t.jacobianAt m x).outcome ((t.recast j backend callback).jacobianAt m x).outcome := by
  rw [outcome_jacobianAt ht.unconstrained, outcome_jacobianAt constrained_recast]
  refine Alike.bind (alike_require (alike_map _ _ _)) fun r _ => ?_
  refine alike_guard ?_ ?_ r
  · rw [constraintCount_recast, variableCount_recast]
    simp [height_pushUnit, cols_pushUnit]
  · rfl

theorem constraintsAt_recast (ht : t.Recastable j) :
    Alike (fun _ => ()) (· ++ [Vec.coord x j])
      (t.constraintsAt m x).outcome ((t.recast j backend callback).constraintsAt m x).outcome := by
  rw [outcome_constraintsAt ht.unconstrained, outcome_constraintsAt constrained_recast]
  refine Alike.bind (alike_map _ _ _) fun g _ => ?_
  refine alike_guard ?_ ?_ g
  · rw [constraintCount_recast]
    simp
  · rfl

theorem length_of_constraintsAt (ht : t.Recastable j) (h : (t.constraintsAt m x).outcome = .ok g) :
    g.length = t.problem.constraintCount := by
  rw [outcome_constraintsAt ht.unconstrained, outcome_bind_eq_ok] at h
  obtain ⟨g', -, h⟩ := h
  split at h
  · cases h
  · rename_i hlen
    obtain rfl := Except.ok.inj h
    exact not_not.mp hlen

/-- A point has the same merit. -/
theorem meritAt_recast (ht : t.Recastable j) (hx : x.length = t.problem.variableCount)
    (hreal : (Vec.coord x j).IsReal) (sigma : Extended) :
    Alike (fun _ => ()) id (t.meritAt sigma m x).outcome
      ((t.recast j backend callback).meritAt sigma m x).outcome := by
  have hobjective : (t.recast j backend callback).objectiveAt m x = t.objectiveAt m x := rfl
  unfold meritAt
  rw [hobjective]
  refine Alike.bind (alike_self _ _) fun f _ => ?_
  refine Alike.bind (constraintsAt_recast ht) fun g hg => ?_
  rw [infeasibilityAt_recast ht hx (length_of_constraintsAt ht hg) hreal]
  exact .ok _

theorem gradientAt_recast : (t.recast j backend callback).gradientAt m x = t.gradientAt m x :=
  rfl

theorem hessianAt_recast (hess : LagrangianHessian Extended) (lam : List Extended) (v : Extended) :
    (t.recast j backend callback).hessianAt (LagrangianHessian.recast hess) m x (lam ++ [v]) =
      t.hessianAt hess m x lam := by
  have hanswer : LagrangianHessian.recast hess m x (lam ++ [v]) 1 = hess m x lam 1 := by
    rw [LagrangianHessian.recast, List.dropLast_concat]
  unfold hessianAt
  rw [hanswer]
  rfl

theorem ensure_readable_pushUnit {jac : SparseMatrix Extended} (hj : j < jac.cols) :
    (Failure.ensure (jac.pushUnit j).Readable .index : Except (Failure (SolveError Extended)) Unit) =
      Failure.ensure jac.Readable .index := by
  unfold Failure.ensure
  simp only [readable_pushUnit hj]

/-! ## Heads -/

theorem fits_of_started (ht : t.Recastable j) {lam : Multipliers Extended}
    (hlx : lam.x.length = t.problem.variableCount)
    (hlg : lam.g.length = t.problem.constraintCount) (hreal : (Vec.coord t.problem.x0 j).IsReal)
    (h : t.Started lam s) : t.Fits j s := by
  obtain ⟨hg, hheight, hcols⟩ := h.values.shape ht.unconstrained
  exact {
    x := by rw [h.x]; rfl
    real := by rw [h.x]; exact hreal
    g := hg
    readable := h.readable
    height := hheight
    cols := hcols
    lamX := by rw [h.multipliers, hlx]
    lamG := by rw [h.multipliers, hlg] }

theorem real_coord_along (ht : t.Recastable j) (hs : t.Fits j s)
    (hx : sol.x.length = t.problem.variableCount) (hreal : (Vec.coord sol.x j).IsReal)
    {length : Extended} (hlength : length.IsReal) :
    (Vec.coord (Vec.along s.x sol.x length) j).IsReal := by
  have hold : j < s.x.length := hs.x ▸ ht.lt
  have hnew : j < sol.x.length := hx ▸ ht.lt
  rw [Vec.coord_along _ hold hnew]
  exact isReal_add_iff.mpr ⟨hs.real, isReal_mul_iff.mpr ⟨hlength, hreal⟩⟩

/-- A search from a real coordinate along a real one ends at a real one. -/
theorem real_search_point (ht : t.Recastable j) (hs : t.Fits j s)
    (hx : sol.x.length = t.problem.variableCount) (hreal : (Vec.coord sol.x j).IsReal) :
    (Vec.coord (t.search s sol).point j).IsReal := by
  obtain ⟨share, hwent⟩ := t.exists_went_search ht.options s sol
  rcases hwent.point with ⟨-, hpoint⟩ | hpoint
  · rw [hpoint]
    exact hs.real
  · rw [hpoint]
    exact real_coord_along ht hs hx hreal (isReal_real share)

theorem fits_of_stepped (ht : t.Recastable j) (hs : t.Fits j s)
    (hreal : (Vec.coord sol.x j).IsReal) (h : t.Stepped s sol s') : t.Fits j s' := by
  obtain ⟨hg, hheight, hcols⟩ := h.values.shape ht.unconstrained
  obtain ⟨share, hwent⟩ := t.exists_went_search ht.options s sol
  obtain ⟨hlx, hlg⟩ := length_nextMultipliers (t := t) hs.lamX hs.lamG h.length_lamX
    h.length_lamA (t.search s sol).t
  exact {
    x := by rw [h.x]; exact hwent.length_point hs.x h.length_x
    real := by rw [h.x]; exact real_search_point ht hs h.length_x hreal
    g := hg
    readable := h.readable
    height := hheight
    cols := hcols
    lamX := by rw [h.multipliers, hlx]
    lamG := by rw [h.multipliers, hlg] }

theorem infeasibility_recast (ht : t.Recastable j) (hs : t.Fits j s) :
    (t.recast j backend callback).infeasibility (s.recast j) = t.infeasibility s :=
  infeasibilityAt_recast ht hs.x hs.g hs.real

theorem record_recast (ht : t.Recastable j) (hs : t.Fits j s) :
    (t.recast j backend callback).record (s.recast j) = t.record s := by
  unfold record
  rw [infeasibility_recast ht hs]
  rfl

theorem snapshot_recast (ht : t.Recastable j) (hs : t.Fits j s) :
    (t.recast j backend callback).snapshot (s.recast j) = (t.snapshot s).recast j := by
  unfold snapshot
  rw [infeasibility_recast ht hs]
  rfl

/-- The run stops at the same heads, if the callback does. -/
theorem verdict_recast (ht : t.Recastable j) (hs : t.Fits j s)
    (hcallback : t.callback = callback.map fun stop shown => stop (shown.recast j)) :
    (t.recast j backend callback).verdict (s.recast j) = t.verdict s := by
  have hstop : (t.recast j backend callback).stopRequested (s.recast j) = t.stopRequested s := by
    unfold stopRequested
    rw [hcallback, snapshot_recast ht hs]
    cases callback <;> rfl
  unfold verdict
  rw [hstop, record_recast ht hs]
  rfl

/-! ## One iteration -/

theorem subproblem_recast (ht : t.Recastable j) (hs : t.Fits j s) :
    (t.recast j backend callback).subproblem (s.recast j) = (t.subproblem s).recast j := by
  have hx : j < s.x.length := hs.x ▸ ht.lt
  have hxmin : j < t.problem.xmin.length := ht.xmin ▸ ht.lt
  have hxmax : j < t.problem.xmax.length := ht.xmax ▸ ht.lt
  have hlbx : Vec.sub (t.problem.xmin.set j negInf) s.x =
      (Vec.sub t.problem.xmin s.x).set j negInf :=
    Vec.sub_set_of_infinite hx (negInf_sub_of_isReal hs.real)
  have hubx : Vec.sub (t.problem.xmax.set j posInf) s.x =
      (Vec.sub t.problem.xmax s.x).set j posInf :=
    Vec.sub_set_of_infinite hx (posInf_sub_of_isReal hs.real)
  have hlba : Vec.sub (t.problem.gmin ++ [Vec.coord t.problem.xmin j])
      (s.g ++ [Vec.coord s.x j]) = Vec.sub t.problem.gmin s.g ++
        [Vec.coord (Vec.sub t.problem.xmin s.x) j] := by
    rw [Vec.sub_append_singleton hs.g.symm, Vec.coord_sub hxmin hx]
  have huba : Vec.sub (t.problem.gmax ++ [Vec.coord t.problem.xmax j])
      (s.g ++ [Vec.coord s.x j]) = Vec.sub t.problem.gmax s.g ++
        [Vec.coord (Vec.sub t.problem.xmax s.x) j] := by
    rw [Vec.sub_append_singleton (ht.gmax.trans hs.g.symm), Vec.coord_sub hxmax hx]
  unfold subproblem QuadraticProgram.recast
  dsimp only [recast, Problem.recast, Iterate.recast]
  rw [hlbx, hubx, hlba, huba]

/-- The subproblem at a head is answered alike, and the coordinate `j` of the answer is real. -/
structure Mirrored (j : ℕ) (backend : Backend Extended) (t : Task Extended)
    (s : Iterate Extended) : Prop where
  answer : (backend (s.iter + 1) ((t.subproblem s).recast j) s.step).outcome =
    (t.backend (s.iter + 1) (t.subproblem s) s.step).outcome.map (.recast j)
  real : ∀ sol, (t.backend (s.iter + 1) (t.subproblem s) s.step).outcome = .ok sol →
    (Vec.coord sol.x j).IsReal

theorem solveSubproblem_recast (ht : t.Recastable j) (hs : t.Fits j s) (h : t.Mirrored j backend s) :
    Alike SolveError.kind (QuadraticSolution.recast j) (t.solveSubproblem s).outcome
      ((t.recast j backend callback).solveSubproblem (s.recast j)).outcome := by
  have hanswer : ((t.recast j backend callback).backend (s.iter + 1)
      ((t.recast j backend callback).subproblem (s.recast j)) s.step).outcome =
        (t.backend (s.iter + 1) (t.subproblem s) s.step).outcome.map (.recast j) := by
    rw [subproblem_recast ht hs]
    exact h.answer
  unfold solveSubproblem
  refine Alike.bind (alike_note _ _ _) fun _ _ => ?_
  refine Alike.bind ?_ fun sol _ => alike_guard ?_ ?_ sol
  · exact alike_mapEntries hanswer
  · rw [constraintCount_recast, variableCount_recast]
    simp [QuadraticSolution.recast]
  · rfl

theorem nextMultipliers_recast (ht : t.Recastable j) (hs : t.Fits j s)
    (hlamX : sol.lamX.length = t.problem.variableCount)
    (hlamA : sol.lamA.length = t.problem.constraintCount) {length : Extended}
    (hlength : length.IsReal) :
    (t.recast j backend callback).nextMultipliers (s.recast j) (sol.recast j) length =
      (t.nextMultipliers s sol length).recast j := by
  have hold : j < s.multipliers.x.length := hs.lamX ▸ ht.lt
  have hnew : j < sol.lamX.length := hlamX ▸ ht.lt
  have hoptions : (t.recast j backend callback).options = t.options := rfl
  unfold nextMultipliers
  rw [hoptions]
  by_cases hsearch : 0 < t.options.maxSearchTrials
  · rw [if_pos hsearch, if_pos hsearch]
    dsimp only [QuadraticSolution.recast, Iterate.recast, Multipliers.recast]
    rw [Vec.blend_append_singleton (hlamA.trans hs.lamG.symm), Vec.blend_set_zero hlength,
      Vec.coord_blend hnew hold]
  · rw [if_neg hsearch, if_neg hsearch]
    rfl

theorem slope_recast (ht : t.Recastable j) (hs : t.Fits j s)
    (hlamX : sol.lamX.length = t.problem.variableCount) :
    (t.recast j backend callback).slope (s.recast j) (sol.recast j) = t.slope s sol := by
  unfold slope
  rw [infeasibility_recast ht hs, nextSigma_recast (hlamX ▸ ht.lt)]
  rfl

theorem nextMerits_recast (ht : t.Recastable j) (hs : t.Fits j s)
    (hlamX : sol.lamX.length = t.problem.variableCount) :
    (t.recast j backend callback).nextMerits (s.recast j) (sol.recast j) = t.nextMerits s sol := by
  unfold nextMerits
  rw [infeasibility_recast ht hs, nextSigma_recast (hlamX ▸ ht.lt)]
  rfl

/-- The searches at the heads agree. -/
theorem agrees_search (ht : t.Recastable j) (hs : t.Fits j s)
    (hx : sol.x.length = t.problem.variableCount)
    (hlamX : sol.lamX.length = t.problem.variableCount) (hreal : (Vec.coord sol.x j).IsReal) :
    LineSearch.Agrees (t.search s sol)
      ((t.recast j backend callback).search (s.recast j) (sol.recast j)) := by
  obtain ⟨beta, -, -, hbeta⟩ := ht.options.beta_real
  have hmerit : ∀ k length, Extended.IsReal length →
      Alike (fun _ => ()) id
        (t.meritAt (nextSigma s.sigma sol) ⟨s.iter + 1, k⟩ (Vec.along s.x sol.x length)).outcome
        ((t.recast j backend callback).meritAt (nextSigma s.sigma sol) ⟨s.iter + 1, k⟩
          (Vec.along s.x sol.x length)).outcome := by
    intro k length hlength
    have hlen : (Vec.along s.x sol.x length).length = t.problem.variableCount := by
      rw [Vec.length_along, hs.x, hx, min_self]
    exact meritAt_recast ht hlen (real_coord_along ht hs hx hreal hlength) _
  -- Slope, window and penalty are the same, so only the merits of the trials are left to compare.
  unfold search
  rw [slope_recast ht hs hlamX, nextMerits_recast ht hs hlamX,
    nextSigma_recast (hlamX ▸ ht.lt)]
  exact LineSearch.agrees_run (T := Extended.IsReal) (isReal_real 1)
    (fun _ hlength => isReal_mul_iff.mpr ⟨hlength, beta, hbeta⟩) hmerit _

theorem nextHessian_recast (ht : t.Recastable j) (hs : t.Fits j s) (x glag : List Extended)
    {lam : Multipliers Extended} (hlx : lam.x.length = t.problem.variableCount)
    (hlg : lam.g.length = t.problem.constraintCount) :
    (t.recast j backend callback).nextHessian (s.recast j) x glag (lam.recast j) =
      t.nextHessian s x glag lam := by
  have hcurvature : (t.recast j backend callback).curvature = t.curvature.recast := rfl
  unfold nextHessian
  rw [hcurvature]
  cases t.curvature with
  | exact hess => exact hessianAt_recast hess lam.g _
  | limitedMemory =>
      have hold : lagrangianGradient (s.recast j).gradF (s.recast j).jacobian (lam.recast j) =
          lagrangianGradient s.gradF s.jacobian lam :=
        lagrangianGradient_recast hs.readable (hlg.trans hs.height.symm) (hlx ▸ ht.lt)
      dsimp only [Curvature.recast]
      rw [hold]
      rfl

theorem land_recast (ht : t.Recastable j) (hs : t.Fits j s)
    (hlamX : sol.lamX.length = t.problem.variableCount)
    (hlamA : sol.lamA.length = t.problem.constraintCount)
    {search search' : LineSearch (Event Extended) Extended} (hsearch : search.Agrees search')
    (hlength : search.t.IsReal) :
    Alike SolveError.kind (Iterate.recast j) (t.land s sol search).outcome
      ((t.recast j backend callback).land (s.recast j) (sol.recast j) search').outcome := by
  obtain ⟨hlx, hlg⟩ := length_nextMultipliers (t := t) hs.lamX hs.lamG hlamX hlamA search.t
  have hsuccess : search'.success = search.success := by
    unfold LineSearch.success
    rw [hsearch.ending]
  unfold land
  rw [hsearch.t, hsearch.point, nextMultipliers_recast ht hs hlamX hlamA hlength]
  refine Alike.bind (jacobianAt_recast ht) fun r hjac => ?_
  obtain ⟨g, jac⟩ := r
  obtain ⟨-, hheight, hcols⟩ := (jacobianAt_eq_ok.mp hjac).shape ht.unconstrained
  have hj : j < jac.cols := hcols ▸ ht.lt
  rw [gradientAt_recast]
  refine Alike.bind (alike_self _ _) fun r _ => ?_
  obtain ⟨f, gradF⟩ := r
  dsimp only [id]
  -- Only a Jacobian that can be read has the same gradient of the Lagrangian.
  rw [ensure_readable_pushUnit hj]
  refine Alike.bind (alike_self _ _) fun _ hread => ?_
  rw [lagrangianGradient_recast (Failure.ensure_eq_ok_iff.mp hread) (hlg.trans hheight.symm)
    (hlx ▸ ht.lt), nextHessian_recast ht hs _ _ hlx hlg]
  refine Alike.bind (alike_self _ _) fun r _ => ?_
  obtain ⟨hess, reg⟩ := r
  dsimp only [id]
  rw [nextSigma_recast (hlamX ▸ ht.lt), nextMerits_recast ht hs hlamX, hsearch.trials, hsuccess]
  exact .ok _

theorem follow_recast (ht : t.Recastable j) (hs : t.Fits j s)
    (hx : sol.x.length = t.problem.variableCount)
    (hlamX : sol.lamX.length = t.problem.variableCount)
    (hlamA : sol.lamA.length = t.problem.constraintCount) (hreal : (Vec.coord sol.x j).IsReal) :
    Alike SolveError.kind (Iterate.recast j) (t.follow s sol).outcome
      ((t.recast j backend callback).follow (s.recast j) (sol.recast j)).outcome := by
  have hsearch : LineSearch.Agrees (t.search s sol)
      ((t.recast j backend callback).search (s.recast j) (sol.recast j)) :=
    agrees_search ht hs hx hlamX hreal
  have hfault : ((t.recast j backend callback).search (s.recast j) (sol.recast j)).fault? =
      (t.search s sol).fault? := by
    unfold LineSearch.fault?
    rw [hsearch.ending]
  obtain ⟨share, hwent⟩ := t.exists_went_search ht.options s sol
  unfold follow
  refine Alike.bind (alike_note _ _ _) fun _ _ => ?_
  refine Alike.bind (alike_self _ _) fun _ _ => ?_
  refine Alike.bind (alike_note _ _ _) fun _ _ => ?_
  refine Alike.bind (alike_note _ _ _) fun _ _ => ?_
  rw [hfault]
  cases (t.search s sol).fault? with
  | some fault => exact .fault fault
  | none => exact land_recast ht hs hlamX hlamA hsearch (hwent.length ▸ isReal_real share)

theorem step_recast (ht : t.Recastable j) (hs : t.Fits j s) (h : t.Mirrored j backend s) :
    Alike SolveError.kind (Iterate.recast j) (t.step s).outcome
      ((t.recast j backend callback).step (s.recast j)).outcome := by
  rw [step_eq, step_eq]
  refine Alike.bind (solveSubproblem_recast ht hs h) fun sol hsol => ?_
  obtain ⟨hsolved, hx, hlamX, hlamA⟩ := solveSubproblem_eq_ok.mp hsol
  exact follow_recast ht hs hx hlamX hlamA (h.real sol hsolved)

/-- What fits is led to what fits again. -/
theorem fits_of_step {next : Iterate Extended} (ht : t.Recastable j) (hs : t.Fits j s)
    (h : t.Mirrored j backend s) (hnext : (t.step s).outcome = .ok next) : t.Fits j next := by
  obtain ⟨sol, hstepped⟩ := stepped_of_step hnext
  exact fits_of_stepped ht hs (h.real sol hstepped.solved) hstepped

/-! ## The start -/

theorem start_recast (ht : t.Recastable j) {lam : Multipliers Extended}
    (hlx : lam.x.length = t.problem.variableCount)
    (hlg : lam.g.length = t.problem.constraintCount) :
    Alike SolveError.kind (Iterate.recast j) (t.start lam).outcome
      ((t.recast j backend callback).start (lam.recast j)).outcome := by
  have hhessian : (t.recast j backend callback).startHessian (lam.recast j) =
      t.startHessian lam := by
    have hcurvature : (t.recast j backend callback).curvature = t.curvature.recast := rfl
    unfold startHessian
    rw [hcurvature]
    cases t.curvature with
    | exact hess => exact hessianAt_recast hess lam.g _
    | limitedMemory => rfl
  unfold start
  refine Alike.bind (jacobianAt_recast ht) fun r hjac => ?_
  obtain ⟨g, jac⟩ := r
  obtain ⟨-, hheight, hcols⟩ := (jacobianAt_eq_ok.mp hjac).shape ht.unconstrained
  have hj : j < jac.cols := hcols ▸ ht.lt
  rw [gradientAt_recast]
  refine Alike.bind (alike_self _ _) fun r _ => ?_
  obtain ⟨f, gradF⟩ := r
  rw [hhessian]
  refine Alike.bind (alike_self _ _) fun r _ => ?_
  obtain ⟨hess, reg⟩ := r
  refine Alike.bind (alike_note _ _ _) fun _ _ => ?_
  rw [ensure_readable_pushUnit hj]
  refine Alike.bind (alike_self _ _) fun _ hread => ?_
  refine Alike.bind (alike_self _ _) fun merits _ => ?_
  rw [lagrangianGradient_recast (Failure.ensure_eq_ok_iff.mp hread) (hlg.trans hheight.symm)
    (hlx ▸ ht.lt)]
  exact .ok _

end Task

end SeqQuad.Nonlinear
