import SeqQuad.Proofs.Curvature.Update
import SeqQuad.Proofs.Nonlinear.Calls
import SeqQuad.Proofs.Nonlinear.Failures

/-!
# Dimensions of a run

Every vector and matrix that a run holds at a head has the dimensions of its problem, whatever the
functions of the problem and the solver of the subproblems answer: what has others is refused
before it is used. So every subproblem is well posed, and nothing is read out of range.
-/

namespace SeqQuad.Nonlinear

open Journaled SparseMatrix

variable {α : Type} [Scalar α]

/-! ## Collaborators -/

omit [Scalar α] in
/-- Functions that answer, be it by an error: vectors of any length, and well-formed matrices of
any dimensions, the Hessians of no more rows than can be held. -/
structure Problem.Answering (p : Problem α) : Prop where
  value : ∀ m x f, p.objective.value m x ≠ .error (.fault f)
  gradient : ∀ m x f, p.objective.gradient m x ≠ .error (.fault f)
  values : ∀ c, p.constraints = some c → ∀ m x f, c.values m x ≠ .error (.fault f)
  jacobian : ∀ c, p.constraints = some c → ∀ m x f, c.jacobian m x ≠ .error (.fault f)
  hessian : ∀ hess, p.hessian = some hess → ∀ m x lam scale f,
    hess m x lam scale ≠ .error (.fault f)
  jacobian_wellFormed : ∀ c, p.constraints = some c → ∀ m x g jac,
    c.jacobian m x = .ok (g, jac) → jac.WellFormed
  hessian_wellFormed : ∀ hess, p.hessian = some hess → ∀ m x lam scale h,
    hess m x lam scale = .ok h → h.WellFormed ∧ Vec.fits (h.height + 1)

/-- A solver of subproblems that answers, be it by an error. -/
def Backend.Answering (backend : Backend α) : Prop :=
  ∀ k qp start f, (backend k qp start).outcome ≠ .error (.fault f)

/-! ## Heads -/

/-- The dimensions of what an iterate holds, where the approximation of the Hessian, if it is one,
stores every position. -/
structure Task.Shaped (t : Task α) (s : Iterate α) : Prop where
  x : s.x.length = t.problem.variableCount
  gradF : s.gradF.length = t.problem.variableCount
  g : s.g.length = t.problem.constraintCount
  jacobian_height : s.jacobian.height = t.problem.constraintCount
  jacobian_cols : s.jacobian.cols = t.problem.variableCount
  multipliers_x : s.multipliers.x.length = t.problem.variableCount
  multipliers_g : s.multipliers.g.length = t.problem.constraintCount
  hessian_height : s.hessian.height = t.problem.variableCount
  hessian_cols : s.hessian.cols = t.problem.variableCount
  hessian_readable : s.hessian.Readable
  approximation : t.curvature = .limitedMemory →
    ∃ f, s.hessian = ofFunction t.problem.variableCount f
  step : s.step.length = t.problem.variableCount

namespace Task

variable {t : Task α} {s s' : Iterate α} {sol : QuadraticSolution α}

theorem length_lagrangian {gradF : List α} {jac : SparseMatrix α} {lam : Multipliers α} {n : ℕ}
    (hgrad : gradF.length = n) (hcols : jac.cols = n) (hlam : lam.x.length = n) :
    (lagrangianGradient gradF jac lam).length = n := by
  simp [lagrangianGradient, hgrad, hcols, hlam]

/-- A search from a point along a step of its dimension ends at a point of that dimension. -/
theorem length_search_point (hx : s.x.length = t.problem.variableCount)
    (hsol : sol.x.length = t.problem.variableCount) :
    (t.search s sol).point.length = t.problem.variableCount := by
  have hconducted := t.conducted_search s sol (T := fun _ => True) trivial fun _ _ => trivial
  rcases hconducted.ended.point_eq with ⟨-, hstay⟩ | ⟨-, hgo⟩
  · rw [hstay, hx]
  · rw [hgo, Vec.length_along, hx, hsol, min_self]

section Answering

variable (hp : t.problem.Answering) (hcurv : t.problem.curvature t.options.hessian = .ok t.curvature)
  (hnone : t.problem.constraints = none → t.problem.constraintCount = 0)

include hp hcurv in
/-- An exact Hessian that is accepted has the dimension of the problem and can be read. -/
theorem shape_hessianAt {hess : LagrangianHessian α} (hc : t.curvature = .exact hess) {m : Moment}
    {x lam : List α} {b : SparseMatrix α} {r : α}
    (h : (t.hessianAt hess m x lam).outcome = .ok (b, r)) :
    b.height = t.problem.variableCount ∧ b.cols = t.problem.variableCount ∧ b.Readable := by
  rw [hc] at hcurv
  obtain ⟨hfull, hok, hheight, hcols, hcond⟩ := hessianAt_eq_ok.mp h
  obtain ⟨-, hhess⟩ := Problem.curvature_eq_exact hcurv
  obtain ⟨hwell, -⟩ := hp.hessian_wellFormed hess hhess m x lam 1 hfull hok
  obtain ⟨hbheight, hbcols, hread⟩ := shape_conditioned hwell hcond
  exact ⟨hbheight.trans hheight, hbcols.trans hcols, hread⟩

include hp hcurv in
theorem shape_startHessian {lam : Multipliers α} {b : SparseMatrix α} {r : α}
    (h : (t.startHessian lam).outcome = .ok (b, r)) :
    b.height = t.problem.variableCount ∧ b.cols = t.problem.variableCount ∧ b.Readable ∧
      (t.curvature = .limitedMemory → ∃ f, b = ofFunction t.problem.variableCount f) := by
  unfold startHessian at h
  cases hc : t.curvature with
  | exact hess =>
      simp only [hc] at h
      obtain ⟨hheight, hcols, hread⟩ := shape_hessianAt hp hcurv hc h
      exact ⟨hheight, hcols, hread, nofun⟩
  | limitedMemory =>
      simp only [hc] at h
      obtain ⟨rfl, -⟩ := Prod.mk.inj (Except.ok.inj h)
      exact ⟨height_ofFunction, cols_ofFunction, readable_ofFunction, fun _ => ⟨_, rfl⟩⟩

include hp hcurv hnone in
theorem shaped_of_started {lam : Multipliers α} (h : t.Started lam s)
    (hlx : lam.x.length = t.problem.variableCount)
    (hlg : lam.g.length = t.problem.constraintCount) : t.Shaped s := by
  obtain ⟨hg, hjheight, hjcols⟩ := h.values.shape hnone
  obtain ⟨hheight, hcols, hread, hfull⟩ := shape_startHessian hp hcurv h.hessian
  exact {
    x := by rw [h.x]; rfl
    gradF := (gradientAt_eq_ok.mp h.gradient).2
    g := hg
    jacobian_height := hjheight
    jacobian_cols := hjcols
    multipliers_x := by rw [h.multipliers, hlx]
    multipliers_g := by rw [h.multipliers, hlg]
    hessian_height := hheight
    hessian_cols := hcols
    hessian_readable := hread
    approximation := hfull
    step := by rw [h.step, Vec.length_zeros] }

/-- An approximation that stores every position has a next one that does. -/
theorem exists_nextApproximation {f : ℕ → ℕ → α}
    (hfull : s.hessian = ofFunction t.problem.variableCount f)
    (hx : s.x.length = t.problem.variableCount) {x glag glagOld : List α}
    (hx' : x.length = t.problem.variableCount) (hglag : glag.length = t.problem.variableCount)
    (hglagOld : glagOld.length = t.problem.variableCount) :
    ∃ g, (t.nextApproximation s x glag glagOld).outcome =
      .ok (ofFunction t.problem.variableCount g) := by
  have hbase : ∃ f', (if (s.iter + 1) % t.options.resetPeriod = 0 then Bfgs.reset s.hessian
      else s.hessian) = ofFunction t.problem.variableCount f' := by
    rw [hfull]
    split
    · exact ⟨_, Bfgs.reset_ofFunction f⟩
    · exact ⟨f, rfl⟩
  obtain ⟨f', hbase⟩ := hbase
  obtain ⟨g, outcome, hupdate⟩ := Bfgs.exists_update_ofFunction f' hx' hx hglag hglagOld
    t.options.minCurvature
  refine ⟨g, ?_⟩
  unfold nextApproximation
  dsimp only
  rw [hbase, hupdate]
  rfl

include hp hcurv in
theorem shape_nextHessian (hs : t.Shaped s) {x glag : List α} {lam : Multipliers α}
    (hx : x.length = t.problem.variableCount) (hglag : glag.length = t.problem.variableCount)
    (hlam : lam.x.length = t.problem.variableCount) {b : SparseMatrix α} {r : α}
    (h : (t.nextHessian s x glag lam).outcome = .ok (b, r)) :
    b.height = t.problem.variableCount ∧ b.cols = t.problem.variableCount ∧ b.Readable ∧
      (t.curvature = .limitedMemory → ∃ f, b = ofFunction t.problem.variableCount f) := by
  unfold nextHessian at h
  cases hc : t.curvature with
  | exact hess =>
      simp only [hc] at h
      obtain ⟨hheight, hcols, hread⟩ := shape_hessianAt hp hcurv hc h
      exact ⟨hheight, hcols, hread, nofun⟩
  | limitedMemory =>
      simp only [hc] at h
      obtain ⟨f, hfull⟩ := hs.approximation hc
      obtain ⟨g, hg⟩ := exists_nextApproximation hfull hs.x hx hglag
        (length_lagrangian hs.gradF hs.jacobian_cols hlam)
      rw [bind_of_ok _ hg] at h
      obtain ⟨rfl, -⟩ := Prod.mk.inj (Except.ok.inj h)
      exact ⟨height_ofFunction, cols_ofFunction, readable_ofFunction, fun _ => ⟨g, rfl⟩⟩

include hp hcurv hnone in
theorem shaped_of_stepped (hs : t.Shaped s) (h : t.Stepped s sol s') : t.Shaped s' := by
  obtain ⟨hg, hjheight, hjcols⟩ := h.values.shape hnone
  have hx : s'.x.length = t.problem.variableCount := by
    rw [h.x]
    exact length_search_point hs.x h.length_x
  obtain ⟨hlx, hlg⟩ := length_nextMultipliers (t := t) hs.multipliers_x hs.multipliers_g
    h.length_lamX h.length_lamA (t.search s sol).t
  rw [← h.multipliers] at hlx hlg
  have hgradF := (gradientAt_eq_ok.mp h.gradient).2
  have hglag : s'.gradLagrangian.length = t.problem.variableCount := by
    rw [h.lagrangian]
    exact length_lagrangian hgradF hjcols hlx
  obtain ⟨hheight, hcols, hread, hfull⟩ := shape_nextHessian hp hcurv hs hx hglag hlx h.hessian
  exact {
    x := hx
    gradF := hgradF
    g := hg
    jacobian_height := hjheight
    jacobian_cols := hjcols
    multipliers_x := hlx
    multipliers_g := hlg
    hessian_height := hheight
    hessian_cols := hcols
    hessian_readable := hread
    approximation := hfull
    step := by rw [h.step, h.length_x] }

end Answering

/-! ## No faults -/

/-- Not a fault. -/
def Faultless {ε : Type} (e : Failure ε) : Prop :=
  ∀ f, e ≠ .fault f

theorem faultless_error {ε : Type} (cause : ε) : Faultless (.error cause : Failure ε) :=
  nofun

omit [Scalar α] in
theorem faultless_require {β : Type} (what : Evaluator) (x : List α) {answer : Evaluated β}
    (h : ∀ f, answer ≠ .error (.fault f)) : (require what x answer).FailsOnly Faultless := by
  unfold require
  refine FailsOnly.bind_of_ok (outcome_note _) ?_
  cases answer with
  | ok b => exact failsOnly_of_ok rfl
  | error e =>
      cases e with
      | error cause => exact failsOnly_of_error rfl (faultless_error _)
      | fault f => exact absurd rfl (h f)

/-- A trial is answered. -/
theorem faultless_meritAt (hp : t.problem.Answering) (sigma : α) (m : Moment) (x : List α) :
    (t.meritAt sigma m x).FailsOnly Faultless := by
  have hconstraints : (t.constraintsAt m x).FailsOnly Faultless := by
    unfold constraintsAt
    cases hc : t.problem.constraints with
    | none => exact failsOnly_of_ok rfl
    | some c =>
        refine FailsOnly.bind_of_ok (outcome_note _) (FailsOnly.bind ?_ fun g _ => ?_)
        · rintro e he f rfl
          exact hp.values c hc m x f he
        · split
          · exact failsOnly_of_error rfl (faultless_error _)
          · exact failsOnly_of_ok rfl
  have hobjective : (t.objectiveAt m x).FailsOnly Faultless := by
    unfold objectiveAt
    refine FailsOnly.bind_of_ok (outcome_note _) (FailsOnly.bind ?_ fun f _ => failsOnly_of_ok rfl)
    rintro e he f rfl
    exact hp.value m x f he
  unfold meritAt
  exact FailsOnly.bind hobjective fun f _ =>
    FailsOnly.bind hconstraints fun g _ => failsOnly_of_ok rfl

theorem search_fault_eq_none (hp : t.problem.Answering) : (t.search s sol).fault? = none := by
  have hconducted := t.conducted_search s sol (T := fun _ => True) trivial fun _ _ => trivial
  cases hfault : (t.search s sol).fault? with
  | none => rfl
  | some f =>
      obtain ⟨k, y, hmerit⟩ := hconducted.ended.fault hfault
      exact absurd rfl (faultless_meritAt hp _ _ y _ hmerit f)

omit [Scalar α] in
theorem faultless_gradientAt (hp : t.problem.Answering) (m : Moment) (x : List α) :
    (t.gradientAt m x).FailsOnly Faultless := by
  unfold gradientAt
  refine FailsOnly.bind (faultless_require _ _ (hp.gradient m x)) fun ⟨f, gradF⟩ _ => ?_
  dsimp only
  split
  · exact failsOnly_of_error rfl (faultless_error _)
  · exact failsOnly_of_ok rfl

omit [Scalar α] in
theorem faultless_jacobianAt (hp : t.problem.Answering) (m : Moment) (x : List α) :
    (t.jacobianAt m x).FailsOnly Faultless := by
  unfold jacobianAt
  cases hc : t.problem.constraints with
  | none => exact failsOnly_of_ok rfl
  | some c =>
      refine FailsOnly.bind (faultless_require _ _ (hp.jacobian c hc m x)) fun ⟨g, jac⟩ _ => ?_
      dsimp only
      split
      · exact failsOnly_of_error rfl (faultless_error _)
      · exact failsOnly_of_ok rfl

omit [Scalar α] in
/-- A Jacobian that is accepted can be read. -/
theorem readable_of_jacobianAt (hp : t.problem.Answering) {m : Moment} {x g : List α}
    {jac : SparseMatrix α} (h : (t.jacobianAt m x).outcome = .ok (g, jac)) : jac.Readable := by
  have hanswer := jacobianAt_eq_ok.mp h
  unfold JacobianAnswer at hanswer
  cases hc : t.problem.constraints with
  | none =>
      rw [hc] at hanswer
      rw [hanswer.2]
      exact readable_ofRows_iff.mpr (by simp)
  | some c =>
      rw [hc] at hanswer
      exact (hp.jacobian_wellFormed c hc m x g jac hanswer.1).readable

section Answering

variable (hp : t.problem.Answering) (hcurv : t.problem.curvature t.options.hessian = .ok t.curvature)
  (hnone : t.problem.constraints = none → t.problem.constraintCount = 0)

include hp hcurv

theorem faultless_hessianAt {hess : LagrangianHessian α} (hc : t.curvature = .exact hess)
    (m : Moment) (x lam : List α) : (t.hessianAt hess m x lam).FailsOnly Faultless := by
  rw [hc] at hcurv
  obtain ⟨-, hhess⟩ := Problem.curvature_eq_exact hcurv
  unfold hessianAt
  refine FailsOnly.bind (faultless_require _ _ (hp.hessian hess hhess m x lam 1)) fun h hh => ?_
  split
  · exact failsOnly_of_error rfl (faultless_error _)
  · obtain ⟨hwell, hroom⟩ := hp.hessian_wellFormed hess hhess m x lam 1 h (require_eq_ok.mp hh)
    obtain ⟨r, hr⟩ := conditioned_isSome t.options.regularize hwell hroom
    exact failsOnly_of_ok (Failure.ofOption_eq_ok_iff.mpr hr)

include hnone

/-- Where a search ended, the derivatives are answered and can be used. -/
theorem faultless_land (hs : t.Shaped s) (hlamX : sol.lamX.length = t.problem.variableCount)
    (hlamA : sol.lamA.length = t.problem.constraintCount) {search : LineSearch (Event α) α}
    (hpoint : search.point.length = t.problem.variableCount) :
    (t.land s sol search).FailsOnly Faultless := by
  obtain ⟨hlx, -⟩ := length_nextMultipliers (t := t) hs.multipliers_x hs.multipliers_g hlamX hlamA
    search.t
  unfold land
  refine FailsOnly.bind (faultless_jacobianAt hp _ _) fun ⟨g, jac⟩ hjac => ?_
  refine FailsOnly.bind (faultless_gradientAt hp _ _) fun ⟨f, gradF⟩ hgrad => ?_
  refine FailsOnly.bind_of_ok (Failure.ensure_eq_ok_iff.mpr (readable_of_jacobianAt hp hjac)) ?_
  refine FailsOnly.bind ?_ fun _ _ => failsOnly_of_ok rfl
  unfold nextHessian
  cases hc : t.curvature with
  | exact hess => exact faultless_hessianAt hp hcurv hc _ _ _
  | limitedMemory =>
      obtain ⟨b, hfull⟩ := hs.approximation hc
      obtain ⟨-, -, hjcols⟩ := (jacobianAt_eq_ok.mp hjac).shape hnone
      obtain ⟨b', hb'⟩ := exists_nextApproximation hfull hs.x hpoint
        (length_lagrangian (gradientAt_eq_ok.mp hgrad).2 hjcols hlx)
        (length_lagrangian hs.gradF hs.jacobian_cols hlx)
      exact FailsOnly.bind_of_ok hb' (failsOnly_of_ok rfl)

omit hp hcurv hnone in
theorem faultless_solveSubproblem (hb : t.backend.Answering) (s : Iterate α) :
    (t.solveSubproblem s).FailsOnly Faultless := by
  unfold solveSubproblem
  refine FailsOnly.bind_of_ok (outcome_note _) (FailsOnly.bind ?_ fun sol _ => ?_)
  · rintro e he f rfl
    cases hback : (t.backend (s.iter + 1) (t.subproblem s) s.step).outcome with
    | ok sol => simp [mapEntries, hback, Except.mapError] at he
    | error e =>
        cases e with
        | error cause => simp [mapEntries, hback, Except.mapError, Failure.map] at he
        | fault f' => exact hb _ _ _ _ hback
  · split
    · exact failsOnly_of_error rfl (faultless_error _)
    · exact failsOnly_of_ok rfl

theorem faultless_step (hb : t.backend.Answering) (hs : t.Shaped s) :
    (t.step s).FailsOnly Faultless := by
  rw [step_eq]
  refine FailsOnly.bind (faultless_solveSubproblem hb s) fun sol hsol => ?_
  obtain ⟨-, hx, hlamX, hlamA⟩ := solveSubproblem_eq_ok.mp hsol
  unfold follow
  refine FailsOnly.bind_of_ok (outcome_note _) ?_
  refine FailsOnly.bind_of_ok (Failure.ensure_eq_ok_iff.mpr hs.hessian_readable) ?_
  refine FailsOnly.bind_of_ok (outcome_noteIf _ _) (FailsOnly.bind_of_ok (outcome_note _) ?_)
  rw [search_fault_eq_none hp]
  exact faultless_land hp hcurv hnone hs hlamX hlamA (length_search_point hs.x hx)

end Answering

end Task

/-! ## Whole runs -/

section Whole

variable {opt : Options α} {backend : Backend α} {callback : Option (Snapshot α → Bool)}
  {p : Problem α} {checked : Checked α}

theorem shaped_of_mem_runHeads (hp : p.Answering) :
    ∀ s ∈ runHeads opt backend callback p,
      ∃ checked, p.Passes opt checked ∧ (taskOf opt backend callback p checked).Shaped s := by
  apply runHeads_induction
  · intro checked first hpass hfirst
    obtain ⟨hlx, hlg⟩ := startMultipliers_length hpass.multipliers
    exact Task.shaped_of_started hp hpass.curvature hpass.unconstrained hfirst hlx hlg
  · intro checked s sol s' hpass hs _ hstep
    exact Task.shaped_of_stepped hp hpass.curvature hpass.unconstrained hs hstep

/-- A quadratic program with `n` variables and `m` rows, and a point to start at. -/
structure HasShape (qp : QuadraticProgram α) (start : List α) (n m : ℕ) : Prop where
  h : qp.h.height = n ∧ qp.h.cols = n
  g : qp.g.length = n
  lbx : qp.lbx.length = n
  ubx : qp.ubx.length = n
  a : qp.a.height = m ∧ qp.a.cols = n
  lba : qp.lba.length = m
  uba : qp.uba.length = m
  start : start.length = n

/-- Every subproblem has the dimensions of the problem. -/
theorem hasShape_of_mem_subproblems (hp : p.Answering) {q : QuadraticProgram α × List α}
    (hq : q ∈ subproblems (solve opt backend callback p).journal) :
    HasShape q.1 q.2 p.variableCount p.constraintCount := by
  obtain ⟨checked, s, hpass, hs, rfl⟩ := exists_head_of_mem_subproblems hq
  obtain ⟨checked', hpass', hshaped⟩ := shaped_of_mem_runHeads hp s hs
  obtain ⟨hxmin, hxmax, -⟩ := checkBounds_eq_ok hpass.pointBounds
  obtain ⟨hgmin, hgmax, -⟩ := checkBounds_eq_ok hpass.valueBounds
  have hx : s.x.length = p.variableCount := hshaped.x
  have hg : s.g.length = p.constraintCount := hshaped.g
  exact {
    h := ⟨hshaped.hessian_height, hshaped.hessian_cols⟩
    g := hshaped.gradF
    lbx := by simp [Task.subproblem, taskOf, hxmin, hx]
    ubx := by simp [Task.subproblem, taskOf, hxmax, hx]
    a := ⟨hshaped.jacobian_height, hshaped.jacobian_cols⟩
    lba := by simp [Task.subproblem, taskOf, hgmin, hg]
    uba := by simp [Task.subproblem, taskOf, hgmax, hg]
    start := hshaped.step }

/-- There is no room for the merits of the line search, the only room that a run asks for. -/
def NoRoom (opt : Options α) (e : Failure (SolveError α)) : Prop :=
  ∀ f, e = .fault f → f = .room ∧ Vec.fits (opt.meritMemory + 1) = false

omit [Scalar α] in
theorem noRoom_of_faultless {β : Type} {c : Run α β} (h : c.FailsOnly Task.Faultless) :
    c.FailsOnly (NoRoom opt) :=
  fun e he f hf => absurd hf (h e he f)

theorem noRoom_start (hp : p.Answering) (hpass : p.Passes opt checked) :
    ((taskOf opt backend callback p checked).start checked.multipliers).FailsOnly (NoRoom opt) := by
  unfold Task.start
  refine FailsOnly.bind (noRoom_of_faultless (Task.faultless_jacobianAt hp _ _)) fun ⟨g, jac⟩ hjac => ?_
  refine FailsOnly.bind (noRoom_of_faultless (Task.faultless_gradientAt hp _ _)) fun ⟨f, gradF⟩ _ => ?_
  refine FailsOnly.bind (noRoom_of_faultless ?_) fun ⟨h, r⟩ _ => ?_
  · unfold Task.startHessian
    cases hc : (taskOf opt backend callback p checked).curvature with
    | exact hess => exact Task.faultless_hessianAt hp hpass.curvature hc _ _ _
    | limitedMemory => exact failsOnly_of_ok rfl
  · refine FailsOnly.bind_of_ok (outcome_noteIf _ _) ?_
    refine FailsOnly.bind_of_ok
      (Failure.ensure_eq_ok_iff.mpr (Task.readable_of_jacobianAt hp hjac)) ?_
    refine FailsOnly.bind ?_ fun _ _ => failsOnly_of_ok rfl
    by_cases hroom : Vec.fits (opt.meritMemory + 1) = true
    · exact failsOnly_of_ok (Failure.ofOption_eq_ok_iff.mpr
        (MeritWindow.new?_eq_some_iff.mpr ⟨hroom, rfl⟩))
    · refine failsOnly_of_error (e := .fault .room) ?_ ?_
      · show Failure.ofOption .room (MeritWindow.new? opt.meritMemory) = _
        rw [MeritWindow.new?, if_neg hroom]
        rfl
      · rintro f hf
        cases hf
        exact ⟨rfl, Bool.eq_false_of_not_eq_true hroom⟩

/-- A run on functions and a solver that answer comes to no fault, but that there is no room for
the merits of its line searches: nothing is read out of range. -/
theorem noRoom_solve (hp : p.Answering) (hb : backend.Answering) :
    (solve opt backend callback p).FailsOnly (NoRoom opt) := by
  cases hc : p.check opt with
  | error e =>
      rw [solve_of_check_error hc]
      exact failsOnly_of_error rfl nofun
  | ok checked =>
      have hpass := Problem.passes_of_check hc
      rw [solve_of_check hc]
      refine FailsOnly.bind (noRoom_start hp hpass) fun first hfirst => ?_
      refine FailsOnly.bind (Task.failsOnly_iterate fun s hs => ?_) fun _ _ => ?_
      · rw [← runHeads_of_start hc hfirst] at hs
        obtain ⟨checked', hpass', hshaped⟩ := shaped_of_mem_runHeads hp s hs
        obtain rfl := Except.ok.inj (hc.symm.trans (Problem.check_of_passes hpass'))
        exact noRoom_of_faultless (Task.faultless_step hp hpass.curvature hpass.unconstrained hb hshaped)
      · exact FailsOnly.bind_of_ok (outcome_noteIf _ _) (failsOnly_of_ok rfl)

end Whole

end SeqQuad.Nonlinear
