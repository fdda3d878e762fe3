import SeqQuad.Proofs.Nonlinear.Coherence
import SeqQuad.Proofs.Nonlinear.LimitedMemory

/-!
# Failures of a run

The line search shields a run from points where the problem cannot be evaluated: it ends only
where the objective and the constraints have values, or at the point that it began at, and there
the derivatives were evaluated before. So once the first evaluations succeed, no later one fails
outside the search, and the only errors left are those of the solver of the subproblems.
-/

namespace SeqQuad

namespace Journaled

variable {ω ε β γ : Type} {Q : ε → Prop}

/-- Succeeds, or fails as `Q` allows. -/
def FailsOnly (Q : ε → Prop) (c : Journaled ω ε β) : Prop :=
  ∀ e, c.outcome = .error e → Q e

theorem failsOnly_of_ok {c : Journaled ω ε β} {b : β} (h : c.outcome = .ok b) :
    c.FailsOnly Q := by
  intro e he
  rw [h] at he
  cases he

theorem failsOnly_of_error {c : Journaled ω ε β} {e : ε} (h : c.outcome = .error e) (hQ : Q e) :
    c.FailsOnly Q := by
  intro e' he'
  rw [h] at he'
  cases he'
  exact hQ

theorem FailsOnly.bind {c : Journaled ω ε β} {f : β → Journaled ω ε γ} (hc : c.FailsOnly Q)
    (hf : ∀ b, c.outcome = .ok b → (f b).FailsOnly Q) : (c >>= f).FailsOnly Q := by
  intro e he
  cases h : c.outcome with
  | ok b =>
      rw [bind_of_ok f h] at he
      exact hf b h e he
  | error e' =>
      rw [bind_of_error f h] at he
      cases he
      exact hc e h

/-- Past a success, only what follows can fail. -/
theorem FailsOnly.bind_of_ok {c : Journaled ω ε β} {b : β} {f : β → Journaled ω ε γ}
    (h : c.outcome = .ok b) (hf : (f b).FailsOnly Q) : (c >>= f).FailsOnly Q := by
  refine FailsOnly.bind (failsOnly_of_ok h) fun b' hb' => ?_
  obtain rfl := Except.ok.inj (h.symm.trans hb')
  exact hf

end Journaled

namespace Nonlinear

open Journaled

/-! ## Points where a problem can be evaluated -/

section Points

variable {α : Type} [Scalar α]

namespace Problem

variable (p : Problem α) (x : List α)

def HasValue : Prop :=
  ∃ m f, p.objective.value m x = .ok f

/-- A gradient of the right length. -/
def HasGradient : Prop :=
  ∃ m f gradF, p.objective.gradient m x = .ok (f, gradF) ∧ gradF.length = p.variableCount

/-- Constraint values of the right number. -/
def HasValues : Prop :=
  ∀ c, p.constraints = some c → ∃ m g, c.values m x = .ok g ∧ g.length = p.constraintCount

/-- A Jacobian of the right dimensions. -/
def HasJacobian : Prop :=
  ∀ c, p.constraints = some c → ∃ m g jac, c.jacobian m x = .ok (g, jac) ∧
    g.length = p.constraintCount ∧ jac.height = p.constraintCount ∧ jac.cols = p.variableCount

/-- A Hessian of the right dimensions under all multipliers of the constraints. -/
def HasHessian : Prop :=
  ∀ hess, p.hessian = some hess → ∀ lam : List α, lam.length = p.constraintCount →
    ∃ m h, hess m x lam 1 = .ok h ∧ h.height = p.variableCount ∧ h.cols = p.variableCount

/-- The derivatives exist wherever the values do, and the Hessian, if it is asked for, wherever
the first derivatives do. -/
structure Shielded (p : Problem α) (source : HessianSource) : Prop where
  gradient : ∀ x, p.HasValue x → p.HasGradient x
  jacobian : ∀ x, p.HasValues x → p.HasJacobian x
  hessian : source = .exact → ∀ x, p.HasGradient x → p.HasJacobian x → p.HasHessian x

end Problem

/-- The solver of the subproblems failed, or its answer had wrong lengths. -/
def SolveError.OfBackend : SolveError α → Prop
  | .backend _ | .answerShape .. => True
  | .problem _ | .evaluation .. => False

/-- A fault, or an error of the solver of the subproblems. -/
def BackendOnly (e : Failure (SolveError α)) : Prop :=
  ∀ cause, e = .error cause → cause.OfBackend

omit [Scalar α] in
theorem backendOnly_fault (fault : Fault) :
    BackendOnly (.fault fault : Failure (SolveError α)) :=
  nofun

omit [Scalar α] in
theorem failsOnly_ofOption {β : Type} (fault : Fault) (b? : Option β) :
    (ofExcept (Failure.ofOption fault b?) : Run α β).FailsOnly BackendOnly := by
  cases b? with
  | none => exact failsOnly_of_error rfl (backendOnly_fault fault)
  | some b => exact failsOnly_of_ok rfl

omit [Scalar α] in
theorem failsOnly_ensure (condition : Prop) [Decidable condition] (fault : Fault) :
    (ofExcept (Failure.ensure condition fault) : Run α Unit).FailsOnly BackendOnly := by
  by_cases h : condition
  · exact failsOnly_of_ok (Failure.ensure_eq_ok_iff.mpr h)
  · exact failsOnly_of_error (if_neg h) (backendOnly_fault fault)

namespace Task

variable {t : Task α} {m : Moment} {x : List α}

/-! ## Evaluations -/

omit [Scalar α] in
theorem exists_gradientAt (hdet : t.problem.Deterministic) (h : t.problem.HasGradient x) :
    ∃ f gradF, (t.gradientAt m x).outcome = .ok (f, gradF) := by
  obtain ⟨m', f, gradF, hgrad, hlen⟩ := h
  rw [hdet.gradient m' m] at hgrad
  exact ⟨f, gradF, gradientAt_eq_ok.mpr ⟨hgrad, hlen⟩⟩

omit [Scalar α] in
theorem exists_jacobianAt (hdet : t.problem.Deterministic) (h : t.problem.HasJacobian x) :
    ∃ g jac, (t.jacobianAt m x).outcome = .ok (g, jac) := by
  simp only [jacobianAt_eq_ok, JacobianAnswer]
  cases hc : t.problem.constraints with
  | none => exact ⟨[], _, rfl, rfl⟩
  | some c =>
      obtain ⟨m', g, jac, hjac, hshape⟩ := h c hc
      rw [hdet.jacobian c hc m' m] at hjac
      exact ⟨g, jac, hjac, hshape⟩

omit [Scalar α] in
theorem hasGradient_of_gradientAt {f : α} {gradF : List α}
    (h : (t.gradientAt m x).outcome = .ok (f, gradF)) : t.problem.HasGradient x :=
  ⟨m, f, gradF, gradientAt_eq_ok.mp h⟩

omit [Scalar α] in
theorem JacobianAnswer.hasJacobian {g : List α} {jac : SparseMatrix α}
    (h : t.JacobianAnswer m x g jac) : t.problem.HasJacobian x := by
  intro c hc
  unfold JacobianAnswer at h
  rw [hc] at h
  exact ⟨m, g, jac, h⟩

/-- The objective and the constraints have values where a trial has a merit. -/
theorem hasValues_of_meritAt {sigma merit : α}
    (h : (t.meritAt sigma m x).outcome = .ok merit) :
    t.problem.HasValue x ∧ t.problem.HasValues x := by
  obtain ⟨f, g, hf, hg, -⟩ := meritAt_eq_ok.mp h
  refine ⟨⟨m, f, hf⟩, fun c hc => ?_⟩
  unfold ValuesAnswer at hg
  rw [hc] at hg
  exact ⟨m, g, hg⟩

/-- The exact Hessian fails by a fault only. -/
theorem failsOnly_hessianAt {hess : LagrangianHessian α} (hdet : t.problem.Deterministic)
    (hhess : t.problem.hessian = some hess) (h : t.problem.HasHessian x) {lam : List α}
    (hlam : lam.length = t.problem.constraintCount) :
    (t.hessianAt hess m x lam).FailsOnly BackendOnly := by
  obtain ⟨m', b, hok, hheight, hcols⟩ := h hess hhess lam hlam
  rw [hdet.hessian hess hhess m' m] at hok
  refine FailsOnly.bind_of_ok (require_eq_ok.mpr hok) ?_
  simp only [hheight, hcols, ne_eq, not_true_eq_false, or_self, if_false]
  exact failsOnly_ofOption _ _

/-! ## One iteration -/

section Step

variable {s : Iterate α} {sol : QuadraticSolution α} (hdet : t.problem.Deterministic)
  (hshield : t.problem.Shielded t.options.hessian)
  (hcurv : t.problem.curvature t.options.hessian = .ok t.curvature)

/-- The solver of the subproblems fails on its own account. -/
theorem failsOnly_solveSubproblem (s : Iterate α) :
    (t.solveSubproblem s).FailsOnly BackendOnly := by
  unfold solveSubproblem
  refine FailsOnly.bind_of_ok (outcome_note _) (FailsOnly.bind ?_ fun sol _ => ?_)
  · intro e he cause hcause
    cases hback : (t.backend (s.iter + 1) (t.subproblem s) s.step).outcome with
    | ok sol => simp [mapEntries, hback, Except.mapError] at he
    | error e' =>
        simp only [mapEntries, hback, Except.mapError, Except.error.injEq] at he
        cases e' with
        | fault f =>
            rw [hcause] at he
            cases he
        | error c =>
            rw [hcause] at he
            cases he
            trivial
  · split
    · refine failsOnly_of_error rfl fun cause hcause => ?_
      cases hcause
      trivial
    · exact failsOnly_of_ok rfl

include hshield in
/-- Where a search ends, the derivatives exist. -/
theorem evaluable_search (hmax : 0 < t.options.maxSearchTrials) (hgrad : t.problem.HasGradient s.x)
    (hjac : t.problem.HasJacobian s.x) (hfault : (t.search s sol).fault? = none) :
    t.problem.HasGradient (t.search s sol).point ∧
      t.problem.HasJacobian (t.search s sol).point := by
  have hconducted := t.conducted_search s sol (T := fun _ => True) trivial fun _ _ => trivial
  rcases hconducted.ended.value hmax hfault with hstay | ⟨k, merit, hmerit⟩
  · rw [hstay]
    exact ⟨hgrad, hjac⟩
  · obtain ⟨hvalue, hvalues⟩ := hasValues_of_meritAt hmerit
    exact ⟨hshield.gradient _ hvalue, hshield.jacobian _ hvalues⟩

include hdet hshield hcurv in
theorem failsOnly_nextHessian (hgrad : t.problem.HasGradient x) (hjac : t.problem.HasJacobian x)
    (glag : List α) {lam : Multipliers α} (hlam : lam.g.length = t.problem.constraintCount) :
    (t.nextHessian s x glag lam).FailsOnly BackendOnly := by
  unfold nextHessian
  cases hc : t.curvature with
  | exact hess =>
      rw [hc] at hcurv
      obtain ⟨hexact, hhess⟩ := Problem.curvature_eq_exact hcurv
      exact failsOnly_hessianAt hdet hhess (hshield.hessian hexact x hgrad hjac) hlam
  | limitedMemory =>
      refine FailsOnly.bind ?_ fun _ _ => failsOnly_of_ok rfl
      refine FailsOnly.bind_of_ok (outcome_note _) ?_
      exact FailsOnly.bind (failsOnly_ofOption _ _) fun _ _ => failsOnly_of_ok rfl

include hdet hshield hcurv in
/-- An iteration from a point with derivatives fails by its subproblem only. -/
theorem failsOnly_step (hmax : 0 < t.options.maxSearchTrials) (hgrad : t.problem.HasGradient s.x)
    (hjac : t.problem.HasJacobian s.x) (hlx : s.multipliers.x.length = t.problem.variableCount)
    (hlg : s.multipliers.g.length = t.problem.constraintCount) :
    (t.step s).FailsOnly BackendOnly := by
  unfold step
  refine FailsOnly.bind (failsOnly_solveSubproblem s) fun sol hsol => ?_
  obtain ⟨-, -, hlamX, hlamA⟩ := solveSubproblem_eq_ok.mp hsol
  refine FailsOnly.bind_of_ok (outcome_note _) ?_
  refine FailsOnly.bind (failsOnly_ensure _ _) fun _ _ => ?_
  refine FailsOnly.bind_of_ok (outcome_note _) (FailsOnly.bind_of_ok (outcome_note _) ?_)
  cases hfault : (t.search s sol).fault? with
  | some fault => exact failsOnly_of_error rfl (backendOnly_fault fault)
  | none =>
      obtain ⟨hgrad', hjac'⟩ := evaluable_search hshield hmax hgrad hjac hfault
      obtain ⟨g, jac, hjacobian⟩ := exists_jacobianAt (m := ⟨s.iter + 1, 0⟩) hdet hjac'
      obtain ⟨f, gradF, hgradient⟩ := exists_gradientAt (m := ⟨s.iter + 1, 0⟩) hdet hgrad'
      have hlam := (length_nextMultipliers (t := t) hlx hlg hlamX hlamA (t.search s sol).t).2
      refine FailsOnly.bind_of_ok hjacobian (FailsOnly.bind_of_ok hgradient ?_)
      refine FailsOnly.bind (failsOnly_ensure _ _) fun _ _ => ?_
      refine FailsOnly.bind (failsOnly_nextHessian hdet hshield hcurv hgrad' hjac' _ hlam) ?_
      exact fun _ _ => failsOnly_of_ok rfl

include hdet hshield hcurv in
theorem failsOnly_start (hgrad : t.problem.HasGradient t.problem.x0)
    (hjac : t.problem.HasJacobian t.problem.x0) {lam : Multipliers α}
    (hlam : lam.g.length = t.problem.constraintCount) : (t.start lam).FailsOnly BackendOnly := by
  obtain ⟨g, jac, hjacobian⟩ := exists_jacobianAt (m := ⟨0, 0⟩) hdet hjac
  obtain ⟨f, gradF, hgradient⟩ := exists_gradientAt (m := ⟨0, 0⟩) hdet hgrad
  have hhessian : (t.startHessian lam).FailsOnly BackendOnly := by
    unfold startHessian
    cases hc : t.curvature with
    | exact hess =>
        rw [hc] at hcurv
        obtain ⟨hexact, hhess⟩ := Problem.curvature_eq_exact hcurv
        exact failsOnly_hessianAt hdet hhess (hshield.hessian hexact _ hgrad hjac) hlam
    | limitedMemory => exact failsOnly_of_ok rfl
  unfold start
  refine FailsOnly.bind_of_ok hjacobian (FailsOnly.bind_of_ok hgradient ?_)
  refine FailsOnly.bind hhessian fun _ _ => FailsOnly.bind_of_ok (outcome_note _) ?_
  refine FailsOnly.bind (failsOnly_ensure _ _) fun _ _ => ?_
  exact FailsOnly.bind (failsOnly_ofOption _ _) fun _ _ => failsOnly_of_ok rfl

end Step

/-- The loop fails where an iteration fails. -/
theorem failsOnly_iterate {Q : Failure (SolveError α) → Prop} {left : ℕ} {s : Iterate α}
    (hstep : ∀ s' ∈ t.heads left s, (t.step s').FailsOnly Q) :
    (t.iterate left s).FailsOnly Q := by
  induction left generalizing s with
  | zero =>
      rw [iterate_zero]
      refine FailsOnly.bind_of_ok (outcome_note _) ?_
      cases t.verdict s with
      | some status => exact failsOnly_of_ok rfl
      | none => exact failsOnly_of_ok rfl
  | succ left ih =>
      rw [iterate_succ]
      refine FailsOnly.bind_of_ok (outcome_note _) ?_
      cases hv : t.verdict s with
      | some status => exact failsOnly_of_ok rfl
      | none =>
          have hhere : s ∈ t.heads (left + 1) s := List.mem_of_mem_head? (head?_heads _ s)
          refine FailsOnly.bind (hstep s hhere) fun next hnext => ih fun s' hs' => ?_
          rw [heads_of_step hv hnext] at hstep
          exact hstep s' (List.mem_cons_of_mem s hs')

end Task

/-! ## Whole runs -/

variable {opt : Options α} {backend : Backend α} {callback : Option (Snapshot α → Bool)}
  {p : Problem α} {checked : Checked α}

/-- At every head the derivatives were evaluated. -/
theorem evaluable_of_mem_runHeads {s : Iterate α} (hs : s ∈ runHeads opt backend callback p) :
    p.HasGradient s.x ∧ p.HasJacobian s.x := by
  obtain ⟨checked, -, hcurrent⟩ := current_of_mem_runHeads s hs
  exact ⟨Task.hasGradient_of_gradientAt hcurrent.gradient, hcurrent.values.hasJacobian⟩

/-- A run on a checked problem that can be evaluated at its start, with derivatives wherever
there are values and with a line search, is ended by no error but one of the solver of the
subproblems, whatever that solver answers and wherever the values are missing. -/
theorem ofBackend_of_solve (hdet : p.Deterministic) (hshield : p.Shielded opt.hessian)
    (hcheck : p.check opt = .ok checked) (hmax : 0 < opt.maxSearchTrials)
    (hgrad : p.HasGradient p.x0) (hjac : p.HasJacobian p.x0) {cause : SolveError α}
    (h : (solve opt backend callback p).outcome = .error (.error cause)) : cause.OfBackend := by
  have hpass := Problem.passes_of_check hcheck
  have hstart : ((taskOf opt backend callback p checked).start
      checked.multipliers).FailsOnly BackendOnly :=
    Task.failsOnly_start hdet hshield hpass.curvature hgrad hjac
      (startMultipliers_length hpass.multipliers).2
  suffices hrun : (solve opt backend callback p).FailsOnly BackendOnly from hrun _ h cause rfl
  rw [solve_of_check hcheck]
  refine FailsOnly.bind hstart fun first hfirst => ?_
  refine FailsOnly.bind (Task.failsOnly_iterate fun s hs => ?_) fun _ _ => ?_
  · rw [← runHeads_of_start hcheck hfirst] at hs
    obtain ⟨hgradHere, hjacHere⟩ := evaluable_of_mem_runHeads hs
    obtain ⟨hlx, hlg⟩ := length_multipliers_of_mem_runHeads s hs
    exact Task.failsOnly_step hdet hshield hpass.curvature hmax hgradHere hjacHere hlx hlg
  · exact FailsOnly.bind_of_ok (outcome_note _) (failsOnly_of_ok rfl)

/-- A run whose first iteration fails ends with that failure. -/
theorem solve_of_step_error {first : Iterate α} {e : Failure (SolveError α)}
    (hc : p.check opt = .ok checked)
    (hs : ((taskOf opt backend callback p checked).start checked.multipliers).outcome = .ok first)
    (hv : (taskOf opt backend callback p checked).verdict first = none)
    (hstep : ((taskOf opt backend callback p checked).step first).outcome = .error e)
    (hiter : 0 < opt.maxIter) : (solve opt backend callback p).outcome = .error e := by
  obtain ⟨left, hleft⟩ := Nat.exists_eq_succ_of_ne_zero hiter.ne'
  have hloop : ((taskOf opt backend callback p checked).iterate opt.maxIter first).outcome =
      .error e := by
    rw [hleft, Task.iterate_succ, bind_of_ok _ (outcome_note _), hv]
    dsimp only
    rw [bind_of_error _ hstep]
  rw [solve_of_check hc, bind_of_ok _ hs]
  dsimp only
  rw [bind_of_error _ hloop]

end Points

/-! ## A function without values below zero -/

section Cliff

open Extended

/-- Minimize `x`, which can be evaluated from zero on only. -/
noncomputable def cliff : Problem Extended where
  objective := {
    value := fun _ x =>
      if 0 ≤ Vec.coord x 0 then .ok (Vec.coord x 0) else .error (.error (.failed "negative"))
    gradient := fun _ x =>
      if 0 ≤ Vec.coord x 0 then .ok (Vec.coord x 0, [1]) else .error (.error (.failed "negative")) }
  constraints := none
  hessian := some fun _ _ _ _ => .ok (.ofRows 1 [[]])
  x0 := [1]
  xmin := [negInf]
  xmax := [posInf]
  gmin := []
  gmax := []
  multipliers := none

noncomputable def cliffChecked : Checked Extended :=
  ⟨.exact fun _ _ _ _ => .ok (.ofRows 1 [[]]), ⟨[], [0]⟩⟩

theorem cliff_deterministic : cliff.Deterministic where
  gradient _ _ _ := rfl
  jacobian _ hc := by cases hc
  hessian _ hh _ _ _ _ _ := by
    cases hh
    rfl

theorem cliff_value_of_neg (m : Moment) {x : List Extended} (h : ¬0 ≤ Vec.coord x 0) :
    cliff.objective.value m x = .error (.error (.failed "negative")) :=
  if_neg h

theorem cliff_hasGradient {x : List Extended} (h : 0 ≤ Vec.coord x 0) : cliff.HasGradient x :=
  ⟨⟨0, 0⟩, _, [1], if_pos h, rfl⟩

theorem cliff_shielded : cliff.Shielded .exact where
  gradient x := by
    rintro ⟨m, f, hf⟩
    apply cliff_hasGradient
    by_contra hneg
    rw [cliff_value_of_neg m hneg] at hf
    cases hf
  jacobian _ _ _ hc := by cases hc
  hessian _ _ _ _ _ hh _ _ := by
    cases hh
    exact ⟨⟨0, 0⟩, _, rfl, rfl, rfl⟩

theorem cliff_check : cliff.check .default = .ok cliffChecked :=
  Problem.check_of_passes {
    options := validate_default
    pointBounds := by simp [Problem.checkBounds, Problem.variableCount, cliff]
    valueBounds := rfl
    unconstrained := fun _ => rfl
    curvature := rfl
    multipliers := rfl }

theorem cliff_x0 : (0 : Extended) ≤ Vec.coord cliff.x0 0 := by
  simp [cliff, Vec.coord]

/-- The run fails at its first subproblem. -/
theorem cliff_solve : (solve .default silentBackend none cliff).outcome =
    .error (.error (.backend (.external [] "no answer"))) := by
  have hgradient : ((taskOf .default silentBackend none cliff cliffChecked).gradientAt ⟨0, 0⟩
      cliff.x0).outcome = .ok (1, [1]) :=
    Task.gradientAt_eq_ok.mpr ⟨if_pos cliff_x0, rfl⟩
  obtain ⟨first, hfirst⟩ : ∃ first, ((taskOf .default silentBackend none cliff
      cliffChecked).start cliffChecked.multipliers).outcome = .ok first :=
    Task.exists_start rfl hgradient rfl (by decide) (by decide)
  have hstarted := Task.started_of_start hfirst
  have hlag : first.gradLagrangian = lagrangianGradient [1] (.empty 0 1) ⟨[], [0]⟩ := by
    have hgradF := hstarted.gradient
    rw [hstarted.x] at hgradF
    obtain ⟨-, hgradF⟩ := Prod.mk.inj (Except.ok.inj (hgradient.symm.trans hgradF))
    rw [hstarted.lagrangian, ← hgradF, hstarted.values.2, hstarted.multipliers]
    rfl
  have hverdict : (taskOf .default silentBackend none cliff cliffChecked).verdict first =
      none := by
    refine Task.verdict_eq_none rfl (fun h => ?_) ?_ (fun h => ?_)
    · rw [hlag] at h
      exact not_stationary_one h.2
    · rw [hstarted.iter]
      decide
    · rw [hstarted.iter] at h
      exact absurd h.1 (lt_irrefl 0)
  exact solve_of_step_error cliff_check hfirst hverdict rfl (by decide)

/-- There are points without a value, and still the error of the run is that of the solver of its
subproblems. -/
theorem cliff_ofBackend :
    ¬cliff.HasValue [-1] ∧
      (solve .default silentBackend none cliff).outcome =
        .error (.error (.backend (.external [] "no answer"))) ∧
      (SolveError.backend (α := Extended) (.external [] "no answer")).OfBackend := by
  refine ⟨?_, cliff_solve, ofBackend_of_solve cliff_deterministic cliff_shielded cliff_check
    (by decide) (cliff_hasGradient cliff_x0) nofun cliff_solve⟩
  rintro ⟨m, f, hf⟩
  rw [cliff_value_of_neg m (by simp [Vec.coord])] at hf
  cases hf

end Cliff

end Nonlinear

end SeqQuad
