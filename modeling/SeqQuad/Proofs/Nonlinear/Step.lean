import Mathlib
import SeqQuad.Nonlinear.Solve

/-!
# What the parts of a run do

One statement for each part of a run that succeeds: the checks, the evaluations, the start and
one iteration. Later proofs cite these and open no computation again.
-/

namespace SeqQuad

/-! ## Composed computations -/

theorem except_bind_eq_ok {ε β γ : Type} {c : Except ε β} {f : β → Except ε γ} {d : γ} :
    (c >>= f) = .ok d ↔ ∃ b, c = .ok b ∧ f b = .ok d := by
  cases c with
  | ok b => exact ⟨fun h => ⟨b, rfl, h⟩, fun ⟨_, hb, h⟩ => by cases hb; exact h⟩
  | error e => exact ⟨nofun, fun ⟨_, hb, _⟩ => by cases hb⟩

theorem except_mapError_eq_ok {ε ε' β : Type} {c : Except ε β} {g : ε → ε'} {b : β} :
    c.mapError g = .ok b ↔ c = .ok b := by
  cases c <;> simp [Except.mapError]

theorem except_bind_eq_error {ε β γ : Type} {c : Except ε β} {f : β → Except ε γ} {e : ε} :
    (c >>= f) = .error e ↔ c = .error e ∨ ∃ b, c = .ok b ∧ f b = .error e := by
  cases c <;> simp [bind, Except.bind]

theorem except_mapError_eq_error {ε ε' β : Type} {c : Except ε β} {g : ε → ε'} {e' : ε'} :
    c.mapError g = .error e' ↔ ∃ e, c = .error e ∧ g e = e' := by
  cases c <;> simp [Except.mapError]

theorem except_map_eq_error {ε β γ : Type} {c : Except ε β} {g : β → γ} {e : ε} :
    c.map g = .error e ↔ c = .error e := by
  cases c <;> simp [Except.map]

namespace Journaled

variable {ω ω' ε ε' β : Type}

theorem outcome_mapEntries_eq_ok {f : ω → ω'} {g : ε → ε'} {c : Journaled ω ε β} {b : β} :
    (c.mapEntries f g).outcome = .ok b ↔ c.outcome = .ok b := by
  exact except_mapError_eq_ok

theorem exists_ok_bind {γ : Type} {c : Journaled ω ε β} {f : β → Journaled ω ε γ} {b : β}
    (h : c.outcome = .ok b) (hf : ∃ d, (f b).outcome = .ok d) :
    ∃ d, (c >>= f).outcome = .ok d := by
  obtain ⟨d, hd⟩ := hf
  exact ⟨d, outcome_bind_eq_ok.mpr ⟨b, h, hd⟩⟩

/-- Computations composed of parts with the same outcomes have the same outcome, whatever they
write into their journals. -/
theorem outcome_bind_congr {γ : Type} {c d : Journaled ω ε β} {f g : β → Journaled ω ε γ}
    (h : c.outcome = d.outcome) (hf : ∀ b, d.outcome = .ok b → (f b).outcome = (g b).outcome) :
    (c >>= f).outcome = (d >>= g).outcome := by
  cases hd : d.outcome with
  | ok b => rw [bind_of_ok f (h.trans hd), bind_of_ok g hd, hf b hd]
  | error e => rw [bind_of_error f (h.trans hd), bind_of_error g hd]

end Journaled

namespace Nonlinear

open Journaled

variable {α : Type} [Scalar α]

/-! ## Checks -/

/-- The ranges of accepted options. -/
structure Options.Valid (opt : Options α) : Prop where
  beta : 0 < opt.beta ∧ opt.beta < 1
  c1 : 0 < opt.c1 ∧ opt.c1 < 1
  meritMemory : opt.meritMemory ≠ 0
  resetPeriod : opt.resetPeriod ≠ 0
  minCurvature : ¬opt.minCurvature < 0

theorem Options.valid_of_validate {opt : Options α} (h : opt.validate = .ok ()) :
    opt.Valid := by
  unfold Options.validate at h
  split at h
  · cases h
  · rename_i hbeta
    split at h
    · cases h
    · rename_i hc1
      split at h
      · cases h
      · rename_i hmemory
        split at h
        · cases h
        · rename_i hperiod
          split at h
          · cases h
          · rename_i hcurvature
            exact ⟨not_not.mp hbeta, not_not.mp hc1, hmemory, hperiod, hcurvature⟩

theorem checkBounds_eq_ok {what : Bounded} {n : ℕ} {lower upper : List α}
    (h : Problem.checkBounds what n lower upper = .ok ()) :
    lower.length = n ∧ upper.length = n ∧
      ∀ j < n, Vec.coord lower j ≤ Vec.coord upper j := by
  unfold Problem.checkBounds at h
  split at h
  · cases h
  · rename_i hlen
    rw [not_or, not_not, not_not] at hlen
    refine ⟨hlen.1, hlen.2, fun j hj => ?_⟩
    split at h
    · cases h
    · rename_i hfind
      rw [List.find?_eq_none] at hfind
      have hl : j < lower.length := by omega
      have hu : j < upper.length := by omega
      have hmem : ((lower[j], upper[j]), j) ∈ (lower.zip upper).zipIdx := by
        rw [List.mem_zipIdx_iff_getElem?]
        simp [hl, hu]
      simpa [Vec.coord, hl, hu] using hfind _ hmem

theorem checkBounds_of_le {what : Bounded} {n : ℕ} {lower upper : List α}
    (hl : lower.length = n) (hu : upper.length = n)
    (hle : ∀ j < n, Vec.coord lower j ≤ Vec.coord upper j) :
    Problem.checkBounds what n lower upper = .ok () := by
  have hfind : ((lower.zip upper).zipIdx.find? fun e => !decide (e.1.1 ≤ e.1.2)) = none := by
    rw [List.find?_eq_none]
    rintro ⟨⟨l, u⟩, j⟩ hmem
    rw [List.mem_zipIdx_iff_getElem?, List.getElem?_zip_eq_some] at hmem
    obtain ⟨hlj, huj⟩ := hmem
    have hj : j < n := hl ▸ (List.getElem?_eq_some_iff.mp hlj).1
    have hbound := hle j hj
    simp [Vec.coord, hlj, huj] at hbound
    simpa using hbound
  unfold Problem.checkBounds
  rw [if_neg (by simp [hl, hu]), hfind]

/-- What a problem that passes the checks satisfies. -/
structure Problem.Passes (p : Problem α) (opt : Options α) (checked : Checked α) : Prop where
  options : opt.validate = .ok ()
  pointBounds : checkBounds .point p.variableCount p.xmin p.xmax = .ok ()
  valueBounds : checkBounds .values p.constraintCount p.gmin p.gmax = .ok ()
  unconstrained : p.constraints = none → p.constraintCount = 0
  curvature : p.curvature opt.hessian = .ok checked.curvature
  multipliers : p.startMultipliers = .ok checked.multipliers

theorem Problem.passes_of_check {p : Problem α} {opt : Options α} {checked : Checked α}
    (h : p.check opt = .ok checked) : p.Passes opt checked := by
  unfold Problem.check at h
  rcases except_bind_eq_ok.mp h with ⟨_, hv, h⟩
  rcases except_bind_eq_ok.mp h with ⟨_, hx, h⟩
  rcases except_bind_eq_ok.mp h with ⟨_, hg, h⟩
  split at h
  · cases h
  · rename_i hnone
    rcases except_bind_eq_ok.mp h with ⟨c, hc, h⟩
    rcases except_bind_eq_ok.mp h with ⟨lam, hm, h⟩
    obtain rfl := Except.ok.inj h
    exact ⟨except_mapError_eq_ok.mp hv, hx, hg, by simpa using hnone, hc, hm⟩

theorem Problem.check_of_passes {p : Problem α} {opt : Options α} {checked : Checked α}
    (h : p.Passes opt checked) : p.check opt = .ok checked := by
  unfold Problem.check
  refine except_bind_eq_ok.mpr ⟨(), except_mapError_eq_ok.mpr h.options, ?_⟩
  refine except_bind_eq_ok.mpr ⟨(), h.pointBounds, ?_⟩
  refine except_bind_eq_ok.mpr ⟨(), h.valueBounds, ?_⟩
  rw [if_neg (by simpa using h.unconstrained)]
  refine except_bind_eq_ok.mpr ⟨checked.curvature, h.curvature, ?_⟩
  exact except_bind_eq_ok.mpr ⟨checked.multipliers, h.multipliers, rfl⟩

theorem startMultipliers_length {p : Problem α} {lam : Multipliers α}
    (h : p.startMultipliers = .ok lam) :
    lam.x.length = p.variableCount ∧ lam.g.length = p.constraintCount := by
  unfold Problem.startMultipliers at h
  split at h
  · obtain rfl := Except.ok.inj h
    simp
  · dsimp only at h
    split at h
    · cases h
    · rename_i hlen
      obtain rfl := Except.ok.inj h
      rwa [not_or, not_not, not_not] at hlen

namespace Task

variable {t : Task α}

/-! ## Evaluations -/

omit [Scalar α] in
theorem require_eq_ok {β : Type} {what : Evaluator} {x : List α} {answer : Evaluated β} {b : β} :
    (require what x answer).outcome = .ok b ↔ answer = .ok b := by
  unfold require
  rw [outcome_bind_eq_ok]
  cases answer with
  | ok c => simp
  | error e =>
      cases e with
      | error cause => simp [outcome_bind_eq_ok, Journaled.fail]
      | fault f => simp [Journaled.fail]

omit [Scalar α] in
theorem gradientAt_eq_ok {m : Moment} {x gradF : List α} {f : α} :
    (t.gradientAt m x).outcome = .ok (f, gradF) ↔
      t.problem.objective.gradient m x = .ok (f, gradF) ∧
        gradF.length = t.problem.variableCount := by
  unfold gradientAt
  rw [outcome_bind_eq_ok]
  constructor
  · rintro ⟨⟨f', gradF'⟩, hreq, h⟩
    rw [require_eq_ok] at hreq
    dsimp only at h
    split at h
    · cases h
    · rename_i hlen
      obtain ⟨rfl, rfl⟩ := Prod.mk.inj (Except.ok.inj h)
      exact ⟨hreq, not_not.mp hlen⟩
  · rintro ⟨hreq, hlen⟩
    refine ⟨(f, gradF), require_eq_ok.mpr hreq, ?_⟩
    simp only [hlen, ne_eq, not_true_eq_false, if_false]
    rfl

omit [Scalar α] in
theorem objectiveAt_eq_ok {m : Moment} {x : List α} {f : α} :
    (t.objectiveAt m x).outcome = .ok f ↔ t.problem.objective.value m x = .ok f := by
  unfold objectiveAt
  simp only [outcome_bind_eq_ok]
  constructor
  · rintro ⟨_, _, f', hf, _, _, h⟩
    obtain rfl := Except.ok.inj h
    exact hf
  · intro hf
    exact ⟨(), rfl, f, hf, (), rfl, rfl⟩

/-- The constraint values that a trial point may have. -/
def ValuesAnswer (t : Task α) (m : Moment) (x g : List α) : Prop :=
  match t.problem.constraints with
  | none => g = []
  | some c => c.values m x = .ok g ∧ g.length = t.problem.constraintCount

omit [Scalar α] in
theorem constraintsAt_eq_ok {m : Moment} {x g : List α} :
    (t.constraintsAt m x).outcome = .ok g ↔ t.ValuesAnswer m x g := by
  unfold constraintsAt ValuesAnswer
  cases t.problem.constraints with
  | none => simp [eq_comm]
  | some c =>
      simp only [outcome_bind_eq_ok]
      constructor
      · rintro ⟨_, _, g', hg, h⟩
        split at h
        · cases h
        · rename_i hlen
          obtain rfl := Except.ok.inj h
          exact ⟨hg, not_not.mp hlen⟩
      · rintro ⟨hg, hlen⟩
        refine ⟨(), rfl, g, hg, ?_⟩
        simp only [hlen, ne_eq, not_true_eq_false, if_false]
        rfl

/-- A trial point has a merit just when the objective and the constraints have values there. -/
theorem meritAt_eq_ok {sigma merit : α} {m : Moment} {x : List α} :
    (t.meritAt sigma m x).outcome = .ok merit ↔
      ∃ f g, t.problem.objective.value m x = .ok f ∧ t.ValuesAnswer m x g ∧
        merit = l1Merit f sigma (t.infeasibilityAt x g) := by
  unfold meritAt
  simp only [outcome_bind_eq_ok, objectiveAt_eq_ok, constraintsAt_eq_ok]
  constructor
  · rintro ⟨f, hf, g, hg, h⟩
    exact ⟨f, g, hf, hg, (Except.ok.inj h).symm⟩
  · rintro ⟨f, g, hf, hg, rfl⟩
    exact ⟨f, hf, g, hg, rfl⟩

/-- The constraint values and the Jacobian that an evaluation at a point may answer. -/
def JacobianAnswer (t : Task α) (m : Moment) (x g : List α) (jac : SparseMatrix α) : Prop :=
  match t.problem.constraints with
  | none => g = [] ∧ jac = .empty 0 t.problem.variableCount
  | some c => c.jacobian m x = .ok (g, jac) ∧ g.length = t.problem.constraintCount ∧
      jac.height = t.problem.constraintCount ∧ jac.cols = t.problem.variableCount

omit [Scalar α] in
theorem jacobianAt_eq_ok {m : Moment} {x g : List α} {jac : SparseMatrix α} :
    (t.jacobianAt m x).outcome = .ok (g, jac) ↔ t.JacobianAnswer m x g jac := by
  unfold jacobianAt JacobianAnswer
  cases t.problem.constraints with
  | none => simp [eq_comm]
  | some c =>
      simp only [outcome_bind_eq_ok, require_eq_ok]
      constructor
      · rintro ⟨⟨g', jac'⟩, hreq, h⟩
        split at h
        · cases h
        · rename_i hshape
          obtain ⟨rfl, rfl⟩ := Prod.mk.inj (Except.ok.inj h)
          simp only [not_or, not_not] at hshape
          exact ⟨hreq, hshape⟩
      · rintro ⟨hreq, hshape⟩
        refine ⟨(g, jac), hreq, ?_⟩
        simp only [hshape, ne_eq, not_true_eq_false, or_self, if_false]
        rfl

theorem hessianAt_eq_ok {hessian : LagrangianHessian α} {m : Moment} {x lam : List α}
    {r : SparseMatrix α × α} :
    (t.hessianAt hessian m x lam).outcome = .ok r ↔
      ∃ h, hessian m x lam 1 = .ok h ∧ h.height = t.problem.variableCount ∧
        h.cols = t.problem.variableCount ∧ conditioned? t.options.regularize h = some r := by
  unfold hessianAt
  simp only [outcome_bind_eq_ok, require_eq_ok]
  constructor
  · rintro ⟨h, hreq, hout⟩
    split at hout
    · cases hout
    · rename_i hshape
      rw [not_or, not_not, not_not] at hshape
      exact ⟨h, hreq, hshape.1, hshape.2, Failure.ofOption_eq_ok_iff.mp hout⟩
  · rintro ⟨h, hreq, hheight, hcols, hcond⟩
    refine ⟨h, hreq, ?_⟩
    simp only [hheight, hcols, ne_eq, not_true_eq_false, or_self, if_false]
    exact Failure.ofOption_eq_ok_iff.mpr hcond

omit [Scalar α] in
theorem JacobianAnswer.shape {m : Moment} {x g : List α} {jac : SparseMatrix α}
    (h : t.JacobianAnswer m x g jac)
    (hnone : t.problem.constraints = none → t.problem.constraintCount = 0) :
    g.length = t.problem.constraintCount ∧ jac.height = t.problem.constraintCount ∧
      jac.cols = t.problem.variableCount := by
  unfold JacobianAnswer at h
  cases hc : t.problem.constraints with
  | none =>
      rw [hc] at h
      rcases h with ⟨rfl, rfl⟩
      simp [hnone hc, SparseMatrix.empty]
  | some c =>
      rw [hc] at h
      exact h.2

/-! ## Start -/

/-- What the iterate at the first head of the loop holds. -/
structure Started (t : Task α) (lam : Multipliers α) (s : Iterate α) : Prop where
  iter : s.iter = 0
  x : s.x = t.problem.x0
  multipliers : s.multipliers = lam
  values : t.JacobianAnswer ⟨0, 0⟩ s.x s.g s.jacobian
  gradient : (t.gradientAt ⟨0, 0⟩ s.x).outcome = .ok (s.f, s.gradF)
  readable : s.jacobian.Readable
  lagrangian : s.gradLagrangian = lagrangianGradient s.gradF s.jacobian s.multipliers
  hessian : (t.startHessian lam).outcome = .ok (s.hessian, s.regularization)
  step : s.step = Vec.zeros t.problem.variableCount
  sigma : s.sigma = 0
  merits : MeritWindow.new? t.options.meritMemory = some s.merits
  searchTrials : s.searchTrials = 0
  searchSuccess : s.searchSuccess = true
  searchFailures : s.searchFailures = 0

theorem started_of_start {lam : Multipliers α} {s : Iterate α}
    (h : (t.start lam).outcome = .ok s) : t.Started lam s := by
  unfold start at h
  rcases outcome_bind_eq_ok.mp h with ⟨⟨g, jac⟩, hjac, h⟩
  rcases outcome_bind_eq_ok.mp h with ⟨⟨f, gradF⟩, hgrad, h⟩
  rcases outcome_bind_eq_ok.mp h with ⟨⟨hess, reg⟩, hhess, h⟩
  rcases outcome_bind_eq_ok.mp h with ⟨_, _, h⟩
  rcases outcome_bind_eq_ok.mp h with ⟨_, hread, h⟩
  rcases outcome_bind_eq_ok.mp h with ⟨merits, hmerits, h⟩
  obtain rfl := Except.ok.inj h
  exact {
    iter := rfl
    x := rfl
    multipliers := rfl
    values := jacobianAt_eq_ok.mp hjac
    gradient := hgrad
    readable := Failure.ensure_eq_ok_iff.mp hread
    lagrangian := rfl
    hessian := hhess
    step := rfl
    sigma := rfl
    merits := Failure.ofOption_eq_ok_iff.mp hmerits
    searchTrials := rfl
    searchSuccess := rfl
    searchFailures := rfl }

/-- A run starts where its first evaluations succeed, with room for the merits. -/
theorem exists_start {lam : Multipliers α} {g gradF : List α} {f : α} {jac : SparseMatrix α}
    {h : SparseMatrix α × α} (hjac : (t.jacobianAt ⟨0, 0⟩ t.problem.x0).outcome = .ok (g, jac))
    (hgrad : (t.gradientAt ⟨0, 0⟩ t.problem.x0).outcome = .ok (f, gradF))
    (hhess : (t.startHessian lam).outcome = .ok h) (hread : jac.Readable)
    (hroom : Vec.fits (t.options.meritMemory + 1)) :
    ∃ s, (t.start lam).outcome = .ok s := by
  have hmerits := MeritWindow.new?_eq_some_iff.mpr
    ⟨hroom, (rfl : MeritWindow.new (α := α) t.options.meritMemory = _)⟩
  unfold start
  refine exists_ok_bind hjac (exists_ok_bind hgrad (exists_ok_bind hhess ?_))
  refine exists_ok_bind (outcome_note _) ?_
  refine exists_ok_bind (Failure.ensure_eq_ok_iff.mpr hread) ?_
  exact exists_ok_bind (Failure.ofOption_eq_ok_iff.mpr hmerits) ⟨_, rfl⟩

/-! ## One iteration -/

/-- What one iteration from `s` with the solution `sol` of its subproblem leads to. -/
structure Stepped (t : Task α) (s : Iterate α) (sol : QuadraticSolution α) (s' : Iterate α) :
    Prop where
  solved : (t.backend (s.iter + 1) (t.subproblem s) s.step).outcome = .ok sol
  length_x : sol.x.length = t.problem.variableCount
  length_lamX : sol.lamX.length = t.problem.variableCount
  length_lamA : sol.lamA.length = t.problem.constraintCount
  hessian_readable : s.hessian.Readable
  no_fault : (t.search s sol).fault? = none
  iter : s'.iter = s.iter + 1
  x : s'.x = (t.search s sol).point
  multipliers : s'.multipliers = t.nextMultipliers s sol (t.search s sol).t
  values : t.JacobianAnswer ⟨s.iter + 1, 0⟩ s'.x s'.g s'.jacobian
  gradient : (t.gradientAt ⟨s.iter + 1, 0⟩ s'.x).outcome = .ok (s'.f, s'.gradF)
  readable : s'.jacobian.Readable
  lagrangian : s'.gradLagrangian = lagrangianGradient s'.gradF s'.jacobian s'.multipliers
  hessian : (t.nextHessian s s'.x s'.gradLagrangian s'.multipliers).outcome =
    .ok (s'.hessian, s'.regularization)
  step : s'.step = sol.x
  sigma : s'.sigma = nextSigma s.sigma sol
  merits : s'.merits = t.nextMerits s sol
  searchTrials : s'.searchTrials = (t.search s sol).trials.length
  searchSuccess : s'.searchSuccess = (t.search s sol).success

theorem solveSubproblem_eq_ok {s : Iterate α} {sol : QuadraticSolution α} :
    (t.solveSubproblem s).outcome = .ok sol ↔
      (t.backend (s.iter + 1) (t.subproblem s) s.step).outcome = .ok sol ∧
        sol.x.length = t.problem.variableCount ∧ sol.lamX.length = t.problem.variableCount ∧
        sol.lamA.length = t.problem.constraintCount := by
  unfold solveSubproblem
  simp only [outcome_bind_eq_ok, outcome_mapEntries_eq_ok]
  constructor
  · rintro ⟨_, _, answer, hback, h⟩
    split at h
    · cases h
    · rename_i hshape
      obtain rfl := Except.ok.inj h
      simp only [not_or, not_not] at hshape
      exact ⟨hback, hshape⟩
  · rintro ⟨hback, hshape⟩
    refine ⟨(), rfl, sol, hback, ?_⟩
    simp only [hshape, ne_eq, not_true_eq_false, or_self, if_false]
    rfl

/-- The multipliers keep their lengths. -/
theorem length_nextMultipliers {s : Iterate α} {sol : QuadraticSolution α} {n m : ℕ}
    (hx : s.multipliers.x.length = n) (hg : s.multipliers.g.length = m)
    (hlamX : sol.lamX.length = n) (hlamA : sol.lamA.length = m) (length : α) :
    (t.nextMultipliers s sol length).x.length = n ∧
      (t.nextMultipliers s sol length).g.length = m := by
  unfold nextMultipliers
  split
  · simp [hx, hg, hlamX, hlamA]
  · exact ⟨hlamX, hlamA⟩

/-- An iteration leads where `Stepped` says, and a search that does not succeed is counted. -/
theorem stepped_and_failures_of_step {s s' : Iterate α} (h : (t.step s).outcome = .ok s') :
    ∃ sol, t.Stepped s sol s' ∧
      s'.searchFailures = s.searchFailures + if s'.searchSuccess then 0 else 1 := by
  unfold Task.step at h
  rcases outcome_bind_eq_ok.mp h with ⟨sol, hsol, h⟩
  rcases outcome_bind_eq_ok.mp h with ⟨_, _, h⟩
  rcases outcome_bind_eq_ok.mp h with ⟨_, hread, h⟩
  rcases outcome_bind_eq_ok.mp h with ⟨_, _, h⟩
  rcases outcome_bind_eq_ok.mp h with ⟨_, _, h⟩
  obtain ⟨hsolved, hx, hlamX, hlamA⟩ := solveSubproblem_eq_ok.mp hsol
  cases hfault : (t.search s sol).fault? with
  | some fault =>
      simp only [hfault] at h
      cases h
  | none =>
      simp only [hfault] at h
      rcases outcome_bind_eq_ok.mp h with ⟨⟨g, jac⟩, hjac, h⟩
      rcases outcome_bind_eq_ok.mp h with ⟨⟨f, gradF⟩, hgrad, h⟩
      rcases outcome_bind_eq_ok.mp h with ⟨_, hjread, h⟩
      rcases outcome_bind_eq_ok.mp h with ⟨⟨hess, reg⟩, hhess, h⟩
      obtain rfl := Except.ok.inj h
      refine ⟨sol, ?_, rfl⟩
      exact {
        solved := hsolved
        length_x := hx
        length_lamX := hlamX
        length_lamA := hlamA
        hessian_readable := Failure.ensure_eq_ok_iff.mp hread
        no_fault := hfault
        iter := rfl
        x := rfl
        multipliers := rfl
        values := jacobianAt_eq_ok.mp hjac
        gradient := hgrad
        readable := Failure.ensure_eq_ok_iff.mp hjread
        lagrangian := rfl
        hessian := hhess
        step := rfl
        sigma := rfl
        merits := rfl
        searchTrials := rfl
        searchSuccess := rfl }

theorem stepped_of_step {s s' : Iterate α} (h : (t.step s).outcome = .ok s') :
    ∃ sol, t.Stepped s sol s' := by
  obtain ⟨sol, hstep, -⟩ := stepped_and_failures_of_step h
  exact ⟨sol, hstep⟩

theorem searchFailures_of_step {s s' : Iterate α} (h : (t.step s).outcome = .ok s') :
    s'.searchFailures = s.searchFailures + if s'.searchSuccess then 0 else 1 := by
  obtain ⟨-, -, hfailures⟩ := stepped_and_failures_of_step h
  exact hfailures

theorem Stepped.solveSubproblem {s s' : Iterate α} {sol : QuadraticSolution α}
    (h : t.Stepped s sol s') : (t.solveSubproblem s).outcome = .ok sol :=
  solveSubproblem_eq_ok.mpr ⟨h.solved, h.length_x, h.length_lamX, h.length_lamA⟩

/-- An iteration comes to its end when the subproblem is solved, the search meets no fault, and
the problem can be evaluated where it ends. -/
theorem exists_step {s : Iterate α} {sol : QuadraticSolution α} {g gradF : List α} {f : α}
    {jac : SparseMatrix α} {h : SparseMatrix α × α}
    (hsol : (t.solveSubproblem s).outcome = .ok sol) (hread : s.hessian.Readable)
    (hfault : (t.search s sol).fault? = none)
    (hjac : (t.jacobianAt ⟨s.iter + 1, 0⟩ (t.search s sol).point).outcome = .ok (g, jac))
    (hgrad : (t.gradientAt ⟨s.iter + 1, 0⟩ (t.search s sol).point).outcome = .ok (f, gradF))
    (hjread : jac.Readable)
    (hhess : (t.nextHessian s (t.search s sol).point
      (lagrangianGradient gradF jac (t.nextMultipliers s sol (t.search s sol).t))
      (t.nextMultipliers s sol (t.search s sol).t)).outcome = .ok h) :
    ∃ next, (t.step s).outcome = .ok next := by
  unfold step
  refine exists_ok_bind hsol (exists_ok_bind (outcome_note _) ?_)
  refine exists_ok_bind (Failure.ensure_eq_ok_iff.mpr hread) ?_
  refine exists_ok_bind (outcome_note _) (exists_ok_bind (outcome_note _) ?_)
  simp only [hfault]
  refine exists_ok_bind hjac (exists_ok_bind hgrad ?_)
  refine exists_ok_bind (Failure.ensure_eq_ok_iff.mpr hjread) ?_
  exact exists_ok_bind hhess ⟨_, rfl⟩

/-! ## Verdicts -/

/-- A run converges where the callback lets it and both tests hold. -/
theorem verdict_eq_converged_iff {s : Iterate α} :
    t.verdict s = some .converged ↔ t.stopRequested s = false ∧
      t.infeasibility s < t.options.tolPrimal ∧
      Vec.normInf s.gradLagrangian < t.options.tolDual := by
  unfold verdict
  dsimp only
  split
  · rename_i hstop
    simp [hstop]
  · rename_i hstop
    rw [Bool.not_eq_true] at hstop
    split
    · rename_i hconv
      exact iff_of_true rfl ⟨hstop, hconv⟩
    · rename_i hconv
      refine iff_of_false ?_ fun h => hconv h.2
      split
      · nofun
      · split <;> nofun

theorem converged_of_verdict {s : Iterate α} (h : t.verdict s = some .converged) :
    t.infeasibility s < t.options.tolPrimal ∧
      Vec.normInf s.gradLagrangian < t.options.tolDual :=
  (verdict_eq_converged_iff.mp h).2

theorem verdict_eq_none {s : Iterate α} (hstop : t.stopRequested s = false)
    (hconv : ¬(t.infeasibility s < t.options.tolPrimal ∧
      Vec.normInf s.gradLagrangian < t.options.tolDual))
    (hiter : s.iter < t.options.maxIter)
    (hstep : ¬(0 < s.iter ∧ Vec.normInf s.step ≤ t.options.minStepSize)) :
    t.verdict s = none := by
  unfold verdict
  rw [if_neg (by simp [hstop])]
  exact (if_neg hconv).trans ((if_neg hiter.not_ge).trans (if_neg hstep))

end Task

end Nonlinear

end SeqQuad
