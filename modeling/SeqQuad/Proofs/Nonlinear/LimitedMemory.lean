import SeqQuad.Proofs.Curvature.Update
import SeqQuad.Proofs.Nonlinear.Run

/-!
# Runs with a BFGS approximation

In every run the approximation stores all positions and is positive definite, from the identity
at the start through updates, skipped updates and resets. Nothing is asked of the problem or of
the solver of the subproblems: their answers need not even be real numbers.
-/

namespace SeqQuad

open Extended SparseMatrix

/-- The pattern of the dense identity with the values of a positive definite matrix. -/
structure Bfgs.StoredPosDef (n : ℕ) (B : SparseMatrix Extended) : Prop where
  cols : B.cols = n
  starts : B.starts = (denseIdentity n (1 : Extended)).starts
  columns : B.columns = (denseIdentity n (1 : Extended)).columns
  stored : B.stored = n * n
  real : B.IsReal
  symmetric : (B.dense n n).IsSymm
  posDef : (B.dense n n).PosDef

theorem Bfgs.FullPosDef.storedPosDef {n : ℕ} {B : SparseMatrix Extended}
    (h : Bfgs.FullPosDef n B) : Bfgs.StoredPosDef n B := by
  rcases h with ⟨⟨f, rfl⟩, hreal, hpos⟩
  exact {
    cols := cols_ofFunction
    starts := by rw [denseIdentity_eq]; exact starts_ofFunction _
    columns := by rw [denseIdentity_eq]; exact columns_ofFunction _
    stored := stored_ofFunction
    real := hreal
    symmetric := Matrix.isHermitian_iff_isSymm.mp hpos.isHermitian
    posDef := hpos }

/-- The divisions of an update of `B` along a step: that of the damping factor, and when the
update is applied those by the damped curvature and by the curvature of `B`. -/
structure Bfgs.SafeUpdate (B : SparseMatrix Extended) (x xOld glag glagOld : List Extended)
    (minCurvature : Extended) : Prop where
  damping : ∀ q, B.mulVec (Vec.sub x xOld) = .ok q →
    Vec.dot (Vec.sub x xOld) (Vec.sub glag glagOld) < 0.2 * Vec.dot (Vec.sub x xOld) q →
    0 < Vec.dot (Vec.sub x xOld) q - Vec.dot (Vec.sub x xOld) (Vec.sub glag glagOld)
  applied : ∀ B' omega, Bfgs.update? B x xOld glag glagOld minCurvature =
      some (B', .applied omega) →
    ∃ w sBs sy : ℝ, omega = w ∧ 0 < w ∧ w ≤ 1 ∧
      Vec.dot (Vec.sub x xOld) (B.apply (Vec.sub x xOld)) = sBs ∧ 0 < sBs ∧
      Vec.dot (Vec.sub x xOld)
        (Bfgs.damped omega (Vec.sub glag glagOld) (B.apply (Vec.sub x xOld))) = sy ∧
      0.2 * sBs ≤ sy

theorem Bfgs.FullPosDef.safeUpdate {n : ℕ} {B : SparseMatrix Extended}
    (h : Bfgs.FullPosDef n B) {minCurvature : Extended} (hm : minCurvature ≠ nan)
    (hm0 : ¬minCurvature < 0) (x xOld glag glagOld : List Extended) :
    Bfgs.SafeUpdate B x xOld glag glagOld minCurvature where
  damping q hq hlow := by
    rcases mulVec_eq_ok_iff.mp hq with ⟨hlen, _, rfl⟩
    rw [h.cols_eq] at hlen
    exact Bfgs.divisor_pos (h.curvature_nonneg hlen) hlow
  applied B' omega hupdate := by
    rcases Bfgs.update?_cases hupdate with ⟨_, hne⟩ | ⟨omega', homega, happlied⟩
    · exact absurd rfl (hne omega)
    · cases homega
      exact (h.applied hm hm0 happlied).2

namespace Nonlinear

open Bfgs

/-- The matrix that the update after a head starts from. -/
noncomputable def updateBase (opt : Options Extended) (s : Iterate Extended) :
    SparseMatrix Extended :=
  if (s.iter + 1) % opt.resetPeriod = 0 then reset s.hessian else s.hessian

theorem minCurvature_nonneg {α : Type} [Scalar α] {opt : Options α}
    (h : opt.validate = .ok ()) : ¬opt.minCurvature < 0 :=
  (Options.valid_of_validate h).minCurvature

section Heads

variable {t : Task Extended} {s s' : Iterate Extended}

theorem FullPosDef.updateBase {n : ℕ} (h : FullPosDef n s.hessian) (opt : Options Extended) :
    FullPosDef n (updateBase opt s) := by
  unfold Nonlinear.updateBase
  split
  · exact h.reset
  · exact h

theorem nextApproximation_eq_ok {x glag glagOld : List Extended} {B : SparseMatrix Extended}
    (h : (t.nextApproximation s x glag glagOld).outcome = .ok B) :
    ∃ outcome, update? (updateBase t.options s) x s.x glag glagOld t.options.minCurvature =
      some (B, outcome) := by
  unfold Task.nextApproximation at h
  rcases Journaled.outcome_bind_eq_ok.mp h with ⟨_, _, h⟩
  rcases Journaled.outcome_bind_eq_ok.mp h with ⟨⟨b, outcome⟩, hupdate, h⟩
  rcases Journaled.outcome_bind_eq_ok.mp h with ⟨_, _, h⟩
  obtain rfl := Except.ok.inj h
  have hsome := Failure.ofOption_eq_ok_iff.mp hupdate
  refine ⟨outcome, ?_⟩
  rw [← hsome, updateBase]

theorem fullPosDef_of_started (hmode : t.curvature = .limitedMemory)
    {lam : Multipliers Extended} (h : t.Started lam s) :
    FullPosDef t.problem.variableCount s.hessian := by
  have hstart := h.hessian
  rw [Task.startHessian, hmode] at hstart
  obtain ⟨hhess, _⟩ := Prod.mk.inj (Except.ok.inj hstart)
  rw [← hhess]
  exact fullPosDef_initial _

/-- An iteration updates the approximation with the gradients of the Lagrangian at its two points
under the multipliers after it. -/
theorem update_of_stepped (hmode : t.curvature = .limitedMemory) {sol : QuadraticSolution Extended}
    (h : t.Stepped s sol s') :
    ∃ outcome, update? (updateBase t.options s) s'.x s.x s'.gradLagrangian
      (lagrangianGradient s.gradF s.jacobian s'.multipliers) t.options.minCurvature =
        some (s'.hessian, outcome) := by
  have hnext := h.hessian
  rw [Task.nextHessian, hmode] at hnext
  rcases Journaled.outcome_bind_eq_ok.mp hnext with ⟨b, hb, hpair⟩
  obtain ⟨hhess, _⟩ := Prod.mk.inj (Except.ok.inj hpair)
  rw [← hhess]
  exact nextApproximation_eq_ok hb

theorem fullPosDef_of_stepped (hmode : t.curvature = .limitedMemory)
    (hopt : t.options.validate = .ok ()) (hmin : t.options.minCurvature ≠ nan)
    {sol : QuadraticSolution Extended} (hs : FullPosDef t.problem.variableCount s.hessian)
    (h : t.Stepped s sol s') : FullPosDef t.problem.variableCount s'.hessian := by
  obtain ⟨outcome, hupdate⟩ := update_of_stepped hmode h
  exact (FullPosDef.updateBase hs t.options).update hmin (minCurvature_nonneg hopt) hupdate

end Heads

section Runs

variable {opt : Options Extended} {backend : Backend Extended}
  {callback : Option (Snapshot Extended → Bool)} {p : Problem Extended}

theorem Problem.curvature_limitedMemory {checked : Checked Extended}
    (h : p.Passes opt checked) (hmode : opt.hessian = .limitedMemory) :
    checked.curvature = .limitedMemory := by
  have hcurv := h.curvature
  rw [hmode, Problem.curvature] at hcurv
  exact (Except.ok.inj hcurv).symm

theorem fullPosDef_of_mem_runHeads (hmode : opt.hessian = .limitedMemory)
    (hmin : opt.minCurvature ≠ nan) : ∀ s ∈ runHeads opt backend callback p,
      opt.validate = .ok () ∧ FullPosDef p.variableCount s.hessian := by
  intro s hs
  obtain ⟨checked, hpass, hfull⟩ := runHeads_induction
    (P := fun _ s => FullPosDef p.variableCount s.hessian)
    (fun checked first hpass hfirst =>
      fullPosDef_of_started (p.curvature_limitedMemory hpass hmode) hfirst)
    (fun checked s sol s' hpass h _ hstep =>
      fullPosDef_of_stepped (p.curvature_limitedMemory hpass hmode) hpass.options hmin h hstep) s hs
  exact ⟨hpass.options, hfull⟩

/-- Every approximation that is handed to the solver of the subproblems stores all positions and
is positive definite, and every update, to whatever point and with whatever gradients, damps by a
factor in range and divides by positive numbers. -/
theorem approximation_posDef (hmode : opt.hessian = .limitedMemory)
    (hmin : opt.minCurvature ≠ nan) :
    (∀ q ∈ subproblems (solve opt backend callback p).journal,
      StoredPosDef p.variableCount q.1.h) ∧
    ∀ s ∈ runHeads opt backend callback p, ∀ x glag glagOld,
      SafeUpdate (updateBase opt s) x s.x glag glagOld opt.minCurvature := by
  constructor
  · intro q hq
    obtain ⟨checked, s, _, hs, rfl⟩ := exists_head_of_mem_subproblems hq
    exact (fullPosDef_of_mem_runHeads hmode hmin s hs).2.storedPosDef
  · intro s hs x glag glagOld
    obtain ⟨hopt, hfull⟩ := fullPosDef_of_mem_runHeads hmode hmin s hs
    exact (FullPosDef.updateBase hfull opt).safeUpdate hmin (minCurvature_nonneg hopt) x s.x glag
      glagOld

end Runs

/-! ## A run without bounds -/

section Slope

/-- Minimize `x` without bounds. -/
noncomputable def slide : Problem Extended where
  objective := ⟨fun _ x => .ok (Vec.coord x 0), fun _ x => .ok (Vec.coord x 0, [1])⟩
  constraints := none
  hessian := none
  x0 := [0]
  xmin := [negInf]
  xmax := [posInf]
  gmin := []
  gmax := []
  multipliers := none

noncomputable def slideOptions : Options Extended :=
  { Options.default with hessian := .limitedMemory }

noncomputable def silentBackend : Backend Extended :=
  fun _ _ _ => .fail (.error (.external [] "no answer"))

theorem slide_check : slide.check slideOptions =
    .ok ⟨.limitedMemory, ⟨[], [0]⟩⟩ :=
  Problem.check_of_passes {
    options := by
      simp only [Options.validate, slideOptions, Options.default, ofScientific_eq, zero_eq,
        one_eq, real_lt_real]
      norm_num
    pointBounds := by simp [Problem.checkBounds, Problem.variableCount, slide]
    valueBounds := rfl
    unconstrained := fun _ => rfl
    curvature := rfl
    multipliers := rfl }

/-- The approximation of the first subproblem is as all of them are. -/
theorem slide_approximation_posDef :
    slideOptions.hessian = .limitedMemory ∧ slideOptions.minCurvature ≠ nan ∧
    ∃ q ∈ subproblems (solve slideOptions silentBackend none slide).journal,
      StoredPosDef 1 q.1.h := by
  have hmin : slideOptions.minCurvature ≠ nan := by
    simp [slideOptions, Options.default]
  obtain ⟨first, hstart, hlag, hiter⟩ : ∃ first,
      ((taskOf slideOptions silentBackend none slide ⟨.limitedMemory, ⟨[], [0]⟩⟩).start
        ⟨[], [0]⟩).outcome = .ok first ∧ first.gradLagrangian = [1 + 0 + 0] ∧ first.iter = 0 :=
    ⟨_, rfl, rfl, rfl⟩
  have hdual : ¬Vec.normInf first.gradLagrangian < slideOptions.tolDual := by
    rw [hlag]
    simp [Vec.normInf, slideOptions, Options.default]
    norm_num
  have hverdict : (taskOf slideOptions silentBackend none slide
      ⟨.limitedMemory, ⟨[], [0]⟩⟩).verdict first = none := by
    refine Task.verdict_eq_none rfl (fun h => hdual h.2) ?_ ?_
    · rw [hiter]
      decide
    · rw [hiter]
      exact fun h => absurd h.1 (lt_irrefl 0)
  have hmem := mem_subproblems_of_start slide_check hstart hverdict (by decide)
  exact ⟨rfl, hmin, _, hmem, (approximation_posDef rfl hmin).1 _ hmem⟩

end Slope

end Nonlinear

end SeqQuad
