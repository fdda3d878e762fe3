import SeqQuad.Proofs.CentralDifference.Shapes
import SeqQuad.Proofs.Nonlinear.Refusals

/-!
# Runs with differenced Jacobians

A Jacobian by central differences has one fault of its own: it reads past the end of a value that
is shorter beside the point than at it. Every other answer is the failure of the function or a
matrix of the right shape, and the run makes of it what it makes of any Jacobian.
-/

namespace SeqQuad.Nonlinear

open CentralDifference Journaled

variable {α : Type}

/-! ## Jacobians that end a run -/

/-- Calls that were made stay where they are, whatever follows. -/
theorem getElem?_points_bind {β γ : Type} {what : Evaluator} {c : Run α β} {f : β → Run α γ}
    {k : ℕ} {x : List α} (h : (pointsOf what (calls c.journal))[k]? = some x) :
    (pointsOf what (calls (c >>= f).journal))[k]? = some x := by
  cases hc : c.outcome with
  | ok b =>
      rw [Task.calls_bind_of_ok hc, pointsOf_append,
        List.getElem?_append_left (List.getElem?_eq_some_iff.mp h).1, h]
  | error e => rw [bind_of_error f hc, h]

namespace Task

variable {t : Task α} {m : Moment} {x : List α} {c : Constraints α}

theorem outcome_require_of_error {β : Type} {what : Evaluator} {answer : Evaluated β}
    {e : Failure EvaluationError} (h : answer = .error e) :
    (require what x answer).outcome = .error (e.map (.evaluation what)) := by
  subst h
  cases e <;> rfl

theorem jacobianAt_of_error {e : Failure EvaluationError} (hc : t.problem.constraints = some c)
    (h : c.jacobian m x = .error e) :
    (t.jacobianAt m x).outcome = .error (e.map (.evaluation .jacobian)) := by
  unfold jacobianAt
  rw [hc]
  dsimp only
  rw [bind_of_error _ (outcome_require_of_error h)]

end Task

variable [Scalar α]

section Whole

variable {opt : Options α} {backend : Backend α} {callback : Option (Snapshot α → Bool)}
  {p : Problem α} {checked : Checked α} {c : Constraints α} {k : ℕ} {x : List α}

/-- The first Jacobian is asked for at the starting point, whatever becomes of the run. -/
theorem first_jacobian_point (hc : p.check opt = .ok checked) (hp : p.constraints = some c) :
    (pointsOf .jacobian (calls (solve opt backend callback p).journal))[0]? = some p.x0 := by
  rw [solve_of_check hc]
  refine getElem?_points_bind ?_
  unfold Task.start
  refine getElem?_points_bind ?_
  rw [Task.calls_jacobianAt, if_pos (by simp [taskOf, hp])]
  rfl

/-- A Jacobian that fails ends the run. -/
theorem solve_of_jacobian_error {e : Failure EvaluationError} (hp : p.constraints = some c)
    (hx : (pointsOf .jacobian (calls (solve opt backend callback p).journal))[k]? = some x)
    (h : c.jacobian ⟨k, 0⟩ x = .error e) :
    (solve opt backend callback p).outcome = .error (e.map (.evaluation .jacobian)) :=
  solve_of_failsAt hx fun _ _ => Task.jacobianAt_of_error hp h

/-- A Jacobian of wrong dimensions, or with the wrong number of values, ends the run. -/
theorem solve_of_jacobian_shape {g : List α} {jac : SparseMatrix α} (hp : p.constraints = some c)
    (hx : (pointsOf .jacobian (calls (solve opt backend callback p).journal))[k]? = some x)
    (h : c.jacobian ⟨k, 0⟩ x = .ok (g, jac))
    (hshape : g.length ≠ p.constraintCount ∨ jac.height ≠ p.constraintCount ∨
      jac.cols ≠ p.variableCount) :
    (solve opt backend callback p).outcome =
      .error (.error (.problem (.jacobianShape jac.height jac.cols g.length p.constraintCount
        p.variableCount))) :=
  solve_of_failsAt hx fun _ _ => Task.jacobianAt_of_shape hp h hshape

end Whole

/-! ## Jacobians by central differences -/

/-- What a run makes of a Jacobian by central differences. -/
structure DifferencedRun (h : α) (g : List α → Evaluated (List α)) (opt : Options α)
    (backend : Backend α) (callback : Option (Snapshot α → Bool)) (p : Problem α) : Prop where
  /-- The failure of the function, wherever it occurs. -/
  failed : ∀ (k : ℕ) x e,
    (pointsOf .jacobian (calls (solve opt backend callback p).journal))[k]? = some x →
    FailsFirst h g x e →
    (solve opt backend callback p).outcome = .error (e.map (.evaluation .jacobian))
  /-- A value beside the point that is too short. -/
  short : ∀ (k : ℕ) x,
    (pointsOf .jacobian (calls (solve opt backend callback p).journal))[k]? = some x →
    Ragged h g x → (solve opt backend callback p).outcome = .error (.fault .index)
  /-- Any other values of the wrong number. -/
  miscounted : ∀ (k : ℕ) x v,
    (pointsOf .jacobian (calls (solve opt backend callback p).journal))[k]? = some x →
    Rectangular h g x v → (v x).length ≠ p.constraintCount →
    (solve opt backend callback p).outcome =
      .error (.error (.problem (.jacobianShape (v x).length x.length (v x).length
        p.constraintCount p.variableCount)))

theorem differencedRun {h : α} {g : List α → Evaluated (List α)} {p : Problem α}
    (hp : p.constraints = some (constraints h g)) (opt : Options α) (backend : Backend α)
    (callback : Option (Snapshot α → Bool)) : DifferencedRun h g opt backend callback p where
  failed k _ _ hx hfails := solve_of_jacobian_error hp hx (jacobian_of_failsFirst ⟨k, 0⟩ hfails)
  short k _ hx hragged := solve_of_jacobian_error hp hx (jacobian_of_ragged ⟨k, 0⟩ hragged)
  miscounted k x v hx hv hcount := by
    have hshape :=
      solve_of_jacobian_shape hp hx (jacobian_of_rectangular ⟨k, 0⟩ hv) (.inl hcount)
    rwa [height_differenceQuotients, cols_differenceQuotients] at hshape

/-- What a Jacobian by central differences of a function answers, at any point, and what becomes of
a run that asks for it. -/
structure DifferencedJacobian (h : α) (g : List α → Evaluated (List α)) : Prop where
  error_iff : ∀ x moment e, (constraints h g).jacobian moment x = .error e ↔
    FailsFirst h g x e ∨ e = .fault .index ∧ Ragged h g x
  ok_iff : ∀ x moment r, (constraints h g).jacobian moment x = .ok r ↔
    ∃ v, Rectangular h g x v ∧ r = (v x, differenceQuotients h x v)
  /-- Even a function without faults has Jacobians with one, where its values are too short. -/
  fault_iff : (∀ y fault, g y ≠ .error (.fault fault)) → ∀ x moment fault,
    (constraints h g).jacobian moment x = .error (.fault fault) ↔ fault = .index ∧ Ragged h g x
  shape : ∀ x v, (differenceQuotients h x v).WellFormed ∧
    (differenceQuotients h x v).height = (v x).length ∧
    (differenceQuotients h x v).cols = x.length
  /-- Values beyond those at the point itself make no difference, and no error. -/
  surplus : ∀ x v, differenceQuotients h x (fun y => (v y).take (v x).length) =
    differenceQuotients h x v
  run : ∀ p : Problem α, p.constraints = some (constraints h g) → ∀ opt backend callback,
    DifferencedRun h g opt backend callback p

theorem differencedJacobian (h : α) (g : List α → Evaluated (List α)) :
    DifferencedJacobian h g where
  error_iff _ _ _ := jacobian_eq_error_iff
  ok_iff _ _ _ := jacobian_eq_ok_iff
  fault_iff hg x moment fault := by
    have hfirst : ¬FailsFirst h g x (.fault fault) := fun ⟨_, last, _, _, _, hlast⟩ =>
      hg last fault hlast
    rw [jacobian_eq_error_iff, or_iff_right hfirst, Failure.fault.injEq]
  shape _ _ := ⟨wellFormed_differenceQuotients, height_differenceQuotients,
    cols_differenceQuotients⟩
  surplus _ _ := differenceQuotients_take
  run _ hp opt backend callback := differencedRun hp opt backend callback

/-! ## A function that gives fewer values beside the point -/

section Shrinking

open Extended

/-- Two values up to zero, and one beyond. -/
noncomputable def shrinkingValues (x : List Extended) : List Extended :=
  if 0 < Vec.coord x 0 then [0] else [0, 0]

noncomputable def shrinking (x : List Extended) : Evaluated (List Extended) :=
  .ok (shrinkingValues x)

/-- Two constraints that are not there beyond zero. -/
noncomputable def shrinkingProblem : Problem Extended where
  objective := {
    value := fun _ _ => .ok 0
    gradient := fun _ _ => .ok (0, [0]) }
  constraints := some (constraints 1 shrinking)
  hessian := none
  x0 := [0]
  xmin := [negInf]
  xmax := [posInf]
  gmin := [negInf, negInf]
  gmax := [posInf, posInf]
  multipliers := none

noncomputable def shrinkingOptions : Options Extended :=
  { Options.default with hessian := .limitedMemory }

theorem ragged_shrinking : Ragged 1 shrinking [0] := by
  refine ⟨shrinkingValues, fun _ _ => rfl, forwardPoint 1 [0] 0, ?_, ?_⟩
  · exact mem_points_iff.mpr (.inr ⟨0, by simp, .inl rfl⟩)
  · have hforward : (0 : Extended) < Vec.coord (forwardPoint (1 : Extended) [0] 0) 0 := by
      simp only [forwardPoint, Vec.coord, List.set_cons_zero, List.getElem?_cons_zero,
        Option.getD_some, one_eq, zero_eq, ofScientific_eq]
      rw [real_div_real _ (by norm_num), real_add_real, real_lt_real]
      norm_num
    have hat : ¬(0 : Extended) < Vec.coord [(0 : Extended)] 0 := by
      simp [Vec.coord]
    rw [shrinkingValues, shrinkingValues, if_pos hforward, if_neg hat]
    decide

theorem shrinking_check : shrinkingProblem.check shrinkingOptions =
    .ok ⟨.limitedMemory, ⟨[0, 0], [0]⟩⟩ :=
  Problem.check_of_passes {
    options := validate_default
    pointBounds := by simp [Problem.checkBounds, Problem.variableCount, shrinkingProblem]
    valueBounds := by simp [Problem.checkBounds, Problem.constraintCount, shrinkingProblem]
    unconstrained := nofun
    curvature := rfl
    multipliers := rfl }

/-- The Jacobian is read past the end of the value half a step ahead, and the run does not survive
it. -/
theorem shrinking_faults :
    (∀ y fault, shrinking y ≠ .error (.fault fault)) ∧
      (constraints 1 shrinking).jacobian ⟨0, 0⟩ [0] = .error (.fault .index) ∧
      (solve shrinkingOptions silentBackend none shrinkingProblem).outcome =
        .error (.fault .index) := by
  have hjacobian := differencedJacobian (1 : Extended) shrinking
  refine ⟨nofun, (hjacobian.fault_iff nofun _ _ _).mpr ⟨rfl, ragged_shrinking⟩, ?_⟩
  exact (hjacobian.run shrinkingProblem rfl shrinkingOptions silentBackend none).short 0 [0]
    (first_jacobian_point shrinking_check rfl) ragged_shrinking

end Shrinking

end SeqQuad.Nonlinear
