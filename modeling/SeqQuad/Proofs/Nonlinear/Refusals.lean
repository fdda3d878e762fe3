import SeqQuad.Proofs.Nonlinear.Dimensions
import SeqQuad.Proofs.Nonlinear.Statistics

/-!
# Refusals of a run

An answer that the run cannot do without and that has the wrong dimensions ends the run with an
error that names it, whenever the call is made. A trial with the wrong number of constraint values
is passed over like any trial that fails. With the dimensions of what the run holds, this accounts
for every vector and matrix that a run is given.
-/

namespace SeqQuad

namespace LineSearch

variable {ω α : Type}

/-! ## Trials that fail -/

/-- What a search makes of its trial `i`, from zero, that failed with `cause`: it goes on with a
shorter one or ends where it began, and reports the cause. -/
structure PassesOver (opt : Options α) [Scalar α] (x : List α) (s : LineSearch ω α) (i : ℕ)
    (trial : Trial ω α) (cause : EvaluationError) : Prop where
  goes_on : (∃ next, s.trials[i + 1]? = some next ∧ next.t = trial.t * opt.beta) ∨
    (s.trials.length = i + 1 ∧ s.ending = .stuck ∧ s.t = 0 ∧ s.point = x)
  reported : ∀ embed : Note α → ω, embed (.rejected (i + 1) cause) ∈ s.journal embed

theorem mem_journal_of_rejected {embed : Note α → ω} {s : LineSearch ω α} {i : ℕ}
    {trial : Trial ω α} {cause : EvaluationError} (h : s.trials[i]? = some trial)
    (hfailed : trial.answer.outcome = .error (.error cause)) :
    embed (.rejected (i + 1) cause) ∈ s.journal embed := by
  obtain ⟨hi, htrial⟩ := List.getElem?_eq_some_iff.mp h
  refine List.mem_append_left _ (List.mem_flatten.mpr ⟨trialJournal embed (i + 1) trial, ?_, ?_⟩)
  · exact List.mem_mapIdx.mpr ⟨i, hi, by rw [htrial]⟩
  · simp [trialJournal, hfailed]

variable [Scalar α] {opt : Options α} {x dx : List α} {slope reference : α}
  {merit : ℕ → List α → Journaled ω (Failure EvaluationError) α}

/-- The trial at length `t` after `made` others. -/
def nextTrial (x dx : List α) (merit : ℕ → List α → Journaled ω (Failure EvaluationError) α)
    (made : ℕ) (t : α) : Trial ω α :=
  ⟨t, Vec.along x dx t, merit (made + 1) (Vec.along x dx t)⟩

/-- After one more trial the search is over, where it began if the trial failed, or it goes on
with a shorter step. -/
theorem backtrack_succ_cases {fuel made : ℕ} {t : α} {tried : List (Trial ω α)}
    {s : LineSearch ω α}
    (hs : backtrack opt x dx slope reference merit (fuel + 1) made t tried = s) :
    (s.trials = (nextTrial x dx merit made t :: tried).reverse ∧
      ∀ cause, (nextTrial x dx merit made t).answer.outcome = .error (.error cause) →
        s.ending = .stuck ∧ s.t = 0 ∧ s.point = x) ∨
      backtrack opt x dx slope reference merit fuel (made + 1) (t * opt.beta)
        (nextTrial x dx merit made t :: tried) = s := by
  unfold nextTrial
  rw [backtrack] at hs
  dsimp only at hs ⊢
  cases hanswer : (merit (made + 1) (Vec.along x dx t)).outcome with
  | ok m =>
      rw [hanswer] at hs
      dsimp only at hs
      split at hs
      · exact .inl ⟨by rw [← hs], fun _ h => by cases h⟩
      · split at hs
        · exact .inl ⟨by rw [← hs], fun _ h => by cases h⟩
        · exact .inr hs
  | error e =>
      rw [hanswer] at hs
      cases e with
      | fault fault => exact .inl ⟨by rw [← hs], fun _ h => by cases h⟩
      | error cause =>
          dsimp only at hs
          split at hs
          · exact .inl ⟨by rw [← hs], fun _ _ => by rw [← hs]; exact ⟨rfl, rfl, rfl⟩⟩
          · exact .inr hs

/-- A search that goes on at length `t` ends at once where it began, or makes a trial at that
length next. -/
theorem backtrack_stuck_or_tries {fuel made : ℕ} {t : α} {tried : List (Trial ω α)}
    {s : LineSearch ω α} (hs : backtrack opt x dx slope reference merit fuel made t tried = s) :
    s = ⟨0, x, .stuck, tried.reverse⟩ ∨
      ∃ rest, s.trials = tried.reverse ++ nextTrial x dx merit made t :: rest := by
  induction fuel generalizing made t tried with
  | zero => exact .inl hs.symm
  | succ fuel ih =>
      right
      rcases backtrack_succ_cases hs with ⟨hends, -⟩ | hnext
      · exact ⟨[], by rw [hends, List.reverse_cons]⟩
      · rcases ih hnext with hstuck | ⟨rest, hrest⟩
        · exact ⟨[], by rw [hstuck, List.reverse_cons]⟩
        · exact ⟨_, by rw [hrest, List.reverse_cons, List.append_assoc, List.singleton_append]⟩

/-- A trial that failed is followed by a shorter one, or the search ends where it began. -/
theorem goes_on_backtrack {fuel made : ℕ} {t : α} {tried : List (Trial ω α)}
    {s : LineSearch ω α} (hs : backtrack opt x dx slope reference merit fuel made t tried = s)
    (hmade : tried.length = made) {i : ℕ} (hi : made ≤ i) {trial : Trial ω α}
    {cause : EvaluationError} (htrial : s.trials[i]? = some trial)
    (hfailed : trial.answer.outcome = .error (.error cause)) :
    (∃ next, s.trials[i + 1]? = some next ∧ next.t = trial.t * opt.beta) ∨
      (s.trials.length = i + 1 ∧ s.ending = .stuck ∧ s.t = 0 ∧ s.point = x) := by
  induction fuel generalizing made t tried with
  | zero =>
      rw [← hs, List.getElem?_eq_none (by simpa [backtrack, hmade] using hi)] at htrial
      cases htrial
  | succ fuel ih =>
      -- the trial made here is found at its place, whatever follows it
      have hhere : ∀ rest, ((nextTrial x dx merit made t :: tried).reverse ++ rest)[made]? =
          some (nextTrial x dx merit made t) := by
        simp [← hmade]
      have hlen : (nextTrial x dx merit made t :: tried).reverse.length = made + 1 := by
        simp [hmade]
      rcases backtrack_succ_cases hs with ⟨hends, hstuck⟩ | hnext
      · have hlt := (List.getElem?_eq_some_iff.mp htrial).1
        rw [hends, hlen] at hlt
        obtain rfl : i = made := by omega
        rw [hends, ← List.append_nil (List.reverse _), hhere] at htrial
        obtain rfl := Option.some.inj htrial
        exact .inr ⟨by rw [hends, hlen], hstuck cause hfailed⟩
      · rcases Nat.lt_or_eq_of_le hi with hlater | rfl
        · exact ih hnext (by rw [List.length_cons, hmade]) hlater
        · rcases backtrack_stuck_or_tries hnext with rfl | ⟨rest, hrest⟩
          · exact .inr ⟨hlen, rfl, rfl, rfl⟩
          · rw [hrest, hhere] at htrial
            obtain rfl := Option.some.inj htrial
            refine .inl ⟨nextTrial x dx merit (made + 1) (t * opt.beta), ?_, rfl⟩
            rw [hrest, List.getElem?_append_right hlen.le, hlen, Nat.sub_self]
            rfl

theorem passesOver_run {history : MeritWindow α} {i : ℕ} {trial : Trial ω α}
    {cause : EvaluationError}
    (h : (run opt x dx slope history merit).trials[i]? = some trial)
    (hfailed : trial.answer.outcome = .error (.error cause)) :
    PassesOver opt x (run opt x dx slope history merit) i trial cause := by
  refine ⟨?_, fun embed => mem_journal_of_rejected h hfailed⟩
  by_cases hoff : opt.maxTrials = 0
  · rw [run_of_off hoff] at h
    cases h
  · have hrun : backtrack opt x dx slope (LineSearch.reference history) merit (trialBound opt) 0 1
        [] = run opt x dx slope history merit := (if_neg hoff).symm
    exact goes_on_backtrack hrun rfl (Nat.zero_le i) h hfailed

end LineSearch

namespace Nonlinear

open Journaled

variable {α : Type}

/-! ## Calls that end a run -/

section Refuses

variable {β γ : Type} {what : Evaluator} {bad : ℕ → List α → Failure (SolveError α) → Prop} {k : ℕ}

/-- Makes no call of `what`. -/
def Avoids (what : Evaluator) (c : Run α β) : Prop :=
  pointsOf what (calls c.journal) = []

/-- Ends with an error if it makes a call of `what` that `bad` says to end so, where the calls are
numbered from `k`. -/
def Refuses (what : Evaluator) (bad : ℕ → List α → Failure (SolveError α) → Prop) (k : ℕ)
    (c : Run α β) : Prop :=
  ∀ i x e, (pointsOf what (calls c.journal))[i]? = some x → bad (k + i) x e →
    c.outcome = .error e

theorem avoids_note (entries : List (Event α)) (h : calls entries = []) :
    Avoids what (note entries : Run α Unit) := by
  unfold Avoids
  rw [journal_note, h]
  rfl

theorem Avoids.bind {c : Run α β} {f : β → Run α γ} (hc : Avoids what c)
    (hf : ∀ b, Avoids what (f b)) : Avoids what (c >>= f) := by
  unfold Avoids at hc ⊢
  cases h : c.outcome with
  | ok b => rw [Task.calls_bind_of_ok h, pointsOf_append, hc, hf b, List.nil_append]
  | error e => rw [bind_of_error f h, hc]

theorem Avoids.refuses {c : Run α β} (h : Avoids what c) : Refuses what bad k c := by
  intro _ x e hx
  rw [h] at hx
  cases hx

/-- What fails in two ways if it makes a call makes none. -/
theorem avoids_of_refuses {c : Run α β} (h : Refuses what (fun _ _ _ => True) k c) :
    Avoids what c := by
  refine List.eq_nil_iff_forall_not_mem.mpr fun x hx => ?_
  obtain ⟨i, hi⟩ := List.mem_iff_getElem?.mp hx
  have hindex := h i x (.fault .index) hi trivial
  have hroom := h i x (.fault .room) hi trivial
  rw [hindex] at hroom
  cases hroom

theorem refuses_of_never (h : ∀ k x e, ¬bad k x e) (c : Run α β) : Refuses what bad k c :=
  fun _ x e _ hbad => absurd hbad (h _ x e)

/-- A computation that makes one call. -/
theorem refuses_of_call {c : Run α β} {x : List α} (hcalls : calls c.journal = [(what, x)])
    (h : ∀ e, bad k x e → c.outcome = .error e) : Refuses what bad k c := by
  intro i y e hy hbad
  have hpoints : pointsOf what (calls c.journal) = [x] := by
    rw [hcalls]
    simp [pointsOf]
  rw [hpoints] at hy
  cases i with
  | zero =>
      obtain rfl := Option.some.inj hy
      exact h e hbad
  | succ i => simp at hy

/-- The calls of what follows are numbered after those before. -/
theorem Refuses.bind {c : Run α β} {f : β → Run α γ} (hc : Refuses what bad k c)
    (hf : ∀ b, c.outcome = .ok b →
      Refuses what bad (k + (pointsOf what (calls c.journal)).length) (f b)) :
    Refuses what bad k (c >>= f) := by
  intro i x e hx hbad
  cases h : c.outcome with
  | error e' =>
      rw [bind_of_error f h] at hx ⊢
      obtain rfl := Except.error.inj (h.symm.trans (hc i x e hx hbad))
      rfl
  | ok b =>
      rw [Task.calls_bind_of_ok h, pointsOf_append] at hx
      rw [bind_of_ok f h]
      by_cases hi : i < (pointsOf what (calls c.journal)).length
      · rw [List.getElem?_append_left hi] at hx
        have herror := hc i x e hx hbad
        rw [h] at herror
        cases herror
      · rw [List.getElem?_append_right (not_lt.mp hi)] at hx
        refine hf b h _ x e hx ?_
        rw [Nat.add_assoc, Nat.add_sub_cancel' (not_lt.mp hi)]
        exact hbad

theorem Refuses.bind_of_avoids {c : Run α β} {f : β → Run α γ} (hc : Avoids what c)
    (hf : ∀ b, c.outcome = .ok b → Refuses what bad k (f b)) : Refuses what bad k (c >>= f) := by
  refine Refuses.bind hc.refuses fun b hb => ?_
  rw [hc]
  exact hf b hb

theorem Refuses.bind_avoids {c : Run α β} {f : β → Run α γ} (hc : Refuses what bad k c)
    (hf : ∀ b, Avoids what (f b)) : Refuses what bad k (c >>= f) :=
  Refuses.bind hc fun b _ => (hf b).refuses

end Refuses

variable [Scalar α]

namespace Task

variable {t : Task α} {s s' : Iterate α} {sol : QuadraticSolution α} {m : Moment} {x : List α}

/-! ## Answers of wrong dimensions -/

omit [Scalar α] in
theorem gradientAt_of_length {f : α} {gradF : List α}
    (h : t.problem.objective.gradient m x = .ok (f, gradF))
    (hlen : gradF.length ≠ t.problem.variableCount) :
    (t.gradientAt m x).outcome =
      .error (.error (.problem (.gradientLength gradF.length t.problem.variableCount))) := by
  unfold gradientAt
  rw [bind_of_ok _ (require_eq_ok.mpr h)]
  exact congrArg Journaled.outcome (if_pos hlen)

omit [Scalar α] in
theorem jacobianAt_of_shape {c : Constraints α} {g : List α} {jac : SparseMatrix α}
    (hc : t.problem.constraints = some c) (h : c.jacobian m x = .ok (g, jac))
    (hshape : g.length ≠ t.problem.constraintCount ∨ jac.height ≠ t.problem.constraintCount ∨
      jac.cols ≠ t.problem.variableCount) :
    (t.jacobianAt m x).outcome =
      .error (.error (.problem (.jacobianShape jac.height jac.cols g.length
        t.problem.constraintCount t.problem.variableCount))) := by
  unfold jacobianAt
  rw [hc]
  dsimp only
  rw [bind_of_ok _ (require_eq_ok.mpr h)]
  exact congrArg Journaled.outcome (if_pos hshape)

theorem hessianAt_of_shape {hess : LagrangianHessian α} {lam : List α} {h : SparseMatrix α}
    (hok : hess m x lam 1 = .ok h)
    (hshape : h.height ≠ t.problem.variableCount ∨ h.cols ≠ t.problem.variableCount) :
    (t.hessianAt hess m x lam).outcome =
      .error (.error (.problem (.hessianShape h.height h.cols t.problem.variableCount))) := by
  unfold hessianAt
  rw [bind_of_ok _ (require_eq_ok.mpr hok)]
  exact congrArg Journaled.outcome (if_pos hshape)

theorem solveSubproblem_of_shape
    (hback : (t.backend (s.iter + 1) (t.subproblem s) s.step).outcome = .ok sol)
    (hshape : sol.x.length ≠ t.problem.variableCount ∨ sol.lamX.length ≠ t.problem.variableCount ∨
      sol.lamA.length ≠ t.problem.constraintCount) :
    (t.solveSubproblem s).outcome =
      .error (.error (.answerShape sol.x.length sol.lamX.length sol.lamA.length
        t.problem.variableCount t.problem.constraintCount)) := by
  unfold solveSubproblem
  rw [bind_of_ok _ (outcome_note _), bind_of_ok _ (outcome_mapEntries_eq_ok.mpr hback)]
  exact congrArg Journaled.outcome (if_pos hshape)

/-- A trial with the wrong number of constraint values has no merit. -/
theorem meritAt_of_count {sigma f : α} {c : Constraints α} {g : List α}
    (hf : t.problem.objective.value m x = .ok f) (hc : t.problem.constraints = some c)
    (hg : c.values m x = .ok g) (hlen : g.length ≠ t.problem.constraintCount) :
    (t.meritAt sigma m x).outcome =
      .error (.error (.valueCount g.length t.problem.constraintCount)) := by
  have hconstraints : (t.constraintsAt m x).outcome =
      .error (.error (.valueCount g.length t.problem.constraintCount)) := by
    unfold constraintsAt
    rw [hc]
    dsimp only
    rw [bind_of_ok _ (outcome_note _),
      bind_of_ok _ (show (ofExcept (c.values m x)).outcome = .ok g from hg)]
    exact congrArg Journaled.outcome (if_pos hlen)
  unfold meritAt
  rw [bind_of_ok _ (objectiveAt_eq_ok.mpr hf), bind_of_error _ hconstraints]

/-! ## Evaluations that end a run -/

/-- The evaluation of a derivative number `k`, from zero, fails with `e` at a point, where
`lamAt k` tells the multipliers for the Hessian. -/
def FailsAt (t : Task α) (lamAt : ℕ → Multipliers α → Prop) (what : Evaluator) (k : ℕ)
    (x : List α) (e : Failure (SolveError α)) : Prop :=
  match what with
  | .gradient => (t.gradientAt ⟨k, 0⟩ x).outcome = .error e
  | .jacobian => (t.jacobianAt ⟨k, 0⟩ x).outcome = .error e
  | .hessian => ∃ hess lam, t.curvature = .exact hess ∧ lamAt k lam ∧
      (t.hessianAt hess ⟨k, 0⟩ x lam.g).outcome = .error e
  | .objective | .constraints => False

variable {lamAt : ℕ → Multipliers α → Prop} {what : Evaluator} {k : ℕ}

omit [Scalar α] in
theorem avoids_jacobianAt (h : what ≠ .jacobian) : Avoids what (t.jacobianAt m x) := by
  unfold Avoids
  rw [calls_jacobianAt]
  split <;> simp [pointsOf, h.symm]

omit [Scalar α] in
theorem avoids_gradientAt (h : what ≠ .gradient) : Avoids what (t.gradientAt m x) := by
  unfold Avoids
  rw [calls_gradientAt]
  simp [pointsOf, h.symm]

theorem avoids_startHessian (h : what ≠ .hessian) (lam : Multipliers α) :
    Avoids what (t.startHessian lam) := by
  unfold Avoids
  rw [calls_startHessian]
  split <;> simp [pointsOf, h.symm]

theorem avoids_nextHessian (h : what ≠ .hessian) (s : Iterate α) (x glag : List α)
    (lam : Multipliers α) : Avoids what (t.nextHessian s x glag lam) := by
  unfold Avoids
  rw [calls_nextHessian]
  split <;> simp [pointsOf, h.symm]

/-- No derivative is evaluated during a search. -/
theorem avoids_search (hwhat : ∀ e, t.tries what e = false) :
    Avoids what (note ((t.search s sol).journal fun n => .note (.search n)) : Run α Unit) := by
  unfold Avoids
  have hread := pointsOf_trialCalls (t := t) what
    ((LineSearch.numbered (t.search s sol).trials).map fun e => (⟨s.iter + 1, e.1⟩, e.2))
  rw [List.flatMap_map, List.filter_eq_nil_iff.mpr (by simp [hwhat])] at hread
  rw [journal_note, calls_search, hread]
  rfl

omit [Scalar α] in
theorem failsAt_jacobian_of_none (hc : t.problem.constraints = none) (k : ℕ) (x : List α)
    (e : Failure (SolveError α)) : (t.jacobianAt ⟨k, 0⟩ x).outcome ≠ .error e := by
  unfold jacobianAt
  rw [hc]
  nofun

/-- The first derivatives at a point, then the Hessian there. -/
theorem refuses_derivatives {β : Type}
    {rest : List α × SparseMatrix α → α × List α → Run α β}
    (havoid : what ≠ .hessian → ∀ r r', Avoids what (rest r r'))
    (hrest : ∀ r r', Refuses .hessian (t.FailsAt lamAt .hessian) k (rest r r')) :
    Refuses what (t.FailsAt lamAt what) k (do
      let r ← t.jacobianAt ⟨k, 0⟩ x
      let r' ← t.gradientAt ⟨k, 0⟩ x
      rest r r') := by
  cases what with
  | objective => exact refuses_of_never (fun _ _ _ => id) _
  | constraints => exact refuses_of_never (fun _ _ _ => id) _
  | jacobian =>
      refine Refuses.bind_avoids ?_ fun r =>
        Avoids.bind (avoids_gradientAt (by decide)) fun r' => havoid (by decide) r r'
      cases hc : t.problem.constraints with
      | none => exact refuses_of_never (failsAt_jacobian_of_none hc) _
      | some c =>
          refine refuses_of_call ?_ fun e he => he
          rw [calls_jacobianAt, hc]
          rfl
  | gradient =>
      refine Refuses.bind_of_avoids (avoids_jacobianAt (by decide)) fun r _ => ?_
      exact Refuses.bind_avoids (refuses_of_call (calls_gradientAt _ _) fun e he => he)
        fun r' => havoid (by decide) r r'
  | hessian =>
      refine Refuses.bind_of_avoids (avoids_jacobianAt (by decide)) fun r _ => ?_
      exact Refuses.bind_of_avoids (avoids_gradientAt (by decide)) fun r' _ => hrest r r'

theorem refuses_hessianAt {hess : LagrangianHessian α} (hc : t.curvature = .exact hess)
    {lam : Multipliers α} (hlam : ∀ lam', lamAt k lam' → lam' = lam) :
    Refuses .hessian (t.FailsAt lamAt .hessian) k (t.hessianAt hess ⟨k, 0⟩ x lam.g) := by
  refine refuses_of_call (calls_hessianAt _ _ _ _) ?_
  rintro e ⟨hess', lam', hexact, hmultipliers, he⟩
  obtain rfl := Curvature.exact.inj (hc.symm.trans hexact)
  rw [hlam lam' hmultipliers] at he
  exact he

theorem not_failsAt_hessian (hc : t.curvature = .limitedMemory) (k : ℕ) (x : List α)
    (e : Failure (SolveError α)) : ¬t.FailsAt lamAt .hessian k x e := by
  rintro ⟨hess, lam, hexact, -⟩
  cases hc.symm.trans hexact

/-- The derivatives where a search ended are evaluated under the number of the iteration. -/
theorem refuses_land {search : LineSearch (Event α) α}
    (hlam : ∀ lam, lamAt (s.iter + 1) lam → lam = t.nextMultipliers s sol search.t) :
    Refuses what (t.FailsAt lamAt what) (s.iter + 1) (t.land s sol search) := by
  refine refuses_derivatives (fun hwhat r r' => ?_) fun r r' => ?_
  · exact Avoids.bind rfl fun _ => Avoids.bind (avoids_nextHessian hwhat _ _ _ _) fun _ => rfl
  · refine Refuses.bind_of_avoids rfl fun _ _ => Refuses.bind_avoids ?_ fun _ => rfl
    unfold nextHessian
    cases hc : t.curvature with
    | limitedMemory => exact refuses_of_never (not_failsAt_hessian hc) _
    | exact hess => exact refuses_hessianAt hc hlam

/-- What an iteration does before it lands evaluates no derivative. -/
theorem refuses_step_of_land {bad : ℕ → List α → Failure (SolveError α) → Prop}
    (hwhat : ∀ trial, t.tries what trial = false)
    (hland : ∀ sol, (t.solveSubproblem s).outcome = .ok sol →
      Refuses what bad k (t.land s sol (t.search s sol))) : Refuses what bad k (t.step s) := by
  have hsolve : Avoids what (t.solveSubproblem s) := congrArg _ (calls_solveSubproblem s)
  rw [step_eq]
  refine Refuses.bind_of_avoids hsolve fun sol hsol => ?_
  unfold follow
  refine Refuses.bind_of_avoids (avoids_note _ rfl) fun _ _ => ?_
  refine Refuses.bind_of_avoids rfl fun _ _ => ?_
  refine Refuses.bind_of_avoids (congrArg _ (calls_noteIf _ _)) fun _ _ => ?_
  refine Refuses.bind_of_avoids (avoids_search hwhat) fun _ _ => ?_
  split
  · exact Avoids.refuses rfl
  · exact hland sol hsol

theorem refuses_step (hwhat : ∀ trial, t.tries what trial = false)
    (hlam : ∀ sol, (t.solveSubproblem s).outcome = .ok sol →
      ∀ lam, lamAt (s.iter + 1) lam → lam = t.nextMultipliers s sol (t.search s sol).t) :
    Refuses what (t.FailsAt lamAt what) (s.iter + 1) (t.step s) :=
  refuses_step_of_land hwhat fun sol hsol => refuses_land (hlam sol hsol)

theorem refuses_start {lam : Multipliers α} (hlam : ∀ lam', lamAt 0 lam' → lam' = lam) :
    Refuses what (t.FailsAt lamAt what) 0 (t.start lam) := by
  refine refuses_derivatives (fun hwhat r r' => ?_) fun r r' => ?_
  · refine Avoids.bind (avoids_startHessian hwhat lam) fun _ => ?_
    exact Avoids.bind (congrArg _ (calls_noteIf _ _)) fun _ => Avoids.bind rfl fun _ =>
      Avoids.bind rfl fun _ => rfl
  · refine Refuses.bind_avoids ?_ fun _ => Avoids.bind (congrArg _ (calls_noteIf _ _)) fun _ =>
      Avoids.bind rfl fun _ => Avoids.bind rfl fun _ => rfl
    unfold startHessian
    cases hc : t.curvature with
    | limitedMemory => exact refuses_of_never (not_failsAt_hessian hc) _
    | exact hess => exact refuses_hessianAt hc hlam

omit [Scalar α] in
theorem tries_of_evaluates (h : t.evaluates what) (trial : Moment × List α) :
    t.tries what trial = false := by
  cases what <;> simp_all [evaluates, tries]

/-- Only what is evaluated fails. -/
theorem evaluates_of_failsAt {e : Failure (SolveError α)} (h : t.FailsAt lamAt what k x e) :
    t.evaluates what := by
  cases what with
  | objective => exact h.elim
  | constraints => exact h.elim
  | gradient => rfl
  | jacobian =>
      exact Option.isSome_iff_ne_none.mpr fun hnone => failsAt_jacobian_of_none hnone k x e h
  | hessian =>
      obtain ⟨hess, lam, hexact, -⟩ := h
      simp [evaluates, hexact]

/-- The evaluations of a loop are numbered like its heads. -/
theorem refuses_iterate {left : ℕ} {s : Iterate α}
    (hlam : ∀ s' ∈ t.posed left s, ∀ sol, (t.solveSubproblem s').outcome = .ok sol →
      ∀ lam, lamAt (s'.iter + 1) lam → lam = t.nextMultipliers s' sol (t.search s' sol).t) :
    Refuses what (t.FailsAt lamAt what) (s.iter + 1) (t.iterate left s) := by
  by_cases heval : t.evaluates what
  · induction left generalizing s with
    | zero =>
        rw [iterate_zero]
        refine Refuses.bind_of_avoids (avoids_note _ (calls_headEvents s)) fun _ _ => ?_
        split
        · exact Avoids.refuses (Avoids.bind rfl fun _ => rfl)
        · exact Avoids.refuses rfl
    | succ left ih =>
        rw [iterate_succ]
        refine Refuses.bind_of_avoids (avoids_note _ (calls_headEvents s)) fun _ _ => ?_
        cases hv : t.verdict s with
        | some status => exact Avoids.refuses (Avoids.bind rfl fun _ => rfl)
        | none =>
            have hhere := hlam s (mem_posed_self hv)
            refine Refuses.bind (refuses_step (tries_of_evaluates heval) hhere) fun next hnext => ?_
            obtain ⟨sol, hstep⟩ := stepped_of_step hnext
            rw [pointsOf_step_of_derivative (tries_of_evaluates heval) hnext, if_pos heval,
              List.length_singleton, ← hstep.iter]
            rw [posed_of_step hv hnext] at hlam
            exact ih fun s' hs' => hlam s' (List.mem_cons_of_mem s hs')
  · exact refuses_of_never (fun _ _ _ h => heval (evaluates_of_failsAt h)) _

/-- Without an exact Hessian none is evaluated. -/
theorem avoids_hessian_iterate (hc : t.curvature = .limitedMemory) (left : ℕ) (s : Iterate α) :
    Avoids .hessian (t.iterate left s) := by
  have hstep : ∀ s, Avoids .hessian (t.step s) := by
    intro s
    refine avoids_of_refuses (k := 0) (refuses_step_of_land (fun _ => rfl) fun sol _ => ?_)
    refine Avoids.refuses (Avoids.bind (avoids_jacobianAt (by decide)) fun r => ?_)
    refine Avoids.bind (avoids_gradientAt (by decide)) fun r' => Avoids.bind rfl fun _ => ?_
    refine Avoids.bind ?_ fun _ => rfl
    unfold Avoids
    rw [calls_nextHessian, hc]
    rfl
  induction left generalizing s with
  | zero =>
      rw [iterate_zero]
      refine Avoids.bind (avoids_note _ (calls_headEvents s)) fun _ => ?_
      split
      · exact Avoids.bind rfl fun _ => rfl
      · rfl
  | succ left ih =>
      rw [iterate_succ]
      refine Avoids.bind (avoids_note _ (calls_headEvents s)) fun _ => ?_
      split
      · exact Avoids.bind rfl fun _ => rfl
      · exact Avoids.bind (hstep s) ih

theorem avoids_hessian_start (hc : t.curvature = .limitedMemory) (lam : Multipliers α) :
    Avoids .hessian (t.start lam) := by
  have hstart : Avoids .hessian (t.startHessian lam) := by
    unfold Avoids
    rw [calls_startHessian, hc]
    rfl
  refine Avoids.bind (avoids_jacobianAt (by decide)) fun r => ?_
  refine Avoids.bind (avoids_gradientAt (by decide)) fun r' => Avoids.bind hstart fun _ => ?_
  exact Avoids.bind (congrArg _ (calls_noteIf _ _)) fun _ => Avoids.bind rfl fun _ =>
    Avoids.bind rfl fun _ => rfl

/-! ## Subproblems and trials -/

/-- A loop fails where the iteration from one of its heads does. -/
theorem iterate_of_posed_error {left : ℕ} {s s' : Iterate α} {e : Failure (SolveError α)}
    (hs' : s' ∈ t.posed left s) (h : (t.step s').outcome = .error e) :
    (t.iterate left s).outcome = .error e := by
  induction left generalizing s with
  | zero => cases hs'
  | succ left ih =>
      rw [iterate_succ, bind_of_ok _ (outcome_note _)]
      cases hv : t.verdict s with
      | some status =>
          rw [posed_of_verdict hv] at hs'
          cases hs'
      | none =>
          dsimp only
          cases hnext : (t.step s).outcome with
          | error e' =>
              rw [posed_of_error hv hnext, List.mem_singleton] at hs'
              rw [hs', hnext] at h
              rw [bind_of_error _ hnext, Except.error.inj h]
          | ok next =>
              rw [posed_of_step hv hnext, List.mem_cons] at hs'
              rw [bind_of_ok _ hnext]
              rcases hs' with rfl | hs'
              · cases hnext.symm.trans h
              · exact ih hs'

/-- Each trial of a search is answered under its number. -/
theorem answer_of_getElem?_trials {i : ℕ} {trial : Trial (Event α) α}
    (h : (t.search s sol).trials[i]? = some trial) :
    trial.answer = t.meritAt (nextSigma s.sigma sol) ⟨s.iter + 1, i + 1⟩ trial.point := by
  have hanswers : (t.search s sol).trials.map Trial.answer =
      (LineSearch.numbered (t.search s sol).trials).map fun e =>
        t.meritAt (nextSigma s.sigma sol) ⟨s.iter + 1, e.1⟩ e.2 := LineSearch.answers_run
  have hhere := congrArg (·[i]?) hanswers
  simpa [LineSearch.numbered, h] using hhere

end Task

/-! ## Whole runs -/

/-- The multipliers for the Hessian number `k` of a run, from zero: those that it starts from, or
those that the search along the answer before led to. -/
def MultipliersAt (opt : Options α) (backend : Backend α) (callback : Option (Snapshot α → Bool))
    (p : Problem α) : ℕ → Multipliers α → Prop
  | 0, lam => p.startMultipliers = .ok lam
  | k + 1, lam => ∃ checked s sol, p.check opt = .ok checked ∧
      (runHeads opt backend callback p)[k]? = some s ∧ AnswerAt opt backend callback p k sol ∧
      lam = (taskOf opt backend callback p checked).nextMultipliers s sol
        ((taskOf opt backend callback p checked).search s sol).t

section Whole

variable {opt : Options α} {backend : Backend α} {callback : Option (Snapshot α → Bool)}
  {p : Problem α} {checked : Checked α} {first : Iterate α}

theorem getElem?_runHeads_of_posed (hc : p.check opt = .ok checked)
    (hs : ((taskOf opt backend callback p checked).start checked.multipliers).outcome = .ok first)
    {s : Iterate α} (h : s ∈ (taskOf opt backend callback p checked).posed opt.maxIter first) :
    (runHeads opt backend callback p)[s.iter]? = some s := by
  obtain ⟨k, hk⟩ := List.mem_iff_getElem?.mp
    ((Task.posed_prefix_heads _ _).subset h)
  rw [← runHeads_of_start hc hs] at hk
  rw [iter_of_getElem?_runHeads hk, hk]

theorem multipliersAt_eq (hc : p.check opt = .ok checked)
    (hs : ((taskOf opt backend callback p checked).start checked.multipliers).outcome = .ok first)
    {s : Iterate α} (h : s ∈ (taskOf opt backend callback p checked).posed opt.maxIter first)
    {sol : QuadraticSolution α}
    (hsol : ((taskOf opt backend callback p checked).solveSubproblem s).outcome = .ok sol)
    {lam : Multipliers α} (hlam : MultipliersAt opt backend callback p (s.iter + 1) lam) :
    lam = (taskOf opt backend callback p checked).nextMultipliers s sol
      ((taskOf opt backend callback p checked).search s sol).t := by
  obtain ⟨checked', s', sol', hc', hs', hsol', rfl⟩ := hlam
  obtain rfl := Except.ok.inj (hc.symm.trans hc')
  obtain rfl := Option.some.inj ((getElem?_runHeads_of_posed hc hs h).symm.trans hs')
  have hanswer : AnswerAt opt backend callback p s.iter sol :=
    ⟨_, getElem?_subproblems hc hs h, (Task.solveSubproblem_eq_ok.mp hsol).1⟩
  rw [hanswer.eq hsol']

omit [Scalar α] in
theorem avoids_printTime {what : Evaluator} (printTime : Bool) :
    Avoids what (noteIf printTime [.timesDue] : Run α Unit) :=
  avoids_note _ (by cases printTime <;> rfl)

/-- The evaluations of a derivative in a run are numbered from zero, and one that fails ends the
run. -/
theorem refuses_solve (hc : p.check opt = .ok checked) (what : Evaluator) :
    Refuses what ((taskOf opt backend callback p checked).FailsAt
      (MultipliersAt opt backend callback p) what) 0 (solve opt backend callback p) := by
  by_cases heval : (taskOf opt backend callback p checked).evaluates what
  · have hstart : ∀ lam, MultipliersAt opt backend callback p 0 lam → lam = checked.multipliers :=
      fun lam hlam => Except.ok.inj (hlam.symm.trans (Problem.passes_of_check hc).multipliers)
    rw [solve_of_check hc]
    refine Refuses.bind (Task.refuses_start hstart) fun first hs => ?_
    have hiter : first.iter = 0 := (Task.started_of_start hs).iter
    rw [Task.calls_start hs, Task.pointsOf_derivativeCalls, if_pos heval, List.length_singleton,
      ← hiter]
    refine Refuses.bind_avoids (Task.refuses_iterate fun s h sol hsol lam hlam => ?_) fun _ => ?_
    · exact multipliersAt_eq hc hs h hsol hlam
    · exact Avoids.bind (avoids_printTime _) fun _ => rfl
  · exact refuses_of_never (fun _ _ _ h => heval (Task.evaluates_of_failsAt h)) _

/-- An answer of wrong lengths to a subproblem ends the run. -/
theorem solve_of_answerShape {k : ℕ} {sol : QuadraticSolution α}
    (h : AnswerAt opt backend callback p k sol)
    (hshape : sol.x.length ≠ p.variableCount ∨ sol.lamX.length ≠ p.variableCount ∨
      sol.lamA.length ≠ p.constraintCount) :
    (solve opt backend callback p).outcome =
      .error (.error (.answerShape sol.x.length sol.lamX.length sol.lamA.length
        p.variableCount p.constraintCount)) := by
  obtain ⟨q, hq, hback⟩ := h
  obtain ⟨checked, first, s, hc, hs, hposed, rfl⟩ := exists_posed_of_getElem?_subproblems hq
  have hiter := Task.iter_of_getElem?_posed hposed
  rw [(Task.started_of_start hs).iter, Nat.zero_add] at hiter
  rw [← hiter] at hback
  have hstep : ((taskOf opt backend callback p checked).step s).outcome =
      .error (.error (.answerShape sol.x.length sol.lamX.length sol.lamA.length
        p.variableCount p.constraintCount)) := by
    rw [Task.step_eq, bind_of_error _ (Task.solveSubproblem_of_shape hback hshape)]
    rfl
  have hloop := Task.iterate_of_posed_error (List.mem_of_getElem? hposed) hstep
  rw [solve_of_check hc, bind_of_ok _ hs]
  dsimp only
  rw [bind_of_error _ hloop]

/-- A trial with the wrong number of constraint values is passed over. -/
theorem passesOver_of_count {k i : ℕ} {s : Iterate α}
    (hs : (runHeads opt backend callback p)[k]? = some s) {sol : QuadraticSolution α}
    {trial : Trial (Event α) α}
    (htrial : ((taskOf opt backend callback p checked).search s sol).trials[i]? = some trial)
    {f : α} (hf : p.objective.value ⟨k + 1, i + 1⟩ trial.point = .ok f) {c : Constraints α}
    (hconstraints : p.constraints = some c) {g : List α}
    (hg : c.values ⟨k + 1, i + 1⟩ trial.point = .ok g) (hlen : g.length ≠ p.constraintCount) :
    LineSearch.PassesOver opt.search s.x ((taskOf opt backend callback p checked).search s sol) i
      trial (.valueCount g.length p.constraintCount) := by
  have hanswer := Task.answer_of_getElem?_trials htrial
  rw [iter_of_getElem?_runHeads hs] at hanswer
  refine LineSearch.passesOver_run htrial ?_
  rw [hanswer]
  exact Task.meritAt_of_count hf hconstraints hg hlen

end Whole

/-- What is made of the dimensions of everything that a run is given. -/
structure DimensionSafe (opt : Options α) (backend : Backend α)
    (callback : Option (Snapshot α → Bool)) (p : Problem α) : Prop where
  /-- Nothing is read out of range: the only fault is that there is no room for the merits. -/
  in_range : ∀ fault, (solve opt backend callback p).outcome = .error (.fault fault) →
    fault = .room ∧ Vec.fits (opt.meritMemory + 1) = false
  /-- The regularizer reads only rows that are there. -/
  regularizer_in_range : ∀ hess, p.hessian = some hess → ∀ m x lam h, hess m x lam 1 = .ok h →
    ∃ d, h.withDiagonal? = some d ∧ Gershgorin.regularize? d = some (Gershgorin.regularize d)
  subproblems : ∀ q ∈ subproblems (solve opt backend callback p).journal,
    HasShape q.1 q.2 p.variableCount p.constraintCount
  /-- A gradient of the wrong length, whenever it is asked for. -/
  gradient : ∀ (k : ℕ) x f gradF,
    (pointsOf .gradient (calls (solve opt backend callback p).journal))[k]? = some x →
    p.objective.gradient ⟨k, 0⟩ x = .ok (f, gradF) → gradF.length ≠ p.variableCount →
    (solve opt backend callback p).outcome =
      .error (.error (.problem (.gradientLength gradF.length p.variableCount)))
  /-- A Jacobian, or values beside it, of wrong dimensions. -/
  jacobian : ∀ (k : ℕ) x c g jac,
    (pointsOf .jacobian (calls (solve opt backend callback p).journal))[k]? = some x →
    p.constraints = some c → c.jacobian ⟨k, 0⟩ x = .ok (g, jac) →
    (g.length ≠ p.constraintCount ∨ jac.height ≠ p.constraintCount ∨
      jac.cols ≠ p.variableCount) →
    (solve opt backend callback p).outcome =
      .error (.error (.problem (.jacobianShape jac.height jac.cols g.length p.constraintCount
        p.variableCount)))
  /-- A Hessian of wrong dimensions. -/
  hessian : ∀ (k : ℕ) x hess lam h,
    (pointsOf .hessian (calls (solve opt backend callback p).journal))[k]? = some x →
    p.hessian = some hess → MultipliersAt opt backend callback p k lam →
    hess ⟨k, 0⟩ x lam.g 1 = .ok h → (h.height ≠ p.variableCount ∨ h.cols ≠ p.variableCount) →
    (solve opt backend callback p).outcome =
      .error (.error (.problem (.hessianShape h.height h.cols p.variableCount)))
  /-- An answer of wrong lengths to a subproblem. -/
  answer : ∀ k sol, AnswerAt opt backend callback p k sol →
    (sol.x.length ≠ p.variableCount ∨ sol.lamX.length ≠ p.variableCount ∨
      sol.lamA.length ≠ p.constraintCount) →
    (solve opt backend callback p).outcome =
      .error (.error (.answerShape sol.x.length sol.lamX.length sol.lamA.length p.variableCount
        p.constraintCount))
  /-- Constraint values of the wrong number at a trial. -/
  values : ∀ checked (k i : ℕ) s sol trial f c g, p.check opt = .ok checked →
    (runHeads opt backend callback p)[k]? = some s → AnswerAt opt backend callback p k sol →
    ((taskOf opt backend callback p checked).search s sol).trials[i]? = some trial →
    p.objective.value ⟨k + 1, i + 1⟩ trial.point = .ok f → p.constraints = some c →
    c.values ⟨k + 1, i + 1⟩ trial.point = .ok g → g.length ≠ p.constraintCount →
    LineSearch.PassesOver opt.search s.x ((taskOf opt backend callback p checked).search s sol) i
      trial (.valueCount g.length p.constraintCount)

section Whole

variable {opt : Options α} {backend : Backend α} {callback : Option (Snapshot α → Bool)}
  {p : Problem α} {checked : Checked α} {first : Iterate α}

/-- A call is made only by a run whose problem passes the checks. -/
theorem exists_check_of_points {what : Evaluator} {k : ℕ} {x : List α}
    (h : (pointsOf what (calls (solve opt backend callback p).journal))[k]? = some x) :
    ∃ checked, p.check opt = .ok checked := by
  cases hc : p.check opt with
  | ok checked => exact ⟨checked, rfl⟩
  | error e =>
      rw [solve_of_check_error hc] at h
      cases h

/-- An evaluation of a derivative that fails ends the run with its error. -/
theorem solve_of_failsAt {what : Evaluator} {k : ℕ} {x : List α} {e : Failure (SolveError α)}
    (h : (pointsOf what (calls (solve opt backend callback p).journal))[k]? = some x)
    (hfails : ∀ checked, p.check opt = .ok checked →
      (taskOf opt backend callback p checked).FailsAt (MultipliersAt opt backend callback p) what k
        x e) : (solve opt backend callback p).outcome = .error e := by
  obtain ⟨checked, hc⟩ := exists_check_of_points h
  refine refuses_solve hc what k x e h ?_
  rw [Nat.zero_add]
  exact hfails checked hc

/-- The Hessian that is evaluated is that of the problem. -/
theorem curvature_of_points (hc : p.check opt = .ok checked) {k : ℕ} {x : List α}
    (h : (pointsOf .hessian (calls (solve opt backend callback p).journal))[k]? = some x)
    {hess : LagrangianHessian α} (hhess : p.hessian = some hess) :
    checked.curvature = .exact hess := by
  cases hcurvature : checked.curvature with
  | exact hess' =>
      have hpass := (Problem.passes_of_check hc).curvature
      rw [hcurvature] at hpass
      rw [Option.some.inj (hhess.symm.trans (Problem.curvature_eq_exact hpass).2)]
  | limitedMemory =>
      have havoid : Avoids .hessian (solve opt backend callback p) := by
        rw [solve_of_check hc]
        refine Avoids.bind (Task.avoids_hessian_start hcurvature _) fun first => ?_
        refine Avoids.bind (Task.avoids_hessian_iterate hcurvature _ _) fun _ => ?_
        exact Avoids.bind (avoids_printTime _) fun _ => rfl
      rw [havoid] at h
      cases h

/-- Whatever the functions of the problem and the solver of the subproblems answer, its dimensions
are checked before it is used. -/
theorem dimensionSafe_of_answering (hp : p.Answering) (hb : backend.Answering) :
    DimensionSafe opt backend callback p where
  in_range fault hfault := noRoom_solve hp hb _ hfault fault rfl
  regularizer_in_range hess hhess m x lam h hok := by
    obtain ⟨hwell, hroom⟩ := hp.hessian_wellFormed hess hhess m x lam 1 h hok
    obtain ⟨d, hd⟩ := SparseMatrix.exists_withDiagonal hwell hroom
    exact ⟨d, hd, regularize?_withDiagonal hd⟩
  subproblems _ hq := hasShape_of_mem_subproblems hp hq
  gradient _ _ _ _ hx hok hlen :=
    solve_of_failsAt hx fun _ _ => Task.gradientAt_of_length hok hlen
  jacobian _ _ _ _ _ hx hc hok hshape :=
    solve_of_failsAt hx fun _ _ => Task.jacobianAt_of_shape hc hok hshape
  hessian _ _ hess lam _ hx hhess hlam hok hshape :=
    solve_of_failsAt hx fun _ hc =>
      ⟨hess, lam, curvature_of_points hc hx hhess, hlam, Task.hessianAt_of_shape hok hshape⟩
  answer _ _ hsol hshape := solve_of_answerShape hsol hshape
  values _ _ _ _ _ _ _ _ _ _ hs _ htrial hf hconstraints hg hlen :=
    passesOver_of_count hs htrial hf hconstraints hg hlen

end Whole

/-! ## A solver that answers nothing -/

section Empty

theorem cliff_answering : cliff.Answering where
  value m x f := by
    unfold cliff
    dsimp only
    split <;> nofun
  gradient m x f := by
    unfold cliff
    dsimp only
    split <;> nofun
  values _ hc := by cases hc
  jacobian _ hc := by cases hc
  hessian _ hh _ _ _ _ _ := by
    cases hh
    nofun
  jacobian_wellFormed _ hc := by cases hc
  hessian_wellFormed _ hh _ _ _ _ _ hok := by
    cases hh
    cases hok
    exact ⟨SparseMatrix.wellFormed_ofRows (by simp), by decide⟩

/-- The answer to every subproblem has no entries. -/
def emptyBackend : Backend Extended :=
  fun _ _ _ => Pure.pure ⟨[], [], []⟩

theorem emptyBackend_answering : emptyBackend.Answering :=
  nofun

/-- The run is refused its first answer. -/
theorem empty_dimensionSafe :
    cliff.Answering ∧ emptyBackend.Answering ∧
      DimensionSafe leapOptions emptyBackend none cliff ∧
      (solve leapOptions emptyBackend none cliff).outcome =
        .error (.error (.answerShape 0 0 0 1 0)) := by
  have hsafe : DimensionSafe leapOptions emptyBackend none cliff :=
    dimensionSafe_of_answering cliff_answering emptyBackend_answering
  have hstart : ((taskOf leapOptions emptyBackend none cliff cliffChecked).start
      cliffChecked.multipliers).outcome = .ok leapHead := leap_start
  have hverdict : (taskOf leapOptions emptyBackend none cliff cliffChecked).verdict leapHead =
      none := leap_verdict
  have hanswer : AnswerAt leapOptions emptyBackend none cliff 0 ⟨[], [], []⟩ :=
    ⟨_, getElem?_subproblems_of_start leap_check hstart hverdict (by decide), rfl⟩
  exact ⟨cliff_answering, emptyBackend_answering, hsafe,
    hsafe.answer 0 ⟨[], [], []⟩ hanswer (.inl (by decide))⟩

end Empty

end Nonlinear

end SeqQuad
