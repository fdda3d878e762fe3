import SeqQuad.Proofs.Nonlinear.Events

/-!
# Calls of one iteration

An iteration solves its subproblem and follows the answer: it searches along it, and lands where
the search ended. Each trial of the search calls the objective, and the constraints only where the
objective has a value; the landing calls each derivative once.
-/

namespace SeqQuad

namespace Journaled

variable {ω ε β γ δ : Type}

theorem filterMap_bind_of_ok {f : ω → Option δ} {c : Journaled ω ε β} {b : β}
    {g : β → Journaled ω ε γ} (h : c.outcome = .ok b) :
    (c >>= g).journal.filterMap f = c.journal.filterMap f ++ (g b).journal.filterMap f := by
  rw [bind_of_ok g h, List.filterMap_append]

theorem outcome_noteIf (condition : Bool) (entries : List ω) :
    (noteIf condition entries : Journaled ω ε Unit).outcome = .ok () :=
  rfl

end Journaled

namespace LineSearch

variable {ω α : Type}

/-! ## Trials of a search -/

/-- The trials of a search: their numbers, from one, and points. -/
def numbered (trials : List (Trial ω α)) : List (ℕ × List α) :=
  trials.mapIdx fun i trial => (i + 1, trial.point)

@[simp]
theorem length_numbered (trials : List (Trial ω α)) :
    (numbered trials).length = trials.length := by
  simp [numbered]

/-- What is read off the journal of a search, if nothing is read off its notes, is read off its
trials. -/
theorem filterMap_journal {δ : Type} {f : ω → Option δ} {embed : Note α → ω}
    (hf : ∀ n, f (embed n) = none) (s : LineSearch ω α) :
    (s.journal embed).filterMap f =
      s.trials.flatMap fun trial => trial.answer.journal.filterMap f := by
  have hnotes : (s.endNotes.map embed).filterMap f = [] := by
    rw [List.filterMap_eq_nil_iff]
    intro e he
    obtain ⟨n, -, rfl⟩ := List.mem_map.mp he
    exact hf n
  have htrial : ∀ i (trial : Trial ω α),
      (trialJournal embed i trial).filterMap f = trial.answer.journal.filterMap f := by
    intro i trial
    unfold trialJournal
    split <;> simp [hf]
  have htrials : (s.trials.mapIdx fun i trial => trialJournal embed (i + 1) trial).map
      (List.filterMap f) = s.trials.map fun trial => trial.answer.journal.filterMap f := by
    apply List.ext_getElem <;> simp [htrial]
  unfold journal
  rw [List.filterMap_append, hnotes, List.append_nil, List.filterMap_flatten, htrials,
    List.flatMap_def]

variable [Scalar α] {opt : Options α} {x dx : List α} {slope reference : α}
  {merit : ℕ → List α → Journaled ω (Failure EvaluationError) α}

theorem answers_backtrack {fuel made : ℕ} {t : α} {tried : List (Trial ω α)}
    (hmade : tried.length = made)
    (h : tried.reverse.map Trial.answer =
      (numbered tried.reverse).map fun e => merit e.1 e.2) :
    (backtrack opt x dx slope reference merit fuel made t tried).trials.map Trial.answer =
      (numbered (backtrack opt x dx slope reference merit fuel made t tried).trials).map
        fun e => merit e.1 e.2 := by
  induction fuel generalizing made t tried with
  | zero => exact h
  | succ fuel ih =>
      have hall : (⟨t, Vec.along x dx t, merit (made + 1) (Vec.along x dx t)⟩ ::
          tried : List (Trial ω α)).reverse.map Trial.answer =
            (numbered (⟨t, Vec.along x dx t, merit (made + 1) (Vec.along x dx t)⟩ ::
              tried).reverse).map fun e => merit e.1 e.2 := by
        simp [numbered, hmade] at h ⊢
        exact h
      have hnext := fun t' => ih (t := t') (by rw [List.length_cons, hmade]) hall
      rw [backtrack]
      split
      · split
        · exact hall
        · split
          · exact hall
          · exact hnext _
      · exact hall
      · split
        · exact hall
        · exact hnext _

/-- The trials of a search are answered by the merit function under their numbers. -/
theorem answers_run {history : MeritWindow α} :
    (run opt x dx slope history merit).trials.map Trial.answer =
      (numbered (run opt x dx slope history merit).trials).map fun e => merit e.1 e.2 := by
  unfold run
  split
  · rfl
  · exact answers_backtrack rfl rfl

end LineSearch

namespace Nonlinear

open Journaled

/-! ## Calls in a journal -/

section Calls

variable {α : Type}

/-- The function of the problem that is called, and the point. -/
def Event.call? : Event α → Option (Evaluator × List α)
  | .evaluation what x => some (what, x)
  | _ => none

/-- The calls of the functions of the problem, in order, each with its point. -/
def calls (journal : List (Event α)) : List (Evaluator × List α) :=
  journal.filterMap Event.call?

end Calls

namespace Task

variable {α : Type} [Scalar α] {t : Task α}

/-! ## The stages of an iteration -/

/-- The derivatives where a search ended, and the iterate there. -/
def land (t : Task α) (s : Iterate α) (sol : QuadraticSolution α)
    (search : LineSearch (Event α) α) : Run α (Iterate α) := do
  let lam := t.nextMultipliers s sol search.t
  let (g, jacobian) ← t.jacobianAt ⟨s.iter + 1, 0⟩ search.point
  let (f, gradF) ← t.gradientAt ⟨s.iter + 1, 0⟩ search.point
  .ofExcept (Failure.ensure jacobian.Readable .index)
  let glag := lagrangianGradient gradF jacobian lam
  let (hessian, regularization) ← t.nextHessian s search.point glag lam
  return {
    iter := s.iter + 1
    x := search.point
    multipliers := lam
    f := f
    gradF := gradF
    g := g
    jacobian := jacobian
    gradLagrangian := glag
    hessian := hessian
    regularization := regularization
    step := sol.x
    sigma := nextSigma s.sigma sol
    merits := t.nextMerits s sol
    searchTrials := search.trials.length
    searchSuccess := search.success
    searchFailures := s.searchFailures + if search.success then 0 else 1 }

/-- What follows the answer to a subproblem. -/
def follow (t : Task α) (s : Iterate α) (sol : QuadraticSolution α) : Run α (Iterate α) := do
  .note [.note (.step sol.x)]
  .ofExcept (Failure.ensure s.hessian.Readable .index)
  .noteIf (s.hessian.quadForm sol.x < 0) [.note .indefinite]
  .note ((t.search s sol).journal fun n => .note (.search n))
  match (t.search s sol).fault? with
  | some fault => .fail (.fault fault)
  | none => t.land s sol (t.search s sol)

theorem step_eq (s : Iterate α) : t.step s = t.solveSubproblem s >>= t.follow s := by
  unfold step follow land
  refine congrArg _ (funext fun sol => ?_)
  cases hfault : (t.search s sol).fault? with
  | some fault =>
      simp only [hfault]
      rfl
  | none => simp only [hfault]

/-! ## Calls of the parts of an iteration -/

omit [Scalar α] in
theorem calls_bind_of_ok {ε β γ : Type} {c : Journaled (Event α) ε β} {b : β}
    {f : β → Journaled (Event α) ε γ} (h : c.outcome = .ok b) :
    calls (c >>= f).journal = calls c.journal ++ calls (f b).journal :=
  filterMap_bind_of_ok h

omit [Scalar α] in
/-- What follows makes no calls. -/
theorem calls_bind_of_right {ε β γ : Type} {c : Journaled (Event α) ε β}
    {f : β → Journaled (Event α) ε γ} (h : ∀ b, calls (f b).journal = []) :
    calls (c >>= f).journal = calls c.journal :=
  filterMap_bind_of_right h

omit [Scalar α] in
theorem calls_noteIf {ε : Type} (condition : Bool) (n : Note α) :
    calls (noteIf condition [.note n] : Journaled (Event α) ε Unit).journal = [] := by
  cases condition <;> rfl

omit [Scalar α] in
theorem calls_require {β : Type} (what : Evaluator) (x : List α) (answer : Evaluated β) :
    calls (require what x answer).journal = [(what, x)] := by
  unfold require calls
  rw [journal_note_bind]
  split
  · rfl
  · rfl
  · rfl

omit [Scalar α] in
theorem calls_jacobianAt (m : Moment) (x : List α) :
    calls (t.jacobianAt m x).journal =
      if t.problem.constraints.isSome then [(.jacobian, x)] else [] := by
  unfold jacobianAt
  cases t.problem.constraints with
  | none => rfl
  | some c =>
      refine (calls_bind_of_right fun r => ?_).trans (calls_require .jacobian x _)
      obtain ⟨g, jac⟩ := r
      dsimp only
      split <;> rfl

omit [Scalar α] in
theorem calls_gradientAt (m : Moment) (x : List α) :
    calls (t.gradientAt m x).journal = [(.gradient, x)] := by
  refine (calls_bind_of_right fun r => ?_).trans (calls_require .gradient x _)
  obtain ⟨f, gradF⟩ := r
  dsimp only
  split <;> rfl

theorem calls_hessianAt (hess : LagrangianHessian α) (m : Moment) (x lam : List α) :
    calls (t.hessianAt hess m x lam).journal = [(.hessian, x)] := by
  refine (calls_bind_of_right fun h => ?_).trans (calls_require .hessian x _)
  split <;> rfl

omit [Scalar α] in
theorem calls_objectiveAt (m : Moment) (x : List α) :
    calls (t.objectiveAt m x).journal = [(.objective, x)] := by
  unfold objectiveAt
  rw [calls_bind_of_ok (outcome_note _), calls_bind_of_right fun _ => rfl]
  rfl

omit [Scalar α] in
theorem calls_constraintsAt (m : Moment) (x : List α) :
    calls (t.constraintsAt m x).journal =
      if t.problem.constraints.isSome then [(.constraints, x)] else [] := by
  unfold constraintsAt
  cases t.problem.constraints with
  | none => rfl
  | some c =>
      dsimp only
      rw [calls_bind_of_ok (outcome_note _), calls_bind_of_right fun g => ?_]
      · rfl
      · split <;> rfl

/-- The calls of a trial at a point: the constraints follow where the objective has a value. -/
def trialCalls (t : Task α) (m : Moment) (x : List α) : List (Evaluator × List α) :=
  (.objective, x) ::
    if t.problem.constraints.isSome ∧ (t.problem.objective.value m x).isOk then [(.constraints, x)]
    else []

theorem calls_meritAt (sigma : α) (m : Moment) (x : List α) :
    calls (t.meritAt sigma m x).journal = t.trialCalls m x := by
  unfold meritAt trialCalls
  cases hf : t.problem.objective.value m x with
  | error e =>
      have hobjective : (t.objectiveAt m x).outcome = .error e := by
        unfold objectiveAt
        rw [bind_of_ok _ (outcome_note _), hf]
        rfl
      rw [bind_of_error _ hobjective]
      simpa [Except.isOk, Except.toBool] using calls_objectiveAt m x
  | ok f =>
      rw [calls_bind_of_ok (objectiveAt_eq_ok.mpr hf), calls_objectiveAt,
        calls_bind_of_right fun _ => rfl, calls_constraintsAt]
      simp [Except.isOk, Except.toBool]

/-- The calls of an iteration and of the start for the derivatives. -/
def derivativeCalls (t : Task α) (x : List α) : List (Evaluator × List α) :=
  (if t.problem.constraints.isSome then [(.jacobian, x)] else []) ++ [(.gradient, x)] ++
    match t.curvature with
    | .exact _ => [(.hessian, x)]
    | .limitedMemory => []

theorem calls_nextHessian (s : Iterate α) (x glag : List α) (lam : Multipliers α) :
    calls (t.nextHessian s x glag lam).journal =
      match t.curvature with
      | .exact _ => [(.hessian, x)]
      | .limitedMemory => [] := by
  unfold nextHessian
  cases t.curvature with
  | exact hess => exact calls_hessianAt hess _ x _
  | limitedMemory =>
      unfold nextApproximation
      dsimp only
      rw [calls_bind_of_right fun _ => rfl, calls_bind_of_ok (outcome_noteIf _ _), calls_noteIf,
        calls_bind_of_right fun _ => rfl]
      rfl

theorem calls_startHessian (lam : Multipliers α) :
    calls (t.startHessian lam).journal =
      match t.curvature with
      | .exact _ => [(.hessian, t.problem.x0)]
      | .limitedMemory => [] := by
  unfold startHessian
  cases t.curvature with
  | exact hess => exact calls_hessianAt hess _ _ _
  | limitedMemory => rfl

theorem calls_start {lam : Multipliers α} {s : Iterate α} (h : (t.start lam).outcome = .ok s) :
    calls (t.start lam).journal = t.derivativeCalls t.problem.x0 := by
  unfold start at h ⊢
  rcases outcome_bind_eq_ok.mp h with ⟨⟨g, jac⟩, hjac, h⟩
  rcases outcome_bind_eq_ok.mp h with ⟨⟨f, gradF⟩, hgrad, h⟩
  rw [calls_bind_of_ok hjac, calls_jacobianAt, calls_bind_of_ok hgrad, calls_gradientAt,
    calls_bind_of_right fun r => ?_, calls_startHessian, derivativeCalls, List.append_assoc]
  rw [calls_bind_of_ok (outcome_noteIf _ _), calls_noteIf, calls_bind_of_right fun _ => ?_]
  · rfl
  · exact calls_bind_of_right fun _ => rfl

/-- The trials of the search at a head, each with its moment and its point. -/
def trialsFrom (t : Task α) (s : Iterate α) : List (Moment × List α) :=
  match (t.solveSubproblem s).outcome with
  | .ok sol => (LineSearch.numbered (t.search s sol).trials).map fun e => (⟨s.iter + 1, e.1⟩, e.2)
  | .error _ => []

theorem calls_solveSubproblem (s : Iterate α) : calls (t.solveSubproblem s).journal = [] := by
  obtain ⟨rest, hrest, hinside⟩ := journal_solveSubproblem t s
  have hnone : ∀ e ∈ rest, e.call? = none := by
    intro e he
    have hnowhere := hinside (fun _ => False) e he
    cases e with
    | evaluation => exact hnowhere.elim
    | _ => rfl
  rw [hrest]
  exact List.filterMap_eq_nil_iff.mpr
    (List.forall_mem_cons.mpr ⟨rfl, List.forall_mem_cons.mpr ⟨rfl, hnone⟩⟩)

theorem calls_search (s : Iterate α) (sol : QuadraticSolution α) :
    calls ((t.search s sol).journal fun n => .note (.search n)) =
      (LineSearch.numbered (t.search s sol).trials).flatMap fun e =>
        t.trialCalls ⟨s.iter + 1, e.1⟩ e.2 := by
  have hanswers : (t.search s sol).trials.map Trial.answer =
      (LineSearch.numbered (t.search s sol).trials).map fun e =>
        t.meritAt (nextSigma s.sigma sol) ⟨s.iter + 1, e.1⟩ e.2 := LineSearch.answers_run
  have hread : calls ((t.search s sol).journal fun n => .note (.search n)) =
      ((t.search s sol).trials.map Trial.answer).flatMap fun answer => calls answer.journal := by
    rw [calls, LineSearch.filterMap_journal fun _ => rfl, List.flatMap_map]
    rfl
  rw [hread, hanswers, List.flatMap_map]
  simp only [calls_meritAt]

/-- The calls of the derivatives where a search ended. -/
theorem calls_land {s s' : Iterate α} {sol : QuadraticSolution α}
    {search : LineSearch (Event α) α} (h : (t.land s sol search).outcome = .ok s') :
    calls (t.land s sol search).journal = t.derivativeCalls search.point := by
  unfold land at h ⊢
  obtain ⟨⟨g, jac⟩, hjac, h⟩ := outcome_bind_eq_ok.mp h
  obtain ⟨⟨f, gradF⟩, hgrad, h⟩ := outcome_bind_eq_ok.mp h
  obtain ⟨_, hread, h⟩ := outcome_bind_eq_ok.mp h
  rw [calls_bind_of_ok hjac, calls_jacobianAt, calls_bind_of_ok hgrad, calls_gradientAt,
    calls_bind_of_ok hread, calls_bind_of_right fun _ => rfl, calls_nextHessian, derivativeCalls,
    List.append_assoc]
  rfl

theorem calls_follow {s s' : Iterate α} {sol : QuadraticSolution α}
    (h : (t.follow s sol).outcome = .ok s') :
    calls (t.follow s sol).journal =
      ((LineSearch.numbered (t.search s sol).trials).flatMap fun e =>
        t.trialCalls ⟨s.iter + 1, e.1⟩ e.2) ++ t.derivativeCalls (t.search s sol).point := by
  unfold follow at h ⊢
  obtain ⟨_, _, h⟩ := outcome_bind_eq_ok.mp h
  obtain ⟨_, hread, h⟩ := outcome_bind_eq_ok.mp h
  obtain ⟨_, _, h⟩ := outcome_bind_eq_ok.mp h
  obtain ⟨_, _, h⟩ := outcome_bind_eq_ok.mp h
  cases hfault : (t.search s sol).fault? with
  | some fault =>
      rw [hfault] at h
      cases h
  | none =>
      rw [hfault] at h
      rw [calls_bind_of_ok (outcome_note _), calls_bind_of_ok hread,
        calls_bind_of_ok (outcome_noteIf _ _), calls_bind_of_ok (outcome_note _), journal_note,
        journal_note, calls_noteIf, calls_search, calls_land h]
      rfl

/-- The calls of an iteration: those of its trials, then those of the derivatives where they
led. -/
theorem calls_step {s s' : Iterate α} (h : (t.step s).outcome = .ok s') :
    calls (t.step s).journal =
      ((t.trialsFrom s).flatMap fun e => t.trialCalls e.1 e.2) ++ t.derivativeCalls s'.x := by
  obtain ⟨sol, hstep⟩ := stepped_of_step h
  have hsol := hstep.solveSubproblem
  have htrials : t.trialsFrom s = (LineSearch.numbered (t.search s sol).trials).map
      fun e => (⟨s.iter + 1, e.1⟩, e.2) := by
    rw [trialsFrom, hsol]
  rw [step_eq] at h ⊢
  rw [bind_of_ok _ hsol] at h
  rw [calls_bind_of_ok hsol, calls_solveSubproblem, calls_follow h, htrials, List.flatMap_map,
    hstep.x]
  rfl

end Task

end Nonlinear

end SeqQuad
