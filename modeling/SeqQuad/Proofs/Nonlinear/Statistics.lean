import SeqQuad.Proofs.Nonlinear.Answers
import SeqQuad.Proofs.Nonlinear.Calls
import SeqQuad.Proofs.Nonlinear.Coherence
import SeqQuad.Proofs.Nonlinear.SearchLimit

/-!
# Statistics of a run

The calls in the journal of a run that returns are accounted for by its records. The derivatives
are evaluated once at every head. Every trial of every search calls the objective, and the
constraints only where the objective has a value. The number of searches that do not succeed is
carried along. Nothing here depends on the arithmetic.
-/

namespace SeqQuad.Nonlinear

open Journaled

/-! ## What is read off a journal -/

section Journal

variable {α : Type}

/-- The points of the calls of one function, in order. -/
def pointsOf (what : Evaluator) (cs : List (Evaluator × List α)) : List (List α) :=
  cs.filterMap fun call => if call.1 = what then some call.2 else none

/-- The moments of the trials that are counted in the records. -/
def trialMoments (rs : List (IterationRecord α)) : List Moment :=
  rs.flatMap fun r => (List.range r.searchTrials).map fun i => ⟨r.iter, i + 1⟩

theorem length_trialMoments (rs : List (IterationRecord α)) :
    (trialMoments rs).length = (rs.map IterationRecord.searchTrials).sum := by
  simp [trialMoments, List.length_flatMap]

/-- The trials of a run: when each was made, and where. -/
def trials (journal : List (Event α)) : List (Moment × List α) :=
  (trialMoments (records journal)).zip (pointsOf .objective (calls journal))

theorem pointsOf_append (what : Evaluator) (l l' : List (Evaluator × List α)) :
    pointsOf what (l ++ l') = pointsOf what l ++ pointsOf what l' :=
  List.filterMap_append

theorem countP_isEvaluation (what : Evaluator) (journal : List (Event α)) :
    journal.countP (Event.isEvaluation what) = (pointsOf what (calls journal)).length := by
  unfold pointsOf calls
  rw [List.length_filterMap_eq_countP, List.countP_filterMap]
  refine List.countP_congr fun e _ => ?_
  cases e <;> simp [Event.isEvaluation, Event.call?]

theorem countP_isSubproblem (journal : List (Event α)) :
    journal.countP Event.isSubproblem = (subproblems journal).length := by
  unfold subproblems
  rw [List.length_filterMap_eq_countP]
  refine List.countP_congr fun e _ => ?_
  cases e <;> simp [Event.isSubproblem, Event.subproblem?]

theorem countP_isShown (journal : List (Event α)) :
    journal.countP Event.isShown = (snapshots journal).length := by
  unfold snapshots
  rw [List.length_filterMap_eq_countP]
  refine List.countP_congr fun e _ => ?_
  cases e <;> simp [Event.isShown, Event.snapshot?]

end Journal

variable {α : Type} [Scalar α]

namespace Task

variable {t : Task α}

/-! ## Iterations in a row -/

/-- Iterations from `s` through the heads of the list to the last of them. -/
inductive Path (t : Task α) : Iterate α → List (Iterate α) → Iterate α → Prop
  | stay (s : Iterate α) : Path t s [] s
  | go {s next last : Iterate α} {rest : List (Iterate α)} (step : (t.step s).outcome = .ok next)
      (tail : Path t next rest last) : Path t s (next :: rest) last

/-- The heads of a loop that ends well are iterations in a row, each of which poses a
subproblem. -/
theorem exists_path {left : ℕ} {s s' : Iterate α} {status : Status}
    (h : (t.iterate left s).outcome = .ok (status, s')) :
    ∃ rest, t.Path s rest s' ∧ t.heads left s = s :: rest ∧
      t.posed left s = (s :: rest).dropLast := by
  induction left generalizing s with
  | zero =>
      obtain ⟨hmem, -⟩ := iterate_eq_ok h
      obtain rfl := List.mem_singleton.mp hmem
      exact ⟨[], .stay s', rfl, rfl⟩
  | succ left ih =>
      rw [iterate_succ] at h
      obtain ⟨_, _, h⟩ := outcome_bind_eq_ok.mp h
      cases hv : t.verdict s with
      | some st =>
          simp only [hv] at h
          obtain ⟨rfl, rfl⟩ := Prod.mk.inj (Except.ok.inj h)
          exact ⟨[], .stay s, heads_of_verdict hv, posed_of_verdict hv⟩
      | none =>
          simp only [hv] at h
          obtain ⟨next, hnext, h⟩ := outcome_bind_eq_ok.mp h
          obtain ⟨rest, hpath, hheads, hposed⟩ := ih h
          refine ⟨next :: rest, .go hnext hpath, ?_, ?_⟩
          · rw [heads_of_step hv hnext, hheads]
          · rw [posed_of_step hv hnext, hposed, List.dropLast_cons_cons]

namespace Path

variable {s last : Iterate α} {rest : List (Iterate α)}

theorem iter (h : t.Path s rest last) :
    (s :: rest).map Iterate.iter = List.range' s.iter (rest.length + 1) ∧
      last.iter = s.iter + rest.length := by
  induction h with
  | stay s => exact ⟨rfl, rfl⟩
  | go hstep _ ih =>
      obtain ⟨sol, hstepped⟩ := stepped_of_step hstep
      obtain ⟨hnumbers, hlast⟩ := ih
      rw [hstepped.iter] at hnumbers hlast
      refine ⟨?_, ?_⟩
      · rw [List.map_cons, hnumbers, List.length_cons]
        rfl
      · rw [hlast, List.length_cons]
        omega

theorem getLast? (h : t.Path s rest last) : (s :: rest).getLast? = some last := by
  induction h with
  | stay s => rfl
  | go _ _ ih => rw [List.getLast?_cons_cons, ih]

/-- The number of failed searches grows by those on the path. -/
theorem searchFailures (h : t.Path s rest last) :
    last.searchFailures = s.searchFailures + rest.countP fun s' => !s'.searchSuccess := by
  induction h with
  | stay s => rfl
  | @go s next last rest hstep _ ih =>
      have hcount := searchFailures_of_step hstep
      rw [ih, hcount, List.countP_cons]
      cases next.searchSuccess <;> simp
      omega

/-- Each head but the last is followed by another. -/
theorem exists_step (h : t.Path s rest last) :
    ∀ s' ∈ (s :: rest).dropLast, ∃ next, (t.step s').outcome = .ok next := by
  induction h with
  | stay s => simp
  | go hstep _ ih =>
      rw [List.dropLast_cons_cons]
      exact List.forall_mem_cons.mpr ⟨⟨_, hstep⟩, ih⟩

/-- What is read off each iteration is read off the head that it leads to. -/
theorem flatMap_dropLast {β : Type} {F G : Iterate α → List β} (h : t.Path s rest last)
    (hFG : ∀ s s', (t.step s).outcome = .ok s' → F s = G s') :
    ((s :: rest).dropLast).flatMap F = rest.flatMap G := by
  induction h with
  | stay s => rfl
  | go hstep _ ih => rw [List.dropLast_cons_cons, List.flatMap_cons, List.flatMap_cons, ih, hFG _ _ hstep]

end Path

/-! ## Calls of the loop -/

/-- The derivatives that are evaluated at every head. -/
def evaluates (t : Task α) : Evaluator → Bool
  | .objective | .constraints => false
  | .gradient => true
  | .jacobian => t.problem.constraints.isSome
  | .hessian =>
      match t.curvature with
      | .exact _ => true
      | .limitedMemory => false

/-- The functions that are evaluated at a trial. -/
def tries (t : Task α) (what : Evaluator) (trial : Moment × List α) : Bool :=
  match what with
  | .objective => true
  | .constraints =>
      t.problem.constraints.isSome && (t.problem.objective.value trial.1 trial.2).isOk
  | .gradient | .jacobian | .hessian => false

omit [Scalar α] in
theorem pointsOf_derivativeCalls (what : Evaluator) (x : List α) :
    pointsOf what (t.derivativeCalls x) = if t.evaluates what then [x] else [] := by
  unfold derivativeCalls evaluates pointsOf
  cases t.problem.constraints <;> cases t.curvature <;> cases what <;> rfl

omit [Scalar α] in
theorem pointsOf_trialCalls (what : Evaluator) (trials : List (Moment × List α)) :
    pointsOf what (trials.flatMap fun e => t.trialCalls e.1 e.2) =
      (trials.filter (t.tries what)).map Prod.snd := by
  induction trials with
  | nil => rfl
  | cons e trials ih =>
      have hhere : pointsOf what (t.trialCalls e.1 e.2) = if t.tries what e then [e.2] else [] := by
        unfold pointsOf trialCalls tries
        cases t.problem.constraints <;> cases (t.problem.objective.value e.1 e.2).isOk <;>
          cases what <;> rfl
      rw [List.flatMap_cons, pointsOf_append, ih, hhere, List.filter_cons]
      split <;> rfl

/-- An iteration calls a function at its trials or where it leads. -/
theorem pointsOf_step (what : Evaluator) {s s' : Iterate α} (h : (t.step s).outcome = .ok s') :
    pointsOf what (calls (t.step s).journal) =
      ((t.trialsFrom s).filter (t.tries what)).map Prod.snd ++
        if t.evaluates what then [s'.x] else [] := by
  rw [calls_step h, pointsOf_append, pointsOf_trialCalls, pointsOf_derivativeCalls]

/-- An iteration evaluates a derivative where it leads. -/
theorem pointsOf_step_of_derivative {what : Evaluator} (hwhat : ∀ e, t.tries what e = false)
    {s s' : Iterate α} (h : (t.step s).outcome = .ok s') :
    pointsOf what (calls (t.step s).journal) = if t.evaluates what then [s'.x] else [] := by
  rw [pointsOf_step what h, List.filter_eq_nil_iff.mpr (by simp [hwhat])]
  rfl

theorem calls_headEvents (s : Iterate α) : (t.headEvents s).filterMap Event.call? = [] := by
  have hnote : ∀ e ∈ t.tableNotes s, e.call? = none := by
    intro e he
    obtain ⟨n, rfl⟩ := exists_note_of_mem_tableNotes he
    rfl
  unfold headEvents
  rw [List.filterMap_append, List.filterMap_append, List.filterMap_eq_nil_iff.mpr hnote]
  split <;> rfl

theorem calls_iterate (left : ℕ) (s : Iterate α) :
    calls (t.iterate left s).journal =
      (t.posed left s).flatMap fun s' => calls (t.step s').journal :=
  filterMap_iterate_posed calls_headEvents (fun _ => rfl) left s

namespace Path

variable {s last : Iterate α} {rest : List (Iterate α)}

/-- The derivatives are evaluated at every head that the path comes to. -/
theorem pointsOf_derivative (h : t.Path s rest last) {what : Evaluator}
    (hwhat : ∀ e, t.tries what e = false) :
    pointsOf what ((s :: rest).dropLast.flatMap fun s' => calls (t.step s').journal) =
      if t.evaluates what then rest.map Iterate.x else [] := by
  have hread : pointsOf what ((s :: rest).dropLast.flatMap fun s' => calls (t.step s').journal) =
      (s :: rest).dropLast.flatMap fun s' => pointsOf what (calls (t.step s').journal) :=
    List.filterMap_flatMap
  rw [hread, h.flatMap_dropLast fun _ _ => pointsOf_step_of_derivative hwhat]
  split
  · exact List.flatMap_pure_eq_map _ _
  · simp

/-- The values are asked for at the trials of the path. -/
theorem pointsOf_trials (h : t.Path s rest last) {what : Evaluator}
    (hwhat : t.evaluates what = false) :
    pointsOf what ((s :: rest).dropLast.flatMap fun s' => calls (t.step s').journal) =
      (((s :: rest).dropLast.flatMap t.trialsFrom).filter (t.tries what)).map Prod.snd := by
  have hstep : ∀ s' ∈ (s :: rest).dropLast, pointsOf what (calls (t.step s').journal) =
      ((t.trialsFrom s').filter (t.tries what)).map Prod.snd := by
    intro s' hs'
    obtain ⟨next, hnext⟩ := h.exists_step s' hs'
    rw [pointsOf_step what hnext, hwhat]
    simp
  have hread : pointsOf what ((s :: rest).dropLast.flatMap fun s' => calls (t.step s').journal) =
      (s :: rest).dropLast.flatMap fun s' => pointsOf what (calls (t.step s').journal) :=
    List.filterMap_flatMap
  rw [hread, List.filter_flatMap, List.map_flatMap]
  exact List.flatMap_congr hstep

/-- The trials of the path are made at the moments that its records count. -/
theorem moments (h : t.Path s rest last) :
    ((s :: rest).dropLast.flatMap t.trialsFrom).map Prod.fst =
      trialMoments (rest.map t.record) := by
  have hstep : ∀ s s', (t.step s).outcome = .ok s' → (t.trialsFrom s).map Prod.fst =
      (List.range s'.searchTrials).map fun i => (⟨s'.iter, i + 1⟩ : Moment) := by
    intro s s' hstep
    obtain ⟨sol, hstepped⟩ := stepped_of_step hstep
    rw [trialsFrom, hstepped.solveSubproblem, hstepped.searchTrials, hstepped.iter]
    unfold LineSearch.numbered
    apply List.ext_getElem <;> simp
  rw [List.map_flatMap, h.flatMap_dropLast hstep, trialMoments, List.flatMap_map]
  rfl

end Path

end Task

/-! ## Whole runs -/

/-- The record of the point and of the multipliers that are returned: the values at the point, and
the derivatives that were evaluated there. -/
structure Problem.RecordedAs (p : Problem α) (sol : Solution α) (r : IterationRecord α) : Prop where
  objective : r.objective = sol.f
  infPrimal : r.infPrimal = primalInfeasibility sol.x p.xmin p.xmax sol.g p.gmin p.gmax
  infDual : ∃ gradF jac, p.objective.gradient ⟨sol.iterCount, 0⟩ sol.x = .ok (sol.f, gradF) ∧
    (match p.constraints with
      | none => sol.g = [] ∧ jac = .empty 0 p.variableCount
      | some c => c.jacobian ⟨sol.iterCount, 0⟩ sol.x = .ok (sol.g, jac)) ∧
    r.infDual = Vec.normInf (lagrangianGradient gradF jac sol.multipliers)

/-- The statistics of a run that returned `sol`, read off its journal. -/
structure Accounted (opt : Options α) (callback : Option (Snapshot α → Bool)) (p : Problem α)
    (journal : List (Event α)) (sol : Solution α) : Prop where
  numbered : (records journal).map IterationRecord.iter = List.range (sol.iterCount + 1)
  subproblems : (CallCounts.ofJournal journal).subproblems = sol.iterCount
  gradient : (CallCounts.ofJournal journal).gradient = sol.iterCount + 1
  jacobian : (CallCounts.ofJournal journal).jacobian =
    if p.constraints.isSome then sol.iterCount + 1 else 0
  hessian : (CallCounts.ofJournal journal).hessian =
    if opt.hessian = .exact then sol.iterCount + 1 else 0
  callback : (CallCounts.ofJournal journal).callback =
    if callback.isSome then sol.iterCount + 1 else 0
  objective : (CallCounts.ofJournal journal).objective =
    ((records journal).map IterationRecord.searchTrials).sum
  constraints : (CallCounts.ofJournal journal).constraints =
    if p.constraints.isSome then
      (trials journal).countP fun trial => (p.objective.value trial.1 trial.2).isOk
    else 0
  searchFailures : sol.searchFailures = (records journal).countP fun r => !r.searchSuccess
  last : ∃ r, (records journal).getLast? = some r ∧ p.RecordedAs sol r

section Whole

variable {opt : Options α} {backend : Backend α} {callback : Option (Snapshot α → Bool)}
  {p : Problem α} {checked : Checked α} {first last : Iterate α} {rest : List (Iterate α)}

/-- The calls of a run: those of its start, then those of its iterations. -/
theorem calls_solve (hc : p.check opt = .ok checked)
    (hs : ((taskOf opt backend callback p checked).start checked.multipliers).outcome =
      .ok first) :
    calls (solve opt backend callback p).journal =
      (taskOf opt backend callback p checked).derivativeCalls p.x0 ++
        ((taskOf opt backend callback p checked).posed opt.maxIter first).flatMap fun s =>
          calls ((taskOf opt backend callback p checked).step s).journal := by
  rw [solve_of_check hc, Task.calls_bind_of_ok hs, Task.calls_start hs,
    Task.calls_bind_of_right fun r => ?_, Task.calls_iterate]
  · rfl
  · rw [Task.calls_bind_of_right fun _ => rfl]
    cases opt.printTime <;> rfl

/-- The Hessian is evaluated in exact mode. -/
theorem Problem.Passes.evaluates_hessian (h : p.Passes opt checked) (backend : Backend α)
    (callback : Option (Snapshot α → Bool)) :
    (taskOf opt backend callback p checked).evaluates .hessian =
      decide (opt.hessian = .exact) := by
  have hcurvature := h.curvature
  unfold Task.evaluates taskOf
  cases hmode : opt.hessian with
  | exact =>
      obtain ⟨hess, -, hc⟩ := h.exists_hessian hmode
      rw [hc]
      rfl
  | limitedMemory =>
      rw [hmode] at hcurvature
      rw [← Except.ok.inj hcurvature]
      rfl

/-- A run that went from its first head through the others to the last and returned there. -/
structure Completed (opt : Options α) (backend : Backend α)
    (callback : Option (Snapshot α → Bool)) (p : Problem α) (checked : Checked α)
    (first : Iterate α) (rest : List (Iterate α)) (last : Iterate α) : Prop where
  check : p.check opt = .ok checked
  start : ((taskOf opt backend callback p checked).start checked.multipliers).outcome = .ok first
  path : (taskOf opt backend callback p checked).Path first rest last
  heads : runHeads opt backend callback p = first :: rest
  posed : (taskOf opt backend callback p checked).posed opt.maxIter first =
    (first :: rest).dropLast

theorem exists_completed {sol : Solution α} (h : (solve opt backend callback p).outcome = .ok sol) :
    ∃ checked first rest last, Completed opt backend callback p checked first rest last ∧
      sol = ⟨last.x, last.f, last.g, last.multipliers, sol.status, last.iter,
        last.searchFailures⟩ := by
  obtain ⟨checked, first, last, hc, hs, hloop, hsol⟩ := exists_iterate_of_solve h
  obtain ⟨rest, hpath, hheads, hposed⟩ := Task.exists_path hloop
  exact ⟨checked, first, rest, last,
    ⟨hc, hs, hpath, (runHeads_of_start hc hs).trans hheads, hposed⟩, hsol⟩

namespace Completed

variable (h : Completed opt backend callback p checked first rest last)

include h

theorem iter_first : first.iter = 0 :=
  (Task.started_of_start h.start).iter

theorem iter_last : last.iter = rest.length := by
  rw [h.path.iter.2, h.iter_first, Nat.zero_add]

theorem records_eq : records (solve opt backend callback p).journal =
    (first :: rest).map (taskOf opt backend callback p checked).record := by
  rw [records_solve h.check, h.heads]

/-- A derivative is evaluated at every head or at none. -/
theorem length_pointsOf_derivative {what : Evaluator}
    (hwhat : ∀ trial, (taskOf opt backend callback p checked).tries what trial = false) :
    (pointsOf what (calls (solve opt backend callback p).journal)).length =
      if (taskOf opt backend callback p checked).evaluates what then rest.length + 1 else 0 := by
  rw [calls_solve h.check h.start, h.posed, pointsOf_append, Task.pointsOf_derivativeCalls,
    h.path.pointsOf_derivative hwhat]
  split <;> simp [Nat.add_comm]

/-- The values are asked for at trials only. -/
theorem pointsOf_trials {what : Evaluator}
    (hwhat : (taskOf opt backend callback p checked).evaluates what = false) :
    pointsOf what (calls (solve opt backend callback p).journal) =
      (((first :: rest).dropLast.flatMap
        (taskOf opt backend callback p checked).trialsFrom).filter
          ((taskOf opt backend callback p checked).tries what)).map Prod.snd := by
  rw [calls_solve h.check h.start, h.posed, pointsOf_append, Task.pointsOf_derivativeCalls, hwhat,
    h.path.pointsOf_trials hwhat]
  rfl

theorem trialMoments_eq : trialMoments (records (solve opt backend callback p).journal) =
    ((first :: rest).dropLast.flatMap
      (taskOf opt backend callback p checked).trialsFrom).map Prod.fst := by
  have hfirst : first.searchTrials = 0 := (Task.started_of_start h.start).searchTrials
  rw [h.path.moments, h.records_eq, List.map_cons]
  simp [trialMoments, Task.record, hfirst]

theorem objective_points : pointsOf .objective (calls (solve opt backend callback p).journal) =
    ((first :: rest).dropLast.flatMap
      (taskOf opt backend callback p checked).trialsFrom).map Prod.snd := by
  rw [h.pointsOf_trials rfl]
  exact congrArg _ (List.filter_eq_self.mpr fun _ _ => rfl)

/-- The trials of a run are those of its searches. -/
theorem trials_eq : trials (solve opt backend callback p).journal =
    (first :: rest).dropLast.flatMap (taskOf opt backend callback p checked).trialsFrom := by
  rw [trials, h.trialMoments_eq, h.objective_points]
  exact (List.zip_of_prod rfl rfl).symm

/-- The constraints are asked for where the objective has a value. -/
theorem length_constraint_points :
    (pointsOf .constraints (calls (solve opt backend callback p).journal)).length =
      if p.constraints.isSome then
        (trials (solve opt backend callback p).journal).countP fun trial =>
          (p.objective.value trial.1 trial.2).isOk
      else 0 := by
  rw [h.pointsOf_trials rfl, List.length_map, ← List.countP_eq_length_filter, h.trials_eq]
  unfold Task.tries taskOf
  cases p.constraints <;> simp

theorem last_mem : last ∈ runHeads opt backend callback p := by
  rw [h.heads]
  exact List.mem_of_getLast? h.path.getLast?

theorem length_runSnapshots : (runSnapshots opt backend callback p).length = rest.length + 1 := by
  rw [runSnapshots_of_check h.check, h.heads, List.length_map, List.length_cons]

theorem searchFailures_eq : last.searchFailures =
    (records (solve opt backend callback p).journal).countP fun r => !r.searchSuccess := by
  have hfirst := Task.started_of_start h.start
  have hsuccess : ((taskOf opt backend callback p checked).record first).searchSuccess = true :=
    hfirst.searchSuccess
  rw [h.path.searchFailures, hfirst.searchFailures, h.records_eq, List.map_cons,
    List.countP_cons_of_neg (by simp [hsuccess]), List.countP_map, Nat.zero_add]
  rfl

/-- The last record is that of the point and of the multipliers that are returned. -/
theorem recordedAs {sol : Solution α} (hsol : sol = ⟨last.x, last.f, last.g, last.multipliers,
      sol.status, last.iter, last.searchFailures⟩) :
    p.RecordedAs sol ((taskOf opt backend callback p checked).record last) := by
  rw [hsol]
  obtain ⟨checked', -, hcurrent⟩ := current_of_mem_runHeads last h.last_mem
  refine ⟨rfl, rfl, last.gradF, last.jacobian, ?_, ?_, congrArg Vec.normInf hcurrent.lagrangian⟩
  · exact (Task.gradientAt_eq_ok.mp hcurrent.gradient).1
  · have hvalues := hcurrent.values
    unfold Task.JacobianAnswer taskOf at hvalues
    cases hconstraints : p.constraints with
    | none => simpa [hconstraints] using hvalues
    | some c =>
        simp only [hconstraints] at hvalues
        exact hvalues.1

end Completed

/-- The records and the calls of a run that returns account for each other. -/
theorem accounted_of_solve {sol : Solution α}
    (h : (solve opt backend callback p).outcome = .ok sol) :
    Accounted opt callback p (solve opt backend callback p).journal sol := by
  obtain ⟨checked, first, rest, last, hrun, hsol⟩ := exists_completed h
  have hcount : sol.iterCount = rest.length := by
    rw [hsol, hrun.iter_last]
  have hexact := (Problem.passes_of_check hrun.check).evaluates_hessian backend callback
  refine ⟨?_, ?_, ?_, ?_, ?_, ?_, ?_, ?_, ?_, ?_⟩
  · rw [hrun.records_eq, hcount, List.map_map, List.range_eq_range', ← hrun.iter_first]
    exact hrun.path.iter.1
  · refine (countP_isSubproblem _).trans ?_
    rw [subproblems_solve hrun.check hrun.start, hrun.posed, hcount, List.length_map,
      List.length_dropLast, List.length_cons, Nat.add_sub_cancel]
  · rw [hcount]
    exact (countP_isEvaluation _ _).trans (hrun.length_pointsOf_derivative fun _ => rfl)
  · rw [hcount]
    exact (countP_isEvaluation _ _).trans (hrun.length_pointsOf_derivative fun _ => rfl)
  · rw [hcount]
    refine (countP_isEvaluation _ _).trans ((hrun.length_pointsOf_derivative fun _ => rfl).trans ?_)
    simp [hexact]
  · refine (countP_isShown _).trans ?_
    rw [snapshots_solve, hcount, ← hrun.length_runSnapshots]
    split <;> rfl
  · refine (countP_isEvaluation _ _).trans ?_
    rw [← length_trialMoments, hrun.trialMoments_eq, hrun.objective_points, List.length_map,
      List.length_map]
  · exact (countP_isEvaluation _ _).trans hrun.length_constraint_points
  · rw [hsol]
    exact hrun.searchFailures_eq
  · refine ⟨_, ?_, hrun.recordedAs hsol⟩
    rw [hrun.records_eq, List.getLast?_map, hrun.path.getLast?]
    rfl

end Whole

/-- The run over the edge is accounted for. -/
theorem leap_accounted :
    ∃ sol, (solve leapOptions leapBackend none cliff).outcome = .ok sol ∧ sol.iterCount = 1 ∧
      Accounted leapOptions none cliff (solve leapOptions leapBackend none cliff).journal sol := by
  obtain ⟨next, sol, -, -, hsolve, hcount, -⟩ := leap_solve
  exact ⟨sol, hsolve, hcount, accounted_of_solve hsolve⟩

end SeqQuad.Nonlinear
