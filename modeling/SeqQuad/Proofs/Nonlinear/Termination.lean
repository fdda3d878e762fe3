import SeqQuad.Proofs.Nonlinear.Answers
import SeqQuad.Proofs.Nonlinear.NonMonotone

/-!
# How a run ends

Each head is asked for four statuses in order, and a run ends at the first head where one of them
applies, with the first one that does. The limit of iterations is one of the four, so a run poses
no more subproblems than the limit allows.
-/

namespace SeqQuad.Nonlinear

open Journaled

section Rules

variable {α : Type} [Scalar α]

/-! ## The rules of the four statuses -/

/-- The statuses in the order in which a head is asked for them. -/
def Status.inOrder : List Status :=
  [.userRequestedStop, .converged, .maxIterationsExceeded, .stepTooSmall]

theorem Status.mem_inOrder (status : Status) : status ∈ inOrder := by
  cases status <;> decide

/-- The rule of a status at a head with the record `r`, where the callback, if there is one, gave
`answer`. -/
def Status.Applies (opt : Options α) (answer : Option Bool) (r : IterationRecord α) :
    Status → Prop
  | .userRequestedStop => answer = some true
  | .converged => r.infPrimal < opt.tolPrimal ∧ r.infDual < opt.tolDual
  | .maxIterationsExceeded => opt.maxIter ≤ r.iter
  | .stepTooSmall => 0 < r.iter ∧ r.stepNorm ≤ opt.minStepSize

instance (opt : Options α) (answer : Option Bool) (r : IterationRecord α) :
    DecidablePred (Status.Applies opt answer r)
  | .userRequestedStop => inferInstanceAs (Decidable (answer = some true))
  | .converged =>
      inferInstanceAs (Decidable (r.infPrimal < opt.tolPrimal ∧ r.infDual < opt.tolDual))
  | .maxIterationsExceeded => inferInstanceAs (Decidable (opt.maxIter ≤ r.iter))
  | .stepTooSmall => inferInstanceAs (Decidable (0 < r.iter ∧ r.stepNorm ≤ opt.minStepSize))

/-- The first status that applies, if one does. -/
def firstStatus? (opt : Options α) (answer : Option Bool) (r : IterationRecord α) :
    Option Status :=
  Status.inOrder.find? fun status => decide (status.Applies opt answer r)

theorem firstStatus?_eq_none_iff {opt : Options α} {answer : Option Bool}
    {r : IterationRecord α} :
    firstStatus? opt answer r = none ↔ ∀ status : Status, ¬status.Applies opt answer r := by
  simp [firstStatus?, Status.mem_inOrder]

/-- The verdict at a head is the first status that applies there. -/
theorem Task.verdict_eq_firstStatus? (t : Task α) (s : Iterate α) :
    t.verdict s = firstStatus? t.options (t.callback.map fun stop => stop (t.snapshot s))
      (t.record s) := by
  have hstop : t.stopRequested s = true ↔
      (t.callback.map fun stop => stop (t.snapshot s)) = some true := by
    unfold stopRequested
    cases t.callback <;> simp
  have hiter : (t.record s).iter = s.iter := rfl
  unfold verdict firstStatus? Status.inOrder
  simp only [List.find?, hstop, hiter, Status.Applies]
  split
  · simp [*]
  · split
    · simp [*]
    · split
      · simp [*]
      · split <;> simp [*]

end Rules

section End

variable {α : Type} [Scalar α]

/-! ## The last head -/

namespace Task

variable {t : Task α} {s s' : Iterate α}

/-- The limit of iterations leaves no head without a verdict. -/
theorem verdict_ne_none_of_le (h : t.options.maxIter ≤ s.iter) : t.verdict s ≠ none := by
  rw [verdict_eq_firstStatus?, Ne, firstStatus?_eq_none_iff]
  intro hnone
  exact hnone .maxIterationsExceeded h

/-- A loop with as many iterations left as the limit allows ends by a verdict. -/
theorem verdict_of_iterate {left : ℕ} {status : Status}
    (hleft : t.options.maxIter ≤ s.iter + left)
    (h : (t.iterate left s).outcome = .ok (status, s')) : t.verdict s' = some status := by
  induction left generalizing s with
  | zero =>
      rw [iterate_zero, bind_of_ok _ (outcome_note _)] at h
      cases hv : t.verdict s with
      | none => exact absurd hv (verdict_ne_none_of_le hleft)
      | some st =>
          simp only [hv] at h
          obtain ⟨rfl, rfl⟩ := Prod.mk.inj (Except.ok.inj h)
          exact hv
  | succ left ih =>
      rw [iterate_succ, bind_of_ok _ (outcome_note _)] at h
      cases hv : t.verdict s with
      | some st =>
          simp only [hv] at h
          obtain ⟨rfl, rfl⟩ := Prod.mk.inj (Except.ok.inj h)
          exact hv
      | none =>
          simp only [hv] at h
          rcases outcome_bind_eq_ok.mp h with ⟨next, hs, h⟩
          obtain ⟨sol, hstep⟩ := stepped_of_step hs
          refine ih ?_ h
          rw [hstep.iter]
          omega

end Task

variable {opt : Options α} {backend : Backend α} {callback : Option (Snapshot α → Bool)}
  {p : Problem α}

/-- The head of a run that ends well is the one of its last number, and the verdict there is the
status. -/
theorem exists_last_head {sol : Solution α}
    (h : (solve opt backend callback p).outcome = .ok sol) :
    ∃ checked s, p.check opt = .ok checked ∧
      (runHeads opt backend callback p)[sol.iterCount]? = some s ∧
      (taskOf opt backend callback p checked).verdict s = some sol.status := by
  obtain ⟨checked, first, s, hc, hs, hit, hsol⟩ := exists_iterate_of_solve h
  have hcount : sol.iterCount = s.iter := by rw [hsol]
  have hmem : s ∈ runHeads opt backend callback p := by
    rw [runHeads_of_start hc hs]
    exact (Task.iterate_eq_ok hit).1
  obtain ⟨k, hk⟩ := List.mem_iff_getElem?.mp hmem
  refine ⟨checked, s, hc, ?_, Task.verdict_of_iterate (Nat.le_add_left _ _) hit⟩
  rwa [hcount, iter_of_getElem?_runHeads hk]

/-! ## Whole runs -/

/-- What the callback, if there is one, answered at the head `k` of a run with this journal. -/
def answerAtHead? (callback : Option (Snapshot α → Bool)) (journal : List (Event α)) (k : ℕ) :
    Option Bool := do
  let stop ← callback
  let snapshot ← (snapshots journal)[k]?
  return stop snapshot

theorem answerAtHead?_solve {checked : Checked α} (hc : p.check opt = .ok checked) {k : ℕ}
    {s : Iterate α} (hs : (runHeads opt backend callback p)[k]? = some s) :
    answerAtHead? callback (solve opt backend callback p).journal k =
      callback.map fun stop =>
        stop ((taskOf opt backend callback p checked).snapshot s) := by
  cases callback with
  | none => rfl
  | some stop =>
      simp [answerAtHead?, snapshots_solve, runSnapshots_of_check hc, hs]

theorem verdict_of_getElem?_runHeads {checked : Checked α} (hc : p.check opt = .ok checked) {k : ℕ}
    {s : Iterate α} (hs : (runHeads opt backend callback p)[k]? = some s) :
    (taskOf opt backend callback p checked).verdict s =
      firstStatus? opt (answerAtHead? callback (solve opt backend callback p).journal k)
        ((taskOf opt backend callback p checked).record s) := by
  rw [answerAtHead?_solve hc hs]
  exact Task.verdict_eq_firstStatus? _ s

/-- A run ended at its head of the number `iterCount`: no status applies at a head before it, and
the status that the run ended with is the first that applies there. -/
structure EndsByRules (opt : Options α) (callback : Option (Snapshot α → Bool))
    (journal : List (Event α)) (sol : Solution α) : Prop where
  le_limit : sol.iterCount ≤ opt.maxIter
  /-- Every head up to the last is recorded, and shown to the callback. -/
  length_records : (records journal).length = sol.iterCount + 1
  length_snapshots : callback.isSome → (snapshots journal).length = sol.iterCount + 1
  earlier : ∀ k < sol.iterCount, ∃ r, (records journal)[k]? = some r ∧ r.iter = k ∧
    ∀ status : Status, ¬status.Applies opt (answerAtHead? callback journal k) r
  last : ∃ r, (records journal)[sol.iterCount]? = some r ∧ r.iter = sol.iterCount ∧
    firstStatus? opt (answerAtHead? callback journal sol.iterCount) r = some sol.status

theorem endsByRules_of_solve {sol : Solution α}
    (h : (solve opt backend callback p).outcome = .ok sol) :
    EndsByRules opt callback (solve opt backend callback p).journal sol := by
  obtain ⟨checked, s, hc, hs, hverdict⟩ := exists_last_head h
  have hlength := length_runHeads_of_verdict hc hs hverdict
  have hrecord : ∀ {k s}, (runHeads opt backend callback p)[k]? = some s →
      ∃ r, (records (solve opt backend callback p).journal)[k]? = some r ∧ r.iter = k ∧
        firstStatus? opt (answerAtHead? callback (solve opt backend callback p).journal k) r =
          (taskOf opt backend callback p checked).verdict s := fun {k s} hs =>
    ⟨_, getElem?_records hc hs, iter_of_getElem?_runHeads hs,
      (verdict_of_getElem?_runHeads hc hs).symm⟩
  constructor
  · exact le_maxIter_of_getElem?_runHeads hc hs
  · rw [records_solve hc, List.length_map, hlength]
  · intro hsome
    rw [snapshots_solve, if_pos hsome, runSnapshots_of_check hc, List.length_map, hlength]
  · intro k hk
    have hhead := List.getElem?_eq_getElem (l := runHeads opt backend callback p) (i := k)
      (by omega)
    have hnext := List.getElem?_eq_getElem (l := runHeads opt backend callback p) (i := k + 1)
      (by omega)
    obtain ⟨r, hr, hiter, hfirst⟩ := hrecord hhead
    rw [verdict_of_getElem?_succ hc hhead hnext, firstStatus?_eq_none_iff] at hfirst
    exact ⟨r, hr, hiter, hfirst⟩
  · obtain ⟨r, hr, hiter, hfirst⟩ := hrecord hs
    exact ⟨r, hr, hiter, hfirst.trans hverdict⟩

/-- A run poses no more subproblems than the limit of iterations allows. -/
theorem length_subproblems_le :
    (subproblems (solve opt backend callback p).journal).length ≤ opt.maxIter := by
  cases hc : p.check opt with
  | error e => simp [solve_of_check_error hc, Journaled.fail, subproblems]
  | ok checked =>
      cases hs : ((taskOf opt backend callback p checked).start checked.multipliers).outcome with
      | error e =>
          rw [subproblems, filterMap_solve subproblem?_of_inner]
          simp [hc, hs]
      | ok first =>
          rw [subproblems_solve hc hs, List.length_map]
          exact Task.length_posed_le _ _

/-- The step size of a record after the first is that of the full step of its iteration. -/
theorem stepNorm_of_answerAt {k : ℕ} {r : IterationRecord α}
    (h : (records (solve opt backend callback p).journal)[k + 1]? = some r) :
    ∃ answer, AnswerAt opt backend callback p k answer ∧ r.stepNorm = Vec.normInf answer.x := by
  obtain ⟨checked, s', hc, hs', rfl⟩ := exists_head_of_getElem?_records h
  obtain ⟨hlt, -⟩ := List.getElem?_eq_some_iff.mp hs'
  have hs := List.getElem?_eq_getElem (Nat.lt_of_succ_lt hlt)
  obtain ⟨answer, hanswer, hstep⟩ := exists_answerAt hc hs hs'
  exact ⟨answer, hanswer, congrArg Vec.normInf hstep.step⟩

/-- A run poses at most as many subproblems as its limit of iterations allows. Each record shows
the size of the full step that led to it, however far the run went along it. A run that ends well
does so at the first head where a status applies, with the first status that does. -/
theorem ends_by_first_rule (opt : Options α) (backend : Backend α)
    (callback : Option (Snapshot α → Bool)) (p : Problem α) :
    (subproblems (solve opt backend callback p).journal).length ≤ opt.maxIter ∧
    (∀ k r, (records (solve opt backend callback p).journal)[k + 1]? = some r →
      ∃ answer, AnswerAt opt backend callback p k answer ∧
        r.stepNorm = Vec.normInf answer.x) ∧
    ∀ sol, (solve opt backend callback p).outcome = .ok sol →
      EndsByRules opt callback (solve opt backend callback p).journal sol :=
  ⟨length_subproblems_le, fun _ _ => stepNorm_of_answerAt, fun _ => endsByRules_of_solve⟩

end End

/-- The run along the half line ends at its second head, where it converged. -/
theorem innerRay_ends_converged :
    ∃ sol, (solve .default returningBackend none innerRay).outcome = .ok sol ∧
      sol.iterCount = 1 ∧ sol.status = .converged ∧
      EndsByRules .default none (solve .default returningBackend none innerRay).journal sol := by
  obtain ⟨next, hnext, hstep, hverdict⟩ := innerRay_converged
  have hmem := List.mem_of_getElem?
    (getElem?_runHeads_one innerRay_check innerRay_start innerRay_verdict (by decide) hnext)
  have hsolve := solve_of_mem_runHeads innerRay_check hmem hverdict
  obtain ⟨-, -, hends⟩ := ends_by_first_rule .default returningBackend none innerRay
  exact ⟨_, hsolve, hstep.iter, rfl, hends _ hsolve⟩

end SeqQuad.Nonlinear
