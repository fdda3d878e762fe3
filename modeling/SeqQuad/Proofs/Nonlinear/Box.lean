import SeqQuad.Proofs.Nonlinear.NonMonotone

/-!
# Runs within the bounds

A run whose steps keep the bounds of their quadratic programs evaluates the problem nowhere
outside its own bounds: the bounds of a subproblem are the distances to those of the problem, and
between a point and its full step the line search finds points between them only.
-/

namespace SeqQuad

open Extended

namespace Nonlinear

open Journaled

/-! ## Where a run evaluates -/

section Anywhere

variable {α : Type} [Scalar α] {X : List α → Prop}

/-- An evaluation at a point in `X`, a snapshot of one, or any other event. -/
def Event.Within (X : List α → Prop) : Event α → Prop
  | .evaluation _ x => X x
  | .shown snapshot => X snapshot.x
  | .note _ | .timesDue | .subproblem _ _ | .recorded _ => True

omit [Scalar α] in
theorem Event.Inside.within {e : Event α} (h : e.Inside X) : e.Within X := by
  cases e with
  | evaluation => exact h
  | shown => exact absurd h id
  | note | timesDue | subproblem | recorded => trivial

namespace Task

variable {t : Task α} {s : Iterate α}

theorem within_headEvents (hs : X s.x) : ∀ e ∈ t.headEvents s, e.Within X := by
  refine List.forall_mem_append.mpr ⟨List.forall_mem_append.mpr ⟨?_, ?_⟩, ?_⟩
  · intro e he
    obtain ⟨n, rfl⟩ := exists_note_of_mem_tableNotes he
    trivial
  · simp [Event.Within]
  · split
    · simpa [Event.Within, snapshot] using hs
    · simp

theorem within_step (h : t.SearchesIn X s) : ∀ e ∈ (t.step s).journal, e.Within X := by
  obtain ⟨rest, hrest, hinside⟩ := journal_step t s
  rw [hrest]
  exact List.forall_mem_cons.mpr ⟨trivial, List.forall_mem_cons.mpr ⟨trivial, fun e he =>
    (hinside X h e he).within⟩⟩

/-- Where every search goes, the whole run goes. -/
theorem within_iterate {left : ℕ} (hs : X s.x)
    (hsearch : ∀ s' ∈ t.posed left s, X s'.x → t.SearchesIn X s') :
    (∀ e ∈ (t.iterate left s).journal, e.Within X) ∧ ∀ s' ∈ t.heads left s, X s'.x := by
  induction left generalizing s with
  | zero =>
      rw [journal_iterate, heads_zero]
      refine ⟨List.forall_mem_append.mpr ⟨within_headEvents hs, ?_⟩, by simpa using hs⟩
      cases t.verdict s <;> simp [Event.Within]
  | succ left ih =>
      rw [journal_iterate]
      cases hv : t.verdict s with
      | some status =>
          rw [heads_of_verdict hv]
          exact ⟨List.forall_mem_append.mpr ⟨within_headEvents hs, by simp [Event.Within]⟩,
            by simpa using hs⟩
      | none =>
          simp only [posed, hv, List.forall_mem_cons] at hsearch
          have hhere := hsearch.1 hs
          have hstep := within_step hhere
          cases hnext : (t.step s).outcome with
          | error e =>
              rw [heads_of_error hv hnext]
              exact ⟨List.forall_mem_append.mpr ⟨within_headEvents hs, by simpa using hstep⟩,
                by simpa using hs⟩
          | ok next =>
              obtain ⟨sol, hsol⟩ := stepped_of_step hnext
              have hpoint : X next.x := by
                rw [hsol.x]
                exact (hhere sol hsol.solveSubproblem).2
              rw [hnext] at hsearch
              obtain ⟨hjournal, hheads⟩ := ih hpoint hsearch.2
              rw [heads_of_step hv hnext]
              exact ⟨List.forall_mem_append.mpr ⟨within_headEvents hs,
                List.forall_mem_append.mpr ⟨hstep, hjournal⟩⟩,
                List.forall_mem_cons.mpr ⟨hs, hheads⟩⟩

end Task

variable {opt : Options α} {backend : Backend α} {callback : Option (Snapshot α → Bool)}
  {p : Problem α}

/-- A run stays in a set that holds its start and where every search from a point of the set
goes. -/
theorem within_solve {A : QuadraticProgram α → QuadraticSolution α → Prop} (h0 : X p.x0)
    (hanswer : EachAnswer opt backend callback p A)
    (hsearch : ∀ checked s, p.Passes opt checked → X s.x →
      (∀ sol, (backend (s.iter + 1) ((taskOf opt backend callback p checked).subproblem s)
        s.step).outcome = .ok sol →
          A ((taskOf opt backend callback p checked).subproblem s) sol) →
      (taskOf opt backend callback p checked).SearchesIn X s) :
    (∀ e ∈ (solve opt backend callback p).journal, e.Within X) ∧
      ∀ s ∈ runHeads opt backend callback p, X s.x := by
  cases hc : p.check opt with
  | error e => simp [solve_of_check_error hc, runHeads, hc, Journaled.fail]
  | ok checked =>
      have hfirst : ∀ e ∈ ((taskOf opt backend callback p checked).start
          checked.multipliers).journal, e.Within X :=
        fun e he => (Task.inside_start (X := X) _ h0 _ e he).within
      cases hs : ((taskOf opt backend callback p checked).start checked.multipliers).outcome with
      | error e =>
          rw [solve_of_check hc, bind_of_error _ hs]
          exact ⟨hfirst, by simp [runHeads, hc, hs]⟩
      | ok first =>
          have hpoint : X first.x := by
            rw [(Task.started_of_start hs).x]
            exact h0
          obtain ⟨hloop, hheads⟩ := Task.within_iterate hpoint fun s hposed hx =>
            hsearch checked s (Problem.passes_of_check hc) hx fun sol hsol =>
              hanswer _ _ (getElem?_subproblems hc hs hposed) sol hsol
          rw [solve_of_check hc, bind_of_ok _ hs, runHeads_of_start hc hs]
          refine ⟨List.forall_mem_append.mpr ⟨hfirst, All.bind hloop fun _ => ?_⟩, hheads⟩
          refine All.bind (all_note ?_) fun _ => all_of_empty rfl
          split <;> simp [Event.Within]

end Anywhere

/-! ## Points between a point and its full step -/

section Between

/-- What lies below a value and below its full step lies below every part of the step. -/
theorem le_add_part {lower : Extended} {v d t : ℝ} (hv : lower ≤ v) (hd : lower - v ≤ d)
    (h0 : 0 ≤ t) (h1 : t ≤ 1) : lower ≤ ((v + t * d : ℝ) : Extended) := by
  cases lower with
  | real l =>
      rw [real_sub_real, real_le_real] at hd
      rw [real_le_real] at hv ⊢
      calc
        l = l + t * (v - l) - t * (v - l) := by ring
        _ ≤ l + 1 * (v - l) - t * (v - l) := by gcongr
        _ = v + t * (l - v) := by ring
        _ ≤ v + t * d := by gcongr
  | posInf => exact absurd hv (posInf_le_real v)
  | negInf => exact negInf_le_real _
  | nan => exact absurd hv (nan_le _)

theorem add_part_le {upper : Extended} {v d t : ℝ} (hv : (v : Extended) ≤ upper)
    (hd : (d : Extended) ≤ upper - v) (h0 : 0 ≤ t) (h1 : t ≤ 1) :
    ((v + t * d : ℝ) : Extended) ≤ upper := by
  cases upper with
  | real u =>
      rw [real_sub_real, real_le_real] at hd
      rw [real_le_real] at hv ⊢
      calc
        v + t * d ≤ v + t * (u - v) := by gcongr
        _ ≤ v + 1 * (u - v) := by gcongr
        _ = u := by ring
  | posInf => exact real_le_posInf _
  | negInf => exact absurd hv (real_le_negInf v)
  | nan => exact absurd hv (le_nan _)

/-- A real point within the bounds of the problem on it. -/
structure Problem.InBox (p : Problem Extended) (x : List Extended) : Prop where
  length : x.length = p.variableCount
  real : Vec.IsReal x
  within : ∀ j < p.variableCount,
    Vec.coord p.xmin j ≤ Vec.coord x j ∧ Vec.coord x j ≤ Vec.coord p.xmax j

/-- A real step within the bounds of the quadratic program on it. -/
structure StepWithin (qp : QuadraticProgram Extended) (sol : QuadraticSolution Extended) :
    Prop where
  real : Vec.IsReal sol.x
  within : ∀ j < sol.x.length,
    Vec.coord qp.lbx j ≤ Vec.coord sol.x j ∧ Vec.coord sol.x j ≤ Vec.coord qp.ubx j

variable {t : Task Extended} {s : Iterate Extended} {sol : QuadraticSolution Extended}
  {checked : Checked Extended}

/-- Every part of a step within the bounds of the subproblem stays within those of the problem. -/
theorem Problem.InBox.along (hs : t.problem.InBox s.x)
    (hpass : t.problem.Passes t.options checked) (hsol : StepWithin (t.subproblem s) sol)
    (hlen : sol.x.length = t.problem.variableCount) {length : Extended}
    (hlength : LineSearch.UnitLength length) :
    t.problem.InBox (Vec.along s.x sol.x length) := by
  obtain ⟨r, h0, h1, rfl⟩ := hlength
  obtain ⟨hlower, hupper, -⟩ := checkBounds_eq_ok hpass.pointBounds
  have hx := hs.length
  refine ⟨by simp [hx, hlen], hs.real.along hsol.real (isReal_real r), fun j hj => ?_⟩
  obtain ⟨hmin, hmax⟩ := hs.within j hj
  obtain ⟨hlbx, hubx⟩ := hsol.within j (by omega)
  rw [Task.subproblem, Vec.coord_sub (by omega) (by omega)] at hlbx hubx
  obtain ⟨v, hv⟩ := hs.real.coord j
  obtain ⟨d, hd⟩ := hsol.real.coord j
  rw [hv] at hmin hmax hlbx hubx
  rw [hd] at hlbx hubx
  rw [Vec.coord_along _ (by omega) (by omega), hv, hd, real_mul_real, real_add_real]
  exact ⟨le_add_part hmin hlbx h0.le h1, add_part_le hmax hubx h0.le h1⟩

/-- A search from a point of the box along such a step goes through the box. -/
theorem Task.searchesIn_box (hpass : t.problem.Passes t.options checked)
    (hs : t.problem.InBox s.x)
    (hanswer : ∀ sol, (t.backend (s.iter + 1) (t.subproblem s) s.step).outcome = .ok sol →
      StepWithin (t.subproblem s) sol) :
    t.SearchesIn t.problem.InBox s := by
  intro sol hsol
  obtain ⟨hok, hlen, -, -⟩ := solveSubproblem_eq_ok.mp hsol
  have hstep := hanswer sol hok
  obtain ⟨beta, hpos, hlt, hbeta⟩ := (Options.valid_of_validate hpass.options).beta_real
  have hconducted : LineSearch.Conducted t.options.search LineSearch.UnitLength s.x sol.x
      (t.slope s sol) (LineSearch.reference (t.nextMerits s sol))
      (fun trial x => t.meritAt (nextSigma s.sigma sol) ⟨s.iter + 1, trial⟩ x)
      (t.search s sol) :=
    LineSearch.conducted_unit hbeta hpos hlt
  constructor
  · intro trial htrial
    have htried := hconducted.trials trial htrial
    rw [htried.point]
    exact hs.along hpass hstep hlen htried.length
  · rcases hconducted.ended.point_eq with ⟨-, hpoint⟩ | ⟨hlength, hpoint⟩
    · rw [hpoint]
      exact hs
    · rw [hpoint]
      exact hs.along hpass hstep hlen hlength

end Between

/-! ## Whole runs -/

section Run

variable {opt : Options Extended} {backend : Backend Extended}
  {callback : Option (Snapshot Extended → Bool)} {p : Problem Extended}

/-- A run from a point of the box whose steps keep the bounds of their quadratic programs calls
every function of the problem within the box, shows the callback points of the box only, and
returns one. -/
theorem stays_in_box (h0 : p.InBox p.x0)
    (hanswer : EachAnswer opt backend callback p StepWithin) :
    (∀ what x, .evaluation what x ∈ (solve opt backend callback p).journal → p.InBox x) ∧
      (∀ snapshot ∈ snapshots (solve opt backend callback p).journal, p.InBox snapshot.x) ∧
      ∀ sol, (solve opt backend callback p).outcome = .ok sol → p.InBox sol.x := by
  obtain ⟨hevents, hheads⟩ := within_solve h0 hanswer fun checked s hpass hs hsol =>
    Task.searchesIn_box (t := taskOf opt backend callback p checked) hpass hs hsol
  refine ⟨fun what x hx => hevents _ hx, fun snapshot hsnapshot => ?_, fun sol hok => ?_⟩
  · obtain ⟨e, he, hshown⟩ := List.mem_filterMap.mp hsnapshot
    cases e with
    | shown shown =>
        obtain rfl := Option.some.inj hshown
        exact hevents _ he
    | evaluation | note | timesDue | subproblem | recorded => cases hshown
  · obtain ⟨_, s, _, hs, hsol, _⟩ := solve_eq_ok hok
    rw [hsol]
    exact hheads s hs

end Run

/-! ## A run onto a bound -/

section Ray

open Classical in
/-- Goes to all lower bounds at once, where the bounds allow it. -/
noncomputable def lowerBackend : Backend Extended :=
  fun _ qp _ =>
    let step : QuadraticSolution Extended := ⟨qp.lbx, qp.lbx, []⟩
    if StepWithin qp step then Pure.pure step else .fail (.error (.external [] "out of reach"))

theorem lowerBackend_within {k : ℕ} {qp : QuadraticProgram Extended} {start : List Extended}
    {sol : QuadraticSolution Extended} (h : (lowerBackend k qp start).outcome = .ok sol) :
    StepWithin qp sol := by
  unfold lowerBackend at h
  dsimp only at h
  split at h
  · rename_i hstep
    obtain rfl := Except.ok.inj h
    exact hstep
  · cases h

theorem innerRay_inBox : innerRay.InBox innerRay.x0 where
  length := rfl
  real := by simp [innerRay, Vec.isReal_cons, Vec.isReal_nil]
  within j hj := by
    obtain rfl : j = 0 := by simpa [Problem.variableCount, innerRay] using hj
    simp [innerRay, ray, Vec.coord]

/-- The backend answers the first subproblem of the half line, and the run stays on it. -/
theorem innerRay_stays_in_box :
    innerRay.InBox innerRay.x0 ∧ EachAnswer .default lowerBackend none innerRay StepWithin ∧
    (∃ q ∈ subproblems (solve .default lowerBackend none innerRay).journal,
      (lowerBackend 1 q.1 q.2).outcome = .ok ⟨[-1], [-1], []⟩) ∧
    ∀ what x, .evaluation what x ∈ (solve .default lowerBackend none innerRay).journal →
      innerRay.InBox x := by
  have hanswer : EachAnswer .default lowerBackend none innerRay StepWithin :=
    fun _ _ _ _ hsol => lowerBackend_within hsol
  have hmem : (innerRayTask.subproblem innerRayHead, innerRayHead.step) ∈
      subproblems (solve .default lowerBackend none innerRay).journal :=
    mem_subproblems_of_start innerRay_check innerRay_start innerRay_verdict (by decide)
  refine ⟨innerRay_inBox, hanswer, ⟨_, hmem, ?_⟩, (stays_in_box innerRay_inBox hanswer).1⟩
  have hlower : (innerRayTask.subproblem innerRayHead).lbx = [-1] := by
    simp [Task.subproblem, taskOf, Vec.sub, innerRay, ray, innerRayHead]
  have hupper : (innerRayTask.subproblem innerRayHead).ubx = [posInf] := by
    simp [Task.subproblem, taskOf, Vec.sub, innerRay, ray, innerRayHead, sub_def, add_def,
      Extended.add]
  have hwithin : StepWithin (innerRayTask.subproblem innerRayHead)
      ⟨(innerRayTask.subproblem innerRayHead).lbx,
        (innerRayTask.subproblem innerRayHead).lbx, []⟩ := by
    rw [hlower]
    refine ⟨by simp [Vec.isReal_cons, Vec.isReal_nil], fun j hj => ?_⟩
    obtain rfl : j = 0 := by simpa using hj
    rw [hlower, hupper]
    simp [Vec.coord]
  show (lowerBackend 1 (innerRayTask.subproblem innerRayHead) innerRayHead.step).outcome = _
  unfold lowerBackend
  dsimp only
  rw [if_pos hwithin, hlower]
  rfl

end Ray

end Nonlinear

end SeqQuad
