import SeqQuad.Proofs.Nonlinear.NonMonotone
import SeqQuad.Proofs.Nonlinear.RecastStep
import SeqQuad.Proofs.Nonlinear.Refusals

/-!
# Runs on a bound and on a constraint

A problem and the same problem with the bounds on a coordinate as its last constraint have the same
run, if the subproblems of the one are answered as those of the other.
-/

namespace SeqQuad.Nonlinear

open Journaled Extended

/-! ## The loop -/

namespace Task

variable {j : ℕ} {t : Task Extended} {backend : Backend Extended}
  {callback : Option (Snapshot Extended → Bool)}

/-- The heads of both runs make the same records. -/
theorem map_record_heads_recast (ht : t.Recastable j)
    (hcallback : t.callback = callback.map fun stop shown => stop (shown.recast j)) {left : ℕ}
    {s : Iterate Extended} (hs : t.Fits j s)
    (h : ∀ s' ∈ t.posed left s, t.Mirrored j backend s') :
    ((t.recast j backend callback).heads left (s.recast j)).map
        (t.recast j backend callback).record = (t.heads left s).map t.record := by
  induction left generalizing s with
  | zero =>
      rw [heads_zero, heads_zero, List.map_singleton, List.map_singleton, record_recast ht hs]
  | succ left ih =>
      have hverdict : (t.recast j backend callback).verdict (s.recast j) = t.verdict s :=
        verdict_recast ht hs hcallback
      cases hv : t.verdict s with
      | some status =>
          rw [heads_of_verdict hv, heads_of_verdict (hverdict.trans hv), List.map_singleton,
            List.map_singleton, record_recast ht hs]
      | none =>
          have hmirrored := h s (mem_posed_self hv)
          have hstep : Alike SolveError.kind (Iterate.recast j) (t.step s).outcome
              ((t.recast j backend callback).step (s.recast j)).outcome :=
            step_recast ht hs hmirrored
          cases hnext : (t.step s).outcome with
          | error e =>
              obtain ⟨e', hnext'⟩ := hstep.of_error hnext
              rw [heads_of_error hv hnext, heads_of_error (hverdict.trans hv) hnext',
                List.map_singleton, List.map_singleton, record_recast ht hs]
          | ok next =>
              have hfits := fits_of_step ht hs hmirrored hnext
              rw [posed_of_step hv hnext] at h
              rw [heads_of_step hv hnext, heads_of_step (hverdict.trans hv) (hstep.of_ok hnext),
                List.map_cons, List.map_cons, record_recast ht hs,
                ih hfits fun s' hs' => h s' (List.mem_cons_of_mem s hs')]

/-- The loops end alike. -/
theorem iterate_recast (ht : t.Recastable j)
    (hcallback : t.callback = callback.map fun stop shown => stop (shown.recast j)) {left : ℕ}
    {s : Iterate Extended} (hs : t.Fits j s)
    (h : ∀ s' ∈ t.posed left s, t.Mirrored j backend s') :
    Alike SolveError.kind (fun r => (r.1, r.2.recast j)) (t.iterate left s).outcome
      ((t.recast j backend callback).iterate left (s.recast j)).outcome := by
  induction left generalizing s with
  | zero =>
      rw [iterate_zero, iterate_zero, verdict_recast ht hs hcallback]
      refine Alike.bind (alike_note _ _ _) fun _ _ => ?_
      cases t.verdict s with
      | some status => exact Alike.bind (alike_note _ _ _) fun _ _ => .ok _
      | none => exact .ok _
  | succ left ih =>
      rw [iterate_succ, iterate_succ, verdict_recast ht hs hcallback]
      refine Alike.bind (alike_note _ _ _) fun _ _ => ?_
      cases hv : t.verdict s with
      | some status => exact Alike.bind (alike_note _ _ _) fun _ _ => .ok _
      | none =>
          have hmirrored := h s (mem_posed_self hv)
          refine Alike.bind (step_recast ht hs hmirrored) fun next hnext => ?_
          have hfits := fits_of_step ht hs hmirrored hnext
          rw [posed_of_step hv hnext] at h
          exact ih hfits fun s' hs' => h s' (List.mem_cons_of_mem s hs')

theorem start_of_jacobianAt_error {lam : Multipliers Extended} {e : Failure (SolveError Extended)}
    (h : (t.jacobianAt ⟨0, 0⟩ t.problem.x0).outcome = .error e) :
    (t.start lam).outcome = .error e := by
  unfold start
  dsimp only
  rw [bind_of_error _ h]

end Task

/-! ## The checks -/

section Checks

variable {j : ℕ} {p : Problem Extended} {opt : Options Extended}

section Moved

variable {n m : ℕ} {xmin xmax gmin gmax : List Extended}

/-- Well posed bounds are well posed where they are moved to. -/
theorem checkBounds_moved (hj : j < n) (hgmin : gmin.length = m)
    (hpoint : Problem.checkBounds .point n xmin xmax = .ok ())
    (hvalues : Problem.checkBounds .values m gmin gmax = .ok ()) :
    Problem.checkBounds .point n (xmin.set j negInf) (xmax.set j posInf) = .ok () ∧
      Problem.checkBounds .values (m + 1) (gmin ++ [Vec.coord xmin j])
        (gmax ++ [Vec.coord xmax j]) = .ok () := by
  obtain ⟨hxmin, hxmax, hx⟩ := checkBounds_eq_ok hpoint
  obtain ⟨-, hgmax, hg⟩ := checkBounds_eq_ok hvalues
  constructor
  · refine checkBounds_of_le (by simp [hxmin]) (by simp [hxmax]) fun i hi => ?_
    by_cases hij : i = j
    · rw [hij, Vec.coord_set_self (by omega), Vec.coord_set_self (by omega)]
      trivial
    · rw [Vec.coord_set_of_ne hij, Vec.coord_set_of_ne hij]
      exact hx i hi
  · refine checkBounds_of_le (by simp [hgmin]) (by simp [hgmax]) fun i hi => ?_
    by_cases him : i = m
    · rw [him, Vec.coord_append_last hgmin, Vec.coord_append_last hgmax]
      exact hx j hj
    · rw [Vec.coord_append_of_lt (by omega), Vec.coord_append_of_lt (by omega)]
      exact hg i (by omega)

/-- Bounds that are well posed where they are moved to were well posed. -/
theorem checkBounds_of_moved (hgmin : gmin.length = m)
    (hpoint : Problem.checkBounds .point n (xmin.set j negInf) (xmax.set j posInf) = .ok ())
    (hvalues : Problem.checkBounds .values (m + 1) (gmin ++ [Vec.coord xmin j])
      (gmax ++ [Vec.coord xmax j]) = .ok ()) :
    Problem.checkBounds .point n xmin xmax = .ok () ∧
      Problem.checkBounds .values m gmin gmax = .ok () := by
  obtain ⟨hxmin, hxmax, hx⟩ := checkBounds_eq_ok hpoint
  obtain ⟨-, hgmax, hg⟩ := checkBounds_eq_ok hvalues
  rw [List.length_set] at hxmin hxmax
  replace hgmax : gmax.length = m := by simpa using hgmax
  have hlast := hg m (Nat.lt_succ_self m)
  rw [Vec.coord_append_last hgmin, Vec.coord_append_last hgmax] at hlast
  constructor
  · refine checkBounds_of_le hxmin hxmax fun i hi => ?_
    by_cases hij : i = j
    · rw [hij]
      exact hlast
    · have hle := hx i hi
      rwa [Vec.coord_set_of_ne hij, Vec.coord_set_of_ne hij] at hle
  · refine checkBounds_of_le hgmin hgmax fun i hi => ?_
    have hle := hg i (by omega)
    rwa [Vec.coord_append_of_lt (by omega), Vec.coord_append_of_lt (by omega)] at hle

end Moved

theorem curvature_recast (source : HessianSource) :
    (p.recast j).curvature source = (p.curvature source).map Curvature.recast := by
  unfold Problem.curvature Problem.recast
  cases source <;> cases p.hessian <;> rfl

theorem startMultipliers_eq_ok_iff {lam : Multipliers Extended} :
    p.startMultipliers = .ok lam ↔
      p.multipliers.getD ⟨Vec.zeros p.constraintCount, Vec.zeros p.variableCount⟩ = lam ∧
        lam.x.length = p.variableCount ∧ lam.g.length = p.constraintCount := by
  unfold Problem.startMultipliers
  cases p.multipliers with
  | none =>
      refine ⟨fun h => ?_, fun h => congrArg Except.ok h.1⟩
      obtain rfl := Except.ok.inj h
      simp
  | some lam' =>
      dsimp only [Option.getD_some]
      split
      · rename_i hlen
        refine ⟨nofun, fun h => ?_⟩
        obtain ⟨rfl, hx, hg⟩ := h
        simp [hx, hg] at hlen
      · rename_i hlen
        rw [not_or, not_not, not_not] at hlen
        refine ⟨fun h => ?_, fun h => congrArg Except.ok h.1⟩
        obtain rfl := Except.ok.inj h
        exact ⟨rfl, hlen⟩

/-- Both problems start from the same multipliers, or both refuse theirs. -/
theorem startMultipliers_recast_iff {lam' : Multipliers Extended} :
    (p.recast j).startMultipliers = .ok lam' ↔
      ∃ lam, p.startMultipliers = .ok lam ∧ lam' = lam.recast j := by
  have hzeros : (⟨Vec.zeros (p.constraintCount + 1), Vec.zeros p.variableCount⟩ :
      Multipliers Extended) =
        Multipliers.recast j ⟨Vec.zeros p.constraintCount, Vec.zeros p.variableCount⟩ := by
    unfold Multipliers.recast
    rw [Vec.coord_zeros]
    simp [Vec.zeros, List.replicate_succ']
  have hfirst : (p.recast j).multipliers.getD
      ⟨Vec.zeros (p.constraintCount + 1), Vec.zeros p.variableCount⟩ =
        (p.multipliers.getD
          ⟨Vec.zeros p.constraintCount, Vec.zeros p.variableCount⟩).recast j := by
    rw [hzeros]
    exact Option.getD_map _ _ _
  have hn : (p.recast j).variableCount = p.variableCount := rfl
  simp only [startMultipliers_eq_ok_iff, Problem.constraintCount_recast, hn, hfirst]
  constructor
  · rintro ⟨rfl, hx, hg⟩
    exact ⟨_, ⟨rfl, by simpa [Multipliers.recast] using hx,
      by simpa [Multipliers.recast] using hg⟩, rfl⟩
  · rintro ⟨_, ⟨rfl, hx, hg⟩, rfl⟩
    exact ⟨rfl, by simpa [Multipliers.recast] using hx, by simpa [Multipliers.recast] using hg⟩

/-- What passes the checks passes them with the bounds on a coordinate as a constraint. -/
theorem passes_recast {checked : Checked Extended} (hj : j < p.variableCount)
    (h : p.Passes opt checked) :
    (p.recast j).Passes opt ⟨checked.curvature.recast, checked.multipliers.recast j⟩ := by
  have hbounds := checkBounds_moved hj rfl h.pointBounds h.valueBounds
  exact {
    options := h.options
    pointBounds := hbounds.1
    valueBounds := by
      rw [Problem.constraintCount_recast]
      exact hbounds.2
    unconstrained := fun hnone => absurd hnone (Option.some_ne_none _)
    curvature := by rw [curvature_recast, h.curvature]; rfl
    multipliers := startMultipliers_recast_iff.mpr ⟨_, h.multipliers, rfl⟩ }

/-- What passes the checks so passed them before, unless it has bounds without constraints. -/
theorem exists_passes_of_recast {checked' : Checked Extended}
    (hnone : p.constraints = none → p.constraintCount = 0)
    (h : (p.recast j).Passes opt checked') : ∃ checked, p.Passes opt checked := by
  have hvalues := h.valueBounds
  rw [Problem.constraintCount_recast] at hvalues
  have hbounds := checkBounds_of_moved rfl h.pointBounds hvalues
  obtain ⟨lam, hlam, -⟩ := startMultipliers_recast_iff.mp h.multipliers
  have hcurvature := h.curvature
  rw [curvature_recast] at hcurvature
  cases hc : p.curvature opt.hessian with
  | error e =>
      rw [hc] at hcurvature
      cases hcurvature
  | ok curvature => exact ⟨⟨curvature, lam⟩, {
      options := h.options
      pointBounds := hbounds.1
      valueBounds := hbounds.2
      unconstrained := hnone
      curvature := hc
      multipliers := hlam }⟩

end Checks

/-! ## The solver -/

/-- Runs with outcomes alike and the same records. -/
structure SameRun (j : ℕ) (run run' : Run Extended (Solution Extended)) : Prop where
  outcome : Alike SolveError.kind (Solution.recast j) run.outcome run'.outcome
  records : records run'.journal = records run.journal

section Solver

variable {j : ℕ} {p : Problem Extended} {opt : Options Extended}
  {backend backend' : Backend Extended} {callback callback' : Option (Snapshot Extended → Bool)}
  {checked : Checked Extended}

theorem recastable_of_passes (hj : j < p.variableCount) (h : p.Passes opt checked) :
    (taskOf opt backend callback p checked).Recastable j := by
  obtain ⟨hxmin, hxmax, -⟩ := checkBounds_eq_ok h.pointBounds
  obtain ⟨-, hgmax, -⟩ := checkBounds_eq_ok h.valueBounds
  exact {
    lt := hj
    xmin := hxmin
    xmax := hxmax
    gmax := hgmax
    unconstrained := h.unconstrained
    options := Options.valid_of_validate h.options }

theorem records_of_start_error {e : Failure (SolveError Extended)} (hc : p.check opt = .ok checked)
    (hs : ((taskOf opt backend callback p checked).start checked.multipliers).outcome = .error e) :
    records (solve opt backend callback p).journal = [] := by
  rw [records_solve hc]
  simp [runHeads, hc, hs]

theorem records_of_check_error {e : ProblemError Extended} (hc : p.check opt = .error e) :
    records (solve opt backend callback p).journal = [] := by
  rw [solve_of_check_error hc]
  rfl

/-- Where bounds are given without constraints, the one that is added has too few values. -/
theorem start_of_boundsWithoutConstraints (hnone : p.constraints = none)
    (hcount : p.constraintCount ≠ 0) (lam : Multipliers Extended) :
    ∃ cause, ((taskOf opt backend callback (p.recast j) checked).start lam).outcome =
      .error (.error (.problem cause)) := by
  have hanswer : (withCoordinate j (p.constraints.getD (noConstraints p.variableCount))).jacobian
      ⟨0, 0⟩ p.x0 = .ok ([Vec.coord p.x0 j], .pushUnit j (.empty 0 p.variableCount)) := by
    rw [hnone]
    rfl
  have hlen : [Vec.coord p.x0 j].length ≠ (p.recast j).constraintCount := by
    rw [Problem.constraintCount_recast, List.length_singleton]
    omega
  have hjac := Task.jacobianAt_of_shape (t := taskOf opt backend callback (p.recast j) checked)
    rfl hanswer (.inl hlen)
  exact ⟨_, Task.start_of_jacobianAt_error hjac⟩

/-- What fails the checks is refused before its first head with the bounds on a coordinate as a
constraint. -/
theorem exists_refused_recast {e : ProblemError Extended} (hc : p.check opt = .error e) :
    ∃ cause, (solve opt backend callback (p.recast j)).outcome = .error (.error (.problem cause)) ∧
      records (solve opt backend callback (p.recast j)).journal = [] := by
  cases hc' : (p.recast j).check opt with
  | error e' =>
      refine ⟨e', ?_, records_of_check_error hc'⟩
      rw [solve_of_check_error hc']
      rfl
  | ok checked' =>
      -- The checks do not see bounds without constraints any more, but the first Jacobian does.
      by_cases hnone : p.constraints = none → p.constraintCount = 0
      · obtain ⟨checked, hpass⟩ := exists_passes_of_recast hnone (Problem.passes_of_check hc')
        rw [Problem.check_of_passes hpass] at hc
        cases hc
      · obtain ⟨hnone, hcount⟩ := Classical.not_imp.mp hnone
        have hstart : ∃ cause, ((taskOf opt backend callback (p.recast j) checked').start
            checked'.multipliers).outcome = .error (.error (.problem cause)) :=
          start_of_boundsWithoutConstraints hnone hcount checked'.multipliers
        obtain ⟨cause, hs⟩ := hstart
        refine ⟨cause, ?_, records_of_start_error hc' hs⟩
        rw [solve_of_check hc', bind_of_error _ hs]

theorem sameRun_of_check_error {e : ProblemError Extended} (hc : p.check opt = .error e) :
    SameRun j (solve opt backend callback p) (solve opt backend' callback' (p.recast j)) := by
  have hrefused : (solve opt backend callback p).outcome = .error (.error (.problem e)) := by
    rw [solve_of_check_error hc]
    rfl
  have hrefused' : ∃ cause, (solve opt backend' callback' (p.recast j)).outcome =
      .error (.error (.problem cause)) ∧
        records (solve opt backend' callback' (p.recast j)).journal = [] :=
    exists_refused_recast hc
  obtain ⟨cause, hrefused', hrecords⟩ := hrefused'
  refine ⟨?_, hrecords.trans (records_of_check_error hc).symm⟩
  rw [hrefused, hrefused']
  exact .error rfl

section Passes

variable (hc : p.check opt = .ok checked) (hj : j < p.variableCount)
  (hx0 : (Vec.coord p.x0 j).IsReal)
  (hreal : EachAnswer opt backend callback p fun _ sol => (Vec.coord sol.x j).IsReal)
  (hback : ∀ k q, (subproblems (solve opt backend callback p).journal)[k]? = some q →
    (backend' (k + 1) (q.1.recast j) q.2).outcome =
      (backend (k + 1) q.1 q.2).outcome.map (.recast j))
  (hcallback : callback = callback'.map fun stop shown => stop (shown.recast j))

include hc hj in
theorem check_recast :
    (p.recast j).check opt =
      .ok ⟨checked.curvature.recast, checked.multipliers.recast j⟩ :=
  Problem.check_of_passes (passes_recast hj (Problem.passes_of_check hc))

include hc hj in
theorem start_of_check_recast :
    Alike SolveError.kind (Iterate.recast j)
      ((taskOf opt backend callback p checked).start checked.multipliers).outcome
      ((taskOf opt backend' callback' (p.recast j)
        ⟨checked.curvature.recast, checked.multipliers.recast j⟩).start
          (checked.multipliers.recast j)).outcome := by
  have hpass := Problem.passes_of_check hc
  obtain ⟨hlx, hlg⟩ := startMultipliers_length hpass.multipliers
  exact Task.start_recast (t := taskOf opt backend callback p checked)
    (recastable_of_passes hj hpass) hlx hlg

include hc hj hx0 in
theorem fits_first {first : Iterate Extended}
    (hs : ((taskOf opt backend callback p checked).start checked.multipliers).outcome =
      .ok first) : (taskOf opt backend callback p checked).Fits j first := by
  have hpass := Problem.passes_of_check hc
  obtain ⟨hlx, hlg⟩ := startMultipliers_length hpass.multipliers
  exact Task.fits_of_started (recastable_of_passes hj hpass) hlx hlg hx0 (Task.started_of_start hs)

include hc hreal hback in
/-- What the subproblems of a run are answered, they are answered at its heads. -/
theorem mirrored_of_mem_posed {first s : Iterate Extended}
    (hs : ((taskOf opt backend callback p checked).start checked.multipliers).outcome = .ok first)
    (h : s ∈ (taskOf opt backend callback p checked).posed opt.maxIter first) :
    (taskOf opt backend callback p checked).Mirrored j backend' s := by
  have hq := getElem?_subproblems hc hs h
  exact ⟨hback _ _ hq, hreal _ _ hq⟩

include hc hj hx0 hreal hback hcallback in
theorem alike_solve_recast :
    Alike SolveError.kind (Solution.recast j) (solve opt backend callback p).outcome
      (solve opt backend' callback' (p.recast j)).outcome := by
  have ht : (taskOf opt backend callback p checked).Recastable j :=
    recastable_of_passes hj (Problem.passes_of_check hc)
  rw [solve_of_check hc, solve_of_check (check_recast hc hj)]
  refine Alike.bind (start_of_check_recast hc hj) fun first hs => ?_
  refine Alike.bind (Task.iterate_recast ht hcallback (fits_first hc hj hx0 hs) fun s hmem =>
    mirrored_of_mem_posed hc hreal hback hs hmem) fun r _ => ?_
  exact Alike.bind (alike_note _ _ _) fun _ _ => .ok _

include hc hj hx0 hreal hback hcallback in
theorem records_solve_recast :
    records (solve opt backend' callback' (p.recast j)).journal =
      records (solve opt backend callback p).journal := by
  have hc' := check_recast hc hj
  have hstart : Alike SolveError.kind (Iterate.recast j)
      ((taskOf opt backend callback p checked).start checked.multipliers).outcome
      ((taskOf opt backend' callback' (p.recast j)
        ⟨checked.curvature.recast, checked.multipliers.recast j⟩).start
          (checked.multipliers.recast j)).outcome := start_of_check_recast hc hj
  cases hs : ((taskOf opt backend callback p checked).start checked.multipliers).outcome with
  | error e =>
      obtain ⟨e', hs'⟩ := hstart.of_error hs
      rw [records_of_start_error hc hs, records_of_start_error hc' hs']
  | ok first =>
      have hmirrored : ∀ s ∈ (taskOf opt backend callback p checked).posed opt.maxIter first,
          (taskOf opt backend callback p checked).Mirrored j backend' s :=
        fun s hmem => mirrored_of_mem_posed hc hreal hback hs hmem
      rw [records_solve hc, records_solve hc', runHeads_of_start hc hs,
        runHeads_of_start hc' (hstart.of_ok hs)]
      exact Task.map_record_heads_recast (recastable_of_passes hj (Problem.passes_of_check hc))
        hcallback (fits_first hc hj hx0 hs) hmirrored

end Passes

/-- The bounds on a coordinate and the same bounds on a constraint that is the value of the
coordinate make the same run, where each subproblem of the one is answered as that of the other. -/
theorem sameRun_recast (hj : j < p.variableCount) (hx0 : (Vec.coord p.x0 j).IsReal)
    (hreal : EachAnswer opt backend callback p fun _ sol => (Vec.coord sol.x j).IsReal)
    (hback : ∀ k q, (subproblems (solve opt backend callback p).journal)[k]? = some q →
      (backend' (k + 1) (q.1.recast j) q.2).outcome =
        (backend (k + 1) q.1 q.2).outcome.map (.recast j))
    (hcallback : callback = callback'.map fun stop shown => stop (shown.recast j)) :
    SameRun j (solve opt backend callback p) (solve opt backend' callback' (p.recast j)) := by
  cases hc : p.check opt with
  | error e => exact sameRun_of_check_error hc
  | ok checked =>
      exact {
        outcome := alike_solve_recast hc hj hx0 hreal hback hcallback
        records := records_solve_recast hc hj hx0 hreal hback hcallback }

end Solver

/-! ## One step on a half line, with a constraint for its bound -/

section Ray

/-- A solver that always goes one to the left, onto the bound of the constraint. -/
noncomputable def constrainedReturningBackend : Backend Extended :=
  fun _ _ _ => Pure.pure ⟨[-1], [0], [-1]⟩

/-- Both runs converge, to the multiplier of the bound and to that of the constraint. -/
theorem innerRay_sameRun :
    SameRun 0 (solve .default returningBackend none innerRay)
        (solve .default constrainedReturningBackend none (innerRay.recast 0)) ∧
      ∃ sol, (solve .default returningBackend none innerRay).outcome = .ok sol ∧
        sol.status = .converged ∧
        (solve .default constrainedReturningBackend none (innerRay.recast 0)).outcome =
          .ok (sol.recast 0) := by
  have hreal : EachAnswer .default returningBackend none innerRay fun _ sol =>
      (Vec.coord sol.x 0).IsReal := by
    intro k q _ sol hsol
    obtain rfl := Except.ok.inj hsol
    exact ⟨-1, rfl⟩
  have hsame : SameRun 0 (solve .default returningBackend none innerRay)
      (solve .default constrainedReturningBackend none (innerRay.recast 0)) :=
    sameRun_recast Nat.one_pos ⟨1, rfl⟩ hreal (fun _ _ _ => rfl) rfl
  obtain ⟨next, hnext, -, hverdict⟩ := innerRay_converged
  have hhead := getElem?_runHeads_one innerRay_check innerRay_start innerRay_verdict (by decide)
    hnext
  have hsolve := solve_of_mem_runHeads innerRay_check (List.mem_of_getElem? hhead) hverdict
  exact ⟨hsame, _, hsolve, rfl, hsame.outcome.of_ok hsolve⟩

end Ray

end SeqQuad.Nonlinear
