import SeqQuad.Proofs.Exact.Undefined
import SeqQuad.Proofs.Nonlinear.Coherence

/-!
# Descent without monotony

The merit of an accepted step lies below the largest of the merits that the last searches began
at, each under the penalty of its own iteration, by a share of the predicted decrease. The window
of a run holds just those merits, and the records of a run show all of them: the accepted trial
is the point of the next record, evaluated again.
-/

namespace SeqQuad

open Extended Scalar

/-! ## The window -/

/-- A window that holds the last values of a growing list holds those of the longer list. -/
theorem MeritWindow.push_rtake {α : Type} (l : List α) (capacity : ℕ) (merit : α) :
    (⟨capacity, l.rtake capacity⟩ : MeritWindow α).push merit =
      ⟨capacity, (l ++ [merit]).rtake capacity⟩ := by
  show (⟨capacity, (l.rtake capacity ++ [merit]).rtake capacity⟩ : MeritWindow α) = _
  congr 1
  cases capacity with
  | zero => simp
  | succ n =>
      rw [List.rtake_concat_succ, List.rtake_concat_succ]
      simp [List.rtake_eq_reverse_take_reverse, List.take_take]

/-- The reference of a search is the largest merit of the window. -/
theorem LineSearch.reference_spec {w : MeritWindow Extended} (h : w.values ≠ []) :
    reference w ∈ w.values ∧ ∀ m ∈ w.values, m = nan ∨ m ≤ reference w := by
  unfold reference MeritWindow.max?
  cases hv : w.values with
  | nil => exact absurd hv h
  | cons v rest => exact ⟨Vec.foldl_maxNum_mem rest v, Vec.eq_nan_or_le_foldl_maxNum rest v⟩

/-! ## Accepted trials -/

namespace LineSearch

section Search

variable {ω : Type} {opt : Options Extended} {x dx : List Extended} {slope : Extended}

/-- A trial no longer than the full step whose merit is at most the threshold. -/
structure Accepted (opt : Options Extended) (x dx : List Extended) (slope reference : Extended)
    (merit : ℕ → List Extended → Journaled ω (Failure EvaluationError) Extended)
    (s : LineSearch ω Extended) (t : ℝ) : Prop where
  pos : 0 < t
  le_one : t ≤ 1
  length : s.t = t
  point : s.point = Vec.along x dx t
  descent : ∃ k m, (merit k s.point).outcome = .ok m ∧ m ≤ threshold opt slope reference t

/-- A search with trials that succeeds ends at an accepted one. -/
theorem accepted_run {beta : ℝ} (hbeta : opt.beta = beta) (hpos : 0 < beta) (hlt : beta < 1)
    (hmax : 0 < opt.maxTrials) {history : MeritWindow Extended}
    {merit : ℕ → List Extended → Journaled ω (Failure EvaluationError) Extended}
    (h : (run opt x dx slope history merit).success = true) :
    ∃ t, Accepted opt x dx slope (reference history) merit
      (run opt x dx slope history merit) t := by
  have hconducted : Conducted opt UnitLength x dx slope (reference history) merit
      (run opt x dx slope history merit) := conducted_unit hbeta hpos hlt
  have hended := hconducted.ended
  generalize run opt x dx slope history merit = s at h hended ⊢
  cases hended with
  | unsearched off => exact absurd off hmax.ne'
  | accepted length value descent =>
      obtain ⟨t, ht0, ht1, rfl⟩ := length
      exact ⟨t, ht0, ht1, rfl, rfl, _, _, value, descent⟩
  | exhausted | stuck | aborted => cases h

end Search

end LineSearch

namespace Nonlinear

open Journaled

/-! ## What the records show of the window -/

section Records

variable {α : Type} [Scalar α]

/-- The merits that the searches of a run began at: the objective and the infeasibility of each
record under the penalty of the next. -/
def startMerits (rs : List (IterationRecord α)) : List α :=
  List.zipWith (fun r next => l1Merit r.objective next.sigma r.infPrimal) rs rs.tail

/-- The merits that the search of iteration `k` compares with: its own and those of the
iterations before it, the last `capacity` of them. -/
def recentMerits (rs : List (IterationRecord α)) (capacity k : ℕ) : List α :=
  ((startMerits rs).take k).rtake capacity

theorem getElem?_startMerits {rs : List (IterationRecord α)} {k : ℕ}
    {prev cur : IterationRecord α} (hprev : rs[k]? = some prev) (hcur : rs[k + 1]? = some cur) :
    (startMerits rs)[k]? = some (l1Merit prev.objective cur.sigma prev.infPrimal) := by
  simp [startMerits, List.getElem?_zipWith, hprev, hcur]

/-- The merits of the searches `j + 1` up to `k`, as many as the window holds. -/
theorem mem_recentMerits {rs : List (IterationRecord α)} {capacity k : ℕ} (hk : k < rs.length)
    {m : α} : m ∈ recentMerits rs capacity k ↔
      ∃ j prev cur, j < k ∧ k ≤ j + capacity ∧ rs[j]? = some prev ∧ rs[j + 1]? = some cur ∧
        m = l1Merit prev.objective cur.sigma prev.infPrimal := by
  have hlen : ((startMerits rs).take k).length = k := by
    simp [startMerits]
    omega
  unfold recentMerits List.rtake
  rw [hlen, List.mem_iff_getElem?]
  constructor
  · rintro ⟨i, hi⟩
    rw [List.getElem?_drop, List.getElem?_take] at hi
    split at hi
    · rename_i hlt
      have hprev : k - capacity + i < rs.length := by omega
      have hcur : k - capacity + i + 1 < rs.length := by omega
      have hm := getElem?_startMerits (List.getElem?_eq_getElem hprev)
        (List.getElem?_eq_getElem hcur)
      refine ⟨k - capacity + i, _, _, hlt, by omega, List.getElem?_eq_getElem hprev,
        List.getElem?_eq_getElem hcur, ?_⟩
      exact Option.some.inj (hi.symm.trans hm)
    · cases hi
  · rintro ⟨j, prev, cur, hjk, hkj, hprev, hcur, rfl⟩
    refine ⟨j - (k - capacity), ?_⟩
    have hj : k - capacity + (j - (k - capacity)) = j := by omega
    rw [List.getElem?_drop, hj, List.getElem?_take, if_pos hjk]
    exact getElem?_startMerits hprev hcur
theorem recentMerits_succ {rs : List (IterationRecord α)} {k : ℕ}
    {prev cur : IterationRecord α} (hprev : rs[k]? = some prev) (hcur : rs[k + 1]? = some cur)
    (capacity : ℕ) :
    (⟨capacity, recentMerits rs capacity k⟩ : MeritWindow α).push
        (l1Merit prev.objective cur.sigma prev.infPrimal) =
      ⟨capacity, recentMerits rs capacity (k + 1)⟩ := by
  unfold recentMerits
  rw [MeritWindow.push_rtake, List.take_add_one, getElem?_startMerits hprev hcur]
  rfl

theorem recentMerits_succ_ne_nil {rs : List (IterationRecord α)} {k : ℕ}
    {prev cur : IterationRecord α} (hprev : rs[k]? = some prev) (hcur : rs[k + 1]? = some cur)
    {capacity : ℕ} (hcapacity : capacity ≠ 0) : recentMerits rs capacity (k + 1) ≠ [] := by
  unfold recentMerits
  rw [List.take_add_one, getElem?_startMerits hprev hcur]
  simp [List.rtake_eq_reverse_take_reverse, hcapacity]

variable {opt : Options α} {backend : Backend α} {callback : Option (Snapshot α → Bool)}
  {p : Problem α} {checked : Checked α}

/-- At every head the window holds what the records so far show. -/
theorem merits_of_getElem? (hc : p.check opt = .ok checked) {k : ℕ} {s : Iterate α}
    (hs : (runHeads opt backend callback p)[k]? = some s) :
    s.merits = ⟨opt.meritMemory,
      recentMerits (records (solve opt backend callback p).journal) opt.meritMemory k⟩ := by
  induction k generalizing s with
  | zero =>
      have hstart := started_of_getElem?_zero hc hs
      obtain ⟨-, hnew⟩ := MeritWindow.new?_eq_some_iff.mp hstart.merits
      rw [← hnew, recentMerits, List.take_zero, List.rtake_nil]
      rfl
  | succ k ih =>
      obtain ⟨hk, -⟩ := List.getElem?_eq_some_iff.mp hs
      have hprev := List.getElem?_eq_getElem (Nat.lt_of_succ_lt hk)
      obtain ⟨sol, hstep⟩ := stepped_of_getElem? hc hprev hs
      have hpush := recentMerits_succ (getElem?_records hc hprev) (getElem?_records hc hs)
        opt.meritMemory
      rw [hstep.merits, Task.nextMerits, ih hprev, ← hstep.sigma]
      exact hpush

end Records

/-! ## Accepted steps -/

/-- Where a function of the problem is called for its value alone, it answers the value that it
answers with derivatives. -/
structure Problem.Agrees {α : Type} (p : Problem α) : Prop where
  objective : ∀ m m' x f f' gradF, p.objective.value m x = .ok f →
    p.objective.gradient m' x = .ok (f', gradF) → f = f'
  constraints : ∀ c, p.constraints = some c → ∀ m m' x g g' jac, c.values m x = .ok g →
    c.jacobian m' x = .ok (g', jac) → g = g'

section Agreement

variable {α : Type} [Scalar α] {t : Task α}

omit [Scalar α] in
/-- The values at a trial point are those that a later evaluation of the Jacobian there answers.
-/
theorem Task.ValuesAnswer.eq (hp : t.problem.Agrees) {m m' : Moment} {x g g' : List α}
    {jac : SparseMatrix α} (h : t.ValuesAnswer m x g) (hvalues : t.JacobianAnswer m' x g' jac) :
    g = g' := by
  unfold ValuesAnswer at h
  unfold JacobianAnswer at hvalues
  cases hcon : t.problem.constraints with
  | none =>
      simp only [hcon] at h hvalues
      rw [h, hvalues.1]
  | some c =>
      simp only [hcon] at h hvalues
      exact hp.constraints c hcon m m' x _ _ jac h.1 hvalues.1

/-- The merit of a trial point is that of the record made there later. -/
theorem Task.meritAt_eq (hp : t.problem.Agrees) {m m' : Moment} {sigma merit : α} {s : Iterate α}
    (h : (t.meritAt sigma m s.x).outcome = .ok merit)
    (hvalues : t.JacobianAnswer m' s.x s.g s.jacobian)
    (hgradient : (t.gradientAt m' s.x).outcome = .ok (s.f, s.gradF)) :
    merit = l1Merit s.f sigma (t.infeasibility s) := by
  obtain ⟨f, g, hf, hg, rfl⟩ := meritAt_eq_ok.mp h
  obtain rfl := hp.objective m m' s.x f s.f s.gradF hf (gradientAt_eq_ok.mp hgradient).1
  obtain rfl := hg.eq hp hvalues
  rfl

end Agreement

section Step

variable {t : Task Extended} {s s' : Iterate Extended} {sol : QuadraticSolution Extended}

/-- An iteration whose search succeeds goes a part of its step, to a merit below the threshold. -/
theorem Task.Stepped.descent (h : t.Stepped s sol s') (hp : t.problem.Agrees)
    (hopt : t.options.Valid) (hmax : 0 < t.options.maxSearchTrials)
    (hsuccess : s'.searchSuccess = true) :
    ∃ length : ℝ, 0 < length ∧ length ≤ 1 ∧ s'.x = Vec.along s.x s'.step length ∧
      l1Merit s'.f s'.sigma (t.infeasibility s') ≤
        LineSearch.reference s'.merits + length * t.options.c1 *
          (Vec.dot s'.step s.gradF - s'.sigma * t.infeasibility s) := by
  obtain ⟨beta, hbeta0, hbeta1, hbeta⟩ := hopt.beta_real
  rw [h.searchSuccess] at hsuccess
  have hfactor : t.options.search.beta = beta := hbeta
  obtain ⟨length, haccepted⟩ := LineSearch.accepted_run hfactor hbeta0 hbeta1 hmax hsuccess
  obtain ⟨k, merit, hmerit, hle⟩ := haccepted.descent
  have hpoint : s'.x = Vec.along s.x s'.step length := by
    rw [h.x, h.step]
    exact haccepted.point
  have hvalue : merit = l1Merit s'.f s'.sigma (t.infeasibility s') := by
    rw [h.sigma]
    exact t.meritAt_eq hp (h.x ▸ hmerit) h.values h.gradient
  refine ⟨length, haccepted.pos, haccepted.le_one, hpoint, ?_⟩
  rw [← hvalue, h.merits, h.step, h.sigma]
  exact hle

end Step

/-! ## Whole runs -/

/-- The step between two records goes a part of the full step, to a merit that lies below the
largest of the recent merits by a share of the predicted decrease. -/
structure Problem.Descends (p : Problem Extended) (opt : Options Extended)
    (recent : List Extended) (s s' : Iterate Extended) (prev cur : IterationRecord Extended)
    (length : ℝ) : Prop where
  pos : 0 < length
  le_one : length ≤ 1
  point : s'.x = Vec.along s.x s'.step length
  gradient : p.objective.gradient ⟨s.iter, 0⟩ s.x = .ok (s.f, s.gradF)
  descent : ∃ largest ∈ recent, (∀ m ∈ recent, m = nan ∨ m ≤ largest) ∧
    l1Merit cur.objective cur.sigma cur.infPrimal ≤ largest + length * opt.c1 *
      (Vec.dot s'.step s.gradF - cur.sigma * prev.infPrimal)

section Run

variable {opt : Options Extended} {backend : Backend Extended}
  {callback : Option (Snapshot Extended → Bool)} {p : Problem Extended}

/-- Every record whose search succeeded is reached by descent against the merits that the
window holds then, those of the last searches. -/
theorem descends_of_searchSuccess (hp : p.Agrees) (hmax : 0 < opt.maxSearchTrials) {k : ℕ}
    {prev cur : IterationRecord Extended}
    (hprev : (records (solve opt backend callback p).journal)[k]? = some prev)
    (hcur : (records (solve opt backend callback p).journal)[k + 1]? = some cur)
    (hsuccess : cur.searchSuccess = true) :
    ∃ s s' length, (runHeads opt backend callback p)[k]? = some s ∧
      (runHeads opt backend callback p)[k + 1]? = some s' ∧
      p.Descends opt (recentMerits (records (solve opt backend callback p).journal)
        opt.meritMemory (k + 1)) s s' prev cur length := by
  obtain ⟨checked, s, hc, hs, rfl⟩ := exists_head_of_getElem?_records hprev
  obtain ⟨checked', s', hc', hs', rfl⟩ := exists_head_of_getElem?_records hcur
  obtain rfl := Except.ok.inj (hc.symm.trans hc')
  obtain ⟨sol, hstep⟩ := stepped_of_getElem? hc hs hs'
  have hvalid := Options.valid_of_validate (Problem.passes_of_check hc).options
  obtain ⟨length, hpos, hle, hpoint, hdescent⟩ := hstep.descent hp hvalid hmax hsuccess
  obtain ⟨_, -, hcurrent⟩ := current_of_mem_runHeads s (List.mem_of_getElem? hs)
  have hwindow := merits_of_getElem? hc hs'
  have hne := recentMerits_succ_ne_nil hprev hcur hvalid.meritMemory
  have hreference : s'.merits.values ≠ [] := by
    rw [hwindow]
    exact hne
  obtain ⟨hmem, hlargest⟩ := LineSearch.reference_spec hreference
  rw [hwindow] at hmem hlargest hdescent
  refine ⟨s, s', length, hs, hs', ?_⟩
  exact ⟨hpos, hle, hpoint, (Task.gradientAt_eq_ok.mp hcurrent.gradient).1, _, hmem, hlargest,
    hdescent⟩

end Run

/-! ## One step on a half line -/

section Ray

/-- The half line, from inside. -/
noncomputable def innerRay : Problem Extended :=
  { ray with x0 := [1], multipliers := none }

/-- A solver that always goes one to the left, onto the bound. -/
noncomputable def returningBackend : Backend Extended :=
  fun _ _ _ => Pure.pure ⟨[-1], [-1], []⟩

theorem innerRay_agrees : innerRay.Agrees where
  objective _ _ _ _ _ _ hf hgrad := by
    cases hf
    cases hgrad
    rfl
  constraints _ hc := by cases hc

noncomputable def innerRayChecked : Checked Extended :=
  ⟨.exact fun _ _ _ _ => .ok (.ofRows 1 [[]]), ⟨[], [0]⟩⟩

theorem innerRay_check : innerRay.check .default = .ok innerRayChecked :=
  Problem.check_of_passes {
    options := validate_default
    pointBounds := by simp [Problem.checkBounds, Problem.variableCount, innerRay, ray]
    valueBounds := rfl
    unconstrained := fun _ => rfl
    curvature := rfl
    multipliers := rfl }

/-- The first head. -/
noncomputable def innerRayHead : Iterate Extended where
  iter := 0
  x := [1]
  multipliers := ⟨[], [0]⟩
  f := 1
  gradF := [1]
  g := []
  jacobian := .empty 0 1
  gradLagrangian := lagrangianGradient [1] (.empty 0 1) ⟨[], [0]⟩
  hessian := .ofTriplets 1 1 [⟨0, 0, 0⟩]
  regularization := 0
  step := [0]
  sigma := 0
  merits := .new 4
  searchTrials := 0
  searchSuccess := true
  searchFailures := 0

noncomputable abbrev innerRayTask : Task Extended :=
  taskOf .default returningBackend none innerRay innerRayChecked

theorem innerRay_start : (innerRayTask.start innerRayChecked.multipliers).outcome =
    .ok innerRayHead := by
  rfl

theorem innerRay_infeasibility {v : ℝ} (hv : 0 ≤ v) :
    primalInfeasibility (α := Extended) [v] [0] [posInf] [] [] [] = 0 := by
  simp [primalInfeasibility, violations, Scalar.maxNum, sub_def, neg_def, add_def, Extended.neg,
    Extended.add, Scalar.isNaN, lt_iff]
  exact fun hle => le_antisymm (hle hv) hv

theorem innerRay_verdict : innerRayTask.verdict innerRayHead = none := by
  exact Task.verdict_eq_none rfl (fun h => not_stationary_one h.2) (by decide)
    (fun h => absurd h.1 (lt_irrefl 0))

theorem innerRay_search : ∃ trials, innerRayTask.search innerRayHead ⟨[-1], [-1], []⟩ =
    ⟨1, Vec.along [1] [-1] 1, .accepted, trials⟩ := by
  have hsigma : Task.nextSigma (0 : Extended) ⟨[-1], [-1], []⟩ = ((1.01 : ℝ) : Extended) := by
    simp [Task.nextSigma, Vec.normInf]
    norm_num
  have hfirst : innerRayTask.infeasibility innerRayHead = 0 := innerRay_infeasibility zero_le_one
  have hwindow : LineSearch.reference
      (innerRayTask.nextMerits innerRayHead ⟨[-1], [-1], []⟩) = 1 := by
    unfold Task.nextMerits
    rw [hfirst]
    show LineSearch.reference (MeritWindow.push (MeritWindow.new 4)
      (l1Merit 1 (Task.nextSigma (0 : Extended) ⟨[-1], [-1], []⟩) 0)) = 1
    rw [hsigma]
    simp [l1Merit, MeritWindow.push, MeritWindow.new, LineSearch.reference, MeritWindow.max?]
  have hslope : innerRayTask.slope innerRayHead ⟨[-1], [-1], []⟩ = real (-1) := by
    unfold Task.slope
    rw [hfirst]
    show Vec.dot [-1] [1] - Task.nextSigma (0 : Extended) ⟨[-1], [-1], []⟩ * 0 = _
    rw [hsigma]
    simp [Vec.dot]
  have hpoint : Vec.along [(1 : Extended)] [-1] 1 = [((0 : ℝ) : Extended)] := by
    simp [Vec.along]
  have hlast : innerRayTask.infeasibilityAt (Vec.along [1] [-1] 1) [] = 0 := by
    rw [hpoint]
    exact innerRay_infeasibility le_rfl
  have hmerit : (innerRayTask.meritAt (Task.nextSigma 0 ⟨[-1], [-1], []⟩) ⟨1, 1⟩
      (Vec.along [1] [-1] 1)).outcome = .ok (l1Merit (Vec.coord (Vec.along [1] [-1] 1) 0)
        (Task.nextSigma 0 ⟨[-1], [-1], []⟩)
        (innerRayTask.infeasibilityAt (Vec.along [1] [-1] 1) [])) := rfl
  refine ⟨_, LineSearch.run_of_full_step (by decide) hmerit ?_⟩
  rw [hlast, hsigma, hpoint, hslope, hwindow]
  simp [l1Merit, LineSearch.threshold, Vec.coord, taskOf, Options.default,
    Options.search]
  norm_num

theorem innerRay_step : ∃ next, (innerRayTask.step innerRayHead).outcome = .ok next := by
  obtain ⟨trials, hsearch⟩ := innerRay_search
  have hfault : (innerRayTask.search innerRayHead ⟨[-1], [-1], []⟩).fault? = none := by
    rw [hsearch]
    rfl
  exact Task.exists_step rfl (by decide) hfault rfl rfl (by decide) rfl

/-- The full step leads to the minimizer and to its multiplier, which end the run. -/
theorem innerRay_converged : ∃ next, (innerRayTask.step innerRayHead).outcome = .ok next ∧
    innerRayTask.Stepped innerRayHead ⟨[-1], [-1], []⟩ next ∧
    innerRayTask.verdict next = some .converged := by
  obtain ⟨next, hnext⟩ := innerRay_step
  obtain ⟨sol, hstep⟩ := Task.stepped_of_step hnext
  obtain rfl : ⟨[-1], [-1], []⟩ = sol := Except.ok.inj hstep.solved
  obtain ⟨trials, hsearch⟩ := innerRay_search
  have hpoint : next.x = [((0 : ℝ) : Extended)] := by
    rw [hstep.x, hsearch]
    simp [Vec.along]
  have hlam : next.multipliers = ⟨[], [-1]⟩ := by
    rw [hstep.multipliers, hsearch]
    simp [Task.nextMultipliers, taskOf, Options.default, Vec.blend, innerRayHead]
  have hvalues : next.g = [] ∧ next.jacobian = .empty 0 1 := hstep.values
  have hgradF : next.gradF = [1] :=
    (Prod.mk.inj (Except.ok.inj (Task.gradientAt_eq_ok.mp hstep.gradient).1)).2.symm
  refine ⟨next, hnext, hstep, Task.verdict_eq_converged_iff.mpr ⟨rfl, ?_, ?_⟩⟩
  · have hprimal : innerRayTask.infeasibility next = 0 := by
      unfold Task.infeasibility
      rw [hpoint, hvalues.1]
      exact innerRay_infeasibility le_rfl
    rw [hprimal]
    simp [taskOf, Options.default]
    norm_num
  · rw [hstep.lagrangian, hgradF, hvalues.2, hlam, ray_lagrangian]
    simp [Vec.normInf, taskOf, Options.default]
    norm_num

theorem innerRay_descends :
    ∃ prev cur s s' length,
      (records (solve .default returningBackend none innerRay).journal)[0]? = some prev ∧
      (records (solve .default returningBackend none innerRay).journal)[1]? = some cur ∧
      cur.searchSuccess = true ∧
      innerRay.Descends .default
        (recentMerits (records (solve .default returningBackend none innerRay).journal) 4 1)
        s s' prev cur length := by
  obtain ⟨next, hnext⟩ := innerRay_step
  obtain ⟨sol, hstepped⟩ := Task.stepped_of_step hnext
  obtain ⟨trials, hsearch⟩ := innerRay_search
  have hheads : runHeads .default returningBackend none innerRay =
      innerRayHead :: innerRayTask.heads 49 next := by
    unfold runHeads
    rw [innerRay_check]
    simp only [innerRay_start]
    exact Task.heads_of_step innerRay_verdict hnext
  have hprev : (records (solve .default returningBackend none innerRay).journal)[0]? =
      some (innerRayTask.record innerRayHead) :=
    getElem?_records innerRay_check (by rw [hheads]; rfl)
  have hcur : (records (solve .default returningBackend none innerRay).journal)[1]? =
      some (innerRayTask.record next) := by
    refine getElem?_records innerRay_check ?_
    rw [hheads, List.getElem?_cons_succ, ← List.head?_eq_getElem?]
    exact Task.head?_heads 49 next
  have hsuccess : next.searchSuccess = true := by
    obtain rfl : ⟨[-1], [-1], []⟩ = sol := Except.ok.inj hstepped.solved
    rw [hstepped.searchSuccess, hsearch]
    rfl
  obtain ⟨s, s', length, -, -, hdescends⟩ :=
    descends_of_searchSuccess innerRay_agrees (by decide) hprev hcur hsuccess
  exact ⟨_, _, s, s', length, hprev, hcur, hsuccess, hdescends⟩

end Ray

end Nonlinear

end SeqQuad
