import SeqQuad.Proofs.Nonlinear.Failures
import SeqQuad.Proofs.Nonlinear.Termination

/-!
# The limit of line-search trials

A search that succeeds has stopped before its limit mattered: of the trials without a merit the
limit takes no notice, and a trial with a merit either descends far enough or leaves some of the
limit to go on with. So a run all of whose searches succeed goes the same way under every later
limit, trial for trial. Nothing here depends on the arithmetic.
-/

namespace SeqQuad

namespace Journaled

variable {ω ε β γ : Type}

/-- Past a success, only what follows matters. -/
theorem bind_congr_of_ok {c : Journaled ω ε β} {b : β} {f g : β → Journaled ω ε γ}
    (h : c.outcome = .ok b) (hf : f b = g b) : (c >>= f) = (c >>= g) := by
  rw [bind_of_ok f h, bind_of_ok g h, hf]

end Journaled

namespace LineSearch

variable {ω α : Type} [Scalar α]

/-! ## One search -/

/-- The same search under a limit of `m` trials. -/
def Options.allowing (opt : Options α) (m : ℕ) : Options α :=
  { opt with maxTrials := m }

variable {opt : Options α} {x dx : List α} {slope reference : α}
  {merit : ℕ → List α → Journaled ω (Failure EvaluationError) α} {m : ℕ}

/-- A full step without a merit and a descending second trial end the search there. -/
theorem run_of_second_trial {cause : EvaluationError} {value : α} {history : MeritWindow α}
    (hmax : 1 < opt.maxTrials)
    (hmissing : (merit 1 (Vec.along x dx 1)).outcome = .error (.error cause))
    (hgo : (Vec.same (Vec.along x dx 1) x || decide (1 < (Scalar.leastNormal : α))) = false)
    (hvalue : (merit 2 (Vec.along x dx (1 * opt.beta))).outcome = .ok value)
    (hle : value ≤ threshold opt slope (LineSearch.reference history) (1 * opt.beta)) :
    run opt x dx slope history merit =
      ⟨1 * opt.beta, Vec.along x dx (1 * opt.beta), .accepted,
        [⟨1, Vec.along x dx 1, merit 1 (Vec.along x dx 1)⟩,
          ⟨1 * opt.beta, Vec.along x dx (1 * opt.beta),
            merit 2 (Vec.along x dx (1 * opt.beta))⟩]⟩ := by
  have hfuel : trialBound opt = trialBound opt - 2 + 1 + 1 := by
    unfold trialBound
    omega
  unfold run
  rw [if_neg (by omega), hfuel, backtrack_of_missing hmissing hgo, backtrack_of_descent hvalue hle]
  rfl

/-- A search from some trial on that ends by descent ends there under a later limit, too. -/
theorem backtrack_allowing (hm : opt.maxTrials ≤ m) {fuel fuel' made : ℕ} {t : α}
    {tried : List (Trial ω α)} (hfuel : fuel ≤ fuel')
    (h : (backtrack opt x dx slope reference merit fuel made t tried).ending = .accepted) :
    backtrack (opt.allowing m) x dx slope reference merit fuel' made t tried =
      backtrack opt x dx slope reference merit fuel made t tried := by
  induction fuel generalizing fuel' made t tried with
  | zero => cases h
  | succ fuel ih =>
      obtain ⟨fuel', rfl⟩ := Nat.exists_eq_add_of_le' (Nat.le_of_add_left_le hfuel)
      have hfuel : fuel ≤ fuel' := by omega
      cases hout : (merit (made + 1) (Vec.along x dx t)).outcome with
      | ok value =>
          by_cases hle : value ≤ threshold opt slope reference t
          · have hle' : value ≤ threshold (opt.allowing m) slope reference t := hle
            rw [backtrack_of_descent hout hle, backtrack_of_descent hout hle']
          · have hle' : ¬value ≤ threshold (opt.allowing m) slope reference t := hle
            simp only [backtrack, hout, if_neg hle, if_neg hle'] at h ⊢
            -- The search went on from here, so the trial was not the last of either limit.
            by_cases hlast : opt.maxTrials ≤ made + 1
            · rw [if_pos hlast] at h
              cases h
            · have hlast' : ¬(opt.allowing m).maxTrials ≤ made + 1 := by
                show ¬m ≤ made + 1
                omega
              rw [if_neg hlast] at h ⊢
              rw [if_neg hlast']
              exact ih hfuel h
      | error e =>
          cases e with
          | fault fault =>
              simp only [backtrack, hout] at h
              cases h
          | error cause =>
              cases hgo : Vec.same (Vec.along x dx t) x || decide (t < Scalar.leastNormal) with
              | false =>
                  rw [backtrack_of_missing hout hgo] at h ⊢
                  rw [backtrack_of_missing hout hgo]
                  exact ih hfuel h
              | true => simp only [backtrack, hout, hgo, if_true]

/-- A search with trials that succeeds ends by descent. -/
theorem Ended.accepted_of_success {T : α → Prop} {s : LineSearch ω α}
    (h : Ended opt T x dx slope reference merit s) (hpos : 0 < opt.maxTrials)
    (hsuccess : s.success = true) : s.ending = .accepted := by
  cases h with
  | unsearched off => exact absurd off hpos.ne'
  | accepted => rfl
  | exhausted | stuck | aborted => cases hsuccess

/-- A successful search is the same under a later limit. -/
theorem run_allowing (hpos : 0 < opt.maxTrials) (hm : opt.maxTrials ≤ m)
    {history : MeritWindow α} (h : (run opt x dx slope history merit).success = true) :
    run (opt.allowing m) x dx slope history merit = run opt x dx slope history merit := by
  have hpos' : 0 < (opt.allowing m).maxTrials := hpos.trans_le hm
  have hfuel : trialBound opt ≤ trialBound (opt.allowing m) := max_le_max_right _ hm
  have hconducted : Conducted opt (fun _ => True) x dx slope (LineSearch.reference history) merit
      (run opt x dx slope history merit) := conducted_run trivial fun _ _ => trivial
  have hend := hconducted.ended.accepted_of_success hpos h
  unfold run at hend ⊢
  rw [if_neg hpos.ne'] at hend ⊢
  rw [if_neg hpos'.ne']
  exact backtrack_allowing hm hfuel hend

end LineSearch

namespace Nonlinear

open Journaled

variable {α : Type} [Scalar α]

namespace Task

/-! ## One iteration -/

/-- The same task under a limit of `m` trials. -/
def allowing (t : Task α) (m : ℕ) : Task α :=
  { t with options := { t.options with maxSearchTrials := m } }

variable {t : Task α} {m : ℕ}

/-- A trial without an objective value has no merit. -/
theorem meritAt_of_value_error {sigma : α} {moment : Moment} {x : List α}
    {e : Failure EvaluationError} (h : t.problem.objective.value moment x = .error e) :
    (t.meritAt sigma moment x).outcome = .error e := by
  have hobjective : (t.objectiveAt moment x).outcome = .error e := by
    unfold objectiveAt
    rw [bind_of_ok _ (outcome_note _), bind_of_error _ h]
  unfold meritAt
  rw [bind_of_error _ hobjective]

theorem search_allowing (hpos : 0 < t.options.maxSearchTrials)
    (hm : t.options.maxSearchTrials ≤ m) {s : Iterate α} {sol : QuadraticSolution α}
    (h : (t.search s sol).success = true) :
    (t.allowing m).search s sol = t.search s sol := by
  unfold search at h ⊢
  exact LineSearch.run_allowing hpos hm h

/-- The multipliers move by the same rule under any limit but zero. -/
theorem nextMultipliers_allowing (hpos : 0 < t.options.maxSearchTrials)
    (hm : t.options.maxSearchTrials ≤ m) (s : Iterate α) (sol : QuadraticSolution α)
    (length : α) :
    (t.allowing m).nextMultipliers s sol length = t.nextMultipliers s sol length := by
  have hpos' : 0 < (t.allowing m).options.maxSearchTrials := hpos.trans_le hm
  unfold nextMultipliers
  rw [if_pos hpos, if_pos hpos']

/-- An iteration whose search succeeds is the same under a later limit. -/
theorem step_allowing (hpos : 0 < t.options.maxSearchTrials) (hm : t.options.maxSearchTrials ≤ m)
    {s s' : Iterate α} (h : (t.step s).outcome = .ok s') (hsuccess : s'.searchSuccess = true) :
    (t.allowing m).step s = t.step s := by
  obtain ⟨sol, hstep⟩ := stepped_of_step h
  have hsearch : (t.allowing m).search s sol = t.search s sol :=
    search_allowing hpos hm (hstep.searchSuccess.symm.trans hsuccess)
  have hlam := nextMultipliers_allowing hpos hm s sol
  unfold step
  refine bind_congr_of_ok hstep.solveSubproblem ?_
  dsimp only
  rw [hsearch, hlam]
  rfl

/-- Failures of searches are only added to. -/
theorem searchFailures_le_of_mem_heads {left : ℕ} {s s' : Iterate α} (h : s' ∈ t.heads left s) :
    s.searchFailures ≤ s'.searchFailures := by
  refine heads_step_induction (P := fun s' => s.searchFailures ≤ s'.searchFailures) ?_ le_rfl s' h
  intro s₁ s₂ hle _ hstep
  have hfailures := searchFailures_of_step hstep
  omega

/-- A loop that ends without a failed search is the same under a later limit. -/
theorem iterate_allowing (hpos : 0 < t.options.maxSearchTrials)
    (hm : t.options.maxSearchTrials ≤ m) {left : ℕ} {s s' : Iterate α} {status : Status}
    (h : (t.iterate left s).outcome = .ok (status, s')) (hfailures : s'.searchFailures = 0) :
    (t.allowing m).iterate left s = t.iterate left s := by
  have hverdict : ∀ s, (t.allowing m).verdict s = t.verdict s := fun _ => rfl
  have hhead : ∀ s, (t.allowing m).headEvents s = t.headEvents s := fun _ => rfl
  induction left generalizing s with
  | zero => rw [iterate_zero, iterate_zero, hverdict, hhead]
  | succ left ih =>
      rw [iterate_succ] at h
      rw [iterate_succ, iterate_succ, hverdict, hhead]
      rcases outcome_bind_eq_ok.mp h with ⟨_, _, h⟩
      cases hv : t.verdict s with
      | some status => rfl
      | none =>
          simp only [hv] at h
          rcases outcome_bind_eq_ok.mp h with ⟨next, hnext, h⟩
          have hle := searchFailures_le_of_mem_heads (iterate_eq_ok h).1
          have hcount := searchFailures_of_step hnext
          have hsuccess : next.searchSuccess = true := by
            by_contra hfail
            rw [if_neg hfail] at hcount
            omega
          dsimp only
          rw [step_allowing hpos hm hnext hsuccess]
          refine congrArg _ (funext fun _ => bind_congr_of_ok hnext (ih h))

end Task

/-! ## Whole runs -/

/-- A run that returns without a failed search is the same under every later limit of trials: it
returns the same solution, makes the same calls at the same points and writes the same records
and notes. -/
theorem solve_of_later_search_limit {opt : Options α} {backend : Backend α}
    {callback : Option (Snapshot α → Bool)} {p : Problem α} {sol : Solution α} {m : ℕ}
    (hpos : 0 < opt.maxSearchTrials) (hm : opt.maxSearchTrials ≤ m)
    (h : (solve opt backend callback p).outcome = .ok sol) (hfailures : sol.searchFailures = 0) :
    solve { opt with maxSearchTrials := m } backend callback p =
      solve opt backend callback p := by
  obtain ⟨checked, first, s, hc, hs, hloop, hsol⟩ := exists_iterate_of_solve h
  rw [hsol] at hfailures
  have hiterate := Task.iterate_allowing (t := taskOf opt backend callback p checked) hpos hm hloop
    hfailures
  have hc' : p.check { opt with maxSearchTrials := m } = .ok checked := hc
  rw [solve_of_check hc, solve_of_check hc']
  refine bind_congr_of_ok (c := (taskOf opt backend callback p checked).start checked.multipliers)
    hs ?_
  exact congrArg (· >>= _) hiterate

/-! ## A leap over the edge -/

section Leap

open Extended

/-- The solution of every subproblem: a step to the left, beyond the edge. -/
noncomputable def leap : QuadraticSolution Extended :=
  ⟨[real (-(5 / 4))], [0], []⟩

noncomputable def leapBackend : Backend Extended :=
  fun _ _ _ => Pure.pure leap

noncomputable def leapOptions : Options Extended :=
  { Options.default with maxIter := 1 }

noncomputable abbrev leapTask : Task Extended :=
  taskOf leapOptions leapBackend none cliff cliffChecked

/-- The first head. -/
noncomputable def leapHead : Iterate Extended where
  iter := 0
  x := [1]
  multipliers := ⟨[], [0]⟩
  f := 1
  gradF := [1]
  g := []
  jacobian := .empty 0 1
  gradLagrangian := lagrangianGradient [1] (.empty 0 1) ⟨[], [0]⟩
  hessian := .ofTriplets 1 1 [⟨0, 0, 0⟩]
  regularization := 0
  step := [0]
  sigma := 0
  merits := .new 4
  searchTrials := 0
  searchSuccess := true
  searchFailures := 0

theorem leap_check : cliff.check leapOptions = .ok cliffChecked :=
  cliff_check

theorem leap_start : (leapTask.start cliffChecked.multipliers).outcome = .ok leapHead := by
  have hgradient : (leapTask.gradientAt ⟨0, 0⟩ cliff.x0).outcome = .ok (1, [1]) :=
    Task.gradientAt_eq_ok.mpr ⟨if_pos cliff_x0, rfl⟩
  exact outcome_bind_eq_ok.mpr ⟨_, rfl, outcome_bind_eq_ok.mpr ⟨_, hgradient, rfl⟩⟩

theorem leap_verdict : leapTask.verdict leapHead = none :=
  Task.verdict_eq_none rfl (fun h => not_stationary_one h.2) (by decide)
    (fun h => absurd h.1 (lt_irrefl 0))

theorem leap_infeasibility (v : ℝ) : leapTask.infeasibilityAt [(v : Extended)] [] = 0 := by
  show primalInfeasibility (α := Extended) [v] [negInf] [posInf] [] [] [] = 0
  simp [primalInfeasibility, violations, Scalar.maxNum, sub_def, neg_def, add_def, Extended.neg,
    Extended.add, Scalar.isNaN, lt_iff]

theorem leap_beta : 1 * leapOptions.beta = ((4 / 5 : ℝ) : Extended) := by
  simp [leapOptions, Options.default]
  norm_num

theorem leap_end : Vec.along [1] leap.x (1 * leapOptions.beta) = [((0 : ℝ) : Extended)] := by
  rw [leap_beta]
  simp [Vec.along, leap]

theorem leap_sigma : Task.nextSigma (0 : Extended) leap = 0 := by
  simp [Task.nextSigma, Vec.normInf, leap]

theorem leap_slope : leapTask.slope leapHead leap = real (-(5 / 4)) := by
  show Vec.dot leap.x [1] - Task.nextSigma 0 leap * leapTask.infeasibilityAt [1] [] = _
  rw [leap_sigma, one_eq, leap_infeasibility]
  simp [Vec.dot, leap]

theorem leap_reference : LineSearch.reference (leapTask.nextMerits leapHead leap) = 1 := by
  show LineSearch.reference (MeritWindow.push (MeritWindow.new 4)
    (l1Merit 1 (Task.nextSigma 0 leap) (leapTask.infeasibilityAt [1] []))) = 1
  rw [leap_sigma, one_eq, leap_infeasibility]
  simp [l1Merit, MeritWindow.push, MeritWindow.new, LineSearch.reference, MeritWindow.max?]

/-- The first trial has no merit, the second ends the search on the edge. -/
theorem leap_search : ∃ trials, leapTask.search leapHead leap =
    ⟨1 * leapOptions.beta, Vec.along [1] leap.x (1 * leapOptions.beta), .accepted, trials⟩ ∧
      trials.length = 2 := by
  have hfull : Vec.along [1] leap.x 1 = [((-(1 / 4) : ℝ) : Extended)] := by
    simp [Vec.along, leap]
    norm_num
  have hmissing : (leapTask.meritAt (Task.nextSigma 0 leap) ⟨1, 1⟩
      (Vec.along [1] leap.x 1)).outcome = .error (.error (.failed "negative")) := by
    refine Task.meritAt_of_value_error (cliff_value_of_neg _ ?_)
    rw [hfull]
    simp [Vec.coord]
  have hvalue : (leapTask.meritAt (Task.nextSigma 0 leap) ⟨1, 2⟩
      (Vec.along [1] leap.x (1 * leapOptions.beta))).outcome = .ok 0 := by
    rw [leap_end]
    refine Task.meritAt_eq_ok.mpr ⟨0, [], if_pos (by simp [Vec.coord]), rfl, ?_⟩
    rw [leap_infeasibility, leap_sigma]
    simp [l1Merit]
  refine ⟨_, LineSearch.run_of_second_trial (by decide) hmissing ?_ hvalue ?_, rfl⟩
  · have hshort : ¬(1 : Extended) < Scalar.leastNormal := one_not_lt_leastNormal
    have hmoved : Vec.same (Vec.along [1] leap.x 1) [1] = false := by
      rw [hfull]
      simp [Vec.same, Scalar.same]
      norm_num
    exact Bool.or_eq_false_iff.mpr ⟨hmoved, decide_eq_false hshort⟩
  · rw [leap_slope, leap_reference]
    show 0 ≤ LineSearch.threshold leapOptions.search _ _ (1 * leapOptions.beta)
    rw [leap_beta]
    simp [LineSearch.threshold, leapOptions, Options.search, Options.default]
    norm_num

theorem leap_step : ∃ next, (leapTask.step leapHead).outcome = .ok next ∧
    next.searchTrials = 2 ∧ next.searchFailures = 0 := by
  obtain ⟨trials, hsearch, htrials⟩ := leap_search
  have hpoint : (leapTask.search leapHead leap).point = [((0 : ℝ) : Extended)] := by
    rw [hsearch]
    exact leap_end
  have hfault : (leapTask.search leapHead leap).fault? = none := by
    rw [hsearch]
    rfl
  have hgradient : (leapTask.gradientAt ⟨1, 0⟩ (leapTask.search leapHead leap).point).outcome =
      .ok (0, [1]) := by
    rw [hpoint]
    exact Task.gradientAt_eq_ok.mpr ⟨if_pos (by simp [Vec.coord]), rfl⟩
  have hsol : (leapTask.solveSubproblem leapHead).outcome = .ok leap := rfl
  obtain ⟨next, hnext⟩ := Task.exists_step hsol (by decide) hfault rfl hgradient (by decide) rfl
  obtain ⟨sol, hstep⟩ := Task.stepped_of_step hnext
  obtain rfl : leap = sol := Except.ok.inj hstep.solved
  have hsuccess : next.searchSuccess = true := by
    rw [hstep.searchSuccess, hsearch]
    rfl
  refine ⟨next, hnext, ?_, ?_⟩
  · rw [hstep.searchTrials, hsearch]
    exact htrials
  · rw [Task.searchFailures_of_step hnext, hsuccess]
    rfl

/-- The run makes two trials in its only search and returns. -/
theorem leap_solve :
    ∃ s sol, (runHeads leapOptions leapBackend none cliff)[1]? = some s ∧ s.searchTrials = 2 ∧
      (solve leapOptions leapBackend none cliff).outcome = .ok sol ∧ sol.iterCount = 1 ∧
      sol.searchFailures = 0 := by
  obtain ⟨next, hnext, htrials, hfailures⟩ := leap_step
  have hhead : (runHeads leapOptions leapBackend none cliff)[1]? = some next :=
    getElem?_runHeads_one leap_check leap_start leap_verdict (by decide) hnext
  have hiter := iter_of_getElem?_runHeads hhead
  obtain ⟨status, hverdict⟩ := Option.ne_none_iff_exists'.mp
    (Task.verdict_ne_none_of_le (t := leapTask) hiter.ge)
  exact ⟨next, _, hhead, htrials,
    solve_of_mem_runHeads leap_check (List.mem_of_getElem? hhead) hverdict, hiter, hfailures⟩

/-- It goes the same way when it may make five trials. -/
theorem leap_later_search_limit :
    ∃ sol, 0 < leapOptions.maxSearchTrials ∧ leapOptions.maxSearchTrials ≤ 5 ∧
      (solve leapOptions leapBackend none cliff).outcome = .ok sol ∧ sol.searchFailures = 0 ∧
      solve { leapOptions with maxSearchTrials := 5 } leapBackend none cliff =
        solve leapOptions leapBackend none cliff := by
  obtain ⟨-, sol, -, -, hsolve, -, hfailures⟩ := leap_solve
  exact ⟨sol, by decide, by decide, hsolve, hfailures,
    solve_of_later_search_limit (by decide) (by decide) hsolve hfailures⟩

end Leap

end Nonlinear

end SeqQuad
