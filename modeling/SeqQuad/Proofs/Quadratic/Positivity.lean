import SeqQuad.Proofs.Quadratic.Certificate
import SeqQuad.Proofs.Quadratic.Run

/-!
# Slacks and multipliers stay positive

At the start and after every iteration the slacks, the multipliers of the inequalities and the
perturbation of complementarity are positive, whatever the linear solver answers. Both step
lengths are positive and at most one, and no slack or multiplier loses more than the fraction
`xi` of its value in one iteration.
-/

namespace SeqQuad.InteriorPoint

open Extended Scalar

/-! ## Accepted options -/

/-- The fraction and the share that the checks let pass. -/
theorem ranges_of_check {opt : Options Extended} {solver : LinearSolver Extended}
    {qp : QuadraticProgram Extended} {x0 : List Extended} {task : Task Extended}
    (hopt : opt.Exact solver) (hcheck : Task.check opt qp x0 = .ok task) :
    (0 < opt.xi.toReal ∧ opt.xi.toReal < 1) ∧ 0 < opt.sigma.toReal := by
  obtain ⟨hdims, -, -, -⟩ := check_eq_ok hcheck
  unfold checkDimensions at hdims
  dsimp only at hdims
  split at hdims
  · cases hdims
  · rename_i hxi
    split at hdims
    · cases hdims
    · rename_i hsigma
      rw [not_or, hopt.xi.eq, one_eq, ofScientific_eq, real_le_real, real_lt_real, not_le,
        not_lt] at hxi
      rw [not_or, hopt.sigma.eq, zero_eq, real_le_real, not_le] at hsigma
      exact ⟨⟨lt_of_lt_of_le (by norm_num) hxi.2, hxi.1⟩, hsigma.2⟩

/-! ## One step -/

section StepLength

variable {xi : ℝ} {v dv : List Extended}

/-- A step keeps at least the fraction `1 - xi` of every entry. -/
theorem le_coord_along_stepLength (hxi : 0 < xi) (hv : Vec.Positive v) (hdv : Vec.IsReal dv)
    (hlen : dv.length = v.length) {k : ℕ} (hk : k < v.length) :
    (1 - (xi : Extended)) * Vec.coord v k ≤
      Vec.coord (Vec.along v dv (stepLength (xi : Extended) v dv)) k := by
  have hkd : k < dv.length := by omega
  obtain ⟨a, ha, _, _, hall⟩ := stepLength_spec hxi hv hdv
  obtain ⟨p, _, hp⟩ := hv _ (Vec.coord_mem hk)
  obtain ⟨d, hd⟩ := hdv _ (Vec.coord_mem hkd)
  have hmem : (Vec.coord v k, Vec.coord dv k) ∈ v.zip dv := by
    rw [Vec.coord_eq_getElem v hk, Vec.coord_eq_getElem dv hkd]
    have hzip : k < (v.zip dv).length := by simp [hlen, hk]
    exact List.getElem_zip (h := hzip) ▸ List.getElem_mem hzip
  rw [hp, hd] at hmem
  have hbound := hall p d hmem
  rw [Vec.coord_along _ hk hkd, ha, hp, hd, one_eq, real_sub_real, real_mul_real, real_mul_real,
    real_add_real, real_le_real]
  linarith

end StepLength

/-- The share of a mean of positive products is positive. -/
theorem nextGamma_pos {sigma gamma : ℝ} (hsigma : 0 < sigma) (hgamma : 0 < gamma)
    {z mu : List Extended} (hz : Vec.Positive z) (hmu : Vec.Positive mu)
    (hlen : mu.length = z.length) :
    ∃ r : ℝ, 0 < r ∧ nextGamma (sigma : Extended) (gamma : Extended) z mu = r := by
  unfold nextGamma
  split
  · exact ⟨gamma, hgamma, rfl⟩
  · rename_i hempty
    have hne : z ≠ [] := by simpa using hempty
    have hcount : (0 : ℝ) < z.length := Nat.cast_pos.mpr (List.length_pos_of_ne_nil hne)
    have hproducts : Vec.Positive (List.zipWith (· * ·) z mu) := by
      intro a ha
      rw [← List.map_uncurry_zip_eq_zipWith] at ha
      rcases List.mem_map.mp ha with ⟨⟨s, m⟩, hmem, rfl⟩
      obtain ⟨hs, hm⟩ := List.of_mem_zip hmem
      obtain ⟨s, hs0, rfl⟩ := hz s hs
      obtain ⟨m, hm0, rfl⟩ := hmu m hm
      exact ⟨s * m, mul_pos hs0 hm0, rfl⟩
    have hsum : 0 < ((List.zipWith (· * ·) z mu).map toReal).sum := by
      apply List.sum_pos
      · intro r hr
        rcases List.mem_map.mp hr with ⟨a, ha, rfl⟩
        obtain ⟨r, hr0, rfl⟩ := hproducts a ha
        exact hr0
      · have hpos := List.length_pos_of_ne_nil hne
        exact List.ne_nil_of_length_pos (by simpa [hlen] using hpos)
    rw [Vec.sum_eq hproducts.isReal, natCast_eq, real_mul_real, real_div_real _ hcount.ne']
    exact ⟨_, div_pos (mul_pos hsigma hsum) hcount, rfl⟩

section Step

variable {task : Task Extended} {opt : Options Extended} {solver : LinearSolver Extended}
  {it : Iterate Extended} {p : Progress Extended} {n : ℕ}

/-- Both step lengths are positive and at most one, and every slack and multiplier keeps at least
the fraction `1 - xi` of its value. -/
structure KeepsFraction (xi : Extended) (it : Iterate Extended) (p : Progress Extended) :
    Prop where
  primal : ∃ a : ℝ, 0 < a ∧ a ≤ 1 ∧ p.alphaPrimal = a
  dual : ∃ a : ℝ, 0 < a ∧ a ≤ 1 ∧ p.alphaDual = a
  slack : ∀ k < it.z.length, (1 - xi) * Vec.coord it.z k ≤ Vec.coord p.iterate.z k
  multiplier : ∀ k < it.mu.length, (1 - xi) * Vec.coord it.mu k ≤ Vec.coord p.iterate.mu k

/-- In the interior, with a positive perturbation. -/
def Task.Central (task : Task Extended) (it : Iterate Extended) : Prop :=
  task.Interior it ∧ ∃ r : ℝ, 0 < r ∧ it.gamma = r

theorem Task.Central.advance (hi : task.Central it) (hopt : opt.Exact solver)
    (hxi0 : 0 < opt.xi.toReal) (hxi1 : opt.xi.toReal < 1) (hsigma : 0 < opt.sigma.toReal)
    {d : Direction Extended} (hd : RealDirection task d) :
    KeepsFraction opt.xi it (task.advance opt it d n) ∧
      task.Central (task.advance opt it d n).iterate := by
  obtain ⟨hint, gamma, hgamma, hgammaeq⟩ := hi
  have hnext := hint.advance (n := n) hopt hxi0 hxi1 hd
  have hlenz : d.dz.length = it.z.length := by rw [hd.length_dz, hint.length_z]
  have hlenmu : d.dmu.length = it.mu.length := by rw [hd.length_dmu, hint.length_mu]
  obtain ⟨a, ha, hapos, hale, _⟩ := stepLength_spec hxi0 hint.z hd.dz
  obtain ⟨b, hb, hbpos, hble, _⟩ := stepLength_spec hxi0 hint.mu hd.dmu
  rw [← hopt.xi.eq] at ha hb
  have hslack := fun k hk => le_coord_along_stepLength hxi0 hint.z hd.dz hlenz (k := k) hk
  have hmult := fun k hk => le_coord_along_stepLength hxi0 hint.mu hd.dmu hlenmu (k := k) hk
  rw [← hopt.xi.eq] at hslack hmult
  have hpositive := nextGamma_pos hsigma hgamma hnext.z hnext.mu
    (hnext.length_mu.trans hnext.length_z.symm)
  rw [← hopt.sigma.eq, ← hgammaeq] at hpositive
  exact ⟨⟨⟨a, hapos, hale, ha⟩, ⟨b, hbpos, hble, hb⟩, hslack, hmult⟩, hnext, hpositive⟩

theorem Task.Exact.central_step (h : task.Exact) (hopt : opt.Exact solver)
    (hxi0 : 0 < opt.xi.toReal) (hxi1 : opt.xi.toReal < 1) (hsigma : 0 < opt.sigma.toReal)
    (hi : task.Central it) (hstep : task.step opt solver n it = .ok p) :
    KeepsFraction opt.xi it p ∧ task.Central p.iterate := by
  obtain ⟨reduced, hd, rfl⟩ := h.step_eq_ok hopt hi.1 hstep
  exact hi.advance hopt hxi0 hxi1 hsigma hd

end Step

/-! ## Whole runs -/

/-- As many slacks and multipliers as inequalities, all of them positive, so that nothing is
divided by zero where an entry of the slacks divides, and a positive perturbation. -/
structure Task.Inside (task : Task Extended) (it : Iterate Extended) : Prop where
  length_z : it.z.length = task.sides.inequalities.length
  length_mu : it.mu.length = task.sides.inequalities.length
  z : Vec.Positive it.z
  mu : Vec.Positive it.mu
  gamma : ∃ r : ℝ, 0 < r ∧ it.gamma = r
  divisor : ∀ a ∈ it.z, a ≠ 0

theorem Task.Central.inside {task : Task Extended} {it : Iterate Extended}
    (h : task.Central it) : task.Inside it where
  length_z := h.1.length_z
  length_mu := h.1.length_mu
  z := h.1.z
  mu := h.1.mu
  gamma := h.2
  divisor := by
    intro a ha hzero
    obtain ⟨r, hr, rfl⟩ := h.1.z a ha
    exact hr.ne' (real_inj.mp hzero)

section Run

variable {opt : Options Extended} {solver : LinearSolver Extended}
  {qp : QuadraticProgram Extended} {x0 : List Extended} {task : Task Extended}
  (hqp : qp.Exact) (hopt : opt.Exact solver) (hx0 : Vec.IsReal x0)
  (hcheck : Task.check opt qp x0 = .ok task)
include hqp hopt hx0 hcheck

theorem central_start : task.Central (task.start opt x0) := by
  obtain ⟨hexact, -⟩ := exact_of_check hqp hcheck
  obtain ⟨hdims, rfl, -, -⟩ := check_eq_ok hcheck
  obtain ⟨-, -, hlen, -, -⟩ := checkDimensions_eq_ok hdims
  exact ⟨hexact.interior_start hopt hx0 hlen, 1, one_pos, rfl⟩

omit hx0 in
theorem keeps_of_step {n : ℕ} {it : Iterate Extended} {p : Progress Extended}
    (hi : task.Central it) (hstep : task.step opt solver n it = .ok p) :
    KeepsFraction opt.xi it p ∧ task.Central p.iterate := by
  obtain ⟨hexact, -⟩ := exact_of_check hqp hcheck
  obtain ⟨⟨hxi0, hxi1⟩, hsigma⟩ := ranges_of_check hopt hcheck
  exact hexact.central_step hopt hxi0 hxi1 hsigma hi hstep

/-- A relation that holds for every step from a central iterate links the iterations of a run. -/
theorem linked_solve {R : Iterate Extended → Progress Extended → Prop}
    (hrel : ∀ n it p, task.Central it → task.step opt solver n it = .ok p → R it p) :
    Linked R (task.start opt x0) (progresses (solve opt solver qp x0).journal) := by
  rw [progresses_solve hcheck]
  refine Task.linked_iterate (I := task.Central) (fun n it p hi hstep => ?_)
    (central_start hqp hopt hx0 hcheck)
  exact ⟨hrel n it p hi hstep, (keeps_of_step hqp hopt hcheck hi hstep).2⟩

theorem central_of_mem_visited :
    ∀ it ∈ visited (task.start opt x0) (progresses (solve opt solver qp x0).journal),
      task.Central it := by
  rw [progresses_solve hcheck]
  refine Task.forall_visited_iterate (fun n it p hi hstep => ?_)
    (central_start hqp hopt hx0 hcheck)
  exact (keeps_of_step hqp hopt hcheck hi hstep).2

/-- Every iterate of a run is inside, and every iteration keeps its fraction. -/
theorem stays_inside :
    (∀ it ∈ visited (task.start opt x0) (progresses (solve opt solver qp x0).journal),
      task.Inside it) ∧
    Linked (KeepsFraction opt.xi) (task.start opt x0)
      (progresses (solve opt solver qp x0).journal) := by
  refine ⟨fun it hit => (central_of_mem_visited hqp hopt hx0 hcheck it hit).inside, ?_⟩
  exact linked_solve hqp hopt hx0 hcheck fun n it p hi hstep =>
    (keeps_of_step hqp hopt hcheck hi hstep).1

end Run

/-! ## One iteration on a half line -/

section HalfLine

/-- One iteration at most. -/
noncomputable def single : Options Extended :=
  { (Options.default : Options Extended) with maxIterations := 1 }

/-- A solver that always answers zero. -/
noncomputable def standing : LinearSolver Extended :=
  ⟨fun _ _ b => .ok (Vec.zeros b.length), fun _ _ b _ h => by cases h; simp⟩

theorem single_exact : single.Exact standing where
  xi := isReal_real _
  sigma := isReal_real _
  z0 := ⟨1, one_pos, rfl⟩
  steps := .inl (isReal_real _)

theorem single_check : Task.check single halfLine [real 2] =
    .ok ⟨halfLine, ⟨[], [halfLineSide]⟩⟩ :=
  halfLine_check

/-- The residual of the only inequality at the start. -/
theorem halfLineSide_residual : halfLineSide.residual [real 2] = real (-2) := by
  simp [Side.residual, Side.dot, halfLineSide, Side.lower, Vec.sum, Vec.coord]

theorem single_unsatisfied :
    (Task.start ⟨halfLine, ⟨[], [halfLineSide]⟩⟩ single [real 2]).residuals.satisfied single =
      false := by
  have hslack : startSlack single.z0 (real (-2)) = real 2 := by
    simp [startSlack, single, Options.default]
  have hmultiplier : startMultiplier single.z0 (1 : Extended) (real 2) = 1 := by
    rw [startMultiplier, one_eq, real_div_real _ two_ne_zero]
    simp only [single, Options.default, one_eq, real_lt_real]
    norm_num
  have hcomp : (Task.start ⟨halfLine, ⟨[], [halfLineSide]⟩⟩ single [real 2]).residuals.comp =
      real (2 / 3) := by
    simp only [Task.start, Task.evaluate, Task.residuals, List.map_cons, List.map_nil,
      halfLineSide_residual, hslack, hmultiplier]
    simp only [Vec.sum, Vec.normInf, List.zipWith_cons_cons, List.zipWith_nil_left, List.map_cons,
      List.map_nil, List.foldl_cons, List.foldl_nil, zero_eq, one_eq, neg_real, real_mul_real,
      real_add_real, magnitude_real, maxNum_real]
    rw [real_div_real _ (by norm_num)]
    norm_num
  unfold Residuals.satisfied
  rw [hcomp]
  simp only [single, Options.default, ofScientific_eq, real_lt_real]
  norm_num

theorem single_step : ∃ p, Task.step ⟨halfLine, ⟨[], [halfLineSide]⟩⟩ single standing 1
    (Task.start ⟨halfLine, ⟨[], [halfLineSide]⟩⟩ single [real 2]) = .ok p := by
  have hnorm : Vec.norm ([0] : List Extended) = 0 := by
    simp [Vec.norm, Vec.dot, Scalar.sqrt]
  have hnum : ¬(([0] : List Extended).any isNaN || decide (single.maxStepSize < Vec.norm [0])) := by
    rw [hnorm]
    simp only [single, Options.default, ofScientific_eq, zero_eq, real_lt_real, List.any_cons,
      List.any_nil, isNaN_real]
    norm_num
  have hdirection : Task.direction ⟨halfLine, ⟨[], [halfLineSide]⟩⟩ single standing 1
      (Task.start ⟨halfLine, ⟨[], [halfLineSide]⟩⟩ single [real 2]) =
      .ok (Task.expand ⟨halfLine, ⟨[], [halfLineSide]⟩⟩
        (Task.start ⟨halfLine, ⟨[], [halfLineSide]⟩⟩ single [real 2]) [0]) := by
    unfold Task.direction
    refine except_bind_eq_ok.mpr ⟨_, rfl, ?_⟩
    refine except_bind_eq_ok.mpr ⟨[0], rfl, ?_⟩
    rw [if_neg hnum]
    rfl
  unfold Task.step
  rw [hdirection]
  exact ⟨_, rfl⟩

/-- The run makes one iteration. -/
theorem single_progresses :
    ∃ p, progresses (solve single standing halfLine [real 2]).journal = [p] := by
  obtain ⟨p, hstep⟩ := single_step
  refine ⟨p, ?_⟩
  rw [progresses_solve single_check]
  show progresses (Task.iterate _ single standing (0 + 1) 0 _).journal = [p]
  rw [Task.iterate_of_step single_unsatisfied hstep]
  split
  · rfl
  · show p :: progresses (Task.iterate _ single standing 0 1 p.iterate).journal = [p]
    rw [Task.progresses_iterate_zero]

/-- The iteration on the half line stays inside. -/
theorem single_stays_inside :
    ∃ p, progresses (solve single standing halfLine [real 2]).journal = [p] ∧
      Task.Inside ⟨halfLine, ⟨[], [halfLineSide]⟩⟩
        (Task.start ⟨halfLine, ⟨[], [halfLineSide]⟩⟩ single [real 2]) ∧
      Task.Inside ⟨halfLine, ⟨[], [halfLineSide]⟩⟩ p.iterate ∧
      KeepsFraction single.xi (Task.start ⟨halfLine, ⟨[], [halfLineSide]⟩⟩ single [real 2]) p := by
  obtain ⟨p, hp⟩ := single_progresses
  have hx0 : Vec.IsReal [real 2] := Vec.isReal_map_real [2]
  obtain ⟨hinside, hlinked⟩ := stays_inside halfLine_exact single_exact hx0 single_check
  rw [hp] at hinside hlinked
  exact ⟨p, hp, hinside _ (by simp [visited]), hinside _ (by simp [visited]), hlinked.1⟩

end HalfLine

end SeqQuad.InteriorPoint
