import SeqQuad.Proofs.Quadratic.Positivity

/-!
# The sum of residual and slack

Each iteration multiplies the sum of the residual of an inequality and its slack by one minus
the primal step length, since the step is chosen to close that gap whatever the linear solver
answers. So an inequality whose sum is zero once keeps it: its residual is the negative of its
slack, and it is strictly satisfied from there on.
-/

namespace SeqQuad.InteriorPoint

open Extended Scalar

/-! ## One step -/

section Sides

variable {n : ℕ} {s : Side Extended} {x d : List Extended}

/-- The residual is affine along a direction. -/
theorem RealSide.residual_along (h : RealSide n s) (hx : Vec.IsReal x) (hd : Vec.IsReal d)
    (hlx : x.length = n) (hld : d.length = n) (t : ℝ) :
    s.residual (Vec.along x d (t : Extended)) = s.residual x + (t : Extended) * s.dot d := by
  have hpoint := hx.along hd (isReal_real t)
  rw [h.residual_eq hpoint, h.residual_eq hx, h.dot_eq hd, Vec.reals_along hx hd hlx.ge hld.ge,
    real_mul_real, real_add_real, real_inj, Finset.mul_sum]
  simp only [Pi.add_apply, Pi.smul_apply, smul_eq_mul, mul_add, Finset.sum_add_distrib,
    mul_left_comm]
  ring

end Sides

/-- The sum of the residual of the inequality `s`, the one at `k`, and its slack. -/
noncomputable def gap (s : Side Extended) (k : ℕ) (it : Iterate Extended) : Extended :=
  s.residual it.x + Vec.coord it.z k

section Step

variable {task : Task Extended} {opt : Options Extended} {solver : LinearSolver Extended}
  {it : Iterate Extended} {p : Progress Extended} {n k : ℕ} {s : Side Extended}

/-- One iteration multiplies every gap by one minus the primal step length. -/
def Task.ShrinksGaps (task : Task Extended) (it : Iterate Extended) (p : Progress Extended) :
    Prop :=
  ∀ k s, task.sides.inequalities[k]? = some s →
    gap s k p.iterate = (1 - p.alphaPrimal) * gap s k it

theorem Task.Exact.shrinksGaps (h : task.Exact) (hopt : opt.Exact solver)
    (hxi0 : 0 < opt.xi.toReal) (hi : task.Interior it)
    (hstep : task.step opt solver n it = .ok p) : task.ShrinksGaps it p := by
  obtain ⟨reduced, hd, rfl⟩ := h.step_eq_ok hopt hi hstep
  intro k s hs
  have hside := h.inequalities s (List.mem_of_getElem? hs)
  obtain ⟨hk, -⟩ := List.getElem?_eq_some_iff.mp hs
  have hz : k < it.z.length := by rwa [hi.length_z]
  have hdz : k < (task.expand it reduced).dz.length := by rwa [hd.length_dz]
  obtain ⟨a, ha, -⟩ := stepLength_spec hxi0 hi.z hd.dz
  rw [← hopt.xi.eq] at ha
  obtain ⟨r, hr⟩ := hside.isReal_residual hi.x
  obtain ⟨z, -, hzeq⟩ := hi.z _ (Vec.coord_mem hz)
  obtain ⟨e, he⟩ : (s.dot (task.expand it reduced).dx).IsReal := by
    rw [hside.dot_eq hd.dx]
    exact isReal_real _
  show s.residual (Vec.along it.x (task.expand it reduced).dx
      (stepLength opt.xi it.z (task.expand it reduced).dz)) +
    Vec.coord (Vec.along it.z (task.expand it reduced).dz
      (stepLength opt.xi it.z (task.expand it reduced).dz)) k =
    (1 - stepLength opt.xi it.z (task.expand it reduced).dz) *
      (s.residual it.x + Vec.coord it.z k)
  rw [ha, hside.residual_along hi.x hd.dx hi.length_x hd.length_dx, Vec.coord_along _ hz hdz,
    hi.posed.coord_dz hs, hr, hzeq, he]
  simp only [neg_real, real_sub_real, real_mul_real, real_add_real, one_eq, real_inj]
  ring

end Step

/-! ## Closed gaps -/

section Closed

variable {task : Task Extended} {it : Iterate Extended} {p : Progress Extended} {k : ℕ}
  {s : Side Extended}

theorem Task.Central.isReal_gap (hi : task.Central it) (h : task.Exact)
    (hs : task.sides.inequalities[k]? = some s) : (gap s k it).IsReal := by
  have hresidual := (h.inequalities s (List.mem_of_getElem? hs)).isReal_residual hi.1.x
  exact isReal_add_iff.mpr ⟨hresidual, hi.1.z.isReal.coord k⟩

/-- Where the gap is closed the inequality is strictly satisfied, by its slack. -/
theorem Task.Central.residual_of_gap (hi : task.Central it) (h : task.Exact)
    (hs : task.sides.inequalities[k]? = some s) (hgap : gap s k it = 0) :
    s.residual it.x = -Vec.coord it.z k ∧ s.residual it.x < 0 := by
  obtain ⟨hk, -⟩ := List.getElem?_eq_some_iff.mp hs
  have hz : k < it.z.length := by rwa [hi.1.length_z]
  obtain ⟨z, hpos, hzeq⟩ := hi.1.z _ (Vec.coord_mem hz)
  obtain ⟨r, hr⟩ := (h.inequalities s (List.mem_of_getElem? hs)).isReal_residual hi.1.x
  rw [gap, hr, hzeq, real_add_real, zero_eq, real_inj] at hgap
  have hrz : r = -z := by linarith
  rw [hr, hzeq, neg_real, real_inj, zero_eq, real_lt_real]
  exact ⟨hrz, by linarith⟩

/-- A closed gap stays closed. -/
theorem Task.ShrinksGaps.gap_eq_zero (h : task.ShrinksGaps it p)
    (hs : task.sides.inequalities[k]? = some s) (halpha : p.alphaPrimal.IsReal)
    (hgap : gap s k it = 0) : gap s k p.iterate = 0 := by
  obtain ⟨a, ha⟩ := halpha
  rw [h k s hs, ha, hgap, one_eq, zero_eq, real_sub_real, real_mul_real, mul_zero]

/-- A full step closes every gap. -/
theorem Task.ShrinksGaps.gap_eq_zero_of_full (h : task.ShrinksGaps it p)
    (hs : task.sides.inequalities[k]? = some s) (hreal : (gap s k it).IsReal)
    (hfull : p.alphaPrimal = 1) : gap s k p.iterate = 0 := by
  obtain ⟨r, hr⟩ := hreal
  rw [h k s hs, hfull, hr, one_eq, zero_eq, real_sub_real, real_mul_real, sub_self, zero_mul]

/-- An inequality that is satisfied by more than the least slack starts without a gap. -/
theorem gap_start (h : task.Exact) {opt : Options Extended} {x0 : List Extended}
    (hx0 : Vec.IsReal x0) (hs : task.sides.inequalities[k]? = some s)
    (hlow : s.residual x0 < -opt.z0) : gap s k (task.start opt x0) = 0 := by
  obtain ⟨r, hr⟩ := (h.inequalities s (List.mem_of_getElem? hs)).isReal_residual hx0
  have hz : Vec.coord (task.start opt x0).z k = -s.residual x0 := by
    simp [Task.start, Task.evaluate, Vec.coord, hs, startSlack, if_pos hlow]
  show s.residual x0 + Vec.coord (task.start opt x0).z k = 0
  rw [hz, hr, neg_real, real_add_real, add_neg_cancel, zero_eq]

end Closed

/-! ## Whole runs -/

section Run

variable {opt : Options Extended} {solver : LinearSolver Extended}
  {qp : QuadraticProgram Extended} {x0 : List Extended} {task : Task Extended}

/-- What an iteration from a central iterate satisfies. -/
structure Task.Progresses (task : Task Extended) (it : Iterate Extended)
    (p : Progress Extended) : Prop where
  central : task.Central it
  next : task.Central p.iterate
  primal : p.alphaPrimal.IsReal
  shrinks : task.ShrinksGaps it p

variable (hqp : qp.Exact) (hopt : opt.Exact solver) (hx0 : Vec.IsReal x0)
  (hcheck : Task.check opt qp x0 = .ok task)
include hqp hopt hx0 hcheck

theorem linked_progresses : Linked task.Progresses (task.start opt x0)
    (progresses (solve opt solver qp x0).journal) := by
  obtain ⟨hexact, -⟩ := exact_of_check hqp hcheck
  obtain ⟨⟨hxi0, -⟩, -⟩ := ranges_of_check hopt hcheck
  refine linked_solve hqp hopt hx0 hcheck fun n it p hi hstep => ?_
  obtain ⟨hkeeps, hnext⟩ := keeps_of_step hqp hopt hcheck hi hstep
  obtain ⟨a, -, -, ha⟩ := hkeeps.primal
  exact ⟨hi, hnext, ⟨a, ha⟩, hexact.shrinksGaps hopt hxi0 hi.1 hstep⟩

/-- An inequality that starts without a gap is strictly satisfied at every iterate. -/
theorem residual_of_gap_start {k : ℕ} {s : Side Extended}
    (hs : task.sides.inequalities[k]? = some s) (hgap : gap s k (task.start opt x0) = 0) :
    ∀ it ∈ visited (task.start opt x0) (progresses (solve opt solver qp x0).journal),
      s.residual it.x = -Vec.coord it.z k ∧ s.residual it.x < 0 := by
  obtain ⟨hexact, -⟩ := exact_of_check hqp hcheck
  have hlinked := linked_progresses hqp hopt hx0 hcheck
  have hclosed := hlinked.forall_visited (P := fun it => gap s k it = 0) hgap
    fun it p hgap hp => hp.shrinks.gap_eq_zero hs hp.primal hgap
  intro it hit
  have hcentral := central_of_mem_visited hqp hopt hx0 hcheck it hit
  exact hcentral.residual_of_gap hexact hs (hclosed it hit)

/-- After a full step every inequality is strictly satisfied. -/
theorem residual_of_full_step {done later : List (Progress Extended)} {p : Progress Extended}
    (hrun : progresses (solve opt solver qp x0).journal = done ++ p :: later)
    (hfull : p.alphaPrimal = 1) {s : Side Extended} (hs : s ∈ task.sides.inequalities) :
    ∀ it ∈ visited p.iterate later, s.residual it.x < 0 := by
  obtain ⟨hexact, -⟩ := exact_of_check hqp hcheck
  obtain ⟨k, hk⟩ := List.mem_iff_getElem?.mp hs
  have hlinked := linked_progresses hqp hopt hx0 hcheck
  rw [hrun] at hlinked
  obtain ⟨⟨source, -, hp⟩, hlater⟩ := hlinked.of_append
  have hgap := hp.shrinks.gap_eq_zero_of_full hk (hp.central.isReal_gap hexact hk) hfull
  have hclosed := hlater.forall_visited
    (P := fun it => gap s k it = 0 ∧ task.Central it) ⟨hgap, hp.next⟩
    fun it q hit hq => ⟨hq.shrinks.gap_eq_zero hk hq.primal hit.1, hq.next⟩
  intro it hit
  obtain ⟨hgap, hcentral⟩ := hclosed it hit
  exact (hcentral.residual_of_gap hexact hk hgap).2

/-- Every iterate holds the residuals of its own point, and every iteration multiplies the sums
of residuals and slacks by one minus the primal step length. Hence an inequality that the start
satisfies by more than the least slack is strictly satisfied at all iterates and by the answer,
and so is every inequality after a full step. -/
theorem gaps_shrink :
    (∀ it ∈ visited (task.start opt x0) (progresses (solve opt solver qp x0).journal),
      it.h = task.sides.inequalities.map fun s => s.residual it.x) ∧
    Linked task.ShrinksGaps (task.start opt x0) (progresses (solve opt solver qp x0).journal) ∧
    (∀ k s, task.sides.inequalities[k]? = some s → s.residual x0 < -opt.z0 →
      (∀ it ∈ visited (task.start opt x0) (progresses (solve opt solver qp x0).journal),
        s.residual it.x = -Vec.coord it.z k ∧ s.residual it.x < 0) ∧
      ∀ sol, (solve opt solver qp x0).outcome = .ok sol → s.residual sol.x < 0) ∧
    ∀ done p later, progresses (solve opt solver qp x0).journal = done ++ p :: later →
      p.alphaPrimal = 1 → ∀ s ∈ task.sides.inequalities,
        (∀ q ∈ p :: later, s.residual q.iterate.x < 0) ∧
        ∀ sol, (solve opt solver qp x0).outcome = .ok sol → s.residual sol.x < 0 := by
  obtain ⟨hexact, -⟩ := exact_of_check hqp hcheck
  refine ⟨?_, ?_, ?_, ?_⟩
  · intro it hit
    exact (central_of_mem_visited hqp hopt hx0 hcheck it hit).1.h_eq
  · exact (linked_progresses hqp hopt hx0 hcheck).imp fun _ _ hp => hp.shrinks
  · intro k s hs hlow
    have hall := residual_of_gap_start hqp hopt hx0 hcheck hs (gap_start hexact hx0 hs hlow)
    refine ⟨hall, fun sol hsol => ?_⟩
    obtain ⟨it, hlast, -, rfl⟩ := solve_eq_ok hcheck hsol
    exact (hall it (List.mem_of_getLast? hlast)).2
  · intro done p later hrun hfull s hs
    have hall := residual_of_full_step hqp hopt hx0 hcheck hrun hfull hs
    refine ⟨fun q hq => hall _ (mem_visited_of_mem_cons hq), fun sol hsol => ?_⟩
    obtain ⟨it, hlast, -, rfl⟩ := solve_eq_ok hcheck hsol
    rw [hrun, getLast?_visited_append] at hlast
    exact hall it (List.mem_of_getLast? hlast)

end Run

/-- The bound of the half line is satisfied by more than the least slack at the start, and still
after the iteration. -/
theorem single_gaps_shrink :
    ∃ p, progresses (solve single standing halfLine [real 2]).journal = [p] ∧
      halfLineSide.residual [real 2] < -single.z0 ∧
      Task.ShrinksGaps ⟨halfLine, ⟨[], [halfLineSide]⟩⟩
        (Task.start ⟨halfLine, ⟨[], [halfLineSide]⟩⟩ single [real 2]) p ∧
      halfLineSide.residual p.iterate.x = -Vec.coord p.iterate.z 0 ∧
      halfLineSide.residual p.iterate.x < 0 := by
  obtain ⟨p, hp⟩ := single_progresses
  have hx0 : Vec.IsReal [real 2] := Vec.isReal_map_real [2]
  obtain ⟨-, hlinked, hstrict, -⟩ := gaps_shrink halfLine_exact single_exact hx0 single_check
  have hlow : halfLineSide.residual [real 2] < -single.z0 := by
    rw [halfLineSide_residual]
    simp only [single, Options.default, one_eq, neg_real, real_lt_real]
    norm_num
  rw [hp] at hlinked hstrict
  exact ⟨p, hp, hlow, hlinked.1, (hstrict 0 halfLineSide rfl hlow).1 _ (by simp [visited])⟩

end SeqQuad.InteriorPoint
