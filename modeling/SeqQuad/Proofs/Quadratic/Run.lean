import SeqQuad.Proofs.Exact.Matrix
import SeqQuad.Proofs.Nonlinear.Events

/-!
# Runs of the interior point method

The iterations of a run, in order, also of a run that fails later: they are what its journal
holds. A relation between an iterate and the iteration from it, once shown for one step, links
all iterations of a run, and a run has an answer just when one of the iterates it visits meets
the tolerances. Every step keeps the sizes of the vectors of an iterate.
-/

namespace SeqQuad.InteriorPoint

open Journaled

variable {α : Type}

/-! ## Iterations in a row -/

def Note.progress? : Note α → Option (Progress α)
  | iterated progress => some progress
  | solved _ => none

/-- The iterations of a journal, in order. -/
def progresses (journal : List (Note α)) : List (Progress α) :=
  journal.filterMap Note.progress?

/-- The iterate that a row of iterations starts from, and those it leads to. -/
def visited (it : Iterate α) (ps : List (Progress α)) : List (Iterate α) :=
  it :: ps.map Progress.iterate

theorem mem_visited_of_mem_cons {p q : Progress α} {later : List (Progress α)}
    (h : q ∈ p :: later) : q.iterate ∈ visited p.iterate later :=
  List.mem_map_of_mem (f := Progress.iterate) h

/-- A row ends where its last part ends. -/
theorem getLast?_visited_append (it : Iterate α) (done later : List (Progress α))
    (p : Progress α) :
    (visited it (done ++ p :: later)).getLast? = (visited p.iterate later).getLast? := by
  simp [visited, List.getLast?_append, List.getLast?_cons]

/-- Each iteration is related to the iterate that it starts from. -/
def Linked (R : Iterate α → Progress α → Prop) : Iterate α → List (Progress α) → Prop
  | _, [] => True
  | it, p :: ps => R it p ∧ Linked R p.iterate ps

namespace Linked

variable {R : Iterate α → Progress α → Prop} {it : Iterate α} {ps : List (Progress α)}

theorem imp {S : Iterate α → Progress α → Prop} (h : Linked R it ps)
    (himp : ∀ it p, R it p → S it p) : Linked S it ps := by
  induction ps generalizing it with
  | nil => trivial
  | cons p ps ih => exact ⟨himp it p h.1, ih h.2⟩

/-- What every iteration keeps holds at all iterates if it holds at the first. -/
theorem forall_visited {P : Iterate α → Prop} (h : Linked R it ps) (hi : P it)
    (hkeep : ∀ it p, P it → R it p → P p.iterate) : ∀ it' ∈ visited it ps, P it' := by
  induction ps generalizing it with
  | nil => simpa [visited] using hi
  | cons p ps ih =>
      have hnext := ih h.2 (hkeep it p hi h.1)
      exact List.forall_mem_cons.mpr ⟨hi, hnext⟩

/-- An iteration in the midst of a row, and those that follow it. -/
theorem of_append {done later : List (Progress α)} {p : Progress α}
    (h : Linked R it (done ++ p :: later)) :
    (∃ source ∈ visited it done, R source p) ∧ Linked R p.iterate later := by
  induction done generalizing it with
  | nil => exact ⟨⟨it, List.mem_cons_self, h.1⟩, h.2⟩
  | cons q done ih =>
      obtain ⟨⟨source, hsource, hrel⟩, hlater⟩ := ih h.2
      exact ⟨⟨source, List.mem_cons_of_mem it hsource, hrel⟩, hlater⟩

end Linked

/-! ## The loop -/

namespace Task

variable [Scalar α] {task : Task α} {opt : Options α} {solver : LinearSolver α}
  {left made : ℕ} {it : Iterate α}

theorem iterate_of_satisfied (h : it.residuals.satisfied opt = true) :
    task.iterate opt solver left made it = Pure.pure (made, it) := by
  unfold iterate
  rw [if_pos h]

theorem iterate_zero (h : it.residuals.satisfied opt = false) :
    task.iterate opt solver 0 made it = .fail (.error (.iterationLimit made)) := by
  unfold iterate
  rw [if_neg (by simp [h])]

theorem progresses_iterate_zero : progresses (task.iterate opt solver 0 made it).journal = [] := by
  cases hsat : it.residuals.satisfied opt with
  | true =>
      rw [iterate_of_satisfied hsat]
      rfl
  | false =>
      rw [iterate_zero hsat]
      rfl

theorem iterate_succ (h : it.residuals.satisfied opt = false) :
    task.iterate opt solver (left + 1) made it = (do
      let p ← .ofExcept (task.step opt solver (made + 1) it)
      .note [.iterated p]
      if !p.iterate.residuals.satisfied opt && p.failed opt then .fail (.error .numerical)
      else task.iterate opt solver left (made + 1) p.iterate) := by
  conv_lhs => unfold iterate
  rw [if_neg (by simp [h])]

/-- After a step the loop ends where no further step will help. -/
theorem iterate_of_step {p : Progress α} (h : it.residuals.satisfied opt = false)
    (hstep : task.step opt solver (made + 1) it = .ok p) :
    task.iterate opt solver (left + 1) made it =
      let rest : Journaled (Note α) (Failure (Error α)) (ℕ × Iterate α) :=
        if !p.iterate.residuals.satisfied opt && p.failed opt then .fail (.error .numerical)
        else task.iterate opt solver left (made + 1) p.iterate
      ⟨.iterated p :: rest.journal, rest.outcome⟩ := by
  rw [iterate_succ h, hstep]
  rfl

theorem iterate_of_error {e : Failure (Error α)} (h : it.residuals.satisfied opt = false)
    (hstep : task.step opt solver (made + 1) it = .error e) :
    task.iterate opt solver (left + 1) made it = ⟨[], .error e⟩ := by
  rw [iterate_succ h, hstep]
  rfl

/-- A relation that every step establishes, from an invariant that it keeps, links the
iterations of the loop. -/
theorem linked_iterate {I : Iterate α → Prop} {R : Iterate α → Progress α → Prop}
    (hstep : ∀ n it p, I it → task.step opt solver n it = .ok p → R it p ∧ I p.iterate)
    (hi : I it) : Linked R it (progresses (task.iterate opt solver left made it).journal) := by
  induction left generalizing made it with
  | zero =>
      rw [progresses_iterate_zero]
      trivial
  | succ left ih =>
      cases hsat : it.residuals.satisfied opt with
      | true =>
          rw [iterate_of_satisfied hsat]
          trivial
      | false =>
          cases hs : task.step opt solver (made + 1) it with
          | error e =>
              rw [iterate_of_error hsat hs]
              trivial
          | ok p =>
              obtain ⟨hrel, hnext⟩ := hstep _ it p hi hs
              rw [iterate_of_step hsat hs]
              refine ⟨hrel, ?_⟩
              split
              · trivial
              · exact ih hnext

/-- A loop that ends well ends at the last iterate that it visits, which meets the tolerances. -/
theorem iterate_eq_ok {made' : ℕ} {it' : Iterate α}
    (h : (task.iterate opt solver left made it).outcome = .ok (made', it')) :
    it'.residuals.satisfied opt = true ∧
      (visited it (progresses (task.iterate opt solver left made it).journal)).getLast? =
        some it' := by
  induction left generalizing made it with
  | zero =>
      cases hsat : it.residuals.satisfied opt with
      | true =>
          rw [iterate_of_satisfied hsat] at h ⊢
          obtain ⟨rfl, rfl⟩ := Prod.mk.inj (Except.ok.inj h)
          exact ⟨hsat, rfl⟩
      | false =>
          rw [iterate_zero hsat] at h
          cases h
  | succ left ih =>
      cases hsat : it.residuals.satisfied opt with
      | true =>
          rw [iterate_of_satisfied hsat] at h ⊢
          obtain ⟨rfl, rfl⟩ := Prod.mk.inj (Except.ok.inj h)
          exact ⟨hsat, rfl⟩
      | false =>
          cases hs : task.step opt solver (made + 1) it with
          | error e =>
              rw [iterate_of_error hsat hs] at h
              cases h
          | ok p =>
              rw [iterate_of_step hsat hs] at h ⊢
              dsimp only at h ⊢
              split at h
              · cases h
              · rename_i hgo
                rw [if_neg hgo]
                exact ih h

/-- A loop that visits an iterate within the tolerances ends well there. -/
theorem iterate_of_mem_visited {it' : Iterate α}
    (hmem : it' ∈ visited it (progresses (task.iterate opt solver left made it).journal))
    (hsat' : it'.residuals.satisfied opt = true) :
    ∃ made', (task.iterate opt solver left made it).outcome = .ok (made', it') := by
  induction left generalizing made it with
  | zero =>
      rw [progresses_iterate_zero] at hmem
      obtain rfl : it' = it := by simpa [visited] using hmem
      rw [iterate_of_satisfied hsat']
      exact ⟨made, rfl⟩
  | succ left ih =>
      cases hsat : it.residuals.satisfied opt with
      | true =>
          rw [iterate_of_satisfied hsat] at hmem ⊢
          obtain rfl : it' = it := by simpa [visited, progresses] using hmem
          exact ⟨made, rfl⟩
      | false =>
          have hne : it' ≠ it := by
            rintro rfl
            simp [hsat'] at hsat
          cases hs : task.step opt solver (made + 1) it with
          | error e =>
              rw [iterate_of_error hsat hs] at hmem
              simp [visited, progresses, hne] at hmem
          | ok p =>
              rw [iterate_of_step hsat hs] at hmem ⊢
              dsimp only at hmem ⊢
              have htail := (List.mem_cons.mp hmem).resolve_left hne
              split
              · rename_i hstop
                rw [if_pos hstop] at htail
                obtain rfl : it' = p.iterate := by
                  simpa [progresses, Note.progress?, Journaled.fail] using htail
                simp [hsat'] at hstop
              · rename_i hgo
                rw [if_neg hgo] at htail
                exact ih htail

/-- What every step keeps holds at all iterates that the loop visits. -/
theorem forall_visited_iterate {I : Iterate α → Prop}
    (hstep : ∀ n it p, I it → task.step opt solver n it = .ok p → I p.iterate) (hi : I it) :
    ∀ it' ∈ visited it (progresses (task.iterate opt solver left made it).journal), I it' := by
  have hlinked : Linked (fun _ p => I p.iterate) it
      (progresses (task.iterate opt solver left made it).journal) :=
    linked_iterate (fun n it p hi hs => ⟨hstep n it p hi hs, hstep n it p hi hs⟩) hi
  exact hlinked.forall_visited hi fun _ _ _ hnext => hnext

/-! ## Evaluated iterates -/

/-- A direction is the expansion of an answer of the linear solver that is not too long. -/
theorem direction_eq_ok {n : ℕ} {d : Direction α} (h : task.direction opt solver n it = .ok d) :
    ∃ K reduced, task.newtonMatrix? it = some K ∧
      solver.solve n K.rows ((task.newtonGradient it ++ it.g).map (- ·)) = .ok reduced ∧
      reduced.any Scalar.isNaN = false ∧ ¬opt.maxStepSize < Vec.norm reduced ∧
      d = task.expand it reduced := by
  unfold direction at h
  rcases except_bind_eq_ok.mp h with ⟨K, hK, h⟩
  rcases except_bind_eq_ok.mp h with ⟨reduced, hsolve, h⟩
  have hsolve := except_mapError_eq_ok.mp hsolve
  unfold LinearSystem.solveSymmetric at hsolve
  split at hsolve
  · split at h
    · cases h
    · rename_i hsize
      rw [Bool.or_eq_true, not_or, Bool.not_eq_true, decide_eq_true_eq] at hsize
      exact ⟨K, reduced, Failure.ofOption_eq_ok_iff.mp hK, except_mapError_eq_ok.mp hsolve,
        hsize.1, hsize.2, (Except.ok.inj h).symm⟩
  · cases hsolve

theorem step_eq_ok {n : ℕ} {p : Progress α} (h : task.step opt solver n it = .ok p) :
    ∃ d, task.direction opt solver n it = .ok d ∧ p = task.advance opt it d n := by
  unfold step at h
  cases hd : task.direction opt solver n it with
  | error e =>
      rw [hd] at h
      cases h
  | ok d =>
      rw [hd] at h
      exact ⟨d, rfl, (Except.ok.inj h).symm⟩

/-- The residuals are those of the point, the slacks and the multipliers. -/
def Evaluated (task : Task α) (it : Iterate α) : Prop :=
  ∃ cost, it.residuals = task.residuals it.x it.lam it.z it.mu it.h it.g cost

theorem evaluated_of_mem_visited (hi : task.Evaluated it) :
    ∀ it' ∈ visited it (progresses (task.iterate opt solver left made it).journal),
      task.Evaluated it' := by
  refine forall_visited_iterate (fun n it p _ hstep => ?_) hi
  obtain ⟨d, -, rfl⟩ := step_eq_ok hstep
  exact ⟨_, rfl⟩

end Task

/-! ## Sizes -/

section Sizes

variable [Scalar α] {task : Task α} {opt : Options α} {solver : LinearSolver α} {it : Iterate α}

theorem Task.length_lagrangianGradient (hheight : task.qp.h.height = task.qp.variableCount)
    (x lam mu : List α) :
    (task.lagrangianGradient x lam mu).length = task.qp.variableCount := by
  refine (SparseMatrix.length_foldl_scatter (task.sides.weighted lam mu) (fun e => e.1.coef)
    (fun e => e.2) _).trans ?_
  rw [List.length_zipWith, SparseMatrix.length_apply, hheight]
  exact min_self _

theorem Task.length_newtonGradient (hheight : task.qp.h.height = task.qp.variableCount)
    (it : Iterate α) : (task.newtonGradient it).length = task.qp.variableCount := by
  refine (SparseMatrix.length_foldl_scatter (task.rows it) (fun e => e.1.coef)
    (fun e => (e.2.2.2 * e.2.1 + it.gamma) / e.2.2.1) _).trans ?_
  exact Task.length_lagrangianGradient hheight _ _ _

omit [Scalar α] in
/-- An iterate with an entry for every variable, every equality and every inequality. -/
structure Task.Shaped (task : Task α) (it : Iterate α) : Prop where
  x : it.x.length = task.qp.variableCount
  lam : it.lam.length = task.sides.equalities.length
  g : it.g.length = task.sides.equalities.length
  z : it.z.length = task.sides.inequalities.length
  mu : it.mu.length = task.sides.inequalities.length
  h : it.h.length = task.sides.inequalities.length

theorem Task.shaped_start (opt : Options α) {x0 : List α}
    (hx0 : x0.length = task.qp.variableCount) : task.Shaped (task.start opt x0) where
  x := hx0
  lam := Vec.length_zeros _
  g := List.length_map _
  z := List.length_map _
  mu := (List.length_map _).trans (List.length_map _)
  h := List.length_map _

namespace Task.Shaped

variable (hi : task.Shaped it)
include hi

omit [Scalar α] in
/-- No inequality is left out of the rows. -/
theorem map_fst_rows : (task.rows it).map Prod.fst = task.sides.inequalities := by
  rw [Task.rows, List.map_fst_zip]
  simp [hi.z, hi.mu, hi.h]

omit [Scalar α] in
theorem length_rows : (task.rows it).length = task.sides.inequalities.length := by
  rw [← hi.map_fst_rows, List.length_map]

/-- The right-hand side of the reduced equations has an entry for each of them. -/
theorem length_newtonSide (hheight : task.qp.h.height = task.qp.variableCount) :
    ((task.newtonGradient it ++ it.g).map (- ·)).length =
      task.qp.variableCount + task.sides.equalities.length := by
  rw [List.length_map, List.length_append, Task.length_newtonGradient hheight, hi.g]

/-- The full step has the sizes of the iterate. -/
theorem length_expand {reduced : List α}
    (hlen : reduced.length = task.qp.variableCount + task.sides.equalities.length) :
    (task.expand it reduced).dx.length = task.qp.variableCount ∧
      (task.expand it reduced).dlam.length = task.sides.equalities.length ∧
      (task.expand it reduced).dz.length = task.sides.inequalities.length ∧
      (task.expand it reduced).dmu.length = task.sides.inequalities.length := by
  have hdz : (task.expand it reduced).dz.length = task.sides.inequalities.length := by
    rw [Task.expand, List.length_map, hi.length_rows]
  refine ⟨?_, ?_, hdz, ?_⟩
  · rw [Task.expand, List.length_take, hlen]
    omega
  · rw [Task.expand, List.length_drop, hlen]
    omega
  · show (List.zipWith _ (it.mu.zip it.z) (task.expand it reduced).dz).length = _
    rw [List.length_zipWith, List.length_zip, hdz, hi.mu, hi.z, min_self, min_self]

/-- A step keeps the sizes. -/
theorem step (hheight : task.qp.h.height = task.qp.variableCount) {n : ℕ} {p : Progress α}
    (h : task.step opt solver n it = .ok p) : task.Shaped p.iterate := by
  obtain ⟨d, hd, rfl⟩ := Task.step_eq_ok h
  obtain ⟨K, reduced, -, hsolve, -, -, rfl⟩ := Task.direction_eq_ok hd
  have hlen := (solver.length_solve _ _ _ _ hsolve).trans (hi.length_newtonSide hheight)
  obtain ⟨hdx, hdlam, hdz, hdmu⟩ := hi.length_expand hlen
  have hkeep : ∀ {a b : List α} {m : ℕ} (t : α), a.length = m → b.length = m →
      (Vec.along a b t).length = m := by
    intro a b m t ha hb
    rw [Vec.length_along, ha, hb, min_self]
  exact {
    x := hkeep _ hi.x hdx
    lam := hkeep _ hi.lam hdlam
    g := List.length_map _
    z := hkeep _ hi.z hdz
    mu := hkeep _ hi.mu hdmu
    h := List.length_map _ }

end Task.Shaped

end Sizes

/-! ## Checks -/

section Checks

variable [Scalar α] {opt : Options α} {qp : QuadraticProgram α} {x0 : List α}

/-- Options that the checks accept. -/
structure Options.Accepted (opt : Options α) : Prop where
  fraction : ¬(1 ≤ opt.xi ∨ opt.xi < 0.5)
  centering : ¬(1 < opt.sigma ∨ opt.sigma ≤ 0)

omit [Scalar α] in
/-- A start and matrices of the sizes that the gradient asks for. The columns of a constraint
matrix without rows do not count. -/
structure Conforms (qp : QuadraticProgram α) (x0 : List α) : Prop where
  start : x0.length = qp.variableCount
  hessian_height : qp.h.height = qp.variableCount
  hessian_cols : qp.h.cols = qp.variableCount
  constraint_cols : qp.rowCount ≠ 0 → qp.a.cols = qp.variableCount

theorem checkDimensions_eq_ok_iff :
    checkDimensions opt qp x0 = .ok () ↔ opt.Accepted ∧ Conforms qp x0 := by
  unfold checkDimensions
  dsimp only
  constructor
  · intro h
    split_ifs at h with hxi hsigma hsizes hcols
    simp only [not_or, not_not] at hsizes
    exact ⟨⟨hxi, hsigma⟩, hsizes.1, hsizes.2.1, hsizes.2.2,
      fun hrows => not_not.mp fun hne => hcols ⟨hne, hrows⟩⟩
  · rintro ⟨⟨hxi, hsigma⟩, hstart, hheight, hcols, hrows⟩
    rw [if_neg hxi, if_neg hsigma, if_neg (by simp [hstart, hheight, hcols]),
      if_neg fun h => h.1 (hrows h.2)]

theorem checkDimensions_eq_ok (h : checkDimensions opt qp x0 = .ok ()) :
    ¬1 ≤ opt.xi ∧ ¬opt.xi < 0.5 ∧ x0.length = qp.variableCount ∧
      qp.h.height = qp.variableCount ∧ qp.h.cols = qp.variableCount := by
  obtain ⟨hopt, hsizes⟩ := checkDimensions_eq_ok_iff.mp h
  obtain ⟨hxi1, hxi0⟩ := not_or.mp hopt.fraction
  exact ⟨hxi1, hxi0, hsizes.start, hsizes.hessian_height, hsizes.hessian_cols⟩

theorem check_eq_ok {task : Task α} (h : Task.check opt qp x0 = .ok task) :
    checkDimensions opt qp x0 = .ok () ∧ task.qp = qp ∧
      Sides.ofProgram? qp = some task.sides ∧ qp.h.Readable := by
  unfold Task.check at h
  rcases except_bind_eq_ok.mp h with ⟨_, hdims, h⟩
  rcases except_bind_eq_ok.mp h with ⟨sides, hsides, h⟩
  rcases except_bind_eq_ok.mp h with ⟨_, hread, h⟩
  obtain rfl := Except.ok.inj h
  exact ⟨except_mapError_eq_ok.mp hdims, rfl, Failure.ofOption_eq_ok_iff.mp hsides,
    Failure.ensure_eq_ok_iff.mp hread⟩

end Checks

/-! ## Whole runs -/

section Whole

variable [Scalar α] {opt : Options α} {solver : LinearSolver α} {qp : QuadraticProgram α}
  {x0 : List α} {task : Task α}

theorem solve_of_check (hcheck : Task.check opt qp x0 = .ok task) :
    solve opt solver qp x0 = (do
      let r ← task.iterate opt solver opt.maxIterations 0 (task.start opt x0)
      .note [.solved r.1]
      return task.solution r.2) := by
  unfold solve
  rw [hcheck]
  rfl

/-- The iterations of a run are those of its loop. -/
theorem progresses_solve (hcheck : Task.check opt qp x0 = .ok task) :
    progresses (solve opt solver qp x0).journal =
      progresses (task.iterate opt solver opt.maxIterations 0 (task.start opt x0)).journal := by
  rw [solve_of_check hcheck]
  exact filterMap_bind_of_right fun _ => rfl

/-- An answer is read off the last iterate of the run. -/
theorem solve_eq_ok {sol : QuadraticSolution α} (hcheck : Task.check opt qp x0 = .ok task)
    (h : (solve opt solver qp x0).outcome = .ok sol) :
    ∃ it, (visited (task.start opt x0) (progresses (solve opt solver qp x0).journal)).getLast? =
        some it ∧ it.residuals.satisfied opt = true ∧ sol = task.solution it := by
  rw [progresses_solve hcheck]
  rw [solve_of_check hcheck] at h
  rcases outcome_bind_eq_ok.mp h with ⟨⟨made, it⟩, hloop, h⟩
  obtain ⟨hsat, hlast⟩ := Task.iterate_eq_ok hloop
  exact ⟨it, hlast, hsat, (Except.ok.inj h).symm⟩

/-- A run answers just when it visits an iterate that meets the tolerances. -/
theorem solve_eq_ok_iff {sol : QuadraticSolution α} :
    (solve opt solver qp x0).outcome = .ok sol ↔
      ∃ task, Task.check opt qp x0 = .ok task ∧
        ∃ it ∈ visited (task.start opt x0) (progresses (solve opt solver qp x0).journal),
          it.residuals.satisfied opt = true ∧ sol = task.solution it := by
  constructor
  · intro h
    cases hcheck : Task.check opt qp x0 with
    | error e =>
        unfold solve at h
        rw [hcheck] at h
        cases h
    | ok task =>
        obtain ⟨it, hlast, hsat, hsol⟩ := solve_eq_ok hcheck h
        exact ⟨task, rfl, it, List.mem_of_getLast? hlast, hsat, hsol⟩
  · rintro ⟨task, hcheck, it, hmem, hsat, rfl⟩
    rw [progresses_solve hcheck] at hmem
    obtain ⟨made, hloop⟩ := Task.iterate_of_mem_visited hmem hsat
    rw [solve_of_check hcheck]
    exact outcome_bind_eq_ok.mpr ⟨(made, it), hloop, rfl⟩

end Whole

end SeqQuad.InteriorPoint
