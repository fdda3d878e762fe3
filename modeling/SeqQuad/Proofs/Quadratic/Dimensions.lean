import SeqQuad.Proofs.Nonlinear.Dimensions
import SeqQuad.Proofs.Quadratic.Certificate
import SeqQuad.Proofs.SparseMatrix.Blocks

/-!
# Dimensions of a quadratic program

A program brings its vectors and matrices in sizes of its own. The checks refuse a start, a
Hessian or a constraint matrix whose size does not fit the gradient, but they count no bounds: a
missing bound ends the run by a fault, and bounds beyond the last variable or the last row are
never looked at. Past the checks all sizes agree and stay the same, so nothing else is read out of
range.
-/

namespace SeqQuad

open Scalar

variable {α : Type}

theorem Vec.fits_of_le {m n : ℕ} (hn : Vec.fits n) (h : m ≤ n) : Vec.fits m := by
  simp only [Vec.fits, decide_eq_true_eq] at hn ⊢
  exact h.trans_lt hn

theorem SparseMatrix.length_toTriplets_le (A : SparseMatrix α) :
    A.toTriplets.length ≤ A.stored := by
  simp [toTriplets, stored]

/-- A linear solver that answers, be it by an error. -/
def LinearSolver.Answering (solver : LinearSolver α) : Prop :=
  ∀ call columns b f, solver.solve call columns b ≠ .error (.fault f)

/-- Whether an origin is one of the first `nx` variables or of the first `na` rows. -/
def Origin.Within (nx na : ℕ) : Origin → Prop
  | .bound j => j < nx
  | .row k => k < na

/-- A side of a program, which speaks of its variables and comes from one of them or from one of
its rows. -/
structure Side.Within (qp : QuadraticProgram α) (s : Side α) : Prop where
  coef : ∀ e ∈ s.coef, e.1 < qp.variableCount
  origin : s.origin.Within qp.variableCount qp.rowCount

/-! ## Programs of any dimensions -/

namespace QuadraticProgram

/-- Both bounds of every variable and of every constraint row are there. -/
structure Covered (qp : QuadraticProgram α) : Prop where
  lbx : qp.variableCount ≤ qp.lbx.length
  ubx : qp.variableCount ≤ qp.ubx.length
  lba : qp.rowCount ≤ qp.lba.length
  uba : qp.rowCount ≤ qp.uba.length

/-- The program without the bounds beyond its last variable and its last row. -/
def trimmed (qp : QuadraticProgram α) : QuadraticProgram α :=
  { qp with
    lbx := qp.lbx.take qp.variableCount
    ubx := qp.ubx.take qp.variableCount
    lba := qp.lba.take qp.rowCount
    uba := qp.uba.take qp.rowCount }

variable [Scalar α] (qp : QuadraticProgram α)

/-- How many entries are listed for a Newton matrix beside its border: those of the Hessian, the
products that the inequalities add, and the diagonal. -/
def listed : ℕ :=
  qp.h.stored +
    (qp.inequalityBounds.map fun a => (qp.sideAt a).coef.length * (qp.sideAt a).coef.length).sum +
    (qp.variableCount + qp.equalityPairs.length)

/-- There is room for the entries of a Newton matrix and for the starts of its rows. -/
def HasRoom : Prop :=
  Vec.fits (qp.listed + 1)

theorem exists_boundSides?_iff {j : ℕ} :
    (∃ s, qp.boundSides? j = some s) ↔ j < qp.lbx.length ∧ j < qp.ubx.length := by
  simp [boundSides?, Option.bind_eq_some_iff, List.getElem?_eq_some_iff]

theorem exists_rowSides?_iff {k : ℕ} :
    (∃ s, qp.rowSides? k = some s) ↔
      (k < qp.a.height ∧ qp.a.IsPart k) ∧ k < qp.lba.length ∧ k < qp.uba.length := by
  simp [rowSides?, SparseMatrix.row?, Option.bind_eq_some_iff, List.getElem?_eq_some_iff]

/-- A program that is taken apart misses no bound. -/
theorem covered_of_ofProgram?_eq_some {sides : Sides α} (h : Sides.ofProgram? qp = some sides) :
    qp.Covered := by
  rw [ofProgram?_eq] at h
  rcases Option.bind_eq_some_iff.mp h with ⟨bounds, hbounds, h⟩
  rcases Option.bind_eq_some_iff.mp h with ⟨rows, hrows, -⟩
  have hx := exists_mapM_eq_some.mp ⟨bounds, hbounds⟩
  have ha := exists_mapM_eq_some.mp ⟨rows, hrows⟩
  simp only [List.mem_range, exists_boundSides?_iff, exists_rowSides?_iff] at hx ha
  exact {
    lbx := forall_lt_iff_le.mp fun j hj => (hx j hj).1
    ubx := forall_lt_iff_le.mp fun j hj => (hx j hj).2
    lba := forall_lt_iff_le.mp fun k hk => (ha k hk).2.1
    uba := forall_lt_iff_le.mp fun k hk => (ha k hk).2.2 }

section WellFormed

variable (ha : qp.a.WellFormed) (hcols : qp.rowCount ≠ 0 → qp.a.cols = qp.variableCount)
include ha hcols

/-- A well-formed constraint matrix speaks of the variables only. -/
theorem coefAt_lt (i : qp.Pair) : ∀ e ∈ qp.coefAt i, e.1 < qp.variableCount := by
  cases i with
  | inl j => simp [coefAt]
  | inr k =>
      intro e he
      have hrow : qp.a.row k ∈ qp.a.rows := List.mem_map.mpr ⟨k, List.mem_range.mpr k.isLt, rfl⟩
      rw [← hcols (Nat.ne_of_gt (Nat.zero_lt_of_lt k.isLt))]
      exact ha.readable.2 _ hrow e he

theorem coef_sideAt_lt (a : qp.Pair × Bool) :
    ∀ e ∈ (qp.sideAt a).coef, e.1 < qp.variableCount := by
  rcases a with ⟨i, b⟩
  intro e he
  cases b with
  | false =>
      obtain ⟨e', he', rfl⟩ := List.mem_map.mp he
      exact qp.coefAt_lt ha hcols i e' he'
  | true => exact qp.coefAt_lt ha hcols i e he

theorem within_sides :
    Sides.within qp.variableCount
      ⟨qp.equalityPairs.map qp.upperSide, qp.inequalityBounds.map qp.sideAt⟩ = true := by
  rw [Sides.within, List.all_eq_true]
  intro s hs
  rw [List.all_eq_true]
  intro e he
  rw [decide_eq_true_eq]
  rcases List.mem_append.mp hs with hs | hs
  · obtain ⟨i, -, rfl⟩ := List.mem_map.mp hs
    exact qp.coef_sideAt_lt ha hcols (i, true) e he
  · obtain ⟨a, -, rfl⟩ := List.mem_map.mp hs
    exact qp.coef_sideAt_lt ha hcols a e he

/-- A program that misses no bound is taken apart. -/
theorem exists_sides (h : qp.Covered) :
    ∃ sides, Sides.ofProgram? qp = some sides := by
  obtain ⟨bounds, hbounds⟩ : ∃ bounds, (List.range qp.variableCount).mapM qp.boundSides? =
      some bounds := by
    refine exists_mapM_eq_some.mpr fun j hj => qp.exists_boundSides?_iff.mpr ?_
    have hj := List.mem_range.mp hj
    exact ⟨hj.trans_le h.lbx, hj.trans_le h.ubx⟩
  obtain ⟨rows, hrows⟩ : ∃ rows, (List.range qp.rowCount).mapM qp.rowSides? = some rows := by
    refine exists_mapM_eq_some.mpr fun k hk => qp.exists_rowSides?_iff.mpr ?_
    have hk : k < qp.a.height := List.mem_range.mp hk
    refine ⟨⟨hk, ha.start_le k hk, ?_⟩, hk.trans_le h.lba, hk.trans_le h.uba⟩
    rw [ha.paired, min_self]
    exact ha.start_le_stored (k + 1) hk
  have hwithin : (Sides.concat (bounds ++ rows)).within qp.variableCount = true := by
    rw [qp.concat_eq hbounds hrows]
    exact qp.within_sides ha hcols
  refine ⟨Sides.concat (bounds ++ rows), ?_⟩
  rw [ofProgram?_eq, hbounds, hrows]
  exact if_pos hwithin

end WellFormed

omit [Scalar α] in
theorem within_originAt (i : qp.Pair) :
    (qp.originAt i).Within qp.variableCount qp.rowCount := by
  cases i with
  | inl j => exact j.isLt
  | inr k => exact k.isLt

/-- The sides of a program speak of what is there. -/
theorem within_of_ofProgram?_eq_some {sides : Sides α} (h : Sides.ofProgram? qp = some sides) :
    ∀ s ∈ sides.equalities ++ sides.inequalities, s.Within qp := by
  obtain ⟨heq, hineq, hcoef⟩ := qp.ofProgram?_eq_some h
  intro s hs
  refine ⟨hcoef s hs, ?_⟩
  rcases List.mem_append.mp hs with hs | hs
  · rw [heq] at hs
    obtain ⟨i, -, rfl⟩ := List.mem_map.mp hs
    exact qp.within_originAt i
  · rw [hineq] at hs
    obtain ⟨⟨i, b⟩, -, rfl⟩ := List.mem_map.mp hs
    cases b with
    | false => exact qp.within_originAt i
    | true => exact qp.within_originAt i

/-- Bounds beyond the last variable or row make no sides. -/
theorem ofProgram?_trimmed : Sides.ofProgram? qp.trimmed = Sides.ofProgram? qp := by
  have hbounds : (List.range qp.variableCount).mapM qp.trimmed.boundSides? =
      (List.range qp.variableCount).mapM qp.boundSides? := by
    refine mapM_congr fun j hj => ?_
    have hj := List.mem_range.mp hj
    simp only [boundSides?, trimmed, List.getElem?_take_of_lt hj]
  have hrows : (List.range qp.rowCount).mapM qp.trimmed.rowSides? =
      (List.range qp.rowCount).mapM qp.rowSides? := by
    refine mapM_congr fun k hk => ?_
    have hk := List.mem_range.mp hk
    simp only [rowSides?, trimmed, List.getElem?_take_of_lt hk]
  rw [ofProgram?_eq qp, ← hbounds, ← hrows]
  rfl

end QuadraticProgram

namespace InteriorPoint

open Journaled SparseMatrix
open Nonlinear.Task (Faultless faultless_error)

variable [Scalar α]

/-! ## Verdicts of the checks -/

section Checks

variable {opt : Options α} {qp : QuadraticProgram α} {x0 : List α}

theorem check_of_refused (h : ¬(opt.Accepted ∧ Conforms qp x0)) :
    ∃ cause, Task.check opt qp x0 = .error (.error cause) := by
  rw [← checkDimensions_eq_ok_iff] at h
  cases hdims : checkDimensions opt qp x0 with
  | error cause => exact ⟨cause, by rw [Task.check, hdims]; rfl⟩
  | ok u => exact absurd hdims h

/-- The checks count no bounds. -/
theorem check_of_not_covered (hopt : opt.Accepted) (h : Conforms qp x0) (hcov : ¬qp.Covered) :
    Task.check opt qp x0 = .error (.fault .index) := by
  have hsides : Sides.ofProgram? qp = none :=
    Option.eq_none_iff_forall_ne_some.mpr fun sides hs =>
      hcov (qp.covered_of_ofProgram?_eq_some hs)
  rw [Task.check, checkDimensions_eq_ok_iff.mpr ⟨hopt, h⟩, hsides]
  rfl

theorem exists_check (hh : qp.h.WellFormed) (ha : qp.a.WellFormed) (hopt : opt.Accepted)
    (h : Conforms qp x0) (hcov : qp.Covered) : ∃ task, Task.check opt qp x0 = .ok task := by
  obtain ⟨sides, hsides⟩ := qp.exists_sides ha h.constraint_cols hcov
  refine ⟨⟨qp, sides⟩, ?_⟩
  rw [Task.check, checkDimensions_eq_ok_iff.mpr ⟨hopt, h⟩, hsides, Failure.ensure,
    if_pos hh.readable]
  rfl

end Checks

/-! ## Newton systems -/

section Systems

variable {task : Task α} {opt : Options α} {solver : LinearSolver α} {it : Iterate α} {n : ℕ}

/-- A task with a well-formed Hessian of the right height, whose sides speak of the variables, and
with room for its Newton matrices. -/
structure Task.Assembles (task : Task α) : Prop where
  wellFormed : task.qp.h.WellFormed
  height : task.qp.h.height = task.qp.variableCount
  equalities : ∀ s ∈ task.sides.equalities, ∀ e ∈ s.coef, e.1 < task.qp.variableCount
  inequalities : ∀ s ∈ task.sides.inequalities, ∀ e ∈ s.coef, e.1 < task.qp.variableCount
  room : Vec.fits (task.qp.h.stored +
    (task.sides.inequalities.map fun s => s.coef.length * s.coef.length).sum +
    (task.qp.variableCount + task.sides.equalities.length) + 1)

theorem length_eliminated (s : Side α) (z mu : α) :
    (eliminated s z mu).length = s.coef.length * s.coef.length := by
  simp [eliminated]

theorem Task.Shaped.length_eliminatedTriplets (hi : task.Shaped it) :
    (task.eliminatedTriplets it).length =
      (task.sides.inequalities.map fun s => s.coef.length * s.coef.length).sum := by
  rw [← hi.map_fst_rows, Task.eliminatedTriplets, List.length_flatMap, List.map_map]
  simp only [length_eliminated]
  rfl

theorem Task.Assembles.mem_eliminatedTriplets (h : task.Assembles) {t : Triplet α}
    (ht : t ∈ task.eliminatedTriplets it) : t.row < task.qp.variableCount := by
  obtain ⟨⟨s, r, z, mu⟩, hrow, ht⟩ := List.mem_flatMap.mp ht
  obtain ⟨a, ha, ht⟩ := List.mem_flatMap.mp ht
  obtain ⟨b, -, rfl⟩ := List.mem_map.mp ht
  exact h.inequalities s (List.of_mem_zip hrow).1 a ha

/-- The Newton matrix can be assembled. -/
theorem Task.Shaped.exists_newtonMatrix (hi : task.Shaped it) (h : task.Assembles) :
    ∃ K, task.newtonMatrix? it = some K := by
  have hlisted : task.qp.h.toTriplets? = some task.qp.h.toTriplets :=
    if_pos ⟨h.wellFormed.paired, h.wellFormed.readable.1⟩
  have hlength : (task.qp.h.toTriplets ++ task.eliminatedTriplets it).length ≤
      task.qp.h.stored +
        (task.sides.inequalities.map fun s => s.coef.length * s.coef.length).sum := by
    rw [List.length_append, hi.length_eliminatedTriplets]
    exact Nat.add_le_add_right (length_toTriplets_le _) _
  have hblock : ∀ t ∈ task.qp.h.toTriplets ++ task.eliminatedTriplets it,
      t.row < task.qp.variableCount := by
    intro t ht
    rcases List.mem_append.mp ht with ht | ht
    · exact h.height ▸ row_lt_of_mem_toTriplets h.wellFormed ht
    · exact h.mem_eliminatedTriplets ht
  have hborder : ∀ row ∈ task.sides.equalities.map Side.coef, ∀ e ∈ row,
      e.1 < task.qp.variableCount := by
    intro row hrow e he
    obtain ⟨s, hs, rfl⟩ := List.mem_map.mp hrow
    exact h.equalities s hs e he
  have hK := LinearSystem.kktMatrix?_eq_some hblock hborder
    (Vec.fits_of_le h.room (by rw [List.length_map]; omega))
    (Vec.fits_of_le h.room (by rw [List.length_map]; omega))
  exact ⟨_, by rw [Task.newtonMatrix?, hlisted]; exact hK⟩

omit [Scalar α] in
theorem solveSymmetric_faultless (hsolver : solver.Answering) {K : SparseMatrix α} {b : List α}
    {e : Failure LinearSystem.Error} (h : LinearSystem.solveSymmetric solver n K b = .error e) :
    Faultless e := by
  unfold LinearSystem.solveSymmetric at h
  split at h
  · obtain ⟨e', hs, rfl⟩ := except_mapError_eq_error.mp h
    cases e' with
    | error message => exact faultless_error _
    | fault f => exact absurd hs (hsolver _ _ _ f)
  · cases h
    exact faultless_error _

/-- An iteration is answered. -/
theorem Task.Shaped.step_faultless (hi : task.Shaped it) (h : task.Assembles)
    (hsolver : solver.Answering) {e : Failure (Error α)}
    (hstep : task.step opt solver n it = .error e) : Faultless e := by
  obtain ⟨K, hK⟩ := hi.exists_newtonMatrix h
  have hdirection := except_map_eq_error.mp hstep
  unfold Task.direction at hdirection
  rcases except_bind_eq_error.mp hdirection with hK' | ⟨_, -, hdirection⟩
  · rw [hK] at hK'
    cases hK'
  · rcases except_bind_eq_error.mp hdirection with hsolve | ⟨y, -, hdirection⟩
    · obtain ⟨e', hs, rfl⟩ := except_mapError_eq_error.mp hsolve
      have hfaultless := solveSymmetric_faultless hsolver hs
      cases e' with
      | error cause => exact faultless_error _
      | fault f => exact absurd rfl (hfaultless f)
    · split at hdirection
      · cases hdirection
        exact faultless_error _
      · cases hdirection

end Systems

/-! ## Whole runs -/

section Whole

variable {opt : Options α} {solver : LinearSolver α} {qp : QuadraticProgram α} {x0 : List α}
  {task task' : Task α}

/-- The sizes that the checks let pass. -/
theorem conforms_of_check (hcheck : Task.check opt qp x0 = .ok task) : Conforms task.qp x0 := by
  obtain ⟨hdims, rfl, -, -⟩ := check_eq_ok hcheck
  exact (checkDimensions_eq_ok_iff.mp hdims).2

theorem assembles_of_check (hh : qp.h.WellFormed) (hroom : qp.HasRoom)
    (hcheck : Task.check opt qp x0 = .ok task) : task.Assembles := by
  have hconforms := conforms_of_check hcheck
  obtain ⟨-, rfl, hsides, -⟩ := check_eq_ok hcheck
  have hwithin := task.qp.within_of_ofProgram?_eq_some hsides
  obtain ⟨heq, hineq, -⟩ := task.qp.ofProgram?_eq_some hsides
  exact {
    wellFormed := hh
    height := hconforms.hessian_height
    equalities := fun s hs => (hwithin s (List.mem_append_left _ hs)).coef
    inequalities := fun s hs => (hwithin s (List.mem_append_right _ hs)).coef
    room := by
      rw [heq, hineq, List.map_map, List.length_map]
      exact hroom }

/-- A loop of steps that are answered is answered. -/
theorem Task.Shaped.iterate_faultless (h : task.Assembles) (hsolver : solver.Answering)
    {left made : ℕ} {it : Iterate α} (hi : task.Shaped it) :
    (task.iterate opt solver left made it).FailsOnly Faultless := by
  induction left generalizing made it with
  | zero =>
      cases hsat : it.residuals.satisfied opt with
      | true =>
          rw [Task.iterate_of_satisfied hsat]
          exact failsOnly_of_ok rfl
      | false =>
          rw [Task.iterate_zero hsat]
          exact failsOnly_of_error rfl (faultless_error _)
  | succ left ih =>
      cases hsat : it.residuals.satisfied opt with
      | true =>
          rw [Task.iterate_of_satisfied hsat]
          exact failsOnly_of_ok rfl
      | false =>
          cases hs : task.step opt solver (made + 1) it with
          | error e =>
              rw [Task.iterate_of_error hsat hs]
              exact failsOnly_of_error rfl (hi.step_faultless h hsolver hs)
          | ok p =>
              rw [Task.iterate_of_step hsat hs]
              dsimp only
              split
              · exact failsOnly_of_error rfl (faultless_error _)
              · exact ih (hi.step h.height hs)

/-- Tasks that step alike run alike. -/
theorem Task.iterate_congr (h : ∀ n it, task.step opt solver n it = task'.step opt solver n it)
    (left made : ℕ) (it : Iterate α) :
    task.iterate opt solver left made it = task'.iterate opt solver left made it := by
  induction left generalizing made it with
  | zero => rfl
  | succ left ih =>
      cases hsat : it.residuals.satisfied opt with
      | true => rw [Task.iterate_of_satisfied hsat, Task.iterate_of_satisfied hsat]
      | false =>
          rw [Task.iterate_succ hsat, Task.iterate_succ hsat, h]
          simp only [ih]

theorem check_trimmed : Task.check opt qp.trimmed x0 =
    (Task.check opt qp x0).map fun task => { task with qp := qp.trimmed } := by
  have hdims : checkDimensions opt qp.trimmed x0 = checkDimensions opt qp x0 := rfl
  have hread : qp.trimmed.h.Readable ↔ qp.h.Readable := Iff.rfl
  unfold Task.check
  rw [hdims, qp.ofProgram?_trimmed]
  cases checkDimensions opt qp x0 with
  | error cause => rfl
  | ok u =>
      cases Sides.ofProgram? qp with
      | none => rfl
      | some sides =>
          by_cases h : qp.h.Readable <;>
            simp only [Failure.ensure, hread, h, if_true, if_false] <;> rfl

/-- Bounds beyond the last variable or row change nothing. -/
theorem solve_trimmed : solve opt solver qp.trimmed x0 = solve opt solver qp x0 := by
  cases hcheck : Task.check opt qp x0 with
  | error e =>
      unfold solve
      rw [check_trimmed, hcheck]
      rfl
  | ok task =>
      have hcheck' : Task.check opt qp.trimmed x0 = .ok { task with qp := qp.trimmed } := by
        rw [check_trimmed, hcheck]
        rfl
      obtain ⟨-, rfl, -, -⟩ := check_eq_ok hcheck
      have hstep : ∀ n it, Task.step { task with qp := task.qp.trimmed } opt solver n it =
          task.step opt solver n it := fun _ _ => rfl
      rw [solve_of_check hcheck, solve_of_check hcheck', Task.iterate_congr hstep]
      rfl

/-- What a run makes of a program and a start of any dimensions. -/
structure Dimensioned (opt : Options α) (solver : LinearSolver α) (qp : QuadraticProgram α)
    (x0 : List α) : Prop where
  /-- Options out of range, and a start or a matrix of a wrong size, are refused. -/
  refused : ¬(opt.Accepted ∧ Conforms qp x0) →
    ∃ cause, solve opt solver qp x0 = .fail (.error cause)
  /-- A missing bound is not refused but read. -/
  missing : opt.Accepted → Conforms qp x0 → ¬qp.Covered →
    solve opt solver qp x0 = .fail (.fault .index)
  /-- Everything else is admitted to the iteration. -/
  admitted : opt.Accepted → Conforms qp x0 → qp.Covered →
    ∃ task, Task.check opt qp x0 = .ok task
  /-- Nothing but a missing bound is a fault as long as there is room. -/
  faults : ∀ f, (solve opt solver qp x0).outcome = .error (.fault f) →
    ¬qp.Covered ∨ ¬qp.HasRoom
  /-- Bounds beyond the last variable or row are not read. -/
  surplus : solve opt solver qp.trimmed x0 = solve opt solver qp x0
  /-- Past the checks the sides and all iterates have the sizes of the program. -/
  shaped : ∀ task, Task.check opt qp x0 = .ok task →
    (∀ s ∈ task.sides.equalities ++ task.sides.inequalities, s.Within qp) ∧
      ∀ it ∈ visited (task.start opt x0) (progresses (solve opt solver qp x0).journal),
        task.Shaped it
  /-- An answer has a coordinate and a multiplier for every variable and a multiplier for every
  row. -/
  answer : ∀ sol, (solve opt solver qp x0).outcome = .ok sol →
    sol.x.length = qp.variableCount ∧ sol.lamX.length = qp.variableCount ∧
      sol.lamA.length = qp.rowCount

theorem shaped_of_mem_visited (hcheck : Task.check opt qp x0 = .ok task) :
    ∀ it ∈ visited (task.start opt x0) (progresses (solve opt solver qp x0).journal),
      task.Shaped it := by
  have hconforms := conforms_of_check hcheck
  rw [progresses_solve hcheck]
  exact Task.forall_visited_iterate
    (fun _ _ _ hi hstep => hi.step hconforms.hessian_height hstep)
    (Task.shaped_start opt hconforms.start)

/-- Past the checks, a run with room for its Newton matrices is answered. -/
theorem solve_faultless (hh : qp.h.WellFormed) (hsolver : solver.Answering)
    (hroom : qp.HasRoom) (hcheck : Task.check opt qp x0 = .ok task) :
    (solve opt solver qp x0).FailsOnly Faultless := by
  have hstart := Task.shaped_start opt (conforms_of_check hcheck).start
  rw [solve_of_check hcheck]
  exact (hstart.iterate_faultless (assembles_of_check hh hroom hcheck) hsolver).bind
    fun _ _ => failsOnly_of_ok rfl

/-- A run meets a program and a start of any dimensions, with well-formed matrices, by an answer
or an error, unless a bound is missing, which is a fault. Surplus bounds go unnoticed. -/
theorem dimensioned_solve (opt : Options α) (solver : LinearSolver α) (qp : QuadraticProgram α)
    (x0 : List α) (hh : qp.h.WellFormed) (ha : qp.a.WellFormed) (hsolver : solver.Answering) :
    Dimensioned opt solver qp x0 where
  refused h := by
    obtain ⟨cause, hcheck⟩ := check_of_refused h
    exact ⟨cause, by rw [solve, hcheck]; rfl⟩
  missing hopt h hcov := by
    rw [solve, check_of_not_covered hopt h hcov]
    rfl
  admitted hopt h hcov := exists_check hh ha hopt h hcov
  faults f hf := by
    by_contra hnot
    obtain ⟨hcov, hroom⟩ := not_or.mp hnot
    by_cases h : opt.Accepted ∧ Conforms qp x0
    · obtain ⟨task, hcheck⟩ := exists_check hh ha h.1 h.2 (not_not.mp hcov)
      exact solve_faultless hh hsolver (not_not.mp hroom) hcheck _ hf f rfl
    · obtain ⟨cause, hcheck⟩ := check_of_refused h
      rw [solve, hcheck] at hf
      cases hf
  surplus := solve_trimmed
  shaped task hcheck := by
    obtain ⟨-, -, hsides, -⟩ := check_eq_ok hcheck
    exact ⟨qp.within_of_ofProgram?_eq_some hsides, shaped_of_mem_visited hcheck⟩
  answer sol hsol := by
    obtain ⟨task, hcheck, it, hit, -, rfl⟩ := solve_eq_ok_iff.mp hsol
    have hshaped := shaped_of_mem_visited hcheck it hit
    obtain ⟨-, rfl, -, -⟩ := check_eq_ok hcheck
    exact ⟨hshaped.x, length_multipliers ..⟩

end Whole

section Lacking

/-- Minimize `1/2 * x * x + x` where the upper bound of `x` has been left out. -/
noncomputable def lacking : QuadraticProgram Extended where
  h := .ofRows 1 [[(0, 1)]]
  g := [1]
  lbx := [.negInf]
  ubx := []
  a := .ofRows 1 []
  lba := []
  uba := []

/-- The sizes that are checked all agree, and the run still ends by a fault. -/
theorem lacking_faults : solve .default noSolver lacking [0] = .fail (.fault .index) := by
  have hh : lacking.h.WellFormed := wellFormed_ofRows (by simp)
  have ha : lacking.a.WellFormed := wellFormed_ofRows (by simp)
  have hconforms : Conforms lacking [0] := ⟨rfl, rfl, rfl, fun h => absurd rfl h⟩
  have hcov : ¬lacking.Covered := fun h => absurd h.ubx (by decide)
  exact (dimensioned_solve .default noSolver lacking [0] hh ha nofun).missing
    ⟨default_ranges.1, default_ranges.2⟩ hconforms hcov

end Lacking

end InteriorPoint

end SeqQuad
