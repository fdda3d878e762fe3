import SeqQuad.Proofs.Quadratic.Newton

/-!
# Regular and singular Newton systems

An exact linear solver answers a regular system by its solution and fails on a singular one, so
the determinant of the reduced system decides what becomes of an iteration. The reduced system is
a block matrix over the variables and the equalities, and its solution is the only one.
-/

namespace SeqQuad

open Extended Matrix Scalar SparseMatrix

/-! ## Vectors in two parts -/

namespace Vec

/-- Real vectors with the same parts are the same. -/
theorem eq_of_parts {n m : ℕ} {v w : List Extended} (hv : IsReal v) (hw : IsReal w)
    (hlv : v.length = n + m) (hlw : w.length = n + m)
    (h : Sum.elim (reals n (v.take n)) (reals m (v.drop n)) =
      Sum.elim (reals n (w.take n)) (reals m (w.drop n))) : v = w := by
  rw [← reals_comp_finSumFinEquiv, ← reals_comp_finSumFinEquiv] at h
  rw [hv.eq_ofReals hlv, hw.eq_ofReals hlw, finSumFinEquiv.surjective.injective_comp_right h]

theorem norm_eq {n : ℕ} {x : List Extended} (hx : IsReal x) (hlen : x.length = n) :
    norm x = ((√(reals n x ⬝ᵥ reals n x) : ℝ) : Extended) := by
  rw [norm, dot_eq hlen hlen.ge hx hx]
  exact if_neg (Finset.sum_nonneg fun i _ => mul_self_nonneg (reals n x i)).not_gt

/-- The size of a vector in terms of its parts. -/
theorem norm_eq_parts {n m : ℕ} {x : List Extended} (hx : IsReal x) (hlen : x.length = n + m) :
    norm x = ((√(reals n (x.take n) ⬝ᵥ reals n (x.take n) +
      reals m (x.drop n) ⬝ᵥ reals m (x.drop n)) : ℝ) : Extended) := by
  rw [norm_eq hx hlen, ← sumElim_dotProduct_sumElim, ← reals_comp_finSumFinEquiv,
    comp_equiv_dotProduct_comp_equiv]

end Vec

/-! ## Exact linear solvers -/

namespace LinearSystem

/-- A square system of real numbers, given by its sparse columns. -/
structure RealSystem (columns : List (List (ℕ × Extended))) (b : List Extended) : Prop where
  square : b.length = columns.length
  index_lt : ∀ column ∈ columns, ∀ e ∈ column, e.1 < columns.length
  entries : ∀ column ∈ columns, ∀ e ∈ column, e.2.IsReal
  side : Vec.IsReal b

/-- The determinant of a square matrix with the given sparse rows or columns. -/
noncomputable def determinant (columns : List (List (ℕ × Extended))) : ℝ :=
  (denseRows columns.length columns.length columns).det

theorem determinant_eq {columns : List (List (ℕ × Extended))} {k : ℕ} (hk : columns.length = k) :
    determinant columns = (denseRows k k columns).det := by
  subst hk
  rfl

end LinearSystem

namespace LinearSolver

open LinearSystem InteriorPoint

/-- A regular system is answered by its solution. -/
def SolvesRegular (solver : LinearSolver Extended) : Prop :=
  ∀ call columns b, RealSystem columns b → determinant columns ≠ 0 →
    ∃ x, solver.solve call columns b = .ok x ∧ SolvesColumns columns b x

/-- A singular system is an error. -/
def RefusesSingular (solver : LinearSolver Extended) : Prop :=
  ∀ call columns b, RealSystem columns b → determinant columns = 0 →
    ∃ message, solver.solve call columns b = .error (.error message)

/-- The solver that inverts the matrix. -/
noncomputable def inverting : LinearSolver Extended where
  solve _ columns b :=
    open Classical in
    if (denseRows b.length b.length columns).det = 0 then .error (.error "singular matrix")
    else .ok (Vec.ofReals ((denseRows b.length b.length columns)ᵀ⁻¹ *ᵥ Vec.reals b.length b))
  length_solve _ columns b x h := by
    split at h
    · cases h
    · obtain rfl := Except.ok.inj h
      exact Vec.length_ofReals _

theorem inverting_solvesRegular : inverting.SolvesRegular := by
  intro call columns b hsystem hdet
  rw [determinant_eq hsystem.square.symm] at hdet
  refine ⟨_, if_neg hdet, Vec.isReal_ofReals _, ?_⟩
  have hunit : IsUnit ((denseRows b.length b.length columns)ᵀ).det := by
    rw [det_transpose]
    exact isUnit_iff_ne_zero.mpr hdet
  rw [← hsystem.square, Vec.reals_ofReals, mulVec_mulVec, mul_nonsing_inv _ hunit, one_mulVec]

theorem inverting_refusesSingular : inverting.RefusesSingular := by
  intro call columns b hsystem hdet
  rw [determinant_eq hsystem.square.symm] at hdet
  exact ⟨_, if_pos hdet⟩

end LinearSolver

namespace InteriorPoint

open LinearSystem

/-! ## The reduced system by blocks -/

section Reduced

variable {task : Task Extended} {it : Iterate Extended}

/-- The matrix of the reduced system over the variables and the equalities. -/
noncomputable def Task.kkt (task : Task Extended) (it : Iterate Extended) :
    Matrix (Fin task.qp.variableCount ⊕ Fin task.sides.equalities.length)
      (Fin task.qp.variableCount ⊕ Fin task.sides.equalities.length) ℝ :=
  fromBlocks
    (task.hessian + task.inequalityRowsᵀ * diagonal (task.weights it) * task.inequalityRows)
    task.equalityRowsᵀ task.equalityRows 0

/-- The right-hand side of the reduced system. -/
noncomputable def Task.kktSide (task : Task Extended) (it : Iterate Extended) :
    Fin task.qp.variableCount ⊕ Fin task.sides.equalities.length → ℝ :=
  -Sum.elim (Vec.reals _ (task.lagrangianGradient it.x it.lam it.mu) +
    task.inequalityRowsᵀ *ᵥ task.pulls it) (Vec.reals _ it.g)

/-- A real vector over the variables and the equalities that solves the reduced system. -/
structure Task.Reduces (task : Task Extended) (it : Iterate Extended) (reduced : List Extended) :
    Prop where
  real : Vec.IsReal reduced
  length : reduced.length = task.qp.variableCount + task.sides.equalities.length
  eq : task.kkt it *ᵥ Sum.elim (Vec.reals _ (reduced.take task.qp.variableCount))
      (Vec.reals _ (reduced.drop task.qp.variableCount)) = task.kktSide it

/-- A regular system has one solution. -/
theorem Task.Reduces.unique {reduced reduced' : List Extended} (h : task.Reduces it reduced)
    (h' : task.Reduces it reduced') (hdet : (task.kkt it).det ≠ 0) : reduced = reduced' := by
  have hinjective := mulVec_injective_of_isUnit
    ((isUnit_iff_isUnit_det _).mpr (isUnit_iff_ne_zero.mpr hdet))
  exact Vec.eq_of_parts h.real h'.real h.length h'.length (hinjective (h.eq.trans h'.eq.symm))

end Reduced

section Systems

variable {task : Task Extended} {it : Iterate Extended} (h : task.Exact) (hi : task.Posed it)
  (hwf : task.qp.h.WellFormed)
include h hi hwf

theorem Task.Posed.realSystem :
    RealSystem (task.newtonMatrix it).rows ((task.newtonGradient it ++ it.g).map (- ·)) where
  square := by
    rw [hi.shaped.length_newtonSide h.height, task.length_rows_newtonMatrix]
  index_lt := by
    rw [task.length_rows_newtonMatrix]
    have hcol := col_lt_of_mem_rows_kktMatrix (hi.mem_block h hwf) h.mem_equalityCoefs
    rwa [List.length_map] at hcol
  entries := isReal_rows_kktMatrix (hi.mem_block h hwf) h.mem_equalityCoefs
  side := hi.isReal_newtonSide h

/-- The assembled matrix stands for the blocks. -/
theorem Task.Posed.submatrix_newtonMatrix :
    ((task.newtonMatrix it).dense (task.qp.variableCount + task.sides.equalities.length)
      (task.qp.variableCount + task.sides.equalities.length)).submatrix finSumFinEquiv
        finSumFinEquiv = task.kkt it := by
  rw [Task.newtonMatrix, dense_kktMatrix (hi.mem_block h hwf) h.mem_equalityCoefs
    (List.length_map _), hi.denseTriplets_block h hwf]
  rfl

theorem Task.Posed.determinant_newtonMatrix :
    determinant (task.newtonMatrix it).rows = (task.kkt it).det := by
  rw [determinant_eq (task.length_rows_newtonMatrix it),
    ← dense_eq_denseRows (task.height_newtonMatrix it), ← hi.submatrix_newtonMatrix h hwf, det_submatrix_equiv_self]

/-- A solution of the assembled system solves the reduced system by blocks. -/
theorem Task.Posed.reduces_of_solves (hsymm : task.hessian.IsSymm) {reduced : List Extended}
    (hlen : reduced.length = task.qp.variableCount + task.sides.equalities.length)
    (hsolves : SolvesColumns (task.newtonMatrix it).rows
      ((task.newtonGradient it ++ it.g).map (- ·)) reduced) : task.Reduces it reduced := by
  obtain ⟨hpoint, hsides⟩ := hi.reduced_equations h hwf hsymm hsolves
  refine ⟨hsolves.real, hlen, ?_⟩
  rw [Task.kkt, fromBlocks_mulVec, Task.kktSide, ← Sum.elim_neg_neg, add_mulVec]
  congr 1
  rw [zero_mulVec, add_zero]
  exact hsides

/-- A singular system ends the iteration. -/
theorem Task.Posed.direction_of_singular (hroom : task.HasRoom it)
    {solver : LinearSolver Extended} (hsolver : solver.RefusesSingular) (opt : Options Extended)
    (n : ℕ) (hdet : (task.kkt it).det = 0) :
    ∃ message, task.direction opt solver n it =
      .error (.error (.linearSystem (.solver message))) := by
  rw [← hi.determinant_newtonMatrix h hwf] at hdet
  obtain ⟨message, hsolve⟩ := hsolver n _ _ (hi.realSystem h hwf) hdet
  have hK := hi.newtonMatrix?_eq_some h hwf hroom
  refine ⟨message, ?_⟩
  unfold Task.direction
  rw [hK]
  simp only [Failure.ofOption, bind, Except.bind, LinearSystem.solveSymmetric,
    if_pos (hi.shape_newtonSystem h), hsolve]
  rfl

/-- A regular system gives a direction, the expansion of its only solution, unless that is too
long. -/
theorem Task.Posed.direction_of_regular (hsymm : task.hessian.IsSymm) (hroom : task.HasRoom it)
    {solver : LinearSolver Extended} (hsolver : solver.SolvesRegular) (opt : Options Extended)
    (n : ℕ) (hdet : (task.kkt it).det ≠ 0) :
    ∃ reduced, task.Reduces it reduced ∧ task.NewtonStep it (task.expand it reduced) ∧
      task.direction opt solver n it =
        if opt.maxStepSize < Vec.norm reduced then .error (.error .newtonStep)
        else .ok (task.expand it reduced) := by
  rw [← hi.determinant_newtonMatrix h hwf] at hdet
  obtain ⟨reduced, hsolve, hsolves⟩ := hsolver n _ _ (hi.realSystem h hwf) hdet
  have hlen := (solver.length_solve _ _ _ _ hsolve).trans (hi.shaped.length_newtonSide h.height)
  have hK := hi.newtonMatrix?_eq_some h hwf hroom
  exact ⟨reduced, hi.reduces_of_solves h hwf hsymm hlen hsolves,
    hi.newtonStep h (h.realDirection hi hsolves.real hlen) hwf hsymm hsolves,
    hi.direction_of_solve h hK hsolve hsolves.real⟩

omit h hi hwf in
/-- Without room for its matrix an iteration ends by a fault. -/
theorem Task.direction_of_not_hasRoom {opt : Options Extended} {solver : LinearSolver Extended}
    (n : ℕ) (hroom : ¬task.HasRoom it) :
    task.direction opt solver n it = .error (.fault .index) := by
  have hK : task.newtonMatrix? it = none := by
    refine Option.eq_none_iff_forall_ne_some.mpr fun K hK => hroom ?_
    obtain ⟨ts, hts, hK⟩ := Option.bind_eq_some_iff.mp hK
    rw [← toTriplets?_eq_some hts] at hK
    obtain ⟨hblock, hstarts⟩ := Option.ite_none_right_eq_some.mp hK
    rw [List.length_map] at hblock hstarts
    exact ⟨hblock, (ofTriplets?_eq_some_iff.mp hstarts).1.1⟩
  unfold Task.direction
  rw [hK]
  rfl

end Systems

/-! ## Sides in their lists -/

section Splits

variable {sides : Sides Extended} {qp : QuadraticProgram Extended} (hs : Splits sides qp)

/-- The positions of a list without repetitions, by what it holds. -/
noncomputable def positionsOf {ι : Type} [DecidableEq ι] {K : List ι} (hnd : K.Nodup)
    {p : ι → Prop} (hp : ∀ a, a ∈ K ↔ p a) {n : ℕ} (hn : n = K.length) : Fin n ≃ {a // p a} :=
  (finCongr hn).trans ((hnd.getEquiv K).trans (Equiv.subtypeEquivRight hp))

/-- The joined pair of each equality. -/
noncomputable def Splits.equalityAt :
    Fin sides.equalities.length ≃ {i : qp.Pair // qp.joined i = true} :=
  positionsOf qp.nodup_equalityPairs (fun _ => qp.mem_equalityPairs)
    (by rw [hs.equalities, List.length_map])

/-- The bound of each inequality. -/
noncomputable def Splits.inequalityAt :
    Fin sides.inequalities.length ≃ {a : qp.Pair × Bool // qp.present a = true} :=
  positionsOf qp.nodup_inequalityBounds (fun _ => qp.mem_inequalityBounds)
    (by rw [hs.inequalities, List.length_map])

theorem Splits.getElem_equalities (k : Fin sides.equalities.length) :
    sides.equalities[(k : ℕ)] = qp.upperSide (hs.equalityAt k) := by
  simp only [hs.equalities, List.getElem_map]
  rfl

theorem Splits.getElem_inequalities (k : Fin sides.inequalities.length) :
    sides.inequalities[(k : ℕ)] = qp.sideAt (hs.inequalityAt k) := by
  simp only [hs.inequalities, List.getElem_map]
  rfl

end Splits

end InteriorPoint

end SeqQuad
