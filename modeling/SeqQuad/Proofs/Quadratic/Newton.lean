import SeqQuad.Proofs.Quadratic.SlackResidual
import SeqQuad.Proofs.SparseMatrix.Blocks

/-!
# The reduced solve is the full Newton step

The Newton equations of the perturbed optimality conditions are reduced to the point and the
equality multipliers by elimination of the slacks and the multipliers of the inequalities. An
exact solution of the reduced system, assembled from triplets and given as sparse columns, expands
to a solution of all four equations.
-/

namespace SeqQuad.InteriorPoint

open Extended Matrix Scalar SparseMatrix

/-! ## Equations -/

/-- The vector `x` solves the square system with the given sparse columns exactly. -/
structure SolvesColumns (columns : List (List (ℕ × Extended))) (b x : List Extended) : Prop where
  real : Vec.IsReal x
  eq : (denseRows columns.length columns.length columns)ᵀ *ᵥ Vec.reals columns.length x =
    Vec.reals columns.length b

theorem SolvesColumns.mulVec {columns : List (List (ℕ × Extended))} {b x : List Extended}
    (h : SolvesColumns columns b x) {k : ℕ} (hk : columns.length = k) :
    (denseRows k k columns)ᵀ *ᵥ Vec.reals k x = Vec.reals k b := by
  subst hk
  exact h.eq

/-- The dense Hessian. -/
noncomputable def Task.hessian (task : Task Extended) :
    Matrix (Fin task.qp.variableCount) (Fin task.qp.variableCount) ℝ :=
  task.qp.h.dense _ _

/-- The dense rows of the equalities. -/
noncomputable def Task.equalityRows (task : Task Extended) :
    Matrix (Fin task.sides.equalities.length) (Fin task.qp.variableCount) ℝ :=
  denseRows _ _ (task.sides.equalities.map Side.coef)

/-- The dense rows of the inequalities. -/
noncomputable def Task.inequalityRows (task : Task Extended) :
    Matrix (Fin task.sides.inequalities.length) (Fin task.qp.variableCount) ℝ :=
  denseRows _ _ (task.sides.inequalities.map Side.coef)

/-- A direction of real numbers that solves the linearized optimality conditions: stationarity,
both kinds of sides, and perturbed complementarity. -/
structure Task.NewtonStep (task : Task Extended) (it : Iterate Extended)
    (d : Direction Extended) : Prop where
  direction : RealDirection task d
  stationarity :
    task.hessian *ᵥ Vec.reals _ d.dx +
        task.equalityRowsᵀ *ᵥ Vec.reals _ d.dlam + task.inequalityRowsᵀ *ᵥ Vec.reals _ d.dmu =
      -Vec.reals _ (task.lagrangianGradient it.x it.lam it.mu)
  equalities : task.equalityRows *ᵥ Vec.reals _ d.dx = -Vec.reals _ it.g
  inequalities :
    task.inequalityRows *ᵥ Vec.reals _ d.dx + Vec.reals _ d.dz =
      -(Vec.reals _ it.h + Vec.reals _ it.z)
  complementarity : ∀ k : Fin task.sides.inequalities.length,
    Vec.reals _ it.z k * Vec.reals _ d.dmu k + Vec.reals _ it.mu k * Vec.reals _ d.dz k =
      it.gamma.toReal - Vec.reals _ it.z k * Vec.reals _ it.mu k

/-! ## Sums over sides -/

section Sides

variable {n : ℕ}

theorem denseRows_sides (l : List (Side Extended)) (i : Fin l.length) (j : Fin n) :
    denseRows l.length n (l.map Side.coef) i j = rowEntry l[(i : ℕ)].coef j := by
  simp [denseRows]

/-- A side in terms of its dense row. -/
theorem dot_eq_denseRows {l : List (Side Extended)} (hl : ∀ s ∈ l, RealSide n s)
    {x : List Extended} (hx : Vec.IsReal x) (i : Fin l.length) :
    l[(i : ℕ)].dot x = real ((denseRows l.length n (l.map Side.coef) *ᵥ Vec.reals n x) i) := by
  rw [(hl _ (List.getElem_mem i.isLt)).dot_eq hx, real_inj]
  refine Finset.sum_congr rfl fun j _ => ?_
  show _ = denseRows l.length n (l.map Side.coef) i j * Vec.reals n x j
  rw [denseRows_sides]

/-- A weighted sum of sides is a product with the transposed rows. -/
theorem sum_zip_sides (l : List (Side Extended)) {w : List Extended} (hw : w.length = l.length)
    (j : Fin n) :
    ((l.zip w).map fun e => e.2.toReal * rowEntry e.1.coef j).sum =
      ((denseRows l.length n (l.map Side.coef))ᵀ *ᵥ Vec.reals l.length w) j := by
  rw [Vec.zip_eq_ofFn l hw, List.map_ofFn, List.sum_ofFn]
  refine Finset.sum_congr rfl fun i _ => ?_
  show (Vec.coord w i).toReal * rowEntry l[(i : ℕ)].coef j =
    denseRows l.length n (l.map Side.coef) i j * (Vec.coord w i).toReal
  rw [denseRows_sides, mul_comm]

end Sides

section Gradient

variable {task : Task Extended} {x lam mu : List Extended} (h : task.Exact) (hx : Vec.IsReal x)
  (hlam : Vec.IsReal lam) (hmu : Vec.IsReal mu)
  (hlenLam : lam.length = task.sides.equalities.length)
  (hlenMu : mu.length = task.sides.inequalities.length)
include h hx hlam hmu hlenLam hlenMu

/-- The gradient of the Lagrangian in terms of dense matrices. -/
theorem Task.Exact.reals_lagrangianGradient :
    Vec.reals task.qp.variableCount (task.lagrangianGradient x lam mu) =
      task.hessian *ᵥ Vec.reals _ x + Vec.reals _ task.qp.g +
        (task.equalityRowsᵀ *ᵥ Vec.reals _ lam + task.inequalityRowsᵀ *ᵥ Vec.reals _ mu) := by
  rw [(h.lagrangianGradient_eq hx hlam hmu).2,
    reals_apply_of_eq h.hessian h.readable h.height h.cols hx]
  congr 1
  funext j
  rw [Sides.weighted, List.map_append, List.sum_append, sum_zip_sides _ hlenLam,
    sum_zip_sides _ hlenMu]
  rfl

end Gradient

/-! ## The reduced system -/

section Reduced

variable {task : Task Extended} {it : Iterate Extended} (h : task.Exact) (hi : task.Posed it)

/-- The quotients of multipliers and slacks, by which the inequalities weigh in the block. -/
noncomputable def Task.weights (task : Task Extended) (it : Iterate Extended) :
    Fin task.sides.inequalities.length → ℝ :=
  fun k => Vec.reals _ it.mu k / Vec.reals _ it.z k

/-- What the inequalities add to the gradient. -/
noncomputable def Task.pulls (task : Task Extended) (it : Iterate Extended) :
    Fin task.sides.inequalities.length → ℝ :=
  fun k => (Vec.reals _ it.mu k * Vec.reals _ it.h k + it.gamma.toReal) / Vec.reals _ it.z k

theorem Task.inequalityRows_apply (task : Task Extended)
    (k : Fin task.sides.inequalities.length) (j : Fin task.qp.variableCount) :
    task.inequalityRows k j = rowEntry task.sides.inequalities[(k : ℕ)].coef j :=
  denseRows_sides _ k j

include hi

theorem Task.Posed.reals_z_pos (k : Fin task.sides.inequalities.length) :
    0 < Vec.reals _ it.z k := by
  have hk : (k : ℕ) < it.z.length := by
    rw [hi.length_z]
    exact k.isLt
  obtain ⟨r, hr, heq⟩ := hi.z _ (Vec.coord_mem hk)
  rw [Vec.reals, heq]
  exact hr

theorem Task.Posed.rows_eq_ofFn : task.rows it = List.ofFn fun k =>
    (task.sides.inequalities[(k : ℕ)], Vec.coord it.h k, Vec.coord it.z k, Vec.coord it.mu k) := by
  apply List.ext_getElem
  · simp [hi.shaped.length_rows]
  · intro k hk _
    have hlen : k < task.sides.inequalities.length := hi.shaped.length_rows ▸ hk
    have hs := List.getElem?_eq_getElem hlen
    obtain ⟨_, hrow⟩ := List.getElem?_eq_some_iff.mp (hi.getElem?_rows hs)
    rw [hrow, List.getElem_ofFn]
    simp [hi.h_eq, Vec.coord, hs]

/-- What is divided by a slack stays real. -/
theorem Task.Posed.div_z {a : Extended} (ha : a.IsReal)
    (k : Fin task.sides.inequalities.length) :
    a / Vec.coord it.z k = real (a.toReal / Vec.reals _ it.z k) := by
  rw [hi.z.isReal.coord_eq, ha.eq, real_div_real _ (hi.reals_z_pos k).ne', toReal_real]

theorem Task.Posed.weights_eq (k : Fin task.sides.inequalities.length) :
    Vec.coord it.mu k / Vec.coord it.z k = real (task.weights it k) :=
  hi.div_z (hi.mu.coord k) k

include h

theorem Task.Posed.pulls_eq (k : Fin task.sides.inequalities.length) :
    (Vec.coord it.mu k * Vec.coord it.h k + it.gamma) / Vec.coord it.z k =
      real (task.pulls it k) := by
  have hh := hi.isReal_h h
  have hnum : Vec.coord it.mu k * Vec.coord it.h k + it.gamma =
      real (Vec.reals _ it.mu k * Vec.reals _ it.h k + it.gamma.toReal) := by
    rw [hi.mu.coord_eq, hh.coord_eq, hi.gamma.eq, real_mul_real, real_add_real, toReal_real]
  rw [hnum, hi.div_z (isReal_real _) k]
  rfl

/-- The eliminated inequalities add their weighted rows to the block. -/
theorem Task.Posed.denseTriplets_eliminated :
    denseTriplets task.qp.variableCount task.qp.variableCount (task.eliminatedTriplets it) =
      task.inequalityRowsᵀ * diagonal (task.weights it) * task.inequalityRows := by
  ext i j
  rw [Matrix.mul_assoc, mul_apply, denseTriplets, of_apply, Task.eliminatedTriplets,
    entrySum_flatMap, hi.rows_eq_ofFn, List.map_ofFn, List.sum_ofFn]
  refine Finset.sum_congr rfl fun k _ => ?_
  have hcoef := (h.inequalities _ (List.getElem_mem k.isLt)).coef
  have hweight : (Vec.coord it.mu k / Vec.coord it.z k).IsReal := hi.weights_eq k ▸ isReal_real _
  refine (entrySum_outer hcoef hweight i j).trans ?_
  rw [hi.weights_eq k, toReal_real, diagonal_mul, transpose_apply, task.inequalityRows_apply,
    task.inequalityRows_apply]
  ring

theorem Task.Posed.reals_newtonGradient :
    Vec.IsReal (task.newtonGradient it) ∧
    Vec.reals task.qp.variableCount (task.newtonGradient it) =
      Vec.reals _ (task.lagrangianGradient it.x it.lam it.mu) +
        task.inequalityRowsᵀ *ᵥ task.pulls it := by
  have hterms : ∀ e ∈ task.rows it,
      (∀ v ∈ e.1.coef, v.2.IsReal) ∧ ((e.2.2.2 * e.2.1 + it.gamma) / e.2.2.1).IsReal := by
    intro e he
    rw [hi.rows_eq_ofFn, List.mem_ofFn] at he
    obtain ⟨k, rfl⟩ := he
    exact ⟨(h.inequalities _ (List.getElem_mem k.isLt)).coef, hi.pulls_eq h k ▸ isReal_real _⟩
  have hlength := Task.length_lagrangianGradient h.height it.x it.lam it.mu
  obtain ⟨hreal, heq⟩ := reals_foldl_scatter (task.rows it) (fun e => e.1.coef)
    (fun e => (e.2.2.2 * e.2.1 + it.gamma) / e.2.2.1) hlength.ge
    (h.lagrangianGradient_eq hi.x hi.lam hi.mu).1 hterms
  refine ⟨hreal, heq.trans ?_⟩
  congr 1
  funext j
  rw [hi.rows_eq_ofFn, List.map_ofFn, List.sum_ofFn]
  refine Finset.sum_congr rfl fun k _ => ?_
  show ((Vec.coord it.mu k * Vec.coord it.h k + it.gamma) / Vec.coord it.z k).toReal *
    rowEntry task.sides.inequalities[(k : ℕ)].coef j = task.inequalityRows k j * task.pulls it k
  rw [hi.pulls_eq h k, toReal_real, task.inequalityRows_apply, mul_comm]

end Reduced

/-! ## The matrix of the reduced system -/

/-- There is room for the triplets of the block beside the diagonal, and for the starts of the
rows. -/
def Task.HasRoom (task : Task Extended) (it : Iterate Extended) : Prop :=
  Vec.fits ((task.qp.h.toTriplets ++ task.eliminatedTriplets it).length +
    (task.qp.variableCount + task.sides.equalities.length)) ∧
  Vec.fits (task.qp.variableCount + task.sides.equalities.length + 1)

/-- The matrix of the reduced system: the block of the Hessian and the eliminated inequalities,
bordered by the equalities. -/
noncomputable def Task.newtonMatrix (task : Task Extended) (it : Iterate Extended) :
    SparseMatrix Extended :=
  LinearSystem.kktMatrix task.qp.variableCount (task.qp.h.toTriplets ++ task.eliminatedTriplets it)
    (task.sides.equalities.map Side.coef)

theorem Task.height_newtonMatrix (task : Task Extended) (it : Iterate Extended) :
    (task.newtonMatrix it).height = task.qp.variableCount + task.sides.equalities.length := by
  rw [Task.newtonMatrix, LinearSystem.height_kktMatrix, List.length_map]

theorem Task.cols_newtonMatrix (task : Task Extended) (it : Iterate Extended) :
    (task.newtonMatrix it).cols = task.qp.variableCount + task.sides.equalities.length := by
  rw [Task.newtonMatrix, LinearSystem.cols_kktMatrix, List.length_map]

theorem Task.length_rows_newtonMatrix (task : Task Extended) (it : Iterate Extended) :
    (task.newtonMatrix it).rows.length =
      task.qp.variableCount + task.sides.equalities.length := by
  rw [SparseMatrix.rows, List.length_map, List.length_range, task.height_newtonMatrix]

section System

variable {task : Task Extended} {it : Iterate Extended} (h : task.Exact) (hi : task.Posed it)
  (hwf : task.qp.h.WellFormed)
include h

theorem Task.Exact.mem_equalityCoefs : ∀ row ∈ task.sides.equalities.map Side.coef, ∀ e ∈ row,
    e.1 < task.qp.variableCount ∧ e.2.IsReal := by
  intro row hrow e he
  obtain ⟨s, hs, rfl⟩ := List.mem_map.mp hrow
  exact ⟨(h.equalities s hs).col_lt e he, (h.equalities s hs).coef e he⟩

include hi hwf

theorem Task.Posed.mem_block :
    ∀ t ∈ task.qp.h.toTriplets ++ task.eliminatedTriplets it,
      t.row < task.qp.variableCount ∧ t.col < task.qp.variableCount ∧ t.value.IsReal := by
  intro t ht
  rcases List.mem_append.mp ht with ht | ht
  · obtain ⟨hrow, hcol, hval⟩ := mem_toTriplets hwf ht
    exact ⟨h.height ▸ hrow, h.cols ▸ hcol, h.hessian _ hval⟩
  · obtain ⟨e, he, ht⟩ := List.mem_flatMap.mp ht
    rw [hi.rows_eq_ofFn, List.mem_ofFn] at he
    obtain ⟨k, rfl⟩ := he
    obtain ⟨a, ha, ht⟩ := List.mem_flatMap.mp ht
    obtain ⟨b, hb, rfl⟩ := List.mem_map.mp ht
    have hside := h.inequalities _ (List.getElem_mem k.isLt)
    have hweight : (Vec.coord it.mu k / Vec.coord it.z k).IsReal := hi.weights_eq k ▸ isReal_real _
    refine ⟨hside.col_lt a ha, hside.col_lt b hb, ?_⟩
    simp [hweight, hside.coef a ha, hside.coef b hb]

/-- The block of the reduced system is the Hessian with the weighted inequalities. -/
theorem Task.Posed.denseTriplets_block :
    denseTriplets task.qp.variableCount task.qp.variableCount
        (task.qp.h.toTriplets ++ task.eliminatedTriplets it) =
      task.hessian + task.inequalityRowsᵀ * diagonal (task.weights it) * task.inequalityRows := by
  rw [← hi.denseTriplets_eliminated h]
  ext i j
  have hrow : (i : ℕ) < task.qp.h.height := h.height.symm ▸ i.isLt
  simp only [denseTriplets, of_apply, Matrix.add_apply, entrySum_append,
    entrySum_toTriplets hwf hrow]
  rfl

theorem Task.Posed.newtonMatrix?_eq_some (hroom : task.HasRoom it) :
    task.newtonMatrix? it = some (task.newtonMatrix it) := by
  have hlisted : task.qp.h.toTriplets? = some task.qp.h.toTriplets :=
    if_pos ⟨hwf.paired, hwf.readable.1⟩
  unfold Task.newtonMatrix?
  rw [hlisted]
  exact LinearSystem.kktMatrix?_eq_some (fun t ht => (hi.mem_block h hwf t ht).1)
    (fun row hrow e he => (h.mem_equalityCoefs row hrow e he).1)
    (by simpa using hroom.1) (by simpa using hroom.2)

/-- The Newton matrix of a symmetric program is symmetric. -/
theorem Task.Posed.isSymm_newtonMatrix
    (hsymm : task.hessian.IsSymm) :
    ((task.newtonMatrix it).dense (task.qp.variableCount + task.sides.equalities.length)
      (task.qp.variableCount + task.sides.equalities.length)).IsSymm := by
  refine LinearSystem.isSymm_kktMatrix (hi.mem_block h hwf) h.mem_equalityCoefs (by simp) ?_
  rw [hi.denseTriplets_block h hwf]
  refine hsymm.add ?_
  rw [IsSymm, transpose_mul, transpose_mul, transpose_transpose, diagonal_transpose,
    Matrix.mul_assoc]

/-- A solution of the reduced system solves two equations. -/
theorem Task.Posed.reduced_equations (hsymm : task.hessian.IsSymm) {reduced : List Extended}
    (hsolves : SolvesColumns (task.newtonMatrix it).rows
      ((task.newtonGradient it ++ it.g).map (- ·)) reduced) :
    task.hessian *ᵥ Vec.reals _ (task.expand it reduced).dx +
        (task.inequalityRowsᵀ * diagonal (task.weights it) * task.inequalityRows) *ᵥ
          Vec.reals _ (task.expand it reduced).dx +
        task.equalityRowsᵀ *ᵥ Vec.reals _ (task.expand it reduced).dlam =
      -(Vec.reals _ (task.lagrangianGradient it.x it.lam it.mu) +
        task.inequalityRowsᵀ *ᵥ task.pulls it) ∧
    task.equalityRows *ᵥ Vec.reals _ (task.expand it reduced).dx = -Vec.reals _ it.g := by
  have hsquare := hsolves.mulVec (task.length_rows_newtonMatrix it)
  rw [← dense_eq_denseRows (task.height_newtonMatrix it), (hi.isSymm_newtonMatrix h hwf hsymm).eq] at hsquare
  rw [Task.newtonMatrix] at hsquare
  obtain ⟨hpoint, hsides⟩ := LinearSystem.split_of_kktMatrix (hi.mem_block h hwf)
    h.mem_equalityCoefs (List.length_map _) hsquare
  have hlen : ((task.newtonGradient it).map (- ·)).length = task.qp.variableCount := by
    rw [List.length_map, Task.length_newtonGradient h.height]
  have htake : ((task.newtonGradient it ++ it.g).map (- ·)).take task.qp.variableCount =
      (task.newtonGradient it).map (- ·) := by
    rw [List.map_append, List.take_left' hlen]
  have hdrop : ((task.newtonGradient it ++ it.g).map (- ·)).drop task.qp.variableCount =
      it.g.map (- ·) := by
    rw [List.map_append, List.drop_left' hlen]
  rw [hi.denseTriplets_block h hwf, add_mulVec, htake, Vec.reals_neg,
    (hi.reals_newtonGradient h).2] at hpoint
  rw [hdrop, Vec.reals_neg] at hsides
  exact ⟨hpoint, hsides⟩

end System

/-! ## Expansion -/

section Expansion

variable {task : Task Extended} {it : Iterate Extended} (h : task.Exact) (hi : task.Posed it)
  {reduced : List Extended} (hd : RealDirection task (task.expand it reduced))
include hi hd

theorem Task.Posed.reals_dmu (k : Fin task.sides.inequalities.length) :
    Vec.reals _ (task.expand it reduced).dmu k =
      -Vec.reals _ it.mu k + (it.gamma.toReal -
        Vec.reals _ it.mu k * Vec.reals _ (task.expand it reduced).dz k) / Vec.reals _ it.z k := by
  have hmu : (k : ℕ) < it.mu.length := k.isLt.trans_eq hi.length_mu.symm
  have hz : (k : ℕ) < it.z.length := k.isLt.trans_eq hi.length_z.symm
  have hdz : (k : ℕ) < (task.expand it reduced).dz.length := k.isLt.trans_eq hd.length_dz.symm
  have hdmu : (k : ℕ) < (task.expand it reduced).dmu.length := k.isLt.trans_eq hd.length_dmu.symm
  have hcoord : Vec.coord (task.expand it reduced).dmu k =
      -Vec.coord it.mu k + (it.gamma - Vec.coord it.mu k *
        Vec.coord (task.expand it reduced).dz k) / Vec.coord it.z k := by
    rw [Vec.coord_eq_getElem _ hmu, Vec.coord_eq_getElem _ hz, Vec.coord_eq_getElem _ hdz,
      Vec.coord_eq_getElem _ hdmu]
    simp only [Task.expand, List.getElem_zipWith, List.getElem_zip]
  have hnum : (it.gamma - Vec.coord it.mu k * Vec.coord (task.expand it reduced).dz k).IsReal := by
    simp [hi.gamma, hi.mu.coord, hd.dz.coord]
  rw [Vec.reals, hcoord, hi.div_z hnum, hi.gamma.eq, hi.mu.coord_eq, hd.dz.coord_eq, neg_real,
    real_mul_real, real_sub_real, toReal_real, real_add_real, toReal_real, toReal_real]

include h

theorem Task.Posed.reals_dz :
    Vec.reals _ (task.expand it reduced).dz =
      -Vec.reals _ it.h - Vec.reals _ it.z -
        task.inequalityRows *ᵥ Vec.reals _ (task.expand it reduced).dx := by
  funext k
  have hs := List.getElem?_eq_getElem k.isLt
  have hh : Vec.coord it.h k = (task.sides.inequalities[(k : ℕ)]).residual it.x := by
    simp [hi.h_eq, Vec.coord]
  rw [Vec.reals, hi.coord_dz hs, ← hh, (hi.isReal_h h).coord_eq, hi.z.isReal.coord_eq,
    dot_eq_denseRows h.inequalities hd.dx, neg_real, real_sub_real, real_sub_real]
  rfl

/-- The multipliers move by what the inequalities add to the gradient and by their weights. -/
theorem Task.Posed.reals_dmu_eq :
    Vec.reals _ (task.expand it reduced).dmu = task.pulls it + diagonal (task.weights it) *ᵥ
      (task.inequalityRows *ᵥ Vec.reals _ (task.expand it reduced).dx) := by
  funext k
  have hz := (hi.reals_z_pos k).ne'
  rw [hi.reals_dmu hd, hi.reals_dz h hd]
  simp only [Pi.add_apply, Pi.sub_apply, Pi.neg_apply, mulVec_diagonal, Task.pulls, Task.weights]
  field_simp
  ring

/-- An exact solution of the reduced system expands to a solution of the full one. -/
theorem Task.Posed.newtonStep (hwf : task.qp.h.WellFormed) (hsymm : task.hessian.IsSymm)
    (hsolves : SolvesColumns (task.newtonMatrix it).rows
      ((task.newtonGradient it ++ it.g).map (- ·)) reduced) :
    task.NewtonStep it (task.expand it reduced) := by
  obtain ⟨hpoint, hsides⟩ := hi.reduced_equations h hwf hsymm hsolves
  refine ⟨hd, ?_, hsides, ?_, fun k => ?_⟩
  · rw [hi.reals_dmu_eq h hd, mulVec_add, mulVec_mulVec, mulVec_mulVec]
    linear_combination hpoint
  · rw [hi.reals_dz h hd]
    ring
  · have hz := (hi.reals_z_pos k).ne'
    rw [hi.reals_dmu hd]
    field_simp
    ring

end Expansion

/-! ## The residuals after a step -/

/-- The residuals of the equalities shrink by the primal step length, and the gradient of the
Lagrangian does by the common length of a step that has one. -/
structure Task.Contracts (task : Task Extended) (it : Iterate Extended) (p : Progress Extended) :
    Prop where
  equalities : p.iterate.g = it.g.map fun r => (1 - p.alphaPrimal) * r
  gradient : p.alphaPrimal = p.alphaDual →
    task.lagrangianGradient p.iterate.x p.iterate.lam p.iterate.mu =
      (task.lagrangianGradient it.x it.lam it.mu).map fun r => (1 - p.alphaPrimal) * r

section Contraction

variable {task : Task Extended} {it : Iterate Extended} (h : task.Exact) (hi : task.Posed it)
  {d : Direction Extended} (hd : task.NewtonStep it d)
include h hi hd

theorem Task.NewtonStep.residual_along (a : ℝ) :
    (task.sides.equalities.map fun s => s.residual (Vec.along it.x d.dx (a : Extended))) =
      it.g.map fun r => (1 - (a : Extended)) * r := by
  rw [hi.g_eq, List.map_map]
  apply List.map_congr_left
  intro s hs
  obtain ⟨k, hk, rfl⟩ := List.getElem_of_mem hs
  have hside := h.equalities _ hs
  obtain ⟨r, hr⟩ := hside.isReal_residual hi.x
  have hdot : (task.sides.equalities[k]).dot d.dx = real (-r) := by
    have hg : Vec.reals _ it.g ⟨k, hk⟩ = r := by simp [Vec.reals, Vec.coord, hi.g_eq, hk, hr]
    have hequation := congrFun hd.equalities ⟨k, hk⟩
    rw [Pi.neg_apply, hg] at hequation
    rw [← hequation]
    exact dot_eq_denseRows h.equalities hd.direction.dx ⟨k, hk⟩
  rw [Function.comp_apply, hside.residual_along hi.x hd.direction.dx hi.length_x
    hd.direction.length_dx, hr, hdot, one_eq, real_mul_real, real_add_real, real_sub_real,
    real_mul_real, real_inj]
  ring

theorem Task.NewtonStep.lagrangianGradient_along (a : ℝ) :
    task.lagrangianGradient (Vec.along it.x d.dx (a : Extended))
        (Vec.along it.lam d.dlam (a : Extended)) (Vec.along it.mu d.dmu (a : Extended)) =
      (task.lagrangianGradient it.x it.lam it.mu).map fun r => (1 - (a : Extended)) * r := by
  have hreal := hd.direction
  have hlenLam : (Vec.along it.lam d.dlam (a : Extended)).length =
      task.sides.equalities.length := by
    simp [hi.length_lam, hreal.length_dlam]
  have hlenMu : (Vec.along it.mu d.dmu (a : Extended)).length =
      task.sides.inequalities.length := by
    simp [hi.length_mu, hreal.length_dmu]
  have hx := hi.x.along hreal.dx (isReal_real a)
  have hlam := hi.lam.along hreal.dlam (isReal_real a)
  have hmu := hi.mu.along hreal.dmu (isReal_real a)
  have hreals : Vec.reals task.qp.variableCount (task.lagrangianGradient
      (Vec.along it.x d.dx (a : Extended)) (Vec.along it.lam d.dlam (a : Extended))
      (Vec.along it.mu d.dmu (a : Extended))) =
      (1 - a) • Vec.reals _ (task.lagrangianGradient it.x it.lam it.mu) := by
    have hstationary := hd.stationarity
    rw [h.reals_lagrangianGradient hi.x hi.lam hi.mu hi.length_lam hi.length_mu] at hstationary ⊢
    rw [h.reals_lagrangianGradient hx hlam hmu hlenLam hlenMu,
      Vec.reals_along hi.x hreal.dx hi.length_x.ge hreal.length_dx.ge,
      Vec.reals_along hi.lam hreal.dlam hi.length_lam.ge hreal.length_dlam.ge,
      Vec.reals_along hi.mu hreal.dmu hi.length_mu.ge hreal.length_dmu.ge]
    simp only [mulVec_add, mulVec_smul]
    funext j
    have hj := congrFun hstationary j
    simp only [Pi.add_apply, Pi.neg_apply, Pi.smul_apply, smul_eq_mul] at hj ⊢
    linear_combination a * hj
  have hlength : ∀ x lam mu, (task.lagrangianGradient x lam mu).length = task.qp.variableCount :=
    Task.length_lagrangianGradient h.height
  rw [(h.lagrangianGradient_eq hx hlam hmu).1.eq_ofReals (hlength _ _ _), hreals,
    one_eq, real_sub_real, Vec.map_mul_eq_ofReals (h.lagrangianGradient_eq hi.x hi.lam hi.mu).1
      (hlength _ _ _)]

/-- A step of any length along a Newton direction contracts the residuals. -/
theorem Task.NewtonStep.contracts {opt : Options Extended} (hxi : opt.xi.IsReal) (n : ℕ) :
    task.Contracts it (task.advance opt it d n) := by
  have hreal := hd.direction
  obtain ⟨a, ha⟩ : (stepLength opt.xi it.z d.dz).IsReal := by
    rw [hxi.eq]
    exact isReal_stepLength _ hi.z.isReal hreal.dz
  refine ⟨?_, fun hsame => ?_⟩
  · show (task.sides.equalities.map fun s => s.residual
      (Vec.along it.x d.dx (stepLength opt.xi it.z d.dz))) = it.g.map fun r =>
        (1 - stepLength opt.xi it.z d.dz) * r
    rw [ha]
    exact hd.residual_along h hi a
  · have hdual : stepLength opt.xi it.mu d.dmu = a := hsame.symm.trans ha
    show task.lagrangianGradient (Vec.along it.x d.dx (stepLength opt.xi it.z d.dz))
      (Vec.along it.lam d.dlam (stepLength opt.xi it.mu d.dmu))
      (Vec.along it.mu d.dmu (stepLength opt.xi it.mu d.dmu)) =
        (task.lagrangianGradient it.x it.lam it.mu).map fun r =>
          (1 - stepLength opt.xi it.z d.dz) * r
    rw [ha, hdual]
    exact hd.lagrangianGradient_along h hi a

end Contraction

/-! ## The direction of an iteration -/

section System

variable {task : Task Extended} {it : Iterate Extended} (h : task.Exact) (hi : task.Posed it)
include h hi

/-- The reduced system is square, and its right-hand side fits it. -/
theorem Task.Posed.shape_newtonSystem :
    (task.newtonMatrix it).height = (task.newtonMatrix it).cols ∧
      ((task.newtonGradient it ++ it.g).map (- ·)).length = (task.newtonMatrix it).height := by
  rw [hi.shaped.length_newtonSide h.height, task.height_newtonMatrix, task.cols_newtonMatrix]
  exact ⟨rfl, rfl⟩

/-- The right-hand side of an iteration is real. -/
theorem Task.Posed.isReal_newtonSide :
    Vec.IsReal ((task.newtonGradient it ++ it.g).map (- ·)) := by
  intro a ha
  obtain ⟨b, hb, rfl⟩ := List.mem_map.mp ha
  rcases List.mem_append.mp hb with hb | hb
  · exact isReal_neg_iff.mpr ((hi.reals_newtonGradient h).1 b hb)
  · exact isReal_neg_iff.mpr (hi.isReal_g h b hb)

end System

/-- The direction is the expansion of a real answer of the linear solver, unless that answer is
too long. -/
theorem Task.Posed.direction_of_solve {task : Task Extended} {it : Iterate Extended}
    (h : task.Exact) (hi : task.Posed it) {opt : Options Extended} {solver : LinearSolver Extended}
    {n : ℕ} {reduced : List Extended} (hK : task.newtonMatrix? it = some (task.newtonMatrix it))
    (hsolve : solver.solve n (task.newtonMatrix it).rows
      ((task.newtonGradient it ++ it.g).map (- ·)) = .ok reduced) (hreal : Vec.IsReal reduced) :
    task.direction opt solver n it =
      if opt.maxStepSize < Vec.norm reduced then .error (.error .newtonStep)
      else .ok (task.expand it reduced) := by
  have hsymmetric : LinearSystem.solveSymmetric solver n (task.newtonMatrix it)
      ((task.newtonGradient it ++ it.g).map (- ·)) = .ok reduced := by
    rw [LinearSystem.solveSymmetric, if_pos (hi.shape_newtonSystem h), hsolve]
    rfl
  have hnum : reduced.any isNaN = false := List.any_eq_false.mpr fun a ha => by
    rw [isNaN_eq_false_iff.mpr (hreal a ha).ne_nan]
    exact Bool.false_ne_true
  unfold Task.direction
  simp only [hK, hsymmetric, Failure.ofOption, bind, Except.bind, Except.mapError, hnum,
    Bool.false_or, decide_eq_true_eq]
  split <;> rfl

/-- From any real iterate with positive slacks, the reduced system of a program with a symmetric
Hessian can be set up, and whenever the linear solver answers it exactly, the answer expands to a
solution of all four Newton equations. That is the direction of the iteration unless the answer is
too long, and going along it contracts the residuals of the equalities and the gradient of the
Lagrangian. -/
theorem expands_to_newtonStep {opt : Options Extended} {qp : QuadraticProgram Extended}
    {x0 : List Extended} {task : Task Extended} {it : Iterate Extended} (hqp : qp.Exact)
    (hwf : qp.h.WellFormed) (hsymm : (qp.h.dense qp.variableCount qp.variableCount).IsSymm)
    (hxi : opt.xi.IsReal) (hcheck : Task.check opt qp x0 = .ok task) (hi : task.Posed it)
    (hroom : task.HasRoom it) (solver : LinearSolver Extended) (n : ℕ) :
    task.newtonMatrix? it = some (task.newtonMatrix it) ∧
      ∀ reduced, solver.solve n (task.newtonMatrix it).rows
          ((task.newtonGradient it ++ it.g).map (- ·)) = .ok reduced →
        SolvesColumns (task.newtonMatrix it).rows
            ((task.newtonGradient it ++ it.g).map (- ·)) reduced →
          (task.direction opt solver n it =
            if opt.maxStepSize < Vec.norm reduced then .error (.error .newtonStep)
            else .ok (task.expand it reduced)) ∧
          task.NewtonStep it (task.expand it reduced) ∧
          task.Contracts it (task.advance opt it (task.expand it reduced) n) := by
  obtain ⟨h, -⟩ := exact_of_check hqp hcheck
  obtain ⟨-, rfl, -, -⟩ := check_eq_ok hcheck
  have hK := hi.newtonMatrix?_eq_some h hwf hroom
  refine ⟨hK, fun reduced hsolve hsolves => ?_⟩
  have hlen := (solver.length_solve _ _ _ _ hsolve).trans (hi.shaped.length_newtonSide h.height)
  have hd := h.realDirection hi hsolves.real hlen
  have hnewton := hi.newtonStep h hd hwf hsymm hsolves
  exact ⟨hi.direction_of_solve h hK hsolve hsolves.real, hnewton, hnewton.contracts h hi hxi n⟩

section Tied

/-- Minimize the square of `x` over `x = 1` and `0 ≤ x`, with the Hessian stored in two parts. -/
noncomputable def tied : QuadraticProgram Extended where
  h := .ofRows 1 [[(0, real 1), (0, real 1)]]
  g := [real 0]
  lbx := [0]
  ubx := [posInf]
  a := .ofRows 1 [[(0, 1)]]
  lba := [1]
  uba := [1]

noncomputable def tiedSide : Side Extended :=
  .upper [(0, 1)] 1 (.row 0)

noncomputable def tiedTask : Task Extended :=
  ⟨tied, ⟨[tiedSide], [halfLineSide]⟩⟩

noncomputable def tiedIterate : Iterate Extended :=
  tiedTask.evaluate [real 0] [real 0] [real 1] [real 1] 1 fun _ => 0

/-- A solver that answers every system of two equations by the same step. -/
noncomputable def stepping : LinearSolver Extended where
  solve _ _ b := if b.length = 2 then .ok [real 1, real (-1)] else .error (.error "")
  length_solve _ _ b x h := by
    split at h
    · rename_i hb
      rw [← Except.ok.inj h, hb]
      rfl
    · cases h

theorem tied_sides : Sides.ofProgram? tied = some ⟨[tiedSide], [halfLineSide]⟩ := by
  have hlower : isFinite (0 : Extended) = true := isFinite_iff.mpr (isReal_real 0)
  have hone : isFinite (1 : Extended) = true := isFinite_iff.mpr (isReal_real 1)
  have hbound : Sides.ofBounds 0 posInf [(0, (1 : Extended))] (.bound 0) =
      ⟨[], [halfLineSide]⟩ := by
    simp only [Sides.ofBounds, hlower, isFinite_posInf]
    rfl
  have hrow : Sides.ofBounds 1 1 [(0, (1 : Extended))] (.row 0) = ⟨[tiedSide], []⟩ := by
    have hgap : magnitude ((1 : Extended) - 1) ≤ epsilon := by
      obtain ⟨r, hr, hpos⟩ := epsilon_eq
      rw [hr, one_eq, real_sub_real, magnitude_real, real_le_real]
      simpa using hpos.le
    simp only [Sides.ofBounds, hone, hgap]
    rfl
  have hall : Sides.concat [Sides.ofBounds 0 posInf [(0, (1 : Extended))] (.bound 0),
      Sides.ofBounds 1 1 [(0, (1 : Extended))] (.row 0)] = ⟨[tiedSide], [halfLineSide]⟩ := by
    rw [hbound, hrow]
    rfl
  show (if (Sides.concat [Sides.ofBounds 0 posInf [(0, (1 : Extended))] (.bound 0),
      Sides.ofBounds 1 1 [(0, (1 : Extended))] (.row 0)]).within 1 then
    some (Sides.concat [Sides.ofBounds 0 posInf [(0, (1 : Extended))] (.bound 0),
      Sides.ofBounds 1 1 [(0, (1 : Extended))] (.row 0)]) else none) = _
  rw [hall]
  rfl

theorem tied_check : Task.check single tied [real 0] = .ok tiedTask := by
  have hdims : checkDimensions single tied [real 0] = .ok () := by
    unfold checkDimensions single
    rw [if_neg default_ranges.1, if_neg default_ranges.2]
    rfl
  unfold Task.check
  rw [hdims, tied_sides]
  rfl

theorem tied_exact : tied.Exact where
  hessian := isReal_of_rows (by simp)
  gradient := by simp [tied, Vec.IsReal]
  constraints := isReal_of_rows (by simp)

theorem tied_posed : tiedTask.Posed tiedIterate where
  x := Vec.isReal_map_real [0]
  lam := Vec.isReal_map_real [0]
  z := by
    rintro a (_ | ⟨_, ⟨⟩⟩)
    exact ⟨1, one_pos, rfl⟩
  mu := Vec.isReal_map_real [1]
  gamma := isReal_real 1
  length_x := rfl
  length_lam := rfl
  length_z := rfl
  length_mu := rfl
  h_eq := rfl
  g_eq := rfl

theorem tied_rows : (tiedTask.newtonMatrix tiedIterate).rows =
    [[(0, real (1 + 1) + real 1 / real 1 * (-1) * (-1) + 0), (1, 1)], [(0, 1), (1, 0)]] :=
  rfl

theorem tied_side :
    (tiedTask.newtonGradient tiedIterate ++ tiedIterate.g).map (- ·) = [real 2, real 1] := by
  have hg : tiedSide.residual [real 0] = real (-1) := by
    simp [Side.residual, Side.dot, tiedSide, Side.upper, Vec.sum, Vec.coord]
  have hpull : (real 1 * halfLineSide.residual [real 0] + 1) / real 1 = real 1 := by
    have hzero : halfLineSide.residual [real 0] = real 0 := by
      simp [Side.residual, Side.dot, halfLineSide, Side.lower, Vec.sum, Vec.coord]
    rw [hzero, one_eq, real_mul_real, real_add_real, real_div_real _ one_ne_zero]
    norm_num
  show [-(0 + real 1 * real 0 + real 1 * real 0 + real 0 + 1 * real 0 + -1 * real 1 +
    -1 * ((real 1 * halfLineSide.residual [real 0] + 1) / real 1)),
    -tiedSide.residual [real 0]] = _
  rw [hg, hpull]
  simp
  norm_num

theorem tied_solves : SolvesColumns (tiedTask.newtonMatrix tiedIterate).rows
    ((tiedTask.newtonGradient tiedIterate ++ tiedIterate.g).map (- ·)) [real 1, real (-1)] := by
  rw [tied_rows, tied_side]
  refine ⟨Vec.isReal_map_real [1, -1], ?_⟩
  funext i
  fin_cases i
  all_goals
    simp [Matrix.mulVec, dotProduct, denseRows, rowEntry, Vec.reals, Vec.coord, Fin.sum_univ_two,
      real_div_real]
  norm_num

/-- From zero, with a slack and a multiplier of one, the step goes to one, and it is short enough
to be taken. -/
theorem tied_expands :
    tiedTask.newtonMatrix? tiedIterate = some (tiedTask.newtonMatrix tiedIterate) ∧
    SolvesColumns (tiedTask.newtonMatrix tiedIterate).rows
      ((tiedTask.newtonGradient tiedIterate ++ tiedIterate.g).map (- ·))
      [real 1, real (-1)] ∧
    tiedTask.direction single stepping 1 tiedIterate =
      .ok (tiedTask.expand tiedIterate [real 1, real (-1)]) ∧
    tiedTask.NewtonStep tiedIterate (tiedTask.expand tiedIterate [real 1, real (-1)]) ∧
    tiedTask.Contracts tiedIterate (tiedTask.advance single tiedIterate
      (tiedTask.expand tiedIterate [real 1, real (-1)]) 1) := by
  have hwf : tied.h.WellFormed := wellFormed_ofRows (by simp)
  have hsymm : (tied.h.dense tied.variableCount tied.variableCount).IsSymm := by
    ext i j
    rw [Subsingleton.elim (α := Fin 1) i j]
    rfl
  obtain ⟨hK, hstep⟩ := expands_to_newtonStep tied_exact hwf hsymm single_exact.xi tied_check
    tied_posed ⟨by decide, by decide⟩ stepping 1
  have hshort : ¬single.maxStepSize < Vec.norm [real 1, real (-1)] := by
    have hnorm : Vec.norm [real 1, real (-1)] = real √2 := by
      simp [Vec.norm, Vec.dot, Scalar.sqrt]
      norm_num
    have hsqrt : √2 ≤ 2 := Real.sqrt_le_iff.mpr ⟨by norm_num, by norm_num⟩
    rw [hnorm]
    simp only [single, Options.default, ofScientific_eq, real_lt_real, not_lt]
    linarith
  obtain ⟨hdirection, hnewton, hcontracts⟩ := hstep [real 1, real (-1)]
    (by rw [tied_side]; rfl) tied_solves
  rw [if_neg hshort] at hdirection
  exact ⟨hK, tied_solves, hdirection, hnewton, hcontracts⟩

end Tied

/-! ## Whole runs -/

/-- What the linear solver answers to a system of real numbers solves it exactly. -/
def SolvesExactly (solver : LinearSolver Extended) : Prop :=
  ∀ n columns b x, (∀ row ∈ columns, ∀ e ∈ row, e.2.IsReal) → Vec.IsReal b →
    solver.solve n columns b = .ok x → SolvesColumns columns b x

section Steps

variable {task : Task Extended} {it : Iterate Extended} (h : task.Exact) (hi : task.Posed it)
  (hwf : task.qp.h.WellFormed) {opt : Options Extended} {solver : LinearSolver Extended}

theorem Task.newtonMatrix?_eq {K : SparseMatrix Extended} (hK : task.newtonMatrix? it = some K) :
    K = task.newtonMatrix it := by
  unfold Task.newtonMatrix? at hK
  obtain ⟨ts, hts, hK⟩ := Option.bind_eq_some_iff.mp hK
  rw [← LinearSystem.eq_kktMatrix_of_eq_some hK, ← toTriplets?_eq_some hts, Task.newtonMatrix]

include h hi hwf

/-- With an exact linear solver every direction is a Newton step. -/
theorem Task.Posed.newtonStep_of_direction (hsymm : task.hessian.IsSymm)
    (hsolver : SolvesExactly solver) {n : ℕ} {d : Direction Extended}
    (hd : task.direction opt solver n it = .ok d) : task.NewtonStep it d := by
  obtain ⟨K, reduced, hK, hsolve, -, -, rfl⟩ := Task.direction_eq_ok hd
  obtain rfl := Task.newtonMatrix?_eq hK
  have hrows := LinearSystem.isReal_rows_kktMatrix (hi.mem_block h hwf) h.mem_equalityCoefs
  have hsolves := hsolver _ _ _ _ hrows (hi.isReal_newtonSide h) hsolve
  have hlen := (solver.length_solve _ _ _ _ hsolve).trans (hi.shaped.length_newtonSide h.height)
  exact hi.newtonStep h (h.realDirection hi hsolves.real hlen) hwf hsymm hsolves

end Steps

/-- With an exact linear solver every iteration of a run contracts the residuals. -/
theorem linked_contracts {opt : Options Extended} {solver : LinearSolver Extended}
    {qp : QuadraticProgram Extended} {x0 : List Extended} {task : Task Extended} (hqp : qp.Exact)
    (hwf : qp.h.WellFormed) (hsymm : (qp.h.dense qp.variableCount qp.variableCount).IsSymm)
    (hopt : opt.Exact solver) (hsolver : SolvesExactly solver) (hx0 : Vec.IsReal x0)
    (hcheck : Task.check opt qp x0 = .ok task) :
    Linked task.Contracts (task.start opt x0) (progresses (solve opt solver qp x0).journal) := by
  obtain ⟨h, -⟩ := exact_of_check hqp hcheck
  obtain ⟨-, hqpEq, -, -⟩ := check_eq_ok hcheck
  refine linked_solve hqp hopt hx0 hcheck fun n it p hi hstep => ?_
  subst hqpEq
  obtain ⟨d, hd, rfl⟩ := Task.step_eq_ok hstep
  have hposed := hi.1.posed
  exact (hposed.newtonStep_of_direction h hwf hsymm hsolver hd).contracts h hposed hopt.xi n

end SeqQuad.InteriorPoint
