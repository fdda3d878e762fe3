import SeqQuad.Proofs.Exact.Largest
import SeqQuad.Proofs.Nonlinear.Reals

/-!
# A bound as a constraint

The bounds on one coordinate can be written as a constraint on its value, with the multiplier of
the bounds as that of the constraint. In exact arithmetic every quantity that the solver computes
from bounds and from constraints is the same for both.
-/

namespace SeqQuad

open Extended Scalar

/-! ## Quadratic programs -/

/-- One more row, the unit vector of a coordinate. A matrix that cannot be read keeps its rows and
stays one that cannot be read. -/
noncomputable def SparseMatrix.pushUnit (j : ℕ) (A : SparseMatrix Extended) :
    SparseMatrix Extended :=
  if A.Readable then .ofRows A.cols (A.rows ++ [[(j, 1)]])
  else { A with starts := A.starts.push 0 }

/-- The same program with the bounds on the coordinate `j` as its last constraint. -/
noncomputable def QuadraticProgram.recast (j : ℕ) (qp : QuadraticProgram Extended) :
    QuadraticProgram Extended where
  h := qp.h
  g := qp.g
  lbx := qp.lbx.set j negInf
  ubx := qp.ubx.set j posInf
  a := qp.a.pushUnit j
  lba := qp.lba ++ [Vec.coord qp.lbx j]
  uba := qp.uba ++ [Vec.coord qp.ubx j]

/-- The same solution with the multiplier of the coordinate `j` as that of the last constraint. -/
noncomputable def QuadraticSolution.recast (j : ℕ) (sol : QuadraticSolution Extended) :
    QuadraticSolution Extended :=
  ⟨sol.x, sol.lamX.set j 0, sol.lamA ++ [Vec.coord sol.lamX j]⟩

namespace Nonlinear

/-! ## Nonlinear programs -/

/-- The multiplier of the coordinate `j` as that of the last constraint. -/
noncomputable def Multipliers.recast (j : ℕ) (lam : Multipliers Extended) :
    Multipliers Extended :=
  ⟨lam.g ++ [Vec.coord lam.x j], lam.x.set j 0⟩

/-- No constraints on points with `n` coordinates. -/
noncomputable def noConstraints (n : ℕ) : Constraints Extended where
  values _ _ := .ok []
  jacobian _ _ := .ok ([], .empty 0 n)

/-- The constraints and the value of the coordinate `j`. -/
noncomputable def withCoordinate (j : ℕ) (c : Constraints Extended) :
    Constraints Extended where
  values m x := (c.values m x).map fun g => g ++ [Vec.coord x j]
  jacobian m x := (c.jacobian m x).map fun r => (r.1 ++ [Vec.coord x j], r.2.pushUnit j)

/-- The last constraint is linear. -/
def LagrangianHessian.recast (hess : LagrangianHessian Extended) : LagrangianHessian Extended :=
  fun m x lam scale => hess m x lam.dropLast scale

/-- The same problem with the bounds on the coordinate `j` as its last constraint. -/
noncomputable def Problem.recast (j : ℕ) (p : Problem Extended) : Problem Extended where
  objective := p.objective
  constraints := some (withCoordinate j (p.constraints.getD (noConstraints p.variableCount)))
  hessian := p.hessian.map LagrangianHessian.recast
  x0 := p.x0
  xmin := p.xmin.set j negInf
  xmax := p.xmax.set j posInf
  gmin := p.gmin ++ [Vec.coord p.xmin j]
  gmax := p.gmax ++ [Vec.coord p.xmax j]
  multipliers := p.multipliers.map (.recast j)

theorem Problem.constraintCount_recast (j : ℕ) (p : Problem Extended) :
    (p.recast j).constraintCount = p.constraintCount + 1 := by
  simp [recast, constraintCount]

/-- What a callback is shown of the same iterate. -/
noncomputable def Snapshot.recast (j : ℕ) (s : Snapshot Extended) : Snapshot Extended :=
  { s with g := s.g ++ [Vec.coord s.x j], multipliers := s.multipliers.recast j }

noncomputable def Solution.recast (j : ℕ) (sol : Solution Extended) : Solution Extended :=
  { sol with g := sol.g ++ [Vec.coord sol.x j], multipliers := sol.multipliers.recast j }

noncomputable def Iterate.recast (j : ℕ) (s : Iterate Extended) : Iterate Extended :=
  { s with
    g := s.g ++ [Vec.coord s.x j], multipliers := s.multipliers.recast j,
    jacobian := s.jacobian.pushUnit j }

end Nonlinear

/-! ## Bounds -/

section Bounds

variable {x lower upper g glower gupper : List Extended} {j n m : ℕ}

/-- Open bounds are violated by no real value. -/
theorem violations_open (hx : x.length = n) (hreal : (Vec.coord x j).IsReal) :
    violations x (lower.set j negInf) (upper.set j posInf) =
      (violations x lower upper).set j negInf := by
  apply List.ext_getElem
  · simp [violations]
  · intro i hi _
    have hin : i < n := by
      simp only [violations, List.length_zipWith, List.length_zip, List.length_set] at hi
      omega
    by_cases hij : j = i
    · subst hij
      obtain ⟨v, hv⟩ := hreal
      have hxv : x[j] = v := by rw [← hv, Vec.coord_eq_getElem x (by omega)]
      simp [violations, hxv, sub_def, neg_def, Extended.neg, add_def, Extended.add, maxNum_of_le]
    · simp [violations, List.getElem_set_ne hij]

theorem coord_violations (hlower : j < lower.length) (hupper : j < upper.length)
    (hx : j < x.length) :
    Vec.coord (violations x lower upper) j =
      maxNum (Vec.coord lower j - Vec.coord x j) (Vec.coord x j - Vec.coord upper j) := by
  simp [Vec.coord, violations, hlower, hupper, hx]

theorem violations_append_singleton (hg : g.length = m) (hlower : glower.length = m)
    (hupper : gupper.length = m) (v l u : Extended) :
    violations (g ++ [v]) (glower ++ [l]) (gupper ++ [u]) =
      violations g glower gupper ++ [maxNum (l - v) (v - u)] := by
  unfold violations
  rw [List.zip_append (hlower.trans hupper.symm), List.zipWith_append (by simp [hg, hlower, hupper])]
  rfl

/-- Bounds on a coordinate are violated as much as the same bounds on a constraint. -/
theorem primalInfeasibility_recast (hj : j < n) (hx : x.length = n) (hlower : lower.length = n)
    (hupper : upper.length = n) (hg : g.length = m) (hglower : glower.length = m)
    (hgupper : gupper.length = m) (hreal : (Vec.coord x j).IsReal) :
    primalInfeasibility x (lower.set j negInf) (upper.set j posInf) (g ++ [Vec.coord x j])
        (glower ++ [Vec.coord lower j]) (gupper ++ [Vec.coord upper j]) =
      primalInfeasibility x lower upper g glower gupper := by
  have hlen : j < (violations x lower upper).length := by
    simp [violations, hx, hlower, hupper, hj]
  have hsame : maxNum (Vec.coord lower j - Vec.coord x j) (Vec.coord x j - Vec.coord upper j) =
      Vec.coord (violations x lower upper) j :=
    (coord_violations (by omega) (by omega) (by omega)).symm
  have hopen : negInf ≤ (violations x lower upper ++ violations g glower gupper).foldl maxNum 0 :=
    negInf_le (Vec.foldl_maxNum_ne_nan_of_ne _ zero_ne_nan)
  unfold primalInfeasibility
  rw [violations_open hx hreal, violations_append_singleton hg hglower hgupper, hsame]
  exact Vec.foldl_maxNum_move (Vec.set_append_perm _ hlen negInf) hopen

/-! ## Bounds on a step -/

theorem Vec.sub_set_of_infinite {v : Extended} (hx : j < x.length)
    (hv : v - Vec.coord x j = v) : Vec.sub (lower.set j v) x = (Vec.sub lower x).set j v := by
  apply List.ext_getElem
  · simp
  · intro i _ _
    by_cases hij : j = i
    · subst hij
      rw [Vec.coord_eq_getElem x hx] at hv
      simp [Vec.sub, hv]
    · simp [Vec.sub, List.getElem_set_ne hij]

theorem negInf_sub_of_isReal {a : Extended} (ha : a.IsReal) : negInf - a = negInf := by
  obtain ⟨r, rfl⟩ := ha
  rfl

theorem posInf_sub_of_isReal {a : Extended} (ha : a.IsReal) : posInf - a = posInf := by
  obtain ⟨r, rfl⟩ := ha
  rfl

theorem Vec.sub_append_singleton (h : lower.length = g.length) (u v : Extended) :
    Vec.sub (lower ++ [u]) (g ++ [v]) = Vec.sub lower g ++ [u - v] := by
  simp [Vec.sub, List.zipWith_append h]

end Bounds

/-! ## Matrices -/

namespace SparseMatrix

variable {A : SparseMatrix Extended} {j : ℕ}

theorem pushUnit_of_readable (hA : A.Readable) :
    A.pushUnit j = ofRows A.cols (A.rows ++ [[(j, 1)]]) :=
  if_pos hA

theorem height_pos_of_not_readable (hA : ¬A.Readable) : 0 < A.height := by
  by_contra hzero
  obtain hzero : A.height = 0 := by omega
  refine hA ⟨fun i hi => absurd hi (by omega), fun row hrow => ?_⟩
  simp [rows, hzero] at hrow

theorem height_pushUnit : (A.pushUnit j).height = A.height + 1 := by
  unfold pushUnit
  split
  · simp [rows]
  · rename_i hA
    have hpos := height_pos_of_not_readable hA
    unfold height at *
    simp
    omega

theorem cols_pushUnit : (A.pushUnit j).cols = A.cols := by
  unfold pushUnit
  split
  · exact cols_ofRows _ _
  · rfl

theorem readable_pushUnit (hj : j < A.cols) : (A.pushUnit j).Readable ↔ A.Readable := by
  by_cases hA : A.Readable
  · have hunit : ∀ row ∈ [[(j, (1 : Extended))]], ∀ e ∈ row, e.1 < A.cols := by simpa using hj
    rw [pushUnit_of_readable hA, readable_ofRows_iff]
    exact iff_of_true (List.forall_mem_append.mpr ⟨hA.2, hunit⟩) hA
  · refine iff_of_false (fun hread => hA ?_) hA
    have hheight := height_pushUnit (A := A) (j := j)
    rw [pushUnit, if_neg hA] at hread hheight
    have hsize : A.starts.size = A.height + 1 := by
      have hpos := height_pos_of_not_readable hA
      unfold height at *
      omega
    -- The rows that were there stay as they are.
    have hstart : ∀ i ≤ A.height,
        (⟨A.cols, A.starts.push 0, A.columns, A.values⟩ : SparseMatrix Extended).start i =
          A.start i := by
      intro i hi
      simp [start, Array.getElem?_push, show i ≠ A.starts.size by omega]
    refine ⟨fun i hi => ?_, fun row hrow => ?_⟩
    · have hbound := hread.1 i (by omega)
      rwa [hstart i (by omega), hstart (i + 1) (by omega)] at hbound
    · obtain ⟨i, hi, rfl⟩ := List.mem_map.mp hrow
      rw [List.mem_range] at hi
      refine hread.2 _ (List.mem_map.mpr ⟨i, List.mem_range.mpr (by omega), ?_⟩)
      rw [row, row, rowColumns, rowColumns, rowValues, rowValues, hstart i (by omega),
        hstart (i + 1) (by omega)]

/-- A multiple of the last row is added to the coordinate. -/
theorem applyTranspose_pushUnit (hA : A.Readable) {y : List Extended} (hy : y.length = A.height)
    (v : Extended) :
    (A.pushUnit j).applyTranspose (y ++ [v]) = (A.applyTranspose y).modify j (· + v) := by
  have hlen : A.rows.length = y.length := by simp [rows, hy]
  unfold applyTranspose
  rw [cols_pushUnit, pushUnit_of_readable hA, rows_ofRows, List.zip_append hlen,
    List.foldl_append]
  simp [Vec.scatter, -one_eq, Extended.one_mul]

end SparseMatrix

/-! ## Multipliers -/

section Multipliers

variable {n m j : ℕ} {t : Extended} {a b : List Extended}

theorem Vec.blend_append_singleton (h : a.length = b.length) (u v : Extended) :
    Vec.blend t (a ++ [u]) (b ++ [v]) = Vec.blend t a b ++ [t * u + (1 - t) * v] := by
  simp [Vec.blend, List.zipWith_append h]

theorem Vec.coord_blend (ha : j < a.length) (hb : j < b.length) :
    Vec.coord (Vec.blend t a b) j = t * Vec.coord a j + (1 - t) * Vec.coord b j :=
  Vec.coord_zipWith _ ha hb

theorem Vec.blend_set_zero (ht : t.IsReal) (j : ℕ) :
    Vec.blend t (a.set j 0) (b.set j 0) = (Vec.blend t a b).set j 0 := by
  obtain ⟨r, rfl⟩ := ht
  apply List.ext_getElem
  · simp [Vec.blend]
  · intro i _ _
    by_cases hij : j = i
    · subst hij
      simp [Vec.blend]
    · simp [Vec.blend, List.getElem_set_ne hij]

end Multipliers

namespace Nonlinear

open SparseMatrix

theorem lagrangianGradient_recast {gradF : List Extended} {jac : SparseMatrix Extended}
    {lam : Multipliers Extended} {j : ℕ} (hjac : jac.Readable)
    (hlg : lam.g.length = jac.height) (hlx : j < lam.x.length) :
    lagrangianGradient gradF (jac.pushUnit j) (lam.recast j) =
      lagrangianGradient gradF jac lam := by
  unfold lagrangianGradient Multipliers.recast
  rw [applyTranspose_pushUnit hjac hlg]
  apply List.ext_getElem
  · simp
  · intro i hi _
    by_cases hij : j = i
    · subst hij
      simp [Vec.coord, hlx, -zero_eq, Extended.add_zero, Extended.add_assoc]
    · simp [List.getElem_modify_ne, hij, List.getElem_set_ne hij]

/-- The penalty dominates the same multipliers. -/
theorem nextSigma_recast {sol : QuadraticSolution Extended} {j : ℕ} (hj : j < sol.lamX.length)
    (sigma : Extended) : Task.nextSigma sigma (sol.recast j) = Task.nextSigma sigma sol := by
  have hfactor : (1.01 : Extended) = ((1.01 : ℝ) : Extended) := rfl
  have hpos : (0 : ℝ) < 1.01 := by norm_num
  unfold Task.nextSigma QuadraticSolution.recast
  dsimp only
  rw [Vec.normInf_append_singleton, Vec.normInf_eq_maxNum hj, hfactor, real_mul_maxNum hpos,
    real_mul_maxNum hpos]
  ac_rfl

end Nonlinear

end SeqQuad
