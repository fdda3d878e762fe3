import Mathlib.LinearAlgebra.Matrix.Gershgorin
import SeqQuad.Proofs.Curvature.Shift
import SeqQuad.Proofs.Nonlinear.Quadratic

/-!
# Gershgorin circles of a conditioned Hessian

Conditioning a Hessian joins its pattern with the diagonal, with increasing columns in every row.
The row bounds are then the lower ends of the circles of the dense matrix, the shift is the least
one that leaves none of them negative, and a symmetric matrix all of whose circles lie above zero
has no negative curvature.
-/

namespace SeqQuad

open Extended Matrix

namespace SparseMatrix

/-! ## Rows with increasing columns -/

section Increasing

variable {row : List (ℕ × Extended)}

/-- A sum over the stored entries of a row is one over all columns, when no column is stored twice
and nothing comes from a zero. -/
theorem Increasing.sum_eq {n : ℕ} (hinc : Increasing row) (hcol : ∀ e ∈ row, e.1 < n)
    (g : ℕ → ℝ → ℝ) (hg : ∀ j, g j 0 = 0) :
    (row.map fun e => g e.1 e.2.toReal).sum = ∑ j : Fin n, g j (rowEntry row j) := by
  induction row with
  | nil => simp [hg]
  | cons e row ih =>
      obtain ⟨hlt, hinc⟩ := List.pairwise_cons.mp hinc
      obtain ⟨he, hcol⟩ := List.forall_mem_cons.mp hcol
      have hlast : rowEntry row e.1 = 0 := rowEntry_eq_zero fun e' he' => (hlt e' he').ne'
      have hsplit : ∀ j : ℕ, g j (rowEntry (e :: row) j) =
          (if e.1 = j then g j e.2.toReal else 0) + g j (rowEntry row j) := by
        intro j
        rw [rowEntry_cons]
        by_cases hj : e.1 = j
        · subst hj
          simp [hlast, hg]
        · simp [hj]
      have hsingle : ∑ j : Fin n, (if e.1 = j then g j e.2.toReal else 0) =
          g e.1 e.2.toReal := by
        rw [Finset.sum_eq_single ⟨e.1, he⟩]
        · simp
        · exact fun j _ hj => if_neg fun h => hj (Fin.ext h.symm)
        · simp
      simp only [hsplit, Finset.sum_add_distrib, hsingle]
      rw [List.map_cons, List.sum_cons, ih hinc hcol]

end Increasing

end SparseMatrix

/-! ## Dominant diagonals -/

namespace Gershgorin

/-- The shifts of the diagonal that leave the lower end of no circle negative. -/
def sufficient {n : ℕ} (H : Matrix (Fin n) (Fin n) ℝ) : Set ℝ :=
  {s | 0 ≤ s ∧ ∀ i, 0 ≤ H i i + s - ∑ j ∈ Finset.univ.erase i, |H i j|}

section Dominant

variable {n : ℕ} {H : Matrix (Fin n) (Fin n) ℝ}

/-- A symmetric matrix whose circles reach no negative number has no negative curvature. -/
theorem posSemidef_of_sufficient (hH : H.IsSymm) (h : (0 : ℝ) ∈ sufficient H) :
    H.PosSemidef := by
  have hherm : H.IsHermitian := by
    rw [IsHermitian, conjTranspose_eq_transpose_of_trivial]
    exact hH
  rw [hherm.posSemidef_iff_eigenvalues_nonneg]
  intro i
  have heigen : Module.End.HasEigenvalue (toLin' H) (hherm.eigenvalues i) := by
    rw [Module.End.hasEigenvalue_iff_mem_spectrum, spectrum_toLin']
    exact hherm.eigenvalues_mem_spectrum_real i
  obtain ⟨k, hk⟩ := eigenvalue_mem_ball heigen
  rw [Metric.mem_closedBall, Real.dist_eq] at hk
  simp only [Real.norm_eq_abs] at hk
  have hlower := neg_le_of_abs_le hk
  have hdom := h.2 k
  show 0 ≤ hherm.eigenvalues i
  linarith

/-- After a sufficient shift no other is needed. -/
theorem zero_mem_sufficient_add {s : ℝ} (h : s ∈ sufficient H) :
    (0 : ℝ) ∈ sufficient (H + s • (1 : Matrix (Fin n) (Fin n) ℝ)) := by
  refine ⟨le_rfl, fun i => ?_⟩
  have hrow : ∑ j ∈ Finset.univ.erase i, |(H + s • (1 : Matrix (Fin n) (Fin n) ℝ)) i j| =
      ∑ j ∈ Finset.univ.erase i, |H i j| := by
    refine Finset.sum_congr rfl fun j hj => ?_
    simp [one_apply_ne (Finset.ne_of_mem_erase hj).symm]
  rw [hrow]
  simpa using h.2 i

end Dominant

end Gershgorin

namespace Gershgorin

open SparseMatrix

/-- The bound of a row with increasing columns is the lower end of its circle. -/
theorem rowBound_eq {n : ℕ} {row : List (ℕ × Extended)} (hinc : Increasing row)
    (hcol : ∀ e ∈ row, e.1 < n) (hrow : ∀ e ∈ row, e.2.IsReal) (i : Fin n) :
    rowBound i row =
      real (rowEntry row i - ∑ j ∈ Finset.univ.erase i, |rowEntry row j|) := by
  have hl : Vec.IsReal
      (row.map fun e => if (i : ℕ) = e.1 then e.2 else -Scalar.magnitude e.2) := by
    intro a ha
    obtain ⟨e, he, rfl⟩ := List.mem_map.mp ha
    obtain ⟨v, hv⟩ := hrow e he
    rw [hv]
    split <;> simp
  have hterms : (row.map fun e => if (i : ℕ) = e.1 then e.2 else -Scalar.magnitude e.2).map
      toReal = row.map fun e => (fun j v => if (i : ℕ) = j then v else -|v|) e.1 e.2.toReal := by
    rw [List.map_map]
    apply List.map_congr_left
    intro e he
    obtain ⟨v, hv⟩ := hrow e he
    by_cases hie : (i : ℕ) = e.1 <;> simp [hie, hv]
  rw [rowBound, Vec.sum_eq hl, hterms,
    hinc.sum_eq hcol (fun j v => if (i : ℕ) = j then v else -|v|) (by simp), real_inj,
    ← Finset.add_sum_erase _ _ (Finset.mem_univ i), if_pos rfl, sub_eq_add_neg,
    ← Finset.sum_neg_distrib]
  congr 1
  refine Finset.sum_congr rfl fun j hj => if_neg fun hij => ?_
  exact (Finset.ne_of_mem_erase hj) (Fin.ext hij.symm)

/-- On rows with increasing columns the shift is the least that suffices for the dense matrix. -/
theorem isLeast_shift_dense {n : ℕ} {A : SparseMatrix Extended} (hreal : A.IsReal)
    (hheight : A.height = n) (hinc : ∀ i < n, Increasing (A.row i))
    (hcol : ∀ i < n, ∀ e ∈ A.row i, e.1 < n) :
    ∃ r : ℝ, shift A = r ∧ IsLeast (sufficient (A.dense n n)) r := by
  obtain ⟨r, hr, hleast⟩ := isLeast_shift hreal
  refine ⟨r, hr, ?_⟩
  convert hleast using 1
  ext s
  refine and_congr_right fun _ => ⟨fun h i hi => ?_, fun h i => ?_⟩
  · have hi' : i < n := hheight ▸ hi
    have hbound := h ⟨i, hi'⟩
    rw [rowBound_eq (hinc i hi') (hcol i hi') (hreal.row i) ⟨i, hi'⟩, real_le_real]
    simp only [dense, of_apply] at hbound
    linarith
  · have hbound := h i (hheight ▸ i.isLt)
    rw [rowBound_eq (hinc i i.isLt) (hcol i i.isLt) (hreal.row i) i, real_le_real] at hbound
    simp only [dense, of_apply]
    linarith

/-- A matrix that needs no shift is left as it is. -/
theorem regularize_eq_self {n : ℕ} {A : SparseMatrix Extended} (hreal : A.IsReal)
    (hheight : A.height = n) (hinc : ∀ i < n, Increasing (A.row i))
    (hcol : ∀ i < n, ∀ e ∈ A.row i, e.1 < n) (h : (0 : ℝ) ∈ sufficient (A.dense n n)) :
    regularize A = (A, 0) := by
  obtain ⟨r, hr, hleast⟩ := isLeast_shift_dense hreal hheight hinc hcol
  obtain rfl : r = 0 := le_antisymm (hleast.2 h) hleast.1.1
  simp [regularize, hr]

/-- The shift leaves the columns of every row. -/
theorem columns_regularize {α : Type} [Scalar α] {A : SparseMatrix α}
    (hA : A = ofRows A.cols A.rows) :
    (regularize A).1 = ofRows A.cols (regularize A).1.rows ∧
      ∀ i < A.height, ((regularize A).1.row i).map Prod.fst = (A.row i).map Prod.fst := by
  by_cases hpos : 0 < shift A
  · have hfst : (regularize A).1 = A.shiftDiagonal (shift A) := if_pos hpos
    rw [hfst]
    constructor
    · conv_lhs => rw [hA, shiftDiagonal_ofRows]
      rw [hA, shiftDiagonal_ofRows, rows_ofRows, cols_ofRows, rows_ofRows]
    · intro i hi
      have hi' : i < A.rows.length := by simpa [rows] using hi
      conv_lhs => rw [hA, shiftDiagonal_ofRows, row_ofRows _ _ (by simpa using hi')]
      simp [row_eq_getElem hi', Function.comp_def]
  · have hfst : (regularize A).1 = A := if_neg hpos
    rw [hfst]
    exact ⟨hA, fun _ _ => rfl⟩

end Gershgorin

/-! ## Conditioned Hessians -/

namespace Nonlinear

open SparseMatrix

theorem mem_columns_withDiagonal {α : Type} [Scalar α] {A B : SparseMatrix α} (hA : A.WellFormed)
    (h : A.withDiagonal? = some B) {i : ℕ} (hi : i < A.height) (hc : i < A.cols) {j : ℕ} :
    j ∈ (B.row i).map Prod.fst ↔ j ∈ (A.row i).map Prod.fst ∨ j = i := by
  rw [row_withDiagonal hA h hi, mem_map_fst_gather, joinedRow, if_pos hc]
  simp [or_and_right, exists_or, eq_comm]

/-- Conditioning keeps the columns of every row of the matrix joined with its diagonal. -/
theorem columns_conditioned {α : Type} [Scalar α] {regularize : Bool} {h b : SparseMatrix α}
    {r : α} (hcond : conditioned? regularize h = some (b, r)) :
    ∃ d, h.withDiagonal? = some d ∧ b = ofRows d.cols b.rows ∧
      ∀ i < d.height, (b.row i).map Prod.fst = (d.row i).map Prod.fst := by
  obtain ⟨d, hd, hb⟩ := Option.map_eq_some_iff.mp hcond
  refine ⟨d, hd, ?_⟩
  have hrows := (withDiagonal_eq_ofRows hd).1
  cases regularize with
  | false =>
      obtain ⟨rfl, -⟩ := Prod.mk.inj hb
      exact ⟨hrows, fun _ _ => rfl⟩
  | true =>
      obtain ⟨rfl, -⟩ := Prod.mk.inj (show Gershgorin.regularize d = (b, r) from hb)
      exact Gershgorin.columns_regularize hrows

/-- A Hessian on the pattern of `h` joined with the diagonal, with every position stored once, that
stands for `H` plus a multiple of the identity. -/
structure Conditions {n : ℕ} (h : SparseMatrix Extended) (H : Matrix (Fin n) (Fin n) ℝ)
    (b : SparseMatrix Extended) (shift : ℝ) : Prop where
  wellFormed : b.WellFormed
  real : b.IsReal
  height : b.height = n
  cols : b.cols = n
  increasing : ∀ i < n, Increasing (b.row i)
  pattern : ∀ i < n, ∀ j, j ∈ (b.row i).map Prod.fst ↔ j ∈ (h.row i).map Prod.fst ∨ j = i
  dense : b.dense n n = H + shift • (1 : Matrix (Fin n) (Fin n) ℝ)

/-- The shift is the least that suffices, leaves no negative curvature, and leaves nothing to a
second one. -/
structure Regularizes {n : ℕ} (H : Matrix (Fin n) (Fin n) ℝ) (b : SparseMatrix Extended)
    (shift : ℝ) : Prop where
  least : IsLeast (Gershgorin.sufficient H) shift
  curvature : ∀ x : Fin n → ℝ, 0 ≤ x ⬝ᵥ (H + shift • (1 : Matrix (Fin n) (Fin n) ℝ)) *ᵥ x
  settled : Gershgorin.regularize? b = some (b, 0)

section Conditioned

variable {n : ℕ} {h b : SparseMatrix Extended} {H : Matrix (Fin n) (Fin n) ℝ}

theorem Conditions.col_lt {s : ℝ} (hb : Conditions h H b s) : ∀ i < n, ∀ e ∈ b.row i, e.1 < n := by
  intro i hi e he
  have hlt := hb.wellFormed.readable.col_lt (hb.height.symm ▸ hi) e he
  rwa [hb.cols] at hlt

theorem Represents.conditions (hrep : Represents h H) {regularize : Bool} {r : Extended}
    (hcond : conditioned? regularize h = some (b, r)) : Conditions h H b r.toReal := by
  have hh := hrep.wellFormed
  obtain ⟨hheight, hcols, hread⟩ := shape_conditioned hh hcond
  obtain ⟨d, hd, hrows, hcolumns⟩ := columns_conditioned hcond
  obtain ⟨-, hdheight, -⟩ := withDiagonal_eq_ofRows hd
  have hi : ∀ {i}, i < n → i < h.height := fun hi => hrep.height.symm ▸ hi
  have hrow : ∀ i < n, (b.row i).map Prod.fst = (d.row i).map Prod.fst :=
    fun i hin => hcolumns i (hdheight.symm ▸ hi hin)
  refine {
    wellFormed := ?_
    real := (isReal_conditioned hh hrep.real hcond).1
    height := hheight.trans hrep.height
    cols := hcols.trans hrep.cols
    increasing := fun i hin => ?_
    pattern := fun i hin j => ?_
    dense := ?_ }
  · rw [hrows] at hread ⊢
    exact wellFormed_ofRows (readable_ofRows_iff.mp hread)
  · have hinc := increasing_withDiagonal hh hd (hi hin)
    rw [Increasing, ← List.pairwise_map (R := (· < ·))] at hinc ⊢
    rwa [hrow i hin]
  · rw [hrow i hin]
    exact mem_columns_withDiagonal hh hd (hi hin) (hrep.cols.symm ▸ hin)
  · rw [dense_conditioned hh hrep.real hrep.height hrep.cols hcond, hrep.dense]

theorem Represents.regularizes (hrep : Represents h H) (hsymm : H.IsSymm) {r : Extended}
    (hcond : conditioned? true h = some (b, r)) : Regularizes H b r.toReal := by
  have hb := hrep.conditions hcond
  obtain ⟨d, hd, hreg⟩ := Option.map_eq_some_iff.mp hcond
  have hjoined : conditioned? false h = some (d, 0) := Option.map_eq_some_iff.mpr ⟨d, hd, rfl⟩
  have hunshifted := hrep.conditions hjoined
  have hdense : d.dense n n = H := by simpa using hunshifted.dense
  obtain ⟨s, hs, hleast⟩ := Gershgorin.isLeast_shift_dense hunshifted.real hunshifted.height
    hunshifted.increasing hunshifted.col_lt
  obtain rfl : r = s := (Prod.mk.inj hreg).2.symm.trans hs
  rw [hdense] at hleast
  have hzero := Gershgorin.zero_mem_sufficient_add hleast.1
  refine ⟨hleast, fun x => ?_, ?_⟩
  · have hsymm' : (H + s • (1 : Matrix (Fin n) (Fin n) ℝ)).IsSymm :=
      hsymm.add (isSymm_one.smul s)
    simpa using (Gershgorin.posSemidef_of_sufficient hsymm' hzero).dotProduct_mulVec_nonneg x
  · have hslice : b.Sliceable := by
      rw [hb.wellFormed.eq_ofRows_rows]
      exact sliceable_ofRows _ _
    have hself := Gershgorin.regularize_eq_self hb.real hb.height hb.increasing hb.col_lt
      (hb.dense.symm ▸ hzero)
    exact (if_pos hslice).trans (congrArg some hself)

end Conditioned

/-- The exact Hessian of a run has increasing columns on the pattern of the answer joined with the
diagonal. When it is regularized, the shift is the least that leaves no circle below zero and the
result has no negative curvature; when not, it stands for the answer. -/
theorem Task.hessianAt_conditions (t : Task Extended) (hess : LagrangianHessian Extended)
    (m : Moment) (x lam : List Extended) {h : SparseMatrix Extended}
    {H : Matrix (Fin t.problem.variableCount) (Fin t.problem.variableCount) ℝ}
    (hanswer : hess m x lam 1 = .ok h) (hrep : Represents h H) (hsymm : H.IsSymm) :
    ∃ b shift, (t.hessianAt hess m x lam).outcome = .ok (b, real shift) ∧
      Conditions h H b shift ∧
        if t.options.regularize then Regularizes H b shift else shift = 0 := by
  obtain ⟨⟨b, r⟩, hcond⟩ := conditioned_isSome t.options.regularize hrep.wellFormed hrep.room
  obtain ⟨s, rfl⟩ := (isReal_conditioned hrep.wellFormed hrep.real hcond).2
  refine ⟨b, s, hessianAt_eq_ok.mpr ⟨h, hanswer, hrep.height, hrep.cols, hcond⟩,
    hrep.conditions hcond, ?_⟩
  split
  case isTrue hreg =>
    rw [hreg] at hcond
    exact hrep.regularizes hsymm hcond
  case isFalse hreg =>
    rw [Bool.not_eq_true] at hreg
    rw [hreg] at hcond
    obtain ⟨d, -, hd⟩ := Option.map_eq_some_iff.mp hcond
    exact (real_inj.mp (Prod.mk.inj hd).2).symm

section Saddle

/-- Columns out of order, one position of the first row stored twice, no diagonal in the second.
-/
noncomputable def saddleHessian : SparseMatrix Extended :=
  .ofRows 2 [[(1, real 1), (0, real 1), (0, real (-1))], [(0, real 1)]]

def saddleMatrix : Matrix (Fin 2) (Fin 2) ℝ :=
  !![0, 1; 1, 0]

/-- Two variables and no constraints. -/
noncomputable def saddleTask : Task Extended where
  problem := {
    objective := ⟨fun _ _ => .ok 0, fun _ _ => .ok (0, [0, 0])⟩
    constraints := none
    hessian := some fun _ _ _ _ => .ok saddleHessian
    x0 := [0, 0]
    xmin := [negInf, negInf]
    xmax := [posInf, posInf]
    gmin := []
    gmax := []
    multipliers := none }
  curvature := .exact fun _ _ _ _ => .ok saddleHessian
  options := { Options.default with regularize := true, hessian := .exact }
  backend := fun _ _ _ => .fail (.fault .index)
  callback := none

theorem saddle_represents : Represents saddleHessian saddleMatrix where
  wellFormed := wellFormed_ofRows (by simp +contextual [or_imp])
  real := isReal_of_rows (by simp +contextual [or_imp])
  height := rfl
  cols := rfl
  dense := by
    have hfirst : saddleHessian.row 0 = [(1, real 1), (0, real 1), (0, real (-1))] := rfl
    have hsecond : saddleHessian.row 1 = [(0, real 1)] := rfl
    funext i j
    fin_cases i <;> fin_cases j <;>
      norm_num [dense, saddleMatrix, hfirst, hsecond, rowEntry]
  room := by decide

theorem saddle_least : IsLeast (Gershgorin.sufficient saddleMatrix) 1 := by
  refine ⟨⟨by norm_num, fun i => ?_⟩, fun s hs => ?_⟩
  · fin_cases i <;> simp [saddleMatrix]
  · have hsecond := hs.2 1
    simp [saddleMatrix] at hsecond
    linarith

/-- Both rows of a saddle reach down to minus one, so that it is shifted by one. -/
theorem saddle_shifted : ∃ b,
    (saddleTask.hessianAt (fun _ _ _ _ => .ok saddleHessian) ⟨0, 0⟩ [0, 0] []).outcome =
        .ok (b, real 1) ∧
      Conditions saddleHessian saddleMatrix b 1 ∧ Regularizes saddleMatrix b 1 := by
  have hsymm : saddleMatrix.IsSymm := by
    ext i j
    fin_cases i <;> fin_cases j <;> rfl
  obtain ⟨b, shift, hok, hb, hreg⟩ := saddleTask.hessianAt_conditions
    (fun _ _ _ _ => .ok saddleHessian) ⟨0, 0⟩ [0, 0] [] rfl saddle_represents hsymm
  have hreg' : Regularizes saddleMatrix b shift := hreg
  obtain rfl : shift = 1 := hreg'.least.unique saddle_least
  exact ⟨b, hok, hb, hreg'⟩

end Saddle

end Nonlinear

end SeqQuad
