import Mathlib

/-!
# The rank-two update of a positive definite matrix

The matrix that the BFGS formula leads to is positive definite as soon as the matrix before is
and the curvature along the step is positive. Removing from a vector its part along the step, in
the inner product of the matrix, leaves the quadratic form that the formula subtracts to.
-/

namespace SeqQuad.Bfgs

open Matrix

variable {n : ℕ} {B : Matrix (Fin n) (Fin n) ℝ} {s y : Fin n → ℝ}

noncomputable def rankTwo (B : Matrix (Fin n) (Fin n) ℝ) (s y : Fin n → ℝ) :
    Matrix (Fin n) (Fin n) ℝ :=
  B + (1 / (s ⬝ᵥ y)) • vecMulVec y y -
    (1 / (s ⬝ᵥ B *ᵥ s)) • vecMulVec (B *ᵥ s) (B *ᵥ s)

theorem dotProduct_mulVec_comm (hB : B.IsHermitian) (u v : Fin n → ℝ) :
    u ⬝ᵥ B *ᵥ v = v ⬝ᵥ B *ᵥ u := by
  have ht : Bᵀ = B := isHermitian_iff_isSymm.mp hB
  rw [dotProduct_mulVec, ← mulVec_transpose, ht, dotProduct_comm]

theorem isHermitian_rankTwo (hB : B.IsHermitian) : (rankTwo B s y).IsHermitian := by
  have houter : ∀ (c : ℝ) (u : Fin n → ℝ), (c • vecMulVec u u).IsHermitian := by
    intro c u
    ext i j
    simp [vecMulVec_apply, mul_comm]
  exact (hB.add (houter _ _)).sub (houter _ _)

theorem vecMulVec_mulVec_self (u v : Fin n → ℝ) : vecMulVec u u *ᵥ v = (v ⬝ᵥ u) • u := by
  rw [dotProduct_comm]
  funext i
  simp only [mulVec, dotProduct, vecMulVec_apply, Pi.smul_apply, smul_eq_mul, Finset.sum_mul]
  apply Finset.sum_congr rfl
  intro j _
  ring

theorem dotProduct_vecMulVec (c : ℝ) (u v : Fin n → ℝ) :
    v ⬝ᵥ (c • vecMulVec u u) *ᵥ v = c * (v ⬝ᵥ u) ^ 2 := by
  rw [smul_mulVec, vecMulVec_mulVec_self, dotProduct_smul, dotProduct_smul, smul_eq_mul,
    smul_eq_mul, sq]

/-- An outer product over the curvature along the step gives the vector back. -/
theorem outer_mulVec {v u : Fin n → ℝ} (h : v ⬝ᵥ u ≠ 0) :
    (1 / (v ⬝ᵥ u)) • vecMulVec u u *ᵥ v = u := by
  rw [vecMulVec_mulVec_self, smul_smul, one_div_mul_cancel h, one_smul]

/-- The secant equation: along the step the update turns the old product into `y`. -/
theorem rankTwo_mulVec (hs : s ⬝ᵥ B *ᵥ s ≠ 0) (hy : s ⬝ᵥ y ≠ 0) : rankTwo B s y *ᵥ s = y := by
  rw [rankTwo, sub_mulVec, add_mulVec, smul_mulVec, smul_mulVec, outer_mulVec hy,
    outer_mulVec hs, add_sub_cancel_left]

/-- The quadratic form after the update. -/
theorem quadForm_rankTwo (v : Fin n → ℝ) :
    v ⬝ᵥ rankTwo B s y *ᵥ v =
      v ⬝ᵥ B *ᵥ v + 1 / (s ⬝ᵥ y) * (v ⬝ᵥ y) ^ 2 -
        1 / (s ⬝ᵥ B *ᵥ s) * (v ⬝ᵥ B *ᵥ s) ^ 2 := by
  rw [rankTwo, sub_mulVec, add_mulVec, dotProduct_sub, dotProduct_add, dotProduct_vecMulVec,
    dotProduct_vecMulVec]

/-- The quadratic form of what is left of a vector without its part along the step. -/
theorem quadForm_remainder (hB : B.IsHermitian) (hs : s ⬝ᵥ B *ᵥ s ≠ 0) (v : Fin n → ℝ) :
    (v - ((v ⬝ᵥ B *ᵥ s) / (s ⬝ᵥ B *ᵥ s)) • s) ⬝ᵥ
        B *ᵥ (v - ((v ⬝ᵥ B *ᵥ s) / (s ⬝ᵥ B *ᵥ s)) • s) =
      v ⬝ᵥ B *ᵥ v - 1 / (s ⬝ᵥ B *ᵥ s) * (v ⬝ᵥ B *ᵥ s) ^ 2 := by
  have hcomm := dotProduct_mulVec_comm hB s v
  simp only [mulVec_sub, mulVec_smul, sub_dotProduct, dotProduct_sub, smul_dotProduct,
    dotProduct_smul, smul_eq_mul, hcomm]
  field_simp
  ring

theorem posDef_rankTwo (hB : B.PosDef) (hs : 0 < s ⬝ᵥ B *ᵥ s) (hy : 0 < s ⬝ᵥ y) :
    (rankTwo B s y).PosDef := by
  apply PosDef.of_dotProduct_mulVec_pos (isHermitian_rankTwo hB.isHermitian)
  intro v hv
  rw [star_trivial, quadForm_rankTwo]
  have hremainder := quadForm_remainder hB.isHermitian hs.ne' v
  have hgain : 0 ≤ 1 / (s ⬝ᵥ y) * (v ⬝ᵥ y) ^ 2 := by positivity
  by_cases hw : v - ((v ⬝ᵥ B *ᵥ s) / (s ⬝ᵥ B *ᵥ s)) • s = 0
  · -- Along the step nothing is left of the old form, and the new curvature is positive.
    have halong : v = ((v ⬝ᵥ B *ᵥ s) / (s ⬝ᵥ B *ᵥ s)) • s := sub_eq_zero.mp hw
    have hne : (v ⬝ᵥ B *ᵥ s) / (s ⬝ᵥ B *ᵥ s) ≠ 0 := by
      intro hzero
      rw [hzero, zero_smul] at halong
      exact hv halong
    have hvy : v ⬝ᵥ y = (v ⬝ᵥ B *ᵥ s) / (s ⬝ᵥ B *ᵥ s) * (s ⬝ᵥ y) := by
      conv_lhs => rw [halong]
      rw [smul_dotProduct, smul_eq_mul]
    rw [hw, zero_dotProduct] at hremainder
    have hpos : 0 < 1 / (s ⬝ᵥ y) * (v ⬝ᵥ y) ^ 2 := by
      have hvy0 : v ⬝ᵥ y ≠ 0 := by
        rw [hvy]
        exact mul_ne_zero hne hy.ne'
      positivity
    linarith
  · have hpos := hB.dotProduct_mulVec_pos hw
    rw [star_trivial, hremainder] at hpos
    linarith

/-- The diagonal of a positive definite matrix is positive definite. -/
theorem posDef_diagonal_diag (hB : B.PosDef) : (diagonal B.diag).PosDef :=
  PosDef.diagonal fun _ => hB.diag_pos

end SeqQuad.Bfgs
