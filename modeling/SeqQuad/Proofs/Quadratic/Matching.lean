import SeqQuad.Proofs.Alike
import SeqQuad.Proofs.Exact.Carried
import SeqQuad.Proofs.Quadratic.Dimensions
import SeqQuad.Proofs.Quadratic.Regular

/-!
# Sides in another order

Two tasks with the same Hessian and gradient, whose sides are the same but for their order and for
the signs of equalities, run in step: what one has at a position the other has where the sides
match, and every number that decides over the run is the same for both.
-/

namespace SeqQuad.InteriorPoint

open Extended Matrix Scalar SparseMatrix

/-! ## Matching sides -/

/-- The same inequalities in another order, and the same equalities in another order and up to
their signs. -/
structure Matching (S S' : Sides Extended) where
  equality : Fin S.equalities.length ≃ Fin S'.equalities.length
  inequality : Fin S.inequalities.length ≃ Fin S'.inequalities.length
  sign : Fin S.equalities.length → ℝ
  sign_mul_sign : ∀ k, sign k * sign k = 1
  equality_coef : ∀ k (j : ℕ), rowEntry (S'.equalities.get (equality k)).coef j =
    sign k * rowEntry (S.equalities.get k).coef j
  equality_rhs : ∀ k, (S'.equalities.get (equality k)).rhs.toReal =
    sign k * (S.equalities.get k).rhs.toReal
  inequality_coef : ∀ k, (S'.inequalities.get (inequality k)).coef = (S.inequalities.get k).coef
  inequality_rhs : ∀ k, (S'.inequalities.get (inequality k)).rhs = (S.inequalities.get k).rhs

/-- The same program with other sides. -/
abbrev Task.withSides (task : Task Extended) (S : Sides Extended) : Task Extended :=
  { task with sides := S }

/-- Iterates of which one has at matching positions what the other has. -/
structure Matching.Carries {S S' : Sides Extended} (m : Matching S S')
    (it it' : Iterate Extended) : Prop where
  x : it'.x = it.x
  lam : Vec.Carried m.equality m.sign it.lam it'.lam
  z : Vec.Carried m.inequality 1 it.z it'.z
  mu : Vec.Carried m.inequality 1 it.mu it'.mu
  gamma : it'.gamma = it.gamma
  f : it'.f = it.f
  residuals : it'.residuals = it.residuals

section Matching

variable {task : Task Extended} {S' : Sides Extended} (m : Matching task.sides S')
  (h : task.Exact) (h' : (task.withSides S').Exact)

/-! ## Residuals -/

theorem Matching.equalityRows_apply (k : Fin task.sides.equalities.length)
    (j : Fin task.qp.variableCount) :
    (task.withSides S').equalityRows (m.equality k) j = m.sign k * task.equalityRows k j := by
  rw [Task.equalityRows, Task.equalityRows, denseRows_sides, denseRows_sides]
  exact m.equality_coef k j

theorem Matching.inequalityRows_apply (k : Fin task.sides.inequalities.length)
    (j : Fin task.qp.variableCount) :
    (task.withSides S').inequalityRows (m.inequality k) j = task.inequalityRows k j := by
  rw [Task.inequalityRows_apply, Task.inequalityRows_apply]
  exact congrArg (rowEntry · j) (m.inequality_coef k)

include h h'

section Point

variable {x : List Extended} (hx : Vec.IsReal x)
include hx

theorem Matching.carried_equalities :
    Vec.Carried m.equality m.sign (task.sides.equalities.map (·.residual x))
      (S'.equalities.map (·.residual x)) where
  real := List.forall_mem_map.mpr fun s hs => (h.equalities s hs).isReal_residual hx
  real' := List.forall_mem_map.mpr fun s hs => (h'.equalities s hs).isReal_residual hx
  length := List.length_map _
  length' := List.length_map _
  reals_eq k := by
    have hside := h.equalities _ (List.getElem_mem k.isLt)
    have hside' := h'.equalities _ (List.getElem_mem (m.equality k).isLt)
    have hcoord : ∀ (l : List (Side Extended)) (i : Fin l.length),
        Vec.coord (l.map (·.residual x)) i = l[(i : ℕ)].residual x := by simp [Vec.coord]
    rw [Vec.reals, Vec.reals, hcoord, hcoord, hside.residual_eq hx, hside'.residual_eq hx,
      toReal_real, toReal_real, ← List.get_eq_getElem, ← List.get_eq_getElem, m.equality_rhs,
      mul_sub, Finset.mul_sum]
    simp only [m.equality_coef, mul_assoc]

theorem Matching.carried_inequalities :
    Vec.Carried m.inequality 1 (task.sides.inequalities.map (·.residual x))
      (S'.inequalities.map (·.residual x)) where
  real := List.forall_mem_map.mpr fun s hs => (h.inequalities s hs).isReal_residual hx
  real' := List.forall_mem_map.mpr fun s hs => (h'.inequalities s hs).isReal_residual hx
  length := List.length_map _
  length' := List.length_map _
  reals_eq k := by
    have hresidual : S'.inequalities[(m.inequality k : ℕ)].residual x =
        task.sides.inequalities[(k : ℕ)].residual x := by
      rw [Side.residual, Side.residual, Side.dot, Side.dot, ← List.get_eq_getElem,
        ← List.get_eq_getElem, m.inequality_coef, m.inequality_rhs]
    simp [Vec.reals, Vec.coord, hresidual]

variable {lam lam' z z' mu mu' : List Extended}
  (hlam : Vec.Carried m.equality m.sign lam lam') (hz : Vec.Carried m.inequality 1 z z')
  (hmu : Vec.Carried m.inequality 1 mu mu')
include hlam hmu

theorem Matching.lagrangianGradient_eq :
    (task.withSides S').lagrangianGradient x lam' mu' = task.lagrangianGradient x lam mu := by
  have hlength : ∀ S : Sides Extended, ∀ x lam mu,
      ((task.withSides S).lagrangianGradient x lam mu).length = task.qp.variableCount := fun S =>
    have hheight : (task.withSides S).qp.h.height = task.qp.variableCount := h.height
    Task.length_lagrangianGradient hheight
  rw [(h.lagrangianGradient_eq hx hlam.real hmu.real).1.eq_ofReals (hlength task.sides _ _ _),
    (h'.lagrangianGradient_eq hx hlam.real' hmu.real').1.eq_ofReals (hlength S' _ _ _),
    h.reals_lagrangianGradient hx hlam.real hmu.real hlam.length hmu.length]
  congr 1
  rw [h'.reals_lagrangianGradient hx hlam.real' hmu.real' hlam.length' hmu.length',
    hlam.transpose_mulVec m.sign_mul_sign m.equalityRows_apply,
    hmu.transpose_mulVec (fun _ => one_mul 1)
      fun k j => (m.inequalityRows_apply k j).trans (one_mul _).symm]
  rfl

include hz

/-- All residuals are the same. -/
theorem Matching.residuals_eq (cost : Extended) :
    (task.withSides S').residuals x lam' z' mu' (S'.inequalities.map (·.residual x))
        (S'.equalities.map (·.residual x)) cost =
      task.residuals x lam z mu (task.sides.inequalities.map (·.residual x))
        (task.sides.equalities.map (·.residual x)) cost := by
  have hg := m.carried_equalities h h' hx
  have hh := m.carried_inequalities h h' hx
  have hlargest : (S'.inequalities.map (·.residual x)).foldl maxNum
        (Vec.normInf (S'.equalities.map (·.residual x))) =
      (task.sides.inequalities.map (·.residual x)).foldl maxNum
        (Vec.normInf (task.sides.equalities.map (·.residual x))) := by
    rw [hg.normInf m.sign_mul_sign, Vec.normInf_eq hg.length hg.real]
    exact Vec.foldl_perm maxNum_real hh.real hh.perm _
  rw [Task.residuals, Task.residuals, m.lagrangianGradient_eq h h' hx hlam hmu, hlargest,
    hz.normInf fun _ => one_mul 1, hmu.normInf fun _ => one_mul 1,
    hlam.normInf m.sign_mul_sign, hz.sum_mul hmu]

theorem Matching.carries_evaluate (gamma : Extended) (cost : Extended → Extended) :
    m.Carries (task.evaluate x lam z mu gamma cost)
      ((task.withSides S').evaluate x lam' z' mu' gamma cost) where
  x := rfl
  lam := hlam
  z := hz
  mu := hmu
  gamma := rfl
  f := rfl
  residuals := m.residuals_eq h h' hx hlam hz hmu _

end Point

theorem Matching.carries_start {opt : Options Extended} {x0 : List Extended}
    (hi : task.Interior (task.start opt x0))
    (hi' : (task.withSides S').Interior ((task.withSides S').start opt x0)) :
    m.Carries (task.start opt x0) ((task.withSides S').start opt x0) := by
  have hslacks : ∀ S : Sides Extended, ((task.withSides S).start opt x0).z =
      (S.inequalities.map (·.residual x0)).map (startSlack opt.z0) := fun S => by
    rw [List.map_map]
    rfl
  have hz : Vec.Carried m.inequality 1 (task.start opt x0).z
      ((task.withSides S').start opt x0).z := by
    have hreal := hi.z.isReal
    have hreal' := hi'.z.isReal
    rw [hslacks task.sides] at hreal
    rw [hslacks S'] at hreal'
    rw [hslacks task.sides, hslacks S']
    exact (m.carried_inequalities h h' hi.x).map hreal hreal'
  have hmu := hz.map hi.mu.isReal hi'.mu.isReal
  exact m.carries_evaluate h h' hi.x (Vec.Carried.zeros _ _) hz hmu 1 fun _ => 0

/-! ## Newton systems -/

section Newton

variable {it it' : Iterate Extended} (hi : task.Posed it) (hi' : (task.withSides S').Posed it')
  (hc : m.Carries it it')

/-- The positions of the reduced system, where the sides match. -/
def Matching.positions : Fin task.qp.variableCount ⊕ Fin task.sides.equalities.length ≃
    Fin task.qp.variableCount ⊕ Fin S'.equalities.length :=
  (Equiv.refl _).sumCongr m.equality

/-- By what the rows and columns of the reduced system differ. -/
noncomputable def Matching.factors :
    Fin task.qp.variableCount ⊕ Fin task.sides.equalities.length → ℝ :=
  Sum.elim 1 m.sign

omit h h' in
theorem Matching.factors_mul_factors (a) : m.factors a * m.factors a = 1 := by
  cases a with
  | inl i => exact one_mul 1
  | inr k => exact m.sign_mul_sign k

variable {m}
include hc

omit h h' in
theorem Matching.Carries.weights_eq (k : Fin task.sides.inequalities.length) :
    (task.withSides S').weights it' (m.inequality k) = task.weights it k := by
  rw [Task.weights, Task.weights, hc.mu.reals_eq, hc.z.reals_eq, Pi.one_apply, one_mul, one_mul]

include hi hi'

theorem Matching.Carries.pulls_eq (k : Fin task.sides.inequalities.length) :
    (task.withSides S').pulls it' (m.inequality k) = task.pulls it k := by
  have hh := (m.carried_inequalities h h' hi.x).reals_eq k
  rw [← hi.h_eq, ← hc.x, ← hi'.h_eq] at hh
  rw [Task.pulls, Task.pulls, hc.mu.reals_eq, hc.z.reals_eq, hh, hc.gamma, Pi.one_apply, one_mul,
    one_mul, one_mul]

omit h h' hi hi' in
/-- The matrices of the reduced systems differ by the order and the signs of the equalities. -/
theorem Matching.Carries.kkt_apply (a b) :
    (task.withSides S').kkt it' (m.positions a) (m.positions b) =
      m.factors a * task.kkt it a b * m.factors b := by
  have hblock : ∀ i j : Fin task.qp.variableCount,
      ((task.withSides S').inequalityRowsᵀ * diagonal ((task.withSides S').weights it') *
        (task.withSides S').inequalityRows) i j =
      (task.inequalityRowsᵀ * diagonal (task.weights it) * task.inequalityRows) i j := by
    intro i j
    rw [mul_apply, mul_apply, ← m.inequality.sum_comp]
    refine Finset.sum_congr rfl fun k _ => ?_
    rw [mul_diagonal, mul_diagonal, transpose_apply, transpose_apply, m.inequalityRows_apply,
      m.inequalityRows_apply, hc.weights_eq]
  rcases a with i | k <;> rcases b with j | l
  · show (task.withSides S').hessian i j + _ = 1 * (task.hessian i j + _) * 1
    rw [hblock, one_mul, mul_one]
    rfl
  · show (task.withSides S').equalityRows (m.equality l) i = 1 * task.equalityRows l i * m.sign l
    rw [m.equalityRows_apply, one_mul, mul_comm]
  · show (task.withSides S').equalityRows (m.equality k) j = m.sign k * task.equalityRows k j * 1
    rw [m.equalityRows_apply, mul_one]
  · show (0 : ℝ) = m.sign k * 0 * m.sign l
    rw [mul_zero, zero_mul]

omit h h' hi hi' in
theorem Matching.Carries.det_kkt :
    ((task.withSides S').kkt it').det = (task.kkt it).det := by
  have hkkt : ((task.withSides S').kkt it').submatrix m.positions m.positions =
      diagonal m.factors * task.kkt it * diagonal m.factors := by
    ext a b
    rw [submatrix_apply, mul_diagonal, diagonal_mul, hc.kkt_apply]
  -- a sign turns one row and one column, so the determinant takes it twice
  have hfactors : (∏ a, m.factors a) * ∏ a, m.factors a = 1 := by
    rw [← Finset.prod_mul_distrib]
    exact Finset.prod_eq_one fun a _ => m.factors_mul_factors a
  rw [← det_submatrix_equiv_self m.positions, hkkt, det_mul, det_mul, det_diagonal]
  linear_combination (task.kkt it).det * hfactors

theorem Matching.Carries.kktSide_apply (a) :
    (task.withSides S').kktSide it' (m.positions a) = m.factors a * task.kktSide it a := by
  have hgradient := m.lagrangianGradient_eq h h' hi.x hc.lam hc.mu
  have hpull : (task.withSides S').inequalityRowsᵀ *ᵥ (task.withSides S').pulls it' =
      task.inequalityRowsᵀ *ᵥ task.pulls it := by
    funext j
    refine (m.inequality.sum_comp _).symm.trans (Finset.sum_congr rfl fun k _ => ?_)
    show (task.withSides S').inequalityRows (m.inequality k) j * _ =
      task.inequalityRows k j * task.pulls it k
    rw [m.inequalityRows_apply, hc.pulls_eq h h' hi hi']
  have hg := (m.carried_equalities h h' hi.x).reals_eq
  rw [← hi.g_eq, ← hc.x, ← hi'.g_eq] at hg
  rcases a with i | k
  · show -(Vec.reals task.qp.variableCount
        ((task.withSides S').lagrangianGradient it'.x it'.lam it'.mu) +
      (task.withSides S').inequalityRowsᵀ *ᵥ (task.withSides S').pulls it') i =
        1 * -(Vec.reals task.qp.variableCount (task.lagrangianGradient it.x it.lam it.mu) +
          task.inequalityRowsᵀ *ᵥ task.pulls it) i
    rw [hc.x, hgradient, hpull, one_mul]
  · show -(Vec.reals _ it'.g (m.equality k)) = m.sign k * -(Vec.reals _ it.g k)
    rw [hg, mul_neg]

/-- Carried back, a solution of the second system solves the first. -/
theorem Matching.Carries.kkt_mulVec
    {v' : Fin task.qp.variableCount ⊕ Fin S'.equalities.length → ℝ}
    (hv' : (task.withSides S').kkt it' *ᵥ v' = (task.withSides S').kktSide it') :
    task.kkt it *ᵥ (fun b => m.factors b * v' (m.positions b)) = task.kktSide it := by
  funext a
  have hrow := congrFun hv' (m.positions a)
  rw [hc.kktSide_apply h h' hi hi', Matrix.mulVec, dotProduct, ← m.positions.sum_comp] at hrow
  simp only [hc.kkt_apply] at hrow
  refine mul_left_cancel₀ (left_ne_zero_of_mul_eq_one (m.factors_mul_factors a)) ?_
  rw [← hrow, Matrix.mulVec, dotProduct, Finset.mul_sum]
  exact Finset.sum_congr rfl fun b _ => by ring

/-- The solutions of regular systems match. -/
theorem Matching.Carries.reduced_carried {r r' : List Extended} (hr : task.Reduces it r)
    (hr' : (task.withSides S').Reduces it' r') (hdet : (task.kkt it).det ≠ 0) :
    r'.take task.qp.variableCount = r.take task.qp.variableCount ∧
      Vec.Carried m.equality m.sign (r.drop task.qp.variableCount)
        (r'.drop task.qp.variableCount) := by
  have hlen := hr.length
  have hlen' : r'.length = task.qp.variableCount + S'.equalities.length := hr'.length
  have hinjective := mulVec_injective_of_isUnit
    ((isUnit_iff_isUnit_det _).mpr (isUnit_iff_ne_zero.mpr hdet))
  have hsame := hinjective ((hc.kkt_mulVec h h' hi hi' hr'.eq).trans hr.eq.symm)
  have hpoint : Vec.reals task.qp.variableCount (r'.take task.qp.variableCount) =
      Vec.reals task.qp.variableCount (r.take task.qp.variableCount) :=
    funext fun j => (one_mul _).symm.trans (congrFun hsame (.inl j))
  have hside : ∀ k, m.sign k * Vec.reals S'.equalities.length (r'.drop task.qp.variableCount)
      (m.equality k) = Vec.reals _ (r.drop task.qp.variableCount) k :=
    fun k => congrFun hsame (.inr k)
  have htake : Vec.IsReal (r.take task.qp.variableCount) :=
    fun a ha => hr.real a (List.mem_of_mem_take ha)
  have htake' : Vec.IsReal (r'.take task.qp.variableCount) :=
    fun a ha => hr'.real a (List.mem_of_mem_take ha)
  refine ⟨?_, {
    real := fun a ha => hr.real a (List.mem_of_mem_drop ha)
    real' := fun a ha => hr'.real a (List.mem_of_mem_drop ha)
    length := by rw [List.length_drop, hlen, Nat.add_sub_cancel_left]
    length' := by rw [List.length_drop, hlen', Nat.add_sub_cancel_left]
    reals_eq := fun k => ?_ }⟩
  · rw [htake.eq_ofReals (n := task.qp.variableCount) (by rw [List.length_take]; omega),
      htake'.eq_ofReals (n := task.qp.variableCount) (by rw [List.length_take]; omega), hpoint]
  · rw [← hside k, ← mul_assoc, m.sign_mul_sign, one_mul]

/-- Matching solutions are of the same size. -/
theorem Matching.Carries.norm_reduced {r r' : List Extended} (hr : task.Reduces it r)
    (hr' : (task.withSides S').Reduces it' r') (hdet : (task.kkt it).det ≠ 0) :
    Vec.norm r' = Vec.norm r := by
  obtain ⟨hpoint, hsides⟩ := hc.reduced_carried h h' hi hi' hr hr' hdet
  have hsame := hsides.dotProduct_self m.sign_mul_sign
  rw [Vec.norm_eq_parts hr.real hr.length, Vec.norm_eq_parts hr'.real hr'.length, hpoint, hsame]

end Newton

end Matching

/-! ## Steps -/

section Lengths

variable {n m : ℕ} {e : Fin n ≃ Fin m} {xi sigma gamma : Extended}
  {v v' dv dv' : List Extended}

theorem stepLength_carried (hxi : xi.IsReal) (hv : Vec.Carried e 1 v v')
    (hdv : Vec.Carried e 1 dv dv') : stepLength xi v' dv' = stepLength xi v dv := by
  obtain ⟨xi, rfl⟩ := hxi
  have hperm := ((hv.zip_perm hdv).filter fun e => e.2 < 0).map
    fun e => (xi : Extended) * (e.1 / -e.2)
  exact Vec.foldl_perm minNum_real (isReal_ratios xi hv.real hdv.real) hperm 1

theorem nextGamma_carried (hv : Vec.Carried e 1 v v') (hdv : Vec.Carried e 1 dv dv') :
    nextGamma sigma gamma v' dv' = nextGamma sigma gamma v dv := by
  have hempty : v'.isEmpty = v.isEmpty := by
    rw [Bool.eq_iff_iff, List.isEmpty_iff_length_eq_zero, List.isEmpty_iff_length_eq_zero,
      hv.length_eq]
  rw [nextGamma, nextGamma, hempty, hv.length_eq, hv.sum_mul hdv]

end Lengths

theorem Progress.failed_congr {opt : Options Extended} {p p' : Progress Extended}
    (hx : p'.iterate.x = p.iterate.x) (hgamma : p'.iterate.gamma = p.iterate.gamma)
    (hprimal : p'.alphaPrimal = p.alphaPrimal) (hdual : p'.alphaDual = p.alphaDual) :
    p'.failed opt = p.failed opt := by
  rw [Progress.failed, Progress.failed, hx, hgamma, hprimal, hdual]

section Step

variable {task : Task Extended} {S' : Sides Extended} {m : Matching task.sides S'}
  {it it' : Iterate Extended} {opt : Options Extended} {n : ℕ}

/-- Directions of which one has at matching positions what the other has. -/
structure Matching.Directs (m : Matching task.sides S') (d d' : Direction Extended) : Prop where
  dx : d'.dx = d.dx
  dlam : Vec.Carried m.equality m.sign d.dlam d'.dlam
  dz : Vec.Carried m.inequality 1 d.dz d'.dz
  dmu : Vec.Carried m.inequality 1 d.dmu d'.dmu

section Direction

variable (h : task.Exact) (h' : (task.withSides S').Exact) (hi : task.Posed it)
  (hi' : (task.withSides S').Posed it') (hc : m.Carries it it')
include h h' hi hi' hc

/-- The expansions of matching solutions match. -/
theorem Matching.Carries.directs {r r' : List Extended}
    (hd : RealDirection task (task.expand it r))
    (hd' : RealDirection (task.withSides S') ((task.withSides S').expand it' r'))
    (hpoint : r'.take task.qp.variableCount = r.take task.qp.variableCount)
    (hsides : Vec.Carried m.equality m.sign (r.drop task.qp.variableCount)
      (r'.drop task.qp.variableCount)) :
    m.Directs (task.expand it r) ((task.withSides S').expand it' r') := by
  have hh := (m.carried_inequalities h h' hi.x).reals_eq
  rw [← hi.h_eq, ← hc.x, ← hi'.h_eq] at hh
  have hdz : Vec.Carried m.inequality 1 (task.expand it r).dz
      ((task.withSides S').expand it' r').dz := {
    real := hd.dz
    real' := hd'.dz
    length := hd.length_dz
    length' := hd'.length_dz
    reals_eq := fun k => by
      have hrow : ((task.withSides S').inequalityRows *ᵥ
          Vec.reals task.qp.variableCount (r'.take task.qp.variableCount)) (m.inequality k) =
          (task.inequalityRows *ᵥ
            Vec.reals task.qp.variableCount (r.take task.qp.variableCount)) k := by
        rw [hpoint]
        exact congrArg (· ⬝ᵥ _) (funext fun j => m.inequalityRows_apply k j)
      have heq := congrFun (hi'.reals_dz h' hd') (m.inequality k)
      have heq' := congrFun (hi.reals_dz h hd) k
      simp only [Pi.sub_apply, Pi.neg_apply, hh, hc.z.reals_eq, Pi.one_apply, one_mul] at heq heq'
      rw [Pi.one_apply, one_mul, heq']
      exact heq.trans (congrArg (_ - ·) hrow) }
  refine ⟨hpoint, hsides, hdz, {
    real := hd.dmu
    real' := hd'.dmu
    length := hd.length_dmu
    length' := hd'.length_dmu
    reals_eq := fun k => ?_ }⟩
  rw [hi.reals_dmu hd, hi'.reals_dmu hd', hc.mu.reals_eq, hc.z.reals_eq, hdz.reals_eq, hc.gamma]
  simp only [Pi.one_apply, one_mul]

omit hi' in
/-- Steps along matching directions are of the same lengths and lead to matching iterates. -/
theorem Matching.Carries.advance (hxi : opt.xi.IsReal) {d d' : Direction Extended}
    (hdx : Vec.IsReal d.dx) (hd : m.Directs d d') :
    m.Carries (task.advance opt it d n).iterate
        ((task.withSides S').advance opt it' d' n).iterate ∧
      ((task.withSides S').advance opt it' d' n).failed opt =
        (task.advance opt it d n).failed opt := by
  have hprimal := stepLength_carried hxi hc.z hd.dz
  have hdual := stepLength_carried hxi hc.mu hd.dmu
  obtain ⟨xi, hxieq⟩ := hxi
  obtain ⟨a, ha⟩ : (stepLength opt.xi it.z d.dz).IsReal :=
    hxieq ▸ isReal_stepLength xi hc.z.real hd.dz.real
  obtain ⟨b, hb⟩ : (stepLength opt.xi it.mu d.dmu).IsReal :=
    hxieq ▸ isReal_stepLength xi hc.mu.real hd.dmu.real
  have hz := hc.z.along hd.dz a
  have hmu := hc.mu.along hd.dmu b
  have hgamma : nextGamma opt.sigma it'.gamma (Vec.along it'.z d'.dz a)
      (Vec.along it'.mu d'.dmu b) = nextGamma opt.sigma it.gamma (Vec.along it.z d.dz a)
        (Vec.along it.mu d.dmu b) := by
    rw [hc.gamma]
    exact nextGamma_carried hz hmu
  have hcarries := m.carries_evaluate h h' (hi.x.along hdx (isReal_real a))
    (hc.lam.along hd.dlam b) hz hmu (nextGamma opt.sigma it.gamma (Vec.along it.z d.dz a)
      (Vec.along it.mu d.dmu b)) (costChange · it.f)
  have hnext : m.Carries (task.advance opt it d n).iterate
      ((task.withSides S').advance opt it' d' n).iterate := by
    rw [Task.advance, Task.advance, hprimal, hdual, ha, hb]
    simp only [hgamma, hc.f, hc.x, hd.dx]
    exact hcarries
  exact ⟨hnext, Progress.failed_congr hnext.x hnext.gamma hprimal hdual⟩

end Direction

/-- Matching systems take the same room. -/
theorem Matching.hasRoom_iff (m : Matching task.sides S') (hi : task.Shaped it)
    (hi' : (task.withSides S').Shaped it') :
    (task.withSides S').HasRoom it' ↔ task.HasRoom it := by
  have hcount : S'.equalities.length = task.sides.equalities.length :=
    (Fin.equiv_iff_eq.mp ⟨m.equality⟩).symm
  have hlength : ((task.withSides S').eliminatedTriplets it').length =
      (task.eliminatedTriplets it).length := by
    rw [hi.length_eliminatedTriplets, hi'.length_eliminatedTriplets, ← Fin.sum_univ_fun_getElem,
      ← Fin.sum_univ_fun_getElem, ← m.inequality.sum_comp]
    simp only [← List.get_eq_getElem, m.inequality_coef]
  rw [Task.HasRoom, Task.HasRoom, List.length_append, List.length_append, hlength, hcount]

/-- Steps that both lead to matching iterates or both fail. -/
inductive Matching.Steps (m : Matching task.sides S') (opt : Options Extended) :
    Except (Failure (Error Extended)) (Progress Extended) →
      Except (Failure (Error Extended)) (Progress Extended) → Prop
  | ok {p p' : Progress Extended} (hi : task.Interior p.iterate)
      (hi' : (task.withSides S').Interior p'.iterate) (hc : m.Carries p.iterate p'.iterate)
      (hfailed : p'.failed opt = p.failed opt) : Steps m opt (.ok p) (.ok p')
  | error (e e' : Error Extended) : Steps m opt (.error (.error e)) (.error (.error e'))
  | fault (f : Fault) : Steps m opt (.error (.fault f)) (.error (.fault f))

/-- Options that are real numbers where the iteration computes with them, and a positive least
slack. -/
structure Options.Sound (opt : Options Extended) : Prop where
  xi : opt.xi.IsReal
  sigma : opt.sigma.IsReal
  z0 : ∃ r : ℝ, 0 < r ∧ opt.z0 = r

theorem Options.Sound.exact (h : opt.Sound) : opt.Exact noSolver :=
  ⟨h.xi, h.sigma, h.z0, .inr fun _ _ _ _ hx => nomatch hx⟩

theorem Options.Sound.fraction (h : opt.Sound) (hacc : opt.Accepted) :
    0 < opt.xi.toReal ∧ opt.xi.toReal < 1 := by
  obtain ⟨hxi1, hxi0⟩ := not_or.mp hacc.fraction
  rw [h.xi.eq, ofScientific_eq, real_lt_real, not_lt] at hxi0
  rw [h.xi.eq, one_eq, real_le_real, not_le] at hxi1
  exact ⟨lt_of_lt_of_le (by norm_num) hxi0, hxi1⟩

section Run

variable (h : task.Exact) (h' : (task.withSides S').Exact) (hwf : task.qp.h.WellFormed)
  (hsymm : task.hessian.IsSymm) {solver : LinearSolver Extended}
  (hregular : solver.SolvesRegular) (hsingular : solver.RefusesSingular) (hopt : opt.Sound)
  (hacc : opt.Accepted)
include h h' hwf hsymm hregular hsingular hopt hacc

/-- Matching iterates step alike. -/
theorem Matching.Carries.step (hi : task.Interior it) (hi' : (task.withSides S').Interior it')
    (hc : m.Carries it it') (n : ℕ) :
    m.Steps opt (task.step opt solver n it) ((task.withSides S').step opt solver n it') := by
  have hroom := m.hasRoom_iff hi.posed.shaped hi'.posed.shaped
  unfold Task.step
  by_cases hfits : task.HasRoom it
  · by_cases hdet : (task.kkt it).det = 0
    · obtain ⟨e, he⟩ := hi.posed.direction_of_singular h hwf hfits hsingular opt n hdet
      obtain ⟨e', he'⟩ := hi'.posed.direction_of_singular h' hwf (hroom.mpr hfits) hsingular opt n
        (hc.det_kkt.trans hdet)
      rw [he, he']
      exact .error _ _
    · have hdet' : ((task.withSides S').kkt it').det ≠ 0 := hc.det_kkt ▸ hdet
      obtain ⟨r, hr, hd, heq⟩ := hi.posed.direction_of_regular h hwf hsymm hfits hregular
        opt n hdet
      obtain ⟨r', hr', hd', heq'⟩ := hi'.posed.direction_of_regular h' hwf hsymm
        (hroom.mpr hfits) hregular opt n hdet'
      obtain ⟨hpoint, hsides⟩ := hc.reduced_carried h h' hi.posed hi'.posed hr hr' hdet
      have hdirects := hc.directs h h' hi.posed hi'.posed hd.direction hd'.direction hpoint hsides
      obtain ⟨hnext, hfailed⟩ := hc.advance (n := n) h h' hi.posed hopt.xi hd.direction.dx hdirects
      rw [heq, heq', hc.norm_reduced h h' hi.posed hi'.posed hr hr' hdet]
      split
      · exact .error _ _
      · obtain ⟨hxi0, hxi1⟩ := hopt.fraction hacc
        exact .ok (hi.advance hopt.exact hxi0 hxi1 hd.direction)
          (hi'.advance hopt.exact hxi0 hxi1 hd'.direction) hnext hfailed
  · rw [Task.direction_of_not_hasRoom n hfits, Task.direction_of_not_hasRoom n (mt hroom.mp hfits)]
    exact .fault _

/-- Matching runs end alike, at matching iterates or both in failure. -/
theorem Matching.Carries.alike_iterate {β : Type} {F F' : Iterate Extended → β} {G : β → β}
    (hF : ∀ it it', task.Interior it → (task.withSides S').Interior it' → m.Carries it it' →
      F' it' = G (F it)) (left made : ℕ) (hi : task.Interior it)
    (hi' : (task.withSides S').Interior it') (hc : m.Carries it it') :
    Alike (fun _ => ()) G
      ((task.iterate opt solver left made it).outcome.map fun r => F r.2)
      (((task.withSides S').iterate opt solver left made it').outcome.map fun r => F' r.2) := by
  have hdone : ∀ {it it' : Iterate Extended} (left made : ℕ), task.Interior it →
      (task.withSides S').Interior it' → m.Carries it it' → it.residuals.satisfied opt = true →
      Alike (fun _ => ()) G
        ((task.iterate opt solver left made it).outcome.map fun r => F r.2)
        (((task.withSides S').iterate opt solver left made it').outcome.map fun r => F' r.2) := by
    intro it it' left made hi hi' hc hsat
    have hsat' : it'.residuals.satisfied opt = true := hc.residuals ▸ hsat
    rw [Task.iterate_of_satisfied hsat, Task.iterate_of_satisfied hsat']
    show Alike (fun _ => ()) G (.ok (F it)) (.ok (F' it'))
    rw [hF it it' hi hi' hc]
    exact .ok _
  -- the number of iterations left decreases while the iterates keep matching
  induction left generalizing made it it' with
  | zero =>
      cases hsat : it.residuals.satisfied opt with
      | true => exact hdone 0 made hi hi' hc hsat
      | false =>
          have hsat' : it'.residuals.satisfied opt = false := hc.residuals ▸ hsat
          rw [Task.iterate_zero hsat, Task.iterate_zero hsat']
          exact .error rfl
  | succ left ih =>
      cases hsat : it.residuals.satisfied opt with
      | true => exact hdone (left + 1) made hi hi' hc hsat
      | false =>
          have hsat' : it'.residuals.satisfied opt = false := hc.residuals ▸ hsat
          have hstep := hc.step h h' hwf hsymm hregular hsingular hopt hacc hi hi' (made + 1)
          generalize hs : task.step opt solver (made + 1) it = r at hstep
          generalize hs' : (task.withSides S').step opt solver (made + 1) it' = r' at hstep
          cases hstep with
          | ok hi hi' hc hfailed =>
              rw [Task.iterate_of_step hsat hs, Task.iterate_of_step hsat' hs', hfailed,
                hc.residuals]
              dsimp only
              split
              · exact .error rfl
              · exact ih (made + 1) hi hi' hc
          | error e e' =>
              rw [Task.iterate_of_error hsat hs, Task.iterate_of_error hsat' hs']
              exact .error rfl
          | fault f =>
              rw [Task.iterate_of_error hsat hs, Task.iterate_of_error hsat' hs']
              exact .fault f

end Run

end Step

end SeqQuad.InteriorPoint
