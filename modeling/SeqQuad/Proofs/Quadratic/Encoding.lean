import SeqQuad.Proofs.Quadratic.Dimensions
import SeqQuad.Proofs.Quadratic.Newton

/-!
# Sides encode the bounds

The sides of a program say of a point what its bounds say, and their multipliers pull on it as
the multipliers of the bounds do. Both hold for every mix of open, one-sided, two-sided and joined
bounds on variables and on rows. Only joined bounds that are not equal are told apart from their
sides, which look at the upper bound alone.
-/

namespace SeqQuad

open Extended Matrix Scalar SparseMatrix

namespace QuadraticProgram

variable (qp : QuadraticProgram Extended)

/-- The bounds of a pair, as far as they are real numbers, are equal or further apart than what
makes an equality. -/
def Gapped (i : qp.Pair) : Prop :=
  ∀ l u : ℝ, qp.lowerAt i = l → qp.upperAt i = u →
    l = u ∨ (epsilon : Extended) < magnitude ((u : Extended) - l)

/-- Every bound that is a real number holds at a point. -/
def Feasible (x : Fin qp.variableCount → ℝ) : Prop :=
  ∀ i, (∀ l : ℝ, qp.lowerAt i = l → l ≤ qp.valueAt x i) ∧
    ∀ u : ℝ, qp.upperAt i = u → qp.valueAt x i ≤ u

/-- Sides that encode the bounds of a program. -/
structure EncodedBy (sides : Sides Extended) : Prop where
  /-- The sides hold where the bounds do. -/
  primal : ∀ x, Vec.IsReal x → x.length = qp.variableCount →
    (((∀ s ∈ sides.equalities, s.residual x = 0) ∧ ∀ s ∈ sides.inequalities, s.residual x ≤ 0) ↔
      qp.Feasible (Vec.reals qp.variableCount x))
  /-- The multipliers of the bounds that the sides gather are real, one for each bound, and
  contribute to the gradient of the Lagrangian what the sides do. -/
  dual : ∀ lam mu, Vec.IsReal lam → Vec.IsReal mu → lam.length = sides.equalities.length →
    mu.length = sides.inequalities.length →
    let gathered := sides.multipliers qp.variableCount qp.rowCount lam mu
    (Vec.IsReal gathered.1 ∧ gathered.1.length = qp.variableCount) ∧
    (Vec.IsReal gathered.2 ∧ gathered.2.length = qp.rowCount) ∧
    (denseRows _ qp.variableCount (sides.equalities.map Side.coef))ᵀ *ᵥ
          Vec.reals sides.equalities.length lam +
        (denseRows _ qp.variableCount (sides.inequalities.map Side.coef))ᵀ *ᵥ
          Vec.reals sides.inequalities.length mu =
      Vec.reals qp.variableCount gathered.1 +
        (qp.a.dense qp.rowCount qp.variableCount)ᵀ *ᵥ Vec.reals qp.rowCount gathered.2

/-! ## Joined and open bounds -/

section Pairs

variable {qp} {i : qp.Pair}

/-- Joined bounds that keep the gap are equal. -/
theorem eq_of_joined (hgap : qp.Gapped i) (h : qp.joined i = true) :
    ∃ b : ℝ, qp.lowerAt i = b ∧ qp.upperAt i = b := by
  simp only [joined, Bool.and_eq_true, isFinite_iff, decide_eq_true_eq] at h
  obtain ⟨⟨⟨l, hl⟩, u, hu⟩, hnear⟩ := h
  rw [hl, hu] at hnear
  rcases hgap l u hl hu with rfl | hfar
  · exact ⟨l, hl, hu⟩
  · exact absurd hnear hfar.2

/-- A real bound of a pair that is not joined makes an inequality. -/
theorem present_iff (h : qp.joined i = false) (b : Bool) :
    qp.present (i, b) = true ↔ (if b then qp.upperAt i else qp.lowerAt i).IsReal := by
  rw [present, h, Bool.not_false, Bool.true_and, isFinite_iff]

theorem not_present_of_joined (h : qp.joined i = true) (b : Bool) : qp.present (i, b) = false := by
  rw [present, h]
  rfl

end Pairs

/-! ## The encoding -/

section Encoding

variable {qp} {sides : Sides Extended} (ha : qp.a.IsReal)
  (hsides : Sides.ofProgram? qp = some sides)
include ha hsides

/-- All sides are real and speak of the variables. -/
theorem realSide_of_mem_sides :
    (∀ i, qp.joined i = true → InteriorPoint.RealSide qp.variableCount (qp.upperSide i)) ∧
      ∀ a, qp.present a = true → InteriorPoint.RealSide qp.variableCount (qp.sideAt a) := by
  obtain ⟨heq, hineq, hwithin⟩ := qp.ofProgram?_eq_some hsides
  refine ⟨fun i hi => ?_, fun ⟨i, b⟩ hp => ?_⟩
  · have hmem : qp.upperSide i ∈ sides.equalities := by
      rw [heq]
      exact List.mem_map_of_mem (qp.mem_equalityPairs.mpr hi)
    exact realSide_upper ha (hwithin _ (List.mem_append_left _ hmem)) (isReal_of_joined hi)
  · have hmem : qp.sideAt (i, b) ∈ sides.inequalities := by
      rw [hineq]
      exact List.mem_map_of_mem (qp.mem_inequalityBounds.mpr hp)
    exact realSide_sideAt ha (hwithin _ (List.mem_append_right _ hmem)) hp

section Point

variable {x : List Extended} (hx : Vec.IsReal x) {i : qp.Pair}
include hx

/-- The equality of a joined pair holds where the value is the bound. -/
theorem residual_eq_zero_iff (hi : qp.joined i = true) {b : ℝ} (hb : qp.upperAt i = b) :
    (qp.upperSide i).residual x = 0 ↔ qp.valueAt (Vec.reals qp.variableCount x) i = b := by
  rw [residual_upperSide ((realSide_of_mem_sides ha hsides).1 i hi) hx, hb, real_sub_real, zero_eq,
    real_inj, sub_eq_zero]

theorem residual_upper_nonpos_iff (hp : qp.present (i, true) = true) {u : ℝ}
    (hu : qp.upperAt i = u) :
    (qp.sideAt (i, true)).residual x ≤ 0 ↔
      qp.valueAt (Vec.reals qp.variableCount x) i ≤ u := by
  rw [sideAt_true, residual_upperSide ((realSide_of_mem_sides ha hsides).2 (i, true) hp) hx, hu,
    real_sub_real, zero_eq, real_le_real, sub_nonpos]

theorem residual_lower_nonpos_iff (hp : qp.present (i, false) = true) {l : ℝ}
    (hl : qp.lowerAt i = l) :
    (qp.sideAt (i, false)).residual x ≤ 0 ↔
      l ≤ qp.valueAt (Vec.reals qp.variableCount x) i := by
  rw [sideAt_false, residual_lowerSide ((realSide_of_mem_sides ha hsides).2 (i, false) hp)
    ⟨l, hl⟩ hx, hl, real_sub_real, zero_eq, real_le_real, sub_nonpos]

/-- The sides of one pair hold where its bounds do. -/
theorem sides_iff_bounds (hgap : qp.Gapped i) :
    ((qp.joined i = true → (qp.upperSide i).residual x = 0) ∧
        ∀ b, qp.present (i, b) = true → (qp.sideAt (i, b)).residual x ≤ 0) ↔
      (∀ l : ℝ, qp.lowerAt i = l → l ≤ qp.valueAt (Vec.reals qp.variableCount x) i) ∧
        ∀ u : ℝ, qp.upperAt i = u → qp.valueAt (Vec.reals qp.variableCount x) i ≤ u := by
  cases hj : qp.joined i with
  | true =>
      -- the equality speaks of the upper bound alone, which is the lower one here
      obtain ⟨b, hl, hu⟩ := eq_of_joined hgap hj
      simp only [not_present_of_joined hj, residual_eq_zero_iff ha hsides hx hj hu, hl, hu,
        real_inj, forall_eq', true_implies, Bool.false_eq_true, false_implies, implies_true,
        and_true]
      exact ⟨fun h => ⟨h.ge, h.le⟩, fun h => le_antisymm h.2 h.1⟩
  | false =>
      simp only [Bool.false_eq_true, false_implies, true_and, Bool.forall_bool, present_iff hj,
        if_true, if_false]
      refine and_congr ⟨fun h l hl => ?_, fun h hreal => ?_⟩
        ⟨fun h u hu => ?_, fun h hreal => ?_⟩
      · have hp := (present_iff hj false).mpr ⟨l, hl⟩
        exact (residual_lower_nonpos_iff ha hsides hx hp hl).mp (h ⟨l, hl⟩)
      · obtain ⟨l, hl⟩ := hreal
        have hp := (present_iff hj false).mpr ⟨l, hl⟩
        exact (residual_lower_nonpos_iff ha hsides hx hp hl).mpr (h l hl)
      · have hp := (present_iff hj true).mpr ⟨u, hu⟩
        exact (residual_upper_nonpos_iff ha hsides hx hp hu).mp (h ⟨u, hu⟩)
      · obtain ⟨u, hu⟩ := hreal
        have hp := (present_iff hj true).mpr ⟨u, hu⟩
        exact (residual_upper_nonpos_iff ha hsides hx hp hu).mpr (h u hu)

/-- All sides hold where all bounds do. -/
theorem sides_iff_feasible (hgap : ∀ i, qp.Gapped i) :
    ((∀ s ∈ sides.equalities, s.residual x = 0) ∧ ∀ s ∈ sides.inequalities, s.residual x ≤ 0) ↔
      qp.Feasible (Vec.reals qp.variableCount x) := by
  obtain ⟨heq, hineq, -⟩ := qp.ofProgram?_eq_some hsides
  rw [heq, hineq, Feasible, List.forall_mem_map, List.forall_mem_map]
  simp only [mem_equalityPairs, mem_inequalityBounds, Prod.forall]
  rw [← forall_and]
  exact forall_congr' fun i => sides_iff_bounds ha hsides hx (hgap i)

end Point

section Multipliers

variable {lam mu : List Extended} (hlam : Vec.IsReal lam) (hmu : Vec.IsReal mu)
  (hlenLam : lam.length = sides.equalities.length)
  (hlenMu : mu.length = sides.inequalities.length)
include hlam hmu hlenLam hlenMu

omit ha in
/-- The multipliers of all sides pull as the multipliers that they gather on the bounds. -/
theorem pull_eq_gathered :
    let gathered := sides.multipliers qp.variableCount qp.rowCount lam mu
    (Vec.IsReal gathered.1 ∧ Vec.IsReal gathered.2) ∧
    (denseRows _ qp.variableCount (sides.equalities.map Side.coef))ᵀ *ᵥ
          Vec.reals sides.equalities.length lam +
        (denseRows _ qp.variableCount (sides.inequalities.map Side.coef))ᵀ *ᵥ
          Vec.reals sides.inequalities.length mu =
      Vec.reals qp.variableCount gathered.1 +
        (qp.a.dense qp.rowCount qp.variableCount)ᵀ *ᵥ Vec.reals qp.rowCount gathered.2 := by
  obtain ⟨heq, hineq, -⟩ := qp.ofProgram?_eq_some hsides
  have hs : InteriorPoint.Splits sides qp := ⟨heq, hineq⟩
  obtain ⟨c, hc⟩ : ∃ c : InteriorPoint.Multipliers qp, c.Gathers lam mu mu :=
    InteriorPoint.exists_gathers hlam hmu hmu (by rw [hlenLam, heq, List.length_map])
      (by rw [hlenMu, hineq, List.length_map]) (by rw [hlenMu, hineq, List.length_map])
  obtain ⟨⟨hrealX, hlamX⟩, hrealA, hlamA⟩ := InteriorPoint.reals_multipliers hs hc
  refine ⟨⟨hrealX, hrealA⟩, ?_⟩
  rw [hlamX, hlamA]
  refine Eq.trans ?_ ((InteriorPoint.sum_net_rowAt c).trans (add_comm _ _))
  funext j
  rw [Pi.add_apply, ← InteriorPoint.sum_zip_sides _ hlenLam, ← InteriorPoint.sum_zip_sides _ hlenMu,
    ← List.sum_append, ← List.map_append]
  exact InteriorPoint.sum_weighted hs hc (f := fun s => SparseMatrix.rowEntry s.coef j)
    fun i => rowEntry_lowerSide i j

end Multipliers

end Encoding

/-- Every program of consistent dimensions, whose constraint matrix may hold its entries in any
order and more than once, is encoded by its sides. -/
theorem encodedBy_sides {qp : QuadraticProgram Extended} (ha : qp.a.WellFormed)
    (hreal : qp.a.IsReal) (hcols : qp.rowCount ≠ 0 → qp.a.cols = qp.variableCount)
    (hcov : qp.Covered) (hgap : ∀ i, qp.Gapped i) :
    ∃ sides, Sides.ofProgram? qp = some sides ∧ qp.EncodedBy sides := by
  obtain ⟨sides, hsides⟩ := qp.exists_sides ha hcols hcov
  refine ⟨sides, hsides, {
    primal := fun x hx _ => sides_iff_feasible hreal hsides hx hgap
    dual := fun lam mu hlam hmu hlenLam hlenMu => ?_ }⟩
  obtain ⟨⟨hrealX, hrealA⟩, hpull⟩ := pull_eq_gathered hsides hlam hmu hlenLam hlenMu
  obtain ⟨hlenX, hlenA⟩ :=
    InteriorPoint.length_multipliers sides qp.variableCount qp.rowCount lam mu
  exact ⟨⟨hrealX, hlenX⟩, ⟨hrealA, hlenA⟩, hpull⟩

/-- The sides of a joined row and of a variable that is bounded from below. -/
theorem tied_encodedBy :
    InteriorPoint.tied.EncodedBy ⟨[InteriorPoint.tiedSide], [InteriorPoint.halfLineSide]⟩ := by
  have hgap : ∀ i, InteriorPoint.tied.Gapped i := by
    rintro (j | k) l u hl hu
    · rw [Subsingleton.elim (α := Fin 1) j 0] at hu
      cases hu
    · rw [Subsingleton.elim (α := Fin 1) k 0] at hl hu
      exact .inl (real_inj.mp (hl.symm.trans hu))
  obtain ⟨sides, hsides, hencoded⟩ : ∃ sides,
      Sides.ofProgram? InteriorPoint.tied = some sides ∧ InteriorPoint.tied.EncodedBy sides :=
    encodedBy_sides (SparseMatrix.wellFormed_ofRows (by simp)) InteriorPoint.tied_exact.constraints
      (fun _ => rfl) ⟨le_rfl, le_rfl, le_rfl, le_rfl⟩ hgap
  obtain rfl := Option.some.inj (InteriorPoint.tied_sides.symm.trans hsides)
  exact hencoded

end QuadraticProgram

end SeqQuad
