import SeqQuad.Proofs.Quadratic.Interior
import SeqQuad.Proofs.Quadratic.Pairs

/-!
# Multipliers by pairs of bounds

The multipliers and slacks of the sides, told by the pairs of bounds they came from. What the
sides add up to is what the pairs add up to, each with its upper multiplier minus its lower one.
-/

namespace SeqQuad

open Extended Matrix Scalar

/-! ## Sides over the real numbers -/

namespace QuadraticProgram

variable (qp : QuadraticProgram Extended)

/-- A program of real numbers, apart from its bounds. -/
structure Exact : Prop where
  hessian : qp.h.IsReal
  gradient : Vec.IsReal qp.g
  constraints : qp.a.IsReal

/-- The dense row of a pair: a unit vector or a row of the constraint matrix. -/
noncomputable def rowAt (i : qp.Pair) : Fin qp.variableCount → ℝ :=
  fun j => SparseMatrix.rowEntry (qp.coefAt i) j

/-- What the two bounds of a pair bound. -/
noncomputable def valueAt (x : Fin qp.variableCount → ℝ) (i : qp.Pair) : ℝ :=
  qp.rowAt i ⬝ᵥ x

variable {qp}

@[simp]
theorem rowAt_inl (j k : Fin qp.variableCount) : qp.rowAt (.inl j) k = if j = k then 1 else 0 := by
  simp [rowAt, coefAt, SparseMatrix.rowEntry, Fin.ext_iff]

theorem rowAt_inr (k : Fin qp.rowCount) :
    qp.rowAt (.inr k) = qp.a.dense qp.rowCount qp.variableCount k :=
  rfl

theorem valueAt_inl (x : Fin qp.variableCount → ℝ) (j : Fin qp.variableCount) :
    qp.valueAt x (.inl j) = x j := by
  simp [valueAt, dotProduct]

theorem valueAt_inr (x : Fin qp.variableCount → ℝ) (k : Fin qp.rowCount) :
    qp.valueAt x (.inr k) = (qp.a.dense qp.rowCount qp.variableCount *ᵥ x) k :=
  rfl

theorem isReal_coefAt (ha : qp.a.IsReal) (i : qp.Pair) : ∀ e ∈ qp.coefAt i, e.2.IsReal := by
  cases i with
  | inl j => simp [coefAt]
  | inr k => exact ha.row k

theorem isReal_of_joined {i : qp.Pair} (h : qp.joined i = true) : (qp.upperAt i).IsReal := by
  simp only [joined, Bool.and_eq_true] at h
  exact isFinite_iff.mp h.1.2

theorem isReal_of_present {i : qp.Pair} {b : Bool} (h : qp.present (i, b) = true) :
    (if b then qp.upperAt i else qp.lowerAt i).IsReal := by
  simp only [present, Bool.and_eq_true] at h
  exact isFinite_iff.mp h.2

theorem rowEntry_map_neg (row : List (ℕ × Extended)) (j : ℕ) :
    SparseMatrix.rowEntry (row.map fun e => (e.1, -e.2)) j = -SparseMatrix.rowEntry row j := by
  induction row with
  | nil => simp
  | cons e row ih =>
      rw [List.map_cons, SparseMatrix.rowEntry_cons, SparseMatrix.rowEntry_cons, ih, toReal_neg]
      split <;> ring

/-- The row of a lower side is the negated row of its pair. -/
theorem rowEntry_lowerSide (i : qp.Pair) (j : Fin qp.variableCount) :
    SparseMatrix.rowEntry (qp.lowerSide i).coef j = -qp.rowAt i j :=
  rowEntry_map_neg _ _

section Sides

variable {i : qp.Pair} {x : List Extended} (ha : qp.a.IsReal)
include ha

theorem realSide_upper (hcol : ∀ e ∈ (qp.upperSide i).coef, e.1 < qp.variableCount)
    (hu : (qp.upperAt i).IsReal) :
    InteriorPoint.RealSide qp.variableCount (qp.upperSide i) :=
  ⟨isReal_coefAt ha i, hcol, hu⟩

theorem realSide_lower (hcol : ∀ e ∈ (qp.lowerSide i).coef, e.1 < qp.variableCount)
    (hl : (qp.lowerAt i).IsReal) :
    InteriorPoint.RealSide qp.variableCount (qp.lowerSide i) := by
  refine ⟨fun e he => ?_, hcol, isReal_neg_iff.mpr hl⟩
  rcases List.mem_map.mp he with ⟨e, hmem, rfl⟩
  exact isReal_neg_iff.mpr (isReal_coefAt ha i e hmem)

theorem realSide_sideAt {b : Bool}
    (hcol : ∀ e ∈ (qp.sideAt (i, b)).coef, e.1 < qp.variableCount)
    (hp : qp.present (i, b) = true) :
    InteriorPoint.RealSide qp.variableCount (qp.sideAt (i, b)) := by
  have hreal := isReal_of_present hp
  cases b with
  | false => exact realSide_lower ha hcol hreal
  | true => exact realSide_upper ha hcol hreal

omit ha in
/-- An upper side is missed by what the value exceeds the bound. -/
theorem residual_upperSide (h : InteriorPoint.RealSide qp.variableCount (qp.upperSide i))
    (hx : Vec.IsReal x) :
    (qp.upperSide i).residual x =
      (qp.valueAt (Vec.reals qp.variableCount x) i : Extended) - qp.upperAt i := by
  rw [Side.residual, h.dot_eq hx]
  rfl

omit ha in
/-- A lower side is missed by what the bound exceeds the value. -/
theorem residual_lowerSide (h : InteriorPoint.RealSide qp.variableCount (qp.lowerSide i))
    (hl : (qp.lowerAt i).IsReal) (hx : Vec.IsReal x) :
    (qp.lowerSide i).residual x =
      qp.lowerAt i - (qp.valueAt (Vec.reals qp.variableCount x) i : Extended) := by
  have hdot : (qp.lowerSide i).dot x =
      ((-qp.valueAt (Vec.reals qp.variableCount x) i : ℝ) : Extended) := by
    rw [h.dot_eq hx, valueAt, dotProduct, ← Finset.sum_neg_distrib]
    simp only [rowEntry_lowerSide, neg_mul]
  have hrhs : (qp.lowerSide i).rhs = -qp.lowerAt i := rfl
  rcases hl with ⟨l, hl⟩
  rw [Side.residual, hdot, hrhs, hl, neg_real, real_sub_real, real_sub_real, real_inj]
  ring

end Sides

end QuadraticProgram

namespace InteriorPoint

variable {qp : QuadraticProgram Extended}

/-! ## Multipliers by pairs -/

/-- The multipliers of the equalities by their pairs, and the multipliers and slacks of the
inequalities by the bounds they came from, the lower bound told by `false`. -/
structure Multipliers (qp : QuadraticProgram Extended) where
  free : qp.Pair → ℝ
  side : qp.Pair × Bool → ℝ
  slack : qp.Pair × Bool → ℝ

/-- What a pair contributes to the gradient of the Lagrangian: its upper multiplier minus its
lower one, or its free one. -/
def Multipliers.net (c : Multipliers qp) (i : qp.Pair) : ℝ :=
  c.side (i, true) - c.side (i, false) + c.free i

/-- The multipliers and slacks that lists in the order of the sides stand for. -/
structure Multipliers.Gathers (c : Multipliers qp) (lam z mu : List Extended) : Prop where
  lam : lam = qp.equalityPairs.map fun i => (c.free i : Extended)
  z : z = qp.inequalityBounds.map fun a => (c.slack a : Extended)
  mu : mu = qp.inequalityBounds.map fun a => (c.side a : Extended)
  free_eq_zero : ∀ i, qp.joined i = false → c.free i = 0
  side_eq_zero : ∀ a, qp.present a = false → c.side a = 0
  slack_eq_zero : ∀ a, qp.present a = false → c.slack a = 0

theorem isReal_map_coe {ι : Type} (K : List ι) (f : ι → ℝ) :
    Vec.IsReal (K.map fun a => (f a : Extended)) := by
  intro b hb
  rcases List.mem_map.mp hb with ⟨a, _, rfl⟩
  exact isReal_real (f a)

theorem exists_eq_map_real {ι : Type} [DecidableEq ι] {K : List ι} (hnd : K.Nodup)
    {z : List Extended} (hz : Vec.IsReal z) (hlen : z.length = K.length) :
    ∃ f : ι → ℝ, (z = K.map fun a => (f a : Extended)) ∧ ∀ a ∉ K, f a = 0 := by
  have hlen' : (z.map toReal).length = K.length := by simpa using hlen
  obtain ⟨f, hf, hzero⟩ := exists_eq_map hnd hlen' 0
  refine ⟨f, ?_, hzero⟩
  rw [hz.eq_map, hf, List.map_map]
  rfl

theorem exists_gathers {lam z mu : List Extended} (hlam : Vec.IsReal lam) (hz : Vec.IsReal z)
    (hmu : Vec.IsReal mu) (hlen : lam.length = qp.equalityPairs.length)
    (hlenz : z.length = qp.inequalityBounds.length)
    (hlenmu : mu.length = qp.inequalityBounds.length) :
    ∃ c : Multipliers qp, c.Gathers lam z mu := by
  obtain ⟨free, hfree, hfree0⟩ := exists_eq_map_real qp.nodup_equalityPairs hlam hlen
  obtain ⟨slack, hslack, hslack0⟩ := exists_eq_map_real qp.nodup_inequalityBounds hz hlenz
  obtain ⟨side, hside, hside0⟩ := exists_eq_map_real qp.nodup_inequalityBounds hmu hlenmu
  refine ⟨⟨free, side, slack⟩, hfree, hslack, hside, fun i hi => ?_, fun a ha => ?_, fun a ha => ?_⟩
  · exact hfree0 i (by simp [qp.mem_equalityPairs, hi])
  · exact hside0 a (by simp [qp.mem_inequalityBounds, ha])
  · exact hslack0 a (by simp [qp.mem_inequalityBounds, ha])

section Norms

variable {c : Multipliers qp} {lam z mu : List Extended} (hc : c.Gathers lam z mu)
include hc

theorem Multipliers.Gathers.outside {a : qp.Pair × Bool} (ha : a ∉ qp.inequalityBounds) :
    c.side a = 0 ∧ c.slack a = 0 := by
  have hp : qp.present a = false := by simpa [qp.mem_inequalityBounds] using ha
  exact ⟨hc.side_eq_zero a hp, hc.slack_eq_zero a hp⟩

theorem Multipliers.Gathers.free_outside {i : qp.Pair} (hi : i ∉ qp.equalityPairs) :
    c.free i = 0 :=
  hc.free_eq_zero i (by simpa [qp.mem_equalityPairs] using hi)

theorem Multipliers.Gathers.normInf_lam : Vec.normInf lam = ((‖c.free‖ : ℝ) : Extended) := by
  rw [hc.lam]
  exact normInf_map_eq fun _ hi => hc.free_outside hi

theorem Multipliers.Gathers.normInf_mu : Vec.normInf mu = ((‖c.side‖ : ℝ) : Extended) := by
  rw [hc.mu]
  exact normInf_map_eq fun _ ha => (hc.outside ha).1

theorem Multipliers.Gathers.normInf_z : Vec.normInf z = ((‖c.slack‖ : ℝ) : Extended) := by
  rw [hc.z]
  exact normInf_map_eq fun _ ha => (hc.outside ha).2

end Norms

/-- The sides of a program, told by pairs. -/
structure Splits (sides : Sides Extended) (qp : QuadraticProgram Extended) : Prop where
  equalities : sides.equalities = qp.equalityPairs.map qp.upperSide
  inequalities : sides.inequalities = qp.inequalityBounds.map qp.sideAt

section Weighted

variable {sides : Sides Extended} {c : Multipliers qp} {lam z mu : List Extended}
  (hs : Splits sides qp) (hc : c.Gathers lam z mu)
include hs hc

theorem weighted_eq :
    sides.weighted lam mu =
      (qp.equalityPairs.map fun i => (qp.upperSide i, (c.free i : Extended))) ++
        qp.inequalityBounds.map fun a => (qp.sideAt a, (c.side a : Extended)) := by
  rw [Sides.weighted, hs.equalities, hs.inequalities, hc.lam, hc.mu, List.zip_map',
    List.zip_map']

/-- A weighted sum over all sides is a sum over pairs, if the lower side of a pair counts
against its upper side. -/
theorem sum_weighted {f : Side Extended → ℝ}
    (hf : ∀ i, f (qp.lowerSide i) = -f (qp.upperSide i)) :
    ((sides.weighted lam mu).map fun e => e.2.toReal * f e.1).sum =
      ∑ i, c.net i * f (qp.upperSide i) := by
  have hfree : (qp.equalityPairs.map fun i => c.free i * f (qp.upperSide i)).sum =
      ∑ i, c.free i * f (qp.upperSide i) := by
    apply sum_map_eq_sum qp.nodup_equalityPairs
    intro i hi
    rw [hc.free_outside hi, zero_mul]
  have hside : (qp.inequalityBounds.map fun a => c.side a * f (qp.sideAt a)).sum =
      ∑ i, (c.side (i, true) - c.side (i, false)) * f (qp.upperSide i) := by
    have hall : (qp.inequalityBounds.map fun a => c.side a * f (qp.sideAt a)).sum =
        ∑ a, c.side a * f (qp.sideAt a) := by
      apply sum_map_eq_sum qp.nodup_inequalityBounds
      intro a ha
      rw [(hc.outside ha).1, zero_mul]
    rw [hall, Fintype.sum_prod_type]
    apply Finset.sum_congr rfl
    intro i _
    rw [Fintype.sum_bool, qp.sideAt_true, qp.sideAt_false, hf]
    ring
  rw [weighted_eq hs hc, List.map_append, List.sum_append, List.map_map, List.map_map]
  refine (congrArg₂ (· + ·) hfree hside).trans ?_
  rw [← Finset.sum_add_distrib]
  apply Finset.sum_congr rfl
  intro i _
  rw [Multipliers.net]
  ring

theorem isReal_of_mem_weighted {e : Side Extended × Extended}
    (he : e ∈ sides.weighted lam mu) : e.2.IsReal := by
  rw [weighted_eq hs hc] at he
  rcases List.mem_append.mp he with h | h
  · rcases List.mem_map.mp h with ⟨i, _, rfl⟩
    exact isReal_real _
  · rcases List.mem_map.mp h with ⟨a, _, rfl⟩
    exact isReal_real _

end Weighted

/-- The rows of all pairs add up to the rows of the constraints and to the unit vectors. -/
theorem sum_net_rowAt (c : Multipliers qp) :
    (fun j => ∑ i, c.net i * qp.rowAt i j) =
      (qp.a.dense qp.rowCount qp.variableCount)ᵀ *ᵥ (fun k => c.net (.inr k)) +
        fun j => c.net (.inl j) := by
  funext j
  rw [Fintype.sum_sum_type]
  simp only [QuadraticProgram.rowAt_inl, QuadraticProgram.rowAt_inr, mul_ite, mul_one, mul_zero,
    Finset.sum_ite_eq', Finset.mem_univ, if_true, Pi.add_apply]
  rw [add_comm]
  congr 1
  apply Finset.sum_congr rfl
  intro k _
  exact mul_comm _ _

/-! ## The multipliers of an answer -/

/-- A multiplier for each variable and for each row. -/
theorem length_multipliers {α : Type} [Scalar α] (sides : Sides α) (nx na : ℕ)
    (lam mu : List α) :
    (sides.multipliers nx na lam mu).1.length = nx ∧
      (sides.multipliers nx na lam mu).2.length = na := by
  unfold Sides.multipliers
  have hx : (Vec.zeros nx : List α).length = nx := Vec.length_zeros nx
  have hy : (Vec.zeros na : List α).length = na := Vec.length_zeros na
  revert hx hy
  generalize sides.weighted lam mu = l
  generalize (Vec.zeros nx : List α) = x
  generalize (Vec.zeros na : List α) = y
  intro hx hy
  induction l generalizing x y with
  | nil => exact ⟨hx, hy⟩
  | cons e l ih =>
      rcases e with ⟨⟨coef, rhs, origin, sign⟩, m⟩
      cases origin with
      | bound j => exact ih _ _ ((List.length_modify ..).trans hx) hy
      | row k => exact ih _ _ hx ((List.length_modify ..).trans hy)

/-- The multiple of a variable bound that a side counts for. -/
def boundShare (s : Side Extended) : List (ℕ × Extended) :=
  match s.origin with
  | .bound j => [(j, s.sign)]
  | .row _ => []

/-- The multiple of a constraint row that a side counts for. -/
def rowShare (s : Side Extended) : List (ℕ × Extended) :=
  match s.origin with
  | .bound _ => []
  | .row k => [(k, s.sign)]

/-- The multipliers gather the shares of all sides, on the bounds and on the rows apart. -/
theorem multipliers_eq (sides : Sides Extended) (nx na : ℕ) (lam mu : List Extended) :
    sides.multipliers nx na lam mu =
      ((sides.weighted lam mu).foldl (fun acc e => Vec.scatter acc (boundShare e.1) e.2)
        (Vec.zeros nx),
       (sides.weighted lam mu).foldl (fun acc e => Vec.scatter acc (rowShare e.1) e.2)
        (Vec.zeros na)) := by
  unfold Sides.multipliers
  generalize sides.weighted lam mu = l
  generalize (Vec.zeros nx : List Extended) = x
  generalize (Vec.zeros na : List Extended) = y
  induction l generalizing x y with
  | nil => rfl
  | cons e l ih =>
      rcases e with ⟨⟨coef, rhs, origin, sign⟩, m⟩
      cases origin <;> exact ih _ _

section Shares

variable {sides : Sides Extended} {c : Multipliers qp} {lam z mu : List Extended}
  {share : Side Extended → List (ℕ × Extended)} {n : ℕ}

/-- What a fold over shares gathers. -/
theorem foldl_share (hs : Splits sides qp) (hc : c.Gathers lam z mu)
    (hreal : ∀ e ∈ sides.weighted lam mu, ∀ v ∈ share e.1, v.2.IsReal)
    (hneg : ∀ i, share (qp.lowerSide i) = (share (qp.upperSide i)).map fun e => (e.1, -e.2)) :
    Vec.IsReal ((sides.weighted lam mu).foldl (fun acc e => Vec.scatter acc (share e.1) e.2)
        (Vec.zeros n)) ∧
      Vec.reals n ((sides.weighted lam mu).foldl (fun acc e => Vec.scatter acc (share e.1) e.2)
        (Vec.zeros n)) =
        fun j : Fin n => ∑ i, c.net i * SparseMatrix.rowEntry (share (qp.upperSide i)) j := by
  have hterms : ∀ e ∈ sides.weighted lam mu, (∀ v ∈ share e.1, v.2.IsReal) ∧ e.2.IsReal := by
    intro e he
    exact ⟨hreal e he, isReal_of_mem_weighted hs hc he⟩
  have hroom : n ≤ (Vec.zeros n : List Extended).length := by simp
  obtain ⟨hzero, heq⟩ := SparseMatrix.reals_foldl_scatter (sides.weighted lam mu)
    (fun e => share e.1) (fun e => e.2) hroom (Vec.isReal_zeros n) hterms
  refine ⟨hzero, ?_⟩
  rw [heq, Vec.reals_zeros, zero_add]
  funext j
  refine sum_weighted hs hc (f := fun s => SparseMatrix.rowEntry (share s) j) fun i => ?_
  rw [hneg, QuadraticProgram.rowEntry_map_neg]

theorem isReal_sign_of_mem_weighted (hs : Splits sides qp) (hc : c.Gathers lam z mu)
    {e : Side Extended × Extended} (he : e ∈ sides.weighted lam mu) : e.1.sign.IsReal := by
  rw [weighted_eq hs hc] at he
  rcases List.mem_append.mp he with h | h
  · rcases List.mem_map.mp h with ⟨i, _, rfl⟩
    exact isReal_real 1
  · rcases List.mem_map.mp h with ⟨⟨i, b⟩, _, rfl⟩
    cases b with
    | false => exact isReal_real (-1)
    | true => exact isReal_real 1

theorem isReal_boundShare {s : Side Extended} (h : s.sign.IsReal) :
    ∀ v ∈ boundShare s, v.2.IsReal := by
  unfold boundShare
  split
  · simpa using h
  · simp

theorem isReal_rowShare {s : Side Extended} (h : s.sign.IsReal) :
    ∀ v ∈ rowShare s, v.2.IsReal := by
  unfold rowShare
  split
  · simp
  · simpa using h

theorem boundShare_lowerSide (i : qp.Pair) :
    boundShare (qp.lowerSide i) = (boundShare (qp.upperSide i)).map fun e => (e.1, -e.2) := by
  cases i <;> rfl

theorem rowShare_lowerSide (i : qp.Pair) :
    rowShare (qp.lowerSide i) = (rowShare (qp.upperSide i)).map fun e => (e.1, -e.2) := by
  cases i <;> rfl

/-- Every variable keeps what its own pair contributes. -/
theorem sum_boundShare (c : Multipliers qp) (j : Fin qp.variableCount) :
    ∑ i, c.net i * SparseMatrix.rowEntry (boundShare (qp.upperSide i)) j = c.net (.inl j) := by
  have hinl : ∀ j' : Fin qp.variableCount,
      SparseMatrix.rowEntry (boundShare (qp.upperSide (.inl j'))) j =
        if j' = j then 1 else 0 := by
    intro j'
    exact QuadraticProgram.rowAt_inl j' j
  have hinr : ∀ k : Fin qp.rowCount,
      SparseMatrix.rowEntry (boundShare (qp.upperSide (.inr k))) j = 0 := fun _ => rfl
  rw [Fintype.sum_sum_type]
  simp [hinl, hinr]

theorem sum_rowShare (c : Multipliers qp) (k : Fin qp.rowCount) :
    ∑ i, c.net i * SparseMatrix.rowEntry (rowShare (qp.upperSide i)) k = c.net (.inr k) := by
  have hinl : ∀ j : Fin qp.variableCount,
      SparseMatrix.rowEntry (rowShare (qp.upperSide (.inl j))) k = 0 := fun _ => rfl
  have hinr : ∀ k' : Fin qp.rowCount,
      SparseMatrix.rowEntry (rowShare (qp.upperSide (.inr k'))) k =
        if k' = k then 1 else 0 := by
    intro k'
    simp [rowShare, QuadraticProgram.upperSide, Side.upper, QuadraticProgram.originAt,
      SparseMatrix.rowEntry, Fin.ext_iff]
  rw [Fintype.sum_sum_type]
  simp [hinl, hinr]

/-- The multipliers of an answer are what the pairs contribute. -/
theorem reals_multipliers (hs : Splits sides qp) (hc : c.Gathers lam z mu) :
    (Vec.IsReal (sides.multipliers qp.variableCount qp.rowCount lam mu).1 ∧
      Vec.reals qp.variableCount (sides.multipliers qp.variableCount qp.rowCount lam mu).1 =
        fun j => c.net (.inl j)) ∧
    Vec.IsReal (sides.multipliers qp.variableCount qp.rowCount lam mu).2 ∧
      Vec.reals qp.rowCount (sides.multipliers qp.variableCount qp.rowCount lam mu).2 =
        fun k => c.net (.inr k) := by
  have hbound := foldl_share (n := qp.variableCount) hs hc
    (fun e he => isReal_boundShare (isReal_sign_of_mem_weighted hs hc he)) boundShare_lowerSide
  have hrow := foldl_share (n := qp.rowCount) hs hc
    (fun e he => isReal_rowShare (isReal_sign_of_mem_weighted hs hc he)) rowShare_lowerSide
  simp only [sum_boundShare] at hbound
  simp only [sum_rowShare] at hrow
  rw [multipliers_eq]
  exact ⟨hbound, hrow⟩

end Shares

end InteriorPoint

end SeqQuad
