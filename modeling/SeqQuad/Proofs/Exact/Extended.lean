import Mathlib
import SeqQuad.Scalar

/-!
# Exact arithmetic

The real numbers with two infinities and a value that is not a number. Real numbers are computed
with exactly; the other values follow the rules of floating-point arithmetic, where the sum of
opposite infinities, the product of zero and an infinity and the quotient of two zeros are not
numbers. There is one zero, and it divides as a positive one.
-/

namespace SeqQuad

inductive Extended where
  | real (r : ℝ)
  | posInf
  | negInf
  | nan

namespace Extended

instance : Coe ℝ Extended :=
  ⟨real⟩

attribute [coe] real

/-! ## Operations -/

protected noncomputable def add : Extended → Extended → Extended
  | nan, _ | _, nan | posInf, negInf | negInf, posInf => nan
  | real a, real b => real (a + b)
  | posInf, _ | _, posInf => posInf
  | negInf, _ | _, negInf => negInf

protected noncomputable def neg : Extended → Extended
  | real a => real (-a)
  | posInf => negInf
  | negInf => posInf
  | nan => nan

/-- The infinity `s` times a real number. -/
noncomputable def scaleInf (s : Extended) (a : ℝ) : Extended :=
  if a = 0 then nan else if 0 < a then s else s.neg

protected noncomputable def mul : Extended → Extended → Extended
  | nan, _ | _, nan => nan
  | real a, real b => real (a * b)
  | real a, posInf | posInf, real a => scaleInf posInf a
  | real a, negInf | negInf, real a => scaleInf negInf a
  | posInf, posInf | negInf, negInf => posInf
  | posInf, negInf | negInf, posInf => negInf

protected noncomputable def inv : Extended → Extended
  | real a => if a = 0 then posInf else real a⁻¹
  | posInf | negInf => real 0
  | nan => nan

protected def le : Extended → Extended → Prop
  | nan, _ | _, nan => False
  | real a, real b => a ≤ b
  | negInf, _ | _, posInf => True
  | posInf, _ | _, negInf => False

/-- The first power of a factor between zero and one that is below the least normal double. -/
noncomputable def powersTo (r : ℝ) : ℕ :=
  open Classical in
  if h : ∃ n : ℕ, r ^ n < 1 / (Nat.pow 2 1022 : ℕ) then Nat.find h else 0

noncomputable instance : Scalar Extended where
  zero := real 0
  one := real 1
  add := Extended.add
  neg := Extended.neg
  sub a b := Extended.add a (Extended.neg b)
  mul := Extended.mul
  div a b := Extended.mul a (Extended.inv b)
  natCast n := real n
  ofScientific m s e := real (OfScientific.ofScientific m s e)
  le := Extended.le
  lt a b := Extended.le a b ∧ ¬Extended.le b a
  magnitude
    | real a => real |a|
    | posInf | negInf => posInf
    | nan => nan
  sqrt
    | real a => if a < 0 then nan else real (√a)
    | posInf => posInf
    | negInf | nan => nan
  infinity := posInf
  backtracks
    | real r => powersTo r
    | _ => 0
  decLt _ _ := Classical.propDecidable _
  decLe _ _ := Classical.propDecidable _

/-! ## Real numbers among the others -/

def toReal : Extended → ℝ
  | real r => r
  | _ => 0

def IsReal (a : Extended) : Prop :=
  ∃ r : ℝ, a = r

@[simp]
theorem toReal_real (r : ℝ) : toReal r = r :=
  rfl

@[simp]
theorem isReal_real (r : ℝ) : IsReal (r : Extended) :=
  ⟨r, rfl⟩

theorem IsReal.eq {a : Extended} (h : a.IsReal) : a = (a.toReal : Extended) := by
  rcases h with ⟨r, rfl⟩
  rfl

@[simp]
theorem zero_eq : (0 : Extended) = ((0 : ℝ) : Extended) :=
  rfl

@[simp]
theorem one_eq : (1 : Extended) = ((1 : ℝ) : Extended) :=
  rfl

@[simp]
theorem natCast_eq (n : ℕ) : (n : Extended) = ((n : ℝ) : Extended) :=
  rfl

@[simp]
theorem ofScientific_eq (m : ℕ) (s : Bool) (e : ℕ) :
    (OfScientific.ofScientific m s e : Extended) =
      ((OfScientific.ofScientific m s e : ℝ) : Extended) :=
  rfl

@[simp]
theorem real_inj {a b : ℝ} : (a : Extended) = b ↔ a = b :=
  ⟨fun h => by injection h, fun h => by rw [h]⟩

theorem neg_def (a : Extended) : -a = a.neg :=
  rfl

theorem add_def (a b : Extended) : a + b = a.add b :=
  rfl

theorem sub_def (a b : Extended) : a - b = a + -b :=
  rfl

theorem mul_def (a b : Extended) : a * b = a.mul b :=
  rfl

theorem div_def (a b : Extended) : a / b = a * b.inv :=
  rfl

@[simp]
theorem neg_real (a : ℝ) : -(a : Extended) = ((-a : ℝ) : Extended) :=
  rfl

@[simp]
theorem real_add_real (a b : ℝ) : (a : Extended) + b = ((a + b : ℝ) : Extended) :=
  rfl

@[simp]
theorem real_sub_real (a b : ℝ) : (a : Extended) - b = ((a - b : ℝ) : Extended) := by
  rw [sub_def, sub_eq_add_neg]
  rfl

@[simp]
theorem real_mul_real (a b : ℝ) : (a : Extended) * b = ((a * b : ℝ) : Extended) :=
  rfl

theorem real_div_real (a : ℝ) {b : ℝ} (h : b ≠ 0) :
    (a : Extended) / b = ((a / b : ℝ) : Extended) := by
  rw [div_def, Extended.inv, if_neg h, div_eq_mul_inv]
  rfl

theorem toReal_neg (a : Extended) : (-a).toReal = -a.toReal := by
  cases a <;> simp [neg_def, Extended.neg, toReal]

@[simp]
theorem real_le_real {a b : ℝ} : (a : Extended) ≤ b ↔ a ≤ b :=
  Iff.rfl

@[simp]
theorem real_lt_real {a b : ℝ} : (a : Extended) < b ↔ a < b := by
  show a ≤ b ∧ ¬b ≤ a ↔ a < b
  rw [not_le]
  exact ⟨fun h => h.2, fun h => ⟨h.le, h⟩⟩

@[simp]
theorem magnitude_real (a : ℝ) : Scalar.magnitude (a : Extended) = ((|a| : ℝ) : Extended) :=
  rfl

@[simp]
theorem infinity_eq : (Scalar.infinity : Extended) = posInf :=
  rfl

/-! ## Sums -/

protected theorem add_zero (a : Extended) : a + 0 = a := by
  cases a <;> simp [add_def, Extended.add]

protected theorem one_mul (a : Extended) : 1 * a = a := by
  cases a <;> simp [mul_def, Extended.mul, scaleInf]

protected theorem add_assoc (a b c : Extended) : a + b + c = a + (b + c) := by
  cases a <;> cases b <;> cases c <;> simp [add_def, Extended.add]
  ring

/-! ## Order -/

@[simp]
theorem nan_le (a : Extended) : ¬nan ≤ a := by
  cases a <;> exact id

@[simp]
theorem le_nan (a : Extended) : ¬a ≤ nan := by
  cases a <;> exact id

@[simp]
theorem nan_lt (a : Extended) : ¬nan < a :=
  fun h => nan_le a h.1

@[simp]
theorem lt_nan (a : Extended) : ¬a < nan :=
  fun h => le_nan a h.1

@[simp]
theorem real_le_posInf (a : ℝ) : (a : Extended) ≤ posInf :=
  trivial

@[simp]
theorem posInf_le_real (a : ℝ) : ¬posInf ≤ (a : Extended) :=
  id

@[simp]
theorem negInf_le_real (a : ℝ) : negInf ≤ (a : Extended) :=
  trivial

@[simp]
theorem real_le_negInf (a : ℝ) : ¬(a : Extended) ≤ negInf :=
  id

@[simp]
theorem negInf_le_posInf : negInf ≤ posInf :=
  trivial

@[simp]
theorem posInf_le_negInf : ¬posInf ≤ negInf :=
  id

@[simp]
theorem posInf_le_posInf : posInf ≤ posInf :=
  trivial

@[simp]
theorem negInf_le_negInf : negInf ≤ negInf :=
  trivial

theorem lt_iff {a b : Extended} : a < b ↔ a ≤ b ∧ ¬b ≤ a :=
  Iff.rfl

@[simp]
theorem isNaN_real (a : ℝ) : Scalar.isNaN (a : Extended) = false := by
  simp [Scalar.isNaN]

theorem isNaN_eq_false_iff {a : Extended} : Scalar.isNaN a = false ↔ a ≠ nan := by
  cases a <;> simp [Scalar.isNaN]

theorem le_refl_iff {a : Extended} : a ≤ a ↔ a ≠ nan := by
  cases a <;> simp

protected theorem le_trans {a b c : Extended} (hab : a ≤ b) (hbc : b ≤ c) : a ≤ c := by
  cases a <;> cases b <;> cases c <;> simp at hab hbc ⊢
  exact hab.trans hbc

protected theorem le_total {a b : Extended} (ha : a ≠ nan) (hb : b ≠ nan) : a ≤ b ∨ b ≤ a := by
  cases a <;> cases b <;> simp at ha hb ⊢
  exact LinearOrder.le_total _ _

protected theorem lt_of_le_of_lt {a b c : Extended} (hab : a ≤ b) (hbc : b < c) : a < c :=
  ⟨Extended.le_trans hab hbc.1, fun hca => hbc.2 (Extended.le_trans hca hab)⟩

theorem not_lt_iff {a b : Extended} (ha : a ≠ nan) (hb : b ≠ nan) : ¬a < b ↔ b ≤ a := by
  rw [lt_iff, not_and_not_right]
  refine ⟨fun h => ?_, fun h _ => h⟩
  rcases Extended.le_total ha hb with hab | hba
  · exact h hab
  · exact hba

theorem isFinite_iff {a : Extended} : Scalar.isFinite a = true ↔ a.IsReal := by
  cases a <;> simp [Scalar.isFinite, Scalar.magnitude, lt_iff, IsReal]

/-! ## Larger and smaller operands -/

theorem maxNum_eq {a b : Extended} (hb : b ≠ nan) :
    Scalar.maxNum a b = if b < a then a else b := by
  rw [Scalar.maxNum, isNaN_eq_false_iff.mpr hb]
  rfl

@[simp]
theorem maxNum_real (a b : ℝ) :
    Scalar.maxNum (a : Extended) b = ((max a b : ℝ) : Extended) := by
  rw [maxNum_eq (by simp)]
  by_cases h : b < a
  · simp [h, h.le]
  · simp [h, not_lt.mp h]

@[simp]
theorem minNum_real (a b : ℝ) :
    Scalar.minNum (a : Extended) b = ((min a b : ℝ) : Extended) := by
  rw [Scalar.minNum, isNaN_real]
  by_cases h : a < b
  · simp [h, h.le]
  · simp [h, not_lt.mp h]

theorem maxNum_ne_nan {a b : Extended} (ha : a ≠ nan) (hb : b ≠ nan) :
    Scalar.maxNum a b ≠ nan := by
  rw [maxNum_eq hb]
  split <;> assumption

theorem maxNum_ne_nan_of_left {a : Extended} (ha : a ≠ nan) (b : Extended) :
    Scalar.maxNum a b ≠ nan := by
  by_cases hb : b = nan
  · simpa [hb, Scalar.maxNum, Scalar.isNaN] using ha
  · exact maxNum_ne_nan ha hb

theorem maxNum_ne_nan_of_right (a : Extended) {b : Extended} (hb : b ≠ nan) :
    Scalar.maxNum a b ≠ nan := by
  by_cases ha : a = nan
  · simpa [ha, maxNum_eq hb] using hb
  · exact maxNum_ne_nan ha hb

theorem maxNum_lt_iff {a b t : Extended} (ha : a ≠ nan) (hb : b ≠ nan) :
    Scalar.maxNum a b < t ↔ a < t ∧ b < t := by
  rw [maxNum_eq hb]
  split
  case isTrue h => exact ⟨fun hat => ⟨hat, Extended.lt_of_le_of_lt h.1 hat⟩, fun hat => hat.1⟩
  case isFalse h =>
    have hab : a ≤ b := (not_lt_iff hb ha).mp h
    exact ⟨fun hbt => ⟨Extended.lt_of_le_of_lt hab hbt, hbt⟩, fun hbt => hbt.2⟩

theorem maxNum_le_iff {a b t : Extended} (ha : a ≠ nan) (hb : b ≠ nan) :
    Scalar.maxNum a b ≤ t ↔ a ≤ t ∧ b ≤ t := by
  rw [maxNum_eq hb]
  split
  case isTrue h => exact ⟨fun hat => ⟨hat, Extended.le_trans h.1 hat⟩, fun hat => hat.1⟩
  case isFalse h =>
    have hab : a ≤ b := (not_lt_iff hb ha).mp h
    exact ⟨fun hbt => ⟨Extended.le_trans hab hbt, hbt⟩, fun hbt => hbt.2⟩

/-! ## Equality of numbers and the least normal length -/

theorem same_iff_eq {a b : Extended} (hb : b.IsReal) : Scalar.same a b = true ↔ a = b := by
  rcases hb with ⟨b, rfl⟩
  cases a with
  | real a =>
      rw [Scalar.same, Bool.and_eq_true, decide_eq_true_iff, decide_eq_true_iff, real_le_real,
        real_le_real, real_inj]
      exact le_antisymm_iff.symm
  | _ => simp [Scalar.same]

theorem epsilon_eq : ∃ r : ℝ, (Scalar.epsilon : Extended) = r ∧ 0 < r := by
  have hpos : (0 : ℝ) < ((Nat.pow 2 52 : ℕ) : ℝ) := Nat.cast_pos.mpr (Nat.two_pow_pos 52)
  exact ⟨_, real_div_real 1 hpos.ne', one_div_pos.mpr hpos⟩

theorem leastNormal_eq : ∃ r : ℝ, (Scalar.leastNormal : Extended) = r ∧ 0 < r ∧ r ≤ 1 ∧
    r = 1 / ((Nat.pow 2 1022 : ℕ) : ℝ) := by
  have hpow : ∀ n, (1 : ℝ) ≤ ((Nat.pow 2 n : ℕ) : ℝ) :=
    fun n => Nat.one_le_cast.mpr (Nat.one_le_two_pow (n := n))
  have hpos : (0 : ℝ) < ((Nat.pow 2 1022 : ℕ) : ℝ) := zero_lt_one.trans_le (hpow 1022)
  exact ⟨_, real_div_real 1 hpos.ne', one_div_pos.mpr hpos,
    div_le_self zero_le_one (hpow 1022), rfl⟩

theorem one_not_lt_leastNormal : ¬(1 : Extended) < Scalar.leastNormal := by
  obtain ⟨r, hr, -, hle, -⟩ := leastNormal_eq
  rw [hr, one_eq, real_lt_real, not_lt]
  exact hle

/-- The powers of a factor below one fall below the least normal length, for the first time at
the power that bounds the number of trials. -/
theorem isLeast_backtracks {b : ℝ} (hb1 : b < 1) :
    IsLeast {k : ℕ | ((b ^ k : ℝ) : Extended) < Scalar.leastNormal}
      (Scalar.backtracks (b : Extended)) := by
  obtain ⟨r, hr, hpos, -, heq⟩ := leastNormal_eq
  have hexists : ∃ n : ℕ, b ^ n < 1 / ((Nat.pow 2 1022 : ℕ) : ℝ) :=
    heq ▸ exists_pow_lt_of_lt_one hpos hb1
  simp only [hr, real_lt_real, heq]
  show IsLeast _ (powersTo b)
  unfold powersTo
  rw [dif_pos hexists]
  exact ⟨Nat.find_spec hexists, fun k hk => Nat.find_min' hexists hk⟩

/-! ## What only real operands make real -/

@[simp]
theorem not_isReal_posInf : ¬posInf.IsReal := by
  simp [IsReal]

@[simp]
theorem not_isReal_negInf : ¬negInf.IsReal := by
  simp [IsReal]

@[simp]
theorem not_isReal_nan : ¬nan.IsReal := by
  simp [IsReal]

@[simp]
theorem isFinite_posInf : Scalar.isFinite posInf = false := by
  rw [← Bool.not_eq_true, isFinite_iff]
  exact not_isReal_posInf

@[simp]
theorem isFinite_negInf : Scalar.isFinite negInf = false := by
  rw [← Bool.not_eq_true, isFinite_iff]
  exact not_isReal_negInf

theorem IsReal.ne_nan {a : Extended} (h : a.IsReal) : a ≠ nan := by
  rintro rfl
  exact not_isReal_nan h

@[simp]
theorem isReal_neg_iff {a : Extended} : (-a).IsReal ↔ a.IsReal := by
  cases a <;> simp [neg_def, Extended.neg]

protected theorem neg_neg (a : Extended) : - -a = a := by
  cases a with
  | real r => rw [neg_real, neg_real, neg_neg]
  | _ => rfl

theorem isFinite_neg (a : Extended) : Scalar.isFinite (-a) = Scalar.isFinite a := by
  rw [Bool.eq_iff_iff, isFinite_iff, isFinite_iff, isReal_neg_iff]

@[simp]
theorem isReal_add_iff {a b : Extended} : (a + b).IsReal ↔ a.IsReal ∧ b.IsReal := by
  cases a <;> cases b <;> simp [add_def, Extended.add]

@[simp]
theorem isReal_sub_iff {a b : Extended} : (a - b).IsReal ↔ a.IsReal ∧ b.IsReal := by
  rw [sub_def, isReal_add_iff, isReal_neg_iff]

theorem not_isReal_scaleInf {s : Extended} (hs : ¬s.IsReal) (a : ℝ) :
    ¬(scaleInf s a).IsReal := by
  unfold scaleInf
  split
  · exact not_isReal_nan
  · split
    · exact hs
    · exact fun h => hs (isReal_neg_iff.mp h)

@[simp]
theorem isReal_mul_iff {a b : Extended} : (a * b).IsReal ↔ a.IsReal ∧ b.IsReal := by
  cases a <;> cases b <;> simp [mul_def, Extended.mul, not_isReal_scaleInf]

theorem IsReal.div {a b : Extended} (ha : a.IsReal) (hb : b.IsReal) (h : b.toReal ≠ 0) :
    (a / b).IsReal := by
  rw [ha.eq, hb.eq, real_div_real _ h]
  exact isReal_real _

/-- A bound on a quotient by a positive number is a bound on the dividend. -/
theorem lt_mul_of_div_lt {a b : ℝ} {t : Extended} (hb : 0 < b) (h : (a : Extended) / b < t) :
    (a : Extended) < t * b := by
  rw [real_div_real a hb.ne'] at h
  cases t with
  | real t =>
      rw [real_lt_real, div_lt_iff₀ hb] at h
      rwa [real_mul_real, real_lt_real]
  | posInf => simp [mul_def, Extended.mul, scaleInf, hb, hb.ne', lt_iff]
  | negInf => simp [lt_iff] at h
  | nan => exact absurd h (lt_nan _)

end Extended

end SeqQuad
