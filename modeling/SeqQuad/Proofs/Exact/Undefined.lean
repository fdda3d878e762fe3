import SeqQuad.Proofs.Exact.Infeasibility
import SeqQuad.Proofs.Exact.Ordered

/-!
# Undefined entries

A largest magnitude and an infeasibility pass over the entries that are not numbers. So they lie
below a bound just when the bound is positive and every entry that is a number lies below it,
whatever the other entries should have been.
-/

namespace SeqQuad

open Extended Scalar

namespace Extended

/-! ## Larger operands -/

@[simp]
theorem maxNum_nan (a : Extended) : maxNum a nan = a := by
  simp [maxNum, isNaN]

/-! ## Scaling -/

/-- A factor that is not negative keeps a smaller operand below a bound. -/
theorem mul_lt_of_le {a b t : Extended} {s : ℝ} (hs : 0 ≤ s) (ha : 0 ≤ a) (hab : a ≤ b)
    (h : b * (s : Extended) < t) : a * (s : Extended) < t := by
  cases b with
  | real b =>
      cases a with
      | real a =>
          rw [real_mul_real] at h ⊢
          have hle := mul_le_mul_of_nonneg_right (real_le_real.mp hab) hs
          exact Extended.lt_of_le_of_lt (real_le_real.mpr hle) h
      | posInf => exact absurd hab (posInf_le_real b)
      | negInf => exact absurd ha (real_le_negInf 0)
      | nan => exact absurd ha (le_nan _)
  | posInf =>
      -- an infinite product is below nothing, and the other one is not a number
      exfalso
      rcases hs.eq_or_lt with rfl | hpos
      · simp [mul_def, Extended.mul, scaleInf] at h
      · cases t <;> simp [mul_def, Extended.mul, scaleInf, hpos, hpos.ne', lt_iff] at h
  | negInf => exact absurd (Extended.le_trans ha hab) (real_le_negInf 0)
  | nan => exact absurd hab (le_nan a)

/-- The reciprocal of one more than a quantity that is not negative is one. -/
theorem inv_one_add {a : Extended} (ha : 0 ≤ a) : ∃ s : ℝ, 0 ≤ s ∧ (1 + a).inv = s := by
  cases a with
  | real r =>
      have hr : 0 ≤ r := real_le_real.mp ha
      have hne : 1 + r ≠ 0 := by positivity
      exact ⟨(1 + r)⁻¹, by positivity, by rw [one_eq, real_add_real, Extended.inv, if_neg hne]⟩
  | posInf => exact ⟨0, le_rfl, rfl⟩
  | negInf => exact absurd ha (real_le_negInf 0)
  | nan => exact absurd ha (le_nan _)

end Extended

/-! ## Largest entries -/

namespace Vec

/-- No entry that is a number exceeds the largest one. -/
theorem eq_nan_or_le_foldl_maxNum (l : List Extended) (c : Extended) :
    ∀ a ∈ c :: l, a = nan ∨ a ≤ l.foldl maxNum c := fun a ha =>
  or_iff_not_imp_left.mpr fun hne => le_foldl_maxNum l c a ha (le_refl_iff.mpr hne)

/-- The largest entry is below a bound when every entry that is a number is. -/
theorem foldl_maxNum_lt_iff_of_defined {l : List Extended} {c t : Extended} (hc : c ≠ nan) :
    l.foldl maxNum c < t ↔ c < t ∧ ∀ a ∈ l, a = nan ∨ a < t := by
  constructor
  · intro h
    have hall : ∀ a ∈ c :: l, a = nan ∨ a < t := fun a ha =>
      (eq_nan_or_le_foldl_maxNum l c a ha).imp_right fun hle => Extended.lt_of_le_of_lt hle h
    obtain ⟨hfirst, hrest⟩ := List.forall_mem_cons.mp hall
    exact ⟨hfirst.resolve_left hc, hrest⟩
  · rintro ⟨hct, hlt⟩
    rcases List.mem_cons.mp (foldl_maxNum_mem l c) with h | h
    · rwa [h]
    · exact (hlt _ h).resolve_left (foldl_maxNum_ne_nan_of_ne l hc)

/-- The largest magnitude is zero or that of an entry that is a number. -/
theorem normInf_eq_zero_or (x : List Extended) :
    normInf x = 0 ∨ ∃ a ∈ x, a ≠ nan ∧ normInf x = magnitude a := by
  rcases List.mem_cons.mp (foldl_maxNum_mem (x.map magnitude) 0) with h | h
  · exact .inl h
  · obtain ⟨a, ha, heq⟩ := List.mem_map.mp h
    refine .inr ⟨a, ha, ?_, heq.symm⟩
    rintro rfl
    exact foldl_maxNum_ne_nan_of_ne (x.map magnitude) zero_ne_nan heq.symm

theorem normInf_mul_lt_iff {x : List Extended} {t : Extended} {s : ℝ} (hs : 0 ≤ s) :
    normInf x * (s : Extended) < t ↔ 0 < t ∧ ∀ a ∈ x, a = nan ∨ magnitude a * (s : Extended) < t := by
  have hzero : (0 : Extended) * (s : Extended) = 0 := by
    rw [zero_eq, real_mul_real, zero_mul]
  constructor
  · intro h
    refine ⟨hzero ▸ mul_lt_of_le hs (le_refl_iff.mpr zero_ne_nan) (normInf_nonneg x) h, ?_⟩
    intro a ha
    by_cases hne : a = nan
    · exact .inl hne
    · exact .inr (mul_lt_of_le hs (magnitude_nonneg hne)
        (magnitude_le_normInf ha (le_refl_iff.mpr hne)) h)
  · rintro ⟨ht, hall⟩
    rcases normInf_eq_zero_or x with h0 | ⟨a, ha, hne, heq⟩
    · rwa [h0, hzero]
    · rw [heq]
      exact (hall a ha).resolve_left hne

/-- A largest magnitude relative to one more than a quantity that is not negative. -/
theorem normInf_div_lt_iff {x : List Extended} {a t : Extended} (ha : 0 ≤ a) :
    normInf x / (1 + a) < t ↔ 0 < t ∧ ∀ b ∈ x, b = nan ∨ magnitude b / (1 + a) < t := by
  obtain ⟨s, hs, hinv⟩ := inv_one_add ha
  simp only [div_def, hinv]
  exact normInf_mul_lt_iff hs

theorem normInf_lt_iff {x : List Extended} {t : Extended} :
    normInf x < t ↔ 0 < t ∧ ∀ a ∈ x, a = nan ∨ magnitude a < t := by
  have hone : ∀ a : Extended, a * ((1 : ℝ) : Extended) = a := by
    intro a
    cases a <;> simp [mul_def, Extended.mul, scaleInf]
  have h := normInf_mul_lt_iff (x := x) (t := t) zero_le_one
  simpa only [hone] using h

end Vec

/-- The violation of a value that is not a number is none either. -/
theorem violation_nan (lower upper : Extended) : maxNum (lower - nan) (nan - upper) = nan := by
  have hlower : lower - nan = nan := by cases lower <;> rfl
  have hupper : nan - upper = nan := rfl
  rw [hlower, hupper, maxNum_nan]

/-- The infeasibility is below a tolerance when every violation that is a number is. -/
theorem primalInfeasibility_lt_iff_of_defined {x xmin xmax g gmin gmax : List Extended}
    {t : Extended} :
    primalInfeasibility x xmin xmax g gmin gmax < t ↔
      0 < t ∧ ∀ b ∈ violations x xmin xmax ++ violations g gmin gmax, b = nan ∨ b < t :=
  Vec.foldl_maxNum_lt_iff_of_defined zero_ne_nan

end SeqQuad
