import SeqQuad.Proofs.Exact.Extended
import SeqQuad.Vec

/-!
# Laws of order

What is known of comparisons, magnitudes and largest entries in any arithmetic whose numbers are
ordered. A value is a number when it is at most itself. Doubles follow these laws, and so does
exact arithmetic.
-/

namespace SeqQuad

namespace Scalar

variable {α : Type} [Scalar α]

theorem isNaN_eq_false {a : α} : isNaN a = false ↔ a ≤ a := by
  simp [isNaN]

theorem maxNum_eq_or (a b : α) : maxNum a b = a ∨ maxNum a b = b := by
  unfold maxNum
  split
  · exact .inl rfl
  · split
    · exact .inl rfl
    · exact .inr rfl

/-- An arithmetic whose numbers are ordered, where a magnitude is not negative and rounding does
not bring a product with the factor of the penalty below its other operand. -/
class Ordered (α : Type) [Scalar α] : Prop where
  le_trans : ∀ {a b c : α}, a ≤ b → b ≤ c → a ≤ c
  le_total : ∀ {a b : α}, a ≤ a → b ≤ b → a ≤ b ∨ b ≤ a
  number_of_le : ∀ {a b : α}, a ≤ b → a ≤ a ∧ b ≤ b
  lt_iff : ∀ {a b : α}, a < b ↔ a ≤ b ∧ ¬b ≤ a
  zero_le_zero : (0 : α) ≤ 0
  zero_le_magnitude : ∀ {a : α}, a ≤ a → 0 ≤ magnitude a
  le_mul_penalty : ∀ {a : α}, 0 ≤ a → a ≤ 1.01 * a

variable [Ordered α]

/-- The larger operand is at least every operand that is a number. -/
theorem le_maxNum_left {a : α} (ha : a ≤ a) (b : α) : a ≤ maxNum a b := by
  unfold maxNum
  split
  · exact ha
  · rename_i hb
    rw [Bool.not_eq_true, isNaN_eq_false] at hb
    split
    · exact ha
    · rename_i hlt
      rw [Ordered.lt_iff, not_and_not_right] at hlt
      exact (Ordered.le_total ha hb).elim id hlt

theorem le_maxNum_right (a : α) {b : α} (hb : b ≤ b) : b ≤ maxNum a b := by
  unfold maxNum
  rw [isNaN_eq_false.mpr hb]
  split
  · contradiction
  · split
    · rename_i hlt
      exact (Ordered.lt_iff.mp hlt).1
    · exact hb

end Scalar

/-! ## Largest entries -/

namespace Vec

open Scalar

variable {α : Type} [Scalar α]

theorem foldl_maxNum_mem (l : List α) (c : α) : l.foldl maxNum c ∈ c :: l := by
  induction l generalizing c with
  | nil => exact List.mem_cons_self
  | cons b l ih =>
      rcases List.mem_cons.mp (ih (maxNum c b)) with h | h
      · rw [List.foldl_cons, h]
        rcases maxNum_eq_or c b with hc | hb
        · simp [hc]
        · simp [hb]
      · exact List.mem_cons_of_mem c (List.mem_cons_of_mem b h)

/-- What is at least zero and at least every magnitude is at least the largest one. -/
theorem normInf_le {x : List α} {t : α} (h0 : 0 ≤ t) (h : ∀ a ∈ x, magnitude a ≤ t) :
    normInf x ≤ t := by
  rcases List.mem_cons.mp (foldl_maxNum_mem (x.map magnitude) 0) with hzero | hmem
  · rw [normInf, hzero]
    exact h0
  · obtain ⟨a, ha, heq⟩ := List.mem_map.mp hmem
    rw [normInf, ← heq]
    exact h a ha

variable [Ordered α]

/-- No entry that is a number exceeds the largest one. -/
theorem le_foldl_maxNum (l : List α) (c : α) : ∀ a ∈ c :: l, a ≤ a → a ≤ l.foldl maxNum c := by
  induction l generalizing c with
  | nil =>
      intro a ha hnumber
      obtain rfl := List.mem_singleton.mp ha
      exact hnumber
  | cons b l ih =>
      obtain ⟨hlarger, hrest⟩ := List.forall_mem_cons.mp (ih (maxNum c b))
      have hle : ∀ a, a ≤ maxNum c b → a ≤ l.foldl maxNum (maxNum c b) := fun a ha =>
        Ordered.le_trans ha (hlarger (Ordered.number_of_le ha).2)
      refine List.forall_mem_cons.mpr ⟨fun hc => ?_, List.forall_mem_cons.mpr ⟨fun hb => ?_, hrest⟩⟩
      · exact hle c (le_maxNum_left hc b)
      · exact hle b (le_maxNum_right c hb)

theorem normInf_nonneg (x : List α) : 0 ≤ normInf x :=
  le_foldl_maxNum (x.map magnitude) 0 0 List.mem_cons_self Ordered.zero_le_zero

theorem magnitude_le_normInf {x : List α} {a : α} (ha : a ∈ x) (hnumber : a ≤ a) :
    magnitude a ≤ normInf x := by
  have hmem : magnitude a ∈ 0 :: x.map magnitude :=
    List.mem_cons_of_mem 0 (List.mem_map_of_mem ha)
  exact le_foldl_maxNum _ 0 _ hmem
    (Ordered.number_of_le (Ordered.zero_le_magnitude hnumber)).2

end Vec

/-! ## Exact arithmetic -/

namespace Extended

open Scalar

theorem magnitude_nonneg {a : Extended} (ha : a ≠ nan) : 0 ≤ magnitude a := by
  cases a with
  | real r => exact real_le_real.mpr (abs_nonneg r)
  | posInf => exact real_le_posInf 0
  | negInf => exact real_le_posInf 0
  | nan => exact absurd rfl ha

theorem le_mul_penalty {a : Extended} (ha : 0 ≤ a) : a ≤ 1.01 * a := by
  cases a with
  | real r =>
      rw [zero_eq, real_le_real] at ha
      rw [ofScientific_eq, real_mul_real, real_le_real]
      norm_num
      linarith
  | posInf =>
      have hpos : (0 : ℝ) < 1.01 := by norm_num
      simp [mul_def, Extended.mul, scaleInf, hpos, hpos.ne']
  | negInf => exact absurd ha (real_le_negInf 0)
  | nan => exact absurd ha (le_nan _)

instance : Ordered Extended where
  le_trans := Extended.le_trans
  le_total ha hb := Extended.le_total (le_refl_iff.mp ha) (le_refl_iff.mp hb)
  number_of_le {a b} h := by
    cases a <;> cases b <;> simp at h ⊢
  lt_iff := lt_iff
  zero_le_zero := real_le_real.mpr le_rfl
  zero_le_magnitude ha := magnitude_nonneg (le_refl_iff.mp ha)
  le_mul_penalty := le_mul_penalty

end Extended

end SeqQuad
