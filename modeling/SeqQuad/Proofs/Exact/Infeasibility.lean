import SeqQuad.Merit
import SeqQuad.Proofs.Exact.Vector

/-!
# Infeasibility in exact arithmetic

The infeasibility of real values against bounds that may be infinite: it is never negative, and
it bounds the violation of every single bound.
-/

namespace SeqQuad

open Extended Scalar

/-- Real values with a lower and an upper bound each, in order. -/
structure Boxed (n : ℕ) (values lower upper : List Extended) : Prop where
  length_values : values.length = n
  length_lower : lower.length = n
  length_upper : upper.length = n
  real : Vec.IsReal values
  le : ∀ j < n, Vec.coord lower j ≤ Vec.coord upper j

namespace Extended

theorem zero_ne_nan : (0 : Extended) ≠ nan :=
  (isReal_real 0).ne_nan

/-- Neither excess over bounds in order is undefined. -/
theorem excess_ne_nan {lower upper : Extended} (h : lower ≤ upper) (v : ℝ) :
    lower - (v : Extended) ≠ nan ∧ (v : Extended) - upper ≠ nan := by
  cases lower <;> cases upper <;> simp [sub_def, neg_def, add_def, Extended.neg, Extended.add] at h ⊢

/-- A value within bounds exceeds neither. -/
theorem excess_nonpos {lower upper : Extended} {v : ℝ} (hlower : lower ≤ (v : Extended))
    (hupper : (v : Extended) ≤ upper) : lower - (v : Extended) ≤ 0 ∧ (v : Extended) - upper ≤ 0 := by
  constructor
  · cases lower <;> simp [sub_def, neg_def, add_def, Extended.neg, Extended.add] at hlower ⊢
    linarith
  · cases upper <;> simp [sub_def, neg_def, add_def, Extended.neg, Extended.add] at hupper ⊢
    linarith

theorem sub_lt_of_sub_lt {lower tol : Extended} {v : ℝ} (h : lower - (v : Extended) < tol) :
    lower - tol < (v : Extended) := by
  cases lower <;> cases tol <;>
    simp [sub_def, neg_def, add_def, Extended.neg, Extended.add, lt_iff] at h ⊢
  constructor <;> linarith [h.2]

theorem lt_add_of_sub_lt {upper tol : Extended} {v : ℝ} (h : (v : Extended) - upper < tol) :
    (v : Extended) < upper + tol := by
  cases upper <;> cases tol <;>
    simp [sub_def, neg_def, add_def, Extended.neg, Extended.add, lt_iff] at h ⊢
  constructor <;> linarith [h.2]

theorem neg_sub_eq {a b : Extended} {r : ℝ} (h : (r : Extended) = a - b) :
    b - a = ((-r : ℝ) : Extended) := by
  have hreal : (a - b).IsReal := ⟨r, h.symm⟩
  rcases isReal_sub_iff.mp hreal with ⟨⟨a, rfl⟩, ⟨b, rfl⟩⟩
  rw [real_sub_real, real_inj] at h
  rw [real_sub_real, real_inj, h]
  ring

end Extended

section Violations

variable {n : ℕ} {values lower upper : List Extended}

theorem Boxed.violations_eq (h : Boxed n values lower upper) :
    violations values lower upper = (List.range n).map fun j =>
      maxNum (Vec.coord lower j - Vec.coord values j)
        (Vec.coord values j - Vec.coord upper j) := by
  have hv := h.length_values
  have hl := h.length_lower
  have hu := h.length_upper
  apply List.ext_getElem
  · simp [violations, hv, hl, hu]
  · intro j hj _
    have hjn : j < n := by
      simp only [violations, List.length_zipWith, List.length_zip] at hj
      omega
    simp [violations, Vec.coord, hv, hl, hu, hjn]

theorem Boxed.excess_ne_nan (h : Boxed n values lower upper) {j : ℕ} (hj : j < n) :
    Vec.coord lower j - Vec.coord values j ≠ nan ∧
      Vec.coord values j - Vec.coord upper j ≠ nan := by
  obtain ⟨v, hv⟩ := h.real.coord j
  rw [hv]
  exact Extended.excess_ne_nan (h.le j hj) v

theorem Boxed.violations_ne_nan (h : Boxed n values lower upper) :
    ∀ b ∈ violations values lower upper, b ≠ nan := by
  rw [h.violations_eq]
  intro b hb
  rcases List.mem_map.mp hb with ⟨j, hj, rfl⟩
  rcases h.excess_ne_nan (List.mem_range.mp hj) with ⟨hl, hu⟩
  exact maxNum_ne_nan hl hu

/-- What is above every violation is above every excess. -/
theorem Boxed.forall_violations_lt_iff (h : Boxed n values lower upper) {t : Extended} :
    (∀ b ∈ violations values lower upper, b < t) ↔
      ∀ j < n, Vec.coord lower j - Vec.coord values j < t ∧
        Vec.coord values j - Vec.coord upper j < t := by
  rw [h.violations_eq, List.forall_mem_map]
  refine forall_congr' fun j => ?_
  rw [List.mem_range]
  refine forall_congr' fun hj => ?_
  obtain ⟨hl, hu⟩ := h.excess_ne_nan hj
  exact maxNum_lt_iff hl hu

theorem Boxed.forall_violations_le_iff (h : Boxed n values lower upper) {t : Extended} :
    (∀ b ∈ violations values lower upper, b ≤ t) ↔
      ∀ j < n, Vec.coord lower j - Vec.coord values j ≤ t ∧
        Vec.coord values j - Vec.coord upper j ≤ t := by
  rw [h.violations_eq, List.forall_mem_map]
  refine forall_congr' fun j => ?_
  rw [List.mem_range]
  refine forall_congr' fun hj => ?_
  obtain ⟨hl, hu⟩ := h.excess_ne_nan hj
  exact maxNum_le_iff hl hu

end Violations

section Infeasibility

variable {n m : ℕ} {x xmin xmax g gmin gmax : List Extended} (hx : Boxed n x xmin xmax)
  (hg : Boxed m g gmin gmax)
include hx hg

theorem all_violations_ne_nan :
    ∀ b ∈ violations x xmin xmax ++ violations g gmin gmax, b ≠ nan :=
  List.forall_mem_append.mpr ⟨hx.violations_ne_nan, hg.violations_ne_nan⟩

theorem primalInfeasibility_ne_nan : primalInfeasibility x xmin xmax g gmin gmax ≠ nan :=
  Vec.foldl_maxNum_ne_nan zero_ne_nan (all_violations_ne_nan hx hg)

theorem primalInfeasibility_lt_iff {t : Extended} :
    primalInfeasibility x xmin xmax g gmin gmax < t ↔ 0 < t ∧
      (∀ j < n, Vec.coord xmin j - Vec.coord x j < t ∧ Vec.coord x j - Vec.coord xmax j < t) ∧
      ∀ i < m, Vec.coord gmin i - Vec.coord g i < t ∧ Vec.coord g i - Vec.coord gmax i < t := by
  rw [primalInfeasibility, Vec.foldl_maxNum_lt_iff zero_ne_nan
    (all_violations_ne_nan hx hg), List.forall_mem_append, hx.forall_violations_lt_iff,
    hg.forall_violations_lt_iff]

theorem primalInfeasibility_le_iff {t : Extended} :
    primalInfeasibility x xmin xmax g gmin gmax ≤ t ↔ 0 ≤ t ∧
      (∀ j < n, Vec.coord xmin j - Vec.coord x j ≤ t ∧ Vec.coord x j - Vec.coord xmax j ≤ t) ∧
      ∀ i < m, Vec.coord gmin i - Vec.coord g i ≤ t ∧ Vec.coord g i - Vec.coord gmax i ≤ t := by
  rw [primalInfeasibility, Vec.foldl_maxNum_le_iff zero_ne_nan
    (all_violations_ne_nan hx hg), List.forall_mem_append, hx.forall_violations_le_iff,
    hg.forall_violations_le_iff]

theorem primalInfeasibility_nonneg : 0 ≤ primalInfeasibility x xmin xmax g gmin gmax :=
  ((primalInfeasibility_le_iff hx hg).mp (le_refl_iff.mpr (primalInfeasibility_ne_nan hx hg))).1

/-- A limited infeasibility is a real number. -/
theorem exists_real_primalInfeasibility
    (h : primalInfeasibility x xmin xmax g gmin gmax < posInf) :
    ∃ e : ℝ, 0 ≤ e ∧ primalInfeasibility x xmin xmax g gmin gmax = e := by
  have hnonneg := primalInfeasibility_nonneg hx hg
  generalize primalInfeasibility x xmin xmax g gmin gmax = e at h hnonneg ⊢
  cases e with
  | real e => exact ⟨e, real_le_real.mp hnonneg, rfl⟩
  | posInf => exact absurd posInf_le_posInf h.2
  | negInf => exact absurd hnonneg (real_le_negInf 0)
  | nan => exact absurd h (nan_lt _)

/-- Values within all bounds have no infeasibility. -/
theorem primalInfeasibility_eq_zero
    (hinx : ∀ j < n, Vec.coord xmin j ≤ Vec.coord x j ∧ Vec.coord x j ≤ Vec.coord xmax j)
    (hing : ∀ i < m, Vec.coord gmin i ≤ Vec.coord g i ∧ Vec.coord g i ≤ Vec.coord gmax i) :
    primalInfeasibility x xmin xmax g gmin gmax = 0 := by
  have hle : primalInfeasibility x xmin xmax g gmin gmax ≤ 0 := by
    refine (primalInfeasibility_le_iff hx hg).mpr ⟨le_refl_iff.mpr zero_ne_nan, ?_, ?_⟩
    · intro j hj
      obtain ⟨v, hv⟩ := hx.real.coord j
      rw [hv]
      exact excess_nonpos (hv ▸ (hinx j hj).1) (hv ▸ (hinx j hj).2)
    · intro i hi
      obtain ⟨v, hv⟩ := hg.real.coord i
      rw [hv]
      exact excess_nonpos (hv ▸ (hing i hi).1) (hv ▸ (hing i hi).2)
  have hnonneg := primalInfeasibility_nonneg hx hg
  generalize primalInfeasibility x xmin xmax g gmin gmax = e at hle hnonneg
  cases e <;> simp at hle hnonneg
  rw [le_antisymm hle hnonneg, zero_eq]

end Infeasibility

end SeqQuad
