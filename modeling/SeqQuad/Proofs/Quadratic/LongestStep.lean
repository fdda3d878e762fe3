import SeqQuad.Proofs.Quadratic.Interior

/-!
# The longest safe step

A step is safe if every entry keeps the fraction `1 - xi` of its value. An entry that does not
fall allows every step, one that falls allows the steps up to the fraction `xi` of the way to
where it vanishes. The step length is the greatest length that all entries allow.
-/

namespace SeqQuad.InteriorPoint

open Extended Scalar

/-- An entry allows a step just when it does not fall, or the step is no longer than the fraction
`xi` of the way to where it vanishes. -/
theorem keeps_iff {xi p d s : ℝ} (hp : 0 ≤ xi * p) (hs : 0 ≤ s) :
    (1 - xi) * p ≤ p + s * d ↔ (d < 0 → s ≤ xi * (p / -d)) := by
  have hfall : (1 - xi) * p ≤ p + s * d ↔ s * -d ≤ xi * p := by
    rw [sub_mul, one_mul, mul_neg]
    constructor <;> intro h <;> linarith
  rw [hfall]
  constructor
  · intro h hd
    rwa [mul_div_assoc', le_div_iff₀ (neg_pos.mpr hd)]
  · intro h
    by_cases hd : d < 0
    · have hbound := h hd
      rwa [mul_div_assoc', le_div_iff₀ (neg_pos.mpr hd)] at hbound
    · have hstep : 0 ≤ s * d := mul_nonneg hs (not_lt.mp hd)
      linarith

section Vectors

variable {n : ℕ}

theorem positive_ofReals {v : Fin n → ℝ} (hv : ∀ k, 0 < v k) : Vec.Positive (Vec.ofReals v) :=
  List.forall_mem_ofFn_iff.mpr fun k => ⟨v k, hv k, rfl⟩

theorem mem_zip_ofReals {v dv : Fin n → ℝ} {e : Extended × Extended} :
    e ∈ (Vec.ofReals v).zip (Vec.ofReals dv) ↔ ∃ k, ((v k : Extended), (dv k : Extended)) = e := by
  have hzip : (Vec.ofReals v).zip (Vec.ofReals dv) =
      List.ofFn fun k => ((v k : Extended), (dv k : Extended)) := by
    apply List.ext_getElem <;> simp [Vec.ofReals]
  rw [hzip, List.mem_ofFn]

/-- The ways to the boundary are those of the entries that fall. -/
theorem mem_ratios_ofReals {xi : ℝ} {v dv : Fin n → ℝ} {a : Extended} :
    a ∈ ((((Vec.ofReals v).zip (Vec.ofReals dv)).filter fun e => e.2 < 0).map
      fun e => (xi : Extended) * (e.1 / -e.2)) ↔
    ∃ k, dv k < 0 ∧ ((xi * (v k / -dv k) : ℝ) : Extended) = a := by
  simp only [List.mem_map, List.mem_filter, mem_zip_ofReals, decide_eq_true_eq]
  constructor
  · rintro ⟨_, ⟨⟨k, rfl⟩, hneg⟩, rfl⟩
    have hk : dv k < 0 := by simpa using hneg
    exact ⟨k, hk, (ratio_eq xi (v k) hk).symm⟩
  · rintro ⟨k, hk, rfl⟩
    exact ⟨_, ⟨⟨k, rfl⟩, by simpa using hk⟩, ratio_eq xi (v k) hk⟩

/-- The step length is positive, and it is the greatest length up to one that lets every entry
keep the fraction `1 - xi` of its value. -/
theorem isGreatest_stepLength {xi : ℝ} (hxi : 0 < xi) {v dv : Fin n → ℝ} (hv : ∀ k, 0 < v k) :
    ∃ a : ℝ, stepLength (xi : Extended) (Vec.ofReals v) (Vec.ofReals dv) = a ∧ 0 < a ∧
      IsGreatest {s : ℝ | (0 ≤ s ∧ s ≤ 1) ∧ ∀ k, (1 - xi) * v k ≤ v k + s * dv k} a := by
  have hreal : Vec.IsReal (Vec.ofReals v) := Vec.isReal_ofReals v
  obtain ⟨a, ha, hpos, -, -⟩ := stepLength_spec hxi (positive_ofReals hv) (Vec.isReal_ofReals dv)
  obtain ⟨r, hr, ⟨hle, hmem⟩, hgreatest⟩ :=
    Vec.isGreatest_foldl_minNum (isReal_ratios xi hreal (Vec.isReal_ofReals dv)) 1
  obtain rfl : r = a := real_inj.mp (hr.symm.trans ha)
  have hkeeps : ∀ k, ∀ s, 0 ≤ s →
      ((1 - xi) * v k ≤ v k + s * dv k ↔ (dv k < 0 → s ≤ xi * (v k / -dv k))) :=
    fun k s hs => keeps_iff (mul_nonneg hxi.le (hv k).le) hs
  refine ⟨r, ha, hpos, ⟨⟨hpos.le, hle⟩, fun k => (hkeeps k r hpos.le).mpr fun hk => ?_⟩, ?_⟩
  · exact real_le_real.mp (hmem _ (mem_ratios_ofReals.mpr ⟨k, hk, rfl⟩))
  · rintro s ⟨⟨hs0, hs1⟩, hs⟩
    refine hgreatest ⟨hs1, fun b hb => ?_⟩
    obtain ⟨k, hk, rfl⟩ := mem_ratios_ofReals.mp hb
    exact real_le_real.mpr ((hkeeps k s hs0).mp (hs k) hk)

/-- Of two entries that fall and one that rises, the two allow the same way and the third any. -/
theorem tied_isGreatest_stepLength :
    (0 : ℝ) < 1 / 2 ∧ (∀ k, (0 : ℝ) < ![2, 1, 1] k) ∧
    ∃ a : ℝ, stepLength ((1 / 2 : ℝ) : Extended) (Vec.ofReals ![2, 1, 1])
        (Vec.ofReals ![-4, -2, 3]) = a ∧ 0 < a ∧
      IsGreatest {s : ℝ | (0 ≤ s ∧ s ≤ 1) ∧ ∀ k,
        (1 - 1 / 2) * ![2, 1, 1] k ≤ ![2, 1, 1] k + s * (![-4, -2, 3] : Fin 3 → ℝ) k} a := by
  have hv : ∀ k, (0 : ℝ) < ![2, 1, 1] k := by
    intro k
    fin_cases k <;> simp
  exact ⟨one_half_pos, hv, isGreatest_stepLength one_half_pos hv⟩

end Vectors

end SeqQuad.InteriorPoint
