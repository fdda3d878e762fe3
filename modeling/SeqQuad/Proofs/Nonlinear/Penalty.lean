import SeqQuad.Proofs.Exact.Ordered
import SeqQuad.Proofs.Nonlinear.Answers
import SeqQuad.Proofs.Nonlinear.NonMonotone

/-!
# The penalty and the multipliers of a run

The penalty is the largest that the multipliers of the subproblems so far ask for, in any
arithmetic with ordered numbers. The multipliers of a run are mixed from its first estimates and
the multipliers of the subproblems, wherever the line searches end, so the penalty bounds them as
well.
-/

namespace SeqQuad.Nonlinear

open Extended Scalar

/-! ## The two families of bounds -/

section Families

variable {α : Type}

/-- The multipliers of one family of bounds. -/
def Multipliers.of (lam : Multipliers α) : Bounded → List α
  | .point => lam.x
  | .values => lam.g

/-- The multipliers that a solution of a subproblem has for one family of bounds. -/
def duals (sol : QuadraticSolution α) : Bounded → List α
  | .point => sol.lamX
  | .values => sol.lamA

/-- The number of bounds of a family. -/
def Problem.count (p : Problem α) : Bounded → ℕ
  | .point => p.variableCount
  | .values => p.constraintCount

variable [Scalar α] {t : Task α} {s s' : Iterate α} {sol : QuadraticSolution α}

theorem Task.nextMultipliers_of (t : Task α) (s : Iterate α) (sol : QuadraticSolution α)
    (length : α) (what : Bounded) :
    (t.nextMultipliers s sol length).of what =
      if 0 < t.options.maxSearchTrials then
        Vec.blend length (duals sol what) (s.multipliers.of what)
      else duals sol what := by
  unfold nextMultipliers
  split <;> cases what <;> rfl

theorem Task.Stepped.length_duals (h : t.Stepped s sol s') (what : Bounded) :
    (duals sol what).length = t.problem.count what := by
  cases what with
  | point => exact h.length_lamX
  | values => exact h.length_lamA

theorem length_multipliers_of {opt : Options α} {backend : Backend α}
    {callback : Option (Snapshot α → Bool)} {p : Problem α}
    (hs : s ∈ runHeads opt backend callback p) (what : Bounded) :
    (s.multipliers.of what).length = p.count what := by
  obtain ⟨hx, hg⟩ := length_multipliers_of_mem_runHeads s hs
  cases what with
  | point => exact hx
  | values => exact hg

end Families

/-! ## The penalty -/

section Penalty

variable {α : Type} [Scalar α]

/-- The penalty grows only where a family of multipliers asks for it. -/
theorem Task.nextSigma_eq_or (sigma : α) (sol : QuadraticSolution α) :
    nextSigma sigma sol = sigma ∨
      ∃ what, nextSigma sigma sol = 1.01 * Vec.normInf (duals sol what) := by
  unfold nextSigma
  rcases maxNum_eq_or (maxNum sigma (1.01 * Vec.normInf sol.lamX)) (1.01 * Vec.normInf sol.lamA)
    with h | h
  · rw [h]
    rcases maxNum_eq_or sigma (1.01 * Vec.normInf sol.lamX) with h' | h'
    · exact .inl h'
    · exact .inr ⟨.point, h'⟩
  · exact .inr ⟨.values, h⟩

variable [Ordered α]

theorem le_penalty (sol : QuadraticSolution α) (what : Bounded) :
    Vec.normInf (duals sol what) ≤ 1.01 * Vec.normInf (duals sol what) :=
  Ordered.le_mul_penalty (Vec.normInf_nonneg _)

theorem Task.le_nextSigma {sigma : α} (h : sigma ≤ sigma) (sol : QuadraticSolution α) :
    sigma ≤ nextSigma sigma sol := by
  have hfirst := le_maxNum_left h (1.01 * Vec.normInf sol.lamX)
  have hlarger := (Ordered.number_of_le hfirst).2
  exact Ordered.le_trans hfirst (le_maxNum_left hlarger (1.01 * Vec.normInf sol.lamA))

theorem Task.penalty_le_nextSigma (sigma : α) (sol : QuadraticSolution α) (what : Bounded) :
    1.01 * Vec.normInf (duals sol what) ≤ nextSigma sigma sol := by
  have hnumber := (Ordered.number_of_le (le_penalty sol what)).2
  cases what with
  | point =>
      have hfirst := le_maxNum_right sigma hnumber
      have hlarger := (Ordered.number_of_le hfirst).2
      exact Ordered.le_trans hfirst (le_maxNum_left hlarger (1.01 * Vec.normInf sol.lamA))
  | values => exact le_maxNum_right _ hnumber

variable {opt : Options α} {backend : Backend α} {callback : Option (Snapshot α → Bool)}
  {p : Problem α} {checked : Checked α}

/-- Zero and the penalties that the first `k` answers of a run ask for. -/
def penalties (opt : Options α) (backend : Backend α) (callback : Option (Snapshot α → Bool))
    (p : Problem α) (k : ℕ) : Set α :=
  {b | b = 0 ∨ ∃ i < k, ∃ sol what, AnswerAt opt backend callback p i sol ∧
    b = 1.01 * Vec.normInf (duals sol what)}

omit [Ordered α] in
theorem penalties_mono {j k : ℕ} (h : j ≤ k) :
    penalties opt backend callback p j ⊆ penalties opt backend callback p k := by
  rintro b (hzero | ⟨i, hi, hanswer⟩)
  · exact .inl hzero
  · exact .inr ⟨i, hi.trans_le h, hanswer⟩

/-- At every head the penalty is the largest that was asked for. -/
theorem isGreatest_sigma (hc : p.check opt = .ok checked) {k : ℕ} {s : Iterate α}
    (hs : (runHeads opt backend callback p)[k]? = some s) :
    IsGreatest (penalties opt backend callback p k) s.sigma := by
  refine getElem?_runHeads_induction
    (P := fun k s => IsGreatest (penalties opt backend callback p k) s.sigma) hc
    (fun s hstart => ?_) (fun k s sol s' _ hsol hstep hprev => ?_) hs
  · rw [hstart.sigma]
    refine ⟨.inl rfl, ?_⟩
    rintro b (rfl | ⟨i, hi, -⟩)
    · exact Ordered.zero_le_zero
    · exact absurd hi (Nat.not_lt_zero i)
  · obtain ⟨hmem, hupper⟩ := hprev
    have hgrows : s.sigma ≤ s'.sigma := by
      rw [hstep.sigma]
      exact Task.le_nextSigma (hupper hmem) sol
    constructor
    · rw [hstep.sigma]
      rcases Task.nextSigma_eq_or s.sigma sol with h | ⟨what, h⟩
      · rw [h]
        exact penalties_mono k.le_succ hmem
      · exact .inr ⟨k, k.lt_succ_self, sol, what, hsol, h⟩
    · rintro b (hzero | ⟨i, hi, sol', what, hsol', rfl⟩)
      · exact Ordered.le_trans (hupper (.inl hzero)) hgrows
      · rcases Nat.lt_succ_iff_lt_or_eq.mp hi with hlt | rfl
        · exact Ordered.le_trans (hupper (.inr ⟨i, hlt, sol', what, hsol', rfl⟩)) hgrows
        · rw [hsol'.eq hsol, hstep.sigma]
          exact Task.penalty_le_nextSigma _ sol what

/-- The penalty of every record is the largest of zero and of what the answers before it ask for.
-/
structure PenaltyDominates (opt : Options α) (backend : Backend α)
    (callback : Option (Snapshot α → Bool)) (p : Problem α) : Prop where
  first : ∀ r, (records (solve opt backend callback p).journal)[0]? = some r → r.sigma = 0
  answered : ∀ k r, (records (solve opt backend callback p).journal)[k]? = some r →
    ∀ i < k, ∃ sol, AnswerAt opt backend callback p i sol
  greatest : ∀ k r, (records (solve opt backend callback p).journal)[k]? = some r →
    IsGreatest (penalties opt backend callback p k) r.sigma
  mono : ∀ (j k : ℕ) (r r' : IterationRecord α), j ≤ k →
    (records (solve opt backend callback p).journal)[j]? = some r →
    (records (solve opt backend callback p).journal)[k]? = some r' → r.sigma ≤ r'.sigma
  dominates : ∀ k r, (records (solve opt backend callback p).journal)[k]? = some r →
    ∀ i < k, ∀ sol, AnswerAt opt backend callback p i sol →
      ∀ what, ∀ a ∈ duals sol what, isNaN a = false → magnitude a ≤ r.sigma

theorem penaltyDominates_solve : PenaltyDominates opt backend callback p := by
  have hgreatest : ∀ k r, (records (solve opt backend callback p).journal)[k]? = some r →
      IsGreatest (penalties opt backend callback p k) r.sigma := by
    intro k r hr
    obtain ⟨checked, s, hc, hs, rfl⟩ := exists_head_of_getElem?_records hr
    exact isGreatest_sigma hc hs
  refine ⟨fun r hr => ?_, fun k r hr i hi => ?_, hgreatest, fun j k r r' hjk hr hr' => ?_, ?_⟩
  · obtain ⟨checked, s, hc, hs, rfl⟩ := exists_head_of_getElem?_records hr
    exact (started_of_getElem?_zero hc hs).sigma
  · obtain ⟨checked, s, hc, hs, -⟩ := exists_head_of_getElem?_records hr
    obtain ⟨hlt, -⟩ := List.getElem?_eq_some_iff.mp hs
    obtain ⟨sol, hsol, -⟩ := exists_answerAt hc
      (List.getElem?_eq_getElem (hi.trans hlt)) (List.getElem?_eq_getElem (Nat.lt_of_le_of_lt hi hlt))
    exact ⟨sol, hsol⟩
  · exact (hgreatest k r' hr').2 (penalties_mono hjk (hgreatest j r hr).1)
  · intro k r hr i hi sol hsol what a ha hnumber
    have hnorm := Vec.magnitude_le_normInf ha (isNaN_eq_false.mp hnumber)
    have hpenalty := (hgreatest k r hr).2 (.inr ⟨i, hi, sol, what, hsol, rfl⟩)
    exact Ordered.le_trans hnorm (Ordered.le_trans (le_penalty sol what) hpenalty)

end Penalty

/-! ## The multipliers in exact arithmetic -/

section Mixture

variable {opt : Options Extended} {backend : Backend Extended}
  {callback : Option (Snapshot Extended → Bool)} {p : Problem Extended}
  {lam0 : Multipliers Extended} {checked : Checked Extended}

/-- The values that one multiplier has in the first estimates and in the first `k` answers of a
run. -/
def proposed (opt : Options Extended) (backend : Backend Extended)
    (callback : Option (Snapshot Extended → Bool)) (p : Problem Extended)
    (lam0 : Multipliers Extended) (what : Bounded) (j k : ℕ) : Set ℝ :=
  {y | (y : Extended) = Vec.coord (lam0.of what) j ∨ ∃ i < k, ∃ sol,
    AnswerAt opt backend callback p i sol ∧ (y : Extended) = Vec.coord (duals sol what) j}

theorem proposed_mono {what : Bounded} {j k l : ℕ} (h : k ≤ l) :
    proposed opt backend callback p lam0 what j k ⊆
      proposed opt backend callback p lam0 what j l := by
  rintro y (hfirst | ⟨i, hi, hanswer⟩)
  · exact .inl hfirst
  · exact .inr ⟨i, hi.trans_le h, hanswer⟩

/-- The new multiplier lies between the old one and the one of the subproblem, and is the latter
without a line search. -/
theorem Task.exists_mix {t : Task Extended} {s : Iterate Extended}
    {sol : QuadraticSolution Extended} {share old new : ℝ} {what : Bounded} {j : ℕ}
    (hj : j < (s.multipliers.of what).length) (hj' : j < (duals sol what).length)
    (h0 : 0 ≤ share) (h1 : share ≤ 1)
    (hold : Vec.coord (s.multipliers.of what) j = (old : Extended))
    (hnew : Vec.coord (duals sol what) j = (new : Extended)) :
    ∃ a b : ℝ, 0 ≤ a ∧ 0 ≤ b ∧ a + b = 1 ∧
      Vec.coord ((t.nextMultipliers s sol share).of what) j =
        ((a * new + b * old : ℝ) : Extended) := by
  rw [nextMultipliers_of]
  split
  · refine ⟨share, 1 - share, h0, sub_nonneg.mpr h1, add_sub_cancel share 1, ?_⟩
    rw [Vec.blend, Vec.coord_zipWith _ hj' hj, hold, hnew]
    simp
  · exact ⟨1, 0, zero_le_one, le_rfl, add_zero 1, by simp [hnew]⟩

/-- At every head each multiplier is mixed from those proposed before. -/
theorem exists_mem_convexHull (hlam0 : p.startMultipliers = .ok lam0)
    (hreal0 : ∀ what, Vec.IsReal (lam0.of what))
    (hreal : EachAnswer opt backend callback p fun _ sol => ∀ what, Vec.IsReal (duals sol what))
    (hc : p.check opt = .ok checked) (what : Bounded) {j : ℕ} (hj : j < p.count what) {k : ℕ}
    {s : Iterate Extended} (hs : (runHeads opt backend callback p)[k]? = some s) :
    ∃ y ∈ convexHull ℝ (proposed opt backend callback p lam0 what j k),
      Vec.coord (s.multipliers.of what) j = (y : Extended) := by
  have hpass := Problem.passes_of_check hc
  refine getElem?_runHeads_induction
    (P := fun k s => ∃ y ∈ convexHull ℝ (proposed opt backend callback p lam0 what j k),
      Vec.coord (s.multipliers.of what) j = (y : Extended)) hc (fun s hstart => ?_)
    (fun k s sol s' hs hsol hstep hprev => ?_) hs
  · have hfirst : s.multipliers = lam0 :=
      hstart.multipliers.trans (Except.ok.inj (hpass.multipliers.symm.trans hlam0))
    obtain ⟨y, hy⟩ := (hreal0 what).coord j
    exact ⟨y, subset_convexHull ℝ _ (.inl hy.symm), hfirst ▸ hy⟩
  · obtain ⟨old, hold, hcoord⟩ := hprev
    obtain ⟨new, hnew⟩ := (hreal.of_answerAt hsol what).coord j
    obtain ⟨share, hwent⟩ := exists_went_of_check hc s sol
    have hlength := length_multipliers_of (List.mem_of_getElem? hs) what
    obtain ⟨a, b, ha, hb, hab, hmix⟩ :=
      Task.exists_mix (t := taskOf opt backend callback p checked) (hlength.symm ▸ hj)
        ((hstep.length_duals what).symm ▸ hj) hwent.nonneg hwent.le_one hcoord hnew
    refine ⟨a * new + b * old, ?_, ?_⟩
    · have hnewMem : new ∈ convexHull ℝ
          (proposed opt backend callback p lam0 what j (k + 1)) :=
        subset_convexHull ℝ _ (.inr ⟨k, k.lt_succ_self, sol, hsol, hnew.symm⟩)
      have holdMem := convexHull_mono (proposed_mono k.le_succ) hold
      exact convex_convexHull ℝ _ hnewMem holdMem ha hb hab
    · rw [hstep.multipliers, hwent.length]
      exact hmix

/-- A list of real numbers bounds the magnitude of each coordinate. -/
theorem abs_coord_le_normInf {x : List Extended} (hx : Vec.IsReal x) {j : ℕ} {y : ℝ}
    (hy : (y : Extended) = Vec.coord x j) : ((|y| : ℝ) : Extended) ≤ Vec.normInf x := by
  rw [← magnitude_real, hy]
  by_cases hj : j < x.length
  · exact Vec.magnitude_le_normInf (Vec.coord_mem hj) (le_refl_iff.mpr (hx.coord j).ne_nan)
  · have hzero : Vec.coord x j = 0 := by simp [Vec.coord, List.getElem?_eq_none (not_lt.mp hj)]
    rw [hzero, zero_eq, magnitude_real, abs_zero]
    exact Vec.normInf_nonneg x

/-- The penalty of a head is real when all answers are. -/
theorem exists_real_sigma
    (hreal : EachAnswer opt backend callback p fun _ sol => ∀ what, Vec.IsReal (duals sol what))
    (hc : p.check opt = .ok checked) {k : ℕ} {s : Iterate Extended}
    (hs : (runHeads opt backend callback p)[k]? = some s) : ∃ sigma : ℝ, 0 ≤ sigma ∧
      s.sigma = sigma := by
  obtain ⟨hmem, hupper⟩ := isGreatest_sigma hc hs
  have hnonneg : 0 ≤ s.sigma := hupper (.inl rfl)
  have hsigma : s.sigma.IsReal := by
    rcases hmem with hzero | ⟨i, -, sol, what, hsol, hpenalty⟩
    · rw [hzero]
      exact isReal_real 0
    · rw [hpenalty, Vec.normInf_eq rfl (hreal.of_answerAt hsol what)]
      exact isReal_mul_iff.mpr ⟨isReal_real _, isReal_real _⟩
  obtain ⟨sigma, hsigma⟩ := hsigma
  rw [hsigma] at hnonneg
  exact ⟨sigma, real_le_real.mp hnonneg, hsigma⟩

/-- At every head the first estimates and the penalty bound the multipliers. -/
theorem normInf_multipliers_le (hlam0 : p.startMultipliers = .ok lam0)
    (hreal0 : ∀ what, Vec.IsReal (lam0.of what))
    (hreal : EachAnswer opt backend callback p fun _ sol => ∀ what, Vec.IsReal (duals sol what))
    (hc : p.check opt = .ok checked) (what : Bounded) {k : ℕ} {s : Iterate Extended}
    (hs : (runHeads opt backend callback p)[k]? = some s) :
    Vec.normInf (s.multipliers.of what) ≤
      maxNum (Vec.normInf (lam0.of what)) (s.sigma / 1.01) := by
  obtain ⟨sigma, hsigma0, hsigma⟩ := exists_real_sigma hreal hc hs
  have hfactor : (1.01 : ℝ) ≠ 0 := by norm_num
  have hfirst := Vec.normInf_eq rfl (hreal0 what)
  rw [hfirst, hsigma, ofScientific_eq, real_div_real _ hfactor, maxNum_real]
  set bound : ℝ := max ‖Vec.reals (lam0.of what).length (lam0.of what)‖ (sigma / 1.01)
  -- The interval is convex, so it holds what is mixed from the proposed values.
  have hproposed : ∀ j,
      proposed opt backend callback p lam0 what j k ⊆ Set.Icc (-bound) bound := by
    intro j y hy
    rw [Set.mem_Icc, ← abs_le]
    rcases hy with hy | ⟨i, hi, sol, hsol, hy⟩
    · have hle := abs_coord_le_normInf (hreal0 what) hy
      rw [hfirst, real_le_real] at hle
      exact hle.trans (le_max_left _ _)
    · have hduals := hreal.of_answerAt hsol what
      have hle := abs_coord_le_normInf hduals hy
      have hpenalty := (isGreatest_sigma hc hs).2 (.inr ⟨i, hi, sol, what, hsol, rfl⟩)
      rw [Vec.normInf_eq rfl hduals] at hle hpenalty
      rw [hsigma, ofScientific_eq, real_mul_real, real_le_real] at hpenalty
      refine (real_le_real.mp hle).trans (le_max_of_le_right ?_)
      rw [le_div_iff₀ (by norm_num), mul_comm]
      exact hpenalty
  refine Vec.normInf_le (real_le_real.mpr ((norm_nonneg _).trans (le_max_left _ _))) ?_
  intro a ha
  obtain ⟨j, hj, rfl⟩ := List.getElem_of_mem ha
  have hcount : j < p.count what := length_multipliers_of (List.mem_of_getElem? hs) what ▸ hj
  obtain ⟨y, hy, hcoord⟩ := exists_mem_convexHull hlam0 hreal0 hreal hc what hcount hs
  have hwithin := convexHull_min (hproposed j) (convex_Icc _ _) hy
  rw [← Vec.coord_eq_getElem _ hj, hcoord, magnitude_real, real_le_real]
  exact abs_le.mpr hwithin

/-- Every multiplier of the head `k` is mixed from those proposed before it, and the first
estimates and the penalty recorded there bound them all. -/
structure MultipliersMixed (opt : Options Extended) (backend : Backend Extended)
    (callback : Option (Snapshot Extended → Bool)) (p : Problem Extended)
    (lam0 : Multipliers Extended) (k : ℕ) (s : Iterate Extended) (r : IterationRecord Extended) :
    Prop where
  length : ∀ what, (s.multipliers.of what).length = p.count what
  mixed : ∀ what, ∀ j < p.count what,
    ∃ y ∈ convexHull ℝ (proposed opt backend callback p lam0 what j k),
      Vec.coord (s.multipliers.of what) j = (y : Extended)
  bounded : ∀ what, Vec.normInf (s.multipliers.of what) ≤
    maxNum (Vec.normInf (lam0.of what)) (r.sigma / 1.01)

theorem multipliersMixed_of_getElem? (hlam0 : p.startMultipliers = .ok lam0)
    (hreal0 : ∀ what, Vec.IsReal (lam0.of what))
    (hreal : EachAnswer opt backend callback p fun _ sol => ∀ what, Vec.IsReal (duals sol what))
    {k : ℕ} {s : Iterate Extended} {r : IterationRecord Extended}
    (hs : (runHeads opt backend callback p)[k]? = some s)
    (hr : (records (solve opt backend callback p).journal)[k]? = some r) :
    MultipliersMixed opt backend callback p lam0 k s r := by
  obtain ⟨checked, s', hc, hs', rfl⟩ := exists_head_of_getElem?_records hr
  obtain rfl := Option.some.inj (hs.symm.trans hs')
  exact {
    length := length_multipliers_of (List.mem_of_getElem? hs)
    mixed := fun what _ hj => exists_mem_convexHull hlam0 hreal0 hreal hc what hj hs
    bounded := fun what => normInf_multipliers_le hlam0 hreal0 hreal hc what hs }

end Mixture

/-- The penalty of a run is the largest of zero and of what its answers ask for, in any
arithmetic with ordered numbers. In exact arithmetic the multipliers at every head are mixed from
the first estimates and from those of the answers, however long the steps are, so the estimates
and the penalty bound them. -/
theorem penalty_dominates :
    (∀ (α : Type) [Scalar α] [Ordered α] (opt : Options α) (backend : Backend α)
      (callback : Option (Snapshot α → Bool)) (p : Problem α),
      PenaltyDominates opt backend callback p) ∧
    ∀ (opt : Options Extended) (backend : Backend Extended)
      (callback : Option (Snapshot Extended → Bool)) (p : Problem Extended)
      (lam0 : Multipliers Extended), p.startMultipliers = .ok lam0 →
      (∀ what, Vec.IsReal (lam0.of what)) →
      (EachAnswer opt backend callback p fun _ sol => ∀ what, Vec.IsReal (duals sol what)) →
      ∀ k s r, (runHeads opt backend callback p)[k]? = some s →
        (records (solve opt backend callback p).journal)[k]? = some r →
        MultipliersMixed opt backend callback p lam0 k s r :=
  ⟨fun _ _ _ _ _ _ _ => penaltyDominates_solve,
    fun _ _ _ _ _ hlam0 hreal0 hreal _ _ _ => multipliersMixed_of_getElem? hlam0 hreal0 hreal⟩

/-- After the step along the half line the penalty is that of its only answer. -/
theorem innerRay_penalty :
    PenaltyDominates .default returningBackend none innerRay ∧
    ∃ s r, (runHeads .default returningBackend none innerRay)[1]? = some s ∧
      (records (solve .default returningBackend none innerRay).journal)[1]? = some r ∧
      r.sigma = ((1.01 : ℝ) : Extended) ∧
      MultipliersMixed .default returningBackend none innerRay ⟨[], [0]⟩ 1 s r := by
  obtain ⟨next, hnext, hstep, -⟩ := innerRay_converged
  have hs := getElem?_runHeads_one innerRay_check innerRay_start innerRay_verdict (by decide) hnext
  have hr := getElem?_records innerRay_check hs
  have hsigma : next.sigma = ((1.01 : ℝ) : Extended) := by
    rw [hstep.sigma]
    simp [Task.nextSigma, Vec.normInf, innerRayHead]
    norm_num
  have hreal : EachAnswer .default returningBackend none innerRay
      fun _ sol => ∀ what, Vec.IsReal (duals sol what) := by
    intro k q _ sol hsol what
    obtain rfl : ⟨[-1], [-1], []⟩ = sol := Except.ok.inj hsol
    cases what <;> simp [duals, Vec.isReal_cons, Vec.isReal_nil]
  have hreal0 : ∀ what, Vec.IsReal ((⟨[], [0]⟩ : Multipliers Extended).of what) := by
    intro what
    cases what <;> simp [Multipliers.of, Vec.isReal_cons, Vec.isReal_nil]
  obtain ⟨hpenalty, hmixed⟩ := penalty_dominates
  exact ⟨hpenalty _ _ _ _ _, next, _, hs, hr, hsigma,
    hmixed _ _ _ _ _ rfl hreal0 hreal 1 next _ hs hr⟩

end SeqQuad.Nonlinear
