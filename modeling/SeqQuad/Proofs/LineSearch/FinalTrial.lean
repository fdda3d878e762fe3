import SeqQuad.Proofs.Exact.Vector
import SeqQuad.Proofs.LineSearch

/-!
# The final trial of a line search

The trials of a search lie at the powers of its factor, from the full step on, and the search
ends at the first one that descends far enough, or has a value when the limit of trials is
reached, or has none when no shorter step is left. Whatever the merit function answers, such a
trial comes no later than the limit or the first step below the least normal length.
-/

namespace SeqQuad

open Extended Scalar

/-- Two different steps that lead to one point lead nowhere. -/
theorem Vec.along_eq_of_along_eq {x dx : List Extended} {s t : ℝ} (hx : Vec.IsReal x)
    (hdx : Vec.IsReal dx) (hlen : dx.length = x.length) (hne : s ≠ t)
    (h : Vec.along x dx (s : Extended) = Vec.along x dx (t : Extended)) :
    Vec.along x dx (s : Extended) = x := by
  apply List.ext_getElem
  · simp [hlen]
  · intro i hi hix
    have hid : i < dx.length := by omega
    have hcoord := congrArg (Vec.coord · i) h
    simp only [Vec.coord_along _ hix hid] at hcoord
    rw [← Vec.coord_eq_getElem _ hi, ← Vec.coord_eq_getElem _ hix, Vec.coord_along _ hix hid]
    obtain ⟨u, hu⟩ := hx.coord i
    obtain ⟨v, hv⟩ := hdx.coord i
    rw [hu, hv, real_mul_real, real_mul_real, real_add_real, real_add_real, real_inj,
      add_right_inj, mul_eq_mul_right_iff] at hcoord
    rw [hu, hv, hcoord.resolve_left hne, real_mul_real, real_add_real, mul_zero, add_zero]

/-! ## Trials that end a search -/

namespace Trial

variable {ω α : Type} [Scalar α]

/-- The point of the trial has a value. -/
def Evaluated (trial : Trial ω α) : Prop :=
  ∃ v, trial.answer.outcome = .ok v

/-- The point of the trial has no value. -/
def Failed (trial : Trial ω α) : Prop :=
  ∃ cause, trial.answer.outcome = .error (.error cause)

/-- The value is below `reference` by the share `c1` of the predicted change. -/
def Descends (c1 slope reference : α) (trial : Trial ω α) : Prop :=
  ∃ v, trial.answer.outcome = .ok v ∧ v ≤ reference + trial.t * c1 * slope

/-- What ends a search from `x` at the trial after `k` others. -/
inductive Final (opt : LineSearch.Options α) (x : List α) (slope reference : α) (k : ℕ)
    (trial : Trial ω α) : Prop
  | descends (h : trial.Descends opt.c1 slope reference)
  | exhausted (h : trial.Evaluated) (limit : opt.maxTrials ≤ k + 1)
  | stuck (h : trial.Failed) (short : trial.point = x ∨ trial.t < leastNormal)
  | aborted (fault : Fault) (h : trial.answer.outcome = .error (.fault fault))

end Trial

namespace LineSearch

variable {ω : Type}

section Trials

variable (opt : Options Extended) (b : ℝ) (x dx : List Extended) (slope reference : Extended)
  (merit : ℕ → List Extended → Journaled ω (Failure EvaluationError) Extended)

/-- The trial after `k` others, at the power `k` of the factor `b`. -/
noncomputable def trialAt (k : ℕ) : Trial ω Extended :=
  let t : Extended := ((b ^ k : ℝ) : Extended)
  ⟨t, Vec.along x dx t, merit (k + 1) (Vec.along x dx t)⟩

/-- The first `n` trials. -/
noncomputable def trialsTo (n : ℕ) : List (Trial ω Extended) :=
  (List.range n).map (trialAt b x dx merit)

/-- What a search returns that ends at the trial after `k` others: all trials so far, and the step
and point of the last one. If the evaluation failed there the search returns to its start. -/
structure EndsAt (k : ℕ) (s : LineSearch ω Extended) : Prop where
  trials : s.trials = trialsTo b x dx merit (k + 1)
  success : s.success = true ↔ (trialAt b x dx merit k).Descends opt.c1 slope reference
  taken : ¬(trialAt b x dx merit k).Failed →
    s.t = (trialAt b x dx merit k).t ∧ s.point = (trialAt b x dx merit k).point
  failed : (trialAt b x dx merit k).Failed → s.t = 0 ∧ s.point = x
  fault : ∀ f, s.fault? = some f ↔ (trialAt b x dx merit k).answer.outcome = .error (.fault f)

end Trials

variable {opt : Options Extended} {b : ℝ} {x dx : List Extended} {slope reference : Extended}
  {merit : ℕ → List Extended → Journaled ω (Failure EvaluationError) Extended}

theorem trialsTo_succ (n : ℕ) :
    trialsTo b x dx merit (n + 1) = trialsTo b x dx merit n ++ [trialAt b x dx merit n] := by
  simp [trialsTo, List.range_succ]

/-- A failed trial stops the search where no shorter step is left. -/
theorem stops_iff (hx : Vec.IsReal x) {point : List Extended} {t : Extended} :
    (Vec.same point x || decide (t < leastNormal)) = true ↔ point = x ∨ t < leastNormal := by
  rw [Bool.or_eq_true, decide_eq_true_iff, Vec.same_iff_eq hx]

/-- A trial with a value descends just when that value does. -/
theorem descends_iff {trial : Trial ω Extended} {value : Extended}
    (h : trial.answer.outcome = .ok value) :
    trial.Descends opt.c1 slope reference ↔ value ≤ threshold opt slope reference trial.t := by
  constructor
  · rintro ⟨v, hv, hle⟩
    obtain rfl := Except.ok.inj (h.symm.trans hv)
    exact hle
  · exact fun hle => ⟨value, h, hle⟩

section Step

variable {fuel k : ℕ} {tried : List (Trial ω Extended)}

theorem reverse_cons_trialsTo (htried : tried.reverse = trialsTo b x dx merit k) :
    (trialAt b x dx merit k :: tried).reverse = trialsTo b x dx merit (k + 1) := by
  rw [List.reverse_cons, htried, trialsTo_succ]

/-- A search ends at a final trial with a value: that descends, or the limit is reached. -/
theorem endsAt_backtrack_of_value (htried : tried.reverse = trialsTo b x dx merit k)
    (hfinal : (trialAt b x dx merit k).Final opt x slope reference k) {value : Extended}
    (hout : (trialAt b x dx merit k).answer.outcome = .ok value) :
    EndsAt opt b x dx slope reference merit k
      (backtrack opt x dx slope reference merit (fuel + 1) k ((b ^ k : ℝ) : Extended) tried) := by
  have hevaluated : ¬(trialAt b x dx merit k).Failed := by
    rintro ⟨cause, h⟩
    cases hout.symm.trans h
  have hdescends : (trialAt b x dx merit k).Descends opt.c1 slope reference ↔
      value ≤ threshold opt slope reference (trialAt b x dx merit k).t := descends_iff hout
  by_cases hle : value ≤ threshold opt slope reference (trialAt b x dx merit k).t
  · rw [backtrack_of_descent hout hle]
    exact {
      trials := reverse_cons_trialsTo htried
      success := iff_of_true rfl (hdescends.mpr hle)
      taken := fun _ => ⟨rfl, rfl⟩
      failed := fun h => absurd h hevaluated
      fault := by simp [fault?, hout] }
  · have hlimit : opt.maxTrials ≤ k + 1 := by
      cases hfinal with
      | descends h => exact absurd (hdescends.mp h) hle
      | exhausted _ limit => exact limit
      | stuck h => exact absurd h hevaluated
      | aborted fault h => cases hout.symm.trans h
    rw [backtrack_of_exhausted hout hle hlimit]
    exact {
      trials := reverse_cons_trialsTo htried
      success := iff_of_false (by simp [success]) (hdescends.not.mpr hle)
      taken := fun _ => ⟨rfl, rfl⟩
      failed := fun h => absurd h hevaluated
      fault := by simp [fault?, hout] }

variable (hx : Vec.IsReal x)
include hx

/-- A search ends at a final trial without a value: that is a fault, or no shorter step is left.
-/
theorem endsAt_backtrack_of_error (htried : tried.reverse = trialsTo b x dx merit k)
    (hfinal : (trialAt b x dx merit k).Final opt x slope reference k)
    {e : Failure EvaluationError} (hout : (trialAt b x dx merit k).answer.outcome = .error e) :
    EndsAt opt b x dx slope reference merit k
      (backtrack opt x dx slope reference merit (fuel + 1) k ((b ^ k : ℝ) : Extended) tried) := by
  have hnone : ∀ v, (trialAt b x dx merit k).answer.outcome ≠ .ok v := by simp [hout]
  have hdescends : ¬(trialAt b x dx merit k).Descends opt.c1 slope reference :=
    fun ⟨v, hv, _⟩ => hnone v hv
  have hevaluated : ¬(trialAt b x dx merit k).Evaluated := fun ⟨v, hv⟩ => hnone v hv
  cases e with
  | fault fault =>
      rw [backtrack_of_fault hout]
      exact {
        trials := reverse_cons_trialsTo htried
        success := iff_of_false (by simp [success]) hdescends
        taken := fun _ => ⟨rfl, rfl⟩
        failed := by
          rintro ⟨cause, h⟩
          cases hout.symm.trans h
        fault := by simp [fault?, hout] }
  | error cause =>
      have hshort : (trialAt b x dx merit k).point = x ∨
          (trialAt b x dx merit k).t < leastNormal := by
        cases hfinal with
        | descends h => exact absurd h hdescends
        | exhausted h => exact absurd h hevaluated
        | stuck _ short => exact short
        | aborted fault h => cases hout.symm.trans h
      rw [backtrack_of_stuck hout ((stops_iff hx).mpr hshort)]
      exact {
        trials := reverse_cons_trialsTo htried
        success := iff_of_false (by simp [success]) hdescends
        taken := fun h => absurd ⟨cause, hout⟩ h
        failed := fun _ => ⟨rfl, rfl⟩
        fault := by simp [fault?, hout] }

/-- A search goes on after any other trial. -/
theorem backtrack_of_not_final (hbeta : opt.beta = b)
    (hfinal : ¬(trialAt b x dx merit k).Final opt x slope reference k) :
    backtrack opt x dx slope reference merit (fuel + 1) k ((b ^ k : ℝ) : Extended) tried =
      backtrack opt x dx slope reference merit fuel (k + 1) ((b ^ (k + 1) : ℝ) : Extended)
        (trialAt b x dx merit k :: tried) := by
  have hnext : ((b ^ (k + 1) : ℝ) : Extended) = ((b ^ k : ℝ) : Extended) * opt.beta := by
    rw [hbeta, real_mul_real, pow_succ]
  rw [hnext]
  cases hout : (trialAt b x dx merit k).answer.outcome with
  | ok value =>
      have hle : ¬value ≤ threshold opt slope reference (trialAt b x dx merit k).t :=
        fun h => hfinal (.descends ((descends_iff hout).mpr h))
      have hlimit : ¬opt.maxTrials ≤ k + 1 := fun h => hfinal (.exhausted ⟨value, hout⟩ h)
      exact backtrack_of_rejected hout hle hlimit
  | error e =>
      cases e with
      | fault fault => exact absurd (.aborted fault hout) hfinal
      | error cause =>
          refine backtrack_of_missing hout (Bool.eq_false_of_not_eq_true fun hstop => ?_)
          exact hfinal (.stuck ⟨cause, hout⟩ ((stops_iff hx).mp hstop))

/-- A search ends at the first final trial, if there is fuel to reach it. -/
theorem endsAt_backtrack (hbeta : opt.beta = b) {n : ℕ}
    (hfinal : (trialAt b x dx merit n).Final opt x slope reference n)
    (hbefore : ∀ m < n, ¬(trialAt b x dx merit m).Final opt x slope reference m)
    (hk : k ≤ n) (hfuel : n < k + fuel) (htried : tried.reverse = trialsTo b x dx merit k) :
    EndsAt opt b x dx slope reference merit n
      (backtrack opt x dx slope reference merit fuel k ((b ^ k : ℝ) : Extended) tried) := by
  induction fuel generalizing k tried with
  | zero => omega
  | succ fuel ih =>
      rcases hk.eq_or_lt with rfl | hlt
      · cases hout : (trialAt b x dx merit k).answer.outcome with
        | ok value => exact endsAt_backtrack_of_value htried hfinal hout
        | error e => exact endsAt_backtrack_of_error hx htried hfinal hout
      · rw [backtrack_of_not_final hx hbeta (hbefore k hlt)]
        exact ih hlt (by omega) (reverse_cons_trialsTo htried)

end Step

/-! ## A search ends in time -/

/-- At the limit, and at a step below the least normal length, every trial is final. -/
theorem final_of_bound {k K : ℕ} (hlimit : opt.maxTrials ≤ k + 1) (hK : K ≤ k) (hb0 : 0 < b)
    (hb1 : b < 1) (hshort : ((b ^ K : ℝ) : Extended) < leastNormal) :
    (trialAt b x dx merit k).Final opt x slope reference k := by
  cases hout : (trialAt b x dx merit k).answer.outcome with
  | ok value => exact .exhausted ⟨value, hout⟩ hlimit
  | error e =>
      cases e with
      | fault fault => exact .aborted fault hout
      | error cause =>
          have hpow : ((b ^ k : ℝ) : Extended) ≤ ((b ^ K : ℝ) : Extended) :=
            real_le_real.mpr (pow_le_pow_of_le_one hb0.le hb1.le hK)
          exact .stuck ⟨cause, hout⟩ (.inr (Extended.lt_of_le_of_lt hpow hshort))

/-- A search makes its trials at the powers of its factor and ends at the first final one, which
comes no later than the limit of trials or the first power below the least normal length. A point
at which the evaluation failed is returned only if it is the start. -/
theorem ends_at_first_final_trial (hb0 : 0 < b) (hb1 : b < 1) (hbeta : opt.beta = b)
    (hmax : 1 ≤ opt.maxTrials) (hx : Vec.IsReal x) (hdx : Vec.IsReal dx)
    (hlen : dx.length = x.length) (history : MeritWindow Extended) :
    ∃ K k, IsLeast {j : ℕ | ((b ^ j : ℝ) : Extended) < leastNormal} K ∧
      IsLeast {j : ℕ |
        (trialAt b x dx merit j).Final opt x slope (history.max?.getD infinity) j} k ∧
      k + 1 ≤ max opt.maxTrials (K + 1) ∧
      EndsAt opt b x dx slope (history.max?.getD infinity) merit k
        (run opt x dx slope history merit) ∧
      ∀ j ≤ k, (trialAt b x dx merit j).Failed →
        (run opt x dx slope history merit).point = (trialAt b x dx merit j).point →
        (run opt x dx slope history merit).point = x := by
  have hleast : IsLeast {j : ℕ | ((b ^ j : ℝ) : Extended) < leastNormal} (backtracks opt.beta) :=
    hbeta ▸ Extended.isLeast_backtracks hb1
  have hbound : (trialAt b x dx merit (trialBound opt - 1)).Final opt x slope
      (history.max?.getD infinity) (trialBound opt - 1) :=
    final_of_bound (by unfold trialBound; omega) (by unfold trialBound; omega) hb0 hb1 hleast.1
  classical
  obtain ⟨k, hk⟩ : ∃ k, IsLeast {j : ℕ |
      (trialAt b x dx merit j).Final opt x slope (history.max?.getD infinity) j} k :=
    ⟨Nat.find ⟨_, hbound⟩, Nat.find_spec ⟨_, hbound⟩, fun _ hj => Nat.find_min' _ hj⟩
  have hkbound : k ≤ trialBound opt - 1 := hk.2 hbound
  have hpos : 1 ≤ trialBound opt := hmax.trans (le_max_left _ _)
  have hends : EndsAt opt b x dx slope (history.max?.getD infinity) merit k
      (run opt x dx slope history merit) := by
    have hone : (1 : Extended) = ((b ^ 0 : ℝ) : Extended) := by rw [pow_zero, one_eq]
    unfold run
    rw [if_neg (by omega), hone]
    exact endsAt_backtrack hx hbeta hk.1 (fun m hm hfinal => hm.not_ge (hk.2 hfinal))
      (Nat.zero_le k) (by omega) rfl
  refine ⟨backtracks opt.beta, k, hleast, hk, by unfold trialBound at hkbound hpos; omega, hends,
    fun j hj hfailed hpoint => ?_⟩
  by_cases hlast : (trialAt b x dx merit k).Failed
  · exact (hends.failed hlast).2
  · have hne : j ≠ k := by
      rintro rfl
      exact hlast hfailed
    have hlengths : b ^ j ≠ b ^ k := (pow_right_injective₀ hb0 hb1.ne).ne hne
    have hsame := hpoint.symm.trans (hends.taken hlast).2
    rw [hpoint]
    exact Vec.along_eq_of_along_eq hx hdx hlen hlengths hsame

/-! ## A search past a failure and a rejection -/

section Edge

/-- Three trials at most, each at the same fraction of the step before. -/
noncomputable def cutting (τ : ℝ) : Options Extended :=
  ⟨3, real τ, real τ⟩

/-- A merit without a value at the first trial, and with a low one from the third on. -/
noncomputable def edgeMerit (n : ℕ) (_ : List Extended) :
    Journaled Unit (Failure EvaluationError) Extended :=
  ⟨[], if n = 1 then .error (.error (.failed "")) else .ok (if n = 2 then real 1 else real (-1))⟩

/-- The first trial fails, the second does not descend, and the third ends the search. -/
theorem edge_isLeast :
    IsLeast {j : ℕ | (trialAt (1 / 2) [real 1] [real (-1)] edgeMerit j).Final (cutting (1 / 2)) [real 1]
      (real (-1)) (MeritWindow.max? ⟨4, [real 0]⟩ |>.getD infinity) j} 2 := by
  have hreference : (MeritWindow.max? ⟨4, [real 0]⟩).getD (infinity : Extended) = real 0 := rfl
  rw [hreference]
  constructor
  · refine .descends ⟨real (-1), rfl, ?_⟩
    simp only [trialAt, cutting, real_mul_real, real_add_real, real_le_real]
    norm_num
  · intro j hj
    by_contra hlt
    obtain rfl | rfl : j = 0 ∨ j = 1 := by omega
    · rcases hj with ⟨v, hv, -⟩ | ⟨⟨v, hv⟩, -⟩ | ⟨-, hpoint | hshort⟩ | ⟨fault, hfault⟩
      · cases hv
      · cases hv
      · simp [trialAt, Vec.along] at hpoint
      · exact one_not_lt_leastNormal (by simpa [trialAt] using hshort)
      · cases hfault
    · rcases hj with ⟨v, hv, hle⟩ | ⟨-, hlimit⟩ | ⟨⟨cause, hcause⟩, -⟩ | ⟨fault, hfault⟩
      · obtain rfl := Except.ok.inj hv
        simp only [trialAt, cutting, real_mul_real, real_add_real] at hle
        norm_num at hle
      · simp [cutting] at hlimit
      · cases hcause
      · cases hfault

theorem edge_ends :
    (run (cutting (1 / 2)) [real 1] [real (-1)] (real (-1)) ⟨4, [real 0]⟩ edgeMerit).success = true ∧
      (run (cutting (1 / 2)) [real 1] [real (-1)] (real (-1)) ⟨4, [real 0]⟩ edgeMerit).t = real (1 / 4) ∧
      (run (cutting (1 / 2)) [real 1] [real (-1)] (real (-1)) ⟨4, [real 0]⟩ edgeMerit).trials =
        trialsTo (1 / 2) [real 1] [real (-1)] edgeMerit 3 := by
  obtain ⟨-, k, -, hk, -, hends, -⟩ := @ends_at_first_final_trial Unit (cutting (1 / 2)) (1 / 2) [real 1]
    [real (-1)] (real (-1)) edgeMerit (by norm_num) (by norm_num) rfl (by decide)
    (Vec.isReal_map_real [1]) (Vec.isReal_map_real [-1]) rfl ⟨4, [real 0]⟩
  obtain rfl := hk.unique edge_isLeast
  have hvalue : (trialAt (1 / 2) [real 1] [real (-1)] edgeMerit 2).answer.outcome =
      .ok (real (-1)) := rfl
  refine ⟨hends.success.mpr ⟨_, hvalue, ?_⟩, ?_, hends.trials⟩
  · simp only [trialAt, cutting, MeritWindow.max?, real_mul_real]
    norm_num
  · rw [(hends.taken (by rintro ⟨cause, h⟩; cases hvalue.symm.trans h)).1]
    simp only [trialAt, real_inj]
    norm_num

end Edge

end LineSearch

end SeqQuad
