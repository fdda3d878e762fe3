import SeqQuad.Proofs.Quadratic.Encoding
import SeqQuad.Proofs.Quadratic.Matching

/-!
# Rewritten constraints

The same bounds can be written in several ways: rows can change places, a row can be negated with
its bounds turned around, and the bounds on a variable can become a row of their own. The run of
the interior point method is the same for all of them, and so is the answer, with every multiplier
where its bounds have gone.
-/

namespace SeqQuad

open Extended Matrix Scalar SparseMatrix

/-! ## Multipliers of pairs -/

/-- The multiplier of a pair in an answer. -/
noncomputable def QuadraticProgram.multiplierAt (qp : QuadraticProgram Extended)
    (sol : QuadraticSolution Extended) : qp.Pair → Extended
  | .inl j => Vec.coord sol.lamX j
  | .inr k => Vec.coord sol.lamA k

namespace InteriorPoint

section Gathers

variable {qp : QuadraticProgram Extended} {S : Sides Extended} {c : Multipliers qp}
  {lam z mu : List Extended} (hc : c.Gathers lam z mu) (hs : Splits S qp)
include hc

theorem Multipliers.Gathers.free_equalityAt (k : Fin S.equalities.length) :
    c.free (hs.equalityAt k) = Vec.reals _ lam k := by
  have hk : (k : ℕ) < qp.equalityPairs.length := by
    have hlen := congrArg List.length hs.equalities
    rw [List.length_map] at hlen
    omega
  rw [Vec.reals, hc.lam]
  simp [Vec.coord, hk]
  rfl

theorem Multipliers.Gathers.side_inequalityAt (k : Fin S.inequalities.length) :
    c.side (hs.inequalityAt k) = Vec.reals _ mu k := by
  have hk : (k : ℕ) < qp.inequalityBounds.length := by
    have hlen := congrArg List.length hs.inequalities
    rw [List.length_map] at hlen
    omega
  rw [Vec.reals, hc.mu]
  simp [Vec.coord, hk]
  rfl

end Gathers

/-- The multipliers of an answer, by pairs. -/
theorem Multipliers.Gathers.solution {qp : QuadraticProgram Extended} {S : Sides Extended}
    {c : Multipliers qp} {it : Iterate Extended} (hc : c.Gathers it.lam it.z it.mu)
    (hs : Splits S qp) :
    (∀ i, qp.multiplierAt ((⟨qp, S⟩ : InteriorPoint.Task Extended).solution it) i =
      ((c.net i : ℝ) : Extended)) ∧
    ((⟨qp, S⟩ : InteriorPoint.Task Extended).solution it).lamX.length = qp.variableCount ∧
    ((⟨qp, S⟩ : InteriorPoint.Task Extended).solution it).lamA.length = qp.rowCount := by
  obtain ⟨⟨hlamX, hlamXeq⟩, hlamA, hlamAeq⟩ := reals_multipliers hs hc
  refine ⟨fun i => ?_, length_multipliers S qp.variableCount qp.rowCount it.lam it.mu⟩
  cases i with
  | inl j => exact (hlamX.coord_eq j).trans (congrArg real (congrFun hlamXeq j))
  | inr k => exact (hlamA.coord_eq k).trans (congrArg real (congrFun hlamAeq k))

/-! ## Runs on the same Hessian and gradient -/

section Runs

variable {qp qp' : QuadraticProgram Extended} {S : Sides Extended} {opt : Options Extended}
  {solver : LinearSolver Extended} {x0 : List Extended}

/-- An iteration looks at the bounds and the constraints by their sides only. -/
theorem Task.iterate_of_same (hh : qp'.h = qp.h) (hg : qp'.g = qp.g) (left made : ℕ)
    (it : Iterate Extended) :
    (⟨qp', S⟩ : InteriorPoint.Task Extended).iterate opt solver left made it =
      (⟨qp, S⟩ : InteriorPoint.Task Extended).iterate opt solver left made it := by
  refine Task.iterate_congr (fun n it => ?_) left made it
  cases qp
  cases qp'
  cases hh
  cases hg
  rfl

theorem Task.start_of_same (hh : qp'.h = qp.h) (hg : qp'.g = qp.g) :
    (⟨qp', S⟩ : InteriorPoint.Task Extended).start opt x0 =
      (⟨qp, S⟩ : InteriorPoint.Task Extended).start opt x0 := by
  cases qp
  cases qp'
  cases hh
  cases hg
  rfl

theorem Task.Exact.of_same (hh : qp'.h = qp.h) (hg : qp'.g = qp.g)
    (h : (⟨qp', S⟩ : InteriorPoint.Task Extended).Exact) :
    (⟨qp, S⟩ : InteriorPoint.Task Extended).Exact := by
  cases qp
  cases qp'
  cases hh
  cases hg
  exact ⟨h.hessian, h.readable, h.height, h.cols, h.gradient, h.equalities, h.inequalities⟩

theorem outcome_solve {task : InteriorPoint.Task Extended}
    (hcheck : Task.check opt qp x0 = .ok task) :
    (solve opt solver qp x0).outcome = (task.iterate opt solver opt.maxIterations 0
      (task.start opt x0)).outcome.map fun r => task.solution r.2 := by
  rw [solve_of_check hcheck]
  cases hloop : (task.iterate opt solver opt.maxIterations 0 (task.start opt x0)).outcome with
  | ok r =>
      rw [Journaled.bind_of_ok _ hloop]
      rfl
  | error e =>
      rw [Journaled.bind_of_error _ hloop]
      rfl

end Runs

end InteriorPoint

/-! ## Consistent programs -/

namespace QuadraticProgram

/-- A program of real numbers, apart from its bounds, whose sizes all agree, with a symmetric
Hessian. -/
structure Consistent (qp : QuadraticProgram Extended) : Prop where
  exact : qp.Exact
  hessian : qp.h.WellFormed
  constraints : qp.a.WellFormed
  height : qp.h.height = qp.variableCount
  cols : qp.h.cols = qp.variableCount
  constraint_cols : qp.a.cols = qp.variableCount
  lbx : qp.lbx.length = qp.variableCount
  ubx : qp.ubx.length = qp.variableCount
  lba : qp.lba.length = qp.rowCount
  uba : qp.uba.length = qp.rowCount
  symmetric : (qp.h.dense qp.variableCount qp.variableCount).IsSymm

variable {qp qp' : QuadraticProgram Extended}

theorem Consistent.covered (h : qp.Consistent) : qp.Covered :=
  ⟨h.lbx.ge, h.ubx.ge, h.lba.ge, h.uba.ge⟩

/-! ## Rewriting the pairs of bounds -/

/-- The same program in other words: every pair of bounds has its place among the pairs of the
other, where it is kept or turned around, and all other pairs are open. -/
structure Rewriting (qp qp' : QuadraticProgram Extended) where
  pair : qp.Pair → qp'.Pair
  turned : qp.Pair → Bool
  injective : Function.Injective pair
  hessian : qp'.h = qp.h
  gradient : qp'.g = qp.g
  kept : ∀ i, turned i = false → qp'.lowerAt (pair i) = qp.lowerAt i ∧
    qp'.upperAt (pair i) = qp.upperAt i ∧ qp'.coefAt (pair i) = qp.coefAt i
  flipped : ∀ i, turned i = true → qp'.lowerAt (pair i) = -qp.upperAt i ∧
    qp'.upperAt (pair i) = -qp.lowerAt i ∧
    qp'.coefAt (pair i) = (qp.coefAt i).map fun e => (e.1, -e.2)
  gapped : ∀ i, turned i = true → qp.Gapped i
  free : ∀ i', (∀ i, pair i ≠ i') → ¬(qp'.lowerAt i').IsReal ∧ ¬(qp'.upperAt i').IsReal

namespace Rewriting

variable (r : Rewriting qp qp')

/-- The place of a bound. -/
def bound (a : qp.Pair × Bool) : qp'.Pair × Bool :=
  (r.pair a.1, a.2 ^^ r.turned a.1)

theorem bound_injective : Function.Injective r.bound := by
  rintro ⟨i, b⟩ ⟨j, c⟩ h
  obtain ⟨hpair, hside⟩ := Prod.mk.inj h
  obtain rfl := r.injective hpair
  exact Prod.ext rfl (Bool.xor_left_inj.mp hside)

theorem joined_pair (i : qp.Pair) : qp'.joined (r.pair i) = qp.joined i := by
  cases ht : r.turned i with
  | false =>
      obtain ⟨hl, hu, -⟩ := r.kept i ht
      rw [joined, joined, hl, hu]
  | true =>
      obtain ⟨hl, hu, -⟩ := r.flipped i ht
      rw [joined, joined, hl, hu, isFinite_neg, isFinite_neg, Bool.eq_iff_iff]
      simp only [Bool.and_eq_true, isFinite_iff, decide_eq_true_eq]
      constructor
      · rintro ⟨⟨⟨u, hu⟩, l, hl⟩, hgap⟩
        refine ⟨⟨⟨l, hl⟩, u, hu⟩, ?_⟩
        rw [hl, hu] at hgap ⊢
        rwa [neg_real, neg_real, real_sub_real, neg_sub_neg] at hgap
      · rintro ⟨⟨⟨l, hl⟩, u, hu⟩, hgap⟩
        refine ⟨⟨⟨u, hu⟩, l, hl⟩, ?_⟩
        rw [hl, hu] at hgap ⊢
        rwa [neg_real, neg_real, real_sub_real, neg_sub_neg]

theorem present_bound (a : qp.Pair × Bool) : qp'.present (r.bound a) = qp.present a := by
  obtain ⟨i, b⟩ := a
  rw [present, present, bound, r.joined_pair]
  cases ht : r.turned i with
  | false =>
      obtain ⟨hl, hu, -⟩ := r.kept i ht
      cases b <;> simp [hl, hu]
  | true =>
      obtain ⟨hl, hu, -⟩ := r.flipped i ht
      cases b <;> simp [hl, hu, isFinite_neg]

/-- The inequality of a bound asks the same in its place. -/
theorem sideAt_bound (a : qp.Pair × Bool) :
    (qp'.sideAt (r.bound a)).coef = (qp.sideAt a).coef ∧
      (qp'.sideAt (r.bound a)).rhs = (qp.sideAt a).rhs := by
  obtain ⟨i, b⟩ := a
  have hneg : ∀ row : List (ℕ × Extended),
      (row.map fun e => (e.1, -e.2)).map (fun e => (e.1, -e.2)) = row := fun row => by
    simp [Function.comp_def, Extended.neg_neg]
  cases ht : r.turned i with
  | false =>
      obtain ⟨hl, hu, hcoef⟩ := r.kept i ht
      cases b <;>
        simp [bound, ht, lowerSide, upperSide, Side.lower, Side.upper, hl, hu, hcoef]
  | true =>
      obtain ⟨hl, hu, hcoef⟩ := r.flipped i ht
      cases b with
      | false => simp [bound, ht, lowerSide, upperSide, Side.lower, Side.upper, hu, hcoef]
      | true =>
          simp [bound, ht, lowerSide, upperSide, Side.lower, Side.upper, hl, hcoef, hneg,
            Extended.neg_neg]

/-- By what the equality of a pair is multiplied in its place. -/
def sign (i : qp.Pair) : ℝ :=
  if r.turned i then -1 else 1

theorem sign_mul_sign (i : qp.Pair) : r.sign i * r.sign i = 1 := by
  unfold sign
  split <;> norm_num

/-- The equality of a pair asks the same in its place, up to the sign. -/
theorem upperSide_pair {i : qp.Pair} (hj : qp.joined i = true) :
    (∀ j : ℕ, rowEntry (qp'.upperSide (r.pair i)).coef j =
      r.sign i * rowEntry (qp.upperSide i).coef j) ∧
    (qp'.upperSide (r.pair i)).rhs.toReal = r.sign i * (qp.upperSide i).rhs.toReal := by
  cases ht : r.turned i with
  | false =>
      obtain ⟨-, hu, hcoef⟩ := r.kept i ht
      simp [sign, ht, upperSide, Side.upper, hu, hcoef]
  | true =>
      obtain ⟨-, hu, hcoef⟩ := r.flipped i ht
      obtain ⟨b, hl, hb⟩ := eq_of_joined (r.gapped i ht) hj
      simp [sign, ht, upperSide, Side.upper, hu, hcoef, hl, hb, rowEntry_map_neg]

/-! ## Matching sides -/

/-- What is not open is somewhere. -/
theorem exists_pair {i' : qp'.Pair} (h : (qp'.lowerAt i').IsReal ∨ (qp'.upperAt i').IsReal) :
    ∃ i, r.pair i = i' := by
  by_contra hnone
  obtain ⟨hl, hu⟩ := r.free i' (not_exists.mp hnone)
  exact h.elim hl hu

/-- The joined pairs in their places. -/
noncomputable def joinedEquiv :
    {i : qp.Pair // qp.joined i = true} ≃ {i' : qp'.Pair // qp'.joined i' = true} :=
  Equiv.ofBijective (fun i => ⟨r.pair i, (r.joined_pair i).trans i.2⟩)
    ⟨fun _ _ h => Subtype.ext (r.injective (congrArg Subtype.val h)), fun ⟨i', hi'⟩ => by
      obtain ⟨i, rfl⟩ := r.exists_pair (.inr (isReal_of_joined hi'))
      exact ⟨⟨i, (r.joined_pair i).symm.trans hi'⟩, rfl⟩⟩

/-- The bounds that make inequalities, in their places. -/
noncomputable def presentEquiv :
    {a : qp.Pair × Bool // qp.present a = true} ≃ {a' : qp'.Pair × Bool // qp'.present a' = true} :=
  Equiv.ofBijective (fun a => ⟨r.bound a, (r.present_bound a).trans a.2⟩)
    ⟨fun _ _ h => Subtype.ext (r.bound_injective (congrArg Subtype.val h)), by
      rintro ⟨⟨i', b'⟩, ha'⟩
      have hreal := isReal_of_present ha'
      obtain ⟨i, rfl⟩ : ∃ i, r.pair i = i' := by
        cases b' with
        | false => exact r.exists_pair (.inl hreal)
        | true => exact r.exists_pair (.inr hreal)
      have hbound : r.bound (i, b' ^^ r.turned i) = (r.pair i, b') := by simp [bound]
      exact ⟨⟨(i, b' ^^ r.turned i), (r.present_bound _).symm.trans (hbound ▸ ha')⟩,
        Subtype.ext hbound⟩⟩

section Sides

open InteriorPoint

variable {S S' : Sides Extended} (hs : Splits S qp) (hs' : Splits S' qp')

/-- The sides of both programs match. -/
noncomputable def matching : Matching S S' where
  equality := hs.equalityAt.trans (r.joinedEquiv.trans hs'.equalityAt.symm)
  inequality := hs.inequalityAt.trans (r.presentEquiv.trans hs'.inequalityAt.symm)
  sign k := r.sign (hs.equalityAt k)
  sign_mul_sign k := r.sign_mul_sign _
  equality_coef k j := by
    rw [List.get_eq_getElem, List.get_eq_getElem, hs.getElem_equalities, hs'.getElem_equalities,
      Equiv.trans_apply, Equiv.trans_apply, Equiv.apply_symm_apply]
    exact (r.upperSide_pair (hs.equalityAt k).2).1 j
  equality_rhs k := by
    rw [List.get_eq_getElem, List.get_eq_getElem, hs.getElem_equalities, hs'.getElem_equalities,
      Equiv.trans_apply, Equiv.trans_apply, Equiv.apply_symm_apply]
    exact (r.upperSide_pair (hs.equalityAt k).2).2
  inequality_coef k := by
    rw [List.get_eq_getElem, List.get_eq_getElem, hs.getElem_inequalities,
      hs'.getElem_inequalities, Equiv.trans_apply, Equiv.trans_apply, Equiv.apply_symm_apply]
    exact (r.sideAt_bound _).1
  inequality_rhs k := by
    rw [List.get_eq_getElem, List.get_eq_getElem, hs.getElem_inequalities,
      hs'.getElem_inequalities, Equiv.trans_apply, Equiv.trans_apply, Equiv.apply_symm_apply]
    exact (r.sideAt_bound _).2

theorem equalityAt_matching (k : Fin S.equalities.length) :
    (hs'.equalityAt ((r.matching hs hs').equality k) : qp'.Pair) = r.pair (hs.equalityAt k) := by
  rw [matching, Equiv.trans_apply, Equiv.trans_apply, Equiv.apply_symm_apply]
  rfl

theorem inequalityAt_matching (k : Fin S.inequalities.length) :
    (hs'.inequalityAt ((r.matching hs hs').inequality k) : qp'.Pair × Bool) =
      r.bound (hs.inequalityAt k) := by
  rw [matching, Equiv.trans_apply, Equiv.trans_apply, Equiv.apply_symm_apply]
  rfl

/-! ## Multipliers -/

variable {c : Multipliers qp} {c' : Multipliers qp'} {it it' : Iterate Extended}
  (hc : c.Gathers it.lam it.z it.mu) (hc' : c'.Gathers it'.lam it'.z it'.mu)
include hc hc'

theorem free_pair (hcarries : (r.matching hs hs').Carries it it') (i : qp.Pair) :
    c'.free (r.pair i) = r.sign i * c.free i := by
  by_cases hj : qp.joined i = true
  · have hlam := hcarries.lam.reals_eq (hs.equalityAt.symm ⟨i, hj⟩)
    rw [← hc.free_equalityAt hs, ← hc'.free_equalityAt hs', r.equalityAt_matching] at hlam
    simpa [matching] using hlam
  · have hj := Bool.eq_false_iff.mpr hj
    rw [hc.free_eq_zero i hj, hc'.free_eq_zero _ ((r.joined_pair i).trans hj), mul_zero]

theorem side_bound (hcarries : (r.matching hs hs').Carries it it') (a : qp.Pair × Bool) :
    c'.side (r.bound a) = c.side a := by
  by_cases hp : qp.present a = true
  · have hmu := hcarries.mu.reals_eq (hs.inequalityAt.symm ⟨a, hp⟩)
    rw [← hc.side_inequalityAt hs, ← hc'.side_inequalityAt hs', r.inequalityAt_matching] at hmu
    simpa using hmu
  · have hp := Bool.eq_false_iff.mpr hp
    rw [hc.side_eq_zero a hp, hc'.side_eq_zero _ ((r.present_bound a).trans hp)]

/-- A pair contributes the same in its place, up to the sign. -/
theorem net_pair (hcarries : (r.matching hs hs').Carries it it') (i : qp.Pair) :
    c'.net (r.pair i) = r.sign i * c.net i := by
  have hfree := r.free_pair hs hs' hc hc' hcarries i
  have hlower := r.side_bound hs hs' hc hc' hcarries (i, false)
  have hupper := r.side_bound hs hs' hc hc' hcarries (i, true)
  unfold bound at hlower hupper
  unfold sign at hfree ⊢
  rw [Multipliers.net, Multipliers.net, hfree]
  cases ht : r.turned i with
  | false =>
      rw [ht] at hlower hupper
      simp only [Bool.xor_false] at hlower hupper
      rw [hlower, hupper]
      simp
  | true =>
      rw [ht] at hlower hupper
      simp only [Bool.xor_true, Bool.not_false, Bool.not_true] at hlower hupper
      rw [hlower, hupper]
      simp only [if_true]
      ring

omit hc in
/-- An open pair contributes nothing. -/
theorem net_eq_zero {i' : qp'.Pair}
    (hi' : ∀ i, r.pair i ≠ i') : c'.net i' = 0 := by
  obtain ⟨hl, hu⟩ := r.free i' hi'
  have hjoined : qp'.joined i' = false :=
    Bool.eq_false_iff.mpr fun hj => hu (isReal_of_joined hj)
  have hlower : qp'.present (i', false) = false :=
    Bool.eq_false_iff.mpr fun hp => hl (isReal_of_present hp)
  have hupper : qp'.present (i', true) = false :=
    Bool.eq_false_iff.mpr fun hp => hu (isReal_of_present hp)
  rw [Multipliers.net, hc'.side_eq_zero _ hlower, hc'.side_eq_zero _ hupper,
    hc'.free_eq_zero _ hjoined, sub_zero, zero_add]

end Sides

/-- The same answer in other words: every multiplier is where its pair is, up to the sign, and
open pairs have none. -/
structure Answers (sol sol' : QuadraticSolution Extended) : Prop where
  x : sol'.x = sol.x
  lengths : sol.lamX.length = qp.variableCount ∧ sol.lamA.length = qp.rowCount
  lengths' : sol'.lamX.length = qp'.variableCount ∧ sol'.lamA.length = qp'.rowCount
  kept : ∀ i, r.turned i = false → qp'.multiplierAt sol' (r.pair i) = qp.multiplierAt sol i
  flipped : ∀ i, r.turned i = true → qp'.multiplierAt sol' (r.pair i) = -qp.multiplierAt sol i
  free : ∀ i', (∀ i, r.pair i ≠ i') → qp'.multiplierAt sol' i' = 0

section Runs

open InteriorPoint

variable {S S' : Sides Extended} (hs : Splits S qp) (hs' : Splits S' qp')
  {it it' : Iterate Extended}

/-- Matching iterates stand for the same answer. -/
theorem answers (hi : (⟨qp, S⟩ : InteriorPoint.Task Extended).Posed it)
    (hi' : (⟨qp, S'⟩ : InteriorPoint.Task Extended).Posed it')
    (hcarries : (r.matching hs hs').Carries it it') :
    r.Answers ((⟨qp, S⟩ : InteriorPoint.Task Extended).solution it)
      ((⟨qp', S'⟩ : InteriorPoint.Task Extended).solution it') := by
  have hcount := congrArg List.length hs.equalities
  have hcount' := congrArg List.length hs'.equalities
  have hbounds := congrArg List.length hs.inequalities
  have hbounds' := congrArg List.length hs'.inequalities
  rw [List.length_map] at hcount hcount' hbounds hbounds'
  obtain ⟨c, hc⟩ : ∃ c : Multipliers qp, c.Gathers it.lam it.z it.mu :=
    exists_gathers hi.lam hi.z.isReal hi.mu
      (hi.length_lam.trans hcount) (hi.length_z.trans hbounds) (hi.length_mu.trans hbounds)
  obtain ⟨c', hc'⟩ : ∃ c' : Multipliers qp', c'.Gathers it'.lam it'.z it'.mu :=
    exists_gathers hi'.lam hi'.z.isReal hi'.mu
      (hi'.length_lam.trans hcount') (hi'.length_z.trans hbounds') (hi'.length_mu.trans hbounds')
  obtain ⟨hnet, hlengths⟩ := hc.solution hs
  obtain ⟨hnet', hlengths'⟩ := hc'.solution hs'
  refine ⟨hcarries.x, hlengths, hlengths', fun i ht => ?_, fun i ht => ?_, fun i' hi' => ?_⟩
  · rw [hnet', hnet, r.net_pair hs hs' hc hc' hcarries, sign, ht]
    simp
  · rw [hnet', hnet, r.net_pair hs hs' hc hc' hcarries, sign, ht]
    simp
  · rw [hnet', r.net_eq_zero hc' hi']
    rfl

/-- Runs on the same program in other words end alike. -/
theorem alike_solve (hqp : qp.Consistent) (hqp' : qp'.Consistent)
    {opt : InteriorPoint.Options Extended} {solver : LinearSolver Extended} {x0 : List Extended}
    (hx0 : Vec.IsReal x0) (hopt : opt.Sound) (hregular : solver.SolvesRegular)
    (hsingular : solver.RefusesSingular)
    {F : QuadraticSolution Extended → QuadraticSolution Extended}
    (hF : ∀ sol sol', r.Answers sol sol' → sol' = F sol) :
    Alike (fun _ => ()) F (solve opt solver qp x0).outcome (solve opt solver qp' x0).outcome := by
  have hcount : qp'.variableCount = qp.variableCount := congrArg List.length r.gradient
  have hconforms : Conforms qp' x0 ↔ Conforms qp x0 := by
    constructor
    · intro h
      exact ⟨h.start.trans hcount, hqp.height, hqp.cols, fun _ => hqp.constraint_cols⟩
    · intro h
      exact ⟨h.start.trans hcount.symm, hqp'.height, hqp'.cols, fun _ => hqp'.constraint_cols⟩
  by_cases hadmitted : opt.Accepted ∧ Conforms qp x0
  · obtain ⟨hacc, hfit⟩ := hadmitted
    obtain ⟨⟨_, S⟩, hcheck⟩ := exists_check hqp.hessian hqp.constraints hacc hfit hqp.covered
    obtain ⟨⟨_, S'⟩, hcheck'⟩ :=
      exists_check hqp'.hessian hqp'.constraints hacc (hconforms.mpr hfit) hqp'.covered
    obtain ⟨hexact, hs⟩ := exact_of_check hqp.exact hcheck
    obtain ⟨hexact', hs'⟩ := exact_of_check hqp'.exact hcheck'
    obtain ⟨-, rfl, -, -⟩ := check_eq_ok hcheck
    obtain ⟨-, rfl, -, -⟩ := check_eq_ok hcheck'
    have hexact' := hexact'.of_same r.hessian r.gradient
    have hi := hexact.interior_start hopt.exact hx0 hfit.start
    have hi' := hexact'.interior_start hopt.exact hx0 hfit.start
    have hcarries := (r.matching hs hs').carries_start hexact hexact' hi hi'
    rw [outcome_solve hcheck, outcome_solve hcheck', Task.start_of_same r.hessian r.gradient,
      Task.iterate_of_same r.hessian r.gradient]
    refine hcarries.alike_iterate hexact hexact' hqp.hessian hqp.symmetric hregular hsingular hopt
      hacc (fun it it' hi hi' hc => ?_) _ _ hi hi'
    exact hF _ _ (r.answers hs hs' hi.posed hi'.posed hc)
  · obtain ⟨cause, hcheck⟩ := check_of_refused hadmitted
    obtain ⟨cause', hcheck'⟩ := check_of_refused (mt (And.imp_right hconforms.mp) hadmitted)
    rw [solve, solve, hcheck, hcheck']
    exact .error rfl

end Runs

end Rewriting

end QuadraticProgram

end SeqQuad
