import SeqQuad.Proofs.Nonlinear.Answers
import SeqQuad.Proofs.Nonlinear.Box
import SeqQuad.Proofs.Nonlinear.Quadratic

/-!
# Infeasibility along a run

Under affine constraints every excess over a bound is affine along a step, and at the end of a
full step that keeps the bounds of its quadratic program none is left. An iteration that goes a
share of such a step therefore takes at least that share of the infeasibility away.
-/

namespace SeqQuad

open Extended Matrix

/-! ## Bounds along a step -/

section Bound

variable {lower upper : Extended} {v d t e : ℝ}

theorem lower_excess_along (hd : lower - (v : Extended) ≤ d) (he : lower - (v : Extended) ≤ e)
    (h0 : 0 ≤ t) (h1 : t ≤ 1) :
    lower - ((v + t * d : ℝ) : Extended) ≤ (((1 - t) * e : ℝ) : Extended) := by
  cases lower with
  | real l =>
      rw [real_sub_real, real_le_real] at hd he ⊢
      calc
        l - (v + t * d) = (1 - t) * (l - v) + t * (l - v - d) := by ring
        _ ≤ (1 - t) * e + t * 0 := by gcongr; linarith
        _ = (1 - t) * e := by ring
  | posInf => exact absurd hd (posInf_le_real d)
  | negInf => exact negInf_le_real _
  | nan => exact absurd hd (nan_le _)

theorem upper_excess_along (hd : (d : Extended) ≤ upper - v) (he : (v : Extended) - upper ≤ e)
    (h0 : 0 ≤ t) (h1 : t ≤ 1) :
    ((v + t * d : ℝ) : Extended) - upper ≤ (((1 - t) * e : ℝ) : Extended) := by
  cases upper with
  | real u =>
      rw [real_sub_real, real_le_real] at hd he ⊢
      calc
        v + t * d - u = (1 - t) * (v - u) + t * (d - (u - v)) := by ring
        _ ≤ (1 - t) * e + t * 0 := by gcongr; linarith
        _ = (1 - t) * e := by ring
  | posInf => exact negInf_le_real _
  | negInf => exact absurd hd (real_le_negInf d)
  | nan => exact absurd hd (le_nan _)

/-- Only a real or a missing lower bound leaves room for a step. -/
theorem lower_excess_lt_posInf (hd : lower - (v : Extended) ≤ d) : lower - (v : Extended) < posInf :=
  Extended.lt_of_le_of_lt hd ⟨real_le_posInf d, posInf_le_real d⟩

theorem upper_excess_lt_posInf (hd : (d : Extended) ≤ upper - v) :
    (v : Extended) - upper < posInf := by
  cases upper with
  | real u => exact ⟨real_le_posInf _, posInf_le_real _⟩
  | posInf => exact ⟨negInf_le_posInf, posInf_le_negInf⟩
  | negInf => exact absurd hd (real_le_negInf d)
  | nan => exact absurd hd (le_nan _)

end Bound

section Boxed

variable {n : ℕ} {v v' lower upper d : List Extended} {t e : ℝ}

/-- A step that keeps the distances to bounds. -/
def WithinDistances (n : ℕ) (v lower upper d : List Extended) : Prop :=
  ∀ j < n, Vec.coord (Vec.sub lower v) j ≤ Vec.coord d j ∧
    Vec.coord d j ≤ Vec.coord (Vec.sub upper v) j

theorem Boxed.excess_lt_posInf (h : Boxed n v lower upper) (hd : Vec.IsReal d)
    (hwithin : WithinDistances n v lower upper d) : ∀ j < n,
      Vec.coord lower j - Vec.coord v j < posInf ∧
        Vec.coord v j - Vec.coord upper j < posInf := by
  intro j hj
  have hlv := h.length_values
  have hll := h.length_lower
  have hlu := h.length_upper
  obtain ⟨hlower, hupper⟩ := hwithin j hj
  rw [Vec.coord_sub (by omega) (by omega)] at hlower hupper
  obtain ⟨r, hr⟩ := h.real.coord j
  obtain ⟨s, hs⟩ := hd.coord j
  rw [hr, hs] at hlower hupper
  rw [hr]
  exact ⟨lower_excess_lt_posInf hlower, upper_excess_lt_posInf hupper⟩

/-- A share of such a step leaves the rest of every excess. -/
theorem Boxed.excess_le_along (h : Boxed n v lower upper) (h' : Boxed n v' lower upper)
    (hd : Vec.IsReal d) (hwithin : WithinDistances n v lower upper d)
    (hmove : Vec.reals n v' = Vec.reals n v + t • Vec.reals n d) (h0 : 0 ≤ t) (h1 : t ≤ 1)
    (he : ∀ j < n, Vec.coord lower j - Vec.coord v j ≤ e ∧
      Vec.coord v j - Vec.coord upper j ≤ e) :
    ∀ j < n, Vec.coord lower j - Vec.coord v' j ≤ (((1 - t) * e : ℝ) : Extended) ∧
      Vec.coord v' j - Vec.coord upper j ≤ (((1 - t) * e : ℝ) : Extended) := by
  intro j hj
  have hlv := h.length_values
  have hll := h.length_lower
  have hlu := h.length_upper
  obtain ⟨hlower, hupper⟩ := hwithin j hj
  obtain ⟨helower, heupper⟩ := he j hj
  rw [Vec.coord_sub (by omega) (by omega)] at hlower hupper
  have hcoord : Vec.coord v' j =
      ((Vec.reals n v ⟨j, hj⟩ + t * Vec.reals n d ⟨j, hj⟩ : ℝ) : Extended) := by
    have hmoved := congrFun hmove ⟨j, hj⟩
    rw [h'.real.coord_eq ⟨j, hj⟩, hmoved]
    rfl
  rw [h.real.coord_eq ⟨j, hj⟩] at hlower hupper helower heupper
  rw [hd.coord_eq ⟨j, hj⟩] at hlower hupper
  rw [hcoord]
  exact ⟨lower_excess_along hlower helower h0 h1, upper_excess_along hupper heupper h0 h1⟩

end Boxed

namespace Nonlinear

/-! ## Affine constraints -/

/-- A real step within all bounds of its quadratic program. -/
structure StepFeasible (qp : QuadraticProgram Extended) (sol : QuadraticSolution Extended) : Prop
    extends StepWithin qp sol where
  rows : ∀ i < qp.a.height, Vec.coord qp.lba i ≤ Vec.coord (qp.a.apply sol.x) i ∧
    Vec.coord (qp.a.apply sol.x) i ≤ Vec.coord qp.uba i

/-- A head at a real point with the values of an affine map there. -/
structure Problem.AffineHead (p : Problem Extended)
    (A : Matrix (Fin p.constraintCount) (Fin p.variableCount) ℝ)
    (b : Fin p.constraintCount → ℝ) (s : Iterate Extended) : Prop where
  point : Boxed p.variableCount s.x p.xmin p.xmax
  values : Boxed p.constraintCount s.g p.gmin p.gmax
  affine : Vec.reals p.constraintCount s.g = A *ᵥ Vec.reals p.variableCount s.x + b
  real : s.jacobian.IsReal
  readable : s.jacobian.Readable
  height : s.jacobian.height = p.constraintCount
  cols : s.jacobian.cols = p.variableCount
  dense : s.jacobian.dense p.constraintCount p.variableCount = A

section Step

variable {p : Problem Extended} {A : Matrix (Fin p.constraintCount) (Fin p.variableCount) ℝ}
  {b : Fin p.constraintCount → ℝ} {t : Task Extended} {s s' : Iterate Extended}
  {sol : QuadraticSolution Extended} {opt : Options Extended} {checked : Checked Extended}

theorem Problem.AffineConstraints.head (hp : p.AffineConstraints A b) (hpass : p.Passes opt checked)
    (ht : t.problem = p) (hx : Vec.IsReal s.x) (hlen : s.x.length = p.variableCount)
    (hs : t.Current s) : p.AffineHead A b s := by
  subst ht
  obtain ⟨hg, hreal, haffine, hdense⟩ := hs.values.affine hp hpass.unconstrained hx hlen
  obtain ⟨hglen, hheight, hcols⟩ := hs.values.shape hpass.unconstrained
  exact {
    point := boxed_of_checkBounds hpass.pointBounds hlen hx
    values := boxed_of_checkBounds hpass.valueBounds hglen hg
    affine := haffine
    real := hreal
    readable := hs.readable
    height := hheight
    cols := hcols
    dense := hdense }

/-- The linear part of the constraints along a step. -/
theorem Problem.AffineHead.reals_apply (hs : p.AffineHead A b s) {d : List Extended}
    (hd : Vec.IsReal d) :
    Vec.reals p.constraintCount (s.jacobian.apply d) = A *ᵥ Vec.reals p.variableCount d := by
  have happly := SparseMatrix.reals_apply hs.real hs.readable hd
  rw [hs.height, hs.cols, hs.dense] at happly
  exact happly

variable {share : ℝ}

/-- An iteration along a real step moves the point and, through the linear part, the values of
affine constraints by the same share of it. -/
theorem Problem.AffineHead.moved (hs : p.AffineHead A b s) (hs' : p.AffineHead A b s')
    (ht : t.problem = p) (hsol : Vec.IsReal sol.x) (hstep : t.Stepped s sol s')
    (hwent : LineSearch.Went t.options.search s.x sol.x (t.search s sol) share) :
    Vec.reals p.variableCount s'.x =
        Vec.reals p.variableCount s.x + share • Vec.reals p.variableCount sol.x ∧
      Vec.reals p.constraintCount s'.g = Vec.reals p.constraintCount s.g +
        share • Vec.reals p.constraintCount (s.jacobian.apply sol.x) := by
  subst ht
  have hmove : Vec.reals t.problem.variableCount s'.x =
      Vec.reals t.problem.variableCount s.x + share • Vec.reals t.problem.variableCount sol.x := by
    rw [hstep.x]
    exact hwent.reals_point hs.point.real hsol hs.point.length_values hstep.length_x
  refine ⟨hmove, ?_⟩
  rw [hs'.affine, hs.affine, hs.reals_apply hsol, hmove, mulVec_add, mulVec_smul]
  abel

/-- A feasible step keeps the distances to both families of bounds. -/
theorem Problem.AffineHead.withinDistances (hs : p.AffineHead A b s) (ht : t.problem = p)
    (hsol : StepFeasible (t.subproblem s) sol) (hlen : sol.x.length = p.variableCount) :
    WithinDistances p.variableCount s.x p.xmin p.xmax sol.x ∧
      WithinDistances p.constraintCount s.g p.gmin p.gmax (s.jacobian.apply sol.x) := by
  subst ht
  exact ⟨fun j hj => hsol.within j (hlen ▸ hj), fun i hi => hsol.rows i (hs.height.symm ▸ hi)⟩

/-- The infeasibility before a feasible step is a number, and an iteration that goes a share of
the step leaves at most the rest of it. -/
theorem Problem.AffineHead.contracts (hs : p.AffineHead A b s) (hs' : p.AffineHead A b s')
    (ht : t.problem = p) (hsol : StepFeasible (t.subproblem s) sol) (hstep : t.Stepped s sol s')
    (hwent : LineSearch.Went t.options.search s.x sol.x (t.search s sol) share) :
    ∃ e e' : ℝ, t.infeasibility s = e ∧ t.infeasibility s' = e' ∧ 0 ≤ e ∧ 0 ≤ e' ∧
      e' ≤ (1 - share) * e := by
  subst ht
  obtain ⟨hpoint, hrows⟩ := hs.withinDistances rfl hsol hstep.length_x
  obtain ⟨hmove, hvalues⟩ := hs.moved hs' rfl hsol.real hstep hwent
  have hproduct : Vec.IsReal (s.jacobian.apply sol.x) :=
    SparseMatrix.isReal_apply hs.real hs.readable hsol.real
  -- A bound of the wrong infinity leaves no step, so the excesses that the step takes away are
  -- numbers.
  obtain ⟨e, he0, he⟩ := exists_real_primalInfeasibility hs.point hs.values
    ((primalInfeasibility_lt_iff hs.point hs.values).mpr ⟨⟨real_le_posInf 0, posInf_le_real 0⟩,
      hs.point.excess_lt_posInf hsol.real hpoint, hs.values.excess_lt_posInf hproduct hrows⟩)
  have hself : t.infeasibility s ≤ (e : Extended) := by
    rw [Task.infeasibility, Task.infeasibilityAt, he]
    exact real_le_real.mpr le_rfl
  obtain ⟨-, hexcessX, hexcessG⟩ := (primalInfeasibility_le_iff hs.point hs.values).mp hself
  have hle : t.infeasibility s' ≤ (((1 - share) * e : ℝ) : Extended) :=
    (primalInfeasibility_le_iff hs'.point hs'.values).mpr
      ⟨mul_nonneg (sub_nonneg.mpr hwent.le_one) he0,
        hs.point.excess_le_along hs'.point hsol.real hpoint hmove hwent.nonneg hwent.le_one
          hexcessX,
        hs.values.excess_le_along hs'.values hproduct hrows hvalues hwent.nonneg hwent.le_one
          hexcessG⟩
  obtain ⟨e', he0', he'⟩ := exists_real_primalInfeasibility hs'.point hs'.values
    (Extended.lt_of_le_of_lt hle ⟨real_le_posInf _, posInf_le_real _⟩)
  have hreal : t.infeasibility s' = e' := he'
  rw [hreal, real_le_real] at hle
  exact ⟨e, e', he, hreal, he0, he0', hle⟩

end Step

/-! ## Whole runs -/

section Run

variable {opt : Options Extended} {backend : Backend Extended}
  {callback : Option (Snapshot Extended → Bool)} {p : Problem Extended}
  {checked : Checked Extended}
  {A : Matrix (Fin p.constraintCount) (Fin p.variableCount) ℝ} {b : Fin p.constraintCount → ℝ}

/-- Real steps from a real start lead to real points. -/
theorem isReal_x_of_getElem? (hx0 : Vec.IsReal p.x0)
    (hanswer : EachAnswer opt backend callback p fun _ sol => Vec.IsReal sol.x)
    (hc : p.check opt = .ok checked) {k : ℕ} {s : Iterate Extended}
    (hs : (runHeads opt backend callback p)[k]? = some s) :
    Vec.IsReal s.x ∧ s.x.length = p.variableCount := by
  refine getElem?_runHeads_induction
    (P := fun _ s => Vec.IsReal s.x ∧ s.x.length = p.variableCount) hc (fun s hstart => ?_)
    (fun k s sol s' _ hsol hstep hprev => ?_) hs
  · rw [hstart.x]
    exact ⟨hx0, rfl⟩
  · obtain ⟨hx, hlen⟩ := hprev
    have hreal := hanswer.of_answerAt hsol
    obtain ⟨share, hwent⟩ := exists_went_of_check hc s sol
    rw [hstep.x]
    exact ⟨hwent.isReal_point hx hreal, hwent.length_point hlen hstep.length_x⟩

theorem affineHead_of_getElem? (hp : p.AffineConstraints A b) (hx0 : Vec.IsReal p.x0)
    (hanswer : EachAnswer opt backend callback p StepFeasible) (hc : p.check opt = .ok checked)
    {k : ℕ} {s : Iterate Extended} (hs : (runHeads opt backend callback p)[k]? = some s) :
    p.AffineHead A b s := by
  have hreal : EachAnswer opt backend callback p fun _ sol => Vec.IsReal sol.x :=
    fun k q hq sol hsol => (hanswer k q hq sol hsol).real
  obtain ⟨hx, hlen⟩ := isReal_x_of_getElem? hx0 hreal hc hs
  obtain ⟨checked', hpass, hcurrent⟩ := current_of_mem_runHeads s (List.mem_of_getElem? hs)
  exact hp.head hpass rfl hx hlen hcurrent

/-- The step of iteration `k` from one record to the next leaves at most the rest of the
infeasibility, after the share of the step that the line search returned. -/
structure Contracts (opt : Options Extended) (backend : Backend Extended)
    (callback : Option (Snapshot Extended → Bool)) (p : Problem Extended) (k : ℕ)
    (prev cur : IterationRecord Extended) (share e e' : ℝ) : Prop where
  length : SearchLength opt backend callback p k share
  nonneg : 0 ≤ share
  le_one : share ≤ 1
  unsearched : opt.maxSearchTrials = 0 → share = 1
  prev : prev.infPrimal = e
  cur : cur.infPrimal = e'
  prev_nonneg : 0 ≤ e
  cur_nonneg : 0 ≤ e'
  cur_le : e' ≤ (1 - share) * e

theorem exists_contracts (hp : p.AffineConstraints A b) (hx0 : Vec.IsReal p.x0)
    (hanswer : EachAnswer opt backend callback p StepFeasible) {k : ℕ}
    {prev cur : IterationRecord Extended}
    (hprev : (records (solve opt backend callback p).journal)[k]? = some prev)
    (hcur : (records (solve opt backend callback p).journal)[k + 1]? = some cur) :
    ∃ share e e', Contracts opt backend callback p k prev cur share e e' := by
  obtain ⟨checked, s, hc, hs, rfl⟩ := exists_head_of_getElem?_records hprev
  obtain ⟨checked', s', hc', hs', rfl⟩ := exists_head_of_getElem?_records hcur
  obtain rfl := Except.ok.inj (hc.symm.trans hc')
  obtain ⟨sol, hsol, hfeasible, hstep⟩ := hanswer.exists_stepped hc hs hs'
  obtain ⟨share, hwent⟩ := exists_went_of_check hc s sol
  obtain ⟨e, e', he, he', hnonneg, hnonneg', hle⟩ :=
    (affineHead_of_getElem? hp hx0 hanswer hc hs).contracts
      (affineHead_of_getElem? hp hx0 hanswer hc hs') rfl hfeasible hstep hwent
  refine ⟨share, e, e', ?_⟩
  exact {
    length := ⟨checked, s, sol, hc, hs, hsol, hwent.length⟩
    nonneg := hwent.nonneg
    le_one := hwent.le_one
    unsearched := hwent.unsearched
    prev := he
    cur := he'
    prev_nonneg := hnonneg
    cur_nonneg := hnonneg'
    cur_le := hle }

theorem Contracts.le {k : ℕ} {prev cur : IterationRecord Extended} {share e e' : ℝ}
    (h : Contracts opt backend callback p k prev cur share e e') :
    cur.infPrimal ≤ prev.infPrimal := by
  rw [h.prev, h.cur, real_le_real]
  calc
    e' ≤ (1 - share) * e := h.cur_le
    _ ≤ 1 * e := by
      have hprev := h.prev_nonneg
      have hshare := h.nonneg
      gcongr
      linarith
    _ = e := one_mul e

/-- Along a run the infeasibility never increases. -/
theorem infPrimal_le_of_le (hp : p.AffineConstraints A b) (hx0 : Vec.IsReal p.x0)
    (hanswer : EachAnswer opt backend callback p StepFeasible) {i j : ℕ} (hij : i ≤ j)
    {r r' : IterationRecord Extended}
    (hr : (records (solve opt backend callback p).journal)[i]? = some r)
    (hr' : (records (solve opt backend callback p).journal)[j]? = some r') :
    r'.infPrimal ≤ r.infPrimal := by
  induction j, hij using Nat.le_induction generalizing r' with
  | base =>
      obtain rfl := Option.some.inj (hr.symm.trans hr')
      obtain ⟨checked, s, hc, hs, rfl⟩ := exists_head_of_getElem?_records hr
      have hhead := affineHead_of_getElem? hp hx0 hanswer hc hs
      exact le_refl_iff.mpr (primalInfeasibility_ne_nan hhead.point hhead.values)
  | succ j hij ih =>
      obtain ⟨hlt, -⟩ := List.getElem?_eq_some_iff.mp hr'
      have hmid := List.getElem?_eq_getElem (Nat.lt_of_succ_lt hlt)
      obtain ⟨share, e, e', hcontracts⟩ := exists_contracts hp hx0 hanswer hmid hr'
      exact Extended.le_trans hcontracts.le (ih hmid)

/-- After a full step nothing is left of the infeasibility. -/
theorem infPrimal_eq_zero_of_full_step (hp : p.AffineConstraints A b) (hx0 : Vec.IsReal p.x0)
    (hanswer : EachAnswer opt backend callback p StepFeasible) {k j : ℕ} (hkj : k < j)
    (hfull : SearchLength opt backend callback p k 1) {r : IterationRecord Extended}
    (hr : (records (solve opt backend callback p).journal)[j]? = some r) : r.infPrimal = 0 := by
  have hexists : ∀ i ≤ j, ∃ r, (records (solve opt backend callback p).journal)[i]? = some r :=
    fun i hi => ⟨_, List.getElem?_eq_getElem
      (hi.trans_lt (List.getElem?_eq_some_iff.mp hr).1)⟩
  -- The full step leaves a nonpositive rest, which the later iterations do not increase.
  obtain ⟨before, hbefore⟩ := hexists k hkj.le
  obtain ⟨after, hafter⟩ := hexists (k + 1) hkj
  obtain ⟨share, e, e', hstep⟩ := exists_contracts hp hx0 hanswer hbefore hafter
  have hone : share = 1 := real_inj.mp (hstep.length.eq hfull)
  obtain ⟨i, rfl⟩ := Nat.exists_eq_add_of_lt hkj
  -- The iteration before the record shows that it holds a nonnegative number.
  obtain ⟨last, hlast⟩ := hexists (k + i) (Nat.le_succ _)
  obtain ⟨share', d, d', hthere⟩ := exists_contracts hp hx0 hanswer hlast hr
  have hle := infPrimal_le_of_le hp hx0 hanswer (by omega) hafter hr
  rw [hthere.cur, hstep.cur, real_le_real] at hle
  have hzero : d' = 0 := by
    have hafterLe := hstep.cur_le
    rw [hone, sub_self, zero_mul] at hafterLe
    exact le_antisymm (hle.trans hafterLe) hthere.cur_nonneg
  rw [hthere.cur, hzero, zero_eq]

/-- Under affine constraints and with steps that keep all bounds of their quadratic programs,
every iteration leaves at most the share of the infeasibility that it did not go of its step. So
the infeasibility never increases, and from the first full step on there is none. -/
theorem infeasibility_contracts (hp : p.AffineConstraints A b) (hx0 : Vec.IsReal p.x0)
    (hanswer : EachAnswer opt backend callback p StepFeasible) :
    (∀ k prev cur, (records (solve opt backend callback p).journal)[k]? = some prev →
      (records (solve opt backend callback p).journal)[k + 1]? = some cur →
      ∃ share e e', Contracts opt backend callback p k prev cur share e e') ∧
    (∀ (i j : ℕ) (r r' : IterationRecord Extended), i ≤ j →
      (records (solve opt backend callback p).journal)[i]? = some r →
      (records (solve opt backend callback p).journal)[j]? = some r' →
      r'.infPrimal ≤ r.infPrimal) ∧
    ∀ k j r, SearchLength opt backend callback p k 1 → k < j →
      (records (solve opt backend callback p).journal)[j]? = some r → r.infPrimal = 0 :=
  ⟨fun _ _ _ => exists_contracts hp hx0 hanswer,
    fun _ _ _ _ hij => infPrimal_le_of_le hp hx0 hanswer hij,
    fun _ _ _ hfull hkj => infPrimal_eq_zero_of_full_step hp hx0 hanswer hkj hfull⟩

end Run

/-! ## A full step onto a half line -/

section Climb

/-- Minimize the coordinate where it is at least zero by its constraint, from outside. -/
noncomputable def climb : Problem Extended where
  objective := ⟨fun _ x => .ok (Vec.coord x 0), fun _ x => .ok (Vec.coord x 0, [1])⟩
  constraints := some ⟨fun _ x => .ok [Vec.coord x 0],
    fun _ x => .ok ([Vec.coord x 0], .ofRows 1 [[(0, 1)]])⟩
  hessian := some fun _ _ _ _ => .ok (.ofRows 1 [[]])
  x0 := [-1]
  xmin := [negInf]
  xmax := [posInf]
  gmin := [0]
  gmax := [posInf]
  multipliers := none

/-- Default options without a line search. -/
noncomputable def unsearched : Options Extended :=
  { Options.default with maxSearchTrials := 0 }

open Classical in
/-- Goes one to the right, where the bounds allow it. -/
noncomputable def climbingBackend : Backend Extended :=
  fun _ qp _ =>
    let step : QuadraticSolution Extended := ⟨[1], [0], [-1]⟩
    if StepFeasible qp step then Pure.pure step else .fail (.error (.external [] "out of reach"))

theorem climbingBackend_feasible {k : ℕ} {qp : QuadraticProgram Extended} {start : List Extended}
    {sol : QuadraticSolution Extended} (h : (climbingBackend k qp start).outcome = .ok sol) :
    StepFeasible qp sol := by
  unfold climbingBackend at h
  dsimp only at h
  split at h
  · rename_i hstep
    obtain rfl := Except.ok.inj h
    exact hstep
  · cases h

theorem climb_affine : climb.AffineConstraints (of fun _ _ => 1) 0 := by
  intro c hc m x g jac hx hlen h
  cases hc
  obtain ⟨rfl, rfl⟩ := Prod.mk.inj (Except.ok.inj h)
  have hrow : (SparseMatrix.ofRows 1 [[(0, (1 : Extended))]]).row 0 = [(0, 1)] := rfl
  refine ⟨by simpa [Vec.isReal_cons, Vec.isReal_nil] using hx.coord 0,
    SparseMatrix.isReal_of_rows (by simp), ?_, ?_⟩
  · show Vec.reals 1 [Vec.coord x 0] =
      (of fun _ _ => 1 : Matrix (Fin 1) (Fin 1) ℝ) *ᵥ Vec.reals 1 x + 0
    funext i
    fin_cases i
    simp [Matrix.mulVec, dotProduct, Vec.reals, Vec.coord]
  · show SparseMatrix.dense (.ofRows 1 [[(0, (1 : Extended))]]) 1 1 = of fun _ _ => 1
    funext i j
    fin_cases i
    fin_cases j
    show SparseMatrix.rowEntry ((SparseMatrix.ofRows 1 [[(0, (1 : Extended))]]).row 0) 0 = 1
    rw [hrow]
    simp [SparseMatrix.rowEntry]

noncomputable def climbChecked : Checked Extended :=
  ⟨.exact fun _ _ _ _ => .ok (.ofRows 1 [[]]), ⟨[0], [0]⟩⟩

theorem climb_check : climb.check unsearched = .ok climbChecked :=
  Problem.check_of_passes {
    options := validate_default
    pointBounds := by simp [Problem.checkBounds, Problem.variableCount, climb]
    valueBounds := by simp [Problem.checkBounds, Problem.constraintCount, climb]
    unconstrained := nofun
    curvature := rfl
    multipliers := rfl }

noncomputable def climbHead : Iterate Extended where
  iter := 0
  x := [-1]
  multipliers := ⟨[0], [0]⟩
  f := -1
  gradF := [1]
  g := [-1]
  jacobian := .ofRows 1 [[(0, 1)]]
  gradLagrangian := lagrangianGradient [1] (.ofRows 1 [[(0, 1)]]) ⟨[0], [0]⟩
  hessian := .ofTriplets 1 1 [⟨0, 0, 0⟩]
  regularization := 0
  step := [0]
  sigma := 0
  merits := .new 4
  searchTrials := 0
  searchSuccess := true
  searchFailures := 0

noncomputable abbrev climbTask : Task Extended :=
  taskOf unsearched climbingBackend none climb climbChecked

theorem climb_start : (climbTask.start climbChecked.multipliers).outcome = .ok climbHead :=
  rfl

theorem climb_infeasibility : climbTask.infeasibility climbHead = 1 := by
  show primalInfeasibility (α := Extended) [-1] [negInf] [posInf] [-1] [0] [posInf] = 1
  simp [primalInfeasibility, violations, Scalar.maxNum, sub_def, neg_def, add_def, Extended.neg,
    Extended.add, Scalar.isNaN, lt_iff]

theorem climb_verdict : climbTask.verdict climbHead = none := by
  refine Task.verdict_eq_none rfl (fun h => ?_) (by decide) fun h => absurd h.1 (lt_irrefl 0)
  have hlt := h.1
  rw [climb_infeasibility] at hlt
  simp [taskOf, unsearched, Options.default] at hlt
  norm_num at hlt

theorem climb_feasible :
    StepFeasible (climbTask.subproblem climbHead) ⟨[1], [0], [-1]⟩ where
  real := by simp [Vec.isReal_cons, Vec.isReal_nil]
  within j hj := by
    obtain rfl : j = 0 := by simpa using hj
    simp [Task.subproblem, taskOf, climb, climbHead, Vec.sub, Vec.coord, sub_def, add_def, neg_def,
      Extended.add, Extended.neg]
  rows i hi := by
    obtain rfl : i = 0 := Nat.lt_one_iff.mp hi
    have hrow : climbHead.jacobian.row 0 = [(0, 1)] := rfl
    have happly : Vec.coord (climbHead.jacobian.apply [1]) 0 = 1 := by
      rw [SparseMatrix.coord_apply _ _ (by decide), hrow]
      simp [SparseMatrix.rowDot, Vec.coord]
    show Vec.coord (Vec.sub [(0 : Extended)] [-1]) 0 ≤ Vec.coord (climbHead.jacobian.apply [1]) 0 ∧
      Vec.coord (climbHead.jacobian.apply [1]) 0 ≤ Vec.coord (Vec.sub [posInf] [-1]) 0
    rw [happly]
    simp [Vec.sub, Vec.coord, sub_def, add_def, neg_def, Extended.add, Extended.neg]

theorem climb_step : ∃ next, (climbTask.step climbHead).outcome = .ok next := by
  have hanswer : (climbingBackend 1 (climbTask.subproblem climbHead) [0]).outcome =
      .ok ⟨[1], [0], [-1]⟩ := by
    unfold climbingBackend
    rw [if_pos climb_feasible]
    rfl
  exact Task.exists_step (Task.solveSubproblem_eq_ok.mpr ⟨hanswer, rfl, rfl, rfl⟩) (by decide) rfl
    rfl rfl (by decide) rfl

/-- The first step takes all of the infeasibility away, which is one at the start. -/
theorem climb_contracts : ∃ prev cur,
    (records (solve unsearched climbingBackend none climb).journal)[0]? = some prev ∧
    (records (solve unsearched climbingBackend none climb).journal)[1]? = some cur ∧
    prev.infPrimal = 1 ∧ cur.infPrimal = 0 ∧
    ∃ e', Contracts unsearched climbingBackend none climb 0 prev cur 1 1 e' := by
  obtain ⟨next, hnext⟩ := climb_step
  have hanswer : EachAnswer unsearched climbingBackend none climb StepFeasible :=
    fun _ _ _ _ hsol => climbingBackend_feasible hsol
  have hprev := getElem?_records climb_check (getElem?_runHeads_zero climb_check climb_start)
  have hcur := getElem?_records climb_check
    (getElem?_runHeads_one climb_check climb_start climb_verdict (by decide) hnext)
  obtain ⟨hall, -, hfull⟩ := infeasibility_contracts climb_affine
    (by simp [climb, Vec.isReal_cons, Vec.isReal_nil]) hanswer
  obtain ⟨share, e, e', h⟩ := hall 0 _ _ hprev hcur
  obtain rfl : share = 1 := h.unsearched rfl
  obtain rfl : e = 1 := real_inj.mp (h.prev.symm.trans climb_infeasibility)
  exact ⟨_, _, hprev, hcur, climb_infeasibility, hfull 0 1 _ h.length one_pos hcur, e', h⟩

end Climb

end Nonlinear

end SeqQuad
