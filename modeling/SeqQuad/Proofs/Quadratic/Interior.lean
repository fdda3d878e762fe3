import SeqQuad.Proofs.Exact.Matrix
import SeqQuad.Proofs.Quadratic.Run
import SeqQuad.Quadratic.InteriorPoint

/-!
# Iterates stay in the interior

Over the real numbers every iterate of the interior point method is real, and its slacks and the
multipliers of its inequalities are positive: a step goes less than the whole way to where one of
them would vanish. The linear solver may answer anything, since an answer that is not real is
refused by its size.
-/

namespace SeqQuad

open Extended Scalar

/-! ## Positive vectors -/

def Vec.Positive (x : List Extended) : Prop :=
  ∀ a ∈ x, ∃ r : ℝ, 0 < r ∧ a = r

theorem Vec.Positive.isReal {x : List Extended} (h : Vec.Positive x) : Vec.IsReal x := by
  intro a ha
  obtain ⟨r, _, rfl⟩ := h a ha
  exact isReal_real r

/-- The least of positive numbers. -/
theorem Vec.foldl_minNum_spec {l : List Extended} (hl : Vec.Positive l) {c : ℝ} (hc : 0 < c) :
    ∃ r : ℝ, l.foldl minNum (c : Extended) = r ∧ 0 < r ∧ r ≤ c ∧
      ∀ b ∈ l, (r : Extended) ≤ b := by
  induction l generalizing c with
  | nil => exact ⟨c, rfl, hc, le_rfl, List.forall_mem_nil _⟩
  | cons b l ih =>
      rcases List.forall_mem_cons.mp hl with ⟨⟨b, hb, rfl⟩, hl'⟩
      obtain ⟨r, hr, hpos, hle, hall⟩ := ih hl' (lt_min hc hb)
      rw [List.foldl_cons, minNum_real]
      have hrb : (r : Extended) ≤ b := real_le_real.mpr (hle.trans (min_le_right c b))
      exact ⟨r, hr, hpos, hle.trans (min_le_left c b), List.forall_mem_cons.mpr ⟨hrb, hall⟩⟩

namespace InteriorPoint

/-! ## Step lengths -/

section StepLength

variable {xi : ℝ} {v dv : List Extended}

/-- The way to the boundary of an entry that falls. -/
theorem ratio_eq (xi p : ℝ) {d : ℝ} (hd : d < 0) :
    (xi : Extended) * ((p : Extended) / -(d : Extended)) = ((xi * (p / -d) : ℝ) : Extended) := by
  rw [neg_real, real_div_real _ (neg_pos.mpr hd).ne', real_mul_real]

/-- The step goes at most the fraction `xi` of the way to the boundary, for every entry. -/
theorem stepLength_spec (hxi : 0 < xi) (hv : Vec.Positive v) (hdv : Vec.IsReal dv) :
    ∃ a : ℝ, stepLength (xi : Extended) v dv = a ∧ 0 < a ∧ a ≤ 1 ∧
      ∀ p d : ℝ, ((p : Extended), (d : Extended)) ∈ v.zip dv → -(xi * p) ≤ a * d := by
  have hpositive : Vec.Positive (((v.zip dv).filter fun e => e.2 < 0).map
      fun e => (xi : Extended) * (e.1 / -e.2)) := by
    intro a ha
    rcases List.mem_map.mp ha with ⟨⟨p, d⟩, he, rfl⟩
    rcases List.mem_filter.mp he with ⟨hmem, hneg⟩
    obtain ⟨hp, hd⟩ := List.of_mem_zip hmem
    obtain ⟨p, hp0, rfl⟩ := hv p hp
    obtain ⟨d, rfl⟩ := hdv d hd
    have hd0 : d < 0 := by simpa using hneg
    refine ⟨xi * (p / -d), ?_, ratio_eq xi p hd0⟩
    exact mul_pos hxi (div_pos hp0 (neg_pos.mpr hd0))
  obtain ⟨a, ha, hpos, hle, hall⟩ := Vec.foldl_minNum_spec hpositive one_pos
  refine ⟨a, ha, hpos, hle, fun p d hmem => ?_⟩
  obtain ⟨r, hr, hrp⟩ := hv _ (List.of_mem_zip hmem).1
  have hp : 0 < p := by rwa [real_inj.mp hrp]
  by_cases hd : d < 0
  · have hbound := hall _ (List.mem_map.mpr ⟨_, List.mem_filter.mpr ⟨hmem, by simpa using hd⟩, rfl⟩)
    rw [ratio_eq xi p hd, real_le_real, mul_div_assoc', le_div_iff₀ (neg_pos.mpr hd)] at hbound
    linarith
  · have hstep : 0 ≤ a * d := mul_nonneg hpos.le (not_lt.mp hd)
    have hroom : 0 < xi * p := mul_pos hxi hp
    linarith

/-- What is positive stays positive. -/
theorem positive_along (hxi : 0 < xi) (hxi1 : xi < 1) (hv : Vec.Positive v)
    (hdv : Vec.IsReal dv) : Vec.Positive (Vec.along v dv (stepLength (xi : Extended) v dv)) := by
  obtain ⟨a, ha, _, _, hall⟩ := stepLength_spec hxi hv hdv
  rw [ha]
  intro b hb
  rw [Vec.along, ← List.map_uncurry_zip_eq_zipWith] at hb
  rcases List.mem_map.mp hb with ⟨⟨p, d⟩, hmem, rfl⟩
  obtain ⟨hp, hd⟩ := List.of_mem_zip hmem
  obtain ⟨p, hp0, rfl⟩ := hv p hp
  obtain ⟨d, rfl⟩ := hdv d hd
  have hbound := hall p d hmem
  have hleft : 0 < (1 - xi) * p := mul_pos (sub_pos.mpr hxi1) hp0
  refine ⟨p + a * d, by linarith, ?_⟩
  simp [Function.uncurry]

/-- The ways to the boundary are real numbers for entries of any sign. -/
theorem isReal_ratios (xi : ℝ) (hv : Vec.IsReal v) (hdv : Vec.IsReal dv) :
    Vec.IsReal (((v.zip dv).filter fun e => e.2 < 0).map
      fun e => (xi : Extended) * (e.1 / -e.2)) := by
  intro a ha
  rcases List.mem_map.mp ha with ⟨⟨p, d⟩, he, rfl⟩
  rcases List.mem_filter.mp he with ⟨hmem, hneg⟩
  obtain ⟨hp, hd⟩ := List.of_mem_zip hmem
  obtain ⟨p, rfl⟩ := hv p hp
  obtain ⟨d, rfl⟩ := hdv d hd
  have hd0 : d < 0 := by simpa using hneg
  exact ⟨_, ratio_eq xi p hd0⟩

/-- The step length is a real number for entries of any sign. -/
theorem isReal_stepLength (xi : ℝ) (hv : Vec.IsReal v) (hdv : Vec.IsReal dv) :
    (stepLength (xi : Extended) v dv).IsReal := by
  obtain ⟨r, hr, -⟩ := Vec.isGreatest_foldl_minNum (isReal_ratios xi hv hdv) 1
  exact ⟨r, hr⟩

end StepLength

/-! ## Sides -/

/-- A side of real numbers that speaks of the first `n` coordinates. -/
structure RealSide (n : ℕ) (s : Side Extended) : Prop where
  coef : ∀ e ∈ s.coef, e.2.IsReal
  col_lt : ∀ e ∈ s.coef, e.1 < n
  rhs : s.rhs.IsReal

section Sides

variable {n : ℕ} {s : Side Extended} {x : List Extended}

theorem RealSide.dot_eq (h : RealSide n s) (hx : Vec.IsReal x) :
    s.dot x =
      ((∑ j : Fin n, SparseMatrix.rowEntry s.coef j * Vec.reals n x j : ℝ) : Extended) := by
  have hterms : Vec.IsReal (s.coef.map fun e => e.2 * Vec.coord x e.1) := by
    intro a ha
    rcases List.mem_map.mp ha with ⟨e, he, rfl⟩
    exact isReal_mul_iff.mpr ⟨h.coef e he, hx.coord _⟩
  have hmap : (s.coef.map fun e => e.2 * Vec.coord x e.1).map toReal =
      s.coef.map fun e => e.2.toReal * (Vec.coord x e.1).toReal := by
    rw [List.map_map]
    apply List.map_congr_left
    intro e he
    rw [Function.comp_apply, (h.coef e he).eq, (hx.coord e.1).eq, real_mul_real]
    rfl
  rw [Side.dot, Vec.sum_eq hterms, hmap]
  congr 1
  exact SparseMatrix.sum_row_eq h.col_lt fun j => (Vec.coord x j).toReal

theorem RealSide.residual_eq (h : RealSide n s) (hx : Vec.IsReal x) :
    s.residual x = ((∑ j : Fin n, SparseMatrix.rowEntry s.coef j * Vec.reals n x j -
      s.rhs.toReal : ℝ) : Extended) := by
  rw [Side.residual, h.dot_eq hx, h.rhs.eq, real_sub_real]
  rfl

theorem RealSide.isReal_residual (h : RealSide n s) (hx : Vec.IsReal x) :
    (s.residual x).IsReal := by
  rw [h.residual_eq hx]
  exact isReal_real _

end Sides

/-- A task over the real numbers. -/
structure Task.Exact (task : Task Extended) : Prop where
  hessian : task.qp.h.IsReal
  readable : task.qp.h.Readable
  height : task.qp.h.height = task.qp.variableCount
  cols : task.qp.h.cols = task.qp.variableCount
  gradient : Vec.IsReal task.qp.g
  equalities : ∀ s ∈ task.sides.equalities, RealSide task.qp.variableCount s
  inequalities : ∀ s ∈ task.sides.inequalities, RealSide task.qp.variableCount s

/-- Options that are real numbers where the iteration computes with them, and a positive least
slack. Steps must be real: their size is limited, or the solver answers real numbers. -/
structure Options.Exact (opt : Options Extended) (solver : LinearSolver Extended) : Prop where
  xi : opt.xi.IsReal
  sigma : opt.sigma.IsReal
  z0 : ∃ r : ℝ, 0 < r ∧ opt.z0 = r
  steps : opt.maxStepSize.IsReal ∨ ∀ call columns b x,
    solver.solve call columns b = .ok x → Vec.IsReal x

section Gradient

variable {task : Task Extended} {x lam mu : List Extended}

theorem mem_weighted {e : Side Extended × Extended} (he : e ∈ task.sides.weighted lam mu) :
    (e.1 ∈ task.sides.equalities ∧ e.2 ∈ lam) ∨ (e.1 ∈ task.sides.inequalities ∧ e.2 ∈ mu) := by
  rcases List.mem_append.mp he with h | h
  · exact .inl (List.of_mem_zip h)
  · exact .inr (List.of_mem_zip h)

/-- The gradient of the Lagrangian adds the multiples of all sides. -/
theorem Task.Exact.lagrangianGradient_eq (h : task.Exact) (hx : Vec.IsReal x)
    (hlam : Vec.IsReal lam) (hmu : Vec.IsReal mu) :
    Vec.IsReal (task.lagrangianGradient x lam mu) ∧
      Vec.reals task.qp.variableCount (task.lagrangianGradient x lam mu) =
        Vec.reals task.qp.variableCount (task.qp.h.apply x) +
          Vec.reals task.qp.variableCount task.qp.g +
        fun j : Fin task.qp.variableCount => ((task.sides.weighted lam mu).map fun e =>
          e.2.toReal * SparseMatrix.rowEntry e.1.coef j).sum := by
  have happly : Vec.IsReal (task.qp.h.apply x) :=
    SparseMatrix.isReal_apply h.hessian h.readable hx
  have hlen : task.qp.variableCount ≤ (task.qp.h.apply x).length := by simp [h.height]
  have hterms : ∀ e ∈ task.sides.weighted lam mu,
      (∀ v ∈ e.1.coef, v.2.IsReal) ∧ e.2.IsReal := by
    intro e he
    rcases mem_weighted he with ⟨hside, hval⟩ | ⟨hside, hval⟩
    · exact ⟨(h.equalities _ hside).coef, hlam _ hval⟩
    · exact ⟨(h.inequalities _ hside).coef, hmu _ hval⟩
  have hroom : task.qp.variableCount ≤
      (List.zipWith (· + ·) (task.qp.h.apply x) task.qp.g).length := by
    simp [h.height, QuadraticProgram.variableCount]
  obtain ⟨hreal, heq⟩ := SparseMatrix.reals_foldl_scatter (task.sides.weighted lam mu)
    (fun e => e.1.coef) (fun e => e.2) hroom (happly.add h.gradient) hterms
  unfold Task.lagrangianGradient
  refine ⟨hreal, ?_⟩
  rw [heq, Vec.reals_add happly h.gradient hlen le_rfl]

end Gradient

/-! ## Real iterates -/

/-- An iterate of real numbers with positive slacks, evaluated at its own point. The multipliers
may have any sign. -/
structure Task.Posed (task : Task Extended) (it : Iterate Extended) : Prop where
  x : Vec.IsReal it.x
  lam : Vec.IsReal it.lam
  z : Vec.Positive it.z
  mu : Vec.IsReal it.mu
  gamma : it.gamma.IsReal
  length_x : it.x.length = task.qp.variableCount
  length_lam : it.lam.length = task.sides.equalities.length
  length_z : it.z.length = task.sides.inequalities.length
  length_mu : it.mu.length = task.sides.inequalities.length
  h_eq : it.h = task.sides.inequalities.map fun s => s.residual it.x
  g_eq : it.g = task.sides.equalities.map fun s => s.residual it.x

/-- A direction with real entries that fit the iterate. -/
structure RealDirection (task : Task Extended) (d : Direction Extended) : Prop where
  dx : Vec.IsReal d.dx
  dlam : Vec.IsReal d.dlam
  dz : Vec.IsReal d.dz
  dmu : Vec.IsReal d.dmu
  length_dx : d.dx.length = task.qp.variableCount
  length_dlam : d.dlam.length = task.sides.equalities.length
  length_dz : d.dz.length = task.sides.inequalities.length
  length_dmu : d.dmu.length = task.sides.inequalities.length

section Posed

variable {task : Task Extended} {it : Iterate Extended}

theorem Task.Posed.shaped (hi : task.Posed it) : task.Shaped it where
  x := hi.length_x
  lam := hi.length_lam
  g := by rw [hi.g_eq, List.length_map]
  z := hi.length_z
  mu := hi.length_mu
  h := by rw [hi.h_eq, List.length_map]

theorem Task.Posed.getElem?_rows (hi : task.Posed it) {k : ℕ} {s : Side Extended}
    (hs : task.sides.inequalities[k]? = some s) :
    (task.rows it)[k]? = some (s, s.residual it.x, Vec.coord it.z k, Vec.coord it.mu k) := by
  obtain ⟨hk, -⟩ := List.getElem?_eq_some_iff.mp hs
  have hz : k < it.z.length := by rwa [hi.length_z]
  have hmu : k < it.mu.length := by rwa [hi.length_mu]
  have hh : it.h[k]? = some (s.residual it.x) := by simp [hi.h_eq, hs]
  have htail : (it.z.zip it.mu)[k]? = some (Vec.coord it.z k, Vec.coord it.mu k) := by
    rw [List.getElem?_zip_eq_some]
    simp [Vec.coord, hz, hmu]
  unfold Task.rows
  simp only [List.getElem?_zip_eq_some]
  exact ⟨hs, hh, List.getElem?_zip_eq_some.mp htail⟩

/-- The full step closes the gap. -/
theorem Task.Posed.coord_dz (hi : task.Posed it) {reduced : List Extended}
    {k : ℕ} {s : Side Extended} (hs : task.sides.inequalities[k]? = some s) :
    Vec.coord (task.expand it reduced).dz k =
      -s.residual it.x - Vec.coord it.z k - s.dot (task.expand it reduced).dx := by
  rw [Vec.coord, Task.expand, List.getElem?_map, hi.getElem?_rows hs]
  rfl

theorem Task.Posed.isReal_h (h : task.Exact) (hi : task.Posed it) : Vec.IsReal it.h := by
  rw [hi.h_eq]
  intro a ha
  rcases List.mem_map.mp ha with ⟨s, hs, rfl⟩
  exact (h.inequalities s hs).isReal_residual hi.x

theorem Task.Posed.isReal_g (h : task.Exact) (hi : task.Posed it) : Vec.IsReal it.g := by
  rw [hi.g_eq]
  intro a ha
  rcases List.mem_map.mp ha with ⟨s, hs, rfl⟩
  exact (h.equalities s hs).isReal_residual hi.x

theorem Task.Exact.isReal_dz (h : task.Exact) (hi : task.Posed it) {reduced : List Extended}
    (hdx : Vec.IsReal (reduced.take task.qp.variableCount)) :
    Vec.IsReal (task.expand it reduced).dz := by
  intro a ha
  rcases List.mem_map.mp ha with ⟨⟨s, r, z, mu⟩, hmem, rfl⟩
  obtain ⟨hs, htail⟩ := List.of_mem_zip hmem
  obtain ⟨hr, hzmu⟩ := List.of_mem_zip htail
  obtain ⟨hz, _⟩ := List.of_mem_zip hzmu
  have hdot : (s.dot (reduced.take task.qp.variableCount)).IsReal := by
    rw [(h.inequalities s hs).dot_eq hdx]
    exact isReal_real _
  have hrreal := hi.isReal_h h r hr
  have hzreal := hi.z.isReal z hz
  simp [hrreal, hzreal, hdot]

theorem Task.Posed.isReal_dmu (hi : task.Posed it) {reduced : List Extended}
    (hdz : Vec.IsReal (task.expand it reduced).dz) :
    Vec.IsReal (task.expand it reduced).dmu := by
  intro a ha
  rw [Task.expand, ← List.map_uncurry_zip_eq_zipWith] at ha
  rcases List.mem_map.mp ha with ⟨⟨⟨mu, z⟩, dz⟩, hmem, rfl⟩
  obtain ⟨hzmu, hdzmem⟩ := List.of_mem_zip hmem
  obtain ⟨hmu, hz⟩ := List.of_mem_zip hzmu
  obtain ⟨mu, rfl⟩ := hi.mu mu hmu
  obtain ⟨z, hzpos, rfl⟩ := hi.z z hz
  obtain ⟨dz, rfl⟩ := hdz dz hdzmem
  rcases hi.gamma with ⟨gamma, hgamma⟩
  simp only [Function.uncurry, hgamma, real_mul_real, real_sub_real]
  rw [real_div_real _ hzpos.ne']
  simp

theorem Task.Exact.realDirection (h : task.Exact) (hi : task.Posed it)
    {reduced : List Extended} (hreal : Vec.IsReal reduced)
    (hlen : reduced.length = task.qp.variableCount + task.sides.equalities.length) :
    RealDirection task (task.expand it reduced) := by
  have hdx : Vec.IsReal (reduced.take task.qp.variableCount) :=
    fun a ha => hreal a (List.mem_of_mem_take ha)
  have hdz := h.isReal_dz hi hdx
  obtain ⟨hlenx, hlenlam, hlenz, hlenmu⟩ := hi.shaped.length_expand hlen
  exact {
    dx := hdx
    dlam := fun a ha => hreal a (List.mem_of_mem_drop ha)
    dz := hdz
    dmu := hi.isReal_dmu hdz
    length_dx := hlenx
    length_dlam := hlenlam
    length_dz := hlenz
    length_dmu := hlenmu }

end Posed

/-! ## The interior -/

/-- What every iterate is: real, with positive slacks and multipliers of the inequalities, and
evaluated at its own point. -/
structure Task.Interior (task : Task Extended) (it : Iterate Extended) : Prop where
  x : Vec.IsReal it.x
  lam : Vec.IsReal it.lam
  z : Vec.Positive it.z
  mu : Vec.Positive it.mu
  gamma : it.gamma.IsReal
  length_x : it.x.length = task.qp.variableCount
  length_lam : it.lam.length = task.sides.equalities.length
  length_z : it.z.length = task.sides.inequalities.length
  length_mu : it.mu.length = task.sides.inequalities.length
  h_eq : it.h = task.sides.inequalities.map fun s => s.residual it.x
  g_eq : it.g = task.sides.equalities.map fun s => s.residual it.x
  residuals_eq : ∃ cost, it.residuals =
    task.residuals it.x it.lam it.z it.mu it.h it.g cost

theorem Task.Interior.posed {task : Task Extended} {it : Iterate Extended}
    (hi : task.Interior it) : task.Posed it where
  x := hi.x
  lam := hi.lam
  z := hi.z
  mu := hi.mu.isReal
  gamma := hi.gamma
  length_x := hi.length_x
  length_lam := hi.length_lam
  length_z := hi.length_z
  length_mu := hi.length_mu
  h_eq := hi.h_eq
  g_eq := hi.g_eq

section Start

variable {task : Task Extended}

theorem startSlack_pos {z0 h : ℝ} (hz0 : 0 < z0) :
    ∃ r : ℝ, 0 < r ∧ startSlack (z0 : Extended) (h : Extended) = r := by
  unfold startSlack
  rw [neg_real]
  by_cases hlow : h < -z0
  · rw [if_pos (real_lt_real.mpr hlow), neg_real]
    exact ⟨-h, by linarith, rfl⟩
  · rw [if_neg (real_lt_real.not.mpr hlow)]
    exact ⟨z0, hz0, rfl⟩

theorem startMultiplier_pos {z0 z : ℝ} (hz0 : 0 < z0) (hz : 0 < z) :
    ∃ r : ℝ, 0 < r ∧ startMultiplier (z0 : Extended) 1 (z : Extended) = r := by
  unfold startMultiplier
  rw [one_eq, real_div_real _ hz.ne']
  split
  · exact ⟨1 / z, by positivity, rfl⟩
  · exact ⟨z0, hz0, rfl⟩

theorem Task.Exact.interior_start (h : task.Exact) {opt : Options Extended}
    {solver : LinearSolver Extended} (hopt : opt.Exact solver) {x0 : List Extended}
    (hx : Vec.IsReal x0) (hlen : x0.length = task.qp.variableCount) :
    task.Interior (task.start opt x0) := by
  rcases hopt.z0 with ⟨z0, hz0, hz0eq⟩
  have hz : Vec.Positive (task.sides.inequalities.map fun s =>
      startSlack opt.z0 (s.residual x0)) := by
    intro a ha
    rcases List.mem_map.mp ha with ⟨s, hs, rfl⟩
    obtain ⟨r, hr⟩ := (h.inequalities s hs).isReal_residual hx
    rw [hz0eq, hr]
    exact startSlack_pos hz0
  have hmu : Vec.Positive ((task.sides.inequalities.map fun s =>
      startSlack opt.z0 (s.residual x0)).map (startMultiplier opt.z0 1)) := by
    intro a ha
    rcases List.mem_map.mp ha with ⟨z, hzmem, rfl⟩
    obtain ⟨r, hr, rfl⟩ := hz z hzmem
    rw [hz0eq]
    exact startMultiplier_pos hz0 hr
  exact {
    x := hx
    lam := Vec.isReal_zeros _
    z := hz
    mu := hmu
    gamma := isReal_real 1
    length_x := hlen
    length_lam := Vec.length_zeros _
    length_z := by simp [Task.start, Task.evaluate]
    length_mu := by simp [Task.start, Task.evaluate]
    h_eq := rfl
    g_eq := rfl
    residuals_eq := ⟨_, rfl⟩ }

end Start

/-! ## One step -/

section Step

variable {task : Task Extended} {opt : Options Extended} {solver : LinearSolver Extended}
  {it : Iterate Extended} {d : Direction Extended} {n : ℕ}

/-- A direction is expanded from a real solution of the reduced equations. -/
theorem Task.Exact.direction_eq_ok (h : task.Exact) (hopt : opt.Exact solver)
    (hi : task.Interior it) (hd : task.direction opt solver n it = .ok d) :
    ∃ reduced, Vec.IsReal reduced ∧
      reduced.length = task.qp.variableCount + task.sides.equalities.length ∧
      d = task.expand it reduced := by
  obtain ⟨K, reduced, -, hsolve, hnum, hsize, rfl⟩ := Task.direction_eq_ok hd
  have hside := hi.posed.shaped.length_newtonSide h.height
  have hlen := (solver.length_solve _ _ _ _ hsolve).trans hside
  refine ⟨reduced, ?_, hlen, rfl⟩
  rcases hopt.steps with hstep | hexact
  · exact Vec.isReal_of_norm hstep hnum hsize
  · exact hexact _ _ _ _ hsolve

theorem isReal_nextGamma {sigma gamma : Extended} (hsigma : sigma.IsReal) (hgamma : gamma.IsReal)
    {z mu : List Extended} (hz : Vec.IsReal z) (hmu : Vec.IsReal mu) :
    (nextGamma sigma gamma z mu).IsReal := by
  unfold nextGamma
  split
  · exact hgamma
  · rename_i hne
    have hlen : (z.length : ℝ) ≠ 0 := by
      have hpos : z ≠ [] := by simpa using hne
      exact Nat.cast_ne_zero.mpr (List.length_pos_of_ne_nil hpos).ne'
    have hproducts : Vec.IsReal (List.zipWith (· * ·) z mu) :=
      Vec.isReal_zipWith (fun _ _ ha hb => isReal_mul_iff.mpr ⟨ha, hb⟩) hz hmu
    rcases hsigma with ⟨sigma, rfl⟩
    rw [Vec.sum_eq hproducts, natCast_eq, real_mul_real, real_div_real _ hlen]
    exact isReal_real _

/-- One step stays in the interior. -/
theorem Task.Interior.advance (hi : task.Interior it) (hopt : opt.Exact solver)
    (hxi0 : 0 < opt.xi.toReal) (hxi1 : opt.xi.toReal < 1)
    (hd : RealDirection task d) : task.Interior (task.advance opt it d n).iterate := by
  have hxi := hopt.xi.eq
  have hprimal : (stepLength opt.xi it.z d.dz).IsReal := by
    rw [hxi]
    exact isReal_stepLength _ hi.z.isReal hd.dz
  have hdual : (stepLength opt.xi it.mu d.dmu).IsReal := by
    rw [hxi]
    exact isReal_stepLength _ hi.mu.isReal hd.dmu
  have hz : Vec.Positive (Vec.along it.z d.dz (stepLength opt.xi it.z d.dz)) := by
    rw [hxi]
    exact positive_along hxi0 hxi1 hi.z hd.dz
  have hmu : Vec.Positive (Vec.along it.mu d.dmu (stepLength opt.xi it.mu d.dmu)) := by
    rw [hxi]
    exact positive_along hxi0 hxi1 hi.mu hd.dmu
  exact {
    x := hi.x.along hd.dx hprimal
    lam := hi.lam.along hd.dlam hdual
    z := hz
    mu := hmu
    gamma := isReal_nextGamma hopt.sigma hi.gamma hz.isReal hmu.isReal
    length_x := by simp [Task.advance, Task.evaluate, hi.length_x, hd.length_dx]
    length_lam := by simp [Task.advance, Task.evaluate, hi.length_lam, hd.length_dlam]
    length_z := by simp [Task.advance, Task.evaluate, hi.length_z, hd.length_dz]
    length_mu := by simp [Task.advance, Task.evaluate, hi.length_mu, hd.length_dmu]
    h_eq := rfl
    g_eq := rfl
    residuals_eq := ⟨_, rfl⟩ }

/-- A step goes along the expansion of a real solution of the reduced equations. -/
theorem Task.Exact.step_eq_ok (h : task.Exact) (hopt : opt.Exact solver) (hi : task.Interior it)
    {p : Progress Extended} (hstep : task.step opt solver n it = .ok p) :
    ∃ reduced, RealDirection task (task.expand it reduced) ∧
      p = task.advance opt it (task.expand it reduced) n := by
  obtain ⟨d, hdirection, rfl⟩ := Task.step_eq_ok hstep
  obtain ⟨reduced, hreal, hlen, rfl⟩ := h.direction_eq_ok hopt hi hdirection
  exact ⟨reduced, h.realDirection hi.posed hreal hlen, rfl⟩

theorem Task.Exact.interior_step (h : task.Exact) (hopt : opt.Exact solver)
    (hxi0 : 0 < opt.xi.toReal) (hxi1 : opt.xi.toReal < 1) (hi : task.Interior it)
    {p : Progress Extended} (hstep : task.step opt solver n it = .ok p) :
    task.Interior p.iterate := by
  obtain ⟨reduced, hd, rfl⟩ := h.step_eq_ok hopt hi hstep
  exact hi.advance hopt hxi0 hxi1 hd

/-- A run that ends well ends in the interior, with its residuals satisfied. -/
theorem Task.Exact.interior_iterate (h : task.Exact) (hopt : opt.Exact solver)
    (hxi0 : 0 < opt.xi.toReal) (hxi1 : opt.xi.toReal < 1) {left made made' : ℕ}
    {it' : Iterate Extended} (hi : task.Interior it)
    (hrun : (task.iterate opt solver left made it).outcome = .ok (made', it')) :
    task.Interior it' ∧ it'.residuals.satisfied opt = true := by
  obtain ⟨hsat, hlast⟩ := Task.iterate_eq_ok hrun
  refine ⟨Task.forall_visited_iterate (fun _ _ _ hi hstep => ?_) hi it'
    (List.mem_of_getLast? hlast), hsat⟩
  exact h.interior_step hopt hxi0 hxi1 hi hstep

end Step

end InteriorPoint

end SeqQuad
