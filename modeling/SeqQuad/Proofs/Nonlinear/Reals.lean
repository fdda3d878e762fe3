import SeqQuad.Proofs.Curvature.Shift
import SeqQuad.Proofs.Exact.Matrix
import SeqQuad.Proofs.Nonlinear.Run

/-!
# Runs over the real numbers

A problem is exact when its start is real and its functions answer real numbers at real points;
its bounds may be infinite. With a subproblem solver that answers real numbers, every head of a
run then holds real numbers only.
-/

namespace SeqQuad

open Extended

theorem Extended.real_of_between {a c : ℝ} {b : Extended} (hab : (a : Extended) < b)
    (hbc : b < (c : Extended)) : ∃ r : ℝ, a < r ∧ r < c ∧ b = r := by
  cases b with
  | real r => exact ⟨r, real_lt_real.mp hab, real_lt_real.mp hbc, rfl⟩
  | posInf => exact absurd hbc.1 (posInf_le_real c)
  | negInf => exact absurd hab.1 (real_le_negInf a)
  | nan => exact absurd hab (lt_nan _)

/-! ## The line search -/

namespace LineSearch

variable {ω : Type} {opt : Options Extended} {x dx : List Extended} {slope : Extended}

/-- A real step length and a real point of the length of the start. -/
def RealEnd (x : List Extended) (s : LineSearch ω Extended) : Prop :=
  s.t.IsReal ∧ Vec.IsReal s.point ∧ s.point.length = x.length

theorem realEnd_run (hbeta : opt.beta.IsReal) (hx : Vec.IsReal x) (hdx : Vec.IsReal dx)
    (hlen : dx.length = x.length) {history : MeritWindow Extended}
    {merit : ℕ → List Extended → Journaled ω (Failure EvaluationError) Extended} :
    RealEnd x (run opt x dx slope history merit) := by
  have hconducted : Conducted opt Extended.IsReal x dx slope (reference history) merit
      (run opt x dx slope history merit) :=
    conducted_run (isReal_real 1) fun t ht => isReal_mul_iff.mpr ⟨ht, hbeta⟩
  unfold RealEnd
  rcases hconducted.ended.point_eq with ⟨ht, hpoint⟩ | ⟨ht, hpoint⟩
  · rw [ht, hpoint]
    exact ⟨isReal_real 0, hx, rfl⟩
  · rw [hpoint]
    exact ⟨ht, hx.along hdx ht, by simp [hlen]⟩

/-- A part of the full step. -/
def UnitLength (length : Extended) : Prop :=
  ∃ t : ℝ, 0 < t ∧ t ≤ 1 ∧ length = t

/-- A factor between zero and one leaves every trial a part of the full step. -/
theorem conducted_unit {beta : ℝ} (hbeta : opt.beta = beta) (hpos : 0 < beta) (hlt : beta < 1)
    {history : MeritWindow Extended}
    {merit : ℕ → List Extended → Journaled ω (Failure EvaluationError) Extended} :
    Conducted opt UnitLength x dx slope (reference history) merit
      (run opt x dx slope history merit) := by
  refine conducted_run ⟨1, one_pos, le_rfl, rfl⟩ ?_
  rintro _ ⟨t, ht0, ht1, rfl⟩
  exact ⟨t * beta, mul_pos ht0 hpos, mul_le_one₀ ht1 hpos.le hlt.le, by rw [hbeta, real_mul_real]⟩

/-- A search that went a share of the full step, all of it without a limit of trials. -/
structure Went (opt : Options Extended) (x dx : List Extended) (s : LineSearch ω Extended)
    (share : ℝ) : Prop where
  nonneg : 0 ≤ share
  le_one : share ≤ 1
  length : s.t = share
  unsearched : opt.maxTrials = 0 → share = 1
  point : share = 0 ∧ s.point = x ∨ s.point = Vec.along x dx share

/-- A factor between zero and one makes every search go a share of the full step. -/
theorem exists_went_run {beta : ℝ} (hbeta : opt.beta = beta) (hpos : 0 < beta) (hlt : beta < 1)
    {history : MeritWindow Extended}
    {merit : ℕ → List Extended → Journaled ω (Failure EvaluationError) Extended} :
    ∃ share, Went opt x dx (run opt x dx slope history merit) share := by
  by_cases hoff : opt.maxTrials = 0
  · rw [run_of_off hoff]
    exact ⟨1, zero_le_one, le_rfl, rfl, fun _ => rfl, .inr rfl⟩
  · have hconducted : Conducted opt UnitLength x dx slope (reference history) merit
        (run opt x dx slope history merit) := conducted_unit hbeta hpos hlt
    rcases hconducted.ended.point_eq with ⟨ht, hpoint⟩ | ⟨⟨share, h0, h1, ht⟩, hpoint⟩
    · exact ⟨0, le_rfl, zero_le_one, ht, fun h => absurd h hoff, .inl ⟨rfl, hpoint⟩⟩
    · exact ⟨share, h0.le, h1, ht, fun h => absurd h hoff, .inr (ht ▸ hpoint)⟩

section Went

variable {s : LineSearch ω Extended} {share : ℝ} {n : ℕ}

theorem Went.isReal_point (h : Went opt x dx s share) (hx : Vec.IsReal x) (hdx : Vec.IsReal dx) :
    Vec.IsReal s.point := by
  rcases h.point with ⟨-, hpoint⟩ | hpoint
  · exact hpoint ▸ hx
  · exact hpoint ▸ hx.along hdx (isReal_real share)

theorem Went.length_point (h : Went opt x dx s share) (hx : x.length = n)
    (hdx : dx.length = n) : s.point.length = n := by
  rcases h.point with ⟨-, hpoint⟩ | hpoint
  · rw [hpoint, hx]
  · simp [hpoint, hx, hdx]

theorem Went.reals_point (h : Went opt x dx s share) (hx : Vec.IsReal x) (hdx : Vec.IsReal dx)
    (hlx : x.length = n) (hldx : dx.length = n) :
    Vec.reals n s.point = Vec.reals n x + share • Vec.reals n dx := by
  rcases h.point with ⟨hzero, hpoint⟩ | hpoint
  · rw [hpoint, hzero, zero_smul, add_zero]
  · rw [hpoint, Vec.reals_along hx hdx hlx.ge hldx.ge]

end Went

end LineSearch

def QuadraticSolution.IsReal (sol : QuadraticSolution Extended) : Prop :=
  Vec.IsReal sol.x ∧ Vec.IsReal sol.lamX ∧ Vec.IsReal sol.lamA

namespace Nonlinear

theorem Options.Valid.beta_real {opt : Options Extended} (h : opt.Valid) :
    ∃ beta : ℝ, 0 < beta ∧ beta < 1 ∧ opt.beta = beta :=
  real_of_between h.beta.1 h.beta.2

theorem Options.Valid.c1_real {opt : Options Extended} (h : opt.Valid) :
    ∃ c1 : ℝ, 0 < c1 ∧ c1 < 1 ∧ opt.c1 = c1 :=
  real_of_between h.c1.1 h.c1.2

/-! ## Exact data -/

def Multipliers.IsReal (lam : Multipliers Extended) : Prop :=
  Vec.IsReal lam.g ∧ Vec.IsReal lam.x

/-- A real start, and functions that answer real numbers at real points. -/
structure Problem.Exact (p : Problem Extended) : Prop where
  x0 : Vec.IsReal p.x0
  multipliers : ∀ lam, p.multipliers = some lam → lam.IsReal
  gradient : ∀ m x f gradF, Vec.IsReal x → p.objective.gradient m x = .ok (f, gradF) →
    f.IsReal ∧ Vec.IsReal gradF
  jacobian : ∀ c, p.constraints = some c → ∀ m x g jac, Vec.IsReal x →
    c.jacobian m x = .ok (g, jac) → Vec.IsReal g ∧ jac.IsReal
  hessian : ∀ hess, p.hessian = some hess → ∀ m x lam scale h, Vec.IsReal x → Vec.IsReal lam →
    hess m x lam scale = .ok h → h.WellFormed ∧ h.IsReal

def Backend.Exact (backend : Backend Extended) : Prop :=
  ∀ k qp start sol, (backend k qp start).outcome = .ok sol → sol.IsReal

/-- The point and the multipliers are real and have the lengths of the problem. -/
structure Problem.RealPoint (p : Problem Extended) (x : List Extended)
    (lam : Multipliers Extended) : Prop where
  point : Vec.IsReal x
  multipliers : lam.IsReal
  length_x : x.length = p.variableCount
  length_lamX : lam.x.length = p.variableCount
  length_lamG : lam.g.length = p.constraintCount

section Start

variable {p : Problem Extended} {lam : Multipliers Extended}

theorem isReal_startMultipliers (hp : ∀ lam', p.multipliers = some lam' → lam'.IsReal)
    (h : p.startMultipliers = .ok lam) : lam.IsReal := by
  unfold Problem.startMultipliers at h
  split at h
  · obtain rfl := Except.ok.inj h
    exact ⟨Vec.isReal_zeros _, Vec.isReal_zeros _⟩
  · rename_i lam' hlam
    dsimp only at h
    split at h
    · cases h
    · obtain rfl := Except.ok.inj h
      exact hp lam' hlam

end Start

namespace Task

variable {t : Task Extended} {s s' : Iterate Extended} {sol : QuadraticSolution Extended}

theorem exists_went_search (hopt : t.options.Valid) (s : Iterate Extended)
    (sol : QuadraticSolution Extended) :
    ∃ share, LineSearch.Went t.options.search s.x sol.x (t.search s sol) share := by
  obtain ⟨beta, hpos, hlt, hbeta⟩ := hopt.beta_real
  have hfactor : t.options.search.beta = beta := hbeta
  exact LineSearch.exists_went_run hfactor hpos hlt

theorem isReal_nextMultipliers (hs : s.multipliers.IsReal) (hsol : sol.IsReal) {length : Extended}
    (hlength : length.IsReal) : (t.nextMultipliers s sol length).IsReal := by
  unfold nextMultipliers
  split
  · exact ⟨hsol.2.2.blend hs.1 hlength, hsol.2.1.blend hs.2 hlength⟩
  · exact ⟨hsol.2.2, hsol.2.1⟩

theorem realPoint_of_started (hx0 : Vec.IsReal t.problem.x0)
    (hlam0 : ∀ lam, t.problem.multipliers = some lam → lam.IsReal) {lam : Multipliers Extended}
    (hlam : t.problem.startMultipliers = .ok lam) (h : t.Started lam s) :
    t.problem.RealPoint s.x s.multipliers := by
  obtain ⟨hx, hg⟩ := startMultipliers_length hlam
  exact {
    point := h.x ▸ hx0
    multipliers := h.multipliers ▸ isReal_startMultipliers hlam0 hlam
    length_x := by rw [h.x]; rfl
    length_lamX := h.multipliers ▸ hx
    length_lamG := h.multipliers ▸ hg }

/-- One iteration keeps the point and the multipliers real, wherever its line search ends. -/
theorem realPoint_of_stepped (hopt : t.options.validate = .ok ()) (hsol : sol.IsReal)
    (hs : t.problem.RealPoint s.x s.multipliers) (h : t.Stepped s sol s') :
    t.problem.RealPoint s'.x s'.multipliers := by
  have hlen : sol.x.length = s.x.length := by rw [h.length_x, hs.length_x]
  obtain ⟨beta, -, -, hbeta⟩ := (Options.valid_of_validate hopt).beta_real
  obtain ⟨ht, hpoint, hplen⟩ : LineSearch.RealEnd s.x (t.search s sol) :=
    LineSearch.realEnd_run ⟨beta, hbeta⟩ hs.point hsol.1 hlen
  obtain ⟨hlx, hlg⟩ := length_nextMultipliers (t := t) hs.length_lamX hs.length_lamG
    h.length_lamX h.length_lamA (t.search s sol).t
  exact {
    point := h.x ▸ hpoint
    multipliers := h.multipliers ▸ isReal_nextMultipliers hs.multipliers hsol ht
    length_x := by rw [h.x, hplen, hs.length_x]
    length_lamX := h.multipliers ▸ hlx
    length_lamG := h.multipliers ▸ hlg }

end Task

theorem exists_went_of_check {opt : Options Extended} {backend : Backend Extended}
    {callback : Option (Snapshot Extended → Bool)} {p : Problem Extended}
    {checked : Checked Extended} (hc : p.check opt = .ok checked) (s : Iterate Extended)
    (sol : QuadraticSolution Extended) :
    ∃ share, LineSearch.Went opt.search s.x sol.x
      ((taskOf opt backend callback p checked).search s sol) share := by
  have hvalid := Options.valid_of_validate (Problem.passes_of_check hc).options
  exact Task.exists_went_search (t := taskOf opt backend callback p checked) hvalid s sol

/-! ## The penalty -/

theorem Task.nextSigma_real (sigma : ℝ) {sol : QuadraticSolution Extended} (hsol : sol.IsReal)
    {n m : ℕ} (hx : sol.lamX.length = n) (ha : sol.lamA.length = m) :
    Task.nextSigma (sigma : Extended) sol =
      ((max (max sigma (1.01 * ‖Vec.reals n sol.lamX‖)) (1.01 * ‖Vec.reals m sol.lamA‖) : ℝ) :
        Extended) := by
  rw [Task.nextSigma, Vec.normInf_eq hx hsol.2.1, Vec.normInf_eq ha hsol.2.2, ofScientific_eq,
    real_mul_real, real_mul_real, maxNum_real, maxNum_real]

theorem isReal_sigma_of_mem_runHeads {opt : Options Extended} {backend : Backend Extended}
    {callback : Option (Snapshot Extended → Bool)} {p : Problem Extended}
    (hback : backend.Exact) : ∀ s ∈ runHeads opt backend callback p,
      ∃ r : ℝ, 0 ≤ r ∧ s.sigma = r := by
  have hstep : ∀ (t : Task Extended) (s : Iterate Extended) sol s', t.backend = backend →
      (∃ r : ℝ, 0 ≤ r ∧ s.sigma = r) → t.Stepped s sol s' → ∃ r : ℝ, 0 ≤ r ∧ s'.sigma = r := by
    rintro t s sol s' hb ⟨r, hr, hsigma⟩ h
    have hsol : sol.IsReal := hback _ _ _ _ (hb ▸ h.solved)
    have hnext := Task.nextSigma_real r hsol h.length_lamX h.length_lamA
    rw [← hsigma, ← h.sigma] at hnext
    exact ⟨_, hr.trans ((le_max_left _ _).trans (le_max_left _ _)), hnext⟩
  intro s hs
  obtain ⟨_, _, hsigma⟩ := runHeads_induction
    (P := fun _ (s : Iterate Extended) => ∃ r : ℝ, 0 ≤ r ∧ s.sigma = r)
    (fun _ _ _ hfirst => ⟨0, le_rfl, hfirst.sigma⟩)
    (fun _ s sol s' _ h _ hst => hstep _ s sol s' rfl h hst) s hs
  exact hsigma

/-- Every head of a run on exact data is real. -/
theorem realPoint_of_mem_runHeads {opt : Options Extended} {backend : Backend Extended}
    {callback : Option (Snapshot Extended → Bool)} {p : Problem Extended} (hp : p.Exact)
    (hback : backend.Exact) : ∀ s ∈ runHeads opt backend callback p,
      p.RealPoint s.x s.multipliers := by
  have hstart : ∀ checked first, p.Passes opt checked →
      (taskOf opt backend callback p checked).Started checked.multipliers first →
      p.RealPoint first.x first.multipliers :=
    fun _ _ hpass hfirst => Task.realPoint_of_started hp.x0 hp.multipliers hpass.multipliers hfirst
  intro s hs
  obtain ⟨_, _, hreal⟩ := runHeads_induction (P := fun _ s => p.RealPoint s.x s.multipliers)
    hstart (fun checked s sol s' hpass hs _ hstep =>
      Task.realPoint_of_stepped hpass.options (hback _ _ _ _ hstep.solved) hs hstep) s hs
  exact hreal

end Nonlinear

end SeqQuad
