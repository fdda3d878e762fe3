import SeqQuad.Curvature.Bfgs
import SeqQuad.Proofs.Curvature.RankTwo
import SeqQuad.Proofs.SparseMatrix.Full

/-!
# The damped update in exact arithmetic

An approximation that stores every position and is positive definite stays so under an update,
applied or skipped, and under a reset, whatever the step and the gradients are: data that are not
real never pass the guard of the divisors.
-/

namespace SeqQuad.Bfgs

open Extended SparseMatrix Scalar Matrix

/-! ## What an update does -/

section Cases

variable {α : Type} [Scalar α] {b b' : SparseMatrix α} {x xOld glag glagOld : List α}
  {minCurvature : α} {outcome : Outcome α}

/-- An update that is applied: its divisors passed the guard, and two outer products are added. -/
structure Applied (b : SparseMatrix α) (s change : List α) (minCurvature omega : α)
    (b' : SparseMatrix α) : Prop where
  length : s.length = b.cols
  readable : b.Readable
  omega_eq : omega = damping (Vec.dot s change) (Vec.dot s (b.apply s))
  usable_sy : unusable (Vec.dot s (damped omega change (b.apply s))) minCurvature = false
  usable_sBs : unusable (Vec.dot s (b.apply s)) minCurvature = false
  updated : ∃ grown,
    b.addOuter? (1 / Vec.dot s (damped omega change (b.apply s)))
      (damped omega change (b.apply s)) (damped omega change (b.apply s)) = some grown ∧
    grown.addOuter? (-(1 / Vec.dot s (b.apply s))) (b.apply s) (b.apply s) = some b'

/-- An update keeps the approximation or is applied. -/
theorem update?_cases (h : update? b x xOld glag glagOld minCurvature = some (b', outcome)) :
    (b' = b ∧ ∀ omega, outcome ≠ .applied omega) ∨ ∃ omega, outcome = .applied omega ∧
      Applied b (Vec.sub x xOld) (Vec.sub glag glagOld) minCurvature omega b' := by
  unfold update? at h
  dsimp only at h
  split at h
  · obtain ⟨rfl, rfl⟩ := Prod.mk.inj (Option.some.inj h)
    exact .inl ⟨rfl, nofun⟩
  · cases h
  · rename_i q hq
    rcases mulVec_eq_ok_iff.mp hq with ⟨hlen, hread, rfl⟩
    split at h
    · obtain ⟨rfl, rfl⟩ := Prod.mk.inj (Option.some.inj h)
      exact .inl ⟨rfl, nofun⟩
    · rename_i husable
      rw [Bool.or_eq_true, not_or, Bool.not_eq_true, Bool.not_eq_true] at husable
      rcases Option.bind_eq_some_iff.mp h with ⟨grown, hgrown, h⟩
      rcases Option.bind_eq_some_iff.mp h with ⟨balanced, hbalanced, h⟩
      obtain ⟨rfl, rfl⟩ := Prod.mk.inj (Option.some.inj h)
      exact .inr ⟨_, rfl, hlen, hread, rfl, husable.1, husable.2, grown, hgrown, hbalanced⟩

@[simp]
theorem length_damped (omega : α) (change q : List α) :
    (damped omega change q).length = change.length := by
  unfold damped
  split <;> simp

/-! ## Full approximations -/

variable {n : ℕ}

theorem reset_ofFunction (f : ℕ → ℕ → α) :
    Bfgs.reset (ofFunction n f) = ofFunction n fun i j => if i = j then f i j else 0 :=
  mapStored_ofFunction fun i j v => if i = j then v else 0

/-- An approximation that stores every position takes every step and every change of gradients of
its dimension, and stores every position afterwards. -/
theorem exists_update_ofFunction (f : ℕ → ℕ → α) (hx : x.length = n) (hxOld : xOld.length = n)
    (hglag : glag.length = n) (hglagOld : glagOld.length = n) (minCurvature : α) :
    ∃ g outcome, update? (ofFunction n f) x xOld glag glagOld minCurvature =
      some (ofFunction n g, outcome) := by
  have hstep : (Vec.sub x xOld).length = (ofFunction n f).cols := by simp [hx, hxOld]
  have hproduct : ((ofFunction n f).apply (Vec.sub x xOld)).length = n := by simp
  have hchange : (Vec.sub glag glagOld).length = n := by simp [hglag, hglagOld]
  unfold update?
  dsimp only
  rw [mulVec_eq_ok_iff.mpr ⟨hstep, readable_ofFunction, rfl⟩]
  dsimp only
  split
  · exact ⟨f, _, rfl⟩
  · generalize (ofFunction n f).apply (Vec.sub x xOld) = q at hproduct ⊢
    generalize hy : damped _ (Vec.sub glag glagOld) q = y
    have hreach : n ≤ y.length := by rw [← hy, length_damped, hchange]
    obtain ⟨grown, hgrown⟩ := exists_addOuter_ofFunction (f := f)
      (1 / Vec.dot (Vec.sub x xOld) y) hreach hreach
    obtain ⟨-, -, rfl⟩ := addOuter?_ofFunction hgrown
    obtain ⟨balanced, hbalanced⟩ := exists_addOuter_ofFunction
      (-(1 / Vec.dot (Vec.sub x xOld) q)) hproduct.ge hproduct.ge
    obtain ⟨-, -, rfl⟩ := addOuter?_ofFunction hbalanced
    exact ⟨_, _, Option.bind_eq_some_iff.mpr
      ⟨_, hgrown, Option.bind_eq_some_iff.mpr ⟨_, hbalanced, rfl⟩⟩⟩

end Cases

/-! ## Positive definite approximations -/

/-- Every position is stored, and the matrix is positive definite. -/
structure FullPosDef (n : ℕ) (B : SparseMatrix Extended) : Prop where
  full : ∃ f, B = ofFunction n f
  real : B.IsReal
  posDef : (B.dense n n).PosDef

section Curvature

variable {n : ℕ} {B : SparseMatrix Extended} (hB : FullPosDef n B)

include hB

theorem FullPosDef.cols_eq : B.cols = n := by
  rcases hB.full with ⟨f, rfl⟩
  exact cols_ofFunction

theorem FullPosDef.height_eq : B.height = n := by
  rcases hB.full with ⟨f, rfl⟩
  exact height_ofFunction

theorem FullPosDef.readable : B.Readable := by
  rcases hB.full with ⟨f, rfl⟩
  exact readable_ofFunction

theorem FullPosDef.reals_apply {s : List Extended} (hs : Vec.IsReal s) :
    Vec.reals n (B.apply s) = B.dense n n *ᵥ Vec.reals n s := by
  have h := SparseMatrix.reals_apply hB.real hB.readable hs
  rwa [hB.height_eq, hB.cols_eq] at h

/-- A real curvature of the approximation belongs to a real step. -/
theorem FullPosDef.curvature_eq {s : List Extended} (hlen : s.length = n)
    (h : (Vec.dot s (B.apply s)).IsReal) :
    Vec.IsReal s ∧ Vec.dot s (B.apply s) =
      ((Vec.reals n s ⬝ᵥ B.dense n n *ᵥ Vec.reals n s : ℝ) : Extended) := by
  have happly : n ≤ (B.apply s).length := by simp [hB.height_eq]
  have hs : Vec.IsReal s := by
    apply Vec.isReal_of_coord
    intro i hi
    exact ((Vec.isReal_dot_iff hlen happly).mp h i (by omega)).1
  refine ⟨hs, ?_⟩
  rw [Vec.dot_eq hlen happly hs (isReal_apply hB.real hB.readable hs), hB.reals_apply hs]

theorem FullPosDef.curvature_nonneg {s : List Extended} (hlen : s.length = n)
    (h : (Vec.dot s (B.apply s)).IsReal) : 0 ≤ (Vec.dot s (B.apply s)).toReal := by
  rw [(hB.curvature_eq hlen h).2, toReal_real]
  have hform := hB.posDef.posSemidef.dotProduct_mulVec_nonneg (Vec.reals n s)
  rwa [star_trivial] at hform

end Curvature

/-! ## Damping -/

/-- The divisor of the damping factor is positive whenever the factor is computed. -/
theorem divisor_pos {sy sBs : Extended} (hsBs : sBs.IsReal → 0 ≤ sBs.toReal)
    (h : sy < 0.2 * sBs) : 0 < sBs - sy := by
  rw [ofScientific_eq] at h
  have hfifth : (0 : ℝ) < OfScientific.ofScientific 2 true 1 := by norm_num
  cases sBs with
  | real b =>
      have hb : 0 ≤ b := hsBs (isReal_real b)
      rw [real_mul_real] at h
      cases sy with
      | real c =>
          rw [real_lt_real] at h
          rw [real_sub_real, zero_eq, real_lt_real]
          norm_num at h
          linarith
      | posInf => simp [lt_iff] at h
      | negInf => simp [sub_def, neg_def, add_def, Extended.neg, Extended.add, lt_iff]
      | nan => simp at h
  | posInf =>
      cases sy <;>
        simp [mul_def, Extended.mul, scaleInf, hfifth.ne', hfifth, sub_def, neg_def, add_def,
          Extended.neg, Extended.add, lt_iff] at h ⊢
  | negInf =>
      cases sy <;>
        simp [mul_def, Extended.mul, scaleInf, hfifth.ne', hfifth, lt_iff] at h
  | nan =>
      have hnan : ((OfScientific.ofScientific 2 true 1 : ℝ) : Extended) * nan = nan := rfl
      rw [hnan] at h
      exact absurd h (lt_nan sy)

/-- The damping factor and the damped curvature in the real numbers. -/
theorem damping_real {c b : ℝ} (hb : 0 < b) :
    ∃ w : ℝ, damping (c : Extended) (b : Extended) = w ∧ 0 < w ∧ w ≤ 1 ∧
      0.2 * b ≤ w * c + (1 - w) * b := by
  unfold damping
  rw [ofScientific_eq, ofScientific_eq, real_mul_real, real_mul_real]
  by_cases hlow : c < 0.2 * b
  · have hdiv : 0 < b - c := by linarith
    rw [if_pos (real_lt_real.mpr hlow), real_sub_real, real_div_real _ hdiv.ne']
    refine ⟨_, rfl, by positivity, ?_, ?_⟩
    · rw [div_le_one hdiv]
      linarith
    · have hcurv : 0.8 * b / (b - c) * c + (1 - 0.8 * b / (b - c)) * b = 0.2 * b := by
        field_simp
        ring
      rw [hcurv]
  · rw [if_neg (real_lt_real.not.mpr hlow)]
    refine ⟨1, rfl, one_pos, le_rfl, ?_⟩
    linarith

theorem same_real {a b : ℝ} : same (a : Extended) (b : Extended) = true ↔ a = b := by
  rw [same, Bool.and_eq_true, decide_eq_true_eq, decide_eq_true_eq, real_le_real, real_le_real]
  exact ⟨fun h => le_antisymm h.1 h.2, fun h => ⟨h.le, h.ge⟩⟩

theorem unusable_eq_false {c m : Extended} (hm : m ≠ nan) (hm0 : ¬m < 0)
    (h : unusable c m = false) : ∃ r : ℝ, c = r ∧ r ≠ 0 := by
  unfold unusable at h
  rw [Bool.or_eq_false_iff, Bool.not_eq_false', isFinite_iff] at h
  rcases h with ⟨hlarge, r, rfl⟩
  refine ⟨r, rfl, fun hzero => ?_⟩
  have hle : (0 : Extended) ≤ m := (not_lt_iff hm (isReal_real 0).ne_nan).mp hm0
  rw [hzero, magnitude_real, abs_zero, decide_eq_false_iff_not] at hlarge
  exact hlarge hle

theorem coord_mergeWith {α β : Type} [Scalar α] [Scalar β] (f : α → β → α) {a : List α}
    {b : List β} {i : ℕ} (ha : i < a.length) (hb : i < b.length) :
    Vec.coord (Vec.mergeWith f a b) i = f (Vec.coord a i) (Vec.coord b i) := by
  induction a generalizing b i with
  | nil => simp at ha
  | cons u a ih =>
      cases b with
      | nil => simp at hb
      | cons v b =>
          cases i with
          | zero => rfl
          | succ i => exact ih (by simpa using ha) (by simpa using hb)

section Damped

variable {n : ℕ} {s change q : List Extended} {omega : Extended}

theorem coord_damped (hchange : n ≤ change.length) (hq : n ≤ q.length) {i : ℕ} (hi : i < n) :
    Vec.coord (damped omega change q) i =
      if same omega 1 then Vec.coord change i
      else omega * Vec.coord change i + (1 - omega) * Vec.coord q i := by
  unfold damped
  split
  · rfl
  · exact coord_mergeWith _ (by omega) (by omega)

/-- A real damped change is that of a real change. -/
theorem isReal_change (hchange : n ≤ change.length) (hq : n ≤ q.length)
    (h : ∀ i < n, (Vec.coord (damped omega change q) i).IsReal) :
    ∀ i < n, (Vec.coord change i).IsReal := by
  intro i hi
  have hreal := h i hi
  rw [coord_damped hchange hq hi] at hreal
  split at hreal
  · exact hreal
  · exact (isReal_mul_iff.mp (isReal_add_iff.mp hreal).1).2

theorem reals_damped (hchange : n ≤ change.length) (hq : n ≤ q.length)
    (hreal : ∀ i < n, (Vec.coord change i).IsReal) (hqreal : Vec.IsReal q) (w : ℝ) :
    (∀ i < n, (Vec.coord (damped (w : Extended) change q) i).IsReal) ∧
      Vec.reals n (damped (w : Extended) change q) =
        w • Vec.reals n change + (1 - w) • Vec.reals n q := by
  have hcoord : ∀ i < n, Vec.coord (damped (w : Extended) change q) i =
      ((w * (Vec.coord change i).toReal + (1 - w) * (Vec.coord q i).toReal : ℝ) : Extended) := by
    intro i hi
    rw [coord_damped hchange hq hi, (hreal i hi).eq, (hqreal.coord i).eq, one_eq]
    by_cases hw : w = 1
    · rw [if_pos (same_real.mpr hw), hw]
      simp
    · rw [if_neg (by rwa [same_real])]
      simp
  refine ⟨fun i hi => ?_, ?_⟩
  · rw [hcoord i hi]
    exact isReal_real _
  · funext i
    rw [Vec.reals, hcoord i i.isLt]
    rfl

/-- The damped change of a real step has at least a fifth of the curvature of the approximation. -/
theorem damped_curvature {sBs : ℝ} (hlen : s.length = n) (hchange : n ≤ change.length)
    (hqlen : n ≤ q.length) (hs : Vec.IsReal s) (hreal : ∀ i < n, (Vec.coord change i).IsReal)
    (hq : Vec.IsReal q) (hform : sBs = Vec.reals n s ⬝ᵥ Vec.reals n q) (hpos : 0 < sBs) :
    ∃ w : ℝ, damping (Vec.dot s change) (sBs : Extended) = w ∧ 0 < w ∧ w ≤ 1 ∧
      0.2 * sBs ≤ Vec.reals n s ⬝ᵥ Vec.reals n (damped (w : Extended) change q) := by
  have hdot := Vec.dot_eq_of_coord hlen hchange (fun i _ => hs.coord i) hreal
  obtain ⟨w, hw, hw0, hw1, hdamped⟩ :=
    damping_real (c := Vec.reals n s ⬝ᵥ Vec.reals n change) hpos
  have hcurvature : Vec.reals n s ⬝ᵥ Vec.reals n (damped (w : Extended) change q) =
      w * (Vec.reals n s ⬝ᵥ Vec.reals n change) + (1 - w) * sBs := by
    rw [(reals_damped hchange hqlen hreal hq w).2, dotProduct_add, dotProduct_smul,
      dotProduct_smul, smul_eq_mul, smul_eq_mul, ← hform]
  refine ⟨w, ?_, hw0, hw1, ?_⟩
  · rw [hdot, hw]
  · rwa [hcurvature]

end Damped

/-! ## Updates and resets keep positive definiteness -/

section Update

variable {n : ℕ} {B B' : SparseMatrix Extended} {s change : List Extended}
  {minCurvature omega : Extended}

/-- Two outer products added to the full pattern. -/
theorem rankTwo_of_updated (hB : FullPosDef n B) {y q : List Extended} {sy sBs : ℝ}
    {grown : SparseMatrix Extended} (hsy : sy ≠ 0) (hsBs : sBs ≠ 0)
    (hy : ∀ i < n, (Vec.coord y i).IsReal) (hq : Vec.IsReal q)
    (hgrown : B.addOuter? (1 / (sy : Extended)) y y = some grown)
    (hbalanced : grown.addOuter? (-(1 / (sBs : Extended))) q q = some B') :
    (∃ f, B' = ofFunction n f) ∧ B'.IsReal ∧
      B'.dense n n = B.dense n n + (1 / sy) • vecMulVec (Vec.reals n y) (Vec.reals n y) -
        (1 / sBs) • vecMulVec (Vec.reals n q) (Vec.reals n q) := by
  rcases hB.full with ⟨f, rfl⟩
  obtain ⟨_, _, rfl⟩ := addOuter?_ofFunction hgrown
  obtain ⟨_, _, rfl⟩ := addOuter?_ofFunction hbalanced
  have hentry : ∀ i < n, ∀ j < n,
      f i j + 1 / (sy : Extended) * Vec.coord y i * Vec.coord y j +
          -(1 / (sBs : Extended)) * Vec.coord q i * Vec.coord q j =
        (((f i j).toReal + 1 / sy * (Vec.coord y i).toReal * (Vec.coord y j).toReal +
          -(1 / sBs) * (Vec.coord q i).toReal * (Vec.coord q j).toReal : ℝ) : Extended) := by
    intro i hi j hj
    rw [(isReal_of_isReal_ofFunction hB.real hi hj).eq, (hy i hi).eq, (hy j hj).eq,
      (hq.coord i).eq, (hq.coord j).eq, one_eq, real_div_real _ hsy, real_div_real _ hsBs]
    simp
  refine ⟨⟨_, rfl⟩, isReal_ofFunction fun i hi j hj => ?_, ?_⟩
  · rw [hentry i hi j hj]
    exact isReal_real _
  · ext i j
    rw [dense_ofFunction, hentry i i.isLt j j.isLt, toReal_real, Matrix.sub_apply,
      Matrix.add_apply, dense_ofFunction, Matrix.smul_apply, Matrix.smul_apply, vecMulVec_apply,
      vecMulVec_apply, smul_eq_mul, smul_eq_mul]
    show _ = (f i j).toReal + 1 / sy * ((Vec.coord y i).toReal * (Vec.coord y j).toReal) -
      1 / sBs * ((Vec.coord q i).toReal * (Vec.coord q j).toReal)
    ring

/-- The gradient change over the real numbers, moved toward `B * s` by the factor `w`. -/
noncomputable def dampedReals (n : ℕ) (B : SparseMatrix Extended) (s change : List Extended)
    (w : ℝ) : Fin n → ℝ :=
  w • Vec.reals n change + (1 - w) • B.dense n n *ᵥ Vec.reals n s

/-- What an applied update of a positive definite approximation does over the real numbers. -/
structure RealUpdate (n : ℕ) (B : SparseMatrix Extended) (s change : List Extended)
    (omega : Extended) (B' : SparseMatrix Extended) (w : ℝ) : Prop where
  omega_eq : omega = w
  pos : 0 < w
  le_one : w ≤ 1
  full : ∃ f, B' = ofFunction n f
  real : B'.IsReal
  curvature_eq : Vec.dot s (B.apply s) =
    ((Vec.reals n s ⬝ᵥ B.dense n n *ᵥ Vec.reals n s : ℝ) : Extended)
  curvature_pos : 0 < Vec.reals n s ⬝ᵥ B.dense n n *ᵥ Vec.reals n s
  damped_eq : Vec.dot s (damped omega change (B.apply s)) =
    ((Vec.reals n s ⬝ᵥ dampedReals n B s change w : ℝ) : Extended)
  fifth_le : 0.2 * (Vec.reals n s ⬝ᵥ B.dense n n *ᵥ Vec.reals n s) ≤
    Vec.reals n s ⬝ᵥ dampedReals n B s change w
  dense_eq : B'.dense n n = rankTwo (B.dense n n) (Vec.reals n s) (dampedReals n B s change w)

/-- An applied update adds two outer products of real vectors: the guard of the divisors lets no
other data pass. -/
theorem FullPosDef.realUpdate (hB : FullPosDef n B) (hm : minCurvature ≠ nan)
    (hm0 : ¬minCurvature < 0) (h : Applied B s change minCurvature omega B') :
    ∃ w, RealUpdate n B s change omega B' w := by
  rcases h with ⟨hlen, hread, homega, hsy, hsBs, grown, hgrown, hbalanced⟩
  rw [hB.cols_eq] at hlen
  have hqlen : n ≤ (B.apply s).length := by simp [hB.height_eq]
  have hchange : n ≤ change.length := by
    rcases hB.full with ⟨f, rfl⟩
    have hreach := (addOuter?_ofFunction hgrown).1
    rwa [length_damped] at hreach
  obtain ⟨sBs, hsBsreal, hsBs0⟩ := unusable_eq_false hm hm0 hsBs
  obtain ⟨sy, hsyreal, hsy0⟩ := unusable_eq_false hm hm0 hsy
  have hylen : n ≤ (damped omega change (B.apply s)).length := by rwa [length_damped]
  have hycoord : ∀ i < n, (Vec.coord (damped omega change (B.apply s)) i).IsReal := fun i hi =>
    ((Vec.isReal_dot_iff hlen hylen).mp ⟨sy, hsyreal⟩ i hi).2
  have hccoord := isReal_change hchange hqlen hycoord
  obtain ⟨hs, hform⟩ := hB.curvature_eq hlen ⟨sBs, hsBsreal⟩
  have hq : Vec.IsReal (B.apply s) := isReal_apply hB.real hread hs
  have hpos : 0 < sBs := by
    have hnonneg := hB.curvature_nonneg hlen ⟨sBs, hsBsreal⟩
    rw [hsBsreal, toReal_real] at hnonneg
    exact lt_of_le_of_ne hnonneg (Ne.symm hsBs0)
  have hvalue : sBs = Vec.reals n s ⬝ᵥ B.dense n n *ᵥ Vec.reals n s := by
    rwa [hsBsreal, real_inj] at hform
  have hform' : sBs = Vec.reals n s ⬝ᵥ Vec.reals n (B.apply s) := by
    rw [hvalue, hB.reals_apply hs]
  -- The factor is computed from real curvatures, since the change is real.
  rw [hsBsreal] at homega
  obtain ⟨w, hw, hw0, hw1, hfifth⟩ :=
    damped_curvature hlen hchange hqlen hs hccoord hq hform' hpos
  obtain rfl := homega.trans hw
  have hdamped : Vec.reals n (damped (w : Extended) change (B.apply s)) =
      dampedReals n B s change w := by
    rw [(reals_damped hchange hqlen hccoord hq w).2, hB.reals_apply hs, dampedReals]
  have hydot : sy = Vec.reals n s ⬝ᵥ dampedReals n B s change w := by
    rw [Vec.dot_eq_of_coord hlen hylen (fun i _ => hs.coord i) hycoord, real_inj, hdamped]
      at hsyreal
    exact hsyreal.symm
  rw [hsyreal] at hgrown
  rw [hsBsreal] at hbalanced
  obtain ⟨hfull, hreal, hdense⟩ := rankTwo_of_updated hB hsy0 hsBs0 hycoord hq hgrown hbalanced
  exact ⟨w, {
    omega_eq := rfl
    pos := hw0
    le_one := hw1
    full := hfull
    real := hreal
    curvature_eq := by rw [hsBsreal, hvalue]
    curvature_pos := by rwa [← hvalue]
    damped_eq := by rw [hsyreal, hydot]
    fifth_le := by rwa [← hvalue, ← hdamped]
    dense_eq := by rw [hdense, hdamped, hB.reals_apply hs, rankTwo, ← hydot, ← hvalue] }⟩

section Secant

variable {w : ℝ} (h : RealUpdate n B s change omega B' w)
include h

theorem RealUpdate.damped_pos : 0 < Vec.reals n s ⬝ᵥ dampedReals n B s change w := by
  have hpos := h.curvature_pos
  exact lt_of_lt_of_le (by positivity) h.fifth_le

/-- Along the step the new approximation gives the damped gradient change. -/
theorem RealUpdate.secant :
    B'.dense n n *ᵥ Vec.reals n s = dampedReals n B s change w := by
  rw [h.dense_eq, rankTwo_mulVec h.curvature_pos.ne' h.damped_pos.ne']

theorem RealUpdate.fullPosDef (hB : FullPosDef n B) : FullPosDef n B' := by
  refine ⟨h.full, h.real, ?_⟩
  rw [h.dense_eq]
  exact posDef_rankTwo hB.posDef h.curvature_pos h.damped_pos

end Secant

/-- An applied update is damped by a factor in range, divides by positive curvatures, and keeps
the approximation positive definite. -/
theorem FullPosDef.applied (hB : FullPosDef n B) (hm : minCurvature ≠ nan)
    (hm0 : ¬minCurvature < 0) (h : Applied B s change minCurvature omega B') :
    FullPosDef n B' ∧ ∃ w sBs sy : ℝ, omega = w ∧ 0 < w ∧ w ≤ 1 ∧
      Vec.dot s (B.apply s) = sBs ∧ 0 < sBs ∧
      Vec.dot s (damped omega change (B.apply s)) = sy ∧ 0.2 * sBs ≤ sy := by
  obtain ⟨w, hupdate⟩ := hB.realUpdate hm hm0 h
  exact ⟨hupdate.fullPosDef hB, w, _, _, hupdate.omega_eq, hupdate.pos, hupdate.le_one,
    hupdate.curvature_eq, hupdate.curvature_pos, hupdate.damped_eq, hupdate.fifth_le⟩

/-- An update keeps the approximation positive definite, applied or skipped. -/
theorem FullPosDef.update (hB : FullPosDef n B) {x xOld glag glagOld : List Extended}
    {outcome : Outcome Extended} (hm : minCurvature ≠ nan) (hm0 : ¬minCurvature < 0)
    (h : update? B x xOld glag glagOld minCurvature = some (B', outcome)) : FullPosDef n B' := by
  rcases update?_cases h with ⟨rfl, _⟩ | ⟨omega, _, happlied⟩
  · exact hB
  · exact (hB.applied hm hm0 happlied).1

theorem fullPosDef_initial (n : ℕ) : FullPosDef n (initial n) := by
  refine ⟨⟨_, denseIdentity_eq n 1⟩, ?_, ?_⟩
  · rw [initial, denseIdentity_eq]
    apply isReal_ofFunction
    intro i _ j _
    split <;> simp
  · have hone : (initial n : SparseMatrix Extended).dense n n = 1 := by
      ext i j
      rw [initial, denseIdentity_eq, dense_ofFunction, Matrix.one_apply]
      by_cases hij : i = j
      · simp [hij]
      · simp [hij, Fin.ext_iff.not.mp hij]
    rw [hone]
    exact PosDef.one

/-- A reset keeps the diagonal. -/
theorem FullPosDef.dense_reset (hB : FullPosDef n B) :
    (Bfgs.reset B).dense n n = diagonal (B.dense n n).diag := by
  rcases hB.full with ⟨f, rfl⟩
  ext i j
  rw [reset_ofFunction, dense_ofFunction, Matrix.diagonal_apply, Matrix.diag_apply,
    dense_ofFunction]
  by_cases hij : i = j
  · simp [hij]
  · simp [hij, Fin.ext_iff.not.mp hij]

theorem FullPosDef.reset (hB : FullPosDef n B) : FullPosDef n (Bfgs.reset B) := by
  have hpos : ((Bfgs.reset B).dense n n).PosDef := by
    rw [hB.dense_reset]
    exact posDef_diagonal_diag hB.posDef
  rcases hB.full with ⟨f, rfl⟩
  refine ⟨⟨_, reset_ofFunction f⟩, ?_, hpos⟩
  rw [reset_ofFunction]
  apply isReal_ofFunction
  intro i hi j hj
  split
  · exact isReal_of_isReal_ofFunction hB.real hi hj
  · exact isReal_real 0

end Update

end SeqQuad.Bfgs
