import SeqQuad.Proofs.Curvature.Update
import SeqQuad.Proofs.Nonlinear.LimitedMemory

/-!
# The guard of the divisors

A divisor that passes the guard is real, and a sum or a product is real only if its operands are,
so everything that an applied update divides and adds is real as well. What is left is a divisor
that is zero. Every bound that is a number stops it; a bound that is not a number is below no
magnitude and stops nothing, and the options let it pass.
-/

namespace SeqQuad

open Extended Scalar

/-! ## Values of a change on the pattern -/

namespace Extended

/-- A real number has a real inverse unless it is zero. -/
theorem isReal_one_div_iff {r : ℝ} : (1 / (r : Extended)).IsReal ↔ r ≠ 0 := by
  by_cases hr : r = 0
  · have hinv : (1 : Extended) / (r : Extended) = 1 * posInf := by
      rw [div_def, Extended.inv, if_pos hr]
    rw [hinv, isReal_mul_iff]
    simp [hr]
  · rw [one_eq, real_div_real 1 hr]
    simp [hr]

end Extended

namespace SparseMatrix

section Storage

variable {α : Type} {A : SparseMatrix α}

theorem mergeWith_mergeWith {β : Type} (f g : α → β → α) (a : List α) (b : List β) :
    Vec.mergeWith g (Vec.mergeWith f a b) b = Vec.mergeWith (fun v p => g (f v p) p) a b := by
  induction a generalizing b with
  | nil => rfl
  | cons v a ih =>
      cases b with
      | nil => rfl
      | cons p b => rw [Vec.mergeWith, Vec.mergeWith, Vec.mergeWith, ih]

/-- Two changes on the pattern are one. -/
theorem mapStored_mapStored (A : SparseMatrix α) (f g : ℕ → ℕ → α → α) :
    (A.mapStored f).mapStored g = A.mapStored fun i j v => g i j (f i j v) := by
  have hpositions : (A.mapStored f).positions = A.positions := rfl
  rw [mapStored, hpositions]
  simp only [mapStored, mergeWith_mergeWith]

theorem WellFormed.mapStored (h : A.WellFormed) (f : ℕ → ℕ → α → α) :
    (A.mapStored f).WellFormed where
  starts_pos := h.starts_pos
  start_zero := h.start_zero
  start_le := h.start_le
  start_height := by
    rw [stored_mapStored]
    exact h.start_height
  paired := by
    rw [stored_mapStored]
    exact h.paired
  col_lt := h.col_lt

theorem WellFormed.addOuter [Scalar α] (h : A.WellFormed) (c : α) (u v : List α) :
    (A.addOuter c u v).WellFormed :=
  h.mapStored _

theorem WellFormed.located (h : A.WellFormed) : A.Located := by
  intro i hi
  refine .inr ?_
  rw [h.paired]
  exact h.start_le_stored (i + 1) hi

theorem WellFormed.mem_positions (h : A.WellFormed) {p : ℕ × ℕ} (hp : p ∈ A.positions) :
    p.1 < A.height ∧ p.2 < A.cols := by
  obtain ⟨hi, hj⟩ := mem_positions_iff.mp hp
  refine ⟨hi, h.col_lt p.2 ?_⟩
  rw [rowColumns, Array.toList_extract, List.extract_eq_take_drop] at hj
  exact Array.mem_toList_iff.mp (List.mem_of_mem_drop (List.mem_of_mem_take hj))

/-- Vectors of the dimensions of a matrix have an outer product to add. -/
theorem WellFormed.addOuter?_eq_some [Scalar α] (h : A.WellFormed) (c : α) {u v : List α}
    (hu : A.height ≤ u.length) (hv : A.cols ≤ v.length) :
    A.addOuter? c u v = some (A.addOuter c u v) := by
  refine if_pos ⟨h.located, fun p hp => ?_⟩
  obtain ⟨hrow, hcol⟩ := h.mem_positions (List.mem_of_mem_take hp)
  exact ⟨hrow.trans_le hu, hcol.trans_le hv⟩

end Storage

section Values

variable {A : SparseMatrix Extended}

theorem isReal_ofRows_iff {cols : ℕ} {rs : List (List (ℕ × Extended))} :
    (ofRows cols rs).IsReal ↔ ∀ row ∈ rs, ∀ e ∈ row, e.2.IsReal := by
  refine ⟨fun h row hrow => ?_, isReal_of_rows⟩
  rw [← rows_ofRows cols rs] at hrow
  obtain ⟨i, _, rfl⟩ := mem_rows.mp hrow
  exact h.row i

/-- A change on the pattern leaves real values just when it does so at every entry. -/
theorem WellFormed.isReal_mapStored_iff (h : A.WellFormed) (f : ℕ → ℕ → Extended → Extended) :
    (A.mapStored f).IsReal ↔ ∀ i < A.height, ∀ e ∈ A.row i, (f i e.1 e.2).IsReal := by
  have hrow : ∀ i (hi : i < A.rows.length), A.rows[i] = A.row i := by simp [rows]
  have hlen : A.rows.length = A.height := by simp [rows]
  rw [h.eq_ofRows_rows, mapStored_ofRows, isReal_ofRows_iff, height_ofRows, hlen]
  constructor
  · intro hreal i hi e he
    rw [row_ofRows _ _ (hlen.symm ▸ hi)] at he
    exact hreal _ (List.mem_mapIdx.mpr ⟨i, hlen.symm ▸ hi, rfl⟩) _ (List.mem_map.mpr ⟨e, he, rfl⟩)
  · intro hreal row hmem e he
    obtain ⟨i, hi, rfl⟩ := List.mem_mapIdx.mp hmem
    obtain ⟨e, he, rfl⟩ := List.mem_map.mp he
    refine hreal i (hlen ▸ hi) e ?_
    rwa [row_ofRows]

/-- Rows without entries store nothing. -/
theorem WellFormed.stored_eq_zero_iff (h : A.WellFormed) :
    A.stored = 0 ↔ ∀ i < A.height, A.row i = [] := by
  rw [stored, ← Array.length_toList, h.values_eq, List.length_map, List.length_eq_zero_iff,
    List.flatten_eq_nil_iff]
  constructor
  · intro hrows i hi
    exact hrows _ (mem_rows.mpr ⟨i, hi, rfl⟩)
  · intro hrows row hrow
    obtain ⟨i, hi, rfl⟩ := mem_rows.mp hrow
    exact hrows i hi

end Values

end SparseMatrix

namespace Bfgs

open SparseMatrix

/-! ## What an update of fitting dimensions does -/

section Update

variable {α : Type} [Scalar α]

/-- The gradient change that an update works with. -/
def dampedChange (b : SparseMatrix α) (s change : List α) : List α :=
  damped (damping (Vec.dot s change) (Vec.dot s (b.apply s))) change (b.apply s)

/-- The two outer products of an update added at every stored position. -/
def balanced (b : SparseMatrix α) (s change : List α) : SparseMatrix α :=
  let y := dampedChange b s change
  let q := b.apply s
  b.mapStored fun i j v => v + 1 / Vec.dot s y * Vec.coord y i * Vec.coord y j +
    -(1 / Vec.dot s q) * Vec.coord q i * Vec.coord q j

/-- The curvature along the step by the gradients or by the approximation is unusable. -/
def skips (b : SparseMatrix α) (s change : List α) (minCurvature : α) : Bool :=
  unusable (Vec.dot s (dampedChange b s change)) minCurvature ||
    unusable (Vec.dot s (b.apply s)) minCurvature

/-- An update of fitting dimensions has a result, and the guard alone decides which. -/
theorem update?_eq_some {n : ℕ} {b : SparseMatrix α} {x xOld glag glagOld : List α}
    (hb : b.WellFormed) (hheight : b.height = n) (hcols : b.cols = n) (hx : x.length = n)
    (hxOld : xOld.length = n) (hglag : glag.length = n) (hglagOld : glagOld.length = n)
    (minCurvature : α) : ∃ outcome,
    update? b x xOld glag glagOld minCurvature =
        some (if skips b (Vec.sub x xOld) (Vec.sub glag glagOld) minCurvature then b
          else balanced b (Vec.sub x xOld) (Vec.sub glag glagOld), outcome) ∧
      ((∃ omega, outcome = .applied omega) ↔
        skips b (Vec.sub x xOld) (Vec.sub glag glagOld) minCurvature = false) := by
  have hstep : (Vec.sub x xOld).length = b.cols := by simp [hx, hxOld, hcols]
  have hchange : (Vec.sub glag glagOld).length = n := by simp [hglag, hglagOld]
  unfold update?
  dsimp only
  rw [mulVec_eq_ok_iff.mpr ⟨hstep, hb.readable, rfl⟩]
  dsimp only
  generalize Vec.sub x xOld = s
  generalize Vec.sub glag glagOld = change at hchange
  have hy : (dampedChange b s change).length = n := by rw [dampedChange, length_damped, hchange]
  have hq : (b.apply s).length = n := by rw [length_apply, hheight]
  cases h : skips b s change minCurvature with
  | true => exact ⟨_, if_pos h, by simp⟩
  | false =>
      have hgrown := hb.addOuter?_eq_some (1 / Vec.dot s (dampedChange b s change))
        (hheight.trans hy.symm).le (hcols.trans hy.symm).le
      have hbalanced := (hb.addOuter (1 / Vec.dot s (dampedChange b s change))
        (dampedChange b s change) (dampedChange b s change)).addOuter?_eq_some
        (-(1 / Vec.dot s (b.apply s)))
        (hheight.trans hq.symm).le (hcols.trans hq.symm).le
      refine ⟨.applied (damping (Vec.dot s change) (Vec.dot s (b.apply s))),
        (if_neg (Bool.not_eq_true _ ▸ h)).trans ?_, by simp⟩
      refine Option.bind_eq_some_iff.mpr
        ⟨_, hgrown, Option.bind_eq_some_iff.mpr ⟨_, hbalanced, ?_⟩⟩
      rw [addOuter, addOuter, mapStored_mapStored]
      rfl

end Update

/-! ## Updates with zero divisors -/

section Guard

variable {n : ℕ} {b : SparseMatrix Extended} {s change : List Extended}
  {minCurvature : Extended}

/-- The divisors are real and one of them is zero, and the bound is not a number, which lets it
pass. -/
structure DividesByZero (b : SparseMatrix Extended) (s change : List Extended)
    (minCurvature : Extended) : Prop where
  bound : minCurvature = nan
  gradients : (Vec.dot s (dampedChange b s change)).IsReal
  approximation : (Vec.dot s (b.apply s)).IsReal
  zero : Vec.dot s (dampedChange b s change) = 0 ∨ Vec.dot s (b.apply s) = 0

theorem unusable_nan {c : Extended} : unusable c nan = false ↔ c.IsReal := by
  simp [unusable, isFinite_iff]

theorem isReal_of_unusable_eq_false {c m : Extended} (h : unusable c m = false) : c.IsReal := by
  rw [unusable, Bool.or_eq_false_iff, Bool.not_eq_false', isFinite_iff] at h
  exact h.2

/-- Divisors pass the guard and one is zero just when the bound is not a number. -/
theorem dividesByZero_iff (hm : ¬minCurvature < 0)
    (hpass : skips b s change minCurvature = false) :
    DividesByZero b s change minCurvature ↔
      Vec.dot s (dampedChange b s change) = 0 ∨ Vec.dot s (b.apply s) = 0 := by
  rw [skips, Bool.or_eq_false_iff] at hpass
  refine ⟨fun h => h.zero, fun hzero => ?_⟩
  refine ⟨?_, isReal_of_unusable_eq_false hpass.1, isReal_of_unusable_eq_false hpass.2, hzero⟩
  by_contra hnan
  rcases hzero with hzero | hzero
  · obtain ⟨r, hr, hne⟩ := unusable_eq_false hnan hm hpass.1
    exact hne (real_inj.mp (hr.symm.trans hzero))
  · obtain ⟨r, hr, hne⟩ := unusable_eq_false hnan hm hpass.2
    exact hne (real_inj.mp (hr.symm.trans hzero))

theorem DividesByZero.skips_eq_false (h : DividesByZero b s change minCurvature) :
    skips b s change minCurvature = false := by
  rw [skips, h.bound, unusable_nan.mpr h.gradients, unusable_nan.mpr h.approximation]
  rfl

/-- With real divisors the outer products are real everywhere or nowhere. -/
theorem isReal_balanced_iff (hb : b.WellFormed) (hheight : b.height = n) (hcols : b.cols = n)
    (hreal : b.IsReal) (hs : s.length = n) (hchange : change.length = n)
    (hsy : (Vec.dot s (dampedChange b s change)).IsReal)
    (hsBs : (Vec.dot s (b.apply s)).IsReal) :
    (balanced b s change).IsReal ↔ b.stored = 0 ∨
      ¬(Vec.dot s (dampedChange b s change) = 0 ∨ Vec.dot s (b.apply s) = 0) := by
  have hy : (dampedChange b s change).length = n := by rw [dampedChange, length_damped, hchange]
  have hq : (b.apply s).length = n := by rw [length_apply, hheight]
  -- a sum of products is real only if all its operands are
  have hycoord := fun i hi => ((Vec.isReal_dot_iff hs hy.ge).mp hsy i hi).2
  have hqcoord := fun i hi => ((Vec.isReal_dot_iff hs hq.ge).mp hsBs i hi).2
  obtain ⟨sy, hsy⟩ := hsy
  obtain ⟨sBs, hsBs⟩ := hsBs
  have hentry : ∀ i < b.height, ∀ e ∈ b.row i,
      (e.2 + 1 / (sy : Extended) * Vec.coord (dampedChange b s change) i *
          Vec.coord (dampedChange b s change) e.1 +
        -(1 / (sBs : Extended)) * Vec.coord (b.apply s) i * Vec.coord (b.apply s) e.1).IsReal ↔
      ¬(sy = 0 ∨ sBs = 0) := by
    intro i hi e he
    have hj : e.1 < n := hcols ▸ hb.readable.col_lt hi e he
    have hi : i < n := hheight ▸ hi
    rw [isReal_add_iff, isReal_add_iff, isReal_mul_iff, isReal_mul_iff, isReal_mul_iff,
      isReal_mul_iff, isReal_neg_iff, isReal_one_div_iff, isReal_one_div_iff, not_or]
    simp [hycoord i hi, hycoord e.1 hj, hqcoord i hi, hqcoord e.1 hj, hreal.row i e he]
  rw [balanced, hsy, hsBs, hb.isReal_mapStored_iff, hb.stored_eq_zero_iff, zero_eq, real_inj,
    real_inj]
  constructor
  · intro h
    by_cases hzero : sy = 0 ∨ sBs = 0
    · refine .inl fun i hi => List.eq_nil_iff_forall_not_mem.mpr fun e he => ?_
      exact (hentry i hi e he).mp (h i hi e he) hzero
    · exact .inr hzero
  · rintro (hnil | hdivisors) i hi e he
    · rw [hnil i hi] at he
      exact absurd he List.not_mem_nil
    · exact (hentry i hi e he).mpr hdivisors

/-- An update of fitting dimensions never changes the pattern, and one that is not applied changes
nothing. Whatever the step and the gradients are, real values stay real, unless there is one to
spoil, the bound is not a number and a divisor is zero. -/
theorem guarded_update {opt : Nonlinear.Options Extended} {x xOld glag glagOld : List Extended}
    (hopt : opt.validate = .ok ()) (hb : b.WellFormed) (hheight : b.height = n)
    (hcols : b.cols = n) (hreal : b.IsReal) (hx : x.length = n) (hxOld : xOld.length = n)
    (hglag : glag.length = n) (hglagOld : glagOld.length = n) :
    ∃ b' outcome, update? b x xOld glag glagOld opt.minCurvature = some (b', outcome) ∧
      b'.cols = b.cols ∧ b'.starts = b.starts ∧ b'.columns = b.columns ∧
      ((∀ omega, outcome ≠ .applied omega) → b' = b) ∧
      (b'.IsReal ↔ b.stored = 0 ∨
        ¬DividesByZero b (Vec.sub x xOld) (Vec.sub glag glagOld) opt.minCurvature) := by
  obtain ⟨outcome, hupdate, happlied⟩ :=
    update?_eq_some hb hheight hcols hx hxOld hglag hglagOld opt.minCurvature
  have hs : (Vec.sub x xOld).length = n := by simp [hx, hxOld]
  have hchange : (Vec.sub glag glagOld).length = n := by simp [hglag, hglagOld]
  have hm := Nonlinear.minCurvature_nonneg hopt
  generalize Vec.sub x xOld = s at hupdate happlied hs ⊢
  generalize Vec.sub glag glagOld = change at hupdate happlied hchange ⊢
  refine ⟨_, outcome, hupdate, ?_⟩
  cases hskips : skips b s change opt.minCurvature with
  | true =>
      have hzero : ¬DividesByZero b s change opt.minCurvature := fun h =>
        Bool.false_ne_true (h.skips_eq_false.symm.trans hskips)
      exact ⟨rfl, rfl, rfl, fun _ => rfl, iff_of_true hreal (.inr hzero)⟩
  | false =>
      obtain ⟨omega, homega⟩ := happlied.mpr hskips
      refine ⟨rfl, rfl, rfl, fun hne => absurd homega (hne omega), ?_⟩
      rw [dividesByZero_iff hm hskips]
      rw [skips, Bool.or_eq_false_iff] at hskips
      exact isReal_balanced_iff hb hheight hcols hreal hs hchange
        (isReal_of_unusable_eq_false hskips.1) (isReal_of_unusable_eq_false hskips.2)

end Guard

section Standstill

/-- Options whose bound for the curvature is not a number. -/
noncomputable def unboundedOptions : Nonlinear.Options Extended :=
  { Nonlinear.Options.default with minCurvature := nan }

theorem validate_unboundedOptions : unboundedOptions.validate = .ok () := by
  simp only [Nonlinear.Options.validate, unboundedOptions, Nonlinear.Options.default,
    ofScientific_eq, zero_eq, one_eq, real_lt_real, nan_lt]
  norm_num

theorem apply_initial_standstill :
    (initial 1 : SparseMatrix Extended).apply [real 0] = [real 0] := by
  show [0 + real 1 * real 0] = [real 0]
  simp

/-- A step that does not move divides by zero, which leaves no number in the approximation. -/
theorem standstill_spoils : ∃ b' outcome,
    update? (initial 1) [0] [0] [1] [0] unboundedOptions.minCurvature = some (b', outcome) ∧
      b'.columns = (initial 1 : SparseMatrix Extended).columns ∧ ¬b'.IsReal := by
  have hb : (initial 1 : SparseMatrix Extended).WellFormed := wellFormed_ofRows (by simp)
  obtain ⟨b', outcome, hupdate, -, -, hcolumns, -, hiff⟩ :=
    @guarded_update 1 (initial 1) unboundedOptions [0] [0] [1] [0] validate_unboundedOptions hb rfl
      rfl (fullPosDef_initial 1).real rfl rfl rfl rfl
  have hstep : Vec.sub [(0 : Extended)] [0] = [real 0] := by simp [Vec.sub]
  have hcurvature : Vec.dot [real 0] [real 0] = 0 := by simp [Vec.dot]
  have hdamping : damping (0 : Extended) 0 = 1 := by simp [damping]
  have hchange : dampedChange (initial 1) [real 0] [real 1] = [real 1] := by
    have hdot : Vec.dot [real 0] [real 1] = 0 := by simp [Vec.dot]
    rw [dampedChange, apply_initial_standstill, hdot, hcurvature, hdamping]
    exact if_pos (same_real.mpr rfl)
  have hdivides : DividesByZero (initial 1) [real 0] (Vec.sub [1] [0]) nan := {
    bound := rfl
    gradients := by
      have hsub : Vec.sub [(1 : Extended)] [0] = [real 1] := by simp [Vec.sub]
      rw [hsub, hchange]
      simp [Vec.dot]
    approximation := by
      rw [apply_initial_standstill, hcurvature]
      exact isReal_real 0
    zero := by
      rw [apply_initial_standstill]
      exact .inr hcurvature }
  refine ⟨b', outcome, hupdate, hcolumns, fun h => ?_⟩
  rw [hstep] at hiff
  rcases hiff.mp h with hstored | hdefined
  · cases hstored
  · exact hdefined hdivides

end Standstill

end Bfgs

end SeqQuad
